import RefinementTypes.Proofs.Source.Naming
import RefinementTypes.Proofs.Source.Token

/-!
# Splitting source text into tokens

A token is read from the front of a text without regard to what comes later. Names and numbers take
every code point that can continue them.
-/

namespace RefinementTypes.Source

def continuesNumber (p : CodePoint) : Bool :=
  p.char?.any fun c => c.isDigit || c = '.' || c = '-'

/-- Whether a number is in front of `rest` when `p` is: a minus alone can also begin an arrow. -/
def startsNumber (p : CodePoint) (rest : Text) : Bool :=
  p.char?.any Char.isDigit || (p = .char '-' && (rest.head?.any fun q => q.char?.any Char.isDigit))

def int? (t : Text) : Option Int := Decimal.parseExponent? (t.filterMap CodePoint.char?)

/-- Numbers with a point are doubles. -/
def number? (t : Text) : Option Literal :=
  if t.contains (.char '.') then
    (Decimal.parse? (t.filterMap CodePoint.char?)).map fun d => .float (Binary64.ofDecimal d)
  else (int? t).map .int

def wordToken (word : Text) : Token :=
  if word = "case" then .case
  else if word = "of" then .of
  else if word = "auto" then .auto
  else if word = "default" then .default
  else .atom (.var word)

/-- A word with what is behind it, which tells a parameter from a name. -/
def wordOrParam? (word rest : Text) : Option (List Token × Text) :=
  if word = "param" ∧ rest.head? = some (.char '#') then
    (int? (rest.tail.takeWhile continuesNumber)).map fun i =>
      ([.atom (.param i)], rest.tail.dropWhile continuesNumber)
  else some ([wordToken word], rest)

def symbol? : Text → Option (List Token × Text)
  | .char ' ' :: t => some ([], t)
  | .char '(' :: t => some ([.opening], t)
  | .char ')' :: t => some ([.closing], t)
  | .char '@' :: .char '\x7b' :: t => some ([.autoOpening], t)
  | .char '\x7b' :: t => some ([.curlyOpening], t)
  | .char '\x7d' :: t => some ([.curlyClosing], t)
  | .char ':' :: t => some ([.colon], t)
  | .char '-' :: .char '>' :: t => some ([.arrow], t)
  | .char '=' :: .char '>' :: t => some ([.doubleArrow], t)
  | .char ';' :: t => some ([.semicolon], t)
  | .char '_' :: t => some ([.atom .hole], t)
  | _ => none

/-- The token in front of a text, or no token for a space, with the rest of the text. -/
def next? : Text → Option (List Token × Text)
  | [] => none
  | p :: t =>
      if startsName p then
        wordOrParam? (p :: t.takeWhile continuesName) (t.dropWhile continuesName)
      else if startsNumber p t then
        (number? (p :: t.takeWhile continuesNumber)).map fun value =>
          ([.atom (.lit value)], t.dropWhile continuesNumber)
      else if p = .char '"' then
        match Text.Quoted.decode t with
        | .ok (s, rest) => some ([.atom (.lit (.str s))], rest)
        | .error _ => none
      else symbol? (p :: t)

private theorem length_dropWhile_le (f : CodePoint → Bool) (t : Text) :
    (t.dropWhile f).length ≤ t.length :=
  (List.dropWhile_sublist f).length_le

private theorem wordOrParam?_length {word t rest : Text} {tokens : List Token}
    (h : wordOrParam? word t = some (tokens, rest)) : rest.length ≤ t.length := by
  unfold wordOrParam? at h
  split at h
  · obtain ⟨i, _, hi⟩ := Option.map_eq_some_iff.1 h
    cases hi
    have hdrop := length_dropWhile_le continuesNumber t.tail
    rw [List.length_tail] at hdrop
    omega
  · cases h
    exact Nat.le_refl _

private theorem symbol?_length {t rest : Text} {tokens : List Token}
    (h : symbol? t = some (tokens, rest)) : rest.length < t.length := by
  unfold symbol? at h
  split at h <;> cases h <;> simp only [List.length_cons] <;> omega

private theorem next?_length {t rest : Text} {tokens : List Token}
    (h : next? t = some (tokens, rest)) :
    rest.length < t.length := by
  cases t with
  | nil => cases h
  | cons p t =>
      rw [List.length_cons]
      rw [next?] at h
      split at h
      · have := wordOrParam?_length h
        have := length_dropWhile_le continuesName t
        omega
      split at h
      · obtain ⟨value, _, hvalue⟩ := Option.map_eq_some_iff.1 h
        cases hvalue
        have := length_dropWhile_le continuesNumber t
        omega
      split at h
      · split at h
        · rename_i hdecode
          cases h
          have := Text.Quoted.decode_length hdecode
          omega
        · cases h
      · exact symbol?_length h

set_option linter.unusedVariables false in
/-- The tokens of a text, if it is made of tokens. -/
def lex (t : Text) : Option (List Token) :=
  match h : next? t with
  | none => if t = [] then some [] else none
  | some (tokens, rest) => (lex rest).map (tokens ++ ·)
termination_by t.length
decreasing_by exact next?_length h

theorem lex_of_next? {t rest : Text} {tokens : List Token} (h : next? t = some (tokens, rest)) :
    lex t = (lex rest).map (tokens ++ ·) := by
  rw [lex]
  split
  · rename_i hnone
    rw [h] at hnone
    cases hnone
  · rename_i hsome
    rw [h] at hsome
    cases hsome
    rfl

end RefinementTypes.Source
