import RefinementTypes.Json.Basic
import RefinementTypes.Text.Quoted

/-!
# Reading JSON

A machine over the code points of a text, with a stack of the arrays and objects that are still
open. A text that is no JSON value is answered with the offset at which reading stopped. Beyond the
grammar the words `NaN`, `Infinity` and `-Infinity` are numbers.
-/

namespace RefinementTypes.Json

set_option linter.unusedVariables false

/-- An open array with its items so far, the last one first, or an open object with its members so
far and the name whose value comes next. -/
inductive Frame where
  | items (done : List Json)
  | members (done : List (Text × Json)) (name : Text)

def isSpace (p : CodePoint) : Bool :=
  p == .char ' ' || p == .char '\t' || p == .char '\n' || p == .char '\r'

def skipSpaces (t : Text) : Text := t.dropWhile isSpace

private theorem skipSpaces_length (t : Text) : (skipSpaces t).length ≤ t.length :=
  List.Sublist.length_le (List.dropWhile_sublist _)

def isDigit (p : CodePoint) : Bool := p.char?.any Char.isDigit

/-- The digits of the whole part: one zero, or a run that starts with another digit. -/
def splitWhole : Text → Text × Text
  | .char '0' :: t => ([.char '0'], t)
  | t => (t.takeWhile isDigit, t.dropWhile isDigit)

/-- A point with the digits after it, if there is at least one. -/
def splitFraction : Text → Text × Text
  | .char '.' :: t =>
      if (t.takeWhile isDigit).isEmpty then ([], .char '.' :: t)
      else (.char '.' :: t.takeWhile isDigit, t.dropWhile isDigit)
  | t => ([], t)

/-- An exponent mark, a sign and digits, if there is at least one digit. -/
def splitExponent : Text → Text × Text
  | mark :: t =>
      if mark = .char 'e' ∨ mark = .char 'E' then
        let (sign, ds) : Text × Text := match t with
          | .char '+' :: ds => ([.char '+'], ds)
          | .char '-' :: ds => ([.char '-'], ds)
          | ds => ([], ds)
        if (ds.takeWhile isDigit).isEmpty then ([], mark :: t)
        else (mark :: sign ++ ds.takeWhile isDigit, ds.dropWhile isDigit)
      else ([], mark :: t)
  | [] => ([], [])

private theorem takeWhile_dropWhile (t : Text) :
    t.takeWhile isDigit ++ t.dropWhile isDigit = t := List.takeWhile_append_dropWhile

private theorem splitWhole_append (t : Text) : (splitWhole t).1 ++ (splitWhole t).2 = t := by
  unfold splitWhole
  split
  · rfl
  · exact takeWhile_dropWhile _

private theorem splitFraction_append (t : Text) :
    (splitFraction t).1 ++ (splitFraction t).2 = t := by
  unfold splitFraction
  split
  · split
    · rfl
    · simp
  · rfl

private theorem splitExponent_append (t : Text) :
    (splitExponent t).1 ++ (splitExponent t).2 = t := by
  unfold splitExponent
  split
  · split
    · dsimp only
      split <;> split <;> simp
    · rfl
  · rfl

/-- The value of a numeral for a double. -/
def ofDouble : Binary64 → Json
  | .infinite negative => overflow negative
  | x => float x

/-- A number without its sign, and the rest of the text. A point or an exponent makes a double. -/
def readNumber? (negative : Bool) (t : Text) : Option (Json × Text) :=
  let whole := splitWhole t
  let fraction := splitFraction whole.2
  let exponent := splitExponent fraction.2
  let chars (t : Text) : List Char := t.filterMap CodePoint.char?
  if whole.1.isEmpty then none
  else if fraction.1.isEmpty && exponent.1.isEmpty then
    let n : Int := Decimal.ofDigits (chars whole.1)
    some (int (if negative then -n else n), exponent.2)
  else
    let numeral := Decimal.sign negative ++ chars (whole.1 ++ fraction.1 ++ exponent.1)
    (Decimal.parse? numeral).map fun d => (ofDouble (Binary64.ofDecimal d), exponent.2)

private theorem readNumber?_length {negative : Bool} {t rest : Text} {v : Json}
    (h : readNumber? negative t = some (v, rest)) : rest.length < t.length := by
  have hw := congrArg List.length (splitWhole_append t)
  have hf := congrArg List.length (splitFraction_append (splitWhole t).2)
  have he := congrArg List.length (splitExponent_append (splitFraction (splitWhole t).2).2)
  simp only [List.length_append] at hw hf he
  have hrest : (splitWhole t).1 ≠ [] ∧
      rest = (splitExponent (splitFraction (splitWhole t).2).2).2 := by
    simp only [readNumber?] at h
    split at h
    · cases h
    · rename_i hne
      refine ⟨by simpa using hne, ?_⟩
      split at h
      · cases h; rfl
      · obtain ⟨d, -, hd⟩ := Option.map_eq_some_iff.1 h
        cases hd; rfl
  have hpos := List.length_pos_iff.2 hrest.1
  rw [hrest.2]
  omega

/-- The words that stand for values. -/
def words : List (Text × Json) :=
  [("null", null), ("true", bool true), ("false", bool false), ("NaN", float .nan),
   ("Infinity", float (.infinite false)), ("-Infinity", float (.infinite true))]

/-- The value of the word at the start of a text, and the rest of the text. -/
def readWord? (t : Text) : Option (Json × Text) :=
  words.findSome? fun (word, v) =>
    if t.take word.length = word then some (v, t.drop word.length) else none

/-- A value that is neither a string nor an array nor an object. -/
def readScalar? (t : Text) : Option (Json × Text) :=
  (readWord? t).or <|
    match t with
    | .char '-' :: t => readNumber? true t
    | t => readNumber? false t

private theorem readWord?_length {t rest : Text} {v : Json} (h : readWord? t = some (v, rest)) :
    rest.length < t.length := by
  obtain ⟨⟨word, w⟩, hmem, hw⟩ := List.exists_of_findSome?_eq_some h
  have hpos : 0 < word.length := (by decide : ∀ w ∈ words.map Prod.fst, 0 < w.length) word
    (List.mem_map_of_mem hmem)
  obtain ⟨hp, hr⟩ := Option.ite_none_right_eq_some.1 hw
  have hl := congrArg List.length hp
  cases hr
  simp only [List.length_take, List.length_drop] at hl ⊢
  omega

private theorem readScalar?_length {t rest : Text} {v : Json} (h : readScalar? t = some (v, rest)) :
    rest.length < t.length := by
  rcases Option.or_eq_some_iff.1 h with h | ⟨-, h⟩
  · exact readWord?_length h
  · split at h
    · exact Nat.lt_succ_of_lt (readNumber?_length h)
    · exact readNumber?_length h

/-- The offset from the start of a text of `total` code points. -/
def failAt {α : Type} (total remaining : Nat) : Except Nat α := .error (total - remaining)

/-- The string after its opening quote, with the rest of the text. -/
def readString (total : Nat) (t : Text) :
    Except Nat (Text × { rest : Text // rest.length < t.length }) :=
  match h : Text.Quoted.decode t with
  | .ok (s, rest) => .ok (s, ⟨rest, Text.Quoted.decode_length h⟩)
  | .error .unterminated => failAt total (t.length + 1)
  | .error (.misplaced remaining) => failAt total remaining

/-- The name of a member and its colon, up to where its value starts. -/
def readName (total : Nat) (t : Text) :
    Except Nat (Text × { rest : Text // rest.length < t.length }) :=
  match t with
  | .char '"' :: r => do
      let (name, ⟨r₁, h₁⟩) ← readString total r
      match h : skipSpaces r₁ with
      | .char ':' :: r₂ =>
          return (name, ⟨skipSpaces r₂, by
            have := skipSpaces_length r₂
            have := skipSpaces_length r₁
            rw [h] at this
            simp only [List.length_cons] at *
            omega⟩)
      | r₂ => failAt total r₂.length
  | r => failAt total r.length

mutual

/-- Reads a value that starts here, for the innermost open frame. -/
def readValue (total : Nat) (stack : List Frame) (t : Text) :
    Except Nat (Json × Text) :=
  match t with
  | .char '"' :: r => do
      let (s, ⟨r', _⟩) ← readString total r
      resume total (str s) stack r'
  | .char '[' :: r =>
      match h : skipSpaces r with
      | .char ']' :: r' => resume total (array []) stack r'
      | r' => readValue total (.items [] :: stack) r'
  | .char '{' :: r =>
      match h : skipSpaces r with
      | .char '}' :: r' => resume total (object []) stack r'
      | r' => do
          let (name, ⟨r'', _⟩) ← readName total r'
          readValue total (.members [] name :: stack) r''
  | t =>
      match h : readScalar? t with
      | some (v, r) => resume total v stack r
      | none => failAt total t.length
termination_by (t.length, 0)
decreasing_by
  all_goals
    apply Prod.Lex.left
    grind [skipSpaces_length, → readScalar?_length]

/-- Hands a finished value to the innermost open frame. -/
def resume (total : Nat) (v : Json) (stack : List Frame) (t : Text) :
    Except Nat (Json × Text) :=
  match stack with
  | [] => .ok (v, t)
  | .items done :: stack =>
      match h : skipSpaces t with
      | .char ',' :: r => readValue total (.items (v :: done) :: stack) (skipSpaces r)
      | .char ']' :: r => resume total (array (v :: done).reverse) stack r
      | r => failAt total r.length
  | .members done name :: stack =>
      match h : skipSpaces t with
      | .char ',' :: r => do
          let (next, ⟨r', _⟩) ← readName total (skipSpaces r)
          readValue total (.members (putMember name v done) next :: stack) r'
      | .char '}' :: r => resume total (object (putMember name v done)) stack r
      | r => failAt total r.length
termination_by (t.length, 1)
decreasing_by
  all_goals
    apply Prod.Lex.left
    grind [skipSpaces_length]

end

/-- The value of a text that is one JSON value with blanks around it, or the offset at which reading
stopped. -/
def parse (text : Text) : Except Nat Json := do
  let (v, rest) ← readValue text.length [] (skipSpaces text)
  match skipSpaces rest with
  | [] => return v
  | rest => failAt text.length rest.length

end RefinementTypes.Json
