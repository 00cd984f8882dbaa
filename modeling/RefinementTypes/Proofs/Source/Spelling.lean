import RefinementTypes.Proofs.Binary64.Shortest
import RefinementTypes.Proofs.Source.Lexer
import RefinementTypes.Proofs.Text.Quoted

/-!
# Texts that spell tokens

A text spells tokens when the lexer reads just them in front of whatever follows. Names and numbers
end where a space, a semicolon or a closing bracket stands, which is what follows them in source
text; everything else ends by itself.
-/

namespace RefinementTypes.Source

/-- The code points at which names and numbers end. -/
def isDelimiter (p : CodePoint) : Bool :=
  p = .char ' ' || p = .char ';' || p = .char ')' || p = .char '\x7d'

def Delimited (rest : Text) : Prop := ∀ p ∈ rest.head?, isDelimiter p = true

def Anything (_ : Text) : Prop := True

/-- The text spells the tokens in front of everything for which `Follow` holds. -/
def Spells (Follow : Text → Prop) (text : Text) (tokens : List Token) : Prop :=
  ∀ rest, Follow rest → lex (text ++ rest) = (lex rest).map (tokens ++ ·)

theorem delimited_cons {p : CodePoint} (hp : isDelimiter p = true) (rest : Text) :
    Delimited (p :: rest) := by
  intro q hq
  cases hq
  exact hp

namespace Spells
variable {Follow Follow' : Text → Prop} {text text' : Text} {tokens tokens' : List Token}

private theorem of_next? (h : ∀ rest, Follow rest → next? (text ++ rest) = some (tokens, rest)) :
    Spells Follow text tokens :=
  fun rest hrest => lex_of_next? (h rest hrest)

theorem delimited (h : Spells Anything text tokens) : Spells Delimited text tokens :=
  fun rest _ => h rest trivial

theorem append (h : Spells Follow text tokens) (h' : Spells Follow' text' tokens')
    (hfollow : ∀ rest, Follow' rest → Follow (text' ++ rest)) :
    Spells Follow' (text ++ text') (tokens ++ tokens') := by
  intro rest hrest
  rw [List.append_assoc, h _ (hfollow rest hrest), h' rest hrest, Option.map_map]
  congr 1
  funext more
  exact (List.append_assoc ..).symm

theorem symbol_append (h : Spells Anything text tokens) (h' : Spells Follow' text' tokens') :
    Spells Follow' (text ++ text') (tokens ++ tokens') :=
  h.append h' fun _ _ => trivial

end Spells

theorem spells_space : Spells Anything " " [] := Spells.of_next? fun _ _ => rfl

theorem spells_opening : Spells Anything "(" [.opening] := Spells.of_next? fun _ _ => rfl

theorem spells_closing : Spells Anything ")" [.closing] := Spells.of_next? fun _ _ => rfl

theorem spells_autoOpening : Spells Anything "@\x7b" [.autoOpening] :=
  Spells.of_next? fun _ _ => rfl

theorem spells_curlyOpening : Spells Anything "\x7b" [.curlyOpening] :=
  Spells.of_next? fun _ _ => rfl

theorem spells_curlyClosing : Spells Anything "\x7d" [.curlyClosing] :=
  Spells.of_next? fun _ _ => rfl

theorem spells_hole : Spells Anything "_" [.atom .hole] := Spells.of_next? fun _ _ => rfl

theorem Spells.of_next?_space {text : Text} {tokens : List Token}
    (h : ∀ rest, next? (text ++ rest) = some (tokens, .char ' ' :: rest)) :
    Spells Anything text tokens := by
  intro rest _
  have hspace := spells_space rest trivial
  rw [lex_of_next? (h rest)]
  exact congrArg (Option.map (tokens ++ ·)) (hspace.trans (congrFun Option.map_id _))

theorem spells_colon : Spells Anything " : " [.colon] := by
  have hcolon : Spells Anything ": " [.colon] := Spells.of_next?_space fun _ => rfl
  exact spells_space.symbol_append hcolon

theorem spells_arrow : Spells Anything " -> " [.arrow] := by
  have harrow : Spells Anything "-> " [.arrow] := Spells.of_next?_space fun _ => rfl
  exact spells_space.symbol_append harrow

theorem spells_doubleArrow : Spells Anything " => " [.doubleArrow] := by
  have harrow : Spells Anything "=> " [.doubleArrow] := Spells.of_next?_space fun _ => rfl
  exact spells_space.symbol_append harrow

theorem spells_semicolon : Spells Anything "; " [.semicolon] := Spells.of_next?_space fun _ => rfl

theorem spells_case : Spells Anything "case " [.case] := Spells.of_next?_space fun _ => rfl

theorem spells_of : Spells Anything " of \x7b " [.of, .curlyOpening] := by
  have hof : Spells Anything "of " [.of] := Spells.of_next?_space fun _ => rfl
  have hcurly : Spells Anything "\x7b " [.curlyOpening] := Spells.of_next?_space fun _ => rfl
  exact spells_space.symbol_append (hof.symbol_append hcurly)

theorem spells_end : Spells Anything " \x7d" [.curlyClosing] :=
  spells_space.symbol_append spells_curlyClosing

theorem spells_auto : Spells Anything "\x7bauto " [.curlyOpening, .auto] := by
  have hauto : Spells Anything "auto " [.auto] := Spells.of_next?_space fun _ => rfl
  exact spells_curlyOpening.symbol_append hauto

theorem spells_default : Spells Anything "\x7bdefault " [.curlyOpening, .default] := by
  have hdefault : Spells Anything "default " [.default] := Spells.of_next?_space fun _ => rfl
  exact spells_curlyOpening.symbol_append hdefault

private theorem takeWhile_delimited {f : CodePoint → Bool} {t rest : Text}
    (ht : ∀ p ∈ t, f p = true) (hrest : ∀ p ∈ rest.head?, f p = false) :
    (t ++ rest).takeWhile f = t ∧ (t ++ rest).dropWhile f = rest := by
  rw [List.takeWhile_append_of_pos ht, List.dropWhile_append_of_pos ht]
  cases rest with
  | nil => simp
  | cons p rest =>
      have hp := hrest p rfl
      simp [hp]

private theorem continues_delimiter {p : CodePoint} (h : isDelimiter p = true) :
    continuesName p = false ∧ continuesNumber p = false ∧ p ≠ .char '#' := by
  simp only [isDelimiter, Bool.or_eq_true, decide_eq_true_eq] at h
  rcases h with ((rfl | rfl) | rfl) | rfl <;> decide

private theorem wordToken_of_isName {x : Text} (h : isName x = true) :
    wordToken x = .atom (.var x) := by
  obtain _ | ⟨p, ps⟩ := x
  · cases h
  simp only [isName, words, Bool.and_eq_true, Bool.not_eq_true', List.contains_cons] at h
  simp_all [wordToken]

theorem spells_name {x : Text} (h : isName x = true) : Spells Delimited x [.atom (.var x)] := by
  refine Spells.of_next? fun rest hrest => ?_
  obtain _ | ⟨p, ps⟩ := x
  · cases h
  have hword := wordToken_of_isName h
  simp only [isName, Bool.and_eq_true, List.all_eq_true] at h
  obtain ⟨⟨hstart, hcontinue⟩, _⟩ := h
  obtain ⟨htake, hdrop⟩ := takeWhile_delimited hcontinue
    fun q hq => (continues_delimiter (hrest q hq)).1
  have hparam : ¬ (p :: ps = "param" ∧ rest.head? = some (.char '#')) := by
    rintro ⟨_, hhead⟩
    exact (continues_delimiter (hrest _ hhead)).2.2 rfl
  rw [List.cons_append, next?, if_pos hstart, htake, hdrop, wordOrParam?, if_neg hparam, hword]

private theorem filterMap_ofChars (cs : List Char) :
    (Text.ofChars cs).filterMap CodePoint.char? = cs := by
  induction cs with
  | nil => rfl
  | cons c cs ih => exact congrArg (c :: ·) ih

private theorem int?_intText (i : Int) : int? (Decimal.intText i) = some i := by
  rw [int?, Decimal.intText, filterMap_ofChars, Decimal.parseExponent?_intText]

private theorem startsName_digit {c : Char} (h : c.isDigit = true) :
    startsName (.char c) = false := by
  have halpha : ¬ c.isAlpha = true := by
    have hdef : c.isAlpha = (c.isUpper || c.isLower) := rfl
    rw [isDigit_iff] at h
    rw [hdef, Bool.or_eq_true, isUpper_iff, isLower_iff]
    omega
  exact Bool.eq_false_iff.2 halpha

private theorem continuesNumber_digit {c : Char} (h : c.isDigit = true) :
    continuesNumber (.char c) = true := by
  simp [continuesNumber, CodePoint.char?, h]

private theorem next?_number {p : CodePoint} {t rest : Text} {value : Literal}
    (hname : startsName p = false) (hstart : startsNumber p (t ++ rest) = true)
    (ht : ∀ q ∈ t, continuesNumber q = true) (hvalue : number? (p :: t) = some value)
    (hrest : Delimited rest) : next? (p :: t ++ rest) = some ([.atom (.lit value)], rest) := by
  obtain ⟨htake, hdrop⟩ := takeWhile_delimited ht
    fun q hq => (continues_delimiter (hrest q hq)).2.1
  rw [List.cons_append, next?, if_neg (Bool.eq_false_iff.1 hname), if_pos hstart, htake, hdrop,
    hvalue]
  rfl

/-- A number is a sign and digits, among which points may stand. -/
private theorem spells_number {negative : Bool} {c : Char} {cs : List Char} {value : Literal}
    (hc : c.isDigit = true) (hcs : ∀ d ∈ cs, d.isDigit = true ∨ d = '.')
    (hvalue : number? (Text.ofChars (Decimal.sign negative ++ c :: cs)) = some value) :
    Spells Delimited (Text.ofChars (Decimal.sign negative ++ c :: cs)) [.atom (.lit value)] := by
  refine Spells.of_next? fun rest hrest => ?_
  have hcontinue : ∀ p ∈ Text.ofChars cs, continuesNumber p = true := by
    intro p hp
    obtain ⟨d, hd, rfl⟩ := List.mem_map.1 hp
    rcases hcs d hd with hdigit | rfl
    · exact continuesNumber_digit hdigit
    · rfl
  cases negative with
  | true =>
      refine next?_number (t := .char c :: Text.ofChars cs) rfl ?_ ?_ hvalue hrest
      · simp [startsNumber, CodePoint.char?, hc]
      · exact List.forall_mem_cons.2 ⟨continuesNumber_digit hc, hcontinue⟩
  | false =>
      refine next?_number (startsName_digit hc) ?_ hcontinue hvalue hrest
      simp [startsNumber, CodePoint.char?, hc]

private theorem contains_ofChars (cs : List Char) (c : Char) :
    (Text.ofChars cs).contains (.char c) = cs.contains c := by
  simp [Text.ofChars]

theorem spells_int (i : Int) : Spells Delimited (Decimal.intText i) [.atom (.lit (.int i))] := by
  have hpoint : ¬ (Decimal.intText i).contains (.char '.') = true := by
    rw [Decimal.intText, contains_ofChars, List.contains_iff_mem, List.mem_append, not_or]
    constructor
    · intro h
      cases Decimal.eq_of_mem_sign h
    · intro h
      cases Decimal.isDigits_digits _ _ h
  have hvalue : number? (Decimal.intText i) = some (.int i) := by
    rw [number?, if_neg hpoint, int?_intText]
    rfl
  obtain ⟨c, cs, hdigits⟩ := List.exists_cons_of_ne_nil (Decimal.digits_ne_nil i.natAbs)
  have hall : Decimal.IsDigits (c :: cs) := hdigits ▸ Decimal.isDigits_digits _
  rw [Decimal.intText, hdigits] at hvalue ⊢
  exact spells_number (hall c (List.mem_cons_self ..))
    (fun d hd => .inl (hall d (List.mem_cons_of_mem _ hd))) hvalue

theorem spells_float (negative : Bool) (rank : Fin finiteCount) :
    Spells Delimited (Text.ofChars (Binary64.shortest negative rank).positional)
      [.atom (.lit (.float (.finite negative rank)))] := by
  obtain ⟨whole, fraction, hlayout⟩ := Decimal.exists_layout (Binary64.shortest negative rank)
  have hread := Binary64.parse?_positional_shortest negative rank
  have hpoint : (Text.ofChars (Binary64.shortest negative rank).positional).contains
      (.char '.') = true := by
    rw [contains_ofChars, List.contains_iff_mem, hlayout.text]
    simp
  have hvalue : number? (Text.ofChars (Binary64.shortest negative rank).positional) =
      some (.float (.finite negative rank)) := by
    rw [number?, if_pos hpoint, filterMap_ofChars]
    obtain ⟨d, hd, hof⟩ := Option.map_eq_some_iff.1 hread
    rw [hd, Option.map_some, hof]
  obtain ⟨c, cs, rfl⟩ := List.exists_cons_of_ne_nil hlayout.whole_ne_nil
  rw [hlayout.text] at hvalue ⊢
  refine spells_number (hlayout.whole_digits c (List.mem_cons_self ..)) ?_ hvalue
  intro d hd
  rcases List.mem_append.1 hd with hd | hd
  · exact .inl (hlayout.whole_digits d (List.mem_cons_of_mem _ hd))
  rcases List.mem_cons.1 hd with rfl | hd
  · exact .inr rfl
  · exact .inl (hlayout.fraction_digits d hd)

theorem spells_param (i : Int) :
    Spells Delimited ("param#" ++ Decimal.intText i) [.atom (.param i)] := by
  refine Spells.of_next? fun rest hrest => ?_
  have hnext : next? (("param#" : Text) ++ Decimal.intText i ++ rest) =
      wordOrParam? "param" (.char '#' :: (Decimal.intText i ++ rest)) := rfl
  have hcontinue : ∀ p ∈ Decimal.intText i, continuesNumber p = true := by
    intro p hp
    obtain ⟨c, hc, rfl⟩ := List.mem_map.1 hp
    rcases List.mem_append.1 hc with hc | hc
    · rw [Decimal.eq_of_mem_sign hc]
      rfl
    · exact continuesNumber_digit (Decimal.isDigits_digits _ _ hc)
  obtain ⟨htake, hdrop⟩ := takeWhile_delimited hcontinue
    fun q hq => (continues_delimiter (hrest q hq)).2.1
  rw [hnext, wordOrParam?, if_pos ⟨rfl, rfl⟩, List.tail_cons, htake, hdrop, int?_intText]
  rfl

theorem spells_str (s : Text) :
    Spells Anything (Text.Quoted.encode s) [.atom (.lit (.str s))] := by
  refine Spells.of_next? fun rest _ => ?_
  have hnumber (t : Text) : ¬ startsNumber (.char '"') t = true := by
    simp [startsNumber, CodePoint.char?]
  have hdecode := Text.Quoted.decode_expand s rest
  rw [Text.Quoted.encode, List.cons_append, next?, if_neg (by decide), if_neg (hnumber _),
    if_pos rfl, List.append_assoc, List.singleton_append, hdecode]

end RefinementTypes.Source
