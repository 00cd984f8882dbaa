import RefinementTypes.Proofs.Checked
import RefinementTypes.Proofs.Decimal
import RefinementTypes.Proofs.Source.Naming
import RefinementTypes.Proofs.Term.Leaves
import RefinementTypes.Proofs.Text.Lines
import RefinementTypes.Proofs.Text.Quoted
import RefinementTypes.Source.Module

/-!
# Line separators in source text

The text of a term has a line separator only where a string literal has one that is written as it
is: control characters are escaped, and every other character of source text is no separator, as
long as the names have none.
-/

namespace RefinementTypes

namespace Source
open Text (isLineSeparator range_of_isLineSeparator isStray separators separators_append
  filter_isStray_separators)

/-- No name holds a line separator. -/
def Unbroken (names : List Text) : Prop := ∀ x ∈ names, separators x = []

theorem unbroken_cons {x : Text} {xs : List Text} :
    Unbroken (x :: xs) ↔ separators x = [] ∧ Unbroken xs := List.forall_mem_cons

theorem unbroken_append {xs ys : List Text} :
    Unbroken (xs ++ ys) ↔ Unbroken xs ∧ Unbroken ys := List.forall_mem_append

private theorem unbroken_flatMap {α : Type} {f : α → List Text} {as : List α} :
    Unbroken (as.flatMap f) ↔ ∀ a ∈ as, Unbroken (f a) := List.forall_mem_flatMap

/-- A line separator that a string literal shows as it is. -/
def isVerbatim (p : CodePoint) : Bool := isLineSeparator p && 0x20 ≤ p.toNat

/-- The line separators that string literals show as they are. -/
def verbatim (strings : List Text) : Text := strings.flatMap (List.filter isVerbatim)

theorem verbatim_append (ss ts : List Text) : verbatim (ss ++ ts) = verbatim ss ++ verbatim ts :=
  List.flatMap_append

private theorem separators_control :
    ∀ n < 0x20, separators (Text.ofChars ['\\', 'u', '0', '0', Text.Quoted.hexDigit (n / 16),
      Text.Quoted.hexDigit n]) = [] := by
  decide

private theorem separators_escaped (p : CodePoint) :
    separators (Text.Quoted.escaped p) = [p].filter isVerbatim := by
  cases p with
  | half s =>
      have hno : ¬ isLineSeparator (.half s) = true := by
        intro h
        have hrange := range_of_isLineSeparator h
        have hsurrogate := s.inRange.1
        simp only [CodePoint.toNat] at hrange
        omega
      simp [Text.Quoted.escaped, separators, hno, isVerbatim]
  | char c =>
      simp only [Text.Quoted.escaped]
      unfold Text.Quoted.escape
      split
      · rfl
      · rfl
      · rfl
      · rfl
      · rfl
      · rfl
      · rfl
      · by_cases hc : c.toNat < 0x20
        · have hcontrol : ¬ 0x20 ≤ (CodePoint.char c).toNat := Nat.not_le_of_lt hc
          rw [if_pos hc, separators_control c.toNat hc]
          simp [isVerbatim, hcontrol]
        · have hprintable : 0x20 ≤ (CodePoint.char c).toNat := Nat.le_of_not_lt hc
          have hverbatim : isVerbatim (.char c) = isLineSeparator (.char c) := by
            simp [isVerbatim, hprintable]
          rw [if_neg hc, separators, Text.ofChars, List.map_singleton]
          cases hs : isLineSeparator (.char c) <;> simp [hverbatim, hs]

private theorem separators_encode (s : Text) :
    separators (Text.Quoted.encode s) = s.filter isVerbatim := by
  have hbody : separators (Text.expand Text.Quoted.escape s) = s.filter isVerbatim := by
    induction s with
    | nil => rfl
    | cons p s ih =>
        rw [Text.Quoted.expand_cons, separators_append, separators_escaped, ih,
          ← List.filter_append, List.singleton_append]
  have hopen : isLineSeparator (.char '"') = false := by decide
  have hclose : separators [.char '"'] = [] := rfl
  have hencode : separators (Text.Quoted.encode s) =
      separators (Text.expand Text.Quoted.escape s ++ [.char '"']) :=
    List.filter_cons_of_neg (by simp [hopen])
  rw [hencode, separators_append, hclose, List.append_nil, hbody]

private theorem separators_ofChars {cs : List Char}
    (h : ∀ c ∈ cs, 0x2d ≤ c.toNat ∧ c.toNat ≤ 0x39) : separators (Text.ofChars cs) = [] := by
  rw [separators, List.filter_eq_nil_iff]
  intro p hp hs
  obtain ⟨c, hc, rfl⟩ := List.mem_map.1 hp
  have hrange := range_of_isLineSeparator hs
  have hdigit := h c hc
  simp only [CodePoint.toNat] at hrange
  omega

private theorem range_of_isDigit {c : Char} (h : c.isDigit = true) :
    0x2d ≤ c.toNat ∧ c.toNat ≤ 0x39 := by
  rw [isDigit_iff] at h
  omega

private theorem range_of_mem_sign {negative : Bool} {c : Char} (h : c ∈ Decimal.sign negative) :
    0x2d ≤ c.toNat ∧ c.toNat ≤ 0x39 := by
  rw [Decimal.eq_of_mem_sign h]
  decide

private theorem separators_intText (i : Int) : separators (Decimal.intText i) = [] := by
  apply separators_ofChars
  intro c hc
  rcases List.mem_append.1 hc with hc | hc
  · exact range_of_mem_sign hc
  · exact range_of_isDigit (Decimal.isDigits_digits _ c hc)

private theorem separators_positional (d : Decimal) :
    separators (Text.ofChars d.positional) = [] := by
  obtain ⟨whole, fraction, hlayout⟩ := Decimal.exists_layout d
  apply separators_ofChars
  intro c hc
  rw [hlayout.text] at hc
  rcases List.mem_append.1 hc with hc | hc
  · exact range_of_mem_sign hc
  rcases List.mem_append.1 hc with hc | hc
  · exact range_of_isDigit (hlayout.whole_digits c hc)
  rcases List.mem_cons.1 hc with rfl | hc
  · decide
  · exact range_of_isDigit (hlayout.fraction_digits c hc)

theorem separators_join {separator : Text} (h : separators separator = []) (ts : List Text) :
    separators (Text.join separator ts) = ts.flatMap separators :=
  Text.filter_join h ts

private theorem separators_parenthesize (wrap : Bool) (text : Text) :
    separators (parenthesize wrap text) = separators text := by
  have hopen : separators "(" = [] := rfl
  have hclose : separators ")" = [] := rfl
  cases wrap with
  | false => rfl
  | true => simp [parenthesize, separators_append, hopen, hclose]

private theorem separators_argument (info : Explicitness) (text : Text) :
    separators (argument info text) = separators text := by
  have hauto : separators "@\x7b" = [] := rfl
  have hopen : separators "\x7b" = [] := rfl
  have hclose : separators "\x7d" = [] := rfl
  cases info <;> simp [argument, separators_append, hauto, hopen, hclose]

private theorem separators_binder {name : Option Text} (hname : Unbroken name.toList)
    (m : Multiplicity)
    (info : Explicitness) (type : Text) :
    separators (binder name m info type) = separators type := by
  have hquantity : separators (quantity m) = [] := by cases m <;> rfl
  have hbinder : separators (name.getD "_") = [] := by
    cases name with
    | none => rfl
    | some x => exact hname x (by simp)
  have hcolon : separators " : " = [] := rfl
  have hinner : separators (quantity m ++ name.getD "_" ++ " : " ++ type) = separators type := by
    simp [separators_append, hquantity, hbinder, hcolon]
  have hround : separators "(" = [] := rfl
  have hroundEnd : separators ")" = [] := rfl
  have hcurly : separators "\x7b" = [] := rfl
  have hcurlyEnd : separators "\x7d" = [] := rfl
  have hauto : separators "\x7bauto " = [] := rfl
  have hdefault : separators "\x7bdefault " = [] := rfl
  cases info <;>
    simp only [binder, separators_append, hround, hroundEnd, hcurly, hcurlyEnd, hauto, hdefault,
      hinner, List.append_nil, List.nil_append]

private theorem separators_nestedPatterns {ps : List Pattern}
    (h : ∀ p ∈ ps, separators (pattern true p) = []) :
    (nestedPatterns ps).flatMap separators = [] := by
  induction ps with
  | nil => rfl
  | cons p ps ih =>
      rw [nestedPatterns, List.flatMap_cons, h p (by simp), ih fun q hq => h q (by simp [hq])]
      rfl

private theorem separators_pattern {p : Pattern} (h : Unbroken p.names) (nested : Bool) :
    separators (pattern nested p) = [] := by
  induction p using Pattern.inductionOn generalizing nested with
  | con name args ih =>
      rw [Pattern.names, Pattern.namesAll_eq, unbroken_cons, unbroken_flatMap] at h
      obtain ⟨hname, hargs⟩ := h
      replace hargs : ∀ q ∈ args, separators (pattern true q) = [] := by
        intro q hq
        exact ih q hq (hargs q hq) true
      cases args with
      | nil => rwa [pattern]
      | cons q qs =>
          have hspace : separators " " = [] := rfl
          have hnested := separators_nestedPatterns hargs
          rw [nestedPatterns] at hnested
          simp only [pattern, separators_parenthesize, separators_append, hname, hspace,
            separators_join hspace, hnested, List.append_nil]
  | bind name =>
      rw [pattern]
      exact h name (by simp [Pattern.names])
  | wild =>
      rw [pattern]
      rfl

private theorem separators_literal {p : Position} {value : Literal} {text : Text}
    (h : literal p value = .ok text) : separators text = verbatim (Term.lit value).strings := by
  cases value with
  | int i =>
      cases h
      simp [number, separators_parenthesize, separators_intText, Term.strings, verbatim]
  | float x =>
      cases x with
      | finite negative rank =>
          cases h
          simp [number, separators_parenthesize, separators_positional, Term.strings, verbatim]
      | _ => cases h
  | str s =>
      cases h
      simp [separators_encode, Term.strings, verbatim]

private theorem separators_alternativesText {alternatives : List (Pattern × Term)}
    {texts : List Text} (hnames : Unbroken (Term.namesIn alternatives))
    (ih : ∀ a ∈ alternatives, ∀ text, Unbroken a.2.names → term .top a.2 = .ok text →
      separators text = verbatim a.2.strings)
    (h : alternativesText alternatives = .ok texts) :
    texts.flatMap separators = verbatim (Term.stringsIn alternatives) := by
  induction alternatives generalizing texts with
  | nil =>
      cases h
      rfl
  | cons a rest ihr =>
      obtain ⟨p, body⟩ := a
      obtain ⟨bodyText, hbody, h⟩ := bind_eq_ok h
      obtain ⟨restTexts, hrest, h⟩ := bind_eq_ok h
      cases h
      simp only [Term.namesIn, unbroken_append] at hnames
      have hpattern := separators_pattern hnames.1.1 false
      have hbody := ih (p, body) (by simp) bodyText hnames.1.2 hbody
      have hrest := ihr hnames.2 (fun b hb => ih b (by simp [hb])) hrest
      have harrow : separators " => " = [] := rfl
      simp only [List.flatMap_cons, separators_append, hpattern, harrow, hbody, hrest,
        Term.stringsIn, verbatim_append, List.append_nil, List.nil_append]

theorem separators_term {t : Term} (hnames : Unbroken t.names) {p : Position} {text : Text}
    (h : term p t = .ok text) : separators text = verbatim t.strings := by
  induction t using Term.inductionOn generalizing p text with
  | var name =>
      cases h
      exact hnames name (by simp [Term.names])
  | param index =>
      cases h
      have hmark : separators "param#" = [] := rfl
      simp [separators_append, hmark, separators_intText, Term.strings, verbatim]
  | app fn arg info ihf iha =>
      obtain ⟨fnText, hfn, h⟩ := bind_eq_ok h
      obtain ⟨argText, harg, h⟩ := bind_eq_ok h
      cases h
      rw [Term.names, unbroken_append] at hnames
      have hfn := ihf hnames.1 hfn
      have harg := iha hnames.2 harg
      have hspace : separators " " = [] := rfl
      simp only [separators_parenthesize, separators_append, separators_argument, hspace, hfn, harg,
        Term.strings, verbatim_append, List.append_nil]
  | lit value => exact separators_literal h
  | hole =>
      cases h
      rfl
  | pi name m info domain result ihd ihr =>
      obtain ⟨domainText, hdomain, h⟩ := bind_eq_ok h
      obtain ⟨resultText, hresult, h⟩ := bind_eq_ok h
      cases h
      rw [Term.names, unbroken_append, unbroken_append] at hnames
      have hdomain := ihd hnames.1.2 hdomain
      have hresult := ihr hnames.2 hresult
      have hbinder := separators_binder hnames.1.1 m info domainText
      have harrow : separators " -> " = [] := rfl
      have hleft : separators (if isPlainDomain name m info then domainText
          else binder name m info domainText) = verbatim domain.strings := by
        split
        · exact hdomain
        · rw [hbinder, hdomain]
      simp only [separators_parenthesize, separators_append, hleft, harrow, hresult, Term.strings,
        verbatim_append, List.append_nil]
  | case scrutinee alternatives ihs iha =>
      obtain ⟨texts, htexts, h⟩ := bind_eq_ok h
      obtain ⟨scrutineeText, hscrutinee, h⟩ := bind_eq_ok h
      cases h
      rw [Term.names, unbroken_append] at hnames
      have hscrutinee := ihs hnames.1 hscrutinee
      have htexts := separators_alternativesText hnames.2
        (fun a ha text hnames h => iha a ha hnames h) htexts
      have hcase : separators "case " = [] := rfl
      have hof : separators " of \x7b " = [] := rfl
      have hsemicolon : separators "; " = [] := rfl
      have hend : separators " \x7d" = [] := rfl
      simp only [separators_parenthesize, separators_append, hcase, hof, hend, hscrutinee,
        separators_join hsemicolon, htexts, Term.strings, verbatim_append, List.append_nil,
        List.nil_append]

theorem separators_alternatives {alternatives : List (Pattern × Term)} {texts : List Text}
    (hnames : Unbroken (Term.namesIn alternatives))
    (h : alternativesText alternatives = .ok texts) :
    texts.flatMap separators = verbatim (Term.stringsIn alternatives) :=
  separators_alternativesText hnames (fun _ _ _ hnames h => separators_term hnames h) h

end Source
end RefinementTypes
