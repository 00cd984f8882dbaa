import RefinementTypes.Decimal

/-!
# Decimals are read back

A run of digits reads back as its number, zeros in front of it change nothing and zeros behind it
multiply. Positional text reads back as its decimal, with at least one digit behind the point.
-/

namespace RefinementTypes.Decimal

theorem tenTo_pos (n : Nat) : 0 < tenTo n := Nat.pow_pos (by decide)

theorem ofDigits_append (ds es : List Char) :
    ofDigits (ds ++ es) = tenTo es.length * ofDigits ds + ofDigits es :=
  (Nat.ofDigitChars_append (b := 10) (l := ds) (m := es) 0).trans
    Nat.ofDigitChars_eq_ofDigitChars_zero

theorem ofDigits_replicate (n : Nat) : ofDigits (List.replicate n '0') = 0 :=
  @Nat.ofDigitChars_replicate_zero 10 0 n

theorem ofDigits_digits (n : Nat) : ofDigits (digits n) = n := Nat.ofDigitChars_ten_toDigits

def IsDigits (ds : List Char) : Prop := ∀ c ∈ ds, c.isDigit = true

theorem IsDigits.append {ds es : List Char} (hds : IsDigits ds) (hes : IsDigits es) :
    IsDigits (ds ++ es) := by
  intro c hc
  rcases List.mem_append.1 hc with hc | hc
  · exact hds c hc
  · exact hes c hc

theorem isDigits_digits (n : Nat) : IsDigits (digits n) :=
  fun _ hc => Nat.isDigit_of_mem_toDigits (by decide) (by decide) hc

theorem isDigits_replicate (n : Nat) : IsDigits (List.replicate n '0') := by
  intro c hc
  rw [List.eq_of_mem_replicate hc]
  rfl

theorem digits_ne_nil (n : Nat) : digits n ≠ [] :=
  List.length_pos_iff.1 Nat.length_toDigits_pos

theorem length_digits_le_iff {n k : Nat} (hk : 0 < k) : (digits n).length ≤ k ↔ n < tenTo k :=
  Nat.length_toDigits_le_iff (by decide) hk

theorem digits_mul_tenTo {n : Nat} (hn : 0 < n) (k : Nat) :
    digits (n * tenTo k) = digits n ++ List.replicate k '0' := by
  induction k with
  | zero => simp [tenTo]
  | succ k ih =>
      have hpos : 0 < n * tenTo k := Nat.mul_pos hn (tenTo_pos k)
      have hten : n * tenTo (k + 1) = 10 * (n * tenTo k) + 0 := by
        rw [Nat.add_zero, Nat.mul_left_comm, Nat.mul_comm 10]
        rfl
      rw [List.replicate_succ', ← List.append_assoc, ← ih, hten]
      exact (Nat.toDigits_append_toDigits (by decide) hpos (by decide)).symm

theorem eq_of_mem_sign {negative : Bool} {c : Char} (h : c ∈ sign negative) : c = '-' := by
  cases negative with
  | true => exact List.mem_singleton.1 h
  | false => cases h

private theorem splitSign_of_digit {c : Char} {cs : List Char} (h : c.isDigit = true) :
    splitSign (c :: cs) = (false, c :: cs) := by
  have hminus : c ≠ '-' := by
    rintro rfl
    cases h
  have hplus : c ≠ '+' := by
    rintro rfl
    cases h
  rw [splitSign]
  · simpa using hminus
  · simpa using hplus

theorem splitSign_sign (negative : Bool) {ds : List Char} (hne : ds ≠ []) (h : IsDigits ds)
    (rest : List Char) : splitSign (sign negative ++ (ds ++ rest)) = (negative, ds ++ rest) := by
  cases ds with
  | nil => exact absurd rfl hne
  | cons c cs =>
      cases negative with
      | true => rfl
      | false => exact splitSign_of_digit (h c (List.mem_cons_self ..))

theorem parseExponent?_intText (i : Int) :
    parseExponent? (sign (decide (i < 0)) ++ digits i.natAbs) = some i := by
  have hdigits : (digits i.natAbs).all Char.isDigit = true :=
    List.all_eq_true.2 (isDigits_digits _)
  have hempty : (digits i.natAbs).isEmpty = false := by
    simpa using digits_ne_nil i.natAbs
  have hsplit := splitSign_sign (decide (i < 0)) (digits_ne_nil i.natAbs)
    (isDigits_digits _) []
  rw [List.append_nil] at hsplit
  simp only [parseExponent?, hsplit, hdigits, hempty, ofDigits_digits, Bool.not_true, Bool.or_self,
    Bool.false_eq_true, if_false, decide_eq_true_eq]
  have hvalue : (if i < 0 then -(i.natAbs : Int) else i.natAbs) = i := by
    split <;> omega
  rw [hvalue]

private theorem parse?_point (negative : Bool) {whole fraction : List Char} (hne : whole ≠ [])
    (hwhole : IsDigits whole) (hfraction : IsDigits fraction) :
    parse? (sign negative ++ (whole ++ '.' :: fraction)) =
      some ⟨negative, ofDigits (whole ++ fraction), -fraction.length⟩ := by
  have hsplit := splitSign_sign negative hne hwhole ('.' :: fraction)
  have htake : (whole ++ '.' :: fraction).takeWhile Char.isDigit = whole := by
    rw [List.takeWhile_append_of_pos hwhole]
    simp
  have hdrop : (whole ++ '.' :: fraction).dropWhile Char.isDigit = '.' :: fraction := by
    rw [List.dropWhile_append_of_pos hwhole]
    rfl
  have htake' : fraction.takeWhile Char.isDigit = fraction := by
    have htake := @List.takeWhile_append_of_pos _ Char.isDigit fraction [] hfraction
    simpa using htake
  have hdrop' : fraction.dropWhile Char.isDigit = [] := by
    have hdrop := @List.dropWhile_append_of_pos _ Char.isDigit fraction [] hfraction
    simpa using hdrop
  have hempty : whole.isEmpty = false := by simpa using hne
  simp [parse?, hsplit, htake, hdrop, htake', hdrop', hempty]

/-- A decimal as positional text spells it: with at least one digit behind the point. -/
def pointed (d : Decimal) : Decimal :=
  if 0 ≤ d.exponent then
    { d with coefficient := d.coefficient * tenTo (d.exponent.toNat + 1), exponent := -1 }
  else d

/-- The digits on both sides of the point of positional text. -/
structure Layout (d : Decimal) (whole fraction : List Char) : Prop where
  text : d.positional = sign d.negative ++ (whole ++ '.' :: fraction)
  whole_ne_nil : whole ≠ []
  whole_digits : IsDigits whole
  fraction_digits : IsDigits fraction
  value : d.pointed = ⟨d.negative, ofDigits (whole ++ fraction), -fraction.length⟩

private theorem layout_of_nonneg {d : Decimal} (he : 0 ≤ d.exponent) :
    d.Layout (digits d.coefficient ++ List.replicate d.exponent.toNat '0') ['0'] where
  text := by simp only [positional, if_pos he, List.append_assoc]
  whole_ne_nil := by simp [digits_ne_nil]
  whole_digits := (isDigits_digits _).append (isDigits_replicate _)
  fraction_digits := isDigits_replicate 1
  value := by
    have hvalue : ofDigits (digits d.coefficient ++ List.replicate (d.exponent.toNat + 1) '0') =
        d.coefficient * tenTo (d.exponent.toNat + 1) := by
      rw [ofDigits_append, ofDigits_digits, ofDigits_replicate, List.length_replicate,
        Nat.add_zero, Nat.mul_comm]
    rw [List.append_assoc, ← List.replicate_succ', hvalue]
    simp only [pointed, if_pos he]
    rfl

/-- The digits of a coefficient with zeros in front, so that one stands before the point. -/
private def padded (n places : Nat) : List Char :=
  List.replicate (places + 1 - (digits n).length) '0' ++ digits n

private theorem padded_length (n places : Nat) : places + 1 ≤ (padded n places).length := by
  simp only [padded, List.length_append, List.length_replicate]
  omega

private theorem isDigits_padded (n places : Nat) : IsDigits (padded n places) :=
  (isDigits_replicate _).append (isDigits_digits n)

private theorem ofDigits_padded (n places : Nat) : ofDigits (padded n places) = n := by
  rw [padded, ofDigits_append, ofDigits_replicate, ofDigits_digits]
  omega

private theorem layout_of_neg {d : Decimal} (he : ¬ 0 ≤ d.exponent) {places : Nat}
    (hplaces : (-d.exponent).toNat = places) {ds : List Char}
    (hds : padded d.coefficient places = ds) :
    d.Layout (ds.take (ds.length - places)) (ds.drop (ds.length - places)) := by
  have hlength : places + 1 ≤ ds.length := hds ▸ padded_length _ _
  have hdigits : IsDigits ds := hds ▸ isDigits_padded _ _
  have hvalue : ofDigits ds = d.coefficient := hds ▸ ofDigits_padded _ _
  have hfraction : -((ds.drop (ds.length - places)).length : Int) = d.exponent := by
    rw [List.length_drop]
    omega
  exact {
    text := by
      simp only [positional, if_neg he, hplaces, ← hds]
      rfl
    whole_ne_nil := by
      rw [← List.length_pos_iff, List.length_take]
      omega
    whole_digits := fun c hc => hdigits c (List.mem_of_mem_take hc)
    fraction_digits := fun c hc => hdigits c (List.mem_of_mem_drop hc)
    value := by
      rw [List.take_append_drop, hvalue, hfraction]
      simp only [pointed, if_neg he]
  }

theorem exists_layout (d : Decimal) : ∃ whole fraction, d.Layout whole fraction := by
  by_cases he : 0 ≤ d.exponent
  · exact ⟨_, _, layout_of_nonneg he⟩
  · exact ⟨_, _, layout_of_neg he rfl rfl⟩

theorem parse?_positional (d : Decimal) : parse? d.positional = some d.pointed := by
  obtain ⟨whole, fraction, h⟩ := exists_layout d
  rw [h.text, h.value, parse?_point d.negative h.whole_ne_nil h.whole_digits h.fraction_digits]

end RefinementTypes.Decimal
