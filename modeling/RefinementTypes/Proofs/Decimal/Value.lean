import Mathlib.Algebra.Order.Field.Rat
import Mathlib.Tactic.Ring
import RefinementTypes.Proofs.Decimal

/-!
# Values of decimals

The rational number that a decimal stands for does not depend on its notation. Positional text
spells out every zero and scientific text moves the point, but both are read back as a decimal of
the same value and the same sign.
-/

namespace RefinementTypes.Decimal
variable {d : Decimal} {negative : Bool} {whole fraction : List Char}

/-- The number `± coefficient * 10 ^ exponent`. -/
def value (d : Decimal) : ℚ :=
  (if d.negative then -1 else 1) * (d.coefficient * 10 ^ d.exponent)

theorem negative_pointed (d : Decimal) : d.pointed.negative = d.negative := by
  rw [pointed]
  split <;> rfl

/-- Zeros behind the coefficient make up for the place of the point. -/
theorem value_pointed (d : Decimal) : d.pointed.value = d.value := by
  by_cases he : 0 ≤ d.exponent
  · have hscale : ((tenTo (d.exponent.toNat + 1) : Nat) : ℚ) * 10 ^ (-1 : Int) =
        10 ^ d.exponent := by
      have hcast : ((tenTo (d.exponent.toNat + 1) : Nat) : ℚ) = 10 ^ (d.exponent + 1) := by
        have hsucc : d.exponent + 1 = (d.exponent.toNat + 1 : Nat) := by omega
        rw [hsucc, zpow_natCast]
        exact Nat.cast_pow 10 _
      rw [hcast, ← zpow_add₀ (by decide)]
      congr 1
      omega
    rw [value, value, pointed, if_pos he]
    simp only [Nat.cast_mul, mul_assoc, hscale]
  · rw [pointed, if_neg he]

/-- A sign, digits, a point and digits, with at least one digit on either side of the point. -/
def IsPositional (negative : Bool) (cs : List Char) : Prop :=
  ∃ whole fraction, whole ≠ [] ∧ fraction ≠ [] ∧ IsDigits whole ∧ IsDigits fraction ∧
    cs = sign negative ++ (whole ++ '.' :: fraction)

private theorem exponent_pointed_neg (d : Decimal) : d.pointed.exponent < 0 := by
  by_cases he : 0 ≤ d.exponent
  · simp [pointed, he]
  · rw [pointed, if_neg he]
    omega

theorem isPositional_positional (d : Decimal) : IsPositional d.negative d.positional := by
  obtain ⟨whole, fraction, h⟩ := exists_layout d
  refine ⟨whole, fraction, h.whole_ne_nil, ?_, h.whole_digits, h.fraction_digits, h.text⟩
  rintro rfl
  have hexponent := exponent_pointed_neg d
  rw [h.value] at hexponent
  simp at hexponent

theorem IsPositional.head?_eq_minus_iff {cs : List Char} (h : IsPositional negative cs) :
    cs.head? = some '-' ↔ negative = true := by
  obtain ⟨whole, fraction, hwhole, _, hdigits, _, rfl⟩ := h
  cases negative with
  | true => simp [sign]
  | false =>
      obtain ⟨c, cs, rfl⟩ := List.exists_cons_of_ne_nil hwhole
      have hc : c ≠ '-' := by
        rintro rfl
        have hminus := hdigits '-' (by simp)
        cases hminus
      simp [sign, hc]

/-- What is read from digits with a point in them, in front of a power of ten. -/
private theorem parse?_point_power (negative : Bool) (hne : whole ≠ []) (hwhole : IsDigits whole)
    (hfraction : IsDigits fraction) (power : List Char) :
    parse? (sign negative ++ (whole ++ '.' :: (fraction ++ 'e' :: power))) =
      (parseExponent? power).map fun e =>
        ⟨negative, ofDigits (whole ++ fraction), e - fraction.length⟩ := by
  have hsplit := splitSign_sign negative hne hwhole ('.' :: (fraction ++ 'e' :: power))
  have hempty : whole.isEmpty = false := by simpa using hne
  simp [parse?, hsplit, List.takeWhile_append_of_pos hwhole, List.dropWhile_append_of_pos hwhole,
    List.takeWhile_append_of_pos hfraction, List.dropWhile_append_of_pos hfraction, hempty]

/-- What is read from digits without a point, in front of a power of ten. -/
private theorem parse?_power (negative : Bool) (hne : whole ≠ []) (hwhole : IsDigits whole)
    (power : List Char) :
    parse? (sign negative ++ (whole ++ 'e' :: power)) =
      (parseExponent? power).map fun e => ⟨negative, ofDigits whole, e⟩ := by
  have hsplit := splitSign_sign negative hne hwhole ('e' :: power)
  have hempty : whole.isEmpty = false := by simpa using hne
  simp [parse?, hsplit, List.takeWhile_append_of_pos hwhole, List.dropWhile_append_of_pos hwhole,
    hempty]

/-- A power of ten is padded with zeros, and those change nothing. -/
private theorem parseExponent?_powerText (e : Int) :
    parseExponent? (powerText e).tail = some e := by
  let ds := List.replicate (2 - (digits e.natAbs).length) '0' ++ digits e.natAbs
  have hall : ds.all Char.isDigit = true :=
    List.all_eq_true.2 ((isDigits_replicate _).append (isDigits_digits _))
  have hempty : ds.isEmpty = false := by simp [ds, digits_ne_nil]
  have hnumber : ofDigits ds = e.natAbs := by
    rw [ofDigits_append, ofDigits_replicate, ofDigits_digits]
    omega
  have hsplit : splitSign (powerText e).tail = (decide (e < 0), ds) := by
    by_cases he : e < 0 <;> simp [powerText, splitSign, he, ds]
  have hvalue : (if e < 0 then -(e.natAbs : Int) else e.natAbs) = e := by
    split <;> omega
  simp only [parseExponent?, hsplit, hall, hempty, hnumber, Bool.not_true, Bool.or_self,
    Bool.false_eq_true, if_false, decide_eq_true_eq, hvalue]

private theorem parse?_scientific (d : Decimal) : parse? d.scientific = some d := by
  have hdigits := isDigits_digits d.coefficient
  have hnumber := ofDigits_digits d.coefficient
  have hpower : powerText (d.point - 1) = 'e' :: (powerText (d.point - 1)).tail := rfl
  have hpoint : d.point = (digits d.coefficient).length + d.exponent := rfl
  rw [scientific, hpower]
  cases hds : digits d.coefficient with
  | nil => exact absurd hds (digits_ne_nil _)
  | cons c cs =>
      rw [hds] at hdigits hnumber hpoint
      have hfirst : IsDigits [c] := by simpa [IsDigits] using hdigits c (by simp)
      -- A single digit is written without a point.
      cases cs with
      | nil =>
          have hexponent : d.point - 1 = d.exponent := by simp [hpoint]
          rw [List.append_assoc, parse?_power d.negative (by simp) hfirst, parseExponent?_powerText,
            Option.map_some, hnumber, hexponent]
      | cons c' cs =>
          have hrest : IsDigits (c' :: cs) := fun a ha => hdigits a (by simp [List.mem_cons.1 ha])
          have hexponent : d.point - 1 - (c' :: cs).length = d.exponent := by
            simp only [hpoint, List.length_cons]
            omega
          have hread := parse?_point_power d.negative (by simp) hfirst hrest
            (powerText (d.point - 1)).tail
          rw [List.append_assoc]
          rw [parseExponent?_powerText, Option.map_some, hexponent] at hread
          simpa [hnumber] using hread

/-- Whatever the notation, the decimal itself is read back, or the same with its zeros. -/
theorem exists_parse?_general (d : Decimal) :
    ∃ e, parse? d.general = some e ∧ (e = d ∨ e = d.pointed) := by
  by_cases h : d.coefficient = 0 ∨ (-4 ≤ d.point - 1 ∧ d.point - 1 < 16)
  · rw [general, if_pos h]
    exact ⟨d.pointed, parse?_positional d, Or.inr rfl⟩
  · rw [general, if_neg h]
    exact ⟨d, parse?_scientific d, Or.inl rfl⟩

end RefinementTypes.Decimal
