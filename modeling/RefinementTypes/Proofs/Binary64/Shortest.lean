import RefinementTypes.Binary64.Basic
import RefinementTypes.Binary64.Shortest
import RefinementTypes.Proofs.Decimal

/-!
# The shortest decimal reads back as its double

Rounding depends on the quotient alone, and the magnitude of a rank rounds to that rank. A shortest
decimal is chosen among those that read back, and when none of them does the exact one takes its
place. It keeps the sign of a zero. Writing it out in positional notation does not change the
double.
-/

namespace RefinementTypes

theorem twoTo_pos (n : Nat) : 0 < twoTo n := Nat.pow_pos (by decide)

theorem twoTo_add (m n : Nat) : twoTo (m + n) = twoTo m * twoTo n := Nat.pow_add 2 m n

private theorem twoTo_succ (n : Nat) : twoTo (n + 1) = twoTo n * 2 := rfl

private theorem log2_eq {n k : Nat} (hlow : twoTo k ≤ n) (hhigh : n < twoTo (k + 1)) : n.log2 = k :=
  (Nat.log2_eq_iff (Nat.ne_of_gt (Nat.lt_of_lt_of_le (twoTo_pos k) hlow))).2 ⟨hlow, hhigh⟩

namespace Binary64

private theorem roundQuotient_one (n : Nat) : roundQuotient n 1 = n := by
  simp [roundQuotient, Nat.mod_one]

private theorem roundQuotient_mul_right (num den : Nat) {k : Nat} (hk : 0 < k) :
    roundQuotient (num * k) (den * k) = roundQuotient num den := by
  have hquotient : num * k / (den * k) = num / den := Nat.mul_div_mul_right num den hk
  have hrest : num * k % (den * k) = num % den * k := Nat.mul_mod_mul_right k num den
  have hbelow : 2 * (num % den * k) < den * k ↔ 2 * (num % den) < den := by
    rw [← Nat.mul_assoc, Nat.mul_lt_mul_right hk]
  have habove : den * k < 2 * (num % den * k) ↔ den < 2 * (num % den) := by
    rw [← Nat.mul_assoc, Nat.mul_lt_mul_right hk]
  simp only [roundQuotient, hquotient, hrest, hbelow, habove]

theorem nearestRank_mul_right (num den : Nat) {k : Nat} (hk : 0 < k) :
    nearestRank (num * k) (den * k) = nearestRank num den := by
  have hquotient : num * k / (den * k) = num / den := Nat.mul_div_mul_right num den hk
  simp only [nearestRank, hquotient]
  rw [Nat.mul_right_comm den k, roundQuotient_mul_right _ _ hk]

/-- A number of 53 binary digits with zeros behind them rounds to itself. -/
private theorem nearestRank_shifted {m : Nat} (hlow : fractions ≤ m) (hhigh : m < 2 * fractions)
    (k : Nat) : nearestRank (m * twoTo k) 1 = m + k * fractions := by
  have hpos := twoTo_pos k
  have hlog : (m * twoTo k).log2 = 52 + k := by
    apply log2_eq
    · rw [twoTo_add]
      exact Nat.mul_le_mul_right _ hlow
    · have hdouble : twoTo (52 + k + 1) = 2 * fractions * twoTo k := by
        rw [twoTo_succ, twoTo_add, Nat.mul_comm, Nat.mul_assoc]
        rfl
      rw [hdouble]
      exact Nat.mul_lt_mul_of_pos_right hhigh hpos
  have hshift : 52 + k - 52 = k := by omega
  simp only [nearestRank, Nat.div_one, hlog, hshift]
  rw [roundQuotient_mul_right _ _ hpos, roundQuotient_one]

theorem lt_fractions {rank : Nat} (h : rank / fractions = 0) : rank < fractions :=
  (Nat.div_eq_zero_iff_lt (twoTo_pos 52)).1 h

/-- The magnitude of a rank rounds to that rank. -/
theorem nearestRank_magnitude (rank : Nat) : nearestRank (magnitude rank) 1 = rank := by
  have hpos : 0 < fractions := twoTo_pos 52
  have hsplit := Nat.div_add_mod rank fractions
  by_cases hsmall : rank / fractions = 0
  · have hlt := lt_fractions hsmall
    have hlog : rank.log2 - 52 = 0 := by
      by_cases hzero : rank = 0
      · subst hzero
        rfl
      · have := (Nat.log2_lt hzero).2 hlt
        omega
    simp only [magnitude, if_pos hsmall, nearestRank, Nat.div_one, hlog]
    simp [twoTo, roundQuotient_one]
  · have hmod := Nat.mod_lt rank hpos
    obtain ⟨k, hk⟩ := Nat.exists_eq_succ_of_ne_zero hsmall
    rw [hk, Nat.mul_succ, Nat.mul_comm] at hsplit
    rw [magnitude, if_neg hsmall, nearestRank_shifted (Nat.le_add_right _ _) (by omega), hk,
      Nat.succ_sub_one]
    omega

open Decimal

private theorem ofUnits_congr {negative : Bool} {num den num' den' : Nat}
    (h : nearestRank num den = nearestRank num' den') :
    ofUnits negative num den = ofUnits negative num' den' := by
  simp only [ofUnits, h]

private theorem ofUnits_magnitude (negative : Bool) (rank : Fin finiteCount) :
    ofUnits negative (magnitude rank) 1 = finite negative rank := by
  have hrank := nearestRank_magnitude rank
  rw [ofUnits, dif_pos (hrank.symm ▸ rank.isLt)]
  simp only [hrank]

private theorem magnitude_lt {rank : Nat} (h : rank < finiteCount) :
    magnitude rank < twoTo 2099 := by
  have hpos : 0 < fractions := twoTo_pos 52
  have hblock : rank / fractions < 2047 := (Nat.div_lt_iff_lt_mul hpos).2 h
  have hmod := Nat.mod_lt rank hpos
  have hle {m n : Nat} (hmn : m ≤ n) : twoTo m ≤ twoTo n := Nat.pow_le_pow_right (by decide) hmn
  by_cases hsmall : rank / fractions = 0
  · rw [magnitude, if_pos hsmall]
    exact Nat.lt_of_lt_of_le (lt_fractions hsmall) (hle (by decide))
  · rw [magnitude, if_neg hsmall]
    have hhead : fractions + rank % fractions < twoTo 53 := by
      have hdouble : twoTo 53 = fractions * 2 := rfl
      omega
    calc (fractions + rank % fractions) * twoTo (rank / fractions - 1)
        < twoTo 53 * twoTo (rank / fractions - 1) :=
          Nat.mul_lt_mul_of_pos_right hhead (twoTo_pos _)
      _ = twoTo (53 + (rank / fractions - 1)) := (twoTo_add _ _).symm
      _ ≤ twoTo 2099 := hle (by omega)

private theorem length_digits_between {units scale : Nat} (hpos : 0 < units)
    (hlt : units < twoTo 2099) (hlow : tenTo 743 ≤ scale)
    (hhigh : twoTo 2099 * scale ≤ tenTo 1384) :
    743 < (digits (units * scale)).length ∧
      (digits (units * scale)).length ≤ 1384 := by
  have hscale : 0 < scale := Nat.lt_of_lt_of_le (tenTo_pos 743) hlow
  rw [← Nat.not_le, length_digits_le_iff (by decide),
    length_digits_le_iff (by decide), Nat.not_lt]
  constructor
  · exact Nat.le_trans hlow (Nat.le_mul_of_pos_left _ hpos)
  · exact Nat.lt_of_lt_of_le (Nat.mul_lt_mul_of_pos_right hlt hscale) hhigh

-- The exponent is a variable, so that the power is not evaluated on the way.
private theorem ofDecimal_scaled (negative : Bool) {units n : Nat} (hn : n = 1074)
    (hpos : 0 < units) (hlt : units < twoTo 2099) :
    ofDecimal ⟨negative, units * Nat.pow 5 n, -n⟩ = ofUnits negative units 1 := by
  have hlow : tenTo 743 ≤ Nat.pow 5 n := by
    rw [hn]
    decide +kernel
  have hhigh : twoTo 2099 * Nat.pow 5 n ≤ tenTo 1384 := by
    rw [hn]
    decide +kernel
  have hlength := length_digits_between hpos hlt hlow hhigh
  have hnonzero : units * Nat.pow 5 n ≠ 0 :=
    Nat.mul_ne_zero (Nat.ne_of_gt hpos) (Nat.ne_of_gt (Nat.lt_of_lt_of_le (tenTo_pos 743) hlow))
  have hexponent : ¬ 0 ≤ -(n : Int) := by omega
  have hscale : units * Nat.pow 5 n * unitsPerOne = units * tenTo n := by
    rw [unitsPerOne, ← hn, Nat.mul_assoc]
    exact congrArg (units * ·) (Nat.mul_pow 5 2 n).symm
  have hden : tenTo (-(-(n : Int))).toNat = 1 * tenTo n := by
    rw [Int.neg_neg, Int.toNat_natCast, Nat.one_mul]
  simp only [ofDecimal, point, hnonzero, false_or, if_neg hexponent]
  rw [if_neg (by omega), if_neg (by omega), hscale, hden]
  exact ofUnits_congr (nearestRank_mul_right _ _ (tenTo_pos n))

private theorem ofDecimal_exactDecimal (negative : Bool) {units : Nat} (hpos : 0 < units)
    (hlt : units < twoTo 2099) :
    ofDecimal (exactDecimal negative units) = ofUnits negative units 1 := by
  obtain ⟨n, hn⟩ : ∃ n, 1074 = n := ⟨_, rfl⟩
  have he : (-1074 : Int) = -n := by omega
  rw [exactDecimal, he, hn, ofDecimal_scaled negative hn.symm hpos hlt]

private theorem eq_zero_of_magnitude {rank : Nat} (h : magnitude rank = 0) : rank = 0 := by
  have hrank := nearestRank_magnitude rank
  rw [h] at hrank
  exact hrank.symm

theorem ofDecimal_shortest (negative : Bool) (rank : Fin finiteCount) :
    ofDecimal (shortest negative rank) = finite negative rank := by
  by_cases hzero : magnitude rank = 0
  · have hrank : rank = ⟨0, by decide⟩ := Fin.ext (eq_zero_of_magnitude hzero)
    simp only [shortest, if_pos hzero]
    rw [hrank]
    rfl
  · simp only [shortest, if_neg hzero]
    generalize hfind : List.find? _ _ = found
    cases found with
    | none =>
        rw [Option.getD_none, ofDecimal_exactDecimal negative (Nat.pos_of_ne_zero hzero)
          (magnitude_lt rank.isLt), ofUnits_magnitude]
    | some d =>
        have hread := List.find?_some hfind
        exact eq_of_beq hread

private theorem negative_trim (d : Decimal) : d.trim.negative = d.negative := by
  rw [Decimal.trim]
  split <;> rfl

private theorem negative_of_mem_neighbours {negative : Bool} {units n : Nat} {d : Decimal}
    (h : d ∈ neighbours negative units n) : d.negative = negative := by
  have hpair {p : Prop} [Decidable p] {below above : Decimal}
      (h : d ∈ if p then [below, above] else [above, below]) : d = below ∨ d = above := by
    split at h
    · simpa using h
    · simpa [or_comm] using h
  rcases hpair h with rfl | rfl <;> rfl

/-- The shortest decimal has the sign of its double, also when it is zero. -/
theorem negative_shortest (negative : Bool) (rank : Fin finiteCount) :
    (shortest negative rank).negative = negative := by
  by_cases hzero : magnitude rank = 0
  · rw [shortest, if_pos hzero]
  · simp only [shortest, if_neg hzero]
    generalize hfind : List.find? _ _ = found
    cases found with
    | none => rfl
    | some d =>
        obtain ⟨n, _, hd⟩ := List.mem_flatMap.1 (List.mem_of_find?_eq_some hfind)
        obtain ⟨e, he, rfl⟩ := List.mem_map.1 hd
        rw [Option.getD_some, negative_trim, negative_of_mem_neighbours he]

private theorem point_pointed {d : Decimal} (he : 0 ≤ d.exponent) (hpos : 0 < d.coefficient) :
    d.pointed.point = d.point := by
  simp only [Decimal.pointed, if_pos he, Decimal.point, digits_mul_tenTo hpos,
    List.length_append, List.length_replicate]
  omega

theorem ofDecimal_pointed (d : Decimal) : ofDecimal d.pointed = ofDecimal d := by
  by_cases he : 0 ≤ d.exponent
  · by_cases hzero : d.coefficient = 0
    · simp only [ofDecimal, Decimal.pointed, if_pos he, hzero, Nat.zero_mul, true_or, if_true]
    · have hpoint := point_pointed he (Nat.pos_of_ne_zero hzero)
      have hpointed : d.pointed =
          ⟨d.negative, d.coefficient * tenTo (d.exponent.toNat + 1), -1⟩ := if_pos he
      have hnonzero : d.coefficient * tenTo (d.exponent.toNat + 1) ≠ 0 :=
        Nat.mul_ne_zero hzero (Nat.ne_of_gt (tenTo_pos _))
      have hunits : ofUnits d.negative
          (d.coefficient * tenTo (d.exponent.toNat + 1) * unitsPerOne) (tenTo 1) =
            ofUnits d.negative (d.coefficient * tenTo d.exponent.toNat * unitsPerOne) 1 := by
        apply ofUnits_congr
        have hten : d.coefficient * tenTo (d.exponent.toNat + 1) =
            d.coefficient * tenTo d.exponent.toNat * 10 := (Nat.mul_assoc ..).symm
        rw [hten, Nat.mul_right_comm]
        exact nearestRank_mul_right _ 1 (by decide)
      have hsmall : ¬ (0 : Int) ≤ -1 := by decide
      rw [ofDecimal, ofDecimal, hpoint, hpointed]
      simp only [hnonzero, hzero, false_or, if_pos he, if_neg hsmall, ← hunits]
      rfl
  · rw [Decimal.pointed, if_neg he]

/-- The positional text of a finite double is read back as that double. -/
theorem parse?_positional_shortest (negative : Bool) (rank : Fin finiteCount) :
    (Decimal.parse? (shortest negative rank).positional).map ofDecimal =
      some (finite negative rank) := by
  rw [Decimal.parse?_positional, Option.map_some, ofDecimal_pointed, ofDecimal_shortest]

end Binary64
end RefinementTypes
