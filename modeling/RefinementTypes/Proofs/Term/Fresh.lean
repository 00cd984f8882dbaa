import Mathlib.Data.List.Dedup
import Mathlib.Data.List.Perm.Subperm
import Mathlib.Order.Bounds.Basic
import RefinementTypes.Term.Occurrence

/-!
# Freshness

`freshName` gives the first candidate that is not taken: the name itself, or the name with the least
number behind it. The candidates are pairwise different and one more than the taken names, so the
search never runs dry. Counting up until a name is free comes to the same: it stops after no more
rounds than there are different taken names.
-/

namespace RefinementTypes

/-- The first free candidate for a name. -/
inductive FirstFree (base : Text) (taken : List Text) : Text → Prop
  | plain (h : base ∉ taken) : FirstFree base taken base
  | numbered (k : Nat) (h : base ∈ taken) (hk : numbered base (k + 1) ∉ taken)
      (hlt : ∀ j < k, numbered base (j + 1) ∈ taken) :
      FirstFree base taken (numbered base (k + 1))

private theorem numbered_injective (base : Text) {j k : Nat}
    (h : numbered base j = numbered base k) :
    j = k := by
  have hd := Text.ofChars_injective (List.append_cancel_left h)
  rw [← Nat.ofDigitChars_ten_toDigits (n := j), ← Nat.ofDigitChars_ten_toDigits (n := k)]
  exact congrArg (fun ds => Nat.ofDigitChars 10 ds 0) hd

private theorem numbered_ne_base (base : Text) (k : Nat) : numbered base k ≠ base := by
  intro h
  have hl := congrArg List.length h
  have hd : 0 < (Nat.toDigits 10 k).length := Nat.length_toDigits_pos
  simp only [numbered, Text.ofChars, Decimal.digits, List.length_append, List.length_map] at hl
  omega

private theorem FirstFree.not_mem {base x : Text} {taken : List Text} (h : FirstFree base taken x) :
    x ∉ taken := by
  cases h with
  | plain h => exact h
  | numbered k _ hk _ => exact hk

theorem FirstFree.unique {base x y : Text} {taken : List Text} (hx : FirstFree base taken x)
    (hy : FirstFree base taken y) : x = y := by
  cases hx with
  | plain h =>
      cases hy with
      | plain => rfl
      | numbered k h' => exact absurd h' h
  | numbered j h hj hjlt =>
      cases hy with
      | plain h' => exact absurd h h'
      | numbered k _ hk hklt =>
          rcases Nat.lt_trichotomy j k with hlt | rfl | hlt
          · exact absurd (hklt j hlt) hj
          · rfl
          · exact absurd (hjlt k hlt) hk

private theorem numbered_nodup (base : Text) (count : Nat) :
    ((List.range count).map fun k => numbered base (k + 1)).Nodup := by
  rw [List.nodup_iff_pairwise_ne, List.pairwise_map]
  refine List.Pairwise.imp ?_ (List.nodup_iff_pairwise_ne.1 List.nodup_range)
  intro j k hjk h
  exact hjk (Nat.succ.inj (numbered_injective base h))

private theorem freshCandidates_nodup (base : Text) (count : Nat) :
    (freshCandidates base count).Nodup := by
  rw [freshCandidates, List.nodup_cons]
  refine ⟨?_, numbered_nodup base count⟩
  intro h
  obtain ⟨k, _, hk⟩ := List.mem_map.1 h
  exact numbered_ne_base base (k + 1) hk

private theorem exists_freshCandidate (base : Text) (taken : List Text) :
    ∃ name ∈ freshCandidates base taken.length, name ∉ taken := by
  apply Classical.byContradiction
  intro hnone
  have hsub : freshCandidates base taken.length ⊆ taken := by
    intro name hname
    apply Classical.byContradiction
    intro hfree
    exact hnone ⟨name, hname, hfree⟩
  have hle := (List.subperm_of_subset (freshCandidates_nodup base taken.length) hsub).length_le
  simp only [freshCandidates, List.length_cons, List.length_map, List.length_range] at hle
  omega

private theorem firstFree_of_getElem {base x : Text} {taken : List Text} {count i : Nat}
    (hi : i < (freshCandidates base count).length) (hx : (freshCandidates base count)[i] = x)
    (hfree : x ∉ taken) (hlt : ∀ j (hj : j < i), (freshCandidates base count)[j] ∈ taken) :
    FirstFree base taken x := by
  cases i with
  | zero =>
      have hbase : base = x := by simpa [freshCandidates] using hx
      subst hbase
      exact .plain hfree
  | succ k =>
      have hk : numbered base (k + 1) = x := by simpa [freshCandidates] using hx
      have hbase : base ∈ taken := by simpa [freshCandidates] using hlt 0 (by omega)
      subst hk
      refine .numbered k hbase hfree fun j hj => ?_
      simpa [freshCandidates] using hlt (j + 1) (by omega)

theorem freshName_firstFree (base : Text) (taken : List Text) :
    FirstFree base taken (freshName base taken) := by
  obtain ⟨name, hmem, hfree⟩ := exists_freshCandidate base taken
  rw [freshName]
  cases hf : (freshCandidates base taken.length).find? fun name => decide (name ∉ taken) with
  | none =>
      have := List.find?_eq_none.1 hf name hmem
      exact absurd hfree (by simpa using this)
  | some x =>
      obtain ⟨hx, i, hi, hix, hlt⟩ := List.find?_eq_some_iff_getElem.1 hf
      refine firstFree_of_getElem hi hix (by simpa using hx) fun j hj => ?_
      simpa using hlt j hj

theorem freshName_eq_iff {base x : Text} {taken : List Text} :
    freshName base taken = x ↔ FirstFree base taken x := by
  constructor
  · rintro rfl
    exact freshName_firstFree base taken
  · intro h
    exact (freshName_firstFree base taken).unique h

instance (base x : Text) (taken : List Text) : Decidable (FirstFree base taken x) :=
  decidable_of_iff (freshName base taken = x) freshName_eq_iff

theorem freshName_not_mem (base : Text) (taken : List Text) : freshName base taken ∉ taken :=
  (freshName_firstFree base taken).not_mem

theorem freshName_ne {base x : Text} {taken : List Text} (h : x ∈ taken) :
    freshName base taken ≠ x :=
  fun he => freshName_not_mem base taken (he ▸ h)

theorem prefix_freshName (base : Text) (taken : List Text) : base <+: freshName base taken := by
  have h := freshName_firstFree base taken
  generalize freshName base taken = x at h ⊢
  cases h with
  | plain => exact List.prefix_refl base
  | numbered k => exact List.prefix_append base _

/-- The count from `j` on: while the name with the number is taken, the next number is tried. It
stops at `k` after the given number of rounds. -/
inductive CountsTo (base : Text) (taken : List Text) : Nat → Nat → Nat → Prop
  | stop {k : Nat} (h : numbered base k ∉ taken) : CountsTo base taken k 0 k
  | next {j rounds k : Nat} (h : numbered base j ∈ taken)
      (hrest : CountsTo base taken (j + 1) rounds k) : CountsTo base taken j (rounds + 1) k

section
variable {base : Text} {taken : List Text} {j k rounds : Nat}

private theorem countsTo_iff :
    CountsTo base taken j rounds k ↔
      k = j + rounds ∧ IsLeast {i | j ≤ i ∧ numbered base i ∉ taken} k := by
  constructor
  · intro h
    induction h with
    | stop h => exact ⟨rfl, ⟨Nat.le_refl _, h⟩, fun i hi => hi.1⟩
    | @next j rounds k h _ ih =>
        obtain ⟨hk, ⟨hle, hfree⟩, hleast⟩ := ih
        refine ⟨by omega, ⟨by omega, hfree⟩, ?_⟩
        rintro i ⟨hji, hi⟩
        have hne : j ≠ i := by
          rintro rfl
          exact hi h
        exact hleast ⟨by omega, hi⟩
  · rintro ⟨hk, ⟨hle, hfree⟩, hleast⟩
    induction rounds generalizing j with
    | zero =>
        subst hk
        exact .stop hfree
    | succ rounds ih =>
        have htaken : numbered base j ∈ taken := by
          by_contra hj
          have hkj := hleast ⟨Nat.le_refl j, hj⟩
          omega
        refine .next htaken (ih (by omega) ?_ (by omega))
        rintro i ⟨hji, hi⟩
        exact hleast ⟨by omega, hi⟩

private theorem CountsTo.unique {r i : Nat} (h : CountsTo base taken j rounds k)
    (h' : CountsTo base taken j r i) : r = rounds ∧ i = k := by
  obtain ⟨hk, hleast⟩ := countsTo_iff.1 h
  obtain ⟨hi, hleast'⟩ := countsTo_iff.1 h'
  have hik := hleast'.unique hleast
  omega

/-- After some rounds the count has stopped, or all the names tried are taken. -/
private theorem countsTo_or_taken (base : Text) (taken : List Text) (count j : Nat) :
    (∃ rounds k, rounds < count ∧ CountsTo base taken j rounds k) ∨
      ∀ i, j ≤ i → i < j + count → numbered base i ∈ taken := by
  induction count generalizing j with
  | zero => exact Or.inr fun i hle hlt => absurd hlt (Nat.not_lt.2 hle)
  | succ count ih =>
      by_cases h : numbered base j ∈ taken
      · rcases ih (j + 1) with ⟨rounds, k, hlt, hcount⟩ | htaken
        · exact Or.inl ⟨rounds + 1, k, by omega, .next h hcount⟩
        · refine Or.inr fun i hle hlt => ?_
          rcases Nat.eq_or_lt_of_le hle with rfl | hlt'
          · exact h
          · exact htaken i hlt' (by omega)
      · exact Or.inl ⟨0, j, by omega, .stop h⟩

/-- Different numbers make different names. -/
private theorem le_length_dedup_of_taken {count : Nat}
    (h : ∀ i, 1 ≤ i → i < 1 + count → numbered base i ∈ taken) : count ≤ taken.dedup.length := by
  have hsub : (List.range count).map (fun k => numbered base (k + 1)) ⊆ taken.dedup := by
    intro name hname
    obtain ⟨k, hk, rfl⟩ := List.mem_map.1 hname
    rw [List.mem_range] at hk
    exact List.mem_dedup.2 (h (k + 1) (by omega) (by omega))
  have hle := (List.subperm_of_subset (numbered_nodup base count) hsub).length_le
  simpa using hle

theorem exists_countsTo (base : Text) (taken : List Text) :
    ∃ rounds k, rounds ≤ taken.dedup.length ∧ CountsTo base taken 1 rounds k := by
  rcases countsTo_or_taken base taken (taken.dedup.length + 1) 1 with ⟨rounds, k, hlt, h⟩ | htaken
  · exact ⟨rounds, k, Nat.le_of_lt_succ hlt, h⟩
  · have hle := le_length_dedup_of_taken htaken
    omega

theorem freshName_of_countsTo (h : CountsTo base taken 1 rounds k) :
    freshName base taken = if base ∈ taken then numbered base k else base := by
  obtain ⟨rfl, ⟨_, hfree⟩, hleast⟩ := countsTo_iff.1 h
  rw [freshName_eq_iff]
  split
  · rename_i hbase
    rw [Nat.add_comm] at hfree ⊢
    refine .numbered rounds hbase hfree fun i hi => ?_
    by_contra hfree'
    have hle := hleast ⟨Nat.le_add_left 1 i, hfree'⟩
    omega
  · rename_i hbase
    exact .plain hbase

end

/-- Counting up from one stops, in one way only and after no more rounds than there are different
taken names, at the least number whose name is free. The fresh name is free: it is the name itself
if that is free, and otherwise the name with this number behind it. -/
theorem freshName_ends_least (base : Text) (taken : List Text) :
    freshName base taken ∉ taken ∧
      ∃ rounds k, (∀ r j, CountsTo base taken 1 r j ↔ r = rounds ∧ j = k) ∧
        rounds ≤ taken.dedup.length ∧ IsLeast {j | 1 ≤ j ∧ numbered base j ∉ taken} k ∧
        freshName base taken = if base ∈ taken then numbered base k else base := by
  obtain ⟨rounds, k, hle, hcount⟩ := exists_countsTo base taken
  obtain ⟨_, hleast⟩ := countsTo_iff.1 hcount
  refine ⟨freshName_not_mem base taken, rounds, k, ?_, hle, hleast, freshName_of_countsTo hcount⟩
  intro r j
  constructor
  · intro h
    exact hcount.unique h
  · rintro ⟨rfl, rfl⟩
    exact hcount

example : freshName "x" (["x", "x1", "x3", "x"] : List Text) = ("x2" : Text) := by decide

end RefinementTypes
