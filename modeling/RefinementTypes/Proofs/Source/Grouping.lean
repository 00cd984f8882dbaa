import Mathlib.Data.List.Induction
import RefinementTypes.Source.Module

/-!
# Groups of a module

The groups of a module are its namespaces, in the order in which they first come, each with the
declarations of that namespace in order.
-/

namespace RefinementTypes.Source
variable {ds : List Declaration} {d : Declaration} {spaces : List (Option Text)}
  {space : Option Text}

/-- Adds the namespace of a declaration behind the others, unless it is there. -/
def addSpace (spaces : List (Option Text)) (d : Declaration) : List (Option Text) :=
  if d.space ∈ spaces then spaces else spaces ++ [d.space]

/-- The namespaces of a module in the order in which they first come. -/
def firstSpaces (ds : List Declaration) : List (Option Text) := ds.foldl addSpace []

private theorem mem_addSpace : space ∈ addSpace spaces d ↔ space ∈ spaces ∨ space = d.space := by
  rw [addSpace]
  split
  · rename_i hd
    constructor
    · exact Or.inl
    · rintro (h | rfl)
      · exact h
      · exact hd
  · simp

private theorem addSpace_nodup (h : spaces.Nodup) : (addSpace spaces d).Nodup := by
  rw [addSpace]
  split
  · exact h
  · rename_i hd
    rw [List.nodup_append]
    refine ⟨h, by simp, ?_⟩
    intro s hs t ht
    rw [List.mem_singleton.1 ht]
    rintro rfl
    exact hd hs

theorem firstSpaces_concat (ds : List Declaration) (d : Declaration) :
    firstSpaces (ds ++ [d]) = addSpace (firstSpaces ds) d := by
  simp [firstSpaces]

theorem mem_firstSpaces : space ∈ firstSpaces ds ↔ ∃ d ∈ ds, d.space = space := by
  induction ds using List.reverseRecOn with
  | nil => simp [firstSpaces]
  | append_singleton ds d ih =>
      rw [firstSpaces_concat, mem_addSpace, ih]
      simp [or_and_right, exists_or, eq_comm]

theorem firstSpaces_nodup (ds : List Declaration) : (firstSpaces ds).Nodup := by
  induction ds using List.reverseRecOn with
  | nil => simp [firstSpaces]
  | append_singleton ds d ih =>
      rw [firstSpaces_concat]
      exact addSpace_nodup ih

/-- The declarations of a namespace. -/
def groupOf (ds : List Declaration) (space : Option Text) : Group :=
  ⟨space, ds.filter fun d => d.space = space⟩

private theorem groupOf_concat_same (ds : List Declaration) (d : Declaration) :
    groupOf (ds ++ [d]) d.space = ⟨d.space, (groupOf ds d.space).members ++ [d]⟩ := by
  simp [groupOf]

private theorem groupOf_concat_other (h : d.space ≠ space) :
    groupOf (ds ++ [d]) space = groupOf ds space := by
  simp [groupOf, h]

private theorem map_groupOf_concat (h : d.space ∉ spaces) :
    spaces.map (groupOf (ds ++ [d])) = spaces.map (groupOf ds) := by
  apply List.map_congr_left
  intro s hs
  apply groupOf_concat_other
  rintro rfl
  exact h hs

/-- Adding a declaration to the groups of the declarations before it. -/
private theorem addToGroups_groupOf (hdistinct : spaces.Nodup)
    (hnew : d.space ∉ spaces → groupOf ds d.space = ⟨d.space, []⟩) :
    addToGroups d (spaces.map (groupOf ds)) =
      (addSpace spaces d).map (groupOf (ds ++ [d])) := by
  induction spaces with
  | nil =>
      have hempty := hnew (by simp)
      simp [addToGroups, addSpace, groupOf_concat_same, hempty]
  | cons s spaces ih =>
      rw [List.nodup_cons] at hdistinct
      by_cases hs : s = d.space
      · -- The first group is the one to extend, and those behind it are of other namespaces.
        have hrest : d.space ∉ spaces := hs ▸ hdistinct.1
        have hadd : addSpace (s :: spaces) d = s :: spaces := by simp [addSpace, hs]
        rw [hadd, List.map_cons, List.map_cons, map_groupOf_concat hrest, hs, groupOf_concat_same,
          addToGroups]
        simp [groupOf]
      · have hadd : addSpace (s :: spaces) d = s :: addSpace spaces d := by
          by_cases hd : d.space ∈ spaces <;> simp [addSpace, hd, Ne.symm hs]
        have hrest := ih hdistinct.2 fun hd => hnew (by simp [hd, Ne.symm hs])
        have hsame : groupOf (ds ++ [d]) s = groupOf ds s := groupOf_concat_other (Ne.symm hs)
        have hother : (groupOf ds s).space ≠ d.space := hs
        rw [hadd, List.map_cons, List.map_cons, addToGroups, if_neg hother, hrest, hsame]

theorem groups_eq (ds : List Declaration) : groups ds = (firstSpaces ds).map (groupOf ds) := by
  induction ds using List.reverseRecOn with
  | nil => rfl
  | append_singleton ds d ih =>
      have hgroups : groups (ds ++ [d]) = addToGroups d (groups ds) := by simp [groups]
      rw [hgroups, firstSpaces_concat, ih]
      apply addToGroups_groupOf (firstSpaces_nodup ds)
      intro hd
      have hnone : ∀ c ∈ ds, ¬ c.space = d.space := by
        intro c hc heq
        exact hd (mem_firstSpaces.2 ⟨c, hc, heq⟩)
      rw [groupOf, List.filter_eq_nil_iff.2 (by simpa using hnone)]

end RefinementTypes.Source
