import RefinementTypes.Proofs.Checked
import RefinementTypes.Proofs.Term.Occurrence

/-!
# Capture of parameter names

The name that is put in the place of a parameter reference is free in the result, unless the
reference stands under a binder of that very name. A name is therefore captured when every
reference it replaces does, and the term does not mention it otherwise.
-/

namespace RefinementTypes
namespace Term

mutual

/-- The parameters that a term refers to outside the binders of the name `x`. -/
def exposedRefs (x : Text) : Term → List Int
  | param index => [index]
  | app fn arg _ => fn.exposedRefs x ++ arg.exposedRefs x
  | pi name _ _ domain result =>
      domain.exposedRefs x ++ if name = some x then [] else result.exposedRefs x
  | case scrutinee alternatives => scrutinee.exposedRefs x ++ exposedRefsIn x alternatives
  | var _ => []
  | lit _ => []
  | hole => []

def exposedRefsIn (x : Text) : List (Pattern × Term) → List Int
  | [] => []
  | (pattern, body) :: rest =>
      (if x ∈ pattern.binds then [] else body.exposedRefs x) ++ exposedRefsIn x rest

end

mutual

/-- The names that a term binds anywhere. -/
def boundNames : Term → List Text
  | app fn arg _ => fn.boundNames ++ arg.boundNames
  | pi name _ _ domain result => name.toList ++ domain.boundNames ++ result.boundNames
  | case scrutinee alternatives => scrutinee.boundNames ++ boundNamesIn alternatives
  | var _ => []
  | param _ => []
  | lit _ => []
  | hole => []

def boundNamesIn : List (Pattern × Term) → List Text
  | [] => []
  | (pattern, body) :: rest => pattern.binds ++ body.boundNames ++ boundNamesIn rest

end

/-- Naming the parameters of `t` leaves no free reference to a parameter of the name `x`: each of
them stands under a binder of the name. -/
def Captures (names : List Text) (t : Term) (x : Text) : Prop :=
  x ∉ t.freeNames ∧ ∀ i ∈ t.exposedRefs x, paramName? names i ≠ some x

instance (names : List Text) (t : Term) (x : Text) : Decidable (t.Captures names x) :=
  inferInstanceAs (Decidable (_ ∧ _))

private theorem exposedRefsIn_of_not_bound {x : Text} {alternatives : List (Pattern × Term)}
    (ih : ∀ a ∈ alternatives, x ∉ a.2.boundNames → a.2.exposedRefs x = a.2.paramRefs)
    (h : x ∉ boundNamesIn alternatives) :
    exposedRefsIn x alternatives = paramRefsIn alternatives := by
  induction alternatives with
  | nil => rfl
  | cons a rest ihr =>
      obtain ⟨pattern, body⟩ := a
      simp only [boundNamesIn, List.mem_append, not_or] at h
      obtain ⟨⟨hpattern, hbody⟩, hrest⟩ := h
      have hb := ih (pattern, body) (by simp) hbody
      have hr := ihr (fun b hb => ih b (by simp [hb])) hrest
      rw [exposedRefsIn, paramRefsIn, if_neg hpattern, hb, hr]

private theorem exposedRefs_of_not_bound {x : Text} {t : Term} (h : x ∉ t.boundNames) :
    t.exposedRefs x = t.paramRefs := by
  induction t using Term.inductionOn with
  | var name => rfl
  | param index => rfl
  | app fn arg info ihf iha =>
      simp only [boundNames, List.mem_append, not_or] at h
      rw [exposedRefs, paramRefs, ihf h.1, iha h.2]
  | lit value => rfl
  | hole => rfl
  | pi name m info domain result ihd ihr =>
      simp only [boundNames, List.mem_append, Option.mem_toList, not_or] at h
      obtain ⟨⟨hname, hdomain⟩, hresult⟩ := h
      rw [exposedRefs, paramRefs, if_neg hname, ihd hdomain, ihr hresult]
  | case scrutinee alternatives ihs iha =>
      simp only [boundNames, List.mem_append, not_or] at h
      rw [exposedRefs, paramRefs, ihs h.1, exposedRefsIn_of_not_bound iha h.2]

theorem not_captures_of_not_bound {names : List Text} {t : Term} {i : Int} {x : Text}
    (hi : i ∈ t.paramRefs) (hname : paramName? names i = some x) (h : x ∉ t.boundNames) :
    ¬ t.Captures names x := by
  intro hc
  have hexposed : i ∈ t.exposedRefs x := by rw [exposedRefs_of_not_bound h]; exact hi
  exact hc.2 i hexposed hname

variable {names : List Text} {x : Text}

private theorem mem_freeNamesIn_instantiateIn {alternatives us : List (Pattern × Term)}
    (ih : ∀ a ∈ alternatives, ∀ u, a.2.instantiate names = .ok u →
      (x ∈ u.freeNames ↔ x ∈ a.2.freeNames ∨
        ∃ i ∈ a.2.exposedRefs x, paramName? names i = some x))
    (h : instantiateIn names alternatives = .ok us) :
    x ∈ freeNamesIn us ↔ x ∈ freeNamesIn alternatives ∨
      ∃ i ∈ exposedRefsIn x alternatives, paramName? names i = some x := by
  induction alternatives generalizing us with
  | nil =>
      cases h
      simp [freeNamesIn, exposedRefsIn]
  | cons a rest ihr =>
      obtain ⟨pattern, body⟩ := a
      obtain ⟨u, hu, h⟩ := bind_eq_ok h
      obtain ⟨more, hmore, h⟩ := bind_eq_ok h
      cases h
      have hbody := ih (pattern, body) (by simp) u hu
      have hrest := ihr (fun b hb => ih b (by simp [hb])) hmore
      by_cases hx : x ∈ pattern.binds
      · simp [freeNamesIn, exposedRefsIn, hx, hrest]
      · simp only [freeNamesIn, exposedRefsIn, List.mem_append, List.mem_filter, hbody, hrest, hx,
          if_false, not_false_eq_true, decide_true, and_true, or_and_right, exists_or]
        exact or_or_or_comm

theorem mem_freeNames_instantiate {t u : Term} (h : t.instantiate names = .ok u) :
    x ∈ u.freeNames ↔ x ∈ t.freeNames ∨ ∃ i ∈ t.exposedRefs x, paramName? names i = some x := by
  induction t using Term.inductionOn generalizing u with
  | var name =>
      cases h
      simp [exposedRefs]
  | param index =>
      rw [instantiate] at h
      split at h
      · rename_i name hname
        cases h
        simp [freeNames, exposedRefs, hname, eq_comm]
      · cases h
  | app fn arg info ihf iha =>
      obtain ⟨f, hf, h⟩ := bind_eq_ok h
      obtain ⟨a, ha, h⟩ := bind_eq_ok h
      cases h
      simp only [freeNames, exposedRefs, List.mem_append, ihf hf, iha ha, or_and_right, exists_or]
      exact or_or_or_comm
  | lit value =>
      cases h
      simp [exposedRefs]
  | hole =>
      cases h
      simp [exposedRefs]
  | pi name m info domain result ihd ihr =>
      obtain ⟨dom, hd, h⟩ := bind_eq_ok h
      obtain ⟨res, hr, h⟩ := bind_eq_ok h
      cases h
      by_cases hx : name = some x
      · -- Nothing in the result of the arrow counts, neither variables nor references.
        simp [freeNames, exposedRefs, hx, ihd hd]
      · simp only [freeNames, exposedRefs, List.mem_append, List.mem_filter, ihd hd, ihr hr, hx,
          if_false, ne_eq, not_false_eq_true, decide_true, and_true, or_and_right, exists_or]
        exact or_or_or_comm
  | case scrutinee alternatives ihs iha =>
      obtain ⟨s, hs, h⟩ := bind_eq_ok h
      obtain ⟨us, hus, h⟩ := bind_eq_ok h
      cases h
      have halternatives := mem_freeNamesIn_instantiateIn (fun a ha u hu => iha a ha hu) hus
      simp only [freeNames, exposedRefs, List.mem_append, ihs hs, halternatives, or_and_right,
        exists_or]
      exact or_or_or_comm

theorem mem_freeNames_iff_not_captures {t u : Term} (h : t.instantiate names = .ok u) :
    x ∈ u.freeNames ↔ ¬ t.Captures names x := by
  rw [mem_freeNames_instantiate h, Captures, not_and_or, not_not]
  simp only [not_forall, not_not, exists_prop]

end Term
end RefinementTypes
