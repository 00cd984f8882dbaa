import RefinementTypes.Term.Basic
import RefinementTypes.Term.Occurrence

/-!
# Occurrences and parameters that are named

A term in which every reference is in range can be instantiated. A term occurs in another as the
whole of it or inside one of its parts, and the parameters that a term refers to are those whose
references occur in it.
-/

namespace RefinementTypes

theorem paramName?_isSome {names : List Text} {index : Int} (h0 : 0 ≤ index)
    (hlt : index < names.length) : ∃ name, paramName? names index = some name := by
  have hn : index.toNat < names.length := by omega
  refine ⟨names[index.toNat], ?_⟩
  rw [paramName?, if_pos h0, List.getElem?_eq_getElem hn]

theorem mem_of_paramName?_eq_some {names : List Text} {i : Int} {x : Text}
    (h : paramName? names i = some x) : x ∈ names := by
  rw [paramName?] at h
  split at h
  · exact List.mem_of_getElem? h
  · cases h

namespace Term

private theorem instantiateIn_isOk {names : List Text} {alternatives : List (Pattern × Term)}
    (h : ∀ a ∈ alternatives, ∃ u, a.2.instantiate names = .ok u) :
    ∃ us, instantiateIn names alternatives = .ok us := by
  induction alternatives with
  | nil => exact ⟨[], by rw [instantiateIn]⟩
  | cons a rest ih =>
      obtain ⟨pattern, body⟩ := a
      obtain ⟨u, hu⟩ := h (pattern, body) (by simp)
      obtain ⟨us, hus⟩ := ih fun b hb => h b (by simp [hb])
      refine ⟨(pattern, u) :: us, ?_⟩
      simp only [instantiateIn, hu, hus]
      rfl

private theorem mem_paramRefsIn {i : Int} {alternatives : List (Pattern × Term)} :
    i ∈ paramRefsIn alternatives ↔ ∃ a ∈ alternatives, i ∈ a.2.paramRefs := by
  induction alternatives with
  | nil => simp [paramRefsIn]
  | cons a rest ih => simp [paramRefsIn, ih]

theorem instantiate_isOk {names : List Text} {t : Term}
    (h : ∀ i ∈ t.paramRefs, 0 ≤ i ∧ i < names.length) : ∃ u, t.instantiate names = .ok u := by
  induction t using Term.inductionOn with
  | var name => exact ⟨var name, by rw [instantiate]⟩
  | param index =>
      have hi := h index (by simp [paramRefs])
      obtain ⟨name, hname⟩ := paramName?_isSome hi.1 hi.2
      exact ⟨var name, by rw [instantiate, hname]⟩
  | app fn arg info ihf iha =>
      simp only [paramRefs, List.mem_append] at h
      obtain ⟨f, hf⟩ := ihf fun i hi => h i (Or.inl hi)
      obtain ⟨a, ha⟩ := iha fun i hi => h i (Or.inr hi)
      refine ⟨app f a info, ?_⟩
      simp only [instantiate, hf, ha]
      rfl
  | lit value => exact ⟨lit value, by rw [instantiate]⟩
  | hole => exact ⟨hole, by rw [instantiate]⟩
  | pi name m info domain result ihd ihr =>
      simp only [paramRefs, List.mem_append] at h
      obtain ⟨d, hd⟩ := ihd fun i hi => h i (Or.inl hi)
      obtain ⟨r, hr⟩ := ihr fun i hi => h i (Or.inr hi)
      refine ⟨pi name m info d r, ?_⟩
      simp only [instantiate, hd, hr]
      rfl
  | case scrutinee alternatives ihs iha =>
      simp only [paramRefs, List.mem_append] at h
      obtain ⟨s, hs⟩ := ihs fun i hi => h i (Or.inl hi)
      obtain ⟨as, has⟩ := instantiateIn_isOk fun a ha =>
        iha a ha fun i hi => h i (Or.inr (mem_paramRefsIn.2 ⟨a, ha, hi⟩))
      refine ⟨case s as, ?_⟩
      simp only [instantiate, hs, has]
      rfl

inductive OccursIn (s : Term) : Term → Prop
  | whole : OccursIn s s
  | fn {fn : Term} (h : OccursIn s fn) (arg : Term) (info : Explicitness) :
      OccursIn s (app fn arg info)
  | arg (fn : Term) {arg : Term} (h : OccursIn s arg) (info : Explicitness) :
      OccursIn s (app fn arg info)
  | domain (name : Option Text) (m : Multiplicity) (info : Explicitness) {domain : Term}
      (h : OccursIn s domain) (result : Term) : OccursIn s (pi name m info domain result)
  | result (name : Option Text) (m : Multiplicity) (info : Explicitness) (domain : Term)
      {result : Term} (h : OccursIn s result) : OccursIn s (pi name m info domain result)
  | scrutinee {scrutinee : Term} (h : OccursIn s scrutinee)
      (alternatives : List (Pattern × Term)) : OccursIn s (case scrutinee alternatives)
  | body (scrutinee : Term) {alternatives : List (Pattern × Term)} {a : Pattern × Term}
      (ha : a ∈ alternatives) (h : OccursIn s a.2) : OccursIn s (case scrutinee alternatives)

private theorem occursIn_of_mem_paramRefs {i : Int} {t : Term} (h : i ∈ t.paramRefs) :
    (param i).OccursIn t := by
  induction t using Term.inductionOn with
  | var name => simp [paramRefs] at h
  | param index =>
      have heq : i = index := by simpa [paramRefs] using h
      subst heq
      exact .whole
  | app fn arg info ihf iha =>
      rw [paramRefs, List.mem_append] at h
      rcases h with h | h
      · exact .fn (ihf h) arg info
      · exact .arg fn (iha h) info
  | lit value => simp [paramRefs] at h
  | hole => simp [paramRefs] at h
  | pi name m info domain result ihd ihr =>
      rw [paramRefs, List.mem_append] at h
      rcases h with h | h
      · exact .domain name m info (ihd h) result
      · exact .result name m info domain (ihr h)
  | case scrutinee alternatives ihs iha =>
      rw [paramRefs, List.mem_append, mem_paramRefsIn] at h
      rcases h with h | ⟨a, ha, h⟩
      · exact .scrutinee (ihs h) alternatives
      · exact .body scrutinee ha (iha a ha h)

private theorem mem_paramRefs_of_occursIn {i : Int} {t : Term} (h : (param i).OccursIn t) :
    i ∈ t.paramRefs := by
  induction h with
  | whole => simp [paramRefs]
  | fn _ _ _ ih => simp [paramRefs, ih]
  | arg _ _ _ ih => simp [paramRefs, ih]
  | domain _ _ _ _ _ ih => simp [paramRefs, ih]
  | result _ _ _ _ _ ih => simp [paramRefs, ih]
  | scrutinee _ _ ih => simp [paramRefs, ih]
  | body _ ha _ ih =>
      rw [paramRefs, List.mem_append, mem_paramRefsIn]
      exact Or.inr ⟨_, ha, ih⟩

theorem param_occursIn_iff {i : Int} {t : Term} : (param i).OccursIn t ↔ i ∈ t.paramRefs :=
  ⟨mem_paramRefs_of_occursIn, occursIn_of_mem_paramRefs⟩

end Term
end RefinementTypes
