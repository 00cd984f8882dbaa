import Mathlib.Data.List.Nodup
import RefinementTypes.Proofs.Declaration.Companion
import RefinementTypes.Proofs.Term.Capture

/-!
# The telescope of parameters

Every generated signature begins with a binder for each parameter, in order. A reference from the
type of one parameter to another is bound when the other comes first. References of a type to its
own parameter and to later ones are left open.
-/

namespace RefinementTypes
variable {d : TypeDescriptor} {r : Refinement} {v : Vocabulary} {visibility : Visibility} {x : Text}

/-- The binders of parameters, with the parameters of their types named. -/
def IsParameterBinder (names : List Text) (p : TypeParameter) (b : Binder) : Prop :=
  b.name = some p.name ∧ p.type.instantiate names = .ok b.domain

/-- The name stands in the type of a parameter of the list, in front of its own binder. -/
def OpenIn (names : List Text) (x : Text) (params : List TypeParameter) : Prop :=
  ∃ before p after, params = before ++ p :: after ∧ (∀ q ∈ before, q.name ≠ x) ∧
    (x ∈ p.type.freeNames ∨ ∃ i ∈ p.type.exposedRefs x, paramName? names i = some x)

private theorem openIn_cons {names : List Text} {p : TypeParameter} {params : List TypeParameter} :
    OpenIn names x (p :: params) ↔
      (x ∈ p.type.freeNames ∨ ∃ i ∈ p.type.exposedRefs x, paramName? names i = some x) ∨
        p.name ≠ x ∧ OpenIn names x params := by
  constructor
  · rintro ⟨before, q, after, heq, hbefore, hq⟩
    cases before with
    | nil =>
        cases heq
        exact Or.inl hq
    | cons head before =>
        cases heq
        rw [List.forall_mem_cons] at hbefore
        exact Or.inr ⟨hbefore.1, before, q, after, rfl, hbefore.2, hq⟩
  · rintro (hp | ⟨hne, before, q, after, rfl, hbefore, hq⟩)
    · exact ⟨[], p, params, rfl, by simp, hp⟩
    · refine ⟨p :: before, q, after, rfl, ?_, hq⟩
      rw [List.forall_mem_cons]
      exact ⟨hne, hbefore⟩

/-- Behind the binders of the parameters, the names of the parameters are no longer free. -/
theorem mem_freeNames_telescope {names : List Text} {params : List TypeParameter}
    {bs rest : List Binder} {result : Term}
    (h : List.Forall₂ (IsParameterBinder names) params bs) :
    x ∈ (Term.piAll (bs ++ rest) result).freeNames ↔
      OpenIn names x params ∨
        (∀ p ∈ params, p.name ≠ x) ∧ x ∈ (Term.piAll rest result).freeNames := by
  induction h with
  | nil => simp [OpenIn]
  | @cons p b params bs hb _ ih =>
      obtain ⟨hname, htype⟩ := hb
      rw [List.cons_append, Term.piAll_cons, hname, Term.freeNames, List.mem_append,
        List.mem_filter, ih, Term.mem_freeNames_instantiate htype, openIn_cons,
        List.forall_mem_cons]
      by_cases hx : p.name = x
      · simp [hx]
      · simp [hx, or_assoc]

namespace Refinement

theorem parameterBinders_eq_ok {bs : List Binder} (h : r.parameterBinders = .ok bs) :
    List.Forall₂ (IsParameterBinder r.descriptor.paramNames) r.descriptor.params bs := by
  refine List.Forall₂.imp ?_ (mapM_eq_ok h)
  intro p b hb
  obtain ⟨type, htype, hb⟩ := bind_eq_ok hb
  cases hb
  exact ⟨rfl, htype⟩

/-- The signature begins with the binders of the parameters. -/
def HasTelescope (r : Refinement) (signature : Term) : Prop :=
  ∃ bs rest result, r.parameterBinders = .ok bs ∧ signature = Term.piAll (bs ++ rest) result

private theorem refineDeclaration_telescope {refine : Declaration}
    (h : r.refineDeclaration v visibility = .ok refine) : r.HasTelescope refine.signature := by
  obtain ⟨_, _, bs, _, _, hbs, hsignature⟩ := refineDeclaration_signature h
  exact ⟨bs, _, _, hbs, hsignature⟩

private theorem literalDeclaration_telescope {kind : LiteralKind} {conversion : Declaration}
    (h : r.literalDeclaration kind v visibility = .ok conversion) :
    r.HasTelescope conversion.signature := by
  obtain ⟨_, bs, _, _, hbs, hsignature⟩ := literalDeclaration_signature h
  exact ⟨bs, _, _, hbs, hsignature⟩

private theorem HasTelescope.mem_freeNames_iff {signature : Term} (h : r.HasTelescope signature)
    (hx : x ∈ r.descriptor.paramNames) :
    x ∈ signature.freeNames ↔ OpenIn r.descriptor.paramNames x r.descriptor.params := by
  obtain ⟨bs, rest, result, hbs, rfl⟩ := h
  have hbound : ¬ ∀ p ∈ r.descriptor.params, p.name ≠ x := by
    obtain ⟨p, hp, hname⟩ := List.mem_map.1 hx
    intro hne
    exact hne p hp hname
  rw [mem_freeNames_telescope (parameterBinders_eq_ok hbs)]
  simp only [hbound, false_and, or_false]

end Refinement

private theorem companions_telescope {strategy : Strategy} (h : d.refinement = .ok r)
    {companions : List Declaration} (hderive : derive strategy d v visibility = .ok companions)
    {c : Declaration} (hc : c ∈ companions) : r.HasTelescope c.signature := by
  rcases companion_of_mem_derive h hderive hc with hrefine | ⟨kind, hconversion⟩
  · exact Refinement.refineDeclaration_telescope hrefine
  · exact Refinement.literalDeclaration_telescope hconversion

namespace TypeDescriptor

/-- The type of parameter `j` refers to parameter `i` outside the binders of its name. -/
def RefersTo (d : TypeDescriptor) (j i : Fin d.params.length) : Prop :=
  (i.val : Int) ∈ (d.params.get j).type.exposedRefs (d.params.get i).name

instance (d : TypeDescriptor) (j i : Fin d.params.length) : Decidable (d.RefersTo j i) :=
  inferInstanceAs (Decidable (_ ∈ _))

private theorem name_mem_paramNames (d : TypeDescriptor) (i : Fin d.params.length) :
    (d.params.get i).name ∈ d.paramNames :=
  List.mem_map.2 ⟨d.params.get i, List.get_mem .., rfl⟩

private theorem getElem?_paramNames (d : TypeDescriptor) (i : Fin d.params.length) :
    d.paramNames[i.val]? = some (d.params.get i).name := by
  simp [paramNames]

private theorem eq_of_name_eq (hdistinct : d.paramNames.Nodup) {i j : Fin d.params.length}
    (h : (d.params.get i).name = (d.params.get j).name) : i = j := by
  have hlt : i.val < d.paramNames.length := by simp [paramNames]
  have hsame : d.paramNames[i.val]? = d.paramNames[j.val]? := by
    rw [getElem?_paramNames, getElem?_paramNames, h]
  exact Fin.ext ((List.getElem?_inj hlt hdistinct).1 hsame)

private theorem paramName?_eq_some_iff (hdistinct : d.paramNames.Nodup) {k : Int}
    {i : Fin d.params.length} :
    paramName? d.paramNames k = some (d.params.get i).name ↔ k = i.val := by
  have hlt : i.val < d.paramNames.length := by simp [paramNames]
  rw [paramName?]
  constructor
  · intro h
    split at h
    · rw [← getElem?_paramNames, eq_comm, List.getElem?_inj hlt hdistinct] at h
      omega
    · cases h
  · rintro rfl
    rw [if_pos (Int.natCast_nonneg _), Int.toNat_natCast, getElem?_paramNames]

/-- The parameters in front of the first binder of a name are those up to its own. -/
private theorem openIn_iff (hdistinct : d.paramNames.Nodup)
    (hvars : ∀ p ∈ d.params, ∀ x ∈ d.paramNames, x ∉ p.type.freeNames)
    (i : Fin d.params.length) :
    OpenIn d.paramNames (d.params.get i).name d.params ↔ ∃ j ≤ i, d.RefersTo j i := by
  have hrefers (j : Fin d.params.length) :
      ((d.params.get i).name ∈ (d.params.get j).type.freeNames ∨
        ∃ k ∈ (d.params.get j).type.exposedRefs (d.params.get i).name,
          paramName? d.paramNames k = some (d.params.get i).name) ↔ d.RefersTo j i := by
    have hnot := hvars _ (List.get_mem d.params j) _ (d.name_mem_paramNames i)
    simp only [hnot, false_or, paramName?_eq_some_iff hdistinct, exists_eq_right, RefersTo]
  constructor
  · rintro ⟨before, p, after, heq, hbefore, hp⟩
    have hlt : before.length < d.params.length := by simp [heq]
    have hget : d.params.get ⟨before.length, hlt⟩ = p := by simp [heq]
    refine ⟨⟨before.length, hlt⟩, ?_, ?_⟩
    · -- Were the entry behind parameter `i`, then a binder in front of it would have the name.
      apply Nat.le_of_not_lt
      intro hi
      have hmem : d.params.get i ∈ before := by
        rw [List.get_eq_getElem, List.getElem_of_eq heq, List.getElem_append_left hi]
        exact List.getElem_mem hi
      exact hbefore _ hmem rfl
    · rw [← hrefers, hget]
      exact hp
  · rintro ⟨j, hj, href⟩
    refine ⟨d.params.take j, d.params.get j, d.params.drop (j + 1), ?_, ?_, (hrefers j).2 href⟩
    · simp
    · intro q hq hname
      obtain ⟨k, hk, rfl⟩ := List.getElem_of_mem hq
      rw [List.length_take] at hk
      rw [List.getElem_take] at hname
      have hki : (⟨k, by omega⟩ : Fin d.params.length) = i := eq_of_name_eq hdistinct hname
      have hval := congrArg Fin.val hki
      have hle : j.val ≤ i.val := hj
      simp only at hval
      omega

end TypeDescriptor

/-- Every accepted descriptor has its companions. Let the names of its parameters be different and
no variables of their types, and so refer to nothing but the parameters. Then the name of a
parameter is free in a generated signature exactly when the type of the parameter itself or of an
earlier one refers to it. -/
theorem param_free_in_signature_iff (h : d.refinement = .ok r) (hdistinct : d.paramNames.Nodup)
    (hvars : ∀ p ∈ d.params, ∀ x ∈ d.paramNames, x ∉ p.type.freeNames) (strategy : Strategy)
    (v : Vocabulary) (visibility : Visibility) :
    ∃ companions, derive strategy d v visibility = .ok companions ∧
      ∀ c ∈ companions, ∀ i : Fin d.params.length,
        (d.params.get i).name ∈ c.signature.freeNames ↔ ∃ j ≤ i, d.RefersTo j i := by
  obtain ⟨companions, _, _, hderive, _⟩ := derive_isOk h strategy v visibility
  refine ⟨companions, hderive, ?_⟩
  intro c hc i
  have htelescope := companions_telescope h hderive hc
  obtain ⟨rfl, _⟩ := TypeDescriptor.refinement_eq_ok h
  rw [htelescope.mem_freeNames_iff (TypeDescriptor.name_mem_paramNames _ i),
    TypeDescriptor.openIn_iff hdistinct hvars]

/-- Strings that are not empty, at an index below a number that is given behind the index. -/
def slot : TypeDescriptor where
  name := "Slot"
  params := [⟨"i", .app (.var "Fin") (.param 1) .explicit⟩, ⟨"n", .var "Nat"⟩]
  constructors := [{
    name := "MkSlot"
    args := [
      .param 0,
      .param 1,
      .named ⟨some "value", .unrestricted, .explicit, .var "String"⟩,
      .named ⟨some "proof", .unrestricted, .explicit,
        .app (.var "NonEmpty") (.var "value") .explicit⟩] }]
  location := none

theorem param_free_in_signature_slot :
    slot.paramNames.Nodup ∧
      (∀ p ∈ slot.params, ∀ x ∈ slot.paramNames, x ∉ p.type.freeNames) ∧
      ∃ companions, derive .integerLiterals slot {} .exported = .ok companions ∧
        ∀ c ∈ companions, ("i" : Text) ∉ c.signature.freeNames ∧
          ("n" : Text) ∈ c.signature.freeNames := by
  have hslot : slot.refinement = .ok _ := rfl
  have hdistinct : slot.paramNames.Nodup := by decide
  have hvars : ∀ p ∈ slot.params, ∀ x ∈ slot.paramNames, x ∉ p.type.freeNames := by decide
  obtain ⟨companions, hderive, hfree⟩ :=
    param_free_in_signature_iff hslot hdistinct hvars .integerLiterals {} .exported
  refine ⟨hdistinct, hvars, companions, hderive, ?_⟩
  intro c hc
  have hi := hfree c hc ⟨0, by decide⟩
  have hn := hfree c hc ⟨1, by decide⟩
  constructor
  · intro hmem
    exact absurd (hi.1 hmem) (by decide)
  · exact hn.2 (by decide)

/-- A reference to a later parameter is left open. -/
theorem signature_mentions_later_param :
    slot.paramNames.Nodup ∧
      (∀ p ∈ slot.params, ∀ x ∈ slot.paramNames, x ∉ p.type.freeNames) ∧
      ∃ refine, derive .plain slot {} .exported = .ok [refine] ∧ ("n" : Text) ∈ slot.paramNames ∧
        ("n" : Text) ∈ refine.signature.freeNames :=
  ⟨by decide, by decide, _, rfl, by decide, by decide⟩

end RefinementTypes
