import RefinementTypes.Proofs.Shape.Refinement
import RefinementTypes.Proofs.Term.Capture

/-!
# Parameters in extracted terms

The value type and the predicate of a refinement type are extracted by naming their parameters. A
name that a binder on the way takes for itself is lost, and only then.
-/

namespace RefinementTypes

/-- Naming the parameters of `t` gives `u`, in which parameter `i` goes by the name `x`. -/
structure ParamNamed (names : List Text) (t u : Term) (i : Int) (x : Text) : Prop where
  name : paramName? names i = some x
  free_iff : x ∈ u.freeNames ↔ ¬ t.Captures names x
  free_of_not_bound : x ∉ t.boundNames → x ∈ u.freeNames

private theorem paramNamed_of_instantiate {names : List Text} {t u : Term} {i : Int}
    (h : t.instantiate names = .ok u) (hi : i ∈ t.paramRefs)
    (hrange : 0 ≤ i ∧ i < names.length) : ∃ x, ParamNamed names t u i x := by
  obtain ⟨x, hx⟩ := paramName?_isSome hrange.1 hrange.2
  have hfree := Term.mem_freeNames_iff_not_captures (x := x) h
  refine ⟨x, hx, hfree, ?_⟩
  intro hbound
  exact hfree.2 (Term.not_captures_of_not_bound hi hx hbound)

namespace Refinement
variable {d : TypeDescriptor} {r : Refinement}

/-- Every parameter of an extracted term has a name, which is free in the term exactly when it is
not captured, so in particular when no binder takes it. -/
theorem params_free_iff (h : d.refinement = .ok r) :
    ∃ valueType predicate, r.valueType = .ok valueType ∧ r.predicate = .ok predicate ∧
      (∀ i ∈ r.shape.pair.valueType.paramRefs,
        ∃ x, ParamNamed d.paramNames r.shape.pair.valueType valueType i x) ∧
      (∀ i ∈ r.shape.pair.predicate.paramRefs,
        ∃ x, ParamNamed d.paramNames r.shape.pair.predicate predicate i x) := by
  obtain ⟨valueType, hvalueType⟩ := valueType_isOk h
  obtain ⟨predicate, hpredicate⟩ := predicate_isOk h
  obtain ⟨rfl, _⟩ := TypeDescriptor.refinement_eq_ok h
  refine ⟨valueType, predicate, hvalueType, hpredicate, ?_, ?_⟩
  · intro i hi
    have hrange := inRange_of_mem h (i := i) (by simp [referencedParams, hi])
    exact paramNamed_of_instantiate hvalueType hi hrange
  · intro i hi
    have hrange := inRange_of_mem h (i := i) (by simp [referencedParams, hi])
    exact paramNamed_of_instantiate hpredicate hi hrange

/-- Sequences of numbers below `n`. The positions of a sequence are called `n` as well, and so the
type of its members is written `(n : Nat) -> Fin n`. -/
def boundedSequence : TypeDescriptor where
  name := "BoundedSequence"
  params := [⟨"n", .var "Nat"⟩]
  constructors := [{
    name := "MkBoundedSequence"
    args := [
      .param 0,
      .named ⟨some "value", .unrestricted, .explicit,
        .pi (some "n") .unrestricted .explicit (.var "Nat")
          (.app (.var "Fin") (.param 0) .explicit)⟩,
      .named ⟨some "proof", .unrestricted, .explicit,
        .app (.app (.var "Reaches") (.param 0) .explicit) (.var "value") .explicit⟩] }]
  location := none

theorem params_free_boundedSequence :
    ∃ r valueType predicate, boundedSequence.refinement = .ok r ∧
      r.valueType = .ok valueType ∧ r.predicate = .ok predicate ∧
      ("n" : Text) ∉ valueType.freeNames ∧ ("n" : Text) ∈ predicate.freeNames := by
  have hd : boundedSequence.refinement = .ok _ := rfl
  obtain ⟨valueType, predicate, hvalueType, hpredicate, hvalue, hproof⟩ := params_free_iff hd
  obtain ⟨x, hx⟩ := hvalue 0 (by decide)
  obtain ⟨y, hy⟩ := hproof 0 (by decide)
  cases hx.name
  cases hy.name
  refine ⟨_, valueType, predicate, hd, hvalueType, hpredicate, ?_, ?_⟩
  · rw [hx.free_iff]
    decide
  · apply hy.free_of_not_bound
    decide

/-- A binder of the parameter's name captures the parameter. -/
theorem valueType_captures_param :
    ∃ r valueType, boundedSequence.refinement = .ok r ∧ r.valueType = .ok valueType ∧
      0 ∈ r.shape.pair.valueType.paramRefs ∧
      paramName? boundedSequence.paramNames 0 = some "n" ∧
      ("n" : Text) ∉ valueType.freeNames :=
  ⟨_, _, rfl, rfl, by decide, rfl, by decide⟩

end Refinement
end RefinementTypes
