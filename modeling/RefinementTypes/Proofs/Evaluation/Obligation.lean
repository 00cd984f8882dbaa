import RefinementTypes.Proofs.Evaluation.Refine
import RefinementTypes.Proofs.Shape.Pair
import RefinementTypes.Proofs.Term.Capture

/-!
# The obligation of the constructor

The constructor asks for a proof of a predicate applied to its value, and `refine` asks for a
decision about that predicate. A predicate that mentions the value itself loses its meaning there,
since `refine` binds the value under another name; every other predicate is the same in both places.
-/

namespace RefinementTypes

namespace Refinement
variable {d : TypeDescriptor} {r : Refinement} {v : Vocabulary} {visibility : Visibility}
  {predicate : Term} {x : Text}

private theorem mem_predicate (hP : r.predicate = .ok predicate)
    (h : x ∈ r.shape.pair.predicate.freeNames) : x ∈ predicate.freeNames := by
  rw [Term.mem_freeNames_instantiate hP]
  exact Or.inl h

private theorem not_mem_predicate (hP : r.predicate = .ok predicate)
    (hparam : x ∉ r.descriptor.paramNames) (h : x ∉ r.shape.pair.predicate.freeNames) :
    x ∉ predicate.freeNames := by
  rw [Term.mem_freeNames_instantiate hP]
  rintro (hfree | ⟨i, _, hi⟩)
  · exact h hfree
  · exact hparam (mem_of_paramName?_eq_some hi)

private theorem mem_refineBody {raw witness : Text} (h : x ∈ predicate.freeNames) :
    x ∈ (r.refineBody v predicate raw witness).freeNames := by
  simp [refineBody_eq, Term.freeNames, h]

/-- A name that the predicate mentions is free in `refine`, and not what `refine` is applied to. -/
private theorem dangling_of_mem {refine : Declaration} {reserved : List Text}
    (hparts : r.RefineParts v refine predicate reserved) (h : x ∈ predicate.freeNames) :
    x ∈ refine.body.freeNames ∧ x ∉ refine.arguments := by
  have hreserved := reserves hparts.predicate_eq hparts.reservedNames_eq
  rw [hparts.body, hparts.arguments, List.mem_singleton]
  refine ⟨mem_refineBody h, ?_⟩
  intro hraw
  exact rawBinder_ne (hreserved.predicate h) hraw.symm

/-- The predicate mentions the value exactly when the type of the proof does so more than once.
Then `refine` refers to a name that nothing binds. Otherwise the value has no part in the predicate:
what `refine` asks about is the predicate of the obligation, whatever the value is. -/
theorem value_in_predicate_iff (h : d.refinement = .ok r) (v : Vocabulary)
    (visibility : Visibility) :
    ∃ value proof predicate refine,
      r.constructor.args = r.shape.params.map .param ++ [.named value, .named proof] ∧
      Pairs value proof r.shape.pair ∧ r.predicate = .ok predicate ∧
      r.refineDeclaration v visibility = .ok refine ∧
      (r.shape.pair.valueName ∈ r.shape.pair.predicate.freeNames ↔
        1 < proof.type.freeNames.count r.shape.pair.valueName) ∧
      (r.shape.pair.valueName ∈ r.shape.pair.predicate.freeNames →
        r.shape.pair.valueName ∈ refine.body.freeNames ∧
        r.shape.pair.valueName ∉ refine.arguments) ∧
      (r.shape.pair.valueName ∉ r.shape.pair.predicate.freeNames →
        r.shape.pair.valueName ∉ d.paramNames →
        ∀ (Host : Type) [HostFunctions Host] (p : Program Host) (call : Program.Caller Host)
          (a : Value Host),
          p.eval refine call [(r.shape.pair.valueName, a)] predicate =
            p.eval refine call [] predicate) := by
  obtain ⟨rfl, _, hclassify, _⟩ := TypeDescriptor.refinement_eq_ok h
  obtain ⟨value, proof, hargs, hpairs⟩ := classify_eq_ok hclassify
  obtain ⟨refine, hrefine⟩ := refineDeclaration_isOk h v visibility
  obtain ⟨predicate, reserved, hparts⟩ := refineDeclaration_parts hrefine
  have hP := hparts.predicate_eq
  refine ⟨value, proof, predicate, refine, hargs, hpairs, hP, hrefine, ?_, ?_, ?_⟩
  · simp [hpairs.proof_type, Term.freeNames]
  · intro hvalue
    exact dangling_of_mem hparts (mem_predicate hP hvalue)
  · intro hvalue hparam Host _ p call a
    have hfree := not_mem_predicate hP hparam hvalue
    apply Program.eval_congr
    intro x hx
    exact lookup_cons_of_ne fun he => hfree (he ▸ hx)

/-- Functions that are their own inverse. -/
def involution : TypeDescriptor where
  name := "Involution"
  params := []
  constructors := [{
    name := "MkInvolution"
    args := [
      .named ⟨some "f", .unrestricted, .explicit, .var "Permutation"⟩,
      .named ⟨some "proof", .unrestricted, .explicit,
        .app (.app (.var "Inverse") (.var "f") .explicit) (.var "f") .explicit⟩] }]
  location := none

theorem value_in_predicate_samples :
    (∃ r refine, involution.refinement = .ok r ∧ r.refineDeclaration {} .exported = .ok refine ∧
      ("f" : Text) ∈ r.shape.pair.predicate.freeNames ∧ ("f" : Text) ∈ refine.body.freeNames ∧
      ("f" : Text) ∉ refine.arguments) ∧
    ∃ r, nickname.refinement = .ok r ∧ ("value" : Text) ∉ r.shape.pair.predicate.freeNames := by
  have hinvolution : involution.refinement = .ok _ := rfl
  have hnickname : nickname.refinement = .ok _ := rfl
  constructor
  · obtain ⟨value, proof, predicate, refine, hargs, _, _, hrefine, hmentions, hdangling, _⟩ :=
      value_in_predicate_iff hinvolution {} .exported
    cases hargs
    have hf := hmentions.2 (by decide)
    obtain ⟨hbody, harguments⟩ := hdangling hf
    exact ⟨_, refine, hinvolution, hrefine, hf, hbody, harguments⟩
  · obtain ⟨value, proof, predicate, refine, hargs, _, _, hrefine, hmentions, _⟩ :=
      value_in_predicate_iff hnickname {} .exported
    cases hargs
    refine ⟨_, hnickname, ?_⟩
    rw [hmentions]
    decide

/-- A proof that the value is its own inverse leaves the value in the predicate. -/
theorem predicate_mentions_value :
    ∃ r, involution.refinement = .ok r ∧
      r.shape.pair.valueName ∈ r.shape.pair.predicate.freeNames :=
  ⟨_, rfl, by decide⟩

end Refinement
end RefinementTypes
