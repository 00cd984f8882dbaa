import RefinementTypes.Proofs.Checked
import RefinementTypes.Shape.Basic

/-!
# The pair behind a shape

A classified argument list is the parameters of its shape with a value and a proof behind them, and
the pair of the shape records the two.
-/

namespace RefinementTypes

/-- A value and a proof of a predicate of it, and the pair that records them. -/
structure Pairs (value proof : NamedArgument) (pair : ValueProof) : Prop where
  value_explicit : value.explicitness = .explicit
  value_unrestricted : value.multiplicity = .unrestricted
  value_name : value.name = some pair.valueName
  valueName_ne : pair.valueName ≠ ""
  value_type : value.type = pair.valueType
  proof_supplied : proof.explicitness = .explicit ∨ proof.explicitness = .autoImplicit
  proof_quantity : proof.multiplicity ≠ .linear
  proof_type : proof.type = .app pair.predicate (.var pair.valueName) .explicit
  proof_name : proof.name = pair.proofName
  proof_info : proof.explicitness = pair.proofInfo
  erased : pair.erased = decide (proof.multiplicity = .zero)

variable {value proof : NamedArgument}

private theorem valueName_eq_ok {name : Text} (h : valueName value = .ok name) :
    value.explicitness = .explicit ∧ value.multiplicity = .unrestricted ∧
      value.name = some name ∧ name ≠ "" := by
  rw [valueName] at h
  split at h
  · cases h
  rename_i hexplicit
  split at h
  · cases h
  rename_i hunrestricted
  split at h
  · cases h
  rename_i hname
  split at h
  · cases h
  rename_i hne
  cases h
  exact ⟨not_not.1 hexplicit, not_not.1 hunrestricted, hname, hne⟩

private theorem predicateOf_eq_ok {name : Text} {predicate : Term}
    (h : predicateOf proof name = .ok predicate) :
    (proof.explicitness = .explicit ∨ proof.explicitness = .autoImplicit) ∧
      proof.multiplicity ≠ .linear ∧ proof.type = .app predicate (.var name) .explicit := by
  rw [predicateOf] at h
  split at h
  · cases h
  rename_i hsupplied
  split at h
  · cases h
  rename_i hquantity
  refine ⟨by rwa [not_and_or, not_not, not_not] at hsupplied, hquantity, ?_⟩
  split at h
  · rename_i htype
    split at h
    · rename_i hname
      cases h
      rw [htype, hname]
    · cases h
  · cases h
  · cases h

private theorem classifyPair_eq_ok {rest : List Argument} {pair : ValueProof}
    (h : classifyPair value rest = .ok pair) :
    ∃ proof, rest = [.named proof] ∧ Pairs value proof pair := by
  obtain ⟨name, hname, h⟩ := bind_eq_ok h
  obtain ⟨hexplicit, hunrestricted, hname, hne⟩ := valueName_eq_ok hname
  match rest, h with
  | [.named proof], h =>
      obtain ⟨predicate, hpredicate, h⟩ := bind_eq_ok h
      obtain ⟨hsupplied, hquantity, htype⟩ := predicateOf_eq_ok hpredicate
      cases h
      exact ⟨proof, rfl, hexplicit, hunrestricted, hname, hne, rfl, hsupplied, hquantity, htype,
        rfl, rfl, rfl⟩

theorem classify_eq_ok {args : List Argument} {shape : Shape} (h : classify args = .ok shape) :
    ∃ value proof, args = shape.params.map .param ++ [.named value, .named proof] ∧
      Pairs value proof shape.pair := by
  induction args generalizing shape with
  | nil => cases h
  | cons a rest ih =>
      cases a with
      | param index =>
          obtain ⟨inner, hinner, h⟩ := bind_eq_ok h
          obtain ⟨value, proof, hrest, hpairs⟩ := ih hinner
          cases h
          refine ⟨value, proof, ?_, hpairs⟩
          rw [hrest]
          rfl
      | named value =>
          obtain ⟨pair, hpair, h⟩ := bind_eq_ok h
          obtain ⟨proof, hrest, hpairs⟩ := classifyPair_eq_ok hpair
          cases h
          exact ⟨value, proof, by rw [hrest]; rfl, hpairs⟩

end RefinementTypes
