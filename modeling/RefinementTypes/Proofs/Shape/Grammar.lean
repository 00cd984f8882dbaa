import RefinementTypes.Proofs.Shape.Pair

/-!
# The grammar of refinements

`classify` accepts exactly the argument lists that are any number of parameters, then a value, and
last a proof of a predicate of that value. The shape that it finds records the whole list: the
arguments can be written down from it.
-/

namespace RefinementTypes

/-- The arguments that a shape was found for. -/
def Shape.arguments (s : Shape) : List Argument :=
  s.params.map .param ++
    [.named ⟨some s.pair.valueName, .unrestricted, .explicit, s.pair.valueType⟩,
     .named ⟨s.pair.proofName, if s.pair.erased then .zero else .unrestricted, s.pair.proofInfo,
       .app s.pair.predicate (.var s.pair.valueName) .explicit⟩]

namespace NamedArgument

/-- An argument that can be the value of a refinement, under the given name. -/
structure IsValue (value : NamedArgument) (name : Text) : Prop where
  explicit : value.explicitness = .explicit
  unrestricted : value.multiplicity = .unrestricted
  name_eq : value.name = some name
  name_ne : name ≠ ""

/-- An argument that can be the proof that a predicate holds of the value of the given name. -/
structure IsProof (proof : NamedArgument) (name : Text) (predicate : Term) : Prop where
  supplied : proof.explicitness = .explicit ∨ proof.explicitness = .autoImplicit
  quantity : proof.multiplicity = .zero ∨ proof.multiplicity = .unrestricted
  type_eq : proof.type = .app predicate (.var name) .explicit

end NamedArgument

/-- What a shape records of a value and of a proof of a predicate of it. -/
def ValueProof.ofArguments (value proof : NamedArgument) (name : Text) (predicate : Term) :
    ValueProof where
  valueName := name
  valueType := value.type
  proofName := proof.name
  proofInfo := proof.explicitness
  predicate
  erased := decide (proof.multiplicity = .zero)

variable {value proof : NamedArgument} {name : Text} {predicate : Term}

private theorem Pairs.isValue {pair : ValueProof} (h : Pairs value proof pair) :
    value.IsValue pair.valueName :=
  ⟨h.value_explicit, h.value_unrestricted, h.value_name, h.valueName_ne⟩

private theorem Pairs.isProof {pair : ValueProof} (h : Pairs value proof pair) :
    proof.IsProof pair.valueName pair.predicate := by
  refine ⟨h.proof_supplied, ?_, h.proof_type⟩
  have hquantity := h.proof_quantity
  cases hm : proof.multiplicity with
  | zero => exact Or.inl rfl
  | linear => exact absurd hm hquantity
  | unrestricted => exact Or.inr rfl

private theorem Pairs.eq_ofArguments {pair : ValueProof} (h : Pairs value proof pair) :
    pair = .ofArguments value proof pair.valueName pair.predicate := by
  rw [ValueProof.ofArguments, h.value_type, h.proof_name, h.proof_info, ← h.erased]

/-- The two arguments have no more to them than the pair records. -/
private theorem Pairs.arguments {pair : ValueProof} (h : Pairs value proof pair)
    (params : List Int) :
    (⟨params, pair⟩ : Shape).arguments =
      params.map .param ++ [.named value, .named proof] := by
  obtain ⟨valueName, valueMultiplicity, valueExplicitness, valueType⟩ := value
  obtain ⟨proofName, proofMultiplicity, proofExplicitness, proofType⟩ := proof
  obtain ⟨rfl, rfl, rfl, -, rfl, -, hquantity, rfl, rfl, rfl, herased⟩ := h
  have hmultiplicity : (if pair.erased then .zero else .unrestricted) = proofMultiplicity := by
    cases proofMultiplicity with
    | zero => simp [herased]
    | linear => exact absurd rfl hquantity
    | unrestricted => simp [herased]
  rw [Shape.arguments, hmultiplicity]

private theorem valueName_of_isValue (h : value.IsValue name) : valueName value = .ok name := by
  rw [valueName, if_neg (not_not.2 h.explicit), if_neg (not_not.2 h.unrestricted), h.name_eq]
  exact if_neg h.name_ne

private theorem predicateOf_of_isProof (h : proof.IsProof name predicate) :
    predicateOf proof name = .ok predicate := by
  have hsupplied : ¬ (proof.explicitness ≠ .explicit ∧ proof.explicitness ≠ .autoImplicit) := by
    rw [not_and_or, not_not, not_not]
    exact h.supplied
  have hquantity : proof.multiplicity ≠ .linear := by
    rcases h.quantity with hm | hm <;> simp [hm]
  rw [predicateOf, if_neg hsupplied, if_neg hquantity, h.type_eq]
  exact if_pos rfl

private theorem classifyPair_of_isProof (hvalue : value.IsValue name)
    (hproof : proof.IsProof name predicate) :
    classifyPair value [.named proof] = .ok (.ofArguments value proof name predicate) := by
  rw [classifyPair, valueName_of_isValue hvalue]
  change (do let predicate ← predicateOf proof name; _) = _
  rw [predicateOf_of_isProof hproof]
  rfl

/-- Parameter arguments in front are recorded and change nothing else. -/
private theorem classify_params (params : List Int) {args : List Argument} {shape : Shape}
    (h : classify args = .ok shape) :
    classify (params.map .param ++ args) = .ok ⟨params ++ shape.params, shape.pair⟩ := by
  induction params with
  | nil => exact h
  | cons index params ih =>
      rw [List.map_cons, List.cons_append, classify, ih]
      rfl

/-- The arguments are parameters, then a value of the given name, and last a proof that the given
predicate holds of it. -/
structure Refines (args : List Argument) (params : List Int) (value proof : NamedArgument)
    (name : Text) (predicate : Term) : Prop where
  args_eq : args = params.map .param ++ [.named value, .named proof]
  value : value.IsValue name
  proof : proof.IsProof name predicate

private theorem Refines.classify_eq {args : List Argument} {params : List Int}
    (h : Refines args params value proof name predicate) :
    classify args = .ok ⟨params, .ofArguments value proof name predicate⟩ := by
  have hpair : classify [.named value, .named proof] =
      .ok ⟨[], .ofArguments value proof name predicate⟩ := by
    rw [classify, classifyPair_of_isProof h.value h.proof]
    rfl
  rw [h.args_eq, classify_params params hpair, List.append_nil]

private theorem refines_of_classify {args : List Argument} {shape : Shape}
    (h : classify args = .ok shape) :
    ∃ value proof,
      Refines args shape.params value proof shape.pair.valueName shape.pair.predicate ∧
      shape.pair = .ofArguments value proof shape.pair.valueName shape.pair.predicate ∧
      shape.arguments = args := by
  obtain ⟨value, proof, hargs, hpairs⟩ := classify_eq_ok h
  exact ⟨value, proof, ⟨hargs, hpairs.isValue, hpairs.isProof⟩, hpairs.eq_ofArguments,
    (hpairs.arguments shape.params).trans hargs.symm⟩

/-- An argument list is classified exactly when it is parameters with a value and a proof behind
them. Then the shape is that of these parameters, this value and this proof, and the list can be
written down from it. -/
theorem classify_grammar (args : List Argument) :
    ((∃ shape, classify args = .ok shape) ↔
      ∃ params value proof name predicate, Refines args params value proof name predicate) ∧
    ∀ shape, classify args = .ok shape ↔
      shape.arguments = args ∧
      ∃ params value proof name predicate, Refines args params value proof name predicate ∧
        shape = ⟨params, .ofArguments value proof name predicate⟩ := by
  refine ⟨⟨?_, ?_⟩, fun shape => ⟨?_, ?_⟩⟩
  · rintro ⟨shape, h⟩
    obtain ⟨value, proof, hargs, -⟩ := refines_of_classify h
    exact ⟨_, value, proof, _, _, hargs⟩
  · rintro ⟨params, value, proof, name, predicate, hargs⟩
    exact ⟨_, hargs.classify_eq⟩
  · intro h
    obtain ⟨value, proof, hargs, hpair, harguments⟩ := refines_of_classify h
    refine ⟨harguments, _, value, proof, _, _, hargs, ?_⟩
    rw [← hpair]
  · rintro ⟨-, params, value, proof, name, predicate, hargs, rfl⟩
    exact hargs.classify_eq

end RefinementTypes
