import RefinementTypes.Proofs.Shape.Pair
import RefinementTypes.Proofs.Shape.Refinement
import RefinementTypes.Proofs.Term.Occurrence

/-!
# The verdict on a descriptor

A descriptor is refused for the number of its constructors, for the arguments of its only
constructor, or for references to parameters that are not there, the first of these that applies,
and accepted otherwise. The references that are listed are all those of the constructor and of the
types of the parameters, at any depth, each once and in ascending order.
-/

namespace RefinementTypes

namespace TypeDescriptor

/-- The index is that of a parameter argument, or a reference to it occurs in the type of another
argument or of a parameter. -/
inductive Mentions (d : TypeDescriptor) (c : Constructor) (i : Int) : Prop
  | argument (h : .param i ∈ c.args)
  | argumentType {a : NamedArgument} (ha : .named a ∈ c.args) (h : (Term.param i).OccursIn a.type)
  | parameterType {p : TypeParameter} (hp : p ∈ d.params) (h : (Term.param i).OccursIn p.type)

/-- A mentioned index at which the type has no parameter. -/
structure Dangles (d : TypeDescriptor) (c : Constructor) (i : Int) : Prop where
  mentions : d.Mentions c i
  outside : i < 0 ∨ d.params.length ≤ i

variable {d : TypeDescriptor} {c : Constructor} {shape : Shape} {i : Int}

/-- A shape holds every argument, so nothing that the constructor mentions is lost with it. -/
private theorem mem_referencedParams_iff (h : classify c.args = .ok shape) :
    i ∈ referencedParams d shape ↔ d.Mentions c i := by
  obtain ⟨value, proof, hargs, hpairs⟩ := classify_eq_ok h
  simp only [referencedParams, List.mem_append, List.mem_flatMap]
  constructor
  · intro hi
    rcases hi with ((hi | hi) | hi) | ⟨p, hp, hi⟩
    · apply Mentions.argument
      simp [hargs, hi]
    · apply Mentions.argumentType (a := value)
      · simp [hargs]
      · rw [Term.param_occursIn_iff, hpairs.value_type]
        exact hi
    · apply Mentions.argumentType (a := proof)
      · simp [hargs]
      · rw [Term.param_occursIn_iff, hpairs.proof_type]
        simp [Term.paramRefs, hi]
    · exact .parameterType hp (Term.param_occursIn_iff.2 hi)
  · intro hi
    cases hi with
    | argument h =>
        have hparam : i ∈ shape.params := by simpa [hargs] using h
        exact Or.inl (Or.inl (Or.inl hparam))
    | @argumentType a ha h =>
        have hsides : a = value ∨ a = proof := by simpa [hargs] using ha
        rw [Term.param_occursIn_iff] at h
        rcases hsides with rfl | rfl
        · rw [hpairs.value_type] at h
          exact Or.inl (Or.inl (Or.inr h))
        · rw [hpairs.proof_type] at h
          have hpredicate : i ∈ shape.pair.predicate.paramRefs := by
            simpa [Term.paramRefs] using h
          exact Or.inl (Or.inr hpredicate)
    | parameterType hp h => exact Or.inr ⟨_, hp, Term.param_occursIn_iff.1 h⟩

private theorem mem_danglingParams_iff (h : classify c.args = .ok shape) :
    i ∈ danglingParams d shape ↔ d.Dangles c i := by
  have houtside : isDangling d.params.length i = true ↔ i < 0 ∨ d.params.length ≤ i := by
    simp only [isDangling, Bool.not_eq_true', decide_eq_false_iff_not]
    omega
  rw [danglingParams, mem_ascending, List.mem_filter, mem_referencedParams_iff h, houtside]
  constructor
  · intro hi
    exact ⟨hi.1, hi.2⟩
  · intro hi
    exact ⟨hi.mentions, hi.outside⟩

/-- The list has the indices that dangle, in ascending order and each once. -/
structure ListsDangling (d : TypeDescriptor) (c : Constructor) (indices : List Int) : Prop where
  ascending : indices.Pairwise (· < ·)
  mem_iff : ∀ i, i ∈ indices ↔ d.Dangles c i

private theorem danglingParams_eq_iff (h : classify c.args = .ok shape) {indices : List Int} :
    danglingParams d shape = indices ↔ d.ListsDangling c indices := by
  have hmem (i : Int) : i ∈ (referencedParams d shape).filter (isDangling d.params.length) ↔
      d.Dangles c i := by
    rw [← mem_ascending]
    exact mem_danglingParams_iff h
  rw [danglingParams, ascending_eq_iff]
  simp only [hmem]
  constructor
  · intro hlists
    exact ⟨hlists.1, hlists.2⟩
  · intro hlists
    exact ⟨hlists.ascending, hlists.mem_iff⟩

private theorem danglingParams_eq_nil_iff (h : classify c.args = .ok shape) :
    danglingParams d shape = [] ↔ ¬ ∃ i, d.Dangles c i := by
  simp only [List.eq_nil_iff_forall_not_mem, mem_danglingParams_iff h, not_exists]

/-- The verdict on a descriptor, with the conditions under which it is given. -/
inductive Verdict (d : TypeDescriptor) : Except Rejection Refinement → Prop
  | notSingleConstructor (h : d.constructors.length ≠ 1) :
      Verdict d (.error (d.reject none (.notSingleConstructor d.constructors.length)))
  | mismatch {c : Constructor} (hc : d.constructors = [c]) {m : Mismatch}
      (h : classify c.args = .error m) : Verdict d (.error (d.reject (some c.name) (.mismatch m)))
  | dangling {c : Constructor} (hc : d.constructors = [c]) {shape : Shape}
      (hshape : classify c.args = .ok shape) (hsome : ∃ i, d.Dangles c i) {indices : List Int}
      (h : d.ListsDangling c indices) :
      Verdict d (.error (d.reject (some c.name) (.danglingParams indices d.params.length)))
  | accepted {c : Constructor} (hc : d.constructors = [c]) {shape : Shape}
      (hshape : classify c.args = .ok shape) (h : ¬ ∃ i, d.Dangles c i) :
      Verdict d (.ok ⟨d, c, shape⟩)

private theorem verdict_refinement (d : TypeDescriptor) : d.Verdict d.refinement := by
  rw [refinement]
  split
  · rename_i c hc
    split
    · rename_i m hm
      exact .mismatch hc hm
    · rename_i shape hshape
      split
      · rename_i hnone
        exact .accepted hc hshape ((danglingParams_eq_nil_iff hshape).1 hnone)
      · rename_i hne
        have hsome : ∃ i, d.Dangles c i := by
          by_contra hnone
          exact hne ((danglingParams_eq_nil_iff hshape).2 hnone)
        exact .dangling hc hshape hsome ((danglingParams_eq_iff hshape).1 rfl)
  · rename_i hne
    apply Verdict.notSingleConstructor
    intro hlength
    obtain ⟨c, hc⟩ := List.length_eq_one_iff.1 hlength
    exact hne c hc

private theorem Verdict.refinement_eq {outcome : Except Rejection Refinement}
    (h : d.Verdict outcome) :
    d.refinement = outcome := by
  cases h with
  | notSingleConstructor h =>
      rw [refinement]
      split
      · rename_i c hc
        simp [hc] at h
      · rfl
  | mismatch hc h => simp only [refinement, hc, h]
  | @dangling c hc shape hshape hsome indices h =>
      have hindices : danglingParams d shape = indices := (danglingParams_eq_iff hshape).2 h
      have hne : indices ≠ [] := by
        rw [← hindices, ne_eq, danglingParams_eq_nil_iff hshape, not_not]
        exact hsome
      simp only [refinement, hc, hshape, hindices]
  | accepted hc hshape h =>
      have hindices := (danglingParams_eq_nil_iff hshape).2 h
      simp only [refinement, hc, hshape, hindices]

/-- A rejection says what is wrong with the descriptor and where: at the type, at its location, and
at the constructor if there is only one. -/
structure Reports (d : TypeDescriptor) (rejection : Rejection) : Prop where
  kind : rejection.fault.kind =
    if d.constructors.length = 1 then .shapeMismatch else .notSingleConstructor
  message : rejection.fault.message =
    d.name ++ " is not a refinement type: " ++ rejection.obstacle.reason d.name
  typeName : rejection.fault.context.typeName = some d.name
  constructorName : ∀ c, d.constructors = [c] →
    rejection.fault.context.constructorName = some c.name
  location : rejection.fault.context.location = d.location.map Location.text

private theorem Verdict.reports {rejection : Rejection} (h : d.Verdict (.error rejection)) :
    d.Reports rejection := by
  have hparts : rejection.typeName = d.name ∧
      rejection.location = d.location.map Location.text := by
    cases h <;> exact ⟨rfl, rfl⟩
  constructor
  case kind =>
    cases h with
    | notSingleConstructor h => exact (if_neg h).symm
    | mismatch hc _ =>
        rw [hc, List.length_singleton, if_pos rfl]
        rfl
    | dangling hc _ _ _ =>
        rw [hc, List.length_singleton, if_pos rfl]
        rfl
  case message => rw [Rejection.fault_message, hparts.1]
  case typeName => rw [Rejection.fault_context, hparts.1]
  case constructorName =>
    intro c hc
    rw [Rejection.fault_context]
    cases h with
    | notSingleConstructor h => simp [hc] at h
    | mismatch hc' _ =>
        cases hc.symm.trans hc'
        rfl
    | dangling hc' _ _ _ =>
        cases hc.symm.trans hc'
        rfl
  case location => rw [Rejection.fault_context, hparts.2]

/-- The verdict on a descriptor is the one whose conditions it meets, and a rejection reports it. -/
theorem refinement_verdict (d : TypeDescriptor) :
    (∀ outcome, d.refinement = outcome ↔ d.Verdict outcome) ∧
      ∀ rejection, d.refinement = .error rejection → d.Reports rejection := by
  constructor
  · intro outcome
    constructor
    · intro h
      subst h
      exact verdict_refinement d
    · exact Verdict.refinement_eq
  · intro rejection h
    have hverdict := verdict_refinement d
    rw [h] at hverdict
    exact hverdict.reports

/-- Matrices that refer to parameters on either side of the two that there are, one of them from
inside a case. -/
def strayMatrix : TypeDescriptor where
  name := "Matrix"
  params := [
    ⟨"rows", .var "Nat"⟩,
    ⟨"columns", .pi none .unrestricted .explicit (.var "Nat")
      (.case (.var "rows")
        [(.con "Z" [], .hole), (.bind "k", .app (.var "Fin") (.param 4) .explicit)])⟩]
  constructors := [{
    name := "MkMatrix"
    args := [
      .param 0,
      .param 7,
      .named ⟨some "value", .unrestricted, .explicit,
        .app (.app (.var "Vect") (.param 1) .explicit) (.param 4) .explicit⟩,
      .named ⟨some "proof", .zero, .autoImplicit,
        .app (.app (.var "Regular") (.param (-1)) .implicit) (.var "value") .explicit⟩] }]
  location := some ⟨"Matrix.idr", 3, 1⟩

theorem refinement_verdict_strayMatrix :
    ∃ rejection, strayMatrix.refinement = .error rejection ∧
      rejection.fault.kind = .shapeMismatch ∧
      rejection.fault.message = "Matrix is not a refinement type: " ++
        "constructor refers to parameter(s) [-1, 4, 7] but Matrix has 2 parameter(s)" ∧
      rejection.fault.context = ⟨some "Matrix", some "MkMatrix", none, some "Matrix.idr:3:1"⟩ := by
  have hstray : strayMatrix.refinement =
      .error (strayMatrix.reject (some "MkMatrix") (.danglingParams [-1, 4, 7] 2)) := rfl
  have hreports := (refinement_verdict strayMatrix).2 _ hstray
  refine ⟨_, hstray, hreports.kind, hreports.message.trans ?_, rfl⟩
  decide +kernel

end TypeDescriptor
end RefinementTypes
