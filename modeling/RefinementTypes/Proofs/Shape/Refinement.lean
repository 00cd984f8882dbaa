import Mathlib.Data.List.Sort
import RefinementTypes.Fault
import RefinementTypes.Proofs.Term.Occurrence
import RefinementTypes.Shape.Refinement

/-!
# Accepted and rejected descriptors

What acceptance of a descriptor says about its parts: it has one constructor, that constructor has
the recorded shape, and every parameter reference is in range, so every term of the shape can be
instantiated. What the fault of a rejected descriptor says: which kind of fault it is, what is in
the way, and where it was met. The indices that are out of range are told by their members, since
there is one ascending list of them.
-/

namespace RefinementTypes

section
variable {α : Type} [LinearOrder α] {a b : α} {as bs : List α}

@[simp]
private theorem mem_insertAscending : b ∈ insertAscending a as ↔ b = a ∨ b ∈ as := by
  induction as with
  | nil => simp [insertAscending]
  | cons c cs ih =>
      rw [insertAscending]
      by_cases hac : a < c
      · simp [hac]
      · by_cases hca : c < a
        · simp [hac, hca, ih, or_left_comm]
        · have heq : a = c := le_antisymm (not_lt.1 hca) (not_lt.1 hac)
          simp [heq]

@[simp]
theorem mem_ascending : a ∈ ascending as ↔ a ∈ as := by
  induction as with
  | nil => simp [ascending]
  | cons b bs ih => simp [ascending, ih]

private theorem ascending_eq_nil_iff : ascending as = [] ↔ as = [] := by
  simp only [List.eq_nil_iff_forall_not_mem, mem_ascending]

private theorem pairwise_insertAscending (h : as.Pairwise (· < ·)) :
    (insertAscending a as).Pairwise (· < ·) := by
  induction as with
  | nil => simp [insertAscending]
  | cons c cs ih =>
      have hcs := List.pairwise_cons.1 h
      rw [insertAscending]
      by_cases hac : a < c
      · have hall : ∀ b ∈ c :: cs, a < b := by
          intro b hb
          rcases List.mem_cons.1 hb with rfl | hb
          · exact hac
          · exact hac.trans (hcs.1 b hb)
        rw [if_pos hac]
        exact List.pairwise_cons.2 ⟨hall, h⟩
      · by_cases hca : c < a
        · simpa [hac, hca] using ⟨hcs.1, ih hcs.2⟩
        · simpa [hac, hca] using h

private theorem pairwise_ascending (as : List α) : (ascending as).Pairwise (· < ·) := by
  induction as with
  | nil => exact .nil
  | cons a as ih => exact pairwise_insertAscending ih

theorem ascending_eq_iff : ascending as = bs ↔ bs.Pairwise (· < ·) ∧ ∀ a, a ∈ bs ↔ a ∈ as := by
  constructor
  · intro h
    subst h
    exact ⟨pairwise_ascending as, fun a => mem_ascending⟩
  · intro h
    apply (pairwise_ascending as).eq_of_mem_iff h.1
    intro a
    rw [mem_ascending, h.2]

end

section
variable {d : TypeDescriptor} {r : Refinement}

theorem TypeDescriptor.refinement_eq_ok (h : d.refinement = .ok r) :
    r.descriptor = d ∧ d.constructors = [r.constructor] ∧
      classify r.constructor.args = .ok r.shape ∧ danglingParams d r.shape = [] := by
  rw [refinement] at h
  split at h
  · rename_i c hc
    split at h
    · cases h
    · rename_i shape hs
      split at h
      · rename_i hd
        cases h
        exact ⟨rfl, hc, hs, hd⟩
      · cases h
  · cases h

/-- A rejection names the type, its location and, if there is only one, its constructor. -/
theorem TypeDescriptor.refinement_eq_error {rejection : Rejection}
    (h : d.refinement = .error rejection) :
    ∃ constructorName obstacle, rejection = d.reject constructorName obstacle ∧
      ∀ x ∈ constructorName, ∃ c ∈ d.constructors, c.name = x := by
  rw [refinement] at h
  split at h
  · rename_i c hc
    have hname : ∀ x ∈ some c.name, ∃ c ∈ d.constructors, c.name = x := by
      rintro x hx
      cases hx
      exact ⟨c, by simp [hc], rfl⟩
    split at h
    · cases h
      exact ⟨_, _, rfl, hname⟩
    · split at h
      · cases h
      · cases h
        exact ⟨_, _, rfl, hname⟩
  · cases h
    exact ⟨_, _, rfl, by simp⟩

namespace Refinement

private theorem paramNames_length (r : Refinement) :
    r.descriptor.paramNames.length = r.descriptor.params.length :=
  List.length_map _

theorem inRange_of_mem (h : d.refinement = .ok r) {i : Int}
    (hi : i ∈ referencedParams r.descriptor r.shape) :
    0 ≤ i ∧ i < r.descriptor.paramNames.length := by
  obtain ⟨rfl, _, _, hd⟩ := TypeDescriptor.refinement_eq_ok h
  have hf := List.filter_eq_nil_iff.1 (ascending_eq_nil_iff.1 hd) i hi
  rw [paramNames_length]
  simpa [isDangling] using hf

theorem valueType_isOk (h : d.refinement = .ok r) : ∃ t, r.valueType = .ok t := by
  apply Term.instantiate_isOk
  intro i hi
  apply inRange_of_mem h
  simp [referencedParams, hi]

theorem predicate_isOk (h : d.refinement = .ok r) : ∃ t, r.predicate = .ok t := by
  apply Term.instantiate_isOk
  intro i hi
  apply inRange_of_mem h
  simp [referencedParams, hi]

theorem paramType_isOk (h : d.refinement = .ok r) {p : TypeParameter}
    (hp : p ∈ r.descriptor.params) : ∃ t, p.type.instantiate r.descriptor.paramNames = .ok t := by
  apply Term.instantiate_isOk
  intro i hi
  apply inRange_of_mem h
  simp only [referencedParams, List.mem_append, List.mem_flatMap]
  exact Or.inr ⟨p, hp, hi⟩

end Refinement

end

/-- An obstacle in words, for a type of the given name. -/
def Obstacle.reason (typeName : Text) : Obstacle → Text
  | notSingleConstructor count =>
      "expected exactly one constructor, found " ++ Decimal.intText count
  | mismatch m => m.reason
  | danglingParams indices count => danglingReason typeName indices count

namespace Rejection

theorem fault_kind (rejection : Rejection) :
    rejection.fault.kind = .notSingleConstructor ∨ rejection.fault.kind = .shapeMismatch := by
  obtain ⟨typeName, constructorName, location, obstacle⟩ := rejection
  cases obstacle with
  | notSingleConstructor count => exact .inl rfl
  | mismatch m => exact .inr rfl
  | danglingParams indices count => exact .inr rfl

/-- The fault of a rejection says where the descriptor was rejected. -/
theorem fault_eq_ofDerivation (rejection : Rejection) :
    rejection.fault = .ofDerivation rejection.fault.kind rejection.fault.message
      rejection.fault.code rejection.typeName
      { constructorName := rejection.constructorName, location := rejection.location } := by
  obtain ⟨typeName, constructorName, location, obstacle⟩ := rejection
  cases obstacle <;> rfl

theorem fault_message (rejection : Rejection) :
    rejection.fault.message = rejection.typeName ++ " is not a refinement type: " ++
      rejection.obstacle.reason rejection.typeName := by
  obtain ⟨typeName, constructorName, location, obstacle⟩ := rejection
  cases obstacle <;> rfl

theorem fault_context (rejection : Rejection) :
    rejection.fault.context =
      ⟨some rejection.typeName, rejection.constructorName, none, rejection.location⟩ := by
  obtain ⟨typeName, constructorName, location, obstacle⟩ := rejection
  cases obstacle <;> rfl

end Rejection
end RefinementTypes
