import RefinementTypes.Evaluation.SampleHost
import RefinementTypes.Proofs.Evaluation.Holding

/-!
# The sample host makes up no functions

A sample function holds what the values that it was made from hold, and gives nothing else away.
-/

namespace RefinementTypes
namespace SampleHost

mutual

/-- The declared functions that a sample function has got hold of. -/
def held : SampleHost → List Text
  | const value | decideAlways value => heldBy value
  | between low high => heldBy low ++ heldBy high
  | con _ _ | identity | fromTo | nonEmpty | toFloat | fail _ | reject _ _ | decideByApplying => []

def heldBy : Value SampleHost → List Text
  | .list items => heldByAll items
  | .yes witness => heldBy witness
  | .no contra => heldBy contra
  | .just value => heldBy value
  | .record _ args => heldByAll args
  | .host h => held h
  | .declared name => [name]
  | .erased | .bool _ | .int _ | .float _ | .str _ | .nothing | .maker _ | .unwrap => []

def heldByAll : List (Value SampleHost) → List Text
  | [] => []
  | v :: vs => heldBy v ++ heldByAll vs

end

instance : HoldsFunctions SampleHost := ⟨held⟩

mutual

private theorem held_eq_heldBy (v : Value SampleHost) : v.held = heldBy v := by
  cases v with
  | list items => exact heldAll_eq_heldByAll items
  | yes witness => exact held_eq_heldBy witness
  | no contra => exact held_eq_heldBy contra
  | just value => exact held_eq_heldBy value
  | record con args => exact heldAll_eq_heldByAll args
  | _ => rfl

private theorem heldAll_eq_heldByAll (vs : List (Value SampleHost)) :
    Value.heldAll vs = heldByAll vs := by
  cases vs with
  | nil => rfl
  | cons v vs =>
      rw [Value.heldAll, heldByAll, held_eq_heldBy v, heldAll_eq_heldByAll vs]

end

variable {names : Text → Prop} {value : Value SampleHost}

private theorem within_const (h : (Value.host (const value)).Within names) :
    value.Within names := by
  rw [Value.Within, held_eq_heldBy]
  exact h

private theorem within_decideAlways (h : (Value.host (decideAlways value)).Within names) :
    value.Within names := by
  rw [Value.Within, held_eq_heldBy]
  exact h

private theorem within_between {low high : Value SampleHost} (hlow : low.Within names)
    (hhigh : high.Within names) : (Value.host (between low high)).Within names := by
  rw [Value.Within, held_eq_heldBy] at hlow hhigh
  exact List.forall_mem_append.2 ⟨hlow, hhigh⟩

private theorem step_within_value (h : value.Within names) :
    (Step.done (.ok value)).Within names := by
  intro v hv
  cases hv
  exact h

/-- An answer that is a failure or plain data. -/
private theorem step_within_plain {result : Except Failure (Value SampleHost)}
    (h : ∀ v, result = .ok v → v.held = []) : (Step.done result).Within names :=
  fun v hv => Value.within_of_held_eq_nil (h v hv)

private theorem decision_within (h : value.Within names) (answer : Value SampleHost) :
    (decision value answer).Within names := by
  unfold decision
  split
  · exact Value.within_yes.2 (Value.within_record.2 (List.forall_mem_singleton.2 h))
  · exact Value.within_no.2 Value.within_erased

private theorem isBetween_held {low high x v : Value SampleHost}
    (h : isBetween low high x = .ok v) : v.held = [] := by
  unfold isBetween at h
  split at h <;> cases h
  rfl

private theorem isNonEmpty_held {x v : Value SampleHost} (h : isNonEmpty x = .ok v) :
    v.held = [] := by
  unfold isNonEmpty at h
  split at h <;> cases h <;> rfl

private theorem asFloat_held {x v : Value SampleHost} (h : asFloat x = .ok v) : v.held = [] := by
  unfold asFloat at h
  split at h <;> cases h <;> rfl

instance : LawfulHost SampleHost where
  run_within names h args hh hargs := by
    change (run h args).Within names
    unfold run
    split
    case h_1 => exact step_within_value (Value.within_record.2 hargs)
    case h_2 =>
      split
      · exact step_within_value (Value.within_record.2 hargs)
      · exact Step.within_error _
    case h_3 => exact step_within_value (within_const hh)
    case h_4 | h_5 => exact Step.within_error _
    case h_6 => exact step_within_value (List.forall_mem_singleton.1 hargs)
    case h_7 =>
      simp only [List.forall_mem_cons] at hargs
      exact step_within_value (within_between hargs.1 hargs.2.1)
    case h_8 => exact step_within_plain fun v => isBetween_held
    case h_9 => exact step_within_plain fun v => isNonEmpty_held
    case h_10 => exact step_within_plain fun v => asFloat_held
    case h_11 predicate value =>
      simp only [List.forall_mem_cons] at hargs
      split
      · refine ⟨hargs.1, List.forall_mem_singleton.2 hargs.2.1, fun result _ v hv => ?_⟩
        cases result <;> cases hv
        exact decision_within hargs.2.1 _
      · exact Step.within_error _
    case h_12 => exact step_within_value (within_decideAlways hh)
    all_goals exact Step.within_error _

end SampleHost
end RefinementTypes
