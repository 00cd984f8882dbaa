import RefinementTypes.Evaluation.Program
import RefinementTypes.Proofs.Checked
import RefinementTypes.Term.Basic

/-!
# The functions that values hold

A value holds the declared functions that can be got out of it. Host functions make up none: what a
host function calls or answers holds no more than the function itself, its arguments and the answers
that it got. Patterns only take values apart.
-/

namespace RefinementTypes

/-- The declared functions that a host function has got hold of, by their qualified names. -/
class HoldsFunctions (Host : Type) where
  held : Host → List Text

section
variable {Host : Type} [HoldsFunctions Host]

namespace Value

mutual

/-- The declared functions that can be got out of a value. -/
def held : Value Host → List Text
  | list items => heldAll items
  | yes witness => held witness
  | no contra => held contra
  | just value => held value
  | record _ args => heldAll args
  | host h => HoldsFunctions.held h
  | declared name => [name]
  | erased | bool _ | int _ | float _ | str _ | nothing | maker _ | unwrap => []

def heldAll : List (Value Host) → List Text
  | [] => []
  | v :: vs => held v ++ heldAll vs

end

/-- A value holds no declared functions but those of the given names. -/
def Within (names : Text → Prop) (v : Value Host) : Prop := ∀ x ∈ v.held, names x

variable {names : Text → Prop} {v : Value Host} {vs : List (Value Host)}

theorem within_of_held_eq_nil (h : v.held = []) : v.Within names := by
  intro x hx
  rw [h] at hx
  cases hx

private theorem forall_mem_heldAll : (∀ x ∈ heldAll vs, names x) ↔ ∀ v ∈ vs, v.Within names := by
  induction vs with
  | nil => simp [heldAll]
  | cons v vs ih => simp only [heldAll, List.forall_mem_append, ih, List.forall_mem_cons, Within]

@[simp] theorem within_record {con : Text} :
    (record con vs).Within names ↔ ∀ v ∈ vs, v.Within names :=
  forall_mem_heldAll

@[simp] theorem within_yes : (yes v).Within names ↔ v.Within names := Iff.rfl

@[simp] theorem within_no : (no v).Within names ↔ v.Within names := Iff.rfl

@[simp] theorem within_just : (just v).Within names ↔ v.Within names := Iff.rfl

@[simp] theorem within_declared {x : Text} : (declared x : Value Host).Within names ↔ names x := by
  simp [Within, held]

@[simp] theorem within_erased : (erased : Value Host).Within names :=
  within_of_held_eq_nil rfl

theorem within_ofLiteral (literal : Literal) : (ofLiteral literal : Value Host).Within names := by
  cases literal <;> exact within_of_held_eq_nil rfl

end Value

/-- The calls and the answer of a host function hold no declared functions but those of the given
names, as long as the answers that it gets hold no others. -/
def Step.Within (names : Text → Prop) : Step Host → Prop
  | .done result => ∀ v, result = .ok v → v.Within names
  | .call fn args next => fn.Within names ∧ (∀ a ∈ args, a.Within names) ∧
      ∀ result, (∀ v, result = .ok v → v.Within names) → Step.Within names (next result)

theorem Step.within_error {names : Text → Prop} (e : Failure) :
    (Step.done (.error e) : Step Host).Within names := by
  intro v hv
  cases hv

end

/-- Host functions make up no declared functions. -/
class LawfulHost (Host : Type) [HostFunctions Host] [HoldsFunctions Host] : Prop where
  run_within (names : Text → Prop) (h : Host) (args : List (Value Host))
    (hh : (Value.host h).Within names) (hargs : ∀ a ∈ args, a.Within names) :
    (HostFunctions.run h args).Within names

section
variable {Host : Type} [HoldsFunctions Host] {names : Text → Prop}

/-- An environment from before there were any declared functions. -/
structure Environment.HoldsNone (e : Environment Host) : Prop where
  decide : (Value.host e.decide).held = []
  bindings : ∀ b ∈ e.bindings, b.2.held = []

theorem Environment.HoldsNone.builtins {e : Environment Host} (h : e.HoldsNone) :
    ∀ b ∈ e.builtins, b.2.held = [] := by
  simp only [Environment.builtins, List.forall_mem_cons]
  exact ⟨rfl, rfl, rfl, rfl, rfl, h.decide, List.forall_mem_nil _⟩

def ScopeWithin (names : Text → Prop) (scope : Scope Host) : Prop :=
  ∀ b ∈ scope, b.2.Within names

theorem mem_of_lookup_eq_some {α : Type} {entries : List (Text × α)} {x : Text} {a : α}
    (h : entries.lookup x = some a) : (x, a) ∈ entries := by
  obtain ⟨before, after, rfl, -⟩ := List.lookup_eq_some_iff.1 h
  exact List.mem_append_right before (List.mem_cons_self ..)

theorem ScopeWithin.lookup {scope : Scope Host} {x : Text} {v : Value Host}
    (h : ScopeWithin names scope) (hx : scope.lookup x = some v) : v.Within names :=
  h _ (mem_of_lookup_eq_some hx)

theorem ScopeWithin.append {s₁ s₂ : Scope Host} (h₁ : ScopeWithin names s₁)
    (h₂ : ScopeWithin names s₂) : ScopeWithin names (s₁ ++ s₂) :=
  List.forall_mem_append.2 ⟨h₁, h₂⟩

private theorem DataConstructor.fields?_within {c : DataConstructor} {v : Value Host}
    {fields : List (Value Host)} (h : c.fields? v = some fields) (hv : v.Within names) :
    ∀ f ∈ fields, f.Within names := by
  unfold DataConstructor.fields? at h
  split at h
  case h_1 | h_2 | h_3 =>
    cases h
    exact List.forall_mem_singleton.2 hv
  case h_4 =>
    cases h
    exact List.forall_mem_nil _
  case h_5 => cases h

private theorem matchAll?_within {vocabulary : Vocabulary} {ps : List Pattern}
    (ih : ∀ p ∈ ps, ∀ (v : Value Host) (bound : Scope Host), v.Within names →
      p.match? vocabulary v = .ok (some bound) → ScopeWithin names bound)
    {vs : List (Value Host)} (hvs : ∀ v ∈ vs, v.Within names) {before bound : Scope Host}
    (hbefore : ScopeWithin names before)
    (h : Pattern.matchAll? vocabulary ps vs before = .ok (some bound)) :
    ScopeWithin names bound := by
  induction ps generalizing vs before with
  | nil =>
      rw [Pattern.matchAll?] at h
      · cases h
        exact hbefore
      · intro p ps value values hp
        cases hp
  | cons p ps ihs =>
      cases vs with
      | nil =>
          rw [Pattern.matchAll?] at h
          · cases h
            exact hbefore
          · intro p ps value values _ hvalue
            cases hvalue
      | cons v vs =>
          rw [Pattern.matchAll?] at h
          obtain ⟨result, hm, h⟩ := bind_eq_ok h
          cases result with
          | none => cases h
          | some scope =>
              have hscope := ih p (List.mem_cons_self ..) v scope (hvs v (List.mem_cons_self ..)) hm
              exact ihs (fun q hq => ih q (List.mem_cons_of_mem _ hq))
                (fun w hw => hvs w (List.mem_cons_of_mem _ hw)) (hscope.append hbefore) h

/-- What a pattern binds was held by the value that it matched. -/
theorem Pattern.match?_within {vocabulary : Vocabulary} {p : Pattern} {v : Value Host}
    {bound : Scope Host} (hv : v.Within names) (h : p.match? vocabulary v = .ok (some bound)) :
    ScopeWithin names bound := by
  induction p using Pattern.inductionOn generalizing v bound with
  | con name args ih =>
      rw [Pattern.match?] at h
      split at h
      · cases h
      · split at h
        · cases h
        · rename_i c hc fields hfields
          split at h
          · cases h
          · exact matchAll?_within (fun p hp v bound hv h => ih p hp hv h)
              (DataConstructor.fields?_within hfields hv) (fun b hb => by cases hb) h
  | bind name =>
      rw [Pattern.match?] at h
      cases h
      exact List.forall_mem_singleton.2 hv
  | wild =>
      rw [Pattern.match?] at h
      cases h
      exact fun b hb => by cases hb

end
end RefinementTypes
