import Mathlib.Data.List.Induction
import RefinementTypes.Evaluation.Program
import RefinementTypes.Proofs.Text.Lines
import RefinementTypes.Source.Term
import RefinementTypes.Term.Basic

/-!
# Applications

Every term is a head applied to arguments, in one way only: taking an application apart and putting
it together again are inverse.

An application is evaluated and written from its spine. Either way its head comes first and then its
arguments, each of them once and in the order in which they stand.
-/

namespace RefinementTypes
namespace Term

/-- A term that is no application. -/
def IsHead (t : Term) : Prop := ∀ fn arg info, t ≠ app fn arg info

theorem isHead_var (name : Text) : (var name).IsHead := nofun

private theorem applySpine_append (fn : Term) (args rest : List (Term × Explicitness)) :
    fn.applySpine (args ++ rest) = (fn.applySpine args).applySpine rest :=
  List.foldl_append

theorem applySpine_append_singleton (fn arg : Term) (info : Explicitness)
    (args : List (Term × Explicitness)) :
    fn.applySpine (args ++ [(arg, info)]) = app (fn.applySpine args) arg info :=
  applySpine_append ..

theorem applyAll_eq_applySpine (fn : Term) (args : List Term) (info : Explicitness) :
    fn.applyAll args info = fn.applySpine (args.map fun a => (a, info)) := by
  rw [applyAll, applySpine, List.foldl_map]

/-- Applying what is left of a term to the arguments found in it changes nothing at any time. -/
private theorem applySpine_spineOnto (t : Term) (found : List (Term × Explicitness)) :
    (t.spineOnto found).1.applySpine (t.spineOnto found).2 = t.applySpine found := by
  fun_induction spineOnto t found with
  | case1 found fn arg info ih => exact ih
  | case2 found head hhead => rfl

private theorem isHead_spineOnto (t : Term) (found : List (Term × Explicitness)) :
    (t.spineOnto found).1.IsHead := by
  fun_induction spineOnto t found with
  | case1 found fn arg info ih => exact ih
  | case2 found head hhead => exact hhead

private theorem spineOnto_applySpine (fn : Term) (args found : List (Term × Explicitness)) :
    (fn.applySpine args).spineOnto found = fn.spineOnto (args ++ found) := by
  induction args generalizing fn with
  | nil => rfl
  | cons a args ih => exact ih (app fn a.1 a.2)

private theorem IsHead.spineOnto_eq {head : Term} (h : head.IsHead)
    (found : List (Term × Explicitness)) :
    head.spineOnto found = (head, found) := by
  cases head with
  | app fn arg info => exact absurd rfl (h fn arg info)
  | _ => rfl

theorem applySpine_spine (t : Term) : t.spine.1.applySpine t.spine.2 = t :=
  applySpine_spineOnto t []

theorem isHead_spine (t : Term) : t.spine.1.IsHead := isHead_spineOnto t []

private theorem IsHead.spine_applySpine {head : Term} (h : head.IsHead)
    (args : List (Term × Explicitness)) : (head.applySpine args).spine = (head, args) := by
  rw [spine, spineOnto_applySpine, List.append_nil, h.spineOnto_eq]

theorem spine_eq_iff {t head : Term} {args : List (Term × Explicitness)} :
    t.spine = (head, args) ↔ head.IsHead ∧ head.applySpine args = t := by
  constructor
  · intro h
    have hhead := t.isHead_spine
    have happly := t.applySpine_spine
    rw [h] at hhead happly
    exact ⟨hhead, happly⟩
  · rintro ⟨hhead, rfl⟩
    exact hhead.spine_applySpine args

theorem spine_applyAll (fn : Term) (args : List Term) (info : Explicitness) :
    (fn.applyAll args info).spine = (fn.spine.1, fn.spine.2 ++ args.map fun a => (a, info)) := by
  rw [spine_eq_iff, applySpine_append, applySpine_spine, applyAll_eq_applySpine]
  exact ⟨fn.isHead_spine, rfl⟩

private theorem spine_app (fn arg : Term) (info : Explicitness) :
    (app fn arg info).spine = (fn.spine.1, fn.spine.2 ++ [(arg, info)]) :=
  spine_applyAll fn [arg] info

theorem spine_app_ne_nil (fn arg : Term) (info : Explicitness) :
    (app fn arg info).spine.2 ≠ [] := by
  rw [spine_app]
  exact List.append_ne_nil_of_right_ne_nil _ (List.cons_ne_nil _ _)

end Term

namespace Program
variable {Host : Type}

private theorem force_map {α : Type} (f : α → Outcome (Value Host)) (xs : List α) :
    force (xs.map fun x _ => f x) = xs.mapM f := by
  induction xs with
  | nil => rfl
  | cons x xs ih => rw [List.map_cons, force, ih, List.mapM_cons]

variable [HostFunctions Host] (p : Program Host) (d : Declaration) (call : Caller Host)
  (scope : Scope Host)

private theorem applyPending_of_ne_nil {pending : Pending Host} (h : pending ≠ [])
    (fn : Value Host) :
    applyPending call pending fn =
      if fn.isCallable then do
        let args ← force pending
        call fn args
      else Outcome.fail (.notFunction fn.display) := by
  cases pending with
  | nil => exact absurd rfl h
  | cons a as => rfl

private theorem evalOnto_of_isHead {head : Term} (h : head.IsHead) (pending : Pending Host) :
    p.evalOnto d call scope pending head =
      (do let fn ← p.eval d call scope head
          applyPending call pending fn) := by
  have hvalue (v : Value Host) :
      (applyPending call [] v >>= applyPending call pending) = applyPending call pending v := rfl
  cases head with
  | app fn arg info => exact absurd rfl (h fn arg info)
  | var name => simp only [eval, evalOnto, bind_assoc, hvalue]
  | case scrutinee alternatives => simp only [eval, evalOnto, bind_assoc, hvalue]
  | _ =>
      rw [eval, evalOnto, evalOnto]
      rfl

/-- The arguments of a function wait in front of those that wait already. -/
private theorem evalOnto_applySpine (fn : Term) (args : List (Term × Explicitness))
    (pending : Pending Host) :
    p.evalOnto d call scope pending (fn.applySpine args) =
      p.evalOnto d call scope ((args.map fun a _ => p.eval d call scope a.1) ++ pending) fn := by
  induction args generalizing fn with
  | nil => rfl
  | cons a args ih =>
      refine (ih (.app fn a.1 a.2)).trans ?_
      rw [evalOnto]
      rfl

theorem eval_applySpine {head : Term} (h : head.IsHead) {args : List (Term × Explicitness)}
    (hargs : args ≠ []) :
    p.eval d call scope (head.applySpine args) =
      (do let fn ← p.eval d call scope head
          if fn.isCallable then do
            let vs ← args.mapM fun a => p.eval d call scope a.1
            call fn vs
          else Outcome.fail (.notFunction fn.display)) := by
  have hpending : (args.map fun a (_ : Unit) => p.eval d call scope a.1) ≠ [] := by
    simpa using hargs
  rw [eval, evalOnto_applySpine, List.append_nil, evalOnto_of_isHead p d call scope h]
  simp only [applyPending_of_ne_nil call hpending, force_map]

end Program

namespace Source

/-- The text of an argument, with the brackets that it asks for. -/
def argumentText (a : Term × Explicitness) : Except TermFailure Text := do
  let text ← term (argumentPosition a.2) a.1
  return argument a.2 text

private theorem term_app (p : Position) (fn arg : Term) (info : Explicitness) :
    term p (.app fn arg info) =
      (do let text ← term .head (.app fn arg info)
          return parenthesize (p = .argument) text) := by
  simp only [term, bind_assoc, pure_bind]
  rfl

private theorem term_of_isHead {head : Term} (h : head.IsHead) :
    term .head head = term .argument head := by
  cases head with
  | app fn arg info => exact absurd rfl (h fn arg info)
  | lit value =>
      rw [term, term]
      cases value <;> rfl
  | pi name m info domain result =>
      rw [term, term]
      rfl
  | case scrutinee alternatives =>
      rw [term, term]
      rfl
  | _ => rw [term, term]

private theorem term_head_applySpine (fn : Term) (args : List (Term × Explicitness)) :
    term .head (fn.applySpine args) =
      (do let text ← term .head fn
          let texts ← args.mapM argumentText
          return Text.join " " (text :: texts)) := by
  induction args using List.reverseRecOn with
  | nil => simp [Term.applySpine, Text.join]
  | append_singleton args a ih =>
      have hjoin (text t : Text) (ts : List Text) :
          Text.join " " (text :: (ts ++ [t])) = Text.join " " (text :: ts) ++ " " ++ t :=
        Text.join_append_singleton " " t (List.cons_ne_nil text ts)
      rw [Term.applySpine_append_singleton, term, ih, List.mapM_append]
      simp [argumentText, hjoin, parenthesize]

theorem term_applySpine {head : Term} (h : head.IsHead) {args : List (Term × Explicitness)}
    (hargs : args ≠ []) (p : Position) :
    term p (head.applySpine args) =
      (do let text ← term .argument head
          let texts ← args.mapM argumentText
          return parenthesize (p = .argument) (Text.join " " (text :: texts))) := by
  cases args using List.reverseRecOn with
  | nil => exact absurd rfl hargs
  | append_singleton args a =>
      rw [Term.applySpine_append_singleton, term_app, ← Term.applySpine_append_singleton,
        term_head_applySpine, term_of_isHead h]
      simp only [bind_assoc, pure_bind]

end Source

/-- To take a term apart is the inverse of applying a head to its arguments, and arguments that are
added to a function come behind its own. Of an application, the call gets the values of all
arguments in order, once it is clear that the head is a function; the text has the texts of all
arguments in order behind the head. -/
theorem Term.spine_inverts_application :
    (∀ (t head : Term) (args : List (Term × Explicitness)),
      t.spine = (head, args) ↔ head.IsHead ∧ head.applySpine args = t) ∧
    (∀ (fn : Term) (args : List Term) (info : Explicitness),
      (fn.applyAll args info).spine = (fn.spine.1, fn.spine.2 ++ args.map fun a => (a, info))) ∧
    (∀ {Host : Type} [HostFunctions Host] (p : Program Host) (d : Declaration)
      (call : Program.Caller Host) (scope : Scope Host) (fn arg : Term) (info : Explicitness),
      p.eval d call scope (app fn arg info) = do
        let f ← p.eval d call scope (app fn arg info).spine.1
        if f.isCallable then do
          let values ← (app fn arg info).spine.2.mapM fun a => p.eval d call scope a.1
          call f values
        else Outcome.fail (.notFunction f.display)) ∧
    ∀ (position : Source.Position) (fn arg : Term) (info : Explicitness),
      Source.term position (app fn arg info) = do
        let headText ← Source.term .argument (app fn arg info).spine.1
        let texts ← (app fn arg info).spine.2.mapM Source.argumentText
        return Source.parenthesize (position = .argument) (Text.join " " (headText :: texts)) := by
  refine ⟨fun t head args => spine_eq_iff, spine_applyAll, ?_, ?_⟩
  · intro Host _ p d call scope fn arg info
    have heval := Program.eval_applySpine p d call scope (isHead_spine (app fn arg info))
      (spine_app_ne_nil fn arg info)
    rwa [applySpine_spine] at heval
  · intro position fn arg info
    have htext := Source.term_applySpine (isHead_spine (app fn arg info))
      (spine_app_ne_nil fn arg info) position
    rwa [applySpine_spine] at htext

end RefinementTypes
