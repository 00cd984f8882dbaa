import RefinementTypes.Proofs.Evaluation.Holding
import RefinementTypes.Proofs.Evaluation.Linking

/-!
# Simulations between runs

Two runs of one term or one call, in two programs or under two ways to call functions, end alike as
long as names mean the same in both and calls end alike in both. A simulation may excuse some ends
of the first run, behind which the second may end in any way. Every value on the way holds only
functions of given names, so the two runs need to agree on these functions only.
-/

namespace RefinementTypes

/-- What a simulation does not insist on. -/
structure Leeway where
  /-- The ends of the first run behind which nothing is said of the second. -/
  excused : Halt → Prop
  /-- Both runs may get to the limit on nested calls. -/
  exhausts : Prop
  not_rejected : ∀ message context, ¬ excused (.failed (.rejected message context))

/-- The second outcome is the first, and a value is a good one, or the first outcome is excused. -/
inductive Follows (l : Leeway) {α : Type} (good : α → Prop) : Outcome α → Outcome α → Prop
  | value {a : α} (h : good a) : Follows l good (.ok a) (.ok a)
  | failed (e : Failure) : Follows l good (.error (.failed e)) (.error (.failed e))
  | exhausted (h : l.exhausts) : Follows l good (.error .exhausted) (.error .exhausted)
  | excused {halt : Halt} (h : l.excused halt) (o : Outcome α) : Follows l good (.error halt) o

namespace Follows
variable {l : Leeway} {α β : Type} {good : α → Prop} {good' : β → Prop} {o₁ o₂ : Outcome α}

theorem bind {f₁ f₂ : α → Outcome β} (h : Follows l good o₁ o₂)
    (hf : ∀ a, good a → Follows l good' (f₁ a) (f₂ a)) :
    Follows l good' (o₁ >>= f₁) (o₂ >>= f₂) := by
  cases h with
  | value ha => exact hf _ ha
  | failed e => exact .failed e
  | exhausted hl => exact .exhausted hl
  | excused he o => exact .excused he _

theorem ofExcept {x : Except Failure α} (h : ∀ a, x = .ok a → good a) :
    Follows l good (Outcome.ofExcept x) (Outcome.ofExcept x) := by
  cases x with
  | ok a => exact .value (h a rfl)
  | error e => exact .failed e

theorem mapRejection (front : Text) (h : Follows l good o₁ o₂) :
    Follows l good (o₁.mapRejection front) (o₂.mapRejection front) := by
  cases h with
  | value ha => exact .value ha
  | failed e => cases e <;> exact .failed _
  | exhausted hl => exact .exhausted hl
  | @excused halt he o =>
      have hsame : Outcome.mapRejection front (.error halt : Outcome α) = .error halt := by
        unfold Outcome.mapRejection
        split
        · rename_i message context heq
          cases heq
          exact absurd he (l.not_rejected message context)
        · rfl
      rw [hsame]
      exact .excused he _

/-- Behind an outcome that is not excused there is the same outcome. -/
theorem eq_of_not_excused (h : Follows l good o₁ o₂)
    (hexcused : ∀ halt, o₁ = .error halt → ¬ l.excused halt) : o₂ = o₁ := by
  cases h with
  | value _ | failed _ | exhausted _ => rfl
  | excused he o => exact absurd he (hexcused _ rfl)

end Follows

/-- Two host functions make the same calls and give the same answer, as long as no answer that they
get is excused or holds other functions. An excused failure of a call is the end of the first. -/
inductive Step.Follows {Host : Type} [HoldsFunctions Host] (l : Leeway) (names : Text → Prop) :
    Step Host → Step Host → Prop
  | done {result : Except Failure (Value Host)} (h : ∀ v, result = .ok v → v.Within names) :
      Step.Follows l names (.done result) (.done result)
  | call {fn : Value Host} {args : List (Value Host)}
      {next₁ next₂ : Except Failure (Value Host) → Step Host} (hfn : fn.Within names)
      (hargs : ∀ a ∈ args, a.Within names)
      (hends : ∀ e, l.excused (.failed e) → next₁ (.error e) = .done (.error e))
      (hnext : ∀ result, (∀ v, result = .ok v → v.Within names) →
        (∀ e, result = .error e → ¬ l.excused (.failed e)) →
        Step.Follows l names (next₁ result) (next₂ result)) :
      Step.Follows l names (.call fn args next₁) (.call fn args next₂)

/-- Where no failure is excused, a host function follows itself. -/
theorem Step.Within.follows {Host : Type} [HoldsFunctions Host] {l : Leeway}
    {names : Text → Prop} {step : Step Host} (h : step.Within names)
    (hl : ∀ e, ¬ l.excused (.failed e)) : Step.Follows l names step step := by
  induction step with
  | done result => exact .done h
  | call fn args next ih =>
      obtain ⟨hfn, hargs, hnext⟩ := h
      refine .call hfn hargs (fun e he => absurd he (hl e)) fun result hr _ => ?_
      exact ih result (hnext result hr)

namespace Program
variable {Host : Type} [HoldsFunctions Host] {l : Leeway} {names : Text → Prop}
  {p q : Program Host} {d : Declaration} {call₁ call₂ : Caller Host}

/-- Calls of one function with one list of arguments end alike. -/
def CallsFollow (l : Leeway) (names : Text → Prop) (call₁ call₂ : Caller Host) : Prop :=
  ∀ fn args, fn.Within names → (∀ a ∈ args, a.Within names) →
    Follows l (Value.Within names) (call₁ fn args) (call₂ fn args)

private theorem drive_follows (hcalls : CallsFollow l names call₁ call₂) {step₁ step₂ : Step Host}
    (h : Step.Follows l names step₁ step₂) :
    Follows l (Value.Within names) (drive call₁ step₁) (drive call₂ step₂) := by
  induction h with
  | done hresult => exact .ofExcept hresult
  | @call fn args next₁ next₂ hfn hargs hends hnext ih =>
      have hcall := hcalls fn args hfn hargs
      rw [drive, drive]
      generalize call₁ fn args = o₁ at hcall
      generalize call₂ fn args = o₂ at hcall
      have hended (e : Failure) (he : l.excused (.failed e)) (o : Outcome (Value Host)) :
          Follows l (Value.Within names) (drive call₁ (next₁ (.error e))) o := by
        rw [hends e he]
        exact .excused he o
      cases hcall with
      | value hv => exact ih _ (fun w hw => Except.ok.inj hw ▸ hv) fun e he => by cases he
      | failed e =>
          by_cases he : l.excused (.failed e)
          · exact hended e he _
          · exact ih _ (fun w hw => by cases hw) fun e' he' => Except.error.inj he' ▸ he
      | exhausted hl => exact .exhausted hl
      | @excused halt he o =>
          cases halt with
          | failed e => exact hended e he _
          | exhausted => exact .excused he _

/-- What a name means where there are no local values. -/
def meaningOf (p : Program Host) (d : Declaration) (x : Text) : Outcome (Value Host) :=
  Outcome.ofExcept ((p.resolve d [] x).mapError .evaluation)

theorem Meaning.within {x : Text} {v : Value Host} (h : Meaning p d x v)
    (he : p.environment.HoldsNone)
    (hsibling : ∀ s, p.environment.bindings.lookup x = none →
      p.environment.builtins.lookup x = none → p.sibling? d x = some s → names s.qualifiedName)
    (hstranger : ∀ s, p.environment.bindings.lookup x = none →
      p.environment.builtins.lookup x = none → p.stranger? d x = some s → names s.qualifiedName) :
    v.Within names := by
  cases h with
  | binding hv => exact Value.within_of_held_eq_nil (he.bindings _ (mem_of_lookup_eq_some hv))
  | builtin _ hv => exact Value.within_of_held_eq_nil (he.builtins _ (mem_of_lookup_eq_some hv))
  | sibling hbinding hbuiltin hs =>
      exact Value.within_declared.2 (hsibling _ hbinding hbuiltin hs)
  | stranger hbinding hbuiltin hs =>
      exact Value.within_declared.2 (hstranger _ hbinding hbuiltin hs)

/-- What makes two evaluations of terms in the body of a declaration end alike: the same patterns,
calls that end alike, and names of the same meaning. -/
structure BodiesFollow (l : Leeway) (names known : Text → Prop) (p q : Program Host)
    (d : Declaration) (call₁ call₂ : Caller Host) : Prop where
  vocabulary : p.environment.vocabulary = q.environment.vocabulary
  calls : CallsFollow l names call₁ call₂
  meanings : ∀ x, known x →
    Follows l (Value.Within names) (p.meaningOf d x) (q.meaningOf d x)

/-- Arguments that wait for their evaluation, one by one. -/
abbrev PendingFollow (l : Leeway) (names : Text → Prop) (as bs : Pending Host) : Prop :=
  List.Forall₂ (fun a b => Follows l (Value.Within names) (a ()) (b ())) as bs

private theorem force_follows {as bs : Pending Host} (h : PendingFollow l names as bs) :
    Follows l (fun vs => ∀ v ∈ vs, v.Within names) (force as) (force bs) := by
  induction h with
  | nil => exact .value (List.forall_mem_nil _)
  | cons ha _ ih =>
      refine ha.bind fun v hv => ih.bind fun vs hvs => ?_
      exact .value (List.forall_mem_cons.2 ⟨hv, hvs⟩)

private theorem resolve_follows {known : Text → Prop} {scope : Scope Host} {x : Text}
    (hmeanings : ∀ x, known x →
      Follows l (Value.Within names) (p.meaningOf d x) (q.meaningOf d x))
    (hscope : ScopeWithin names scope) (hx : known x ∨ (scope.lookup x).isSome) :
    Follows l (Value.Within names) (Outcome.ofExcept ((p.resolve d scope x).mapError .evaluation))
      (Outcome.ofExcept ((q.resolve d scope x).mapError .evaluation)) := by
  cases hlocal : scope.lookup x with
  | some v =>
      rw [resolve, resolve, meaning?, meaning?, hlocal]
      exact .value (hscope.lookup hlocal)
  | none =>
      rw [hlocal, Option.isSome_none] at hx
      have hempty := hmeanings x (hx.resolve_right Bool.false_ne_true)
      rw [meaningOf, meaningOf, resolve, resolve, meaning?, meaning?] at hempty
      rw [resolve, resolve, meaning?, meaning?, hlocal]
      exact hempty

section
variable [HostFunctions Host]

private theorem applyPending_follows (hcalls : CallsFollow l names call₁ call₂)
    {as bs : Pending Host}
    (h : PendingFollow l names as bs) {fn : Value Host} (hfn : fn.Within names) :
    Follows l (Value.Within names) (applyPending call₁ as fn) (applyPending call₂ bs fn) := by
  cases h with
  | nil => exact .value hfn
  | cons ha hrest =>
      rw [applyPending, applyPending]
      split
      · exact (force_follows (.cons ha hrest)).bind fun vs hvs => hcalls fn vs hfn hvs
      · exact .failed _

/-- Alternatives end alike when their bodies do, whatever a pattern binds. -/
theorem evalAlternatives_follows (hvocabulary : p.environment.vocabulary = q.environment.vocabulary)
    {scope : Scope Host} {value : Value Host} (hvalue : value.Within names)
    {alternatives : List (Pattern × Term)}
    (h : ∀ a ∈ alternatives, ∀ bound,
      a.1.match? p.environment.vocabulary value = .ok (some bound) → ScopeWithin names bound →
      Follows l (Value.Within names) (p.evalOnto d call₁ (bound ++ scope) [] a.2)
        (q.evalOnto d call₂ (bound ++ scope) [] a.2)) :
    Follows l (Value.Within names) (p.evalAlternatives d call₁ scope value alternatives)
      (q.evalAlternatives d call₂ scope value alternatives) := by
  induction alternatives with
  | nil =>
      rw [evalAlternatives, evalAlternatives]
      exact .failed _
  | cons a rest ih =>
      obtain ⟨pattern, body⟩ := a
      rw [List.forall_mem_cons] at h
      rw [evalAlternatives, evalAlternatives, ← hvocabulary]
      cases hm : pattern.match? p.environment.vocabulary value with
      | error e => exact .failed _
      | ok result =>
          cases result with
          | none => exact ih h.2
          | some bound => exact h.1 bound hm (Pattern.match?_within hvalue hm)

private theorem mem_freeNamesIn {alternatives : List (Pattern × Term)} {a : Pattern × Term}
    (ha : a ∈ alternatives) {x : Text} (hx : x ∈ a.2.freeNames) (hb : x ∉ a.1.binds) :
    x ∈ Term.freeNamesIn alternatives := by
  induction alternatives with
  | nil => cases ha
  | cons b rest ih =>
      obtain ⟨pattern, body⟩ := b
      rw [Term.freeNamesIn, List.mem_append]
      rcases List.mem_cons.1 ha with rfl | ha
      · exact Or.inl (List.mem_filter.2 ⟨hx, decide_eq_true hb⟩)
      · exact Or.inr (ih ha)

/-- Evaluations of a term end alike, if every free name of it is local or of the same meaning. -/
theorem evalOnto_follows {known : Text → Prop} (h : BodiesFollow l names known p q d call₁ call₂)
    {t : Term} {scope : Scope Host} (hscope : ScopeWithin names scope)
    (ht : ∀ x ∈ t.freeNames, known x ∨ (scope.lookup x).isSome) {as bs : Pending Host}
    (hpending : PendingFollow l names as bs) :
    Follows l (Value.Within names) (p.evalOnto d call₁ scope as t)
      (q.evalOnto d call₂ scope bs t) := by
  induction t using Term.inductionOn generalizing scope as bs with
  | var x =>
      rw [evalOnto, evalOnto]
      refine (resolve_follows h.meanings hscope (ht x (by simp [Term.freeNames]))).bind ?_
      exact fun v hv => applyPending_follows h.calls hpending hv
  | param index =>
      rw [evalOnto, evalOnto]
      exact .failed _
  | app fn arg info ihf iha =>
      rw [Term.freeNames, List.forall_mem_append] at ht
      rw [evalOnto, evalOnto]
      exact ihf hscope ht.1 (.cons (iha hscope ht.2 .nil) hpending)
  | lit value =>
      rw [evalOnto, evalOnto]
      exact applyPending_follows h.calls hpending (Value.within_ofLiteral value)
  | hole =>
      rw [evalOnto, evalOnto]
      exact applyPending_follows h.calls hpending Value.within_erased
  | pi name m info domain result =>
      rw [evalOnto, evalOnto]
      exact .failed _
  | case scrutinee alternatives ihs iha =>
      rw [Term.freeNames, List.forall_mem_append] at ht
      rw [evalOnto, evalOnto]
      refine (ihs hscope ht.1 .nil).bind fun value hvalue => ?_
      have halternatives : Follows l (Value.Within names)
          (p.evalAlternatives d call₁ scope value alternatives)
          (q.evalAlternatives d call₂ scope value alternatives) := by
        refine evalAlternatives_follows h.vocabulary hvalue fun a ha bound hm hbound => ?_
        refine iha a ha (hbound.append hscope) (fun x hx => ?_) .nil
        rw [lookup_append_isSome, Bool.or_eq_true, Pattern.match?_binds hm]
        by_cases hb : x ∈ a.1.binds
        · exact Or.inr (Or.inl hb)
        · exact (ht.2 x (mem_freeNamesIn ha hx hb)).imp_right Or.inr
      exact halternatives.bind fun v hv => applyPending_follows h.calls hpending hv

/-- Calls of a declared function end alike when every name of its body means the same. -/
theorem enter_follows (h : BodiesFollow l names (fun _ => True) p q d call₁ call₂)
    {args : List (Value Host)} (hargs : ∀ a ∈ args, a.Within names) :
    Follows l (Value.Within names) (p.enter call₁ d args) (q.enter call₂ d args) := by
  rw [enter, enter]
  split
  · exact .failed _
  · refine (evalOnto_follows h ?_ (fun _ _ => Or.inl trivial) .nil).mapRejection _
    intro b hb
    exact hargs b.2 (List.of_mem_zip (List.mem_reverse.1 hb)).2

end

/-- What a built-in function makes of values holds no more than they do. -/
private theorem make_follows (m : Maker) {args : List (Value Host)}
    (hargs : ∀ a ∈ args, a.Within names) :
    Follows l (Value.Within names) (make m args) (make m args) := by
  unfold make
  split
  case h_1 | h_3 => exact .value (by simp)
  case h_2 | h_4 | h_5 => exact .value (by simpa using hargs)
  case h_6 => exact .failed _

private theorem unwrapValue_within {v w : Value Host} (hv : v.Within names)
    (h : unwrapValue v = .ok w) : w.Within names := by
  unfold unwrapValue at h
  split at h <;> cases h
  exact hv

section
variable {enter₁ enter₂ : Declaration → List (Value Host) → Outcome (Value Host)}

/-- Declared functions of the given names are the same in both programs and are entered alike. -/
structure EntersFollow (l : Leeway) (names : Text → Prop) (p q : Program Host)
    (enter₁ enter₂ : Declaration → List (Value Host) → Outcome (Value Host)) : Prop where
  find? : ∀ x, names x → p.find? x = q.find? x
  enter : ∀ x d, names x → p.find? x = some d → ∀ args, (∀ a ∈ args, a.Within names) →
    Follows l (Value.Within names) (enter₁ d args) (enter₂ d args)

/-- Calls of what is no function of the host end alike when declared functions are entered alike. -/
theorem callWith_follows_of_ne_host {i₁ i₂ : HostFunctions Host}
    (henter : EntersFollow l names p q enter₁ enter₂) (n : Nat) {fn : Value Host}
    {args : List (Value Host)} (hfn : fn.Within names) (hargs : ∀ a ∈ args, a.Within names)
    (hne : ∀ h, fn ≠ .host h) :
    Follows l (Value.Within names) (@callWith Host i₁ p enter₁ n fn args)
      (@callWith Host i₂ q enter₂ n fn args) := by
  unfold callWith
  split
  case h_1 h => exact absurd rfl (hne h)
  case h_2 x =>
    have hx := Value.within_declared.1 hfn
    rw [← henter.find? x hx]
    cases hd : p.find? x with
    | none => exact .failed _
    | some d => exact henter.enter x d hx hd args hargs
  case h_3 m => exact make_follows m hargs
  case h_4 v => exact .ofExcept fun w => unwrapValue_within (List.forall_mem_singleton.1 hargs)
  case h_5 => exact .failed _

/-- Calls end alike when declared functions are entered alike and host functions follow each
other. -/
theorem callWith_follows {i₁ i₂ : HostFunctions Host}
    (henter : EntersFollow l names p q enter₁ enter₂)
    (hlimit : l.exhausts ∨ l.excused .exhausted)
    (hrun : ∀ (h : Host) args, (Value.host h).Within names → (∀ a ∈ args, a.Within names) →
      Step.Follows l names (i₁.run h args) (i₂.run h args)) (n : Nat) :
    CallsFollow l names (@callWith Host i₁ p enter₁ n) (@callWith Host i₂ q enter₂ n) := by
  intro fn args hfn hargs
  induction n generalizing fn args with
  | zero =>
      cases fn with
      | host h =>
          show Follows l _ (.error .exhausted) (.error .exhausted)
          exact hlimit.elim .exhausted fun he => .excused he _
      | _ => exact callWith_follows_of_ne_host henter 0 hfn hargs fun h hh => by cases hh
  | succ n ih =>
      cases fn with
      | host h =>
          show Follows l _ (drive (@callWith Host i₁ p enter₁ n) (i₁.run h args))
            (drive (@callWith Host i₂ q enter₂ n) (i₂.run h args))
          exact drive_follows ih (hrun h args hfn hargs)
      | _ => exact callWith_follows_of_ne_host henter (n + 1) hfn hargs fun h hh => by cases hh

end

end Program
end RefinementTypes
