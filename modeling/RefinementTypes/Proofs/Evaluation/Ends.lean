import RefinementTypes.Proofs.Evaluation.Simulation

/-!
# Computations that end

A deeper limit changes no outcome: a call that ends within a limit ends the same way within every
deeper one.

A computation ends if it is a simulation of itself that never gets to the limit. Applications end
when their parts do and what the name at their head stands for; calls end when the declared
functions end that can be called, as long as the functions of the host do their part.
-/

namespace RefinementTypes

/-- A run that gets to its limit says nothing about a run with a deeper one. -/
def Leeway.limit : Leeway where
  excused halt := halt = .exhausted
  exhausts := False
  not_rejected := by simp

namespace Program
variable {Host : Type} [HostFunctions Host] {p : Program Host}

/-- No function is remembered: for the limit it does not matter which functions a value holds. -/
local instance holdsNothing : HoldsFunctions Host := ⟨fun _ => []⟩

private theorem call_succ_follows (p : Program Host) (n : Nat) :
    CallsFollow .limit (fun _ => True) (p.call n) (p.call (n + 1)) := by
  have hvalue (v : Value Host) : v.Within fun _ => True := fun _ _ => trivial
  have hstep (step : Step Host) : step.Within fun _ => True := by
    induction step with
    | done result => exact fun v _ => hvalue v
    | call fn args next ih => exact ⟨hvalue fn, fun a _ => hvalue a, fun result _ => ih result⟩
  induction n with
  | zero =>
      refine callWith_follows ⟨fun _ _ => rfl, fun x d _ _ args _ => ?_⟩ (Or.inr rfl)
        (fun h args _ _ => (hstep _).follows fun e he => by cases he) hostLimit
      exact .excused rfl _
  | succ n ih =>
      refine callWith_follows ⟨fun _ _ => rfl, fun x d _ _ args hargs => ?_⟩ (Or.inr rfl)
        (fun h args _ _ => (hstep _).follows fun e he => by cases he) hostLimit
      exact enter_follows ⟨rfl, ih, fun x _ => .ofExcept fun v _ => hvalue v⟩ hargs

theorem call_add {n : Nat} {fn : Value Host} {args : List (Value Host)}
    (h : p.call n fn args ≠ .error .exhausted) (k : Nat) :
    p.call (n + k) fn args = p.call n fn args := by
  induction k with
  | zero => rfl
  | succ k ih =>
      have hfollows := call_succ_follows p (n + k) fn args (fun _ _ => trivial)
        fun _ _ _ _ => trivial
      rw [← ih]
      refine hfollows.eq_of_not_excused fun halt hhalt he => h ?_
      rw [← ih, hhalt, he]

end Program

/-- Nothing is excused and no run may get to the limit: what is simulated ends. -/
def Leeway.none : Leeway where
  excused _ := False
  exhausts := False
  not_rejected := by simp

section
variable {Host : Type} [HoldsFunctions Host] {names : Text → Prop} {o o' : Outcome (Value Host)}

/-- A computation ends, and the value that it may end with holds only functions of the names. -/
abbrev Ends (names : Text → Prop) (o : Outcome (Value Host)) : Prop :=
  Follows .none (Value.Within names) o o

theorem Ends.ne_exhausted (h : Ends names o) : o ≠ .error .exhausted := by
  rintro rfl
  cases h with
  | exhausted hl => exact hl
  | excused he => exact he

theorem Ends.exists_ofExcept (h : Ends names o) :
    ∃ result : Except Failure (Value Host), o = Outcome.ofExcept result := by
  cases o with
  | ok v => exact ⟨.ok v, rfl⟩
  | error halt =>
      cases halt with
      | failed e => exact ⟨.error e, rfl⟩
      | exhausted => exact absurd rfl h.ne_exhausted

private theorem ends_of_ne_exhausted (h : o ≠ .error .exhausted) : Ends (fun _ => True) o := by
  cases o with
  | ok v => exact .value fun _ _ => trivial
  | error halt =>
      cases halt with
      | failed e => exact .failed e
      | exhausted => exact absurd rfl h

private theorem Follows.ends (h : Follows .limit (Value.Within names) o o')
    (hne : o ≠ .error .exhausted) :
    Ends names o' := by
  cases h with
  | value hv => exact .value hv
  | failed e => exact .failed e
  | exhausted hl => exact hl.elim
  | excused he => exact absurd (congrArg Except.error he) hne

end

namespace Program

section
variable {Host : Type} [HostFunctions Host] [HoldsFunctions Host] {p : Program Host}
  {names : Text → Prop} {enter : Declaration → List (Value Host) → Outcome (Value Host)}

/-- Functions of the host end if the declared functions end that they call. -/
def HostsEnd (p : Program Host) : Prop :=
  ∀ enter : Declaration → List (Value Host) → Outcome (Value Host),
    (∀ d args, enter d args ≠ .error .exhausted) →
      ∀ h args, p.callWith enter hostLimit (.host h) args ≠ .error .exhausted

/-- No function of the host makes a call, but the decision procedure may apply the predicate to the
value once. -/
def Restrained (p : Program Host) : Prop :=
  ∀ (h : Host) args, (∃ result, HostFunctions.run h args = .done result) ∨
    h = p.environment.decide ∧ ∃ predicate value next, args = [predicate, value] ∧
      HostFunctions.run h args = .call predicate [value] next ∧
      ∀ answer, ∃ result, next answer = .done result

omit [HostFunctions Host] in
private theorem ofExcept_ends (result : Except Failure (Value Host)) :
    Ends (fun _ => True) (Outcome.ofExcept result) :=
  .ofExcept fun _ _ _ _ => trivial

/-- A function that is applied to one argument is not the decision procedure. -/
private theorem callWith_one_ends (hrestrained : p.Restrained)
    (henter : ∀ d args, enter d args ≠ .error .exhausted) (n : Nat) (fn v : Value Host) :
    Ends (fun _ => True) (p.callWith enter (n + 1) fn [v]) := by
  have henters : EntersFollow .none (fun _ => True) p p enter enter :=
    ⟨fun _ _ => rfl, fun _ d _ _ args _ => ends_of_ne_exhausted (henter d args)⟩
  by_cases hfn : ∃ h, fn = .host h
  · obtain ⟨h, rfl⟩ := hfn
    rw [callWith]
    rcases hrestrained h [v] with ⟨result, hrun⟩ | ⟨-, _, _, _, hargs, -⟩
    · rw [hrun, drive]
      exact ofExcept_ends result
    · simp at hargs
  · refine callWith_follows_of_ne_host henters (n + 1) (fun _ _ => trivial)
      (fun _ _ _ _ => trivial) ?_
    exact fun h hh => hfn ⟨h, hh⟩

theorem Restrained.hostsEnd (hrestrained : p.Restrained) : p.HostsEnd := by
  intro enter henter h args
  show drive (p.callWith enter 999) (HostFunctions.run h args) ≠ .error .exhausted
  rcases hrestrained h args with ⟨result, hrun⟩ | ⟨-, predicate, value, next, -, hrun, hnext⟩
  · rw [hrun, drive]
    exact (ofExcept_ends result).ne_exhausted
  · have hdone (answer : Except Failure (Value Host)) :
        drive (p.callWith enter 999) (next answer) ≠ .error .exhausted := by
      obtain ⟨result, hresult⟩ := hnext answer
      rw [hresult, drive]
      exact (ofExcept_ends result).ne_exhausted
    have hcall := (callWith_one_ends hrestrained henter 998 predicate value).ne_exhausted
    rw [hrun, drive]
    split
    · exact hdone _
    · exact hdone _
    · rename_i hexhausted
      exact absurd hexhausted hcall

/-- An outcome, with a failure in place of the limit. -/
private def ended : Outcome (Value Host) → Outcome (Value Host)
  | .error .exhausted => misuse
  | o => o

omit [HostFunctions Host] [HoldsFunctions Host] in
private theorem ended_ne_exhausted (o : Outcome (Value Host)) : ended o ≠ .error .exhausted := by
  unfold ended
  split
  · simp [misuse]
  · rename_i hne
    exact hne

omit [HostFunctions Host] in
private theorem ended_follows {o : Outcome (Value Host)} (h : Ends names o) :
    Follows .limit (Value.Within names) (ended o) o := by
  cases o with
  | ok v =>
      cases h with
      | value hv => exact .value hv
  | error halt =>
      cases halt with
      | failed e => exact .failed e
      | exhausted => exact absurd rfl h.ne_exhausted

/-- Calls end if every declared function ends that can be called. -/
theorem callWith_ends [LawfulHost Host] (hhosts : p.HostsEnd)
    (henters : EntersFollow .none names p p enter enter) :
    CallsFollow .none names (p.callWith enter hostLimit) (p.callWith enter hostLimit) := by
  intro fn args hfn hargs
  by_cases hhost : ∃ h, fn = .host h
  · obtain ⟨h, rfl⟩ := hhost
    have hended : EntersFollow .limit names p p (fun d args => ended (enter d args)) enter := by
      refine ⟨fun _ _ => rfl, fun x d hx hd args hargs => ?_⟩
      exact ended_follows (henters.enter x d hx hd args hargs)
    have hfollows := callWith_follows hended (Or.inr rfl)
      (fun h args hh hargs => (LawfulHost.run_within names h args hh hargs).follows
        fun e he => by cases he) hostLimit (.host h) args hfn hargs
    refine hfollows.ends ?_
    exact hhosts _ (fun d args => ended_ne_exhausted (enter d args)) h args
  · exact callWith_follows_of_ne_host henters hostLimit hfn hargs fun h hh => hhost ⟨h, hh⟩

end

section
variable {Host : Type} [HoldsFunctions Host] {p : Program Host} {d : Declaration}
  {names : Text → Prop} {scope : Scope Host} {x : Text} {v : Value Host}

theorem local_or_meaning (hscope : ScopeWithin names scope) (hv : p.resolve d scope x = .ok v) :
    v.Within names ∨ scope.lookup x = none ∧ Meaning p d x v := by
  cases hlocal : scope.lookup x with
  | some w =>
      rw [resolve_local hlocal] at hv
      cases hv
      exact Or.inl (hscope.lookup hlocal)
  | none =>
      rw [resolve_of_lookup_eq_none hlocal] at hv
      exact Or.inr ⟨rfl, meaning_of_resolve hv⟩

/-- What the host binds a name to holds no declared functions. -/
theorem Meaning.within_of_bound (h : Meaning p d x v) (he : p.environment.HoldsNone)
    (hbound : p.environment.bindings.lookup x ≠ none) : v.Within names := by
  refine h.within he ?_ ?_
  · exact fun s hnone => absurd hnone hbound
  · exact fun s hnone => absurd hnone hbound

theorem meaningOf_ends (h : ∀ v, Meaning p d x v → v.Within names) :
    Ends names (p.meaningOf d x) := by
  apply Follows.ofExcept
  intro v hv
  cases hx : p.resolve d [] x with
  | error e => simp [hx, Except.mapError] at hv
  | ok w =>
      rw [hx] at hv
      cases hv
      exact h v (meaning_of_resolve hx)

end

section
variable {Host : Type} [HostFunctions Host] {p : Program Host} {d : Declaration}
  {call : Caller Host} {scope : Scope Host} {x : Text} {a b : Term} {info info' : Explicitness}

/-- A name stands for a function, or its application fails before anything is called. -/
theorem callable_or_fails (p : Program Host) (d : Declaration) (call : Caller Host)
    (scope : Scope Host) (x : Text) :
    (∃ fn, p.resolve d scope x = .ok fn ∧ fn.isCallable = true) ∨
      ∀ a as, ∃ e, p.evalOnto d call scope (a :: as) (.var x) = .error (.failed e) := by
  cases hx : p.resolve d scope x with
  | error e =>
      refine Or.inr fun a as => ⟨.evaluation e, ?_⟩
      rw [evalOnto, hx]
      rfl
  | ok fn =>
      by_cases hfn : fn.isCallable
      · exact Or.inl ⟨fn, rfl, hfn⟩
      · refine Or.inr fun a as => ⟨.evaluation (.notFunction fn.display), ?_⟩
        rw [evalOnto, hx]
        show applyPending call (a :: as) fn = _
        rw [applyPending, if_neg hfn]
        rfl

/-- An application fails if its argument does. -/
theorem eval_app_var_fails (h : ∃ e, p.eval d call scope a = .error (.failed e)) :
    ∃ e, p.eval d call scope (.app (.var x) a info) = .error (.failed e) := by
  rcases callable_or_fails p d call scope x with ⟨fn, hx, hfn⟩ | hfails
  · obtain ⟨e, he⟩ := h
    refine ⟨e, ?_⟩
    rw [eval_app_var hx hfn, he]
    rfl
  · exact hfails _ _

variable [HoldsFunctions Host] {names : Text → Prop}

theorem eval_var_ends (h : ∀ v, p.resolve d scope x = .ok v → v.Within names) :
    Ends names (p.eval d call scope (.var x)) := by
  cases hx : p.resolve d scope x with
  | ok v =>
      rw [eval_var hx]
      exact .value (h v hx)
  | error e =>
      rw [eval, evalOnto, hx]
      exact .failed _

theorem eval_local_ends (hscope : ScopeWithin names scope)
    (hx : (scope.lookup x).isSome) : Ends names (p.eval d call scope (.var x)) := by
  obtain ⟨v, hv⟩ := Option.isSome_iff_exists.1 hx
  rw [eval_var (resolve_local hv)]
  exact .value (hscope.lookup hv)

theorem eval_app_var_ends (ha : Ends names (p.eval d call scope a))
    (hcall : ∀ fn, p.resolve d scope x = .ok fn → ∀ v, v.Within names → Ends names (call fn [v])) :
    Ends names (p.eval d call scope (.app (.var x) a info)) := by
  rcases callable_or_fails p d call scope x with ⟨fn, hx, hfn⟩ | hfails
  · rw [eval_app_var hx hfn]
    exact ha.bind (hcall fn hx)
  · obtain ⟨e, he⟩ := hfails (fun _ => p.evalOnto d call scope [] a) []
    rw [eval, evalOnto, he]
    exact .failed e

theorem eval_app_app_var_ends (ha : Ends names (p.eval d call scope a))
    (hb : Ends names (p.eval d call scope b))
    (hcall : ∀ fn, p.resolve d scope x = .ok fn → ∀ v w, v.Within names → w.Within names →
      Ends names (call fn [v, w])) :
    Ends names (p.eval d call scope (.app (.app (.var x) a info) b info')) := by
  rcases callable_or_fails p d call scope x with ⟨fn, hx, hfn⟩ | hfails
  · rw [eval_app_app_var hx hfn]
    exact ha.bind fun v hv => hb.bind fun w hw => hcall fn hx v w hv hw
  · obtain ⟨e, he⟩ := hfails (fun _ => p.evalOnto d call scope [] a)
      [fun _ => p.evalOnto d call scope [] b]
    rw [eval, evalOnto, evalOnto, he]
    exact .failed e

/-- A function of one argument ends, if its body does for every one that it can be given. -/
theorem enter_one_ends {args : List (Value Host)} {name : Text}
    (hname : d.arguments = [name]) (hargs : ∀ v ∈ args, v.Within names)
    (hbody : ∀ v, v.Within names → Ends names (p.eval d call [(name, v)] d.body)) :
    Ends names (p.enter call d args) := by
  by_cases hone : ∃ v, args = [v]
  · obtain ⟨v, rfl⟩ := hone
    rw [enter_one hname]
    exact (hbody v (hargs v (List.mem_singleton_self v))).mapRejection _
  · have hlength : args.length ≠ d.arguments.length := by
      rw [hname]
      exact fun h => hone (List.length_eq_one_iff.1 h)
    rw [enter, if_pos hlength]
    exact .failed _

end

end Program
end RefinementTypes
