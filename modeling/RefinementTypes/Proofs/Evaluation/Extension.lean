import RefinementTypes.Proofs.Declaration.Batch
import RefinementTypes.Proofs.Evaluation.Refine
import RefinementTypes.Proofs.Evaluation.SampleHost
import RefinementTypes.Proofs.Evaluation.Simulation

/-!
# More declarations

Declarations of other namespaces, linked beside those of a program, give names a meaning that had
none and change nothing else: a name that means a declaration of the program goes on to do so,
since siblings are in the same namespace and qualified names are different. So a call in which no
name is missing ends as before.
-/

namespace RefinementTypes

/-- A run that ends for a missing name says nothing about a run with more declarations. -/
def Leeway.unbound : Leeway where
  excused halt := ∃ x, halt = .failed (.evaluation (.unbound x))
  exhausts := True
  not_rejected := by simp

private theorem Leeway.excused_unbound (x : Text) :
    Leeway.unbound.excused (.failed (.evaluation (.unbound x))) :=
  ⟨x, rfl⟩

/-- Whether a computation ended for a missing name. -/
def endsUnbound {α : Type} : Except Failure α → Bool
  | .error (.evaluation (.unbound _)) => true
  | _ => false

private theorem endsUnbound_iff {α : Type} {result : Except Failure α} :
    endsUnbound result ↔ ∃ x, result = .error (.evaluation (.unbound x)) := by
  constructor
  · intro h
    unfold endsUnbound at h
    split at h
    · exact ⟨_, rfl⟩
    · cases h
  · rintro ⟨x, rfl⟩
    rfl

namespace Step
variable {Host : Type}

/-- The host function with every missing name let through: what it may do about one is left out. -/
def lettingThrough : Step Host → Step Host
  | .done result => .done result
  | .call fn args next => .call fn args fun result =>
      if endsUnbound result then .done result else (next result).lettingThrough

/-- The host function ends for a missing name with the failure that it got. -/
def LetsThrough : Step Host → Prop
  | .done _ => True
  | .call _ _ next =>
      (∀ result, endsUnbound result → next result = .done result) ∧
        ∀ result, (next result).LetsThrough

private theorem lettingThrough_eq_self {step : Step Host} (h : step.LetsThrough) :
    step.lettingThrough = step := by
  induction step with
  | done result => rfl
  | call fn args next ih =>
      obtain ⟨hends, hnext⟩ := h
      rw [lettingThrough]
      congr
      funext result
      split
      · rename_i hresult
        exact (hends result hresult).symm
      · exact ih result (hnext result)

private theorem Within.lettingThrough_follows [HoldsFunctions Host] {names : Text → Prop}
    {step : Step Host} (h : step.Within names) :
    Step.Follows .unbound names step.lettingThrough step := by
  induction step with
  | done result => exact .done h
  | call fn args next ih =>
      obtain ⟨hfn, hargs, hnext⟩ := h
      rw [lettingThrough]
      refine .call hfn hargs ?_ fun result hr hfound => ?_
      · rintro e ⟨x, hx⟩
        cases hx
        rfl
      · rw [if_neg]
        · exact ih result (hnext result hr)
        · intro hends
          obtain ⟨x, rfl⟩ := endsUnbound_iff.1 hends
          exact hfound _ rfl (Leeway.excused_unbound x)

end Step

/-- The functions of the host, with every missing name let through. -/
abbrev HostFunctions.lettingThrough (Host : Type) [HostFunctions Host] : HostFunctions Host where
  name := HostFunctions.name
  run h args := (HostFunctions.run h args).lettingThrough

namespace Program

section
variable {Host : Type} {p q : Program Host} {d s : Declaration} {x : Text}

/-- The declarations of one program are those of certain namespaces in another. -/
structure IsPart (p q : Program Host) : Prop where
  environment : p.environment = q.environment
  subset : p.declarations ⊆ q.declarations
  mem_of_space : ∀ d ∈ p.declarations, ∀ s ∈ q.declarations, s.space = d.space →
    s ∈ p.declarations

namespace IsPart

private theorem refl (p : Program Host) : IsPart p p := ⟨rfl, fun _ h => h, fun _ _ _ h _ => h⟩

private theorem find?_eq (h : IsPart p q) (hx : p.Declares x) : p.find? x = q.find? x := by
  obtain ⟨d, hd, rfl⟩ := hx
  rw [find?_qualifiedName hd, find?_qualifiedName (h.subset hd)]

private theorem sibling?_eq (h : IsPart p q) (hd : d ∈ p.declarations) :
    p.sibling? d x = q.sibling? d x := by
  apply Option.ext
  intro s
  rw [sibling?_eq_some_iff, sibling?_eq_some_iff]
  constructor
  · rintro ⟨hs, hspace, hname⟩
    exact ⟨h.subset hs, hspace, hname⟩
  · rintro ⟨hs, hspace, hname⟩
    exact ⟨h.mem_of_space d hd s hs hspace, hspace, hname⟩

private theorem stranger?_eq (h : IsPart p q) (hs : p.stranger? d x = some s) :
    q.stranger? d x = some s := by
  rw [stranger?_eq_some_iff] at hs ⊢
  exact ⟨h.subset hs.1, hs.2⟩

/-- A name that has a meaning keeps it. -/
theorem resolve_eq (h : IsPart p q) (hd : d ∈ p.declarations) {scope : Scope Host} {v : Value Host}
    (hv : p.resolve d scope x = .ok v) : q.resolve d scope x = .ok v := by
  rw [resolve_eq_ok_iff, meaning?] at hv ⊢
  rw [← h.environment, ← h.sibling?_eq hd]
  simp only [Option.or_eq_some_iff, Option.map_eq_some_iff] at hv ⊢
  rcases hv with hlocal | ⟨hlocal, hbinding | ⟨hbinding, hbuiltin | ⟨hbuiltin, s, hs, rfl⟩⟩⟩
  · exact Or.inl hlocal
  · exact Or.inr ⟨hlocal, Or.inl hbinding⟩
  · exact Or.inr ⟨hlocal, Or.inr ⟨hbinding, Or.inl hbuiltin⟩⟩
  · have hs' := hs.imp_right (And.imp_right h.stranger?_eq)
    exact Or.inr ⟨hlocal, Or.inr ⟨hbinding, Or.inr ⟨hbuiltin, s, hs', rfl⟩⟩⟩

end IsPart

variable [HoldsFunctions Host]

private theorem IsPart.meaningOf_follows (h : IsPart p q) (he : p.environment.HoldsNone)
    (hd : d ∈ p.declarations) (x : Text) :
    Follows .unbound (Value.Within p.Declares) (p.meaningOf d x) (q.meaningOf d x) := by
  rw [meaningOf, meaningOf]
  cases hv : p.resolve d [] x with
  | ok v =>
      rw [h.resolve_eq hd hv]
      refine .value ((meaning_of_resolve hv).within he (fun s _ _ hs => ?_) fun s _ _ hs => ?_)
      · exact ⟨s, (sibling?_eq_some_iff.1 hs).1, rfl⟩
      · exact ⟨s, (stranger?_eq_some_iff.1 hs).1, rfl⟩
  | error e =>
      rw [resolve_eq_error hv]
      exact .excused (Leeway.excused_unbound x) _

end

section
variable {Host : Type} [HostFunctions Host] {p q : Program Host}

/-- A call, with every missing name let through by the functions of the host: if it gets to a
missing name, this is its end. -/
def strictCall (p : Program Host) : Nat → Caller Host
  | 0 => @callWith Host (.lettingThrough Host) p (fun _ _ => .error .exhausted) hostLimit
  | depth + 1 => @callWith Host (.lettingThrough Host) p (p.enter (p.strictCall depth)) hostLimit

theorem strictCall_eq_call (h : ∀ (h : Host) args, (HostFunctions.run h args).LetsThrough) :
    p.strictCall = p.call := by
  have hhost : HostFunctions.lettingThrough Host = ‹HostFunctions Host› := by
    rename_i i
    cases i
    unfold HostFunctions.lettingThrough
    congr
    funext f args
    exact Step.lettingThrough_eq_self (h f args)
  funext n
  induction n with
  | zero => rw [strictCall, call, hhost]
  | succ n ih => rw [strictCall, call, hhost, ih]

variable [HoldsFunctions Host] [LawfulHost Host]

/-- A call in a part of a program ends as it does in the whole, unless a name is missing. -/
theorem IsPart.call_follows (h : IsPart p q) (he : p.environment.HoldsNone) (n : Nat) :
    CallsFollow .unbound p.Declares (p.strictCall n) (q.call n) := by
  have hrun (h : Host) args (hh : (Value.host h).Within p.Declares)
      (hargs : ∀ a ∈ args, a.Within p.Declares) :=
    (LawfulHost.run_within p.Declares h args hh hargs).lettingThrough_follows
  induction n with
  | zero =>
      refine callWith_follows ⟨fun x => h.find?_eq, ?_⟩ (Or.inl trivial) hrun hostLimit
      exact fun _ _ _ _ _ _ => .exhausted trivial
  | succ n ih =>
      refine callWith_follows ⟨fun x => h.find?_eq, ?_⟩ (Or.inl trivial) hrun hostLimit
      intro x d _ hx args hargs
      have hd := (find?_eq_some_iff.1 hx).1
      refine enter_follows ⟨?_, ih, fun x _ => h.meaningOf_follows he hd x⟩ hargs
      rw [h.environment]

theorem IsPart.call_eq (h : IsPart p q) (he : p.environment.HoldsNone) {d : Declaration}
    (hd : d ∈ p.declarations) {n : Nat} {args : List (Value Host)}
    (hargs : ∀ a ∈ args, a.held = [])
    (hfound : ∀ x, p.strictCall n (.declared d.qualifiedName) args ≠
      .error (.failed (.evaluation (.unbound x)))) :
    q.call n (.declared d.qualifiedName) args =
      p.strictCall n (.declared d.qualifiedName) args := by
  have hfollows := h.call_follows he n (.declared d.qualifiedName) args
    (Value.within_declared.2 ⟨d, hd, rfl⟩) fun a ha => Value.within_of_held_eq_nil (hargs a ha)
  apply hfollows.eq_of_not_excused
  rintro halt hhalt ⟨x, rfl⟩
  exact hfound x hhalt

/-- Declarations that link beside others, of other namespaces, link alone and in any order. A call
of one of them ends in the larger program as it does when they are linked alone, unless it gets to a
missing name there: the strict call tells. The outcome tells as well if the functions of the host
let missing names through, but a function that answers for a missing name keeps it from the
outcome. -/
theorem link_extended {e : Environment Host} {ds more all : List Declaration}
    {whole : Program Host} (hspaces : ∀ d ∈ ds, ∀ s ∈ more, s.space ≠ d.space)
    (hall : all.Perm (ds ++ more)) (hlink : link e (ds ++ more) = .ok whole) :
    ∃ p q, link e ds = .ok p ∧ link e all = .ok q ∧
      (∀ x d, q.find? x = some d ↔ d ∈ ds ++ more ∧ d.qualifiedName = x) ∧
      (e.HoldsNone → ∀ d ∈ ds, ∀ n args, (∀ a ∈ args, a.held = []) →
        ((∀ x, p.strictCall n (.declared d.qualifiedName) args ≠
            .error (.failed (.evaluation (.unbound x)))) →
          q.call n (.declared d.qualifiedName) args = p.call n (.declared d.qualifiedName) args) ∧
        ((∀ (h : Host) args, (HostFunctions.run h args).LetsThrough) →
          (∀ x, p.call n (.declared d.qualifiedName) args ≠
            .error (.failed (.evaluation (.unbound x)))) →
          q.call n (.declared d.qualifiedName) args =
            p.call n (.declared d.qualifiedName) args)) := by
  have hdistinct : ((ds ++ more).map Declaration.qualifiedName).Nodup :=
    (link_eq_ok hlink).2 ▸ whole.distinct
  have hsub : (ds.map Declaration.qualifiedName).Sublist
      ((ds ++ more).map Declaration.qualifiedName) :=
    (List.sublist_append_left ds more).map _
  obtain ⟨p, hp⟩ := link_isOk (e := e) (hsub.nodup hdistinct)
  obtain ⟨q, hq⟩ := link_isOk (e := e) ((hall.map Declaration.qualifiedName).nodup_iff.2 hdistinct)
  obtain ⟨rfl, rfl⟩ := link_eq_ok hp
  obtain ⟨henvironment, rfl⟩ := link_eq_ok hq
  have hpart : IsPart p q := by
    refine ⟨henvironment.symm, fun d hd => hall.mem_iff.2 (List.mem_append_left _ hd), ?_⟩
    intro d hd s hs hspace
    refine (List.mem_append.1 (hall.mem_iff.1 hs)).resolve_right fun hmore => ?_
    exact hspaces d hd s hmore hspace
  refine ⟨p, q, hp, hq, fun x d => ?_, fun he d hd n args hargs => ⟨fun hfound => ?_, ?_⟩⟩
  · rw [find?_eq_some_iff, hall.mem_iff]
  · rw [hpart.call_eq he hd hargs hfound, (IsPart.refl p).call_eq he hd hargs hfound]
  · intro hlets hfound
    have hstrict : p.strictCall = p.call := strictCall_eq_call hlets
    rw [← hstrict] at hfound ⊢
    exact hpart.call_eq he hd hargs hfound

end

theorem letsThrough_sampleHost (h : SampleHost) (args : List (Value SampleHost)) :
    (HostFunctions.run h args).LetsThrough := by
  change (SampleHost.run h args).LetsThrough
  unfold SampleHost.run
  split
  case h_2 => split <;> exact True.intro
  case h_11 =>
    split
    · refine ⟨fun result hresult => ?_, fun result => True.intro⟩
      obtain ⟨x, rfl⟩ := endsUnbound_iff.1 hresult
      rfl
    · exact True.intro
  all_goals exact True.intro

private theorem holdsNone_nicknameHost : nicknameHost.HoldsNone where
  decide := rfl
  bindings := by
    simp only [nicknameHost, List.forall_mem_cons]
    exact ⟨rfl, rfl, rfl, List.forall_mem_nil _⟩

/-- Nicknames, with aliases linked in front of them. -/
theorem link_extended_nicknames :
    ∃ ds more p q, deriveAll {} .exported [(.stringLiterals, Refinement.nickname)] = .ok ds ∧
      deriveAll {} .exported [(.integerLiterals, { Refinement.nickname with name := "Alias" })] =
        .ok more ∧
      link nicknameHost ds = .ok p ∧ link nicknameHost (more ++ ds) = .ok q ∧
      q.call 2 (.declared "Nickname.fromString") [.str "Ada"] =
        .ok (.record "MkNickname" [.str "Ada", .record "evidence" [.str "Ada"]]) ∧
      q.call 2 (.declared "Nickname.fromString") [.int 1] =
        .error (.failed (.host "non_empty expects a string or a list")) := by
  obtain ⟨ds, hds⟩ : ∃ ds, deriveAll {} .exported [(.stringLiterals, Refinement.nickname)] =
    .ok ds := ⟨_, rfl⟩
  obtain ⟨more, hmore⟩ : ∃ more, deriveAll {} .exported
    [(.integerLiterals, { Refinement.nickname with name := "Alias" })] = .ok more := ⟨_, rfl⟩
  have hspaces : ∀ d ∈ ds, ∀ s ∈ more, s.space ≠ d.space := by
    cases hds
    cases hmore
    decide
  obtain ⟨whole, hwhole⟩ : ∃ whole, link nicknameHost (ds ++ more) = .ok whole := by
    cases hds
    cases hmore
    exact ⟨_, rfl⟩
  obtain ⟨p, q, hp, hq, -, hcalls⟩ := link_extended hspaces List.perm_append_comm hwhole
  have hmem : ∃ d ∈ ds, d.qualifiedName = "Nickname.fromString" := by
    cases hds
    exact ⟨_, List.mem_cons_of_mem _ (List.mem_cons_self ..), rfl⟩
  have hstrict : p.strictCall 2 (.declared "Nickname.fromString") [.str "Ada"] =
      .ok (.record "MkNickname" [.str "Ada", .record "evidence" [.str "Ada"]]) := by
    cases hds
    cases hp
    rfl
  have hada : p.call 2 (.declared "Nickname.fromString") [.str "Ada"] =
      .ok (.record "MkNickname" [.str "Ada", .record "evidence" [.str "Ada"]]) := by
    cases hds
    cases hp
    rfl
  have hone : p.call 2 (.declared "Nickname.fromString") [.int 1] =
      .error (.failed (.host "non_empty expects a string or a list")) := by
    cases hds
    cases hp
    rfl
  obtain ⟨d, hd, hname⟩ := hmem
  have hcall := hcalls holdsNone_nicknameHost d hd 2
  rw [hname] at hcall
  refine ⟨ds, more, p, q, hds, hmore, hp, hq, ?_, ?_⟩
  · have hargs : ∀ a ∈ ([.str "Ada"] : List (Value SampleHost)), a.held = [] :=
      List.forall_mem_singleton.2 rfl
    rw [(hcall _ hargs).1 (by simp [hstrict]), hada]
  · have hargs : ∀ a ∈ ([.int 1] : List (Value SampleHost)), a.held = [] :=
      List.forall_mem_singleton.2 rfl
    rw [(hcall _ hargs).2 letsThrough_sampleHost (by simp [hone]), hone]

end Program

/-- A host with one function, which calls the function that it is given and answers zero if a name
is missing there. -/
inductive ZeroHost where
  | orZero

namespace ZeroHost

instance : HostFunctions ZeroHost where
  name _ := "or_zero"
  run
    | _, [fn] => .call fn [] fun result =>
        .done (if endsUnbound result then .ok (.int 0) else result)
    | _, _ => .done (.error (.host "or_zero takes one argument"))

instance : HoldsFunctions ZeroHost := ⟨fun _ => []⟩

private theorem call_within {names : Text → Prop} {fn : Value ZeroHost} (h : fn.Within names) :
    (HostFunctions.run orZero [fn]).Within names := by
  refine ⟨h, List.forall_mem_nil _, fun result hresult v hv => ?_⟩
  split at hv
  · cases hv
    exact Value.within_of_held_eq_nil rfl
  · exact hresult v hv

instance : LawfulHost ZeroHost where
  run_within _ _
    | [], _, _ | _ :: _ :: _, _, _ => Step.within_error _
    | [_], _, hargs => call_within (hargs _ (List.mem_singleton_self _))

/-- An environment with the one function under the name `attempt`. -/
def environment : Environment ZeroHost := ⟨orZero, [("attempt", .host orZero)], {}⟩

end ZeroHost

/-- `A.main = attempt helper` and `A.helper = B.value`. -/
def attemptingDeclarations : List Declaration :=
  [⟨"main", some "A", .publicExported, .hole, [], .app (.var "attempt") (.var "helper") .explicit⟩,
   ⟨"helper", some "A", .publicExported, .hole, [], .var "B.value"⟩]

/-- `B.value = 1`. -/
def valueDeclaration : Declaration :=
  ⟨"value", some "B", .publicExported, .hole, [], .lit (.int 1)⟩

namespace Program

/-- The outcome alone does not tell that a call gets to no missing name: a function of the host that
answers for one hides it, and the call ends otherwise once the name has a meaning. -/
theorem call_changed_by_hidden_name :
    (∀ d ∈ attemptingDeclarations, ∀ s ∈ [valueDeclaration], s.space ≠ d.space) ∧
      ZeroHost.environment.HoldsNone ∧
      ∃ p q, link ZeroHost.environment attemptingDeclarations = .ok p ∧
        link ZeroHost.environment (attemptingDeclarations ++ [valueDeclaration]) = .ok q ∧
        ∀ n, p.call (n + 2) (.declared "A.main") [] = .ok (.int 0) ∧
          q.call (n + 2) (.declared "A.main") [] = .ok (.declared "B.value") := by
  refine ⟨by decide, ⟨rfl, List.forall_mem_singleton.2 rfl⟩, _, _, rfl, rfl, fun n => ⟨?_, ?_⟩⟩
  · rfl
  · rfl

end Program
end RefinementTypes
