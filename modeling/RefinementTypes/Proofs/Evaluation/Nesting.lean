import RefinementTypes.Proofs.Declaration.Batch
import RefinementTypes.Proofs.Declaration.Hygiene
import RefinementTypes.Proofs.Evaluation.Ends
import RefinementTypes.Proofs.Evaluation.Refine
import RefinementTypes.Proofs.Evaluation.SampleHost

/-!
# How deep companions call each other

A conversion calls `refine`, `refine` has the host decide about the predicate, and a predicate can
name a conversion of its type. The name means the conversion of the host if there is one, and a
declared conversion without one is stranded: its own name means nothing in it, so it fails before it
calls anything. Calls of companions end, and three of them are nested at most.
-/

namespace RefinementTypes
namespace Program

/-- `refine`, with a predicate that mentions no qualified name. -/
def IsRefine {Host : Type} (p : Program Host) (d : Declaration) : Prop :=
  ∃ r predicate reserved, Refinement.RefineParts r {} d predicate reserved ∧
    ∀ x ∈ predicate.freeNames, ¬ p.Declares x

/-- A literal conversion. -/
def IsConversion (d : Declaration) : Prop :=
  ∃ r kind reserved, Refinement.ConversionParts r {} kind d reserved

/-- A program of companions under the default vocabulary, all of them in namespaces with names. -/
structure IsDerived {Host : Type} (p : Program Host) : Prop where
  vocabulary : p.environment.vocabulary = {}
  space : ∀ d ∈ p.declarations, ∃ a, d.space = some a ∧ a ≠ ""
  companion : ∀ d ∈ p.declarations, p.IsRefine d ∨ IsConversion d

/-- The name of a conversion that the host does not have. -/
def Stranded {Host : Type} (p : Program Host) (x : Text) : Prop :=
  ∃ d ∈ p.declarations, d.qualifiedName = x ∧ IsConversion d ∧
    p.environment.bindings.lookup d.name = none

section
variable {Host : Type} {p : Program Host} {d : Declaration} {x : Text}

private theorem IsRefine.name (h : p.IsRefine d) : d.name = ({} : Vocabulary).refineName := by
  obtain ⟨r, predicate, reserved, hparts, -⟩ := h
  exact hparts.name

private theorem IsRefine.length_arguments (h : p.IsRefine d) : d.arguments.length = 1 := by
  obtain ⟨r, predicate, reserved, hparts, -⟩ := h
  rw [hparts.arguments]
  rfl

private theorem IsConversion.name (h : IsConversion d) :
    ∃ kind, d.name = (({} : Vocabulary).conversion kind).function := by
  obtain ⟨r, kind, reserved, hparts⟩ := h
  exact ⟨kind, hparts.name⟩

private theorem IsConversion.length_arguments (h : IsConversion d) : d.arguments.length = 1 := by
  obtain ⟨r, kind, reserved, hparts⟩ := h
  rw [hparts.arguments]
  rfl

private theorem conversion_ne_refineName (kind : LiteralKind) :
    (({} : Vocabulary).conversion kind).function ≠ ({} : Vocabulary).refineName := by
  cases kind <;> decide

/-- The names of companions have no dots and are not built in. -/
private theorem companionNames_plain : ∀ x ∈ ({} : Vocabulary).companionNames,
    dot ∉ x ∧ x ∉ ({} : Vocabulary).runtimeNames := by decide

namespace IsDerived

private theorem dot_mem (h : p.IsDerived) (hx : p.Declares x) : dot ∈ x := by
  obtain ⟨d, hd, rfl⟩ := hx
  obtain ⟨a, hspace, ha⟩ := h.space d hd
  exact Declaration.dot_mem_qualifiedName hspace ha

private theorem length_arguments (h : p.IsDerived) (hd : d ∈ p.declarations) :
    d.arguments.length = 1 := by
  rcases h.companion d hd with hrefine | hconversion
  · exact hrefine.length_arguments
  · exact hconversion.length_arguments

/-- A companion name that is not bound by the host means a sibling, or nothing. -/
private theorem sibling_of_meaning (h : p.IsDerived) (hx : x ∈ ({} : Vocabulary).companionNames)
    (hunbound : p.environment.bindings.lookup x = none) {v : Value Host} (hv : Meaning p d x v) :
    ∃ s, p.sibling? d x = some s ∧ v = .declared s.qualifiedName := by
  obtain ⟨hdot, hruntime⟩ := companionNames_plain x hx
  cases hv with
  | binding hbound => simp [hunbound] at hbound
  | builtin _ hbuiltin =>
      rw [Environment.builtins_eq_none (by rwa [h.vocabulary])] at hbuiltin
      cases hbuiltin
  | sibling _ _ hs => exact ⟨_, hs, rfl⟩
  | stranger _ _ hs =>
      obtain ⟨hmem, rfl, -⟩ := stranger?_eq_some_iff.1 hs
      exact absurd (h.dot_mem ⟨_, hmem, rfl⟩) hdot

end IsDerived

/-- In its own body the name of a conversion means the conversion of the host, or nothing. -/
private theorem resolve_own_name (h : p.IsDerived) (hconversion : IsConversion d)
    (hunbound : p.environment.bindings.lookup d.name = none) {scope : Scope Host}
    (hscope : scope.lookup d.name = none) (v : Value Host) : p.resolve d scope d.name ≠ .ok v := by
  intro hv
  rw [resolve_of_lookup_eq_none hscope] at hv
  obtain ⟨kind, hname⟩ := hconversion.name
  have hcompanion := hname ▸ ({} : Vocabulary).conversion_mem_companionNames kind
  obtain ⟨s, hs, -⟩ := h.sibling_of_meaning hcompanion hunbound (meaning_of_resolve hv)
  exact (sibling?_eq_some_iff.1 hs).2.2.2 rfl

variable [HostFunctions Host] {call : Caller Host} {args : List (Value Host)}

private theorem mapRejection_fails {α : Type} {o : Outcome α} (front : Text)
    (h : ∃ e, o = .error (.failed e)) : ∃ e, o.mapRejection front = .error (.failed e) := by
  obtain ⟨e, rfl⟩ := h
  cases e <;> exact ⟨_, rfl⟩

/-- A stranded conversion fails before anything is called. -/
private theorem enter_stranded (h : p.IsDerived) (hconversion : IsConversion d)
    (hunbound : p.environment.bindings.lookup d.name = none) (call : Caller Host)
    (args : List (Value Host)) : ∃ e, p.enter call d args = .error (.failed e) := by
  obtain ⟨r, kind, reserved, hparts⟩ := hconversion
  have hscope : (d.arguments.zip args).reverse.lookup d.name = none := by
    apply lookup_eq_none_of_not_mem
    intro hmem
    obtain ⟨b, hb, hname⟩ := List.mem_map.1 hmem
    have harg := (List.of_mem_zip (List.mem_reverse.1 hb)).1
    rw [hname, hparts.arguments, hparts.name, List.mem_singleton] at harg
    exact Refinement.literalBinder_ne_function _ _ _ harg.symm
  have hconverts : ∃ e, p.eval d call (d.arguments.zip args).reverse
      (.app (.var d.name) (.var (Refinement.literalBinder {} (({} : Vocabulary).conversion kind)
        reserved)) .explicit) = .error (.failed e) := by
    rcases callable_or_fails p d call (d.arguments.zip args).reverse d.name with ⟨fn, hfn, -⟩ | hf
    · exact absurd hfn (resolve_own_name h ⟨r, kind, reserved, hparts⟩ hunbound hscope fn)
    · exact hf _ _
  rw [enter]
  split
  · exact ⟨_, rfl⟩
  · apply mapRejection_fails
    rw [hparts.body, Refinement.refinedLiteral, ← hparts.name]
    exact eval_app_var_fails (eval_app_var_fails hconverts)

/-- Companions have one argument. -/
private theorem enter_two (h : p.IsDerived) (hd : d ∈ p.declarations) (call : Caller Host)
    (v w : Value Host) : ∃ e, p.enter call d [v, w] = .error (.failed e) := by
  have hlength : [v, w].length ≠ d.arguments.length := by
    rw [h.length_arguments hd]
    simp
  rw [enter, if_pos hlength]
  exact ⟨_, rfl⟩

end

section
variable {Host : Type} [HoldsFunctions Host] {p : Program Host} {d : Declaration}
  {names : Text → Prop} {scope : Scope Host} {x : Text} {v : Value Host}

/-- A built-in name means what the host binds to it, or what is built in. -/
private theorem IsDerived.runtime_within (h : p.IsDerived) (he : p.environment.HoldsNone)
    (hx : x ∈ ({} : Vocabulary).runtimeNames) (hv : Meaning p d x v) : v.Within names := by
  have hbuiltin : p.environment.builtins.lookup x ≠ none :=
    Environment.builtins_ne_none (by rwa [h.vocabulary])
  refine hv.within he ?_ ?_
  · exact fun s _ hnone => absurd hnone hbuiltin
  · exact fun s _ hnone => absurd hnone hbuiltin

private theorem IsDerived.resolve_runtime_within (h : p.IsDerived) (he : p.environment.HoldsNone)
    (hscope : ScopeWithin names scope) (hx : x ∈ ({} : Vocabulary).runtimeNames)
    (hv : p.resolve d scope x = .ok v) : v.Within names := by
  rcases local_or_meaning hscope hv with hwithin | ⟨-, hmeaning⟩
  · exact hwithin
  · exact h.runtime_within he hx hmeaning

/-- A name in a predicate means no function but a stranded conversion. -/
private theorem IsRefine.predicate_within (h : p.IsDerived) (he : p.environment.HoldsNone)
    (hrefine : p.IsRefine d) (hx : ¬ p.Declares x) (hv : Meaning p d x v) :
    v.Within p.Stranded := by
  refine hv.within he ?_ ?_
  · intro s hunbound _ hs
    obtain ⟨hmem, -, rfl, hne⟩ := sibling?_eq_some_iff.1 hs
    rcases h.companion s hmem with hrefine' | hconversion
    · exact absurd (hrefine'.name.trans hrefine.name.symm) hne
    · exact ⟨s, hmem, rfl, hconversion, hunbound⟩
  · intro s _ _ hs
    obtain ⟨hmem, hname, -⟩ := stranger?_eq_some_iff.1 hs
    exact absurd ⟨s, hmem, hname⟩ hx

end

section
variable {Host : Type} [HostFunctions Host] [HoldsFunctions Host] [LawfulHost Host]
  {p : Program Host} {d : Declaration} {args : List (Value Host)} {scope : Scope Host} {x : Text}
  {fn v w : Value Host}

section
variable (h : p.IsDerived) (hhosts : p.HostsEnd)
include h hhosts

/-- Values that hold only stranded conversions can be called without nesting. -/
theorem call_one_ends : CallsFollow .none p.Stranded (p.call 1) (p.call 1) := by
  apply callWith_ends hhosts
  refine ⟨fun _ _ => rfl, fun x s hx hs args _ => ?_⟩
  obtain ⟨d, hd, rfl, hconversion, hunbound⟩ := hx
  rw [find?_qualifiedName hd] at hs
  cases hs
  obtain ⟨e, he⟩ := enter_stranded h hconversion hunbound (p.call 0) args
  rw [he]
  exact .failed e

theorem call_two_ends : CallsFollow .none p.Stranded (p.call 2) (p.call 2) := by
  intro fn args hfn hargs
  have hends := call_one_ends h hhosts fn args hfn hargs
  rw [call_add (Ends.ne_exhausted hends) 1]
  exact hends

end

variable (h : p.IsDerived) (he : p.environment.HoldsNone) (hhosts : p.HostsEnd)
include h he hhosts

/-- A function of the host builds the member. What is called here with two arguments and is no
function of the host is a companion, and has one. -/
private theorem build_ends (hscope : ScopeWithin p.Stranded scope)
    (hfn : p.resolve d scope x = .ok fn) (hv : v.Within p.Stranded) (hw : w.Within p.Stranded) :
    Ends p.Stranded (p.call 1 fn [v, w]) := by
  have hends (hwithin : fn.Within p.Stranded) : Ends p.Stranded (p.call 1 fn [v, w]) :=
    call_one_ends h hhosts fn [v, w] hwithin (by simp [hv, hw])
  have hfails (s : Declaration) (hs : s ∈ p.declarations) :
      Ends p.Stranded (p.call 1 (.declared s.qualifiedName) [v, w]) := by
    obtain ⟨e, he⟩ := enter_two h hs (p.call 0) v w
    rw [call_declared hs, he]
    exact .failed e
  rcases local_or_meaning hscope hfn with hwithin | ⟨-, hmeaning⟩
  · exact hends hwithin
  · cases hmeaning with
    | binding hv =>
        exact hends (Value.within_of_held_eq_nil (he.bindings _ (mem_of_lookup_eq_some hv)))
    | builtin _ hv =>
        exact hends (Value.within_of_held_eq_nil (he.builtins _ (mem_of_lookup_eq_some hv)))
    | sibling _ _ hs => exact hfails _ (sibling?_eq_some_iff.1 hs).1
    | stranger _ _ hs => exact hfails _ (stranger?_eq_some_iff.1 hs).1

/-- A built-in name stands for what can be called without nesting. -/
private theorem runtime_call_ends (hscope : ScopeWithin p.Stranded scope)
    (hx : x ∈ ({} : Vocabulary).runtimeNames) (hfn : p.resolve d scope x = .ok fn)
    (hargs : ∀ a ∈ args, a.Within p.Stranded) : Ends p.Stranded (p.call 1 fn args) :=
  call_one_ends h hhosts fn args (h.resolve_runtime_within he hscope hx hfn) hargs

private theorem member_ends {raw con : Text} {slot : Term} {info : Explicitness}
    (hscope : ScopeWithin p.Stranded scope) (hraw : (scope.lookup raw).isSome)
    (hslot : Ends p.Stranded (p.eval d (p.call 1) scope slot)) :
    Ends p.Stranded (p.eval d (p.call 1) scope (.app (.var ({} : Vocabulary).just)
      (.app (.app (.var con) (.var raw) .explicit) slot info) .explicit)) := by
  have hbuilt : Ends p.Stranded (p.eval d (p.call 1) scope
      (.app (.app (.var con) (.var raw) .explicit) slot info)) := by
    refine eval_app_app_var_ends (eval_local_ends hscope hraw) hslot ?_
    intro fn hfn v w hv hw
    exact build_ends h he hhosts hscope hfn hv hw
  refine eval_app_var_ends hbuilt fun fn hfn v hv => ?_
  have hjust : ({} : Vocabulary).just ∈ ({} : Vocabulary).runtimeNames := by
    simp [Vocabulary.runtimeNames]
  exact runtime_call_ends h he hhosts hscope hjust hfn (List.forall_mem_singleton.2 hv)

/-- The predicate of `refine` can be evaluated. -/
private theorem predicate_ends {predicate : Term} (hrefine : p.IsRefine d)
    (hfree : ∀ x ∈ predicate.freeNames, ¬ p.Declares x) (hscope : ScopeWithin p.Stranded scope) :
    Ends p.Stranded (p.eval d (p.call 1) scope predicate) := by
  have hbodies : BodiesFollow .none p.Stranded (fun x => x ∈ predicate.freeNames) p p d (p.call 1)
      (p.call 1) := by
    refine ⟨rfl, call_one_ends h hhosts, fun x hx => meaningOf_ends fun v => ?_⟩
    exact hrefine.predicate_within h he (hfree x hx)
  exact evalOnto_follows hbodies hscope (fun x => Or.inl) .nil

private theorem alternatives_end (r : Refinement) {raw witness : Text} {decision : Value Host}
    (hscope : ScopeWithin p.Stranded scope) (hraw : (scope.lookup raw).isSome)
    (hdecision : decision.Within p.Stranded) :
    Ends p.Stranded (p.evalAlternatives d (p.call 1) scope decision
      (r.alternatives {} raw witness)) := by
  apply evalAlternatives_follows rfl hdecision
  simp only [Refinement.alternatives, List.forall_mem_cons]
  refine ⟨fun bound hm hbound => ?_, fun bound hm hbound => ?_, List.forall_mem_nil _⟩
  · have hraw' : ((bound ++ scope).lookup raw).isSome := by
      rw [lookup_append_isSome, hraw, Bool.or_true]
    refine member_ends h he hhosts (hbound.append hscope) hraw' ?_
    cases herased : r.shape.pair.erased with
    | true => exact .value Value.within_erased
    | false =>
        apply eval_local_ends (hbound.append hscope)
        rw [lookup_append_isSome, Bool.or_eq_true, Pattern.match?_binds hm, herased]
        simp [Pattern.binds, Pattern.bindsAll]
  · apply eval_var_ends
    intro v hv
    exact h.resolve_runtime_within he (hbound.append hscope) (by simp [Vocabulary.runtimeNames]) hv

/-- `refine` calls nothing that nests further. -/
private theorem enter_refine_ends (hrefine : p.IsRefine d)
    (hargs : ∀ a ∈ args, a.Within p.Stranded) :
    Ends p.Stranded (p.enter (p.call 1) d args) := by
  obtain ⟨r, predicate, reserved, hparts, hfree⟩ := id hrefine
  apply enter_one_ends hparts.arguments hargs
  intro v hv
  rw [hparts.body, Refinement.refineBody_eq, eval_case]
  have hscope : ScopeWithin p.Stranded [(Refinement.rawBinder {} reserved, v)] :=
    List.forall_mem_singleton.2 hv
  have hraw : (([(Refinement.rawBinder {} reserved, v)] : Scope Host).lookup
      (Refinement.rawBinder {} reserved)).isSome := by
    rw [List.lookup_cons_self]
    rfl
  have hpredicate := predicate_ends h he hhosts hrefine hfree hscope
  refine (eval_app_app_var_ends hpredicate (eval_local_ends hscope hraw) ?_).bind ?_
  · intro fn hfn P w hP hw
    have hdecide : ({} : Vocabulary).decide ∈ ({} : Vocabulary).runtimeNames := by
      simp [Vocabulary.runtimeNames]
    exact runtime_call_ends h he hhosts hscope hdecide hfn (by simp [hP, hw])
  · intro decision hdecision
    exact alternatives_end h he hhosts r hscope hraw hdecision

/-- The name of `refine` in a conversion. -/
private theorem refine_call_ends (hscope : ScopeWithin p.Stranded scope)
    (hfn : p.resolve d scope ({} : Vocabulary).refineName = .ok fn) (hv : v.Within p.Stranded) :
    Ends p.Stranded (p.call 2 fn [v]) := by
  have hargs : ∀ a ∈ [v], a.Within p.Stranded := List.forall_mem_singleton.2 hv
  rcases local_or_meaning hscope hfn with hwithin | ⟨-, hmeaning⟩
  · exact call_two_ends h hhosts fn [v] hwithin hargs
  · by_cases hunbound : p.environment.bindings.lookup ({} : Vocabulary).refineName = none
    · obtain ⟨s, hs, rfl⟩ := h.sibling_of_meaning (List.mem_cons_self ..) hunbound hmeaning
      obtain ⟨hmem, -, hname, -⟩ := sibling?_eq_some_iff.1 hs
      rw [call_declared hmem]
      refine enter_refine_ends h he hhosts ((h.companion s hmem).resolve_right ?_) hargs
      intro hconversion
      obtain ⟨kind, hkind⟩ := hconversion.name
      exact conversion_ne_refineName kind (hkind.symm.trans hname)
    · exact call_two_ends h hhosts fn [v] (hmeaning.within_of_bound he hunbound) hargs

/-- A conversion calls the host and `refine`, or it is stranded. -/
private theorem enter_conversion_ends (hconversion : IsConversion d)
    (hargs : ∀ a ∈ args, a.Within p.Stranded) : Ends p.Stranded (p.enter (p.call 2) d args) := by
  by_cases hunbound : p.environment.bindings.lookup d.name = none
  · obtain ⟨e, he⟩ := enter_stranded h hconversion hunbound (p.call 2) args
    rw [he]
    exact .failed e
  · obtain ⟨r, kind, reserved, hparts⟩ := hconversion
    apply enter_one_ends hparts.arguments hargs
    intro v hv
    rw [hparts.body, Refinement.refinedLiteral, ← hparts.name]
    have hscope : ScopeWithin p.Stranded
        [(Refinement.literalBinder {} (({} : Vocabulary).conversion kind) reserved, v)] :=
      List.forall_mem_singleton.2 hv
    refine eval_app_var_ends (eval_app_var_ends (eval_app_var_ends ?_ ?_) ?_) ?_
    · apply eval_local_ends hscope
      rw [List.lookup_cons_self]
      rfl
    · intro fn hfn w hw
      refine call_two_ends h hhosts fn [w] ?_ (List.forall_mem_singleton.2 hw)
      rcases local_or_meaning hscope hfn with hwithin | ⟨-, hmeaning⟩
      · exact hwithin
      · exact hmeaning.within_of_bound he hunbound
    · intro fn hfn w hw
      exact refine_call_ends h he hhosts hscope hfn hw
    · intro fn hfn w hw
      refine call_two_ends h hhosts fn [w] ?_ (List.forall_mem_singleton.2 hw)
      exact h.resolve_runtime_within he hscope (by simp [Vocabulary.runtimeNames]) hfn

/-- Three calls of companions are nested at most. -/
theorem call_three_ends (hd : d ∈ p.declarations) (hargs : ∀ a ∈ args, a.Within p.Stranded) :
    Ends p.Stranded (p.call 3 (.declared d.qualifiedName) args) := by
  rcases h.companion d hd with hrefine | hconversion
  · have hends := enter_refine_ends h he hhosts hrefine hargs
    rw [← call_declared hd] at hends
    rw [call_add (Ends.ne_exhausted hends) 1]
    exact hends
  · rw [call_declared hd]
    exact enter_conversion_ends h he hhosts hconversion hargs

end

/-- The companions of types with names make up such a program. -/
private theorem isDerived_of_link {Host : Type} {e : Environment Host}
    (hvocabulary : e.vocabulary = {})
    {batch : List (Strategy × TypeDescriptor)}
    (haccepted : ∀ b ∈ batch, ∃ r, b.2.refinement = .ok r) (hnames : ∀ b ∈ batch, b.2.name ≠ "")
    {visibility : Visibility} {ds : List Declaration}
    (hds : deriveAll {} visibility batch = .ok ds) {p : Program Host} (hp : link e ds = .ok p)
    (hpredicates : ∀ b ∈ batch, ∀ r predicate, b.2.refinement = .ok r →
      r.predicate = .ok predicate → ∀ x ∈ predicate.freeNames, ∀ d ∈ ds, d.qualifiedName ≠ x) :
    p.IsDerived := by
  obtain ⟨rfl, rfl⟩ := link_eq_ok hp
  have hparts : ∀ d ∈ p.declarations,
      (∃ a, d.space = some a ∧ a ≠ "") ∧ (p.IsRefine d ∨ IsConversion d) := by
    intro d hd
    obtain ⟨b, hb, r, hr, hcompanion⟩ := companion_of_mem_deriveAll haccepted hds hd
    have hname : r.descriptor.name ≠ "" := by
      rw [(TypeDescriptor.refinement_eq_ok hr).1]
      exact hnames b hb
    rcases hcompanion with hrefine | ⟨kind, hconversion⟩
    · obtain ⟨predicate, reserved, hrefine⟩ := Refinement.refineDeclaration_parts hrefine
      refine ⟨⟨_, hrefine.space, hname⟩, Or.inl ⟨r, predicate, reserved, hrefine, ?_⟩⟩
      rintro x hx ⟨s, hs, hqualified⟩
      exact hpredicates b hb r predicate hr hrefine.predicate_eq x hx s hs hqualified
    · obtain ⟨reserved, hconversion⟩ := Refinement.literalDeclaration_parts hconversion
      exact ⟨⟨_, hconversion.space, hname⟩, Or.inr ⟨r, kind, reserved, hconversion⟩⟩
  exact ⟨hvocabulary, fun d hd => (hparts d hd).1, fun d hd => (hparts d hd).2⟩

theorem restrained_sampleHost {p : Program SampleHost}
    (h : p.environment.decide = .decideByApplying) : p.Restrained := by
  intro f args
  change (∃ result, SampleHost.run f args = .done result) ∨ f = p.environment.decide ∧
    ∃ predicate value next, args = [predicate, value] ∧
      SampleHost.run f args = .call predicate [value] next ∧
      ∀ answer, ∃ result, next answer = .done result
  unfold SampleHost.run
  split
  case h_2 => split <;> exact Or.inl ⟨_, rfl⟩
  case h_11 predicate value =>
    split
    · exact Or.inr ⟨h.symm, predicate, value, _, rfl, rfl, fun answer => ⟨_, rfl⟩⟩
    · exact Or.inl ⟨_, rfl⟩
  all_goals exact Or.inl ⟨_, rfl⟩

/-- Integers whose predicate is a conversion of literals of the type itself. -/
def echo : TypeDescriptor where
  name := "Echo"
  params := []
  constructors := [{
    name := "MkEcho"
    args := [
      .named ⟨some "value", .unrestricted, .explicit, .var "Integer"⟩,
      .named ⟨some "proof", .unrestricted, .explicit,
        .app (.var "fromDouble") (.var "value") .explicit⟩] }]
  location := none

/-- A host that converts integers and no doubles. -/
def echoHost : Environment SampleHost where
  decide := .decideByApplying
  bindings := [("MkEcho", .host (.con "MkEcho" none)), ("fromInteger", .host .identity)]
  vocabulary := {}

end Program
end RefinementTypes
