import RefinementTypes.Evaluation.SampleHost
import RefinementTypes.Proofs.Declaration.Hygiene
import RefinementTypes.Proofs.Evaluation.Linking

/-!
# What `refine` computes

A call of `refine` asks the decision procedure of the host about the predicate and the value, and
answers with the member that the constructor of the host builds, with nothing, or with a failure.
The predicate is evaluated as if there were no local values.
-/

namespace RefinementTypes

namespace Pattern
variable {Host : Type} {v : Vocabulary}

private theorem match?_eq_none {name : Text} {args : List Pattern} {c : DataConstructor}
    {value : Value Host} (hc : v.dataConstructors.lookup name = some c)
    (hf : c.fields? value = none) : (Pattern.con name args).match? v value = .ok none := by
  rw [match?, hc]
  simp only [hf]

private theorem match?_yes (h : v.runtimeNames.Nodup) {q : Pattern} {witness : Value Host}
    {bound : Scope Host} (hq : q.match? v witness = .ok (some bound)) :
    (Pattern.con v.yes [q]).match? v (.yes witness) = .ok (some bound) := by
  rw [match?, Vocabulary.dataConstructors_yes h]
  simp [DataConstructor.fields?, matchAll?, hq]
  rfl

private theorem match?_no (h : v.runtimeNames.Nodup) (contra : Value Host) :
    (Pattern.con v.no [.wild]).match? v (.no contra) = .ok (some []) := by
  rw [match?, Vocabulary.dataConstructors_no h]
  simp [DataConstructor.fields?, matchAll?, match?]
  rfl

end Pattern

namespace Refinement

/-- The alternatives of the body of `refine`, one for each decision. -/
def alternatives (r : Refinement) (v : Vocabulary) (raw witness : Text) : List (Pattern × Term) :=
  [(.con v.yes [if r.shape.pair.erased then .wild else .bind witness],
    .app (.var v.just)
      (.app (.app (.var r.constructor.name) (.var raw) .explicit)
        (if r.shape.pair.erased then .hole else .var witness) r.shape.pair.proofInfo) .explicit),
   (.con v.no [.wild], .var v.nothing)]

theorem refineBody_eq (r : Refinement) (v : Vocabulary) (predicate : Term) (raw witness : Text) :
    r.refineBody v predicate raw witness =
      .case (.app (.app (.var v.decide) predicate .explicit) (.var raw) .explicit)
        (r.alternatives v raw witness) := rfl

/-- What a decision about a value is turned into: the member built from the value and its evidence,
or nothing. What is no decision is refused. -/
def answer {Host : Type} [HostFunctions Host] (r : Refinement) (call : Program.Caller Host)
    (con value : Value Host) : Value Host → Outcome (Value Host)
  | .yes witness => do
      let member ← call con [value, if r.shape.pair.erased then .erased else witness]
      return .just member
  | .no _ => .ok .nothing
  | decision => Outcome.fail (.noAlternative decision.display)

end Refinement

/-- An environment in which `refine` runs: the built-in names are different and not bound by the
host, no generated binder hides the makers of optional values, and the host has the constructor. -/
structure RefineReady {Host : Type} (e : Environment Host) (r : Refinement) (reserved : List Text)
    (con : Value Host) : Prop where
  runtimeNames : e.vocabulary.runtimeNames.Nodup
  unbound : ∀ x ∈ e.vocabulary.runtimeNames, e.bindings.lookup x = none
  rawBinder : Refinement.rawBinder e.vocabulary reserved ∉
    [e.vocabulary.just, e.vocabulary.nothing]
  witnessBinder : Refinement.witnessBinder e.vocabulary reserved ∉
    [e.vocabulary.just, e.vocabulary.nothing]
  constructor : e.bindings.lookup r.constructor.name = some con
  callable : con.isCallable = true

namespace Program
open Refinement
variable {Host : Type} [HostFunctions Host] {p : Program Host} {d : Declaration} {r : Refinement}
  {predicate : Term} {reserved : List Text} {con value : Value Host} {call : Caller Host}
  {raw witness : Text}

/-- The predicate does not see the raw value. -/
private theorem eval_decision (h : RefineReady p.environment r reserved con)
    (hdecide : raw ≠ p.environment.vocabulary.decide) (hfree : raw ∉ predicate.freeNames) :
    p.eval d call [(raw, value)] (.app (.app (.var p.environment.vocabulary.decide) predicate
        .explicit) (.var raw) .explicit) =
      (do let P ← p.eval d call [] predicate
          call (.host p.environment.decide) [P, value]) := by
  have hasks : p.resolve d [(raw, value)] p.environment.vocabulary.decide =
      .ok (.host p.environment.decide) :=
    resolve_runtimeName h.runtimeNames h.unbound (lookup_cons_of_ne hdecide.symm)
      (by simp [Environment.builtins])
  have hpredicate : p.eval d call [(raw, value)] predicate = p.eval d call [] predicate := by
    apply eval_congr
    intro x hx
    exact lookup_cons_of_ne fun he => hfree (he ▸ hx)
  have hvalue : p.eval d call [(raw, value)] (.var raw) = .ok value :=
    eval_var (resolve_local List.lookup_cons_self)
  rw [eval_app_app_var hasks rfl, hpredicate]
  simp only [hvalue]
  rfl

/-- The member is built from what the scope says of the raw value and of the evidence. -/
private theorem eval_member {n : Nat} {scope : Scope Host} {slot : Term} {info : Explicitness}
    {evidence : Value Host} (h : RefineReady p.environment r reserved con)
    (hjust : scope.lookup p.environment.vocabulary.just = none)
    (hcon : scope.lookup r.constructor.name = none) (hraw : scope.lookup raw = some value)
    (hslot : p.eval d (p.call n) scope slot = .ok evidence) :
    p.eval d (p.call n) scope (.app (.var p.environment.vocabulary.just)
        (.app (.app (.var r.constructor.name) (.var raw) .explicit) slot info) .explicit) =
      (do let member ← p.call n con [value, evidence]
          return .just member) := by
  have hmaker : p.resolve d scope p.environment.vocabulary.just = .ok (.maker .just) :=
    resolve_runtimeName h.runtimeNames h.unbound hjust (by simp [Environment.builtins])
  have hbuilds := resolve_binding (d := d) hcon h.constructor
  have hvalue : p.eval d (p.call n) scope (.var raw) = .ok value := eval_var (resolve_local hraw)
  rw [eval_app_var hmaker rfl, eval_app_app_var hbuilds h.callable]
  simp only [hvalue, hslot, call_maker]
  rfl

/-- The alternatives turn a decision into an answer. -/
private theorem evalAlternatives_answer (d : Declaration) (n : Nat) (value : Value Host)
    (h : RefineReady p.environment r reserved con) (hrjust : raw ≠ p.environment.vocabulary.just)
    (hrnothing : raw ≠ p.environment.vocabulary.nothing) (hrcon : raw ≠ r.constructor.name)
    (hwraw : witness ≠ raw) (hwjust : witness ≠ p.environment.vocabulary.just)
    (hwcon : witness ≠ r.constructor.name) (decision : Value Host) :
    p.evalAlternatives d (p.call n) [(raw, value)] decision
        (r.alternatives p.environment.vocabulary raw witness) =
      r.answer (p.call n) con value decision := by
  have hyes := Vocabulary.dataConstructors_yes h.runtimeNames
  have hno := Vocabulary.dataConstructors_no h.runtimeNames
  have hlocal {x : Text} (hx : raw ≠ x) : ([(raw, value)] : Scope Host).lookup x = none :=
    lookup_cons_of_ne hx.symm
  rw [alternatives]
  cases decision with
  | yes evidence =>
      rw [answer]
      cases r.shape.pair.erased with
      | true =>
          have hm : Pattern.match? p.environment.vocabulary .wild evidence = .ok (some []) := by
            rw [Pattern.match?]
          have hslot : p.eval d (p.call n) [(raw, value)] .hole = .ok .erased := by
            rw [eval, evalOnto]
            rfl
          simp only [if_true]
          rw [evalAlternatives_of_match (Pattern.match?_yes h.runtimeNames hm), List.nil_append]
          exact eval_member h (hlocal hrjust) (hlocal hrcon) List.lookup_cons_self hslot
      | false =>
          have hm : Pattern.match? p.environment.vocabulary (.bind witness) evidence =
              .ok (some [(witness, evidence)]) := by
            rw [Pattern.match?]
          have hraw : ([(witness, evidence), (raw, value)] : Scope Host).lookup raw =
              some value := by
            rw [lookup_cons_of_ne hwraw.symm, List.lookup_cons_self]
          have hslot : p.eval d (p.call n) [(witness, evidence), (raw, value)] (.var witness) =
              .ok evidence := eval_var (resolve_local List.lookup_cons_self)
          simp only [Bool.false_eq_true, if_false]
          rw [evalAlternatives_of_match (Pattern.match?_yes h.runtimeNames hm),
            List.singleton_append]
          exact eval_member h ((lookup_cons_of_ne hwjust.symm).trans (hlocal hrjust))
            ((lookup_cons_of_ne hwcon.symm).trans (hlocal hrcon)) hraw hslot
  | no contra =>
      have hnothing : p.resolve d [(raw, value)] p.environment.vocabulary.nothing = .ok .nothing :=
        resolve_runtimeName h.runtimeNames h.unbound (hlocal hrnothing)
          (by simp [Environment.builtins])
      rw [evalAlternatives_of_no_match (Pattern.match?_eq_none hyes rfl),
        evalAlternatives_of_match (Pattern.match?_no h.runtimeNames contra)]
      exact eval_var hnothing
  | _ =>
      rw [evalAlternatives_of_no_match (Pattern.match?_eq_none hyes rfl),
        evalAlternatives_of_no_match (Pattern.match?_eq_none hno rfl), evalAlternatives]
      rfl

/-- The body of `refine`, evaluated for a raw value. -/
private theorem eval_refineBody {n : Nat} (h : RefineReady p.environment r reserved con)
    (hres : r.Reserves p.environment.vocabulary predicate reserved)
    (hraw : raw = rawBinder p.environment.vocabulary reserved)
    (hwitness : witness = witnessBinder p.environment.vocabulary reserved) :
    p.eval d (p.call n) [(raw, value)]
        (r.refineBody p.environment.vocabulary predicate raw witness) =
      (do let P ← p.eval d (p.call n) [] predicate
          let decision ← p.call n (.host p.environment.decide) [P, value]
          r.answer (p.call n) con value decision) := by
  have hrfree {x : Text} (hx : x ∈ reserved) : raw ≠ x := hraw ▸ rawBinder_ne hx
  have hwfree {x : Text} (hx : x ∈ reserved) : witness ≠ x := hwitness ▸ witnessBinder_ne hx
  have hwraw : witness ≠ raw := hwitness ▸ hraw ▸ witnessBinder_ne_rawBinder _ reserved
  have hrmakers := hraw ▸ h.rawBinder
  have hwmakers := hwitness ▸ h.witnessBinder
  simp only [List.mem_cons, List.not_mem_nil, or_false, not_or] at hrmakers hwmakers
  have hanswer := evalAlternatives_answer d n value h hrmakers.1 hrmakers.2
    (hrfree hres.constructor) hwraw hwmakers.1 (hwfree hres.constructor)
  rw [refineBody_eq, eval_case, eval_decision h (hrfree hres.decide)
    fun hx => hrfree (hres.predicate hx) rfl]
  simp only [hanswer, bind_assoc]

/-- Every accepted descriptor has its `refine`, and a call of it is the decision of the host about
the predicate and the value, answered with the member that the constructor of the host builds, with
nothing, or with a failure. The rejection of a literal on the way is reported under the call. -/
theorem call_refine {descriptor : TypeDescriptor} (hd : descriptor.refinement = .ok r)
    (e : Environment Host) (visibility : Visibility) :
    ∃ refine predicate reserved, r.refineDeclaration e.vocabulary visibility = .ok refine ∧
      r.predicate = .ok predicate ∧ r.reservedNames e.vocabulary = .ok reserved ∧
      ∀ con, RefineReady e r reserved con → ∀ ds p, refine ∈ ds → link e ds = .ok p →
        ∀ n value, p.call (n + 1) (.declared refine.qualifiedName) [value] =
          Outcome.mapRejection (refine.qualifiedName ++ "(" ++ value.display ++ "): ")
            (do let P ← p.eval refine (p.call n) [] predicate
                let decision ← p.call n (.host e.decide) [P, value]
                r.answer (p.call n) con value decision) := by
  obtain ⟨refine, hrefine⟩ := refineDeclaration_isOk hd e.vocabulary visibility
  obtain ⟨predicate, reserved, hparts⟩ := refineDeclaration_parts hrefine
  refine ⟨refine, predicate, reserved, hrefine, hparts.predicate_eq, hparts.reservedNames_eq, ?_⟩
  intro con hready ds p hmem hlink n value
  obtain ⟨rfl, rfl⟩ := link_eq_ok hlink
  have hres := reserves hparts.predicate_eq hparts.reservedNames_eq
  rw [call_declared hmem, enter_one hparts.arguments, hparts.body,
    eval_refineBody hready hres rfl rfl]

/-- The host of nicknames: the member is a record, and a literal is the string itself. -/
def nicknameHost : Environment SampleHost where
  decide := .decideByApplying
  bindings := [("MkNickname", .host (.con "MkNickname" none)), ("NonEmpty", .host .nonEmpty),
    ("fromString", .host .identity)]
  vocabulary := {}

theorem call_refine_nickname :
    ∃ (r : Refinement) (refine : Declaration) (p : Program SampleHost),
      nickname.refinement = .ok r ∧
      r.refineDeclaration nicknameHost.vocabulary .exported = .ok refine ∧
      link nicknameHost [refine] = .ok p ∧
      p.call 1 (.declared refine.qualifiedName) [.str "Ada"] =
        .ok (.just (.record "MkNickname" [.str "Ada", .record "evidence" [.str "Ada"]])) ∧
      p.call 1 (.declared refine.qualifiedName) [.str ""] = .ok .nothing := by
  have hnickname : nickname.refinement = .ok _ := rfl
  obtain ⟨refine, predicate, reserved, hrefine, hpredicate, hreserved, hcall⟩ :=
    call_refine hnickname nicknameHost .exported
  have hlink : link nicknameHost [refine] = .ok ⟨nicknameHost, [refine], by simp⟩ := rfl
  refine ⟨_, refine, _, hnickname, hrefine, hlink, ?_⟩
  cases hrefine
  cases hpredicate
  cases hreserved
  have hrun := hcall (.host (.con "MkNickname" none))
    { runtimeNames := by decide
      unbound := by decide
      rawBinder := by decide
      witnessBinder := by decide
      constructor := rfl
      callable := rfl }
    _ _ (List.mem_singleton_self _) hlink 0
  exact ⟨(hrun (.str "Ada")).trans rfl, (hrun (.str "")).trans rfl⟩

end Program
end RefinementTypes
