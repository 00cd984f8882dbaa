import RefinementTypes.Proofs.Declaration.Companion
import RefinementTypes.Proofs.Evaluation.Refine

/-!
# What a literal conversion computes

A call of a literal conversion has the host convert the literal, has `refine` of the same type check
what comes out, and takes the member out of the answer. Its own name means the conversion of the
host, and the name of `refine` means the declaration beside it.
-/

namespace RefinementTypes

/-- An environment in which literal conversions run: the built-in names are different, the host
binds neither them nor the name of `refine`, which is none of them, and converts the literals; the
generated binder does not hide the function that takes an optional value apart. -/
structure ConversionReady {Host : Type} (e : Environment Host) (kind : LiteralKind)
    (reserved : List Text) (convert : Value Host) : Prop where
  runtimeNames : e.vocabulary.runtimeNames.Nodup
  unbound : ∀ x ∈ e.vocabulary.runtimeNames, e.bindings.lookup x = none
  refineUnbound : e.bindings.lookup e.vocabulary.refineName = none
  refineName : e.vocabulary.refineName ∉ e.vocabulary.runtimeNames
  literalBinder : Refinement.literalBinder e.vocabulary (e.vocabulary.conversion kind) reserved ≠
    e.vocabulary.fromJust
  conversion : e.bindings.lookup (e.vocabulary.conversion kind).function = some convert
  callable : convert.isCallable = true

namespace Program
open Refinement
variable {Host : Type} [HostFunctions Host] {p : Program Host} {d refine : Declaration}
  {kind : LiteralKind} {reserved : List Text} {convert literal : Value Host} {binder : Text}

private theorem eval_refinedLiteral {call : Caller Host}
    (h : ConversionReady p.environment kind reserved convert)
    (hname : d.name = (p.environment.vocabulary.conversion kind).function)
    (hbinder : binder ≠ p.environment.vocabulary.refineName)
    (hfunction : binder ≠ (p.environment.vocabulary.conversion kind).function)
    (hmem : refine ∈ p.declarations) (hspace : refine.space = d.space)
    (hrefine : refine.name = p.environment.vocabulary.refineName) :
    p.eval d call [(binder, literal)] (refinedLiteral p.environment.vocabulary
        (p.environment.vocabulary.conversion kind) binder) =
      (do let converted ← call convert [literal]
          call (.declared refine.qualifiedName) [converted]) := by
  have hdiffer : refine.name ≠ d.name := by
    rw [hrefine, hname]
    intro he
    have hbound := h.conversion
    rw [← he, h.refineUnbound] at hbound
    cases hbound
  have hchecks : p.resolve d [(binder, literal)] p.environment.vocabulary.refineName =
      .ok (.declared refine.qualifiedName) :=
    resolve_sibling (lookup_cons_of_ne hbinder.symm) h.refineUnbound
      (Environment.builtins_eq_none h.refineName) (hrefine ▸ sibling?_name hmem hspace hdiffer)
  have hconverts : p.resolve d [(binder, literal)]
      (p.environment.vocabulary.conversion kind).function = .ok convert :=
    resolve_binding (lookup_cons_of_ne hfunction.symm) h.conversion
  have hliteral : p.eval d call [(binder, literal)] (.var binder) = .ok literal :=
    eval_var (resolve_local List.lookup_cons_self)
  rw [refinedLiteral, eval_app_var hchecks rfl, eval_app_var hconverts h.callable, hliteral]
  rfl

/-- Every accepted descriptor has its companions, and a call of a literal conversion among them is
the conversion of the host, then `refine` of the same type, then the member if there is one. A
literal that either rejects, or for which there is no member, is rejected under the call; any other
failure stays as it is. -/
theorem call_conversion {descriptor : TypeDescriptor} {r : Refinement}
    (hd : descriptor.refinement = .ok r) {strategy : Strategy} (hkind : kind ∈ strategy.literals)
    (e : Environment Host) (visibility : Visibility) :
    ∃ companions refine conversion reserved,
      derive strategy descriptor e.vocabulary visibility = .ok companions ∧
      r.refineDeclaration e.vocabulary visibility = .ok refine ∧
      r.literalDeclaration kind e.vocabulary visibility = .ok conversion ∧
      r.reservedNames e.vocabulary = .ok reserved ∧
      ∀ convert, ConversionReady e kind reserved convert →
        ∀ ds p, companions ⊆ ds → link e ds = .ok p →
          ∀ n literal, p.call (n + 1) (.declared conversion.qualifiedName) [literal] =
            Outcome.mapRejection
              (conversion.qualifiedName ++ "(" ++ literal.display ++ "): ")
              (do let converted ← p.call n convert [literal]
                  let option ← p.call n (.declared refine.qualifiedName) [converted]
                  match option with
                  | .just member => .ok member
                  | _ => .error (.failed
                      (.rejected "literal does not satisfy the refinement predicate" {}))) := by
  obtain ⟨companions, refine, conversions, hderive, hrefine, hconversions, rfl⟩ :=
    derive_isOk hd strategy e.vocabulary visibility
  obtain ⟨conversion, hconversion⟩ := literalDeclaration_isOk hd kind e.vocabulary visibility
  obtain ⟨predicate, _, hr⟩ := refineDeclaration_parts hrefine
  obtain ⟨reserved, hc⟩ := literalDeclaration_parts hconversion
  refine ⟨_, refine, conversion, reserved, hderive, hrefine, hconversion, hc.reservedNames_eq, ?_⟩
  intro convert hready ds p hsub hlink n literal
  obtain ⟨rfl, rfl⟩ := link_eq_ok hlink
  have hmemr : refine ∈ p.declarations := hsub (List.mem_cons_self ..)
  have hmemc : conversion ∈ p.declarations :=
    hsub (List.mem_cons_of_mem _ (mem_of_mapM_eq_ok hconversions hkind hconversion))
  have hres := reserves hr.predicate_eq hc.reservedNames_eq
  have hunwraps : p.resolve conversion
      [(literalBinder p.environment.vocabulary (p.environment.vocabulary.conversion kind) reserved,
        literal)] p.environment.vocabulary.fromJust = .ok .unwrap :=
    resolve_runtimeName hready.runtimeNames hready.unbound
      (lookup_cons_of_ne hready.literalBinder.symm) (by simp [Environment.builtins])
  rw [call_declared hmemc, enter_one hc.arguments, hc.body, eval_app_var hunwraps rfl,
    eval_refinedLiteral hready hc.name (literalBinder_ne hres.refineName)
      (literalBinder_ne_function _ _ _) hmemr (hr.space.trans hc.space.symm) hr.name, bind_assoc]
  congr 1
  refine bind_congr fun converted => bind_congr fun option => ?_
  rw [call_unwrap]
  cases option <;> rfl

theorem call_conversion_nickname :
    ∃ (r : Refinement) (companions : List Declaration) (conversion : Declaration)
      (p : Program SampleHost),
      nickname.refinement = .ok r ∧
      derive .stringLiterals nickname nicknameHost.vocabulary .exported = .ok companions ∧
      r.literalDeclaration .string nicknameHost.vocabulary .exported = .ok conversion ∧
      link nicknameHost companions = .ok p ∧
      p.call 2 (.declared conversion.qualifiedName) [.str "Ada"] =
        .ok (.record "MkNickname" [.str "Ada", .record "evidence" [.str "Ada"]]) ∧
      p.call 2 (.declared conversion.qualifiedName) [.str ""] =
        .error (.failed (.rejected
          "Nickname.fromString(''): literal does not satisfy the refinement predicate" {})) := by
  have hnickname : nickname.refinement = .ok _ := rfl
  have hkind : LiteralKind.string ∈ Strategy.stringLiterals.literals := List.mem_singleton_self _
  obtain ⟨companions, refine, conversion, reserved, hderive, hrefine, hconversion, hreserved,
    hcall⟩ := call_conversion hnickname hkind nicknameHost .exported
  have hlink : link nicknameHost companions = .ok ⟨nicknameHost, companions, by
    cases hderive; decide⟩ := by
    cases hderive
    rfl
  refine ⟨_, companions, conversion, _, hnickname, hderive, hconversion, hlink, ?_⟩
  cases hderive
  cases hrefine
  cases hconversion
  cases hreserved
  have hrun := hcall (.host .identity)
    { runtimeNames := by decide
      unbound := by decide
      refineUnbound := by decide
      refineName := by decide
      literalBinder := by decide
      conversion := rfl
      callable := rfl }
    _ _ (List.Subset.refl _) hlink 1
  exact ⟨(hrun (.str "Ada")).trans rfl, (hrun (.str "")).trans rfl⟩

end Program
end RefinementTypes
