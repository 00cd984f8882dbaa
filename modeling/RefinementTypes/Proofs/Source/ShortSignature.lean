import RefinementTypes.Proofs.Application
import RefinementTypes.Proofs.Declaration.Hygiene
import RefinementTypes.Proofs.Source.ExplicitChain
import RefinementTypes.Proofs.Source.Writable

/-!
# Short signatures

Without its implicit binders the signature of a companion is a plain arrow. The binders of the
parameters are implicit, and so is the evidence that a literal conversion asks for. One explicit
binder is left, and its name goes as well: it is fresh for every name in the result.
-/

namespace RefinementTypes

namespace Term

/-- The type of functions of one explicit argument, which their result does not mention. -/
def arrow (domain result : Term) : Term := pi none .unrestricted .explicit domain result

private theorem stripImplicits_piAll {bs rest : List Binder} (h : ∀ b ∈ bs, b.info ≠ .explicit)
    (result : Term) :
    (piAll (bs ++ rest) result).stripImplicits = (piAll rest result).stripImplicits := by
  induction bs with
  | nil => rfl
  | cons b bs ih =>
      rw [List.forall_mem_cons] at h
      rw [List.cons_append, piAll_cons, stripImplicits_of_not_explicit h.1, ih h.2]

/-- An explicit binder stays, without a name that nothing behind it refers to. -/
private theorem stripImplicits_of_not_mem {x : Text} {result stripped : Term}
    (hresult : result.stripImplicits = stripped) (hx : x ∉ stripped.freeNames) (domain : Term) :
    (pi (some x) .unrestricted .explicit domain result).stripImplicits = domain.arrow stripped := by
  subst hresult
  rw [stripImplicits_explicit, arrow]
  simp [hx]

private theorem stripImplicits_applyAll (name : Text) (args : List Term) (info : Explicitness) :
    ((var name).applyAll args info).stripImplicits = (var name).applyAll args info := by
  cases args using List.reverseRecOn with
  | nil => rfl
  | append_singleton args a =>
      rw [applyAll_append_singleton]
      rfl

private theorem freeNames_applyAll (fn : Term) (args : List Term) (info : Explicitness) :
    (fn.applyAll args info).freeNames = fn.freeNames ++ args.flatMap freeNames := by
  induction args generalizing fn with
  | nil => simp [applyAll]
  | cons a args ih =>
      rw [applyAll_cons, ih, freeNames, List.flatMap_cons, List.append_assoc]

end Term

private theorem TypeDescriptor.stripImplicits_appliedType (d : TypeDescriptor) :
    d.appliedType.stripImplicits = d.appliedType :=
  Term.stripImplicits_applyAll ..

private theorem TypeDescriptor.freeNames_appliedType (d : TypeDescriptor) :
    d.appliedType.freeNames = d.name :: d.paramNames := by
  simp [appliedType, Term.freeNames_applyAll, Term.freeNames, List.flatMap_map]

namespace Refinement
variable {d : TypeDescriptor} {r : Refinement} {v : Vocabulary} {visibility : Visibility}

private theorem parameterBinders_not_explicit {bs : List Binder} (h : r.parameterBinders = .ok bs) :
    ∀ b ∈ bs, b.info ≠ .explicit := by
  intro b hb
  obtain ⟨p, _, hp⟩ := exists_of_mem_mapM h hb
  obtain ⟨type, _, hp⟩ := bind_eq_ok hp
  cases hp
  simp

private theorem appliedType_reserved {reserved : List Text} (h : r.reservedNames v = .ok reserved) :
    r.descriptor.appliedType.freeNames ⊆ reserved := by
  have hR := h
  obtain ⟨valueType, _, h⟩ := bind_eq_ok h
  obtain ⟨predicate, hP, _⟩ := bind_eq_ok h
  have hreserves := reserves hP hR
  rw [TypeDescriptor.freeNames_appliedType, List.cons_subset]
  exact ⟨hreserves.typeName, hreserves.params⟩

/-- The raw value is the only explicit argument of `refine`. Its binder is its usual name with a
number behind it at most, so it cannot be the name of optional values if that begins otherwise. -/
private theorem stripImplicits_refine {refine : Declaration}
    (h : r.refineDeclaration v visibility = .ok refine) (hv : ¬ v.rawName <+: v.maybeType) :
    ∃ valueType, r.valueType = .ok valueType ∧ refine.signature.stripImplicits =
      valueType.arrow (.app (.var v.maybeType) r.descriptor.appliedType .explicit) := by
  obtain ⟨valueType, reserved, bs, hV, hR, hbs, hsignature⟩ := refineDeclaration_signature h
  have hmaybe : rawBinder v reserved ≠ v.maybeType := by
    intro he
    apply hv
    rw [← he]
    exact prefix_freshName ..
  have htype : rawBinder v reserved ∉ r.descriptor.appliedType.freeNames := by
    intro hm
    exact rawBinder_ne (appliedType_reserved hR hm) rfl
  have hbinder : rawBinder v reserved ∉
      (Term.app (.var v.maybeType) r.descriptor.appliedType .explicit).freeNames := by
    simp [Term.freeNames, hmaybe, htype]
  refine ⟨valueType, hV, ?_⟩
  rw [hsignature, Term.stripImplicits_piAll (parameterBinders_not_explicit hbs)]
  exact Term.stripImplicits_of_not_mem rfl hbinder valueType

/-- The literal is the only explicit argument of its conversion. The evidence mentions it, but is
dropped before its name is looked for. -/
private theorem stripImplicits_conversion {kind : LiteralKind} {conversion : Declaration}
    (h : r.literalDeclaration kind v visibility = .ok conversion) :
    conversion.signature.stripImplicits =
      (Term.var (v.conversion kind).literalType).arrow r.descriptor.appliedType := by
  obtain ⟨reserved, bs, evidence, hR, hbs, hsignature⟩ := literalDeclaration_signature h
  have hbinder : literalBinder v (v.conversion kind) reserved ∉
      r.descriptor.appliedType.freeNames := by
    intro hm
    exact literalBinder_ne (appliedType_reserved hR hm) rfl
  rw [hsignature, Term.stripImplicits_piAll (parameterBinders_not_explicit hbs)]
  apply Term.stripImplicits_of_not_mem _ hbinder
  change (Term.pi none .zero .autoImplicit evidence r.descriptor.appliedType).stripImplicits = _
  rw [Term.stripImplicits_of_not_explicit (by decide), TypeDescriptor.stripImplicits_appliedType]

end Refinement

namespace Source

private theorem term_applyAll (p : Position) (f : Text) (xs : List Text) :
    term p ((Term.var f).applyAll (xs.map .var) .explicit) =
      .ok (parenthesize (p = .argument && !xs.isEmpty) (Text.join " " (f :: xs))) := by
  cases xs with
  | nil => simp [Term.applyAll, term, parenthesize, Text.join]
  | cons x xs =>
      have htexts : (((x :: xs).map .var).map fun a => (a, .explicit)).mapM argumentText =
          .ok (x :: xs) := by
        rw [mapM_eq_ok_iff, List.map_map, List.forall₂_map_left_iff]
        exact List.forall₂_same.2 fun y _ => rfl
      rw [Term.applyAll_eq_applySpine, term_applySpine (Term.isHead_var f) (by simp), htexts,
        List.isEmpty_cons, Bool.not_false, Bool.and_true]
      rfl

private theorem shortSignature_of_stripImplicits {c : Declaration} {domain result : Term}
    {domainText resultText : Text} (h : c.signature.stripImplicits = domain.arrow result)
    (hdomain : term .domain domain = .ok domainText) (hresult : term .top result = .ok resultText) :
    shortSignature c = .ok (c.name ++ " : " ++ domainText ++ " -> " ++ resultText) := by
  have harrow : term .top (domain.arrow result) = .ok (domainText ++ " -> " ++ resultText) := by
    have hplain : isPlainDomain none .unrestricted .explicit = true := rfl
    rw [Term.arrow, term, hplain, if_pos rfl, hdomain, hresult]
    rfl
  rw [shortSignature, signatureOf, h, harrow]
  simp only [List.append_assoc]
  rfl

end Source

/-- The text of the type applied to its parameters. -/
def TypeDescriptor.appliedText (d : TypeDescriptor) : Text :=
  Text.join " " (d.name :: d.paramNames)

private theorem TypeDescriptor.term_appliedType (d : TypeDescriptor) (p : Source.Position) :
    Source.term p d.appliedType =
      .ok (Source.parenthesize (p = .argument && !d.paramNames.isEmpty) d.appliedText) :=
  Source.term_applyAll ..

private theorem TypeDescriptor.term_optional (d : TypeDescriptor) (name : Text) :
    Source.term .top (.app (.var name) d.appliedType .explicit) =
      .ok (name ++ " " ++ Source.parenthesize (!d.paramNames.isEmpty) d.appliedText) := by
  rw [Source.term, Source.argumentPosition, term_appliedType]
  rfl

namespace Source
variable {d : TypeDescriptor} {r : Refinement} {v : Vocabulary} {visibility : Visibility}

private theorem shortSignature_refine {refine : Declaration}
    (h : r.refineDeclaration v visibility = .ok refine) (hv : ¬ v.rawName <+: v.maybeType)
    {valueType : Term} (hvalueType : r.valueType = .ok valueType) {valueText : Text}
    (hvalueText : term .domain valueType = .ok valueText) :
    shortSignature refine = .ok (v.refineName ++ " : " ++ valueText ++ " -> " ++
      (v.maybeType ++ " " ++ parenthesize (!r.descriptor.paramNames.isEmpty)
        r.descriptor.appliedText)) := by
  obtain ⟨_, hV, hstrip⟩ := Refinement.stripImplicits_refine h hv
  cases hvalueType.symm.trans hV
  obtain ⟨_, _, hparts⟩ := Refinement.refineDeclaration_parts h
  rw [shortSignature_of_stripImplicits hstrip hvalueText (r.descriptor.term_optional v.maybeType),
    hparts.name]

private theorem shortSignature_conversion {kind : LiteralKind} {conversion : Declaration}
    (h : r.literalDeclaration kind v visibility = .ok conversion) :
    shortSignature conversion = .ok ((v.conversion kind).function ++ " : " ++
      (v.conversion kind).literalType ++ " -> " ++ r.descriptor.appliedText) := by
  have hstrip := Refinement.stripImplicits_conversion h
  obtain ⟨_, hparts⟩ := Refinement.literalDeclaration_parts h
  rw [shortSignature_of_stripImplicits hstrip rfl (r.descriptor.term_appliedType .top), hparts.name]
  rfl

/-- In the short signature of a companion nothing is left but its explicit argument and its result.
For `refine` they are the value type, in parentheses where an arrow asks for them, and the optional
values of the type; for a literal conversion they are the type of the literal and the type. -/
theorem shortSignature_companions (h : d.refinement = .ok r)
    (hfinite : ∀ x ∈ doubles r.shape.pair.valueType.leaves, x.isFinite = true)
    (visibility : Visibility) :
    ∃ refine valueType valueText optionText,
      r.refineDeclaration {} visibility = .ok refine ∧ r.valueType = .ok valueType ∧
      term .domain valueType = .ok valueText ∧
      term .top (.app (.var "Maybe") d.appliedType .explicit) = .ok optionText ∧
      optionText = "Maybe " ++ parenthesize (!d.paramNames.isEmpty) d.appliedText ∧
      refine.signature.stripImplicits =
        valueType.arrow (.app (.var "Maybe") d.appliedType .explicit) ∧
      shortSignature refine = .ok ("refine : " ++ valueText ++ " -> " ++ optionText) ∧
      term .top d.appliedType = .ok d.appliedText ∧
      ∀ kind, ∃ conversion, r.literalDeclaration kind {} visibility = .ok conversion ∧
        conversion.signature.stripImplicits =
          (Term.var (Vocabulary.conversion {} kind).literalType).arrow d.appliedType ∧
        shortSignature conversion = .ok ((Vocabulary.conversion {} kind).function ++ " : " ++
          (Vocabulary.conversion {} kind).literalType ++ " -> " ++ d.appliedText) := by
  obtain ⟨rfl, _⟩ := TypeDescriptor.refinement_eq_ok h
  have hv : ¬ Vocabulary.rawName {} <+: Vocabulary.maybeType {} := by decide
  obtain ⟨refine, hrefine⟩ := Refinement.refineDeclaration_isOk h {} visibility
  obtain ⟨valueType, hV, hstrip⟩ := Refinement.stripImplicits_refine hrefine hv
  rw [← Term.doubles_instantiate hV] at hfinite
  obtain ⟨valueText, hvalueText⟩ := (writes_term .domain valueType).isOk hfinite
  refine ⟨refine, valueType, valueText, _, hrefine, hV, hvalueText,
    r.descriptor.term_optional "Maybe", rfl, hstrip, shortSignature_refine hrefine hv hV hvalueText,
    r.descriptor.term_appliedType .top, ?_⟩
  intro kind
  obtain ⟨conversion, hconversion⟩ := Refinement.literalDeclaration_isOk h kind {} visibility
  exact ⟨conversion, hconversion, Refinement.stripImplicits_conversion hconversion,
    shortSignature_conversion hconversion⟩

/-- Functions to doubles on the numbers below the only parameter. -/
def samples : Term :=
  .pi none .unrestricted .explicit (.app (.var "Fin") (.param 0) .explicit) (.var "Double")

/-- Bounded functions; their parameter goes by the usual name of a raw value. -/
def sampling : TypeDescriptor where
  name := "Sampling"
  params := [⟨"v", .var "Nat"⟩]
  constructors := [{
    name := "MkSampling"
    args := [
      .param 0,
      .named ⟨some "value", .unrestricted, .explicit, samples⟩,
      .named ⟨some "proof", .zero, .explicit,
        .app (.var "Bounded") (.var "value") .explicit⟩] }]
  location := none

theorem shortSignature_companions_sampling :
    ∃ r refine conversion, sampling.refinement = .ok r ∧
      (∀ x ∈ doubles r.shape.pair.valueType.leaves, x.isFinite = true) ∧
      r.refineDeclaration {} .exported = .ok refine ∧
      shortSignature refine = .ok "refine : (Fin v -> Double) -> Maybe (Sampling v)" ∧
      r.literalDeclaration .float {} .exported = .ok conversion ∧
      shortSignature conversion = .ok "fromDouble : Double -> Sampling v" := by
  have hsampling : sampling.refinement = .ok _ := rfl
  have hfinite : ∀ x ∈ doubles samples.leaves, x.isFinite = true := by decide
  obtain ⟨refine, valueType, valueText, optionText, hrefine, hV, hvalue, _, rfl, _, hshort, _,
    hconversions⟩ := shortSignature_companions hsampling hfinite .exported
  obtain ⟨conversion, hconversion, _, hliteral⟩ := hconversions .float
  cases hV
  cases hvalue
  exact ⟨_, refine, conversion, hsampling, hfinite, hrefine, hshort, hconversion, hliteral⟩

end Source
end RefinementTypes
