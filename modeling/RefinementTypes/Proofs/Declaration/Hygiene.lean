import RefinementTypes.Proofs.Declaration.Companion
import RefinementTypes.Proofs.Term.Fresh

/-!
# Hygiene of generated binders

A generated binder is fresh for the reserved names, which cover every name that a companion refers
to under it but five names of the vocabulary. It captures a name exactly when it happens to take one
of those five.
-/

namespace RefinementTypes
namespace Refinement

/-- The binders of `refine` capture none of the names that it refers to under them. -/
structure RefineHygiene (r : Refinement) (v : Vocabulary) (predicate : Term) (raw witness : Text) :
    Prop where
  raw_maybeType : raw ≠ v.maybeType
  raw_decide : raw ≠ v.decide
  raw_just : raw ≠ v.just
  raw_nothing : raw ≠ v.nothing
  raw_typeName : raw ≠ r.descriptor.name
  raw_constructor : raw ≠ r.constructor.name
  raw_params : raw ∉ r.descriptor.paramNames
  raw_predicate : raw ∉ predicate.freeNames
  witness_raw : witness ≠ raw
  witness_just : witness ≠ v.just
  witness_constructor : witness ≠ r.constructor.name

/-- The binder of a literal conversion captures none of the names that it refers to under it. -/
structure ConversionHygiene (r : Refinement) (v : Vocabulary) (kind : LiteralKind)
    (literal : Text) : Prop where
  isJust : literal ≠ v.isJust
  fromJust : literal ≠ v.fromJust
  refineName : literal ≠ v.refineName
  function : literal ≠ (v.conversion kind).function
  typeName : literal ≠ r.descriptor.name
  params : literal ∉ r.descriptor.paramNames

/-- The first free name for a binder of `refine` is a name of the vocabulary under it. -/
def RefineClash (v : Vocabulary) (reserved : List Text) : Prop :=
  FirstFree v.rawName reserved v.maybeType ∨ FirstFree v.rawName reserved v.just ∨
    FirstFree v.rawName reserved v.nothing ∨
    FirstFree v.witnessName (rawBinder v reserved :: reserved) v.just

/-- The first free name for the literal is a name of the vocabulary under it. -/
def ConversionClash (v : Vocabulary) (kind : LiteralKind) (reserved : List Text) : Prop :=
  let taken := reserved ++ [(v.conversion kind).function, (v.conversion kind).literalType]
  FirstFree v.literalName taken v.isJust ∨ FirstFree v.literalName taken v.fromJust

instance (v : Vocabulary) (reserved : List Text) : Decidable (RefineClash v reserved) :=
  inferInstanceAs (Decidable (_ ∨ _ ∨ _ ∨ _))

instance (v : Vocabulary) (kind : LiteralKind) (reserved : List Text) :
    Decidable (ConversionClash v kind reserved) :=
  inferInstanceAs (Decidable (_ ∨ _))

variable {d : TypeDescriptor} {r : Refinement} {v : Vocabulary} {predicate : Term}
  {reserved : List Text}

theorem rawBinder_ne {x : Text} (h : x ∈ reserved) : rawBinder v reserved ≠ x := freshName_ne h

theorem witnessBinder_ne {x : Text} (h : x ∈ reserved) : witnessBinder v reserved ≠ x :=
  freshName_ne (List.mem_cons_of_mem _ h)

theorem witnessBinder_ne_rawBinder (v : Vocabulary) (reserved : List Text) :
    witnessBinder v reserved ≠ rawBinder v reserved :=
  freshName_ne (List.mem_cons_self ..)

theorem literalBinder_ne {conversion : Conversion} {x : Text} (h : x ∈ reserved) :
    literalBinder v conversion reserved ≠ x :=
  freshName_ne (List.mem_append_left _ h)

theorem literalBinder_ne_function (v : Vocabulary) (conversion : Conversion)
    (reserved : List Text) : literalBinder v conversion reserved ≠ conversion.function :=
  freshName_ne (List.mem_append_right _ (List.mem_cons_self ..))

private theorem refineHygiene_iff (h : r.Reserves v predicate reserved) :
    r.RefineHygiene v predicate (rawBinder v reserved) (witnessBinder v reserved) ↔
      ¬ RefineClash v reserved := by
  simp only [RefineClash, ← freshName_eq_iff, not_or]
  constructor
  · intro hy
    exact ⟨hy.raw_maybeType, hy.raw_just, hy.raw_nothing, hy.witness_just⟩
  · rintro ⟨hmaybe, hjust, hnothing, hwitness⟩
    exact {
      raw_maybeType := hmaybe
      raw_decide := rawBinder_ne h.decide
      raw_just := hjust
      raw_nothing := hnothing
      raw_typeName := rawBinder_ne h.typeName
      raw_constructor := rawBinder_ne h.constructor
      raw_params := fun hm => rawBinder_ne (h.params hm) rfl
      raw_predicate := fun hm => rawBinder_ne (h.predicate hm) rfl
      witness_raw := witnessBinder_ne_rawBinder v reserved
      witness_just := hwitness
      witness_constructor := witnessBinder_ne h.constructor
    }

private theorem conversionHygiene_iff {kind : LiteralKind} (h : r.Reserves v predicate reserved) :
    r.ConversionHygiene v kind (literalBinder v (v.conversion kind) reserved) ↔
      ¬ ConversionClash v kind reserved := by
  simp only [ConversionClash, ← freshName_eq_iff, not_or]
  constructor
  · intro hy
    exact ⟨hy.isJust, hy.fromJust⟩
  · rintro ⟨hisJust, hfromJust⟩
    exact {
      isJust := hisJust
      fromJust := hfromJust
      refineName := literalBinder_ne h.refineName
      function := literalBinder_ne_function v _ reserved
      typeName := literalBinder_ne h.typeName
      params := fun hm => literalBinder_ne (h.params hm) rfl
    }

/-- Every accepted descriptor has its companions, and their binders capture no name exactly when
none of them takes a name of the vocabulary that is not reserved. -/
theorem companions_hygienic_iff (h : d.refinement = .ok r) (v : Vocabulary) (kind : LiteralKind)
    (visibility : Visibility) :
    ∃ predicate reserved refine conversion raw witness literal,
      r.predicate = .ok predicate ∧ r.reservedNames v = .ok reserved ∧
      r.refineDeclaration v visibility = .ok refine ∧ refine.arguments = [raw] ∧
      refine.body = r.refineBody v predicate raw witness ∧
      r.literalDeclaration kind v visibility = .ok conversion ∧ conversion.arguments = [literal] ∧
      conversion.body = .app (.var v.fromJust) (refinedLiteral v (v.conversion kind) literal)
        .explicit ∧
      (r.RefineHygiene v predicate raw witness ↔ ¬ RefineClash v reserved) ∧
      (r.ConversionHygiene v kind literal ↔ ¬ ConversionClash v kind reserved) := by
  obtain ⟨refine, hrefine⟩ := refineDeclaration_isOk h v visibility
  obtain ⟨conversion, hconversion⟩ := literalDeclaration_isOk h kind v visibility
  obtain ⟨predicate, reserved, hr⟩ := refineDeclaration_parts hrefine
  obtain ⟨reserved', hc⟩ := literalDeclaration_parts hconversion
  obtain rfl : reserved = reserved' := Except.ok.inj (hr.reservedNames_eq.symm.trans
    hc.reservedNames_eq)
  have hres := reserves hr.predicate_eq hr.reservedNames_eq
  exact ⟨predicate, reserved, refine, conversion, _, _, _, hr.predicate_eq, hr.reservedNames_eq,
    hrefine, hr.arguments, hr.body, hconversion, hc.arguments, hc.body, refineHygiene_iff hres,
    conversionHygiene_iff hres⟩

/-- Strings that are not empty, with evidence that is kept at run time. -/
def nickname : TypeDescriptor where
  name := "Nickname"
  params := []
  constructors := [{
    name := "MkNickname"
    args := [
      .named ⟨some "value", .unrestricted, .explicit, .var "String"⟩,
      .named ⟨some "proof", .unrestricted, .explicit,
        .app (.var "NonEmpty") (.var "value") .explicit⟩] }]
  location := none

theorem nickname_companions_hygienic :
    ∃ r predicate refine conversion raw witness literal, nickname.refinement = .ok r ∧
      r.predicate = .ok predicate ∧ r.refineDeclaration {} .exported = .ok refine ∧
      refine.arguments = [raw] ∧
      r.literalDeclaration .string {} .exported = .ok conversion ∧
      conversion.arguments = [literal] ∧ r.RefineHygiene {} predicate raw witness ∧
      r.ConversionHygiene {} .string literal := by
  have hnickname : nickname.refinement = .ok _ := rfl
  obtain ⟨predicate, reserved, refine, conversion, raw, witness, literal, hpredicate, hreserved,
    hrefine, hraw, _, hconversion, hliteral, _, hyr, hyc⟩ :=
    companions_hygienic_iff hnickname {} .string .exported
  cases hreserved
  exact ⟨_, predicate, refine, conversion, raw, witness, literal, hnickname, hpredicate, hrefine,
    hraw, hconversion, hliteral, hyr.2 (by decide), hyc.2 (by decide)⟩

/-- A raw binder by the name of the constructor of optional values hides that constructor. -/
theorem refine_captures_just :
    ∃ r predicate refine raw witness, nickname.refinement = .ok r ∧ r.predicate = .ok predicate ∧
      r.refineDeclaration { rawName := "Just" } .exported = .ok refine ∧
      refine.arguments = [raw] ∧
      refine.body = r.refineBody { rawName := "Just" } predicate raw witness ∧
      ¬ r.RefineHygiene { rawName := "Just" } predicate raw witness :=
  ⟨_, _, _, "Just", "prf", rfl, rfl, rfl, rfl, rfl, fun h => h.raw_just rfl⟩

end Refinement
end RefinementTypes
