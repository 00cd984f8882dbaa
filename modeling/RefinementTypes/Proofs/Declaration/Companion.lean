import RefinementTypes.Declaration.Companion
import RefinementTypes.Proofs.Checked
import RefinementTypes.Proofs.Shape.Refinement

/-!
# The parts of a companion

One law for each companion of a refinement type: it is there, and what its name, its binders and its
body are. The companions of an accepted descriptor are all there: `refine`, and the conversion of
each literal kind of the strategy.
-/

namespace RefinementTypes
namespace Refinement

variable {d : TypeDescriptor} {r : Refinement} {v : Vocabulary} {visibility : Visibility}

private theorem parameterBinders_isOk (h : d.refinement = .ok r) :
    ∃ bs, r.parameterBinders = .ok bs := by
  apply mapM_isOk
  intro p hp
  obtain ⟨t, ht⟩ := paramType_isOk h hp
  refine ⟨⟨some p.name, .zero, .implicit, t⟩, ?_⟩
  rw [ht]
  rfl

/-- The names that are reserved, given the two terms of the shape. -/
theorem reservedNames_eq {valueType predicate : Term} (hV : r.valueType = .ok valueType)
    (hP : r.predicate = .ok predicate) (v : Vocabulary) :
    r.reservedNames v = .ok (r.descriptor.paramNames ++ [r.descriptor.name, r.constructor.name] ++
      valueType.freeNames ++ predicate.freeNames ++ [v.refineName, v.decide]) := by
  rw [reservedNames, hV, hP]
  rfl

private theorem reservedNames_isOk (h : d.refinement = .ok r) (v : Vocabulary) :
    ∃ reserved, r.reservedNames v = .ok reserved := by
  obtain ⟨valueType, hV⟩ := valueType_isOk h
  obtain ⟨predicate, hP⟩ := predicate_isOk h
  exact ⟨_, reservedNames_eq hV hP v⟩

/-- What is reserved whatever the value type is. -/
structure Reserves (r : Refinement) (v : Vocabulary) (predicate : Term) (reserved : List Text) :
    Prop where
  params : r.descriptor.paramNames ⊆ reserved
  typeName : r.descriptor.name ∈ reserved
  constructor : r.constructor.name ∈ reserved
  predicate : predicate.freeNames ⊆ reserved
  refineName : v.refineName ∈ reserved
  decide : v.decide ∈ reserved

theorem reserves {predicate : Term} {reserved : List Text} (hP : r.predicate = .ok predicate)
    (hR : r.reservedNames v = .ok reserved) : r.Reserves v predicate reserved := by
  cases hV : r.valueType with
  | error e =>
      rw [reservedNames, hV] at hR
      cases hR
  | ok valueType =>
      rw [reservedNames_eq hV hP] at hR
      cases hR
      constructor
      case params => intro x hx; simp [hx]
      case predicate => intro x hx; simp [hx]
      all_goals simp

/-- The parts of `refine` that run. -/
structure RefineParts (r : Refinement) (v : Vocabulary) (refine : Declaration) (predicate : Term)
    (reserved : List Text) : Prop where
  predicate_eq : r.predicate = .ok predicate
  reservedNames_eq : r.reservedNames v = .ok reserved
  name : refine.name = v.refineName
  space : refine.space = some r.descriptor.name
  arguments : refine.arguments = [rawBinder v reserved]
  body : refine.body =
    r.refineBody v predicate (rawBinder v reserved) (witnessBinder v reserved)

theorem refineDeclaration_parts {refine : Declaration}
    (h : r.refineDeclaration v visibility = .ok refine) :
    ∃ predicate reserved, r.RefineParts v refine predicate reserved := by
  obtain ⟨valueType, _, h⟩ := bind_eq_ok h
  obtain ⟨predicate, hP, h⟩ := bind_eq_ok h
  obtain ⟨reserved, hR, h⟩ := bind_eq_ok h
  obtain ⟨bs, _, h⟩ := bind_eq_ok h
  cases h
  exact ⟨predicate, reserved, hP, hR, rfl, rfl, rfl, rfl⟩

theorem refineDeclaration_signature {refine : Declaration}
    (h : r.refineDeclaration v visibility = .ok refine) :
    ∃ valueType reserved bs, r.valueType = .ok valueType ∧ r.reservedNames v = .ok reserved ∧
      r.parameterBinders = .ok bs ∧ refine.signature = Term.piAll
        (bs ++ [⟨some (rawBinder v reserved), .unrestricted, .explicit, valueType⟩])
        (.app (.var v.maybeType) r.descriptor.appliedType .explicit) := by
  obtain ⟨valueType, hV, h⟩ := bind_eq_ok h
  obtain ⟨predicate, _, h⟩ := bind_eq_ok h
  obtain ⟨reserved, hR, h⟩ := bind_eq_ok h
  obtain ⟨bs, hB, h⟩ := bind_eq_ok h
  cases h
  exact ⟨valueType, reserved, bs, hV, hR, hB, rfl⟩

theorem refineDeclaration_isOk (h : d.refinement = .ok r) (v : Vocabulary)
    (visibility : Visibility) : ∃ refine, r.refineDeclaration v visibility = .ok refine := by
  obtain ⟨valueType, hV⟩ := valueType_isOk h
  obtain ⟨predicate, hP⟩ := predicate_isOk h
  obtain ⟨params, hB⟩ := parameterBinders_isOk h
  rw [refineDeclaration, hV, hP, reservedNames_eq hV hP, hB]
  exact ⟨_, rfl⟩

/-- The parts of a literal conversion that run. -/
structure ConversionParts (r : Refinement) (v : Vocabulary) (kind : LiteralKind)
    (conversion : Declaration) (reserved : List Text) : Prop where
  reservedNames_eq : r.reservedNames v = .ok reserved
  name : conversion.name = (v.conversion kind).function
  space : conversion.space = some r.descriptor.name
  arguments : conversion.arguments = [literalBinder v (v.conversion kind) reserved]
  body : conversion.body = .app (.var v.fromJust)
    (refinedLiteral v (v.conversion kind) (literalBinder v (v.conversion kind) reserved)) .explicit

theorem literalDeclaration_parts {kind : LiteralKind} {conversion : Declaration}
    (h : r.literalDeclaration kind v visibility = .ok conversion) :
    ∃ reserved, r.ConversionParts v kind conversion reserved := by
  obtain ⟨reserved, hR, h⟩ := bind_eq_ok h
  obtain ⟨bs, _, h⟩ := bind_eq_ok h
  cases h
  exact ⟨reserved, hR, rfl, rfl, rfl, rfl⟩

theorem literalDeclaration_signature {kind : LiteralKind} {conversion : Declaration}
    (h : r.literalDeclaration kind v visibility = .ok conversion) :
    ∃ reserved bs evidence, r.reservedNames v = .ok reserved ∧ r.parameterBinders = .ok bs ∧
      conversion.signature = Term.piAll
        (bs ++ [⟨some (literalBinder v (v.conversion kind) reserved), .unrestricted, .explicit,
          .var (v.conversion kind).literalType⟩, ⟨none, .zero, .autoImplicit, evidence⟩])
        r.descriptor.appliedType := by
  obtain ⟨reserved, hR, h⟩ := bind_eq_ok h
  obtain ⟨bs, hB, h⟩ := bind_eq_ok h
  cases h
  exact ⟨reserved, bs, _, hR, hB, rfl⟩

theorem literalDeclaration_isOk (h : d.refinement = .ok r) (kind : LiteralKind) (v : Vocabulary)
    (visibility : Visibility) :
    ∃ conversion, r.literalDeclaration kind v visibility = .ok conversion := by
  obtain ⟨reserved, hR⟩ := reservedNames_isOk h v
  obtain ⟨params, hB⟩ := parameterBinders_isOk h
  rw [literalDeclaration, hR, hB]
  exact ⟨_, rfl⟩

end Refinement

section
variable {d : TypeDescriptor} {r : Refinement}

theorem derive_isOk (h : d.refinement = .ok r) (strategy : Strategy) (v : Vocabulary)
    (visibility : Visibility) :
    ∃ companions refine conversions, derive strategy d v visibility = .ok companions ∧
      r.refineDeclaration v visibility = .ok refine ∧
      (strategy.literals.mapM fun kind => r.literalDeclaration kind v visibility) =
        .ok conversions ∧
      companions = refine :: conversions := by
  obtain ⟨refine, hrefine⟩ := Refinement.refineDeclaration_isOk h v visibility
  have hkinds : ∀ kind ∈ strategy.literals,
      ∃ conversion, r.literalDeclaration kind v visibility = .ok conversion :=
    fun kind _ => Refinement.literalDeclaration_isOk h kind v visibility
  obtain ⟨conversions, hconversions⟩ := mapM_isOk hkinds
  refine ⟨refine :: conversions, refine, conversions, ?_, hrefine, hconversions, rfl⟩
  simp only [derive, h, Refinement.companions, hrefine, hconversions]
  rfl

section
variable {strategy : Strategy} {v : Vocabulary} {visibility : Visibility}
  {companions : List Declaration}

theorem derive_eq_ok (h : d.refinement = .ok r)
    (hderive : derive strategy d v visibility = .ok companions) :
    ∃ refine conversions, r.refineDeclaration v visibility = .ok refine ∧
      (strategy.literals.mapM fun kind => r.literalDeclaration kind v visibility) =
        .ok conversions ∧
      companions = refine :: conversions := by
  obtain ⟨_, refine, conversions, hok, hrefine, hconversions, rfl⟩ :=
    derive_isOk h strategy v visibility
  cases hderive.symm.trans hok
  exact ⟨refine, conversions, hrefine, hconversions, rfl⟩

theorem companion_of_mem_derive (h : d.refinement = .ok r)
    (hderive : derive strategy d v visibility = .ok companions) {c : Declaration}
    (hc : c ∈ companions) :
    r.refineDeclaration v visibility = .ok c ∨
      ∃ kind, r.literalDeclaration kind v visibility = .ok c := by
  obtain ⟨refine, conversions, hrefine, hconversions, rfl⟩ := derive_eq_ok h hderive
  rcases List.mem_cons.1 hc with rfl | hc
  · exact Or.inl hrefine
  · obtain ⟨kind, _, hconversion⟩ := exists_of_mem_mapM hconversions hc
    exact Or.inr ⟨kind, hconversion⟩

end

end

end RefinementTypes
