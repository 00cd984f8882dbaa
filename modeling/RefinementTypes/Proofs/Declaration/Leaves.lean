import RefinementTypes.Proofs.Declaration.Telescope
import RefinementTypes.Proofs.Shape.Refinement
import RefinementTypes.Proofs.Term.Leaves
import RefinementTypes.Proofs.Text.Whole

/-!
# Leaves of companions

What companions are made from. A leaf of a companion is a name of the vocabulary, a fresh name, a
name of the descriptor, or a leaf of one of the terms of the descriptor with its parameters named.
So no companion refers to a parameter by its index, and a derivation that gets past the shape of the
descriptor cannot fail.
-/

namespace RefinementTypes

/-- The names and the leaves of the terms that a declaration is written with in its namespace. -/
def Declaration.leaves (d : Declaration) : List Leaf :=
  .name d.name :: d.arguments.map .name ++ d.signature.leaves ++ d.body.leaves

def Vocabulary.names (v : Vocabulary) : List Text :=
  [v.maybeType, v.just, v.nothing, v.isJust, v.fromJust, v.decide, v.yes, v.no, v.refineName,
   v.rawName, v.literalName, v.witnessName, v.integerConversion, v.integerType, v.floatConversion,
   v.floatType, v.stringConversion, v.stringType]

private theorem Vocabulary.conversion_mem_names (v : Vocabulary) (kind : LiteralKind) :
    (v.conversion kind).function ∈ v.names ∧ (v.conversion kind).literalType ∈ v.names := by
  cases kind <;> simp [conversion, names]

private theorem TypeDescriptor.leaves_appliedType (d : TypeDescriptor) :
    d.appliedType.leaves = .name d.name :: d.paramNames.map .name := by
  simp [appliedType, Term.leaves, List.flatMap_map, ← List.map_eq_flatMap]

namespace Refinement
variable {d : TypeDescriptor} {r : Refinement} {v : Vocabulary} {visibility : Visibility}

/-- The terms that companions take from a descriptor. -/
def terms (r : Refinement) : List Term :=
  r.descriptor.params.map TypeParameter.type ++
    [r.shape.pair.valueType, r.shape.pair.predicate]

/-- The names that companions take from a descriptor. -/
def names (r : Refinement) : List Text :=
  r.descriptor.name :: r.constructor.name :: r.descriptor.paramNames

/-- Where a leaf of a companion comes from. -/
inductive Origin (r : Refinement) (v : Vocabulary) : Leaf → Prop
  | vocabulary {x : Text} (h : x ∈ v.names) : Origin r v (.name x)
  | fresh {base : Text} (h : base ∈ v.names) (taken : List Text) :
      Origin r v (.name (freshName base taken))
  | descriptor {x : Text} (h : x ∈ r.names) : Origin r v (.name x)
  | term {t u : Term} (ht : t ∈ r.terms) (hu : t.instantiate r.descriptor.paramNames = .ok u)
      {leaf : Leaf} (h : leaf ∈ u.leaves) : Origin r v leaf

private theorem origin_paramName {x : Text} (h : x ∈ r.descriptor.paramNames) :
    r.Origin v (.name x) :=
  .descriptor (by simp [names, h])

private theorem origin_parameterBinders {bs : List Binder} (h : r.parameterBinders = .ok bs)
    {b : Binder}
    (hb : b ∈ bs) : ∀ leaf ∈ b.leaves, r.Origin v leaf := by
  obtain ⟨p, hp, hname, htype⟩ := exists_of_mem_right (parameterBinders_eq_ok h) hb
  have hparam : p.name ∈ r.descriptor.paramNames := List.mem_map.2 ⟨p, hp, rfl⟩
  have hterm : p.type ∈ r.terms := List.mem_append_left _ (List.mem_map.2 ⟨p, hp, rfl⟩)
  simp only [Binder.leaves, hname, Option.toList_some, List.map_cons, List.map_nil,
    List.cons_append, List.nil_append, List.forall_mem_cons]
  exact ⟨origin_paramName hparam, fun leaf hleaf => .term hterm htype hleaf⟩

private theorem leaves_refineBody (r : Refinement) (v : Vocabulary) (predicate : Term)
    (raw witness : Text) :
    (r.refineBody v predicate raw witness).leaves =
      .name v.decide :: predicate.leaves ++ [.name raw, .name v.yes] ++
        (if r.shape.pair.erased then [] else [.name witness]) ++
        [.name v.just, .name r.constructor.name, .name raw] ++
        (if r.shape.pair.erased then [] else [.name witness]) ++ [.name v.no, .name v.nothing] := by
  cases h : r.shape.pair.erased <;>
    simp [refineBody, h, Term.leaves, Term.leavesIn, Pattern.names, Pattern.namesAll]

private theorem origin_refine {refine : Declaration}
    (h : r.refineDeclaration v visibility = .ok refine) :
    ∀ leaf ∈ refine.leaves, r.Origin v leaf := by
  obtain ⟨valueType, hV, h⟩ := bind_eq_ok h
  obtain ⟨predicate, hP, h⟩ := bind_eq_ok h
  obtain ⟨reserved, _, h⟩ := bind_eq_ok h
  obtain ⟨bs, hbs, h⟩ := bind_eq_ok h
  cases h
  have hvocabulary : ∀ x ∈ v.names, r.Origin v (.name x) := fun x hx => .vocabulary hx
  have htype : r.Origin v (.name r.descriptor.name) := .descriptor (by simp [names])
  have hconstructor : r.Origin v (.name r.constructor.name) := .descriptor (by simp [names])
  have hraw : r.Origin v (.name (rawBinder v reserved)) := .fresh (by simp [Vocabulary.names]) _
  have hwitness : r.Origin v (.name (witnessBinder v reserved)) :=
    .fresh (by simp [Vocabulary.names]) _
  have hbinders : ∀ l, ∀ b ∈ bs, l ∈ b.leaves → r.Origin v l := fun l b hb hl =>
    origin_parameterBinders hbs hb l hl
  have hvalueType : ∀ l ∈ valueType.leaves, r.Origin v l := fun l hl =>
    .term (by simp [terms]) hV hl
  have hpredicate : ∀ l ∈ predicate.leaves, r.Origin v l := fun l hl =>
    .term (by simp [terms]) hP hl
  simp only [Vocabulary.names, List.forall_mem_cons] at hvocabulary
  simp only [Declaration.leaves, leaves_refineBody, Term.leaves_piAll, Term.leaves,
    TypeDescriptor.leaves_appliedType, List.flatMap_append, List.flatMap_cons, Binder.leaves,
    List.forall_mem_append, List.forall_mem_cons]
  simp only [hvocabulary, htype, hconstructor, hraw, List.map_cons, List.map_nil, List.mem_cons,
    List.not_mem_nil, or_false, forall_eq, and_self, List.mem_flatMap, forall_exists_index, and_imp,
    Option.toList_some, true_and, List.flatMap_nil, IsEmpty.forall_iff, implies_true, and_true,
    List.mem_map, forall_apply_eq_imp_iff₂, List.mem_ite_nil_left, Bool.not_eq_true,
    forall_eq_apply_imp_iff, and_self_right]
  exact ⟨⟨⟨hbinders, hvalueType⟩, fun x hx => origin_paramName hx⟩, hpredicate, fun _ => hwitness⟩

private theorem origin_conversion {kind : LiteralKind} {conversion : Declaration}
    (h : r.literalDeclaration kind v visibility = .ok conversion) :
    ∀ leaf ∈ conversion.leaves, r.Origin v leaf := by
  obtain ⟨reserved, _, h⟩ := bind_eq_ok h
  obtain ⟨bs, hbs, h⟩ := bind_eq_ok h
  cases h
  have hvocabulary : ∀ x ∈ v.names, r.Origin v (.name x) := fun x hx => .vocabulary hx
  obtain ⟨hfunction, hliteralType⟩ := v.conversion_mem_names kind
  have htype : r.Origin v (.name r.descriptor.name) := .descriptor (by simp [names])
  have hliteral : r.Origin v (.name (literalBinder v (v.conversion kind) reserved)) :=
    .fresh (by simp [Vocabulary.names]) _
  have hbinders : ∀ l, ∀ b ∈ bs, l ∈ b.leaves → r.Origin v l := fun l b hb hl =>
    origin_parameterBinders hbs hb l hl
  have hfunction := hvocabulary _ hfunction
  have hliteralType := hvocabulary _ hliteralType
  simp only [Vocabulary.names, List.forall_mem_cons] at hvocabulary
  simp only [Declaration.leaves, refinedLiteral, Term.leaves_piAll, Term.leaves,
    TypeDescriptor.leaves_appliedType, List.flatMap_append, List.flatMap_cons, Binder.leaves,
    List.forall_mem_append, List.forall_mem_cons]
  simp only [hvocabulary, htype, hfunction, hliteralType, hliteral, List.map_cons, List.map_nil,
    List.mem_cons, List.not_mem_nil, or_false, forall_eq, and_self, List.mem_flatMap,
    forall_exists_index, and_imp, Option.toList_some, Option.toList_none, IsEmpty.forall_iff,
    implies_true, List.flatMap_nil, and_true, List.mem_map, forall_apply_eq_imp_iff₂, true_and]
  exact ⟨hbinders, fun x hx => origin_paramName hx⟩

theorem origin_companion {strategy : Strategy} (h : d.refinement = .ok r)
    {companions : List Declaration} (hderive : derive strategy d v visibility = .ok companions)
    {c : Declaration} (hc : c ∈ companions) : ∀ leaf ∈ c.leaves, r.Origin v leaf := by
  rcases companion_of_mem_derive h hderive hc with hrefine | ⟨kind, hconversion⟩
  · exact origin_refine hrefine
  · exact origin_conversion hconversion

theorem space_companion {strategy : Strategy} (h : d.refinement = .ok r)
    {companions : List Declaration} (hderive : derive strategy d v visibility = .ok companions)
    {c : Declaration} (hc : c ∈ companions) : c.space = some d.name := by
  obtain ⟨rfl, _⟩ := TypeDescriptor.refinement_eq_ok h
  rcases companion_of_mem_derive h hderive hc with hrefine | ⟨kind, hconversion⟩
  · obtain ⟨_, _, hparts⟩ := refineDeclaration_parts hrefine
    exact hparts.space
  · obtain ⟨_, hparts⟩ := literalDeclaration_parts hconversion
    exact hparts.space

theorem Origin.isWhole {leaf : Leaf} (h : r.Origin v leaf) (hv : ∀ x ∈ v.names, x.isWhole = true)
    (hnames : ∀ x ∈ r.names, x.isWhole = true)
    (hterms : ∀ t ∈ r.terms, t.leaves.all Leaf.isWhole = true) : leaf.isWhole = true := by
  cases h with
  | vocabulary h => exact hv _ h
  | fresh h taken =>
      rw [Leaf.isWhole, isWhole_freshName]
      exact hv _ h
  | descriptor h => exact hnames _ h
  | @term t u ht hu _ hleaf =>
      have hparams : ∀ x ∈ r.descriptor.paramNames, x.isWhole = true := fun x hx =>
        hnames x (by simp [names, hx])
      have hwhole := hterms t ht
      rw [← Term.isWhole_instantiate hu hparams, List.all_eq_true] at hwhole
      exact hwhole leaf hleaf

/-- All leaves of the terms of the descriptor are leaves of `refine`. -/
theorem leaves_subset_refine {refine : Declaration}
    (h : r.refineDeclaration v visibility = .ok refine) {t : Term} (ht : t ∈ r.terms) :
    ∃ u, t.instantiate r.descriptor.paramNames = .ok u ∧ u.leaves ⊆ refine.leaves := by
  obtain ⟨valueType, hV, h⟩ := bind_eq_ok h
  obtain ⟨predicate, hP, h⟩ := bind_eq_ok h
  obtain ⟨reserved, _, h⟩ := bind_eq_ok h
  obtain ⟨bs, hbs, h⟩ := bind_eq_ok h
  cases h
  rcases List.mem_append.1 ht with ht | ht
  · obtain ⟨p, hp, rfl⟩ := List.mem_map.1 ht
    obtain ⟨b, hb, _, htype⟩ := exists_of_mem_left (parameterBinders_eq_ok hbs) hp
    refine ⟨b.domain, htype, fun leaf hleaf => ?_⟩
    have hbinder : leaf ∈ bs.flatMap Binder.leaves :=
      List.mem_flatMap.2 ⟨b, hb, List.mem_append_right _ hleaf⟩
    simp [Declaration.leaves, hbinder]
  · rcases List.mem_pair.1 ht with rfl | rfl
    · refine ⟨valueType, hV, fun leaf hleaf => ?_⟩
      simp [Declaration.leaves, Binder.leaves, hleaf]
    · refine ⟨predicate, hP, fun leaf hleaf => ?_⟩
      simp [Declaration.leaves, leaves_refineBody, hleaf]

/-- The names of the vocabulary in `refine`. -/
theorem vocabulary_mem_refine {refine : Declaration}
    (h : r.refineDeclaration v visibility = .ok refine) :
    ∀ x ∈ [v.decide, v.refineName, v.maybeType, v.yes, v.no], .name x ∈ refine.leaves := by
  obtain ⟨valueType, _, h⟩ := bind_eq_ok h
  obtain ⟨predicate, _, h⟩ := bind_eq_ok h
  obtain ⟨reserved, _, h⟩ := bind_eq_ok h
  obtain ⟨bs, _, h⟩ := bind_eq_ok h
  cases h
  simp [Declaration.leaves, leaves_refineBody, Term.leaves]

/-- Companions hold the doubles of the terms of the descriptor. -/
theorem mem_doubles_companions {strategy : Strategy} (h : d.refinement = .ok r)
    {companions : List Declaration} (hderive : derive strategy d v visibility = .ok companions)
    (x : Binary64) :
    (∃ c ∈ companions, x ∈ doubles c.leaves) ↔ ∃ t ∈ r.terms, x ∈ doubles t.leaves := by
  -- Of the origins of a leaf only the terms hold literals, and `refine` alone holds all of those.
  constructor
  · rintro ⟨c, hc, hx⟩
    have horigin := origin_companion h hderive hc _ (mem_doubles.1 hx)
    cases horigin with
    | term ht hu hleaf => exact ⟨_, ht, by rwa [← Term.doubles_instantiate hu, mem_doubles]⟩
  · rintro ⟨t, ht, hx⟩
    obtain ⟨refine, conversions, hrefine, _, rfl⟩ := derive_eq_ok h hderive
    obtain ⟨u, hu, hleaves⟩ := leaves_subset_refine hrefine ht
    rw [← Term.doubles_instantiate hu, mem_doubles] at hx
    exact ⟨refine, List.mem_cons_self, mem_doubles.2 (hleaves hx)⟩

/-- In a term every parameter has been named. -/
private theorem not_origin_param (i : Int) : ¬ r.Origin v (.param i) := by
  rintro ⟨⟩
  case term t u _ hu h =>
    have hnone := Term.paramRefs_instantiate hu
    rw [← Term.mem_paramRefs_iff, hnone] at h
    cases h

end Refinement

private theorem Declaration.paramRefs_eq_nil {c : Declaration} (h : ∀ i, .param i ∉ c.leaves) :
    c.signature.paramRefs = [] ∧ c.body.paramRefs = [] := by
  simp only [List.eq_nil_iff_forall_not_mem, Term.mem_paramRefs_iff]
  exact ⟨fun i hi => h i (by simp [leaves, hi]), fun i hi => h i (by simp [leaves, hi])⟩

/-- A derivation ends with the rejection of the descriptor, which no strategy changes, or with all
companions, in which no parameter is referred to by its index. -/
theorem derive_rejected_or_complete (d : TypeDescriptor) (v : Vocabulary)
    (visibility : Visibility) :
    (∃ rejection, d.refinement = .error rejection ∧
      (rejection.fault.kind = .notSingleConstructor ∨ rejection.fault.kind = .shapeMismatch) ∧
      ∀ strategy, derive strategy d v visibility = .error (.rejected rejection)) ∨
    (∃ r, d.refinement = .ok r ∧ ∀ strategy, ∃ refine conversions,
      derive strategy d v visibility = .ok (refine :: conversions) ∧
      r.refineDeclaration v visibility = .ok refine ∧
      List.Forall₂ (fun kind c => r.literalDeclaration kind v visibility = .ok c)
        strategy.literals conversions ∧
      ∀ c ∈ refine :: conversions, c.signature.paramRefs = [] ∧ c.body.paramRefs = []) := by
  cases hr : d.refinement with
  | error rejection =>
      exact .inl ⟨rejection, rfl, rejection.fault_kind, fun strategy => by rw [derive, hr]⟩
  | ok r =>
      refine .inr ⟨r, rfl, fun strategy => ?_⟩
      obtain ⟨_, refine, conversions, hderive, hrefine, hconversions, rfl⟩ :=
        derive_isOk hr strategy v visibility
      refine ⟨refine, conversions, hderive, hrefine, mapM_eq_ok hconversions, fun c hc => ?_⟩
      have horigin := Refinement.origin_companion hr hderive hc
      exact c.paramRefs_eq_nil fun i hi => Refinement.not_origin_param i (horigin _ hi)

end RefinementTypes
