import Mathlib.Data.List.Nodup
import RefinementTypes.Proofs.Declaration.Companion

/-!
# Batches of derivations

The companions of several types, one after another. A qualified name is a type name, a dot and a
name without a dot, so it tells the type and the companion: companions of types of different names
have different qualified names, and two types of one name both have their `refine`.
-/

namespace RefinementTypes

/-- What stands between a namespace and a name. -/
def dot : CodePoint := .char '.'

/-- Where a declaration is: its namespace, and its name there. -/
def Declaration.place (d : Declaration) : Option Text × Text := (d.space, d.name)

/-- The names that companions have in the namespace of their type. -/
def Vocabulary.companionNames (v : Vocabulary) : List Text :=
  [v.refineName, v.integerConversion, v.floatConversion, v.stringConversion]

/-- The names of the companions that a strategy derives, in order. -/
def Strategy.companionNames (strategy : Strategy) (v : Vocabulary) : List Text :=
  v.refineName :: strategy.literals.map fun kind => (v.conversion kind).function

/-- The companions of several types, one type after another. -/
def deriveAll (v : Vocabulary) (visibility : Visibility)
    (batch : List (Strategy × TypeDescriptor)) : Except DerivationFailure (List Declaration) := do
  let companions ← batch.mapM fun (strategy, d) => derive strategy d v visibility
  return companions.flatten

private theorem append_dot_inj {a b x y : Text} (hx : dot ∉ x) (hy : dot ∉ y)
    (h : a ++ dot :: x = b ++ dot :: y) : a = b ∧ x = y := by
  rcases List.append_eq_append_iff.1 h with
    ⟨_ | ⟨c, rest⟩, rfl, hrest⟩ | ⟨_ | ⟨c, rest⟩, rfl, hrest⟩
  · simpa using hrest
  · rw [List.cons_append, List.cons.injEq] at hrest
    exact absurd (hrest.2 ▸ List.mem_append_right rest (List.mem_cons_self ..)) hx
  · simpa [eq_comm] using hrest
  · rw [List.cons_append, List.cons.injEq] at hrest
    exact absurd (hrest.2 ▸ List.mem_append_right rest (List.mem_cons_self ..)) hy

namespace Declaration
variable {c d : Declaration} {a b : Text}

private theorem qualifiedName_of_space (h : d.space = some a) :
    d.qualifiedName = if a = "" then d.name else a ++ dot :: d.name := by
  rw [qualifiedName, h]
  simp only [List.append_assoc]
  rfl

/-- Names without dots are told by the qualified names, whatever dots there are in the
namespaces. -/
theorem place_eq_of_qualifiedName_eq (hc : c.space = some a) (hd : d.space = some b)
    (hcname : dot ∉ c.name) (hdname : dot ∉ d.name) (h : c.qualifiedName = d.qualifiedName) :
    c.place = d.place := by
  rw [qualifiedName_of_space hc, qualifiedName_of_space hd] at h
  have hplace : a = b ∧ c.name = d.name := by
    split at h
    · split at h
      · rename_i ha hb
        exact ⟨ha.trans hb.symm, h⟩
      · exact absurd (h ▸ List.mem_append_right b (List.mem_cons_self ..)) hcname
    · split at h
      · exact absurd (h ▸ List.mem_append_right a (List.mem_cons_self ..)) hdname
      · exact append_dot_inj hcname hdname h
  rw [place, place, hc, hd, hplace.1, hplace.2]

theorem dot_mem_qualifiedName (h : d.space = some a) (ha : a ≠ "") : dot ∈ d.qualifiedName := by
  rw [qualifiedName_of_space h, if_neg ha]
  exact List.mem_append_right a (List.mem_cons_self ..)

end Declaration

variable {v : Vocabulary} {visibility : Visibility} {strategy : Strategy} {d : TypeDescriptor}
  {batch : List (Strategy × TypeDescriptor)} {ds : List Declaration}

theorem Vocabulary.conversion_mem_companionNames (v : Vocabulary) (kind : LiteralKind) :
    (v.conversion kind).function ∈ v.companionNames := by
  cases kind <;> simp [conversion, companionNames]

private theorem Strategy.companionNames_subset (strategy : Strategy) (v : Vocabulary) :
    strategy.companionNames v ⊆ v.companionNames := by
  intro x hx
  rcases List.mem_cons.1 hx with rfl | hx
  · exact List.mem_cons_self ..
  · obtain ⟨kind, -, rfl⟩ := List.mem_map.1 hx
    exact v.conversion_mem_companionNames kind

private theorem Strategy.companionNames_nodup (strategy : Strategy) (h : v.companionNames.Nodup) :
    (strategy.companionNames v).Nodup := by
  have hsub : (strategy.companionNames v).Sublist v.companionNames := by
    cases strategy <;>
      simp [companionNames, Vocabulary.companionNames, literals, Vocabulary.conversion]
  exact hsub.nodup h

private theorem conversions_places {r : Refinement} {kinds : List LiteralKind}
    {conversions : List Declaration}
    (h : List.Forall₂ (fun kind c => r.literalDeclaration kind v visibility = .ok c) kinds
      conversions) :
    conversions.map Declaration.place =
      kinds.map fun kind => (some r.descriptor.name, (v.conversion kind).function) := by
  induction h with
  | nil => rfl
  | cons hc _ ih =>
      obtain ⟨reserved, hparts⟩ := Refinement.literalDeclaration_parts hc
      rw [List.map_cons, List.map_cons, ih, Declaration.place, hparts.space, hparts.name]

private theorem derive_places {r : Refinement} (hr : d.refinement = .ok r) {cs : List Declaration}
    (h : derive strategy d v visibility = .ok cs) :
    cs.map Declaration.place = (strategy.companionNames v).map fun x => (some d.name, x) := by
  obtain ⟨rfl, -⟩ := TypeDescriptor.refinement_eq_ok hr
  obtain ⟨refine, conversions, hrefine, hconversions, rfl⟩ := derive_eq_ok hr h
  obtain ⟨predicate, reserved, hparts⟩ := Refinement.refineDeclaration_parts hrefine
  rw [List.map_cons, conversions_places (mapM_eq_ok hconversions), Declaration.place,
    hparts.space, hparts.name, Strategy.companionNames, List.map_cons, List.map_map]
  rfl

private theorem deriveAll_eq_ok (h : deriveAll v visibility batch = .ok ds) :
    ∃ companions, List.Forall₂ (fun b cs => derive b.1 b.2 v visibility = .ok cs) batch companions ∧
      ds = companions.flatten := by
  obtain ⟨companions, hcompanions, h⟩ := bind_eq_ok h
  cases h
  exact ⟨companions, mapM_eq_ok hcompanions, rfl⟩

theorem deriveAll_isOk (h : ∀ b ∈ batch, ∃ r, b.2.refinement = .ok r) (v : Vocabulary)
    (visibility : Visibility) : ∃ ds, deriveAll v visibility batch = .ok ds := by
  have hderive : ∀ b ∈ batch, ∃ cs, derive b.1 b.2 v visibility = .ok cs := by
    intro b hb
    obtain ⟨r, hr⟩ := h b hb
    obtain ⟨cs, _, _, hcs, -⟩ := derive_isOk hr b.1 v visibility
    exact ⟨cs, hcs⟩
  obtain ⟨companions, hcompanions⟩ := mapM_isOk hderive
  refine ⟨companions.flatten, ?_⟩
  rw [deriveAll, hcompanions]
  rfl

/-- Every declaration of a batch is `refine` or a conversion of one of its types. -/
theorem companion_of_mem_deriveAll (haccepted : ∀ b ∈ batch, ∃ r, b.2.refinement = .ok r)
    (h : deriveAll v visibility batch = .ok ds) {c : Declaration} (hc : c ∈ ds) :
    ∃ b ∈ batch, ∃ r, b.2.refinement = .ok r ∧
      (r.refineDeclaration v visibility = .ok c ∨
        ∃ kind, r.literalDeclaration kind v visibility = .ok c) := by
  obtain ⟨companions, hcompanions, rfl⟩ := deriveAll_eq_ok h
  obtain ⟨cs, hcs, hc⟩ := List.mem_flatten.1 hc
  obtain ⟨b, hb, hderive⟩ := exists_of_mem_right hcompanions hcs
  obtain ⟨r, hr⟩ := haccepted b hb
  exact ⟨b, hb, r, hr, companion_of_mem_derive hr hderive hc⟩

/-- The places of the companions of a batch. -/
def placesOf (v : Vocabulary) (batch : List (Strategy × TypeDescriptor)) :
    List (Option Text × Text) :=
  batch.flatMap fun b => (b.1.companionNames v).map fun x => (some b.2.name, x)

private theorem deriveAll_places (haccepted : ∀ b ∈ batch, ∃ r, b.2.refinement = .ok r)
    (h : deriveAll v visibility batch = .ok ds) : ds.map Declaration.place = placesOf v batch := by
  obtain ⟨companions, hcompanions, rfl⟩ := deriveAll_eq_ok h
  rw [placesOf]
  clear h
  induction hcompanions with
  | nil => rfl
  | cons hcs _ ih =>
      obtain ⟨⟨r, hr⟩, haccepted⟩ := List.forall_mem_cons.1 haccepted
      rw [List.flatten_cons, List.map_append, List.flatMap_cons, derive_places hr hcs,
        ih haccepted]

private theorem placesOf_nodup_iff (hnames : v.companionNames.Nodup) :
    (placesOf v batch).Nodup ↔ (batch.map fun b => b.2.name).Nodup := by
  have hmembers : ∀ b ∈ batch,
      ((b.1.companionNames v).map fun x => (some b.2.name, x)).Nodup := by
    intro b _
    exact (b.1.companionNames_nodup hnames).map fun x y h => (Prod.mk.inj h).2
  rw [placesOf, List.nodup_flatMap, and_iff_right hmembers, List.nodup_iff_pairwise_ne,
    List.pairwise_map]
  refine List.Pairwise.iff fun {a b} => ?_
  constructor
  · rintro hdisjoint hname
    -- both types have their `refine`
    refine hdisjoint (a := (some a.2.name, v.refineName)) ?_ ?_
    · exact List.mem_map.2 ⟨_, List.mem_cons_self .., rfl⟩
    · exact List.mem_map.2 ⟨_, List.mem_cons_self .., by rw [hname]⟩
  · rintro hname place ha hb
    obtain ⟨x, -, rfl⟩ := List.mem_map.1 ha
    obtain ⟨y, -, hy⟩ := List.mem_map.1 hb
    exact hname (Option.some.inj (Prod.mk.inj hy).1).symm

/-- The companions of a batch have different qualified names exactly when its types have different
names. -/
theorem qualifiedNames_nodup_iff (hnames : v.companionNames.Nodup)
    (hdots : ∀ x ∈ v.companionNames, dot ∉ x)
    (haccepted : ∀ b ∈ batch, ∃ r, b.2.refinement = .ok r)
    (h : deriveAll v visibility batch = .ok ds) :
    (ds.map Declaration.qualifiedName).Nodup ↔ (batch.map fun b => b.2.name).Nodup := by
  have hplaces := deriveAll_places haccepted h
  have hplace : ∀ c ∈ ds, (∃ a, c.space = some a) ∧ dot ∉ c.name := by
    intro c hc
    have hmem : c.place ∈ placesOf v batch := hplaces ▸ List.mem_map_of_mem hc
    obtain ⟨b, -, hb⟩ := List.mem_flatMap.1 hmem
    obtain ⟨x, hx, hcx⟩ := List.mem_map.1 hb
    obtain ⟨hspace, rfl⟩ := Prod.mk.inj hcx
    exact ⟨⟨_, hspace.symm⟩, hdots _ (b.1.companionNames_subset v hx)⟩
  rw [← placesOf_nodup_iff hnames, ← hplaces]
  constructor
  · intro hnodup
    refine List.Nodup.map_on ?_ hnodup.of_map
    intro c hc s hs heq
    obtain ⟨hspace, hname⟩ := Prod.mk.inj heq
    apply List.inj_on_of_nodup_map hnodup hc hs
    rw [Declaration.qualifiedName, Declaration.qualifiedName, hspace, hname]
  · intro hnodup
    refine List.Nodup.map_on ?_ hnodup.of_map
    intro c hc s hs heq
    obtain ⟨⟨a, ha⟩, hcname⟩ := hplace c hc
    obtain ⟨⟨b, hb⟩, hsname⟩ := hplace s hs
    exact List.inj_on_of_nodup_map hnodup hc hs
      (Declaration.place_eq_of_qualifiedName_eq ha hb hcname hsname heq)

end RefinementTypes
