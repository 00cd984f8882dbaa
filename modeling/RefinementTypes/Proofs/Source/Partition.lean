import Mathlib.Data.List.Sort
import RefinementTypes.Proofs.Source.Layout

/-!
# Partition of a module by its namespaces

The blocks of a module are those of its namespaces, in the order in which these first come, each
made from the declarations of its namespace in order. No declaration is lost or doubled, and a
module is written like every other one with the same namespaces and the same declarations in each of
them.
-/

namespace RefinementTypes.Source
variable {ds es : List Declaration} {d : Declaration} {spaces : List (Option Text)}
  {space : Option Text}

/-- How many declarations stand in front of the first one of a namespace. -/
def firstPlace (ds : List Declaration) (space : Option Text) : Nat :=
  (ds.map Declaration.space).idxOf space

/-- A namespace comes in a module before another one does. -/
def FirstBefore (ds : List Declaration) (s t : Option Text) : Prop :=
  firstPlace ds s < firstPlace ds t

instance (ds : List Declaration) : Std.Irrefl (FirstBefore ds) := ⟨fun _ => Nat.lt_irrefl _⟩

instance (ds : List Declaration) : Std.Antisymm (FirstBefore ds) :=
  ⟨fun _ _ h h' => absurd h' (Nat.lt_asymm h)⟩

/-- The list has the namespaces of a module, each once, in the order in which they first come. -/
structure InFirstOrder (ds : List Declaration) (spaces : List (Option Text)) : Prop where
  mem_iff : ∀ space, space ∈ spaces ↔ ∃ d ∈ ds, d.space = space
  ascending : spaces.Pairwise (FirstBefore ds)

private theorem mem_map_space : space ∈ ds.map Declaration.space ↔ space ∈ firstSpaces ds := by
  rw [List.mem_map, mem_firstSpaces]

private theorem firstPlace_lt_length (h : space ∈ firstSpaces ds) :
    firstPlace ds space < ds.length := by
  rw [← List.length_map (f := Declaration.space)]
  exact List.idxOf_lt_length_iff.2 (mem_map_space.2 h)

private theorem firstPlace_concat_of_mem (h : space ∈ firstSpaces ds) (d : Declaration) :
    firstPlace (ds ++ [d]) space = firstPlace ds space := by
  rw [firstPlace, List.map_append, List.idxOf_append_of_mem (mem_map_space.2 h), firstPlace]

private theorem firstPlace_concat_new (h : d.space ∉ firstSpaces ds) :
    firstPlace (ds ++ [d]) d.space = ds.length := by
  rw [firstPlace, List.map_append, List.idxOf_append_of_notMem (mt mem_map_space.1 h)]
  simp

private theorem pairwise_firstSpaces (ds : List Declaration) :
    (firstSpaces ds).Pairwise (FirstBefore ds) := by
  induction ds using List.reverseRecOn with
  | nil => simp [firstSpaces]
  | append_singleton ds d ih =>
      have hkept : (firstSpaces ds).Pairwise (FirstBefore (ds ++ [d])) := by
        apply ih.imp_of_mem
        intro s t hs ht hbefore
        rwa [FirstBefore, firstPlace_concat_of_mem hs, firstPlace_concat_of_mem ht]
      rw [firstSpaces_concat, addSpace]
      by_cases hd : d.space ∈ firstSpaces ds
      · rwa [if_pos hd]
      · rw [if_neg hd, List.pairwise_append]
        refine ⟨hkept, List.pairwise_singleton _ _, ?_⟩
        intro s hs t ht
        rw [List.mem_singleton.1 ht, FirstBefore, firstPlace_concat_of_mem hs,
          firstPlace_concat_new hd]
        exact firstPlace_lt_length hs

private theorem inFirstOrder_iff : InFirstOrder ds spaces ↔ spaces = firstSpaces ds := by
  constructor
  · intro h
    apply h.ascending.eq_of_mem_iff (pairwise_firstSpaces ds)
    intro s
    rw [h.mem_iff, mem_firstSpaces]
  · rintro rfl
    exact ⟨fun s => mem_firstSpaces, pairwise_firstSpaces ds⟩

/-- The block of a namespace, from the source texts of its declarations. -/
def blockText (space : Option Text) (sources : List Text) : Text :=
  match space with
  | none => Text.join "\n\n" sources
  | some name => heading name ++ laidOut (Text.join "\n\n" sources)

private theorem block_eq (g : Group) :
    block g = g.members.mapM declaration >>= fun sources => .ok (blockText g.space sources) := by
  rw [block, members]
  cases g.members.mapM declaration with
  | error e => rfl
  | ok sources => cases g.space <;> rfl

/-- The block of a namespace is made from the declarations of that namespace in order. -/
def IsBlock (ds : List Declaration) (space : Option Text) (text : Text) : Prop :=
  ∃ sources, (ds.filter (·.space = space)).mapM declaration = .ok sources ∧
    text = blockText space sources

private theorem block_groupOf_eq_ok_iff {text : Text} :
    block (groupOf ds space) = .ok text ↔ IsBlock ds space text := by
  rw [block_eq]
  constructor
  · intro h
    obtain ⟨sources, hsources, h⟩ := bind_eq_ok h
    cases h
    exact ⟨sources, hsources, rfl⟩
  · rintro ⟨sources, hsources, rfl⟩
    rw [groupOf, hsources]
    rfl

private theorem block_isOk_iff {g : Group} :
    (∃ text, block g = .ok text) ↔ ∀ d ∈ g.members, ∃ source, declaration d = .ok source := by
  rw [← mapM_isOk_iff, block_eq]
  constructor
  · rintro ⟨text, h⟩
    obtain ⟨sources, hsources, _⟩ := bind_eq_ok h
    exact ⟨sources, hsources⟩
  · rintro ⟨sources, hsources⟩
    rw [hsources]
    exact ⟨_, rfl⟩

private theorem moduleText_eq (ds : List Declaration) :
    moduleText ds = (groups ds).mapM block >>= fun blocks =>
      .ok (Text.join "\n\n" blocks ++ "\n") := rfl

private theorem moduleText_eq_ok_iff {text : Text} :
    moduleText ds = .ok text ↔ ∃ blocks, List.Forall₂ (IsBlock ds) (firstSpaces ds) blocks ∧
      text = Text.join "\n\n" blocks ++ "\n" := by
  have hblocks {blocks : List Text} : (groups ds).mapM block = .ok blocks ↔
      List.Forall₂ (IsBlock ds) (firstSpaces ds) blocks := by
    rw [mapM_eq_ok_iff, groups_eq, List.forall₂_map_left_iff]
    simp only [block_groupOf_eq_ok_iff]
  rw [moduleText_eq]
  constructor
  · intro h
    obtain ⟨blocks, hok, h⟩ := bind_eq_ok h
    cases h
    exact ⟨blocks, hblocks.1 hok, rfl⟩
  · rintro ⟨blocks, hforall, rfl⟩
    rw [hblocks.2 hforall]
    rfl

/-- The declarations of a module, those of a namespace side by side. -/
def regrouped (ds : List Declaration) : List Declaration :=
  (firstSpaces ds).flatMap fun space => ds.filter (·.space = space)

private theorem regrouped_eq (ds : List Declaration) :
    regrouped ds = (groups ds).flatMap Group.members := by
  rw [groups_eq, List.flatMap_map]
  rfl

/-- One more declaration is one more member of the groups. -/
private theorem addToGroups_perm (d : Declaration) (gs : List Group) :
    ((addToGroups d gs).flatMap Group.members).Perm (gs.flatMap Group.members ++ [d]) := by
  induction gs with
  | nil => exact .refl _
  | cons g gs ih =>
      rw [addToGroups]
      by_cases hspace : g.space = d.space
      · rw [if_pos hspace, List.flatMap_cons, List.flatMap_cons, List.append_assoc,
          List.append_assoc]
        exact List.perm_append_comm.append_left _
      · rw [if_neg hspace, List.flatMap_cons, List.flatMap_cons, List.append_assoc]
        exact ih.append_left _

private theorem regrouped_perm (ds : List Declaration) : (regrouped ds).Perm ds := by
  induction ds using List.reverseRecOn with
  | nil => exact .refl _
  | append_singleton ds d ih =>
      have hgroups : groups (ds ++ [d]) = addToGroups d (groups ds) := by simp [groups]
      rw [regrouped_eq] at ih ⊢
      rw [hgroups]
      exact (addToGroups_perm d (groups ds)).trans (ih.append_right [d])

private theorem moduleText_isOk_iff :
    (∃ text, moduleText ds = .ok text) ↔ ∀ d ∈ ds, ∃ source, declaration d = .ok source := by
  have hblocks : (∃ blocks, (groups ds).mapM block = .ok blocks) ↔
      ∀ d ∈ ds, ∃ source, declaration d = .ok source := by
    simp only [mapM_isOk_iff, block_isOk_iff, ← (regrouped_perm ds).mem_iff, regrouped_eq,
      List.mem_flatMap]
    constructor
    · rintro h d ⟨g, hg, hd⟩
      exact h g hg d hd
    · intro h g hg d hd
      exact h d ⟨g, hg, hd⟩
  rw [← hblocks, moduleText_eq]
  constructor
  · rintro ⟨text, h⟩
    obtain ⟨blocks, hok, _⟩ := bind_eq_ok h
    exact ⟨blocks, hok⟩
  · rintro ⟨blocks, hok⟩
    rw [hok]
    exact ⟨_, rfl⟩

/-- Declarations of namespaces that are there already open no other one. -/
private theorem foldl_addSpace_of_mem (h : ∀ d ∈ ds, d.space ∈ spaces) :
    ds.foldl addSpace spaces = spaces := by
  induction ds with
  | nil => rfl
  | cons d ds ih =>
      rw [List.forall_mem_cons] at h
      rw [List.foldl_cons, addSpace, if_pos h.1, ih h.2]

private theorem foldl_addSpace_new (hne : ds ≠ []) (hspace : ∀ d ∈ ds, d.space = space)
    (hnew : space ∉ spaces) : ds.foldl addSpace spaces = spaces ++ [space] := by
  cases ds with
  | nil => exact absurd rfl hne
  | cons d ds =>
      rw [List.forall_mem_cons] at hspace
      rw [List.foldl_cons, addSpace, hspace.1, if_neg hnew]
      apply foldl_addSpace_of_mem
      intro c hc
      simp [hspace.2 c hc]

/-- Lists of declarations of one namespace each, one behind another. -/
private theorem firstSpaces_flatMap {f : Option Text → List Declaration} (hdistinct : spaces.Nodup)
    (hne : ∀ s ∈ spaces, f s ≠ []) (hspace : ∀ s ∈ spaces, ∀ d ∈ f s, d.space = s) :
    firstSpaces (spaces.flatMap f) = spaces := by
  induction spaces using List.reverseRecOn with
  | nil => rfl
  | append_singleton spaces s ih =>
      rw [List.nodup_append] at hdistinct
      have hs : s ∉ spaces := by
        intro hmem
        exact hdistinct.2.2 s hmem s (by simp) rfl
      have hinit := ih hdistinct.1 (fun t ht => hne t (by simp [ht]))
        (fun t ht => hspace t (by simp [ht]))
      rw [List.flatMap_append, List.flatMap_singleton, firstSpaces, List.foldl_append]
      rw [firstSpaces] at hinit
      rw [hinit]
      exact foldl_addSpace_new (hne s (by simp)) (hspace s (by simp)) hs

/-- A namespace keeps its declarations when the declarations of others come in between. -/
private theorem filter_flatMap_filter (ds : List Declaration) (hdistinct : spaces.Nodup)
    (space : Option Text) :
    (spaces.flatMap fun s => ds.filter (·.space = s)).filter (·.space = space) =
      if space ∈ spaces then ds.filter (·.space = space) else [] := by
  induction spaces with
  | nil => rfl
  | cons s spaces ih =>
      rw [List.nodup_cons] at hdistinct
      rw [List.flatMap_cons, List.filter_append, ih hdistinct.2, List.filter_filter]
      by_cases hs : s = space
      · subst hs
        simp [hdistinct.1]
      · have hnone : ds.filter (fun d => d.space = space ∧ d.space = s) = [] := by
          rw [List.filter_eq_nil_iff]
          intro d _ hd
          rw [decide_eq_true_eq] at hd
          exact hs (hd.2.symm.trans hd.1)
        simp only [Bool.decide_and] at hnone
        simp [hnone, Ne.symm hs]

private theorem filter_regrouped (ds : List Declaration) (space : Option Text) :
    (regrouped ds).filter (·.space = space) = ds.filter (·.space = space) := by
  rw [regrouped, filter_flatMap_filter ds (firstSpaces_nodup ds)]
  by_cases h : space ∈ firstSpaces ds
  · rw [if_pos h]
  · rw [if_neg h, eq_comm, List.filter_eq_nil_iff]
    intro d hd hspace
    exact h (mem_firstSpaces.2 ⟨d, hd, of_decide_eq_true hspace⟩)

private theorem firstSpaces_regrouped (ds : List Declaration) :
    firstSpaces (regrouped ds) = firstSpaces ds := by
  rw [regrouped]
  apply firstSpaces_flatMap (firstSpaces_nodup ds)
  · intro s hs hempty
    obtain ⟨d, hd, hspace⟩ := mem_firstSpaces.1 hs
    rw [List.filter_eq_nil_iff] at hempty
    exact hempty d hd (decide_eq_true hspace)
  · intro s _ d hd
    exact of_decide_eq_true (List.mem_filter.1 hd).2

/-- A module is told by its namespaces and the declarations in each of them. -/
theorem moduleText_congr (hspaces : firstSpaces es = firstSpaces ds)
    (hmembers : ∀ space, es.filter (·.space = space) = ds.filter (·.space = space)) :
    moduleText es = moduleText ds := by
  have hgroups : groups es = groups ds := by
    rw [groups_eq, groups_eq, hspaces]
    apply List.map_congr_left
    intro space _
    rw [groupOf, groupOf, hmembers]
  rw [moduleText_eq, moduleText_eq, hgroups]

/-- The namespaces of a module are listed in the order in which they first come. If all declarations
can be written, and only then, so can the module, as one block for each namespace from the sublist
of its declarations. Modules with the same namespaces and the same sublists are written alike. To
put the declarations of each namespace side by side loses none, adds none, and changes no text. -/
theorem moduleText_partition (ds : List Declaration) :
    (∀ spaces, InFirstOrder ds spaces ↔ spaces = firstSpaces ds) ∧
    ((∃ text, moduleText ds = .ok text) ↔ ∀ d ∈ ds, ∃ source, declaration d = .ok source) ∧
    (∀ text, moduleText ds = .ok text ↔
      ∃ blocks, List.Forall₂ (IsBlock ds) (firstSpaces ds) blocks ∧
        text = Text.join "\n\n" blocks ++ "\n") ∧
    (∀ es, firstSpaces es = firstSpaces ds →
      (∀ space, es.filter (·.space = space) = ds.filter (·.space = space)) →
      moduleText es = moduleText ds) ∧
    (regrouped ds).Perm ds ∧ moduleText (regrouped ds) = moduleText ds := by
  refine ⟨fun spaces => inFirstOrder_iff, moduleText_isOk_iff, fun text => moduleText_eq_ok_iff,
    ?_, regrouped_perm ds, ?_⟩
  · intro es hspaces hmembers
    exact moduleText_congr hspaces hmembers
  · exact moduleText_congr (firstSpaces_regrouped ds) (filter_regrouped ds)

-- Declarations of no namespace stand apart from those of the namespace without a name.
example : firstSpaces [{ motto "a" with space := none }, motto "b",
    { motto "c" with space := some "" }, { motto "d" with space := none }] =
      [none, some ("Shop" : Text), some ("" : Text)] := by
  decide

end RefinementTypes.Source
