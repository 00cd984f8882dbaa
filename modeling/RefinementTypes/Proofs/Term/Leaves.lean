import RefinementTypes.Proofs.Checked
import RefinementTypes.Proofs.Term.Occurrence

/-!
# Leaves of a term

What a term is made from: names, references to parameters and literals, in reading order. Naming the
parameters of a term changes nothing but the references, none of which is left.
-/

namespace RefinementTypes

mutual

/-- The names that a pattern is written with. -/
def Pattern.names : Pattern → List Text
  | .con name args => name :: Pattern.namesAll args
  | .bind name => [name]
  | .wild => []

def Pattern.namesAll : List Pattern → List Text
  | [] => []
  | p :: ps => p.names ++ Pattern.namesAll ps

end

theorem Pattern.namesAll_eq (ps : List Pattern) :
    Pattern.namesAll ps = ps.flatMap Pattern.names := by
  induction ps with
  | nil => rfl
  | cons p ps ih => rw [Pattern.namesAll, ih, List.flatMap_cons]

namespace Term

mutual

/-- The names that a term is written with. -/
def names : Term → List Text
  | var name => [name]
  | app fn arg _ => fn.names ++ arg.names
  | pi name _ _ domain result => name.toList ++ domain.names ++ result.names
  | case scrutinee alternatives => scrutinee.names ++ namesIn alternatives
  | param _ => []
  | lit _ => []
  | hole => []

def namesIn : List (Pattern × Term) → List Text
  | [] => []
  | (pattern, body) :: rest => pattern.names ++ body.names ++ namesIn rest

end

mutual

/-- The string literals of a term, in reading order. -/
def strings : Term → List Text
  | lit (.str s) => [s]
  | app fn arg _ => fn.strings ++ arg.strings
  | pi _ _ _ domain result => domain.strings ++ result.strings
  | case scrutinee alternatives => scrutinee.strings ++ stringsIn alternatives
  | var _ => []
  | param _ => []
  | lit _ => []
  | hole => []

def stringsIn : List (Pattern × Term) → List Text
  | [] => []
  | (_, body) :: rest => body.strings ++ stringsIn rest

end

end Term

inductive Leaf where
  | name (x : Text)
  | param (index : Int)
  | literal (value : Literal)

/-- What a leaf becomes when the parameters are named. -/
inductive Leaf.Named (names : List Text) : Leaf → Leaf → Prop
  | name (x : Text) : Named names (.name x) (.name x)
  | param {index : Int} {x : Text} (h : paramName? names index = some x) :
      Named names (.param index) (.name x)
  | literal (value : Literal) : Named names (.literal value) (.literal value)

/-- Whether the text of a leaf is whole. -/
def Leaf.isWhole : Leaf → Bool
  | name x => x.isWhole
  | literal (.str s) => s.isWhole
  | _ => true

@[simp]
theorem Leaf.isWhole_comp_name : Leaf.isWhole ∘ Leaf.name = Text.isWhole := rfl

/-- The doubles among the leaves of something. -/
def doubles (leaves : List Leaf) : List Binary64 :=
  leaves.filterMap fun
    | .literal (.float x) => some x
    | _ => none

theorem doubles_append (ls ms : List Leaf) : doubles (ls ++ ms) = doubles ls ++ doubles ms :=
  List.filterMap_append

theorem doubles_map_name (xs : List Text) : doubles (xs.map .name) = [] := by
  simp [doubles, List.filterMap_map]

theorem mem_doubles {x : Binary64} {leaves : List Leaf} :
    x ∈ doubles leaves ↔ .literal (.float x) ∈ leaves := by
  rw [doubles, List.mem_filterMap]
  constructor
  · rintro ⟨leaf, hleaf, h⟩
    split at h
    · cases h
      exact hleaf
    · cases h
  · intro h
    exact ⟨_, h, rfl⟩

namespace Term

mutual

/-- The leaves of a term in reading order, those of its binders and patterns among them. -/
def leaves : Term → List Leaf
  | var name => [.name name]
  | param index => [.param index]
  | app fn arg _ => fn.leaves ++ arg.leaves
  | lit value => [.literal value]
  | hole => []
  | pi name _ _ domain result => name.toList.map .name ++ domain.leaves ++ result.leaves
  | case scrutinee alternatives => scrutinee.leaves ++ leavesIn alternatives

def leavesIn : List (Pattern × Term) → List Leaf
  | [] => []
  | (pattern, body) :: rest => pattern.names.map .name ++ body.leaves ++ leavesIn rest

end

private theorem mem_paramRefsIn_iff {i : Int} {alternatives : List (Pattern × Term)}
    (ih : ∀ a ∈ alternatives, i ∈ a.2.paramRefs ↔ .param i ∈ a.2.leaves) :
    i ∈ paramRefsIn alternatives ↔ .param i ∈ leavesIn alternatives := by
  induction alternatives with
  | nil => simp [paramRefsIn, leavesIn]
  | cons a rest ihr =>
      rw [List.forall_mem_cons] at ih
      simp [paramRefsIn, leavesIn, ih.1, ihr ih.2]

theorem mem_paramRefs_iff {i : Int} {t : Term} : i ∈ t.paramRefs ↔ .param i ∈ t.leaves := by
  induction t using Term.inductionOn with
  | var name => simp [paramRefs, leaves]
  | param index => simp [paramRefs, leaves]
  | app fn arg info ihf iha => simp [paramRefs, leaves, ihf, iha]
  | lit value => simp [paramRefs, leaves]
  | hole => simp [paramRefs, leaves]
  | pi name m info domain result ihd ihr => simp [paramRefs, leaves, ihd, ihr]
  | case scrutinee alternatives ihs iha =>
      simp [paramRefs, leaves, ihs, mem_paramRefsIn_iff iha]

@[simp]
theorem leaves_applyAll (fn : Term) (args : List Term) (info : Explicitness) :
    (fn.applyAll args info).leaves = fn.leaves ++ args.flatMap leaves := by
  induction args generalizing fn with
  | nil => simp [applyAll]
  | cons a args ih =>
      rw [applyAll_cons, ih, leaves, List.flatMap_cons, List.append_assoc]

end Term

def Binder.leaves (b : Binder) : List Leaf := b.name.toList.map .name ++ b.domain.leaves

@[simp]
theorem Term.leaves_piAll (bs : List Binder) (result : Term) :
    (piAll bs result).leaves = bs.flatMap Binder.leaves ++ result.leaves := by
  induction bs with
  | nil => rfl
  | cons b bs ih =>
      simp [piAll_cons, leaves, ih, Binder.leaves]

namespace Term
variable {names : List Text}

private theorem named_names (names xs : List Text) :
    List.Forall₂ (Leaf.Named names) (xs.map .name) (xs.map .name) := by
  induction xs with
  | nil => exact .nil
  | cons x xs ih => exact .cons (.name x) ih

private theorem leaves_instantiateIn {alternatives us : List (Pattern × Term)}
    (ih : ∀ a ∈ alternatives, ∀ u, a.2.instantiate names = .ok u →
      List.Forall₂ (Leaf.Named names) a.2.leaves u.leaves)
    (h : instantiateIn names alternatives = .ok us) :
    List.Forall₂ (Leaf.Named names) (leavesIn alternatives) (leavesIn us) := by
  induction alternatives generalizing us with
  | nil =>
      cases h
      exact .nil
  | cons a rest ihr =>
      obtain ⟨pattern, body⟩ := a
      obtain ⟨u, hu, h⟩ := bind_eq_ok h
      obtain ⟨more, hmore, h⟩ := bind_eq_ok h
      cases h
      rw [List.forall_mem_cons] at ih
      exact List.rel_append (List.rel_append (named_names ..) (ih.1 u hu)) (ihr ih.2 hmore)

private theorem leaves_instantiate {t u : Term} (h : t.instantiate names = .ok u) :
    List.Forall₂ (Leaf.Named names) t.leaves u.leaves := by
  induction t using Term.inductionOn generalizing u with
  | var name =>
      cases h
      exact .cons (.name name) .nil
  | param index =>
      rw [instantiate] at h
      split at h
      · rename_i name hname
        cases h
        exact .cons (.param hname) .nil
      · cases h
  | app fn arg info ihf iha =>
      obtain ⟨f, hf, h⟩ := bind_eq_ok h
      obtain ⟨a, ha, h⟩ := bind_eq_ok h
      cases h
      exact List.rel_append (ihf hf) (iha ha)
  | lit value =>
      cases h
      exact .cons (.literal value) .nil
  | hole =>
      cases h
      exact .nil
  | pi name m info domain result ihd ihr =>
      obtain ⟨dom, hd, h⟩ := bind_eq_ok h
      obtain ⟨res, hr, h⟩ := bind_eq_ok h
      cases h
      exact List.rel_append (List.rel_append (named_names ..) (ihd hd)) (ihr hr)
  | case scrutinee alternatives ihs iha =>
      obtain ⟨s, hs, h⟩ := bind_eq_ok h
      obtain ⟨us, hus, h⟩ := bind_eq_ok h
      cases h
      exact List.rel_append (ihs hs) (leaves_instantiateIn (fun a ha u hu => iha a ha hu) hus)

/-- No reference to a parameter is left. -/
theorem paramRefs_instantiate {t u : Term} (h : t.instantiate names = .ok u) :
    u.paramRefs = [] := by
  rw [List.eq_nil_iff_forall_not_mem]
  intro i hi
  rw [mem_paramRefs_iff] at hi
  obtain ⟨leaf, _, hnamed⟩ := exists_of_mem_right (leaves_instantiate h) hi
  cases hnamed

theorem doubles_instantiate {t u : Term} (h : t.instantiate names = .ok u) :
    doubles u.leaves = doubles t.leaves := by
  have hleaves := leaves_instantiate h
  generalize t.leaves = ls at hleaves ⊢
  generalize u.leaves = ms at hleaves ⊢
  induction hleaves with
  | nil => rfl
  | cons hnamed _ ih =>
      cases hnamed with
      | literal value => cases value <;> simpa [doubles] using ih
      | _ => simpa [doubles] using ih

/-- Names of parameters that are whole change nothing about what is whole. -/
theorem isWhole_instantiate {t u : Term} (h : t.instantiate names = .ok u)
    (hnames : ∀ x ∈ names, x.isWhole = true) :
    u.leaves.all Leaf.isWhole = t.leaves.all Leaf.isWhole := by
  have hleaves := leaves_instantiate h
  generalize t.leaves = ls at hleaves ⊢
  generalize u.leaves = ms at hleaves ⊢
  induction hleaves with
  | nil => rfl
  | cons hnamed _ ih =>
      rw [List.all_cons, List.all_cons, ih]
      cases hnamed with
      | @param index x hx =>
          have hname : (Leaf.name x).isWhole = true := hnames x (mem_of_paramName?_eq_some hx)
          rw [hname]
          rfl
      | _ => rfl

end Term
end RefinementTypes
