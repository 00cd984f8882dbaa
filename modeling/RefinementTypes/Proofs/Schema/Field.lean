import RefinementTypes.Proofs.Checked
import RefinementTypes.Schema.Descriptor

/-!
# Readers that succeed

What a reader has found when it yields a value. A field that is written reads back as the field of
its name, whatever stands around it.
-/

namespace RefinementTypes

/-- Every member is read back from its word. -/
class LawfulSpelled (α : Type) [Spelled α] : Prop where
  parse?_spelling (a : α) : Spelled.parse? (Spelled.spelling a) = some a

instance : LawfulSpelled Multiplicity := ⟨fun a => by cases a <;> rfl⟩

instance : LawfulSpelled Explicitness := ⟨fun a => by cases a <;> rfl⟩

namespace Schema

instance : LawfulSpelled TermKind := ⟨fun a => by cases a <;> rfl⟩

instance : LawfulSpelled ArgumentKind := ⟨fun a => by cases a <;> rfl⟩

namespace Checked
variable {α β : Type}

@[simp]
private theorem fail_ne_ok {problem : Problem} {a : α} : fail problem ≠ .ok a := nofun

@[simp]
theorem map_eq_ok {r : Checked α} {f : α → β} {b : β} :
    r.map f = .ok b ↔ ∃ a, r = .ok a ∧ f a = b := by
  cases r <;> simp [Except.map]

@[simp]
theorem under_eq_ok {step : Text} {r : Checked α} {a : α} : r.under step = .ok a ↔ r = .ok a := by
  cases r <;> simp [under]

@[simp]
theorem both_eq_ok {x : Checked α} {y : Checked β} {p : α × β} :
    x.both y = .ok p ↔ x = .ok p.1 ∧ y = .ok p.2 := by
  cases x <;> cases y <;> simp [both, Prod.ext_iff]

@[simp]
theorem holding_eq_ok {hold : Option Hold} {r : Checked α} {a : α} :
    r.holding hold = .ok a ↔ r = .ok a := by
  cases r <;> simp [holding, Except.mapError]

@[simp]
theorem settled_eq_ok {r : Checked α} {a : α} : r.settled = .ok a ↔ r = .ok a := by
  cases r <;> simp [settled, Except.mapError]

private theorem all_eq_ok {start : Nat} {xs : List (Checked α)} {as : List α} :
    all start xs = .ok as ↔ List.Forall₂ (· = .ok ·) xs as := by
  induction xs generalizing start as with
  | nil => simp [all, eq_comm]
  | cons x xs ih => cases as <;> simp [all, ih]

end Checked

/-- A text that can name something: one that has characters and can be encoded. -/
def IsName (s : Text) : Prop := s ≠ "" ∧ s.isWhole = true

@[simp]
theorem readString_eq_ok {v : Json} {s : Text} : readString v = .ok s ↔ v = .str s := by
  cases v <;> simp [readString]

@[simp]
theorem readName_eq_ok {v : Json} {s : Text} : readName v = .ok s ↔ v = .str s ∧ IsName s := by
  constructor
  · intro h
    cases v with
    | str t =>
        simp only [readName] at h
        split at h
        · cases h
        · rename_i hwhole
          split at h
          · cases h
          · rename_i hempty
            cases h
            exact ⟨rfl, fun ht => hempty (List.isEmpty_iff.2 ht), by simpa using hwhole⟩
    | _ => cases h
  · rintro ⟨rfl, hne, hwhole⟩
    have hempty : s.isEmpty = false := List.isEmpty_eq_false_iff.2 hne
    simp [readName, hwhole, hempty]

@[simp]
theorem readSpelled_spelledJson {α : Type} [Spelled α] [LawfulSpelled α] (a : α) :
    readSpelled (spelledJson a) = .ok a := by
  simp [readSpelled, spelledJson, LawfulSpelled.parse?_spelling]

@[simp]
theorem readNullable_ofText? (name : Option Text) :
    readNullable readString (.ofText? name) = .ok name := by
  cases name <;> rfl

theorem readList_eq_ok {α : Type} {read : Json → Checked α} {v : Json} {as : List α} :
    readList read v = .ok as ↔
      ∃ items, v = .array items ∧ List.Forall₂ (read · = .ok ·) items as := by
  cases v <;> simp [readList, Checked.all_eq_ok]

theorem readIntegerFrom_eq_ok {bound i : Int} {v : Json} :
    readIntegerFrom bound v = .ok i ↔ readInteger v = .ok i ∧ bound ≤ i := by
  cases h : readInteger v with
  | error cs => simp [readIntegerFrom, h, Except.bind]
  | ok j =>
      by_cases hj : bound ≤ j
      · simp only [readIntegerFrom, h, Except.bind, hj, if_true, Except.ok.injEq]
        constructor
        · rintro rfl
          exact ⟨rfl, hj⟩
        · exact And.left
      · simp only [readIntegerFrom, h, Except.bind, hj, if_false, Except.ok.injEq,
          Checked.fail_ne_ok, false_iff, not_and]
        rintro rfl
        exact hj

variable {α : Type} {members : List (Text × Json)} {name other : Text} {read : Json → Checked α}
  {a default : α}

@[simp]
theorem required_eq_ok {r : Option (Checked α)} : required name r = .ok a ↔ r = some (.ok a) := by
  cases r <;> simp [required]

@[simp]
theorem optional_eq_ok {r : Option (Checked α)} :
    optional name default r = .ok a ↔ r = some (.ok a) ∨ r = none ∧ default = a := by
  cases r <;> simp [optional]

theorem found_eq_some {r : Checked α} :
    found members name read = some r ↔ ∃ v, members.lookup name = some v ∧ read v = r := by
  simp [found]

@[simp]
theorem found_cons_self {v : Json} : found ((name, v) :: members) name read = some (read v) := by
  simp [found]

@[simp]
theorem found_cons_ne {v : Json} (h : name ≠ other) :
    found ((other, v) :: members) name read = found members name read := by
  simp [found, List.lookup_cons, beq_eq_false_iff_ne.2 h]

theorem readModel_eq_ok {e : Entrance} {model : Text} {read : List (Text × Json) → Checked α}
    {v : Json} :
    readModel e model read v = .ok a ↔ ∃ members, v = .object members ∧ read members = .ok a := by
  cases v <;> simp [readModel]

variable {κ : Type} [Spelled κ] {readKind : κ → Checked α}

theorem readTagged_cons_kind [LawfulSpelled κ] (kind : κ) :
    readTagged (("kind", spelledJson kind) :: members) readKind =
      (readKind kind).under (Spelled.spelling kind) := by
  simp [readTagged, spelledJson, LawfulSpelled.parse?_spelling]

theorem exists_kind_of_readTagged (h : readTagged members readKind = .ok a) :
    ∃ kind, readKind kind = .ok a := by
  unfold readTagged at h
  split at h
  · cases h
  · split at h
    · split at h
      · exact ⟨_, Checked.under_eq_ok.1 h⟩
      · cases h
    · cases h

end Schema
end RefinementTypes
