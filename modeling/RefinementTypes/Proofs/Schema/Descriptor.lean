import RefinementTypes.Proofs.Schema.Term
import RefinementTypes.Proofs.Term.Leaves
import RefinementTypes.Schema.Descriptor

/-!
# Descriptors read back

A descriptor that can be written as data is read back as it was, and readers yield no other. Beside
the signs of numbers and the presence of names this takes names that can be encoded, and terms
that are not nested deeper than readers go; without these two there are descriptors that no data
reads as.
-/

namespace RefinementTypes

-- What can be written is stated over what a name is and which terms can be written.
section
variable (named : Text → Prop) (written : Term → Prop)

def Argument.Encodable : Argument → Prop
  | .param index => 0 ≤ index
  | .named a => written a.type

structure TypeParameter.Encodable (p : TypeParameter) : Prop where
  name : named p.name
  type : written p.type

structure Constructor.Encodable (c : Constructor) : Prop where
  name : named c.name
  args : ∀ a ∈ c.args, a.Encodable written

structure Location.Encodable (l : Location) : Prop where
  line : 1 ≤ l.line
  column : 0 ≤ l.column

structure TypeDescriptor.Encodable (d : TypeDescriptor) : Prop where
  name : named d.name
  params : ∀ p ∈ d.params, p.Encodable named written
  constructors : ∀ c ∈ d.constructors, c.Encodable named written
  location : ∀ l ∈ d.location, l.Encodable

end

namespace Schema

/-- A term that a reader can reach all of. -/
def IsReadable (t : Term) : Prop := t.Encodable IsName ∧ reach .outside t ≤ Depth.limit

section
variable {α : Type} {read : Json → Checked α} {members : List (Text × Json)} {name : Text}

private theorem readList_map {write : α → Json} {xs : List α}
    (h : ∀ x ∈ xs, read (write x) = .ok x) :
    readList read (.array (xs.map write)) = .ok xs := by
  rw [readList_eq_ok]
  refine ⟨_, rfl, ?_⟩
  rw [List.forall₂_map_left_iff, List.forall₂_same]
  exact h

/-- Where the members of a list that may be absent have been read. -/
private theorem exists_read_of_mem_list {as : List α} {a : α}
    (h : optional name [] (found members name (readList read)) = .ok as) (ha : a ∈ as) :
    ∃ v, read v = .ok a := by
  rcases optional_eq_ok.1 h with h | ⟨_, rfl⟩
  · obtain ⟨v, _, hv⟩ := found_eq_some.1 h
    obtain ⟨items, _, hitems⟩ := readList_eq_ok.1 hv
    obtain ⟨item, _, hitem⟩ := exists_of_mem_right hitems ha
    exact ⟨item, hitem⟩
  · cases ha

private theorem exists_read_of_mem_nullable {o : Option α} {a : α}
    (h : optional name none (found members name (readNullable read)) = .ok o) (ha : a ∈ o) :
    ∃ v, read v = .ok a := by
  rcases optional_eq_ok.1 h with h | ⟨_, rfl⟩
  · obtain ⟨v, _, hv⟩ := found_eq_some.1 h
    unfold readNullable at hv
    split at hv
    · cases hv
      cases ha
    · obtain ⟨b, hb, rfl⟩ := Checked.map_eq_ok.1 hv
      cases ha
      exact ⟨_, hb⟩
  · cases ha

end

private theorem isReadable_of_readTerm {v : Json} {t : Term} (h : readTerm v = .ok t) :
    IsReadable t :=
  encodable_of_readTermAt h

theorem readTerm_termJson {t : Term} (h : IsReadable t) : readTerm (termJson t) = .ok t :=
  readTermAt_termJson h.1 h.2

private theorem encodable_of_readArgument {v : Json} {a : Argument} (h : readArgument v = .ok a) :
    a.Encodable IsReadable := by
  cases v with
  | object members =>
      obtain ⟨kind, h⟩ := exists_kind_of_readTagged h
      cases kind with
      | param =>
          simp only [assembleArgument, Checked.map_eq_ok, required_eq_ok, found_eq_some,
            readIntegerFrom_eq_ok] at h
          obtain ⟨index, ⟨_, _, _, hindex⟩, rfl⟩ := h
          exact hindex
      | named =>
          simp only [assembleArgument, Checked.map_eq_ok, Checked.both_eq_ok, required_eq_ok,
            found_eq_some] at h
          obtain ⟨⟨name, m, info, type⟩, ⟨_, _, _, ⟨_, _, htype⟩⟩, rfl⟩ := h
          exact isReadable_of_readTerm htype
  | _ => cases h

private theorem readArgument_argumentJson {a : Argument} (h : a.Encodable IsReadable) :
    readArgument (argumentJson a) = .ok a := by
  cases a with
  | param index =>
      have hindex : 0 ≤ index := h
      simp (disch := decide) [argumentJson, tagged, readArgument, readTagged_cons_kind,
        assembleArgument, readIntegerFrom_eq_ok, readInteger, hindex]
  | named a =>
      simp (disch := decide) [argumentJson, tagged, readArgument, readTagged_cons_kind,
        assembleArgument, readTerm_termJson h]

variable {e : Entrance}

private theorem encodable_of_readParameter {v : Json} {p : TypeParameter}
    (h : readParameter e v = .ok p) : p.Encodable IsName IsReadable := by
  obtain ⟨members, rfl, hmembers⟩ := readModel_eq_ok.1 h
  simp only [Checked.map_eq_ok, Checked.both_eq_ok, required_eq_ok, found_eq_some,
    readName_eq_ok] at hmembers
  obtain ⟨⟨name, type⟩, ⟨⟨_, _, _, hname⟩, ⟨_, _, htype⟩⟩, rfl⟩ := hmembers
  exact ⟨hname, isReadable_of_readTerm htype⟩

private theorem readParameter_parameterJson {p : TypeParameter}
    (h : p.Encodable IsName IsReadable) :
    readParameter e (parameterJson p) = .ok p := by
  simp (disch := decide) [parameterJson, readParameter, readModel_eq_ok, h.name,
    readTerm_termJson h.type]

private theorem encodable_of_readConstructor {v : Json} {c : Constructor}
    (h : readConstructor e v = .ok c) : c.Encodable IsName IsReadable := by
  obtain ⟨members, rfl, hmembers⟩ := readModel_eq_ok.1 h
  simp only [Checked.map_eq_ok, Checked.both_eq_ok, required_eq_ok, found_eq_some,
    readName_eq_ok] at hmembers
  obtain ⟨⟨name, args⟩, ⟨⟨_, _, _, hname⟩, hargs⟩, rfl⟩ := hmembers
  refine ⟨hname, fun a ha => ?_⟩
  obtain ⟨v, hv⟩ := exists_read_of_mem_list hargs ha
  exact encodable_of_readArgument hv

private theorem readConstructor_constructorJson {c : Constructor}
    (h : c.Encodable IsName IsReadable) :
    readConstructor e (constructorJson c) = .ok c := by
  have hargs := readList_map fun a ha => readArgument_argumentJson (h.args a ha)
  simp (disch := decide) [constructorJson, readConstructor, readModel_eq_ok, h.name, hargs]

private theorem encodable_of_readLocation {v : Json} {l : Location} (h : readLocation e v = .ok l) :
    l.Encodable := by
  obtain ⟨members, rfl, hmembers⟩ := readModel_eq_ok.1 h
  simp only [Checked.map_eq_ok, Checked.both_eq_ok, required_eq_ok, optional_eq_ok, found_eq_some,
    readIntegerFrom_eq_ok] at hmembers
  obtain ⟨⟨file, line, column⟩, ⟨_, ⟨_, _, _, hline⟩, hcolumn⟩, rfl⟩ := hmembers
  refine ⟨hline, ?_⟩
  rcases hcolumn with ⟨_, _, _, hcolumn⟩ | ⟨_, rfl⟩
  · exact hcolumn
  · exact Int.le_refl 0

private theorem readLocation_locationJson {l : Location} (h : l.Encodable) :
    readLocation e (locationJson l) = .ok l := by
  simp (disch := decide) [locationJson, readLocation, readModel_eq_ok, readIntegerFrom_eq_ok,
    readInteger, h.line, h.column]

theorem encodable_of_readDescriptor {v : Json} {d : TypeDescriptor}
    (h : readDescriptor e v = .ok d) : d.Encodable IsName IsReadable := by
  obtain ⟨members, rfl, hmembers⟩ := readModel_eq_ok.1 h
  simp only [Checked.map_eq_ok, Checked.settled_eq_ok, Checked.both_eq_ok, required_eq_ok,
    found_eq_some, readName_eq_ok] at hmembers
  obtain ⟨⟨name, params, constructors, location⟩,
    ⟨⟨_, _, _, hname⟩, hparams, hconstructors, hlocation⟩, rfl⟩ := hmembers
  constructor
  case name => exact hname
  case params =>
    intro p hp
    obtain ⟨v, hv⟩ := exists_read_of_mem_list hparams hp
    exact encodable_of_readParameter hv
  case constructors =>
    intro c hc
    obtain ⟨v, hv⟩ := exists_read_of_mem_list hconstructors hc
    exact encodable_of_readConstructor hv
  case location =>
    intro l hl
    obtain ⟨v, hv⟩ := exists_read_of_mem_nullable hlocation hl
    exact encodable_of_readLocation hv

theorem readDescriptor_descriptorJson {d : TypeDescriptor} (h : d.Encodable IsName IsReadable) :
    readDescriptor e (descriptorJson d) = .ok d := by
  have hparams := readList_map fun p hp => readParameter_parameterJson (e := e) (h.params p hp)
  have hconstructors := readList_map fun c hc =>
    readConstructor_constructorJson (e := e) (h.constructors c hc)
  have hlocation : readNullable (readLocation e) ((d.location.map locationJson).getD .null) =
      .ok d.location := by
    cases hl : d.location with
    | none => rfl
    | some l => exact Checked.map_eq_ok.2 ⟨l, readLocation_locationJson (h.location l hl), rfl⟩
  simp (disch := decide) [descriptorJson, readDescriptor, readModel_eq_ok, h.name, hparams,
    hconstructors, hlocation]

/-- The descriptors that are read back as they were written, and those that anything reads as. -/
theorem readDescriptor_iff (e : Entrance) (d : TypeDescriptor) :
    (readDescriptor e (descriptorJson d) = .ok d ↔ d.Encodable IsName IsReadable) ∧
      ((∃ v, readDescriptor e v = .ok d) ↔ d.Encodable IsName IsReadable) :=
  ⟨⟨encodable_of_readDescriptor, readDescriptor_descriptorJson⟩,
    ⟨fun ⟨_, h⟩ => encodable_of_readDescriptor h, fun h => ⟨_, readDescriptor_descriptorJson h⟩⟩⟩

/-- What a descriptor with only finite literals needs to be written, whatever readers make of it. -/
def IsWritten (d : TypeDescriptor) : Prop :=
  d.Encodable (· ≠ "") fun t =>
    t.Encodable (· ≠ "") ∧ ∀ x : Binary64, .literal (.float x) ∈ t.leaves → x.isFinite

/-- Arrows one in the result of the other. -/
def arrows : Nat → Term
  | 0 => .hole
  | n + 1 => .pi none .unrestricted .explicit .hole (arrows n)

private theorem encodable_arrows (named : Text → Prop) (n : Nat) : (arrows n).Encodable named := by
  induction n with
  | zero => exact .hole
  | succ n ih => exact .pi none .unrestricted .explicit .hole ih

private theorem leaves_arrows (n : Nat) : (arrows n).leaves = [] := by
  induction n with
  | zero => rfl
  | succ n ih => simpa [arrows, Term.leaves] using ih

/-- The outermost arrow takes two readers, every other one and the hole at the end take one. -/
private theorem reach_arrows (n : Nat) : reach .outside (arrows (n + 1)) = n + 3 := by
  have hinner : ∀ readers, reach ⟨readers, .arrows⟩ (arrows n) = readers + n + 1 := by
    induction n with
    | zero => intro readers; rfl
    | succ n ih =>
        intro readers
        have hstep : reach ⟨readers, .arrows⟩ (arrows (n + 1)) =
            max (readers + 1 + 1) (reach ⟨readers + 1, .arrows⟩ (arrows n)) := rfl
        rw [hstep, ih]
        omega
  have houter : reach .outside (arrows (n + 1)) = max (2 + 1) (reach ⟨2, .arrows⟩ (arrows n)) := rfl
  rw [houter, hinner]
  omega

/-- A descriptor whose only parameter has the given type. -/
def parametric (name : Text) (type : Term) : TypeDescriptor := ⟨name, [⟨"f", type⟩], [], none⟩

private theorem isWritten_parametric_arrows {name : Text} (h : name ≠ "") (n : Nat) :
    IsWritten (parametric name (arrows n)) where
  name := h
  params := by
    intro p hp
    obtain rfl := List.mem_singleton.1 hp
    have hname : ("f" : Text) ≠ "" := by decide
    exact ⟨hname, encodable_arrows _ n, by simp [leaves_arrows]⟩
  constructors := fun c hc => by cases hc
  location := fun l hl => by cases hl

/-- Nothing reads as 254 arrows one in the result of the other, nor as a name with half of a
pair. -/
theorem readDescriptor_limits :
    (IsWritten (parametric "Tower" (arrows 254)) ∧
      readDescriptor .direct (descriptorJson (parametric "Tower" (arrows 254))) ≠
        .ok (parametric "Tower" (arrows 254))) ∧
    (IsWritten (parametric [.ofNat 0xd800] (arrows 0)) ∧
      readDescriptor .direct (descriptorJson (parametric [.ofNat 0xd800] (arrows 0))) ≠
        .ok (parametric [.ofNat 0xd800] (arrows 0))) := by
  refine ⟨⟨isWritten_parametric_arrows (by decide) 254, fun h => ?_⟩,
    ⟨isWritten_parametric_arrows (by decide) 0, fun h => ?_⟩⟩
  · have hparam := (encodable_of_readDescriptor h).params _ (List.mem_singleton_self _)
    have hreach : reach .outside (arrows 254) ≤ Depth.limit := hparam.type.2
    rw [reach_arrows] at hreach
    exact absurd hreach (by decide)
  · have hwhole := (encodable_of_readDescriptor h).name.2
    exact absurd hwhole (by decide)

end Schema
end RefinementTypes
