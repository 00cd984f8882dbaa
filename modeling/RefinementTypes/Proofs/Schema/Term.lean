import RefinementTypes.Proofs.Schema.Field
import RefinementTypes.Term.Basic

/-!
# Terms read back

Readers of terms take back what has been written, and take nothing else: a term without cases whose
variables have names, which refers to no negative index and is not nested deeper than the readers
go. What an object reads as is settled by its kind, one reader deeper.
-/

namespace RefinementTypes

/-- A term that can be written as data, given what a name is. -/
inductive Term.Encodable (named : Text → Prop) : Term → Prop
  | var {name : Text} (h : named name) : Encodable named (.var name)
  | param {index : Int} (h : 0 ≤ index) : Encodable named (.param index)
  | app {fn arg : Term} (hfn : Encodable named fn) (harg : Encodable named arg)
      (info : Explicitness) : Encodable named (.app fn arg info)
  | lit (value : Literal) : Encodable named (.lit value)
  | hole : Encodable named .hole
  | pi {domain result : Term} (name : Option Text) (m : Multiplicity) (info : Explicitness)
      (hdomain : Encodable named domain) (hresult : Encodable named result) :
      Encodable named (.pi name m info domain result)

namespace Schema

/-- How many readers are at work inside one another where a term that stands at the given depth is
deepest. -/
def reach (depth : Depth) : Term → Nat
  | .app fn arg _ => max (reach (depth.enter .app) fn) (reach (depth.enter .app) arg)
  | .pi _ _ _ domain result =>
      max (reach (depth.enter .pi) domain) (reach (depth.enter .pi) result)
  | _ => depth.readers + 1

private theorem Depth.readers_lt_enter (depth : Depth) (kind : TermKind) :
    depth.readers < (depth.enter kind).readers := by
  obtain ⟨readers, family⟩ := depth
  cases kind <;> cases family <;> simp [enter]

private theorem readers_lt_reach (depth : Depth) (t : Term) : depth.readers < reach depth t := by
  induction t using Term.inductionOn generalizing depth with
  | app fn arg info ihf iha =>
      calc depth.readers < (depth.enter .app).readers := depth.readers_lt_enter .app
        _ < reach (depth.enter .app) fn := ihf _
        _ ≤ reach depth (.app fn arg info) := Nat.le_max_left ..
  | pi name m info domain result ihd ihr =>
      calc depth.readers < (depth.enter .pi).readers := depth.readers_lt_enter .pi
        _ < reach (depth.enter .pi) domain := ihd _
        _ ≤ reach depth (.pi name m info domain result) := Nat.le_max_left ..
  | _ => exact Nat.lt_succ_self _

private theorem lookup_readTermsAt (depth : Depth) (members : List (Text × Json)) (name : Text) :
    (readTermsAt depth members).lookup name = found members name (readTermAt depth) := by
  induction members with
  | nil => rfl
  | cons m ms ih =>
      obtain ⟨other, v⟩ := m
      by_cases h : name = other
      · simp [readTermsAt, h]
      · rw [readTermsAt, found_cons_ne h, ← ih, List.lookup_cons, beq_eq_false_iff_ne.2 h]

private theorem readTermAt_tagged {depth : Depth} (kind : TermKind) {members : List (Text × Json)}
    {t : Term} (hdepth : (depth.enter kind).readers ≤ Depth.limit) :
    readTermAt depth (tagged kind members) = .ok t ↔
      assemble (depth.enter kind) (("kind", spelledJson kind) :: members)
        (readTermsAt (depth.enter kind) (("kind", spelledJson kind) :: members)) kind = .ok t := by
  rw [tagged, readTermAt, readTagged_cons_kind, Checked.under_eq_ok, if_neg (by omega)]

/-- What can be read for an object of a kind, given the depth inside of it. -/
inductive Assembled (inside : Depth) : TermKind → Term → Prop
  | var {name : Text} (h : IsName name) : Assembled inside .var (.var name)
  | param {index : Int} (h : 0 ≤ index) : Assembled inside .param (.param index)
  | app {fn arg : Term} {v w : Json} (hfn : readTermAt inside v = .ok fn)
      (harg : readTermAt inside w = .ok arg) (info : Explicitness) :
      Assembled inside .app (.app fn arg info)
  | lit (value : Literal) : Assembled inside .lit (.lit value)
  | hole : Assembled inside .hole .hole
  | pi {domain result : Term} {v w : Json} (name : Option Text) (m : Multiplicity)
      (info : Explicitness) (hdomain : readTermAt inside v = .ok domain)
      (hresult : readTermAt inside w = .ok result) :
      Assembled inside .pi (.pi name m info domain result)

private theorem assembled_of_assemble {inside : Depth} {members : List (Text × Json)}
    {kind : TermKind}
    {t : Term} (h : assemble inside members (readTermsAt inside members) kind = .ok t) :
    Assembled inside kind t := by
  cases kind with
  | var =>
      simp only [assemble, Checked.map_eq_ok, required_eq_ok, found_eq_some, readName_eq_ok] at h
      obtain ⟨name, ⟨v, _, _, hname⟩, rfl⟩ := h
      exact .var hname
  | param =>
      simp only [assemble, Checked.map_eq_ok, required_eq_ok, found_eq_some,
        readIntegerFrom_eq_ok] at h
      obtain ⟨index, ⟨v, _, _, hindex⟩, rfl⟩ := h
      exact .param hindex
  | app =>
      simp only [assemble, Checked.map_eq_ok, Checked.both_eq_ok, required_eq_ok,
        lookup_readTermsAt, found_eq_some] at h
      obtain ⟨⟨fn, arg, info⟩, ⟨⟨v, _, hfn⟩, ⟨w, _, harg⟩, _⟩, rfl⟩ := h
      exact .app hfn harg info
  | lit =>
      simp only [assemble, Checked.map_eq_ok] at h
      obtain ⟨value, _, rfl⟩ := h
      exact .lit value
  | hole =>
      cases h
      exact .hole
  | pi =>
      simp only [assemble, Checked.map_eq_ok, Checked.both_eq_ok, required_eq_ok,
        lookup_readTermsAt, found_eq_some] at h
      obtain ⟨⟨name, m, info, domain, result⟩,
        ⟨_, _, _, ⟨v, _, hdomain⟩, ⟨w, _, hresult⟩⟩, rfl⟩ := h
      exact .pi name m info hdomain hresult

private theorem exists_assembled {depth : Depth} {v : Json} {t : Term}
    (h : readTermAt depth v = .ok t) :
    ∃ kind, (depth.enter kind).readers ≤ Depth.limit ∧ Assembled (depth.enter kind) kind t := by
  cases v with
  | object members =>
      rw [readTermAt] at h
      obtain ⟨kind, h⟩ := exists_kind_of_readTagged h
      dsimp only at h
      split at h
      · cases h
      · rename_i hdepth
        exact ⟨kind, by omega, assembled_of_assemble h⟩
  | _ => cases h

theorem encodable_of_readTermAt {depth : Depth} {v : Json} {t : Term}
    (h : readTermAt depth v = .ok t) : t.Encodable IsName ∧ reach depth t ≤ Depth.limit := by
  induction t using Term.inductionOn generalizing depth v with
  | app fn arg info ihf iha =>
      obtain ⟨kind, _, h⟩ := exists_assembled h
      cases h with
      | app hfn harg =>
          obtain ⟨hfn, hreach⟩ := ihf hfn
          obtain ⟨harg, hreach'⟩ := iha harg
          exact ⟨.app hfn harg info, Nat.max_le.2 ⟨hreach, hreach'⟩⟩
  | pi name m info domain result ihd ihr =>
      obtain ⟨kind, _, h⟩ := exists_assembled h
      cases h with
      | pi _ _ _ hdomain hresult =>
          obtain ⟨hdomain, hreach⟩ := ihd hdomain
          obtain ⟨hresult, hreach'⟩ := ihr hresult
          exact ⟨.pi name m info hdomain hresult, Nat.max_le.2 ⟨hreach, hreach'⟩⟩
  | var name =>
      obtain ⟨kind, hdepth, h⟩ := exists_assembled h
      cases h with
      | var hname => exact ⟨.var hname, hdepth⟩
  | param index =>
      obtain ⟨kind, hdepth, h⟩ := exists_assembled h
      cases h with
      | param hindex => exact ⟨.param hindex, hdepth⟩
  | lit value =>
      obtain ⟨kind, hdepth, h⟩ := exists_assembled h
      cases h
      exact ⟨.lit value, hdepth⟩
  | hole =>
      obtain ⟨kind, hdepth, h⟩ := exists_assembled h
      cases h
      exact ⟨.hole, hdepth⟩
  | case scrutinee alternatives =>
      obtain ⟨kind, _, h⟩ := exists_assembled h
      cases h

@[simp]
private theorem readLiteral_literalJson (value : Literal) :
    readLiteral (literalJson value) = .ok value := by
  cases value <;> rfl

private theorem readInfo_spelledJson {depth : Depth} (h : depth.readers < Depth.limit)
    (info : Explicitness) : readInfo depth (spelledJson info) = .ok info := by
  simp [readInfo, h]

theorem readTermAt_termJson {depth : Depth} {t : Term} (h : t.Encodable IsName)
    (hreach : reach depth t ≤ Depth.limit) : readTermAt depth (termJson t) = .ok t := by
  -- The depth grows on the way down, so what carries the induction is how deep the term reaches.
  induction h generalizing depth with
  | var hname =>
      rw [termJson, readTermAt_tagged .var hreach]
      simp (disch := decide) [assemble, hname]
  | param hindex =>
      rw [termJson, readTermAt_tagged .param hreach]
      simp (disch := decide) [assemble, readIntegerFrom_eq_ok, readInteger, hindex]
  | @app fn arg _ _ info ihf iha =>
      obtain ⟨hfn, harg⟩ := Nat.max_le.1 hreach
      have hinside := Nat.lt_of_lt_of_le (readers_lt_reach _ fn) hfn
      rw [termJson, readTermAt_tagged .app (Nat.le_of_lt hinside)]
      simp (disch := decide) [assemble, lookup_readTermsAt, ihf hfn, iha harg,
        readInfo_spelledJson hinside]
  | lit value =>
      rw [termJson, readTermAt_tagged .lit hreach]
      simp (disch := decide) [assemble]
  | hole =>
      rw [termJson, readTermAt_tagged .hole hreach]
      rfl
  | @pi domain result name m info _ _ ihd ihr =>
      obtain ⟨hdomain, hresult⟩ := Nat.max_le.1 hreach
      have hinside := Nat.lt_of_lt_of_le (readers_lt_reach _ domain) hdomain
      rw [termJson, readTermAt_tagged .pi (Nat.le_of_lt hinside)]
      simp (disch := decide) [assemble, lookup_readTermsAt, ihd hdomain, ihr hresult,
        readInfo_spelledJson hinside]

end Schema
end RefinementTypes
