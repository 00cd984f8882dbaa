import RefinementTypes.Proofs.Text.Whole
import RefinementTypes.Service.Answer

/-!
# Answers that can be sent

An answer can be sent exactly if its texts are whole: a result is looked at text by text, and an
envelope is whole as it is written exactly if the texts in it are.
-/

namespace RefinementTypes
namespace Service

/-- The surrogates that a failure tells of are there exactly if the text is not whole. -/
private theorem firstHalves_eq_nil_iff (t : Text) :
    (t.drop (t.takeWhile fun p => !p.isHalf).length).takeWhile CodePoint.isHalf = [] ↔
      t.isWhole = true := by
  induction t with
  | nil => simp
  | cons p t ih => cases hp : p.isHalf <;> simp [Text.isWhole_cons, hp, ih]

private theorem encodingFailure?_eq_none_iff {t : Text} :
    encodingFailure? t = none ↔ t.isWhole = true := by
  rw [← firstHalves_eq_nil_iff, encodingFailure?]
  split
  · rename_i hnone
    simp [hnone]
  · rename_i hone
    simp [hone]
  · rename_i hsome _
    simpa using hsome

@[simp]
theorem textFailure?_str {t : Text} : textFailure? (.str t) = none ↔ t.isWhole = true := by
  rw [textFailure?, encodingFailure?_eq_none_iff]

@[simp]
theorem textFailure?_ofText? {o : Option Text} :
    textFailure? (.ofText? o) = none ↔ ∀ t ∈ o, t.isWhole = true := by
  cases o with
  | none => simp [Json.ofText?, textFailure?]
  | some t => simp [Json.ofText?]

@[simp]
theorem textFailure?_array {vs : List Json} :
    textFailure? (.array vs) = none ↔ ∀ v ∈ vs, textFailure? v = none := by
  rw [textFailure?]
  induction vs with
  | nil => simp [itemsFailure?]
  | cons v vs ih => simp [itemsFailure?, Option.or_eq_none_iff, ih]

@[simp]
theorem textFailure?_object {ms : List (Text × Json)} :
    textFailure? (.object ms) = none ↔ ∀ m ∈ ms, textFailure? m.2 = none := by
  rw [textFailure?]
  induction ms with
  | nil => simp [membersFailure?]
  | cons m ms ih => simp [membersFailure?, Option.or_eq_none_iff, ih]

@[simp]
private theorem isWhole_compact_str (t : Text) : (Json.str t).compact.isWhole = t.isWhole := by
  simp [Json.compact, Json.write]

@[simp]
private theorem isWhole_compact_ofText? (o : Option Text) :
    (Json.ofText? o).compact.isWhole = o.toList.all Text.isWhole := by
  cases o <;> simp [Json.ofText?, Json.compact, Json.write]

@[simp]
private theorem isWhole_compact_object (ms : List (Text × Json)) :
    (Json.object ms).compact.isWhole = ms.all fun m => m.1.isWhole && m.2.compact.isWhole := by
  have hmembers : (Json.writeMembers .compact ms).all Text.isWhole =
      ms.all fun m => m.1.isWhole && m.2.compact.isWhole := by
    induction ms with
    | nil => rfl
    | cons m ms ih =>
        rw [Json.writeMembers, List.all_cons, List.all_cons, ih]
        simp [Json.Separators.compact, Json.compact]
  have hcomma : Json.Separators.compact.item.isWhole = true := rfl
  rw [Json.compact, Json.write, Text.isWhole_append, Text.isWhole_append, Text.isWhole_join hcomma,
    hmembers]
  simp

theorem sendingFailure?_result {body : Json} :
    sendingFailure? ⟨200, some body⟩ = none ↔ textFailure? body = none := by
  simp [sendingFailure?]

theorem sendingFailure?_envelope {body : Json} :
    sendingFailure? ⟨422, some body⟩ = none ↔ body.compact.isWhole = true := by
  rw [← encodingFailure?_eq_none_iff]
  rfl

theorem isWhole_envelope (f : Fault) (timestamp : Text) :
    (f.envelope timestamp).compact.isWhole = (f.code.isWhole && f.message.isWhole &&
      timestamp.isWhole && f.context.entries.all fun m => m.2.toList.all Text.isWhole) := by
  have hcategory : (Spelled.spelling f.category).isWhole = true := by cases f.category <;> rfl
  have hseverity : (Spelled.spelling f.severity).isWhole = true := by cases f.severity <;> rfl
  simp [Fault.envelope, Fault.envelopeOf, hcategory, hseverity, Context.json, Context.entries,
    Bool.and_assoc]

end Service
end RefinementTypes
