import RefinementTypes.Proofs.Json.Machine
import RefinementTypes.Proofs.Schema.Descriptor
import RefinementTypes.Service.Exchange

/-!
# Bodies of requests

A body that starts with two ASCII characters is UTF-8, and a request is in it if the reader of JSON
comes to its end.
-/

namespace RefinementTypes

namespace Text

private theorem Encoding.ofBytes_of_ne_zero {a b : UInt8} (ha : a ≠ 0) (hb : b ≠ 0)
    (bytes : List UInt8) :
    ofBytes (a :: b :: bytes) = .utf8 := by
  rcases bytes with _ | ⟨c, _ | ⟨d, bytes⟩⟩ <;> simp [ofBytes, ha, hb]

/-- An ASCII character other than NUL, so that no byte of a text before it is zero. -/
def IsMark (c : Char) : Prop := 0 < c.toNat ∧ c.toNat < 0x80

private theorem IsMark.utf8EncodeChar {c : Char} (h : IsMark c) :
    ∃ byte, byte ≠ 0 ∧ String.utf8EncodeChar c = [byte] := by
  obtain ⟨hpos, hlt⟩ := h
  have hval : c.val.toNat = c.toNat := rfl
  refine ⟨c.val.toUInt8, ?_, String.utf8EncodeChar_eq_singleton ?_⟩
  · intro hzero
    have hnat : c.toNat % 256 = 0 := by
      rw [← hval, ← UInt32.toNat_toUInt8, hzero]
      rfl
    omega
  · have hlimit : (127 : UInt32).toNat = 127 := rfl
    rw [Char.utf8Size_eq_one_iff, UInt32.le_iff_toNat_le]
    omega

private theorem jsonText?_of_isMark {a b : Char} (ha : IsMark a) (hb : IsMark b) (cs : List Char) :
    jsonText? (String.ofList (a :: b :: cs)) = some (ofChars (a :: b :: cs)) := by
  obtain ⟨first, hfirst, hbytes⟩ := ha.utf8EncodeChar
  obtain ⟨second, hsecond, hbytes'⟩ := hb.utf8EncodeChar
  have hmark : a ≠ '\ufeff' := by
    rintro rfl
    exact absurd ha.2 (by decide)
  have hdrop : dropByteOrderMark (ofString (String.ofList (a :: b :: cs))) =
      ofChars (a :: b :: cs) := by
    rw [ofString, String.toList_ofList]
    simp only [ofChars, List.map_cons]
    rw [dropByteOrderMark]
    simpa using hmark
  rw [jsonText?, String.toList_ofList, List.flatMap_cons, List.flatMap_cons, hbytes, hbytes', hdrop]
  simp only [List.cons_append, List.nil_append]
  rw [Encoding.ofBytes_of_ne_zero hfirst hsecond]
  rfl

end Text

namespace Service
open Json (run? skipSpaces)
open Schema (IsName IsReadable)
variable {request : DerivationRequest}

theorem readBody_of_run {body : String} {a b : Char} {cs : List Char}
    (hbody : body = String.ofList (a :: b :: cs)) (ha : Text.IsMark a) (hb : Text.IsMark b)
    {n : Nat} {v : Json} {rest : Text}
    (hrun : run? n (.ahead [] (skipSpaces (Text.ofChars (a :: b :: cs)))) =
      some (.behind v [] rest)) (hrest : skipSpaces rest = [])
    (hrequest : Schema.readRequest .request v = .ok request) : readBody body = .ok request := by
  have hempty : body.isEmpty = false := by
    rw [hbody]
    simp
  have htext : Text.jsonText? body = some (Text.ofChars (a :: b :: cs)) := by
    rw [hbody, Text.jsonText?_of_isMark ha hb]
  simp only [readBody, hempty, htext, Json.parse_of_run hrun hrest, hrequest]
  rfl

private theorem exists_json_of_readBody {body : String} (h : readBody body = .ok request) :
    ∃ v, Schema.readRequest .request v = .ok request := by
  rw [readBody] at h
  split at h
  · cases h
  split at h
  · cases h
  split at h
  · cases h
  rename_i v _
  refine ⟨v, ?_⟩
  cases hv : Schema.readRequest .request v with
  | error complaints =>
      rw [hv] at h
      cases h
  | ok read =>
      rw [hv] at h
      cases h
      rfl

theorem encodable_of_readBody {body : String} (h : readBody body = .ok request) :
    request.descriptor.Encodable IsName IsReadable := by
  obtain ⟨v, hv⟩ := exists_json_of_readBody h
  obtain ⟨members, _, hmembers⟩ := Schema.readModel_eq_ok.1 hv
  simp only [Schema.Checked.map_eq_ok, Schema.Checked.both_eq_ok, Schema.required_eq_ok,
    Schema.found_eq_some] at hmembers
  obtain ⟨⟨strategy, descriptor, visibility⟩, ⟨_, ⟨_, _, hdescriptor⟩, _⟩, rfl⟩ := hmembers
  exact Schema.encodable_of_readDescriptor hdescriptor

end Service
end RefinementTypes
