import RefinementTypes.Text.Quoted

/-!
# Quoted strings are read back

Every code point is written as one piece. An escaped control character is written as a unit of 16
bits, but as no half of a pair, so the pieces read back one by one.
-/

namespace RefinementTypes.Text

/-- What a piece writes on its own, if that does not depend on the piece behind it. -/
def Piece.Writes (piece : Piece) (p : CodePoint) : Prop :=
  piece = .whole p ∨ ∃ n, piece = .unit n ∧ Surrogate.isHigh n = false ∧ p = .ofNat n

private theorem Piece.Writes.ofPieces_cons {piece : Piece} {p : CodePoint} (h : piece.Writes p)
    (pieces : List Piece) : ofPieces (piece :: pieces) = p :: ofPieces pieces := by
  rcases h with rfl | ⟨n, rfl, hn, rfl⟩
  · rfl
  · cases pieces with
    | nil => rfl
    | cons q qs =>
        cases q with
        | whole q => rfl
        | unit low => simp [ofPieces, hn]

namespace Quoted

/-- The text of one code point inside the quotes. -/
def escaped : CodePoint → Text
  | .char c => ofChars (escape c)
  | .half s => [.half s]

theorem expand_cons (p : CodePoint) (t : Text) :
    expand escape (p :: t) = escaped p ++ expand escape t := by
  cases p <;> rfl

private theorem hexValue4?_control :
    ∀ n < 0x20, hexValue4? (.char '0') (.char '0') (.char (hexDigit (n / 16)))
      (.char (hexDigit n)) = some n := by
  decide

/-- A control character is written as an escaped unit of its number. -/
private theorem decodePieces_control {c : Char} (hcontrol : c.toNat < 0x20) (next : CodePoint)
    (rest : Text) :
    decodePieces (ofChars ['\\', 'u', '0', '0', hexDigit (c.toNat / 16), hexDigit c.toNat] ++
        next :: rest) = consPiece (.unit c.toNat) (decodePieces (next :: rest)) := by
  simp only [ofChars, List.map_cons, List.map_nil, List.cons_append, List.nil_append]
  rw [decodePieces, hexValue4?_control c.toNat hcontrol]

private theorem writes_control {c : Char} (hcontrol : c.toNat < 0x20) :
    (Piece.unit c.toNat).Writes (.char c) := by
  refine .inr ⟨c.toNat, rfl, ?_, (CodePoint.ofNat_toNat (.char c)).symm⟩
  simp only [Surrogate.isHigh, Bool.and_eq_false_iff, decide_eq_false_iff_not]
  omega

private theorem decodePieces_plain {p : CodePoint} (hquote : p ≠ .char '"')
    (hslash : p ≠ .char '\\') (hprintable : ¬ p.toNat < 0x20) (rest : Text) :
    decodePieces (p :: rest) = consPiece (.whole p) (decodePieces rest) := by
  rw [decodePieces, if_neg hprintable]
  · exact hquote
  all_goals simp [hslash]

private theorem decodePieces_escaped (p : CodePoint) (rest : Text) (hrest : rest ≠ []) :
    ∃ piece, piece.Writes p ∧
      decodePieces (escaped p ++ rest) = consPiece piece (decodePieces rest) := by
  cases p with
  | half s =>
      refine ⟨.whole (.half s), .inl rfl, decodePieces_plain (by simp) (by simp) ?_ rest⟩
      have := s.inRange
      simp only [CodePoint.toNat]
      omega
  | char c =>
      obtain ⟨next, rest, rfl⟩ := List.exists_cons_of_ne_nil hrest
      simp only [escaped]
      unfold escape
      split
      · exact ⟨_, .inl rfl, rfl⟩
      · exact ⟨_, .inl rfl, rfl⟩
      · exact ⟨_, .inl rfl, rfl⟩
      · exact ⟨_, .inl rfl, rfl⟩
      · exact ⟨_, .inl rfl, rfl⟩
      · exact ⟨_, .inl rfl, rfl⟩
      · exact ⟨_, .inl rfl, rfl⟩
      · by_cases hcontrol : c.toNat < 0x20
        · rw [if_pos hcontrol]
          exact ⟨_, writes_control hcontrol, decodePieces_control hcontrol next rest⟩
        · rename_i hquote hslash _ _ _ _ _
          rw [if_neg hcontrol]
          refine ⟨_, .inl rfl, decodePieces_plain (p := .char c) ?_ ?_ hcontrol _⟩
          · simpa using hquote
          · simpa using hslash

/-- Reading what is behind the opening quote of a string gives the string and the rest. -/
theorem decode_expand (t rest : Text) :
    decode (expand escape t ++ .char '"' :: rest) = .ok (t, rest) := by
  have hpieces : ∃ pieces, ofPieces pieces = t ∧
      decodePieces (expand escape t ++ .char '"' :: rest) = .ok (pieces, rest) := by
    induction t with
    | nil => exact ⟨[], rfl, rfl⟩
    | cons p t ih =>
        obtain ⟨pieces, hof, hdecode⟩ := ih
        obtain ⟨piece, hwrites, hfirst⟩ := decodePieces_escaped p
          (expand escape t ++ .char '"' :: rest) (by simp)
        refine ⟨piece :: pieces, ?_, ?_⟩
        · rw [hwrites.ofPieces_cons, hof]
        · rw [expand_cons, List.append_assoc, hfirst, hdecode]
          rfl
  obtain ⟨pieces, hof, hdecode⟩ := hpieces
  rw [decode, hdecode, ← hof]
  rfl

end Quoted
end RefinementTypes.Text
