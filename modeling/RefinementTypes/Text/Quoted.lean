import RefinementTypes.Text.Basic

/-!
# Quoted strings

A string in double quotes, in which only the quote, the backslash and the control characters below
the space are escaped. `decode` reads what `encode` writes and every other spelling of the JSON
grammar; when it fails it says where. An escape names a unit of 16 bits.
-/

namespace RefinementTypes.Text.Quoted

def hexDigit (n : Nat) : Char := Nat.digitChar (n % 16)

def escape (c : Char) : List Char :=
  match c with
  | '"' => ['\\', '"']
  | '\\' => ['\\', '\\']
  | '\n' => ['\\', 'n']
  | '\r' => ['\\', 'r']
  | '\t' => ['\\', 't']
  | '\x08' => ['\\', 'b']
  | '\x0c' => ['\\', 'f']
  | c => if c.toNat < 0x20 then ['\\', 'u', '0', '0', hexDigit (c.toNat / 16), hexDigit c.toNat]
      else [c]

def encode (t : Text) : Text := .char '"' :: (expand escape t ++ [.char '"'])

/-- Why a quoted string cannot be read. A place is given by the number of code points from it to the
end of the text. -/
inductive Failure where
  | unterminated
  | misplaced (remaining : Nat)
deriving DecidableEq

def hexValue? : CodePoint → Option Nat
  | .char c =>
      if '0' ≤ c ∧ c ≤ '9' then some (c.toNat - '0'.toNat)
      else if 'a' ≤ c ∧ c ≤ 'f' then some (c.toNat - 'a'.toNat + 10)
      else if 'A' ≤ c ∧ c ≤ 'F' then some (c.toNat - 'A'.toNat + 10)
      else none
  | .half _ => none

def hexValue4? (a b c d : CodePoint) : Option Nat := do
  let a ← hexValue? a
  let b ← hexValue? b
  let c ← hexValue? c
  let d ← hexValue? d
  return ((a * 16 + b) * 16 + c) * 16 + d

/-- The character behind a backslash and a single letter. -/
def shortEscape? : CodePoint → Option Char
  | .char '"' => some '"'
  | .char '\\' => some '\\'
  | .char '/' => some '/'
  | .char 'b' => some '\x08'
  | .char 'f' => some '\x0c'
  | .char 'n' => some '\n'
  | .char 'r' => some '\r'
  | .char 't' => some '\t'
  | _ => none

/-- Adds a piece in front of what has been read. -/
def consPiece (piece : Piece) (r : Except Failure (List Piece × Text)) :
    Except Failure (List Piece × Text) :=
  r.map fun (pieces, rest) => (piece :: pieces, rest)

/-- Reads the pieces after the opening quote, up to and including the closing one, and returns them
with the rest of the text. -/
def decodePieces : Text → Except Failure (List Piece × Text)
  | [] => .error .unterminated
  | .char '"' :: rest => .ok ([], rest)
  | [.char '\\'] => .error .unterminated
  | .char '\\' :: .char 'u' :: a :: b :: c :: d :: next :: r =>
      match hexValue4? a b c d with
      | none => .error (.misplaced (r.length + 6))
      | some n => consPiece (.unit n) (decodePieces (next :: r))
  | .char '\\' :: .char 'u' :: r => .error (.misplaced (r.length + 1))
  | .char '\\' :: e :: r =>
      match shortEscape? e with
      | none => .error (.misplaced (r.length + 2))
      | some c => consPiece (.whole (.char c)) (decodePieces r)
  | p :: r =>
      if p.toNat < 0x20 then .error (.misplaced (r.length + 1))
      else consPiece (.whole p) (decodePieces r)

/-- Reads the text after the opening quote, up to and including the closing one, and returns it with
what is behind it. -/
def decode (t : Text) : Except Failure (Text × Text) :=
  (decodePieces t).map fun (pieces, rest) => (ofPieces pieces, rest)

private theorem consPiece_eq_ok {piece : Piece} {r : Except Failure (List Piece × Text)}
    {pieces : List Piece} {rest : Text} (h : consPiece piece r = .ok (pieces, rest)) :
    ∃ others, r = .ok (others, rest) := by
  cases r with
  | error e => cases h
  | ok p => cases h; exact ⟨p.1, rfl⟩

private theorem decodePieces_length {t rest : Text} {pieces : List Piece}
    (h : decodePieces t = .ok (pieces, rest)) : rest.length < t.length := by
  fun_induction decodePieces t generalizing pieces with
  | case2 r => cases h; simp
  | case5 a b c d next r n hn ih =>
      obtain ⟨others, ho⟩ := consPiece_eq_ok h
      have := ih ho
      simp only [List.length_cons] at this ⊢
      omega
  | case8 e r _ _ c he ih =>
      obtain ⟨others, ho⟩ := consPiece_eq_ok h
      have := ih ho
      simp only [List.length_cons] at this ⊢
      omega
  | case10 p r _ _ _ _ _ hp ih =>
      obtain ⟨others, ho⟩ := consPiece_eq_ok h
      have := ih ho
      simp only [List.length_cons] at this ⊢
      omega
  | _ => cases h

theorem decode_length {t s rest : Text} (h : decode t = .ok (s, rest)) :
    rest.length < t.length := by
  cases hp : decodePieces t with
  | error e => rw [decode, hp] at h; cases h
  | ok p =>
      rw [decode, hp] at h
      cases h
      exact decodePieces_length hp

end RefinementTypes.Text.Quoted
