/-!
# Texts

A code point is a character or a surrogate. A high and a low surrogate side by side stand for one
character outside the basic plane; a surrogate alone stands for nothing and cannot be encoded. A
text is a list of code points, among which surrogates may stand alone. A text is whole when none
does; only whole texts can be encoded.

Where a text is written in units of 16 bits, a high surrogate with a low one behind it writes a
single character. Code points that are written as wholes can stand between the units.
-/

namespace RefinementTypes

/-- Half of a pair that stands for one character. -/
structure Surrogate where
  value : Nat
  inRange : 0xd800 ≤ value ∧ value < 0xe000
deriving DecidableEq

namespace Surrogate

def isHigh (n : Nat) : Bool := 0xd800 ≤ n && n < 0xdc00

def isLow (n : Nat) : Bool := 0xdc00 ≤ n && n < 0xe000

/-- The number of the character for which a high and a low surrogate stand. -/
def combine (high low : Nat) : Nat := 0x10000 + (high - 0xd800) * 0x400 + (low - 0xdc00)

end Surrogate

inductive CodePoint where
  | char (c : Char)
  | half (s : Surrogate)
deriving DecidableEq

namespace CodePoint

def toNat : CodePoint → Nat
  | char c => c.toNat
  | half s => s.value

/-- The code point of a number below `0x110000`. -/
def ofNat (n : Nat) : CodePoint :=
  if h : 0xd800 ≤ n ∧ n < 0xe000 then half ⟨n, h⟩ else char (Char.ofNat n)

def char? : CodePoint → Option Char
  | char c => some c
  | half _ => none

def isHalf : CodePoint → Bool
  | char _ => false
  | half _ => true

/-- Code points are ordered by their numbers. -/
instance : LT CodePoint := ⟨fun a b => a.toNat < b.toNat⟩

instance : DecidableLT CodePoint := fun a b => inferInstanceAs (Decidable (a.toNat < b.toNat))

theorem ofNat_toNat (p : CodePoint) : ofNat p.toNat = p := by
  cases p with
  | char c =>
    have hv := c.valid
    have : ¬(0xd800 ≤ c.toNat ∧ c.toNat < 0xe000) := by
      simp only [UInt32.isValidChar, Nat.isValidChar] at hv
      simp only [Char.toNat]
      omega
    simp [ofNat, toNat, this]
  | half s => simp [ofNat, toNat, s.inRange]

end CodePoint

abbrev Text := List CodePoint

namespace Text

instance : LawfulBEq Text := inferInstance

def ofChars (cs : List Char) : Text := cs.map .char

def ofString (s : String) : Text := ofChars s.toList

instance : Coe String Text := ⟨ofString⟩

/-- The characters of a whole text. -/
def chars? (t : Text) : Option (List Char) := t.mapM CodePoint.char?

def isWhole (t : Text) : Bool := t.all fun p => !p.isHalf

/-- Puts characters in the place of every character. -/
def expand (f : Char → List Char) (t : Text) : Text :=
  t.flatMap fun p => match p with
    | .char c => ofChars (f c)
    | .half s => [.half s]

/-- A text with small letters for the capitals of ASCII. -/
def toLower (t : Text) : Text := t.expand fun c => [c.toLower]

/-- The texts one behind another, with a separator between two. -/
def join (separator : Text) : List Text → Text
  | [] => []
  | [t] => t
  | t :: ts => t ++ separator ++ join separator ts

theorem isWhole_ofChars (cs : List Char) : isWhole (ofChars cs) = true := by
  simp [isWhole, ofChars, CodePoint.isHalf]

theorem ofChars_injective {cs ds : List Char} (h : ofChars cs = ofChars ds) : cs = ds :=
  (List.map_inj_right fun _ _ h => CodePoint.char.inj h).1 h

inductive Piece where
  | unit (n : Nat)
  | whole (p : CodePoint)
deriving DecidableEq

/-- The text that pieces write. -/
def ofPieces : List Piece → Text
  | .unit high :: .unit low :: ps =>
      if Surrogate.isHigh high && Surrogate.isLow low then
        .char (Char.ofNat (Surrogate.combine high low)) :: ofPieces ps
      else .ofNat high :: ofPieces (.unit low :: ps)
  | .unit n :: ps => .ofNat n :: ofPieces ps
  | .whole p :: ps => p :: ofPieces ps
  | [] => []

end Text

/-- An enumeration that is written and read by a fixed word for each member. -/
class Spelled (α : Type) where
  /-- Every member, in the order in which a message lists them. -/
  members : List α
  spelling : α → Text

namespace Spelled

def parse? {α : Type} [Spelled α] (s : Text) : Option α :=
  (members : List α).find? fun a => spelling a == s

end Spelled
end RefinementTypes
