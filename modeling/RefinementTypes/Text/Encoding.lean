import RefinementTypes.Text.Basic

/-!
# Encodings of a JSON text

Bytes that are to be a JSON text say by their zeros how they encode it: the first two characters of
such a text are ASCII. Surrogates that stand alone are let through.
-/

namespace RefinementTypes.Text

inductive ByteOrder where
  | big
  | little
deriving DecidableEq

inductive Encoding where
  | utf8
  | utf16 (order : ByteOrder)
  | utf32 (order : ByteOrder)
deriving DecidableEq

namespace Encoding

/-- The encoding of a JSON text, from where the first bytes are zero. -/
def ofBytes : List UInt8 → Encoding
  | a :: b :: c :: d :: _ =>
      if a = 0 then if b = 0 then utf32 .big else utf16 .big
      else if b = 0 then if c = 0 ∧ d = 0 then utf32 .little else utf16 .little
      else utf8
  | [a, b] => if a = 0 then utf16 .big else if b = 0 then utf16 .little else utf8
  | _ => utf8

/-- The number that two bytes write. -/
def ofTwo (a b : UInt8) : ByteOrder → Nat
  | .big => a.toNat * 0x100 + b.toNat
  | .little => b.toNat * 0x100 + a.toNat

/-- The numbers that pairs of bytes write; no byte may be left over. -/
def units? (order : ByteOrder) : List UInt8 → Option (List Nat)
  | a :: b :: bytes => (units? order bytes).map (ofTwo a b order :: ·)
  | [_] => none
  | [] => some []

/-- The numbers of 32 bits that pairs of units write; no unit may be left over. -/
def points? (order : ByteOrder) : List Nat → Option (List Nat)
  | a :: b :: units =>
      let point := match order with
        | .big => a * 0x10000 + b
        | .little => b * 0x10000 + a
      (points? order units).map (point :: ·)
  | [_] => none
  | [] => some []

/-- The text that bytes encode, if they are whole; that of UTF-8 is given. -/
def decode? (bytes : List UInt8) (text : Text) : Encoding → Option Text
  | utf8 => some text
  | utf16 order => (units? order bytes).map fun ns => ofPieces (ns.map .unit)
  | utf32 order => do
      let ns ← points? order (← units? order bytes)
      if ns.all (· < 0x110000) then some (ns.map .ofNat) else none

end Encoding

/-- A text without a byte order mark in front. -/
def dropByteOrderMark : Text → Text
  | .char '\ufeff' :: t => t
  | t => t

/-- The JSON text in the bytes of a UTF-8 text, which may encode it in another way. -/
def jsonText? (s : String) : Option Text :=
  let bytes := s.toList.flatMap String.utf8EncodeChar
  (Encoding.ofBytes bytes).decode? bytes (dropByteOrderMark s)

end RefinementTypes.Text
