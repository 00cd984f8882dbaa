import RefinementTypes.Text.Basic

/-!
# Decimal numerals

A signed coefficient with a power of ten, read from and laid out as text. `positional` never
writes an exponent and always writes a point with a digit on either side; `general` moves to
scientific notation outside the range in which positional text stays short.
-/

namespace RefinementTypes

/-- The number `± coefficient * 10 ^ exponent`. -/
structure Decimal where
  negative : Bool
  coefficient : Nat
  exponent : Int
deriving DecidableEq, Inhabited

namespace Decimal

/-- A power of ten. -/
def tenTo (n : Nat) : Nat := Nat.pow 10 n

def digits (n : Nat) : List Char := Nat.toDigits 10 n

def ofDigits (ds : List Char) : Nat := ds.foldl (fun n c => 10 * n + (c.toNat - '0'.toNat)) 0

def sign (negative : Bool) : List Char := if negative then ['-'] else []

/-- An integer in decimal digits, after a minus sign if it is negative. -/
def intText (i : Int) : Text := Text.ofChars (sign (decide (i < 0)) ++ digits i.natAbs)

/-- The place of the point, counted from the first digit of the coefficient. -/
def point (d : Decimal) : Int := (digits d.coefficient).length + d.exponent

/-- The same number with no zero at the end of its coefficient; zero gets exponent zero. -/
def trim (d : Decimal) : Decimal :=
  if d.coefficient = 0 then { d with exponent := 0 }
  else
    let zeros := ((digits d.coefficient).reverse.takeWhile (· == '0')).length
    { d with coefficient := d.coefficient / tenTo zeros, exponent := d.exponent + zeros }

/-- Digits with a point `places` from their end, padded with zeros so that one stands before it. -/
def withPoint (ds : List Char) (places : Nat) : List Char :=
  let padded := List.replicate (places + 1 - ds.length) '0' ++ ds
  padded.take (padded.length - places) ++ '.' :: padded.drop (padded.length - places)

/-- Positional notation: a point, at least one digit on each side of it, and no exponent. -/
def positional (d : Decimal) : List Char :=
  sign d.negative ++
    if 0 ≤ d.exponent then
      digits d.coefficient ++ List.replicate d.exponent.toNat '0' ++ ['.', '0']
    else
      withPoint (digits d.coefficient) (-d.exponent).toNat

/-- A power of ten behind a mark, with a sign and at least two digits. -/
def powerText (e : Int) : List Char :=
  let es := digits e.natAbs
  'e' :: (if e < 0 then '-' else '+') :: (List.replicate (2 - es.length) '0' ++ es)

/-- Scientific notation: one digit before the point, then the power of ten, and no point when there
is a single digit. -/
def scientific (d : Decimal) : List Char :=
  let mantissa := match digits d.coefficient with
    | [] => []
    | [c] => [c]
    | c :: cs => c :: '.' :: cs
  sign d.negative ++ mantissa ++ powerText (d.point - 1)

/-- Positional when the leading digit stands at a power of ten from `-4` to `15`. -/
def general (d : Decimal) : List Char :=
  let e := d.point - 1
  if d.coefficient = 0 ∨ (-4 ≤ e ∧ e < 16) then d.positional else d.scientific

/-- Splits a sign off, reporting whether it is a minus. -/
def splitSign : List Char → Bool × List Char
  | '-' :: cs => (true, cs)
  | '+' :: cs => (false, cs)
  | cs => (false, cs)

/-- A signed run of digits that takes the whole text. -/
def parseExponent? (cs : List Char) : Option Int :=
  let (negative, ds) := splitSign cs
  if ds.isEmpty || !ds.all Char.isDigit then none
  else some (if negative then -(ofDigits ds : Int) else ofDigits ds)

/-- Reads `[sign] digits [. digits] [e exponent]`; one of the two digit runs may be empty. -/
def parse? (cs : List Char) : Option Decimal :=
  let (negative, cs) := splitSign cs
  let whole := cs.takeWhile Char.isDigit
  let afterWhole := cs.dropWhile Char.isDigit
  let (fraction, tail) := match afterWhole with
    | '.' :: r => (r.takeWhile Char.isDigit, r.dropWhile Char.isDigit)
    | r => ([], r)
  if whole.isEmpty && fraction.isEmpty then none
  else
    let scaled (e : Int) : Decimal :=
      ⟨negative, ofDigits (whole ++ fraction), e - fraction.length⟩
    match tail with
    | [] => some (scaled 0)
    | 'e' :: r | 'E' :: r => (parseExponent? r).map scaled
    | _ => none

end Decimal

end RefinementTypes
