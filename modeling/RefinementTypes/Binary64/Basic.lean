import RefinementTypes.Decimal

/-!
# Double-precision numbers

The finite doubles of one sign are numbered outwards from zero. The double of rank `r` is
`magnitude r` times the least positive double, so every question about finite doubles is one
about natural numbers. Reading rounds to the nearest double, a tie to the even rank.
-/

namespace RefinementTypes

/-- A power of two. -/
def twoTo (n : Nat) : Nat := Nat.pow 2 n

/-- How many doubles there are with one sign and one exponent. -/
def fractions : Nat := twoTo 52

/-- How many finite doubles there are with one sign. -/
def finiteCount : Nat := 2047 * fractions

inductive Binary64 where
  | finite (negative : Bool) (rank : Fin finiteCount)
  | infinite (negative : Bool)
  | nan
deriving DecidableEq

namespace Binary64

instance : Inhabited Binary64 := ⟨nan⟩

/-- How many times the least positive double fits into the number one. -/
def unitsPerOne : Nat := twoTo 1074

/-- The double of the given rank, in units of the least positive double. -/
def magnitude (rank : Nat) : Nat :=
  if rank / fractions = 0 then rank
  else (fractions + rank % fractions) * twoTo (rank / fractions - 1)

/-- The quotient rounded to the nearest natural number, a half to the even one. -/
def roundQuotient (num den : Nat) : Nat :=
  let q := num / den
  let r := num % den
  if 2 * r < den then q else if den < 2 * r then q + 1 else q + q % 2

/-- The rank nearest to `num / den` units: the quotient is rounded to 53 binary digits. -/
def nearestRank (num den : Nat) : Nat :=
  let shift := (num / den).log2 - 52
  roundQuotient num (den * twoTo shift) + shift * fractions

/-- The double nearest to `± num / den` units. -/
def ofUnits (negative : Bool) (num den : Nat) : Binary64 :=
  if h : nearestRank num den < finiteCount then finite negative ⟨nearestRank num den, h⟩
  else infinite negative

def zero (negative : Bool) : Binary64 := finite negative ⟨0, by decide⟩

/-- The double nearest to a decimal. Decimals far outside the range of doubles are settled by the
place of their point, so that a huge exponent costs nothing. -/
def ofDecimal (d : Decimal) : Binary64 :=
  if d.coefficient = 0 ∨ d.point < -330 then zero d.negative
  else if 310 < d.point then infinite d.negative
  else if 0 ≤ d.exponent then
    ofUnits d.negative (d.coefficient * Decimal.tenTo d.exponent.toNat * unitsPerOne) 1
  else
    ofUnits d.negative (d.coefficient * unitsPerOne) (Decimal.tenTo (-d.exponent).toNat)

def ofInt (i : Int) : Binary64 := ofUnits (decide (i < 0)) (i.natAbs * unitsPerOne) 1

def isFinite : Binary64 → Bool
  | finite _ _ => true
  | _ => false

/-- The integer that a double is, when it is one. -/
def toInt? : Binary64 → Option Int
  | finite negative rank =>
      let units := magnitude rank
      if units % unitsPerOne = 0 then
        let whole : Int := (units / unitsPerOne : Nat)
        some (if negative then -whole else whole)
      else none
  | _ => none

end Binary64

/-- A place on the number line with both of its ends, in units of the least positive double. -/
inductive LinePoint where
  | bottom
  | inner (units : Int)
  | top

namespace LinePoint

def le : LinePoint → LinePoint → Bool
  | bottom, _ => true
  | _, top => true
  | inner a, inner b => decide (a ≤ b)
  | _, _ => false

def ofInt (i : Int) : LinePoint := inner (i * Binary64.unitsPerOne)

end LinePoint

/-- Where a double stands; the one that is no number stands nowhere. -/
def Binary64.linePoint? : Binary64 → Option LinePoint
  | .finite negative rank =>
      let units : Int := (magnitude rank : Nat)
      some (.inner (if negative then -units else units))
  | .infinite negative => some (if negative then .bottom else .top)
  | .nan => none

end RefinementTypes
