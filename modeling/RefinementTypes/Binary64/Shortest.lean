import RefinementTypes.Binary64.Basic

/-!
# Decimal text of doubles

Among the decimals that read back as a given double, `shortest` takes one with the fewest digits
and, of those, the nearest; an exact tie goes to the even last digit. Only the two neighbours of
the double on each decimal grid have to be tried.

With a given number of digits the exact value of a double is rounded to a decimal grid, a half to
the even neighbour, and laid out with a fixed number of places, with an exponent, or with a fixed
number of significant digits. Values are given in units of the least positive double.
-/

namespace RefinementTypes
namespace Binary64

/-- The power of ten at which the leading digit of a positive number of units stands. -/
def leadingPower (units : Nat) : Int :=
  (Decimal.digits (units * Decimal.tenTo 400 / unitsPerOne)).length - 401

/-- The two decimals of `n` digits around `units`, the nearer one first. -/
def neighbours (negative : Bool) (units n : Nat) : List Decimal :=
  let e := leadingPower units - (n - 1 : Nat)
  let num := if 0 ≤ e then units else units * Decimal.tenTo (-e).toNat
  let den := if 0 ≤ e then unitsPerOne * Decimal.tenTo e.toNat else unitsPerOne
  let below := num / den
  let r := num % den
  if 2 * r < den ∨ (2 * r = den ∧ below % 2 = 0) then
    [⟨negative, below, e⟩, ⟨negative, below + 1, e⟩]
  else
    [⟨negative, below + 1, e⟩, ⟨negative, below, e⟩]

/-- The value of `units` written out in full. -/
def exactDecimal (negative : Bool) (units : Nat) : Decimal :=
  ⟨negative, units * Nat.pow 5 1074, -1074⟩

/-- The shortest decimal that reads back as the finite double of this sign and rank. -/
def shortest (negative : Bool) (rank : Fin finiteCount) : Decimal :=
  let units := magnitude rank
  if units = 0 then ⟨negative, 0, 0⟩
  else
    let candidates := (List.range 17).flatMap fun n =>
      (neighbours negative units (n + 1)).map Decimal.trim
    (candidates.find? fun d => ofDecimal d == finite negative rank).getD
      (exactDecimal negative units)

/-- The text of any double: the shortest digits, or a word for the three that have none. -/
def display : Binary64 → Text
  | finite negative rank => Text.ofChars (shortest negative rank).general
  | infinite false => "inf"
  | infinite true => "-inf"
  | nan => "nan"

/-- Reads decimal text, or one of the words that `display` writes. -/
def parse? (s : String) : Option Binary64 :=
  let (negative, body) := Decimal.splitSign s.toList
  if body = ['i', 'n', 'f'] then some (infinite negative)
  else if body = ['n', 'a', 'n'] then some nan
  else (Decimal.parse? s.toList).map ofDecimal

/-- A value in units of the last of so many places. -/
def roundToPlaces (places units : Nat) : Nat :=
  roundQuotient (units * Decimal.tenTo places) unitsPerOne

/-- A value rounded to one digit and `n` more: all of them as a number, and the power of ten at
which the first one stands. -/
def roundToDigits (n units : Nat) : Nat × Int :=
  if units = 0 then (0, 0)
  else
    let power := leadingPower units
    let last := power - n
    let rounded :=
      if 0 ≤ last then roundQuotient units (unitsPerOne * Decimal.tenTo last.toNat)
      else roundQuotient (units * Decimal.tenTo (-last).toNat) unitsPerOne
    if rounded = Decimal.tenTo (n + 1) then (Decimal.tenTo n, power + 1) else (rounded, power)

/-- Digits with a point before the last places; a point at the end stands there on demand only. -/
def withPlaces (keepPoint : Bool) (digits places : Nat) : List Char :=
  let cs := Decimal.withPoint (Decimal.digits digits) places
  if places = 0 && !keepPoint then cs.dropLast else cs

/-- A fixed number of places. -/
def fixedText (keepPoint : Bool) (places units : Nat) : List Char :=
  withPlaces keepPoint (roundToPlaces places units) places

/-- One digit, a number of places, and an exponent. -/
def exponentText (keepPoint : Bool) (places units : Nat) : List Char :=
  let (digits, power) := roundToDigits places units
  withPlaces keepPoint digits places ++ Decimal.powerText power

/-- A numeral with a point without the zeros at its end, and without the point if it then ends
there. -/
def dropZeros (cs : List Char) : List Char :=
  match cs.reverse.dropWhile (· == '0') with
  | '.' :: r => r.reverse
  | r => r.reverse

/-- One significant digit and `n` more, with an exponent when the first one stands below `10 ^ -4`
or the last one above the ones. -/
def generalText (keepZeros : Bool) (n units : Nat) : List Char :=
  let (digits, power) := roundToDigits n units
  let ending (cs : List Char) : List Char := if keepZeros then cs else dropZeros cs
  if -4 ≤ power ∧ power ≤ n then ending (withPlaces true digits (n - power).toNat)
  else ending (withPlaces true digits n) ++ Decimal.powerText power

end Binary64
end RefinementTypes
