import RefinementTypes.Decimal
import RefinementTypes.Schema.Complaint
import RefinementTypes.Text.Basic
import RefinementTypes.Text.Character

/-!
# Fields

Readers of single values and of the fields of an object. Integers are read leniently: truth values,
doubles without a fraction and texts count as the integers that they denote.

Between white space such a text has a sign, leading zeros, a numeral with single underscores between
its digits, and a fraction of zeros. Underscores may stand anywhere among the leading zeros, and the
numeral after them may bring a minus sign of its own.
-/

namespace RefinementTypes.Schema

/-- Whether two underscores stand side by side. -/
def hasDoubleUnderscore : List Char → Bool
  | '_' :: '_' :: _ => true
  | _ :: cs => hasDoubleUnderscore cs
  | [] => false

/-- A text without its underscores, none of which may stand at an end or beside another. -/
def dropUnderscores? (cs : List Char) : Option (List Char) :=
  if cs.head? = some '_' ∨ cs.getLast? = some '_' ∨ hasDoubleUnderscore cs then none
  else some (cs.filter (· != '_'))

/-- The numeral behind leading zeros, or the last zero if no other digit follows. Behind zeros it
may have a minus sign, at the start of the text it may not. -/
def dropLeadingZeros? : List Char → Option (List Char)
  | '0' :: cs =>
      let zeros := '0' :: cs.takeWhile fun c => c == '0' || c == '_'
      match cs.dropWhile fun c => c == '0' || c == '_' with
      | [] => zeros.getLast?.map fun c => [c]
      | '.' :: r => zeros.getLast?.map fun c => c :: '.' :: r
      | c :: r => if c.isDigit || c == '-' then some (c :: r) else none
  | c :: cs => if c.isDigit then some (c :: cs) else none
  | [] => none

/-- A text without a point and the zeros behind it, of which there is at least one. -/
def dropZeroFraction (cs : List Char) : List Char :=
  match cs.dropWhile (· != '.') with
  | '.' :: '0' :: zeros => if zeros.all (· == '0') then cs.takeWhile (· != '.') else cs
  | _ => cs

/-- A numeral without leading zeros that takes the whole text. -/
def naturalOfNumeral? : List Char → Option Nat
  | ['0'] => some 0
  | '0' :: _ => none
  | [] => none
  | cs => if cs.all Char.isDigit then some (Decimal.ofDigits cs) else none

/-- The integer that a text denotes. -/
def integerOfChars? (cs : List Char) : Option Int := do
  let (negative, cs) := Decimal.splitSign (Text.trim cs)
  let numeral ← dropUnderscores? (dropZeroFraction (← dropLeadingZeros? cs))
  match negative, numeral with
  | false, '-' :: ds => (naturalOfNumeral? ds).map fun n => -(n : Int)
  | _, ds => (naturalOfNumeral? ds).map fun n => if negative then -(n : Int) else n

/-- A string, which need not be whole. -/
def readString : Json → Checked Text
  | .str s => .ok s
  | _ => .fail .notString

/-- A whole text with at least one character. -/
def readName : Json → Checked Text
  | .str s =>
      if !s.isWhole then .fail .notWhole else if s.isEmpty then .fail .emptyString else .ok s
  | _ => .fail .notString

/-- A value, or none for null. -/
def readNullable {α : Type} (read : Json → Checked α) : Json → Checked (Option α)
  | .null => .ok none
  | v => (read v).map some

/-- A member of an enumeration by its word. -/
def readSpelled {α : Type} [Spelled α] (v : Json) : Checked α :=
  let refusal : Checked α := .fail (.unknownWord ((Spelled.members : List α).map Spelled.spelling))
  match v with
  | .str s =>
      match Spelled.parse? s with
      | some a => .ok a
      | none => if s.isWhole then refusal else .fail .notWhole
  | _ => refusal

def readList {α : Type} (read : Json → Checked α) : Json → Checked (List α)
  | .array items => .all 0 (items.map read)
  | _ => .fail .notList

/-- The least magnitude of a double that is too large for an integer of 64 bits. -/
def integerBound : Int := 9223372036854775808

def integerOfDouble (x : Binary64) : Checked Int :=
  if x.isFinite then
    match x.toInt? with
    | none => .fail .fraction
    | some i => if -integerBound < i ∧ i < integerBound then .ok i else .fail .integerTooLarge
  else .fail .notFinite

def readInteger : Json → Checked Int
  | .int i => .ok i
  | .bool b => .ok (if b then 1 else 0)
  | .float x => integerOfDouble x
  | .overflow _ => .fail .notFinite
  | .str s =>
      match s.chars? with
      | none => .fail .notWhole
      | some cs =>
          match integerOfChars? cs with
          | some i => .ok i
          | none => .fail .unreadableInteger
  | _ => .fail .notInteger

def readIntegerFrom (bound : Int) (v : Json) : Checked Int :=
  (readInteger v).bind fun i => if bound ≤ i then .ok i else Checked.fail (.below bound)

/-- A field that has to be there, from what is found under its name. -/
def required {α : Type} (name : Text) (found : Option (Checked α)) : Checked α :=
  match found with
  | some r => r.under name
  | none => (Checked.fail .missing).under name

/-- A field with a default. -/
def optional {α : Type} (name : Text) (default : α) (found : Option (Checked α)) : Checked α :=
  match found with
  | some r => r.under name
  | none => .ok default

/-- What is read under a name. -/
def found {α : Type} (members : List (Text × Json)) (name : Text) (read : Json → Checked α) :
    Option (Checked α) := (members.lookup name).map read

/-- Where data comes in, which decides how a model that is no object is complained about. -/
inductive Entrance where
  | direct
  | request
deriving DecidableEq

def Entrance.notObject : Entrance → Text → Problem
  | direct, name => .notModel name
  | request, _ => .notFields

/-- Reads the members of an object as the model of the given name. -/
def readModel {α : Type} (e : Entrance) (name : Text)
    (read : List (Text × Json) → Checked α) : Json → Checked α
  | .object members => read members
  | _ => .fail (e.notObject name)

end RefinementTypes.Schema
