import RefinementTypes.Json.Basic
import RefinementTypes.Text.Display

/-!
# Complaints about data

A reader of JSON data either yields a value or lists everything that is wrong, each complaint with
the path to its place. Readers that stand side by side all have their say.

A reader holds its value while it reads. One that would go too deep gives up without letting go of
it, and the next reader of the family that gets the same value takes it for a part of itself. Most
values come once only; a few are one and the same wherever they stand.
-/

namespace RefinementTypes.Schema

/-- The family of readers that reads a term. Arrows and applications each have one: the family of
arrows hands an application over to the family of applications, which reads everything itself. -/
inductive Family where
  | outside
  | arrows
  | applications
deriving DecidableEq

/-- Whether a value is one and the same wherever it stands: what words stand for, the integers from
-5 to 256, and strings of no more than one character, which is below 256. -/
def isShared : Json → Bool
  | .null => true
  | .bool _ => true
  | .int i => -5 ≤ i && i ≤ 256
  | .float x => !x.isFinite
  | .str t => t.length ≤ 1 && t.all fun p => p.toNat < 256
  | _ => false

/-- A shared value, by its text, with the family of the reader that has it. -/
structure Hold where
  family : Family
  value : Text
deriving DecidableEq

namespace Hold

/-- What a reader of a family has when it reads a value. -/
def of? (family : Family) (v : Json) : Option Hold :=
  if isShared v then some ⟨family, v.compact⟩ else none

end Hold

inductive Problem where
  | missing
  | notString
  /-- A string in which a surrogate stands alone. -/
  | notWhole
  | emptyString
  | notInteger
  | unreadableInteger
  | fraction
  | integerTooLarge
  | notFinite
  | below (bound : Int)
  | notNumber
  | notList
  /-- Another word than the only one allowed. -/
  | otherWord (expected : Text)
  /-- None of the words allowed. -/
  | unknownWord (expected : List Text)
  | noTag
  | unknownTag (found : Text) (expected : List Text)
  | notFields
  | notModel (name : Text)
  | invalidIdentifier (found : Text)
  | unknownField
  | tooDeep
  /-- A value that an earlier reader of the family still holds. -/
  | loop
  | malformed
deriving DecidableEq

/-- A problem at a place, with the shared value that its reader has, if there is one. -/
structure Complaint where
  path : List Text
  problem : Problem
  hold : Option Hold := none
deriving DecidableEq

abbrev Checked (α : Type) := Except (List Complaint) α

/-- Words in single quotes with commas between them and the given word before the last. -/
def alternatives (lastWord : Text) (words : List Text) : Text :=
  let quoted := words.map fun (w : Text) => "'" ++ w ++ "'"
  match quoted.reverse with
  | [] => ""
  | [w] => w
  | w :: ws => Text.join ", " ws.reverse ++ lastWord ++ w

namespace Problem

def type : Problem → Text
  | missing => "missing"
  | notString => "string_type"
  | notWhole => "string_unicode"
  | emptyString => "string_too_short"
  | notInteger => "int_type"
  | unreadableInteger => "int_parsing"
  | fraction => "int_from_float"
  | integerTooLarge => "int_parsing_size"
  | notFinite => "finite_number"
  | below _ => "greater_than_equal"
  | notNumber => "float_type"
  | notList => "list_type"
  | otherWord _ => "literal_error"
  | unknownWord _ => "enum"
  | noTag => "union_tag_not_found"
  | unknownTag _ _ => "union_tag_invalid"
  | notFields => "model_attributes_type"
  | notModel _ => "model_type"
  | invalidIdentifier _ => "value_error"
  | unknownField => "extra_forbidden"
  | tooDeep => "recursion_depth_exceeded"
  | loop => "recursion_loop"
  | malformed => "json_invalid"

def message : Problem → Text
  | missing => "Field required"
  | notString => "Input should be a valid string"
  | notWhole => "Input should be a valid string, unable to parse raw data as a unicode string"
  | emptyString => "String should have at least 1 character"
  | notInteger => "Input should be a valid integer"
  | unreadableInteger =>
      "Input should be a valid integer, unable to parse string as an integer"
  | fraction => "Input should be a valid integer, got a number with a fractional part"
  | integerTooLarge => "Unable to parse input string as an integer, exceeded maximum size"
  | notFinite => "Input should be a finite number"
  | below bound => "Input should be greater than or equal to " ++ Decimal.intText bound
  | notNumber => "Input should be a valid number"
  | notList => "Input should be a valid list"
  | otherWord expected => "Input should be '" ++ expected ++ "'"
  | unknownWord expected => "Input should be " ++ alternatives " or " expected
  | noTag => "Unable to extract tag using discriminator 'kind'"
  | unknownTag found expected =>
      "Input tag '" ++ found ++ "' found using 'kind' does not match any of the expected tags: " ++
        alternatives ", " expected
  | notFields => "Input should be a valid dictionary or object to extract fields from"
  | notModel name => "Input should be a valid dictionary or instance of " ++ name
  | invalidIdentifier found => "Value error, invalid identifier: " ++ Text.Display.display found
  | unknownField => "Extra inputs are not permitted"
  | tooDeep => "Recursion error - maximum validation depth exceeded"
  | loop => "Recursion error - cyclic reference detected"
  | malformed => "JSON decode error"

end Problem

def Complaint.field (c : Complaint) : Text := Text.join "." c.path

def Complaint.json (c : Complaint) : Json :=
  .object
    [("field", .str c.field), ("message", .str c.problem.message), ("type", .str c.problem.type)]

namespace Checked
variable {α β : Type}

def fail (problem : Problem) : Checked α := .error [{ path := [], problem }]

/-- Puts a step in front of the path of every complaint. -/
def under (step : Text) : Checked α → Checked α
  | .ok a => .ok a
  | .error cs => .error (cs.map fun c => { c with path := step :: c.path })

/-- Both values, or the complaints of both sides. -/
def both : Checked α → Checked β → Checked (α × β)
  | .ok a, .ok b => .ok (a, b)
  | .error cs, .ok _ => .error cs
  | .ok _, .error cs => .error cs
  | .error cs, .error cs' => .error (cs ++ cs')

/-- Every item of a list, under its place counted from `start`. -/
def all (start : Nat) : List (Checked α) → Checked (List α)
  | [] => .ok []
  | x :: xs =>
      (both (x.under (Text.ofChars (Decimal.digits start))) (all (start + 1) xs)).map
        fun (a, as) => a :: as

/-- Says of every complaint which shared value its reader has. -/
def holding (hold : Option Hold) (r : Checked α) : Checked α :=
  r.mapError fun cs => cs.map fun c => { c with hold }

end Checked

/-- The complaints in the order of reading, when some values are held already: from the first reader
on that goes too deep with a shared value, the value is a loop to the readers of the family. -/
def settle (held : List Hold) : List Complaint → List Complaint
  | [] => []
  | c :: cs =>
      match c.hold with
      | none => c :: settle held cs
      | some hold =>
          if hold ∈ held then { c with problem := .loop } :: settle held cs
          else if c.problem = .tooDeep then c :: settle (hold :: held) cs
          else c :: settle held cs

/-- What has been read as a whole, with its loops found. -/
def Checked.settled {α : Type} (r : Checked α) : Checked α := r.mapError (settle [])

end RefinementTypes.Schema
