import RefinementTypes.Binary64.Basic
import RefinementTypes.Binary64.Shortest
import RefinementTypes.Text.Basic
import RefinementTypes.Text.Display
import RefinementTypes.Text.Quoted

/-!
# JSON values

Integers are exact and apart from doubles, and a numeral beyond the doubles is apart from infinity.
An object keeps its members in the order in which their names first came; a later member of the same
name replaces the value and keeps the place.

Inside a message a value stands with its strings in single quotes and with a capital letter on the
words for null and the truth values. As JSON it is written on one line, spaced or compact. Of the
characters in strings only quotes, backslashes and control characters are escaped.
-/

namespace RefinementTypes

inductive Json where
  | null
  | bool (b : Bool)
  | int (i : Int)
  | float (x : Binary64)
  /-- A numeral beyond the doubles, which counts as infinite. -/
  | overflow (negative : Bool)
  | str (s : Text)
  | array (items : List Json)
  | object (members : List (Text × Json))

namespace Json

instance : Inhabited Json := ⟨null⟩

/-- Puts a member behind the others, or in the place of the one with its name. -/
def putMember (name : Text) (value : Json) : List (Text × Json) → List (Text × Json)
  | [] => [(name, value)]
  | (n, v) :: ms => if n = name then (n, value) :: ms else (n, v) :: putMember name value ms

/-- The member of a name, of an object. -/
def member? (name : Text) : Json → Option Json
  | object members => members.lookup name
  | _ => none

/-- The double that a number is which is no integer. -/
def double? : Json → Option Binary64
  | float x => some x
  | overflow negative => some (.infinite negative)
  | _ => none

/-- A string, or null for none. -/
def ofText? : Option Text → Json
  | some s => str s
  | none => null

mutual

def display : Json → Text
  | null => "None"
  | bool true => "True"
  | bool false => "False"
  | int i => Decimal.intText i
  | float x => x.display
  | overflow negative => (Binary64.infinite negative).display
  | str s => Text.Display.display s
  | array items => "[" ++ Text.join ", " (displayItems items) ++ "]"
  | object members => "\x7b" ++ Text.join ", " (displayMembers members) ++ "\x7d"

def displayItems : List Json → List Text
  | [] => []
  | v :: vs => display v :: displayItems vs

def displayMembers : List (Text × Json) → List Text
  | [] => []
  | (name, v) :: ms => (Text.Display.display name ++ ": " ++ display v) :: displayMembers ms

end

/-- A string as it is, and any other value as it is displayed. -/
def plainText : Json → Text
  | str s => s
  | v => v.display

/-- What separates two items, and the name of a member from its value. -/
structure Separators where
  item : Text
  name : Text

/-- A blank after each comma and colon. -/
def Separators.spaced : Separators := ⟨", ", ": "⟩

/-- No blanks. -/
def Separators.compact : Separators := ⟨",", ":"⟩

def floatText : Binary64 → Text
  | .nan => "NaN"
  | .infinite false => "Infinity"
  | .infinite true => "-Infinity"
  | x => x.display

mutual

def write (s : Separators) : Json → Text
  | null => "null"
  | bool true => "true"
  | bool false => "false"
  | int i => Decimal.intText i
  | float x => floatText x
  | overflow negative => floatText (.infinite negative)
  | str t => Text.Quoted.encode t
  | array items => "[" ++ Text.join s.item (writeItems s items) ++ "]"
  | object members => "\x7b" ++ Text.join s.item (writeMembers s members) ++ "\x7d"

def writeItems (s : Separators) : List Json → List Text
  | [] => []
  | v :: vs => write s v :: writeItems s vs

def writeMembers (s : Separators) : List (Text × Json) → List Text
  | [] => []
  | (name, v) :: ms => (Text.Quoted.encode name ++ s.name ++ write s v) :: writeMembers s ms

end

def render (v : Json) : Text := v.write .spaced

def compact (v : Json) : Text := v.write .compact

end Json
end RefinementTypes
