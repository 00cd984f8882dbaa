import RefinementTypes.Shape.Refinement
import RefinementTypes.Text.Character

/-!
# Paths

A route is given by a pattern: a text in which a name in braces, with a kind behind a colon if there
is one, stands for a parameter. A text that does not start with a slash is taken for a host, of
which only the name counts, in either case. A path matches a pattern as a whole, a line feed at its
end left out of account. Inside a URL a path is shown without line breaks and tabs and with what
would end it escaped.
-/

namespace RefinementTypes.Service

/-- Which texts a parameter stands for. -/
inductive ParameterKind where
  /-- At least one character and no slash. -/
  | segment
  /-- Any characters on one line. -/
  | rest
  | int
  | float
  | uuid
deriving DecidableEq

namespace ParameterKind

def ofName? : String → Option ParameterKind
  | "" | "str" => some segment
  | "path" => some rest
  | "int" => some int
  | "float" => some float
  | "uuid" => some uuid
  | _ => none

def isHexDigit (c : Char) : Bool := c.isDigit || ('a' ≤ c && c ≤ 'f') || ('A' ≤ c && c ≤ 'F')

/-- Groups of hexadecimal digits of the given sizes, with a hyphen or nothing between two. -/
def isHexGroups : List Nat → List Char → Bool
  | [], cs => cs.isEmpty
  | size :: sizes, cs =>
      let group := cs.take size
      let behind := cs.drop size
      group.length == size && group.all isHexDigit &&
        (isHexGroups sizes behind ||
          match behind with
          | '-' :: r => !sizes.isEmpty && isHexGroups sizes r
          | _ => false)

def accepts (kind : ParameterKind) (cs : List Char) : Bool :=
  match kind with
  | segment => !cs.isEmpty && !cs.contains '/'
  | rest => !cs.contains '\n'
  | int => !cs.isEmpty && cs.all Char.isDigit
  | float =>
      let whole := cs.takeWhile (· != '.')
      !whole.isEmpty && whole.all Char.isDigit &&
        match cs.dropWhile (· != '.') with
        | _ :: fraction => !fraction.isEmpty && fraction.all Char.isDigit
        | [] => true
  | uuid => isHexGroups [8, 4, 4, 4, 12] cs

end ParameterKind

inductive PatternPiece where
  | literal (c : Char)
  /-- A character that stands for itself in either case. -/
  | letter (c : Char)
  | parameter (name : String) (kind : ParameterKind)
deriving DecidableEq

/-- Why a text is no pattern. -/
inductive PatternFailure where
  | unknownKind (name : String)
  /-- Parameters, in alphabetical order, whose names come more than once. -/
  | repeated (names : List String) (pattern : String)
deriving DecidableEq

namespace PatternFailure

def message : PatternFailure → String
  | unknownKind name => "Unknown path convertor '" ++ name ++ "'"
  | repeated names pattern =>
      "Duplicated param name" ++ (if 1 < names.length then "s" else "") ++ " " ++
        ", ".intercalate names ++ " at path " ++ pattern

end PatternFailure

namespace Pattern

def isLetter (c : Char) : Bool := c.isAlpha || c == '_'

def isNameChar (c : Char) : Bool := isLetter c || c.isDigit

/-- An identifier at the start of a text, and what is behind it. -/
def readIdentifier? : List Char → Option (String × List Char)
  | c :: cs =>
      if isLetter c then
        some (String.ofList (c :: cs.takeWhile isNameChar), cs.dropWhile isNameChar)
      else none
  | [] => none

/-- The name and the kind of a parameter behind its opening brace, and what is behind the closing
one. -/
def readParameter? (cs : List Char) : Option (String × String × List Char) := do
  let (name, r) ← readIdentifier? cs
  match r with
  | '\x7d' :: r => some (name, "", r)
  | ':' :: r =>
      let (kind, r) ← readIdentifier? r
      match r with
      | '\x7d' :: r => some (name, kind, r)
      | _ => none
  | _ => none

/-- The pieces of a pattern behind its first `skip` characters. A brace that opens no parameter
stands for itself. -/
def pieces (skip : Nat) : List Char → Except PatternFailure (List PatternPiece)
  | [] => .ok []
  | c :: cs =>
      match skip with
      | n + 1 => pieces n cs
      | 0 =>
          match if c = '\x7b' then readParameter? cs else none with
          | none => (pieces 0 cs).map (.literal c :: ·)
          | some (name, kindName, r) =>
              match ParameterKind.ofName? kindName with
              | none => .error (.unknownKind kindName)
              | some kind =>
                  (pieces (cs.length - r.length) cs).map (.parameter name kind :: ·)

/-- The names of the parameters among the pieces. -/
def parameterNames (ps : List PatternPiece) : List String :=
  ps.filterMap fun p => match p with
    | .parameter name _ => some name
    | .literal _ | .letter _ => none

def isParameter : PatternPiece → Bool
  | .parameter _ _ => true
  | .literal _ | .letter _ => false

/-- The name of a host: all in front of the last colon. A host that ends with a bracket is a name as
a whole. -/
def hostName (ps : List PatternPiece) : List PatternPiece :=
  if ps.getLast? = some (.literal ']') ∨ .literal ':' ∉ ps then ps
  else (ps.reverse.dropWhile (· != .literal ':')).tail.reverse

def ignoreCase : PatternPiece → PatternPiece
  | .literal c => .letter c
  | p => p

/-- The pattern of a host: of what is behind the last parameter the name counts, and case does not
matter. -/
def ofHost (ps : List PatternPiece) : List PatternPiece :=
  let tail := (ps.reverse.takeWhile fun p => !isParameter p).reverse
  (ps.take (ps.length - tail.length) ++ hostName tail).map ignoreCase

/-- The pattern of a text in which no parameter comes twice. A text without a slash in front is the
pattern of a host. -/
def parse (text : String) : Except PatternFailure (List PatternPiece) := do
  let ps ← pieces 0 text.toList
  let names := parameterNames ps
  match ascending (names.filter fun name => 1 < names.count name) with
  | [] => return if text.toList.head? = some '/' then ps else ofHost ps
  | repeated => throw (.repeated repeated text)

/-- The pattern in which all of a text stands for itself. -/
def literal (text : String) : List PatternPiece := text.toList.map .literal

/-- Whether a path matches; a parameter may take any piece of it that its kind accepts. -/
def accepts : List PatternPiece → List Char → Bool
  | [], cs => cs.isEmpty || cs == ['\n']
  | .literal c :: ps, cs =>
      match cs with
      | d :: r => c == d && accepts ps r
      | [] => false
  | .letter c :: ps, cs =>
      match cs with
      | d :: r => Text.isSameLetter c d && accepts ps r
      | [] => false
  | .parameter _ kind :: ps, cs =>
      (List.range (cs.length + 1)).any fun n => kind.accepts (cs.take n) && accepts ps (cs.drop n)

end Pattern

/-- A path as it is shown inside a URL, in which it starts with a slash if there is any. -/
def shownPath (path : String) : String :=
  let cs := path.toList
  let rooted := if cs.isEmpty ∨ cs.head? = some '/' then cs else '/' :: cs
  String.ofList (rooted.flatMap fun c =>
    if c = '?' then ['%', '3', 'F']
    else if c = '#' then ['%', '2', '3']
    else if c = '\\' then ['%', '5', 'C']
    else if c = '\t' ∨ c = '\n' ∨ c = '\r' then []
    else [c])

/-- The path with the slashes at its end changed: dropped if there are any, else one added. -/
def otherSlash (path : String) : String :=
  match path.toList.reverse with
  | '/' :: cs => String.ofList (cs.dropWhile (· == '/')).reverse
  | _ => path ++ "/"

end RefinementTypes.Service
