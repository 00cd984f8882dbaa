import RefinementTypes.Declaration.Companion
import RefinementTypes.Source.Term
import RefinementTypes.Term.Occurrence
import RefinementTypes.Text.Basic

/-!
# Source text of modules

A declaration is written as its visibility, its signature and its defining clause, a line each. A
case at the top of the body is laid out with an alternative on each line. A short signature shows
the explicit arguments only.

The declarations of a module are grouped by their namespaces, in the order in which the namespaces
first come. A group with a namespace is indented under a heading. Its text is cut into lines at
every line separator of Unicode, a carriage return followed by a line feed being one separator; a
separator at the end opens no further line.
-/

namespace RefinementTypes
namespace Text

/-- Line feed, vertical tab, form feed, carriage return, the three information separators, next
line, line separator and paragraph separator. -/
def isLineSeparator (p : CodePoint) : Bool :=
  let n := p.toNat
  (0x0a ≤ n && n ≤ 0x0d) || (0x1c ≤ n && n ≤ 0x1e) || n == 0x85 || n == 0x2028 || n == 0x2029

/-- The lines of a text, without their separators. -/
def lines : Text → List Text
  | [] => []
  | .char '\r' :: .char '\n' :: t => [] :: lines t
  | p :: t =>
      if isLineSeparator p then [] :: lines t
      else match lines t with
        | [] => [[p]]
        | line :: rest => (p :: line) :: rest

end Text

/-- An arrow type without its implicit binders, and without the names of explicit binders that
nothing after them refers to. -/
def Term.stripImplicits : Term → Term
  | .pi name m info domain result =>
      let result := result.stripImplicits
      if info = .explicit then
        .pi (name.filter fun x => decide (x ∈ result.freeNames)) m info domain result
      else result
  | t => t

namespace Source

def indent : Text := "  "

def signatureOf (name : Text) (type : Term) : Except TermFailure Text := do
  let text ← term .top type
  return name ++ " : " ++ text

def signature (d : Declaration) : Except TermFailure Text := signatureOf d.name d.signature

def shortSignature (d : Declaration) : Except TermFailure Text :=
  signatureOf d.name d.signature.stripImplicits

def clause (d : Declaration) : Except TermFailure Text := do
  let left := Text.join " " (d.name :: d.arguments)
  match d.body with
  | .case scrutinee alternatives =>
      let scrutineeText ← term .top scrutinee
      let alternativeTexts ← alternativesText alternatives
      return Text.join "\n"
        ((left ++ " = case " ++ scrutineeText ++ " of") :: alternativeTexts.map (indent ++ ·))
  | body =>
      let text ← term .top body
      return left ++ " = " ++ text

def declaration (d : Declaration) : Except TermFailure Text := do
  let signatureText ← signature d
  let clauseText ← clause d
  return Text.join "\n" [Spelled.spelling d.visibility, signatureText, clauseText]

/-- A namespace, or none, with its declarations in order. -/
structure Group where
  space : Option Text
  members : List Declaration

/-- Adds a declaration to the end of its group, which is opened behind the others if needed. -/
def addToGroups (d : Declaration) : List Group → List Group
  | [] => [⟨d.space, [d]⟩]
  | g :: gs =>
      if g.space = d.space then { g with members := g.members ++ [d] } :: gs
      else g :: addToGroups d gs

def groups (ds : List Declaration) : List Group := ds.foldl (fun gs d => addToGroups d gs) []

def indentLine (line : Text) : Text := if line = "" then line else indent ++ line

/-- The declarations of a group with a blank line between them. -/
def members (ds : List Declaration) : Except TermFailure Text := do
  let texts ← ds.mapM declaration
  return Text.join "\n\n" texts

def block (g : Group) : Except TermFailure Text := do
  let text ← members g.members
  match g.space with
  | none => return text
  | some space =>
      return "namespace " ++ space ++ "\n" ++ Text.join "\n" ((Text.lines text).map indentLine)

/-- All declarations, as blocks with a blank line between them. -/
def moduleText (ds : List Declaration) : Except TermFailure Text := do
  let blocks ← (groups ds).mapM block
  return Text.join "\n\n" blocks ++ "\n"

end Source
end RefinementTypes
