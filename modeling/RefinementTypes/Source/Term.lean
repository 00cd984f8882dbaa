import RefinementTypes.Binary64.Shortest
import RefinementTypes.Term.Basic
import RefinementTypes.Text.Quoted

/-!
# Source text of terms

Application binds tighter than arrows and cases. A term is put in parentheses where its position
asks for more than it offers. Floating literals are written with a point and without an exponent; a
double that is not finite has no text.
-/

namespace RefinementTypes.Source

/-- Where a term is written. -/
inductive Position where
  /-- On its own. -/
  | top
  /-- In front of an arrow. -/
  | domain
  /-- In front of its arguments. -/
  | head
  | argument
deriving DecidableEq

namespace Position

/-- Positions in which arrows and cases need parentheses. -/
def isInner (p : Position) : Bool := p ≠ top

/-- Positions in which a negative number needs parentheses. -/
def isAtomic (p : Position) : Bool := p = head || p = argument

end Position

def parenthesize (wrap : Bool) (text : Text) : Text := if wrap then "(" ++ text ++ ")" else text

mutual

/-- A pattern; one that stands inside another is put in parentheses when it has arguments. -/
def pattern (nested : Bool) : Pattern → Text
  | .con name [] => name
  | .con name (p :: ps) =>
      parenthesize nested (name ++ " " ++ Text.join " " (pattern true p :: nestedPatterns ps))
  | .bind name => name
  | .wild => "_"

def nestedPatterns : List Pattern → List Text
  | [] => []
  | p :: ps => pattern true p :: nestedPatterns ps

end

def number (text : Text) (negative : Bool) (p : Position) : Text :=
  parenthesize (negative && p.isAtomic) text

def literal (p : Position) : Literal → Except TermFailure Text
  | .int i => .ok (number (Decimal.intText i) (decide (i < 0)) p)
  | .float x =>
      match x with
      | .finite negative rank =>
          .ok (number (Text.ofChars (Binary64.shortest negative rank).positional) negative p)
      | x => .error (.unwritable x)
  | .str s => .ok (Text.Quoted.encode s)

def quantity : Multiplicity → Text
  | .zero => "0 "
  | .linear => "1 "
  | .unrestricted => ""

/-- An explicit unrestricted binder without a name is written as its type alone. -/
def isPlainDomain (name : Option Text) (m : Multiplicity) (info : Explicitness) : Bool :=
  name.isNone && m = .unrestricted && info = .explicit

/-- A binder around the text of its type. -/
def binder (name : Option Text) (m : Multiplicity) (info : Explicitness) (type : Text) :
    Text :=
  let inner := quantity m ++ name.getD "_" ++ " : " ++ type
  match info with
  | .explicit => "(" ++ inner ++ ")"
  | .implicit => "\x7b" ++ inner ++ "\x7d"
  | .autoImplicit => "\x7bauto " ++ inner ++ "\x7d"
  | .defaultImplicit => "\x7bdefault " ++ inner ++ "\x7d"

/-- The position of an argument, by the way it is supplied. -/
def argumentPosition : Explicitness → Position
  | .explicit => .argument
  | _ => .top

/-- An argument around its text. -/
def argument (info : Explicitness) (text : Text) : Text :=
  match info with
  | .explicit => text
  | .autoImplicit => "@\x7b" ++ text ++ "\x7d"
  | _ => "\x7b" ++ text ++ "\x7d"

mutual

def term (p : Position) : Term → Except TermFailure Text
  | .var name => .ok name
  | .param index => .ok ("param#" ++ Decimal.intText index)
  | .lit value => literal p value
  | .hole => .ok "_"
  | .app fn arg info => do
      let fnText ← term .head fn
      let argText ← term (argumentPosition info) arg
      return parenthesize (p = .argument) (fnText ++ " " ++ argument info argText)
  | .pi name m info domain result => do
      let plain := isPlainDomain name m info
      let domainText ← term (if plain then .domain else .top) domain
      let resultText ← term .top result
      let left := if plain then domainText else binder name m info domainText
      return parenthesize p.isInner (left ++ " -> " ++ resultText)
  | .case scrutinee alternatives => do
      let alternativeTexts ← alternativesText alternatives
      let scrutineeText ← term .top scrutinee
      return parenthesize p.isInner
        ("case " ++ scrutineeText ++ " of \x7b " ++ Text.join "; " alternativeTexts ++ " \x7d")

/-- Each alternative as its pattern, a double arrow and its body. -/
def alternativesText : List (Pattern × Term) → Except TermFailure (List Text)
  | [] => .ok []
  | (p, body) :: rest => do
      let bodyText ← term .top body
      let restTexts ← alternativesText rest
      return (pattern false p ++ " => " ++ bodyText) :: restTexts

end

end RefinementTypes.Source
