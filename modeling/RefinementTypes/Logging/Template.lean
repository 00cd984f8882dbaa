import RefinementTypes.Decimal

/-!
# Message templates

A template is a text with placeholders. A placeholder is a percent sign, then a name in parentheses,
flags, a width, a precision behind a point and a letter for a size, each of which may be missing,
and last the letter of a conversion. Two percent signs stand for one. Every text is a template: what
is wrong with a placeholder shows when it is filled in.
-/

namespace RefinementTypes

/-- The name at the start of a placeholder. -/
inductive PlaceholderName where
  | absent
  | unclosed
  | given (name : Text)
deriving DecidableEq

/-- A width or a precision. -/
inductive Extent where
  | given (n : Nat)
  /-- The next argument says it. -/
  | argument
deriving DecidableEq

structure Placeholder where
  name : PlaceholderName
  flags : List Char
  width : Option Extent
  precision : Option Extent
  /-- None when the template ends before it. -/
  conversion : Option CodePoint
  /-- Where the conversion stands in the template. -/
  place : Nat := 0
deriving DecidableEq

namespace Placeholder

/-- The text up to the parenthesis that closes the one before it, and what is behind that; `depth`
more are open. -/
def readEnclosed? (depth : Nat) : Text → Option (Text × Text)
  | [] => none
  | p :: t =>
      match depth with
      | 0 =>
          if p = .char ')' then some ([], t)
          else (readEnclosed? (if p = .char '(' then 1 else 0) t).map fun (u, r) => (p :: u, r)
      | n + 1 =>
          let depth := if p = .char ')' then n else if p = .char '(' then n + 2 else n + 1
          (readEnclosed? depth t).map fun (u, r) => (p :: u, r)

def readName : Text → PlaceholderName × Text
  | .char '(' :: t =>
      match readEnclosed? 0 t with
      | some (name, r) => (.given name, r)
      | none => (.unclosed, [])
  | t => (.absent, t)

/-- The characters in front that pass a test, and what is behind them. -/
def readChars (test : Char → Bool) (t : Text) : List Char × Text :=
  let passes (p : CodePoint) : Bool := p.char?.any test
  ((t.takeWhile passes).filterMap CodePoint.char?, t.dropWhile passes)

def readExtent : Text → Option Extent × Text
  | .char '*' :: t => (some .argument, t)
  | t =>
      let (ds, r) := readChars Char.isDigit t
      (if ds.isEmpty then none else some (.given (Decimal.ofDigits ds)), r)

/-- A precision; a point with nothing behind it stands for zero. -/
def readPrecision : Text → Option Extent × Text
  | .char '.' :: t =>
      let (e, r) := readExtent t
      (some (e.getD (.given 0)), r)
  | t => (none, t)

/-- A letter for a size is skipped. -/
def skipSize : Text → Text
  | p :: t => if p = .char 'h' ∨ p = .char 'l' ∨ p = .char 'L' then t else p :: t
  | [] => []

/-- The placeholder behind a percent sign, and the rest of the template. -/
def read (t : Text) : Placeholder × Text :=
  let (name, t) := readName t
  let (flags, t) := readChars ['-', '+', ' ', '#', '0'].contains t
  let (width, t) := readExtent t
  let (precision, t) := readPrecision t
  let t := skipSize t
  ({ name, flags, width, precision, conversion := t.head? }, t.tail)

end Placeholder

inductive TemplatePiece where
  | plain (p : CodePoint)
  | placeholder (h : Placeholder)
deriving DecidableEq

abbrev Template := List TemplatePiece

namespace Template

/-- The pieces of a text that starts at a place of its template, behind its first `skip` code
points. -/
def piecesFrom (place skip : Nat) : Text → Template
  | [] => []
  | p :: t =>
      match skip with
      | n + 1 => piecesFrom (place + 1) n t
      | 0 =>
          if p = .char '%' then
            if t.head? = some (.char '%') then .plain p :: piecesFrom (place + 1) 1 t
            else
              let (h, r) := Placeholder.read t
              let size := t.length - r.length
              .placeholder { h with place := place + size } :: piecesFrom (place + 1) size t
          else .plain p :: piecesFrom (place + 1) 0 t

def ofText (t : Text) : Template := piecesFrom 0 0 t

end Template
end RefinementTypes
