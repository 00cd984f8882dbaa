import RefinementTypes.Binary64.Shortest
import RefinementTypes.Json.Basic
import RefinementTypes.Logging.Template

/-!
# Messages

A message is a template with arguments in the places of its placeholders. They are taken in turn,
and all of them, unless the only argument is an object, whose members placeholders may name. A
template without arguments is a message as it stands.
-/

namespace RefinementTypes.Message

/-- Why a template cannot be filled in. -/
inductive Failure where
  | tooFewArguments
  | tooManyArguments
  /-- A placeholder has a name and the arguments have none. -/
  | unnamedArguments
  | unknownName (name : Text)
  | unclosedName
  /-- The template ends inside a placeholder. -/
  | unfinished
  | unknownConversion (conversion : CodePoint) (place : Nat)
  /-- An argument is of a kind that the placeholder has no use for. -/
  | unfit
  | hugeWidth
  | hugePrecision
  | tooManyDigits
  /-- An argument says a width or a precision beyond the machine integers. -/
  | hugeArgument
  | integerOfNaN
  | integerOfInfinity
  | doubleOfInteger
  | noCharacter
  /-- There is no room for a text of that length. -/
  | noRoom
deriving DecidableEq

namespace Failure

/-- The sign for a conversion in a message: itself if it is one of the characters of a line. -/
def shownConversion (p : CodePoint) : CodePoint :=
  if 31 ≤ p.toNat ∧ p.toNat ≤ 126 then p else .char '?'

def text : Failure → Text
  | tooFewArguments => "not enough arguments for format string"
  | tooManyArguments => "not all arguments converted during string formatting"
  | unnamedArguments => "format requires a mapping"
  | unknownName name => Text.Display.display name
  | unclosedName => "incomplete format key"
  | unfinished => "incomplete format"
  | unknownConversion p place =>
      "unsupported format character '" ++ [shownConversion p] ++ "' (0x" ++
        Text.ofChars (Nat.toDigits 16 p.toNat) ++ ") at index " ++ Decimal.intText place
  | unfit => "argument of the wrong type"
  | hugeWidth => "width too big"
  | hugePrecision => "precision too big"
  | tooManyDigits => "precision too large"
  | hugeArgument => "integer too large for a width or a precision"
  | integerOfNaN => "cannot convert float NaN to integer"
  | integerOfInfinity => "cannot convert float infinity to integer"
  | doubleOfInteger => "int too large to convert to float"
  | noCharacter => "%c arg not in range(0x110000)"
  | noRoom => "text too long"

end Failure

abbrev Filled (α : Type) := Except Failure α

/-- The arguments that are left, with the members of the only one if it is an object. -/
structure Supply where
  members : Option (List (Text × Json))
  pending : List Json

namespace Supply

def ofArguments : List Json → Supply
  | [.object (m :: ms)] => ⟨some (m :: ms), [.object (m :: ms)]⟩
  | args => ⟨none, args⟩

def next (s : Supply) : Filled (Json × Supply) :=
  match s.pending with
  | a :: as => .ok (a, { s with pending := as })
  | [] => .error .tooFewArguments

/-- The arguments for a placeholder with the given name: the member of that name. -/
def select (s : Supply) (name : PlaceholderName) : Filled Supply :=
  match name, s.members with
  | .absent, _ => .ok s
  | _, none => .error .unnamedArguments
  | .unclosed, some _ => .error .unclosedName
  | .given name, some members =>
      match members.lookup name with
      | some v => .ok { s with pending := [v] }
      | none => .error (.unknownName name)

end Supply

/-- The integer that a value is; truth values count as integers. -/
def integer? : Json → Option Int
  | .int i => some i
  | .bool b => some (if b then 1 else 0)
  | _ => none

/-- The whole part of a number. -/
def wholePart (v : Json) : Filled Int :=
  match integer? v, v.double? with
  | some i, _ => .ok i
  | none, some (.finite negative rank) =>
      let whole : Int := (Binary64.magnitude rank / Binary64.unitsPerOne : Nat)
      .ok (if negative then -whole else whole)
  | none, some (.infinite _) => .error .integerOfInfinity
  | none, some .nan => .error .integerOfNaN
  | none, none => .error .unfit

/-- The double nearest to a number. -/
def nearestDouble (v : Json) : Filled Binary64 :=
  match integer? v, v.double? with
  | some i, _ =>
      match Binary64.ofInt i with
      | .finite negative rank => .ok (.finite negative rank)
      | _ => .error .doubleOfInteger
  | none, some x => .ok x
  | none, none => .error .unfit

/-- How an argument is shown. -/
inductive Conversion where
  /-- As a text, which may be displayed in quotes and may be escaped outside ASCII. -/
  | text (quoted escaped : Bool)
  | integer (base : Nat) (capitals : Bool)
  | exponent (capitals : Bool)
  | fixed (capitals : Bool)
  | general (capitals : Bool)
  | character
deriving DecidableEq

def Conversion.ofChar? : Char → Option Conversion
  | 's' => some (.text false false)
  | 'r' => some (.text true false)
  | 'a' => some (.text true true)
  | 'd' | 'i' | 'u' => some (.integer 10 false)
  | 'o' => some (.integer 8 false)
  | 'x' => some (.integer 16 false)
  | 'X' => some (.integer 16 true)
  | 'e' => some (.exponent false)
  | 'E' => some (.exponent true)
  | 'f' => some (.fixed false)
  | 'F' => some (.fixed true)
  | 'g' => some (.general false)
  | 'G' => some (.general true)
  | 'c' => some .character
  | _ => none

/-- What a placeholder asks for apart from the conversion. -/
structure Style where
  leftAligned : Bool
  plus : Bool
  blank : Bool
  alternate : Bool
  zeros : Bool
  width : Nat
  precision : Option Nat

/-- An argument before it is laid out: a number has a sign, and a mark of its base may precede the
digits. -/
structure Shown where
  negative : Option Bool
  mark : List Char
  body : Text

namespace Shown

def ofText (t : Text) : Shown := ⟨none, [], t⟩

def ofNumber (negative capitals : Bool) (mark digits : List Char) : Shown :=
  let cased (cs : List Char) : List Char := if capitals then cs.map Char.toUpper else cs
  ⟨some negative, cased mark, Text.ofChars (cased digits)⟩

end Shown

/-- The longest text for which there is room. -/
def roomLimit : Nat := 1000000000

def checkRoom (size : Nat) : Filled Unit :=
  if roomLimit < size then .error .noRoom else .ok ()

/-- The mark of a base; the base ten has none. -/
def baseMark (base : Nat) : List Char :=
  if base = 16 then ['0', 'x'] else if base = 8 then ['0', 'o'] else []

/-- Most digits that can be asked for. -/
def digitLimit : Nat := 2147483644

/-- A number in a base, in which a precision is the least number of digits. -/
def showInteger (style : Style) (base : Nat) (capitals : Bool) (v : Json) : Filled Shown := do
  let i ← if base = 10 then wholePart v else match integer? v with
    | some i => .ok i
    | none => .error .unfit
  let least := style.precision.getD 0
  if digitLimit < least then throw .tooManyDigits
  checkRoom least
  let digits := Nat.toDigits base i.natAbs
  return .ofNumber (i < 0) capitals (if style.alternate then baseMark base else [])
    (List.replicate (least - digits.length) '0' ++ digits)

/-- A double, whose digits follow from its size in units of the least positive double. -/
def showDouble (style : Style) (capitals : Bool) (digits : Nat → Nat → List Char) (v : Json) :
    Filled Shown := do
  let x ← nearestDouble v
  let precision := style.precision.getD 6
  checkRoom precision
  return match x with
    | .finite negative rank =>
        .ofNumber negative capitals [] (digits precision (Binary64.magnitude rank))
    | .infinite negative => .ofNumber negative capitals [] ['i', 'n', 'f']
    | .nan => .ofNumber false capitals [] ['n', 'a', 'n']

/-- The character of a number, or the only one of a string. -/
def showCharacter (v : Json) : Filled Shown :=
  match v, integer? v with
  | .str [p], _ => .ok (.ofText [p])
  | _, some i =>
      if 0 ≤ i ∧ i < 0x110000 then .ok (.ofText [.ofNat i.toNat]) else .error .noCharacter
  | _, none => .error .unfit

/-- A text in which every character outside ASCII is escaped. -/
def escapeOthers (t : Text) : Text :=
  t.expand fun c => if c.toNat < 0x80 then [c] else Text.Display.numberEscape c

/-- An argument as a conversion shows it; a precision cuts a text off. -/
def Conversion.apply (style : Style) (v : Json) : Conversion → Filled Shown
  | .text quoted escaped =>
      let t := if quoted then v.display else v.plainText
      let t := if escaped then escapeOthers t else t
      .ok (.ofText (match style.precision with
        | some n => t.take n
        | none => t))
  | .integer base capitals => showInteger style base capitals v
  | .exponent capitals => showDouble style capitals (Binary64.exponentText style.alternate) v
  | .fixed capitals => showDouble style capitals (Binary64.fixedText style.alternate) v
  | .general capitals =>
      showDouble style capitals (fun n => Binary64.generalText style.alternate (n - 1)) v
  | .character => showCharacter v

/-- What stands for the sign of a number. -/
def Style.sign (style : Style) (negative : Bool) : List Char :=
  if negative then ['-'] else if style.plus then ['+'] else if style.blank then [' '] else []

/-- A shown argument brought to the width: blanks go to one side of it, or zeros behind the sign and
the mark of a number. -/
def Style.layOut (style : Style) (s : Shown) : Text :=
  let lead := Text.ofChars ((s.negative.map style.sign).getD [] ++ s.mark)
  let space := style.width - (lead.length + s.body.length)
  if style.leftAligned then lead ++ s.body ++ List.replicate space (.char ' ')
  else if style.zeros && s.negative.isSome then lead ++ List.replicate space (.char '0') ++ s.body
  else List.replicate space (.char ' ') ++ lead ++ s.body

/-- The widest that can be asked for. -/
def widthLimit : Nat := 9223372036854775807

/-- A width, which is negative when it also asks for blanks on the right. -/
def Supply.width (s : Supply) : Option Extent → Filled (Int × Supply)
  | none => .ok (0, s)
  | some (.given n) => if widthLimit < n then .error .hugeWidth else .ok (n, s)
  | some .argument => do
      let (v, s) ← s.next
      match integer? v with
      | none => throw .unfit
      | some i =>
          if -(widthLimit : Int) - 1 ≤ i ∧ i ≤ widthLimit then return (i, s)
          else throw .hugeArgument

/-- The most precise that can be asked for. -/
def precisionLimit : Nat := 2147483647

/-- A precision; a negative one counts as zero. -/
def Supply.precision (s : Supply) : Option Extent → Filled (Option Nat × Supply)
  | none => .ok (none, s)
  | some (.given n) => if precisionLimit < n then .error .hugePrecision else .ok (some n, s)
  | some .argument => do
      let (v, s) ← s.next
      match integer? v with
      | none => throw .unfit
      | some i =>
          if -(precisionLimit : Int) - 1 ≤ i ∧ i ≤ precisionLimit then return (some i.toNat, s)
          else throw .hugeArgument

/-- The text for a placeholder, and the arguments that are left. -/
def fillPlaceholder (h : Placeholder) (s : Supply) : Filled (Text × Supply) := do
  let s ← s.select h.name
  let (width, s) ← s.width h.width
  let (precision, s) ← s.precision h.precision
  match h.conversion with
  | none => throw .unfinished
  | some p =>
      let (v, s) ← s.next
      let style : Style :=
        { leftAligned := h.flags.contains '-' || decide (width < 0)
          plus := h.flags.contains '+'
          blank := h.flags.contains ' '
          alternate := h.flags.contains '#'
          zeros := h.flags.contains '0'
          width := width.natAbs
          precision }
      match p.char?.bind Conversion.ofChar? with
      | none => throw (.unknownConversion p h.place)
      | some conversion =>
          let shown ← conversion.apply style v
          checkRoom style.width
          return (style.layOut shown, s)

/-- The message of a template. All arguments have to be used, save an object with members. -/
def fill : Template → Supply → Filled Text
  | [], s => if s.members.isNone && !s.pending.isEmpty then .error .tooManyArguments else .ok []
  | .plain p :: ps, s => (fill ps s).map (p :: ·)
  | .placeholder h :: ps, s => do
      let (text, s) ← fillPlaceholder h s
      let rest ← fill ps s
      return text ++ rest

/-- The message of a text with arguments; without arguments the text stays as it is. -/
def ofText (text : Text) (args : List Json) : Filled Text :=
  if args.isEmpty then .ok text else fill (Template.ofText text) (.ofArguments args)

end RefinementTypes.Message
