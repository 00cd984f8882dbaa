import RefinementTypes.Json.Basic
import RefinementTypes.Schema.Field
import RefinementTypes.Term.Basic

/-!
# Terms as data

A term is an object whose `kind` says which fields it has. Cases cannot be sent, a parameter index
cannot be negative, and terms cannot be nested deeper than the readers go.
-/

namespace RefinementTypes.Schema

inductive TermKind where
  | var
  | param
  | app
  | lit
  | hole
  | pi
deriving DecidableEq

instance : Spelled TermKind where
  members := [.var, .param, .app, .lit, .hole, .pi]
  spelling
    | .var => "var"
    | .param => "param"
    | .app => "app"
    | .lit => "lit"
    | .hole => "hole"
    | .pi => "pi"

def TermKind.model : TermKind → Text
  | var => "VarTerm"
  | param => "ParamTerm"
  | app => "AppTerm"
  | lit => "LitTerm"
  | hole => "HoleTerm"
  | pi => "PiTerm"

/-- An integer, a double or a string; truth values count as integers. -/
def readLiteral : Json → Checked Literal
  | .int i => .ok (.int i)
  | .bool b => .ok (.int (if b then 1 else 0))
  | .float x => .ok (.float x)
  | .overflow negative => .ok (.float (.infinite negative))
  | .str s => .ok (.str s)
  | _ =>
      .error
        [{ path := ["int"], problem := .notInteger }, { path := ["float"], problem := .notNumber },
         { path := ["str"], problem := .notString }]

/-- The kind that the members of an object name, and what is read for it, under the tag. -/
def readTagged {κ α : Type} [Spelled κ] (members : List (Text × Json))
    (read : κ → Checked α) : Checked α :=
  match members.lookup ("kind" : Text) with
  | none => .fail .noTag
  | some tag =>
      let shown := Text.Display.replaceHalves tag.plainText
      let refusal : Checked α :=
        .fail (.unknownTag shown ((Spelled.members : List κ).map Spelled.spelling))
      match tag with
      | .str s =>
          match Spelled.parse? s with
          | some kind => (read kind).under s
          | none => refusal
      | _ => refusal

/-- How many readers are at work inside one another, and of which family the innermost is. -/
structure Depth where
  readers : Nat
  family : Family
deriving DecidableEq

namespace Depth

/-- How many readers may be at work inside one another. -/
def limit : Nat := 255

def outside : Depth := ⟨0, .outside⟩

/-- The depth inside a term of the given kind: one reader more, or two when the term is handed over
to another family. -/
def enter (d : Depth) : TermKind → Depth
  | .app =>
      match d.family with
      | .applications => ⟨d.readers + 1, .applications⟩
      | _ => ⟨d.readers + 2, .applications⟩
  | .pi =>
      match d.family with
      | .outside => ⟨d.readers + 2, .arrows⟩
      | family => ⟨d.readers + 1, family⟩
  | _ => { d with readers := d.readers + 1 }

/-- The depth inside a term that is read on its own. A term that holds no others needs no count. -/
def within : TermKind → Depth
  | .app => ⟨1, .applications⟩
  | .pi => ⟨1, .arrows⟩
  | _ => outside

end Depth

/-- How an argument is supplied, which a reader of its own reads inside the reader of the term. -/
def readInfo (depth : Depth) (v : Json) : Checked Explicitness :=
  (if depth.readers < Depth.limit then readSpelled v else .fail .tooDeep).holding
    (Hold.of? depth.family v)

/-- The term of a kind from the members of its object and from what they read as when they are terms
themselves, given the depth inside of it. -/
def assemble (depth : Depth) (members : List (Text × Json)) (terms : List (Text × Checked Term)) :
    TermKind → Checked Term
  | .var => (required "name" (found members "name" readName)).map .var
  | .param => (required "index" (found members "index" (readIntegerFrom 0))).map .param
  | .app =>
      let fn := required "fn" (terms.lookup ("fn" : Text))
      let arg := required "arg" (terms.lookup ("arg" : Text))
      let info := optional "info" .explicit (found members "info" (readInfo depth))
      (fn.both (arg.both info)).map fun (fn, arg, info) => .app fn arg info
  | .lit => (required "value" (found members "value" readLiteral)).map .lit
  | .hole => .ok .hole
  | .pi =>
      let name := optional "name" none (found members "name" (readNullable readString))
      let multiplicity :=
        optional "multiplicity" .unrestricted (found members "multiplicity" readSpelled)
      let info := optional "info" .explicit (found members "info" (readInfo depth))
      let domain := required "arg_type" (terms.lookup ("arg_type" : Text))
      let result := required "result" (terms.lookup ("result" : Text))
      (name.both (multiplicity.both (info.both (domain.both result)))).map
        fun (name, multiplicity, info, domain, result) => .pi name multiplicity info domain result

mutual

/-- A term that stands at the given depth. -/
def readTermAt (depth : Depth) : Json → Checked Term
  | .object members =>
      readTagged members fun kind =>
        let inside := depth.enter kind
        if Depth.limit < inside.readers then .fail .tooDeep
        else assemble inside members (readTermsAt inside members) kind
  | _ => .fail .notFields

/-- Every member of an object read as a term. -/
def readTermsAt (depth : Depth) : List (Text × Json) → List (Text × Checked Term)
  | [] => []
  | (name, v) :: ms => (name, readTermAt depth v) :: readTermsAt depth ms

end

/-- A term among other data. -/
def readTerm (v : Json) : Checked Term := readTermAt .outside v

/-- A term of the given kind; the kind need not be named, and is complained about if it is wrong. -/
def readTermOfKind (e : Entrance) (kind : TermKind) : Json → Checked Term :=
  readModel e kind.model fun members =>
    let word := Spelled.spelling kind
    let tag : Checked Unit := optional "kind" () (found members "kind" fun v =>
      match v with
      | .str s =>
          if s = word then .ok () else .fail (if s.isWhole then .otherWord word else .notWhole)
      | _ => .fail (.otherWord word))
    let depth := Depth.within kind
    (tag.both (assemble depth members (readTermsAt depth members) kind)).settled.map Prod.snd

end RefinementTypes.Schema
