import RefinementTypes.Declaration.Companion
import RefinementTypes.Schema.Term
import RefinementTypes.Shape.Basic

/-!
# Descriptors and requests as data

Objects with the fields of a descriptor. Names are not empty, lines count from one and columns from
zero; unknown fields are ignored.

Every term and argument is written with its kind and all its fields. Cases have no written form that
a reader takes back; they are written as an object of a kind that readers refuse.
-/

namespace RefinementTypes
namespace Schema

inductive ArgumentKind where
  | param
  | named
deriving DecidableEq

instance : Spelled ArgumentKind where
  members := [.param, .named]
  spelling
    | .param => "param"
    | .named => "named"

def assembleArgument (members : List (Text × Json)) : ArgumentKind → Checked Argument
  | .param => (required "index" (found members "index" (readIntegerFrom 0))).map .param
  | .named =>
      let name := optional "name" none (found members "name" (readNullable readString))
      let multiplicity :=
        optional "multiplicity" .unrestricted (found members "multiplicity" readSpelled)
      let explicitness :=
        optional "explicitness" .explicit (found members "explicitness" readSpelled)
      let type := required "type" (found members "type" readTerm)
      (name.both (multiplicity.both (explicitness.both type))).map
        fun (name, multiplicity, explicitness, type) =>
          .named { name, multiplicity, explicitness, type }

def readArgument : Json → Checked Argument
  | .object members => readTagged members (assembleArgument members)
  | _ => .fail .notFields

def readParameter (e : Entrance) : Json → Checked TypeParameter :=
  readModel e "ParameterSchema" fun members =>
    let name := required "name" (found members "name" readName)
    let type := required "type" (found members "type" readTerm)
    (name.both type).map fun (name, type) => { name, type }

def readConstructor (e : Entrance) : Json → Checked Constructor :=
  readModel e "ConstructorSchema" fun members =>
    let name := required "name" (found members "name" readName)
    let args := optional "args" [] (found members "args" (readList readArgument))
    (name.both args).map fun (name, args) => { name, args }

def readLocation (e : Entrance) : Json → Checked Location :=
  readModel e "LocationSchema" fun members =>
    let file := required "file" (found members "file" readString)
    let line := required "line" (found members "line" (readIntegerFrom 1))
    let column := optional "column" 0 (found members "column" (readIntegerFrom 0))
    (file.both (line.both column)).map fun (file, line, column) => { file, line, column }

def readDescriptor (e : Entrance) : Json → Checked TypeDescriptor :=
  readModel e "DescriptorSchema" fun members =>
    let name := required "name" (found members "name" readName)
    let params := optional "params" [] (found members "params" (readList (readParameter e)))
    let constructors :=
      optional "constructors" [] (found members "constructors" (readList (readConstructor e)))
    let location := optional "location" none
      (found members "location" (readNullable (readLocation e)))
    (name.both (params.both (constructors.both location))).settled.map
      fun (name, params, constructors, location) => { name, params, constructors, location }

def spelledJson {α : Type} [Spelled α] (a : α) : Json := .str (Spelled.spelling a)

def literalJson : Literal → Json
  | .int i => .int i
  | .float x => .float x
  | .str s => .str s

/-- An object of a kind with further members. -/
def tagged {κ : Type} [Spelled κ] (kind : κ) (members : List (Text × Json)) : Json :=
  .object (("kind", spelledJson kind) :: members)

def termJson : Term → Json
  | .var name => tagged TermKind.var [("name", .str name)]
  | .param index => tagged TermKind.param [("index", .int index)]
  | .app fn arg info =>
      tagged TermKind.app [("fn", termJson fn), ("arg", termJson arg), ("info", spelledJson info)]
  | .lit value => tagged TermKind.lit [("value", literalJson value)]
  | .hole => tagged TermKind.hole []
  | .pi name multiplicity info domain result =>
      tagged TermKind.pi
        [("name", .ofText? name), ("multiplicity", spelledJson multiplicity),
         ("info", spelledJson info), ("arg_type", termJson domain), ("result", termJson result)]
  | .case _ _ => .object [("kind", .str "case")]

def argumentJson : Argument → Json
  | .param index => tagged ArgumentKind.param [("index", .int index)]
  | .named a =>
      tagged ArgumentKind.named
        [("name", .ofText? a.name), ("multiplicity", spelledJson a.multiplicity),
         ("explicitness", spelledJson a.explicitness), ("type", termJson a.type)]

def parameterJson (p : TypeParameter) : Json :=
  .object [("name", .str p.name), ("type", termJson p.type)]

def constructorJson (c : Constructor) : Json :=
  .object [("name", .str c.name), ("args", .array (c.args.map argumentJson))]

def locationJson (l : Location) : Json :=
  .object [("file", .str l.file), ("line", .int l.line), ("column", .int l.column)]

def descriptorJson (d : TypeDescriptor) : Json :=
  .object
    [("name", .str d.name), ("params", .array (d.params.map parameterJson)),
     ("constructors", .array (d.constructors.map constructorJson)),
     ("location", (d.location.map locationJson).getD .null)]

end Schema

/-- A descriptor to derive declarations for; without a visibility of its own it takes the default of
the service. -/
structure DerivationRequest where
  strategy : Strategy
  descriptor : TypeDescriptor
  visibility : Option Visibility

namespace Schema

def readRequest (e : Entrance) : Json → Checked DerivationRequest :=
  readModel e "DeriveRequest" fun members =>
    let strategy := optional "strategy" .plain (found members "strategy" readSpelled)
    let descriptor := required "descriptor" (found members "descriptor" (readDescriptor e))
    let visibility := optional "visibility" none
      (found members "visibility" (readNullable readSpelled))
    (strategy.both (descriptor.both visibility)).map
      fun (strategy, descriptor, visibility) => { strategy, descriptor, visibility }

end Schema
end RefinementTypes
