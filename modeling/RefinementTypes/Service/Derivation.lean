import RefinementTypes.Fault
import RefinementTypes.Logging.Record
import RefinementTypes.Schema.Descriptor
import RefinementTypes.Settings
import RefinementTypes.Source.Module

/-!
# The derivation service

Derives the declarations of a request and writes them as source. A derivation leaves one log record,
of its success or of its rejection; rendering comes after that record and can still fail.
-/

namespace RefinementTypes.Service

/-- A declaration with its source text. -/
structure RenderedDeclaration where
  name : Text
  space : Option Text
  visibility : Visibility
  signature : Text
  clause : Text
  source : Text

structure DerivationResponse where
  typeName : Text
  strategy : Strategy
  declarations : List RenderedDeclaration
  moduleText : Text

def RenderedDeclaration.json (d : RenderedDeclaration) : Json :=
  .object
    [("name", .str d.name), ("namespace", .ofText? d.space),
     ("visibility", .str (Spelled.spelling d.visibility)), ("signature", .str d.signature),
     ("clause", .str d.clause), ("source", .str d.source)]

def DerivationResponse.json (r : DerivationResponse) : Json :=
  .object
    [("type_name", .str r.typeName), ("strategy", .str (Spelled.spelling r.strategy)),
     ("declarations", .array (r.declarations.map RenderedDeclaration.json)),
     ("module", .str r.moduleText)]

def renderDeclaration (d : Declaration) : Except TermFailure RenderedDeclaration := do
  let signature ← Source.signature d
  let clause ← Source.clause d
  let source ← Source.declaration d
  return { name := d.name, space := d.space, visibility := d.visibility, signature, clause, source }

def render (request : DerivationRequest) (ds : List Declaration) :
    Except TermFailure DerivationResponse := do
  let declarations ← ds.mapM renderDeclaration
  let moduleText ← Source.moduleText ds
  return { typeName := request.descriptor.name, strategy := request.strategy, declarations,
           moduleText }

def logger : Text := "refinery.services.derivation_service"

def textExtras (extras : List (Text × Text)) : List (Text × Json) :=
  extras.map fun (key, text) => (key, .str text)

def rejectionRecord (f : Fault) : LogRecord :=
  { level := LogLevel.warning
    logger
    message := "Derivation rejected: " ++ f.message
    extras := ("error_code", .str f.code) :: textExtras f.context.logExtra }

def successRecord (request : DerivationRequest) (count : Nat) : LogRecord :=
  { level := LogLevel.info
    logger
    message := "Derived " ++ Decimal.intText count ++ " declaration(s) for " ++
      request.descriptor.name
    extras :=
      [("type_name", .str request.descriptor.name),
       ("strategy", .str (Spelled.spelling request.strategy)), ("declaration_count", .int count)] }

/-- The fault of a rejected derivation, with the strategy that was asked for. -/
def rejectionFault (request : DerivationRequest) (r : Rejection) : Fault :=
  let f := r.fault
  { f with context := { f.context with strategy := some (Spelled.spelling request.strategy) } }

/-- Answers a request, with the log records of doing so. -/
def runDerivation (settings : Settings) (request : DerivationRequest) :
    Except Fault DerivationResponse × List LogRecord :=
  let visibility := request.visibility.getD settings.defaultVisibility
  match derive request.strategy request.descriptor settings.vocabulary visibility with
  | .error (.rejected r) =>
      let f := rejectionFault request r
      (.error f, [rejectionRecord f])
  | .error (.term e) => (.error e.fault, [])
  | .ok ds =>
      ((render request ds).mapError TermFailure.fault, [successRecord request ds.length])

/-- Every strategy with the literals that it brings. -/
def strategiesJson : Json :=
  .array ((Spelled.members : List Strategy).map fun s =>
    .object
      [("name", .str (Spelled.spelling s)),
       ("literals", .array (s.literals.map fun k => .str (Spelled.spelling k)))])

end RefinementTypes.Service
