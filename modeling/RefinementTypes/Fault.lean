import RefinementTypes.Binary64.Shortest
import RefinementTypes.Json.Basic
import RefinementTypes.Shape.Refinement

/-!
# Faults

Every failure of the library as a message with a code, a category, a severity, the status with which
a service answers, and the place where it happened. The wording of each failure is here or beside
its cause.
-/

namespace RefinementTypes

inductive Severity where
  | error
  | critical
deriving DecidableEq

instance : Spelled Severity where
  members := [.error, .critical]
  spelling
    | .error => "error"
    | .critical => "critical"

inductive Category where
  | validation
  | shape
  | evaluation
  | internal
deriving DecidableEq

instance : Spelled Category where
  members := [.validation, .shape, .evaluation, .internal]
  spelling
    | .validation => "validation"
    | .shape => "shape"
    | .evaluation => "evaluation"
    | .internal => "internal"

/-- Where a failure happened. -/
structure Context where
  typeName : Option Text := none
  constructorName : Option Text := none
  strategy : Option Text := none
  location : Option Text := none
deriving DecidableEq

namespace Context

/-- Every entry with its key. -/
def entries (c : Context) : List (Text × Option Text) :=
  [("type_name", c.typeName), ("constructor_name", c.constructorName), ("strategy", c.strategy),
   ("location", c.location)]

/-- The entries that a log record carries: those that are known, the constructor left out. -/
def logExtra (c : Context) : List (Text × Text) :=
  c.entries.filterMap fun (key, value) =>
    if key = "constructor_name" then none else value.map fun text => (key, text)

def json (c : Context) : Json := .object (c.entries.map fun (key, value) => (key, .ofText? value))

end Context

inductive FaultKind where
  | notSingleConstructor
  | shapeMismatch
  | derivation
  | term
  | evaluation
  | literalRejected
  | other
deriving DecidableEq

structure Fault where
  kind : FaultKind
  message : Text
  code : Text
  category : Category
  severity : Severity
  status : Int
  context : Context
deriving DecidableEq

namespace Fault

def isClientError (f : Fault) : Bool := f.status < 500

/-- A type descriptor that cannot be derived. -/
def isDerivation (f : Fault) : Bool :=
  f.kind = .notSingleConstructor || f.kind = .shapeMismatch || f.kind = .derivation

/-- A failed derivation; its context names the type. -/
def ofDerivation (kind : FaultKind) (message code typeName : Text) (context : Context) : Fault :=
  { kind, message, code, category := .shape, severity := .error, status := 422,
    context := { context with typeName := some typeName } }

def notRefinement (typeName reason : Text) : Text :=
  typeName ++ " is not a refinement type: " ++ reason

def notSingleConstructor (typeName : Text) (count : Int) (context : Context) : Fault :=
  ofDerivation .notSingleConstructor
    (notRefinement typeName
      ("expected exactly one constructor, found " ++ Decimal.intText count))
    "NOT_SINGLE_CONSTRUCTOR" typeName context

def shapeMismatch (typeName reason : Text) (context : Context) : Fault :=
  ofDerivation .shapeMismatch (notRefinement typeName reason) "SHAPE_MISMATCH" typeName context

def term (message : Text) (context : Context) : Fault :=
  { kind := .term, message, code := "TERM_ERROR", category := .validation, severity := .error,
    status := 422, context }

def evaluation (message : Text) (context : Context) : Fault :=
  { kind := .evaluation, message, code := "EVALUATION_ERROR", category := .evaluation,
    severity := .critical, status := 500, context }

def literalRejected (message : Text) (context : Context) : Fault :=
  { kind := .literalRejected, message, code := "LITERAL_REJECTED", category := .evaluation,
    severity := .error, status := 422, context }

/-- The answer of a service to a failure: code, message, category and severity, then more fields. -/
def envelopeOf (code message : Text) (category : Category) (severity : Severity)
    (fields : List (Text × Json)) : Json :=
  .object [("error", .object
    (("code", .str code) :: ("message", .str message) ::
      ("category", .str (Spelled.spelling category)) ::
      ("severity", .str (Spelled.spelling severity)) :: fields))]

/-- The answer to a fault that arose at the given time. -/
def envelope (f : Fault) (timestamp : Text) : Json :=
  envelopeOf f.code f.message f.category f.severity
    [("timestamp", .str timestamp), ("context", f.context.json)]

end Fault

/-- Integers between brackets, with a comma and a blank after each but the last. -/
def intListText (is : List Int) : Text := "[" ++ Text.join ", " (is.map Decimal.intText) ++ "]"

def danglingReason (typeName : Text) (indices : List Int) (count : Nat) : Text :=
  "constructor refers to parameter(s) " ++ intListText indices ++ " but " ++ typeName ++ " has " ++
    Decimal.intText count ++ " parameter(s)"

def Rejection.fault (r : Rejection) : Fault :=
  let context : Context := { constructorName := r.constructorName, location := r.location }
  match r.obstacle with
  | .notSingleConstructor count => .notSingleConstructor r.typeName count context
  | .mismatch m => .shapeMismatch r.typeName m.reason context
  | .danglingParams indices count =>
      .shapeMismatch r.typeName (danglingReason r.typeName indices count) context

def TermFailure.message : TermFailure → Text
  | dangling index count =>
      "Parameter reference " ++ Decimal.intText index ++ " is out of range for " ++
        Decimal.intText count ++ " parameter(s)"
  | unwritable value => "Float literal " ++ value.display ++ " has no source form"

def TermFailure.fault (e : TermFailure) : Fault := .term e.message {}

end RefinementTypes
