import RefinementTypes.Logging.Record
import RefinementTypes.Service.Answer
import RefinementTypes.Service.Path
import RefinementTypes.Text.Encoding

/-!
# Exchanges

The service over HTTP: request bodies, routes, and the start and the end of a service.
-/

namespace RefinementTypes.Service

structure Request where
  method : String
  path : String
  body : String

/-- Why a body yields no request. -/
inductive BodyFailure where
  /-- The body is no text in its encoding. -/
  | undecodable
  | invalid (complaints : List Schema.Complaint)

/-- The request in a body, which must not be empty. -/
def readBody (body : String) : Except BodyFailure DerivationRequest :=
  if body.isEmpty then .error (.invalid [{ path := ["body"], problem := .missing }])
  else match Text.jsonText? body with
    | none => .error .undecodable
    | some text =>
        match Json.parse text with
        | .error offset =>
            let path : List Text := ["body", Text.ofChars (Decimal.digits offset)]
            .error (.invalid [{ path, problem := .malformed }])
        | .ok v =>
            ((Schema.readRequest .request v).under "body").mapError .invalid

/-- Answers a derivation request that has been read. -/
def answerRequest (settings : Settings) (moment : Moment) (path : Text)
    (request : DerivationRequest) : Exchange :=
  match runDerivation settings request with
  | (.ok r, log) => ⟨⟨200, some r.json⟩, log⟩
  | (.error f, log) =>
      let answer := answerFault moment path f
      { answer with log := log ++ answer.log }

def answerDerivation (settings : Settings) (moment : Moment) (path : Text) (body : String) :
    Exchange :=
  match readBody body with
  | .error .undecodable => respond 400 (some (detail "There was an error parsing the body"))
  | .error (.invalid complaints) => answerComplaints path complaints
  | .ok request => send moment path (answerRequest settings moment path request)

inductive Route where
  | derivations
  | strategies
  | health
deriving DecidableEq

namespace Route

def all : List Route := [derivations, strategies, health]

def path : Route → String
  | derivations => "/api/v1/derivations"
  | strategies => "/api/v1/derivations/strategies"
  | health => "/api/v1/health/"

def method : Route → String
  | derivations => "POST"
  | strategies => "GET"
  | health => "GET"

def ofPath? (path : String) : Option Route :=
  all.find? fun r => Pattern.accepts (Pattern.literal r.path) path.toList

end Route

def healthJson : Json :=
  .object
    [("status", .str "healthy"), ("service", .str "refinery-api"), ("version", .str "0.1.0")]

/-- Handles a request that comes at the given moment. -/
def handle (settings : Settings) (moment : Moment) (request : Request) : Exchange :=
  match Route.ofPath? request.path with
  | some route =>
      if request.method ≠ route.method then respond 405 (some (detail "Method Not Allowed"))
      else match route with
        | .derivations =>
            answerDerivation settings moment (shownPath request.path) request.body
        | .strategies => respond 200 (some strategiesJson)
        | .health => respond 200 (some healthJson)
  | none =>
      match Route.ofPath? (otherSlash request.path) with
      | some _ => respond 307 none
      | none => notFound

/-- Handles a request for a path when there is a single route, which raises what is given. -/
def handleRaising (moment : Moment) (pattern path : String) (raised : Raised) :
    Except PatternFailure Exchange := do
  let ps ← Pattern.parse pattern
  if Pattern.accepts ps path.toList then return answerRaised moment (shownPath path) raised
  else if Pattern.accepts ps (otherSlash path).toList then return respond 307 none
  else return notFound

/-- The logging of a running service with the records of its start and its end. -/
structure Lifespan where
  logging : LogConfiguration
  log : List LogRecord

/-- Starts and stops a service, which fails when logging cannot be set up. -/
def lifespan (settings : Settings) : Except LevelFailure Lifespan :=
  let record (message : Text) : LogRecord :=
    { level := LogLevel.info, logger := "refinery.main", message }
  let (logging, failure) := LogConfiguration.initial.setUp settings.logLevel settings.logFormat
  match failure with
  | some e => .error e
  | none =>
      .ok { logging, log := [record "Refinery API started", record "Refinery API shutting down"] }

end RefinementTypes.Service
