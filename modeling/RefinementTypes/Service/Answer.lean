import RefinementTypes.Service.Derivation

/-!
# Answers

What a service answers to failures and what it logs with an answer. Rejected derivations are logged
where they arise and every other failure where it is answered. An answer that cannot be written as
UTF-8 becomes a crash.
-/

namespace RefinementTypes.Service

/-- What answers and log records take from their moment: the time and the trace of a crash. -/
structure Moment where
  timestamp : Text
  trace : Text

structure Response where
  status : Int
  body : Option Json

/-- A response with the log records of the exchange. -/
structure Exchange where
  response : Response
  log : List LogRecord

def handlerLogger : Text := "refinery.api.error_handlers"

def faultRecord (path : Text) (f : Fault) : LogRecord :=
  { level := if f.isClientError then LogLevel.warning else LogLevel.error
    logger := handlerLogger
    message := f.code ++ " on " ++ path ++ ": " ++ f.message
    extras :=
      ("error_code", .str f.code) :: ("path", .str path) :: textExtras f.context.logExtra }

/-- The answer to a fault; one of a derivation has been logged already. -/
def answerFault (moment : Moment) (path : Text) (f : Fault) : Exchange :=
  { response := ⟨f.status, some (f.envelope moment.timestamp)⟩
    log := if f.isDerivation then [] else [faultRecord path f] }

/-- The answer to a body that is no request. -/
def answerComplaints (path : Text) (complaints : List Schema.Complaint) : Exchange :=
  let body := Fault.envelopeOf "VALIDATION_ERROR" "Invalid request data" .validation .error
    [("details", .array (complaints.map Schema.Complaint.json))]
  { response := ⟨400, some body⟩
    log := [
      { level := LogLevel.warning
        logger := handlerLogger
        message := "Invalid request body on " ++ path
        extras := [("error_code", .str "VALIDATION_ERROR"), ("path", .str path)] }] }

/-- The answer to a crash, which tells nothing about it. -/
def answerCrash (moment : Moment) (path message : Text) : Exchange :=
  let body :=
    Fault.envelopeOf "INTERNAL_ERROR" "An unexpected error occurred" .internal .critical []
  { response := ⟨500, some body⟩
    log := [
      { level := LogLevel.error
        logger := handlerLogger
        message := "Unhandled exception on " ++ path ++ ": " ++ message
        extras := [("error_code", .str "INTERNAL_ERROR"), ("path", .str path)]
        exception := some moment.trace }] }

/-- What a route raises. -/
inductive Raised where
  | fault (f : Fault)
  | crash (message : Text)

def answerRaised (moment : Moment) (path : Text) : Raised → Exchange
  | .fault f => answerFault moment path f
  | .crash message => answerCrash moment path message

def detail (text : Text) : Json := .object [("detail", .str text)]

/-- An answer that leaves no log record. -/
def respond (status : Int) (body : Option Json) : Exchange := ⟨⟨status, body⟩, []⟩

def notFound : Exchange := respond 404 (some (detail "Not Found"))

/-- Why a text cannot be encoded: where surrogates first stand in it, and which one it is or how far
they go. -/
def encodingFailure? (t : Text) : Option Text :=
  let start := (t.takeWhile fun p => !p.isHalf).length
  let place : Option Text := match (t.drop start).takeWhile CodePoint.isHalf with
    | [] => none
    | [p] =>
        some ("character '" ++ Text.ofChars (Text.Display.escape '\'' p) ++ "' in position " ++
          Decimal.intText start)
    | halves =>
        some ("characters in position " ++ Decimal.intText start ++ "-" ++
          Decimal.intText (start + halves.length - 1))
  place.map fun place => "'utf-8' codec can't encode " ++ place ++ ": surrogates not allowed"

mutual

/-- Why a value cannot be written one text after another: the first that cannot be encoded. -/
def textFailure? : Json → Option Text
  | .str t => encodingFailure? t
  | .array items => itemsFailure? items
  | .object members => membersFailure? members
  | _ => none

def itemsFailure? : List Json → Option Text
  | [] => none
  | v :: vs => (textFailure? v).or (itemsFailure? vs)

def membersFailure? : List (Text × Json) → Option Text
  | [] => none
  | (_, v) :: ms => (textFailure? v).or (membersFailure? ms)

end

/-- Why an answer cannot be sent. A result is encoded text by text as it is written; any other body
is written as a whole and then encoded. -/
def sendingFailure? (r : Response) : Option Text :=
  r.body.bind fun body =>
    if r.status = 200 then
      (textFailure? body).map fun reason =>
        "Error serializing to JSON: UnicodeEncodeError: " ++ reason
    else encodingFailure? body.compact

/-- The exchange as it is when its answer is sent: one that cannot be sent is a crash. -/
def send (moment : Moment) (path : Text) (e : Exchange) : Exchange :=
  match sendingFailure? e.response with
  | none => e
  | some reason =>
      let answer := answerCrash moment path reason
      { answer with log := e.log ++ answer.log }

end RefinementTypes.Service
