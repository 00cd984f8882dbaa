import RefinementTypes.Json.Basic
import RefinementTypes.Logging.Message

/-!
# Log records and their configuration

A record is written as one line of JSON: when, how severe, by whom, the message, and then the known
extra fields that have a value, in a fixed order. Extra fields are set last: one with the name of a
field that every record has replaces it.

Setting logging up replaces the handler that an earlier set-up installed, so there is always one.
The level comes last: when its name means something else, the handler is new and the level is the
one from before.
-/

namespace RefinementTypes
namespace LogLevel

def debug : Int := 10
def info : Int := 20
def warning : Int := 30
def error : Int := 40
def critical : Int := 50

/-- The word for a level, or its number. -/
def text (level : Int) : Text :=
  if level = 0 then "NOTSET"
  else if level = debug then "DEBUG"
  else if level = info then "INFO"
  else if level = warning then "WARNING"
  else if level = error then "ERROR"
  else if level = critical then "CRITICAL"
  else "Level " ++ Decimal.intText level

end LogLevel

structure LogRecord where
  level : Int
  logger : Text
  message : Text
  extras : List (Text × Json) := []
  /-- The description of the exception that is being handled. -/
  exception : Option Text := none

namespace LogRecord

/-- The extra fields that a line shows, in its order. -/
def extraFields : List Text :=
  ["type_name", "strategy", "error_code", "declaration_count", "path", "location"]

/-- The value of a field among others; of two with one name the later counts. -/
def valueOf? (extras : List (Text × Json)) (field : Text) : Option Json :=
  extras.reverse.lookup field

/-- The record of an event, whose message is made from a text and arguments. -/
def ofEvent (level : Int) (logger text : Text) (args : List Json) (extras : List (Text × Json)) :
    Message.Filled LogRecord := do
  let text := ((valueOf? extras "msg").map Json.plainText).getD text
  let message ← Message.ofText text args
  return { level, logger, message, extras }

def isNull : Json → Bool
  | .null => true
  | _ => false

/-- A known extra field with its value, if it has one. -/
def extra? (r : LogRecord) (field : Text) : Option (Text × Json) :=
  match valueOf? r.extras field with
  | some v => if isNull v then none else some (field, v)
  | none => none

def json (r : LogRecord) (timestamp : Text) : Json :=
  let level := (valueOf? r.extras "levelname").getD (.str (LogLevel.text r.level))
  let logger := (valueOf? r.extras "name").getD (.str r.logger)
  let always : List (Text × Json) :=
    [("timestamp", .str timestamp), ("level", level), ("logger", logger),
     ("message", .str r.message)]
  let exception : List (Text × Json) := match r.exception with
    | some description => [("exception", .str description)]
    | none => []
  .object (always ++ extraFields.filterMap r.extra? ++ exception)

def line (r : LogRecord) (timestamp : Text) : Text := (r.json timestamp).render

end LogRecord

/-- The capitals of a letter, for ASCII letters and the others that have ASCII capitals. -/
def capitals (c : Char) : List Char :=
  if c = 'ı' then ['I']
  else if c = 'ſ' then ['S']
  else if c = 'ß' then ['S', 'S']
  else if c = 'ﬅ' ∨ c = 'ﬆ' then ['S', 'T']
  else [c.toUpper]

/-- Why a name gives no level. -/
inductive LevelFailure where
  /-- The name stands for a text that names no level. -/
  | unknownLevel (text : Text)
  /-- The name stands for something that can be no level. -/
  | notLevel
deriving DecidableEq

def LevelFailure.unknownLevelMessage (text : Text) : Text :=
  "Unknown level: " ++ Text.Display.display text

/-- How a record is written when nothing else is said. -/
def basicFormat : Text := "%(levelname)s:%(name)s:%(message)s"

/-- The levels that have names. -/
def LogLevel.named : List (Text × Int) :=
  [("NOTSET", 0), ("DEBUG", debug), ("INFO", info), ("WARN", warning), ("WARNING", warning),
   ("ERROR", error), ("CRITICAL", critical), ("FATAL", critical)]

/-- The level of a name in any case. An unknown name means `INFO`, but two names stand for a format
and for a table of styles. -/
def LogLevel.ofName (name : Text) : Except LevelFailure Int :=
  let upper := name.expand capitals
  if upper = "BASIC_FORMAT" then .error (.unknownLevel basicFormat)
  else if upper = "_STYLES" then .error .notLevel
  else .ok ((named.lookup upper).getD info)

/-- How a handler writes its records. -/
inductive LogFormat where
  | json
  | plain
deriving DecidableEq

structure LogConfiguration where
  level : Int
  handlers : List LogFormat
deriving DecidableEq

namespace LogConfiguration

def initial : LogConfiguration := ⟨LogLevel.warning, []⟩

/-- The configuration after logging is set up, and why the level was left as it was. -/
def setUp (c : LogConfiguration) (level format : Text) :
    LogConfiguration × Option LevelFailure :=
  let handlers := [if format = "json" then LogFormat.json else .plain]
  match LogLevel.ofName level with
  | .ok level => (⟨level, handlers⟩, none)
  | .error e => (⟨c.level, handlers⟩, some e)

end LogConfiguration
end RefinementTypes
