import RefinementTypes.Declaration.Companion
import RefinementTypes.Json.Reader
import RefinementTypes.Schema.Field
import RefinementTypes.Vocabulary

/-!
# Settings

What a service is started with: the names that generated code uses and how its log is written.
A setting is taken from a given value, else from an environment variable, else from its default. The
case of its name does not matter.
-/

namespace RefinementTypes

structure Settings where
  defaultVisibility : Visibility := .publicExported
  decideFunction : Text := "decide"
  refineName : Text := "refine"
  maybeType : Text := "Maybe"
  yesConstructor : Text := "Yes"
  noConstructor : Text := "No"
  corsOrigins : List Text := ["http://localhost:5173"]
  logLevel : Text := "INFO"
  logFormat : Text := "json"

/-- Why there are no settings. -/
inductive SettingsFailure where
  /-- The environment variable of a structured setting is no JSON text. -/
  | unreadable (field : Text)
  | invalid (complaints : List Schema.Complaint)

def SettingsFailure.unreadableMessage (field : Text) : Text :=
  "error parsing value for field \"" ++ field ++ "\" from source \"EnvSettingsSource\""

namespace Settings

def vocabulary (s : Settings) : Vocabulary :=
  { decide := s.decideFunction
    refineName := s.refineName
    maybeType := s.maybeType
    yes := s.yesConstructor
    no := s.noConstructor }

def fieldNames : List Text :=
  ["default_visibility", "decide_function", "refine_name", "maybe_type", "yes_constructor",
   "no_constructor", "cors_origins", "log_level", "log_format"]

/-- A name for generated code: not empty and without blanks. -/
def readIdentifier (v : Json) : Schema.Checked Text :=
  (Schema.readString v).bind fun s =>
    if s.isEmpty || s.any (fun p => p.char?.any Text.isBlank) then
      Schema.Checked.fail (.invalidIdentifier s)
    else .ok s

/-- A member of an object under the name of the setting that it gives, if it gives one. -/
def named (member : Text × Json) : Text × Json :=
  let lower := Text.toLower member.1
  if fieldNames.contains lower then (lower, member.2) else member

/-- The settings among the members of an object; a member that is no setting is complained about
after all others. -/
def read (members : List (Text × Json)) : Schema.Checked Settings :=
  let field {α : Type} (name : Text) (default : α) (read : Json → Schema.Checked α) :
      Schema.Checked α := Schema.optional name default (Schema.found members name read)
  let d : Settings := {}
  let visibility := field "default_visibility" d.defaultVisibility Schema.readSpelled
  let decide := field "decide_function" d.decideFunction readIdentifier
  let refine := field "refine_name" d.refineName readIdentifier
  let maybe := field "maybe_type" d.maybeType readIdentifier
  let yes := field "yes_constructor" d.yesConstructor readIdentifier
  let no := field "no_constructor" d.noConstructor readIdentifier
  let origins := field "cors_origins" d.corsOrigins (Schema.readList Schema.readString)
  let level := field "log_level" d.logLevel Schema.readString
  let format := field "log_format" d.logFormat Schema.readString
  let unknown : Schema.Checked Unit :=
    match members.filter fun (name, _) => !fieldNames.contains name with
    | [] => .ok ()
    | extra => .error (extra.map fun (name, _) => { path := [name], problem := .unknownField })
  (visibility.both (decide.both (refine.both (maybe.both (yes.both (no.both (origins.both
    (level.both (format.both unknown))))))))).map
      fun (visibility, decide, refine, maybe, yes, no, origins, level, format, _) =>
        { defaultVisibility := visibility
          decideFunction := decide
          refineName := refine
          maybeType := maybe
          yesConstructor := yes
          noConstructor := no
          corsOrigins := origins
          logLevel := level
          logFormat := format }

/-- The environment variable of a setting; the case of its name does not matter, and of two that
differ in case only the later one counts. -/
def environmentValue? (env : List (Text × Text)) (field : Text) : Option Text :=
  let key := "refinery_" ++ field
  (env.reverse.find? fun (name, _) => Text.toLower name == key).map Prod.snd

/-- The value of an environment variable. That of the list of origins is JSON text, in which null
means that there is no value. -/
def valueOfVariable (field text : Text) : Except SettingsFailure (Option Json) :=
  if field = "cors_origins" then
    match Json.parse text with
    | .ok .null => .ok none
    | .ok v => .ok (some v)
    | .error _ => .error (.unreadable field)
  else .ok (some (.str text))

/-- The settings that the environment gives. -/
def fromEnvironment (env : List (Text × Text)) :
    Except SettingsFailure (List (Text × Json)) := do
  let entries ← fieldNames.mapM fun field =>
    match environmentValue? env field with
    | none => .ok none
    | some text => do
        let v ← valueOfVariable field text
        return v.map fun v => (field, v)
  return entries.filterMap id

/-- The settings from given values and the environment; of two values for one setting the first
counts. -/
def load (values : List (Text × Json)) (env : List (Text × Text)) :
    Except SettingsFailure Settings := do
  let fromEnv ← fromEnvironment env
  match read (values.map named ++ fromEnv) with
  | .ok s => .ok s
  | .error complaints => .error (.invalid complaints)

end Settings
end RefinementTypes
