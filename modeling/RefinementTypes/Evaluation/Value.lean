import RefinementTypes.Binary64.Shortest
import RefinementTypes.Fault
import RefinementTypes.Text.Display

/-!
# Values and outcomes

What declarations compute with: plain data, decisions, optional values, records of the host, and
functions. Functions are data as well: a function of the host is known by a code of the host, a
declared function by its qualified name. A computation ends with a value, with a failure, or at the
limit on nested calls.
-/

namespace RefinementTypes

/-- The built-in functions that make decisions and optional values. -/
inductive Maker where
  | yes
  | no
  | just
deriving DecidableEq

inductive Value (Host : Type) where
  /-- What stands in an erased place. -/
  | erased
  | bool (b : Bool)
  | int (i : Int)
  | float (x : Binary64)
  | str (s : Text)
  | list (items : List (Value Host))
  | yes (witness : Value Host)
  | no (contra : Value Host)
  | just (value : Value Host)
  | nothing
  | record (con : Text) (args : List (Value Host))
  | host (h : Host)
  | declared (qualifiedName : Text)
  | maker (m : Maker)
  /-- The function that takes an optional value apart. -/
  | unwrap

/-- Why a computation has no value. -/
inductive EvaluationFailure where
  | duplicate (qualifiedName : Text)
  | unbound (name : Text)
  | notFunction (shown : Text)
  | noAlternative (shown : Text)
  | paramReference
  | arrowType
  | unknownConstructor (name : Text)
  | tooManyArguments (name : Text)
  | wrongArity (qualifiedName : Text) (expected found : Nat)
deriving DecidableEq

def EvaluationFailure.message : EvaluationFailure → Text
  | duplicate name => "Duplicate declaration '" ++ name ++ "'"
  | unbound name => "Unbound name '" ++ name ++ "'"
  | notFunction shown => "Cannot apply non-function " ++ shown
  | noAlternative shown => "No case alternative matches " ++ shown
  | paramReference => "Cannot evaluate ParamRef"
  | arrowType => "Cannot evaluate Pi"
  | unknownConstructor name => "Unknown constructor pattern '" ++ name ++ "'"
  | tooManyArguments name => "Pattern '" ++ name ++ "' has too many arguments"
  | wrongArity name expected found =>
      name ++ " expects " ++ Decimal.intText expected ++ " argument(s), got " ++
        Decimal.intText found

/-- What a call can end with instead of a value. -/
inductive Failure where
  | evaluation (failure : EvaluationFailure)
  /-- A literal that its predicate rejects. -/
  | rejected (message : Text) (context : Context)
  /-- A failure that a function of the host reports. -/
  | host (message : Text)
  /-- A built-in function with the wrong number of arguments, or a call of what is no function. -/
  | misuse
deriving DecidableEq

/-- What a host makes of a call: an answer, or a call of its own with what follows it. -/
inductive Step (Host : Type) where
  | done (result : Except Failure (Value Host))
  | call (fn : Value Host) (args : List (Value Host))
      (next : Except Failure (Value Host) → Step Host)

/-- Functions of a host, given by codes. -/
class HostFunctions (Host : Type) where
  name : Host → Text
  run : Host → List (Value Host) → Step Host

namespace Value
variable {Host : Type}

instance : Inhabited (Value Host) := ⟨erased⟩

def ofLiteral : Literal → Value Host
  | .int i => int i
  | .float x => float x
  | .str s => str s

def isCallable : Value Host → Bool
  | host _ | declared _ | maker _ | unwrap => true
  | _ => false

def makerText : Maker → Text
  | .yes => "<class 'refinery.core.runtime.Yes'>"
  | .no => "<class 'refinery.core.runtime.No'>"
  | .just => "<class 'refinery.core.runtime.Just'>"

section
variable [HostFunctions Host]

mutual

/-- A value as it stands in messages. -/
def display : Value Host → Text
  | erased => "None"
  | bool true => "True"
  | bool false => "False"
  | int i => Decimal.intText i
  | float x => x.display
  | str s => Text.Display.display s
  | list items => "[" ++ Text.join ", " (displayAll items) ++ "]"
  | yes witness => "Yes(witness=" ++ display witness ++ ")"
  | no contra => "No(contra=" ++ display contra ++ ")"
  | just value => "Just(value=" ++ display value ++ ")"
  | nothing => "Nothing()"
  | record con args => con ++ "(" ++ Text.join ", " (displayAll args) ++ ")"
  | host h => "<host " ++ HostFunctions.name h ++ ">"
  | declared name => "<function " ++ name ++ ">"
  | maker m => makerText m
  | unwrap => "<function from_just>"

def displayAll : List (Value Host) → List Text
  | [] => []
  | v :: vs => display v :: displayAll vs

end

end

end Value

inductive Halt where
  | failed (failure : Failure)
  | exhausted
deriving DecidableEq

abbrev Outcome (α : Type) := Except Halt α

namespace Outcome

def fail {α : Type} (e : EvaluationFailure) : Outcome α := .error (.failed (.evaluation e))

def ofExcept {α : Type} : Except Failure α → Outcome α
  | .ok a => .ok a
  | .error e => .error (.failed e)

/-- Puts a text in front of the message of a rejected literal. -/
def mapRejection {α : Type} (front : Text) : Outcome α → Outcome α
  | .error (.failed (.rejected message context)) =>
      .error (.failed (.rejected (front ++ message) context))
  | outcome => outcome

end Outcome
end RefinementTypes
