import RefinementTypes.Evaluation.Program

/-!
# A host of sample functions

Enough functions to run derived declarations: record constructors, constants, the predicates of
closed intervals and of non-empty texts and lists, the conversion to doubles, functions that fail,
and two decision procedures.
-/

namespace RefinementTypes

inductive SampleHost where
  /-- Builds a record, of the given number of arguments if one is given. -/
  | con (name : Text) (arity : Option Int)
  | const (value : Value SampleHost)
  | identity
  | fromTo
  | between (low high : Value SampleHost)
  | nonEmpty
  | toFloat
  | fail (message : Text)
  | reject (message : Text) (typeName : Option Text)
  /-- Decides by applying the predicate to the value. -/
  | decideByApplying
  | decideAlways (value : Value SampleHost)

namespace SampleHost

def name : SampleHost → Text
  | con name _ => name
  | const _ => "const"
  | identity => "id"
  | fromTo => "from_to"
  | between _ _ => "between"
  | nonEmpty => "non_empty"
  | toFloat => "to_float"
  | fail _ => "fail"
  | reject _ _ => "reject"
  | decideByApplying => "decide"
  | decideAlways _ => "decide"

/-- Integers and doubles as points of the number line; the double that is no number has none. -/
def linePoint? : Value SampleHost → Option (Option LinePoint)
  | .int i => some (some (LinePoint.ofInt i))
  | .float x => some x.linePoint?
  | _ => none

/-- Comparison with what is no number is false. -/
def isLe : Option LinePoint → Option LinePoint → Bool
  | some a, some b => a.le b
  | _, _ => false

def isBetween (low high x : Value SampleHost) : Except Failure (Value SampleHost) :=
  match linePoint? low, linePoint? high, linePoint? x with
  | some low, some high, some x => .ok (.bool (isLe low x && isLe x high))
  | _, _, _ => .error (.host "from_to expects numbers")

def isNonEmpty : Value SampleHost → Except Failure (Value SampleHost)
  | .str s => .ok (.bool (!s.isEmpty))
  | .list items => .ok (.bool (!items.isEmpty))
  | _ => .error (.host "non_empty expects a string or a list")

def asFloat : Value SampleHost → Except Failure (Value SampleHost)
  | .int i => .ok (.float (Binary64.ofInt i))
  | .float x => .ok (.float x)
  | _ => .error (.host "to_float expects a number")

/-- The decision about a value from the answer of the predicate. -/
def decision (value : Value SampleHost) : Value SampleHost → Value SampleHost
  | .bool true => .yes (.record "evidence" [value])
  | _ => .no .erased

def wrongCount (h : SampleHost) (expected : Int) (found : Nat) : Step SampleHost :=
  .done (.error (.host (h.name ++ " takes " ++ Decimal.intText expected ++ " argument(s), got " ++
    Decimal.intText found)))

def run (h : SampleHost) (args : List (Value SampleHost)) : Step SampleHost :=
  match h, args with
  | con name none, args => .done (.ok (.record name args))
  | con name (some n), args =>
      if n = args.length then .done (.ok (.record name args)) else wrongCount h n args.length
  | const value, _ => .done (.ok value)
  | fail message, _ => .done (.error (.host message))
  | reject message typeName, _ => .done (.error (.rejected message { typeName }))
  | identity, [v] => .done (.ok v)
  | fromTo, [low, high] => .done (.ok (.host (between low high)))
  | between low high, [x] => .done (isBetween low high x)
  | nonEmpty, [v] => .done (isNonEmpty v)
  | toFloat, [v] => .done (asFloat v)
  | decideByApplying, [predicate, value] =>
      if predicate.isCallable then
        .call predicate [value] fun result => .done (result.map (decision value))
      else .done (.error (.host "predicate is not a function"))
  | decideAlways value, [_, _] => .done (.ok value)
  | fromTo, args | decideByApplying, args | decideAlways _, args => wrongCount h 2 args.length
  | identity, args | between _ _, args | nonEmpty, args | toFloat, args =>
      wrongCount h 1 args.length

instance : HostFunctions SampleHost := ⟨name, run⟩

end SampleHost
end RefinementTypes
