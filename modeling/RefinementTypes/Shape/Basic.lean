import RefinementTypes.Decimal
import RefinementTypes.Term.Basic
import RefinementTypes.Text.Display

/-!
# Descriptors and the shape of a refinement

The description of a data declaration: its parameters, its constructors with their arguments in
order, and where it was declared.

A constructor has the shape of a refinement when its arguments are any number of parameters, then an
explicit, unrestricted, named value, and last a proof of a predicate applied to that value. The
proof is explicit or auto-implicit, and erased or unrestricted. `classify` finds the shape or the
first thing in the way of it.
-/

namespace RefinementTypes

structure Location where
  file : Text
  line : Int
  column : Int
deriving DecidableEq

def Location.text (l : Location) : Text :=
  l.file ++ ":" ++ Decimal.intText l.line ++ ":" ++ Decimal.intText l.column

structure TypeParameter where
  name : Text
  type : Term

/-- An ordinary argument of a constructor. -/
structure NamedArgument where
  name : Option Text
  multiplicity : Multiplicity
  explicitness : Explicitness
  type : Term

/-- An argument of a constructor; `param` stands for a parameter of the type itself. -/
inductive Argument where
  | param (index : Int)
  | named (argument : NamedArgument)

structure Constructor where
  name : Text
  args : List Argument

structure TypeDescriptor where
  name : Text
  params : List TypeParameter
  constructors : List Constructor
  location : Option Location

namespace TypeDescriptor

def paramNames (d : TypeDescriptor) : List Text := d.params.map TypeParameter.name

/-- The type applied to its own parameters. -/
def appliedType (d : TypeDescriptor) : Term :=
  (Term.var d.name).applyAll (d.paramNames.map .var) .explicit

end TypeDescriptor

/-- A value with the proof of a predicate that is applied to it. -/
structure ValueProof where
  valueName : Text
  valueType : Term
  proofName : Option Text
  proofInfo : Explicitness
  predicate : Term
  erased : Bool

structure Shape where
  /-- The indices of the parameter arguments in front of the pair. -/
  params : List Int
  pair : ValueProof

/-- What keeps an argument list from having the shape. -/
inductive Mismatch where
  | noValue
  | valueNotExplicit (found : Explicitness)
  | valueNotUnrestricted (found : Multiplicity)
  | valueUnnamed
  | noProof (value : Text)
  | paramAfterValue (value : Text)
  | extraArguments (count : Nat)
  | proofNotSupplied (found : Explicitness)
  | proofQuantity (found : Multiplicity)
  | proofNotApplication (value : Text)
  | proofOfOtherArgument (value : Text)
deriving DecidableEq

def Mismatch.reason : Mismatch → Text
  | noValue => "constructor has no value argument"
  | valueNotExplicit found => "value argument must be explicit, got " ++ Spelled.spelling found
  | valueNotUnrestricted found =>
      "value argument must have unrestricted quantity, got " ++ Spelled.spelling found
  | valueUnnamed => "value argument must be named"
  | noProof value => "value argument '" ++ value ++ "' has no proof argument"
  | paramAfterValue value => "parameter argument follows value argument '" ++ value ++ "'"
  | extraArguments count =>
      "expected exactly one proof argument, found " ++ Decimal.intText count ++
        " extra argument(s) after it"
  | proofNotSupplied found =>
      "proof argument must be explicit or auto-implicit, got " ++ Spelled.spelling found
  | proofQuantity found =>
      "proof argument quantity must be zero or unrestricted, got " ++ Spelled.spelling found
  | proofNotApplication value =>
      "proof argument type must be a predicate applied to '" ++ value ++ "'"
  | proofOfOtherArgument value =>
      "proof argument must apply its predicate to '" ++ value ++ "'"

/-- The name of an argument that can be the value. -/
def valueName (value : NamedArgument) : Except Mismatch Text :=
  if value.explicitness ≠ .explicit then .error (.valueNotExplicit value.explicitness)
  else if value.multiplicity ≠ .unrestricted then
    .error (.valueNotUnrestricted value.multiplicity)
  else match value.name with
    | none => .error .valueUnnamed
    | some name => if name = "" then .error .valueUnnamed else .ok name

/-- The predicate that a proof argument applies to the value of the given name. -/
def predicateOf (proof : NamedArgument) (value : Text) : Except Mismatch Term :=
  if proof.explicitness ≠ .explicit ∧ proof.explicitness ≠ .autoImplicit then
    .error (.proofNotSupplied proof.explicitness)
  else if proof.multiplicity = .linear then .error (.proofQuantity proof.multiplicity)
  else match proof.type with
    | .app predicate (.var name) .explicit =>
        if name = value then .ok predicate else .error (.proofOfOtherArgument value)
    | .app _ _ .explicit => .error (.proofOfOtherArgument value)
    | _ => .error (.proofNotApplication value)

/-- The pair that a value makes with the arguments after it. -/
def classifyPair (value : NamedArgument) (rest : List Argument) : Except Mismatch ValueProof := do
  let name ← valueName value
  match rest with
  | [] => .error (.noProof name)
  | .param _ :: _ => .error (.paramAfterValue name)
  | [.named proof] =>
      let predicate ← predicateOf proof name
      return {
        valueName := name
        valueType := value.type
        proofName := proof.name
        proofInfo := proof.explicitness
        predicate
        erased := decide (proof.multiplicity = .zero)
      }
  | .named _ :: extra => .error (.extraArguments extra.length)

def classify : List Argument → Except Mismatch Shape
  | [] => .error .noValue
  | .param index :: rest => do
      let shape ← classify rest
      return { shape with params := index :: shape.params }
  | .named value :: rest => do
      let pair ← classifyPair value rest
      return ⟨[], pair⟩

end RefinementTypes
