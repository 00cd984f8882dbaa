import RefinementTypes.Shape.Refinement
import RefinementTypes.Term.Basic
import RefinementTypes.Term.Occurrence
import RefinementTypes.Vocabulary

/-!
# Declarations and the companions of a refinement type

A declaration is a binding at the top level: a name with its signature, and the name applied to
arguments with its body.

`refine` checks a raw value at run time and builds a member of the type from it. A literal
conversion applies `refine` to a converted literal and asks for evidence that the result is there.
Generated binders keep away from every name that the declaration refers to. A strategy names the
literal conversions that a refinement type gets beside `refine`. Floating literals bring integer
literals with them.
-/

namespace RefinementTypes

inductive Visibility where
  | hidden
  | exported
  | publicExported
deriving DecidableEq

instance : Spelled Visibility where
  members := [.hidden, .exported, .publicExported]
  spelling
    | .hidden => "private"
    | .exported => "export"
    | .publicExported => "public export"

structure Declaration where
  name : Text
  space : Option Text
  visibility : Visibility
  signature : Term
  arguments : List Text
  body : Term

/-- The name with the namespace in front; an empty namespace counts as none. -/
def Declaration.qualifiedName (d : Declaration) : Text :=
  match d.space with
  | none => d.name
  | some space => if space = "" then d.name else space ++ "." ++ d.name

namespace Refinement

/-- One erased implicit binder for each parameter of the type. -/
def parameterBinders (r : Refinement) : Except TermFailure (List Binder) :=
  r.descriptor.params.mapM fun p => do
    let type ← p.type.instantiate r.descriptor.paramNames
    return ⟨some p.name, .zero, .implicit, type⟩

/-- The names that a generated binder must not capture. -/
def reservedNames (r : Refinement) (v : Vocabulary) : Except TermFailure (List Text) := do
  let valueType ← r.valueType
  let predicate ← r.predicate
  return r.descriptor.paramNames ++ [r.descriptor.name, r.constructor.name] ++
    valueType.freeNames ++ predicate.freeNames ++ [v.refineName, v.decide]

/-- The binder of the raw value. -/
def rawBinder (v : Vocabulary) (reserved : List Text) : Text := freshName v.rawName reserved

/-- The binder of the evidence that the predicate holds. -/
def witnessBinder (v : Vocabulary) (reserved : List Text) : Text :=
  freshName v.witnessName (rawBinder v reserved :: reserved)

/-- The body of `refine`: asks for a decision and builds the member or gives up. -/
def refineBody (r : Refinement) (v : Vocabulary) (predicate : Term) (raw witness : Text) : Term :=
  let erased := r.shape.pair.erased
  let evidence : Pattern := if erased then .wild else .bind witness
  let slot : Term := if erased then .hole else .var witness
  let built : Term :=
    .app (.app (.var r.constructor.name) (.var raw) .explicit) slot r.shape.pair.proofInfo
  .case ((Term.var v.decide).applyAll [predicate, .var raw] .explicit)
    [(.con v.yes [evidence], .app (.var v.just) built .explicit),
     (.con v.no [.wild], .var v.nothing)]

/-- The checked constructor of a refinement type. -/
def refineDeclaration (r : Refinement) (v : Vocabulary) (visibility : Visibility) :
    Except TermFailure Declaration := do
  let valueType ← r.valueType
  let predicate ← r.predicate
  let reserved ← r.reservedNames v
  let params ← r.parameterBinders
  let raw := rawBinder v reserved
  return {
    name := v.refineName
    space := some r.descriptor.name
    visibility
    signature :=
      Term.piAll (params ++ [⟨some raw, .unrestricted, .explicit, valueType⟩])
        (.app (.var v.maybeType) r.descriptor.appliedType .explicit)
    arguments := [raw]
    body := r.refineBody v predicate raw (witnessBinder v reserved)
  }

/-- The binder of a literal under conversion. -/
def literalBinder (v : Vocabulary) (conversion : Conversion) (reserved : List Text) : Text :=
  freshName v.literalName (reserved ++ [conversion.function, conversion.literalType])

/-- A literal, converted and checked. -/
def refinedLiteral (v : Vocabulary) (conversion : Conversion) (literal : Text) : Term :=
  .app (.var v.refineName) (.app (.var conversion.function) (.var literal) .explicit) .explicit

/-- The conversion of literals of one kind. -/
def literalDeclaration (r : Refinement) (kind : LiteralKind) (v : Vocabulary)
    (visibility : Visibility) : Except TermFailure Declaration := do
  let conversion := v.conversion kind
  let reserved ← r.reservedNames v
  let params ← r.parameterBinders
  let literal := literalBinder v conversion reserved
  let refined := refinedLiteral v conversion literal
  return {
    name := conversion.function
    space := some r.descriptor.name
    visibility
    signature :=
      Term.piAll
        (params ++
          [⟨some literal, .unrestricted, .explicit, .var conversion.literalType⟩,
           ⟨none, .zero, .autoImplicit, .app (.var v.isJust) refined .explicit⟩])
        r.descriptor.appliedType
    arguments := [literal]
    body := .app (.var v.fromJust) refined .explicit
  }

end Refinement

inductive Strategy where
  | plain
  | integerLiterals
  | floatLiterals
  | stringLiterals
deriving DecidableEq

instance : Spelled Strategy where
  members := [.plain, .integerLiterals, .floatLiterals, .stringLiterals]
  spelling
    | .plain => "plain"
    | .integerLiterals => "integer_literals"
    | .floatLiterals => "float_literals"
    | .stringLiterals => "string_literals"

def Strategy.literals : Strategy → List LiteralKind
  | plain => []
  | integerLiterals => [.integer]
  | floatLiterals => [.integer, .float]
  | stringLiterals => [.string]

/-- Why a derivation yields nothing. -/
inductive DerivationFailure where
  | rejected (rejection : Rejection)
  | term (failure : TermFailure)

/-- Takes the failure of a term into a derivation. -/
def DerivationFailure.ofTerm {α : Type} : Except TermFailure α → Except DerivationFailure α
  | .ok a => .ok a
  | .error e => .error (.term e)

/-- The companions of a refinement type: `refine`, and then the conversions of the strategy. -/
def Refinement.companions (r : Refinement) (strategy : Strategy) (v : Vocabulary)
    (visibility : Visibility) : Except TermFailure (List Declaration) := do
  let refine ← r.refineDeclaration v visibility
  let conversions ← strategy.literals.mapM fun kind => r.literalDeclaration kind v visibility
  return refine :: conversions

/-- The companions of the type that a descriptor describes. -/
def derive (strategy : Strategy) (d : TypeDescriptor) (v : Vocabulary) (visibility : Visibility) :
    Except DerivationFailure (List Declaration) :=
  match d.refinement with
  | .error rejection => .error (.rejected rejection)
  | .ok r => DerivationFailure.ofTerm (r.companions strategy v visibility)

end RefinementTypes
