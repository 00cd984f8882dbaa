import RefinementTypes.Shape.Basic
import RefinementTypes.Term.Occurrence

/-!
# Refinement types

A descriptor describes a refinement type when it has one constructor, that constructor has the shape
of a refinement, and no term of it refers to a parameter that the type does not have.
-/

namespace RefinementTypes

section
variable {α : Type} [LT α] [DecidableLT α]

/-- Puts a member into an ascending list, unless it is there. -/
def insertAscending (a : α) : List α → List α
  | [] => [a]
  | b :: bs => if a < b then a :: b :: bs else if b < a then b :: insertAscending a bs else b :: bs

/-- Sorts a list and keeps one copy of each member. -/
def ascending : List α → List α
  | [] => []
  | a :: as => insertAscending a (ascending as)

end

/-- Why a descriptor describes no refinement type. -/
inductive Obstacle where
  | notSingleConstructor (count : Nat)
  | mismatch (mismatch : Mismatch)
  /-- The indices out of range, in ascending order, and the number of parameters. -/
  | danglingParams (indices : List Int) (count : Nat)
deriving DecidableEq

/-- An obstacle with the place where it was met. -/
structure Rejection where
  typeName : Text
  constructorName : Option Text
  location : Option Text
  obstacle : Obstacle
deriving DecidableEq

/-- A descriptor with its only constructor and the shape of that. -/
structure Refinement where
  descriptor : TypeDescriptor
  constructor : Constructor
  shape : Shape

def isDangling (count : Nat) (index : Int) : Bool := !decide (0 ≤ index ∧ index < count)

/-- Every parameter reference of a shape and of the types of the parameters. -/
def referencedParams (d : TypeDescriptor) (s : Shape) : List Int :=
  s.params ++ s.pair.valueType.paramRefs ++ s.pair.predicate.paramRefs ++
    d.params.flatMap fun p => p.type.paramRefs

def danglingParams (d : TypeDescriptor) (s : Shape) : List Int :=
  ascending ((referencedParams d s).filter (isDangling d.params.length))

namespace TypeDescriptor

def reject (d : TypeDescriptor) (constructorName : Option Text) (obstacle : Obstacle) :
    Rejection :=
  ⟨d.name, constructorName, d.location.map Location.text, obstacle⟩

/-- The refinement type that a descriptor describes, or the first obstacle. -/
def refinement (d : TypeDescriptor) : Except Rejection Refinement :=
  match d.constructors with
  | [c] =>
      match classify c.args with
      | .error m => .error (d.reject (some c.name) (.mismatch m))
      | .ok shape =>
          match danglingParams d shape with
          | [] => .ok ⟨d, c, shape⟩
          | indices => .error (d.reject (some c.name) (.danglingParams indices d.params.length))
  | cs => .error (d.reject none (.notSingleConstructor cs.length))

end TypeDescriptor

namespace Refinement

/-- The type of the raw value, with the parameters named. -/
def valueType (r : Refinement) : Except TermFailure Term :=
  r.shape.pair.valueType.instantiate r.descriptor.paramNames

/-- The predicate without the value that it is applied to, with the parameters named. -/
def predicate (r : Refinement) : Except TermFailure Term :=
  r.shape.pair.predicate.instantiate r.descriptor.paramNames

end Refinement
end RefinementTypes
