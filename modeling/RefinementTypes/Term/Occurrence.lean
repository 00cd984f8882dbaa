import RefinementTypes.Decimal
import RefinementTypes.Term.Basic

/-!
# Names and parameters in terms

The parameter references of a term, the names it refers to and the names its patterns bind. Each is
a list in reading order with repetitions.

`instantiate` puts the name of each parameter in the place of the references to it. The first
reference that no parameter answers to, in reading order, is reported. A new name that is taken gets
the least positive number behind it that makes it free. There are more candidates than taken names,
so one of them is free.
-/

namespace RefinementTypes

mutual

/-- The names that a pattern binds. -/
def Pattern.binds : Pattern → List Text
  | .con _ args => Pattern.bindsAll args
  | .bind name => [name]
  | .wild => []

def Pattern.bindsAll : List Pattern → List Text
  | [] => []
  | p :: ps => p.binds ++ Pattern.bindsAll ps

end

namespace Term

mutual

/-- The indices of the parameters that a term refers to. -/
def paramRefs : Term → List Int
  | param index => [index]
  | app fn arg _ => fn.paramRefs ++ arg.paramRefs
  | pi _ _ _ domain result => domain.paramRefs ++ result.paramRefs
  | case scrutinee alternatives => scrutinee.paramRefs ++ paramRefsIn alternatives
  | var _ => []
  | lit _ => []
  | hole => []

def paramRefsIn : List (Pattern × Term) → List Int
  | [] => []
  | (_, body) :: rest => body.paramRefs ++ paramRefsIn rest

end

mutual

/-- The names that a term refers to and does not bind itself. -/
def freeNames : Term → List Text
  | var name => [name]
  | app fn arg _ => fn.freeNames ++ arg.freeNames
  | pi name _ _ domain result =>
      domain.freeNames ++ result.freeNames.filter fun x => decide (name ≠ some x)
  | case scrutinee alternatives => scrutinee.freeNames ++ freeNamesIn alternatives
  | param _ => []
  | lit _ => []
  | hole => []

def freeNamesIn : List (Pattern × Term) → List Text
  | [] => []
  | (pattern, body) :: rest =>
      (body.freeNames.filter fun x => decide (x ∉ pattern.binds)) ++ freeNamesIn rest

end

end Term

/-- The name at an index that may be negative or too large. -/
def paramName? (names : List Text) (index : Int) : Option Text :=
  if 0 ≤ index then names[index.toNat]? else none

namespace Term

mutual

def instantiate (names : List Text) : Term → Except TermFailure Term
  | param index =>
      match paramName? names index with
      | some name => .ok (var name)
      | none => .error (.dangling index names.length)
  | app fn arg info => do
      let fn ← fn.instantiate names
      let arg ← arg.instantiate names
      return app fn arg info
  | pi name multiplicity info domain result => do
      let domain ← domain.instantiate names
      let result ← result.instantiate names
      return pi name multiplicity info domain result
  | case scrutinee alternatives => do
      let scrutinee ← scrutinee.instantiate names
      let alternatives ← instantiateIn names alternatives
      return case scrutinee alternatives
  | var name => .ok (var name)
  | lit value => .ok (lit value)
  | hole => .ok hole

def instantiateIn (names : List Text) :
    List (Pattern × Term) → Except TermFailure (List (Pattern × Term))
  | [] => .ok []
  | (pattern, body) :: rest => do
      let body ← body.instantiate names
      let rest ← instantiateIn names rest
      return (pattern, body) :: rest

end

end Term

def numbered (base : Text) (k : Nat) : Text := base ++ Text.ofChars (Decimal.digits k)

/-- The name itself, and then with the numbers from one to `count` behind it. -/
def freshCandidates (base : Text) (count : Nat) : List Text :=
  base :: (List.range count).map fun k => numbered base (k + 1)

def freshName (base : Text) (taken : List Text) : Text :=
  ((freshCandidates base taken.length).find? fun name => decide (name ∉ taken)).getD base

end RefinementTypes
