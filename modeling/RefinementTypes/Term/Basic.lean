import RefinementTypes.Binary64.Basic
import RefinementTypes.Text.Basic

/-!
# Terms

The language in which data types are described and declarations are written. A term refers to a
parameter of the data type under description by its index (`param`), and to everything else by
name. Application takes one argument at a time. Patterns hold lists of patterns and cases hold lists
of alternatives; the principles of induction give the hypothesis for every member of such a list.
-/

namespace RefinementTypes

/-- How often a bound value may be used at run time. -/
inductive Multiplicity where
  | zero
  | linear
  | unrestricted
deriving DecidableEq

instance : Spelled Multiplicity where
  members := [.zero, .linear, .unrestricted]
  spelling
    | .zero => "zero"
    | .linear => "linear"
    | .unrestricted => "unrestricted"

/-- How an argument is supplied where a function is applied. -/
inductive Explicitness where
  | explicit
  | implicit
  | autoImplicit
  | defaultImplicit
deriving DecidableEq

instance : Spelled Explicitness where
  members := [.explicit, .implicit, .autoImplicit, .defaultImplicit]
  spelling
    | .explicit => "explicit"
    | .implicit => "implicit"
    | .autoImplicit => "auto_implicit"
    | .defaultImplicit => "default_implicit"

inductive Literal where
  | int (i : Int)
  | float (x : Binary64)
  | str (s : Text)
deriving DecidableEq

inductive Pattern where
  | con (name : Text) (args : List Pattern)
  | bind (name : Text)
  | wild

inductive Term where
  | var (name : Text)
  | param (index : Int)
  | app (fn arg : Term) (info : Explicitness)
  | lit (value : Literal)
  | hole
  | pi (name : Option Text) (multiplicity : Multiplicity) (info : Explicitness)
      (domain result : Term)
  | case (scrutinee : Term) (alternatives : List (Pattern × Term))

/-- A binder in front of an arrow. -/
structure Binder where
  name : Option Text
  multiplicity : Multiplicity
  info : Explicitness
  domain : Term

namespace Term

instance : Inhabited Term := ⟨hole⟩

/-- A function applied to arguments that are all supplied in the same way. -/
def applyAll (fn : Term) (args : List Term) (info : Explicitness) : Term :=
  args.foldl (fun f a => app f a info) fn

theorem applyAll_cons (fn arg : Term) (args : List Term) (info : Explicitness) :
    fn.applyAll (arg :: args) info = (app fn arg info).applyAll args info := rfl

theorem applyAll_append_singleton (fn arg : Term) (args : List Term) (info : Explicitness) :
    fn.applyAll (args ++ [arg]) info = app (fn.applyAll args info) arg info :=
  List.foldl_append

/-- A function applied to arguments, each supplied in its own way. -/
def applySpine (fn : Term) (args : List (Term × Explicitness)) : Term :=
  args.foldl (fun f a => app f a.1 a.2) fn

/-- The arrow type with the given binders in front of its result. -/
def piAll (binders : List Binder) (result : Term) : Term :=
  binders.foldr (fun b t => pi b.name b.multiplicity b.info b.domain t) result

theorem piAll_cons (b : Binder) (binders : List Binder) (result : Term) :
    piAll (b :: binders) result =
      pi b.name b.multiplicity b.info b.domain (piAll binders result) := rfl

/-- The head of an application and the arguments in front of those already found. -/
def spineOnto : Term → List (Term × Explicitness) → Term × List (Term × Explicitness)
  | app f a info, args => spineOnto f ((a, info) :: args)
  | head, args => (head, args)

/-- The head of an application and its arguments in the order in which they are written. -/
def spine (t : Term) : Term × List (Term × Explicitness) := spineOnto t []

end Term

/-- Why a term has no use where it stands. -/
inductive TermFailure where
  /-- A reference to a parameter that a type with `count` parameters does not have. -/
  | dangling (index : Int) (count : Nat)
  /-- A literal for which there is no source text. -/
  | unwritable (value : Binary64)
deriving DecidableEq

@[elab_as_elim]
theorem Pattern.inductionOn {motive : Pattern → Prop}
    (con : ∀ name args, (∀ p ∈ args, motive p) → motive (.con name args))
    (bind : ∀ name, motive (.bind name)) (wild : motive .wild) (p : Pattern) : motive p := by
  refine Pattern.rec (motive_1 := motive) (motive_2 := fun ps => ∀ p ∈ ps, motive p) con bind wild
    ?_ ?_ p
  · intro p hp
    cases hp
  · intro p ps hp hps q hq
    rcases List.mem_cons.1 hq with rfl | hq
    · exact hp
    · exact hps q hq

@[elab_as_elim]
theorem Term.inductionOn {motive : Term → Prop} (var : ∀ name, motive (.var name))
    (param : ∀ index, motive (.param index))
    (app : ∀ fn arg info, motive fn → motive arg → motive (.app fn arg info))
    (lit : ∀ value, motive (.lit value)) (hole : motive .hole)
    (pi : ∀ name m info domain result, motive domain → motive result →
      motive (.pi name m info domain result))
    (case : ∀ scrutinee alternatives, motive scrutinee → (∀ a ∈ alternatives, motive a.2) →
      motive (.case scrutinee alternatives)) (t : Term) : motive t := by
  refine Term.rec (motive_1 := motive) (motive_2 := fun alts => ∀ a ∈ alts, motive a.2)
    (motive_3 := fun a => motive a.2) var param app lit hole pi case ?_ ?_ ?_ t
  · intro a ha
    cases ha
  · intro a alts ha halts b hb
    rcases List.mem_cons.1 hb with rfl | hb
    · exact ha
    · exact halts b hb
  · intro _ _ hbody
    exact hbody

end RefinementTypes
