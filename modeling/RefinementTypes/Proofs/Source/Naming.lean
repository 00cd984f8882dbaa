import RefinementTypes.Term.Basic
import RefinementTypes.Text.Basic

/-!
# Well-named terms

Source text can be read back when its names cannot be taken for anything else. A name is an ASCII
letter with letters, digits, `_`, `'` and `.` behind it, and no word of the language; capitals tell
the constructors of a pattern from its variables.
-/

namespace RefinementTypes

namespace Source

def startsName (p : CodePoint) : Bool := p.char?.any Char.isAlpha

/-- Code points outside ASCII all count as letters. -/
def continuesName (p : CodePoint) : Bool :=
  0x80 ≤ p.toNat || p.char?.any fun c => c.isAlphanum || "_'.".toList.contains c

/-- The words that mean something of their own. -/
def words : List Text := ["case", "of", "auto", "default"]

def isName : Text → Bool
  | [] => false
  | p :: ps => startsName p && ps.all continuesName && !words.contains (p :: ps)

def startsUpper (x : Text) : Bool := x.head?.any fun p => p.char?.any Char.isUpper

def startsLower (x : Text) : Bool := x.head?.any fun p => p.char?.any Char.isLower

theorem isUpper_iff {c : Char} : c.isUpper = true ↔ 65 ≤ c.toNat ∧ c.toNat ≤ 90 := by
  have hdef : c.isUpper = decide (c.val ≥ 'A'.val ∧ c.val ≤ 'Z'.val) := rfl
  rw [hdef, decide_eq_true_eq]
  exact Iff.rfl

theorem isLower_iff {c : Char} : c.isLower = true ↔ 97 ≤ c.toNat ∧ c.toNat ≤ 122 := by
  have hdef : c.isLower = (decide (c.val ≥ 'a'.val) && decide (c.val ≤ 'z'.val)) := rfl
  rw [hdef, Bool.and_eq_true, decide_eq_true_eq, decide_eq_true_eq]
  exact Iff.rfl

theorem isDigit_iff {c : Char} : c.isDigit = true ↔ 48 ≤ c.toNat ∧ c.toNat ≤ 57 := by
  have hdef : c.isDigit = (decide (c.val ≥ '0'.val) && decide (c.val ≤ '9'.val)) := rfl
  rw [hdef, Bool.and_eq_true, decide_eq_true_eq, decide_eq_true_eq]
  exact Iff.rfl

theorem startsUpper_eq_false {x : Text} (h : startsLower x = true) : startsUpper x = false := by
  obtain _ | ⟨p, ps⟩ := x
  · rfl
  cases p with
  | half s => rfl
  | char c =>
      have hlower : c.isLower = true := h
      have hupper : ¬ c.isUpper = true := by
        rw [isLower_iff] at hlower
        rw [isUpper_iff]
        omega
      exact Bool.eq_false_iff.2 hupper

end Source

open Source

inductive Pattern.WellNamed : Pattern → Prop
  | con {name : Text} {args : List Pattern} (hname : isName name = true)
      (hupper : startsUpper name = true) (hargs : ∀ p ∈ args, WellNamed p) :
      WellNamed (.con name args)
  | bind {name : Text} (hname : isName name = true) (hlower : startsLower name = true) :
      WellNamed (.bind name)
  | wild : WellNamed .wild

/-- All names can be read back, all doubles are finite, and no argument is supplied by default. -/
inductive Term.WellNamed : Term → Prop
  | var {name : Text} (hname : isName name = true) : WellNamed (.var name)
  | param (index : Int) : WellNamed (.param index)
  | app {fn arg : Term} {info : Explicitness} (hfn : WellNamed fn) (harg : WellNamed arg)
      (hinfo : info ≠ .defaultImplicit) : WellNamed (.app fn arg info)
  | int (i : Int) : WellNamed (.lit (.int i))
  | float (negative : Bool) (rank : Fin finiteCount) :
      WellNamed (.lit (.float (.finite negative rank)))
  | str (s : Text) : WellNamed (.lit (.str s))
  | hole : WellNamed .hole
  | pi {name : Option Text} {m : Multiplicity} {info : Explicitness} {domain result : Term}
      (hname : ∀ x ∈ name, isName x = true) (hdomain : WellNamed domain)
      (hresult : WellNamed result) : WellNamed (.pi name m info domain result)
  | case {scrutinee : Term} {alternatives : List (Pattern × Term)}
      (hscrutinee : WellNamed scrutinee) (hpatterns : ∀ a ∈ alternatives, a.1.WellNamed)
      (hbodies : ∀ a ∈ alternatives, WellNamed a.2) : WellNamed (.case scrutinee alternatives)

end RefinementTypes
