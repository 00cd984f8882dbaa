import RefinementTypes.Proofs.Source.Naming
import RefinementTypes.Proofs.Source.Token
import RefinementTypes.Term.Basic

/-!
# Reading tokens back

A machine with a stack of what is still open and the function applied so far. It never looks ahead:
what a round or curly bracket opened turns out at the colon, the arrow or the bracket that closes
it. The tokens of a well-named term leave the machine with that term.
-/

namespace RefinementTypes

namespace Pattern

mutual

def asTerm : Pattern → Term
  | .con name args => Term.applyAll (.var name) (asTerms args) .explicit
  | .bind name => .var name
  | .wild => .hole

def asTerms : List Pattern → List Term
  | [] => []
  | p :: ps => p.asTerm :: asTerms ps

end

def ofTerm? : Term → Option Pattern
  | .var name => some (if Source.startsUpper name then .con name [] else .bind name)
  | .hole => some .wild
  | .app fn arg .explicit =>
      match ofTerm? fn, ofTerm? arg with
      | some (.con name args), some p => some (.con name (args ++ [p]))
      | _, _ => none
  | _ => none

end Pattern

namespace Source.Reader

/-- What was read since the innermost thing that is open. -/
inductive Focus where
  | empty
  | term (t : Term)
  /-- A binder before its arrow. -/
  | binder (name : Option Text) (m : Multiplicity) (info : Explicitness) (domain : Term)
  /-- A case before its curly bracket. -/
  | branching (scrutinee : Term)

/-- What is open, with what was read before it. -/
inductive Frame where
  | group (before : Focus)
  | curly (before : Focus) (info : Explicitness)
  /-- A binder before its type. -/
  | typed (name : Option Text) (m : Multiplicity) (info : Explicitness)
  /-- An arrow before its result. -/
  | arrow (name : Option Text) (m : Multiplicity) (info : Explicitness) (domain : Term)
  | scrutinee
  | pattern (scrutinee : Term) (done : List (Pattern × Term))
  | body (scrutinee : Term) (done : List (Pattern × Term)) (p : Pattern)

structure State where
  frames : List Frame
  focus : Focus

/-- A term behind another one is its next argument. -/
def supply : Focus → Term → Term
  | .term fn, t => .app fn t .explicit
  | _, t => t

/-- Ends the arrows whose result is complete. -/
def settle : List Frame → Term → List Frame × Term
  | .arrow name m info domain :: frames, t => settle frames (.pi name m info domain t)
  | frames, t => (frames, t)

def binderName? : Term → Option (Option Text)
  | .var x => some (some x)
  | .hole => some none
  | _ => none

/-- What stands in front of the colon of a binder. -/
def binderHead? : Term → Option (Option Text × Multiplicity)
  | .app (.lit (.int 0)) t .explicit => (binderName? t).map fun x => (x, .zero)
  | .app (.lit (.int 1)) t .explicit => (binderName? t).map fun x => (x, .linear)
  | t => (binderName? t).map fun x => (x, .unrestricted)

/-- A token behind a complete term, by the innermost thing that is open. -/
def close : Token → List Frame × Term → Option State
  | .closing, (.group before :: frames, t) => some ⟨frames, .term (supply before t)⟩
  | .closing, (.typed name m info :: frames, t) => some ⟨frames, .binder name m info t⟩
  | .curlyClosing, (.curly (.term fn) info :: frames, t) => some ⟨frames, .term (.app fn t info)⟩
  | .curlyClosing, (.typed name m info :: frames, t) => some ⟨frames, .binder name m info t⟩
  | .curlyClosing, (.body scrutinee done p :: frames, t) =>
      some ⟨frames, .term (.case scrutinee (done ++ [(p, t)]))⟩
  | .of, (.scrutinee :: frames, t) => some ⟨frames, .branching t⟩
  | .semicolon, (.body scrutinee done p :: frames, t) =>
      some ⟨.pattern scrutinee (done ++ [(p, t)]) :: frames, .empty⟩
  | _, _ => none

def step : Token → State → Option State
  | .atom t, ⟨frames, before⟩ => some ⟨frames, .term (supply before t)⟩
  | .opening, ⟨frames, before⟩ => some ⟨.group before :: frames, .empty⟩
  | .curlyOpening, ⟨frames, .branching s⟩ => some ⟨.pattern s [] :: frames, .empty⟩
  | .curlyOpening, ⟨frames, before⟩ => some ⟨.curly before .implicit :: frames, .empty⟩
  | .autoOpening, ⟨frames, before⟩ => some ⟨.curly before .autoImplicit :: frames, .empty⟩
  | .auto, ⟨.curly .empty .implicit :: frames, .empty⟩ =>
      some ⟨.curly .empty .autoImplicit :: frames, .empty⟩
  | .default, ⟨.curly .empty .implicit :: frames, .empty⟩ =>
      some ⟨.curly .empty .defaultImplicit :: frames, .empty⟩
  | .colon, ⟨.group .empty :: frames, .term t⟩ =>
      (binderHead? t).map fun (name, m) => ⟨.typed name m .explicit :: frames, .empty⟩
  | .colon, ⟨.curly .empty info :: frames, .term t⟩ =>
      (binderHead? t).map fun (name, m) => ⟨.typed name m info :: frames, .empty⟩
  | .arrow, ⟨frames, .binder name m info domain⟩ =>
      some ⟨.arrow name m info domain :: frames, .empty⟩
  | .arrow, ⟨frames, .term t⟩ => some ⟨.arrow none .unrestricted .explicit t :: frames, .empty⟩
  | .doubleArrow, ⟨.pattern scrutinee done :: frames, .term t⟩ =>
      (Pattern.ofTerm? t).map fun p => ⟨.body scrutinee done p :: frames, .empty⟩
  | .case, ⟨frames, .empty⟩ => some ⟨.scrutinee :: frames, .empty⟩
  | .curlyClosing, ⟨.pattern scrutinee done :: frames, .empty⟩ =>
      some ⟨frames, .term (.case scrutinee done)⟩
  | token, ⟨frames, .term t⟩ => close token (settle frames t)
  | _, _ => none

def run : List Token → State → Option State
  | [], s => some s
  | token :: tokens, s => (step token s).bind (run tokens)

def read? (tokens : List Token) : Option Term :=
  match run tokens ⟨[], .empty⟩ with
  | some ⟨frames, .term t⟩ =>
      match settle frames t with
      | ([], t) => some t
      | _ => none
  | _ => none

theorem run_append (first second : List Token) (s : State) :
    run (first ++ second) s = (run first s).bind (run second) := by
  induction first generalizing s with
  | nil => rfl
  | cons token tokens ih =>
      simp only [List.cons_append, run]
      cases step token s with
      | none => rfl
      | some s => exact ih s

end Source.Reader
end RefinementTypes
