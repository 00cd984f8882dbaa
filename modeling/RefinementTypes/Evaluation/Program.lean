import RefinementTypes.Declaration.Companion
import RefinementTypes.Evaluation.Value
import RefinementTypes.Vocabulary

/-!
# Programs

Declarations linked with an environment of host functions. A name in a body means a local value, a
value of the host, a built-in function, another declaration of the same namespace, or another
declaration of that qualified name, the first of these that there is; it never means the declaration
itself. The nesting of calls is bounded.

Constructor patterns match decisions and optional values, under the names that a vocabulary gives
them. Of two constructors with one name the later one counts.
-/

namespace RefinementTypes

/-- Names with their values; the first entry of a name counts. -/
abbrev Scope (Host : Type) := List (Text × Value Host)

inductive DataConstructor where
  | yes
  | no
  | just
  | nothing
deriving DecidableEq

def Vocabulary.dataConstructors (v : Vocabulary) : List (Text × DataConstructor) :=
  [(v.nothing, .nothing), (v.just, .just), (v.no, .no), (v.yes, .yes)]

/-- The fields of a value that the constructor built. -/
def DataConstructor.fields? {Host : Type} :
    DataConstructor → Value Host → Option (List (Value Host))
  | yes, .yes witness => some [witness]
  | no, .no contra => some [contra]
  | just, .just value => some [value]
  | nothing, .nothing => some []
  | _, _ => none

section
variable {Host : Type}

mutual

/-- The names that a pattern binds when it matches, or nothing when it does not. A name that is
bound twice has its later value. -/
def Pattern.match? (v : Vocabulary) :
    Pattern → Value Host → Except EvaluationFailure (Option (Scope Host))
  | .bind name, value => .ok (some [(name, value)])
  | .wild, _ => .ok (some [])
  | .con name args, value =>
      match v.dataConstructors.lookup name with
      | none => .error (.unknownConstructor name)
      | some c =>
          match c.fields? value with
          | none => .ok none
          | some fields =>
              if fields.length < args.length then .error (.tooManyArguments name)
              else Pattern.matchAll? v args fields []

/-- Matches patterns with values from left to right, adding to what is bound already. -/
def Pattern.matchAll? (v : Vocabulary) :
    List Pattern → List (Value Host) → Scope Host →
      Except EvaluationFailure (Option (Scope Host))
  | p :: ps, value :: values, bound => do
      match ← Pattern.match? v p value with
      | none => return none
      | some scope => Pattern.matchAll? v ps values (scope ++ bound)
  | _, _, bound => .ok (some bound)

end

end

structure Environment (Host : Type) where
  decide : Host
  bindings : Scope Host
  vocabulary : Vocabulary

/-- The built-in functions and values under their names; of two with one name the later counts. -/
def Environment.builtins {Host : Type} (e : Environment Host) : Scope Host :=
  let v := e.vocabulary
  [(v.fromJust, .unwrap), (v.nothing, .nothing), (v.just, .maker .just), (v.no, .maker .no),
   (v.yes, .maker .yes), (v.decide, .host e.decide)]

/-- Declarations of different qualified names, with the host they run on. -/
structure Program (Host : Type) where
  environment : Environment Host
  declarations : List Declaration
  distinct : (declarations.map Declaration.qualifiedName).Nodup

/-- The first name that is among those seen or comes a second time. -/
def firstRepeated? : List Text → List Text → Option Text
  | _, [] => none
  | seen, name :: names => if name ∈ seen then some name else firstRepeated? (name :: seen) names

private theorem nodup_of_firstRepeated?_eq_none {seen names : List Text}
    (h : firstRepeated? seen names = none) : names.Nodup ∧ ∀ x ∈ names, x ∉ seen := by
  induction names generalizing seen with
  | nil => simp
  | cons name names ih =>
      rw [firstRepeated?] at h
      split at h
      · cases h
      · rename_i hn
        obtain ⟨hd, hs⟩ := ih h
        refine ⟨List.nodup_cons.2 ⟨fun hm => hs _ hm (List.mem_cons_self ..), hd⟩, ?_⟩
        intro x hx
        rcases List.mem_cons.1 hx with rfl | hx
        · exact hn
        · exact fun hm => hs x hx (List.mem_cons_of_mem _ hm)

namespace Program
variable {Host : Type}

/-- Links declarations, unless two of them have one qualified name. -/
def link (e : Environment Host) (ds : List Declaration) :
    Except EvaluationFailure (Program Host) :=
  match h : firstRepeated? [] (ds.map Declaration.qualifiedName) with
  | some name => .error (.duplicate name)
  | none => .ok ⟨e, ds, (nodup_of_firstRepeated?_eq_none h).1⟩

def find? (p : Program Host) (qualifiedName : Text) : Option Declaration :=
  p.declarations.find? fun d => d.qualifiedName == qualifiedName

/-- Another declaration of the namespace with the given bare name. -/
def sibling? (p : Program Host) (d : Declaration) (name : Text) : Option Declaration :=
  if name = d.name then none
  else p.declarations.find? fun s => s.space == d.space && s.name == name

/-- Another declaration with the given qualified name. -/
def stranger? (p : Program Host) (d : Declaration) (name : Text) : Option Declaration :=
  if name = d.qualifiedName then none else p.find? name

/-- What a name means in the body of a declaration, if anything. -/
def meaning? (p : Program Host) (d : Declaration) (scope : Scope Host) (name : Text) :
    Option (Value Host) :=
  (scope.lookup name).or <|
    (p.environment.bindings.lookup name).or <|
      (p.environment.builtins.lookup name).or <|
        ((p.sibling? d name).or (p.stranger? d name)).map fun s => .declared s.qualifiedName

def resolve (p : Program Host) (d : Declaration) (scope : Scope Host) (name : Text) :
    Except EvaluationFailure (Value Host) :=
  match p.meaning? d scope name with
  | some v => .ok v
  | none => .error (.unbound name)

/-- How a function is called. -/
abbrev Caller (Host : Type) := Value Host → List (Value Host) → Outcome (Value Host)

section
variable [HostFunctions Host]

/-- The outcomes of arguments that are yet to be evaluated. -/
abbrev Pending (Host : Type) := List (Unit → Outcome (Value Host))

/-- Evaluates arguments from left to right. -/
def force : Pending Host → Outcome (List (Value Host))
  | [] => .ok []
  | a :: as => do
      let v ← a ()
      let vs ← force as
      return v :: vs

/-- Applies a head to the arguments that wait for it, if there are any. A head that is no function
is refused before its arguments are evaluated. -/
def applyPending (call : Caller Host) (pending : Pending Host) (fn : Value Host) :
    Outcome (Value Host) :=
  match pending with
  | [] => .ok fn
  | a :: as =>
      if fn.isCallable then do
        let args ← force (a :: as)
        call fn args
      else Outcome.fail (.notFunction fn.display)

mutual

/-- The value of a term in the body of a declaration, applied to pending arguments. -/
def evalOnto (p : Program Host) (d : Declaration) (call : Caller Host) (scope : Scope Host)
    (pending : Pending Host) : Term → Outcome (Value Host)
  | .var name => do
      let v ← Outcome.ofExcept ((p.resolve d scope name).mapError .evaluation)
      applyPending call pending v
  | .lit value => applyPending call pending (.ofLiteral value)
  | .hole => applyPending call pending .erased
  | .param _ => Outcome.fail .paramReference
  | .pi _ _ _ _ _ => Outcome.fail .arrowType
  | .app fn arg _ =>
      evalOnto p d call scope ((fun _ => evalOnto p d call scope [] arg) :: pending) fn
  | .case scrutinee alternatives => do
      let value ← evalOnto p d call scope [] scrutinee
      let v ← evalAlternatives p d call scope value alternatives
      applyPending call pending v

/-- The value of the first alternative whose pattern matches. -/
def evalAlternatives (p : Program Host) (d : Declaration) (call : Caller Host)
    (scope : Scope Host) (value : Value Host) :
    List (Pattern × Term) → Outcome (Value Host)
  | [] => Outcome.fail (.noAlternative value.display)
  | (pattern, body) :: rest => do
      match ← Outcome.ofExcept
          ((pattern.match? p.environment.vocabulary value).mapError .evaluation) with
      | some bound => evalOnto p d call (bound ++ scope) [] body
      | none => evalAlternatives p d call scope value rest

end

def eval (p : Program Host) (d : Declaration) (call : Caller Host) (scope : Scope Host)
    (t : Term) : Outcome (Value Host) := p.evalOnto d call scope [] t

/-- The call of a declared function. The literal that its body rejects is named in the message. -/
def enter (p : Program Host) (call : Caller Host) (d : Declaration) (args : List (Value Host)) :
    Outcome (Value Host) :=
  if args.length ≠ d.arguments.length then
    Outcome.fail (.wrongArity d.qualifiedName d.arguments.length args.length)
  else
    Outcome.mapRejection
      (d.qualifiedName ++ "(" ++ Text.join ", " (args.map Value.display) ++ "): ")
      (p.eval d call (d.arguments.zip args).reverse d.body)

/-- Lets a host make its calls. -/
def drive (call : Caller Host) : Step Host → Outcome (Value Host)
  | .done result => Outcome.ofExcept result
  | .call fn args next =>
      match call fn args with
      | .ok v => drive call (next (.ok v))
      | .error (.failed e) => drive call (next (.error e))
      | .error .exhausted => .error .exhausted

def misuse : Outcome (Value Host) := .error (.failed .misuse)

def make : Maker → List (Value Host) → Outcome (Value Host)
  | .yes, [] => .ok (.yes .erased)
  | .yes, [v] => .ok (.yes v)
  | .no, [] => .ok (.no .erased)
  | .no, [v] => .ok (.no v)
  | .just, [v] => .ok (.just v)
  | _, _ => misuse

/-- The value inside an optional value, or the rejection of a literal. -/
def unwrapValue : Value Host → Except Failure (Value Host)
  | .just v => .ok v
  | _ => .error (.rejected "literal does not satisfy the refinement predicate" {})

/-- Calls a function, given how declared functions are entered. At most `hostDepth` calls to the
host are nested in one another. -/
def callWith (p : Program Host) (enter : Declaration → List (Value Host) → Outcome (Value Host)) :
    Nat → Caller Host
  | hostDepth, .host h, args =>
      match hostDepth with
      | 0 => .error .exhausted
      | n + 1 => drive (p.callWith enter n) (HostFunctions.run h args)
  | _, .declared name, args =>
      match p.find? name with
      | some d => enter d args
      | none => misuse
  | _, .maker m, args => make m args
  | _, .unwrap, [v] => Outcome.ofExcept (unwrapValue v)
  | _, _, _ => misuse

/-- The deepest nesting of host calls without a declared function between them. -/
def hostLimit : Nat := 1000

/-- Calls a function, with at most `depth` calls of declared functions nested in one another. -/
def call (p : Program Host) : Nat → Caller Host
  | 0 => p.callWith (fun _ _ => .error .exhausted) hostLimit
  | depth + 1 => p.callWith (p.enter (p.call depth)) hostLimit

/-- The deepest nesting of declared functions that a run allows. -/
def depthLimit : Nat := 1000

/-- Calls a declared function from outside. -/
def run (p : Program Host) (qualifiedName : Text) (args : List (Value Host)) :
    Outcome (Value Host) := p.call depthLimit (.declared qualifiedName) args

end

end Program
end RefinementTypes
