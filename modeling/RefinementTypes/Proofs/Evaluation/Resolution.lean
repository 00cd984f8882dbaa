import RefinementTypes.Proofs.Evaluation.Linking
import RefinementTypes.Proofs.Evaluation.Refine

/-!
# What names mean

The meaning of a name in the body of a declaration is a local value, a value of the host, a built-in
one, the function of another declaration of the namespace, or that of another declaration by its
qualified name, the first of these that there is. No name means the declaration itself: among linked
declarations it is the only one of its place and the only one of its qualified name.
-/

namespace RefinementTypes

/-- A declaration other than `d` that has the name `x` in the namespace of `d`. -/
structure IsSibling (ds : List Declaration) (d : Declaration) (x : Text) (s : Declaration) :
    Prop where
  mem : s ∈ ds
  ne : s ≠ d
  space : s.space = d.space
  name : s.name = x

/-- A declaration other than `d` that has the qualified name `x`. -/
structure IsStranger (ds : List Declaration) (d : Declaration) (x : Text) (s : Declaration) :
    Prop where
  mem : s ∈ ds
  ne : s ≠ d
  qualifiedName : s.qualifiedName = x

section
variable {Host : Type}

/-- Neither the scope nor the environment has a value of the name. -/
structure IsOpen (e : Environment Host) (scope : Scope Host) (x : Text) : Prop where
  scope : scope.lookup x = none
  bindings : e.bindings.lookup x = none
  builtins : e.builtins.lookup x = none

/-- What the name `x` means in the body of the declaration `d`. -/
inductive Means (e : Environment Host) (ds : List Declaration) (d : Declaration)
    (scope : Scope Host) (x : Text) : Except EvaluationFailure (Value Host) → Prop
  | ofScope {v : Value Host} (h : scope.lookup x = some v) : Means e ds d scope x (.ok v)
  | ofHost {v : Value Host} (hscope : scope.lookup x = none) (h : e.bindings.lookup x = some v) :
      Means e ds d scope x (.ok v)
  | ofBuiltin {v : Value Host} (hscope : scope.lookup x = none)
      (hbindings : e.bindings.lookup x = none) (h : e.builtins.lookup x = some v) :
      Means e ds d scope x (.ok v)
  | ofSibling (hopen : IsOpen e scope x) {s : Declaration} (h : IsSibling ds d x s) :
      Means e ds d scope x (.ok (.declared s.qualifiedName))
  | ofStranger (hopen : IsOpen e scope x) (hsibling : ¬ ∃ s, IsSibling ds d x s) {s : Declaration}
      (h : IsStranger ds d x s) : Means e ds d scope x (.ok (.declared s.qualifiedName))
  | unbound (hopen : IsOpen e scope x) (hsibling : ¬ ∃ s, IsSibling ds d x s)
      (hstranger : ¬ ∃ s, IsStranger ds d x s) : Means e ds d scope x (.error (.unbound x))

end

namespace Program
variable {Host : Type} {p : Program Host} {d s t : Declaration} {scope : Scope Host} {x : Text}

private theorem sibling?_iff_isSibling (hd : d ∈ p.declarations) :
    p.sibling? d x = some s ↔ IsSibling p.declarations d x s := by
  rw [sibling?_eq_some_iff]
  constructor
  · intro ⟨hs, hspace, hname, hne⟩
    refine ⟨hs, ?_, hspace, hname⟩
    intro heq
    exact hne (by rw [← hname, heq])
  · intro h
    refine ⟨h.mem, h.space, h.name, ?_⟩
    -- the only declaration of this place is `d` itself
    intro hname
    apply h.ne
    apply eq_of_qualifiedName_eq p h.mem hd
    rw [Declaration.qualifiedName, Declaration.qualifiedName, h.space, h.name, hname]

private theorem stranger?_iff_isStranger (hd : d ∈ p.declarations) :
    p.stranger? d x = some s ↔ IsStranger p.declarations d x s := by
  rw [stranger?_eq_some_iff]
  constructor
  · intro ⟨hs, hname, hne⟩
    refine ⟨hs, ?_, hname⟩
    intro heq
    exact hne (by rw [← hname, heq])
  · intro h
    refine ⟨h.mem, h.qualifiedName, ?_⟩
    intro hname
    apply h.ne
    apply eq_of_qualifiedName_eq p h.mem hd
    rw [h.qualifiedName, hname]

private theorem sibling?_eq_none_iff (hd : d ∈ p.declarations) :
    p.sibling? d x = none ↔ ¬ ∃ s, IsSibling p.declarations d x s := by
  simp only [Option.eq_none_iff_forall_ne_some, ne_eq, sibling?_iff_isSibling hd, not_exists]

private theorem stranger?_eq_none_iff (hd : d ∈ p.declarations) :
    p.stranger? d x = none ↔ ¬ ∃ s, IsStranger p.declarations d x s := by
  simp only [Option.eq_none_iff_forall_ne_some, ne_eq, stranger?_iff_isStranger hd, not_exists]

private theorem resolve_means (hd : d ∈ p.declarations) (scope : Scope Host) (x : Text) :
    Means p.environment p.declarations d scope x (p.resolve d scope x) := by
  rw [resolve, meaning?]
  cases hscope : scope.lookup x with
  | some v => exact .ofScope hscope
  | none =>
      cases hbindings : p.environment.bindings.lookup x with
      | some v => exact .ofHost hscope hbindings
      | none =>
          cases hbuiltins : p.environment.builtins.lookup x with
          | some v => exact .ofBuiltin hscope hbindings hbuiltins
          | none =>
              have hopen : IsOpen p.environment scope x := ⟨hscope, hbindings, hbuiltins⟩
              cases hsibling : p.sibling? d x with
              | some s => exact .ofSibling hopen ((sibling?_iff_isSibling hd).1 hsibling)
              | none =>
                  have hnone := (sibling?_eq_none_iff hd).1 hsibling
                  cases hstranger : p.stranger? d x with
                  | some s =>
                      exact .ofStranger hopen hnone ((stranger?_iff_isStranger hd).1 hstranger)
                  | none => exact .unbound hopen hnone ((stranger?_eq_none_iff hd).1 hstranger)

private theorem resolve_of_means (hd : d ∈ p.declarations)
    {outcome : Except EvaluationFailure (Value Host)}
    (h : Means p.environment p.declarations d scope x outcome) : p.resolve d scope x = outcome := by
  rw [resolve, meaning?]
  cases h with
  | ofScope h => simp [h]
  | ofHost hscope h => simp [hscope, h]
  | ofBuiltin hscope hbindings h => simp [hscope, hbindings, h]
  | ofSibling hopen h =>
      have hsibling := (sibling?_iff_isSibling hd).2 h
      simp [hopen.scope, hopen.bindings, hopen.builtins, hsibling]
  | ofStranger hopen hnone h =>
      have hsibling := (sibling?_eq_none_iff hd).2 hnone
      have hstranger := (stranger?_iff_isStranger hd).2 h
      simp [hopen.scope, hopen.bindings, hopen.builtins, hsibling, hstranger]
  | unbound hopen hnone hnone' =>
      have hsibling := (sibling?_eq_none_iff hd).2 hnone
      have hstranger := (stranger?_eq_none_iff hd).2 hnone'
      simp [hopen.scope, hopen.bindings, hopen.builtins, hsibling, hstranger]

/-- A name in the body of a linked declaration has the first meaning that there is. Each of the last
two steps has at most one declaration to find, whose function is called by its qualified name, and
neither finds the declaration of the body. -/
theorem resolve_first_meaning {e : Environment Host} {ds : List Declaration}
    (hlink : link e ds = .ok p) (hd : d ∈ ds) (scope : Scope Host) (x : Text) :
    (∀ outcome, p.resolve d scope x = outcome ↔ Means e ds d scope x outcome) ∧
      (∀ s t, IsSibling ds d x s → IsSibling ds d x t → s = t) ∧
      (∀ s t, IsStranger ds d x s → IsStranger ds d x t → s = t) ∧
      ∀ s, p.sibling? d x = some s ∨ p.stranger? d x = some s →
        p.find? s.qualifiedName = some s ∧ s.qualifiedName ≠ d.qualifiedName := by
  obtain ⟨rfl, rfl⟩ := link_eq_ok hlink
  refine ⟨?_, ?_, ?_, ?_⟩
  · intro outcome
    constructor
    · intro h
      subst h
      exact resolve_means hd scope x
    · exact resolve_of_means hd
  · intro s t hs ht
    rw [← sibling?_iff_isSibling hd] at hs ht
    exact Option.some.inj (hs.symm.trans ht)
  · intro s t hs ht
    rw [← stranger?_iff_isStranger hd] at hs ht
    exact Option.some.inj (hs.symm.trans ht)
  · intro s hs
    rw [sibling?_iff_isSibling hd, stranger?_iff_isStranger hd] at hs
    have hother : s ∈ p.declarations ∧ s ≠ d := by
      rcases hs with hs | hs
      · exact ⟨hs.mem, hs.ne⟩
      · exact ⟨hs.mem, hs.ne⟩
    refine ⟨find?_qualifiedName hother.1, ?_⟩
    intro hname
    exact hother.2 (eq_of_qualifiedName_eq p hother.1 hd hname)

/-- A constant at a place. -/
def constantAt (space : Option Text) (name : Text) : Declaration where
  name
  space
  visibility := .exported
  signature := .var "Integer"
  arguments := []
  body := .lit (.int 1)

/-- Declarations with and without namespaces, of names with and without dots. -/
def dottedNames : List Declaration :=
  [constantAt (some "Shop") "price", constantAt none "Shop.tax", constantAt (some "") "price",
   constantAt (some "Shop") "tax.rate"]

theorem resolve_first_meaning_dottedNames :
    ∃ p, link nicknameHost dottedNames = .ok p ∧
      Means nicknameHost dottedNames (constantAt (some "Shop") "price") [] "tax.rate"
        (.ok (.declared "Shop.tax.rate")) ∧
      Means nicknameHost dottedNames (constantAt (some "Shop") "price") [] "Shop.tax"
        (.ok (.declared "Shop.tax")) ∧
      Means nicknameHost dottedNames (constantAt (some "Shop") "price") [] "price"
        (.ok (.declared "price")) ∧
      Means nicknameHost dottedNames (constantAt (some "Shop") "price") [] "Shop.price"
        (.error (.unbound "Shop.price")) := by
  have hlink : link nicknameHost dottedNames = .ok ⟨nicknameHost, dottedNames, by decide⟩ := rfl
  have hd : constantAt (some "Shop") "price" ∈ dottedNames := List.mem_cons_self
  have hmeans (x : Text) := (resolve_first_meaning hlink hd [] x).1
  exact ⟨_, hlink, (hmeans "tax.rate" _).1 rfl, (hmeans "Shop.tax" _).1 rfl,
    (hmeans "price" _).1 rfl, (hmeans "Shop.price" _).1 rfl⟩

end Program
end RefinementTypes
