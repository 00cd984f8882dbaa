import Mathlib.Data.List.Nodup
import RefinementTypes.Proofs.Application
import RefinementTypes.Proofs.Evaluation.Scope

/-!
# Names and calls in a linked program

What the names of a body mean, table by table, and what a call does, one law for each kind of
function.
-/

namespace RefinementTypes

/-- The names under which the built-in functions and values are known. -/
def Vocabulary.runtimeNames (v : Vocabulary) : List Text :=
  [v.decide, v.yes, v.no, v.just, v.nothing, v.fromJust]

private theorem lookup_eq_some_of_mem {α : Type} {entries : List (Text × α)} {x : Text} {a : α}
    (h : (entries.map Prod.fst).Nodup) (hx : (x, a) ∈ entries) : entries.lookup x = some a := by
  induction entries with
  | nil => cases hx
  | cons entry entries ih =>
      rw [List.map_cons, List.nodup_cons] at h
      rcases List.mem_cons.1 hx with rfl | hx
      · exact List.lookup_cons_self
      · have hne : x ≠ entry.1 := by
          rintro rfl
          exact h.1 (List.mem_map.2 ⟨_, hx, rfl⟩)
        rw [lookup_cons_of_ne hne]
        exact ih h.2 hx

theorem lookup_eq_none_of_not_mem {α : Type} {entries : List (Text × α)} {x : Text}
    (h : x ∉ entries.map Prod.fst) : entries.lookup x = none := by
  rw [List.lookup_eq_none_iff]
  intro entry hentry
  rw [bne_iff_ne]
  rintro rfl
  exact h (List.mem_map_of_mem hentry)

namespace Vocabulary
variable {v : Vocabulary}

private theorem dataConstructors_nodup (h : v.runtimeNames.Nodup) :
    (v.dataConstructors.map Prod.fst).Nodup := by
  have hsub : (v.dataConstructors.map Prod.fst).Sublist v.runtimeNames.reverse := by
    simp [dataConstructors, runtimeNames]
  exact hsub.nodup (List.nodup_reverse.2 h)

theorem dataConstructors_yes (h : v.runtimeNames.Nodup) :
    v.dataConstructors.lookup v.yes = some .yes :=
  lookup_eq_some_of_mem (dataConstructors_nodup h) (by simp [dataConstructors])

theorem dataConstructors_no (h : v.runtimeNames.Nodup) :
    v.dataConstructors.lookup v.no = some .no :=
  lookup_eq_some_of_mem (dataConstructors_nodup h) (by simp [dataConstructors])

end Vocabulary

namespace Environment
variable {Host : Type} {e : Environment Host}

private theorem builtins_names (e : Environment Host) :
    e.builtins.map Prod.fst = e.vocabulary.runtimeNames.reverse := rfl

private theorem builtins_eq_some {x : Text} {value : Value Host}
    (h : e.vocabulary.runtimeNames.Nodup)
    (hx : (x, value) ∈ e.builtins) : e.builtins.lookup x = some value :=
  lookup_eq_some_of_mem (by rwa [builtins_names, List.nodup_reverse]) hx

theorem builtins_eq_none {x : Text} (h : x ∉ e.vocabulary.runtimeNames) :
    e.builtins.lookup x = none :=
  lookup_eq_none_of_not_mem (by rwa [builtins_names, List.mem_reverse])

theorem builtins_ne_none {x : Text} (h : x ∈ e.vocabulary.runtimeNames) :
    e.builtins.lookup x ≠ none := by
  rw [← List.mem_reverse, ← builtins_names] at h
  obtain ⟨entry, hentry, rfl⟩ := List.mem_map.1 h
  intro hnone
  simpa using List.lookup_eq_none_iff.1 hnone entry hentry

end Environment

namespace Program
variable {Host : Type}

theorem link_eq_ok {e : Environment Host} {ds : List Declaration} {p : Program Host}
    (h : link e ds = .ok p) : p.environment = e ∧ p.declarations = ds := by
  rw [link] at h
  split at h
  · cases h
  · cases h
    exact ⟨rfl, rfl⟩

/-- The name that comes a second time, with the names in front of it. -/
theorem firstRepeated?_eq_some {seen names : List Text} {x : Text}
    (h : firstRepeated? seen names = some x) :
    ∃ before after, names = before ++ x :: after ∧ before.Nodup ∧ (∀ y ∈ before, y ∉ seen) ∧
      (x ∈ seen ∨ x ∈ before) := by
  induction names generalizing seen with
  | nil => cases h
  | cons name names ih =>
      rw [firstRepeated?] at h
      split at h
      · rename_i hseen
        cases h
        exact ⟨[], names, rfl, List.nodup_nil, by simp, Or.inl hseen⟩
      · rename_i hnew
        obtain ⟨before, after, rfl, hnodup, hbefore, hx⟩ := ih h
        refine ⟨name :: before, after, rfl, ?_, ?_, ?_⟩
        · exact List.nodup_cons.2 ⟨fun hm => hbefore name hm (List.mem_cons_self ..), hnodup⟩
        · rintro y (_ | ⟨_, hy⟩)
          · exact hnew
          · exact fun hm => hbefore y hy (List.mem_cons_of_mem _ hm)
        · rcases hx with hx | hx
          · rcases List.mem_cons.1 hx with rfl | hx
            · exact Or.inr (List.mem_cons_self ..)
            · exact Or.inl hx
          · exact Or.inr (List.mem_cons_of_mem _ hx)

theorem link_isOk {e : Environment Host} {ds : List Declaration}
    (h : (ds.map Declaration.qualifiedName).Nodup) : ∃ p, link e ds = .ok p := by
  rw [link]
  split
  · rename_i name hname
    obtain ⟨before, after, heq, -, -, hx⟩ := firstRepeated?_eq_some hname
    rw [heq, List.nodup_append] at h
    rcases hx with hx | hx
    · cases hx
    · exact absurd rfl (h.2.2 name hx name (List.mem_cons_self ..))
  · exact ⟨_, rfl⟩

/-- Declarations that do not link are refused for the first of them whose qualified name was there
before. -/
theorem link_eq_error {e : Environment Host} {ds : List Declaration} {failure : EvaluationFailure}
    (h : link e ds = .error failure) :
    ∃ before d after, ds = before ++ d :: after ∧
      (before.map Declaration.qualifiedName).Nodup ∧
      d.qualifiedName ∈ before.map Declaration.qualifiedName ∧
      failure = .duplicate d.qualifiedName := by
  rw [link] at h
  split at h
  · rename_i name hname
    cases h
    obtain ⟨before, after, heq, hnodup, -, hx⟩ := firstRepeated?_eq_some hname
    obtain ⟨bs, rest, rfl, rfl, hrest⟩ := List.map_eq_append_iff.1 heq
    obtain ⟨d, as, rfl, rfl, rfl⟩ := List.map_eq_cons_iff.1 hrest
    exact ⟨bs, d, as, rfl, hnodup, hx.resolve_left List.not_mem_nil, rfl⟩
  · cases h

variable {p : Program Host} {d s : Declaration}

private theorem find?_eq_some_of_unique {α : Type} {q : α → Bool} {xs : List α} {a : α}
    (ha : a ∈ xs) (hq : q a = true) (h : ∀ b ∈ xs, q b = true → b = a) : xs.find? q = some a := by
  cases hf : xs.find? q with
  | none => exact absurd hq (List.find?_eq_none.1 hf a ha)
  | some b => rw [h b (List.mem_of_find?_eq_some hf) (List.find?_some hf)]

theorem eq_of_qualifiedName_eq (p : Program Host) (hd : d ∈ p.declarations)
    (hs : s ∈ p.declarations) (h : d.qualifiedName = s.qualifiedName) : d = s :=
  List.inj_on_of_nodup_map p.distinct hd hs h

theorem find?_qualifiedName (hd : d ∈ p.declarations) : p.find? d.qualifiedName = some d := by
  refine find?_eq_some_of_unique hd (beq_self_eq_true _) fun s hs h => ?_
  exact eq_of_qualifiedName_eq p hs hd (eq_of_beq h)

theorem sibling?_name (hs : s ∈ p.declarations) (hspace : s.space = d.space)
    (hname : s.name ≠ d.name) : p.sibling? d s.name = some s := by
  rw [sibling?, if_neg hname]
  refine find?_eq_some_of_unique hs (by simp [hspace]) fun t ht h => ?_
  simp only [Bool.and_eq_true, beq_iff_eq] at h
  apply eq_of_qualifiedName_eq p ht hs
  rw [Declaration.qualifiedName, Declaration.qualifiedName, h.1, h.2, hspace]

theorem find?_eq_some_iff {x : Text} :
    p.find? x = some s ↔ s ∈ p.declarations ∧ s.qualifiedName = x := by
  constructor
  · intro h
    have hfound := List.find?_some h
    exact ⟨List.mem_of_find?_eq_some h, eq_of_beq hfound⟩
  · rintro ⟨hs, rfl⟩
    exact find?_qualifiedName hs

theorem sibling?_eq_some_iff {x : Text} :
    p.sibling? d x = some s ↔
      s ∈ p.declarations ∧ s.space = d.space ∧ s.name = x ∧ x ≠ d.name := by
  constructor
  · intro h
    rw [sibling?] at h
    split at h
    · cases h
    · rename_i hne
      have hfound := List.find?_some h
      simp only [Bool.and_eq_true, beq_iff_eq] at hfound
      exact ⟨List.mem_of_find?_eq_some h, hfound.1, hfound.2, hne⟩
  · rintro ⟨hs, hspace, rfl, hne⟩
    exact sibling?_name hs hspace hne

/-- A program declares a qualified name. -/
def Declares (p : Program Host) (x : Text) : Prop := ∃ d ∈ p.declarations, d.qualifiedName = x

theorem stranger?_eq_some_iff {x : Text} :
    p.stranger? d x = some s ↔
      s ∈ p.declarations ∧ s.qualifiedName = x ∧ x ≠ d.qualifiedName := by
  rw [stranger?]
  split
  · rename_i heq
    simp [heq]
  · rename_i hne
    rw [find?_eq_some_iff, and_iff_left hne]

variable {scope : Scope Host} {x : Text} {value : Value Host}

theorem resolve_local (h : scope.lookup x = some value) : p.resolve d scope x = .ok value := by
  rw [resolve, meaning?, h, Option.some_or]

theorem resolve_binding (hscope : scope.lookup x = none)
    (h : p.environment.bindings.lookup x = some value) : p.resolve d scope x = .ok value := by
  rw [resolve, meaning?, hscope, h, Option.none_or, Option.some_or]

private theorem resolve_builtin (hscope : scope.lookup x = none)
    (hbinding : p.environment.bindings.lookup x = none)
    (h : p.environment.builtins.lookup x = some value) : p.resolve d scope x = .ok value := by
  rw [resolve, meaning?, hscope, hbinding, h, Option.none_or, Option.none_or, Option.some_or]

/-- A built-in name that is bound neither locally nor by the host has its built-in meaning. -/
theorem resolve_runtimeName (hv : p.environment.vocabulary.runtimeNames.Nodup)
    (hunbound : ∀ x ∈ p.environment.vocabulary.runtimeNames,
      p.environment.bindings.lookup x = none)
    (hscope : scope.lookup x = none) (hx : (x, value) ∈ p.environment.builtins) :
    p.resolve d scope x = .ok value := by
  have hname : x ∈ p.environment.builtins.map Prod.fst := List.mem_map.2 ⟨_, hx, rfl⟩
  rw [Environment.builtins_names, List.mem_reverse] at hname
  exact resolve_builtin hscope (hunbound x hname) (Environment.builtins_eq_some hv hx)

theorem resolve_sibling (hscope : scope.lookup x = none)
    (hbinding : p.environment.bindings.lookup x = none)
    (hbuiltin : p.environment.builtins.lookup x = none) (h : p.sibling? d x = some s) :
    p.resolve d scope x = .ok (.declared s.qualifiedName) := by
  rw [resolve, meaning?, hscope, hbinding, hbuiltin, h]
  rfl

theorem resolve_of_lookup_eq_none (hscope : scope.lookup x = none) :
    p.resolve d scope x = p.resolve d [] x := by
  rw [resolve, resolve, meaning?, meaning?, hscope]
  rfl

theorem resolve_eq_ok_iff :
    p.resolve d scope x = .ok value ↔ p.meaning? d scope x = some value := by
  rw [resolve]
  cases p.meaning? d scope x with
  | none => simp
  | some v => simp

theorem resolve_eq_error {e : EvaluationFailure} (h : p.resolve d scope x = .error e) :
    e = .unbound x := by
  rw [resolve] at h
  split at h <;> cases h
  rfl

/-- Where a name that is not local gets its meaning from. -/
inductive Meaning (p : Program Host) (d : Declaration) (x : Text) : Value Host → Prop
  | binding {v : Value Host} (h : p.environment.bindings.lookup x = some v) : Meaning p d x v
  | builtin {v : Value Host} (hbinding : p.environment.bindings.lookup x = none)
      (h : p.environment.builtins.lookup x = some v) : Meaning p d x v
  | sibling {s : Declaration} (hbinding : p.environment.bindings.lookup x = none)
      (hbuiltin : p.environment.builtins.lookup x = none) (h : p.sibling? d x = some s) :
      Meaning p d x (.declared s.qualifiedName)
  | stranger {s : Declaration} (hbinding : p.environment.bindings.lookup x = none)
      (hbuiltin : p.environment.builtins.lookup x = none) (h : p.stranger? d x = some s) :
      Meaning p d x (.declared s.qualifiedName)

theorem meaning_of_resolve (h : p.resolve d [] x = .ok value) : Meaning p d x value := by
  rw [resolve, meaning?, List.lookup_nil, Option.none_or] at h
  cases hbinding : p.environment.bindings.lookup x with
  | some v =>
      rw [hbinding] at h
      cases h
      exact .binding hbinding
  | none =>
      cases hbuiltin : p.environment.builtins.lookup x with
      | some v =>
          rw [hbinding, hbuiltin] at h
          cases h
          exact .builtin hbinding hbuiltin
      | none =>
          rw [hbinding, hbuiltin] at h
          cases hsibling : p.sibling? d x with
          | some s =>
              rw [hsibling] at h
              cases h
              exact .sibling hbinding hbuiltin hsibling
          | none =>
              cases hstranger : p.stranger? d x with
              | some s =>
                  rw [hsibling, hstranger] at h
                  cases h
                  exact .stranger hbinding hbuiltin hstranger
              | none =>
                  rw [hsibling, hstranger] at h
                  cases h

variable [HostFunctions Host] {call : Caller Host} {fn : Value Host} {a b : Term}
  {info info' : Explicitness}

theorem eval_var (h : p.resolve d scope x = .ok value) :
    p.eval d call scope (.var x) = .ok value := by
  rw [eval, evalOnto, h]
  rfl

/-- A name that means a function is called with the values of all the arguments. -/
theorem eval_applySpine_var (h : p.resolve d scope x = .ok fn) (hfn : fn.isCallable = true)
    {args : List (Term × Explicitness)} (hargs : args ≠ []) :
    p.eval d call scope ((Term.var x).applySpine args) =
      (do let vs ← args.mapM fun a => p.eval d call scope a.1
          call fn vs) := by
  rw [eval_applySpine p d call scope (Term.isHead_var x) hargs, eval_var h]
  exact if_pos hfn

theorem eval_app_var (h : p.resolve d scope x = .ok fn) (hfn : fn.isCallable = true) :
    p.eval d call scope (.app (.var x) a info) =
      (do let v ← p.eval d call scope a; call fn [v]) := by
  refine (eval_applySpine_var h hfn (List.cons_ne_nil (a, info) [])).trans ?_
  simp

theorem eval_app_app_var (h : p.resolve d scope x = .ok fn) (hfn : fn.isCallable = true) :
    p.eval d call scope (.app (.app (.var x) a info) b info') =
      (do let v ← p.eval d call scope a
          let w ← p.eval d call scope b
          call fn [v, w]) := by
  refine (eval_applySpine_var h hfn (List.cons_ne_nil (a, info) [(b, info')])).trans ?_
  simp

theorem evalAlternatives_of_match {pattern : Pattern} {body : Term}
    {rest : List (Pattern × Term)} {bound : Scope Host}
    (h : pattern.match? p.environment.vocabulary value = .ok (some bound)) :
    p.evalAlternatives d call scope value ((pattern, body) :: rest) =
      p.eval d call (bound ++ scope) body := by
  rw [evalAlternatives, h]
  rfl

theorem evalAlternatives_of_no_match {pattern : Pattern} {body : Term}
    {rest : List (Pattern × Term)}
    (h : pattern.match? p.environment.vocabulary value = .ok none) :
    p.evalAlternatives d call scope value ((pattern, body) :: rest) =
      p.evalAlternatives d call scope value rest := by
  rw [evalAlternatives, h]
  rfl

theorem eval_case {scrutinee : Term} {alternatives : List (Pattern × Term)} :
    p.eval d call scope (.case scrutinee alternatives) =
      (do let v ← p.eval d call scope scrutinee
          p.evalAlternatives d call scope v alternatives) := by
  rw [eval, eval, evalOnto]
  refine bind_congr fun v => ?_
  simp only [applyPending]
  exact bind_pure _

theorem call_maker (n : Nat) (m : Maker) (args : List (Value Host)) :
    p.call n (.maker m) args = make m args := by
  cases n <;> rfl

theorem call_unwrap (n : Nat) (v : Value Host) :
    p.call n .unwrap [v] = Outcome.ofExcept (unwrapValue v) := by
  cases n <;> rfl

/-- A call of a declared function evaluates its body one level deeper. -/
theorem call_declared (hd : d ∈ p.declarations) (n : Nat) (args : List (Value Host)) :
    p.call (n + 1) (.declared d.qualifiedName) args = p.enter (p.call n) d args := by
  rw [call, callWith]
  simp only [find?_qualifiedName hd]

/-- The call of a function of one argument. -/
theorem enter_one {name : Text} (hargs : d.arguments = [name]) (v : Value Host) :
    p.enter call d [v] = Outcome.mapRejection (d.qualifiedName ++ "(" ++ v.display ++ "): ")
      (p.eval d call [(name, v)] d.body) := by
  simp [enter, hargs, Text.join]

end Program
end RefinementTypes
