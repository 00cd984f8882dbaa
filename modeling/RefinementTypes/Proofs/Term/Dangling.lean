import RefinementTypes.Fault
import RefinementTypes.Proofs.Term.Capture
import RefinementTypes.Proofs.Term.Leaves

/-!
# Dangling references

Naming the parameters of a term fails for one reason only: a reference to a parameter that is not
there. The first of these in reading order is reported. What comes of a term otherwise is closed: it
has no references left, and to name parameters in it once more changes nothing.
-/

namespace RefinementTypes

/-- There is no name at an index. -/
def OutOfRange (names : List Text) (index : Int) : Prop := index < 0 ∨ names.length ≤ index

private theorem paramName?_eq_none_iff {names : List Text} {index : Int} :
    paramName? names index = none ↔ OutOfRange names index := by
  rw [paramName?, OutOfRange]
  by_cases h : 0 ≤ index
  · rw [if_pos h, List.getElem?_eq_none_iff]
    omega
  · have hnegative : index < 0 := by omega
    simp [h, hnegative]

/-- What comes of naming something with the given references: a result if there is a name for each
of them, or a failure for the first one without. -/
inductive Settles (names : List Text) {α : Type} : List Int → Except TermFailure α → Prop
  | ok {refs : List Int} (h : ∀ i ∈ refs, ¬ OutOfRange names i) (a : α) :
      Settles names refs (.ok a)
  | error {before : List Int} {i : Int} (after : List Int)
      (h : ∀ j ∈ before, ¬ OutOfRange names j) (hi : OutOfRange names i) :
      Settles names (before ++ i :: after) (.error (.dangling i names.length))

namespace Settles
variable {α β : Type} {names : List Text} {refs refs' : List Int} {r : Except TermFailure α}

private theorem pure (names : List Text) (a : α) : Settles names [] (.ok a) := .ok (by simp) a

private theorem map (h : Settles names refs r) (g : α → β) :
    Settles names refs (r >>= fun a => .ok (g a)) := by
  cases h with
  | ok h a => exact .ok h (g a)
  | error after h hi => exact .error after h hi

private theorem bind (h : Settles names refs r) {f : α → Except TermFailure β}
    (hf : ∀ a, Settles names refs' (f a)) : Settles names (refs ++ refs') (r >>= f) := by
  cases h with
  | ok h a =>
      have hstep : (Except.ok a : Except TermFailure α) >>= f = f a := rfl
      have hs := hf a
      rw [hstep]
      generalize f a = s at hs ⊢
      cases hs with
      | ok h' b => exact .ok (List.forall_mem_append.2 ⟨h, h'⟩) b
      | error after h' hi =>
          rw [← List.append_assoc]
          exact .error after (List.forall_mem_append.2 ⟨h, h'⟩) hi
  | error after h hi =>
      rw [List.append_assoc, List.cons_append]
      exact .error (after ++ refs') h hi

private theorem exists_error_iff (h : Settles names refs r) :
    (∃ e, r = .error e) ↔ ∃ i ∈ refs, OutOfRange names i := by
  cases h with
  | ok h a => simpa using h
  | @error before i after h hi =>
      constructor
      · intro _
        exact ⟨i, by simp, hi⟩
      · intro _
        exact ⟨_, rfl⟩

private theorem first {e : TermFailure} (h : Settles names refs (.error e : Except TermFailure α)) :
    ∃ before i after, refs = before ++ i :: after ∧ (∀ j ∈ before, ¬ OutOfRange names j) ∧
      OutOfRange names i ∧ e = .dangling i names.length := by
  cases h with
  | @error before i after h hi => exact ⟨before, i, after, rfl, h, hi, rfl⟩

end Settles

namespace Term
variable {names : List Text}

private theorem settles_instantiateIn {alternatives : List (Pattern × Term)}
    (ih : ∀ a ∈ alternatives, Settles names a.2.paramRefs (a.2.instantiate names)) :
    Settles names (paramRefsIn alternatives) (instantiateIn names alternatives) := by
  induction alternatives with
  | nil => exact .pure names []
  | cons a rest ihr =>
      rw [List.forall_mem_cons] at ih
      have hrest := ihr ih.2
      exact ih.1.bind fun body => hrest.map fun rest => (a.1, body) :: rest

/-- The references of a term are settled in reading order, at any depth. -/
private theorem settles_instantiate (names : List Text) (t : Term) :
    Settles names t.paramRefs (t.instantiate names) := by
  induction t using Term.inductionOn with
  | var name => exact .pure names (var name)
  | param index =>
      rw [paramRefs, instantiate]
      split
      · rename_i name hname
        apply Settles.ok
        intro i hi
        rw [List.mem_singleton.1 hi, ← paramName?_eq_none_iff, hname]
        simp
      · rename_i hnone
        rw [← List.nil_append [index]]
        exact .error [] (by simp) (paramName?_eq_none_iff.1 hnone)
  | app fn arg info ihf iha => exact ihf.bind fun f => iha.map fun a => app f a info
  | lit value => exact .pure names (lit value)
  | hole => exact .pure names hole
  | pi name m info domain result ihd ihr =>
      exact ihd.bind fun domain => ihr.map fun result => pi name m info domain result
  | case scrutinee alternatives ihs iha =>
      have halternatives := settles_instantiateIn iha
      exact ihs.bind fun scrutinee => halternatives.map fun alternatives =>
        case scrutinee alternatives

private theorem instantiateIn_of_closed {alternatives : List (Pattern × Term)}
    (ih : ∀ a ∈ alternatives, a.2.paramRefs = [] → a.2.instantiate names = .ok a.2)
    (h : paramRefsIn alternatives = []) :
    instantiateIn names alternatives = .ok alternatives := by
  induction alternatives with
  | nil => rfl
  | cons a rest ihr =>
      rw [List.forall_mem_cons] at ih
      rw [paramRefsIn, List.append_eq_nil_iff] at h
      rw [instantiateIn, ih.1 h.1, ihr ih.2 h.2]
      rfl

private theorem instantiate_of_closed {t : Term} (h : t.paramRefs = []) (names : List Text) :
    t.instantiate names = .ok t := by
  induction t using Term.inductionOn with
  | var name => rfl
  | param index => cases h
  | app fn arg info ihf iha =>
      rw [paramRefs, List.append_eq_nil_iff] at h
      rw [instantiate, ihf h.1, iha h.2]
      rfl
  | lit value => rfl
  | hole => rfl
  | pi name m info domain result ihd ihr =>
      rw [paramRefs, List.append_eq_nil_iff] at h
      rw [instantiate, ihd h.1, ihr h.2]
      rfl
  | case scrutinee alternatives ihs iha =>
      rw [paramRefs, List.append_eq_nil_iff] at h
      rw [instantiate, ihs h.1, instantiateIn_of_closed iha h.2]
      rfl

private theorem mem_paramRefsIn_of_exposed {x : Text} {i : Int}
    {alternatives : List (Pattern × Term)}
    (ih : ∀ a ∈ alternatives, i ∈ a.2.exposedRefs x → i ∈ a.2.paramRefs)
    (h : i ∈ exposedRefsIn x alternatives) : i ∈ paramRefsIn alternatives := by
  induction alternatives with
  | nil => exact h
  | cons a rest ihr =>
      rw [List.forall_mem_cons] at ih
      rw [exposedRefsIn, List.mem_append] at h
      rw [paramRefsIn, List.mem_append]
      rcases h with h | h
      · by_cases hx : x ∈ a.1.binds
        · simp [hx] at h
        · exact Or.inl (ih.1 (by simpa [hx] using h))
      · exact Or.inr (ihr ih.2 h)

private theorem mem_paramRefs_of_exposed {x : Text} {i : Int} {t : Term} (h : i ∈ t.exposedRefs x) :
    i ∈ t.paramRefs := by
  induction t using Term.inductionOn with
  | var name => exact h
  | param index => exact h
  | app fn arg info ihf iha =>
      rw [exposedRefs, List.mem_append] at h
      rw [paramRefs, List.mem_append]
      exact h.imp ihf iha
  | lit value => exact h
  | hole => exact h
  | pi name m info domain result ihd ihr =>
      rw [exposedRefs, List.mem_append] at h
      rw [paramRefs, List.mem_append]
      apply h.imp ihd
      intro h
      by_cases hx : name = some x
      · simp [hx] at h
      · exact ihr (by simpa [hx] using h)
  | case scrutinee alternatives ihs iha =>
      rw [exposedRefs, List.mem_append] at h
      rw [paramRefs, List.mem_append]
      exact h.imp ihs (mem_paramRefsIn_of_exposed iha)

/-- Names come into a term for its references only. -/
theorem freeNames_of_instantiate {t u : Term} (h : t.instantiate names = .ok u) {x : Text}
    (hx : x ∈ u.freeNames) :
    x ∈ t.freeNames ∨ ∃ i ∈ t.paramRefs, paramName? names i = some x := by
  rcases (mem_freeNames_instantiate h).1 hx with hx | ⟨i, hi, hname⟩
  · exact Or.inl hx
  · exact Or.inr ⟨i, mem_paramRefs_of_exposed hi, hname⟩

/-- Naming the parameters of a term fails exactly when some reference has no name. It reports the
first of them in reading order. A term that comes of it has no references, mentions nothing but what
the term did before and the names of parameters it referred to, and is left alone from then on. -/
theorem instantiate_fails_or_closes (names : List Text) (t : Term) :
    ((∃ e, t.instantiate names = .error e) ↔
      ∃ i ∈ t.paramRefs, i < 0 ∨ names.length ≤ i) ∧
    (∀ e, t.instantiate names = .error e →
      ∃ (before : List Int) (i : Int) (after : List Int), t.paramRefs = before ++ i :: after ∧
        (∀ j ∈ before, 0 ≤ j ∧ j < names.length) ∧ (i < 0 ∨ names.length ≤ i) ∧
        e.fault = .term ("Parameter reference " ++ Decimal.intText i ++ " is out of range for " ++
          Decimal.intText names.length ++ " parameter(s)") {}) ∧
    ∀ u, t.instantiate names = .ok u →
      u.paramRefs = [] ∧
      (∀ x ∈ u.freeNames, x ∈ t.freeNames ∨ ∃ i ∈ t.paramRefs, paramName? names i = some x) ∧
      ∀ others, u.instantiate others = .ok u := by
  have hsettles := settles_instantiate names t
  refine ⟨hsettles.exists_error_iff, ?_, ?_⟩
  · intro e he
    rw [he] at hsettles
    obtain ⟨before, i, after, hrefs, hbefore, hi, rfl⟩ := hsettles.first
    refine ⟨before, i, after, hrefs, ?_, hi, rfl⟩
    intro j hj
    have hrange := hbefore j hj
    rw [OutOfRange] at hrange
    omega
  · intro u hu
    have hclosed := paramRefs_instantiate hu
    refine ⟨hclosed, ?_, ?_⟩
    · intro x hx
      exact freeNames_of_instantiate hu hx
    · intro others
      exact instantiate_of_closed hclosed others

-- A negative index does not count from the end, and it comes before the one that is too large.
example : (app (app (param 0) (param (-1)) .explicit) (param 5) .implicit).instantiate ["n"] =
    .error (.dangling (-1) 1) := rfl

end Term
end RefinementTypes
