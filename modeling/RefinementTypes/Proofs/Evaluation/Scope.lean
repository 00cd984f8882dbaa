import RefinementTypes.Evaluation.SampleHost
import RefinementTypes.Term.Basic
import RefinementTypes.Term.Occurrence

/-!
# Evaluation under agreeing scopes

A pattern that matches binds exactly its names, so the value of a term depends on a scope only
through the names that are free in the term.
-/

namespace RefinementTypes

theorem lookup_cons_of_ne {α : Type} {x name : Text} {a : α} {entries : List (Text × α)}
    (h : x ≠ name) : ((name, a) :: entries).lookup x = entries.lookup x := by
  rw [List.lookup_cons, beq_false_of_ne h]

/-- Two scopes say the same about every one of the names. -/
def AgreeOn {Host : Type} (s₁ s₂ : Scope Host) (names : List Text) : Prop :=
  ∀ x ∈ names, s₁.lookup x = s₂.lookup x

section
variable {Host : Type} {s₁ s₂ : Scope Host} {names : List Text}

private theorem AgreeOn.mono {more : List Text} (h : AgreeOn s₁ s₂ more) (hsub : names ⊆ more) :
    AgreeOn s₁ s₂ names :=
  fun x hx => h x (hsub hx)

private theorem AgreeOn.cons_of_not_mem {x : Text} (hx : x ∉ names) (v : Value Host)
    (s : Scope Host) :
    AgreeOn ((x, v) :: s) s names := by
  intro y hy
  have hne : y ≠ x := by
    intro heq
    exact hx (heq ▸ hy)
  exact lookup_cons_of_ne hne

theorem lookup_append_isSome {bound s : Scope Host} (x : Text) :
    ((bound ++ s).lookup x).isSome = ((bound.lookup x).isSome || (s.lookup x).isSome) := by
  rw [List.lookup_append, Option.isSome_or]

private theorem matchAll?_binds {v : Vocabulary} {ps : List Pattern}
    (ih : ∀ p ∈ ps, ∀ (value : Value Host) (bound : Scope Host),
      p.match? v value = .ok (some bound) → ∀ x, (bound.lookup x).isSome ↔ x ∈ p.binds)
    {values : List (Value Host)} (hle : ps.length ≤ values.length) {before bound : Scope Host}
    (h : Pattern.matchAll? v ps values before = .ok (some bound)) (x : Text) :
    (bound.lookup x).isSome ↔ x ∈ Pattern.bindsAll ps ∨ (before.lookup x).isSome := by
  induction ps generalizing values before with
  | nil =>
      rw [Pattern.matchAll?] at h
      · cases h
        simp [Pattern.bindsAll]
      · intro p ps value values hp
        cases hp
  | cons p ps ihs =>
      cases values with
      | nil => cases hle
      | cons value values =>
          rw [Pattern.matchAll?] at h
          cases hm : p.match? v value with
          | error e => rw [hm] at h; cases h
          | ok result =>
              rw [hm] at h
              cases result with
              | none => cases h
              | some scope =>
                  have hp := ih p (by simp) value scope hm x
                  have hps := ihs (fun q hq => ih q (by simp [hq]))
                    (by simpa using hle) h
                  rw [hps, lookup_append_isSome, Bool.or_eq_true, hp, Pattern.bindsAll,
                    List.mem_append, or_left_comm, or_assoc]

theorem Pattern.match?_binds {v : Vocabulary} {p : Pattern} {value : Value Host}
    {bound : Scope Host} (h : p.match? v value = .ok (some bound)) (x : Text) :
    (bound.lookup x).isSome ↔ x ∈ p.binds := by
  induction p using Pattern.inductionOn generalizing value bound x with
  | con name args ih =>
      rw [Pattern.match?] at h
      split at h
      · cases h
      · split at h
        · cases h
        · split at h
          · cases h
          · rename_i hlen
            have hb := matchAll?_binds (fun p hp value bound h x => ih p hp h x)
              (Nat.le_of_not_lt hlen) h x
            simpa [Pattern.binds] using hb
  | bind name =>
      rw [Pattern.match?] at h
      cases h
      by_cases hx : x = name
      · simp [Pattern.binds, hx]
      · simp [Pattern.binds, lookup_cons_of_ne hx, hx]
  | wild =>
      rw [Pattern.match?] at h
      cases h
      simp [Pattern.binds]

/-- What a match binds hides what the scopes say about the names of the pattern. -/
private theorem AgreeOn.extend {v : Vocabulary} {p : Pattern} {value : Value Host}
    {bound : Scope Host}
    (hm : p.match? v value = .ok (some bound))
    (h : AgreeOn s₁ s₂ (names.filter fun x => decide (x ∉ p.binds))) :
    AgreeOn (bound ++ s₁) (bound ++ s₂) names := by
  intro x hx
  rw [List.lookup_append, List.lookup_append]
  by_cases hb : x ∈ p.binds
  · obtain ⟨w, hw⟩ := Option.isSome_iff_exists.1 ((Pattern.match?_binds hm x).2 hb)
    rw [hw, Option.some_or, Option.some_or]
  · rw [h x (by simp [hx, hb])]

end

namespace Program
variable {Host : Type} [HostFunctions Host] {p : Program Host} {d : Declaration}
  {call : Caller Host} {s₁ s₂ : Scope Host}

private theorem evalAlternatives_congr {alternatives : List (Pattern × Term)}
    (ih : ∀ a ∈ alternatives, ∀ (s₁ s₂ : Scope Host) (pending : Pending Host),
      AgreeOn s₁ s₂ a.2.freeNames →
        p.evalOnto d call s₁ pending a.2 = p.evalOnto d call s₂ pending a.2)
    (h : AgreeOn s₁ s₂ (Term.freeNamesIn alternatives)) (value : Value Host) :
    p.evalAlternatives d call s₁ value alternatives =
      p.evalAlternatives d call s₂ value alternatives := by
  induction alternatives with
  | nil => rw [evalAlternatives, evalAlternatives]
  | cons a rest ihr =>
      obtain ⟨pattern, body⟩ := a
      rw [Term.freeNamesIn] at h
      have hbody := h.mono (List.subset_append_left _ _)
      have hrest := ihr (fun a ha => ih a (by simp [ha])) (h.mono (List.subset_append_right _ _))
      rw [evalAlternatives, evalAlternatives, hrest]
      cases hm : pattern.match? p.environment.vocabulary value with
      | error e => rfl
      | ok result =>
          cases result with
          | none => rfl
          | some bound => exact ih (pattern, body) (by simp) _ _ [] (hbody.extend hm)

private theorem evalOnto_congr {t : Term} (h : AgreeOn s₁ s₂ t.freeNames) (pending : Pending Host) :
    p.evalOnto d call s₁ pending t = p.evalOnto d call s₂ pending t := by
  induction t using Term.inductionOn generalizing s₁ s₂ pending with
  | var name =>
      have hname : s₁.lookup name = s₂.lookup name := h name (by simp [Term.freeNames])
      simp only [evalOnto, resolve, meaning?, hname]
  | param index => rw [evalOnto, evalOnto]
  | app fn arg info ihf iha =>
      rw [Term.freeNames] at h
      have harg := iha (h.mono (List.subset_append_right _ _)) []
      simp only [evalOnto, harg]
      exact ihf (h.mono (List.subset_append_left _ _)) _
  | lit value => rw [evalOnto, evalOnto]
  | hole => rw [evalOnto, evalOnto]
  | pi name m info domain result => rw [evalOnto, evalOnto]
  | case scrutinee alternatives ihs iha =>
      rw [Term.freeNames] at h
      have hs := ihs (h.mono (List.subset_append_left _ _)) []
      have halts := evalAlternatives_congr (fun a ha s₁ s₂ pending hag => iha a ha hag pending)
        (h.mono (List.subset_append_right _ _))
      simp only [evalOnto, hs, halts]

theorem eval_congr {t : Term} (h : AgreeOn s₁ s₂ t.freeNames) :
    p.eval d call s₁ t = p.eval d call s₂ t :=
  evalOnto_congr h []

/-- A term has one outcome in scopes that say the same about its free names, so a local value of any
other name makes no difference. What a pattern adds to the scope of a body are its own names. -/
theorem eval_depends_on_freeNames (p : Program Host) (d : Declaration) (call : Caller Host)
    (t : Term) :
    (∀ s₁ s₂ : Scope Host, AgreeOn s₁ s₂ t.freeNames → p.eval d call s₁ t = p.eval d call s₂ t) ∧
      (∀ (s : Scope Host) (x : Text) (v : Value Host), x ∉ t.freeNames →
        p.eval d call ((x, v) :: s) t = p.eval d call s t) ∧
      ∀ (pattern : Pattern) (value : Value Host) (bound : Scope Host),
        pattern.match? p.environment.vocabulary value = .ok (some bound) →
          ∀ x, (bound.lookup x).isSome ↔ x ∈ pattern.binds := by
  refine ⟨?_, ?_, ?_⟩
  · intro s₁ s₂ h
    exact eval_congr h
  · intro s x v hx
    apply eval_congr
    exact AgreeOn.cons_of_not_mem hx v s
  · intro pattern value bound hm x
    exact Pattern.match?_binds hm x

/-- Puts a second value beside the one of an optional value:
`case option of { Just v => Pair v w; Nothing => w }`. -/
def pairOption : Declaration where
  name := "pairOption"
  space := none
  visibility := .exported
  signature := .var "Pair"
  arguments := ["option", "w"]
  body := .case (.var "option")
    [(.con "Just" [.bind "v"], .app (.app (.var "Pair") (.var "v") .explicit) (.var "w") .explicit),
     (.con "Nothing" [], .var "w")]

def pairScope : Scope SampleHost := [("option", .just (.int 1)), ("w", .int 2)]

/-- A program of one declaration, whose host binds the constructor of pairs. -/
def pairing : Program SampleHost :=
  ⟨⟨.decideByApplying, [("Pair", .host (.con "Pair" none))], {}⟩, [pairOption], by simp⟩

/-- The name `v` is not free in the body: the pattern binds it whatever the scope says. -/
theorem eval_depends_on_freeNames_pairOption :
    ("v" : Text) ∉ pairOption.body.freeNames ∧
      pairing.eval pairOption (pairing.call 0) (("v", .int 7) :: pairScope) pairOption.body =
        .ok (.record "Pair" [.int 1, .int 2]) ∧
      AgreeOn pairScope.reverse pairScope pairOption.body.freeNames ∧
      pairing.eval pairOption (pairing.call 0) pairScope.reverse pairOption.body =
        .ok (.record "Pair" [.int 1, .int 2]) := by
  obtain ⟨hagree, hfresh, -⟩ :=
    eval_depends_on_freeNames pairing pairOption (pairing.call 0) pairOption.body
  have hv : ("v" : Text) ∉ pairOption.body.freeNames := by decide
  have hscopes : AgreeOn pairScope.reverse pairScope pairOption.body.freeNames := by
    intro x hx
    have hnames : pairOption.body.freeNames = (["option", "Pair", "w", "w"] : List Text) := by
      decide
    simp only [hnames, List.mem_cons, List.not_mem_nil, or_false] at hx
    rcases hx with rfl | rfl | rfl | rfl <;> rfl
  refine ⟨hv, ?_, hscopes, ?_⟩
  · rw [hfresh pairScope "v" (.int 7) hv]
    rfl
  · rw [hagree _ _ hscopes]
    rfl

end Program
end RefinementTypes
