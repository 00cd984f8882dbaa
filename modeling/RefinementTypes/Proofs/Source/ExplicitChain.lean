import RefinementTypes.Source.Module

/-!
# Chains of explicit binders

An arrow type is a chain of binders in front of a result. Without its implicit binders it has the
explicit ones of the chain, in order and in front of the same result. The name of a binder stays if
what is left behind it refers to it, whatever the chain has lost there.
-/

namespace RefinementTypes

def Binder.unnamed (b : Binder) : Binder := { b with name := none }

namespace Term

/-- The binders in front of the result of an arrow type, in order. -/
def binders : Term → List Binder
  | pi name m info domain result => ⟨name, m, info, domain⟩ :: result.binders
  | _ => []

/-- The result of an arrow type behind all its binders. -/
def target : Term → Term
  | pi _ _ _ _ result => result.target
  | t => t

/-- The binders whose arguments are supplied explicitly. -/
def explicitBinders (t : Term) : List Binder :=
  t.binders.filter fun b => decide (b.info = .explicit)

section
variable {name : Option Text} {m : Multiplicity} {info : Explicitness} {domain result t : Term}

private theorem piAll_binders (t : Term) : piAll t.binders t.target = t := by
  fun_induction binders t with
  | case1 name m info domain result ih => rw [piAll_cons, target, ih]
  | case2 t h =>
      cases t with
      | pi name m info domain result => exact absurd rfl (h name m info domain result)
      | _ => rfl

theorem stripImplicits_explicit :
    (pi name m .explicit domain result).stripImplicits =
      pi (name.filter fun x => decide (x ∈ result.stripImplicits.freeNames)) m .explicit domain
        result.stripImplicits := rfl

theorem stripImplicits_of_not_explicit (h : info ≠ .explicit) :
    (pi name m info domain result).stripImplicits = result.stripImplicits := by
  rw [stripImplicits, if_neg h]

private theorem stripImplicits_of_no_binders (h : t.binders = []) : t.stripImplicits = t := by
  cases t with
  | pi => cases h
  | _ => rfl

private theorem explicitBinders_explicit :
    (pi name m .explicit domain result).explicitBinders =
      ⟨name, m, .explicit, domain⟩ :: result.explicitBinders := rfl

private theorem explicitBinders_of_not_explicit (h : info ≠ .explicit) :
    (pi name m info domain result).explicitBinders = result.explicitBinders := by
  rw [explicitBinders, binders, List.filter_cons_of_neg (by simpa using h)]
  rfl

end

/-- Along the chain of binders, the explicit ones apart from the others. -/
@[elab_as_elim]
private theorem chainInduction {motive : Term → Prop}
    (explicit : ∀ name m domain result, motive result → motive (pi name m .explicit domain result))
    (implicit : ∀ name m info domain result, info ≠ .explicit → motive result →
      motive (pi name m info domain result))
    (target : ∀ t, t.binders = [] → motive t) (t : Term) : motive t := by
  induction t using Term.binders.induct with
  | case1 name m info domain result ih =>
      by_cases h : info = .explicit
      · subst h
        exact explicit name m domain result ih
      · exact implicit name m info domain result h ih
  | case2 t h =>
      apply target
      rw [binders]
      exact h

private theorem target_stripImplicits (t : Term) : t.stripImplicits.target = t.target := by
  induction t using chainInduction with
  | explicit name m domain result ih => exact ih
  | implicit name m info domain result h ih =>
      rw [stripImplicits_of_not_explicit h, ih]
      rfl
  | target t h => rw [stripImplicits_of_no_binders h]

private theorem binders_stripImplicits (t : Term) :
    t.stripImplicits.binders.map Binder.unnamed = t.explicitBinders.map Binder.unnamed := by
  induction t using chainInduction with
  | explicit name m domain result ih =>
      rw [stripImplicits_explicit, binders, explicitBinders_explicit, List.map_cons, List.map_cons,
        ih]
      rfl
  | implicit name m info domain result h ih =>
      rw [stripImplicits_of_not_explicit h, explicitBinders_of_not_explicit h, ih]
  | target t h =>
      rw [stripImplicits_of_no_binders h, explicitBinders, h]
      rfl

private theorem name_binders_stripImplicits {t : Term} {i : Nat} {b c : Binder}
    (hb : t.explicitBinders[i]? = some b) (hc : t.stripImplicits.binders[i]? = some c) (x : Text) :
    c.name = some x ↔ b.name = some x ∧
      x ∈ (piAll (t.stripImplicits.binders.drop (i + 1)) t.target).freeNames := by
  induction t using chainInduction generalizing i with
  | explicit name m domain result ih =>
      rw [stripImplicits_explicit, binders] at hc ⊢
      rw [explicitBinders_explicit] at hb
      cases i with
      | zero =>
          cases hb
          cases hc
          have hrest : piAll result.stripImplicits.binders result.target =
              result.stripImplicits := by
            rw [← target_stripImplicits, piAll_binders]
          simp [target, hrest]
      | succ i => exact ih hb hc
  | implicit name m info domain result h ih =>
      rw [stripImplicits_of_not_explicit h] at hc ⊢
      rw [explicitBinders_of_not_explicit h] at hb
      exact ih hb hc
  | target t h =>
      rw [explicitBinders, h] at hb
      cases hb

/-- Every binder of the chain is explicit and has a name only if it is referred to behind it. -/
inductive IsShort : Term → Prop
  | arrow {name : Option Text} {m : Multiplicity} {domain result : Term}
      (hname : ∀ x, name = some x → x ∈ result.freeNames) (h : result.IsShort) :
      IsShort (pi name m .explicit domain result)
  | target {t : Term} (h : t.binders = []) : IsShort t

private theorem isShort_stripImplicits (t : Term) : t.stripImplicits.IsShort := by
  induction t using chainInduction with
  | explicit name m domain result ih =>
      refine .arrow ?_ ih
      intro x hx
      simpa using (Option.filter_eq_some_iff.1 hx).2
  | implicit name m info domain result h ih =>
      rw [stripImplicits_of_not_explicit h]
      exact ih
  | target t h =>
      rw [stripImplicits_of_no_binders h]
      exact .target h

private theorem IsShort.stripImplicits_eq {t : Term} (h : t.IsShort) : t.stripImplicits = t := by
  induction h with
  | @arrow name m domain result hname _ ih =>
      have hkept : (name.filter fun x => decide (x ∈ result.freeNames)) = name := by
        cases name with
        | none => rfl
        | some x => simp [hname x rfl]
      rw [stripImplicits_explicit, ih, hkept]
  | target h => exact stripImplicits_of_no_binders h

/-- Without its implicit binders an arrow type has its explicit ones, in order and of the same
multiplicities and domains, in front of the same result. A binder keeps its name exactly if what is
left behind it refers to the name. After that there is nothing more to leave out. -/
theorem stripImplicits_chain (t : Term) :
    t.stripImplicits.target = t.target ∧
      t.stripImplicits.binders.map Binder.unnamed = t.explicitBinders.map Binder.unnamed ∧
      (∀ i b c, t.explicitBinders[i]? = some b → t.stripImplicits.binders[i]? = some c →
        ∀ x, c.name = some x ↔ b.name = some x ∧
          x ∈ (piAll (t.stripImplicits.binders.drop (i + 1)) t.target).freeNames) ∧
      t.stripImplicits.stripImplicits = t.stripImplicits := by
  refine ⟨target_stripImplicits t, binders_stripImplicits t, ?_, ?_⟩
  · intro i b c hb hc x
    exact name_binders_stripImplicits hb hc x
  · exact (isShort_stripImplicits t).stripImplicits_eq

/-- The type `(x : Nat) -> {0 x : Type} -> (1 v : List x) -> {auto 0 p : Sorted v} -> Vect x`. -/
def shadowing : Term :=
  piAll
    [⟨some "x", .unrestricted, .explicit, .var "Nat"⟩,
      ⟨some "x", .zero, .implicit, .var "Type"⟩,
      ⟨some "v", .linear, .explicit, .app (.var "List") (.var "x") .explicit⟩,
      ⟨some "p", .zero, .autoImplicit, .app (.var "Sorted") (.var "v") .explicit⟩]
    (.app (.var "Vect") (.var "x") .explicit)

/-- Without the binder between, the first one is what every `x` refers to, and keeps its name. The
other explicit binder loses its name with the last reference to it. -/
theorem stripImplicits_chain_shadowing :
    ∃ b₁ b₂ c₁ c₂, shadowing.explicitBinders = [b₁, b₂] ∧
      shadowing.stripImplicits.binders = [c₁, c₂] ∧ c₁.name = some "x" ∧
      b₂.name = some "v" ∧ c₂.name = none := by
  obtain ⟨_, _, hname, _⟩ := stripImplicits_chain shadowing
  refine ⟨_, _, _, _, rfl, rfl, ?_, rfl, ?_⟩
  · exact (hname 0 _ _ rfl rfl "x").2 ⟨rfl, by decide⟩
  · rw [Option.eq_none_iff_forall_ne_some]
    intro x hx
    obtain ⟨hv, hfree⟩ := (hname 1 _ _ rfl rfl x).1 hx
    cases hv
    exact absurd hfree (by decide)

end Term
end RefinementTypes
