import RefinementTypes.Json.Reader

/-!
# The reader step by step

The reader of JSON as a machine that takes a step for every value that starts or ends, as long as
there is nothing to complain about. A run of the machine is a reading of the text.
-/

namespace RefinementTypes.Json

/-- Where the machine stands: in front of a value, or behind one that is finished. -/
inductive State where
  | ahead (stack : List Frame) (t : Text)
  | behind (v : Json) (stack : List Frame) (t : Text)

/-- The name of a member and its colon, up to where its value starts. -/
def memberName? : Text → Option (Text × Text)
  | .char '"' :: r =>
      match Text.Quoted.decode r with
      | .ok (name, r) =>
          match skipSpaces r with
          | .char ':' :: r => some (name, skipSpaces r)
          | _ => none
      | .error _ => none
  | _ => none

/-- The next state, if the machine neither fails nor is done. -/
def step? : State → Option State
  | .ahead stack (.char '"' :: r) =>
      match Text.Quoted.decode r with
      | .ok (s, r) => some (.behind (str s) stack r)
      | .error _ => none
  | .ahead stack (.char '[' :: r) =>
      match skipSpaces r with
      | .char ']' :: r => some (.behind (array []) stack r)
      | r => some (.ahead (.items [] :: stack) r)
  | .ahead stack (.char '\x7b' :: r) =>
      match skipSpaces r with
      | .char '\x7d' :: r => some (.behind (object []) stack r)
      | r => (memberName? r).map fun (name, r) => .ahead (.members [] name :: stack) r
  | .ahead stack t => (readScalar? t).map fun (v, r) => .behind v stack r
  | .behind _ [] _ => none
  | .behind v (.items done :: stack) t =>
      match skipSpaces t with
      | .char ',' :: r => some (.ahead (.items (v :: done) :: stack) (skipSpaces r))
      | .char ']' :: r => some (.behind (array (v :: done).reverse) stack r)
      | _ => none
  | .behind v (.members done name :: stack) t =>
      match skipSpaces t with
      | .char ',' :: r =>
          (memberName? (skipSpaces r)).map fun (next, r) =>
            .ahead (.members (putMember name v done) next :: stack) r
      | .char '\x7d' :: r => some (.behind (object (putMember name v done)) stack r)
      | _ => none

/-- The state after the given number of steps. -/
def run? : Nat → State → Option State
  | 0, s => some s
  | n + 1, s => (step? s).bind (run? n)

/-- What the reader makes of a state, in a text of `total` code points. -/
def State.result (total : Nat) : State → Except Nat (Json × Text)
  | ahead stack t => readValue total stack t
  | behind v stack t => resume total v stack t

private theorem readString_of_decode {t s rest : Text} (h : Text.Quoted.decode t = .ok (s, rest))
    (total : Nat) : ∃ r, readString total t = .ok (s, r) ∧ r.val = rest := by
  unfold readString
  split
  · rename_i s' rest' heq
    cases h.symm.trans heq
    exact ⟨_, rfl, rfl⟩
  · rename_i heq
    cases h.symm.trans heq
  · rename_i heq
    cases h.symm.trans heq

private theorem readName_of_memberName? {t name rest : Text} (h : memberName? t = some (name, rest))
    (total : Nat) : ∃ r, readName total t = .ok (name, r) ∧ r.val = rest := by
  fun_cases memberName? t with
  | case1 r _ r₁ hdecode r₂ hcolon =>
      simp only [memberName?, hdecode, hcolon, Option.some.injEq, Prod.mk.injEq] at h
      obtain ⟨rfl, rfl⟩ := h
      obtain ⟨⟨_, hlt⟩, hstring, rfl⟩ := readString_of_decode hdecode total
      rw [readName, hstring]
      simp only [bind, Except.bind]
      split
      · rename_i r₃ hcolon'
        cases hcolon.symm.trans hcolon'
        exact ⟨_, rfl, rfl⟩
      · rename_i hother
        exact absurd hcolon (hother _)
  | _ => simp_all [memberName?]

private theorem result_step {s s' : State} (h : step? s = some s') (total : Nat) :
    s.result total = s'.result total := by
  -- One case per step. `split` finds again the branch of the reader that the step stands for, since
  -- rewriting with the equation of a single branch asks for the failure of all branches before it.
  fun_cases step? s with
  | case1 stack r _ r₁ hdecode =>
      simp only [step?, hdecode, Option.some.injEq] at h
      subst h
      obtain ⟨⟨_, hlt⟩, hstring, rfl⟩ := readString_of_decode hdecode total
      rw [State.result, readValue, hstring]
      rfl
  | case3 stack r r₁ hclose =>
      simp only [step?, hclose, Option.some.injEq] at h
      subst h
      rw [State.result, readValue]
      split <;> simp_all [State.result]
  | case4 stack r hopen =>
      simp only [step?, Option.some.injEq] at h
      subst h
      rw [State.result, readValue]
      split <;> simp_all [State.result]
  | case5 stack r r₁ hclose =>
      simp only [step?, hclose, Option.some.injEq] at h
      subst h
      rw [State.result, readValue]
      split <;> simp_all [State.result]
  | case6 stack r hopen =>
      simp only [step?] at h
      obtain ⟨⟨name, r₁⟩, hname, rfl⟩ := Option.map_eq_some_iff.1 h
      obtain ⟨⟨_, hlt⟩, hread, rfl⟩ := readName_of_memberName? hname total
      rw [State.result, readValue]
      split
      · simp_all
      · rw [hread]
        rfl
  | case7 stack t hquote hbracket hbrace =>
      simp only [step?] at h
      obtain ⟨⟨v, r⟩, hscalar, rfl⟩ := Option.map_eq_some_iff.1 h
      rw [State.result, readValue.eq_def]
      split
      · exact absurd rfl (hquote _)
      · exact absurd rfl (hbracket _)
      · exact absurd rfl (hbrace _)
      · split <;> simp_all [State.result]
  | case9 v done stack t r hcomma =>
      simp only [step?, hcomma, Option.some.injEq] at h
      subst h
      simp only [State.result]
      rw [resume.eq_def]
      dsimp only
      split <;> simp_all
  | case10 v done stack t r hclose =>
      simp only [step?, hclose, Option.some.injEq] at h
      subst h
      simp only [State.result]
      rw [resume.eq_def]
      dsimp only
      split <;> simp_all
  | case12 v done name stack t r hcomma =>
      simp only [step?, hcomma] at h
      obtain ⟨⟨next, r₁⟩, hname, rfl⟩ := Option.map_eq_some_iff.1 h
      obtain ⟨⟨_, hlt⟩, hread, rfl⟩ := readName_of_memberName? hname total
      simp only [State.result]
      rw [resume.eq_def]
      dsimp only
      split
      · rename_i hcomma'
        cases hcomma.symm.trans hcomma'
        rw [hread]
        rfl
      · simp_all
      · simp_all
  | case13 v done name stack t r hclose =>
      simp only [step?, hclose, Option.some.injEq] at h
      subst h
      simp only [State.result]
      rw [resume.eq_def]
      dsimp only
      split <;> simp_all
  | _ => simp_all [step?]

theorem run?_add (m n : Nat) (s : State) : run? (m + n) s = (run? m s).bind (run? n) := by
  induction m generalizing s with
  | zero => simp [run?]
  | succ m ih =>
      rw [Nat.succ_add, run?, run?, Option.bind_assoc]
      exact congrArg (step? s).bind (funext ih)

private theorem result_run {n : Nat} {s s' : State} (h : run? n s = some s') (total : Nat) :
    s.result total = s'.result total := by
  induction n generalizing s with
  | zero =>
      cases h
      rfl
  | succ n ih =>
      obtain ⟨next, hstep, hrun⟩ := Option.bind_eq_some_iff.1 h
      rw [result_step hstep, ih hrun]

/-- A text is read as the value behind which the machine arrives at its end. -/
theorem parse_of_run {n : Nat} {t rest : Text} {v : Json}
    (h : run? n (.ahead [] (skipSpaces t)) = some (.behind v [] rest))
    (hend : skipSpaces rest = []) : parse t = .ok v := by
  have hvalue : readValue t.length [] (skipSpaces t) = .ok (v, rest) := by
    have hresult := result_run h t.length
    rwa [State.result, State.result, resume] at hresult
  rw [parse, hvalue]
  simp only [bind, Except.bind, hend]
  rfl

end RefinementTypes.Json
