import RefinementTypes.Proofs.Source.Reader

/-!
# Tokens of well-named terms are read back

On its own a term may leave arrows open behind it, which the next closing token settles. Everywhere
else a term is complete when its tokens are read. Induction on the derivation that the term is well
named shows both at once.
-/

namespace RefinementTypes

namespace Pattern
open Source

private theorem ofTerm?_applyAll {name : Text} {head : Term} {done : List Pattern}
    (hhead : ofTerm? head = some (.con name done)) {args : List Pattern}
    (hargs : ∀ p ∈ args, ofTerm? p.asTerm = some p) :
    ofTerm? (Term.applyAll head (asTerms args) .explicit) = some (.con name (done ++ args)) := by
  induction args generalizing head done with
  | nil => simpa [asTerms, Term.applyAll] using hhead
  | cons p ps ih =>
      have hp := hargs p (List.mem_cons_self ..)
      have hps : ∀ q ∈ ps, ofTerm? q.asTerm = some q :=
        fun q hq => hargs q (List.mem_cons_of_mem _ hq)
      have hnext : ofTerm? (.app head p.asTerm .explicit) = some (.con name (done ++ [p])) := by
        simp only [ofTerm?, hhead, hp]
      have happlied := ih hnext hps
      rw [List.append_assoc] at happlied
      exact happlied

private theorem ofTerm?_asTerm {p : Pattern} (h : p.WellNamed) : ofTerm? p.asTerm = some p := by
  induction h with
  | @con name args hname hupper hargs ih =>
      have hhead : ofTerm? (.var name) = some (.con name []) := by
        rw [ofTerm?, if_pos hupper]
      exact ofTerm?_applyAll hhead ih
  | bind hname hlower => simp [asTerm, ofTerm?, startsUpper_eq_false hlower]
  | wild => rfl

end Pattern

namespace Source.Reader
variable {frames : List Frame} {before : Focus} {t : Term} {tokens rest : List Token}

/-- Tokens leave a term on which the closing tokens act as on `t`. -/
def Reads (frames : List Frame) (tokens : List Token) (t : Term) : Prop :=
  ∃ inner u, run tokens ⟨frames, .empty⟩ = some ⟨inner, .term u⟩ ∧ settle inner u = settle frames t

private theorem Reads.of_run (h : run tokens ⟨frames, .empty⟩ = some ⟨frames, .term t⟩) :
    Reads frames tokens t :=
  ⟨frames, t, h, rfl⟩

private theorem supply_empty (t : Term) : supply .empty t = t := rfl

/-- The tokens that stand behind a complete term. -/
def closes : Token → Bool
  | .closing => true
  | .curlyClosing => true
  | .of => true
  | .semicolon => true
  | _ => false

private theorem step_closes {token : Token} (h : closes token = true) (inner : List Frame)
    (u : Term) :
    step token ⟨inner, .term u⟩ = close token (settle inner u) := by
  cases token with
  | closing => rfl
  | curlyClosing => simp only [step]
  | of => rfl
  | semicolon => rfl
  | _ => cases h

private theorem Reads.run_append (h : Reads frames tokens t) {token : Token} (rest : List Token)
    (htoken : closes token = true) :
    run (tokens ++ token :: rest) ⟨frames, .empty⟩ =
      (close token (settle frames t)).bind (run rest) := by
  obtain ⟨inner, u, hrun, hsettle⟩ := h
  rw [Reader.run_append, hrun, Option.bind_some, run, step_closes htoken, hsettle]

private theorem Reads.run_group (h : Reads (.group before :: frames) tokens t) :
    run (Token.grouped true tokens) ⟨frames, before⟩ = some ⟨frames, .term (supply before t)⟩ := by
  have hclosing : closes .closing = true := rfl
  have hinner := h.run_append [] hclosing
  rw [Token.grouped, if_pos rfl, run, step, Option.bind_some, hinner]
  rfl

private theorem Reads.run_curly {fn : Term} {info : Explicitness}
    (h : Reads (.curly (.term fn) info :: frames) tokens t) :
    run (tokens ++ [.curlyClosing]) ⟨.curly (.term fn) info :: frames, .empty⟩ =
      some ⟨frames, .term (.app fn t info)⟩ :=
  h.run_append [] rfl

private theorem run_nestedPatterns {ps : List Pattern}
    (h : ∀ p ∈ ps, ∀ frames before, run (Token.ofPattern true p) ⟨frames, before⟩ =
      some ⟨frames, .term (supply before p.asTerm)⟩) (fn : Term) :
    run (Token.ofPatterns ps) ⟨frames, .term fn⟩ =
      some ⟨frames, .term (Term.applyAll fn (Pattern.asTerms ps) .explicit)⟩ := by
  induction ps generalizing fn with
  | nil => rfl
  | cons p ps ih =>
      have hp := h p (List.mem_cons_self ..) frames (.term fn)
      have hps := ih (fun q hq => h q (List.mem_cons_of_mem _ hq)) (supply (.term fn) p.asTerm)
      rw [Token.ofPatterns, Reader.run_append, hp, Option.bind_some, hps]
      rfl

private theorem run_arguments {name : Text} {p : Pattern} {ps : List Pattern}
    (h : ∀ q ∈ p :: ps, ∀ frames before, run (Token.ofPattern true q) ⟨frames, before⟩ =
      some ⟨frames, .term (supply before q.asTerm)⟩) :
    run (.atom (.var name) :: (Token.ofPattern true p ++ Token.ofPatterns ps)) ⟨frames, .empty⟩ =
      some ⟨frames, .term (Pattern.con name (p :: ps)).asTerm⟩ :=
  run_nestedPatterns h (.var name)

private theorem run_pattern_nested (p : Pattern) (frames : List Frame) (before : Focus) :
    run (Token.ofPattern true p) ⟨frames, before⟩ =
      some ⟨frames, .term (supply before p.asTerm)⟩ := by
  induction p using Pattern.inductionOn generalizing frames before with
  | con name args ih =>
      cases args with
      | nil => rfl
      | cons p ps => exact (Reads.of_run (run_arguments ih)).run_group
  | bind name => rfl
  | wild => rfl

private theorem run_pattern (p : Pattern) (frames : List Frame) :
    run (Token.ofPattern false p) ⟨frames, .empty⟩ = some ⟨frames, .term p.asTerm⟩ := by
  cases p with
  | con name args =>
      cases args with
      | nil => rfl
      | cons p ps => exact run_arguments fun q _ => run_pattern_nested q
  | bind name => rfl
  | wild => rfl

/-- A term is read wherever it is written; behind another term only as an argument. -/
structure Readable (t : Term) : Prop where
  top : ∀ frames, Reads frames (Token.ofTerm .top t) t
  inner : ∀ p frames before, p ≠ .top → p = .argument ∨ before = .empty →
    run (Token.ofTerm p t) ⟨frames, before⟩ = some ⟨frames, .term (supply before t)⟩

private theorem readable_atom (h : ∀ p, Token.ofTerm p t = [.atom t]) : Readable t where
  top frames := by
    rw [h]
    exact Reads.of_run rfl
  inner p frames before _ _ := by
    rw [h]
    rfl

/-- Terms that are put in parentheses everywhere but on their own. -/
private theorem readable_group (h : ∀ p, Token.ofTerm p t = Token.grouped p.isInner tokens)
    (hreads : ∀ frames, Reads frames tokens t) : Readable t where
  top frames := by
    rw [h]
    exact hreads frames
  inner p frames before hp _ := by
    have hinner : p.isInner = true := decide_eq_true hp
    rw [h, hinner]
    exact (hreads _).run_group

private theorem readable_literal (value : Literal) : Readable (.lit value) where
  top frames := by
    have hwrap : Position.top.isAtomic = false := rfl
    rw [Token.ofTerm, Token.ofLiteral, hwrap, Bool.and_false]
    exact Reads.of_run rfl
  inner p frames before _ _ := by
    rw [Token.ofTerm, Token.ofLiteral]
    cases Token.isNegative value && p.isAtomic with
    | false => rfl
    | true => exact (Reads.of_run (t := .lit value) rfl).run_group

private theorem run_argument {fn arg : Term} {info : Explicitness} (harg : Readable arg)
    (hinfo : info ≠ .defaultImplicit) :
    run (Token.ofArgument info (Token.ofTerm (argumentPosition info) arg)) ⟨frames, .term fn⟩ =
      some ⟨frames, .term (.app fn arg info)⟩ := by
  cases info with
  | explicit => exact harg.inner .argument frames (.term fn) (by decide) (.inl rfl)
  | implicit => exact (harg.top _).run_curly
  | autoImplicit => exact (harg.top _).run_curly
  | defaultImplicit => exact absurd rfl hinfo

private theorem readable_app {fn arg : Term} {info : Explicitness} (hfn : Readable fn)
    (harg : Readable arg) (hinfo : info ≠ .defaultImplicit) : Readable (.app fn arg info) := by
  have hrun : ∀ frames, run (Token.ofTerm .head fn ++
      Token.ofArgument info (Token.ofTerm (argumentPosition info) arg)) ⟨frames, .empty⟩ =
        some ⟨frames, .term (.app fn arg info)⟩ := by
    intro frames
    rw [run_append, hfn.inner .head frames .empty (by decide) (.inr rfl), Option.bind_some,
      supply_empty, run_argument harg hinfo]
  constructor
  · intro frames
    exact Reads.of_run (hrun frames)
  · intro p frames before _ hbefore
    by_cases hp : p = .argument
    · subst hp
      exact (Reads.of_run (hrun _)).run_group
    · obtain rfl := hbefore.resolve_left hp
      rw [Token.ofTerm, decide_eq_false hp]
      exact hrun frames

private theorem run_binderHead (frames : List Frame) (name : Option Text) (m : Multiplicity) :
    ∃ head, run (Token.ofQuantity m ++ [.atom (Token.ofBinderName name)]) ⟨frames, .empty⟩ =
      some ⟨frames, .term head⟩ ∧ binderHead? head = some (name, m) := by
  cases m <;> cases name <;> exact ⟨_, rfl, rfl⟩

-- One lemma for the four pairs of brackets, which differ in the frame and in the closing token.
private theorem run_opened {domain : Term} {name : Option Text} {m : Multiplicity}
    {info : Explicitness} {opened : Frame} {token : Token} (hdomain : Readable domain)
    (hcolon : ∀ head, step .colon ⟨opened :: frames, .term head⟩ =
      (binderHead? head).map fun (name, m) => ⟨.typed name m info :: frames, .empty⟩)
    (htoken : closes token = true) (hclose : close token (.typed name m info :: frames, domain) =
      some ⟨frames, .binder name m info domain⟩) :
    run ((Token.ofQuantity m ++ .atom (Token.ofBinderName name) :: .colon ::
        Token.ofTerm .top domain) ++ [token]) ⟨opened :: frames, .empty⟩ =
      some ⟨frames, .binder name m info domain⟩ := by
  obtain ⟨head, hrun, hhead⟩ := run_binderHead (opened :: frames) name m
  have htype := (hdomain.top (.typed name m info :: frames)).run_append [] htoken
  have hsettle : settle (.typed name m info :: frames) domain =
      (.typed name m info :: frames, domain) := rfl
  rw [List.append_assoc, List.cons_append, List.append_cons, run_append, hrun, Option.bind_some,
    List.cons_append, run, hcolon, hhead, Option.map_some, Option.bind_some, htype, hsettle, hclose]
  rfl

private theorem run_binder {domain : Term} (hdomain : Readable domain) (name : Option Text)
    (m : Multiplicity) (info : Explicitness) :
    run (Token.ofBinder name m info (Token.ofTerm .top domain)) ⟨frames, .empty⟩ =
      some ⟨frames, .binder name m info domain⟩ := by
  cases info with
  | explicit => exact run_opened hdomain (fun _ => rfl) rfl rfl
  | implicit => exact run_opened hdomain (fun _ => rfl) rfl rfl
  | autoImplicit => exact run_opened hdomain (fun _ => rfl) rfl rfl
  | defaultImplicit => exact run_opened hdomain (fun _ => rfl) rfl rfl

private theorem readable_pi {name : Option Text} {m : Multiplicity} {info : Explicitness}
    {domain result : Term} (hdomain : Readable domain) (hresult : Readable result) :
    Readable (.pi name m info domain result) := by
  refine readable_group (fun p => by rw [Token.ofTerm]) fun frames => ?_
  obtain ⟨inner, u, hrun, hsettle⟩ := hresult.top (.arrow name m info domain :: frames)
  refine ⟨inner, u, ?_, hsettle⟩
  by_cases hplain : isPlainDomain name m info = true
  · have hparts : name = none ∧ m = .unrestricted ∧ info = .explicit := by
      simpa [isPlainDomain, and_assoc] using hplain
    obtain ⟨rfl, rfl, rfl⟩ := hparts
    have hleft := hdomain.inner .domain frames .empty (by decide) (.inr rfl)
    rw [if_pos hplain, run_append, hleft]
    exact hrun
  · rw [if_neg hplain, run_append, run_binder hdomain]
    exact hrun

private theorem run_alternative {scrutinee : Term} {done : List (Pattern × Term)} {p : Pattern}
    (hp : p.WellNamed) :
    run (Token.ofPattern false p ++ .doubleArrow :: rest)
        ⟨.pattern scrutinee done :: frames, .empty⟩ =
      run rest ⟨.body scrutinee done p :: frames, .empty⟩ := by
  rw [run_append, run_pattern, Option.bind_some, run, step, Pattern.ofTerm?_asTerm hp]
  rfl

private theorem run_alternatives {scrutinee : Term} (done : List (Pattern × Term))
    {alternatives : List (Pattern × Term)} (hpatterns : ∀ a ∈ alternatives, a.1.WellNamed)
    (hbodies : ∀ a ∈ alternatives, Readable a.2) :
    run (Token.ofAlternatives alternatives ++ [.curlyClosing])
        ⟨.pattern scrutinee done :: frames, .empty⟩ =
      some ⟨frames, .term (.case scrutinee (done ++ alternatives))⟩ := by
  induction alternatives generalizing done with
  | nil =>
      rw [List.append_nil]
      rfl
  | cons a rest ih =>
      obtain ⟨p, body⟩ := a
      have hp := hpatterns _ (List.mem_cons_self ..)
      have hbody := (hbodies _ (List.mem_cons_self ..)).top (.body scrutinee done p :: frames)
      cases rest with
      | nil =>
          rw [Token.ofAlternatives, List.append_assoc, List.cons_append, run_alternative hp,
            hbody.run_append [] rfl]
          rfl
      | cons b rest =>
          have hrest := ih (done ++ [(p, body)])
            (fun c hc => hpatterns c (List.mem_cons_of_mem _ hc))
            (fun c hc => hbodies c (List.mem_cons_of_mem _ hc))
          have htokens : Token.ofAlternatives ((p, body) :: b :: rest) =
              Token.ofPattern false p ++ .doubleArrow :: (Token.ofTerm .top body ++
                .semicolon :: Token.ofAlternatives (b :: rest)) := by
            rw [Token.ofAlternatives]
            simp
          rw [htokens, List.append_assoc, List.cons_append, run_alternative hp, List.append_assoc,
            List.cons_append, hbody.run_append _ rfl]
          rw [List.append_assoc] at hrest
          exact hrest

private theorem readable_case {scrutinee : Term} {alternatives : List (Pattern × Term)}
    (hscrutinee : Readable scrutinee) (hpatterns : ∀ a ∈ alternatives, a.1.WellNamed)
    (hbodies : ∀ a ∈ alternatives, Readable a.2) : Readable (.case scrutinee alternatives) := by
  refine readable_group (fun p => by rw [Token.ofTerm]) fun frames => Reads.of_run ?_
  rw [run, step, Option.bind_some, (hscrutinee.top (.scrutinee :: frames)).run_append _ rfl]
  exact run_alternatives [] hpatterns hbodies

private theorem readable {t : Term} (h : t.WellNamed) : Readable t := by
  induction h with
  | var hname => exact readable_atom fun p => by rw [Token.ofTerm]
  | param index => exact readable_atom fun p => by rw [Token.ofTerm]
  | app hfn harg hinfo ihfn iharg => exact readable_app ihfn iharg hinfo
  | int i => exact readable_literal _
  | float negative rank => exact readable_literal _
  | str s => exact readable_literal _
  | hole => exact readable_atom fun p => by rw [Token.ofTerm]
  | pi hname hdomain hresult ihdomain ihresult => exact readable_pi ihdomain ihresult
  | case hscrutinee hpatterns hbodies ihscrutinee ihbodies =>
      exact readable_case ihscrutinee hpatterns ihbodies

/-- The tokens of a well-named term are read back as that term, wherever it is written. -/
theorem read?_ofTerm {t : Term} (h : t.WellNamed) (p : Position) :
    read? (Token.ofTerm p t) = some t := by
  have hreads : Reads [] (Token.ofTerm p t) t := by
    by_cases hp : p = .top
    · subst hp
      exact (readable h).top []
    · exact Reads.of_run ((readable h).inner p [] .empty hp (.inr rfl))
  obtain ⟨inner, u, hrun, hsettle⟩ := hreads
  simp only [read?, hrun, hsettle]
  rfl

end Source.Reader
end RefinementTypes
