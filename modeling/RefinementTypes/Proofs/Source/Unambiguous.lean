import RefinementTypes.Proofs.Source.Readable
import RefinementTypes.Proofs.Source.Spelling

/-!
# Source text of terms is unambiguous

The text of a well-named term spells its tokens, and the tokens are read back as the term. Two terms
with the same text in the same position are therefore the same.
-/

namespace RefinementTypes.Source
open Reader

variable {text : Text} {tokens : List Token}

private theorem spells_group (wrap : Bool) (h : Spells Delimited text tokens) :
    Spells Delimited (parenthesize wrap text) (Token.grouped wrap tokens) := by
  cases wrap with
  | false => exact h
  | true =>
      have hclosed := (spells_opening.symbol_append h).append spells_closing
        fun rest _ => delimited_cons rfl rest
      exact hclosed.delimited

private theorem Spells.curly {opening : Text} {ts : List Token}
    (hopening : Spells Anything opening ts) (h : Spells Delimited text tokens) :
    Spells Delimited (opening ++ text ++ "\x7d") (ts ++ tokens ++ [.curlyClosing]) := by
  have hclosed := (hopening.symbol_append h).append spells_curlyClosing
    fun rest _ => delimited_cons rfl rest
  exact hclosed.delimited

private theorem Spells.separated {middle text' : Text} {ts tokens' : List Token}
    (h : Spells Delimited text tokens) (hmiddle : Spells Anything middle ts)
    (h' : Spells Delimited text' tokens') (hdelimited : ∀ rest, Delimited (middle ++ rest)) :
    Spells Delimited (text ++ middle ++ text') (tokens ++ (ts ++ tokens')) := by
  have hall := (h.append hmiddle fun rest _ => hdelimited rest).symbol_append h'
  rw [List.append_assoc tokens] at hall
  exact hall

private theorem spells_patterns {p : Pattern} {ps : List Pattern}
    (h : ∀ q ∈ p :: ps, Spells Delimited (pattern true q) (Token.ofPattern true q)) :
    Spells Delimited (Text.join " " (pattern true p :: nestedPatterns ps))
      (Token.ofPattern true p ++ Token.ofPatterns ps) := by
  induction ps generalizing p with
  | nil =>
      have hp := h p (List.mem_cons_self ..)
      rw [Token.ofPatterns, List.append_nil]
      exact hp
  | cons q qs ih =>
      have hp := h p (List.mem_cons_self ..)
      have hqs := ih fun r hr => h r (List.mem_cons_of_mem _ hr)
      have hall := hp.separated spells_space hqs fun rest => delimited_cons rfl rest
      exact hall

private theorem spells_arguments {name : Text} {p : Pattern} {ps : List Pattern}
    (hname : isName name = true)
    (h : ∀ q ∈ p :: ps, Spells Delimited (pattern true q) (Token.ofPattern true q)) :
    Spells Delimited (name ++ " " ++ Text.join " " (pattern true p :: nestedPatterns ps))
      (.atom (.var name) :: (Token.ofPattern true p ++ Token.ofPatterns ps)) := by
  have hall := (spells_name hname).separated spells_space (spells_patterns h)
    fun rest => delimited_cons rfl rest
  exact hall

private theorem spells_pattern {p : Pattern} (h : p.WellNamed) (nested : Bool) :
    Spells Delimited (pattern nested p) (Token.ofPattern nested p) := by
  induction h generalizing nested with
  | @con name args hname hupper hargs ih =>
      cases args with
      | nil => exact spells_name hname
      | cons p ps => exact spells_group nested (spells_arguments hname fun q hq => ih q hq true)
  | bind hname hlower => exact spells_name hname
  | wild => exact spells_hole.delimited

private theorem spells_quantity (m : Multiplicity) :
    Spells Anything (quantity m) (Token.ofQuantity m) := by
  cases m with
  | zero => exact Spells.of_next?_space fun _ => rfl
  | linear => exact Spells.of_next?_space fun _ => rfl
  | unrestricted =>
      intro rest _
      exact (congrFun Option.map_id _).symm

private theorem spells_binderName {name : Option Text} (h : ∀ x ∈ name, isName x = true) :
    Spells Delimited (name.getD "_") [.atom (Token.ofBinderName name)] := by
  cases name with
  | none => exact spells_hole.delimited
  | some x => exact spells_name (h x rfl)

private theorem spells_binder {name : Option Text} (hname : ∀ x ∈ name, isName x = true)
    (m : Multiplicity) (info : Explicitness) (h : Spells Delimited text tokens) :
    Spells Delimited (binder name m info text) (Token.ofBinder name m info tokens) := by
  have hcolon := ((spells_quantity m).symbol_append (spells_binderName hname)).append spells_colon
    fun rest _ => delimited_cons rfl rest
  have hinner := hcolon.symbol_append h
  have htokens : Token.ofQuantity m ++ [.atom (Token.ofBinderName name)] ++ [.colon] ++ tokens =
      Token.ofQuantity m ++ .atom (Token.ofBinderName name) :: .colon :: tokens := by
    simp
  rw [htokens] at hinner
  cases info with
  | explicit => exact spells_group true hinner
  | implicit => exact spells_curlyOpening.curly hinner
  | autoImplicit => exact spells_auto.curly hinner
  | defaultImplicit => exact spells_default.curly hinner

private theorem spells_argument (info : Explicitness) (h : Spells Delimited text tokens) :
    Spells Delimited (argument info text) (Token.ofArgument info tokens) := by
  cases info with
  | explicit => exact h
  | implicit => exact spells_curlyOpening.curly h
  | autoImplicit => exact spells_autoOpening.curly h
  | defaultImplicit => exact spells_curlyOpening.curly h

/-- The term has a text in the position, and the text spells its tokens. -/
def Written (p : Position) (t : Term) : Prop :=
  ∃ text, term p t = .ok text ∧ Spells Delimited text (Token.ofTerm p t)

private theorem written_number {p : Position} {value : Literal} {text : Text}
    (htext : literal p value = .ok (number text (Token.isNegative value) p))
    (h : Spells Delimited text [.atom (.lit value)]) : Written p (.lit value) := by
  refine ⟨_, (by rw [term]; exact htext), ?_⟩
  rw [Token.ofTerm]
  exact spells_group _ h

private theorem written_app {p : Position} {fn arg : Term} {info : Explicitness}
    (hfn : Written .head fn) (harg : Written (argumentPosition info) arg) :
    Written p (.app fn arg info) := by
  obtain ⟨fnText, hfn, sfn⟩ := hfn
  obtain ⟨argText, harg, sarg⟩ := harg
  refine ⟨parenthesize (p = .argument) (fnText ++ " " ++ argument info argText), ?_, ?_⟩
  · rw [term, hfn, harg]
    rfl
  · have hspaced := sfn.separated spells_space (spells_argument info sarg)
      fun rest => delimited_cons rfl rest
    rw [Token.ofTerm]
    exact spells_group _ hspaced

private theorem written_pi {p : Position} {name : Option Text} {m : Multiplicity}
    {info : Explicitness} {domain result : Term} (hname : ∀ x ∈ name, isName x = true)
    (hdomain : ∀ q, Written q domain) (hresult : Written .top result) :
    Written p (.pi name m info domain result) := by
  obtain ⟨resultText, hresult, sresult⟩ := hresult
  cases hplain : isPlainDomain name m info with
  | true =>
      obtain ⟨domainText, hdomain, sdomain⟩ := hdomain .domain
      refine ⟨parenthesize p.isInner (domainText ++ " -> " ++ resultText), ?_, ?_⟩
      · simp only [term, hplain, if_true, hdomain, hresult]
        rfl
      · have harrow := sdomain.separated spells_arrow sresult fun rest => delimited_cons rfl rest
        simp only [Token.ofTerm, hplain, if_true]
        exact spells_group _ harrow
  | false =>
      obtain ⟨domainText, hdomain, sdomain⟩ := hdomain .top
      have sbinder := spells_binder hname m info sdomain
      refine ⟨parenthesize p.isInner (binder name m info domainText ++ " -> " ++ resultText),
        ?_, ?_⟩
      · simp only [term, hplain, Bool.false_eq_true, if_false, hdomain, hresult]
        rfl
      · have harrow := sbinder.separated spells_arrow sresult fun rest => delimited_cons rfl rest
        simp only [Token.ofTerm, hplain, Bool.false_eq_true, if_false]
        exact spells_group _ harrow

private theorem spells_alternative {p : Pattern} {body : Term} (hp : p.WellNamed)
    (h : Spells Delimited text (Token.ofTerm .top body)) :
    Spells Delimited (pattern false p ++ " => " ++ text)
      (Token.ofPattern false p ++ .doubleArrow :: Token.ofTerm .top body) :=
  (spells_pattern hp false).separated spells_doubleArrow h fun rest => delimited_cons rfl rest

private theorem written_alternatives {alternatives : List (Pattern × Term)}
    (hpatterns : ∀ a ∈ alternatives, a.1.WellNamed)
    (hbodies : ∀ a ∈ alternatives, Written .top a.2) :
    ∃ texts, alternativesText alternatives = .ok texts ∧ texts.length = alternatives.length ∧
      Spells Delimited (Text.join "; " texts) (Token.ofAlternatives alternatives) := by
  induction alternatives with
  | nil =>
      refine ⟨[], by rw [alternativesText], rfl, ?_⟩
      intro rest _
      exact (congrFun Option.map_id _).symm
  | cons a rest ih =>
      obtain ⟨p, body⟩ := a
      obtain ⟨text, hbody, sbody⟩ := hbodies _ (List.mem_cons_self ..)
      obtain ⟨texts, htexts, hlength, stexts⟩ := ih
        (fun b hb => hpatterns b (List.mem_cons_of_mem _ hb))
        (fun b hb => hbodies b (List.mem_cons_of_mem _ hb))
      have salternative := spells_alternative (hpatterns _ (List.mem_cons_self ..)) sbody
      refine ⟨(pattern false p ++ " => " ++ text) :: texts, ?_, congrArg (· + 1) hlength, ?_⟩
      · rw [alternativesText, hbody, htexts]
        rfl
      cases rest with
      | nil =>
          obtain rfl := List.length_eq_zero_iff.1 hlength
          rw [Token.ofAlternatives]
          exact salternative
      | cons b rest =>
          obtain ⟨next, texts, rfl⟩ := List.exists_cons_of_length_eq_add_one hlength
          have hall := salternative.separated spells_semicolon stexts
            fun rest => delimited_cons rfl rest
          have htokens : Token.ofAlternatives ((p, body) :: b :: rest) =
              Token.ofPattern false p ++ .doubleArrow :: Token.ofTerm .top body ++
                ([.semicolon] ++ Token.ofAlternatives (b :: rest)) := by
            simp [Token.ofAlternatives]
          rw [htokens]
          exact hall

private theorem written_case {p : Position} {scrutinee : Term}
    {alternatives : List (Pattern × Term)} (hscrutinee : Written .top scrutinee)
    (hpatterns : ∀ a ∈ alternatives, a.1.WellNamed)
    (hbodies : ∀ a ∈ alternatives, Written .top a.2) :
    Written p (.case scrutinee alternatives) := by
  obtain ⟨scrutineeText, hscrutinee, sscrutinee⟩ := hscrutinee
  obtain ⟨texts, htexts, _, stexts⟩ := written_alternatives hpatterns hbodies
  refine ⟨parenthesize p.isInner ("case " ++ scrutineeText ++ " of \x7b " ++
    Text.join "; " texts ++ " \x7d"), ?_, ?_⟩
  · rw [term, htexts, hscrutinee]
    rfl
  · have hhead := spells_case.symbol_append sscrutinee
    have hopened := hhead.separated spells_of stexts fun rest => delimited_cons rfl rest
    have hall := (hopened.append spells_end fun rest _ => delimited_cons rfl rest).delimited
    have htokens : [.case] ++ Token.ofTerm .top scrutinee ++
        ([.of, .curlyOpening] ++ Token.ofAlternatives alternatives) ++ [.curlyClosing] =
          .case :: (Token.ofTerm .top scrutinee ++
            .of :: .curlyOpening :: (Token.ofAlternatives alternatives ++ [.curlyClosing])) := by
      simp
    rw [htokens] at hall
    rw [Token.ofTerm]
    exact spells_group _ hall

private theorem written {t : Term} (h : t.WellNamed) (p : Position) : Written p t := by
  induction h generalizing p with
  | var hname => exact ⟨_, (by rw [term]), (by rw [Token.ofTerm]; exact spells_name hname)⟩
  | param index => exact ⟨_, (by rw [term]), (by rw [Token.ofTerm]; exact spells_param index)⟩
  | app hfn harg hinfo ihfn iharg => exact written_app (ihfn .head) (iharg _)
  | int i => exact written_number rfl (spells_int i)
  | float negative rank => exact written_number rfl (spells_float negative rank)
  | str s =>
      refine ⟨_, (by rw [term, literal]), ?_⟩
      rw [Token.ofTerm]
      exact (spells_str s).delimited
  | hole => exact ⟨_, (by rw [term]), (by rw [Token.ofTerm]; exact spells_hole.delimited)⟩
  | pi hname hdomain hresult ihdomain ihresult =>
      exact written_pi hname ihdomain (ihresult .top)
  | case hscrutinee hpatterns hbodies ihscrutinee ihbodies =>
      exact written_case (ihscrutinee .top) hpatterns fun a ha => ihbodies a ha .top

def read? (text : Text) : Option Term := (lex text).bind Reader.read?

private theorem lex_nil : lex [] = some [] := by
  rw [lex]
  rfl

/-- A well-named term has a text in every position, and the text is read back as the term. -/
theorem read?_term {t : Term} (h : t.WellNamed) (p : Position) :
    ∃ text, term p t = .ok text ∧ read? text = some t := by
  obtain ⟨text, htext, hspells⟩ := written h p
  have hlex := hspells [] (fun q hq => nomatch hq)
  rw [List.append_nil, lex_nil] at hlex
  refine ⟨text, htext, ?_⟩
  rw [read?, hlex, Option.map_some, List.append_nil, Option.bind_some, Reader.read?_ofTerm h]

/-- Two well-named terms have texts in every position, and the texts are different if the terms
are. -/
theorem term_injective (p : Position) {s t : Term} (hs : s.WellNamed) (ht : t.WellNamed) :
    ∃ first second, term p s = .ok first ∧ term p t = .ok second ∧ (first = second → s = t) := by
  obtain ⟨first, hfirst, hread⟩ := read?_term hs p
  obtain ⟨second, hsecond, hread'⟩ := read?_term ht p
  refine ⟨first, second, hfirst, hsecond, ?_⟩
  rintro rfl
  exact Option.some.inj (hread.symm.trans hread')

/-- `{auto 0 x : Nat} -> Vect {x} (-1)` -/
def sampleArrow : Term :=
  .pi (some "x") .zero .autoImplicit (.var "Nat")
    (.app (.app (.var "Vect") (.var "x") .implicit) (.lit (.int (-1))) .explicit)

/-- `case x of { Yes prf => "a"; _ => -0.0 }` -/
def sampleCase : Term :=
  .case (.var "x") [(.con "Yes" [.bind "prf"], .lit (.str "a")),
    (.wild, .lit (.float (Binary64.zero true)))]

private theorem sampleArrow_wellNamed : sampleArrow.WellNamed := by
  have hvect : (Term.var "Vect").WellNamed := .var (by decide)
  have hx : (Term.var "x").WellNamed := .var (by decide)
  refine .pi ?_ (.var (by decide)) (.app (.app hvect hx (by decide)) (.int (-1)) (by decide))
  intro y hy
  cases hy
  decide

private theorem sampleCase_wellNamed : sampleCase.WellNamed := by
  have hprf : ∀ p ∈ [Pattern.bind "prf"], p.WellNamed :=
    List.forall_mem_singleton.2 (.bind (by decide) (by decide))
  refine .case (.var (by decide)) ?_ ?_
  · exact List.forall_mem_cons.2
      ⟨.con (by decide) (by decide) hprf, List.forall_mem_singleton.2 .wild⟩
  · exact List.forall_mem_cons.2 ⟨.str "a", List.forall_mem_singleton.2 (.float true _)⟩

theorem term_injective_samples :
    sampleArrow.WellNamed ∧ sampleCase.WellNamed ∧
      ∃ first second, term .argument sampleArrow = .ok first ∧
        term .argument sampleCase = .ok second ∧ first ≠ second := by
  obtain ⟨first, second, hfirst, hsecond, hinjective⟩ :=
    term_injective .argument sampleArrow_wellNamed sampleCase_wellNamed
  refine ⟨sampleArrow_wellNamed, sampleCase_wellNamed, first, second, hfirst, hsecond, ?_⟩
  intro hsame
  cases hinjective hsame

end RefinementTypes.Source
