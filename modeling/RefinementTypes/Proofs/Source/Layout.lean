import RefinementTypes.Proofs.Source.Grouping
import RefinementTypes.Proofs.Source.Separators

/-!
# Layout of namespace blocks

The block of a namespace is the source text of its declarations with every line indented, and the
source text is found again by taking the indentation away. A string literal that shows a line
separator is the one thing in the way: it is cut in two, and the separator is gone.
-/

namespace RefinementTypes

/-- The names that a declaration is written with. -/
def Declaration.names (d : Declaration) : List Text :=
  d.name :: d.space.toList ++ d.arguments ++ d.signature.names ++ d.body.names

/-- The string literals of a declaration, in reading order. -/
def Declaration.strings (d : Declaration) : List Text := d.signature.strings ++ d.body.strings

namespace Source
open Text (isStray lines splitFeeds separators)

private theorem unbroken_declaration {d : Declaration} :
    Unbroken d.names ↔ separators d.name = [] ∧ Unbroken d.space.toList ∧ Unbroken d.arguments ∧
      Unbroken d.signature.names ∧ Unbroken d.body.names := by
  simp only [Declaration.names, unbroken_append, unbroken_cons, and_assoc]

/-- A text with every line that is not empty indented. -/
def indented (t : Text) : Text := Text.join "\n" ((splitFeeds t).map indentLine)

/-- A text without its indentation. -/
def unindented (t : Text) : Text := Text.join "\n" ((splitFeeds t).map (List.drop indent.length))

private theorem feed_not_mem_indentLine {line : Text} (h : .char '\n' ∉ line) :
    .char '\n' ∉ indentLine line := by
  have hindent : CodePoint.char '\n' ∉ indent := by decide
  rw [indentLine]
  split
  · exact h
  · rw [List.mem_append, not_or]
    exact ⟨hindent, h⟩

private theorem drop_indentLine (line : Text) :
    (indentLine line).drop indent.length = line := by
  rw [indentLine]
  split
  · rename_i h
    rw [h]
    rfl
  · exact List.drop_left

private theorem unindented_indented (t : Text) : unindented (indented t) = t := by
  have hsplit : splitFeeds (indented t) = (splitFeeds t).map indentLine := by
    apply Text.splitFeeds_join
    · simp [Text.splitFeeds_ne_nil]
    · intro line hline
      obtain ⟨l, hl, rfl⟩ := List.mem_map.1 hline
      exact feed_not_mem_indentLine (Text.feed_not_mem_of_mem_splitFeeds hl)
  have hdrop : List.drop indent.length ∘ indentLine = id := funext drop_indentLine
  rw [unindented, hsplit, List.map_map, hdrop, List.map_id, Text.join_splitFeeds]

/-- The line separators of a text that are no line feeds. -/
def strays (t : Text) : Text := t.filter isStray

private theorem strays_append (s t : Text) : strays (s ++ t) = strays s ++ strays t :=
  List.filter_append ..

private theorem strays_join (ts : List Text) : strays (Text.join "\n" ts) = ts.flatMap strays :=
  Text.filter_join rfl ts

private theorem strays_of_separators {t u : Text} (h : separators t = u) : strays t = strays u := by
  rw [strays, ← Text.filter_isStray_separators, h, strays]

private theorem strays_indentLine (line : Text) : strays (indentLine line) = strays line := by
  have hindent : strays indent = [] := rfl
  rw [indentLine]
  split
  · rfl
  · rw [strays_append, hindent, List.nil_append]

private theorem strays_indented (t : Text) : strays (indented t) = strays t := by
  rw [indented, strays_join, List.flatMap_map]
  simp only [strays_indentLine]
  rw [← strays_join, Text.join_splitFeeds]

private theorem strays_drop {t : Text} (h : strays t = []) (n : Nat) : strays (t.drop n) = [] := by
  rw [strays, List.filter_eq_nil_iff] at h ⊢
  intro p hp
  exact h p (List.mem_of_mem_drop hp)

private theorem strays_unindented {t : Text} (h : strays t = []) : strays (unindented t) = [] := by
  have hlines : ∀ line ∈ splitFeeds t, strays line = [] := by
    rw [← Text.join_splitFeeds t, strays_join] at h
    simpa using h
  rw [unindented, strays_join, List.flatMap_map, List.flatMap_eq_nil_iff]
  intro line hline
  exact strays_drop (hlines line hline) _

/-- The lines of a text, each indented if it is not empty. -/
def laidOut (t : Text) : Text := Text.join "\n" ((lines t).map indentLine)

private theorem strays_laidOut (t : Text) : strays (laidOut t) = [] := by
  rw [laidOut, strays_join, List.flatMap_map, List.flatMap_eq_nil_iff]
  intro line hline
  rw [strays_indentLine, strays_of_separators (Text.separators_of_mem_lines hline)]
  rfl

private theorem laidOut_of_strays {t : Text} (hlast : t.getLast? ≠ some (.char '\n'))
    (h : strays t = []) : laidOut t = indented t := by
  by_cases ht : t = []
  · subst ht
    rfl
  · rw [laidOut, Text.lines_eq_splitFeeds ht hlast h, indented]

private theorem laidOut_eq_indented_iff {t : Text} (hlast : t.getLast? ≠ some (.char '\n')) :
    laidOut t = indented t ↔ strays t = [] := by
  constructor
  · -- Indenting keeps the stray separators of a text, but its lines have none to keep.
    intro h
    rw [← strays_indented, ← h, strays_laidOut]
  · exact laidOut_of_strays hlast

private theorem unindented_laidOut_iff {t : Text} (hlast : t.getLast? ≠ some (.char '\n')) :
    unindented (laidOut t) = t ↔ strays t = [] := by
  constructor
  · intro h
    rw [← h, strays_unindented (strays_laidOut t)]
  · intro h
    rw [laidOut_of_strays hlast h, unindented_indented]

private theorem strays_verbatim (strings : List Text) :
    strays (verbatim strings) = verbatim strings := by
  rw [strays, List.filter_eq_self]
  intro p hp
  obtain ⟨s, _, hp⟩ := List.mem_flatMap.1 hp
  have hverbatim : isVerbatim p = true := (List.mem_filter.1 hp).2
  have hfeed : p ≠ .char '\n' := by
    rintro rfl
    cases hverbatim
  simp only [isVerbatim, Bool.and_eq_true] at hverbatim
  simp [isStray, hverbatim.1, hfeed]

private theorem strays_term {t : Term} (hnames : Unbroken t.names) {p : Position} {text : Text}
    (h : term p t = .ok text) : strays text = verbatim t.strings := by
  rw [strays_of_separators (separators_term hnames h), strays_verbatim]

private theorem feed_not_mem_term {t : Term} (hnames : Unbroken t.names) {p : Position}
    {text : Text}
    (h : term p t = .ok text) : .char '\n' ∉ text := by
  intro hmem
  have hseparator : CodePoint.char '\n' ∈ separators text :=
    List.mem_filter.2 ⟨hmem, by decide⟩
  rw [separators_term hnames h] at hseparator
  obtain ⟨s, _, hs⟩ := List.mem_flatMap.1 hseparator
  cases (List.mem_filter.1 hs).2

private theorem strays_alternatives {alternatives : List (Pattern × Term)} {texts : List Text}
    (hnames : Unbroken (Term.namesIn alternatives))
    (h : alternativesText alternatives = .ok texts) :
    texts.flatMap strays = verbatim (Term.stringsIn alternatives) := by
  have hseparators := separators_alternatives hnames h
  have hstrays : texts.flatMap strays = strays (texts.flatMap separators) := by
    simp only [strays, List.filter_flatMap, Text.filter_isStray_separators]
    rfl
  rw [hstrays, hseparators, strays_verbatim]

private theorem strays_left {d : Declaration} (hnames : Unbroken d.names) :
    strays (Text.join " " (d.name :: d.arguments)) = [] := by
  have hspace : separators " " = [] := rfl
  obtain ⟨hname, _, harguments, _⟩ := unbroken_declaration.1 hnames
  have hleft : separators (Text.join " " (d.name :: d.arguments)) = [] := by
    rw [separators_join hspace, List.flatMap_eq_nil_iff, List.forall_mem_cons]
    exact ⟨hname, harguments⟩
  rw [strays_of_separators hleft]
  rfl

private theorem strays_clause {d : Declaration} (hnames : Unbroken d.names) {text : Text}
    (h : clause d = .ok text) : strays text = verbatim d.body.strings := by
  have hleft := strays_left hnames
  obtain ⟨_, _, _, _, hbody⟩ := unbroken_declaration.1 hnames
  rw [clause] at h
  split at h
  · rename_i scrutinee alternatives hcase
    obtain ⟨scrutineeText, hscrutinee, h⟩ := bind_eq_ok h
    obtain ⟨texts, htexts, h⟩ := bind_eq_ok h
    cases h
    rw [hcase] at hbody ⊢
    rw [Term.names, unbroken_append] at hbody
    have hscrutinee := strays_term hbody.1 hscrutinee
    have htexts := strays_alternatives hbody.2 htexts
    have hcase : strays " = case " = [] := rfl
    have hof : strays " of" = [] := rfl
    have hindent : strays indent = [] := rfl
    simp only [strays_join, List.flatMap_cons, List.flatMap_map, strays_append, hleft, hcase, hof,
      hindent, hscrutinee, htexts, Term.strings, verbatim_append, List.nil_append, List.append_nil]
  · obtain ⟨bodyText, hbodyText, h⟩ := bind_eq_ok h
    cases h
    have hequals : strays " = " = [] := rfl
    rw [strays_append, strays_append, hleft, hequals, strays_term hbody hbodyText]
    rfl

private theorem strays_declaration {d : Declaration} (hnames : Unbroken d.names) {text : Text}
    (h : declaration d = .ok text) : strays text = verbatim d.strings := by
  obtain ⟨signatureText, hsignature, h⟩ := bind_eq_ok h
  obtain ⟨clauseText, hclause, h⟩ := bind_eq_ok h
  cases h
  obtain ⟨typeText, htype, hsignature⟩ := bind_eq_ok hsignature
  cases hsignature
  obtain ⟨hname, _, _, hsignature, _⟩ := unbroken_declaration.1 hnames
  have hname : strays d.name = [] := by
    rw [strays_of_separators hname]
    rfl
  have htype := strays_term hsignature htype
  have hcolon : strays " : " = [] := rfl
  have hvisibility : strays (Spelled.spelling d.visibility) = [] := by
    cases d.visibility <;> rfl
  simp only [strays_join, List.flatMap_cons, List.flatMap_nil, strays_append, hvisibility, hname,
    hcolon, htype, strays_clause hnames hclause, Declaration.strings, verbatim_append,
    List.nil_append, List.append_nil]

/-- A text ends in a line that is not empty, and so no line is lost at its end. -/
def HasLastLine (t : Text) : Prop := ∃ p, t.getLast? = some p ∧ p ≠ .char '\n'

private theorem HasLastLine.getLast?_ne {t : Text} (h : HasLastLine t) :
    t.getLast? ≠ some (.char '\n') := by
  obtain ⟨p, hp, hfeed⟩ := h
  simp [hp, hfeed]

private theorem HasLastLine.append_left {t : Text} (h : HasLastLine t) (s : Text) :
    HasLastLine (s ++ t) := by
  obtain ⟨p, hp, hfeed⟩ := h
  exact ⟨p, by simp [List.getLast?_append, hp], hfeed⟩

private theorem HasLastLine.append_right {s : Text} (h : HasLastLine s) {t : Text}
    (ht : .char '\n' ∉ t) : HasLastLine (s ++ t) := by
  cases hlast : t.getLast? with
  | none =>
      rw [List.getLast?_eq_none_iff] at hlast
      rwa [hlast, List.append_nil]
  | some p =>
      refine HasLastLine.append_left ⟨p, hlast, ?_⟩ s
      rintro rfl
      exact ht (List.mem_of_getLast? hlast)

private theorem HasLastLine.join {t : Text} {ts : List Text} (h : ∀ u ∈ t :: ts, HasLastLine u)
    (separator : Text) : HasLastLine (Text.join separator (t :: ts)) := by
  induction ts generalizing t with
  | nil => exact h t (by simp)
  | cons u us ih =>
      rw [Text.join_cons_cons]
      exact (ih fun w hw => h w (by simp [hw])).append_left _

private theorem hasLastLine_alternatives {alternatives : List (Pattern × Term)}
    {texts : List Text} (hnames : Unbroken (Term.namesIn alternatives))
    (h : alternativesText alternatives = .ok texts) : ∀ text ∈ texts, HasLastLine text := by
  induction alternatives generalizing texts with
  | nil =>
      cases h
      simp
  | cons a rest ih =>
      obtain ⟨p, body⟩ := a
      obtain ⟨bodyText, hbody, h⟩ := bind_eq_ok h
      obtain ⟨restTexts, hrest, h⟩ := bind_eq_ok h
      cases h
      have harrow : HasLastLine " => " := ⟨.char ' ', rfl, by decide⟩
      simp only [Term.namesIn, unbroken_append] at hnames
      have hfeed := feed_not_mem_term hnames.1.2 hbody
      have hrest := ih hnames.2 hrest
      rw [List.forall_mem_cons]
      exact ⟨(harrow.append_left _).append_right hfeed, hrest⟩

private theorem hasLastLine_clause {d : Declaration} (hnames : Unbroken d.names) {text : Text}
    (h : clause d = .ok text) : HasLastLine text := by
  obtain ⟨_, _, _, _, hbody⟩ := unbroken_declaration.1 hnames
  rw [clause] at h
  split at h
  · rename_i scrutinee alternatives hcase
    obtain ⟨scrutineeText, _, h⟩ := bind_eq_ok h
    obtain ⟨texts, htexts, h⟩ := bind_eq_ok h
    cases h
    rw [hcase, Term.names, unbroken_append] at hbody
    have hof : HasLastLine " of" := ⟨.char 'f', rfl, by decide⟩
    have htexts := hasLastLine_alternatives hbody.2 htexts
    apply HasLastLine.join
    rw [List.forall_mem_cons]
    refine ⟨hof.append_left _, ?_⟩
    intro line hline
    obtain ⟨u, hu, rfl⟩ := List.mem_map.1 hline
    exact (htexts u hu).append_left _
  · obtain ⟨bodyText, hbodyText, h⟩ := bind_eq_ok h
    cases h
    have hequals : HasLastLine " = " := ⟨.char ' ', rfl, by decide⟩
    exact (hequals.append_left _).append_right (feed_not_mem_term hbody hbodyText)

private theorem hasLastLine_declaration {d : Declaration} (hnames : Unbroken d.names) {text : Text}
    (h : declaration d = .ok text) : HasLastLine text := by
  obtain ⟨signatureText, _, h⟩ := bind_eq_ok h
  obtain ⟨clauseText, hclause, h⟩ := bind_eq_ok h
  cases h
  exact ((hasLastLine_clause hnames hclause).append_left _).append_left _

private theorem strays_sources {ds : List Declaration} {sources : List Text}
    (hnames : ∀ d ∈ ds, Unbroken d.names)
    (h : List.Forall₂ (fun d source => declaration d = .ok source) ds sources) :
    sources.flatMap strays = verbatim (ds.flatMap Declaration.strings) := by
  induction h with
  | nil => rfl
  | cons hd _ ih =>
      rw [List.forall_mem_cons] at hnames
      have hhead := strays_declaration hnames.1 hd
      have htail := ih hnames.2
      rw [List.flatMap_cons, List.flatMap_cons, verbatim_append, hhead, htail]

private theorem hasLastLine_sources {ds : List Declaration} {sources : List Text}
    (hnames : ∀ d ∈ ds, Unbroken d.names)
    (h : List.Forall₂ (fun d source => declaration d = .ok source) ds sources) :
    ∀ source ∈ sources, HasLastLine source := by
  induction h with
  | nil => simp
  | cons hd _ ih =>
      rw [List.forall_mem_cons] at hnames ⊢
      exact ⟨hasLastLine_declaration hnames.1 hd, ih hnames.2⟩

variable {ds : List Declaration} {sources : List Text}

private theorem strays_members (hnames : ∀ d ∈ ds, Unbroken d.names)
    (h : ds.mapM declaration = .ok sources) :
    strays (Text.join "\n\n" sources) = verbatim (ds.flatMap Declaration.strings) := by
  have hblank : strays "\n\n" = [] := rfl
  rw [← strays_sources hnames (mapM_eq_ok h)]
  exact Text.filter_join hblank sources

private theorem getLast?_members (hnames : ∀ d ∈ ds, Unbroken d.names)
    (h : ds.mapM declaration = .ok sources) :
    (Text.join "\n\n" sources).getLast? ≠ some (.char '\n') := by
  have hlast := hasLastLine_sources hnames (mapM_eq_ok h)
  cases sources with
  | nil => simp [Text.join]
  | cons source sources => exact (HasLastLine.join hlast _).getLast?_ne

/-- The line in front of the declarations of a namespace. -/
def heading (space : Text) : Text := "namespace " ++ space ++ "\n"

private theorem block_eq_ok {g : Group} {text : Text} (h : block g = .ok text) :
    ∃ sources, g.members.mapM declaration = .ok sources ∧
      (g.space = none → text = Text.join "\n\n" sources) ∧
      ∀ space ∈ g.space, text = heading space ++ laidOut (Text.join "\n\n" sources) := by
  obtain ⟨membersText, hmembers, h⟩ := bind_eq_ok h
  obtain ⟨sources, hsources, hmembers⟩ := bind_eq_ok hmembers
  cases hmembers
  refine ⟨sources, hsources, ?_⟩
  split at h
  · rename_i hspace
    cases h
    simp [hspace]
  · rename_i space hspace
    cases h
    simp [hspace, laidOut, heading]

/-- A module is the blocks of its namespaces in order. Below its heading, a block is the source
texts of the declarations of its namespace, indented, and they come back when the indentation is
taken away, exactly if no string literal of theirs shows a line separator. -/
theorem moduleText_keeps_sources_iff {text : Text} (hnames : ∀ d ∈ ds, Unbroken d.names)
    (h : moduleText ds = .ok text) :
    ∃ blocks, text = Text.join "\n\n" blocks ++ "\n" ∧
      List.Forall₂
        (fun space block => ∃ sources,
          (ds.filter (·.space = space)).mapM declaration = .ok sources ∧
          (space = none → block = Text.join "\n\n" sources) ∧
          ∀ name ∈ space, ∃ body, block = heading name ++ body ∧
            (body = indented (Text.join "\n\n" sources) ↔
              verbatim ((ds.filter (·.space = space)).flatMap Declaration.strings) = []) ∧
            (unindented body = Text.join "\n\n" sources ↔
              verbatim ((ds.filter (·.space = space)).flatMap Declaration.strings) = []))
        (firstSpaces ds) blocks := by
  obtain ⟨blocks, hblocks, h⟩ := bind_eq_ok h
  cases h
  refine ⟨blocks, rfl, ?_⟩
  rw [groups_eq] at hblocks
  have hblocks := List.forall₂_map_left_iff.1 (mapM_eq_ok hblocks)
  refine hblocks.imp ?_
  intro space block hblock
  obtain ⟨sources, hsources, hnone, hsome⟩ := block_eq_ok hblock
  have hmembers : ∀ d ∈ ds.filter (·.space = space), Unbroken d.names := by
    intro d hd
    exact hnames d (List.mem_filter.1 hd).1
  have hstrays := strays_members hmembers hsources
  have hlast := getLast?_members hmembers hsources
  refine ⟨sources, hsources, hnone, ?_⟩
  intro name hname
  refine ⟨_, hsome name hname, ?_, ?_⟩
  · rw [laidOut_eq_indented_iff hlast, hstrays]
  · rw [unindented_laidOut_iff hlast, hstrays]

/-- A string constant of a namespace. -/
def motto (value : Text) : Declaration where
  name := "motto"
  space := some "Shop"
  visibility := .exported
  signature := .var "String"
  arguments := []
  body := .lit (.str value)

private theorem unbroken_motto (value : Text) : Unbroken (motto value).names := by
  have hnames : (motto value).names = (motto "").names := rfl
  rw [hnames]
  unfold Unbroken
  decide

theorem moduleText_keeps_sources_mottos :
    (∃ source body, declaration (motto "always open") = .ok source ∧
      moduleText [motto "always open"] = .ok (heading "Shop" ++ body ++ "\n") ∧
      body = indented source ∧ unindented body = source) ∧
    ∃ source body, declaration (motto "always\u2028open") = .ok source ∧
      moduleText [motto "always\u2028open"] = .ok (heading "Shop" ++ body ++ "\n") ∧
      body ≠ indented source ∧ unindented body ≠ source := by
  have hmotto (value : Text) : ∃ source body, declaration (motto value) = .ok source ∧
      moduleText [motto value] = .ok (heading "Shop" ++ body ++ "\n") ∧
      (body = indented source ↔ verbatim [value] = []) ∧
      (unindented body = source ↔ verbatim [value] = []) := by
    have hnames : ∀ d ∈ [motto value], Unbroken d.names := by
      intro d hd
      rw [List.mem_singleton.1 hd]
      exact unbroken_motto value
    have h : moduleText [motto value] = .ok _ := rfl
    obtain ⟨blocks, htext, hblocks⟩ := moduleText_keeps_sources_iff hnames h
    cases hblocks with
    | cons hblock hrest =>
        cases hrest
        obtain ⟨sources, hsources, _, hsome⟩ := hblock
        cases hsources
        obtain ⟨body, rfl, hindented, hunindented⟩ := hsome "Shop" rfl
        refine ⟨_, body, rfl, ?_, hindented, hunindented⟩
        rw [h, htext]
        rfl
  constructor
  · obtain ⟨source, body, hsource, hmodule, hindented, hunindented⟩ := hmotto "always open"
    exact ⟨source, body, hsource, hmodule, hindented.2 (by decide), hunindented.2 (by decide)⟩
  · obtain ⟨source, body, hsource, hmodule, hindented, hunindented⟩ := hmotto "always\u2028open"
    refine ⟨source, body, hsource, hmodule, ?_, ?_⟩
    · rw [Ne, hindented]
      decide
    · rw [Ne, hunindented]
      decide

/-- A line separator in a string literal is replaced by a line feed and an indentation. -/
theorem block_loses_line_separator :
    Unbroken (motto "always\u2028open").names ∧
    ∃ source body, declaration (motto "always\u2028open") = .ok source ∧
      moduleText [motto "always\u2028open"] = .ok (heading "Shop" ++ body ++ "\n") ∧
      body ≠ indented source ∧ unindented body ≠ source := by
  have hnames : Unbroken (motto "always\u2028open").names := unbroken_motto _
  have hbody : moduleText [motto "always\u2028open"] = .ok (heading "Shop" ++
      ("  export\n  motto : String\n  motto = \"always\n  open\"" : Text) ++ "\n") := rfl
  refine ⟨hnames, _, _, rfl, hbody, ?_, ?_⟩
  · decide
  · decide

end Source
end RefinementTypes
