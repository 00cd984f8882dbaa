import RefinementTypes.Proofs.Source.Grouping
import RefinementTypes.Proofs.Declaration.Leaves
import RefinementTypes.Proofs.Text.Whole

/-!
# Whole source text

Source text is whole exactly if all names and string literals are that it is made from: everything
else in it are characters, and no leaf is left out.
-/

namespace RefinementTypes
namespace Source

@[simp]
private theorem isWhole_parenthesize (wrap : Bool) (text : Text) :
    (parenthesize wrap text).isWhole = text.isWhole := by
  cases wrap <;> simp [parenthesize]

@[simp]
private theorem isWhole_argument (info : Explicitness) (text : Text) :
    (argument info text).isWhole = text.isWhole := by
  cases info <;> simp [argument]

private theorem isWhole_binder (name : Option Text) (m : Multiplicity) (info : Explicitness)
    (type : Text) :
    (binder name m info type).isWhole = (name.toList.all Text.isWhole && type.isWhole) := by
  have hquantity : (quantity m).isWhole = true := by cases m <;> rfl
  cases name <;> cases info <;> simp [binder, hquantity]

private theorem isWhole_pattern (nested : Bool) (p : Pattern) :
    (pattern nested p).isWhole = p.names.all Text.isWhole := by
  induction p using Pattern.inductionOn generalizing nested with
  | con name args ih =>
      have hargs : (nestedPatterns args).all Text.isWhole =
          (Pattern.namesAll args).all Text.isWhole := by
        clear name
        induction args with
        | nil => rfl
        | cons q qs ihq =>
            rw [List.forall_mem_cons] at ih
            simp [nestedPatterns, Pattern.namesAll, ih.1, ihq ih.2]
      cases args with
      | nil => simp [pattern, Pattern.names, Pattern.namesAll]
      | cons q qs =>
          rw [nestedPatterns] at hargs
          simp [pattern, Pattern.names, Text.isWhole_join, hargs]
  | bind name => simp [pattern, Pattern.names]
  | wild => simp [pattern, Pattern.names]

private theorem isWhole_literal {p : Position} {value : Literal} {text : Text}
    (h : literal p value = .ok text) : text.isWhole = (Leaf.literal value).isWhole := by
  cases value with
  | int i =>
      cases h
      simp [number, Leaf.isWhole]
  | float x =>
      cases x with
      | finite negative rank =>
          cases h
          simp [number, Leaf.isWhole, Text.isWhole_ofChars]
      | _ => cases h
  | str s =>
      cases h
      simp [Leaf.isWhole]

private theorem isWhole_alternatives {alternatives : List (Pattern × Term)} {texts : List Text}
    (ih : ∀ a ∈ alternatives, ∀ text, term .top a.2 = .ok text →
      text.isWhole = a.2.leaves.all Leaf.isWhole)
    (h : alternativesText alternatives = .ok texts) :
    texts.all Text.isWhole = (Term.leavesIn alternatives).all Leaf.isWhole := by
  induction alternatives generalizing texts with
  | nil =>
      cases h
      rfl
  | cons a rest ihr =>
      obtain ⟨p, body⟩ := a
      obtain ⟨bodyText, hbody, h⟩ := bind_eq_ok h
      obtain ⟨restTexts, hrest, h⟩ := bind_eq_ok h
      cases h
      rw [List.forall_mem_cons] at ih
      simp [Term.leavesIn, isWhole_pattern, ih.1 bodyText hbody, ihr ih.2 hrest, Bool.and_assoc]

private theorem isWhole_term {p : Position} {t : Term} {text : Text} (h : term p t = .ok text) :
    text.isWhole = t.leaves.all Leaf.isWhole := by
  induction t using Term.inductionOn generalizing p text with
  | var name =>
      cases h
      simp [Term.leaves, Leaf.isWhole]
  | param index =>
      cases h
      simp [Term.leaves, Leaf.isWhole]
  | app fn arg info ihf iha =>
      obtain ⟨fnText, hfn, h⟩ := bind_eq_ok h
      obtain ⟨argText, harg, h⟩ := bind_eq_ok h
      cases h
      simp [Term.leaves, ihf hfn, iha harg]
  | lit value => simpa [Term.leaves] using isWhole_literal h
  | hole =>
      cases h
      simp [Term.leaves]
  | pi name m info domain result ihd ihr =>
      obtain ⟨domainText, hdomain, h⟩ := bind_eq_ok h
      obtain ⟨resultText, hresult, h⟩ := bind_eq_ok h
      cases h
      have hleft : (if isPlainDomain name m info then domainText
          else binder name m info domainText).isWhole =
            (name.toList.all Text.isWhole && domain.leaves.all Leaf.isWhole) := by
        split
        · rename_i hplain
          simp only [isPlainDomain, Bool.and_eq_true, Option.isNone_iff_eq_none] at hplain
          simp [hplain.1.1, ihd hdomain]
        · rw [isWhole_binder, ihd hdomain]
      simp [Term.leaves, hleft, ihr hresult, Bool.and_assoc]
  | case scrutinee alternatives ihs iha =>
      obtain ⟨texts, htexts, h⟩ := bind_eq_ok h
      obtain ⟨scrutineeText, hscrutinee, h⟩ := bind_eq_ok h
      cases h
      have halternatives := isWhole_alternatives (fun a ha text h => iha a ha h) htexts
      simp [Term.leaves, ihs hscrutinee, Text.isWhole_join, halternatives]

variable {d : Declaration} {text : Text}

theorem isWhole_signature (h : signature d = .ok text) :
    text.isWhole = (d.name.isWhole && d.signature.leaves.all Leaf.isWhole) := by
  obtain ⟨type, htype, h⟩ := bind_eq_ok h
  cases h
  simp [isWhole_term htype]

theorem isWhole_clause (h : clause d = .ok text) :
    text.isWhole = (d.name.isWhole && d.arguments.all Text.isWhole &&
      d.body.leaves.all Leaf.isWhole) := by
  have hleft : (Text.join " " (d.name :: d.arguments)).isWhole =
      (d.name.isWhole && d.arguments.all Text.isWhole) := by
    rw [Text.isWhole_join rfl, List.all_cons]
  rw [clause] at h
  split at h
  · rename_i scrutinee alternatives hbody
    obtain ⟨scrutineeText, hscrutinee, h⟩ := bind_eq_ok h
    obtain ⟨texts, htexts, h⟩ := bind_eq_ok h
    cases h
    have halternatives := isWhole_alternatives (fun a _ _ h => isWhole_term h) htexts
    have hindented : (texts.map (indent ++ ·)).all Text.isWhole = texts.all Text.isWhole := by
      simp [List.all_map, Function.comp_def, indent]
    rw [Text.isWhole_join rfl, List.all_cons, hindented, halternatives, hbody]
    simp [hleft, isWhole_term hscrutinee, Term.leaves, Bool.and_assoc]
  · obtain ⟨body, hbody, h⟩ := bind_eq_ok h
    cases h
    simp [hleft, isWhole_term hbody]

theorem isWhole_declaration (h : declaration d = .ok text) :
    text.isWhole = d.leaves.all Leaf.isWhole := by
  obtain ⟨signatureText, hsignature, h⟩ := bind_eq_ok h
  obtain ⟨clauseText, hclause, h⟩ := bind_eq_ok h
  cases h
  have hname : (Leaf.name d.name).isWhole = d.name.isWhole := rfl
  rw [Text.isWhole_join rfl]
  simp only [List.all_cons, List.all_nil, List.all_append, List.all_map, Leaf.isWhole_comp_name,
    Visibility.isWhole_spelling, isWhole_signature hsignature, isWhole_clause hclause,
    Declaration.leaves, hname]
  cases d.name.isWhole <;> simp [Bool.and_assoc, Bool.and_left_comm]

variable {ds : List Declaration}

private theorem isWhole_members (h : members ds = .ok text) :
    text.isWhole = true ↔ ∀ d ∈ ds, d.leaves.all Leaf.isWhole = true := by
  obtain ⟨texts, htexts, h⟩ := bind_eq_ok h
  cases h
  rw [Text.isWhole_join rfl, List.all_eq_true]
  refine forall_mem_iff (mapM_eq_ok htexts) fun d t ht => ?_
  rw [isWhole_declaration ht]

private theorem isWhole_block {g : Group} (h : block g = .ok text) :
    text.isWhole = true ↔ (∀ space ∈ g.space, space.isWhole = true) ∧
      ∀ d ∈ g.members, d.leaves.all Leaf.isWhole = true := by
  obtain ⟨inner, hinner, h⟩ := bind_eq_ok h
  rw [← isWhole_members hinner]
  cases hspace : g.space with
  | none =>
      rw [hspace] at h
      cases h
      simp
  | some space =>
      rw [hspace] at h
      cases h
      have hindent : Text.isWhole ∘ indentLine = Text.isWhole := by
        funext line
        simp only [Function.comp_apply, indentLine]
        split <;> simp [indent]
      simp [Text.isWhole_join, List.all_map, hindent, Text.isWhole_lines]

theorem isWhole_moduleText (h : moduleText ds = .ok text) :
    text.isWhole = true ↔ ∀ d ∈ ds, (∀ space ∈ d.space, space.isWhole = true) ∧
      d.leaves.all Leaf.isWhole = true := by
  obtain ⟨blocks, hblocks, h⟩ := bind_eq_ok h
  cases h
  rw [Text.isWhole_append, Text.isWhole_join rfl, Text.isWhole_ofString, Bool.and_true,
    List.all_eq_true, forall_mem_iff (mapM_eq_ok hblocks) fun _ _ hblock => isWhole_block hblock,
    groups_eq]
  simp only [List.forall_mem_map, groupOf, mem_firstSpaces, List.mem_filter]
  constructor
  · intro hgroups d hd
    obtain ⟨hspace, hmembers⟩ := hgroups d.space ⟨d, hd, rfl⟩
    exact ⟨hspace, hmembers d ⟨hd, by simp⟩⟩
  · rintro hall _ ⟨d, hd, rfl⟩
    exact ⟨(hall d hd).1, fun c hc => (hall c hc.1).2⟩

end Source
end RefinementTypes
