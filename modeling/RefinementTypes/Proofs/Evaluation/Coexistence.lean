import RefinementTypes.Proofs.Declaration.Batch
import RefinementTypes.Proofs.Evaluation.Refine

/-!
# Types side by side

The companions of several types link exactly when the types have different names, and the functions
of the program are then the companions, each under its own qualified name.
-/

namespace RefinementTypes
namespace Program

/-- The qualified names of the functions of a program, in the order of the declarations. -/
def functionNames {Host : Type} (p : Program Host) : List Text :=
  p.declarations.map Declaration.qualifiedName

/-- Whatever dots there are in the names of types, their companions link exactly when these names
are different. The functions are then known by all the qualified names, each once and in order. A
name that comes again is reported for the first declaration that is not the only one of it. -/
theorem link_derived {v : Vocabulary} (hnames : v.companionNames.Nodup)
    (hdots : ∀ x ∈ v.companionNames, dot ∉ x) {batch : List (Strategy × TypeDescriptor)}
    (haccepted : ∀ b ∈ batch, ∃ r, b.2.refinement = .ok r) (visibility : Visibility)
    {Host : Type} (e : Environment Host) :
    ∃ ds, deriveAll v visibility batch = .ok ds ∧
      ((∃ p, link e ds = .ok p) ↔ (batch.map fun b => b.2.name).Nodup) ∧
      (∀ p, link e ds = .ok p → p.functionNames = ds.map Declaration.qualifiedName ∧
        p.functionNames.Nodup) ∧
      (¬ (batch.map fun b => b.2.name).Nodup →
        ∃ before d after, ds = before ++ d :: after ∧
          (before.map Declaration.qualifiedName).Nodup ∧
          d.qualifiedName ∈ before.map Declaration.qualifiedName ∧
          link e ds = .error (.duplicate d.qualifiedName)) := by
  obtain ⟨ds, hds⟩ := deriveAll_isOk haccepted v visibility
  have hiff := qualifiedNames_nodup_iff hnames hdots haccepted hds
  have hkeys (p : Program Host) (h : link e ds = .ok p) :
      p.functionNames = ds.map Declaration.qualifiedName := by
    rw [functionNames, (link_eq_ok h).2]
  have hlinks : (∃ p, link e ds = .ok p) ↔ (batch.map fun b => b.2.name).Nodup := by
    rw [← hiff]
    constructor
    · rintro ⟨p, hp⟩
      exact hkeys p hp ▸ p.distinct
    · exact link_isOk
  refine ⟨ds, hds, hlinks, fun p hp => ⟨hkeys p hp, p.distinct⟩, fun hrepeated => ?_⟩
  cases hlink : link e ds with
  | ok p => exact absurd (hlinks.1 ⟨p, hlink⟩) hrepeated
  | error failure =>
      obtain ⟨before, d, after, hsplit, hnodup, hmem, rfl⟩ := link_eq_error hlink
      exact ⟨before, d, after, hsplit, hnodup, hmem, rfl⟩

/-- Nicknames under a name with a dot, and under no name at all: their qualified names are
different. Two types of one name are refused at the second `refine`. -/
theorem link_derived_nicknames :
    (∃ ds p, deriveAll {} .exported
        [(.stringLiterals, { Refinement.nickname with name := "A.refine" }),
          (.plain, { Refinement.nickname with name := "" })] = .ok ds ∧
      link nicknameHost ds = .ok p ∧
      p.functionNames = ["A.refine.refine", "A.refine.fromString", "refine"]) ∧
    ∃ ds before d after, deriveAll {} .exported [(.plain, Refinement.nickname),
        (.stringLiterals, Refinement.nickname)] = .ok ds ∧ ds = before ++ d :: after ∧
      d.qualifiedName = ("Nickname.refine" : Text) ∧
      d.qualifiedName ∈ before.map Declaration.qualifiedName ∧
      link nicknameHost ds = .error (.duplicate d.qualifiedName) := by
  have hnames : ({} : Vocabulary).companionNames.Nodup := by decide
  have hdots : ∀ x ∈ ({} : Vocabulary).companionNames, dot ∉ x := by decide
  constructor
  · have haccepted : ∀ b ∈ [(Strategy.stringLiterals,
          { Refinement.nickname with name := "A.refine" }),
          (.plain, { Refinement.nickname with name := "" })], ∃ r, b.2.refinement = .ok r :=
      List.forall_mem_cons.2 ⟨⟨_, rfl⟩, List.forall_mem_singleton.2 ⟨_, rfl⟩⟩
    obtain ⟨ds, hds, hlinks, hkeys, -⟩ := link_derived hnames hdots haccepted .exported nicknameHost
    obtain ⟨p, hp⟩ := hlinks.2 (by decide)
    refine ⟨ds, p, hds, hp, (hkeys p hp).1.trans ?_⟩
    cases hds
    rfl
  · have haccepted : ∀ b ∈ [(Strategy.plain, Refinement.nickname),
          (.stringLiterals, Refinement.nickname)], ∃ r, b.2.refinement = .ok r :=
      List.forall_mem_cons.2 ⟨⟨_, rfl⟩, List.forall_mem_singleton.2 ⟨_, rfl⟩⟩
    obtain ⟨ds, hds, -, -, hrepeated⟩ := link_derived hnames hdots haccepted .exported nicknameHost
    obtain ⟨before, d, after, hsplit, hnodup, hmem, hlink⟩ := hrepeated (by decide)
    have hfound : link nicknameHost ds = .error (.duplicate "Nickname.refine") := by
      cases hds
      rfl
    have hname : d.qualifiedName = "Nickname.refine" :=
      EvaluationFailure.duplicate.inj (Except.error.inj (hlink.symm.trans hfound))
    exact ⟨ds, before, d, after, hds, hsplit, hname, hmem, hlink⟩

end Program
end RefinementTypes
