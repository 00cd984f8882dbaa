import RefinementTypes.Proofs.Declaration.Leaves
import RefinementTypes.Proofs.Source.Grouping

/-!
# What has source text

Writing fails for one reason only: some double in what is written is not finite. All doubles count,
those in binders and in implicit arguments too.
-/

namespace RefinementTypes
namespace Source

/-- What comes of writing something with the given doubles: a result if all of them are finite, or
the failure of one that is not. -/
inductive Writes (xs : List Binary64) {α : Type} : Except TermFailure α → Prop
  | ok (h : ∀ x ∈ xs, x.isFinite = true) (a : α) : Writes xs (.ok a)
  | error {x : Binary64} (hx : x ∈ xs) (h : x.isFinite = false) :
      Writes xs (.error (.unwritable x))

namespace Writes
variable {α β : Type} {xs ys : List Binary64} {r : Except TermFailure α}

theorem pure (a : α) : Writes [] (.ok a) := .ok (by simp) a

theorem isOk (h : Writes xs r) (hfinite : ∀ x ∈ xs, x.isFinite = true) : ∃ a, r = .ok a := by
  cases h with
  | ok _ a => exact ⟨a, rfl⟩
  | error hx hinfinite =>
      rw [hfinite _ hx] at hinfinite
      cases hinfinite

theorem congr (h : Writes xs r) (hxs : ∀ x, x ∈ xs ↔ x ∈ ys) : Writes ys r := by
  cases h with
  | ok hfinite a => exact .ok (fun x hx => hfinite x ((hxs x).2 hx)) a
  | error hx hinfinite => exact .error ((hxs _).1 hx) hinfinite

theorem bind (h : Writes xs r) {f : α → Except TermFailure β} (hf : ∀ a, Writes ys (f a)) :
    Writes (xs ++ ys) (r >>= f) := by
  cases h with
  | ok hfinite a =>
      have hstep : (Except.ok a : Except TermFailure α) >>= f = f a := rfl
      have hs := hf a
      rw [hstep]
      generalize f a = s at hs ⊢
      cases hs with
      | ok hfinite' b => exact .ok (List.forall_mem_append.2 ⟨hfinite, hfinite'⟩) b
      | error hx hinfinite => exact .error (List.mem_append_right xs hx) hinfinite
  | error hx hinfinite => exact .error (List.mem_append_left ys hx) hinfinite

theorem mapM {f : α → Except TermFailure β} {doublesOf : α → List Binary64} {as : List α}
    (h : ∀ a ∈ as, Writes (doublesOf a) (f a)) :
    Writes (as.flatMap doublesOf) (as.mapM f) := by
  induction as with
  | nil => exact .pure []
  | cons a as ih =>
      rw [List.forall_mem_cons] at h
      rw [List.mapM_cons, List.flatMap_cons, ← List.append_nil (as.flatMap doublesOf)]
      exact h.1.bind fun b => (ih h.2).bind fun bs => .pure (b :: bs)

end Writes

private theorem writes_literal (p : Position) (value : Literal) :
    Writes (doubles [.literal value]) (literal p value) := by
  cases value with
  | float x =>
      cases x with
      | finite negative rank => exact .ok (by simp [doubles, Binary64.isFinite]) _
      | _ => exact .error (mem_doubles.2 (by simp)) rfl
  | _ => exact .ok (by simp [doubles]) _

private theorem writes_alternatives {alternatives : List (Pattern × Term)}
    (ih : ∀ a ∈ alternatives, ∀ p, Writes (doubles a.2.leaves) (term p a.2)) :
    Writes (doubles (Term.leavesIn alternatives)) (alternativesText alternatives) := by
  induction alternatives with
  | nil => exact .pure []
  | cons a rest ihr =>
      obtain ⟨pattern, body⟩ := a
      rw [List.forall_mem_cons] at ih
      refine .congr (.bind (ih.1 .top) fun _ => .bind (ihr ih.2) fun _ => .pure _) ?_
      simp [Term.leavesIn, doubles_append, doubles_map_name]

theorem writes_term (p : Position) (t : Term) : Writes (doubles t.leaves) (term p t) := by
  induction t using Term.inductionOn generalizing p with
  | var name => exact .pure name
  | param index => exact .pure _
  | app fn arg info ihf iha =>
      refine .congr (.bind (ihf .head) fun _ => .bind (iha _) fun _ => .pure _) ?_
      simp [Term.leaves, doubles_append]
  | lit value => exact writes_literal p value
  | hole => exact .pure _
  | pi name m info domain result ihd ihr =>
      refine .congr (.bind (ihd _) fun _ => .bind (ihr .top) fun _ => .pure _) ?_
      simp [Term.leaves, doubles_append, doubles_map_name]
  | case scrutinee alternatives ihs iha =>
      refine .congr (.bind (writes_alternatives iha) fun _ => .bind (ihs .top) fun _ => .pure _) ?_
      simp [Term.leaves, doubles_append, or_comm]

theorem writes_signature (d : Declaration) :
    Writes (doubles d.signature.leaves) (signature d) := by
  refine .congr (.bind (writes_term .top d.signature) fun _ => .pure _) ?_
  simp

theorem writes_clause (d : Declaration) : Writes (doubles d.body.leaves) (clause d) := by
  rw [clause]
  split
  · rename_i scrutinee alternatives hbody
    have halternatives := writes_alternatives fun a (_ : a ∈ alternatives) p => writes_term p a.2
    refine .congr (.bind (writes_term .top scrutinee) fun _ => .bind halternatives fun _ =>
      .pure _) ?_
    simp [hbody, Term.leaves, doubles_append]
  · refine .congr (.bind (writes_term .top d.body) fun _ => .pure _) ?_
    simp

theorem doubles_declaration (d : Declaration) :
    doubles d.leaves = doubles d.signature.leaves ++ doubles d.body.leaves := by
  have hname : doubles (.name d.name :: d.arguments.map .name) = [] := doubles_map_name (_ :: _)
  rw [Declaration.leaves, doubles_append, doubles_append, hname, List.nil_append]

theorem writes_declaration (d : Declaration) : Writes (doubles d.leaves) (declaration d) := by
  refine .congr (.bind (writes_signature d) fun _ => .bind (writes_clause d) fun _ => .pure _) ?_
  simp [doubles_declaration]

private theorem writes_block (g : Group) :
    Writes (g.members.flatMap fun d => doubles d.leaves) (block g) := by
  have hmembers : Writes (g.members.flatMap fun d => doubles d.leaves) (members g.members) := by
    refine .congr (.bind (.mapM fun d _ => writes_declaration d) fun _ => .pure _) ?_
    simp
  rw [block]
  cases g.space with
  | none =>
      refine .congr (.bind hmembers fun _ => .pure _) ?_
      simp
  | some space =>
      refine .congr (.bind hmembers fun _ => .pure _) ?_
      simp

theorem writes_moduleText (ds : List Declaration) :
    Writes (ds.flatMap fun d => doubles d.leaves) (moduleText ds) := by
  refine .congr (.bind (.mapM fun g _ => writes_block g) fun _ => .pure _) fun x => ?_
  simp only [List.append_nil, groups_eq, List.flatMap_map, List.mem_flatMap, groupOf,
    List.mem_filter, mem_firstSpaces]
  constructor
  · rintro ⟨_, _, d, ⟨hd, _⟩, hx⟩
    exact ⟨d, hd, hx⟩
  · rintro ⟨d, hd, hx⟩
    exact ⟨d.space, ⟨d, hd, rfl⟩, d, ⟨hd, by simp⟩, hx⟩

end Source
end RefinementTypes
