import RefinementTypes.Proofs.Schema.Descriptor
import RefinementTypes.Proofs.Service.Sending
import RefinementTypes.Proofs.Source.Whole
import RefinementTypes.Proofs.Source.Writable
import RefinementTypes.Service.Exchange

/-!
# Answers to derivation requests

A request is answered with the rejection of its descriptor, with a double that has no source text,
or with all companions and their source text.
-/

namespace RefinementTypes

/-- No term of the descriptor holds a double without source text. -/
def Refinement.IsWritable (r : Refinement) : Prop :=
  ∀ t ∈ r.terms, ∀ x ∈ doubles t.leaves, x.isFinite = true

namespace Service
open Source (Writes)

private theorem writes_renderDeclaration (c : Declaration) :
    Writes (doubles c.leaves) (renderDeclaration c) := by
  refine .congr (.bind (Source.writes_signature c) fun _ => .bind (Source.writes_clause c) fun _ =>
    .bind (Source.writes_declaration c) fun _ => .pure _) fun x => ?_
  simp only [Source.doubles_declaration, List.append_nil, List.mem_append]
  tauto

private theorem writes_render (request : DerivationRequest) (ds : List Declaration) :
    Writes (ds.flatMap fun c => doubles c.leaves) (render request ds) := by
  refine .congr (.bind (.mapM fun c _ => writes_renderDeclaration c) fun _ =>
    .bind (Source.writes_moduleText ds) fun _ => .pure _) ?_
  simp

/-- The entry of a declaration in an answer. -/
inductive EntryOf (c : Declaration) : Json → Prop
  | mk {signature clause source : Text} (hsignature : Source.signature c = .ok signature)
      (hclause : Source.clause c = .ok clause) (hsource : Source.declaration c = .ok source) :
      EntryOf c (.object
        [("name", .str c.name), ("namespace", .ofText? c.space),
         ("visibility", .str (Spelled.spelling c.visibility)), ("signature", .str signature),
         ("clause", .str clause), ("source", .str source)])

theorem entryOf_renderDeclaration {c : Declaration} {entry : RenderedDeclaration}
    (h : renderDeclaration c = .ok entry) : EntryOf c entry.json := by
  obtain ⟨signature, hsignature, h⟩ := bind_eq_ok h
  obtain ⟨clause, hclause, h⟩ := bind_eq_ok h
  obtain ⟨source, hsource, h⟩ := bind_eq_ok h
  cases h
  exact .mk hsignature hclause hsource

private theorem EntryOf.textFailure?_eq_none_iff {c : Declaration} {entry : Json}
    (h : EntryOf c entry) :
    textFailure? entry = none ↔
      (∀ space ∈ c.space, space.isWhole = true) ∧ c.leaves.all Leaf.isWhole = true := by
  obtain ⟨hsignature, hclause, hsource⟩ := h
  have hname : (Leaf.name c.name).isWhole = c.name.isWhole := rfl
  simp only [textFailure?_object, List.forall_mem_cons, List.not_mem_nil, false_imp_iff,
    implies_true, textFailure?_str, textFailure?_ofText?, Visibility.isWhole_spelling,
    Source.isWhole_signature hsignature, Source.isWhole_clause hclause,
    Source.isWhole_declaration hsource, Declaration.leaves, List.all_cons, List.all_append,
    List.all_map, Leaf.isWhole_comp_name, hname, Bool.and_eq_true]
  tauto

/-- A result is whole exactly if the type has a whole name and all companions are whole. -/
theorem textFailure?_response {request : DerivationRequest} {ds : List Declaration}
    {response : DerivationResponse} (h : render request ds = .ok response) :
    textFailure? response.json = none ↔ request.descriptor.name.isWhole = true ∧
      ∀ c ∈ ds, (∀ space ∈ c.space, space.isWhole = true) ∧
        c.leaves.all Leaf.isWhole = true := by
  obtain ⟨entries, hentries, h⟩ := bind_eq_ok h
  obtain ⟨moduleText, hmodule, h⟩ := bind_eq_ok h
  cases h
  have hdeclarations : (∀ entry ∈ entries, textFailure? entry.json = none) ↔
      ∀ c ∈ ds, (∀ space ∈ c.space, space.isWhole = true) ∧ c.leaves.all Leaf.isWhole = true :=
    forall_mem_iff (mapM_eq_ok hentries) fun _ _ hentry =>
      (entryOf_renderDeclaration hentry).textFailure?_eq_none_iff
  simp only [DerivationResponse.json, textFailure?_object, List.forall_mem_cons, List.not_mem_nil,
    false_imp_iff, implies_true, textFailure?_str, Strategy.isWhole_spelling, textFailure?_array,
    List.forall_mem_map, hdeclarations, Source.isWhole_moduleText hmodule]
  tauto

/-- The derivation that a request asks for. -/
def derivation (settings : Settings) (request : DerivationRequest) :
    Except DerivationFailure (List Declaration) :=
  derive request.strategy request.descriptor settings.vocabulary
    (request.visibility.getD settings.defaultVisibility)

/-- What answers a request before it is sent. -/
inductive Answering (settings : Settings) (moment : Moment) (path : Text)
    (request : DerivationRequest) : Exchange → Prop
  | rejected {rejection : Rejection} (h : request.descriptor.refinement = .error rejection) :
      Answering settings moment path request
        ⟨⟨422, some ((rejectionFault request rejection).envelope moment.timestamp)⟩,
          [rejectionRecord (rejectionFault request rejection)]⟩
  | unwritable {r : Refinement} (h : request.descriptor.refinement = .ok r)
      {ds : List Declaration} (hderive : derivation settings request = .ok ds)
      {t : Term} (ht : t ∈ r.terms) {x : Binary64} (hx : x ∈ doubles t.leaves)
      (hinfinite : x.isFinite = false) :
      Answering settings moment path request
        ⟨⟨422, some ((TermFailure.unwritable x).fault.envelope moment.timestamp)⟩,
          [successRecord request ds.length, faultRecord path (TermFailure.unwritable x).fault]⟩
  | derived {r : Refinement} (h : request.descriptor.refinement = .ok r)
      {ds : List Declaration} (hderive : derivation settings request = .ok ds)
      (hwritable : r.IsWritable) {response : DerivationResponse}
      (hrender : render request ds = .ok response) :
      Answering settings moment path request
        ⟨⟨200, some response.json⟩, [successRecord request ds.length]⟩

private theorem isDerivation_rejectionFault (request : DerivationRequest) (rejection : Rejection) :
    (rejectionFault request rejection).isDerivation = true := by
  have hkind : (rejectionFault request rejection).kind = rejection.fault.kind := rfl
  rw [Fault.isDerivation, hkind]
  rcases rejection.fault_kind with h | h <;> rw [h] <;> rfl

theorem answering_answerRequest (settings : Settings) (moment : Moment) (path : Text)
    (request : DerivationRequest) :
    Answering settings moment path request (answerRequest settings moment path request) := by
  rw [answerRequest, runDerivation]
  cases hr : request.descriptor.refinement with
  | error rejection =>
      have hstatus : (rejectionFault request rejection).status = 422 := by
        rw [rejectionFault, rejection.fault_eq_ofDerivation]
        rfl
      have hlog := isDerivation_rejectionFault request rejection
      simp only [derive, hr, answerFault, hstatus, hlog, if_true, List.append_nil]
      exact .rejected hr
  | ok r =>
      obtain ⟨ds, refine, conversions, hderive, _⟩ := derive_isOk hr request.strategy
        settings.vocabulary (request.visibility.getD settings.defaultVisibility)
      -- Only companions are written, so their doubles have to be traced back to the descriptor.
      have hdoubles : ∀ x, x ∈ (ds.flatMap fun c => doubles c.leaves) ↔
          ∃ t ∈ r.terms, x ∈ doubles t.leaves := fun x =>
        List.mem_flatMap.trans (Refinement.mem_doubles_companions hr hderive x)
      have hwrites := writes_render request ds
      generalize hrender : render request ds = rendered at hwrites
      simp only [hderive, hrender]
      cases hwrites with
      | ok hfinite response =>
          have hwritable : r.IsWritable := fun t ht x hx => hfinite x ((hdoubles x).2 ⟨t, ht, hx⟩)
          exact .derived hr hderive hwritable hrender
      | error hx hinfinite =>
          obtain ⟨t, ht, hx⟩ := (hdoubles _).1 hx
          exact .unwritable hr hderive ht hx hinfinite

end Service
end RefinementTypes
