import RefinementTypes.Proofs.Service.Derivation

/-!
# Answers that can be sent

An answer cannot be sent when a surrogate stands alone in a text that it shows. Those texts are the
ones of the request that reach a companion, or that say why there is none.
-/

namespace RefinementTypes

/-- The value that a reason names. -/
def Mismatch.value? : Mismatch → Option Text
  | noProof value => some value
  | paramAfterValue value => some value
  | proofNotApplication value => some value
  | proofOfOtherArgument value => some value
  | _ => none

/-- The value that the message about an obstacle names. -/
def Obstacle.value? : Obstacle → Option Text
  | mismatch m => m.value?
  | _ => none

/-- The names that settings give to generated code. -/
def Settings.names (s : Settings) : List Text :=
  [s.decideFunction, s.refineName, s.maybeType, s.yesConstructor, s.noConstructor]

private theorem Mismatch.isWhole_reason (m : Mismatch) :
    m.reason.isWhole = m.value?.toList.all Text.isWhole := by
  have hexplicitness (found : Explicitness) : (Spelled.spelling found).isWhole = true := by
    cases found <;> rfl
  have hmultiplicity (found : Multiplicity) : (Spelled.spelling found).isWhole = true := by
    cases found <;> rfl
  cases m <;> simp [reason, value?, hexplicitness, hmultiplicity]

private theorem Rejection.isWhole_message (rejection : Rejection) :
    rejection.fault.message.isWhole =
      (rejection.typeName.isWhole && rejection.obstacle.value?.toList.all Text.isWhole) := by
  rw [fault_message]
  cases rejection.obstacle with
  | notSingleConstructor count => simp [Obstacle.reason, Obstacle.value?]
  | mismatch m => simp [Obstacle.reason, Obstacle.value?, Mismatch.isWhole_reason]
  | danglingParams indices count =>
      simp [Obstacle.reason, Obstacle.value?, danglingReason, intListText, Text.isWhole_join]

private theorem Rejection.isWhole_code (rejection : Rejection) :
    rejection.fault.code.isWhole = true := by
  obtain ⟨typeName, constructorName, location, obstacle⟩ := rejection
  cases obstacle <;> rfl

private theorem Location.isWhole_text (l : Location) : l.text.isWhole = l.file.isWhole := by
  simp [text]

private theorem Binary64.isWhole_display (x : Binary64) : x.display.isWhole = true := by
  cases x with
  | finite negative rank => exact Text.isWhole_ofChars _
  | infinite negative => cases negative <;> rfl
  | nan => rfl

private theorem Settings.isWhole_vocabulary {s : Settings} (h : ∀ x ∈ s.names, x.isWhole = true) :
    ∀ x ∈ s.vocabulary.names, x.isWhole = true := by
  simp only [names, List.forall_mem_cons] at h
  simp [Vocabulary.names, vocabulary, h]

namespace Service
open Schema (IsName IsReadable)
variable {settings : Settings} {moment : Moment} {path : Text} {request : DerivationRequest}

/-- A request of which every text that its answer shows is whole. -/
inductive Sendable (settings : Settings) (request : DerivationRequest) : Prop
  | rejected {rejection : Rejection} (h : request.descriptor.refinement = .error rejection)
      (hlocation : ∀ l ∈ request.descriptor.location, l.file.isWhole = true)
      (hvalue : ∀ x ∈ rejection.obstacle.value?, x.isWhole = true)
  | unwritable {r : Refinement} (h : request.descriptor.refinement = .ok r)
      (hunwritable : ¬ r.IsWritable)
  | derived {r : Refinement} (h : request.descriptor.refinement = .ok r)
      (hsettings : ∀ x ∈ settings.names, x.isWhole = true)
      (hterms : ∀ t ∈ r.terms, t.leaves.all Leaf.isWhole = true)

private theorem isWhole_names {d : TypeDescriptor} {r : Refinement} (h : d.refinement = .ok r)
    (hd : d.Encodable IsName IsReadable) : ∀ x ∈ r.names, x.isWhole = true := by
  obtain ⟨rfl, hconstructor, _⟩ := TypeDescriptor.refinement_eq_ok h
  have hname := (hd.constructors r.constructor (by simp [hconstructor])).name
  simp only [Refinement.names, List.forall_mem_cons]
  refine ⟨hd.name.2, hname.2, fun x hx => ?_⟩
  obtain ⟨p, hp, rfl⟩ := List.mem_map.1 hx
  exact (hd.params p hp).name.2

/-- The companions are whole exactly if the settings and the terms of the descriptor are. -/
private theorem isWhole_companions_iff {r : Refinement} {ds : List Declaration}
    (h : request.descriptor.refinement = .ok r)
    (hd : request.descriptor.Encodable IsName IsReadable)
    (hderive : derivation settings request = .ok ds) :
    (∀ c ∈ ds, (∀ space ∈ c.space, space.isWhole = true) ∧
      c.leaves.all Leaf.isWhole = true) ↔
      (∀ x ∈ settings.names, x.isWhole = true) ∧
        ∀ t ∈ r.terms, t.leaves.all Leaf.isWhole = true := by
  have hnames := isWhole_names h hd
  have hparams : ∀ x ∈ r.descriptor.paramNames, x.isWhole = true := fun x hx =>
    hnames x (by simp [Refinement.names, hx])
  constructor
  -- All names of the settings and all terms are in `refine`, so that alone says enough.
  · intro hwhole
    obtain ⟨refine, conversions, hrefine, _, rfl⟩ := derive_eq_ok h hderive
    have hleaves := List.all_eq_true.1 (hwhole refine List.mem_cons_self).2
    constructor
    · intro x hx
      exact hleaves _ (Refinement.vocabulary_mem_refine hrefine x hx)
    · intro t ht
      obtain ⟨u, hu, hsubset⟩ := Refinement.leaves_subset_refine hrefine ht
      rw [← Term.isWhole_instantiate hu hparams, List.all_eq_true]
      exact fun leaf hleaf => hleaves leaf (hsubset hleaf)
  · rintro ⟨hsettings, hterms⟩ c hc
    constructor
    · rw [Refinement.space_companion h hderive hc]
      rintro _ ⟨⟩
      exact hd.name.2
    · rw [List.all_eq_true]
      intro leaf hleaf
      exact (Refinement.origin_companion h hderive hc leaf hleaf).isWhole
        (Settings.isWhole_vocabulary hsettings) hnames hterms

theorem rejectionFault_context (request : DerivationRequest) (rejection : Rejection) :
    (rejectionFault request rejection).context =
      ⟨some rejection.typeName, rejection.constructorName,
        some (Spelled.spelling request.strategy), rejection.location⟩ := by
  rw [rejectionFault, rejection.fault_context]

private theorem sendingFailure?_rejected {rejection : Rejection}
    (h : request.descriptor.refinement = .error rejection)
    (hd : request.descriptor.Encodable IsName IsReadable)
    (htime : moment.timestamp.isWhole = true) :
    sendingFailure? ⟨422, some ((rejectionFault request rejection).envelope moment.timestamp)⟩ =
      none ↔ (∀ l ∈ request.descriptor.location, l.file.isWhole = true) ∧
        ∀ x ∈ rejection.obstacle.value?, x.isWhole = true := by
  have hcode : (rejectionFault request rejection).code.isWhole = true := rejection.isWhole_code
  have hmessage : (rejectionFault request rejection).message.isWhole =
      (rejection.typeName.isWhole && rejection.obstacle.value?.toList.all Text.isWhole) :=
    rejection.isWhole_message
  have hcontext := rejectionFault_context request rejection
  obtain ⟨constructorName, obstacle, rfl, hconstructor⟩ :=
    TypeDescriptor.refinement_eq_error h
  have htype : request.descriptor.name.isWhole = true := hd.name.2
  have hname : constructorName.toList.all Text.isWhole = true := by
    rw [List.all_eq_true]
    intro x hx
    obtain ⟨c, hc, rfl⟩ := hconstructor x (Option.mem_toList.1 hx)
    exact (hd.constructors c hc).name.2
  have hlocation : (request.descriptor.location.map Location.text).toList.all Text.isWhole = true ↔
      ∀ l ∈ request.descriptor.location, l.file.isWhole = true := by
    cases request.descriptor.location <;> simp [Location.isWhole_text]
  rw [sendingFailure?_envelope, isWhole_envelope, hcode, hmessage, htime, hcontext]
  simp only [Context.entries, TypeDescriptor.reject, List.all_cons, List.all_nil,
    Option.toList_some, htype, hname, Strategy.isWhole_spelling, Bool.true_and, Bool.and_true,
    Bool.and_eq_true, hlocation]
  simp [and_comm]

theorem sendingFailure?_eq_none_iff (hd : request.descriptor.Encodable IsName IsReadable)
    (htime : moment.timestamp.isWhole = true) {e : Exchange}
    (h : Answering settings moment path request e) :
    sendingFailure? e.response = none ↔ Sendable settings request := by
  cases h with
  | rejected h =>
      rw [sendingFailure?_rejected h hd htime]
      constructor
      · rintro ⟨hlocation, hvalue⟩
        exact .rejected h hlocation hvalue
      · intro hsendable
        cases hsendable with
        | rejected h' hlocation hvalue =>
            cases h.symm.trans h'
            exact ⟨hlocation, hvalue⟩
        | unwritable h' _ => cases h.symm.trans h'
        | derived h' _ _ => cases h.symm.trans h'
  | @unwritable r h ds hderive t ht x hx hinfinite =>
      -- The envelope names no part of the request, so it can always be sent.
      have hmessage : (TermFailure.unwritable x).fault.message.isWhole = true := by
        simp [TermFailure.fault, Fault.term, TermFailure.message, Binary64.isWhole_display]
      have hunwritable : ¬ r.IsWritable := by
        intro hwritable
        rw [hwritable t ht x hx] at hinfinite
        cases hinfinite
      constructor
      · exact fun _ => .unwritable h hunwritable
      · intro _
        rw [sendingFailure?_envelope, isWhole_envelope, hmessage, htime]
        rfl
  | derived h hderive hwritable hrender =>
      rw [sendingFailure?_result, textFailure?_response hrender,
        isWhole_companions_iff h hd hderive]
      constructor
      · rintro ⟨_, hsettings, hterms⟩
        exact .derived h hsettings hterms
      · intro hsendable
        cases hsendable with
        | rejected h' _ _ => cases h.symm.trans h'
        | unwritable h' hunwritable =>
            cases h.symm.trans h'
            exact absurd hwritable hunwritable
        | derived h' hsettings hterms =>
            cases h.symm.trans h'
            exact ⟨hd.name.2, hsettings, hterms⟩

end Service
end RefinementTypes
