import RefinementTypes.Proofs.Service.Body
import RefinementTypes.Proofs.Service.Sendable

/-!
# Exchanges of the service

A derivation request is answered with what the derivation comes to and leaves one log record, as
long as the answer can be sent.
-/

namespace RefinementTypes.Service
variable {settings : Settings} {moment : Moment} {path : Text} {request : DerivationRequest}

def boundedOpening : String :=
  "\x7b\"descriptor\":\x7b\"name\":\"Bounded\",\"constructors\":[" ++
  "\x7b\"name\":\"MkBounded\",\"args\":[\x7b\"kind\":\"named\",\"name\":\"x\"," ++
  "\"type\":\x7b\"kind\":\"var\",\"name\":\"Double\"\x7d\x7d," ++
  "\x7b\"kind\":\"named\",\"type\":\x7b\"kind\":\"app\",\"fn\":\x7b\"kind\":\"app\"," ++
  "\"fn\":\x7b\"kind\":\"var\",\"name\":\"AtMost\"\x7d,\"arg\":\x7b\"kind\":\"lit\",\"value\":"

def boundedEnding : String :=
  "\x7d\x7d,\"arg\":\x7b\"kind\":\"var\",\"name\":\"x\"\x7d\x7d\x7d]\x7d]\x7d\x7d"

/-- A body that asks for the companions of the doubles up to the bound of the given spelling. -/
def boundedBody (bound : String) : String := boundedOpening ++ bound ++ boundedEnding

def boundedValueJson : Json :=
  .object [("kind", .str "named"), ("name", .str "x"),
    ("type", .object [("kind", .str "var"), ("name", .str "Double")])]

def boundedProofJson (bound : Json) : Json :=
  .object [("kind", .str "named"),
    ("type", .object [("kind", .str "app"),
      ("fn", .object [("kind", .str "app"),
        ("fn", .object [("kind", .str "var"), ("name", .str "AtMost")]),
        ("arg", .object [("kind", .str "lit"), ("value", bound)])]),
      ("arg", .object [("kind", .str "var"), ("name", .str "x")])])]

def boundedJson (bound : Json) : Json :=
  .object [("descriptor", .object [("name", .str "Bounded"),
    ("constructors", .array [.object [("name", .str "MkBounded"),
      ("args", .array [boundedValueJson, boundedProofJson bound])]])])]

/-- What is open in front of the bound. -/
def boundedFrames : List Json.Frame :=
  [.members [("kind", .str "lit")] "value",
   .members [("kind", .str "app"),
     ("fn", .object [("kind", .str "var"), ("name", .str "AtMost")])] "arg",
   .members [("kind", .str "app")] "fn", .members [("kind", .str "named")] "type",
   .items [boundedValueJson], .members [("name", .str "MkBounded")] "args", .items [],
   .members [("name", .str "Bounded")] "constructors", .members [] "descriptor"]

def boundedPredicate (bound : Literal) : Term := .app (.var "AtMost") (.lit bound) .explicit

def boundedConstructor (bound : Literal) : Constructor where
  name := "MkBounded"
  args :=
    [.named ⟨some "x", .unrestricted, .explicit, .var "Double"⟩,
     .named ⟨none, .unrestricted, .explicit, .app (boundedPredicate bound) (.var "x") .explicit⟩]

def boundedRequest (bound : Literal) : DerivationRequest where
  strategy := .plain
  descriptor := ⟨"Bounded", [], [boundedConstructor bound], none⟩
  visibility := none

def boundedRefinement (bound : Literal) : Refinement where
  descriptor := (boundedRequest bound).descriptor
  constructor := boundedConstructor bound
  shape := ⟨[], ⟨"x", .var "Double", none, .explicit, boundedPredicate bound, false⟩⟩

private theorem refinement_boundedRequest (bound : Literal) :
    (boundedRequest bound).descriptor.refinement = .ok (boundedRefinement bound) := rfl

private theorem append_eq_ofList {s t : String} {cs ds : List Char} (hs : s = String.ofList cs)
    (ht : t = String.ofList ds) : s ++ t = String.ofList (cs ++ ds) := by
  rw [hs, ht, String.ofList_append]

private theorem exists_boundedOpening : ∃ chars,
    boundedOpening = String.ofList ('\x7b' :: '"' :: chars) ∧
    ∀ t, Json.run? 39 (.ahead [] (Json.skipSpaces (Text.ofChars ('\x7b' :: '"' :: chars) ++ t))) =
      some (.ahead boundedFrames (Json.skipSpaces t)) :=
  ⟨_, append_eq_ofList (append_eq_ofList (append_eq_ofList (append_eq_ofList rfl rfl) rfl) rfl) rfl,
    fun _ => rfl⟩

private theorem exists_boundedEnding (bound : Json) : ∃ chars,
    boundedEnding = String.ofList ('\x7d' :: chars) ∧
    Json.run? 15 (.behind bound boundedFrames (Text.ofChars ('\x7d' :: chars))) =
      some (.behind (boundedJson bound) [] []) := ⟨_, rfl, rfl⟩

private theorem readBody_boundedBody {bound : String} {v : Json}
    (hbound : ∀ t, Json.step? (.ahead boundedFrames
      (Json.skipSpaces (Text.ofString bound ++ .char '\x7d' :: t))) =
        some (.behind v boundedFrames (.char '\x7d' :: t)))
    (hrequest : Schema.readRequest .request (boundedJson v) = .ok request) :
    readBody (boundedBody bound) = .ok request := by
  obtain ⟨opening, hopening, hfirst⟩ := exists_boundedOpening
  obtain ⟨ending, hending, hlast⟩ := exists_boundedEnding v
  have hbody : boundedBody bound =
      String.ofList ('\x7b' :: '"' :: (opening ++ bound.toList ++ '\x7d' :: ending)) := by
    rw [boundedBody, hopening, hending, ← String.toList_inj]
    simp
  have hchars : Text.ofChars ('\x7b' :: '"' :: (opening ++ bound.toList ++ '\x7d' :: ending)) =
      Text.ofChars ('\x7b' :: '"' :: opening) ++
        (Text.ofString bound ++ Text.ofChars ('\x7d' :: ending)) := by
    simp [Text.ofString, Text.ofChars]
  have hrun : Json.run? (39 + (1 + 15)) (.ahead [] (Json.skipSpaces
      (Text.ofChars ('\x7b' :: '"' :: (opening ++ bound.toList ++ '\x7d' :: ending))))) =
        some (.behind (boundedJson v) [] []) := by
    have hnext : Json.run? 1 (.ahead boundedFrames (Json.skipSpaces
        (Text.ofString bound ++ Text.ofChars ('\x7d' :: ending)))) =
          some (.behind v boundedFrames (Text.ofChars ('\x7d' :: ending))) := by
      have hchars : Text.ofChars ('\x7d' :: ending) = .char '\x7d' :: Text.ofChars ending := rfl
      rw [Json.run?, hchars, hbound]
      rfl
    rw [hchars, Json.run?_add, hfirst, Option.bind_some, Json.run?_add, hnext, Option.bind_some,
      hlast]
  exact readBody_of_run hbody ⟨by decide, by decide⟩ ⟨by decide, by decide⟩ hrun rfl hrequest

private theorem readBody_bounded_one : readBody (boundedBody "1") = .ok (boundedRequest (.int 1)) :=
  readBody_boundedBody (v := .int 1) (fun _ => rfl) (by rfl)

private theorem isWritable_bounded_iff (bound : Literal) :
    (boundedRefinement bound).IsWritable ↔ ∀ x ∈ doubles [.literal bound], x.isFinite = true := by
  have hterms : (boundedRefinement bound).terms = [.var "Double", boundedPredicate bound] := rfl
  have hpredicate : doubles (boundedPredicate bound).leaves = doubles [.literal bound] := rfl
  rw [Refinement.IsWritable, hterms]
  simp only [List.forall_mem_cons, hpredicate]
  simp [Term.leaves, doubles]

private theorem sendable_bounded_one : Sendable {} (boundedRequest (.int 1)) :=
  .derived (refinement_boundedRequest _) (by decide) (by decide)

/-- A derivation request with the given body. -/
def posted (body : String) : Request := ⟨Route.derivations.method, Route.derivations.path, body⟩

private theorem handle_posted {body : String} (h : readBody body = .ok request) :
    handle settings moment (posted body) =
      send moment (shownPath Route.derivations.path)
        (answerRequest settings moment (shownPath Route.derivations.path) request) := by
  have hroute : Route.ofPath? Route.derivations.path = some .derivations := by
    decide
  simp [handle, posted, hroute, answerDerivation, h]

/-- The answer that a request is to have. -/
inductive IsAnswer (settings : Settings) (timestamp : Text) (request : DerivationRequest) :
    Response → Prop
  | rejected {rejection : Rejection}
      (h : derivation settings request = .error (.rejected rejection)) :
      IsAnswer settings timestamp request ⟨422, some (.object [("error", .object
        [("code", .str rejection.fault.code), ("message", .str rejection.fault.message),
         ("category", .str "shape"), ("severity", .str "error"), ("timestamp", .str timestamp),
         ("context", .object
          [("type_name", .str request.descriptor.name),
           ("constructor_name", .ofText? rejection.constructorName),
           ("strategy", .str (Spelled.spelling request.strategy)),
           ("location", .ofText? rejection.location)])])])⟩
  | unwritable {ds : List Declaration} (hderive : derivation settings request = .ok ds)
      {r : Refinement} (h : request.descriptor.refinement = .ok r) {t : Term} (ht : t ∈ r.terms)
      {x : Binary64} (hx : x ∈ doubles t.leaves) (hinfinite : x.isFinite = false) :
      IsAnswer settings timestamp request ⟨422, some (.object [("error", .object
        [("code", .str "TERM_ERROR"),
         ("message", .str ("Float literal " ++ x.display ++ " has no source form")),
         ("category", .str "validation"), ("severity", .str "error"),
         ("timestamp", .str timestamp),
         ("context", .object
          [("type_name", .null), ("constructor_name", .null), ("strategy", .null),
           ("location", .null)])])])⟩
  | derived {ds : List Declaration} (hderive : derivation settings request = .ok ds)
      {r : Refinement} (h : request.descriptor.refinement = .ok r) (hwritable : r.IsWritable)
      {entries : List Json} (hentries : List.Forall₂ EntryOf ds entries) {moduleText : Text}
      (hmodule : Source.moduleText ds = .ok moduleText) :
      IsAnswer settings timestamp request ⟨200, some (.object
        [("type_name", .str request.descriptor.name),
         ("strategy", .str (Spelled.spelling request.strategy)),
         ("declarations", .array entries), ("module", .str moduleText)])⟩

private theorem isAnswer_of_answering {e : Exchange}
    (h : Answering settings moment path request e) :
    IsAnswer settings moment.timestamp request e.response := by
  cases h with
  | @rejected rejection h =>
      have hderive : derivation settings request = .error (.rejected rejection) := by
        rw [derivation, derive, h]
      have hcategory : (rejectionFault request rejection).category = .shape := by
        rw [rejectionFault, rejection.fault_eq_ofDerivation]
        rfl
      have hseverity : (rejectionFault request rejection).severity = .error := by
        rw [rejectionFault, rejection.fault_eq_ofDerivation]
        rfl
      obtain ⟨constructorName, obstacle, rfl, _⟩ := TypeDescriptor.refinement_eq_error h
      rw [Fault.envelope, hcategory, hseverity, rejectionFault_context]
      exact .rejected hderive
  | unwritable h hderive ht hx hinfinite => exact .unwritable hderive h ht hx hinfinite
  | derived h hderive hwritable hrender =>
      obtain ⟨entries, hentries, hrender⟩ := bind_eq_ok hrender
      obtain ⟨moduleText, hmodule, hrender⟩ := bind_eq_ok hrender
      cases hrender
      refine .derived hderive h hwritable ?_ hmodule
      rw [List.forall₂_map_right_iff]
      exact (mapM_eq_ok hentries).imp fun _ _ hentry => entryOf_renderDeclaration hentry

/-- What is told to the sender of a request whose answer cannot be sent. -/
def crashResponse : Response :=
  ⟨500, some (Fault.envelopeOf "INTERNAL_ERROR" "An unexpected error occurred" .internal .critical
    [])⟩

/-- What becomes of a request: its exchange as it is if the answer can be sent, and otherwise a
crash with a record behind those that are there. -/
inductive Handled (settings : Settings) (moment : Moment) (request : DerivationRequest) :
    Exchange → Prop
  | sent {path : Text} {e : Exchange} (h : Answering settings moment path request e)
      (hsendable : Sendable settings request) : Handled settings moment request e
  | crashed {path : Text} {e : Exchange} (h : Answering settings moment path request e)
      (hsendable : ¬ Sendable settings request) (record : LogRecord) :
      Handled settings moment request ⟨crashResponse, e.log ++ [record]⟩

private theorem handled_posted {body : String} (hbody : readBody body = .ok request)
    (htime : moment.timestamp.isWhole = true) :
    Handled settings moment request (handle settings moment (posted body)) := by
  have hanswering := answering_answerRequest settings moment (shownPath Route.derivations.path)
    request
  have hsending := sendingFailure?_eq_none_iff (encodable_of_readBody hbody) htime hanswering
  rw [handle_posted hbody]
  by_cases hsendable : Sendable settings request
  · rw [send, hsending.2 hsendable]
    exact .sent hanswering hsendable
  · obtain ⟨reason, hreason⟩ := Option.ne_none_iff_exists'.1 (mt hsending.1 hsendable)
    rw [send, hreason]
    exact .crashed hanswering hsendable _

/-- A request has its answer exactly if that can be sent, and otherwise no part of it. -/
theorem handle_isAnswer_iff {body : String} (hbody : readBody body = .ok request)
    (htime : moment.timestamp.isWhole = true) :
    let answer := (handle settings moment (posted body)).response
    (IsAnswer settings moment.timestamp request answer ↔ Sendable settings request) ∧
      (¬ Sendable settings request → answer = crashResponse) := by
  have hhandled : Handled settings moment request _ := handled_posted hbody htime
  generalize handle settings moment (posted body) = e at hhandled ⊢
  cases hhandled with
  | sent h hsendable =>
      exact ⟨iff_of_true (isAnswer_of_answering h) hsendable, fun hnot => absurd hsendable hnot⟩
  | crashed h hsendable record =>
      refine ⟨iff_of_false ?_ hsendable, fun _ => rfl⟩
      rintro ⟨⟩

theorem handle_isAnswer_bounded :
    readBody (boundedBody "1") = .ok (boundedRequest (.int 1)) ∧ Text.isWhole "T" = true ∧
      IsAnswer {} "T" (boundedRequest (.int 1))
        (handle {} ⟨"T", ""⟩ (posted (boundedBody "1"))).response :=
  ⟨readBody_bounded_one, rfl,
    (@handle_isAnswer_iff {} ⟨"T", ""⟩ _ _ readBody_bounded_one rfl).1.2 sendable_bounded_one⟩

private theorem not_sendable_bounded : ¬ Sendable {} (boundedRequest (.str [.ofNat 0xd800])) := by
  intro hsendable
  cases hsendable with
  | rejected h _ _ => cases h
  | unwritable h hunwritable =>
      cases h
      exact hunwritable ((isWritable_bounded_iff _).2 (by decide))
  | derived h _ hterms =>
      cases h
      exact absurd hterms (by decide)

theorem handle_crashes_bounded :
    readBody (boundedBody "\"\\ud800\"") = .ok (boundedRequest (.str [.ofNat 0xd800])) ∧
      (boundedRefinement (.str [.ofNat 0xd800])).IsWritable ∧
      let answer := (handle {} ⟨"T", ""⟩ (posted (boundedBody "\"\\ud800\""))).response
      answer.status = 500 ∧ ¬ IsAnswer {} "T" (boundedRequest (.str [.ofNat 0xd800])) answer := by
  have hbody : readBody (boundedBody "\"\\ud800\"") = .ok (boundedRequest (.str [.ofNat 0xd800])) :=
    readBody_boundedBody (v := .str [.ofNat 0xd800]) (fun _ => rfl) (by rfl)
  have hhandled : Handled {} ⟨"T", ""⟩ _ _ := handled_posted hbody rfl
  generalize handle {} ⟨"T", ""⟩ (posted _) = e at hhandled ⊢
  refine ⟨hbody, (isWritable_bounded_iff _).2 (by decide), ?_⟩
  cases hhandled with
  | sent _ hsendable => exact absurd hsendable not_sendable_bounded
  | crashed =>
      refine ⟨rfl, ?_⟩
      rintro ⟨⟩

/-- There is one record, of the success or of the failure that the status of the answer tells. -/
def LoggedOnce (e : Exchange) : Prop :=
  ∃ record, e.log = [record] ∧
    (e.response.status = 200 →
      record.level = LogLevel.info ∧ ("Derived " : Text) <+: record.message) ∧
    (e.response.status = 422 → record.level = LogLevel.warning)

private theorem length_log_of_answering {e : Exchange}
    (h : Answering settings moment path request e) :
    0 < e.log.length := by
  cases h <;> simp

/-- A request leaves its one record exactly if its answer can be sent and its companions, if there
are any, have source text. -/
theorem handle_loggedOnce_iff {body : String} (hbody : readBody body = .ok request)
    (htime : moment.timestamp.isWhole = true) :
    LoggedOnce (handle settings moment (posted body)) ↔
      Sendable settings request ∧
        ∀ r, request.descriptor.refinement = .ok r → r.IsWritable := by
  have hhandled : Handled settings moment request _ := handled_posted hbody htime
  generalize handle settings moment (posted body) = e at hhandled ⊢
  have hstatus : (422 : Int) ≠ 200 := by decide
  cases hhandled with
  | sent h hsendable =>
      cases h with
      | rejected h =>
          refine iff_of_true ?_ ⟨hsendable, fun r hr => by cases h.symm.trans hr⟩
          exact ⟨_, rfl, ⟨fun h200 => absurd h200 hstatus, fun _ => rfl⟩⟩
      | @unwritable r h ds hderive t ht x hx hinfinite =>
          -- The success is on record before the source text fails, which leaves a second one.
          refine iff_of_false ?_ fun hconditions => ?_
          · rintro ⟨record, hrecord, _⟩
            cases hrecord
          · rw [hconditions.2 r h t ht x hx] at hinfinite
            cases hinfinite
      | @derived r h ds hderive hwritable response hrender =>
          refine iff_of_true ?_ ⟨hsendable, fun r' hr => ?_⟩
          · have hmessage : ("Derived " : Text) <+: (successRecord request ds.length).message := by
              simp only [successRecord, List.append_assoc]
              exact List.prefix_append ..
            exact ⟨_, rfl, ⟨fun _ => ⟨rfl, hmessage⟩, fun h422 => absurd h422.symm hstatus⟩⟩
          · cases h.symm.trans hr
            exact hwritable
  | crashed h hsendable record =>
      refine iff_of_false ?_ fun hconditions => hsendable hconditions.1
      rintro ⟨only, honly, _⟩
      have hlength := congrArg List.length honly
      have hpos := length_log_of_answering h
      simp only [List.length_append, List.length_singleton] at hlength
      omega

theorem handle_loggedOnce_bounded :
    readBody (boundedBody "1") = .ok (boundedRequest (.int 1)) ∧ Text.isWhole "T" = true ∧
      LoggedOnce (handle {} ⟨"T", ""⟩ (posted (boundedBody "1"))) := by
  refine ⟨readBody_bounded_one, rfl,
    (@handle_loggedOnce_iff {} ⟨"T", ""⟩ _ _ readBody_bounded_one rfl).2
      ⟨sendable_bounded_one, ?_⟩⟩
  intro r hr
  cases hr
  exact (isWritable_bounded_iff _).2 (by decide)

theorem handle_logs_twice_bounded :
    readBody (boundedBody "1e999") = .ok (boundedRequest (.float (.infinite false))) ∧
      let e := handle {} ⟨"T", ""⟩ (posted (boundedBody "1e999"))
      e.response.status = 422 ∧ e.log.map LogRecord.level = [LogLevel.info, LogLevel.warning] ∧
        ¬ LoggedOnce e := by
  have hbody : readBody (boundedBody "1e999") =
      .ok (boundedRequest (.float (.infinite false))) := by
    have hdecimal : Binary64.ofDecimal ⟨false, 1, 999⟩ = .infinite false := by decide +kernel
    have hvalue : Json.ofDouble (Binary64.ofDecimal ⟨false, 1, 999⟩) = .overflow false := by
      rw [hdecimal]
      rfl
    refine readBody_boundedBody (v := .overflow false) (fun _ => ?_) (by rfl)
    rw [← hvalue]
    rfl
  have hunwritable : ¬ (boundedRefinement (.float (.infinite false))).IsWritable := by
    rw [isWritable_bounded_iff]
    decide
  have hrefinement := refinement_boundedRequest (.float (.infinite false))
  have hhandled : Handled {} ⟨"T", ""⟩ _ _ := handled_posted hbody rfl
  generalize handle {} ⟨"T", ""⟩ (posted _) = e at hhandled ⊢
  refine ⟨hbody, ?_⟩
  cases hhandled with
  | crashed _ hsendable => exact absurd (.unwritable hrefinement hunwritable) hsendable
  | sent h _ =>
      cases h with
      | rejected h => cases hrefinement.symm.trans h
      | derived h _ hwritable _ =>
          cases hrefinement.symm.trans h
          exact absurd hwritable hunwritable
      | unwritable =>
          refine ⟨rfl, rfl, ?_⟩
          rintro ⟨record, hrecord, _⟩
          cases hrecord

end RefinementTypes.Service
