import LakeCatalog.Json.Basic
import LakeCatalog.Proofs.Service.Body
import LakeCatalog.Proofs.Sync.TableSync
import LakeCatalog.Service.Schedule

/-!
# Updates of properties

A request to update properties is refused before anything is sent, or it is carried out by a single
proposal on a channel of its own, and the answer tells what became of that. What is asked for is
what the body states; it may be asked for if a name has 1 to 256 characters and no key is blank.
-/

namespace LakeCatalog

namespace Emission

open Catalog

/-- A batch of one proposal has one outcome, and succeeds if the channel opens and the submission
does. -/
lemma outcomes_emit_singleton (t : Transport) (opens count : Nat) (timeout : Duration)
    (p : Proposal) : ∃ o, (emit t opens count timeout [p]).outcomes = [o] ∧
      (o.status = .succeeded ↔
        t.opening opens = none ∧ t.status timeout count = .succeeded) := by
  cases hopen : t.opening opens with
  | some error =>
    rw [emit_of_failed_opening count timeout [p] hopen]
    exact ⟨⟨p, .failed (unavailable error), .zero⟩, rfl, by simp⟩
  | none =>
    have settled := (settled_emit_perm timeout count [p] hopen).eq_singleton
    refine ⟨((⟨0, count, p, t.submission count⟩ : Submission).settled t timeout).outcome, ?_, ?_⟩
    · rw [Batch.outcomes, settled]
      rfl
    · rw [Submission.settled, Transport.status]
      simp

end Emission

namespace Sync

open Emission

lemma Client.result_of_succeeded (c : Client) (operation : String) {outcomes : List Outcome}
    (succeeded : ∀ o ∈ outcomes, o.status = .succeeded) :
    c.result operation outcomes = .ok (.ofOutcomes operation c.settings.policy outcomes) := by
  have none_failed := (Run.failures_ofOutcomes_eq_nil_iff operation c.settings.policy outcomes).mpr
    succeeded
  rw [Client.result, aggregate_of_no_failures _ _ _ none_failed]
  rfl

lemma Session.submitted_emit (s : Session) (t : Transport) (timeout : Duration)
    (batch : List Catalog.Proposal) :
    (s.emit t timeout batch).2.log.submitted =
      s.log.submitted ++ if (t.opening s.log.opens).isNone then batch else [] := by
  rw [← handedOver_emit_eq t s.log.opens s.log.submissions timeout batch]
  simp only [Session.emit, Log.submitted, Log.entriesOf, List.filterMap_append, List.filterMap_map]
  rfl

end Sync

namespace Service

open Catalog Emission Sync

section

variable (t : Transport) (table : History)

/-- How a request goes on depends on its plan only up to the next batch. -/
lemma Agenda.run_of_advance_eq {n : Nat} (timeout : Duration) {plan other : Plan Reply n}
    {time : Duration} (same : plan.advance (table time) = other.advance (table time)) (log : Log)
    (now : Duration) (fuel request : Nat) (lane : Option Route) :
    Agenda.run t timeout .endless table (fuel + 1)
        ⟨log, [⟨time, request, lane, some ⟨n, plan⟩⟩], [], [], now⟩ =
      Agenda.run t timeout .endless table (fuel + 1)
        ⟨log, [⟨time, request, lane, some ⟨n, other⟩⟩], [], [], now⟩ := by
  cases going : other.advance (table time) <;>
    simp only [Agenda.run, takeFirst, Agenda.step, same, going]

/-- A request with the service to itself goes through its plan. -/
lemma Agenda.run_alone {n : Nat} (timeout : Duration) (plan : Plan Reply n) (s : Session)
    {now : Duration} (earlier : now ≤ s.now) {fuel : Nat} (enough : n < fuel) (request : Nat)
    (lane : Option Route) :
    let done := plan.run t timeout table s
    Agenda.run t timeout .endless table fuel
        ⟨s.log, [⟨s.now, request, lane, some ⟨n, plan⟩⟩], [], [], now⟩ =
      ⟨done.2.log, [], [], [⟨done.2.now, request, done.1⟩], done.2.now⟩ := by
  obtain ⟨fuel, rfl⟩ := Nat.exists_eq_succ_of_ne_zero (Nat.ne_zero_of_lt enough)
  -- Reading costs no step of the agenda, so the fuel is used up by batches alone.
  induction plan generalizing s fuel now with
  | finish result =>
    have latest : max now s.now = s.now := Duration.ext (Nat.max_eq_right earlier)
    have nobody (log : Log) (answered : List Answered) (now : Duration) (n : Nat) :
        Agenda.run t timeout .endless table n ⟨log, [], [], answered, now⟩ =
          ⟨log, [], [], answered, now⟩ := by
      cases n <;> rfl
    cases lane <;> simp [Agenda.run, takeFirst, Agenda.step, Plan.advance, Agenda.release,
      takeQueued, nobody, latest, Plan.run]
  | @readFacts n next ih =>
    have same : (Plan.readFacts next : Plan Reply n).advance (table s.now) =
        (next (table s.now).facts).advance (table s.now) := rfl
    exact (run_of_advance_eq t table timeout same ..).trans (ih _ s earlier fuel enough)
  | @readLastCommit n next ih =>
    have same : (Plan.readLastCommit next : Plan Reply n).advance (table s.now) =
        (next (table s.now).lastCommit).advance (table s.now) := rfl
    exact (run_of_advance_eq t table timeout same ..).trans (ih _ s earlier fuel enough)
  | @emit n batch next ih =>
    have completed : (s.log.next t timeout batch).completed = true := completed_emit ..
    obtain ⟨fuel, rfl⟩ := Nat.exists_eq_succ_of_ne_zero
      (Nat.ne_zero_of_lt (Nat.lt_of_succ_lt_succ enough))
    have later : now ≤ (s.emit t timeout batch).2.now := Nat.le_trans earlier (Nat.le_add_right ..)
    have rest := ih (s.emit t timeout batch).1.outcomes (s.emit t timeout batch).2 later fuel
      (Nat.lt_of_succ_lt_succ enough)
    refine Eq.trans ?_ rest
    have same : s.log.attempt t timeout .endless batch = s.log.next t timeout batch := rfl
    rw [Agenda.run]
    simp only [takeFirst, Agenda.step, Plan.advance, same, completed, if_true]
    rfl

/-- What becomes of a request that is served alone. -/
lemma serve_alone (c : Client) (s : Session) (r : Request) :
    let done := (admission c (c.scope t) r).job.plan.run t c.settings.emitTimeout table s
    serve c t table s [r] = ([⟨done.2.now, 0, done.1⟩], done.2) := by
  have alone := Agenda.run_alone t table c.settings.emitTimeout
    (admission c (c.scope t) r).job.plan s (Nat.le_refl _)
    (Nat.lt_succ_self _) 0 (admission c (c.scope t) r).lane
  have arrived : Agenda.arrive s.now ⟨s.log, [], [], [], s.now⟩ 0 (admission c (c.scope t) r) =
      ⟨s.log, [⟨s.now, 0, (admission c (c.scope t) r).lane,
        some (admission c (c.scope t) r).job⟩], [], [], s.now⟩ := by
    unfold Agenda.arrive
    split
    · rename_i free
      rw [free]
      rfl
    · rename_i lane laned
      rw [laned]
      rfl
  simp only [serve, serveWithin, List.map_cons, List.map_nil, List.zipIdx_cons, List.zipIdx_nil,
    List.foldl_cons, List.foldl_nil, stepBound, arrived]
  rw [alone]
  generalize (admission c (c.scope t) r).job.plan.run t c.settings.emitTimeout table s = done
  rfl

end

/-- A name has 1 to 256 characters, and no key is blank. -/
structure PropertiesRequest.IsSound (request : PropertiesRequest) : Prop where
  name : ∀ name, request.name = some name → 1 ≤ name.length ∧ name.length ≤ 256
  keys : ∀ key ∈ request.properties.keys, Text.trim key.toList ≠ []

lemma PropertiesRequest.problems_eq_nil_iff {request : PropertiesRequest} :
    request.problems = [] ↔ request.IsSound := by
  obtain ⟨name, properties⟩ := request
  have keys : (if properties.keys.any Text.isAllBlank then
        ["properties: Property keys must not be blank"] else []) = [] ↔
      ∀ key ∈ properties.keys, Text.trim key.toList ≠ [] := by
    simp [Text.isAllBlank_iff]
  rw [problems, List.append_eq_nil_iff, keys]
  cases name with
  | none => exact ⟨fun h => ⟨fun _ given => (nomatch given), h.2⟩, fun h => ⟨rfl, h.keys⟩⟩
  | some name =>
    have named : (if 1 ≤ name.length && name.length ≤ 256 then []
        else ["name: Name must be between 1 and 256 characters"]) = [] ↔
        1 ≤ name.length ∧ name.length ≤ 256 := by
      simp
    simp only [named]
    exact ⟨fun h => ⟨fun _ given => Option.some.inj given ▸ h.1, h.2⟩,
      fun h => ⟨h.name name rfl, h.keys⟩⟩

def Request.IsJson (r : Request) : Prop := (r.header? "content-type").any isJsonType = true

/-- A request asks for an update that may be asked for, in a body of at most 2 MiB. -/
structure Request.Asks (r : Request) (request : PropertiesRequest) : Prop where
  json : r.IsJson
  fits : r.body.size ≤ 2 * 1024 * 1024
  stated : States (bodyText r.body) request
  sound : request.IsSound

/-- Why a request is refused, and with which status: 400 or 422 if the body is not JSON or of
another shape, whatever comes first. -/
inductive Request.Refused (r : Request) : Nat → Prop where
  | contentType (other : ¬ r.IsJson) : Refused r 415
  | size (json : r.IsJson) (large : 2 * 1024 * 1024 < r.body.size) : Refused r 413
  | body {status : Nat} (json : r.IsJson) (fits : r.body.size ≤ 2 * 1024 * 1024)
      (unstated : ∀ request, ¬ States (bodyText r.body) request)
      (either : status = 400 ∨ status = 422) : Refused r status
  | unsound {request : PropertiesRequest} (json : r.IsJson)
      (fits : r.body.size ≤ 2 * 1024 * 1024) (stated : States (bodyText r.body) request)
      (unsound : ¬ request.IsSound) : Refused r 400

/-- A body states one request at most. -/
lemma States.unique {text : List Char} {request other : PropertiesRequest}
    (h : States text request) (h' : States text other) : other = request := by
  have read := PropertiesRequest.parse_eq_ok_iff.mpr h
  rw [PropertiesRequest.parse_eq_ok_iff.mpr h'] at read
  exact Except.ok.inj read

namespace Request

variable {r : Request} {status : Nat}

lemma Refused.status_range (h : r.Refused status) : 400 ≤ status ∧ status < 500 := by
  cases h with
  | contentType other => decide
  | size json large => decide
  | body json fits unstated either => omega
  | unsound json fits stated unsound => decide

lemma Refused.not_asks (h : r.Refused status) (request : PropertiesRequest) :
    ¬ r.Asks request := by
  intro asks
  cases h with
  | contentType other => exact other asks.json
  | size json large => exact Nat.not_lt_of_le asks.fits large
  | body json fits unstated either => exact unstated request asks.stated
  | unsound json fits stated unsound => exact unsound (stated.unique asks.stated ▸ asks.sound)

end Request

/-- An update is refused at once, or it is what the request asks for. -/
lemma updateProperties_cases (c : Client) (scope : Scope) (r : Request) :
    (∃ reply, updateProperties c scope r = .reply reply ∧ r.Refused reply.status) ∨
      ∃ request, r.Asks request ∧ updateProperties c scope r =
        ⟨1, (c.updateProperties request.name request.properties).map
          (Reply.ofResult (Reply.propertiesUpdated scope))⟩ := by
  unfold updateProperties
  by_cases json : r.IsJson
  · have typed : (r.header? "content-type").any isJsonType = true := json
    rw [typed, Bool.not_true, if_neg Bool.false_ne_true]
    by_cases large : bodyLimit < r.body.size
    · rw [if_pos large]
      exact Or.inl ⟨_, rfl, .size json large⟩
    have fits : r.body.size ≤ bodyLimit := Nat.le_of_not_lt large
    rw [if_neg large]
    cases read : PropertiesRequest.parse (bodyText r.body) with
    | error fault =>
      have unstated : ∀ request, ¬ States (bodyText r.body) request := by
        intro request stated
        rw [PropertiesRequest.parse_eq_ok_iff.mpr stated] at read
        cases read
      refine Or.inl ⟨_, rfl, .body json fits unstated ?_⟩
      cases fault with
      | malformed => exact Or.inl rfl
      | mismatched => exact Or.inr rfl
    | ok request =>
      have stated := PropertiesRequest.parse_eq_ok_iff.mp read
      dsimp only
      split
      · rename_i none_wrong
        have sound := PropertiesRequest.problems_eq_nil_iff.mp none_wrong
        exact Or.inr ⟨request, ⟨json, fits, stated, sound⟩, rfl⟩
      · rename_i some_wrong
        have unsound : ¬ request.IsSound :=
          fun sound => some_wrong (PropertiesRequest.problems_eq_nil_iff.mpr sound)
        exact Or.inl ⟨_, rfl, .unsound json fits stated unsound⟩
  · have untyped : (r.header? "content-type").any isJsonType = false := by
      simpa [Request.IsJson] using json
    rw [untyped, Bool.not_false, if_pos rfl]
    exact Or.inl ⟨_, rfl, .contentType json⟩

def Reply.updated? (reply : Reply) : Option Bool :=
  match reply.body with
  | .json value =>
    match value.member? "updated" with
    | some (.bool updated) => some updated
    | _ => none
  | .text _ => none

@[simp] lemma Reply.updated?_propertiesUpdated (scope : Scope) (updated : Bool) :
    (Reply.propertiesUpdated scope updated).updated? = some updated := by
  simp [updated?, propertiesUpdated, success, Json.member?_sortedObject]

@[simp] lemma ServiceError.updated?_reply_failure (f : RunFailure) :
    (ServiceError.sync (.failure f)).reply.updated? = none := by
  simp [Reply.updated?, reply, Json.member?_sortedObject, lookup_cons_entry, detail]

/-- The answer to an update tells what became of its proposal, as far as the policy wants it. -/
lemma answer_of_outcome (c : Client) (scope : Scope) (o : Outcome) :
    let reply := Reply.ofResult (Reply.propertiesUpdated scope)
      ((c.result "update_table_properties" [o]).map Run.isSuccess)
    (reply.status = 200 ∨ reply.status = 502) ∧
      (reply.updated? = some true ↔ o.status = .succeeded) ∧
      (reply.updated? = some false ↔
        o.status ≠ .succeeded ∧ c.settings.policy = .suppressErrors) ∧
      (reply.status = 502 ↔
        o.status ≠ .succeeded ∧ c.settings.policy = .propagateFirstError) := by
  intro reply
  rcases c.result_cases "update_table_properties" [o] with ⟨finished, quiet⟩ | ⟨policy, f, failed⟩
  · have all := Run.isSuccess_ofOutcomes_iff "update_table_properties" c.settings.policy [o]
    rw [List.forall_mem_singleton] at all quiet
    have known : reply = Reply.propertiesUpdated scope
        (Run.ofOutcomes "update_table_properties" c.settings.policy [o]).isSuccess := by
      simp only [reply, finished]
      rfl
    have status : reply.status = 200 := by
      rw [known]
      rfl
    refine ⟨Or.inl status, ?_, ?_, ?_⟩
    · rw [known, Reply.updated?_propertiesUpdated, Option.some.injEq, all]
    · rw [known, Reply.updated?_propertiesUpdated, Option.some.injEq, ← Bool.not_eq_true, all]
      refine ⟨fun failed => ⟨failed, ?_⟩, fun h => h.1⟩
      cases hp : c.settings.policy with
      | suppressErrors => rfl
      | propagateFirstError => exact absurd (quiet hp) failed
    · rw [status]
      exact ⟨fun h => (nomatch h), fun ⟨failed, policy⟩ => absurd (quiet policy) failed⟩
  · have known : reply = (ServiceError.sync (.failure f)).reply := by
      simp only [reply, failed]
      rfl
    have status : reply.status = 502 := by
      rw [known]
      rfl
    have unsuccessful : o.status ≠ .succeeded := by
      intro succeeded
      rw [c.result_of_succeeded _ (List.forall_mem_singleton.mpr succeeded)] at failed
      cases failed
    refine ⟨Or.inr status, ?_, ?_, ?_⟩
    · rw [known, ServiceError.updated?_reply_failure]
      exact ⟨fun h => (nomatch h), fun succeeded => absurd succeeded unsuccessful⟩
    · rw [known, ServiceError.updated?_reply_failure, policy]
      exact ⟨fun h => (nomatch h), fun h => (nomatch h.2)⟩
    · exact iff_of_true status ⟨unsuccessful, policy⟩

lemma job_of_update (c : Client) (scope : Scope) (headers : List (String × String))
    (body : ByteArray) :
    (admission c scope ⟨"POST", "/sync/properties", headers, body⟩).job =
      updateProperties c scope ⟨"POST", "/sync/properties", headers, body⟩ := by
  have route : Route.ofPath? "/sync/properties" = some .updateProperties := by decide +kernel
  simp [admission, route, Route.methods, handle]

/-- Updating properties is all or nothing. A request is refused, because its content type is not
JSON, or because its body is too large, or states nothing that can be asked for, or nothing that may
be; then nothing happens at all. Otherwise a channel is opened, and if that opens a single proposal
is submitted: the patch that asserts of the dataset of the table exactly the name and the properties
that the body states. The answer tells what became of it. -/
theorem update_is_all_or_nothing (c : Client) (t : Transport) (table : History) (s : Session)
    (headers : List (String × String)) (body : ByteArray) :
    let r : Request := ⟨"POST", "/sync/properties", headers, body⟩
    let served := serve c t table s [r]
    let succeeded := t.opening s.log.opens = none ∧
      t.status c.settings.emitTimeout s.log.submissions = .succeeded
    ∃ a, served.1 = [a] ∧
      ((r.Refused a.reply.status ∧ (400 ≤ a.reply.status ∧ a.reply.status < 500) ∧
          (∀ request, ¬ r.Asks request) ∧ served.2 = s) ∨
        ∃ request, (a.reply.status = 200 ∨ a.reply.status = 502) ∧
          (∀ other, r.Asks other ↔ other = request) ∧
          served.2.log.opens = s.log.opens + 1 ∧
          served.2.log.submitted = s.log.submitted ++
            (if (t.opening s.log.opens).isNone then
              [⟨.dataset, c.identity.dataset, .properties ⟨request.name, request.properties⟩⟩]
            else []) ∧
          (a.reply.updated? = some true ↔ succeeded) ∧
          (a.reply.updated? = some false ↔
            ¬ succeeded ∧ c.settings.policy = .suppressErrors) ∧
          (a.reply.status = 502 ↔
            ¬ succeeded ∧ c.settings.policy = .propagateFirstError)) := by
  intro r served succeeded
  have alone := serve_alone t table c s r
  have job : (admission c (c.scope t) r).job = updateProperties c (c.scope t) r :=
    job_of_update c (c.scope t) headers body
  rw [job] at alone
  rcases updateProperties_cases c (c.scope t) r with ⟨reply, same, refused⟩ | ⟨request, asks, same⟩
  · rw [same] at alone
    exact ⟨⟨s.now, 0, reply⟩, congrArg Prod.fst alone, Or.inl ⟨refused, refused.status_range,
      refused.not_asks, congrArg Prod.snd alone⟩⟩
  · have only (other : PropertiesRequest) : r.Asks other ↔ other = request :=
      ⟨fun h => asks.stated.unique h.stated, fun h => h ▸ asks⟩
    let proposal := c.publisher.propertiesProposal request.name request.properties
    obtain ⟨o, outcome, status⟩ := outcomes_emit_singleton t s.log.opens s.log.submissions
      c.settings.emitTimeout proposal
    have after : served.2 = (s.emit t c.settings.emitTimeout [proposal]).2 := by
      rw [same] at alone
      exact congrArg Prod.snd alone
    have reply : served.1 = [⟨served.2.now, 0, Reply.ofResult (Reply.propertiesUpdated (c.scope t))
        ((c.result "update_table_properties" [o]).map Run.isSuccess)⟩] := by
      rw [same] at alone
      rw [after, ← outcome]
      exact congrArg Prod.fst alone
    obtain ⟨range, updated, failed, refused⟩ := answer_of_outcome c (c.scope t) o
    rw [ne_eq, status] at failed refused
    rw [status] at updated
    refine ⟨_, reply, Or.inr ⟨request, range, only, ?_, ?_, updated, failed, refused⟩⟩
    · rw [after, Session.opens_emit]
    · rw [after, Session.submitted_emit]
      rfl

/-- A request whose body is the JSON of what it asks for. -/
def Request.asking (asked : PropertiesRequest) : Request where
  method := "POST"
  path := "/sync/properties"
  headers := [("content-type", "application/json")]
  body := (Json.object [("name", asked.name.elim .null .string),
    ("properties", .ofDictionary asked.properties)]).compact.toUTF8

/-- Whatever may be asked for can be asked for, as far as it fits into a body. -/
lemma Request.asking_asks {asked : PropertiesRequest} (sound : asked.IsSound)
    (fits : (asking asked).body.size ≤ 2 * 1024 * 1024) : (asking asked).Asks asked where
  json := (by decide +kernel : isJsonType "application/json" = true)
  fits := fits
  stated := by
    rw [asking, bodyText_toUTF8, Json.compact, String.toList_ofList]
    exact .of_text asked.name asked.properties
  sound := sound

/-- An owner is sent to the catalog, and a body of blanks is refused if it is too large. -/
theorem update_is_all_or_nothing_of_orders :
    let c := Client.ofOrders true
    let t : Transport := .behaving fun _ => .resolves .zero none
    let table : History := fun _ => ⟨.ok Client.ordersFacts, .ok none⟩
    let asked : PropertiesRequest := ⟨some "Orders", .ofList [("owner", "sales")]⟩
    let blanks : ByteArray := ⟨Array.replicate (2 * 1024 * 1024 + 1) 0x20⟩
    let large : Request := { Request.asking asked with body := blanks }
    (∃ a, (serve c t table .start [.asking asked]).1 = [a] ∧ a.reply.updated? = some true ∧
      (serve c t table .start [.asking asked]).2.log.submitted =
        [⟨.dataset, c.identity.dataset, .properties ⟨asked.name, asked.properties⟩⟩]) ∧
    ∃ a, (serve c t table .start [large]).1 = [a] ∧ a.reply.status = 413 ∧
      (serve c t table .start [large]).2 = .start := by
  intro c t table asked blanks large
  have sound : asked.IsSound := PropertiesRequest.problems_eq_nil_iff.mp (by decide +kernel)
  have asks := Request.asking_asks sound (by decide +kernel)
  constructor
  · obtain ⟨a, answered, ⟨-, -, nothing, -⟩ | ⟨request, -, only, -, submitted, updated, -⟩⟩ :=
      update_is_all_or_nothing c t table .start (Request.asking asked).headers
        (Request.asking asked).body
    · exact absurd asks (nothing asked)
    · obtain rfl := (only asked).mp asks
      exact ⟨a, answered, updated.mpr ⟨rfl, rfl⟩, submitted⟩
  · have size : large.body.size = 2 * 1024 * 1024 + 1 := Array.size_replicate
    have tooLarge : ¬ large.body.size ≤ 2 * 1024 * 1024 := by omega
    obtain ⟨a, answered, ⟨refused, -, -, kept⟩ | ⟨request, -, only, -⟩⟩ :=
      update_is_all_or_nothing c t table .start large.headers large.body
    · refine ⟨a, answered, ?_, kept⟩
      generalize a.reply.status = status at refused ⊢
      cases refused with
      | contentType other => exact absurd asks.json other
      | size => rfl
      | body _ fits => exact absurd fits tooLarge
      | unsound _ fits => exact absurd fits tooLarge
    · exact absurd ((only request).mpr rfl).fits tooLarge

end Service

end LakeCatalog
