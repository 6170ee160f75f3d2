import Idemio.Properties.Redaction

set_option relaxedAutoImplicit false
set_option autoImplicit false

/-!
# No payload is read unaudited

The audit row is inserted in the transaction that reads the payloads, and the answer is written
after the commit. So a payload in an answer has a committed row, and what fails before leaves
neither. Only a commit that takes effect and whose answer is lost leaves the row of an access that
is answered as a failure.

## Main definitions

* `Idemio.Reads.HasPayload` — an answer contains a payload.
* `Idemio.Reads.Records` — an audit row is about this access.

## Main results

* `Idemio.Reads.payload_audited` — a payload in an answer is audited, and if a step fails there is
  no payload in the answer and nothing is written, but for the row of a commit whose answer is lost.
* `Idemio.Reads.failed_read_audited` — a read that fails so and leaves its row.
-/

namespace Idemio.Reads

/-- The answer contains a payload. -/
def HasPayload (answer : Except Response IntentsBody) : Prop :=
  ∃ body, answer = .ok body ∧ ∃ row ∈ body.page.rows, row.payload ≠ []

/-- The audit row names the caller and the reason, and lists the intents of the answer. -/
structure Records (r : ReadsHTTP) (body : IntentsBody) (entry : AuditRow) : Prop where
  principal : entry.principal = Header.trimSpace r.agentHeader
  callerRole : entry.callerRole = Header.trimSpace r.roleHeader
  statedReason : entry.statedReason = Header.trimSpace r.reasonHeader
  intentIDs : entry.intentIDs = body.page.rows.map IntentView.intentID
  recordCount : entry.recordCount = body.page.rows.length

/-- No step fails. -/
def Faults.NoneFails (faults : Faults) : Prop :=
  faults.beginOK = true ∧ faults.scanOK = true ∧ faults.auditOK = true ∧ faults.commit = .ok

/-- A scan without payloads returns none. -/
lemma payload_of_scanIntents {env : Env} {r : ReadsHTTP} {bounds : Window} {rows : List IntentRow}
    {views : List IntentView} (h : scanIntents env r bounds false rows = some views) :
    ∀ view ∈ views, view.payload = [] := by
  unfold scanIntents at h
  rw [Option.ite_none_right_eq_some] at h
  obtain ⟨cursor, -, rfl⟩ := Option.map_eq_some_iff.mp h.2
  intro view hview
  obtain ⟨row, hrow, rfl⟩ := List.mem_map.mp hview
  simp only [Bool.false_eq_true, if_false, selectIntentsRedacted, selectIntents] at hrow
  obtain ⟨_, -, rfl⟩ := List.mem_map.mp hrow
  rfl

/-- What is inserted for a page that payloads are read for. -/
lemma records_of_auditIntents {faults : Faults} {r : ReadsHTTP} {request : IntentsRequest}
    {b : IntentsBody} {reason : List UInt8} {audit : List AuditRow}
    (hcaller : readerIdentity r = .ok request.caller)
    (hreason : payloadRequest r request.caller = .ok (some reason))
    (hsome : request.reason = some reason)
    (h : auditIntents faults r request b.page.rows = some audit) :
    ∃ entry, audit = [entry] ∧ Records r b entry := by
  rw [auditIntents, hsome] at h
  dsimp only at h
  rw [Option.ite_none_right_eq_some] at h
  obtain ⟨entry, hentry, rfl⟩ := Option.map_eq_some_iff.mp h.2
  refine ⟨entry, rfl, ?_⟩
  rw [recordPayloadAccess, Option.ite_none_right_eq_some] at hentry
  obtain ⟨-, hentry⟩ := hentry
  cases hentry
  rw [readerIdentity_ok hcaller, (payloadRequest_some hreason).2.1]
  exact ⟨rfl, rfl, rfl, rfl, rfl⟩

/-- A page of rows that were scanned without payloads contains none. -/
lemma not_hasPayload {env : Env} {r : ReadsHTTP} {bounds : Window} {rows : List IntentRow}
    {views : List IntentView} (h : scanIntents env r bounds false rows = some views) :
    ¬HasPayload (.ok ⟨r.resourceType, r.resourceID, pageOf views bounds.limit intentCursor⟩) := by
  rintro ⟨body, hbody, row, hrow, hpayload⟩
  cases hbody
  exact hpayload (payload_of_scanIntents h row (mem_of_mem_pageOf hrow))

lemma not_hasPayload_error (problem : Response) : ¬HasPayload (.error problem) := by
  rintro ⟨body, hbody, -⟩
  cases hbody

/-- The rows that the transaction of a read inserts: one if payloads are read, and none if the page
has none. -/
inductive Audits (r : ReadsHTTP) (body : IntentsBody) : List AuditRow → Prop
  | redacted (hinclude : r.query.get "include" ≠ utf8 "payload") (hnone : ¬HasPayload (.ok body)) :
      Audits r body []
  | unredacted {entry : AuditRow} (hinclude : r.query.get "include" = utf8 "payload")
      (hrole : Header.trimSpace r.roleHeader = roleInvestigator)
      (hreason : Header.trimSpace r.reasonHeader ≠ []) (hentry : Records r body entry) :
      Audits r body [entry]

/-- **What a read does up to its commit**: it is answered with a problem and writes nothing, however
its commit would end, or there is a page and what is to be inserted for it. -/
lemma handleIntents_audits (cfg : Settings) (faults : Faults) (now : ℤ) (r : ReadsHTTP)
    (tables : Tables) :
    (∃ problem, ∀ commit,
      handleIntents cfg { faults with commit := commit } now r tables = (.error problem, tables)) ∨
    ∃ body audit, Audits r body audit ∧ faults.beginOK = true ∧ faults.scanOK = true ∧
      (audit ≠ [] → faults.auditOK = true) ∧
      ∀ commit, handleIntents cfg { faults with commit := commit } now r tables =
        commitIntents { faults with commit := commit } body audit tables := by
  rcases handleIntents_upToCommit cfg faults now r tables with
    hproblem | ⟨request, rows, audit, hasked, hbegin, hscan, hrows, haudit, heq⟩
  · exact .inl hproblem
  obtain ⟨hcaller, -, hreason⟩ := admitIntents_ok hasked
  have hinclude := payloadRequest_include hreason
  cases hsome : request.reason with
  | none =>
    -- nothing is audited, and nothing has to be
    rw [hsome] at hrows hinclude
    rw [auditIntents, hsome] at haudit
    cases haudit
    exact .inr ⟨_, [], .redacted (by simpa using hinclude) (not_hasPayload hrows), hbegin, hscan,
      fun hne => absurd rfl hne, heq⟩
  | some reason =>
    rw [hsome] at hreason hinclude
    obtain ⟨hrole, rfl, hne⟩ := payloadRequest_some hreason
    rw [readerIdentity_ok hcaller] at hrole
    obtain ⟨entry, rfl, hentry⟩ := records_of_auditIntents
      (b := ⟨r.resourceType, r.resourceID, pageOf rows request.bounds.limit intentCursor⟩)
      hcaller hreason hsome haudit
    rw [auditIntents, hsome] at haudit
    exact .inr ⟨_, [entry], .unredacted (by simpa using hinclude) hrole hne hentry, hbegin, hscan,
      fun _ => (Option.ite_none_right_eq_some.mp haudit).1, heq⟩

/-- **No payload is read unaudited.** If an answer contains a payload, the caller is an
investigator who gave a reason, and an audit row with both and with the intents of the answer is
committed. If a step fails, or the answer is a problem, it contains no payload, and nothing is
written as long as the answer of the commit is not lost. If it is lost, the caller sees a failure
and gets no payload; then exactly the one audit row is added that goes with the page, if that was to
be answered with payloads, and nothing otherwise. -/
theorem payload_audited (cfg : Settings) (faults : Faults) (now : ℤ) (r : ReadsHTTP)
    (tables : Tables) :
    (HasPayload (handleIntents cfg faults now r tables).1 →
      Header.trimSpace r.roleHeader = roleInvestigator ∧ Header.trimSpace r.reasonHeader ≠ [] ∧
      ∃ body entry, (handleIntents cfg faults now r tables).1 = .ok body ∧ Records r body entry ∧
        (handleIntents cfg faults now r tables).2 =
          { tables with audit := tables.audit ++ [entry] }) ∧
    (¬faults.NoneFails ∨ (∃ problem, (handleIntents cfg faults now r tables).1 = .error problem) →
      ¬HasPayload (handleIntents cfg faults now r tables).1 ∧
        (faults.commit ≠ .unseen → (handleIntents cfg faults now r tables).2 = tables)) ∧
    (faults.commit = .unseen →
      (∀ body, (handleIntents cfg { faults with commit := .ok } now r tables).1 = .ok body →
        r.query.get "include" = utf8 "payload" → ∃ entry, Records r body entry ∧
          (handleIntents cfg faults now r tables).2 =
            { tables with audit := tables.audit ++ [entry] }) ∧
      ((∃ problem, (handleIntents cfg { faults with commit := .ok } now r tables).1 =
          .error problem) ∨ r.query.get "include" ≠ utf8 "payload" →
        (handleIntents cfg faults now r tables).2 = tables)) := by
  rcases handleIntents_audits cfg faults now r tables with
    ⟨problem, heq⟩ | ⟨body, audit, haudits, hbegin, hscan, haudit, heq⟩
  · have hfaults := heq faults.commit
    change handleIntents cfg faults now r tables = _ at hfaults
    rw [hfaults, heq]
    exact ⟨fun h => absurd h (not_hasPayload_error problem),
      fun _ => ⟨not_hasPayload_error problem, fun _ => rfl⟩,
      fun _ => ⟨fun _ hbody => (by cases hbody), fun _ => rfl⟩⟩
  have hfaults := heq faults.commit
  change handleIntents cfg faults now r tables = _ at hfaults
  rw [hfaults, heq]
  cases hcommit : faults.commit with
  | refused =>
    exact ⟨fun h => absurd h (not_hasPayload_error readFailed),
      fun _ => ⟨not_hasPayload_error readFailed, fun _ => rfl⟩, fun h => by cases h⟩
  | unseen =>
    refine ⟨fun h => absurd h (not_hasPayload_error readFailed),
      fun _ => ⟨not_hasPayload_error readFailed, fun h => absurd rfl h⟩, fun _ => ?_⟩
    cases haudits with
    | redacted hinclude =>
      exact ⟨fun _ _ h => absurd h hinclude, fun _ => by simp [commitIntents]⟩
    | @unredacted entry hinclude _ _ hentry =>
      refine ⟨fun _ hbody _ => ?_, fun h => ?_⟩
      · cases hbody
        exact ⟨entry, hentry, rfl⟩
      · rcases h with ⟨problem, hproblem⟩ | hne
        · cases hproblem
        · exact absurd hinclude hne
  | ok =>
    refine ⟨fun h => ?_, fun h => ?_, fun h => by cases h⟩
    · cases haudits with
      | redacted _ hnone => exact absurd h hnone
      | unredacted _ hrole hreason hentry => exact ⟨hrole, hreason, body, _, rfl, hentry, rfl⟩
    · cases haudits with
      | redacted _ hnone => exact ⟨hnone, fun _ => by simp [commitIntents]⟩
      | unredacted =>
        rcases h with hfails | ⟨problem, hproblem⟩
        · exact absurd ⟨hbegin, hscan, haudit (by simp), hcommit⟩ hfails
        · cases hproblem

/-- **A read that fails and leaves its audit row.** Everything succeeds, but the answer of the
commit is lost: the investigator is told that the read has failed, and the access is recorded. -/
theorem failed_read_audited :
    let faults : Faults := ⟨true, true, true, .unseen⟩
    let tables : Tables := .small [IntentRow.small 1 .replace "a" keyA 5]
    let read := handleIntents .small faults 0
      (.small "investigator" [(utf8 "include", utf8 "payload")]) tables
    ¬faults.NoneFails ∧ read.1 = .error readFailed ∧ tables.audit = [] ∧
      read.2.audit.map (fun entry => (entry.intentIDs, entry.statedReason)) =
        [([1], utf8 "why")] := by
  refine ⟨fun h => ?_, by decide +kernel, rfl, by decide +kernel⟩
  cases h.2.2.2

/-- An investigator gets the payload, and the access is recorded with the reason. -/
example :
    let read := handleIntents .small .none 0
      (.small "investigator" [(utf8 "include", utf8 "payload")])
      (.small [IntentRow.small 1 .replace "a" keyA 5])
    (read.1.toOption.map fun body => body.page.rows.map IntentView.payload) = some [[32, 1]] ∧
      read.2.audit.map (fun entry => (entry.intentIDs, entry.statedReason)) =
        [([1], utf8 "why")] := by
  decide +kernel

end Idemio.Reads
