import Idemio.Api.Cursor
import Idemio.Api.Response
import Idemio.Base.Keyset
import Mathlib.Data.Prod.Lex

set_option relaxedAutoImplicit false
set_option autoImplicit false

/-!
# The endpoints that list intents and conflicts

`handleIntents` and `handleConflicts` answer an operator or an investigator with a page of rows.
The payloads of intents are read for an investigator alone, who must ask for them and give a
reason, and the access is recorded in `payload_access_audit` in the transaction that reads them.

Headers, paths and parameters are sequences of bytes. A text that Postgres does not store, because
it is not UTF-8 or has a zero byte, fails the statement that it is a parameter of. An answer with
status 200 is a page; any other is a problem.

## Main definitions

* `Idemio.Reads.Tables` — the tables that the endpoints read and write.
* `Idemio.Reads.selectIntentsRedacted`, `Idemio.Reads.selectIntentsWithPayload`,
  `Idemio.Reads.selectConflicts` — the statements.
* `Idemio.Reads.handleIntents`, `Idemio.Reads.handleConflicts` — the endpoints.
-/

namespace Idemio

/-- `unicode.IsSpace`. -/
def Header.isSpace (r : ℕ) : Bool :=
  (9 ≤ r && r ≤ 13) || r == 0x20 || r == 0x85 || r == 0xA0 || r == 0x1680 ||
    (0x2000 ≤ r && r ≤ 0x200A) || r == 0x2028 || r == 0x2029 || r == 0x202F || r == 0x205F ||
    r == 0x3000

/-- `strings.TrimSpace`. -/
def Header.trimSpace (bs : List UInt8) : List UInt8 := Utf8.trim Header.isSpace bs

/-- The text of a resolution. -/
def Resolution.text : Resolution → String
  | .serialized => "serialized"
  | .rejected => "rejected"
  | .observed => "observed"

namespace Reads

/-! ## Requests -/

/-- A request as it arrives. -/
structure ReadsHTTP where
  agentHeader : List UInt8
  roleHeader : List UInt8
  reasonHeader : List UInt8
  path : List UInt8
  resourceType : List UInt8
  resourceID : List UInt8
  query : Query

/-- `identity`. -/
structure Caller where
  agentID : List UInt8
  role : List UInt8
  deriving DecidableEq, Repr

/-- `RoleOperator`. -/
def roleOperator : List UInt8 := utf8 "operator"

/-- `RoleInvestigator`. -/
def roleInvestigator : List UInt8 := utf8 "investigator"

/-- `readIdentity`. -/
def readIdentity (r : ReadsHTTP) : Option Caller :=
  if Header.trimSpace r.agentHeader = [] ∨ Header.trimSpace r.roleHeader = [] then none
  else some ⟨Header.trimSpace r.agentHeader, Header.trimSpace r.roleHeader⟩

/-- `readerIdentity`. -/
def readerIdentity (r : ReadsHTTP) : Except Response Caller :=
  match readIdentity r with
  | none => .error (writeProblem 401 "" "missing_identity" "")
  | some caller =>
    if caller.role ≠ roleOperator ∧ caller.role ≠ roleInvestigator then
      .error (writeProblem 403 "" "role_insufficient"
        "Read endpoints require operator or investigator.")
    else .ok caller

/-- `payloadRequest`: the reason for which payloads are read, if they are. -/
def payloadRequest (r : ReadsHTTP) (caller : Caller) : Except Response (Option (List UInt8)) :=
  if r.query.get "include" ≠ utf8 "payload" then .ok none
  else if caller.role ≠ roleInvestigator then
    .error (writeProblem 403 "" "role_insufficient"
      "Unredacted payloads require the investigator role.")
  else if Header.trimSpace r.reasonHeader = [] then
    .error (writeProblem 400 "" "reason_required"
      ("Reading payloads requires X-Idemio-Reason. An audit trail of unexplained " ++
        "accesses records that a payload was read but not why."))
  else .ok (some (Header.trimSpace r.reasonHeader))

/-! ## Tables -/

/-- A row of `payload_access_audit`. -/
structure AuditRow where
  principal : List UInt8
  callerRole : List UInt8
  endpoint : List UInt8
  queryParams : Query
  recordCount : ℕ
  intentIDs : List ℕ
  statedReason : List UInt8
  deriving DecidableEq, Repr

/-- The committed contents of the tables. -/
structure Tables extends Database where
  audit : List AuditRow

/-- The order of the pages: a time, and an identifier between rows of the same time. -/
abbrev Key := Lex (Time × ℕ)

/-- `(emitted_at, intent_id)`. -/
def intentKey (row : IntentRow) : Key := toLex (row.emittedAt, row.intentID)

/-- `(detected_at, conflict_id)`. -/
def conflictKey (row : ConflictRow) : Key := toLex (row.detectedAt, row.conflictID)

/-- A text that Postgres takes as a parameter. -/
def storable (text : List UInt8) : Bool := Utf8.valid text && !text.contains 0

/-- A time as a parameter: microseconds. -/
def micros (t : ℤ) : Time := t / 1000

/-- A cursor as a parameter: the identifier is cast to `uuid`, which may fail. -/
def cursorKey : Option Cursor → Option (Option Key)
  | none => some none
  | some cursor => (Uuid.parse cursor.id).map fun id => some (toLex (micros cursor.time, id))

/-! ## Statements -/

/-- The `WHERE` of both statements on `write_intents`, without the cursor. -/
def intentMatches (resourceType resourceID : List UInt8) (bounds : Window) (row : IntentRow) :
    Bool :=
  utf8 row.resourceType = resourceType ∧ utf8 row.resourceID = resourceID ∧
    micros bounds.sinceTime ≤ row.emittedAt ∧ row.emittedAt ≤ micros bounds.untilTime

/-- A statement on `write_intents` that reads `column` as the payload. -/
def selectIntents (column : IntentRow → RawMessage) (resourceType resourceID : List UInt8)
    (bounds : Window) (cursor : Option Key) (rows : List IntentRow) :
    List (IntentRow × RawMessage) :=
  (Keyset.select intentKey cursor (bounds.limit + 1)
    (rows.filter (intentMatches resourceType resourceID bounds))).map fun row => (row, column row)

/-- `selectIntentsRedacted`: the payload is `NULL::jsonb`. -/
def selectIntentsRedacted : List UInt8 → List UInt8 → Window → Option Key → List IntentRow →
    List (IntentRow × RawMessage) :=
  selectIntents fun _ => []

/-- `selectIntentsWithPayload`. -/
def selectIntentsWithPayload (env : Env) : List UInt8 → List UInt8 → Window → Option Key →
    List IntentRow → List (IntentRow × RawMessage) :=
  selectIntents fun row => env.jsonbText (.document row.payload)

/-- `optional`: a filter that is not given holds of every row. -/
def optionalMatches (filter : List UInt8) (values : List String) : Bool :=
  filter = [] ∨ ∃ value ∈ values, utf8 value = filter

/-- The `WHERE` of the statement on `conflicts`, without the cursor. -/
def conflictMatches (query : Query) (bounds : Window) (row : ConflictRow) : Bool :=
  micros bounds.sinceTime ≤ row.detectedAt ∧ row.detectedAt ≤ micros bounds.untilTime ∧
    optionalMatches (query.get "agent_id") [row.agentIDA, row.agentIDB] ∧
    optionalMatches (query.get "resource_type") [row.resourceType] ∧
    optionalMatches (query.get "resolution") [row.resolution.text]

/-- `selectConflicts`. -/
def selectConflicts (query : Query) (bounds : Window) (cursor : Option Key)
    (rows : List ConflictRow) : List ConflictRow :=
  Keyset.select conflictKey cursor (bounds.limit + 1) (rows.filter (conflictMatches query bounds))

/-! ## Pages -/

/-- `intentRow`. -/
structure IntentView where
  intentID : ℕ
  agentID : String
  idempotencyKey : String
  operation : String
  operationClass : String
  scopeSelector : List String
  emittedAt : Time
  voided : Bool
  payload : RawMessage
  redacted : Bool
  deriving DecidableEq, Repr

/-- The row that `scanIntents` makes of one that a statement returns. -/
def intentView (unredacted : Bool) (row : IntentRow × RawMessage) : IntentView :=
  { intentID := row.1.intentID
    agentID := row.1.agentID
    idempotencyKey := row.1.key
    operation := row.1.operation
    operationClass := row.1.declared.cls.text
    scopeSelector := row.1.declared.scope
    emittedAt := row.1.emittedAt
    voided := row.1.voidedAt.isSome
    payload := row.2
    redacted := !unredacted }

/-- `paginate`: the page, whether there are more rows, and the cursor of the last row. -/
def paginate {α : Type} (rows : List α) (limit : ℕ) (key : α → List UInt8) :
    List α × Bool × List UInt8 :=
  if rows.length ≤ limit then (rows, false, [])
  else (rows.take limit, true, ((rows.take limit).getLast?.map key).getD [])

/-- The body of an answer: `next_cursor` is there if there are more rows. -/
structure Page (α : Type) where
  rows : List α
  hasMore : Bool
  nextCursor : Option (List UInt8)
  deriving DecidableEq, Repr

/-- The page of a list of rows, which may be one longer. -/
def pageOf {α : Type} (rows : List α) (limit : ℕ) (key : α → List UInt8) : Page α :=
  let (page, hasMore, next) := paginate rows limit key
  ⟨page, hasMore, if hasMore then some next else none⟩

/-- The body of an answer of `handleIntents`. -/
structure IntentsBody where
  resourceType : List UInt8
  resourceID : List UInt8
  page : Page IntentView
  deriving DecidableEq, Repr

/-- The cursor of an intent. -/
def intentCursor (row : IntentView) : List UInt8 :=
  encodeCursor (1000 * row.emittedAt) (Uuid.text row.intentID)

/-- The cursor of a conflict. -/
def conflictCursor (row : ConflictRow) : List UInt8 :=
  encodeCursor (1000 * row.detectedAt) (Uuid.text row.conflictID)

/-! ## Endpoints -/

/-- What may fail while a request is answered. -/
structure Faults where
  beginOK : Bool
  scanOK : Bool
  auditOK : Bool
  commit : CommitOutcome

/-- Nothing fails. -/
def Faults.none : Faults := ⟨true, true, true, .ok⟩

/-- What the server is configured with. -/
structure Settings where
  env : Env
  table : CaseTable
  readMaxSpan : Duration

/-- What a request asks `handleIntents` for. -/
structure IntentsRequest where
  caller : Caller
  bounds : Window
  /-- The reason for which payloads are read, if they are. -/
  reason : Option (List UInt8)

/-- `handleIntents` up to the transaction. -/
def admitIntents (cfg : Settings) (now : ℤ) (r : ReadsHTTP) : Except Response IntentsRequest :=
  match readerIdentity r with
  | .error problem => .error problem
  | .ok caller =>
    match readWindow cfg.table cfg.readMaxSpan now r.query with
    | .error problem => .error (writeProblem 400 "" "invalid_range" problem)
    | .ok bounds => (payloadRequest r caller).map fun reason => ⟨caller, bounds, reason⟩

/-- `scanIntents`. -/
def scanIntents (env : Env) (r : ReadsHTTP) (bounds : Window) (unredacted : Bool)
    (rows : List IntentRow) : Option (List IntentView) :=
  let statement := if unredacted then selectIntentsWithPayload env else selectIntentsRedacted
  if storable r.resourceType && storable r.resourceID then
    (cursorKey bounds.cursor).map fun cursor =>
      (statement r.resourceType r.resourceID bounds cursor rows).map (intentView unredacted)
  else none

/-- The parameters that are recorded: the first value of each name. -/
def auditParams (query : Query) : Query :=
  (query.map Prod.fst).dedup.map fun name => (name, query.first name)

/-- `recordPayloadAccess`: the row, unless a text in it cannot be stored. -/
def recordPayloadAccess (r : ReadsHTTP) (caller : Caller) (reason : List UInt8)
    (page : List IntentView) : Option AuditRow :=
  if storable caller.agentID && storable caller.role && storable r.path && storable reason &&
      (auditParams r.query).all (fun e => !e.1.contains 0 && !e.2.contains 0) then
    some ⟨caller.agentID, caller.role, r.path, auditParams r.query, page.length,
      page.map IntentView.intentID, reason⟩
  else none

/-- `handleIntents` from the page on: the audit row that is to be committed with the read. -/
def auditIntents (faults : Faults) (r : ReadsHTTP) (request : IntentsRequest)
    (page : List IntentView) : Option (List AuditRow) :=
  match request.reason with
  | none => some []
  | some reason =>
    if faults.auditOK then
      (recordPayloadAccess r request.caller reason page).map fun row => [row]
    else none

/-- `read_failed`. -/
def readFailed : Response := writeProblem 500 "" "read_failed" ""

/-- `handleIntents` from the commit on. -/
def commitIntents (faults : Faults) (body : IntentsBody) (rows : List AuditRow)
    (tables : Tables) : Except Response IntentsBody × Tables :=
  match faults.commit with
  | .ok => (.ok body, { tables with audit := tables.audit ++ rows })
  | .refused => (.error readFailed, tables)
  | .unseen => (.error readFailed, { tables with audit := tables.audit ++ rows })

/-- `handleIntents`. -/
def handleIntents (cfg : Settings) (faults : Faults) (now : ℤ) (r : ReadsHTTP) (tables : Tables) :
    Except Response IntentsBody × Tables :=
  match admitIntents cfg now r with
  | .error problem => (.error problem, tables)
  | .ok request =>
    if faults.beginOK && faults.scanOK then
      match scanIntents cfg.env r request.bounds request.reason.isSome tables.intents with
      | none => (.error readFailed, tables)
      | some rows =>
        let page := pageOf rows request.bounds.limit intentCursor
        match auditIntents faults r request page.rows with
        | none => (.error (writeProblem 503 "" "audit_unavailable"
            "Payloads are not returned when the access cannot be audited."), tables)
        | some audit =>
          commitIntents faults ⟨r.resourceType, r.resourceID, page⟩ audit tables
    else (.error readFailed, tables)

/-- The rows that `handleConflicts` reads. -/
def scanConflicts (r : ReadsHTTP) (bounds : Window) (rows : List ConflictRow) :
    Option (List ConflictRow) :=
  if storable (r.query.get "agent_id") && storable (r.query.get "resource_type") &&
      storable (r.query.get "resolution") then
    (cursorKey bounds.cursor).map fun cursor => selectConflicts r.query bounds cursor rows
  else none

/-- `handleConflicts`, which writes nothing. -/
def handleConflicts (cfg : Settings) (queryOK : Bool) (now : ℤ) (r : ReadsHTTP) (tables : Tables) :
    Except Response (Page ConflictRow) :=
  match readerIdentity r with
  | .error problem => .error problem
  | .ok _ =>
    match readWindow cfg.table cfg.readMaxSpan now r.query with
    | .error problem => .error (writeProblem 400 "" "invalid_range" problem)
    | .ok bounds =>
      if r.query.get "include" ≠ [] then
        .error (writeProblem 400 "" "nothing_to_include"
          "Conflict records carry no payload; read the intents endpoint for request bodies.")
      else if queryOK then
        match scanConflicts r bounds tables.conflicts with
        | none => .error readFailed
        | some rows => .ok (pageOf rows bounds.limit conflictCursor)
      else .error readFailed

/-! ## A small instance -/

/-- The configuration of a server. -/
def Settings.small : Settings := ⟨Env.small, CaseTable.small, 31 * 24 * hour⟩

/-- A request about the resource that `WriteHTTP.small` writes, for the first day of 1970. -/
def ReadsHTTP.small (role : String) (params : Query) : ReadsHTTP where
  agentHeader := utf8 "o"
  roleHeader := utf8 role
  reasonHeader := utf8 " why "
  path := utf8 "/v1"
  resourceType := utf8 "order"
  resourceID := utf8 "7"
  query := [(utf8 "since", utf8 "1970-01-01T00:00:00Z"),
    (utf8 "until", utf8 "1970-01-02T00:00:00Z")] ++ params

/-- Nothing but intents. -/
def Tables.small (intents : List IntentRow) : Tables := ⟨⟨∅, intents, []⟩, []⟩

/-! ## What the steps give -/

lemma readerIdentity_ok {r : ReadsHTTP} {caller : Caller} (h : readerIdentity r = .ok caller) :
    caller = ⟨Header.trimSpace r.agentHeader, Header.trimSpace r.roleHeader⟩ := by
  unfold readerIdentity at h
  cases hcaller : readIdentity r with
  | none => simp [hcaller] at h
  | some c =>
    rw [hcaller] at h
    dsimp only at h
    split_ifs at h
    cases h
    rw [readIdentity, Option.ite_none_left_eq_some] at hcaller
    exact (Option.some.inj hcaller.2).symm

/-- Payloads are read for an investigator who gives a reason. -/
lemma payloadRequest_some {r : ReadsHTTP} {caller : Caller} {reason : List UInt8}
    (h : payloadRequest r caller = .ok (some reason)) :
    caller.role = roleInvestigator ∧ reason = Header.trimSpace r.reasonHeader ∧ reason ≠ [] := by
  unfold payloadRequest at h
  split_ifs at h with hinclude hrole hreason
  · cases h
  · cases h
    exact ⟨not_not.mp hrole, rfl, hreason⟩

/-- Payloads are read exactly if the request asks to include them. -/
lemma payloadRequest_include {r : ReadsHTTP} {caller : Caller} {reason : Option (List UInt8)}
    (h : payloadRequest r caller = .ok reason) :
    reason.isSome = true ↔ r.query.get "include" = utf8 "payload" := by
  unfold payloadRequest at h
  split_ifs at h with hinclude hrole hreason
  · cases h
    simpa using hinclude
  · cases h
    simpa using hinclude

lemma admitIntents_ok {cfg : Settings} {now : ℤ} {r : ReadsHTTP} {request : IntentsRequest}
    (h : admitIntents cfg now r = .ok request) :
    readerIdentity r = .ok request.caller ∧
      readWindow cfg.table cfg.readMaxSpan now r.query = .ok request.bounds ∧
      payloadRequest r request.caller = .ok request.reason := by
  unfold admitIntents at h
  split at h
  · cases h
  · next caller hcaller =>
    split at h
    · cases h
    · next bounds hbounds =>
      cases hreason : payloadRequest r caller with
      | error problem =>
        rw [hreason] at h
        cases h
      | ok reason =>
        rw [hreason] at h
        cases h
        exact ⟨hcaller, hbounds, hreason⟩

/-- **What `handleIntents` does up to its commit**, which does not depend on how that ends: it is
answered with a problem and writes nothing, or every step succeeds. -/
lemma handleIntents_upToCommit (cfg : Settings) (faults : Faults) (now : ℤ) (r : ReadsHTTP)
    (tables : Tables) :
    (∃ problem, ∀ commit, handleIntents cfg { faults with commit := commit } now r tables =
      (.error problem, tables)) ∨
    ∃ request rows audit, admitIntents cfg now r = .ok request ∧
      faults.beginOK = true ∧ faults.scanOK = true ∧
      scanIntents cfg.env r request.bounds request.reason.isSome tables.intents = some rows ∧
      auditIntents faults r request (pageOf rows request.bounds.limit intentCursor).rows =
        some audit ∧
      ∀ commit, handleIntents cfg { faults with commit := commit } now r tables =
        commitIntents { faults with commit := commit } ⟨r.resourceType, r.resourceID,
          pageOf rows request.bounds.limit intentCursor⟩ audit tables := by
  have haudit : ∀ commit request page,
      auditIntents { faults with commit := commit } r request page =
        auditIntents faults r request page := fun _ _ _ => rfl
  simp only [handleIntents, haudit]
  cases hasked : admitIntents cfg now r with
  | error problem => exact .inl ⟨problem, fun _ => rfl⟩
  | ok request =>
    dsimp only
    split_ifs with hok
    · rw [Bool.and_eq_true] at hok
      cases hscan : scanIntents cfg.env r request.bounds request.reason.isSome tables.intents with
      | none => exact .inl ⟨_, fun _ => rfl⟩
      | some rows =>
        dsimp only
        cases haudit : auditIntents faults r request
            (pageOf rows request.bounds.limit intentCursor).rows with
        | none => exact .inl ⟨_, fun _ => rfl⟩
        | some audit =>
          exact .inr ⟨request, rows, audit, rfl, hok.1, hok.2, hscan, haudit, fun _ => rfl⟩
    · exact .inl ⟨_, fun _ => rfl⟩

/-- **What `handleIntents` does**: it answers with a problem and writes nothing, or every step up to
the commit succeeds. -/
lemma handleIntents_cases (cfg : Settings) (faults : Faults) (now : ℤ) (r : ReadsHTTP)
    (tables : Tables) :
    (∃ problem, handleIntents cfg faults now r tables = (.error problem, tables)) ∨
    ∃ request rows audit, admitIntents cfg now r = .ok request ∧
      faults.beginOK = true ∧ faults.scanOK = true ∧
      scanIntents cfg.env r request.bounds request.reason.isSome tables.intents = some rows ∧
      auditIntents faults r request (pageOf rows request.bounds.limit intentCursor).rows =
        some audit ∧
      handleIntents cfg faults now r tables =
        commitIntents faults ⟨r.resourceType, r.resourceID,
          pageOf rows request.bounds.limit intentCursor⟩ audit tables := by
  rcases handleIntents_upToCommit cfg faults now r tables with
    ⟨problem, heq⟩ | ⟨request, rows, audit, hasked, hbegin, hscan, hrows, haudit, heq⟩
  · exact .inl ⟨problem, heq faults.commit⟩
  · exact .inr ⟨request, rows, audit, hasked, hbegin, hscan, hrows, haudit, heq faults.commit⟩

/-- **What a page of `handleConflicts` is made of.** -/
lemma handleConflicts_ok_iff {cfg : Settings} {now : ℤ} {r : ReadsHTTP} {tables : Tables}
    {page : Page ConflictRow} :
    handleConflicts cfg true now r tables = .ok page ↔
      ∃ caller bounds rows, readerIdentity r = .ok caller ∧
        readWindow cfg.table cfg.readMaxSpan now r.query = .ok bounds ∧
        r.query.get "include" = [] ∧ scanConflicts r bounds tables.conflicts = some rows ∧
        page = pageOf rows bounds.limit conflictCursor := by
  constructor
  · intro h
    unfold handleConflicts at h
    split at h
    · cases h
    · next caller hcaller =>
      split at h
      · cases h
      · next bounds hbounds =>
        split_ifs at h with hinclude
        split at h
        · cases h
        · next rows hrows =>
          exact ⟨caller, bounds, rows, hcaller, hbounds, not_not.mp hinclude, hrows,
            (Except.ok.inj h).symm⟩
  · rintro ⟨caller, bounds, rows, hcaller, hbounds, hinclude, hrows, rfl⟩
    simp [handleConflicts, hcaller, hbounds, hinclude, hrows]

/-- A page holds rows that were scanned. -/
lemma mem_of_mem_pageOf {α : Type} {rows : List α} {limit : ℕ} {key : α → List UInt8} {x : α}
    (h : x ∈ (pageOf rows limit key).rows) : x ∈ rows := by
  simp only [pageOf, paginate] at h
  split_ifs at h
  · exact h
  · exact List.mem_of_mem_take h

end Reads
end Idemio
