import Mathlib.Data.List.AList
import Idemio.Conflict

set_option relaxedAutoImplicit false
set_option autoImplicit false

/-!
# The tables and the statements on them

The three tables of `migrations/` that the claim and completion transactions read and write,
and the SQL statements of `internal/claim`, `internal/reconcile` and `internal/maintenance`
on them. A statement is a function of the rows it reads and writes; which transaction sees
which rows is decided in `Idemio.System.Step`.

## Main definitions

* `Idemio.KeyRow`, `Idemio.IntentRow`, `Idemio.ConflictRow`, `Idemio.Database` — the tables.
* `Idemio.Request` — what a claim is made for.
* `Idemio.insertKey`, `Idemio.reclaimKey`, `Idemio.rejectKey`, `Idemio.completeKey` — the
  statements that write a key row.
* `Idemio.insertIntent`, `Idemio.voidIntent`, `Idemio.voidLatest` — those that write an intent.
* `Idemio.SelectWindow`, `Idemio.SelectStatuses`, `Idemio.SelectStale`, `Idemio.SelectExpired` —
  what a scan may return. SQL leaves the order of rows that compare equal open, so these are
  predicates on the returned rows.

## Design

Times are microseconds, the resolution of `timestamptz`; `now()` is the start of the
transaction. Generated identifiers (`uuidv7()`) are numbers drawn from a counter, which keeps
what the code relies on: no two are equal. A stored `jsonb` is the value that was stored; the
text Postgres prints for it is a parameter (`Env.jsonbText`), because the layer hands that text
on without reading it.
-/

namespace Idemio

/-- `json.RawMessage`, bytes. -/
abbrev RawMessage := List UInt8

/-- Microseconds since the epoch. -/
abbrev Time := Int

/-- A database session together with the process that uses it. -/
abbrev Pid := Nat

/-- The primary key of `idempotency_keys`. -/
structure KeyID where
  agentID : String
  key : String
  deriving DecidableEq, Repr

/-- `claim.Status`, the Postgres enum `key_status`. -/
inductive Status
  | pending
  | done
  | failed
  | indeterminate
  | rejected
  deriving DecidableEq, Repr

/-- The text of a status. -/
def Status.text : Status → String
  | .pending => "pending"
  | .done => "done"
  | .failed => "failed"
  | .indeterminate => "indeterminate"
  | .rejected => "rejected"

/-- `Status.terminal`. -/
def Status.terminal (s : Status) : Bool := s ≠ .pending

/-- `claim.Resolution`. -/
inductive Resolution
  | serialized
  | rejected
  | observed
  deriving DecidableEq, Repr

/-- A value in a JSON object that the layer builds itself. -/
inductive Json
  | str (s : String)
  | uuid (id : Nat)
  | int (n : Int)
  | bool (b : Bool)
  | raw (m : RawMessage)
  deriving DecidableEq, Repr

/-- A stored `jsonb`: a document received from outside, or an object built by the layer. -/
inductive Jsonb
  | document (m : RawMessage)
  | object (fields : List (String × Json))
  deriving DecidableEq, Repr

/-- What the layer uses of Postgres, of other packages and of its configuration. -/
structure Env where
  /-- `hashtextextended(text, 0)`. -/
  hashtextextended : String → Int
  /-- The text Postgres prints for a stored `jsonb`. -/
  jsonbText : Jsonb → RawMessage
  /-- `canonical.Hash`, of agent, operation, payload, resource id and resource type. -/
  canonicalHash : String → String → RawMessage → String → String → Except String String
  /-- `sha256.Sum256`. -/
  sha256 : List UInt8 → List UInt8
  /-- Whether an object store is configured. -/
  objectStore : Bool
  /-- `IDEMIO_LIMITS_RESULT_INLINE_BYTES`. -/
  resultInlineBytes : Int
  /-- `IDEMIO_OUTCOME_WRITE_ATTEMPTS`. -/
  outcomeWriteAttempts : Nat
  /-- `IDEMIO_CLAIM_PENDING_WAIT_MS`. -/
  claimPendingWait : Time
  /-- `IDEMIO_RECONCILE_STALE_AFTER`. -/
  reconcileStaleAfter : Time
  /-- `IDEMIO_RETENTION_KEYS`. -/
  retentionKeys : Time
  /-- Postgres prints something for every value. -/
  jsonbText_ne_nil : ∀ j, jsonbText j ≠ []
  /-- `Config.Validate` refuses fewer attempts. -/
  outcomeWriteAttempts_pos : 0 < outcomeWriteAttempts

/-- A row of `idempotency_keys`, its primary key apart. `tuple` is no column: it says which
`INSERT` the row goes back to, as Postgres tells an updated row from one that was deleted and
inserted again. -/
structure KeyRow where
  requestHash : String
  status : Status
  resourceType : String
  resourceID : String
  operation : String
  result : Option Jsonb
  resultRef : Option String
  outcomeDetail : Option String
  attemptCount : Nat
  createdAt : Time
  claimedAt : Time
  completedAt : Option Time
  tuple : Nat
  deriving DecidableEq, Repr

/-- A row of `write_intents`; `declared` is the pair `operation_class`, `scope_selector`. -/
structure IntentRow where
  intentID : Nat
  agentID : String
  key : String
  resourceType : String
  resourceID : String
  operation : String
  declared : Operation
  payload : RawMessage
  emittedAt : Time
  voidedAt : Option Time
  deriving DecidableEq, Repr

/-- The key an intent belongs to. -/
def IntentRow.keyID (i : IntentRow) : KeyID := ⟨i.agentID, i.key⟩

/-- The intent has not been voided. -/
def IntentRow.live (i : IntentRow) : Bool := i.voidedAt.isNone

/-- A row of `conflicts`. -/
structure ConflictRow where
  conflictID : Nat
  intentIDA : Nat
  intentIDB : Nat
  agentIDA : String
  agentIDB : String
  resourceType : String
  resourceID : String
  reason : String
  resolution : Resolution
  manifestVersion : String
  detectedAt : Time
  deriving DecidableEq, Repr

/-- The committed contents of the tables. Intents and conflicts stand in commit order. -/
structure Database where
  keys : AList (fun _ : KeyID => KeyRow)
  intents : List IntentRow
  conflicts : List ConflictRow

/-- The intents of one key, in commit order. -/
def Database.intentsOf (db : Database) (k : KeyID) : List IntentRow :=
  db.intents.filter (·.keyID = k)

/-- `claim.Request`. How long the lock may be waited for is left out: when the wait runs out
is the database's choice. -/
structure Request where
  agentID : String
  key : String
  requestHash : String
  resourceType : String
  resourceID : String
  operation : String
  declared : Operation
  payload : RawMessage
  window : Time
  enforce : Bool
  manifestVersion : String
  deriving DecidableEq, Repr

/-- The key a request claims. -/
def Request.keyID (req : Request) : KeyID := ⟨req.agentID, req.key⟩

/-! ## Key rows -/

/-- The row that `insertKey` writes. -/
def insertKey (req : Request) (now : Time) (tuple : Nat) : KeyRow where
  requestHash := req.requestHash
  status := .pending
  resourceType := req.resourceType
  resourceID := req.resourceID
  operation := req.operation
  result := none
  resultRef := none
  outcomeDetail := none
  attemptCount := 1
  createdAt := now
  claimedAt := now
  completedAt := none
  tuple := tuple

/-- `reclaimKey`: the new version of a failed row; no row is updated in any other status. -/
def reclaimKey (now : Time) (row : KeyRow) : Option KeyRow :=
  if row.status = .failed then
    some { row with
      status := .pending
      claimedAt := now
      completedAt := none
      attemptCount := row.attemptCount + 1
      result := none
      resultRef := none
      outcomeDetail := none }
  else none

/-- The row that `reclaimKey` updates, and its new version. -/
lemma reclaimKey_eq_some {now : Time} {old row : KeyRow} :
    reclaimKey now old = some row ↔ old.status = .failed ∧
      row = { old with
        status := .pending
        claimedAt := now
        completedAt := none
        attemptCount := old.attemptCount + 1
        result := none
        resultRef := none
        outcomeDetail := none } := by
  unfold reclaimKey
  split
  · next h =>
    simp only [Option.some.injEq, h, true_and]
    exact eq_comm
  · next h => simp [h]

/-- `rejectKey`, which is guarded by the primary key alone. -/
def rejectKey (now : Time) (body : Jsonb) (detail : String) (row : KeyRow) : KeyRow :=
  { row with
    status := .rejected
    completedAt := some now
    result := some body
    outcomeDetail := some detail }

/-- The arguments of `Complete`. Its callers complete a key as done, failed or indeterminate
and pass a result inline or by reference, never both. -/
structure CompleteArgs where
  keyID : KeyID
  status : Status
  result : RawMessage
  resultRef : String
  detail : String
  settles : status = .done ∨ status = .failed ∨ status = .indeterminate
  inline_xor_ref : result = [] ∨ resultRef = ""

/-- `completeKey`: the new version of a pending row; no row is updated in any other status.
Empty values are stored as `NULL`. -/
def completeKey (args : CompleteArgs) (now : Time) (row : KeyRow) : Option KeyRow :=
  if row.status = .pending then
    some { row with
      status := args.status
      result := if args.result.isEmpty then none else some (.document args.result)
      resultRef := if args.resultRef = "" then none else some args.resultRef
      outcomeDetail := if args.detail = "" then none else some args.detail
      completedAt := some now }
  else none

/-- The row that `completeKey` updates, and its new version. -/
lemma completeKey_eq_some {args : CompleteArgs} {now : Time} {old row : KeyRow} :
    completeKey args now old = some row ↔ old.status = .pending ∧
      row = { old with
        status := args.status
        result := if args.result.isEmpty then none else some (.document args.result)
        resultRef := if args.resultRef = "" then none else some args.resultRef
        outcomeDetail := if args.detail = "" then none else some args.detail
        completedAt := some now } := by
  unfold completeKey
  split
  · next h =>
    simp only [Option.some.injEq, h, true_and]
    exact eq_comm
  · next h => simp [h]

/-! ## Intents and conflicts -/

/-- The row that `insertIntent` writes. -/
def insertIntent (req : Request) (now : Time) (intentID : Nat) : IntentRow where
  intentID := intentID
  agentID := req.agentID
  key := req.key
  resourceType := req.resourceType
  resourceID := req.resourceID
  operation := req.operation
  declared := req.declared
  payload := req.payload
  emittedAt := now
  voidedAt := none

/-- `voidIntent`, on one row. -/
def voidIntent (now : Time) (intentID : Nat) (emittedAt : Time) (i : IntentRow) : IntentRow :=
  if i.intentID = intentID ∧ i.emittedAt = emittedAt then { i with voidedAt := some now } else i

/-- Voiding changes `voided_at` and nothing else. -/
lemma voidIntent_eq (now : Time) (n : Nat) (t : Time) (i : IntentRow) :
    voidIntent now n t i = i ∨ voidIntent now n t i = { i with voidedAt := some now } := by
  unfold voidIntent
  split
  · exact .inr rfl
  · exact .inl rfl

@[simp] lemma voidIntent_intentID (now : Time) (n : Nat) (t : Time) (i : IntentRow) :
    (voidIntent now n t i).intentID = i.intentID := by
  rcases voidIntent_eq now n t i with h | h <;> rw [h]

@[simp] lemma voidIntent_keyID (now : Time) (n : Nat) (t : Time) (i : IntentRow) :
    (voidIntent now n t i).keyID = i.keyID := by
  rcases voidIntent_eq now n t i with h | h
  · rw [h]
  · rw [h]
    rfl

/-- A voided intent stays voided. -/
lemma live_of_voidIntent {now : Time} {n : Nat} {t : Time} {i : IntentRow}
    (h : (voidIntent now n t i).live = true) : voidIntent now n t i = i := by
  rcases voidIntent_eq now n t i with he | he
  · exact he
  · rw [he] at h
    simp [IntentRow.live] at h

/-- The `WHERE` of `selectWindow`. -/
def inWindow (req : Request) (now : Time) (exclude : Nat) (i : IntentRow) : Bool :=
  i.resourceType = req.resourceType && i.resourceID = req.resourceID &&
    now - req.window < i.emittedAt && i.live && i.intentID ≠ exclude

/-- What `selectWindow` may return: the matching rows, most recent first. -/
def SelectWindow (db : Database) (req : Request) (now : Time) (exclude : Nat)
    (rows : List IntentRow) : Prop :=
  rows.Perm (db.intents.filter (inWindow req now exclude)) ∧
    rows.Pairwise fun a b => b.emittedAt ≤ a.emittedAt

instance (db : Database) (req : Request) (now : Time) (exclude : Nat) (rows : List IntentRow) :
    Decidable (SelectWindow db req now exclude rows) :=
  inferInstanceAs (Decidable (_ ∧ _))

/-- The statuses of those keys of an agent that have a row. -/
def statusesOf (keys : AList (fun _ : KeyID => KeyRow)) (agentID : String) (ks : List String) :
    List (String × Status) :=
  ks.dedup.filterMap fun k => (keys.lookup ⟨agentID, k⟩).map fun row => (k, row.status)

/-- What `selectStatuses` may return: one row for each key asked for that exists, in any
order. -/
def SelectStatuses (keys : AList (fun _ : KeyID => KeyRow)) (agentID : String)
    (ks : List String) (rows : List (String × Status)) : Prop :=
  rows.Perm (statusesOf keys agentID ks)

instance (keys : AList (fun _ : KeyID => KeyRow)) (agentID : String) (ks : List String)
    (rows : List (String × Status)) : Decidable (SelectStatuses keys agentID ks rows) :=
  inferInstanceAs (Decidable (List.Perm _ _))

/-- What the `latest` of `voidLatestIntent` may return among the intents of its key: a live
one with the greatest `emitted_at`, or nothing when none is live. -/
def Latest (intents : List IntentRow) : Option IntentRow → Prop
  | none => ∀ i ∈ intents, i.live = false
  | some i => i ∈ intents ∧ i.live = true ∧
      ∀ j ∈ intents, j.live = true → j.emittedAt ≤ i.emittedAt

instance (intents : List IntentRow) : (found : Option IntentRow) → Decidable (Latest intents found)
  | none => inferInstanceAs (Decidable (∀ i ∈ intents, i.live = false))
  | some i => inferInstanceAs (Decidable (i ∈ intents ∧ i.live = true ∧
      ∀ j ∈ intents, j.live = true → j.emittedAt ≤ i.emittedAt))

/-- The `UPDATE` of `voidLatestIntent`, for the intent that was found. -/
def voidLatest (now : Time) : Option IntentRow → List IntentRow → List IntentRow
  | none, intents => intents
  | some i, intents => intents.map (voidIntent now i.intentID i.emittedAt)

/-- What is live after `voidLatest` was there before, as it is. -/
lemma mem_of_mem_voidLatest {now : Time} {found : Option IntentRow} {intents : List IntentRow}
    {i : IntentRow} (h : i ∈ voidLatest now found intents) :
    ∃ j ∈ intents, j.intentID = i.intentID ∧ j.keyID = i.keyID ∧ (i.live = true → j = i) := by
  cases found with
  | none => exact ⟨i, h, rfl, rfl, fun _ => rfl⟩
  | some v =>
    obtain ⟨j, hj, rfl⟩ := List.mem_map.mp h
    exact ⟨j, hj, (voidIntent_intentID ..).symm, (voidIntent_keyID ..).symm,
      fun hl => (live_of_voidIntent hl).symm⟩

@[simp] lemma map_intentID_voidLatest (now : Time) (found : Option IntentRow)
    (intents : List IntentRow) :
    (voidLatest now found intents).map (·.intentID) = intents.map (·.intentID) := by
  cases found <;> simp [voidLatest]

/-- An intent as it was inserted. -/
def IntentRow.inserted (i : IntentRow) : IntentRow := { i with voidedAt := none }

/-- Intents that were inserted alike have the same identifier and the same key. -/
lemma IntentRow.eq_of_inserted {i j : IntentRow} (h : j.inserted = i.inserted) :
    j.intentID = i.intentID ∧ j.keyID = i.keyID :=
  ⟨show j.inserted.intentID = i.inserted.intentID by rw [h],
    show j.inserted.keyID = i.inserted.keyID by rw [h]⟩

@[simp] lemma voidIntent_inserted (now : Time) (n : Nat) (t : Time) (i : IntentRow) :
    (voidIntent now n t i).inserted = i.inserted := by
  rcases voidIntent_eq now n t i with h | h
  · rw [h]
  · rw [h]
    rfl

@[simp] lemma map_inserted_voidLatest (now : Time) (found : Option IntentRow)
    (intents : List IntentRow) :
    (voidLatest now found intents).map (·.inserted) = intents.map (·.inserted) := by
  cases found <;> simp [voidLatest]

/-! ## Scans over the keys -/

/-- The `WHERE` of `selectStale`. -/
def stale (env : Env) (now : Time) (row : KeyRow) : Bool :=
  row.status = .pending && row.claimedAt < now - env.reconcileStaleAfter

/-- `reconcile.defaultBatch`. -/
def defaultBatch : Nat := 200

/-- `maintenance.batchSize`. -/
def batchSize : Nat := 1000

/-- What a scan with `ORDER BY` some time and `LIMIT` may return of the rows that match `p`:
distinct rows in order, all of them or as many as the limit allows, and none that comes after
one that was left out. -/
structure SelectKeys (keys : AList (fun _ : KeyID => KeyRow)) (p : KeyRow → Bool)
    (rank : KeyRow → Time) (limit : Nat) (rows : List (KeyID × KeyRow)) : Prop where
  nodup : (rows.map Prod.fst).Nodup
  found : ∀ e ∈ rows, keys.lookup e.1 = some e.2 ∧ p e.2 = true
  sorted : rows.Pairwise fun a b => rank a.2 ≤ rank b.2
  short : rows.length ≤ limit
  complete : ∀ e ∈ keys.entries, p e.2 = true → e.1 ∉ rows.map Prod.fst →
    rows.length = limit ∧ ∀ r ∈ rows, rank r.2 ≤ rank e.2

instance (keys : AList (fun _ : KeyID => KeyRow)) (p : KeyRow → Bool) (rank : KeyRow → Time)
    (limit : Nat) (rows : List (KeyID × KeyRow)) : Decidable (SelectKeys keys p rank limit rows) :=
  decidable_of_iff
    ((rows.map Prod.fst).Nodup ∧ (∀ e ∈ rows, keys.lookup e.1 = some e.2 ∧ p e.2 = true) ∧
      (rows.Pairwise fun a b => rank a.2 ≤ rank b.2) ∧ rows.length ≤ limit ∧
      ∀ e ∈ keys.entries, p e.2 = true → e.1 ∉ rows.map Prod.fst →
        rows.length = limit ∧ ∀ r ∈ rows, rank r.2 ≤ rank e.2)
    ⟨fun ⟨h₁, h₂, h₃, h₄, h₅⟩ => ⟨h₁, h₂, h₃, h₄, h₅⟩,
      fun ⟨h₁, h₂, h₃, h₄, h₅⟩ => ⟨h₁, h₂, h₃, h₄, h₅⟩⟩

/-- What `selectStale` may return. -/
def SelectStale (env : Env) (db : Database) (now : Time) (rows : List (KeyID × KeyRow)) : Prop :=
  SelectKeys db.keys (stale env now) (·.claimedAt) defaultBatch rows

instance (env : Env) (db : Database) (now : Time) (rows : List (KeyID × KeyRow)) :
    Decidable (SelectStale env db now rows) :=
  inferInstanceAs (Decidable (SelectKeys _ _ _ _ _))

/-- The `WHERE` of the `expired` of `expireKeys`. -/
def pastRetention (env : Env) (now : Time) (row : KeyRow) : Bool :=
  row.createdAt < now - env.retentionKeys

/-- What the `expired` of `expireKeys` may return; it has a limit and no order. -/
def SelectExpired (env : Env) (db : Database) (now : Time) (rows : List (KeyID × KeyRow)) :
    Prop :=
  SelectKeys db.keys (pastRetention env now) (fun _ => 0) batchSize rows

instance (env : Env) (db : Database) (now : Time) (rows : List (KeyID × KeyRow)) :
    Decidable (SelectExpired env db now rows) :=
  inferInstanceAs (Decidable (SelectKeys _ _ _ _ _))

end Idemio
