import Idemio.Api.Response
import Idemio.Base.Interleave
import Idemio.Base.Locks

set_option relaxedAutoImplicit false
set_option autoImplicit false

/-!
# Processes and what they share

The parties of the system: handlers of `POST /v1/writes`, sweeps of the reconciler and
retention passes, any number of each, all working on one database, one object store and one
downstream. A process stands at a point of its Go code (`Idemio.Handler`, `Idemio.Sweep`,
`Idemio.Expire`); between two such points it executes one SQL statement, one call to the
object store or the downstream, or nothing that others can see.

## Main definitions

* `Idemio.Handler`, `Idemio.Sweep`, `Idemio.Expire`, `Idemio.Proc` — the processes.
* `Idemio.Shared` — the committed tables, the locks, the object store and the downstream.
* `Idemio.ClaimTx.apply`, `Idemio.completeApply`, `Idemio.expireApply` — what a commit
  does to the tables.

## Design

A transaction's own writes stay in the local state of its process until it commits, which is
what READ COMMITTED shows of them: every statement reads the rows committed so far and the
transaction's own. A row that a transaction has written is locked for others until it ends,
and so is the primary key of a row it has inserted; the advisory lock of a resource is held to
the end of the transaction as well.

The retention of this system is that of keys. Rows of `write_intents` and `conflicts` go with their
partitions, which no step here retires.

Some components record what happened and are read by no process: `Shared.claims`,
`Shared.drawn`, `Shared.tick`, `Owned.attempt`, `Completion.attempt`, `Completion.body`,
`Stale.attempt`, and the ticks of a `Call`.
-/

namespace Idemio

/-! ## Processes -/

/-- A claim that was won: the request, the intent and the attempt it is for. -/
structure Owned where
  req : Request
  intentID : Nat
  attempt : Nat
  deriving DecidableEq, Repr

/-- Where a `Complete` stands. From `void` on, `row` is the transaction's own version of the
key row. -/
inductive CompletePhase
  | begin
  | update (now : Time)
  | void (now : Time) (row : KeyRow)
  | commit (now : Time) (row : KeyRow) (voided : Option IntentRow)
  deriving DecidableEq, Repr

/-- A `Complete` on behalf of an attempt, with the retries that are left after it and the
result that was handed to `Place`. -/
structure Completion where
  args : CompleteArgs
  attempt : Nat
  body : RawMessage
  tries : Nat
  phase : CompletePhase

/-- The handler of one `POST /v1/writes`, from the admission of the request on. -/
inductive Handler
  /-- `claimWithSerialization`, before the transaction. -/
  | begin (req : Request)
  /-- `lockResource`. -/
  | lock (req : Request) (now : Time)
  /-- `insertClaim`. -/
  | insert (req : Request) (now : Time)
  /-- `readRecord` of `claimKey`. -/
  | read (req : Request) (now : Time)
  /-- `reclaim`. -/
  | reclaim (req : Request) (now : Time) (existing : Record)
  /-- `recordIntent`. -/
  | record (req : Request) (now : Time) (row : KeyRow)
  /-- `conflictingIntents`. -/
  | window (tx : ClaimTx)
  /-- `firstPending`. -/
  | statuses (tx : ClaimTx) (same : List IntentRow)
  /-- The commit of `Claim`. -/
  | commit (tx : ClaimTx) (verdict : Verdict)
  /-- `waitForTerminal`. -/
  | wait (req : Request) (blocking : KeyID)
  /-- `awaitCompletion`. -/
  | await (record : Record)
  /-- `writeExisting`. -/
  | existing (record : Record)
  /-- `execute`, before the call. -/
  | execute (own : Owned)
  /-- `downstream.Execute`. -/
  | calling (own : Owned)
  /-- `Place` of `persistOutcome`. -/
  | place (own : Owned) (outcome : Outcome)
  /-- The response is about to be written. -/
  | respond (k : Option KeyID) (r : Response)

/-- `reconcile.stale`, with the attempt the key was at when it was selected. -/
structure Stale where
  keyID : KeyID
  resourceType : String
  attempt : Nat
  deriving DecidableEq, Repr

/-- One `Sweep`, after its keys were selected. -/
inductive Sweep
  /-- The loop over the keys. -/
  | batch (todo : List Stale)
  /-- `Place` of `complete`. -/
  | place (c : Stale) (outcome : Outcome) (todo : List Stale)

/-- One `expireBatch`, after its rows were selected. -/
inductive Expire
  /-- The `DELETE`, row by row; `gone` are the rows it has locked and deleted. -/
  | delete (now : Time) (todo gone : List (KeyID × KeyRow))
  /-- `results.Delete`. -/
  | objects (refs : List String)

/-- What a process goes on with after a `Complete`: `persistOutcome` with the response,
`Sweep` with the rest of its keys. -/
inductive Caller
  | handler (own : Owned) (outcome : Outcome)
  | sweep (todo : List Stale)

/-- A process. -/
inductive Proc
  | idle
  | handler (h : Handler)
  | sweep (w : Sweep)
  | completing (c : Completion) (caller : Caller)
  | expire (x : Expire)
  | stopped

/-- Where a process stands after its `Complete`. -/
def Caller.resume : Caller → Proc
  | .handler own outcome =>
    .handler (.respond (some own.req.keyID) (writeOutcome own.req.key own.intentID outcome))
  | .sweep todo => .sweep (.batch todo)

/-- The next `Complete` after one that reported an error, if there is one. -/
def Completion.retry (c : Completion) : Option Completion :=
  if c.tries = 0 then none else some { c with tries := c.tries - 1, phase := .begin }

/-! ## The shared state -/

/-- What a transaction locks: the advisory lock of a resource, or a row of
`idempotency_keys`. -/
inductive LockID
  | advisory (hash : Int)
  | row (k : KeyID)
  deriving DecidableEq

/-- A downstream call is under way, has executed, or never will. -/
inductive CallState
  | sent
  | landed
  | lost
  deriving DecidableEq, Repr

/-- A downstream call, with the ticks at which it began and ended for the caller. -/
structure Call where
  own : Owned
  state : CallState
  began : Nat
  ended : Option Nat
  deriving DecidableEq, Repr

/-- A claim transaction that committed, and the process it was committed for. -/
structure Claimed where
  pid : Pid
  tx : ClaimTx
  verdict : Verdict
  deriving DecidableEq, Repr

/-- What the processes share. -/
structure Shared where
  /-- The committed tables. -/
  db : Database
  /-- The locks of open transactions. -/
  locks : Locks.Table LockID Pid
  /-- The next generated identifier. -/
  nextID : Nat
  /-- The object store. -/
  objects : Objects
  /-- The downstream call of each handler. -/
  calls : Pid → Option Call
  /-- What the downstream has executed, in order. -/
  ledger : List Owned
  /-- The process for which each intent id was generated. -/
  drawn : Nat → Option Pid
  /-- The claim transactions that have committed, in order. -/
  claims : List Claimed
  /-- The number of times a call has begun or ended for its caller. -/
  tick : Nat

/-- How often the downstream has executed the write of a key. -/
def Shared.executions (sh : Shared) (k : KeyID) : Nat :=
  (sh.ledger.filter (·.req.keyID = k)).length

/-- Nothing has happened yet. -/
def Shared.init : Shared where
  db := ⟨∅, [], []⟩
  locks := fun _ => none
  nextID := 0
  objects := fun _ => none
  calls := fun _ => none
  ledger := []
  drawn := fun _ => none
  claims := []
  tick := 0

/-- The advisory lock of a resource. -/
def resourceLock (env : Env) (resourceType resourceID : String) : LockID :=
  .advisory (env.hashtextextended (resourceType ++ ":" ++ resourceID))

/-- The lock that `lockResource` takes. -/
def lockKey (env : Env) (req : Request) : LockID :=
  resourceLock env req.resourceType req.resourceID

/-! ## What a commit does -/

/-- The commit of a claim transaction. -/
def ClaimTx.apply (tx : ClaimTx) (db : Database) : Database where
  keys := db.keys.insert tx.req.keyID tx.row
  intents := db.intents ++ [tx.intent]
  conflicts := db.conflicts ++ tx.conflicts

/-- The commit of a `Complete`. -/
def completeApply (k : KeyID) (now : Time) (row : KeyRow) (voided : Option IntentRow)
    (db : Database) : Database where
  keys := db.keys.insert k row
  intents := voidLatest now voided db.intents
  conflicts := db.conflicts

/-- The commit of an `expireKeys`. -/
def expireApply (gone : List (KeyID × KeyRow)) (db : Database) : Database :=
  { db with keys := gone.foldl (fun keys e => keys.erase e.1) db.keys }

/-- The references of deleted rows whose objects are to be deleted. -/
def expiredRefs (gone : List (KeyID × KeyRow)) : List String :=
  (gone.filterMap (·.2.resultRef)).filter (· ≠ "")

end Idemio
