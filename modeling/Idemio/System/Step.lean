import Mathlib.Tactic.Simps.Basic
import Idemio.System.State

set_option relaxedAutoImplicit false
set_option autoImplicit false

/-!
# The steps of the system

One definition for each step of a process, named after what the Go code does there, and
`Idemio.step`, the step of the whole system. Where the code leaves something open (the time,
the order of rows that compare equal, the answer of the downstream, whether a lock wait or a
commit ends in an error) the action says what happened.

## Main definitions

* `Idemio.Action` — the actions.
* `Idemio.act` — the step of one process.
* `Idemio.step`, `Idemio.init` — the system.

## Design

A statement that has to wait for a lock is not enabled while another transaction holds it;
that the wait may end in a timeout is an action of its own. `UPDATE ... WHERE status = ...`
looks at the committed row when it takes the row lock, as READ COMMITTED does after a wait, and
returns without a lock when that row does not match. `INSERT ... ON CONFLICT DO NOTHING` waits
for an uncommitted insert of its key. The time of a transaction is chosen at its begin and
nothing is assumed about it: it need not increase from one transaction to the next.
-/

namespace Idemio

/-- How a commit ends: it succeeds, it fails and nothing is committed, or it takes effect and
the caller sees an error all the same. -/
inductive CommitOutcome
  | ok
  | refused
  | unseen
  deriving DecidableEq, Repr

/-- What a probe of a stale key gives. -/
inductive Answer
  | unregistered
  | unreachable
  | executed (result : RawMessage)
  | notExecuted
  | unknown
  deriving DecidableEq, Repr

/-- The actions of a process and of its downstream call. -/
inductive Action
  | start (snapshot : Snapshot) (http : WriteHTTP)
  | begin (now : Time)
  | lock
  | lockTimeout
  | insert
  | read
  | reclaim
  | record
  | window (rows : List IntentRow)
  | statuses (rows : List (String × Status))
  | commit (outcome : CommitOutcome)
  | fail
  | waited
  | waitExpired
  | poll
  | pollExpired
  | reply (getOK : Bool) (wait : Int)
  | call
  | land
  | lose
  | ret (outcome : Outcome)
  | place (putOK : Bool)
  | update
  | void (found : Option IntentRow)
  | sweep (now : Time) (rows : List (KeyID × KeyRow))
  | resolve (answer : Answer)
  | expire (now : Time) (rows : List (KeyID × KeyRow))
  | delete
  | deleteObjects (ok : Bool)
  | finish
  | crash

/-- The action is a commit that takes effect. -/
def Action.commits : Action → Bool
  | .commit .ok => true
  | .commit .unseen => true
  | _ => false

/-- The end of a transaction: its locks are released. -/
@[simps] def Shared.unlock (p : Pid) (sh : Shared) : Shared :=
  { sh with locks := Locks.release sh.locks p }

/-- A transaction takes a lock. -/
@[simps] def Shared.take (p : Pid) (l : LockID) (sh : Shared) : Shared :=
  { sh with locks := Locks.acquire sh.locks l p }

/-- The response to a claim that failed. -/
def claimFailed (req : Request) : Handler :=
  .respond (some req.keyID) (writeProblem 500 req.key "claim_failed" "")

/-! ## The claim -/

/-- `handleWrite` up to the claim. -/
def startWrite (env : Env) (snapshot : Snapshot) (http : WriteHTTP) : Handler :=
  match admission env snapshot http with
  | .error r => .respond none r
  | .ok req => .begin req

/-- `lockResource`. -/
def lockResource (env : Env) (p : Pid) (sh : Shared) (req : Request) (now : Time) :
    Action → Option (Shared × Handler)
  | .lock =>
    if sh.locks (lockKey env req) = none then
      some (sh.take p (lockKey env req), .insert req now)
    else none
  | .lockTimeout =>
    if sh.locks (lockKey env req) = none then none
    else some (sh, .respond (some req.keyID) (writeNotExecuted req.key "resource_busy"))
  | _ => none

/-- `insertClaim`. -/
def insertClaim (p : Pid) (sh : Shared) (req : Request) (now : Time) :
    Option (Shared × Handler) :=
  if sh.db.keys.lookup req.keyID = none then
    if sh.locks (.row req.keyID) = none then
      some ({ sh.take p (.row req.keyID) with nextID := sh.nextID + 1 },
        .record req now (insertKey req now sh.nextID))
    else none
  else some (sh, .read req now)

/-- The handler of a request that found its key taken. -/
def existingRecord (env : Env) (record : Record) : Handler :=
  if record.status = .pending ∧ 0 < env.claimPendingWait then .await record else .existing record

/-- The response to a request whose key was used with another body. -/
def hashMismatch (req : Request) : Handler :=
  .respond (some req.keyID) (writeProblem 422 req.key "request_hash_mismatch"
    "This key was previously used with a different request body.")

/-- `readRecord` of `claimKey`, and what `claimKey` makes of the record. The transaction of a
request that is not fresh is rolled back. -/
def readExisting (env : Env) (p : Pid) (sh : Shared) (req : Request) (now : Time) :
    Shared × Handler :=
  match sh.db.keys.lookup req.keyID with
  | none => (sh.unlock p, claimFailed req)
  | some row =>
    let existing := readRecord env req.keyID row
    if existing.requestHash ≠ req.requestHash then (sh.unlock p, hashMismatch req)
    else if existing.status ≠ .failed then (sh.unlock p, existingRecord env existing)
    else (sh, .reclaim req now existing)

/-- `reclaim`, and what `claimKey` makes of it. -/
def reclaim (env : Env) (p : Pid) (sh : Shared) (req : Request) (now : Time)
    (existing : Record) : Option (Shared × Handler) :=
  match (sh.db.keys.lookup req.keyID).bind (reclaimKey now) with
  | none => some (sh.unlock p, existingRecord env { existing with status := .pending })
  | some row =>
    if sh.locks (.row req.keyID) = none then
      some (sh.take p (.row req.keyID), .record req now row)
    else none

/-- `recordIntent`. -/
def recordIntent (p : Pid) (sh : Shared) (req : Request) (now : Time) (row : KeyRow) :
    Shared × Handler :=
  ({ sh with
      nextID := sh.nextID + 1
      drawn := Function.update sh.drawn sh.nextID (some p) },
    .window ⟨req, now, row, insertIntent req now sh.nextID, []⟩)

/-- The rows of the window are read, and `resolveConflicts` judges by them. -/
def readWindow (env : Env) (sh : Shared) (tx : ClaimTx) (rows : List IntentRow) :
    Option (Shared × Handler) :=
  if SelectWindow sh.db tx.req tx.now tx.intent.intentID rows then
    match resolveConflicts env tx sh.nextID rows with
    | .settled tx' verdict =>
      some ({ sh with nextID := sh.nextID + tx'.conflicts.length }, .commit tx' verdict)
    | .check same => some (sh, .statuses tx same)
  else none

/-- The statuses of the conflicting keys are read, and `resolveConflicts` judges by them. A
transaction that has to wait for another key is rolled back. -/
def readStatuses (p : Pid) (sh : Shared) (tx : ClaimTx) (same : List IntentRow)
    (rows : List (String × Status)) : Option (Shared × Handler) :=
  if SelectStatuses (sh.db.keys.insert tx.req.keyID tx.row) tx.req.agentID
      (same.map (·.key)) rows then
    match resolveStatuses tx sh.nextID same rows with
    | .inl blocking => some (sh.unlock p, .wait tx.req ⟨tx.req.agentID, blocking⟩)
    | .inr tx' =>
      some ({ sh with nextID := sh.nextID + tx'.conflicts.length }, .commit tx' (.claimed 0))
  else none

/-- A claim transaction takes effect. -/
@[simps] def Shared.applyClaim (p : Pid) (tx : ClaimTx) (verdict : Verdict) (sh : Shared) :
    Shared :=
  { sh.unlock p with
    db := tx.apply sh.db
    claims := sh.claims ++ [⟨p, tx, verdict⟩] }

/-- What the handler does after its claim has committed. -/
def afterClaim (tx : ClaimTx) : Verdict → Handler
  | .claimed _ => .execute ⟨tx.req, tx.intent.intentID, tx.row.attemptCount⟩
  | .rejected stored => .respond (some tx.req.keyID) (writeRaw 409 stored)

/-- `tx.Commit` of `Claim`. -/
def commitClaim (p : Pid) (sh : Shared) (tx : ClaimTx) (verdict : Verdict) :
    CommitOutcome → Shared × Handler
  | .ok => (sh.applyClaim p tx verdict, afterClaim tx verdict)
  | .refused => (sh.unlock p, claimFailed tx.req)
  | .unseen => (sh.applyClaim p tx verdict, claimFailed tx.req)

/-- The committed row of a key is settled, or there is none. -/
def settled (db : Database) (k : KeyID) : Bool :=
  (db.keys.lookup k).all fun row => row.status ≠ .pending

/-- `waitForTerminal`: the claim starts again when the other key is settled; the wait may end
before, or the key may be unreadable. -/
def waitForTerminal (sh : Shared) (req : Request) (blocking : KeyID) : Action → Option Handler
  | .waited => if settled sh.db blocking then some (.begin req) else none
  | .waitExpired =>
    some (.respond (some req.keyID) (writeNotExecuted req.key "serialization_wait_expired"))
  | _ => none

/-- `awaitCompletion`: the record of a key that is found settled replaces the one at hand; the
wait may end before, or the key may be unreadable. -/
def awaitCompletion (env : Env) (sh : Shared) (record : Record) : Action → Option Handler
  | .poll =>
    match sh.db.keys.lookup record.keyID with
    | none => none
    | some row =>
      if row.status = .pending then none
      else some (.existing (readRecord env record.keyID row))
  | .pollExpired => some (.existing record)
  | _ => none

/-! ## The downstream call -/

/-- `execute` sends the call. -/
@[simps] def sendCall (p : Pid) (sh : Shared) (own : Owned) : Shared :=
  { sh with
    calls := Function.update sh.calls p (some ⟨own, .sent, sh.tick, none⟩)
    tick := sh.tick + 1 }

/-- The downstream executes a call that is under way. -/
def landCall (p : Pid) (sh : Shared) : Option Shared :=
  match sh.calls p with
  | some call =>
    if call.state = .sent then
      some { sh with
        calls := Function.update sh.calls p (some { call with state := .landed })
        ledger := sh.ledger ++ [call.own] }
    else none
  | none => none

/-- A call that is under way is lost on its way. -/
def loseCall (p : Pid) (sh : Shared) : Option Shared :=
  match sh.calls p with
  | some call =>
    if call.state = .sent then
      some { sh with calls := Function.update sh.calls p (some { call with state := .lost }) }
    else none
  | none => none

/-- For its caller, the call of a process has ended. -/
@[simps] def Shared.endCall (p : Pid) (sh : Shared) : Shared :=
  { sh with
    calls := Function.update sh.calls p
      ((sh.calls p).map fun call => { call with ended := some sh.tick })
    tick := sh.tick + 1 }

/-! ## Completions -/

/-- The `Complete` that records an outcome on behalf of an attempt. -/
def newCompletion (env : Env) (k : KeyID) (attempt : Nat) (outcome : Outcome) (putOK : Bool)
    (tries : Nat) : Completion where
  args := {
    keyID := k
    status := statusFor outcome.disposition
    result := (place env k outcome.result putOK).inline
    resultRef := (place env k outcome.result putOK).ref
    detail := outcome.detail
    settles := statusFor_settles outcome.disposition
    inline_xor_ref := place_inline_xor_ref env k outcome.result putOK }
  attempt := attempt
  body := outcome.result
  tries := tries
  phase := .begin

/-- `Place`. -/
@[simps] def placeResult (env : Env) (sh : Shared) (k : KeyID) (result : RawMessage)
    (putOK : Bool) : Shared :=
  { sh with objects := putResult env k result putOK sh.objects }

/-- The phase of a `Complete` that has updated its row. -/
def afterUpdate (args : CompleteArgs) (now : Time) (row : KeyRow) : CompletePhase :=
  if args.status = .failed then .void now row else .commit now row none

/-- `completeKey`. A `Complete` that finds its key settled returns. -/
def updateKey (p : Pid) (sh : Shared) (c : Completion) (now : Time) :
    Option (Shared × Option Completion) :=
  match (sh.db.keys.lookup c.args.keyID).bind (completeKey c.args now) with
  | none => some (sh.unlock p, none)
  | some row =>
    if sh.locks (.row c.args.keyID) = none then
      some (sh.take p (.row c.args.keyID), some { c with phase := afterUpdate c.args now row })
    else none

/-- A `Complete` takes effect. -/
@[simps] def Shared.applyComplete (p : Pid) (k : KeyID) (now : Time) (row : KeyRow)
    (voided : Option IntentRow) (sh : Shared) : Shared :=
  { sh.unlock p with db := completeApply k now row voided sh.db }

/-- `tx.Commit` of `Complete`. -/
def commitComplete (p : Pid) (sh : Shared) (c : Completion) (now : Time) (row : KeyRow)
    (voided : Option IntentRow) : CommitOutcome → Shared × Option Completion
  | .ok => (sh.applyComplete p c.args.keyID now row voided, none)
  | .refused => (sh.unlock p, c.retry)
  | .unseen => (sh.applyComplete p c.args.keyID now row voided, c.retry)

/-- The steps of a `Complete`; `none` in place of the next `Complete` means that it has
returned for the last time. -/
def completeStep (p : Pid) (sh : Shared) (c : Completion) (a : Action) :
    Option (Shared × Option Completion) :=
  match c.phase, a with
  | .begin, .begin now => some (sh, some { c with phase := .update now })
  | .update now, .update => updateKey p sh c now
  | .void now row, .void found =>
    if Latest (sh.db.intentsOf c.args.keyID) found then
      some (sh, some { c with phase := .commit now row found })
    else none
  | .commit now row voided, .commit outcome => some (commitComplete p sh c now row voided outcome)
  | _, .fail => some (sh.unlock p, c.retry)
  | _, _ => none

/-! ## Sweeps -/

/-- `staleKeys`. -/
def staleKeys (rows : List (KeyID × KeyRow)) : List Stale :=
  rows.map fun e => ⟨e.1, e.2.resourceType, e.2.attemptCount⟩

/-- The outcome that `resolve` records for an answer; a key whose probe is unreachable is
left pending. -/
def answerOutcome : Answer → Option Outcome
  | .unregistered => some ⟨.indeterminate, [], "no_probe_registered"⟩
  | .unreachable => none
  | .executed result => some ⟨.done, result, "resolved_by_probe"⟩
  | .notExecuted => some ⟨.failed, [], "probe_found_no_execution"⟩
  | .unknown => some ⟨.indeterminate, [], "probe_returned_unknown"⟩

/-- `resolve`, up to `complete`. -/
def resolveStale (c : Stale) (todo : List Stale) (answer : Answer) : Sweep :=
  match answerOutcome answer with
  | none => .batch todo
  | some outcome => .place c outcome todo

/-! ## Retention -/

/-- The `DELETE` of `expireKeys`, on its next row: a row that is gone is passed over, one that
was updated since it was selected is deleted as it now stands. -/
def expireDelete (p : Pid) (sh : Shared) (now : Time) (e : KeyID × KeyRow)
    (todo gone : List (KeyID × KeyRow)) : Option (Shared × Expire) :=
  match sh.db.keys.lookup e.1 with
  | none => some (sh, .delete now todo gone)
  | some row =>
    if row.tuple ≠ e.2.tuple then some (sh, .delete now todo gone)
    else if sh.locks (.row e.1) = none then
      some (sh.take p (.row e.1), .delete now todo (gone ++ [(e.1, row)]))
    else none

/-- An `expireKeys` takes effect. -/
@[simps] def Shared.applyExpire (p : Pid) (gone : List (KeyID × KeyRow)) (sh : Shared) : Shared :=
  { sh.unlock p with db := expireApply gone sh.db }

/-- The end of the statement `expireKeys`. -/
def commitExpire (p : Pid) (sh : Shared) (gone : List (KeyID × KeyRow)) :
    CommitOutcome → Shared × Proc
  | .ok => (sh.applyExpire p gone, .expire (.objects (expiredRefs gone)))
  | .refused => (sh.unlock p, .stopped)
  | .unseen => (sh.applyExpire p gone, .stopped)

/-- `results.Delete`. -/
@[simps] def deleteObjects (env : Env) (ok : Bool) (refs : List String) (sh : Shared) : Shared :=
  { sh with
    objects := fun name =>
      if ok && env.objectStore && name ∈ refs then none else sh.objects name }

/-! ## The processes -/

/-- The request of a claim transaction that is open or about to begin. -/
def Handler.claiming : Handler → Option Request
  | .begin req => some req
  | .lock req _ => some req
  | .insert req _ => some req
  | .read req _ => some req
  | .reclaim req _ _ => some req
  | .record req _ _ => some req
  | .window tx => some tx.req
  | .statuses tx _ => some tx.req
  | .commit tx _ => some tx.req
  | _ => none

/-- The steps of a handler in its claim and in the waits around it. -/
def claimStep (env : Env) (p : Pid) (sh : Shared) (h : Handler) (a : Action) :
    Option (Shared × Handler) :=
  match h, a with
  | .begin req, .begin now => some (sh, .lock req now)
  | .lock req now, a => lockResource env p sh req now a
  | .insert req now, .insert => insertClaim p sh req now
  | .read req now, .read => some (readExisting env p sh req now)
  | .reclaim req now existing, .reclaim => reclaim env p sh req now existing
  | .record req now row, .record => some (recordIntent p sh req now row)
  | .window tx, .window rows => readWindow env sh tx rows
  | .statuses tx same, .statuses rows => readStatuses p sh tx same rows
  | .commit tx verdict, .commit outcome => some (commitClaim p sh tx verdict outcome)
  | .wait req blocking, a => (waitForTerminal sh req blocking a).map (sh, ·)
  | .await record, a => (awaitCompletion env sh record a).map (sh, ·)
  | .existing record, .reply getOK wait =>
    some (sh, .respond (some record.keyID) (writeExisting env sh.objects getOK wait record))
  | .execute own, .call => some (sendCall p sh own, .calling own)
  | .calling own, .ret outcome => some (sh.endCall p, .place own outcome)
  | _, _ => none

/-- The steps of a handler. A statement that fails, or a transaction that cannot begin, rolls
the claim back. -/
def handlerStep (env : Env) (p : Pid) (sh : Shared) (h : Handler) (a : Action) :
    Option (Shared × Proc) :=
  match h, a with
  | h, .fail => h.claiming.map fun req => (sh.unlock p, .handler (claimFailed req))
  | .place own outcome, .place putOK =>
    some (placeResult env sh own.req.keyID outcome.result putOK,
      .completing (newCompletion env own.req.keyID own.attempt outcome putOK
        (env.outcomeWriteAttempts - 1)) (.handler own outcome))
  | .respond _ _, .finish => some (sh, .stopped)
  | h, a => (claimStep env p sh h a).map fun r => (r.1, .handler r.2)

/-- The steps of a sweep. -/
def sweepStep (env : Env) (sh : Shared) (w : Sweep) (a : Action) : Option (Shared × Proc) :=
  match w, a with
  | .batch (c :: todo), .resolve answer => some (sh, .sweep (resolveStale c todo answer))
  | .batch [], .finish => some (sh, .stopped)
  | .place c outcome todo, .place putOK =>
    some (placeResult env sh c.keyID outcome.result putOK,
      .completing (newCompletion env c.keyID c.attempt outcome putOK 0) (.sweep todo))
  | _, _ => none

/-- The steps of a retention pass. -/
def expireStep (env : Env) (p : Pid) (sh : Shared) (x : Expire) (a : Action) :
    Option (Shared × Proc) :=
  match x, a with
  | .delete now (e :: todo) gone, .delete =>
    (expireDelete p sh now e todo gone).map fun r => (r.1, .expire r.2)
  | .delete _ [] gone, .commit outcome => some (commitExpire p sh gone outcome)
  | .delete _ _ _, .fail => some (sh.unlock p, .stopped)
  | .objects refs, .deleteObjects ok => some (deleteObjects env ok refs sh, .stopped)
  | _, _ => none

/-- The first step of a process. -/
def idleStep (env : Env) (sh : Shared) : Action → Option (Shared × Proc)
  | .start snapshot http => some (sh, .handler (startWrite env snapshot http))
  | .sweep now rows =>
    if SelectStale env sh.db now rows then some (sh, .sweep (.batch (staleKeys rows))) else none
  | .expire now rows =>
    if SelectExpired env sh.db now rows then some (sh, .expire (.delete now rows [])) else none
  | _ => none

/-- The process ends where it stands: its open transaction is rolled back, and it no longer
waits for its call. -/
def crash (p : Pid) (sh : Shared) : Proc → Option (Shared × Proc)
  | .idle => none
  | .stopped => none
  | .handler (.calling _) => some ((sh.unlock p).endCall p, .stopped)
  | _ => some (sh.unlock p, .stopped)

/-- The step of one process or of its call. -/
def act (env : Env) (p : Pid) (sh : Shared) (pr : Proc) (a : Action) : Option (Shared × Proc) :=
  match pr, a with
  | pr, .land => (landCall p sh).map (·, pr)
  | pr, .lose => (loseCall p sh).map (·, pr)
  | pr, .crash => crash p sh pr
  | .idle, a => idleStep env sh a
  | .handler h, a => handlerStep env p sh h a
  | .sweep w, a => sweepStep env sh w a
  | .completing c caller, a =>
    (completeStep p sh c a).map fun r =>
      (r.1, r.2.elim caller.resume fun c' => .completing c' caller)
  | .expire x, a => expireStep env p sh x a
  | .stopped, _ => none

/-! ## The system -/

/-- A state of the system. -/
abbrev State := Interleave.Config Pid Shared Proc

/-- One step of the system. -/
def step (env : Env) : State → Pid × Action → Option State := Interleave.step (act env)

/-- The system before anything has happened. -/
def init : State := ⟨Shared.init, fun _ => .idle⟩

/-- What the environment is assumed to do: which actions it takes in which states. -/
abbrev Assumption := State → Pid × Action → Prop

/-- The states that the system reaches under an assumption. -/
abbrev Reaches (env : Env) (ok : Assumption) (s : State) : Prop :=
  Transition.Reachable (step env) ok init s

/-! ## A small environment -/

/-- An environment in which runs can be evaluated. Its request hash leaves the payload out, all
resources share one lock, and results of two bytes are offloaded. -/
def Env.small : Env where
  hashtextextended _ := 0
  jsonbText
    | .document m => 32 :: m
    | .object _ => [123, 125]
  canonicalHash agentID operation _ resourceID resourceType :=
    .ok (agentID ++ "/" ++ operation ++ "/" ++ resourceType ++ "/" ++ resourceID)
  sha256 bytes := bytes
  objectStore := true
  resultInlineBytes := 1
  outcomeWriteAttempts := 3
  claimPendingWait := 0
  reconcileStaleAfter := 10
  retentionKeys := 100
  jsonbText_ne_nil j := by cases j <;> simp
  outcomeWriteAttempts_pos := by decide

/-- One resource type whose only operation is of a given class. -/
def Snapshot.small (cls : Class) (enforce : Bool) : Snapshot :=
  ⟨"1", fun _ => some ⟨1000, enforce, fun _ => some ⟨cls, []⟩⟩⟩

/-- A write of an agent under a key. -/
def WriteHTTP.small (agentID key : String) : WriteHTTP :=
  ⟨agentID, "agent", key, .request ⟨agentID, "order", "7", "put", [1]⟩⟩

/-- The key under which an agent writes in `WriteHTTP.small`. -/
def keyA : String := "00000000-0000-4000-8000-00000000000a"

/-- Another key. -/
def keyB : String := "00000000-0000-4000-8000-00000000000b"

/-- The row of its key after the first claim, at `now`. -/
def KeyRow.small (agentID : String) (now : Time) (tuple : Nat) : KeyRow :=
  ⟨agentID ++ "/put/order/7", .pending, "order", "7", "put", none, none, none, 1, now, now, none,
    tuple⟩

/-- The key of the agent number `i`. -/
def crowdKey (i : Nat) : KeyID := ⟨String.ofList (List.replicate i 'a'), keyA⟩

/-- A table with the keys of `n` agents besides those of `keys`. -/
def crowd (n : Nat) (row : KeyRow) (keys : AList (fun _ : KeyID => KeyRow)) :
    AList (fun _ : KeyID => KeyRow) :=
  (List.range n).foldr (fun i keys => keys.insert (crowdKey i) row) keys

/-- Different agents have different keys. -/
lemma crowdKey_injective : Function.Injective crowdKey := by
  intro i j h
  have hagent := congrArg (fun k : KeyID => k.agentID.toList.length) h
  simpa [crowdKey] using hagent

/-- The rows of the crowd, and the others. -/
lemma lookup_crowd (n : Nat) (row : KeyRow) (keys : AList (fun _ : KeyID => KeyRow)) (k : KeyID) :
    (crowd n row keys).lookup k =
      if k ∈ (List.range n).map crowdKey then some row else keys.lookup k := by
  rw [crowd]
  generalize List.range n = ns
  induction ns with
  | nil => rfl
  | cons i ns ih =>
    rw [List.foldr_cons]
    by_cases hk : k = crowdKey i
    · subst hk
      rw [AList.lookup_insert, if_pos (List.mem_map_of_mem List.mem_cons_self)]
    · rw [AList.lookup_insert_ne hk, ih]
      simp [hk]

/-- The intent of such a write. -/
def IntentRow.small (intentID : Nat) (cls : Class) (agentID key : String) (now : Time) :
    IntentRow :=
  ⟨intentID, agentID, key, "order", "7", "put", ⟨cls, []⟩, [1], now, none⟩

/-- The steps of `p` from the arrival of a write at `now` until its claim is ready to commit,
when its key is new and the window holds `rows`. -/
def insertSteps (p : Pid) (snapshot : Snapshot) (http : WriteHTTP) (now : Time)
    (rows : List IntentRow) : List (Pid × Action) :=
  [(p, .start snapshot http), (p, .begin now), (p, .lock), (p, .insert), (p, .record),
    (p, .window rows)]

/-- The same steps when the key has failed before. -/
def reclaimSteps (p : Pid) (snapshot : Snapshot) (http : WriteHTTP) (now : Time)
    (rows : List IntentRow) : List (Pid × Action) :=
  [(p, .start snapshot http), (p, .begin now), (p, .lock), (p, .insert), (p, .read),
    (p, .reclaim), (p, .record), (p, .window rows)]

/-! ## What a process shows -/

/-- The response that a process is about to write, and the key that it is for. -/
def Proc.response : Proc → Option (Option KeyID × Response)
  | .handler (.respond k r) => some (k, r)
  | _ => none

/-- The claim whose window a process is about to read. -/
def Proc.scan : Proc → Option ClaimTx
  | .handler (.window tx) => some tx
  | _ => none

/-- The claim that a process is about to commit as rejected, and what the row then stores. -/
def Proc.rejection : Proc → Option (ClaimTx × RawMessage)
  | .handler (.commit tx (.rejected stored)) => some (tx, stored)
  | _ => none

/-- The `Complete` that a process is in, and what it goes on with. -/
def Proc.completion : Proc → Option (Completion × Caller)
  | .completing c caller => some (c, caller)
  | _ => none

/-- What a `Complete` is about to commit. -/
def CompletePhase.outcome : CompletePhase → Option (Time × KeyRow × Option IntentRow)
  | .commit now row voided => some (now, row, voided)
  | _ => none

lemma Proc.response_eq_some {pr : Proc} {k : Option KeyID} {r : Response} :
    pr.response = some (k, r) ↔ pr = .handler (.respond k r) := by
  fun_cases Proc.response pr <;> simp_all

lemma Proc.scan_eq_some {pr : Proc} {tx : ClaimTx} :
    pr.scan = some tx ↔ pr = .handler (.window tx) := by
  fun_cases Proc.scan pr <;> simp_all

lemma Proc.rejection_eq_some {pr : Proc} {tx : ClaimTx} {stored : RawMessage} :
    pr.rejection = some (tx, stored) ↔ pr = .handler (.commit tx (.rejected stored)) := by
  fun_cases Proc.rejection pr <;> simp_all

lemma Proc.completion_eq_some {pr : Proc} {c : Completion} {caller : Caller} :
    pr.completion = some (c, caller) ↔ pr = .completing c caller := by
  fun_cases Proc.completion pr <;> simp_all

lemma CompletePhase.outcome_eq_some {ph : CompletePhase} {now : Time} {row : KeyRow}
    {voided : Option IntentRow} :
    ph.outcome = some (now, row, voided) ↔ ph = .commit now row voided := by
  fun_cases CompletePhase.outcome ph <;> simp_all

end Idemio
