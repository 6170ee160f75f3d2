import Idemio.System.Step

set_option relaxedAutoImplicit false
set_option autoImplicit false

/-!
# What a step can do

The steps as rules: one rule for each thing a process can do at each point of its code, with
everything that is known when it does it. The functions of `Idemio.System.Step` are what the
code computes; the rules are what the proofs of the later modules split on.

## Main definitions

* `Idemio.CompleteRule` — the rules of a `Complete`.
* `Idemio.Rule` — the rules of a process.

## Main results

* `Idemio.rule_of_act` — every step is an instance of a rule.
-/

namespace Idemio

/-- What a `Complete` can do. -/
inductive CompleteRule (p : Pid) (sh : Shared) (c : Completion) :
    Action → Shared → Option Completion → Prop
  | begin {now : Time} (hc : c.phase = .begin) :
      CompleteRule p sh c (.begin now) sh (some { c with phase := .update now })
  | settled {now : Time} (hc : c.phase = .update now)
      (hrow : (sh.db.keys.lookup c.args.keyID).bind (completeKey c.args now) = none) :
      CompleteRule p sh c .update (sh.unlock p) none
  | update {now : Time} {old row : KeyRow} (hc : c.phase = .update now)
      (hold : sh.db.keys.lookup c.args.keyID = some old)
      (hrow : completeKey c.args now old = some row)
      (hfree : sh.locks (.row c.args.keyID) = none) :
      CompleteRule p sh c .update (sh.take p (.row c.args.keyID))
        (some { c with phase := afterUpdate c.args now row })
  | void {now : Time} {row : KeyRow} {found : Option IntentRow} (hc : c.phase = .void now row)
      (hfound : Latest (sh.db.intentsOf c.args.keyID) found) :
      CompleteRule p sh c (.void found) sh (some { c with phase := .commit now row found })
  | commit {now : Time} {row : KeyRow} {voided : Option IntentRow}
      (hc : c.phase = .commit now row voided) :
      CompleteRule p sh c (.commit .ok) (sh.applyComplete p c.args.keyID now row voided) none
  | refused {now : Time} {row : KeyRow} {voided : Option IntentRow} {r : Option Completion}
      (hc : c.phase = .commit now row voided) (hr : r = c.retry) :
      CompleteRule p sh c (.commit .refused) (sh.unlock p) r
  | unseen {now : Time} {row : KeyRow} {voided : Option IntentRow} {r : Option Completion}
      (hc : c.phase = .commit now row voided) (hr : r = c.retry) :
      CompleteRule p sh c (.commit .unseen) (sh.applyComplete p c.args.keyID now row voided) r
  | fail {r : Option Completion} (hr : r = c.retry) : CompleteRule p sh c .fail (sh.unlock p) r

/-- What a process can do. -/
inductive Rule (env : Env) (p : Pid) (sh : Shared) : Proc → Action → Shared → Proc → Prop
  -- the downstream call, whatever its handler does meanwhile
  | land {pr : Proc} {call : Call} (hcall : sh.calls p = some call) (hsent : call.state = .sent) :
      Rule env p sh pr .land
        { sh with
          calls := Function.update sh.calls p (some { call with state := .landed })
          ledger := sh.ledger ++ [call.own] } pr
  | lose {pr : Proc} {call : Call} (hcall : sh.calls p = some call) (hsent : call.state = .sent) :
      Rule env p sh pr .lose
        { sh with calls := Function.update sh.calls p (some { call with state := .lost }) } pr
  -- a process ends where it stands
  | crash {pr : Proc} (hpr : ∀ own, pr ≠ .handler (.calling own)) :
      Rule env p sh pr .crash (sh.unlock p) .stopped
  | crashCall {own : Owned} :
      Rule env p sh (.handler (.calling own)) .crash ((sh.unlock p).endCall p) .stopped
  -- the first step of a process
  | refuse {snapshot : Snapshot} {http : WriteHTTP} {r : Response}
      (hadm : admission env snapshot http = .error r) :
      Rule env p sh .idle (.start snapshot http) sh (.handler (.respond none r))
  | start {snapshot : Snapshot} {http : WriteHTTP} {req : Request}
      (hadm : admission env snapshot http = .ok req) :
      Rule env p sh .idle (.start snapshot http) sh (.handler (.begin req))
  | sweep {now : Time} {rows : List (KeyID × KeyRow)} (hrows : SelectStale env sh.db now rows) :
      Rule env p sh .idle (.sweep now rows) sh (.sweep (.batch (staleKeys rows)))
  | expire {now : Time} {rows : List (KeyID × KeyRow)}
      (hrows : SelectExpired env sh.db now rows) :
      Rule env p sh .idle (.expire now rows) sh (.expire (.delete now rows []))
  -- the claim, up to its verdict
  | begin {req : Request} {now : Time} :
      Rule env p sh (.handler (.begin req)) (.begin now) sh (.handler (.lock req now))
  | lock {req : Request} {now : Time} (hfree : sh.locks (lockKey env req) = none) :
      Rule env p sh (.handler (.lock req now)) .lock (sh.take p (lockKey env req))
        (.handler (.insert req now))
  | lockTimeout {req : Request} {now : Time} (hbusy : sh.locks (lockKey env req) ≠ none) :
      Rule env p sh (.handler (.lock req now)) .lockTimeout sh
        (.handler (.respond (some req.keyID) (writeNotExecuted req.key "resource_busy")))
  | insert {req : Request} {now : Time} (hrow : sh.db.keys.lookup req.keyID = none)
      (hfree : sh.locks (.row req.keyID) = none) :
      Rule env p sh (.handler (.insert req now)) .insert
        { sh.take p (.row req.keyID) with nextID := sh.nextID + 1 }
        (.handler (.record req now (insertKey req now sh.nextID)))
  | taken {req : Request} {now : Time} (hrow : sh.db.keys.lookup req.keyID ≠ none) :
      Rule env p sh (.handler (.insert req now)) .insert sh (.handler (.read req now))
  | readGone {req : Request} {now : Time} (hrow : sh.db.keys.lookup req.keyID = none) :
      Rule env p sh (.handler (.read req now)) .read (sh.unlock p) (.handler (claimFailed req))
  | mismatch {req : Request} {now : Time} {row : KeyRow}
      (hrow : sh.db.keys.lookup req.keyID = some row) (hhash : row.requestHash ≠ req.requestHash) :
      Rule env p sh (.handler (.read req now)) .read (sh.unlock p) (.handler (hashMismatch req))
  | readPending {req : Request} {now : Time} {row : KeyRow}
      (hrow : sh.db.keys.lookup req.keyID = some row) (hhash : row.requestHash = req.requestHash)
      (hstatus : row.status = .pending) :
      Rule env p sh (.handler (.read req now)) .read (sh.unlock p)
        (.handler (.await (readRecord env req.keyID row)))
  | readExisting {req : Request} {now : Time} {row : KeyRow}
      (hrow : sh.db.keys.lookup req.keyID = some row) (hhash : row.requestHash = req.requestHash)
      (hstatus : row.status ≠ .failed) :
      Rule env p sh (.handler (.read req now)) .read (sh.unlock p)
        (.handler (.existing (readRecord env req.keyID row)))
  | readFailed {req : Request} {now : Time} {row : KeyRow}
      (hrow : sh.db.keys.lookup req.keyID = some row) (hhash : row.requestHash = req.requestHash)
      (hstatus : row.status = .failed) :
      Rule env p sh (.handler (.read req now)) .read sh
        (.handler (.reclaim req now (readRecord env req.keyID row)))
  | reclaim {req : Request} {now : Time} {existing : Record} {old row : KeyRow}
      (hold : sh.db.keys.lookup req.keyID = some old) (hrow : reclaimKey now old = some row)
      (hfree : sh.locks (.row req.keyID) = none) :
      Rule env p sh (.handler (.reclaim req now existing)) .reclaim (sh.take p (.row req.keyID))
        (.handler (.record req now row))
  | reclaimAwait {req : Request} {now : Time} {existing : Record}
      (hrow : (sh.db.keys.lookup req.keyID).bind (reclaimKey now) = none) :
      Rule env p sh (.handler (.reclaim req now existing)) .reclaim (sh.unlock p)
        (.handler (.await { existing with status := .pending }))
  | reclaimExisting {req : Request} {now : Time} {existing : Record}
      (hrow : (sh.db.keys.lookup req.keyID).bind (reclaimKey now) = none) :
      Rule env p sh (.handler (.reclaim req now existing)) .reclaim (sh.unlock p)
        (.handler (.existing { existing with status := .pending }))
  | record {req : Request} {now : Time} {row : KeyRow} :
      Rule env p sh (.handler (.record req now row)) .record
        { sh with
          nextID := sh.nextID + 1
          drawn := Function.update sh.drawn sh.nextID (some p) }
        (.handler (.window ⟨req, now, row, insertIntent req now sh.nextID, []⟩))
  | window {tx tx' : ClaimTx} {verdict : Verdict} {rows : List IntentRow}
      (hrows : SelectWindow sh.db tx.req tx.now tx.intent.intentID rows)
      (hverdict : resolveConflicts env tx sh.nextID rows = .settled tx' verdict) :
      Rule env p sh (.handler (.window tx)) (.window rows)
        { sh with nextID := sh.nextID + tx'.conflicts.length } (.handler (.commit tx' verdict))
  | check {tx : ClaimTx} {same rows : List IntentRow}
      (hrows : SelectWindow sh.db tx.req tx.now tx.intent.intentID rows)
      (hverdict : resolveConflicts env tx sh.nextID rows = .check same) :
      Rule env p sh (.handler (.window tx)) (.window rows) sh (.handler (.statuses tx same))
  | serialize {tx : ClaimTx} {same : List IntentRow} {rows : List (String × Status)}
      {blocking : String}
      (hrows : SelectStatuses (sh.db.keys.insert tx.req.keyID tx.row) tx.req.agentID
        (same.map (·.key)) rows)
      (hpending : firstPending rows = some blocking) :
      Rule env p sh (.handler (.statuses tx same)) (.statuses rows) (sh.unlock p)
        (.handler (.wait tx.req ⟨tx.req.agentID, blocking⟩))
  | statuses {tx : ClaimTx} {same : List IntentRow} {rows : List (String × Status)}
      (hrows : SelectStatuses (sh.db.keys.insert tx.req.keyID tx.row) tx.req.agentID
        (same.map (·.key)) rows)
      (hpending : firstPending rows = none) :
      Rule env p sh (.handler (.statuses tx same)) (.statuses rows)
        { sh with nextID := sh.nextID + (recordConflicts tx .serialized sh.nextID same).length }
        (.handler (.commit { tx with conflicts := recordConflicts tx .serialized sh.nextID same }
          (.claimed 0)))
  -- the end of the claim
  | claimed {tx : ClaimTx} {observed : Nat} :
      Rule env p sh (.handler (.commit tx (.claimed observed))) (.commit .ok)
        (sh.applyClaim p tx (.claimed observed))
        (.handler (.execute ⟨tx.req, tx.intent.intentID, tx.row.attemptCount⟩))
  | rejected {tx : ClaimTx} {stored : RawMessage} :
      Rule env p sh (.handler (.commit tx (.rejected stored))) (.commit .ok)
        (sh.applyClaim p tx (.rejected stored))
        (.handler (.respond (some tx.req.keyID) (writeRaw 409 stored)))
  | claimRefused {tx : ClaimTx} {verdict : Verdict} :
      Rule env p sh (.handler (.commit tx verdict)) (.commit .refused) (sh.unlock p)
        (.handler (claimFailed tx.req))
  | claimUnseen {tx : ClaimTx} {verdict : Verdict} :
      Rule env p sh (.handler (.commit tx verdict)) (.commit .unseen)
        (sh.applyClaim p tx verdict) (.handler (claimFailed tx.req))
  | claimFail {h : Handler} {req : Request} (hreq : h.claiming = some req) :
      Rule env p sh (.handler h) .fail (sh.unlock p) (.handler (claimFailed req))
  -- waiting, and answering from what is stored
  | waited {req : Request} {blocking : KeyID} (hsettled : settled sh.db blocking = true) :
      Rule env p sh (.handler (.wait req blocking)) .waited sh (.handler (.begin req))
  | waitExpired {req : Request} {blocking : KeyID} :
      Rule env p sh (.handler (.wait req blocking)) .waitExpired sh
        (.handler (.respond (some req.keyID)
          (writeNotExecuted req.key "serialization_wait_expired")))
  | poll {record : Record} {row : KeyRow} (hrow : sh.db.keys.lookup record.keyID = some row)
      (hstatus : row.status ≠ .pending) :
      Rule env p sh (.handler (.await record)) .poll sh
        (.handler (.existing (readRecord env record.keyID row)))
  | pollExpired {record : Record} :
      Rule env p sh (.handler (.await record)) .pollExpired sh (.handler (.existing record))
  | reply {record : Record} {getOK : Bool} {wait : Int} :
      Rule env p sh (.handler (.existing record)) (.reply getOK wait) sh
        (.handler (.respond (some record.keyID)
          (writeExisting env sh.objects getOK wait record)))
  -- the call and its outcome
  | call {own : Owned} :
      Rule env p sh (.handler (.execute own)) .call (sendCall p sh own) (.handler (.calling own))
  | ret {own : Owned} {outcome : Outcome} :
      Rule env p sh (.handler (.calling own)) (.ret outcome) (sh.endCall p)
        (.handler (.place own outcome))
  | place {own : Owned} {outcome : Outcome} {putOK : Bool} :
      Rule env p sh (.handler (.place own outcome)) (.place putOK)
        (placeResult env sh own.req.keyID outcome.result putOK)
        (.completing (newCompletion env own.req.keyID own.attempt outcome putOK
          (env.outcomeWriteAttempts - 1)) (.handler own outcome))
  | finish {k : Option KeyID} {r : Response} :
      Rule env p sh (.handler (.respond k r)) .finish sh .stopped
  | complete {c c' : Completion} {caller : Caller} {a : Action} {sh' : Shared}
      (hc : CompleteRule p sh c a sh' (some c')) :
      Rule env p sh (.completing c caller) a sh' (.completing c' caller)
  | completed {c : Completion} {own : Owned} {outcome : Outcome} {a : Action} {sh' : Shared}
      (hc : CompleteRule p sh c a sh' none) :
      Rule env p sh (.completing c (.handler own outcome)) a sh'
        (.handler (.respond (some own.req.keyID) (writeOutcome own.req.key own.intentID outcome)))
  -- a sweep
  | completedStale {c : Completion} {todo : List Stale} {a : Action} {sh' : Shared}
      (hc : CompleteRule p sh c a sh' none) :
      Rule env p sh (.completing c (.sweep todo)) a sh' (.sweep (.batch todo))
  | skip {c : Stale} {todo : List Stale} {answer : Answer}
      (hanswer : answerOutcome answer = none) :
      Rule env p sh (.sweep (.batch (c :: todo))) (.resolve answer) sh (.sweep (.batch todo))
  | resolve {c : Stale} {todo : List Stale} {answer : Answer} {outcome : Outcome}
      (hanswer : answerOutcome answer = some outcome) :
      Rule env p sh (.sweep (.batch (c :: todo))) (.resolve answer) sh
        (.sweep (.place c outcome todo))
  | placeStale {c : Stale} {outcome : Outcome} {todo : List Stale} {putOK : Bool} :
      Rule env p sh (.sweep (.place c outcome todo)) (.place putOK)
        (placeResult env sh c.keyID outcome.result putOK)
        (.completing (newCompletion env c.keyID c.attempt outcome putOK 0) (.sweep todo))
  | finishSweep : Rule env p sh (.sweep (.batch [])) .finish sh .stopped
  -- a retention pass
  | passOver {now : Time} {e : KeyID × KeyRow} {todo gone : List (KeyID × KeyRow)} :
      Rule env p sh (.expire (.delete now (e :: todo) gone)) .delete sh
        (.expire (.delete now todo gone))
  | delete {now : Time} {e : KeyID × KeyRow} {todo gone : List (KeyID × KeyRow)} {row : KeyRow}
      (hrow : sh.db.keys.lookup e.1 = some row) (htuple : row.tuple = e.2.tuple)
      (hfree : sh.locks (.row e.1) = none) :
      Rule env p sh (.expire (.delete now (e :: todo) gone)) .delete (sh.take p (.row e.1))
        (.expire (.delete now todo (gone ++ [(e.1, row)])))
  | expired {now : Time} {gone : List (KeyID × KeyRow)} :
      Rule env p sh (.expire (.delete now [] gone)) (.commit .ok) (sh.applyExpire p gone)
        (.expire (.objects (expiredRefs gone)))
  | expireRefused {now : Time} {gone : List (KeyID × KeyRow)} :
      Rule env p sh (.expire (.delete now [] gone)) (.commit .refused) (sh.unlock p) .stopped
  | expireUnseen {now : Time} {gone : List (KeyID × KeyRow)} :
      Rule env p sh (.expire (.delete now [] gone)) (.commit .unseen) (sh.applyExpire p gone)
        .stopped
  | expireFail {now : Time} {todo gone : List (KeyID × KeyRow)} :
      Rule env p sh (.expire (.delete now todo gone)) .fail (sh.unlock p) .stopped
  | deleteObjects {refs : List String} {ok : Bool} :
      Rule env p sh (.expire (.objects refs)) (.deleteObjects ok) (deleteObjects env ok refs sh)
        .stopped

variable {env : Env} {p : Pid} {sh sh' : Shared} {pr pr' : Proc} {h h' : Handler} {a : Action}

/-! ## Every step is an instance of a rule -/

/-- A step of a `Complete` follows a rule. -/
lemma completeRule_of_step {c : Completion} {r : Option Completion}
    (h : completeStep p sh c a = some (sh', r)) : CompleteRule p sh c a sh' r := by
  unfold completeStep at h
  split at h
  · next hc =>
    cases h
    exact .begin hc
  · next hc =>
    unfold updateKey at h
    split at h
    · next hrow =>
      cases h
      exact .settled hc hrow
    · next hrow =>
      obtain ⟨old, hold, hrow⟩ := Option.bind_eq_some_iff.mp hrow
      split at h
      · next hfree =>
        cases h
        exact .update hc hold hrow hfree
      · cases h
  · next hc =>
    split at h
    · next hfound =>
      cases h
      exact .void hc hfound
    · cases h
  · next outcome hc =>
    cases outcome <;> cases h
    · exact .commit hc
    · exact .refused hc rfl
    · exact .unseen hc rfl
  · cases h
    exact .fail rfl
  · cases h

/-- The start of a write follows a rule. -/
lemma rule_of_startWrite (env : Env) (p : Pid) (sh : Shared) (snapshot : Snapshot)
    (http : WriteHTTP) :
    Rule env p sh .idle (.start snapshot http) sh (.handler (startWrite env snapshot http)) := by
  unfold startWrite
  split
  · next hadm => exact .refuse hadm
  · next hadm => exact .start hadm

/-- `readExisting` follows a rule. -/
lemma rule_of_readExisting {req : Request} {now : Time}
    (hs : readExisting env p sh req now = (sh', h')) :
    Rule env p sh (.handler (.read req now)) .read sh' (.handler h') := by
  unfold readExisting at hs
  split at hs
  · next hrow =>
    cases hs
    exact .readGone hrow
  · next row hrow =>
    dsimp only at hs
    split at hs
    · next hhash =>
      cases hs
      exact .mismatch hrow hhash
    · next hhash =>
      have hhash : row.requestHash = req.requestHash := not_not.mp hhash
      split at hs
      · next hstatus =>
        cases hs
        unfold existingRecord
        split
        · next hwait => exact .readPending hrow hhash hwait.1
        · exact .readExisting hrow hhash hstatus
      · next hstatus =>
        cases hs
        exact .readFailed hrow hhash (not_not.mp hstatus)

/-- `reclaim` follows a rule. -/
lemma rule_of_reclaim {req : Request} {now : Time} {existing : Record}
    (hs : reclaim env p sh req now existing = some (sh', h')) :
    Rule env p sh (.handler (.reclaim req now existing)) .reclaim sh' (.handler h') := by
  unfold reclaim at hs
  split at hs
  · next hrow =>
    cases hs
    unfold existingRecord
    split
    · exact .reclaimAwait hrow
    · exact .reclaimExisting hrow
  · next hrow =>
    obtain ⟨old, hold, hrow⟩ := Option.bind_eq_some_iff.mp hrow
    split at hs
    · next hfree =>
      cases hs
      exact .reclaim hold hrow hfree
    · cases hs

/-- Reading the window follows a rule. -/
lemma rule_of_readWindow {tx : ClaimTx} {rows : List IntentRow}
    (hs : readWindow env sh tx rows = some (sh', h')) :
    Rule env p sh (.handler (.window tx)) (.window rows) sh' (.handler h') := by
  unfold readWindow at hs
  split at hs
  · next hrows =>
    split at hs
    · next hverdict =>
      cases hs
      exact .window hrows hverdict
    · next hverdict =>
      cases hs
      exact .check hrows hverdict
  · cases hs

/-- Reading the statuses follows a rule. -/
lemma rule_of_readStatuses {tx : ClaimTx} {same : List IntentRow} {rows : List (String × Status)}
    (hs : readStatuses p sh tx same rows = some (sh', h')) :
    Rule env p sh (.handler (.statuses tx same)) (.statuses rows) sh' (.handler h') := by
  unfold readStatuses resolveStatuses at hs
  split at hs
  · next hrows =>
    cases hpending : firstPending rows with
    | some blocking =>
      simp only [hpending, Option.some.injEq, Prod.mk.injEq] at hs
      obtain ⟨rfl, rfl⟩ := hs
      exact .serialize hrows hpending
    | none =>
      simp only [hpending, Option.some.injEq, Prod.mk.injEq] at hs
      obtain ⟨rfl, rfl⟩ := hs
      exact .statuses hrows hpending
  · cases hs

/-- The commit of a claim follows a rule. -/
lemma rule_of_commitClaim {tx : ClaimTx} {verdict : Verdict} {outcome : CommitOutcome}
    (hs : commitClaim p sh tx verdict outcome = (sh', h')) :
    Rule env p sh (.handler (.commit tx verdict)) (.commit outcome) sh' (.handler h') := by
  cases outcome with
  | ok =>
    cases verdict <;> cases hs
    · exact .claimed
    · exact .rejected
  | refused =>
    cases hs
    exact .claimRefused
  | unseen =>
    cases hs
    exact .claimUnseen

/-- A step of a handler in its claim follows a rule. -/
lemma rule_of_claimStep (hs : claimStep env p sh h a = some (sh', h')) :
    Rule env p sh (.handler h) a sh' (.handler h') := by
  unfold claimStep at hs
  split at hs
  · cases hs
    exact .begin
  · unfold lockResource at hs
    split at hs
    · split at hs
      · next hfree =>
        cases hs
        exact .lock hfree
      · cases hs
    · split at hs
      · cases hs
      · next hbusy =>
        cases hs
        exact .lockTimeout hbusy
    · cases hs
  · unfold insertClaim at hs
    split at hs
    · next hrow =>
      split at hs
      · next hfree =>
        cases hs
        exact .insert hrow hfree
      · cases hs
    · next hrow =>
      cases hs
      exact .taken hrow
  · exact rule_of_readExisting (Option.some.inj hs)
  · exact rule_of_reclaim hs
  · cases hs
    exact .record
  · exact rule_of_readWindow hs
  · exact rule_of_readStatuses hs
  · exact rule_of_commitClaim (Option.some.inj hs)
  · obtain ⟨r, hr, hs⟩ := Option.map_eq_some_iff.mp hs
    cases hs
    unfold waitForTerminal at hr
    split at hr
    · split at hr
      · next hsettled =>
        cases hr
        exact .waited hsettled
      · cases hr
    · cases hr
      exact .waitExpired
    · cases hr
  · obtain ⟨r, hr, hs⟩ := Option.map_eq_some_iff.mp hs
    cases hs
    unfold awaitCompletion at hr
    split at hr
    · split at hr
      · cases hr
      · next hrow =>
        split at hr
        · cases hr
        · next hstatus =>
          cases hr
          exact .poll hrow hstatus
    · cases hr
      exact .pollExpired
    · cases hr
  · cases hs
    exact .reply
  · cases hs
    exact .call
  · cases hs
    exact .ret
  · cases hs

/-- A step of a handler follows a rule. -/
lemma rule_of_handlerStep (hs : handlerStep env p sh h a = some (sh', pr')) :
    Rule env p sh (.handler h) a sh' pr' := by
  unfold handlerStep at hs
  split at hs
  · obtain ⟨req, hreq, hs⟩ := Option.map_eq_some_iff.mp hs
    cases hs
    exact .claimFail hreq
  · cases hs
    exact .place
  · cases hs
    exact .finish
  · obtain ⟨r, hr, hs⟩ := Option.map_eq_some_iff.mp hs
    cases hs
    exact rule_of_claimStep hr

/-- A step of a sweep follows a rule. -/
lemma rule_of_sweepStep {w : Sweep} (hs : sweepStep env sh w a = some (sh', pr')) :
    Rule env p sh (.sweep w) a sh' pr' := by
  unfold sweepStep at hs
  split at hs
  · cases hs
    unfold resolveStale
    split
    · next hanswer => exact .skip hanswer
    · next hanswer => exact .resolve hanswer
  · cases hs
    exact .finishSweep
  · cases hs
    exact .placeStale
  · cases hs

/-- A step of a retention pass follows a rule. -/
lemma rule_of_expireStep {x : Expire} (hs : expireStep env p sh x a = some (sh', pr')) :
    Rule env p sh (.expire x) a sh' pr' := by
  unfold expireStep at hs
  split at hs
  · obtain ⟨r, hr, hs⟩ := Option.map_eq_some_iff.mp hs
    cases hs
    unfold expireDelete at hr
    split at hr
    · cases hr
      exact .passOver
    · next hrow =>
      split at hr
      · cases hr
        exact .passOver
      · next htuple =>
        split at hr
        · next hfree =>
          cases hr
          exact .delete hrow (not_not.mp htuple) hfree
        · cases hr
  · next outcome =>
    cases outcome <;> cases hs
    · exact .expired
    · exact .expireRefused
    · exact .expireUnseen
  · cases hs
    exact .expireFail
  · cases hs
    exact .deleteObjects
  · cases hs

/-- The first step of a process follows a rule. -/
lemma rule_of_idleStep (hs : idleStep env sh a = some (sh', pr')) :
    Rule env p sh .idle a sh' pr' := by
  unfold idleStep at hs
  split at hs
  · cases hs
    exact rule_of_startWrite env p sh _ _
  · split at hs
    · next hrows =>
      cases hs
      exact .sweep hrows
    · cases hs
  · split at hs
    · next hrows =>
      cases hs
      exact .expire hrows
    · cases hs
  · cases hs

/-- A step of the call of a process follows a rule. -/
lemma rule_of_call (hs : (landCall p sh).map (·, pr) = some (sh', pr') ∧ a = .land ∨
      (loseCall p sh).map (·, pr) = some (sh', pr') ∧ a = .lose) :
    Rule env p sh pr a sh' pr' := by
  rcases hs with ⟨hs, rfl⟩ | ⟨hs, rfl⟩
  all_goals
    obtain ⟨r, hr, hs⟩ := Option.map_eq_some_iff.mp hs
    cases hs
  · unfold landCall at hr
    split at hr
    · next hcall =>
      split at hr
      · next hsent =>
        cases hr
        exact .land hcall hsent
      · cases hr
    · cases hr
  · unfold loseCall at hr
    split at hr
    · next hcall =>
      split at hr
      · next hsent =>
        cases hr
        exact .lose hcall hsent
      · cases hr
    · cases hr

/-- **Every step is an instance of a rule.** -/
theorem rule_of_act (hs : act env p sh pr a = some (sh', pr')) : Rule env p sh pr a sh' pr' := by
  unfold act at hs
  split at hs
  · exact rule_of_call (.inl ⟨hs, rfl⟩)
  · exact rule_of_call (.inr ⟨hs, rfl⟩)
  · unfold crash at hs
    split at hs
    · cases hs
    · cases hs
    · cases hs
      exact .crashCall
    · next hpr =>
      cases hs
      exact .crash fun own => hpr own
  · exact rule_of_idleStep hs
  · exact rule_of_handlerStep hs
  · exact rule_of_sweepStep hs
  · next caller _ _ _ =>
    obtain ⟨⟨sh₁, r⟩, hr, hs⟩ := Option.map_eq_some_iff.mp hs
    have hrule := completeRule_of_step hr
    cases r with
    | some c' =>
      cases hs
      exact .complete hrule
    | none =>
      cases hs
      cases caller with
      | handler own outcome => exact .completed hrule
      | sweep todo => exact .completedStale hrule
  · exact rule_of_expireStep hs
  · cases hs

/-! ## What a rule does to each part of the shared state -/

/-- What a `Complete` does to the tables: nothing, or the update that it commits. -/
lemma CompleteRule.db_cases {c : Completion} {r : Option Completion}
    (h : CompleteRule p sh c a sh' r) :
    (sh'.db = sh.db ∧ sh'.claims = sh.claims) ∨ a.commits = true ∧ ∃ now row voided,
      c.phase = .commit now row voided ∧ sh' = sh.applyComplete p c.args.keyID now row voided := by
  cases h with
  | commit hc => exact .inr ⟨rfl, _, _, _, hc, rfl⟩
  | unseen hc _ => exact .inr ⟨rfl, _, _, _, hc, rfl⟩
  | _ => exact .inl ⟨rfl, rfl⟩

/-- What a `Complete` does to the locks. -/
lemma CompleteRule.locks_cases {c : Completion} {r : Option Completion}
    (h : CompleteRule p sh c a sh' r) :
    sh'.locks = sh.locks ∨ sh'.locks = Locks.release sh.locks p ∨
      ∃ l, sh.locks l = none ∧ sh'.locks = Locks.acquire sh.locks l p := by
  cases h with
  | update _ _ _ hfree => exact .inr (.inr ⟨_, hfree, rfl⟩)
  | _ => first | exact .inl rfl | exact .inr (.inl rfl)

/-- A `Complete` touches nothing but the tables and the locks. -/
lemma CompleteRule.frame {c : Completion} {r : Option Completion}
    (h : CompleteRule p sh c a sh' r) :
    sh' = { sh with db := sh'.db, locks := sh'.locks } := by
  cases h <;> rfl

/-- A retried `Complete` starts over, with one retry less. -/
lemma Completion.retry_eq_some {c c' : Completion} (h : some c' = c.retry) :
    c' = { c with tries := c.tries - 1, phase := .begin } := by
  unfold Completion.retry at h
  split at h
  · cases h
  · exact Option.some.inj h

/-- The steps of a `Complete` do not change what it is for. -/
lemma CompleteRule.keeps {c c' : Completion} (h : CompleteRule p sh c a sh' (some c')) :
    c'.args = c.args ∧ c'.attempt = c.attempt ∧ c'.body = c.body := by
  cases h with
  | refused _ hr | unseen _ hr | fail hr =>
    rw [Completion.retry_eq_some hr]
    exact ⟨rfl, rfl, rfl⟩
  | _ => exact ⟨rfl, rfl, rfl⟩

/-- **Only a commit changes the tables**: that of a claim, of a `Complete` or of an
`expireKeys`. -/
lemma Rule.db_cases (h : Rule env p sh pr a sh' pr') :
    (sh'.db = sh.db ∧ sh'.claims = sh.claims) ∨ a.commits = true ∧
    ((∃ tx verdict, pr = .handler (.commit tx verdict) ∧ sh' = sh.applyClaim p tx verdict) ∨
    (∃ c caller now row voided, pr = .completing c caller ∧ c.phase = .commit now row voided ∧
      sh' = sh.applyComplete p c.args.keyID now row voided) ∨
    (∃ now gone, pr = .expire (.delete now [] gone) ∧ sh' = sh.applyExpire p gone)) := by
  cases h with
  | claimed => exact .inr ⟨rfl, .inl ⟨_, _, rfl, rfl⟩⟩
  | rejected => exact .inr ⟨rfl, .inl ⟨_, _, rfl, rfl⟩⟩
  | claimUnseen => exact .inr ⟨rfl, .inl ⟨_, _, rfl, rfl⟩⟩
  | expired => exact .inr ⟨rfl, .inr (.inr ⟨_, _, rfl, rfl⟩)⟩
  | expireUnseen => exact .inr ⟨rfl, .inr (.inr ⟨_, _, rfl, rfl⟩)⟩
  | complete hc | completed hc | completedStale hc =>
    rcases hc.db_cases with h | ⟨ha, _, _, _, hphase, heq⟩
    · exact .inl h
    · exact .inr ⟨ha, .inr (.inl ⟨_, _, _, _, _, rfl, hphase, heq⟩)⟩
  | _ => exact .inl ⟨rfl, rfl⟩

/-- Only a claim that takes effect adds to the claims. -/
lemma Rule.claims_cases (h : Rule env p sh pr a sh' pr') :
    sh'.claims = sh.claims ∨ a.commits = true ∧ ∃ tx verdict,
      pr = .handler (.commit tx verdict) ∧ sh' = sh.applyClaim p tx verdict := by
  rcases h.db_cases with ⟨-, hclaims⟩ | ⟨ha, hclaim | ⟨_, _, _, _, _, -, -, rfl⟩ |
    ⟨_, _, -, rfl⟩⟩
  · exact .inl hclaims
  · exact .inr ⟨ha, hclaim⟩
  · exact .inl rfl
  · exact .inl rfl

/-- The rows of `conflicts` are those that committed claims recorded. -/
lemma Rule.conflicts_cases (h : Rule env p sh pr a sh' pr') {c : ConflictRow}
    (hc : c ∈ sh'.db.conflicts) :
    c ∈ sh.db.conflicts ∨ ∃ tx verdict, pr = .handler (.commit tx verdict) ∧
      sh' = sh.applyClaim p tx verdict ∧ c ∈ tx.conflicts := by
  rcases h.db_cases with ⟨hdb, -⟩ | ⟨-, ⟨tx, verdict, rfl, rfl⟩ |
    ⟨c, caller, now, row, voided, rfl, hphase, rfl⟩ | ⟨now, gone, rfl, rfl⟩⟩
  · exact .inl (hdb ▸ hc)
  · exact (List.mem_append.mp hc).imp_right fun hc => ⟨tx, verdict, rfl, rfl, hc⟩
  · exact .inl hc
  · exact .inl hc

/-- No step of a process removes an intent, though it may be voided. -/
lemma Rule.inserted {i : IntentRow} (h : Rule env p sh pr a sh' pr')
    (hi : i ∈ sh.db.intents) :
    ∃ j ∈ sh'.db.intents, j.inserted = i.inserted := by
  rcases h.db_cases with ⟨hdb, -⟩ | ⟨-, ⟨tx, verdict, rfl, rfl⟩ |
    ⟨c, caller, now, row, voided, rfl, hphase, rfl⟩ | ⟨now, gone, rfl, rfl⟩⟩
  · exact ⟨i, hdb ▸ hi, rfl⟩
  · exact ⟨i, List.mem_append_left _ hi, rfl⟩
  · have hmem : i.inserted ∈ (voidLatest now voided sh.db.intents).map (·.inserted) := by
      rw [map_inserted_voidLatest]
      exact List.mem_map_of_mem hi
    exact List.mem_map.mp hmem
  · exact ⟨i, hi, rfl⟩

/-- A step takes one free lock, gives back the locks of its process, or neither. -/
lemma Rule.locks_cases (h : Rule env p sh pr a sh' pr') :
    sh'.locks = sh.locks ∨ sh'.locks = Locks.release sh.locks p ∨
      ∃ l, sh.locks l = none ∧ sh'.locks = Locks.acquire sh.locks l p := by
  cases h with
  | lock hfree => exact .inr (.inr ⟨_, hfree, rfl⟩)
  | insert _ hfree => exact .inr (.inr ⟨_, hfree, rfl⟩)
  | reclaim _ _ hfree => exact .inr (.inr ⟨_, hfree, rfl⟩)
  | delete _ _ hfree => exact .inr (.inr ⟨_, hfree, rfl⟩)
  | complete hc | completed hc | completedStale hc => exact hc.locks_cases
  | _ => first | exact .inl rfl | exact .inr (.inl rfl)

/-- Identifiers are drawn in order, and those for intents are noted. -/
lemma Rule.ids_cases (h : Rule env p sh pr a sh' pr') :
    (sh.nextID ≤ sh'.nextID ∧ sh'.drawn = sh.drawn) ∨
      (sh'.nextID = sh.nextID + 1 ∧
        sh'.drawn = Function.update sh.drawn sh.nextID (some p)) := by
  cases h with
  | record => exact .inr ⟨rfl, rfl⟩
  | insert | window | statuses =>
    exact .inl ⟨Nat.le_add_right _ _, rfl⟩
  | complete hc | completed hc | completedStale hc =>
    rw [hc.frame]
    exact .inl ⟨le_rfl, rfl⟩
  | _ => exact .inl ⟨le_rfl, rfl⟩

/-- A step leaves the calls of other processes alone. -/
lemma Rule.calls_of_ne {q : Pid} (h : Rule env p sh pr a sh' pr') (hq : q ≠ p) :
    sh'.calls q = sh.calls q := by
  cases h with
  | complete hc | completed hc | completedStale hc => rw [hc.frame]
  | land | lose | crashCall | call | ret => exact Function.update_of_ne hq _ _
  | _ => rfl

end Idemio
