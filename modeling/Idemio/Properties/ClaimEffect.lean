import Idemio.System.Locking

set_option relaxedAutoImplicit false
set_option autoImplicit false

/-!
# The effect of a claim

What one `Claim` does to the tables, from any database and for any request, while other sessions go
on around it. Its statements are listed with the tables before and after each of them. A claim that
returns without a commit has changed nothing in any of them. One that commits has changed the tables
in its last statement alone, by the row of its key, one intent, and the conflicts that it recorded.

## Main definitions

* `Idemio.ClaimRun` — a claim under way, with the statements that it has made.
* `Idemio.AllConflicts` — the intents that are in conflict with a request, most recent first.
* `Idemio.Changes` — what a commit changes in the tables, row by row.
* `Idemio.Commits` — the commit of a claim, as claimed or as rejected.
* `Idemio.ClaimEffect` — what a claim that has returned has done, one case for each return.
* `Idemio.Handler.Stage` — what is known of a claim at each point of its code.

## Main results

* `Idemio.ClaimRun.stage` — every run of a claim is at one of these stages.
* `Idemio.claim_effect_exact` — the effect of a claim.
* `Idemio.ClaimRun.step` — in the system as a whole, the claims of its processes are such runs.
-/

namespace Idemio

/-! ## Runs of one claim -/

/-- A statement of a claim, with the committed tables before and after it. -/
structure Statement where
  action : Action
  before : Database
  after : Database

/-- None of the statements changed the tables. -/
def Effectless (trace : List Statement) : Prop := ∀ s ∈ trace, s.after = s.before

/-- A `Claim` of `p` under way: its own steps, as long as it has not returned, and between them
whatever the others do that `p` can rely on. -/
inductive ClaimRun (env : Env) (p : Pid) (req : Request) :
    Shared → List Statement → Handler → Prop
  | start (sh : Shared) : ClaimRun env p req sh [] (.begin req)
  | own {sh sh' : Shared} {trace : List Statement} {h h' : Handler} {a : Action}
      (hrun : ClaimRun env p req sh trace h) (hopen : h.claiming ≠ none)
      (hstep : handlerStep env p sh h a = some (sh', .handler h')) :
      ClaimRun env p req sh' (trace ++ [⟨a, sh.db, sh'.db⟩]) h'
  | others {sh sh' : Shared} {trace : List Statement} {h : Handler}
      (hrun : ClaimRun env p req sh trace h) (hrely : Rely p sh sh') :
      ClaimRun env p req sh' trace h

/-! ## What a claim changes -/

/-- An intent that is in conflict with a request: another live one on its resource, emitted inside
its window, whose operation is not compatible with the one that the request declares. -/
structure ConflictsWith (req : Request) (now : Time) (own : Nat) (i : IntentRow) : Prop where
  resourceType : i.resourceType = req.resourceType
  resourceID : i.resourceID = req.resourceID
  emittedAt : now - req.window < i.emittedAt
  voidedAt : i.voidedAt = none
  intentID : i.intentID ≠ own
  incompatible : compatible req.declared i.declared = false

/-- The same as a conjunction, which can be decided. -/
lemma conflictsWith_iff {req : Request} {now : Time} {own : Nat} {i : IntentRow} :
    ConflictsWith req now own i ↔ i.resourceType = req.resourceType ∧
      i.resourceID = req.resourceID ∧ now - req.window < i.emittedAt ∧ i.voidedAt = none ∧
      i.intentID ≠ own ∧ compatible req.declared i.declared = false :=
  ⟨fun ⟨h₁, h₂, h₃, h₄, h₅, h₆⟩ => ⟨h₁, h₂, h₃, h₄, h₅, h₆⟩,
    fun ⟨h₁, h₂, h₃, h₄, h₅, h₆⟩ => ⟨h₁, h₂, h₃, h₄, h₅, h₆⟩⟩

instance (req : Request) (now : Time) (own : Nat) (i : IntentRow) :
    Decidable (ConflictsWith req now own i) :=
  decidable_of_iff _ conflictsWith_iff.symm

/-- `found` are all the intents of these tables that are in conflict with the request, most recent
first. -/
structure AllConflicts (db : Database) (req : Request) (now : Time) (own : Nat)
    (found : List IntentRow) : Prop where
  perm : found.Perm (db.intents.filter fun i => decide (ConflictsWith req now own i))
  newest : found.Pairwise fun i j => j.emittedAt ≤ i.emittedAt

/-- One of the statements read the window, when these were the conflicts in the tables. -/
def WindowShows (trace : List Statement) (req : Request) (now : Time) (own : Nat)
    (found : List IntentRow) : Prop :=
  ∃ db rows, ⟨.window rows, db, db⟩ ∈ trace ∧ AllConflicts db req now own found

/-- The row of a key that is claimed at `now`: a new one with attempt 1, or the row of a failed
attempt with the next. -/
structure NewAttempt (req : Request) (now : Time) (old : Option KeyRow) (row : KeyRow) : Prop where
  claimedAt : row.claimedAt = now
  resultRef : row.resultRef = none
  attempt :
    (old = none ∧ row.attemptCount = 1 ∧ row.createdAt = now ∧
      row.requestHash = req.requestHash ∧ row.resourceType = req.resourceType ∧
      row.resourceID = req.resourceID ∧ row.operation = req.operation) ∨
    ∃ failed, old = some failed ∧ failed.status = .failed ∧
      row.attemptCount = failed.attemptCount + 1 ∧ row.createdAt = failed.createdAt ∧
      row.requestHash = failed.requestHash ∧ row.resourceType = failed.resourceType ∧
      row.resourceID = failed.resourceID ∧ row.operation = failed.operation ∧
      row.tuple = failed.tuple

/-- The intent that a claim writes, voided or not. -/
structure WritesIntent (req : Request) (now : Time) (own : Nat) (i : IntentRow) : Prop where
  intentID : i.intentID = own
  agentID : i.agentID = req.agentID
  key : i.key = req.key
  resourceType : i.resourceType = req.resourceType
  resourceID : i.resourceID = req.resourceID
  operation : i.operation = req.operation
  declared : i.declared = req.declared
  payload : i.payload = req.payload
  emittedAt : i.emittedAt = now

/-- The row of `conflicts` that a claim writes about the intent `i`. -/
structure WritesConflict (req : Request) (now : Time) (own : Nat) (resolution : Resolution)
    (i : IntentRow) (c : ConflictRow) : Prop where
  intents : c.intentIDA = own ∧ c.intentIDB = i.intentID
  agents : c.agentIDA = req.agentID ∧ c.agentIDB = i.agentID
  resource : c.resourceType = req.resourceType ∧ c.resourceID = req.resourceID
  reason : c.reason = Idemio.reason req.declared i.declared
  resolution : c.resolution = resolution
  manifestVersion : c.manifestVersion = req.manifestVersion
  detectedAt : c.detectedAt = now

/-- The tables change in the row of the key, by the intent, and by one row for each of the ten most
recent conflicts; everything else stays. -/
structure Changes (req : Request) (now : Time) (own : Nat) (resolution : Resolution)
    (found : List IntentRow) (row : KeyRow) (i : IntentRow) (db db' : Database) : Prop where
  key : db'.keys.lookup req.keyID = some row
  keys : ∀ k, k ≠ req.keyID → db'.keys.lookup k = db.keys.lookup k
  intents : db'.intents = db.intents ++ [i]
  conflicts : ∃ rows, db'.conflicts = db.conflicts ++ rows ∧ rows.length = min 10 found.length ∧
    List.Forall₂ (WritesConflict req now own resolution) (found.take 10) rows

/-- The commit of a claim, after the statements `front`, and how the claim then returns. -/
inductive Commits (env : Env) (req : Request) (front : List Statement) (db db' : Database) :
    Handler → Prop
  /-- The key is claimed. -/
  | claimed {now : Time} {own : Nat} {found : List IntentRow} {row : KeyRow} {i : IntentRow}
      (hfound : WindowShows front req now own found)
      (hrow : NewAttempt req now (db.keys.lookup req.keyID) row) (hstatus : row.status = .pending)
      (hcleared : row.result = none ∧ row.outcomeDetail = none ∧ row.completedAt = none)
      (hintent : WritesIntent req now own i) (hlive : i.voidedAt = none)
      (hchanges : Changes req now own (if req.enforce then .serialized else .observed) found row i
        db db') :
      Commits env req front db db' (.execute ⟨req, own, row.attemptCount⟩)
  /-- The write is rejected. -/
  | rejected {now : Time} {own : Nat} {found : List IntentRow} {row : KeyRow} {i : IntentRow}
      {body : Jsonb} {detail : String} (henforce : req.enforce = true)
      (hfound : WindowShows front req now own found)
      (hrow : NewAttempt req now (db.keys.lookup req.keyID) row) (hstatus : row.status = .rejected)
      (hbody : row.result = some body) (hdetail : row.outcomeDetail = some detail)
      (hcompleted : row.completedAt = some now)
      (hintent : WritesIntent req now own i) (hvoided : i.voidedAt = some now)
      (hchanges : Changes req now own .rejected found row i db db') :
      Commits env req front db db'
        (.respond (some req.keyID) (writeRaw 409 (env.jsonbText body)))

/-- What a claim that has returned has done. -/
inductive ClaimEffect (env : Env) (req : Request) : List Statement → Handler → Prop
  /-- The lock was not to be had. -/
  | lockTimeout {trace : List Statement} (h : Effectless trace) :
      ClaimEffect env req trace
        (.respond (some req.keyID) (writeNotExecuted req.key "resource_busy"))
  /-- The key was used with another body. -/
  | mismatch {trace : List Statement} (h : Effectless trace) :
      ClaimEffect env req trace (hashMismatch req)
  /-- The key is taken, and its row is waited for or answered from. -/
  | await {trace : List Statement} {record : Record} (h : Effectless trace) :
      ClaimEffect env req trace (.await record)
  | existing {trace : List Statement} {record : Record} (h : Effectless trace) :
      ClaimEffect env req trace (.existing record)
  /-- An earlier write of the same agent is waited for, while conflicts are enforced. -/
  | serialize {trace : List Statement} {blocking : KeyID} (h : Effectless trace)
      (henforce : req.enforce = true) : ClaimEffect env req trace (.wait req blocking)
  /-- A statement failed, or the commit was refused. -/
  | failed {trace : List Statement} (h : Effectless trace) :
      ClaimEffect env req trace (claimFailed req)
  /-- The commit took effect. -/
  | committed {front : List Statement} {db db' : Database} {h : Handler}
      (hfront : Effectless front) (hcommits : Commits env req front db db' h) :
      ClaimEffect env req (front ++ [⟨.commit .ok, db, db'⟩]) h
  /-- The commit took effect and reported an error. -/
  | unseen {front : List Statement} {db db' : Database} {h : Handler}
      (hfront : Effectless front) (hcommits : Commits env req front db db' h) :
      ClaimEffect env req (front ++ [⟨.commit .unseen, db, db'⟩]) (claimFailed req)

/-! ## Stages -/

/-- One of the statements read the window and returned these rows. -/
def WindowRead (trace : List Statement) (req : Request) (now : Time) (intentID : Nat)
    (rows : List IntentRow) : Prop :=
  ∃ db, ⟨.window rows, db, db⟩ ∈ trace ∧ SelectWindow db req now intentID rows

/-- The claim holds the row of its key, and that is still the one from which its own was opened. -/
structure OpenKey (p : Pid) (sh : Shared) (req : Request) (now : Time) (row₀ : KeyRow) : Prop where
  key : sh.locks (.row req.keyID) = some p
  opens : Opens req now (sh.db.keys.lookup req.keyID) row₀

/-- A claim that has inserted its intent and has no verdict yet. -/
structure Unjudged (p : Pid) (sh : Shared) (req : Request) (tx : ClaimTx) : Prop where
  request : tx.req = req
  openKey : OpenKey p sh req tx.now tx.row
  intent : tx.intent = insertIntent req tx.now tx.intent.intentID
  conflicts : tx.conflicts = []

/-- A claim that is about to commit its verdict. -/
inductive Ready (env : Env) (p : Pid) (sh : Shared) (req : Request) (trace : List Statement)
    (tx : ClaimTx) : Verdict → Prop
  | claimed {observed : Nat} {rows : List IntentRow} {nextID : Nat} (hreq : tx.req = req)
      (hopen : OpenKey p sh req tx.now tx.row)
      (hintent : tx.intent = insertIntent req tx.now tx.intent.intentID)
      (hwindow : WindowRead trace req tx.now tx.intent.intentID rows)
      (hconflicts : tx.conflicts = recordConflicts tx
        (if req.enforce then .serialized else .observed) nextID (conflictingIntents req rows)) :
      Ready env p sh req trace tx (.claimed observed)
  | rejected {row₀ : KeyRow} {body : Jsonb} {detail : String} {rows : List IntentRow}
      {nextID : Nat} (hreq : tx.req = req) (henforce : req.enforce = true)
      (hopen : OpenKey p sh req tx.now row₀)
      (hrow : tx.row = rejectKey tx.now body detail row₀)
      (hintent : tx.intent =
        { insertIntent req tx.now tx.intent.intentID with voidedAt := some tx.now })
      (hwindow : WindowRead trace req tx.now tx.intent.intentID rows)
      (hconflicts : tx.conflicts =
        recordConflicts tx .rejected nextID (conflictingIntents req rows)) :
      Ready env p sh req trace tx (.rejected (env.jsonbText body))

/-- What is known of a claim at each point of its code. -/
def Handler.Stage (env : Env) (p : Pid) (req : Request) (sh : Shared) (trace : List Statement) :
    Handler → Prop
  | .begin req' => req' = req ∧ Effectless trace
  | .lock req' _ => req' = req ∧ Effectless trace
  | .insert req' _ => req' = req ∧ Effectless trace
  | .read req' _ => req' = req ∧ Effectless trace
  | .reclaim req' _ _ => req' = req ∧ Effectless trace
  | .record req' now row => (req' = req ∧ OpenKey p sh req now row) ∧ Effectless trace
  | .window tx => Unjudged p sh req tx ∧ Effectless trace
  | .statuses tx same =>
    (Unjudged p sh req tx ∧ req.enforce = true ∧ ∃ rows,
      WindowRead trace req tx.now tx.intent.intentID rows ∧ same = conflictingIntents req rows) ∧
      Effectless trace
  | .commit tx verdict => Ready env p sh req trace tx verdict ∧ Effectless trace
  | h => ClaimEffect env req trace h

variable {env : Env} {p : Pid} {req : Request} {sh sh' : Shared} {trace : List Statement}
  {s : Statement} {h h' : Handler} {tx tx' : ClaimTx} {now : Time} {row : KeyRow} {n : Nat}
  {rows : List IntentRow} {verdict : Verdict}

lemma effectless_concat (htrace : Effectless trace) (hs : s.after = s.before) :
    Effectless (trace ++ [s]) := by
  rw [Effectless, List.forall_mem_append, List.forall_mem_singleton]
  exact ⟨htrace, hs⟩

lemma WindowRead.concat (hread : WindowRead trace req now n rows) :
    WindowRead (trace ++ [s]) req now n rows := by
  obtain ⟨db, hmem, hrows⟩ := hread
  exact ⟨db, List.mem_append_left _ hmem, hrows⟩

lemma OpenKey.stable (hopen : OpenKey p sh req now row) (R : Rely p sh sh') :
    OpenKey p sh' req now row :=
  ⟨R.locks _ hopen.key, (R.keys _ hopen.key).1 ▸ hopen.opens⟩

lemma Unjudged.stable (htx : Unjudged p sh req tx) (R : Rely p sh sh') : Unjudged p sh' req tx :=
  ⟨htx.request, htx.openKey.stable R, htx.intent, htx.conflicts⟩

lemma Ready.stable (hready : Ready env p sh req trace tx verdict) (R : Rely p sh sh') :
    Ready env p sh' req trace tx verdict := by
  cases hready with
  | claimed hreq hopen hintent hwindow hconflicts =>
    exact .claimed hreq (hopen.stable R) hintent hwindow hconflicts
  | rejected hreq henforce hopen hrow hintent hwindow hconflicts =>
    exact .rejected hreq henforce (hopen.stable R) hrow hintent hwindow hconflicts

lemma Ready.concat (hready : Ready env p sh req trace tx verdict) :
    Ready env p sh req (trace ++ [s]) tx verdict := by
  cases hready with
  | claimed hreq hopen hintent hwindow hconflicts =>
    exact .claimed hreq hopen hintent hwindow.concat hconflicts
  | rejected hreq henforce hopen hrow hintent hwindow hconflicts =>
    exact .rejected hreq henforce hopen hrow hintent hwindow.concat hconflicts

/-- A stage is stable under what the claim relies on. -/
lemma Handler.Stage.stable (hstage : h.Stage env p req sh trace) (R : Rely p sh sh') :
    h.Stage env p req sh' trace := by
  cases h with
  | record => exact ⟨⟨hstage.1.1, hstage.1.2.stable R⟩, hstage.2⟩
  | window => exact ⟨hstage.1.stable R, hstage.2⟩
  | statuses => exact ⟨⟨hstage.1.1.stable R, hstage.1.2⟩, hstage.2⟩
  | commit => exact ⟨hstage.1.stable R, hstage.2⟩
  | _ => exact hstage

/-- A statement that neither changes the tables nor ends the claim keeps its stage. -/
lemma Handler.Stage.concat (hstage : h.Stage env p req sh trace) (hopen : h.claiming ≠ none)
    (R : Rely p sh sh') (hs : s.after = s.before) : h.Stage env p req sh' (trace ++ [s]) := by
  have hstage := hstage.stable R
  cases h with
  | begin | lock | insert | read | reclaim | record | window =>
    exact ⟨hstage.1, effectless_concat hstage.2 hs⟩
  | statuses =>
    obtain ⟨⟨htx, henforce, rows, hwindow, hsame⟩, htrace⟩ := hstage
    exact ⟨⟨htx, henforce, rows, hwindow.concat, hsame⟩, effectless_concat htrace hs⟩
  | commit => exact ⟨hstage.1.concat, effectless_concat hstage.2 hs⟩
  | _ => exact absurd rfl hopen

/-- The request of a claim is the one that it was made with. -/
lemma Handler.Stage.request (hstage : h.Stage env p req sh trace) {req' : Request}
    (hopen : h.claiming = some req') : req' = req ∧ Effectless trace := by
  cases h <;> simp only [Handler.claiming, Option.some.injEq, reduceCtorEq] at hopen <;>
    subst hopen
  case begin | lock | insert | read | reclaim => exact hstage
  case record => exact ⟨hstage.1.1, hstage.2⟩
  case window => exact ⟨hstage.1.request, hstage.2⟩
  case statuses => exact ⟨hstage.1.1.request, hstage.2⟩
  case commit =>
    obtain ⟨hready, htrace⟩ := hstage
    cases hready with
    | claimed hreq => exact ⟨hreq, htrace⟩
    | rejected hreq => exact ⟨hreq, htrace⟩

/-- **The verdict on the window.** -/
lemma Unjudged.ready (htx : Unjudged p sh req tx) {nextID : Nat}
    (hwindow : WindowRead trace req tx.now tx.intent.intentID rows)
    (hverdict : resolveConflicts env tx nextID rows = .settled tx' verdict) :
    Ready env p sh req trace tx' verdict := by
  obtain ⟨rfl, hopen, hintent, hnil⟩ := htx
  have hresolves := resolves env tx nextID rows
  rw [hverdict] at hresolves
  cases hresolves with
  | free hnone =>
    have hconflicts : tx.conflicts = recordConflicts tx
        (if tx.req.enforce then .serialized else .observed) nextID
        (conflictingIntents tx.req rows) := by
      rw [hnil, hnone]
      rfl
    exact .claimed rfl hopen hintent hwindow hconflicts
  | shadow hshadow =>
    have hconflicts : recordConflicts tx .observed nextID (conflictingIntents tx.req rows) =
        recordConflicts tx (if tx.req.enforce then .serialized else .observed) nextID
          (conflictingIntents tx.req rows) := by
      rw [hshadow]
      rfl
    exact .claimed rfl hopen hintent hwindow hconflicts
  | @reject primary _ henforce hothers =>
    have hid : (reject tx nextID primary (conflictingIntents tx.req rows)).intent.intentID =
        tx.intent.intentID := by simp [reject]
    have hvoided : (reject tx nextID primary (conflictingIntents tx.req rows)).intent =
        { tx.intent with voidedAt := some tx.now } := by simp [reject, voidIntent]
    have hconflicts : recordConflicts (reject tx nextID primary (conflictingIntents tx.req rows))
        .rejected nextID (conflictingIntents tx.req rows) =
        recordConflicts tx .rejected nextID (conflictingIntents tx.req rows) := by
      apply recordConflicts_congr
      exacts [rfl, rfl, hid]
    refine .rejected rfl henforce hopen rfl ?_ (hid.symm ▸ hwindow) hconflicts.symm
    rw [hid, hvoided]
    exact congrArg (fun i : IntentRow => { i with voidedAt := some tx.now }) hintent

/-- The row that a claim opens is that of a new attempt, pending and without an outcome. -/
lemma Opens.newAttempt {old : Option KeyRow} (hopen : Opens req now old row) :
    NewAttempt req now old row ∧ row.status = .pending ∧ row.result = none ∧
      row.outcomeDetail = none ∧ row.completedAt = none := by
  cases hopen with
  | insert => exact ⟨⟨rfl, rfl, .inl ⟨rfl, rfl, rfl, rfl, rfl, rfl, rfl⟩⟩, rfl, rfl, rfl, rfl⟩
  | reclaim hreclaim =>
    obtain ⟨hfailed, rfl⟩ := reclaimKey_eq_some.mp hreclaim
    exact ⟨⟨rfl, rfl, .inr ⟨_, rfl, hfailed, rfl, rfl, rfl, rfl, rfl, rfl, rfl⟩⟩, rfl, rfl, rfl,
      rfl⟩

/-- What is left of the window are all the conflicts. -/
lemma allConflicts_of_selectWindow {db : Database} (hrows : SelectWindow db req now n rows) :
    AllConflicts db req now n (conflictingIntents req rows) where
  perm := by
    have hfilter : (db.intents.filter (inWindow req now n)).filter
        (fun i => !compatible req.declared i.declared) =
        db.intents.filter fun i => decide (ConflictsWith req now n i) := by
      rw [List.filter_filter]
      refine List.filter_congr fun i _ => ?_
      rw [Bool.eq_iff_iff]
      simp only [inWindow, IntentRow.live, conflictsWith_iff, Bool.and_eq_true, decide_eq_true_eq,
        Bool.not_eq_true', Option.isNone_iff_eq_none]
      tauto
    exact hfilter ▸ hrows.1.filter _
  newest := hrows.2.filter _

lemma WindowRead.shows (hread : WindowRead trace req now n rows) :
    WindowShows trace req now n (conflictingIntents req rows) := by
  obtain ⟨db, hmem, hrows⟩ := hread
  exact ⟨db, rows, hmem, allConflicts_of_selectWindow hrows⟩

/-- The rows of `recordConflicts` are about the ten most recent candidates, one each. -/
lemma forall₂_recordConflicts (tx : ClaimTx) (resolution : Resolution) (nextID : Nat)
    (candidates : List IntentRow) :
    List.Forall₂ (WritesConflict tx.req tx.now tx.intent.intentID resolution)
      (candidates.take 10) (recordConflicts tx resolution nextID candidates) := by
  rw [recordConflicts, List.forall₂_map_right_iff, List.forall₂_iff_get]
  refine ⟨by simp [maxRecordedConflicts], fun k hk hk' => ?_⟩
  simp only [List.get_eq_getElem, List.getElem_zipIdx, maxRecordedConflicts]
  exact ⟨⟨rfl, rfl⟩, ⟨rfl, rfl⟩, ⟨rfl, rfl⟩, rfl, rfl, rfl, rfl⟩

/-- What the commit of a claim transaction changes. -/
lemma ClaimTx.changes {resolution : Resolution} {nextID : Nat} {found : List IntentRow}
    (db : Database) (hconflicts : tx.conflicts = recordConflicts tx resolution nextID found) :
    Changes tx.req tx.now tx.intent.intentID resolution found tx.row tx.intent db
      (tx.apply db) where
  key := AList.lookup_insert _
  keys _ hk := AList.lookup_insert_ne hk
  intents := rfl
  conflicts := ⟨tx.conflicts, rfl, hconflicts ▸ length_recordConflicts ..,
    hconflicts ▸ forall₂_recordConflicts ..⟩

/-- **The commit of a claim** changes what its verdict says. -/
lemma Ready.commits (hready : Ready env p sh req trace tx verdict) :
    Commits env req trace sh.db (tx.apply sh.db) (afterClaim tx verdict) := by
  cases hready with
  | claimed hreq hopen hintent hwindow hconflicts =>
    subst hreq
    obtain ⟨hrow, hpending, hcleared⟩ := hopen.opens.newAttempt
    have hwrites : WritesIntent tx.req tx.now tx.intent.intentID tx.intent := by
      rw [hintent]
      exact ⟨rfl, rfl, rfl, rfl, rfl, rfl, rfl, rfl, rfl⟩
    exact .claimed hwindow.shows hrow hpending hcleared hwrites (by rw [hintent]; rfl)
      (tx.changes sh.db hconflicts)
  | rejected hreq henforce hopen hrow hintent hwindow hconflicts =>
    subst hreq
    obtain ⟨⟨hclaimed, href, hattempt⟩, -⟩ := hopen.opens.newAttempt
    have hwrites : WritesIntent tx.req tx.now tx.intent.intentID tx.intent := by
      rw [hintent]
      exact ⟨rfl, rfl, rfl, rfl, rfl, rfl, rfl, rfl, rfl⟩
    refine .rejected henforce hwindow.shows ?_ (by rw [hrow]; rfl) (by rw [hrow]; rfl)
      (by rw [hrow]; rfl) (by rw [hrow]; rfl) hwrites (by rw [hintent])
      (tx.changes sh.db hconflicts)
    rw [hrow]
    exact ⟨hclaimed, href, hattempt⟩

/-- **One statement of a claim.** -/
lemma Handler.Stage.step {a : Action} (hstage : h.Stage env p req sh trace)
    (hopen : h.claiming ≠ none) (hrule : Rule env p sh (.handler h) a sh' (.handler h')) :
    h'.Stage env p req sh' (trace ++ [⟨a, sh.db, sh'.db⟩]) := by
  cases hrule with
  | land | lose => exact hstage.concat hopen (.of_frame (fun _ h => h) rfl fun _ h => h) rfl
  | begin | lock | taken | readFailed => exact ⟨hstage.1, effectless_concat hstage.2 rfl⟩
  | lockTimeout =>
    obtain ⟨rfl, htrace⟩ := hstage
    exact ClaimEffect.lockTimeout (effectless_concat htrace rfl)
  | insert hrow hfree =>
    obtain ⟨rfl, htrace⟩ := hstage
    exact ⟨⟨rfl, Locks.acquire_self .., hrow ▸ .insert _⟩, effectless_concat htrace rfl⟩
  | readGone =>
    obtain ⟨rfl, htrace⟩ := hstage
    exact ClaimEffect.failed (effectless_concat htrace rfl)
  | mismatch =>
    obtain ⟨rfl, htrace⟩ := hstage
    exact ClaimEffect.mismatch (effectless_concat htrace rfl)
  | readPending | reclaimAwait => exact ClaimEffect.await (effectless_concat hstage.2 rfl)
  | readExisting | reclaimExisting => exact ClaimEffect.existing (effectless_concat hstage.2 rfl)
  | reclaim hold hrow hfree =>
    obtain ⟨rfl, htrace⟩ := hstage
    exact ⟨⟨rfl, Locks.acquire_self .., hold ▸ .reclaim hrow⟩, effectless_concat htrace rfl⟩
  | record =>
    obtain ⟨⟨rfl, hkey⟩, htrace⟩ := hstage
    exact ⟨⟨rfl, ⟨hkey.key, hkey.opens⟩, rfl, rfl⟩, effectless_concat htrace rfl⟩
  | window hrows hverdict =>
    obtain ⟨htx, htrace⟩ := hstage
    obtain rfl := htx.request
    refine ⟨?_, effectless_concat htrace rfl⟩
    refine (htx.ready ⟨sh.db, List.mem_append_right _ (List.mem_singleton_self _), hrows⟩
      hverdict).stable ?_
    exact .of_frame (fun _ h => h) rfl fun _ h => h
  | check hrows hverdict =>
    obtain ⟨htx, htrace⟩ := hstage
    obtain rfl := htx.request
    exact ⟨⟨htx, enforce_of_check hverdict, _,
      ⟨sh.db, List.mem_append_right _ (List.mem_singleton_self _), hrows⟩,
      (resolveConflicts_check hverdict).1⟩, effectless_concat htrace rfl⟩
  | serialize hrows hpending =>
    obtain ⟨⟨htx, henforce, -⟩, htrace⟩ := hstage
    obtain rfl := htx.request
    exact ClaimEffect.serialize (effectless_concat htrace rfl) henforce
  | @statuses tx same _ _ _ =>
    obtain ⟨⟨⟨rfl, hkey, hintent, -⟩, henforce, rows, hwindow, rfl⟩, htrace⟩ := hstage
    have hconflicts : recordConflicts tx .serialized sh.nextID (conflictingIntents tx.req rows) =
        recordConflicts tx (if tx.req.enforce then .serialized else .observed) sh.nextID
          (conflictingIntents tx.req rows) := by
      rw [henforce]
      rfl
    exact ⟨.claimed rfl ⟨hkey.key, hkey.opens⟩ hintent hwindow.concat hconflicts,
      effectless_concat htrace rfl⟩
  | claimed => exact ClaimEffect.committed hstage.2 hstage.1.commits
  | rejected => exact ClaimEffect.committed hstage.2 hstage.1.commits
  | claimRefused =>
    obtain ⟨rfl, htrace⟩ := hstage.request rfl
    exact ClaimEffect.failed (effectless_concat htrace rfl)
  | claimUnseen =>
    obtain ⟨rfl, htrace⟩ := hstage.request rfl
    exact ClaimEffect.unseen htrace hstage.1.commits
  | claimFail hreq =>
    obtain ⟨rfl, htrace⟩ := hstage.request hreq
    exact ClaimEffect.failed (effectless_concat htrace rfl)
  | _ => exact absurd rfl hopen

/-- **Every run of a claim** is at one of the stages. -/
lemma ClaimRun.stage (hrun : ClaimRun env p req sh trace h) : h.Stage env p req sh trace := by
  induction hrun with
  | start sh => exact ⟨rfl, by simp [Effectless]⟩
  | own _ hopen hstep ih => exact ih.step hopen (rule_of_handlerStep hstep)
  | others _ hrely ih => exact ih.stable hrely

/-! ## Shadow mode -/

/-- Without enforcement the window changes neither the verdict nor the rows of the claim. -/
lemma resolveConflicts_shadow (env : Env) (nextID : Nat) (rows : List IntentRow)
    (hshadow : tx.req.enforce = false) :
    ∃ tx' observed, resolveConflicts env tx nextID rows = .settled tx' (.claimed observed) ∧
      tx'.row = tx.row ∧ tx'.intent = tx.intent := by
  by_cases hnone : conflictingIntents tx.req rows = []
  · exact ⟨tx, 0, resolveConflicts_nil hnone, rfl, rfl⟩
  · refine ⟨{ tx with
        conflicts := recordConflicts tx .observed nextID (conflictingIntents tx.req rows) },
      (conflictingIntents tx.req rows).length, ?_, rfl, rfl⟩
    simp [resolveConflicts, hnone, hshadow]

/-- **The effect of a claim is exact.** Whatever the tables were when it began, and whatever the
others did meanwhile, a claim that has returned has done what `ClaimEffect` says of its return.
Without enforcement its verdict, its key row and its intent are those that it would have had with an
empty window. -/
theorem claim_effect_exact (hrun : ClaimRun env p req sh trace h) (hreturned : h.claiming = none) :
    ClaimEffect env req trace h ∧
      (req.enforce = false → ∀ tx nextID rows, tx.req = req → ∃ tx₁ tx₂ n₁ n₂,
        resolveConflicts env tx nextID rows = .settled tx₁ (.claimed n₁) ∧
          resolveConflicts env tx nextID [] = .settled tx₂ (.claimed n₂) ∧
          tx₁.row = tx₂.row ∧ tx₁.intent = tx₂.intent) := by
  refine ⟨?_, ?_⟩
  · have hstage := hrun.stage
    cases h <;> first | exact hstage | cases hreturned
  · rintro hshadow tx nextID rows rfl
    obtain ⟨tx₁, n₁, h₁, hrow₁, hintent₁⟩ := resolveConflicts_shadow env nextID rows hshadow
    obtain ⟨tx₂, n₂, h₂, hrow₂, hintent₂⟩ := resolveConflicts_shadow env nextID [] hshadow
    exact ⟨tx₁, tx₂, n₁, n₂, h₁, h₂, hrow₁.trans hrow₂.symm, hintent₁.trans hintent₂.symm⟩

/-- A request of agent `a` in `Env.small`, with conflicts enforced or observed. -/
def Request.small (enforce : Bool) : Request :=
  ⟨"a", keyA, "h", "order", "7", "put", ⟨.mutate, []⟩, [1], 1000, enforce, "1"⟩

/-- Twelve live intents of agent `b` on the resource of `Request.small`, most recent first. -/
def IntentRow.dozen : List IntentRow :=
  (List.range 12).reverse.map fun n => .small (n + 1) .replace "b" keyB (n + 2)

/-- Tables in which the first attempt of agent `a` has failed and agent `b` has written a dozen
times since. -/
def Shared.crowded : Shared :=
  { Shared.init with
    db := ⟨(∅ : AList fun _ : KeyID => KeyRow).insert ⟨"a", keyA⟩
        ⟨"h", .failed, "order", "7", "put", none, none, some "no", 1, 1, 1, some 1, 0⟩,
      { IntentRow.small 0 .mutate "a" keyA 1 with voidedAt := some 1 } :: IntentRow.dozen, []⟩
    nextID := 20 }

/-- The statements of a claim, one after the other, with nobody else around. -/
def claimExec (env : Env) (p : Pid) : Shared → Handler → List Action → Option (Shared × Handler)
  | sh, h, [] => some (sh, h)
  | sh, h, a :: as =>
    match h.claiming, handlerStep env p sh h a with
    | some _, some (sh', .handler h') => claimExec env p sh' h' as
    | _, _ => none

lemma ClaimRun.exec {as : List Action} (hrun : ClaimRun env p req sh trace h)
    (hexec : claimExec env p sh h as = some (sh', h')) :
    ∃ trace', ClaimRun env p req sh' trace' h' := by
  induction as generalizing sh trace h with
  | nil =>
    cases hexec
    exact ⟨trace, hrun⟩
  | cons a as ih =>
    rw [claimExec] at hexec
    split at hexec
    · next _ _ hopen hstep => exact ih (hrun.own (by simp [hopen]) hstep) hexec
    · cases hexec

/-- What agent `a` finds after its claim on the crowded tables: its key in its second attempt, two
more intents than the dozen, and the ten most recent of these recorded. -/
def Shared.claimedInCrowd (status : Status) (sh : Shared) : Bool :=
  (sh.db.keys.lookup ⟨"a", keyA⟩).any (fun row => row.status = status && row.attemptCount = 2) &&
    sh.db.intents.length = 14 &&
    sh.db.conflicts.map ConflictRow.intentIDB = [12, 11, 10, 9, 8, 7, 6, 5, 4, 3]

/-- A claim on the crowded tables, all of whose statements succeed. -/
lemma exists_claimRun_crowded (enforce : Bool) (status : Status)
    (hexec : (claimExec Env.small 0 Shared.crowded (.begin (.small enforce)) [.begin 20, .lock,
      .insert, .read, .reclaim, .record, .window IntentRow.dozen, .commit .ok]).any (fun r =>
        r.2.claiming = none && r.1.claimedInCrowd status) = true) :
    ∃ sh trace h, ClaimRun Env.small 0 (.small enforce) sh trace h ∧ h.claiming = none ∧
      sh.claimedInCrowd status = true := by
  obtain ⟨⟨sh, h⟩, hexec, htest⟩ := (Option.any_eq_true _ _).mp hexec
  obtain ⟨trace, hrun⟩ := (ClaimRun.start Shared.crowded).exec hexec
  simp only [Bool.and_eq_true, decide_eq_true_eq] at htest
  exact ⟨sh, trace, h, hrun, htest⟩

/-- The next attempt of agent `a`: it is claimed if conflicts are only observed, and rejected if
they are enforced. In both cases ten of the twelve conflicts are recorded. -/
theorem claim_effect_exact_crowded :
    (∃ sh trace h, ClaimRun Env.small 0 (.small false) sh trace h ∧ h.claiming = none ∧
      sh.claimedInCrowd .pending = true ∧ ClaimEffect Env.small (.small false) trace h) ∧
    ∃ sh trace h, ClaimRun Env.small 0 (.small true) sh trace h ∧ h.claiming = none ∧
      sh.claimedInCrowd .rejected = true ∧ ClaimEffect Env.small (.small true) trace h := by
  obtain ⟨sh, trace, h, hrun, hnone, hcrowd⟩ :=
    exists_claimRun_crowded false .pending (by decide +kernel)
  obtain ⟨sh', trace', h', hrun', hnone', hcrowd'⟩ :=
    exists_claimRun_crowded true .rejected (by decide +kernel)
  exact ⟨⟨sh, trace, h, hrun, hnone, hcrowd, (claim_effect_exact hrun hnone).1⟩,
    sh', trace', h', hrun', hnone', hcrowd', (claim_effect_exact hrun' hnone').1⟩

/-! ## The claims of the system -/

/-- A step of a process in a claim: it ends there, its downstream call goes on, or it is a statement
of the claim. -/
lemma act_cases_of_claiming {a : Action} {pr : Proc} (hopen : h.claiming ≠ none)
    (hact : act env p sh (.handler h) a = some (sh', pr)) :
    pr = .stopped ∨ (pr = .handler h ∧ Rely p sh sh') ∨
      ∃ h', pr = .handler h' ∧ handlerStep env p sh h a = some (sh', .handler h') := by
  have hrule := rule_of_act hact
  cases hrule with
  | land | lose => exact .inr (.inl ⟨rfl, .of_frame (fun _ h => h) rfl fun _ h => h⟩)
  | crash => exact .inl rfl
  | crashCall | place | finish => exact absurd rfl hopen
  | _ => exact .inr (.inr ⟨_, rfl, hact⟩)

/-- **In the system as a whole the claims are such runs**: a step of any process continues them, or
ends the process of the claim. -/
theorem ClaimRun.step {ok : Assumption} {s s' : State} {q : Pid} {a : Action}
    (hreach : Reaches env ok s) (hp : s.procs p = .handler h) (hopen : h.claiming ≠ none)
    (hrun : ClaimRun env p req s.shared trace h) (hstep : Idemio.step env s (q, a) = some s') :
    s'.procs p = .stopped ∨ ∃ trace' h', s'.procs p = .handler h' ∧
      ClaimRun env p req s'.shared trace' h' := by
  have hact := Interleave.act_of_step hstep
  by_cases hq : p = q
  · subst hq
    rw [hp] at hact
    rcases act_cases_of_claiming hopen hact with hstop | ⟨hpr, hrely⟩ | ⟨h', hpr, hown⟩
    · exact .inl hstop
    · exact .inr ⟨trace, h, hpr, hrun.others hrely⟩
    · exact .inr ⟨_, h', hpr, hrun.own hopen hown⟩
  · obtain ⟨hids, hheld⟩ := held_of_reaches hreach
    have hguarantee := (rule_of_act hact).guarantee (hheld q) hids
    refine .inr ⟨trace, h, ?_, hrun.others (hguarantee.rely hq)⟩
    rw [Interleave.step_procs_of_ne hstep hq, hp]

end Idemio
