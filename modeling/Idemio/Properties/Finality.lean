import Idemio.System.Atomic

set_option relaxedAutoImplicit false
set_option autoImplicit false

/-!
# Stored outcomes are final

Once a key is done, indeterminate or rejected its row does not change any more, and a failed
row changes only by a re-claim for the same request. So a request that reads a settled row is
answered with the one code of its status, and every `409` of a key has the same bytes.

## Main definitions

* `Idemio.Status.Final` — the statuses that are never left.
* `Idemio.Status.replayCode` — the code that answers a stored status.
* `Idemio.Hashed` — a claim that has found a row is for the request of that row.
* `Idemio.Conflicted` — a `409` is the stored body of the rejected row.

## Main results

* `Idemio.final_of_run` — a final row stays as it is.
* `Idemio.reclaim_of_failed` — what changes a failed row.
* `Idemio.replay_code` — the answer to a request that reads a final row.
* `Idemio.conflict_bytes` — the bytes of a `409`.
* `Idemio.stored_outcomes_final` — all of these together.
-/

namespace Idemio

open Transition

/-- The statuses that are never left. -/
def Status.Final (status : Status) : Prop :=
  status = .done ∨ status = .indeterminate ∨ status = .rejected

/-- The code that answers a stored status. -/
def Status.replayCode : Status → Nat
  | .pending => 202
  | .done => 200
  | .failed => 503
  | .indeterminate => 502
  | .rejected => 409

variable {env : Env} {p q : Pid} {sh sh' : Shared} {pr pr' : Proc} {a : Action} {s s' t : State}
  {ok : Assumption} {k : KeyID} {row : KeyRow} {as : List (Pid × Action)}

/-! ## Rows -/

/-- A step leaves a final row as it is. -/
lemma final_of_step (h : Reaches env NoRetention s) (hstep : step env s (p, a) = some s')
    (hrow : s.shared.db.keys.lookup k = some row) (hfinal : row.status.Final) :
    s'.shared.db.keys.lookup k = some row := by
  have hrow : (s.shared.key k).row = some row := hrow
  rcases step_refines h hstep k with heq | hkey
  · exact (congrArg KeyState.row heq).trans hrow
  · rw [KeyState.eq_mk hrow] at hkey
    exact absurd (hkey.final hfinal)
      (row_ne_none_of_step h (keepsRow_of_reaches h k (p, a)) hstep (by simp [hrow]))

/-- A step that does not remove a row leaves its request hash as it is. -/
lemma requestHash_of_step (h : Reaches env ok s) (hok : KeepsRow k s (p, a))
    (hstep : step env s (p, a) = some s') (hrow : s.shared.db.keys.lookup k = some row) :
    ∃ row', s'.shared.db.keys.lookup k = some row' ∧ row'.requestHash = row.requestHash := by
  have hrow : (s.shared.key k).row = some row := hrow
  have hkept := row_ne_none_of_step h hok hstep (by simp [hrow])
  obtain ⟨row', hrow'⟩ := Option.ne_none_iff_exists'.mp hkept
  refine ⟨row', hrow', ?_⟩
  rcases step_refines h hstep k with heq | hkey
  · rw [heq, hrow] at hrow'
    rw [Option.some.inj hrow']
  · rw [KeyState.eq_mk hrow] at hkey
    exact (hkey.requestHash hrow').1

/-- **The request hash of a row that is not removed stays as it is**, whatever happens later. -/
lemma requestHash_of_run (h : Reaches env (KeepsRow k) s)
    (hrow : s.shared.db.keys.lookup k = some row) (hrun : Run (step env) (KeepsRow k) s as t) :
    ∃ row', t.shared.db.keys.lookup k = some row' ∧ row'.requestHash = row.requestHash := by
  have hboth : Reaches env (KeepsRow k) t ∧
      ∃ row', t.shared.db.keys.lookup k = some row' ∧ row'.requestHash = row.requestHash := by
    refine hrun.stable (I := fun t => Reaches env (KeepsRow k) t ∧ ∃ row',
      t.shared.db.keys.lookup k = some row' ∧ row'.requestHash = row.requestHash)
      ⟨h, row, hrow, rfl⟩ ?_
    rintro t ⟨p, a⟩ u ⟨ht, row', hrow', hhash⟩ hok hstep
    obtain ⟨row'', hrow'', hhash'⟩ := requestHash_of_step ht hok hstep hrow'
    exact ⟨ht.snoc hok hstep, row'', hrow'', hhash'.trans hhash⟩
  exact hboth.2

/-- **A final row stays as it is**, whatever happens later. -/
theorem final_of_run (h : Reaches env NoRetention s)
    (hrow : s.shared.db.keys.lookup k = some row) (hfinal : row.status.Final)
    (hrun : Run (step env) NoRetention s as t) : t.shared.db.keys.lookup k = some row := by
  have hboth : Reaches env NoRetention t ∧ t.shared.db.keys.lookup k = some row := by
    refine hrun.stable (I := fun t => Reaches env NoRetention t ∧
      t.shared.db.keys.lookup k = some row) ⟨h, hrow⟩ ?_
    rintro t ⟨p, a⟩ u ⟨ht, hrow⟩ hok hstep
    exact ⟨ht.snoc hok hstep, final_of_step ht hstep hrow hfinal⟩
  exact hboth.2

/-! ## Re-claims -/

/-- A claim of `k` that has found a row, or has re-claimed it, is for the request of that row. -/
def Hashed (k : KeyID) (sh : Shared) : Proc → Prop
  | .handler (.reclaim req _ _) => req.keyID = k →
    ∃ row, sh.db.keys.lookup k = some row ∧ row.requestHash = req.requestHash
  | .handler (.record req _ row) => req.keyID = k → row.requestHash = req.requestHash
  | .handler (.window tx) => tx.req.keyID = k → tx.row.requestHash = tx.req.requestHash
  | .handler (.statuses tx _) => tx.req.keyID = k → tx.row.requestHash = tx.req.requestHash
  | .handler (.commit tx _) => tx.req.keyID = k → tx.row.requestHash = tx.req.requestHash
  | _ => True

/-- A step keeps `Hashed` for its own process. -/
lemma Rule.hashed (h : Rule env p sh pr a sh' pr') (hheld : Held env p sh pr)
    (hhash : Hashed k sh pr) : Hashed k sh' pr' := by
  cases h with
  | land | lose => exact hhash
  | readFailed hrow hreq =>
    rintro rfl
    exact ⟨_, hrow, hreq⟩
  | insert => exact fun _ => rfl
  | reclaim hold hrow =>
    rintro rfl
    obtain ⟨row', hrow', hreq⟩ := hhash rfl
    obtain rfl := Option.some.inj (hold.symm.trans hrow')
    obtain ⟨-, rfl⟩ := reclaimKey_eq_some.mp hrow
    exact hreq
  | record => exact hhash
  | @window tx tx' verdict rows hrows hverdict =>
    have hheld : Undecided env p sh tx := hheld
    have hj := resolveConflicts_settled hheld.intent hheld.conflicts hverdict
    intro hk
    have hhash : tx.row.requestHash = tx.req.requestHash := hhash (hj.req ▸ hk)
    rw [hj.concludes.keeps.1, hhash, hj.req]
  | check => exact hhash
  | statuses => exact hhash
  | _ => trivial

/-- The `Hashed` of a process survives the steps of others. -/
lemma Hashed.stable (hhash : Hashed k s.shared pr) (h : Reaches env ok s)
    (hok : KeepsRow k s (p, a)) (hstep : step env s (p, a) = some s') : Hashed k s'.shared pr := by
  cases pr with
  | handler hd =>
    cases hd with
    | reclaim req now existing =>
      intro hk
      obtain ⟨row, hrow, hreq⟩ := hhash hk
      obtain ⟨row', hrow', hhash'⟩ := requestHash_of_step h hok hstep hrow
      exact ⟨row', hrow', hhash'.trans hreq⟩
    | record | window | statuses | commit => exact hhash
    | _ => trivial
  | _ => trivial

/-- Every claim that has found a row which is not removed is for the request of that row. -/
lemma hashed_of_reaches (h : Reaches env (KeepsRow k) s) (p : Pid) :
    Hashed k s.shared (s.procs p) := by
  refine Interleave.invariant_procs (P := fun _ sh pr => Hashed k sh pr) ?_ ?_ ?_ h p
  · exact fun _ => trivial
  · intro s p a sh' pr' hs hhash _ hact
    exact (rule_of_act hact).hashed ((held_of_reaches hs).2 p) (hhash p)
  · intro s p a sh' pr' q _ hs hhash hok hact
    exact (hhash q).stable hs hok (Interleave.step_eq_some.mpr ⟨sh', pr', hact, rfl⟩)

/-- **What changes a failed row**: the commit of a re-claim for the same request, which leaves
it pending or rejected. -/
theorem reclaim_of_failed (h : Reaches env NoRetention s) (hstep : step env s (p, a) = some s')
    (hrow : s.shared.db.keys.lookup k = some row) (hfailed : row.status = .failed)
    (hne : s'.shared.db.keys.lookup k ≠ some row) :
    ∃ tx verdict, s.procs p = .handler (.commit tx verdict) ∧ tx.req.keyID = k ∧
      tx.req.requestHash = row.requestHash ∧ s'.shared.db.keys.lookup k = some tx.row ∧
      (tx.row.status = .pending ∨ tx.row.status = .rejected) := by
  have hrow : (s.shared.key k).row = some row := hrow
  have hnew := fun {st : KeyState} (heq : s'.shared.key k = st) => congrArg KeyState.row heq
  cases keyChange_of_step h hstep k with
  | same hkey => exact absurd ((hnew hkey).trans hrow) hne
  | @claim tx verdict row₀ _ hpr _ hk hopen hverdict _ hkey =>
    have hhash := hashed_of_reaches (reaches_keepsRow h k) p
    rw [hpr] at hhash
    have hhash : tx.row.requestHash = tx.req.requestHash := hhash hk
    have hpending := hopen.pending
    rw [hrow] at hopen
    cases hopen with
    | reclaim hopen =>
      refine ⟨tx, verdict, hpr, hk, ?_, hnew hkey, ?_⟩
      · obtain ⟨-, rfl⟩ := reclaimKey_eq_some.mp hopen
        exact hhash.symm.trans hverdict.keeps.1
      · exact hverdict.live.imp (fun hl => hl.1.trans hpending) (fun hl => hl.1)
  | complete _ _ _ _ hold hcomplete =>
    obtain rfl := Option.some.inj (hrow.symm.trans hold)
    rw [(completeKey_eq_some.mp hcomplete).1] at hfailed
    cases hfailed
  | expire _ hpr => exact absurd hpr (ne_expire h)

/-! ## Answers -/

/-- The answer from a record has the code of its status, or the record is of an offloaded
result that could not be read. -/
lemma writeExisting_code (env : Env) (objects : Objects) (getOK : Bool) (wait : Int)
    (record : Record) :
    (writeExisting env objects getOK wait record).code = record.status.replayCode ∨
      ((writeExisting env objects getOK wait record).code = 500 ∧ record.status = .done ∧
        record.resultRef ≠ "") := by
  unfold writeExisting
  cases hstatus : record.status with
  | done =>
    dsimp only
    split
    · next hnone =>
      refine .inr ⟨rfl, rfl, fun hempty => ?_⟩
      simp [resolve, hempty] at hnone
    · exact .inl rfl
  | rejected =>
    refine .inl ?_
    dsimp only
    split <;> rfl
  | pending | failed | indeterminate => exact .inl rfl

/-- Process `p` is about to answer, or has answered, from the row of the key `k`. -/
def Replaying (env : Env) (k : KeyID) (row : KeyRow) : Proc → Prop
  | .handler (.existing record) => record = readRecord env k row
  | .handler (.respond k' r) => k' = some k ∧
      (r.code = row.status.replayCode ∨
        (r.code = 500 ∧ row.status = .done ∧ ∃ ref, row.resultRef = some ref ∧ ref ≠ ""))
  | .stopped => True
  | _ => False

/-- A process that answers from a row goes on doing so. -/
lemma Rule.replaying (h : Rule env p sh pr a sh' pr') (hr : Replaying env k row pr) :
    Replaying env k row pr' := by
  cases h with
  | land | lose => exact hr
  | crash => trivial
  | @reply record getOK wait =>
    have hrecord : record = readRecord env k row := hr
    subst hrecord
    refine ⟨rfl, ?_⟩
    refine (writeExisting_code env sh.objects getOK wait _).imp_right fun ⟨hcode, hdone, href⟩ =>
      ⟨hcode, hdone, ?_⟩
    cases hnone : row.resultRef with
    | none => simp [readRecord, hnone] at href
    | some ref => exact ⟨ref, rfl, by simpa [readRecord, hnone] using href⟩
  | claimFail hreq =>
    next hd _ =>
    cases hd <;> first | exact False.elim hr | cases hreq
  | finish => trivial
  | _ => cases hr

/-- **The answer to a request that reads a final row** has the code of its status, or reports
an offloaded result that could not be read. -/
theorem replay_code {req : Request} {now : Time} {k' : Option KeyID} {r : Response}
    (hp : s.procs p = .handler (.read req now))
    (hrow : s.shared.db.keys.lookup req.keyID = some row)
    (hhash : row.requestHash = req.requestHash) (hfinal : row.status.Final)
    (hread : step env s (p, .read) = some s') (hrun : Run (step env) ok s' as t)
    (hresp : t.procs p = .handler (.respond k' r)) :
    k' = some req.keyID ∧ (r.code = row.status.replayCode ∨
      (r.code = 500 ∧ row.status = .done ∧ ∃ ref, row.resultRef = some ref ∧ ref ≠ "")) := by
  have hstart : Replaying env req.keyID row (s'.procs p) := by
    obtain ⟨sh', pr', hrule, rfl⟩ := rule_of_step hread
    rw [hp] at hrule
    simp only [Function.update_self]
    cases hrule with
    | readGone hnone => simp [hrow] at hnone
    | mismatch hrow' hne =>
      obtain rfl := Option.some.inj (hrow.symm.trans hrow')
      exact absurd hhash hne
    | readPending hrow' _ hstatus =>
      obtain rfl := Option.some.inj (hrow.symm.trans hrow')
      simp [hstatus, Status.Final] at hfinal
    | readExisting hrow' =>
      obtain rfl := Option.some.inj (hrow.symm.trans hrow')
      exact rfl
    | readFailed hrow' _ hstatus =>
      obtain rfl := Option.some.inj (hrow.symm.trans hrow')
      simp [hstatus, Status.Final] at hfinal
  have hend : Replaying env req.keyID row (t.procs p) := by
    refine hrun.stable (I := fun t => Replaying env req.keyID row (t.procs p)) hstart ?_
    rintro t ⟨q, a⟩ u ht _ hstep
    obtain ⟨sh', pr', hrule, rfl⟩ := rule_of_step hstep
    by_cases hq : p = q
    · subst hq
      simpa using hrule.replaying ht
    · simpa [Function.update_of_ne hq] using ht
  rw [hresp] at hend
  exact hend

/-! ## The bytes of a conflict -/

/-- The response `r` is the stored body of the rejected row of `k`. -/
def StoredConflict (env : Env) (sh : Shared) (k : KeyID) (r : Response) : Prop :=
  ∃ row, sh.db.keys.lookup k = some row ∧ row.status = .rejected ∧
    r = writeRaw 409 (storedBody env row)

/-- A `409` is the stored body of the rejected row, and a handler that is about to answer with
one has read that row. -/
def Conflicted (env : Env) (sh : Shared) : Proc → Prop
  | .handler (.await record) => record.status = .pending
  | .handler (.existing record) => record.status = .rejected →
      ∃ row, sh.db.keys.lookup record.keyID = some row ∧ row.status = .rejected ∧
        record = readRecord env record.keyID row
  | .handler (.respond k r) => r.code = 409 → ∃ k', k = some k' ∧ StoredConflict env sh k' r
  | _ => True

/-- The outcome of a call is never answered with a `409`. -/
lemma writeOutcome_code (key : String) (intentID : Nat) (outcome : Outcome) :
    (writeOutcome key intentID outcome).code ≠ 409 := by
  unfold writeOutcome
  cases outcome.disposition <;> simp [writeJSON]

/-- The answer from the record of a rejected row is its stored body. -/
lemma writeExisting_rejected (env : Env) (objects : Objects) (getOK : Bool) (wait : Int)
    {body : Jsonb} (hrejected : row.status = .rejected) (hbody : row.result = some body) :
    writeExisting env objects getOK wait (readRecord env k row) =
      writeRaw 409 (storedBody env row) := by
  have hne : storedBody env row ≠ [] := by
    rw [storedBody, hbody]
    exact env.jsonbText_ne_nil body
  simp [writeExisting, readRecord, hrejected, hne]

/-- Answers other than from a record that have another code. -/
lemma Conflicted.of_code {k : Option KeyID} {r : Response} (h : r.code ≠ 409) :
    Conflicted env sh (.handler (.respond k r)) :=
  fun hcode => absurd hcode h

/-- The response to a rejection is what the commit stored. -/
lemma Decided.storedConflict {tx : ClaimTx} {stored : RawMessage}
    (h : Decided env p sh tx (.rejected stored)) :
    StoredConflict env (sh.applyClaim p tx (.rejected stored)) tx.req.keyID
      (writeRaw 409 stored) := by
  obtain ⟨row₀, -, hverdict⟩ := h.openClaim
  cases hverdict with
  | rejected hrow _ =>
    refine ⟨tx.row, AList.lookup_insert .., by rw [hrow]; rfl, ?_⟩
    rw [hrow]
    rfl

/-- A step keeps `Conflicted` for its own process. -/
lemma Rule.conflicted (h : Rule env p sh pr a sh' pr') (hheld : Held env p sh pr)
    (hbody : ∀ k row, sh.db.keys.lookup k = some row → row.status = .rejected →
      ∃ body, row.result = some body)
    (hc : Conflicted env sh pr) : Conflicted env sh' pr' := by
  cases h with
  | land | lose => exact hc
  | refuse hadm =>
    have hcode := admission_error_code hadm
    exact .of_code fun h => by simp [h] at hcode
  | readPending _ _ hstatus => exact hstatus
  | readExisting hrow => exact fun hrejected => ⟨_, hrow, hrejected, rfl⟩
  | reclaimAwait => exact rfl
  | reclaimExisting => exact fun hrejected => by cases hrejected
  | rejected => exact fun _ => ⟨_, rfl, Decided.storedConflict hheld⟩
  | poll hrow => exact fun hrejected => ⟨_, hrow, hrejected, rfl⟩
  | @pollExpired record =>
    have hpending : record.status = .pending := hc
    exact fun hrejected => by simp [hpending] at hrejected
  | @reply record getOK wait =>
    intro hcode
    have hrejected : record.status = .rejected := by
      rcases writeExisting_code env sh.objects getOK wait record with h | h
      · rw [h] at hcode
        cases hs : record.status <;> simp_all [Status.replayCode]
      · simp [h.1] at hcode
    obtain ⟨row, hrow, hstatus, hrecord⟩ := hc hrejected
    obtain ⟨body, hresult⟩ := hbody _ row hrow hstatus
    refine ⟨record.keyID, rfl, row, hrow, hstatus, ?_⟩
    rw [hrecord]
    exact writeExisting_rejected env sh.objects getOK wait hstatus hresult
  | completed => exact .of_code (writeOutcome_code _ _ _)
  | lockTimeout | readGone | mismatch | claimRefused | claimUnseen | claimFail | waitExpired =>
    exact .of_code (by simp [writeNotExecuted, writeProblem, writeJSON])
  | _ => trivial

/-- The `Conflicted` of a process survives the steps of others. -/
lemma Conflicted.stable (hc : Conflicted env s.shared pr) (h : Reaches env NoRetention s)
    (hstep : step env s (p, a) = some s') : Conflicted env s'.shared pr := by
  cases pr with
  | handler hd =>
    cases hd with
    | await => exact hc
    | existing record =>
      intro hrejected
      obtain ⟨row, hrow, hstatus, hrecord⟩ := hc hrejected
      exact ⟨row, final_of_step h hstep hrow (.inr (.inr hstatus)), hstatus, hrecord⟩
    | respond k r =>
      intro hcode
      obtain ⟨k', rfl, row, hrow, hstatus, hr⟩ := hc hcode
      exact ⟨k', rfl, row, final_of_step h hstep hrow (.inr (.inr hstatus)), hstatus, hr⟩
    | _ => trivial
  | _ => trivial

/-- Without retention every `409` is the stored body of the rejected row. -/
lemma conflicted_of_reaches (h : Reaches env NoRetention s) (p : Pid) :
    Conflicted env s.shared (s.procs p) := by
  refine Interleave.invariant_procs (P := fun _ sh pr => Conflicted env sh pr) ?_ ?_ ?_ h p
  · exact fun _ => trivial
  · intro s p a sh' pr' hs hc _ hact
    exact (rule_of_act hact).conflicted ((held_of_reaches hs).2 p)
      (fun k _ hrow => result_of_rejected (key_reachable hs k) hrow) (hc p)
  · intro s p a sh' pr' q _ hs hc _ hact
    exact (hc q).stable hs (Interleave.step_eq_some.mpr ⟨sh', pr', hact, rfl⟩)

/-- **Every `409` of a key has the same bytes**, the first one and every replay. -/
theorem conflict_bytes {r r' : Response} (h : Reaches env NoRetention s)
    (hrun : Run (step env) NoRetention s as t)
    (hp : s.procs p = .handler (.respond (some k) r)) (hr : r.code = 409)
    (hq : t.procs q = .handler (.respond (some k) r')) (hr' : r'.code = 409) : r = r' := by
  have hfirst := conflicted_of_reaches h p
  have hlater := conflicted_of_reaches (h.trans ⟨as, hrun⟩) q
  rw [hp] at hfirst
  rw [hq] at hlater
  obtain ⟨_, ⟨⟩, row, hrow, hstatus, rfl⟩ := hfirst hr
  obtain ⟨_, ⟨⟩, row', hrow', -, rfl⟩ := hlater hr'
  have hsame := final_of_run h hrow (.inr (.inr hstatus)) hrun
  rw [Option.some.inj (hsame.symm.trans hrow')]

/-! ## The whole contract -/

/-- **Stored outcomes are final.** In every run without retention, from a state `s` on:

* a row that is done, indeterminate or rejected keeps all its columns;
* a failed row changes only by the commit of a re-claim with the same request hash;
* a request whose claim reads a final row that carries its hash is answered with the one code
  of the row's status, or with `500` if its result was offloaded and cannot be read;
* all `409` responses for a key are identical. -/
theorem stored_outcomes_final (h : Reaches env NoRetention s) :
    (∀ k row as t, s.shared.db.keys.lookup k = some row → row.status.Final →
      Run (step env) NoRetention s as t → t.shared.db.keys.lookup k = some row) ∧
    (∀ p a s' k row, step env s (p, a) = some s' → s.shared.db.keys.lookup k = some row →
      row.status = .failed → s'.shared.db.keys.lookup k ≠ some row →
      ∃ tx verdict, s.procs p = .handler (.commit tx verdict) ∧ tx.req.keyID = k ∧
        tx.req.requestHash = row.requestHash ∧ s'.shared.db.keys.lookup k = some tx.row ∧
        (tx.row.status = .pending ∨ tx.row.status = .rejected)) ∧
    (∀ p req now row s' as t k' r, s.procs p = .handler (.read req now) →
      s.shared.db.keys.lookup req.keyID = some row → row.requestHash = req.requestHash →
      row.status.Final → step env s (p, .read) = some s' → Run (step env) NoRetention s' as t →
      t.procs p = .handler (.respond k' r) →
      k' = some req.keyID ∧ (r.code = row.status.replayCode ∨
        (r.code = 500 ∧ row.status = .done ∧ ∃ ref, row.resultRef = some ref ∧ ref ≠ ""))) ∧
    (∀ p q k as t r r', Run (step env) NoRetention s as t →
      s.procs p = .handler (.respond (some k) r) → r.code = 409 →
      t.procs q = .handler (.respond (some k) r') → r'.code = 409 → r = r') := by
  refine ⟨?_, ?_, ?_, ?_⟩
  · intro k row as t hrow hfinal hrun
    exact final_of_run h hrow hfinal hrun
  · intro p a s' k row hstep hrow hfailed hne
    exact reclaim_of_failed h hstep hrow hfailed hne
  · intro p req now row s' as t k' r hp hrow hhash hfinal hread hrun hresp
    exact replay_code hp hrow hhash hfinal hread hrun hresp
  · intro p q k as t r r' hrun hp hr hq hr'
    exact conflict_bytes h hrun hp hr hq hr'

/-- The write of the second of two conflicting agents is rejected, and its row stays as it is
from then on. -/
theorem stored_outcomes_final_rejected : ∃ s row, Reaches Env.small NoRetention s ∧
    s.shared.db.keys.lookup ⟨"b", keyB⟩ = some row ∧ row.status = .rejected ∧
    ∀ as t, Run (step Env.small) NoRetention s as t →
      t.shared.db.keys.lookup ⟨"b", keyB⟩ = some row := by
  obtain ⟨s, hrun, hs⟩ := exists_run_of_exec (step Env.small) NoRetention init
    (
      insertSteps 0 (.small .replace true) (.small "a" keyA) 5 [] ++ [(0, .commit .ok)] ++
      insertSteps 1 (.small .replace true) (.small "b" keyB) 7
        [⟨1, "a", keyA, "order", "7", "put", ⟨.replace, []⟩, [1], 5, none⟩] ++
      [(1, .commit .ok)])
    (fun s => (s.shared.db.keys.lookup ⟨"b", keyB⟩).any (·.status = .rejected))
    (by decide +kernel)
  obtain ⟨row, hlookup, hrejected⟩ := (Option.any_eq_true _ _).mp hs
  have hrejected : row.status = .rejected := by simpa using hrejected
  refine ⟨s, row, ⟨_, hrun⟩, hlookup, hrejected, fun as t ht => ?_⟩
  exact (stored_outcomes_final ⟨_, hrun⟩).1 _ row as t hlookup (.inr (.inr hrejected)) ht

end Idemio
