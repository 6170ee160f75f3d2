import Idemio.Properties.AtMostOnce

set_option relaxedAutoImplicit false
set_option autoImplicit false

/-!
# Success means executed

A key is recorded as done, and a write is answered with `201` or `200`, only after the downstream
or a probe has said so. If these tell the truth when they say that a write was executed, then a
success is one, in every interleaving and whatever else fails. In a reliable environment the write
behind it has been executed exactly once, and stays so.

## Main definitions

* `Idemio.ReportsLanded` — a call that is reported as done has landed.
* `Idemio.ReportsExecuted` — and a probe finds an execution only where there is one.
* `Idemio.Vouched` — what a process is about to record or to answer as a success was executed.

## Main results

* `Idemio.vouched_of_reaches` — `Vouched` in every reachable state, and of every row.
* `Idemio.success_executed` — a key that is done, or answered with success, has been executed.
* `Idemio.success_exactly_once` — in a reliable environment exactly once, for good.
-/

namespace Idemio

open Transition

/-! ## The environment -/

/-- A call that is reported as done has landed. -/
def ReportsLanded : Assumption := fun s ia =>
  ∀ outcome call, ia.2 = .ret outcome → outcome.disposition = .done →
    s.shared.calls ia.1 = some call → call.state = .landed

/-- A call that is reported as done has landed, and a probe finds an execution only where there
is one. -/
structure ReportsExecuted (s : State) (ia : Pid × Action) : Prop where
  landed : ReportsLanded s ia
  probed : ∀ result c todo, ia.2 = .resolve (.executed result) →
    s.procs ia.1 = .sweep (.batch (c :: todo)) → 0 < s.shared.executions c.keyID

/-- In a reliable environment the probes find only what there is. -/
lemma Reliable.reportsExecuted {s : State} {ia : Pid × Action} (h : Reliable s ia)
    (hlanded : ReportsLanded s ia) : ReportsExecuted s ia :=
  ⟨hlanded, fun result c todo ha hp => (h.truthful _ c todo ha hp).2 result rfl⟩

/-- A reliable environment in which a call that is reported as done has landed. -/
def Dependable : Assumption := fun s ia => Reliable s ia ∧ ReportsLanded s ia

/-- The promise of `ReportsLanded`, checked. -/
def reportsLanded (s : State) (ia : Pid × Action) : Bool :=
  match ia.2 with
  | .ret outcome => outcome.disposition ≠ .done || (s.shared.calls ia.1).all (·.state = .landed)
  | _ => true

/-- A run that passes the checks keeps to `Dependable`. -/
lemma dependable_of_pids {env : Env} {pids : List Pid} {s : State}
    (h : Reaches env (fun s ia => (reliable pids s ia && reportsLanded s ia) = true) s) :
    Reaches env Dependable s := by
  refine h.mono_of_reachable fun t ia ht hok => ?_
  obtain ⟨hreliable, hlanded⟩ := Bool.and_eq_true_iff.mp hok
  refine ⟨.of_pids (fun _ _ hok => mem_of_reliable (Bool.and_eq_true_iff.mp hok).1) ht hreliable,
    fun outcome call ha hd hcall => ?_⟩
  simpa [reportsLanded, ha, hd, hcall] using hlanded

/-- The code says that the write was executed. -/
def Response.success (r : Response) : Prop := r.code = 200 ∨ r.code = 201

/-- What a process is about to record as done, or to answer with success, has been executed. -/
def Vouched (sh : Shared) : Proc → Prop
  | .handler (.place own outcome) =>
    outcome.disposition = .done → 0 < sh.executions own.req.keyID
  | .handler (.await record) => record.status = .done → 0 < sh.executions record.keyID
  | .handler (.existing record) => record.status = .done → 0 < sh.executions record.keyID
  | .handler (.respond (some k) r) => r.success → 0 < sh.executions k
  | .completing c (.handler own outcome) =>
    (c.args.status = .done → 0 < sh.executions c.args.keyID) ∧
      (outcome.disposition = .done → 0 < sh.executions own.req.keyID)
  | .completing c (.sweep _) => c.args.status = .done → 0 < sh.executions c.args.keyID
  | .sweep (.place c outcome _) => outcome.disposition = .done → 0 < sh.executions c.keyID
  | _ => True

/-- Every key that is done has been executed. -/
def DoneExecuted (sh : Shared) : Prop :=
  ∀ k row, sh.db.keys.lookup k = some row → row.status = .done → 0 < sh.executions k

variable {env : Env} {p q : Pid} {sh sh' : Shared} {pr pr' : Proc} {a : Action} {s s' t : State}
  {k : KeyID} {r : Response}

/-! ## Executions stay -/

/-- What was executed stays executed. -/
lemma Rule.executions_le (h : Rule env p sh pr a sh' pr') (k : KeyID) :
    sh.executions k ≤ sh'.executions k := by
  have hledger : sh'.ledger = sh.ledger ∨ ∃ own, sh'.ledger = sh.ledger ++ [own] := by
    cases h with
    | land => exact .inr ⟨_, rfl⟩
    | complete hc | completed hc | completedStale hc =>
      rw [hc.frame]
      exact .inl rfl
    | _ => exact .inl rfl
  rcases hledger with heq | ⟨own, heq⟩
  · simp [Shared.executions, heq]
  · simp [Shared.executions, heq]

/-- What is vouched for stays so while executions do not get fewer. -/
lemma Vouched.mono (h : Vouched sh pr) (hle : ∀ k, sh.executions k ≤ sh'.executions k) :
    Vouched sh' pr := by
  unfold Vouched at h ⊢
  split at h
  case h_5 =>
    exact ⟨fun hd => Nat.lt_of_lt_of_le (h.1 hd) (hle _),
      fun hd => Nat.lt_of_lt_of_le (h.2 hd) (hle _)⟩
  case h_8 => trivial
  all_goals exact fun hd => Nat.lt_of_lt_of_le (h hd) (hle _)

/-! ## One step -/

lemma statusFor_eq_done {d : Disposition} : statusFor d = .done ↔ d = .done := by
  cases d <;> simp [statusFor]

/-- Only an outcome that is done is answered with success. -/
lemma success_writeOutcome {key : String} {n : Nat} {outcome : Outcome}
    (h : (writeOutcome key n outcome).success) : outcome.disposition = .done := by
  unfold writeOutcome at h
  split at h
  · next hd => exact hd
  · simp [Response.success, writeJSON] at h
  · simp [Response.success, writeJSON] at h

/-- Only a record that is done is answered with success. -/
lemma success_writeExisting {objects : Objects} {getOK : Bool} {wait : Int} {record : Record}
    (h : (writeExisting env objects getOK wait record).success) : record.status = .done := by
  unfold writeExisting at h
  dsimp only at h
  split at h
  · next hd => exact hd
  · simp [Response.success, writeJSON] at h
  · split at h <;> simp [Response.success, writeProblem, writeRaw, writeJSON] at h
  · simp [Response.success, writeJSON] at h
  · simp [Response.success, writeJSON] at h

/-- **A step vouches for what it records and answers.** -/
lemma Rule.vouched (h : Rule env p sh pr a sh' pr') (hphase : CallPhase (sh.calls p) pr)
    (hledger : Ledger sh) (hdone : DoneExecuted sh) (hv : Vouched sh pr)
    (hlanded : ∀ outcome call, a = .ret outcome → outcome.disposition = .done →
      sh.calls p = some call → call.state = .landed)
    (hprobed : ∀ result c todo, a = .resolve (.executed result) →
      pr = .sweep (.batch (c :: todo)) → 0 < sh.executions c.keyID) : Vouched sh' pr' := by
  have hle := h.executions_le
  cases h with
  | land | lose => exact hv.mono hle
  | ret =>
    intro hd
    obtain ⟨call, hcall, hown, -⟩ := hphase
    refine (hledger.executions_pos _).mpr ⟨p, call, hcall, by rw [hown], ?_⟩
    exact hlanded _ call rfl hd hcall
  | place =>
    exact ⟨fun hd => hv (statusFor_eq_done.mp hd), hv⟩
  | placeStale => exact fun hd => hv (statusFor_eq_done.mp hd)
  | @resolve c todo answer outcome hanswer =>
    intro hd
    cases answer <;> cases hanswer <;> cases hd
    exact hprobed _ c todo rfl rfl
  | @complete c c' caller _ _ hc =>
    have hv : Vouched sh' (.completing c caller) := hv.mono hle
    cases caller with
    | handler own outcome =>
      simp only [Vouched, hc.keeps.1]
      exact hv
    | sweep todo =>
      simp only [Vouched, hc.keeps.1]
      exact hv
  | completed =>
    intro hs
    exact Nat.lt_of_lt_of_le (hv.2 (success_writeOutcome hs)) (hle _)
  | reply =>
    intro hs
    exact hv (success_writeExisting hs)
  | readPending hrow hhash hstatus =>
    intro hd
    exact absurd (hstatus.symm.trans hd) (by simp)
  | readExisting hrow => exact fun hd => hdone _ _ hrow hd
  | poll hrow => exact fun hd => hdone _ _ hrow hd
  | pollExpired => exact hv
  | reclaimAwait | reclaimExisting => exact fun hd => by cases hd
  | lockTimeout | readGone | mismatch | rejected | claimRefused | claimUnseen | claimFail |
      waitExpired =>
    exact fun hs => by
      simp [Response.success, writeNotExecuted, writeProblem, writeRaw, writeJSON] at hs
  | _ => trivial

/-- A step records as done only what has been executed. -/
lemma doneExecuted_of_step {ok : Assumption} (hs : Reaches env ok s)
    (hstep : step env s (p, a) = some s') (hdone : DoneExecuted s.shared)
    (hv : Vouched s.shared (s.procs p)) : DoneExecuted s'.shared := by
  intro k row hrow hstatus
  have hle := (Rule.of_step hstep).executions_le k
  have hnew := fun {st : KeyState} (heq : s'.shared.key k = st) =>
    (congrArg KeyState.row heq).symm.trans hrow
  cases keyChange_of_step hs hstep k with
  | same hkey => exact Nat.lt_of_lt_of_le (hdone k row (hnew hkey) hstatus) hle
  | claim _ _ _ _ hopen hverdict _ hkey =>
    obtain rfl := Option.some.inj (hnew hkey)
    -- a claim leaves its row pending or rejected
    rcases hverdict.live with ⟨hpending, -⟩ | ⟨hrejected, -⟩
    · rw [hopen.pending, hstatus] at hpending
      cases hpending
    · rw [hrejected] at hstatus
      cases hstatus
  | @complete c caller _ _ _ _ _ hp _ hk _ hcomplete _ hkey =>
    obtain rfl := Option.some.inj (hnew hkey)
    obtain ⟨-, rfl⟩ := completeKey_eq_some.mp hcomplete
    rw [hp] at hv
    have hexecuted : 0 < s.shared.executions c.args.keyID := by
      cases caller with
      | handler own outcome => exact hv.1 hstatus
      | sweep todo => exact hv hstatus
    exact Nat.lt_of_lt_of_le (hk ▸ hexecuted) hle
  | expire _ _ _ _ hkey => cases hnew hkey

/-- **In every reachable state** every key that is done has been executed, and so has what a
process is about to record as done or to answer with success. -/
theorem vouched_of_reaches (h : Reaches env ReportsExecuted s) :
    DoneExecuted s.shared ∧ ∀ p, Vouched s.shared (s.procs p) := by
  refine h.invariant
    (I := fun s => DoneExecuted s.shared ∧ ∀ p, Vouched s.shared (s.procs p)) ?_ ?_
  · exact ⟨fun k row hrow => (by cases hrow), fun _ => trivial⟩
  · rintro s ⟨p, a⟩ s' hs ⟨hdone, hv⟩ hok hstep
    have hrule := Rule.of_step hstep
    refine ⟨doneExecuted_of_step hs hstep hdone (hv p), fun q => ?_⟩
    by_cases hq : q = p
    · subst hq
      exact hrule.vouched (callInv_of_reaches hs q).phase (ledger_of_reaches hs) hdone (hv q)
        hok.landed hok.probed
    · rw [Interleave.step_procs_of_ne hstep hq]
      exact (hv q).mono hrule.executions_le

/-! ## What a success says -/

/-- **A success means that the write was executed.** If whatever is reported as executed was
executed, then in every state that the system reaches, whatever crashes, fails or is deleted: a key
whose row is done has been executed, and so has every key for which a handler answers `200` or
`201`, be it from its own call or from what it has read of another one's. -/
theorem success_executed (h : Reaches env ReportsExecuted s) :
    (∀ k row, s.shared.db.keys.lookup k = some row → row.status = .done →
      0 < s.shared.executions k) ∧
    ∀ p k r, (s.procs p).response = some (some k, r) → r.code = 200 ∨ r.code = 201 →
      0 < s.shared.executions k := by
  obtain ⟨hdone, hv⟩ := vouched_of_reaches h
  refine ⟨hdone, fun p k r hresp hcode => ?_⟩
  have hvp := hv p
  rw [Proc.response_eq_some.mp hresp] at hvp
  exact hvp hcode

/-- A handler crashes after its call; a sweep finds the execution, and a retry is answered with
what was stored. -/
theorem success_executed_replayed : ∃ s r, Reaches Env.small ReportsExecuted s ∧
    (s.procs 2).response = some (some ⟨"a", keyA⟩, r) ∧ r.code = 200 ∧
    0 < s.shared.executions ⟨"a", keyA⟩ := by
  obtain ⟨s, hrun, hs⟩ := exists_run_of_exec (step Env.small)
    (fun s ia => (reliable [0, 1, 2] s ia && reportsLanded s ia) = true) init
    (insertSteps 0 (.small .append true) (.small "a" keyA) 5 [] ++
      [(0, .commit .ok), (0, .call), (0, .land), (0, .crash),
        (1, .sweep 30 [(⟨"a", keyA⟩, .small "a" 5 0)]), (1, .resolve (.executed [7])),
        (1, .place true), (1, .begin 31), (1, .update), (1, .commit .ok),
        (2, .start (.small .append true) (.small "a" keyA)), (2, .begin 32), (2, .lock),
        (2, .insert), (2, .read), (2, .reply true 0)])
    (fun s => (s.procs 2).response.any fun r => r.1 = some ⟨"a", keyA⟩ && r.2.code = 200)
    (by decide +kernel)
  obtain ⟨⟨k, r⟩, hresp, hs⟩ := (Option.any_eq_true _ _).mp hs
  simp only [Bool.and_eq_true, decide_eq_true_eq] at hs
  obtain ⟨rfl, hcode⟩ := hs
  have hreach : Reaches Env.small ReportsExecuted s :=
    (dependable_of_pids ⟨_, hrun⟩).mono fun _ _ hok => hok.1.reportsExecuted hok.2
  exact ⟨s, r, hreach, hresp, hcode, (success_executed hreach).2 2 _ r hresp (.inl hcode)⟩

/-- In a reliable environment a key that has been executed has been executed once, and its row
is there and says that the write happened or may have. -/
lemma executed_once (h : Reaches env Reliable s) (hpos : 0 < s.shared.executions k) :
    s.shared.executions k = 1 ∧
      ∃ row, s.shared.db.keys.lookup k = some row ∧ row.status.counts = true := by
  have hledger := ledger_of_reaches h
  obtain ⟨q, call, hcall, hk, hstate⟩ := (hledger.executions_pos k).mp hpos
  obtain ⟨⟨row, hrow, hcounts⟩, hlast⟩ :=
    (once_of_reaches h k).calls q call hcall hk (by simp [hstate])
  -- every execution is of the latest intent
  have hle : s.shared.executions k ≤ 1 := by
    refine hledger.executions_le_one (n := call.own.intentID) fun own hown hownk => ?_
    obtain ⟨q', call', hcall', rfl, hstate'⟩ := (hledger.landed own).mp hown
    have hlast' := ((once_of_reaches h k).calls q' call' hcall' hownk (by simp [hstate'])).2
    exact Option.some.inj (hlast'.symm.trans hlast)
  exact ⟨Nat.le_antisymm hle hpos, row, hrow, hcounts⟩

/-- **A success means that the write was executed exactly once, for good.** In a reliable
environment, which has no retention passes, and in which a call that is reported as done has landed:
once a handler answers `200` or `201` for a key, then in every later state the key has exactly one
execution, and its row is still there and neither failed nor rejected, whoever retries, sweeps or
crashes in between. -/
theorem success_exactly_once (h : Reaches env Dependable s)
    (hresp : (s.procs p).response = some (some k, r)) (hcode : r.code = 200 ∨ r.code = 201)
    (hrun : Reachable (step env) Dependable s t) :
    t.shared.executions k = 1 ∧ ∃ row, t.shared.db.keys.lookup k = some row ∧
      row.status ≠ .failed ∧ row.status ≠ .rejected := by
  have hvouched := (vouched_of_reaches (h.mono fun _ _ hok => hok.1.reportsExecuted hok.2)).2 p
  rw [Proc.response_eq_some.mp hresp] at hvouched
  have hpos : 0 < t.shared.executions k := by
    refine hrun.invariant (I := fun t => 0 < t.shared.executions k) (hvouched hcode) ?_
    rintro u ⟨q, a⟩ u' - hu - hstep
    exact Nat.lt_of_lt_of_le hu ((Rule.of_step hstep).executions_le k)
  obtain ⟨hone, row, hrow, hcounts⟩ :=
    executed_once ((h.trans hrun).mono fun _ _ hok => hok.1) hpos
  refine ⟨hone, row, hrow, fun hfailed => ?_, fun hrejected => ?_⟩
  · rw [hfailed] at hcounts
    cases hcounts
  · rw [hrejected] at hcounts
    cases hcounts

/-- A write is answered with `201` although its outcome could not be stored. -/
theorem success_exactly_once_unstored : ∃ s r, Reaches Env.small Dependable s ∧
    (s.procs 0).response = some (some ⟨"a", keyA⟩, r) ∧ r.code = 201 ∧
    (∃ row, s.shared.db.keys.lookup ⟨"a", keyA⟩ = some row ∧ row.status = .pending) ∧
    s.shared.executions ⟨"a", keyA⟩ = 1 := by
  obtain ⟨s, hrun, hs⟩ := exists_run_of_exec (step Env.small)
    (fun s ia => (reliable [0] s ia && reportsLanded s ia) = true) init
    (insertSteps 0 (.small .append true) (.small "a" keyA) 5 [] ++
      [(0, .commit .ok), (0, .call), (0, .land), (0, .ret ⟨.done, [7], ""⟩), (0, .place true),
        (0, .fail), (0, .fail), (0, .fail)])
    (fun s => (s.procs 0).response.any fun r => r.1 = some ⟨"a", keyA⟩ && r.2.code = 201 &&
      (s.shared.db.keys.lookup ⟨"a", keyA⟩).any fun row => row.status = .pending)
    (by decide +kernel)
  obtain ⟨⟨k, r⟩, hresp, hs⟩ := (Option.any_eq_true _ _).mp hs
  simp only [Bool.and_eq_true, decide_eq_true_eq] at hs
  obtain ⟨⟨rfl, hcode⟩, hs⟩ := hs
  obtain ⟨row, hrow, hpending⟩ := (Option.any_eq_true _ _).mp hs
  have hreach : Reaches Env.small Dependable s := dependable_of_pids ⟨_, hrun⟩
  exact ⟨s, r, hreach, hresp, hcode, ⟨row, hrow, of_decide_eq_true hpending⟩,
    (success_exactly_once hreach hresp (.inr hcode) (.refl s)).1⟩

end Idemio
