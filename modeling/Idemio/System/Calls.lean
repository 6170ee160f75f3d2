import Idemio.System.Atomic

set_option relaxedAutoImplicit false
set_option autoImplicit false

/-!
# Handlers and their calls

A handler that has won a claim makes one call, waits for it and records its outcome. The call
has a life of its own, since it may land after its handler has given up or crashed. What the
downstream has executed is the calls that have landed, each once.

## Main definitions

* `Idemio.Proc.owned` — the claim that a handler has won and not yet settled.
* `Idemio.Proc.running` — the same, as long as the call has not returned.
* `Idemio.Wins` — a process commits its claim as claimed.
* `Idemio.CallPhase` — what a process's call is at each point of its code.
* `Idemio.Ledger` — the executions are the calls that have landed.

## Main results

* `Idemio.callInv_of_reaches`, `Idemio.ticks_of_reaches`, `Idemio.ledger_of_reaches` — these
  hold in every reachable state, whatever the environment does.
* `Idemio.Ledger.executions_le_one` — if all executions of a key are of one intent there is at
  most one.
-/

namespace Idemio

/-- The claim that a handler has won and not yet settled. -/
def Proc.owned : Proc → Option Owned
  | .handler (.execute own) => some own
  | .handler (.calling own) => some own
  | .handler (.place own _) => some own
  | .completing _ (.handler own _) => some own
  | _ => none

/-- The claim that a handler has won, as long as its call has not returned. -/
def Proc.running : Proc → Option Owned
  | .handler (.execute own) => some own
  | .handler (.calling own) => some own
  | _ => none

/-- A process at `pr` wins the claim `own`: it commits it as claimed. -/
def Wins (p : Pid) (sh : Shared) (pr : Proc) (sh' : Shared) (own : Owned) : Prop :=
  ∃ tx observed, pr = .handler (.commit tx (.claimed observed)) ∧
    sh' = sh.applyClaim p tx (.claimed observed) ∧
    own = ⟨tx.req, tx.intent.intentID, tx.row.attemptCount⟩

/-- What the call of a process is at each point of its code: it is made once, from `execute`,
it is open while the handler waits for it, and it has ended for the handler afterwards. -/
def CallPhase (call : Option Call) : Proc → Prop
  | .handler (.calling own) => ∃ c, call = some c ∧ c.own = own ∧ c.ended = none
  | .handler (.place own _) => ∃ c t, call = some c ∧ c.own = own ∧ c.ended = some t
  | .completing _ (.handler own _) => ∃ c t, call = some c ∧ c.own = own ∧ c.ended = some t
  | .handler (.respond _ _) => ∀ c, call = some c → ∃ t, c.ended = some t
  | .stopped => ∀ c, call = some c → ∃ t, c.ended = some t
  | _ => call = none

/-- The call of a process is what its code says, and the claims it owns and calls for are its
own. -/
structure CallInv (p : Pid) (sh : Shared) (pr : Proc) : Prop where
  phase : CallPhase (sh.calls p) pr
  owned : ∀ own, pr.owned = some own → sh.drawn own.intentID = some p
  drawn : ∀ c, sh.calls p = some c → sh.drawn c.own.intentID = some p

variable {env : Env} {p q : Pid} {sh sh' : Shared} {pr pr' : Proc} {a : Action} {s s' : State}
  {ok : Assumption} {own : Owned} {call : Call}

lemma Proc.owned_of_running (h : pr.running = some own) : pr.owned = some own := by
  unfold Proc.running at h
  split at h
  · exact h
  · exact h
  · cases h

/-- A process that is not done with its call has no call before it is made. -/
lemma CallPhase.stop (h : CallPhase (some call) pr) (hpr : ∀ own, pr ≠ .handler (.calling own)) :
    ∃ t, call.ended = some t := by
  unfold CallPhase at h
  split at h
  · next own => exact absurd rfl (hpr own)
  · obtain ⟨c, t, ⟨⟩, -, ht⟩ := h
    exact ⟨t, ht⟩
  · obtain ⟨c, t, ⟨⟩, -, ht⟩ := h
    exact ⟨t, ht⟩
  · exact h call rfl
  · exact h call rfl
  · cases h

/-- What ends a call leaves it ended. -/
lemma endCall_ended {c : Call} (h : (sh.endCall p).calls p = some c) : ∃ t, c.ended = some t := by
  simp only [Shared.endCall_calls, Function.update_self, Option.map_eq_some_iff] at h
  obtain ⟨c', -, rfl⟩ := h
  exact ⟨_, rfl⟩

/-- What a call's phase says depends on its owner and its end alone. -/
lemma CallPhase.congr {c c' : Call} (h : CallPhase (some c) pr) (hown : c'.own = c.own)
    (hended : c'.ended = c.ended) : CallPhase (some c') pr := by
  unfold CallPhase at h ⊢
  split at h
  · obtain ⟨_, ⟨⟩, h₁, h₂⟩ := h
    exact ⟨c', rfl, hown.trans h₁, hended.trans h₂⟩
  · obtain ⟨_, t, ⟨⟩, h₁, h₂⟩ := h
    exact ⟨c', t, rfl, hown.trans h₁, hended.trans h₂⟩
  · obtain ⟨_, t, ⟨⟩, h₁, h₂⟩ := h
    exact ⟨c', t, rfl, hown.trans h₁, hended.trans h₂⟩
  · rintro _ ⟨⟩
    exact hended ▸ h c rfl
  · rintro _ ⟨⟩
    exact hended ▸ h c rfl
  · cases h

/-- Without a call, a process that answers or stops has none to wait for. -/
lemma ended_of_none (h : sh.calls p = none) : ∀ c, sh.calls p = some c → ∃ t, c.ended = some t := by
  intro c hc
  rw [h] at hc
  cases hc

/-- **A step keeps the phase of its process's call.** -/
lemma Rule.callPhase (h : Rule env p sh pr a sh' pr') (hc : CallPhase (sh.calls p) pr) :
    CallPhase (sh'.calls p) pr' := by
  cases h with
  | land hcall | lose hcall =>
    rw [hcall] at hc
    simp only [Function.update_self]
    exact hc.congr rfl rfl
  | crash hpr =>
    intro c hcall
    have hcall : sh.calls p = some c := hcall
    rw [hcall] at hc
    exact hc.stop hpr
  | crashCall => exact fun c hcall => endCall_ended hcall
  | call => exact ⟨_, Function.update_self .., rfl, rfl⟩
  | ret =>
    obtain ⟨c, hcall, hown, -⟩ := hc
    refine ⟨{ c with ended := some sh.tick }, sh.tick, ?_, hown, rfl⟩
    rw [Shared.endCall_calls, Function.update_self, hcall]
    rfl
  | @complete c c' caller _ _ hrule =>
    rw [hrule.frame]
    cases caller <;> exact hc
  | completed hrule =>
    rw [hrule.frame]
    obtain ⟨c, t, hcall, -, hended⟩ := hc
    intro c' hcall'
    obtain rfl := Option.some.inj (hcall.symm.trans hcall')
    exact ⟨t, hended⟩
  | completedStale hrule =>
    rw [hrule.frame]
    exact hc
  | claimFail hreq =>
    next hd _ =>
    cases hd <;> first | exact ended_of_none hc | cases hreq
  | refuse | lockTimeout | readGone | mismatch | rejected | claimRefused | claimUnseen |
      waitExpired | reply | finishSweep | expireRefused | expireUnseen | expireFail |
      deleteObjects => exact ended_of_none hc
  | _ => exact hc

/-- A process that owns a claim after a step owned it before or has just won it. -/
lemma Rule.owned (h : Rule env p sh pr a sh' pr') (hown : pr'.owned = some own) :
    pr.owned = some own ∨ Wins p sh pr sh' own := by
  cases h with
  | claimed => exact .inr ⟨_, _, rfl, rfl, (Option.some.inj hown).symm⟩
  | land | lose | call | ret | place => exact .inl hown
  | @complete c c' caller _ _ hrule =>
    cases caller with
    | handler own' outcome => exact .inl hown
    | sweep todo => cases hown
  | _ => cases hown

/-- A handler that waits for its call after a step waited before or has just won its claim. -/
lemma Rule.running (h : Rule env p sh pr a sh' pr') (hrun : pr'.running = some own) :
    pr.running = some own ∨ Wins p sh pr sh' own := by
  cases h with
  | claimed => exact .inr ⟨_, _, rfl, rfl, (Option.some.inj hrun).symm⟩
  | land | lose | call => exact .inl hrun
  | _ => cases hrun

/-- Who owns a claim after a step owned it before or has just won it. -/
lemma owned_of_step (hstep : step env s (p, a) = some s') (hown : (s'.procs q).owned = some own) :
    (s.procs q).owned = some own ∨ q = p ∧ Wins p s.shared (s.procs p) s'.shared own := by
  by_cases hq : q = p
  · subst hq
    exact ((Rule.of_step hstep).owned hown).imp_right fun h => ⟨rfl, h⟩
  · rw [Interleave.step_procs_of_ne hstep hq] at hown
    exact .inl hown

/-- Who waits for its call after a step waited before it or has just won its claim. -/
lemma running_of_step (hstep : step env s (p, a) = some s')
    (hrun : (s'.procs q).running = some own) :
    (s.procs q).running = some own ∨ q = p ∧ Wins p s.shared (s.procs p) s'.shared own := by
  by_cases hq : q = p
  · subst hq
    exact ((Rule.of_step hstep).running hrun).imp_right fun h => ⟨rfl, h⟩
  · rw [Interleave.step_procs_of_ne hstep hq] at hrun
    exact .inl hrun

/-- A claim that has just been won is the open attempt of its key. -/
lemma Wins.key (h : Wins p s.shared (s.procs p) s'.shared own) (hs : Reaches env ok s) :
    (∃ row, (s'.shared.key own.req.keyID).row = some row ∧ row.status = .pending ∧
      row.attemptCount = own.attempt) ∧
      (s'.shared.key own.req.keyID).lastID = some own.intentID := by
  obtain ⟨tx, observed, hp, hsh, rfl⟩ := h
  obtain ⟨row₀, hopen, hverdict⟩ := (decided_of_reaches hs hp).openClaim
  rw [hsh, key_applyClaim hverdict]
  cases hverdict with
  | claimed hrow _ =>
    exact ⟨⟨tx.row, rfl, hrow ▸ hopen.opens.pending, rfl⟩, by simp [KeyState.lastID]⟩

/-- The key of a claim that is won had no row or had failed. -/
lemma Wins.not_counts {row : KeyRow} (h : Wins p s.shared (s.procs p) s'.shared own)
    (hs : Reaches env ok s) (hrow : (s.shared.key own.req.keyID).row = some row) :
    row.status.counts = false := by
  obtain ⟨tx, observed, hp, -, rfl⟩ := h
  exact (decided_of_reaches hs hp).not_counts hrow

/-- Only a handler at the commit of its claim wins it. -/
lemma Wins.ne_completing {c : Completion} {caller : Caller} (h : Wins p sh pr sh' own) :
    pr ≠ .completing c caller := by
  obtain ⟨tx, observed, rfl, -⟩ := h
  simp

/-- A call that a process has after a step it had before, up to its state and its end, or it has
just made it. -/
lemma Rule.calls_cases (h : Rule env p sh pr a sh' pr') (hcall : sh'.calls p = some call) :
    (∃ c, sh.calls p = some c ∧ call.own = c.own ∧ call.began = c.began) ∨
      (pr = .handler (.execute call.own) ∧ a = .call ∧ sh' = sendCall p sh call.own) := by
  cases h with
  | land hc | lose hc =>
    simp only [Function.update_self, Option.some.injEq] at hcall
    exact .inl ⟨_, hc, by rw [← hcall], by rw [← hcall]⟩
  | crashCall | ret =>
    simp only [Shared.endCall_calls, Function.update_self, Option.map_eq_some_iff] at hcall
    obtain ⟨c, hc, rfl⟩ := hcall
    exact .inl ⟨c, hc, rfl, rfl⟩
  | call =>
    simp only [sendCall_calls, Function.update_self, Option.some.injEq] at hcall
    rw [← hcall]
    exact .inr ⟨rfl, rfl, rfl⟩
  | complete hrule | completed hrule | completedStale hrule =>
    rw [hrule.frame] at hcall
    exact .inl ⟨call, hcall, rfl, rfl⟩
  | _ => exact .inl ⟨call, hcall, rfl, rfl⟩

/-- A step keeps what is known of its process's call. -/
lemma Rule.callInv (h : Rule env p sh pr a sh' pr') (hheld : Held env p sh pr) (hids : Ids sh)
    (hc : CallInv p sh pr) : CallInv p sh' pr' := by
  have hdrawn := (h.guarantee hheld hids).drawn
  refine ⟨h.callPhase hc.phase, fun own hown => ?_, fun call hcall => ?_⟩
  · rcases h.owned hown with hown | ⟨tx, observed, rfl, rfl, rfl⟩
    · exact hdrawn _ _ (hc.owned own hown)
    · exact (Decided.own hheld).drawn
  · rcases h.calls_cases hcall with ⟨c, hc', hown, -⟩ | ⟨rfl, -, -⟩
    · rw [hown]
      exact hdrawn _ _ (hc.drawn c hc')
    · exact hdrawn _ _ (hc.owned _ rfl)

/-- **In every reachable state** the call of each process is what its code says, and its claims
are its own. -/
theorem callInv_of_reaches (h : Reaches env ok s) (p : Pid) :
    CallInv p s.shared (s.procs p) := by
  refine Interleave.invariant_procs (P := CallInv) ?_ ?_ ?_ h p
  · intro p
    refine ⟨rfl, fun own h => ?_, fun c h => ?_⟩
    · cases h
    · cases h
  · intro s p a sh' pr' hs hc _ hact
    obtain ⟨hids, hheld⟩ := held_of_reaches hs
    exact (rule_of_act hact).callInv (hheld p) hids (hc p)
  · intro s p a sh' pr' q hq hs hc _ hact
    obtain ⟨hids, hheld⟩ := held_of_reaches hs
    have G := (rule_of_act hact).guarantee (hheld p) hids
    refine ⟨?_, fun own hown => G.drawn _ _ ((hc q).owned own hown), fun call hcall => ?_⟩
    · rw [G.calls q hq]
      exact (hc q).phase
    · rw [G.calls q hq] at hcall
      exact G.drawn _ _ ((hc q).drawn call hcall)

/-- A call only ever changes from sent to landed or lost. -/
lemma Rule.call_state {c : Call} (h : Rule env p sh pr a sh' pr') (hc : sh.calls p = some c)
    (hpr : ∀ own, pr ≠ .handler (.execute own)) (hcall : sh'.calls p = some call) :
    call.own = c.own ∧ (call.state = c.state ∨ c.state = .sent ∧ call.state ≠ .sent) := by
  cases h with
  | land hc' hsent | lose hc' hsent =>
    obtain rfl := Option.some.inj (hc'.symm.trans hc)
    simp only [Function.update_self, Option.some.injEq] at hcall
    rw [← hcall]
    exact ⟨rfl, .inr ⟨hsent, by simp⟩⟩
  | crashCall | ret =>
    simp only [Shared.endCall_calls, Function.update_self, Option.map_eq_some_iff] at hcall
    obtain ⟨c', hc', rfl⟩ := hcall
    obtain rfl := Option.some.inj (hc'.symm.trans hc)
    exact ⟨rfl, .inl rfl⟩
  | call => exact absurd rfl (hpr _)
  | complete hrule | completed hrule | completedStale hrule =>
    rw [hrule.frame] at hcall
    obtain rfl := Option.some.inj (hc.symm.trans hcall)
    exact ⟨rfl, .inl rfl⟩
  | _ =>
    obtain rfl := Option.some.inj (hc.symm.trans hcall)
    exact ⟨rfl, .inl rfl⟩

/-- A call after a step is one from before, further on its way, or its owner has just made it. -/
lemma call_of_step (h : Reaches env ok s) (hstep : step env s (p, a) = some s')
    (hcall : s'.shared.calls q = some call) :
    (∃ c, s.shared.calls q = some c ∧ call.own = c.own ∧
      (call.state = c.state ∨ c.state = .sent ∧ call.state ≠ .sent)) ∨
    (q = p ∧ a = .call ∧ s.procs q = .handler (.execute call.own)) := by
  have hrule := Rule.of_step hstep
  by_cases hq : q = p
  swap
  · rw [hrule.calls_of_ne hq] at hcall
    exact .inl ⟨call, hcall, rfl, .inl rfl⟩
  subst hq
  rcases hrule.calls_cases hcall with ⟨c, hc, -, -⟩ | ⟨hexec, ha, -⟩
  · refine .inl ⟨c, hc, hrule.call_state hc (fun own hpr => ?_) hcall⟩
    have hphase := (callInv_of_reaches h q).phase
    rw [hpr, hc] at hphase
    cases hphase
  · exact .inr ⟨rfl, ha, hexec⟩

/-! ## Ticks -/

/-- The ticks recorded with calls are in the past. -/
def Ticks (sh : Shared) : Prop :=
  ∀ p c, sh.calls p = some c → c.began < sh.tick ∧ ∀ t, c.ended = some t → t < sh.tick

/-- A step keeps the recorded ticks in the past. -/
lemma Rule.ticks (h : Rule env p sh pr a sh' pr') (ht : Ticks sh) : Ticks sh' := by
  have hmono : sh.tick ≤ sh'.tick := by
    cases h with
    | call | ret | crashCall => exact Nat.le_succ _
    | complete hrule | completed hrule | completedStale hrule => rw [hrule.frame]
    | _ => exact le_rfl
  intro q c hc
  by_cases hq : q = p
  swap
  · rw [h.calls_of_ne hq] at hc
    obtain ⟨hb, he⟩ := ht q c hc
    exact ⟨by omega, fun t h => by have := he t h; omega⟩
  subst hq
  cases h with
  | @land _ c₀ hcall _ | @lose _ c₀ hcall _ =>
    simp only [Function.update_self, Option.some.injEq] at hc
    rw [← hc]
    exact ht q c₀ hcall
  | crashCall | ret =>
    simp only [Shared.endCall_calls, Function.update_self, Option.map_eq_some_iff] at hc
    obtain ⟨c', hc', rfl⟩ := hc
    refine ⟨Nat.lt_succ_of_lt (ht q c' hc').1, ?_⟩
    rintro t ⟨⟩
    exact Nat.lt_succ_self _
  | call =>
    simp only [sendCall_calls, Function.update_self, Option.some.injEq] at hc
    rw [← hc]
    exact ⟨Nat.lt_succ_self _, fun t h => by cases h⟩
  | complete hrule | completed hrule | completedStale hrule =>
    rw [hrule.frame] at hc ⊢
    exact ht q c hc
  | _ => exact ht q c hc

/-- In every reachable state the recorded ticks are in the past. -/
lemma ticks_of_reaches (h : Reaches env ok s) : Ticks s.shared := by
  refine h.invariant (I := fun s => Ticks s.shared) (fun p c h => by cases h) ?_
  rintro s ⟨p, a⟩ s' - ht - hstep
  obtain ⟨sh', pr', hrule, rfl⟩ := rule_of_step hstep
  exact hrule.ticks ht

/-! ## Executions -/

/-- The call of `p` for `own` has executed. -/
def LandedAt (sh : Shared) (p : Pid) (own : Owned) : Prop :=
  ∃ c, sh.calls p = some c ∧ c.own = own ∧ c.state = .landed

/-- What the downstream has executed is what has landed, and nothing of it twice. -/
structure Ledger (sh : Shared) : Prop where
  landed : ∀ own, own ∈ sh.ledger ↔ ∃ p, LandedAt sh p own
  nodup : (sh.ledger.map (·.intentID)).Nodup

/-- Other steps than a landing leave the ledger and what has landed as they are. -/
lemma Rule.landed_frame (h : Rule env p sh pr a sh' pr') (hc : CallPhase (sh.calls p) pr)
    (hland : a ≠ .land) :
    sh'.ledger = sh.ledger ∧ ∀ own, LandedAt sh' p own ↔ LandedAt sh p own := by
  cases h with
  | land => exact absurd rfl hland
  | lose hcall hsent =>
    refine ⟨rfl, fun own => ⟨?_, ?_⟩⟩
    · rintro ⟨c, hc', -, hstate⟩
      simp only [Function.update_self, Option.some.injEq] at hc'
      rw [← hc'] at hstate
      cases hstate
    · rintro ⟨c, hc', -, hstate⟩
      obtain rfl := Option.some.inj (hcall.symm.trans hc')
      rw [hsent] at hstate
      cases hstate
  | call =>
    have hnone : sh.calls p = none := hc
    refine ⟨rfl, fun own => ⟨?_, ?_⟩⟩
    · rintro ⟨c, hc', -, hstate⟩
      simp only [sendCall_calls, Function.update_self, Option.some.injEq] at hc'
      rw [← hc'] at hstate
      cases hstate
    · rintro ⟨c, hc', -⟩
      rw [hnone] at hc'
      cases hc'
  | crashCall | ret =>
    refine ⟨rfl, fun own => ?_⟩
    simp only [LandedAt, Shared.endCall_calls, Function.update_self, Option.map_eq_some_iff]
    constructor
    · rintro ⟨-, ⟨c, hc', rfl⟩, hown, hstate⟩
      exact ⟨c, hc', hown, hstate⟩
    · rintro ⟨c, hc', hown, hstate⟩
      exact ⟨_, ⟨c, hc', rfl⟩, hown, hstate⟩
  | complete hrule | completed hrule | completedStale hrule =>
    rw [hrule.frame]
    exact ⟨rfl, fun _ => Iff.rfl⟩
  | _ => exact ⟨rfl, fun _ => Iff.rfl⟩

/-- A landing adds one entry to the ledger, for an intent that is not in it. -/
lemma Ledger.land (hl : Ledger sh) (hcall : sh.calls p = some call) (hsent : call.state = .sent)
    (hdrawn : ∀ q c, sh.calls q = some c → sh.drawn c.own.intentID = some q) :
    Ledger { sh with
      calls := Function.update sh.calls p (some { call with state := .landed })
      ledger := sh.ledger ++ [call.own] } := by
  refine ⟨fun own => ⟨fun hmem => ?_, ?_⟩, ?_⟩
  · rcases List.mem_append.mp hmem with hmem | hmem
    · obtain ⟨q, c, hc, hown, hstate⟩ := (hl.landed own).mp hmem
      refine ⟨q, c, ?_, hown, hstate⟩
      have hq : q ≠ p := by
        rintro rfl
        rw [Option.some.inj (hcall.symm.trans hc), hstate] at hsent
        cases hsent
      simpa only [Function.update_of_ne hq] using hc
    · obtain rfl := List.mem_singleton.mp hmem
      exact ⟨p, _, Function.update_self .., rfl, rfl⟩
  · rintro ⟨q, c, hc, hown, hstate⟩
    by_cases hq : q = p
    · subst hq
      simp only [Function.update_self, Option.some.injEq] at hc
      rw [← hown, ← hc]
      exact List.mem_append_right _ List.mem_cons_self
    · simp only [Function.update_of_ne hq] at hc
      exact List.mem_append_left _ ((hl.landed own).mpr ⟨q, c, hc, hown, hstate⟩)
  · simp only [List.map_append, List.map_cons, List.map_nil]
    refine List.nodup_append.mpr ⟨hl.nodup, by simp, ?_⟩
    intro n hn m hm
    obtain ⟨own, hown, rfl⟩ := List.mem_map.mp hn
    rw [List.mem_singleton.mp hm]
    intro heq
    -- an entry for the same intent would be the landed call of the same process
    obtain ⟨q, c, hc, rfl, hstate⟩ := (hl.landed own).mp hown
    have hq := hdrawn q c hc
    rw [heq, hdrawn p call hcall] at hq
    obtain rfl := Option.some.inj hq
    rw [Option.some.inj (hcall.symm.trans hc), hstate] at hsent
    cases hsent

/-- A step keeps the ledger in order. -/
lemma Rule.ledger (h : Rule env p sh pr a sh' pr') (hc : CallPhase (sh.calls p) pr)
    (hdrawn : ∀ q c, sh.calls q = some c → sh.drawn c.own.intentID = some q) (hl : Ledger sh) :
    Ledger sh' := by
  by_cases hland : a = .land
  · subst hland
    cases h with
    | land hcall hsent => exact hl.land hcall hsent hdrawn
    | complete hrule | completed hrule | completedStale hrule => cases hrule
  · obtain ⟨hledger, hlanded⟩ := h.landed_frame hc hland
    refine ⟨fun own => ?_, hledger ▸ hl.nodup⟩
    rw [hledger, hl.landed]
    refine exists_congr fun q => ?_
    by_cases hq : q = p
    · subst hq
      exact (hlanded own).symm
    · rw [LandedAt, LandedAt, h.calls_of_ne hq]

/-- **In every reachable state the executions are the calls that have landed.** -/
theorem ledger_of_reaches (h : Reaches env ok s) : Ledger s.shared := by
  refine h.invariant (I := fun s => Ledger s.shared) ?_ ?_
  · refine ⟨fun own => ⟨fun h => ?_, fun ⟨p, c, h, _⟩ => ?_⟩, List.nodup_nil⟩
    · cases h
    · cases h
  · rintro s ⟨p, a⟩ s' hs hl - hstep
    obtain ⟨sh', pr', hrule, rfl⟩ := rule_of_step hstep
    have hcalls := callInv_of_reaches hs
    exact hrule.ledger (hcalls p).phase (fun q c hc => (hcalls q).drawn c hc) hl

/-- A key has been executed exactly if a call for it has landed. -/
lemma Ledger.executions_pos (hl : Ledger sh) (k : KeyID) :
    0 < sh.executions k ↔ ∃ p c, sh.calls p = some c ∧ c.own.req.keyID = k ∧ c.state = .landed := by
  rw [Shared.executions, List.length_pos_iff_exists_mem]
  constructor
  · rintro ⟨own, hown⟩
    obtain ⟨hmem, hk⟩ := List.mem_filter.mp hown
    obtain ⟨p, c, hc, rfl, hstate⟩ := (hl.landed own).mp hmem
    exact ⟨p, c, hc, by simpa using hk, hstate⟩
  · rintro ⟨p, c, hc, hk, hstate⟩
    have hmem := (hl.landed c.own).mpr ⟨p, c, hc, rfl, hstate⟩
    exact ⟨c.own, List.mem_filter.mpr ⟨hmem, by simpa using hk⟩⟩

/-- If all executions of a key are of one intent there is at most one. -/
lemma Ledger.executions_le_one (hl : Ledger sh) {k : KeyID} {n : Nat}
    (h : ∀ own ∈ sh.ledger, own.req.keyID = k → own.intentID = n) : sh.executions k ≤ 1 := by
  set mine := sh.ledger.filter (·.req.keyID = k) with hmine
  have hnodup : (mine.map (·.intentID)).Nodup := hl.nodup.sublist (List.filter_sublist.map _)
  have hconst : mine.map (·.intentID) = List.replicate mine.length n := by
    refine List.eq_replicate_iff.mpr ⟨by simp, fun m hm => ?_⟩
    obtain ⟨own, hown, rfl⟩ := List.mem_map.mp hm
    obtain ⟨hmem, hk⟩ := List.mem_filter.mp hown
    exact h own hmem (by simpa using hk)
  rw [hconst, List.nodup_replicate] at hnodup
  exact hnodup

end Idemio
