import Idemio.Properties.Success

set_option relaxedAutoImplicit false
set_option autoImplicit false

/-!
# Writes as registers

What the service is for, told without processes, transactions or locks: every key is a register
that holds the status of its write and how often this was executed, and each of six events changes
one register at once. A write is claimed when it is new or has failed, it is executed while it is
open and never a second time, and it is done only after it was executed, failed only if it was
not. In a dependable environment the system is an implementation of these registers.

## Main definitions

* `Idemio.Register`, `Idemio.Event`, `Idemio.Register.step` — a register and its events.
* `Idemio.registersStep` — many of them.
* `Idemio.registers` — what a state of the system says about each key.

## Main results

* `Idemio.register_of_step` — every step is one event of one key, or none.
* `Idemio.registers_refine` — whatever the system reaches, the registers reach.
-/

namespace Idemio

open Transition

/-! ## Registers -/

/-- A write: its status, if it was claimed, and how often it was executed. -/
structure Register where
  status : Option Status
  executions : Nat
  deriving DecidableEq, Repr

/-- What can happen to a write. -/
inductive Event
  | claim
  | reject
  | execute
  | done
  | fail
  | giveUp
  deriving DecidableEq, Repr

/-- The write is new or has failed, and was not executed. -/
def Register.unclaimed (r : Register) : Bool :=
  (r.status = none || r.status = some .failed) && r.executions = 0

/-- What an event makes of a write. -/
def Register.step (r : Register) : Event → Option Register
  | .claim => if r.unclaimed then some ⟨some .pending, 0⟩ else none
  | .reject => if r.unclaimed then some ⟨some .rejected, 0⟩ else none
  | .execute =>
    if (r.status = some .pending ∨ r.status = some .indeterminate) ∧ r.executions = 0 then
      some { r with executions := 1 }
    else none
  | .done => if r = ⟨some .pending, 1⟩ then some ⟨some .done, 1⟩ else none
  | .fail => if r = ⟨some .pending, 0⟩ then some ⟨some .failed, 0⟩ else none
  -- nobody knows whether the write was executed
  | .giveUp =>
    if r.status = some .pending then some { r with status := some .indeterminate } else none

/-- An event of one key. -/
def registersStep (regs : KeyID → Register) (ke : KeyID × Event) : Option (KeyID → Register) :=
  ((regs ke.1).step ke.2).map (Function.update regs ke.1)

/-! ## The system as registers -/

/-- What a state says about a key. -/
def registers (s : State) (k : KeyID) : Register :=
  ⟨(s.shared.db.keys.lookup k).map (·.status), s.shared.executions k⟩

variable {env : Env} {p : Pid} {a : Action} {s s' t : State} {k : KeyID}

/-- An event of one key that leaves the other keys as they are. -/
lemma registersStep_of_step {e : Event} (h : (registers s k).step e = some (registers s' k))
    (hother : ∀ k', k' ≠ k → registers s' k' = registers s k') :
    registersStep (registers s) (k, e) = some (registers s') := by
  rw [registersStep, h, Option.map_some, Option.some.injEq]
  funext k'
  by_cases hk : k' = k
  · subst hk
    rw [Function.update_self]
  · rw [Function.update_of_ne hk, hother k' hk]

/-- A key that has no row, or whose row does not count, was not executed. -/
lemma executions_eq_zero (h : Reaches env Reliable s)
    (hrow : ∀ row, s.shared.db.keys.lookup k = some row → row.status.counts = false) :
    s.shared.executions k = 0 := by
  by_contra hne
  obtain ⟨-, row, hlookup, hcounts⟩ := executed_once h (Nat.pos_of_ne_zero hne)
  rw [hrow row hlookup] at hcounts
  cases hcounts

/-- What a landing does. -/
lemma Rule.land_cases {sh sh' : Shared} {pr pr' : Proc} (h : Rule env p sh pr .land sh' pr') :
    ∃ call, sh.calls p = some call ∧ call.state = .sent ∧ sh'.db = sh.db ∧
      sh'.ledger = sh.ledger ++ [call.own] := by
  cases h with
  | land hcall hsent => exact ⟨_, hcall, hsent, rfl, rfl⟩
  | complete hc | completed hc | completedStale hc => cases hc

/-- **A landing is an execution** of a write that is open and was not executed before. -/
lemma register_of_land (h : Reaches env Dependable s) (hs' : Reaches env Dependable s')
    (hstep : step env s (p, .land) = some s') :
    ∃ k, registersStep (registers s) (k, .execute) = some (registers s') := by
  obtain ⟨call, hcall, hsent, hdb, hledger⟩ := (Rule.of_step hstep).land_cases
  have hreliable : Reaches env Reliable s := h.mono fun _ _ hok => hok.1
  refine ⟨call.own.req.keyID, registersStep_of_step ?_ fun k' hk' => ?_⟩
  · -- the row is there and counts; it is not done, since it was not executed
    obtain ⟨⟨row, hrow, hcounts⟩, -⟩ :=
      (once_of_reaches hreliable _).calls p call hcall rfl (by simp [hsent])
    have hrow : s.shared.db.keys.lookup call.own.req.keyID = some row := hrow
    have hsucc : s'.shared.executions call.own.req.keyID =
        s.shared.executions call.own.req.keyID + 1 := by
      simp [Shared.executions, hledger]
    have hone := (executed_once (hs'.mono fun _ _ hok => hok.1)
      (k := call.own.req.keyID) (by omega)).1
    have hzero : s.shared.executions call.own.req.keyID = 0 := by omega
    have hstatus : row.status = .pending ∨ row.status = .indeterminate := by
      have hdone := (vouched_of_reaches (h.mono fun _ _ hok => hok.1.reportsExecuted hok.2)).1
      cases hst : row.status with
      | pending => exact .inl rfl
      | indeterminate => exact .inr rfl
      | done => exact absurd (hdone _ row hrow hst) (by omega)
      | failed | rejected => simp [hst, Status.counts] at hcounts
    simp only [registers, hdb, hrow, hone, hzero, Option.map_some, Register.step,
      Option.some.injEq, and_true]
    rw [if_pos hstatus]
  · simp [registers, hdb, Shared.executions, hledger, hk'.symm]

/-- Other steps execute nothing. -/
lemma executions_of_step (hs : Reaches env Dependable s) (hstep : step env s (p, a) = some s')
    (ha : a ≠ .land) (k : KeyID) : s'.shared.executions k = s.shared.executions k := by
  have hledger := ((Rule.of_step hstep).landed_frame (callInv_of_reaches hs p).phase ha).1
  rw [Shared.executions, hledger, Shared.executions]

/-- **A commit is an event of its key**: a claim or a rejection of a write that was not claimed,
or the end of one that was open. -/
lemma register_of_keyChange (h : Reaches env Dependable s) (hs' : Reaches env Dependable s')
    (hexec : s'.shared.executions k = s.shared.executions k)
    (hchange : KeyChange env p s.shared (s.procs p) a k s'.shared) :
    registers s' k = registers s k ∨ ∃ e, (registers s k).step e = some (registers s' k) := by
  have hreliable : Reaches env Reliable s := h.mono fun _ _ hok => hok.1
  have hreliable' : Reaches env Reliable s' := hs'.mono fun _ _ hok => hok.1
  cases hchange with
  | same hkey =>
    have hrow : s'.shared.db.keys.lookup k = s.shared.db.keys.lookup k :=
      congrArg KeyState.row hkey
    exact .inl (by rw [registers, hrow, hexec, registers])
  | @claim tx verdict row₀ _ _ _ _ hopen hverdict _ hkey =>
    have hrow' : s'.shared.db.keys.lookup k = some tx.row := congrArg KeyState.row hkey
    have hzero : s.shared.executions k = 0 :=
      executions_eq_zero hreliable fun row hrow => hopen.not_counts hrow
    have hfree : (registers s k).unclaimed = true := by
      have hlookup : s.shared.db.keys.lookup k = (s.shared.key k).row := rfl
      generalize hold : (s.shared.key k).row = old at hopen
      cases hopen with
      | insert => simp [Register.unclaimed, registers, hlookup, hold, hzero]
      | reclaim hreclaim =>
        simp [Register.unclaimed, registers, hlookup, hold, hzero,
          (reclaimKey_eq_some.mp hreclaim).1]
    refine .inr ?_
    cases hverdict with
    | claimed hrow =>
      refine ⟨.claim, ?_⟩
      have hreg : registers s' k = ⟨some .pending, 0⟩ := by
        rw [registers, hrow', hexec, hzero, hrow, Option.map_some, hopen.pending]
      rw [Register.step, if_pos hfree, hreg]
    | rejected hrow =>
      refine ⟨.reject, ?_⟩
      have hreg : registers s' k = ⟨some .rejected, 0⟩ := by
        rw [registers, hrow', hexec, hzero, hrow, Option.map_some]
        rfl
      rw [Register.step, if_pos hfree, hreg]
  | @complete c _ now old row _ _ _ _ _ hold hrow _ hkey =>
    have hlookup : s.shared.db.keys.lookup k = some old := hold
    have hlookup' : s'.shared.db.keys.lookup k = some row := congrArg KeyState.row hkey
    obtain ⟨hpending, hnew⟩ := completeKey_eq_some.mp hrow
    have hstatus : row.status = c.args.status := by rw [hnew]
    have hreg : registers s k = ⟨some .pending, s.shared.executions k⟩ := by
      rw [registers, hlookup, Option.map_some, hpending]
    have hreg' : registers s' k = ⟨some c.args.status, s.shared.executions k⟩ := by
      rw [registers, hlookup', hexec, Option.map_some, hstatus]
    refine .inr ?_
    rcases c.args.settles with hdone | hfailed | hgiveUp
    · have hpos := (vouched_of_reaches (hs'.mono fun _ _ hok => hok.1.reportsExecuted hok.2)).1
        k row hlookup' (hstatus.trans hdone)
      have hone : s.shared.executions k = 1 := hexec ▸ (executed_once hreliable' hpos).1
      exact ⟨.done, by rw [hreg, hreg', hone, hdone]; rfl⟩
    · have hzero : s'.shared.executions k = 0 := executions_eq_zero hreliable' fun row' hrow' => by
        obtain rfl := Option.some.inj (hlookup'.symm.trans hrow')
        rw [hstatus, hfailed]
        rfl
      exact ⟨.fail, by rw [hreg, hreg', ← hexec, hzero, hfailed]; rfl⟩
    · exact ⟨.giveUp, by rw [hreg, hreg', hgiveUp]; rfl⟩
  | expire _ hpr =>
    exact absurd hpr (ne_expire (h.mono fun _ _ hok => hok.1.noRetention))

/-- The commit of a process changes one key at most. -/
lemma KeyChange.same_of_ne {k' : KeyID} (h : KeyChange env p s.shared (s.procs p) a k s'.shared)
    (hk : s'.shared.key k ≠ s.shared.key k)
    (h' : KeyChange env p s.shared (s.procs p) a k' s'.shared) (hne : k' ≠ k)
    (hexpire : ∀ x, s.procs p ≠ .expire x) : s'.shared.key k' = s.shared.key k' := by
  cases h' with
  | same hkey => exact hkey
  | claim _ hpr _ hk' =>
    cases h with
    | same hkey => exact absurd hkey hk
    | claim _ hpr₁ _ hk₁ =>
      cases hpr.symm.trans hpr₁
      exact absurd (hk'.symm.trans hk₁) hne
    | complete _ hpr₁ => cases hpr.symm.trans hpr₁
    | expire _ hpr₁ => exact absurd hpr₁ (hexpire _)
  | complete _ hpr _ hk' =>
    cases h with
    | same hkey => exact absurd hkey hk
    | claim _ hpr₁ => cases hpr.symm.trans hpr₁
    | complete _ hpr₁ _ hk₁ =>
      cases hpr.symm.trans hpr₁
      exact absurd (hk'.symm.trans hk₁) hne
    | expire _ hpr₁ => exact absurd hpr₁ (hexpire _)
  | expire _ hpr => exact absurd hpr (hexpire _)

/-- **Every step is one event of one key, or none.** -/
lemma register_of_step (h : Reaches env Dependable s) (hok : Dependable s (p, a))
    (hstep : step env s (p, a) = some s') : registers s' = registers s ∨
      ∃ ke, registersStep (registers s) ke = some (registers s') := by
  have hs' : Reaches env Dependable s' := h.snoc hok hstep
  by_cases ha : a = .land
  · subst ha
    obtain ⟨k, hk⟩ := register_of_land h hs' hstep
    exact .inr ⟨_, hk⟩
  have hexec := executions_of_step h hstep ha
  have hchange := keyChange_of_step h hstep
  have hsame : ∀ k, s'.shared.key k = s.shared.key k → registers s' k = registers s k := by
    intro k hkey
    have hrow : s'.shared.db.keys.lookup k = s.shared.db.keys.lookup k :=
      congrArg KeyState.row hkey
    rw [registers, hrow, hexec, registers]
  by_cases hall : ∀ k, s'.shared.key k = s.shared.key k
  · exact .inl (funext fun k => hsame k (hall k))
  obtain ⟨k, hk⟩ := not_forall.mp hall
  have hother : ∀ k', k' ≠ k → registers s' k' = registers s k' := fun k' hne =>
    hsame k' ((hchange k).same_of_ne hk (hchange k') hne
      fun x => ne_expire (h.mono fun _ _ hok => hok.1.noRetention))
  rcases register_of_keyChange h hs' (hexec k) (hchange k) with heq | ⟨e, he⟩
  · refine .inl (funext fun k' => ?_)
    by_cases hne : k' = k
    · rw [hne, heq]
    · exact hother k' hne
  · exact .inr ⟨(k, e), registersStep_of_step he hother⟩

/-- **The system implements the registers.** Whatever handlers, sweeps and crashes interleave in a
dependable environment, which has no retention passes, the statuses and the executions of all keys
are as the registers can become, one event of one key at a time, from what they were in any state
before; and at the beginning nobody has claimed anything. -/
theorem registers_refine (h : Reaches env Dependable s)
    (hrun : Reachable (step env) Dependable s t) :
    Reachable registersStep (fun _ _ => True) (registers s) (registers t) ∧
      registers init = fun _ => ⟨none, 0⟩ := by
  refine ⟨Reachable.map _ _ registers hrun fun u ia u' hu hok hstep => ?_, rfl⟩
  rcases register_of_step (h.trans hu) hok hstep with heq | ⟨ke, hke⟩
  · exact .inl heq
  · exact .inr ⟨ke, trivial, hke⟩

/-- The first attempt fails; the second one is executed, but its handler crashes, and a sweep
finds the execution. -/
theorem registers_refine_swept : ∃ s, Reaches Env.small Dependable s ∧
    registers s ⟨"a", keyA⟩ = ⟨some .done, 1⟩ ∧
    Reachable registersStep (fun _ _ => True) (fun _ => ⟨none, 0⟩) (registers s) := by
  obtain ⟨s, hrun, hs⟩ := exists_run_of_exec (step Env.small)
    (fun s ia => (reliable [0, 1, 2] s ia && reportsLanded s ia) = true) init
    (insertSteps 0 (.small .replace true) (.small "a" keyA) 5 [] ++
      [(0, .commit .ok), (0, .call), (0, .lose), (0, .ret ⟨.failed, [], ""⟩), (0, .place true),
        (0, .begin 6), (0, .update), (0, .void (some (.small 1 .replace "a" keyA 5))),
        (0, .commit .ok)] ++
      reclaimSteps 1 (.small .replace true) (.small "a" keyA) 8 [] ++
      [(1, .commit .ok), (1, .call), (1, .crash), (1, .land)] ++
      [(2, .sweep 30 [(⟨"a", keyA⟩, { KeyRow.small "a" 5 0 with
          attemptCount := 2, claimedAt := 8 })]),
        (2, .resolve (.executed [7])), (2, .place true), (2, .begin 31), (2, .update),
        (2, .commit .ok)])
    (fun s => registers s ⟨"a", keyA⟩ = ⟨some .done, 1⟩) (by decide +kernel)
  have hreach : Reaches Env.small Dependable s := dependable_of_pids ⟨_, hrun⟩
  obtain ⟨hrefine, hinit⟩ := registers_refine (.refl init) hreach
  exact ⟨s, hreach, of_decide_eq_true hs, hinit ▸ hrefine⟩

end Idemio
