import Idemio.System.Calls

set_option relaxedAutoImplicit false
set_option autoImplicit false

/-!
# Keys whose call is awaited

As long as a handler has yet to make its call or waits for it, its key is pending at its own
intent: nobody else claims a pending key, and under the assumption below nobody completes it.

## Main definitions

* `Idemio.CompletesAfterCalls` — no `Complete` updates a key whose call is still awaited.
* `Idemio.Spares` — a step removes no pending row.
* `Idemio.CallsOpen` — the invariant.

## Main results

* `Idemio.CallsOpen.step` — every step that spares pending rows keeps it.
-/

namespace Idemio

variable {env : Env} {p q : Pid} {sh sh' : Shared} {pr pr' : Proc} {a : Action} {s s' : State}
  {ok : Assumption} {tx : ClaimTx} {own : Owned}

/-- No `Complete` updates a key while a handler that has claimed it has yet to make its call or
waits for it. That is, handlers complete their keys only after their calls have returned, and
sweeps only resolve keys whose handler has stopped. -/
def CompletesAfterCalls : Assumption := fun s ia =>
  ia.2 = .update → ∀ c caller, s.procs ia.1 = .completing c caller →
    ∀ q own, (s.procs q).running = some own → own.req.keyID ≠ c.args.keyID

/-- The `Complete` has updated its row and not committed yet. -/
def CompletePhase.updated : CompletePhase → Bool
  | .void _ _ => true
  | .commit _ _ _ => true
  | _ => false

lemma CompletePhase.Held.key {phase : CompletePhase} {args : CompleteArgs}
    (h : phase.Held p sh args) (hupdated : phase.updated = true) :
    sh.locks (.row args.keyID) = some p := by
  cases phase with
  | begin | update => cases hupdated
  | void => exact h.1.key
  | commit => exact h.1.key

/-- A `Complete` that has updated its row had done so before, or does so now. -/
lemma CompleteRule.updated {c c' : Completion} (h : CompleteRule p sh c a sh' (some c'))
    (hupdated : c'.phase.updated = true) :
    c'.args = c.args ∧ (c.phase.updated = true ∨ a = .update) := by
  have hretry : some c' ≠ c.retry := by
    intro hr
    rw [Completion.retry_eq_some hr] at hupdated
    cases hupdated
  cases h with
  | begin => cases hupdated
  | update => exact ⟨rfl, .inr rfl⟩
  | void hc => exact ⟨rfl, .inl (by rw [hc]; rfl)⟩
  | refused _ hr => exact absurd hr hretry
  | unseen _ hr => exact absurd hr hretry
  | fail hr => exact absurd hr hretry

/-- The same for the process that runs it. -/
lemma Rule.updated {c : Completion} {caller : Caller}
    (h : Rule env p sh pr a sh' (.completing c caller)) (hupdated : c.phase.updated = true) :
    ∃ c₀, pr = .completing c₀ caller ∧ c.args = c₀.args ∧
      (c₀.phase.updated = true ∨ a = .update) := by
  cases h with
  | land | lose => exact ⟨c, rfl, rfl, .inl hupdated⟩
  | place | placeStale => cases hupdated
  | @complete c₀ _ _ _ _ hrule => exact ⟨c₀, rfl, hrule.updated hupdated⟩

/-- The key of a handler that waits for its call is pending, the handler's intent is its latest,
and no `Complete` has updated it. -/
structure CallsOpen (s : State) : Prop where
  key : ∀ q own, (s.procs q).running = some own →
    (∃ row, (s.shared.key own.req.keyID).row = some row ∧ row.status = .pending) ∧
      (s.shared.key own.req.keyID).lastID = some own.intentID
  apart : ∀ p c caller, s.procs p = .completing c caller → c.phase.updated = true →
    ∀ q own, (s.procs q).running = some own → own.req.keyID ≠ c.args.keyID

/-- The step removes no row that is pending. -/
def Spares (s s' : State) : Prop :=
  ∀ k row, (s.shared.key k).row = some row → row.status = .pending → (s'.shared.key k).row ≠ none

/-- A step that spares pending rows leaves the key of a handler that waits for its call as it
is. -/
lemma CallsOpen.key_eq (h : CallsOpen s) (hs : Reaches env ok s)
    (hstep : step env s (p, a) = some s') (hspares : Spares s s')
    (hrun : (s.procs q).running = some own) :
    s'.shared.key own.req.keyID = s.shared.key own.req.keyID := by
  obtain ⟨⟨row, hrow, hpending⟩, -⟩ := h.key q own hrun
  cases keyChange_of_step hs hstep own.req.keyID with
  | same hkey => exact hkey
  | claim _ _ _ _ hopen =>
    have := hopen.not_counts hrow
    rw [hpending] at this
    cases this
  | complete _ hpr hphase hk =>
    exact absurd hk.symm (h.apart p _ _ hpr (by rw [hphase]; rfl) q own hrun)
  | expire _ _ _ _ hkey => exact absurd (congrArg KeyState.row hkey) (hspares _ row hrow hpending)

/-- A `Complete` that has updated its row after a step had done so before it or does so now. -/
lemma updated_of_step (hstep : step env s (p, a) = some s') {c : Completion} {caller : Caller}
    (hc : s'.procs q = .completing c caller) (hupdated : c.phase.updated = true) :
    ∃ c₀, s.procs q = .completing c₀ caller ∧ c.args = c₀.args ∧
      (c₀.phase.updated = true ∨ q = p ∧ a = .update) := by
  by_cases hq : q = p
  · subst hq
    have hrule := Rule.of_step hstep
    rw [hc] at hrule
    obtain ⟨c₀, hp, hargs, hor⟩ := hrule.updated hupdated
    exact ⟨c₀, hp, hargs, hor.imp_right fun h => ⟨rfl, h⟩⟩
  · rw [Interleave.step_procs_of_ne hstep hq] at hc
    exact ⟨c, hc, rfl, .inl hupdated⟩

/-- A claim that is about to commit holds its key, so no `Complete` has updated it. -/
lemma claiming_apart (hs : Reaches env ok s) {verdict : Verdict}
    (hp : s.procs p = .handler (.commit tx verdict)) {c : Completion} {caller : Caller}
    (hq : s.procs q = .completing c caller) (hupdated : c.phase.updated = true) :
    tx.req.keyID ≠ c.args.keyID := by
  intro hk
  obtain ⟨row₀, hopen, -⟩ := (decided_of_reaches hs hp).openClaim
  have hcomp := (held_of_reaches hs).2 q
  rw [hq] at hcomp
  have hlock := CompletePhase.Held.key hcomp hupdated
  rw [← hk] at hlock
  obtain rfl := Locks.holder_unique hopen.key hlock
  rw [hp] at hq
  cases hq

/-- **One step keeps the keys of awaited calls open.** -/
lemma CallsOpen.step (h : CallsOpen s) (hs : Reaches env ok s)
    (hok : CompletesAfterCalls s (p, a)) (hstep : step env s (p, a) = some s')
    (hspares : Spares s s') : CallsOpen s' := by
  refine ⟨fun q own hq => ?_, fun p' c caller hc hupdated q own hq => ?_⟩
  · rcases running_of_step hstep hq with hq | ⟨-, hwins⟩
    · rw [h.key_eq hs hstep hspares hq]
      exact h.key q own hq
    · obtain ⟨⟨row, hrow, hpending, -⟩, hlast⟩ := hwins.key hs
      exact ⟨⟨row, hrow, hpending⟩, hlast⟩
  · obtain ⟨c₀, hp', hargs, hor⟩ := updated_of_step hstep hc hupdated
    rw [hargs]
    rcases running_of_step hstep hq with hq | ⟨-, tx, observed, hp, -, rfl⟩
    · rcases hor with hupd | ⟨rfl, rfl⟩
      · exact h.apart p' c₀ caller hp' hupd q own hq
      · exact hok rfl c₀ caller hp' q own hq
    · rcases hor with hupd | ⟨rfl, -⟩
      · exact claiming_apart hs hp hp' hupd
      · rw [hp] at hp'
        cases hp'

/-- One handler at a time waits for a call for a key. -/
lemma CallsOpen.running_unique (h : CallsOpen s) (hs : Reaches env ok s) {own' : Owned}
    (hp : (s.procs p).running = some own) (hq : (s.procs q).running = some own')
    (hk : own'.req.keyID = own.req.keyID) : q = p := by
  have hid : own'.intentID = own.intentID := by
    have hlast := (h.key q own' hq).2
    rw [hk, (h.key p own hp).2] at hlast
    exact (Option.some.inj hlast).symm
  have hdrawn := (callInv_of_reaches hs q).owned own' (Proc.owned_of_running hq)
  rw [hid, (callInv_of_reaches hs p).owned own (Proc.owned_of_running hp)] at hdrawn
  exact (Option.some.inj hdrawn).symm

lemma callsOpen_init : CallsOpen init := by
  refine ⟨fun q own h => ?_, fun p c caller h => ?_⟩
  · cases h
  · cases h

/-! ## Runs of a few processes -/

/-- Of a few processes none waits for its call when a key is updated, and the others do
nothing. -/
def quiet (pids : List Pid) (s : State) (ia : Pid × Action) : Bool :=
  decide (ia.1 ∈ pids) &&
    match ia.2 with
    | .update => pids.all fun q => (s.procs q).running.isNone
    | _ => true

lemma mem_of_quiet {pids : List Pid} {ia : Pid × Action} (h : quiet pids s ia = true) :
    ia.1 ∈ pids := by
  simp only [quiet, Bool.and_eq_true, decide_eq_true_eq] at h
  exact h.1

/-- The check is enough when only these processes act. -/
lemma CompletesAfterCalls.of_quiet {pids : List Pid} (hmem : ∀ s ia, ok s ia → ia.1 ∈ pids)
    (h : Reaches env ok s) {ia : Pid × Action} (hok : quiet pids s ia = true) :
    CompletesAfterCalls s ia := by
  intro ha c caller _ q own hq
  simp only [quiet, Bool.and_eq_true] at hok
  have hall := hok.2
  rw [ha] at hall
  by_cases hqp : q ∈ pids
  · have hnone := List.all_eq_true.mp hall q hqp
    rw [hq] at hnone
    cases hnone
  · rw [Interleave.procs_of_not_mem hmem h hqp] at hq
    cases hq

end Idemio
