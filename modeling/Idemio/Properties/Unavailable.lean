import Idemio.Properties.AtMostOnce
import Idemio.Properties.Finality

set_option relaxedAutoImplicit false
set_option autoImplicit false

/-!
# What `503` says

A `503` says that the write was provably not executed: no claim was made and nothing was sent.
Four paths end in it. A handler whose own call failed knows it. A handler that answers from a
failed record knows it of the time when it read the record. A handler that gave up waiting for
the resource, or for an earlier write of the same agent, has not looked at its key when it
answers, since the resource is locked before the key is claimed: if an earlier request with the
same key has executed the write, the answer is wrong.

## Main definitions

* `Idemio.Proc.answers` — the key for which a step answers `503` from something else than the
  outcome of its own call.
* `Idemio.AnswersFresh` — such steps are taken only while the key is free, or claimed with no
  call made.

## Main results

* `Idemio.resource_busy_after_execution` — a run in which a write is executed and its retry is
  answered with `503`.
* `Idemio.unavailable_truthful` — under `AnswersFresh` a `503` is true when it is given.
-/

namespace Idemio

open Transition

/-- The key for which a step answers `503` without a failed call of its own. -/
def Proc.answers : Proc → Action → Option KeyID
  | .handler (.lock req _), .lockTimeout => some req.keyID
  | .handler (.wait req _), .waitExpired => some req.keyID
  | .handler (.existing record), .reply _ _ =>
    if record.status = .failed then some record.keyID else none
  | _, _ => none

/-- The key has no row, or is recorded as failed or rejected, or is claimed while no call that
could execute has been made. -/
def Unsent (sh : Shared) (k : KeyID) : Prop :=
  ∀ row, sh.db.keys.lookup k = some row → row.status.counts = true →
    row.status = .pending ∧ AllLost sh k

/-- A handler answers `503` on a timeout or from a record only while this is so of its key. -/
def AnswersFresh : Assumption := fun s ia =>
  ∀ k, (s.procs ia.1).answers ia.2 = some k → Unsent s.shared k

/-- The environment is reliable and no `503` is given for a key that may have been executed. -/
def Answering : Assumption := fun s ia => Reliable s ia ∧ AnswersFresh s ia

variable {env : Env} {p : Pid} {sh sh' : Shared} {pr pr' : Proc} {a : Action} {s s' : State}
  {k : Option KeyID} {r : Response}

/-- Only a failed outcome is answered with `503`. -/
lemma writeOutcome_unavailable {key : String} {intentID : Nat} {outcome : Outcome}
    (h : (writeOutcome key intentID outcome).code = 503) : outcome.disposition = .failed := by
  unfold writeOutcome at h
  cases hd : outcome.disposition <;> simp_all [writeJSON]

/-- Only a failed record is answered with `503`. -/
lemma writeExisting_unavailable {objects : Objects} {getOK : Bool} {wait : Int} {record : Record}
    (h : (writeExisting env objects getOK wait record).code = 503) : record.status = .failed := by
  rcases writeExisting_code env objects getOK wait record with hcode | ⟨hcode, -⟩
  · rw [h] at hcode
    revert hcode
    cases record.status <;> simp [Status.replayCode]
  · rw [h] at hcode
    cases hcode

/-- **The four paths to a `503`**: two timeouts, a failed record, and a failed call. -/
lemma Rule.unavailable (h : Rule env p sh pr a sh' pr') (hresp : pr' = .handler (.respond k r))
    (hpr : pr ≠ pr') (hcode : r.code = 503) :
    (∃ k', k = some k' ∧ sh' = sh ∧ pr.answers a = some k') ∨
    (∃ c own outcome, pr = .completing c (.handler own outcome) ∧
      outcome.disposition = .failed ∧ k = some own.req.keyID ∧ sh'.ledger = sh.ledger) := by
  cases h with
  | land | lose => exact absurd rfl hpr
  | refuse hadm =>
    cases hresp
    have := admission_error_code hadm
    rw [hcode] at this
    simp at this
  | lockTimeout =>
    cases hresp
    exact .inl ⟨_, rfl, rfl, rfl⟩
  | waitExpired =>
    cases hresp
    exact .inl ⟨_, rfl, rfl, rfl⟩
  | reply =>
    cases hresp
    exact .inl ⟨_, rfl, rfl, by simp [Proc.answers, writeExisting_unavailable hcode]⟩
  | completed hrule =>
    cases hresp
    exact .inr ⟨_, _, _, rfl, writeOutcome_unavailable hcode, rfl, by rw [hrule.frame]⟩
  | readGone | mismatch | rejected | claimRefused | claimUnseen | claimFail =>
    cases hresp
    cases hcode
  | _ => cases hresp

/-- If all calls of a key are lost it was never executed. -/
lemma AllLost.executions {k : KeyID} (h : AllLost sh k) (hl : Ledger sh) :
    sh.executions k = 0 := by
  by_contra hne
  obtain ⟨q, call, hcall, hk, hstate⟩ := (hl.executions_pos k).mp (Nat.pos_of_ne_zero hne)
  rw [h q call hcall hk] at hstate
  cases hstate

/-- A key of which no call was made that could execute was never executed. -/
lemma Once.executions_of_unsent {k : KeyID} (h : Once s k) (hl : Ledger s.shared)
    (hunsent : Unsent s.shared k) : s.shared.executions k = 0 := by
  by_contra hne
  obtain ⟨q, call, hcall, hk, hstate⟩ := (hl.executions_pos k).mp (Nat.pos_of_ne_zero hne)
  obtain ⟨⟨row, hrow, hcounts⟩, -⟩ := h.calls q call hcall hk (by simp [hstate])
  rw [(hunsent row hrow hcounts).2 q call hcall hk] at hstate
  cases hstate

/-- **A `503` is true when it is given**, in every run in which no handler answers `503` on a
timeout or from a record while its key may have been executed: when a step makes a handler
answer with `503`, no attempt for the key of its request has been executed. -/
theorem unavailable_truthful (h : Reaches env Answering s) (hok : Answering s (p, a))
    (hstep : step env s (p, a) = some s') (hresp : s'.procs p = .handler (.respond k r))
    (hnew : s.procs p ≠ s'.procs p) (hcode : r.code = 503) :
    ∃ k', k = some k' ∧ s'.shared.executions k' = 0 := by
  have hs : Reaches env Reliable s := h.mono fun _ _ hok => hok.1
  have hledger := ledger_of_reaches hs
  rcases (Rule.of_step hstep).unavailable hresp hnew hcode with
    ⟨k', rfl, hsh, hanswers⟩ | ⟨c, own, outcome, hp, hfailed, rfl, hsh⟩
  · refine ⟨k', rfl, ?_⟩
    rw [hsh]
    exact (once_of_reaches hs k').executions_of_unsent hledger (hok.2 k' hanswers)
  · -- the handler still owns its key, and its call is lost
    refine ⟨own.req.keyID, rfl, ?_⟩
    have hconc := concluding_of_reaches (hs.mono fun _ _ hok => hok.toHonest) p
    have hown : (s.procs p).owned = some own := by
      rw [hp]
      rfl
    rw [hp] at hconc
    have hlost : AllLost s.shared own.req.keyID := by
      intro q call hcall hk
      by_contra hne
      obtain rfl := (once_of_reaches hs _).call_unique hs hown rfl hcall hk hne
      exact hne (hconc.2.2 hfailed call hcall)
    rw [Shared.executions, hsh]
    exact hlost.executions hledger

/-- Handler `0` holds the resource; the request of handler `1`, whose key is new, times out. -/
theorem unavailable_truthful_new : ∃ s s' r, Reaches Env.small Answering s ∧
    step Env.small s (1, .lockTimeout) = some s' ∧
    s'.procs 1 = .handler (.respond (some ⟨"b", keyB⟩) r) ∧ r.code = 503 ∧
    s'.shared.executions ⟨"b", keyB⟩ = 0 := by
  obtain ⟨s, hrun, hs⟩ := exists_run_of_exec (step Env.small)
    (fun s ia => (reliable [0, 1] s ia && ((s.procs ia.1).answers ia.2).isNone) = true) init
    [(0, .start (.small .replace true) (.small "a" keyA)), (0, .begin 5), (0, .lock),
      (1, .start (.small .replace true) (.small "b" keyB)), (1, .begin 6)]
    (fun s => reliable [0, 1] s (1, .lockTimeout) && (s.shared.db.keys.lookup ⟨"b", keyB⟩).isNone &&
      (s.procs 1).answers .lockTimeout = some ⟨"b", keyB⟩ && (s.procs 1).response.isNone &&
      (step Env.small s (1, .lockTimeout)).any fun s' =>
        (s'.procs 1).response.any fun kr => kr.1 = some ⟨"b", keyB⟩ && kr.2.code = 503)
    (by decide +kernel)
  simp only [Bool.and_eq_true, decide_eq_true_eq, Option.isNone_iff_eq_none] at hs
  obtain ⟨⟨⟨⟨hreliable, hrow⟩, hanswers⟩, hnone⟩, hs⟩ := hs
  have hmem : ∀ (s : State) (ia : Pid × Action), (reliable [0, 1] s ia &&
      ((s.procs ia.1).answers ia.2).isNone) = true → ia.1 ∈ [0, 1] := by
    intro s ia h
    exact mem_of_reliable (Bool.and_eq_true_iff.mp h).1
  have hreach : Reaches Env.small Answering s := by
    refine Reachable.mono_of_reachable (fun t ia ht hok => ?_) ⟨_, hrun⟩
    simp only [Bool.and_eq_true, Option.isNone_iff_eq_none] at hok
    refine ⟨.of_pids hmem ht hok.1, fun k hk => ?_⟩
    rw [hok.2] at hk
    cases hk
  have hok : Answering s (1, .lockTimeout) := by
    refine ⟨.of_pids hmem ⟨_, hrun⟩ hreliable, fun k hk row hrow' => ?_⟩
    obtain rfl := Option.some.inj (hanswers.symm.trans hk)
    rw [hrow] at hrow'
    cases hrow'
  obtain ⟨s', hstep, hs⟩ := (Option.any_eq_true _ _).mp hs
  obtain ⟨⟨k, r⟩, hresp, hs⟩ := (Option.any_eq_true _ _).mp hs
  simp only [Bool.and_eq_true, decide_eq_true_eq] at hs
  obtain ⟨rfl, hcode⟩ := hs
  have hnew : s.procs 1 ≠ s'.procs 1 := by
    intro heq
    rw [heq, hresp] at hnone
    cases hnone
  have hresp := Proc.response_eq_some.mp hresp
  obtain ⟨k', hk, hzero⟩ := unavailable_truthful hreach hok hstep hresp hnew hcode
  obtain rfl := Option.some.inj hk
  exact ⟨s, s', r, hreach, hstep, hresp, hcode, hzero⟩

/-- **A `503` after an execution.** Handler `0` executes a write and records it as done. While
handler `1` holds the resource for another write, the first write is retried; handler `2` waits
for the resource in vain and answers `503`: no claim was made and nothing was sent. -/
theorem resource_busy_after_execution : ∃ s s', Reaches Env.small Reliable s ∧
    Reliable s (2, .lockTimeout) ∧ step Env.small s (2, .lockTimeout) = some s' ∧
    s'.procs 2 = .handler (.respond (some ⟨"a", keyA⟩) (writeNotExecuted keyA "resource_busy")) ∧
    (writeNotExecuted keyA "resource_busy").code = 503 ∧
    s'.shared.executions ⟨"a", keyA⟩ = 1 := by
  obtain ⟨s, hrun, hs⟩ := exists_run_of_exec (step Env.small)
    (fun s ia => reliable [0, 1, 2] s ia = true) init
    (
      insertSteps 0 (.small .replace true) (.small "a" keyA) 5 [] ++
      [(0, .commit .ok), (0, .call), (0, .land), (0, .ret ⟨.done, [1], ""⟩), (0, .place true),
        (0, .begin 6), (0, .update), (0, .commit .ok)] ++
      [(1, .start (.small .replace true) (.small "b" keyB)), (1, .begin 7), (1, .lock)] ++
      [(2, .start (.small .replace true) (.small "a" keyA)), (2, .begin 8)])
    (fun s => reliable [0, 1, 2] s (2, .lockTimeout) &&
      (step Env.small s (2, .lockTimeout)).any fun s' =>
        (s'.procs 2).response =
          some (some ⟨"a", keyA⟩, writeNotExecuted keyA "resource_busy") &&
        s'.shared.executions ⟨"a", keyA⟩ = 1) (by decide +kernel)
  simp only [Bool.and_eq_true] at hs
  obtain ⟨hreliable, hs⟩ := hs
  obtain ⟨s', hstep, hs⟩ := (Option.any_eq_true _ _).mp hs
  simp only [Bool.and_eq_true, decide_eq_true_eq] at hs
  exact ⟨s, s', reliable_of_pids ⟨_, hrun⟩,
    .of_pids (fun _ _ => mem_of_reliable) ⟨_, hrun⟩ hreliable, hstep,
    Proc.response_eq_some.mp hs.1, rfl, hs.2⟩

end Idemio
