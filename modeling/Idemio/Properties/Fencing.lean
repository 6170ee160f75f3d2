import Idemio.System.Atomic

set_option relaxedAutoImplicit false
set_option autoImplicit false

/-!
# Completions and attempts

A `Complete` is issued on behalf of an attempt, by the handler that won it or by a sweep that
selected the key while it was at that attempt. Its only guard is that the row is pending, and a
re-claimed row is pending again: a `Complete` that is still outstanding when its key is
re-claimed settles the new attempt. This happens when a `Complete` commits and its caller sees
an error, because `persistOutcome` then issues it once more.

## Main definitions

* `Idemio.Proc.owes` — the keys, with their attempts, that a process may still complete.
* `Idemio.UpdatesFenced` — no `UPDATE` of a `Complete` runs while its key is open at a later
  attempt.
* `Idemio.ReclaimsClear` — no key is re-claimed while a `Complete` of it is outstanding.

## Main results

* `Idemio.stale_complete_takes_effect` — a run in which a retried `Complete` of the first
  attempt fails the second one and voids its intent.
* `Idemio.completions_fenced` — under `UpdatesFenced` a `Complete` only changes a key that is
  not past its own attempt.
* `Idemio.completions_of_reclaimsClear` — so it does under `ReclaimsClear`.
-/

namespace Idemio

open Transition

/-- The stale keys that are left for the sweep that issued a `Complete`. -/
def Caller.owes : Caller → List (KeyID × Nat)
  | .handler _ _ => []
  | .sweep todo => todo.map fun c => (c.keyID, c.attempt)

/-- The keys that a process may still complete, each with the attempt it does so for. -/
def Proc.owes : Proc → List (KeyID × Nat)
  | .handler (.execute own) => [(own.req.keyID, own.attempt)]
  | .handler (.calling own) => [(own.req.keyID, own.attempt)]
  | .handler (.place own _) => [(own.req.keyID, own.attempt)]
  | .sweep (.batch todo) => todo.map fun c => (c.keyID, c.attempt)
  | .sweep (.place c _ todo) => (c.keyID, c.attempt) :: todo.map fun c => (c.keyID, c.attempt)
  | .completing c caller => (c.args.keyID, c.attempt) :: caller.owes
  | _ => []

/-- A re-claim commits only while no process may still complete its key. -/
def ReclaimsClear : Assumption := fun s ia =>
  ia.2.commits = true → ∀ tx verdict, s.procs ia.1 = .handler (.commit tx verdict) →
    s.shared.db.keys.lookup tx.req.keyID ≠ none →
    ∀ q n, (tx.req.keyID, n) ∉ (s.procs q).owes

/-- Every key that a process may still complete is at most at the attempt it does so for. -/
def Fenced (sh : Shared) (pr : Proc) : Prop :=
  ∀ k n, (k, n) ∈ pr.owes → 1 ≤ n ∧
    ∀ row, sh.db.keys.lookup k = some row → row.attemptCount ≤ n

variable {env : Env} {p q : Pid} {sh sh' : Shared} {pr pr' : Proc} {a : Action} {s s' : State}
  {ok : Assumption} {k : KeyID} {n : Nat}

/-- A step that does not re-claim a key leaves the bound on its attempts. -/
lemma KeyChange.attempts (h : KeyChange env p sh pr a k sh') (hn : 1 ≤ n)
    (hle : ∀ row, sh.db.keys.lookup k = some row → row.attemptCount ≤ n)
    (hclear : a.commits = true → ∀ tx verdict, pr = .handler (.commit tx verdict) →
      tx.req.keyID = k → sh.db.keys.lookup k = none) :
    ∀ row, sh'.db.keys.lookup k = some row → row.attemptCount ≤ n := by
  intro row hrow
  have hnew := fun {st : KeyState} (heq : sh'.key k = st) =>
    (congrArg KeyState.row heq).symm.trans hrow
  cases h with
  | same hkey => exact hle row (hnew hkey)
  | claim ha hpr _ hk hopen hverdict _ hkey =>
    obtain rfl := Option.some.inj (hnew hkey)
    rw [hverdict.keeps.2.1, hopen.attemptCount]
    have hnone : (sh.key k).row = none := hclear ha _ _ hpr hk
    rw [hnone]
    exact hn
  | @complete c caller now old _ _ _ _ _ _ hold hcomplete _ hkey =>
    obtain rfl := Option.some.inj (hnew hkey)
    obtain ⟨-, rfl⟩ := completeKey_eq_some.mp hcomplete
    exact hle old hold
  | expire _ _ _ _ hkey => cases hnew hkey

/-- What a process owes after a step it owed before, or it has just claimed the key or selected
it as stale. -/
lemma Rule.owes (h : Rule env p sh pr a sh' pr') (hmem : (k, n) ∈ pr'.owes) :
    (k, n) ∈ pr.owes ∨
    (∃ tx observed, pr = .handler (.commit tx (.claimed observed)) ∧ tx.req.keyID = k ∧
      tx.row.attemptCount = n ∧ sh' = sh.applyClaim p tx (.claimed observed)) ∨
    (sh' = sh ∧ ∃ row, sh.db.keys.lookup k = some row ∧ row.attemptCount = n) := by
  cases h with
  | claimed =>
    obtain ⟨rfl, rfl⟩ := Prod.mk.inj (List.mem_singleton.mp hmem)
    exact .inr (.inl ⟨_, _, rfl, rfl, rfl, rfl⟩)
  | sweep hrows =>
    obtain ⟨c, hc, heq⟩ := List.mem_map.mp hmem
    obtain ⟨e, he, rfl⟩ := List.mem_map.mp hc
    obtain ⟨rfl, rfl⟩ := Prod.mk.inj heq
    exact .inr (.inr ⟨rfl, e.2, (hrows.found e he).1, rfl⟩)
  | @complete c c' caller _ _ hc =>
    obtain ⟨hargs, hattempt, -⟩ := hc.keeps
    change (k, n) ∈ (c'.args.keyID, c'.attempt) :: caller.owes at hmem
    rw [hargs, hattempt] at hmem
    exact .inl hmem
  | completedStale | skip => exact .inl (List.mem_cons_of_mem _ hmem)
  | land | lose | call | ret | place | resolve | placeStale => exact .inl hmem
  | _ => cases hmem

/-- **The fences hold** in every run in which keys are re-claimed only while no `Complete` of
them is outstanding.

**Proof sketch.** A process comes to owe a completion when it claims a key or selects it as
stale, and then for the attempt that the row counts. The count of a row rises only when it is
re-claimed, and then nobody owes a completion of the key. -/
theorem fenced_of_reaches (h : Reaches env ReclaimsClear s) (p : Pid) :
    Fenced s.shared (s.procs p) := by
  refine Interleave.invariant_procs (P := fun _ sh pr => Fenced sh pr) ?_ ?_ ?_ h p
  · intro p k n hmem
    cases hmem
  · intro s p a sh' pr' hs hf hok hact k n hmem
    have hstep := Interleave.step_eq_some.mpr ⟨sh', pr', hact, rfl⟩
    rcases (rule_of_act hact).owes hmem with hmem | ⟨tx, observed, hpr, rfl, rfl, rfl⟩ |
      ⟨rfl, row, hrow, rfl⟩
    · obtain ⟨hn, hle⟩ := hf p k n hmem
      refine ⟨hn, (keyChange_of_step hs hstep k).attempts hn hle ?_⟩
      intro _ tx verdict hpr
      rw [hpr] at hmem
      cases hmem
    · have hrow : (s.shared.applyClaim p tx (.claimed observed)).db.keys.lookup tx.req.keyID =
          some tx.row := AList.lookup_insert ..
      refine ⟨attemptCount_pos (key_reachable (hs.snoc hok hstep) _) hrow, fun row' hrow' => ?_⟩
      rw [Option.some.inj (hrow.symm.trans hrow')]
    · refine ⟨attemptCount_pos (key_reachable hs k) hrow, fun row' hrow' => ?_⟩
      rw [Option.some.inj (hrow.symm.trans hrow')]
  · intro s p a sh' pr' q _ hs hf hok hact k n hmem
    have hstep := Interleave.step_eq_some.mpr ⟨sh', pr', hact, rfl⟩
    obtain ⟨hn, hle⟩ := hf q k n hmem
    refine ⟨hn, (keyChange_of_step hs hstep k).attempts hn hle ?_⟩
    rintro ha tx verdict hpr rfl
    by_contra hne
    exact hok ha tx verdict hpr hne q n hmem

/-! ## Updates of later attempts -/

/-- The action is not the `UPDATE` of a `Complete` whose key is open at a later attempt. -/
def updateFenced (sh : Shared) : Proc → Action → Bool
  | .completing c _, .update =>
    (sh.db.keys.lookup c.args.keyID).all fun row =>
      row.status ≠ .pending || row.attemptCount ≤ c.attempt
  | _, _ => true

/-- The `UPDATE` of a `Complete` does not run while its key is open at a later attempt. -/
def UpdatesFenced : Assumption := fun s ia => updateFenced s.shared (s.procs ia.1) ia.2 = true

instance (s : State) (ia : Pid × Action) : Decidable (UpdatesFenced s ia) :=
  inferInstanceAs (Decidable (_ = _))

/-- If no key is re-claimed while a `Complete` of it is outstanding, no `UPDATE` of a `Complete`
finds its key open at a later attempt. -/
theorem updatesFenced_of_reclaimsClear (h : Reaches env ReclaimsClear s) (ia : Pid × Action) :
    UpdatesFenced s ia := by
  obtain ⟨p, a⟩ := ia
  have hf := fenced_of_reaches h p
  unfold UpdatesFenced updateFenced
  split
  · next hp _ =>
    dsimp only at hp
    rw [hp] at hf
    rw [Option.all_eq_true]
    intro row hrow
    have hle := (hf _ _ List.mem_cons_self).2 row hrow
    simp [hle]
  · rfl

/-- A `Complete` that has updated the row of its key has updated the row of its own attempt. -/
def CompletePhase.Fenced (sh : Shared) (c : Completion) : CompletePhase → Prop
  | .begin => True
  | .update _ => True
  | .void _ _ => ∃ old, sh.db.keys.lookup c.args.keyID = some old ∧ old.attemptCount ≤ c.attempt
  | .commit _ _ _ =>
    ∃ old, sh.db.keys.lookup c.args.keyID = some old ∧ old.attemptCount ≤ c.attempt

/-- What was said about the phases of a `Complete`, for a process. -/
def Updated (sh : Shared) : Proc → Prop
  | .completing c _ => c.phase.Fenced sh c
  | _ => True

/-- A `Complete` holds the row it has updated, so others leave it alone. -/
lemma Updated.stable (h : Updated sh pr) (hheld : Held env q sh pr) (R : Rely q sh sh') :
    Updated sh' pr := by
  cases pr with
  | completing c caller =>
    have hheld : c.phase.Held q sh c.args := hheld
    change c.phase.Fenced sh c at h
    change c.phase.Fenced sh' c
    cases hphase : c.phase with
    | begin | update => trivial
    | void | commit =>
      rw [hphase] at h hheld
      obtain ⟨old, hold, hle⟩ := h
      exact ⟨old, (R.keys _ hheld.1.key).1.trans hold, hle⟩
  | _ => trivial

/-- A step of a `Complete` under the condition. -/
lemma CompleteRule.fenced {c c' : Completion} (h : CompleteRule p sh c a sh' (some c'))
    (hok : a = .update → ∀ row, sh.db.keys.lookup c.args.keyID = some row →
      row.status = .pending → row.attemptCount ≤ c.attempt)
    (hf : c.phase.Fenced sh c) : c'.phase.Fenced sh' c' := by
  cases h with
  | begin => trivial
  | update hc hold hrow hfree =>
    have hle := hok rfl _ hold (completeKey_eq_some.mp hrow).1
    dsimp only [afterUpdate]
    split <;> exact ⟨_, hold, hle⟩
  | void hc hfound =>
    rw [hc] at hf
    exact hf
  | refused _ hr | unseen _ hr | fail hr =>
    rw [Completion.retry_eq_some hr]
    trivial

/-- Under the condition every `Complete` has updated the row of its own attempt. -/
lemma updated_of_reaches (h : Reaches env UpdatesFenced s) (p : Pid) :
    Updated s.shared (s.procs p) := by
  refine Interleave.invariant_procs (P := fun _ sh pr => Updated sh pr) ?_ ?_ ?_ h p
  · exact fun _ => trivial
  · intro s p a sh' pr' hs hf hok hact
    have hheld := (held_of_reaches hs).2 p
    have hf := hf p
    have hrule := rule_of_act hact
    generalize hpr : s.procs p = pr at hrule hheld hf
    cases hrule with
    | land | lose => exact hf.stable hheld (.of_frame (fun _ h => h) rfl fun _ h => h)
    | complete hc =>
      refine hc.fenced ?_ hf
      rintro rfl row hrow hpending
      simpa [UpdatesFenced, hpr, updateFenced, hrow, hpending] using hok
    | _ => trivial
  · intro s p a sh' pr' q hq hs hf _ hact
    obtain ⟨hids, hheld⟩ := held_of_reaches hs
    exact (hf q).stable (hheld q) (((rule_of_act hact).guarantee (hheld p) hids).rely hq)

/-- A `Complete` that has updated the row of its own attempt changes no other one. -/
lemma Updated.attemptCount_le {c : Completion} {caller : Caller} {row : KeyRow}
    (hf : Updated s.shared (s.procs p)) (h : Reaches env ok s)
    (hstep : step env s (p, a) = some s') (hp : s.procs p = .completing c caller)
    (hrow : s.shared.db.keys.lookup c.args.keyID = some row)
    (hchange : s'.shared.db.keys.lookup c.args.keyID ≠ some row ∨
      s'.shared.db.intentsOf c.args.keyID ≠ s.shared.db.intentsOf c.args.keyID) :
    row.attemptCount ≤ c.attempt := by
  cases keyChange_of_step h hstep c.args.keyID with
  | same hkey =>
    have hrow' : s'.shared.db.keys.lookup c.args.keyID = some row :=
      (congrArg KeyState.row hkey).trans hrow
    have hint : s'.shared.db.intentsOf c.args.keyID = s.shared.db.intentsOf c.args.keyID :=
      congrArg KeyState.intents hkey
    exact absurd hchange (by simp [hrow', hint])
  | claim _ hpr => simp [hp] at hpr
  | complete _ hpr hphase =>
    obtain ⟨rfl, -⟩ := Proc.completing.inj (hp.symm.trans hpr)
    rw [hp] at hf
    change c.phase.Fenced _ c at hf
    rw [hphase] at hf
    obtain ⟨old, hold, hle⟩ := hf
    rwa [Option.some.inj (hrow.symm.trans hold)]
  | expire _ hpr => simp [hp] at hpr

/-- **Completions are fenced** as long as no `UPDATE` of a `Complete` runs while its key is open
at a later attempt: in every run all of whose steps meet that condition, if a step of a
`Complete` on behalf of attempt `c.attempt` changes the row of its key or its intents, the row
does not count more attempts than that. -/
theorem completions_fenced (h : Reaches env UpdatesFenced s)
    (hstep : step env s (p, a) = some s') {c : Completion} {caller : Caller}
    (hp : s.procs p = .completing c caller) {row : KeyRow}
    (hrow : s.shared.db.keys.lookup c.args.keyID = some row)
    (hchange : s'.shared.db.keys.lookup c.args.keyID ≠ some row ∨
      s'.shared.db.intentsOf c.args.keyID ≠ s.shared.db.intentsOf c.args.keyID) :
    row.attemptCount ≤ c.attempt :=
  (updated_of_reaches h p).attemptCount_le h hstep hp hrow hchange

/-- A handler records the outcome of the only attempt, and its `Complete` takes effect. -/
theorem completions_fenced_first : ∃ s s' c caller row, Reaches Env.small UpdatesFenced s ∧
    step Env.small s (0, .commit .ok) = some s' ∧ s.procs 0 = .completing c caller ∧
    s.shared.db.keys.lookup c.args.keyID = some row ∧
    s'.shared.db.keys.lookup c.args.keyID ≠ some row ∧ row.attemptCount ≤ c.attempt := by
  obtain ⟨s, hrun, hs⟩ := exists_run_of_exec (step Env.small) UpdatesFenced init
    (
      insertSteps 0 (.small .replace true) (.small "a" keyA) 5 [] ++
      [(0, .commit .ok), (0, .call), (0, .land), (0, .ret ⟨.done, [7], ""⟩), (0, .place true),
        (0, .begin 6), (0, .update)])
    (fun s => (s.procs 0).completion.any fun c =>
      (s.shared.db.keys.lookup c.1.args.keyID).any fun row =>
        (step Env.small s (0, .commit .ok)).any fun s' =>
          s'.shared.db.keys.lookup c.1.args.keyID ≠ some row) (by decide +kernel)
  obtain ⟨⟨c, caller⟩, hp, hs⟩ := (Option.any_eq_true _ _).mp hs
  obtain ⟨row, hrow, hs⟩ := (Option.any_eq_true _ _).mp hs
  obtain ⟨s', hstep, hne⟩ := (Option.any_eq_true _ _).mp hs
  have hp := Proc.completion_eq_some.mp hp
  have hne := of_decide_eq_true hne
  exact ⟨s, s', c, caller, row, ⟨_, hrun⟩, hstep, hp, hrow, hne,
    completions_fenced ⟨_, hrun⟩ hstep hp hrow (.inl hne)⟩

/-- **Completions are fenced if re-claims are clear**: in every run in which keys are re-claimed
only while no process may still complete them, what a `Complete` changes is not past its own
attempt. This is a condition on when keys are re-claimed, and says nothing of attempts. -/
theorem completions_of_reclaimsClear (h : Reaches env ReclaimsClear s)
    (hstep : step env s (p, a) = some s') {c : Completion} {caller : Caller}
    (hp : s.procs p = .completing c caller) {row : KeyRow}
    (hrow : s.shared.db.keys.lookup c.args.keyID = some row)
    (hchange : s'.shared.db.keys.lookup c.args.keyID ≠ some row ∨
      s'.shared.db.intentsOf c.args.keyID ≠ s.shared.db.intentsOf c.args.keyID) :
    row.attemptCount ≤ c.attempt := by
  have hfenced : Reaches env UpdatesFenced s :=
    h.mono_of_reachable fun _ ia ht _ => updatesFenced_of_reclaimsClear ht ia
  exact (updated_of_reaches hfenced p).attemptCount_le h hstep hp hrow hchange

/-- **A `Complete` of an earlier attempt takes effect.** Handler `0` fails to reach the
downstream; its `Complete` commits, but it sees an error. Handler `1` re-claims the key and its
call is executed. Then handler `0` issues its `Complete` once more: the second attempt is
settled as failed and its intent is voided. -/
theorem stale_complete_takes_effect : ∃ s s' c caller row, Reaches Env.small NoRetention s ∧
    step Env.small s (0, .commit .ok) = some s' ∧ s.procs 0 = .completing c caller ∧
    s.shared.db.keys.lookup c.args.keyID = some row ∧ c.attempt < row.attemptCount ∧
    s'.shared.db.keys.lookup c.args.keyID ≠ some row ∧
    s'.shared.db.intentsOf c.args.keyID ≠ s.shared.db.intentsOf c.args.keyID := by
  obtain ⟨s, hrun, hs⟩ := exists_run_of_exec (step Env.small) NoRetention init
    (
      insertSteps 0 (.small .replace true) (.small "a" keyA) 5 [] ++
      [(0, .commit .ok), (0, .call), (0, .lose), (0, .ret ⟨.failed, [], ""⟩), (0, .place true),
        (0, .begin 6), (0, .update), (0, .void (some (.small 1 .replace "a" keyA 5))),
        (0, .commit .unseen)] ++
      reclaimSteps 1 (.small .replace true) (.small "a" keyA) 8 [] ++
      [(1, .commit .ok), (1, .call), (1, .land)] ++
      [(0, .begin 9), (0, .update), (0, .void (some (.small 2 .replace "a" keyA 8)))])
    (fun s => (s.procs 0).completion.any fun c =>
      (s.shared.db.keys.lookup c.1.args.keyID).any fun row =>
        (step Env.small s (0, .commit .ok)).any fun s' =>
          c.1.attempt < row.attemptCount ∧ s'.shared.db.keys.lookup c.1.args.keyID ≠ some row ∧
            s'.shared.db.intentsOf c.1.args.keyID ≠ s.shared.db.intentsOf c.1.args.keyID)
    (by decide +kernel)
  obtain ⟨⟨c, caller⟩, hp, hs⟩ := (Option.any_eq_true _ _).mp hs
  obtain ⟨row, hrow, hs⟩ := (Option.any_eq_true _ _).mp hs
  obtain ⟨s', hstep, hs⟩ := (Option.any_eq_true _ _).mp hs
  exact ⟨s, s', c, caller, row, ⟨_, hrun⟩, hstep, Proc.completion_eq_some.mp hp, hrow,
    of_decide_eq_true hs⟩

end Idemio
