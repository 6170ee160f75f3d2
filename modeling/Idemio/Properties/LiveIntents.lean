import Idemio.System.Atomic

set_option relaxedAutoImplicit false
set_option autoImplicit false

/-!
# Live intents

Status and liveness live in two tables that no constraint ties together. The tie is kept by
the transactions: in every reachable state a key whose write happened or may still happen has
one live intent, a key whose write did not happen has none, and each attempt has its intent.

## Main results

* `Idemio.live_intents` — the correspondence, and that failing an attempt voids its intent.
-/

namespace Idemio

open Transition

variable {env : Env} {s s' : State} {p : Pid} {a : Action}

/-- A key that has an intent has a row. -/
lemma row_of_mem_intents (h : Reaches env NoRetention s) {i : IntentRow}
    (hi : i ∈ s.shared.db.intents) : ∃ row, s.shared.db.keys.lookup i.keyID = some row := by
  have hmem : i ∈ (s.shared.key i.keyID).intents := List.mem_filter.mpr ⟨hi, by simp⟩
  cases hrow : s.shared.db.keys.lookup i.keyID with
  | some row => exact ⟨row, rfl⟩
  | none =>
    rw [(sound_of_reaches h _).absent hrow] at hmem
    cases hmem

/-- A live intent belongs to a key whose write happened or may still happen. -/
lemma counts_of_live (h : Reaches env NoRetention s) {i : IntentRow}
    (hi : i ∈ s.shared.db.intents) (hlive : i.live = true) :
    ∃ row, s.shared.db.keys.lookup i.keyID = some row ∧ row.status.counts = true := by
  obtain ⟨row, hrow⟩ := row_of_mem_intents h hi
  refine ⟨row, hrow, ?_⟩
  by_contra hcounts
  have hdead := (sound_of_reaches h i.keyID).dead row hrow (by simpa using hcounts)
  have hmem : i ∈ liveOf (s.shared.key i.keyID).intents :=
    List.mem_filter.mpr ⟨List.mem_filter.mpr ⟨hi, by simp⟩, hlive⟩
  rw [hdead] at hmem
  cases hmem

/-- The intents of a key have distinct identifiers. -/
lemma Ids.nodup_intentsOf {sh : Shared} (hids : Ids sh) (k : KeyID) :
    ((sh.db.intentsOf k).map (·.intentID)).Nodup :=
  hids.nodup.sublist (List.filter_sublist.map _)

/-- A step that fails an open attempt voids the intent of that attempt and no other. -/
lemma voids_last_of_failed (h : Reaches env NoRetention s)
    (hstep : step env s (p, a) = some s') {k : KeyID} {old row : KeyRow}
    (hold : s.shared.db.keys.lookup k = some old) (hpending : old.status = .pending)
    (hrow : s'.shared.db.keys.lookup k = some row) (hfailed : row.status = .failed) :
    ∃ older i now, s.shared.db.intentsOf k = older ++ [i] ∧ i.live = true ∧
      older.length + 1 = old.attemptCount ∧
      s'.shared.db.intentsOf k = older ++ [{ i with voidedAt := some now }] := by
  have hold : (s.shared.key k).row = some old := hold
  have hrow : (s'.shared.key k).row = some row := hrow
  have hs := sound_of_reaches h k
  cases keyChange_of_step h hstep k with
  | same hkey =>
    rw [hkey, hold, Option.some.injEq] at hrow
    rw [← hrow, hpending] at hfailed
    cases hfailed
  | claim _ _ _ _ hopen =>
    have hfree := hopen.not_counts hold
    rw [hpending] at hfree
    cases hfree
  | @complete c caller now old' row' voided _ _ _ _ hold' hcomplete hvoided hkey =>
    obtain rfl : old = old' := Option.some.inj (hold.symm.trans hold')
    obtain rfl : row' = row := by simpa [hkey] using hrow
    obtain ⟨-, rfl⟩ := completeKey_eq_some.mp hcomplete
    rw [Voids, if_pos hfailed] at hvoided
    have hcounts : old.status.counts = true := by rw [hpending]; rfl
    rw [KeyState.eq_mk hold] at hs
    obtain ⟨i, hlive, -⟩ := hs.live old rfl hcounts
    obtain ⟨older, j, heq, rfl, hvoid⟩ := hs.voidLatest now hcounts
      ((held_of_reaches h).1.nodup_intentsOf k) hvoided
    refine ⟨older, j, now, heq, hvoided.2.1, ?_, ?_⟩
    · have hcount := hs.count old rfl
      rw [heq] at hcount
      simpa using hcount.symm
    · have : (s'.shared.key k).intents = _ := congrArg KeyState.intents hkey
      rw [← hvoid]
      exact this
  | expire _ hpr => exact absurd hpr (ne_expire h)

/-- **Live intents.** Without retention, in every state that any interleaving of claims and
completions reaches: a pending, done or indeterminate key has exactly one live intent, a
failed or rejected key has none, every intent has its key row, and a key has as many intents
as attempts. When a step fails an open attempt, it voids exactly the intent of that attempt. -/
theorem live_intents (h : Reaches env NoRetention s) :
    (∀ k row, s.shared.db.keys.lookup k = some row →
      (row.status = .pending ∨ row.status = .done ∨ row.status = .indeterminate →
        ∃ i, (s.shared.db.intentsOf k).filter (·.voidedAt.isNone) = [i]) ∧
      (row.status = .failed ∨ row.status = .rejected →
        (s.shared.db.intentsOf k).filter (·.voidedAt.isNone) = []) ∧
      row.attemptCount = (s.shared.db.intentsOf k).length) ∧
    (∀ i ∈ s.shared.db.intents, ∃ row, s.shared.db.keys.lookup i.keyID = some row) ∧
    (∀ p a s' k old row, step env s (p, a) = some s' →
      s.shared.db.keys.lookup k = some old → old.status = .pending →
      s'.shared.db.keys.lookup k = some row → row.status = .failed →
      ∃ older i now, s.shared.db.intentsOf k = older ++ [i] ∧ i.live = true ∧
        older.length + 1 = old.attemptCount ∧
        s'.shared.db.intentsOf k = older ++ [{ i with voidedAt := some now }]) := by
  refine ⟨fun k row hrow => ?_, fun i hi => row_of_mem_intents h hi, ?_⟩
  · have hs := sound_of_reaches h k
    refine ⟨fun hstatus => ?_, fun hstatus => ?_, hs.count row hrow⟩
    · obtain ⟨i, hlive, -⟩ := hs.live row hrow (by rcases hstatus with h | h | h <;> rw [h] <;> rfl)
      exact ⟨i, hlive⟩
    · exact hs.dead row hrow (by rcases hstatus with h | h <;> rw [h] <;> rfl)
  · intro p a s' k old row hstep hold hpending hrow hfailed
    exact voids_last_of_failed h hstep hold hpending hrow hfailed

/-- A key was claimed, and its call did not get through: the step that fails the attempt voids its
intent, and the key has no live one. It was then claimed again: the key is pending, and of its two
intents one is live. -/
theorem live_intents_claimed : ∃ s s' s'', Reaches Env.small NoRetention s ∧
    step Env.small s (0, .commit .ok) = some s' ∧ Reaches Env.small NoRetention s'' ∧
    (∃ older i now, s.shared.db.intentsOf ⟨"a", keyA⟩ = older ++ [i] ∧ i.live = true ∧
      older.length + 1 = 1 ∧
      s'.shared.db.intentsOf ⟨"a", keyA⟩ = older ++ [{ i with voidedAt := some now }]) ∧
    (s'.shared.db.intentsOf ⟨"a", keyA⟩).filter (·.voidedAt.isNone) = [] ∧
    (∃ row, s''.shared.db.keys.lookup ⟨"a", keyA⟩ = some row ∧ row.status = .pending ∧
      row.attemptCount = 2 ∧ (s''.shared.db.intentsOf ⟨"a", keyA⟩).length = 2 ∧
      ∃ i, (s''.shared.db.intentsOf ⟨"a", keyA⟩).filter (·.voidedAt.isNone) = [i]) ∧
    ∀ i ∈ s''.shared.db.intents, ∃ row, s''.shared.db.keys.lookup i.keyID = some row := by
  -- up to the commit that fails the attempt, and what that step and the next claim lead to
  obtain ⟨s, hrun, hs⟩ := exists_run_of_exec (step Env.small) NoRetention init
    ( insertSteps 0 (.small .replace true) (.small "a" keyA) 5 [] ++
      [(0, .commit .ok), (0, .call), (0, .lose), (0, .ret ⟨.failed, [], ""⟩), (0, .place true),
        (0, .begin 6), (0, .update), (0, .void (some (.small 1 .replace "a" keyA 5)))])
    (fun s => (s.shared.db.keys.lookup ⟨"a", keyA⟩).any fun old =>
      old.status = .pending && old.attemptCount = 1 &&
      (step Env.small s (0, .commit .ok)).any fun s' =>
        ((s'.shared.db.keys.lookup ⟨"a", keyA⟩).any fun row => row.status = .failed) &&
        ((exec (step Env.small) NoRetention s'
          (reclaimSteps 1 (.small .replace true) (.small "a" keyA) 8 [] ++
            [(1, .commit .ok)])).any fun s'' =>
          (s''.shared.db.keys.lookup ⟨"a", keyA⟩).any fun row =>
            row.status = .pending && row.attemptCount = 2)) (by decide +kernel)
  have hreach : Reaches Env.small NoRetention s := ⟨_, hrun⟩
  simp only [Option.any_eq_true, Bool.and_eq_true, decide_eq_true_eq] at hs
  obtain ⟨old, hold, ⟨hpending, hcount⟩, s', hstep, ⟨row, hrow, hfailed⟩, s'', hexec,
    row'', hrow'', hpending'', hcount''⟩ := hs
  have hcommit : NoRetention s (0, .commit .ok) := rfl
  have hreach' : Reaches Env.small NoRetention s' := hreach.snoc hcommit hstep
  have hreach'' : Reaches Env.small NoRetention s'' := hreach'.trans ⟨_, run_of_exec hexec⟩
  obtain ⟨hkeys'', hrows'', -⟩ := live_intents hreach''
  obtain ⟨hlive'', -, hlength''⟩ := hkeys'' _ _ hrow''
  have hvoids := (live_intents hreach).2.2 _ _ _ _ _ _ hstep hold hpending hrow hfailed
  rw [hcount] at hvoids
  exact ⟨s, s', s'', hreach, hstep, hreach'', hvoids,
    ((live_intents hreach').1 _ _ hrow).2.1 (.inl hfailed),
    ⟨row'', hrow'', hpending'', hcount'', hlength''.symm.trans hcount'', hlive'' (.inl hpending'')⟩,
    hrows''⟩

end Idemio
