import Idemio.System.Awaited

set_option relaxedAutoImplicit false
set_option autoImplicit false

/-!
# Retention and open keys

A retention pass deletes key rows by their `created_at` alone. A re-claim does not renew
`created_at`, and the `DELETE` has no guard on the status, neither when it selects its rows nor
when it comes to a row that was updated since. So a key that failed long ago and is retried now
can lose its row while its call is in flight, and a concurrent retry claims it afresh.

## Main definitions

* `Idemio.DeletesSettled` — no `DELETE` takes a row that is pending when it comes to it.
* `Idemio.SelectsSettled` — no pass selects a pending key, and no key is re-claimed while a pass
  that has selected it is under way.

## Main results

* `Idemio.open_key_expires` — a run in which the row of a key is deleted while its call is in
  flight, and the write is executed twice.
* `Idemio.retention_spares_open_keys` — under `DeletesSettled` no pending row is ever deleted,
  and a key whose call is awaited is not claimed again.
* `Idemio.open_keys_of_selectsSettled` — so it is under `SelectsSettled`.
-/

namespace Idemio

open Transition

/-- The next row that a `DELETE` comes to is one that it takes, and it is pending. -/
def Proc.deletesPending (sh : Shared) : Proc → Bool
  | .expire (.delete _ (e :: _) _) =>
    (sh.db.keys.lookup e.1).any fun row => row.tuple = e.2.tuple && row.status = .pending
  | _ => false

/-- No `DELETE` takes a row that is pending when it comes to it. -/
def DeletesSettled : Assumption := fun s ia =>
  ia.2 = .delete → (s.procs ia.1).deletesPending s.shared = false

/-- What a retention pass has deleted was not pending. -/
def GoneSettled : Proc → Prop
  | .expire (.delete _ _ gone) => ∀ e ∈ gone, e.2.status ≠ .pending
  | _ => True

variable {env : Env} {p q : Pid} {sh sh' : Shared} {pr pr' : Proc} {a : Action} {s s' : State}
  {ok : Assumption} {k : KeyID} {own : Owned}

/-- A pass adds to what it has deleted only what is not pending. -/
lemma Rule.goneSettled (h : Rule env p sh pr a sh' pr')
    (hok : a = .delete → pr.deletesPending sh = false) (hgone : GoneSettled pr) :
    GoneSettled pr' := by
  cases h with
  | land | lose | passOver => exact hgone
  | expire =>
    intro e he
    cases he
  | @delete now e todo gone row hrow htuple hfree =>
    intro e' he'
    rcases List.mem_append.mp he' with he' | he'
    · exact hgone e' he'
    · obtain rfl := List.mem_singleton.mp he'
      simpa [Proc.deletesPending, hrow, htuple] using hok rfl
  | _ => trivial

lemma goneSettled_of_reaches (hok : ∀ s ia, ok s ia → DeletesSettled s ia)
    (h : Reaches env ok s) (p : Pid) : GoneSettled (s.procs p) := by
  refine Interleave.invariant_procs (P := fun _ _ pr => GoneSettled pr) ?_ ?_ ?_ h p
  · exact fun _ => trivial
  · intro s p a sh' pr' _ hgone ha hact
    exact (rule_of_act hact).goneSettled (hok s (p, a) ha) (hgone p)
  · exact fun s p a sh' pr' q _ _ hgone _ _ => hgone q

/-- **No step removes a pending row**: what a pass commits it has locked since its `DELETE`. -/
lemma spares_of_step (hok : ∀ s ia, ok s ia → DeletesSettled s ia) (h : Reaches env ok s)
    (hstep : step env s (p, a) = some s') : Spares s s' := by
  intro k row hrow hpending
  cases keyChange_of_step h hstep k with
  | same hkey => simp [hkey, hrow]
  | claim _ _ _ _ _ _ _ hkey => simp [hkey]
  | complete _ _ _ _ _ _ _ hkey => simp [hkey]
  | expire _ hp hmem hold =>
    obtain rfl := Option.some.inj (hold.symm.trans hrow)
    have hgone := goneSettled_of_reaches hok h p
    rw [hp] at hgone
    exact absurd hpending (hgone _ hmem)

/-- If no step removes a pending row and keys are completed only after their calls have returned,
then the key of a handler whose call is under way is open and nobody else's. -/
lemma running_spared (hok : ∀ s ia, ok s ia → DeletesSettled s ia ∧ CompletesAfterCalls s ia)
    (h : Reaches env ok s) (hrun : (s.procs q).running = some own) :
    (∃ row, s.shared.db.keys.lookup own.req.keyID = some row ∧ row.status = .pending) ∧
      (∀ p tx verdict, s.procs p = .handler (.commit tx verdict) →
        tx.req.keyID ≠ own.req.keyID) ∧
      ∀ p own', (s.procs p).running = some own' → own'.req.keyID = own.req.keyID → p = q := by
  have hopen : CallsOpen s := by
    refine h.invariant (I := CallsOpen) callsOpen_init ?_
    rintro s ⟨p, a⟩ s' hs hI ha hstep
    exact hI.step hs (hok s (p, a) ha).2 hstep
      (spares_of_step (fun s ia ha => (hok s ia ha).1) hs hstep)
  obtain ⟨⟨row, hrow, hpending⟩, -⟩ := hopen.key q own hrun
  refine ⟨⟨row, hrow, hpending⟩, fun p tx verdict hp hk => ?_, fun p own' hp hk => ?_⟩
  · have hfree := (decided_of_reaches h hp).not_counts (hk ▸ hrow)
    rw [hpending] at hfree
    cases hfree
  · exact hopen.running_unique h hrun hp hk

/-- **Retention spares open keys**, in every run in which no `DELETE` takes a row that is pending
when it comes to it. No step removes a pending row. And if keys are completed only after their
calls have returned, then the key of a handler whose call is under way has a pending row, no
claim of it is about to commit, and no other handler has a call under way for it. -/
theorem retention_spares_open_keys (h : Reaches env DeletesSettled s) :
    (∀ p a s' k row, step env s (p, a) = some s' → s.shared.db.keys.lookup k = some row →
      s'.shared.db.keys.lookup k = none → row.status ≠ .pending) ∧
    (Reaches env (fun s ia => DeletesSettled s ia ∧ CompletesAfterCalls s ia) s →
      ∀ q own, (s.procs q).running = some own →
        (∃ row, s.shared.db.keys.lookup own.req.keyID = some row ∧ row.status = .pending) ∧
        (∀ p tx verdict, s.procs p = .handler (.commit tx verdict) →
          tx.req.keyID ≠ own.req.keyID) ∧
        ∀ p own', (s.procs p).running = some own' → own'.req.keyID = own.req.keyID → p = q) := by
  refine ⟨fun p a s' k row hstep hrow hnone hpending => ?_, fun h' q own hrun => ?_⟩
  · exact spares_of_step (fun _ _ => id) h hstep k row hrow hpending hnone
  · exact running_spared (fun _ _ => id) h' hrun

/-- The write of agent `a` has failed and is expired, while the write of agent `b` waits for its
call. -/
theorem retention_spares_open_keys_failed : ∃ s s' row own, Reaches Env.small DeletesSettled s ∧
    step Env.small s (2, .commit .ok) = some s' ∧
    s.shared.db.keys.lookup ⟨"a", keyA⟩ = some row ∧
    s'.shared.db.keys.lookup ⟨"a", keyA⟩ = none ∧ row.status ≠ .pending ∧
    (s.procs 1).running = some own ∧ own.req.keyID = ⟨"b", keyB⟩ ∧
    ∃ row', s.shared.db.keys.lookup ⟨"b", keyB⟩ = some row' ∧ row'.status = .pending := by
  obtain ⟨s, hrun, hs⟩ := exists_run_of_exec (step Env.small)
    (fun s ia => (quiet [0, 1, 2] s ia && !(s.procs ia.1).deletesPending s.shared) = true) init
    (
      insertSteps 0 (.small .append true) (.small "a" keyA) 5 [] ++
      [(0, .commit .ok), (0, .call), (0, .lose), (0, .ret ⟨.failed, [], ""⟩), (0, .place true),
        (0, .begin 6), (0, .update), (0, .void (some (.small 1 .append "a" keyA 5))),
        (0, .commit .ok)] ++
      insertSteps 1 (.small .append true) (.small "b" keyB) 107 [] ++
      [(1, .commit .ok), (1, .call)] ++
      [(2, .expire 108 [(⟨"a", keyA⟩, { KeyRow.small "a" 5 0 with
          status := .failed, completedAt := some 6 })]), (2, .delete)])
    (fun s => (step Env.small s (2, .commit .ok)).any fun s' =>
      (s.shared.db.keys.lookup ⟨"a", keyA⟩).isSome &&
      (s'.shared.db.keys.lookup ⟨"a", keyA⟩).isNone &&
      (s.procs 1).running.any fun own => own.req.keyID = ⟨"b", keyB⟩) (by decide +kernel)
  obtain ⟨s', hstep, hs⟩ := (Option.any_eq_true _ _).mp hs
  simp only [Bool.and_eq_true, Option.isNone_iff_eq_none] at hs
  obtain ⟨⟨hrow, hnone⟩, hs⟩ := hs
  obtain ⟨row, hrow⟩ := Option.isSome_iff_exists.mp hrow
  obtain ⟨own, hown, hk⟩ := (Option.any_eq_true _ _).mp hs
  have hk : own.req.keyID = ⟨"b", keyB⟩ := by simpa using hk
  have hboth : Reaches Env.small
      (fun s ia => DeletesSettled s ia ∧ CompletesAfterCalls s ia) s := by
    refine Reachable.mono_of_reachable (fun t ia ht hok => ?_) ⟨_, hrun⟩
    obtain ⟨hquiet, hdel⟩ := Bool.and_eq_true_iff.mp hok
    exact ⟨fun _ => by simpa using hdel,
      .of_quiet (fun _ _ hok => mem_of_quiet (Bool.and_eq_true_iff.mp hok).1) ht hquiet⟩
  have hreach : Reaches Env.small DeletesSettled s := hboth.mono fun _ _ hok => hok.1
  obtain ⟨hspares, hopen⟩ := retention_spares_open_keys hreach
  obtain ⟨⟨row', hrow', hpending⟩, -⟩ := hopen hboth 1 own hown
  exact ⟨s, s', row, own, hreach, hstep, hrow, hnone, hspares 2 _ s' _ row hstep hrow hnone, hown,
    hk, row', hk ▸ hrow', hpending⟩

/-- **A write is executed twice.** The first attempt of a write fails. Long after, handler `1`
re-claims the key and makes its call. A retention pass deletes the row by its age while that
call is in flight; handler `3` then claims the key afresh, and both calls execute. -/
theorem open_key_expires : ∃ s s' t row call as, Reaches Env.small ErrorsRollBack s ∧
    step Env.small s (2, .commit .ok) = some s' ∧
    s.shared.db.keys.lookup ⟨"a", keyA⟩ = some row ∧ row.status = .pending ∧
    s.shared.calls 1 = some call ∧ call.own.req.keyID = ⟨"a", keyA⟩ ∧ call.state = .sent ∧
    s'.shared.db.keys.lookup ⟨"a", keyA⟩ = none ∧
    Run (step Env.small) ErrorsRollBack s' as t ∧ t.shared.executions ⟨"a", keyA⟩ = 2 := by
  obtain ⟨s, hrun, hs⟩ := exists_run_of_exec (step Env.small) ErrorsRollBack init
    (
      insertSteps 0 (.small .append true) (.small "a" keyA) 5 [] ++
      [(0, .commit .ok), (0, .call), (0, .lose), (0, .ret ⟨.failed, [], ""⟩), (0, .place true),
        (0, .begin 6), (0, .update), (0, .void (some (.small 1 .append "a" keyA 5))),
        (0, .commit .ok)] ++
      reclaimSteps 1 (.small .append true) (.small "a" keyA) 107 [] ++
      [(1, .commit .ok), (1, .call)] ++
      [(2, .expire 108 [(⟨"a", keyA⟩, { KeyRow.small "a" 5 0 with
          attemptCount := 2, claimedAt := 107 })]), (2, .delete)])
    (fun s => (step Env.small s (2, .commit .ok)).any fun s' =>
      (s.shared.db.keys.lookup ⟨"a", keyA⟩).any fun row => (s.shared.calls 1).any fun call =>
        row.status = .pending && call.own.req.keyID = ⟨"a", keyA⟩ && call.state = .sent &&
        (s'.shared.db.keys.lookup ⟨"a", keyA⟩).isNone &&
        (exec (step Env.small) ErrorsRollBack s' (
          insertSteps 3 (.small .append true) (.small "a" keyA) 109
            [.small 2 .append "a" keyA 107] ++
          [(3, .commit .ok), (3, .call), (3, .land), (1, .land)])).any fun t =>
            t.shared.executions ⟨"a", keyA⟩ = 2) (by decide +kernel)
  obtain ⟨s', hstep, hs⟩ := (Option.any_eq_true _ _).mp hs
  obtain ⟨row, hrow, hs⟩ := (Option.any_eq_true _ _).mp hs
  obtain ⟨call, hcall, hs⟩ := (Option.any_eq_true _ _).mp hs
  simp only [Bool.and_eq_true, decide_eq_true_eq, Option.isNone_iff_eq_none] at hs
  obtain ⟨⟨⟨⟨hpending, hk⟩, hsent⟩, hnone⟩, hs⟩ := hs
  obtain ⟨t, ht, htwo⟩ := (Option.any_eq_true _ _).mp hs
  exact ⟨s, s', t, row, call, _, ⟨_, hrun⟩, hstep, hrow, hpending, hcall, hk, hsent, hnone,
    run_of_exec ht, by simpa using htwo⟩

/-! ## A condition on when keys are selected -/

/-- The keys that a retention pass has selected and not yet come to. -/
def Proc.expiring : Proc → List KeyID
  | .expire (.delete _ todo _) => todo.map Prod.fst
  | _ => []

/-- No pass selects a pending key, and no key is re-claimed while a pass that has selected it is
under way. -/
def SelectsSettled : Assumption := fun s ia =>
  (∀ now rows, ia.2 = .expire now rows → ∀ e ∈ rows, e.2.status ≠ .pending) ∧
  (ia.2.commits = true → ∀ tx verdict, s.procs ia.1 = .handler (.commit tx verdict) →
    ∀ q, tx.req.keyID ∉ (s.procs q).expiring)

/-- What a pass has selected it had selected before, or it does so now. -/
lemma Rule.expiring (h : Rule env p sh pr a sh' pr') (hk : k ∈ pr'.expiring) :
    k ∈ pr.expiring ∨ ∃ now rows, a = .expire now rows ∧ SelectExpired env sh.db now rows ∧
      k ∈ rows.map Prod.fst := by
  cases h with
  | land | lose => exact .inl hk
  | expire hrows => exact .inr ⟨_, _, rfl, hrows, hk⟩
  | passOver => exact .inl (List.mem_cons_of_mem _ hk)
  | delete => exact .inl (List.mem_cons_of_mem _ hk)
  | _ => cases hk

/-- A key that is not pending and is not claimed does not become pending. -/
lemma KeyChange.ne_pending (h : KeyChange env p sh pr a k sh')
    (hne : ∀ row, sh.db.keys.lookup k = some row → row.status ≠ .pending)
    (hclear : a.commits = true → ∀ tx verdict, pr = .handler (.commit tx verdict) →
      tx.req.keyID ≠ k) :
    ∀ row, sh'.db.keys.lookup k = some row → row.status ≠ .pending := by
  intro row hrow
  have hnew := fun {st : KeyState} (heq : sh'.key k = st) =>
    (congrArg KeyState.row heq).symm.trans hrow
  cases h with
  | same hkey => exact hne row (hnew hkey)
  | claim ha hpr _ hk => exact absurd hk (hclear ha _ _ hpr)
  | complete _ _ _ _ hold hcomplete =>
    exact absurd (completeKey_eq_some.mp hcomplete).1 (hne _ hold)
  | expire _ _ _ _ hkey => cases hnew hkey

/-- **Under `SelectsSettled` the keys that a pass has selected are not pending.** -/
lemma selected_settled (h : Reaches env SelectsSettled s) (q : Pid)
    (hk : k ∈ (s.procs q).expiring) :
    ∀ row, s.shared.db.keys.lookup k = some row → row.status ≠ .pending := by
  refine h.invariant (I := fun s => ∀ q, k ∈ (s.procs q).expiring →
    ∀ row, s.shared.db.keys.lookup k = some row → row.status ≠ .pending)
    (fun q hk => (by cases hk)) ?_ q hk
  rintro s ⟨p, a⟩ s' hs hI hok hstep q hk
  have hold : k ∈ (s.procs q).expiring ∨ ∃ now rows, a = .expire now rows ∧
      SelectExpired env s.shared.db now rows ∧ k ∈ rows.map Prod.fst := by
    by_cases hq : q = p
    · subst hq
      exact (Rule.of_step hstep).expiring hk
    · rw [Interleave.step_procs_of_ne hstep hq] at hk
      exact .inl hk
  have hchange := keyChange_of_step hs hstep k
  rcases hold with hold | ⟨now, rows, rfl, hrows, hmem⟩
  · refine hchange.ne_pending (hI q hold) fun ha tx verdict hp hkeq => ?_
    exact hok.2 ha tx verdict hp q (hkeq ▸ hold)
  · refine hchange.ne_pending (fun row hrow => ?_) fun ha => by cases ha
    obtain ⟨e, he, rfl⟩ := List.mem_map.mp hmem
    obtain rfl := Option.some.inj ((hrows.found e he).1.symm.trans hrow)
    exact hok.1 now rows rfl e he

/-- **`SelectsSettled` is enough** for `DeletesSettled`. -/
theorem deletesSettled_of_selectsSettled (h : Reaches env SelectsSettled s) (ia : Pid × Action) :
    DeletesSettled s ia := by
  intro _
  unfold Proc.deletesPending
  split
  · next now e todo gone hp =>
    refine (Option.any_eq_false _ _).mpr fun row hrow => ?_
    have hne := selected_settled h ia.1 (by simp [hp, Proc.expiring]) row hrow
    simp [hne]
  · rfl

/-- **Retention spares open keys if it selects settled ones**: in every run in which no pass selects
a pending key and no key is re-claimed while a pass that has selected it is under way, no step
removes a pending row; and if keys are completed only after their calls have returned, the key of a
handler whose call is under way is open and nobody else's. This is a condition on what the passes
select and when keys are re-claimed, and says nothing of what they delete. -/
theorem open_keys_of_selectsSettled (h : Reaches env SelectsSettled s) :
    (∀ p a s' k row, step env s (p, a) = some s' → s.shared.db.keys.lookup k = some row →
      s'.shared.db.keys.lookup k = none → row.status ≠ .pending) ∧
    (Reaches env (fun s ia => SelectsSettled s ia ∧ CompletesAfterCalls s ia) s →
      ∀ q own, (s.procs q).running = some own →
        (∃ row, s.shared.db.keys.lookup own.req.keyID = some row ∧ row.status = .pending) ∧
        (∀ p tx verdict, s.procs p = .handler (.commit tx verdict) →
          tx.req.keyID ≠ own.req.keyID) ∧
        ∀ p own', (s.procs p).running = some own' → own'.req.keyID = own.req.keyID → p = q) := by
  refine ⟨fun p a s' k row hstep hrow hnone hpending => ?_, fun h' q own hrun => ?_⟩
  · have hsettled : Reaches env DeletesSettled s :=
      h.mono_of_reachable fun _ ia ht _ => deletesSettled_of_selectsSettled ht ia
    exact spares_of_step (fun _ _ => id) hsettled hstep k row hrow hpending hnone
  · have hsettled : Reaches env (fun s ia => DeletesSettled s ia ∧ CompletesAfterCalls s ia) s :=
      h'.mono_of_reachable fun _ ia ht hok =>
        ⟨deletesSettled_of_selectsSettled (ht.mono fun _ _ hok => hok.1) ia, hok.2⟩
    exact running_spared (fun _ _ => id) hsettled hrun

end Idemio
