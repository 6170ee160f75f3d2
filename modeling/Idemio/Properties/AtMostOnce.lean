import Idemio.System.Calls

set_option relaxedAutoImplicit false
set_option autoImplicit false

/-!
# At most once

A write is executed downstream at most once, however handlers, sweeps and crashes interleave.
No single statement gives this: the primary key of `idempotency_keys` lets one handler in, the
re-claim lets another in only after a failure, and who records a failure must know that the
call will never execute.

## Main definitions

* `Idemio.Honest`, `Idemio.ReliableFor`, `Idemio.Reliable` — what the environment promises: apart
  from retention, for one key, and for all.
* `Idemio.Once` — the invariant, key by key: who owns the key, which call may execute, and what
  a sweep may count on.

## Main results

* `Idemio.Once.step`, `Idemio.once_of_reliableFor` — the invariant is kept by every step and so
  holds in every reachable state.
* `Idemio.at_most_once` — a key is not executed twice, and a failed or rejected key never.
-/

namespace Idemio

open Transition

/-! ## The environment -/

/-- The process is a sweep. -/
def Proc.isSweep : Proc → Bool
  | .sweep _ => true
  | .completing _ (.sweep _) => true
  | _ => false

/-- No handler owns a claim of the key, and no call for it is under way. -/
structure Abandoned (s : State) (k : KeyID) : Prop where
  owner : ∀ q own, (s.procs q).owned = some own → own.req.keyID ≠ k
  calls : ∀ q call, s.shared.calls q = some call → call.own.req.keyID = k → call.state ≠ .sent

/-- What the environment promises, retention apart. An error that a commit reports means that
nothing was committed; a call that is reported as failed did not and will not execute; one sweep
runs at a time and selects only keys whose handler has stopped and whose call has landed or is
lost; and the probes tell the truth. -/
structure Honest (s : State) (ia : Pid × Action) : Prop where
  seen : ErrorsRollBack s ia
  failed : ∀ outcome call, ia.2 = .ret outcome → outcome.disposition = .failed →
    s.shared.calls ia.1 = some call → call.state = .lost
  single : ∀ now rows, ia.2 = .sweep now rows → ∀ q, (s.procs q).isSweep = false
  abandoned : ∀ now rows, ia.2 = .sweep now rows → ∀ e ∈ rows, Abandoned s e.1
  truthful : ∀ answer c todo, ia.2 = .resolve answer →
    s.procs ia.1 = .sweep (.batch (c :: todo)) →
    (answer = .notExecuted → s.shared.executions c.keyID = 0) ∧
      ∀ result, answer = .executed result → 0 < s.shared.executions c.keyID

/-- For the key `k` it also promises that no retention pass removes its row. -/
structure ReliableFor (k : KeyID) (s : State) (ia : Pid × Action) : Prop extends Honest s ia where
  keepsRow : KeepsRow k s ia

/-- For all keys at once: no retention pass runs. -/
structure Reliable (s : State) (ia : Pid × Action) : Prop extends Honest s ia where
  noRetention : NoRetention s ia

variable {env : Env} {p q : Pid} {sh sh' : Shared} {pr pr' : Proc} {a : Action} {s s' : State}
  {ok : Assumption} {tx : ClaimTx} {own : Owned} {call : Call} {k : KeyID}

lemma noRetention_of_reliable (h : Reaches env Reliable s) : Reaches env NoRetention s :=
  h.mono fun _ _ hok => hok.noRetention

/-- What is reliable for all keys is so for each. -/
lemma reliableFor_of_reliable (h : Reaches env Reliable s) (k : KeyID) :
    Reaches env (ReliableFor k) s :=
  h.mono_of_reachable fun _ ia hs hok =>
    ⟨hok.toHonest, keepsRow_of_reaches (noRetention_of_reliable hs) k ia⟩

lemma ReliableFor.honest_reaches (h : Reaches env (ReliableFor k) s) : Reaches env Honest s :=
  h.mono fun _ _ hok => hok.toHonest

/-! ## Sweeps -/

/-- The keys that a sweep has selected and not yet completed. -/
def Proc.sweeping : Proc → List KeyID
  | .sweep (.batch todo) => todo.map (·.keyID)
  | .sweep (.place c _ todo) => c.keyID :: todo.map (·.keyID)
  | .completing c (.sweep todo) => c.args.keyID :: todo.map (·.keyID)
  | _ => []

/-- The key that a sweep is about to record as failed. -/
def Proc.failing : Proc → Option KeyID
  | .sweep (.place c outcome _) => if outcome.disposition = .failed then some c.keyID else none
  | .completing c (.sweep _) => if c.args.status = .failed then some c.args.keyID else none
  | _ => none

lemma Proc.isSweep_of_mem (h : k ∈ pr.sweeping) : pr.isSweep = true := by
  unfold Proc.sweeping at h
  split at h
  · rfl
  · rfl
  · rfl
  · cases h

lemma Proc.mem_of_failing (h : pr.failing = some k) : k ∈ pr.sweeping := by
  unfold Proc.failing at h
  split at h
  · split at h
    · cases h
      exact List.mem_cons_self
    · cases h
  · split at h
    · cases h
      exact List.mem_cons_self
    · cases h
  · cases h

/-- A sweep drops its keys one by one; it has selected them all at once. -/
lemma Rule.sweeping (h : Rule env p sh pr a sh' pr') :
    pr'.sweeping.Sublist pr.sweeping ∨ ∃ now rows, a = .sweep now rows ∧
      SelectStale env sh.db now rows ∧ pr'.sweeping = rows.map Prod.fst := by
  cases h with
  | land | lose | resolve | placeStale => exact .inl (List.Sublist.refl _)
  | @sweep now rows hrows =>
    refine .inr ⟨now, rows, rfl, hrows, ?_⟩
    simp [Proc.sweeping, staleKeys]
  | @complete c c' caller _ _ hrule =>
    cases caller with
    | handler => exact .inl (List.Sublist.refl _)
    | sweep todo =>
      simp only [Proc.sweeping, hrule.keeps.1]
      exact .inl (List.Sublist.refl _)
  | completedStale | skip => exact .inl (List.sublist_cons_self _ _)
  | _ => exact .inl (List.nil_sublist _)

/-- A sweep records a failure only after a probe found no execution. -/
lemma Rule.failing (h : Rule env p sh pr a sh' pr') (hk : pr'.failing = some k) :
    pr.failing = some k ∨ ∃ c todo, pr = .sweep (.batch (c :: todo)) ∧
      a = .resolve .notExecuted ∧ c.keyID = k := by
  cases h with
  | land | lose => exact .inl hk
  | @resolve c todo answer outcome hanswer =>
    simp only [Proc.failing] at hk
    split at hk
    · next hfailed =>
      cases answer <;> cases hanswer <;> cases hfailed
      exact .inr ⟨c, todo, rfl, rfl, Option.some.inj hk⟩
    · cases hk
  | @placeStale c outcome todo putOK =>
    refine .inl ?_
    simp only [Proc.failing, newCompletion] at hk ⊢
    cases hd : outcome.disposition <;> simp_all [statusFor]
  | @complete c c' caller _ _ hrule =>
    cases caller with
    | handler => cases hk
    | sweep todo =>
      simp only [Proc.failing, hrule.keeps.1] at hk
      exact .inl hk
  | _ => cases hk

/-- A process that sweeps after a step did so before or has just started. -/
lemma Rule.isSweep (h : Rule env p sh pr a sh' pr') (hsweep : pr'.isSweep = true) :
    pr.isSweep = true ∨ ∃ now rows, a = .sweep now rows := by
  cases h with
  | land | lose => exact .inl hsweep
  | sweep => exact .inr ⟨_, _, rfl⟩
  | @complete c c' caller =>
    cases caller with
    | handler => cases hsweep
    | sweep => exact .inl rfl
  | completedStale | skip | resolve | placeStale => exact .inl rfl
  | _ => cases hsweep

/-- One sweep runs at a time, and it has selected no key twice. -/
structure Sweeps (s : State) : Prop where
  single : ∀ p q, (s.procs p).isSweep = true → (s.procs q).isSweep = true → p = q
  nodup : ∀ p, (s.procs p).sweeping.Nodup

/-- Beside a process that is a sweep after its step no other one is. -/
lemma Sweeps.isSweep_of_ne (h : Sweeps s) (hok : Honest s (p, a))
    (hstep : step env s (p, a) = some s') (hp : (s'.procs p).isSweep = true) (hq : q ≠ p) :
    (s'.procs q).isSweep = false := by
  rw [Interleave.step_procs_of_ne hstep hq]
  rcases (Rule.of_step hstep).isSweep hp with hp | ⟨now, rows, rfl⟩
  · by_contra hsweep
    exact hq (h.single q p (by simpa using hsweep) hp)
  · exact hok.single now rows rfl q

lemma sweeps_of_reaches (h : Reaches env Honest s) : Sweeps s := by
  refine h.invariant (I := Sweeps) ⟨fun p q hp => (by cases hp), fun p => List.nodup_nil⟩ ?_
  rintro s ⟨p, a⟩ s' - hI hok hstep
  have hrule := Rule.of_step hstep
  have hsame := fun {q} => Interleave.step_procs_of_ne (j := q) hstep
  refine ⟨fun q₁ q₂ h₁ h₂ => ?_, fun q => ?_⟩
  · by_contra hne
    by_cases hq₁ : q₁ = p
    · subst hq₁
      rw [hI.isSweep_of_ne hok hstep h₁ (Ne.symm hne)] at h₂
      cases h₂
    · by_cases hq₂ : q₂ = p
      · subst hq₂
        rw [hI.isSweep_of_ne hok hstep h₂ hne] at h₁
        cases h₁
      · rw [hsame hq₁] at h₁
        rw [hsame hq₂] at h₂
        exact hne (hI.single q₁ q₂ h₁ h₂)
  · by_cases hq : q = p
    · subst hq
      rcases hrule.sweeping with hsub | ⟨now, rows, -, hrows, heq⟩
      · exact (hI.nodup q).sublist hsub
      · rw [heq]
        exact hrows.nodup
    · rw [hsame hq]
      exact hI.nodup q

/-! ## Outcomes -/

/-- A handler that reports a failure has lost its call, and completes its own key. -/
def Concluding (p : Pid) (sh : Shared) : Proc → Prop
  | .handler (.place _ outcome) => outcome.disposition = .failed →
      ∀ call, sh.calls p = some call → call.state = .lost
  | .completing c (.handler own outcome) => c.args.keyID = own.req.keyID ∧
      c.args.status = statusFor outcome.disposition ∧
      (outcome.disposition = .failed → ∀ call, sh.calls p = some call → call.state = .lost)
  | _ => True

/-- What is lost stays lost. -/
lemma Concluding.mono (h : Concluding p sh pr)
    (hcalls : ∀ call, sh'.calls p = some call → ∃ c, sh.calls p = some c ∧
      (c.state = .lost → call.state = .lost)) : Concluding p sh' pr := by
  unfold Concluding at h ⊢
  split at h
  · intro hfailed call hcall
    obtain ⟨c, hc, hlost⟩ := hcalls call hcall
    exact hlost (h hfailed c hc)
  · refine ⟨h.1, h.2.1, fun hfailed call hcall => ?_⟩
    obtain ⟨c, hc, hlost⟩ := hcalls call hcall
    exact hlost (h.2.2 hfailed c hc)
  · trivial

/-- A step keeps what a handler knows of its failed call. -/
lemma Rule.concluding (h : Rule env p sh pr a sh' pr')
    (hfailed : ∀ outcome call, a = .ret outcome → outcome.disposition = .failed →
      sh.calls p = some call → call.state = .lost)
    (hc : Concluding p sh pr) : Concluding p sh' pr' := by
  cases h with
  | @land _ c hcall hsent | @lose _ c hcall hsent =>
    refine hc.mono fun call _ => ⟨c, hcall, fun hlost => ?_⟩
    rw [hsent] at hlost
    cases hlost
  | ret =>
    intro hdisp call hcall
    simp only [Shared.endCall_calls, Function.update_self, Option.map_eq_some_iff] at hcall
    obtain ⟨c, hc, rfl⟩ := hcall
    exact hfailed _ c rfl hdisp hc
  | place => exact ⟨rfl, rfl, hc⟩
  | @complete c c' caller _ _ hrule =>
    rw [hrule.frame]
    cases caller with
    | handler own outcome =>
      simp only [Concluding, hrule.keeps.1]
      exact hc
    | sweep todo => trivial
  | _ => trivial

lemma concluding_of_reaches (h : Reaches env Honest s) (p : Pid) :
    Concluding p s.shared (s.procs p) := by
  refine Interleave.invariant_procs (P := Concluding) ?_ ?_ ?_ h p
  · exact fun _ => trivial
  · intro s p a sh' pr' _ hc hok hact
    exact (rule_of_act hact).concluding (fun outcome call ha => hok.failed outcome call ha) (hc p)
  · intro s p a sh' pr' q hq _ hc _ hact
    refine (hc q).mono fun call hcall => ?_
    rw [(rule_of_act hact).calls_of_ne hq] at hcall
    exact ⟨call, hcall, id⟩

/-! ## The invariant -/

/-- Every call for the key is lost. -/
def AllLost (sh : Shared) (k : KeyID) : Prop :=
  ∀ q call, sh.calls q = some call → call.own.req.keyID = k → call.state = .lost

/-- What holds of a key.
* Its owner is at its latest attempt, which is open.
* A call that has executed or may still execute is for its latest intent, and the key is not
  recorded as failed or rejected.
* A key that a sweep has selected is open and abandoned; and if the sweep is about to record a
  failure, all its calls are lost. -/
structure Once (s : State) (k : KeyID) : Prop where
  owner : ∀ q own, (s.procs q).owned = some own → own.req.keyID = k →
    (∃ row, (s.shared.key k).row = some row ∧ row.status = .pending ∧
      row.attemptCount = own.attempt) ∧ (s.shared.key k).lastID = some own.intentID
  calls : ∀ q call, s.shared.calls q = some call → call.own.req.keyID = k → call.state ≠ .lost →
    (∃ row, (s.shared.key k).row = some row ∧ row.status.counts = true) ∧
      (s.shared.key k).lastID = some call.own.intentID
  swept : ∀ q, k ∈ (s.procs q).sweeping → Abandoned s k ∧
    ∃ row, (s.shared.key k).row = some row ∧ row.status = .pending
  failing : ∀ q, (s.procs q).failing = some k → AllLost s.shared k

/-- An abandoned key that is open stays abandoned. -/
lemma Abandoned.step (h : Abandoned s k) (hs : Reaches env ok s)
    (hstep : step env s (p, a) = some s')
    (hrow : ∃ row, (s.shared.key k).row = some row ∧ row.status = .pending) :
    Abandoned s' k := by
  refine ⟨fun q own hown hk => ?_, fun q call hcall hk hsent => ?_⟩
  · rcases owned_of_step hstep hown with hown | ⟨-, hwins⟩
    · exact h.owner q own hown hk
    · obtain ⟨row, hrow, hpending⟩ := hrow
      have hfree := hwins.not_counts hs (hk ▸ hrow)
      rw [hpending] at hfree
      cases hfree
  · rcases call_of_step hs hstep hcall with ⟨c, hc, hown, hstate⟩ | ⟨rfl, -, hexec⟩
    · have hne := h.calls q c hc (hown ▸ hk)
      rcases hstate with hstate | ⟨hsent', -⟩
      · exact hne (hstate ▸ hsent)
      · exact hne hsent'
    · exact h.owner q call.own (by rw [hexec]; rfl) hk

/-- Calls that are all lost stay so while nobody owns the key. -/
lemma AllLost.step (h : AllLost s.shared k) (hs : Reaches env ok s) (ha : Abandoned s k)
    (hstep : step env s (p, a) = some s') : AllLost s'.shared k := by
  intro q call hcall hk
  rcases call_of_step hs hstep hcall with ⟨c, hc, hown, hstate⟩ | ⟨rfl, -, hexec⟩
  · have hlost := h q c hc (hown ▸ hk)
    rcases hstate with hstate | ⟨hsent, -⟩
    · rw [hstate, hlost]
    · rw [hlost] at hsent
      cases hsent
  · exact absurd hk (ha.owner q call.own (by rw [hexec]; rfl))

/-- A sweep's keys after a step were its keys before, or it has just selected them. -/
lemma sweeping_of_step (hstep : step env s (p, a) = some s') (hk : k ∈ (s'.procs q).sweeping) :
    k ∈ (s.procs q).sweeping ∨ ∃ now rows, a = .sweep now rows ∧
      SelectStale env s.shared.db now rows ∧ k ∈ rows.map Prod.fst := by
  by_cases hq : q = p
  · subst hq
    rcases (Rule.of_step hstep).sweeping with hsub | ⟨now, rows, ha, hrows, heq⟩
    · exact .inl (hsub.subset hk)
    · exact .inr ⟨now, rows, ha, hrows, heq ▸ hk⟩
  · rw [Interleave.step_procs_of_ne hstep hq] at hk
    exact .inl hk

/-- A sweep that is about to record a failure was so before, or its probe has just found no
execution. -/
lemma failing_of_step (hstep : step env s (p, a) = some s') (hk : (s'.procs q).failing = some k) :
    (s.procs q).failing = some k ∨ ∃ c todo, s.procs p = .sweep (.batch (c :: todo)) ∧
      a = .resolve .notExecuted ∧ c.keyID = k := by
  by_cases hq : q = p
  · subst hq
    exact (Rule.of_step hstep).failing hk
  · rw [Interleave.step_procs_of_ne hstep hq] at hk
    exact .inl hk

/-- A `Complete` that has committed returns to its caller. -/
lemma Rule.resume {c : Completion} {caller : Caller}
    (h : Rule env p sh (.completing c caller) (.commit .ok) sh' pr') : pr' = caller.resume := by
  cases h with
  | complete hrule => cases hrule
  | completed => rfl
  | completedStale => rfl

/-- What a step can do to a key: nothing, a claim of a key that is free, or a `Complete` that
settles it. After the latter nobody owns or sweeps the key, and it has failed only if all its
calls are lost. -/
inductive OnceChange (s s' : State) (a : Action) (k : KeyID) : Prop
  | same (hkey : s'.shared.key k = s.shared.key k)
  | claimed (hfree : ∀ row, (s.shared.key k).row = some row → row.status.counts = false)
  | settled (ha : a.commits = true) {row : KeyRow} (hrow : (s'.shared.key k).row = some row)
      (hstatus : row.status.counts = true ∨ AllLost s.shared k)
      (hlast : (s'.shared.key k).lastID = (s.shared.key k).lastID)
      (howner : ∀ q own, (s'.procs q).owned = some own → own.req.keyID ≠ k)
      (hsweep : ∀ q, k ∉ (s'.procs q).sweeping)

/-- A `Complete` settles a key as done or indeterminate, or as failed. -/
lemma CompleteArgs.counts (args : CompleteArgs) (h : args.status ≠ .failed) :
    args.status.counts = true := by
  rcases args.settles with h' | h' | h'
  · rw [h']
    rfl
  · exact absurd h' h
  · rw [h']
    rfl

/-- The owner's intent is the latest, so nobody else owns the key. -/
lemma Once.owner_unique (h : Once s k) (hs : Reaches env ok s) {own' : Owned}
    (hp : (s.procs p).owned = some own) (hpk : own.req.keyID = k)
    (hq : (s.procs q).owned = some own') (hqk : own'.req.keyID = k) : q = p := by
  have hid : own'.intentID = own.intentID :=
    Option.some.inj ((h.owner q own' hq hqk).2.symm.trans (h.owner p own hp hpk).2)
  have hdrawn := (callInv_of_reaches hs q).owned own' hq
  rw [hid, (callInv_of_reaches hs p).owned own hp] at hdrawn
  exact (Option.some.inj hdrawn).symm

/-- A call that may still count is that of the owner. -/
lemma Once.call_unique (h : Once s k) (hs : Reaches env ok s)
    (hp : (s.procs p).owned = some own) (hpk : own.req.keyID = k)
    (hcall : s.shared.calls q = some call) (hk : call.own.req.keyID = k)
    (hlost : call.state ≠ .lost) : q = p := by
  have hid : call.own.intentID = own.intentID :=
    Option.some.inj ((h.calls q call hcall hk hlost).2.symm.trans (h.owner p own hp hpk).2)
  have hdrawn := (callInv_of_reaches hs q).drawn call hcall
  rw [hid, (callInv_of_reaches hs p).owned own hp] at hdrawn
  exact (Option.some.inj hdrawn).symm

/-- The `Complete` of a handler settles the key that it alone owns. -/
lemma Once.settled_handler (h : Once s k) (hs : Reaches env Honest s)
    (hstep : step env s (p, .commit .ok) = some s') {c : Completion} {outcome : Outcome}
    (hp : s.procs p = .completing c (.handler own outcome)) (hk : c.args.keyID = k) :
    (c.args.status = .failed → AllLost s.shared k) ∧
      (∀ q own', (s'.procs q).owned = some own' → own'.req.keyID ≠ k) ∧
      ∀ q, k ∉ (s'.procs q).sweeping := by
  have hconc := concluding_of_reaches hs p
  have hrule := Rule.of_step hstep
  rw [hp] at hconc hrule
  have hown : (s.procs p).owned = some own := by
    rw [hp]
    rfl
  have hownk : own.req.keyID = k := hconc.1.symm.trans hk
  refine ⟨fun hfailed q call hcall hcallk => ?_, fun q own' hq hqk => ?_, fun q hq => ?_⟩
  · by_contra hlost
    obtain rfl := h.call_unique hs hown hownk hcall hcallk hlost
    refine hlost (hconc.2.2 ?_ call hcall)
    rw [hconc.2.1] at hfailed
    cases hd : outcome.disposition <;> simp_all [statusFor]
  · rcases owned_of_step hstep hq with hq' | ⟨-, hwins⟩
    · obtain rfl := h.owner_unique hs hown hownk hq' hqk
      rw [hrule.resume] at hq
      cases hq
    · exact absurd hp hwins.ne_completing
  · rcases sweeping_of_step hstep hq with hq | ⟨now, rows, ha, -⟩
    · exact (h.swept q hq).1.owner p own hown hownk
    · cases ha

/-- The `Complete` of a sweep settles a key that nobody owns. -/
lemma Once.settled_sweep (h : Once s k) (hs : Reaches env Honest s)
    (hstep : step env s (p, .commit .ok) = some s') {c : Completion} {todo : List Stale}
    (hp : s.procs p = .completing c (.sweep todo)) (hk : c.args.keyID = k) :
    (c.args.status = .failed → AllLost s.shared k) ∧
      (∀ q own, (s'.procs q).owned = some own → own.req.keyID ≠ k) ∧
      ∀ q, k ∉ (s'.procs q).sweeping := by
  obtain ⟨hsingle, hnodup⟩ := sweeps_of_reaches hs
  have hrule := Rule.of_step hstep
  have hsweeping : (s.procs p).sweeping = k :: todo.map (·.keyID) := by
    rw [hp, ← hk]
    rfl
  have hmem : k ∈ (s.procs p).sweeping := hsweeping ▸ List.mem_cons_self
  refine ⟨fun hfailed => h.failing p ?_, fun q own hq hqk => ?_, fun q hq => ?_⟩
  · rw [hp]
    simp [Proc.failing, hfailed, hk]
  · rcases owned_of_step hstep hq with hq | ⟨-, hwins⟩
    · exact (h.swept p hmem).1.owner q own hq hqk
    · exact absurd hp hwins.ne_completing
  · rcases sweeping_of_step hstep hq with hq' | ⟨now, rows, ha, -⟩
    · obtain rfl := hsingle q p (Proc.isSweep_of_mem hq') (Proc.isSweep_of_mem hmem)
      rw [hp] at hrule
      rw [hrule.resume] at hq
      have := hnodup q
      rw [hsweeping] at this
      exact (List.nodup_cons.mp this).1 hq
    · cases ha

/-- **What a step does to a key.** -/
lemma Once.change (h : Once s k) (hs : Reaches env Honest s) (hok : ReliableFor k s (p, a))
    (hstep : step env s (p, a) = some s') : OnceChange s s' a k := by
  cases keyChange_of_step hs hstep k with
  | same hkey => exact .same hkey
  | claim _ _ _ _ hopen => exact .claimed fun row hrow => hopen.not_counts hrow
  | @complete c caller now old row voided ha hp hphase hk hold hcomplete hvoided hkey =>
    obtain rfl : a = .commit .ok := by
      have hseen := hok.seen
      unfold Action.commits at ha
      split at ha
      · rfl
      · cases hseen
      · cases ha
    have hlast : (s'.shared.key k).lastID = (s.shared.key k).lastID := by
      simp only [hkey, KeyState.lastID, map_intentID_voidLatest]
    have hstatus : row.status = c.args.status := by
      obtain ⟨-, rfl⟩ := completeKey_eq_some.mp hcomplete
      rfl
    have hall : (c.args.status = .failed → AllLost s.shared k) ∧
        (∀ q own, (s'.procs q).owned = some own → own.req.keyID ≠ k) ∧
        ∀ q, k ∉ (s'.procs q).sweeping := by
      cases caller with
      | handler own outcome => exact h.settled_handler hs hstep hp hk
      | sweep todo => exact h.settled_sweep hs hstep hp hk
    obtain ⟨hfailed, howner, hsweep⟩ := hall
    refine .settled rfl (congrArg KeyState.row hkey) ?_ hlast howner hsweep
    by_cases hf : c.args.status = .failed
    · exact .inr (hfailed hf)
    · exact .inl (hstatus ▸ c.args.counts hf)
  | expire ha hp hmem =>
    have hkeeps := hok.keepsRow ha
    rw [hp] at hkeeps
    exact absurd (List.mem_map_of_mem hmem) hkeeps

/-- The owner of a key after a step is at the key's latest attempt, which is open. -/
lemma Once.owner_step (h : Once s k) (hs : Reaches env ok s)
    (hstep : step env s (p, a) = some s') (hchange : OnceChange s s' a k)
    (hown : (s'.procs q).owned = some own) (hk : own.req.keyID = k) :
    (∃ row, (s'.shared.key k).row = some row ∧ row.status = .pending ∧
      row.attemptCount = own.attempt) ∧ (s'.shared.key k).lastID = some own.intentID := by
  rcases owned_of_step hstep hown with hown' | ⟨-, hwins⟩
  · obtain ⟨⟨row, hrow, hpending, hattempt⟩, hlast⟩ := h.owner q own hown' hk
    cases hchange with
    | same hkey => exact hkey ▸ ⟨⟨row, hrow, hpending, hattempt⟩, hlast⟩
    | claimed hfree =>
      have := hfree row hrow
      rw [hpending] at this
      cases this
    | settled _ _ _ _ howner => exact absurd hk (howner q own hown)
  · -- the claim that has just been won is the latest
    exact hk ▸ hwins.key hs

/-- What a call needs of its key survives every step while the call is not lost. -/
lemma OnceChange.keeps_call {n : Nat} (h : OnceChange s s' a k)
    (hcall : (∃ row, (s.shared.key k).row = some row ∧ row.status.counts = true) ∧
      (s.shared.key k).lastID = some n)
    (hlost : a.commits = true → ¬ AllLost s.shared k) :
    (∃ row, (s'.shared.key k).row = some row ∧ row.status.counts = true) ∧
      (s'.shared.key k).lastID = some n := by
  obtain ⟨⟨row, hrow, hcounts⟩, hlast⟩ := hcall
  cases h with
  | same hkey => exact hkey ▸ ⟨⟨row, hrow, hcounts⟩, hlast⟩
  | claimed hfree =>
    rw [hfree row hrow] at hcounts
    cases hcounts
  | settled ha hrow' hstatus hlast' =>
    exact ⟨⟨_, hrow', hstatus.resolve_right (hlost ha)⟩, hlast'.trans hlast⟩

/-- A call after a step that is not lost is for the latest intent of a key that counts. -/
lemma Once.calls_step (h : Once s k) (hs : Reaches env ok s)
    (hstep : step env s (p, a) = some s') (hchange : OnceChange s s' a k)
    (hcall : s'.shared.calls q = some call) (hk : call.own.req.keyID = k)
    (hlost : call.state ≠ .lost) :
    (∃ row, (s'.shared.key k).row = some row ∧ row.status.counts = true) ∧
      (s'.shared.key k).lastID = some call.own.intentID := by
  rcases call_of_step hs hstep hcall with ⟨c, hc, hown, hstate⟩ | ⟨rfl, rfl, hexec⟩
  · have hlost' : c.state ≠ .lost := by
      rcases hstate with hstate | ⟨hsent, -⟩
      · exact hstate ▸ hlost
      · simp [hsent]
    rw [hown] at hk ⊢
    exact hchange.keeps_call (h.calls q c hc hk hlost') fun _ hall => hlost' (hall q c hc hk)
  · obtain ⟨⟨row, hrow, hpending, -⟩, hlast⟩ := h.owner q call.own (by rw [hexec]; rfl) hk
    refine hchange.keeps_call ⟨⟨row, hrow, ?_⟩, hlast⟩ fun ha => by cases ha
    rw [hpending]
    rfl

/-- A key that a sweep has selected is open, and stays so until the sweep completes it. -/
lemma Once.swept_step (h : Once s k) (hs : Reaches env ok s) (hok : Honest s (p, a))
    (hstep : step env s (p, a) = some s') (hchange : OnceChange s s' a k)
    (hq : k ∈ (s'.procs q).sweeping) : Abandoned s' k ∧
      ∃ row, (s'.shared.key k).row = some row ∧ row.status = .pending := by
  have hbefore : Abandoned s k ∧
      ∃ row, (s.shared.key k).row = some row ∧ row.status = .pending := by
    rcases sweeping_of_step hstep hq with hq | ⟨now, rows, ha, hrows, hmem⟩
    · exact h.swept q hq
    · obtain ⟨e, he, rfl⟩ := List.mem_map.mp hmem
      obtain ⟨hfound, hstale⟩ := hrows.found e he
      refine ⟨hok.abandoned now rows ha e he, e.2, hfound, ?_⟩
      simp only [stale, Bool.and_eq_true, decide_eq_true_eq] at hstale
      exact hstale.1
  obtain ⟨hab, row, hrow, hpending⟩ := hbefore
  refine ⟨hab.step hs hstep ⟨row, hrow, hpending⟩, ?_⟩
  cases hchange with
  | same hkey => exact hkey ▸ ⟨row, hrow, hpending⟩
  | claimed hfree =>
    have := hfree row hrow
    rw [hpending] at this
    cases this
  | settled _ _ _ _ _ hsweep => exact absurd hq (hsweep q)

/-- A sweep that is about to record a failure knows that all calls are lost. -/
lemma Once.failing_step (h : Once s k) (hs : Reaches env ok s) (hok : Honest s (p, a))
    (hstep : step env s (p, a) = some s') (hq : (s'.procs q).failing = some k) :
    AllLost s'.shared k := by
  rcases failing_of_step hstep hq with hq | ⟨c, todo, hp, ha, rfl⟩
  · exact (h.failing q hq).step hs (h.swept q (Proc.mem_of_failing hq)).1 hstep
  · -- the probe found no execution, and nothing is under way
    have hab := (h.swept p (by rw [hp]; exact List.mem_cons_self)).1
    have hzero := (hok.truthful _ c todo ha hp).1 rfl
    refine AllLost.step (fun q call hcall hk => ?_) hs hab hstep
    cases hstate : call.state with
    | sent => exact absurd hstate (hab.calls q call hcall hk)
    | lost => rfl
    | landed =>
      have := ((ledger_of_reaches hs).executions_pos c.keyID).mpr ⟨q, call, hcall, hk, hstate⟩
      omega

/-- **One step keeps the invariant of a key.** -/
lemma Once.step (h : Once s k) (hs : Reaches env Honest s) (hok : ReliableFor k s (p, a))
    (hstep : step env s (p, a) = some s') : Once s' k := by
  have hchange := h.change hs hok hstep
  exact ⟨fun _ _ => h.owner_step hs hstep hchange, fun _ _ => h.calls_step hs hstep hchange,
    fun _ => h.swept_step hs hok.toHonest hstep hchange,
    fun _ => h.failing_step hs hok.toHonest hstep⟩

/-- **In every state that an environment which is reliable for a key lets the system reach, the
invariant holds of that key.** -/
theorem once_of_reliableFor (h : Reaches env (ReliableFor k) s) : Once s k := by
  refine h.invariant (I := fun s => Once s k) ?_ ?_
  · exact ⟨fun q own h => (by cases h), fun q call h => (by cases h), fun q h => (by cases h),
      fun q h => (by cases h)⟩
  · rintro s ⟨p, a⟩ s' hs hI hok hstep
    exact hI.step (ReliableFor.honest_reaches hs) hok hstep

lemma once_of_reaches (h : Reaches env Reliable s) (k : KeyID) : Once s k :=
  once_of_reliableFor (reliableFor_of_reliable h k)

/-! ## At most once -/

/-- Only a handler that has won its claim makes a call. -/
lemma Rule.execute_of_call (h : Rule env p sh pr .call sh' pr') :
    ∃ own, pr = .handler (.execute own) ∧ sh' = sendCall p sh own := by
  cases h with
  | call => exact ⟨_, rfl, rfl⟩
  | complete hrule | completed hrule | completedStale hrule => cases hrule

/-- **At most once.** In an environment that is reliable for a key, whatever handlers, sweeps and
crashes interleave: the key is not executed twice; if it is recorded as failed or rejected it was
never executed; and when a handler makes a call for it, the intent of that attempt is
committed. -/
theorem at_most_once (h : Reaches env (ReliableFor k) s) :
    s.shared.executions k ≤ 1 ∧
    (∀ row, s.shared.db.keys.lookup k = some row →
      row.status = .failed ∨ row.status = .rejected → s.shared.executions k = 0) ∧
    (∀ p s', step env s (p, .call) = some s' → ∃ own,
      s'.shared.calls p = some ⟨own, .sent, s.shared.tick, none⟩ ∧
      (own.req.keyID = k → ∃ older i, s.shared.db.intentsOf k = older ++ [i] ∧
        i.intentID = own.intentID ∧ older.length + 1 = own.attempt)) := by
  have hledger := ledger_of_reaches h
  have honce := once_of_reliableFor h
  refine ⟨?_, fun row hrow hstatus => ?_, fun p s' hstep => ?_⟩
  · -- every execution is of the latest intent
    by_cases hpos : 0 < s.shared.executions k
    · obtain ⟨q, call, hcall, hk, hstate⟩ := (hledger.executions_pos k).mp hpos
      have hlast := (honce.calls q call hcall hk (by simp [hstate])).2
      refine hledger.executions_le_one (n := call.own.intentID) fun own hown hownk => ?_
      obtain ⟨q', call', hcall', rfl, hstate'⟩ := (hledger.landed own).mp hown
      have hlast' := (honce.calls q' call' hcall' hownk (by simp [hstate'])).2
      exact Option.some.inj (hlast'.symm.trans hlast)
    · omega
  · by_contra hne
    obtain ⟨q, call, hcall, hk, hstate⟩ :=
      (hledger.executions_pos k).mp (Nat.pos_of_ne_zero hne)
    obtain ⟨⟨row', hrow', hcounts⟩, -⟩ := honce.calls q call hcall hk (by simp [hstate])
    obtain rfl := Option.some.inj (hrow'.symm.trans hrow)
    rcases hstatus with hstatus | hstatus <;> rw [hstatus] at hcounts <;> cases hcounts
  · obtain ⟨own, hexec, hsh⟩ := (Rule.of_step hstep).execute_of_call
    refine ⟨own, by rw [hsh, sendCall_calls, Function.update_self], fun hk => ?_⟩
    obtain ⟨⟨row, hrow, -, hattempt⟩, hlast⟩ := honce.owner p own (by rw [hexec]; rfl) hk
    obtain ⟨older, i, heq, hid⟩ := KeyState.exists_of_lastID hlast
    have hcount := (sound_of_keepsRow (h.mono fun _ _ hok => hok.keepsRow)).count row hrow
    rw [heq, List.length_append, List.length_singleton, hattempt] at hcount
    exact ⟨older, i, heq, hid, hcount.symm⟩

/-- The promises of `Honest`, checked for a few processes when the others do nothing. -/
def honest (pids : List Pid) (s : State) (ia : Pid × Action) : Bool :=
  !ia.2.isUnseen && decide (ia.1 ∈ pids) &&
    match ia.2 with
    | .ret outcome =>
      outcome.disposition ≠ .failed || (s.shared.calls ia.1).all (·.state = .lost)
    | .sweep _ rows => pids.all fun q => !(s.procs q).isSweep && rows.all fun e =>
        (s.procs q).owned.all (·.req.keyID ≠ e.1) &&
          (s.shared.calls q).all fun call => call.own.req.keyID ≠ e.1 || call.state ≠ .sent
    | .resolve answer =>
      match s.procs ia.1, answer with
      | .sweep (.batch (c :: _)), .notExecuted => s.shared.executions c.keyID = 0
      | .sweep (.batch (c :: _)), .executed _ => 0 < s.shared.executions c.keyID
      | _, _ => true
    | _ => true

/-- And those of `Reliable`. -/
def reliable (pids : List Pid) (s : State) (ia : Pid × Action) : Bool :=
  !ia.2.isExpire && honest pids s ia

lemma mem_of_honest {pids : List Pid} {ia : Pid × Action} (h : honest pids s ia = true) :
    ia.1 ∈ pids := by
  simp only [honest, Bool.and_eq_true, decide_eq_true_eq] at h
  exact h.1.2

lemma mem_of_reliable {pids : List Pid} {ia : Pid × Action} (h : reliable pids s ia = true) :
    ia.1 ∈ pids :=
  mem_of_honest (Bool.and_eq_true_iff.mp h).2

/-- A key is abandoned when the processes that act have no claim of it and no call under way. -/
lemma Abandoned.of_pids {pids : List Pid} (hmem : ∀ s ia, ok s ia → ia.1 ∈ pids)
    (h : Reaches env ok s) (hall : ∀ q ∈ pids, (s.procs q).owned.all (·.req.keyID ≠ k) = true ∧
      ((s.shared.calls q).all fun call =>
        call.own.req.keyID ≠ k || call.state ≠ .sent) = true) : Abandoned s k := by
  refine ⟨fun q own hown => ?_, fun q call hcall hk => ?_⟩
  · by_cases hq : q ∈ pids
    · simpa [hown] using (hall q hq).1
    · rw [Interleave.procs_of_not_mem hmem h hq] at hown
      cases hown
  · by_cases hq : q ∈ pids
    · simpa [hcall, hk] using (hall q hq).2
    · have hphase := (callInv_of_reaches h q).phase
      rw [Interleave.procs_of_not_mem hmem h hq, hcall] at hphase
      cases hphase

/-- The checks are enough when only these processes act. -/
lemma Honest.of_pids {pids : List Pid} (hmem : ∀ s ia, ok s ia → ia.1 ∈ pids)
    (h : Reaches env ok s) {ia : Pid × Action} (hok : honest pids s ia = true) : Honest s ia := by
  simp only [honest, Bool.and_eq_true, Bool.not_eq_true'] at hok
  obtain ⟨⟨hseen, -⟩, hok⟩ := hok
  refine ⟨hseen, ?_, ?_, ?_, ?_⟩
  · intro outcome call ha hfailed hcall
    rw [ha] at hok
    simpa [hfailed, hcall] using hok
  · intro now rows ha q
    rw [ha] at hok
    by_cases hq : q ∈ pids
    · have := List.all_eq_true.mp hok q hq
      simp only [Bool.and_eq_true, Bool.not_eq_true'] at this
      exact this.1
    · rw [Interleave.procs_of_not_mem hmem h hq]
      rfl
  · intro now rows ha e he
    rw [ha] at hok
    refine .of_pids hmem h fun q hq => ?_
    have hsweep := List.all_eq_true.mp hok q hq
    simp only [Bool.and_eq_true] at hsweep
    simpa using List.all_eq_true.mp hsweep.2 e he
  · intro answer c todo ha hp
    rw [ha, hp] at hok
    refine ⟨?_, ?_⟩
    · rintro rfl
      simpa using hok
    · rintro result rfl
      simpa using hok

lemma Reliable.of_pids {pids : List Pid} (hmem : ∀ s ia, ok s ia → ia.1 ∈ pids)
    (h : Reaches env ok s) {ia : Pid × Action} (hok : reliable pids s ia = true) :
    Reliable s ia := by
  simp only [reliable, Bool.and_eq_true, Bool.not_eq_true'] at hok
  exact ⟨.of_pids hmem h hok.2, hok.1⟩

/-- A run that passes the checks keeps to `Reliable`. -/
lemma reliable_of_pids {pids : List Pid}
    (h : Reaches env (fun s ia => reliable pids s ia = true) s) : Reaches env Reliable s :=
  h.mono_of_reachable fun _ _ ht hok => .of_pids (fun _ _ => mem_of_reliable) ht hok

/-- And one that passes those for a key, to `ReliableFor`. -/
lemma reliableFor_of_pids {pids : List Pid}
    (h : Reaches env (fun s ia => honest pids s ia = true ∧ KeepsRow k s ia) s) :
    Reaches env (ReliableFor k) s :=
  h.mono_of_reachable fun _ _ ht hok =>
    ⟨.of_pids (fun _ _ hok => mem_of_honest hok.1) ht hok.1, hok.2⟩

/-- Retention removes the row of another key. Then the first attempt of a write fails; the second
one is executed, but its handler crashes, and a sweep finds the execution. -/
theorem at_most_once_swept : ∃ s, Reaches Env.small (ReliableFor ⟨"a", keyA⟩) s ∧
    s.shared.db.keys.lookup ⟨"b", keyB⟩ = none ∧
    (∃ row, s.shared.db.keys.lookup ⟨"a", keyA⟩ = some row ∧ row.status = .done ∧
      row.attemptCount = 2) ∧
    s.shared.executions ⟨"a", keyA⟩ = 1 ∧ s.shared.executions ⟨"a", keyA⟩ ≤ 1 := by
  obtain ⟨s, hrun, hs⟩ := exists_run_of_exec (step Env.small)
    (fun s ia => honest [0, 1, 2, 3, 4] s ia = true ∧ KeepsRow ⟨"a", keyA⟩ s ia) init
    (
      insertSteps 3 (.small .replace false) (.small "b" keyB) 5 [] ++
      [(3, .commit .ok), (4, .expire 106 [(⟨"b", keyB⟩, .small "b" 5 0)]), (4, .delete),
        (4, .commit .ok)] ++
      insertSteps 0 (.small .replace false) (.small "a" keyA) 107
        [.small 1 .replace "b" keyB 5] ++
      [(0, .commit .ok), (0, .call), (0, .lose), (0, .ret ⟨.failed, [], ""⟩), (0, .place true),
        (0, .begin 108), (0, .update), (0, .void (some (.small 3 .replace "a" keyA 107))),
        (0, .commit .ok)] ++
      reclaimSteps 1 (.small .replace false) (.small "a" keyA) 109
        [.small 1 .replace "b" keyB 5] ++
      [(1, .commit .ok), (1, .call), (1, .crash), (1, .land)] ++
      [(2, .sweep 130 [(⟨"a", keyA⟩, { KeyRow.small "a" 107 2 with
          attemptCount := 2, claimedAt := 109 })]),
        (2, .resolve (.executed [7])), (2, .place true), (2, .begin 131), (2, .update),
        (2, .commit .ok)])
    (fun s => (s.shared.db.keys.lookup ⟨"b", keyB⟩).isNone &&
      (s.shared.db.keys.lookup ⟨"a", keyA⟩).any fun row =>
        row.status = .done ∧ row.attemptCount = 2 ∧ s.shared.executions ⟨"a", keyA⟩ = 1)
    (by decide +kernel)
  simp only [Bool.and_eq_true, Option.isNone_iff_eq_none] at hs
  obtain ⟨hgone, hs⟩ := hs
  obtain ⟨row, hrow, hs⟩ := (Option.any_eq_true _ _).mp hs
  obtain ⟨hdone, hattempt, hexec⟩ := of_decide_eq_true hs
  have hreach : Reaches Env.small (ReliableFor ⟨"a", keyA⟩) s := reliableFor_of_pids ⟨_, hrun⟩
  exact ⟨s, hreach, hgone, ⟨row, hrow, hdone, hattempt⟩, hexec, (at_most_once hreach).1⟩

end Idemio
