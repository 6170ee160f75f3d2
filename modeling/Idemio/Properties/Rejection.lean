import Idemio.Properties.LiveIntents
import Idemio.System.Scan

set_option relaxedAutoImplicit false
set_option autoImplicit false

/-!
# Rejections have a reason

A claim is rejected because of a live intent of another agent that it finds in its window. It
holds the lock of its resource from before it reads the window until it commits, so no further
intent can appear. But a `Complete` takes no such lock: between the window and the commit it may
record the other write as failed and void its intent. The rejection is then one for a reason
that has gone, which is the safe side: a rejection too many, never one too few.

## Main definitions

* `Idemio.Reason` — an intent for which a claim may be rejected.
* `Idemio.Fails` — a step that records the write of a key as failed.
* `Idemio.Justified` — the window of a claim showed a reason, and its verdict is that window's.

## Main results

* `Idemio.rejected_for_failed_write` — a run in which a claim commits as rejected while no intent
  is live any more.
* `Idemio.rejections_justified` — every rejection had a reason when the window was read, and has
  it still unless that write was recorded as failed since; and of writers whose only rivals are
  each other, the first to get the lock is claimed.
-/

namespace Idemio

open Transition

/-- A live intent of another agent on the resource of a claim, inside its window and not
compatible with it, whose key is pending, done or indeterminate. -/
structure Reason (sh : Shared) (tx : ClaimTx) (i : IntentRow) : Prop where
  mem : i ∈ sh.db.intents
  live : i.live = true
  agent : i.agentID ≠ tx.req.agentID
  resourceType : i.resourceType = tx.req.resourceType
  resourceID : i.resourceID = tx.req.resourceID
  window : tx.now - tx.req.window < i.emittedAt
  conflict : compatible tx.req.declared i.declared = false
  key : ∃ row, sh.db.keys.lookup i.keyID = some row ∧
    (row.status = .pending ∨ row.status = .done ∨ row.status = .indeterminate)

/-- The step commits a `Complete` that records the write of the key `k` as failed. -/
def Fails (k : KeyID) (s : State) (ia : Pid × Action) : Prop :=
  ia.2.commits = true ∧ ∃ c caller, s.procs ia.1 = .completing c caller ∧ c.args.keyID = k ∧
    c.args.status = .failed

variable {env : Env} {p q : Pid} {sh sh' : Shared} {pr pr' : Proc} {a : Action} {s s' s₀ : State}
  {ok : Assumption} {tx tx' : ClaimTx} {i : IntentRow} {stored : List UInt8} {s₁ : State}

/-! ## The reason of a rejection -/

/-- A live rival of another agent is a reason. -/
lemma Reason.of_rival (h : Reaches env NoRetention s) (hi : i ∈ s.shared.db.intents)
    (hrival : Rival tx i) (hagent : i.agentID ≠ tx.req.agentID) : Reason s.shared tx i := by
  obtain ⟨ht, hid, hwindow, hlive, -⟩ := inWindow_iff.mp hrival.1
  obtain ⟨row, hrow, hcounts⟩ := counts_of_live h hi hlive
  refine ⟨hi, hlive, hagent, ht, hid, hwindow, hrival.2, row, hrow, ?_⟩
  revert hcounts
  cases row.status <;> simp [Status.counts]

/-- A live intent stays live under every step that does not record its write as failed. -/
lemma mem_of_step (h : Reaches env NoRetention s) (hstep : step env s (p, a) = some s')
    (hi : i ∈ s.shared.db.intents) (hlive : i.live = true) (hfails : ¬ Fails i.keyID s (p, a)) :
    i ∈ s'.shared.db.intents := by
  have hmem : i ∈ (s.shared.key i.keyID).intents := List.mem_filter.mpr ⟨hi, by simp⟩
  obtain ⟨row, hrow, hcounts⟩ := counts_of_live h hi hlive
  have hkey : i ∈ (s'.shared.key i.keyID).intents := by
    cases keyChange_of_step h hstep i.keyID with
    | same hkey => rwa [hkey]
    | claim _ _ _ _ _ _ _ hkey =>
      rw [hkey]
      exact List.mem_append_left _ hmem
    | complete ha hp _ hk _ _ hvoided hkey =>
      rw [hkey]
      have hne : _ ≠ Status.failed := fun hf => hfails ⟨ha, _, _, hp, hk, hf⟩
      rw [Voids, if_neg hne] at hvoided
      rwa [hvoided]
    | expire _ hp => exact absurd hp (ne_expire h)
  exact (List.mem_filter.mp hkey).1

/-- A reason stays one, unless the write behind it is recorded as failed. -/
lemma Reason.step (hr : Reason s.shared tx i) (h : Reaches env NoRetention s)
    (hok : NoRetention s (p, a)) (hstep : step env s (p, a) = some s')
    (hfails : ¬ Fails i.keyID s (p, a)) : Reason s'.shared tx i := by
  have hi := mem_of_step h hstep hr.mem hr.live hfails
  obtain ⟨row, hrow, hcounts⟩ := counts_of_live (h.snoc hok hstep) hi hr.live
  refine { hr with mem := hi, key := ⟨row, hrow, ?_⟩ }
  revert hcounts
  cases row.status <;> simp [Status.counts]

/-- The step is taken while the claim of `p` is about to commit as rejected. -/
def AwaitsRejection (p : Pid) (tx : ClaimTx) (stored : List UInt8) : Assumption := fun s ia =>
  NoRetention s ia ∧ s.procs p = .handler (.commit tx (.rejected stored))

/-- In the state `s₀` the claim of `p` read its window, holding its resource, and found the reason
`i`; that step gave it its verdict, in the state `s₁`, and the claim has not gone on since. In the
state `s` the reason is still one, or the write behind it was recorded as failed after the window
was read. -/
structure Justified (env : Env) (p : Pid) (tx : ClaimTx) (stored : List UInt8) (i : IntentRow)
    (s₀ s₁ s : State) : Prop where
  reaches : Reaches env NoRetention s₀
  window : ∃ tx₀ rows, s₀.procs p = .handler (.window tx₀) ∧ i ∈ rows ∧
    step env s₀ (p, .window rows) = some s₁
  verdict : s₁.procs p = .handler (.commit tx (.rejected stored))
  since : Reachable (step env) (AwaitsRejection p tx stored) s₁ s
  locked : s₀.shared.locks (lockKey env tx.req) = some p
  reason : Reason s₀.shared tx i
  still : Reason s.shared tx i ∨
    ∃ t ia t', Reachable (step env) (AwaitsRejection p tx stored) s₁ t ∧ Fails i.keyID t ia ∧
      step env t ia = some t' ∧ Reachable (step env) (AwaitsRejection p tx stored) t' s

/-- The justification survives every step. -/
lemma Justified.step (hj : Justified env p tx stored i s₀ s₁ s) (h : Reaches env NoRetention s)
    {ia : Pid × Action} (hok : AwaitsRejection p tx stored s ia)
    (hstep : step env s ia = some s') : Justified env p tx stored i s₀ s₁ s' := by
  refine { hj with since := hj.since.snoc hok hstep, still := ?_ }
  rcases hj.still with hreason | ⟨t, ib, t', ht, hfails, hstep', ht'⟩
  · by_cases hfails : Fails i.keyID s ia
    · exact .inr ⟨s, ia, s', hj.since, hfails, hstep, .refl s'⟩
    · exact .inl (hreason.step h hok.1 hstep hfails)
  · exact .inr ⟨t, ib, t', ht, hfails, hstep', ht'.snoc hok hstep⟩

/-- A claim that is about to be rejected is enforced and justified. -/
def Rejecting (env : Env) (p : Pid) (s : State) : Prop :=
  ∀ tx stored, s.procs p = .handler (.commit tx (.rejected stored)) →
    tx.req.enforce = true ∧ ∃ i s₀ s₁, Justified env p tx stored i s₀ s₁ s

/-- A step that leaves the process of `p` where it is keeps its justification. -/
lemma Rejecting.step (hr : Rejecting env p s) (h : Reaches env NoRetention s)
    {ia : Pid × Action} (hok : NoRetention s ia) (hstep : step env s ia = some s')
    (hproc : s'.procs p = s.procs p) : Rejecting env p s' := by
  intro tx stored hp
  rw [hproc] at hp
  obtain ⟨henforce, i, s₀, s₁, hj⟩ := hr tx stored hp
  exact ⟨henforce, i, s₀, s₁, hj.step h ⟨hok, hp⟩ hstep⟩

/-- Where a claim that is about to be rejected comes from: from there, or from its window. -/
lemma Rule.of_rejected (h : Rule env p sh pr a sh' (.handler (.commit tx (.rejected stored)))) :
    pr = .handler (.commit tx (.rejected stored)) ∨
      ∃ tx₀ rows, pr = .handler (.window tx₀) ∧ a = .window rows ∧
        SelectWindow sh.db tx₀.req tx₀.now tx₀.intent.intentID rows ∧
        resolveConflicts env tx₀ sh.nextID rows = .settled tx (.rejected stored) := by
  cases h with
  | land | lose => exact .inl rfl
  | window hrows hverdict => exact .inr ⟨_, _, rfl, rfl, hrows, hverdict⟩

/-- **The verdict of a claim is rejected only for a reason that its window shows.** -/
lemma justified_of_window {tx₀ : ClaimTx} {rows : List IntentRow} (hs : Reaches env NoRetention s)
    (hp : s.procs p = .handler (.window tx₀)) (hok : NoRetention s (p, .window rows))
    (hstep : step env s (p, .window rows) = some s')
    (hp' : s'.procs p = .handler (.commit tx (.rejected stored)))
    (hrows : SelectWindow s.shared.db tx₀.req tx₀.now tx₀.intent.intentID rows)
    (hverdict : resolveConflicts env tx₀ s.shared.nextID rows = .settled tx (.rejected stored)) :
    tx.req.enforce = true ∧ ∃ i, Justified env p tx stored i s s' s' := by
  have hheld := (held_of_reaches hs).2 p
  rw [hp] at hheld
  have hheld : Undecided env p s.shared tx₀ := hheld
  have hj := resolveConflicts_settled hheld.intent hheld.conflicts hverdict
  obtain ⟨henforce, i, hi, hagent⟩ := hj.rejected stored rfl
  obtain ⟨hmem, hrival⟩ := (mem_conflictingIntents hrows).mp hi
  have hrival' : Rival tx i := by
    rwa [Rival, hj.req, hj.now, hj.intentID]
  have hreason : Reason s.shared tx i := .of_rival hs hmem hrival' (by rwa [hj.req])
  -- the window itself records nothing, so the reason is there after it
  have hfails : ¬ Fails i.keyID s (p, .window rows) := fun hf => by cases hf.1
  refine ⟨by rwa [hj.req], i, hs, ⟨tx₀, rows, hp, (List.mem_filter.mp hi).1, hstep⟩, hp', .refl s',
    ?_, hreason, .inl (hreason.step hs hok hstep hfails)⟩
  rw [hj.req]
  exact hheld.openClaim.resource

/-- **Every rejection is justified.** -/
lemma rejecting_of_reaches (h : Reaches env NoRetention s) (p : Pid) : Rejecting env p s := by
  refine h.invariant (I := fun s => ∀ p, Rejecting env p s) (fun _ _ _ hp => by cases hp) ?_ p
  rintro s ⟨q, a⟩ s' hs hr hok hstep p
  by_cases hp : p = q
  · subst hp
    intro tx stored hp'
    have hrule := Rule.of_step hstep
    rw [hp'] at hrule
    rcases hrule.of_rejected with hp | ⟨tx₀, rows, hp, rfl, hrows, hverdict⟩
    · exact (hr p).step hs hok hstep (hp'.trans hp.symm) tx stored hp'
    · obtain ⟨henforce, i, hj⟩ := justified_of_window hs hp hok hstep hp' hrows hverdict
      exact ⟨henforce, i, s, s', hj⟩
  · exact (hr p).step hs hok hstep (Interleave.step_procs_of_ne hstep hp)

/-! ## The first to get the lock -/

/-- The process has not committed a claim. -/
def Proc.unclaimed : Proc → Bool
  | .idle => true
  | .handler (.wait _ _) => true
  | .handler h => h.claiming.isSome
  | _ => false

/-- No intent of `q` was committed. -/
def NoIntents (q : Pid) (sh : Shared) : Prop := ∀ i ∈ sh.db.intents, sh.drawn i.intentID ≠ some q

/-- A process that has not committed a claim has not done so in its last step. -/
lemma Rule.unclaimed (h : Rule env p sh pr a sh' pr') (hpr : pr'.unclaimed = true) :
    pr.unclaimed = true ∧ sh'.db = sh.db := by
  cases h with
  | land | lose => exact ⟨hpr, rfl⟩
  | start | begin | lock | insert | taken | readFailed | reclaim | record | window | check |
      serialize | statuses | waited => exact ⟨rfl, rfl⟩
  | _ => cases hpr

lemma NoIntents.own (h : Rule env p sh pr a sh' pr') (hdb : sh'.db = sh.db) (hids : Ids sh)
    (hn : NoIntents p sh) : NoIntents p sh' := by
  intro i hi
  rw [hdb] at hi
  rcases h.ids_cases with ⟨-, hdrawn⟩ | ⟨-, hdrawn⟩
  · rw [hdrawn]
    exact hn i hi
  · rw [hdrawn, Function.update_of_ne (Nat.ne_of_lt (hids.lt_nextID hi))]
    exact hn i hi

lemma NoIntents.stable (hn : NoIntents q sh) (G : Guarantee env p sh sh') (hids : Ids sh)
    (hq : q ≠ p) : NoIntents q sh' := by
  intro i hi hdrawn
  rcases G.intents i hi with ⟨j, hj, hid, -⟩ | ⟨hp, -⟩
  · obtain ⟨q₀, hq₀⟩ := hids.drawn_of_mem hj
    obtain rfl := Option.some.inj ((G.drawn _ _ hq₀).symm.trans (hid ▸ hdrawn))
    exact hn j hj hq₀
  · exact hq (Option.some.inj (hdrawn.symm.trans (G.drawn _ _ hp)))

/-- Before it commits its claim, a process has no committed intent. -/
lemma noIntents_of_reaches (h : Reaches env ok s) (hq : (s.procs q).unclaimed = true) :
    NoIntents q s.shared := by
  refine Interleave.invariant_procs
    (P := fun q sh pr => pr.unclaimed = true → NoIntents q sh) ?_ ?_ ?_ h q hq
  · intro q _ i hi
    cases hi
  · intro s p a sh' pr' hs hn _ hact hpr
    have hrule := rule_of_act hact
    obtain ⟨hpr, hdb⟩ := hrule.unclaimed hpr
    exact (hn p hpr).own hrule hdb (held_of_reaches hs).1
  · intro s p a sh' pr' q hq hs hn _ hact hpr
    obtain ⟨hids, hheld⟩ := held_of_reaches hs
    exact (hn q hpr).stable ((rule_of_act hact).guarantee (hheld p) hids) hids hq

/-- No live intent on the resources of the lock `l` is one of the processes in `W`. -/
def Untouched (env : Env) (W : Set Pid) (l : LockID) (sh : Shared) : Prop :=
  ∀ i ∈ sh.db.intents, i.live = true → resourceLock env i.resourceType i.resourceID = l →
    ∀ q ∈ W, sh.drawn i.intentID ≠ some q

/-- While `p` holds the lock, nobody commits an intent on its resources. -/
lemma Untouched.step {W : Set Pid} {l : LockID} (h : Rule env q sh pr a sh' pr')
    (hheld : Held env q sh pr) (hids : Ids sh) (hu : Untouched env W l sh)
    (hbefore : a.commits = true → sh.locks l = some p) (hafter : sh'.locks l = some p) :
    Untouched env W l sh' := by
  have G := h.guarantee hheld hids
  have hold : ∀ i ∈ sh.db.intents, i.live = true →
      resourceLock env i.resourceType i.resourceID = l →
        ∀ q ∈ W, sh'.drawn i.intentID ≠ some q := by
    intro i hi hlive hres q hq hdrawn
    obtain ⟨q₀, hq₀⟩ := hids.drawn_of_mem hi
    obtain rfl := Option.some.inj ((G.drawn _ _ hq₀).symm.trans hdrawn)
    exact hu i hi hlive hres q₀ hq hq₀
  intro i hi hlive hres
  rcases G.intents i hi with ⟨j, hj, -, heq⟩ | ⟨-, hlock⟩
  · obtain rfl := heq hlive
    exact hold j hj hlive hres
  · -- a commit that adds the intent would be one of `p` itself, which gives the lock back
    have hreleased : a.commits = true → sh'.locks = Locks.release sh.locks q → False := by
      intro ha hrel
      rw [hres] at hlock
      obtain rfl := Locks.holder_unique hlock (hbefore ha)
      rw [hrel] at hafter
      exact Locks.release_self _ _ _ hafter
    rcases h.db_cases with ⟨hdb, -⟩ | ⟨ha, ⟨tx, verdict, -, rfl⟩ |
      ⟨c, caller, now, row, voided, -, -, rfl⟩ | ⟨now, gone, -, rfl⟩⟩
    · exact hold i (hdb ▸ hi) hlive hres
    · exact (hreleased ha rfl).elim
    · exact (hreleased ha rfl).elim
    · exact (hreleased ha rfl).elim

/-- A claim without a rival is claimed by its window alone. -/
lemma Rule.claimed_of_window {rows : List IntentRow}
    (h : Rule env p sh (.handler (.window tx)) (.window rows) sh' pr')
    (hnone : ∀ i ∈ sh.db.intents, ¬ Rival tx i) : pr' = .handler (.commit tx (.claimed 0)) := by
  have hnil : SelectWindow sh.db tx.req tx.now tx.intent.intentID rows →
      conflictingIntents tx.req rows = [] := by
    intro hrows
    refine List.eq_nil_iff_forall_not_mem.mpr fun i hi => ?_
    obtain ⟨hmem, hrival⟩ := (mem_conflictingIntents hrows).mp hi
    exact hnone i hmem hrival
  cases h with
  | window hrows hverdict =>
    rw [resolveConflicts_nil (hnil hrows)] at hverdict
    cases hverdict
    rfl
  | check hrows hverdict =>
    rw [resolveConflicts_nil (hnil hrows)] at hverdict
    cases hverdict

/-- Every step is taken while `p` holds the lock `l`. -/
def KeepsLock (l : LockID) (p : Pid) : Assumption := fun s _ => s.shared.locks l = some p

instance (l : LockID) (p : Pid) (s : State) (ia : Pid × Action) :
    Decidable (KeepsLock l p s ia) :=
  inferInstanceAs (Decidable (_ = _))

/-- While the first of some writers holds the lock, none of them has a live intent on the
resources of that lock. -/
lemma untouched_of_run {W : Set Pid} {l : LockID} {s₁ t : State} {as : List (Pid × Action)}
    (h : Reaches env ok s) (hW : ∀ q ∈ W, (s.procs q).unclaimed = true)
    (hstep : step env s (p, .lock) = some s₁) (hrun : Run (step env) (KeepsLock l p) s₁ as t)
    (hlock : t.shared.locks l = some p) : Untouched env W l t.shared := by
  have hs : Reaches env (fun _ _ => True) s := h.mono fun _ _ _ => trivial
  have hs₁ : Reaches env (fun _ _ => True) s₁ := hs.snoc trivial hstep
  have hu : Untouched env W l s.shared := fun i hi _ _ q hq =>
    noIntents_of_reaches hs (hW q hq) i hi
  refine (hrun.stable (I := fun t => Reaches env (fun _ _ => True) t ∧
    (t.shared.locks l = some p → Untouched env W l t.shared)) ⟨hs₁, fun hafter => ?_⟩ ?_).2 hlock
  · obtain ⟨hids, hheld⟩ := held_of_reaches hs
    exact hu.step (Rule.of_step hstep) (hheld p) hids (fun ha => by cases ha) hafter
  · rintro t ⟨q, a⟩ t' ⟨ht, hut⟩ hok hstep
    obtain ⟨hids, hheld⟩ := held_of_reaches ht
    exact ⟨ht.snoc trivial hstep, fun hafter =>
      (hut hok).step (Rule.of_step hstep) (hheld q) hids (fun _ => hok) hafter⟩

/-- **Rejections are justified and never mutual.** A claim that is about to commit as rejected is
enforced, and in the state in which it read its window, holding the lock of its resource, there was
a reason for it among the rows it read; the reason is still there, unless the write behind it was
recorded as failed after that step. And let some writers have no claim yet, and let one of them get
its lock: if its only rivals at its window are intents of these writers, then it is claimed. -/
theorem rejections_justified (h : Reaches env NoRetention s) :
    (∀ p tx stored, s.procs p = .handler (.commit tx (.rejected stored)) →
      tx.req.enforce = true ∧ ∃ i s₀ s₁, Justified env p tx stored i s₀ s₁ s) ∧
    (∀ (W : Set Pid) p s₁ as t tx rows t', p ∈ W → (∀ q ∈ W, (s.procs q).unclaimed = true) →
      step env s (p, .lock) = some s₁ →
      Run (step env) (KeepsLock (lockKey env tx.req) p) s₁ as t →
      t.procs p = .handler (.window tx) →
      (∀ i ∈ t.shared.db.intents, Rival tx i → ∃ q ∈ W, t.shared.drawn i.intentID = some q) →
      step env t (p, .window rows) = some t' →
      t'.procs p = .handler (.commit tx (.claimed 0))) := by
  refine ⟨fun p => rejecting_of_reaches h p, ?_⟩
  · intro W p s₁ as t tx rows t' _ hW hlockStep hrun hp hmates hstep
    have hrule := Rule.of_step hstep
    rw [hp] at hrule
    refine hrule.claimed_of_window fun i hi hrival => ?_
    have ht : Reaches env (fun _ _ => True) t :=
      ((h.mono fun _ _ _ => trivial).snoc trivial hlockStep).trans
        ⟨as, hrun.mono fun _ _ _ => trivial⟩
    have hund := (held_of_reaches ht).2 p
    rw [hp] at hund
    have huntouched := untouched_of_run h hW hlockStep hrun (Undecided.openClaim hund).resource
    obtain ⟨hrt, hrid, -, hlive, -⟩ := inWindow_iff.mp hrival.1
    obtain ⟨q, hq, hdrawn⟩ := hmates i hi hrival
    exact huntouched i hi hlive (by rw [hrt, hrid]; rfl) q hq hdrawn

/-- Agents `a` and `b` replace one resource. Once the claim of `a` is committed, that of `b` is
about to be rejected. And when both still wait for the lock and `a` gets it, `a` is claimed. -/
theorem rejections_justified_pair :
    (∃ s tx stored i s₀ s₁, Reaches Env.small NoRetention s ∧
      s.procs 1 = .handler (.commit tx (.rejected stored)) ∧ tx.req.enforce = true ∧
      Justified Env.small 1 tx stored i s₀ s₁ s) ∧
    ∃ s s₁ as t t' tx, Reaches Env.small NoRetention s ∧
      step Env.small s (0, .lock) = some s₁ ∧
      Run (step Env.small) (KeepsLock (.advisory 0) 0) s₁ as t ∧
      step Env.small t (0, .window []) = some t' ∧
      t'.procs 0 = .handler (.commit tx (.claimed 0)) := by
  constructor
  · obtain ⟨s, hrun, hs⟩ := exists_run_of_exec (step Env.small) NoRetention init
      (
        insertSteps 0 (.small .replace true) (.small "a" keyA) 5 [] ++ [(0, .commit .ok)] ++
        insertSteps 1 (.small .replace true) (.small "b" keyB) 6 [.small 1 .replace "a" keyA 5])
      (fun s => (s.procs 1).rejection.isSome) (by decide +kernel)
    obtain ⟨⟨tx, stored⟩, hp⟩ := Option.isSome_iff_exists.mp hs
    have hp := Proc.rejection_eq_some.mp hp
    obtain ⟨henforce, i, s₀, s₁, hj⟩ := (rejections_justified ⟨_, hrun⟩).1 1 tx stored hp
    exact ⟨s, tx, stored, i, s₀, s₁, ⟨_, hrun⟩, hp, henforce, hj⟩
  · obtain ⟨s, hrun, hs⟩ := exists_run_of_exec (step Env.small) NoRetention init
      [(0, .start (.small .replace true) (.small "a" keyA)), (0, .begin 5),
        (1, .start (.small .replace true) (.small "b" keyB)), (1, .begin 6)]
      (fun s => (s.procs 0).unclaimed && (s.procs 1).unclaimed &&
        (step Env.small s (0, .lock)).any fun s₁ =>
          (exec (step Env.small) (KeepsLock (.advisory 0) 0) s₁
            [(0, .insert), (0, .record)]).any fun t =>
              t.shared.db.intents.isEmpty && (step Env.small t (0, .window [])).isSome &&
              (t.procs 0).scan.isSome) (by decide +kernel)
    simp only [Bool.and_eq_true] at hs
    obtain ⟨⟨h₀, h₁⟩, hs⟩ := hs
    obtain ⟨s₁, hlock, hs⟩ := (Option.any_eq_true _ _).mp hs
    obtain ⟨t, ht, hs⟩ := (Option.any_eq_true _ _).mp hs
    simp only [Bool.and_eq_true, List.isEmpty_iff] at hs
    obtain ⟨⟨hnil, hstep⟩, hs⟩ := hs
    obtain ⟨t', hstep⟩ := Option.isSome_iff_exists.mp hstep
    obtain ⟨tx, hp⟩ := Option.isSome_iff_exists.mp hs
    have hp := Proc.scan_eq_some.mp hp
    have hW : ∀ q ∈ ({0, 1} : Set Pid), (s.procs q).unclaimed = true := by
      rintro q (rfl | rfl)
      · exact h₀
      · exact h₁
    have hmates : ∀ i ∈ t.shared.db.intents, Rival tx i →
        ∃ q ∈ ({0, 1} : Set Pid), t.shared.drawn i.intentID = some q := by
      intro i hi
      rw [hnil] at hi
      cases hi
    exact ⟨s, s₁, _, t, t', tx, ⟨_, hrun⟩, hlock, run_of_exec ht, hstep,
      (rejections_justified ⟨_, hrun⟩).2 {0, 1} 0 s₁ _ t tx [] t' (.inl rfl) hW hlock
        (run_of_exec ht) hp hmates hstep⟩

/-- **A rejection without a reason.** The call of handler `0` fails. While handler `1` is about
to be rejected for the first write, the failure is recorded and the intent voided; the rejection
is committed all the same, when no intent is live. -/
theorem rejected_for_failed_write : ∃ s s' tx stored row, Reaches Env.small NoRetention s ∧
    s.procs 1 = .handler (.commit tx (.rejected stored)) ∧
    step Env.small s (1, .commit .ok) = some s' ∧
    (∀ i ∈ s.shared.db.intents, i.live = false) ∧ (∀ i ∈ s'.shared.db.intents, i.live = false) ∧
    s.shared.db.keys.lookup ⟨"a", keyA⟩ = some row ∧ row.status = .failed := by
  obtain ⟨s, hrun, hs⟩ := exists_run_of_exec (step Env.small) NoRetention init
    (
      insertSteps 0 (.small .replace true) (.small "a" keyA) 5 [] ++
      [(0, .commit .ok), (0, .call), (0, .lose), (0, .ret ⟨.failed, [], ""⟩), (0, .place true),
        (0, .begin 6), (0, .update), (0, .void (some (.small 1 .replace "a" keyA 5)))] ++
      insertSteps 1 (.small .replace true) (.small "b" keyB) 7 [.small 1 .replace "a" keyA 5] ++
      [(0, .commit .ok)])
    (fun s => (step Env.small s (1, .commit .ok)).any fun s' =>
      (s.shared.db.keys.lookup ⟨"a", keyA⟩).any fun row => row.status = .failed &&
        (s.shared.db.intents.all fun i => !i.live) &&
        (s'.shared.db.intents.all fun i => !i.live) && (s.procs 1).rejection.isSome)
    (by decide +kernel)
  obtain ⟨s', hstep, hs⟩ := (Option.any_eq_true _ _).mp hs
  obtain ⟨row, hrow, hs⟩ := (Option.any_eq_true _ _).mp hs
  simp only [Bool.and_eq_true, decide_eq_true_eq, List.all_eq_true, Bool.not_eq_true'] at hs
  obtain ⟨⟨⟨hfailed, hdead⟩, hdead'⟩, hs⟩ := hs
  obtain ⟨⟨tx, stored⟩, hp⟩ := Option.isSome_iff_exists.mp hs
  exact ⟨s, s', tx, stored, row, ⟨_, hrun⟩, Proc.rejection_eq_some.mp hp, hstep, hdead, hdead',
    hrow, hfailed⟩

end Idemio
