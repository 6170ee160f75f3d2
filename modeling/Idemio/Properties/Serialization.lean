import Idemio.Properties.Finality
import Idemio.Properties.LiveIntents
import Idemio.System.Awaited
import Idemio.System.Scan

set_option relaxedAutoImplicit false
set_option autoImplicit false

/-!
# Conflicting writes of one agent run one after the other

A claim whose only rivals are of the same agent reads the statuses of their keys and is claimed
when none of them is pending; it then records its conflicts as `serialized`. The window and the
statuses are read by two statements, and between them and the commit keys complete, fail and
are claimed again. What the claim has read is still true when it commits, and the calls of the
two writes of a `serialized` conflict did not overlap.

## Main definitions

* `Idemio.Serializing` — no retention pass runs, and keys are completed after their calls.
* `Idemio.Over` — an intent was committed and nobody waits for its call.
* `Idemio.Ordered` — the calls of one intent ended before those of another began.

## Main results

* `Idemio.rivalsOver_of_reaches` — when an enforced claim commits as claimed, the keys of all its
  rivals are settled for good.
* `Idemio.callsOpen_of_reaches` — the key of a handler that waits for its call is pending.
* `Idemio.serialized_conflicts` — both readings of `serialized`.
-/

namespace Idemio

open Transition

variable {env : Env} {p q : Pid} {sh sh' : Shared} {pr pr' : Proc} {a : Action} {s s' : State}
  {ok : Assumption} {tx : ClaimTx} {i : IntentRow} {own : Owned} {n m : Nat}

/-! ## The verdict is still right at the commit -/

/-- The write of the key happened or may have happened, and this will not change. -/
def KeyOver (sh : Shared) (k : KeyID) : Prop :=
  ∃ row, sh.db.keys.lookup k = some row ∧ (row.status = .done ∨ row.status = .indeterminate)

/-- Before an enforced claim commits as claimed, the keys of all its rivals are settled. -/
def RivalsOver (sh : Shared) : Proc → Prop
  | .handler (.commit tx (.claimed _)) =>
    tx.req.enforce = true → ∀ i ∈ sh.db.intents, Rival tx i → KeyOver sh i.keyID
  | _ => True

/-- A key that is settled for good stays so. -/
lemma KeyOver.step {k : KeyID} (hk : KeyOver s.shared k) (h : Reaches env NoRetention s)
    (hstep : step env s (p, a) = some s') : KeyOver s'.shared k := by
  obtain ⟨row, hrow, hstatus⟩ := hk
  exact ⟨row, final_of_step h hstep hrow (hstatus.imp_right .inl), hstatus⟩

/-- The statuses that a claim reads are those of the committed rows, and its own key, which it
has just claimed, is not among those that are settled. -/
lemma Undecided.status_ne_pending {same : List IntentRow} {rows : List (String × Status)}
    (h : Undecided env p sh tx)
    (hrows : SelectStatuses (sh.db.keys.insert tx.req.keyID tx.row) tx.req.agentID
      (same.map (·.key)) rows)
    (hnone : firstPending rows = none) (hi : i ∈ same) (hagent : i.agentID = tx.req.agentID)
    {row : KeyRow} (hrow : sh.db.keys.lookup i.keyID = some row) : row.status ≠ .pending := by
  have hread : ∀ row', (sh.db.keys.insert tx.req.keyID tx.row).lookup i.keyID = some row' →
      row'.status ≠ .pending := by
    intro row' hrow'
    rw [IntentRow.keyID, hagent] at hrow'
    exact Idemio.status_ne_pending hrows hnone (List.mem_map_of_mem hi) hrow'
  by_cases hk : i.keyID = tx.req.keyID
  · rw [hk] at hread
    exact absurd h.openClaim.opens.pending (hread tx.row (AList.lookup_insert _))
  · exact hread row ((AList.lookup_insert_ne hk).trans hrow)

/-- Reading the window and the statuses leaves only rivals whose keys are settled. -/
lemma Rule.rivalsOver (h : Rule env p s.shared pr a sh' pr') (hs : Reaches env NoRetention s)
    (hheld : Held env p s.shared pr) (hscan : Scanned s.shared pr) (hw : RivalsOver s.shared pr) :
    RivalsOver sh' pr' := by
  cases h with
  | land | lose => exact hw
  | @window tx tx' verdict rows hrows hverdict =>
    have hheld : Undecided env p s.shared tx := hheld
    have hj := resolveConflicts_settled hheld.intent hheld.conflicts hverdict
    cases verdict with
    | rejected m => trivial
    | claimed n =>
      -- a claim settled by the window alone has no rival
      intro henforce i hi hrival
      rw [hj.req] at henforce
      have hmem : i ∈ conflictingIntents tx.req rows := by
        refine (mem_conflictingIntents hrows).mpr ⟨hi, ?_⟩
        rwa [Rival, hj.req, hj.now, hj.intentID] at hrival
      rw [hj.claimed n rfl henforce] at hmem
      cases hmem
  | @statuses tx same rows hrows hnone =>
    intro _ i hi hrival
    have hsame : i ∈ same := hscan.2 i hi hrival
    obtain ⟨-, -, -, hlive, -⟩ := inWindow_iff.mp hrival.1
    obtain ⟨row, hrow, hcounts⟩ := counts_of_live hs hi hlive
    refine ⟨row, hrow, ?_⟩
    have hne := Undecided.status_ne_pending hheld hrows hnone hsame (hscan.1 i hsame) hrow
    cases hstatus : row.status <;> simp_all [Status.counts]
  | _ => trivial

/-- What the others do leaves the keys of the rivals settled. -/
lemma RivalsOver.stable (hr : RivalsOver s.shared pr) (hs : Reaches env NoRetention s)
    (hheld : Held env q s.shared pr) (hq : q ≠ p) (hstep : step env s (p, a) = some s') :
    RivalsOver s'.shared pr := by
  obtain ⟨sh', pr', hrule, rfl⟩ := rule_of_step hstep
  obtain ⟨hids, hheldp⟩ := held_of_reaches hs
  have G := hrule.guarantee (hheldp p) hids
  cases pr with
  | handler hd =>
    cases hd with
    | commit tx verdict =>
      cases verdict with
      | claimed n =>
        intro henforce i hi hrival
        obtain ⟨row₀, hopen, -⟩ := Decided.openClaim hheld
        exact (hr henforce i (G.rival hq hopen.resource hi hrival) hrival).step hs hstep
      | rejected m => trivial
    | _ => trivial
  | _ => trivial

/-- **When an enforced claim commits as claimed, the keys of its rivals are settled**, and have
been since it read their statuses. -/
theorem rivalsOver_of_reaches (h : Reaches env NoRetention s) (p : Pid) :
    RivalsOver s.shared (s.procs p) := by
  refine Interleave.invariant_procs (P := fun _ sh pr => RivalsOver sh pr) ?_ ?_ ?_ h p
  · exact fun _ => trivial
  · intro s p a sh' pr' hs hr _ hact
    exact (rule_of_act hact).rivalsOver hs ((held_of_reaches hs).2 p) (scanned_of_reaches hs p)
      (hr p)
  · intro s p a sh' pr' q hq hs hr _ hact
    exact (hr q).stable hs ((held_of_reaches hs).2 q) hq
      (Interleave.step_eq_some.mpr ⟨sh', pr', hact, rfl⟩)

/-! ## Keys whose call is awaited -/

/-- Handlers and such sweeps run, and no retention pass does. -/
def Serializing : Assumption := fun s ia => NoRetention s ia ∧ CompletesAfterCalls s ia

lemma reaches_noRetention (h : Reaches env Serializing s) : Reaches env NoRetention s :=
  h.mono fun _ _ hok => hok.1

/-- **In every reachable state the key of a handler that waits for its call is pending.** -/
theorem callsOpen_of_reaches (h : Reaches env Serializing s) : CallsOpen s := by
  refine h.invariant (I := CallsOpen) callsOpen_init ?_
  rintro s ⟨p, a⟩ s' hs hI hok hstep
  refine hI.step hs hok.2 hstep fun k row hrow _ => ?_
  exact row_ne_none_of_step hs (keepsRow_of_reaches (reaches_noRetention hs) k (p, a)) hstep
    (by simp [hrow])

/-! ## Intents whose call is over -/

/-- The intent `n` was committed. -/
def Committed (sh : Shared) (n : Nat) : Prop := ∃ i ∈ sh.db.intents, i.intentID = n

/-- The intent `n` was committed and nobody waits for its call. -/
def Over (s : State) (n : Nat) : Prop :=
  Committed s.shared n ∧ ∀ q own, (s.procs q).running = some own → own.intentID ≠ n

/-- Committed intents stay, though they may be voided. -/
lemma Committed.step (h : Committed s.shared n) (hstep : step env s (p, a) = some s') :
    Committed s'.shared n := by
  obtain ⟨i, hi, rfl⟩ := h
  obtain ⟨j, hj, heq⟩ := (Rule.of_step hstep).inserted hi
  exact ⟨j, hj, (IntentRow.eq_of_inserted heq).1⟩

/-- The intent of a claim that is about to commit is not committed. -/
lemma OwnIntent.not_committed (h : OwnIntent p sh tx) : ¬ Committed sh tx.intent.intentID := by
  rintro ⟨i, hi, heq⟩
  exact h.fresh i hi heq

/-- **An intent whose call is over stays over**: who comes to wait for a call waits for that of
an intent that was not committed before. -/
lemma Over.step (h : Over s n) (hs : Reaches env ok s) (hstep : step env s (p, a) = some s') :
    Over s' n := by
  refine ⟨h.1.step hstep, fun q own hq => ?_⟩
  rcases running_of_step hstep hq with hq | ⟨-, tx, observed, hp, -, rfl⟩
  · exact h.2 q own hq
  · rintro rfl
    exact (decided_of_reaches hs hp).own.not_committed h.1

/-- The rows of the window whose statuses a claim reads are committed. -/
def Recorded (sh : Shared) : Proc → Prop
  | .handler (.statuses _ same) => ∀ i ∈ same, ∃ j ∈ sh.db.intents, j.inserted = i.inserted
  | _ => True

lemma recorded_of_reaches (h : Reaches env ok s) (p : Pid) : Recorded s.shared (s.procs p) := by
  refine Interleave.invariant_procs (P := fun _ sh pr => Recorded sh pr) ?_ ?_ ?_ h p
  · exact fun _ => trivial
  · intro s p a sh' pr' hs hr _ hact
    have hrp := hr p
    have hrule := rule_of_act hact
    revert hrp hrule
    generalize s.procs p = pr
    intro hrp hrule
    cases hrule with
    | land | lose => exact hrp
    | check hrows hverdict =>
      obtain ⟨rfl, -⟩ := resolveConflicts_check hverdict
      exact fun i hi => ⟨i, ((mem_conflictingIntents hrows).mp hi).1, rfl⟩
    | _ => trivial
  · intro s p a sh' pr' q hq hs hr _ hact
    have hrq := hr q
    revert hrq
    cases s.procs q with
    | handler hd =>
      cases hd with
      | statuses tx same =>
        intro hrq i hi
        obtain ⟨j, hj, heq⟩ := hrq i hi
        obtain ⟨j', hj', heq'⟩ := (rule_of_act hact).inserted hj
        exact ⟨j', hj', heq'.trans heq⟩
      | _ => exact fun _ => trivial
    | _ => exact fun _ => trivial

/-- A committed intent whose key is not pending is over. -/
lemma CallsOpen.over (h : CallsOpen s) (hids : Ids s.shared) (hi : i ∈ s.shared.db.intents)
    (hne : ∀ row, s.shared.db.keys.lookup i.keyID = some row → row.status ≠ .pending) :
    Over s i.intentID := by
  refine ⟨⟨i, hi, rfl⟩, fun q own hq hid => ?_⟩
  obtain ⟨⟨row, hrow, hpending⟩, hlast⟩ := h.key q own hq
  obtain ⟨older, j, heq, hji⟩ := KeyState.exists_of_lastID hlast
  have hj : j ∈ (s.shared.key own.req.keyID).intents := by simp [heq]
  obtain ⟨hj, hjk⟩ := List.mem_filter.mp hj
  obtain rfl : j = i := List.inj_on_of_nodup_map hids.nodup hj hi (hji.trans hid)
  have hk : j.keyID = own.req.keyID := by simpa using hjk
  exact hne row (hk ▸ hrow) hpending

/-- What a claim is about to record as `serialized` is over. -/
def Serialized (s : State) : Proc → Prop
  | .handler (.commit tx _) => ∀ c ∈ tx.conflicts, c.resolution = .serialized →
      c.intentIDA = tx.intent.intentID ∧ Over s c.intentIDB
  | _ => True

/-- A claim records as `serialized` only what its statuses have shown to be settled. -/
lemma Rule.serialized (h : Rule env p s.shared pr a sh' pr') (hheld : Held env p s.shared pr)
    (hscan : Scanned s.shared pr) (hrec : Recorded s.shared pr) (hids : Ids s.shared)
    (hopen : CallsOpen s) (hser : Serialized s pr) : Serialized s pr' := by
  cases h with
  | land | lose => exact hser
  | @window tx tx' verdict rows hrows hverdict =>
    have hheld : Undecided env p s.shared tx := hheld
    have hj := resolveConflicts_settled hheld.intent hheld.conflicts hverdict
    exact fun c hc hres => absurd hres (hj.conflicts c hc)
  | @statuses tx same rows hrows hnone =>
    intro c hc _
    obtain ⟨i, hi, m, rfl⟩ := mem_recordConflicts hc
    refine ⟨rfl, ?_⟩
    obtain ⟨j, hj, heq⟩ := hrec i hi
    obtain ⟨hid, hk⟩ := IntentRow.eq_of_inserted heq
    have hover := hopen.over hids hj fun row hrow =>
      Undecided.status_ne_pending hheld hrows hnone hi (hscan.1 i hi) (hk ▸ hrow)
    rwa [hid] at hover
  | _ => trivial

/-- What is over stays over, so what a claim is about to record stays right. -/
lemma Serialized.step (h : Serialized s pr) (hs : Reaches env ok s)
    (hstep : step env s (p, a) = some s') : Serialized s' pr := by
  cases pr with
  | handler hd =>
    cases hd with
    | commit tx verdict =>
      intro c hc hres
      obtain ⟨hA, hover⟩ := h c hc hres
      exact ⟨hA, hover.step hs hstep⟩
    | _ => trivial
  | _ => trivial

lemma serialized_of_reaches (h : Reaches env Serializing s) (p : Pid) :
    Serialized s (s.procs p) := by
  refine h.invariant (I := fun s => ∀ p, Serialized s (s.procs p)) (fun _ => trivial) ?_ p
  rintro s ⟨q, a⟩ s' hs hser - hstep p
  obtain ⟨hids, hheld⟩ := held_of_reaches hs
  by_cases hp : p = q
  · subst hp
    exact ((Rule.of_step hstep).serialized (hheld p) (scanned_of_reaches hs p)
      (recorded_of_reaches hs p) hids (callsOpen_of_reaches hs) (hser p)).step hs hstep
  · rw [Interleave.step_procs_of_ne hstep hp]
    exact (hser p).step hs hstep

/-! ## Calls that do not overlap -/

/-- The calls of the intent `n` have ended, before those of the intent `m` began. -/
def Ordered (sh : Shared) (n m : Nat) : Prop :=
  ∀ q call, sh.calls q = some call → call.own.intentID = n → ∃ t, call.ended = some t ∧
    ∀ q' call', sh.calls q' = some call' → call'.own.intentID = m → t < call'.began

/-- A step of a process that does not wait for its call leaves the end of its call alone. -/
lemma Rule.ended {call : Call} (h : Rule env p sh pr a sh' pr')
    (hphase : CallPhase (sh.calls p) pr) (hcall : sh'.calls p = some call)
    (hrun : pr.running ≠ some call.own) :
    ∃ c, sh.calls p = some c ∧ c.own = call.own ∧ c.ended = call.ended := by
  cases h with
  | land hc | lose hc =>
    simp only [Function.update_self, Option.some.injEq] at hcall
    exact ⟨_, hc, by rw [← hcall], by rw [← hcall]⟩
  | crashCall | ret =>
    simp only [Shared.endCall_calls, Function.update_self, Option.map_eq_some_iff] at hcall
    obtain ⟨c, hc, rfl⟩ := hcall
    obtain ⟨c', hc', rfl, -⟩ := hphase
    obtain rfl := Option.some.inj (hc.symm.trans hc')
    exact absurd rfl hrun
  | call =>
    simp only [sendCall_calls, Function.update_self, Option.some.injEq] at hcall
    rw [← hcall] at hrun
    exact absurd rfl hrun
  | complete hrule | completed hrule | completedStale hrule =>
    rw [hrule.frame] at hcall
    exact ⟨call, hcall, rfl, rfl⟩
  | _ => exact ⟨call, hcall, rfl, rfl⟩

/-- The calls of an intent that is over have ended. -/
lemma Over.ended (h : Over s n) (hs : Reaches env ok s) {call : Call}
    (hcall : s.shared.calls q = some call) (hn : call.own.intentID = n) :
    ∃ t, call.ended = some t := by
  have hphase := (callInv_of_reaches hs q).phase
  rw [hcall] at hphase
  refine hphase.stop fun own hq => ?_
  rw [hq] at hphase
  obtain ⟨c, ⟨⟩, rfl, -⟩ := hphase
  exact h.2 q call.own (by rw [hq]; rfl) hn

/-- **One step keeps the order of two intents' calls**, once the first is over: a call that
begins now begins after everything that has ended. -/
lemma Ordered.step (h : Ordered s.shared n m) (hover : Over s n) (hs : Reaches env ok s)
    (hstep : step env s (p, a) = some s') : Ordered s'.shared n m := by
  have hrule := Rule.of_step hstep
  have hticks := ticks_of_reaches hs
  intro q call hcall hn
  -- the earlier call had ended before the step
  have hbefore : ∃ c, s.shared.calls q = some c ∧ c.own = call.own ∧ c.ended = call.ended := by
    by_cases hq : q = p
    · subst hq
      refine hrule.ended (callInv_of_reaches hs q).phase hcall fun hrun => ?_
      exact hover.2 q call.own hrun hn
    · rw [hrule.calls_of_ne hq] at hcall
      exact ⟨call, hcall, rfl, rfl⟩
  obtain ⟨c, hc, hown, hended⟩ := hbefore
  obtain ⟨t, ht, hlt⟩ := h q c hc (by rw [hown, hn])
  refine ⟨t, hended ▸ ht, fun q' call' hcall' hm => ?_⟩
  by_cases hq' : q' = p
  · subst hq'
    rcases hrule.calls_cases hcall' with ⟨c', hc', hown', hbegan⟩ | ⟨-, -, hsh⟩
    · rw [hbegan]
      exact hlt q' c' hc' (by rw [← hown', hm])
    · rw [hsh, sendCall_calls, Function.update_self, Option.some.injEq] at hcall'
      rw [← hcall']
      exact (hticks q c hc).2 t ht
  · rw [hrule.calls_of_ne hq'] at hcall'
    exact hlt q' call' hcall' hm

/-- Only calls of committed intents are made. -/
lemma committed_of_call (h : Reaches env Serializing s) {call : Call}
    (hcall : s.shared.calls q = some call) : Committed s.shared call.own.intentID := by
  refine h.invariant (I := fun s => ∀ q call, s.shared.calls q = some call →
    Committed s.shared call.own.intentID) (fun q call h => by cases h) ?_ q call hcall
  rintro s ⟨p, a⟩ s' hs hI - hstep q call hcall
  have hrule := Rule.of_step hstep
  refine Committed.step ?_ hstep
  by_cases hq : q = p
  · subst hq
    rcases hrule.calls_cases hcall with ⟨c, hc, hown, -⟩ | ⟨hexec, -, -⟩
    · exact hown ▸ hI q c hc
    · obtain ⟨-, hlast⟩ := (callsOpen_of_reaches hs).key q call.own (by rw [hexec]; rfl)
      obtain ⟨older, i, heq, hid⟩ := KeyState.exists_of_lastID hlast
      have hi : i ∈ (s.shared.key call.own.req.keyID).intents := by simp [heq]
      exact ⟨i, (List.mem_filter.mp hi).1, hid⟩
  · rw [hrule.calls_of_ne hq] at hcall
    exact hI q call hcall

/-- **The two calls of a `serialized` conflict never overlap.** -/
theorem ordered_of_reaches (h : Reaches env Serializing s) :
    ∀ c ∈ s.shared.db.conflicts, c.resolution = .serialized →
      Over s c.intentIDB ∧ Ordered s.shared c.intentIDB c.intentIDA := by
  refine h.invariant (I := fun s => ∀ c ∈ s.shared.db.conflicts, c.resolution = .serialized →
    Over s c.intentIDB ∧ Ordered s.shared c.intentIDB c.intentIDA) (fun c hc => by cases hc) ?_
  rintro s ⟨p, a⟩ s' hs hI - hstep c hc hres
  rcases (Rule.of_step hstep).conflicts_cases hc with hc | ⟨tx, verdict, hp, hsh, hc⟩
  · obtain ⟨hover, hord⟩ := hI c hc hres
    exact ⟨hover.step hs hstep, hord.step hover hs hstep⟩
  · -- the claim commits its conflicts before its own call can be made
    have hser := serialized_of_reaches hs p
    rw [hp] at hser
    obtain ⟨hA, hover⟩ := hser c hc hres
    refine ⟨hover.step hs hstep, fun q call hcall hn => ?_⟩
    rw [hsh] at hcall
    obtain ⟨t, ht⟩ := hover.ended hs hcall hn
    refine ⟨t, ht, fun q' call' hcall' hm => ?_⟩
    rw [hsh] at hcall'
    have hcommitted := committed_of_call hs hcall'
    rw [hm, hA] at hcommitted
    exact absurd hcommitted (decided_of_reaches hs hp).own.not_committed

/-! ## The two readings of `serialized` -/

/-- **`serialized` is true.** When an enforced claim is about to commit as claimed, every live
intent of the same agent on the resource that is in the window and not compatible belongs to a
key that is not pending, and that key's row does not change any more. And for every conflict
recorded as `serialized`, the call of the earlier write has ended before the call of the later
write began. -/
theorem serialized_conflicts (h : Reaches env Serializing s) :
    (∀ p tx observed, s.procs p = .handler (.commit tx (.claimed observed)) →
      tx.req.enforce = true → ∀ i ∈ s.shared.db.intents, i.agentID = tx.req.agentID →
      i.live = true → i.resourceType = tx.req.resourceType → i.resourceID = tx.req.resourceID →
      tx.now - tx.req.window < i.emittedAt → compatible tx.req.declared i.declared = false →
      ∃ row, s.shared.db.keys.lookup i.keyID = some row ∧ row.status ≠ .pending ∧
        ∀ as t, Run (step env) Serializing s as t → t.shared.db.keys.lookup i.keyID = some row) ∧
    (∀ c ∈ s.shared.db.conflicts, c.resolution = .serialized →
      ∀ q call, s.shared.calls q = some call → call.own.intentID = c.intentIDB →
        ∃ t, call.ended = some t ∧ ∀ q' call', s.shared.calls q' = some call' →
          call'.own.intentID = c.intentIDA → t < call'.began) := by
  have hs := reaches_noRetention h
  refine ⟨?_, fun c hc hres => (ordered_of_reaches h c hc hres).2⟩
  intro p tx observed hp henforce i hi _ hlive htype hid hwindow hcompat
  have hrivals := rivalsOver_of_reaches hs p
  rw [hp] at hrivals
  have hfresh := (decided_of_reaches hs hp).own.fresh i hi
  have hrival : Rival tx i :=
    ⟨inWindow_iff.mpr ⟨htype, hid, hwindow, hlive, hfresh⟩, hcompat⟩
  obtain ⟨row, hrow, hstatus⟩ := hrivals henforce i hi hrival
  refine ⟨row, hrow, ?_, fun as t hrun => ?_⟩
  · rcases hstatus with hstatus | hstatus <;> simp [hstatus]
  · exact final_of_run hs hrow (hstatus.imp_right .inl) (hrun.mono fun _ _ hok => hok.1)

/-- One agent replaces a resource twice. The second claim finds the first key done and is
recorded as `serialized`; its call begins after that of the first write ended. -/
theorem serialized_conflicts_twice : ∃ s t, ∃ c ∈ s.shared.db.conflicts, ∃ call call',
    Reaches Env.small Serializing s ∧ c.resolution = .serialized ∧
    s.shared.calls 0 = some call ∧ call.own.intentID = c.intentIDB ∧
    s.shared.calls 1 = some call' ∧ call'.own.intentID = c.intentIDA ∧
    call.ended = some t ∧ t < call'.began := by
  obtain ⟨s, hrun, hs⟩ := exists_run_of_exec (step Env.small)
    (fun s ia => NoRetention s ia ∧ quiet [0, 1] s ia = true) init
    (
      insertSteps 0 (.small .replace true) (.small "a" keyA) 5 [] ++
      [(0, .commit .ok), (0, .call), (0, .land), (0, .ret ⟨.done, [1], ""⟩), (0, .place true),
        (0, .begin 6), (0, .update), (0, .commit .ok)] ++
      insertSteps 1 (.small .replace true) (.small "a" keyB) 7 [.small 1 .replace "a" keyA 5] ++
      [(1, .statuses [(keyA, .done)]), (1, .commit .ok), (1, .call)])
    (fun s => s.shared.db.conflicts.any fun c =>
      (s.shared.calls 0).any fun call => (s.shared.calls 1).any fun call' =>
        c.resolution = .serialized ∧ call.own.intentID = c.intentIDB ∧
          call'.own.intentID = c.intentIDA) (by decide +kernel)
  obtain ⟨c, hc, hs⟩ := List.any_eq_true.mp hs
  obtain ⟨call, hcall, hs⟩ := (Option.any_eq_true _ _).mp hs
  obtain ⟨call', hcall', hs⟩ := (Option.any_eq_true _ _).mp hs
  obtain ⟨hres, hB, hA⟩ := of_decide_eq_true hs
  have hreach : Reaches Env.small Serializing s :=
    Reachable.mono_of_reachable (fun t ia ht hok => ⟨hok.1,
      .of_quiet (fun _ _ hok => mem_of_quiet hok.2) ht hok.2⟩) ⟨_, hrun⟩
  obtain ⟨t, ht, hlt⟩ := (serialized_conflicts hreach).2 c hc hres 0 call hcall hB
  exact ⟨s, t, c, hc, call, call', hreach, hres, hcall, hB, hcall', hA, ht, hlt 1 call' hcall' hA⟩

end Idemio
