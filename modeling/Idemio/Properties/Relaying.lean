import Idemio.Properties.ConflictLog
import Idemio.Properties.History
import Idemio.Properties.Publication

set_option relaxedAutoImplicit false
set_option autoImplicit false

/-!
# What relays publish, and how soon

A relay publishes rows of `write_intents` as it has read them, and the only rows there are those
that claims have committed. So whatever the publisher has accepted is the intent of a committed
claim, field by field; only whether it is voided may be out of date.

`selectUnpublished` takes the earliest rows, as many as a batch holds. Rows that are committed
later do not come before those that were there, if they were emitted later. So every cycle of one
relay that takes effect brings down what is left of the rows emitted by a given time by a whole
batch, whatever other relays, claims, completions and passes do in between.

## Main definitions

* `Idemio.FromClaim` — a message is that of the intent of a committed claim.
* `Idemio.Store.due` — how many rows emitted by a given time are unpublished and not in a batch.
* `Idemio.EmitsAfter` — no intent emitted by a given time is committed from now on.
* `Idemio.cycles` — the cycles of a relay that take effect in a run.

## Main results

* `Idemio.published_claimed` — everything that was published is the intent of a claim.
* `Idemio.relay_drains` — with enough cycles of one relay, everything that was emitted by a given
  time is published.
-/

namespace Idemio

open Transition

variable {env : Env} {r : Retention} {archiver : Pid → Archiver} {limit : Nat} {p q : Pid}
  {s s' : Store} {w w' : Worker} {a : OutboxAction} {m : Message} {i : IntentRow} {t now : Time}
  {batch : List Message} {partitions : AList (fun _ : String => Range)}
  {ok : Outbox → Pid × OutboxAction → Prop} {c c' : Outbox}

/-! ## Only claims are published -/

/-- The row is the intent of a committed claim, voided or not. -/
def Claims (s : Store) (i : IntentRow) : Prop :=
  ∃ claimed ∈ s.claims, i.inserted = claimed.tx.intent.inserted

/-- The message is that of the intent of a committed claim, voided or not. -/
def FromClaim (env : Env) (s : Store) (m : Message) : Prop :=
  ∃ claimed ∈ s.claims, ∃ voidedAt,
    m = message env { claimed.tx.intent with voidedAt := voidedAt }

section Rules

variable {b : Action} {sh sh' : Shared} {pr pr' : Proc}

/-- What a claim or a completion leaves in the table was there, up to voiding, or is the intent
that the claim commits. -/
lemma Rule.intents_cases (h : Rule env q sh pr b sh' pr') (hi : i ∈ sh'.db.intents) :
    (∃ j ∈ sh.db.intents, i.inserted = j.inserted) ∨
      ∃ claimed ∈ sh'.claims, i = claimed.tx.intent := by
  rcases h.db_cases with ⟨hdb, -⟩ | ⟨-, ⟨tx, verdict, -, rfl⟩ |
    ⟨_, _, now, _, voided, -, -, rfl⟩ | ⟨_, _, -, rfl⟩⟩
  · exact .inl ⟨i, hdb ▸ hi, rfl⟩
  · rcases List.mem_append.mp hi with hold | hnew
    · exact .inl ⟨i, hold, rfl⟩
    · exact .inr ⟨⟨q, tx, verdict⟩, List.mem_append_right _ List.mem_cons_self,
        List.mem_singleton.mp hnew⟩
  · have hmem : i.inserted ∈ (voidLatest now voided sh.db.intents).map (·.inserted) :=
      List.mem_map_of_mem hi
    rw [map_inserted_voidLatest] at hmem
    obtain ⟨j, hj, hji⟩ := List.mem_map.mp hmem
    exact .inl ⟨j, hj, hji.symm⟩
  · exact .inl ⟨i, hi, rfl⟩

end Rules

/-- Committed claims stay on record. -/
lemma OutboxRule.claims (h : OutboxRule env r archiver limit p s w a s' w')
    (haged : Aged r s w.pass) : s.claims ⊆ s'.claims := by
  cases h with
  | core hstep => exact fun _ hclaimed => (Rule.of_step hstep).claims_subset hclaimed
  | relay hrule =>
    rw [hrule.frame]
    exact List.Subset.refl _
  | pass hrule =>
    rw [((StoreChange.of_passRule hrule).frame haged).1]
    exact List.Subset.refl _

/-- A pass adds no row. -/
lemma StoreChange.intents {pass : Pass IntentRow} {b : PassAction} (h : StoreChange s pass b s')
    (haged : Aged r s pass) : s'.intents.Sublist s.intents := by
  cases h with
  | same hcore =>
    rw [Store.intents, hcore]
    exact List.Sublist.refl _
  | drop hpass hattached => cases (haged.gone _ hpass).symm.trans hattached
  | detach _ _ _ _ _ hs =>
    rw [hs]
    exact List.filter_sublist

/-- What a relay reads of the intent of a claim. -/
lemma Claims.message (h : Claims s i) : FromClaim env s (message env i) := by
  obtain ⟨claimed, hclaimed, hins⟩ := h
  exact ⟨claimed, hclaimed, i.voidedAt, congrArg _ (IntentRow.eq_with_voidedAt hins)⟩

lemma FromClaim.mono (h : FromClaim env s m) (hclaims : s.claims ⊆ s'.claims) :
    FromClaim env s' m :=
  h.imp fun _ hclaimed => ⟨hclaims hclaimed.1, hclaimed.2⟩

lemma SelectUnpublished.mem {rows : List IntentRow} (h : SelectUnpublished s limit rows)
    (hi : i ∈ rows) : i ∈ s.intents :=
  (List.mem_filter.mp (h.1.mem_iff.mp (List.mem_append_left _ hi))).1

/-- Rows, batches and what was published come from claims. -/
structure Genuine (env : Env) (c : Outbox) : Prop where
  rows : ∀ i ∈ c.shared.intents, Claims c.shared i
  batches : ∀ p, ∀ m ∈ (c.procs p).relay.batch, FromClaim env c.shared m
  log : ∀ m ∈ c.shared.log, FromClaim env c.shared m

/-- The rows come from claims after a step. -/
lemma OutboxRule.rows (h : OutboxRule env r archiver limit p s w a s' w')
    (haged : Aged r s w.pass) (hrows : ∀ i ∈ s.intents, Claims s i) :
    ∀ i ∈ s'.intents, Claims s' i := by
  cases h with
  | core hstep =>
    have hrule := Rule.of_step hstep
    intro i hi
    rcases hrule.intents_cases hi with ⟨j, hj, hij⟩ | ⟨claimed, hclaimed, rfl⟩
    · obtain ⟨claimed, hclaimed, hins⟩ := hrows j hj
      exact ⟨claimed, hrule.claims_subset hclaimed, hij.trans hins⟩
    · exact ⟨claimed, hclaimed, rfl⟩
  | relay hrule =>
    rw [hrule.frame]
    exact hrows
  | pass hrule =>
    have hchange := StoreChange.of_passRule hrule
    intro i hi
    obtain ⟨claimed, hclaimed, hins⟩ := hrows i ((hchange.intents haged).subset hi)
    exact ⟨claimed, (hchange.frame haged).1.symm ▸ hclaimed, hins⟩

/-- What a relay has at hand and what was published come from claims after a step. -/
lemma OutboxRule.genuine (h : OutboxRule env r archiver limit p s w a s' w')
    (haged : Aged r s w.pass) (hrows : ∀ i ∈ s.intents, Claims s i)
    (hbatch : ∀ m ∈ w.relay.batch, FromClaim env s m) (hlog : ∀ m ∈ s.log, FromClaim env s m) :
    (∀ m ∈ w'.relay.batch, FromClaim env s' m) ∧ ∀ m ∈ s'.log, FromClaim env s' m := by
  have hclaims := h.claims haged
  cases h with
  | core => exact ⟨fun m hm => (hbatch m hm).mono hclaims, fun m hm => (hlog m hm).mono hclaims⟩
  | relay hrule =>
    generalize w.relay = relay at hrule hbatch
    cases hrule with
    | select hselect =>
      refine ⟨fun m hm => ?_, hlog⟩
      obtain ⟨i, hi, rfl⟩ := List.mem_map.mp hm
      exact (hrows i (hselect.mem hi)).message
    | accept hm =>
      refine ⟨hbatch, fun m' hm' => ?_⟩
      rcases List.mem_append.mp hm' with hold | hnew
      · exact hlog m' hold
      · rw [List.mem_singleton.mp hnew]
        exact hbatch _ hm
    | written => exact ⟨hbatch, hlog⟩
    | _ => exact ⟨fun m hm => (List.not_mem_nil hm).elim, hlog⟩
  | pass hrule =>
    have hframe := (StoreChange.of_passRule hrule).frame haged
    exact ⟨fun m hm => (hbatch m hm).mono hclaims,
      fun m hm => (hlog m (hframe.2.2 ▸ hm)).mono hclaims⟩

lemma Genuine.step (h : Genuine env c) (haged : Aged r c.shared (c.procs p).pass)
    (hstep : outboxStep env r archiver limit c (p, a) = some c') : Genuine env c' := by
  obtain ⟨s', w', hact, rfl⟩ := Interleave.step_eq_some.mp hstep
  have hrule := outboxRule_of_act hact
  obtain ⟨hbatch, hlog⟩ := hrule.genuine haged h.rows (h.batches p) h.log
  refine ⟨hrule.rows haged h.rows, fun q => ?_, hlog⟩
  by_cases hq : q = p
  · subst hq
    simpa using hbatch
  · simp only [Function.update_of_ne hq]
    exact fun m hm => (h.batches q m hm).mono (hrule.claims haged)

/-- **Everything that was published is the intent of a claim.** In every run of claims,
completions, relays and passes, whatever fails in between, each message that the publisher has
accepted is that of an intent which a claim transaction committed. All of its fields are as that
claim wrote them, but for `voided`.

**Proof sketch.** A claim puts its intent into the table as it commits, and no other step adds a
row. A `Complete` sets `voided_at` only, and a pass only takes rows off. A relay reads its batch
from the table and publishes what is in its batch. -/
theorem published_claimed
    (h : Reachable (outboxStep env r archiver limit) ok (Outbox.init partitions) c) :
    ∀ m ∈ c.shared.log, ∃ claimed ∈ c.shared.claims, ∃ voidedAt,
      m = message env { claimed.tx.intent with voidedAt := voidedAt } := by
  have hgenuine : Genuine env c := by
    refine h.invariant (I := Genuine env) ⟨?_, ?_, ?_⟩ ?_
    · exact fun i hi => (List.not_mem_nil hi).elim
    · exact fun p m hm => (List.not_mem_nil hm).elim
    · exact fun m hm => (List.not_mem_nil hm).elim
    · rintro c ⟨p, a⟩ c' hc hI - hstep
      exact hI.step (aged_of_reachable hc p) hstep
  exact hgenuine.log

/-- A write fails, and then its intent is published, as voided. -/
theorem published_claimed_voided : ∃ c m,
    Reachable Outbox.smallStep (fun _ _ => True) Outbox.small c ∧ m ∈ c.shared.log ∧
    m.voided = true ∧ ∃ claimed ∈ c.shared.claims, ∃ voidedAt,
      m = message Env.small { claimed.tx.intent with voidedAt := voidedAt } := by
  let i : IntentRow := { IntentRow.small 1 .replace "a" keyA 5 with voidedAt := some 6 }
  obtain ⟨c, hrun, hc⟩ := exists_run_of_exec Outbox.smallStep (fun _ _ => True) Outbox.small
    (coreSteps (insertSteps 0 (.small .replace true) (.small "a" keyA) 5 [] ++
        [(0, .commit .ok)] ++ failSteps (.small 1 .replace "a" keyA 5)) ++
      publishSteps 0 i)
    (fun c => message Env.small i ∈ c.shared.log) (by decide +kernel)
  have hm := of_decide_eq_true hc
  exact ⟨c, _, ⟨_, hrun⟩, hm, rfl, published_claimed ⟨_, hrun⟩ _ hm⟩

/-! ## What is due -/

/-- How many rows there are that were emitted by the time `t`, are unpublished and would stay so
if the batch were marked. -/
def Store.due (t : Time) (batch : List Message) (s : Store) : Nat :=
  s.intents.countP fun i => s.unpublished i && (decide (i.emittedAt ≤ t) && !marks batch i)

/-- The intent that a claim is about to commit. -/
def Proc.emitting : Proc → Option IntentRow
  | .handler (.commit tx _) => some tx.intent
  | _ => none

/-- The intent that is committed in this step. -/
def OutboxAction.emits (core : State) : OutboxAction → Option IntentRow
  | .core q a => if a.commits then (core.procs q).emitting else none
  | _ => none

/-- Whatever intent is committed was emitted after the time `t`. -/
def EmitsAfter (t : Time) (c : Outbox) (ia : Pid × OutboxAction) : Prop :=
  ∀ i ∈ ia.2.emits c.shared.core, t < i.emittedAt

instance (t : Time) (c : Outbox) (ia : Pid × OutboxAction) : Decidable (EmitsAfter t c ia) :=
  inferInstanceAs (Decidable (∀ i ∈ (_ : Option IntentRow), _))

/-- The action ends a cycle that takes effect: there was nothing to publish, or the batch is
marked. -/
def OutboxAction.completes : OutboxAction → Bool
  | .relay (.select []) => true
  | .relay (.mark _ .ok) => true
  | .relay (.mark _ .unseen) => true
  | _ => false

/-- The cycles of the relay `p` that take effect. -/
def cycles (p : Pid) (steps : List (Pid × OutboxAction)) : Nat :=
  steps.countP fun ia => decide (ia.1 = p) && ia.2.completes

/-- Nothing is due if and only if all rows that were emitted by then are published. -/
lemma due_eq_zero : s.due t [] = 0 ↔
    ∀ i ∈ s.intents, i.emittedAt ≤ t → s.published i.intentID ≠ none := by
  simp only [Store.due, List.countP_eq_zero, Store.unpublished, marks, List.map_nil,
    List.not_mem_nil, decide_false, Bool.false_and, Bool.not_false, Bool.and_true,
    Bool.and_eq_true, Option.isNone_iff_eq_none, decide_eq_true_eq, not_and]
  exact forall₂_congr fun i _ => imp_not_comm

/-- Less is due if no row is added and no mark is lost. -/
lemma due_le (hrows : s'.intents.Sublist s.intents)
    (hpublished : ∀ n, s.published n ≠ none → s'.published n ≠ none) :
    s'.due t batch ≤ s.due t batch := by
  refine Nat.le_trans (List.countP_mono_left fun i _ hi => ?_) hrows.countP_le
  simp only [Bool.and_eq_true, Store.unpublished, Option.isNone_iff_eq_none] at hi ⊢
  exact ⟨by_contra fun hold => hpublished _ hold hi.1, hi.2⟩

/-- Marking loses no mark. -/
lemma markPublished_mono {n : Nat} (h : s.published n ≠ none) :
    (s.markPublished now batch).published n ≠ none := by
  simp only [Store.markPublished]
  split
  · exact Option.some_ne_none _
  · exact h

/-- What is left once a batch is marked. -/
lemma due_markPublished : (s.markPublished now batch).due t [] ≤ s.due t batch := by
  refine List.countP_mono_left fun i hi hdue => ?_
  simp only [Bool.and_eq_true, Store.unpublished, Option.isNone_iff_eq_none] at hdue ⊢
  obtain ⟨hnull, ht, -⟩ := hdue
  refine ⟨by_contra fun hold => markPublished_mono hold hnull, ht, ?_⟩
  -- A row that the batch marks would have a mark now.
  simp only [Store.markPublished] at hnull
  split at hnull
  · cases hnull
  · next hany =>
    by_contra hmarks
    exact hany (List.any_eq_true.mpr ⟨i, hi, by simpa using hmarks⟩)

/-- The messages of rows mark these rows. -/
lemma marks_message {rows : List IntentRow} (hi : i ∈ rows) :
    marks (rows.map (message env)) i = true := by
  simp only [marks, List.map_map, Bool.and_eq_true, decide_eq_true_eq]
  exact ⟨List.mem_map_of_mem hi, List.mem_map_of_mem hi⟩

/-- **A batch is a whole one, or all that is due is in it.**

**Proof sketch.** If a row that is due is left out, the rows of the batch were emitted no later,
so all of them were due, and the batch is full. -/
lemma SelectUnpublished.due {rows : List IntentRow} (h : SelectUnpublished s limit rows) :
    s.due t (rows.map (message env)) ≤ s.due t [] - limit := by
  obtain ⟨hperm, -, hlength, hbefore⟩ := h
  set rest := (s.intents.filter s.unpublished).diff rows with hrest
  have hsplit : ∀ b, s.due t b =
      rows.countP (fun i => decide (i.emittedAt ≤ t) && !marks b i) +
        rest.countP fun i => decide (i.emittedAt ≤ t) && !marks b i := by
    intro b
    rw [← List.countP_append, hperm.countP_eq, List.countP_filter]
    exact List.countP_congr fun i _ => by rw [Bool.and_comm]
  have hbatch : rows.countP (fun i =>
      decide (i.emittedAt ≤ t) && !marks (rows.map (message env)) i) = 0 :=
    List.countP_eq_zero.mpr fun i hi => by simp [marks_message hi]
  have hle : rest.countP (fun i =>
      decide (i.emittedAt ≤ t) && !marks (rows.map (message env)) i) ≤
        rest.countP fun i => decide (i.emittedAt ≤ t) && !marks [] i :=
    List.countP_mono_left fun i _ hi => by simp_all [marks]
  rw [hsplit, hsplit [], hbatch, Nat.zero_add]
  rcases Nat.eq_zero_or_pos (rest.countP fun i => decide (i.emittedAt ≤ t) && !marks [] i) with
    hzero | hpos
  · omega
  · obtain ⟨j, hj, hjt⟩ := List.countP_pos_iff.mp hpos
    have hall : rows.countP (fun i => decide (i.emittedAt ≤ t) && !marks [] i) = rows.length := by
      refine List.countP_eq_length.mpr fun i hi => ?_
      have hit : i.emittedAt ≤ t := Int.le_trans (hbefore i hi j hj) (by simpa [marks] using hjt)
      simp [hit, marks]
    have hfull : rows.length = limit := by
      have hlt := hperm.length_eq
      have hone := List.length_pos_of_mem hj
      rw [List.length_append] at hlt
      omega
    omega

/-! ## Steps -/

/-- A claim or a completion adds no row that counts, if the intent that is committed does not. -/
lemma Rule.countP_intents {b : Action} {sh sh' : Shared} {pr pr' : Proc} {f : IntentRow → Bool}
    (h : Rule env q sh pr b sh' pr') (hf : ∀ i, f i.inserted = f i)
    (hnew : b.commits = true → ∀ i ∈ pr.emitting, f i = false) :
    sh'.db.intents.countP f ≤ sh.db.intents.countP f := by
  rcases h.db_cases with ⟨hdb, -⟩ | ⟨hcommits, ⟨tx, verdict, rfl, rfl⟩ |
    ⟨_, _, now, _, voided, -, -, rfl⟩ | ⟨_, _, -, rfl⟩⟩
  · rw [hdb]
  · change (sh.db.intents ++ [tx.intent]).countP f ≤ _
    simp [hnew hcommits tx.intent rfl]
  · -- Voiding changes nothing that counts.
    have hinserted : ∀ l : List IntentRow, l.countP f = (l.map (·.inserted)).countP f := by
      intro l
      rw [List.countP_map]
      exact List.countP_congr fun i _ => by rw [Function.comp_apply, hf]
    change (voidLatest now voided sh.db.intents).countP f ≤ _
    rw [hinserted, map_inserted_voidLatest, ← hinserted]
  · exact Nat.le_refl _

/-- **No step brings in something that is due**, if what is committed was emitted later. -/
lemma OutboxRule.due (h : OutboxRule env r archiver limit p s w a s' w')
    (haged : Aged r s w.pass) (hafter : ∀ i ∈ a.emits s.core, t < i.emittedAt) :
    s'.due t batch ≤ s.due t batch := by
  cases h with
  | core hstep =>
    refine (Rule.of_step hstep).countP_intents (fun i => rfl) fun hcommits i hi => ?_
    have hlate : t < i.emittedAt := hafter i (by simpa [OutboxAction.emits, hcommits] using hi)
    simp [Int.not_le.mpr hlate]
  | relay hrule =>
    refine due_le ?_ fun n hn => ?_
    · rw [hrule.frame]
      exact List.Sublist.refl _
    · generalize w.relay = relay at hrule
      cases hrule with
      | mark => exact markPublished_mono hn
      | _ => exact hn
  | pass hrule =>
    have hchange := StoreChange.of_passRule hrule
    exact due_le (hchange.intents haged) fun n hn => (hchange.frame haged).2.1.symm ▸ hn

/-- What `unpublished` returns is what the statement may return. -/
lemma selectUnpublished_of_step {relay relay' : Relay} {rows : List IntentRow}
    (h : relay.step env limit s (.select rows) = some (s', relay')) :
    SelectUnpublished s limit rows := by
  cases relay with
  | idle =>
    by_contra hrows
    simp [Relay.step, hrows] at h
  | write | mark => cases h

/-- What is due after `k` cycles of the relay, of what was due at first; and what will be left
once the batch at hand is marked. -/
structure Draining (t : Time) (limit total k : Nat) (s : Store) (relay : Relay) : Prop where
  rest : s.due t [] ≤ total - k * limit
  batch : relay ≠ .idle → s.due t relay.batch ≤ total - (k + 1) * limit

variable {total k n : Nat} {relay relay' : Relay}

/-- A relay that ends a cycle has brought down what is due by a batch. -/
lemma Draining.act {b : RelayAction} (h : Draining t limit total k s relay)
    (hstep : relay.step env limit s b = some (s', relay')) :
    Draining t limit total (k + (OutboxAction.relay b).completes.toNat) s' relay' := by
  have hnext : total - k * limit - limit = total - (k + 1) * limit := by
    rw [Nat.sub_sub, Nat.succ_mul]
  have hrest := h.rest
  cases relayRule_of_step hstep with
  | @select rows hrows =>
    have hdue : s.due t (rows.map (message env)) ≤ s.due t [] - limit := hrows.due
    cases rows with
    | nil => simp [Relay.step, hrows] at hstep
    | cons i rows =>
      refine ⟨hrest, fun _ => Nat.le_trans hdue ?_⟩
      exact hnext ▸ Nat.sub_le_sub_right hrest limit
  | empty =>
    have hdue : s.due t ([].map (message env)) ≤ s.due t [] - limit :=
      (selectUnpublished_of_step hstep).due
    rw [List.map_nil] at hdue
    exact ⟨by simp only [OutboxAction.completes, Bool.toNat_true]; omega, fun h => absurd rfl h⟩
  | accept | written => exact ⟨hrest, fun _ => h.batch Relay.noConfusion⟩
  | @mark batch now outcome =>
    have hdue : (s.markPublished now batch).due t [] ≤ s.due t batch := due_markPublished
    have hbatch : s.due t batch ≤ total - (k + 1) * limit := h.batch Relay.noConfusion
    refine ⟨?_, fun h => absurd rfl h⟩
    cases outcome <;>
      simp only [OutboxAction.completes, Bool.toNat_true, Bool.toNat_false, Nat.add_zero] <;> omega
  | refused | fail => exact ⟨hrest, fun h => absurd rfl h⟩

/-- **What is due goes down by a batch with every cycle of the relay `p`**, whatever step is
taken in between. -/
lemma Draining.step (h : Draining t limit total k c.shared (c.procs p).relay)
    (haged : Aged r c.shared (c.procs q).pass) (hafter : EmitsAfter t c (q, a))
    (hstep : outboxStep env r archiver limit c (q, a) = some c') :
    Draining t limit total (k + cycles p [(q, a)]) c'.shared (c'.procs p).relay := by
  have hact := Interleave.act_of_step hstep
  have hdue : ∀ batch, c'.shared.due t batch ≤ c.shared.due t batch := fun batch =>
    (outboxRule_of_act hact).due haged hafter
  -- A step that leaves the relay as it is, and ends no cycle of it.
  have hkept : (c'.procs p).relay = (c.procs p).relay → cycles p [(q, a)] = 0 →
      Draining t limit total (k + cycles p [(q, a)]) c'.shared (c'.procs p).relay := by
    intro hrelay hzero
    rw [hrelay, hzero]
    exact ⟨Nat.le_trans (hdue _) h.rest, fun hne => Nat.le_trans (hdue _) (h.batch hne)⟩
  by_cases hq : q = p
  · subst hq
    cases a with
    | core b d =>
      obtain ⟨core, -, heq⟩ := Option.map_eq_some_iff.mp hact
      exact hkept (congrArg (·.2.relay) heq).symm (by simp [cycles, OutboxAction.completes])
    | pass b =>
      obtain ⟨⟨_, pass⟩, -, heq⟩ := Option.map_eq_some_iff.mp hact
      exact hkept (congrArg (·.2.relay) heq).symm (by simp [cycles, OutboxAction.completes])
    | relay b =>
      obtain ⟨⟨s', relay'⟩, hrelay, heq⟩ := Option.map_eq_some_iff.mp hact
      have hcycle : cycles q [(q, .relay b)] = (OutboxAction.relay b).completes.toNat := by
        cases hb : (OutboxAction.relay b).completes <;> simp [cycles, hb]
      obtain ⟨hshared, hworker⟩ := Prod.mk.inj heq
      rw [hcycle, ← hshared, ← hworker]
      exact h.act hrelay
  · refine hkept ?_ (by simp [cycles, hq])
    rw [Interleave.step_procs_of_ne hstep (Ne.symm hq)]

/-- What is due after a run. -/
lemma Draining.run {steps : List (Pid × OutboxAction)}
    (h : Reachable (outboxStep env r archiver limit) (fun _ _ => True) (Outbox.init partitions) c)
    (hidle : (c.procs p).relay = .idle)
    (hrun : Run (outboxStep env r archiver limit) (EmitsAfter t) c steps c') :
    Draining t limit (c.shared.due t []) (cycles p steps) c'.shared (c'.procs p).relay := by
  induction hrun with
  | nil => exact ⟨by simp [cycles], fun hne => absurd hidle hne⟩
  | @snoc as c₁ c₂ ia hrun hafter hstep ih =>
    have hreach := h.trans ⟨as, hrun.mono fun _ _ _ => trivial⟩
    have hcycles : cycles p (as ++ [ia]) = cycles p as + cycles p [ia] := List.countP_append
    rw [hcycles]
    exact ih.step (aged_of_reachable hreach ia.1) hafter hstep

/-! ## Cycles can be made -/

/-- There is always something that `selectUnpublished` may return: the first rows in the order of
their times. -/
lemma exists_selectUnpublished (s : Store) (limit : Nat) :
    ∃ rows, SelectUnpublished s limit rows := by
  let le : IntentRow → IntentRow → Bool := fun i j => decide (i.emittedAt ≤ j.emittedAt)
  have hperm := List.mergeSort_perm (s.intents.filter s.unpublished) le
  have hsorted : ((s.intents.filter s.unpublished).mergeSort le).Pairwise
      fun i j => i.emittedAt ≤ j.emittedAt := by
    refine (List.pairwise_mergeSort ?_ ?_ _).imp fun h => of_decide_eq_true h
    · exact fun i j k hij hjk => decide_eq_true
        (Int.le_trans (of_decide_eq_true hij) (of_decide_eq_true hjk))
    · exact fun i j => by simpa [le] using Int.le_total i.emittedAt j.emittedAt
  generalize (s.intents.filter s.unpublished).mergeSort le = sorted at hperm hsorted
  rw [← List.take_append_drop limit sorted] at hsorted
  obtain ⟨htake, -, hbefore⟩ := List.pairwise_append.mp hsorted
  have hdiff : (sorted.take limit ++ (s.intents.filter s.unpublished).diff
      (sorted.take limit)).Perm (s.intents.filter s.unpublished) := by
    refine List.subperm_append_diff_self_of_count_le fun i _ => ?_
    rw [← hperm.count_eq]
    exact (List.take_sublist _ _).count_le i
  have hrest : ((s.intents.filter s.unpublished).diff (sorted.take limit)).Perm
      (sorted.drop limit) := by
    refine (List.perm_append_left_iff (sorted.take limit)).mp (hdiff.trans ?_)
    rw [List.take_append_drop]
    exact hperm.symm
  refine ⟨sorted.take limit, hdiff, htake, ?_, fun i hi j hj => ?_⟩
  · rw [List.length_take, hperm.length_eq]
  · exact hbefore i hi j (hrest.mem_iff.mp hj)

/-- From this state the relay `p` can come to be idle by `n` cycles that take effect, and no
intent emitted by the time `t` is committed on the way. -/
def CanCycle (env : Env) (r : Retention) (archiver : Pid → Archiver) (limit : Nat) (t : Time)
    (p : Pid) (n : Nat) (c : Outbox) : Prop :=
  ∃ steps c', Run (outboxStep env r archiver limit) (EmitsAfter t) c steps c' ∧
    cycles p steps = n ∧ (c'.procs p).relay = .idle

/-- The relay takes a step and goes on from there. -/
lemma CanCycle.cons {b : RelayAction} (hrelay : (c.procs p).relay = relay)
    (hstep : relay.step env limit c.shared b = some (s', relay'))
    (h : ∀ c', c'.shared = s' → (c'.procs p).relay = relay' →
      CanCycle env r archiver limit t p n c') :
    CanCycle env r archiver limit t p ((OutboxAction.relay b).completes.toNat + n) c := by
  subst hrelay
  obtain ⟨steps, c', hrun, hcycles, hidle⟩ :=
    h ⟨s', Function.update c.procs p { c.procs p with relay := relay' }⟩ rfl (by simp)
  have hfirst : outboxStep env r archiver limit c (p, .relay b) =
      some ⟨s', Function.update c.procs p { c.procs p with relay := relay' }⟩ := by
    simp [outboxStep, Interleave.step, outboxAct, hstep]
  have hafter : EmitsAfter t c (p, .relay b) := fun i hi => absurd hi (Option.not_mem_none i)
  refine ⟨_, c', .cons hafter hfirst hrun, ?_, hidle⟩
  subst hcycles
  cases hb : (OutboxAction.relay b).completes <;> simp [cycles, hb, Nat.add_comm]

/-- A relay that has its batch at hand can end its cycle: the publisher accepts what is still to
be accepted, and the batch is marked. -/
lemma canCycle_write {accepted rest : List Message} (hrest : ∀ m ∈ rest, m ∈ batch)
    (hall : ∀ m ∈ batch, m ∈ accepted ++ rest)
    (hrelay : (c.procs p).relay = .write batch accepted) :
    CanCycle env r archiver limit t p 1 c := by
  induction rest generalizing c accepted with
  | nil =>
    rw [List.append_nil] at hall
    refine CanCycle.cons (b := .written) (n := 1) hrelay (if_pos hall) fun c₁ _ hmark => ?_
    refine CanCycle.cons (b := .mark 0 .ok) (n := 0) hmark rfl fun c₂ _ hidle => ?_
    exact ⟨[], c₂, .nil, rfl, hidle⟩
  | cons m rest ih =>
    refine CanCycle.cons (b := .accept m) (n := 1) hrelay
      (if_pos (hrest m List.mem_cons_self)) fun c₁ _ hwrite => ?_
    refine ih (fun m' hm' => hrest m' (List.mem_cons_of_mem _ hm')) ?_ hwrite
    simpa using hall

/-- An idle relay can make a cycle that takes effect. -/
lemma canCycle_one (hidle : (c.procs p).relay = .idle) :
    CanCycle env r archiver limit t p 1 c := by
  obtain ⟨rows, hrows⟩ := exists_selectUnpublished c.shared limit
  cases rows with
  | nil =>
    refine CanCycle.cons (b := .select []) (n := 0) hidle (if_pos hrows) fun c₁ _ hidle₁ => ?_
    exact ⟨[], c₁, .nil, rfl, hidle₁⟩
  | cons i rows =>
    refine CanCycle.cons (b := .select (i :: rows)) (n := 1) hidle (if_pos hrows)
      fun c₁ _ hwrite => ?_
    exact canCycle_write (fun m hm => hm) (fun m hm => hm) hwrite

/-- It can make any number of them. -/
lemma canCycle (hidle : (c.procs p).relay = .idle) (n : Nat) :
    CanCycle env r archiver limit t p n c := by
  induction n with
  | zero => exact ⟨[], c, .nil, rfl, hidle⟩
  | succ n ih =>
    obtain ⟨steps, c₁, hrun, hcycles, hidle₁⟩ := ih
    have hone : CanCycle env r archiver limit t p 1 c₁ := canCycle_one hidle₁
    obtain ⟨steps', c₂, hrun', hcycles', hidle₂⟩ := hone
    refine ⟨steps ++ steps', c₂, hrun.trans hrun', ?_, hidle₂⟩
    rw [cycles, List.countP_append, ← cycles, ← cycles, hcycles, hcycles']

/-! ## The table is worked off -/

/-- What is marked was accepted, in every run. -/
lemma log_of_published
    (h : Reachable (outboxStep env r archiver limit) ok (Outbox.init partitions) c)
    (hn : c.shared.published n ≠ none) : ∃ m ∈ c.shared.log, m.intentID = n := by
  suffices hmarked : (∀ n, c.shared.published n ≠ none → ∃ m ∈ c.shared.log, m.intentID = n) ∧
      ∀ p, ∀ m ∈ (c.procs p).relay.accepted, m ∈ c.shared.log from hmarked.1 n hn
  refine h.invariant (I := fun c =>
    (∀ n, c.shared.published n ≠ none → ∃ m ∈ c.shared.log, m.intentID = n) ∧
      ∀ p, ∀ m ∈ (c.procs p).relay.accepted, m ∈ c.shared.log) ?_ ?_
  · exact ⟨fun n hn => absurd rfl hn, fun p m hm => (List.not_mem_nil hm).elim⟩
  · rintro c ⟨p, a⟩ c' hc ⟨hmarked, haccepted⟩ - hstep
    obtain ⟨s', w', hact, rfl⟩ := Interleave.step_eq_some.mp hstep
    have hrule := outboxRule_of_act hact
    have haged := aged_of_reachable hc p
    refine ⟨hrule.marked hmarked (haccepted p) haged, fun q => ?_⟩
    by_cases hq : q = p
    · subst hq
      simpa using hrule.accepted (haccepted q) haged
    · simp only [Function.update_of_ne hq]
      exact fun m hm => hrule.log haged (haccepted q m hm)

/-- **One relay works off what is due, however busy the system is.** Take any state that a run of
claims, completions, relays and passes leads to, in which the relay `p` is between two cycles, and
a time `t`. From there on all of them go on in any way, except that no intent emitted by `t` is
committed any more. Once `p` has made as many cycles that take effect as there are batches in the
unpublished rows emitted by `t`, every row in the table emitted by `t` is published, and the
publisher has accepted a message for it. Such cycles can be made, any number of them.

**Proof sketch.** What is left of the rows that are due when the batch of `p` is marked never
grows. When `p` selects, it takes a whole batch of them, or all of them, since the rows come in the
order of their times; when it marks, they are gone. Other relays only help, voiding an intent does
not change its time, and passes only take rows off. -/
theorem relay_drains
    (h : Reachable (outboxStep env r archiver limit) ok (Outbox.init partitions) c)
    (hidle : (c.procs p).relay = .idle) (t : Time) :
    (∀ steps c', Run (outboxStep env r archiver limit) (EmitsAfter t) c steps c' →
      c.shared.due t [] ≤ cycles p steps * limit →
      ∀ i ∈ c'.shared.intents, i.emittedAt ≤ t → c'.shared.published i.intentID ≠ none ∧
        ∃ m ∈ c'.shared.log, m.intentID = i.intentID) ∧
    ∀ n, ∃ steps c', Run (outboxStep env r archiver limit) (EmitsAfter t) c steps c' ∧
      cycles p steps = n := by
  have hreach : Reachable (outboxStep env r archiver limit) (fun _ _ => True)
      (Outbox.init partitions) c := h.mono fun _ _ _ => trivial
  refine ⟨fun steps c' hrun hn i hi ht => ?_, fun n => ?_⟩
  · have hzero : c'.shared.due t [] = 0 := by
      have hrest := (Draining.run hreach hidle hrun).rest
      omega
    have hpublished := due_eq_zero.mp hzero i hi ht
    have hreach' := hreach.trans ⟨steps, hrun.mono fun _ _ _ => trivial⟩
    exact ⟨hpublished, log_of_published hreach' hpublished⟩
  · obtain ⟨steps, c', hrun, hcycles, -⟩ := canCycle hidle n
    exact ⟨steps, c', hrun, hcycles⟩

/-- The relay 1 has selected an intent when another claim commits. It publishes and marks the one
that it has selected. -/
theorem relay_drains_busy : ∃ c c' steps,
    Reachable Outbox.smallStep (fun _ _ => True) Outbox.small c ∧
    (c.procs 1).relay = .idle ∧ c.shared.due 5 [] = 1 ∧
    Run Outbox.smallStep (EmitsAfter 5) c steps c' ∧ cycles 1 steps = 1 ∧
    c'.shared.claims.length = 2 ∧ ∃ i ∈ c'.shared.intents, i.emittedAt ≤ 5 ∧
      c'.shared.published i.intentID ≠ none ∧ ∃ m ∈ c'.shared.log, m.intentID = i.intentID := by
  let i : IntentRow := .small 1 .append "a" keyA 5
  let steps : List (Pid × OutboxAction) := (1, .relay (.select [i])) ::
    coreSteps (insertSteps 1 (.small .append true) (.small "b" keyB) 6 [i] ++
      [(1, .commit .ok)]) ++ (publishSteps 1 i).tail
  obtain ⟨c, hrun, hc⟩ := exists_run_of_exec Outbox.smallStep (fun _ _ => True) Outbox.small
    (coreSteps (insertSteps 0 (.small .append true) (.small "a" keyA) 5 [] ++
      [(0, .commit .ok)]))
    (fun c => (c.procs 1).relay = .idle && c.shared.due 5 [] = 1 &&
      (exec Outbox.smallStep (EmitsAfter 5) c steps).any fun c' =>
        c'.shared.claims.length = 2 && i ∈ c'.shared.intents)
    (by decide +kernel)
  simp only [Bool.and_eq_true, decide_eq_true_eq] at hc
  obtain ⟨⟨hidle, hdue⟩, hc⟩ := hc
  obtain ⟨c', hexec, hc⟩ := (Option.any_eq_true _ _).mp hc
  simp only [Bool.and_eq_true, decide_eq_true_eq] at hc
  obtain ⟨hclaims, hi⟩ := hc
  have hrun' := run_of_exec hexec
  have hcycles : cycles 1 steps = 1 := by decide
  obtain ⟨hpublished, hlog⟩ := (relay_drains ⟨_, hrun⟩ hidle 5).1 steps c' hrun'
    (by rw [hcycles, hdue]; decide) i hi (by decide)
  exact ⟨c, c', steps, ⟨_, hrun⟩, hidle, hdue, hrun', hcycles, hclaims, i, hi, by decide,
    hpublished, hlog⟩

end Idemio
