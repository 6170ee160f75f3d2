import Idemio.Outbox

set_option relaxedAutoImplicit false
set_option autoImplicit false

/-!
# The outbox loses nothing

An intent that has committed is unpublished and in `write_intents`, or the publisher has accepted
it. Publishing before marking sees to that as far as relays go: an intent is marked only after
the publisher has accepted it. Retirement goes by the age of a partition and does not look at
`published_at`. So the law holds as long as the relays are ahead of the retention window, and an
intent that they have not come to in time is taken off the table unpublished.

## Main definitions

* `Idemio.Accounted` — an intent is still to be published, or was accepted.
* `Idemio.Prompt` — whenever a partition is detached, everything that was emitted before the
  cutoff of the pass is published.

## Main results

* `Idemio.outbox_loses_nothing` — under this condition every committed intent is accounted for at
  all times, and no partition is detached that holds an unpublished intent.
* `Idemio.unpublished_intent_detached` — without it an intent is lost.
-/

namespace Idemio

open Transition

variable {env : Env} {r : Retention} {archiver : Pid → Archiver} {limit : Nat} {p : Pid}
  {s s' : Store} {w w' : Worker} {a : OutboxAction} {n : Nat}

/-- The intent `n` is in `write_intents` and has `published_at` `NULL`, or the publisher has
accepted it at least once. -/
def Accounted (s : Store) (n : Nat) : Prop :=
  (∃ i ∈ s.intents, i.intentID = n ∧ s.published n = none) ∨ ∃ m ∈ s.log, m.intentID = n

/-- Where a pass stands that detaches a partition in this step. -/
def Worker.detaching (w : Worker) : OutboxAction → Option Cursor
  | .pass a => if a.detaches then w.pass.cursor else none
  | _ => none

/-- Whenever a partition is detached, the relays have published every intent in `write_intents`
that was emitted before the cutoff of the pass. -/
def Prompt (r : Retention) (c : Outbox) (ia : Pid × OutboxAction) : Prop :=
  ∀ cur ∈ (c.procs ia.1).detaching ia.2, ∀ i ∈ c.shared.intents,
    c.shared.published i.intentID = none → cur.now - r.intents ≤ i.emittedAt

instance (r : Retention) (c : Outbox) (ia : Pid × OutboxAction) : Decidable (Prompt r c ia) :=
  inferInstanceAs (Decidable (∀ cur ∈ (_ : Option Cursor), _))

/-! ## What a pass knows of the partitions -/

/-- The partitions that a pass has still to retire end before its cutoff, and the one that it
works on is no longer attached. -/
structure Aged (r : Retention) (s : Store) (pass : Pass IntentRow) : Prop where
  listed : ∀ cur, pass.cursor = some cur → cur.table = .writeIntents → ∀ name ∈ cur.expired,
    ∀ range, s.partitions.lookup name = some range →
      ∃ upper, range.upper = some upper ∧ upper ≤ cur.now - r.intents
  gone : ∀ name, pass.partition = some name → s.partitions.lookup name = none

/-- The attached partitions of `write_intents`, with their bounds. -/
lemma mem_outboxPartitions {t : Table} {name : String} {bound : Option Time}
    (h : (name, bound) ∈ outboxStorage.partitions t s) :
    ∃ range, s.partitions.lookup name = some range ∧ range.upper = bound := by
  simp only [outboxStorage] at h
  split at h
  · obtain ⟨⟨name', range⟩, hmem, heq⟩ := List.mem_map.mp h
    cases heq
    exact ⟨range, AList.mem_lookup_iff.mpr hmem, rfl⟩
  · cases h

/-- What a pass detaches is no longer attached. -/
lemma lookup_of_outboxDetach {t : Table} {name : String}
    (h : outboxStorage.detach t name s = some s') : s'.partitions.lookup name = none := by
  simp only [outboxStorage] at h
  split at h
  · obtain ⟨range, -, rfl⟩ := Option.map_eq_some_iff.mp h
    exact AList.lookup_erase _ _
  · cases h

/-- No step attaches a partition. -/
lemma OutboxRule.partitions (h : OutboxRule env r archiver limit p s w a s' w')
    (haged : Aged r s w.pass) {name : String} {range : Range}
    (hrange : s'.partitions.lookup name = some range) : s.partitions.lookup name = some range := by
  cases h with
  | core => exact hrange
  | relay hrule =>
    rw [hrule.frame] at hrange
    exact hrange
  | pass hrule =>
    cases StoreChange.of_passRule hrule with
    | same _ _ _ hpartitions => rwa [hpartitions] at hrange
    | @detach name' _ _ _ _ _ _ _ _ hs =>
      rw [hs] at hrange
      by_cases hname : name = name'
      · subst hname
        cases (AList.lookup_erase _ _).symm.trans hrange
      · exact (AList.lookup_erase_ne hname).symm.trans hrange
    | drop hpass hattached => cases (haged.gone _ hpass).symm.trans hattached

/-- What a pass knows stays true while partitions are only detached. -/
lemma Aged.stable {pass : Pass IntentRow} (h : Aged r s pass)
    (hsub : ∀ name range, s'.partitions.lookup name = some range →
      s.partitions.lookup name = some range) : Aged r s' pass where
  listed cur hcur htable name hname range hrange :=
    h.listed cur hcur htable name hname range (hsub name range hrange)
  gone name hname := by
    cases hrange : s'.partitions.lookup name with
    | none => rfl
    | some range => cases (h.gone name hname).symm.trans (hsub name range hrange)

/-- A pass knows the same of what it lists and of what it takes on. -/
lemma Aged.step (h : Aged r s w.pass) (hrule : OutboxRule env r archiver limit p s w a s' w') :
    Aged r s' w'.pass := by
  have hstable : Aged r s' w.pass := h.stable fun name range => hrule.partitions h
  cases hrule with
  | core | relay => exact hstable
  | pass hrule =>
    constructor
    · intro cur hcur htable name hname range hrange
      rcases hrule.listed_cases hcur hname with ⟨cur₀, hcur₀, hname₀, htable₀, hnow⟩ |
        ⟨upper, hmem, hle⟩
      · rw [← hnow]
        exact hstable.listed cur₀ hcur₀ (htable₀.trans htable) name hname₀ range hrange
      · obtain ⟨range', hrange', hupper⟩ := mem_outboxPartitions hmem
        cases hrange'.symm.trans hrange
        rw [htable] at hle
        exact ⟨upper, hupper, hle⟩
    · intro name hname
      rcases hrule.partition_cases hname with hold | ⟨t, hs⟩
      · exact hstable.gone name hold
      · exact lookup_of_outboxDetach hs

/-- **Every pass detaches only what ends before its cutoff.** -/
lemma aged_of_reachable {partitions : AList (fun _ : String => Range)}
    {ok : Outbox → Pid × OutboxAction → Prop} {c : Outbox}
    (h : Reachable (outboxStep env r archiver limit) ok (Outbox.init partitions) c) (p : Pid) :
    Aged r c.shared (c.procs p).pass := by
  refine Interleave.invariant_procs (P := fun _ s w => Aged r s w.pass) ?_ ?_ ?_ h p
  · intro q
    constructor
    · intro cur hcur
      cases hcur
    · intro name hname
      cases hname
  · exact fun c p a s' w' _ haged _ hact => (haged p).step (outboxRule_of_act hact)
  · intro c p a s' w' q _ _ haged _ hact
    exact (haged q).stable fun name range => (outboxRule_of_act hact).partitions (haged p)

/-! ## Publishing before marking -/

/-- What holds of the outbox at all times: committed intents are accounted for, what is marked was
accepted, and so was what a relay takes for accepted. -/
structure Lossless (c : Outbox) : Prop where
  accounted : ∀ claimed ∈ c.shared.claims, Accounted c.shared claimed.tx.intent.intentID
  marked : ∀ n, c.shared.published n ≠ none → ∃ m ∈ c.shared.log, m.intentID = n
  accepted : ∀ p, ∀ m ∈ (c.procs p).relay.accepted, m ∈ c.shared.log

/-- An intent that is in the table is accounted for, if what is marked was accepted. -/
lemma accounted_of_mem {i : IntentRow} (hi : i ∈ s.intents)
    (hmarked : ∀ n, s.published n ≠ none → ∃ m ∈ s.log, m.intentID = n) :
    Accounted s i.intentID := by
  by_cases hpublished : s.published i.intentID = none
  · exact .inl ⟨i, hi, rfl, hpublished⟩
  · exact .inr (hmarked _ hpublished)

/-- A pass commits no claim, and neither publishes nor marks an intent. -/
lemma StoreChange.frame {pass : Pass IntentRow} {b : PassAction} (h : StoreChange s pass b s')
    (haged : Aged r s pass) :
    s'.claims = s.claims ∧ s'.published = s.published ∧ s'.log = s.log := by
  cases h with
  | same hcore hpublished hlog => exact ⟨congrArg (·.shared.claims) hcore, hpublished, hlog⟩
  | drop hpass hattached => cases (haged.gone _ hpass).symm.trans hattached
  | detach _ _ _ _ _ hs =>
    rw [hs]
    exact ⟨rfl, rfl, rfl⟩

/-- The publisher forgets nothing. -/
lemma OutboxRule.log (h : OutboxRule env r archiver limit p s w a s' w')
    (haged : Aged r s w.pass) {m : Message} (hm : m ∈ s.log) : m ∈ s'.log := by
  cases h with
  | core => exact hm
  | relay hrule =>
    generalize w.relay = relay at hrule
    cases hrule with
    | accept => exact List.mem_append_left _ hm
    | _ => exact hm
  | pass hrule =>
    have hframe := (StoreChange.of_passRule hrule).frame haged
    exact hframe.2.2 ▸ hm

/-- What a relay takes for accepted was accepted. -/
lemma OutboxRule.accepted (h : OutboxRule env r archiver limit p s w a s' w')
    (haccepted : ∀ m ∈ w.relay.accepted, m ∈ s.log) (haged : Aged r s w.pass) :
    ∀ m ∈ w'.relay.accepted, m ∈ s'.log := by
  have hkept : ∀ m ∈ w.relay.accepted, m ∈ s'.log :=
    fun m hm => h.log haged (haccepted m hm)
  cases h with
  | core | pass => exact hkept
  | relay hrule =>
    generalize w.relay = relay at hrule hkept
    cases hrule with
    | accept =>
      intro m hm
      rcases List.mem_append.mp hm with hm | hm
      · exact hkept m hm
      · rw [List.mem_singleton.mp hm]
        exact List.mem_append_right _ List.mem_cons_self
    | written hall => exact fun m hm => hkept m (hall m hm)
    | _ => exact fun m hm => (List.not_mem_nil hm).elim

/-- What is marked was accepted. -/
lemma OutboxRule.marked (h : OutboxRule env r archiver limit p s w a s' w')
    (hmarked : ∀ n, s.published n ≠ none → ∃ m ∈ s.log, m.intentID = n)
    (haccepted : ∀ m ∈ w.relay.accepted, m ∈ s.log) (haged : Aged r s w.pass) (n : Nat)
    (hn : s'.published n ≠ none) : ∃ m ∈ s'.log, m.intentID = n := by
  have hkept : s.published n ≠ none → ∃ m ∈ s'.log, m.intentID = n := by
    intro hold
    obtain ⟨m, hm, hid⟩ := hmarked n hold
    exact ⟨m, h.log haged hm, hid⟩
  cases h with
  | core => exact hkept hn
  | relay hrule =>
    generalize w.relay = relay at hrule haccepted
    cases hrule with
    | mark =>
      rcases published_of_mark hn with hold | ⟨m, hm, hid⟩
      · exact hkept hold
      · exact ⟨m, haccepted m hm, hid⟩
    | _ => exact hkept hn
  | pass hrule =>
    have hframe := (StoreChange.of_passRule hrule).frame haged
    exact hkept (hframe.2.1 ▸ hn)

/-- **No partition is detached that holds an unpublished intent**, if the relays are prompt: the
partition ends before the cutoff, and before the cutoff everything is published. -/
lemma StoreChange.spares {c : Outbox} {b : PassAction} {name : String} {range : Range}
    {i : IntentRow} (h : StoreChange c.shared (c.procs p).pass b s')
    (haged : Aged r c.shared (c.procs p).pass) (hprompt : Prompt r c (p, .pass b))
    (hrange : c.shared.partitions.lookup name = some range)
    (hgone : s'.partitions.lookup name = none) (hi : i ∈ c.shared.intents)
    (hcovers : range.covers i.emittedAt = true) : c.shared.published i.intentID ≠ none := by
  intro hnull
  cases h with
  | same _ _ _ hpartitions =>
    rw [hpartitions] at hgone
    cases hgone.symm.trans hrange
  | drop hpass hattached => cases (haged.gone _ hpass).symm.trans hattached
  | @detach name' names cur range' hb hpass hcur htable hrange' hs =>
    have hcursor : (c.procs p).pass.cursor = some cur := by
      rw [hpass]
      rfl
    have hname : name = name' := by
      by_contra hne
      rw [hs] at hgone
      cases hgone.symm.trans ((AList.lookup_erase_ne hne).trans hrange)
    subst hname
    obtain ⟨upper, hupper, hle⟩ := haged.listed cur hcursor htable name
      (hcur ▸ List.mem_cons_self) range hrange
    have hbefore : i.emittedAt < upper := by
      simpa [Range.covers, hupper] using (Bool.and_eq_true_iff.mp hcovers).2
    have hafter : cur.now - r.intents ≤ i.emittedAt := by
      refine hprompt cur ?_ i hi hnull
      simp [Worker.detaching, hb, hcursor]
    exact absurd hbefore (Int.not_lt.mpr (Int.le_trans hle hafter))

/-- A pass leaves the unpublished intents in the table, if the relays are prompt. -/
lemma StoreChange.mem_intents {c : Outbox} {b : PassAction} {i : IntentRow}
    (h : StoreChange c.shared (c.procs p).pass b s') (haged : Aged r c.shared (c.procs p).pass)
    (hprompt : Prompt r c (p, .pass b)) (hi : i ∈ c.shared.intents)
    (hnull : c.shared.published i.intentID = none) : i ∈ s'.intents := by
  have hspares : ∀ name range, c.shared.partitions.lookup name = some range →
      s'.partitions.lookup name = none → range.covers i.emittedAt = false := by
    intro name range hrange hgone
    cases hcovers : range.covers i.emittedAt with
    | false => rfl
    | true => exact absurd hnull (h.spares haged hprompt hrange hgone hi hcovers)
  cases h with
  | same hcore => simpa [Store.intents, hcore] using hi
  | drop hpass hattached => cases (haged.gone _ hpass).symm.trans hattached
  | @detach name _ _ range _ _ _ _ hrange hs =>
    have hgone : s'.partitions.lookup name = none := by
      rw [hs]
      exact AList.lookup_erase _ _
    rw [hs]
    exact List.mem_filter.mpr ⟨hi, by simp [hspares name range hrange hgone]⟩

/-- A committed claim has its intent in the table, or was there before. -/
lemma claims_of_step {core core' : State} {q : Pid} {b : Action} {claimed : Claimed}
    (hstep : step env core (q, b) = some core') (h : claimed ∈ core'.shared.claims) :
    claimed ∈ core.shared.claims ∨ claimed.tx.intent ∈ core'.shared.db.intents := by
  rcases (Rule.of_step hstep).claims_cases with hclaims | ⟨-, tx, verdict, -, heq⟩
  · exact .inl (hclaims ▸ h)
  · rw [heq] at h ⊢
    rcases List.mem_append.mp h with hold | hnew
    · exact .inl hold
    · rw [List.mem_singleton.mp hnew]
      exact .inr (List.mem_append_right _ List.mem_cons_self)

/-- **The outbox loses nothing in one step.** -/
lemma Lossless.step {c c' : Outbox} (h : Lossless c)
    (haged : ∀ p, Aged r c.shared (c.procs p).pass) (hprompt : Prompt r c (p, a))
    (hstep : outboxStep env r archiver limit c (p, a) = some c') : Lossless c' := by
  obtain ⟨s', w', hact, rfl⟩ := Interleave.step_eq_some.mp hstep
  have hrule := outboxRule_of_act hact
  have hmarked := hrule.marked h.marked (h.accepted p) (haged p)
  have hlog : ∀ n, (∃ m ∈ c.shared.log, m.intentID = n) → Accounted s' n := by
    rintro n ⟨m, hm, hid⟩
    exact .inr ⟨m, hrule.log (haged p) hm, hid⟩
  refine ⟨fun claimed hclaimed => ?_, hmarked, fun q => ?_⟩
  · cases hrule with
    | core hcore =>
      rcases claims_of_step hcore hclaimed with hold | hnew
      · rcases h.accounted claimed hold with ⟨i, hi, hid, -⟩ | hm
        · obtain ⟨j, hj, heq⟩ := (Rule.of_step hcore).inserted hi
          rw [← hid, ← (IntentRow.eq_of_inserted heq).1]
          exact accounted_of_mem hj hmarked
        · exact hlog _ hm
      · exact accounted_of_mem hnew hmarked
    | relay hrelay =>
      have hcore : s'.core = c.shared.core := by rw [hrelay.frame]
      have hold : claimed ∈ c.shared.claims := by simpa [Store.claims, hcore] using hclaimed
      rcases h.accounted claimed hold with ⟨i, hi, hid, -⟩ | hm
      · rw [← hid]
        exact accounted_of_mem (by simpa [Store.intents, hcore] using hi) hmarked
      · exact hlog _ hm
    | pass hpass =>
      have hchange := StoreChange.of_passRule hpass
      have hold : claimed ∈ c.shared.claims := (hchange.frame (haged p)).1 ▸ hclaimed
      rcases h.accounted claimed hold with ⟨i, hi, hid, hnull⟩ | hm
      · rw [← hid] at hnull ⊢
        exact accounted_of_mem (hchange.mem_intents (haged p) hprompt hi hnull) hmarked
      · exact hlog _ hm
  · by_cases hq : q = p
    · subst hq
      simpa using hrule.accepted (h.accepted q) (haged q)
    · simp only [Function.update_of_ne hq]
      exact fun m hm => hrule.log (haged p) (h.accepted q m hm)

variable {partitions : AList (fun _ : String => Range)} {c : Outbox}

/-- **The outbox loses nothing.** In every run of claims, completions, relays and passes in which
the relays are ahead of the retention window whenever a partition is detached, every committed
intent is at all times in `write_intents` with `published_at` `NULL` or accepted by the
publisher, and no step takes a partition off that holds an unpublished intent.

**Proof sketch.** An intent is marked only when the publisher has accepted it, so what is in the
table is accounted for. A partition that a pass detaches ends before its cutoff; by the condition
all that it holds is marked, and hence accepted. -/
theorem outbox_loses_nothing
    (h : Reachable (outboxStep env r archiver limit) (Prompt r) (Outbox.init partitions) c) :
    (∀ claimed ∈ c.shared.claims, Accounted c.shared claimed.tx.intent.intentID) ∧
    ∀ p a c' name range, Prompt r c (p, a) →
      outboxStep env r archiver limit c (p, a) = some c' →
      c.shared.partitions.lookup name = some range → c'.shared.partitions.lookup name = none →
      ∀ i ∈ c.shared.intents, range.covers i.emittedAt = true →
        c.shared.published i.intentID ≠ none := by
  have hlossless : Lossless c := by
    refine h.invariant (I := Lossless) ⟨?_, ?_, ?_⟩ ?_
    · exact fun claimed hclaimed => (List.not_mem_nil hclaimed).elim
    · exact fun n hn => absurd rfl hn
    · exact fun p m hm => (List.not_mem_nil hm).elim
    · rintro c ⟨p, a⟩ c' hc hI hprompt hstep
      exact hI.step (aged_of_reachable hc) hprompt hstep
  refine ⟨hlossless.accounted, fun p a c' name range hprompt hstep hrange hgone i hi hcovers => ?_⟩
  obtain ⟨s', w', hact, rfl⟩ := Interleave.step_eq_some.mp hstep
  cases outboxRule_of_act hact with
  | core => cases hrange.symm.trans hgone
  | relay hrule =>
    have hpartitions : s'.partitions = c.shared.partitions := by rw [hrule.frame]
    rw [hpartitions] at hgone
    cases hrange.symm.trans hgone
  | pass hrule =>
    exact (StoreChange.of_passRule hrule).spares (aged_of_reachable h p) hprompt hrange hgone hi
      hcovers

/-- An intent is published, and then its partition is detached. -/
theorem outbox_loses_nothing_published : ∃ c c' range i,
    Reachable Outbox.smallStep (Prompt ⟨90, 365, 365⟩) Outbox.small c ∧
    Outbox.smallStep c (1, .pass (.detach .ok)) = some c' ∧
    c.shared.partitions.lookup "write_intents_20200101" = some range ∧
    c'.shared.partitions.lookup "write_intents_20200101" = none ∧
    i ∈ c.shared.intents ∧ range.covers i.emittedAt = true ∧
    c.shared.published i.intentID ≠ none ∧
    ∃ claimed ∈ c.shared.claims, Accounted c.shared claimed.tx.intent.intentID := by
  obtain ⟨c, hrun, hc⟩ := exists_run_of_exec Outbox.smallStep (Prompt ⟨90, 365, 365⟩) Outbox.small
    (coreSteps (insertSteps 0 (.small .replace true) (.small "a" keyA) 5 [] ++
        [(0, .commit .ok)]) ++
      publishSteps 0 (.small 1 .replace "a" keyA 5) ++ agedSteps 1)
    (fun c => Prompt ⟨90, 365, 365⟩ c (1, .pass (.detach .ok)) &&
      c.shared.partitions.lookup "write_intents_20200101" = some ⟨0, some 7⟩ &&
      c.shared.claims.length = 1 && IntentRow.small 1 .replace "a" keyA 5 ∈ c.shared.intents &&
      (Outbox.smallStep c (1, .pass (.detach .ok))).any fun c' =>
        c'.shared.partitions.lookup "write_intents_20200101" = none)
    (by decide +kernel)
  simp only [Bool.and_eq_true, decide_eq_true_eq] at hc
  obtain ⟨⟨⟨⟨hprompt, hrange⟩, hlength⟩, hi⟩, hc⟩ := hc
  obtain ⟨c', hstep, hgone⟩ := (Option.any_eq_true _ _).mp hc
  have hgone := of_decide_eq_true hgone
  obtain ⟨claimed, hclaimed⟩ := List.exists_mem_of_length_pos
    (Nat.lt_of_lt_of_eq Nat.one_pos hlength.symm)
  obtain ⟨haccounted, hspared⟩ := outbox_loses_nothing ⟨_, hrun⟩
  exact ⟨c, c', _, _, ⟨_, hrun⟩, hstep, hrange, hgone, hi, by decide,
    hspared 1 _ c' _ _ hprompt hstep hrange hgone _ hi (by decide),
    claimed, hclaimed, haccounted claimed hclaimed⟩

/-- **An intent is lost.** A claim has committed, no relay has come to its intent yet, and a pass
finds the partition of the intent past retention: it detaches it, and the intent is neither in
`write_intents` nor was it ever published. -/
theorem unpublished_intent_detached : ∃ c c' i,
    Reachable Outbox.smallStep (fun _ _ => True) Outbox.small c ∧
    i ∈ c.shared.intents ∧ c.shared.published i.intentID = none ∧
    Outbox.smallStep c (1, .pass (.detach .ok)) = some c' ∧ i ∉ c'.shared.intents ∧
    ∃ claimed ∈ c'.shared.claims, ¬ Accounted c'.shared claimed.tx.intent.intentID := by
  obtain ⟨c, hrun, hc⟩ := exists_run_of_exec Outbox.smallStep (fun _ _ => True) Outbox.small
    (coreSteps (insertSteps 0 (.small .replace true) (.small "a" keyA) 5 [] ++
        [(0, .commit .ok)]) ++
      agedSteps 1)
    (fun c => IntentRow.small 1 .replace "a" keyA 5 ∈ c.shared.intents &&
      c.shared.published 1 = none &&
      (Outbox.smallStep c (1, .pass (.detach .ok))).any fun c' =>
        c'.shared.intents = [] && c'.shared.log = [] && c'.shared.claims.length = 1)
    (by decide +kernel)
  simp only [Bool.and_eq_true, decide_eq_true_eq] at hc
  obtain ⟨⟨hi, hnull⟩, hc⟩ := hc
  obtain ⟨c', hstep, hc⟩ := (Option.any_eq_true _ _).mp hc
  simp only [Bool.and_eq_true, decide_eq_true_eq] at hc
  obtain ⟨⟨hempty, hlog⟩, hlength⟩ := hc
  obtain ⟨claimed, hclaimed⟩ := List.exists_mem_of_length_pos
    (Nat.lt_of_lt_of_eq Nat.one_pos hlength.symm)
  refine ⟨c, c', _, ⟨_, hrun⟩, hi, hnull, hstep, by simp [hempty], claimed, hclaimed, ?_⟩
  rintro (⟨i, hi, -⟩ | ⟨m, hm, -⟩)
  · rw [hempty] at hi
    cases hi
  · rw [hlog] at hm
    cases hm

end Idemio
