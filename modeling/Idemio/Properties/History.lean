import Idemio.Outbox

set_option relaxedAutoImplicit false
set_option autoImplicit false

/-!
# The published history and the table

A message says whether its intent was voided, as of the moment at which the relay read the row.
An intent that a claim rejects is voided in the transaction that commits it, so every message
says so. One whose write fails is voided later, by the `Complete` that records the failure, and
`voidLatestIntent` leaves `published_at` alone: if a relay has read the row before, its message
says that the intent stands, and no other message follows.

## Main definitions

* `Idemio.lastMessage` — the last message for an intent.
* `Idemio.Current` — a message says what the table says.
* `Idemio.VoidsFirst` — a `Complete` voids an intent only while it is unpublished and in the hands
  of no relay; and there is no retirement.

## Main results

* `Idemio.published_history_agrees` — under this condition the last message for every published
  intent agrees with the table.
* `Idemio.voided_intent_published_live` — without it a voided intent stays published as one that
  stands.
-/

namespace Idemio

open Transition

variable {env : Env} {r : Retention} {archiver : Pid → Archiver} {limit : Nat} {p : Pid}
  {s s' : Store} {w w' : Worker} {a : OutboxAction} {n : Nat} {m : Message}

/-- The last message that was published for the intent `n`. -/
def lastMessage (log : List Message) (n : Nat) : Option Message :=
  (log.filter (·.intentID = n)).getLast?

/-- The intent that a `Complete` voids in this step. -/
def State.voiding (s : State) (q : Pid) (a : Action) : Option IntentRow :=
  if a.commits then
    (s.procs q).completion.bind fun c => c.1.phase.outcome.bind fun o => o.2.2
  else none

/-- Claims, completions and relays act, and a `Complete` that voids an intent takes effect only
while the intent is unpublished and no relay has it in its batch. -/
def VoidsFirst (c : Outbox) (ia : Pid × OutboxAction) : Prop :=
  match ia.2 with
  | .core q a => ∀ v ∈ c.shared.core.voiding q a, c.shared.published v.intentID = none ∧
      ∀ p, ∀ m ∈ (c.procs p).relay.batch, m.intentID ≠ v.intentID
  | .relay _ => True
  | .pass _ => False

/-- The step is not one of a pass. -/
def OutboxAction.isPass : OutboxAction → Bool
  | .pass _ => true
  | _ => false

/-- The intent of a message is in the table, and the message says of it whether it is voided. -/
def Current (s : Store) (m : Message) : Prop :=
  (∃ i ∈ s.intents, i.intentID = m.intentID) ∧
    ∀ i ∈ s.intents, i.intentID = m.intentID → m.voided = i.voidedAt.isSome

/-- The last message for the intent `n` agrees with the table. -/
def Agrees (s : Store) (n : Nat) : Prop := ∃ m, lastMessage s.log n = some m ∧ Current s m

/-! ## Messages and the log -/

/-- The last message for an intent is for this intent. -/
lemma intentID_of_lastMessage {log : List Message} (h : lastMessage log n = some m) :
    m.intentID = n := by
  have hmem := List.mem_of_getLast? h
  simpa using (List.mem_filter.mp hmem).2

/-- A message that is accepted is the last one for its intent. -/
lemma lastMessage_append (log : List Message) (m : Message) (n : Nat) :
    lastMessage (log ++ [m]) n = if m.intentID = n then some m else lastMessage log n := by
  unfold lastMessage
  rw [List.filter_append]
  by_cases hid : m.intentID = n <;> simp [hid]

/-- Accepting a message that is current keeps every agreement, and adds one. -/
lemma Agrees.accept (hm : Current s m) (h : n ≠ m.intentID → Agrees s n) :
    Agrees { s with log := s.log ++ [m] } n := by
  by_cases hid : m.intentID = n
  · exact ⟨m, by rw [lastMessage_append, if_pos hid], hm⟩
  · obtain ⟨m', hlast, hcurrent⟩ := h (Ne.symm hid)
    exact ⟨m', by rw [lastMessage_append, if_neg hid, hlast], hcurrent⟩

/-! ## Claims and completions -/

/-- A `Complete` leaves the intents that it does not void. -/
lemma mem_voidLatest {now : Time} {voided : Option IntentRow} {intents : List IntentRow}
    {i : IntentRow} (hne : ∀ v ∈ voided, v.intentID ≠ i.intentID) :
    i ∈ voidLatest now voided intents ↔ i ∈ intents := by
  cases voided with
  | none => exact Iff.rfl
  | some v =>
    have hself : voidIntent now v.intentID v.emittedAt i = i :=
      if_neg fun h => hne v rfl h.1.symm
    refine List.mem_map.trans ⟨?_, fun hi => ⟨i, hi, hself⟩⟩
    rintro ⟨j, hj, rfl⟩
    rw [voidIntent_intentID] at hne
    have hj' : voidIntent now v.intentID v.emittedAt j = j :=
      if_neg fun h => hne v rfl h.1.symm
    rwa [hj']

/-- What a step of a claim or a completion does to the row of an intent that is in the table and
that it does not void: nothing. -/
lemma intents_of_core {ok : Assumption} {core core' : State} {q : Pid} {b : Action}
    (hcore : Reaches env ok core) (hstep : step env core (q, b) = some core')
    (hn : ∃ i ∈ core.shared.db.intents, i.intentID = n)
    (hvoid : ∀ v ∈ core.voiding q b, v.intentID ≠ n) {i : IntentRow} (hi : i.intentID = n) :
    i ∈ core'.shared.db.intents ↔ i ∈ core.shared.db.intents := by
  rcases (Rule.of_step hstep).db_cases with ⟨hdb, -⟩ | ⟨hcommits, ⟨tx, verdict, hp, heq⟩ |
    ⟨c, caller, now, row, voided, hp, hphase, heq⟩ | ⟨_, _, -, heq⟩⟩
  · rw [hdb]
  · -- The intent that is committed is a new one.
    obtain ⟨j, hj, hjn⟩ := hn
    have hne : j.intentID ≠ tx.intent.intentID := (decided_of_reaches hcore hp).own.fresh j hj
    rw [heq]
    refine List.mem_append.trans ⟨fun h => h.resolve_right fun hnew => ?_, .inl⟩
    rw [List.mem_singleton.mp hnew] at hi
    exact hne (hjn.trans hi.symm)
  · have hv : core.voiding q b = voided := by
      simp [State.voiding, hcommits, hp, Proc.completion, hphase, CompletePhase.outcome]
    rw [heq]
    exact mem_voidLatest fun v hmem => hi ▸ hvoid v (hv ▸ hmem)
  · rw [heq]
    rfl

/-- A message stays current while its intent is not voided. -/
lemma Current.core {ok : Assumption} {core : State} {q : Pid} {b : Action} (h : Current s m)
    (hcore : Reaches env ok s.core) (hstep : step env s.core (q, b) = some core)
    (hvoid : ∀ v ∈ s.core.voiding q b, v.intentID ≠ m.intentID) :
    Current { s with core := core } m := by
  have hsame : ∀ i : IntentRow, i.intentID = m.intentID →
      (i ∈ core.shared.db.intents ↔ i ∈ s.core.shared.db.intents) :=
    fun i hi => intents_of_core hcore hstep h.1 hvoid hi
  obtain ⟨⟨i, hi, hid⟩, hall⟩ := h
  exact ⟨⟨i, (hsame i hid).mpr hi, hid⟩, fun j hj hjm => hall j ((hsame j hjm).mp hj) hjm⟩

/-! ## Relays -/

/-- What a relay reads is current. -/
lemma current_of_select {rows : List IntentRow} (hids : Ids s.core.shared)
    (hrows : SelectUnpublished s limit rows) (hm : m ∈ rows.map (message env)) : Current s m := by
  obtain ⟨i, hi, rfl⟩ := List.mem_map.mp hm
  have hmem : i ∈ s.intents :=
    (List.mem_filter.mp (hrows.1.mem_iff.mp (List.mem_append_left _ hi))).1
  refine ⟨⟨i, hmem, rfl⟩, fun j hj hji => ?_⟩
  have heq : j = i := List.inj_on_of_nodup_map hids.nodup hj hmem hji
  rw [heq]
  rfl

/-- What holds of the outbox while intents are voided first: batches are current, what was
accepted from a relay in this cycle agrees with the table, and so does what is marked. -/
structure Faithful (c : Outbox) : Prop where
  batch : ∀ p, ∀ m ∈ (c.procs p).relay.batch, Current c.shared m
  accepted : ∀ p, ∀ m ∈ (c.procs p).relay.accepted,
    m ∈ (c.procs p).relay.batch ∧ Agrees c.shared m.intentID
  marked : ∀ n, c.shared.published n ≠ none → Agrees c.shared n

/-- A relay changes neither the rows nor, except by what it adds, the log. -/
lemma Faithful.relay {c : Outbox} {b : RelayAction} {relay : Relay} (h : Faithful c)
    (hids : Ids c.shared.core.shared)
    (hrule : RelayRule env limit c.shared (c.procs p).relay b s' relay) :
    (∀ m ∈ relay.batch, Current s' m) ∧
    (∀ m ∈ relay.accepted, m ∈ relay.batch ∧ Agrees s' m.intentID) ∧
    (∀ n, Agrees c.shared n → Agrees s' n) ∧
    ∀ n, s'.published n ≠ none → Agrees s' n := by
  have hbatch := h.batch p
  have haccepted := h.accepted p
  generalize (c.procs p).relay = relay₀ at hrule hbatch haccepted
  cases hrule with
  | select hrows =>
    exact ⟨fun m hm => current_of_select hids hrows hm, fun m hm => (List.not_mem_nil hm).elim,
      fun n hn => hn, h.marked⟩
  | accept hm =>
    have hkept : ∀ n, Agrees c.shared n → Agrees _ n :=
      fun n hn => Agrees.accept (hbatch _ hm) fun _ => hn
    refine ⟨hbatch, fun m' hm' => ?_, hkept, fun n hn => hkept n (h.marked n hn)⟩
    rcases List.mem_append.mp hm' with hold | hnew
    · exact ⟨(haccepted m' hold).1, hkept _ (haccepted m' hold).2⟩
    · rw [List.mem_singleton.mp hnew]
      exact ⟨hm, Agrees.accept (hbatch _ hm) fun hne => absurd rfl hne⟩
  | written hall =>
    exact ⟨hbatch, fun m hm => ⟨hm, (haccepted m (hall m hm)).2⟩, fun n hn => hn, h.marked⟩
  | mark =>
    refine ⟨fun m hm => (List.not_mem_nil hm).elim, fun m hm => (List.not_mem_nil hm).elim,
      fun n hn => hn, fun n hn => ?_⟩
    rcases published_of_mark hn with hold | ⟨m, hm, rfl⟩
    · exact h.marked n hold
    · exact (haccepted m hm).2
  | empty | refused | fail =>
    exact ⟨fun m hm => (List.not_mem_nil hm).elim, fun m hm => (List.not_mem_nil hm).elim,
      fun n hn => hn, h.marked⟩

/-- **One step keeps the agreement**, if intents are voided first. -/
lemma Faithful.step {ok : Assumption} {c c' : Outbox} (h : Faithful c)
    (hcore : Reaches env ok c.shared.core) (hfirst : VoidsFirst c (p, a))
    (hstep : outboxStep env r archiver limit c (p, a) = some c') : Faithful c' := by
  obtain ⟨s', w', hact, rfl⟩ := Interleave.step_eq_some.mp hstep
  cases outboxRule_of_act hact with
  | @core q b core hcorestep =>
    have hagrees : ∀ n, (∀ v ∈ c.shared.core.voiding q b, v.intentID ≠ n) → Agrees c.shared n →
        Agrees { c.shared with core := core } n := by
      rintro n hvoid ⟨m, hlast, hcurrent⟩
      refine ⟨m, hlast, hcurrent.core hcore hcorestep fun v hv => ?_⟩
      rw [intentID_of_lastMessage hlast]
      exact hvoid v hv
    have hprocs : Function.update c.procs p (c.procs p) = c.procs := Function.update_eq_self ..
    rw [hprocs]
    refine ⟨fun q' m hm => ?_, fun q' m hm => ?_, fun n hn => ?_⟩
    · exact (h.batch q' m hm).core hcore hcorestep fun v hv => ((hfirst v hv).2 q' m hm).symm
    · obtain ⟨hbatch, hlast⟩ := h.accepted q' m hm
      exact ⟨hbatch, hagrees _ (fun v hv => ((hfirst v hv).2 q' m hbatch).symm) hlast⟩
    · refine hagrees n (fun v hv heq => ?_) (h.marked n hn)
      subst heq
      exact hn (hfirst v hv).1
  | relay hrule =>
    obtain ⟨hbatch, haccepted, hkept, hmarked⟩ := h.relay (held_of_reaches hcore).1 hrule
    have hintents : s'.intents = c.shared.intents := by rw [hrule.frame]; rfl
    refine ⟨fun q m hm => ?_, fun q m hm => ?_, hmarked⟩
    · by_cases hq : q = p
      · subst hq
        exact hbatch m (by simpa using hm)
      · simp only [Function.update_of_ne hq] at hm
        simpa only [Current, hintents] using h.batch q m hm
    · by_cases hq : q = p
      · subst hq
        simpa using haccepted m (by simpa using hm)
      · simp only [Function.update_of_ne hq] at hm ⊢
        exact ⟨(h.accepted q m hm).1, hkept _ (h.accepted q m hm).2⟩
  | pass => exact hfirst.elim

variable {partitions : AList (fun _ : String => Range)} {c : Outbox}

/-- Without retirement, the processes that claim and complete run as they do on their own. -/
lemma core_of_reachable
    (h : Reachable (outboxStep env r archiver limit) VoidsFirst (Outbox.init partitions) c) :
    Reaches env (fun _ _ => True) c.shared.core := by
  refine h.map (step env) (fun _ _ => True) (fun c => c.shared.core) ?_
  rintro c ⟨p, a⟩ c' - hfirst hstep
  obtain ⟨s', w', hact, rfl⟩ := Interleave.step_eq_some.mp hstep
  cases outboxRule_of_act hact with
  | core hcore => exact .inr ⟨_, trivial, hcore⟩
  | relay hrule => exact .inl (by rw [hrule.frame])
  | pass => exact hfirst.elim

/-- **The published history agrees with the table.** In every run of claims, completions and
relays in which intents are voided only while they are unpublished and in no relay's hands, the
last message for each published intent says that it is voided exactly if its `voided_at` is set.

**Proof sketch.** What a relay reads is current, and stays so while the relay has it at hand. So
what it publishes is current when it marks it, whatever other relays have published in between,
and from then on the intent is not voided. -/
theorem published_history_agrees
    (h : Reachable (outboxStep env r archiver limit) VoidsFirst (Outbox.init partitions) c) :
    ∀ i ∈ c.shared.intents, c.shared.published i.intentID ≠ none →
      ∃ m, lastMessage c.shared.log i.intentID = some m ∧
        (m.voided = true ↔ i.voidedAt.isSome = true) := by
  have hfaithful : Faithful c := by
    refine h.invariant (I := Faithful) ⟨?_, ?_, ?_⟩ ?_
    · exact fun p m hm => (List.not_mem_nil hm).elim
    · exact fun p m hm => (List.not_mem_nil hm).elim
    · exact fun n hn => absurd rfl hn
    · rintro c ⟨p, a⟩ c' hc hI hfirst hstep
      exact hI.step (core_of_reachable hc) hfirst hstep
  intro i hi hpublished
  obtain ⟨m, hlast, -, hcurrent⟩ := hfaithful.marked i.intentID hpublished
  refine ⟨m, hlast, ?_⟩
  rw [hcurrent i hi (intentID_of_lastMessage hlast).symm]

/-! ## Two runs -/

/-- The relay 0 is the only one, and nothing but it acts while it has a batch at hand. -/
def takesTurns (c : Outbox) (ia : Pid × OutboxAction) : Bool :=
  ia.1 = 0 && match ia.2 with
    | .core q a => (c.procs 0).relay = .idle &&
        (c.shared.core.voiding q a).all fun v => c.shared.published v.intentID = none
    | .relay _ => true
    | .pass _ => false

/-- Where it takes turns with the others, intents are voided first. -/
lemma VoidsFirst.of_takesTurns {ia : Pid × OutboxAction}
    (h : Reachable (outboxStep env r archiver limit) (fun c ia => takesTurns c ia = true)
      (Outbox.init partitions) c) (hturns : takesTurns c ia = true) : VoidsFirst c ia := by
  have hidle : ∀ q, q ∉ [0] → c.procs q = ⟨.idle, .idle⟩ := fun q hq =>
    Interleave.procs_of_not_mem (fun c ia hok => by
      simpa using (Bool.and_eq_true_iff.mp hok).1) h hq
  obtain ⟨p, a⟩ := ia
  have hturns := (Bool.and_eq_true_iff.mp hturns).2
  cases a with
  | relay => trivial
  | pass => cases hturns
  | core q a =>
    intro v hv
    simp only [Bool.and_eq_true, decide_eq_true_eq] at hturns
    obtain ⟨hrelay, hnull⟩ := hturns
    rw [Option.mem_def.mp hv] at hnull
    refine ⟨of_decide_eq_true hnull, fun q' m hm => ?_⟩
    have hempty : (c.procs q').relay = .idle := by
      by_cases hq : q' = 0
      · rw [hq, hrelay]
      · rw [hidle q' (by simpa using hq)]
    rw [hempty] at hm
    cases hm

/-- The steps of the handler 0 after its claim, when its write fails and the intent `i` is
voided. -/
def failSteps (i : IntentRow) : List (Pid × Action) :=
  [(0, .call), (0, .lose), (0, .ret ⟨.failed, [], "declined"⟩), (0, .place true), (0, .begin 6),
    (0, .update), (0, .void (some i)), (0, .commit .ok)]

/-- A write fails, and then its intent is published, as voided. -/
theorem published_history_agrees_voided : ∃ c m,
    Reachable Outbox.smallStep VoidsFirst Outbox.small c ∧
    { IntentRow.small 1 .replace "a" keyA 5 with voidedAt := some 6 } ∈ c.shared.intents ∧
    c.shared.published 1 ≠ none ∧ lastMessage c.shared.log 1 = some m ∧ m.voided = true := by
  obtain ⟨c, hrun, hc⟩ := exists_run_of_exec Outbox.smallStep
    (fun c ia => takesTurns c ia = true) Outbox.small
    (coreSteps (insertSteps 0 (.small .replace true) (.small "a" keyA) 5 [] ++
        [(0, .commit .ok)] ++ failSteps (.small 1 .replace "a" keyA 5)) ++
      publishSteps 0 { IntentRow.small 1 .replace "a" keyA 5 with voidedAt := some 6 })
    (fun c => { IntentRow.small 1 .replace "a" keyA 5 with voidedAt := some 6 } ∈
      c.shared.intents && c.shared.published 1 ≠ none) (by decide +kernel)
  simp only [Bool.and_eq_true, decide_eq_true_eq] at hc
  obtain ⟨hi, hpublished⟩ := hc
  have hreach : Reachable Outbox.smallStep VoidsFirst Outbox.small c :=
    Reachable.mono_of_reachable (fun _ _ ht hok => .of_takesTurns ht hok) ⟨_, hrun⟩
  obtain ⟨m, hlast, hvoided⟩ := published_history_agrees hreach _ hi hpublished
  exact ⟨c, m, hreach, hi, hpublished, hlast, hvoided.mpr rfl⟩

/-- **A voided intent stays published as one that stands.** The relay publishes an intent while
its write is under way. The write fails, and the intent is voided; it is marked, so that no relay
comes to it again. -/
theorem voided_intent_published_live : ∃ c i m,
    Reachable Outbox.smallStep (fun _ ia => ia.2.isPass = false) Outbox.small c ∧
    (∀ j ∈ c.shared.intents, c.shared.published j.intentID ≠ none) ∧
    i ∈ c.shared.intents ∧ i.voidedAt.isSome = true ∧
    lastMessage c.shared.log i.intentID = some m ∧ m.voided = false := by
  obtain ⟨c, hrun, hc⟩ := exists_run_of_exec Outbox.smallStep
    (fun _ ia => ia.2.isPass = false) Outbox.small
    (coreSteps (insertSteps 0 (.small .replace true) (.small "a" keyA) 5 [] ++
        [(0, .commit .ok)]) ++
      publishSteps 0 (.small 1 .replace "a" keyA 5) ++
      coreSteps (failSteps (.small 1 .replace "a" keyA 5)))
    (fun c => (c.shared.intents.all fun j => c.shared.published j.intentID ≠ none) &&
      c.shared.intents.any fun i => i.voidedAt.isSome &&
        (lastMessage c.shared.log i.intentID).any fun m => !m.voided) (by decide +kernel)
  obtain ⟨hall, hany⟩ := Bool.and_eq_true_iff.mp hc
  obtain ⟨i, hi, hany⟩ := List.any_eq_true.mp hany
  obtain ⟨hvoided, hany⟩ := Bool.and_eq_true_iff.mp hany
  obtain ⟨m, hlast, hm⟩ := (Option.any_eq_true _ _).mp hany
  exact ⟨c, i, m, ⟨_, hrun⟩, by simpa using hall, hi, hvoided, hlast, by simpa using hm⟩

end Idemio
