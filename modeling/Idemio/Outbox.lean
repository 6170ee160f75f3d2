import Idemio.Maintenance.Pass
import Idemio.System.Atomic

set_option relaxedAutoImplicit false
set_option autoImplicit false

/-!
# The outbox

`write_intents` is a transactional outbox: a claim writes its intent in its own transaction, and
the relay of `internal/relay` publishes what is there with `published_at` still `NULL`. It
publishes first and marks afterwards. Retirement (`Idemio.Maintenance.Pass`) takes partitions off
the same table by their age.

The system of this module is that of `Idemio.System.Step` together with any number of relays and
of passes, which take turns with its processes.

## Main definitions

* `Idemio.Message`, `Idemio.message` — what is published of an intent.
* `Idemio.Relay`, `Idemio.Relay.step` — a relay and the steps of its cycles.
* `Idemio.Store` — the system of `Idemio.System.Step`, the column `published_at`, what the
  publisher has accepted, and the partitions of `write_intents`.
* `Idemio.outboxStorage` — the statements of a pass on this store.
* `Idemio.outboxStep` — the whole system.

## Main results

* `Idemio.relayRule_of_step` — every step of a relay is an instance of a rule.
* `Idemio.StoreChange.of_passRule` — what a pass does to the outbox.

## Design

While `WriteMessages` runs, the publisher accepts messages of the batch one by one, in any order
and possibly more than once. It reports success when it has accepted all of them. A cycle that
ends with an error, whatever has been accepted until then, and a relay that crashes both begin a
new cycle.

The partitions are those that there will ever be: one that is created ahead of its time holds no
row and is not past retention. `DETACH PARTITION` waits for the transactions that have used the
table, and an insert for which there is no partition fails. Here neither is asked for, which only
adds runs.
-/

namespace Idemio

/-! ## Messages -/

/-- `relay.message`; `declared` is the pair `operation_class`, `scope_selector`. -/
structure Message where
  intentID : Nat
  agentID : String
  key : String
  resourceType : String
  resourceID : String
  operation : String
  declared : Operation
  payload : RawMessage
  voided : Bool
  emittedAt : Time
  deriving DecidableEq, Repr

/-- What `unpublished` reads of a row. -/
def message (env : Env) (i : IntentRow) : Message where
  intentID := i.intentID
  agentID := i.agentID
  key := i.key
  resourceType := i.resourceType
  resourceID := i.resourceID
  operation := i.operation
  declared := i.declared
  payload := env.jsonbText (.document i.payload)
  voided := i.voidedAt.isSome
  emittedAt := i.emittedAt

/-! ## The store -/

/-- The bounds of a partition: from `lower` on, and before `upper` if there is one. -/
structure Range where
  lower : Time
  upper : Option Time
  deriving DecidableEq, Repr

/-- The partition holds the rows of this time. -/
def Range.covers (range : Range) (t : Time) : Bool :=
  range.lower ≤ t && range.upper.all (t < ·)

/-- What relays, passes and the processes of `Idemio.System.Step` share. -/
structure Store where
  /-- The processes that claim and complete, and what they share. -/
  core : State
  /-- The column `published_at`, by intent. -/
  published : Nat → Option Time
  /-- What the publisher has accepted, in order. -/
  log : List Message
  /-- The attached partitions of `write_intents`. -/
  partitions : AList (fun _ : String => Range)
  /-- The detached ones, and the rows in them. -/
  detached : AList (fun _ : String => List IntentRow)
  /-- The archive. -/
  archive : String → Option (List IntentRow)

/-- The rows of `write_intents`. -/
def Store.intents (s : Store) : List IntentRow := s.core.shared.db.intents

/-- The claim transactions that have committed. -/
def Store.claims (s : Store) : List Claimed := s.core.shared.claims

/-- `published_at IS NULL`. -/
def Store.unpublished (s : Store) (i : IntentRow) : Bool := (s.published i.intentID).isNone

/-- What `selectUnpublished` may return: matching rows in order, all of them or as many as the
limit allows, and none that comes after one that was left out. -/
def SelectUnpublished (s : Store) (limit : Nat) (rows : List IntentRow) : Prop :=
  (rows ++ (s.intents.filter s.unpublished).diff rows).Perm (s.intents.filter s.unpublished) ∧
  (rows.Pairwise fun i j => i.emittedAt ≤ j.emittedAt) ∧
  rows.length = min limit (s.intents.filter s.unpublished).length ∧
  ∀ i ∈ rows, ∀ j ∈ (s.intents.filter s.unpublished).diff rows, i.emittedAt ≤ j.emittedAt

instance (s : Store) (limit : Nat) (rows : List IntentRow) :
    Decidable (SelectUnpublished s limit rows) :=
  inferInstanceAs (Decidable (_ ∧ _))

/-- The row is one that `markPublished` updates for a batch. -/
def marks (batch : List Message) (i : IntentRow) : Bool :=
  i.intentID ∈ batch.map (·.intentID) && i.emittedAt ∈ batch.map (·.emittedAt)

/-- `markPublished`. -/
def Store.markPublished (now : Time) (batch : List Message) (s : Store) : Store :=
  { s with
    published := fun n =>
      if s.intents.any fun i => i.intentID = n && marks batch i then some now
      else s.published n }

/-- Only `markPublished` marks an intent, and only one of its batch. -/
lemma published_of_mark {s : Store} {n : Nat} {now : Time} {batch : List Message}
    (h : (s.markPublished now batch).published n ≠ none) :
    s.published n ≠ none ∨ ∃ m ∈ batch, m.intentID = n := by
  simp only [Store.markPublished] at h
  split at h
  · next hany =>
    obtain ⟨i, -, hi⟩ := List.any_eq_true.mp hany
    simp only [marks, Bool.and_eq_true, decide_eq_true_eq] at hi
    obtain ⟨hid, hbatch, -⟩ := hi
    obtain ⟨m, hm, heq⟩ := List.mem_map.mp hbatch
    exact .inr ⟨m, hm, heq.trans hid⟩
  · exact .inl h

/-- The store with other rows in `write_intents`. -/
def Store.withIntents (s : Store) (intents : List IntentRow) : Store :=
  { s with
    core := { s.core with
      shared := { s.core.shared with db := { s.core.shared.db with intents := intents } } } }

/-! ## Relays -/

/-- A relay in its cycle. -/
inductive Relay
  | idle
  /-- `WriteMessages`, with what has been accepted of the batch. -/
  | write (batch accepted : List Message)
  /-- `markPublished`. -/
  | mark (batch : List Message)
  deriving DecidableEq

/-- The actions of a relay. -/
inductive RelayAction
  | select (rows : List IntentRow)
  | accept (m : Message)
  | written
  | mark (now : Time) (outcome : CommitOutcome)
  | fail
  deriving DecidableEq

/-- The batch that a relay has at hand. -/
def Relay.batch : Relay → List Message
  | .idle => []
  | .write batch _ => batch
  | .mark batch => batch

/-- What the publisher has accepted from a relay in this cycle. -/
def Relay.accepted : Relay → List Message
  | .idle => []
  | .write _ accepted => accepted
  | .mark batch => batch

/-- The end of `markPublished`. -/
def Store.mark (now : Time) (batch : List Message) (s : Store) : CommitOutcome → Store
  | .ok => s.markPublished now batch
  | .refused => s
  | .unseen => s.markPublished now batch

/-- The steps of `Publish`. -/
def Relay.step (env : Env) (limit : Nat) (s : Store) (r : Relay) (a : RelayAction) :
    Option (Store × Relay) :=
  match r, a with
  | .idle, .select rows =>
    if SelectUnpublished s limit rows then
      if rows.isEmpty then some (s, .idle)
      else some (s, .write (rows.map (message env)) [])
    else none
  | .write batch accepted, .accept m =>
    if m ∈ batch then some ({ s with log := s.log ++ [m] }, .write batch (accepted ++ [m]))
    else none
  | .write batch accepted, .written =>
    if ∀ m ∈ batch, m ∈ accepted then some (s, .mark batch) else none
  | .mark batch, .mark now outcome => some (s.mark now batch outcome, .idle)
  | _, .fail => some (s, .idle)
  | _, _ => none

/-- What a relay can do. -/
inductive RelayRule (env : Env) (limit : Nat) (s : Store) :
    Relay → RelayAction → Store → Relay → Prop
  | select {rows : List IntentRow} (hrows : SelectUnpublished s limit rows) :
      RelayRule env limit s .idle (.select rows) s (.write (rows.map (message env)) [])
  | empty : RelayRule env limit s .idle (.select []) s .idle
  | accept {batch accepted : List Message} {m : Message} (hm : m ∈ batch) :
      RelayRule env limit s (.write batch accepted) (.accept m) { s with log := s.log ++ [m] }
        (.write batch (accepted ++ [m]))
  | written {batch accepted : List Message} (hall : ∀ m ∈ batch, m ∈ accepted) :
      RelayRule env limit s (.write batch accepted) .written s (.mark batch)
  | mark {batch : List Message} {now : Time} {outcome : CommitOutcome} :
      RelayRule env limit s (.mark batch) (.mark now outcome) (s.markPublished now batch) .idle
  | refused {batch : List Message} {now : Time} :
      RelayRule env limit s (.mark batch) (.mark now .refused) s .idle
  | fail {r : Relay} : RelayRule env limit s r .fail s .idle

/-- Every step of a relay follows a rule. -/
lemma relayRule_of_step {env : Env} {limit : Nat} {s s' : Store} {r r' : Relay} {a : RelayAction}
    (h : r.step env limit s a = some (s', r')) : RelayRule env limit s r a s' r' := by
  unfold Relay.step at h
  split at h
  · split at h
    · next hrows =>
      split at h
      · next hempty =>
        cases h
        rw [List.isEmpty_iff.mp hempty]
        exact .empty
      · cases h
        exact .select hrows
    · cases h
  · split at h
    · next hm =>
      cases h
      exact .accept hm
    · cases h
  · split at h
    · next hall =>
      cases h
      exact .written hall
    · cases h
  · next outcome =>
    cases outcome <;> cases h
    · exact .mark
    · exact .refused
    · exact .mark
  · cases h
    exact .fail
  · cases h

/-- A relay changes `published_at` and the log, and nothing else. -/
lemma RelayRule.frame {env : Env} {limit : Nat} {s s' : Store} {r r' : Relay} {a : RelayAction}
    (h : RelayRule env limit s r a s' r') :
    s' = { s with published := s'.published, log := s'.log } := by
  cases h <;> rfl

/-! ## Passes -/

/-- The rows of a partition. -/
def Store.rowsIn (s : Store) (range : Range) : List IntentRow :=
  s.intents.filter fun i => range.covers i.emittedAt

/-- A partition and its rows are no longer part of `write_intents`. -/
def Store.remove (name : String) (range : Range) (s : Store) : Store :=
  { s.withIntents (s.intents.filter fun i => !range.covers i.emittedAt) with
    partitions := s.partitions.erase name }

/-- `ALTER TABLE write_intents DETACH PARTITION`. -/
def Store.detach (name : String) (s : Store) : Option Store :=
  (s.partitions.lookup name).map fun range =>
    { s.remove name range with detached := s.detached.insert name (s.rowsIn range) }

/-- `DROP TABLE`, of a detached partition or of one that is attached. -/
def Store.drop (name : String) (s : Store) : Option Store :=
  match s.partitions.lookup name with
  | some range => some (s.remove name range)
  | none =>
    if (s.detached.lookup name).isSome then some { s with detached := s.detached.erase name }
    else none

/-- The statements of a pass on the outbox. The partitions of the other tables are of no
concern here. -/
def outboxStorage : Storage Store IntentRow where
  partitions t s :=
    if t = .writeIntents then s.partitions.entries.map fun e => (e.1, e.2.upper) else []
  detach t name s := if t = .writeIntents then s.detach name else none
  scan name s :=
    match s.partitions.lookup name with
    | some range => some (s.rowsIn range)
    | none => s.detached.lookup name
  put name rows s := { s with archive := Function.update s.archive name (some rows) }
  drop := Store.drop

/-- The action is a `DETACH PARTITION` that takes effect. -/
def PassAction.detaches : PassAction → Bool
  | .detach .ok => true
  | .detach .unseen => true
  | _ => false

/-- What a step of a pass does to the outbox: nothing, or a partition is detached or dropped. -/
inductive StoreChange (s : Store) (pass : Pass IntentRow) (a : PassAction) (s' : Store) : Prop
  | same (hcore : s'.core = s.core) (hpublished : s'.published = s.published)
      (hlog : s'.log = s.log) (hpartitions : s'.partitions = s.partitions)
  | detach {name : String} {names : List String} {cur : Cursor} {range : Range}
      (ha : a.detaches = true) (hpass : pass = .loop cur) (hcur : cur.expired = name :: names)
      (htable : cur.table = .writeIntents) (hrange : s.partitions.lookup name = some range)
      (hs : s' = { s.remove name range with detached := s.detached.insert name (s.rowsIn range) })
  | drop {name : String} {range : Range} (hpass : pass.partition = some name)
      (hrange : s.partitions.lookup name = some range)

/-- What a pass does to the outbox. -/
lemma StoreChange.of_passRule {r : Retention} {archiver : Archiver} {s s' : Store}
    {pass pass' : Pass IntentRow} {a : PassAction}
    (h : PassRule outboxStorage r archiver s pass a s' pass') : StoreChange s pass a s' := by
  cases h with
  | detach _ hs | detachUnseen _ hs =>
    simp only [outboxStorage] at hs
    split at hs
    · next htable =>
      obtain ⟨range, hrange, rfl⟩ := Option.map_eq_some_iff.mp hs
      exact .detach rfl rfl rfl htable hrange rfl
    · cases hs
  | drop hs | dropUnseen hs =>
    simp only [outboxStorage, Store.drop] at hs
    split at hs
    · next hrange => exact .drop rfl hrange
    · split at hs
      · cases hs
        exact .same rfl rfl rfl rfl
      · cases hs
  | _ => exact .same rfl rfl rfl rfl

/-! ## The system -/

/-- A relay and a pass. -/
structure Worker where
  relay : Relay
  pass : Pass IntentRow

/-- What can happen: a step of a process of `Idemio.System.Step`, of a relay or of a pass. -/
inductive OutboxAction
  | core (q : Pid) (a : Action)
  | relay (a : RelayAction)
  | pass (a : PassAction)

/-- A state of the system. -/
abbrev Outbox := Interleave.Config Pid Store Worker

section System

variable (env : Env) (r : Retention) (archiver : Pid → Archiver) (limit : Nat)

/-- The step of one worker, or of a process beside it. -/
def outboxAct (p : Pid) (s : Store) (w : Worker) : OutboxAction → Option (Store × Worker)
  | .core q a => (Idemio.step env s.core (q, a)).map fun core => ({ s with core := core }, w)
  | .relay a => (w.relay.step env limit s a).map fun res => (res.1, { w with relay := res.2 })
  | .pass a =>
    (w.pass.step outboxStorage s r (archiver p) a).map fun res =>
      (res.1, { w with pass := res.2 })

/-- One step of the system. -/
def outboxStep : Outbox → Pid × OutboxAction → Option Outbox :=
  Interleave.step (outboxAct env r archiver limit)

/-- Nothing has happened yet. -/
def Outbox.init (partitions : AList (fun _ : String => Range)) : Outbox :=
  ⟨⟨Idemio.init, fun _ => none, [], partitions, ∅, fun _ => none⟩, fun _ => ⟨.idle, .idle⟩⟩

/-- What a step of a worker can do. -/
inductive OutboxRule (p : Pid) (s : Store) (w : Worker) : OutboxAction → Store → Worker → Prop
  | core {q : Pid} {a : Action} {core : State} (hstep : Idemio.step env s.core (q, a) = some core) :
      OutboxRule p s w (.core q a) { s with core := core } w
  | relay {a : RelayAction} {s' : Store} {relay : Relay}
      (hrule : RelayRule env limit s w.relay a s' relay) :
      OutboxRule p s w (.relay a) s' { w with relay := relay }
  | pass {a : PassAction} {s' : Store} {pass : Pass IntentRow}
      (hrule : PassRule outboxStorage r (archiver p) s w.pass a s' pass) :
      OutboxRule p s w (.pass a) s' { w with pass := pass }

end System

variable {env : Env} {r : Retention} {archiver : Pid → Archiver} {limit : Nat}

/-- Every step of the system follows a rule. -/
lemma outboxRule_of_act {p : Pid} {s s' : Store} {w w' : Worker} {a : OutboxAction}
    (h : outboxAct env r archiver limit p s w a = some (s', w')) :
    OutboxRule env r archiver limit p s w a s' w' := by
  cases a with
  | core q a =>
    obtain ⟨core, hstep, heq⟩ := Option.map_eq_some_iff.mp h
    cases heq
    exact .core hstep
  | relay a =>
    obtain ⟨⟨s₁, relay⟩, hstep, heq⟩ := Option.map_eq_some_iff.mp h
    cases heq
    exact .relay (relayRule_of_step hstep)
  | pass a =>
    obtain ⟨⟨s₁, pass⟩, hstep, heq⟩ := Option.map_eq_some_iff.mp h
    cases heq
    exact .pass (passRule_of_step hstep)

/-! ## A small outbox -/

/-- An outbox in which runs can be evaluated. It has one partition, for the times from 0 to 7. -/
def Outbox.small : Outbox := Outbox.init (AList.singleton "write_intents_20200101" ⟨0, some 7⟩)

/-- Its steps. Intents are kept for 90, and a relay takes ten at a time. -/
def Outbox.smallStep : Outbox → Pid × OutboxAction → Option Outbox :=
  outboxStep Env.small ⟨90, 365, 365⟩ (fun _ => .holding .new) 10

/-- Steps of the processes that claim and complete. -/
def coreSteps (steps : List (Pid × Action)) : List (Pid × OutboxAction) :=
  steps.map fun qa => (0, .core qa.1 qa.2)

/-- A cycle of the relay `p` that publishes one intent. -/
def publishSteps (p : Pid) (i : IntentRow) : List (Pid × OutboxAction) :=
  [(p, .relay (.select [i])), (p, .relay (.accept (message Env.small i))), (p, .relay .written),
    (p, .relay (.mark 6 .ok))]

/-- The steps of the pass `p` until it is about to detach the partition. -/
def agedSteps (p : Pid) : List (Pid × OutboxAction) :=
  [(p, .pass .start), (p, .pass (.list 100 [("write_intents_20200101", some 7)]))]

end Idemio
