import Idemio.System.Step

set_option relaxedAutoImplicit false
set_option autoImplicit false

/-!
# The retirement of partitions

`RetireExpired` of `internal/maintenance/retention.go` and `Archive` of `internal/archive`: for
each table, the attached partitions past retention are listed, and each of them is detached,
exported to the object store and dropped. Every statement may fail, with or without effect, and
the process may end between any two of them.

A pass is written against the statements that it makes (`Idemio.Storage`), so that the same pass
runs on the catalog of `Idemio.Maintenance.Retirement` and on the outbox of `Idemio.Outbox`.

## Main definitions

* `Idemio.Table`, `Idemio.Retention` — the tables and how long their rows are kept.
* `Idemio.Archiver` — a value of the interface type `maintenance.Archiver`.
* `Idemio.Storage` — the statements of a pass.
* `Idemio.Pass`, `Idemio.Pass.step` — a pass and its steps.
* `Idemio.PassRule` — what a step of a pass can do.

## Main results

* `Idemio.passRule_of_step` — every step of a pass is an instance of a rule.
-/

namespace Idemio

/-! ## Tables and archives -/

/-- The range-partitioned tables. -/
inductive Table
  | writeIntents
  | conflicts
  | payloadAccessAudit
  deriving DecidableEq, Repr

/-- The name of a table. -/
def Table.name : Table → String
  | .writeIntents => "write_intents"
  | .conflicts => "conflicts"
  | .payloadAccessAudit => "payload_access_audit"

/-- `maintenance.Tables`. -/
def tables : List Table := [.writeIntents, .conflicts, .payloadAccessAudit]

/-- `maintenance.Retention`, as far as partitions are concerned. -/
structure Retention where
  intents : Time
  conflicts : Time
  audit : Time
  deriving DecidableEq, Repr

/-- `Retention.window`. -/
def Retention.window (r : Retention) : Table → Time
  | .writeIntents => r.intents
  | .conflicts => r.conflicts
  | .payloadAccessAudit => r.audit

/-- `objectName`. -/
def objectName (t : Table) (partition : String) : String :=
  t.name ++ "/" ++ partition ++ ".parquet"

/-- `*archive.Archive`, a pointer that may be nil. -/
inductive ArchivePtr
  | nil
  | new
  deriving DecidableEq, Repr

/-- `archive.New`, of a client for the object store that may be nil. -/
def archiveNew (objects : Bool) : ArchivePtr := if objects then .new else .nil

/-- A value of the interface type `maintenance.Archiver`. An interface that holds a nil pointer
is not nil itself. -/
inductive Archiver
  | nil
  | holding (ptr : ArchivePtr)
  deriving DecidableEq, Repr

/-- `archiver == nil`. -/
def Archiver.isNil (a : Archiver) : Bool := a = .nil

/-- The names of the objects of different partitions are different. -/
lemma objectName_inj {t t' : Table} {name name' : String}
    (h : objectName t name = objectName t' name') : t = t' ∧ name = name' := by
  have h := congrArg String.toList h
  simp only [objectName, String.toList_append] at h
  cases t <;> cases t' <;>
    simp [Table.name] at h <;> exact ⟨rfl, String.toList_inj.mp h⟩

/-! ## Passes -/

/-- The statements that a pass makes: `partitions` lists the attached partitions of a table with
their upper bounds, `detach` and `drop` fail on partitions that are not attached or not there,
`scan` reads the rows of a table by its name and `put` is the upload. -/
structure Storage (σ ρ : Type) where
  partitions : Table → σ → List (String × Option Time)
  detach : Table → String → σ → Option σ
  scan : String → σ → Option (List ρ)
  put : String → List ρ → σ → σ
  drop : String → σ → Option σ

/-- Where a pass stands in its two loops: the table, the time at which it was listed, the
partitions still to be retired and the tables still to come. -/
structure Cursor where
  table : Table
  now : Time
  expired : List String
  todo : List Table
  deriving DecidableEq, Repr

/-- A `RetireExpired`. -/
inductive Pass (ρ : Type)
  | idle
  /-- The loop over the tables. -/
  | tables (todo : List Table)
  /-- The loop over the expired partitions of a table. -/
  | loop (c : Cursor)
  /-- `export`. -/
  | archive (partition : String) (c : Cursor)
  /-- `Put` of `Archive`. -/
  | put (partition : String) (rows : List ρ) (c : Cursor)
  /-- The `DROP TABLE`. -/
  | drop (partition : String) (c : Cursor)
  | returned
  | failed
  | panicked
  | crashed
  deriving DecidableEq

/-- The actions of a pass. -/
inductive PassAction
  | start
  | list (now : Time) (rows : List (String × Option Time))
  | fail
  | skip
  | detach (outcome : CommitOutcome)
  | export (ok : Bool)
  | put (outcome : CommitOutcome)
  | drop (outcome : CommitOutcome)
  | next
  | crash
  deriving DecidableEq

/-- `expired`, after the query. The upper bound of a partition that has none cannot be scanned. -/
def expired (cutoff : Time) : List (String × Option Time) → Option (List String)
  | [] => some []
  | (_, none) :: _ => none
  | (name, some upper) :: rows =>
    (expired cutoff rows).map fun names => if upper ≤ cutoff then name :: names else names

/-- What `expired` returns are the partitions whose upper bound is not after the cutoff. -/
lemma mem_expired {cutoff : Time} {rows : List (String × Option Time)} {names : List String}
    {name : String} (h : expired cutoff rows = some names) :
    name ∈ names ↔ ∃ upper, (name, some upper) ∈ rows ∧ upper ≤ cutoff := by
  induction rows generalizing names with
  | nil =>
    cases h
    simp
  | cons row rows ih =>
    obtain ⟨name', bound⟩ := row
    cases bound with
    | none => cases h
    | some upper =>
      obtain ⟨names', hrest, rfl⟩ := Option.map_eq_some_iff.mp h
      have ih := ih hrest
      split <;> simp only [List.mem_cons, Prod.mk.injEq, Option.some.injEq, ih] <;> grind

/-- A table can be listed unless a partition has no upper bound. -/
lemma expired_eq_none {cutoff : Time} {rows : List (String × Option Time)} :
    expired cutoff rows = none ↔ ∃ name, (name, none) ∈ rows := by
  induction rows with
  | nil => simp [expired]
  | cons row rows ih =>
    obtain ⟨name', bound⟩ := row
    cases bound with
    | none => simp [expired]
    | some upper => simp [expired, ih]

section Step

variable {σ ρ : Type} (st : Storage σ ρ) (s : σ)

/-- The `DETACH PARTITION`. -/
def detachPartition (partition : String) (c : Cursor) : CommitOutcome → σ × Pass ρ
  | .ok =>
    match st.detach c.table partition s with
    | none => (s, .failed)
    | some s' => (s', .archive partition c)
  | .refused => (s, .failed)
  | .unseen => ((st.detach c.table partition s).getD s, .failed)

/-- `Archive`, up to the upload. An archive that is nil has no pool to export from. -/
def exportPartition (archiver : Archiver) (partition : String) (c : Cursor) (ok : Bool) :
    Pass ρ :=
  match archiver with
  | .nil => .panicked
  | .holding .nil => .panicked
  | .holding .new =>
    match st.scan partition s with
    | none => .loop c
    | some rows => if ok then .put partition rows c else .loop c

/-- The upload. A partition whose archive failed stays detached. -/
def putPartition (partition : String) (rows : List ρ) (c : Cursor) : CommitOutcome → σ × Pass ρ
  | .ok => (st.put (objectName c.table partition) rows s, .drop partition c)
  | .refused => (s, .loop c)
  | .unseen => (st.put (objectName c.table partition) rows s, .loop c)

/-- The `DROP TABLE`. -/
def dropPartition (partition : String) (c : Cursor) : CommitOutcome → σ × Pass ρ
  | .ok =>
    match st.drop partition s with
    | none => (s, .failed)
    | some s' => (s', .loop c)
  | .refused => (s, .failed)
  | .unseen => ((st.drop partition s).getD s, .failed)

/-- The partition that a pass works on. -/
def Pass.partition : Pass ρ → Option String
  | .archive name _ => some name
  | .put name _ _ => some name
  | .drop name _ => some name
  | _ => none

/-- Where a pass stands in its loops. -/
def Pass.cursor : Pass ρ → Option Cursor
  | .loop cur => some cur
  | .archive _ cur => some cur
  | .put _ _ cur => some cur
  | .drop _ cur => some cur
  | _ => none

/-- The pass is under way. -/
def Pass.running : Pass ρ → Bool
  | .tables _ => true
  | .loop _ => true
  | .archive _ _ => true
  | .put _ _ _ => true
  | .drop _ _ => true
  | _ => false

/-- The steps of a pass. -/
def Pass.step (r : Retention) (archiver : Archiver) (pass : Pass ρ) (a : PassAction) :
    Option (σ × Pass ρ) :=
  match pass, a with
  | pass, .crash => if pass.running then some (s, .crashed) else none
  | .idle, .start => some (s, .tables Idemio.tables)
  | .tables [], .next => some (s, .returned)
  | .tables (_ :: _), .fail => some (s, .failed)
  | .tables (t :: todo), .list now rows =>
    if rows.Perm (st.partitions t s) then
      match expired (now - r.window t) rows with
      | none => some (s, .failed)
      | some names => some (s, .loop ⟨t, now, names, todo⟩)
    else none
  | .loop ⟨_, _, [], todo⟩, .next => some (s, .tables todo)
  | .loop ⟨t, now, _ :: names, todo⟩, .skip =>
    if archiver.isNil then some (s, .loop ⟨t, now, names, todo⟩) else none
  | .loop ⟨t, now, name :: names, todo⟩, .detach outcome =>
    if archiver.isNil then none
    else some (detachPartition st s name ⟨t, now, names, todo⟩ outcome)
  | .archive name c, .export ok => some (s, exportPartition st s archiver name c ok)
  | .put name rows c, .put outcome => some (putPartition st s name rows c outcome)
  | .drop name c, .drop outcome => some (dropPartition st s name c outcome)
  | _, _ => none

end Step

/-! ## What a step can do -/

section Rule

variable {σ ρ : Type}

/-- What a pass can do. -/
inductive PassRule (st : Storage σ ρ) (r : Retention) (archiver : Archiver) (s : σ) :
    Pass ρ → PassAction → σ → Pass ρ → Prop
  | crash {pass : Pass ρ} : PassRule st r archiver s pass .crash s .crashed
  | start : PassRule st r archiver s .idle .start s (.tables tables)
  | finish : PassRule st r archiver s (.tables []) .next s .returned
  | fail {t : Table} {todo : List Table} :
      PassRule st r archiver s (.tables (t :: todo)) .fail s .failed
  | unbounded {t : Table} {todo : List Table} {now : Time} {rows : List (String × Option Time)}
      (hrows : rows.Perm (st.partitions t s)) (hnone : expired (now - r.window t) rows = none) :
      PassRule st r archiver s (.tables (t :: todo)) (.list now rows) s .failed
  | list {t : Table} {todo : List Table} {now : Time} {rows : List (String × Option Time)}
      {names : List String} (hrows : rows.Perm (st.partitions t s))
      (hnames : expired (now - r.window t) rows = some names) :
      PassRule st r archiver s (.tables (t :: todo)) (.list now rows) s
        (.loop ⟨t, now, names, todo⟩)
  | next {t : Table} {now : Time} {todo : List Table} :
      PassRule st r archiver s (.loop ⟨t, now, [], todo⟩) .next s (.tables todo)
  | skip {t : Table} {now : Time} {name : String} {names : List String} {todo : List Table}
      (hnil : archiver = .nil) :
      PassRule st r archiver s (.loop ⟨t, now, name :: names, todo⟩) .skip s
        (.loop ⟨t, now, names, todo⟩)
  | detach {s' : σ} {t : Table} {now : Time} {name : String} {names : List String}
      {todo : List Table} (hnil : archiver ≠ .nil) (hs : st.detach t name s = some s') :
      PassRule st r archiver s (.loop ⟨t, now, name :: names, todo⟩) (.detach .ok) s'
        (.archive name ⟨t, now, names, todo⟩)
  | detachUnseen {s' : σ} {t : Table} {now : Time} {name : String} {names : List String}
      {todo : List Table} (hnil : archiver ≠ .nil) (hs : st.detach t name s = some s') :
      PassRule st r archiver s (.loop ⟨t, now, name :: names, todo⟩) (.detach .unseen) s' .failed
  | detachFailed {t : Table} {now : Time} {name : String} {names : List String}
      {todo : List Table} {outcome : CommitOutcome} (hnil : archiver ≠ .nil)
      (hok : outcome = .ok → st.detach t name s = none) :
      PassRule st r archiver s (.loop ⟨t, now, name :: names, todo⟩) (.detach outcome) s .failed
  | panic {name : String} {c : Cursor} {ok : Bool} (hptr : archiver ≠ .holding .new) :
      PassRule st r archiver s (.archive name c) (.export ok) s .panicked
  | export {name : String} {c : Cursor} {rows : List ρ} (hptr : archiver = .holding .new)
      (hrows : st.scan name s = some rows) :
      PassRule st r archiver s (.archive name c) (.export true) s (.put name rows c)
  | exportFailed {name : String} {c : Cursor} {ok : Bool}
      (hok : ok = true → st.scan name s = none) :
      PassRule st r archiver s (.archive name c) (.export ok) s (.loop c)
  | put {name : String} {rows : List ρ} {c : Cursor} :
      PassRule st r archiver s (.put name rows c) (.put .ok)
        (st.put (objectName c.table name) rows s) (.drop name c)
  | putRefused {name : String} {rows : List ρ} {c : Cursor} :
      PassRule st r archiver s (.put name rows c) (.put .refused) s (.loop c)
  | putUnseen {name : String} {rows : List ρ} {c : Cursor} :
      PassRule st r archiver s (.put name rows c) (.put .unseen)
        (st.put (objectName c.table name) rows s) (.loop c)
  | drop {s' : σ} {name : String} {c : Cursor} (hs : st.drop name s = some s') :
      PassRule st r archiver s (.drop name c) (.drop .ok) s' (.loop c)
  | dropUnseen {s' : σ} {name : String} {c : Cursor} (hs : st.drop name s = some s') :
      PassRule st r archiver s (.drop name c) (.drop .unseen) s' .failed
  | dropFailed {name : String} {c : Cursor} {outcome : CommitOutcome}
      (hok : outcome = .ok → st.drop name s = none) :
      PassRule st r archiver s (.drop name c) (.drop outcome) s .failed

variable {st : Storage σ ρ} {r : Retention} {archiver : Archiver} {s s' : σ}
  {pass pass' : Pass ρ} {a : PassAction}

/-- A `DETACH PARTITION` follows a rule. -/
lemma passRule_of_detach {name : String} {c : Cursor} {outcome : CommitOutcome}
    (hnil : archiver ≠ .nil) (h : detachPartition st s name c outcome = (s', pass')) :
    PassRule st r archiver s (.loop { c with expired := name :: c.expired }) (.detach outcome) s'
      pass' := by
  unfold detachPartition at h
  cases outcome with
  | ok =>
    dsimp only at h
    split at h
    · next hnone =>
      cases h
      exact .detachFailed hnil fun _ => hnone
    · next hs =>
      cases h
      exact .detach hnil hs
  | refused =>
    cases h
    exact .detachFailed hnil fun hok => by cases hok
  | unseen =>
    cases hs : st.detach c.table name s with
    | none =>
      rw [hs] at h
      cases h
      exact .detachFailed hnil fun hok => by cases hok
    | some s₁ =>
      rw [hs] at h
      cases h
      exact .detachUnseen hnil hs

/-- A `DROP TABLE` follows a rule. -/
lemma passRule_of_drop {name : String} {c : Cursor} {outcome : CommitOutcome}
    (h : dropPartition st s name c outcome = (s', pass')) :
    PassRule st r archiver s (.drop name c) (.drop outcome) s' pass' := by
  unfold dropPartition at h
  cases outcome with
  | ok =>
    dsimp only at h
    split at h
    · next hnone =>
      cases h
      exact .dropFailed fun _ => hnone
    · next hs =>
      cases h
      exact .drop hs
  | refused =>
    cases h
    exact .dropFailed fun hok => by cases hok
  | unseen =>
    cases hs : st.drop name s with
    | none =>
      rw [hs] at h
      cases h
      exact .dropFailed fun hok => by cases hok
    | some s₁ =>
      rw [hs] at h
      cases h
      exact .dropUnseen hs

/-- An export follows a rule. -/
lemma passRule_of_export {name : String} {c : Cursor} {ok : Bool} :
    PassRule st r archiver s (.archive name c) (.export ok) s
      (exportPartition st s archiver name c ok) := by
  unfold exportPartition
  split
  · exact .panic (by simp)
  · exact .panic (by simp)
  · split
    · next hnone => exact .exportFailed fun _ => hnone
    · next hrows =>
      cases ok with
      | true => exact .export rfl hrows
      | false => exact .exportFailed fun hok => by cases hok

/-- **Every step of a pass follows a rule.** -/
theorem passRule_of_step (h : pass.step st s r archiver a = some (s', pass')) :
    PassRule st r archiver s pass a s' pass' := by
  unfold Pass.step at h
  split at h
  · split at h <;> cases h
    exact .crash
  · cases h
    exact .start
  · cases h
    exact .finish
  · cases h
    exact .fail
  · split at h
    · next hrows =>
      split at h
      · next hnone =>
        cases h
        exact .unbounded hrows hnone
      · next hnames =>
        cases h
        exact .list hrows hnames
    · cases h
  · cases h
    exact .next
  · split at h
    · next hnil =>
      cases h
      exact .skip (by simpa [Archiver.isNil] using hnil)
    · cases h
  · split at h
    · cases h
    · next hnil =>
      exact passRule_of_detach (c := ⟨_, _, _, _⟩) (by simpa [Archiver.isNil] using hnil)
        (Option.some.inj h)
  · cases h
    exact passRule_of_export
  · next outcome =>
    cases outcome <;> cases h
    · exact .put
    · exact .putRefused
    · exact .putUnseen
  · exact passRule_of_drop (Option.some.inj h)
  · cases h

/-- A pass takes on a partition only when it has detached it. -/
lemma PassRule.partition_cases {name : String} (h : PassRule st r archiver s pass a s' pass')
    (hname : pass'.partition = some name) :
    pass.partition = some name ∨ ∃ t, st.detach t name s = some s' := by
  cases h with
  | detach _ hs =>
    cases hname
    exact .inr ⟨_, hs⟩
  | «export» | put => exact .inl hname
  | _ => cases hname

/-- A pass goes on with what it has listed, or lists a table. -/
lemma PassRule.listed_cases {name : String} {cur : Cursor}
    (h : PassRule st r archiver s pass a s' pass') (hcur : pass'.cursor = some cur)
    (hname : name ∈ cur.expired) :
    (∃ cur₀, pass.cursor = some cur₀ ∧ name ∈ cur₀.expired ∧ cur₀.table = cur.table ∧
      cur₀.now = cur.now) ∨
    ∃ upper, (name, some upper) ∈ st.partitions cur.table s' ∧
      upper ≤ cur.now - r.window cur.table := by
  cases h with
  | list hrows hnames =>
    cases hcur
    obtain ⟨upper, hmem, hle⟩ := (mem_expired hnames).mp hname
    exact .inr ⟨upper, hrows.mem_iff.mp hmem, hle⟩
  | skip | detach =>
    cases hcur
    exact .inl ⟨_, rfl, List.mem_cons_of_mem _ hname, rfl, rfl⟩
  | «export» | exportFailed | put | putRefused | putUnseen | drop =>
    cases hcur
    exact .inl ⟨_, rfl, hname, rfl, rfl⟩
  | _ => cases hcur

end Rule

end Idemio
