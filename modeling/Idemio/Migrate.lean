import Mathlib.Data.List.Infix
import Mathlib.Data.List.Sort
import Idemio.Base.Interleave
import Idemio.System.Step

set_option relaxedAutoImplicit false
set_option autoImplicit false

/-!
# Migrations

`store.Migrate` brings the schema of a database up to the migrations that a process embeds. It
holds a session advisory lock while it reads `schema_migrations` and applies what is missing
there, each body in one transaction with the insert of its version. Any number of processes may
run it at once, and each may crash at any statement.

The schema is of any type, and the body of a migration a partial function on it. A transaction
works on the schema that it saw when its body ran, and its commit replaces the schema by what it
made of that: without the lock, one process could undo what another one did.

## Main definitions

* `Idemio.MigrationFS`, `Idemio.MigrationFS.migrations` — the embedded files, and the migrations
  in the order of their names.
* `Idemio.pendingMigrations` — the ones that are not applied.
* `Idemio.Migrator`, `Idemio.migrateAct` — the states of `Migrate`, and its statements.
* `Idemio.Applied` — `schema_migrations` holds a number of migrations from the first on, and the
  schema is what they make of the one at the start.

## Main results

* `Idemio.pendingMigrations_take` — what is missing after a number of migrations is the rest.
* `Idemio.migrate_applies_once_in_order` — this holds at all times, and for the whole list once a
  process has returned without an error.
-/

namespace Idemio

/-! ## The embedded files -/

/-- A file of `migrations.FS`: its name, and what executing it does to a schema. -/
structure MigrationFile (σ : Type) where
  name : String
  body : σ → Option σ

/-- `migrations.FS`. -/
structure MigrationFS (σ : Type) where
  files : List (MigrationFile σ)
  nodup : (files.map MigrationFile.name).Nodup

/-- `migration`. -/
structure Migration (σ : Type) where
  version : String
  body : σ → Option σ

/-- `strings.TrimSuffix` of `.sql`, for a name that has it. -/
def trimSQL (name : String) : String := String.ofList (name.toList.take (name.toList.length - 4))

/-- The name ends with `.sql`. -/
def isSQL (name : String) : Bool := ".sql".toList.isSuffixOf name.toList

variable {σ : Type}

/-- The migrations, in the order of their file names. -/
def MigrationFS.migrations (fs : MigrationFS σ) : List (Migration σ) :=
  ((fs.files.filter fun f => isSQL f.name).insertionSort fun f g => f.name ≤ g.name).map fun f =>
    ⟨trimSQL f.name, f.body⟩

/-- `pendingMigrations`. -/
def pendingMigrations (fs : MigrationFS σ) (applied : List String) : List (Migration σ) :=
  fs.migrations.filter fun m => m.version ∉ applied

/-- The bodies of migrations, one after the other. -/
def applyAll (ms : List (Migration σ)) (schema : σ) : Option σ :=
  ms.foldlM (fun s m => m.body s) schema

/-! ## `Migrate` -/

/-- The database: the versions in `schema_migrations`, if that exists, the schema apart from it,
and the session that holds the advisory lock. -/
structure MigrationDB (σ : Type) where
  ledger : Option (List String)
  schema : σ
  lock : Option Pid

/-- The session gives the lock back, if it holds it. -/
def MigrationDB.unlock (db : MigrationDB σ) (p : Pid) : MigrationDB σ :=
  if db.lock = some p then { db with lock := none } else db

/-- The transaction that made `schema` and recorded `version` takes effect. -/
def MigrationDB.commit (db : MigrationDB σ) (version : String) (schema : σ) : MigrationDB σ :=
  { db with ledger := some (db.ledger.getD [] ++ [version]), schema := schema }

/-- Where a call of `Migrate` stands: before the statement that it runs next. -/
inductive Migrator (σ : Type)
  | idle
  | locking
  | creating
  | reading
  | applying (todo : List (Migration σ))
  | executing (m : Migration σ) (todo : List (Migration σ))
  | recording (m : Migration σ) (todo : List (Migration σ)) (schema : σ)
  | committing (m : Migration σ) (todo : List (Migration σ)) (schema : σ)
  | unlocking (ok : Bool)
  | returned (ok : Bool)
  | crashed

/-- What may happen to a call: it is made, its next statement succeeds, fails, or succeeds with an
answer that is lost, its commit ends, its process crashes or its session ends. -/
inductive MigrateAction
  | start
  | exec
  | fail
  | lose
  | commit (outcome : CommitOutcome)
  | crash
  | sessionEnd

/-- A statement that succeeds. `CREATE TABLE IF NOT EXISTS`, the body and the insert of the version
may still be errors of the database; these are returned after the lock is given back. -/
def execStatement (fs : MigrationFS σ) (p : Pid) (db : MigrationDB σ) :
    Migrator σ → Option (MigrationDB σ × Migrator σ)
  | .locking => if db.lock = none then some ({ db with lock := some p }, .creating) else none
  | .creating => some ({ db with ledger := some (db.ledger.getD []) }, .reading)
  | .reading =>
    match db.ledger with
    | none => some (db, .unlocking false)
    | some applied => some (db, .applying (pendingMigrations fs applied))
  | .applying [] => some (db, .unlocking true)
  | .applying (m :: todo) => some (db, .executing m todo)
  | .executing m todo =>
    match m.body db.schema with
    | none => some (db, .unlocking false)
    | some schema => some (db, .recording m todo schema)
  | .recording m todo schema =>
    if m.version ∈ db.ledger.getD [] then some (db, .unlocking false)
    else some (db, .committing m todo schema)
  | .unlocking ok => some (db.unlock p, .returned ok)
  | _ => none

/-- A statement that fails. Before the lock is taken nothing has to be given back. The unlock may
fail too, and then the session keeps the lock until it ends. -/
def failStatement : Migrator σ → Option (Migrator σ)
  | .idle | .applying [] | .returned _ | .crashed => none
  | .locking => some (.returned false)
  | .unlocking ok => some (.returned ok)
  | _ => some (.unlocking false)

/-- A statement outside of a transaction that takes effect, with an answer that is lost: the call
sees an error. -/
def loseAnswer (p : Pid) (db : MigrationDB σ) : Migrator σ → Option (MigrationDB σ × Migrator σ)
  | .locking => if db.lock = none then some ({ db with lock := some p }, .returned false) else none
  | .creating => some ({ db with ledger := some (db.ledger.getD []) }, .unlocking false)
  | _ => none

/-- The session ends. A call whose next step is a statement gets an error from it, which for the
unlock is dropped. After the last migration there is no statement but the unlock. -/
def loseSession : Migrator σ → Option (Migrator σ)
  | .idle | .crashed => none
  | .applying [] => some (.returned true)
  | .unlocking ok | .returned ok => some (.returned ok)
  | _ => some (.returned false)

/-- The end of a commit. -/
def commitMigration (db : MigrationDB σ) (m : Migration σ) (todo : List (Migration σ))
    (schema : σ) : CommitOutcome → MigrationDB σ × Migrator σ
  | .ok => (db.commit m.version schema, .applying todo)
  | .refused => (db, .unlocking false)
  | .unseen => (db.commit m.version schema, .unlocking false)

/-- One action of the call with session `p`. A crash ends the session. -/
def migrateAct (fs : MigrationFS σ) (p : Pid) (db : MigrationDB σ) (s : Migrator σ) :
    MigrateAction → Option (MigrationDB σ × Migrator σ)
  | .start =>
    match s with
    | .idle => some (db, .locking)
    | _ => none
  | .exec => execStatement fs p db s
  | .fail => (failStatement s).map fun s' => (db, s')
  | .lose => loseAnswer p db s
  | .commit outcome =>
    match s with
    | .committing m todo schema => some (commitMigration db m todo schema outcome)
    | _ => none
  | .crash => some (db.unlock p, .crashed)
  | .sessionEnd => (loseSession s).map fun s' => (db.unlock p, s')

/-- A state of the database with all calls. -/
abbrev MigrationState (σ : Type) := Interleave.Config Pid (MigrationDB σ) (Migrator σ)

/-- Steps lead from one state to the other. -/
def MigrateReaches (fs : MigrationFS σ) (s t : MigrationState σ) : Prop :=
  Transition.Reachable (Interleave.step (migrateAct fs)) (fun _ _ => True) s t

/-- No call was made yet. -/
def MigrationState.start (db : MigrationDB σ) : MigrationState σ := ⟨db, fun _ => .idle⟩

/-- The versions in `schema_migrations`. -/
def MigrationDB.versions (db : MigrationDB σ) : List String := db.ledger.getD []

/-- `schema_migrations` holds the migrations up to some point, and the schema is what their bodies
make of `base`, each applied once and in order. -/
structure Applied (fs : MigrationFS σ) (base : σ) (db : MigrationDB σ) : Prop where
  ledger : db.versions <+: fs.migrations.map Migration.version
  schema : applyAll (fs.migrations.take db.versions.length) base = some db.schema

/-- The whole list is applied. -/
structure AllApplied (fs : MigrationFS σ) (base : σ) (db : MigrationDB σ) : Prop where
  ledger : db.versions = fs.migrations.map Migration.version
  schema : applyAll fs.migrations base = some db.schema

/-! ## What is pending -/

/-- The name of a migration file is its version and `.sql`. -/
lemma toList_of_isSQL {name : String} (h : isSQL name = true) :
    name.toList = (trimSQL name).toList ++ ".sql".toList := by
  obtain ⟨l, hl⟩ := List.isSuffixOf_iff_suffix.mp h
  have hlength : (".sql".toList).length = 4 := by decide
  rw [trimSQL, String.toList_ofList, ← hl, List.length_append, hlength, Nat.add_sub_cancel,
    List.take_left]

lemma trimSQL_inj {a b : String} (ha : isSQL a = true) (hb : isSQL b = true)
    (h : trimSQL a = trimSQL b) : a = b := by
  rw [← String.toList_inj, toList_of_isSQL ha, toList_of_isSQL hb, h]

/-- No two migrations have the same version. -/
lemma MigrationFS.nodup_versions (fs : MigrationFS σ) :
    (fs.migrations.map Migration.version).Nodup := by
  set sql := fs.files.filter fun f => isSQL f.name with hsql
  have hperm := List.perm_insertionSort (fun f g : MigrationFile σ => f.name ≤ g.name) sql
  have hmap : fs.migrations.map Migration.version =
      (sql.insertionSort fun f g => f.name ≤ g.name).map fun f => trimSQL f.name := by
    rw [MigrationFS.migrations, List.map_map]
    rfl
  rw [hmap]
  refine (hperm.map _).nodup_iff.mpr (List.Nodup.map_on ?_ (List.Nodup.filter _ fs.nodup.of_map))
  intro f hf g hg heq
  obtain ⟨hf, hfSQL⟩ := List.mem_filter.mp hf
  obtain ⟨hg, hgSQL⟩ := List.mem_filter.mp hg
  exact List.inj_on_of_nodup_map fs.nodup hf hg (trimSQL_inj hfSQL hgSQL heq)

/-- **What is missing after a number of migrations is the rest.** -/
lemma pendingMigrations_take (fs : MigrationFS σ) {applied : List String}
    (h : applied <+: fs.migrations.map Migration.version) :
    pendingMigrations fs applied = fs.migrations.drop applied.length := by
  set ms := fs.migrations
  have happlied : applied = (ms.take applied.length).map Migration.version := by
    rw [List.map_take]
    exact List.prefix_iff_eq_take.mp h
  have hnodup : ((ms.take applied.length ++ ms.drop applied.length).map
      Migration.version).Nodup := by
    rw [List.take_append_drop]
    exact fs.nodup_versions
  rw [List.map_append, ← happlied] at hnodup
  have hdisjoint := (List.nodup_append'.mp hnodup).2.2
  calc pendingMigrations fs applied
      = (ms.take applied.length ++ ms.drop applied.length).filter
          fun m => m.version ∉ applied := by rw [List.take_append_drop]; rfl
    _ = ms.drop applied.length := by
        rw [List.filter_append, List.filter_eq_nil_iff.mpr, List.filter_eq_self.mpr,
          List.nil_append]
        · intro m hm
          simpa using fun hmem => hdisjoint hmem (List.mem_map_of_mem hm)
        · intro m hm
          have hmem := List.mem_map_of_mem (f := Migration.version) hm
          rw [← happlied] at hmem
          simpa using hmem

/-! ## One step -/

/-- The call may hold the lock: it has taken it and not given it back. -/
def Migrator.holds : Migrator σ → Bool
  | .creating | .reading | .applying _ | .executing _ _ | .recording _ _ _ | .committing _ _ _
  | .unlocking _ => true
  | _ => false

/-- What a call knows about the database: what is left for it to apply is what is missing, a
transaction was made from the schema that there is, and a call that is done has applied all. -/
def Migrator.Knows (fs : MigrationFS σ) (base : σ) (db : MigrationDB σ) : Migrator σ → Prop
  | .applying todo => todo = fs.migrations.drop db.versions.length
  | .executing m todo => m :: todo = fs.migrations.drop db.versions.length
  | .recording m todo schema | .committing m todo schema =>
    m :: todo = fs.migrations.drop db.versions.length ∧ m.body db.schema = some schema
  | .unlocking true | .returned true => AllApplied fs base db
  | _ => True

/-- A call that holds the lock is the holder, and knows what it should. -/
structure MigratorInv (fs : MigrationFS σ) (base : σ) (p : Pid) (db : MigrationDB σ)
    (s : Migrator σ) : Prop where
  lock : s.holds = true → db.lock = some p
  knows : s.Knows fs base db

/-- What a call may do to the database: while another session holds the lock, nothing, and it
never undoes anything. -/
structure MigratorGuar (fs : MigrationFS σ) (base : σ) (p : Pid) (db db' : MigrationDB σ) :
    Prop where
  others : ∀ q ≠ p, db.lock = some q → db' = db
  all : AllApplied fs base db → AllApplied fs base db'

section Steps

variable {fs : MigrationFS σ} {base : σ} {p q : Pid} {db db' : MigrationDB σ} {s s' : Migrator σ}

/-- Another call's invariant does not depend on what this one does. -/
lemma MigratorInv.stable (h : MigratorInv fs base q db s) (hne : q ≠ p)
    (hguar : MigratorGuar fs base p db db') : MigratorInv fs base q db' s := by
  cases hholds : s.holds with
  | true =>
    rw [hguar.others q hne (h.lock hholds)]
    exact h
  | false =>
    refine ⟨fun hh => absurd hh (by simp [hholds]), ?_⟩
    have hknows := h.knows
    cases s with
    | returned ok =>
      cases ok with
      | true => exact hguar.all hknows
      | false => trivial
    | idle => trivial
    | locking => trivial
    | crashed => trivial
    | creating => cases hholds
    | reading => cases hholds
    | applying todo => cases hholds
    | executing m todo => cases hholds
    | recording m todo schema => cases hholds
    | committing m todo schema => cases hholds
    | unlocking ok => cases hholds

lemma MigratorGuar.refl (fs : MigrationFS σ) (base : σ) (p : Pid) (db : MigrationDB σ) :
    MigratorGuar fs base p db db :=
  ⟨fun _ _ _ => rfl, id⟩

/-- The holder of the lock may do what undoes nothing. -/
lemma MigratorGuar.of_holder (hlock : db.lock = some p)
    (hall : AllApplied fs base db → AllApplied fs base db') : MigratorGuar fs base p db db' :=
  ⟨fun _ hne hq => absurd (Option.some.inj (hq.symm.trans hlock)) hne, hall⟩

@[simp] lemma MigrationDB.versions_unlock : (db.unlock p).versions = db.versions := by
  unfold MigrationDB.unlock
  split <;> rfl

@[simp] lemma MigrationDB.schema_unlock : (db.unlock p).schema = db.schema := by
  unfold MigrationDB.unlock
  split <;> rfl

lemma Applied.unlock (h : Applied fs base db) : Applied fs base (db.unlock p) :=
  ⟨by simpa using h.ledger, by simpa using h.schema⟩

lemma AllApplied.unlock (h : AllApplied fs base db) : AllApplied fs base (db.unlock p) :=
  ⟨by simpa using h.ledger, by simpa using h.schema⟩

/-- Giving the lock back leaves that of another session alone. -/
lemma MigratorGuar.unlock (fs : MigrationFS σ) (base : σ) (p : Pid) (db : MigrationDB σ) :
    MigratorGuar fs base p db (db.unlock p) := by
  refine ⟨fun q hne hq => ?_, AllApplied.unlock⟩
  unfold MigrationDB.unlock
  rw [if_neg]
  rw [hq]
  exact fun heq => hne (Option.some.inj heq)

/-- A free lock may be taken. -/
lemma MigratorGuar.lock (fs : MigrationFS σ) (base : σ) (p : Pid) (hfree : db.lock = none) :
    MigratorGuar fs base p db { db with lock := some p } := by
  refine ⟨fun q _ hq => ?_, fun hall => ⟨hall.ledger, hall.schema⟩⟩
  rw [hfree] at hq
  cases hq

/-- The table of the versions may be created. -/
lemma MigratorGuar.create (hlock : db.lock = some p) :
    MigratorGuar fs base p db { db with ledger := some (db.ledger.getD []) } :=
  .of_holder hlock fun hall => ⟨hall.ledger, hall.schema⟩

/-- If nothing is missing, all is applied. -/
lemma Applied.all (h : Applied fs base db)
    (hnone : fs.migrations.drop db.versions.length = []) : AllApplied fs base db := by
  have hle : fs.migrations.length ≤ db.versions.length := List.drop_eq_nil_iff.mp hnone
  have hlength : (fs.migrations.map Migration.version).length ≤ db.versions.length := by
    simpa using hle
  exact ⟨h.ledger.eq_of_length_le hlength, by rw [← h.schema, List.take_of_length_le hle]⟩

/-- The next migration, applied to the schema that there is, is one more that is applied. -/
lemma Applied.commit {m : Migration σ} {todo : List (Migration σ)} {schema : σ}
    (h : Applied fs base db) (htodo : m :: todo = fs.migrations.drop db.versions.length)
    (hbody : m.body db.schema = some schema) :
    Applied fs base (db.commit m.version schema) ∧
      todo = fs.migrations.drop (db.commit m.version schema).versions.length := by
  have hversions : (db.commit m.version schema).versions = db.versions ++ [m.version] := rfl
  have hnext : fs.migrations[db.versions.length]? = some m := by
    rw [← List.head?_drop, ← htodo, List.head?_cons]
  have htake : fs.migrations.take (db.versions.length + 1) =
      fs.migrations.take db.versions.length ++ [m] := by
    rw [List.take_add_one, hnext, Option.toList_some]
  have happly : applyAll (fs.migrations.take (db.versions.length + 1)) base = some schema := by
    have hschema := h.schema
    unfold applyAll at hschema ⊢
    rw [htake, List.foldlM_append, hschema]
    simp [hbody]
  have hprefix : db.versions ++ [m.version] <+: fs.migrations.map Migration.version := by
    have happlied :
        db.versions = (fs.migrations.take db.versions.length).map Migration.version := by
      rw [List.map_take]
      exact List.prefix_iff_eq_take.mp h.ledger
    have hmap : db.versions ++ [m.version] =
        (fs.migrations.take (db.versions.length + 1)).map Migration.version := by
      rw [htake, List.map_append, ← happlied, List.map_singleton]
    rw [hmap]
    exact (List.take_prefix _ _).map _
  refine ⟨⟨hversions ▸ hprefix, ?_⟩, ?_⟩
  · rw [hversions, List.length_append]
    exact happly
  · rw [hversions, List.length_append, List.length_singleton, ← List.drop_drop, ← htodo]
    rfl

/-- **A statement that succeeds** keeps what is applied, what the call knows and what the others
rely on. -/
lemma exec_keeps (happlied : Applied fs base db) (hs : MigratorInv fs base p db s)
    (h : execStatement fs p db s = some (db', s')) :
    Applied fs base db' ∧ MigratorInv fs base p db' s' ∧ MigratorGuar fs base p db db' := by
  have hrefl := MigratorGuar.refl fs base p db
  cases s with
  | idle => cases h
  | returned ok => cases h
  | crashed => cases h
  | committing m todo schema => cases h
  | locking =>
    simp only [execStatement, Option.ite_none_right_eq_some, Option.some.injEq,
      Prod.mk.injEq] at h
    obtain ⟨hfree, rfl, rfl⟩ := h
    exact ⟨⟨happlied.ledger, happlied.schema⟩, ⟨fun _ => rfl, trivial⟩, .lock fs base p hfree⟩
  | creating =>
    obtain ⟨rfl, rfl⟩ := Prod.mk.inj (Option.some.inj h)
    exact ⟨⟨happlied.ledger, happlied.schema⟩, ⟨fun _ => hs.lock rfl, trivial⟩,
      .create (hs.lock rfl)⟩
  | reading =>
    have hlock := hs.lock rfl
    cases hledger : db.ledger with
    | none =>
      simp only [execStatement, hledger, Option.some.injEq, Prod.mk.injEq] at h
      obtain ⟨rfl, rfl⟩ := h
      exact ⟨happlied, ⟨fun _ => hlock, trivial⟩, hrefl⟩
    | some applied =>
      simp only [execStatement, hledger, Option.some.injEq, Prod.mk.injEq] at h
      obtain ⟨rfl, rfl⟩ := h
      have hversions : db.versions = applied := by simp [MigrationDB.versions, hledger]
      refine ⟨happlied, ⟨fun _ => hlock, ?_⟩, hrefl⟩
      rw [← hversions]
      exact pendingMigrations_take fs happlied.ledger
  | applying todo =>
    have hlock := hs.lock rfl
    have hknows : todo = fs.migrations.drop db.versions.length := hs.knows
    cases todo with
    | nil =>
      obtain ⟨rfl, rfl⟩ := Prod.mk.inj (Option.some.inj h)
      exact ⟨happlied, ⟨fun _ => hlock, happlied.all hknows.symm⟩, hrefl⟩
    | cons m todo =>
      obtain ⟨rfl, rfl⟩ := Prod.mk.inj (Option.some.inj h)
      exact ⟨happlied, ⟨fun _ => hlock, hknows⟩, hrefl⟩
  | executing m todo =>
    have hlock := hs.lock rfl
    cases hbody : m.body db.schema with
    | none =>
      simp only [execStatement, hbody, Option.some.injEq, Prod.mk.injEq] at h
      obtain ⟨rfl, rfl⟩ := h
      exact ⟨happlied, ⟨fun _ => hlock, trivial⟩, hrefl⟩
    | some schema =>
      simp only [execStatement, hbody, Option.some.injEq, Prod.mk.injEq] at h
      obtain ⟨rfl, rfl⟩ := h
      exact ⟨happlied, ⟨fun _ => hlock, hs.knows, hbody⟩, hrefl⟩
  | recording m todo schema =>
    have hlock := hs.lock rfl
    rw [execStatement] at h
    split at h
    · obtain ⟨rfl, rfl⟩ := Prod.mk.inj (Option.some.inj h)
      exact ⟨happlied, ⟨fun _ => hlock, trivial⟩, hrefl⟩
    · obtain ⟨rfl, rfl⟩ := Prod.mk.inj (Option.some.inj h)
      exact ⟨happlied, ⟨fun _ => hlock, hs.knows⟩, hrefl⟩
  | unlocking ok =>
    obtain ⟨rfl, rfl⟩ := Prod.mk.inj (Option.some.inj h)
    refine ⟨happlied.unlock, ⟨fun hh => absurd hh Bool.false_ne_true, ?_⟩, .unlock fs base p db⟩
    cases ok with
    | true => exact AllApplied.unlock hs.knows
    | false => trivial

/-- A statement that fails leaves the database alone, and no call takes that for success. -/
lemma fail_keeps (hs : MigratorInv fs base p db s) (h : failStatement s = some s') :
    MigratorInv fs base p db s' := by
  cases s with
  | idle => cases h
  | returned ok => cases h
  | crashed => cases h
  | locking => cases h; exact ⟨fun hh => absurd hh Bool.false_ne_true, trivial⟩
  | unlocking ok =>
    cases h
    refine ⟨fun hh => absurd hh Bool.false_ne_true, ?_⟩
    cases ok with
    | true => exact hs.knows
    | false => trivial
  | applying todo =>
    cases todo with
    | nil => cases h
    | cons m todo => cases h; exact ⟨fun _ => hs.lock rfl, trivial⟩
  | creating => cases h; exact ⟨fun _ => hs.lock rfl, trivial⟩
  | reading => cases h; exact ⟨fun _ => hs.lock rfl, trivial⟩
  | executing m todo => cases h; exact ⟨fun _ => hs.lock rfl, trivial⟩
  | recording m todo schema => cases h; exact ⟨fun _ => hs.lock rfl, trivial⟩
  | committing m todo schema => cases h; exact ⟨fun _ => hs.lock rfl, trivial⟩

/-- **A commit**, whether the call sees that it took effect or not.

**Proof sketch.** The call holds the lock and has not committed since it looked, so the schema
that its transaction worked on is the one that there is. -/
lemma commit_keeps {m : Migration σ} {todo : List (Migration σ)} {schema : σ}
    (happlied : Applied fs base db) (hs : MigratorInv fs base p db (.committing m todo schema))
    {outcome : CommitOutcome} (h : commitMigration db m todo schema outcome = (db', s')) :
    Applied fs base db' ∧ MigratorInv fs base p db' s' ∧ MigratorGuar fs base p db db' := by
  have hlock : db.lock = some p := hs.lock rfl
  obtain ⟨htodo, hbody⟩ := hs.knows
  obtain ⟨hcommit, hrest⟩ := happlied.commit htodo hbody
  -- all is applied only if nothing is missing, but `m` is
  have hguar : MigratorGuar fs base p db (db.commit m.version schema) :=
    .of_holder hlock fun hall => by
      rw [hall.ledger, List.length_map, List.drop_length] at htodo
      cases htodo
  cases outcome with
  | ok =>
    obtain ⟨rfl, rfl⟩ := Prod.mk.inj h
    exact ⟨hcommit, ⟨fun _ => hlock, hrest⟩, hguar⟩
  | refused =>
    obtain ⟨rfl, rfl⟩ := Prod.mk.inj h
    exact ⟨happlied, ⟨fun _ => hlock, trivial⟩, .refl fs base p db⟩
  | unseen =>
    obtain ⟨rfl, rfl⟩ := Prod.mk.inj h
    exact ⟨hcommit, ⟨fun _ => hlock, trivial⟩, hguar⟩

/-- A statement that takes effect unseen. -/
lemma lose_keeps (happlied : Applied fs base db) (hs : MigratorInv fs base p db s)
    (h : loseAnswer p db s = some (db', s')) :
    Applied fs base db' ∧ MigratorInv fs base p db' s' ∧ MigratorGuar fs base p db db' := by
  cases s with
  | locking =>
    simp only [loseAnswer, Option.ite_none_right_eq_some, Option.some.injEq, Prod.mk.injEq] at h
    obtain ⟨hfree, rfl, rfl⟩ := h
    exact ⟨⟨happlied.ledger, happlied.schema⟩, ⟨fun hh => absurd hh Bool.false_ne_true, trivial⟩,
      .lock fs base p hfree⟩
  | creating =>
    obtain ⟨rfl, rfl⟩ := Prod.mk.inj (Option.some.inj h)
    exact ⟨⟨happlied.ledger, happlied.schema⟩, ⟨fun _ => hs.lock rfl, trivial⟩,
      .create (hs.lock rfl)⟩
  | _ => cases h

/-- A call whose session ends gives up the lock, and returns `nil` only if it was done. -/
lemma knows_of_loseSession (happlied : Applied fs base db) (hs : MigratorInv fs base p db s)
    (h : loseSession s = some s') : s'.holds = false ∧ s'.Knows fs base (db.unlock p) := by
  have hdone {ok : Bool} (hknows : (Migrator.returned ok).Knows fs base db) :
      (Migrator.returned ok).Knows fs base (db.unlock p) := by
    cases ok with
    | true => exact AllApplied.unlock hknows
    | false => trivial
  cases s with
  | idle => cases h
  | crashed => cases h
  | returned ok => cases h; exact ⟨rfl, hdone hs.knows⟩
  | unlocking ok =>
    cases h
    refine ⟨rfl, hdone ?_⟩
    cases ok with
    | true => exact hs.knows
    | false => trivial
  | applying todo =>
    cases todo with
    | nil => cases h; exact ⟨rfl, (happlied.all hs.knows.symm).unlock⟩
    | cons m todo => cases h; exact ⟨rfl, trivial⟩
  | locking => cases h; exact ⟨rfl, trivial⟩
  | creating => cases h; exact ⟨rfl, trivial⟩
  | reading => cases h; exact ⟨rfl, trivial⟩
  | executing m todo => cases h; exact ⟨rfl, trivial⟩
  | recording m todo schema => cases h; exact ⟨rfl, trivial⟩
  | committing m todo schema => cases h; exact ⟨rfl, trivial⟩

/-- The end of a session. -/
lemma sessionEnd_keeps (happlied : Applied fs base db)
    (hs' : s'.holds = false) (hknows : s'.Knows fs base (db.unlock p)) :
    Applied fs base (db.unlock p) ∧ MigratorInv fs base p (db.unlock p) s' ∧
      MigratorGuar fs base p db (db.unlock p) :=
  ⟨happlied.unlock, ⟨fun hh => absurd hh (by simp [hs']), hknows⟩, .unlock fs base p db⟩

/-- **One action of one call.** -/
lemma migrateAct_keeps {a : MigrateAction} (happlied : Applied fs base db)
    (hs : MigratorInv fs base p db s) (h : migrateAct fs p db s a = some (db', s')) :
    Applied fs base db' ∧ MigratorInv fs base p db' s' ∧ MigratorGuar fs base p db db' := by
  cases a with
  | exec => exact exec_keeps happlied hs h
  | fail =>
    obtain ⟨s'', hfail, heq⟩ := Option.map_eq_some_iff.mp h
    obtain ⟨rfl, rfl⟩ := Prod.mk.inj heq
    exact ⟨happlied, fail_keeps hs hfail, .refl fs base p db⟩
  | crash =>
    obtain ⟨rfl, rfl⟩ := Prod.mk.inj (Option.some.inj h)
    exact sessionEnd_keeps happlied rfl trivial
  | start =>
    cases s with
    | idle =>
      obtain ⟨rfl, rfl⟩ := Prod.mk.inj (Option.some.inj h)
      exact ⟨happlied, ⟨fun hh => absurd hh Bool.false_ne_true, trivial⟩, .refl fs base p db⟩
    | _ => cases h
  | commit outcome =>
    cases s with
    | committing m todo schema => exact commit_keeps happlied hs (Option.some.inj h)
    | _ => cases h
  | lose => exact lose_keeps happlied hs h
  | sessionEnd =>
    obtain ⟨s'', hlose, heq⟩ := Option.map_eq_some_iff.mp h
    obtain ⟨rfl, rfl⟩ := Prod.mk.inj heq
    obtain ⟨hholds, hknows⟩ := knows_of_loseSession happlied hs hlose
    exact sessionEnd_keeps happlied hholds hknows

end Steps

/-- **Migrations apply once and in order.** However many processes run `Migrate` at once and
wherever they crash, `schema_migrations` always holds the migrations up to some point, the schema
is what the bodies of these make of the one at the start, each applied once and in order, and once
a process has returned without an error this is the whole list.

**Proof sketch.** The rely-guarantee rule: only the holder of the lock changes anything, and what
it applies next is what is missing. -/
theorem migrate_applies_once_in_order {fs : MigrationFS σ} {base : σ} {db : MigrationDB σ}
    (happlied : Applied fs base db) {t : MigrationState σ}
    (h : MigrateReaches fs (.start db) t) :
    Applied fs base t.shared ∧
      ∀ p, t.procs p = .returned true → AllApplied fs base t.shared := by
  have hidle (p : Pid) : MigratorInv fs base p db .idle :=
    ⟨fun hh => absurd hh Bool.false_ne_true, trivial⟩
  obtain ⟨hI, hP⟩ := Interleave.invariant (I := Applied fs base) (P := MigratorInv fs base)
    (G := MigratorGuar fs base) happlied hidle
    (fun c i a sh pr _ hI hP _ hact => migrateAct_keeps hI (hP i) hact)
    (fun i j sh sh' pr hne _ _ hguar hP => hP.stable hne.symm hguar) h
  refine ⟨hI, fun p hp => ?_⟩
  have hknows := (hP p).knows
  rw [hp] at hknows
  exact hknows

/-- Two migrations, each of which adds a table. -/
def MigrationFS.small : MigrationFS (List Nat) where
  files := [⟨"2.sql", fun tables => some (tables ++ [2])⟩,
    ⟨"1.sql", fun tables => some (tables ++ [1])⟩]
  nodup := by decide

/-- The result of a call that has returned. -/
def Migrator.result : Migrator σ → Option Bool
  | .returned ok => some ok
  | _ => none

lemma Migrator.of_result {s : Migrator σ} {ok : Bool} (h : s.result = some ok) :
    s = .returned ok := by
  cases s with
  | returned ok' => cases h; rfl
  | _ => cases h

/-- Two processes start on a fresh database. The first one crashes within the second migration,
and the second one, which had to wait for the lock, applies that one. -/
theorem migrate_applies_two : ∃ t : MigrationState (List Nat),
    MigrateReaches .small (.start ⟨none, [], none⟩) t ∧ t.procs 1 = .returned true ∧
      AllApplied .small [] t.shared ∧ t.shared.schema = [1, 2] := by
  obtain ⟨t, hrun, ht⟩ := Transition.exists_run_of_exec
    (Interleave.step (migrateAct MigrationFS.small)) (fun _ _ => True)
    (MigrationState.start ⟨none, [], none⟩)
    [(0, .start), (1, .start), (0, .exec), (0, .exec), (0, .exec), (0, .exec), (0, .exec),
      (0, .exec), (0, .commit .ok), (0, .exec), (0, .exec), (0, .crash), (1, .exec), (1, .exec),
      (1, .exec), (1, .exec), (1, .exec), (1, .exec), (1, .commit .ok), (1, .exec), (1, .exec)]
    (fun t => (t.procs 1).result = some true ∧ t.shared.schema = [1, 2]) (by decide +kernel)
  obtain ⟨hresult, hschema⟩ := of_decide_eq_true ht
  have hreturned := Migrator.of_result hresult
  have hfresh : Applied MigrationFS.small [] ⟨none, [], none⟩ := ⟨List.nil_prefix, rfl⟩
  exact ⟨t, ⟨_, hrun⟩, hreturned,
    (migrate_applies_once_in_order hfresh ⟨_, hrun⟩).2 1 hreturned, hschema⟩

end Idemio
