import Idemio.Base.Ranges
import Idemio.Base.Timestamp
import Idemio.Maintenance.Pass
import Idemio.Results

set_option relaxedAutoImplicit false
set_option autoImplicit false

/-!
# The creation of partitions

`internal/maintenance/partitions.go` and the part of `migrations/0001_init.sql` that lays down the
first ranges. The bounds of ranges are seconds of Unix time; a horizon is in nanoseconds.

The migration adds intervals to instants, which PostgreSQL does in the time zone of the session and
with the day of the month cut off at the end of a month. The reconciler adds to the date in UTC,
where a day beyond the end of a month runs over into the next. Either names a partition by the date
of its lower bound in UTC; the migration fails at a name that is taken, and the reconciler takes the
partition to be there.

## Main definitions

* `Idemio.Partitions.Partitioned` — a table with the layout of its names and the length of its
  ranges.
* `Idemio.Partitions.Catalog` — the relations that exist and the ranges that are attached.
* `Idemio.Partitions.ensurePartitions` — one run, `Idemio.Partitions.maintainAct` many at a time.
* `Idemio.Partitions.migrate` — the first ranges.

## Main results

* `Idemio.Partitions.partitionName_eq_iff` — two bounds are given one name if they are in the same
  day, or the same month.
* `Idemio.Partitions.unit_lt_next` — the next bound never is.
-/

namespace Idemio.Partitions

open Calendar Timestamp

/-! ## Dates -/

/-- The day of an instant. -/
def dayOf (t : ℤ) : ℤ := t / 86400 + unixDay

/-- The date of an instant, in UTC. -/
def date (t : ℤ) : Date := ofDays (dayOf t)

/-- An instant from its day and the time of the day. -/
def instant (day clock : ℤ) : ℤ := (day - unixDay) * 86400 + clock

/-- `Time.AddDate`, in UTC: a day beyond the end of the month is one of the next month. -/
def addDate (t : ℤ) (months days : ℕ) : ℤ :=
  instant (monthStart ((date t).monthIndex + months) + ((date t).day - 1 + days)) (t % 86400)

/-- `date_trunc('week', …)`, in UTC. Day 0 is a Monday. -/
def weekStart (now : ℤ) : ℤ := instant (dayOf now - dayOf now % 7) 0

/-- `date_trunc('month', …)`, in UTC. -/
def monthBegin (now : ℤ) : ℤ := instant (monthStart (date now).monthIndex) 0

/-! ## Tables -/

/-- A layout of `Time.Format`: `20060102`, or `200601`. -/
inductive Layout
  | day
  | month
  deriving DecidableEq, Repr

/-- `Time.Format`. -/
def Layout.format (l : Layout) (t : ℤ) : List UInt8 :=
  let month := formatYear (date t).year ++ decimals 2 (date t).month
  match l with
  | .day => month ++ decimals 2 (date t).day
  | .month => month

/-- `maintenance.Partitioned`. -/
structure Partitioned where
  name : String
  layout : Layout
  days : ℕ
  months : ℕ
  deriving DecidableEq, Repr

/-- `maintenance.Tables`. -/
def partitioned : Table → Partitioned
  | .writeIntents => ⟨Table.writeIntents.name, .day, 7, 0⟩
  | .conflicts => ⟨Table.conflicts.name, .day, 7, 0⟩
  | .payloadAccessAudit => ⟨Table.payloadAccessAudit.name, .month, 0, 1⟩

/-- `Partitioned.next`. -/
def Partitioned.next (p : Partitioned) (lower : ℤ) : ℤ := addDate lower p.months p.days

/-- `Partitioned.partitionName`. -/
def Partitioned.partitionName (p : Partitioned) (lower : ℤ) : List UInt8 :=
  utf8 p.name ++ utf8 "_" ++ p.layout.format lower

/-! ## The catalog -/

/-- An attached partition. -/
structure Partition where
  name : List UInt8
  lower : ℤ
  upper : ℤ
  deriving DecidableEq, Repr

/-- The partition of a table between two bounds. -/
def partitionBetween (t : Table) (lo hi : ℤ) : Partition :=
  ⟨(partitioned t).partitionName lo, lo, hi⟩

/-- The names of all relations, attached or not, and the partitions of each table. -/
structure Catalog where
  relations : List (List UInt8)
  partitions : Table → List Partition

/-- `CREATE TABLE … PARTITION OF … FOR VALUES FROM … TO …` under a name that is free: an empty range
is an error, and so is one that overlaps with another. -/
def createPartition (t : Table) (p : Partition) (db : Catalog) : Option Catalog :=
  if p.upper ≤ p.lower then none
  else if ∃ q ∈ db.partitions t, p.lower < q.upper ∧ q.lower < p.upper then none
  else some ⟨db.relations ++ [p.name],
    Function.update db.partitions t (db.partitions t ++ [p])⟩

-- that names are in the catalog is decided by their equality
local instance lawfulBEq_name : LawfulBEq (List UInt8) := inferInstance

/-- `CREATE TABLE` in the migration. -/
def createTable (t : Table) (p : Partition) (db : Catalog) : Option Catalog :=
  if p.name ∈ db.relations then none else createPartition t p db

/-- `CREATE TABLE IF NOT EXISTS`: only the name is looked at. -/
def createIfNotExists (t : Table) (p : Partition) (db : Catalog) : Option Catalog :=
  if p.name ∈ db.relations then some db else createPartition t p db

/-- The query `upperBound`. -/
def upperBound (now : ℤ) (t : Table) (db : Catalog) : ℤ :=
  ((db.partitions t).map Partition.upper).max?.getD (weekStart now)

/-! ## A run -/

/-- The partition that is made at a boundary. -/
def partitionFrom (t : Table) (boundary : ℤ) : Partition :=
  partitionBetween t boundary ((partitioned t).next boundary)

/-- The loop of `extend`. -/
def extendLoop (t : Table) (horizon : ℤ) : ℕ → ℤ → Catalog → Option Catalog
  | 0, _, _ => none
  | fuel + 1, boundary, db =>
    if boundary * 10 ^ 9 < horizon then
      (createIfNotExists t (partitionFrom t boundary) db).bind
        (extendLoop t horizon fuel ((partitioned t).next boundary))
    else some db

/-- More than the days between a boundary and the horizon: a range is one day long at least. -/
def extendFuel (horizon boundary : ℤ) : ℕ := ((horizon / 10 ^ 9 - boundary) / 86400).toNat + 2

/-- `extend`. -/
def extend (now horizon : ℤ) (db : Catalog) (t : Table) : Option Catalog :=
  let boundary := upperBound now t db
  extendLoop t horizon (extendFuel horizon boundary) boundary db

/-- The statements of `EnsurePartitions` between the lock and the commit. -/
def ensurePartitions (now horizon : ℤ) (db : Catalog) : Option Catalog :=
  tables.foldlM (extend now horizon) db

/-! ## Runs at the same time -/

/-- The database: what is committed, and who holds the advisory lock. -/
structure MaintenanceDB where
  committed : Catalog
  lock : Option Pid

/-- Where a run stands. A transaction sees what was committed and its own changes. -/
inductive Maintainer
  | idle
  | locking
  | extending (view : Catalog) (todo : List Table)
  | returned (ok : Bool)

/-- What may happen to a run: it begins, its next statement is run, it fails, or it commits. -/
inductive MaintainAction
  | start
  | exec
  | fail
  | commit (outcome : CommitOutcome)

/-- The transaction is over, and with it the lock that it holds. -/
def MaintenanceDB.release (db : MaintenanceDB) (p : Pid) : MaintenanceDB :=
  if db.lock = some p then { db with lock := none } else db

/-- The next statement of a run, which an error of the database ends. -/
def maintainStatement (now horizon : ℤ) (p : Pid) (db : MaintenanceDB) :
    Maintainer → Option (MaintenanceDB × Maintainer)
  | .locking =>
    if db.lock = none then some ({ db with lock := some p }, .extending db.committed tables)
    else none
  | .extending view (t :: todo) =>
    match extend now horizon view t with
    | none => some (db.release p, .returned false)
    | some view' => some (db, .extending view' todo)
  | _ => none

/-- One action of run `p`. -/
def maintainAct (now horizon : ℤ) (p : Pid) (db : MaintenanceDB) (s : Maintainer) :
    MaintainAction → Option (MaintenanceDB × Maintainer)
  | .start =>
    match s with
    | .idle | .returned _ => some (db, .locking)
    | _ => none
  | .exec => maintainStatement now horizon p db s
  | .fail =>
    match s with
    | .locking | .extending _ _ => some (db.release p, .returned false)
    | _ => none
  | .commit outcome =>
    match s with
    | .extending view [] =>
      match outcome with
      | .ok => some (MaintenanceDB.release { db with committed := view } p, .returned true)
      | .refused => some (db.release p, .returned false)
      | .unseen => some (MaintenanceDB.release { db with committed := view } p, .returned false)
    | _ => none

/-- Runs with the same horizon lead from one state to the other. -/
def MaintainReaches (now horizon : ℤ) (c c' : Interleave.Config Pid MaintenanceDB Maintainer) :
    Prop :=
  Transition.Reachable (Interleave.step (maintainAct now horizon)) (fun _ _ => True) c c'

/-- No run has begun. -/
def quiet (db : Catalog) : Interleave.Config Pid MaintenanceDB Maintainer :=
  ⟨⟨db, none⟩, fun _ => .idle⟩

/-! ## The migration -/

/-- The time zone of a session: the local time of an instant, as if it were one in UTC, and back. -/
structure Zone where
  toLocal : ℤ → ℤ
  ofLocal : ℤ → ℤ

/-- A zone with a fixed offset. -/
def Zone.fixed (offset : ℤ) : Zone := ⟨(· + offset), (· - offset)⟩

/-- `timestamptz + n * INTERVAL '1 month'`: the last day of the month if it has no such day. -/
def Zone.addMonths (z : Zone) (t : ℤ) (n : ℕ) : ℤ :=
  let clock := z.toLocal t
  let month := (date clock).monthIndex + n
  z.ofLocal (instant (monthStart month + (min (date clock).day (monthLength month) - 1))
    (clock % 86400))

/-- `timestamptz + n * INTERVAL '1 day'`. -/
def Zone.addDays (z : Zone) (t : ℤ) (n : ℕ) : ℤ := z.ofLocal (z.toLocal t + n * 86400)

/-- The partitions of week `i`. -/
def migrateWeek (z : Zone) (now : ℤ) (db : Catalog) (i : ℕ) : Option Catalog := do
  let lo := z.addDays (weekStart now) (i * 7)
  let hi := z.addDays lo 7
  let db ← createTable .writeIntents (partitionBetween .writeIntents lo hi) db
  createTable .conflicts (partitionBetween .conflicts lo hi) db

/-- The partition of month `i`. -/
def migrateMonth (z : Zone) (now : ℤ) (db : Catalog) (i : ℕ) : Option Catalog :=
  let lo := z.addMonths (monthBegin now) i
  let hi := z.addMonths lo 1
  createTable .payloadAccessAudit (partitionBetween .payloadAccessAudit lo hi) db

/-- The initial range partitions of `0001_init.sql`. -/
def migrate (z : Zone) (now : ℤ) (db : Catalog) : Option Catalog := do
  let db ← (List.range 12).foldlM (migrateWeek z now) db
  (List.range 3).foldlM (migrateMonth z now) db

/-! ## Names -/

/-- What a layout tells apart: days, or months. -/
def Layout.unit (l : Layout) (t : ℤ) : ℤ :=
  match l with
  | .day => dayOf t
  | .month => (date t).monthIndex

/-- Two dates in the same month. -/
lemma monthIndex_eq_iff {d e : Date} (hd : d.Valid) (he : e.Valid) :
    d.monthIndex = e.monthIndex ↔ d.year = e.year ∧ d.month = e.month := by
  obtain ⟨hd₁, hd₂, -⟩ := hd
  obtain ⟨he₁, he₂, -⟩ := he
  unfold Date.monthIndex
  omega

/-- The text of a month. -/
lemma formatMonth_eq_iff {s t : ℤ} :
    formatYear (date s).year ++ decimals 2 (date s).month =
      formatYear (date t).year ++ decimals 2 (date t).month ↔
      (date s).monthIndex = (date t).monthIndex := by
  have hs : (date s).Valid := valid_ofDays (dayOf s)
  have ht : (date t).Valid := valid_ofDays (dayOf t)
  rw [monthIndex_eq_iff hs ht]
  constructor
  · intro h
    obtain ⟨hyear, hmonth⟩ := List.append_inj' h (by simp)
    exact ⟨formatYear_injective hyear,
      decimals_inj (hs.2.1.trans_lt (by decide)) (ht.2.1.trans_lt (by decide)) hmonth⟩
  · rintro ⟨hyear, hmonth⟩
    rw [hyear, hmonth]

lemma date_eq_iff {s t : ℤ} : date s = date t ↔ dayOf s = dayOf t := by
  constructor
  · intro h
    rw [← toDays_ofDays (dayOf s), ← toDays_ofDays (dayOf t)]
    exact congrArg Date.toDays h
  · exact congrArg ofDays

lemma Layout.format_eq_iff {l : Layout} {s t : ℤ} :
    l.format s = l.format t ↔ l.unit s = l.unit t := by
  cases l with
  | month => exact formatMonth_eq_iff
  | day =>
    have hs := (valid_ofDays (dayOf s)).2.2.2.trans (daysIn_le _ _)
    have ht := (valid_ofDays (dayOf t)).2.2.2.trans (daysIn_le _ _)
    simp only [Layout.format, Layout.unit]
    rw [← date_eq_iff]
    constructor
    · intro h
      obtain ⟨hmonth, hday⟩ := List.append_inj' h (by simp)
      obtain ⟨hyear, hmonth⟩ :=
        (monthIndex_eq_iff (valid_ofDays _) (valid_ofDays _)).mp (formatMonth_eq_iff.mp hmonth)
      have hday := decimals_inj (hs.trans_lt (by decide)) (ht.trans_lt (by decide)) hday
      exact Date.ext hyear hmonth hday
    · intro h
      rw [h]

/-- **Two bounds are given one name if they are in the same day, or the same month.** -/
theorem partitionName_eq_iff {t : Table} {a b : ℤ} :
    (partitioned t).partitionName a = (partitioned t).partitionName b ↔
      (partitioned t).layout.unit a = (partitioned t).layout.unit b := by
  rw [Partitioned.partitionName, Partitioned.partitionName, List.append_cancel_left_eq,
    Layout.format_eq_iff]

lemma head_partitionName (t : Table) (b : ℤ) :
    ((partitioned t).partitionName b).head? = (utf8 t.name).head? := by
  cases t <;> rfl

/-- The partitions of two tables have different names. -/
lemma partitionName_ne {t t' : Table} (h : t ≠ t') (a b : ℤ) :
    (partitioned t).partitionName a ≠ (partitioned t').partitionName b := by
  intro heq
  have hhead : (utf8 t.name).head? = (utf8 t'.name).head? := by
    rw [← head_partitionName t a, heq, head_partitionName]
  have hinj : ∀ t t' : Table, (utf8 t.name).head? = (utf8 t'.name).head? → t = t' := by
    intro t t'
    cases t <;> cases t' <;> decide
  exact h (hinj t t' hhead)

/-! ## Steps -/

lemma dayOf_instant {day clock : ℤ} (h : 0 ≤ clock ∧ clock < 86400) :
    dayOf (instant day clock) = day := by
  unfold dayOf instant
  omega

lemma clock_bounds (t : ℤ) : 0 ≤ t % 86400 ∧ t % 86400 < 86400 := by omega

/-- An instant is the one of its day and the time of the day. -/
lemma instant_dayOf (t : ℤ) : instant (dayOf t) (t % 86400) = t := by
  unfold instant dayOf
  omega

lemma dayOf_eq (t : ℤ) : dayOf t = monthStart (date t).monthIndex + ((date t).day - 1) := by
  rw [← Date.toDays_eq (d := date t) (valid_ofDays _)]
  exact (toDays_ofDays _).symm

lemma addDate_days (t : ℤ) (n : ℕ) : addDate t 0 n = t + n * 86400 := by
  have hday := dayOf_eq t
  have hinstant := instant_dayOf t
  unfold addDate instant at *
  simp only [Nat.cast_zero, add_zero]
  omega

lemma addDate_month (t : ℤ) :
    addDate t 1 0 = t + monthLength (date t).monthIndex * 86400 := by
  have hday := dayOf_eq t
  have hinstant := instant_dayOf t
  unfold addDate instant at *
  rw [Nat.cast_one, monthStart_succ, Nat.cast_zero, add_zero]
  omega

/-- A range is a day long at least. -/
lemma le_next (t : Table) (b : ℤ) : b + 86400 ≤ (partitioned t).next b := by
  cases t with
  | writeIntents | conflicts =>
    change b + 86400 ≤ addDate b 0 7
    rw [addDate_days]
    omega
  | payloadAccessAudit =>
    have hlength := le_monthLength (date b).monthIndex
    change b + 86400 ≤ addDate b 1 0
    rw [addDate_month]
    omega

lemma Layout.unit_mono (l : Layout) {a b : ℤ} (h : a ≤ b) : l.unit a ≤ l.unit b := by
  have hday : dayOf a ≤ dayOf b := by
    unfold dayOf
    omega
  cases l with
  | day => exact hday
  | month => exact monthIndex_mono hday

/-- **The next bound is in a later day, or a later month.** A day that the next month does not have
is in the month after, which is later still. -/
theorem unit_lt_next (t : Table) (b : ℤ) :
    (partitioned t).layout.unit b < (partitioned t).layout.unit ((partitioned t).next b) := by
  cases t with
  | writeIntents | conflicts =>
    change dayOf b < dayOf (addDate b 0 7)
    rw [addDate_days]
    unfold dayOf
    omega
  | payloadAccessAudit =>
    change (date b).monthIndex < (ofDays (dayOf (addDate b 1 0))).monthIndex
    have hday := (valid_ofDays (dayOf b)).2.2.1
    have hmonth := (monthStart_le (dayOf (addDate b 1 0))).2
    have hnext : dayOf (addDate b 1 0) =
        monthStart ((date b).monthIndex + 1) + ((date b).day - 1) := by
      rw [addDate, dayOf_instant (clock_bounds b)]
      simp
    have hlt : monthStart ((date b).monthIndex + 1) <
        monthStart ((ofDays (dayOf (addDate b 1 0))).monthIndex + 1) := by
      unfold date at *
      omega
    have := monthStart_strictMono.lt_iff_lt.mp hlt
    omega

/-- From the last day of January, a month is past the end of February. -/
example : date ((partitioned .payloadAccessAudit).next (instant (Date.toDays ⟨2026, 1, 31⟩) 0)) =
    ⟨2026, 3, 3⟩ := by decide +kernel

end Idemio.Partitions
