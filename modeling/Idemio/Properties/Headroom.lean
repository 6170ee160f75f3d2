import Idemio.Config
import Idemio.Properties.Coverage

set_option relaxedAutoImplicit false
set_option autoImplicit false

/-!
# Headroom

At boot `store.VerifyPartitionHeadroom` asks how far ahead of the clock the last partition of each
table ends, and refuses to serve if one ends too early. It looks at the last bound alone. Runs of
`EnsurePartitions` move that bound, and retirement detaches partitions that are past retention and
drops them, in whatever order. In between, the partitions from the last cutoff to the last bound
have no gap, so that the check says what it is for: an insert finds a partition.

## Main definitions

* `Idemio.Partitions.partitionHeadroom`, `Idemio.Partitions.verifyPartitionHeadroom` — the check.
* `Idemio.Partitions.upkeepStep` — what happens to the partitions while the service is up.
* `Idemio.Partitions.Ahead` — no gap from a time on, and nothing beyond the last bound.

## Main results

* `Idemio.Partitions.ahead_of_run` — this is kept by all that happens to the partitions.
* `Idemio.Partitions.headroom_verified_iff` — the check passes exactly if no insert is refused for
  the time that it asks for.
* `Idemio.Partitions.headroom_kept` — it passes until that time before the last horizon.
-/

namespace Idemio.Partitions

open Ranges Transition

/-! ## The check -/

/-- The difference of two instants as a `time.Duration`, as `Time.Sub` gives it: what does not fit
is cut off. -/
def saturate (n : ℤ) : Duration :=
  if n < -2 ^ 63 then Int64.minValue else if 2 ^ 63 ≤ n then Int64.maxValue else Int64.ofInt n

/-- `lessThanHalf` of the package `time`. -/
def lessThanHalf (x y : Duration) : Bool := x.toUInt64 + x.toUInt64 < y.toUInt64

/-- `Duration.Round`. -/
def roundDuration (d m : Duration) : Duration :=
  if m ≤ 0 then d
  else
    let r := d % m
    if d < 0 then
      if lessThanHalf (-r) m then d - r
      else if d - m - r < d then d - m - r
      else Int64.minValue
    else if lessThanHalf r m then d - r
    else if d < d + m - r then d + m - r
    else Int64.maxValue

/-- `PartitionHeadroom`, when the clock reads `now`. Without a partition the bound is `NULL`, which
the driver refuses to scan with the error `scanError`. -/
def partitionHeadroom (scanError : String) (now : ℤ) (t : Table) (db : Catalog) :
    Except String Duration :=
  match ((db.partitions t).map Partition.upper).max? with
  | none => .error ("read " ++ t.name ++ " partition bounds: " ++ scanError)
  | some latest => .ok (saturate (latest * 10 ^ 9 - now))

/-- `VerifyPartitionHeadroom`. The clock is read once for each table. -/
def verifyPartitionHeadroom (scanError : String) (now : Table → ℤ) (minimum : Duration)
    (db : Catalog) : Except String Unit :=
  tables.forM fun t => do
    let headroom ← partitionHeadroom scanError (now t) t db
    if headroom < minimum then
      throw (t.name ++ " has " ++ durationString (roundDuration headroom hour) ++
        " of partition headroom, want at least " ++ durationString minimum)

/-! ## Upkeep -/

/-- What happens to the partitions: a run of `EnsurePartitions` commits, a partition is detached
that ends by a cutoff, a relation that is not attached is dropped. -/
inductive UpkeepAction
  | ensure (now horizon : ℤ)
  | detach (t : Table) (p : Partition) (cutoff : ℤ)
  | drop (name : List UInt8)

/-- One of these. -/
def upkeepStep (db : Catalog) : UpkeepAction → Option Catalog
  | .ensure now horizon => ensurePartitions now horizon db
  | .detach t p cutoff =>
    if p ∈ db.partitions t ∧ p.upper * 10 ^ 9 ≤ cutoff then
      some { db with
        partitions := Function.update db.partitions t ((db.partitions t).erase p) }
    else none
  | .drop name =>
    if tables.all fun t => !((db.partitions t).map Partition.name).contains name then
      some { db with relations := db.relations.erase name }
    else none

/-- Retirement does not catch up with the partitions: some partition of the table ends after the
cutoff. -/
def InTime (db : Catalog) : UpkeepAction → Prop
  | .detach t _ cutoff => ∃ q ∈ db.partitions t, cutoff < q.upper * 10 ^ 9
  | _ => True

instance (db : Catalog) : ∀ a, Decidable (InTime db a)
  | .ensure _ _ => .isTrue trivial
  | .detach t _ cutoff =>
    inferInstanceAs (Decidable (∃ q ∈ db.partitions t, cutoff < q.upper * 10 ^ 9))
  | .drop _ => .isTrue trivial

/-- The instant, in nanoseconds, is in a partition of the table. -/
def Holds (db : Catalog) (t : Table) (x : ℤ) : Prop :=
  ∃ p ∈ db.partitions t, p.lower * 10 ^ 9 ≤ x ∧ x < p.upper * 10 ^ 9

/-- The instant is after all cutoffs of the table. -/
def AfterCutoffs (as : List UpkeepAction) (t : Table) (x : ℤ) : Prop :=
  ∀ p cutoff, .detach t p cutoff ∈ as → cutoff ≤ x

/-- The last partition ends at `hi`, where nothing is beyond, and before that every instant that is
`kept` is in a partition. -/
structure Ahead (db : Catalog) (t : Table) (kept : ℤ → Prop) (hi : ℤ) : Prop where
  below : Below db t hi
  last : hi ∈ (db.partitions t).map Partition.upper
  holds : ∀ x, kept x → x < hi * 10 ^ 9 → Holds db t x

variable {t : Table} {db db₀ db' : Catalog} {now horizon hi : ℤ} {kept kept' : ℤ → Prop}
  {as : List UpkeepAction} {minimum : Duration} {scanError : String}

lemma Ahead.mono (h : Ahead db t kept hi) (hkept : ∀ x, kept' x → kept x) :
    Ahead db t kept' hi :=
  ⟨h.below, h.last, fun x hx => h.holds x (hkept x hx)⟩

lemma Ahead.congr (hsame : Same t db db') (h : Ahead db t kept hi) : Ahead db' t kept hi where
  below := h.below.congr hsame
  last := hsame.partitions ▸ h.last
  holds x hx hlt := by
    obtain ⟨p, hp, hholds⟩ := h.holds x hx hlt
    exact ⟨p, hsame.partitions ▸ hp, hholds⟩

/-- A tiling has no gap from its beginning on. -/
lemma Tiled.ahead {lo : ℤ} (h : Tiled db t lo hi) (hnil : db.partitions t ≠ []) :
    Ahead db t (lo * 10 ^ 9 ≤ ·) hi where
  below := h.below
  last := h.tiling.mem_upper hnil
  holds x hx hlt := by
    obtain ⟨p, hp, hlower, hupper⟩ := h.tiling.covers (x := x / 10 ^ 9) (by omega) (by omega)
    exact ⟨p, hp, by omega, by omega⟩

/-- The last bound is the one that the queries find. -/
lemma Ahead.max?_eq (h : Ahead db t kept hi) :
    ((db.partitions t).map Partition.upper).max? = some hi := by
  refine List.max?_eq_some_iff.mpr ⟨h.last, fun u hu => ?_⟩
  obtain ⟨p, hp, rfl⟩ := List.mem_map.mp hu
  exact h.below.upper p hp

/-- **`extend` goes on from the last bound** to the horizon, and leaves no gap. -/
lemma Ahead.extend (h : Ahead db t kept hi) (now horizon : ℤ) :
    ∃ db' hi', extend now horizon db t = some db' ∧ Ahead db' t kept hi' ∧ hi ≤ hi' ∧
      horizon ≤ hi' * 10 ^ 9 ∧ ∀ t' ≠ t, Same t' db db' := by
  obtain ⟨n, hfuel, hle⟩ := exists_extendFuel horizon hi
  obtain ⟨db', new, hi', hloop, hgrown, hbelow, hhorizon, hothers⟩ :=
    extendLoop_grown (f := n + 1) h.below (by push_cast; exact hle)
  have hbound : upperBound now t db = hi := by
    rw [upperBound, h.max?_eq, Option.getD_some]
  refine ⟨db', hi', by simp only [Partitions.extend, hbound, hfuel, hloop],
    ⟨hbelow, ?_, fun x hx hlt => ?_⟩, hgrown.tiles.le, hhorizon, hothers⟩
  · -- the last of the new partitions ends at the new bound
    rw [hgrown.partitions, List.map_append, List.mem_append]
    by_cases hnil : new = []
    · have htiles := hgrown.tiles
      rw [hnil] at htiles
      obtain rfl : hi = hi' := htiles
      exact .inl h.last
    · exact .inr (hgrown.tiles.mem_upper hnil)
  · rw [Holds, hgrown.partitions]
    by_cases hold : x < hi * 10 ^ 9
    · obtain ⟨p, hp, hholds⟩ := h.holds x hx hold
      exact ⟨p, List.mem_append_left _ hp, hholds⟩
    · obtain ⟨p, hp, hlower, hupper⟩ :=
        hgrown.tiles.covers (x := x / 10 ^ 9) (by omega) (by omega)
      exact ⟨p, List.mem_append_right _ hp, by omega, by omega⟩

/-- **A run of `EnsurePartitions` succeeds** and brings every table to the horizon. -/
lemma ensurePartitions_ahead {kept : Table → ℤ → Prop} {hi : Table → ℤ}
    (h : ∀ t, Ahead db t (kept t) (hi t)) (now horizon : ℤ) (ts : List Table) :
    ∃ (db' : Catalog) (hi' : Table → ℤ), ts.foldlM (extend now horizon) db = some db' ∧
      (∀ t, Ahead db' t (kept t) (hi' t) ∧ hi t ≤ hi' t) ∧
      ∀ t ∈ ts, horizon ≤ hi' t * 10 ^ 9 := by
  induction ts generalizing db hi with
  | nil => exact ⟨db, hi, rfl, fun t => ⟨h t, le_rfl⟩, by simp⟩
  | cons t ts ih =>
    obtain ⟨db₁, hi₁, hextend, hahead, hle, hhorizon, hothers⟩ := (h t).extend now horizon
    have hnext : ∀ t', Ahead db₁ t' (kept t') (Function.update hi t hi₁ t') := by
      intro t'
      by_cases ht : t' = t
      · subst ht
        rw [Function.update_self]
        exact hahead
      · rw [Function.update_of_ne ht]
        exact (h t').congr (hothers t' ht)
    have hgrow : ∀ t', hi t' ≤ Function.update hi t hi₁ t' := by
      intro t'
      by_cases ht : t' = t
      · subst ht
        rw [Function.update_self]
        exact hle
      · rw [Function.update_of_ne ht]
    obtain ⟨db', hi', hfold, hall, hreach⟩ := ih hnext
    refine ⟨db', hi', by rw [List.foldlM_cons, hextend]; exact hfold,
      fun t' => ⟨(hall t').1, (hgrow t').trans (hall t').2⟩, fun t' ht' => ?_⟩
    rcases List.mem_cons.mp ht' with rfl | ht'
    · have hle' := (hall t').2
      rw [Function.update_self] at hle'
      omega
    · exact hreach t' ht'

/-- A partition that ends by a cutoff is detached: what is after the cutoff is not in it. -/
lemma Ahead.detach {p : Partition} {cutoff : ℤ} (h : Ahead db t kept hi)
    (hcutoff : p.upper * 10 ^ 9 ≤ cutoff) (hlate : cutoff < hi * 10 ^ 9) :
    Ahead { db with partitions := Function.update db.partitions t ((db.partitions t).erase p) } t
      (fun x => kept x ∧ cutoff ≤ x) hi where
  below := by
    refine ⟨fun q hq => h.below.upper q ?_, h.below.names⟩
    simp only [Function.update_self] at hq
    exact List.mem_of_mem_erase hq
  last := by
    obtain ⟨q, hq, hupper⟩ := List.mem_map.mp h.last
    have hne : q ≠ p := by
      rintro rfl
      omega
    simp only [Function.update_self]
    exact List.mem_map.mpr ⟨q, (List.mem_erase_of_ne hne).mpr hq, hupper⟩
  holds x hx hlt := by
    obtain ⟨q, hq, hlower, hupper⟩ := h.holds x hx.1 hlt
    have hne : q ≠ p := by
      rintro rfl
      have := hx.2
      omega
    refine ⟨q, ?_, hlower, hupper⟩
    simp only [Function.update_self]
    exact (List.mem_erase_of_ne hne).mpr hq

/-- Names that are dropped are free again. -/
lemma Ahead.drop (h : Ahead db t kept hi) (name : List UInt8) :
    Ahead { db with relations := db.relations.erase name } t kept hi :=
  ⟨⟨h.below.upper, fun s hs => h.below.names s (List.mem_of_mem_erase hs)⟩, h.last, h.holds⟩

/-! ## Whole runs -/

/-- The horizons of the runs of `EnsurePartitions`. -/
def horizons (as : List UpkeepAction) : List ℤ :=
  as.filterMap fun
    | .ensure _ horizon => some horizon
    | _ => none

/-- **What upkeep keeps.** From tables without a gap, whatever runs and retirements follow: from the
last cutoff on there is no gap, and every table goes as far as every run was asked to bring it. -/
theorem ahead_of_run {kept : Table → ℤ → Prop} {hi : Table → ℤ}
    (h₀ : ∀ t, Ahead db₀ t (kept t) (hi t)) (hrun : Run upkeepStep InTime db₀ as db) :
    ∃ hi' : Table → ℤ, ∀ t, Ahead db t (fun x => kept t x ∧ AfterCutoffs as t x) (hi' t) ∧
      ∀ horizon ∈ horizons as, horizon ≤ hi' t * 10 ^ 9 := by
  induction hrun with
  | nil => exact ⟨hi, fun t => ⟨(h₀ t).mono fun x hx => hx.1, by simp [horizons]⟩⟩
  | @snoc as db db' a hrun hok hstep ih =>
    obtain ⟨hi₁, hall⟩ := ih
    have hearlier : ∀ t x, AfterCutoffs (as ++ [a]) t x → AfterCutoffs as t x :=
      fun t x hx p cutoff hmem => hx p cutoff (List.mem_append_left _ hmem)
    cases a with
    | ensure now horizon =>
      obtain ⟨db₁, hi', hfold, hahead, hreach⟩ :=
        ensurePartitions_ahead (fun t => (hall t).1) now horizon tables
      obtain rfl : db₁ = db' := Option.some.inj (hfold.symm.trans hstep)
      refine ⟨hi', fun t => ⟨(hahead t).1.mono fun x hx => ⟨hx.1, hearlier t x hx.2⟩, ?_⟩⟩
      intro horizon' hmem
      simp only [horizons, List.filterMap_append, List.mem_append] at hmem
      rcases hmem with hmem | hmem
      · have hle := (hall t).2 horizon' hmem
        have hgrow := (hahead t).2
        omega
      · obtain rfl : horizon' = horizon := by simpa using hmem
        exact hreach t (mem_tables t)
    | detach t₀ p cutoff =>
      simp only [upkeepStep] at hstep
      split at hstep
      · next hexpired =>
        cases hstep
        have hhorizons : horizons (as ++ [.detach t₀ p cutoff]) = horizons as := by
          simp [horizons]
        refine ⟨hi₁, fun t => ⟨?_, hhorizons ▸ (hall t).2⟩⟩
        by_cases ht : t = t₀
        · subst ht
          obtain ⟨q, hq, hlate⟩ := hok
          have hupper := (hall t).1.below.upper q hq
          refine ((hall t).1.detach hexpired.2 (by omega)).mono fun x hx => ?_
          exact ⟨⟨hx.1, hearlier t x hx.2⟩, hx.2 p cutoff (by simp)⟩
        · refine ((hall t).1.mono fun x hx => ⟨hx.1, hearlier t x hx.2⟩).congr ?_
          exact ⟨Function.update_of_ne ht _ _, fun _ => Iff.rfl⟩
      · cases hstep
    | drop name =>
      simp only [upkeepStep] at hstep
      split at hstep
      · cases hstep
        have hhorizons : horizons (as ++ [.drop name]) = horizons as := by simp [horizons]
        exact ⟨hi₁, fun t => ⟨((hall t).1.mono fun x hx => ⟨hx.1, hearlier t x hx.2⟩).drop name,
          hhorizons ▸ (hall t).2⟩⟩
      · cases hstep

/-! ## What the check says -/

/-- A difference that is cut off is compared as if it were not. -/
lemma saturate_lt_iff {n : ℤ} (hmin : -2 ^ 63 < minimum.toInt) :
    saturate n < minimum ↔ n < minimum.toInt := by
  have hfits := fits64_toInt minimum
  rw [Int64.lt_iff_toInt_lt, saturate]
  split
  · have hvalue : Int64.minValue.toInt = -2 ^ 63 := by decide
    omega
  · split
    · have hvalue : Int64.maxValue.toInt = 2 ^ 63 - 1 := by decide
      unfold Fits64 at hfits
      omega
    · rw [Int64.toInt_ofInt_of_le (by omega) (by omega)]

/-- A loop that only checks succeeds exactly if every check does. -/
lemma forM_eq_ok {ε α : Type} {f : α → Except ε Unit} {l : List α} :
    l.forM f = .ok () ↔ ∀ a ∈ l, f a = .ok () := by
  induction l with
  | nil => simp [pure, Except.pure]
  | cons a l ih =>
    rw [List.forall_mem_cons, ← ih]
    change (f a >>= fun _ => l.forM f) = .ok () ↔ _
    cases f a with
    | error e => simp [bind, Except.bind]
    | ok u => simp [bind, Except.bind]

/-- The check passes exactly if every last bound is far enough ahead. -/
lemma verifyPartitionHeadroom_eq_ok {now hi : Table → ℤ}
    (hmax : ∀ t, ((db.partitions t).map Partition.upper).max? = some (hi t))
    (hmin : -2 ^ 63 < minimum.toInt) :
    verifyPartitionHeadroom scanError now minimum db = .ok () ↔
      ∀ t, now t + minimum.toInt ≤ hi t * 10 ^ 9 := by
  rw [verifyPartitionHeadroom, forM_eq_ok]
  refine ⟨fun h t => ?_, fun h t _ => ?_⟩
  · have ht := h t (mem_tables t)
    simp only [partitionHeadroom, hmax t, bind, Except.bind] at ht
    split at ht
    · cases ht
    · next hnot =>
      rw [saturate_lt_iff hmin] at hnot
      omega
  · have hnot : ¬saturate (hi t * 10 ^ 9 - now t) < minimum := by
      have := h t
      rw [saturate_lt_iff hmin]
      omega
    simp only [partitionHeadroom, hmax t, bind, Except.bind, if_neg hnot]
    rfl

/-! ## A database -/

/-- The ends of the tilings that the migration of 15 January 2026 lays down in UTC: weeks from 12
January to 6 April, and months from 1 January to 1 April. -/
def utcLo : Table → ℤ
  | .writeIntents | .conflicts => 1768176000
  | .payloadAccessAudit => 1767225600

@[inherit_doc utcLo]
def utcHi : Table → ℤ
  | .writeIntents | .conflicts => 1775433600
  | .payloadAccessAudit => 1775001600

/-- A run on 10 February for 8 weeks ahead, and one on 20 March, after which the first week of
`write_intents` is past retention. -/
def utcUpkeep : List UpkeepAction :=
  [.ensure 1770681600 (1775520000 * 10 ^ 9), .ensure 1773964800 (1778803200 * 10 ^ 9),
    .detach .writeIntents (partitionFrom .writeIntents 1768176000) (1768780800 * 10 ^ 9)]

/-- The migration lays down these tilings, and upkeep goes through. -/
lemma exists_utcUpkeep : ∃ db₀ db, Run upkeepStep InTime db₀ utcUpkeep db ∧
    (∀ t, Tiled db₀ t (utcLo t) (utcHi t)) ∧ ∀ t, db₀.partitions t ≠ [] := by
  have hfacts : (migrate (Zone.fixed 0) 1768435200 noPartitions).any fun db =>
      (∀ t ∈ tables,
        Tiles Partition.lower Partition.upper (db.partitions t) (utcLo t) (utcHi t)) ∧
      (∀ t ∈ tables, db.partitions t ≠ []) ∧
      (∀ n ∈ db.relations, ∃ t ∈ tables, ∃ p ∈ db.partitions t,
        n = (partitioned t).partitionName p.lower) ∧
      (∀ t ∈ tables, (partitioned t).partitionName (utcHi t) ∉ db.relations) ∧
      (exec upkeepStep InTime db utcUpkeep).isSome := by decide +kernel
  obtain ⟨db₀, -, hfacts⟩ := (Option.any_eq_true _ _).mp hfacts
  rw [decide_eq_true_eq] at hfacts
  obtain ⟨htiles, hnil, hnamed, hfree, hexec⟩ := hfacts
  obtain ⟨db, hexec⟩ := Option.isSome_iff_exists.mp hexec
  have hnil : ∀ t, db₀.partitions t ≠ [] := fun t => hnil t (mem_tables t)
  have hlaid : ∀ t, Laid db₀ 0 t (utcLo t) (utcHi t) := by
    refine laid_of_named (fun t => htiles t (mem_tables t)) hnil fun n hn => ?_
    obtain ⟨t, -, p, hp, hname⟩ := hnamed n hn
    exact ⟨t, p, hp, hname⟩
  exact ⟨db₀, db, run_of_exec hexec,
    fun t => ⟨(hlaid t).tiling, (hlaid t).below (hfree t (mem_tables t))⟩, hnil⟩

/-- No cutoff is after 20 March. -/
lemma afterCutoffs_utc (t : Table) {x : ℤ} (hx : 1773964800 * 10 ^ 9 ≤ x) :
    AfterCutoffs utcUpkeep t x := by
  intro p cutoff hmem
  simp only [utcUpkeep, List.mem_cons, reduceCtorEq, UpkeepAction.detach.injEq, List.not_mem_nil,
    or_false, false_or] at hmem
  omega

/-! ## Main results -/

/-- **The check says what it is for.** Take tables that have partitions, are tiled by them and have
the next name free, and whatever runs of `EnsurePartitions` and retirements have happened to them
since, where no cutoff was past the last partition of its table. At a time after the start of the
tilings and the last cutoff, `VerifyPartitionHeadroom` passes exactly if no insert into any of the
tables is refused from then on for as long as it asks for, although it looks at the last bounds
alone. -/
theorem headroom_verified_iff {lo hi : Table → ℤ} {now : Table → ℤ}
    (h₀ : ∀ t, Tiled db₀ t (lo t) (hi t)) (hnil : ∀ t, db₀.partitions t ≠ [])
    (hrun : Run upkeepStep InTime db₀ as db)
    (hnow : ∀ t, lo t * 10 ^ 9 ≤ now t ∧ AfterCutoffs as t (now t))
    (hmin : 0 < minimum.toInt) :
    verifyPartitionHeadroom scanError now minimum db = .ok () ↔
      ∀ t x, now t ≤ x → x < now t + minimum.toInt → Holds db t x := by
  obtain ⟨hi', hall⟩ := ahead_of_run (fun t => (h₀ t).ahead (hnil t)) hrun
  rw [verifyPartitionHeadroom_eq_ok (fun t => (hall t).1.max?_eq) (by omega)]
  refine forall_congr' fun t => ⟨fun hle x hx hlt => ?_, fun hholds => ?_⟩
  · refine (hall t).1.holds x ⟨(hnow t).1.trans hx, fun p cutoff hmem => ?_⟩ (by omega)
    exact ((hnow t).2 p cutoff hmem).trans hx
  · -- the last instant that is asked for is in a partition, which ends by the last bound
    obtain ⟨p, hp, -, hupper⟩ := hholds (now t + minimum.toInt - 1) (by omega) (by omega)
    have hle := (hall t).1.below.upper p hp
    omega

/-- On 20 March 2026 there are partitions for the two weeks that the service asks for. -/
theorem headroom_verified_iff_utc : ∃ db,
    verifyPartitionHeadroom "" (fun _ => 1773964800 * 10 ^ 9) (14 * 24 * hour) db = .ok () ∧
    ∀ t x, 1773964800 * 10 ^ 9 ≤ x → x < (1773964800 + 14 * 24 * 3600) * 10 ^ 9 →
      Holds db t x := by
  obtain ⟨db₀, db, hrun, htiled, hnil⟩ := exists_utcUpkeep
  obtain ⟨hi', hall⟩ := ahead_of_run (fun t => (htiled t).ahead (hnil t)) hrun
  have hnow : ∀ t, utcLo t * 10 ^ 9 ≤ 1773964800 * 10 ^ 9 ∧
      AfterCutoffs utcUpkeep t (1773964800 * 10 ^ 9) :=
    fun t => ⟨by cases t <;> decide, afterCutoffs_utc t le_rfl⟩
  have hminimum : (14 * 24 * hour).toInt = 14 * 24 * 3600 * 10 ^ 9 := by decide
  have hiff : verifyPartitionHeadroom "" (fun _ => 1773964800 * 10 ^ 9) (14 * 24 * hour) db =
      .ok () ↔ _ := headroom_verified_iff htiled hnil hrun hnow (by decide)
  have hholds : ∀ t x, 1773964800 * 10 ^ 9 ≤ x → x < 1773964800 * 10 ^ 9 + (14 * 24 * hour).toInt →
      Holds db t x := by
    intro t x hx hlt
    have hreach := (hall t).2 (1778803200 * 10 ^ 9) (by decide)
    refine (hall t).1.holds x ⟨(hnow t).1.trans hx, afterCutoffs_utc t hx⟩ ?_
    omega
  exact ⟨db, hiff.mpr hholds, fun t x hx hlt => hholds t x hx (by omega)⟩

/-- **Headroom is kept.** Take tables that have partitions, are tiled by them and have the next name
free, and whatever runs of `EnsurePartitions` and retirements have happened to them since, where no
cutoff was past the last partition of its table. After a run with a horizon, no insert at a time
after the start of the tiling and the last cutoff and before that horizon is refused, and
`VerifyPartitionHeadroom` passes as long as what it asks for ends by the horizon. -/
theorem headroom_kept {lo hi : Table → ℤ} (h₀ : ∀ t, Tiled db₀ t (lo t) (hi t))
    (hnil : ∀ t, db₀.partitions t ≠ []) (hrun : Run upkeepStep InTime db₀ as db)
    (hmem : horizon ∈ horizons as) :
    (∀ t x, lo t * 10 ^ 9 ≤ x → AfterCutoffs as t x → x < horizon → Holds db t x) ∧
    ∀ scanError now minimum, -2 ^ 63 < minimum.toInt → (∀ t, now t + minimum.toInt ≤ horizon) →
      verifyPartitionHeadroom scanError now minimum db = .ok () := by
  obtain ⟨hi', hall⟩ := ahead_of_run (fun t => (h₀ t).ahead (hnil t)) hrun
  refine ⟨fun t x hlo hcutoffs hlt => ?_, fun scanError now minimum hmin hle => ?_⟩
  · have := (hall t).2 horizon hmem
    exact (hall t).1.holds x ⟨hlo, hcutoffs⟩ (by omega)
  · refine (verifyPartitionHeadroom_eq_ok (fun t => (hall t).1.max?_eq) hmin).mpr fun t => ?_
    have := (hall t).2 horizon hmem
    exact (hle t).trans this

/-- The service can be started until six weeks after 20 March 2026. -/
theorem headroom_kept_utc : ∃ db,
    (∀ t x, 1773964800 * 10 ^ 9 ≤ x → x < 1778803200 * 10 ^ 9 → Holds db t x) ∧
    verifyPartitionHeadroom "" (fun _ => (1773964800 + 42 * 24 * 3600) * 10 ^ 9)
      (14 * 24 * hour) db = .ok () := by
  obtain ⟨db₀, db, hrun, htiled, hnil⟩ := exists_utcUpkeep
  have hmem : 1778803200 * 10 ^ 9 ∈ horizons utcUpkeep := by decide
  obtain ⟨hholds, hverify⟩ := headroom_kept htiled hnil hrun hmem
  refine ⟨db, fun t x hx hlt => hholds t x ?_ (afterCutoffs_utc t hx) hlt,
    hverify _ _ _ (by decide) fun t => by decide⟩
  have hlo : utcLo t * 10 ^ 9 ≤ 1773964800 * 10 ^ 9 := by cases t <;> decide
  exact hlo.trans hx

end Idemio.Partitions
