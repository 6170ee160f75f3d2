import Idemio.Maintenance.Partitions

set_option relaxedAutoImplicit false
set_option autoImplicit false

/-!
# Partition maintenance leaves no gap

A run takes up each table where its last range ends and goes on to the horizon. The names that it
gives are new as long as the one for the first boundary is: from there on every boundary is in a
later day, or month. If that one is taken, the first range is passed over without an error, and the
table is left with a gap.

In a session whose time zone is UTC the migration leaves no such name. In another it may: to the
west of UTC the first of January is the last of December, two months on it is the last of February,
and from there the next month ends on the 28th of March, with the name of March taken.

## Main definitions

* `Idemio.Partitions.Laid` — what the migration and earlier runs leave of a table.
* `Idemio.Partitions.Extended` — what a run should leave of it.

## Main results

* `Idemio.Partitions.ensurePartitions_extends_iff` — a run ends without an error, and leaves no gap
  if and only if the name for the first boundary is free where one is needed; more runs, one
  after the other or at the same time, add nothing.
* `Idemio.Partitions.migrate_utc` — it is after a migration in UTC.
-/

namespace Idemio.Partitions

open Ranges Calendar

variable {t t' : Table} {db db₁ db₂ db' : Catalog} {now horizon lo hi mid b start : ℤ}
  {new new' : List Partition}

/-- The partitions of the table tile an interval, which is empty before the current week if there
are none, and names of the table's were given to bounds in it or before it. -/
structure Laid (db : Catalog) (now : ℤ) (t : Table) (lo hi : ℤ) : Prop where
  tiling : Tiling Partition.lower Partition.upper (db.partitions t) lo hi
  empty : db.partitions t = [] → hi = weekStart now
  names : ∀ s, (partitioned t).partitionName s ∈ db.relations →
    ∃ lower < hi, (partitioned t).partitionName lower = (partitioned t).partitionName s

/-- With new partitions the table is tiled up to the horizon, and their names are new. -/
def Extended (db db' : Catalog) (horizon : ℤ) (t : Table) (lo : ℤ) : Prop :=
  ∃ new hi', db'.partitions t = db.partitions t ++ new ∧
    Tiling Partition.lower Partition.upper (db'.partitions t) lo hi' ∧ horizon ≤ hi' * 10 ^ 9 ∧
    (new.map Partition.name).Nodup ∧ ∀ p ∈ new, p.name ∉ db.relations

/-! ## What one statement adds -/

/-- All ranges end by `b`, and no name is one of its day or month, or of a later one. -/
structure Below (db : Catalog) (t : Table) (b : ℤ) : Prop where
  upper : ∀ p ∈ db.partitions t, p.upper ≤ b
  names : ∀ s, (partitioned t).partitionName s ∈ db.relations →
    (partitioned t).layout.unit s < (partitioned t).layout.unit b

/-- Nothing about the table differs. -/
structure Same (t : Table) (db db' : Catalog) : Prop where
  partitions : db'.partitions t = db.partitions t
  names : ∀ s, (partitioned t).partitionName s ∈ db'.relations ↔
    (partitioned t).partitionName s ∈ db.relations

/-- Partitions from `b` to `hi` are added to the table, under names that are new. -/
structure Grown (t : Table) (db db' : Catalog) (new : List Partition) (b hi : ℤ) : Prop where
  partitions : db'.partitions t = db.partitions t ++ new
  names : ∀ s, (partitioned t).partitionName s ∈ db'.relations ↔
    (partitioned t).partitionName s ∈ db.relations ∨
      (partitioned t).partitionName s ∈ new.map Partition.name
  tiles : Tiles Partition.lower Partition.upper new b hi
  named : ∀ p ∈ new, ∃ s, p.name = (partitioned t).partitionName s
  fresh : ∀ p ∈ new, p.name ∉ db.relations
  nodup : (new.map Partition.name).Nodup

lemma Same.refl (t : Table) (db : Catalog) : Same t db db := ⟨rfl, fun _ => Iff.rfl⟩

lemma Same.trans (h : Same t db db₁) (h' : Same t db₁ db₂) : Same t db db₂ :=
  ⟨h'.partitions.trans h.partitions, fun s => (h'.names s).trans (h.names s)⟩

lemma Grown.nil (t : Table) (db : Catalog) (b : ℤ) : Grown t db db [] b b where
  partitions := (List.append_nil _).symm
  names := by simp
  tiles := rfl
  named := by simp
  fresh := by simp
  nodup := List.nodup_nil

lemma Grown.trans (h : Grown t db db₁ new b mid) (h' : Grown t db₁ db₂ new' mid hi) :
    Grown t db db₂ (new ++ new') b hi where
  partitions := by rw [h'.partitions, h.partitions, List.append_assoc]
  names s := by rw [h'.names, h.names, List.map_append, List.mem_append, or_assoc]
  tiles := h.tiles.append h'.tiles
  named := by
    intro p hp
    rcases List.mem_append.mp hp with hp | hp
    · exact h.named p hp
    · exact h'.named p hp
  fresh := by
    intro p hp
    rcases List.mem_append.mp hp with hp | hp
    · exact h.fresh p hp
    · obtain ⟨s, hs⟩ := h'.named p hp
      have hfresh := h'.fresh p hp
      rw [hs, h.names] at hfresh
      rw [hs]
      exact fun hmem => hfresh (.inl hmem)
  nodup := by
    rw [List.map_append]
    refine h.nodup.append h'.nodup ?_
    intro name hname hname'
    obtain ⟨p, hp, rfl⟩ := List.mem_map.mp hname'
    obtain ⟨s, hs⟩ := h'.named p hp
    have hfresh := h'.fresh p hp
    rw [hs, h.names] at hfresh
    exact hfresh (.inr (hs ▸ hname))

/-- What is known of a table carries over to catalogs that differ elsewhere. -/
lemma Grown.congr (hbefore : Same t db db₁) (h : Grown t db₁ db₂ new b hi)
    (hafter : Same t db₂ db') : Grown t db db' new b hi where
  partitions := by rw [hafter.partitions, h.partitions, hbefore.partitions]
  names s := by rw [hafter.names, h.names, hbefore.names]
  tiles := h.tiles
  named := h.named
  fresh := by
    intro p hp
    obtain ⟨s, hs⟩ := h.named p hp
    have hfresh := h.fresh p hp
    rwa [hs, hbefore.names, ← hs] at hfresh
  nodup := h.nodup

lemma Below.congr (hsame : Same t db db') (h : Below db t b) : Below db' t b where
  upper := hsame.partitions ▸ h.upper
  names s hs := h.names s ((hsame.names s).mp hs)

lemma Laid.congr (hsame : Same t db db') (h : Laid db now t lo hi) : Laid db' now t lo hi where
  tiling := hsame.partitions ▸ h.tiling
  empty hnil := h.empty (hsame.partitions ▸ hnil)
  names s hs := h.names s ((hsame.names s).mp hs)

/-- **The partition at a boundary.** If nothing is beyond the boundary, it is made there, and
nothing is beyond the next one. -/
lemma create_of_below (h : Below db t b) : (partitioned t).partitionName b ∉ db.relations ∧
    ∃ db', createPartition t (partitionFrom t b) db = some db' ∧
      Grown t db db' [partitionFrom t b] b ((partitioned t).next b) ∧
      Below db' t ((partitioned t).next b) ∧ ∀ t' ≠ t, Same t' db db' := by
  have hnext := le_next t b
  have hunit := unit_lt_next t b
  have hfree : (partitioned t).partitionName b ∉ db.relations := fun hmem =>
    absurd (h.names b hmem) (lt_irrefl _)
  have hempty : ¬(partitionFrom t b).upper ≤ (partitionFrom t b).lower := by
    change ¬(partitioned t).next b ≤ b
    omega
  have hoverlap : ¬∃ q ∈ db.partitions t, (partitionFrom t b).lower < q.upper ∧
      q.lower < (partitionFrom t b).upper := by
    rintro ⟨q, hq, hlt, -⟩
    exact absurd (h.upper q hq) (not_le.mpr hlt)
  refine ⟨hfree, _, by rw [createPartition, if_neg hempty, if_neg hoverlap], ?_, ?_, ?_⟩
  · exact {
      partitions := Function.update_self ..
      names := by simp
      tiles := ⟨rfl, not_le.mp hempty, rfl⟩
      named := by
        intro p hp
        rw [List.mem_singleton.mp hp]
        exact ⟨b, rfl⟩
      fresh := by
        intro p hp
        rw [List.mem_singleton.mp hp]
        exact hfree
      nodup := List.nodup_singleton _ }
  · constructor
    · intro p hp
      simp only [Function.update_self, List.mem_append, List.mem_singleton] at hp
      rcases hp with hp | rfl
      · exact (h.upper p hp).trans (by omega)
      · exact le_rfl
    · intro s hs
      rcases List.mem_append.mp hs with hs | hs
      · exact (h.names s hs).trans hunit
      · rw [partitionName_eq_iff.mp (List.mem_singleton.mp hs)]
        exact hunit
  · intro t' ht'
    refine ⟨Function.update_of_ne ht' _ _, fun s => ?_⟩
    have hne : (partitioned t').partitionName s ≠ (partitionFrom t b).name :=
      partitionName_ne ht' s b
    simp [hne]

/-! ## One table -/

/-- **The loop from a boundary with nothing beyond it.** There is fuel for each day up to the
horizon. -/
lemma extendLoop_grown {f : ℕ} (h : Below db t b)
    (hfuel : horizon ≤ (b + 86400 * f) * 10 ^ 9) :
    ∃ db' new hi', extendLoop t horizon (f + 1) b db = some db' ∧ Grown t db db' new b hi' ∧
      Below db' t hi' ∧ horizon ≤ hi' * 10 ^ 9 ∧ ∀ t' ≠ t, Same t' db db' := by
  induction f generalizing b db with
  | zero =>
    have hdone : ¬b * 10 ^ 9 < horizon := by omega
    exact ⟨db, [], b, by rw [extendLoop, if_neg hdone], Grown.nil t db b, h, not_lt.mp hdone,
      fun t' _ => Same.refl t' db⟩
  | succ f ih =>
    by_cases hdone : b * 10 ^ 9 < horizon
    · have hnext := le_next t b
      obtain ⟨hfree, db₁, hcreate, hgrown, hbelow, hothers⟩ := create_of_below h
      obtain ⟨db', new, hi', hloop, hgrown', hbelow', hhorizon, hothers'⟩ :=
        ih (b := (partitioned t).next b) hbelow (by push_cast at hfuel; omega)
      refine ⟨db', _, hi', ?_, hgrown.trans hgrown', hbelow', hhorizon, fun t' ht' =>
        (hothers t' ht').trans (hothers' t' ht')⟩
      have hname : (partitionFrom t b).name ∉ db.relations := hfree
      rw [extendLoop, if_pos hdone, createIfNotExists, if_neg hname, hcreate]
      exact hloop
    · exact ⟨db, [], b, by rw [extendLoop, if_neg hdone], Grown.nil t db b, h, not_lt.mp hdone,
        fun t' _ => Same.refl t' db⟩

lemma upperBound_eq (hupper : ∀ p ∈ db.partitions t, p.upper ≤ b)
    (hempty : db.partitions t = [] → b = weekStart now)
    (hmem : db.partitions t ≠ [] → b ∈ (db.partitions t).map Partition.upper) :
    upperBound now t db = b := by
  by_cases hnil : db.partitions t = []
  · simp [upperBound, hnil, hempty hnil]
  · have hmax : ((db.partitions t).map Partition.upper).max? = some b := by
      refine List.max?_eq_some_iff.mpr ⟨hmem hnil, ?_⟩
      intro u hu
      obtain ⟨p, hp, rfl⟩ := List.mem_map.mp hu
      exact hupper p hp
    rw [upperBound, hmax, Option.getD_some]

/-- The query finds the end of the tiling. -/
lemma Laid.upperBound_eq (h : Laid db now t lo hi) : upperBound now t db = hi :=
  Partitions.upperBound_eq (fun _ hp => (h.tiling.bounds hp).2.2) h.empty h.tiling.mem_upper

/-- The names that are taken are of the day, or month, of the end at the latest. -/
lemma Laid.unit_le (h : Laid db now t lo hi) {s : ℤ}
    (hs : (partitioned t).partitionName s ∈ db.relations) :
    (partitioned t).layout.unit s ≤ (partitioned t).layout.unit hi := by
  obtain ⟨lower, hlt, hname⟩ := h.names s hs
  rw [← partitionName_eq_iff.mp hname]
  exact Layout.unit_mono _ hlt.le

lemma Laid.below (h : Laid db now t lo hi)
    (hfree : (partitioned t).partitionName hi ∉ db.relations) : Below db t hi where
  upper _ hp := (h.tiling.bounds hp).2.2
  names s hs := by
    refine lt_of_le_of_ne (h.unit_le hs) fun hunit => hfree ?_
    rwa [← partitionName_eq_iff.mpr hunit]

/-- Beyond the first boundary no name is taken in any case. -/
lemma Laid.below_next (h : Laid db now t lo hi) : Below db t ((partitioned t).next hi) where
  upper _ hp := (h.tiling.bounds hp).2.2.trans (by have := le_next t hi; omega)
  names _ hs := (h.unit_le hs).trans_lt (unit_lt_next t hi)

/-- There is fuel for more than the days up to the horizon. -/
lemma exists_extendFuel (horizon b : ℤ) :
    ∃ n : ℕ, extendFuel horizon b = n + 2 ∧ horizon ≤ (b + 86400 * ((n : ℤ) + 1)) * 10 ^ 9 := by
  refine ⟨((horizon / 10 ^ 9 - b) / 86400).toNat, rfl, ?_⟩
  omega

/-- A run adds partitions to the table up to the horizon, from the end of the tiling on, or from the
next boundary on if the name for the end is needed and taken. -/
structure Reached (t : Table) (horizon : ℤ) (db db' : Catalog) (hi : ℤ) (new : List Partition)
    (start hi' : ℤ) : Prop where
  grown : Grown t db db' new start hi'
  upper : ∀ p ∈ db'.partitions t, p.upper ≤ hi'
  reach : horizon ≤ hi' * 10 ^ 9
  origin :
    start = hi ∧ (horizon ≤ hi * 10 ^ 9 ∨ (partitioned t).partitionName hi ∉ db.relations) ∨
    start = (partitioned t).next hi ∧ hi * 10 ^ 9 < horizon ∧
      (partitioned t).partitionName hi ∈ db.relations
  below : (partitioned t).partitionName hi ∉ db.relations → Below db' t hi'

lemma Reached.congr {hi' : ℤ} (hbefore : Same t db db₁)
    (h : Reached t horizon db₁ db₂ hi new start hi')
    (hafter : Same t db₂ db') : Reached t horizon db db' hi new start hi' where
  grown := h.grown.congr hbefore hafter
  upper := hafter.partitions ▸ h.upper
  reach := h.reach
  origin := by
    rw [← hbefore.names hi]
    exact h.origin
  below hfree := (h.below fun hmem => hfree ((hbefore.names hi).mp hmem)).congr hafter

/-- **`extend` succeeds.** -/
lemma extend_reached (horizon : ℤ) (h : Laid db now t lo hi) :
    ∃ db' new start hi', extend now horizon db t = some db' ∧
      Reached t horizon db db' hi new start hi' ∧ ∀ t' ≠ t, Same t' db db' := by
  obtain ⟨n, hfuel, hle⟩ := exists_extendFuel horizon hi
  have hextend : extend now horizon db t = extendLoop t horizon (n + 2) hi db := by
    simp only [extend, h.upperBound_eq, hfuel]
  by_cases hdone : hi * 10 ^ 9 < horizon
  · by_cases hname : (partitioned t).partitionName hi ∈ db.relations
    · -- the first partition is taken to be there
      have hnext := le_next t hi
      have htaken : (partitionFrom t hi).name ∈ db.relations := hname
      have hle' : horizon ≤ ((partitioned t).next hi + 86400 * n) * 10 ^ 9 := by omega
      obtain ⟨db', new, hi', hloop, hgrown, hbelow, hhorizon, hothers⟩ :=
        extendLoop_grown h.below_next hle'
      refine ⟨db', new, _, hi', ?_, ⟨hgrown, hbelow.upper, hhorizon, .inr ⟨rfl, hdone, hname⟩,
        fun _ => hbelow⟩, hothers⟩
      rw [hextend, extendLoop, if_pos hdone, createIfNotExists, if_pos htaken]
      exact hloop
    · have hle' : horizon ≤ (hi + 86400 * (n + 1 : ℕ)) * 10 ^ 9 := by
        push_cast
        exact hle
      obtain ⟨db', new, hi', hloop, hgrown, hbelow, hhorizon, hothers⟩ :=
        extendLoop_grown (h.below hname) hle'
      exact ⟨db', new, hi, hi', hextend.trans hloop, ⟨hgrown, hbelow.upper, hhorizon,
        .inl ⟨rfl, .inr hname⟩, fun _ => hbelow⟩, hothers⟩
  · refine ⟨db, [], hi, hi, ?_, ⟨Grown.nil t db hi, fun p hp => (h.tiling.bounds hp).2.2,
      not_lt.mp hdone, .inl ⟨rfl, .inl (not_lt.mp hdone)⟩, h.below⟩, fun t' _ => Same.refl t' db⟩
    rw [hextend, extendLoop, if_neg hdone]

/-- **`extend` with the same horizon adds nothing.** Either it finds the horizon reached, or it
passes over the same partition as before. -/
lemma Reached.extend_again {hi' : ℤ} (h : Laid db now t lo hi)
    (hreached : Reached t horizon db db' hi new start hi') :
    extend now horizon db' t = some db' := by
  have hpartitions := hreached.grown.partitions
  have hdone : upperBound now t db' = hi' → extend now horizon db' t = some db' := by
    intro hbound
    simp only [extend, hbound]
    rw [extendFuel, extendLoop, if_neg (not_lt.mpr hreached.reach)]
  by_cases hnil : new = []
  · -- nothing was added
    have hsame : db'.partitions t = db.partitions t := by rw [hpartitions, hnil, List.append_nil]
    have hbound : upperBound now t db' = hi := by
      rw [upperBound, hsame]
      exact h.upperBound_eq
    have htiles := hreached.grown.tiles
    rw [hnil] at htiles
    obtain rfl : start = hi' := htiles
    rcases hreached.origin with ⟨rfl, -⟩ | ⟨rfl, hlt, hname⟩
    · exact hdone hbound
    · have htaken : (partitionFrom t hi).name ∈ db'.relations :=
        (hreached.grown.names hi).mpr (.inl hname)
      have hreach := hreached.reach
      simp only [extend, hbound]
      rw [extendFuel, extendLoop, if_pos hlt, createIfNotExists, if_pos htaken, Option.bind_some,
        extendLoop, if_neg (not_lt.mpr hreach)]
  · refine hdone (Partitions.upperBound_eq hreached.upper ?_ ?_)
    · intro hempty
      rw [hpartitions] at hempty
      exact absurd (List.append_eq_nil_iff.mp hempty).2 hnil
    · intro _
      rw [hpartitions, List.map_append, List.mem_append]
      exact .inr (hreached.grown.tiles.mem_upper hnil)

/-! ## All tables -/

lemma foldlM_extend (horizon : ℤ) {lo hi : Table → ℤ} (ts : List Table) (hnodup : ts.Nodup)
    (h : ∀ t ∈ ts, Laid db now t (lo t) (hi t)) :
    ∃ db', ts.foldlM (extend now horizon) db = some db' ∧
      (∀ t ∈ ts, ∃ new start hi', Reached t horizon db db' (hi t) new start hi') ∧
      ∀ t ∉ ts, Same t db db' := by
  induction ts generalizing db with
  | nil => exact ⟨db, rfl, by simp, fun t _ => Same.refl t db⟩
  | cons t ts ih =>
    obtain ⟨hnot, hnodup⟩ := List.nodup_cons.mp hnodup
    obtain ⟨db₁, new, start, hi', hextend, hreached, hothers⟩ :=
      extend_reached horizon (h t List.mem_cons_self)
    have hne : ∀ t' ∈ ts, t' ≠ t := by
      rintro t' ht' rfl
      exact hnot ht'
    obtain ⟨db', hfold, hall, hrest⟩ := ih hnodup fun t' ht' =>
      (h t' (List.mem_cons_of_mem _ ht')).congr (hothers t' (hne t' ht'))
    refine ⟨db', ?_, ?_, ?_⟩
    · rw [List.foldlM_cons, hextend]
      exact hfold
    · intro t' ht'
      rcases List.mem_cons.mp ht' with rfl | ht'
      · exact ⟨new, start, hi', hreached.congr (Same.refl t' db) (hrest t' hnot)⟩
      · obtain ⟨new', start', hi'', hreached'⟩ := hall t' ht'
        exact ⟨new', start', hi'', hreached'.congr (hothers t' (hne t' ht')) (Same.refl t' db')⟩
    · intro t' ht'
      rw [List.mem_cons, not_or] at ht'
      exact (hothers t' ht'.1).trans (hrest t' ht'.2)

lemma mem_tables (t : Table) : t ∈ tables := by
  cases t <;> decide

/-- **A run on tiled tables succeeds**, and another one after it adds nothing. -/
theorem ensurePartitions_reached (horizon : ℤ) {lo hi : Table → ℤ}
    (h : ∀ t, Laid db now t (lo t) (hi t)) :
    ∃ db', ensurePartitions now horizon db = some db' ∧
      (∀ t, ∃ new start hi', Reached t horizon db db' (hi t) new start hi') ∧
      ensurePartitions now horizon db' = some db' := by
  obtain ⟨db', hfold, hall, -⟩ := foldlM_extend horizon tables (by decide) fun t _ => h t
  have hreached := fun t => hall t (mem_tables t)
  refine ⟨db', hfold, hreached, ?_⟩
  have hagain : ∀ t, extend now horizon db' t = some db' := by
    intro t
    obtain ⟨new, start, hi', hreached⟩ := hreached t
    exact hreached.extend_again (h t)
  simp [ensurePartitions, tables, hagain]

/-- From the end of the tiling on there is no gap; from the next boundary on the end itself is not
in any partition. -/
lemma Reached.extended_iff {hi' : ℤ} (h : Laid db now t lo hi)
    (hreached : Reached t horizon db db' hi new start hi') :
    Extended db db' horizon t lo ↔
      horizon ≤ hi * 10 ^ 9 ∨ (partitioned t).partitionName hi ∉ db.relations := by
  constructor
  · rintro ⟨-, top, -, htiling, htop, -⟩
    rcases hreached.origin with ⟨-, hcond⟩ | ⟨rfl, hlt, -⟩
    · exact hcond
    · exfalso
      have hnext := le_next t hi
      obtain ⟨p, hp, hlower, hupper⟩ := htiling.covers h.tiling.le (by omega : hi < top)
      rw [hreached.grown.partitions] at hp
      rcases List.mem_append.mp hp with hp | hp
      · exact absurd (h.tiling.bounds hp).2.2 (not_le.mpr hupper)
      · have := (hreached.grown.tiles.bounds hp).1
        omega
  · intro hcond
    rcases hreached.origin with ⟨rfl, -⟩ | ⟨-, hlt, hname⟩
    · refine ⟨new, hi', hreached.grown.partitions, ?_, hreached.reach, hreached.grown.nodup,
        hreached.grown.fresh⟩
      rw [hreached.grown.partitions]
      exact h.tiling.append hreached.grown.tiles
    · rcases hcond with hle | hfree
      · exact absurd hle (not_le.mpr hlt)
      · exact absurd hname hfree

/-! ## Runs at the same time -/

/-- What is known of a run: while it holds the lock it has done some of the tables, starting from
what is committed, and once it has returned without an error its effect is committed. -/
def Maintainer.Holding (now horizon : ℤ) (done : Catalog) (p : Pid) (db : MaintenanceDB) :
    Maintainer → Prop
  | .extending view todo => db.lock = some p ∧
    todo.foldlM (extend now horizon) view = ensurePartitions now horizon db.committed
  | .returned true => db.committed = done
  | _ => True

/-- What a run may do to the database that another one holds the lock of, or that another one has
finished with. -/
def Interferes (done : Catalog) (p : Pid) (db db' : MaintenanceDB) : Prop :=
  (∀ q ≠ p, db.lock = some q → db' = db) ∧ (db'.committed = db.committed ∨ db'.committed = done)

lemma release_committed (db : MaintenanceDB) (p : Pid) :
    (db.release p).committed = db.committed := by
  unfold MaintenanceDB.release
  split_ifs <;> rfl

lemma interferes_release (done : Catalog) (p : Pid) (db : MaintenanceDB) :
    Interferes done p db (db.release p) := by
  refine ⟨fun q hq hlock => ?_, .inl (release_committed db p)⟩
  refine if_neg fun hlock' => hq ?_
  rw [hlock] at hlock'
  exact Option.some_inj.mp hlock'

lemma interferes_refl (done : Catalog) (p : Pid) (db : MaintenanceDB) : Interferes done p db db :=
  ⟨fun _ _ _ => rfl, .inl rfl⟩

section

variable {done : Catalog} {p : Pid} {sh sh' : MaintenanceDB} {s s' : Maintainer}

lemma Maintainer.Holding.stable {q : Pid} (hne : p ≠ q) (hinter : Interferes done p sh sh')
    (h : s.Holding now horizon done q sh) : s.Holding now horizon done q sh' := by
  cases s with
  | idle | locking => trivial
  | extending view todo =>
    rw [hinter.1 q hne.symm h.1]
    exact h
  | returned ok =>
    cases ok with
    | false => trivial
    | true =>
      have hcommitted : sh.committed = done := h
      rcases hinter.2 with heq | heq
      · exact heq.trans hcommitted
      · exact heq

lemma Maintainer.Holding.statement (h : s.Holding now horizon done p sh)
    (hact : maintainStatement now horizon p sh s = some (sh', s')) :
    sh'.committed = sh.committed ∧ s'.Holding now horizon done p sh' ∧
      Interferes done p sh sh' := by
  cases s with
  | idle | returned ok => simp [maintainStatement] at hact
  | locking =>
    rw [maintainStatement] at hact
    split_ifs at hact with hlock
    obtain ⟨rfl, rfl⟩ := Prod.mk.inj (Option.some_inj.mp hact)
    refine ⟨rfl, ⟨rfl, rfl⟩, fun q _ hq => ?_, .inl rfl⟩
    rw [hlock] at hq
    cases hq
  | extending view todo =>
    cases todo with
    | nil => simp [maintainStatement] at hact
    | cons t todo =>
      obtain ⟨hlock, hfold⟩ := h
      rw [List.foldlM_cons] at hfold
      rw [maintainStatement] at hact
      cases hextend : extend now horizon view t with
      | none =>
        simp only [hextend] at hact
        obtain ⟨rfl, rfl⟩ := Prod.mk.inj (Option.some_inj.mp hact)
        exact ⟨release_committed sh p, trivial, interferes_release done p sh⟩
      | some view' =>
        simp only [hextend] at hact
        obtain ⟨rfl, rfl⟩ := Prod.mk.inj (Option.some_inj.mp hact)
        rw [hextend] at hfold
        exact ⟨rfl, ⟨hlock, hfold⟩, interferes_refl done p sh⟩

/-- A run commits what one run makes of what is committed. -/
lemma Maintainer.Holding.commit {view : Catalog}
    (hrun : ∀ db', ensurePartitions now horizon sh.committed = some db' → db' = done)
    (h : (Maintainer.extending view []).Holding now horizon done p sh) :
    let sh' := MaintenanceDB.release { sh with committed := view } p
    sh'.committed = done ∧ Interferes done p sh sh' := by
  obtain ⟨hlock, hfold⟩ := h
  have hdone : (MaintenanceDB.release { sh with committed := view } p).committed = done := by
    rw [release_committed]
    exact hrun view hfold.symm
  refine ⟨hdone, fun q hq hlock' => ?_, .inr hdone⟩
  rw [hlock] at hlock'
  exact absurd (Option.some_inj.mp hlock').symm hq

lemma Maintainer.Holding.act {a : MaintainAction}
    (hrun : ∀ db', ensurePartitions now horizon sh.committed = some db' → db' = done)
    (h : s.Holding now horizon done p sh)
    (hact : maintainAct now horizon p sh s a = some (sh', s')) :
    (sh'.committed = sh.committed ∨ sh'.committed = done) ∧
      s'.Holding now horizon done p sh' ∧ Interferes done p sh sh' := by
  cases a with
  | start =>
    cases s with
    | idle | returned ok =>
      obtain ⟨rfl, rfl⟩ := Prod.mk.inj (Option.some_inj.mp hact)
      exact ⟨.inl rfl, trivial, interferes_refl done p sh⟩
    | locking | extending view todo => cases hact
  | exec =>
    obtain ⟨hcommitted, hrest⟩ := h.statement hact
    exact ⟨.inl hcommitted, hrest⟩
  | fail =>
    cases s with
    | idle | returned ok => cases hact
    | locking | extending view todo =>
      obtain ⟨rfl, rfl⟩ := Prod.mk.inj (Option.some_inj.mp hact)
      exact ⟨.inl (release_committed sh p), trivial, interferes_release done p sh⟩
  | commit outcome =>
    cases s with
    | idle | returned ok | locking => cases hact
    | extending view todo =>
      cases todo with
      | cons t todo => cases hact
      | nil =>
        obtain ⟨hdone, hinter⟩ := h.commit hrun
        cases outcome with
        | refused =>
          obtain ⟨rfl, rfl⟩ := Prod.mk.inj (Option.some_inj.mp hact)
          exact ⟨.inl (release_committed sh p), trivial, interferes_release done p sh⟩
        | ok =>
          obtain ⟨rfl, rfl⟩ := Prod.mk.inj (Option.some_inj.mp hact)
          exact ⟨.inr hdone, hdone, hinter⟩
        | unseen =>
          obtain ⟨rfl, rfl⟩ := Prod.mk.inj (Option.some_inj.mp hact)
          exact ⟨.inr hdone, trivial, hinter⟩

end

/-- **Any number of runs add what one adds.** -/
lemma committed_of_maintainReaches (hfirst : ensurePartitions now horizon db = some db')
    (hagain : ensurePartitions now horizon db' = some db')
    {c : Interleave.Config Pid MaintenanceDB Maintainer}
    (h : MaintainReaches now horizon (quiet db) c) :
    (c.shared.committed = db ∨ c.shared.committed = db') ∧
      ∀ p, c.procs p = .returned true → c.shared.committed = db' := by
  obtain ⟨hcommitted, hholding⟩ := Interleave.invariant
    (I := fun sh => sh.committed = db ∨ sh.committed = db')
    (P := fun p sh s => s.Holding now horizon db' p sh) (G := Interferes db')
    (.inl rfl) (fun p => trivial)
    (fun c p a sh s _ hI hP _ hact => by
      have hrun : ∀ db₁, ensurePartitions now horizon c.shared.committed = some db₁ →
          db₁ = db' := by
        intro db₁ hdb₁
        rcases hI with heq | heq
        · rw [heq, hfirst] at hdb₁
          exact (Option.some_inj.mp hdb₁).symm
        · rw [heq, hagain] at hdb₁
          exact (Option.some_inj.mp hdb₁).symm
      obtain ⟨hsh, hrest⟩ := (hP p).act hrun hact
      refine ⟨?_, hrest⟩
      rcases hsh with heq | heq
      · rwa [heq]
      · exact .inr heq)
    (fun p q sh sh' s hne _ _ hinter hq => hq.stable hne hinter) h
  refine ⟨hcommitted, fun p hp => ?_⟩
  have := hholding p
  rw [hp] at this
  exact this

/-! ## Where the name is free -/

/-- A tiling with nothing beyond its end: the next name is free. -/
structure Tiled (db : Catalog) (t : Table) (lo hi : ℤ) : Prop where
  tiling : Tiling Partition.lower Partition.upper (db.partitions t) lo hi
  below : Below db t hi

lemma Tiled.free (h : Tiled db t lo hi) : (partitioned t).partitionName hi ∉ db.relations :=
  fun hmem => absurd (h.below.names hi hmem) (lt_irrefl _)

lemma Tiled.laid (h : Tiled db t lo hi) (hempty : db.partitions t = [] → hi = weekStart now) :
    Laid db now t lo hi where
  tiling := h.tiling
  empty := hempty
  names s hs := by
    refine ⟨s, lt_of_not_ge fun hle => ?_, rfl⟩
    exact absurd (h.below.names s hs) (not_lt.mpr (Layout.unit_mono _ hle))

lemma Tiled.congr (hsame : Same t db db') (h : Tiled db t lo hi) : Tiled db' t lo hi :=
  ⟨hsame.partitions ▸ h.tiling, h.below.congr hsame⟩

/-- **After a run that left no gap the next name is free.** -/
theorem Reached.tiled {hi' : ℤ} (h : Laid db now t lo hi)
    (hfree : (partitioned t).partitionName hi ∉ db.relations)
    (hreached : Reached t horizon db db' hi new start hi') : Tiled db' t lo hi' := by
  refine ⟨?_, hreached.below hfree⟩
  rcases hreached.origin with ⟨rfl, -⟩ | ⟨-, -, hname⟩
  · rw [hreached.grown.partitions]
    exact h.tiling.append hreached.grown.tiles
  · exact absurd hname hfree

/-- The migration makes the partition at the end of a tiling. -/
lemma Tiled.createTable (h : Tiled db t lo hi) :
    ∃ db', createTable t (partitionFrom t hi) db = some db' ∧
      Tiled db' t lo ((partitioned t).next hi) ∧ db'.partitions t ≠ [] ∧
      ∀ t' ≠ t, Same t' db db' := by
  obtain ⟨hfree, db', hcreate, hgrown, hbelow, hothers⟩ := create_of_below h.below
  have hname : (partitionFrom t hi).name ∉ db.relations := hfree
  refine ⟨db', by rw [Partitions.createTable, if_neg hname, hcreate], ⟨?_, hbelow⟩, ?_, hothers⟩
  · rw [hgrown.partitions]
    exact h.tiling.append hgrown.tiles
  · rw [hgrown.partitions]
    simp

lemma exists_foldlM_range {σ : Type} {f : σ → ℕ → Option σ} {P : ℕ → σ → Prop} {s : σ} (h₀ : P 0 s)
    (hstep : ∀ i s, P i s → ∃ s', f s i = some s' ∧ P (i + 1) s') (n : ℕ) :
    ∃ s', (List.range n).foldlM f s = some s' ∧ P n s' := by
  induction n with
  | zero => exact ⟨s, rfl, h₀⟩
  | succ n ih =>
    obtain ⟨s₁, hfold, h₁⟩ := ih
    obtain ⟨s', hf, h'⟩ := hstep n s₁ h₁
    exact ⟨s', by simp [List.range_succ, hfold, hf], h'⟩

/-- The week `i` of the migration. -/
def weekBound (now : ℤ) (i : ℕ) : ℤ := weekStart now + i * 7 * 86400

lemma next_weekBound (ht : t ≠ .payloadAccessAudit) (i : ℕ) :
    (partitioned t).next (weekBound now i) = weekBound now (i + 1) := by
  cases t with
  | payloadAccessAudit => exact absurd rfl ht
  | writeIntents | conflicts =>
    change addDate _ 0 7 = _
    rw [addDate_days, weekBound, weekBound]
    push_cast
    ring

lemma migrateWeek_utc {i : ℕ} (hintents : Tiled db .writeIntents (weekStart now) (weekBound now i))
    (hconflicts : Tiled db .conflicts (weekStart now) (weekBound now i)) :
    ∃ db', migrateWeek (Zone.fixed 0) now db i = some db' ∧
      Tiled db' .writeIntents (weekStart now) (weekBound now (i + 1)) ∧
      Tiled db' .conflicts (weekStart now) (weekBound now (i + 1)) ∧
      db'.partitions .writeIntents ≠ [] ∧ db'.partitions .conflicts ≠ [] ∧
      Same .payloadAccessAudit db db' := by
  have hlo : (Zone.fixed 0).addDays (weekStart now) (i * 7) = weekBound now i := by
    simp [Zone.fixed, Zone.addDays, weekBound]
  have hhi : (Zone.fixed 0).addDays (weekBound now i) 7 = weekBound now (i + 1) := by
    simp only [Zone.fixed, Zone.addDays, weekBound]
    push_cast
    ring
  obtain ⟨db₁, hcreate₁, htiled₁, hnil₁, hothers₁⟩ := hintents.createTable
  obtain ⟨db₂, hcreate₂, htiled₂, hnil₂, hothers₂⟩ :=
    (hconflicts.congr (hothers₁ _ (by decide))).createTable
  rw [partitionFrom, next_weekBound (by decide)] at hcreate₁ hcreate₂
  rw [next_weekBound (by decide)] at htiled₁ htiled₂
  have hsame := hothers₂ .writeIntents (by decide)
  refine ⟨db₂, ?_, htiled₁.congr hsame, htiled₂, hsame.partitions ▸ hnil₁, hnil₂,
    (hothers₁ _ (by decide)).trans (hothers₂ _ (by decide))⟩
  simp only [migrateWeek, hlo, hhi, hcreate₁, hcreate₂, Option.bind_eq_bind, Option.bind_some]

/-- The month `i` of the migration. -/
def monthBound (now : ℤ) (i : ℕ) : ℤ := instant (monthStart ((date now).monthIndex + i)) 0

lemma date_instant_monthStart (m : ℤ) : (date (instant (monthStart m) 0)).monthIndex = m ∧
    (date (instant (monthStart m) 0)).day = 1 := by
  rw [date, dayOf_instant (by decide)]
  exact ofDays_monthStart m

lemma instant_emod (day : ℤ) : instant day 0 % 86400 = 0 := by
  unfold instant
  omega

lemma addMonths_instant (m : ℤ) (n : ℕ) :
    (Zone.fixed 0).addMonths (instant (monthStart m) 0) n = instant (monthStart (m + n)) 0 := by
  obtain ⟨hindex, hday⟩ := date_instant_monthStart m
  have hlength := le_monthLength (m + n)
  simp only [Zone.fixed, Zone.addMonths, add_zero, sub_zero, hindex, hday, instant_emod]
  rw [min_eq_left (by omega), Nat.cast_one, sub_self, add_zero]

lemma next_monthBound (i : ℕ) :
    (partitioned .payloadAccessAudit).next (monthBound now i) = monthBound now (i + 1) := by
  change addDate _ 1 0 = _
  obtain ⟨hindex, hday⟩ := date_instant_monthStart ((date now).monthIndex + i)
  simp only [monthBound, addDate, hindex, hday, instant_emod]
  push_cast
  ring_nf

lemma migrateMonth_utc {i : ℕ}
    (h : Tiled db .payloadAccessAudit (monthBegin now) (monthBound now i)) :
    ∃ db', migrateMonth (Zone.fixed 0) now db i = some db' ∧
      Tiled db' .payloadAccessAudit (monthBegin now) (monthBound now (i + 1)) ∧
      db'.partitions .payloadAccessAudit ≠ [] ∧ ∀ t ≠ .payloadAccessAudit, Same t db db' := by
  have hlo : (Zone.fixed 0).addMonths (monthBegin now) i = monthBound now i :=
    addMonths_instant _ i
  have hhi : (Zone.fixed 0).addMonths (monthBound now i) 1 = monthBound now (i + 1) := by
    rw [monthBound, addMonths_instant, monthBound]
    push_cast
    ring_nf
  obtain ⟨db', hcreate, htiled, hnil, hothers⟩ := h.createTable
  rw [partitionFrom, next_monthBound] at hcreate
  rw [next_monthBound] at htiled
  exact ⟨db', by simp only [migrateMonth, hlo, hhi, hcreate], htiled, hnil, hothers⟩

/-- No partition yet, and no relation with the name of one. -/
structure Blank (db : Catalog) : Prop where
  partitions : ∀ t, db.partitions t = []
  names : ∀ t s, (partitioned t).partitionName s ∉ db.relations

lemma Blank.tiled (h : Blank db) (t : Table) (b : ℤ) : Tiled db t b b where
  tiling := ⟨[], by rw [h.partitions], rfl⟩
  below := ⟨by simp [h.partitions], fun s hs => absurd hs (h.names t s)⟩

/-- **A migration in UTC leaves tilings with free names at their ends**, from which runs leave no
gap. -/
theorem migrate_utc (h : Blank db) (now : ℤ) :
    ∃ db', migrate (Zone.fixed 0) now db = some db' ∧
      ∀ t, ∃ lo hi, Tiled db' t lo hi ∧ db'.partitions t ≠ [] := by
  obtain ⟨db₁, hweeks, hintents, hconflicts, hblank, hnil⟩ := exists_foldlM_range
    (f := migrateWeek (Zone.fixed 0) now)
    (P := fun i db' => Tiled db' .writeIntents (weekStart now) (weekBound now i) ∧
      Tiled db' .conflicts (weekStart now) (weekBound now i) ∧ Same .payloadAccessAudit db db' ∧
      (0 < i → db'.partitions .writeIntents ≠ [] ∧ db'.partitions .conflicts ≠ []))
    (by
      have hstart : weekBound now 0 = weekStart now := by simp [weekBound]
      rw [hstart]
      exact ⟨h.tiled _ _, h.tiled _ _, Same.refl _ db, fun hlt => absurd hlt (lt_irrefl 0)⟩)
    (by
      rintro i db₁ ⟨hintents, hconflicts, hsame, -⟩
      obtain ⟨db₂, hweek, hintents', hconflicts', hnil, hnil', hsame'⟩ :=
        migrateWeek_utc hintents hconflicts
      exact ⟨db₂, hweek, hintents', hconflicts', hsame.trans hsame', fun _ => ⟨hnil, hnil'⟩⟩) 12
  obtain ⟨hnilIntents, hnilConflicts⟩ := hnil (by decide)
  obtain ⟨db₂, hmonths, haudit, hothers, hnilAudit⟩ := exists_foldlM_range
    (f := migrateMonth (Zone.fixed 0) now)
    (P := fun i db' => Tiled db' .payloadAccessAudit (monthBegin now) (monthBound now i) ∧
      (∀ t ≠ .payloadAccessAudit, Same t db₁ db') ∧
      (0 < i → db'.partitions .payloadAccessAudit ≠ []))
    (by
      have hstart : monthBound now 0 = monthBegin now := by simp [monthBound, monthBegin]
      rw [hstart]
      exact ⟨(h.tiled _ _).congr hblank, fun t _ => Same.refl t db₁,
        fun hlt => absurd hlt (lt_irrefl 0)⟩)
    (by
      rintro i db₂ ⟨haudit, hothers, -⟩
      obtain ⟨db₃, hmonth, haudit', hnil, hothers'⟩ := migrateMonth_utc haudit
      exact ⟨db₃, hmonth, haudit', fun t ht => (hothers t ht).trans (hothers' t ht),
        fun _ => hnil⟩) 3
  refine ⟨db₂, by simp only [migrate, hweeks, hmonths, Option.bind_eq_bind, Option.bind_some],
    fun t => ?_⟩
  cases t with
  | writeIntents =>
    have hsame := hothers .writeIntents (by decide)
    exact ⟨_, _, hintents.congr hsame, hsame.partitions ▸ hnilIntents⟩
  | conflicts =>
    have hsame := hothers .conflicts (by decide)
    exact ⟨_, _, hconflicts.congr hsame, hsame.partitions ▸ hnilConflicts⟩
  | payloadAccessAudit => exact ⟨_, _, haudit, hnilAudit (by decide)⟩

/-! ## No gap -/

/-- **Runs leave no gap where the name for the end of a tiling is free.** On tables that are tiled a
run succeeds; it extends every tiling to the horizon, under names that are new, if and only if each
table reaches the horizon already or its next name is free; and any number of runs with this
horizon, one after the other or at the same time, add what the one adds. -/
theorem ensurePartitions_extends_iff (now horizon : ℤ) {lo hi : Table → ℤ}
    (hlaid : ∀ t, Laid db now t (lo t) (hi t)) :
    ∃ db', ensurePartitions now horizon db = some db' ∧
      ((∀ t, Extended db db' horizon t (lo t)) ↔
        ∀ t, horizon ≤ hi t * 10 ^ 9 ∨ (partitioned t).partitionName (hi t) ∉ db.relations) ∧
      ∀ c, MaintainReaches now horizon (quiet db) c →
        (c.shared.committed = db ∨ c.shared.committed = db') ∧
          ∀ p, c.procs p = .returned true → c.shared.committed = db' := by
  obtain ⟨db', hfirst, hreached, hagain⟩ := ensurePartitions_reached horizon hlaid
  refine ⟨db', hfirst, forall_congr' fun t => ?_, fun c hc =>
    committed_of_maintainReaches hfirst hagain hc⟩
  obtain ⟨new, start, hi', hreached⟩ := hreached t
  exact hreached.extended_iff (hlaid t)

/-- A database without partitions. -/
def noPartitions : Catalog := ⟨[], fun _ => []⟩

/-- After a migration in UTC on 15 January 2026, a run on 10 February for 8 weeks ahead. -/
theorem ensurePartitions_extends_utc :
    ∃ db, migrate (Zone.fixed 0) 1768435200 noPartitions = some db ∧
    ∃ db', ensurePartitions 1770681600 (1775520000 * 10 ^ 9) db = some db' ∧
      ∀ t, ∃ lo, Extended db db' (1775520000 * 10 ^ 9) t lo := by
  have hblank : Blank noPartitions := ⟨fun _ => rfl, fun _ _ => List.not_mem_nil⟩
  obtain ⟨db, hmigrate, htiled⟩ := migrate_utc hblank 1768435200
  choose lo hi htiled hnil using htiled
  obtain ⟨db', hrun, hiff, -⟩ := ensurePartitions_extends_iff 1770681600 (1775520000 * 10 ^ 9)
    fun t => (htiled t).laid fun hempty => absurd hempty (hnil t)
  exact ⟨db, hmigrate, db', hrun, fun t => ⟨lo t, hiff.mpr (fun t => .inr (htiled t).free) t⟩⟩

/-- A catalog in which every relation is an attached partition, named by its lower bound. -/
lemma laid_of_named {lo hi : Table → ℤ}
    (htiles : ∀ t, Tiles Partition.lower Partition.upper (db.partitions t) (lo t) (hi t))
    (hnil : ∀ t, db.partitions t ≠ [])
    (hnamed : ∀ n ∈ db.relations, ∃ t, ∃ p ∈ db.partitions t,
      n = (partitioned t).partitionName p.lower) (t : Table) : Laid db now t (lo t) (hi t) where
  tiling := ⟨_, .refl _, htiles t⟩
  empty hempty := absurd hempty (hnil t)
  names s hs := by
    obtain ⟨t', p, hp, hname⟩ := hnamed _ hs
    obtain rfl : t = t' := by
      by_contra hne
      exact partitionName_ne hne s p.lower hname
    obtain ⟨-, hlt, hle⟩ := (htiles t).bounds hp
    exact ⟨p.lower, hlt.trans_le hle, hname.symm⟩

/-- The ends of the tilings that the migration of 15 January 2026 lays down five hours west of UTC:
weeks from 12 January to 6 April, and months from 1 January to 29 March. -/
def westLo : Table → ℤ
  | .writeIntents | .conflicts => 1768176000
  | .payloadAccessAudit => 1767225600

@[inherit_doc westLo]
def westHi : Table → ℤ
  | .writeIntents | .conflicts => 1775433600
  | .payloadAccessAudit => 1774742400

/-- **A gap.** Five hours west of UTC, the migration of 15 January 2026 lays down tilings. A run on
10 February for 8 weeks ahead succeeds, and leaves 29 March without a partition for the rows of
`payload_access_audit`. -/
theorem ensurePartitions_leaves_gap : ∃ db db',
    migrate (Zone.fixed (-5 * 3600)) 1768435200 noPartitions = some db ∧
    (∀ t, Laid db 1770681600 t (westLo t) (westHi t)) ∧
    ensurePartitions 1770681600 (1775520000 * 10 ^ 9) db = some db' ∧
    ¬Extended db db' (1775520000 * 10 ^ 9) .payloadAccessAudit (westLo .payloadAccessAudit) ∧
    ∀ p ∈ db'.partitions .payloadAccessAudit, ¬(p.lower ≤ 1774742400 ∧ 1774742400 < p.upper) := by
  obtain ⟨db, hmigrate⟩ :
      ∃ db, migrate (Zone.fixed (-5 * 3600)) 1768435200 noPartitions = some db :=
    Option.isSome_iff_exists.mp (by decide +kernel)
  have hfacts : (migrate (Zone.fixed (-5 * 3600)) 1768435200 noPartitions).all fun db =>
      (∀ t ∈ tables,
        Tiles Partition.lower Partition.upper (db.partitions t) (westLo t) (westHi t)) ∧
      (∀ t ∈ tables, db.partitions t ≠ []) ∧
      (∀ n ∈ db.relations, ∃ t ∈ tables, ∃ p ∈ db.partitions t,
        n = (partitioned t).partitionName p.lower) ∧
      (partitioned .payloadAccessAudit).partitionName (westHi .payloadAccessAudit) ∈
        db.relations := by decide +kernel
  rw [hmigrate, Option.all_some, decide_eq_true_eq] at hfacts
  obtain ⟨htiles, hnil, hnamed, htaken⟩ := hfacts
  have hlaid : ∀ t, Laid db 1770681600 t (westLo t) (westHi t) := by
    refine laid_of_named (fun t => htiles t (mem_tables t)) (fun t => hnil t (mem_tables t)) ?_
    intro n hn
    obtain ⟨t, -, p, hp, hname⟩ := hnamed n hn
    exact ⟨t, p, hp, hname⟩
  obtain ⟨db', hrun, hreached, -⟩ := ensurePartitions_reached (1775520000 * 10 ^ 9) hlaid
  obtain ⟨new, start, hi', hreached⟩ := hreached .payloadAccessAudit
  refine ⟨db, db', hmigrate, hlaid, hrun, ?_, ?_⟩
  · rw [hreached.extended_iff (hlaid _)]
    rintro (hle | hfree)
    · exact absurd hle (by decide)
    · exact hfree htaken
  · have hgap : ((migrate (Zone.fixed (-5 * 3600)) 1768435200 noPartitions).bind
        (ensurePartitions 1770681600 (1775520000 * 10 ^ 9))).all fun db' =>
        ∀ p ∈ db'.partitions .payloadAccessAudit,
          ¬(p.lower ≤ 1774742400 ∧ 1774742400 < p.upper) := by
      decide +kernel
    rwa [hmigrate, Option.bind_some, hrun, Option.all_some, decide_eq_true_eq] at hgap

end Idemio.Partitions
