import Idemio.Base.Binary64
import Idemio.Config
import Idemio.System.Locking

set_option relaxedAutoImplicit false
set_option autoImplicit false

/-!
# The pace of expiry

`ExpireKeys` deletes keys past retention, a thousand at a time, and waits between two batches so as
to delete no more rows a second than it was told to. The wait is computed in double precision. The
loop ends when a batch is short, when its budget is used up, or with an error.

## Main definitions

* `Idemio.expireInterval` — the wait between two batches.
* `Idemio.Batch`, `Idemio.Batch.result` — what comes of an `expireBatch`.
* `Idemio.Turn`, `Idemio.expireLoop` — the loop.

## Main results

* `Idemio.expireInterval_near` — the wait is within two nanoseconds of what was asked for.
* `Idemio.expireKeys_paced` — the loop ends, keeps to the pace, says how many rows it has deleted,
  and ends early without an error only if nothing is left to delete.

## Design

A turn comes with the time it takes and the database as its statement finds it: other processes may
have changed it since the turn before. The loop adds its wait; a timer may be late, never early. The
clock is the monotonic one, in nanoseconds.
-/

namespace Idemio

/-! ## The wait -/

/-- `time.Duration(float64(batchSize) / float64(r.RowsPerSecond) * float64(time.Second))`. -/
def expireInterval (rowsPerSecond : ℤ) : Duration :=
  let perBatch := Binary64.round (batchSize / Binary64.round rowsPerSecond)
  let q := Binary64.round (perBatch * Binary64.round second.toInt)
  Int64.ofInt (if 0 ≤ q then ⌊q⌋ else ⌈q⌉)

variable {rowsPerSecond : ℤ}

/-- What the double is before it is cut off. -/
lemma abs_round_interval_sub_le (hpos : 0 < rowsPerSecond) :
    |Binary64.round (Binary64.round (1000 / rowsPerSecond) * 10 ^ 9) -
      10 ^ 12 / rowsPerSecond| ≤ 1 / 2 := by
  have hone : (1 : ℚ) ≤ rowsPerSecond := by exact_mod_cast hpos
  have hquot : |(1000 : ℚ) / rowsPerSecond| ≤ 1000 := by
    rw [abs_of_nonneg (by positivity)]
    exact div_le_self (by norm_num) hone
  have hfirst : |Binary64.round (1000 / rowsPerSecond) - 1000 / rowsPerSecond| ≤
      2 ^ (-43 : ℤ) / 2 :=
    Binary64.abs_round_sub_le_of_lt (by norm_num) (hquot.trans_lt (by norm_num))
  norm_num at hfirst
  obtain ⟨hlow, hhigh⟩ := abs_le.mp hfirst
  obtain ⟨hqlow, hqhigh⟩ := abs_le.mp hquot
  have hsecond : |Binary64.round (Binary64.round (1000 / rowsPerSecond) * 10 ^ 9) -
      Binary64.round (1000 / rowsPerSecond) * 10 ^ 9| ≤ 2 ^ (-12 : ℤ) / 2 := by
    refine Binary64.abs_round_sub_le_of_lt (by norm_num) ?_
    rw [abs_lt]
    norm_num
    constructor <;> linarith
  norm_num at hsecond
  obtain ⟨hlow', hhigh'⟩ := abs_le.mp hsecond
  have hscale : (10 : ℚ) ^ 12 / rowsPerSecond = 1000 / rowsPerSecond * 10 ^ 9 := by ring
  rw [hscale, abs_le]
  constructor <;> linarith

/-- The double is cut to whole nanoseconds; nothing overflows on the way. -/
lemma toInt_expireInterval (hpos : 0 < rowsPerSecond) (hle : rowsPerSecond ≤ 2 ^ 53) :
    (expireInterval rowsPerSecond).toInt =
      ⌊Binary64.round (Binary64.round (1000 / rowsPerSecond) * 10 ^ 9)⌋ := by
  have hone : (1 : ℚ) ≤ rowsPerSecond := by exact_mod_cast hpos
  have hrate : Binary64.round rowsPerSecond = rowsPerSecond :=
    Binary64.round_intCast (by rwa [abs_of_pos hpos])
  have hsecond : Binary64.round (second.toInt : ℤ) = 10 ^ 9 := by
    rw [show second.toInt = 10 ^ 9 by decide, Binary64.round_intCast (by decide)]
    norm_num
  have hbatch : ((batchSize : ℕ) : ℚ) = 1000 := by norm_num [batchSize]
  rw [expireInterval, hrate, hsecond, hbatch]
  have hnear := abs_le.mp (abs_round_interval_sub_le hpos)
  set q := Binary64.round (Binary64.round (1000 / rowsPerSecond) * 10 ^ 9)
  have hnonneg : 0 ≤ q :=
    Binary64.round_nonneg (mul_nonneg (Binary64.round_nonneg (by positivity)) (by norm_num))
  have hsmall : ⌊q⌋ < 2 ^ 63 := by
    have hquot : (10 : ℚ) ^ 12 / rowsPerSecond ≤ 10 ^ 12 := div_le_self (by norm_num) hone
    have hfloor : (⌊q⌋ : ℚ) ≤ q := Int.floor_le q
    have hcast : (⌊q⌋ : ℚ) < 2 ^ 63 := by norm_num; linarith
    exact_mod_cast hcast
  have hfloor : 0 ≤ ⌊q⌋ := Int.floor_nonneg.mpr hnonneg
  rw [if_pos hnonneg]
  exact Int64.toInt_ofInt_of_le (by omega) hsmall

/-- **The wait is what was asked for**, to less than two nanoseconds. -/
lemma expireInterval_near (hpos : 0 < rowsPerSecond) (hle : rowsPerSecond ≤ 2 ^ 53) :
    0 ≤ (expireInterval rowsPerSecond).toInt ∧
    |(expireInterval rowsPerSecond).toInt * rowsPerSecond - 10 ^ 12| ≤ 2 * rowsPerSecond := by
  have hrate : (0 : ℚ) < rowsPerSecond := by exact_mod_cast hpos
  have hnear := abs_le.mp (abs_round_interval_sub_le hpos)
  rw [toInt_expireInterval hpos hle]
  set q := Binary64.round (Binary64.round (1000 / rowsPerSecond) * 10 ^ 9)
  have hupper : (⌊q⌋ : ℚ) ≤ q := Int.floor_le q
  have hlower : q < ⌊q⌋ + 1 := Int.lt_floor_add_one q
  refine ⟨Int.floor_nonneg.mpr ?_, ?_⟩
  · exact Binary64.round_nonneg
      (mul_nonneg (Binary64.round_nonneg (by positivity)) (by norm_num))
  · have hscaled : (10 : ℚ) ^ 12 = 10 ^ 12 / rowsPerSecond * rowsPerSecond := by
      field_simp
    have hcast : |(⌊q⌋ : ℚ) * (rowsPerSecond : ℚ) - 10 ^ 12| ≤ 2 * (rowsPerSecond : ℚ) := by
      rw [hscaled, ← sub_mul, abs_mul, abs_of_pos hrate]
      refine mul_le_mul_of_nonneg_right (abs_le.mpr ⟨?_, ?_⟩) hrate.le <;> linarith
    exact_mod_cast hcast

/-! ## A batch -/

/-- What comes of an `expireBatch`, with the rows that are gone. -/
inductive Batch
  /-- The statement succeeds; `failure` is the error of `results.Delete`, if it is called. -/
  | deleted (rows : List (KeyID × KeyRow)) (failure : Option String)
  /-- A row cannot be scanned. The statement is not undone by that. -/
  | unscanned (rows : List (KeyID × KeyRow)) (failure : String)
  /-- The statement reports an error, whether or not it takes effect. -/
  | failed (rows : List (KeyID × KeyRow)) (failure : String)

/-- The rows that are gone. -/
def Batch.rows : Batch → List (KeyID × KeyRow)
  | .deleted rows _ => rows
  | .unscanned rows _ => rows
  | .failed rows _ => rows

/-- What `expireBatch` returns: the number of rows or an error. -/
def Batch.result : Batch → Except String ℕ
  | .deleted rows none => .ok rows.length
  | .deleted _ (some failure) => .error ("delete expired results: " ++ failure)
  | .unscanned _ failure => .error ("scan expired key: " ++ failure)
  | .failed _ failure => .error ("expire keys: " ++ failure)

/-! ## The loop -/

/-- A turn of the loop. -/
structure Turn where
  /-- The time that goes by before the loop reads the clock: since the deadline was set, or since
  the timer of the turn before was to fire. -/
  late : ℕ
  /-- The database as the statement finds it. -/
  db : Database
  /-- `now()` of the statement. -/
  selectedAt : Time
  batch : Batch
  /-- How long `expireBatch` takes. -/
  took : ℕ
  /-- The error of the context, if it is done before the wait is over. -/
  done : Option String

/-- What `ExpireKeys` returns, the clock as it read it last, and the turns in which it executed its
statement. -/
structure Expiry where
  deleted : ℕ
  failure : Option String
  now : ℤ
  ran : List Turn

/-- The loop of `ExpireKeys`, for as long as there are turns. A timer for no time or less fires at
once. -/
def expireLoop (interval deadline now : ℤ) (deleted : ℕ) : List Turn → Option Expiry
  | [] => none
  | t :: turns =>
    let now := now + t.late
    if now < deadline then
      match t.batch.result with
      | .error failure => some ⟨deleted, some failure, now, [t]⟩
      | .ok count =>
        if count < batchSize then some ⟨deleted + count, none, now, [t]⟩
        else
          match t.done with
          | some failure => some ⟨deleted + count, some failure, now, [t]⟩
          | none =>
            -- `time.After(interval)`, which is set once the batch is done.
            let next := now + t.took + max 0 interval
            (expireLoop interval deadline next (deleted + count) turns).map fun x =>
              { x with ran := t :: x.ran }
    else some ⟨deleted, none, now, []⟩

/-- `ExpireKeys`, begun at the time `start`. -/
def expireKeys (rowsPerSecond start : ℤ) (budget : Duration) (turns : List Turn) : Option Expiry :=
  expireLoop (expireInterval rowsPerSecond).toInt (start + budget.toInt) start 0 turns

/-- The statement of the turn deletes rows that it has selected, or has failed and deletes none. -/
def Turn.Valid (env : Env) (t : Turn) : Prop :=
  SelectExpired env t.db t.selectedAt t.batch.rows ∨ ∃ failure, t.batch = .failed [] failure

/-- The rows that are gone after some turns. -/
def goneRows (turns : List Turn) : ℕ := (turns.map (·.batch.rows.length)).sum

variable {env : Env} {t : Turn} {turns : List Turn} {x : Expiry} {interval deadline now start : ℤ}
  {deleted : ℕ}

lemma Turn.Valid.length_le (h : t.Valid env) : t.batch.rows.length ≤ batchSize := by
  rcases h with hselect | ⟨failure, heq⟩
  · exact hselect.short
  · rw [heq]
    exact Nat.zero_le _

lemma goneRows_le (h : ∀ t ∈ turns, t.Valid env) : goneRows turns ≤ turns.length * batchSize := by
  refine (List.sum_le_card_nsmul _ batchSize fun n hn => ?_).trans_eq (by simp)
  obtain ⟨t, ht, rfl⟩ := List.mem_map.mp hn
  exact (h t ht).length_le

lemma goneRows_cons : goneRows (t :: turns) = t.batch.rows.length + goneRows turns := by
  simp [goneRows]

/-- A count is that of the rows that are gone. -/
lemma length_of_result {b : Batch} {count : ℕ} (h : b.result = .ok count) :
    b.rows.length = count := by
  cases b with
  | deleted rows failure =>
    cases failure with
    | none => exact Except.ok.inj h
    | some failure => cases h
  | unscanned | failed => cases h

/-- A statement that returns less than a batch has left nothing behind that it was to delete. -/
lemma Turn.Valid.complete (h : t.Valid env) {count : ℕ} (hresult : t.batch.result = .ok count)
    (hshort : count < batchSize) {k : KeyID} {row : KeyRow}
    (hrow : (expireApply t.batch.rows t.db).keys.lookup k = some row) :
    pastRetention env t.selectedAt row = false := by
  rcases h with hselect | ⟨failure, heq⟩
  · rw [lookup_expireApply] at hrow
    split at hrow
    · cases hrow
    · next hk =>
      -- A row that matches and was not selected is one for which there was no room.
      by_contra hpast
      have hfull := (hselect.complete ⟨k, row⟩ (AList.mem_lookup_iff.mp hrow)
        (Bool.eq_true_of_not_eq_false hpast) hk).1
      rw [length_of_result hresult] at hfull
      exact Nat.ne_of_lt hshort hfull
  · rw [heq] at hresult
    cases hresult

/-- What is known of the outcome of the loop. -/
structure Accounts (env : Env) (interval deadline now : ℤ) (deleted : ℕ) (turns : List Turn)
    (x : Expiry) : Prop where
  first : x.ran <+: turns
  paced : x.ran ≠ [] → (x.ran.length - 1) * interval < deadline - now
  counted : x.failure = none → x.deleted = deleted + goneRows x.ran
  le : x.deleted ≤ deleted + goneRows x.ran
  ge : deleted + goneRows x.ran ≤ x.deleted + batchSize
  ended : x.failure = none → deadline ≤ x.now ∨ ∃ t, x.ran.getLast? = some t ∧
    ∀ k row, (expireApply t.batch.rows t.db).keys.lookup k = some row →
      pastRetention env t.selectedAt row = false

/-- One more turn before those that ran: its statement begins before the deadline, and the others
come after its wait. -/
lemma paced_cons (hnow : now + t.late < deadline)
    (h : turns ≠ [] →
      (turns.length - 1) * interval < deadline - (now + t.late + t.took + max 0 interval)) :
    ((t :: turns).length - 1) * interval < deadline - now := by
  have hwait : interval ≤ max 0 interval := le_max_right _ _
  rcases eq_or_ne turns [] with rfl | hne
  · simp
    omega
  · have hlt := h hne
    simp only [List.length_cons, Nat.cast_add, Nat.cast_one]
    linarith

/-- **What the loop says is what it did.** -/
lemma accounts_of_loop (hvalid : ∀ t ∈ turns, t.Valid env)
    (h : expireLoop interval deadline now deleted turns = some x) :
    Accounts env interval deadline now deleted turns x := by
  induction turns generalizing now deleted x with
  | nil => cases h
  | cons t turns ih =>
    obtain ⟨hhead, htail⟩ := List.forall_mem_cons.mp hvalid
    have hlength := hhead.length_le
    have hone : [t] <+: t :: turns := ⟨turns, rfl⟩
    rw [expireLoop] at h
    split at h
    · next hnow =>
      have hpaced : [t] ≠ [] → ([t].length - 1) * interval < deadline - now := fun _ =>
        paced_cons hnow (absurd rfl)
      split at h
      · -- The rows of a batch that ends with an error are not counted.
        cases h
        refine ⟨hone, hpaced, nofun, Nat.le_add_right _ _, ?_, nofun⟩
        simpa [goneRows] using hlength
      · next count hresult =>
        have hcount := length_of_result hresult
        split at h
        · next hshort =>
          cases h
          refine ⟨hone, hpaced, fun _ => ?_, ?_, ?_, fun _ => .inr ⟨t, rfl, fun k row hrow => ?_⟩⟩
          · simp [goneRows, hcount]
          · simp [goneRows, hcount]
          · simp [goneRows, hcount]
          · exact hhead.complete hresult hshort hrow
        · split at h
          · cases h
            refine ⟨hone, hpaced, nofun, ?_, ?_, nofun⟩
            · simp [goneRows, hcount]
            · simp [goneRows, hcount]
          · obtain ⟨y, hy, rfl⟩ := Option.map_eq_some_iff.mp h
            have hrest := ih htail hy
            have hsum : deleted + goneRows (t :: y.ran) = deleted + count + goneRows y.ran := by
              rw [goneRows_cons, hcount, Nat.add_assoc]
            refine ⟨List.cons_prefix_cons.mpr ⟨rfl, hrest.first⟩,
              fun _ => paced_cons hnow hrest.paced, fun hnone => ?_, ?_, ?_, fun hnone => ?_⟩
            · exact (hrest.counted hnone).trans hsum.symm
            · exact hsum ▸ hrest.le
            · exact hsum ▸ hrest.ge
            · refine (hrest.ended hnone).imp_right fun ⟨t', hlast, hleft⟩ => ⟨t', ?_, hleft⟩
              rw [List.getLast?_cons, hlast]
              rfl
    · next hnow =>
      cases h
      exact ⟨List.nil_prefix, absurd rfl, fun _ => rfl, Nat.le_refl _, Nat.le_add_right _ _,
        fun _ => .inl (Int.not_lt.mp hnow)⟩

/-- The rows that go beyond the first batch take a wait for each batch. -/
lemma Accounts.goneRows_le (h : Accounts env interval deadline now deleted turns x)
    (hvalid : ∀ t ∈ turns, t.Valid env) (hinterval : 0 ≤ interval) (hbudget : now ≤ deadline) :
    (goneRows x.ran - 1000) * interval ≤ 1000 * (deadline - now) := by
  rcases eq_or_ne x.ran [] with hnil | hne
  · rw [hnil]
    simp only [goneRows, List.map_nil, List.sum_nil, Nat.cast_zero]
    omega
  · have hrows : (goneRows x.ran : ℤ) ≤ x.ran.length * 1000 := by
      exact_mod_cast Idemio.goneRows_le fun t ht => hvalid t (h.first.subset ht)
    have hlt := h.paced hne
    calc (goneRows x.ran - 1000) * interval
        ≤ (1000 * (x.ran.length - 1)) * interval :=
          mul_le_mul_of_nonneg_right (by linarith) hinterval
      _ = 1000 * ((x.ran.length - 1) * interval) := by ring
      _ ≤ 1000 * (deadline - now) := by linarith

/-- The loop ends when all the waits it has turns for take it to the deadline. -/
lemma exists_expireLoop (hne : turns ≠ [])
    (hlong : deadline - now ≤ (turns.length - 1) * interval) :
    ∃ x, expireLoop interval deadline now deleted turns = some x := by
  induction turns generalizing now deleted with
  | nil => exact absurd rfl hne
  | cons t turns ih =>
    rw [expireLoop]
    split
    · next hnow =>
      split
      · exact ⟨_, rfl⟩
      · next count _ =>
        split
        · exact ⟨_, rfl⟩
        · split
          · exact ⟨_, rfl⟩
          · -- The deadline is still to come, so there is a wait left, and a turn after it.
            have hwait : interval ≤ max 0 interval := le_max_right _ _
            simp only [List.length_cons, Nat.cast_add, Nat.cast_one] at hlong
            have hturns : turns ≠ [] := by
              rintro rfl
              simp at hlong
              omega
            have hrest : ∃ y, expireLoop interval deadline
                (now + t.late + t.took + max 0 interval) (deleted + count) turns = some y :=
              ih hturns (by linarith)
            obtain ⟨y, hy⟩ := hrest
            exact ⟨_, Option.map_eq_some_iff.mpr ⟨y, hy, rfl⟩⟩
    · exact ⟨_, rfl⟩

/-- **Expiry keeps to its pace, and to its word.** Whatever other processes do between two batches,
however long statements take, however late timers fire and whichever statement fails: `ExpireKeys`
ends once its budget is used up. Beyond the first batch it deletes no more rows than its rate allows
for in the budget, up to two nanoseconds in each wait. It returns the number of rows that are gone,
except that with an error the last batch may be missing. If it ends before the deadline and without
an error, its last statement has left no row that was past retention.

**Proof sketch.** All batches begin before the deadline, and the loop waits between any two of them,
so that all waits but one fit into the budget. The wait is computed in double precision from the
rate, and the two roundings and the cut to whole nanoseconds take off less than two. -/
theorem expireKeys_paced {budget : Duration} (hpos : 0 < rowsPerSecond)
    (hle : 2 * rowsPerSecond ≤ 10 ^ 12) (hbudget : 0 ≤ budget.toInt)
    (hvalid : ∀ t ∈ turns, t.Valid env) :
    (turns ≠ [] → budget.toInt ≤ (turns.length - 1) * (expireInterval rowsPerSecond).toInt →
      ∃ x, expireKeys rowsPerSecond start budget turns = some x) ∧
    ∀ x, expireKeys rowsPerSecond start budget turns = some x →
      (goneRows x.ran - 1000) * (10 ^ 12 - 2 * rowsPerSecond) ≤
        1000 * (budget.toInt * rowsPerSecond) ∧
      (x.failure = none → x.deleted = goneRows x.ran) ∧
      (x.deleted ≤ goneRows x.ran ∧ goneRows x.ran ≤ x.deleted + 1000) ∧
      (x.failure = none → start + budget.toInt ≤ x.now ∨
        ∃ t, x.ran.getLast? = some t ∧ ∀ k row,
          (expireApply t.batch.rows t.db).keys.lookup k = some row →
            pastRetention env t.selectedAt row = false) := by
  obtain ⟨hnonneg, hnear⟩ := expireInterval_near hpos (by omega)
  refine ⟨fun hne hlong => exists_expireLoop hne (by linarith), fun x hx => ?_⟩
  have haccounts := accounts_of_loop hvalid hx
  have hcounted := haccounts.counted
  have hbounds := And.intro haccounts.le haccounts.ge
  simp only [Nat.zero_add] at hcounted hbounds
  refine ⟨?_, hcounted, hbounds, haccounts.ended⟩
  have hpace := haccounts.goneRows_le hvalid hnonneg (by omega)
  rw [add_sub_cancel_left] at hpace
  rcases le_total (goneRows x.ran : ℤ) 1000 with hfew | hmany
  · have hleft : (goneRows x.ran - 1000) * (10 ^ 12 - 2 * rowsPerSecond) ≤ 0 :=
      mul_nonpos_of_nonpos_of_nonneg (by linarith) (by linarith)
    exact hleft.trans (by positivity)
  · calc (goneRows x.ran - 1000) * (10 ^ 12 - 2 * rowsPerSecond)
        ≤ (goneRows x.ran - 1000) * ((expireInterval rowsPerSecond).toInt * rowsPerSecond) :=
          mul_le_mul_of_nonneg_left (by linarith [(abs_le.mp hnear).1]) (by linarith)
      _ = (goneRows x.ran - 1000) * (expireInterval rowsPerSecond).toInt * rowsPerSecond := by
          ring
      _ ≤ 1000 * budget.toInt * rowsPerSecond := mul_le_mul_of_nonneg_right hpace hpos.le
      _ = 1000 * (budget.toInt * rowsPerSecond) := by ring

/-- A thousand rows past retention. -/
def crowdRows : List (KeyID × KeyRow) :=
  (List.range batchSize).map fun i => (crowdKey i, .small "a" 5 0)

/-- A turn that finds a thousand keys past retention and another one, and deletes the thousand. Its
statement takes a tenth of a second. -/
def Turn.crowded : Turn where
  late := 0
  db := ⟨crowd batchSize (.small "a" 5 0) (AList.singleton ⟨"b", keyB⟩ (.small "b" 150 1)), [], []⟩
  selectedAt := 200
  batch := .deleted crowdRows none
  took := 100000000
  done := none

/-- A turn that finds two keys, and deletes the one that is past retention. The timer was ten
milliseconds late. -/
def Turn.small : Turn where
  late := 10000000
  db := ⟨(AList.singleton ⟨"a", keyA⟩ (.small "a" 5 0)).insert ⟨"b", keyB⟩ (.small "b" 150 1),
    [], []⟩
  selectedAt := 203
  batch := .deleted [(⟨"a", keyA⟩, .small "a" 5 0)] none
  took := 100000000
  done := none

/-- The thousand rows are a full batch. -/
lemma Turn.crowded_valid : Turn.crowded.Valid Env.small := by
  refine .inl ?_
  simp only [Turn.crowded, Batch.rows]
  have hkeys : crowdRows.map Prod.fst = (List.range batchSize).map crowdKey := by
    simp [crowdRows]
  have hlength : crowdRows.length = batchSize := by simp [crowdRows]
  have hrow : ∀ e ∈ crowdRows, e.2 = .small "a" 5 0 := by simp [crowdRows]
  refine ⟨?_, fun e he => ⟨?_, ?_⟩, ?_, hlength.le, fun _ _ _ _ => ⟨hlength, fun _ _ => le_rfl⟩⟩
  · rw [hkeys]
    exact List.nodup_range.map crowdKey_injective
  · have hmem : e.1 ∈ (List.range batchSize).map crowdKey := hkeys ▸ List.mem_map_of_mem he
    rw [lookup_crowd, if_pos hmem, hrow e he]
  · rw [hrow e he]
    decide
  · exact List.pairwise_of_forall fun _ _ => le_rfl

/-- The wait at the rate of the default configuration is two seconds. -/
lemma toInt_expireInterval_default : (expireInterval 500).toInt = 2000000000 := by
  decide +kernel

/-- At the rate of the default configuration and within half an hour, `ExpireKeys` deletes a full
batch, waits two seconds, deletes what else is past retention by then, and ends. -/
theorem expireKeys_paced_default : ∃ x,
    expireKeys 500 0 (1800 * second) [Turn.crowded, Turn.small] = some x ∧
    x.ran = [Turn.crowded, Turn.small] ∧ x.now = 2110000000 ∧ x.failure = none ∧
    x.deleted = goneRows x.ran ∧ goneRows x.ran = 1001 ∧
    ∀ k row, (expireApply Turn.small.batch.rows Turn.small.db).keys.lookup k = some row →
      pastRetention Env.small Turn.small.selectedAt row = false := by
  have hvalid : ∀ t ∈ [Turn.crowded, Turn.small], t.Valid Env.small := by
    simp only [List.forall_mem_cons]
    exact ⟨Turn.crowded_valid, .inl (by decide +kernel), nofun⟩
  have hcount : Turn.crowded.batch.result = .ok 1000 := by
    simp [Turn.crowded, Batch.result, crowdRows, batchSize]
  have hx : expireKeys 500 0 (1800 * second) [Turn.crowded, Turn.small] =
      some ⟨1001, none, 2110000000, [Turn.crowded, Turn.small]⟩ := by
    rw [expireKeys, toInt_expireInterval_default, expireLoop, if_pos (by decide), hcount]
    rfl
  have hpaced := (expireKeys_paced (by decide) (by decide) (by decide) hvalid).2 _ hx
  obtain ⟨-, hcounted, -, hended⟩ := hpaced
  refine ⟨_, hx, rfl, rfl, rfl, hcounted rfl, (hcounted rfl).symm, ?_⟩
  rcases hended rfl with hlate | ⟨t, hlast, hleft⟩
  · exact absurd hlate (by decide)
  · cases hlast
    exact hleft

end Idemio
