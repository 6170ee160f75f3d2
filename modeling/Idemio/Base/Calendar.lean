import Mathlib.Algebra.Order.Group.Nat
import Mathlib.Data.Int.ConditionallyCompleteOrder
import Mathlib.Data.List.GetD
import Mathlib.Tactic.Lemma
import Mathlib.Tactic.Linarith
import Mathlib.Tactic.Ring

set_option relaxedAutoImplicit false
set_option autoImplicit false

/-!
# The proleptic Gregorian calendar

Days are counted from 1 January of the year 1, which is day 0; year 0 is the one before. Four
hundred years are 146097 days, wherever they begin: counting from the year 1 puts the leap day at
the end of every cycle of four, of a hundred and of four hundred years, which is why each is split
off by a division, with the last part of a cycle as the exception.

## Main definitions

* `Calendar.Date`, `Calendar.Date.Valid` — a date, and one that the calendar has.
* `Calendar.Date.toDays`, `Calendar.ofDays` — a date as a day, and back.
* `Calendar.Date.monthIndex`, `Calendar.monthStart`, `Calendar.monthLength` — months, numbered
  through the years.

## Main results

* `Calendar.valid_ofDays`, `Calendar.toDays_ofDays` — every day has a date, which is its own.
* `Calendar.monthStart_succ`, `Calendar.monthStart_le` — a month ends where the next one begins, and
  a day lies in its month.
-/

namespace Calendar

/-! ## Years -/

/-- A year with a leap day. -/
def isLeap (y : ℤ) : Bool := y % 4 = 0 ∧ (y % 100 ≠ 0 ∨ y % 400 = 0)

/-- The day on which a year begins. -/
def yearStart (y : ℤ) : ℤ := 365 * (y - 1) + (y - 1) / 4 - (y - 1) / 100 + (y - 1) / 400

/-- The length of a year. -/
def yearLength (y : ℤ) : ℕ := if isLeap y then 366 else 365

/-- How many parts have passed on day `d` of a cycle of four, each of length `part` but the last,
which is a day longer. -/
def cyclePart (part d : ℤ) : ℤ := min (d / part) 3

/-- The year that a day is in. -/
def yearOf (d : ℤ) : ℤ :=
  let d₄₀₀ := d % 146097
  let n₁₀₀ := cyclePart 36524 d₄₀₀
  let d₁₀₀ := d₄₀₀ - 36524 * n₁₀₀
  let d₄ := d₁₀₀ % 1461
  400 * (d / 146097) + 100 * n₁₀₀ + 4 * (d₁₀₀ / 1461) + cyclePart 365 d₄ + 1

/-- A year from the parts of the cycles that have passed before it. -/
structure Cycles (y a b c e : ℤ) : Prop where
  eq : y = 400 * a + 100 * b + 4 * c + e + 1
  hundreds : 0 ≤ b ∧ b ≤ 3
  fours : 0 ≤ c ∧ c ≤ 24
  ones : 0 ≤ e ∧ e ≤ 3

lemma Cycles.yearStart_eq {y a b c e : ℤ} (h : Cycles y a b c e) :
    yearStart y = 146097 * a + 36524 * b + 1461 * c + 365 * e := by
  obtain ⟨rfl, hb, hc, he⟩ := h
  have h₄ : (400 * a + 100 * b + 4 * c + e + 1 - 1) / 4 = 100 * a + 25 * b + c := by omega
  have h₁₀₀ : (400 * a + 100 * b + 4 * c + e + 1 - 1) / 100 = 4 * a + b := by omega
  have h₄₀₀ : (400 * a + 100 * b + 4 * c + e + 1 - 1) / 400 = a := by omega
  rw [yearStart, h₄, h₁₀₀, h₄₀₀]
  ring

lemma Cycles.isLeap_iff {y a b c e : ℤ} (h : Cycles y a b c e) :
    isLeap y = true ↔ e = 3 ∧ (c ≠ 24 ∨ b = 3) := by
  obtain ⟨rfl, hb, hc, he⟩ := h
  simp only [isLeap, decide_eq_true_eq]
  omega

/-- The cycles that have passed on a day, and the day within its year. -/
lemma exists_cycles (d : ℤ) :
    ∃ a b c e, Cycles (yearOf d) a b c e ∧
      0 ≤ d - (146097 * a + 36524 * b + 1461 * c + 365 * e) ∧
      d - (146097 * a + 36524 * b + 1461 * c + 365 * e) ≤ 365 ∧
      (d - (146097 * a + 36524 * b + 1461 * c + 365 * e) = 365 → e = 3 ∧ (c ≠ 24 ∨ b = 3)) := by
  refine ⟨d / 146097, cyclePart 36524 (d % 146097),
    (d % 146097 - 36524 * cyclePart 36524 (d % 146097)) / 1461,
    cyclePart 365 ((d % 146097 - 36524 * cyclePart 36524 (d % 146097)) % 1461),
    ⟨rfl, ?_, ?_, ?_⟩, ?_⟩
  all_goals
    unfold cyclePart
    omega

/-- **A day is in its year.** -/
lemma day_of_yearOf (d : ℤ) :
    yearStart (yearOf d) ≤ d ∧ d < yearStart (yearOf d) + yearLength (yearOf d) := by
  obtain ⟨a, b, c, e, hcycles, hle, hle', hlast⟩ := exists_cycles d
  rw [hcycles.yearStart_eq, yearLength]
  split_ifs with hleap
  · omega
  · rw [hcycles.isLeap_iff] at hleap
    omega

/-! ## Months -/

/-- The lengths of the months of a year. -/
def monthLengths (y : ℤ) : List ℕ :=
  [31, if isLeap y then 29 else 28, 31, 30, 31, 30, 31, 31, 30, 31, 30, 31]

/-- The length of a month. -/
def daysIn (y : ℤ) (month : ℕ) : ℕ := (monthLengths y).getD (month - 1) 0

lemma daysIn_le (y : ℤ) (month : ℕ) : daysIn y month ≤ 31 := by
  unfold daysIn
  rcases lt_or_ge (month - 1) (monthLengths y).length with hlt | hge
  · rw [List.getD_eq_getElem _ _ hlt]
    have hall : ∀ l ∈ monthLengths y, l ≤ 31 := by
      simp only [monthLengths, List.forall_mem_cons]
      split_ifs <;> simp
    exact hall _ (List.getElem_mem hlt)
  · rw [List.getD_eq_default _ _ hge]
    exact Nat.zero_le _

/-- How many months have passed on day `n` of those with the lengths given, and the day in the
month after them. -/
def splitMonths : List ℕ → ℕ → ℕ × ℕ
  | [], n => (0, n)
  | l :: ls, n =>
    if n < l then (0, n) else ((splitMonths ls (n - l)).1 + 1, (splitMonths ls (n - l)).2)

lemma sum_monthLengths (y : ℤ) : (monthLengths y).sum = yearLength y := by
  unfold monthLengths yearLength
  split_ifs <;> rfl

lemma splitMonths_spec {ls : List ℕ} {n : ℕ} (h : n < ls.sum) :
    (splitMonths ls n).1 < ls.length ∧ (splitMonths ls n).2 < ls.getD (splitMonths ls n).1 0 ∧
      (ls.take (splitMonths ls n).1).sum + (splitMonths ls n).2 = n := by
  induction ls generalizing n with
  | nil => cases h
  | cons l ls ih =>
    rw [splitMonths]
    split_ifs with hlt
    · simpa using hlt
    · rw [List.sum_cons] at h
      obtain ⟨hlen, hday, hsum⟩ := ih (n := n - l) (by omega)
      refine ⟨by simpa using hlen, by simpa using hday, ?_⟩
      simp only [List.take_succ_cons, List.sum_cons]
      omega

/-! ## Dates -/

/-- A date. -/
@[ext]
structure Date where
  year : ℤ
  month : ℕ
  day : ℕ
  deriving DecidableEq, Repr

/-- The calendar has the date. -/
def Date.Valid (d : Date) : Prop :=
  1 ≤ d.month ∧ d.month ≤ 12 ∧ 1 ≤ d.day ∧ d.day ≤ daysIn d.year d.month

instance (d : Date) : Decidable d.Valid := by
  unfold Date.Valid
  infer_instance

/-- The day of a date. -/
def Date.toDays (d : Date) : ℤ :=
  yearStart d.year + ((monthLengths d.year).take (d.month - 1)).sum + (d.day - 1)

/-- The date of a day. -/
def ofDays (d : ℤ) : Date :=
  let split := splitMonths (monthLengths (yearOf d)) (d - yearStart (yearOf d)).toNat
  ⟨yearOf d, split.1 + 1, split.2 + 1⟩

lemma splitMonths_yearOf (d : ℤ) :
    let split := splitMonths (monthLengths (yearOf d)) (d - yearStart (yearOf d)).toNat
    split.1 < 12 ∧ split.2 < (monthLengths (yearOf d)).getD split.1 0 ∧
      ((monthLengths (yearOf d)).take split.1).sum + split.2 =
        (d - yearStart (yearOf d)).toNat := by
  refine splitMonths_spec ?_
  rw [sum_monthLengths]
  have := day_of_yearOf d
  omega

/-- **Every day has a date.** -/
theorem valid_ofDays (d : ℤ) : (ofDays d).Valid := by
  obtain ⟨hmonth, hday, -⟩ := splitMonths_yearOf d
  exact ⟨Nat.le_add_left 1 _, hmonth, Nat.le_add_left 1 _, hday⟩

/-- **The day of the date of a day is that day.** -/
theorem toDays_ofDays (d : ℤ) : (ofDays d).toDays = d := by
  obtain ⟨-, -, hsum⟩ := splitMonths_yearOf d
  have hle := (day_of_yearOf d).1
  simp only [Date.toDays, ofDays, Nat.add_sub_cancel, Nat.cast_add, Nat.cast_one]
  omega

/-! ## Months, numbered through the years -/

/-- The number of the month of a date. -/
def Date.monthIndex (d : Date) : ℤ := 12 * d.year + (d.month - 1)

/-- The first day of a month. -/
def monthStart (m : ℤ) : ℤ := Date.toDays ⟨m / 12, (m % 12).toNat + 1, 1⟩

/-- The length of a month. -/
def monthLength (m : ℤ) : ℕ := daysIn (m / 12) ((m % 12).toNat + 1)

lemma yearStart_succ (y : ℤ) : yearStart (y + 1) = yearStart y + yearLength y := by
  unfold yearStart yearLength isLeap
  simp only [decide_eq_true_eq]
  split_ifs <;> omega

lemma length_monthLengths (y : ℤ) : (monthLengths y).length = 12 := rfl

lemma le_monthLength (m : ℤ) : 28 ≤ monthLength m := by
  have hlt : (m % 12).toNat < (monthLengths (m / 12)).length := by
    rw [length_monthLengths]
    omega
  have hall : ∀ l ∈ monthLengths (m / 12), 28 ≤ l := by
    simp only [monthLengths, List.forall_mem_cons]
    split_ifs <;> simp
  rw [monthLength, daysIn, Nat.add_sub_cancel, List.getD_eq_getElem _ _ hlt]
  exact hall _ (List.getElem_mem hlt)

lemma sum_take_succ {ls : List ℕ} {k : ℕ} (h : k < ls.length) :
    (ls.take (k + 1)).sum = (ls.take k).sum + ls.getD k 0 := by
  rw [List.take_succ_eq_append_getElem h, List.sum_append, List.sum_singleton,
    List.getD_eq_getElem _ _ h]

/-- **A month ends where the next one begins.** -/
lemma monthStart_succ (m : ℤ) : monthStart (m + 1) = monthStart m + monthLength m := by
  have hlt : (m % 12).toNat < (monthLengths (m / 12)).length := by
    rw [length_monthLengths]
    omega
  have hsum := sum_take_succ hlt
  simp only [monthStart, monthLength, Date.toDays, daysIn, Nat.add_sub_cancel, Nat.cast_one,
    sub_self, add_zero]
  rcases lt_or_ge (m % 12) 11 with hmonth | hmonth
  · have hyear : (m + 1) / 12 = m / 12 := by omega
    have hindex : ((m + 1) % 12).toNat = (m % 12).toNat + 1 := by omega
    rw [hyear, hindex, hsum]
    push_cast
    ring
  · -- the year ends as well
    have hyear : (m + 1) / 12 = m / 12 + 1 := by omega
    have hindex : ((m + 1) % 12).toNat = 0 := by omega
    have htotal : (m % 12).toNat + 1 = (monthLengths (m / 12)).length := by
      rw [length_monthLengths]
      omega
    rw [htotal, List.take_length, sum_monthLengths] at hsum
    rw [hyear, hindex, yearStart_succ, hsum]
    simp only [List.take_zero, List.sum_nil]
    push_cast
    ring

lemma monthStart_strictMono : StrictMono monthStart := by
  refine strictMono_int_of_lt_succ fun m => ?_
  have hlength := le_monthLength m
  rw [monthStart_succ]
  omega

/-- The day of a date, from the first day of its month. -/
lemma Date.toDays_eq {d : Date} (h : d.Valid) :
    d.toDays = monthStart d.monthIndex + (d.day - 1) := by
  obtain ⟨hlow, hhigh, -⟩ := h
  have hyear : d.monthIndex / 12 = d.year := by
    rw [Date.monthIndex]
    omega
  have hmonth : (d.monthIndex % 12).toNat = d.month - 1 := by
    rw [Date.monthIndex]
    omega
  simp only [monthStart, Date.toDays, hyear, hmonth, Nat.add_sub_cancel]
  push_cast
  ring

/-- **A day lies in its month.** -/
lemma monthStart_le (d : ℤ) :
    monthStart (ofDays d).monthIndex ≤ d ∧ d < monthStart ((ofDays d).monthIndex + 1) := by
  have hvalid := valid_ofDays d
  have hdays := Date.toDays_eq hvalid
  obtain ⟨hlow, hhigh, hday, hlast⟩ := hvalid
  have hlength : monthLength (ofDays d).monthIndex = daysIn (ofDays d).year (ofDays d).month := by
    have hyear : (ofDays d).monthIndex / 12 = (ofDays d).year := by
      rw [Date.monthIndex]
      omega
    have hmonth : ((ofDays d).monthIndex % 12).toNat + 1 = (ofDays d).month := by
      rw [Date.monthIndex]
      omega
    rw [monthLength, hyear, hmonth]
  rw [toDays_ofDays] at hdays
  rw [monthStart_succ, hlength]
  omega

/-- The first day of a month is the first day of that month. -/
lemma ofDays_monthStart (m : ℤ) :
    (ofDays (monthStart m)).monthIndex = m ∧ (ofDays (monthStart m)).day = 1 := by
  obtain ⟨hlow, hhigh⟩ := monthStart_le (monthStart m)
  have hle := monthStart_strictMono.le_iff_le.mp hlow
  have hlt := monthStart_strictMono.lt_iff_lt.mp hhigh
  have hindex : (ofDays (monthStart m)).monthIndex = m := by omega
  have hvalid := valid_ofDays (monthStart m)
  have hdays := Date.toDays_eq hvalid
  rw [toDays_ofDays, hindex] at hdays
  exact ⟨hindex, by omega⟩

/-- Later days lie in later months, or in the same. -/
lemma monthIndex_mono {d e : ℤ} (h : d ≤ e) : (ofDays d).monthIndex ≤ (ofDays e).monthIndex := by
  have hd := (monthStart_le d).1
  have he := (monthStart_le e).2
  have hlt := monthStart_strictMono.lt_iff_lt.mp (by omega :
    monthStart (ofDays d).monthIndex < monthStart ((ofDays e).monthIndex + 1))
  omega

/-- The epoch of Unix time. -/
example : (Date.mk 1970 1 1).toDays = 719162 ∧ ofDays 719162 = ⟨1970, 1, 1⟩ := by decide

end Calendar
