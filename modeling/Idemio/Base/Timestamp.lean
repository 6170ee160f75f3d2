import Idemio.Base.Calendar
import Idemio.Base.Json
import Mathlib.Data.List.DropRight
import Mathlib.Data.Nat.Log

set_option relaxedAutoImplicit false
set_option autoImplicit false

/-!
# RFC 3339 timestamps

An instant is a number of nanoseconds from 1 January 1970, in UTC. It is printed with as many
digits of the second as it takes, and none if it is a whole one. What is read may be in any zone,
and is more than the RFC allows: an hour may have one digit, the fraction may follow a comma and
have more digits than count, and a zone may be a whole day or an hour of sixty minutes off.

## Main definitions

* `Timestamp.format`, `Timestamp.parse` — an instant as text, and back.
* `Timestamp.FourDigits` — an instant in the years 0 to 9999.

## Main results

* `Timestamp.parse_format` — what is printed is read back in these years.
* `Timestamp.parse_format_eq_none` — and is not read at all in others.
-/

namespace Timestamp

open JsonDoc (isDigit natOfDigits)
open Calendar

/-! ## Printing -/

/-- The last `k` decimal digits of a number. -/
def decimals : ℕ → ℕ → List UInt8
  | 0, _ => []
  | k + 1, n => decimals k (n / 10) ++ [(0x30 + n % 10).toUInt8]

/-- A year, with four digits at least. -/
def formatYear (y : ℤ) : List UInt8 :=
  (if y < 0 then [0x2D] else []) ++ decimals (max 4 (Nat.log 10 y.natAbs + 1)) y.natAbs

/-- The digits of a fraction of a second without the zeros at their end. -/
def fractionDigits (nanos : ℕ) : List UInt8 := (decimals 9 nanos).rdropWhile (· = 0x30)

/-- A fraction of a second. -/
def formatFraction (nanos : ℕ) : List UInt8 :=
  if nanos = 0 then [] else 0x2E :: fractionDigits nanos

/-- The nanoseconds of a day. -/
def dayNanos : ℤ := 86400 * 10 ^ 9

/-- The day on which Unix time begins. -/
def unixDay : ℤ := 719162

/-- The time of day, in nanoseconds. -/
def formatClock (n : ℕ) : List UInt8 :=
  decimals 2 (n / 10 ^ 9 / 3600) ++ 0x3A :: (decimals 2 (n / 10 ^ 9 / 60 % 60) ++
    0x3A :: (decimals 2 (n / 10 ^ 9 % 60) ++ formatFraction (n % 10 ^ 9)))

/-- An instant in UTC. -/
def format (t : ℤ) : List UInt8 :=
  let date := ofDays (t / dayNanos + unixDay)
  formatYear date.year ++ 0x2D :: (decimals 2 date.month ++ 0x2D :: (decimals 2 date.day ++
    0x54 :: (formatClock (t % dayNanos).toNat ++ [0x5A])))

/-! ## Reading -/

/-- The text after a byte that it must begin with. -/
def literal (b : UInt8) : List UInt8 → Option (List UInt8)
  | [] => none
  | c :: s => if c = b then some s else none

/-- A number of exactly `k` digits, and the text after it. -/
def number (k : ℕ) (s : List UInt8) : Option (ℕ × List UInt8) :=
  if (s.take k).length = k ∧ (s.take k).all isDigit then some (natOfDigits (s.take k), s.drop k)
  else none

/-- An hour, of one digit or two. -/
def parseHour (s : List UInt8) : Option (ℕ × List UInt8) := number 2 s <|> number 1 s

/-- A fraction of a second, if there is one, in nanoseconds. -/
def parseFraction : List UInt8 → ℕ × List UInt8
  | sep :: s =>
    let digits := s.takeWhile isDigit
    if (sep = 0x2E ∨ sep = 0x2C) ∧ digits ≠ [] then
      (natOfDigits (digits.take 9) * 10 ^ (9 - digits.length), s.dropWhile isDigit)
    else (0, sep :: s)
  | [] => (0, [])

/-- A zone: how many seconds it is ahead of UTC. -/
def parseZone (s : List UInt8) : Option (ℤ × List UInt8) :=
  match s with
  | [] => none
  | sign :: s =>
    if sign = 0x5A then some (0, s)
    else do
      let (hours, s) ← number 2 s
      let s ← literal 0x3A s
      let (minutes, s) ← number 2 s
      if 24 < hours ∨ 60 < minutes then none
      else if sign = 0x2B then some ((hours * 60 + minutes) * 60, s)
      else if sign = 0x2D then some (-((hours * 60 + minutes) * 60), s)
      else none

/-- A date. -/
def parseDate (s : List UInt8) : Option (Date × List UInt8) := do
  let (year, s) ← number 4 s
  let s ← literal 0x2D s
  let (month, s) ← number 2 s
  let s ← literal 0x2D s
  let (day, s) ← number 2 s
  if (Date.mk year month day).Valid then some (⟨year, month, day⟩, s) else none

/-- A time of day, in nanoseconds. -/
def parseClock (s : List UInt8) : Option (ℕ × List UInt8) := do
  let (hour, s) ← parseHour s
  let s ← literal 0x3A s
  let (minute, s) ← number 2 s
  let s ← literal 0x3A s
  let (second, s) ← number 2 s
  if 24 ≤ hour ∨ 60 ≤ minute ∨ 60 ≤ second then none
  else
    let (nanos, s) := parseFraction s
    some (((hour * 60 + minute) * 60 + second) * 10 ^ 9 + nanos, s)

/-- An instant. -/
def parse (s : List UInt8) : Option ℤ := do
  let (date, s) ← parseDate s
  let s ← literal 0x54 s
  let (clock, s) ← parseClock s
  let (offset, s) ← parseZone s
  if s = [] then some ((date.toDays - unixDay) * dayNanos + clock - offset * 10 ^ 9) else none

/-! ## Decimal digits -/

@[simp] lemma length_decimals (k n : ℕ) : (decimals k n).length = k := by
  induction k generalizing n with
  | zero => rfl
  | succ k ih => simp [decimals, ih]

lemma toNat_digit (n : ℕ) : (0x30 + n % 10).toUInt8.toNat = 0x30 + n % 10 := by
  have := Nat.mod_lt n (y := 10) (by decide)
  simp only [Nat.toUInt8_eq, UInt8.toNat_ofNat']
  omega

lemma isDigit_of_mem_decimals {k n : ℕ} {b : UInt8} (h : b ∈ decimals k n) :
    isDigit b = true := by
  induction k generalizing n with
  | zero => cases h
  | succ k ih =>
    rcases List.mem_append.mp h with h | h
    · exact ih h
    · rw [List.mem_singleton.mp h]
      have := Nat.mod_lt n (y := 10) (by decide)
      simp only [isDigit, Bool.and_eq_true, decide_eq_true_eq, UInt8.le_iff_toNat_le, toNat_digit]
      exact ⟨Nat.le_add_right _ _, by simp; omega⟩

@[simp] lemma natOfDigits_concat (ds : List UInt8) (d : UInt8) :
    natOfDigits (ds ++ [d]) = natOfDigits ds * 10 + (d.toNat - 0x30) := by
  simp [natOfDigits]

lemma natOfDigits_decimals (k n : ℕ) : natOfDigits (decimals k n) = n % 10 ^ k := by
  induction k generalizing n with
  | zero => simp [decimals, natOfDigits, Nat.mod_one]
  | succ k ih =>
    rw [decimals, natOfDigits_concat, ih, toNat_digit, Nat.pow_succ', Nat.mod_mul]
    omega

lemma natOfDigits_append_zeros (ds : List UInt8) (z : ℕ) :
    natOfDigits (ds ++ List.replicate z 0x30) = natOfDigits ds * 10 ^ z := by
  induction z with
  | zero => simp
  | succ z ih =>
    rw [List.replicate_succ', ← List.append_assoc, natOfDigits_concat, ih, Nat.pow_succ]
    simp [Nat.mul_assoc]

lemma decimals_inj {k m n : ℕ} (hm : m < 10 ^ k) (hn : n < 10 ^ k)
    (h : decimals k m = decimals k n) : m = n := by
  rw [← Nat.mod_eq_of_lt hm, ← Nat.mod_eq_of_lt hn, ← natOfDigits_decimals,
    ← natOfDigits_decimals, h]

/-- A year is known by its text. -/
lemma formatYear_injective : Function.Injective formatYear := by
  have habs : ∀ y : ℤ, natOfDigits (decimals (max 4 (Nat.log 10 y.natAbs + 1)) y.natAbs) =
      y.natAbs := by
    intro y
    rw [natOfDigits_decimals]
    refine Nat.mod_eq_of_lt ((Nat.lt_pow_succ_log_self (b := 10) (by decide) _).trans_le ?_)
    exact Nat.pow_le_pow_right (by decide) (Nat.le_max_right _ _)
  have hsign : ∀ y : ℤ, ∀ s, decimals (max 4 (Nat.log 10 y.natAbs + 1)) y.natAbs ≠ 0x2D :: s := by
    intro y s heq
    have hdigit := isDigit_of_mem_decimals (heq ▸ List.mem_cons_self :
      (0x2D : UInt8) ∈ decimals (max 4 (Nat.log 10 y.natAbs + 1)) y.natAbs)
    cases hdigit
  intro x y h
  have hx := habs x
  have hy := habs y
  unfold formatYear at h
  split_ifs at h with hxneg hyneg hyneg
  · rw [List.append_cancel_left h, hy] at hx
    omega
  · exact absurd h.symm (hsign y _)
  · exact absurd h (hsign x _)
  · rw [List.nil_append, List.nil_append] at h
    rw [h, hy] at hx
    omega

/-! ## Round trip -/

lemma number_decimals {k n : ℕ} (h : n < 10 ^ k) (s : List UInt8) :
    number k (decimals k n ++ s) = some (n, s) := by
  have htake : (decimals k n ++ s).take k = decimals k n := by
    rw [List.take_append_of_le_length (by simp), List.take_of_length_le (by simp)]
  have hdrop : (decimals k n ++ s).drop k = s := by
    rw [List.drop_append_of_le_length (by simp), List.drop_of_length_le (by simp),
      List.nil_append]
  have hall : (decimals k n).all isDigit = true :=
    List.all_eq_true.mpr fun b hb => isDigit_of_mem_decimals hb
  rw [number, htake, hdrop, if_pos ⟨length_decimals k n, hall⟩, natOfDigits_decimals,
    Nat.mod_eq_of_lt h]

@[simp] lemma literal_cons (b : UInt8) (s : List UInt8) : literal b (b :: s) = some s := by
  rw [literal, if_pos rfl]

/-- The digits of a fraction and the zeros that were left out are the nine digits. -/
lemma exists_zeros (nanos : ℕ) :
    ∃ z, decimals 9 nanos = fractionDigits nanos ++ List.replicate z 0x30 := by
  refine ⟨((decimals 9 nanos).rtakeWhile (· = 0x30)).length, ?_⟩
  have hzeros : (decimals 9 nanos).rtakeWhile (· = 0x30) =
      List.replicate ((decimals 9 nanos).rtakeWhile (· = 0x30)).length 0x30 :=
    List.eq_replicate_of_mem fun b hb => by simpa using List.mem_rtakeWhile_imp hb
  rw [← hzeros, fractionDigits, List.rdropWhile_append_rtakeWhile]

lemma natOfDigits_fractionDigits {nanos : ℕ} (h : nanos < 10 ^ 9) :
    natOfDigits (fractionDigits nanos) * 10 ^ (9 - (fractionDigits nanos).length) = nanos := by
  obtain ⟨z, hz⟩ := exists_zeros nanos
  have hlen : (fractionDigits nanos).length + z = 9 := by
    simpa using (congrArg List.length hz).symm
  have hvalue : natOfDigits (fractionDigits nanos) * 10 ^ z = nanos := by
    rw [← natOfDigits_append_zeros, ← hz, natOfDigits_decimals, Nat.mod_eq_of_lt h]
  rw [show 9 - (fractionDigits nanos).length = z by omega, hvalue]

lemma isDigit_of_mem_fractionDigits {nanos : ℕ} {b : UInt8} (h : b ∈ fractionDigits nanos) :
    isDigit b = true := by
  obtain ⟨z, hz⟩ := exists_zeros nanos
  exact isDigit_of_mem_decimals (k := 9) (n := nanos) (hz ▸ List.mem_append_left _ h)

lemma length_fractionDigits_le (nanos : ℕ) : (fractionDigits nanos).length ≤ 9 := by
  obtain ⟨z, hz⟩ := exists_zeros nanos
  have := congrArg List.length hz
  simp at this
  omega

/-- A fraction is read up to the zone that follows it. -/
lemma parseFraction_formatFraction {nanos : ℕ} (h : nanos < 10 ^ 9) (s : List UInt8) :
    parseFraction (formatFraction nanos ++ 0x5A :: s) = (nanos, 0x5A :: s) := by
  unfold formatFraction
  split_ifs with hzero
  · subst hzero
    simp [parseFraction]
  · have hne : fractionDigits nanos ≠ [] := by
      intro hnil
      have := natOfDigits_fractionDigits h
      rw [hnil] at this
      simp [natOfDigits] at this
      omega
    have htake : (fractionDigits nanos ++ 0x5A :: s).takeWhile isDigit = fractionDigits nanos := by
      rw [List.takeWhile_append_of_pos fun b hb => isDigit_of_mem_fractionDigits hb]
      simp [isDigit]
    have hdrop : (fractionDigits nanos ++ 0x5A :: s).dropWhile isDigit = 0x5A :: s := by
      rw [List.dropWhile_append_of_pos fun b hb => isDigit_of_mem_fractionDigits hb]
      simp [isDigit]
    rw [List.cons_append, parseFraction]
    simp only [htake, hdrop, List.take_of_length_le (length_fractionDigits_le nanos),
      natOfDigits_fractionDigits h]
    simp [hne]

lemma parseClock_formatClock {n : ℕ} (h : n < 86400 * 10 ^ 9) (s : List UInt8) :
    parseClock (formatClock n ++ 0x5A :: s) = some (n, 0x5A :: s) := by
  have hhour : n / 10 ^ 9 / 3600 < 24 := by omega
  have hminute : n / 10 ^ 9 / 60 % 60 < 60 := Nat.mod_lt _ (by decide)
  have hsecond : n / 10 ^ 9 % 60 < 60 := Nat.mod_lt _ (by decide)
  have hnanos : n % 10 ^ 9 < 10 ^ 9 := Nat.mod_lt _ (by decide)
  have hsum : ((n / 10 ^ 9 / 3600 * 60 + n / 10 ^ 9 / 60 % 60) * 60 + n / 10 ^ 9 % 60) * 10 ^ 9 +
      n % 10 ^ 9 = n := by omega
  have hparseHour : ∀ s, parseHour (decimals 2 (n / 10 ^ 9 / 3600) ++ s) =
      some (n / 10 ^ 9 / 3600, s) := by
    intro s
    rw [parseHour, number_decimals (by omega)]
    rfl
  simp only [formatClock, parseClock, List.append_assoc, List.cons_append, hparseHour,
    Option.bind_eq_bind, Option.bind_some, literal_cons,
    number_decimals (k := 2) (n := n / 10 ^ 9 / 60 % 60) (by omega),
    number_decimals (k := 2) (n := n / 10 ^ 9 % 60) (by omega),
    parseFraction_formatFraction hnanos, hsum]
  rw [if_neg (by omega)]

lemma formatYear_of_lt {y : ℤ} (h : 0 ≤ y ∧ y < 10000) : formatYear y = decimals 4 y.natAbs := by
  have hlog : Nat.log 10 y.natAbs < 4 := Nat.log_lt_of_lt_pow' (by decide) (by omega)
  rw [formatYear, if_neg (by omega), List.nil_append, Nat.max_eq_left hlog]

lemma parseDate_of_valid {d : Date} (hvalid : d.Valid) (h : 0 ≤ d.year ∧ d.year < 10000)
    (s : List UInt8) :
    parseDate (formatYear d.year ++ 0x2D :: (decimals 2 d.month ++ 0x2D ::
      (decimals 2 d.day ++ s))) = some (d, s) := by
  have hmonth : d.month < 10 ^ 2 := by
    have := hvalid.2.1
    omega
  have hday : d.day < 10 ^ 2 := by
    have := hvalid.2.2.2.trans (daysIn_le d.year d.month)
    omega
  have hyear : ((d.year.natAbs : ℕ) : ℤ) = d.year := by omega
  simp only [parseDate, formatYear_of_lt h, number_decimals (k := 4) (n := d.year.natAbs)
    (by omega), number_decimals hmonth, number_decimals hday, Option.bind_eq_bind,
    Option.bind_some, literal_cons, hyear]
  rw [if_pos hvalid]

/-- The year that an instant is in. -/
def year (t : ℤ) : ℤ := (ofDays (t / dayNanos + unixDay)).year

/-- The year that an instant is in has four digits at most. -/
def FourDigits (t : ℤ) : Prop := 0 ≤ year t ∧ year t < 10000

instance (t : ℤ) : Decidable (FourDigits t) := inferInstanceAs (Decidable (_ ∧ _))

/-- **What is printed is read back**, in a year of four digits. -/
theorem parse_format {t : ℤ} (h : FourDigits t) : parse (format t) = some t := by
  have hclock : (t % dayNanos).toNat < 86400 * 10 ^ 9 := by
    unfold dayNanos
    omega
  have hzone : parseZone [0x5A] = some (0, []) := by simp [parseZone]
  simp only [parse, format, parseDate_of_valid (valid_ofDays _) h, literal_cons,
    parseClock_formatClock hclock, hzone, Option.bind_eq_bind, Option.bind_some, toDays_ofDays,
    if_true, Option.some.injEq]
  unfold dayNanos
  omega

/-- A year of more digits, or one before the year 0, is not read. -/
lemma parseDate_of_not_lt {y : ℤ} (h : ¬(0 ≤ y ∧ y < 10000)) (s : List UInt8) :
    parseDate (formatYear y ++ s) = none := by
  rcases lt_or_ge y 0 with hneg | hnonneg
  · have hsign : number 4 (formatYear y ++ s) = none := by
      simp [number, formatYear, hneg, isDigit]
    rw [parseDate, hsign]
    rfl
  · have hlog : 4 ≤ Nat.log 10 y.natAbs := Nat.le_log_of_pow_le (by decide) (by omega)
    have hlen : 4 < (formatYear y).length := by
      rw [formatYear, if_neg (by omega), List.nil_append, length_decimals]
      omega
    -- A fifth digit stands where the hyphen should be.
    have hdigit : isDigit (formatYear y)[4] = true := by
      refine isDigit_of_mem_decimals (k := max 4 (Nat.log 10 y.natAbs + 1)) (n := y.natAbs) ?_
      simp [formatYear, if_neg (by omega : ¬y < 0)]
    have hliteral : literal 0x2D ((formatYear y ++ s).drop 4) = none := by
      rw [List.drop_append_of_le_length hlen.le, List.drop_eq_getElem_cons hlen, List.cons_append,
        literal, if_neg]
      intro heq
      rw [heq] at hdigit
      cases hdigit
    rw [parseDate, number]
    split_ifs
    · simp [hliteral]
    · rfl

/-- **What is printed in another year is not read.** -/
theorem parse_format_eq_none {t : ℤ} (h : ¬FourDigits t) :
    parse (format t) = none := by
  simp only [parse, format]
  rw [show (ofDays (t / dayNanos + unixDay)).year = year t from rfl, parseDate_of_not_lt h]
  rfl

/-- What is printed is digits, hyphens, colons, points and the letters `T` and `Z`. -/
lemma of_mem_format {t : ℤ} {b : UInt8} (h : b ∈ format t) :
    isDigit b = true ∨ b ∈ [0x2D, 0x54, 0x3A, 0x2E, 0x5A] := by
  have hdecimals : ∀ {k n : ℕ}, b ∈ decimals k n → isDigit b = true := isDigit_of_mem_decimals
  have hyear : b ∈ formatYear (ofDays (t / dayNanos + unixDay)).year →
      b = 0x2D ∨ isDigit b = true := by
    intro hb
    rcases List.mem_append.mp hb with hb | hb
    · split_ifs at hb
      · exact .inl (List.mem_singleton.mp hb)
      · cases hb
    · exact .inr (hdecimals hb)
  have hfraction : b ∈ formatFraction ((t % dayNanos).toNat % 10 ^ 9) →
      b = 0x2E ∨ isDigit b = true := by
    intro hb
    unfold formatFraction at hb
    split_ifs at hb
    · cases hb
    · rcases List.mem_cons.mp hb with hb | hb
      · exact .inl hb
      · exact .inr (isDigit_of_mem_fractionDigits hb)
  simp only [format, formatClock, List.mem_append, List.mem_cons, List.not_mem_nil,
    or_false] at h
  simp only [List.mem_cons, List.not_mem_nil, or_false]
  grind

end Timestamp
