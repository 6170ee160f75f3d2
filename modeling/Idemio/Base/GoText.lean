import Idemio.Base.Binary64
import Idemio.Base.Json

set_option relaxedAutoImplicit false
set_option autoImplicit false

/-!
# Integers and durations as Go reads them

`strconv.ParseInt` with base 10 and 64 bits, and `time.ParseDuration`. A duration is a sequence of
decimal numbers, each with a unit. Its sum is kept in 64 bits without a sign, and a fraction goes
through doubles; `GoText.readDuration` is the same with integers and fractions of any size, each
term cut off at the nanosecond. `GoText.roundingError` is what the doubles alone make of the
fractions of a text, in nanoseconds.

## Main definitions

* `GoText.quote`, `GoText.quoteDuration` — a text in an error.
* `GoText.parseInt`, `GoText.readInt` — an integer, and one of any size.
* `GoText.parseDuration`, `GoText.readDuration` — a duration, and one of any size.
* `GoText.Term.rounded`, `GoText.roundingError` — a term with its fraction in doubles, and what that
  adds up to.

## Main results

* `GoText.readInt_of_parseInt` — what is read as an integer is read as the same one of any size.
* `GoText.readDuration_of_parseDuration` — what is read as a duration is one of any size, up to
  multiples of `2 ^ 64` and the rounding error.
* `GoText.roundingError_eq_zero` — there is none for fractions of whole nanoseconds.
-/

namespace GoText

open JsonDoc (isDigit natOfDigits)

/-! ## Texts in errors -/

/-- A hexadecimal digit. -/
def hexDigit (n : ℕ) : Char := "0123456789abcdef".toList.getD n '0'

/-- The last `k` hexadecimal digits of a number. -/
def hex : ℕ → ℕ → List Char
  | 0, _ => []
  | k + 1, n => hex k (n / 16) ++ [hexDigit (n % 16)]

/-- `appendEscapedRune`. -/
def escapeRune (printable : ℕ → Bool) (r : ℕ) : List Char :=
  if r = 0x22 ∨ r = 0x5C then ['\\', Char.ofNat r]
  else if printable r then [Char.ofNat r]
  else
    match r with
    | 0x07 => ['\\', 'a']
    | 0x08 => ['\\', 'b']
    | 0x0C => ['\\', 'f']
    | 0x0A => ['\\', 'n']
    | 0x0D => ['\\', 'r']
    | 0x09 => ['\\', 't']
    | 0x0B => ['\\', 'v']
    | r =>
      if r < 0x20 ∨ r = 0x7F then '\\' :: 'x' :: hex 2 r
      else if r < 0x10000 then '\\' :: 'u' :: hex 4 r
      else '\\' :: 'U' :: hex 8 r

/-- The text between the quotes of `strconv.Quote`, with fuel for each byte. -/
def quoteFrom (printable : ℕ → Bool) : ℕ → List UInt8 → List Char
  | 0, _ | _, [] => []
  | fuel + 1, b :: bs =>
    let (r, width) := Utf8.decodeRune (b :: bs)
    (if width = 1 ∧ r = Utf8.runeError then '\\' :: 'x' :: hex 2 b.toNat
      else escapeRune printable r) ++ quoteFrom printable fuel ((b :: bs).drop width)

/-- `strconv.Quote`. -/
def quote (printable : ℕ → Bool) (s : List UInt8) : String :=
  String.ofList ('"' :: (quoteFrom printable s.length s ++ ['"']))

/-- `quote` of package `time`. -/
def quoteDuration (s : List UInt8) : String :=
  String.ofList ('"' :: (s.flatMap (fun b =>
    if 0x80 ≤ b ∨ b < 0x20 then '\\' :: 'x' :: hex 2 b.toNat
    else if b = 0x22 ∨ b = 0x5C then ['\\', Char.ofNat b.toNat]
    else [Char.ofNat b.toNat]) ++ ['"']))

/-! ## Integers -/

/-- `strconv.ErrSyntax`, `strconv.ErrRange`. -/
inductive NumError
  | invalid
  | range
  deriving DecidableEq, Repr

/-- `NumError.Error`, of `ParseInt`. -/
def NumError.text (printable : ℕ → Bool) (s : List UInt8) (e : NumError) : String :=
  "strconv.ParseInt: parsing " ++ quote printable s ++ ": " ++
    match e with
    | .invalid => "invalid syntax"
    | .range => "value out of range"

/-- A number with one more digit. -/
def appendDigit (n : ℕ) (b : UInt8) : ℕ := n * 10 + (b.toNat - 0x30)

/-- The loop of `strconv.ParseUint`. -/
def parseUintLoop : ℕ → List UInt8 → Except NumError ℕ
  | n, [] => .ok n
  | n, b :: s =>
    if isDigit b = false then .error .invalid
    else if 2 ^ 64 ≤ appendDigit n b then .error .range
    else parseUintLoop (appendDigit n b) s

/-- The text after a sign. -/
def unsigned (s : List UInt8) : List UInt8 :=
  if s.head? = some 0x2B ∨ s.head? = some 0x2D then s.tail else s

/-- The sign is a minus. -/
def isNegative (s : List UInt8) : Bool := s.head? = some 0x2D

/-- `strconv.ParseInt`. -/
def parseInt (s : List UInt8) : Except NumError ℤ :=
  if unsigned s = [] then .error .invalid
  else do
    let n ← parseUintLoop 0 (unsigned s)
    if isNegative s = false ∧ 2 ^ 63 ≤ n then .error .range
    else if isNegative s = true ∧ 2 ^ 63 < n then .error .range
    else if isNegative s then .ok (-n) else .ok n

/-- An integer of any size. -/
def readInt (s : List UInt8) : Option ℤ :=
  if unsigned s ≠ [] ∧ (unsigned s).all isDigit then
    some (if isNegative s then -(natOfDigits (unsigned s)) else natOfDigits (unsigned s))
  else none

/-! ## Durations -/

/-- The errors of `ParseDuration`. -/
inductive DurationError
  | invalid
  | missingUnit
  | unknownUnit (unit : List UInt8)
  deriving DecidableEq, Repr

/-- The text of an error. -/
def DurationError.text (s : List UInt8) : DurationError → String
  | .invalid => "time: invalid duration " ++ quoteDuration s
  | .missingUnit => "time: missing unit in duration " ++ quoteDuration s
  | .unknownUnit unit => "time: unknown unit " ++ quoteDuration unit ++ " in duration " ++
    quoteDuration s

/-- `unitMap`. A microsecond is spelled with either of two characters. -/
def unitMap (s : List UInt8) : Option ℕ :=
  if s = [0x6E, 0x73] then some 1
  else if s = [0x75, 0x73] ∨ s = [0xC2, 0xB5, 0x73] ∨ s = [0xCE, 0xBC, 0x73] then some (10 ^ 3)
  else if s = [0x6D, 0x73] then some (10 ^ 6)
  else if s = [0x73] then some (10 ^ 9)
  else if s = [0x6D] then some (60 * 10 ^ 9)
  else if s = [0x68] then some (3600 * 10 ^ 9)
  else none

/-- A number with a unit. -/
structure Term where
  whole : List UInt8
  fraction : List UInt8
  unit : ℕ
  deriving DecidableEq, Repr

/-- A byte of a unit. -/
def isUnit (b : UInt8) : Bool := !(b = 0x2E || isDigit b)

/-- The fraction at the front of a text, if there is one. -/
def splitFraction (s : List UInt8) : List UInt8 × List UInt8 :=
  if s.head? = some 0x2E then (s.tail.takeWhile isDigit, s.tail.dropWhile isDigit) else ([], s)

/-- The term at the front of a text. -/
def splitTerm (s : List UInt8) : Except DurationError (Term × List UInt8) :=
  let whole := s.takeWhile isDigit
  let (fraction, s) := splitFraction (s.dropWhile isDigit)
  if whole = [] ∧ fraction = [] then .error .invalid
  else if s.takeWhile isUnit = [] then .error .missingUnit
  else
    match unitMap (s.takeWhile isUnit) with
    | none => .error (.unknownUnit (s.takeWhile isUnit))
    | some unit => .ok (⟨whole, fraction, unit⟩, s.dropWhile isUnit)

/-- `leadingInt`, of digits. -/
def leadingInt : ℕ → List UInt8 → Option ℕ
  | x, [] => some x
  | x, b :: s =>
    if 2 ^ 63 / 10 < x then none
    else if 2 ^ 63 < appendDigit x b then none
    else leadingInt (appendDigit x b) s

/-- Ten times a double, none for an infinity. -/
def timesTen (scale : Option ℚ) : Option ℚ := scale.bind fun q => Binary64.finite (q * 10)

/-- `leadingFraction`, of digits: the digits as a number, and the power of ten. Digits that do not
fit are dropped. -/
def leadingFraction : ℕ → Option ℚ → List UInt8 → ℕ × Option ℚ
  | x, scale, [] => (x, scale)
  | x, scale, b :: s =>
    if (2 ^ 63 - 1) / 10 < x then (x, scale)
    else if 2 ^ 63 < appendDigit x b then (x, scale)
    else leadingFraction (appendDigit x b) (timesTen scale) s

/-- `uint64(float64(f) * (float64(unit) / scale))`. -/
def scaleFraction (f unit : ℕ) : Option ℚ → ℕ
  | none => 0
  | some scale => ⌊Binary64.round (Binary64.round f * Binary64.round (unit / scale))⌋₊

/-- A term in 64 bits. -/
def Term.value (t : Term) (v : ℕ) : Except DurationError ℕ :=
  if 2 ^ 63 / t.unit < v then .error .invalid
  else
    let (f, scale) := leadingFraction 0 (some 1) t.fraction
    if 0 < f then
      let v := v * t.unit + scaleFraction f t.unit scale
      if 2 ^ 63 < v then .error .invalid else .ok v
    else .ok (v * t.unit)

/-- The loop of `ParseDuration`. -/
def parseTerms : ℕ → ℕ → List UInt8 → Except DurationError ℕ
  | 0, _, _ => .error .invalid
  | fuel + 1, d, s =>
    if s = [] then .ok d
    else if s.head?.all isUnit then .error .invalid
    else
      match leadingInt 0 (s.takeWhile isDigit) with
      | none => .error .invalid
      | some v => do
        let (t, s) ← splitTerm s
        let v ← t.value v
        let d := (d + v) % 2 ^ 64
        if 2 ^ 63 < d then .error .invalid else parseTerms fuel d s

/-- `time.ParseDuration`, in nanoseconds. -/
def parseDuration (s : List UInt8) : Except DurationError ℤ :=
  if unsigned s = [0x30] then .ok 0
  else if unsigned s = [] then .error .invalid
  else do
    let d ← parseTerms ((unsigned s).length + 1) 0 (unsigned s)
    if isNegative s then .ok (-d)
    else if 2 ^ 63 ≤ d then .error .invalid
    else .ok d

/-- A term in integers of any size, cut off at the nanosecond. -/
def Term.exact (t : Term) : ℕ :=
  natOfDigits t.whole * t.unit + natOfDigits t.fraction * t.unit / 10 ^ t.fraction.length

/-- The terms of a duration. -/
def readTerms : ℕ → List UInt8 → Option (List Term)
  | 0, _ => none
  | fuel + 1, s =>
    if s = [] then some []
    else
      match splitTerm s with
      | .error _ => none
      | .ok (t, s) => (readTerms fuel s).map (t :: ·)

/-- A duration of any size. -/
def readDuration (s : List UInt8) : Option ℤ :=
  if unsigned s = [0x30] then some 0
  else if unsigned s = [] then none
  else (readTerms ((unsigned s).length + 1) (unsigned s)).map fun ts =>
    if isNegative s then -((ts.map Term.exact).sum) else (ts.map Term.exact).sum

/-- The number of digits of the fraction that count: as many as give at most `2 ^ 63`. -/
def Term.kept (t : Term) : ℕ :=
  Nat.findGreatest (fun k => natOfDigits (t.fraction.take k) ≤ 2 ^ 63) t.fraction.length

/-- A power of ten by multiplication of doubles, none for an infinity. -/
def powerOfTen (k : ℕ) : Option ℚ := timesTen^[k] (some 1)

/-- A term whose fraction goes through doubles: the number that its digits give, times the unit
over the power of ten, where each operation is rounded and the result is cut off. -/
def Term.rounded (t : Term) : ℕ :=
  natOfDigits t.whole * t.unit +
    scaleFraction (natOfDigits (t.fraction.take t.kept)) t.unit (powerOfTen t.kept)

/-- The terms of a duration, with or without a sign. -/
def terms (s : List UInt8) : List Term :=
  (readTerms ((unsigned s).length + 1) (unsigned s)).getD []

/-- The nanoseconds that the terms of a text gain or lose in doubles. -/
def roundingError (s : List UInt8) : ℤ :=
  ((terms s).map Term.rounded).sum - ((terms s).map Term.exact).sum

/-! ## Integers are read as they are -/

lemma natOfDigits_eq (s : List UInt8) : natOfDigits s = s.foldl appendDigit 0 := rfl

lemma parseUintLoop_ok {n m : ℕ} {s : List UInt8} (h : parseUintLoop n s = .ok m) :
    s.all isDigit ∧ m = s.foldl appendDigit n := by
  induction s generalizing n with
  | nil => exact ⟨rfl, (Except.ok.inj h).symm⟩
  | cons b s ih =>
    rw [parseUintLoop] at h
    split_ifs at h with hdigit
    obtain ⟨hall, hm⟩ := ih h
    rw [List.all_cons, hall, Bool.and_true, List.foldl_cons]
    exact ⟨Bool.eq_true_of_not_eq_false hdigit, hm⟩

/-- **What is read as an integer is the same one of any size**, and fits. -/
theorem readInt_of_parseInt {s : List UInt8} {n : ℤ} (h : parseInt s = .ok n) :
    readInt s = some n ∧ -2 ^ 63 ≤ n ∧ n < 2 ^ 63 := by
  unfold parseInt at h
  by_cases hnil : unsigned s = []
  · rw [if_pos hnil] at h
    cases h
  rw [if_neg hnil] at h
  cases hloop : parseUintLoop 0 (unsigned s) with
  | error e =>
    rw [hloop] at h
    cases h
  | ok m =>
    obtain ⟨hall, hm⟩ := parseUintLoop_ok hloop
    rw [← natOfDigits_eq] at hm
    simp only [hloop, bind, Except.bind] at h
    rw [readInt, if_pos ⟨hnil, hall⟩, ← hm]
    cases hneg : isNegative s with
    | true =>
      simp only [hneg, Bool.true_eq_false, false_and, if_false, true_and, if_true] at h ⊢
      split_ifs at h with hsmall
      obtain rfl := Except.ok.inj h
      exact ⟨rfl, by omega, by omega⟩
    | false =>
      simp only [hneg, Bool.false_eq_true, false_and, if_false, true_and] at h ⊢
      split_ifs at h with hlarge
      obtain rfl := Except.ok.inj h
      exact ⟨rfl, by omega, by omega⟩

/-! ## Durations are read as they are, up to wrapping around -/

lemma leadingInt_eq_some {x v : ℕ} {s : List UInt8} (h : leadingInt x s = some v) :
    v = s.foldl appendDigit x := by
  induction s generalizing x with
  | nil => exact (Option.some.inj h).symm
  | cons b s ih =>
    rw [leadingInt] at h
    split_ifs at h
    exact ih h

lemma le_foldl_appendDigit (x : ℕ) (s : List UInt8) : x ≤ s.foldl appendDigit x := by
  induction s generalizing x with
  | nil => exact le_rfl
  | cons b s ih =>
    have hle : x ≤ appendDigit x b := by
      unfold appendDigit
      omega
    exact hle.trans (ih _)

/-- **`leadingFraction` keeps the digits that fit.** -/
lemma leadingFraction_eq {x : ℕ} (scale : Option ℚ) (s : List UInt8) (hx : x ≤ 2 ^ 63) {k : ℕ}
    (hk : k = Nat.findGreatest (fun k => (s.take k).foldl appendDigit x ≤ 2 ^ 63) s.length) :
    leadingFraction x scale s = ((s.take k).foldl appendDigit x, timesTen^[k] scale) := by
  induction s generalizing x scale k with
  | nil =>
    obtain rfl : k = 0 := by simpa using hk
    rfl
  | cons b s ih =>
    rw [leadingFraction]
    rcases lt_or_ge (2 ^ 63) (appendDigit x b) with hlarge | hsmall
    · -- no digit is kept, as more of them only make the number larger
      have hzero : k = 0 := by
        rw [hk, Nat.findGreatest_eq_zero_iff]
        intro n hn _ hle
        obtain ⟨n, rfl⟩ := Nat.exists_eq_succ_of_ne_zero hn.ne'
        rw [List.take_succ_cons, List.foldl_cons] at hle
        exact absurd ((le_foldl_appendDigit _ _).trans hle) (not_le.mpr hlarge)
      subst hzero
      rw [if_pos hlarge, ite_self]
      rfl
    · have hfirst : ¬(2 ^ 63 - 1) / 10 < x := by
        unfold appendDigit at hsmall
        omega
      rw [if_neg hfirst, if_neg (not_lt.mpr hsmall), ih (timesTen scale) hsmall rfl]
      have hsucc : k = Nat.findGreatest
          (fun k => (s.take k).foldl appendDigit (appendDigit x b) ≤ 2 ^ 63) s.length + 1 := by
        rw [hk, Nat.findGreatest_eq_iff]
        refine ⟨Nat.succ_le_succ (Nat.findGreatest_le _), fun _ => ?_, fun n hn hle => ?_⟩
        · rw [List.take_succ_cons, List.foldl_cons]
          exact Nat.findGreatest_spec
            (P := fun k => (s.take k).foldl appendDigit (appendDigit x b) ≤ 2 ^ 63)
            (Nat.zero_le _) hsmall
        · obtain ⟨n, rfl⟩ := Nat.exists_eq_succ_of_ne_zero (Nat.ne_of_gt (Nat.zero_lt_of_lt hn))
          rw [List.take_succ_cons, List.foldl_cons]
          exact Nat.findGreatest_is_greatest
            (P := fun k => (s.take k).foldl appendDigit (appendDigit x b) ≤ 2 ^ 63)
            (Nat.lt_of_succ_lt_succ hn) (Nat.le_of_succ_le_succ hle)
      rw [hsucc, List.take_succ_cons, List.foldl_cons, Function.iterate_succ_apply]

/-- A unit is at least a nanosecond and at most an hour. -/
lemma unitMap_bounds {s : List UInt8} {unit : ℕ} (h : unitMap s = some unit) :
    0 < unit ∧ unit ≤ 3600 * 10 ^ 9 := by
  unfold unitMap at h
  split_ifs at h <;> obtain rfl := Option.some.inj h <;> decide

/-- What is split off begins with the digits at the front. Its fraction is one of digits, and its
unit at most an hour. -/
lemma splitTerm_ok {s s' : List UInt8} {t : Term} (h : splitTerm s = .ok (t, s')) :
    t.whole = s.takeWhile isDigit ∧ t.fraction.all isDigit ∧
      0 < t.unit ∧ t.unit ≤ 3600 * 10 ^ 9 := by
  simp only [splitTerm] at h
  split_ifs at h with hdigits hunit
  split at h
  · cases h
  next unit hmap =>
    obtain ⟨rfl, rfl⟩ := Prod.mk.inj (Except.ok.inj h)
    refine ⟨rfl, ?_, ?_⟩
    · unfold splitFraction
      split_ifs
      · exact List.all_takeWhile
      · rfl
    · exact unitMap_bounds hmap

lemma scaleFraction_zero (unit : ℕ) (scale : Option ℚ) : scaleFraction 0 unit scale = 0 := by
  have hzero : Binary64.round 0 = 0 := by exact_mod_cast Binary64.round_intCast (n := 0) (by decide)
  cases scale with
  | none => rfl
  | some scale => simp [scaleFraction, hzero]

/-- A term in 64 bits, if it fits, is the one with its fraction in doubles. -/
lemma Term.value_ok {t : Term} {v r : ℕ} (hv : v = natOfDigits t.whole) (h : t.value v = .ok r) :
    r = t.rounded := by
  have hlead : leadingFraction 0 (some 1) t.fraction =
      (natOfDigits (t.fraction.take t.kept), powerOfTen t.kept) :=
    leadingFraction_eq (some 1) t.fraction (Nat.zero_le _) rfl
  simp only [Term.value, hlead] at h
  rw [Term.rounded, ← hv]
  split_ifs at h with hlarge hzero hsum
  · exact (Except.ok.inj h).symm
  · rw [Nat.eq_zero_of_not_pos hzero, scaleFraction_zero]
    exact (Except.ok.inj h).symm

/-- **The loop reads the terms** and adds them up, modulo `2 ^ 64`. -/
lemma parseTerms_ok {fuel d r : ℕ} {s : List UInt8} (hd : d ≤ 2 ^ 63)
    (h : parseTerms fuel d s = .ok r) :
    r ≤ 2 ^ 63 ∧ ∃ ts, readTerms fuel s = some ts ∧
      ∃ k, d + (ts.map Term.rounded).sum = r + k * 2 ^ 64 := by
  induction fuel generalizing d s with
  | zero => cases h
  | succ fuel ih =>
    rw [parseTerms] at h
    by_cases hnil : s = []
    · rw [if_pos hnil] at h
      obtain rfl := Except.ok.inj h
      exact ⟨hd, [], by rw [readTerms, if_pos hnil], 0, by simp⟩
    rw [if_neg hnil] at h
    split_ifs at h with hhead
    cases hlead : leadingInt 0 (s.takeWhile isDigit) with
    | none =>
      rw [hlead] at h
      cases h
    | some v =>
      cases hsplit : splitTerm s with
      | error e =>
        simp only [hlead, hsplit, bind, Except.bind] at h
        cases h
      | ok split =>
        obtain ⟨t, s'⟩ := split
        cases hvalue : t.value v with
        | error e =>
          simp only [hlead, hsplit, hvalue, bind, Except.bind] at h
          cases h
        | ok w =>
          simp only [hlead, hsplit, hvalue, bind, Except.bind] at h
          split_ifs at h with hlarge
          obtain ⟨hr, ts, hread, k, hk⟩ := ih (not_lt.mp hlarge) h
          have hw : w = t.rounded := by
            refine Term.value_ok ?_ hvalue
            rw [leadingInt_eq_some hlead, (splitTerm_ok hsplit).1, natOfDigits_eq]
          have hdiv := Nat.div_add_mod (d + w) (2 ^ 64)
          refine ⟨hr, t :: ts, by simp [readTerms, hnil, hsplit, hread], (d + w) / 2 ^ 64 + k, ?_⟩
          rw [List.map_cons, List.sum_cons, ← hw]
          omega

/-- **What is read as a duration is one of any size**, and fits. It is the same if and only if that
one fits and the fractions lose nothing. -/
theorem readDuration_of_parseDuration {s : List UInt8} {n : ℤ} (h : parseDuration s = .ok n) :
    -2 ^ 63 ≤ n ∧ n < 2 ^ 63 ∧ ∃ m, readDuration s = some m ∧
      (m = n ↔ (-2 ^ 63 ≤ m ∧ m < 2 ^ 63) ∧ 2 ^ 64 ∣ roundingError s) := by
  unfold parseDuration at h
  rw [readDuration]
  by_cases hzero : unsigned s = [0x30]
  · rw [if_pos hzero] at h ⊢
    obtain rfl := Except.ok.inj h
    have herror : roundingError s = 0 := by
      rw [roundingError, terms, hzero]
      rfl
    exact ⟨by decide, by decide, 0, rfl, by simp [herror]⟩
  by_cases hnil : unsigned s = []
  · rw [if_neg hzero, if_pos hnil] at h
    cases h
  rw [if_neg hzero, if_neg hnil] at h ⊢
  cases hterms : parseTerms ((unsigned s).length + 1) 0 (unsigned s) with
  | error e =>
    simp only [hterms, bind, Except.bind] at h
    cases h
  | ok d =>
    simp only [hterms, bind, Except.bind] at h
    obtain ⟨hd, ts, hread, k, hk⟩ := parseTerms_ok (Nat.zero_le _) hterms
    rw [roundingError, terms, hread, Option.map_some, Option.getD_some]
    generalize (ts.map Term.rounded).sum = rounded at hk ⊢
    generalize (ts.map Term.exact).sum = exact
    cases hneg : isNegative s with
    | true =>
      simp only [hneg, if_true] at h ⊢
      obtain rfl := Except.ok.inj h
      exact ⟨by omega, by omega, _, rfl, by omega⟩
    | false =>
      simp only [hneg, Bool.false_eq_true, if_false] at h ⊢
      split_ifs at h with hlarge
      obtain rfl := Except.ok.inj h
      exact ⟨by omega, by omega, _, rfl, by omega⟩

/-! ## Fractions of whole nanoseconds -/

lemma foldl_appendDigit_lt {s : List UInt8} (h : s.all isDigit) (x : ℕ) :
    s.foldl appendDigit x < (x + 1) * 10 ^ s.length := by
  induction s generalizing x with
  | nil => simp
  | cons b s ih =>
    obtain ⟨hdigit, hrest⟩ := Bool.and_eq_true_iff.mp (List.all_cons ▸ h)
    have hdigit' : b.toNat ≤ 0x39 := by
      simp only [isDigit, Bool.and_eq_true, decide_eq_true_eq] at hdigit
      exact UInt8.le_iff_toNat_le.mp hdigit.2
    have hle : appendDigit x b + 1 ≤ (x + 1) * 10 := by
      unfold appendDigit
      omega
    calc s.foldl appendDigit (appendDigit x b) < (appendDigit x b + 1) * 10 ^ s.length :=
          ih hrest _
      _ ≤ (x + 1) * 10 * 10 ^ s.length := Nat.mul_le_mul_right _ hle
      _ = (x + 1) * 10 ^ (s.length + 1) := by ring

lemma natOfDigits_lt {s : List UInt8} (h : s.all isDigit) : natOfDigits s < 10 ^ s.length := by
  simpa [natOfDigits_eq] using foldl_appendDigit_lt h 0

/-- Powers of ten up to `2 ^ 53` are doubles. -/
lemma powerOfTen_eq {k : ℕ} (h : 10 ^ k ≤ 2 ^ 53) : powerOfTen k = some (10 ^ k) := by
  induction k with
  | zero => simp [powerOfTen]
  | succ k ih =>
    have hround : Binary64.round ((10 : ℚ) ^ (k + 1)) = 10 ^ (k + 1) := by
      have hint := Binary64.round_intCast (n := 10 ^ (k + 1))
        (by rw [abs_of_nonneg (by positivity)]; exact_mod_cast h)
      exact_mod_cast hint
    have hfinite : ¬Binary64.Overflows ((10 : ℚ) ^ (k + 1)) := by
      have hle : (10 : ℚ) ^ (k + 1) ≤ 2 ^ 53 := by exact_mod_cast h
      rw [Binary64.Overflows, hround, abs_of_nonneg (by positivity), not_le]
      exact hle.trans_lt (pow_lt_pow_right₀ (by norm_num) (by norm_num))
    have hsmaller : 10 ^ k ≤ 2 ^ 53 := (Nat.pow_le_pow_right (by norm_num) k.le_succ).trans h
    rw [powerOfTen, Function.iterate_succ_apply', ← powerOfTen, ih hsmaller, timesTen,
      Option.bind_some, ← pow_succ, Binary64.finite, if_neg hfinite, hround]

/-- A fraction with no more digits than the unit has zeros loses nothing. -/
lemma Term.rounded_eq_exact {t : Term} (hdigits : t.fraction.all isDigit) (hpos : 0 < t.unit)
    (hunit : t.unit ≤ 3600 * 10 ^ 9) (h : 10 ^ t.fraction.length ∣ t.unit) :
    t.rounded = t.exact := by
  obtain ⟨c, hc⟩ := h
  have hpower : 10 ^ t.fraction.length ≤ t.unit := Nat.le_of_dvd hpos ⟨c, hc⟩
  have hlt := natOfDigits_lt hdigits
  have hkept : t.kept = t.fraction.length := by
    refine Nat.findGreatest_eq ?_
    rw [List.take_length]
    omega
  have hc' : (t.unit : ℚ) / 10 ^ t.fraction.length = c := by
    rw [hc]
    push_cast
    field_simp
  -- all three numbers are integers below `2 ^ 53`
  have hround : ∀ n : ℕ, n ≤ t.unit → Binary64.round n = n := by
    intro n hn
    exact_mod_cast Binary64.round_intCast (n := n) (by rw [abs_of_nonneg (by positivity)]; omega)
  have hcle : c ≤ t.unit := by
    rw [hc]
    exact Nat.le_mul_of_pos_left c (by positivity)
  have hproduct : natOfDigits t.fraction * c ≤ t.unit := by
    rw [hc]
    exact Nat.mul_le_mul_right c hlt.le
  have hscaled : scaleFraction (natOfDigits t.fraction) t.unit (some (10 ^ t.fraction.length)) =
      natOfDigits t.fraction * c := by
    rw [scaleFraction, hc', hround _ (by omega), hround c hcle, ← Nat.cast_mul, hround _ hproduct,
      Nat.floor_natCast]
  rw [Term.rounded, Term.exact, hkept, List.take_length, powerOfTen_eq (by omega), hscaled]
  congr 1
  rw [hc, Nat.mul_left_comm, Nat.mul_div_cancel_left _ (by positivity)]

lemma mem_readTerms {fuel : ℕ} {s : List UInt8} {ts : List Term} (h : readTerms fuel s = some ts) :
    ∀ t ∈ ts, t.fraction.all isDigit ∧ 0 < t.unit ∧ t.unit ≤ 3600 * 10 ^ 9 := by
  induction fuel generalizing s ts with
  | zero => cases h
  | succ fuel ih =>
    rw [readTerms] at h
    split_ifs at h with hnil
    · obtain rfl := Option.some.inj h
      exact fun t ht => by cases ht
    · cases hsplit : splitTerm s with
      | error e =>
        rw [hsplit] at h
        cases h
      | ok split =>
        obtain ⟨t, s'⟩ := split
        rw [hsplit] at h
        obtain ⟨rest, hrest, rfl⟩ := Option.map_eq_some_iff.mp h
        exact List.forall_mem_cons.mpr ⟨(splitTerm_ok hsplit).2, ih hrest⟩

/-- **Fractions of whole nanoseconds lose nothing**: they have no more digits than there are zeros
in their units. -/
theorem roundingError_eq_zero {s : List UInt8}
    (h : ∀ t ∈ terms s, 10 ^ t.fraction.length ∣ t.unit) : roundingError s = 0 := by
  have hterms : ∀ t ∈ terms s, t.rounded = t.exact := by
    intro t ht
    have ht' := ht
    unfold terms at ht'
    cases hread : readTerms ((unsigned s).length + 1) (unsigned s) with
    | none =>
      rw [hread] at ht'
      cases ht'
    | some ts =>
      rw [hread] at ht'
      obtain ⟨hdigits, hpos, hunit⟩ := mem_readTerms hread t ht'
      exact Term.rounded_eq_exact hdigits hpos hunit (h t ht)
  rw [roundingError, List.map_congr_left hterms, sub_self]

/-- Half an hour with too many zeros loses a nanosecond. -/
example : parseDuration ("0.50000000000000h".toUTF8.toList) = .ok 1799999999999 ∧
    roundingError ("0.50000000000000h".toUTF8.toList) = -1 := by
  decide +kernel

/-- The sum wraps around. -/
example : parseDuration ("9223372036854775808ns9223372036854775808ns".toUTF8.toList) = .ok 0 := by
  decide +kernel

end GoText
