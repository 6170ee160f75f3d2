import Idemio.Base.Binary64
import Idemio.Api.Response
import Idemio.Properties.Wholeness

set_option relaxedAutoImplicit false
set_option autoImplicit false

/-!
# The conflict window

A manifest declares the conflict window of a resource type in milliseconds. `definition` multiplies
that to nanoseconds in 64 bits, `conflictingIntents` turns these into seconds in double precision,
and `make_interval` of Postgres turns the seconds into microseconds.

## Main definitions

* `Idemio.durationSeconds`, `Idemio.makeInterval` — `Duration.Seconds` and `make_interval`.
* `Idemio.ManifestSnapshot.served` — what requests are admitted with.
* `Idemio.WindowChecked` — the declared window is the one that is checked.

## Main results

* `Idemio.makeInterval_of_lt` — up to 272 years the interval is the duration, to the microsecond.
* `Idemio.makeInterval_queryWindow` — there is one for every duration.
* `Idemio.windowFits_iff` — which windows the interval covers.
* `Idemio.window_of_admission` — an admitted request has the interval of its type.
* `Idemio.declared_window_iff` — the declared window is checked exactly if it fits.
* `Idemio.declared_window_wraps` — one that does not fit and turns conflict detection off.
-/

namespace Idemio

/-! ## From milliseconds to the interval -/

/-- `Duration.Seconds`. -/
def durationSeconds (d : Duration) : ℚ :=
  Binary64.round (Binary64.round (d / second).toInt +
    Binary64.round (Binary64.round (d % second).toInt / 10 ^ 9))

/-- `make_interval(secs => …)`, in microseconds. It is an error if these do not fit. -/
def makeInterval (secs : ℚ) : Option Time :=
  let micros := Binary64.roundEven (Binary64.round (secs * 10 ^ 6))
  if Fits64 micros then some micros else none

/-- The interval that `selectWindow` is executed with. -/
def queryWindow (d : Duration) : Time := (makeInterval (durationSeconds d)).getD 0

lemma toInt_second : second.toInt = 10 ^ 9 := by decide

/-- The whole seconds of a duration, and the nanoseconds that are left. -/
lemma seconds_and_rest (d : Duration) :
    (d / second).toInt * 10 ^ 9 + (d % second).toInt = d.toInt ∧ |(d % second).toInt| < 10 ^ 9 ∧
      |(d / second).toInt| ≤ 2 ^ 53 ∧ (0 ≤ d.toInt → 0 ≤ (d % second).toInt) := by
  obtain ⟨hlow, hhigh⟩ := fits64_toInt d
  have hsum := Int.tdiv_mul_add_tmod d.toInt (10 ^ 9)
  have habove := Int.tmod_lt_of_pos d.toInt (by norm_num : (0 : ℤ) < 10 ^ 9)
  have hbelow := Int.lt_tmod_of_pos d.toInt (by norm_num : (0 : ℤ) < 10 ^ 9)
  have hdiv : (d / second).toInt = d.toInt.tdiv (10 ^ 9) := by
    rw [Int64.toInt_div, toInt_second]
    refine Fits64.bmod_eq ⟨?_, ?_⟩ <;> omega
  have hmod : (d % second).toInt = d.toInt.tmod (10 ^ 9) := by rw [Int64.toInt_mod, toInt_second]
  rw [hdiv, hmod]
  refine ⟨hsum, abs_lt.mpr ⟨hbelow, habove⟩, abs_le.mpr ⟨?_, ?_⟩, Int.tmod_nonneg _⟩ <;> omega

/-- The nanoseconds that are left, as a fraction of a second. -/
def fraction (nsec : ℤ) : ℚ := Binary64.round (nsec / 10 ^ 9)

lemma exists_seconds_and_rest (d : Duration) :
    ∃ sec nsec : ℤ, durationSeconds d = Binary64.round (sec + fraction nsec) ∧
      (d.toInt : ℚ) / 10 ^ 9 = sec + nsec / 10 ^ 9 ∧ |nsec| < 10 ^ 9 ∧
      (0 ≤ d.toInt → 0 ≤ nsec) := by
  obtain ⟨hsum, hrest, hwhole, hnonneg⟩ := seconds_and_rest d
  refine ⟨(d / second).toInt, (d % second).toInt, ?_, ?_, hrest, hnonneg⟩
  · rw [durationSeconds, fraction, Binary64.round_intCast hwhole,
      Binary64.round_intCast (hrest.le.trans (by norm_num))]
  · rw [← hsum]
    push_cast
    ring

lemma abs_fraction_sub_le {nsec : ℤ} (h : |nsec| < 10 ^ 9) :
    |fraction nsec - nsec / 10 ^ 9| ≤ 2 ^ (-52 : ℤ) / 2 := by
  refine Binary64.abs_round_sub_le_of_lt (by norm_num) ?_
  have hcast : |(nsec : ℚ)| < 10 ^ 9 := by exact_mod_cast h
  rw [abs_div, abs_of_pos (by norm_num : (0 : ℚ) < 10 ^ 9), div_lt_iff₀ (by norm_num)]
  norm_num at hcast ⊢
  linarith

/-- A duration of less than `2 ^ n` seconds is a nanosecond less at least. -/
lemma abs_seconds_le {d : Duration} {n : ℕ} (h : |d.toInt| < 2 ^ n * 10 ^ 9) :
    |(d.toInt : ℚ) / 10 ^ 9| ≤ 2 ^ n - 1 / 10 ^ 9 := by
  have hcast : ((|d.toInt| : ℤ) : ℚ) ≤ ((2 ^ n * 10 ^ 9 - 1 : ℤ) : ℚ) :=
    Int.cast_le.mpr (Int.le_sub_one_of_lt h)
  rw [Int.cast_abs, Int.cast_sub, Int.cast_mul, Int.cast_pow, Int.cast_pow, Int.cast_one,
    Int.cast_ofNat, Int.cast_ofNat] at hcast
  rw [abs_div, abs_of_pos (by norm_num : (0 : ℚ) < 10 ^ 9), div_le_iff₀ (by norm_num)]
  linarith

/-- **The error of `Duration.Seconds`**, of less than `2 ^ n` seconds. -/
lemma abs_durationSeconds_sub_le {d : Duration} {n : ℕ} (hn : 1 ≤ n)
    (h : |d.toInt| < 2 ^ n * 10 ^ 9) :
    |durationSeconds d - d.toInt / 10 ^ 9| ≤ 2 ^ (n - 53 : ℤ) / 2 + 2 ^ (-52 : ℤ) / 2 := by
  obtain ⟨sec, nsec, hexact, hd, hrest, -⟩ := exists_seconds_and_rest d
  have herror := abs_fraction_sub_le hrest
  -- a nanosecond is more than the error of the fraction
  have hsize : |(sec : ℚ) + fraction nsec| < 2 ^ ((n - 53 : ℤ) + 53) := by
    have hseconds := abs_seconds_le h
    have hsplit : (sec : ℚ) + fraction nsec =
        d.toInt / 10 ^ 9 + (fraction nsec - nsec / 10 ^ 9) := by
      rw [hd]
      ring
    rw [sub_add_cancel, zpow_natCast, hsplit]
    refine (abs_add_le _ _).trans_lt ?_
    norm_num at herror hseconds ⊢
    linarith
  have herror' := Binary64.abs_round_sub_le_of_lt (by omega) hsize
  rw [hexact, hd]
  calc |Binary64.round (sec + fraction nsec) - (sec + nsec / 10 ^ 9)|
      = |(Binary64.round (sec + fraction nsec) - (sec + fraction nsec)) +
          (fraction nsec - nsec / 10 ^ 9)| := by ring_nf
    _ ≤ _ := (abs_add_le _ _).trans (add_le_add herror' herror)

/-- **Up to 272 years the interval is the duration**, if that is an even number of microseconds.

**Proof sketch.** Less than `2 ^ 33` seconds have their last place at `2 ^ -20` of a second, so what
the interval is rounded from is less than half a microsecond away. -/
lemma makeInterval_of_lt {d : Duration} {n : ℤ} (hd : d.toInt = n * 1000) (heven : n % 2 = 0)
    (hn : |n| < 2 ^ 33 * 10 ^ 6) : makeInterval (durationSeconds d) = some n := by
  have hsize : |d.toInt| < 2 ^ 33 * 10 ^ 9 := by
    rw [hd, abs_mul]
    norm_num at hn ⊢
    omega
  have herror := abs_durationSeconds_sub_le (by norm_num) hsize
  obtain ⟨y, hy⟩ : ∃ y, durationSeconds d * 10 ^ 6 = y := ⟨_, rfl⟩
  have hmicros : |y - n| < 1 / 2 := by
    have hscale : y - n = (durationSeconds d - d.toInt / 10 ^ 9) * 10 ^ 6 := by
      rw [← hy, hd]
      push_cast
      ring
    rw [hscale, abs_mul, abs_of_pos (by norm_num : (0 : ℚ) < 10 ^ 6)]
    norm_num at herror ⊢
    linarith
  have hlarge : |y| < 2 ^ 53 := by
    have hcast : ((|n| : ℤ) : ℚ) < ((2 ^ 33 * 10 ^ 6 : ℤ) : ℚ) := Int.cast_lt.mpr hn
    have habs := abs_sub_abs_le_abs_sub y n
    rw [Int.cast_abs] at hcast
    norm_num at hcast ⊢
    linarith
  have hfits : Fits64 n := by
    obtain ⟨hlow, hhigh⟩ := abs_lt.mp hn
    exact ⟨by norm_num at hlow ⊢; omega, by norm_num at hhigh ⊢; omega⟩
  rw [makeInterval, hy, Binary64.roundEven_round heven hmicros hlarge]
  exact if_pos hfits

/-- No duration has too many microseconds. -/
lemma exists_makeInterval (d : Duration) : ∃ t, makeInterval (durationSeconds d) = some t := by
  obtain ⟨hlow, hhigh⟩ := fits64_toInt d
  have hsize : |d.toInt| < 2 ^ 34 * 10 ^ 9 :=
    abs_lt.mpr ⟨by norm_num at hlow ⊢; omega, by norm_num at hhigh ⊢; omega⟩
  have herror := abs_durationSeconds_sub_le (by norm_num) hsize
  obtain ⟨y, hy⟩ : ∃ y, durationSeconds d * 10 ^ 6 = y := ⟨_, rfl⟩
  have hlarge : |y| < 2 ^ 54 := by
    have hcast : (d.toInt : ℚ) < 2 ^ 63 ∧ -2 ^ 63 ≤ (d.toInt : ℚ) :=
      ⟨by exact_mod_cast hhigh, by exact_mod_cast hlow⟩
    obtain ⟨hbelow, habove⟩ := abs_le.mp herror
    rw [← hy, abs_lt]
    norm_num at hcast hbelow habove ⊢
    constructor <;> linarith
  obtain ⟨hround, hround'⟩ := abs_le.mp (Binary64.abs_round_sub_le_of_lt (k := 1) (by norm_num)
    (by norm_num at hlarge ⊢; exact hlarge))
  obtain ⟨heven, heven'⟩ := abs_le.mp (Binary64.abs_roundEven_sub_le (Binary64.round y))
  obtain ⟨hylow, hyhigh⟩ := abs_lt.mp hlarge
  have hfits : Fits64 (Binary64.roundEven (Binary64.round y)) := by
    norm_num at hround hround' hylow hyhigh
    have habove : (Binary64.roundEven (Binary64.round y) : ℚ) < ((2 ^ 55 : ℤ) : ℚ) := by
      norm_num
      linarith
    have hbelow : ((-2 ^ 55 : ℤ) : ℚ) < Binary64.roundEven (Binary64.round y) := by
      norm_num
      linarith
    have habove' := Int.cast_lt.mp habove
    have hbelow' := Int.cast_lt.mp hbelow
    exact ⟨by norm_num at hbelow' ⊢; omega, by norm_num at habove' ⊢; omega⟩
  exact ⟨_, by rw [makeInterval, hy, if_pos hfits]⟩

/-- **The query has an interval for every duration.** -/
lemma makeInterval_queryWindow (d : Duration) :
    makeInterval (durationSeconds d) = some (queryWindow d) := by
  obtain ⟨t, ht⟩ := exists_makeInterval d
  rw [queryWindow, ht, Option.getD_some]

lemma queryWindow_eq (d : Duration) :
    queryWindow d = Binary64.roundEven (Binary64.round (durationSeconds d * 10 ^ 6)) := by
  have h := makeInterval_queryWindow d
  rw [makeInterval] at h
  split_ifs at h
  exact (Option.some.inj h).symm

/-! ### Windows of more than 272 years -/

variable {w : ℤ}

/-- The milliseconds `w` as a multiple of `2 ^ -19` seconds, and the rest in 125ths of that. -/
lemma exists_multiple (w : ℤ) :
    ∃ k : ℤ, 2 ^ 16 * w = 125 * k + (2 ^ 16 * w).bmod 125 ∧ |(2 ^ 16 * w).bmod 125| ≤ 62 := by
  have hlow := Int.le_bmod (x := 2 ^ 16 * w) (m := 125) (by decide)
  have hhigh := Int.bmod_lt (x := 2 ^ 16 * w) (m := 125) (by decide)
  obtain ⟨k, hk⟩ : ((125 : ℕ) : ℤ) ∣ 2 ^ 16 * w - (2 ^ 16 * w).bmod 125 := Int.dvd_self_sub_bmod
  exact ⟨k, by omega, abs_le.mpr ⟨by omega, by omega⟩⟩

/-- From `2 ^ 33` seconds on `Duration.Seconds` is the nearest multiple of `2 ^ -19`. There is no
tie, and the error of the fraction of a second is too small to matter. -/
lemma durationSeconds_large {d : Duration} {k r : ℤ} (hd : d.toInt = w * 10 ^ 6)
    (hlarge : 2 ^ 33 * 1000 ≤ w) (hk : 2 ^ 16 * w = 125 * k + r) (hr : |r| ≤ 62) :
    durationSeconds d = k * 2 ^ (-19 : ℤ) := by
  obtain ⟨sec, nsec, hexact, hsum, hrest, hnonneg⟩ := exists_seconds_and_rest d
  obtain ⟨herror, herror'⟩ := abs_le.mp (abs_fraction_sub_le hrest)
  have hfraction : 0 ≤ fraction nsec :=
    Binary64.round_nonneg (div_nonneg (by exact_mod_cast hnonneg (by omega)) (by norm_num))
  have hseconds : (w : ℚ) / 1000 = sec + nsec / 10 ^ 9 := by
    rw [← hsum, hd]
    push_cast
    ring
  have hmultiple : (w : ℚ) / 1000 = k * 2 ^ (-19 : ℤ) + r / (125 * 2 ^ 19) := by
    have hcast : (2 : ℚ) ^ 16 * w = 125 * k + r := by exact_mod_cast hk
    norm_num at hcast ⊢
    linarith
  have hw : (2 : ℚ) ^ 33 * 1000 ≤ w ∧ (w : ℚ) * 10 ^ 6 < 2 ^ 63 := by
    have hfits : w * 10 ^ 6 < 2 ^ 63 := hd ▸ d.toInt_lt
    exact ⟨by exact_mod_cast hlarge, by exact_mod_cast hfits⟩
  obtain ⟨hlow, hhigh⟩ := hw
  have hr' : (-62 : ℚ) ≤ r ∧ (r : ℚ) ≤ 62 := by exact_mod_cast abs_le.mp hr
  have hnsec : (nsec : ℚ) < 10 ^ 9 := by exact_mod_cast (abs_lt.mp hrest).2
  -- the whole seconds alone reach the power of two
  have hsec : (2 : ℚ) ^ 33 ≤ sec := by
    have hlt : ((2 ^ 33 - 1 : ℤ) : ℚ) < sec := by
      norm_num at hlow hnsec ⊢
      linarith
    have hle : (2 ^ 33 : ℤ) ≤ sec := Int.le_of_sub_one_lt (Int.cast_lt.mp hlt)
    exact_mod_cast hle
  rw [hexact]
  norm_num at herror herror' hlow hhigh hsec hmultiple
  refine Binary64.round_eq_of_near (by norm_num) ?_ ?_ (abs_lt.mpr ⟨?_, ?_⟩)
  · norm_num
    linarith
  · norm_num
    linarith
  · norm_num
    linarith [hr'.1]
  · norm_num
    linarith [hr'.2]

/-- Below `2 ^ 53` microseconds the interval is the nearest integer. -/
lemma le_roundEven_round_iff {y : ℚ} {r : ℤ} (hr : |r| ≤ 62) (hy : y = w * 1000 - r * 125 / 8192)
    (hlarge : 2 ^ 33 * 1000 ≤ w) (hsmall : w * 1000 < 2 ^ 53) :
    w * 1000 ≤ Binary64.roundEven (Binary64.round y) ↔ r ≤ 32 := by
  obtain ⟨hrlow, hrhigh⟩ : (-62 : ℚ) ≤ r ∧ (r : ℚ) ≤ 62 := by exact_mod_cast abs_le.mp hr
  have hlow : (2 : ℚ) ^ 33 * 1000 ≤ w := by exact_mod_cast hlarge
  have hhigh : (w : ℚ) * 1000 ≤ 2 ^ 53 - 992 := by
    have hle : w * 1000 ≤ 2 ^ 53 - 992 := by omega
    exact_mod_cast hle
  norm_num at hlow hhigh
  rw [Binary64.round_eq_roundEven (by norm_num; linarith) (by norm_num; linarith),
    Binary64.roundEven_intCast]
  obtain ⟨hbelow, habove⟩ := abs_le.mp (Binary64.abs_roundEven_sub_le y)
  constructor
  · intro hle
    by_contra hgt
    have hrest : (33 : ℚ) ≤ r := by exact_mod_cast not_le.mp hgt
    have hcast : (w : ℚ) * 1000 ≤ Binary64.roundEven y := by exact_mod_cast hle
    linarith
  · intro hle
    have hrest : (r : ℚ) ≤ 32 := by exact_mod_cast hle
    have hlt : ((w * 1000 - 1 : ℤ) : ℚ) < Binary64.roundEven y := by
      push_cast
      linarith
    exact Int.le_of_sub_one_lt (Int.cast_lt.mp hlt)

/-- From there on it is the nearest even one, which is the window. -/
lemma roundEven_round_eq {y : ℚ} {r : ℤ} (hr : |r| ≤ 62) (hy : y = w * 1000 - r * 125 / 8192)
    (hhuge : 2 ^ 53 ≤ w * 1000) (hfits : w * 10 ^ 6 < 2 ^ 63) :
    Binary64.roundEven (Binary64.round y) = w * 1000 := by
  obtain ⟨hrlow, hrhigh⟩ : (-62 : ℚ) ≤ r ∧ (r : ℚ) ≤ 62 := by exact_mod_cast abs_le.mp hr
  have hlow : (2 : ℚ) ^ 53 + 8 ≤ w * 1000 := by
    have hle : 2 ^ 53 + 8 ≤ w * 1000 := by omega
    exact_mod_cast hle
  have hhigh : (w : ℚ) * 10 ^ 6 < 2 ^ 63 := by exact_mod_cast hfits
  norm_num at hlow hhigh
  have hnear : |y - ((w * 500 : ℤ) : ℚ) * 2 ^ (1 : ℤ)| < 2 ^ (1 : ℤ) / 2 := by
    rw [abs_lt]
    push_cast
    norm_num
    constructor <;> linarith
  have hexact : ((w * 500 : ℤ) : ℚ) * 2 ^ (1 : ℤ) = ((w * 1000 : ℤ) : ℚ) := by
    push_cast
    ring
  rw [Binary64.round_eq_of_near (by norm_num) (by norm_num; linarith) (by norm_num; linarith) hnear,
    hexact, Binary64.roundEven_intCast]

/-- **Which long windows their interval covers.** -/
lemma le_queryWindow_iff {d : Duration} (hd : d.toInt = w * 10 ^ 6) (hlarge : 2 ^ 33 * 1000 ≤ w) :
    w * 1000 ≤ queryWindow d ↔ (w * 1000 < 2 ^ 53 → (2 ^ 16 * w).bmod 125 ≤ 32) := by
  obtain ⟨k, hk, hr⟩ := exists_multiple w
  generalize (2 ^ 16 * w).bmod 125 = r at hk hr ⊢
  have hmicros : durationSeconds d * 10 ^ 6 = w * 1000 - r * 125 / 8192 := by
    have hcast : (2 : ℚ) ^ 16 * w = 125 * k + r := by exact_mod_cast hk
    rw [durationSeconds_large hd hlarge hk hr]
    norm_num at hcast ⊢
    linarith
  rw [queryWindow_eq]
  rcases lt_or_ge (w * 1000) (2 ^ 53) with hsmall | hhuge
  · rw [le_roundEven_round_iff hr hmicros hlarge hsmall]
    exact ⟨fun hle _ => hle, fun hle => hle hsmall⟩
  · rw [roundEven_round_eq hr hmicros hhuge (hd ▸ d.toInt_lt)]
    exact iff_of_true le_rfl fun hlt => absurd hhuge (not_le.mpr hlt)

/-! ## The window of a request -/

/-- The class of a text. -/
def Class.ofText (text : String) : Option Class :=
  [Class.create, .replace, .mutate, .append, .delete].find? fun c => c.text = text

/-- What a claim needs of a definition. -/
def ManifestDefinition.served (m : ManifestDefinition) : Definition where
  conflictWindow := queryWindow m.conflictWindow
  enforce := m.enforce
  operations name := (m.operations.lookup name).bind fun o =>
    (Class.ofText o.cls).map fun cls => ⟨cls, o.scope.elements⟩

/-- What requests are admitted with. -/
def ManifestSnapshot.served (s : ManifestSnapshot) : Snapshot where
  version := s.version
  lookup resourceType := (s.byType.lookup resourceType).map ManifestDefinition.served

variable {env : Env} {d : Directory} {s : ManifestSnapshot} {m : ManifestDefinition}

/-- **An admitted request has the interval of its type.** -/
lemma window_of_admission {http : WriteHTTP} {req : Request}
    (h : admission env s.served http = .ok req) :
    ∃ m, s.byType.lookup req.resourceType = some m ∧ req.window = queryWindow m.conflictWindow := by
  unfold admission at h
  dsimp only at h
  repeat' split at h
  all_goals try cases h
  next definition declared hlookup _ _ _ =>
    obtain ⟨definition', hdefinition, hrest⟩ := Option.bind_eq_some_iff.mp hlookup
    obtain ⟨declared', -, hpair⟩ := Option.bind_eq_some_iff.mp hrest
    obtain ⟨rfl, rfl⟩ := Prod.mk.inj (Option.some.inj hpair)
    obtain ⟨m, hm, rfl⟩ := Option.map_eq_some_iff.mp hdefinition
    exact ⟨m, hm, rfl⟩

/-- The window that was declared in milliseconds is the one that is checked. -/
structure WindowChecked (w : ℤ) (m : ManifestDefinition) : Prop where
  positive : 0 < m.conflictWindow
  exact : m.conflictWindow.toInt = w * 10 ^ 6
  compared : ∀ (db : Database) (req : Request) (now : Time) (exclude : ℕ) (rows : List IntentRow),
    req.resourceType = m.type → req.window = queryWindow m.conflictWindow →
    SelectWindow db req now exclude rows → ∀ i ∈ db.intents, i.resourceType = req.resourceType →
    i.resourceID = req.resourceID → i.live = true → i.intentID ≠ exclude →
    now - i.emittedAt < w * 1000 → i ∈ rows

/-- The window fits into 64 bits as nanoseconds, and no microsecond of it is lost in seconds. From
`2 ^ 33` seconds on these are a multiple of `2 ^ -19`, that is of 125 / 65536 milliseconds; up to
`2 ^ 53` microseconds the interval is short if the window is 33 or more 65536ths of a millisecond
above that. -/
def WindowFits (w : ℤ) : Prop :=
  w * 10 ^ 6 < 2 ^ 63 ∧
    (2 ^ 33 * 1000 ≤ w → w * 1000 < 2 ^ 53 → (2 ^ 16 * w).bmod 125 ≤ 32)

instance (w : ℤ) : Decidable (WindowFits w) := inferInstanceAs (Decidable (_ ∧ (_ → _ → _)))

/-- All windows below `2 ^ 33` seconds fit. -/
lemma windowFits_of_lt (hw : w < 2 ^ 33 * 1000) : WindowFits w :=
  ⟨by omega, fun hlarge => absurd hw (not_lt.mpr hlarge)⟩

/-- **A window fits if the interval covers it**, when the nanoseconds do not wrap around. -/
lemma windowFits_iff {d : Duration} (hpos : 0 < w) (hd : d.toInt = w * 10 ^ 6) :
    WindowFits w ↔ w * 1000 ≤ queryWindow d := by
  have hfits : w * 10 ^ 6 < 2 ^ 63 := hd ▸ d.toInt_lt
  rcases lt_or_ge w (2 ^ 33 * 1000) with hw | hlarge
  · have hinterval : makeInterval (durationSeconds d) = some (w * 1000) :=
      makeInterval_of_lt (by omega) (by omega) (abs_lt.mpr ⟨by omega, by omega⟩)
    refine iff_of_true (windowFits_of_lt hw) ?_
    rw [queryWindow, hinterval, Option.getD_some]
  · rw [le_queryWindow_iff hd hlarge]
    exact ⟨fun h => h.2 hlarge, fun h => ⟨hfits, fun _ => h⟩⟩

lemma toInt_millisecond : millisecond.toInt = 10 ^ 6 := by decide

/-- The nanoseconds of a window that fits. -/
lemma toInt_mul_millisecond (hpos : 0 < w) (hfits : w * 10 ^ 6 < 2 ^ 63) :
    (Int64.ofInt w * millisecond).toInt = w * 10 ^ 6 := by
  have hw : (Int64.ofInt w).toInt = w :=
    Int64.toInt_ofInt_of_le (by norm_num; omega) (by norm_num at hfits ⊢; omega)
  rw [toInt_mul_of_fits, hw, toInt_millisecond]
  rw [hw, toInt_millisecond]
  exact ⟨by norm_num; omega, hfits⟩

/-- A request of the type of a definition. -/
def Request.ofType (m : ManifestDefinition) : Request :=
  ⟨"a", "k", "h", m.type, "r", "put", ⟨.mutate, []⟩, [], queryWindow m.conflictWindow, true, "1"⟩

/-- **What is compared is what the interval covers.** An intent that is as old as the interval is
not in it. -/
lemma WindowChecked.le_queryWindow (h : WindowChecked w m) :
    w * 1000 ≤ queryWindow m.conflictWindow := by
  by_contra hlt
  let i : IntentRow :=
    ⟨1, "b", "k", m.type, "r", "put", ⟨.mutate, []⟩, [], -queryWindow m.conflictWindow, none⟩
  have hedge : inWindow (.ofType m) 0 0 i = false := by simp [inWindow, Request.ofType, i]
  have hrows : SelectWindow ⟨∅, [i], []⟩ (.ofType m) 0 0 [] := by
    simp [SelectWindow, hedge]
  have hmem := h.compared ⟨∅, [i], []⟩ (.ofType m) 0 0 [] rfl rfl hrows i (by simp) rfl rfl rfl
    (by simp [i]) (by simpa [i] using hlt)
  cases hmem

/-- **The declared window of a definition.** -/
lemma windowChecked_iff {doc : Document} (hpos : 0 < doc.conflictWindowMS) :
    WindowChecked doc.conflictWindowMS doc.definition ↔ WindowFits doc.conflictWindowMS := by
  obtain ⟨w, hw⟩ : ∃ w, doc.conflictWindowMS = w := ⟨_, rfl⟩
  have hwindow : doc.definition.conflictWindow = Int64.ofInt w * millisecond := by rw [← hw]; rfl
  rw [hw] at hpos ⊢
  constructor
  · intro h
    exact (windowFits_iff hpos h.exact).mpr h.le_queryWindow
  · intro hfits
    have hexact : doc.definition.conflictWindow.toInt = w * 10 ^ 6 := by
      rw [hwindow, toInt_mul_millisecond hpos hfits.1]
    have hcovers := (windowFits_iff hpos hexact).mp hfits
    refine ⟨?_, hexact, ?_⟩
    · rw [Int64.lt_iff_toInt_lt, hexact]
      change (0 : ℤ) < _
      omega
    · intro db req now exclude rows _ hreq hrows i hi htype hresource hlive hne hage
      refine hrows.1.mem_iff.mpr (List.mem_filter.mpr ⟨hi, ?_⟩)
      simp only [inWindow, Bool.and_eq_true, decide_eq_true_eq]
      exact ⟨⟨⟨⟨htype, hresource⟩, by rw [hreq]; linarith⟩, hlive⟩, hne⟩

lemma pos_of_validate {doc : Document} {name : String} (h : doc.validate name = []) :
    0 < doc.conflictWindowMS := by
  simp only [Document.validate, List.append_eq_nil_iff] at h
  obtain ⟨⟨⟨⟨⟨-, hwindow⟩, -⟩, -⟩, -⟩, -⟩ := h
  simpa using hwindow

/-- The entry of a key, if no other entry has it. -/
lemma lookup_of_mem {α : Type} {l : List (String × α)} (hnodup : (l.map Prod.fst).Nodup)
    {k : String} {v : α} (h : (k, v) ∈ l) : l.lookup k = some v := by
  induction l with
  | nil => cases h
  | cons entry l ih =>
    obtain ⟨hnew, hnodup⟩ := List.nodup_cons.mp hnodup
    rcases List.mem_cons.mp h with rfl | h
    · exact List.lookup_cons_self
    · have hne : k ≠ entry.1 := by
        rintro rfl
        exact hnew (List.mem_map.mpr ⟨_, h, rfl⟩)
      rw [List.lookup_cons, beq_false_of_ne hne]
      exact ih hnodup h

/-- **The definition of a file is served** under its type. -/
lemma lookup_of_load {file : String} {raw : RawMessage} {doc : Document}
    (hload : load env d = .ok s) (hfile : (file, .ok raw) ∈ d.paths)
    (hdoc : decodeDocument raw = some doc) :
    doc.validate (stem file) = [] ∧ s.byType.lookup doc.resourceType = some doc.definition := by
  obtain ⟨hdeclares, hnodup⟩ := load_ok hload
  obtain ⟨n, hn, hget⟩ := List.getElem_of_mem hfile
  have hn' : n < s.byType.length := hdeclares.length_eq ▸ hn
  obtain ⟨raw', doc', hraw, hdoc', hvalid, hentry⟩ := hdeclares.get hn hn'
  simp only [List.get_eq_getElem, hget] at hraw hvalid hentry
  obtain rfl := Except.ok.inj hraw
  obtain rfl := Option.some.inj (hdoc.symm.trans hdoc')
  exact ⟨hvalid, lookup_of_mem hnodup (hentry ▸ List.getElem_mem hn')⟩

/-- The manifest of the type `a`, with another window. -/
def manifestDeclaring (ms : String) : RawMessage :=
  (manifestText 97).take 42 ++ utf8 ms ++ (manifestText 97).drop 43

/-- It is decoded to this document. -/
def Document.declaring (w : ℤ) : Document :=
  ⟨"a", w, false, "/", [("put", ⟨"append", .nil⟩)], ⟨⟨[⟨200, 299⟩], 1⟩, .nil⟩⟩

/-- A directory with this manifest. -/
def Directory.declaring (ms : String) : Directory :=
  ⟨[("a.json", .ok (manifestDeclaring ms))], List.nodup_singleton _⟩

/-- What is loaded from it. -/
def ManifestSnapshot.declaring (w : ℤ) : ManifestSnapshot :=
  ⟨"617b227265736f75", [("a", (Document.declaring w).definition)]⟩

lemma mem_paths_declaring (ms : String) :
    ("a.json", .ok (manifestDeclaring ms)) ∈ (Directory.declaring ms).paths := by
  have hsuffix : ".json".toList.isSuffixOf "a.json".toList = true := by decide
  simp only [Directory.paths, Directory.declaring, List.mem_insertionSort, List.mem_filter,
    List.mem_singleton, hsuffix, and_self]

/-- **The declared window is checked exactly if it fits.** Every file of a directory that `Load`
accepts has its definition served, and the requests of its type are admitted with the interval of
that. The window of the definition is positive, the one that was declared, and all live intents that
are younger are compared, if and only if the nanoseconds fit into 64 bits and the seconds lose no
microsecond. -/
theorem declared_window_iff {file : String} {raw : RawMessage} {doc : Document}
    (hload : load env d = .ok s) (hfile : (file, .ok raw) ∈ d.paths)
    (hdoc : decodeDocument raw = some doc) :
    ∃ m, s.byType.lookup doc.resourceType = some m ∧
      (∀ http req, admission env s.served http = .ok req → req.resourceType = doc.resourceType →
        req.window = queryWindow m.conflictWindow) ∧
      (WindowChecked doc.conflictWindowMS m ↔ WindowFits doc.conflictWindowMS) := by
  obtain ⟨hvalid, hlookup⟩ := lookup_of_load hload hfile hdoc
  refine ⟨_, hlookup, fun http req hreq htype => ?_, windowChecked_iff (pos_of_validate hvalid)⟩
  obtain ⟨m, hm, hwindow⟩ := window_of_admission hreq
  rw [htype, hlookup] at hm
  obtain rfl := Option.some.inj hm
  exact hwindow

/-- A manifest with a window of one minute. -/
theorem declared_window_iff_minute :
    load .digest (.declaring "60000") = .ok (.declaring 60000) ∧ WindowFits 60000 ∧
    WindowChecked 60000 (Document.declaring 60000).definition := by
  have hload : load .digest (.declaring "60000") = .ok (.declaring 60000) := by decide +kernel
  have hdoc : decodeDocument (manifestDeclaring "60000") = some (.declaring 60000) := by
    decide +kernel
  have hfits : WindowFits 60000 := windowFits_of_lt (by norm_num)
  obtain ⟨m, hm, -, hiff⟩ := declared_window_iff hload (mem_paths_declaring _) hdoc
  obtain rfl : (Document.declaring 60000).definition = m := Option.some.inj hm
  exact ⟨hload, hfits, hiff.mpr hfits⟩

/-- A window of 9223372036855 milliseconds is accepted and becomes a negative one, so that no intent
is compared that was emitted before. -/
theorem declared_window_wraps :
    let m := (Document.declaring 9223372036855).definition
    load .digest (.declaring "9223372036855") = .ok (.declaring 9223372036855) ∧
    m.conflictWindow.toInt = -9223372036854551616 ∧ ¬ WindowChecked 9223372036855 m ∧
    ∀ (db : Database) (req : Request) (now : Time) (exclude : ℕ) (rows : List IntentRow),
      req.window = queryWindow m.conflictWindow → (∀ i ∈ db.intents, i.emittedAt ≤ now) →
      SelectWindow db req now exclude rows → rows = [] := by
  intro m
  have hns : m.conflictWindow.toInt = -9223372036854551616 := by decide +kernel
  have hinterval : queryWindow m.conflictWindow < 0 := by decide +kernel
  refine ⟨by decide +kernel, hns, fun h => ?_, ?_⟩
  · have hexact := h.exact
    rw [hns] at hexact
    norm_num at hexact
  · intro db req now exclude rows hreq hpast hrows
    refine List.eq_nil_iff_forall_not_mem.mpr fun i hi => ?_
    obtain ⟨hmem, hin⟩ := List.mem_filter.mp (hrows.1.mem_iff.mp hi)
    simp only [inWindow, Bool.and_eq_true, decide_eq_true_eq] at hin
    obtain ⟨⟨⟨-, hafter⟩, -⟩, -⟩ := hin
    rw [hreq] at hafter
    linarith [hpast i hmem]

-- the first millisecond after `2 ^ 33` seconds: the interval is a microsecond short
example : ¬WindowFits 8589934592001 ∧
    queryWindow (Int64.ofInt (8589934592001 * 10 ^ 6)) = 8589934592001 * 1000 - 1 := by
  decide +kernel

end Idemio
