import Mathlib.Data.Int.Log
import Mathlib.Data.Rat.Floor
import Mathlib.Tactic.Linarith
import Mathlib.Tactic.Positivity
import Mathlib.Tactic.FieldSimp
import Mathlib.Tactic.Ring

set_option relaxedAutoImplicit false
set_option autoImplicit false

/-!
# Double precision

The finite numbers of IEEE 754 binary64 as rationals, and rounding to the nearest of them, ties to
even. An operation on doubles is the exact one followed by rounding.

## Main definitions

* `Binary64.exponent` — the exponent of the last place that a double of this size has.
* `Binary64.roundEven` — the nearest integer, ties to even.
* `Binary64.round` — the nearest double, if the exponent were unbounded above.
* `Binary64.Overflows`, `Binary64.finite` — rounding gives an infinity, or not.

## Main results

* `Binary64.round_intCast` — integers up to `2 ^ 53` are doubles.
* `Binary64.le_abs_round` — rounding does not go below a power of two.
* `Binary64.abs_round_sub_le` — a double is at most half a last place away.
* `Binary64.round_eq_of_near` — the nearest multiple of the last place is the nearest double.
* `Binary64.roundEven_round` — rounding twice gives the even integer that is less than a half away.
-/

namespace Binary64

/-- The exponent of the last place: there are 53 significant bits, and fewer below `2 ^ -1022`. -/
def exponent (q : ℚ) : ℤ := max (-1074) (Int.log 2 |q| - 52)

/-- The nearest integer, ties to even. -/
def roundEven (q : ℚ) : ℤ :=
  if q - ⌊q⌋ < 1 / 2 then ⌊q⌋
  else if 1 / 2 < q - ⌊q⌋ then ⌊q⌋ + 1
  else if ⌊q⌋ % 2 = 0 then ⌊q⌋ else ⌊q⌋ + 1

/-- The nearest double. -/
def round (q : ℚ) : ℚ := roundEven (q / 2 ^ exponent q) * 2 ^ exponent q

/-- The number is too large for a double. -/
def Overflows (q : ℚ) : Prop := 2 ^ 1024 ≤ |round q|

instance (q : ℚ) : Decidable (Overflows q) := inferInstanceAs (Decidable (_ ≤ _))

/-- The nearest double, if that is not an infinity. -/
def finite (q : ℚ) : Option ℚ := if Overflows q then none else some (round q)

@[simp] lemma roundEven_intCast (n : ℤ) : roundEven n = n := by
  simp [roundEven]

lemma two_zpow_pos (e : ℤ) : (0 : ℚ) < 2 ^ e := zpow_pos (by norm_num) e

lemma floor_le_roundEven (q : ℚ) : ⌊q⌋ ≤ roundEven q := by
  unfold roundEven
  split_ifs <;> omega

lemma roundEven_le_ceil (q : ℚ) : roundEven q ≤ ⌈q⌉ := by
  have hfloor : ⌊q⌋ ≤ ⌈q⌉ := Int.floor_le_ceil q
  have hsucc : ¬q - ⌊q⌋ < 1 / 2 → ⌊q⌋ + 1 ≤ ⌈q⌉ := by
    intro h
    exact Int.lt_ceil.mpr (by linarith)
  unfold roundEven
  split_ifs with hlow
  · exact hfloor
  · exact hsucc hlow
  · exact hfloor
  · exact hsucc hlow

/-- Rounding does not go past an integer. -/
lemma le_abs_roundEven {n : ℕ} {q : ℚ} (h : n ≤ |q|) : (n : ℤ) ≤ |roundEven q| := by
  rcases le_abs.mp h with h | h
  · have hle : (n : ℤ) ≤ ⌊q⌋ := Int.le_floor.mpr (by exact_mod_cast h)
    exact (hle.trans (floor_le_roundEven q)).trans (le_abs_self _)
  · have hle : ⌈q⌉ ≤ -(n : ℤ) := Int.ceil_le.mpr (by push_cast; linarith)
    exact (by linarith [roundEven_le_ceil q] : (n : ℤ) ≤ -roundEven q).trans (neg_le_abs _)

/-- A number with no bit below its last place is a double. -/
lemma round_of_div_eq {q : ℚ} {n : ℤ} (h : q / 2 ^ exponent q = n) : round q = q := by
  rw [round, h, roundEven_intCast, ← h, div_mul_cancel₀ q (two_zpow_pos _).ne']

/-- **Integers up to `2 ^ 53` are doubles.** -/
lemma round_intCast {n : ℤ} (h : |n| ≤ 2 ^ 53) : round n = n := by
  by_cases hzero : n = 0
  · exact round_of_div_eq (n := 0) (by simp [hzero])
  have hpos : (0 : ℚ) < |(n : ℚ)| := by positivity
  have hcast : |(n : ℚ)| ≤ 2 ^ 53 := by exact_mod_cast h
  rcases le_or_gt (exponent n) 0 with hexp | hexp
  · -- the last place is one of the bits after the point
    obtain ⟨k, hk⟩ := Int.exists_eq_neg_ofNat hexp
    refine round_of_div_eq (n := n * 2 ^ k) ?_
    rw [hk, zpow_neg, div_inv_eq_mul, zpow_natCast]
    push_cast
    rfl
  · -- only at `2 ^ 53` itself the last place is an even number
    have hlog : (53 : ℤ) ≤ Int.log 2 |(n : ℚ)| := by
      simp only [exponent, lt_max_iff] at hexp
      omega
    have hle : (2 : ℚ) ^ (53 : ℤ) ≤ |(n : ℚ)| := by
      exact_mod_cast (Int.zpow_le_iff_le_log (b := 2) (by decide) hpos).mpr hlog
    have heq : |(n : ℚ)| = 2 ^ 53 := le_antisymm hcast (by exact_mod_cast hle)
    have hone : exponent n = 1 := by
      have hup : Int.log 2 |(n : ℚ)| < 54 := by
        rw [← Int.lt_zpow_iff_log_lt (by decide) hpos, heq]
        norm_num
      simp only [exponent, lt_max_iff] at hexp ⊢
      omega
    rcases (abs_eq (by positivity)).mp heq with hn | hn
    · exact round_of_div_eq (n := 2 ^ 52) (by rw [hone, hn]; norm_num)
    · exact round_of_div_eq (n := -2 ^ 52) (by rw [hone, hn]; norm_num)

/-- **Rounding does not go below a power of two.** -/
lemma le_abs_round {q : ℚ} {k : ℕ} (h : 2 ^ k ≤ |q|) : 2 ^ k ≤ |round q| := by
  have hpos : 0 < |q| := lt_of_lt_of_le (by positivity) h
  have hlog : (k : ℤ) ≤ Int.log 2 |q| :=
    (Int.zpow_le_iff_le_log (b := 2) (by decide) hpos).mp (by exact_mod_cast h)
  have hexp : Int.log 2 |q| = 52 + exponent q := by
    simp only [exponent]
    omega
  have hself : (2 : ℚ) ^ (52 + exponent q) ≤ |q| := by
    rw [← hexp]
    exact_mod_cast Int.zpow_log_le_self (b := 2) (by decide) hpos
  have hquot : ((2 ^ 52 : ℕ) : ℚ) ≤ |q / 2 ^ exponent q| := by
    rw [abs_div, abs_of_pos (two_zpow_pos _), le_div_iff₀ (two_zpow_pos _)]
    rw [zpow_add₀ (by norm_num)] at hself
    exact_mod_cast hself
  have hround : ((2 ^ 52 : ℕ) : ℚ) ≤ |(roundEven (q / 2 ^ exponent q) : ℚ)| := by
    exact_mod_cast le_abs_roundEven hquot
  calc (2 : ℚ) ^ k = 2 ^ (k : ℤ) := (zpow_natCast 2 k).symm
    _ ≤ 2 ^ (52 + exponent q) := zpow_le_zpow_right₀ (by norm_num) (hexp ▸ hlog)
    _ = (2 ^ 52 : ℕ) * 2 ^ exponent q := by
      rw [zpow_add₀ (by norm_num)]
      norm_num
    _ ≤ |(roundEven (q / 2 ^ exponent q) : ℚ)| * 2 ^ exponent q :=
      mul_le_mul_of_nonneg_right hround (two_zpow_pos _).le
    _ = |round q| := by
      rw [round, abs_mul, abs_of_pos (two_zpow_pos _)]

/-! ## The error of a rounding -/

/-- The nearest integer is at most a half away. -/
lemma abs_roundEven_sub_le (q : ℚ) : |roundEven q - q| ≤ 1 / 2 := by
  have hlow := Int.floor_le q
  have hhigh := Int.lt_floor_add_one q
  unfold roundEven
  split_ifs <;> rw [abs_le] <;> constructor <;> push_cast <;> linarith

/-- Only one integer is less than a half away. -/
lemma roundEven_eq {q : ℚ} {n : ℤ} (h : |q - n| < 1 / 2) : roundEven q = n := by
  have herror := abs_le.mp (abs_roundEven_sub_le q)
  obtain ⟨hlow, hhigh⟩ := abs_lt.mp h
  have habove : (roundEven q : ℚ) < ((n + 1 : ℤ) : ℚ) := by push_cast; linarith
  have hbelow : ((n - 1 : ℤ) : ℚ) < roundEven q := by push_cast; linarith
  have habove' : roundEven q < n + 1 := by exact_mod_cast habove
  have hbelow' : n - 1 < roundEven q := by exact_mod_cast hbelow
  omega

/-- An even integer is nearest up to a half away. -/
lemma roundEven_eq_of_even {q : ℚ} {n : ℤ} (hn : n % 2 = 0) (h : |q - n| ≤ 1 / 2) :
    roundEven q = n := by
  rcases h.lt_or_eq with hlt | heq
  · exact roundEven_eq hlt
  · rcases (abs_eq (by norm_num)).mp heq with hq | hq
    · -- half a step above `n`, the floor of `q` is the even one of its neighbours
      have hfloor : ⌊q⌋ = n := Int.floor_eq_iff.mpr ⟨by linarith, by linarith⟩
      rw [roundEven, hfloor, hq, if_neg (lt_irrefl _), if_neg (lt_irrefl _), if_pos hn]
    · have hfloor : ⌊q⌋ = n - 1 :=
        Int.floor_eq_iff.mpr ⟨by push_cast; linarith, by push_cast; linarith⟩
      have hrest : q - ((n - 1 : ℤ) : ℚ) = 1 / 2 := by push_cast; linarith
      rw [roundEven, hfloor, hrest, if_neg (lt_irrefl _), if_neg (lt_irrefl _),
        if_neg (by omega)]
      omega

/-- **A double is at most half a last place away.** -/
lemma abs_round_sub_le (q : ℚ) : |round q - q| ≤ 2 ^ exponent q / 2 := by
  have hpos := two_zpow_pos (exponent q)
  have hscale : round q - q =
      (roundEven (q / 2 ^ exponent q) - q / 2 ^ exponent q) * 2 ^ exponent q := by
    rw [round, sub_mul, div_mul_cancel₀ q hpos.ne']
  calc |round q - q|
      = |roundEven (q / 2 ^ exponent q) - q / 2 ^ exponent q| * 2 ^ exponent q := by
        rw [hscale, abs_mul, abs_of_pos hpos]
    _ ≤ 1 / 2 * 2 ^ exponent q := mul_le_mul_of_nonneg_right (abs_roundEven_sub_le _) hpos.le
    _ = 2 ^ exponent q / 2 := by ring

/-- The last place of a number below a power of two. That of zero is the one of `1`. -/
lemma exponent_le {q : ℚ} {k : ℤ} (hk : -52 ≤ k) (h : |q| < 2 ^ (k + 53)) : exponent q ≤ k := by
  refine max_le (by omega) ?_
  rcases (abs_nonneg q).eq_or_lt with hzero | hpos
  · rw [← hzero, Int.log_zero_right]
    omega
  · have hlog : Int.log 2 |q| < k + 53 := (Int.lt_zpow_iff_log_lt (b := 2) (by decide) hpos).mp
      (by exact_mod_cast h)
    omega

/-- The last place of a number between two powers of two. -/
lemma exponent_eq {q : ℚ} {k : ℤ} (hk : -52 ≤ k) (hlow : 2 ^ (k + 52) ≤ q)
    (hhigh : q < 2 ^ (k + 53)) : exponent q = k := by
  have hpos : 0 < q := (two_zpow_pos _).trans_le hlow
  refine le_antisymm (exponent_le hk (by rwa [abs_of_pos hpos])) (le_max_of_le_right ?_)
  have hlog : k + 52 ≤ Int.log 2 q :=
    (Int.zpow_le_iff_le_log (b := 2) (by decide) hpos).mp (by exact_mod_cast hlow)
  rw [abs_of_pos hpos]
  omega

/-- **The nearest multiple of the last place is the nearest double.** -/
lemma round_eq_of_near {q : ℚ} {k n : ℤ} (hk : -52 ≤ k) (hlow : 2 ^ (k + 52) ≤ q)
    (hhigh : q < 2 ^ (k + 53)) (h : |q - n * 2 ^ k| < 2 ^ k / 2) : round q = n * 2 ^ k := by
  have hpos := two_zpow_pos k
  have hquot : |q / 2 ^ k - n| < 1 / 2 := by
    have hscale : q / 2 ^ k - n = (q - n * 2 ^ k) / 2 ^ k := by
      field_simp
    rw [hscale, abs_div, abs_of_pos hpos, div_lt_iff₀ hpos]
    linarith
  rw [round, exponent_eq hk hlow hhigh, roundEven_eq hquot]

/-- From `2 ^ 52` to `2 ^ 53` the doubles are the integers. -/
lemma round_eq_roundEven {q : ℚ} (hlow : 2 ^ 52 ≤ q) (hhigh : q < 2 ^ 53) :
    round q = roundEven q := by
  have hexponent : exponent q = 0 :=
    exponent_eq (by norm_num) (by norm_num; exact hlow) (by norm_num; exact hhigh)
  rw [round, hexponent, zpow_zero, div_one, mul_one]

/-- The error of a number below a power of two. -/
lemma abs_round_sub_le_of_lt {q : ℚ} {k : ℤ} (hk : -52 ≤ k) (h : |q| < 2 ^ (k + 53)) :
    |round q - q| ≤ 2 ^ k / 2 :=
  (abs_round_sub_le q).trans (div_le_div_of_nonneg_right
    (zpow_le_zpow_right₀ (by norm_num) (exponent_le hk h)) (by norm_num))

/-- A multiple of a power of two that is no less than the last place is one of the last place. -/
lemma exists_mul_two_zpow {e k : ℤ} (h : e ≤ k) (n : ℤ) :
    ∃ m : ℤ, (n : ℚ) * 2 ^ k = m * 2 ^ e := by
  obtain ⟨i, rfl⟩ := Int.le.dest h
  refine ⟨n * 2 ^ i, ?_⟩
  rw [zpow_add₀ (by norm_num), zpow_natCast]
  push_cast
  ring

/-- **Rounding does not go below what it could stop at.** -/
lemma le_round {q : ℚ} {k n : ℤ} (hk : exponent q ≤ k) (h : n * 2 ^ k ≤ q) :
    n * 2 ^ k ≤ round q := by
  obtain ⟨m, hm⟩ := exists_mul_two_zpow hk n
  have hpos := two_zpow_pos (exponent q)
  rw [hm] at h ⊢
  have hfloor : m ≤ ⌊q / 2 ^ exponent q⌋ := Int.le_floor.mpr ((le_div_iff₀ hpos).mpr h)
  have hround : (m : ℚ) ≤ roundEven (q / 2 ^ exponent q) := by
    exact_mod_cast hfloor.trans (floor_le_roundEven _)
  exact mul_le_mul_of_nonneg_right hround hpos.le

/-- **Nor above it.** -/
lemma round_le {q : ℚ} {k n : ℤ} (hk : exponent q ≤ k) (h : q ≤ n * 2 ^ k) :
    round q ≤ n * 2 ^ k := by
  obtain ⟨m, hm⟩ := exists_mul_two_zpow hk n
  have hpos := two_zpow_pos (exponent q)
  rw [hm] at h ⊢
  have hceil : ⌈q / 2 ^ exponent q⌉ ≤ m := Int.ceil_le.mpr ((div_le_iff₀ hpos).mpr h)
  have hround : (roundEven (q / 2 ^ exponent q) : ℚ) ≤ m := by
    exact_mod_cast (roundEven_le_ceil _).trans hceil
  exact mul_le_mul_of_nonneg_right hround hpos.le

/-- Rounding keeps the sign. -/
lemma round_nonneg {q : ℚ} (h : 0 ≤ q) : 0 ≤ round q := by
  have hle := le_round (n := 0) (le_refl (exponent q)) (by simpa using h)
  simpa using hle

/-- **Rounding to a double and then to an integer** gives the even integer that is less than a half
away. Below `2 ^ 52` the double may be half-way to the next one, and from there on it is an
integer. -/
lemma roundEven_round {q : ℚ} {n : ℤ} (hn : n % 2 = 0) (hq : |q - n| < 1 / 2)
    (hlarge : |q| < 2 ^ 53) : roundEven (round q) = n := by
  obtain ⟨hlow, hhigh⟩ := abs_lt.mp hq
  have hexp : exponent q ≤ 0 := exponent_le (by norm_num) (by norm_num; exact hlarge)
  rcases hexp.eq_or_lt with hzero | hneg
  · have hround : round q = n := by
      rw [round, hzero, zpow_zero, div_one, mul_one, roundEven_eq hq]
    rw [hround, roundEven_intCast]
  · have hk : exponent q ≤ -1 := by omega
    refine roundEven_eq_of_even hn (abs_le.mpr ⟨?_, ?_⟩)
    · have hle := le_round (n := 2 * n - 1) hk (by push_cast; norm_num; linarith)
      push_cast at hle
      norm_num at hle
      linarith
    · have hle := round_le (n := 2 * n + 1) hk (by push_cast; norm_num; linarith)
      push_cast at hle
      norm_num at hle
      linarith

end Binary64
