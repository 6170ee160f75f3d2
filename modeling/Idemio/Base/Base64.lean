import Mathlib.Algebra.Order.Group.Nat
import Mathlib.Data.UInt
import Mathlib.Tactic.IntervalCases
import Mathlib.Tactic.Lemma

set_option relaxedAutoImplicit false
set_option autoImplicit false

/-!
# Base64url without padding

The encoding of RFC 4648 with the alphabet for URLs: three bytes are four digits, and two or one
at the end are three or two. A decoder passes over line breaks, and does not look at the bits that
are left over in the last digit.

## Main definitions

* `Base64.encode`, `Base64.decode` — bytes as text, and back.

## Main results

* `Base64.decode_encode` — what is encoded is decoded.
-/

namespace Base64

/-- A digit. -/
def digit (n : ℕ) : UInt8 :=
  if n < 26 then (0x41 + n).toUInt8
  else if n < 52 then (0x61 + (n - 26)).toUInt8
  else if n < 62 then (0x30 + (n - 52)).toUInt8
  else if n = 62 then 0x2D
  else 0x5F

/-- The value of a digit. -/
def value (b : UInt8) : Option ℕ :=
  if 0x41 ≤ b ∧ b ≤ 0x5A then some (b.toNat - 0x41)
  else if 0x61 ≤ b ∧ b ≤ 0x7A then some (b.toNat - 0x61 + 26)
  else if 0x30 ≤ b ∧ b ≤ 0x39 then some (b.toNat - 0x30 + 52)
  else if b = 0x2D then some 62
  else if b = 0x5F then some 63
  else none

/-- Bytes as text. -/
def encode : List UInt8 → List UInt8
  | a :: b :: c :: bs =>
    digit (a.toNat / 4) :: digit (a.toNat % 4 * 16 + b.toNat / 16) ::
      digit (b.toNat % 16 * 4 + c.toNat / 64) :: digit (c.toNat % 64) :: encode bs
  | [a, b] =>
    [digit (a.toNat / 4), digit (a.toNat % 4 * 16 + b.toNat / 16), digit (b.toNat % 16 * 4)]
  | [a] => [digit (a.toNat / 4), digit (a.toNat % 4 * 16)]
  | [] => []

/-- The bytes of a text without line breaks, given the values of its digits. -/
def decodeValues : List ℕ → Option (List UInt8)
  | w :: x :: y :: z :: vs =>
    (decodeValues vs).map fun bs =>
      (w * 4 + x / 16).toUInt8 :: (x % 16 * 16 + y / 4).toUInt8 :: (y % 4 * 64 + z).toUInt8 :: bs
  | [w, x, y] => some [(w * 4 + x / 16).toUInt8, (x % 16 * 16 + y / 4).toUInt8]
  | [w, x] => some [(w * 4 + x / 16).toUInt8]
  | [_] => none
  | [] => some []

/-- A line break. -/
def isBreak (b : UInt8) : Bool := b = 0x0A || b = 0x0D

/-- The bytes of a text. -/
def decode (text : List UInt8) : Option (List UInt8) :=
  ((text.filter fun b => !isBreak b).mapM value).bind decodeValues

/-! ## Round trip -/

lemma value_digit {n : ℕ} (h : n < 64) : value (digit n) = some n := by
  interval_cases n <;> decide

lemma digit_not_break {n : ℕ} (h : n < 64) : isBreak (digit n) = false := by
  interval_cases n <;> decide

lemma mapM_value_digit {vs : List ℕ} (h : ∀ n ∈ vs, n < 64) :
    (vs.map digit).mapM value = some vs := by
  induction vs with
  | nil => rfl
  | cons n vs ih =>
    rw [List.forall_mem_cons] at h
    simp [List.mapM_cons, value_digit h.1, ih h.2]

/-- The values of the digits of `encode`. -/
def values : List UInt8 → List ℕ
  | a :: b :: c :: bs =>
    a.toNat / 4 :: (a.toNat % 4 * 16 + b.toNat / 16) :: (b.toNat % 16 * 4 + c.toNat / 64) ::
      (c.toNat % 64) :: values bs
  | [a, b] => [a.toNat / 4, a.toNat % 4 * 16 + b.toNat / 16, b.toNat % 16 * 4]
  | [a] => [a.toNat / 4, a.toNat % 4 * 16]
  | [] => []

lemma encode_eq_map (bs : List UInt8) : encode bs = (values bs).map digit := by
  induction bs using values.induct with
  | case1 a b c bs ih => simp [encode, values, ih]
  | case2 a b => rfl
  | case3 a => rfl
  | case4 => rfl

lemma lt_of_mem_values {bs : List UInt8} {n : ℕ} (h : n ∈ values bs) : n < 64 := by
  induction bs using values.induct with
  | case1 a b c bs ih =>
    have ha := a.toNat_lt
    have hb := b.toNat_lt
    have hc := c.toNat_lt
    simp only [values, List.mem_cons] at h
    rcases h with rfl | rfl | rfl | rfl | h
    · omega
    · omega
    · omega
    · omega
    · exact ih h
  | case2 a b =>
    have ha := a.toNat_lt
    have hb := b.toNat_lt
    simp only [values, List.mem_cons, List.not_mem_nil, or_false] at h
    omega
  | case3 a =>
    have ha := a.toNat_lt
    simp only [values, List.mem_cons, List.not_mem_nil, or_false] at h
    omega
  | case4 => cases h

/-- What is encoded is digits. -/
lemma exists_digit_of_mem_encode {bs : List UInt8} {b : UInt8} (h : b ∈ encode bs) :
    ∃ n < 64, b = digit n := by
  rw [encode_eq_map] at h
  obtain ⟨n, hn, rfl⟩ := List.mem_map.mp h
  exact ⟨n, lt_of_mem_values hn, rfl⟩

lemma toUInt8_eq {n : ℕ} {b : UInt8} (h : n = b.toNat) : n.toUInt8 = b := by
  rw [h]
  simp

lemma decodeValues_values (bs : List UInt8) : decodeValues (values bs) = some bs := by
  induction bs using values.induct with
  | case1 a b c bs ih =>
    have ha := a.toNat_lt
    have hb := b.toNat_lt
    have hc := c.toNat_lt
    rw [values, decodeValues, ih, Option.map_some,
      toUInt8_eq (by omega : _ = a.toNat), toUInt8_eq (by omega : _ = b.toNat),
      toUInt8_eq (by omega : _ = c.toNat)]
  | case2 a b =>
    have ha := a.toNat_lt
    have hb := b.toNat_lt
    rw [values, decodeValues, toUInt8_eq (by omega : _ = a.toNat),
      toUInt8_eq (by omega : _ = b.toNat)]
  | case3 a =>
    have ha := a.toNat_lt
    rw [values, decodeValues, toUInt8_eq (by omega : _ = a.toNat)]
  | case4 => rfl

/-- **What is encoded is decoded.** -/
theorem decode_encode (bs : List UInt8) : decode (encode bs) = some bs := by
  have hfilter : ((values bs).map digit).filter (fun b => !isBreak b) = (values bs).map digit := by
    refine List.filter_eq_self.mpr fun b hb => ?_
    obtain ⟨n, hn, rfl⟩ := List.mem_map.mp hb
    simp [digit_not_break (lt_of_mem_values hn)]
  rw [decode, encode_eq_map, hfilter, mapM_value_digit fun n hn => lt_of_mem_values hn,
    Option.bind_some, decodeValues_values]

end Base64
