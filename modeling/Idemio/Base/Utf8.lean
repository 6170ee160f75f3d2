import Mathlib.Data.List.Basic
import Mathlib.Data.UInt
import Mathlib.Tactic.Lemma

set_option relaxedAutoImplicit false
set_option autoImplicit false

/-!
# UTF-8 over arbitrary bytes

A text is a sequence of bytes that need not be UTF-8. Read rune by rune, a byte that begins no
valid sequence stands for itself alone and reads as U+FFFD, as RFC 3629 decoders that replace
errors do.

## Main definitions

* `Utf8.decodeRune` — the first rune of a text, and how many bytes it takes.
* `Utf8.runesFrom`, `Utf8.runes` — all runes, with the position of their first byte.
* `Utf8.encodeRune`, `Utf8.encode` — the bytes of a rune, and of a sequence of them.
* `Utf8.trim`, `Utf8.valid` — a text without space around it, and one that is UTF-8.

## Main results

* `Utf8.runesFrom_ascii` — an ASCII text reads as its bytes.
* `Utf8.ascii_of_runesFrom` — a text all of whose runes are ASCII is an ASCII text.
* `Utf8.ascii_of_encode` — so is a sequence of runes whose bytes are.
* `Utf8.runes_encode`, `Utf8.valid_iff` — code points are read back from their bytes, and a text is
  UTF-8 if it is the bytes of some.
-/

namespace Utf8

/-- What stands for bytes that are not UTF-8. -/
def runeError : ℕ := 0xFFFD

/-- A continuation byte. -/
def isTail (b : UInt8) : Bool := 0x80 ≤ b && b ≤ 0xBF

/-- The byte may come second after `b₀`: overlong forms, surrogates and values above U+10FFFF are
excluded here. -/
def isSecond (b₀ b : UInt8) : Bool :=
  if b₀ = 0xE0 then 0xA0 ≤ b && b ≤ 0xBF
  else if b₀ = 0xED then 0x80 ≤ b && b ≤ 0x9F
  else if b₀ = 0xF0 then 0x90 ≤ b && b ≤ 0xBF
  else if b₀ = 0xF4 then 0x80 ≤ b && b ≤ 0x8F
  else isTail b

/-- The six bits that a continuation byte carries. -/
def bits (b : UInt8) : ℕ := b.toNat - 0x80

/-- The rune that two bytes stand for. -/
def decodeTwo (b₀ : UInt8) : List UInt8 → Option ℕ
  | b₁ :: _ => if isSecond b₀ b₁ then some ((b₀.toNat - 0xC0) * 0x40 + bits b₁) else none
  | _ => none

/-- The rune that three bytes stand for. -/
def decodeThree (b₀ : UInt8) : List UInt8 → Option ℕ
  | b₁ :: b₂ :: _ =>
    if isSecond b₀ b₁ && isTail b₂ then
      some ((b₀.toNat - 0xE0) * 0x1000 + bits b₁ * 0x40 + bits b₂)
    else none
  | _ => none

/-- The rune that four bytes stand for. -/
def decodeFour (b₀ : UInt8) : List UInt8 → Option ℕ
  | b₁ :: b₂ :: b₃ :: _ =>
    if isSecond b₀ b₁ && isTail b₂ && isTail b₃ then
      some ((b₀.toNat - 0xF0) * 0x40000 + bits b₁ * 0x1000 + bits b₂ * 0x40 + bits b₃)
    else none
  | _ => none

/-- The rune that the bytes after a lead byte stand for together with it, and the width. -/
def decodeWide (b₀ : UInt8) (bs : List UInt8) : Option (ℕ × ℕ) :=
  if 0xC2 ≤ b₀ ∧ b₀ ≤ 0xDF then (decodeTwo b₀ bs).map (·, 2)
  else if 0xE0 ≤ b₀ ∧ b₀ ≤ 0xEF then (decodeThree b₀ bs).map (·, 3)
  else if 0xF0 ≤ b₀ ∧ b₀ ≤ 0xF4 then (decodeFour b₀ bs).map (·, 4)
  else none

/-- The first rune of a text and its width in bytes. -/
def decodeRune : List UInt8 → ℕ × ℕ
  | [] => (runeError, 0)
  | b₀ :: bs => if b₀ < 0x80 then (b₀.toNat, 1) else (decodeWide b₀ bs).getD (runeError, 1)

/-- The runes of a text whose first byte is at `i`, the next `skip` bytes of which belong to a
rune that was already read. Each rune comes with the position of its first byte. -/
def runesFrom : ℕ → ℕ → List UInt8 → List (ℕ × ℕ)
  | _, _, [] => []
  | i, skip + 1, _ :: bs => runesFrom (i + 1) skip bs
  | i, 0, b :: bs =>
    (i, (decodeRune (b :: bs)).1) :: runesFrom (i + 1) ((decodeRune (b :: bs)).2 - 1) bs

/-- The runes of a text. -/
def runes (bs : List UInt8) : List ℕ := (runesFrom 0 0 bs).map Prod.snd

/-- The text without the runes at its front and at its end that `space` holds of. -/
def trim (space : ℕ → Bool) (bs : List UInt8) : List UInt8 :=
  let front := (runesFrom 0 0 bs).dropWhile fun e => space e.2
  let back := (runesFrom 0 0 bs).reverse.takeWhile fun e => space e.2
  let start := (front.head?.map Prod.fst).getD bs.length
  let stop := (back.getLast?.map Prod.fst).getD bs.length
  (bs.take stop).drop start

/-- The bytes of a rune; one that is no code point is written as U+FFFD. -/
def encodeRune (r : ℕ) : List UInt8 :=
  if r < 0x80 then [r.toUInt8]
  else if r < 0x800 then [(0xC0 + r / 0x40).toUInt8, (0x80 + r % 0x40).toUInt8]
  else if (0xD800 ≤ r ∧ r < 0xE000) ∨ 0x110000 ≤ r then [0xEF, 0xBF, 0xBD]
  else if r < 0x10000 then
    [(0xE0 + r / 0x1000).toUInt8, (0x80 + r / 0x40 % 0x40).toUInt8, (0x80 + r % 0x40).toUInt8]
  else
    [(0xF0 + r / 0x40000).toUInt8, (0x80 + r / 0x1000 % 0x40).toUInt8,
     (0x80 + r / 0x40 % 0x40).toUInt8, (0x80 + r % 0x40).toUInt8]

/-- The bytes of a sequence of runes. -/
def encode (rs : List ℕ) : List UInt8 := rs.flatMap encodeRune

/-- The text is UTF-8. -/
def valid (bs : List UInt8) : Bool := encode (runes bs) = bs

/-! ## ASCII -/

/-- All bytes of a text are ASCII. -/
def Ascii (bs : List UInt8) : Prop := ∀ b ∈ bs, b < 0x80

@[simp] lemma decodeRune_of_ascii {b : UInt8} (bs : List UInt8) (hb : b < 0x80) :
    decodeRune (b :: bs) = (b.toNat, 1) := by
  rw [decodeRune, if_pos hb]

/-- After the least lead byte of three, or of four, the second byte carries a bit of weight. -/
lemma le_bits_of_isSecond {b₀ b : UInt8} (h : isSecond b₀ b = true)
    (hlead : b₀ = 0xE0 ∨ b₀ = 0xF0) : 0x10 ≤ bits b := by
  have hle : (0x90 : UInt8) ≤ b := by
    unfold isSecond at h
    rcases hlead with hlead | hlead
    · rw [if_pos hlead, Bool.and_eq_true, decide_eq_true_eq] at h
      exact UInt8.le_trans (by decide) h.1
    · rw [if_neg (by simp [hlead]), if_neg (by simp [hlead]), if_pos hlead, Bool.and_eq_true,
        decide_eq_true_eq] at h
      exact h.1
  have hnat : 0x90 ≤ b.toNat := UInt8.le_iff_toNat_le.mp hle
  unfold bits
  omega

/-- Two bytes never stand for an ASCII rune. -/
lemma le_of_decodeTwo {b₀ : UInt8} {bs : List UInt8} {r : ℕ} (hlead : 0xC2 ≤ b₀)
    (h : decodeTwo b₀ bs = some r) : 0x80 ≤ r := by
  have hle := UInt8.le_iff_toNat_le.mp hlead
  simp at hle
  cases bs with
  | nil => simp [decodeTwo] at h
  | cons b₁ bs =>
    simp only [decodeTwo, Option.ite_none_right_eq_some, Option.some.injEq] at h
    omega

/-- Three bytes never stand for an ASCII rune. -/
lemma le_of_decodeThree {b₀ : UInt8} {bs : List UInt8} {r : ℕ} (hlead : 0xE0 ≤ b₀)
    (h : decodeThree b₀ bs = some r) : 0x80 ≤ r := by
  rcases bs with _ | ⟨b₁, _ | ⟨b₂, bs⟩⟩
  · simp [decodeThree] at h
  · simp [decodeThree] at h
  · simp only [decodeThree, Option.ite_none_right_eq_some, Option.some.injEq,
      Bool.and_eq_true] at h
    obtain ⟨⟨hsecond, -⟩, rfl⟩ := h
    rcases eq_or_ne b₀ 0xE0 with heq | hne
    · have := le_bits_of_isSecond hsecond (.inl heq)
      omega
    · have hlt := UInt8.lt_iff_toNat_lt.mp (UInt8.lt_of_le_of_ne hlead hne.symm)
      simp at hlt
      omega

/-- Four bytes never stand for an ASCII rune. -/
lemma le_of_decodeFour {b₀ : UInt8} {bs : List UInt8} {r : ℕ} (hlead : 0xF0 ≤ b₀)
    (h : decodeFour b₀ bs = some r) : 0x80 ≤ r := by
  rcases bs with _ | ⟨b₁, _ | ⟨b₂, _ | ⟨b₃, bs⟩⟩⟩
  · simp [decodeFour] at h
  · simp [decodeFour] at h
  · simp [decodeFour] at h
  · simp only [decodeFour, Option.ite_none_right_eq_some, Option.some.injEq,
      Bool.and_eq_true] at h
    obtain ⟨⟨⟨hsecond, -⟩, -⟩, rfl⟩ := h
    rcases eq_or_ne b₀ 0xF0 with heq | hne
    · have := le_bits_of_isSecond hsecond (.inr heq)
      omega
    · have hlt := UInt8.lt_iff_toNat_lt.mp (UInt8.lt_of_le_of_ne hlead hne.symm)
      simp at hlt
      omega

/-- More than one byte never stands for an ASCII rune. -/
lemma le_of_decodeWide {b₀ : UInt8} {bs : List UInt8} {r w : ℕ}
    (h : decodeWide b₀ bs = some (r, w)) : 0x80 ≤ r := by
  unfold decodeWide at h
  split at h
  · next hlead =>
    obtain ⟨_, htwo, heq⟩ := Option.map_eq_some_iff.mp h
    cases heq
    exact le_of_decodeTwo hlead.1 htwo
  · split at h
    · next hlead =>
      obtain ⟨_, hthree, heq⟩ := Option.map_eq_some_iff.mp h
      cases heq
      exact le_of_decodeThree hlead.1 hthree
    · split at h
      · next hlead =>
        obtain ⟨_, hfour, heq⟩ := Option.map_eq_some_iff.mp h
        cases heq
        exact le_of_decodeFour hlead.1 hfour
      · cases h

/-- A rune that is ASCII is a byte of its own. -/
lemma lt_of_decodeRune_lt {b : UInt8} {bs : List UInt8} (h : (decodeRune (b :: bs)).1 < 0x80) :
    b < 0x80 := by
  by_contra hb
  rw [decodeRune, if_neg hb] at h
  cases hwide : decodeWide b bs with
  | none => simp [hwide, runeError] at h
  | some rw =>
    have := le_of_decodeWide hwide
    rw [hwide, Option.getD_some] at h
    omega

/-- The runes of an ASCII text are its bytes, each at its own position. -/
lemma runesFrom_ascii {bs : List UInt8} (h : Ascii bs) (i : ℕ) :
    runesFrom i 0 bs = (bs.zipIdx i).map fun e => (e.2, e.1.toNat) := by
  induction bs generalizing i with
  | nil => rfl
  | cons b bs ih =>
    have hb : b < 0x80 := h b List.mem_cons_self
    have hbs : Ascii bs := fun c hc => h c (List.mem_cons_of_mem b hc)
    simp [runesFrom, hb, ih hbs]

/-- A text all of whose runes are ASCII is an ASCII text. -/
lemma ascii_of_runesFrom {bs : List UInt8} {i : ℕ} (h : ∀ e ∈ runesFrom i 0 bs, e.2 < 0x80) :
    Ascii bs := by
  induction bs generalizing i with
  | nil => simp [Ascii]
  | cons b bs ih =>
    have hb : b < 0x80 :=
      lt_of_decodeRune_lt (h (i, (decodeRune (b :: bs)).1) (by simp [runesFrom]))
    have hbs : Ascii bs := by
      refine ih (i := i + 1) fun e he => h e ?_
      simpa [runesFrom, hb] using .inr he
    simpa [Ascii, hb] using hbs

/-- A rune all of whose bytes are ASCII is ASCII. -/
lemma lt_of_encodeRune {r : ℕ} (h : Ascii (encodeRune r)) : r < 0x80 := by
  by_contra hr
  unfold encodeRune at h
  rw [if_neg hr] at h
  split at h
  · have hlead := UInt8.lt_iff_toNat_lt.mp (h _ List.mem_cons_self)
    simp at hlead
    omega
  · split at h
    · exact absurd (h 0xEF List.mem_cons_self) (by decide)
    · split at h
      · have hlead := UInt8.lt_iff_toNat_lt.mp (h _ List.mem_cons_self)
        simp at hlead
        omega
      · have hlead := UInt8.lt_iff_toNat_lt.mp (h _ List.mem_cons_self)
        simp at hlead
        omega

/-- A sequence of runes all of whose bytes are ASCII has the runes as bytes. -/
lemma ascii_of_encode {rs : List ℕ} (h : Ascii (encode rs)) :
    (∀ r ∈ rs, r < 0x80) ∧ encode rs = rs.map Nat.toUInt8 := by
  have hlt : ∀ r ∈ rs, r < 0x80 := fun r hr =>
    lt_of_encodeRune fun b hb => h b (List.mem_flatMap.mpr ⟨r, hr, hb⟩)
  refine ⟨hlt, ?_⟩
  rw [encode, List.map_eq_flatMap]
  refine List.flatMap_congr fun r hr => ?_
  rw [encodeRune, if_pos (hlt r hr)]

/-! ## Round trip -/

/-- A code point that is no surrogate. -/
def Scalar (r : ℕ) : Prop := r < 0x110000 ∧ ¬(0xD800 ≤ r ∧ r < 0xE000)

lemma isTail_iff {b : UInt8} : isTail b = true ↔ 0x80 ≤ b.toNat ∧ b.toNat ≤ 0xBF := by
  simp [isTail, UInt8.le_iff_toNat_le]

/-- What may come second, in numbers. -/
lemma isSecond_iff {b₀ b : UInt8} : isSecond b₀ b = true ↔
    (0x80 ≤ b.toNat ∧ b.toNat ≤ 0xBF) ∧ (b₀.toNat = 0xE0 → 0xA0 ≤ b.toNat) ∧
      (b₀.toNat = 0xED → b.toNat ≤ 0x9F) ∧ (b₀.toNat = 0xF0 → 0x90 ≤ b.toNat) ∧
      (b₀.toNat = 0xF4 → b.toNat ≤ 0x8F) := by
  have hlead : ∀ c : UInt8, b₀ = c ↔ b₀.toNat = c.toNat := fun c => UInt8.toNat_inj.symm
  unfold isSecond
  simp only [hlead]
  split_ifs with h₁ h₂ h₃ h₄ <;>
    simp only [Bool.and_eq_true, decide_eq_true_eq, UInt8.le_iff_toNat_le, isTail_iff] <;>
    simp at * <;> omega

/-- The rune at the front of a text, by its lead byte. -/
lemma decodeRune_wide {b₀ : UInt8} {bs : List UInt8} {e : ℕ × ℕ} (h₀ : 0x80 ≤ b₀.toNat)
    (h : decodeWide b₀ bs = some e) : decodeRune (b₀ :: bs) = e := by
  have hb : ¬b₀ < 0x80 := by
    rw [UInt8.lt_iff_toNat_lt]
    simpa using h₀
  rw [decodeRune, if_neg hb, h, Option.getD_some]

section

variable {b₀ b₁ b₂ b₃ : UInt8}

lemma lead_iff {lo hi : UInt8} :
    (lo ≤ b₀ ∧ b₀ ≤ hi) ↔ lo.toNat ≤ b₀.toNat ∧ b₀.toNat ≤ hi.toNat := by
  rw [UInt8.le_iff_toNat_le, UInt8.le_iff_toNat_le]

lemma decodeWide_two (h₀ : 0xC2 ≤ b₀.toNat ∧ b₀.toNat ≤ 0xDF) (h₁ : isSecond b₀ b₁ = true)
    (tail : List UInt8) :
    decodeWide b₀ (b₁ :: tail) = some ((b₀.toNat - 0xC0) * 0x40 + bits b₁, 2) := by
  have hlead : 0xC2 ≤ b₀ ∧ b₀ ≤ 0xDF := by
    rw [lead_iff]
    exact h₀
  rw [decodeWide, if_pos hlead, decodeTwo, if_pos h₁]
  rfl

lemma decodeWide_three (h₀ : 0xE0 ≤ b₀.toNat ∧ b₀.toNat ≤ 0xEF) (h₁ : isSecond b₀ b₁ = true)
    (h₂ : isTail b₂ = true) (tail : List UInt8) :
    decodeWide b₀ (b₁ :: b₂ :: tail) =
      some ((b₀.toNat - 0xE0) * 0x1000 + bits b₁ * 0x40 + bits b₂, 3) := by
  have hnot : ¬(0xC2 ≤ b₀ ∧ b₀ ≤ 0xDF) := by
    rw [lead_iff]
    simp
    omega
  have hlead : 0xE0 ≤ b₀ ∧ b₀ ≤ 0xEF := by
    rw [lead_iff]
    exact h₀
  rw [decodeWide, if_neg hnot, if_pos hlead, decodeThree, h₁, h₂]
  rfl

lemma decodeWide_four (h₀ : 0xF0 ≤ b₀.toNat ∧ b₀.toNat ≤ 0xF4) (h₁ : isSecond b₀ b₁ = true)
    (h₂ : isTail b₂ = true) (h₃ : isTail b₃ = true) (tail : List UInt8) :
    decodeWide b₀ (b₁ :: b₂ :: b₃ :: tail) =
      some ((b₀.toNat - 0xF0) * 0x40000 + bits b₁ * 0x1000 + bits b₂ * 0x40 + bits b₃, 4) := by
  have hnot₂ : ¬(0xC2 ≤ b₀ ∧ b₀ ≤ 0xDF) := by
    rw [lead_iff]
    simp
    omega
  have hnot₃ : ¬(0xE0 ≤ b₀ ∧ b₀ ≤ 0xEF) := by
    rw [lead_iff]
    simp
    omega
  have hlead : 0xF0 ≤ b₀ ∧ b₀ ≤ 0xF4 := by
    rw [lead_iff]
    exact h₀
  rw [decodeWide, if_neg hnot₂, if_neg hnot₃, if_pos hlead, decodeFour, h₁, h₂, h₃]
  rfl

end

section

variable {b₀ b₁ b₂ b₃ : UInt8} {r : ℕ}

/-- A rune of two bytes. -/
lemma decodeRune_two (hr : 0x80 ≤ r ∧ r < 0x800) (h₀ : b₀.toNat = 0xC0 + r / 0x40)
    (h₁ : b₁.toNat = 0x80 + r % 0x40) (tail : List UInt8) :
    decodeRune (b₀ :: b₁ :: tail) = (r, 2) := by
  have hsecond : isSecond b₀ b₁ = true := isSecond_iff.mpr (by omega)
  have hvalue : (b₀.toNat - 0xC0) * 0x40 + bits b₁ = r := by
    unfold bits
    omega
  have hwide := decodeWide_two (by omega) hsecond tail
  rw [hvalue] at hwide
  exact decodeRune_wide (by omega) hwide

/-- A rune of three bytes. -/
lemma decodeRune_three (hr : 0x800 ≤ r ∧ r < 0x10000) (hsurrogate : ¬(0xD800 ≤ r ∧ r < 0xE000))
    (h₀ : b₀.toNat = 0xE0 + r / 0x1000) (h₁ : b₁.toNat = 0x80 + r / 0x40 % 0x40)
    (h₂ : b₂.toNat = 0x80 + r % 0x40) (tail : List UInt8) :
    decodeRune (b₀ :: b₁ :: b₂ :: tail) = (r, 3) := by
  have hsecond : isSecond b₀ b₁ = true := isSecond_iff.mpr (by omega)
  have htail : isTail b₂ = true := isTail_iff.mpr (by omega)
  have hvalue : (b₀.toNat - 0xE0) * 0x1000 + bits b₁ * 0x40 + bits b₂ = r := by
    unfold bits
    omega
  have hwide := decodeWide_three (by omega) hsecond htail tail
  rw [hvalue] at hwide
  exact decodeRune_wide (by omega) hwide

/-- A rune of four bytes. -/
lemma decodeRune_four (hr : 0x10000 ≤ r ∧ r < 0x110000) (h₀ : b₀.toNat = 0xF0 + r / 0x40000)
    (h₁ : b₁.toNat = 0x80 + r / 0x1000 % 0x40) (h₂ : b₂.toNat = 0x80 + r / 0x40 % 0x40)
    (h₃ : b₃.toNat = 0x80 + r % 0x40) (tail : List UInt8) :
    decodeRune (b₀ :: b₁ :: b₂ :: b₃ :: tail) = (r, 4) := by
  have hsecond : isSecond b₀ b₁ = true := isSecond_iff.mpr (by omega)
  have htail₂ : isTail b₂ = true := isTail_iff.mpr (by omega)
  have htail₃ : isTail b₃ = true := isTail_iff.mpr (by omega)
  have hvalue :
      (b₀.toNat - 0xF0) * 0x40000 + bits b₁ * 0x1000 + bits b₂ * 0x40 + bits b₃ = r := by
    unfold bits
    omega
  have hwide := decodeWide_four (by omega) hsecond htail₂ htail₃ tail
  rw [hvalue] at hwide
  exact decodeRune_wide (by omega) hwide

end

lemma toNat_toUInt8 {n : ℕ} (h : n < 0x100) : n.toUInt8.toNat = n := by
  simp only [Nat.toUInt8_eq, UInt8.toNat_ofNat']
  omega

/-- **A rune is read back**, whatever follows it. -/
lemma decodeRune_encodeRune {r : ℕ} (h : Scalar r) (tail : List UInt8) :
    decodeRune (encodeRune r ++ tail) = (r, (encodeRune r).length) := by
  obtain ⟨hmax, hsurrogate⟩ := h
  rw [encodeRune]
  by_cases hone : r < 0x80
  · have hb : r.toUInt8.toNat = r := toNat_toUInt8 (by omega)
    have hlt : r.toUInt8 < 0x80 := by
      rw [UInt8.lt_iff_toNat_lt, hb]
      exact hone
    simp [hone, decodeRune_of_ascii _ hlt, hb]
  by_cases htwo : r < 0x800
  · rw [if_neg hone, if_pos htwo]
    exact decodeRune_two (by omega) (toNat_toUInt8 (by omega)) (toNat_toUInt8 (by omega)) tail
  have hbad : ¬((0xD800 ≤ r ∧ r < 0xE000) ∨ 0x110000 ≤ r) := by omega
  by_cases hthree : r < 0x10000
  · rw [if_neg hone, if_neg htwo, if_neg hbad, if_pos hthree]
    exact decodeRune_three (by omega) hsurrogate (toNat_toUInt8 (by omega))
      (toNat_toUInt8 (by omega)) (toNat_toUInt8 (by omega)) tail
  · rw [if_neg hone, if_neg htwo, if_neg hbad, if_neg hthree]
    exact decodeRune_four (by omega) (toNat_toUInt8 (by omega)) (toNat_toUInt8 (by omega))
      (toNat_toUInt8 (by omega)) (toNat_toUInt8 (by omega)) tail

/-- A rune that is not ASCII is two bytes or more, none of which is ASCII. -/
lemma encodeRune_of_le {r : ℕ} (h : 0x80 ≤ r) :
    2 ≤ (encodeRune r).length ∧ ∀ b ∈ encodeRune r, 0x80 ≤ b := by
  have hbyte : ∀ {n : ℕ}, 0x80 ≤ n → n < 0x100 → (0x80 : UInt8) ≤ n.toUInt8 := by
    intro n hlow hhigh
    rw [UInt8.le_iff_toNat_le, toNat_toUInt8 hhigh]
    exact hlow
  rw [encodeRune, if_neg (not_lt.mpr h)]
  split_ifs with htwo hbad hthree
  · refine ⟨le_rfl, ?_⟩
    simp only [List.forall_mem_cons, List.not_mem_nil, false_imp_iff, implies_true, and_true]
    exact ⟨hbyte (by omega) (by omega), hbyte (by omega) (by omega)⟩
  · refine ⟨by simp, ?_⟩
    simp only [List.forall_mem_cons, List.not_mem_nil, false_imp_iff, implies_true, and_true]
    decide
  · refine ⟨by simp, ?_⟩
    simp only [List.forall_mem_cons, List.not_mem_nil, false_imp_iff, implies_true, and_true]
    exact ⟨hbyte (by omega) (by omega), hbyte (by omega) (by omega), hbyte (by omega) (by omega)⟩
  · refine ⟨by simp, ?_⟩
    simp only [List.forall_mem_cons, List.not_mem_nil, false_imp_iff, implies_true, and_true]
    exact ⟨hbyte (by omega) (by omega), hbyte (by omega) (by omega), hbyte (by omega) (by omega),
      hbyte (by omega) (by omega)⟩

/-- The bytes of a rune after its first one. -/
lemma isTail_of_mem_encodeRune {r : ℕ} {b : UInt8} (h : b ∈ (encodeRune r).tail) :
    isTail b = true := by
  have hbyte : ∀ n : ℕ, isTail (0x80 + n % 0x40).toUInt8 = true := by
    intro n
    rw [isTail_iff, toNat_toUInt8 (by omega)]
    omega
  unfold encodeRune at h
  split_ifs at h with hone htwo hbad hthree
  · simp at h
  · simp only [List.tail_cons, List.mem_singleton] at h
    exact h ▸ hbyte _
  · simp only [List.tail_cons, List.mem_cons, List.not_mem_nil, or_false] at h
    rcases h with rfl | rfl <;> decide
  all_goals
    simp only [List.tail_cons, List.mem_cons, List.not_mem_nil, or_false] at h
    rcases h with rfl | rfl | rfl <;> exact hbyte _

lemma encodeRune_ne_nil (r : ℕ) : encodeRune r ≠ [] := by
  unfold encodeRune
  split_ifs <;> simp

lemma runesFrom_skip (bs tail : List UInt8) (i : ℕ) :
    runesFrom i bs.length (bs ++ tail) = runesFrom (i + bs.length) 0 tail := by
  induction bs generalizing i with
  | nil => rfl
  | cons b bs ih =>
    rw [List.length_cons, List.cons_append, runesFrom, ih]
    congr 1
    omega

lemma runesFrom_encodeRune {r : ℕ} (h : Scalar r) (i : ℕ) (tail : List UInt8) :
    runesFrom i 0 (encodeRune r ++ tail) =
      (i, r) :: runesFrom (i + (encodeRune r).length) 0 tail := by
  have hdecode := decodeRune_encodeRune h tail
  cases hbytes : encodeRune r with
  | nil => exact absurd hbytes (encodeRune_ne_nil r)
  | cons b bs =>
    rw [hbytes, List.cons_append] at hdecode
    rw [List.cons_append, runesFrom, hdecode, List.length_cons, Nat.add_sub_cancel, runesFrom_skip]
    congr 2
    omega

lemma map_runesFrom_encode {rs : List ℕ} (h : ∀ r ∈ rs, Scalar r) (i : ℕ) :
    (runesFrom i 0 (encode rs)).map Prod.snd = rs := by
  induction rs generalizing i with
  | nil => rfl
  | cons r rs ih =>
    rw [encode, List.flatMap_cons, runesFrom_encodeRune (h r List.mem_cons_self), List.map_cons,
      ← encode, ih fun s hs => h s (List.mem_cons_of_mem r hs)]

/-- **Runes are read back from their bytes.** -/
theorem runes_encode {rs : List ℕ} (h : ∀ r ∈ rs, Scalar r) : runes (encode rs) = rs :=
  map_runesFrom_encode h 0

/-- What is read is a code point and no surrogate. -/
lemma scalar_of_decodeWide {b₀ : UInt8} {bs : List UInt8} {e : ℕ × ℕ}
    (h : decodeWide b₀ bs = some e) : Scalar e.1 := by
  have hbits : ∀ b : UInt8, b.toNat < 0x100 := fun b => b.toNat_lt
  unfold decodeWide at h
  simp only [lead_iff] at h
  split_ifs at h with htwo hthree hfour
  · obtain ⟨r, hr, rfl⟩ := Option.map_eq_some_iff.mp h
    rcases bs with _ | ⟨b₁, bs⟩
    · cases hr
    rw [decodeTwo, Option.ite_none_right_eq_some] at hr
    obtain ⟨hsecond, hr⟩ := hr
    obtain rfl := Option.some.inj hr
    have hsecond := isSecond_iff.mp hsecond
    simp at htwo
    unfold Scalar bits
    simp only
    omega
  · obtain ⟨r, hr, rfl⟩ := Option.map_eq_some_iff.mp h
    rcases bs with _ | ⟨b₁, _ | ⟨b₂, bs⟩⟩
    · cases hr
    · cases hr
    rw [decodeThree, Option.ite_none_right_eq_some, Bool.and_eq_true] at hr
    obtain ⟨⟨hsecond, htail⟩, hr⟩ := hr
    obtain rfl := Option.some.inj hr
    have hsecond := isSecond_iff.mp hsecond
    have htail := isTail_iff.mp htail
    simp at hthree
    unfold Scalar bits
    simp only
    omega
  · obtain ⟨r, hr, rfl⟩ := Option.map_eq_some_iff.mp h
    rcases bs with _ | ⟨b₁, _ | ⟨b₂, _ | ⟨b₃, bs⟩⟩⟩
    · cases hr
    · cases hr
    · cases hr
    rw [decodeFour, Option.ite_none_right_eq_some, Bool.and_eq_true, Bool.and_eq_true] at hr
    obtain ⟨⟨⟨hsecond, htail₂⟩, htail₃⟩, hr⟩ := hr
    obtain rfl := Option.some.inj hr
    have hsecond := isSecond_iff.mp hsecond
    have htail₂ := isTail_iff.mp htail₂
    have htail₃ := isTail_iff.mp htail₃
    simp at hfour
    unfold Scalar bits
    simp only
    omega

lemma scalar_decodeRune (b : UInt8) (bs : List UInt8) : Scalar (decodeRune (b :: bs)).1 := by
  rw [decodeRune]
  split_ifs with hb
  · have hlt := UInt8.lt_iff_toNat_lt.mp hb
    simp at hlt
    unfold Scalar
    simp only
    omega
  · cases hwide : decodeWide b bs with
    | none =>
      unfold Scalar
      decide
    | some e => exact scalar_of_decodeWide hwide

lemma scalar_of_mem_runesFrom {bs : List UInt8} {i skip : ℕ} {e : ℕ × ℕ}
    (h : e ∈ runesFrom i skip bs) : Scalar e.2 := by
  induction bs generalizing i skip with
  | nil => simp [runesFrom] at h
  | cons b bs ih =>
    cases skip with
    | succ skip => exact ih h
    | zero =>
      rw [runesFrom] at h
      rcases List.mem_cons.mp h with rfl | h
      · exact scalar_decodeRune b bs
      · exact ih h

lemma scalar_of_mem_runes {bs : List UInt8} {r : ℕ} (h : r ∈ runes bs) : Scalar r := by
  obtain ⟨e, he, rfl⟩ := List.mem_map.mp h
  exact scalar_of_mem_runesFrom he

/-- **A text is UTF-8 if it is the bytes of some code points.** -/
theorem valid_iff {bs : List UInt8} :
    valid bs = true ↔ ∃ rs, (∀ r ∈ rs, Scalar r) ∧ bs = encode rs := by
  rw [valid, decide_eq_true_eq]
  constructor
  · intro h
    exact ⟨runes bs, fun r hr => scalar_of_mem_runes hr, h.symm⟩
  · rintro ⟨rs, hrs, rfl⟩
    rw [runes_encode hrs]

lemma encode_append (rs ss : List ℕ) : encode (rs ++ ss) = encode rs ++ encode ss :=
  List.flatMap_append

lemma valid_append {as bs : List UInt8} (ha : valid as = true) (hb : valid bs = true) :
    valid (as ++ bs) = true := by
  obtain ⟨rs, hrs, rfl⟩ := valid_iff.mp ha
  obtain ⟨ss, hss, rfl⟩ := valid_iff.mp hb
  refine valid_iff.mpr ⟨rs ++ ss, fun r hr => ?_, (encode_append rs ss).symm⟩
  rcases List.mem_append.mp hr with hr | hr
  · exact hrs r hr
  · exact hss r hr

lemma valid_of_ascii {bs : List UInt8} (h : Ascii bs) : valid bs = true := by
  refine valid_iff.mpr ⟨bs.map UInt8.toNat, ?_, ?_⟩
  · intro r hr
    obtain ⟨b, hb, rfl⟩ := List.mem_map.mp hr
    have hlt := UInt8.lt_iff_toNat_lt.mp (h b hb)
    simp at hlt
    unfold Scalar
    omega
  · induction bs with
    | nil => rfl
    | cons b bs ih =>
      have hb := UInt8.lt_iff_toNat_lt.mp (h b List.mem_cons_self)
      simp at hb
      rw [List.map_cons, encode, List.flatMap_cons, ← encode,
        ← ih fun c hc => h c (List.mem_cons_of_mem b hc), encodeRune, if_pos hb]
      simp

end Utf8
