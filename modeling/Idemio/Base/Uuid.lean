import Mathlib.Algebra.Order.Group.Nat
import Mathlib.Data.List.Forall2
import Mathlib.Tactic.IntervalCases
import Idemio.Base.Json

set_option relaxedAutoImplicit false
set_option autoImplicit false

/-!
# The text of a UUID

A UUID is a number below `2 ^ 128`: the order of its sixteen bytes is the order of the numbers.
Postgres prints it as 32 lower-case hexadecimal digits with hyphens after the 8th, 12th, 16th and
20th, and reads digits of either case, with a hyphen or none after each group of four, and braces
around them or none.

## Main definitions

* `Uuid.toNibbles`, `Uuid.ofNibbles` — a number and its hexadecimal digits.
* `Uuid.text` — what Postgres prints.
* `Uuid.parse` — what Postgres reads.
* `Uuid.HasLayout` — a text has hyphens where they belong, and lower-case digits elsewhere.

## Main results

* `Uuid.parse_text` — what is printed is read back.
* `Uuid.hasLayout_iff` — the texts of UUIDs are the ones that have the layout.
-/

namespace Uuid

open JsonDoc (hexValue)

/-! ## Digits -/

/-- The last `k` hexadecimal digits of a number, the most significant one first. -/
def toNibbles : ℕ → ℕ → List ℕ
  | 0, _ => []
  | k + 1, n => toNibbles k (n / 16) ++ [n % 16]

/-- The number that hexadecimal digits spell. -/
def ofNibbles (ds : List ℕ) : ℕ := ds.foldl (fun n d => n * 16 + d) 0

@[simp] lemma length_toNibbles (k n : ℕ) : (toNibbles k n).length = k := by
  induction k generalizing n with
  | zero => rfl
  | succ k ih => simp [toNibbles, ih]

lemma lt_of_mem_toNibbles {k n d : ℕ} (h : d ∈ toNibbles k n) : d < 16 := by
  induction k generalizing n with
  | zero => cases h
  | succ k ih =>
    rcases List.mem_append.mp h with h | h
    · exact ih h
    · rw [List.mem_singleton.mp h]
      exact Nat.mod_lt _ (by decide)

@[simp] lemma ofNibbles_concat (ds : List ℕ) (d : ℕ) :
    ofNibbles (ds ++ [d]) = ofNibbles ds * 16 + d := by
  simp [ofNibbles]

lemma ofNibbles_toNibbles (k n : ℕ) : ofNibbles (toNibbles k n) = n % 16 ^ k := by
  induction k generalizing n with
  | zero => simp [toNibbles, ofNibbles, Nat.mod_one]
  | succ k ih =>
    rw [toNibbles, ofNibbles_concat, ih, Nat.pow_succ', Nat.mod_mul]
    omega

lemma toNibbles_ofNibbles {ds : List ℕ} (h : ∀ d ∈ ds, d < 16) :
    toNibbles ds.length (ofNibbles ds) = ds := by
  induction ds using List.reverseRecOn with
  | nil => rfl
  | append_singleton ds d ih =>
    have hd : d < 16 := h d (by simp)
    have hds : ∀ e ∈ ds, e < 16 := fun e he => h e (List.mem_append_left _ he)
    have hdiv : (ofNibbles ds * 16 + d) / 16 = ofNibbles ds := by omega
    have hmod : (ofNibbles ds * 16 + d) % 16 = d := by omega
    rw [List.length_append, List.length_singleton, toNibbles, ofNibbles_concat, hdiv, hmod, ih hds]

lemma ofNibbles_lt {ds : List ℕ} (h : ∀ d ∈ ds, d < 16) : ofNibbles ds < 16 ^ ds.length := by
  rw [← toNibbles_ofNibbles h, ofNibbles_toNibbles, length_toNibbles]
  exact Nat.mod_lt _ (by positivity)

/-- A digit in lower case. -/
def hexByte (d : ℕ) : UInt8 := (if d < 10 then 0x30 + d else 0x57 + d).toUInt8

lemma hexValue_hexByte {d : ℕ} (h : d < 16) : hexValue (hexByte d) = some d := by
  interval_cases d <;> decide

lemma hexByte_ne_hyphen {d : ℕ} (h : d < 16) : hexByte d ≠ 0x2D := by
  interval_cases d <;> decide

/-! ## What Postgres prints and reads -/

/-- With `k` bytes left, the next one begins a new group. -/
def isBreak (k : ℕ) : Bool := k = 12 || k = 10 || k = 8 || k = 6

/-- The text of the last `k` bytes, given by their digits. -/
def textFrom : ℕ → List ℕ → List UInt8
  | k + 1, x :: y :: ds =>
    hexByte x :: hexByte y :: ((if isBreak k then [0x2D] else []) ++ textFrom k ds)
  | _, _ => []

/-- `uuid_out`. -/
def text (n : ℕ) : List UInt8 := textFrom 16 (toNibbles 32 n)

/-- A hyphen may stand after a group of four digits, unless it is the last one. -/
def skipHyphen (k : ℕ) : List UInt8 → List UInt8
  | [] => []
  | b :: bs => if b = 0x2D ∧ k % 2 = 0 ∧ 0 < k then bs else b :: bs

/-- The last `k` bytes, after those that spell `n`, and the text after them. -/
def readBytes : ℕ → ℕ → List UInt8 → Option (ℕ × List UInt8)
  | 0, n, bs => some (n, bs)
  | k + 1, n, a :: b :: bs =>
    (hexValue a).bind fun x => (hexValue b).bind fun y =>
      readBytes k ((n * 16 + x) * 16 + y) (skipHyphen k bs)
  | _, _, _ => none

/-- `uuid_in`. -/
def parse (bs : List UInt8) : Option ℕ :=
  if bs.head? = some 0x7B then
    (readBytes 16 0 bs.tail).bind fun r => if r.2 = [0x7D] then some r.1 else none
  else (readBytes 16 0 bs).bind fun r => if r.2 = [] then some r.1 else none

/-- The hyphen that was printed is skipped, and nothing else. -/
lemma skipHyphen_textFrom {k : ℕ} {ds : List ℕ} (h : ∀ d ∈ ds, d < 16) :
    skipHyphen k ((if isBreak k then [0x2D] else []) ++ textFrom k ds) = textFrom k ds := by
  by_cases hbreak : isBreak k = true
  · have hk : k % 2 = 0 ∧ 0 < k := by
      simp only [isBreak, Bool.or_eq_true, decide_eq_true_eq] at hbreak
      omega
    simp [hbreak, skipHyphen, hk]
  · rw [if_neg hbreak, List.nil_append]
    rcases k with _ | k
    · rfl
    · rcases ds with _ | ⟨x, _ | ⟨y, ds⟩⟩
      · rfl
      · rfl
      · have hx := hexByte_ne_hyphen (h x List.mem_cons_self)
        rw [textFrom, skipHyphen, if_neg fun hc => hx hc.1]

/-- **Bytes are read back as they were printed.** -/
lemma readBytes_textFrom {k n : ℕ} {ds : List ℕ} (hlength : ds.length = 2 * k)
    (h : ∀ d ∈ ds, d < 16) :
    readBytes k n (textFrom k ds) = some (ds.foldl (fun n d => n * 16 + d) n, []) := by
  induction k generalizing n ds with
  | zero =>
    obtain rfl := List.length_eq_zero_iff.mp hlength
    rfl
  | succ k ih =>
    rcases ds with _ | ⟨x, _ | ⟨y, ds⟩⟩
    · simp at hlength
    · simp at hlength
      omega
    · have hds : ∀ d ∈ ds, d < 16 := fun d hd =>
        h d (List.mem_cons_of_mem _ (List.mem_cons_of_mem _ hd))
      have hlength' : ds.length = 2 * k := by simp at hlength; omega
      rw [textFrom, readBytes, hexValue_hexByte (h x (by simp)),
        hexValue_hexByte (h y (by simp)), Option.bind_some, Option.bind_some,
        skipHyphen_textFrom hds, ih hlength' hds]
      rfl

/-- What is printed has no braces. -/
lemma head?_textFrom_ne {k : ℕ} {ds : List ℕ} (h : ∀ d ∈ ds, d < 16) :
    (textFrom k ds).head? ≠ some 0x7B := by
  rcases k with _ | k
  · simp [textFrom]
  · rcases ds with _ | ⟨x, _ | ⟨y, ds⟩⟩
    · simp [textFrom]
    · simp [textFrom]
    · have hx : x < 16 := h x List.mem_cons_self
      rw [textFrom, List.head?_cons]
      interval_cases x <;> decide

/-- **What is printed is read back.** -/
theorem parse_text {n : ℕ} (h : n < 2 ^ 128) : parse (text n) = some n := by
  have hds : ∀ d ∈ toNibbles 32 n, d < 16 := fun d hd => lt_of_mem_toNibbles hd
  have hread : readBytes 16 0 (text n) = some (ofNibbles (toNibbles 32 n), []) :=
    readBytes_textFrom (by simp) hds
  have hvalue : ofNibbles (toNibbles 32 n) = n := by
    rw [ofNibbles_toNibbles]
    exact Nat.mod_eq_of_lt (h.trans_eq (by norm_num))
  have hhead : (text n).head? ≠ some 0x7B := head?_textFrom_ne hds
  rw [parse, if_neg hhead, hread, hvalue, Option.bind_some, if_pos rfl]

/-! ## The layout -/

/-- Where hyphens stand in the text of the last `k` bytes. -/
def layout : ℕ → List Bool
  | 0 => []
  | k + 1 => false :: false :: ((if isBreak k then [true] else []) ++ layout k)

/-- The byte is a hyphen, where one belongs, or a lower-case digit. -/
def Fits (hyphen : Bool) (b : UInt8) : Prop :=
  if hyphen then b = 0x2D else ∃ d < 16, b = hexByte d

/-- The text has hyphens where they belong, and lower-case digits elsewhere. -/
def HasLayout (bs : List UInt8) : Prop := List.Forall₂ Fits (layout 16) bs

lemma forall₂_textFrom {k : ℕ} {ds : List ℕ} (hlength : ds.length = 2 * k)
    (h : ∀ d ∈ ds, d < 16) : List.Forall₂ Fits (layout k) (textFrom k ds) := by
  induction k generalizing ds with
  | zero =>
    obtain rfl := List.length_eq_zero_iff.mp hlength
    exact .nil
  | succ k ih =>
    rcases ds with _ | ⟨x, _ | ⟨y, ds⟩⟩
    · simp at hlength
    · simp at hlength
      omega
    · have hds : ∀ d ∈ ds, d < 16 := fun d hd =>
        h d (List.mem_cons_of_mem _ (List.mem_cons_of_mem _ hd))
      have hrest := ih (by simp at hlength; omega) hds
      refine .cons ⟨x, h x (by simp), rfl⟩ (.cons ⟨y, h y (by simp), rfl⟩ ?_)
      cases isBreak k with
      | true => exact .cons rfl hrest
      | false => exact hrest

lemma exists_textFrom {k : ℕ} {bs : List UInt8} (h : List.Forall₂ Fits (layout k) bs) :
    ∃ ds : List ℕ, ds.length = 2 * k ∧ (∀ d ∈ ds, d < 16) ∧ bs = textFrom k ds := by
  induction k generalizing bs with
  | zero =>
    cases h
    exact ⟨[], rfl, by simp, rfl⟩
  | succ k ih =>
    rcases h with _ | ⟨⟨x, hx, rfl⟩, _ | ⟨⟨y, hy, rfl⟩, hrest⟩⟩
    have key {bs' : List UInt8} (hbs' : List.Forall₂ Fits (layout k) bs') :
        ∃ ds : List ℕ, ds.length = 2 * (k + 1) ∧ (∀ d ∈ ds, d < 16) ∧
          hexByte x :: hexByte y :: ((if isBreak k then [0x2D] else []) ++ bs') =
            textFrom (k + 1) ds := by
      obtain ⟨ds, hlength, hds, rfl⟩ := ih hbs'
      refine ⟨x :: y :: ds, by simp [hlength]; omega, ?_, rfl⟩
      simpa [hx, hy] using hds
    cases hbreak : isBreak k with
    | true =>
      rw [hbreak] at hrest key
      rcases hrest with _ | ⟨rfl, hrest⟩
      exact key hrest
    | false =>
      rw [hbreak] at hrest key
      exact key hrest

/-- **The texts of UUIDs are the ones that have the layout.** -/
theorem hasLayout_iff {bs : List UInt8} : HasLayout bs ↔ ∃ n < 2 ^ 128, bs = text n := by
  constructor
  · intro h
    obtain ⟨ds, hlength, hds, rfl⟩ := exists_textFrom h
    refine ⟨ofNibbles ds, ?_, ?_⟩
    · exact (ofNibbles_lt hds).trans_eq (by rw [hlength]; norm_num)
    · have hlength : ds.length = 32 := hlength
      rw [text, ← hlength, toNibbles_ofNibbles hds]
  · rintro ⟨n, -, hbs⟩
    rw [hbs]
    exact forall₂_textFrom (by simp) fun d hd => lt_of_mem_toNibbles hd

lemma HasLayout.length_eq {bs : List UInt8} (h : HasLayout bs) : bs.length = 36 :=
  (List.Forall₂.length_eq h).symm

end Uuid
