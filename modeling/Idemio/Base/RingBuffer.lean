import Mathlib.Data.List.Rotate
import Mathlib.Tactic.Lemma

set_option relaxedAutoImplicit false
set_option autoImplicit false

/-!
# Ring buffers

A buffer that is filled from the front and, once it is full, overwritten in turn from its first
place on. It holds the last things that were put into it, as many as it has places.

## Main definitions

* `RingBuffer.Buffer`, `RingBuffer.Buffer.push` — a buffer, and putting something into it.
* `RingBuffer.Holds` — the buffer holds the end of a sequence, from `next` on.

## Main results

* `RingBuffer.Holds.push` — one step.
* `RingBuffer.holds_foldl` — whatever was put into it, it holds the end of that.
-/

namespace RingBuffer

variable {α : Type}

/-- A buffer: what it holds, and the place that is overwritten next when it is full. -/
structure Buffer (α : Type) where
  items : List α
  next : ℕ

/-- The buffer that holds nothing. -/
def Buffer.empty : Buffer α := ⟨[], 0⟩

/-- Puts `x` into a buffer with `size` places. -/
def Buffer.push (size : ℕ) (r : Buffer α) (x : α) : Buffer α :=
  if r.items.length < size then ⟨r.items ++ [x], r.next⟩
  else ⟨r.items.set r.next x, (r.next + 1) % size⟩

/-- The last elements of a sequence, `size` of them or all. -/
def last (size : ℕ) (xs : List α) : List α := xs.drop (xs.length - size)

/-- The buffer holds the end of a sequence: read from `next` on and around, that is what it is. -/
structure Holds (size : ℕ) (r : Buffer α) (xs : List α) : Prop where
  items : r.items.rotate r.next = last size xs
  next : if xs.length < size then r.next = 0 else r.next < size

variable {size : ℕ} {r : Buffer α} {xs : List α}

lemma length_last (size : ℕ) (xs : List α) : (last size xs).length = min xs.length size := by
  rw [last, List.length_drop]
  omega

lemma Holds.length (h : Holds size r xs) : r.items.length = min xs.length size := by
  rw [← length_last, ← h.items, List.length_rotate]

/-- The buffer holds what it should, in some order. -/
lemma Holds.perm (h : Holds size r xs) : r.items.Perm (last size xs) := by
  rw [← h.items]
  exact (List.rotate_perm r.items r.next).symm

/-- Overwriting a place and going on to the next one drops what was there and adds to the end. -/
lemma rotate_set {items : List α} {i : ℕ} (hi : i < items.length) (x : α) :
    (items.set i x).rotate ((i + 1) % items.length) = (items.rotate i).tail ++ [x] := by
  obtain ⟨front, y, back, rfl, rfl⟩ : ∃ front y back, items = front ++ y :: back ∧
      front.length = i :=
    ⟨items.take i, items[i], items.drop (i + 1), by simp, by simp [hi.le]⟩
  have hset : (front ++ y :: back).set front.length x = (front ++ [x]) ++ back := by simp
  have hlength : front.length + 1 = (front ++ [x]).length := by simp
  have hmod : (front ++ y :: back).length = ((front ++ [x]) ++ back).length := by simp
  rw [hset, hmod, List.rotate_mod, hlength, List.rotate_append_length_eq,
    List.rotate_append_length_eq]
  simp

/-- What is last after one more element, if there were enough of them before. -/
lemma last_concat (hfull : size ≤ xs.length) (hsize : 0 < size) (x : α) :
    last size (xs ++ [x]) = (last size xs).tail ++ [x] := by
  have hdrop : (xs ++ [x]).length - size = xs.length - size + 1 := by
    rw [List.length_append, List.length_singleton]
    omega
  rw [last, last, hdrop, List.tail_drop, List.drop_append_of_le_length (by omega)]

/-- **Putting one more thing in.** -/
lemma Holds.push (hsize : 0 < size) (h : Holds size r xs) (x : α) :
    Holds size (r.push size x) (xs ++ [x]) := by
  have hlength := h.length
  have hnext := h.next
  unfold Buffer.push
  split_ifs with hroom
  · have hlt : xs.length < size := by omega
    rw [if_pos hlt] at hnext
    have hitems : r.items = xs := by
      have hall := h.items
      rwa [hnext, List.rotate_zero, last, Nat.sub_eq_zero_of_le hlt.le, List.drop_zero] at hall
    refine ⟨?_, ?_⟩
    · simp only [hnext, hitems, List.rotate_zero, last]
      rw [Nat.sub_eq_zero_of_le (by simpa using Nat.succ_le_of_lt hlt), List.drop_zero]
    · simp only [hnext, hsize, ite_self]
  · have hfull : size ≤ xs.length := by omega
    rw [if_neg (by omega)] at hnext
    have hcount : r.items.length = size := by omega
    refine ⟨?_, ?_⟩
    · have hset := rotate_set (hnext.trans_eq hcount.symm) x
      rw [hcount, h.items] at hset
      rw [hset, last_concat hfull hsize]
    · rw [if_neg (by simp; omega)]
      exact Nat.mod_lt _ hsize

/-- **A buffer holds the end of what was put into it.** -/
lemma holds_foldl (hsize : 0 < size) (xs : List α) :
    Holds size (xs.foldl (Buffer.push size) .empty) xs := by
  induction xs using List.reverseRecOn with
  | nil => exact ⟨by simp [Buffer.empty, last], by simp [Buffer.empty, hsize]⟩
  | append_singleton xs x ih =>
    rw [List.foldl_concat]
    exact ih.push hsize x

end RingBuffer
