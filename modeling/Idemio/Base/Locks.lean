import Mathlib.Logic.Function.Basic
import Mathlib.Tactic.Lemma
import Mathlib.Tactic.TypeStar

set_option relaxedAutoImplicit false
set_option autoImplicit false

/-!
# Exclusive locks that are released together

A lock table maps each lock to its holder, if it has one. A holder takes locks one at a time
and gives all of them back at once, as a database transaction does with its row locks and
its transaction-scoped advisory locks.

## Main definitions

* `Locks.Table`, `Locks.acquire`, `Locks.release`.

## Main results

* `Locks.holder_unique` — one lock, one holder.
* `Locks.acquire_keeps`, `Locks.release_keeps` — what one holder takes or gives back leaves
  the locks of the others alone.
* `Locks.acquire_eq_self`, `Locks.acquire_eq_other`, `Locks.release_eq_other` — who holds what
  afterwards.
-/

namespace Locks

/-- Who holds each lock. -/
abbrev Table (κ ω : Type*) := κ → Option ω

variable {κ ω : Type*} {t : Table κ ω} {k k' : κ} {p q : ω}

/-- One lock has one holder. -/
lemma holder_unique (hp : t k = some p) (hq : t k = some q) : p = q :=
  Option.some.inj (hp.symm.trans hq)

section Acquire

variable [DecidableEq κ]

/-- `p` takes the lock `k`. -/
def acquire (t : Table κ ω) (k : κ) (p : ω) : Table κ ω := Function.update t k (some p)

@[simp] lemma acquire_self (t : Table κ ω) (k : κ) (p : ω) : acquire t k p k = some p := by
  simp [acquire]

lemma acquire_of_ne (h : k' ≠ k) : acquire t k p k' = t k' := by
  simp [acquire, h]

/-- Taking a free lock takes nothing away from anyone. -/
lemma acquire_keeps (hfree : t k = none) (h : t k' = some q) : acquire t k p k' = some q := by
  by_cases hk : k' = k
  · subst hk
    simp [hfree] at h
  · rw [acquire_of_ne hk, h]

/-- What one holds after taking a lock. -/
lemma acquire_eq_self : acquire t k p k' = some p ↔ k' = k ∨ t k' = some p := by
  by_cases hk : k' = k
  · simp [hk]
  · simp [acquire_of_ne hk, hk]

/-- What the others hold after one takes a free lock. -/
lemma acquire_eq_other (hfree : t k = none) (hne : q ≠ p) :
    acquire t k p k' = some q ↔ t k' = some q := by
  by_cases hk : k' = k
  · subst hk
    simp [hfree, hne.symm]
  · rw [acquire_of_ne hk]

end Acquire

section Release

variable [DecidableEq ω]

/-- `p` gives back every lock it holds. -/
def release (t : Table κ ω) (p : ω) : Table κ ω := fun k => if t k = some p then none else t k

@[simp] lemma release_self (t : Table κ ω) (p : ω) (k : κ) : release t p k ≠ some p := by
  unfold release
  split <;> simp_all

/-- What one holder gives back, no other one loses. -/
lemma release_keeps (hne : q ≠ p) (h : t k = some q) : release t p k = some q := by
  unfold release
  rw [if_neg, h]
  rw [h]
  exact fun he => hne (Option.some.inj he)

/-- What the others hold after one gives back its locks. -/
lemma release_eq_other (hne : q ≠ p) : release t p k = some q ↔ t k = some q := by
  refine ⟨fun h => ?_, release_keeps hne⟩
  unfold release at h
  split at h
  · cases h
  · exact h

end Release

end Locks
