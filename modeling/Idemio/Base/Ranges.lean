import Mathlib.Data.List.Perm.Basic
import Mathlib.Order.Basic
import Mathlib.Order.Lattice
import Mathlib.Tactic.Lemma

set_option relaxedAutoImplicit false
set_option autoImplicit false

/-!
# Tilings

Half-open ranges, each with a lower and an upper bound, that follow each other without gap or
overlap from one end of an interval to the other.

## Main definitions

* `Ranges.Tiles` — the ranges in order.
* `Ranges.Tiling` — the same for ranges in any order.

## Main results

* `Ranges.Tiling.append` — going on where a tiling ends.
* `Ranges.Tiling.covers` — there is no gap.
* `Ranges.Tiling.mem_upper` — some range ends at the end.
-/

namespace Ranges

variable {ι α : Type} [LinearOrder α] (lower upper : ι → α)

/-- The ranges follow each other from `lo` to `hi`. -/
def Tiles : List ι → α → α → Prop
  | [], lo, hi => lo = hi
  | p :: ps, lo, hi => lower p = lo ∧ lower p < upper p ∧ Tiles ps (upper p) hi

instance decidableTiles [DecidableEq α] : ∀ ps lo hi, Decidable (Tiles lower upper ps lo hi)
  | [], lo, hi => inferInstanceAs (Decidable (lo = hi))
  | p :: ps, lo, hi =>
    have := decidableTiles ps (upper p) hi
    inferInstanceAs
      (Decidable (lower p = lo ∧ lower p < upper p ∧ Tiles lower upper ps (upper p) hi))

/-- In some order, the ranges follow each other from `lo` to `hi`. -/
def Tiling (ps : List ι) (lo hi : α) : Prop :=
  ∃ order, order.Perm ps ∧ Tiles lower upper order lo hi

variable {lower upper} {ps qs : List ι} {lo mid hi x : α} {p : ι}

lemma Tiles.append (h : Tiles lower upper ps lo mid) (h' : Tiles lower upper qs mid hi) :
    Tiles lower upper (ps ++ qs) lo hi := by
  induction ps generalizing lo with
  | nil =>
    obtain rfl : lo = mid := h
    exact h'
  | cons p ps ih => exact ⟨h.1, h.2.1, ih h.2.2⟩

lemma Tiles.le (h : Tiles lower upper ps lo hi) : lo ≤ hi := by
  induction ps generalizing lo with
  | nil => exact h.le
  | cons p ps ih => exact h.1 ▸ h.2.1.le.trans (ih h.2.2)

/-- No range goes beyond the ends. -/
lemma Tiles.bounds (h : Tiles lower upper ps lo hi) (hp : p ∈ ps) :
    lo ≤ lower p ∧ lower p < upper p ∧ upper p ≤ hi := by
  induction ps generalizing lo with
  | nil => simp at hp
  | cons q ps ih =>
    obtain ⟨rfl, hlt, hrest⟩ := h
    rcases List.mem_cons.mp hp with rfl | hp
    · exact ⟨le_rfl, hlt, hrest.le⟩
    · obtain ⟨hlow, hlt', hup⟩ := ih hrest hp
      exact ⟨hlt.le.trans hlow, hlt', hup⟩

lemma Tiles.covers (h : Tiles lower upper ps lo hi) (hlow : lo ≤ x) (hup : x < hi) :
    ∃ p ∈ ps, lower p ≤ x ∧ x < upper p := by
  induction ps generalizing lo with
  | nil =>
    obtain rfl : lo = hi := h
    exact absurd hup hlow.not_gt
  | cons p ps ih =>
    obtain ⟨rfl, -, hrest⟩ := h
    rcases lt_or_ge x (upper p) with hx | hx
    · exact ⟨p, List.mem_cons_self, hlow, hx⟩
    · obtain ⟨q, hq, hcover⟩ := ih hrest hx
      exact ⟨q, List.mem_cons_of_mem _ hq, hcover⟩

/-- The last range ends at the end. -/
lemma Tiles.mem_upper (h : Tiles lower upper ps lo hi) (hnil : ps ≠ []) : hi ∈ ps.map upper := by
  induction ps generalizing lo with
  | nil => exact absurd rfl hnil
  | cons p ps ih =>
    obtain ⟨-, -, hrest⟩ := h
    cases ps with
    | nil =>
      obtain rfl : upper p = hi := hrest
      exact List.mem_cons_self
    | cons q ps => exact List.mem_cons_of_mem _ (ih hrest (List.cons_ne_nil _ _))

lemma Tiling.append (h : Tiling lower upper ps lo mid) (h' : Tiles lower upper qs mid hi) :
    Tiling lower upper (ps ++ qs) lo hi := by
  obtain ⟨order, hperm, htiles⟩ := h
  exact ⟨order ++ qs, hperm.append_right qs, htiles.append h'⟩

lemma Tiling.bounds (h : Tiling lower upper ps lo hi) (hp : p ∈ ps) :
    lo ≤ lower p ∧ lower p < upper p ∧ upper p ≤ hi := by
  obtain ⟨order, hperm, htiles⟩ := h
  exact htiles.bounds (hperm.mem_iff.mpr hp)

lemma Tiling.le (h : Tiling lower upper ps lo hi) : lo ≤ hi := by
  obtain ⟨order, -, htiles⟩ := h
  exact htiles.le

/-- **A tiling has no gap.** -/
lemma Tiling.covers (h : Tiling lower upper ps lo hi) (hlow : lo ≤ x) (hup : x < hi) :
    ∃ p ∈ ps, lower p ≤ x ∧ x < upper p := by
  obtain ⟨order, hperm, htiles⟩ := h
  obtain ⟨p, hp, hcover⟩ := htiles.covers hlow hup
  exact ⟨p, hperm.mem_iff.mp hp, hcover⟩

/-- **Some range ends at the end**, where by `Tiling.bounds` none goes beyond it. -/
lemma Tiling.mem_upper (h : Tiling lower upper ps lo hi) (hnil : ps ≠ []) : hi ∈ ps.map upper := by
  obtain ⟨order, hperm, htiles⟩ := h
  have horder : order ≠ [] := by
    rintro rfl
    exact hnil hperm.nil_eq.symm
  exact (hperm.map upper).mem_iff.mp (htiles.mem_upper horder)

end Ranges
