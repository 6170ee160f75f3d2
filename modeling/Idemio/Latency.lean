import Idemio.Base.Binary64
import Idemio.Base.RingBuffer
import Idemio.Config
import Mathlib.Algebra.Order.Floor.Semifield
import Mathlib.Data.List.Sort

set_option relaxedAutoImplicit false
set_option autoImplicit false

/-!
# The latency of the downstream

`internal/latency`: for each resource type the durations of the latest downstream calls, in a buffer
that is overwritten in turn once it is full, and the delay that a waiting client is advised, which
is the 95th percentile of what the buffer holds within two bounds. The index of that element is
computed in double precision.

## Main definitions

* `Idemio.Tracker`, `Idemio.Tracker.observe`, `Idemio.Tracker.retryAfter` — the tracker and its two
  operations; `none` where an index is out of range.
* `Idemio.Tracker.observeAll` — a sequence of observations from the start.
* `Idemio.observed` — the durations that were observed for one resource type.

## Main results

* `Idemio.holds_observeAll` — the buffer of a resource type holds the end of what was observed for
  it.
* `Idemio.latency_window` — the samples that are held, and what is advised on them.
-/

namespace Idemio

open RingBuffer

/-! ## The tracker -/

/-- How many durations are held for a resource type. -/
def latencyWindow : ℕ := 256

/-- `Floor`, the least that is advised. -/
def retryFloor : Duration := 50 * millisecond

/-- `Ceiling`, the most that is advised. -/
def retryCeiling : Duration := 5 * second

/-- `Default`, what is advised before there is anything to measure. -/
def retryDefault : Duration := second

/-- `latency.Tracker`. An entry that its maps do not have is the empty slice, or zero. -/
structure Tracker where
  samples : String → List Duration
  next : String → ℕ

/-- `NewTracker`. -/
def newTracker : Tracker := ⟨fun _ => [], fun _ => 0⟩

/-- `Observe`. -/
def Tracker.observe (t : Tracker) (resourceType : String) (took : Duration) : Option Tracker :=
  let held := t.samples resourceType
  if held.length < latencyWindow then
    some { t with samples := Function.update t.samples resourceType (held ++ [took]) }
  else
    let i := t.next resourceType
    if i < held.length then
      some ⟨Function.update t.samples resourceType (held.set i took),
        Function.update t.next resourceType ((i + 1) % latencyWindow)⟩
    else none

/-- `clamp`. -/
def clampRetry (d : Duration) : Duration :=
  if d < retryFloor then retryFloor else if d > retryCeiling then retryCeiling else d

/-- `int(float64(n) * 0.95)`. -/
def percentileIndex (n : ℕ) : ℕ :=
  ⌊Binary64.round (Binary64.round n * Binary64.round 0.95)⌋.toNat

/-- `RetryAfter`. -/
def Tracker.retryAfter (t : Tracker) (resourceType : String) : Option Duration :=
  let held := t.samples resourceType
  if held.length = 0 then some retryDefault
  else (held.insertionSort (· ≤ ·))[percentileIndex (held.length - 1)]?.map clampRetry

/-- The tracker after a sequence of calls of `Observe`. -/
def Tracker.observeAll (calls : List (String × Duration)) : Option Tracker :=
  calls.foldlM (fun t call => t.observe call.1 call.2) newTracker

/-- The durations observed for one resource type, in their order. -/
def observed (resourceType : String) (calls : List (String × Duration)) : List Duration :=
  (calls.filter fun call => call.1 = resourceType).map Prod.snd

/-! ## The buffer of a resource type -/

/-- What the tracker holds for a resource type, as a buffer. -/
def Tracker.buffer (t : Tracker) (resourceType : String) : Buffer Duration :=
  ⟨t.samples resourceType, t.next resourceType⟩

lemma observed_concat (resourceType : String) (calls : List (String × Duration))
    (call : String × Duration) :
    observed resourceType (calls ++ [call]) =
      observed resourceType calls ++ if call.1 = resourceType then [call.2] else [] := by
  by_cases h : call.1 = resourceType <;> simp [observed, h]

/-- An update of one entry of both maps is one of the buffers. -/
lemma buffer_update (t : Tracker) (resourceType : String) (items : List Duration) (next : ℕ) :
    Tracker.buffer ⟨Function.update t.samples resourceType items,
        Function.update t.next resourceType next⟩ =
      Function.update t.buffer resourceType ⟨items, next⟩ := by
  funext other
  by_cases hother : other = resourceType
  · subst hother
    simp [Tracker.buffer]
  · simp [Tracker.buffer, Function.update_of_ne hother]

/-- An observation with its buffer in order is a push to it, and leaves the others alone. -/
lemma observe_ok {t : Tracker} {resourceType : String} {durations : List Duration}
    (h : Holds latencyWindow (t.buffer resourceType) durations) (took : Duration) :
    ∃ t', t.observe resourceType took = some t' ∧
      t'.buffer = Function.update t.buffer resourceType
        ((t.buffer resourceType).push latencyWindow took) := by
  have hlength : (t.samples resourceType).length = min durations.length latencyWindow := h.length
  have hnext : if durations.length < latencyWindow then t.next resourceType = 0
      else t.next resourceType < latencyWindow := h.next
  rw [Tracker.observe, Buffer.push]
  by_cases hroom : (t.samples resourceType).length < latencyWindow
  · rw [if_pos hroom, if_pos (show (t.buffer resourceType).items.length < _ from hroom)]
    refine ⟨_, rfl, ?_⟩
    have hupdate := buffer_update t resourceType (t.samples resourceType ++ [took])
      (t.next resourceType)
    rwa [Function.update_eq_self] at hupdate
  · rw [if_neg (by omega)] at hnext
    rw [if_neg hroom, if_neg (show ¬(t.buffer resourceType).items.length < _ from hroom),
      if_pos (by omega)]
    exact ⟨_, rfl, buffer_update t resourceType _ _⟩

/-- **Every sequence of observations runs through, and each buffer is what its own durations make
of it.** -/
lemma holds_observeAll (calls : List (String × Duration)) :
    ∃ t, Tracker.observeAll calls = some t ∧ ∀ resourceType,
      t.buffer resourceType =
        (observed resourceType calls).foldl (Buffer.push latencyWindow) .empty := by
  induction calls using List.reverseRecOn with
  | nil => exact ⟨newTracker, rfl, fun _ => rfl⟩
  | append_singleton calls call ih =>
    obtain ⟨t, hrun, hbuffer⟩ := ih
    have hholds : Holds latencyWindow (t.buffer call.1) (observed call.1 calls) := by
      rw [hbuffer]
      exact holds_foldl (by decide) _
    obtain ⟨t', hstep, hbuffer'⟩ := observe_ok hholds call.2
    refine ⟨t', ?_, fun resourceType => ?_⟩
    · rw [Tracker.observeAll] at hrun ⊢
      simp [List.foldlM_append, hrun, hstep]
    · rw [hbuffer', observed_concat]
      by_cases hother : resourceType = call.1
      · subst hother
        simp [hbuffer]
      · simp [Function.update_of_ne hother, Ne.symm hother, hbuffer]

/-! ## The percentile -/

/-- In double precision `0.95 * n` is cut to the same integer as the exact product, for every length
that a buffer can have. -/
lemma percentileIndex_eq {n : ℕ} (hn : n < latencyWindow) : percentileIndex n = 95 * n / 100 := by
  revert n
  decide +kernel

/-- Sorting forgets the order. -/
lemma insertionSort_eq_of_perm {xs ys : List Duration} (h : xs.Perm ys) :
    xs.insertionSort (· ≤ ·) = ys.insertionSort (· ≤ ·) := by
  have : Std.Total (fun a b : Duration => a ≤ b) := ⟨Int64.le_total⟩
  have : IsTrans Duration (fun a b => a ≤ b) := ⟨fun _ _ _ => Int64.le_trans⟩
  refine List.Perm.eq_of_pairwise (fun a b _ _ => Int64.le_antisymm)
    (List.pairwise_insertionSort _ xs) (List.pairwise_insertionSort _ ys) ?_
  exact ((List.perm_insertionSort _ xs).trans h).trans (List.perm_insertionSort _ ys).symm

/-! ## The window -/

lemma clampRetry_eq (d : Duration) : clampRetry d = max retryFloor (min retryCeiling d) := by
  have hbounds : retryFloor < retryCeiling := by decide
  have hmax (a b : Duration) : max a b = if a ≤ b then b else a := rfl
  have hmin (a b : Duration) : min a b = if a ≤ b then a else b := rfl
  rw [clampRetry, hmin, hmax]
  grind

/-- The index in exact arithmetic. -/
lemma percentileIndex_eq_floor {size : ℕ} (hpos : 0 < size) (hsize : size ≤ latencyWindow) :
    percentileIndex (size - 1) = ⌊(0.95 : ℚ) * (size - 1)⌋₊ := by
  have hcast : (0.95 : ℚ) * (size - 1) = (95 * (size - 1) : ℕ) / (100 : ℕ) := by
    push_cast [Nat.cast_sub hpos]
    ring
  rw [percentileIndex_eq (by omega), hcast, Nat.floor_div_eq_div]

/-- What is advised on a buffer that holds the end of some durations. -/
lemma retryAfter_of_holds {t : Tracker} {resourceType : String} {durations : List Duration}
    (h : Holds latencyWindow (t.buffer resourceType) durations) (hnil : durations ≠ []) :
    ∃ d, ((last latencyWindow durations).insertionSort (· ≤ ·))[
        percentileIndex (min durations.length latencyWindow - 1)]? = some d ∧
      t.retryAfter resourceType = some (clampRetry d) := by
  have hlength : (t.samples resourceType).length = min durations.length latencyWindow := h.length
  have hpos : 0 < min durations.length latencyWindow :=
    lt_min (List.length_pos_of_ne_nil hnil) (by decide)
  have hsort := insertionSort_eq_of_perm h.perm
  obtain ⟨d, hd⟩ : ∃ d, ((last latencyWindow durations).insertionSort (· ≤ ·))[
      percentileIndex (min durations.length latencyWindow - 1)]? = some d := by
    rw [percentileIndex_eq (by omega)]
    refine ⟨_, List.getElem?_eq_getElem ?_⟩
    rw [List.length_insertionSort, length_last]
    omega
  refine ⟨d, hd, ?_⟩
  rw [Tracker.retryAfter, if_neg (by omega), hlength]
  rw [← hsort] at hd
  exact congrArg (Option.map clampRetry) hd

/-- **The latency window is the last 256 samples.** After any sequence of observations the samples
of a resource type are the latest durations that were observed for it, in some order. What was
observed for other resource types changes neither them nor the advice. With at least one sample the
advice is the element at `0.95 * (size - 1)`, rounded down, of the sorted window, within the two
bounds. -/
theorem latency_window (calls : List (String × Duration)) (resourceType : String) :
    ∃ t, Tracker.observeAll calls = some t ∧
      (t.samples resourceType).Perm (last 256 (observed resourceType calls)) ∧
      (∀ calls' t', Tracker.observeAll calls' = some t' →
        observed resourceType calls' = observed resourceType calls →
        t'.samples resourceType = t.samples resourceType ∧
          t'.retryAfter resourceType = t.retryAfter resourceType) ∧
      (observed resourceType calls ≠ [] →
        ∃ d, ((last 256 (observed resourceType calls)).insertionSort (· ≤ ·))[
            ⌊(0.95 : ℚ) * ((min (observed resourceType calls).length 256 : ℕ) - 1)⌋₊]? = some d ∧
          t.retryAfter resourceType = some (max retryFloor (min retryCeiling d))) := by
  obtain ⟨t, hrun, hbuffer⟩ := holds_observeAll calls
  have hholds : Holds latencyWindow (t.buffer resourceType) (observed resourceType calls) := by
    rw [hbuffer]
    exact holds_foldl (by decide) _
  refine ⟨t, hrun, hholds.perm, fun calls' t' hrun' hsame => ?_, fun hnil => ?_⟩
  · obtain ⟨u, hu, hbuffer'⟩ := holds_observeAll calls'
    obtain rfl : u = t' := Option.some.inj (hu.symm.trans hrun')
    have heq : u.buffer resourceType = t.buffer resourceType := by rw [hbuffer', hbuffer, hsame]
    have hsamples : u.samples resourceType = t.samples resourceType := congrArg Buffer.items heq
    exact ⟨hsamples, by rw [Tracker.retryAfter, Tracker.retryAfter, hsamples]⟩
  · obtain ⟨d, hd, hadvice⟩ := retryAfter_of_holds hholds hnil
    have hpos : 0 < min (observed resourceType calls).length latencyWindow :=
      lt_min (List.length_pos_of_ne_nil hnil) (by decide)
    rw [percentileIndex_eq_floor hpos (min_le_right _ _)] at hd
    exact ⟨d, hd, by rw [hadvice, clampRetry_eq]⟩

end Idemio
