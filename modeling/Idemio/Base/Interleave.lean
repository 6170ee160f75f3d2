import Mathlib.Logic.Function.Basic
import Idemio.Base.Run

set_option relaxedAutoImplicit false
set_option autoImplicit false

/-!
# Processes that share a state

Processes, one for each index, take turns. A step of one process reads and writes the shared
state and its own local state and nothing else.

## Main definitions

* `Interleave.Config` — the shared state and the local state of every process.
* `Interleave.step` — one step of one process.

## Main results

* `Interleave.step_eq_some` — what a step changes.
* `Interleave.invariant_procs` — a local invariant of every process.
* `Interleave.invariant` — the rely-guarantee rule: an invariant of the shared state and one
  of each process hold throughout, if every step keeps its own and stays within a guarantee
  under which the invariants of the others are stable.
-/

namespace Interleave

open Transition

/-- The shared state and the local state of every process. -/
structure Config (ι σ π : Type*) where
  shared : σ
  procs : ι → π

variable {ι σ π α : Type*} [DecidableEq ι] {act : ι → σ → π → α → Option (σ × π)}
  {c c' : Config ι σ π} {i j : ι} {a : α}

/-- Process `i` takes the action `a`. -/
def step (act : ι → σ → π → α → Option (σ × π)) (c : Config ι σ π) (ia : ι × α) :
    Option (Config ι σ π) :=
  (act ia.1 c.shared (c.procs ia.1) ia.2).map fun r =>
    ⟨r.1, Function.update c.procs ia.1 r.2⟩

/-- A step is a step of the acting process on the shared state. -/
lemma step_eq_some : step act c (i, a) = some c' ↔
    ∃ sh pr, act i c.shared (c.procs i) a = some (sh, pr) ∧
      c' = ⟨sh, Function.update c.procs i pr⟩ := by
  simp only [step, Option.map_eq_some_iff, Prod.exists]
  constructor
  · rintro ⟨sh, pr, h, rfl⟩
    exact ⟨sh, pr, h, rfl⟩
  · rintro ⟨sh, pr, h, rfl⟩
    exact ⟨sh, pr, h, rfl⟩

/-- The same, in terms of the configuration after the step. -/
lemma act_of_step (h : step act c (i, a) = some c') :
    act i c.shared (c.procs i) a = some (c'.shared, c'.procs i) := by
  obtain ⟨sh, pr, hact, rfl⟩ := step_eq_some.mp h
  simpa using hact

/-- No step changes the local state of another process. -/
lemma step_procs_of_ne (h : step act c (i, a) = some c') (hij : j ≠ i) :
    c'.procs j = c.procs j := by
  obtain ⟨sh, pr, -, rfl⟩ := step_eq_some.mp h
  exact Function.update_of_ne hij _ _

/-- Processes that never act stay as they were. -/
lemma procs_of_not_mem {ok : Config ι σ π → ι × α → Prop} {c₀ : Config ι σ π} {pids : List ι}
    (hok : ∀ c ia, ok c ia → ia.1 ∈ pids) (h : Reachable (step act) ok c₀ c) (hj : j ∉ pids) :
    c.procs j = c₀.procs j := by
  refine h.invariant (I := fun c => c.procs j = c₀.procs j) rfl ?_
  rintro c ⟨i, a⟩ c' - hc ha hstep
  have hji : j ≠ i := by
    rintro rfl
    exact hj (hok c (j, a) ha)
  exact (step_procs_of_ne hstep hji).trans hc

/-- **Local invariants.** A property of each process in the shared state holds throughout, if a
step keeps it for the process that acts and for each of the others. What is known of every
reachable state may be used. -/
theorem invariant_procs {ok : Config ι σ π → ι × α → Prop} {c₀ : Config ι σ π}
    {P : ι → σ → π → Prop} (h₀ : ∀ j, P j c₀.shared (c₀.procs j))
    (hown : ∀ c i a sh pr, Reachable (step act) ok c₀ c → (∀ j, P j c.shared (c.procs j)) →
      ok c (i, a) → act i c.shared (c.procs i) a = some (sh, pr) → P i sh pr)
    (hother : ∀ c i a sh pr j, j ≠ i → Reachable (step act) ok c₀ c →
      (∀ j, P j c.shared (c.procs j)) → ok c (i, a) →
      act i c.shared (c.procs i) a = some (sh, pr) → P j sh (c.procs j))
    (h : Reachable (step act) ok c₀ c) (j : ι) : P j c.shared (c.procs j) := by
  refine h.invariant (I := fun c => ∀ j, P j c.shared (c.procs j)) h₀ ?_ j
  rintro c ⟨i, a⟩ c' hc hP hok hstep j
  obtain ⟨sh, pr, hact, rfl⟩ := step_eq_some.mp hstep
  by_cases hij : j = i
  · subst hij
    simpa using hown c j a sh pr hc hP hok hact
  · simpa only [Function.update_of_ne hij] using hother c i a sh pr j hij hc hP hok hact

/-- **The rely-guarantee rule.** `I` is an invariant of the shared state, `P i` one of process
`i` in the shared state, and `G i` what a step of process `i` may do to the shared state.

**Proof sketch.** Induction over the run. The acting process keeps `I` and its own `P` by
`hlocal`; a process that did not act keeps its local state, and its `P` is stable under the
guarantee of the one that did. -/
theorem invariant {ok : Config ι σ π → ι × α → Prop} {c₀ : Config ι σ π} {I : σ → Prop}
    {P : ι → σ → π → Prop} {G : ι → σ → σ → Prop} (hI₀ : I c₀.shared)
    (hP₀ : ∀ j, P j c₀.shared (c₀.procs j))
    (hlocal : ∀ c i a sh pr, Reachable (step act) ok c₀ c → I c.shared →
      (∀ j, P j c.shared (c.procs j)) → ok c (i, a) →
      act i c.shared (c.procs i) a = some (sh, pr) → I sh ∧ P i sh pr ∧ G i c.shared sh)
    (hstable : ∀ i j sh sh' pr, i ≠ j → I sh → I sh' → G i sh sh' → P j sh pr → P j sh' pr)
    (h : Reachable (step act) ok c₀ c) :
    I c.shared ∧ ∀ j, P j c.shared (c.procs j) := by
  refine h.invariant (I := fun c => I c.shared ∧ ∀ j, P j c.shared (c.procs j))
    ⟨hI₀, hP₀⟩ ?_
  rintro c ⟨i, a⟩ c' hc ⟨hI, hP⟩ hok hstep
  obtain ⟨sh, pr, hact, rfl⟩ := step_eq_some.mp hstep
  obtain ⟨hI', hPi, hG⟩ := hlocal c i a sh pr hc hI hP hok hact
  refine ⟨hI', fun j => ?_⟩
  by_cases hij : j = i
  · subst hij
    simpa using hPi
  · simp only [Function.update_of_ne hij]
    exact hstable i j _ _ _ (Ne.symm hij) hI hI' hG (hP j)

end Interleave
