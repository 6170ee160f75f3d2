import Mathlib.Logic.Basic
import Mathlib.Tactic.Lemma
import Mathlib.Tactic.TypeStar

set_option relaxedAutoImplicit false
set_option autoImplicit false

/-!
# Runs of a guarded transition system

A transition system is a partial step function `step : σ → α → Option σ`: an action either
is not enabled in a state (`none`) or leads to one next state. An assumption on the
environment is a predicate `ok : σ → α → Prop` on the state and the action taken there, so
that one step function serves every set of assumptions.

## Main definitions

* `Transition.Run` — a finite run, with the list of its actions, all admitted by `ok`.
* `Transition.Reachable` — a state some run leads to.
* `Transition.exec` — the run as a function, for decidable assumptions.

## Main results

* `Transition.Run.trans`, `Transition.Run.cons` — runs compose.
* `Transition.Reachable.invariant` — the invariant rule, whose step may use that the state
  it starts from is reachable.
* `Transition.Run.stable` — a property that every step keeps is kept by a whole run.
* `Transition.Reachable.map` — a simulation carries reachability over.
-/

namespace Transition

variable {σ α : Type*}

/-- `Run step ok s as t`: the actions `as`, each admitted by `ok` in the state where it is
taken, lead from `s` to `t`. -/
inductive Run (step : σ → α → Option σ) (ok : σ → α → Prop) (s : σ) : List α → σ → Prop
  | nil : Run step ok s [] s
  | snoc {as : List α} {t u : σ} {a : α} :
      Run step ok s as t → ok t a → step t a = some u → Run step ok s (as ++ [a]) u

/-- The states that some run leads to. -/
def Reachable (step : σ → α → Option σ) (ok : σ → α → Prop) (s t : σ) : Prop :=
  ∃ as, Run step ok s as t

variable {step : σ → α → Option σ} {ok ok' : σ → α → Prop} {s t u : σ} {as bs : List α} {a : α}

/-- Two runs, one after the other, are a run. -/
lemma Run.trans (h : Run step ok s as t) (h' : Run step ok t bs u) :
    Run step ok s (as ++ bs) u := by
  induction h' with
  | nil => simpa using h
  | snoc _ hok hstep ih =>
    rw [← List.append_assoc]
    exact .snoc ih hok hstep

/-- A step in front of a run is a run. -/
lemma Run.cons (hok : ok s a) (hstep : step s a = some t) (h : Run step ok t as u) :
    Run step ok s (a :: as) u :=
  Run.trans (.snoc .nil hok hstep : Run step ok s ([] ++ [a]) t) h

/-- A run under an assumption is a run under any weaker one. -/
lemma Run.mono (hok : ∀ s a, ok s a → ok' s a) (h : Run step ok s as t) :
    Run step ok' s as t := by
  induction h with
  | nil => exact .nil
  | snoc _ ha hstep ih => exact .snoc ih (hok _ _ ha) hstep

/-- A property that every admitted step keeps is kept by a run. -/
theorem Run.stable {I : σ → Prop} (h : Run step ok s as t) (hs : I s)
    (hstep : ∀ t a u, I t → ok t a → step t a = some u → I u) : I t := by
  induction h with
  | nil => exact hs
  | snoc _ hok hst ih => exact hstep _ _ _ ih hok hst

namespace Reachable

/-- Every state reaches itself. -/
lemma refl (s : σ) : Reachable step ok s s := ⟨[], .nil⟩

/-- One more admitted step. -/
lemma snoc (h : Reachable step ok s t) (hok : ok t a) (hstep : step t a = some u) :
    Reachable step ok s u :=
  let ⟨as, hr⟩ := h
  ⟨as ++ [a], .snoc hr hok hstep⟩

/-- Reachability is transitive. -/
lemma trans (h : Reachable step ok s t) (h' : Reachable step ok t u) : Reachable step ok s u :=
  let ⟨_, hr⟩ := h
  let ⟨_, hr'⟩ := h'
  ⟨_, hr.trans hr'⟩

/-- A state reachable under an assumption is reachable under any weaker one. -/
lemma mono (hok : ∀ s a, ok s a → ok' s a) (h : Reachable step ok s t) :
    Reachable step ok' s t :=
  let ⟨as, hr⟩ := h
  ⟨as, hr.mono hok⟩

/-- **The invariant rule.** What holds initially and is kept by every admitted step from a
reachable state holds in every reachable state. -/
theorem invariant {I : σ → Prop} (h : Reachable step ok s t) (hs : I s)
    (hstep : ∀ t a u, Reachable step ok s t → I t → ok t a → step t a = some u → I u) :
    I t := by
  obtain ⟨as, hr⟩ := h
  induction hr with
  | nil => exact hs
  | snoc hr' hok hst ih => exact hstep _ _ _ ⟨_, hr'⟩ ih hok hst

/-- The weaker assumption need only follow in the states that are reached. -/
lemma mono_of_reachable (hok : ∀ t a, Reachable step ok s t → ok t a → ok' t a)
    (h : Reachable step ok s t) : Reachable step ok' s t :=
  h.invariant (I := fun t => Reachable step ok' s t) (refl _)
    fun _ _ _ ht hI ha hst => hI.snoc (hok _ _ ht ha) hst

/-- **Simulation.** If every admitted step between reachable states is, through `f`, an
admitted step of a second system or no step of it at all, then `f` maps reachable states to
reachable states. -/
theorem map {τ β : Type*} (step' : τ → β → Option τ) (ok' : τ → β → Prop) (f : σ → τ)
    (h : Reachable step ok s t)
    (hsim : ∀ t a u, Reachable step ok s t → ok t a → step t a = some u →
      f u = f t ∨ ∃ b, ok' (f t) b ∧ step' (f t) b = some (f u)) :
    Reachable step' ok' (f s) (f t) := by
  refine h.invariant (I := fun t => Reachable step' ok' (f s) (f t)) (refl _) ?_
  intro t a u ht hI hok hst
  rcases hsim t a u ht hok hst with heq | ⟨b, hb, hst'⟩
  · exact heq ▸ hI
  · exact hI.snoc hb hst'

end Reachable

section Exec

variable [∀ s a, Decidable (ok s a)]

/-- Take the actions of a list one after the other; `none` when one of them is not enabled or
not admitted. -/
def exec (step : σ → α → Option σ) (ok : σ → α → Prop) [∀ s a, Decidable (ok s a)] :
    σ → List α → Option σ
  | s, [] => some s
  | s, a :: as => if ok s a then (step s a).bind fun t => exec step ok t as else none

/-- An execution that goes through is a run. -/
lemma run_of_exec {s t : σ} {as : List α} (h : exec step ok s as = some t) :
    Run step ok s as t := by
  induction as generalizing s with
  | nil =>
    cases h
    exact .nil
  | cons a as ih =>
    simp only [exec] at h
    split at h
    · next hok =>
      obtain ⟨u, hu, h⟩ := Option.bind_eq_some_iff.mp h
      exact .cons hok hu (ih h)
    · cases h

/-- A run found by evaluation: if executing `as` ends in a state where the test `p` holds, a
state where `p` holds is reachable by `as`. -/
lemma exists_run_of_exec (step : σ → α → Option σ) (ok : σ → α → Prop)
    [∀ s a, Decidable (ok s a)] (s : σ) (as : List α) (p : σ → Bool)
    (h : (exec step ok s as).any p = true) : ∃ t, Run step ok s as t ∧ p t = true := by
  obtain ⟨t, ht, hp⟩ := (Option.any_eq_true p _).mp h
  exact ⟨t, run_of_exec ht, hp⟩

end Exec

end Transition
