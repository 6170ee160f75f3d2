import Idemio.System.Scan

set_option relaxedAutoImplicit false
set_option autoImplicit false

/-!
# Conflict exclusion

Two incompatible writes of different agents on one resource do not both survive inside the
window of the later one, when conflicts are enforced for it. Times are taken when a transaction
begins, before it waits for the lock, so "earlier" and "later" refer to the order of commits
and not to the times.

## Main definitions

* `Idemio.Excluded` — what the later of two intents says about the earlier.

## Main results

* `Idemio.excluded_of_reaches` — every intent excludes its live rivals committed before it.
* `Idemio.conflict_exclusion` — the same, for two given intents.
-/

namespace Idemio

open Transition

/-- Of two live incompatible intents of different agents on one resource, the earlier one `e` is
outside the window of the later one `l`, if `l` was claimed with conflicts enforced. -/
def Excluded (claims : List Claimed) (e l : IntentRow) : Prop :=
  e.live = true → l.live = true → e.resourceType = l.resourceType →
    e.resourceID = l.resourceID → e.agentID ≠ l.agentID →
    compatible e.declared l.declared = false →
    ∀ c ∈ claims, c.tx.intent.intentID = l.intentID → c.tx.req.enforce = true →
      e.emittedAt ≤ l.emittedAt - c.tx.req.window

variable {env : Env} {p : Pid} {sh sh' : Shared} {pr pr' : Proc} {a : Action} {s : State}
  {ok : Assumption} {tx : ClaimTx} {verdict : Verdict} {e l : IntentRow}

/-- A claim that was committed has its intent among the committed ones. -/
lemma Ids.mem_of_claim (hids : Ids sh) {c : Claimed} (hc : c ∈ sh.claims) :
    ∃ i ∈ sh.db.intents, i.inserted = c.tx.intent.inserted := by
  have hmem : c.tx.intent.inserted ∈ sh.db.intents.map (·.inserted) :=
    hids.claims ▸ List.mem_map_of_mem hc
  obtain ⟨i, hi, heq⟩ := List.mem_map.mp hmem
  exact ⟨i, hi, heq⟩

/-- No earlier claim has the intent of a claim that is about to commit. -/
lemma OwnIntent.ne_of_claim (hown : OwnIntent p sh tx) (hids : Ids sh) {c : Claimed}
    (hc : c ∈ sh.claims) : c.tx.intent.intentID ≠ tx.intent.intentID := by
  obtain ⟨i, hi, heq⟩ := hids.mem_of_claim hc
  have hid : i.inserted.intentID = c.tx.intent.inserted.intentID := congrArg _ heq
  exact hid ▸ hown.fresh i hi

/-- A claim that is about to commit excludes its rivals. -/
lemma Decided.excluded (hdec : Decided env p sh tx verdict)
    (hscan : Scanned sh (.handler (.commit tx verdict))) (hids : Ids sh)
    (he : e ∈ sh.db.intents) : Excluded (sh.claims ++ [⟨p, tx, verdict⟩]) e tx.intent := by
  intro helive hlive htype hid hagent hcompat c hc hcid henforce
  -- no earlier claim is about this intent
  obtain rfl : c = ⟨p, tx, verdict⟩ := by
    rcases List.mem_append.mp hc with hc | hc
    · exact absurd hcid (hdec.own.ne_of_claim hids hc)
    · exact List.mem_singleton.mp hc
  obtain ⟨row₀, -, hverdict⟩ := hdec.openClaim
  cases hverdict with
  | rejected _ hintent =>
    rw [hintent] at hlive
    cases hlive
  | claimed _ hintent =>
    by_contra hlate
    refine hagent ((hscan henforce e he ⟨?_, ?_⟩).trans (by rw [hintent]; rfl))
    · rw [hintent] at htype hid hlate
      exact inWindow_iff.mpr ⟨htype, hid, Int.not_le.mp hlate, helive, hdec.own.fresh e he⟩
    · rw [hintent, compatible_comm] at hcompat
      exact hcompat

/-- Voiding keeps the exclusions: what is live after it was live before. -/
lemma Excluded.voidIntent {claims : List Claimed} (h : Excluded claims e l) (now : Time)
    (n : Nat) (t : Time) :
    Excluded claims (voidIntent now n t e) (Idemio.voidIntent now n t l) := by
  intro he hl
  rw [live_of_voidIntent he, live_of_voidIntent hl] at *
  exact h he hl

/-- A step keeps the exclusions. -/
lemma Rule.excluded (h : Rule env p sh pr a sh' pr') (hheld : Held env p sh pr)
    (hscan : Scanned sh pr) (hids : Ids sh)
    (hexcl : sh.db.intents.Pairwise (Excluded sh.claims)) :
    sh'.db.intents.Pairwise (Excluded sh'.claims) := by
  rcases h.db_cases with ⟨hdb, hclaims⟩ | ⟨-, ⟨tx, verdict, rfl, rfl⟩ |
    ⟨c, caller, now, row, voided, rfl, hphase, rfl⟩ | ⟨now, gone, rfl, rfl⟩⟩
  · rwa [hdb, hclaims]
  · have hdec : Decided env p sh tx verdict := hheld
    refine List.pairwise_append.mpr ⟨?_, List.pairwise_singleton _ _, ?_⟩
    · refine hexcl.imp_of_mem fun {e l} _ hl hel => ?_
      intro h₁ h₂ h₃ h₄ h₅ h₆ c hc hcid henforce
      rcases List.mem_append.mp hc with hc | hc
      · exact hel h₁ h₂ h₃ h₄ h₅ h₆ c hc hcid henforce
      · obtain rfl := List.mem_singleton.mp hc
        exact absurd hcid.symm (hdec.own.fresh l hl)
    · intro e he l hl
      obtain rfl := List.mem_singleton.mp hl
      exact hdec.excluded hscan hids he
  · cases voided with
    | none => exact hexcl
    | some v =>
      refine List.pairwise_map.mpr (hexcl.imp fun hel => ?_)
      exact hel.voidIntent now v.intentID v.emittedAt
  · exact hexcl

/-- **In every reachable state every intent excludes its live rivals committed before it.** -/
theorem excluded_of_reaches (h : Reaches env ok s) :
    s.shared.db.intents.Pairwise (Excluded s.shared.claims) := by
  refine h.invariant (I := fun s => s.shared.db.intents.Pairwise (Excluded s.shared.claims))
    List.Pairwise.nil ?_
  rintro s ⟨p, a⟩ s' hs hexcl _ hstep
  obtain ⟨sh', pr', hrule, rfl⟩ := rule_of_step hstep
  obtain ⟨hids, hheld⟩ := held_of_reaches hs
  exact hrule.excluded (hheld p) (scanned_of_reaches hs p) hids hexcl

/-- **Conflict exclusion.** Let `e` and `l` be intents on one resource from different agents, not
compatible and both live, `e` committed before `l` and `l` claimed by `c` with conflicts
enforced. Then `e` was emitted before the window of `l`. -/
theorem conflict_exclusion (h : Reaches env ok s) (hel : [e, l].Sublist s.shared.db.intents)
    {c : Claimed} (hc : c ∈ s.shared.claims) (hcl : c.tx.intent.intentID = l.intentID)
    (henforce : c.tx.req.enforce = true) (htype : e.resourceType = l.resourceType)
    (hid : e.resourceID = l.resourceID) (hagent : e.agentID ≠ l.agentID) (he : e.live = true)
    (hl : l.live = true) (hcompat : compatible e.declared l.declared = false) :
    e.emittedAt ≤ l.emittedAt - c.tx.req.window :=
  List.pairwise_iff_forall_sublist.mp (excluded_of_reaches h) hel he hl htype hid hagent hcompat
    c hc hcl henforce

/-- Two agents replace one resource, the second one long after the first. -/
theorem conflict_exclusion_spaced : ∃ s e l, ∃ c : Claimed, Reaches Env.small NoRetention s ∧
    s.shared.db.intents = [e, l] ∧ e.agentID ≠ l.agentID ∧ e.live = true ∧ l.live = true ∧
    e.emittedAt ≤ l.emittedAt - c.tx.req.window ∧ c.tx.req.window = 1000 := by
  obtain ⟨s, hrun, hs⟩ := exists_run_of_exec (step Env.small) NoRetention init
    (
      insertSteps 0 (.small .replace true) (.small "a" keyA) 5 [] ++ [(0, .commit .ok)] ++
      insertSteps 1 (.small .replace true) (.small "b" keyB) 2000 [] ++ [(1, .commit .ok)])
    (fun s => s.shared.db.intents =
        [.small 1 .replace "a" keyA 5, .small 3 .replace "b" keyB 2000] &&
      s.shared.claims.getLast?.any fun c =>
        c.tx.intent.intentID = 3 && c.tx.req.enforce && c.tx.req.window = 1000)
    (by decide +kernel)
  simp only [Bool.and_eq_true, decide_eq_true_eq] at hs
  obtain ⟨hintents, hs⟩ := hs
  obtain ⟨c, hc, hs⟩ := (Option.any_eq_true _ _).mp hs
  simp only [Bool.and_eq_true, decide_eq_true_eq] at hs
  obtain ⟨⟨hcl, henforce⟩, hw⟩ := hs
  refine ⟨s, _, _, c, ⟨_, hrun⟩, hintents, by decide, rfl, rfl, ?_, hw⟩
  exact conflict_exclusion ⟨_, hrun⟩ (hintents ▸ List.Sublist.refl _) (List.mem_of_getLast? hc) hcl
    henforce rfl rfl (by decide) rfl rfl (by decide)

end Idemio
