import Idemio.Properties.Attempts

set_option relaxedAutoImplicit false
set_option autoImplicit false

/-!
# The log of conflicts is faithful

A row of `conflicts` is written by the claim that detects the conflict and names two intents. It
is committed together with the intent of that claim, and the other intent was committed when the
claim read its window. So in every state the row describes two intents that are there, on one
resource and incompatible, and its resolution says what became of the claim.

## Main definitions

* `Idemio.Resolution.Fits` — the resolution that a claim records.
* `Idemio.Conflicts` — a claim is in conflict with an intent in its window.
* `Idemio.Noted` — what a claim records is what it has found.
* `Idemio.ConflictRow.Faithful` — what a row of `conflicts` says is so.

## Main results

* `Idemio.noted_of_reaches` — `Noted` of every claim, before and after its commit.
* `Idemio.conflict_log_faithful` — every row of `conflicts` is faithful, and no intent has more
  than ten.
-/

namespace Idemio

open Transition

/-- The resolution that a claim records of a conflict: observed in shadow mode; rejected when the
claim is; serialized, with the same agent alone, when it goes on. -/
inductive Resolution.Fits (tx : ClaimTx) (other : IntentRow) : Verdict → Resolution → Prop
  | observed {n : Nat} (hshadow : tx.req.enforce = false) : Fits tx other (.claimed n) .observed
  | rejected {m : RawMessage} (henforce : tx.req.enforce = true) :
      Fits tx other (.rejected m) .rejected
  | serialized {n : Nat} (henforce : tx.req.enforce = true)
      (hagent : other.agentID = tx.req.agentID) : Fits tx other (.claimed n) .serialized

/-- A claim is in conflict with another intent: it is on the same resource and in the window of the
claim, and the operations are not compatible. -/
structure Conflicts (tx : ClaimTx) (other : IntentRow) : Prop where
  resourceType : other.resourceType = tx.req.resourceType
  resourceID : other.resourceID = tx.req.resourceID
  window : tx.now - tx.req.window < other.emittedAt
  apart : other.intentID ≠ tx.intent.intentID
  incompatible : compatible tx.req.declared other.declared = false

/-- What a claim records is what it has found, ten rows at most. -/
structure Noted (sh : Shared) (tx : ClaimTx) (verdict : Verdict) : Prop where
  few : tx.conflicts.length ≤ maxRecordedConflicts
  rows : ∀ c ∈ tx.conflicts, ∃ n resolution, ∃ j ∈ sh.db.intents, Conflicts tx j ∧
    Resolution.Fits tx j verdict resolution ∧ c = insertConflict tx resolution n j

/-- What a claim has found, from its window to its commit. -/
def Found (sh : Shared) : Proc → Prop
  | .handler (.statuses tx same) => tx.req.enforce = true ∧
    ∀ i ∈ same, i.agentID = tx.req.agentID ∧ ∃ j ∈ sh.db.intents, j.inserted = i.inserted ∧
      Conflicts tx j
  | .handler (.commit tx verdict) => Noted sh tx verdict
  | _ => True

variable {env : Env} {p q : Pid} {sh sh' : Shared} {pr pr' : Proc} {a : Action} {s s' : State}
  {ok : Assumption} {tx tx' : ClaimTx} {verdict : Verdict} {i j : IntentRow}

/-! ## Voiding changes nothing of this -/

/-- Intents that were inserted alike differ in `voided_at` alone. -/
lemma IntentRow.eq_with_voidedAt (h : j.inserted = i.inserted) :
    j = { i with voidedAt := j.voidedAt } :=
  congrArg (fun x : IntentRow => { x with voidedAt := j.voidedAt }) h

/-- A conflict does not depend on whether the other intent is voided. -/
lemma Conflicts.congr (h : Conflicts tx i) (heq : j.inserted = i.inserted) : Conflicts tx j := by
  rw [IntentRow.eq_with_voidedAt heq]
  exact ⟨h.resourceType, h.resourceID, h.window, h.apart, h.incompatible⟩

/-- Nor does the resolution. -/
lemma Resolution.Fits.congr {resolution : Resolution} (h : Resolution.Fits tx i verdict resolution)
    (heq : j.inserted = i.inserted) : Resolution.Fits tx j verdict resolution := by
  rw [IntentRow.eq_with_voidedAt heq]
  cases h with
  | observed hshadow => exact .observed hshadow
  | rejected henforce => exact .rejected henforce
  | serialized henforce hagent => exact .serialized henforce hagent

/-- Nor does the row that is recorded. -/
lemma insertConflict_congr (tx : ClaimTx) (resolution : Resolution) (n : Nat)
    (heq : j.inserted = i.inserted) :
    insertConflict tx resolution n j = insertConflict tx resolution n i := by
  rw [IntentRow.eq_with_voidedAt heq]
  rfl

/-- The intents stay, though they may be voided. -/
def Keeps (sh sh' : Shared) : Prop :=
  ∀ i ∈ sh.db.intents, ∃ j ∈ sh'.db.intents, j.inserted = i.inserted

/-- What was recorded stays so. -/
lemma Noted.mono (h : Noted sh tx verdict) (hkeeps : Keeps sh sh') : Noted sh' tx verdict := by
  refine ⟨h.few, fun c hc => ?_⟩
  obtain ⟨n, resolution, j, hj, hconflicts, hfits, rfl⟩ := h.rows c hc
  obtain ⟨j', hj', heq⟩ := hkeeps j hj
  exact ⟨n, resolution, j', hj', hconflicts.congr heq, hfits.congr heq,
    (insertConflict_congr tx resolution n heq).symm⟩

/-- What was found stays so. -/
lemma Found.mono (h : Found sh pr) (hkeeps : Keeps sh sh') : Found sh' pr := by
  unfold Found at h ⊢
  split at h
  · refine ⟨h.1, fun i hi => ?_⟩
    obtain ⟨hagent, j, hj, heq, hconflicts⟩ := h.2 i hi
    obtain ⟨j', hj', heq'⟩ := hkeeps j hj
    exact ⟨hagent, j', hj', heq'.trans heq, hconflicts.congr heq'⟩
  · exact h.mono hkeeps
  · trivial

/-! ## One step -/

/-- A conflicting row of the window is in conflict with the claim. -/
lemma conflicts_of_mem {rows : List IntentRow}
    (hrows : SelectWindow sh.db tx.req tx.now tx.intent.intentID rows)
    (hi : i ∈ conflictingIntents tx.req rows) : i ∈ sh.db.intents ∧ Conflicts tx i := by
  obtain ⟨hmem, hwindow, hcompat⟩ := (mem_conflictingIntents hrows).mp hi
  obtain ⟨htype, hid, hlt, -, hne⟩ := inWindow_iff.mp hwindow
  exact ⟨hmem, htype, hid, hlt, hne, hcompat⟩

/-- The rows that `recordConflicts` writes of what was found. -/
lemma noted_recordConflicts {resolution : Resolution} {nextID : Nat} {candidates : List IntentRow}
    (hconflicts : tx'.conflicts = recordConflicts tx resolution nextID candidates)
    (hreq : tx'.req = tx.req) (hnow : tx'.now = tx.now)
    (hid : tx'.intent.intentID = tx.intent.intentID)
    (hfound : ∀ i ∈ candidates, Resolution.Fits tx i verdict resolution ∧
      ∃ j ∈ sh.db.intents, j.inserted = i.inserted ∧ Conflicts tx j) : Noted sh tx' verdict := by
  refine ⟨?_, fun c hc => ?_⟩
  · rw [hconflicts, length_recordConflicts]
    exact Nat.min_le_left _ _
  · rw [hconflicts] at hc
    obtain ⟨i, hi, n, rfl⟩ := mem_recordConflicts hc
    obtain ⟨hfits, j, hj, heq, hc⟩ := hfound i hi
    refine ⟨n, resolution, j, hj, ?_, ?_, ?_⟩
    · exact ⟨hreq ▸ hc.resourceType, hreq ▸ hc.resourceID, hreq ▸ hnow ▸ hc.window,
        hid ▸ hc.apart, hreq ▸ hc.incompatible⟩
    · have hfits := hfits.congr heq
      cases hfits with
      | observed h => exact .observed (hreq ▸ h)
      | rejected h => exact .rejected (hreq ▸ h)
      | serialized h h' => exact .serialized (hreq ▸ h) (hreq ▸ h')
    · rw [insertConflict_congr tx' resolution n heq]
      simp only [insertConflict, hreq, hnow, hid]

/-- **A step records what it has found.** -/
lemma Rule.found (h : Rule env p sh pr a sh' pr') (hheld : Held env p sh pr) (hf : Found sh pr) :
    Found sh' pr' := by
  cases h with
  | land | lose => exact hf.mono fun i hi => ⟨i, hi, rfl⟩
  | @window tx tx' verdict rows hrows hverdict =>
    have hheld : Undecided env p sh tx := hheld
    have hself : ∀ i ∈ conflictingIntents tx.req rows,
        ∃ j ∈ sh.db.intents, j.inserted = i.inserted ∧ Conflicts tx j := fun i hi =>
      ⟨i, (conflicts_of_mem hrows hi).1, rfl, (conflicts_of_mem hrows hi).2⟩
    have hresolves := resolves env tx sh.nextID rows
    rw [hverdict] at hresolves
    cases hresolves with
    | free =>
      refine ⟨?_, fun c hc => ?_⟩
      · rw [hheld.conflicts]
        exact Nat.zero_le _
      · rw [hheld.conflicts] at hc
        cases hc
    | shadow hshadow =>
      exact noted_recordConflicts rfl rfl rfl rfl fun i hi => ⟨.observed hshadow, hself i hi⟩
    | @reject primary rest henforce _ =>
      exact noted_recordConflicts rfl rfl rfl (by simp [Idemio.reject]) fun i hi =>
        ⟨.rejected henforce, hself i hi⟩
  | @check tx same rows hrows hverdict =>
    obtain ⟨hsame, hagent⟩ := resolveConflicts_check hverdict
    refine ⟨enforce_of_check hverdict, fun i hi => ⟨hagent i hi, i, ?_⟩⟩
    obtain ⟨hmem, hc⟩ := conflicts_of_mem hrows (hsame ▸ hi)
    exact ⟨hmem, rfl, hc⟩
  | @statuses tx same rows hrows hpending =>
    obtain ⟨henforce, hall⟩ := hf
    exact noted_recordConflicts rfl rfl rfl rfl fun i hi =>
      ⟨.serialized henforce (hall i hi).1, (hall i hi).2⟩
  | _ => trivial

/-- A step keeps the intents. -/
lemma keeps_of_step (hstep : step env s (p, a) = some s') : Keeps s.shared s'.shared :=
  fun _ hi => (Rule.of_step hstep).inserted hi

/-- **What claims record is what they have found**, in every reachable state: those that are about
to commit and those that have committed. -/
theorem noted_of_reaches (h : Reaches env ok s) :
    (∀ p, Found s.shared (s.procs p)) ∧ ∀ c ∈ s.shared.claims, Noted s.shared c.tx c.verdict := by
  refine h.invariant (I := fun s => (∀ p, Found s.shared (s.procs p)) ∧
    ∀ c ∈ s.shared.claims, Noted s.shared c.tx c.verdict) ?_ ?_
  · exact ⟨fun _ => trivial, fun c hc => (by cases hc)⟩
  rintro s ⟨p, a⟩ s' hs ⟨hfound, hnoted⟩ - hstep
  have hkeeps := keeps_of_step hstep
  refine ⟨fun q => ?_, fun c hc => ?_⟩
  · by_cases hq : q = p
    · subst hq
      exact (Rule.of_step hstep).found ((held_of_reaches hs).2 q) (hfound q)
    · rw [Interleave.step_procs_of_ne hstep hq]
      exact (hfound q).mono hkeeps
  · rcases (Rule.of_step hstep).claims_cases with heq | ⟨-, tx, verdict, hp, hsh⟩
    · exact (hnoted c (heq ▸ hc)).mono hkeeps
    · rw [hsh] at hc
      rcases List.mem_append.mp hc with hc | hc
      · exact (hnoted c hc).mono hkeeps
      · obtain rfl := List.mem_singleton.mp hc
        have hcommit := hfound p
        rw [hp] at hcommit
        exact Noted.mono hcommit hkeeps

/-! ## The log -/

/-- The log is what the committed claims have recorded, in order. -/
lemma conflicts_eq_flatMap (h : Reaches env ok s) :
    s.shared.db.conflicts = s.shared.claims.flatMap (·.tx.conflicts) := by
  refine h.invariant (I := fun s =>
    s.shared.db.conflicts = s.shared.claims.flatMap (·.tx.conflicts)) rfl ?_
  rintro s ⟨p, a⟩ s' - ih - hstep
  rcases (Rule.of_step hstep).db_cases with ⟨hdb, hclaims⟩ | ⟨-, ⟨tx, verdict, -, hsh⟩ |
    ⟨c, caller, now, row, voided, -, -, hsh⟩ | ⟨now, gone, -, hsh⟩⟩
  · rw [hdb, hclaims, ih]
  · simp [hsh, ClaimTx.apply, ih]
  · rw [hsh]
    exact ih
  · rw [hsh]
    exact ih

/-- Lists that belong to different keys contribute to one key once. -/
lemma length_filter_flatMap_le {α β : Type} (f : α → Nat) (g : α → List β) (key : β → Nat)
    (n m : Nat) (l : List α) (hnodup : (l.map f).Nodup)
    (hkey : ∀ a ∈ l, ∀ b ∈ g a, key b = f a) (hlen : ∀ a ∈ l, (g a).length ≤ m) :
    ((l.flatMap g).filter (key · = n)).length ≤ m := by
  induction l with
  | nil => exact Nat.zero_le _
  | cons a l ih =>
    obtain ⟨hnot, hnodup⟩ := List.nodup_cons.mp hnodup
    have ih := ih hnodup (fun b hb => hkey b (List.mem_cons_of_mem _ hb))
      fun b hb => hlen b (List.mem_cons_of_mem _ hb)
    rw [List.flatMap_cons, List.filter_append, List.length_append]
    by_cases ha : f a = n
    · -- the others are of other keys
      have hrest : (l.flatMap g).filter (key · = n) = [] := by
        refine List.filter_eq_nil_iff.mpr fun b hb => ?_
        obtain ⟨a', ha', hb⟩ := List.mem_flatMap.mp hb
        have hne : f a' ≠ f a := fun heq => hnot (heq ▸ List.mem_map_of_mem ha')
        simpa [hkey a' (List.mem_cons_of_mem _ ha') b hb, ← ha] using hne
      rw [hrest]
      exact Nat.le_trans (List.length_filter_le _ _) (hlen a List.mem_cons_self)
    · have hnone : (g a).filter (key · = n) = [] := by
        refine List.filter_eq_nil_iff.mpr fun b hb => ?_
        simpa [hkey a List.mem_cons_self b hb] using ha
      rw [hnone]
      simpa using ih

/-- What a row of `conflicts` says is so: `i` is the intent of the claim `cl` that detected the
conflict and `j` the other one. -/
structure ConflictRow.Faithful (c : ConflictRow) (cl : Claimed) (i j : IntentRow) : Prop where
  intents : i.intentID = c.intentIDA ∧ j.intentID = c.intentIDB ∧ i.intentID ≠ j.intentID
  agents : i.agentID = c.agentIDA ∧ j.agentID = c.agentIDB
  resource : i.resourceType = c.resourceType ∧ i.resourceID = c.resourceID ∧
    j.resourceType = c.resourceType ∧ j.resourceID = c.resourceID
  incompatible : compatible i.declared j.declared = false
  reason : c.reason = Idemio.reason i.declared j.declared
  detected : c.detectedAt = i.emittedAt ∧ i.emittedAt - cl.tx.req.window < j.emittedAt
  version : c.manifestVersion = cl.tx.req.manifestVersion
  resolution : (c.resolution = .observed ↔ cl.tx.req.enforce = false) ∧
    (c.resolution = .rejected ↔ ∃ m, cl.verdict = .rejected m) ∧
    (c.resolution = .serialized → i.agentID = j.agentID)

/-- A row of a committed claim is faithful. -/
lemma Noted.faithful {cl : Claimed} {c : ConflictRow} (h : Noted sh cl.tx cl.verdict)
    (hc : c ∈ cl.tx.conflicts) (hi : i.inserted = cl.tx.intent.inserted)
    (hinserted : cl.tx.intent.inserted =
      insertIntent cl.tx.req cl.tx.now cl.tx.intent.intentID) :
    ∃ j ∈ sh.db.intents, c.Faithful cl i j := by
  obtain ⟨n, resolution, j, hj, hconflicts, hfits, rfl⟩ := h.rows c hc
  refine ⟨j, hj, ?_⟩
  have heq : i = { insertIntent cl.tx.req cl.tx.now cl.tx.intent.intentID with
      voidedAt := i.voidedAt } := IntentRow.eq_with_voidedAt (hi.trans hinserted)
  rw [heq]
  refine ⟨⟨rfl, rfl, hconflicts.apart.symm⟩, ⟨rfl, rfl⟩,
    ⟨rfl, rfl, hconflicts.resourceType, hconflicts.resourceID⟩, hconflicts.incompatible, rfl,
    ⟨rfl, hconflicts.window⟩, rfl, ?_⟩
  dsimp only [insertConflict]
  generalize hverdict : cl.verdict = verdict at hfits
  cases hfits with
  | observed hshadow => simp [hshadow]
  | rejected henforce => simp [henforce]
  | serialized henforce hagent =>
    refine ⟨by simp [henforce], by simp, fun _ => hagent.symm⟩

/-- **The log of conflicts is faithful**, as long as no partition is retired, which is no step of
this system: intents are kept for a shorter time than conflicts. In every state that it reaches, in
whatever environment: every row of `conflicts` is that of a committed claim, and describes the
intent of that claim and another one, both of which are there; they are on the resource of the row,
not compatible for the reason it gives, and the other one is in the window of the claim; the row
says `observed` exactly if the claim was in shadow mode and `rejected` exactly if it was rejected,
and what it calls `serialized` is between writes of one agent. No intent has detected more than ten
conflicts. -/
theorem conflict_log_faithful (h : Reaches env ok s) :
    (∀ c ∈ s.shared.db.conflicts, ∃ cl ∈ s.shared.claims, ∃ i ∈ s.shared.db.intents,
      ∃ j ∈ s.shared.db.intents, i.inserted = cl.tx.intent.inserted ∧ c.Faithful cl i j) ∧
    ∀ n, (s.shared.db.conflicts.filter (·.intentIDA = n)).length ≤ 10 := by
  have hnoted := (noted_of_reaches h).2
  have hids := (held_of_reaches h).1
  refine ⟨fun c hc => ?_, fun n => ?_⟩
  · rw [conflicts_eq_flatMap h] at hc
    obtain ⟨cl, hcl, hc⟩ := List.mem_flatMap.mp hc
    obtain ⟨i, hi, heq⟩ := hids.mem_of_claim hcl
    obtain ⟨j, hj, hfaithful⟩ := (hnoted cl hcl).faithful hc heq (inserted_of_claims h hcl)
    exact ⟨cl, hcl, i, hi, j, hj, heq, hfaithful⟩
  · rw [conflicts_eq_flatMap h]
    refine length_filter_flatMap_le (·.tx.intent.intentID) (·.tx.conflicts) (·.intentIDA) n 10 _
      ?_ ?_ fun cl hcl => (hnoted cl hcl).few
    · have hmap := congrArg (List.map IntentRow.intentID) hids.claims
      simp only [List.map_map] at hmap
      exact (show s.shared.db.intents.map (·.intentID) =
        s.shared.claims.map (·.tx.intent.intentID) from hmap) ▸ hids.nodup
    · intro cl hcl c hc
      obtain ⟨n, resolution, j, -, -, -, rfl⟩ := (hnoted cl hcl).rows c hc
      rfl

/-- Two agents replace one resource, and the second write is rejected. -/
theorem conflict_log_faithful_rejected : ∃ s, ∃ c ∈ s.shared.db.conflicts,
    Reaches Env.small NoRetention s ∧ c.resolution = .rejected ∧
    ∃ cl ∈ s.shared.claims, ∃ i ∈ s.shared.db.intents, ∃ j ∈ s.shared.db.intents,
      i.inserted = cl.tx.intent.inserted ∧ c.Faithful cl i j := by
  obtain ⟨s, hrun, hs⟩ := exists_run_of_exec (step Env.small) NoRetention init
    (insertSteps 0 (.small .replace true) (.small "a" keyA) 5 [] ++ [(0, .commit .ok)] ++
      insertSteps 1 (.small .replace true) (.small "b" keyB) 6 [.small 1 .replace "a" keyA 5] ++
      [(1, .commit .ok)])
    (fun s => s.shared.db.conflicts.any fun c => c.resolution = .rejected) (by decide +kernel)
  obtain ⟨c, hc, hres⟩ := List.any_eq_true.mp hs
  exact ⟨s, c, hc, ⟨_, hrun⟩, of_decide_eq_true hres, (conflict_log_faithful ⟨_, hrun⟩).1 c hc⟩

end Idemio
