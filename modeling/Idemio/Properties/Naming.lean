import Idemio.Properties.LiveIntents
import Idemio.System.Scan

set_option relaxedAutoImplicit false
set_option autoImplicit false

/-!
# The conflict that a rejection names

The body of a `409` gives two identifiers: that of the intent which the write conflicts with,
and that of the row of `conflicts` about the two. The first is taken from the conflicting
intents of other agents, the second is the identifier of the first row that was recorded, and
recorded are all conflicting intents, those of the same agent among them. The two belong
together exactly if the most recent conflicting intent is one of another agent.

That a row of `conflicts` can be told by its identifier rests on the counter the identifiers are
drawn from: from the moment a claim has numbered its conflicts until it commits, no other row
with one of these numbers appears.

## Main definitions

* `Idemio.NamesConflict` — the stored body names one real conflict.
* `Idemio.Avoids` — outside one process, no conflict has one of the identifiers of an interval.

## Main results

* `Idemio.avoids_of_run` — the identifiers that a claim has drawn stay its own.
* `Idemio.rejection_names_conflict_iff` — when the stored body names one real conflict.
-/

namespace Idemio

open Transition

variable {env : Env} {ok : Assumption} {p q : Pid} {sh sh' : Shared} {pr pr' : Proc} {a : Action}
  {s s' s₁ s₂ s₃ : State} {tx tx' : ClaimTx} {stored : RawMessage} {rows : List IntentRow}

/-! ## The identifiers of conflicts -/

/-- The conflicts that a process has recorded and not committed. -/
def Proc.conflicts : Proc → List ConflictRow
  | .handler (.window tx) => tx.conflicts
  | .handler (.statuses tx _) => tx.conflicts
  | .handler (.commit tx _) => tx.conflicts
  | _ => []

/-- How the conflicts of a process come about: it numbers them with identifiers that it draws,
and commits those that it has recorded. -/
structure Records (sh : Shared) (pr : Proc) (sh' : Shared) (pr' : Proc) : Prop where
  nextID : sh.nextID ≤ sh'.nextID
  own : ∀ c ∈ pr'.conflicts,
    c ∈ pr.conflicts ∨ sh.nextID ≤ c.conflictID ∧ c.conflictID < sh'.nextID
  committed : ∀ c ∈ sh'.db.conflicts, c ∈ sh.db.conflicts ∨ c ∈ pr.conflicts

/-- A verdict on the window leaves the conflicts as they were, or numbers new ones. -/
lemma conflictID_of_resolveConflicts {nextID : Nat} {verdict : Verdict}
    (h : resolveConflicts env tx nextID rows = .settled tx' verdict) {c : ConflictRow}
    (hc : c ∈ tx'.conflicts) :
    c ∈ tx.conflicts ∨ nextID ≤ c.conflictID ∧ c.conflictID < nextID + tx'.conflicts.length := by
  have hresolves := resolves env tx nextID rows
  rw [h] at hresolves
  cases hresolves with
  | free => exact .inl hc
  | shadow | reject => exact .inr (conflictID_of_mem_recordConflicts hc)

/-- **Every step records conflicts in this way.** -/
lemma Rule.records (h : Rule env p sh pr a sh' pr') : Records sh pr sh' pr' := by
  refine ⟨?_, ?_, ?_⟩
  · rcases h.ids_cases with ⟨hle, -⟩ | ⟨heq, -⟩ <;> omega
  · intro c hc
    cases h with
    | window _ hverdict => exact conflictID_of_resolveConflicts hverdict hc
    | statuses => exact .inr (conflictID_of_mem_recordConflicts hc)
    | land | lose | check => exact .inl hc
    | _ => cases hc
  · intro c hc
    rcases h.conflicts_cases hc with hold | ⟨tx, verdict, rfl, -, hnew⟩
    · exact .inl hold
    · exact .inr hnew

/-- The identifiers of all conflicts, committed or not, have been drawn. -/
structure Numbered (s : State) : Prop where
  committed : ∀ c ∈ s.shared.db.conflicts, c.conflictID < s.shared.nextID
  recorded : ∀ q, ∀ c ∈ (s.procs q).conflicts, c.conflictID < s.shared.nextID

/-- **In every reachable state the identifiers of the conflicts have been drawn.** -/
lemma numbered_of_reaches (h : Reaches env ok s) : Numbered s := by
  refine h.invariant (I := Numbered) ⟨?_, ?_⟩ ?_
  · exact fun _ hc => absurd hc List.not_mem_nil
  · exact fun _ _ hc => absurd hc List.not_mem_nil
  rintro s ⟨p, a⟩ s' - hs - hstep
  have hr := (Rule.of_step hstep).records
  refine ⟨fun c hc => ?_, fun q c hc => ?_⟩
  · rcases hr.committed c hc with hc | hc
    · exact Nat.lt_of_lt_of_le (hs.committed c hc) hr.nextID
    · exact Nat.lt_of_lt_of_le (hs.recorded p c hc) hr.nextID
  · by_cases hq : q = p
    · subst hq
      rcases hr.own c hc with hc | ⟨-, hlt⟩
      · exact Nat.lt_of_lt_of_le (hs.recorded q c hc) hr.nextID
      · exact hlt
    · rw [Interleave.step_procs_of_ne hstep hq] at hc
      exact Nat.lt_of_lt_of_le (hs.recorded q c hc) hr.nextID

/-- The identifiers from `lo` to below `hi` have been drawn, and no conflict has one of them but
those that `p` has recorded. -/
structure Avoids (p : Pid) (lo hi : Nat) (s : State) : Prop where
  drawn : hi ≤ s.shared.nextID
  committed : ∀ c ∈ s.shared.db.conflicts, c.conflictID < lo ∨ hi ≤ c.conflictID
  recorded : ∀ q, q ≠ p → ∀ c ∈ (s.procs q).conflicts, c.conflictID < lo ∨ hi ≤ c.conflictID

/-- Every step is one of another process than `p`. -/
def Others (p : Pid) : Assumption := fun _ ia => ia.1 ≠ p

/-- **What others do leaves the identifiers that `p` has drawn alone.** -/
lemma avoids_of_run {lo hi : Nat} (h : Reachable (step env) (Others p) s s')
    (hs : Avoids p lo hi s) : Avoids p lo hi s' := by
  refine h.invariant (I := Avoids p lo hi) hs ?_
  rintro s ⟨q, a⟩ s' - hs hq hstep
  have hr := (Rule.of_step hstep).records
  refine ⟨Nat.le_trans hs.drawn hr.nextID, fun c hc => ?_, fun r hrp c hc => ?_⟩
  · rcases hr.committed c hc with hc | hc
    · exact hs.committed c hc
    · exact hs.recorded q hq c hc
  · by_cases hrq : r = q
    · subst hrq
      rcases hr.own c hc with hc | ⟨hle, -⟩
      · exact hs.recorded r hq c hc
      · exact .inr (Nat.le_trans hs.drawn hle)
    · rw [Interleave.step_procs_of_ne hstep hrq] at hc
      exact hs.recorded r hrp c hc

/-- What others do leaves `p` where it stands. -/
lemma procs_of_others (h : Reachable (step env) (Others p) s s') : s'.procs p = s.procs p := by
  refine h.invariant (I := fun s' => s'.procs p = s.procs p) rfl ?_
  rintro t ⟨q, a⟩ u - ht hq hstep
  exact (Interleave.step_procs_of_ne hstep (Ne.symm hq)).trans ht

/-! ## The stored body -/

/-- A field of a stored object. -/
def Jsonb.field (name : String) : Jsonb → Option Json
  | .document _ => none
  | .object fields => fields.lookup name

/-- The intent is the most recent one of the window that conflicts with the request and is
another agent's. -/
structure MostRecentOther (req : Request) (rows : List IntentRow) (i : IntentRow) : Prop where
  conflicting : i ∈ conflictingIntents req rows
  agent : i.agentID ≠ req.agentID
  latest : ∀ j ∈ conflictingIntents req rows, j.agentID ≠ req.agentID → j.emittedAt ≤ i.emittedAt

/-- The conflict is the only row with its identifier. -/
def Identified (db : Database) (c : ConflictRow) : Prop :=
  c ∈ db.conflicts ∧ ∀ c' ∈ db.conflicts, c'.conflictID = c.conflictID → c' = c

/-- The stored body of a rejected claim gives the identifier of a conflict of the rejected intent
with an intent, the identifier of this intent, and this is the most recent conflicting one of
another agent in the window. -/
def NamesConflict (db : Database) (tx : ClaimTx) (rows : List IntentRow) : Prop :=
  ∃ row body c i, db.keys.lookup tx.req.keyID = some row ∧ row.result = some body ∧
    body.field "conflict_id" = some (.uuid c.conflictID) ∧
    body.field "conflicting_intent_id" = some (.uuid i.intentID) ∧
    Identified db c ∧ c.intentIDA = tx.intent.intentID ∧ c.intentIDB = i.intentID ∧
    MostRecentOther tx.req rows i

/-- The first conflicting row of another agent is the most recent one. -/
lemma mostRecentOther_of_head {req : Request} {primary : IntentRow} {rest : List IntentRow}
    (hrows : rows.Pairwise fun a b => b.emittedAt ≤ a.emittedAt)
    (h : (conflictingIntents req rows).filter (·.agentID ≠ req.agentID) = primary :: rest) :
    MostRecentOther req rows primary := by
  have hmem : primary ∈ (conflictingIntents req rows).filter (·.agentID ≠ req.agentID) :=
    h ▸ List.mem_cons_self
  have hsorted : (primary :: rest).Pairwise fun a b => b.emittedAt ≤ a.emittedAt := by
    rw [← h]
    exact hrows.sublist (List.filter_sublist.trans List.filter_sublist)
  rw [List.mem_filter] at hmem
  refine ⟨hmem.1, by simpa using hmem.2, fun j hj hagent => ?_⟩
  have hj : j ∈ primary :: rest := by
    rw [← h, List.mem_filter]
    exact ⟨hj, by simpa using hagent⟩
  rcases List.mem_cons.mp hj with rfl | hj
  · exact Int.le_refl _
  · exact List.rel_of_pairwise_cons hsorted hj

/-- The first recorded row is the one about the first candidate. -/
lemma recordConflicts_cons (tx : ClaimTx) (resolution : Resolution) (nextID : Nat)
    (i : IntentRow) (is : List IntentRow) :
    ∃ rest, recordConflicts tx resolution nextID (i :: is) =
        insertConflict tx resolution nextID i :: rest ∧
      ∀ c ∈ rest, nextID < c.conflictID := by
  refine ⟨_, rfl, fun c hc => ?_⟩
  obtain ⟨⟨j, n⟩, hmem, rfl⟩ := List.mem_map.mp hc
  have hn := List.le_snd_of_mem_zipIdx hmem
  simp only [insertConflict] at hn ⊢
  omega

/-! ## The claim -/

/-- A claim `tx₀` was rejected by the rows of its window in `s`, and became `tx`. -/
structure RejectedBy (s : State) (rows : List IntentRow) (tx₀ tx : ClaimTx)
    (primary : IntentRow) : Prop where
  window : SelectWindow s.shared.db tx₀.req tx₀.now tx₀.intent.intentID rows
  head : ((conflictingIntents tx₀.req rows).filter (·.agentID ≠ tx₀.req.agentID)).head? =
    some primary
  reject : tx = Idemio.reject tx₀ s.shared.nextID primary (conflictingIntents tx₀.req rows)

/-- What a claim that is rejected by its window has done: it has drawn the identifiers of its
conflicts, and nothing else is changed. -/
lemma rejectedBy_of_step (hwin : step env s (p, .window rows) = some s₁)
    (hrej : (s₁.procs p).rejection = some (tx, stored)) :
    (∃ tx₀ primary, RejectedBy s rows tx₀ tx primary) ∧ s₁.shared.db = s.shared.db ∧
      s₁.shared.nextID = s.shared.nextID + tx.conflicts.length := by
  obtain ⟨sh', pr', hrule, rfl⟩ := rule_of_step hwin
  have hpr : pr' = .handler (.commit tx (.rejected stored)) := by
    simpa using Proc.rejection_eq_some.mp hrej
  generalize s.procs p = pr at hrule
  subst hpr
  cases hrule with
  | @window tx₀ _ _ _ hrows hverdict =>
    obtain ⟨primary, rest, hothers, htx⟩ := resolveConflicts_rejected hverdict
    exact ⟨⟨tx₀, primary, hrows, by rw [hothers]; rfl, htx⟩, rfl, rfl⟩

section RejectedBy

variable {tx₀ : ClaimTx} {primary i₀ : IntentRow} {is : List IntentRow} {db : Database}

/-- The conflicts of a rejected claim begin with that of the most recent conflicting intent. -/
lemma RejectedBy.conflicts (h : RejectedBy s rows tx₀ tx primary)
    (hcons : conflictingIntents tx₀.req rows = i₀ :: is) :
    ∃ rest, tx.conflicts = insertConflict tx₀ .rejected s.shared.nextID i₀ :: rest ∧
      ∀ c ∈ rest, s.shared.nextID < c.conflictID := by
  have htx : tx.conflicts = recordConflicts tx₀ .rejected s.shared.nextID (i₀ :: is) := by
    rw [h.reject, hcons]
    rfl
  rw [htx]
  exact recordConflicts_cons tx₀ .rejected s.shared.nextID i₀ is

/-- The body of a rejected claim gives the identifier of its first conflict. -/
lemma RejectedBy.body (h : RejectedBy s rows tx₀ tx primary)
    (hcons : conflictingIntents tx₀.req rows = i₀ :: is) :
    tx.row.result = some (rejectionBody tx₀.req primary (.uuid s.shared.nextID)) := by
  rw [h.reject, hcons]
  rfl

/-- If no other row has one of the identifiers that a rejected claim has drawn, its first conflict
is the only row with its identifier when the claim has taken effect. -/
lemma RejectedBy.identified (h : RejectedBy s rows tx₀ tx primary)
    (hcons : conflictingIntents tx₀.req rows = i₀ :: is)
    (havoid : ∀ c ∈ db.conflicts, c.conflictID < s.shared.nextID ∨
      s.shared.nextID + tx.conflicts.length ≤ c.conflictID) :
    Identified (tx.apply db) (insertConflict tx₀ .rejected s.shared.nextID i₀) := by
  obtain ⟨rest, hconflicts, hrest⟩ := h.conflicts hcons
  have happly : (tx.apply db).conflicts =
      db.conflicts ++ insertConflict tx₀ .rejected s.shared.nextID i₀ :: rest := by
    rw [← hconflicts]
    rfl
  rw [hconflicts, List.length_cons] at havoid
  unfold Identified
  rw [happly]
  refine ⟨by simp, fun c hc heq => ?_⟩
  change c.conflictID = s.shared.nextID at heq
  rcases List.mem_append.mp hc with hc | hc
  · have := havoid c hc
    omega
  · rcases List.mem_cons.mp hc with rfl | hc
    · rfl
    · have := hrest c hc
      omega

lemma rejectionBody_conflict_id (req : Request) (primary : IntentRow) (id : Json) :
    (rejectionBody req primary id).field "conflict_id" = some id := rfl

lemma rejectionBody_conflicting_intent_id (req : Request) (primary : IntentRow) (id : Json) :
    (rejectionBody req primary id).field "conflicting_intent_id" =
      some (.uuid primary.intentID) := rfl

/-- When the claim has taken effect, its body names one real conflict exactly if the most recent
conflicting intent is another agent's.

**Proof sketch.** The body gives the identifier of the first conflict, which is with the most
recent conflicting intent `i₀`, and the identifier of `primary`, the most recent one of another
agent. Identifiers of intents are unique, so the two belong together if and only if `i₀` is
`primary`. -/
lemma RejectedBy.names_iff (h : RejectedBy s rows tx₀ tx primary) (hids : Ids s.shared)
    (havoid : ∀ c ∈ db.conflicts, c.conflictID < s.shared.nextID ∨
      s.shared.nextID + tx.conflicts.length ≤ c.conflictID) :
    NamesConflict (tx.apply db) tx rows ↔
      ∀ i, (conflictingIntents tx.req rows).head? = some i → i.agentID ≠ tx.req.agentID := by
  have hreq : tx.req = tx₀.req := by
    rw [h.reject]
    rfl
  have hintent : tx.intent.intentID = tx₀.intent.intentID := by
    rw [h.reject]
    simp [Idemio.reject]
  have hlookup : (tx.apply db).keys.lookup tx.req.keyID = some tx.row := AList.lookup_insert _
  obtain ⟨rest, hothers⟩ := List.head?_eq_some_iff.mp h.head
  have hrecent := mostRecentOther_of_head h.window.2 hothers
  obtain ⟨i₀, is, hcons⟩ := List.exists_cons_of_ne_nil (List.ne_nil_of_mem hrecent.conflicting)
  have hident := h.identified hcons havoid
  have hbody := h.body hcons
  rw [hreq, hcons]
  constructor
  · rintro ⟨row, body, c, i, hrow, hresult, hcid, -, ⟨hc, -⟩, -, hB, hother⟩ j hj
    cases hj
    rw [hlookup] at hrow
    cases hrow
    rw [hbody] at hresult
    cases hresult
    rw [rejectionBody_conflict_id, Option.some.injEq, Json.uuid.injEq] at hcid
    -- The row that the body names is the one about `i₀`.
    have hc := hident.2 c hc hcid.symm
    have hid : i₀.intentID = i.intentID := by rw [← hB, hc]; rfl
    have hi₀ : i₀ ∈ conflictingIntents tx₀.req rows := hcons ▸ List.mem_cons_self
    rw [hreq] at hother
    have heq : i₀ = i := List.inj_on_of_nodup_map hids.nodup
      ((mem_conflictingIntents h.window).mp hi₀).1
      ((mem_conflictingIntents h.window).mp hother.conflicting).1 hid
    exact heq ▸ hother.agent
  · intro hagent
    have hprimary : primary = i₀ := by
      rw [hcons, List.filter_cons_of_pos (by simpa using hagent i₀ rfl)] at hothers
      exact (List.cons.inj hothers).1.symm
    subst hprimary
    refine ⟨tx.row, _, _, primary, hlookup, hbody, rejectionBody_conflict_id .., ?_, hident, ?_⟩
    · exact rejectionBody_conflicting_intent_id ..
    · rw [hreq]
      exact ⟨hintent.symm, rfl, hrecent⟩

end RejectedBy

/-- A rejected claim that takes effect has added its rows. -/
lemma db_of_commit {o : CommitOutcome} (hcommit : step env s₂ (p, .commit o) = some s₃)
    (ho : o ≠ .refused) (hrej : s₂.procs p = .handler (.commit tx (.rejected stored))) :
    s₃.shared.db = tx.apply s₂.shared.db := by
  obtain ⟨sh', pr', hrule, rfl⟩ := rule_of_step hcommit
  rw [hrej] at hrule
  cases hrule with
  | rejected => rfl
  | claimUnseen => rfl
  | claimRefused => exact absurd rfl ho

/-- **When a rejection names one real conflict.** Let a claim read its window and be rejected,
let others act, and let the claim then take effect. Its stored body names one real conflict
exactly if the most recent conflicting intent of the window is another agent's. -/
theorem rejection_names_conflict_iff {o : CommitOutcome} (hs : Reaches env ok s)
    (hwin : step env s (p, .window rows) = some s₁)
    (hrej : (s₁.procs p).rejection = some (tx, stored))
    (hrun : Reachable (step env) (Others p) s₁ s₂)
    (hcommit : step env s₂ (p, .commit o) = some s₃) (ho : o ≠ .refused) :
    NamesConflict s₃.shared.db tx rows ↔
      ∀ i, (conflictingIntents tx.req rows).head? = some i → i.agentID ≠ tx.req.agentID := by
  obtain ⟨⟨tx₀, primary, hby⟩, hdb₁, hnext⟩ := rejectedBy_of_step hwin hrej
  have hnum := numbered_of_reaches hs
  have havoids : Avoids p s.shared.nextID (s.shared.nextID + tx.conflicts.length) s₁ := by
    refine ⟨Nat.le_of_eq hnext.symm, fun c hc => .inl (hnum.committed c (hdb₁ ▸ hc)),
      fun q hq c hc => .inl ?_⟩
    rw [Interleave.step_procs_of_ne hwin hq] at hc
    exact hnum.recorded q c hc
  have hpr : s₂.procs p = .handler (.commit tx (.rejected stored)) :=
    (procs_of_others hrun).trans (Proc.rejection_eq_some.mp hrej)
  rw [db_of_commit hcommit ho hpr]
  exact hby.names_iff (held_of_reaches hs).1 (avoids_of_run hrun havoids).committed

/-- A write is rejected for the write of another agent, and names it. -/
theorem rejection_names_other_agent : ∃ s s₁ s₃ tx stored, Reaches Env.small NoRetention s ∧
    step Env.small s (1, .window [.small 1 .replace "b" keyA 5]) = some s₁ ∧
    (s₁.procs 1).rejection = some (tx, stored) ∧
    step Env.small s₁ (1, .commit .ok) = some s₃ ∧
    NamesConflict s₃.shared.db tx [.small 1 .replace "b" keyA 5] := by
  obtain ⟨s, hrun, hs⟩ := exists_run_of_exec (step Env.small) NoRetention init
    (
      insertSteps 0 (.small .replace true) (.small "b" keyA) 5 [] ++ [(0, .commit .ok)] ++
      [(1, .start (.small .replace true) (.small "a" keyB)), (1, .begin 6), (1, .lock),
        (1, .insert), (1, .record)])
    (fun s => (step Env.small s (1, .window [.small 1 .replace "b" keyA 5])).any fun s₁ =>
      (s₁.procs 1).rejection.any fun r =>
        (step Env.small s₁ (1, .commit .ok)).isSome && r.1.req.agentID = "a" &&
          r.1.req.declared = ⟨.replace, []⟩)
    (by decide +kernel)
  obtain ⟨s₁, hwin, hs⟩ := (Option.any_eq_true _ _).mp hs
  obtain ⟨⟨tx, stored⟩, hrej, hs⟩ := (Option.any_eq_true _ _).mp hs
  simp only [Bool.and_eq_true, decide_eq_true_eq] at hs
  obtain ⟨⟨hcommit, hagent⟩, hdeclared⟩ := hs
  obtain ⟨s₃, hcommit⟩ := Option.isSome_iff_exists.mp hcommit
  refine ⟨s, s₁, s₃, tx, stored, ⟨_, hrun⟩, hwin, hrej, hcommit, ?_⟩
  refine (rejection_names_conflict_iff ⟨_, hrun⟩ hwin hrej (.refl s₁) hcommit (by decide)).mpr ?_
  rw [conflictingIntents, hdeclared, hagent]
  decide

/-- **A rejection that names two conflicts.** Agents `b` and `a` have written in shadow mode, in
this order, when another write of `a` is rejected. Its body gives the intent of `b`, and the
identifier of its conflict with the earlier write of `a` itself. -/
theorem rejection_names_own_write : ∃ s s₁ s₃ tx stored,
    Reaches Env.small NoRetention s ∧
    step Env.small s (2, .window [.small 3 .replace "a" keyA 6, .small 1 .replace "b" keyA 5]) =
      some s₁ ∧
    (s₁.procs 2).rejection = some (tx, stored) ∧
    step Env.small s₁ (2, .commit .ok) = some s₃ ∧
    ¬ NamesConflict s₃.shared.db tx
      [.small 3 .replace "a" keyA 6, .small 1 .replace "b" keyA 5] := by
  obtain ⟨s, hrun, hs⟩ := exists_run_of_exec (step Env.small) NoRetention init
    (
      insertSteps 0 (.small .replace false) (.small "b" keyA) 5 [] ++ [(0, .commit .ok)] ++
      insertSteps 1 (.small .replace false) (.small "a" keyA) 6 [.small 1 .replace "b" keyA 5] ++
      [(1, .commit .ok), (2, .start (.small .replace true) (.small "a" keyB)), (2, .begin 7),
        (2, .lock), (2, .insert), (2, .record)])
    (fun s => (step Env.small s
        (2, .window [.small 3 .replace "a" keyA 6, .small 1 .replace "b" keyA 5])).any fun s₁ =>
      (s₁.procs 2).rejection.any fun r => (step Env.small s₁ (2, .commit .ok)).any fun s₃ =>
        (s₃.shared.db.keys.lookup r.1.req.keyID).any fun row => row.result.any fun body =>
          body.field "conflict_id" = some (.uuid 7) &&
          body.field "conflicting_intent_id" = some (.uuid 1) &&
          s₃.shared.db.conflicts.all fun c => c.conflictID ≠ 7 || c.intentIDB = 3)
    (by decide +kernel)
  obtain ⟨s₁, hwin, hs⟩ := (Option.any_eq_true _ _).mp hs
  obtain ⟨⟨tx, stored⟩, hrej, hs⟩ := (Option.any_eq_true _ _).mp hs
  obtain ⟨s₃, hcommit, hs⟩ := (Option.any_eq_true _ _).mp hs
  obtain ⟨row, hrow, hs⟩ := (Option.any_eq_true _ _).mp hs
  obtain ⟨body, hbody, hs⟩ := (Option.any_eq_true _ _).mp hs
  simp only [Bool.and_eq_true, Bool.or_eq_true, decide_eq_true_eq, List.all_eq_true] at hs
  obtain ⟨⟨hcid, hiid⟩, hall⟩ := hs
  refine ⟨s, s₁, s₃, tx, stored, ⟨_, hrun⟩, hwin, hrej, hcommit, ?_⟩
  rintro ⟨row', body', c, i, hrow', hbody', hcid', hiid', ⟨hc, -⟩, -, hB, -⟩
  cases hrow.symm.trans hrow'
  cases hbody.symm.trans hbody'
  have hc7 : 7 = c.conflictID := by simpa using hcid.symm.trans hcid'
  have hi1 : 1 = i.intentID := by simpa using hiid.symm.trans hiid'
  rcases hall c hc with hne | h3
  · exact hne hc7.symm
  · omega

end Idemio
