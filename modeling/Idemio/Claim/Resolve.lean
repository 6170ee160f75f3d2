import Mathlib.Data.List.Dedup
import Idemio.Claim.Statements

set_option relaxedAutoImplicit false
set_option autoImplicit false

/-!
# The verdict on a claim

`internal/claim/resolve.go`, from the rows of the window on: which intents conflict with the
request, what is recorded about them and whether the write is claimed, rejected or has to wait
for an earlier write of the same agent. The functions here only compute on what a claim
transaction has read and on its own uncommitted rows.

## Main definitions

* `Idemio.ClaimTx` — a claim transaction that has claimed its key and inserted its intent.
* `Idemio.conflictingIntents`, `Idemio.recordConflicts`, `Idemio.reject`.
* `Idemio.resolveConflicts` — the verdict from the window.
* `Idemio.resolveStatuses` — the verdict when every conflict is with the same agent.

## Main results

* `Idemio.resolveConflicts_settled` — what a verdict on the window rests on, and what it makes
  of the transaction's own rows.
* `Idemio.resolveConflicts_check` — when the statuses are read, and of which keys.
-/

namespace Idemio

/-- A claim transaction's own uncommitted rows: the key row it inserted or re-claimed, its
intent, and the conflicts it recorded. -/
structure ClaimTx where
  req : Request
  now : Time
  row : KeyRow
  intent : IntentRow
  conflicts : List ConflictRow
  deriving DecidableEq, Repr

/-- The verdicts a claim transaction commits with. -/
inductive Verdict
  | claimed (observed : Nat)
  | rejected (stored : RawMessage)
  deriving DecidableEq, Repr

/-- `conflictingIntents`, after the query: the rows of the window that are not compatible with
the request. -/
def conflictingIntents (req : Request) (rows : List IntentRow) : List IntentRow :=
  rows.filter fun candidate => !compatible req.declared candidate.declared

/-- `maxRecordedConflicts`. -/
def maxRecordedConflicts : Nat := 10

/-- The row that `insertConflict` writes. -/
def insertConflict (tx : ClaimTx) (resolution : Resolution) (conflictID : Nat)
    (candidate : IntentRow) : ConflictRow where
  conflictID := conflictID
  intentIDA := tx.intent.intentID
  intentIDB := candidate.intentID
  agentIDA := tx.req.agentID
  agentIDB := candidate.agentID
  resourceType := tx.req.resourceType
  resourceID := tx.req.resourceID
  reason := reason tx.req.declared candidate.declared
  resolution := resolution
  manifestVersion := tx.req.manifestVersion
  detectedAt := tx.now

/-- `recordConflicts`: one row for each of the first ten candidates. -/
def recordConflicts (tx : ClaimTx) (resolution : Resolution) (nextID : Nat)
    (candidates : List IntentRow) : List ConflictRow :=
  (candidates.take maxRecordedConflicts).zipIdx.map fun (candidate, n) =>
    insertConflict tx resolution (nextID + n) candidate

/-- The rows of `recordConflicts` depend on the request, the time and the intent alone. -/
lemma recordConflicts_congr {tx tx' : ClaimTx} (hreq : tx'.req = tx.req) (hnow : tx'.now = tx.now)
    (hintent : tx'.intent.intentID = tx.intent.intentID) (resolution : Resolution) (nextID : Nat)
    (candidates : List IntentRow) :
    recordConflicts tx' resolution nextID candidates =
      recordConflicts tx resolution nextID candidates := by
  simp only [recordConflicts, insertConflict, hreq, hnow, hintent]

/-- `recordConflicts` stops after ten rows. -/
lemma length_recordConflicts (tx : ClaimTx) (resolution : Resolution) (nextID : Nat)
    (candidates : List IntentRow) :
    (recordConflicts tx resolution nextID candidates).length = min 10 candidates.length := by
  simp [recordConflicts, maxRecordedConflicts]

/-- Every row of `recordConflicts` is about one of the candidates. -/
lemma mem_recordConflicts {tx : ClaimTx} {resolution : Resolution} {nextID : Nat}
    {candidates : List IntentRow} {row : ConflictRow}
    (h : row ∈ recordConflicts tx resolution nextID candidates) :
    ∃ candidate ∈ candidates, ∃ n, row = insertConflict tx resolution n candidate := by
  obtain ⟨⟨candidate, n⟩, hmem, rfl⟩ := List.mem_map.mp h
  refine ⟨candidate, ?_, nextID + n, rfl⟩
  exact List.mem_of_mem_take (List.fst_mem_of_mem_zipIdx hmem)

/-- The rows of `recordConflicts` are numbered from `nextID` on. -/
lemma conflictID_of_mem_recordConflicts {tx : ClaimTx} {resolution : Resolution} {nextID : Nat}
    {candidates : List IntentRow} {row : ConflictRow}
    (h : row ∈ recordConflicts tx resolution nextID candidates) :
    nextID ≤ row.conflictID ∧
      row.conflictID < nextID + (recordConflicts tx resolution nextID candidates).length := by
  obtain ⟨⟨candidate, n⟩, hmem, rfl⟩ := List.mem_map.mp h
  have hn := List.snd_lt_of_mem_zipIdx hmem
  simp only [recordConflicts, insertConflict, List.length_map, List.length_zipIdx] at hn ⊢
  omega

/-- The `conflict_id` that `recordConflicts` returns, that of the first row. -/
def primaryConflict (rows : List ConflictRow) : Json :=
  match rows with
  | [] => .str ""
  | row :: _ => .uuid row.conflictID

/-- The detail of a rejection. -/
def rejectionDetail (req : Request) (primary : IntentRow) : String :=
  reason req.declared primary.declared ++ " on " ++ req.resourceType ++ ":" ++ req.resourceID

/-- The body of a rejection, the `409` that is stored and replayed. -/
def rejectionBody (req : Request) (primary : IntentRow) (conflictID : Json) : Jsonb :=
  .object
    [("idempotency_key", .str req.key),
     ("status", .str Status.rejected.text),
     ("reason", .str "conflicting_write"),
     ("detail", .str (rejectionDetail req primary)),
     ("conflicting_intent_id", .uuid primary.intentID),
     ("conflict_id", conflictID)]

/-- `reject`: the conflicts are recorded, the key row is rejected with the body and the
transaction's own intent is voided. -/
def reject (tx : ClaimTx) (nextID : Nat) (primary : IntentRow) (all : List IntentRow) :
    ClaimTx :=
  let rows := recordConflicts tx .rejected nextID all
  let body := rejectionBody tx.req primary (primaryConflict rows)
  { tx with
    row := rejectKey tx.now body (rejectionDetail tx.req primary) tx.row
    intent := voidIntent tx.now tx.intent.intentID tx.intent.emittedAt tx.intent
    conflicts := rows }

/-- The text that `rejectKey` returns, the stored body as Postgres prints it. -/
def storedBody (env : Env) (row : KeyRow) : RawMessage :=
  match row.result with
  | none => []
  | some body => env.jsonbText body

/-- What the window decides: a verdict to commit, or that the statuses of conflicting keys of
the same agent are to be read. -/
inductive Resolved
  | settled (tx : ClaimTx) (verdict : Verdict)
  | check (same : List IntentRow)
  deriving DecidableEq, Repr

/-- `resolveConflicts`, up to the query of `firstPending`. -/
def resolveConflicts (env : Env) (tx : ClaimTx) (nextID : Nat) (rows : List IntentRow) :
    Resolved :=
  let candidates := conflictingIntents tx.req rows
  if candidates.isEmpty then .settled tx (.claimed 0)
  else if !tx.req.enforce then
    -- shadow mode observes without altering behaviour
    .settled { tx with conflicts := recordConflicts tx .observed nextID candidates }
      (.claimed candidates.length)
  else
    match candidates.filter (·.agentID ≠ tx.req.agentID) with
    | primary :: _ =>
      let tx' := reject tx nextID primary candidates
      .settled tx' (.rejected (storedBody env tx'.row))
    | [] => .check (candidates.filter (·.agentID = tx.req.agentID))

/-- What a verdict makes of the transaction's own rows, from the key row it claimed and the
intent it inserted: nothing, or a rejected row and a voided intent. -/
inductive Concludes (env : Env) (row₀ : KeyRow) (tx : ClaimTx) : Verdict → Prop
  | claimed {observed : Nat} (hrow : tx.row = row₀)
      (hintent : tx.intent = insertIntent tx.req tx.now tx.intent.intentID) :
      Concludes env row₀ tx (.claimed observed)
  | rejected {body : Jsonb} {detail : String} (hrow : tx.row = rejectKey tx.now body detail row₀)
      (hintent : tx.intent =
        { insertIntent tx.req tx.now tx.intent.intentID with voidedAt := some tx.now }) :
      Concludes env row₀ tx (.rejected (env.jsonbText body))

section Verdict

variable {env : Env} {tx tx' : ClaimTx} {nextID : Nat} {rows same : List IntentRow}
  {verdict : Verdict}

/-- What the window decides, and why. -/
inductive Resolves (env : Env) (tx : ClaimTx) (nextID : Nat) (rows : List IntentRow) :
    Resolved → Prop
  | free (hnone : conflictingIntents tx.req rows = []) :
      Resolves env tx nextID rows (.settled tx (.claimed 0))
  | shadow (hshadow : tx.req.enforce = false) :
      Resolves env tx nextID rows (.settled
        { tx with
          conflicts := recordConflicts tx .observed nextID (conflictingIntents tx.req rows) }
        (.claimed (conflictingIntents tx.req rows).length))
  | reject {primary : IntentRow} {rest : List IntentRow} (henforce : tx.req.enforce = true)
      (hothers : (conflictingIntents tx.req rows).filter (·.agentID ≠ tx.req.agentID) =
        primary :: rest) :
      Resolves env tx nextID rows (.settled
        (Idemio.reject tx nextID primary (conflictingIntents tx.req rows))
        (.rejected (storedBody env
          (Idemio.reject tx nextID primary (conflictingIntents tx.req rows)).row)))
  | check (hnone : (conflictingIntents tx.req rows).filter (·.agentID ≠ tx.req.agentID) = []) :
      Resolves env tx nextID rows (.check
        ((conflictingIntents tx.req rows).filter (·.agentID = tx.req.agentID)))

/-- Every decision on the window is one of these. -/
lemma resolves (env : Env) (tx : ClaimTx) (nextID : Nat) (rows : List IntentRow) :
    Resolves env tx nextID rows (resolveConflicts env tx nextID rows) := by
  unfold resolveConflicts
  dsimp only
  split
  · next hempty => exact .free (List.isEmpty_iff.mp hempty)
  · split
    · next hshadow => exact .shadow (by simpa using hshadow)
    · next henforce =>
      split
      · next hothers => exact .reject (by simpa using henforce) hothers
      · next hnone => exact .check hnone

/-- What a claim is not: in conflict with a row of the window while conflicts are enforced. -/
def NoConflict (req : Request) (rows : List IntentRow) : Prop :=
  req.enforce = true → conflictingIntents req rows = []

/-- What a rejection is for: a conflicting row of another agent, while conflicts are enforced. -/
def Opposed (req : Request) (rows : List IntentRow) : Prop :=
  req.enforce = true ∧ ∃ i ∈ conflictingIntents req rows, i.agentID ≠ req.agentID

/-- A transaction `tx` was judged by the rows of the window and became `tx'`. -/
structure Judged (env : Env) (tx : ClaimTx) (rows : List IntentRow) (tx' : ClaimTx)
    (verdict : Verdict) : Prop where
  req : tx'.req = tx.req
  now : tx'.now = tx.now
  intentID : tx'.intent.intentID = tx.intent.intentID
  concludes : Concludes env tx.row tx' verdict
  claimed : ∀ n, verdict = .claimed n → NoConflict tx.req rows
  rejected : ∀ m, verdict = .rejected m → Opposed tx.req rows
  conflicts : ∀ c ∈ tx'.conflicts, c.resolution ≠ .serialized

/-- **A verdict on the window** claims without a conflict or rejects for one, and settles the
transaction's own rows accordingly. -/
lemma resolveConflicts_settled
    (hintent : tx.intent = insertIntent tx.req tx.now tx.intent.intentID)
    (hnil : tx.conflicts = []) (h : resolveConflicts env tx nextID rows = .settled tx' verdict) :
    Judged env tx rows tx' verdict := by
  have hresolves := resolves env tx nextID rows
  rw [h] at hresolves
  cases hresolves with
  | free hnone =>
    refine ⟨rfl, rfl, rfl, .claimed rfl hintent, fun _ _ _ => hnone, nofun, ?_⟩
    simp [hnil]
  | shadow hshadow =>
    refine ⟨rfl, rfl, rfl, .claimed rfl hintent, ?_, nofun, ?_⟩
    · intro _ _ henforce
      cases hshadow.symm.trans henforce
    · intro c hc
      obtain ⟨i, -, n, rfl⟩ := mem_recordConflicts hc
      simp [insertConflict]
  | @reject primary _ henforce hothers =>
    have hmem : primary ∈ (conflictingIntents tx.req rows).filter
        (·.agentID ≠ tx.req.agentID) := hothers ▸ List.mem_cons_self
    rw [List.mem_filter] at hmem
    refine ⟨rfl, rfl, by simp [reject], ?_, nofun, ?_, ?_⟩
    · refine Concludes.rejected rfl ?_
      simp only [reject, voidIntent]
      rw [if_pos ⟨trivial, trivial⟩]
      conv_lhs => rw [hintent]
    · exact fun _ _ => ⟨henforce, primary, hmem.1, by simpa using hmem.2⟩
    · intro c hc
      obtain ⟨i, -, n, rfl⟩ := mem_recordConflicts hc
      simp [insertConflict]

/-- **A rejection** is made out with the most recent conflicting row of another agent, and
records every conflicting row. -/
lemma resolveConflicts_rejected {stored : RawMessage}
    (h : resolveConflicts env tx nextID rows = .settled tx' (.rejected stored)) :
    ∃ primary rest, (conflictingIntents tx.req rows).filter (·.agentID ≠ tx.req.agentID) =
        primary :: rest ∧
      tx' = reject tx nextID primary (conflictingIntents tx.req rows) := by
  have hresolves := resolves env tx nextID rows
  rw [h] at hresolves
  cases hresolves with
  | reject _ hothers => exact ⟨_, _, hothers, rfl⟩

/-- **Without a conflict** the transaction is claimed as it is. -/
lemma resolveConflicts_nil (h : conflictingIntents tx.req rows = []) :
    resolveConflicts env tx nextID rows = .settled tx (.claimed 0) := by
  simp [resolveConflicts, h]

/-- **The statuses are read** when conflicts are enforced and every conflicting row is one of
the same agent. -/
lemma resolveConflicts_check (h : resolveConflicts env tx nextID rows = .check same) :
    same = conflictingIntents tx.req rows ∧ ∀ i ∈ same, i.agentID = tx.req.agentID := by
  have hresolves := resolves env tx nextID rows
  rw [h] at hresolves
  cases hresolves with
  | check hnone =>
    have hall : ∀ i ∈ conflictingIntents tx.req rows, i.agentID = tx.req.agentID := by
      intro i hi
      simpa using List.filter_eq_nil_iff.mp hnone i hi
    exact ⟨List.filter_eq_self.mpr (by simpa using hall), fun i hi =>
      hall i (List.mem_filter.mp hi).1⟩

lemma enforce_of_check (h : resolveConflicts env tx nextID rows = .check same) :
    tx.req.enforce = true := by
  by_contra hshadow
  rw [Bool.not_eq_true] at hshadow
  unfold resolveConflicts at h
  dsimp only at h
  split at h
  · cases h
  · simp [hshadow] at h

end Verdict

/-- `firstPending`, after the query: the first key that is still pending. -/
def firstPending (rows : List (String × Status)) : Option String :=
  (rows.find? fun r => !r.2.terminal).map Prod.fst

/-- The rest of `resolveConflicts` when every conflict is with the same agent: the key to wait
for, or the transaction to commit as claimed. -/
def resolveStatuses (tx : ClaimTx) (nextID : Nat) (same : List IntentRow)
    (rows : List (String × Status)) : String ⊕ ClaimTx :=
  match firstPending rows with
  | some blocking => .inl blocking
  | none => .inr { tx with conflicts := recordConflicts tx .serialized nextID same }

/-- If no key is pending by the statuses that were read, no key that was asked for is. -/
lemma status_ne_pending {keys : AList (fun _ : KeyID => KeyRow)} {agentID k : String}
    {ks : List String} {rows : List (String × Status)} {row : KeyRow}
    (hrows : SelectStatuses keys agentID ks rows) (hnone : firstPending rows = none)
    (hk : k ∈ ks) (hrow : keys.lookup ⟨agentID, k⟩ = some row) : row.status ≠ .pending := by
  have hmem : (k, row.status) ∈ rows := by
    refine hrows.mem_iff.mpr (List.mem_filterMap.mpr ⟨k, List.mem_dedup.mpr hk, ?_⟩)
    rw [hrow]
    rfl
  rw [firstPending, Option.map_eq_none_iff, List.find?_eq_none] at hnone
  have := hnone _ hmem
  simpa [Status.terminal] using this

end Idemio
