import Idemio.System.Atomic

set_option relaxedAutoImplicit false
set_option autoImplicit false

/-!
# What the window showed is still so at the commit

A claim reads the window while it holds the lock of its resource. Others may void intents until
it commits, but a live intent on the resource that was not there when the window was read is
not there when the claim commits either.

## Main definitions

* `Idemio.Rival` — a live intent in the window of a claim that is not compatible with it.
* `Idemio.Scanned` — what an enforced claim knows of its rivals after it has read the window.

## Main results

* `Idemio.Guarantee.rival` — while the resource is locked no rival appears.
* `Idemio.scanned_of_reaches` — `Scanned` holds in every reachable state.
-/

namespace Idemio

/-- A live intent in the window of a claim that is not compatible with it. -/
def Rival (tx : ClaimTx) (i : IntentRow) : Prop :=
  inWindow tx.req tx.now tx.intent.intentID i = true ∧
    compatible tx.req.declared i.declared = false

/-- After the window: every rival is among the rows whose statuses are to be read, and all of
these are of the same agent. Before an enforced claim commits: every rival is of the same
agent. -/
def Scanned (sh : Shared) : Proc → Prop
  | .handler (.statuses tx same) =>
    (∀ i ∈ same, i.agentID = tx.req.agentID) ∧ ∀ i ∈ sh.db.intents, Rival tx i → i ∈ same
  | .handler (.commit tx (.claimed _)) =>
    tx.req.enforce = true → ∀ i ∈ sh.db.intents, Rival tx i → i.agentID = tx.req.agentID
  | _ => True

variable {env : Env} {p q : Pid} {sh sh' : Shared} {pr pr' : Proc} {a : Action} {s : State}
  {ok : Assumption} {tx : ClaimTx} {i : IntentRow}

/-- The `WHERE` of `selectWindow`, clause by clause. -/
lemma inWindow_iff {req : Request} {now : Time} {exclude : Nat} :
    inWindow req now exclude i = true ↔
      i.resourceType = req.resourceType ∧ i.resourceID = req.resourceID ∧
        now - req.window < i.emittedAt ∧ i.live = true ∧ i.intentID ≠ exclude := by
  simp [inWindow, and_assoc]

/-- The rows of the window that conflict are the rivals. -/
lemma mem_conflictingIntents {rows : List IntentRow}
    (hrows : SelectWindow sh.db tx.req tx.now tx.intent.intentID rows) :
    i ∈ conflictingIntents tx.req rows ↔ i ∈ sh.db.intents ∧ Rival tx i := by
  simp only [conflictingIntents, List.mem_filter, hrows.1.mem_iff, Rival, and_assoc,
    Bool.not_eq_true']

/-- **While `q` holds its resource, no rival of its claim appears.** -/
lemma Guarantee.rival (G : Guarantee env p sh sh') (hq : q ≠ p)
    (hlock : sh.locks (lockKey env tx.req) = some q) (hi : i ∈ sh'.db.intents)
    (hrival : Rival tx i) : i ∈ sh.db.intents := by
  obtain ⟨ht, hid, -, hlive, -⟩ := inWindow_iff.mp hrival.1
  rcases G.intents i hi with ⟨j, hj, -, heq⟩ | ⟨-, hp⟩
  · exact heq hlive ▸ hj
  · rw [ht, hid] at hp
    exact absurd (Locks.holder_unique hlock hp) hq

/-- What a process knows of its rivals, the others leave so. -/
lemma Scanned.stable (h : Scanned sh pr) (hheld : Held env q sh pr) (G : Guarantee env p sh sh')
    (hq : q ≠ p) : Scanned sh' pr := by
  cases pr with
  | handler hd =>
    cases hd with
    | statuses tx same =>
      have hlock := (Undecided.openClaim hheld).resource
      exact ⟨h.1, fun i hi hr => h.2 i (G.rival hq hlock hi hr) hr⟩
    | commit tx verdict =>
      obtain ⟨row₀, hopen, -⟩ := Decided.openClaim hheld
      cases verdict with
      | claimed n => exact fun he i hi hr => h he i (G.rival hq hopen.resource hi hr) hr
      | rejected m => trivial
    | _ => trivial
  | _ => trivial

/-- Reading the window makes it known. -/
lemma Rule.scanned (h : Rule env p sh pr a sh' pr') (hheld : Held env p sh pr)
    (hscan : Scanned sh pr) : Scanned sh' pr' := by
  cases h with
  | land | lose => exact hscan
  | @window tx tx' verdict rows hrows hverdict =>
    have hheld : Undecided env p sh tx := hheld
    have hj := resolveConflicts_settled hheld.intent hheld.conflicts hverdict
    cases verdict with
    | claimed n =>
      intro henforce i hi hrival
      rw [hj.req] at henforce
      have hnone := hj.claimed n rfl henforce
      have hmem : i ∈ conflictingIntents tx.req rows := by
        refine (mem_conflictingIntents hrows).mpr ⟨hi, ?_⟩
        rwa [Rival, hj.req, hj.now, hj.intentID] at hrival
      rw [hnone] at hmem
      cases hmem
    | rejected m => trivial
  | @check tx same rows hrows hverdict =>
    obtain ⟨hsame, hagent⟩ := resolveConflicts_check hverdict
    refine ⟨hagent, fun i hi hrival => ?_⟩
    rw [hsame]
    exact (mem_conflictingIntents hrows).mpr ⟨hi, hrival⟩
  | statuses => exact fun _ i hi hrival => hscan.1 i (hscan.2 i hi hrival)
  | _ => trivial

/-- **In every state the system reaches**, what a claim read of its rivals under the lock of its
resource is still so. -/
theorem scanned_of_reaches (h : Reaches env ok s) (p : Pid) : Scanned s.shared (s.procs p) := by
  refine Interleave.invariant_procs (P := fun _ sh pr => Scanned sh pr) ?_ ?_ ?_ h p
  · exact fun _ => trivial
  · intro s p a sh' pr' hs hscan _ hact
    exact (rule_of_act hact).scanned ((held_of_reaches hs).2 p) (hscan p)
  · intro s p a sh' pr' q hq hs hscan _ hact
    obtain ⟨hids, hheld⟩ := held_of_reaches hs
    exact (hscan q).stable (hheld q) ((rule_of_act hact).guarantee (hheld p) hids) hq

end Idemio
