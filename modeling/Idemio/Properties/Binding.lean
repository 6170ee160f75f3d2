import Idemio.Properties.Finality
import Idemio.System.Calls

set_option relaxedAutoImplicit false
set_option autoImplicit false

/-!
# A key is bound to one body

The hash of a request is compared with the stored one only by a claim that has lost the insert;
a re-claim goes by the status of the row alone. What binds a key to its first body is that the
hash of a row never changes, and that a claim that goes on from a row has compared its hash with
it in the same transaction, or after it has seen a row that cannot have changed its hash since.

## Main definitions

* `Idemio.Request.Canonical` — a request carries the canonical hash of its own fields.
* `Idemio.Proc.request` — the request that a handler serves.
* `Idemio.Bound` — the claims that are owned, and the calls that were made, are for the request
  of the row of their key.
* `Idemio.Foreign` — where the handler of a request with another hash may stand.

## Main results

* `Idemio.bound_of_reaches` — `Bound` in every state that is reached without the removal of the row.
* `Idemio.bound_to_body` — all calls for a key carry requests with the stored hash, and a request
  with another hash changes no table and makes no call.
-/

namespace Idemio

open Transition

/-- The request carries the canonical hash of its own fields. -/
def Request.Canonical (env : Env) (req : Request) : Prop :=
  env.canonicalHash req.agentID req.operation req.payload req.resourceID req.resourceType =
    .ok req.requestHash

/-- The request that a handler serves, until it answers from what is stored. -/
def Proc.request : Proc → Option Request
  | .handler (.wait req _) => some req
  | .handler (.execute own) => some own.req
  | .handler (.calling own) => some own.req
  | .handler (.place own _) => some own.req
  | .handler h => h.claiming
  | .completing _ (.handler own _) => some own.req
  | _ => none

variable {env : Env} {p q : Pid} {sh sh' : Shared} {pr pr' : Proc} {a : Action} {s s' t : State}
  {k : KeyID} {row row₀ : KeyRow} {req : Request} {own : Owned} {call : Call} {hash : String}
  {ok : Assumption}

/-! ## Requests -/

/-- A handler serves one request, the one it was started with. -/
lemma Rule.request (h : Rule env p sh pr a sh' pr') (hheld : Held env p sh pr)
    (hreq : pr'.request = some req) :
    pr.request = some req ∨ ∃ snapshot http, admission env snapshot http = .ok req := by
  cases h with
  | start hadm => exact .inr ⟨_, _, Option.some.inj hreq ▸ hadm⟩
  | @window tx tx' verdict rows hrows hverdict =>
    have hheld : Undecided env p sh tx := hheld
    have hj := resolveConflicts_settled hheld.intent hheld.conflicts hverdict
    have hreq : some tx'.req = some req := hreq
    rw [hj.req] at hreq
    exact .inl hreq
  | @complete c c' caller _ _ hrule =>
    cases caller with
    | handler own outcome => exact .inl hreq
    | sweep todo => cases hreq
  | land | lose | begin | lock | insert | taken | readFailed | reclaim | record | check |
      serialize | statuses | claimed | waited | call | ret | place => exact .inl hreq
  | _ => cases hreq

/-- In every reachable state the requests that are served were admitted. -/
lemma admitted_of_reaches (h : Reaches env ok s) (p : Pid)
    (hreq : (s.procs p).request = some req) :
    ∃ snapshot http, admission env snapshot http = .ok req := by
  refine Interleave.invariant_procs (P := fun _ _ pr => ∀ req, pr.request = some req →
    ∃ snapshot http, admission env snapshot http = .ok req) ?_ ?_ ?_ h p req hreq
  · rintro _ _ ⟨⟩
  · intro s p a sh' pr' hs hadm _ hact req hreq
    rcases (rule_of_act hact).request ((held_of_reaches hs).2 p) hreq with hreq | hadm'
    · exact hadm p req hreq
    · exact hadm'
  · exact fun s p a sh' pr' q _ _ hadm _ _ => hadm q

/-- In every reachable state the requests that are served carry their canonical hash. -/
lemma canonical_of_reaches (h : Reaches env ok s) (p : Pid)
    (hreq : (s.procs p).request = some req) : req.Canonical env := by
  obtain ⟨_, _, hadm⟩ := admitted_of_reaches h p hreq
  exact admission_ok_hash hadm

/-! ## Calls -/

/-- The key of a claim has a row, and the row stores the hash of the claim's request. -/
def Stores (sh : Shared) (req : Request) : Prop :=
  ∃ row, sh.db.keys.lookup req.keyID = some row ∧ row.requestHash = req.requestHash

/-- The claims of `k` that are owned and the calls that were made for it are for the request of its
row. -/
structure Bound (env : Env) (k : KeyID) (s : State) : Prop where
  owned : ∀ q own, (s.procs q).owned = some own → own.req.keyID = k → Stores s.shared own.req
  calls : ∀ q call, s.shared.calls q = some call → call.own.req.keyID = k →
    Stores s.shared call.own.req ∧ call.own.req.Canonical env

/-- What a row stores stays stored, as long as it is not removed. -/
lemma Stores.step (h : Stores s.shared req) (hs : Reaches env ok s)
    (hok : KeepsRow req.keyID s (p, a)) (hstep : step env s (p, a) = some s') :
    Stores s'.shared req := by
  obtain ⟨row, hrow, hhash⟩ := h
  obtain ⟨row', hrow', hhash'⟩ := requestHash_of_step hs hok hstep hrow
  exact ⟨row', hrow', hhash'.trans hhash⟩

/-- A claim that is won stores the hash of its request. -/
lemma Wins.stores (h : Wins p s.shared (s.procs p) s'.shared own)
    (hs : Reaches env (KeepsRow own.req.keyID) s) : Stores s'.shared own.req := by
  obtain ⟨tx, observed, hp, hsh, rfl⟩ := h
  obtain ⟨row₀, -, hverdict⟩ := (decided_of_reaches hs hp).openClaim
  have hhash := hashed_of_reaches hs p
  rw [hp] at hhash
  have hkey : (s'.shared.key tx.req.keyID).row = some tx.row := by
    rw [hsh, key_applyClaim hverdict]
  exact ⟨tx.row, hkey, hhash rfl⟩

/-- **One step keeps a key bound.** -/
lemma Bound.step (h : Bound env k s) (hs : Reaches env (KeepsRow k) s)
    (hok : KeepsRow k s (p, a)) (hstep : step env s (p, a) = some s') : Bound env k s' := by
  refine ⟨fun q own hown hk => ?_, fun q call hcall hk => ?_⟩
  · subst hk
    rcases owned_of_step hstep hown with hown | ⟨-, hwins⟩
    · exact (h.owned q own hown rfl).step hs hok hstep
    · exact hwins.stores hs
  · subst hk
    rcases call_of_step hs hstep hcall with ⟨c, hc, hown, -⟩ | ⟨-, -, hexec⟩
    · obtain ⟨hstores, hcanon⟩ := h.calls q c hc (congrArg (·.req.keyID) hown.symm)
      rw [hown] at hok ⊢
      exact ⟨hstores.step hs hok hstep, hcanon⟩
    · have hown : (s.procs q).owned = some call.own := by rw [hexec]; rfl
      have hreq : (s.procs q).request = some call.own.req := by rw [hexec]; rfl
      exact ⟨(h.owned q _ hown rfl).step hs hok hstep, canonical_of_reaches hs q hreq⟩

/-- **In every reachable state a key whose row is not removed is bound.** -/
theorem bound_of_reaches (h : Reaches env (KeepsRow k) s) : Bound env k s := by
  refine h.invariant (I := Bound env k) ⟨?_, ?_⟩ ?_
  · rintro q own ⟨⟩
  · rintro q call ⟨⟩
  · rintro s ⟨p, a⟩ s' hs hI hok hstep
    exact hI.step hs hok hstep

/-! ## Requests with another hash -/

/-- Where the handler of a request for `k` may stand when the row of `k` stores another hash:
before its claim has read the row, or at the end. -/
def Foreign (k : KeyID) (hash : String) : Proc → Prop
  | .handler (.begin req) => req.keyID = k ∧ req.requestHash ≠ hash
  | .handler (.lock req _) => req.keyID = k ∧ req.requestHash ≠ hash
  | .handler (.insert req _) => req.keyID = k ∧ req.requestHash ≠ hash
  | .handler (.read req _) => req.keyID = k ∧ req.requestHash ≠ hash
  | .handler (.wait req _) => req.keyID = k ∧ req.requestHash ≠ hash
  | .handler (.respond _ _) => True
  | .stopped => True
  | _ => False

/-- A claim that has opened a row has the hash that is stored. -/
lemma OpenClaim.requestHash {now : Time} (h : OpenClaim env p sh req now row₀)
    (hrow : sh.db.keys.lookup req.keyID = some row) : row₀.requestHash = row.requestHash := by
  have hopens := h.opens
  rw [hrow] at hopens
  exact hopens.keeps.1

/-- **A handler whose request has another hash than the row of its key has not opened it.** -/
lemma foreign_of_reaches (h : Reaches env (KeepsRow req.keyID) s)
    (hreq : (s.procs p).request = some req) (hrow : s.shared.db.keys.lookup req.keyID = some row)
    (hne : req.requestHash ≠ row.requestHash) :
    Foreign req.keyID row.requestHash (s.procs p) ∧ s.shared.calls p = none := by
  have hhash := hashed_of_reaches h p
  have hheld := (held_of_reaches h).2 p
  have hphase := (callInv_of_reaches h p).phase
  have howned := (bound_of_reaches h).owned p
  generalize s.procs p = pr at hreq hhash hheld hphase howned
  -- a claim that is owned is for the request of its row
  have hno : ∀ own, pr.owned = some own → own.req ≠ req := by
    rintro own hown rfl
    obtain ⟨row', hrow', hstored⟩ := howned own hown rfl
    obtain rfl := Option.some.inj (hrow.symm.trans hrow')
    exact hne hstored.symm
  cases pr with
  | handler hd =>
    cases hd with
    | begin | lock | insert | read | wait =>
      obtain rfl := Option.some.inj hreq
      exact ⟨⟨rfl, hne⟩, hphase⟩
    | reclaim =>
      obtain rfl := Option.some.inj hreq
      obtain ⟨row', hrow', hstored⟩ := hhash rfl
      obtain rfl := Option.some.inj (hrow.symm.trans hrow')
      exact absurd hstored.symm hne
    | record =>
      obtain rfl := Option.some.inj hreq
      exact absurd ((hhash rfl).symm.trans (OpenClaim.requestHash hheld hrow)) hne
    | window | statuses =>
      obtain rfl := Option.some.inj hreq
      have hopen := (Undecided.openClaim hheld).requestHash hrow
      exact absurd ((hhash rfl).symm.trans hopen) hne
    | commit =>
      obtain rfl := Option.some.inj hreq
      obtain ⟨row₀, hopen, hverdict⟩ := Decided.openClaim hheld
      have hrow₀ := hverdict.keeps.1.trans (hopen.requestHash hrow)
      exact absurd ((hhash rfl).symm.trans hrow₀) hne
    | execute own | calling own | place own =>
      exact absurd (Option.some.inj hreq) (hno own rfl)
    | await | existing | respond => cases hreq
  | completing c caller =>
    cases caller with
    | handler own outcome => exact absurd (Option.some.inj hreq) (hno own rfl)
    | sweep todo => cases hreq
  | idle | sweep | expire | stopped => cases hreq

/-- **Such a handler changes no table, makes no call and stays where it may stand.** -/
lemma Rule.foreign (h : Rule env p sh pr a sh' pr') (hf : Foreign k hash pr)
    (hrow : sh.db.keys.lookup k = some row) (hhash : row.requestHash = hash)
    (hcall : sh.calls p = none) :
    sh'.db = sh.db ∧ sh'.calls p = none ∧ Foreign k hash pr' := by
  cases h with
  | land hc | lose hc =>
    rw [hcall] at hc
    cases hc
  | insert hnone =>
    obtain ⟨rfl, -⟩ := hf
    rw [hrow] at hnone
    cases hnone
  | readPending hrow' heq | readExisting hrow' heq | readFailed hrow' heq =>
    obtain ⟨rfl, hne⟩ := hf
    obtain rfl := Option.some.inj (hrow.symm.trans hrow')
    exact absurd (heq.symm.trans hhash) hne
  | begin | lock | taken | waited => exact ⟨rfl, hcall, hf⟩
  | crash | lockTimeout | readGone | mismatch | claimFail | waitExpired | finish =>
    exact ⟨rfl, hcall, trivial⟩
  | _ => exact hf.elim

/-- Such a handler stays so in every run. -/
lemma foreign_of_run {as : List (Pid × Action)} (h : Reaches env (KeepsRow req.keyID) s)
    (hreq : (s.procs p).request = some req) (hrow : s.shared.db.keys.lookup req.keyID = some row)
    (hne : req.requestHash ≠ row.requestHash)
    (hrun : Run (step env) (KeepsRow req.keyID) s as t) :
    Foreign req.keyID row.requestHash (t.procs p) ∧ t.shared.calls p = none := by
  have hall : Reaches env (KeepsRow req.keyID) t ∧
      (∃ row', t.shared.db.keys.lookup req.keyID = some row' ∧
        row'.requestHash = row.requestHash) ∧
      Foreign req.keyID row.requestHash (t.procs p) ∧ t.shared.calls p = none := by
    refine hrun.stable (I := fun t => Reaches env (KeepsRow req.keyID) t ∧
      (∃ row', t.shared.db.keys.lookup req.keyID = some row' ∧
        row'.requestHash = row.requestHash) ∧
      Foreign req.keyID row.requestHash (t.procs p) ∧ t.shared.calls p = none)
      ⟨h, ⟨row, hrow, rfl⟩, foreign_of_reaches h hreq hrow hne⟩ ?_
    rintro t ⟨q, a⟩ u ⟨ht, ⟨row', hrow', hhash⟩, hf, hcall⟩ hok hstep
    obtain ⟨row'', hrow'', hhash'⟩ := requestHash_of_step ht hok hstep hrow'
    refine ⟨ht.snoc hok hstep, ⟨row'', hrow'', hhash'.trans hhash⟩, ?_⟩
    have hrule := Rule.of_step hstep
    by_cases hp : p = q
    · subst hp
      obtain ⟨-, hcall', hf'⟩ := hrule.foreign hf hrow' hhash hcall
      exact ⟨hf', hcall'⟩
    · rw [Interleave.step_procs_of_ne hstep hp, hrule.calls_of_ne hp]
      exact ⟨hf, hcall⟩
  exact hall.2.2

/-- **A key is bound to one body.** In a run in which retention does not remove the row of a key,
from a state `s` on in which the row is there:

* every call that was or will be made for the key carries a request whose canonical hash is the
  one that the row stores in `s`;
* a handler that serves a request for the key with another hash never makes a call, and none of
  its steps changes a table.

A call for the key is made only when its row is there. -/
theorem bound_to_body (h : Reaches env (KeepsRow k) s) :
    (∀ q call, s.shared.calls q = some call → call.own.req.keyID = k →
      ∃ row, s.shared.db.keys.lookup k = some row) ∧
    ∀ row as t, s.shared.db.keys.lookup k = some row → Run (step env) (KeepsRow k) s as t →
      (∀ q call, t.shared.calls q = some call → call.own.req.keyID = k →
        env.canonicalHash call.own.req.agentID call.own.req.operation call.own.req.payload
          call.own.req.resourceID call.own.req.resourceType = .ok row.requestHash) ∧
      ∀ p req, (s.procs p).request = some req → req.keyID = k →
        req.requestHash ≠ row.requestHash → t.shared.calls p = none ∧
          ∀ a t', step env t (p, a) = some t' → t'.shared.db = t.shared.db := by
  refine ⟨fun q call hcall hk => ?_, fun row as t hrow hrun => ?_⟩
  · obtain ⟨row, hrow, -⟩ := ((bound_of_reaches h).calls q call hcall hk).1
    exact ⟨row, hk ▸ hrow⟩
  · have ht := h.trans ⟨as, hrun⟩
    obtain ⟨row', hrow', hhash'⟩ := requestHash_of_run h hrow hrun
    refine ⟨fun q call hcall hk => ?_, fun p req hreq hk hne => ?_⟩
    · obtain ⟨⟨stored, hstored, hhash⟩, hcanon⟩ := (bound_of_reaches ht).calls q call hcall hk
      rw [hk, hrow'] at hstored
      obtain rfl := Option.some.inj hstored
      rw [← hhash', hhash]
      exact hcanon
    · subst hk
      obtain ⟨hf, hcall⟩ := foreign_of_run h hreq hrow hne hrun
      refine ⟨hcall, fun a t' hstep => ?_⟩
      exact ((Rule.of_step hstep).foreign hf hrow' hhash' hcall).1

/-- Retention has removed the row of another key. A second request under the key of an open write,
for another operation, is refused. -/
theorem bound_to_body_mismatch : ∃ s t row req call,
    Reaches Env.small (KeepsRow ⟨"a", keyA⟩) s ∧ s.shared.db.keys.lookup ⟨"b", keyB⟩ = none ∧
    s.shared.db.keys.lookup ⟨"a", keyA⟩ = some row ∧ (s.procs 1).request = some req ∧
    req.requestHash ≠ row.requestHash ∧ Reaches Env.small (KeepsRow ⟨"a", keyA⟩) t ∧
    (t.procs 1).response = some (some ⟨"a", keyA⟩, writeProblem 422 keyA "request_hash_mismatch"
      "This key was previously used with a different request body.") ∧
    t.shared.calls 1 = none ∧ t.shared.calls 0 = some call ∧
    Env.small.canonicalHash call.own.req.agentID call.own.req.operation call.own.req.payload
      call.own.req.resourceID call.own.req.resourceType = .ok row.requestHash := by
  obtain ⟨s, hrun, hs⟩ := exists_run_of_exec (step Env.small) (KeepsRow ⟨"a", keyA⟩) init
    (
      insertSteps 2 (.small .replace true) (.small "b" keyB) 5 [] ++
      [(2, .commit .ok), (3, .expire 106 [(⟨"b", keyB⟩, .small "b" 5 0)]), (3, .delete),
        (3, .commit .ok)] ++
      insertSteps 0 (.small .replace false) (.small "a" keyA) 107
        [.small 1 .replace "b" keyB 5] ++
      [(0, .commit .ok), (0, .call), (1, .start (.small .replace true)
        ⟨"a", "agent", keyA, .request ⟨"a", "order", "7", "patch", [1]⟩⟩)])
    (fun s => (s.shared.db.keys.lookup ⟨"b", keyB⟩).isNone &&
      (s.shared.db.keys.lookup ⟨"a", keyA⟩).any fun row =>
      (s.procs 1).request.any fun req => req.keyID = ⟨"a", keyA⟩ &&
        req.requestHash ≠ row.requestHash &&
        (exec (step Env.small) (KeepsRow ⟨"a", keyA⟩) s [(1, .begin 108), (1, .lock), (1, .insert),
          (1, .read)]).any fun t =>
          (t.procs 1).response = some (some ⟨"a", keyA⟩, writeProblem 422 keyA
            "request_hash_mismatch"
            "This key was previously used with a different request body.") &&
          (t.shared.calls 0).any (·.own.req.keyID = ⟨"a", keyA⟩)) (by decide +kernel)
  simp only [Bool.and_eq_true, Option.isNone_iff_eq_none] at hs
  obtain ⟨hgone, hs⟩ := hs
  obtain ⟨row, hrow, hs⟩ := (Option.any_eq_true _ _).mp hs
  obtain ⟨req, hreq, hs⟩ := (Option.any_eq_true _ _).mp hs
  simp only [Bool.and_eq_true, decide_eq_true_eq] at hs
  obtain ⟨⟨hk, hne⟩, hs⟩ := hs
  obtain ⟨t, ht, hs⟩ := (Option.any_eq_true _ _).mp hs
  simp only [Bool.and_eq_true, decide_eq_true_eq] at hs
  obtain ⟨hresp, hs⟩ := hs
  obtain ⟨call, hcall, hcallk⟩ := (Option.any_eq_true _ _).mp hs
  obtain ⟨hcalls, hforeign⟩ := (bound_to_body ⟨_, hrun⟩).2 row _ t hrow (run_of_exec ht)
  exact ⟨s, t, row, req, call, ⟨_, hrun⟩, hgone, hrow, hreq, hne,
    Reachable.trans ⟨_, hrun⟩ ⟨_, run_of_exec ht⟩, hresp, (hforeign 1 req hreq hk hne).1, hcall,
    hcalls 0 call hcall (of_decide_eq_true hcallk)⟩

end Idemio
