import Idemio.Properties.Exclusion
import Idemio.System.Calls

set_option relaxedAutoImplicit false
set_option autoImplicit false

/-!
# Executions and attempts

Nothing reaches the downstream that is not on record. A call is made only for a claim that has
committed, and the commit leaves an intent with everything that is sent. So whatever fails, and
however probes answer, a key is never executed more often than it has intents; and as long as
its row is there, the intents are its attempts, one execution at most for each.

## Main definitions

* `Idemio.Backed` — a call rests on a committed claim.
* `Idemio.Shared.claimsOf` — the committed claims of a key.

## Main results

* `Idemio.backed_of_reaches` — every call rests on a committed claim.
* `Idemio.attempts_of_reaches` — without retention the claims of a key are its attempts, in order.
* `Idemio.executions_on_record` — every execution has an intent with what was sent.
* `Idemio.executions_numbered` — without retention every execution is that of an attempt, and no
  attempt is executed twice.
-/

namespace Idemio

open Transition

variable {env : Env} {p q : Pid} {sh sh' : Shared} {pr pr' : Proc} {a : Action} {s s' : State}
  {ok : Assumption} {own : Owned} {call : Call} {k : KeyID}

/-! ## Calls rest on claims -/

/-- A claim was committed for `own`, and its intent carries the request as it was inserted. -/
def Backed (sh : Shared) (own : Owned) : Prop :=
  ∃ c ∈ sh.claims, own = ⟨c.tx.req, c.tx.intent.intentID, c.tx.row.attemptCount⟩ ∧
    c.tx.intent.inserted = insertIntent c.tx.req c.tx.now c.tx.intent.intentID

/-- Committed claims stay committed. -/
lemma Rule.claims_subset (h : Rule env p sh pr a sh' pr') {c : Claimed} (hc : c ∈ sh.claims) :
    c ∈ sh'.claims := by
  rcases h.claims_cases with heq | ⟨-, tx, verdict, -, rfl⟩
  · rwa [heq]
  · exact List.mem_append_left _ hc

/-- What rests on a claim keeps resting on it. -/
lemma Backed.mono (h : Backed sh own) (hclaims : ∀ c ∈ sh.claims, c ∈ sh'.claims) :
    Backed sh' own := by
  obtain ⟨c, hc, hown⟩ := h
  exact ⟨c, hclaims c hc, hown⟩

/-- A claim that has just been won is committed. -/
lemma Wins.backed (h : Wins p s.shared (s.procs p) s'.shared own) (hs : Reaches env ok s) :
    Backed s'.shared own := by
  obtain ⟨tx, observed, hp, hsh, rfl⟩ := h
  obtain ⟨row₀, -, hverdict⟩ := (decided_of_reaches hs hp).openClaim
  refine ⟨⟨p, tx, .claimed observed⟩, ?_, rfl, hverdict.inserted⟩
  rw [hsh]
  exact List.mem_append_right _ List.mem_cons_self

/-- **In every reachable state** the claims that are owned and the calls that were made rest on
committed claims. -/
theorem backed_of_reaches (h : Reaches env ok s) :
    (∀ q own, (s.procs q).owned = some own → Backed s.shared own) ∧
      ∀ q call, s.shared.calls q = some call → Backed s.shared call.own := by
  refine h.invariant (I := fun s => (∀ q own, (s.procs q).owned = some own →
    Backed s.shared own) ∧ ∀ q call, s.shared.calls q = some call → Backed s.shared call.own) ?_ ?_
  · exact ⟨fun q own hown => (by cases hown), fun q call hcall => (by cases hcall)⟩
  · rintro s ⟨p, a⟩ s' hs ⟨howned, hcalls⟩ - hstep
    have hmono : ∀ c ∈ s.shared.claims, c ∈ s'.shared.claims :=
      fun c hc => (Rule.of_step hstep).claims_subset hc
    refine ⟨fun q own hown => ?_, fun q call hcall => ?_⟩
    · rcases owned_of_step hstep hown with hown | ⟨-, hwins⟩
      · exact (howned q own hown).mono hmono
      · exact hwins.backed hs
    · rcases call_of_step hs hstep hcall with ⟨c, hc, hown, -⟩ | ⟨-, -, hexec⟩
      · exact hown ▸ (hcalls q c hc).mono hmono
      · exact (howned q call.own (by rw [hexec]; rfl)).mono hmono

/-- Every execution rests on a committed claim. -/
lemma backed_of_ledger (h : Reaches env ok s) (hown : own ∈ s.shared.ledger) :
    Backed s.shared own := by
  obtain ⟨q, call, hcall, rfl, -⟩ := ((ledger_of_reaches h).landed own).mp hown
  exact (backed_of_reaches h).2 q call hcall

/-- **Every execution is on record**, until the partition of its intent is retired, which is no step
of this system. In every state that it reaches, in whatever environment: for everything that the
downstream has executed there is an intent, with the agent, the key, the resource, the operation
and the payload that were sent. And no key has been executed more often than it has intents. -/
theorem executions_on_record (h : Reaches env ok s) :
    (∀ own ∈ s.shared.ledger, ∃ i ∈ s.shared.db.intents, ∃ now,
      i.inserted = insertIntent own.req now own.intentID) ∧
    ∀ k, s.shared.executions k ≤ (s.shared.db.intentsOf k).length := by
  have hrecord : ∀ own ∈ s.shared.ledger, ∃ i ∈ s.shared.db.intents, ∃ now,
      i.inserted = insertIntent own.req now own.intentID := by
    intro own hown
    obtain ⟨c, hc, rfl, hinserted⟩ := backed_of_ledger h hown
    obtain ⟨i, hi, heq⟩ := (held_of_reaches h).1.mem_of_claim hc
    exact ⟨i, hi, c.tx.now, heq.trans hinserted⟩
  refine ⟨hrecord, fun k => ?_⟩
  -- the intents of the executions are different ones, and all are intents of the key
  set mine := s.shared.ledger.filter (·.req.keyID = k)
  have hnodup : (mine.map (·.intentID)).Nodup :=
    (ledger_of_reaches h).nodup.sublist (List.filter_sublist.map _)
  have hsubset : mine.map (·.intentID) ⊆ (s.shared.db.intentsOf k).map (·.intentID) := by
    intro n hn
    obtain ⟨own, hown, rfl⟩ := List.mem_map.mp hn
    obtain ⟨hmem, hk⟩ := List.mem_filter.mp hown
    obtain ⟨i, hi, now, heq⟩ := hrecord own hmem
    refine List.mem_map.mpr ⟨i, List.mem_filter.mpr ⟨hi, ?_⟩, congrArg IntentRow.intentID heq⟩
    have hkey : i.keyID = own.req.keyID := congrArg IntentRow.keyID heq
    simpa [hkey] using hk
  simpa [mine, Shared.executions] using (List.subperm_of_subset hnodup hsubset).length_le

/-- The row of a key is deleted while its call is under way; its execution is on record. -/
theorem executions_on_record_expired : ∃ s own, Reaches Env.small (fun _ _ => True) s ∧
    own ∈ s.shared.ledger ∧ s.shared.db.keys.lookup own.req.keyID = none ∧
    (∃ i ∈ s.shared.db.intents, ∃ now, i.inserted = insertIntent own.req now own.intentID) ∧
    s.shared.executions own.req.keyID ≤ (s.shared.db.intentsOf own.req.keyID).length := by
  obtain ⟨s, hrun, hs⟩ := exists_run_of_exec (step Env.small) (fun _ _ => True) init
    (insertSteps 0 (.small .append true) (.small "a" keyA) 5 [] ++
      [(0, .commit .ok), (0, .call), (1, .expire 200 [(⟨"a", keyA⟩, .small "a" 5 0)]),
        (1, .delete), (1, .commit .ok), (0, .land)])
    (fun s => s.shared.ledger.any fun own => (s.shared.db.keys.lookup own.req.keyID).isNone)
    (by decide +kernel)
  obtain ⟨own, hown, hnone⟩ := List.any_eq_true.mp hs
  obtain ⟨hrecord, hcount⟩ := executions_on_record ⟨_, hrun⟩
  exact ⟨s, own, ⟨_, hrun⟩, hown, Option.isNone_iff_eq_none.mp hnone, hrecord own hown, hcount _⟩

/-! ## Claims are attempts -/

/-- The committed claims of a key, in order. -/
def Shared.claimsOf (sh : Shared) (k : KeyID) : List Claimed :=
  sh.claims.filter (·.tx.req.keyID = k)

/-- Every committed claim has the intent of its request. -/
lemma inserted_of_claims (h : Reaches env ok s) {c : Claimed} (hc : c ∈ s.shared.claims) :
    c.tx.intent.inserted = insertIntent c.tx.req c.tx.now c.tx.intent.intentID := by
  refine h.invariant (I := fun s => ∀ c ∈ s.shared.claims,
    c.tx.intent.inserted = insertIntent c.tx.req c.tx.now c.tx.intent.intentID)
    (fun c hc => by cases hc) ?_ c hc
  rintro s ⟨p, a⟩ s' hs ih - hstep c hc
  rcases (Rule.of_step hstep).claims_cases with heq | ⟨-, tx, verdict, hp, hsh⟩
  · exact ih c (heq ▸ hc)
  · rw [hsh] at hc
    rcases List.mem_append.mp hc with hc | hc
    · exact ih c hc
    · obtain rfl := List.mem_singleton.mp hc
      obtain ⟨row₀, -, hverdict⟩ := (decided_of_reaches hs hp).openClaim
      exact hverdict.inserted

/-- The claims of a key have its intents, in the same order. -/
lemma intents_of_claimsOf (h : Reaches env ok s) (k : KeyID) :
    (s.shared.claimsOf k).map (·.tx.intent.inserted) =
      (s.shared.db.intentsOf k).map (·.inserted) := by
  have hkey : ∀ c ∈ s.shared.claims,
      decide (c.tx.req.keyID = k) = decide (c.tx.intent.inserted.keyID = k) := by
    intro c hc
    rw [inserted_of_claims h hc]
    rfl
  have hclaims := (held_of_reaches h).1.claims
  calc (s.shared.claimsOf k).map (·.tx.intent.inserted)
      = (s.shared.claims.map (·.tx.intent.inserted)).filter (·.keyID = k) := by
        rw [Shared.claimsOf, List.filter_congr hkey, List.filter_map]
        rfl
    _ = (s.shared.db.intents.map (·.inserted)).filter (·.keyID = k) := by rw [hclaims]
    _ = (s.shared.db.intentsOf k).map (·.inserted) := by
        rw [Database.intentsOf, List.filter_map]
        rfl

/-- A key has as many claims as intents. -/
lemma length_claimsOf (h : Reaches env ok s) (k : KeyID) :
    (s.shared.claimsOf k).length = (s.shared.db.intentsOf k).length := by
  simpa using congrArg List.length (intents_of_claimsOf h k)

/-- **Without retention the claims of a key are its attempts, in order.** -/
theorem attempts_of_reaches (h : Reaches env NoRetention s) (k : KeyID) :
    (s.shared.claimsOf k).map (·.tx.row.attemptCount) =
      List.range' 1 (s.shared.claimsOf k).length := by
  refine h.invariant (I := fun s => (s.shared.claimsOf k).map (·.tx.row.attemptCount) =
    List.range' 1 (s.shared.claimsOf k).length) rfl ?_
  rintro s ⟨p, a⟩ s' hs ih - hstep
  rcases (Rule.of_step hstep).claims_cases with heq | ⟨-, tx, verdict, hp, hsh⟩
  · simpa only [Shared.claimsOf, heq] using ih
  by_cases hk : tx.req.keyID = k
  swap
  · have hsame : s'.shared.claimsOf k = s.shared.claimsOf k := by
      simp [hsh, Shared.claimsOf, hk]
    rw [hsame, ih]
  subst hk
  -- one more claim, which counts one attempt more than the key has intents
  have hmore : s'.shared.claimsOf tx.req.keyID =
      s.shared.claimsOf tx.req.keyID ++ [⟨p, tx, verdict⟩] := by
    simp [hsh, Shared.claimsOf]
  obtain ⟨row₀, hopen, hverdict⟩ := (decided_of_reaches hs hp).openClaim
  have hcount : tx.row.attemptCount = 1 + (s.shared.claimsOf tx.req.keyID).length := by
    rw [length_claimsOf hs, hverdict.keeps.2.1, hopen.opens.attemptCount,
      (hopen.opens.sound (sound_of_reaches hs tx.req.keyID)).2]
    exact Nat.add_comm _ _
  rw [hmore, List.map_append, ih, List.length_append, List.length_singleton,
    List.range'_1_concat, List.map_cons, List.map_nil, hcount]

/-- An execution of a key is that of the attempt of its number. -/
lemma attempt_of_ledger (h : Reaches env NoRetention s) (hown : own ∈ s.shared.ledger)
    (hk : own.req.keyID = k) : 1 ≤ own.attempt ∧
      ∃ i, (s.shared.db.intentsOf k)[own.attempt - 1]? = some i ∧ i.intentID = own.intentID := by
  obtain ⟨c, hc, rfl, -⟩ := backed_of_ledger h hown
  have hmem : c ∈ s.shared.claimsOf k := List.mem_filter.mpr ⟨hc, by simpa using hk⟩
  obtain ⟨n, hn⟩ := List.mem_iff_getElem?.mp hmem
  have hlt : n < (s.shared.claimsOf k).length := (List.getElem?_eq_some_iff.mp hn).1
  have hattempt : c.tx.row.attemptCount = 1 + n := by
    have hnth := congrArg (·[n]?) (attempts_of_reaches h k)
    simpa [hn, List.getElem?_range' hlt] using hnth
  have hintent := congrArg (·[n]?) (intents_of_claimsOf h k)
  simp only [List.getElem?_map, hn, Option.map_some] at hintent
  obtain ⟨i, hi, heq⟩ := Option.map_eq_some_iff.mp hintent.symm
  refine ⟨hattempt ▸ Nat.le_add_right 1 n, i, ?_, (IntentRow.eq_of_inserted heq).1⟩
  rw [hattempt, Nat.add_sub_cancel_left]
  exact hi

/-- **Every execution is that of an attempt, and no attempt is executed twice**, in every state
that the system reaches without retention, whatever else the environment does: handlers may
crash, commits may fail or take effect unseen, several sweeps may run, and probes may say what
they like. The number of an execution's attempt is the place of its intent among those of the
key, so a key is executed at most `attempt_count` times. -/
theorem executions_numbered (h : Reaches env NoRetention s) {row : KeyRow}
    (hrow : s.shared.db.keys.lookup k = some row) :
    (∀ own ∈ s.shared.ledger, own.req.keyID = k → 1 ≤ own.attempt ∧
      own.attempt ≤ row.attemptCount ∧
      ∃ i, (s.shared.db.intentsOf k)[own.attempt - 1]? = some i ∧ i.intentID = own.intentID) ∧
    ((s.shared.ledger.filter (·.req.keyID = k)).map (·.attempt)).Nodup ∧
    s.shared.executions k ≤ row.attemptCount := by
  have hcount : row.attemptCount = (s.shared.db.intentsOf k).length :=
    (sound_of_reaches h k).count row hrow
  have hledger := ledger_of_reaches h
  have hnodup : ((s.shared.ledger.filter (·.req.keyID = k)).map (·.attempt)).Nodup := by
    refine List.Nodup.map_on ?_ (hledger.nodup.of_map.filter _)
    intro own hown own' hown' hattempt
    obtain ⟨hmem, hk⟩ := List.mem_filter.mp hown
    obtain ⟨hmem', hk'⟩ := List.mem_filter.mp hown'
    obtain ⟨-, i, hi, hid⟩ := attempt_of_ledger h hmem (by simpa using hk)
    obtain ⟨-, i', hi', hid'⟩ := attempt_of_ledger h hmem' (by simpa using hk')
    rw [hattempt] at hi
    obtain rfl := Option.some.inj (hi.symm.trans hi')
    exact List.inj_on_of_nodup_map hledger.nodup hmem hmem' (hid.symm.trans hid')
  have hbound : ∀ own ∈ s.shared.ledger, own.req.keyID = k → 1 ≤ own.attempt ∧
      own.attempt ≤ row.attemptCount ∧
      ∃ i, (s.shared.db.intentsOf k)[own.attempt - 1]? = some i ∧ i.intentID = own.intentID := by
    intro own hown hk
    obtain ⟨hpos, i, hi, hid⟩ := attempt_of_ledger h hown hk
    have hlt := (List.getElem?_eq_some_iff.mp hi).1
    exact ⟨hpos, by omega, i, hi, hid⟩
  refine ⟨hbound, hnodup, ?_⟩
  -- different numbers from `1` to the count
  have hsubset : (s.shared.ledger.filter (·.req.keyID = k)).map (·.attempt) ⊆
      List.range' 1 row.attemptCount := by
    intro n hn
    obtain ⟨own, hown, rfl⟩ := List.mem_map.mp hn
    obtain ⟨hmem, hk⟩ := List.mem_filter.mp hown
    obtain ⟨hpos, hle, -⟩ := hbound own hmem (by simpa using hk)
    exact List.mem_range'_1.mpr ⟨hpos, by omega⟩
  simpa [Shared.executions] using (List.subperm_of_subset hnodup hsubset).length_le

/-- The first call is reported as failed and lands all the same, so the second attempt executes
the write again; there are no more executions than attempts. -/
theorem executions_numbered_twice : ∃ s row, Reaches Env.small NoRetention s ∧
    s.shared.db.keys.lookup ⟨"a", keyA⟩ = some row ∧ s.shared.executions ⟨"a", keyA⟩ = 2 ∧
    s.shared.executions ⟨"a", keyA⟩ ≤ row.attemptCount := by
  obtain ⟨s, hrun, hs⟩ := exists_run_of_exec (step Env.small) NoRetention init
    (insertSteps 0 (.small .append true) (.small "a" keyA) 5 [] ++
      [(0, .commit .ok), (0, .call), (0, .ret ⟨.failed, [], ""⟩), (0, .place true),
        (0, .begin 6), (0, .update), (0, .void (some (.small 1 .append "a" keyA 5))),
        (0, .commit .ok), (0, .land)] ++
      reclaimSteps 1 (.small .append true) (.small "a" keyA) 8 [] ++
      [(1, .commit .ok), (1, .call), (1, .land)])
    (fun s => (s.shared.db.keys.lookup ⟨"a", keyA⟩).isSome &&
      s.shared.executions ⟨"a", keyA⟩ = 2) (by decide +kernel)
  simp only [Bool.and_eq_true, decide_eq_true_eq] at hs
  obtain ⟨row, hrow⟩ := Option.isSome_iff_exists.mp hs.1
  exact ⟨s, row, ⟨_, hrun⟩, hrow, hs.2, (executions_numbered ⟨_, hrun⟩ hrow).2.2⟩

end Idemio
