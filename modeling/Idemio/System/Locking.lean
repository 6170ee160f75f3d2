import Idemio.Claim.Lifecycle
import Idemio.System.Rules

set_option relaxedAutoImplicit false
set_option autoImplicit false

/-!
# What an open transaction can rely on

While a transaction holds the row lock of a key, nobody else changes the key's row or its
intents; while it holds the lock of a resource, nobody else commits an intent on it. So what a
transaction has read under its locks is still true when it commits, and a commit does to the
tables what the statements of the transaction would have done at that moment, one after the
other and undisturbed.

## Main definitions

* `Idemio.Held` — what a process at some point of its code holds and knows.
* `Idemio.Ids` — the intents that were committed, and for whom.
* `Idemio.Guarantee` — what one process may do to the shared state.

## Main results

* `Idemio.Rule.held`, `Idemio.Rule.ids`, `Idemio.Rule.guarantee` — one step of a process keeps
  its own `Held`, keeps `Ids` and stays within the `Guarantee`.
* `Idemio.Held.stable` — the `Held` of a process survives the steps of the others.
* `Idemio.held_of_reaches` — in every state that the system reaches, `Ids` and every process's
  `Held` are true, whatever the environment does.
-/

namespace Idemio

/-! ## What a process knows -/

/-- A claim transaction of `p` holds its resource and its key, and the committed row of the key
is still the one from which its own was opened. -/
structure OpenClaim (env : Env) (p : Pid) (sh : Shared) (req : Request) (now : Time)
    (row₀ : KeyRow) : Prop where
  resource : sh.locks (lockKey env req) = some p
  key : sh.locks (.row req.keyID) = some p
  opens : Opens req now (sh.db.keys.lookup req.keyID) row₀

/-- The intent of a claim transaction was drawn for its process and is not committed yet. -/
structure OwnIntent (p : Pid) (sh : Shared) (tx : ClaimTx) : Prop where
  drawn : sh.drawn tx.intent.intentID = some p
  fresh : ∀ i ∈ sh.db.intents, i.intentID ≠ tx.intent.intentID

/-- A claim transaction that has inserted its intent and has no verdict yet. -/
structure Undecided (env : Env) (p : Pid) (sh : Shared) (tx : ClaimTx) : Prop where
  openClaim : OpenClaim env p sh tx.req tx.now tx.row
  own : OwnIntent p sh tx
  intent : tx.intent = insertIntent tx.req tx.now tx.intent.intentID
  conflicts : tx.conflicts = []

/-- A claim transaction that is ready to commit its verdict. -/
structure Decided (env : Env) (p : Pid) (sh : Shared) (tx : ClaimTx) (verdict : Verdict) : Prop
    where
  openClaim : ∃ row₀, OpenClaim env p sh tx.req tx.now row₀ ∧ Concludes env row₀ tx verdict
  own : OwnIntent p sh tx

/-- A `Complete` of `p` holds its key, and the committed row is still the pending one that it
updated to its own. -/
structure OpenComplete (p : Pid) (sh : Shared) (args : CompleteArgs) (now : Time)
    (row : KeyRow) : Prop where
  key : sh.locks (.row args.keyID) = some p
  updates : ∃ old, sh.db.keys.lookup args.keyID = some old ∧ completeKey args now old = some row

/-- What a handler holds. -/
def Handler.Held (env : Env) (p : Pid) (sh : Shared) : Handler → Prop
  | .insert req _ => sh.locks (lockKey env req) = some p
  | .read req _ => sh.locks (lockKey env req) = some p
  | .reclaim req _ _ => sh.locks (lockKey env req) = some p
  | .record req now row => OpenClaim env p sh req now row
  | .window tx => Undecided env p sh tx
  | .statuses tx _ => Undecided env p sh tx
  | .commit tx verdict => Decided env p sh tx verdict
  | _ => True

/-- What a `Complete` holds. -/
def CompletePhase.Held (p : Pid) (sh : Shared) (args : CompleteArgs) : CompletePhase → Prop
  | .begin => True
  | .update _ => True
  | .void now row => OpenComplete p sh args now row ∧ args.status = .failed
  | .commit now row voided =>
    OpenComplete p sh args now row ∧ Voids args (sh.db.intentsOf args.keyID) voided

/-- What a retention pass holds: the rows that it has deleted. -/
def Expire.Held (p : Pid) (sh : Shared) : Expire → Prop
  | .delete _ _ gone =>
    ∀ e ∈ gone, sh.locks (.row e.1) = some p ∧ sh.db.keys.lookup e.1 = some e.2
  | .objects _ => True

/-- What a process holds. -/
def Held (env : Env) (p : Pid) (sh : Shared) : Proc → Prop
  | .handler h => h.Held env p sh
  | .completing c _ => c.phase.Held p sh c.args
  | .expire x => x.Held p sh
  | _ => True

/-- The committed intents are those of the committed claims, in the same order, each drawn for
the process that committed it; identifiers still to be drawn are not in use. -/
structure Ids (sh : Shared) : Prop where
  nodup : (sh.db.intents.map (·.intentID)).Nodup
  fresh : ∀ n q, sh.drawn n = some q → n < sh.nextID
  claims : sh.db.intents.map (·.inserted) = sh.claims.map (·.tx.intent.inserted)
  drawn : ∀ c ∈ sh.claims, sh.drawn c.tx.intent.intentID = some c.pid

/-- What a step of `p` may do to the shared state: it leaves the locks, the identifiers and the
calls of others alone, changes a key only while holding it, and commits a live intent only
while holding its resource. -/
structure Guarantee (env : Env) (p : Pid) (sh sh' : Shared) : Prop where
  locks : ∀ l q, q ≠ p → sh.locks l = some q → sh'.locks l = some q
  drawn : ∀ n q, sh.drawn n = some q → sh'.drawn n = some q
  calls : ∀ q, q ≠ p → sh'.calls q = sh.calls q
  keys : ∀ k, sh.locks (.row k) ≠ some p → sh'.db.keys.lookup k = sh.db.keys.lookup k
  intentsOf : ∀ k, sh.locks (.row k) ≠ some p → sh'.db.intentsOf k = sh.db.intentsOf k
  intents : ∀ i ∈ sh'.db.intents,
    (∃ j ∈ sh.db.intents, j.intentID = i.intentID ∧ (i.live = true → j = i)) ∨
      (sh.drawn i.intentID = some p ∧
        sh.locks (resourceLock env i.resourceType i.resourceID) = some p)

variable {env : Env} {p q : Pid} {sh sh' : Shared} {pr pr' : Proc} {a : Action} {tx : ClaimTx}
  {k : KeyID} {db : Database}

/-- What `q` relies on when the shared state changes: its locks and its identifiers stay its
own, a key that it holds stays as it is, and nobody commits its intent. -/
structure Rely (q : Pid) (sh sh' : Shared) : Prop where
  locks : ∀ l, sh.locks l = some q → sh'.locks l = some q
  drawn : ∀ n, sh.drawn n = some q → sh'.drawn n = some q
  keys : ∀ k, sh.locks (.row k) = some q → sh'.db.keys.lookup k = sh.db.keys.lookup k ∧
    sh'.db.intentsOf k = sh.db.intentsOf k
  fresh : ∀ i ∈ sh'.db.intents, sh.drawn i.intentID = some q →
    ∃ j ∈ sh.db.intents, j.intentID = i.intentID

/-! ## Stability -/

section Stable

variable {req : Request} {now : Time} {row : KeyRow} {args : CompleteArgs}

/-- The guarantee of one process is what the others rely on. -/
lemma Guarantee.rely (G : Guarantee env p sh sh') (hq : q ≠ p) : Rely q sh sh' where
  locks l hl := G.locks l q hq hl
  drawn n hn := G.drawn n q hn
  keys k hk := by
    have hne : sh.locks (.row k) ≠ some p := fun hp => hq (Locks.holder_unique hk hp)
    exact ⟨G.keys k hne, G.intentsOf k hne⟩
  fresh i hi hdrawn := by
    rcases G.intents i hi with ⟨j, hj, hji, -⟩ | ⟨hp, -⟩
    · exact ⟨j, hj, hji⟩
    · exact absurd (Option.some.inj (hdrawn.symm.trans hp)) hq

/-- A change that touches neither the tables nor what was drawn and takes no lock away. -/
lemma Rely.of_frame (hlocks : ∀ l, sh.locks l = some q → sh'.locks l = some q)
    (hdb : sh'.db = sh.db) (hdrawn : ∀ n, sh.drawn n = some q → sh'.drawn n = some q) :
    Rely q sh sh' :=
  ⟨hlocks, hdrawn, fun _ _ => by rw [hdb]; exact ⟨rfl, rfl⟩, fun i hi _ => ⟨i, hdb ▸ hi, rfl⟩⟩

lemma OpenClaim.stable (h : OpenClaim env q sh req now row) (R : Rely q sh sh') :
    OpenClaim env q sh' req now row :=
  ⟨R.locks _ h.resource, R.locks _ h.key, (R.keys _ h.key).1 ▸ h.opens⟩

lemma OwnIntent.stable (h : OwnIntent q sh tx) (R : Rely q sh sh') : OwnIntent q sh' tx := by
  refine ⟨R.drawn _ h.drawn, fun i hi heq => ?_⟩
  obtain ⟨j, hj, hji⟩ := R.fresh i hi (heq ▸ h.drawn)
  exact h.fresh j hj (hji.trans heq)

lemma Undecided.stable (h : Undecided env q sh tx) (R : Rely q sh sh') :
    Undecided env q sh' tx :=
  ⟨h.openClaim.stable R, h.own.stable R, h.intent, h.conflicts⟩

lemma Decided.stable {verdict : Verdict} (h : Decided env q sh tx verdict) (R : Rely q sh sh') :
    Decided env q sh' tx verdict := by
  obtain ⟨row₀, hopen, hverdict⟩ := h.openClaim
  exact ⟨⟨row₀, hopen.stable R, hverdict⟩, h.own.stable R⟩

lemma OpenComplete.stable (h : OpenComplete q sh args now row) (R : Rely q sh sh') :
    OpenComplete q sh' args now row :=
  ⟨R.locks _ h.key, (R.keys _ h.key).1 ▸ h.updates⟩

lemma CompletePhase.Held.stable {phase : CompletePhase} (h : phase.Held q sh args)
    (R : Rely q sh sh') : phase.Held q sh' args := by
  cases phase with
  | begin | update => trivial
  | void => exact ⟨OpenComplete.stable h.1 R, h.2⟩
  | commit => exact ⟨OpenComplete.stable h.1 R, (R.keys _ h.1.key).2 ▸ h.2⟩

lemma Expire.Held.stable {x : Expire} (h : x.Held q sh) (R : Rely q sh sh') : x.Held q sh' := by
  cases x with
  | delete =>
    intro e he
    obtain ⟨hlock, hrow⟩ := h e he
    exact ⟨R.locks _ hlock, (R.keys _ hlock).1.trans hrow⟩
  | objects => trivial

/-- **What a process holds is stable** under what it relies on. -/
lemma Held.stable (h : Held env q sh pr) (R : Rely q sh sh') : Held env q sh' pr := by
  cases pr with
  | handler hd =>
    cases hd with
    | insert | read | reclaim => exact R.locks _ h
    | record => exact OpenClaim.stable h R
    | window | statuses => exact Undecided.stable h R
    | commit => exact Decided.stable h R
    | _ => trivial
  | completing c caller => exact CompletePhase.Held.stable h R
  | expire x => exact Expire.Held.stable h R
  | _ => trivial

end Stable

/-! ## Commits -/

/-- The intent of a claim, as it was inserted. -/
lemma Concludes.inserted {row₀ : KeyRow} {verdict : Verdict} (h : Concludes env row₀ tx verdict) :
    tx.intent.inserted = insertIntent tx.req tx.now tx.intent.intentID := by
  cases h with
  | claimed _ hintent => exact congrArg IntentRow.inserted hintent
  | rejected _ hintent => exact congrArg IntentRow.inserted hintent

/-- The intent of a claim belongs to the key and the resource of its request. -/
lemma Concludes.intent_fields {row₀ : KeyRow} {verdict : Verdict}
    (h : Concludes env row₀ tx verdict) :
    tx.intent.keyID = tx.req.keyID ∧ tx.intent.resourceType = tx.req.resourceType ∧
      tx.intent.resourceID = tx.req.resourceID := by
  have hins := h.inserted
  exact ⟨congrArg IntentRow.keyID hins, congrArg IntentRow.resourceType hins,
    congrArg IntentRow.resourceID hins⟩

/-- The intents of a key after a claim has committed. -/
lemma intentsOf_apply (tx : ClaimTx) (db : Database) (k : KeyID) :
    (tx.apply db).intentsOf k =
      db.intentsOf k ++ (if tx.intent.keyID = k then [tx.intent] else []) := by
  simp only [ClaimTx.apply, Database.intentsOf, List.filter_append, List.filter_cons,
    List.filter_nil]
  split <;> simp_all

/-- The intents of a key after a `Complete` has committed. -/
lemma intentsOf_completeApply (k : KeyID) (now : Time) (row : KeyRow)
    (voided : Option IntentRow) (db : Database) (k' : KeyID) :
    (completeApply k now row voided db).intentsOf k' = voidLatest now voided (db.intentsOf k') := by
  cases voided with
  | none => rfl
  | some i =>
    simp [completeApply, voidLatest, Database.intentsOf, List.filter_map, Function.comp_def]

/-- Intents that lack the voided one are not changed. -/
lemma voidLatest_eq_self {now : Time} {voided : Option IntentRow} {intents : List IntentRow}
    (h : ∀ v, voided = some v → ∀ i ∈ intents, i.intentID ≠ v.intentID) :
    voidLatest now voided intents = intents := by
  cases voided with
  | none => rfl
  | some v =>
    have hid : ∀ i ∈ intents, voidIntent now v.intentID v.emittedAt i = i := by
      intro i hi
      simp [voidIntent, h v rfl i hi]
    rw [voidLatest, List.map_congr_left hid, List.map_id']

/-- Two intents of different keys have different identifiers. -/
lemma Ids.intentID_ne (hids : Ids sh) {k k' : KeyID} (hk : k ≠ k') {i j : IntentRow}
    (hi : i ∈ sh.db.intentsOf k) (hj : j ∈ sh.db.intentsOf k') : i.intentID ≠ j.intentID := by
  obtain ⟨hi, hik⟩ := List.mem_filter.mp hi
  obtain ⟨hj, hjk⟩ := List.mem_filter.mp hj
  intro heq
  have : i = j := List.inj_on_of_nodup_map hids.nodup hi hj heq
  simp_all

/-- A `Complete` voids an intent of its own key. -/
lemma Voids.mem {args : CompleteArgs} {intents : List IntentRow} {voided : Option IntentRow}
    {v : IntentRow} (h : Voids args intents voided) (hv : voided = some v) : v ∈ intents := by
  unfold Voids at h
  split at h
  · subst hv
    exact h.1
  · simp [h] at hv

/-- A row that an `expireKeys` deletes is gone, the others stay. -/
lemma lookup_expireApply (gone : List (KeyID × KeyRow)) (db : Database) (k : KeyID) :
    (expireApply gone db).keys.lookup k =
      if k ∈ gone.map Prod.fst then none else db.keys.lookup k := by
  unfold expireApply
  dsimp only
  generalize db.keys = keys
  induction gone generalizing keys with
  | nil => simp
  | cons e gone ih =>
    rw [List.foldl_cons, ih]
    by_cases hk : k = e.1
    · subst hk
      simp
    · rw [AList.lookup_erase_ne hk]
      simp only [List.map_cons, List.mem_cons, hk, false_or]

/-! ## One step -/

/-- A step of `p` changes a key only while `p` holds it. -/
lemma Rule.keys_of_unlocked (h : Rule env p sh pr a sh' pr') (hheld : Held env p sh pr)
    (hids : Ids sh) (hk : sh.locks (.row k) ≠ some p) :
    sh'.db.keys.lookup k = sh.db.keys.lookup k ∧ sh'.db.intentsOf k = sh.db.intentsOf k := by
  rcases h.db_cases with ⟨hdb, -⟩ | ⟨-, ⟨tx, verdict, rfl, rfl⟩ |
    ⟨c, caller, now, row, voided, rfl, hphase, rfl⟩ | ⟨now, gone, rfl, rfl⟩⟩
  · rw [hdb]
    exact ⟨rfl, rfl⟩
  · obtain ⟨row₀, hopen, hverdict⟩ := Decided.openClaim hheld
    have hne : k ≠ tx.req.keyID := by
      rintro rfl
      exact hk hopen.key
    refine ⟨AList.lookup_insert_ne hne, ?_⟩
    rw [Shared.applyClaim_db, intentsOf_apply, hverdict.intent_fields.1, if_neg hne.symm,
      List.append_nil]
  · have hheld : c.phase.Held p sh c.args := hheld
    rw [hphase] at hheld
    have hne : k ≠ c.args.keyID := by
      rintro rfl
      exact hk hheld.1.key
    refine ⟨AList.lookup_insert_ne hne, ?_⟩
    rw [Shared.applyComplete_db, intentsOf_completeApply]
    exact voidLatest_eq_self fun v hv i hi => hids.intentID_ne hne hi (hheld.2.mem hv)
  · refine ⟨?_, rfl⟩
    rw [Shared.applyExpire_db, lookup_expireApply, if_neg]
    intro hmem
    obtain ⟨e, he, rfl⟩ := List.mem_map.mp hmem
    exact hk (hheld e he).1

/-- A step of `p` commits a live intent only while `p` holds its resource. -/
lemma Rule.intents_of_mem (h : Rule env p sh pr a sh' pr') (hheld : Held env p sh pr)
    {i : IntentRow} (hi : i ∈ sh'.db.intents) :
    (∃ j ∈ sh.db.intents, j.intentID = i.intentID ∧ (i.live = true → j = i)) ∨
      (sh.drawn i.intentID = some p ∧
        sh.locks (resourceLock env i.resourceType i.resourceID) = some p) := by
  rcases h.db_cases with ⟨hdb, -⟩ | ⟨-, ⟨tx, verdict, rfl, rfl⟩ |
    ⟨c, caller, now, row, voided, rfl, hphase, rfl⟩ | ⟨now, gone, rfl, rfl⟩⟩
  · exact .inl ⟨i, hdb ▸ hi, rfl, fun _ => rfl⟩
  · obtain ⟨row₀, hopen, hverdict⟩ := Decided.openClaim hheld
    rcases List.mem_append.mp hi with hi | hi
    · exact .inl ⟨i, hi, rfl, fun _ => rfl⟩
    · obtain rfl := List.mem_singleton.mp hi
      obtain ⟨-, ht, hid⟩ := hverdict.intent_fields
      refine .inr ⟨(Decided.own hheld).drawn, ?_⟩
      rw [ht, hid]
      exact hopen.resource
  · obtain ⟨j, hj, hid, -, hlive⟩ := mem_of_mem_voidLatest hi
    exact .inl ⟨j, hj, hid, hlive⟩
  · exact .inl ⟨i, hi, rfl, fun _ => rfl⟩

/-- **A step of `p` stays within its guarantee.** -/
lemma Rule.guarantee (h : Rule env p sh pr a sh' pr') (hheld : Held env p sh pr)
    (hids : Ids sh) : Guarantee env p sh sh' where
  locks l q hq hl := by
    rcases h.locks_cases with heq | heq | ⟨l', hfree, heq⟩
    · rw [heq, hl]
    · rw [heq]
      exact Locks.release_keeps hq hl
    · rw [heq]
      exact Locks.acquire_keeps hfree hl
  drawn n q hn := by
    rcases h.ids_cases with ⟨-, heq⟩ | ⟨-, heq⟩
    · rw [heq, hn]
    · have hne : n ≠ sh.nextID := Nat.ne_of_lt (hids.fresh n q hn)
      rw [heq, Function.update_of_ne hne, hn]
  calls q hq := h.calls_of_ne hq
  keys k hk := (h.keys_of_unlocked hheld hids hk).1
  intentsOf k hk := (h.keys_of_unlocked hheld hids hk).2
  intents i hi := h.intents_of_mem hheld hi

/-- **A step keeps the identifiers in order.** -/
lemma Rule.ids (h : Rule env p sh pr a sh' pr') (hheld : Held env p sh pr) (hids : Ids sh) :
    Ids sh' := by
  have hfresh : ∀ n q, sh'.drawn n = some q → n < sh'.nextID := by
    intro n q hn
    rcases h.ids_cases with ⟨hle, heq⟩ | ⟨hnext, heq⟩
    · exact Nat.lt_of_lt_of_le (hids.fresh n q (heq ▸ hn)) hle
    · by_cases hne : n = sh.nextID
      · omega
      · rw [heq, Function.update_of_ne hne] at hn
        have := hids.fresh n q hn
        omega
  have hdrawn := (h.guarantee hheld hids).drawn
  rcases h.db_cases with ⟨hdb, hclaims⟩ | ⟨-, ⟨tx, verdict, rfl, rfl⟩ |
    ⟨c, caller, now, row, voided, rfl, hphase, rfl⟩ | ⟨now, gone, rfl, rfl⟩⟩
  · exact ⟨hdb ▸ hids.nodup, hfresh, by rw [hdb, hclaims, hids.claims],
      fun c hc => hdrawn _ _ (hids.drawn c (hclaims ▸ hc))⟩
  · obtain ⟨hown, hnew⟩ := Decided.own hheld
    refine ⟨?_, hfresh, ?_, ?_⟩
    · simp only [Shared.applyClaim_db, ClaimTx.apply, List.map_append, List.map_cons,
        List.map_nil]
      refine List.nodup_append.mpr ⟨hids.nodup, by simp, ?_⟩
      intro n hn m hm
      obtain ⟨i, hi, rfl⟩ := List.mem_map.mp hn
      rw [List.mem_singleton.mp hm]
      exact hnew i hi
    · simp [ClaimTx.apply, hids.claims]
    · intro c hc
      rcases List.mem_append.mp hc with hc | hc
      · exact hids.drawn c hc
      · obtain rfl := List.mem_singleton.mp hc
        exact hown
  · refine ⟨?_, hfresh, ?_, hids.drawn⟩
    · simpa [completeApply] using hids.nodup
    · simpa [completeApply] using hids.claims
  · exact ⟨hids.nodup, hfresh, hids.claims, hids.drawn⟩

/-- An intent that has been committed was drawn. -/
lemma Ids.drawn_of_mem (hids : Ids sh) {i : IntentRow} (hi : i ∈ sh.db.intents) :
    ∃ q, sh.drawn i.intentID = some q := by
  have hmem : i.inserted ∈ sh.claims.map (·.tx.intent.inserted) :=
    hids.claims ▸ List.mem_map_of_mem hi
  obtain ⟨c, hc, heq⟩ := List.mem_map.mp hmem
  exact ⟨c.pid, (IntentRow.eq_of_inserted heq).1 ▸ hids.drawn c hc⟩

lemma Ids.lt_nextID (hids : Ids sh) {i : IntentRow} (hi : i ∈ sh.db.intents) :
    i.intentID < sh.nextID := by
  obtain ⟨q, hq⟩ := hids.drawn_of_mem hi
  exact hids.fresh _ _ hq

/-- What a `Complete` holds after a step of its own. -/
lemma CompleteRule.held {c c' : Completion} (h : CompleteRule p sh c a sh' (some c'))
    (hheld : c.phase.Held p sh c.args) : c'.phase.Held p sh' c'.args := by
  cases h with
  | begin => trivial
  | update hc hold hrow hfree =>
    have hopen : OpenComplete p (sh.take p (.row c.args.keyID)) c.args _ _ :=
      ⟨Locks.acquire_self .., _, hold, hrow⟩
    dsimp only [afterUpdate]
    split
    · next hfailed => exact ⟨hopen, hfailed⟩
    · next hne => exact ⟨hopen, by simp [Voids, hne]⟩
  | void hc hfound =>
    rw [hc] at hheld
    exact ⟨hheld.1, by simp [Voids, hheld.2, hfound]⟩
  | refused _ hr | unseen _ hr | fail hr =>
    rw [Completion.retry_eq_some hr]
    trivial

/-- The claim transaction after `recordIntent`. -/
lemma OpenClaim.record {req : Request} {now : Time} {row : KeyRow}
    (h : OpenClaim env p sh req now row) (hids : Ids sh) :
    Undecided env p
      { sh with
        nextID := sh.nextID + 1
        drawn := Function.update sh.drawn sh.nextID (some p) }
      ⟨req, now, row, insertIntent req now sh.nextID, []⟩ :=
  ⟨⟨h.resource, h.key, h.opens⟩,
    ⟨by simp [insertIntent], fun _ hi => Nat.ne_of_lt (hids.lt_nextID hi)⟩, rfl, rfl⟩

/-- The claim transaction after its verdict. -/
lemma Undecided.decide {tx' : ClaimTx} {verdict : Verdict} (h : Undecided env p sh tx)
    (hreq : tx'.req = tx.req) (hnow : tx'.now = tx.now)
    (hid : tx'.intent.intentID = tx.intent.intentID)
    (hconcludes : Concludes env tx.row tx' verdict) : Decided env p sh tx' verdict := by
  refine ⟨⟨tx.row, ?_, hconcludes⟩, hid ▸ h.own.drawn, hid ▸ h.own.fresh⟩
  rw [hreq, hnow]
  exact h.openClaim

/-- **A step keeps what its process holds.** -/
lemma Rule.held (h : Rule env p sh pr a sh' pr') (hheld : Held env p sh pr) (hids : Ids sh) :
    Held env p sh' pr' := by
  cases h with
  | land | lose => exact hheld.stable (.of_frame (fun _ h => h) rfl fun _ h => h)
  | lock hfree => exact Locks.acquire_self ..
  | taken => exact hheld
  | readFailed => exact hheld
  | insert hrow hfree =>
    exact ⟨Locks.acquire_keeps (p := p) hfree hheld, Locks.acquire_self .., hrow ▸ .insert _⟩
  | reclaim hold hrow hfree =>
    exact ⟨Locks.acquire_keeps (p := p) hfree hheld, Locks.acquire_self ..,
      hold ▸ .reclaim hrow⟩
  | record => exact OpenClaim.record hheld hids
  | @window tx tx' verdict rows hrows hverdict =>
    have hheld : Undecided env p sh tx := hheld
    have hj := resolveConflicts_settled hheld.intent hheld.conflicts hverdict
    exact (hheld.decide hj.req hj.now hj.intentID hj.concludes).stable
      (.of_frame (fun _ h => h) rfl fun _ h => h)
  | check => exact hheld
  | @statuses tx same rows hrows hpending =>
    have hheld : Undecided env p sh tx := hheld
    have hdecided : Decided env p sh
        { tx with conflicts := recordConflicts tx .serialized sh.nextID same } (.claimed 0) :=
      hheld.decide rfl rfl rfl (.claimed rfl hheld.intent)
    exact hdecided.stable (.of_frame (fun _ h => h) rfl fun _ h => h)
  | complete hc => exact hc.held hheld
  | @delete now e todo gone row hrow htuple hfree =>
    intro e' he'
    rcases List.mem_append.mp he' with he' | he'
    · exact ⟨Locks.acquire_keeps (p := p) hfree (hheld e' he').1, (hheld e' he').2⟩
    · obtain rfl := List.mem_singleton.mp he'
      exact ⟨Locks.acquire_self .., hrow⟩
  | passOver => exact hheld
  | expire =>
    intro e he
    cases he
  | _ => trivial

/-! ## Every run -/

/-- Nothing is committed and nothing is held before the first step. -/
lemma ids_init : Ids Shared.init where
  nodup := List.nodup_nil
  fresh n q h := by cases h
  claims := rfl
  drawn c h := by cases h

/-- **In every state the system reaches, every process still holds what it knows**, whatever
the environment does.

**Proof sketch.** The rely-guarantee rule. A step keeps the `Held` of its own process
(`Rule.held`) and stays within its guarantee (`Rule.guarantee`), which is what the others rely
on (`Guarantee.rely`, `Held.stable`). -/
theorem held_of_reaches {ok : Assumption} {s : State} (h : Reaches env ok s) :
    Ids s.shared ∧ ∀ p, Held env p s.shared (s.procs p) := by
  refine Interleave.invariant (G := Guarantee env) (P := Held env) ids_init ?_ ?_ ?_ h
  · exact fun _ => trivial
  · intro s p a sh' pr' _ hids hheld _ hact
    have hrule := rule_of_act hact
    exact ⟨hrule.ids (hheld p) hids, hrule.held (hheld p) hids, hrule.guarantee (hheld p) hids⟩
  · intro p q sh sh' pr hpq _ _ G hheld
    exact hheld.stable (G.rely hpq.symm)

/-- A claim that is about to commit has been decided. -/
lemma decided_of_reaches {ok : Assumption} {s : State} (h : Reaches env ok s) {p : Pid}
    {tx : ClaimTx} {verdict : Verdict} (hp : s.procs p = .handler (.commit tx verdict)) :
    Decided env p s.shared tx verdict := by
  have hheld := (held_of_reaches h).2 p
  rwa [hp] at hheld

end Idemio
