import Idemio.System.Locking

set_option relaxedAutoImplicit false
set_option autoImplicit false

/-!
# Transactions are atomic

A claim or a `Complete` takes many steps between which others act. For each key, though, only
its commit shows, and what the commit does to the key is what the transaction would have done
in one step: the system refines the life of a key of `Idemio.Claim.Lifecycle`.

## Main definitions

* `Idemio.Shared.key` — the rows of one key.
* `Idemio.KeyChange` — what a step does to one key, and which transaction does it.
* `Idemio.KeepsRow`, `Idemio.NoRetention` — the assumptions that no retention pass removes the row
  of a key, and that none runs.

## Main results

* `Idemio.Rule.keyChange` — every step does one of these to every key.
* `Idemio.step_refines` — **refinement**: through `Shared.key`, every step of the system is a
  step of the life of that key or none.
* `Idemio.key_reachable` — so every state that the system reaches is, for every key, a state
  that its life reaches.
* `Idemio.sound_of_keepsRow`, `Idemio.sound_of_reaches` — a key whose row is not removed is sound
  in every reachable state, and without retention so is every key.
-/

namespace Idemio

/-- The rows of one key. -/
def Shared.key (sh : Shared) (k : KeyID) : KeyState := ⟨sh.db.keys.lookup k, sh.db.intentsOf k⟩

/-- What a step of a process at `pr` does to the key `k`: nothing, or what the transaction that
it commits does. -/
inductive KeyChange (env : Env) (p : Pid) (sh : Shared) (pr : Proc) (a : Action) (k : KeyID)
    (sh' : Shared) : Prop
  | same (hkey : sh'.key k = sh.key k)
  | claim {tx : ClaimTx} {verdict : Verdict} {row₀ : KeyRow}
      (ha : a.commits = true) (hpr : pr = .handler (.commit tx verdict))
      (hsh : sh' = sh.applyClaim p tx verdict)
      (hk : tx.req.keyID = k) (hopen : Opens tx.req tx.now (sh.key k).row row₀)
      (hverdict : Concludes env row₀ tx verdict) (hown : OwnIntent p sh tx)
      (hkey : sh'.key k = ⟨some tx.row, (sh.key k).intents ++ [tx.intent]⟩)
  | complete {c : Completion} {caller : Caller} {now : Time} {old row : KeyRow}
      {voided : Option IntentRow} (ha : a.commits = true) (hpr : pr = .completing c caller)
      (hphase : c.phase = .commit now row voided) (hk : c.args.keyID = k)
      (hold : (sh.key k).row = some old) (hrow : completeKey c.args now old = some row)
      (hvoided : Voids c.args (sh.key k).intents voided)
      (hkey : sh'.key k = ⟨some row, voidLatest now voided (sh.key k).intents⟩)
  | expire {now : Time} {gone : List (KeyID × KeyRow)} {row : KeyRow}
      (ha : a.commits = true) (hpr : pr = .expire (.delete now [] gone)) (hmem : (k, row) ∈ gone)
      (hold : (sh.key k).row = some row) (hkey : sh'.key k = ⟨none, (sh.key k).intents⟩)

variable {env : Env} {p : Pid} {sh sh' : Shared} {pr pr' : Proc} {a : Action} {s s' : State}
  {ok : Assumption}

/-- The key of a claim after its commit. -/
lemma key_applyClaim {tx : ClaimTx} {verdict verdict' : Verdict} {row₀ : KeyRow}
    (hverdict : Concludes env row₀ tx verdict) :
    (sh.applyClaim p tx verdict').key tx.req.keyID =
      ⟨some tx.row, (sh.key tx.req.keyID).intents ++ [tx.intent]⟩ := by
  simp only [Shared.key, Shared.applyClaim_db, intentsOf_apply, hverdict.intent_fields.1, if_true]
  rw [ClaimTx.apply, AList.lookup_insert]

/-- A claim that is about to commit is of a key that has no row or has failed. -/
lemma Decided.not_counts {tx : ClaimTx} {verdict : Verdict} {row : KeyRow}
    (h : Decided env p sh tx verdict) (hrow : (sh.key tx.req.keyID).row = some row) :
    row.status.counts = false := by
  obtain ⟨row₀, hopen, -⟩ := h.openClaim
  exact hopen.opens.not_counts hrow

/-- **What a step does to a key.** -/
lemma Rule.keyChange (h : Rule env p sh pr a sh' pr') (hheld : Held env p sh pr) (hids : Ids sh)
    (k : KeyID) : KeyChange env p sh pr a k sh' := by
  -- a process changes only keys that it holds
  by_cases hlock : sh.locks (.row k) = some p
  swap
  · obtain ⟨hrow, hintents⟩ := h.keys_of_unlocked hheld hids hlock
    exact .same (by simp only [Shared.key, hrow, hintents])
  rcases h.db_cases with ⟨hdb, -⟩ | ⟨ha, ⟨tx, verdict, rfl, rfl⟩ |
    ⟨c, caller, now, row, voided, rfl, hphase, rfl⟩ | ⟨now, gone, rfl, rfl⟩⟩
  · exact .same (by simp only [Shared.key, hdb])
  · obtain ⟨row₀, hopen, hverdict⟩ := Decided.openClaim hheld
    by_cases hk : tx.req.keyID = k
    · subst hk
      exact .claim ha rfl rfl rfl hopen.opens hverdict (Decided.own hheld)
        (key_applyClaim hverdict)
    · refine .same ?_
      simp only [Shared.key, Shared.applyClaim_db, intentsOf_apply, hverdict.intent_fields.1,
        if_neg hk, List.append_nil]
      rw [ClaimTx.apply, AList.lookup_insert_ne (Ne.symm hk)]
  · have hheld : c.phase.Held p sh c.args := hheld
    rw [hphase] at hheld
    obtain ⟨⟨hkey, old, hold, hrow⟩, hvoided⟩ := hheld
    by_cases hk : c.args.keyID = k
    · subst hk
      refine .complete ha rfl hphase rfl hold hrow hvoided ?_
      simp only [Shared.key, Shared.applyComplete_db, intentsOf_completeApply]
      rw [completeApply, AList.lookup_insert]
    · refine .same ?_
      simp only [Shared.key, Shared.applyComplete_db, intentsOf_completeApply]
      rw [voidLatest_eq_self fun v hv i hi => hids.intentID_ne (Ne.symm hk) hi (hvoided.mem hv),
        completeApply, AList.lookup_insert_ne (Ne.symm hk)]
  · by_cases hk : k ∈ gone.map Prod.fst
    · obtain ⟨⟨_, row⟩, he, rfl⟩ := List.mem_map.mp hk
      refine .expire ha rfl he (hheld _ he).2 ?_
      simp only [Shared.key, Shared.applyExpire_db, lookup_expireApply, hk, if_true]
      rfl
    · refine .same ?_
      simp only [Shared.key, Shared.applyExpire_db, lookup_expireApply, hk, if_false]
      rfl

/-- A change of a key is a step of its life. -/
lemma KeyChange.keyStep {k : KeyID} (h : KeyChange env p sh pr a k sh') :
    sh'.key k = sh.key k ∨ KeyStep env (sh.key k) (sh'.key k) := by
  cases h with
  | same hkey => exact .inl hkey
  | claim _ hpr hsh hk hopen hverdict hown hkey =>
    rw [hkey]
    exact .inr (.claim hopen hverdict fun i hi => hown.fresh i (List.mem_filter.mp hi).1)
  | complete _ hpr hphase hk hold hrow hvoided hkey =>
    rw [hkey, KeyState.eq_mk hold]
    exact .inr (.complete hrow hvoided)
  | expire _ hpr hmem hold hkey =>
    rw [hkey, KeyState.eq_mk hold]
    exact .inr .expire

/-- A step of the system, taken apart: the rule that the acting process follows. -/
lemma rule_of_step (hstep : step env s (p, a) = some s') :
    ∃ sh' pr', Rule env p s.shared (s.procs p) a sh' pr' ∧
      s' = ⟨sh', Function.update s.procs p pr'⟩ := by
  obtain ⟨sh', pr', hact, rfl⟩ := Interleave.step_eq_some.mp hstep
  exact ⟨sh', pr', rule_of_act hact, rfl⟩

/-- The same, in terms of the state after the step. -/
lemma Rule.of_step (hstep : step env s (p, a) = some s') :
    Rule env p s.shared (s.procs p) a s'.shared (s'.procs p) := by
  obtain ⟨sh', pr', hrule, rfl⟩ := rule_of_step hstep
  simpa using hrule

/-- What a step of the system does to a key. -/
lemma keyChange_of_step (h : Reaches env ok s) (hstep : step env s (p, a) = some s') (k : KeyID) :
    KeyChange env p s.shared (s.procs p) a k s'.shared := by
  obtain ⟨sh', pr', hrule, rfl⟩ := rule_of_step hstep
  obtain ⟨hids, hheld⟩ := held_of_reaches h
  exact hrule.keyChange (hheld p) hids k

/-- **Refinement**: for every key, every step of the system is a step of its life or none. -/
theorem step_refines (h : Reaches env ok s) (hstep : step env s (p, a) = some s') (k : KeyID) :
    s'.shared.key k = s.shared.key k ∨ KeyStep env (s.shared.key k) (s'.shared.key k) :=
  (keyChange_of_step h hstep k).keyStep

/-- **Whole runs refine whole lives**: what a run has made of a key, its life alone can make of
it. -/
theorem key_reachable (h : Reaches env ok s) (k : KeyID) :
    Transition.Reachable (fun _ st' => some st') (KeyStep env) ⟨none, []⟩ (s.shared.key k) := by
  refine Transition.Reachable.map _ _ (fun s => s.shared.key k) h ?_
  rintro s ⟨p, a⟩ s' hs _ hstep
  rcases step_refines hs hstep k with heq | hkey
  · exact .inl heq
  · exact .inr ⟨_, hkey, rfl⟩

/-! ## Assumptions on the environment -/

/-- The action is a commit that takes effect although its caller sees an error. -/
def Action.isUnseen : Action → Bool
  | .commit .unseen => true
  | _ => false

/-- An error that a commit reports means that nothing was committed. -/
def ErrorsRollBack : Assumption := fun _ ia => ia.2.isUnseen = false

instance (s : State) (ia : Pid × Action) : Decidable (ErrorsRollBack s ia) :=
  inferInstanceAs (Decidable (_ = _))

/-! ## Retention -/

/-- The keys whose rows a retention pass has deleted and is to commit. -/
def Proc.deletes : Proc → List KeyID
  | .expire (.delete _ _ gone) => gone.map Prod.fst
  | _ => []

/-- The step does not remove the row of `k`. -/
def KeepsRow (k : KeyID) : Assumption := fun s ia =>
  ia.2.commits = true → k ∉ (s.procs ia.1).deletes

instance (k : KeyID) (s : State) (ia : Pid × Action) : Decidable (KeepsRow k s ia) :=
  inferInstanceAs (Decidable (_ → _))

/-- A change by a step that does not remove the row of the key leaves the key with a row. -/
lemma KeyChange.kept {k : KeyID} (h : KeyChange env p sh pr a k sh')
    (hkeeps : a.commits = true → k ∉ pr.deletes) :
    sh'.key k = sh.key k ∨ (sh'.key k).row ≠ none := by
  cases h with
  | same hkey => exact .inl hkey
  | claim _ _ _ _ _ _ _ hkey => exact .inr (by simp [hkey])
  | complete _ _ _ _ _ _ _ hkey => exact .inr (by simp [hkey])
  | expire ha hexpire hmem =>
    subst hexpire
    exact absurd (List.mem_map_of_mem hmem) (hkeeps ha)

/-- A row that is not removed, once there, stays. -/
lemma row_ne_none_of_step {k : KeyID} (h : Reaches env ok s) (hok : KeepsRow k s (p, a))
    (hstep : step env s (p, a) = some s') (hrow : (s.shared.key k).row ≠ none) :
    (s'.shared.key k).row ≠ none := by
  rcases (keyChange_of_step h hstep k).kept hok with heq | hne
  · rwa [heq]
  · exact hne

/-- **A key whose row is not removed is sound.** -/
theorem sound_of_keepsRow {k : KeyID} (h : Reaches env (KeepsRow k) s) :
    (s.shared.key k).Sound := by
  refine h.invariant (I := fun s => (s.shared.key k).Sound) KeyState.sound_absent ?_
  rintro s ⟨p, a⟩ s' hs ih hok hstep
  have hchange := keyChange_of_step hs hstep k
  rcases hchange.kept hok with heq | hkept
  · exact heq ▸ ih
  · rcases hchange.keyStep with heq | hkey
    · exact heq ▸ ih
    · exact hkey.sound hkept ih

/-! ## Without retention -/

/-- The action starts a retention pass. -/
def Action.isExpire : Action → Bool
  | .expire _ _ => true
  | _ => false

/-- No retention pass is started. -/
def NoRetention : Assumption := fun _ ia => ia.2.isExpire = false

instance (s : State) (ia : Pid × Action) : Decidable (NoRetention s ia) :=
  inferInstanceAs (Decidable (_ = _))

/-- The process is a retention pass. -/
def Proc.isExpire : Proc → Bool
  | .expire _ => true
  | _ => false

/-- Only the start of a retention pass makes a process one. -/
lemma Rule.isExpire (h : Rule env p sh pr a sh' pr') (ha : a.isExpire = false)
    (hpr : pr.isExpire = false) : pr'.isExpire = false := by
  cases h with
  | land | lose => exact hpr
  | expire => cases ha
  | passOver | delete | expired | deleteObjects => cases hpr
  | _ => rfl

/-- Without retention no process is a retention pass. -/
lemma not_isExpire (h : Reaches env NoRetention s) (p : Pid) : (s.procs p).isExpire = false := by
  refine h.invariant (I := fun s => ∀ p, (s.procs p).isExpire = false) (fun _ => rfl) ?_ p
  rintro s ⟨q, a⟩ s' - ih hok hstep p
  obtain ⟨sh', pr', hrule, rfl⟩ := rule_of_step hstep
  by_cases hp : p = q
  · subst hp
    simpa using hrule.isExpire hok (ih p)
  · simpa [Function.update_of_ne hp] using ih p

/-- Without retention no process deletes rows or objects. -/
lemma ne_expire (h : Reaches env NoRetention s) {p : Pid} {x : Expire} : s.procs p ≠ .expire x := by
  intro hp
  have hnot := not_isExpire h p
  rw [hp] at hnot
  cases hnot

/-- Without retention no step removes a row. -/
lemma keepsRow_of_reaches (h : Reaches env NoRetention s) (k : KeyID) (ia : Pid × Action) :
    KeepsRow k s ia := by
  intro _ hk
  have hne : ∀ x, s.procs ia.1 ≠ .expire x := fun x => ne_expire h
  generalize s.procs ia.1 = pr at hk hne
  unfold Proc.deletes at hk
  split at hk
  · exact hne _ rfl
  · cases hk

/-- A run without retention is one in which no row is removed. -/
lemma reaches_keepsRow (h : Reaches env NoRetention s) (k : KeyID) : Reaches env (KeepsRow k) s :=
  h.mono_of_reachable fun _ ia hs _ => keepsRow_of_reaches hs k ia

/-- **Without retention every key is sound.** -/
theorem sound_of_reaches (h : Reaches env NoRetention s) (k : KeyID) :
    (s.shared.key k).Sound :=
  sound_of_keepsRow (reaches_keepsRow h k)

end Idemio
