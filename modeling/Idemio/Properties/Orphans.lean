import Idemio.Properties.Replay

set_option relaxedAutoImplicit false
set_option autoImplicit false

/-!
# Objects and the keys that govern them

The result of a key may be in the object store, and whoever deletes the row of the key deletes
the object as well. The object is found through `result_ref` alone, though. A re-claim clears the
reference to the result of the failed attempt, a `Complete` that finds its key settled never
records the object which it has put, and a row can be deleted while a `Complete` is about to
record one. In each case the object outlives its key.

## Main definitions

* `Idemio.StoreWorks` — the object store takes every `Put` and `Delete`, and no retention pass
  crashes between its rows and its objects.
* `Idemio.Tidy` — steps that forget no object.
* `Idemio.Kept` — who answers for an object: a row, a `Complete` or a retention pass.
* `Idemio.NoOrphans` — no object is left of a key whose row was removed.

## Main results

* `Idemio.kept_of_reaches` — in a run of tidy steps every object is kept.
* `Idemio.objects_go_with_keys` — in such a run no object outlives its key.
* `Idemio.object_outlives_key` — a run in which the result of a failed attempt does.
-/

namespace Idemio

open Transition

/-! ## What is assumed -/

/-- The object store does not take a `Put` or a `Delete`. -/
def Action.storeFails : Action → Bool
  | .place putOK => !putOK
  | .deleteObjects ok => !ok
  | _ => false

/-- The process ends where it stands. -/
def Action.isCrash : Action → Bool
  | .crash => true
  | _ => false

/-- The objects that a retention pass has still to delete. -/
def Proc.refs : Proc → List String
  | .expire (.objects refs) => refs
  | _ => []

/-- The object store takes every `Put` and `Delete`, and no retention pass crashes between its
rows and its objects. -/
def StoreWorks : Assumption := fun s ia =>
  ia.2.storeFails = false ∧ (ia.2.isCrash = true → (s.procs ia.1).refs = [])

instance (s : State) (ia : Pid × Action) : Decidable (StoreWorks s ia) :=
  inferInstanceAs (Decidable (_ ∧ _))

/-- The key for which a step puts an object. -/
def Proc.puts (env : Env) : Proc → Action → Option KeyID
  | .handler (.place own outcome), .place putOK =>
    if offloads env outcome.result && putOK then some own.req.keyID else none
  | .sweep (.place c outcome _), .place putOK =>
    if offloads env outcome.result && putOK then some c.keyID else none
  | _, _ => none

/-- The action ends a `Complete`, and its update does not take effect. -/
def Completion.gaveUp (sh : Shared) (c : Completion) : Action → Bool
  | .crash => true
  | .fail => c.tries = 0
  | .commit .refused => c.tries = 0
  | .update => settled sh.db c.args.keyID
  | _ => false

/-- **Steps that forget no object.** -/
structure Tidy (env : Env) (s : State) (ia : Pid × Action) : Prop where
  /-- A claim takes effect only if the row of its key refers to no object, and if the object of
  no other key that was ever claimed has the name of its own. -/
  claims : ia.2.commits = true → ∀ tx verdict, s.procs ia.1 = .handler (.commit tx verdict) →
    (∀ row, s.shared.db.keys.lookup tx.req.keyID = some row → row.resultRef = none) ∧
    ∀ c ∈ s.shared.claims, ref env c.tx.req.keyID = ref env tx.req.keyID →
      c.tx.req.keyID = tx.req.keyID
  /-- An object is put only for a key that has a row. -/
  puts : ∀ k, (s.procs ia.1).puts env ia.2 = some k → s.shared.db.keys.lookup k ≠ none
  /-- A `Complete` that has put an object ends without effect only if the row refers to it. -/
  gaveUp : ∀ c caller, s.procs ia.1 = .completing c caller → c.gaveUp s.shared ia.2 = true →
    c.args.resultRef ≠ "" → ∃ row, s.shared.db.keys.lookup c.args.keyID = some row ∧
      row.resultRef = some c.args.resultRef
  /-- A retention pass that takes effect learns of it, and deletes no row for which a `Complete`
  under way has put an object. -/
  expires : ia.2.commits = true → ∀ now gone, s.procs ia.1 = .expire (.delete now [] gone) →
    ia.2.isUnseen = false ∧ ∀ e ∈ gone, ∀ q c caller, s.procs q = .completing c caller →
      c.args.keyID = e.1 → c.args.resultRef = ""

variable {env : Env} {p q : Pid} {sh sh' : Shared} {pr pr' : Proc} {a : Action} {s s' : State}
  {ok : Assumption} {k : KeyID} {row : KeyRow} {n : String} {c : Completion} {caller : Caller}

/-! ## Rows and claims -/

/-- A claim leaves a row that refers to no object. -/
lemma Concludes.resultRef {tx : ClaimTx} {verdict : Verdict} {old : Option KeyRow}
    {row₀ : KeyRow} (h : Concludes env row₀ tx verdict) (hopen : Opens tx.req tx.now old row₀) :
    tx.row.resultRef = none := by
  have hrow₀ : row₀.resultRef = none := by
    cases hopen with
    | insert => rfl
    | reclaim hreclaim => rw [(reclaimKey_eq_some.mp hreclaim).2]
  cases h with
  | claimed hrow => rwa [hrow]
  | rejected hrow => rwa [hrow]

/-- A pending row refers to no object. -/
lemma resultRef_of_pending (h : Reaches env ok s) (k : KeyID) :
    ∀ row, s.shared.db.keys.lookup k = some row → row.status = .pending →
      row.resultRef = none := by
  refine h.invariant (I := fun s => ∀ row, s.shared.db.keys.lookup k = some row →
    row.status = .pending → row.resultRef = none) (fun _ hrow => by cases hrow) ?_
  rintro s ⟨p, a⟩ s' hs hI - hstep row hrow hpending
  have hnew := fun {st : KeyState} (heq : s'.shared.key k = st) =>
    (congrArg KeyState.row heq).symm.trans hrow
  cases keyChange_of_step hs hstep k with
  | same hkey => exact hI row (hnew hkey) hpending
  | claim _ _ _ _ hopen hverdict _ hkey =>
    cases hnew hkey
    exact hverdict.resultRef hopen
  | @complete c _ _ _ _ _ _ _ _ _ _ hcomplete _ hkey =>
    cases hnew hkey
    rw [(completeKey_eq_some.mp hcomplete).2] at hpending
    rcases c.args.settles with h | h | h <;> cases h.symm.trans hpending
  | expire _ _ _ _ hkey => cases hnew hkey

/-- The key was claimed at some time. -/
def Shared.everClaimed (sh : Shared) (k : KeyID) : Prop := ∃ c ∈ sh.claims, c.tx.req.keyID = k

/-- The claims that have committed stay on record. -/
lemma Rule.everClaimed (h : Rule env p sh pr a sh' pr') (hk : sh.everClaimed k) :
    sh'.everClaimed k := by
  obtain ⟨c, hc, hk⟩ := hk
  rcases h.claims_cases with hclaims | ⟨-, tx, verdict, -, rfl⟩
  · exact ⟨c, hclaims ▸ hc, hk⟩
  · exact ⟨c, List.mem_append_left _ hc, hk⟩

/-- A key that has a row was claimed. -/
lemma everClaimed_of_row (h : Reaches env ok s) (k : KeyID) :
    s.shared.db.keys.lookup k ≠ none → s.shared.everClaimed k := by
  refine h.invariant (I := fun s => s.shared.db.keys.lookup k ≠ none → s.shared.everClaimed k)
    (fun hrow => absurd rfl hrow) ?_
  rintro s ⟨p, a⟩ s' hs hI - hstep hrow
  have hrule := Rule.of_step hstep
  have hnew := fun {st : KeyState} (heq : s'.shared.key k = st) =>
    congrArg KeyState.row heq
  cases keyChange_of_step hs hstep k with
  | same hkey => exact hrule.everClaimed (hI fun hnone => hrow ((hnew hkey).trans hnone))
  | claim _ _ hsh hk =>
    rw [hsh]
    exact ⟨_, List.mem_append_right _ (List.mem_singleton_self _), hk⟩
  | complete _ _ _ _ hold =>
    refine hrule.everClaimed (hI fun hnone => ?_)
    cases hold.symm.trans hnone
  | expire _ _ _ _ hkey => exact absurd (hnew hkey) hrow

/-- **The objects of different keys have different names**, if every claim sees to it. -/
lemma ref_inj_of_reaches (hok : ∀ s ia, ok s ia → Tidy env s ia) (h : Reaches env ok s)
    {k' : KeyID} (hk : s.shared.everClaimed k) (hk' : s.shared.everClaimed k')
    (href : ref env k = ref env k') : k = k' := by
  have hinj : ∀ c ∈ s.shared.claims, ∀ c' ∈ s.shared.claims,
      ref env c.tx.req.keyID = ref env c'.tx.req.keyID → c.tx.req.keyID = c'.tx.req.keyID := by
    refine h.invariant (I := fun s => ∀ c ∈ s.shared.claims, ∀ c' ∈ s.shared.claims,
      ref env c.tx.req.keyID = ref env c'.tx.req.keyID → c.tx.req.keyID = c'.tx.req.keyID)
      (fun _ hc => by cases hc) ?_
    rintro s ⟨p, a⟩ s' - hI hs hstep c hc c' hc' heq
    obtain ⟨sh', pr', hrule, rfl⟩ := rule_of_step hstep
    rcases hrule.claims_cases with hclaims | ⟨ha, tx, verdict, hp, rfl⟩
    · exact hI c (hclaims ▸ hc) c' (hclaims ▸ hc') heq
    · have hnew := ((hok _ _ hs).claims ha tx verdict hp).2
      rcases List.mem_append.mp hc with hc | hc <;> rcases List.mem_append.mp hc' with hc' | hc'
      · exact hI c hc c' hc' heq
      · cases List.mem_singleton.mp hc'
        exact hnew c hc heq
      · cases List.mem_singleton.mp hc
        exact (hnew c' hc' heq.symm).symm
      · cases List.mem_singleton.mp hc
        cases List.mem_singleton.mp hc'
        rfl
  obtain ⟨c, hc, rfl⟩ := hk
  obtain ⟨c', hc', rfl⟩ := hk'
  exact hinj c hc c' hc' href

/-! ## Who answers for an object -/

/-- Who answers for an object: the row of its key, a `Complete` that is about to record it, or a
retention pass that is about to delete it. -/
inductive Kept (env : Env) (s : State) (n : String) : Prop
  | row {k : KeyID} {row : KeyRow} (hrow : s.shared.db.keys.lookup k = some row)
      (href : row.resultRef = some n) (hn : n = ref env k)
  | complete {q : Pid} {c : Completion} {caller : Caller} (hq : s.procs q = .completing c caller)
      (href : c.args.resultRef = n) (hn : n = ref env c.args.keyID)
  | pass {q : Pid} (hmem : n ∈ (s.procs q).refs)

/-- The name of an object is not empty. -/
lemma ref_ne_empty (env : Env) (k : KeyID) : ref env k ≠ "" := by
  intro h
  have := congrArg String.toList h
  simp [ref] at this

/-- The `Complete` of an offloaded result refers to the object of its key. -/
lemma newCompletion_resultRef {attempt : Nat} {outcome : Outcome} {putOK : Bool} {tries : Nat}
    (hput : (offloads env outcome.result && putOK) = true) :
    (newCompletion env k attempt outcome putOK tries).args.resultRef = ref env k := by
  change (place env k outcome.result putOK).ref = ref env k
  rw [place, if_pos hput]

/-- Only the `Complete` of an offloaded result refers to an object. -/
lemma offloads_of_resultRef {attempt : Nat} {outcome : Outcome} {putOK : Bool} {tries : Nat}
    (hne : (newCompletion env k attempt outcome putOK tries).args.resultRef ≠ "") :
    (offloads env outcome.result && putOK) = true := by
  change (place env k outcome.result putOK).ref ≠ "" at hne
  unfold place at hne
  split at hne
  · assumption
  · exact absurd rfl hne

/-- An object after a `Place` was there before, or is the one that was put. -/
lemma putResult_cases {result : RawMessage} {putOK : Bool} {objects : Objects}
    (h : putResult env k result putOK objects n ≠ none) :
    objects n ≠ none ∨ (offloads env result && putOK) = true ∧ n = ref env k := by
  unfold putResult at h
  split at h
  · next hput =>
    by_cases hn : n = ref env k
    · exact .inr ⟨hput, hn⟩
    · rw [Function.update_of_ne hn] at h
      exact .inl h
  · exact .inl h

/-- **Where an object comes from**: it was there before, and is not one that the step was to
delete, or the step has put it for a `Complete` that is now to record it. -/
lemma Rule.objects_cases (h : Rule env p sh pr a sh' pr') (hn : sh'.objects n ≠ none) :
    (sh.objects n ≠ none ∧ (a.storeFails = false → a.isCrash = false → env.objectStore = true →
      n ∈ pr.refs → n ∈ pr'.refs)) ∨
    env.objectStore = true ∧ ∃ c caller, pr' = .completing c caller ∧
      pr.puts env a = some c.args.keyID ∧ c.args.resultRef = n ∧ n = ref env c.args.keyID := by
  cases h with
  | place | placeStale =>
    rcases putResult_cases hn with hn | ⟨hput, rfl⟩
    · exact .inl ⟨hn, fun _ _ _ hmem => hmem⟩
    · refine .inr ⟨?_, _, _, rfl, by rw [Proc.puts, if_pos hput]; rfl,
        newCompletion_resultRef hput, rfl⟩
      simp only [offloads, Bool.and_eq_true] at hput
      exact hput.1.1.2
  | @deleteObjects refs ok =>
    simp only [deleteObjects_objects, Bool.and_eq_true, decide_eq_true_eq] at hn
    split at hn
    · exact absurd rfl hn
    · next hkept =>
      refine .inl ⟨hn, fun hok _ hstore hmem => absurd ⟨⟨?_, hstore⟩, hmem⟩ hkept⟩
      simpa [Action.storeFails] using hok
  | land | lose => exact .inl ⟨hn, fun _ _ _ hmem => hmem⟩
  | crash | crashCall => exact .inl ⟨hn, fun _ hcrash => by cases hcrash⟩
  | complete hc | completed hc | completedStale hc =>
    rw [hc.frame] at hn
    exact .inl ⟨hn, fun _ _ _ hmem => by cases hmem⟩
  | _ => exact .inl ⟨hn, fun _ _ _ hmem => by cases hmem⟩

/-! ## Completes that end -/

/-- A `Complete` that finds no pending row is given up. -/
lemma settled_of_completeKey {args : CompleteArgs} {now : Time}
    (h : (sh.db.keys.lookup args.keyID).bind (completeKey args now) = none) :
    settled sh.db args.keyID = true := by
  unfold settled
  cases hrow : sh.db.keys.lookup args.keyID with
  | none => rfl
  | some row =>
    rw [hrow, Option.bind_some, completeKey] at h
    split at h
    · cases h
    · next hne => simpa using hne

/-- **How a `Complete` ends**: it is given up, or its update takes effect. -/
lemma CompleteRule.ended (h : CompleteRule p sh c a sh' none) :
    (c.gaveUp sh a = true ∧ sh'.db = sh.db) ∨
    ∃ now row voided, c.phase = .commit now row voided ∧
      sh' = sh.applyComplete p c.args.keyID now row voided := by
  have htries : none = c.retry → c.tries = 0 := by
    unfold Completion.retry
    split <;> simp_all
  cases h with
  | settled _ hrow => exact .inl ⟨settled_of_completeKey hrow, rfl⟩
  | commit hc => exact .inr ⟨_, _, _, hc, rfl⟩
  | unseen hc => exact .inr ⟨_, _, _, hc, rfl⟩
  | refused _ hr => exact .inl ⟨by simp [Completion.gaveUp, htries hr], rfl⟩
  | fail hr => exact .inl ⟨by simp [Completion.gaveUp, htries hr], rfl⟩

/-- A process in a `Complete` stays in it, gives it up or sees its update take effect. -/
lemma Rule.completing_cases (h : Rule env p sh (.completing c caller) a sh' pr') :
    (∃ c', pr' = .completing c' caller ∧ c'.args = c.args) ∨
    (c.gaveUp sh a = true ∧ sh'.db = sh.db) ∨
    ∃ now row voided, c.phase = .commit now row voided ∧
      sh' = sh.applyComplete p c.args.keyID now row voided := by
  cases h with
  | land | lose => exact .inl ⟨c, rfl, rfl⟩
  | crash => exact .inr (.inl ⟨rfl, rfl⟩)
  | complete hc => exact .inl ⟨_, rfl, hc.keeps.1⟩
  | completed hc | completedStale hc => exact .inr hc.ended

/-! ## Every object is kept -/

/-- A `Complete` with an offloaded result was under way before, or the step has put its
object. -/
lemma Rule.completing_of (h : Rule env p sh pr a sh' (.completing c caller))
    (hne : c.args.resultRef ≠ "") :
    (∃ c₀ caller₀, pr = .completing c₀ caller₀ ∧ c₀.args = c.args) ∨
      pr.puts env a = some c.args.keyID := by
  cases h with
  | land | lose => exact .inl ⟨c, caller, rfl, rfl⟩
  | place | placeStale => exact .inr (if_pos (offloads_of_resultRef hne))
  | complete hc => exact .inl ⟨_, _, rfl, hc.keeps.1.symm⟩

/-- **The row of an offloaded result is there** until its `Complete` ends. -/
lemma row_of_offloaded (hok : ∀ s ia, ok s ia → Tidy env s ia) (h : Reaches env ok s) :
    ∀ q c caller, s.procs q = .completing c caller → c.args.resultRef ≠ "" →
      s.shared.db.keys.lookup c.args.keyID ≠ none := by
  refine h.invariant (I := fun s => ∀ q c caller, s.procs q = .completing c caller →
    c.args.resultRef ≠ "" → s.shared.db.keys.lookup c.args.keyID ≠ none)
    (fun _ _ _ hq => by cases hq) ?_
  rintro s ⟨p, a⟩ s' hs hI hst hstep q c caller hq hne
  have htidy := hok _ _ hst
  have hbefore : (∃ c₀ caller₀, s.procs q = .completing c₀ caller₀ ∧ c₀.args = c.args) ∨
      (s.procs p).puts env a = some c.args.keyID := by
    by_cases hqp : q = p
    · subst hqp
      have hrule := Rule.of_step hstep
      rw [hq] at hrule
      exact hrule.completing_of hne
    · rw [Interleave.step_procs_of_ne hstep hqp] at hq
      exact .inl ⟨c, caller, hq, rfl⟩
  have hrow : s.shared.db.keys.lookup c.args.keyID ≠ none := by
    rcases hbefore with ⟨c₀, caller₀, hq₀, hargs⟩ | hputs
    · rw [← hargs] at hne ⊢
      exact hI q c₀ caller₀ hq₀ hne
    · exact htidy.puts _ hputs
  intro hnone
  cases keyChange_of_step hs hstep c.args.keyID with
  | same hkey => exact hrow ((congrArg KeyState.row hkey).symm.trans hnone)
  | claim _ _ _ _ _ _ _ hkey => cases (congrArg KeyState.row hkey).symm.trans hnone
  | complete _ _ _ _ _ _ _ hkey => cases (congrArg KeyState.row hkey).symm.trans hnone
  | expire ha hp hmem =>
    rcases hbefore with ⟨c₀, caller₀, hq₀, hargs⟩ | hputs
    · rw [← hargs] at hne hmem
      exact hne ((htidy.expires ha _ _ hp).2 _ hmem q c₀ caller₀ hq₀ rfl)
    · rw [hp] at hputs
      cases hputs

/-- A retention pass that learns of its commit goes on to the objects. -/
lemma Rule.expired_of_commits {now : Time} {gone : List (KeyID × KeyRow)}
    (h : Rule env p sh (.expire (.delete now [] gone)) a sh' pr') (ha : a.commits = true)
    (hseen : a.isUnseen = false) : pr' = .expire (.objects (expiredRefs gone)) := by
  cases h with
  | land | lose | crash | expireRefused | expireFail => cases ha
  | expireUnseen => cases hseen
  | expired => rfl

/-- **Who answers for an object goes on doing so**, or hands it on.

**Proof sketch.** A row keeps its reference: a claim finds none, by assumption, a `Complete`
finds none because the row is pending, and a retention pass that deletes the row takes the
reference over. A `Complete` that ends has recorded the object, or is given up, and then the row
refers to it by assumption. -/
lemma Kept.step (h : Kept env s n) (hs : Reaches env ok s) (htidy : Tidy env s (p, a))
    (hstep : step env s (p, a) = some s')
    (hrefs : n ∈ (s.procs p).refs → n ∈ (s'.procs p).refs) : Kept env s' n := by
  have hrule := Rule.of_step hstep
  cases h with
  | @row k row hrow href hn =>
    cases keyChange_of_step hs hstep k with
    | same hkey => exact .row ((congrArg KeyState.row hkey).trans hrow) href hn
    | claim ha hp _ hk =>
      rw [← hk] at hrow
      cases href.symm.trans ((htidy.claims ha _ _ hp).1 row hrow)
    | complete _ _ _ _ hold hcomplete =>
      cases hold.symm.trans hrow
      have hpending := (completeKey_eq_some.mp hcomplete).1
      cases href.symm.trans (resultRef_of_pending hs k row hrow hpending)
    | expire ha hp hmem hold =>
      cases hold.symm.trans hrow
      have hseen := (htidy.expires ha _ _ hp).1
      rw [hp] at hrule
      refine .pass (q := p) ?_
      rw [hrule.expired_of_commits ha hseen]
      refine List.mem_filter.mpr ⟨List.mem_filterMap.mpr ⟨_, hmem, href⟩, ?_⟩
      simpa [hn] using ref_ne_empty env k
  | @complete q c caller hq href hn =>
    by_cases hqp : q = p
    · subst hqp
      rw [hq] at hrule
      rcases hrule.completing_cases with ⟨c', hq', hargs⟩ | ⟨hgave, hdb⟩ |
        ⟨now, row, voided, hphase, hsh⟩
      · exact .complete hq' (hargs ▸ href) (hargs ▸ hn)
      · have hne : c.args.resultRef ≠ "" := by
          rw [href, hn]
          exact ref_ne_empty env _
        obtain ⟨row, hrow, hrow'⟩ := htidy.gaveUp c caller hq hgave hne
        exact .row (hdb ▸ hrow) (href ▸ hrow') hn
      · have hheld := (held_of_reaches hs).2 q
        rw [hq] at hheld
        have hheld : c.phase.Held q s.shared c.args := hheld
        rw [hphase] at hheld
        obtain ⟨old, -, hcomplete⟩ := hheld.1.updates
        have hrow : s'.shared.db.keys.lookup c.args.keyID = some row := by
          rw [hsh]
          exact AList.lookup_insert _
        refine .row hrow ?_ hn
        simp [(completeKey_eq_some.mp hcomplete).2, href, hn, ref_ne_empty]
    · rw [← Interleave.step_procs_of_ne hstep hqp] at hq
      exact .complete hq href hn
  | @pass q hmem =>
    by_cases hqp : q = p
    · subst hqp
      exact .pass (hrefs hmem)
    · rw [← Interleave.step_procs_of_ne hstep hqp] at hmem
      exact .pass hmem

/-- The object store works, and every step is tidy. -/
def TidyRun (env : Env) : Assumption := fun s ia => StoreWorks s ia ∧ Tidy env s ia

/-- **In a run of tidy steps every object is kept.** -/
theorem kept_of_reaches (h : Reaches env (TidyRun env) s) :
    ∀ n, s.shared.objects n ≠ none → env.objectStore = true ∧ Kept env s n := by
  refine h.invariant (I := fun s => ∀ n, s.shared.objects n ≠ none →
    env.objectStore = true ∧ Kept env s n) (fun n hn => absurd rfl hn) ?_
  rintro s ⟨p, a⟩ s' hs hI ⟨⟨hworks, hcrash⟩, htidy⟩ hstep n hn
  rcases (Rule.of_step hstep).objects_cases hn with ⟨hn, hrefs⟩ |
    ⟨hstore, c, caller, hp, -, href, hname⟩
  · obtain ⟨hstore, hkept⟩ := hI n hn
    refine ⟨hstore, hkept.step hs htidy hstep fun hmem => ?_⟩
    refine hrefs hworks (Bool.eq_false_iff.mpr fun hc => ?_) hstore hmem
    rw [hcrash hc] at hmem
    cases hmem
  · exact ⟨hstore, .complete hp href hname⟩

/-! ## No object outlives its key -/

/-- No object is left of a key that was claimed and whose row was removed, when every retention
pass has deleted the objects of the rows that it removed. -/
def NoOrphans (env : Env) (s : State) : Prop :=
  ∀ k, s.shared.everClaimed k → s.shared.db.keys.lookup k = none →
    (∀ q, ref env k ∉ (s.procs q).refs) → s.shared.objects (ref env k) = none

/-- **No object outlives its key**, in every run of tidy steps. -/
theorem objects_go_with_keys (h : Reaches env (TidyRun env) s) : NoOrphans env s := by
  intro k hclaimed hnone hpasses
  have hok : ∀ s ia, TidyRun env s ia → Tidy env s ia := fun _ _ h => h.2
  by_contra hobj
  obtain ⟨-, hkept⟩ := kept_of_reaches h _ hobj
  -- Another key cannot answer for the object: its own has another name.
  have hother : ∀ k', s.shared.db.keys.lookup k' ≠ none → ref env k ≠ ref env k' := by
    intro k' hrow href
    cases ref_inj_of_reaches hok h hclaimed (everClaimed_of_row h k' hrow) href
    exact hrow hnone
  cases hkept with
  | @row k' row hrow _ hn => exact hother k' (by simp [hrow]) hn
  | @complete q c caller hq href hn =>
    refine hother c.args.keyID (row_of_offloaded hok h q c caller hq ?_) hn
    rw [href]
    exact ref_ne_empty env k
  | @pass q hmem => exact hpasses q hmem

/-- `Tidy`, checked for a few processes when the others do nothing. -/
def tidy (env : Env) (pids : List Pid) (s : State) (ia : Pid × Action) : Bool :=
  decide (ia.1 ∈ pids) && !ia.2.isUnseen &&
    (((s.procs ia.1).puts env ia.2).all fun k => (s.shared.db.keys.lookup k).isSome) &&
    match s.procs ia.1 with
    | .handler (.commit tx _) => !ia.2.commits ||
      ((s.shared.db.keys.lookup tx.req.keyID).all fun row => row.resultRef.isNone) &&
        s.shared.claims.all fun c => ref env c.tx.req.keyID ≠ ref env tx.req.keyID ||
          c.tx.req.keyID = tx.req.keyID
    | .completing c _ => !c.gaveUp s.shared ia.2 || c.args.resultRef = "" ||
      (s.shared.db.keys.lookup c.args.keyID).any fun row =>
        row.resultRef = some c.args.resultRef
    | .expire (.delete _ [] gone) => gone.all fun e => pids.all fun q =>
      (s.procs q).completion.all fun c => c.1.args.keyID ≠ e.1 || c.1.args.resultRef = ""
    | _ => true

/-- A run that passes the checks is one of tidy steps. -/
lemma tidyRun_of_pids {pids : List Pid}
    (h : Reaches env (fun s ia => StoreWorks s ia ∧ tidy env pids s ia = true) s) :
    Reaches env (TidyRun env) s := by
  refine h.mono_of_reachable fun t ia ht hok => ⟨hok.1, ?_⟩
  have hidle : ∀ q, q ∉ pids → t.procs q = .idle := fun q hq =>
    Interleave.procs_of_not_mem (fun s ia hok => by simp_all [tidy]) ht hq
  have hok := hok.2
  unfold tidy at hok
  simp only [Bool.and_eq_true] at hok
  obtain ⟨⟨⟨-, hseen⟩, hputs⟩, hok⟩ := hok
  refine ⟨fun ha tx verdict hp => ?_, fun k hk => ?_, fun c caller hp hgave hne => ?_,
    fun ha now gone hp => ⟨by simpa using hseen, fun e he q c caller hq hk => ?_⟩⟩
  · simp only [hp, ha, Bool.not_true, Bool.false_or, Bool.and_eq_true, List.all_eq_true,
      Bool.or_eq_true, decide_eq_true_eq] at hok
    refine ⟨fun row hrow => ?_, fun c hc href => ?_⟩
    · simpa [hrow] using hok.1
    · rcases hok.2 c hc with hne | heq
      · exact absurd href hne
      · exact heq
  · rw [hk] at hputs
    exact Option.isSome_iff_ne_none.mp hputs
  · simp only [hp, hgave, Bool.not_true, Bool.false_or, Bool.or_eq_true, decide_eq_true_eq,
      hne, false_or] at hok
    obtain ⟨row, hrow, href⟩ := (Option.any_eq_true _ _).mp hok
    exact ⟨row, hrow, by simpa using href⟩
  · simp only [hp, List.all_eq_true] at hok
    by_cases hmem : q ∈ pids
    · have := hok e he q hmem
      simpa [hq, Proc.completion, hk] using this
    · rw [hidle q hmem] at hq
      cases hq

/-- When only a few processes have acted, these alone can have objects to delete. -/
lemma refs_of_pids {pids : List Pid} (hok : ∀ s ia, ok s ia → ia.1 ∈ pids) (h : Reaches env ok s)
    (hrefs : ∀ q ∈ pids, (s.procs q).refs = []) (q : Pid) : n ∉ (s.procs q).refs := by
  by_cases hq : q ∈ pids
  · simp [hrefs q hq]
  · have hidle : s.procs q = .idle := Interleave.procs_of_not_mem hok h hq
    simp [hidle, Proc.refs]

/-- The result of a write is offloaded. The key expires, and its object is deleted. -/
theorem objects_go_with_keys_expired : ∃ s s', Reaches Env.small (TidyRun Env.small) s ∧
    s.shared.objects (ref Env.small ⟨"a", keyA⟩) = some [1, 2] ∧
    step Env.small s (1, .deleteObjects true) = some s' ∧
    Reaches Env.small (TidyRun Env.small) s' ∧
    s'.shared.objects (ref Env.small ⟨"a", keyA⟩) = none := by
  obtain ⟨s, hrun, hs⟩ := exists_run_of_exec (step Env.small)
    (fun s ia => StoreWorks s ia ∧ tidy Env.small [0, 1] s ia = true) init
    (
      insertSteps 0 (.small .replace true) (.small "a" keyA) 5 [] ++
      [(0, .commit .ok), (0, .call), (0, .land), (0, .ret ⟨.done, [1, 2], ""⟩), (0, .place true),
        (0, .begin 6), (0, .update), (0, .commit .ok)] ++
      [(1, .expire 108 [(⟨"a", keyA⟩, { KeyRow.small "a" 5 0 with
          status := .done, completedAt := some 6,
          resultRef := some (ref Env.small ⟨"a", keyA⟩) })]), (1, .delete), (1, .commit .ok)])
    (fun s => s.shared.objects (ref Env.small ⟨"a", keyA⟩) = some [1, 2] &&
      tidy Env.small [0, 1] s (1, .deleteObjects true) &&
      (step Env.small s (1, .deleteObjects true)).any fun s' =>
        (s'.shared.db.keys.lookup ⟨"a", keyA⟩).isNone &&
        (s'.shared.claims.any fun c => c.tx.req.keyID = ⟨"a", keyA⟩) &&
        [0, 1].all fun q => (s'.procs q).refs.isEmpty)
    (by decide +kernel)
  simp only [Bool.and_eq_true, decide_eq_true_eq] at hs
  obtain ⟨⟨hobj, htidy⟩, hs⟩ := hs
  obtain ⟨s', hstep, hs⟩ := (Option.any_eq_true _ _).mp hs
  simp only [Bool.and_eq_true, Option.isNone_iff_eq_none, List.any_eq_true, decide_eq_true_eq,
    List.all_eq_true, List.isEmpty_iff] at hs
  obtain ⟨⟨hnone, hclaimed⟩, hrefs⟩ := hs
  have hreach' : Reaches Env.small
      (fun s ia => StoreWorks s ia ∧ tidy Env.small [0, 1] s ia = true) s' :=
    Reachable.snoc ⟨_, hrun⟩ ⟨⟨rfl, fun hcrash => by cases hcrash⟩, htidy⟩ hstep
  have hpids : ∀ q, ref Env.small ⟨"a", keyA⟩ ∉ (s'.procs q).refs :=
    refs_of_pids (fun s ia hok => by simp_all [tidy]) hreach' hrefs
  exact ⟨s, s', tidyRun_of_pids ⟨_, hrun⟩, hobj, hstep, tidyRun_of_pids hreach',
    objects_go_with_keys (tidyRun_of_pids hreach') _ hclaimed hnone hpids⟩

/-- **A confidential object outlives its key.** The first attempt of a write is declined with a
body that is offloaded. The write is retried and done, with a result that is stored inline. When
the key expires, no row refers to the object any more. -/
theorem object_outlives_key : ∃ s, Reaches Env.small StoreWorks s ∧ ¬ NoOrphans Env.small s := by
  obtain ⟨s, hrun, hs⟩ := exists_run_of_exec (step Env.small)
    (fun s ia => StoreWorks s ia ∧ ia.1 ∈ [0, 1, 2]) init
    (
      insertSteps 0 (.small .append true) (.small "a" keyA) 5 [] ++
      [(0, .commit .ok), (0, .call), (0, .lose),
        (0, .ret ⟨.failed, [1, 2], "downstream_declined_status_429"⟩), (0, .place true),
        (0, .begin 6), (0, .update), (0, .void (some (.small 1 .append "a" keyA 5))),
        (0, .commit .ok)] ++
      reclaimSteps 1 (.small .append true) (.small "a" keyA) 7 [] ++
      [(1, .commit .ok), (1, .call), (1, .land), (1, .ret ⟨.done, [3], ""⟩), (1, .place true),
        (1, .begin 8), (1, .update), (1, .commit .ok)] ++
      [(2, .expire 108 [(⟨"a", keyA⟩, { KeyRow.small "a" 5 0 with
          status := .done, attemptCount := 2, claimedAt := 7, completedAt := some 8,
          result := some (.document [3]) })]), (2, .delete), (2, .commit .ok),
        (2, .deleteObjects true)])
    (fun s => s.shared.objects (ref Env.small ⟨"a", keyA⟩) = some [1, 2] &&
      (s.shared.db.keys.lookup ⟨"a", keyA⟩).isNone &&
      (s.shared.claims.any fun c => c.tx.req.keyID = ⟨"a", keyA⟩) &&
      [0, 1, 2].all fun q => (s.procs q).refs.isEmpty)
    (by decide +kernel)
  simp only [Bool.and_eq_true, Option.isNone_iff_eq_none, List.any_eq_true, decide_eq_true_eq,
    List.all_eq_true, List.isEmpty_iff] at hs
  obtain ⟨⟨⟨hobj, hnone⟩, hclaimed⟩, hrefs⟩ := hs
  refine ⟨s, ⟨_, hrun.mono fun _ _ hok => hok.1⟩, fun h => ?_⟩
  have hgone := h _ hclaimed hnone
    (refs_of_pids (fun _ _ hok => hok.2) ⟨_, hrun⟩ hrefs)
  cases hobj.symm.trans hgone

end Idemio
