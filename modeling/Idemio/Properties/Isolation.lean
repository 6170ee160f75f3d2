import Idemio.Api.Read
import Idemio.Properties.Orphans
import Idemio.Properties.Probing

set_option relaxedAutoImplicit false
set_option autoImplicit false

/-!
# Agents are isolated

Keys are UUIDs that agents choose, and nothing keeps two agents from choosing the same one. A read
is answered from the caller's own rows. A handler and a sweep change the rows of the key that they
act for and of no other, and the objects that they write have the name that belongs to this key,
which no row of another one refers to.

## Main definitions

* `Idemio.Proc.acting` — the key that a process acts for.
* `Idemio.State.Occurs` — the keys that have a row or that a process acts for.
* `Idemio.CollisionFree` — the truncated hash tells the inputs of these keys apart.

## Main results

* `Idemio.resultRef_of_row` — a row refers to the object of its own key, if to any.
* `Idemio.agents_isolated` — agents and keys are isolated from each other.
-/

namespace Idemio

/-- The key that a process acts for. -/
def Proc.acting : Proc → Option KeyID
  | .handler (.wait req _) => some req.keyID
  | .handler (.await record) => some record.keyID
  | .handler (.existing record) => some record.keyID
  | .handler (.execute own) => some own.req.keyID
  | .handler (.calling own) => some own.req.keyID
  | .handler (.place own _) => some own.req.keyID
  | .handler (.respond k _) => k
  | .handler h => h.claiming.map Request.keyID
  | .sweep (.batch todo) => todo.head?.map Stale.keyID
  | .sweep (.place c _ _) => some c.keyID
  | .completing c _ => some c.args.keyID
  | _ => none

/-- The key has a row, or a process acts for it. -/
def State.Occurs (s : State) (k : KeyID) : Prop :=
  s.shared.db.keys.lookup k ≠ none ∨ ∃ p, (s.procs p).acting = some k

/-- The truncated hash tells the inputs apart that belong to keys that occur. -/
def CollisionFree (env : Env) (s : State) : Prop :=
  Set.InjOn (fun bs => (env.sha256 bs).take 16) (Set.image correlationInput {k | s.Occurs k})

variable {env : Env} {ok : Assumption} {p : Pid} {sh sh' : Shared} {pr pr' : Proc} {a : Action}
  {s s' : State} {k k' : KeyID} {row : KeyRow} {n : String}

/-! ## Rows -/

/-- A step changes the rows of the key alone that its process acts for. -/
lemma KeyChange.of_acting_ne (h : KeyChange env p sh pr a k sh') (hexpire : pr.isExpire = false)
    (hk : pr.acting ≠ some k) : sh'.key k = sh.key k := by
  cases h with
  | same hkey => exact hkey
  | claim _ hpr _ hreq =>
    subst hpr
    exact absurd (congrArg some hreq) hk
  | complete _ hpr _ hargs =>
    subst hpr
    exact absurd (congrArg some hargs) hk
  | expire _ hpr =>
    subst hpr
    cases hexpire

/-! ## Objects -/

/-- A `Complete` refers to the object of its key, if to any. -/
def Proc.RefersToOwn (env : Env) : Proc → Prop
  | .completing c _ => c.args.resultRef = "" ∨ c.args.resultRef = ref env c.args.keyID
  | _ => True

lemma refersToOwn_newCompletion (env : Env) (k : KeyID) (attempt : Nat) (outcome : Outcome)
    (putOK : Bool) (tries : Nat) (caller : Caller) :
    Proc.RefersToOwn env
      (.completing (newCompletion env k attempt outcome putOK tries) caller) := by
  by_cases hput : (offloads env outcome.result && putOK) = true
  · exact .inr (newCompletion_resultRef hput)
  · exact .inl (by_contra fun hne => hput (offloads_of_resultRef hne))

lemma Rule.refersToOwn (h : Rule env p sh pr a sh' pr') (hpr : pr.RefersToOwn env) :
    pr'.RefersToOwn env := by
  cases h with
  | land | lose => exact hpr
  | place | placeStale => exact refersToOwn_newCompletion _ _ _ _ _ _ _
  | complete hc =>
    simp only [Proc.RefersToOwn, hc.keeps.1]
    exact hpr
  | _ => trivial

lemma refersToOwn_of_reaches (h : Reaches env ok s) (p : Pid) :
    (s.procs p).RefersToOwn env := by
  refine Interleave.invariant_procs (P := fun _ _ pr => pr.RefersToOwn env) ?_ ?_ ?_ h p
  · exact fun _ => trivial
  · exact fun s p a sh' pr' _ hI _ hact => (rule_of_act hact).refersToOwn (hI p)
  · exact fun s p a sh' pr' q _ _ hI _ _ => hI q

/-- **A row refers to the object of its own key, if to any.** -/
theorem resultRef_of_row (h : Reaches env ok s) (hrow : (s.shared.key k).row = some row)
    (href : row.resultRef = some n) : n = ref env k := by
  refine h.invariant (I := fun s => ∀ row, (s.shared.key k).row = some row →
    row.resultRef = some n → n = ref env k) ?_ ?_ row hrow href
  · rintro row ⟨⟩
  · rintro s ⟨p, a⟩ s' hs hI _ hstep row hrow href
    have hnew := fun {st : KeyState} (heq : s'.shared.key k = st) =>
      (congrArg KeyState.row heq).symm.trans hrow
    cases keyChange_of_step hs hstep k with
    | same hkey => exact hI row (hnew hkey) href
    | claim _ _ _ _ hopen hverdict _ hkey =>
      cases hnew hkey
      rw [hverdict.resultRef hopen] at href
      cases href
    | @complete c _ _ _ _ _ _ hpr _ hk _ hcomplete _ hkey =>
      cases hnew hkey
      have hown := refersToOwn_of_reaches hs p
      rw [hpr] at hown
      rw [(completeKey_eq_some.mp hcomplete).2] at href
      rcases hown with hempty | hown
      · simp [hempty] at href
      · rw [← hk, ← hown]
        simp only [Option.ite_none_left_eq_some, Option.some.injEq] at href
        exact href.2.symm
    | expire _ _ _ _ hkey => cases hnew hkey

/-- The objects that a handler or a sweep writes have the name of the key that it acts for. -/
lemma Proc.eq_ref_of_touches (h : n ∈ pr.touches env a) (hexpire : pr.isExpire = false) :
    ∃ k, pr.acting = some k ∧ n = ref env k := by
  have hplace {k : KeyID} {outcome : Outcome} {putOK : Bool}
      (hn : n ∈ placeTouches env k outcome putOK) : n = ref env k := by
    unfold placeTouches at hn
    split at hn
    · exact List.mem_singleton.mp hn
    · cases hn
  unfold Proc.touches at h
  split at h
  · exact ⟨_, rfl, hplace h⟩
  · exact ⟨_, rfl, hplace h⟩
  · cases hexpire
  · cases h

/-- A process that writes an object acts for an admitted key. -/
lemma admitted_of_touches (h : Reaches env ok s) (hn : n ∈ (s.procs p).touches env a)
    (hk : (s.procs p).acting = some k) : Admitted env k := by
  cases hp : s.procs p with
  | handler hd =>
    cases hd with
    | place own outcome =>
      rw [hp] at hk
      cases hk
      exact admitted_of_request h (p := p) (by rw [hp]; rfl)
    | _ => rw [hp] at hn; cases a <;> cases hn
  | sweep w =>
    cases w with
    | place c outcome todo =>
      rw [hp] at hk
      cases hk
      exact admitted_of_sweeping h p _ (by rw [hp]; exact List.mem_cons_self)
    | batch todo => rw [hp] at hn; cases a <;> cases hn
  | expire x => rw [hp] at hk; cases hk
  | _ => rw [hp] at hn; cases a <;> cases hn

/-! ## Names of objects -/

lemma Admitted.length_key (h : Admitted env k) : (utf8 k.key).length = 36 := by
  obtain ⟨snapshot, http, req, hadm, rfl⟩ := h
  obtain ⟨huuid, hkey⟩ := admission_ok_key hadm
  rw [← hkey] at huuid
  rw [length_utf8]
  exact (Header.isUUID_iff_chars.mp huuid).1

/-- Without collisions the objects of admitted keys have different names. -/
lemma CollisionFree.ref_inj (h : CollisionFree env s) (hk : s.Occurs k) (hk' : s.Occurs k')
    (hadm : Admitted env k) (hadm' : Admitted env k') (href : ref env k = ref env k') : k = k' := by
  have hid : correlationID env k = correlationID env k' := by
    rw [← String.toList_inj] at href ⊢
    simp only [ref, String.toList_append] at href
    exact List.append_cancel_left (List.append_cancel_right href)
  have hinput : correlationInput k = correlationInput k' :=
    h (Set.mem_image_of_mem _ hk) (Set.mem_image_of_mem _ hk') (hexEncode_inj hid)
  obtain ⟨hagent, hkey⟩ := correlationInput_inj (hadm.length_key.trans hadm'.length_key.symm) hinput
  exact congrArg₂ KeyID.mk hagent hkey

/-- **Agents are isolated.** A read gives an agent the same answer in all databases that have the
same rows for it. And no step of a handler or a sweep changes a row or an intent of a key that it
does not act for, or writes an object that the row of such a key refers to.

**Proof sketch.** What a step does to a key is said once for all steps (`KeyChange`). An object is
written under the name of the key that is acted for, a row refers to the name of its own key, and
these names differ, because the agent can be told from the key in what is hashed: all keys have 36
bytes. -/
theorem agents_isolated :
    (∀ (env : Env) (http : ReadHTTP) (keys₁ keys₂ : Keys) (objects : Objects)
        (lookupOK getOK : Bool),
      (∀ k : KeyID, k.agentID = trimSpace http.agentHeader → keys₁.lookup k = keys₂.lookup k) →
      handleRead env keys₁ objects lookupOK getOK http =
        handleRead env keys₂ objects lookupOK getOK http) ∧
    ∀ (env : Env) (ok : Assumption) (s s' : State) (p : Pid) (a : Action),
      Reaches env ok s → step env s (p, a) = some s' → (s.procs p).isExpire = false →
      CollisionFree env s → ∀ k, (s.procs p).acting ≠ some k →
        s'.shared.db.keys.lookup k = s.shared.db.keys.lookup k ∧
        s'.shared.db.intentsOf k = s.shared.db.intentsOf k ∧
        ∀ row n, s.shared.db.keys.lookup k = some row → row.resultRef = some n →
          n ∉ (s.procs p).touches env a ∧ s'.shared.objects n = s.shared.objects n := by
  refine ⟨fun env http keys₁ keys₂ objects lookupOK getOK h => handleRead_congr h, ?_⟩
  intro env ok s s' p a hs hstep hexpire hfree k hk
  have hkey := (keyChange_of_step hs hstep k).of_acting_ne hexpire hk
  refine ⟨congrArg KeyState.row hkey, congrArg KeyState.intents hkey, fun row n hrow href => ?_⟩
  have hn : n ∉ (s.procs p).touches env a := by
    intro hmem
    obtain ⟨k', hk', hn'⟩ := Proc.eq_ref_of_touches hmem hexpire
    have hname : ref env k' = ref env k := hn'.symm.trans (resultRef_of_row hs hrow href)
    have heq := hfree.ref_inj (.inr ⟨p, hk'⟩) (.inl (by simp [hrow]))
      (admitted_of_touches hs hmem hk') (admitted_of_row hs hrow) hname
    exact hk (heq ▸ hk')
  exact ⟨hn, (Rule.of_step hstep).objects hn⟩

/-- The processes `0` and `1` alone take steps. -/
def TwoProcs : Assumption := fun _ ia => ia.1 ∈ [0, 1]

instance (s : State) (ia : Pid × Action) : Decidable (TwoProcs s ia) :=
  inferInstanceAs (Decidable (_ ∈ _))

/-- Keys of agents with names of one letter do not collide in the small environment. -/
lemma collisionFree_small {key : String}
    (hocc : ∀ k, s.Occurs k → k = ⟨"a", key⟩ ∨ k = ⟨"b", key⟩) : CollisionFree .small s := by
  refine (injOn_small key).mono ?_
  rintro _ ⟨k, hk, rfl⟩
  rcases hocc k hk with rfl | rfl
  · exact .inl rfl
  · exact .inr rfl

/-- Agent `a` has a result in the object store. Agent `b` uses the same UUID and puts its own
result there. -/
theorem agents_isolated_same_uuid :
    (handleRead .small ∅ (fun _ => none) true true ⟨"a", "agent", keyA⟩ =
      handleRead .small ((∅ : Keys).insert ⟨"b", keyA⟩ (.small "b" 5 0)) (fun _ => none) true true
        ⟨"a", "agent", keyA⟩) ∧
    ∃ s s' row n, Reaches Env.small TwoProcs s ∧ step Env.small s (1, .place true) = some s' ∧
      (s.procs 1).acting = some ⟨"b", keyA⟩ ∧ (s.procs 1).touches .small (.place true) ≠ [] ∧
      s.shared.db.keys.lookup ⟨"a", keyA⟩ = some row ∧ row.resultRef = some n ∧
      s'.shared.db.keys.lookup ⟨"a", keyA⟩ = some row ∧
      s'.shared.objects n = s.shared.objects n := by
  refine ⟨agents_isolated.1 _ _ _ _ _ _ _ fun k hk => ?_, ?_⟩
  · have hne : k ≠ ⟨"b", keyA⟩ := by
      rintro rfl
      exact absurd hk (by decide)
    rw [AList.lookup_insert_ne hne]
  obtain ⟨s, hrun, hs⟩ := Transition.exists_run_of_exec (step Env.small) TwoProcs init
    (insertSteps 0 (.small .replace true) (.small "a" keyA) 5 [] ++
      [(0, .commit .ok), (0, .call), (0, .land), (0, .ret ⟨.done, [1, 2], ""⟩), (0, .place true),
        (0, .begin 6), (0, .update), (0, .commit .ok), (0, .finish)] ++
      insertSteps 1 (.small .replace true) (.small "b" keyA) 2000 [] ++
      [(1, .commit .ok), (1, .call), (1, .land), (1, .ret ⟨.done, [3, 4], ""⟩)])
    (fun s => ((s.procs 0).acting = none && (s.procs 1).acting = some ⟨"b", keyA⟩ &&
      (s.procs 1).isExpire = false && (s.procs 1).touches .small (.place true) ≠ [] &&
      s.shared.db.keys.keys = [⟨"b", keyA⟩, ⟨"a", keyA⟩]) &&
      ((s.shared.db.keys.lookup ⟨"a", keyA⟩).any fun row => row.resultRef.isSome) &&
      (step Env.small s (1, .place true)).isSome) (by decide +kernel)
  simp only [Bool.and_eq_true, decide_eq_true_eq] at hs
  obtain ⟨⟨⟨⟨⟨⟨hzero, hone⟩, hexpire⟩, htouches⟩, hkeys⟩, hrow⟩, hstep⟩ := hs
  obtain ⟨row, hrow, href⟩ := (Option.any_eq_true _ _).mp hrow
  obtain ⟨n, href⟩ := Option.isSome_iff_exists.mp href
  obtain ⟨s', hstep⟩ := Option.isSome_iff_exists.mp hstep
  have hocc : ∀ k, s.Occurs k → k = ⟨"a", keyA⟩ ∨ k = ⟨"b", keyA⟩ := by
    rintro k (hk | ⟨q, hq⟩)
    · have hmem : k ∈ s.shared.db.keys.keys :=
        AList.mem_keys.mp (AList.lookup_isSome.mp (Option.isSome_iff_ne_none.mpr hk))
      rw [hkeys] at hmem
      simpa [or_comm] using hmem
    · by_cases hmem : q ∈ [0, 1]
      · rcases List.mem_pair.mp hmem with rfl | rfl
        · cases hzero.symm.trans hq
        · exact .inr (Option.some.inj (hone.symm.trans hq)).symm
      · rw [Interleave.procs_of_not_mem (fun _ _ hok => hok) ⟨_, hrun⟩ hmem] at hq
        cases hq
  have hne : (s.procs 1).acting ≠ some ⟨"a", keyA⟩ := by simp [hone]
  obtain ⟨hsame, -, hobjects⟩ := agents_isolated.2 _ _ s s' 1 _ ⟨_, hrun⟩ hstep hexpire
    (collisionFree_small hocc) _ hne
  exact ⟨s, s', row, n, ⟨_, hrun⟩, hstep, hone, htouches, hrow, href, hsame.trans hrow,
    (hobjects row n hrow href).2⟩

end Idemio
