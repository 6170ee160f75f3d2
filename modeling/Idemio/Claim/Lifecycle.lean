import Idemio.Base.Run
import Idemio.Claim.Resolve

set_option relaxedAutoImplicit false
set_option autoImplicit false

/-!
# The life of a key

What a key is for, told of one key alone: its row and its intents, and the three things that
can happen to them. A claim opens an attempt and may reject it at once, a completion settles
the open attempt, and retention forgets the row. That every step of the whole system is, for
every key, one of these or nothing is proved in `Idemio.System.Atomic`.

## Main definitions

* `Idemio.KeyState` — the rows of one key.
* `Idemio.KeyStep` — what can happen to them.
* `Idemio.KeyState.Sound` — one live intent as long as the last attempt may have had an
  effect, none otherwise, and as many intents as attempts.

## Main results

* `Idemio.KeyStep.sound` — a life without retention is sound.
* `Idemio.KeyState.Sound.voidLatest` — in a sound state, voiding the latest live intent voids
  the last intent and no other.
* `Idemio.KeyStep.final` — a row that is done, indeterminate or rejected is never updated.
* `Idemio.KeyStep.requestHash`, `Idemio.KeyStep.attemptCount` — what an update keeps.
* `Idemio.result_of_rejected`, `Idemio.attemptCount_pos` — what holds of every row.
-/

namespace Idemio

/-- The rows of one key. -/
structure KeyState where
  row : Option KeyRow
  intents : List IntentRow

/-- The identifier of the latest intent of a key. -/
def KeyState.lastID (st : KeyState) : Option Nat := (st.intents.map (·.intentID)).getLast?

/-- The latest intent of a key by its identifier. -/
lemma KeyState.exists_of_lastID {st : KeyState} {n : Nat} (h : st.lastID = some n) :
    ∃ older i, st.intents = older ++ [i] ∧ i.intentID = n := by
  rw [KeyState.lastID, List.getLast?_map, Option.map_eq_some_iff] at h
  obtain ⟨i, hi, rfl⟩ := h
  obtain ⟨older, heq⟩ := List.getLast?_eq_some_iff.mp hi
  exact ⟨older, i, heq, rfl⟩

/-- A key state with a row. -/
lemma KeyState.eq_mk {st : KeyState} {row : KeyRow} (h : st.row = some row) :
    st = ⟨some row, st.intents⟩ := by
  rw [← h]

/-- The key row of a claim before its verdict: inserted, or re-claimed. -/
inductive Opens (req : Request) (now : Time) : Option KeyRow → KeyRow → Prop
  | insert (tuple : Nat) : Opens req now none (insertKey req now tuple)
  | reclaim {old row : KeyRow} (h : reclaimKey now old = some row) : Opens req now (some old) row

/-- The intent that a `Complete` voids: the latest live one when it settles the key as failed,
none otherwise. -/
def Voids (args : CompleteArgs) (intents : List IntentRow) (voided : Option IntentRow) : Prop :=
  if args.status = .failed then Latest intents voided else voided = none

/-- What can happen to a key. -/
inductive KeyStep (env : Env) : KeyState → KeyState → Prop
  | claim {old : Option KeyRow} {intents : List IntentRow} {row₀ : KeyRow} {tx : ClaimTx}
      {verdict : Verdict} (hopen : Opens tx.req tx.now old row₀)
      (hverdict : Concludes env row₀ tx verdict)
      (hfresh : ∀ i ∈ intents, i.intentID ≠ tx.intent.intentID) :
      KeyStep env ⟨old, intents⟩ ⟨some tx.row, intents ++ [tx.intent]⟩
  | complete {old row : KeyRow} {intents : List IntentRow} {args : CompleteArgs} {now : Time}
      {voided : Option IntentRow} (hrow : completeKey args now old = some row)
      (hvoided : Voids args intents voided) :
      KeyStep env ⟨some old, intents⟩ ⟨some row, voidLatest now voided intents⟩
  | expire {row : KeyRow} {intents : List IntentRow} :
      KeyStep env ⟨some row, intents⟩ ⟨none, intents⟩

/-- The statuses of a key whose write happened or may still happen. -/
def Status.counts : Status → Bool
  | .pending => true
  | .done => true
  | .indeterminate => true
  | .failed => false
  | .rejected => false

/-- The live intents. -/
def liveOf (intents : List IntentRow) : List IntentRow := intents.filter (·.live)

/-- A key without a row has no intents. A key with one has as many as attempts; the last one
alone is live when the write may have happened, and none is live otherwise. -/
structure KeyState.Sound (st : KeyState) : Prop where
  absent : st.row = none → st.intents = []
  count : ∀ row, st.row = some row → row.attemptCount = st.intents.length
  live : ∀ row, st.row = some row → row.status.counts = true →
    ∃ i, liveOf st.intents = [i] ∧ st.intents.getLast? = some i
  dead : ∀ row, st.row = some row → row.status.counts = false → liveOf st.intents = []

variable {env : Env} {st st' : KeyState} {old row row₀ : KeyRow} {req : Request} {now : Time}
  {tx : ClaimTx} {verdict : Verdict} {args : CompleteArgs} {intents : List IntentRow}
  {voided : Option IntentRow}

/-- A key that was never claimed is sound. -/
lemma KeyState.sound_absent : (⟨none, []⟩ : KeyState).Sound where
  absent _ := rfl
  count row h := by cases h
  live row h := by cases h
  dead row h := by cases h

/-- A key with a row is sound when it has as many intents as attempts and its live intents are
those that its status asks for. -/
lemma KeyState.Sound.of_row (hcount : row.attemptCount = intents.length)
    (hlive : row.status.counts = true → ∃ i, liveOf intents = [i] ∧ intents.getLast? = some i)
    (hdead : row.status.counts = false → liveOf intents = []) :
    (⟨some row, intents⟩ : KeyState).Sound where
  absent h := by cases h
  count _ h := Option.some.inj h ▸ hcount
  live _ h := Option.some.inj h ▸ hlive
  dead _ h := Option.some.inj h ▸ hdead

/-! ## Claims -/

/-- A claimed row is pending. -/
lemma Opens.pending {o : Option KeyRow} (h : Opens req now o row) : row.status = .pending := by
  cases h with
  | insert tuple => rfl
  | reclaim h =>
    obtain ⟨-, rfl⟩ := reclaimKey_eq_some.mp h
    rfl

/-- A claim counts one more attempt. -/
lemma Opens.attemptCount {o : Option KeyRow} (h : Opens req now o row) :
    row.attemptCount = (o.elim 0 (·.attemptCount)) + 1 := by
  cases h with
  | insert tuple => rfl
  | reclaim h =>
    obtain ⟨-, rfl⟩ := reclaimKey_eq_some.mp h
    rfl

/-- A key is claimed only while it has no row or has failed. -/
lemma Opens.not_counts {req : Request} {now : Time} {old : Option KeyRow} {row row₀ : KeyRow}
    (h : Opens req now old row₀) (hrow : old = some row) : row.status.counts = false := by
  subst hrow
  cases h with
  | reclaim h =>
    rw [(reclaimKey_eq_some.mp h).1]
    rfl

/-- A re-claim keeps the request hash and the identity of the row. -/
lemma Opens.keeps (h : Opens req now (some old) row) :
    row.requestHash = old.requestHash ∧ row.tuple = old.tuple := by
  cases h with
  | reclaim h =>
    obtain ⟨-, rfl⟩ := reclaimKey_eq_some.mp h
    exact ⟨rfl, rfl⟩

/-- Before a claim of a sound key none of its intents is live, and there are as many as it has
had attempts. -/
lemma Opens.sound {o : Option KeyRow} (h : Opens req now o row)
    (hs : (⟨o, intents⟩ : KeyState).Sound) :
    liveOf intents = [] ∧ o.elim 0 (·.attemptCount) = intents.length := by
  cases h with
  | insert tuple =>
    have hnil : intents = [] := hs.absent rfl
    simp [hnil, liveOf]
  | reclaim h =>
    obtain ⟨hfailed, -⟩ := reclaimKey_eq_some.mp h
    exact ⟨hs.dead _ rfl (by simp [hfailed, Status.counts]), hs.count _ rfl⟩

/-- The row a claim commits is the one it opened, or that one rejected. -/
lemma Concludes.row_eq (h : Concludes env row₀ tx verdict) :
    tx.row = row₀ ∨ ∃ body detail, tx.row = rejectKey tx.now body detail row₀ := by
  cases h with
  | claimed hrow _ => exact .inl hrow
  | rejected hrow _ => exact .inr ⟨_, _, hrow⟩

/-- A verdict changes neither the hash of the row nor its count of attempts. -/
lemma Concludes.keeps (h : Concludes env row₀ tx verdict) :
    tx.row.requestHash = row₀.requestHash ∧ tx.row.attemptCount = row₀.attemptCount ∧
      tx.row.tuple = row₀.tuple := by
  rcases h.row_eq with h | ⟨body, detail, h⟩ <;> simp [h, rejectKey]

/-- The intent of a claim is live exactly when the write is claimed. -/
lemma Concludes.live (h : Concludes env row₀ tx verdict) :
    (tx.row.status = row₀.status ∧ tx.intent.live = true) ∨
      (tx.row.status = .rejected ∧ tx.intent.live = false) := by
  cases h with
  | claimed hrow hintent =>
    rw [hintent]
    exact .inl ⟨by rw [hrow], rfl⟩
  | rejected hrow hintent =>
    rw [hintent]
    exact .inr ⟨by rw [hrow]; rfl, rfl⟩

/-- A sound key is sound after a claim. -/
lemma KeyState.Sound.claim {o : Option KeyRow} (hs : (⟨o, intents⟩ : KeyState).Sound)
    (hopen : Opens tx.req tx.now o row₀) (hverdict : Concludes env row₀ tx verdict) :
    (⟨some tx.row, intents ++ [tx.intent]⟩ : KeyState).Sound := by
  obtain ⟨hnone, hcount⟩ := hopen.sound hs
  have hlive : liveOf (intents ++ [tx.intent]) = if tx.intent.live then [tx.intent] else [] := by
    simp only [liveOf, List.filter_append, List.filter_cons, List.filter_nil]
    rw [show intents.filter (·.live) = [] from hnone, List.nil_append]
  have hattempts : tx.row.attemptCount = (intents ++ [tx.intent]).length := by
    rw [hverdict.keeps.2.1, hopen.attemptCount, hcount]
    simp
  refine .of_row hattempts ?_ ?_
  · intro hcounts
    rcases hverdict.live with ⟨-, hl⟩ | ⟨hr, -⟩
    · exact ⟨tx.intent, by rw [hlive, if_pos hl], by simp⟩
    · simp [hr, Status.counts] at hcounts
  · intro hcounts
    rcases hverdict.live with ⟨hp, -⟩ | ⟨-, hl⟩
    · rw [hopen.pending] at hp
      simp [hp, Status.counts] at hcounts
    · rw [hlive, hl]
      rfl

/-! ## Completions -/

/-- Among sound intents the latest live one is the only one. -/
lemma latest_unique {i : IntentRow} (h : Latest intents voided) (hlive : liveOf intents = [i]) :
    voided = some i := by
  have hi : i ∈ liveOf intents := by simp [hlive]
  obtain ⟨hmem, hl⟩ := List.mem_filter.mp hi
  cases voided with
  | none =>
    rw [h i hmem] at hl
    cases hl
  | some j =>
    have hj : j ∈ liveOf intents := List.mem_filter.mpr ⟨h.1, h.2.1⟩
    rw [hlive, List.mem_singleton] at hj
    rw [hj]

/-- Voiding the only live intent leaves none. -/
lemma liveOf_voidLatest {i : IntentRow} (hlive : liveOf intents = [i]) :
    liveOf (voidLatest now (some i) intents) = [] := by
  rw [liveOf, List.filter_eq_nil_iff]
  intro j' hj' hl
  obtain ⟨j, hj, rfl⟩ := List.mem_map.mp hj'
  have heq := live_of_voidIntent hl
  have hji : j ∈ liveOf intents := List.mem_filter.mpr ⟨hj, heq ▸ hl⟩
  rw [hlive, List.mem_singleton] at hji
  subst hji
  simp [voidIntent, IntentRow.live] at hl

/-- A sound key is sound after a completion. -/
lemma KeyState.Sound.complete (hs : (⟨some old, intents⟩ : KeyState).Sound)
    (hrow : completeKey args now old = some row) (hvoided : Voids args intents voided) :
    (⟨some row, Idemio.voidLatest now voided intents⟩ : KeyState).Sound := by
  obtain ⟨hpending, rfl⟩ := completeKey_eq_some.mp hrow
  obtain ⟨i, hlive, hlast⟩ := hs.live old rfl (by rw [hpending]; rfl)
  have hcount := hs.count old rfl
  unfold Voids at hvoided
  split at hvoided
  · next hfailed =>
    obtain rfl := latest_unique hvoided hlive
    refine .of_row (by simpa [Idemio.voidLatest] using hcount) ?_ fun _ => liveOf_voidLatest hlive
    intro hcounts
    simp [hfailed, Status.counts] at hcounts
  · next hne =>
    subst hvoided
    refine .of_row hcount (fun _ => ⟨i, hlive, hlast⟩) ?_
    intro hcounts
    rcases args.settles with h | h | h <;> simp_all [Status.counts]

/-- **In a sound state the latest live intent is the last intent**: voiding it marks the intent
of the open attempt and leaves the others as they are. -/
theorem KeyState.Sound.voidLatest (hs : (⟨some old, intents⟩ : KeyState).Sound) (now : Time)
    (hcounts : old.status.counts = true) (hnodup : (intents.map (·.intentID)).Nodup)
    (h : Latest intents voided) :
    ∃ older i, intents = older ++ [i] ∧ voided = some i ∧
      Idemio.voidLatest now voided intents = older ++ [{ i with voidedAt := some now }] := by
  obtain ⟨i, hlive, hlast⟩ := hs.live old rfl hcounts
  obtain rfl := latest_unique h hlive
  obtain ⟨older, rfl⟩ : ∃ older, intents = older ++ [i] := by
    have := List.dropLast_append_getLast? i (by rw [hlast]; rfl)
    exact ⟨_, this.symm⟩
  refine ⟨older, i, rfl, rfl, ?_⟩
  have holder : ∀ j ∈ older, voidIntent now i.intentID i.emittedAt j = j := by
    intro j hj
    simp only [List.map_append, List.map_cons, List.map_nil, List.nodup_append] at hnodup
    have hne : j.intentID ≠ i.intentID := hnodup.2.2 _ (List.mem_map_of_mem hj) _ (by simp)
    simp [voidIntent, hne]
  simp only [Idemio.voidLatest, List.map_append, List.map_cons, List.map_nil]
  rw [List.map_congr_left holder, List.map_id']
  simp [voidIntent]

/-! ## Lives -/

/-- **A life without retention is sound.** -/
theorem KeyStep.sound (h : KeyStep env st st') (hkept : st'.row ≠ none) (hs : st.Sound) :
    st'.Sound := by
  cases h with
  | claim hopen hverdict _ => exact hs.claim hopen hverdict
  | complete hrow hvoided => exact hs.complete hrow hvoided
  | expire => exact absurd rfl hkept

/-- An attempt is open before it is settled, and settled before the next one is opened. -/
lemma KeyStep.status (h : KeyStep env ⟨some old, intents⟩ st') :
    st'.row = none ∨ old.status = .failed ∨ old.status = .pending := by
  cases h with
  | claim hopen _ _ =>
    cases hopen with
    | reclaim h => exact .inr (.inl (reclaimKey_eq_some.mp h).1)
  | complete hrow _ => exact .inr (.inr (completeKey_eq_some.mp hrow).1)
  | expire => exact .inl rfl

/-- **A row that is done, indeterminate or rejected is never updated.** -/
theorem KeyStep.final (h : KeyStep env ⟨some old, intents⟩ st')
    (hold : old.status = .done ∨ old.status = .indeterminate ∨ old.status = .rejected) :
    st'.row = none := by
  rcases h.status with h | h | h
  · exact h
  · simp [h] at hold
  · simp [h] at hold

/-- An update keeps the request hash and the identity of the row. -/
lemma KeyStep.requestHash (h : KeyStep env ⟨some old, intents⟩ st') (hrow : st'.row = some row) :
    row.requestHash = old.requestHash ∧ row.tuple = old.tuple := by
  cases h with
  | claim hopen hverdict _ =>
    cases hrow
    exact ⟨hverdict.keeps.1.trans hopen.keeps.1, hverdict.keeps.2.2.trans hopen.keeps.2⟩
  | complete h _ =>
    cases hrow
    obtain ⟨-, rfl⟩ := completeKey_eq_some.mp h
    exact ⟨rfl, rfl⟩
  | expire => cases hrow

/-- An update never lowers the count of attempts, and raises it only on a failed row. -/
lemma KeyStep.attemptCount (h : KeyStep env ⟨some old, intents⟩ st')
    (hrow : st'.row = some row) :
    row.attemptCount = old.attemptCount ∨
      (old.status = .failed ∧ row.attemptCount = old.attemptCount + 1) := by
  cases h with
  | claim hopen hverdict _ =>
    cases hrow
    cases hopen with
    | reclaim h =>
      obtain ⟨hfailed, rfl⟩ := reclaimKey_eq_some.mp h
      exact .inr ⟨hfailed, hverdict.keeps.2.1⟩
  | complete h _ =>
    cases hrow
    obtain ⟨-, rfl⟩ := completeKey_eq_some.mp h
    exact .inl rfl
  | expire => cases hrow

/-- In the whole life of a key, a rejected row has its body. -/
lemma result_of_rejected
    (h : Transition.Reachable (fun _ st' => some st') (KeyStep env) ⟨none, []⟩ st)
    (hrow : st.row = some row) (hrejected : row.status = .rejected) :
    ∃ body, row.result = some body := by
  refine h.invariant (I := fun st => ∀ row, st.row = some row → row.status = .rejected →
    ∃ body, row.result = some body) (fun _ h => by cases h) ?_ row hrow hrejected
  rintro st _ _ - ih hstep ⟨⟩ row hrow hrejected
  cases hstep with
  | claim hopen hverdict _ =>
    cases hrow
    cases hverdict with
    | claimed heq _ =>
      rw [heq, hopen.pending] at hrejected
      cases hrejected
    | rejected heq _ =>
      rw [heq]
      exact ⟨_, rfl⟩
  | @complete old row' _ args _ _ hcomplete _ =>
    cases hrow
    obtain ⟨-, rfl⟩ := completeKey_eq_some.mp hcomplete
    rcases args.settles with h | h | h <;> simp [h] at hrejected
  | expire => cases hrow

/-- In the whole life of a key, a row counts at least one attempt. -/
lemma attemptCount_pos
    (h : Transition.Reachable (fun _ st' => some st') (KeyStep env) ⟨none, []⟩ st)
    (hrow : st.row = some row) : 1 ≤ row.attemptCount := by
  refine h.invariant (I := fun st => ∀ row, st.row = some row → 1 ≤ row.attemptCount)
    (fun _ h => by cases h) ?_ row hrow
  rintro st _ _ - ih hstep ⟨⟩ row hrow
  cases hstep with
  | claim hopen hverdict _ =>
    cases hrow
    rw [hverdict.keeps.2.1, hopen.attemptCount]
    exact Nat.le_add_left _ _
  | @complete old _ _ _ _ _ hcomplete _ =>
    cases hrow
    obtain ⟨-, rfl⟩ := completeKey_eq_some.mp hcomplete
    exact ih old rfl
  | expire => cases hrow

end Idemio
