import Idemio.Properties.Orphans

set_option relaxedAutoImplicit false
set_option autoImplicit false

/-!
# Stored references can be followed

A result in the object store is found through the `result_ref` of its key. `Place` puts the object
before `Complete` stores the reference, and only a retention pass deletes objects. So without
retention every reference that is stored, or that a handler has read, can be followed, and a write
that is done is answered with its result unless the object store fails at that moment. A retention
pass deletes the objects of its rows after it has deleted the rows, and by their names; a key that
is claimed again in between has the same name for its new result, and loses it.

## Main definitions

* `Idemio.Available` — a reference is empty or there is its object.
* `Idemio.Proc.mentions` — the references that a process stores or follows.

## Main results

* `Idemio.available_of_reaches` — without retention every reference is available.
* `Idemio.references_followed` — so every stored result can be read.
* `Idemio.reference_dangles` — a run with retention in which one cannot.
-/

namespace Idemio

open Transition

/-- A reference is empty, or there is an object of its name. -/
def Available (env : Env) (sh : Shared) (r : String) : Prop :=
  r = "" ∨ env.objectStore = true ∧ sh.objects r ≠ none

/-- The references that a process is about to store or to follow. -/
def Proc.mentions : Proc → List String
  | .completing c _ => [c.args.resultRef]
  | .handler (.reclaim _ _ existing) => [existing.resultRef]
  | .handler (.await record) => [record.resultRef]
  | .handler (.existing record) => [record.resultRef]
  | _ => []

variable {env : Env} {p q : Pid} {sh sh' : Shared} {pr pr' : Proc} {a : Action} {s s' : State}
  {k : KeyID} {row : KeyRow} {r : String}

/-- What is available can be resolved when the object store answers. -/
lemma Available.resolve (h : Available env sh r) (inline : RawMessage) :
    Idemio.resolve env sh.objects true inline r ≠ none := by
  unfold Idemio.resolve
  rcases h with rfl | ⟨hstore, hobject⟩
  · simp
  · split
    · simp
    · simpa [hstore] using hobject

/-- A `Put` deletes no object. -/
lemma putResult_ne_none {result : RawMessage} {putOK : Bool} {objects : Objects}
    (hr : objects r ≠ none) : putResult env k result putOK objects r ≠ none := by
  unfold putResult
  split
  · by_cases hname : r = ref env k
    · simp [hname]
    · rwa [Function.update_of_ne hname]
  · exact hr

/-- Only a retention pass deletes objects. -/
lemma Rule.objects_kept (h : Rule env p sh pr a sh' pr') (hpr : pr.isExpire = false)
    (hr : sh.objects r ≠ none) : sh'.objects r ≠ none := by
  cases h with
  | place | placeStale => exact putResult_ne_none hr
  | deleteObjects => cases hpr
  | complete hc | completed hc | completedStale hc => rwa [hc.frame]
  | _ => exact hr

/-- What is available stays so as long as objects are kept. -/
lemma Available.mono (h : Available env sh r) (hkept : sh.objects r ≠ none → sh'.objects r ≠ none) :
    Available env sh' r :=
  h.imp_right fun ⟨hstore, hobject⟩ => ⟨hstore, hkept hobject⟩

/-- `Place` makes the reference that its `Complete` is to store available. -/
lemma available_place {attempt : Nat} {outcome : Outcome} {putOK : Bool} {tries : Nat} :
    Available env (placeResult env sh k outcome.result putOK)
      (newCompletion env k attempt outcome putOK tries).args.resultRef := by
  by_cases hput : (offloads env outcome.result && putOK) = true
  · rw [newCompletion_resultRef hput]
    refine .inr ⟨?_, by simp [putResult, hput]⟩
    simp only [offloads, Bool.and_eq_true] at hput
    exact hput.1.1.2
  · by_contra hnot
    exact hput (offloads_of_resultRef fun hempty => hnot (.inl hempty))

/-- **Where the references of a process come from**: it had them before, it has read them from a
row, or it has just put the object. -/
lemma Rule.mentions (h : Rule env p sh pr a sh' pr') (hr : r ∈ pr'.mentions) :
    r ∈ pr.mentions ∨ (∃ k row, sh.db.keys.lookup k = some row ∧ r = row.resultRef.getD "") ∨
      Available env sh' r := by
  cases h with
  | land | lose | pollExpired | reclaimAwait | reclaimExisting => exact .inl hr
  | readPending hrow | readExisting hrow | readFailed hrow | poll hrow =>
    exact .inr (.inl ⟨_, _, hrow, List.mem_singleton.mp hr⟩)
  | place | placeStale =>
    rw [List.mem_singleton.mp hr]
    exact .inr (.inr available_place)
  | complete hc =>
    rw [Proc.mentions, hc.keeps.1] at hr
    exact .inl hr
  | _ => cases hr

/-- **Without retention every reference is available**, those of the rows and those that
processes mention. -/
theorem available_of_reaches (h : Reaches env NoRetention s) :
    (∀ k row, s.shared.db.keys.lookup k = some row →
      Available env s.shared (row.resultRef.getD "")) ∧
    ∀ p, ∀ r ∈ (s.procs p).mentions, Available env s.shared r := by
  refine h.invariant (I := fun s => (∀ k row, s.shared.db.keys.lookup k = some row →
    Available env s.shared (row.resultRef.getD "")) ∧
    ∀ p, ∀ r ∈ (s.procs p).mentions, Available env s.shared r) ?_ ?_
  · exact ⟨fun k row hrow => (by cases hrow), fun p r hr => (by cases hr)⟩
  rintro s ⟨p, a⟩ s' hs ⟨hrows, hprocs⟩ - hstep
  have hrule := Rule.of_step hstep
  have hmono : ∀ {r}, Available env s.shared r → Available env s'.shared r :=
    fun hr => hr.mono (hrule.objects_kept (not_isExpire hs p))
  refine ⟨fun k row hrow => ?_, fun q r hr => ?_⟩
  · have hnew := fun {st : KeyState} (heq : s'.shared.key k = st) =>
      (congrArg KeyState.row heq).symm.trans hrow
    cases keyChange_of_step hs hstep k with
    | same hkey => exact hmono (hrows k row (hnew hkey))
    | claim _ _ _ _ hopen hverdict _ hkey =>
      obtain rfl := Option.some.inj (hnew hkey)
      exact .inl (by rw [hverdict.resultRef hopen]; rfl)
    | @complete c _ _ _ _ _ _ hp _ _ _ hcomplete _ hkey =>
      obtain rfl := Option.some.inj (hnew hkey)
      -- the reference of the row is that of the `Complete`
      rw [(completeKey_eq_some.mp hcomplete).2]
      have href := hprocs p c.args.resultRef (by rw [hp]; exact List.mem_singleton_self _)
      dsimp only
      split
      · exact .inl rfl
      · exact hmono href
    | expire _ hp => exact absurd hp (ne_expire hs)
  · by_cases hq : q = p
    · subst hq
      rcases hrule.mentions hr with hr | ⟨k, row, hrow, rfl⟩ | hr
      · exact hmono (hprocs q r hr)
      · exact hmono (hrows k row hrow)
      · exact hr
    · rw [Interleave.step_procs_of_ne hstep hq] at hr
      exact hmono (hprocs q r hr)

/-- **Stored results can be read.** In every state that the system reaches without retention,
whatever else happens: when the object store answers, the result of every key can be resolved, and
a handler that has read the record of a write that is done, however long ago, answers with `200`. -/
theorem references_followed (h : Reaches env NoRetention s) :
    (∀ k row, s.shared.db.keys.lookup k = some row →
      resolve env s.shared.objects true (readRecord env k row).result
        (readRecord env k row).resultRef ≠ none) ∧
    ∀ p record wait, s.procs p = .handler (.existing record) → record.status = .done →
      (writeExisting env s.shared.objects true wait record).code = 200 := by
  obtain ⟨hrows, hprocs⟩ := available_of_reaches h
  refine ⟨fun k row hrow => (hrows k row hrow).resolve _, fun p record wait hp hdone => ?_⟩
  have havailable := hprocs p record.resultRef (by rw [hp]; exact List.mem_singleton_self _)
  obtain ⟨result, hresult⟩ := Option.ne_none_iff_exists'.mp (havailable.resolve record.result)
  simp only [writeExisting, hdone, hresult]
  rfl

/-- The record that a handler answers from. -/
def Proc.answersFrom : Proc → Option Record
  | .handler (.existing record) => some record
  | _ => none

lemma Proc.answersFrom_eq_some {record : Record} :
    pr.answersFrom = some record ↔ pr = .handler (.existing record) := by
  unfold Proc.answersFrom
  split <;> simp_all

/-- The result of a write is in the object store, and a retry has read its record. -/
theorem references_followed_offloaded : ∃ s record, Reaches Env.small NoRetention s ∧
    s.procs 1 = .handler (.existing record) ∧ record.resultRef ≠ "" ∧
    (writeExisting Env.small s.shared.objects true 0 record).code = 200 := by
  obtain ⟨s, hrun, hs⟩ := exists_run_of_exec (step Env.small) NoRetention init
    (insertSteps 0 (.small .replace true) (.small "a" keyA) 5 [] ++
      [(0, .commit .ok), (0, .call), (0, .land), (0, .ret ⟨.done, [1, 2], ""⟩), (0, .place true),
        (0, .begin 6), (0, .update), (0, .commit .ok),
        (1, .start (.small .replace true) (.small "a" keyA)), (1, .begin 7), (1, .lock),
        (1, .insert), (1, .read)])
    (fun s => (s.procs 1).answersFrom.any fun record =>
      record.resultRef ≠ "" && record.status = .done) (by decide +kernel)
  obtain ⟨record, hp, hrecord⟩ := (Option.any_eq_true _ _).mp hs
  simp only [Bool.and_eq_true, decide_eq_true_eq] at hrecord
  have hp := Proc.answersFrom_eq_some.mp hp
  exact ⟨s, record, ⟨_, hrun⟩, hp, hrecord.1,
    (references_followed ⟨_, hrun⟩).2 1 record 0 hp hrecord.2⟩

/-- **A result is lost.** A retention pass has deleted the row of a key. Before it deletes the
object of the row, the key is claimed again, executed and recorded as done, with its result under
the same name. -/
theorem reference_dangles : ∃ s row, Reaches Env.small ErrorsRollBack s ∧
    s.shared.db.keys.lookup ⟨"a", keyA⟩ = some row ∧ row.status = .done ∧
    ¬Available Env.small s.shared (row.resultRef.getD "") := by
  obtain ⟨s, hrun, hs⟩ := exists_run_of_exec (step Env.small) ErrorsRollBack init
    (insertSteps 0 (.small .append true) (.small "a" keyA) 5 [] ++
      [(0, .commit .ok), (0, .call), (0, .land), (0, .ret ⟨.done, [1, 2], ""⟩), (0, .place true),
        (0, .begin 6), (0, .update), (0, .commit .ok),
        (1, .expire 200 [(⟨"a", keyA⟩, { KeyRow.small "a" 5 0 with
          status := .done, completedAt := some 6,
          resultRef := some (ref Env.small ⟨"a", keyA⟩) })]),
        (1, .delete), (1, .commit .ok)] ++
      insertSteps 2 (.small .append true) (.small "a" keyA) 201 [.small 1 .append "a" keyA 5] ++
      [(2, .commit .ok), (2, .call), (2, .land), (2, .ret ⟨.done, [3, 4], ""⟩), (2, .place true),
        (2, .begin 202), (2, .update), (2, .commit .ok), (1, .deleteObjects true)])
    (fun s => (s.shared.db.keys.lookup ⟨"a", keyA⟩).any fun row => row.status = .done &&
      row.resultRef.getD "" ≠ "" && (s.shared.objects (row.resultRef.getD "")).isNone)
    (by decide +kernel)
  obtain ⟨row, hrow, hs⟩ := (Option.any_eq_true _ _).mp hs
  simp only [Bool.and_eq_true, decide_eq_true_eq, Option.isNone_iff_eq_none] at hs
  obtain ⟨⟨hdone, hne⟩, hnone⟩ := hs
  refine ⟨s, row, ⟨_, hrun⟩, hrow, hdone, ?_⟩
  rintro (hempty | ⟨-, hobject⟩)
  · exact hne hempty
  · exact hobject hnone

end Idemio
