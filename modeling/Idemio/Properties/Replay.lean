import Idemio.System.Atomic

set_option relaxedAutoImplicit false
set_option autoImplicit false

/-!
# What a replay returns

A large result goes into the object store under a name derived from its key, before the database
decides whose outcome the key gets. A handler and a sweep that both record an outcome write to
the same name, and their results differ: one has the response of the downstream, the other the
record of the probe. Whoever puts last determines what every later replay returns, also when its
`Complete` then finds the key settled.

## Main definitions

* `Idemio.Shared.replay` — the bytes that `Resolve` returns for a row.
* `Idemio.Proc.touches` — the objects that a step writes or deletes.
* `Idemio.ObjectsClear` — no object is touched that a done row refers to, or that another
  process has placed for a `Complete` that is under way.

## Main results

* `Idemio.replay_overwritten` — a run in which the result of a done key changes.
* `Idemio.replays_stable` — under `ObjectsClear` a done row replays what its `Complete` placed,
  and always the same.
-/

namespace Idemio

open Transition

/-- The bytes that `Resolve` returns for a row, when the object store answers. -/
def Shared.replay (env : Env) (sh : Shared) (k : KeyID) (row : KeyRow) : Option RawMessage :=
  resolve env sh.objects true (readRecord env k row).result (readRecord env k row).resultRef

/-- The objects that a `Place` writes. -/
def placeTouches (env : Env) (k : KeyID) (outcome : Outcome) (putOK : Bool) : List String :=
  if offloads env outcome.result && putOK then [ref env k] else []

/-- The objects that a step writes or deletes. -/
def Proc.touches (env : Env) : Proc → Action → List String
  | .handler (.place own outcome), .place putOK =>
    placeTouches env own.req.keyID outcome putOK
  | .sweep (.place c outcome _), .place putOK => placeTouches env c.keyID outcome putOK
  | .expire (.objects refs), .deleteObjects ok => if ok && env.objectStore then refs else []
  | _, _ => []

/-- No step touches an object that a done row refers to, or that another process has placed for a
`Complete` that is under way. -/
def ObjectsClear (env : Env) : Assumption := fun s ia =>
  ∀ r ∈ (s.procs ia.1).touches env ia.2,
    (∀ k row, s.shared.db.keys.lookup k = some row → row.status = .done →
      row.resultRef ≠ some r) ∧
    ∀ q c caller, q ≠ ia.1 → s.procs q = .completing c caller → c.args.resultRef ≠ r

variable {env : Env} {p q : Pid} {sh sh' : Shared} {pr pr' : Proc} {a : Action} {s s' : State}
  {ok : Assumption} {k : KeyID} {row : KeyRow} {r : String}

/-! ## Objects -/

/-- A `Place` leaves the other objects alone. -/
lemma putResult_of_not_mem {outcome : Outcome} {putOK : Bool} {objects : Objects}
    (h : r ∉ placeTouches env k outcome putOK) :
    putResult env k outcome.result putOK objects r = objects r := by
  unfold putResult
  split
  · next hput =>
    rw [placeTouches, if_pos hput, List.mem_singleton] at h
    exact Function.update_of_ne h _ _
  · rfl

/-- A step leaves the objects alone that it does not touch. -/
lemma Rule.objects (h : Rule env p sh pr a sh' pr') (hr : r ∉ pr.touches env a) :
    sh'.objects r = sh.objects r := by
  cases h with
  | place | placeStale => exact putResult_of_not_mem hr
  | @deleteObjects refs ok =>
    simp only [Proc.touches, Bool.and_eq_true] at hr
    simp only [deleteObjects_objects, Bool.and_eq_true, decide_eq_true_eq]
    split
    · next hdel =>
      rw [if_pos hdel.1] at hr
      exact absurd hdel.2 hr
    · rfl
  | complete hc | completed hc | completedStale hc => rw [hc.frame]
  | _ => rfl

/-- What a `Complete` refers to is in the object store as it was placed. -/
def Placed (env : Env) (sh : Shared) : Proc → Prop
  | .completing c _ => c.args.resultRef ≠ "" →
      env.objectStore = true ∧ sh.objects c.args.resultRef = some c.body
  | _ => True

/-- The `Complete` of a result that was offloaded refers to the object that was put. -/
lemma placed_newCompletion (k : KeyID) (attempt : Nat) (outcome : Outcome) (putOK : Bool)
    (tries : Nat) (caller : Caller) (sh : Shared) :
    Placed env (placeResult env sh k outcome.result putOK)
      (.completing (newCompletion env k attempt outcome putOK tries) caller) := by
  intro hne
  change (place env k outcome.result putOK).ref ≠ "" at hne
  change env.objectStore = true ∧
    putResult env k outcome.result putOK sh.objects (place env k outcome.result putOK).ref =
      some outcome.result
  unfold place putResult at *
  split at hne
  · next hput =>
    rw [if_pos hput, if_pos hput, Function.update_self]
    simp only [offloads, Bool.and_eq_true] at hput
    exact ⟨hput.1.1.2, rfl⟩
  · exact absurd rfl hne

/-- A step of a process leaves its own placement in place. -/
lemma Rule.placed (h : Rule env p sh pr a sh' pr') (hp : Placed env sh pr) :
    Placed env sh' pr' := by
  cases h with
  | land | lose => exact hp
  | place | placeStale => exact placed_newCompletion _ _ _ _ _ _ _
  | complete hc =>
    rw [hc.frame]
    simp only [Placed, hc.keeps.1, hc.keeps.2.2]
    exact hp
  | _ => trivial

/-- **What is placed stays in place** until its `Complete` is over. -/
lemma placed_of_reaches (h : Reaches env (ObjectsClear env) s) (p : Pid) :
    Placed env s.shared (s.procs p) := by
  refine Interleave.invariant_procs (P := fun _ sh pr => Placed env sh pr) ?_ ?_ ?_ h p
  · exact fun _ => trivial
  · intro s p a sh' pr' _ hp _ hact
    exact (rule_of_act hact).placed (hp p)
  · intro s p a sh' pr' q hq _ hp hok hact
    have hpq := hp q
    unfold Placed at hpq ⊢
    split
    · next c caller heq =>
      rw [heq] at hpq
      intro hne
      obtain ⟨hstore, hobj⟩ := hpq hne
      refine ⟨hstore, ((rule_of_act hact).objects fun hmem => ?_).trans hobj⟩
      exact (hok _ hmem).2 q c caller hq heq rfl
    · trivial

/-! ## Replays -/

/-- What a row replays depends on the object it refers to alone. -/
lemma replay_congr (h : ∀ r, row.resultRef = some r → sh'.objects r = sh.objects r) :
    sh'.replay env k row = sh.replay env k row := by
  unfold Shared.replay resolve readRecord
  cases href : row.resultRef with
  | none => rfl
  | some r => simp only [Option.getD_some, h r href]

/-- A commit of a `Complete` that takes effect. -/
lemma CompleteRule.applied {c : Completion} {res : Option Completion} {now : Time}
    {voided : Option IntentRow} (h : CompleteRule p sh c a sh' res)
    (hphase : c.phase = .commit now row voided) (ha : a.commits = true) :
    sh' = sh.applyComplete p c.args.keyID now row voided := by
  cases h with
  | commit hc | unseen hc =>
    obtain ⟨rfl, rfl, rfl⟩ := CompletePhase.commit.inj (hphase.symm.trans hc)
    rfl
  | _ => cases ha

/-- The same for the process that runs it. -/
lemma Rule.applied {c : Completion} {caller : Caller} {now : Time} {voided : Option IntentRow}
    (h : Rule env p sh (.completing c caller) a sh' pr') (hphase : c.phase = .commit now row voided)
    (ha : a.commits = true) : sh' = sh.applyComplete p c.args.keyID now row voided := by
  cases h with
  | land | lose | crash => cases ha
  | complete hc | completed hc | completedStale hc => exact hc.applied hphase ha

/-- **Replays are stable**, in every run in which no step touches an object that a done row
refers to or that another process has placed for its `Complete`. When a `Complete` with an
offloaded result records its key as done, the row replays the bytes that were placed; and as
long as a row that is done stays there, it replays the same bytes. -/
theorem replays_stable (h : Reaches env (ObjectsClear env) s) :
    (∀ p a s' c caller now row voided, s.procs p = .completing c caller →
      c.phase = .commit now row voided → a.commits = true → step env s (p, a) = some s' →
      c.args.resultRef ≠ "" → s'.shared.db.keys.lookup c.args.keyID = some row ∧
        s'.shared.replay env c.args.keyID row = some c.body) ∧
    (∀ k row as t, s.shared.db.keys.lookup k = some row → row.status = .done →
      Run (step env) (fun s ia => ObjectsClear env s ia ∧
        s.shared.db.keys.lookup k = some row) s as t →
      t.shared.replay env k row = s.shared.replay env k row) := by
  refine ⟨?_, ?_⟩
  · intro p a s' c caller now row voided hp hphase ha hstep hne
    have hplaced := placed_of_reaches h p
    have hheld := (held_of_reaches h).2 p
    have hrule := Rule.of_step hstep
    rw [hp] at hplaced hheld hrule
    obtain ⟨hstore, hobj⟩ := hplaced hne
    have hheld : c.phase.Held p s.shared c.args := hheld
    rw [hphase] at hheld
    obtain ⟨old, -, hcomplete⟩ := hheld.1.updates
    obtain ⟨-, hrow⟩ := completeKey_eq_some.mp hcomplete
    have href : row.resultRef = some c.args.resultRef := by simp [hrow, hne]
    have hobj' : s'.shared.objects c.args.resultRef = some c.body :=
      (hrule.objects (by simp [Proc.touches])).trans hobj
    rw [hrule.applied hphase ha] at hobj' ⊢
    refine ⟨AList.lookup_insert _, ?_⟩
    simp only [Shared.replay, readRecord, href, resolve, Option.getD_some, if_neg hne, hstore,
      hobj']
    rfl
  · intro k row as t hrow hdone hrun
    refine hrun.stable (I := fun t => t.shared.replay env k row = s.shared.replay env k row) rfl ?_
    rintro t ⟨p, a⟩ t' hI ⟨hclear, hrow⟩ hstep
    refine (replay_congr fun r hr => (Rule.of_step hstep).objects fun hmem => ?_).trans hI
    exact (hclear r hmem).1 k row hrow hdone hr

/-- The process has placed the object `r` for its `Complete`. -/
def Proc.refersTo (r : String) : Proc → Bool
  | .completing c _ => c.args.resultRef = r
  | _ => false

/-- `ObjectsClear`, checked for a few processes when the others do nothing. -/
def objectsClear (env : Env) (pids : List Pid) (s : State) (ia : Pid × Action) : Bool :=
  decide (ia.1 ∈ pids) && ((s.procs ia.1).touches env ia.2).all fun r =>
    (s.shared.db.keys.entries.all fun e => e.2.status ≠ .done || e.2.resultRef ≠ some r) &&
      pids.all fun q => q = ia.1 || !(s.procs q).refersTo r

/-- A run that passes the checks keeps to `ObjectsClear`. -/
lemma objectsClear_of_pids {pids : List Pid}
    (h : Reaches env (fun s ia => objectsClear env pids s ia = true) s) :
    Reaches env (ObjectsClear env) s := by
  refine h.mono_of_reachable fun t ia ht hok => ?_
  have hidle : ∀ q, q ∉ pids → t.procs q = .idle := fun q hq =>
    Interleave.procs_of_not_mem (fun s ia hok => by simp_all [objectsClear]) ht hq
  simp only [objectsClear, Bool.and_eq_true, List.all_eq_true] at hok
  intro r hr
  obtain ⟨hrows, hprocs⟩ := hok.2 r hr
  refine ⟨fun k row hrow hdone => ?_, fun q c caller hq hc href => ?_⟩
  · simpa [hdone] using hrows ⟨k, row⟩ (AList.mem_lookup_iff.mp hrow)
  · by_cases hmem : q ∈ pids
    · have := hprocs q hmem
      simp [hq, hc, Proc.refersTo, href] at this
    · rw [hidle q hmem] at hc
      cases hc

/-- A handler stores a result of two bytes, and a second request finds them. -/
theorem replays_stable_retried : ∃ s s' t row, Reaches Env.small (ObjectsClear Env.small) s ∧
    step Env.small s (0, .commit .ok) = some s' ∧ row.status = .done ∧
    s'.shared.db.keys.lookup ⟨"a", keyA⟩ = some row ∧
    s'.shared.replay Env.small ⟨"a", keyA⟩ row = some [1, 2] ∧
    Reaches Env.small (ObjectsClear Env.small) t ∧
    t.shared.replay Env.small ⟨"a", keyA⟩ row = some [1, 2] := by
  obtain ⟨s, hrun, hs⟩ := exists_run_of_exec (step Env.small)
    (fun s ia => objectsClear Env.small [0] s ia = true) init
    (
      insertSteps 0 (.small .replace true) (.small "a" keyA) 5 [] ++
      [(0, .commit .ok), (0, .call), (0, .land), (0, .ret ⟨.done, [1, 2], ""⟩), (0, .place true),
        (0, .begin 6), (0, .update)])
    (fun s => (s.procs 0).completion.any fun c => c.1.phase.outcome.any fun o =>
      (step Env.small s (0, .commit .ok)).any fun s' =>
        c.1.args.keyID = ⟨"a", keyA⟩ && c.1.args.resultRef ≠ "" && c.1.body = [1, 2] &&
        o.2.1.status = .done &&
        (exec (step Env.small) (fun s ia => ((s.procs ia.1).touches Env.small ia.2).isEmpty &&
          s.shared.db.keys.lookup ⟨"a", keyA⟩ = some o.2.1) s'
          [(1, .start (.small .replace true) (.small "a" keyA)), (1, .begin 7), (1, .lock),
            (1, .insert), (1, .read)]).isSome) (by decide +kernel)
  have hreach : Reaches Env.small (ObjectsClear Env.small) s := objectsClear_of_pids ⟨_, hrun⟩
  obtain ⟨⟨c, caller⟩, hp, hs⟩ := (Option.any_eq_true _ _).mp hs
  obtain ⟨⟨now, row, voided⟩, hphase, hs⟩ := (Option.any_eq_true _ _).mp hs
  obtain ⟨s', hstep, hs⟩ := (Option.any_eq_true _ _).mp hs
  simp only [Bool.and_eq_true, decide_eq_true_eq] at hs
  obtain ⟨⟨⟨⟨hk, hne⟩, hbody⟩, hdone⟩, hs⟩ := hs
  obtain ⟨t, ht⟩ := Option.isSome_iff_exists.mp hs
  have hp := Proc.completion_eq_some.mp hp
  obtain ⟨hrow, hreplay⟩ := (replays_stable hreach).1 0 _ s' c caller now row voided hp
    (CompletePhase.outcome_eq_some.mp hphase) rfl hstep hne
  rw [hk] at hrow
  rw [hk, hbody] at hreplay
  have hreach' : Reaches Env.small (ObjectsClear Env.small) s' := by
    refine hreach.snoc (fun r hr => ?_) hstep
    rw [hp] at hr
    cases hr
  obtain ⟨as, hrun'⟩ : ∃ as, Run (step Env.small) (fun s ia => ObjectsClear Env.small s ia ∧
      s.shared.db.keys.lookup ⟨"a", keyA⟩ = some row) s' as t := by
    refine ⟨_, (run_of_exec ht).mono fun u ia hok => ⟨fun r hr => ?_, hok.2⟩⟩
    rw [List.isEmpty_iff.mp hok.1] at hr
    cases hr
  have hstable := (replays_stable hreach').2 _ row as t hrow hdone hrun'
  exact ⟨s, s', t, row, hreach, hstep, hdone, hrow, hreplay,
    hreach'.trans ⟨as, hrun'.mono fun _ _ hok => hok.1⟩, hstable.trans hreplay⟩

/-- **A result is overwritten.** A sweep selects the key of handler `0`, which is still waiting
for its call. The handler stores the response and records the key as done. The sweep's probe has
found the execution too; its `Place` replaces the object, and its `Complete` finds the key
settled. -/
theorem replay_overwritten : ∃ s s' t row as, Reaches Env.small NoRetention s ∧
    s.shared.db.keys.lookup ⟨"a", keyA⟩ = some row ∧ row.status = .done ∧
    s.shared.replay Env.small ⟨"a", keyA⟩ row = some [1, 2] ∧
    step Env.small s (1, .place true) = some s' ∧
    s'.shared.replay Env.small ⟨"a", keyA⟩ row = some [3, 4] ∧
    Run (step Env.small) NoRetention s' as t ∧
    t.shared.db.keys.lookup ⟨"a", keyA⟩ = some row ∧
    t.shared.replay Env.small ⟨"a", keyA⟩ row = some [3, 4] := by
  obtain ⟨s, hrun, hs⟩ := exists_run_of_exec (step Env.small) NoRetention init
    (
      insertSteps 0 (.small .replace true) (.small "a" keyA) 5 [] ++
      [(0, .commit .ok), (0, .call), (0, .land),
        (1, .sweep 30 [(⟨"a", keyA⟩, .small "a" 5 0)]),
        (0, .ret ⟨.done, [1, 2], ""⟩), (0, .place true), (0, .begin 31), (0, .update),
        (0, .commit .ok), (1, .resolve (.executed [3, 4]))])
    (fun s => (s.shared.db.keys.lookup ⟨"a", keyA⟩).any fun row => row.status = .done &&
      s.shared.replay Env.small ⟨"a", keyA⟩ row = some [1, 2] &&
      (step Env.small s (1, .place true)).any fun s' =>
        s'.shared.replay Env.small ⟨"a", keyA⟩ row = some [3, 4] &&
        (exec (step Env.small) NoRetention s' [(1, .begin 32), (1, .update), (1, .finish)]).any
          fun t => t.shared.db.keys.lookup ⟨"a", keyA⟩ = some row &&
            t.shared.replay Env.small ⟨"a", keyA⟩ row = some [3, 4]) (by decide +kernel)
  obtain ⟨row, hrow, hs⟩ := (Option.any_eq_true _ _).mp hs
  simp only [Bool.and_eq_true, decide_eq_true_eq] at hs
  obtain ⟨⟨hdone, hreplay⟩, hs⟩ := hs
  obtain ⟨s', hstep, hs⟩ := (Option.any_eq_true _ _).mp hs
  simp only [Bool.and_eq_true, decide_eq_true_eq] at hs
  obtain ⟨hreplay', hs⟩ := hs
  obtain ⟨t, ht, hs⟩ := (Option.any_eq_true _ _).mp hs
  simp only [Bool.and_eq_true, decide_eq_true_eq] at hs
  exact ⟨s, s', t, row, _, ⟨_, hrun⟩, hrow, hdone, hreplay, hstep, hreplay', run_of_exec ht, hs.1,
    hs.2⟩

end Idemio
