import Idemio.Api.Read
import Idemio.Properties.Finality
import Idemio.Properties.Orphans

set_option relaxedAutoImplicit false
set_option autoImplicit false

/-!
# Agents that poll

An agent posts a write. When it is told that the write is in flight (`202`), it polls
`GET /v1/writes/{key}` until it gets another code; it takes `200` and `201` to say that the write
is complete. `writeExisting` answers `202` for a pending row. `handleRead` answers `200` for every
row that it finds, so an agent that polls concludes at the first answer that its write is
complete, also when the row is still pending.

The agents run beside the handlers and the sweeps of the system. Each agent carries out one write.
For every answer that was made from a row, the record that was read for it is kept on the side.

## Main definitions

* `Idemio.Agent`, `Idemio.follow` — the states of an agent, and the documented rules.
* `Idemio.PollState`, `Idemio.pollStep` — the system with its agents.
* `Idemio.PollsSettled` — no poll finds a pending row.

## Main results

* `Idemio.poll_concludes_pending` — a run in which an agent concludes from a pending row that its
  write is complete.
* `Idemio.concludes_settled_of_pollsSettled` — this never happens if no poll finds a pending row.
* `Idemio.concludes_of_pending_poll` — it happens at every poll that does.
-/

namespace Idemio

/-! ## Agents -/

/-- An agent: about to post its write, waiting for the process that serves it, about to poll,
waiting for the answer that is made from a record, or done. An agent that has concluded that its
write is complete remembers the code of the answer and, if it was made from a row, the record. -/
inductive Agent
  | ready
  | posted (p : Pid)
  | polling
  | reading (record : Record)
  | concluded (code : Nat) (source : Option Record)
  | stopped

/-- The rules for clients: what an agent does when it gets an answer. -/
def follow (code : Nat) (source : Option Record) : Agent :=
  if code = 200 ∨ code = 201 then .concluded code source
  else if code = 202 then .polling
  else if code = 500 ∨ code = 503 then .ready
  else .stopped

/-- The system with its agents. `source` is the record that the answer of a handler was made
from. -/
structure PollState where
  sys : State
  source : Pid → Option Record
  agents : ℕ → Agent

/-- What happens: a process takes a step, an agent posts its write to an idle process or gets its
answer, an agent polls, which looks up its row, and gets its answer. -/
inductive PollAction
  | sys (p : Pid) (a : Action)
  | post (i : ℕ) (p : Pid) (snapshot : Snapshot)
  | receive (i : ℕ)
  | lookup (i : ℕ) (lookupOK : Bool)
  | reply (i : ℕ) (getOK : Bool)

/-- The record that the answer of a process is made from, after one more step of it. -/
def Proc.source (source : Option Record) : Proc → Action → Option Record
  | .handler (.existing record), .reply _ _ => some record
  | _, _ => source

/-- A process takes a step. -/
def PollState.act (env : Env) (s : PollState) (p : Pid) (a : Action) : Option PollState :=
  (step env s.sys (p, a)).map fun t =>
    { s with
      sys := t
      source := Function.update s.source p ((s.sys.procs p).source (s.source p) a) }

/-- The agent moves on. -/
def PollState.goOn (s : PollState) (i : ℕ) (agent : Agent) : PollState :=
  { s with agents := Function.update s.agents i agent }

/-- The poll of a write. -/
def WriteHTTP.poll (http : WriteHTTP) : ReadHTTP :=
  ⟨http.agentHeader, http.roleHeader, http.keyHeader⟩

/-- Where an agent stands after its poll has looked up the row. -/
def afterLookup (env : Env) (keys : Keys) (lookupOK : Bool) (http : ReadHTTP) : Agent :=
  match readKey http with
  | .error r => follow r.code none
  | .ok k =>
    match lookupRecord env keys lookupOK k with
    | .error r => follow r.code none
    | .ok record => .reading record

/-- One step of the system with its agents, where agent `i` carries out the write `writes i`. -/
def pollStep (env : Env) (writes : ℕ → WriteHTTP) (s : PollState) : PollAction → Option PollState
  | .sys p a => s.act env p a
  | .post i p snapshot =>
    match s.agents i with
    | .ready => (s.act env p (.start snapshot (writes i))).map (·.goOn i (.posted p))
    | _ => none
  | .receive i =>
    match s.agents i with
    | .posted p =>
      (s.sys.procs p).response.bind fun r =>
        (s.act env p .finish).map (·.goOn i (follow r.2.code (s.source p)))
    | _ => none
  | .lookup i lookupOK =>
    match s.agents i with
    | .polling =>
      some (s.goOn i (afterLookup env s.sys.shared.db.keys lookupOK (writes i).poll))
    | _ => none
  | .reply i getOK =>
    match s.agents i with
    | .reading record =>
      some (s.goOn i
        (follow (writeRecord env s.sys.shared.objects getOK record).code (some record)))
    | _ => none

/-- Nothing has happened yet. -/
def pollInit : PollState := ⟨init, fun _ => none, fun _ => .ready⟩

/-- No poll finds a pending row. -/
def PollsSettled (writes : ℕ → WriteHTTP) (s : PollState) : PollAction → Prop
  | .lookup i _ => ∀ k ∈ (readKey (writes i).poll).toOption,
      ∀ row ∈ s.sys.shared.db.keys.lookup k, row.status ≠ .pending
  | _ => True

instance (writes : ℕ → WriteHTTP) (s : PollState) :
    ∀ x : PollAction, Decidable (PollsSettled writes s x)
  | .lookup _ _ => inferInstanceAs (Decidable (∀ k ∈ _, ∀ row ∈ _, _))
  | .sys _ _ => .isTrue trivial
  | .post _ _ _ => .isTrue trivial
  | .receive _ => .isTrue trivial
  | .reply _ _ => .isTrue trivial

/-! ## The answers of handlers -/

variable {env : Env} {p : Pid} {sh sh' : Shared} {pr pr' : Proc} {a : Action} {k : Option KeyID}
  {r : Response} {record : Record} {writes : ℕ → WriteHTTP} {s s' : PollState} {i : ℕ}

/-- `writeExisting` answers `200` for a done record alone, and never `201`. -/
lemma done_of_writeExisting {objects : Objects} {getOK : Bool} {wait : Int} :
    ((writeExisting env objects getOK wait record).code = 200 → record.status = .done) ∧
      (writeExisting env objects getOK wait record).code ≠ 201 := by
  rcases writeExisting_code env objects getOK wait record with hcode | ⟨hcode, hdone, -⟩
  · rw [hcode]
    cases record.status <;> simp [Status.replayCode]
  · exact ⟨fun _ => hdone, by simp [hcode]⟩

/-- **Where an answer comes from**: it was there before, it was made from a record, or it is not
`200`. -/
lemma Rule.respond_cases (h : Rule env p sh pr a sh' (.handler (.respond k r))) :
    pr = .handler (.respond k r) ∨
    (∃ record getOK wait, pr = .handler (.existing record) ∧ a = .reply getOK wait ∧
      r = writeExisting env sh.objects getOK wait record) ∨
    (∀ record getOK wait, pr = .handler (.existing record) → a ≠ .reply getOK wait) ∧
      r.code ≠ 200 := by
  cases h with
  | land | lose => exact .inl rfl
  | refuse hadm =>
    have hcode := admission_error_code hadm
    refine .inr (.inr ⟨fun _ _ _ hpr => (by cases hpr), fun hr => ?_⟩)
    rw [hr] at hcode
    simp at hcode
  | reply => exact .inr (.inl ⟨_, _, _, rfl, rfl, rfl⟩)
  | claimFail =>
    exact .inr (.inr ⟨fun _ _ _ _ ha => (by cases ha), by simp [writeProblem, writeJSON]⟩)
  | @completed _ _ outcome =>
    refine .inr (.inr ⟨fun _ _ _ hpr => (by cases hpr), ?_⟩)
    unfold writeOutcome
    split <;> simp [writeJSON]
  | _ =>
    exact .inr (.inr ⟨fun _ _ _ hpr => (by cases hpr),
      by simp [writeNotExecuted, writeJSON, writeProblem, writeRaw]⟩)

/-! ## Where conclusions come from -/

/-- The records on the side are those that the answers were made from. -/
structure Sourced (env : Env) (sys : State) (source : Pid → Option Record) : Prop where
  /-- An answer that was made from a record is the one that `writeExisting` gives. -/
  made : ∀ p record, source p = some record → sys.procs p = .stopped ∨
    ∃ k objects getOK wait,
      sys.procs p = .handler (.respond k (writeExisting env objects getOK wait record))
  /-- An answer `200` was made from a record. -/
  found : ∀ p k r, sys.procs p = .handler (.respond k r) → r.code = 200 → source p ≠ none

/-- The agent has concluded from a settled record, or from the answer of a handler that has made
the call. -/
def Agent.Settled : Agent → Prop
  | .reading record => record.status ≠ .pending
  | .concluded code source =>
    (code = 200 ∧ ∃ record, source = some record ∧ record.status ≠ .pending) ∨
      (code = 201 ∧ source = none)
  | _ => True

/-- A process with an answer keeps it until it stops. -/
lemma Rule.respond_keeps (h : Rule env p sh (.handler (.respond k r)) a sh' pr') :
    pr' = .handler (.respond k r) ∨ pr' = .stopped := by
  cases h with
  | land | lose => exact .inl rfl
  | crash | finish => exact .inr rfl
  | claimFail hreq => cases hreq

lemma Rule.stopped_keeps (h : Rule env p sh .stopped a sh' pr') : pr' = .stopped := by
  cases h with
  | land | lose | crash => rfl

lemma Rule.existing_replies {getOK : Bool} {wait : Int}
    (h : Rule env p sh (.handler (.existing record)) (.reply getOK wait) sh' pr') :
    pr' = .handler (.respond (some record.keyID)
      (writeExisting env sh.objects getOK wait record)) := by
  cases h with
  | reply => rfl

/-- **A step of a process keeps the records on the side right.** -/
lemma Sourced.act {sys sys' : State} {source : Pid → Option Record} (h : Sourced env sys source)
    (hstep : step env sys (p, a) = some sys') :
    Sourced env sys' (Function.update source p ((sys.procs p).source (source p) a)) := by
  have hrule := Rule.of_step hstep
  have hother {q : Pid} (hq : q ≠ p) : sys'.procs q = sys.procs q :=
    Interleave.step_procs_of_ne hstep hq
  refine ⟨fun q record hsource => ?_, fun q k r hq hcode => ?_⟩
  · by_cases hqp : q = p
    · subst hqp
      rw [Function.update_self] at hsource
      unfold Proc.source at hsource
      split at hsource
      · next record' getOK wait hpr =>
        cases hsource
        rw [hpr] at hrule
        exact .inr ⟨_, _, _, _, hrule.existing_replies⟩
      · rcases h.made q record hsource with hpr | ⟨k, objects, getOK, wait, hpr⟩
        · rw [hpr] at hrule
          exact .inl hrule.stopped_keeps
        · rw [hpr] at hrule
          rcases hrule.respond_keeps with hpr' | hpr'
          · exact .inr ⟨k, objects, getOK, wait, hpr'⟩
          · exact .inl hpr'
    · rw [Function.update_of_ne hqp] at hsource
      rw [hother hqp]
      exact h.made q record hsource
  · by_cases hqp : q = p
    · subst hqp
      rw [Function.update_self]
      rw [hq] at hrule
      rcases hrule.respond_cases with hpr | ⟨record, getOK, wait, hpr, rfl, -⟩ | ⟨-, hne⟩
      · rw [hpr]
        exact h.found q k r hpr hcode
      · simp [hpr, Proc.source]
      · exact absurd hcode hne
    · rw [Function.update_of_ne hqp]
      rw [hother hqp] at hq
      exact h.found q k r hq hcode

/-- What an agent concludes from an answer is right, if the answer was made from a settled record
or not made from one. -/
lemma settled_follow {code : Nat} {source : Option Record}
    (hread : code = 200 → ∃ record, source = some record ∧ record.status ≠ .pending)
    (hmade : code = 201 → source = none) : (follow code source).Settled := by
  unfold follow
  split
  · next hcode =>
    rcases hcode with hcode | hcode
    · exact .inl ⟨hcode, hread hcode⟩
    · exact .inr ⟨hcode, hmade hcode⟩
  · repeat' split
    · trivial
    · trivial
    · trivial

/-- The answer to a read is `200` or an error. -/
lemma writeRecord_code_ne {objects : Objects} {getOK : Bool} :
    (writeRecord env objects getOK record).code ≠ 201 := by
  unfold writeRecord
  split <;> simp [writeJSON]

/-- A poll that finds no pending row, or none at all, concludes nothing wrong. -/
lemma settled_afterLookup {keys : Keys} {lookupOK : Bool} {http : ReadHTTP}
    (hsettled : ∀ k ∈ (readKey http).toOption, ∀ row ∈ keys.lookup k, row.status ≠ .pending) :
    (afterLookup env keys lookupOK http).Settled := by
  unfold afterLookup
  cases hk : readKey http with
  | error r =>
    have hcode := code_of_readKey_error hk
    refine settled_follow (fun h => ?_) fun _ => rfl
    rw [h] at hcode
    simp at hcode
  | ok k =>
    dsimp only
    cases hrecord : lookupRecord env keys lookupOK k with
    | error r =>
      have hcode := code_of_lookupRecord_error hrecord
      refine settled_follow (fun h => ?_) fun _ => rfl
      rw [h] at hcode
      simp at hcode
    | ok record =>
      obtain ⟨row, hrow, rfl⟩ := lookupRecord_ok hrecord
      exact hsettled k (by rw [hk]; rfl) row hrow

/-- The invariant: the records on the side are right, and no agent has gone wrong. -/
structure PollInv (env : Env) (s : PollState) : Prop where
  sourced : Sourced env s.sys s.source
  settled : ∀ i, (s.agents i).Settled

lemma PollInv.goOn (h : PollInv env s) {agent : Agent} (hagent : agent.Settled) :
    PollInv env (s.goOn i agent) := by
  refine ⟨h.sourced, fun j => ?_⟩
  by_cases hj : j = i
  · subst hj
    simpa [PollState.goOn] using hagent
  · simpa [PollState.goOn, hj] using h.settled j

lemma PollInv.act (h : PollInv env s) (hstep : s.act env p a = some s') : PollInv env s' := by
  obtain ⟨t, ht, rfl⟩ := Option.map_eq_some_iff.mp hstep
  exact ⟨h.sourced.act ht, h.settled⟩

/-- The answer of a handler leads an agent to a right conclusion. -/
lemma PollInv.settled_receive (h : PollInv env s)
    (hp : s.sys.procs p = .handler (.respond k r)) : (follow r.code (s.source p)).Settled := by
  refine settled_follow (fun hcode => ?_) (fun hcode => ?_)
  · obtain ⟨record, hrecord⟩ := Option.ne_none_iff_exists'.mp (h.sourced.found p k r hp hcode)
    refine ⟨record, hrecord, ?_⟩
    rcases h.sourced.made p record hrecord with hp' | ⟨_, _, _, _, hp'⟩
    · cases hp.symm.trans hp'
    · cases hp.symm.trans hp'
      simp [done_of_writeExisting.1 hcode]
  · by_contra hsource
    obtain ⟨record, hrecord⟩ := Option.ne_none_iff_exists'.mp hsource
    rcases h.sourced.made p record hrecord with hp' | ⟨_, _, _, _, hp'⟩
    · cases hp.symm.trans hp'
    · cases hp.symm.trans hp'
      exact done_of_writeExisting.2 hcode

/-- **One step keeps the invariant**, if it is no poll that finds a pending row. -/
lemma PollInv.step {x : PollAction} (h : PollInv env s) (hx : PollsSettled writes s x)
    (hstep : pollStep env writes s x = some s') : PollInv env s' := by
  cases x with
  | sys p a => exact h.act hstep
  | post i p snapshot =>
    rw [pollStep] at hstep
    split at hstep
    · obtain ⟨t, hact, rfl⟩ := Option.map_eq_some_iff.mp hstep
      exact (h.act hact).goOn trivial
    · cases hstep
  | receive i =>
    rw [pollStep] at hstep
    split at hstep
    · next p hi =>
      obtain ⟨⟨k, r⟩, hr, hstep⟩ := Option.bind_eq_some_iff.mp hstep
      obtain ⟨t, hact, rfl⟩ := Option.map_eq_some_iff.mp hstep
      exact (h.act hact).goOn (h.settled_receive (Proc.response_eq_some.mp hr))
    · cases hstep
  | lookup i lookupOK =>
    rw [pollStep] at hstep
    split at hstep
    · cases hstep
      apply h.goOn
      apply settled_afterLookup
      exact hx
    · cases hstep
  | reply i getOK =>
    rw [pollStep] at hstep
    split at hstep
    · next record hi =>
      cases hstep
      have hrecord := h.settled i
      rw [hi] at hrecord
      exact h.goOn (settled_follow (fun _ => ⟨record, rfl, hrecord⟩)
        fun hcode => absurd hcode writeRecord_code_ne)
    · cases hstep

/-- **Polling is sound while no poll finds a pending row.** In every run whose polls find no
pending row, every agent that concludes that its write is complete does so from a record that is
not pending, or because the handler of its own request has made the call.

**Proof sketch.** A handler answers `200` only from a done record. An answer to a poll is made from
the record that the poll has found, whatever its status. -/
theorem concludes_settled_of_pollsSettled {code : Nat} {source : Option Record}
    (h : Transition.Reachable (pollStep env writes) (PollsSettled writes) pollInit s)
    (hi : s.agents i = .concluded code source) :
    (code = 200 ∧ ∃ record, source = some record ∧ record.status ≠ .pending) ∨
      (code = 201 ∧ source = none) := by
  have hinv : PollInv env s := by
    refine h.invariant (I := PollInv env) ⟨⟨?_, ?_⟩, fun _ => trivial⟩ ?_
    · rintro p record ⟨⟩
    · rintro p k r ⟨⟩
    · exact fun s x s' _ hI hx hstep => hI.step hx hstep
  have hsettled := hinv.settled i
  rw [hi] at hsettled
  exact hsettled

/-- The processes of the system with agents are those of the system. -/
lemma reaches_sys {ok : PollState → PollAction → Prop}
    (h : Transition.Reachable (pollStep env writes) ok pollInit s) :
    Reaches env (fun _ _ => True) s.sys := by
  refine Transition.Reachable.map _ _ PollState.sys h ?_
  have hact {s s' : PollState} {p : Pid} {a : Action} (h : s.act env p a = some s') :
      ∃ ia, True ∧ step env s.sys ia = some s'.sys := by
    obtain ⟨t, ht, rfl⟩ := Option.map_eq_some_iff.mp h
    exact ⟨(p, a), trivial, ht⟩
  intro s x s' _ _ hstep
  cases x with
  | sys p a => exact .inr (hact hstep)
  | post i p snapshot =>
    rw [pollStep] at hstep
    split at hstep
    · obtain ⟨t, ht, rfl⟩ := Option.map_eq_some_iff.mp hstep
      have hsys := hact ht
      exact .inr hsys
    · cases hstep
  | receive i =>
    rw [pollStep] at hstep
    split at hstep
    · obtain ⟨r, -, hstep⟩ := Option.bind_eq_some_iff.mp hstep
      obtain ⟨t, ht, rfl⟩ := Option.map_eq_some_iff.mp hstep
      have hsys := hact ht
      exact .inr hsys
    · cases hstep
  | lookup i lookupOK =>
    rw [pollStep] at hstep
    split at hstep
    · cases hstep
      exact .inl rfl
    · cases hstep
  | reply i getOK =>
    rw [pollStep] at hstep
    split at hstep
    · cases hstep
      exact .inl rfl
    · cases hstep

/-- **Every poll that finds a pending row goes wrong**: its answer is `200`, because a pending row
refers to no object that could be missing. -/
theorem concludes_of_pending_poll {ok : PollState → PollAction → Prop} {k : KeyID} {row : KeyRow}
    (h : Transition.Reachable (pollStep env writes) ok pollInit s) (hi : s.agents i = .polling)
    (hk : readKey (writes i).poll = .ok k) (hrow : s.sys.shared.db.keys.lookup k = some row)
    (hpending : row.status = .pending) (getOK : Bool) :
    ∃ s₁ s₂ record, pollStep env writes s (.lookup i true) = some s₁ ∧
      pollStep env writes s₁ (.reply i getOK) = some s₂ ∧
      s₂.agents i = .concluded 200 (some record) ∧ record.status = .pending := by
  have href := resultRef_of_pending (reaches_sys h) k row hrow hpending
  have hlookup : afterLookup env s.sys.shared.db.keys true (writes i).poll =
      .reading (readRecord env k row) := by
    simp [afterLookup, hk, lookupRecord, hrow]
  have hcode : (writeRecord env s.sys.shared.objects getOK (readRecord env k row)).code = 200 := by
    simp [writeRecord, resolve, readRecord, href, writeJSON]
  refine ⟨s.goOn i (.reading (readRecord env k row)),
    (s.goOn i (.reading (readRecord env k row))).goOn i
      (.concluded 200 (some (readRecord env k row))), readRecord env k row, ?_, ?_, ?_, hpending⟩
  · simp [pollStep, hi, hlookup]
  · simp [pollStep, PollState.goOn, hcode, follow]
  · simp [PollState.goOn]

/-- What an agent has concluded, and from which record. -/
def Agent.conclusion : Agent → Option (Nat × Option Record)
  | .concluded code source => some (code, source)
  | _ => none

lemma Agent.conclusion_eq_some {agent : Agent} {code : Nat} {source : Option Record} :
    agent.conclusion = some (code, source) ↔ agent = .concluded code source := by
  cases agent <;> simp [Agent.conclusion]

/-- The agent posts its write to process `0`, which claims the key but sees an error, and answers
`500`. So the agent posts the write again, to process `1`, and is answered `202`. -/
def inFlightSteps (snapshot : Snapshot) : List PollAction :=
  [.post 0 0 snapshot, .sys 0 (.begin 5), .sys 0 .lock, .sys 0 .insert, .sys 0 .record,
    .sys 0 (.window []), .sys 0 (.commit .unseen), .receive 0,
    .post 0 1 snapshot, .sys 1 (.begin 6), .sys 1 .lock, .sys 1 .insert, .sys 1 .read,
    .sys 1 (.reply true 100), .receive 0]

/-- A sweep finds that the write was executed, and records it before the agent polls. -/
theorem concludes_settled_swept : ∃ s record,
    Transition.Reachable (pollStep Env.small fun _ => .small "a" keyA)
      (PollsSettled fun _ => .small "a" keyA) pollInit s ∧
    s.agents 0 = .concluded 200 (some record) ∧ record.status ≠ .pending := by
  obtain ⟨s, hrun, hs⟩ := Transition.exists_run_of_exec
    (pollStep Env.small fun _ => .small "a" keyA) (PollsSettled fun _ => .small "a" keyA) pollInit
    (inFlightSteps (.small .replace true) ++
      [.sys 2 (.sweep 30 [(⟨"a", keyA⟩, .small "a" 5 0)]), .sys 2 (.resolve (.executed [7])),
        .sys 2 (.place true), .sys 2 (.begin 31), .sys 2 .update, .sys 2 (.commit .ok),
        .lookup 0 true, .reply 0 true])
    (fun s => (s.agents 0).conclusion.any fun c => c.1 = 200 && c.2.isSome) (by decide +kernel)
  obtain ⟨⟨code, source⟩, hagent, hcode⟩ := (Option.any_eq_true _ _).mp hs
  simp only [Bool.and_eq_true, decide_eq_true_eq] at hcode
  obtain ⟨rfl, hsource⟩ := hcode
  have hagent := Agent.conclusion_eq_some.mp hagent
  rcases concludes_settled_of_pollsSettled ⟨_, hrun⟩ hagent with
    ⟨-, record, rfl, hstatus⟩ | ⟨hcode, -⟩
  · exact ⟨s, record, ⟨_, hrun⟩, hagent, hstatus⟩
  · cases hcode

/-- **An agent concludes from a pending row that its write is complete**, although no call for it
was ever executed. -/
theorem poll_concludes_pending : ∃ s record,
    Transition.Reachable (pollStep Env.small fun _ => .small "a" keyA) (fun _ _ => True)
      pollInit s ∧
    s.agents 0 = .concluded 200 (some record) ∧ record.status = .pending ∧
    (∃ row, s.sys.shared.db.keys.lookup ⟨"a", keyA⟩ = some row ∧ row.status = .pending) ∧
    s.sys.shared.ledger = [] := by
  obtain ⟨s, hrun, hs⟩ := Transition.exists_run_of_exec
    (pollStep Env.small fun _ => .small "a" keyA) (fun _ _ => True) pollInit
    (inFlightSteps (.small .replace true) ++ [.lookup 0 true, .reply 0 true])
    (fun s => ((s.agents 0).conclusion.any fun c => c.1 = 200 &&
      c.2.any fun record => record.status = .pending) &&
      ((s.sys.shared.db.keys.lookup ⟨"a", keyA⟩).any fun row => row.status = .pending) &&
      s.sys.shared.ledger = [])
    (by decide +kernel)
  simp only [Bool.and_eq_true, decide_eq_true_eq] at hs
  obtain ⟨⟨hconcluded, hrow⟩, hledger⟩ := hs
  obtain ⟨⟨code, source⟩, hagent, hcode⟩ := (Option.any_eq_true _ _).mp hconcluded
  simp only [Bool.and_eq_true, decide_eq_true_eq] at hcode
  obtain ⟨rfl, hsource⟩ := hcode
  obtain ⟨record, rfl, hpending⟩ := (Option.any_eq_true _ _).mp hsource
  obtain ⟨row, hrow, hstatus⟩ := (Option.any_eq_true _ _).mp hrow
  exact ⟨s, record, ⟨_, hrun⟩, Agent.conclusion_eq_some.mp hagent, of_decide_eq_true hpending,
    ⟨row, hrow, of_decide_eq_true hstatus⟩, hledger⟩

end Idemio
