import Idemio.Api.Response

set_option relaxedAutoImplicit false
set_option autoImplicit false

/-!
# The downstream call

`Client.Execute` makes one `POST` and reports it as done, failed or indeterminate. Failed stands
for a proof that the write did not happen: the connection was never dialed, or the downstream
declined the request with a status that its manifest declares as not executed. The HTTP client
follows redirects, though. A `POST` that is answered with one of them has been received, and
what then becomes of the `GET` that follows it says nothing about the write.

One call of `Execute` is given by what the encoder and `net/http` make of it (`Attempt`): its
`n`-th request meets the hop `hops n`, the `POST` the hop `hops 0`.

## Main definitions

* `Idemio.StatusRange`, `Idemio.ErrorClassification` — the declared statuses.
* `Idemio.Hop`, `Idemio.doFrom` — what becomes of one request, and `http.Client.Do`.
* `Idemio.execute` — `Client.Execute`.
* `Idemio.Proven` — the `POST` was not transmitted, or was itself declined.
* `Idemio.Misled` — a redirect was followed, and a later request was not dialed or was declined.

## Main results

* `Idemio.execute_failed_iff` — when a call is reported as failed.
* `Idemio.failed_proven_iff` — the report is proven exactly if the call was not misled.
-/

namespace Idemio

/-! ## Declared statuses -/

/-- `manifest.StatusRange`. -/
structure StatusRange where
  lower : Int
  upper : Int
  deriving DecidableEq, Repr

/-- `StatusRange.contains`. -/
def StatusRange.contains (r : StatusRange) (status : Int) : Bool :=
  decide (status ≥ r.lower) && decide (status ≤ r.upper)

/-- `manifest.ErrorClassification`. -/
structure ErrorClassification where
  definitive : List StatusRange
  notExecuted : List StatusRange
  deriving DecidableEq, Repr

/-- `ErrorClassification.IsDefinitive`. -/
def ErrorClassification.isDefinitive (c : ErrorClassification) (status : Int) : Bool :=
  c.definitive.any (·.contains status)

/-- `ErrorClassification.IsNotExecuted`. -/
def ErrorClassification.isNotExecuted (c : ErrorClassification) (status : Int) : Bool :=
  c.notExecuted.any (·.contains status)

/-- The status is declared as not executed and not as definitive. -/
def ErrorClassification.declines (c : ErrorClassification) (status : Int) : Bool :=
  c.isNotExecuted status && !c.isDefinitive status

/-! ## The HTTP client -/

/-- The `Location` header of a response: there is none, it cannot be parsed, or it names where
to go on, and `quoted` is what `%q` prints of it. -/
inductive Location
  | missing
  | malformed (err : String)
  | target (quoted : String)
  deriving DecidableEq, Repr

/-- What becomes of one request: no connection could be dialed, it failed after that, or it was
answered. The body of an answer may be unreadable. The texts are those of the errors as `Do`
returns them, except that the one of a `notDialed` is what it wraps. -/
inductive Hop
  | notDialed (err : String)
  | broken (err : String)
  | response (status : Int) (location : Location) (body : Except String RawMessage)

/-- The errors of `Do`: one that wraps `notDialed`, or another one. -/
inductive TransportError
  | notDialed (err : String)
  | other (err : String)

/-- The statuses on which the client goes on with a bodyless `GET`. It does not follow `307` and
`308`, because `GetBody` is nil. -/
def redirects (status : Int) : Bool := status = 301 || status = 302 || status = 303

/-- Where the client goes on, if it sends another request. -/
def Hop.next : Hop → Option String
  | .response status (.target quoted) _ => if redirects status then some quoted else none
  | _ => none

/-- The client sends another request. -/
def Hop.follows (h : Hop) : Bool := h.next.isSome

/-- What `Do` returns when it does not send another request. -/
def Hop.result : Hop → Except TransportError (Int × Except String RawMessage)
  | .notDialed err => .error (.notDialed err)
  | .broken err => .error (.other err)
  | .response status location body =>
    match location with
    | .malformed err => if redirects status then .error (.other err) else .ok (status, body)
    | _ => .ok (status, body)

/-- `http.Client.Do`, from its `n`-th request on, when it may send `left` more. The error of
`CheckRedirect` comes with the method of the first request and the header that was not followed,
`quoted`. -/
def doFrom (hops : Nat → Hop) (left : Nat) (quoted : String) (n : Nat) :
    Except TransportError (Int × Except String RawMessage) :=
  match left with
  | 0 => .error (.other ("Post " ++ quoted ++ ": stopped after 10 redirects"))
  | left + 1 =>
    match (hops n).next with
    | some quoted => doFrom hops left quoted (n + 1)
    | none => (hops n).result

/-- The number of requests that one `Do` may send. -/
def maxRequests : Nat := 10

/-! ## `Execute` -/

/-- What one call meets: whether the body can be encoded and the request built, what becomes of
the requests, and the JSON library. -/
structure Attempt where
  encoded : Except String RawMessage
  built : Except String Unit
  hops : Nat → Hop
  /-- `json.Valid`. -/
  valid : RawMessage → Bool
  /-- `json.Marshal` of an object whose only field `raw` is this text. -/
  marshalRaw : RawMessage → Except String RawMessage

/-- `asJSON`. -/
def Attempt.asJSON (t : Attempt) (payload : RawMessage) : RawMessage :=
  if t.valid payload then payload
  else
    match t.marshalRaw payload with
    | .error _ => [123, 34, 114, 97, 119, 34, 58, 34, 34, 125]
    | .ok encoded => encoded

/-- `classifyTransportError`. -/
def classifyTransportError : TransportError → Outcome
  | .notDialed err => ⟨.failed, [], "downstream_unreachable: " ++ err⟩
  | .other err => ⟨.indeterminate, [], "downstream_timeout_after_send: " ++ err⟩

/-- `classifyResponse`. -/
def classifyResponse (t : Attempt) (c : ErrorClassification) (status : Int)
    (payload : RawMessage) : Outcome :=
  if c.isDefinitive status then ⟨.done, t.asJSON payload, ""⟩
  else if c.isNotExecuted status then
    ⟨.failed, t.asJSON payload, "downstream_declined_status_" ++ toString status⟩
  else ⟨.indeterminate, t.asJSON payload, "downstream_status_" ++ toString status⟩

/-- What `Execute` makes of the result of `Do`. -/
def classify (t : Attempt) (c : ErrorClassification) :
    Except TransportError (Int × Except String RawMessage) → Outcome
  | .error err => classifyTransportError err
  | .ok (_, .error err) => ⟨.indeterminate, [], "read response after send: " ++ err⟩
  | .ok (status, .ok payload) => classifyResponse t c status payload

/-- `Client.Execute`. -/
def execute (t : Attempt) (c : ErrorClassification) : Outcome :=
  match t.encoded with
  | .error err => ⟨.failed, [], "encode request: " ++ err⟩
  | .ok _ =>
    match t.built with
    | .error err => ⟨.failed, [], "build request: " ++ err⟩
    | .ok _ => classify t c (doFrom t.hops maxRequests "" 0)

/-! ## Chains of redirects -/

/-- The first `n` requests were all redirected, and the one at `n` was not. -/
structure EndsAt (hops : Nat → Hop) (n : Nat) : Prop where
  followed : ∀ i < n, (hops i).follows = true
  ended : (hops n).follows = false

/-- A chain of redirects ends once. -/
lemma EndsAt.unique {hops : Nat → Hop} {n m : Nat} (hn : EndsAt hops n) (hm : EndsAt hops m) :
    m = n := by
  rcases Nat.lt_trichotomy m n with hlt | heq | hgt
  · exact absurd (hn.followed m hlt) (by simp [hm.ended])
  · exact heq
  · exact absurd (hm.followed n hgt) (by simp [hn.ended])

lemma Hop.next_of_follows {h : Hop} (hfollows : h.follows = true) :
    ∃ quoted, h.next = some quoted :=
  Option.isSome_iff_exists.mp hfollows

lemma Hop.next_of_ended {h : Hop} (hended : h.follows = false) : h.next = none := by
  simpa [Hop.follows] using hended

/-- `Do` returns what became of the request that the chain of redirects ends at. -/
lemma doFrom_of_ended {hops : Nat → Hop} {left n m : Nat} {quoted : String} (hnm : n ≤ m)
    (hm : m < n + left) (hfollowed : ∀ i, n ≤ i → i < m → (hops i).follows = true)
    (hended : (hops m).follows = false) : doFrom hops left quoted n = (hops m).result := by
  induction left generalizing n quoted with
  | zero => omega
  | succ left ih =>
    rcases Nat.eq_or_lt_of_le hnm with rfl | hlt
    · rw [doFrom, Hop.next_of_ended hended]
    · obtain ⟨next, hnext⟩ := Hop.next_of_follows (hfollowed n le_rfl hlt)
      rw [doFrom, hnext]
      exact ih hlt (by omega) fun i hi => hfollowed i (by omega)

/-- `Do` gives up if every request that it may send is redirected. -/
lemma doFrom_of_followed {hops : Nat → Hop} {left n : Nat} {quoted : String}
    (hfollowed : ∀ i, n ≤ i → i < n + left → (hops i).follows = true) :
    ∃ err, doFrom hops left quoted n = .error (.other err) := by
  induction left generalizing n quoted with
  | zero => exact ⟨_, rfl⟩
  | succ left ih =>
    obtain ⟨next, hnext⟩ := Hop.next_of_follows (hfollowed n le_rfl (by omega))
    rw [doFrom, hnext]
    exact ih fun i hi hlt => hfollowed i (by omega) (by omega)

/-- A chain of redirects ends at one of the first `left` requests, or none of these ends it. -/
lemma endsAt_or_followed (hops : Nat → Hop) (left : Nat) :
    (∃ n < left, EndsAt hops n) ∨ ∀ i < left, (hops i).follows = true := by
  induction left with
  | zero => exact .inr fun i hi => absurd hi (Nat.not_lt_zero i)
  | succ left ih =>
    rcases ih with ⟨n, hn, hends⟩ | hall
    · exact .inl ⟨n, by omega, hends⟩
    · cases hlast : (hops left).follows with
      | false => exact .inl ⟨left, by omega, hall, hlast⟩
      | true =>
        refine .inr fun i hi => ?_
        rcases Nat.lt_succ_iff_lt_or_eq.mp hi with hlt | rfl
        · exact hall i hlt
        · exact hlast

/-! ## Failed calls -/

/-- The request was not dialed, or was answered with a status that declines it. -/
inductive Refuses (c : ErrorClassification) : Hop → Prop
  | notDialed (err : String) : Refuses c (.notDialed err)
  | declined {status : Int} {location : Location} (payload : RawMessage)
      (hdeclines : c.declines status = true)
      (hlocation : redirects status = true → location = .missing) :
      Refuses c (.response status location (.ok payload))

/-- A response is reported as failed if its status is declined. -/
lemma classifyResponse_failed {t : Attempt} {c : ErrorClassification} {status : Int}
    {payload : RawMessage} :
    (classifyResponse t c status payload).disposition = .failed ↔ c.declines status = true := by
  unfold classifyResponse ErrorClassification.declines
  cases c.isDefinitive status <;> cases c.isNotExecuted status <;> simp

/-- `Do` returns a response, unless it would follow it and cannot parse where to. -/
lemma Hop.result_response {status : Int} {location : Location} {body : Except String RawMessage}
    (hparsed : ∀ err, location = .malformed err → redirects status = false) :
    (Hop.response status location body).result = .ok (status, body) := by
  cases location with
  | malformed err => simp [Hop.result, hparsed err rfl]
  | missing => rfl
  | target => rfl

/-- A chain of redirects is reported as failed if the request that it ends at was refused. -/
lemma classify_result_failed {t : Attempt} {c : ErrorClassification} {h : Hop}
    (hended : h.follows = false) :
    (classify t c h.result).disposition = .failed ↔ Refuses c h := by
  constructor
  · intro hfailed
    cases h with
    | notDialed err => exact .notDialed err
    | broken err => cases hfailed
    | response status location body =>
      have hparsed : ∀ err, location = .malformed err → redirects status = false := by
        rintro err rfl
        refine Bool.eq_false_iff.mpr fun hred => ?_
        simp [Hop.result, hred, classify, classifyTransportError] at hfailed
      rw [Hop.result_response hparsed] at hfailed
      cases body with
      | error err => cases hfailed
      | ok payload =>
        refine .declined payload (classifyResponse_failed.mp hfailed) fun hred => ?_
        cases location with
        | missing => rfl
        | malformed err => cases hred.symm.trans (hparsed err rfl)
        | target quoted => simp [Hop.follows, Hop.next, hred] at hended
  · intro hrefuses
    cases hrefuses with
    | notDialed err => rfl
    | @declined status location payload hdeclines hlocation =>
      have hparsed : ∀ err, location = .malformed err → redirects status = false := by
        rintro err rfl
        exact Bool.eq_false_iff.mpr fun hred => by cases hlocation hred
      rw [Hop.result_response hparsed]
      exact classifyResponse_failed.mpr hdeclines

/-- The request was never handed to the HTTP client. -/
def Attempt.unsent (t : Attempt) : Bool := !t.encoded.isOk || !t.built.isOk

/-- **When a call is reported as failed**: it was never sent, or the chain of redirects ends at a
request that was refused. -/
theorem execute_failed_iff {t : Attempt} {c : ErrorClassification} :
    (execute t c).disposition = .failed ↔
      t.unsent = true ∨ ∃ n < maxRequests, EndsAt t.hops n ∧ Refuses c (t.hops n) := by
  unfold execute Attempt.unsent
  cases t.encoded with
  | error err => simp [Except.isOk, Except.toBool]
  | ok body =>
    cases t.built with
    | error err => simp [Except.isOk, Except.toBool]
    | ok request =>
      simp only [Except.isOk, Except.toBool, Bool.not_true, Bool.or_self, Bool.false_eq_true,
        false_or]
      rcases endsAt_or_followed t.hops maxRequests with ⟨n, hn, hends⟩ | hall
      · rw [doFrom_of_ended (Nat.zero_le n) (by omega) (fun i _ => hends.followed i) hends.ended,
          classify_result_failed hends.ended]
        constructor
        · exact fun hrefuses => ⟨n, hn, hends, hrefuses⟩
        · rintro ⟨m, -, hends', hrefuses⟩
          rwa [hends.unique hends'] at hrefuses
      · have hstopped : ∃ err, doFrom t.hops maxRequests "" 0 = .error (.other err) :=
          doFrom_of_followed fun i _ hi => hall i (by omega)
        obtain ⟨err, herr⟩ := hstopped
        rw [herr]
        constructor
        · intro hfailed
          cases hfailed
        · rintro ⟨m, hm, hends, -⟩
          exact absurd (hall m hm) (by simp [hends.ended])

/-! ## Proof of non-execution -/

/-- The `POST` was not transmitted to any server, or its own response declines it. -/
inductive Proven (t : Attempt) (c : ErrorClassification) : Prop
  | unsent (hunsent : t.unsent = true)
  | notDialed (err : String) (hhop : t.hops 0 = .notDialed err)
  | declined {status : Int} {location : Location} {body : Except String RawMessage}
      (hhop : t.hops 0 = .response status location body) (hdeclines : c.declines status = true)

/-- The client followed the response to the `POST`, which does not decline it, and a later
request was refused. -/
structure Misled (t : Attempt) (c : ErrorClassification) : Prop where
  sent : t.unsent = false
  answered : ∀ status location body, t.hops 0 = .response status location body →
    c.declines status = false
  refused : ∃ n, 0 < n ∧ n < maxRequests ∧ EndsAt t.hops n ∧ Refuses c (t.hops n)

/-- **A failed call is proven exactly if it was not misled**: `Execute` reports only what
provably did not happen as failed, unless a redirect was followed and the request that the
chain of redirects ends at was not dialed or was declined. -/
theorem failed_proven_iff (t : Attempt) (c : ErrorClassification) :
    ((execute t c).disposition = .failed → Proven t c) ↔ ¬ Misled t c := by
  constructor
  · rintro hproven ⟨hsent, hanswered, n, hpos, hn, hends, hrefuses⟩
    have hfollows := hends.followed 0 hpos
    rcases hproven (execute_failed_iff.mpr (.inr ⟨n, hn, hends, hrefuses⟩)) with
      hunsent | ⟨err, hhop⟩ | ⟨hhop, hdeclines⟩
    · rw [hsent] at hunsent
      cases hunsent
    · rw [hhop] at hfollows
      cases hfollows
    · rw [hanswered _ _ _ hhop] at hdeclines
      cases hdeclines
  · intro hmisled hfailed
    rcases execute_failed_iff.mp hfailed with hunsent | ⟨n, hn, hends, hrefuses⟩
    · exact .unsent hunsent
    · by_contra hnot
      refine hmisled ⟨?_, ?_, n, ?_, hn, hends, hrefuses⟩
      · exact Bool.eq_false_iff.mpr fun hunsent => hnot (.unsent hunsent)
      · intro status location body hhop
        exact Bool.eq_false_iff.mpr fun hdeclines => hnot (.declined hhop hdeclines)
      · -- The `POST` itself was not refused: that would have been a proof.
        refine Nat.pos_of_ne_zero ?_
        rintro rfl
        generalize hhop : t.hops 0 = h at hrefuses
        cases hrefuses with
        | notDialed err => exact hnot (.notDialed err hhop)
        | declined payload hdeclines _ => exact hnot (.declined hhop hdeclines)

/-- A `POST` that is answered with `302`, where no connection to the target can be dialed. -/
def Attempt.redirected : Attempt where
  encoded := .ok [123, 125]
  built := .ok ()
  hops
    | 0 => .response 302 (.target "\"/moved\"") (.ok [])
    | _ => .notDialed "connection refused"
  valid := fun _ => true
  marshalRaw := .ok

/-- The server received the `POST` and redirected it. Nothing listens at the target, and the
call is reported as failed: the key can be claimed again. -/
theorem redirected_failed_unproven :
    execute .redirected ⟨[⟨200, 299⟩], [⟨429, 429⟩]⟩ =
        ⟨.failed, [], "downstream_unreachable: connection refused"⟩ ∧
      ¬ Proven .redirected ⟨[⟨200, 299⟩], [⟨429, 429⟩]⟩ := by
  refine ⟨rfl, ?_⟩
  rintro (hunsent | ⟨err, hhop⟩ | ⟨hhop, hdeclines⟩)
  · cases hunsent
  · cases hhop
  · cases hhop
    revert hdeclines
    decide

end Idemio
