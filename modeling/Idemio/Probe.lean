import Idemio.Base.Unmarshal
import Idemio.System.Step

set_option relaxedAutoImplicit false
set_option autoImplicit false

/-!
# The probe

`internal/probe` asks the downstream which executions it knows for the correlation id of a key,
and the reconciler makes an outcome of the answer: a key whose write was not executed is failed,
and may be claimed again. So an answer of not executed has to be one: the downstream said that
there were none. The decoder is lenient, though. What a body does not say is left at zero, and
what it lists is not compared with what it counts.

## Main definitions

* `Idemio.Executions`, `Idemio.decodeExecutions` — the struct that the body is decoded into.
* `Idemio.ProbeClient.executions`, `Idemio.ProbeClient.probe` — `Client.Executions` and
  `Client.Probe`.
* `Idemio.candidateAnswer` — `resolve`, up to the outcome.
* `Idemio.SaysNone` — a document counts zero executions and lists none.
* `Idemio.Silent`, `Idemio.Contradictory` — it does not count them, or lists some and counts
  zero.

## Main results

* `Idemio.decodeExecutions_eq_some` — what decoding an object gives.
* `Idemio.probe_notExecuted_iff` — when a probe answers that a write was not executed.
* `Idemio.notExecuted_says_none_iff` — it does so rightly exactly if the reply is not misleading.
-/

namespace Idemio

open JsonDoc (Value)
open Unmarshal (namesField)

/-! ## `Executions` and `Probe` -/

/-- The struct that `Executions` decodes into. -/
structure Executions where
  count : Int
  executions : Unmarshal.Slice RawMessage
  deriving DecidableEq, Repr

/-- The fields of the struct. -/
def executionsFields : List (String × Unmarshal.Decoder Executions) :=
  [("count", Unmarshal.field Executions.count (fun d n => { d with count := n }) Unmarshal.int),
   ("executions", Unmarshal.field Executions.executions (fun d es => { d with executions := es })
      (Unmarshal.slice [] Unmarshal.raw))]

/-- `Decode`, from the value on. -/
def decodeExecutions (v : Value) : Option Executions :=
  Unmarshal.record executionsFields ⟨0, .nil⟩ ([], v)

/-- A response: its status, and its body with the error that reading it ends with. -/
structure ProbeReply where
  statusCode : Int
  status : String
  body : RawMessage
  bodyErr : Option String

/-- `probe.Client`: the base of its URLs, and what building and sending a request to a URL
gives. -/
structure ProbeClient where
  baseURL : String
  newRequest : String → Except String Unit
  send : String → Except String ProbeReply

/-- The errors of `Executions`. -/
inductive ProbeError
  | build (err : String)
  | unreachable (err : String)
  | status (status : String)
  | decode
  deriving DecidableEq, Repr

/-- `probe.Verdict`. -/
structure ProbeVerdict where
  executions : Int
  result : RawMessage
  deriving DecidableEq, Repr

/-- The URL that a probe asks. The correlation id is hexadecimal, so that `Encode` keeps it. -/
def ProbeClient.target (env : Env) (c : ProbeClient) (path : String) (k : KeyID) : String :=
  c.baseURL ++ path ++ "?" ++ "correlation_id=" ++ correlationID env k

/-- `Executions`, from the response on. -/
def readVerdict (reply : ProbeReply) : Except ProbeError ProbeVerdict :=
  if reply.statusCode ≠ 200 then .error (.status reply.status)
  else
    match (Unmarshal.stream reply.body reply.bodyErr).bind decodeExecutions with
    | none => .error .decode
    | some d => .ok ⟨d.count, d.executions.elements.getLast?.getD []⟩

/-- `Executions`, up to the response. -/
def ProbeClient.request (env : Env) (c : ProbeClient) (path : String) (k : KeyID) :
    Except ProbeError ProbeReply :=
  match c.newRequest (c.target env path k) with
  | .error err => .error (.build err)
  | .ok _ =>
    match c.send (c.target env path k) with
    | .error err => .error (.unreachable err)
    | .ok reply => .ok reply

/-- `Client.Executions`. -/
def ProbeClient.executions (env : Env) (c : ProbeClient) (path : String) (k : KeyID) :
    Except ProbeError ProbeVerdict :=
  (c.request env path k).bind readVerdict

/-- `probe.Outcome`. -/
inductive ProbeOutcome
  | unknown
  | executed
  | notExecuted
  deriving DecidableEq, Repr

/-- `Client.Probe`. -/
def ProbeClient.probe (env : Env) (c : ProbeClient) (path : String) (k : KeyID) :
    ProbeOutcome × RawMessage × Option ProbeError :=
  match c.executions env path k with
  | .error err => (.unknown, [], some err)
  | .ok verdict =>
    if verdict.executions = 0 then (.notExecuted, [], none)
    else (.executed, verdict.result, none)

/-- `resolve` of a stale key, up to the outcome: `probePath` is what the manifest declares for
its resource type. -/
def candidateAnswer (env : Env) (c : ProbeClient) (probePath : Option String) (k : KeyID) :
    Answer :=
  match probePath with
  | none => .unregistered
  | some path =>
    match c.probe env path k with
    | (_, _, some _) => .unreachable
    | (.executed, result, none) => .executed result
    | (.notExecuted, _, none) => .notExecuted
    | (.unknown, _, none) => .unknown

/-! ## What a document says -/

/-- The value is `null`. -/
def isNull : Value → Bool
  | .null => true
  | _ => false

/-- The value is `null` or an integer. -/
def isCount : Value → Bool
  | .null => true
  | .number literal => (JsonDoc.intOf literal).isSome
  | _ => false

/-- The value is `null` or an array. -/
def isList : Value → Bool
  | .null | .array _ => true
  | _ => false

/-- The value of a count, which is zero if there is none. -/
def countValue : Option Value → Int
  | some (.number literal) => (JsonDoc.intOf literal).getD 0
  | _ => 0

/-- The texts that a list of executions holds. -/
def listValue : Option Value → List RawMessage
  | some (.array elements) => elements.map Prod.fst
  | _ => []

section Members

variable (members : List (List Nat × RawMessage × Value))

/-- The values of the members that are decoded into a field. -/
def valuesOf (field : String) : List Value :=
  (members.filter fun m => namesField field m.1).map fun m => m.2.2

/-- The last count that is not `null`. -/
def counted : Option Value := ((valuesOf members "count").filter fun v => !isNull v).getLast?

/-- The list of executions that comes last. -/
def listed : List RawMessage := listValue (valuesOf members "executions").getLast?

/-- The members that are decoded have the types of their fields. -/
def WellTyped : Prop :=
  (∀ v ∈ valuesOf members "count", isCount v = true) ∧
    ∀ v ∈ valuesOf members "executions", isList v = true

end Members

/-- The document counts zero executions and lists none. -/
inductive SaysNone : Value → Prop
  | object {members : List (List Nat × RawMessage × Value)} {literal : List UInt8}
      (hcounted : counted members = some (.number literal))
      (hzero : JsonDoc.intOf literal = some 0) (hlisted : listed members = []) :
      SaysNone (.object members)

/-- The document does not count the executions. -/
inductive Silent : Value → Prop
  | null : Silent .null
  | object {members : List (List Nat × RawMessage × Value)} (htyped : WellTyped members)
      (hcounted : counted members = none) : Silent (.object members)

/-- The document counts zero executions and lists some. -/
inductive Contradictory : Value → Prop
  | object {members : List (List Nat × RawMessage × Value)} {literal : List UInt8}
      (htyped : WellTyped members) (hcounted : counted members = some (.number literal))
      (hzero : JsonDoc.intOf literal = some 0) (hlisted : listed members ≠ []) :
      Contradictory (.object members)

/-- The reply is taken for an answer, but says nothing or contradicts itself. -/
def Misleading (reply : ProbeReply) : Prop :=
  reply.statusCode = 200 ∧
    ∃ v, Unmarshal.stream reply.body reply.bodyErr = some v ∧ (Silent v ∨ Contradictory v)

/-! ## What is decoded -/

/-- No name is decoded into both fields. -/
lemma not_namesField_executions {name : List Nat} (h : namesField "count" name = true) :
    namesField "executions" name = false := by
  unfold namesField at h ⊢
  rw [decide_eq_true_eq] at h
  rw [h]
  decide

/-- What is read of a struct: the count and the elements of the slice. -/
def Executions.view (d : Executions) : Int × List RawMessage := (d.count, d.executions.elements)

section Member

variable {d : Executions} {m : List Nat × RawMessage × Value} {x : Int × List RawMessage}

/-- A member for `count` replaces it, unless it is `null`. -/
lemma member_count (h : namesField "count" m.1 = true) :
    (Unmarshal.member executionsFields d m).map Executions.view = some x ↔
      isCount m.2.2 = true ∧
        x = (if isNull m.2.2 then d.count else countValue (some m.2.2), d.executions.elements) := by
  obtain ⟨name, text, v⟩ := m
  simp only [Unmarshal.member, executionsFields, List.find?, h, Unmarshal.field]
  cases v with
  | number literal =>
    cases hint : JsonDoc.intOf literal <;>
      simp [Unmarshal.int, isCount, isNull, countValue, Executions.view, hint, eq_comm]
  | null => simp [Unmarshal.int, isCount, isNull, Executions.view, eq_comm]
  | bool b => simp [Unmarshal.int, isCount]
  | string content => simp [Unmarshal.int, isCount]
  | array elements => simp [Unmarshal.int, isCount]
  | object members => simp [Unmarshal.int, isCount]

/-- A member for `executions` replaces it. -/
lemma member_executions (hcount : namesField "count" m.1 = false)
    (h : namesField "executions" m.1 = true) :
    (Unmarshal.member executionsFields d m).map Executions.view = some x ↔
      isList m.2.2 = true ∧ x = (d.count, listValue (some m.2.2)) := by
  obtain ⟨name, text, v⟩ := m
  simp only [Unmarshal.member, executionsFields, List.find?, hcount, h, Unmarshal.field]
  cases v with
  | array elements =>
    have hraw := Unmarshal.slice_raw d.executions text elements
    obtain ⟨s, hs, helements⟩ := Option.map_eq_some_iff.mp hraw
    simp [hs, isList, listValue, Executions.view, helements, eq_comm]
  | null => simp [Unmarshal.slice, isList, listValue, Executions.view, Unmarshal.Slice.nil,
      Unmarshal.Slice.elements, eq_comm]
  | bool b => simp [Unmarshal.slice, isList]
  | number literal => simp [Unmarshal.slice, isList]
  | string content => simp [Unmarshal.slice, isList]
  | object members => simp [Unmarshal.slice, isList]

/-- A member that names no field changes nothing. -/
lemma member_other (hcount : namesField "count" m.1 = false)
    (hlist : namesField "executions" m.1 = false) :
    (Unmarshal.member executionsFields d m).map Executions.view = some x ↔ x = d.view := by
  simp [Unmarshal.member, executionsFields, List.find?, hcount, hlist, eq_comm]

end Member

section Snoc

variable {members : List (List Nat × RawMessage × Value)} {m : List Nat × RawMessage × Value}
  {field : String}

lemma valuesOf_snoc (h : namesField field m.1 = true) :
    valuesOf (members ++ [m]) field = valuesOf members field ++ [m.2.2] := by
  simp [valuesOf, h]

lemma valuesOf_snoc_of_not (h : namesField field m.1 = false) :
    valuesOf (members ++ [m]) field = valuesOf members field := by
  simp [valuesOf, h]

lemma WellTyped.of_snoc (h : WellTyped (members ++ [m])) : WellTyped members := by
  have hsubset : ∀ field, valuesOf members field ⊆ valuesOf (members ++ [m]) field := fun field =>
    List.map_subset _ ((List.sublist_append_left members [m]).filter _).subset
  exact ⟨fun v hv => h.1 v (hsubset _ hv), fun v hv => h.2 v (hsubset _ hv)⟩

lemma counted_snoc (h : namesField "count" m.1 = true) :
    counted (members ++ [m]) = if isNull m.2.2 then counted members else some m.2.2 := by
  unfold counted
  rw [valuesOf_snoc h, List.filter_append]
  cases hnull : isNull m.2.2 <;> simp [hnull]

lemma counted_snoc_of_not (h : namesField "count" m.1 = false) :
    counted (members ++ [m]) = counted members := by
  rw [counted, valuesOf_snoc_of_not h, counted]

lemma listed_snoc (h : namesField "executions" m.1 = true) :
    listed (members ++ [m]) = listValue (some m.2.2) := by
  rw [listed, valuesOf_snoc h, List.getLast?_concat]

lemma listed_snoc_of_not (h : namesField "executions" m.1 = false) :
    listed (members ++ [m]) = listed members := by
  rw [listed, valuesOf_snoc_of_not h, listed]

/-- What a member adds to what is decoded, if it has the type of its field. -/
lemma member_snoc {d : Executions} {x : Int × List RawMessage}
    (hview : d.view = (countValue (counted members), listed members)) :
    (WellTyped members ∧ (Unmarshal.member executionsFields d m).map Executions.view = some x) ↔
      WellTyped (members ++ [m]) ∧
        x = (countValue (counted (members ++ [m])), listed (members ++ [m])) := by
  obtain ⟨hd, hes⟩ := Prod.ext_iff.mp hview
  simp only [Executions.view] at hd hes
  unfold WellTyped
  cases hcount : namesField "count" m.1 with
  | true =>
    have hlist := not_namesField_executions hcount
    rw [member_count hcount, valuesOf_snoc hcount, valuesOf_snoc_of_not hlist,
      counted_snoc hcount, listed_snoc_of_not hlist, apply_ite countValue,
      List.forall_mem_append, List.forall_mem_singleton, hd, hes]
    tauto
  | false =>
    rw [valuesOf_snoc_of_not hcount, counted_snoc_of_not hcount]
    cases hlist : namesField "executions" m.1 with
    | true =>
      rw [member_executions hcount hlist, valuesOf_snoc hlist, listed_snoc hlist,
        List.forall_mem_append, List.forall_mem_singleton, hd]
      tauto
    | false =>
      rw [member_other hcount hlist, valuesOf_snoc_of_not hlist, listed_snoc_of_not hlist, hview]

end Snoc

/-- **What decoding an object gives**: nothing if a member has the wrong type, and otherwise the
last count that is not `null`, or zero, and the list that comes last.

**Proof sketch.** Induction on the members from the end. A member that names a field replaces the
value of that field; a `null` for the count leaves what there was. -/
lemma decodeExecutions_eq_some {members : List (List Nat × RawMessage × Value)}
    {x : Int × List RawMessage} :
    (decodeExecutions (.object members)).map Executions.view = some x ↔
      WellTyped members ∧ x = (countValue (counted members), listed members) := by
  simp only [decodeExecutions, Unmarshal.record]
  induction members using List.reverseRecOn generalizing x with
  | nil =>
    have htyped : WellTyped [] := by simp [WellTyped, valuesOf]
    exact ⟨fun h => ⟨htyped, (Option.some.inj h).symm⟩, fun h => h.2 ▸ rfl⟩
  | append_singleton members m ih =>
    rw [List.foldlM_append]
    cases hdecode : members.foldlM (Unmarshal.member executionsFields) ⟨0, .nil⟩ with
    | none =>
      have hnot : ¬ WellTyped members := fun htyped => by
        have hsome := ih.mpr ⟨htyped, rfl⟩
        rw [hdecode] at hsome
        cases hsome
      exact ⟨fun h => absurd h (by simp), fun h => absurd h.1.of_snoc hnot⟩
    | some d =>
      obtain ⟨htyped, hview⟩ := ih.mp (by rw [hdecode]; rfl : _ = some d.view)
      rw [← member_snoc hview]
      simp [htyped]

/-- A document that is decoded to a count of zero says so, or is silent, or contradicts
itself. -/
lemma saysNone_or_misleading {v : Value} {d : Executions} (hdecode : decodeExecutions v = some d)
    (hzero : d.count = 0) : SaysNone v ∨ Silent v ∨ Contradictory v := by
  cases v with
  | null => exact .inr (.inl .null)
  | object members =>
    have hview : (decodeExecutions (.object members)).map Executions.view = some d.view := by
      rw [hdecode]
      rfl
    obtain ⟨htyped, hview⟩ := decodeExecutions_eq_some.mp hview
    have hcount : d.count = countValue (counted members) := congrArg Prod.fst hview
    rw [hcount] at hzero
    cases hcounted : counted members with
    | none => exact .inr (.inl (.object htyped hcounted))
    | some w =>
      have hmem := List.mem_filter.mp (List.mem_of_getLast? hcounted)
      have hcount := htyped.1 w hmem.1
      cases w with
      | number literal =>
        obtain ⟨n, hn⟩ := Option.isSome_iff_exists.mp hcount
        have hint : JsonDoc.intOf literal = some 0 := by
          simpa [hcounted, countValue, hn] using hzero
        by_cases hlisted : listed members = []
        · exact .inl (.object hcounted hint hlisted)
        · exact .inr (.inr (.object htyped hcounted hint hlisted))
      | null => simp [isNull] at hmem
      | bool b => cases hcount
      | string content => cases hcount
      | array elements => cases hcount
      | object members => cases hcount
  | bool b => cases hdecode
  | number literal => cases hdecode
  | string content => cases hdecode
  | array elements => cases hdecode

/-- An object whose members have the right types is decoded to its count. -/
lemma decodeExecutions_of_counted {members : List (List Nat × RawMessage × Value)} {n : Int}
    (htyped : WellTyped members) (hcounted : countValue (counted members) = n) :
    ∃ d, decodeExecutions (.object members) = some d ∧ d.count = n := by
  have hview := decodeExecutions_eq_some.mpr ⟨htyped, rfl⟩
  obtain ⟨d, hdecode, heq⟩ := Option.map_eq_some_iff.mp hview
  exact ⟨d, hdecode, (congrArg Prod.fst heq).trans hcounted⟩

/-- A document that is silent or contradicts itself is decoded to a count of zero. -/
lemma decodeExecutions_of_misleading {v : Value} (h : Silent v ∨ Contradictory v) :
    ∃ d, decodeExecutions v = some d ∧ d.count = 0 := by
  rcases h with h | h
  · cases h with
    | null => exact ⟨_, rfl, rfl⟩
    | object htyped hcounted =>
      exact decodeExecutions_of_counted htyped (by simp [hcounted, countValue])
  · cases h with
    | object htyped hcounted hzero _ =>
      exact decodeExecutions_of_counted htyped (by simp [hcounted, countValue, hzero])

/-- Such a document does not say that there were no executions. -/
lemma not_saysNone_of_misleading {v : Value} (h : Silent v ∨ Contradictory v) : ¬ SaysNone v := by
  intro hsays
  cases hsays with
  | object hcounted hzero hlisted =>
    rcases h with h | h
    · cases h with
      | object _ hnone => simp [hnone] at hcounted
    · cases h with
      | object _ _ _ hne => exact hne hlisted

/-! ## Answers -/

/-- A response counts zero executions if its status is 200 and its body is decoded to that. -/
lemma readVerdict_zero_iff {reply : ProbeReply} :
    (∃ verdict, readVerdict reply = .ok verdict ∧ verdict.executions = 0) ↔
      reply.statusCode = 200 ∧ ∃ v d, Unmarshal.stream reply.body reply.bodyErr = some v ∧
        decodeExecutions v = some d ∧ d.count = 0 := by
  unfold readVerdict
  by_cases hstatus : reply.statusCode = 200
  · rw [if_neg (not_not.mpr hstatus)]
    cases hbody : Unmarshal.stream reply.body reply.bodyErr with
    | none => simp
    | some v =>
      cases hdecode : decodeExecutions v with
      | none => simp [hdecode]
      | some d => simp [hdecode, hstatus]
  · simp [hstatus]

section Answers

variable (env : Env) (c : ProbeClient) (path : String) (k : KeyID)

/-- A probe answers that a write was not executed if its reply counts zero executions. -/
lemma probe_notExecuted_iff : (c.probe env path k).1 = .notExecuted ↔
    ∃ reply, c.request env path k = .ok reply ∧
      ∃ verdict, readVerdict reply = .ok verdict ∧ verdict.executions = 0 := by
  unfold ProbeClient.probe ProbeClient.executions
  cases c.request env path k with
  | error err => simp [Except.bind]
  | ok reply =>
    cases hverdict : readVerdict reply with
    | error err => simp [Except.bind, hverdict]
    | ok verdict =>
      by_cases hzero : verdict.executions = 0 <;> simp [Except.bind, hverdict, hzero]

/-- A stale key is made failed by its probe if that answers that the write was not executed. -/
lemma candidateAnswer_failed_iff :
    (∃ outcome, answerOutcome (candidateAnswer env c (some path) k) = some outcome ∧
        outcome.disposition = .failed) ↔ (c.probe env path k).1 = .notExecuted := by
  unfold candidateAnswer ProbeClient.probe
  cases hexec : c.executions env path k with
  | error err => simp [answerOutcome, hexec]
  | ok verdict => by_cases hzero : verdict.executions = 0 <;> simp [answerOutcome, hexec, hzero]

/-- A probe that answers nothing else answers that the write was executed, or errors. -/
lemma probe_executed_or_error (h : (c.probe env path k).1 ≠ .notExecuted) :
    (c.probe env path k).1 = .executed ∨ (c.probe env path k).2.2.isSome := by
  unfold ProbeClient.probe at h ⊢
  cases hexec : c.executions env path k with
  | error err => simp
  | ok verdict => by_cases hzero : verdict.executions = 0 <;> simp_all

/-- The downstream replied, and its reply says that there were no executions. -/
def RepliesNone : Prop :=
  ∃ reply, c.request env path k = .ok reply ∧ reply.statusCode = 200 ∧
    ∃ v, Unmarshal.stream reply.body reply.bodyErr = some v ∧ SaysNone v

/-- A probe answers that a write was not executed only if the reply says so, exactly if the reply
is not misleading. -/
lemma probe_sound_iff :
    ((c.probe env path k).1 = .notExecuted → RepliesNone env c path k) ↔
      ∀ reply, c.request env path k = .ok reply → ¬ Misleading reply := by
  rw [probe_notExecuted_iff]
  constructor
  · rintro hsound reply hreq ⟨hstatus, v, hbody, hmisleading⟩
    obtain ⟨d, hdecode, hzero⟩ := decodeExecutions_of_misleading hmisleading
    have hverdict := readVerdict_zero_iff.mpr ⟨hstatus, v, d, hbody, hdecode, hzero⟩
    obtain ⟨reply', hreq', -, v', hbody', hsays⟩ := hsound ⟨reply, hreq, hverdict⟩
    cases hreq.symm.trans hreq'
    cases hbody.symm.trans hbody'
    exact not_saysNone_of_misleading hmisleading hsays
  · rintro hnot ⟨reply, hreq, hverdict⟩
    obtain ⟨hstatus, v, d, hbody, hdecode, hzero⟩ := readVerdict_zero_iff.mp hverdict
    refine ⟨reply, hreq, hstatus, v, hbody, ?_⟩
    rcases saysNone_or_misleading hdecode hzero with hsays | hmisleading
    · exact hsays
    · exact absurd ⟨hstatus, v, hbody, hmisleading⟩ (hnot reply hreq)

/-- **Silence is not executed exactly for misleading replies.** A probe answers that a write was
not executed, and the reconciler makes its key failed, only if the reply has status 200, counts
zero executions and lists none, and anything else is executed or an error; this holds exactly if
the reply is not a document without a count, or one that counts zero and lists some. -/
theorem notExecuted_says_none_iff :
    (((c.probe env path k).1 = .notExecuted → RepliesNone env c path k) ∧
      (¬ RepliesNone env c path k →
        (c.probe env path k).1 = .executed ∨ (c.probe env path k).2.2.isSome) ∧
      ∀ outcome, answerOutcome (candidateAnswer env c (some path) k) = some outcome →
        outcome.disposition = .failed → RepliesNone env c path k) ↔
      ∀ reply, c.request env path k = .ok reply → ¬ Misleading reply := by
  rw [← probe_sound_iff]
  refine ⟨And.left, fun hsound => ⟨hsound, fun hnone => ?_, fun outcome houtcome hfailed => ?_⟩⟩
  · exact probe_executed_or_error env c path k fun hprobe => hnone (hsound hprobe)
  · exact hsound ((candidateAnswer_failed_iff env c path k).mp ⟨outcome, houtcome, hfailed⟩)

end Answers

/-- A client whose every probe is answered with status 200 and this body. -/
def ProbeClient.answering (body : RawMessage) : ProbeClient where
  baseURL := "http://downstream"
  newRequest _ := .ok ()
  send _ := .ok ⟨200, "200 OK", body, none⟩

/-- The empty object counts nothing, and a probe takes it for an answer: the key is made failed,
and may be claimed again. -/
theorem empty_object_not_executed :
    ((ProbeClient.answering [0x7B, 0x7D]).probe .small "/probe" ⟨"a", "k"⟩).1 = .notExecuted ∧
      answerOutcome (candidateAnswer .small (.answering [0x7B, 0x7D]) (some "/probe") ⟨"a", "k"⟩) =
        some ⟨.failed, [], "probe_found_no_execution"⟩ ∧
      ¬ RepliesNone .small (.answering [0x7B, 0x7D]) "/probe" ⟨"a", "k"⟩ := by
  refine ⟨rfl, rfl, ?_⟩
  rintro ⟨reply, hreq, -, v, hbody, hsays⟩
  cases hreq
  have hv : v = .object [] := (Option.some.inj hbody).symm
  subst hv
  cases hsays with
  | object hcounted _ _ => cases hcounted

end Idemio
