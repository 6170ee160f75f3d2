import Idemio.Claim.Resolve
import Idemio.Results

set_option relaxedAutoImplicit false
set_option autoImplicit false

/-!
# What `POST /v1/writes` checks and answers

`internal/api`: the checks a write request passes before it is claimed, and the responses the
handler writes. A body the handler builds is the list of its fields; a body it hands on is
bytes.

## Main definitions

* `Idemio.admission` — `handleWrite` up to the claim.
* `Idemio.Record` — a key row as the handler reads it.
* `Idemio.writeExisting`, `Idemio.writeOutcome`, `Idemio.writeNotExecuted` — the responses.

## Main results

* `Idemio.admission_error_code` — a request that is not admitted is never answered with `503`.
* `Idemio.admission_ok_hash` — an admitted request carries the hash of its own fields.
-/

namespace Idemio

/-- The body of a response. -/
inductive Body
  | raw (m : RawMessage)
  | fields (l : List (String × Json))
  deriving DecidableEq, Repr

/-- A response of the handler. -/
structure Response where
  code : Nat
  headers : List (String × String)
  body : Body
  deriving DecidableEq, Repr

/-- `writeJSON`. -/
def writeJSON (code : Nat) (fields : List (String × Json)) : Response := ⟨code, [], .fields fields⟩

/-- `writeRaw`. -/
def writeRaw (code : Nat) (body : RawMessage) : Response := ⟨code, [], .raw body⟩

/-- `writeProblem`. -/
def writeProblem (code : Nat) (key reason detail : String) : Response :=
  writeJSON code
    ([("status", .str "rejected"), ("reason", .str reason)] ++
      (if key = "" then [] else [("idempotency_key", .str key)]) ++
      (if detail = "" then [] else [("detail", .str detail)]))

/-- `writeNotExecuted`. -/
def writeNotExecuted (key reason : String) : Response :=
  writeJSON 503
    [("idempotency_key", .str key),
     ("status", .str Status.failed.text),
     ("reason", .str reason),
     ("retryable", .bool true),
     ("detail", .str "No claim was made and nothing was sent downstream. Retry the same key.")]

/-! ## Admission -/

/-- `unicode.IsSpace`. -/
def isSpace (c : Char) : Bool :=
  let n := c.toNat
  (9 ≤ n && n ≤ 13) || n == 0x20 || n == 0x85 || n == 0xA0 || n == 0x1680 ||
    (0x2000 ≤ n && n ≤ 0x200A) || n == 0x2028 || n == 0x2029 || n == 0x202F || n == 0x205F ||
    n == 0x3000

/-- `strings.TrimSpace`. -/
def trimSpace (s : String) : String :=
  String.ofList (((s.toList.dropWhile isSpace).reverse.dropWhile isSpace).reverse)

/-- `strings.ToLower` on ASCII letters, the only ones a key may have. -/
def toLower (s : String) : String := String.ofList (s.toList.map Char.toLower)

/-- A hexadecimal digit in either case. -/
def isHex (c : Char) : Bool :=
  ('0' ≤ c && c ≤ '9') || ('a' ≤ c && c ≤ 'f') || ('A' ≤ c && c ≤ 'F')

/-- `isUUID`: 36 bytes, hyphens at four places and hexadecimal digits elsewhere. -/
def isUUID (value : String) : Bool :=
  value.utf8ByteSize == 36 &&
    value.toList.zipIdx.all fun (c, i) => if i ∈ [8, 13, 18, 23] then c == '-' else isHex c

/-- `writeRequest`. -/
structure WriteRequest where
  agentID : String
  resourceType : String
  resourceID : String
  operation : String
  payload : RawMessage

/-- What decoding a request body may give. -/
inductive Decoded
  | tooLarge
  | malformed (message : String)
  | request (req : WriteRequest)

/-- A write request as it arrives. -/
structure WriteHTTP where
  agentHeader : String
  roleHeader : String
  keyHeader : String
  body : Decoded

/-- `manifest.Definition`, what the claim needs of it. -/
structure Definition where
  conflictWindow : Time
  enforce : Bool
  operations : String → Option Operation

/-- `manifest.Snapshot`. -/
structure Snapshot where
  version : String
  lookup : String → Option Definition

/-- `lookupOperation`. -/
def lookupOperation (snapshot : Snapshot) (resourceType operation : String) :
    Option (Definition × Operation) := do
  let definition ← snapshot.lookup resourceType
  let declared ← definition.operations operation
  return (definition, declared)

/-- `handleWrite` up to the claim: the request to claim, or the response that refuses it. -/
def admission (env : Env) (snapshot : Snapshot) (http : WriteHTTP) : Except Response Request :=
  let agentID := trimSpace http.agentHeader
  let role := trimSpace http.roleHeader
  let key := toLower http.keyHeader
  if agentID = "" ∨ role = "" then .error (writeProblem 401 "" "missing_identity" "")
  else if role ≠ "agent" then .error (writeProblem 403 "" "role_insufficient" "")
  else if !isUUID key then
    .error (writeProblem 422 key "malformed_idempotency_key" "Idempotency-Key must be a UUID.")
  else
    match http.body with
    | .tooLarge => .error (writeProblem 413 key "payload_too_large" "")
    | .malformed message => .error (writeProblem 400 key "malformed_request" message)
    | .request req =>
      if req.agentID = "" ∨ req.resourceType = "" ∨ req.resourceID = "" ∨ req.operation = "" ∨
          req.payload = [] then .error (writeProblem 400 key "missing_field" "")
      else if req.agentID ≠ agentID then .error (writeProblem 403 key "agent_id_mismatch" "")
      else
        match lookupOperation snapshot req.resourceType req.operation with
        | none => .error (writeProblem 422 key "unknown_operation"
            ("No manifest declares this operation for this resource_type. A write whose " ++
              "downstream responses cannot be classified is never admitted."))
        | some (definition, declared) =>
          match env.canonicalHash req.agentID req.operation req.payload req.resourceID
              req.resourceType with
          | .error message => .error (writeProblem 422 key "unhashable_request" message)
          | .ok hash => .ok {
              agentID := req.agentID
              key := key
              requestHash := hash
              resourceType := req.resourceType
              resourceID := req.resourceID
              operation := req.operation
              declared := declared
              payload := req.payload
              window := definition.conflictWindow
              enforce := definition.enforce
              manifestVersion := snapshot.version }

/-- A request that is not admitted is answered with a code of its own, never with `503`. -/
lemma admission_error_code {env : Env} {snapshot : Snapshot} {http : WriteHTTP} {r : Response}
    (h : admission env snapshot http = .error r) : r.code ∈ [401, 403, 422, 413, 400] := by
  unfold admission at h
  dsimp only at h
  repeat' split at h
  all_goals first | (obtain rfl := Except.error.inj h; simp [writeProblem, writeJSON]) | cases h

/-- An admitted request carries the hash of its own fields. -/
lemma admission_ok_hash {env : Env} {snapshot : Snapshot} {http : WriteHTTP} {req : Request}
    (h : admission env snapshot http = .ok req) :
    env.canonicalHash req.agentID req.operation req.payload req.resourceID req.resourceType =
      .ok req.requestHash := by
  unfold admission at h
  dsimp only at h
  repeat' split at h
  all_goals first | (cases h; assumption) | cases h

/-- An admitted request is for the key of its header, in lower case. -/
lemma admission_ok_key {env : Env} {snapshot : Snapshot} {http : WriteHTTP} {req : Request}
    (h : admission env snapshot http = .ok req) :
    isUUID (toLower http.keyHeader) = true ∧ req.key = toLower http.keyHeader := by
  unfold admission at h
  dsimp only at h
  repeat' split at h
  all_goals first | (cases h; simp_all) | cases h

/-! ## Records and outcomes -/

/-- `claim.Record`. -/
structure Record where
  keyID : KeyID
  requestHash : String
  status : Status
  result : RawMessage
  resultRef : String
  outcomeDetail : String
  attemptCount : Nat
  deriving DecidableEq, Repr

/-- `readRecord`, from the row that `selectKey` returns. -/
def readRecord (env : Env) (k : KeyID) (row : KeyRow) : Record where
  keyID := k
  requestHash := row.requestHash
  status := row.status
  result := storedBody env row
  resultRef := row.resultRef.getD ""
  outcomeDetail := row.outcomeDetail.getD ""
  attemptCount := row.attemptCount

/-- `writeExisting`. `getOK` is the answer of the object store, `wait` the time that the
latency tracker advises, in milliseconds. -/
def writeExisting (env : Env) (objects : Objects) (getOK : Bool) (wait : Int)
    (record : Record) : Response :=
  let key := record.keyID.key
  match record.status with
  | .done =>
    match resolve env objects getOK record.result record.resultRef with
    | none => writeJSON 500
        [("idempotency_key", .str key),
         ("status", .str record.status.text),
         ("reason", .str "result_unavailable"),
         ("retryable", .bool true),
         ("detail", .str ("The write completed and its outcome is recorded, but the stored " ++
           "result could not be read. Retrying the same key replays it and cannot " ++
           "re-execute."))]
    | some result => writeJSON 200
        [("idempotency_key", .str key),
         ("status", .str record.status.text),
         ("result", .raw result),
         ("replayed", .bool true)]
  | .pending =>
    { writeJSON 202
        [("idempotency_key", .str key),
         ("status", .str record.status.text),
         ("retry_after_ms", .int wait)] with
      headers :=
        [("Retry-After", toString (max 1 ((wait + 500) / 1000))),
         ("Location", "/v1/writes/" ++ key)] }
  | .rejected =>
    if record.result = [] then writeProblem 409 key "conflicting_write" record.outcomeDetail
    else writeRaw 409 record.result
  | .indeterminate => writeJSON 502
      [("idempotency_key", .str key),
       ("status", .str record.status.text),
       ("reason", .str "indeterminate_outcome"),
       ("retryable", .bool false),
       ("detail", .str "The write may or may not have been applied. Do not retry this key.")]
  | .failed => writeJSON 503
      [("idempotency_key", .str key),
       ("status", .str record.status.text),
       ("reason", .str "downstream_unreachable"),
       ("retryable", .bool true)]

/-- `downstream.Disposition`. -/
inductive Disposition
  | indeterminate
  | done
  | failed
  deriving DecidableEq, Repr

/-- `downstream.Outcome`. -/
structure Outcome where
  disposition : Disposition
  result : RawMessage
  detail : String
  deriving DecidableEq, Repr

/-- `statusFor`. -/
def statusFor : Disposition → Status
  | .done => .done
  | .failed => .failed
  | .indeterminate => .indeterminate

/-- The statuses that a disposition settles a key as. -/
lemma statusFor_settles (d : Disposition) :
    statusFor d = .done ∨ statusFor d = .failed ∨ statusFor d = .indeterminate := by
  cases d <;> simp [statusFor]

/-- The response of `execute`. -/
def writeOutcome (key : String) (intentID : Nat) (outcome : Outcome) : Response :=
  match outcome.disposition with
  | .done => writeJSON 201
      [("idempotency_key", .str key),
       ("status", .str Status.done.text),
       ("result", .raw outcome.result),
       ("replayed", .bool false),
       ("intent_id", .uuid intentID)]
  | .failed => writeJSON 503
      [("idempotency_key", .str key),
       ("status", .str Status.failed.text),
       ("reason", .str "downstream_unreachable"),
       ("retryable", .bool true)]
  | .indeterminate => writeJSON 502
      [("idempotency_key", .str key),
       ("status", .str Status.indeterminate.text),
       ("reason", .str "downstream_timeout_after_send"),
       ("retryable", .bool false),
       ("detail", .str "The write may or may not have been applied. Do not retry this key.")]

end Idemio
