import Idemio.Api.Response

set_option relaxedAutoImplicit false
set_option autoImplicit false

/-!
# What `GET /v1/writes/{key}` answers

`handleRead` looks up one row, under the agent that the caller identifies as, and answers with
what it says. The lookup and the fetch of an offloaded result may fail.

## Main definitions

* `Idemio.readIdentity` — who the caller is.
* `Idemio.readKey` — `handleRead` up to the lookup.
* `Idemio.lookupRecord` — the lookup.
* `Idemio.writeRecord` — the answer from a record.
* `Idemio.handleRead` — all of it.

## Main results

* `Idemio.handleRead_congr` — the answer depends on the caller's own rows alone.
-/

namespace Idemio

/-- `identity`. -/
structure Identity where
  agentID : String
  role : String
  deriving DecidableEq, Repr

/-- `readIdentity`. -/
def readIdentity (agentHeader roleHeader : String) : Option Identity :=
  if trimSpace agentHeader = "" ∨ trimSpace roleHeader = "" then none
  else some ⟨trimSpace agentHeader, trimSpace roleHeader⟩

/-- A read of a key as it arrives. -/
structure ReadHTTP where
  agentHeader : String
  roleHeader : String
  keyPath : String

/-- The rows of `idempotency_keys`. -/
abbrev Keys := AList (fun _ : KeyID => KeyRow)

/-- `handleRead` up to the lookup. -/
def readKey (http : ReadHTTP) : Except Response KeyID :=
  match readIdentity http.agentHeader http.roleHeader with
  | none => .error (writeProblem 401 "" "missing_identity" "")
  | some caller =>
    if isUUID (toLower http.keyPath) then .ok ⟨caller.agentID, toLower http.keyPath⟩
    else .error (writeProblem 422 (toLower http.keyPath) "malformed_idempotency_key" "")

/-- `claim.Lookup`, where `lookupOK` says whether the query succeeded. -/
def lookupRecord (env : Env) (keys : Keys) (lookupOK : Bool) (k : KeyID) :
    Except Response Record :=
  if lookupOK then
    match keys.lookup k with
    | none => .error (writeProblem 404 k.key "unknown_key" "")
    | some row => .ok (readRecord env k row)
  else .error (writeProblem 500 k.key "lookup_failed" "")

/-- `handleRead` from the record on: `resolveResult`, and the body. -/
def writeRecord (env : Env) (objects : Objects) (getOK : Bool) (record : Record) : Response :=
  match resolve env objects getOK record.result record.resultRef with
  | none => writeJSON 500
      [("idempotency_key", .str record.keyID.key),
       ("status", .str record.status.text),
       ("reason", .str "result_unavailable"),
       ("retryable", .bool true),
       ("detail", .str ("The write completed and its outcome is recorded, but the stored " ++
         "result could not be read. Retrying the same key replays it and cannot " ++
         "re-execute."))]
  | some result => writeJSON 200
      ([("idempotency_key", .str record.keyID.key),
        ("status", .str record.status.text),
        ("attempt_count", .int record.attemptCount)] ++
        (if result = [] then [] else [("result", .raw result)]) ++
        (if record.outcomeDetail = "" then [] else [("detail", .str record.outcomeDetail)]))

/-- `handleRead`. -/
def handleRead (env : Env) (keys : Keys) (objects : Objects) (lookupOK getOK : Bool)
    (http : ReadHTTP) : Response :=
  match readKey http with
  | .error r => r
  | .ok k =>
    match lookupRecord env keys lookupOK k with
    | .error r => r
    | .ok record => writeRecord env objects getOK record

lemma readIdentity_eq_some {agentHeader roleHeader : String} {caller : Identity}
    (h : readIdentity agentHeader roleHeader = some caller) :
    caller = ⟨trimSpace agentHeader, trimSpace roleHeader⟩ := by
  rw [readIdentity, Option.ite_none_left_eq_some] at h
  exact (Option.some.inj h.2).symm

/-- A read is for a key of the agent that the caller identifies as. -/
lemma agentID_of_readKey {http : ReadHTTP} {k : KeyID} (h : readKey http = .ok k) :
    k.agentID = trimSpace http.agentHeader := by
  unfold readKey at h
  cases hcaller : readIdentity http.agentHeader http.roleHeader with
  | none => simp [hcaller] at h
  | some caller =>
    rw [hcaller] at h
    dsimp only at h
    split at h
    · cases h
      rw [readIdentity_eq_some hcaller]
    · cases h

/-- A read that does not get to the lookup is answered with an error. -/
lemma code_of_readKey_error {http : ReadHTTP} {r : Response} (h : readKey http = .error r) :
    r.code ∈ [401, 422] := by
  unfold readKey at h
  cases hcaller : readIdentity http.agentHeader http.roleHeader with
  | none =>
    rw [hcaller] at h
    cases h
    simp [writeProblem, writeJSON]
  | some caller =>
    rw [hcaller] at h
    dsimp only at h
    split at h
    · cases h
    · cases h
      simp [writeProblem, writeJSON]

/-- And so is one that finds no record. -/
lemma code_of_lookupRecord_error {env : Env} {keys : Keys} {lookupOK : Bool} {k : KeyID}
    {r : Response} (h : lookupRecord env keys lookupOK k = .error r) : r.code ∈ [404, 500] := by
  unfold lookupRecord at h
  split at h
  · cases hrow : keys.lookup k with
    | none =>
      rw [hrow] at h
      cases h
      simp [writeProblem, writeJSON]
    | some row =>
      rw [hrow] at h
      cases h
  · cases h
    simp [writeProblem, writeJSON]

/-- A record that is found is that of the row. -/
lemma lookupRecord_ok {env : Env} {keys : Keys} {lookupOK : Bool} {k : KeyID} {record : Record}
    (h : lookupRecord env keys lookupOK k = .ok record) :
    ∃ row, keys.lookup k = some row ∧ record = readRecord env k row := by
  unfold lookupRecord at h
  split at h
  · cases hrow : keys.lookup k with
    | none =>
      rw [hrow] at h
      cases h
    | some row =>
      rw [hrow] at h
      exact ⟨row, rfl, (Except.ok.inj h).symm⟩
  · cases h

/-- **The answer depends on the caller's own rows alone.** -/
lemma handleRead_congr {env : Env} {keys₁ keys₂ : Keys} {objects : Objects}
    {lookupOK getOK : Bool} {http : ReadHTTP}
    (h : ∀ k : KeyID, k.agentID = trimSpace http.agentHeader → keys₁.lookup k = keys₂.lookup k) :
    handleRead env keys₁ objects lookupOK getOK http =
      handleRead env keys₂ objects lookupOK getOK http := by
  unfold handleRead
  cases hkey : readKey http with
  | error r => rfl
  | ok k => simp only [lookupRecord, h k (agentID_of_readKey hkey)]

end Idemio
