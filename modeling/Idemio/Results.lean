import Idemio.Claim.Statements

set_option relaxedAutoImplicit false
set_option autoImplicit false

/-!
# Where results are stored

`internal/resultstore` and `internal/correlation`: a result up to the inline cap is stored in
the key row, a larger one in the object store under a name derived from the key.

## Main definitions

* `Idemio.correlationID`, `Idemio.ref` — the correlation id and the object name of a key.
* `Idemio.place` — `Store.Place`, whose `Put` the environment lets succeed or fail.
* `Idemio.resolve` — `Store.Resolve`.

## Main results

* `Idemio.place_inline_xor_ref` — a result is placed inline or by reference.
-/

namespace Idemio

/-- One hexadecimal digit, in lower case. -/
def hexDigit (n : Nat) : Char := Char.ofNat (if n < 10 then 48 + n else 87 + n)

/-- `hex.EncodeToString`. -/
def hexEncode (bytes : List UInt8) : String :=
  String.ofList (bytes.flatMap fun b => [hexDigit (b.toNat / 16), hexDigit (b.toNat % 16)])

/-- The bytes of a string. -/
def utf8 (s : String) : List UInt8 := s.toList.flatMap String.utf8EncodeChar

/-- `correlation.ID`. -/
def correlationID (env : Env) (k : KeyID) : String :=
  hexEncode ((env.sha256 (utf8 (k.agentID ++ "\x00" ++ k.key))).take 16)

/-- `resultstore.Ref`. -/
def ref (env : Env) (k : KeyID) : String := "results/" ++ correlationID env k ++ ".json"

/-- `resultstore.Placement`, the flags for the metrics left out. -/
structure Placement where
  inline : RawMessage
  ref : String
  deriving DecidableEq, Repr

/-- Whether `Place` tries to put the result into the object store. -/
def offloads (env : Env) (result : RawMessage) : Bool :=
  !result.isEmpty && env.objectStore && env.resultInlineBytes < result.length

/-- `Store.Place`, where `putOK` says whether the object store took the object. -/
def place (env : Env) (k : KeyID) (result : RawMessage) (putOK : Bool) : Placement :=
  if offloads env result && putOK then ⟨[], ref env k⟩ else ⟨result, ""⟩

/-- The objects in the store. -/
abbrev Objects := String → Option RawMessage

/-- What `Place` does to the object store: a `Put` replaces. -/
def putResult (env : Env) (k : KeyID) (result : RawMessage) (putOK : Bool) (objects : Objects) :
    Objects :=
  if offloads env result && putOK then Function.update objects (ref env k) (some result)
  else objects

/-- `Store.Resolve`, where `getOK` says whether the object store answered. -/
def resolve (env : Env) (objects : Objects) (getOK : Bool) (inline : RawMessage)
    (ref : String) : Option RawMessage :=
  if ref = "" then some inline
  else if env.objectStore && getOK then objects ref
  else none

/-- A result is placed inline or by reference, never both. -/
lemma place_inline_xor_ref (env : Env) (k : KeyID) (result : RawMessage) (putOK : Bool) :
    (place env k result putOK).inline = [] ∨ (place env k result putOK).ref = "" := by
  unfold place
  split
  · exact .inl rfl
  · exact .inr rfl

end Idemio
