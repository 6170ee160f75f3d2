import Mathlib.Algebra.Order.Group.Nat
import Mathlib.Algebra.Order.Ring.Int
import Mathlib.Data.List.Basic
import Mathlib.Tactic.Lemma

set_option relaxedAutoImplicit false
set_option autoImplicit false

/-!
# The configuration

`internal/config`: the settings that the layer boots with, and the relations between them that it
checks before it does. Durations are 64-bit counts of nanoseconds, and the sums and multiples that
are checked wrap around as those do.

## Main definitions

* `Idemio.Duration` — `time.Duration`, and how it is printed.
* `Idemio.Fits64` — an integer of 64 bits, on which sums and products are exact.
* `Idemio.Config` — what is checked of the configuration.
* `Idemio.Config.problems`, `Idemio.Config.validate` — `Validate`.

## Main results

* `Idemio.Config.validate_ok_iff` — what an accepted configuration satisfies.
-/

namespace Idemio

/-! ## Durations -/

/-- `time.Duration`, nanoseconds. -/
abbrev Duration := Int64

/-- `time.Millisecond`. -/
def millisecond : Duration := 1000000

/-- `time.Second`. -/
def second : Duration := 1000 * millisecond

/-- `time.Hour`. -/
def hour : Duration := 3600 * second

/-- The integer is one of 64 bits. -/
def Fits64 (n : ℤ) : Prop := -2 ^ 63 ≤ n ∧ n < 2 ^ 63

instance (n : ℤ) : Decidable (Fits64 n) := inferInstanceAs (Decidable (_ ∧ _))

lemma fits64_toInt (d : Int64) : Fits64 d.toInt := ⟨d.le_toInt, d.toInt_lt⟩

lemma Fits64.bmod_eq {n : ℤ} (h : Fits64 n) : n.bmod (2 ^ 64) = n := by
  obtain ⟨hlow, hhigh⟩ := h
  refine Int.bmod_eq_of_le_mul_two ?_ ?_ <;> push_cast <;> omega

lemma toInt_add_of_fits {a b : Int64} (h : Fits64 (a.toInt + b.toInt)) :
    (a + b).toInt = a.toInt + b.toInt := by
  rw [Int64.toInt_add, h.bmod_eq]

lemma toInt_mul_of_fits {a b : Int64} (h : Fits64 (a.toInt * b.toInt)) :
    (a * b).toInt = a.toInt * b.toInt := by
  rw [Int64.toInt_mul, h.bmod_eq]

/-- `n` with the decimal point before its last `digits` digits and no zeros at the end. -/
def decimalPoint (n digits : Nat) : String :=
  let fraction := (List.range digits).map fun i => n / 10 ^ (digits - 1 - i) % 10
  let kept := (fraction.reverse.dropWhile (· = 0)).reverse
  toString (n / 10 ^ digits) ++
    if kept.isEmpty then "" else "." ++ String.join (kept.map toString)

/-- `Duration.String`, of an absolute value. -/
def natDurationString (u : Nat) : String :=
  if u = 0 then "0s"
  else if u < 10 ^ 3 then toString u ++ "ns"
  else if u < 10 ^ 6 then decimalPoint u 3 ++ "µs"
  else if u < 10 ^ 9 then decimalPoint u 6 ++ "ms"
  else
    let minutes := u / (60 * 10 ^ 9)
    (if minutes / 60 = 0 then "" else toString (minutes / 60) ++ "h") ++
      (if minutes = 0 then "" else toString (minutes % 60) ++ "m") ++
      decimalPoint (u % (60 * 10 ^ 9)) 9 ++ "s"

/-- `Duration.String`. -/
def durationString (d : Duration) : String :=
  (if d < 0 then "-" else "") ++ natDurationString d.toInt.natAbs

/-! ## `Validate` -/

/-- `config.Config`, the settings that `Validate` checks. -/
structure Config where
  databaseURL : String
  authMode : String
  claimPendingWait : Duration
  manifestDir : String
  conflictLockTimeout : Duration
  readMaxSpan : Duration
  reconcileStaleAfter : Duration
  reconcileInterval : Duration
  downstreamBaseURL : String
  downstreamConnectTimeout : Duration
  downstreamTimeout : Duration
  payloadBytes : Int64
  outcomeWriteAttempts : Int64
  partitionAhead : Duration
  retentionRowsPerSec : Int64
  deriving DecidableEq

/-- `AuthModeTrustedHeader`. -/
def authModeTrustedHeader : String := "trusted_header"

/-- `SerializeWait`, and the `callBudget` of `Validate` and of `execute`. -/
def Config.callBudget (c : Config) : Duration := c.downstreamConnectTimeout + c.downstreamTimeout

/-- One check of `Validate`: its message if it fails. -/
def check (failed : Bool) (message : String) : List String := if failed then [message] else []

/-- The problems that `Validate` collects. -/
def Config.problems (c : Config) : List String :=
  check (c.databaseURL = "") "IDEMIO_DATABASE_URL is required" ++
  check (c.downstreamBaseURL = "") "IDEMIO_DOWNSTREAM_BASE_URL is required" ++
  check (c.authMode ≠ authModeTrustedHeader)
    ("IDEMIO_AUTH_MODE must be set to \"" ++ authModeTrustedHeader ++
      "\"; running without verified identity is never a default") ++
  check (c.reconcileStaleAfter < 3 * c.callBudget)
    ("IDEMIO_RECONCILE_STALE_AFTER (" ++ durationString c.reconcileStaleAfter ++
      ") must be at least 3x the downstream call budget (" ++
      durationString (3 * c.callBudget) ++ ")") ++
  check (c.reconcileStaleAfter ≤ 2 * c.reconcileInterval)
    ("IDEMIO_RECONCILE_STALE_AFTER (" ++ durationString c.reconcileStaleAfter ++
      ") must exceed twice IDEMIO_RECONCILE_INTERVAL (" ++
      durationString (2 * c.reconcileInterval) ++ ")") ++
  check (c.claimPendingWait ≥ c.downstreamTimeout)
    ("IDEMIO_CLAIM_PENDING_WAIT_MS (" ++ durationString c.claimPendingWait ++
      ") must be below IDEMIO_DOWNSTREAM_TIMEOUT_MS (" ++
      durationString c.downstreamTimeout ++ ")") ++
  check (c.outcomeWriteAttempts < 1) "IDEMIO_OUTCOME_WRITE_ATTEMPTS must be at least 1" ++
  check (c.payloadBytes < 1) "IDEMIO_LIMITS_PAYLOAD_BYTES must be positive" ++
  check (c.manifestDir = "")
    ("IDEMIO_MANIFEST_DIR is required; conflict semantics and error classification " ++
      "are declared, never inferred") ++
  check (c.conflictLockTimeout ≤ 0)
    ("IDEMIO_CONFLICT_LOCK_TIMEOUT_MS must be positive; without a bound a hot " ++
      "resource consumes one connection per waiter") ++
  check (c.readMaxSpan ≤ 0) "IDEMIO_READ_MAX_SPAN must be positive" ++
  check (c.partitionAhead < 4 * 7 * 24 * hour)
    ("IDEMIO_PARTITION_AHEAD (" ++ durationString c.partitionAhead ++
      ") must be at least the four weeks at which IdemioPartitionHeadroomLow pages") ++
  check (c.retentionRowsPerSec < 1) "IDEMIO_RETENTION_ROWS_PER_SEC must be positive"

/-- `Config.Validate`. -/
def Config.validate (c : Config) : Except String Unit :=
  if c.problems ≠ [] then .error ("configuration: " ++ "; ".intercalate c.problems) else .ok ()

/-- What `Validate` requires. -/
structure Config.Accepted (c : Config) : Prop where
  databaseURL : c.databaseURL ≠ ""
  downstreamBaseURL : c.downstreamBaseURL ≠ ""
  authMode : c.authMode = authModeTrustedHeader
  staleAfter_budget : 3 * c.callBudget ≤ c.reconcileStaleAfter
  staleAfter_interval : 2 * c.reconcileInterval < c.reconcileStaleAfter
  claimPendingWait : c.claimPendingWait < c.downstreamTimeout
  outcomeWriteAttempts : 1 ≤ c.outcomeWriteAttempts
  payloadBytes : 1 ≤ c.payloadBytes
  manifestDir : c.manifestDir ≠ ""
  conflictLockTimeout : 0 < c.conflictLockTimeout
  readMaxSpan : 0 < c.readMaxSpan
  partitionAhead : 4 * 7 * 24 * hour ≤ c.partitionAhead
  retentionRowsPerSec : 1 ≤ c.retentionRowsPerSec

/-- **What an accepted configuration satisfies**: each of the checks. -/
lemma Config.validate_ok_iff {c : Config} : c.validate = .ok () ↔ c.Accepted := by
  have hproblems : c.validate = .ok () ↔ c.problems = [] := by
    unfold Config.validate
    split <;> simp_all
  rw [hproblems]
  simp only [Config.problems, check, List.append_eq_nil_iff, ite_eq_right_iff, List.cons_ne_nil,
    imp_false, decide_eq_true_eq, Int64.not_lt, Int64.not_le, ge_iff_le, ne_eq, not_not]
  constructor
  · rintro ⟨⟨⟨⟨⟨⟨⟨⟨⟨⟨⟨⟨h₁, h₂⟩, h₃⟩, h₄⟩, h₅⟩, h₆⟩, h₇⟩, h₈⟩, h₉⟩, h₁₀⟩, h₁₁⟩, h₁₂⟩, h₁₃⟩
    exact ⟨h₁, h₂, h₃, h₄, h₅, h₆, h₇, h₈, h₉, h₁₀, h₁₁, h₁₂, h₁₃⟩
  · rintro ⟨h₁, h₂, h₃, h₄, h₅, h₆, h₇, h₈, h₉, h₁₀, h₁₁, h₁₂, h₁₃⟩
    exact ⟨⟨⟨⟨⟨⟨⟨⟨⟨⟨⟨⟨h₁, h₂⟩, h₃⟩, h₄⟩, h₅⟩, h₆⟩, h₇⟩, h₈⟩, h₉⟩, h₁₀⟩, h₁₁⟩, h₁₂⟩, h₁₃⟩

/-- The documented defaults, with a number of attempts to record an outcome. -/
def Config.default (attempts : Int64) : Config where
  databaseURL := "postgres://localhost/idemio"
  authMode := authModeTrustedHeader
  claimPendingWait := 0
  manifestDir := "manifests"
  conflictLockTimeout := 250 * millisecond
  readMaxSpan := 31 * 24 * hour
  reconcileStaleAfter := 300 * second
  reconcileInterval := 30 * second
  downstreamBaseURL := "http://127.0.0.1:9000"
  downstreamConnectTimeout := second
  downstreamTimeout := 10 * second
  payloadBytes := 262144
  outcomeWriteAttempts := attempts
  partitionAhead := 8 * 7 * 24 * hour
  retentionRowsPerSec := 500

example : (Config.default 3).validate = .ok () := by decide +kernel

example : ({ Config.default 3 with reconcileStaleAfter := 20 * second }).validate = .error
    ("configuration: IDEMIO_RECONCILE_STALE_AFTER (20s) must be at least 3x the downstream call " ++
      "budget (33s); IDEMIO_RECONCILE_STALE_AFTER (20s) must exceed twice " ++
      "IDEMIO_RECONCILE_INTERVAL (1m0s)") := by decide +kernel

end Idemio
