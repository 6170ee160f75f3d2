import Idemio.Api.Reads
import Idemio.Base.GoText
import Idemio.Config
import Idemio.Identity

set_option relaxedAutoImplicit false
set_option autoImplicit false

/-!
# Loading the configuration

`config.Load`: the settings from the environment, then the checks of `Idemio.Config.validate`. A
number of milliseconds is multiplied by `10 ^ 6` in 64 bits, and the checks add and multiply in 64
bits, so a setting that is too large is loaded as another one, which may pass.

A text is held with its bytes as characters.

## Main definitions

* `Idemio.Settings` — `config.Config`.
* `Idemio.Config.load` — `Load`.
* `Idemio.Exact` — the checks hold of what was configured, and that was loaded.

## Main results

* `Idemio.load_exact_iff` — this is so if and only if every setting, product and sum fits in 64 bits
  and the fractions of durations lose nothing in doubles.
* `Idemio.DurationSetting.ReadsExactly.of_short` — which they do not with whole nanoseconds.
-/

namespace Idemio

open GoText (parseInt readInt parseDuration readDuration roundingError)

/-! ## `Load` -/

/-- `os.Getenv`: no text for a variable that is not set. -/
abbrev Environment := String → List UInt8

/-- `config.Config`. -/
structure Settings extends Config where
  listenAddr : String
  metricsAddr : String
  manifestReloadInterval : Duration
  resultInlineBytes : Int64
  retentionKeys : Duration
  retentionIntents : Duration
  retentionConflicts : Duration
  retentionAudit : Duration
  kafkaBrokers : String
  kafkaTopic : String
  relayInterval : Duration
  relayBatch : Int64
  archiveEndpoint : String
  archiveBucket : String
  archiveAccessKey : String
  archiveSecretKey : String
  deriving DecidableEq

/-- `strings.TrimSpace(os.Getenv(key))`. -/
def Environment.raw (env : Environment) (key : String) : List UInt8 := Header.trimSpace (env key)

/-- `withDefault`. -/
def withDefault (env : Environment) (key fallback : String) : String :=
  if env.raw key ≠ [] then asciiText (env.raw key) else fallback

/-- `integer`: the value, and the problem if there is one. -/
def integer (printable : ℕ → Bool) (env : Environment) (key : String) (fallback : Int64) :
    Int64 × List String :=
  if env.raw key = [] then (fallback, [])
  else
    match parseInt (env.raw key) with
    | .error e => (fallback, [key ++ " is not an integer: " ++ e.text printable (env.raw key)])
    | .ok n => (Int64.ofInt n, [])

/-- `duration`. -/
def duration (printable : ℕ → Bool) (env : Environment) (key : String) (fallbackMS : Int64) :
    Duration × List String :=
  let (ms, problems) := integer printable env key fallbackMS
  (ms * millisecond, problems)

/-- `goDuration`. -/
def goDuration (env : Environment) (key : String) (fallback : Duration) : Duration × List String :=
  if env.raw key = [] then (fallback, [])
  else
    match parseDuration (env.raw key) with
    | .error e => (fallback, [key ++ " is not a duration: " ++ e.text (env.raw key)])
    | .ok d => (Int64.ofInt d, [])

/-- A setting in milliseconds. -/
structure MillisSetting where
  key : String
  fallback : Int64
  get : Settings → Duration

/-- A setting that is a duration. -/
structure DurationSetting where
  key : String
  fallback : Duration
  get : Settings → Duration

def claimPendingWaitMS : MillisSetting := ⟨"IDEMIO_CLAIM_PENDING_WAIT_MS", 0, (·.claimPendingWait)⟩

def downstreamConnectTimeoutMS : MillisSetting :=
  ⟨"IDEMIO_DOWNSTREAM_CONNECT_TIMEOUT_MS", 1000, (·.downstreamConnectTimeout)⟩

def downstreamTimeoutMS : MillisSetting :=
  ⟨"IDEMIO_DOWNSTREAM_TIMEOUT_MS", 10000, (·.downstreamTimeout)⟩

def conflictLockTimeoutMS : MillisSetting :=
  ⟨"IDEMIO_CONFLICT_LOCK_TIMEOUT_MS", 250, (·.conflictLockTimeout)⟩

def staleAfterSetting : DurationSetting :=
  ⟨"IDEMIO_RECONCILE_STALE_AFTER", 5 * (60 * second), (·.reconcileStaleAfter)⟩

def intervalSetting : DurationSetting :=
  ⟨"IDEMIO_RECONCILE_INTERVAL", 30 * second, (·.reconcileInterval)⟩

/-- All settings in milliseconds. -/
def millisSettings : List MillisSetting :=
  [claimPendingWaitMS, downstreamConnectTimeoutMS, downstreamTimeoutMS, conflictLockTimeoutMS]

/-- All settings that are durations. -/
def durationSettings : List DurationSetting :=
  [staleAfterSetting, intervalSetting,
    ⟨"IDEMIO_MANIFEST_RELOAD_INTERVAL", 30 * second, (·.manifestReloadInterval)⟩,
    ⟨"IDEMIO_READ_MAX_SPAN", 31 * 24 * hour, (·.readMaxSpan)⟩,
    ⟨"IDEMIO_PARTITION_AHEAD", 8 * 7 * 24 * hour, (·.partitionAhead)⟩,
    ⟨"IDEMIO_RETENTION_KEYS", 90 * 24 * hour, (·.retentionKeys)⟩,
    ⟨"IDEMIO_RETENTION_INTENTS", 90 * 24 * hour, (·.retentionIntents)⟩,
    ⟨"IDEMIO_RETENTION_CONFLICTS", 365 * 24 * hour, (·.retentionConflicts)⟩,
    ⟨"IDEMIO_RETENTION_AUDIT", 365 * 24 * hour, (·.retentionAudit)⟩,
    ⟨"IDEMIO_RELAY_INTERVAL", second, (·.relayInterval)⟩]

section

variable (printable : ℕ → Bool) (env : Environment)

/-- The literal `cfg` of `Load`. -/
def loadSettings : Settings where
  databaseURL := asciiText (env "IDEMIO_DATABASE_URL")
  listenAddr := withDefault env "IDEMIO_LISTEN_ADDR" "127.0.0.1:8080"
  metricsAddr := withDefault env "IDEMIO_METRICS_ADDR" "127.0.0.1:9090"
  authMode := withDefault env "IDEMIO_AUTH_MODE" ""
  downstreamBaseURL := asciiText (env "IDEMIO_DOWNSTREAM_BASE_URL")
  claimPendingWait := (duration printable env "IDEMIO_CLAIM_PENDING_WAIT_MS" 0).1
  reconcileStaleAfter := (goDuration env "IDEMIO_RECONCILE_STALE_AFTER" (5 * (60 * second))).1
  reconcileInterval := (goDuration env "IDEMIO_RECONCILE_INTERVAL" (30 * second)).1
  downstreamConnectTimeout := (duration printable env "IDEMIO_DOWNSTREAM_CONNECT_TIMEOUT_MS" 1000).1
  downstreamTimeout := (duration printable env "IDEMIO_DOWNSTREAM_TIMEOUT_MS" 10000).1
  payloadBytes := (integer printable env "IDEMIO_LIMITS_PAYLOAD_BYTES" 262144).1
  resultInlineBytes := (integer printable env "IDEMIO_LIMITS_RESULT_INLINE_BYTES" 65536).1
  outcomeWriteAttempts := (integer printable env "IDEMIO_OUTCOME_WRITE_ATTEMPTS" 3).1
  manifestDir := asciiText (env "IDEMIO_MANIFEST_DIR")
  manifestReloadInterval := (goDuration env "IDEMIO_MANIFEST_RELOAD_INTERVAL" (30 * second)).1
  conflictLockTimeout := (duration printable env "IDEMIO_CONFLICT_LOCK_TIMEOUT_MS" 250).1
  readMaxSpan := (goDuration env "IDEMIO_READ_MAX_SPAN" (31 * 24 * hour)).1
  partitionAhead := (goDuration env "IDEMIO_PARTITION_AHEAD" (8 * 7 * 24 * hour)).1
  retentionKeys := (goDuration env "IDEMIO_RETENTION_KEYS" (90 * 24 * hour)).1
  retentionIntents := (goDuration env "IDEMIO_RETENTION_INTENTS" (90 * 24 * hour)).1
  retentionConflicts := (goDuration env "IDEMIO_RETENTION_CONFLICTS" (365 * 24 * hour)).1
  retentionAudit := (goDuration env "IDEMIO_RETENTION_AUDIT" (365 * 24 * hour)).1
  retentionRowsPerSec := (integer printable env "IDEMIO_RETENTION_ROWS_PER_SEC" 500).1
  kafkaBrokers := asciiText (env "IDEMIO_KAFKA_BROKERS")
  kafkaTopic := withDefault env "IDEMIO_KAFKA_TOPIC" "idemio.write-intents"
  relayInterval := (goDuration env "IDEMIO_RELAY_INTERVAL" second).1
  relayBatch := (integer printable env "IDEMIO_RELAY_BATCH" 500).1
  archiveEndpoint := asciiText (env "IDEMIO_ARCHIVE_ENDPOINT")
  archiveBucket := asciiText (env "IDEMIO_ARCHIVE_BUCKET")
  archiveAccessKey := asciiText (env "IDEMIO_ARCHIVE_ACCESS_KEY")
  archiveSecretKey := asciiText (env "IDEMIO_ARCHIVE_SECRET_KEY")

/-- The problems that `Load` collects on the way. -/
def loadProblems : List String :=
  (duration printable env "IDEMIO_CLAIM_PENDING_WAIT_MS" 0).2 ++
  (goDuration env "IDEMIO_RECONCILE_STALE_AFTER" (5 * (60 * second))).2 ++
  (goDuration env "IDEMIO_RECONCILE_INTERVAL" (30 * second)).2 ++
  (duration printable env "IDEMIO_DOWNSTREAM_CONNECT_TIMEOUT_MS" 1000).2 ++
  (duration printable env "IDEMIO_DOWNSTREAM_TIMEOUT_MS" 10000).2 ++
  (integer printable env "IDEMIO_LIMITS_PAYLOAD_BYTES" 262144).2 ++
  (integer printable env "IDEMIO_LIMITS_RESULT_INLINE_BYTES" 65536).2 ++
  (integer printable env "IDEMIO_OUTCOME_WRITE_ATTEMPTS" 3).2 ++
  (goDuration env "IDEMIO_MANIFEST_RELOAD_INTERVAL" (30 * second)).2 ++
  (duration printable env "IDEMIO_CONFLICT_LOCK_TIMEOUT_MS" 250).2 ++
  (goDuration env "IDEMIO_READ_MAX_SPAN" (31 * 24 * hour)).2 ++
  (goDuration env "IDEMIO_PARTITION_AHEAD" (8 * 7 * 24 * hour)).2 ++
  (goDuration env "IDEMIO_RETENTION_KEYS" (90 * 24 * hour)).2 ++
  (goDuration env "IDEMIO_RETENTION_INTENTS" (90 * 24 * hour)).2 ++
  (goDuration env "IDEMIO_RETENTION_CONFLICTS" (365 * 24 * hour)).2 ++
  (goDuration env "IDEMIO_RETENTION_AUDIT" (365 * 24 * hour)).2 ++
  (integer printable env "IDEMIO_RETENTION_ROWS_PER_SEC" 500).2 ++
  (goDuration env "IDEMIO_RELAY_INTERVAL" second).2 ++
  (integer printable env "IDEMIO_RELAY_BATCH" 500).2

/-- `Load`. -/
def Config.load : Except String Settings :=
  if loadProblems printable env ≠ [] then
    .error ("configuration: " ++ "; ".intercalate (loadProblems printable env))
  else
    match (loadSettings printable env).validate with
    | .error e => .error e
    | .ok _ => .ok (loadSettings printable env)

end

/-! ## What was configured -/

/-- The setting in nanoseconds, as an integer of any size. -/
def MillisSetting.configured (env : Environment) (s : MillisSetting) : Option ℤ :=
  (if env.raw s.key = [] then some s.fallback.toInt else readInt (env.raw s.key)).map (· * 10 ^ 6)

/-- The setting in nanoseconds, as an integer of any size. -/
def DurationSetting.configured (env : Environment) (s : DurationSetting) : Option ℤ :=
  if env.raw s.key = [] then some s.fallback.toInt else readDuration (env.raw s.key)

/-- The relations hold between the settings as they were configured, which are the ones that were
loaded, and what is checked of them is computed without wrapping around. -/
structure Exact (env : Environment) (cfg : Settings) : Prop where
  millis : ∀ s ∈ millisSettings, s.configured env = some (s.get cfg).toInt
  durations : ∀ s ∈ durationSettings, s.configured env = some (s.get cfg).toInt
  staleAfter_budget : ∀ staleAfter ∈ staleAfterSetting.configured env,
    ∀ connect ∈ downstreamConnectTimeoutMS.configured env,
    ∀ downstream ∈ downstreamTimeoutMS.configured env, 3 * (connect + downstream) ≤ staleAfter
  staleAfter_interval : ∀ staleAfter ∈ staleAfterSetting.configured env,
    ∀ interval ∈ intervalSetting.configured env, 2 * interval < staleAfter
  claimPendingWait : ∀ wait ∈ claimPendingWaitMS.configured env,
    ∀ downstream ∈ downstreamTimeoutMS.configured env, wait < downstream
  budget : cfg.callBudget.toInt =
    cfg.downstreamConnectTimeout.toInt + cfg.downstreamTimeout.toInt
  budgets : (3 * cfg.callBudget).toInt = 3 * cfg.callBudget.toInt
  intervals : (2 * cfg.reconcileInterval).toInt = 2 * cfg.reconcileInterval.toInt

/-- The duration that the text of the setting denotes fits in 64 bits, and its fractions neither
gain nor lose a nanosecond in doubles, all together and modulo `2 ^ 64`. -/
structure DurationSetting.ReadsExactly (env : Environment) (s : DurationSetting) : Prop where
  fits : ∀ n ∈ s.configured env, Fits64 n
  rounds : 2 ^ 64 ∣ roundingError (env.raw s.key)

instance (env : Environment) (s : DurationSetting) : Decidable (s.ReadsExactly env) :=
  decidable_of_iff ((∀ n ∈ s.configured env, Fits64 n) ∧ 2 ^ 64 ∣ roundingError (env.raw s.key))
    ⟨fun h => ⟨h.1, h.2⟩, fun h => ⟨h.1, h.2⟩⟩

/-- No setting is too large. -/
structure Fits (env : Environment) : Prop where
  millis : ∀ s ∈ millisSettings, ∀ n ∈ s.configured env, Fits64 n
  durations : ∀ s ∈ durationSettings, s.ReadsExactly env
  budgets : ∀ connect ∈ downstreamConnectTimeoutMS.configured env,
    ∀ downstream ∈ downstreamTimeoutMS.configured env, Fits64 (3 * (connect + downstream))
  intervals : ∀ interval ∈ intervalSetting.configured env, Fits64 (2 * interval)

/-! ## What is loaded -/

variable {printable : ℕ → Bool} {env : Environment} {cfg : Settings}

lemma config_load_ok (h : Config.load printable env = .ok cfg) :
    loadProblems printable env = [] ∧ cfg = loadSettings printable env ∧ cfg.Accepted := by
  unfold Config.load at h
  split_ifs at h with hproblems
  cases hvalidate : (loadSettings printable env).validate with
  | error e =>
    rw [hvalidate] at h
    cases h
  | ok u =>
    rw [hvalidate] at h
    obtain rfl := Except.ok.inj h
    exact ⟨not_not.mp hproblems, rfl, Config.validate_ok_iff.mp hvalidate⟩

/-- A setting in milliseconds is loaded without a problem, modulo `2 ^ 64`. -/
lemma MillisSetting.loaded {s : MillisSetting}
    (h : (duration printable env s.key s.fallback).2 = []) :
    ∃ n, s.configured env = some n ∧
      (duration printable env s.key s.fallback).1.toInt = n.bmod (2 ^ 64) := by
  have hmillisecond : millisecond.toInt = 10 ^ 6 := by decide
  by_cases hraw : env.raw s.key = []
  · refine ⟨s.fallback.toInt * 10 ^ 6, by simp [MillisSetting.configured, hraw], ?_⟩
    simp only [duration, integer, if_pos hraw]
    rw [Int64.toInt_mul, hmillisecond]
  · simp only [duration, integer, if_neg hraw] at h ⊢
    cases hparse : parseInt (env.raw s.key) with
    | error e => simp [hparse] at h
    | ok n =>
      obtain ⟨hread, hlow, hhigh⟩ := GoText.readInt_of_parseInt hparse
      refine ⟨n * 10 ^ 6, by simp [MillisSetting.configured, hraw, hread], ?_⟩
      rw [Int64.toInt_mul, hmillisecond, Int64.toInt_ofInt_of_le hlow hhigh]

/-- A duration is loaded without a problem, as what it denotes if its text is read exactly. -/
lemma DurationSetting.loaded {s : DurationSetting} (h : (goDuration env s.key s.fallback).2 = []) :
    s.ReadsExactly env ↔
      s.configured env = some (goDuration env s.key s.fallback).1.toInt := by
  by_cases hraw : env.raw s.key = []
  · have hconfigured : s.configured env = some s.fallback.toInt := by
      rw [DurationSetting.configured, if_pos hraw]
    have hloaded : (goDuration env s.key s.fallback).1 = s.fallback := by
      rw [goDuration, if_pos hraw]
    rw [hloaded]
    refine iff_of_true ⟨fun n hn => ?_, ?_⟩ hconfigured
    · rw [hconfigured] at hn
      obtain rfl := Option.mem_some_iff.mp hn
      exact fits64_toInt _
    · rw [hraw]
      exact dvd_zero _
  · simp only [goDuration, if_neg hraw] at h ⊢
    cases hparse : parseDuration (env.raw s.key) with
    | error e => simp [hparse] at h
    | ok d =>
      obtain ⟨hlow, hhigh, m, hread, hsame⟩ := GoText.readDuration_of_parseDuration hparse
      have hconfigured : s.configured env = some m := by
        rw [DurationSetting.configured, if_neg hraw, hread]
      rw [hconfigured, Int64.toInt_ofInt_of_le hlow hhigh, Option.some_inj, hsame]
      constructor
      · rintro ⟨hfits, hrounds⟩
        exact ⟨hfits m hconfigured, hrounds⟩
      · rintro ⟨hfits, hrounds⟩
        refine ⟨fun n hn => ?_, hrounds⟩
        rw [hconfigured] at hn
        exact Option.mem_some_iff.mp hn ▸ hfits

/-- **With fractions of whole nanoseconds a text is read exactly**, if what it denotes fits: each
has no more digits than its unit has zeros. -/
lemma DurationSetting.ReadsExactly.of_short {s : DurationSetting}
    (hshort : ∀ t ∈ GoText.terms (env.raw s.key), 10 ^ t.fraction.length ∣ t.unit)
    (hfits : ∀ n ∈ s.configured env, Fits64 n) : s.ReadsExactly env :=
  ⟨hfits, GoText.roundingError_eq_zero hshort ▸ dvd_zero _⟩

section

variable (hproblems : loadProblems printable env = [])

include hproblems

lemma millis_loaded {s : MillisSetting} (hs : s ∈ millisSettings) :
    s.get (loadSettings printable env) = (duration printable env s.key s.fallback).1 ∧
      (duration printable env s.key s.fallback).2 = [] := by
  -- `delta`, because the equation lemma compares the whole sum with its parts
  delta loadProblems at hproblems
  simp only [List.append_eq_nil_iff, and_assoc] at hproblems
  simp only [millisSettings, List.mem_cons, List.not_mem_nil, or_false] at hs
  rcases hs with rfl | rfl | rfl | rfl <;> exact ⟨rfl, by tauto⟩

lemma durations_loaded {s : DurationSetting} (hs : s ∈ durationSettings) :
    s.get (loadSettings printable env) = (goDuration env s.key s.fallback).1 ∧
      (goDuration env s.key s.fallback).2 = [] := by
  delta loadProblems at hproblems
  simp only [List.append_eq_nil_iff, and_assoc] at hproblems
  simp only [durationSettings, List.mem_cons, List.not_mem_nil, or_false] at hs
  rcases hs with rfl | rfl | rfl | rfl | rfl | rfl | rfl | rfl | rfl | rfl <;>
    exact ⟨rfl, by tauto⟩

/-- **The settings in milliseconds are the configured ones if these fit.** -/
lemma millis_exact_iff :
    (∀ s ∈ millisSettings, s.configured env = some (s.get (loadSettings printable env)).toInt) ↔
      ∀ s ∈ millisSettings, ∀ n ∈ s.configured env, Fits64 n := by
  refine forall₂_congr fun s hs => ?_
  obtain ⟨hget, hnone⟩ := millis_loaded hproblems hs
  obtain ⟨n, hconfigured, hloaded⟩ := s.loaded hnone
  rw [hget, hconfigured, hloaded]
  simp only [Option.some_inj, Option.mem_some_iff, forall_eq']
  constructor
  · intro hn
    rw [hn, ← hloaded]
    exact fits64_toInt _
  · exact fun hn => hn.bmod_eq.symm

lemma durations_exact_iff :
    (∀ s ∈ durationSettings, s.configured env = some (s.get (loadSettings printable env)).toInt) ↔
      ∀ s ∈ durationSettings, s.ReadsExactly env := by
  refine forall₂_congr fun s hs => ?_
  obtain ⟨hget, hnone⟩ := durations_loaded hproblems hs
  rw [hget]
  exact (DurationSetting.loaded hnone).symm

end

/-- The checks compute without wrapping around if their products fit. -/
lemma exact_arithmetic_iff (c : Config) :
    (c.callBudget.toInt = c.downstreamConnectTimeout.toInt + c.downstreamTimeout.toInt ∧
      (3 * c.callBudget).toInt = 3 * c.callBudget.toInt) ↔
      Fits64 (3 * (c.downstreamConnectTimeout.toInt + c.downstreamTimeout.toInt)) := by
  constructor
  · rintro ⟨hsum, hproduct⟩
    rw [← hsum, ← hproduct]
    exact fits64_toInt _
  · intro hfits
    have hsum : c.callBudget.toInt =
        c.downstreamConnectTimeout.toInt + c.downstreamTimeout.toInt := by
      refine toInt_add_of_fits ?_
      unfold Fits64 at *
      omega
    refine ⟨hsum, toInt_mul_of_fits ?_⟩
    rw [hsum]
    exact hfits

lemma double_exact_iff (d : Duration) : (2 * d).toInt = 2 * d.toInt ↔ Fits64 (2 * d.toInt) := by
  constructor
  · intro h
    rw [← h]
    exact fits64_toInt _
  · intro h
    exact toInt_mul_of_fits h

/-- **What an accepted configuration is worth.** The relations hold of the settings as they were
configured, which are the ones that are loaded, and nothing that is checked wraps around, if and
only if no setting is too large. -/
theorem load_exact_iff (h : Config.load printable env = .ok cfg) : Exact env cfg ↔ Fits env := by
  obtain ⟨hproblems, rfl, haccepted⟩ := config_load_ok h
  set cfg := loadSettings printable env with hcfg
  have hmillis := millis_exact_iff hproblems
  have hdurations := durations_exact_iff hproblems
  -- once the settings are the loaded ones, either side is about these
  have hloaded : (∀ s ∈ millisSettings, s.configured env = some (s.get cfg).toInt) →
      (∀ s ∈ durationSettings, s.configured env = some (s.get cfg).toInt) →
      claimPendingWaitMS.configured env = some cfg.claimPendingWait.toInt ∧
        downstreamConnectTimeoutMS.configured env = some cfg.downstreamConnectTimeout.toInt ∧
        downstreamTimeoutMS.configured env = some cfg.downstreamTimeout.toInt ∧
        staleAfterSetting.configured env = some cfg.reconcileStaleAfter.toInt ∧
        intervalSetting.configured env = some cfg.reconcileInterval.toInt := by
    intro hm hd
    exact ⟨hm _ (by simp [millisSettings]), hm _ (by simp [millisSettings]),
      hm _ (by simp [millisSettings]), hd _ (by simp [durationSettings]),
      hd _ (by simp [durationSettings])⟩
  constructor
  · intro hexact
    obtain ⟨hwait, hconnect, hdownstream, hstale, hinterval⟩ :=
      hloaded hexact.millis hexact.durations
    refine ⟨hmillis.mp hexact.millis, hdurations.mp hexact.durations, ?_, ?_⟩
    · rw [hconnect, hdownstream]
      rintro connect ⟨⟩ downstream ⟨⟩
      exact (exact_arithmetic_iff cfg.toConfig).mp ⟨hexact.budget, hexact.budgets⟩
    · rw [hinterval]
      rintro interval ⟨⟩
      exact (double_exact_iff _).mp hexact.intervals
  · intro hfits
    have hm := hmillis.mpr hfits.millis
    have hd := hdurations.mpr hfits.durations
    obtain ⟨hwait, hconnect, hdownstream, hstale, hinterval⟩ := hloaded hm hd
    obtain ⟨hbudget, hbudgets⟩ := (exact_arithmetic_iff cfg.toConfig).mpr
      (hfits.budgets _ hconnect _ hdownstream)
    have hintervals := (double_exact_iff _).mpr (hfits.intervals _ hinterval)
    have hle := Int64.le_iff_toInt_le.mp haccepted.staleAfter_budget
    have hlt := Int64.lt_iff_toInt_lt.mp haccepted.staleAfter_interval
    have hclaim := Int64.lt_iff_toInt_lt.mp haccepted.claimPendingWait
    rw [hbudgets, hbudget] at hle
    rw [hintervals] at hlt
    refine ⟨hm, hd, ?_, ?_, ?_, hbudget, hbudgets, hintervals⟩
    · rw [hstale, hconnect, hdownstream]
      rintro staleAfter ⟨⟩ connect ⟨⟩ downstream ⟨⟩
      exact hle
    · rw [hstale, hinterval]
      rintro staleAfter ⟨⟩ interval ⟨⟩
      exact hlt
    · rw [hwait, hdownstream]
      rintro wait ⟨⟩ downstream ⟨⟩
      exact hclaim

/-- What has to be set, and a downstream timeout. -/
def requiredEnvironment (timeout : String) : Environment := fun key =>
  if key = "IDEMIO_DATABASE_URL" then utf8 "postgres://localhost/idemio"
  else if key = "IDEMIO_DOWNSTREAM_BASE_URL" then utf8 "http://127.0.0.1:9000"
  else if key = "IDEMIO_AUTH_MODE" then utf8 "trusted_header"
  else if key = "IDEMIO_MANIFEST_DIR" then utf8 "manifests"
  else if key = "IDEMIO_DOWNSTREAM_TIMEOUT_MS" then utf8 timeout
  else []

lemma exists_load (env : Environment) (h : (Config.load (fun _ => true) env).toBool = true) :
    ∃ cfg, Config.load (fun _ => true) env = .ok cfg := by
  cases hload : Config.load (fun _ => true) env with
  | error e =>
    rw [hload] at h
    cases h
  | ok cfg => exact ⟨cfg, rfl⟩

/-- A timeout of two seconds is one. -/
theorem load_exact_two_seconds : ∃ cfg,
    Config.load (fun _ => true) (requiredEnvironment " 2000 ") = .ok cfg ∧
      Exact (requiredEnvironment " 2000 ") cfg := by
  obtain ⟨cfg, hload⟩ := exists_load (requiredEnvironment " 2000 ") (by decide +kernel)
  have hfits : Fits (requiredEnvironment " 2000 ") :=
    ⟨by decide +kernel, by decide +kernel, by decide +kernel, by decide +kernel⟩
  exact ⟨cfg, hload, (load_exact_iff hload).mpr hfits⟩

/-- **A timeout that wraps around.** 18446744073710 milliseconds, 584 years, are accepted, loaded
as less than half a millisecond, and nothing like a third of the time after which a row is stale. -/
theorem load_wraps : ∃ cfg,
    Config.load (fun _ => true) (requiredEnvironment "18446744073710") = .ok cfg ∧
      cfg.downstreamTimeout = 448384 ∧
      downstreamTimeoutMS.configured (requiredEnvironment "18446744073710") =
        some 18446744073710000000 ∧
      ¬Exact (requiredEnvironment "18446744073710") cfg := by
  obtain ⟨cfg, hload⟩ := exists_load (requiredEnvironment "18446744073710") (by decide +kernel)
  obtain ⟨-, hcfg, -⟩ := config_load_ok hload
  refine ⟨cfg, hload, ?_, by decide +kernel, fun hexact => ?_⟩
  · rw [hcfg]
    decide +kernel
  · have hconfigured : staleAfterSetting.configured (requiredEnvironment "18446744073710") =
        some 300000000000 ∧
        downstreamConnectTimeoutMS.configured (requiredEnvironment "18446744073710") =
          some 1000000000 ∧
        downstreamTimeoutMS.configured (requiredEnvironment "18446744073710") =
          some 18446744073710000000 := by decide +kernel
    have := hexact.staleAfter_budget _ hconfigured.1 _ hconfigured.2.1 _ hconfigured.2.2
    omega

end Idemio
