import Mathlib.Algebra.Order.Ring.Int
import Mathlib.Algebra.Order.Ring.Pow
import Mathlib.Tactic.Linarith
import Mathlib.Tactic.Ring
import Idemio.Config

set_option relaxedAutoImplicit false
set_option autoImplicit false

/-!
# How long a handler runs after its claim

A handler that has claimed a key calls the downstream, places the result and records the outcome,
in up to `OutcomeWriteAttempts` attempts with a sleep between any two that doubles each time. A
sweep takes a key that has been pending for `ReconcileStaleAfter` to be one whose handler is gone.
`Validate` compares that time with the budget of the call only. The sleeps grow exponentially in
the number of attempts, so that with a few more of them than the default the handler outlives it.

The two do not count from the same instant. A sweep counts from `claimed_at`, which is `now()`, the
start of the claim transaction; the handler goes on from the commit of that transaction. What lies
between are the waits for locks, each for up to `ConflictLockTimeout`, and the statements, for which
there is no limit at all.

## Main definitions

* `Idemio.HandlerStage`, `Idemio.Enters` — the stages of a handler after its claim, and when it
  may enter one.
* `Idemio.Config.Running`, `Idemio.Config.Selects` — a handler may still run, and a sweep selects
  its key.
* `Idemio.Config.handlerLifetime` — the call, the placement and all attempts at their longest.

## Main results

* `Idemio.Config.Running.le`, `Idemio.Config.running_longest` — a handler never runs longer than
  that, and may run as long.
* `Idemio.writesLast_eq` — how long the attempts take.
* `Idemio.lifetime_covered_iff` — the handlers of an accepted configuration are gone when their
  keys are selected exactly if the claims, the call and the sleeps are short enough.
* `Idemio.fourteen_attempts_overtaken`, `Idemio.lock_wait_overtaken` — accepted configurations under
  which a handler is overtaken, for its sleeps or for the wait of its claim.
-/

namespace Idemio

/-! ## The stages of a handler -/

/-- How long a sleep or a deadline of this duration lasts: a negative one is over at once. -/
def span (d : Duration) : Int := max 0 d.toInt

/-- The timeout of `Place` in `persistOutcome`. -/
def placeTimeout : Duration := 5 * second

/-- The timeout of one `Complete` in `persistOutcome`. -/
def writeTimeout : Duration := 2 * second

/-- The first `backoff` of `persistOutcome`. -/
def firstBackoff : Duration := 50 * millisecond

/-- The number of attempts. -/
def Config.attempts (c : Config) : Nat := c.outcomeWriteAttempts.toInt.toNat

/-- How long the call may take: until the deadline of `callCtx`, or the timeout of the HTTP
client, of which there is none if it is not positive. -/
def Config.callLimit (c : Config) : Int :=
  if 0 < c.downstreamTimeout then min (span c.callBudget) (span c.downstreamTimeout)
  else span c.callBudget

/-- Where a handler stands after its claim has committed: in `execute`, and then in
`persistOutcome` with its variables `attempt` and `backoff`. -/
inductive HandlerStage
  | calling
  | placing
  | writing (attempt : Nat) (backoff : Duration)
  | sleeping (attempt : Nat) (backoff : Duration)
  | returned
  deriving DecidableEq

/-- The longest that a stage lasts. -/
def Config.limit (c : Config) : HandlerStage → Int
  | .calling => c.callLimit
  | .placing => span placeTimeout
  | .writing _ _ => span writeTimeout
  | .sleeping _ backoff => span backoff
  | .returned => 0

/-- The stage that comes after a stage. -/
inductive HandlerStage.Next (c : Config) : HandlerStage → HandlerStage → Prop
  | called : Next c .calling .placing
  | placed : Next c .placing (.writing 1 firstBackoff)
  | recorded {attempt : Nat} {backoff : Duration} : Next c (.writing attempt backoff) .returned
  | failed {attempt : Nat} {backoff : Duration} (hleft : attempt < c.attempts) :
      Next c (.writing attempt backoff) (.sleeping attempt backoff)
  | gaveUp {attempt : Nat} {backoff : Duration} (hnone : ¬ attempt < c.attempts) :
      Next c (.writing attempt backoff) .returned
  | slept {attempt : Nat} {backoff : Duration} :
      Next c (.sleeping attempt backoff) (.writing (attempt + 1) (backoff * 2))

/-- A handler may enter a stage this long after its claim has committed. -/
inductive Enters (c : Config) : HandlerStage → Int → Prop
  | start : Enters c .calling 0
  | next {s s' : HandlerStage} {t d : Int} (h : Enters c s t) (hnext : s.Next c s') (hd : 0 ≤ d)
      (hlimit : d ≤ c.limit s) (hsleep : ∀ a b, s = .sleeping a b → d = span b) :
      Enters c s' (t + d)

/-- The handler of a key may still run at `now`. The transaction of its claim began at `claimedAt`,
committed no later than `claimTime` after that, and the handler has gone on from there. -/
def Config.Running (c : Config) (claimTime claimedAt now : Int) : Prop :=
  ∃ committedAt s t, claimedAt ≤ committedAt ∧ committedAt ≤ claimedAt + claimTime ∧
    Enters c s t ∧ s ≠ .returned ∧ committedAt + t ≤ now ∧ now ≤ committedAt + t + c.limit s

/-- The `WHERE` of `selectStale`, for a pending key whose `claimed_at` is `claimedAt`: the start of
the transaction that claimed it. -/
def Config.Selects (c : Config) (claimedAt now : Int) : Prop :=
  claimedAt < now - c.reconcileStaleAfter.toInt

/-! ## The longest run -/

/-- How long `n` attempts take at their longest, when the first sleep is `backoff`. -/
def writesLast : Nat → Duration → Int
  | 0, _ => 0
  | 1, _ => span writeTimeout
  | n + 2, backoff => span writeTimeout + span backoff + writesLast (n + 1) (backoff * 2)

/-- The longest time after the commit of its claim at which a handler may still record an
outcome. -/
def Config.handlerLifetime (c : Config) : Int :=
  c.callLimit + span placeTimeout + writesLast c.attempts firstBackoff

lemma span_nonneg (d : Duration) : 0 ≤ span d := le_max_left ..

/-- An attempt more takes no less time. -/
lemma writesLast_le_succ (n : Nat) (backoff : Duration) :
    writesLast n backoff ≤ writesLast (n + 1) backoff := by
  induction n, backoff using writesLast.induct with
  | case1 backoff => exact span_nonneg writeTimeout
  | case2 backoff =>
    have := span_nonneg writeTimeout
    have := span_nonneg backoff
    simp only [writesLast]
    omega
  | case3 n backoff ih =>
    rw [writesLast, writesLast]
    omega

lemma writesLast_mono {n m : Nat} (hnm : n ≤ m) (backoff : Duration) :
    writesLast n backoff ≤ writesLast m backoff :=
  monotone_nat_of_le_succ (fun n => writesLast_le_succ n backoff) hnm

/-- An attempt takes as long as it may, and the sleep after it comes on top. -/
lemma writesLast_succ {n : Nat} (hn : 0 < n) (backoff : Duration) :
    writesLast (n + 1) backoff = span writeTimeout + span backoff + writesLast n (backoff * 2) := by
  cases n with
  | zero => omega
  | succ n => rw [writesLast]

/-- What is left of the lifetime of a handler at a stage. -/
def Config.remaining (c : Config) : HandlerStage → Int
  | .calling => c.handlerLifetime
  | .placing => span placeTimeout + writesLast c.attempts firstBackoff
  | .writing attempt backoff => writesLast (c.attempts + 1 - attempt) backoff
  | .sleeping attempt backoff => span backoff + writesLast (c.attempts - attempt) (backoff * 2)
  | .returned => 0

/-- The attempt that a handler makes or waits for is one of those that it may make. -/
def Config.InAttempts (c : Config) : HandlerStage → Prop
  | .writing attempt _ => 0 < attempt ∧ attempt ≤ c.attempts
  | .sleeping attempt _ => attempt < c.attempts
  | _ => True

section Bound

variable {c : Config} {s s' : HandlerStage} {t : Int}

lemma Config.callLimit_nonneg (c : Config) : 0 ≤ c.callLimit := by
  unfold Config.callLimit
  split
  · exact le_min (span_nonneg _) (span_nonneg _)
  · exact span_nonneg _

/-- The next attempt is again one that the handler may make. -/
lemma HandlerStage.Next.inAttempts (hpos : 0 < c.attempts) (h : s.Next c s')
    (hs : c.InAttempts s) : c.InAttempts s' := by
  cases h with
  | called => trivial
  | placed => exact ⟨Nat.one_pos, hpos⟩
  | recorded => trivial
  | failed hleft => exact hleft
  | gaveUp => trivial
  | slept => exact ⟨Nat.succ_pos _, hs⟩

/-- An attempt may be made within what is left. -/
lemma Config.writeTimeout_le_remaining {attempt : Nat} {backoff : Duration}
    (hs : c.InAttempts (.writing attempt backoff)) :
    span writeTimeout ≤ c.remaining (.writing attempt backoff) :=
  writesLast_mono (n := 1) (show 1 ≤ c.attempts + 1 - attempt by have := hs.2; omega) backoff

/-- A stage and what comes after it take no more than what was left. -/
lemma HandlerStage.Next.remaining_le (h : s.Next c s') (hs : c.InAttempts s) :
    c.limit s + c.remaining s' ≤ c.remaining s := by
  cases h with
  | called =>
    simp only [Config.limit, Config.remaining, Config.handlerLifetime]
    omega
  | placed => simp [Config.limit, Config.remaining]
  | recorded => simpa [Config.limit, Config.remaining] using c.writeTimeout_le_remaining hs
  | gaveUp => simpa [Config.limit, Config.remaining] using c.writeTimeout_le_remaining hs
  | @failed attempt backoff hleft =>
    have hattempts : c.attempts + 1 - attempt = (c.attempts - attempt) + 1 := by omega
    simp only [Config.limit, Config.remaining]
    rw [hattempts, writesLast_succ (by omega)]
    omega
  | slept => simp [Config.limit, Config.remaining]

/-- A stage that is not the last takes no more than what is left.

**Proof sketch.** Every stage but the last has a next one, and what is left there is not
negative. -/
lemma Config.limit_le_remaining (hs : c.InAttempts s) : c.limit s ≤ c.remaining s := by
  have hwrites := fun n b => writesLast_mono (Nat.zero_le n) b
  simp only [writesLast] at hwrites
  cases s with
  | calling =>
    have := hwrites c.attempts firstBackoff
    have := span_nonneg placeTimeout
    simp only [Config.limit, Config.remaining, Config.handlerLifetime]
    omega
  | placing => simpa [Config.limit, Config.remaining] using hwrites ..
  | writing attempt backoff => exact c.writeTimeout_le_remaining hs
  | sleeping attempt backoff => simpa [Config.limit, Config.remaining] using hwrites ..
  | returned => exact le_rfl

/-- **The lifetime of a handler.** Whatever stage a handler enters and whenever it does, what is
left there ends within its lifetime.

**Proof sketch.** Induction on how the stage is entered; a step uses up at least the time that it
takes. -/
lemma Enters.bound (hpos : 0 < c.attempts) (h : Enters c s t) :
    c.InAttempts s ∧ t + c.remaining s ≤ c.handlerLifetime := by
  induction h with
  | start => exact ⟨trivial, by simp [Config.remaining]⟩
  | next _ hnext _ hlimit _ ih =>
    obtain ⟨hs, hle⟩ := ih
    have := hnext.remaining_le hs
    exact ⟨hnext.inAttempts hpos hs, by omega⟩

/-- A handler that may still run was claimed no longer ago than its claim and its lifetime take. -/
lemma Config.Running.le {claimTime claimedAt now : Int} (hpos : 0 < c.attempts)
    (h : c.Running claimTime claimedAt now) : now ≤ claimedAt + claimTime + c.handlerLifetime := by
  obtain ⟨committedAt, s, t, -, hcommitted, henters, -, -, hle⟩ := h
  obtain ⟨hs, hbound⟩ := henters.bound hpos
  have := c.limit_le_remaining hs
  omega

/-- From any attempt on, a handler whose attempts all fail and take as long as they may makes its
last one when nothing else is left.

**Proof sketch.** Induction on the number of attempts that are left. -/
lemma Enters.exists_last {attempt : Nat} {backoff : Duration}
    (h : Enters c (.writing attempt backoff) t) (hattempt : attempt ≤ c.attempts) :
    ∃ last, Enters c (.writing c.attempts last)
      (t + c.remaining (.writing attempt backoff) - span writeTimeout) := by
  obtain ⟨n, hn⟩ := Nat.exists_eq_add_of_le hattempt
  induction n generalizing attempt backoff t with
  | zero =>
    refine ⟨backoff, ?_⟩
    have hone : c.attempts + 1 - attempt = 1 := by omega
    have htime : t + c.remaining (.writing attempt backoff) - span writeTimeout = t := by
      simp only [Config.remaining, hone, writesLast]
      omega
    rw [htime, hn]
    exact h
  | succ n ih =>
    have hsleeping : Enters c (.sleeping attempt backoff) (t + span writeTimeout) :=
      .next h (.failed (by omega)) (span_nonneg _) le_rfl (by simp)
    have hwriting : Enters c (.writing (attempt + 1) (backoff * 2))
        (t + span writeTimeout + span backoff) :=
      .next hsleeping .slept (span_nonneg _) le_rfl (by simp)
    obtain ⟨last, hlast⟩ := ih hwriting (by omega) (by omega)
    refine ⟨last, ?_⟩
    have hleft : c.attempts + 1 - attempt = (c.attempts + 1 - (attempt + 1)) + 1 := by omega
    have htime : t + span writeTimeout + span backoff +
          c.remaining (.writing (attempt + 1) (backoff * 2)) - span writeTimeout =
        t + c.remaining (.writing attempt backoff) - span writeTimeout := by
      simp only [Config.remaining]
      rw [hleft, writesLast_succ (by omega)]
      omega
    rwa [htime] at hlast

/-- **A handler may run as long as that**: if its claim takes all the time that it may, and so does
every stage. -/
lemma Config.running_longest (hpos : 0 < c.attempts) {claimTime : Int} (hclaim : 0 ≤ claimTime)
    (claimedAt : Int) :
    c.Running claimTime claimedAt (claimedAt + claimTime + c.handlerLifetime) := by
  have hplacing : Enters c .placing (0 + c.callLimit) :=
    .next .start .called c.callLimit_nonneg le_rfl (by simp)
  have hwriting : Enters c (.writing 1 firstBackoff) (0 + c.callLimit + span placeTimeout) :=
    .next hplacing .placed (span_nonneg _) le_rfl (by simp)
  obtain ⟨last, hlast⟩ := hwriting.exists_last hpos
  have hwrite := span_nonneg writeTimeout
  have hone : c.attempts + 1 - 1 = c.attempts := rfl
  refine ⟨claimedAt + claimTime, _, _, by omega, le_rfl, hlast, by simp, ?_, ?_⟩ <;>
    simp only [Config.remaining, Config.limit, Config.handlerLifetime, hone] <;> omega

end Bound

/-! ## The length of the sleeps -/

/-- A backoff doubles as long as it fits. -/
lemma toInt_mul_two {d : Duration} (h0 : 0 ≤ d.toInt) (hd : d.toInt * 2 < 2 ^ 63) :
    (d * 2).toInt = d.toInt * 2 := by
  have htwo : (2 : Duration).toInt = 2 := rfl
  have hfits : Fits64 (d.toInt * (2 : Duration).toInt) := by
    rw [htwo]
    exact ⟨by omega, hd⟩
  rw [toInt_mul_of_fits hfits, htwo]

/-- **How long the attempts take**, as long as the backoff fits into its 64 bits.

**Proof sketch.** Induction on the number of attempts: the sleeps after the first one are those
that begin with twice the backoff. -/
lemma writesLast_eq {n : Nat} {backoff : Duration} (h0 : 0 ≤ backoff.toInt)
    (hfits : backoff.toInt * 2 ^ n < 2 ^ 64) :
    writesLast (n + 1) backoff =
      span writeTimeout * (n + 1) + backoff.toInt * (2 ^ n - 1) := by
  induction n generalizing backoff with
  | zero => simp [writesLast]
  | succ n ih =>
    have hspan : span backoff = backoff.toInt := max_eq_right h0
    rw [writesLast_succ n.succ_pos, hspan]
    cases n with
    | zero =>
      simp [writesLast]
      ring
    | succ n =>
      have hpow : (2 : Int) ^ (n + 1 + 1) = 2 ^ n * 4 := by ring
      have hdouble := toInt_mul_two h0
        (by nlinarith [one_le_pow₀ (by omega : (1 : Int) ≤ 2) (n := n)])
      rw [ih (by omega) (by rw [hdouble]; rw [pow_succ] at hfits; linarith), hdouble]
      push_cast
      ring

/-- Beyond this many attempts the sleeps are longer than any duration. -/
lemma le_writesLast_firstBackoff {n : Nat} (hn : 38 ≤ n) :
    2 ^ 63 ≤ writesLast (n + 1) firstBackoff := by
  have hfits : firstBackoff.toInt * 2 ^ 38 < 2 ^ 64 := by decide
  calc (2 : Int) ^ 63 ≤ writesLast 39 firstBackoff := by
        rw [writesLast_eq (by decide) hfits]
        decide
    _ ≤ writesLast (n + 1) firstBackoff := writesLast_mono (by omega) firstBackoff

/-- The attempts fit into a duration exactly if their lengths in exact arithmetic do: where the
backoff wraps around, both are too long for that. -/
lemma writesLast_lt_iff {n : Nat} {m : Int} (hm : m ≤ 2 ^ 63) :
    writesLast (n + 1) firstBackoff < m ↔
      2000000000 * (n + 1) + 50000000 * (2 ^ n - 1) < m := by
  have hwrite : span writeTimeout = 2000000000 := by decide
  have hfirst : firstBackoff.toInt = 50000000 := by decide
  rcases Nat.lt_or_ge n 38 with hlt | hge
  · have hpow : (2 : Int) ^ n ≤ 2 ^ 38 := pow_le_pow_right₀ (by omega) hlt.le
    rw [writesLast_eq (by decide) (by rw [hfirst]; omega), hwrite, hfirst]
  · have hpow : (2 : Int) ^ 38 ≤ 2 ^ n := pow_le_pow_right₀ (by omega) hge
    have := le_writesLast_firstBackoff hge
    constructor
    · intro h
      omega
    · intro h
      omega

/-- The lifetime of a handler and any time on top of it fit into a duration exactly if their
lengths in exact arithmetic do. -/
lemma Config.handlerLifetime_lt_iff {c : Config} (h : c.validate = .ok ()) {m : Int}
    (hm : m ≤ 2 ^ 63) :
    c.handlerLifetime < m ↔
      c.callLimit + 5000000000 + 2000000000 * c.outcomeWriteAttempts.toInt +
        50000000 * (2 ^ (c.outcomeWriteAttempts.toInt.toNat - 1) - 1) < m := by
  have hone : 1 ≤ c.outcomeWriteAttempts.toInt :=
    Int64.le_iff_toInt_le.mp (Config.validate_ok_iff.mp h).outcomeWriteAttempts
  obtain ⟨n, hn⟩ : ∃ n, c.outcomeWriteAttempts.toInt.toNat = n + 1 :=
    Nat.exists_eq_succ_of_ne_zero (by omega)
  have hattempts : c.outcomeWriteAttempts.toInt = n + 1 := by omega
  have hplace : span placeTimeout = 5000000000 := by decide
  have hcall := c.callLimit_nonneg
  have hwrites := writesLast_lt_iff (n := n) (m := m - c.callLimit - 5000000000) (by omega)
  rw [Config.handlerLifetime, Config.attempts, hn, hattempts, hplace, Nat.add_sub_cancel]
  omega

/-- **The handlers of an accepted configuration are gone when their keys are selected exactly if
claims, calls and sleeps are short enough.** The longest time after the commit of its claim at which
a handler still runs is the sum of the call, 5 s, 2 s for each attempt and `50 ms · (2ⁿ⁻¹ - 1)` for
`n` attempts: it is less than `ReconcileStaleAfter` exactly if that sum is. And if claims commit up
to `claimTime` after the start of their transaction, then no sweep selects a key whose handler still
runs exactly if `claimTime` and the sum are together no more than `ReconcileStaleAfter`. -/
theorem lifetime_covered_iff {c : Config} (h : c.validate = .ok ()) {claimTime : Int}
    (hclaim : 0 ≤ claimTime) :
    IsGreatest {t | c.Running 0 0 t} c.handlerLifetime ∧
    (c.handlerLifetime < c.reconcileStaleAfter.toInt ↔
      c.callLimit + 5000000000 + 2000000000 * c.outcomeWriteAttempts.toInt +
        50000000 * (2 ^ (c.outcomeWriteAttempts.toInt.toNat - 1) - 1) <
      c.reconcileStaleAfter.toInt) ∧
    ((∀ claimedAt now, c.Running claimTime claimedAt now → ¬ c.Selects claimedAt now) ↔
      claimTime + (c.callLimit + 5000000000 + 2000000000 * c.outcomeWriteAttempts.toInt +
        50000000 * (2 ^ (c.outcomeWriteAttempts.toInt.toNat - 1) - 1)) ≤
      c.reconcileStaleAfter.toInt) := by
  have hstale : c.reconcileStaleAfter.toInt < 2 ^ 63 := Int64.toInt_lt c.reconcileStaleAfter
  have hpos : 0 < c.attempts := by
    have := Int64.le_iff_toInt_le.mp (Config.validate_ok_iff.mp h).outcomeWriteAttempts
    have hone : (1 : Int64).toInt = 1 := by decide
    unfold Config.attempts
    omega
  refine ⟨⟨?_, ?_⟩, Config.handlerLifetime_lt_iff h hstale.le, ?_⟩
  · simpa using c.running_longest hpos le_rfl 0
  · intro t ht
    simpa using ht.le hpos
  have hcovered := Config.handlerLifetime_lt_iff h
    (m := c.reconcileStaleAfter.toInt - claimTime + 1) (by omega)
  have hexact : (∀ claimedAt now, c.Running claimTime claimedAt now →
      ¬ c.Selects claimedAt now) ↔
      c.handlerLifetime < c.reconcileStaleAfter.toInt - claimTime + 1 := by
    unfold Config.Selects
    constructor
    · intro hnone
      -- the longest run is one of those that are not selected
      have := hnone 0 _ (c.running_longest hpos hclaim 0)
      omega
    · intro hlt claimedAt now hrunning
      have := hrunning.le hpos
      omega
  rw [hexact, hcovered]
  omega

/-- The three attempts of the documented defaults are over in time, even if a claim takes four
minutes. -/
theorem lifetime_covered_default : (Config.default 3).validate = .ok () ∧
    IsGreatest {t | (Config.default 3).Running 0 0 t} (Config.default 3).handlerLifetime ∧
    (Config.default 3).handlerLifetime < (Config.default 3).reconcileStaleAfter.toInt ∧
    ∀ claimedAt now, (Config.default 3).Running 240000000000 claimedAt now →
      ¬ (Config.default 3).Selects claimedAt now := by
  have hvalid : (Config.default 3).validate = .ok () := by decide +kernel
  have hclaim : (0 : Int) ≤ 240000000000 := by decide
  obtain ⟨hgreatest, hlifetime, hselects⟩ := lifetime_covered_iff hvalid hclaim
  exact ⟨hvalid, hgreatest, hlifetime.mpr (by decide), hselects.mpr (by decide)⟩

/-! ## Handlers that are overtaken -/

/-- A handler is overtaken whose claim and lifetime may take longer than a key is left alone. -/
lemma Config.exists_overtaken {c : Config} (hpos : 0 < c.attempts) {claimTime : Int}
    (hclaim : 0 ≤ claimTime) (hlt : c.reconcileStaleAfter.toInt < claimTime + c.handlerLifetime) :
    ∃ now, c.Running claimTime 0 now ∧ c.Selects 0 now := by
  refine ⟨_, c.running_longest hpos hclaim 0, ?_⟩
  unfold Config.Selects
  omega

/-- With 14 attempts and defaults otherwise, which is accepted, a handler may run for longer than
300 s, most of which it sleeps. A sweep then selects its key, even if the claim took no time. -/
theorem fourteen_attempts_overtaken : (Config.default 14).validate = .ok () ∧
    (Config.default 14).reconcileStaleAfter.toInt < (Config.default 14).handlerLifetime ∧
    ∃ now, (Config.default 14).Running 0 0 now ∧ (Config.default 14).Selects 0 now :=
  ⟨by decide +kernel, by decide, Config.exists_overtaken (by decide) le_rfl (by decide)⟩

/-- With a lock timeout of 300 s and defaults otherwise, which is accepted too, the handler itself
is in time. But a claim that waits for its lock as long as it may has a `claimed_at` from before the
wait, and a sweep selects the key while its handler runs. -/
theorem lock_wait_overtaken : ∃ c : Config, c = { Config.default 3 with
      conflictLockTimeout := 300 * second } ∧ c.validate = .ok () ∧
    c.handlerLifetime < c.reconcileStaleAfter.toInt ∧
    ∃ now, c.Running (span c.conflictLockTimeout) 0 now ∧ c.Selects 0 now :=
  ⟨_, rfl, by decide +kernel, by decide,
    Config.exists_overtaken (by decide) (span_nonneg _) (by decide)⟩

end Idemio
