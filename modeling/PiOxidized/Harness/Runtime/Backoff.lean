/-
# The delays of retries

A policy doubles its delay with each attempt. The shift behind the doubling loses the bits that
leave 64 bits and the range check sees only what is left, but an attempt is made only after the
retry before it was scheduled, so the product outgrows the check before a bit can get lost.
-/

import PiOxidized.Harness.Runtime.Drive
import PiOxidized.Math.Fallible

namespace PiOxidized.Harness.Runtime

open Math

/-- The retry policy of a configuration. -/
structure HarnessRetryPolicy where
  enabled : Bool
  maxRetries : U64
  baseDelayMs : U64
  deriving DecidableEq

/-- Retry policy values that cannot be represented safely at the wire edge. -/
structure InvalidRetryPolicy where
  deriving DecidableEq

/-- The safe-integer bounds of the wire format; the retries leave room for the first attempt. -/
def HarnessRetryPolicy.validate (policy : HarnessRetryPolicy) : Except InvalidRetryPolicy Unit :=
  if 9007199254740991 ≤ policy.maxRetries.val ∨ 9007199254740991 < policy.baseDelayMs.val then
    .error {}
  else .ok ()

namespace NormalizedRetryPolicy

/-- The persisted form of a policy. A disabled one yields exactly one attempt. -/
def tryFrom (policy : HarnessRetryPolicy) : Except InvalidRetryPolicy NormalizedRetryPolicy := do
  policy.validate
  let maxAttempts ← if policy.enabled then (policy.maxRetries.checkedAdd 1).elim (.error {}) .ok
    else .ok U64.one
  pure ⟨maxAttempts, policy.baseDelayMs⟩

variable {policy : NormalizedRetryPolicy} {attempt : U64}

/-- The delay that an attempt asks for. -/
def backoff (policy : NormalizedRetryPolicy) (attempt : U64) : Nat :=
  policy.baseDelayMs.val * 2 ^ (attempt.val - 1)

/-- The attempts of a request: the first one, and each one that the retry before it names. -/
inductive Made (policy : NormalizedRetryPolicy) : U64 → Prop
  | first : Made policy U64.one
  | retried {kind errorMessage : String} {attempt : U64} {now : Int} {retry : RetryWait}
      (made : Made policy attempt) (hlast : attempt < policy.maxAttempts)
      (hretry : scheduleRetry kind policy attempt now errorMessage = .ok retry) :
      Made policy retry.nextAttempt

/-- A retry after the attempt is scheduled, the delay away from the clock. -/
def Schedules (policy : NormalizedRetryPolicy) (attempt : U64) (delay : Int) : Prop :=
  policy.Made attempt ∧ attempt < policy.maxAttempts ∧ ∃ kind now errorMessage retry,
    scheduleRetry kind policy attempt now errorMessage = .ok retry ∧ retry.notBefore = now + delay

/-- Scheduled delays are the ones asked for, never shrink, and stay in the timestamp range. -/
structure BacksOff (policy : NormalizedRetryPolicy) : Prop where
  exact : ∀ attempt delay, policy.Schedules attempt delay → delay = policy.backoff attempt
  grows : ∀ a b delay later, a ≤ b → policy.Schedules a delay → policy.Schedules b later →
    delay ≤ later
  refuses : ∀ kind attempt now errorMessage, policy.Made attempt → attempt < policy.maxAttempts →
    2 ^ 63 ≤ policy.backoff attempt ∨ 2 ^ 63 ≤ now + policy.backoff attempt →
    ∃ error, scheduleRetry kind policy attempt now errorMessage = .error error

theorem scheduleRetry_eq_ok {kind errorMessage : String} {now : Int} {retry : RetryWait}
    (h : scheduleRetry kind policy attempt now errorMessage = .ok retry) :
    (retryDelay policy.baseDelayMs attempt).val < 2 ^ 63 ∧
      retry.nextAttempt.val = attempt.val + 1 ∧
      retry.notBefore = now + (retryDelay policy.baseDelayMs attempt).val ∧
      retry.notBefore < 2 ^ 63 := by
  simp only [scheduleRetry] at h
  split_ifs at h with hdelay hstamp
  cases hnext : attempt.checkedAdd 1 with
  | none => simp [hnext] at h
  | some next =>
    rw [hnext] at h
    cases h
    exact ⟨by omega, U64.checkedAdd_eq_some hnext, rfl, by simpa using hstamp⟩

/-- A delay that fits 64 bits is shifted without loss. -/
theorem retryDelay_eq (h : policy.backoff attempt < 2 ^ 64) :
    (retryDelay policy.baseDelayMs attempt).val = policy.backoff attempt := by
  by_cases hshift : attempt.val - 1 ≤ 63
  · simp only [retryDelay, Nat.shiftLeft_eq, min_eq_left hshift]
    exact Nat.mod_eq_of_lt h
  · have hlarge : 2 ^ 64 ≤ 2 ^ (attempt.val - 1) := Nat.pow_le_pow_right (by decide) (by omega)
    have hzero : policy.baseDelayMs.val = 0 := by
      by_contra hpos
      have := Nat.le_mul_of_pos_left (2 ^ (attempt.val - 1)) (Nat.pos_of_ne_zero hpos)
      rw [backoff] at h
      omega
    simp [retryDelay, backoff, hzero]

/-- No attempt that is made asks for more than 64 bits: the delay before it passed the check of
63 bits and was exact, and it is doubled only once in between. -/
theorem Made.backoff_lt (h : policy.Made attempt) :
    1 ≤ attempt.val ∧ policy.backoff attempt < 2 ^ 64 := by
  induction h with
  | first => exact ⟨by decide, by simp [backoff, U64.one]⟩
  | @retried kind errorMessage attempt now retry _ _ hretry ih =>
    obtain ⟨hone, hfits⟩ := ih
    obtain ⟨hdelay, hnext, -, -⟩ := scheduleRetry_eq_ok hretry
    rw [retryDelay_eq hfits] at hdelay
    have hdouble : policy.backoff retry.nextAttempt = 2 * policy.backoff attempt := by
      obtain ⟨n, hn⟩ : ∃ n, attempt.val = n + 1 := ⟨attempt.val - 1, by omega⟩
      simp only [backoff, hnext, hn, Nat.add_sub_cancel, pow_succ]
      ring
    omega

/-- The retries after the attempts that are made back off, whatever the policy. -/
theorem backsOff (policy : NormalizedRetryPolicy) : policy.BacksOff := by
  have hexact : ∀ attempt delay, policy.Schedules attempt delay →
      delay = policy.backoff attempt := by
    rintro attempt delay ⟨hmade, -, kind, now, errorMessage, retry, hretry, hdelay⟩
    obtain ⟨-, -, hstamp, -⟩ := scheduleRetry_eq_ok hretry
    have := retryDelay_eq hmade.backoff_lt.2
    omega
  refine ⟨hexact, fun a b delay later hle hdelay hlater => ?_, ?_⟩
  · rw [hexact a _ hdelay, hexact b _ hlater]
    have hpow : 2 ^ (a.val - 1) ≤ 2 ^ (b.val - 1) :=
      Nat.pow_le_pow_right (by decide) (Nat.sub_le_sub_right hle 1)
    exact Int.ofNat_le.mpr (Nat.mul_le_mul_left _ hpow)
  · intro kind attempt now errorMessage hmade _ hrange
    cases hretry : scheduleRetry kind policy attempt now errorMessage with
    | error error => exact ⟨error, rfl⟩
    | ok retry =>
      obtain ⟨hdelay, -, hstamp, hlt⟩ := scheduleRetry_eq_ok hretry
      rw [retryDelay_eq hmade.backoff_lt.2] at hdelay hstamp
      omega

/-- The retries of an accepted policy back off from the delay that it names. -/
theorem backsOff_of_tryFrom {harnessPolicy : HarnessRetryPolicy}
    (haccepted : tryFrom harnessPolicy = .ok policy) :
    policy.baseDelayMs = harnessPolicy.baseDelayMs ∧ policy.BacksOff := by
  refine ⟨?_, policy.backsOff⟩
  obtain ⟨_, -, hbounded⟩ := bind_ok_iff.mp haccepted
  by_cases henabled : harnessPolicy.enabled = true
  · rw [if_pos henabled] at hbounded
    obtain ⟨maxAttempts, -, hpolicy⟩ := bind_ok_iff.mp hbounded
    cases hpolicy
    rfl
  · rw [if_neg henabled] at hbounded
    cases hbounded
    rfl

/-- A second retry waits twice as long as the first. -/
theorem backsOff_second : ∃ policy, tryFrom ⟨true, 3, 1000⟩ = .ok policy ∧ policy.BacksOff ∧
    policy.Schedules 1 1000 ∧ policy.Schedules 2 2000 := by
  have hfirst : scheduleRetry "" ⟨4, 1000⟩ 1 7 "" = .ok ⟨2, 1007, ""⟩ := by decide +kernel
  have hsecond : scheduleRetry "" ⟨4, 1000⟩ 2 1007 "" = .ok ⟨3, 3007, ""⟩ := by decide +kernel
  have haccepted := @backsOff_of_tryFrom ⟨4, 1000⟩ ⟨true, 3, 1000⟩ (by rfl)
  exact ⟨⟨4, 1000⟩, by rfl, haccepted.2,
    ⟨.first, by decide, _, _, _, _, hfirst, rfl⟩,
    ⟨.retried .first (by decide) hfirst, by decide, _, _, _, _, hsecond, rfl⟩⟩

end NormalizedRetryPolicy

end PiOxidized.Harness.Runtime
