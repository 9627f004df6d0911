import Mathlib.Algebra.Order.Ring.Rat
import Mathlib.Algebra.Field.Rat
import WaRuntime.GroupCapabilityStatements
import WaRuntime.SharedLeases

/-! The statements of `GatewaySyncRateLimitRepository`, each on the row of one session.
Instants are milliseconds. `next_request_at` is rational, since 60000 divided by a rate need not be
a whole number; PostgreSQL would round it to the microsecond. `updated_at` and the notifications
are left out. -/
namespace GatewayRateLimitStatements

open GroupCapabilityStatements (Expired Unexpired)
open SharedLeases (Lease)

/-- The bounds that the validation of the environment asks for are fields. -/
structure RateConfig where
  adaptivePacing : Bool
  groupsPerMinute : ℕ
  minGroupsPerMinute : ℕ
  rateRecoverySuccesses : ℕ
  min_pos : 1 ≤ minGroupsPerMinute
  min_le : minGroupsPerMinute ≤ groupsPerMinute

structure RateLimitRow where
  nextRequestAt : ℚ
  consecutiveFailures : ℕ
  cooldownUntil : Option ℕ
  activeLeaseToken : Option ℕ
  activeLeaseExpiresAt : Option ℕ
  effectiveRequestsPerMinute : Option ℕ
  successStreak : ℕ
  lastRatePressureAt : Option ℕ
  deriving DecidableEq

structure GatewaySyncFailurePolicy where
  retryable : Bool
  ratePressure : Bool
  reduceRate : Bool
  retryAfterMs : Option ℕ
  code : String
  deriving DecidableEq, Repr

/-- What `getGroup` throws; anything else is a network error. -/
inductive GroupReadError where
  | validation
  | http (status : ℕ) (retryAfterMs : Option ℕ)
  | network
  deriving DecidableEq, Repr

def classifyGroupReadFailure : GroupReadError → GatewaySyncFailurePolicy
  | .validation => ⟨false, false, false, none, "INVALID_RESPONSE"⟩
  | .http status retryAfterMs =>
    if status = 429 then ⟨true, true, true, retryAfterMs, "RATE_LIMITED"⟩
    else if 500 ≤ status then ⟨true, true, false, none, "UPSTREAM_SERVER_ERROR"⟩
    else if status = 409 then ⟨true, false, false, none, "UPSTREAM_CONFLICT"⟩
    else ⟨false, false, false, none, "UPSTREAM_HTTP_" ++ toString status⟩
  | .network => ⟨true, true, false, none, "UPSTREAM_NETWORK_ERROR"⟩

def persistenceFailure : GatewaySyncFailurePolicy := ⟨true, false, false, none, "PERSISTENCE_ERROR"⟩

def groupReadLeaseMs : ℕ := 120000

/-- An inserted row takes the defaults of its columns. -/
def ensure (config : RateConfig) (now : ℕ) : Option RateLimitRow → RateLimitRow
  | none =>
    { nextRequestAt := now
      consecutiveFailures := 0
      cooldownUntil := none
      activeLeaseToken := none
      activeLeaseExpiresAt := none
      effectiveRequestsPerMinute := some config.groupsPerMinute
      successStreak := 0
      lastRatePressureAt := none }
  | some row =>
    { row with
      effectiveRequestsPerMinute :=
        some (min (row.effectiveRequestsPerMinute.getD config.groupsPerMinute)
          config.groupsPerMinute) }

/-- The column `ready`. A token without an expiry makes it NULL, which is not true. -/
def RateLimitRow.Ready (now : ℕ) (row : RateLimitRow) : Prop :=
  row.nextRequestAt ≤ now ∧ (∀ cooldown, row.cooldownUntil = some cooldown → cooldown ≤ now) ∧
    (row.activeLeaseToken = none ∨ Expired now row.activeLeaseExpiresAt)

instance (now : ℕ) (row : RateLimitRow) : Decidable (row.Ready now) :=
  inferInstanceAs (Decidable (_ ∧ (∀ cooldown ∈ row.cooldownUntil, cooldown ≤ now) ∧ _))

def readyAndRate (config : RateConfig) (now : ℕ) (row : RateLimitRow) : Option ℕ :=
  if row.Ready now then
    some (if config.adaptivePacing then
        row.effectiveRequestsPerMinute.getD config.groupsPerMinute
      else config.groupsPerMinute)
  else none

def acquire (now token rate : ℕ) (row : RateLimitRow) : RateLimitRow :=
  { row with
    nextRequestAt := now + 60000 / (rate : ℚ)
    activeLeaseToken := some token
    activeLeaseExpiresAt := some (now + groupReadLeaseMs) }

def renew (now token : ℕ) (row : RateLimitRow) : Option RateLimitRow :=
  if row.activeLeaseToken = some token ∧ Unexpired now row.activeLeaseExpiresAt then
    some { row with activeLeaseExpiresAt := some (now + groupReadLeaseMs) }
  else none

/-- `renewGroupReadPacingLease`, which asks for the token only; `time` is its `clock_timestamp()`. -/
def renewGroupReadPacingLease (time token : ℕ) (row : RateLimitRow) : Option RateLimitRow :=
  if row.activeLeaseToken = some token then
    some { row with activeLeaseExpiresAt := some (time + groupReadLeaseMs) }
  else none

/-- The UPDATE that `success` makes first. -/
def recordSuccess (config : RateConfig) (token : ℕ) (row : RateLimitRow) : RateLimitRow :=
  if row.activeLeaseToken = some token then
    { row with
      consecutiveFailures := 0
      cooldownUntil := none
      successStreak := if config.adaptivePacing then row.successStreak + 1 else 0
      effectiveRequestsPerMinute :=
        if config.adaptivePacing ∧ config.rateRecoverySuccesses ≤ row.successStreak + 1 then
          some (min config.groupsPerMinute
            (row.effectiveRequestsPerMinute.getD config.groupsPerMinute + 1))
        else some (row.effectiveRequestsPerMinute.getD config.groupsPerMinute)
      activeLeaseToken := none
      activeLeaseExpiresAt := none }
  else row

/-- The UPDATE that follows it under adaptive pacing. -/
def resetSuccessStreak (config : RateConfig) (row : RateLimitRow) : RateLimitRow :=
  if row.activeLeaseToken = none ∧ config.rateRecoverySuccesses ≤ row.successStreak then
    { row with successStreak := 0 }
  else row

def success (config : RateConfig) (token : ℕ) (row : RateLimitRow) : RateLimitRow :=
  if config.adaptivePacing then resetSuccessStreak config (recordSuccess config token row)
  else recordSuccess config token row

/-- `random` is `random() * 0.4` in thousandths, so the factor lies between 0.8 and 1.2. -/
def backoffMs (failures random : ℕ) : ℕ :=
  (match min failures 4 with
    | 1 => 5
    | 2 => 15
    | 3 => 30
    | _ => 60) * (800 + min random 400)

def failure (config : RateConfig) (now token random : ℕ) (policy : GatewaySyncFailurePolicy)
    (row : RateLimitRow) : RateLimitRow :=
  if row.activeLeaseToken = some token then
    { row with
      consecutiveFailures :=
        if policy.ratePressure then row.consecutiveFailures + 1 else row.consecutiveFailures
      cooldownUntil :=
        if policy.ratePressure then
          some (now + policy.retryAfterMs.getD (backoffMs (row.consecutiveFailures + 1) random))
        else row.cooldownUntil
      effectiveRequestsPerMinute :=
        if policy.reduceRate ∧ config.adaptivePacing then
          some (max config.minGroupsPerMinute
            (row.effectiveRequestsPerMinute.getD config.groupsPerMinute / 2))
        else some (row.effectiveRequestsPerMinute.getD config.groupsPerMinute)
      successStreak := if policy.ratePressure then 0 else row.successStreak
      lastRatePressureAt := if policy.ratePressure then some now else row.lastRatePressureAt
      activeLeaseToken := none
      activeLeaseExpiresAt := none }
  else row

def release (token : ℕ) (row : RateLimitRow) : RateLimitRow :=
  if row.activeLeaseToken = some token then
    { row with activeLeaseToken := none, activeLeaseExpiresAt := none }
  else row

/-- What the recoveries of items and of intents do to a limiter. -/
def releaseExpired (now : ℕ) (row : RateLimitRow) : RateLimitRow :=
  if Expired now row.activeLeaseExpiresAt then
    { row with activeLeaseToken := none, activeLeaseExpiresAt := none }
  else row

/-- The lease that a row holds in two columns, when both are set. -/
def leaseOf : Option ℕ → Option ℕ → Option Lease
  | some token, some expiresAt => some ⟨token, expiresAt⟩
  | _, _ => none

@[simp] theorem leaseOf_none (expiresAt : Option ℕ) : leaseOf none expiresAt = none := rfl

@[simp] theorem leaseOf_some (token expiresAt : ℕ) :
    leaseOf (some token) (some expiresAt) = some ⟨token, expiresAt⟩ := rfl

theorem leaseOf_eq_some {token expiresAt : Option ℕ} {lease : Lease} :
    leaseOf token expiresAt = some lease ↔
      token = some lease.token ∧ expiresAt = some lease.expiresAt := by
  cases token with
  | none => simp
  | some t =>
    cases expiresAt with
    | none => simp [leaseOf]
    | some e =>
      cases lease
      simp

def RateLimitRow.lease (row : RateLimitRow) : Option Lease :=
  leaseOf row.activeLeaseToken row.activeLeaseExpiresAt

section Rows

variable {config : RateConfig} {now token random rate : ℕ} {row new : RateLimitRow}
  {policy : GatewaySyncFailurePolicy}

@[simp] theorem ensure_lease : (ensure config now (some row)).lease = row.lease := rfl

@[simp] theorem ensure_none_lease : (ensure config now none).lease = none := rfl

theorem readyAndRate_some (h : readyAndRate config now row = some rate) :
    row.Ready now ∧ rate = if config.adaptivePacing then
        row.effectiveRequestsPerMinute.getD config.groupsPerMinute
      else config.groupsPerMinute := by
  unfold readyAndRate at h
  split at h
  · rename_i hready
    exact ⟨hready, (Option.some.inj h).symm⟩
  · cases h

/-- Whoever acquires finds the lease before it expired. -/
theorem ready_lease (h : row.Ready now) {lease : Lease} (hl : row.lease = some lease) :
    lease.expiresAt < now := by
  obtain ⟨htoken, hexpires⟩ := leaseOf_eq_some.mp hl
  rcases h.2.2 with hnone | ⟨time, htime, hlt⟩
  · rw [htoken] at hnone
    cases hnone
  · rw [hexpires] at htime
    cases htime
    exact hlt

theorem renew_some (h : renew now token row = some new) :
    ∃ lease, row.lease = some lease ∧ lease.token = token ∧
      new.lease = some ⟨token, now + groupReadLeaseMs⟩ := by
  unfold renew at h
  split at h
  · rename_i howned
    obtain ⟨htoken, time, htime, _⟩ := howned
    cases h
    exact ⟨⟨token, time⟩, leaseOf_eq_some.mpr ⟨htoken, htime⟩, rfl, by simp [RateLimitRow.lease, htoken]⟩
  · cases h

theorem renewGroupReadPacingLease_some {time : ℕ}
    (h : renewGroupReadPacingLease time token row = some new) :
    row.activeLeaseToken = some token ∧ new.lease = some ⟨token, time + groupReadLeaseMs⟩ := by
  unfold renewGroupReadPacingLease at h
  split at h
  · rename_i htoken
    cases h
    exact ⟨htoken, by simp [RateLimitRow.lease, htoken]⟩
  · cases h

theorem resetSuccessStreak_keeps :
    ∃ streak, resetSuccessStreak config row = { row with successStreak := streak } := by
  unfold resetSuccessStreak
  split
  · exact ⟨0, rfl⟩
  · exact ⟨row.successStreak, rfl⟩

/-- The second UPDATE touches the streak only. -/
theorem success_eq (config : RateConfig) (token : ℕ) (row : RateLimitRow) : ∃ streak,
    success config token row = { recordSuccess config token row with successStreak := streak } := by
  unfold success
  split
  · exact resetSuccessStreak_keeps
  · exact ⟨_, rfl⟩

/-- What the statements that name a token do to the lease: nothing, unless it is theirs. -/
def Frees (token : ℕ) (row new : RateLimitRow) : Prop :=
  new.lease = row.lease ∨ new.lease = none ∧ ∃ lease, row.lease = some lease ∧ lease.token = token

theorem frees_of_clear (h : row.activeLeaseToken = some token) (hn : new.lease = none) :
    Frees token row new := by
  cases hl : row.lease with
  | none => exact .inl (hn.trans hl.symm)
  | some lease =>
    have htoken := (leaseOf_eq_some.mp hl).1
    rw [h] at htoken
    exact .inr ⟨hn, lease, hl, (Option.some.inj htoken).symm⟩

theorem success_frees : Frees token row (success config token row) := by
  obtain ⟨streak, heq⟩ := success_eq config token row
  rw [heq]
  unfold recordSuccess
  split
  · rename_i htoken
    exact frees_of_clear htoken rfl
  · exact .inl rfl

theorem failure_frees : Frees token row (failure config now token random policy row) := by
  unfold failure
  split
  · rename_i htoken
    exact frees_of_clear htoken rfl
  · exact .inl rfl

theorem release_frees : Frees token row (release token row) := by
  unfold release
  split
  · rename_i htoken
    exact frees_of_clear htoken rfl
  · exact .inl rfl

theorem releaseExpired_lease (now : ℕ) (row : RateLimitRow) :
    (releaseExpired now row).lease = row.lease ∨
      (releaseExpired now row).lease = none ∧
        ∀ lease, row.lease = some lease → lease.expiresAt < now := by
  unfold releaseExpired
  split
  · rename_i hexpired
    obtain ⟨time, htime, hlt⟩ := hexpired
    refine .inr ⟨rfl, fun lease hl => ?_⟩
    have hexpires := (leaseOf_eq_some.mp hl).2
    rw [htime] at hexpires
    rw [← Option.some.inj hexpires]
    exact hlt
  · exact .inl rfl

/-- Only `acquire` moves the next request. -/
@[simp] theorem success_nextRequestAt :
    (success config token row).nextRequestAt = row.nextRequestAt := by
  obtain ⟨streak, heq⟩ := success_eq config token row
  rw [heq]
  unfold recordSuccess
  split <;> rfl

@[simp] theorem failure_nextRequestAt :
    (failure config now token random policy row).nextRequestAt = row.nextRequestAt := by
  unfold failure
  split <;> rfl

@[simp] theorem release_nextRequestAt : (release token row).nextRequestAt = row.nextRequestAt := by
  unfold release
  split <;> rfl

@[simp] theorem releaseExpired_nextRequestAt :
    (releaseExpired now row).nextRequestAt = row.nextRequestAt := by
  unfold releaseExpired
  split <;> rfl

theorem renew_nextRequestAt (h : renew now token row = some new) :
    new.nextRequestAt = row.nextRequestAt := by
  unfold renew at h
  split at h
  · cases h
    rfl
  · cases h

theorem renewGroupReadPacingLease_nextRequestAt {time : ℕ}
    (h : renewGroupReadPacingLease time token row = some new) :
    new.nextRequestAt = row.nextRequestAt := by
  unfold renewGroupReadPacingLease at h
  split at h
  · cases h
    rfl
  · cases h

end Rows

/-- The effective rate of a row is unset or within the configured bounds. -/
def RateLimitRow.RateWithin (config : RateConfig) (row : RateLimitRow) : Prop :=
  ∀ rate, row.effectiveRequestsPerMinute = some rate →
    config.minGroupsPerMinute ≤ rate ∧ rate ≤ config.groupsPerMinute

/-- A token never stands without its expiry, and the rate stays within its bounds. -/
structure RateLimitRow.Sound (config : RateConfig) (row : RateLimitRow) : Prop where
  paired : row.activeLeaseToken ≠ none → row.activeLeaseExpiresAt ≠ none
  rate : row.RateWithin config

section Bounds

variable {config : RateConfig} {now token random rate : ℕ} {row new : RateLimitRow}
  {policy : GatewaySyncFailurePolicy}

/-- The rate that every statement computes with. -/
theorem effective_within (h : row.RateWithin config) :
    config.minGroupsPerMinute ≤ row.effectiveRequestsPerMinute.getD config.groupsPerMinute ∧
      row.effectiveRequestsPerMinute.getD config.groupsPerMinute ≤ config.groupsPerMinute := by
  cases hr : row.effectiveRequestsPerMinute with
  | none => exact ⟨config.min_le, Nat.le_refl _⟩
  | some rate => exact h rate hr

theorem within_of_eq {value : ℕ} (h : row.effectiveRequestsPerMinute = some value)
    (hl : config.minGroupsPerMinute ≤ value) (hu : value ≤ config.groupsPerMinute) :
    row.RateWithin config := by
  intro rate hr
  rw [h] at hr
  cases hr
  exact ⟨hl, hu⟩

theorem ensure_sound {limits : Option RateLimitRow}
    (h : ∀ row, limits = some row → row.Sound config) : (ensure config now limits).Sound config := by
  cases limits with
  | none =>
    exact ⟨fun hne => absurd rfl hne, within_of_eq rfl config.min_le (Nat.le_refl _)⟩
  | some row =>
    obtain ⟨hlower, hupper⟩ := effective_within (h row rfl).rate
    exact ⟨(h row rfl).paired, within_of_eq rfl (by omega) (by omega)⟩

theorem acquire_sound (h : row.Sound config) : (acquire now token rate row).Sound config :=
  ⟨fun _ => by simp [acquire], h.rate⟩

theorem renew_sound (h : row.Sound config) (hr : renew now token row = some new) :
    new.Sound config := by
  unfold renew at hr
  split at hr
  · cases hr
    exact ⟨fun _ => by simp, h.rate⟩
  · cases hr

theorem renewGroupReadPacingLease_sound {time : ℕ} (h : row.Sound config)
    (hr : renewGroupReadPacingLease time token row = some new) : new.Sound config := by
  unfold renewGroupReadPacingLease at hr
  split at hr
  · cases hr
    exact ⟨fun _ => by simp, h.rate⟩
  · cases hr

theorem success_sound (h : row.Sound config) : (success config token row).Sound config := by
  obtain ⟨streak, heq⟩ := success_eq config token row
  obtain ⟨hlower, hupper⟩ := effective_within h.rate
  rw [heq]
  unfold recordSuccess
  split
  · refine ⟨fun hne => absurd rfl hne, ?_⟩
    by_cases hstreak : config.adaptivePacing ∧
        config.rateRecoverySuccesses ≤ row.successStreak + 1
    · have hmin := config.min_le
      exact within_of_eq (if_pos hstreak) (by omega) (by omega)
    · exact within_of_eq (if_neg hstreak) hlower hupper
  · exact ⟨h.paired, h.rate⟩

theorem failure_sound (h : row.Sound config) :
    (failure config now token random policy row).Sound config := by
  obtain ⟨hlower, hupper⟩ := effective_within h.rate
  unfold failure
  split
  · refine ⟨fun hne => absurd rfl hne, ?_⟩
    by_cases hreduce : policy.reduceRate ∧ config.adaptivePacing
    · have hmin := config.min_le
      exact within_of_eq (if_pos hreduce) (by omega) (by omega)
    · exact within_of_eq (if_neg hreduce) hlower hupper
  · exact h

theorem release_sound (h : row.Sound config) : (release token row).Sound config := by
  unfold release
  split
  · exact ⟨fun hne => absurd rfl hne, h.rate⟩
  · exact h

theorem releaseExpired_sound (h : row.Sound config) : (releaseExpired now row).Sound config := by
  unfold releaseExpired
  split
  · exact ⟨fun hne => absurd rfl hne, h.rate⟩
  · exact h

end Bounds

end GatewayRateLimitStatements
