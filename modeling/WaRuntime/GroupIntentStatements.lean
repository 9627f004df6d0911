import Mathlib.Data.List.Dedup
import Mathlib.Data.List.Sort
import Mathlib.Data.String.Basic
import WaRuntime.GroupCapabilityStatements

/-! The statements that write `gateway_group_reconciliation_intents`, each on one row.
The two CHECK constraints of the table are fields of the row, so every statement shows that it
keeps them. An UPDATE gives `none` where its WHERE clause fails. `updated_at` is left out. -/
namespace GroupIntentStatements

open GroupCapabilityStatements (Expired Unexpired)

inductive GatewayGroupIntentStatus where
  | pending
  | running
  | retry
  | completed
  | failed
  deriving DecidableEq, Repr

structure IntentRow where
  requestedRevision : ℕ
  completedRevision : ℕ
  claimedRevision : Option ℕ
  reasons : List String
  status : GatewayGroupIntentStatus
  notBefore : ℕ
  nextAttemptAt : ℕ
  attemptCount : ℕ
  coalescedCount : ℕ
  leaseToken : Option ℕ
  leaseExpiresAt : Option ℕ
  lastErrorCode : Option String
  firstRequestedAt : ℕ
  lastRequestedAt : ℕ
  startedAt : Option ℕ
  completedAt : Option ℕ
  completed_le : completedRevision ≤ requestedRevision
  claimed_le : ∀ revision, claimedRevision = some revision → revision ≤ requestedRevision
  deriving DecidableEq

structure IntentConfig where
  debounceMs : ℕ
  maxWaitMs : ℕ
  maxAttempts : ℕ
  deriving DecidableEq, Repr

def intentLeaseMs : ℕ := 120000

/-- SELECT DISTINCT value … ORDER BY value. -/
def mergeReasons (reasons more : List String) : List String :=
  (reasons ++ more).dedup.insertionSort (· ≤ ·)

def IntentRow.Settled (intent : IntentRow) : Prop :=
  intent.status = .completed ∨ intent.status = .failed

instance (intent : IntentRow) : Decidable intent.Settled := inferInstanceAs (Decidable (_ ∨ _))

def insertIntent (config : IntentConfig) (now : ℕ) (reason : String) : IntentRow where
  requestedRevision := 1
  completedRevision := 0
  claimedRevision := none
  reasons := [reason]
  status := .pending
  notBefore := now + config.debounceMs
  nextAttemptAt := now + config.debounceMs
  attemptCount := 0
  coalescedCount := 0
  leaseToken := none
  leaseExpiresAt := none
  lastErrorCode := none
  firstRequestedAt := now
  lastRequestedAt := now
  startedAt := none
  completedAt := none
  completed_le := by omega
  claimed_le := by simp

/-- ON CONFLICT DO UPDATE: a running intent stays running, any other waits again. -/
def coalesceIntent (config : IntentConfig) (now : ℕ) (reason : String) (intent : IntentRow) :
    IntentRow :=
  let firstRequestedAt := if intent.Settled then now else intent.firstRequestedAt
  let notBefore := min (firstRequestedAt + config.maxWaitMs) (now + config.debounceMs)
  { intent with
    requestedRevision := intent.requestedRevision + 1
    reasons := if intent.Settled then [reason] else mergeReasons intent.reasons [reason]
    status := if intent.status = .running then .running else .pending
    notBefore := notBefore
    nextAttemptAt := if intent.status = .running then intent.nextAttemptAt else notBefore
    attemptCount := if intent.status = .running then intent.attemptCount else 0
    coalescedCount := if intent.Settled then 0 else intent.coalescedCount + 1
    firstRequestedAt := firstRequestedAt
    lastRequestedAt := now
    startedAt := if intent.Settled then none else intent.startedAt
    completedAt := none
    lastErrorCode := none
    completed_le := Nat.le_succ_of_le intent.completed_le
    claimed_le := fun revision h => Nat.le_succ_of_le (intent.claimed_le revision h) }

def scheduleInTransaction (config : IntentConfig) (now : ℕ) (reason : String) :
    Option IntentRow → IntentRow
  | none => insertIntent config now reason
  | some intent => coalesceIntent config now reason intent

/-- The WHERE clause of the UPDATE in `claim`. -/
def Claimable (config : IntentConfig) (now : ℕ) (intent : IntentRow) : Prop :=
  intent.status ∈ [.pending, .retry] ∧ intent.nextAttemptAt ≤ now ∧ intent.notBefore ≤ now ∧
    intent.attemptCount < config.maxAttempts

instance (config : IntentConfig) (now : ℕ) (intent : IntentRow) :
    Decidable (Claimable config now intent) := inferInstanceAs (Decidable (_ ∧ _))

def claim (config : IntentConfig) (now token : ℕ) (intent : IntentRow) : Option IntentRow :=
  if Claimable config now intent then
    some { intent with
      status := .running
      claimedRevision := some intent.requestedRevision
      attemptCount := intent.attemptCount + 1
      leaseToken := some token
      leaseExpiresAt := some (now + intentLeaseMs)
      startedAt := intent.startedAt.or (some now)
      lastErrorCode := none
      claimed_le := fun _ h => (Option.some.inj h).ge }
  else none

/-- The lease under which a reader still owns the intent. -/
def Owned (now token : ℕ) (intent : IntentRow) : Prop :=
  intent.status = .running ∧ intent.leaseToken = some token ∧ Unexpired now intent.leaseExpiresAt

instance (now token : ℕ) (intent : IntentRow) : Decidable (Owned now token intent) :=
  inferInstanceAs (Decidable (_ ∧ _))

def renewLease (now token : ℕ) (intent : IntentRow) : Option IntentRow :=
  if Owned now token intent then some { intent with leaseExpiresAt := some (now + intentLeaseMs) }
  else none

/-- The UPDATE that `complete` and `skipMissing` share, but for the error code. -/
def completeClaimed (now token claimedRevision : ℕ) (errorCode : Option String)
    (intent : IntentRow) : Option IntentRow :=
  if h : Owned now token intent ∧ intent.claimedRevision = some claimedRevision then
    let newer := claimedRevision < intent.requestedRevision
    some { intent with
      completedRevision := max intent.completedRevision claimedRevision
      status := if newer then .pending else .completed
      attemptCount := if newer then 0 else intent.attemptCount
      nextAttemptAt := if newer then max intent.notBefore now else intent.nextAttemptAt
      claimedRevision := none
      leaseToken := none
      leaseExpiresAt := none
      completedAt := if intent.requestedRevision = claimedRevision then some now else none
      lastErrorCode := errorCode
      completed_le := max_le intent.completed_le (intent.claimed_le _ h.2)
      claimed_le := by simp }
  else none

def complete (now token claimedRevision : ℕ) (intent : IntentRow) : Option IntentRow :=
  completeClaimed now token claimedRevision none intent

def skipMissing (now token claimedRevision : ℕ) (intent : IntentRow) : Option IntentRow :=
  completeClaimed now token claimedRevision (some "GROUP_NOT_FOUND") intent

structure GatewayGroupIntentFailurePolicy where
  code : String
  retryable : Bool
  deriving DecidableEq, Repr

/-- `random` is `Math.random() * 0.4` in thousandths, so the factor lies between 0.8 and 1.2. -/
def retryDelayMs (attemptCount random : ℕ) : ℕ :=
  min 300 (5 * 2 ^ (attemptCount - 1)) * (800 + min random 400)

def fail (config : IntentConfig) (now token claimedRevision random : ℕ)
    (policy : GatewayGroupIntentFailurePolicy) (intent : IntentRow) : Option IntentRow :=
  if Owned now token intent ∧ intent.claimedRevision = some claimedRevision then
    let status : GatewayGroupIntentStatus :=
      if claimedRevision < intent.requestedRevision then .pending
      else if policy.retryable ∧ intent.attemptCount < config.maxAttempts then .retry
      else .failed
    some { intent with
      status := status
      attemptCount := if status = .pending then 0 else intent.attemptCount
      nextAttemptAt :=
        if status = .pending then max intent.notBefore now
        else if status = .retry then now + retryDelayMs intent.attemptCount random
        else intent.nextAttemptAt
      claimedRevision := none
      leaseToken := none
      leaseExpiresAt := none
      lastErrorCode := some policy.code
      completedAt := if status = .failed then some now else none
      claimed_le := by simp }
  else none

def recoverExpired (config : IntentConfig) (now : ℕ) (intent : IntentRow) : Option IntentRow :=
  if intent.status = .running ∧ Expired now intent.leaseExpiresAt then
    let newer := intent.claimedRevision.getD intent.completedRevision < intent.requestedRevision
    some { intent with
      status :=
        if newer then .pending
        else if config.maxAttempts ≤ intent.attemptCount then .failed
        else .retry
      attemptCount := if newer then 0 else intent.attemptCount
      claimedRevision := none
      leaseToken := none
      leaseExpiresAt := none
      nextAttemptAt :=
        if newer then max intent.notBefore now
        else if config.maxAttempts ≤ intent.attemptCount then intent.nextAttemptAt
        else now
      lastErrorCode := some "LEASE_EXPIRED"
      claimed_le := by simp }
  else none

end GroupIntentStatements
