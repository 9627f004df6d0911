import WaRuntime.GroupCapabilityStatements
import WaRuntime.WebhookEvents

/-! The statements that write `webhook_events`, each on one row.
`none` means that the row does not meet the statement's WHERE clause. A row that was claimed has
an envelope: only a processed row is compacted, and no statement claims a processed row again. -/
namespace WebhookStatements

open WebhookEvents
open GroupCapabilityStatements (Expired Unexpired)

inductive ProcessingState where
  | pending
  | processing
  | retry
  | processed
  | dead
  deriving DecidableEq, Repr

structure WebhookRow where
  deliveryId : String
  eventType : String
  sessionId : String
  payload : OpenWAWebhookEnvelope
  processingState : ProcessingState
  attemptCount : ℕ
  nextAttemptAt : ℕ
  lastAttemptAt : Option ℕ
  leaseToken : Option ℕ
  leaseExpiresAt : Option ℕ
  processedAt : Option ℕ
  deadAt : Option ℕ
  processingError : Option String
  receivedAt : ℕ

def webhookLeaseMs : ℕ := 120000

def webhookMaxAttempts : ℕ := 5

/-- The row that `insert` stores under the envelope's idempotency key, unless there is one. -/
def insert (now : ℕ) (envelope : OpenWAWebhookEnvelope) : WebhookRow where
  deliveryId := envelope.deliveryId
  eventType := envelope.event
  sessionId := envelope.sessionId
  payload := envelope
  processingState := .pending
  attemptCount := 0
  nextAttemptAt := now
  lastAttemptAt := none
  leaseToken := none
  leaseExpiresAt := none
  processedAt := none
  deadAt := none
  processingError := none
  receivedAt := now

/-- The WHERE clause of `claimForProcessing`, and of `listDispatchable`. -/
def Dispatchable (now : ℕ) (row : WebhookRow) : Prop :=
  row.processingState ∈ [.pending, .retry] ∧ row.attemptCount < webhookMaxAttempts ∧
    row.nextAttemptAt ≤ now

instance (now : ℕ) (row : WebhookRow) : Decidable (Dispatchable now row) :=
  inferInstanceAs (Decidable (_ ∧ _))

def claimForProcessing (now token : ℕ) (row : WebhookRow) : Option WebhookRow :=
  if Dispatchable now row then
    some { row with
      processingState := .processing
      attemptCount := row.attemptCount + 1
      lastAttemptAt := some now
      leaseToken := some token
      leaseExpiresAt := some (now + webhookLeaseMs)
      processingError := none }
  else none

def recoverExpiredProcessing (now : ℕ) (row : WebhookRow) : Option WebhookRow :=
  if row.processingState = .processing ∧ Expired now row.leaseExpiresAt then
    let dead := webhookMaxAttempts ≤ row.attemptCount
    some { row with
      processingState := if dead then .dead else .retry
      leaseToken := none
      leaseExpiresAt := none
      nextAttemptAt := if dead then row.nextAttemptAt else now
      deadAt := if dead then some now else row.deadAt
      processingError := some "Recovered expired processing lease" }
  else none

/-- The WHERE clause of `lockProcessingLease`, and of the two statements that end an attempt. -/
def OwnsLease (now token : ℕ) (row : WebhookRow) : Prop :=
  row.processingState = .processing ∧ row.leaseToken = some token ∧
    Unexpired now row.leaseExpiresAt

instance (now token : ℕ) (row : WebhookRow) : Decidable (OwnsLease now token row) :=
  inferInstanceAs (Decidable (_ ∧ _))

/-- The payload that is left of a processed event. -/
def compactedPayload (key : String) (row : WebhookRow) : OpenWAWebhookEnvelope where
  event := row.eventType
  timestamp := row.payload.timestamp
  sessionId := row.sessionId
  idempotencyKey := key
  deliveryId := row.deliveryId
  data := .object []

def markProcessed (compact : Bool) (now : ℕ) (key : String) (token : ℕ) (row : WebhookRow) :
    Option WebhookRow :=
  if OwnsLease now token row then
    some { row with
      processingState := .processed
      processedAt := some now
      processingError := none
      leaseToken := none
      leaseExpiresAt := none
      payload := if compact then compactedPayload key row else row.payload }
  else none

def webhookRetryDelayMs (attemptCount : ℕ) : ℕ := min 300 (5 * 2 ^ (attemptCount - 1)) * 1000

def markFailed (now token : ℕ) (error : String) (row : WebhookRow) : Option WebhookRow :=
  if OwnsLease now token row then
    let dead := webhookMaxAttempts ≤ row.attemptCount
    some { row with
      processingState := if dead then .dead else .retry
      processingError := some error
      leaseToken := none
      leaseExpiresAt := none
      nextAttemptAt :=
        if dead then row.nextAttemptAt else now + webhookRetryDelayMs row.attemptCount
      deadAt := if dead then some now else row.deadAt }
  else none

/-- The rows that data retention may delete. -/
def Deletable (cutoff : ℕ) (row : WebhookRow) : Prop :=
  row.processingState ∈ [.processed, .dead] ∧ row.processedAt.getD row.receivedAt < cutoff

instance (cutoff : ℕ) (row : WebhookRow) : Decidable (Deletable cutoff row) :=
  inferInstanceAs (Decidable (_ ∧ _))

section Specifications

variable {now token : ℕ} {row new : WebhookRow}

theorem claimForProcessing_some (h : claimForProcessing now token row = some new) :
    row.processingState ∈ [.pending, .retry] ∧ row.attemptCount < webhookMaxAttempts ∧
      new.processingState = .processing ∧ new.attemptCount = row.attemptCount + 1 ∧
      new.leaseToken = some token ∧ new.leaseExpiresAt = some (now + webhookLeaseMs) ∧
      new.sessionId = row.sessionId ∧ new.payload = row.payload := by
  unfold claimForProcessing at h
  split at h
  · rename_i hd
    cases h
    exact ⟨hd.1, hd.2.1, rfl, rfl, rfl, rfl, rfl, rfl⟩
  · cases h

/-- Recovery ends the attempt: the row waits for another one, or is dead after the fifth. -/
theorem recoverExpiredProcessing_some (h : recoverExpiredProcessing now row = some new) :
    row.processingState = .processing ∧ Expired now row.leaseExpiresAt ∧
      (new.processingState = .retry ∧ row.attemptCount < webhookMaxAttempts ∨
        new.processingState = .dead) ∧
      new.attemptCount = row.attemptCount ∧ new.leaseToken = none ∧
      new.sessionId = row.sessionId ∧ new.payload = row.payload := by
  unfold recoverExpiredProcessing at h
  split at h
  · rename_i he
    cases h
    refine ⟨he.1, he.2, ?_, rfl, rfl, rfl, rfl⟩
    by_cases hd : webhookMaxAttempts ≤ row.attemptCount
    · simp [hd]
    · simp [hd, not_le.mp hd]
  · cases h

theorem markProcessed_some {compact : Bool} {key : String}
    (h : markProcessed compact now key token row = some new) :
    OwnsLease now token row ∧ new.processingState = .processed ∧
      new.attemptCount = row.attemptCount ∧ new.leaseToken = none ∧
      new.sessionId = row.sessionId := by
  unfold markProcessed at h
  split at h
  · rename_i ho
    cases h
    exact ⟨ho, rfl, rfl, rfl, rfl⟩
  · cases h

theorem markFailed_some {error : String} (h : markFailed now token error row = some new) :
    OwnsLease now token row ∧
      (new.processingState = .retry ∧ row.attemptCount < webhookMaxAttempts ∨
        new.processingState = .dead) ∧
      new.attemptCount = row.attemptCount ∧ new.leaseToken = none ∧
      new.sessionId = row.sessionId ∧ new.payload = row.payload := by
  unfold markFailed at h
  split at h
  · rename_i ho
    cases h
    refine ⟨ho, ?_, rfl, rfl, rfl, rfl⟩
    by_cases hd : webhookMaxAttempts ≤ row.attemptCount
    · simp [hd]
    · simp [hd, not_le.mp hd]
  · cases h

end Specifications

end WebhookStatements
