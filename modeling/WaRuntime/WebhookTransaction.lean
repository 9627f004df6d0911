import WaRuntime.GroupIntentStatements
import WaRuntime.OwnedTables
import WaRuntime.WebhookStatements

/-! The processing of one stored webhook: claim, transaction and, where it throws, `markFailed`.
Each of the three commits as a whole. A write that PostgreSQL rejects throws, and the transaction
leaves nothing. The branches of `storeInTransaction` on the event type are a match on the payload,
which the normalizer builds from the type. -/
namespace WebhookTransaction

open WebhookEvents WebhookStatements OwnedTables MessageJobStatements GroupCapabilityStatements
open GroupIntentStatements (IntentConfig IntentRow scheduleInTransaction)

/-- What the ledger keeps of a payload. -/
inductive LedgerPayload where
  | full (payload : RuntimeEventPayload)
  | compact (messageId groupId senderId messageType : String) (fromMe isGroup : Bool)
      (bodyBytes : ℕ) (bodySha256 : String)
  deriving Repr

structure RuntimeEventLedgerRecord where
  eventVersion : ℕ
  payload : LedgerPayload
  deriving Repr

def runtimeEventLedgerRecord (sha256 : String → String) (compactMessageBodies : Bool) :
    RuntimeEventPayload → RuntimeEventLedgerRecord
  | .messageReceived messageId groupId senderId body messageType fromMe isGroup =>
    if compactMessageBodies then
      ⟨2, .compact messageId groupId senderId messageType fromMe isGroup body.utf8ByteSize
        (sha256 body)⟩
    else ⟨1, .full (.messageReceived messageId groupId senderId body messageType fromMe isGroup)⟩
  | payload => ⟨1, .full payload⟩

structure RuntimeEventRow where
  sourceEventType : String
  eventType : String
  eventVersion : ℕ
  sessionId : String
  occurredAt : ℤ
  payload : LedgerPayload
  deriving Repr

/-- A row of `inbound_messages`; its key is the session and the message id. -/
structure InboundMessage where
  groupId : String
  senderId : String
  body : String
  messageType : String
  fromMe : Bool
  receivedAt : ℤ
  eventId : String
  deriving DecidableEq, Repr

structure MessageEvent where
  sessionId : String
  messageId : String
  groupId : Option String
  eventType : String
  deliveryStatus : Option String
  occurredAt : ℤ
  deriving DecidableEq, Repr

/-- What `enqueue` writes of a row of `contact_message_observation_intents`. -/
structure ObservationIntent where
  sessionId : String
  senderId : String
  pushName : String
  observedAt : ℤ
  deriving DecidableEq, Repr

/-- The ledger with the tables that refer to it; the foreign keys are its invariants. -/
structure EventLedger where
  runtimeEvents : String → Option RuntimeEventRow
  inboundMessages : String × String → Option InboundMessage
  messageEvents : String → Option MessageEvent
  observationIntents : String → Option ObservationIntent
  inbound_references : ∀ key message, inboundMessages key = some message →
    (runtimeEvents message.eventId).isSome
  message_references : ∀ eventId event, messageEvents eventId = some event →
    (runtimeEvents eventId).isSome
  observation_references : ∀ eventId intent, observationIntents eventId = some intent →
    (runtimeEvents eventId).isSome

structure SessionRestriction where
  active : Bool
  kind : Option String
  code : Option String
  expiresAt : Option String
  deriving DecidableEq, Repr

structure SessionRow where
  status : String
  statusObservedAt : ℤ
  restriction : Option SessionRestriction
  restrictionObservedAt : ℤ
  gatewayUpdatedAt : ℤ
  syncedAt : ℕ
  deriving DecidableEq, Repr

/-- A group and its intent stand under the session and the group id. A webhook is stored under
its own key and session. -/
structure Database where
  webhookEvents : String → Option WebhookRow
  ledger : EventLedger
  sessions : String → Option SessionRow
  groups : String × String → Option GroupRow
  intents : String × String → Option IntentRow
  messageJobs : JobId → Option MessageJob
  webhook_stored : ∀ key row, webhookEvents key = some row →
    row.payload.idempotencyKey = key ∧ row.payload.sessionId = row.sessionId

structure Config where
  parsing : Parsing
  sha256 : String → String
  compactEventPayload : Bool
  compactProcessedWebhookPayload : Bool
  contactsEnabled : Bool
  allowedSessionIds : List String
  intents : IntentConfig

/-- What may be thrown inside `process`. -/
inductive ProcessError where
  | conversion
  | invalidTimestamp
  | invalidStatus
  | collision (eventId : String)
  deriving DecidableEq, Repr

/-- The first three messages are the engine's and the driver's own. -/
def ProcessError.message (foreign : ProcessError → String) : ProcessError → String
  | .collision eventId => "Runtime event idempotency collision: " ++ eventId
  | error => foreign error

/-- The earliest `timestamptz`; the latest lies beyond every JavaScript date. -/
def earliestTimestamp : ℤ := -210866803200000

/-- The parameter that a date becomes; an invalid date is refused. -/
def timestamptz (date : Option ℤ) : Option ℤ :=
  date.bind fun time => if earliestTimestamp ≤ time then some time else none

namespace EventLedger

def insertEvent (ledger : EventLedger) (eventId : String) (row : RuntimeEventRow) : EventLedger :=
  { ledger with
    runtimeEvents := insertAbsent ledger.runtimeEvents eventId row
    inbound_references := fun key message h =>
      insert_absent_isSome (ledger.inbound_references key message h)
    message_references := fun other event h =>
      insert_absent_isSome (ledger.message_references other event h)
    observation_references := fun other intent h =>
      insert_absent_isSome (ledger.observation_references other intent h) }

/-- The insert of an inbound message, whose event has been stored before it. -/
def insertInbound (ledger : EventLedger) (key : String × String) (message : InboundMessage)
    (hstored : (ledger.runtimeEvents message.eventId).isSome) : EventLedger :=
  { ledger with
    inboundMessages := insertAbsent ledger.inboundMessages key message
    inbound_references := fun other stored h => by
      obtain hold | ⟨_, rfl⟩ := insert_absent_some h
      · exact ledger.inbound_references other stored hold
      · exact hstored }

def insertMessageEvent (ledger : EventLedger) (eventId : String) (event : MessageEvent)
    (hstored : (ledger.runtimeEvents eventId).isSome) : EventLedger :=
  { ledger with
    messageEvents := insertAbsent ledger.messageEvents eventId event
    message_references := fun other stored h => by
      obtain hold | ⟨rfl, _⟩ := insert_absent_some h
      · exact ledger.message_references other stored hold
      · exact hstored }

def insertObservation (ledger : EventLedger) (eventId : String) (intent : ObservationIntent)
    (hstored : (ledger.runtimeEvents eventId).isSome) : EventLedger :=
  { ledger with
    observationIntents := insertAbsent ledger.observationIntents eventId intent
    observation_references := fun other stored h => by
      obtain hold | ⟨rfl, _⟩ := insert_absent_some h
      · exact ledger.observation_references other stored hold
      · exact hstored }

/-- An event that is new to the ledger has no inbound message yet, so the unique constraint on
`inbound_messages.event_id` is never in the way. -/
theorem new_event_has_no_message {ledger : EventLedger} {eventId : String}
    (h : ledger.runtimeEvents eventId = none) {key : String × String} {message : InboundMessage}
    (hm : ledger.inboundMessages key = some message) : message.eventId ≠ eventId := by
  intro heq
  have hstored := ledger.inbound_references key message hm
  rw [heq, h] at hstored
  cases hstored

theorem event_stored (ledger : EventLedger) (eventId : String) (row : RuntimeEventRow) :
    ((ledger.insertEvent eventId row).runtimeEvents eventId).isSome := by
  by_cases h : (ledger.runtimeEvents eventId).isSome
  · exact insert_absent_isSome h
  · simp [insertEvent, insertAbsent, h]

end EventLedger

namespace Database

/-- An UPDATE of one webhook, which keeps the key and the session of its payload. -/
def updateWebhook (db : Database) (key : String) (f : WebhookRow → Option WebhookRow)
    (hf : ∀ row new, f row = some new →
      row.payload.idempotencyKey = key ∧ row.payload.sessionId = row.sessionId →
      new.payload.idempotencyKey = key ∧ new.payload.sessionId = new.sessionId) : Database :=
  { db with
    webhookEvents := updateAt db.webhookEvents key f
    webhook_stored := fun other stored h => by
      by_cases hk : other = key
      · subst hk
        simp only [updateAt, Function.update_self] at h
        obtain ⟨row, hrow, rfl⟩ := Option.map_eq_some_iff.mp h
        cases hnew : f row with
        | none => exact db.webhook_stored other row hrow
        | some new => exact hf row new hnew (db.webhook_stored other row hrow)
      · simp only [updateAt, Function.update_of_ne hk] at h
        exact db.webhook_stored other stored h }

def claimForProcessing (db : Database) (now token : ℕ) (key : String) : Database :=
  db.updateWebhook key (WebhookStatements.claimForProcessing now token) fun row new h hrow => by
    obtain ⟨_, _, _, _, _, _, hs, hp⟩ := claimForProcessing_some h
    rwa [hs, hp]

def markProcessed (db : Database) (compact : Bool) (now token : ℕ) (key : String) : Database :=
  db.updateWebhook key (WebhookStatements.markProcessed compact now key token)
    fun row new h hrow => by
      unfold WebhookStatements.markProcessed at h
      split at h
      · cases h
        cases compact
        · exact hrow
        · exact ⟨rfl, rfl⟩
      · cases h

def markFailed (db : Database) (now token : ℕ) (error : String) (key : String) : Database :=
  db.updateWebhook key (WebhookStatements.markFailed now token error) fun row new h hrow => by
    obtain ⟨_, _, _, _, hs, hp⟩ := markFailed_some h
    rwa [hs, hp]

/-- `lockProcessingLease`. -/
def OwnsProcessing (db : Database) (now token : ℕ) (key : String) : Prop :=
  ∃ row, db.webhookEvents key = some row ∧ OwnsLease now token row

instance (db : Database) (now token : ℕ) (key : String) :
    Decidable (db.OwnsProcessing now token key) :=
  match h : db.webhookEvents key with
  | none => isFalse (by simp [OwnsProcessing, h])
  | some row => decidable_of_iff (OwnsLease now token row) (by simp [OwnsProcessing, h])

end Database

def writeStatus (now : ℕ) (status : String) (occurredAt : ℤ) (session : SessionRow) :
    Option SessionRow :=
  if session.statusObservedAt < occurredAt then
    some { session with
      status := status
      statusObservedAt := occurredAt
      gatewayUpdatedAt := max session.gatewayUpdatedAt occurredAt
      syncedAt := now }
  else none

def writeRestriction (now : ℕ) (restriction : Option SessionRestriction) (occurredAt : ℤ)
    (session : SessionRow) : Option SessionRow :=
  if session.restrictionObservedAt < occurredAt then
    some { session with
      restriction := restriction
      restrictionObservedAt := occurredAt
      gatewayUpdatedAt := max session.gatewayUpdatedAt occurredAt
      syncedAt := now }
  else none

/-- What a newly stored event writes besides its row of the ledger. -/
def storeEffects (config : Config) (now : ℕ) (event : RuntimeEvent) (occurredAt : ℤ)
    (db : Database) (hstored : (db.ledger.runtimeEvents event.eventId).isSome) : Database :=
  match event.payload with
  | .messageReceived messageId groupId senderId body messageType fromMe isGroup =>
    if isGroup ∧ messageId ≠ "" then
      { db with
        ledger := db.ledger.insertInbound (event.sessionId, messageId)
          ⟨groupId, senderId, body, messageType, fromMe, occurredAt, event.eventId⟩ hstored }
    else db
  | .messageStatus messageId groupId deliveryStatus =>
    if messageId ≠ "" then
      { db with
        ledger := db.ledger.insertMessageEvent event.eventId
          ⟨event.sessionId, messageId, groupId, event.eventType, deliveryStatus, occurredAt⟩
          hstored }
    else db
  | .sessionStatus status =>
    { db with sessions := updateAt db.sessions event.sessionId (writeStatus now status occurredAt) }
  | .sessionRestriction active kind code expiresAt =>
    let restriction := if active then some ⟨active, kind, code, expiresAt⟩ else none
    { db with
      sessions := updateAt db.sessions event.sessionId
        (writeRestriction now restriction occurredAt) }
  | .groupChange groupId _ _ =>
    if groupId ≠ "" ∧ event.sessionId ∈ config.allowedSessionIds ∧
        (db.sessions event.sessionId).isSome then
      { db with
        intents := upsert db.intents (event.sessionId, groupId)
          (scheduleInTransaction config.intents now event.eventType)
        groups := updateAt db.groups (event.sessionId, groupId) (invalidateByEvent now) }
    else db
  | .gateway _ => db

/-- The comparison with the row that already has the event's id. -/
def SameEvent (event : RuntimeEvent) (occurredAt : ℤ) (row : RuntimeEventRow) : Prop :=
  row.sourceEventType = event.sourceEventType ∧ row.eventType = event.eventType ∧
    row.sessionId = event.sessionId ∧ row.occurredAt = occurredAt

instance (event : RuntimeEvent) (occurredAt : ℤ) (row : RuntimeEventRow) :
    Decidable (SameEvent event occurredAt row) := inferInstanceAs (Decidable (_ ∧ _))

def ledgerRow (config : Config) (event : RuntimeEvent) (occurredAt : ℤ) : RuntimeEventRow :=
  let record := runtimeEventLedgerRecord config.sha256 config.compactEventPayload event.payload
  { sourceEventType := event.sourceEventType
    eventType := event.eventType
    eventVersion := record.eventVersion
    sessionId := event.sessionId
    occurredAt := occurredAt
    payload := record.payload }

def storeInTransaction (config : Config) (now : ℕ) (event : RuntimeEvent) (db : Database) :
    Except ProcessError Database :=
  match timestamptz event.occurredAt with
  | none => .error .invalidTimestamp
  | some occurredAt =>
    match db.ledger.runtimeEvents event.eventId with
    | some row =>
      if SameEvent event occurredAt row then .ok db else .error (.collision event.eventId)
    | none =>
      let row := ledgerRow config event occurredAt
      .ok (storeEffects config now event occurredAt
        { db with ledger := db.ledger.insertEvent event.eventId row }
        (db.ledger.event_stored event.eventId row))

/-- The contact part of the transaction. The intent refers to the stored event. -/
def enqueueContact (config : Config) (envelope : OpenWAWebhookEnvelope) (event : RuntimeEvent)
    (db : Database) : Except ProcessError Database :=
  if envelope.event = "message.received" then
    match webhookSenderId envelope.data with
    | none => .error .conversion
    | some senderId =>
      match webhookPushName envelope.data, timestamptz event.occurredAt with
      | some pushName, some observedAt =>
        if h : senderId ≠ "" ∧ pushName ≠ "" ∧ config.contactsEnabled ∧
            (db.ledger.runtimeEvents envelope.idempotencyKey).isSome then
          .ok { db with
            ledger := db.ledger.insertObservation envelope.idempotencyKey
              ⟨envelope.sessionId, senderId, pushName, observedAt⟩ h.2.2.2 }
        else .ok db
      | _, _ => .ok db
  else .ok db

/-- The job part. A value that is no status is refused by the cast of the parameter. -/
def updateJobs (now : ℕ) (status : WebhookStatus) (messageId : String) (db : Database) :
    Except ProcessError Database :=
  if messageId = "" then .ok db
  else
    match status with
    | .absent => .ok db
    | .inherited => .error .invalidStatus
    | .status status =>
      .ok { db with
        messageJobs := updateAll db.messageJobs
          (updateStatusByOpenWAMessageId now messageId status) }

/-- The transaction of `process` with the answer about the status; `ok none` is a lost lease. -/
def transaction (config : Config) (now token : ℕ) (envelope : OpenWAWebhookEnvelope)
    (db : Database) : Except ProcessError (Option (Database × Bool)) :=
  match normalizeOpenWAWebhook config.parsing envelope,
    webhookStatus envelope.event envelope.data, webhookMessageId envelope.data with
  | some event, some status, some messageId =>
    if db.OwnsProcessing now token envelope.idempotencyKey then do
      let stored ← storeInTransaction config now event db
      let enqueued ← enqueueContact config envelope event stored
      let updated ← updateJobs now status messageId enqueued
      let processed := updated.markProcessed config.compactProcessedWebhookPayload now token
        envelope.idempotencyKey
      return some (processed, status ≠ .absent ∧ messageId ≠ "")
    else return none
  | _, _, _ => .error .conversion

inductive ProcessResult where
  | skipped
  | lostOwnership
  | processed (statusUpdated : Bool)
  | threw (error : ProcessError)
  deriving DecidableEq, Repr

/-- The instants at which the three statements begin, the lease token that is drawn and the
messages of errors that are not the code's own. -/
structure Attempt where
  claimedAt : ℕ
  startedAt : ℕ
  failedAt : ℕ
  token : ℕ
  foreignMessage : ProcessError → String

def process (config : Config) (attempt : Attempt) (key : String) (db : Database) :
    ProcessResult × Database :=
  match db.webhookEvents key with
  | none => (.skipped, db)
  | some row =>
    if Dispatchable attempt.claimedAt row then
      let claimed := db.claimForProcessing attempt.claimedAt attempt.token key
      match transaction config attempt.startedAt attempt.token row.payload claimed with
      | .ok (some (after, statusUpdated)) => (.processed statusUpdated, after)
      | .ok none => (.lostOwnership, claimed)
      | .error error =>
        (.threw error,
          claimed.markFailed attempt.failedAt attempt.token (error.message attempt.foreignMessage)
            row.payload.idempotencyKey)
    else (.skipped, db)

section Specifications

variable {config : Config} {now token : ℕ} {envelope : OpenWAWebhookEnvelope}
  {event : RuntimeEvent} {db after : Database}

/-- What a committed transaction did, statement by statement. -/
theorem transaction_committed {updated : Bool}
    (h : transaction config now token envelope db = .ok (some (after, updated))) :
    ∃ event status messageId stored enqueued written,
      normalizeOpenWAWebhook config.parsing envelope = some event ∧
      webhookStatus envelope.event envelope.data = some status ∧
      webhookMessageId envelope.data = some messageId ∧
      db.OwnsProcessing now token envelope.idempotencyKey ∧
      storeInTransaction config now event db = .ok stored ∧
      enqueueContact config envelope event stored = .ok enqueued ∧
      updateJobs now status messageId enqueued = .ok written ∧
      after = written.markProcessed config.compactProcessedWebhookPayload now token
        envelope.idempotencyKey := by
  unfold transaction at h
  split at h
  · rename_i event status messageId hevent hstatus hmessage
    split at h
    · rename_i hown
      cases hs : storeInTransaction config now event db with
      | error error => simp [hs, bind, Except.bind] at h
      | ok stored =>
        cases he : enqueueContact config envelope event stored with
        | error error => simp [hs, he, bind, Except.bind] at h
        | ok enqueued =>
          cases hw : updateJobs now status messageId enqueued with
          | error error => simp [hs, he, hw, bind, Except.bind] at h
          | ok written =>
            simp only [hs, he, hw, bind, Except.bind, pure, Except.pure, Except.ok.injEq,
              Option.some.injEq, Prod.mk.injEq] at h
            exact ⟨event, status, messageId, stored, enqueued, written, hevent, hstatus, hmessage,
              hown, hs, he, hw, h.1.symm⟩
    · simp [pure, Except.pure] at h
  · cases h

end Specifications

end WebhookTransaction
