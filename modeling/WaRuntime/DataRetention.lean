import WaRuntime.GatewayDiscovery
import WaRuntime.ReferentialActions
import WaRuntime.RetainedObservations
import WaRuntime.RowBatches
import WaRuntime.WebhookStatements

/-! The retention pass over the operational tables.
Each turn is one transaction of seven DELETEs, each of a batch of rows that nobody else has locked.
Between two statements the other transactions do what they like to the rows. Ids are the primary
keys that the statements join by, and uuids are numbers in their order. -/
namespace DataRetention

open CanonicalOrders ReferentialActions RowBatches
open CampaignRunStatements (RunId CampaignRunStatus)
open MessageJobStatements (JobId MessageJobStatus)
open WebhookStatements (ProcessingState)
open GatewayDiscovery (SyncRunStatus)
open RetainedObservations (StoredObservation ObservationId Redundant)
open ContactResolutionRuns (ResolutionRunRow)
open ContactProjectionWork (WorkRow)

section Rows

structure CampaignRunRow where
  id : RunId
  sessionId : String
  status : CampaignRunStatus
  updatedAt : ℕ
  deriving DecidableEq, Repr

structure CampaignRunTargetRow where
  runId : RunId
  sessionId : String
  groupId : String
  deriving DecidableEq, Repr

structure CampaignDeliveryRow where
  id : ℕ
  runId : RunId
  groupId : String
  messageJobId : Option JobId
  deriving DecidableEq, Repr

structure MessageJobRow where
  id : JobId
  status : MessageJobStatus
  updatedAt : ℕ
  deriving DecidableEq, Repr

structure MessageAttemptRow where
  id : ℕ
  messageJobId : JobId
  deriving DecidableEq, Repr

structure RuntimeEventRow where
  eventId : String
  createdAt : ℕ
  deriving DecidableEq, Repr

structure InboundMessageRow where
  sessionId : String
  messageId : String
  eventId : String
  createdAt : ℕ
  deriving DecidableEq, Repr

structure MessageEventRow where
  eventId : String
  deriving DecidableEq, Repr

/-- A row of `contact_message_observation_intents`. -/
structure ObservationIntentRow where
  eventId : String
  deriving DecidableEq, Repr

structure WebhookEventRow where
  id : ℕ
  processingState : ProcessingState
  processedAt : Option ℕ
  receivedAt : ℕ
  deriving DecidableEq, Repr

structure SyncRunRow where
  id : ℕ
  sessionId : String
  status : SyncRunStatus
  completedAt : Option ℕ
  deriving DecidableEq, Repr

structure GatewaySyncItemRow where
  id : ℕ
  syncRunId : ℕ
  sessionId : String
  deriving DecidableEq, Repr

structure ContactObservationRow where
  sessionId : String
  stored : StoredObservation
  deriving DecidableEq, Repr

inductive StoredRow where
  | campaignRun (row : CampaignRunRow)
  | campaignRunTarget (row : CampaignRunTargetRow)
  | campaignDelivery (row : CampaignDeliveryRow)
  | messageJob (row : MessageJobRow)
  | messageAttempt (row : MessageAttemptRow)
  | runtimeEvent (row : RuntimeEventRow)
  | inboundMessage (row : InboundMessageRow)
  | messageEvent (row : MessageEventRow)
  | observationIntent (row : ObservationIntentRow)
  | webhookEvent (row : WebhookEventRow)
  | syncRun (row : SyncRunRow)
  | gatewaySyncItem (row : GatewaySyncItemRow)
  | contactObservation (row : ContactObservationRow)
  deriving DecidableEq, Repr

/-- One table of the database. -/
structure StoredTable (ρ : Type) where
  row : ρ → StoredRow
  view : StoredRow → Option ρ
  view_eq_some : ∀ r x, view r = some x ↔ r = row x

def campaignRuns : StoredTable CampaignRunRow where
  row := .campaignRun
  view | .campaignRun row => some row | _ => none
  view_eq_some r x := by cases r <;> simp

def campaignDeliveries : StoredTable CampaignDeliveryRow where
  row := .campaignDelivery
  view | .campaignDelivery row => some row | _ => none
  view_eq_some r x := by cases r <;> simp

def messageJobs : StoredTable MessageJobRow where
  row := .messageJob
  view | .messageJob row => some row | _ => none
  view_eq_some r x := by cases r <;> simp

def runtimeEvents : StoredTable RuntimeEventRow where
  row := .runtimeEvent
  view | .runtimeEvent row => some row | _ => none
  view_eq_some r x := by cases r <;> simp

def inboundMessages : StoredTable InboundMessageRow where
  row := .inboundMessage
  view | .inboundMessage row => some row | _ => none
  view_eq_some r x := by cases r <;> simp

def webhookEvents : StoredTable WebhookEventRow where
  row := .webhookEvent
  view | .webhookEvent row => some row | _ => none
  view_eq_some r x := by cases r <;> simp

def syncRuns : StoredTable SyncRunRow where
  row := .syncRun
  view | .syncRun row => some row | _ => none
  view_eq_some r x := by cases r <;> simp

def contactObservations : StoredTable ContactObservationRow where
  row := .contactObservation
  view | .contactObservation row => some row | _ => none
  view_eq_some r x := by cases r <;> simp

end Rows

section ForeignKeys

inductive Reference where
  | run (id : RunId) (sessionId : String)
  | target (run : RunId) (groupId : String)
  | job (id : JobId)
  | event (id : String)
  | syncRun (id : ℕ) (sessionId : String)
  deriving DecidableEq, Repr

/-- The key that a row is referred to by. -/
def key : StoredRow → Option Reference
  | .campaignRun run => some (.run run.id run.sessionId)
  | .campaignRunTarget target => some (.target target.runId target.groupId)
  | .messageJob job => some (.job job.id)
  | .runtimeEvent event => some (.event event.eventId)
  | .syncRun run => some (.syncRun run.id run.sessionId)
  | _ => none

/-- `campaign_run_targets (run_id, session_id)`. -/
def targetRun : ForeignKey StoredRow Reference where
  onDelete := .cascade
  value
    | .campaignRunTarget target => some (.run target.runId target.sessionId)
    | _ => none
  key := key

/-- `campaign_deliveries (run_id, group_id)`. -/
def deliveryTarget : ForeignKey StoredRow Reference where
  onDelete := .cascade
  value
    | .campaignDelivery delivery => some (.target delivery.runId delivery.groupId)
    | _ => none
  key := key

/-- `campaign_deliveries (message_job_id)`. -/
def deliveryJob : ForeignKey StoredRow Reference where
  onDelete := .restrict
  value
    | .campaignDelivery delivery => delivery.messageJobId.map .job
    | _ => none
  key := key

/-- `message_attempts (message_job_id)`. -/
def attemptJob : ForeignKey StoredRow Reference where
  onDelete := .cascade
  value
    | .messageAttempt attempt => some (.job attempt.messageJobId)
    | _ => none
  key := key

/-- `inbound_messages (event_id)`. -/
def inboundEvent : ForeignKey StoredRow Reference where
  onDelete := .restrict
  value
    | .inboundMessage message => some (.event message.eventId)
    | _ => none
  key := key

/-- `message_events (event_id)`. -/
def messageEventEvent : ForeignKey StoredRow Reference where
  onDelete := .restrict
  value
    | .messageEvent event => some (.event event.eventId)
    | _ => none
  key := key

/-- `contact_message_observation_intents (event_id)`. -/
def intentEvent : ForeignKey StoredRow Reference where
  onDelete := .cascade
  value
    | .observationIntent intent => some (.event intent.eventId)
    | _ => none
  key := key

/-- `gateway_sync_items (sync_run_id, session_id)`. -/
def itemRun : ForeignKey StoredRow Reference where
  onDelete := .cascade
  value
    | .gatewaySyncItem item => some (.syncRun item.syncRunId item.sessionId)
    | _ => none
  key := key

def foreignKeys : List (ForeignKey StoredRow Reference) :=
  [targetRun, deliveryTarget, deliveryJob, attemptJob, inboundEvent, messageEventEvent, intentEvent,
    itemRun]

end ForeignKeys

/-- `resolutions`, `works` and `named` are what the retention of push names reads besides the
observations, by session. -/
structure Database where
  rows : List StoredRow
  resolutions : String → List ResolutionRunRow
  works : String → List WorkRow
  named : String → List ObservationId

section Statements

variable (db : Database)

def Database.table {ρ : Type} (t : StoredTable ρ) : List ρ := db.rows.filterMap t.view

def observationOf (sessionId : String) : StoredRow → Option StoredObservation
  | .contactObservation row => if row.sessionId = sessionId then some row.stored else none
  | _ => none

/-- What the retention of push names reads of a session. -/
def Database.contacts (sessionId : String) : RetainedObservations.Tables where
  observations := db.rows.filterMap (observationOf sessionId)
  resolutions := db.resolutions sessionId
  works := db.works sessionId
  named := db.named sessionId

/-- The `candidates` of a statement. -/
def candidates {ρ α : Type} (t : StoredTable ρ) (o : TotalOrder α) (key : ρ → α) (p : ρ → Prop)
    [DecidablePred p] (limit : ℕ) (locked : StoredRow → Bool) : List ρ :=
  batch o key (fun x => p x ∧ locked (t.row x) = false) limit (db.table t)

/-- A statement that deletes its candidates, together with the rows that `others` picks. -/
def deleteCandidates {ρ : Type} (t : StoredTable ρ) (taken : List ρ) (others : StoredRow → Bool) :
    Option (Database × ℕ) :=
  (delete foreignKeys db.rows (taken.map t.row ++ db.rows.filter others)).map fun rows =>
    ({ db with rows := rows }, taken.length)

/-- `updated_at, id`. -/
def byInstant : TotalOrder (ℕ × ℕ) := (TotalOrder.ascending ℕ).prod (TotalOrder.ascending ℕ)

/-- `created_at, event_id`. -/
def byEvent (collation : TotalOrder String) : TotalOrder (ℕ × String) :=
  (TotalOrder.ascending ℕ).prod collation

def RunDue (cutoff : ℕ) (run : CampaignRunRow) : Prop :=
  run.status ∈ [.completed, .partialFailed, .cancelled, .failed] ∧ run.updatedAt < cutoff

def JobDue (cutoff : ℕ) (job : MessageJobRow) : Prop :=
  job.status ∈ [.accepted, .sent, .delivered, .read, .failed, .unknown, .dryRunCompleted,
      .cancelled] ∧
    job.updatedAt < cutoff ∧
    ∀ delivery ∈ db.table campaignDeliveries, delivery.messageJobId ≠ some job.id

def EventDue (cutoff : ℕ) (event : RuntimeEventRow) : Prop := event.createdAt < cutoff

def InboundDue (cutoff : ℕ) (message : InboundMessageRow) : Prop := message.createdAt < cutoff

def WebhookDue (cutoff : ℕ) (event : WebhookEventRow) : Prop :=
  event.processingState ∈ [.processed, .dead] ∧ event.processedAt.getD event.receivedAt < cutoff

def SyncRunDue (cutoff : ℕ) (run : SyncRunRow) : Prop :=
  run.status ∈ [.completed, .failed] ∧ ∃ completedAt ∈ run.completedAt, completedAt < cutoff

def ObservationDue (collation : TotalOrder String) (cutoff : ℕ) (o : ContactObservationRow) : Prop :=
  Redundant collation cutoff (db.contacts o.sessionId) o.stored

instance (cutoff : ℕ) : DecidablePred (RunDue cutoff) :=
  fun _ => inferInstanceAs (Decidable (_ ∧ _))

instance (cutoff : ℕ) : DecidablePred (JobDue db cutoff) :=
  fun _ => inferInstanceAs (Decidable (_ ∧ _ ∧ ∀ delivery ∈ _, _))

instance (cutoff : ℕ) : DecidablePred (EventDue cutoff) :=
  fun _ => inferInstanceAs (Decidable (_ < _))

instance (cutoff : ℕ) : DecidablePred (InboundDue cutoff) :=
  fun _ => inferInstanceAs (Decidable (_ < _))

instance (cutoff : ℕ) : DecidablePred (WebhookDue cutoff) :=
  fun _ => inferInstanceAs (Decidable (_ ∧ _))

instance (cutoff : ℕ) : DecidablePred (SyncRunDue cutoff) :=
  fun run => inferInstanceAs (Decidable (_ ∧ ∃ completedAt ∈ run.completedAt, _))

instance (collation : TotalOrder String) (cutoff : ℕ) :
    DecidablePred (ObservationDue db collation cutoff) :=
  fun o => inferInstanceAs (Decidable (Redundant collation cutoff (db.contacts o.sessionId) o.stored))

variable (collation : TotalOrder String) (cutoff limit : ℕ) (locked : StoredRow → Bool)

def deleteCampaignRuns : Option (Database × ℕ) :=
  deleteCandidates db campaignRuns
    (candidates db campaignRuns byInstant (fun run => (run.updatedAt, run.id)) (RunDue cutoff) limit
      locked)
    fun _ => false

def deleteMessageJobs : Option (Database × ℕ) :=
  deleteCandidates db messageJobs
    (candidates db messageJobs byInstant (fun job => (job.updatedAt, job.id)) (JobDue db cutoff)
      limit locked)
    fun _ => false

/-- The rows of `message_events` and `inbound_messages` that the statement deletes with its
events. -/
def ofEvents (events : List RuntimeEventRow) : StoredRow → Bool
  | .messageEvent row => events.any fun event => event.eventId == row.eventId
  | .inboundMessage row => events.any fun event => event.eventId == row.eventId
  | _ => false

def deleteRuntimeEvents : Option (Database × ℕ) :=
  let taken := candidates db runtimeEvents (byEvent collation)
    (fun event => (event.createdAt, event.eventId)) (EventDue cutoff) limit locked
  deleteCandidates db runtimeEvents taken (ofEvents taken)

def deleteInboundMessages : Option (Database × ℕ) :=
  deleteCandidates db inboundMessages
    (candidates db inboundMessages (byEvent collation)
      (fun message => (message.createdAt, message.eventId)) (InboundDue cutoff) limit locked)
    fun _ => false

def deleteWebhookEvents : Option (Database × ℕ) :=
  deleteCandidates db webhookEvents
    (candidates db webhookEvents byInstant
      (fun event => (event.processedAt.getD event.receivedAt, event.id)) (WebhookDue cutoff) limit
      locked)
    fun _ => false

def deleteSyncRuns : Option (Database × ℕ) :=
  deleteCandidates db syncRuns
    (candidates db syncRuns byInstant (fun run => (run.completedAt.getD 0, run.id))
      (SyncRunDue cutoff) limit locked)
    fun _ => false

def deleteRedundantContactObservations : Option (Database × ℕ) :=
  deleteCandidates db contactObservations
    (candidates db contactObservations byInstant (fun o => (o.stored.row.createdAt, o.stored.id))
      (ObservationDue db collation cutoff) limit locked)
    fun _ => false

end Statements

section Pass

structure RetentionConfig where
  runtimeRetentionDays : ℕ
  runtimeEventRetentionDays : ℕ
  runtimeInboxRetentionDays : ℕ
  runtimeRawWebhookRetentionDays : ℕ
  contactMessageObservationRetentionDays : ℕ
  runtimeRetentionBatchSize : ℕ
  runtimeRetentionMaxBatchesPerRun : ℕ
  runtimeRetentionTimeBudgetMs : ℕ

structure RetentionOptions where
  batchSize : Option ℕ
  maxBatches : Option ℕ
  timeBudgetMs : Option ℕ
  now : Option ℕ

/-- What `cleanup` derives from its options once. -/
structure Plan where
  operationalCutoff : ℕ
  eventCutoff : ℕ
  inboxCutoff : ℕ
  webhookCutoff : ℕ
  contactObservationCutoff : ℕ
  limit : ℕ
  maxBatches : ℕ
  deadline : ℕ

/-- No row is from before the epoch, so that a cutoff before it is as good as one at it. -/
def plan (config : RetentionConfig) (options : RetentionOptions) (date started : ℕ) : Plan :=
  let now := options.now.getD date
  { operationalCutoff := now - config.runtimeRetentionDays * 86400000
    eventCutoff := now - config.runtimeEventRetentionDays * 86400000
    inboxCutoff := now - config.runtimeInboxRetentionDays * 86400000
    webhookCutoff := now - config.runtimeRawWebhookRetentionDays * 86400000
    contactObservationCutoff := now - config.contactMessageObservationRetentionDays * 86400000
    limit := options.batchSize.getD config.runtimeRetentionBatchSize
    maxBatches := options.maxBatches.getD config.runtimeRetentionMaxBatchesPerRun
    deadline := started + options.timeBudgetMs.getD config.runtimeRetentionTimeBudgetMs }

inductive Statement where
  | campaignRuns
  | messageJobs
  | inboundMessages
  | runtimeEvents
  | webhookEvents
  | syncRuns
  | contactObservations
  deriving DecidableEq, Repr

/-- In the order of the transaction. -/
def Statement.all : List Statement :=
  [.campaignRuns, .messageJobs, .inboundMessages, .runtimeEvents, .webhookEvents, .syncRuns,
    .contactObservations]

/-- What a turn meets: the clock at its beginning, and for each statement what the other
transactions have done before it and the rows that they have locked. -/
structure Turn where
  clock : ℕ
  others : Statement → Database → Database
  locked : Statement → StoredRow → Bool

/-- `deleted` has a count for each statement. -/
structure RetentionResult where
  deleted : Statement → ℕ
  batches : ℕ
  capacityExhausted : Bool

variable (collation : TotalOrder String) (c : Plan)

def Statement.run (db : Database) (locked : StoredRow → Bool) :
    Statement → Option (Database × ℕ)
  | .campaignRuns => deleteCampaignRuns db c.operationalCutoff c.limit locked
  | .messageJobs => deleteMessageJobs db c.operationalCutoff c.limit locked
  | .inboundMessages => deleteInboundMessages db collation c.inboxCutoff c.limit locked
  | .runtimeEvents => deleteRuntimeEvents db collation c.eventCutoff c.limit locked
  | .webhookEvents => deleteWebhookEvents db c.webhookCutoff c.limit locked
  | .syncRuns => deleteSyncRuns db c.operationalCutoff c.limit locked
  | .contactObservations =>
    deleteRedundantContactObservations db collation c.contactObservationCutoff c.limit locked

/-- Statements one after the other, with the counts so far. -/
def runStatements (turn : Turn) :
    List Statement → Database → (Statement → ℕ) → Option (Database × (Statement → ℕ))
  | [], db, current => some (db, current)
  | statement :: rest, db, current =>
    (statement.run collation c (turn.others statement db) (turn.locked statement)).bind
      fun (next, count) => runStatements turn rest next (Function.update current statement count)

def transaction (turn : Turn) (db : Database) : Option (Database × (Statement → ℕ)) :=
  runStatements collation c turn Statement.all db fun _ => 0

/-- The loop, with the batches that are left and `drained` at its end. -/
def loop (turns : ℕ → Turn) :
    ℕ → Database → RetentionResult → Option (Database × RetentionResult × Bool)
  | 0, db, total => some (db, total, false)
  | left + 1, db, total =>
    if c.deadline ≤ (turns total.batches).clock then
      some (db, { total with capacityExhausted := true }, false)
    else
      (transaction collation c (turns total.batches) db).bind fun (next, current) =>
        let total :=
          { total with
            deleted := fun statement => total.deleted statement + current statement
            batches := total.batches + 1 }
        if ∀ statement ∈ Statement.all, current statement < c.limit then some (next, total, true)
        else loop turns left next total

/-- `turns` are the turns the pass would take, however many it does take. -/
def cleanup (turns : ℕ → Turn) (db : Database) : Option (Database × RetentionResult) :=
  (loop collation c turns c.maxBatches db ⟨fun _ => 0, 0, false⟩).map fun (db, total, drained) =>
    if drained = false ∧ total.batches = c.maxBatches then
      (db, { total with capacityExhausted := true })
    else (db, total)

end Pass

section Tables

variable {db : Database} {ρ : Type} {t : StoredTable ρ}

theorem mem_table {x : ρ} : x ∈ db.table t ↔ t.row x ∈ db.rows := by
  unfold Database.table
  rw [List.mem_filterMap]
  constructor
  · rintro ⟨r, hr, hview⟩
    rw [← (t.view_eq_some r x).mp hview]
    exact hr
  · exact fun h => ⟨t.row x, h, (t.view_eq_some _ _).mpr rfl⟩

theorem row_injective (t : StoredTable ρ) : Function.Injective t.row := by
  intro x y h
  have hx := (t.view_eq_some (t.row x) x).mpr rfl
  rw [(t.view_eq_some _ _).mpr h] at hx
  exact (Option.some.inj hx).symm

theorem table_nodup (t : StoredTable ρ) (h : db.rows.Nodup) : (db.table t).Nodup := by
  refine h.filterMap fun a a' x ha ha' => ?_
  rw [(t.view_eq_some _ _).mp ha, (t.view_eq_some _ _).mp ha']

theorem mem_contacts {sessionId : String} {o : StoredObservation} :
    o ∈ (db.contacts sessionId).observations ↔
      StoredRow.contactObservation ⟨sessionId, o⟩ ∈ db.rows := by
  simp only [Database.contacts, List.mem_filterMap]
  constructor
  · rintro ⟨r, hr, hview⟩
    cases r with
    | contactObservation row =>
      obtain ⟨rfl, rfl⟩ : row.sessionId = sessionId ∧ row.stored = o := by
        simpa [observationOf] using hview
      exact hr
    | _ => simp [observationOf] at hview
  · exact fun h => ⟨_, h, by simp [observationOf]⟩

end Tables

section Keys

/-- What keeps a row from being deleted. -/
inductive Keeps : StoredRow → StoredRow → Prop where
  | delivery (delivery : CampaignDeliveryRow) (job : MessageJobRow)
      (h : delivery.messageJobId = some job.id) : Keeps (.campaignDelivery delivery) (.messageJob job)
  | inbound (message : InboundMessageRow) (event : RuntimeEventRow)
      (h : message.eventId = event.eventId) : Keeps (.inboundMessage message) (.runtimeEvent event)
  | messageEvent (row : MessageEventRow) (event : RuntimeEventRow) (h : row.eventId = event.eventId) :
      Keeps (.messageEvent row) (.runtimeEvent event)

/-- What a deleted row takes with it. -/
inductive GoesWith : StoredRow → StoredRow → Prop where
  | target (target : CampaignRunTargetRow) (run : CampaignRunRow) (h : target.runId = run.id)
      (hs : target.sessionId = run.sessionId) : GoesWith (.campaignRunTarget target) (.campaignRun run)
  | delivery (delivery : CampaignDeliveryRow) (target : CampaignRunTargetRow)
      (h : delivery.runId = target.runId) (hg : delivery.groupId = target.groupId) :
      GoesWith (.campaignDelivery delivery) (.campaignRunTarget target)
  | attempt (attempt : MessageAttemptRow) (job : MessageJobRow) (h : attempt.messageJobId = job.id) :
      GoesWith (.messageAttempt attempt) (.messageJob job)
  | intent (intent : ObservationIntentRow) (event : RuntimeEventRow)
      (h : intent.eventId = event.eventId) : GoesWith (.observationIntent intent) (.runtimeEvent event)
  | item (item : GatewaySyncItemRow) (run : SyncRunRow) (h : item.syncRunId = run.id)
      (hs : item.sessionId = run.sessionId) : GoesWith (.gatewaySyncItem item) (.syncRun run)

variable {fk : ForeignKey StoredRow Reference} {child parent : StoredRow}

theorem refers_iff : fk.Refers child parent ↔ ∃ k, fk.value child = some k ∧ fk.key parent = some k := by
  unfold ForeignKey.Refers
  cases fk.value child <;> simp [eq_comm]

theorem key_eq_some {k : Reference} (h : key parent = some k) : match k with
    | .run id sessionId => ∃ run, parent = .campaignRun run ∧ run.id = id ∧ run.sessionId = sessionId
    | .target run groupId =>
      ∃ target, parent = .campaignRunTarget target ∧ target.runId = run ∧ target.groupId = groupId
    | .job id => ∃ job, parent = .messageJob job ∧ job.id = id
    | .event id => ∃ event, parent = .runtimeEvent event ∧ event.eventId = id
    | .syncRun id sessionId =>
      ∃ run, parent = .syncRun run ∧ run.id = id ∧ run.sessionId = sessionId := by
  cases parent <;> simp only [key, Option.some.injEq, reduceCtorEq] at h <;> subst h <;> simp

theorem keeps_of_refers (hfk : fk ∈ foreignKeys) (hr : fk.onDelete = .restrict)
    (h : fk.Refers child parent) : Keeps child parent := by
  obtain ⟨k, hvalue, hkey⟩ := refers_iff.mp h
  simp only [foreignKeys, List.mem_cons, List.not_mem_nil, or_false] at hfk
  rcases hfk with rfl | rfl | rfl | rfl | rfl | rfl | rfl | rfl
  · cases hr
  · cases hr
  · cases child <;> simp only [deliveryJob, Option.map_eq_some_iff, reduceCtorEq] at hvalue
    obtain ⟨id, hid, rfl⟩ := hvalue
    obtain ⟨job, rfl, rfl⟩ := key_eq_some hkey
    exact .delivery _ _ hid
  · cases hr
  · cases child <;> simp only [inboundEvent, Option.some.injEq, reduceCtorEq] at hvalue
    subst hvalue
    obtain ⟨event, rfl, hid⟩ := key_eq_some hkey
    exact .inbound _ _ hid.symm
  · cases child <;> simp only [messageEventEvent, Option.some.injEq, reduceCtorEq] at hvalue
    subst hvalue
    obtain ⟨event, rfl, hid⟩ := key_eq_some hkey
    exact .messageEvent _ _ hid.symm
  · cases hr
  · cases hr

theorem goes_with_of_cascades (h : Cascades foreignKeys child parent) : GoesWith child parent := by
  obtain ⟨fk, hfk, hc, h⟩ := h
  obtain ⟨k, hvalue, hkey⟩ := refers_iff.mp h
  simp only [foreignKeys, List.mem_cons, List.not_mem_nil, or_false] at hfk
  rcases hfk with rfl | rfl | rfl | rfl | rfl | rfl | rfl | rfl
  · cases child <;> simp only [targetRun, Option.some.injEq, reduceCtorEq] at hvalue
    subst hvalue
    obtain ⟨run, rfl, hid, hs⟩ := key_eq_some hkey
    exact .target _ _ hid.symm hs.symm
  · cases child <;> simp only [deliveryTarget, Option.some.injEq, reduceCtorEq] at hvalue
    subst hvalue
    obtain ⟨target, rfl, hid, hg⟩ := key_eq_some hkey
    exact .delivery _ _ hid.symm hg.symm
  · cases hc
  · cases child <;> simp only [attemptJob, Option.some.injEq, reduceCtorEq] at hvalue
    subst hvalue
    obtain ⟨job, rfl, hid⟩ := key_eq_some hkey
    exact .attempt _ _ hid.symm
  · cases hc
  · cases hc
  · cases child <;> simp only [intentEvent, Option.some.injEq, reduceCtorEq] at hvalue
    subst hvalue
    obtain ⟨event, rfl, hid⟩ := key_eq_some hkey
    exact .intent _ _ hid.symm
  · cases child <;> simp only [itemRun, Option.some.injEq, reduceCtorEq] at hvalue
    subst hvalue
    obtain ⟨run, rfl, hid, hs⟩ := key_eq_some hkey
    exact .item _ _ hid.symm hs.symm

theorem cascades_of_goes_with (h : GoesWith child parent) : Cascades foreignKeys child parent := by
  cases h with
  | target target run h hs =>
    exact ⟨targetRun, by simp [foreignKeys], rfl, by simp [ForeignKey.Refers, targetRun, key, h, hs]⟩
  | delivery delivery target h hg =>
    exact ⟨deliveryTarget, by simp [foreignKeys], rfl,
      by simp [ForeignKey.Refers, deliveryTarget, key, h, hg]⟩
  | attempt attempt job h =>
    exact ⟨attemptJob, by simp [foreignKeys], rfl, by simp [ForeignKey.Refers, attemptJob, key, h]⟩
  | intent intent event h =>
    exact ⟨intentEvent, by simp [foreignKeys], rfl, by simp [ForeignKey.Refers, intentEvent, key, h]⟩
  | item item run h hs =>
    exact ⟨itemRun, by simp [foreignKeys], rfl, by simp [ForeignKey.Refers, itemRun, key, h, hs]⟩

end Keys

section Removal

/-- What each statement looks for. -/
def Due (collation : TotalOrder String) (c : Plan) (db : Database) : Statement → StoredRow → Prop
  | .campaignRuns, .campaignRun run => RunDue c.operationalCutoff run
  | .messageJobs, .messageJob job => JobDue db c.operationalCutoff job
  | .inboundMessages, .inboundMessage message => InboundDue c.inboxCutoff message
  | .runtimeEvents, .runtimeEvent event => EventDue c.eventCutoff event
  | .webhookEvents, .webhookEvent event => WebhookDue c.webhookCutoff event
  | .syncRuns, .syncRun run => SyncRunDue c.operationalCutoff run
  | .contactObservations, .contactObservation o =>
    ObservationDue db collation c.contactObservationCutoff o
  | _, _ => False

def JobFinished (cutoff : ℕ) (job : MessageJobRow) : Prop :=
  job.status ∈ [.accepted, .sent, .delivered, .read, .failed, .unknown, .dryRunCompleted,
    .cancelled] ∧ job.updatedAt < cutoff

/-- The rows that the retention may delete: those that are due, a job once its deliveries may go,
and what goes with them. -/
inductive Outlived (collation : TotalOrder String) (c : Plan) (db : Database) : StoredRow → Prop where
  | due (statement : Statement) (row : StoredRow) (h : Due collation c db statement row) :
      Outlived collation c db row
  | job (job : MessageJobRow) (hfinished : JobFinished c.operationalCutoff job)
      (hdeliveries : ∀ delivery, .campaignDelivery delivery ∈ db.rows →
        delivery.messageJobId = some job.id → Outlived collation c db (.campaignDelivery delivery)) :
      Outlived collation c db (.messageJob job)
  | goes (child parent : StoredRow) (hin : parent ∈ db.rows) (h : GoesWith child parent)
      (hparent : Outlived collation c db parent) : Outlived collation c db child
  | ofEvent (child : StoredRow) (event : RuntimeEventRow) (hin : .runtimeEvent event ∈ db.rows)
      (h : Keeps child (.runtimeEvent event)) (hdue : EventDue c.eventCutoff event) :
      Outlived collation c db child

/-- The rows that go with a batch: its own, the rows that would keep its events, and all that goes
with one of these. -/
inductive Taken (db : Database) (batch : List StoredRow) : StoredRow → Prop where
  | own (row : StoredRow) (h : row ∈ batch) : Taken db batch row
  | ofEvent (child : StoredRow) (event : RuntimeEventRow) (hin : .runtimeEvent event ∈ batch)
      (h : Keeps child (.runtimeEvent event)) : Taken db batch child
  | goes (child parent : StoredRow) (hin : parent ∈ db.rows) (h : GoesWith child parent)
      (hparent : Taken db batch parent) : Taken db batch child

/-- The batch of a statement: rows that are due to it and free, each once. What is deleted is what
goes with it. -/
structure Takes (collation : TotalOrder String) (c : Plan) (statement : Statement)
    (locked : StoredRow → Bool) (db db' : Database) (batch : List StoredRow) : Prop where
  stored : batch ⊆ db.rows
  due : ∀ row ∈ batch, Due collation c db statement row
  free : ∀ row ∈ batch, locked row = false
  distinct : db.rows.Nodup → batch.Nodup
  gone : ∀ row ∈ db.rows, row ∉ db'.rows ↔ Taken db batch row

/-- What one statement does. -/
structure Removes (collation : TotalOrder String) (c : Plan) (statement : Statement)
    (locked : StoredRow → Bool) (db db' : Database) (count : ℕ) : Prop where
  batch : ∃ batch : List StoredRow, batch.length = count ∧
    Takes collation c statement locked db db' batch
  filtered : ∃ gone : List StoredRow, db' = { db with rows := db.rows.filter (· ∉ gone) } ∧
    ∀ o, StoredRow.contactObservation o ∈ gone →
      statement = .contactObservations ∧ ObservationDue db collation c.contactObservationCutoff o
  deliveries : ∀ delivery, StoredRow.campaignDelivery delivery ∈ db.rows →
    StoredRow.campaignDelivery delivery ∉ db'.rows → statement = .campaignRuns
  consistent : Consistent foreignKeys db.rows → Consistent foreignKeys db'.rows
  outlived : ∀ row ∈ db.rows, row ∉ db'.rows → Outlived collation c db row
  bounded : count ≤ c.limit
  counted : db.rows.Nodup → db'.rows.length + count ≤ db.rows.length
  drained : count < c.limit → ∀ row ∈ db'.rows, Due collation c db' statement row →
    locked row = true

variable {collation : TotalOrder String} {c : Plan} {db : Database}
  {roots taken : List StoredRow} {row : StoredRow}

/-- A row that goes with no other one is only deleted by a statement that picks it. -/
theorem root_of_free (hfree : ∀ parent, ¬ GoesWith row parent)
    (h : row ∈ removed foreignKeys db.rows roots) : row ∈ roots := by
  obtain ⟨_, hroot | ⟨parent, _, hc⟩⟩ := removed_cases h
  · exact hroot
  · exact absurd (goes_with_of_cascades hc) (hfree parent)

/-- A delivery only goes with its target and its run. -/
theorem delivery_roots {delivery : CampaignDeliveryRow}
    (h : .campaignDelivery delivery ∈ removed foreignKeys db.rows roots) :
    (∃ run, .campaignRun run ∈ roots) ∨ (∃ target, .campaignRunTarget target ∈ roots) ∨
      ∃ delivery, .campaignDelivery delivery ∈ roots := by
  obtain ⟨_, hroot | ⟨_, htarget, hc⟩⟩ := removed_cases h
  · exact .inr (.inr ⟨delivery, hroot⟩)
  · cases goes_with_of_cascades hc with
    | delivery _ target _ _ =>
      obtain ⟨_, hroot | ⟨_, hrun, hc⟩⟩ := removed_cases htarget
      · exact .inr (.inl ⟨target, hroot⟩)
      · cases goes_with_of_cascades hc with
        | target _ run _ _ =>
          exact .inl ⟨run, root_of_free (fun _ hgoes => by cases hgoes) hrun⟩

theorem unrestricted (h : ∀ child ∈ db.rows, ∀ parent ∈ roots, Keeps child parent → child ∈ roots) :
    ¬ Restricted foreignKeys db.rows roots := by
  rintro ⟨fk, hfk, hr, child, hchild, hnot, parent, hparent, hrefers⟩
  have hkeeps := keeps_of_refers hfk hr hrefers
  have hroot : parent ∈ roots := by
    refine root_of_free (fun other hgoes => ?_) hparent
    cases hkeeps <;> cases hgoes
  exact hnot (h child hchild parent hroot hkeeps)

theorem due_observation {statement : Statement} {o : ContactObservationRow}
    (h : Due collation c db statement (.contactObservation o)) :
    statement = .contactObservations ∧ ObservationDue db collation c.contactObservationCutoff o := by
  cases statement with
  | contactObservations => exact ⟨rfl, h⟩
  | _ => exact h.elim

theorem due_of_run {statement : Statement} (h : Due collation c db statement row)
    (hkind : (∃ run, row = .campaignRun run) ∨ (∃ target, row = .campaignRunTarget target) ∨
      ∃ delivery, row = .campaignDelivery delivery) : statement = .campaignRuns := by
  rcases hkind with ⟨_, rfl⟩ | ⟨_, rfl⟩ | ⟨_, rfl⟩
  · cases statement with
    | campaignRuns => rfl
    | _ => exact h.elim
  · cases statement <;> exact h.elim
  · cases statement <;> exact h.elim

theorem due_event {statement : Statement} {event : RuntimeEventRow}
    (h : Due collation c db statement (.runtimeEvent event)) : EventDue c.eventCutoff event := by
  cases statement with
  | runtimeEvents => exact h
  | _ => exact h.elim

/-- What a DELETE removes is what goes with its batch. -/
theorem removed_iff_taken {others : List StoredRow}
    (hothers : ∀ row ∈ others, ∃ event, .runtimeEvent event ∈ taken ∧
      Keeps row (.runtimeEvent event))
    (hkept : ∀ child ∈ db.rows, ∀ parent ∈ taken ++ others, Keeps child parent →
      child ∈ taken ++ others) :
    row ∈ removed foreignKeys db.rows (taken ++ others) ↔ row ∈ db.rows ∧ Taken db taken row := by
  constructor
  · intro h
    refine ⟨(removed_cases h).1, removed_induction (fun row _ hroot => ?_) (fun child _ parent hin
      hc hparent => .goes child parent hin (goes_with_of_cascades hc) hparent) h⟩
    rcases List.mem_append.mp hroot with hown | hother
    · exact .own row hown
    · obtain ⟨event, hevent, hkeeps⟩ := hothers row hother
      exact .ofEvent row event hevent hkeeps
  · rintro ⟨hrow, h⟩
    induction h with
    | own row hown => exact removed_root hrow (List.mem_append_left _ hown)
    | ofEvent child event hevent hkeeps =>
      exact removed_root hrow (hkept child hrow _ (List.mem_append_left _ hevent) hkeeps)
    | goes child parent hin hgoes _ ih =>
      exact removed_dependent (ih hin) hrow (cascades_of_goes_with hgoes)

theorem taken_outlived {statement : Statement} (hstored : taken ⊆ db.rows)
    (hdue : ∀ row ∈ taken, Due collation c db statement row) (h : Taken db taken row) :
    Outlived collation c db row := by
  induction h with
  | own row hown => exact .due statement row (hdue row hown)
  | ofEvent child event hevent hkeeps =>
    exact .ofEvent child event (hstored hevent) hkeeps (due_event (hdue _ hevent))
  | goes child parent hin hgoes _ ih => exact .goes child parent hin hgoes ih

theorem taken_observation {o : ContactObservationRow} (h : Taken db taken (.contactObservation o)) :
    .contactObservation o ∈ taken := by
  cases h with
  | own _ hown => exact hown
  | ofEvent _ _ _ hkeeps => cases hkeeps
  | goes _ _ _ hgoes _ => cases hgoes

/-- A delivery goes with its target, which goes with its run. -/
theorem taken_delivery {statement : Statement} {delivery : CampaignDeliveryRow}
    (hdue : ∀ row ∈ taken, Due collation c db statement row)
    (h : Taken db taken (.campaignDelivery delivery)) : statement = .campaignRuns := by
  cases h with
  | own _ hown => exact due_of_run (hdue _ hown) (.inr (.inr ⟨_, rfl⟩))
  | ofEvent _ _ _ hkeeps => cases hkeeps
  | goes _ _ _ hgoes htarget =>
    cases hgoes with
    | delivery _ target _ _ =>
      cases htarget with
      | own _ hown => exact due_of_run (hdue _ hown) (.inr (.inl ⟨_, rfl⟩))
      | ofEvent _ _ _ hkeeps => cases hkeeps
      | goes _ _ _ hgoes hrun =>
        cases hgoes with
        | target _ run _ _ =>
          cases hrun with
          | own _ hown => exact due_of_run (hdue _ hown) (.inl ⟨_, rfl⟩)
          | ofEvent _ _ _ hkeeps => cases hkeeps
          | goes _ _ _ hgoes _ => cases hgoes

variable {ρ α : Type} {t : StoredTable ρ} {o : TotalOrder α} {key : ρ → α} {p : ρ → Prop}
  [DecidablePred p] {limit : ℕ} {locked others : StoredRow → Bool} {x : ρ}

theorem mem_candidates (h : x ∈ candidates db t o key p limit locked) :
    t.row x ∈ db.rows ∧ p x ∧ locked (t.row x) = false := by
  obtain ⟨hrow, hp, hfree⟩ := mem_batch h
  exact ⟨mem_table.mp hrow, hp, hfree⟩

theorem candidates_nodup (h : db.rows.Nodup) :
    ((candidates db t o key p limit locked).map t.row).Nodup :=
  (batch_nodup (table_nodup t h)).map (row_injective t)

/-- A statement whose foreign keys are in order, whatever else it deletes. -/
theorem deleteCandidates_removes {statement : Statement}
    (hdue : ∀ row, Due collation c db statement row ↔ ∃ x, row = t.row x ∧ p x)
    (hothers : ∀ row ∈ db.rows, others row = true → ∃ event,
      .runtimeEvent event ∈ (candidates db t o key p c.limit locked).map t.row ∧
        Keeps row (.runtimeEvent event))
    (hkept : ∀ child ∈ db.rows,
      ∀ parent ∈ (candidates db t o key p c.limit locked).map t.row ++ db.rows.filter others,
        Keeps child parent →
          child ∈ (candidates db t o key p c.limit locked).map t.row ++ db.rows.filter others)
    (hback : ∀ db' : Database, db'.rows = db.rows.filter (· ∉ removed foreignKeys db.rows
        ((candidates db t o key p c.limit locked).map t.row ++ db.rows.filter others)) →
      db'.resolutions = db.resolutions → db'.works = db.works → db'.named = db.named →
      ∀ row, Due collation c db' statement row → Due collation c db statement row) :
    ∃ db' count, deleteCandidates db t (candidates db t o key p c.limit locked) others =
      some (db', count) ∧ Removes collation c statement locked db db' count := by
  have hlength : (candidates db t o key p c.limit locked).length ≤ c.limit := batch_length_le
  have hfull : (candidates db t o key p c.limit locked).length < c.limit → ∀ x, t.row x ∈ db.rows →
      p x → locked (t.row x) = false → x ∈ candidates db t o key p c.limit locked :=
    fun hshort x hrow hp hfree => mem_of_short hshort (mem_table.mpr hrow) ⟨hp, hfree⟩
  have hdistinct : db.rows.Nodup →
      ((candidates db t o key p c.limit locked).map t.row).Nodup := candidates_nodup
  have hin : ∀ x ∈ candidates db t o key p c.limit locked,
      t.row x ∈ db.rows ∧ p x ∧ locked (t.row x) = false := fun x hx => mem_candidates hx
  generalize candidates db t o key p c.limit locked = taken at *
  have hrows : ∀ row ∈ taken.map t.row, row ∈ db.rows ∧ Due collation c db statement row ∧
      locked row = false := by
    intro row hrow
    obtain ⟨x, hx, rfl⟩ := List.mem_map.mp hrow
    exact ⟨(hin x hx).1, (hdue _).mpr ⟨x, rfl, (hin x hx).2.1⟩, (hin x hx).2.2⟩
  have hremoved : ∀ row, row ∈ removed foreignKeys db.rows
      (taken.map t.row ++ db.rows.filter others) ↔
        row ∈ db.rows ∧ Taken db (taken.map t.row) row := fun row =>
    removed_iff_taken (fun row hrow => hothers row (List.mem_filter.mp hrow).1
      (List.mem_filter.mp hrow).2) hkept
  have hdelete : delete foreignKeys db.rows (taken.map t.row ++ db.rows.filter others) =
      some (db.rows.filter (· ∉ removed foreignKeys db.rows
        (taken.map t.row ++ db.rows.filter others))) :=
    delete_eq_some.mpr ⟨unrestricted hkept, rfl⟩
  generalize hroots : taken.map t.row ++ db.rows.filter others = roots at *
  have hgone : ∀ row ∈ db.rows, row ∉ db.rows.filter (· ∉ removed foreignKeys db.rows roots) ↔
      Taken db (taken.map t.row) row := by
    intro row hrow
    rw [List.mem_filter, decide_eq_true_eq, not_and_not_right]
    exact ⟨fun h => ((hremoved row).mp (h hrow)).2, fun h _ => (hremoved row).mpr ⟨hrow, h⟩⟩
  have hstored : taken.map t.row ⊆ db.rows := fun row hrow => (hrows row hrow).1
  have hwasdue : ∀ row ∈ taken.map t.row, Due collation c db statement row :=
    fun row hrow => (hrows row hrow).2.1
  refine ⟨{ db with rows := db.rows.filter (· ∉ removed foreignKeys db.rows roots) }, taken.length,
    ?_, ⟨taken.map t.row, List.length_map _, hstored, hwasdue, fun row hrow => (hrows row hrow).2.2,
      hdistinct, hgone⟩, ⟨_, rfl, fun o ho => ?_⟩, fun delivery hthere hleft => ?_,
    fun hc => delete_consistent hc hdelete, fun row hrow hleft => ?_, hlength, fun hnodup => ?_,
    fun hshort row hrow hrowdue => ?_⟩
  · rw [deleteCandidates, hroots, hdelete]
    rfl
  · exact due_observation (hwasdue _ (taken_observation ((hremoved _).mp ho).2))
  · exact taken_delivery hwasdue ((hgone _ hthere).mp hleft)
  · exact taken_outlived hstored hwasdue ((hgone row hrow).mp hleft)
  · have hless := delete_length hdelete (taken.map t.row) (hdistinct hnodup)
      fun row hrow => ⟨hstored hrow, hroots ▸ List.mem_append_left _ hrow⟩
    rwa [List.length_map] at hless
  · obtain ⟨hold, hnot⟩ := (mem_of_delete hdelete).mp hrow
    obtain ⟨x, rfl, hp⟩ := (hdue row).mp (hback { db with
      rows := db.rows.filter (· ∉ removed foreignKeys db.rows roots) } rfl rfl rfl rfl row hrowdue)
    by_contra hfree
    have hmem : x ∈ taken := hfull hshort x hold hp (by simpa using hfree)
    refine hnot (removed_root hold ?_)
    rw [← hroots]
    exact List.mem_append_left _ (List.mem_map_of_mem hmem)

end Removal

section Statements

variable {collation : TotalOrder String} {c : Plan} (db : Database) (locked : StoredRow → Bool)

/-- No row is deleted with the candidates, and none of these is one that another row keeps. -/
theorem deleteCandidates_alone {ρ α : Type} {t : StoredTable ρ} {o : TotalOrder α} {key : ρ → α}
    {p : ρ → Prop} [DecidablePred p] {statement : Statement}
    (hdue : ∀ db' : Database, db'.rows ⊆ db.rows → ∀ row,
      Due collation c db' statement row → ∃ x, row = t.row x)
    (hiff : ∀ x, Due collation c db statement (t.row x) ↔ p x)
    (hfree : ∀ child ∈ db.rows, ∀ x, p x → ¬ Keeps child (t.row x))
    (hback : ∀ db' : Database, db'.rows = db.rows.filter (· ∉ removed foreignKeys db.rows
        ((candidates db t o key p c.limit locked).map t.row)) →
      db'.resolutions = db.resolutions → db'.works = db.works → db'.named = db.named →
      ∀ x, Due collation c db' statement (t.row x) → Due collation c db statement (t.row x)) :
    ∃ db' count, deleteCandidates db t (candidates db t o key p c.limit locked) (fun _ => false) =
      some (db', count) ∧ Removes collation c statement locked db db' count := by
  have hnone : db.rows.filter (fun _ => false) = [] := List.filter_false _
  refine deleteCandidates_removes (fun row => ⟨fun h => ?_, ?_⟩) (fun _ _ h => by cases h)
    (fun child hchild parent hparent hkeeps => ?_) (fun db' hrows hr hw hn row h => ?_)
  · obtain ⟨x, rfl⟩ := hdue db (List.Subset.refl _) row h
    exact ⟨x, rfl, (hiff x).mp h⟩
  · rintro ⟨x, rfl, hp⟩
    exact (hiff x).mpr hp
  · rw [hnone, List.append_nil] at hparent
    obtain ⟨x, hx, rfl⟩ := List.mem_map.mp hparent
    exact absurd hkeeps (hfree child hchild x (mem_candidates hx).2.1)
  · rw [hnone, List.append_nil] at hrows
    obtain ⟨x, rfl⟩ := hdue db' (by rw [hrows]; exact List.filter_sublist.subset) row h
    exact hback db' hrows hr hw hn x h

theorem deleteCampaignRuns_removes : ∃ db' count,
    deleteCampaignRuns db c.operationalCutoff c.limit locked = some (db', count) ∧
      Removes collation c .campaignRuns locked db db' count := by
  refine deleteCandidates_alone db locked (fun db' _ row h => ?_) (fun _ => Iff.rfl)
    (fun child _ run _ hkeeps => by cases hkeeps) fun db' _ _ _ _ run h => h
  cases row with
  | campaignRun run => exact ⟨run, rfl⟩
  | _ => exact h.elim

theorem deleteInboundMessages_removes : ∃ db' count,
    deleteInboundMessages db collation c.inboxCutoff c.limit locked = some (db', count) ∧
      Removes collation c .inboundMessages locked db db' count := by
  refine deleteCandidates_alone db locked (fun db' _ row h => ?_) (fun _ => Iff.rfl)
    (fun child _ message _ hkeeps => by cases hkeeps) fun db' _ _ _ _ message h => h
  cases row with
  | inboundMessage message => exact ⟨message, rfl⟩
  | _ => exact h.elim

theorem deleteWebhookEvents_removes : ∃ db' count,
    deleteWebhookEvents db c.webhookCutoff c.limit locked = some (db', count) ∧
      Removes collation c .webhookEvents locked db db' count := by
  refine deleteCandidates_alone db locked (fun db' _ row h => ?_) (fun _ => Iff.rfl)
    (fun child _ event _ hkeeps => by cases hkeeps) fun db' _ _ _ _ event h => h
  cases row with
  | webhookEvent event => exact ⟨event, rfl⟩
  | _ => exact h.elim

theorem deleteSyncRuns_removes : ∃ db' count,
    deleteSyncRuns db c.operationalCutoff c.limit locked = some (db', count) ∧
      Removes collation c .syncRuns locked db db' count := by
  refine deleteCandidates_alone db locked (fun db' _ row h => ?_) (fun _ => Iff.rfl)
    (fun child _ run _ hkeeps => by cases hkeeps) fun db' _ _ _ _ run h => h
  cases row with
  | syncRun run => exact ⟨run, rfl⟩
  | _ => exact h.elim

theorem deleteMessageJobs_removes : ∃ db' count,
    deleteMessageJobs db c.operationalCutoff c.limit locked = some (db', count) ∧
      Removes collation c .messageJobs locked db db' count := by
  refine deleteCandidates_alone db locked (fun db' _ row h => ?_) (fun _ => Iff.rfl)
    (fun child hchild job hdue hkeeps => ?_) fun db' hrows _ _ _ job h => ?_
  · cases row with
    | messageJob job => exact ⟨job, rfl⟩
    | _ => exact h.elim
  · cases hkeeps with
    | delivery delivery job hjob => exact hdue.2.2 delivery (mem_table.mpr hchild) hjob
  · obtain ⟨hstatus, hold, hnone⟩ : JobDue db' c.operationalCutoff job := h
    refine ⟨hstatus, hold, fun delivery hdelivery => hnone delivery (mem_table.mpr ?_)⟩
    rw [hrows]
    refine List.mem_filter.mpr ⟨mem_table.mp hdelivery, decide_eq_true fun hgone => ?_⟩
    -- of the statement's own rows, all are jobs
    rcases delivery_roots hgone with ⟨_, hroot⟩ | ⟨_, hroot⟩ | ⟨_, hroot⟩ <;>
      exact absurd hroot (by simp [messageJobs])

theorem redundant_back {db' : Database} {cutoff : ℕ} {o : ContactObservationRow}
    (hrows : db'.rows ⊆ db.rows) (hr : db'.resolutions = db.resolutions) (hw : db'.works = db.works)
    (hn : db'.named = db.named) (h : ObservationDue db' collation cutoff o) :
    ObservationDue db collation cutoff o := by
  obtain ⟨hmessage, hold, ⟨newer, hnewer, hsuper⟩, hquiet, hnamed⟩ := h
  refine ⟨hmessage, hold, ⟨newer, mem_contacts.mpr (hrows (mem_contacts.mp hnewer)), hsuper⟩, ?_, ?_⟩
  · simpa only [RetainedObservations.Quiet, Database.contacts, hr, hw] using hquiet
  · simpa only [Database.contacts, hn] using hnamed

theorem deleteRedundantContactObservations_removes : ∃ db' count,
    deleteRedundantContactObservations db collation c.contactObservationCutoff c.limit locked =
      some (db', count) ∧ Removes collation c .contactObservations locked db db' count := by
  refine deleteCandidates_alone db locked (fun db' _ row h => ?_) (fun _ => Iff.rfl)
    (fun child _ o _ hkeeps => by cases hkeeps) fun db' hrows hr hw hn o h => ?_
  · cases row with
    | contactObservation o => exact ⟨o, rfl⟩
    | _ => exact h.elim
  · exact redundant_back db (by rw [hrows]; exact List.filter_sublist.subset) hr hw hn h

theorem ofEvents_keeps {events : List RuntimeEventRow} {row : StoredRow} :
    ofEvents events row = true ↔ ∃ event ∈ events, Keeps row (.runtimeEvent event) := by
  constructor
  · intro h
    cases row with
    | messageEvent row =>
      obtain ⟨event, hevent, heq⟩ := List.any_eq_true.mp h
      exact ⟨event, hevent, .messageEvent _ _ (beq_iff_eq.mp heq).symm⟩
    | inboundMessage row =>
      obtain ⟨event, hevent, heq⟩ := List.any_eq_true.mp h
      exact ⟨event, hevent, .inbound _ _ (beq_iff_eq.mp heq).symm⟩
    | _ => simp [ofEvents] at h
  · rintro ⟨event, hevent, hkeeps⟩
    cases hkeeps with
    | inbound message _ heq => exact List.any_eq_true.mpr ⟨event, hevent, by simp [heq]⟩
    | messageEvent row _ heq => exact List.any_eq_true.mpr ⟨event, hevent, by simp [heq]⟩

theorem deleteRuntimeEvents_removes : ∃ db' count,
    deleteRuntimeEvents db collation c.eventCutoff c.limit locked = some (db', count) ∧
      Removes collation c .runtimeEvents locked db db' count := by
  unfold deleteRuntimeEvents
  refine deleteCandidates_removes (fun row => ⟨fun h => ?_, ?_⟩) (fun row hrow hother => ?_)
    (fun child hchild parent hparent hkeeps => ?_) fun db' _ _ _ _ row h => ?_
  · cases row with
    | runtimeEvent event => exact ⟨event, rfl, h⟩
    | _ => exact h.elim
  · rintro ⟨event, rfl, h⟩
    exact h
  · obtain ⟨event, hevent, hkeeps⟩ := ofEvents_keeps.mp hother
    exact ⟨event, List.mem_map_of_mem hevent, hkeeps⟩
  · refine List.mem_append_right _ (List.mem_filter.mpr ⟨hchild, ofEvents_keeps.mpr ?_⟩)
    rcases List.mem_append.mp hparent with htaken | hother
    · obtain ⟨event, hevent, rfl⟩ := List.mem_map.mp htaken
      exact ⟨event, hevent, hkeeps⟩
    · obtain ⟨event, _, hof⟩ := ofEvents_keeps.mp (List.mem_filter.mp hother).2
      cases hkeeps <;> cases hof
  · cases row with
    | runtimeEvent event => exact h
    | _ => exact h.elim

variable (collation c) in
theorem run_removes (statement : Statement) : ∃ db' count,
    statement.run collation c db locked = some (db', count) ∧
      Removes collation c statement locked db db' count := by
  cases statement with
  | campaignRuns => exact deleteCampaignRuns_removes db locked
  | messageJobs => exact deleteMessageJobs_removes db locked
  | inboundMessages => exact deleteInboundMessages_removes db locked
  | runtimeEvents => exact deleteRuntimeEvents_removes db locked
  | webhookEvents => exact deleteWebhookEvents_removes db locked
  | syncRuns => exact deleteSyncRuns_removes db locked
  | contactObservations => exact deleteRedundantContactObservations_removes db locked

end Statements

section Contacts

variable {collation : TotalOrder String} {c : Plan} {statement : Statement}
  {locked : StoredRow → Bool} {db db' : Database} {count : ℕ}

theorem removes_subset (h : Removes collation c statement locked db db' count) :
    db'.rows ⊆ db.rows := by
  obtain ⟨gone, rfl, _⟩ := h.filtered
  exact List.filter_sublist.subset

/-- The ids of the observations of a session are distinct. -/
def DistinctIds (db : Database) : Prop :=
  ∀ sessionId, ∀ o ∈ (db.contacts sessionId).observations,
    ∀ p ∈ (db.contacts sessionId).observations, o.id = p.id → o = p

variable (db) in
theorem contacts_filter (sessionId : String) (gone : List StoredRow) :
    (Database.contacts { db with rows := db.rows.filter (· ∉ gone) } sessionId).observations =
      (db.contacts sessionId).observations.filter
        fun o => StoredRow.contactObservation ⟨sessionId, o⟩ ∉ gone := by
  simp only [Database.contacts, List.filterMap_filter, List.filter_filterMap]
  refine List.filterMap_congr fun row _ => ?_
  cases row with
  | contactObservation row =>
    by_cases hs : row.sessionId = sessionId
    · subst hs
      by_cases hgone : StoredRow.contactObservation row ∈ gone <;>
        simp [observationOf, hgone, Option.filter]
    · simp [observationOf, hs]
  | _ => simp [observationOf]

/-- Of each session a statement deletes what a batch of the retention of push names deletes. -/
theorem contacts_retained (h : Removes collation c statement locked db db' count)
    (hids : DistinctIds db) (sessionId : String) : ∃ b : RetainedObservations.Batch,
      db'.contacts sessionId =
        RetainedObservations.deleteRedundantContactObservations collation b
          (db.contacts sessionId) := by
  obtain ⟨gone, rfl, hgone⟩ := h.filtered
  set t := db.contacts sessionId with ht
  -- the batch takes what is gone: everything else is locked
  let b : RetainedObservations.Batch :=
    { cutoff := c.contactObservationCutoff
      limit := t.observations.length
      locked := (t.observations.filter fun o =>
        StoredRow.contactObservation ⟨sessionId, o⟩ ∉ gone).map StoredObservation.id }
  have hall : ∀ o, o ∈ RetainedObservations.candidates collation b t ↔ o ∈ t.observations ∧
      Redundant collation b.cutoff t o ∧ o.id ∉ b.locked := by
    intro o
    have hlength : (t.observations.filter fun o =>
        Redundant collation b.cutoff t o ∧ o.id ∉ b.locked).length ≤ b.limit :=
      List.length_filter_le _ _
    unfold RetainedObservations.candidates
    rw [List.take_of_length_le (by rw [(TotalOrder.sortBy_perm _).length_eq]; exact hlength),
      (TotalOrder.sortBy_perm _).mem_iff, List.mem_filter, decide_eq_true_eq]
  refine ⟨b, ?_⟩
  have hobservations := contacts_filter db sessionId gone
  rw [← ht] at hobservations
  have htables : Database.contacts { db with rows := db.rows.filter (· ∉ gone) } sessionId =
      { t with
        observations := t.observations.filter
          fun o => StoredRow.contactObservation ⟨sessionId, o⟩ ∉ gone } := by
    rw [← hobservations]
    rfl
  rw [htables, RetainedObservations.deleteRedundantContactObservations]
  congr 1
  refine List.filter_congr fun o ho => decide_eq_decide.mpr (not_congr ?_)
  rw [hall]
  have hlocked : o.id ∈ b.locked ↔ StoredRow.contactObservation ⟨sessionId, o⟩ ∉ gone := by
    simp only [b, List.mem_map, List.mem_filter, decide_eq_true_eq]
    constructor
    · rintro ⟨p, ⟨hp, hkept⟩, hid⟩
      rwa [hids sessionId p hp o ho hid] at hkept
    · exact fun hkept => ⟨o, ⟨ho, hkept⟩, rfl⟩
  rw [hlocked, not_not]
  exact ⟨fun hin => ⟨ho, (hgone _ hin).2, hin⟩, fun hin => hin.2.2⟩

end Contacts

end DataRetention
