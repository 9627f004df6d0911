import WaRuntime.WebhookTransaction

/-! What processing a webhook does to the rows of other sessions.
Every statement of the transaction names the event's session, or a row under the event's key,
except the update of `message_jobs`: it looks for the message id alone. -/
namespace WebhookSessionIsolation

open WebhookEvents WebhookStatements OwnedTables MessageJobStatements GroupCapabilityStatements
open WebhookTransaction
open GroupIntentStatements (scheduleInTransaction)

/-- Every row that belongs to a session other than `s` is as it was. -/
structure KeepsOtherSessions (s : String) (db after : Database) : Prop where
  webhookEvents : KeepsOthers (fun _ row => row.sessionId) s db.webhookEvents after.webhookEvents
  runtimeEvents : KeepsOthers (fun _ row => row.sessionId) s db.ledger.runtimeEvents
    after.ledger.runtimeEvents
  inboundMessages : KeepsOthers (fun key _ => key.1) s db.ledger.inboundMessages
    after.ledger.inboundMessages
  messageEvents : KeepsOthers (fun _ row => row.sessionId) s db.ledger.messageEvents
    after.ledger.messageEvents
  observationIntents : KeepsOthers (fun _ row => row.sessionId) s db.ledger.observationIntents
    after.ledger.observationIntents
  sessions : KeepsOthers (fun key _ => key) s db.sessions after.sessions
  groups : KeepsOthers (fun key _ => key.1) s db.groups after.groups
  intents : KeepsOthers (fun key _ => key.1) s db.intents after.intents
  messageJobs : KeepsOthers (fun _ row => row.sessionId) s db.messageJobs after.messageJobs

variable {config : Config} {now token : ℕ} {envelope : OpenWAWebhookEnvelope}
  {event : RuntimeEvent} {s : String} {db mid after : Database}

theorem keeps_refl : KeepsOtherSessions s db db := by
  constructor <;> exact keeps_others_refl

theorem keeps_trans (h : KeepsOtherSessions s db mid) (k : KeepsOtherSessions s mid after) :
    KeepsOtherSessions s db after where
  webhookEvents := keeps_others_trans h.webhookEvents k.webhookEvents
  runtimeEvents := keeps_others_trans h.runtimeEvents k.runtimeEvents
  inboundMessages := keeps_others_trans h.inboundMessages k.inboundMessages
  messageEvents := keeps_others_trans h.messageEvents k.messageEvents
  observationIntents := keeps_others_trans h.observationIntents k.observationIntents
  sessions := keeps_others_trans h.sessions k.sessions
  groups := keeps_others_trans h.groups k.groups
  intents := keeps_others_trans h.intents k.intents
  messageJobs := keeps_others_trans h.messageJobs k.messageJobs

theorem keeps_symm (h : KeepsOtherSessions s db after) : KeepsOtherSessions s after db where
  webhookEvents := keeps_others_symm h.webhookEvents
  runtimeEvents := keeps_others_symm h.runtimeEvents
  inboundMessages := keeps_others_symm h.inboundMessages
  messageEvents := keeps_others_symm h.messageEvents
  observationIntents := keeps_others_symm h.observationIntents
  sessions := keeps_others_symm h.sessions
  groups := keeps_others_symm h.groups
  intents := keeps_others_symm h.intents
  messageJobs := keeps_others_symm h.messageJobs

/-- A write to the webhook's own row. -/
theorem update_webhook_keeps {key : String} {f : WebhookRow → Option WebhookRow}
    {hf : ∀ row new, f row = some new →
      row.payload.idempotencyKey = key ∧ row.payload.sessionId = row.sessionId →
      new.payload.idempotencyKey = key ∧ new.payload.sessionId = new.sessionId}
    (ho : ∀ row, db.webhookEvents key = some row → row.sessionId = s)
    (hn : ∀ row new, f row = some new → new.sessionId = row.sessionId) :
    KeepsOtherSessions s db (db.updateWebhook key f hf) := by
  have hkeep : KeepsOtherSessions s db db := keeps_refl
  refine { hkeep with webhookEvents := update_at_keeps ho ?_ }
  intro row new hrow hnew
  rw [hn row new hnew]
  exact ho row hrow

theorem claim_keeps {key : String} (ho : ∀ row, db.webhookEvents key = some row → row.sessionId = s) :
    KeepsOtherSessions s db (db.claimForProcessing now token key) := by
  refine update_webhook_keeps ho fun row new h => ?_
  obtain ⟨_, _, _, _, _, _, hs, _⟩ := claimForProcessing_some h
  exact hs

theorem mark_failed_keeps {key error : String}
    (ho : ∀ row, db.webhookEvents key = some row → row.sessionId = s) :
    KeepsOtherSessions s db (db.markFailed now token error key) := by
  refine update_webhook_keeps ho fun row new h => ?_
  obtain ⟨_, _, _, _, hs, _⟩ := markFailed_some h
  exact hs

theorem mark_processed_keeps {key : String} {compact : Bool}
    (ho : ∀ row, db.webhookEvents key = some row → row.sessionId = s) :
    KeepsOtherSessions s db (db.markProcessed compact now token key) := by
  refine update_webhook_keeps ho fun row new h => ?_
  obtain ⟨_, _, _, _, hs⟩ := markProcessed_some h
  exact hs

/-- The effects of an event name its session in every key. -/
theorem store_effects_keep {occurredAt : ℤ}
    {hstored : (db.ledger.runtimeEvents event.eventId).isSome} :
    KeepsOtherSessions event.sessionId db (storeEffects config now event occurredAt db hstored) := by
  have hkeep : KeepsOtherSessions event.sessionId db db := keeps_refl
  unfold storeEffects
  split
  · split
    · exact { hkeep with inboundMessages := insert_absent_keeps rfl }
    · exact hkeep
  · split
    · exact { hkeep with messageEvents := insert_absent_keeps rfl }
    · exact hkeep
  · exact { hkeep with
      sessions := update_at_keeps (fun _ _ => rfl) fun _ _ _ _ => rfl }
  · exact { hkeep with
      sessions := update_at_keeps (fun _ _ => rfl) fun _ _ _ _ => rfl }
  · split
    · exact { hkeep with
        intents := upsert_keeps (fun _ _ => rfl) rfl
        groups := update_at_keeps (fun _ _ => rfl) fun _ _ _ _ => rfl }
    · exact hkeep
  · exact hkeep

theorem store_effects_frame {occurredAt : ℤ}
    {hstored : (db.ledger.runtimeEvents event.eventId).isSome} :
    (storeEffects config now event occurredAt db hstored).webhookEvents = db.webhookEvents ∧
      (storeEffects config now event occurredAt db hstored).messageJobs = db.messageJobs := by
  unfold storeEffects
  split
  · split <;> exact ⟨rfl, rfl⟩
  · split <;> exact ⟨rfl, rfl⟩
  · exact ⟨rfl, rfl⟩
  · exact ⟨rfl, rfl⟩
  · split <;> exact ⟨rfl, rfl⟩
  · exact ⟨rfl, rfl⟩

/-- Storing an event keeps the rows of other sessions and leaves the webhooks and the jobs. -/
theorem store_keeps (h : storeInTransaction config now event db = .ok after) :
    KeepsOtherSessions event.sessionId db after ∧ after.webhookEvents = db.webhookEvents ∧
      after.messageJobs = db.messageJobs := by
  have hkeep : KeepsOtherSessions event.sessionId db db := keeps_refl
  unfold storeInTransaction at h
  split at h
  · cases h
  · split at h
    · split at h
      · cases h
        exact ⟨keeps_refl, rfl, rfl⟩
      · cases h
    · cases h
      refine ⟨keeps_trans ?_ store_effects_keep, ?_, ?_⟩
      · exact { hkeep with runtimeEvents := insert_absent_keeps rfl }
      · exact store_effects_frame.1
      · exact store_effects_frame.2

theorem enqueue_keeps (h : enqueueContact config envelope event db = .ok after) :
    KeepsOtherSessions envelope.sessionId db after ∧ after.webhookEvents = db.webhookEvents ∧
      after.messageJobs = db.messageJobs := by
  have hkeep : KeepsOtherSessions envelope.sessionId db db := keeps_refl
  unfold enqueueContact at h
  split at h
  · split at h
    · cases h
    · split at h
      · split at h
        · cases h
          exact ⟨{ hkeep with observationIntents := insert_absent_keeps rfl },
            rfl, rfl⟩
        · cases h
          exact ⟨keeps_refl, rfl, rfl⟩
      · cases h
        exact ⟨keeps_refl, rfl, rfl⟩
  · cases h
    exact ⟨keeps_refl, rfl, rfl⟩

/-- A job of another session has the message id, at a status that the webhook overwrites. -/
def MatchesForeignJob (s : String) (status : MessageJobStatus) (messageId : String)
    (db : Database) : Prop :=
  ∃ job row, db.messageJobs job = some row ∧ row.sessionId ≠ s ∧
    row.openwaMessageId = some messageId ∧ WebhookOverwrites status row.status

theorem overwritten_status_differs {status stored : MessageJobStatus}
    (h : WebhookOverwrites status stored) : status ≠ stored := by
  obtain ⟨_, hfailed | hrank⟩ := h
  · obtain ⟨rfl, hstored⟩ := hfailed
    rintro rfl
    simp at hstored
  · rintro rfl
    exact lt_irrefl _ hrank.2

/-- The update of `message_jobs` spares the other sessions unless one of their jobs matches. -/
theorem job_update_keeps_iff {status : MessageJobStatus} {messageId : String} :
    KeepsOthers (fun _ row => row.sessionId) s db.messageJobs
        (updateAll db.messageJobs (updateStatusByOpenWAMessageId now messageId status)) ↔
      ¬ MatchesForeignJob s status messageId db := by
  rw [update_all_keeps_iff]
  · constructor
    · rintro h ⟨job, row, hrow, hown, hid, hover⟩
      have hnone := h job row hrow hown
      simp [updateStatusByOpenWAMessageId, hid, hover] at hnone
    · intro h job row hrow hown
      by_contra hsome
      obtain ⟨new, hnew⟩ := Option.ne_none_iff_exists'.mp hsome
      obtain ⟨hid, hover, _⟩ := updateStatusByOpenWAMessageId_some hnew
      exact h ⟨job, row, hrow, hown, hid, hover⟩
  · intro job row new hnew
    obtain ⟨_, hover, rfl⟩ := updateStatusByOpenWAMessageId_some hnew
    refine ⟨fun heq => ?_, rfl⟩
    exact overwritten_status_differs hover (congrArg MessageJob.status heq)

theorem update_jobs_ok {status : WebhookStatus} {messageId : String}
    (h : updateJobs now status messageId db = .ok after) :
    (after = db ∧ (messageId = "" ∨ status = .absent)) ∨
      ∃ applied, status = .status applied ∧ messageId ≠ "" ∧
        after = { db with
          messageJobs := updateAll db.messageJobs
            (updateStatusByOpenWAMessageId now messageId applied) } := by
  unfold updateJobs at h
  by_cases hm : messageId = ""
  · simp only [hm, if_true, Except.ok.injEq] at h
    exact .inl ⟨h.symm, .inl hm⟩
  · simp only [hm, if_false] at h
    split at h
    · cases h
      exact .inl ⟨rfl, .inr rfl⟩
    · cases h
    · rename_i applied
      cases h
      exact .inr ⟨applied, rfl, hm, rfl⟩

/-- A committed transaction spares the other sessions unless its job update finds a job there. -/
theorem transaction_keeps_iff {updated : Bool}
    (h : transaction config now token envelope db = .ok (some (after, updated)))
    (hkey : ∀ row, db.webhookEvents envelope.idempotencyKey = some row →
      row.sessionId = envelope.sessionId) :
    KeepsOtherSessions envelope.sessionId db after ↔
      ∀ status messageId, webhookStatus envelope.event envelope.data = some (.status status) →
        webhookMessageId envelope.data = some messageId → messageId ≠ "" →
        ¬ MatchesForeignJob envelope.sessionId status messageId db := by
  obtain ⟨event, status, messageId, stored, enqueued, written, hevent, hstatus, hmessage, _,
    hstore, henqueue, hwrite, rfl⟩ := transaction_committed h
  obtain ⟨_, _, hsession, _⟩ := normalized_identity hevent
  obtain ⟨hs, hsw, hsj⟩ := store_keeps hstore
  obtain ⟨he, hew, hej⟩ := enqueue_keeps henqueue
  rw [hsession] at hs
  have hbefore : KeepsOtherSessions envelope.sessionId db enqueued := keeps_trans hs he
  have hjobs : enqueued.messageJobs = db.messageJobs := hej.trans hsj
  have hkeys : ∀ row, written.webhookEvents envelope.idempotencyKey = some row →
      row.sessionId = envelope.sessionId := by
    intro row hrow
    apply hkey
    rw [← hsw, ← hew]
    obtain ⟨rfl, _⟩ | ⟨_, _, _, rfl⟩ := update_jobs_ok hwrite <;> exact hrow
  have hmark : KeepsOtherSessions envelope.sessionId written
      (written.markProcessed config.compactProcessedWebhookPayload now token
        envelope.idempotencyKey) := mark_processed_keeps hkeys
  obtain ⟨rfl, hidle⟩ | ⟨applied, rfl, hid, rfl⟩ := update_jobs_ok hwrite
  · constructor
    · intro _ st m hst hm hne
      rw [hstatus] at hst
      rw [hmessage] at hm
      cases hst
      cases hm
      rcases hidle with hidle | hidle
      · exact absurd hidle hne
      · cases hidle
    · intro _
      exact keeps_trans hbefore hmark
  · constructor
    · intro hall st m hst hm _
      rw [hstatus] at hst
      rw [hmessage] at hm
      cases hst
      cases hm
      have hall := hall.messageJobs
      rw [← hjobs] at hall
      have hspared := job_update_keeps_iff.mp hall
      rintro ⟨job, row, hrow, hrest⟩
      exact hspared ⟨job, row, by rwa [hjobs], hrest⟩
    · intro hnone
      have hspared := hnone applied messageId hstatus hmessage hid
      have hupdate : KeepsOtherSessions envelope.sessionId enqueued
          { enqueued with
            messageJobs := updateAll enqueued.messageJobs
              (updateStatusByOpenWAMessageId now messageId applied) } := by
        have hkeep : KeepsOtherSessions envelope.sessionId enqueued enqueued := keeps_refl
        refine { hkeep with messageJobs := job_update_keeps_iff.mpr ?_ }
        rintro ⟨job, row, hrow, hrest⟩
        exact hspared ⟨job, row, by rwa [← hjobs], hrest⟩
      exact keeps_trans (keeps_trans hbefore hupdate) hmark

/-- `storeInTransaction` does not throw: the date is one that PostgreSQL takes, and the event id is
new or that of the same event. -/
def StoresEvent (config : Config) (envelope : OpenWAWebhookEnvelope) (db : Database) : Prop :=
  ∃ event occurredAt, normalizeOpenWAWebhook config.parsing envelope = some event ∧
    timestamptz event.occurredAt = some occurredAt ∧
    ∀ row, db.ledger.runtimeEvents event.eventId = some row → SameEvent event occurredAt row

theorem stores_event (now : ℕ) (h : StoresEvent config envelope db) :
    ∃ event after, normalizeOpenWAWebhook config.parsing envelope = some event ∧
      storeInTransaction config now event db = .ok after := by
  obtain ⟨event, occurredAt, hevent, htime, hsame⟩ := h
  refine ⟨event, ?_⟩
  unfold storeInTransaction
  simp only [htime]
  cases hrow : db.ledger.runtimeEvents event.eventId with
  | none => exact ⟨_, hevent, rfl⟩
  | some row =>
    simp only [hsame row hrow, if_true]
    exact ⟨db, hevent, rfl⟩

theorem committed_event {updated : Bool}
    (h : transaction config now token envelope db = .ok (some (after, updated))) :
    StoresEvent config envelope db ∧ db.OwnsProcessing now token envelope.idempotencyKey := by
  obtain ⟨event, _, _, stored, _, _, hevent, _, _, hown, hstore, _⟩ := transaction_committed h
  refine ⟨?_, hown⟩
  unfold storeInTransaction at hstore
  split at hstore
  · cases hstore
  · rename_i occurredAt htime
    refine ⟨event, occurredAt, hevent, htime, fun row hrow => ?_⟩
    simp only [hrow] at hstore
    by_contra hdiffers
    simp only [hdiffers, if_false] at hstore
    cases hstore

/-- A status webhook commits whenever it holds its lease and its event can be stored. -/
theorem status_webhook_commits {status : MessageJobStatus} {messageId : String}
    (hown : db.OwnsProcessing now token envelope.idempotencyKey)
    (hstore : StoresEvent config envelope db)
    (hstatus : webhookStatus envelope.event envelope.data = some (.status status))
    (hmessage : webhookMessageId envelope.data = some messageId) :
    ∃ after updated, transaction config now token envelope db = .ok (some (after, updated)) := by
  obtain ⟨event, stored, hevent, hs⟩ := stores_event now hstore
  have hname := status_of_message_event hstatus (by simp)
  have hcontact : enqueueContact config envelope event stored = .ok stored := by
    unfold enqueueContact
    rw [if_neg]
    intro hreceived
    rw [hreceived] at hname
    simp [messageStatusEvents] at hname
  obtain ⟨written, hwrite⟩ : ∃ written, updateJobs now (.status status) messageId stored =
      .ok written := by
    unfold updateJobs
    split
    · exact ⟨stored, rfl⟩
    · exact ⟨_, rfl⟩
  unfold transaction
  simp only [hevent, hstatus, hmessage, hown, if_true, hs, hcontact, hwrite, bind, Except.bind,
    pure, Except.pure]
  exact ⟨_, _, rfl⟩

/-- The claimed event reaches the job update and finds a job of another session there. -/
def AcknowledgesForeignJob (config : Config) (attempt : Attempt) (db : Database)
    (row : WebhookRow) : Prop :=
  Dispatchable attempt.claimedAt row ∧ attempt.startedAt < attempt.claimedAt + webhookLeaseMs ∧
    StoresEvent config row.payload db ∧
    ∃ status messageId,
      webhookStatus row.payload.event row.payload.data = some (.status status) ∧
      webhookMessageId row.payload.data = some messageId ∧ messageId ≠ "" ∧
      MatchesForeignJob row.sessionId status messageId db

/-- The row after the claim of a dispatchable event. -/
theorem claimed_row (token : ℕ) {key : String} {row : WebhookRow}
    (h : db.webhookEvents key = some row) (hd : Dispatchable now row) :
    ∃ claimed, WebhookStatements.claimForProcessing now token row = some claimed ∧
      (db.claimForProcessing now token key).webhookEvents key = some claimed := by
  have hclaim : ∃ claimed, WebhookStatements.claimForProcessing now token row = some claimed := by
    simp [WebhookStatements.claimForProcessing, hd]
  obtain ⟨claimed, hclaim⟩ := hclaim
  refine ⟨claimed, hclaim, ?_⟩
  simp [Database.claimForProcessing, Database.updateWebhook, updateAt, h, hclaim]

/-- Processing leaves the rows of all other sessions as they were, unless the event reaches the
job update and a job of another session carries its message id. -/
theorem process_keeps_other_sessions_iff {attempt : Attempt} {key : String} {row : WebhookRow}
    (h : db.webhookEvents key = some row) :
    KeepsOtherSessions row.sessionId db (process config attempt key db).2 ↔
      ¬ AcknowledgesForeignJob config attempt db row := by
  obtain ⟨hkey, hsession⟩ := db.webhook_stored key row h
  by_cases hd : Dispatchable attempt.claimedAt row
  · obtain ⟨claimed, hclaim, hrow⟩ := claimed_row attempt.token h hd
    obtain ⟨_, _, hstate, _, htoken, hlease, hcs, hcp⟩ := claimForProcessing_some hclaim
    set db₁ := db.claimForProcessing attempt.claimedAt attempt.token key with hdb₁
    have hclaimed : KeepsOtherSessions row.sessionId db db₁ := by
      refine claim_keeps fun other hother => ?_
      rw [h] at hother
      cases hother
      rfl
    have hown : ∀ other, db₁.webhookEvents row.payload.idempotencyKey = some other →
        other.sessionId = row.payload.sessionId := by
      intro other hother
      rw [hkey, hrow] at hother
      cases hother
      rw [hcs, hsession]
    have hlock : db₁.OwnsProcessing attempt.startedAt attempt.token row.payload.idempotencyKey ↔
        attempt.startedAt < attempt.claimedAt + webhookLeaseMs := by
      unfold Database.OwnsProcessing OwnsLease Unexpired
      rw [hkey, hrow]
      simp [hstate, htoken, hlease]
    have hforeign : AcknowledgesForeignJob config attempt db row ↔
        attempt.startedAt < attempt.claimedAt + webhookLeaseMs ∧
          StoresEvent config row.payload db₁ ∧
          ∃ status messageId,
            webhookStatus row.payload.event row.payload.data = some (.status status) ∧
            webhookMessageId row.payload.data = some messageId ∧ messageId ≠ "" ∧
            MatchesForeignJob row.sessionId status messageId db₁ := by
      unfold AcknowledgesForeignJob
      simp only [hd, true_and]
      exact Iff.rfl
    have hcommits : AcknowledgesForeignJob config attempt db row → ∃ after updated,
        transaction config attempt.startedAt attempt.token row.payload db₁ =
          .ok (some (after, updated)) := by
      intro hack
      obtain ⟨htime, hstore, status, messageId, hstatus, hmessage, _⟩ := hforeign.mp hack
      exact status_webhook_commits (hlock.mpr htime) hstore hstatus hmessage
    simp only [process, h, hd, if_true, ← hdb₁]
    cases htx : transaction config attempt.startedAt attempt.token row.payload db₁ with
    | error error =>
      have hfailed : KeepsOtherSessions row.payload.sessionId db₁
          (db₁.markFailed attempt.failedAt attempt.token (error.message attempt.foreignMessage)
            row.payload.idempotencyKey) := mark_failed_keeps hown
      rw [hsession] at hfailed
      refine iff_of_true (keeps_trans hclaimed hfailed) fun hack => ?_
      obtain ⟨after, updated, hcommit⟩ := hcommits hack
      rw [hcommit] at htx
      cases htx
    | ok result =>
      cases result with
      | none =>
        refine iff_of_true hclaimed fun hack => ?_
        obtain ⟨after, updated, hcommit⟩ := hcommits hack
        rw [hcommit] at htx
        cases htx
      | some result =>
        obtain ⟨after, updated⟩ := result
        have hiff := transaction_keeps_iff htx hown
        rw [hsession] at hiff
        obtain ⟨hevent, hlocked⟩ := committed_event htx
        constructor
        · intro hkeep hack
          obtain ⟨_, _, status, messageId, hstatus, hmessage, hne, hmatch⟩ := hforeign.mp hack
          have hspared := hiff.mp (keeps_trans (keeps_symm hclaimed) hkeep)
          exact hspared status messageId hstatus hmessage hne hmatch
        · intro hack
          refine keeps_trans hclaimed (hiff.mpr fun status messageId hstatus hmessage hne hmatch => ?_)
          exact hack (hforeign.mpr ⟨hlock.mp hlocked, hevent, status, messageId, hstatus, hmessage,
            hne, hmatch⟩)
  · simp only [process, h, hd, if_false]
    exact iff_of_true keeps_refl fun hack => hd hack.1

def acknowledgement : OpenWAWebhookEnvelope where
  event := "message.ack"
  timestamp := .string "2026-08-11T05:00:00.000Z"
  sessionId := "session-1"
  idempotencyKey := "ack-1"
  deliveryId := "delivery-1"
  data := .object [("messageId", .string "message-1"), ("status", .string "delivered")]

/-- An accepted message of the given session, and a stored acknowledgement of `session-1`. -/
def acknowledgedJob (session : String) : Database where
  webhookEvents key :=
    if key = "ack-1" then some (WebhookStatements.insert 0 acknowledgement) else none
  ledger :=
    { runtimeEvents := fun _ => none
      inboundMessages := fun _ => none
      messageEvents := fun _ => none
      observationIntents := fun _ => none
      inbound_references := fun _ _ h => nomatch h
      message_references := fun _ _ h => nomatch h
      observation_references := fun _ _ h => nomatch h }
  sessions _ := none
  groups _ := none
  intents _ := none
  messageJobs job :=
    if job = 0 then
      some { create 0 ⟨session, "group@g.us", "text", 0, false⟩ with
        status := .accepted
        openwaMessageId := some "message-1" }
    else none
  webhook_stored key row h := by
    split at h
    · rename_i hkey
      cases h
      exact ⟨hkey.symm, rfl⟩
    · cases h

def plainConfig : Config where
  parsing := ⟨fun _ => none, fun _ => some 1786424400000⟩
  sha256 text := text
  compactEventPayload := false
  compactProcessedWebhookPayload := true
  contactsEnabled := true
  allowedSessionIds := ["session-1", "session-2"]
  intents := ⟨5000, 60000, 5⟩

def firstAttempt : Attempt where
  claimedAt := 0
  startedAt := 1
  failedAt := 2
  token := 7
  foreignMessage _ := ""

/-- The acknowledged message belongs to the event's own session. -/
theorem own_acknowledgement_keeps_other_sessions :
    KeepsOtherSessions "session-1" (acknowledgedJob "session-1")
      (process plainConfig firstAttempt "ack-1" (acknowledgedJob "session-1")).2 := by
  have hrow : (acknowledgedJob "session-1").webhookEvents "ack-1" =
      some (WebhookStatements.insert 0 acknowledgement) := rfl
  refine (process_keeps_other_sessions_iff hrow).mpr ?_
  rintro ⟨_, _, _, status, messageId, _, _, _, job, row, hjob, hown, _⟩
  simp only [acknowledgedJob] at hjob
  split at hjob
  · cases hjob
    exact hown rfl
  · cases hjob

/-- An acknowledgement of one session marks the message of another one as delivered. -/
theorem foreign_job_is_acknowledged :
    ¬ ∀ (config : Config) (attempt : Attempt) (key : String) (db : Database) (row : WebhookRow),
      db.webhookEvents key = some row →
      KeepsOtherSessions row.sessionId db (process config attempt key db).2 := by
  intro h
  have hkeep := h plainConfig firstAttempt "ack-1" (acknowledgedJob "session-2")
    (WebhookStatements.insert 0 acknowledgement) rfl
  obtain ⟨before, hbefore, hsession, hstatus⟩ : ∃ before,
      (acknowledgedJob "session-2").messageJobs 0 = some before ∧
        before.sessionId ≠ "session-1" ∧ before.status = .accepted :=
    ⟨_, rfl, by decide, rfl⟩
  have hafter := (hkeep.messageJobs 0 before hsession).mp hbefore
  have hdelivered : ((process plainConfig firstAttempt "ack-1"
      (acknowledgedJob "session-2")).2.messageJobs 0).map MessageJob.status =
      some .delivered := by decide +kernel
  rw [hafter] at hdelivered
  simp [hstatus] at hdelivered

end WebhookSessionIsolation
