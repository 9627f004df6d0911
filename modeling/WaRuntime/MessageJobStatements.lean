import Mathlib.Data.List.Basic

/-! The statements that write `message_jobs`, each as a function of one row.
`none` means that the row does not meet the statement's WHERE clause, so the statement leaves it.
Instants are milliseconds; `now` is what `now()` returns to the statement, the start of its
transaction. `message_attempts` is kept inside its job row, since the two are written together.
The columns that no statement here reads or writes (idempotency keys, `created_at`,
`message_type`, the stored response) are left out. -/
namespace MessageJobStatements

abbrev JobId := ℕ

inductive MessageJobStatus where
  | scheduled
  | queued
  | processing
  | accepted
  | sent
  | delivered
  | read
  | failed
  | unknown
  | dryRunCompleted
  | cancelled
  deriving DecidableEq, Repr

structure MessageAttempt where
  attemptNumber : ℕ
  outcome : MessageJobStatus
  error : Option String
  deriving DecidableEq, Repr

structure MessageJob where
  sessionId : String
  recipientId : String
  text : String
  scheduledAt : ℕ
  status : MessageJobStatus
  dryRun : Bool
  attemptCount : ℕ
  openwaMessageId : Option String
  lastError : Option String
  processingStartedAt : Option ℕ
  leaseExpiresAt : Option ℕ
  updatedAt : ℕ
  attempts : List MessageAttempt
  deriving DecidableEq, Repr

/-- A row of `message_jobs` under one id: ids are drawn once and never reused. -/
inductive JobSlot where
  | unused
  | present (job : MessageJob)
  | deleted
  deriving DecidableEq, Repr

/-- Two minutes: the processing lease and the age at which a queued row counts as stale. -/
def leaseMs : ℕ := 120000

structure CreateInput where
  sessionId : String
  recipientId : String
  text : String
  scheduledAt : ℕ
  dryRun : Bool
  deriving DecidableEq, Repr

def create (now : ℕ) (input : CreateInput) : MessageJob :=
  { sessionId := input.sessionId
    recipientId := input.recipientId
    text := input.text
    scheduledAt := input.scheduledAt
    status := .scheduled
    dryRun := input.dryRun
    attemptCount := 0
    openwaMessageId := none
    lastError := none
    processingStartedAt := none
    leaseExpiresAt := none
    updatedAt := now
    attempts := [] }

/-- The WHERE clause of the locking SELECT in `claimDue`. -/
def Due (now : ℕ) (job : MessageJob) : Prop :=
  job.status = .scheduled ∧ job.scheduledAt ≤ now

instance (now : ℕ) (job : MessageJob) : Decidable (Due now job) :=
  inferInstanceAs (Decidable (_ ∧ _))

/-- The UPDATE in `claimDue` selects rows by id alone: it does not look at the status again. -/
def queueClaimed (now : ℕ) (job : MessageJob) : MessageJob :=
  { job with status := .queued, updatedAt := now }

def markProcessing (now : ℕ) (job : MessageJob) : Option MessageJob :=
  if job.status = .queued then
    some { job with
      status := .processing
      attemptCount := job.attemptCount + 1
      processingStartedAt := some now
      leaseExpiresAt := some (now + leaseMs)
      updatedAt := now }
  else none

/-- `lease_expires_at` compared with an instant; a NULL lease satisfies no comparison. -/
def LeaseAfter (now : ℕ) (job : MessageJob) : Prop := ∃ e ∈ job.leaseExpiresAt, now < e

def LeaseBefore (now : ℕ) (job : MessageJob) : Prop := ∃ e ∈ job.leaseExpiresAt, e < now

instance (now : ℕ) (job : MessageJob) : Decidable (LeaseAfter now job) :=
  inferInstanceAs (Decidable (∃ e ∈ job.leaseExpiresAt, now < e))

instance (now : ℕ) (job : MessageJob) : Decidable (LeaseBefore now job) :=
  inferInstanceAs (Decidable (∃ e ∈ job.leaseExpiresAt, e < now))

def refreshProcessingLease (now : ℕ) (job : MessageJob) : Option MessageJob :=
  if job.status = .processing ∧ LeaseAfter now job then
    some { job with leaseExpiresAt := some (now + leaseMs), updatedAt := now }
  else none

def resetQueued (now : ℕ) (error : String) (job : MessageJob) : Option MessageJob :=
  if job.status = .queued then
    some { job with status := .scheduled, lastError := some error, updatedAt := now }
  else none

def recoverStaleQueued (now : ℕ) (job : MessageJob) : Option MessageJob :=
  if job.status = .queued ∧ job.updatedAt + leaseMs < now then
    some { job with
      status := .scheduled
      lastError := some "Recovered stale queued job"
      updatedAt := now }
  else none

/-- ON CONFLICT (message_job_id, attempt_number) DO NOTHING. -/
def insertAttempt (attempt : MessageAttempt) (attempts : List MessageAttempt) :
    List MessageAttempt :=
  if attempts.any (fun a => a.attemptNumber == attempt.attemptNumber) then attempts
  else attempts ++ [attempt]

def leaseExpiredError : String := "Processing lease expired; delivery outcome is unknown"

def markExpiredProcessingUnknown (now : ℕ) (job : MessageJob) : Option MessageJob :=
  if job.status = .processing ∧ LeaseBefore now job then
    some { job with
      status := .unknown
      lastError := some leaseExpiredError
      leaseExpiresAt := none
      updatedAt := now
      attempts := insertAttempt ⟨job.attemptCount, .unknown, some leaseExpiredError⟩ job.attempts }
  else none

/-- The arguments of `updateResult`: the status and the two options a worker passes. A worker
records no other statuses than these four. -/
structure Result where
  status : MessageJobStatus
  openwaMessageId : Option String
  error : Option String
  recorded : status ∈ [.accepted, .failed, .unknown, .dryRunCompleted]
  deriving DecidableEq, Repr

def Result.failed (error : String) : Result := ⟨.failed, none, some error, by decide⟩

def Result.unknown (error : String) : Result := ⟨.unknown, none, some error, by decide⟩

def Result.accepted (openwaMessageId : String) : Result :=
  ⟨.accepted, some openwaMessageId, none, by decide⟩

def Result.dryRunCompleted : Result := ⟨.dryRunCompleted, none, none, by decide⟩

def updateResult (now : ℕ) (result : Result) (job : MessageJob) : Option MessageJob :=
  if job.status = .processing then
    some { job with
      status := result.status
      openwaMessageId := result.openwaMessageId.or job.openwaMessageId
      lastError := result.error
      leaseExpiresAt := none
      updatedAt := now
      attempts := insertAttempt ⟨job.attemptCount, result.status, result.error⟩ job.attempts }
  else none

/-- The CASE of the webhook update; the same one ranks the new and the stored status. -/
def acknowledgementRank : MessageJobStatus → ℕ
  | .accepted => 10
  | .sent => 20
  | .delivered => 30
  | .read => 40
  | _ => 0

def WebhookOverwrites (status stored : MessageJobStatus) : Prop :=
  stored ∉ [.failed, .cancelled, .dryRunCompleted] ∧
    ((status = .failed ∧ stored ∈ [.scheduled, .queued, .processing, .accepted, .unknown]) ∨
      (status ≠ .failed ∧ acknowledgementRank stored < acknowledgementRank status))

instance (status stored : MessageJobStatus) : Decidable (WebhookOverwrites status stored) :=
  inferInstanceAs (Decidable (_ ∧ (_ ∧ _ ∨ _ ∧ _)))

def updateStatusByOpenWAMessageId (now : ℕ) (openwaMessageId : String)
    (status : MessageJobStatus) (job : MessageJob) : Option MessageJob :=
  if job.openwaMessageId = some openwaMessageId ∧ WebhookOverwrites status job.status then
    some { job with status := status, updatedAt := now }
  else none

/-- The UPDATE of `message_jobs` in the cancel transaction of a campaign run. -/
def cancelJob (now : ℕ) (job : MessageJob) : Option MessageJob :=
  if job.status ∈ [.scheduled, .queued] then
    some { job with status := .cancelled, updatedAt := now }
  else none

/-- The rows data retention may delete, once no campaign delivery refers to them. -/
def Deletable (cutoff : ℕ) (job : MessageJob) : Prop :=
  job.status ∈ [.accepted, .sent, .delivered, .read, .failed, .unknown, .dryRunCompleted,
    .cancelled] ∧ job.updatedAt < cutoff

instance (cutoff : ℕ) (job : MessageJob) : Decidable (Deletable cutoff job) :=
  inferInstanceAs (Decidable (_ ∧ _))

/-- A statement on the row of an id; it finds nothing under an unused or deleted id. -/
def onPresent (f : MessageJob → Option MessageJob) : JobSlot → Option JobSlot
  | .present job => (f job).map .present
  | _ => none

def insertJob (now : ℕ) (input : CreateInput) : JobSlot → Option JobSlot
  | .unused => some (.present (create now input))
  | _ => none

/-- The locking SELECT in `claimDue`: it keeps the row as it is. -/
def lockDue (now : ℕ) : JobSlot → Option JobSlot :=
  onPresent fun job => if Due now job then some job else none

def deleteJob (cutoff : ℕ) : JobSlot → Option JobSlot
  | .present job => if Deletable cutoff job then some .deleted else none
  | _ => none

/-- A row no worker has taken yet: only such a row can still lead to a send. -/
def MessageJobStatus.AwaitsWorker (status : MessageJobStatus) : Prop :=
  status = .scheduled ∨ status = .queued

instance (status : MessageJobStatus) : Decidable status.AwaitsWorker :=
  inferInstanceAs (Decidable (status = .scheduled ∨ status = .queued))

def JobSlot.AwaitsWorker : JobSlot → Prop
  | .unused => True
  | .present job => job.status.AwaitsWorker
  | .deleted => False

instance : (slot : JobSlot) → Decidable slot.AwaitsWorker
  | .unused => isTrue trivial
  | .present job => inferInstanceAs (Decidable job.status.AwaitsWorker)
  | .deleted => isFalse id

section Specifications

variable {now cutoff : ℕ} {job new : MessageJob} {status : MessageJobStatus}

theorem due_status (h : Due now job) : job.status = .scheduled := h.1

theorem markProcessing_some (h : markProcessing now job = some new) :
    job.status = .queued ∧ new.status = .processing ∧ new.sessionId = job.sessionId ∧
      new.leaseExpiresAt = some (now + leaseMs) := by
  unfold markProcessing at h
  split at h
  · rename_i hs
    cases h
    exact ⟨hs, rfl, rfl, rfl⟩
  · cases h

theorem refreshProcessingLease_some (h : refreshProcessingLease now job = some new) :
    job.status = .processing ∧ new.status = .processing := by
  unfold refreshProcessingLease at h
  split at h
  · rename_i hs
    cases h
    exact ⟨hs.1, hs.1⟩
  · cases h

theorem resetQueued_some {error : String} (h : resetQueued now error job = some new) :
    job.status = .queued ∧ new.status = .scheduled := by
  unfold resetQueued at h
  split at h
  · rename_i hs
    cases h
    exact ⟨hs, rfl⟩
  · cases h

theorem recoverStaleQueued_some (h : recoverStaleQueued now job = some new) :
    job.status = .queued ∧ new.status = .scheduled := by
  unfold recoverStaleQueued at h
  split at h
  · rename_i hs
    cases h
    exact ⟨hs.1, rfl⟩
  · cases h

theorem markExpiredProcessingUnknown_some (h : markExpiredProcessingUnknown now job = some new) :
    job.status = .processing ∧ new.status = .unknown := by
  unfold markExpiredProcessingUnknown at h
  split at h
  · rename_i hs
    cases h
    exact ⟨hs.1, rfl⟩
  · cases h

theorem updateResult_some {result : Result} (h : updateResult now result job = some new) :
    job.status = .processing ∧ new.status = result.status := by
  unfold updateResult at h
  split at h
  · rename_i hs
    cases h
    exact ⟨hs, rfl⟩
  · cases h

theorem updateStatusByOpenWAMessageId_some {openwaMessageId : String}
    (h : updateStatusByOpenWAMessageId now openwaMessageId status job = some new) :
    job.openwaMessageId = some openwaMessageId ∧ WebhookOverwrites status job.status ∧
      new = { job with status := status, updatedAt := now } := by
  unfold updateStatusByOpenWAMessageId at h
  split at h
  · rename_i hs
    cases h
    exact ⟨hs.1, hs.2, rfl⟩
  · cases h

theorem cancelJob_some (h : cancelJob now job = some new) :
    job.status.AwaitsWorker ∧ new.status = .cancelled := by
  unfold cancelJob at h
  split at h
  · rename_i hs
    cases h
    simp only [List.mem_cons, List.not_mem_nil, or_false] at hs
    exact ⟨hs, rfl⟩
  · cases h

theorem cancelJob_none (h : cancelJob now job = none) : ¬ job.status.AwaitsWorker := by
  unfold cancelJob at h
  split at h
  · cases h
  · rename_i hs
    simpa only [List.mem_cons, List.not_mem_nil, or_false, MessageJobStatus.AwaitsWorker] using hs

theorem onPresent_some {f : MessageJob → Option MessageJob} {slot slot' : JobSlot}
    (h : onPresent f slot = some slot') :
    ∃ job new, slot = .present job ∧ f job = some new ∧ slot' = .present new := by
  cases slot with
  | present job =>
    obtain ⟨new, hn, rfl⟩ := Option.map_eq_some_iff.mp h
    exact ⟨job, new, rfl, hn, rfl⟩
  | unused => cases h
  | deleted => cases h

/-- A locking SELECT gives the row back as it is. -/
theorem lockDue_some {slot slot' : JobSlot} (h : lockDue now slot = some slot') :
    slot' = slot ∧ ∃ job, slot = .present job ∧ job.status = .scheduled := by
  obtain ⟨job, new, rfl, hd, rfl⟩ := onPresent_some h
  split at hd
  · rename_i hdue
    cases hd
    exact ⟨rfl, job, rfl, due_status hdue⟩
  · cases hd

theorem deletable_not_awaiting (h : Deletable cutoff job) : ¬ job.status.AwaitsWorker := by
  obtain ⟨hs, _⟩ := h
  rintro (hq | hq) <;> simp [hq] at hs

/-- A webhook writes only statuses that no worker is waited for. -/
theorem webhook_overwrites_not_awaiting (h : WebhookOverwrites status job.status) :
    ¬ status.AwaitsWorker := by
  obtain ⟨_, ⟨rfl, _⟩ | ⟨_, hr⟩⟩ := h
  · simp [MessageJobStatus.AwaitsWorker]
  · rintro (rfl | rfl) <;> simp [acknowledgementRank] at hr

end Specifications

end MessageJobStatements
