import Mathlib.Algebra.Group.Nat.Defs
import WaRuntime.MessageJobStatements

/-! The statements that write `campaign_runs`, `campaign_run_targets` and `campaign_deliveries`,
each as a function of one row; `none` means that the row does not meet the WHERE clause.
`now` is `now()` of the statement's transaction, `date` is `new Date()` of the process.
The keys of a run's target rows are fixed when the run is created, so the run carries them. The
report body and its policy version, revisions of the campaign and its targets, and the target
provenance are stored but not read by any statement here, and are left out. -/
namespace CampaignRunStatements

open MessageJobStatements

abbrev RunId := ℕ

inductive CampaignRunStatus where
  | preparing
  | blocked
  | scheduled
  | running
  | paused
  | completed
  | partialFailed
  | cancelled
  | failed
  deriving DecidableEq, Repr

/-- The statuses retention may delete; no operation is meant to leave them. -/
def CampaignRunStatus.Terminal (status : CampaignRunStatus) : Prop :=
  status ∈ [.completed, .partialFailed, .cancelled, .failed]

instance (status : CampaignRunStatus) : Decidable status.Terminal :=
  inferInstanceAs (Decidable (_ ∈ _))

inductive CampaignExecutionMode where
  | dryRun
  | live
  deriving DecidableEq, Repr

inductive CampaignPreflightStatus where
  | pass
  | warn
  | block
  deriving DecidableEq, Repr

structure CampaignRun where
  campaignId : ℕ
  sessionId : String
  idempotencyKey : String
  executionMode : CampaignExecutionMode
  text : String
  targets : List String
  status : CampaignRunStatus
  statusReason : Option String
  preflightStatus : Option CampaignPreflightStatus
  scheduledAt : ℕ
  startedAt : Option ℕ
  completedAt : Option ℕ
  preparationAttemptCount : ℕ
  preparationNextAttemptAt : ℕ
  preparationLeaseToken : Option ℕ
  preparationLeaseExpiresAt : Option ℕ
  preparationError : Option String
  updatedAt : ℕ
  deriving DecidableEq, Repr

/-- What `create` inserts; the other columns take their defaults. -/
structure CreateRunInput where
  campaignId : ℕ
  sessionId : String
  idempotencyKey : String
  executionMode : CampaignExecutionMode
  text : String
  targets : List String
  scheduledAt : ℕ
  deriving DecidableEq, Repr

def createRun (now : ℕ) (input : CreateRunInput) : CampaignRun :=
  { campaignId := input.campaignId
    sessionId := input.sessionId
    idempotencyKey := input.idempotencyKey
    executionMode := input.executionMode
    text := input.text
    targets := input.targets
    status := .preparing
    statusReason := none
    preflightStatus := none
    scheduledAt := input.scheduledAt
    startedAt := none
    completedAt := none
    preparationAttemptCount := 0
    preparationNextAttemptAt := now
    preparationLeaseToken := none
    preparationLeaseExpiresAt := none
    preparationError := none
    updatedAt := now }

/-- The number of preparation attempts after which a run fails. -/
def preparationAttempts : ℕ := 3

def LeaseFree (now : ℕ) (run : CampaignRun) : Prop :=
  run.preparationLeaseToken = none ∨ ∃ e ∈ run.preparationLeaseExpiresAt, e < now

instance (now : ℕ) (run : CampaignRun) : Decidable (LeaseFree now run) :=
  inferInstanceAs (Decidable (_ ∨ (∃ e ∈ run.preparationLeaseExpiresAt, e < now)))

/-- The current attempt: PREPARING under this token and not expired. -/
def OwnsPreparation (now token : ℕ) (run : CampaignRun) : Prop :=
  run.status = .preparing ∧ run.preparationLeaseToken = some token ∧
    ∃ e ∈ run.preparationLeaseExpiresAt, now < e

instance (now token : ℕ) (run : CampaignRun) : Decidable (OwnsPreparation now token run) :=
  inferInstanceAs (Decidable (_ ∧ _ ∧ (∃ e ∈ run.preparationLeaseExpiresAt, now < e)))

def claimPreparation (now token : ℕ) (run : CampaignRun) : Option CampaignRun :=
  if run.status = .preparing ∧ run.preparationNextAttemptAt ≤ now ∧
      run.preparationAttemptCount < preparationAttempts ∧ LeaseFree now run then
    some { run with
      preparationAttemptCount := run.preparationAttemptCount + 1
      preparationLeaseToken := some token
      preparationLeaseExpiresAt := some (now + leaseMs)
      preparationError := none
      updatedAt := now }
  else none

def recoverExpiredPreparation (now : ℕ) (run : CampaignRun) : Option CampaignRun :=
  if run.status = .preparing ∧
      ((run.preparationLeaseToken ≠ none ∧ ∃ e ∈ run.preparationLeaseExpiresAt, e < now) ∨
        (run.preparationLeaseToken = none ∧ preparationAttempts ≤ run.preparationAttemptCount)) then
    let exhausted := decide (preparationAttempts ≤ run.preparationAttemptCount)
    some { run with
      status := if exhausted then .failed else .preparing
      statusReason := if exhausted then some "PREPARATION_FAILED" else run.statusReason
      preparationNextAttemptAt := now
      preparationLeaseToken := none
      preparationLeaseExpiresAt := none
      preparationError := some "Recovered expired campaign preparation lease"
      completedAt := if exhausted then some now else run.completedAt
      updatedAt := now }
  else none

/-- LEAST(300, 5 * 2 ^ (attempts - 1)) seconds. -/
def preparationBackoffMs (attempts : ℕ) : ℕ := min 300 (5 * 2 ^ (attempts - 1)) * 1000

def failPreparationAttempt (now token : ℕ) (error : String) (run : CampaignRun) :
    Option CampaignRun :=
  if OwnsPreparation now token run then
    let exhausted := decide (preparationAttempts ≤ run.preparationAttemptCount)
    some { run with
      status := if exhausted then .failed else .preparing
      statusReason := if exhausted then some "PREPARATION_FAILED" else run.statusReason
      preparationError := some error
      preparationNextAttemptAt :=
        if exhausted then run.preparationNextAttemptAt
        else now + preparationBackoffMs run.preparationAttemptCount
      preparationLeaseToken := none
      preparationLeaseExpiresAt := none
      completedAt := if exhausted then some now else run.completedAt
      updatedAt := now }
  else none

/-- `applyPreflight` on a stale input gives the attempt back. -/
def releaseStaleAttempt (now token : ℕ) (run : CampaignRun) : Option CampaignRun :=
  if run.status = .preparing ∧ run.preparationLeaseToken = some token then
    some { run with
      preparationLeaseToken := none
      preparationLeaseExpiresAt := none
      preparationNextAttemptAt := now
      preparationAttemptCount := run.preparationAttemptCount - 1
      updatedAt := now }
  else none

/-- The last UPDATE of `applyPreflight` for a blocking report; it selects by id alone. -/
def applyBlocked (now : ℕ) (run : CampaignRun) : CampaignRun :=
  { run with
    status := .blocked
    statusReason := some "PREFLIGHT_BLOCKED"
    preflightStatus := some .block
    preparationLeaseToken := none
    preparationLeaseExpiresAt := none
    updatedAt := now }

/-- The last UPDATE of `applyPreflight`; it selects by id alone. -/
def applyReady (now date : ℕ) (preflight : CampaignPreflightStatus) (run : CampaignRun) :
    CampaignRun :=
  let startsNow := decide (run.scheduledAt ≤ date)
  { run with
    status := if startsNow then .running else .scheduled
    statusReason := none
    preflightStatus := some preflight
    startedAt := if startsNow then some now else none
    preparationLeaseToken := none
    preparationLeaseExpiresAt := none
    updatedAt := now }

def activateDue (now : ℕ) (run : CampaignRun) : Option CampaignRun :=
  if run.status = .scheduled ∧ run.scheduledAt ≤ now then
    some { run with
      status := .running
      statusReason := none
      startedAt := run.startedAt.or (some now)
      updatedAt := now }
  else none

def finalOutcome (hasFailure : Bool) : CampaignRunStatus :=
  if hasFailure then .partialFailed else .completed

/-- The UPDATE of `finalize` on a run its CTE has found: it does not look at the status again. -/
def finalize (now : ℕ) (hasFailure : Bool) (run : CampaignRun) : CampaignRun :=
  { run with
    status := finalOutcome hasFailure
    statusReason := if hasFailure then some "ONE_OR_MORE_DELIVERIES_FAILED" else none
    completedAt := some now
    updatedAt := now }

def pause (now : ℕ) (run : CampaignRun) : Option CampaignRun :=
  if run.status ∈ [.scheduled, .running] then
    some { run with status := .paused, statusReason := some "MANUAL_PAUSE", updatedAt := now }
  else none

/-- `materializePending` on a LIVE run whose session cannot send. -/
def pauseUnsendable (now : ℕ) (run : CampaignRun) : Option CampaignRun :=
  if run.status = .running then
    some { run with
      status := .paused
      statusReason := some "SESSION_NOT_SENDABLE"
      updatedAt := now }
  else none

def recordBlockedResume (now : ℕ) (run : CampaignRun) : Option CampaignRun :=
  if run.status ∈ [.paused, .blocked] then
    some { run with
      status := .blocked
      statusReason := some "PREFLIGHT_BLOCKED"
      preflightStatus := some .block
      updatedAt := now }
  else none

/-- The UPDATE of `resume`; its transaction has locked the run and read its status. -/
def resume (now date : ℕ) (preflight : CampaignPreflightStatus) (run : CampaignRun) :
    CampaignRun :=
  let waits := decide (date < run.scheduledAt)
  { run with
    status := if waits then .scheduled else .running
    statusReason := none
    preflightStatus := some preflight
    startedAt := if waits then run.startedAt else run.startedAt.or (some now)
    completedAt := none
    updatedAt := now }

/-- The UPDATE of `cancel`; its transaction has locked the run and read its status. -/
def cancel (now : ℕ) (run : CampaignRun) : CampaignRun :=
  { run with
    status := .cancelled
    statusReason := some "CANCELLED_BY_OPERATOR"
    completedAt := some now
    updatedAt := now }

/-- The statuses `cancel` accepts. -/
def cancellable : List CampaignRunStatus := [.preparing, .blocked, .scheduled, .running, .paused]

def DeletableRun (cutoff : ℕ) (run : CampaignRun) : Prop :=
  run.status.Terminal ∧ run.updatedAt < cutoff

instance (cutoff : ℕ) (run : CampaignRun) : Decidable (DeletableRun cutoff run) :=
  inferInstanceAs (Decidable (_ ∧ _))

/-- The status changes the run lifecycle documents. -/
def Transition : CampaignRunStatus → CampaignRunStatus → Prop
  | .preparing, next => next ∈ [.blocked, .scheduled, .running, .failed, .cancelled]
  | .scheduled, next => next ∈ [.running, .paused, .cancelled]
  | .running, next => next ∈ [.completed, .partialFailed, .paused, .cancelled]
  | .paused, next => next ∈ [.scheduled, .running, .blocked, .cancelled]
  | .blocked, next => next ∈ [.scheduled, .running, .cancelled]
  | _, _ => False

instance : (a b : CampaignRunStatus) → Decidable (Transition a b)
  | .preparing, _ | .scheduled, _ | .running, _ | .paused, _ | .blocked, _ =>
    inferInstanceAs (Decidable (_ ∈ _))
  | .completed, _ | .partialFailed, _ | .cancelled, _ | .failed, _ => isFalse id

/-- What a run was created with; no statement changes these columns. -/
def CampaignRun.input (run : CampaignRun) : CreateRunInput :=
  ⟨run.campaignId, run.sessionId, run.idempotencyKey, run.executionMode, run.text, run.targets,
    run.scheduledAt⟩

/-- A run row keeps its status or changes it as documented, and keeps what it was created with. -/
def Lawful (old new : CampaignRun) : Prop :=
  new.input = old.input ∧ (old.status = new.status ∨ Transition old.status new.status)

instance (old new : CampaignRun) : Decidable (Lawful old new) :=
  inferInstanceAs (Decidable (_ ∧ (_ ∨ _)))

attribute [local simp] Transition

theorem terminal_has_no_transition {a b : CampaignRunStatus} (h : a.Terminal) :
    ¬ Transition a b := by
  simp only [CampaignRunStatus.Terminal, List.mem_cons, List.not_mem_nil, or_false] at h
  rcases h with rfl | rfl | rfl | rfl <;> exact id

section Specifications

variable {now date token : ℕ} {run new : CampaignRun} {preflight : CampaignPreflightStatus}

theorem claimPreparation_lawful (h : claimPreparation now token run = some new) :
    Lawful run new := by
  unfold claimPreparation at h
  split at h
  · cases h
    exact ⟨rfl, .inl rfl⟩
  · cases h

theorem recoverExpiredPreparation_lawful (h : recoverExpiredPreparation now run = some new) :
    Lawful run new := by
  unfold recoverExpiredPreparation at h
  split at h
  · rename_i hg
    cases h
    by_cases hx : preparationAttempts ≤ run.preparationAttemptCount
    · exact ⟨rfl, .inr (by simp [hg.1, hx, Transition])⟩
    · exact ⟨rfl, .inl (by simp [hg.1, hx])⟩
  · cases h

theorem failPreparationAttempt_lawful {error : String}
    (h : failPreparationAttempt now token error run = some new) : Lawful run new := by
  unfold failPreparationAttempt at h
  split at h
  · rename_i hg
    cases h
    by_cases hx : preparationAttempts ≤ run.preparationAttemptCount
    · exact ⟨rfl, .inr (by simp [hg.1, hx, Transition])⟩
    · exact ⟨rfl, .inl (by simp [hg.1, hx])⟩
  · cases h

theorem releaseStaleAttempt_lawful (h : releaseStaleAttempt now token run = some new) :
    Lawful run new := by
  unfold releaseStaleAttempt at h
  split at h
  · cases h
    exact ⟨rfl, .inl rfl⟩
  · cases h

theorem activateDue_lawful (h : activateDue now run = some new) : Lawful run new := by
  unfold activateDue at h
  split at h
  · rename_i hg
    cases h
    exact ⟨rfl, .inr (by simp [hg.1, Transition])⟩
  · cases h

theorem pause_lawful (h : pause now run = some new) : Lawful run new := by
  unfold pause at h
  split at h
  · rename_i hg
    cases h
    simp only [List.mem_cons, List.not_mem_nil, or_false] at hg
    rcases hg with hg | hg <;> exact ⟨rfl, .inr (by simp [hg, Transition])⟩
  · cases h

theorem pauseUnsendable_lawful (h : pauseUnsendable now run = some new) : Lawful run new := by
  unfold pauseUnsendable at h
  split at h
  · rename_i hg
    cases h
    exact ⟨rfl, .inr (by simp [hg, Transition])⟩
  · cases h

theorem recordBlockedResume_lawful (h : recordBlockedResume now run = some new) :
    Lawful run new := by
  unfold recordBlockedResume at h
  split at h
  · rename_i hg
    cases h
    simp only [List.mem_cons, List.not_mem_nil, or_false] at hg
    rcases hg with hg | hg
    · exact ⟨rfl, .inr (by simp [hg, Transition])⟩
    · exact ⟨rfl, .inl hg⟩
  · cases h

theorem applyBlocked_lawful (h : run.status = .preparing) : Lawful run (applyBlocked now run) :=
  ⟨rfl, .inr (by simp [h, applyBlocked, Transition])⟩

theorem applyReady_lawful (h : run.status = .preparing) :
    Lawful run (applyReady now date preflight run) := by
  refine ⟨rfl, .inr ?_⟩
  by_cases hd : run.scheduledAt ≤ date <;> simp [h, applyReady, hd, Transition]

theorem resume_lawful (h : run.status ∈ [.paused, .blocked]) :
    Lawful run (resume now date preflight run) := by
  refine ⟨rfl, .inr ?_⟩
  simp only [List.mem_cons, List.not_mem_nil, or_false] at h
  by_cases hd : date < run.scheduledAt <;> rcases h with h | h <;> simp [h, resume, hd, Transition]

theorem cancel_lawful (h : run.status ∈ cancellable) : Lawful run (cancel now run) := by
  refine ⟨rfl, .inr ?_⟩
  simp only [cancellable, List.mem_cons, List.not_mem_nil, or_false] at h
  rcases h with h | h | h | h | h <;> simp [h, cancel, Transition]

/-- The write of a finalization is lawful exactly where the run is still RUNNING or has the
outcome already. -/
theorem finalize_lawful_iff (hasFailure : Bool) :
    Lawful run (finalize now hasFailure run) ↔
      run.status = .running ∨ run.status = finalOutcome hasFailure := by
  have hinput : (finalize now hasFailure run).input = run.input := rfl
  have hstatus : (finalize now hasFailure run).status = finalOutcome hasFailure := rfl
  cases hasFailure <;> cases hs : run.status <;>
    simp [Lawful, hinput, hstatus, hs, finalOutcome, Transition]

end Specifications

inductive CampaignDeliveryStatus where
  | pending
  | materialized
  | processing
  | dryRunCompleted
  | accepted
  | sent
  | delivered
  | read
  | failed
  | unknown
  | blockedCapabilityChanged
  | cancelled
  deriving DecidableEq, Repr

structure CampaignDelivery where
  messageJobId : Option JobId
  status : CampaignDeliveryStatus
  failureReason : Option String
  updatedAt : ℕ
  deriving DecidableEq, Repr

/-- The statuses that keep a run from being finalized. -/
def CampaignDeliveryStatus.Open (status : CampaignDeliveryStatus) : Prop :=
  status ∈ [.pending, .materialized, .processing]

instance (status : CampaignDeliveryStatus) : Decidable status.Open :=
  inferInstanceAs (Decidable (_ ∈ _))

/-- The statuses `finalize` counts as a failure. -/
def CampaignDeliveryStatus.Failure (status : CampaignDeliveryStatus) : Prop :=
  status ∈ [.failed, .unknown, .blockedCapabilityChanged, .cancelled]

instance (status : CampaignDeliveryStatus) : Decidable status.Failure :=
  inferInstanceAs (Decidable (_ ∈ _))

/-- INSERT … ON CONFLICT (run_id, group_id) DO NOTHING. -/
def insertDelivery (now : ℕ) : Option CampaignDelivery → Option (Option CampaignDelivery)
  | none => some (some ⟨none, .pending, none, now⟩)
  | some _ => none

/-- The CASE of `reconcile`; `none` for the job statuses it leaves out. -/
def reconciledStatus : MessageJobStatus → Option CampaignDeliveryStatus
  | .processing => some .processing
  | .dryRunCompleted => some .dryRunCompleted
  | .accepted => some .accepted
  | .sent => some .sent
  | .delivered => some .delivered
  | .read => some .read
  | .failed => some .failed
  | .unknown => some .unknown
  | .cancelled => some .cancelled
  | .scheduled | .queued => none

/-- The job row that a delivery is joined with, in the given versions of the job rows. -/
def CampaignDelivery.job (jobs : JobId → JobSlot) (delivery : CampaignDelivery) :
    Option MessageJob :=
  match delivery.messageJobId.map jobs with
  | some (.present job) => some job
  | _ => none

/-- One row of `reconcile`; `jobs` is the statement's snapshot. -/
def reconcile (now : ℕ) (jobs : JobId → JobSlot) :
    Option CampaignDelivery → Option (Option CampaignDelivery)
  | none => none
  | some delivery =>
    match delivery.job jobs with
    | some job =>
      match reconciledStatus job.status with
      | some status =>
        let withError := decide (job.status ∈ [.failed, .unknown])
        if delivery.status ≠ status ∨ (withError ∧ delivery.failureReason ≠ job.lastError) then
          some (some { delivery with
            status := status
            failureReason := if withError then job.lastError else delivery.failureReason
            updatedAt := now })
        else none
      | none => none
    | none => none

def blockedReason : String := "Group capability changed after preflight"

/-- `materializePending` on a LIVE delivery whose group's capability has changed. -/
def blockDelivery (now : ℕ) (delivery : CampaignDelivery) : CampaignDelivery :=
  { delivery with
    status := .blockedCapabilityChanged
    failureReason := some blockedReason
    updatedAt := now }

def linkDelivery (now : ℕ) (job : JobId) (delivery : CampaignDelivery) : Option CampaignDelivery :=
  if delivery.status = .pending then
    some { delivery with messageJobId := some job, status := .materialized, updatedAt := now }
  else none

/-- The UPDATE of `campaign_deliveries` in `cancel`; `jobs` is what the transaction sees. -/
def cancelDelivery (now : ℕ) (jobs : JobId → JobSlot) :
    Option CampaignDelivery → Option (Option CampaignDelivery)
  | none => none
  | some delivery =>
    if delivery.status = .pending ∨ (delivery.job jobs).map MessageJob.status = some .cancelled then
      some (some { delivery with
        status := .cancelled
        failureReason := some "Campaign run cancelled"
        updatedAt := now })
    else none

section Specifications

variable {now : ℕ} {jobs : JobId → JobSlot} {v w : Option CampaignDelivery}

theorem insertDelivery_some (h : insertDelivery now v = some w) :
    v = none ∧ w = some ⟨none, .pending, none, now⟩ := by
  cases v with
  | none =>
    cases h
    exact ⟨rfl, rfl⟩
  | some d => cases h

theorem job_some {d : CampaignDelivery} {job : MessageJob} (h : d.job jobs = some job) :
    ∃ j, d.messageJobId = some j ∧ jobs j = .present job := by
  unfold CampaignDelivery.job at h
  split at h
  · rename_i row hrow
    cases h
    exact Option.map_eq_some_iff.mp hrow
  · cases h

/-- A reconciled delivery keeps its job and takes the status of that job in the snapshot. -/
theorem reconcile_some (h : reconcile now jobs v = some w) :
    ∃ d d' j job, v = some d ∧ w = some d' ∧ d.messageJobId = some j ∧
      d'.messageJobId = some j ∧ jobs j = .present job ∧
      reconciledStatus job.status = some d'.status := by
  cases v with
  | none => cases h
  | some d =>
    simp only [reconcile] at h
    split at h
    · rename_i job hjob
      obtain ⟨j, hj, hrow⟩ := job_some hjob
      split at h
      · rename_i status hstatus
        split at h
        · cases h
          exact ⟨d, _, j, job, rfl, rfl, hj, hj, hrow, hstatus⟩
        · cases h
      · cases h
    · cases h

theorem cancelDelivery_some (h : cancelDelivery now jobs v = some w) :
    ∃ d d', v = some d ∧ w = some d' ∧ d'.status = .cancelled ∧
      d'.messageJobId = d.messageJobId ∧ (d.status = .pending ∨
        ∃ j job, d.messageJobId = some j ∧ jobs j = .present job ∧ job.status = .cancelled) := by
  cases v with
  | none => cases h
  | some d =>
    simp only [cancelDelivery] at h
    split at h
    · rename_i hd
      cases h
      refine ⟨d, _, rfl, rfl, rfl, rfl, ?_⟩
      obtain hp | hc := hd
      · exact .inl hp
      · obtain ⟨job, hjob, hs⟩ := Option.map_eq_some_iff.mp hc
        obtain ⟨j, hj, hrow⟩ := job_some hjob
        exact .inr ⟨j, job, hj, hrow, hs⟩
    · cases h

/-- What `cancel` leaves alone is not PENDING, and its job is not CANCELLED. -/
theorem cancelDelivery_none {d : CampaignDelivery} (h : cancelDelivery now jobs (some d) = none) :
    d.status ≠ .pending ∧
      ∀ j job, d.messageJobId = some j → jobs j = .present job → job.status ≠ .cancelled := by
  simp only [cancelDelivery] at h
  split at h
  · cases h
  · rename_i hd
    rw [not_or] at hd
    refine ⟨hd.1, fun j job hj hrow hs => hd.2 ?_⟩
    simp [CampaignDelivery.job, hj, hrow, hs]

theorem linkDelivery_some {job : JobId} {d d' : CampaignDelivery}
    (h : linkDelivery now job d = some d') :
    d.status = .pending ∧ d'.status = .materialized ∧ d'.messageJobId = some job := by
  unfold linkDelivery at h
  split at h
  · rename_i hs
    cases h
    exact ⟨hs, rfl, rfl⟩
  · cases h

theorem reconciled_not_pending {status : MessageJobStatus} {status' : CampaignDeliveryStatus}
    (h : reconciledStatus status = some status') : status' ≠ .pending := by
  cases status <;> cases h <;> simp

end Specifications

end CampaignRunStatements
