import Mathlib.Data.List.Sort
import WaRuntime.CampaignExecution

/-! The transactions on `campaigns` and `campaign_runs`, each as one step.
A run and its campaign are two rows, and each transaction writes them in statements of its own:
what happens between the statements is the subject of `CampaignExecution`, here they are taken
together. Which deliveries a run has left, and whether the group capabilities have changed, comes
with the event. -/
namespace CampaignTransactions

open TransitionRuns CampaignRunStatements
open CampaignExecution (Session)

abbrev CampaignId := ℕ

inductive CampaignStatus where
  | draft
  | active
  | paused
  | archived
  deriving DecidableEq, Repr

inductive CampaignScheduleType where
  | immediate
  | once
  deriving DecidableEq, Repr

structure CampaignTargetSource where
  groupListId : String
  groupListNameSnapshot : String
  membershipRevision : ℕ
  appliedAt : ℕ
  deriving DecidableEq, Repr

/-- A row of `campaigns` with the enabled rows of `campaign_targets`, in the order of their ids. -/
structure Campaign where
  sessionId : String
  name : String
  text : String
  scheduleType : CampaignScheduleType
  scheduledAt : Option ℕ
  status : CampaignStatus
  revision : ℕ
  targetsRevision : ℕ
  targets : List String
  targetSource : Option CampaignTargetSource
  createIdempotencyKey : String
  createRequestHash : String
  deletedAt : Option ℕ
  updatedAt : ℕ
  deriving DecidableEq, Repr

structure State where
  campaigns : List (CampaignId × Campaign)
  runs : List (RunId × CampaignRun)
  deriving DecidableEq, Repr

def initial : State := ⟨[], []⟩

section Statements

variable {α : Type*}

/-- An UPDATE, given by the new version of each row that meets its WHERE clause. -/
def updateRows (f : ℕ → α → Option α) (rows : List (ℕ × α)) : List (ℕ × α) :=
  rows.map fun p => (p.1, (f p.1 p.2).getD p.2)

/-- The rows of the RETURNING clause. -/
def returning (f : ℕ → α → Option α) (rows : List (ℕ × α)) : List α :=
  rows.filterMap fun p => f p.1 p.2

def byId (id : ℕ) (f : α → Option α) : ℕ → α → Option α := fun k v => if k = id then f v else none

end Statements

def isLive (run : CampaignRun) : Bool := run.executionMode == .live

/-- The UPDATE of a campaign's status that follows the UPDATE of its run. -/
def setStatus (accepted : List CampaignStatus) (status : CampaignStatus) (now : ℕ)
    (campaign : Campaign) : Option Campaign :=
  if campaign.status ∈ accepted then some { campaign with status := status, updatedAt := now }
  else none

namespace State

def findCampaign (s : State) (id : CampaignId) : Option Campaign := s.campaigns.lookup id

def findRun (s : State) (id : RunId) : Option CampaignRun := s.runs.lookup id

def updateRuns (s : State) (f : RunId → CampaignRun → Option CampaignRun) : State :=
  { s with runs := updateRows f s.runs }

def updateCampaigns (s : State) (f : CampaignId → Campaign → Option Campaign) : State :=
  { s with campaigns := updateRows f s.campaigns }

/-- The campaigns whose status an UPDATE of runs carries with it. -/
def partners (s : State) (f : RunId → CampaignRun → Option CampaignRun)
    (counts : CampaignRun → Bool) : List CampaignId :=
  ((returning f s.runs).filter counts).map CampaignRun.campaignId

/-- An UPDATE of runs and then of the campaigns of the returned rows that count. -/
def transition (s : State) (f : RunId → CampaignRun → Option CampaignRun)
    (counts : CampaignRun → Bool) (accepted : List CampaignStatus) (status : CampaignStatus)
    (now : ℕ) : State :=
  (s.updateRuns f).updateCampaigns fun id =>
    if id ∈ s.partners f counts then setStatus accepted status now else fun _ => none

end State

section Campaigns

structure CreateCampaignInput where
  sessionId : String
  name : String
  text : String
  scheduleType : CampaignScheduleType
  scheduledAt : Option ℕ
  idempotencyKey : String
  requestHash : String
  deriving DecidableEq, Repr

structure CreateCampaignResult where
  campaign : Campaign
  created : Bool
  requestHash : String
  deleted : Bool
  deriving DecidableEq, Repr

def newCampaign (now : ℕ) (input : CreateCampaignInput) : Campaign :=
  { sessionId := input.sessionId
    name := input.name
    text := input.text
    scheduleType := input.scheduleType
    scheduledAt := input.scheduledAt
    status := .draft
    revision := 1
    targetsRevision := 0
    targets := []
    targetSource := none
    createIdempotencyKey := input.idempotencyKey
    createRequestHash := input.requestHash
    deletedAt := none
    updatedAt := now }

def createCampaign (s : State) (id : CampaignId) (input : CreateCampaignInput) (now : ℕ) :
    State × CreateCampaignResult :=
  match s.campaigns.find? fun p => p.2.createIdempotencyKey == input.idempotencyKey with
  | some (_, row) => (s, ⟨row, false, row.createRequestHash, row.deletedAt.isSome⟩)
  | none =>
    let campaign := newCampaign now input
    ({ s with campaigns := (id, campaign) :: s.campaigns },
      ⟨campaign, true, input.requestHash, false⟩)

structure UpdateCampaignInput where
  name : String
  text : String
  scheduleType : CampaignScheduleType
  scheduledAt : Option ℕ
  deriving DecidableEq, Repr

def updateDraft (input : UpdateCampaignInput) (expectedRevision now : ℕ) (c : Campaign) :
    Option Campaign :=
  if c.deletedAt = none ∧ c.status = .draft ∧ c.revision = expectedRevision then
    let changed := decide ((⟨c.name, c.text, c.scheduleType, c.scheduledAt⟩ :
      UpdateCampaignInput) ≠ input)
    some { c with
      name := input.name
      text := input.text
      scheduleType := input.scheduleType
      scheduledAt := input.scheduledAt
      revision := if changed then c.revision + 1 else c.revision
      updatedAt := if changed then now else c.updatedAt }
  else none

def update (s : State) (id : CampaignId) (input : UpdateCampaignInput)
    (expectedRevision now : ℕ) : State × Option Campaign :=
  let f := byId id (updateDraft input expectedRevision now)
  (s.updateCampaigns f, (returning f s.campaigns).head?)

structure ReplaceTargetsResult where
  targets : List String
  missingGroupIds : List String
  mismatchedGroupIds : List String
  campaignFound : Bool
  campaignEditable : Bool
  revisionConflict : Bool
  targetsRevision : ℕ
  deriving DecidableEq, Repr

def writeTargets (targets : List String) (source : Option CampaignTargetSource) (now : ℕ)
    (c : Campaign) : Campaign :=
  { c with
    targets := targets
    targetsRevision := c.targetsRevision + 1
    targetSource := source
    updatedAt := now }

/-- `groups` are the rows of `gateway_groups` with one of the ids, each with its session. -/
def replaceTargets (s : State) (id : CampaignId) (groupIds : List String)
    (expectedTargetsRevision : ℕ) (groups : List (String × String)) (now : ℕ) :
    State × ReplaceTargetsResult :=
  match (s.findCampaign id).filter fun c => c.deletedAt.isNone with
  | none => (s, ⟨[], [], [], false, false, false, 0⟩)
  | some c =>
    if c.status ≠ .draft then (s, ⟨[], [], [], true, false, false, c.targetsRevision⟩)
    else if c.targetsRevision ≠ expectedTargetsRevision then
      (s, ⟨[], [], [], true, true, true, c.targetsRevision⟩)
    else
      let missing := groupIds.filter fun g => !(groups.any fun row => row.1 == g)
      let mismatched := groupIds.filter fun g => groups.any (fun row => row.1 == g) &&
        !(groups.any fun row => row.1 == g && row.2 == c.sessionId)
      if missing ≠ [] ∨ mismatched ≠ [] then
        (s, ⟨[], missing, mismatched, true, true, false, c.targetsRevision⟩)
      else
        let next := groupIds.insertionSort (· ≤ ·)
        if c.targets ≠ next ∨ c.targetSource.isSome then
          (s.updateCampaigns (byId id fun c => some (writeTargets next none now c)),
            ⟨next, [], [], true, true, false, c.targetsRevision + 1⟩)
        else (s, ⟨c.targets, [], [], true, true, false, c.targetsRevision⟩)

/-- A row of `group_lists` that is not archived, with its members in the order of their ids. -/
structure GroupList where
  id : String
  name : String
  sessionId : String
  membershipRevision : ℕ
  groupIds : List String
  deriving DecidableEq, Repr

structure ApplyGroupListResult where
  targets : List String
  targetsRevision : ℕ
  source : Option CampaignTargetSource
  campaignFound : Bool
  campaignEditable : Bool
  targetRevisionConflict : Bool
  sourceFound : Bool
  sourceSessionId : Option String
  currentSourceRevision : Option ℕ
  deriving DecidableEq, Repr

/-- `list` is the group list under the id of the request, if there is one. `sourceSessionId` is
given on a session mismatch and `currentSourceRevision` on a conflict of membership revisions. -/
def applyGroupListTargets (s : State) (id : CampaignId) (list : Option GroupList)
    (expectedTargetsRevision : ℕ) (expectedMembershipRevision : Option ℕ) (now : ℕ) :
    State × ApplyGroupListResult :=
  match (s.findCampaign id).filter fun c => c.deletedAt.isNone with
  | none => (s, ⟨[], 0, none, false, false, false, false, none, none⟩)
  | some c =>
    let empty : ApplyGroupListResult :=
      ⟨[], c.targetsRevision, none, true, c.status == .draft, false, false, none, none⟩
    if c.status ≠ .draft then (s, empty)
    else if c.targetsRevision ≠ expectedTargetsRevision then
      (s, { empty with targetRevisionConflict := true })
    else match list with
    | none => (s, empty)
    | some source =>
      if source.sessionId ≠ c.sessionId then
        (s, { empty with sourceFound := true, sourceSessionId := some source.sessionId })
      else if ∃ expected ∈ expectedMembershipRevision, source.membershipRevision ≠ expected then
        (s, { empty with
          sourceFound := true
          currentSourceRevision := some source.membershipRevision })
      else
        let provenance : CampaignTargetSource :=
          ⟨source.id, source.name, source.membershipRevision, now⟩
        let sameProvenance := c.targetSource.any fun old =>
          old.groupListId == source.id && old.membershipRevision == source.membershipRevision
        if c.targets ≠ source.groupIds ∨ sameProvenance = false then
          (s.updateCampaigns (byId id fun c => some (writeTargets source.groupIds provenance now c)),
            { empty with
              targets := source.groupIds
              targetsRevision := c.targetsRevision + 1
              source := some provenance
              sourceFound := true })
        else
          (s, { empty with
            targets := c.targets
            source := some { provenance with
              appliedAt := (c.targetSource.map CampaignTargetSource.appliedAt).getD now }
            sourceFound := true })

structure CampaignDeletionResult where
  found : Bool
  alreadyDeleted : Bool
  deleted : Bool
  revisionConflict : Bool
  stateConflict : Bool
  runConflict : Bool
  current : Option (ℕ × ℕ × CampaignStatus)
  deriving DecidableEq, Repr

def tombstone (now : ℕ) (c : Campaign) : Option Campaign :=
  if c.deletedAt = none then
    some { c with deletedAt := some now, revision := c.revision + 1, updatedAt := now }
  else none

def delete (s : State) (id : CampaignId) (allowedSessionIds : List String)
    (expectedRevision expectedTargetsRevision now : ℕ) : State × CampaignDeletionResult :=
  match (s.findCampaign id).filter fun c => decide (c.sessionId ∈ allowedSessionIds) with
  | none => (s, ⟨false, false, false, false, false, false, none⟩)
  | some c =>
    let current := some (c.revision, c.targetsRevision, c.status)
    if c.deletedAt.isSome then (s, ⟨true, true, false, false, false, false, none⟩)
    else if c.revision ≠ expectedRevision ∨ c.targetsRevision ≠ expectedTargetsRevision then
      (s, ⟨true, false, false, true, false, false, current⟩)
    else if c.status ∉ [.draft, .archived] then
      (s, ⟨true, false, false, false, true, false, current⟩)
    else if s.runs.any fun p => p.2.campaignId == id && decide (¬ p.2.status.Terminal) then
      (s, ⟨true, false, false, false, false, true, current⟩)
    else
      (s.updateCampaigns (byId id (tombstone now)),
        ⟨true, false, true, false, false, false, current⟩)

end Campaigns

section Runs

structure CreateRunRequest where
  campaignId : CampaignId
  idempotencyKey : String
  executionMode : CampaignExecutionMode
  expectedCampaignRevision : Option ℕ
  expectedTargetsRevision : Option ℕ
  deriving DecidableEq, Repr

structure CreateRunResult where
  run : Option CampaignRun
  created : Bool
  campaignFound : Bool
  idempotencyConflict : Bool
  campaignNotLaunchable : Bool
  revisionConflict : Bool
  scheduleExpired : Bool
  current : Option (ℕ × ℕ)
  deriving DecidableEq, Repr

def State.runByKey (s : State) (request : CreateRunRequest) : Option CampaignRun :=
  (s.runs.map Prod.snd).find? fun r =>
    r.campaignId == request.campaignId && r.idempotencyKey == request.idempotencyKey

def replayRun (mode : CampaignExecutionMode) (run : CampaignRun) : CreateRunResult :=
  ⟨some run, false, true, run.executionMode != mode, false, false, false, none⟩

def notLaunchable : CreateRunResult := ⟨none, false, true, false, true, false, false, none⟩

def revisionsDiffer (request : CreateRunRequest) (c : Campaign) : Bool :=
  request.expectedCampaignRevision.any (· != c.revision) ||
    request.expectedTargetsRevision.any (· != c.targetsRevision)

def scheduleExpired (request : CreateRunRequest) (c : Campaign) (date : ℕ) : Bool :=
  request.executionMode == .live && c.scheduleType == .once && c.scheduledAt.any (· ≤ date)

def runInput (request : CreateRunRequest) (c : Campaign) (date : ℕ) : CreateRunInput where
  campaignId := request.campaignId
  sessionId := c.sessionId
  idempotencyKey := request.idempotencyKey
  executionMode := request.executionMode
  text := c.text
  targets := c.targets
  scheduledAt := match c.scheduleType with
    | .once => c.scheduledAt.getD date
    | .immediate => date

/-- UNIQUE (campaign_id, idempotency_key), and one LIVE run for each campaign. -/
def State.insertConflicts (s : State) (request : CreateRunRequest) : Bool :=
  (s.runs.map Prod.snd).any fun r => r.campaignId == request.campaignId &&
    (r.idempotencyKey == request.idempotencyKey || isLive r && request.executionMode == .live)

def create (s : State) (id : RunId) (request : CreateRunRequest) (now date : ℕ) :
    State × CreateRunResult :=
  match (s.findCampaign request.campaignId).filter fun c => c.deletedAt.isNone with
  | none => (s, ⟨none, false, false, false, false, false, false, none⟩)
  | some c =>
    match s.runByKey request with
    | some run => (s, replayRun request.executionMode run)
    | none =>
      if s.runs.any fun p => p.2.campaignId == request.campaignId && isLive p.2 then
        (s, notLaunchable)
      else if revisionsDiffer request c then
        (s, ⟨none, false, true, false, false, true, false, some (c.revision, c.targetsRevision)⟩)
      else if c.status ≠ .draft then (s, notLaunchable)
      else if scheduleExpired request c date then
        (s, ⟨none, false, true, false, false, false, true, none⟩)
      else if s.insertConflicts request then
        (s, ((s.runByKey request).map (replayRun request.executionMode)).getD notLaunchable)
      else
        let run := createRun now (runInput request c date)
        let inserted : State := { s with runs := (id, run) :: s.runs }
        (if request.executionMode = .live then
            inserted.updateCampaigns (byId request.campaignId (setStatus [.draft] .active now))
          else inserted,
          ⟨some run, true, true, false, false, false, false, none⟩)

structure ClaimedCampaignPreparation where
  leaseToken : ℕ
  attemptNumber : ℕ
  deriving DecidableEq, Repr

def claimPreparation (s : State) (id : RunId) (now token : ℕ) :
    State × Option ClaimedCampaignPreparation :=
  let f := byId id (CampaignRunStatements.claimPreparation now token)
  (s.updateRuns f,
    (returning f s.runs).head?.map fun r => ⟨token, r.preparationAttemptCount⟩)

def recoverExpiredPreparations (s : State) (now : ℕ) : State × ℕ :=
  let f := fun _ => recoverExpiredPreparation now
  (s.transition f (fun r => isLive r && r.status == .failed) [.active, .paused] .archived now,
    (returning f s.runs).length)

inductive CampaignPreflightApplyResult where
  | applied
  | staleInput
  | lostOwnership
  deriving DecidableEq, Repr

/-- `stale` is what `capabilitySnapshotChanged` says. -/
def applyPreflight (s : State) (id : RunId) (now date token : ℕ)
    (preflight : CampaignPreflightStatus) (stale : Bool) : State × CampaignPreflightApplyResult :=
  match (s.findRun id).filter fun r => decide (OwnsPreparation now token r) with
  | none => (s, .lostOwnership)
  | some _ =>
    if stale then (s.updateRuns (byId id (releaseStaleAttempt now token)), .staleInput)
    else if preflight = .block then
      (s.updateRuns (byId id fun r => some (applyBlocked now r)), .applied)
    else (s.updateRuns (byId id fun r => some (applyReady now date preflight r)), .applied)

inductive CampaignPreparationResult where
  | preparing
  | failed
  | lostOwnership
  deriving DecidableEq, Repr

def failPreparationAttempt (s : State) (id : RunId) (now token : ℕ) (error : String) :
    State × CampaignPreparationResult :=
  let f := byId id (CampaignRunStatements.failPreparationAttempt now token error)
  (s.transition f (fun r => isLive r && r.status == .failed) [.active, .paused] .archived now,
    match (returning f s.runs).head? with
    | none => .lostOwnership
    | some r => if r.status = .failed then .failed else .preparing)

def activateDue (s : State) (now : ℕ) : State × ℕ :=
  let f := fun _ => CampaignRunStatements.activateDue now
  (s.updateRuns f, (returning f s.runs).length)

/-- What `materializePending` does to the run and its campaign when the session cannot send. -/
def materializePending (s : State) (id : RunId) (now : ℕ) (session : Option Session) : State :=
  match s.findRun id with
  | none => s
  | some r =>
    if r.status = .running ∧ isLive r ∧ ¬ (session.map Session.sendable).getD false then
      s.transition (byId id (pauseUnsendable now)) isLive [.active] .paused now
    else s

/-- `found` gives the RUNNING runs that have no open delivery, each with `has_failure`. -/
def finalize (s : State) (found : List (RunId × Bool)) (now : ℕ) : State × ℕ :=
  let f := fun id r => (found.lookup id).map fun hasFailure =>
    CampaignRunStatements.finalize now hasFailure r
  (s.transition f isLive [.active, .paused] .archived now, (returning f s.runs).length)

def pause (s : State) (id : RunId) (now : ℕ) : State × Option CampaignRun :=
  let f := byId id (CampaignRunStatements.pause now)
  (s.transition f isLive [.active] .paused now, (returning f s.runs).head?)

def recordBlockedResume (s : State) (id : RunId) (now : ℕ) : State :=
  s.updateRuns (byId id (CampaignRunStatements.recordBlockedResume now))

inductive CampaignResumeResult where
  | notResumable
  | staleInput
  | resumed (run : CampaignRun)
  deriving DecidableEq, Repr

def resume (s : State) (id : RunId) (now date : ℕ) (preflight : CampaignPreflightStatus)
    (stale : Bool) : State × CampaignResumeResult :=
  match (s.findRun id).filter fun r => decide (r.status ∈ [.paused, .blocked]) with
  | none => (s, .notResumable)
  | some r =>
    if stale then (s, .staleInput)
    else
      (s.transition (byId id fun r => some (CampaignRunStatements.resume now date preflight r))
          isLive [.paused] .active now,
        .resumed (CampaignRunStatements.resume now date preflight r))

def cancel (s : State) (id : RunId) (now : ℕ) : State × Option CampaignRun :=
  match (s.findRun id).filter fun r => decide (r.status ∈ cancellable) with
  | none => (s, none)
  | some r =>
    (s.transition (byId id fun r => some (CampaignRunStatements.cancel now r)) isLive
        [.active, .paused] .archived now,
      some (CampaignRunStatements.cancel now r))

/-- The candidates of one batch are among the deletable runs. -/
def deleteCampaignRuns (s : State) (candidates : List RunId) : State × ℕ :=
  ({ s with runs := s.runs.filter fun p => decide (p.1 ∉ candidates) },
    (s.runs.filter fun p => decide (p.1 ∈ candidates)).length)

end Runs

section Audit

def State.liveRows (s : State) (id : CampaignId) : List (RunId × CampaignRun) :=
  s.runs.filter fun p => p.2.campaignId == id && isLive p.2

/-- The statuses of the LIVE runs of a campaign. -/
def State.live (s : State) (id : CampaignId) : List CampaignRunStatus :=
  (s.liveRows id).map fun p => p.2.status

structure CampaignLifecycleDrift where
  draftWithLive : ℕ
  activeWithoutNonTerminalLive : ℕ
  pausedWithoutPausedOrBlockedLive : ℕ
  archivedWithNonTerminalLive : ℕ
  multipleLive : ℕ
  deriving DecidableEq, Repr

def hasNonTerminal (live : List CampaignRunStatus) : Bool :=
  live.any fun status => decide (status ∈ [.preparing, .blocked, .scheduled, .running, .paused])

def hasPausedOrBlocked (live : List CampaignRunStatus) : Bool :=
  live.any fun status => decide (status ∈ [.paused, .blocked])

def auditLifecycle (s : State) : CampaignLifecycleDrift where
  draftWithLive := s.campaigns.countP fun p =>
    p.2.status == .draft && decide (0 < (s.live p.1).length)
  activeWithoutNonTerminalLive := s.campaigns.countP fun p =>
    p.2.status == .active && !hasNonTerminal (s.live p.1)
  pausedWithoutPausedOrBlockedLive := s.campaigns.countP fun p =>
    p.2.status == .paused && !hasPausedOrBlocked (s.live p.1)
  archivedWithNonTerminalLive := s.campaigns.countP fun p =>
    p.2.status == .archived && hasNonTerminal (s.live p.1)
  multipleLive := s.campaigns.countP fun p => decide (1 < (s.live p.1).length)

end Audit

inductive Event where
  | createCampaign (id : CampaignId) (input : CreateCampaignInput) (now : ℕ)
  | update (id : CampaignId) (input : UpdateCampaignInput) (expectedRevision now : ℕ)
  | replaceTargets (id : CampaignId) (groupIds : List String) (expectedTargetsRevision : ℕ)
      (groups : List (String × String)) (now : ℕ)
  | applyGroupListTargets (id : CampaignId) (list : Option GroupList)
      (expectedTargetsRevision : ℕ) (expectedMembershipRevision : Option ℕ) (now : ℕ)
  | delete (id : CampaignId) (allowedSessionIds : List String)
      (expectedRevision expectedTargetsRevision now : ℕ)
  | create (id : RunId) (request : CreateRunRequest) (now date : ℕ)
  | claimPreparation (id : RunId) (now token : ℕ)
  | recoverExpiredPreparations (now : ℕ)
  | applyPreflight (id : RunId) (now date token : ℕ) (preflight : CampaignPreflightStatus)
      (stale : Bool)
  | failPreparationAttempt (id : RunId) (now token : ℕ) (error : String)
  | activateDue (now : ℕ)
  | materializePending (id : RunId) (now : ℕ) (session : Option Session)
  | finalize (found : List (RunId × Bool)) (now : ℕ)
  | pause (id : RunId) (now : ℕ)
  | recordBlockedResume (id : RunId) (now : ℕ)
  | resume (id : RunId) (now date : ℕ) (preflight : CampaignPreflightStatus) (stale : Bool)
  | cancel (id : RunId) (now : ℕ)
  | deleteCampaignRuns (candidates : List RunId) (cutoff : ℕ)
  deriving Repr

/-- New rows get new ids; the CTE of `finalize` reads the status, the one of the retention the
status and the age. -/
def step (s : State) : Event → Option State
  | .createCampaign id input now =>
    guarded (id ∉ s.campaigns.map Prod.fst) (createCampaign s id input now).1
  | .update id input expectedRevision now => some (update s id input expectedRevision now).1
  | .replaceTargets id groupIds expected groups now =>
    some (replaceTargets s id groupIds expected groups now).1
  | .applyGroupListTargets id list expected membership now =>
    some (applyGroupListTargets s id list expected membership now).1
  | .delete id allowed revision targetsRevision now =>
    some (delete s id allowed revision targetsRevision now).1
  | .create id request now date =>
    guarded (id ∉ s.runs.map Prod.fst) (create s id request now date).1
  | .claimPreparation id now token => some (claimPreparation s id now token).1
  | .recoverExpiredPreparations now => some (recoverExpiredPreparations s now).1
  | .applyPreflight id now date token preflight stale =>
    some (applyPreflight s id now date token preflight stale).1
  | .failPreparationAttempt id now token error =>
    some (failPreparationAttempt s id now token error).1
  | .activateDue now => some (activateDue s now).1
  | .materializePending id now session => some (materializePending s id now session)
  | .finalize found now =>
    guarded (∀ p ∈ s.runs, (found.lookup p.1).isSome → p.2.status = .running)
      (finalize s found now).1
  | .pause id now => some (pause s id now).1
  | .recordBlockedResume id now => some (recordBlockedResume s id now)
  | .resume id now date preflight stale => some (resume s id now date preflight stale).1
  | .cancel id now => some (cancel s id now).1
  | .deleteCampaignRuns candidates cutoff =>
    guarded (∀ p ∈ s.runs, p.1 ∈ candidates → DeletableRun cutoff p.2)
      (deleteCampaignRuns s candidates).1

def system : System State Event := ofStep (· = initial) step

instance (s : State) (e : Event) : Decidable (system.enabled s e) :=
  inferInstanceAs (Decidable ((step s e).isSome = true))

end CampaignTransactions
