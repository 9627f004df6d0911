import WaRuntime.MessageJobTransitions
import WaRuntime.CampaignRunStatements

/-! Campaign runs together with their targets, deliveries and message jobs.
The transactions that write more than one row or read before they write (preflight apply, resume,
cancel, materialization, finalization, reconciliation) are stepped statement by statement; each
holds its rows until it commits, and a locked row makes every other statement wait. A statement of
its own, and a transaction whose only write is one run row, is one step for each row it reaches.
`gateway_groups` and `gateway_sessions` change at any time, to anything. The `campaigns` rows that
the same transactions move are not read by any of these statements and are left out here. -/
namespace CampaignExecution

open TransitionRuns RowVersions MessageJobStatements CampaignRunStatements
open OutboundMessageExecution (Tx Config)

abbrev GroupId := String

/-- The key of a target row and of the delivery row for the same group. -/
abbrev TargetKey := RunId × GroupId

/-- A row of `campaign_runs` under one id: ids are drawn once and never reused. -/
inductive RunSlot where
  | unused
  | present (run : CampaignRun)
  | deleted
  deriving DecidableEq, Repr

def RunSlot.run : RunSlot → Option CampaignRun
  | .present run => some run
  | _ => none

def onRun (f : CampaignRun → Option CampaignRun) : RunSlot → Option RunSlot
  | .present run => (f run).map .present
  | _ => none

def insertRun (now : ℕ) (input : CreateRunInput) : RunSlot → Option RunSlot
  | .unused => some (.present (createRun now input))
  | _ => none

def deleteRunSlot (cutoff : ℕ) : RunSlot → Option RunSlot
  | .present run => if DeletableRun cutoff run then some .deleted else none
  | _ => none

inductive GroupSendCapability where
  | allowed
  | denied
  | unknown
  deriving DecidableEq, Repr

/-- The capability columns of a `gateway_groups` row. -/
structure Group where
  sendCapability : GroupSendCapability
  sendCapabilityReason : String
  capabilityRevision : ℕ
  capabilityCheckedAt : Option ℕ
  deriving DecidableEq, Repr

/-- The capability columns of a `campaign_run_targets` row, copied from the group. -/
structure TargetSnapshot where
  capability : GroupSendCapability
  capabilityReason : String
  capabilityRevision : ℕ
  capabilityCheckedAt : Option ℕ
  deriving DecidableEq, Repr

def Group.snapshot (group : Group) : TargetSnapshot :=
  ⟨group.sendCapability, group.sendCapabilityReason, group.capabilityRevision,
    group.capabilityCheckedAt⟩

structure Session where
  status : String
  engineLoaded : Bool
  restricted : Bool
  deriving DecidableEq, Repr

def Session.sendable (session : Session) : Bool :=
  session.status == "ready" && session.engineLoaded && !session.restricted

/-- What a request for preflight brings to its transaction: the run, the revisions its context
read for the targets, and the status of the report. -/
structure Evaluation where
  run : RunId
  observed : List (GroupId × ℕ)
  preflight : CampaignPreflightStatus
  deriving DecidableEq, Repr

/-- The two transactions that compare the observed revisions before they copy the current ones. -/
inductive Fence where
  | preparation (token : ℕ)
  | resume
  deriving DecidableEq, Repr

/-- The statuses that the locking SELECT of the transaction accepts. -/
def Fence.statuses : Fence → List CampaignRunStatus
  | .preparation _ => [.preparing]
  | .resume => [.paused, .blocked]

/-- Where a campaign transaction stands. -/
inductive CampaignTx where
  | idle
  | evaluated (ev : Evaluation)
  | locked (fence : Fence) (ev : Evaluation)
  | stale (fence : Fence) (ev : Evaluation)
  | checked (fence : Fence) (ev : Evaluation)
  | copied (fence : Fence) (ev : Evaluation)
  | inserted (fence : Fence) (ev : Evaluation)
  | applied (fence : Fence) (ev : Evaluation)
  | cancelLocked (run : RunId)
  | cancelInserted (run : RunId)
  | cancellingJobs (run : RunId) (remaining : List JobId)
  | cancellingDeliveries (run : RunId) (remaining : List GroupId)
  | cancelWritten (run : RunId)
  | materializeLocked (run : RunId) (maxBuffered : ℕ) (sendable : Bool)
  | materializeCounted (run : RunId) (slots : ℕ)
  | materializing (run : RunId) (pending : List (GroupId × Bool))
  | finalizing (found : List (RunId × Bool))
  | reconciling (jobs : JobId → JobSlot)
  | finished

/-- The run a transaction has locked, with the statuses it was locked on. -/
def CampaignTx.lock : CampaignTx → Option (RunId × List CampaignRunStatus)
  | .locked fence ev | .stale fence ev | .checked fence ev | .copied fence ev
  | .inserted fence ev | .applied fence ev => some (ev.run, fence.statuses)
  | .cancelLocked run | .cancelInserted run | .cancellingJobs run _ | .cancellingDeliveries run _
  | .cancelWritten run => some (run, cancellable)
  | .materializeLocked run _ _ | .materializeCounted run _ | .materializing run _ =>
    some (run, [.running])
  | .idle | .evaluated _ | .finalizing _ | .reconciling _ | .finished => none

/-- `jobOwner` is the delivery named by a job's idempotency scope and key. -/
structure State where
  core : OutboundMessageExecution.State
  runs : Table Tx RunId RunSlot
  targets : Table Tx TargetKey (Option TargetSnapshot)
  deliveries : Table Tx TargetKey (Option CampaignDelivery)
  groups : String × GroupId → Option Group
  sessions : String → Option Session
  txs : ℕ → CampaignTx
  jobOwner : JobId → Option TargetKey

def initial : State where
  core := OutboundMessageExecution.initial
  runs := fun _ => Row.settled .unused
  targets := fun _ => Row.settled none
  deliveries := fun _ => Row.settled none
  groups := fun _ => none
  sessions := fun _ => none
  txs := fun _ => .idle
  jobOwner := fun _ => none

inductive TxEvent where
  | evaluate (run : RunId) (preflight : CampaignPreflightStatus)
  | lockPreparation (now token : ℕ)
  | lockResume
  | checkRevisions
  | releaseStale (now : ℕ)
  | applyBlocked (now : ℕ)
  | copyRevisions
  | insertDeliveries (now : ℕ)
  | writeRun (now date : ℕ)
  | lockCancel (run : RunId)
  | startCancelJobs
  | cancelJob (job : JobId) (now : ℕ)
  | startCancelDeliveries
  | cancelDelivery (group : GroupId) (now : ℕ)
  | writeCancelled (now : ℕ)
  | lockMaterialize (run : RunId) (maxBuffered : ℕ)
  | pauseUnsendable (now : ℕ)
  | countActive
  | selectPending (groups : List GroupId)
  | materializeNext (job : JobId) (now date : ℕ)
  | snapshotFinalizable (found : List RunId)
  | finalizeRow (now : ℕ)
  | snapshotJobs
  | reconcileRow (key : TargetKey) (now : ℕ)
  | commit
  | abort
  deriving Repr

inductive Event where
  | core (event : OutboundMessageExecution.Event)
  | writeGroup (key : String × GroupId) (group : Group)
  | writeSession (session : String) (state : Session)
  | createRun (run : RunId) (input : CreateRunInput) (now : ℕ)
  | deleteRun (run : RunId) (cutoff : ℕ)
  | claimPreparation (run : RunId) (now token : ℕ)
  | recoverExpiredPreparation (run : RunId) (now : ℕ)
  | failPreparationAttempt (run : RunId) (now token : ℕ) (error : String)
  | activateDue (run : RunId) (now : ℕ)
  | pause (run : RunId) (now : ℕ)
  | recordBlockedResume (run : RunId) (now : ℕ)
  | tx (n : ℕ) (event : TxEvent)
  deriving Repr

/-- The job that a delivery row refers to. -/
def link (row : Option CampaignDelivery) : Option JobId := row.bind CampaignDelivery.messageJobId

namespace State

def runView (s : State) (n : ℕ) (run : RunId) : Option CampaignRun :=
  ((s.runs run).view (.campaign n)).run

def targetKeys (s : State) (n : ℕ) (run : RunId) : List TargetKey :=
  match s.runView n run with
  | some r => r.targets.map fun g => (run, g)
  | none => []

def delivery (s : State) (n : ℕ) (key : TargetKey) : Option CampaignDelivery :=
  (s.deliveries key).view (.campaign n)

def jobView (s : State) (n : ℕ) : JobId → JobSlot := fun job => (s.core.jobs job).view (.campaign n)

/-- The group row that a target of the run is joined with. -/
def groupOf (s : State) (n : ℕ) (key : TargetKey) : Option Group :=
  (s.runView n key.1).bind fun r => s.groups (r.sessionId, key.2)

/-- `getPreflightContext` joins the target rows with their groups, in a transaction of its own. -/
def context (s : State) (run : RunId) : List (GroupId × ℕ) :=
  match (s.runs run).committed with
  | .present r => r.targets.filterMap fun g =>
    (s.groups (r.sessionId, g)).map fun group => (g, group.capabilityRevision)
  | _ => []

end State

/-- `capabilitySnapshotChanged`: some expected revision has no group row, or another revision. -/
def capabilitySnapshotChanged (s : State) (n : ℕ) (ev : Evaluation) : Bool :=
  ev.observed.any fun expected =>
    match s.groupOf n (ev.run, expected.1) with
    | none => true
    | some group => group.capabilityRevision != expected.2

/-- The target rows whose capability snapshot the transaction writes: all of them in
`applyPreflight`, in `resume` those without a delivery that has left PENDING. -/
def copiedKeys (s : State) (n : ℕ) (fence : Fence) (run : RunId) : List TargetKey :=
  match fence with
  | .preparation _ => s.targetKeys n run
  | .resume => (s.targetKeys n run).filter fun key =>
    match s.delivery n key with
    | some delivery => delivery.status == .pending
    | none => true

def copySnapshot (s : State) (n : ℕ) (key : TargetKey) :
    Option TargetSnapshot → Option (Option TargetSnapshot)
  | none => none
  | some _ => (s.groupOf n key).map fun group => some group.snapshot

def jobActive : JobSlot → Bool
  | .present job => job.status == .scheduled || job.status == .queued || job.status == .processing
  | _ => false

/-- The deliveries of a run that are linked to a job which is still on its way. -/
def activeCount (s : State) (n : ℕ) (run : RunId) : ℕ :=
  (s.targetKeys n run).countP fun key =>
    match link (s.delivery n key) with
    | some job => jobActive (s.jobView n job)
    | none => false

/-- The locking SELECT of `materializePending` joins target, group and PENDING delivery. -/
def selectable (s : State) (n : ℕ) (key : TargetKey) : Bool :=
  (s.deliveries key).held.isNone &&
    ((s.delivery n key).map CampaignDelivery.status == some .pending) &&
      ((s.targets key).view (.campaign n)).isSome && (s.groupOf n key).isSome

def capabilityChanged (s : State) (n : ℕ) (key : TargetKey) : Bool :=
  match (s.targets key).view (.campaign n), s.groupOf n key with
  | some target, some group =>
    target.capabilityRevision != group.capabilityRevision || group.sendCapability != .allowed
  | _, _ => true

/-- The CTE of `finalize` on one run, from the committed rows. -/
def finalizable (s : State) (run : RunId) : Option Bool :=
  match (s.runs run).committed with
  | .present r =>
    let found := r.targets.filterMap fun g =>
      (s.deliveries (run, g)).committed.map CampaignDelivery.status
    if r.status = .running ∧ found ≠ [] ∧ ∀ status ∈ found, ¬ status.Open then
      some (found.any fun status => decide status.Failure)
    else none
  | _ => none

def linkedJobs (s : State) (n : ℕ) (run : RunId) : List JobId :=
  (s.targetKeys n run).filterMap fun key => link (s.delivery n key)

def runGroups (s : State) (n : ℕ) (run : RunId) : List GroupId :=
  (s.targetKeys n run).map Prod.snd

/-- Where a locking SELECT on a run leads: on with the transaction if the row it read has one of
the statuses, otherwise to its end. The row is locked in both cases. -/
def lockedOn (s : State) (run : RunId) (statuses : List CampaignRunStatus)
    (next : CampaignRun → CampaignTx) : Option CampaignTx :=
  match (s.runs run).committed with
  | .present r =>
    guarded (s.runs run).Free (if r.status ∈ statuses then next r else .finished)
  | _ => some .finished

/-- The session of the run as `materializePending` reads it; a dry run does not look at it. -/
def canMaterialize (s : State) (r : CampaignRun) : Bool :=
  r.executionMode == .dryRun || ((s.sessions r.sessionId).map Session.sendable).getD false

/-- The moves of one campaign transaction. -/
def txNext (s : State) (n : ℕ) : CampaignTx → TxEvent → Option CampaignTx
  | .idle, .evaluate run preflight =>
    guarded ((s.runs run).committed.run.isSome) (.evaluated ⟨run, s.context run, preflight⟩)
  | .evaluated ev, .lockPreparation now token =>
    match (s.runs ev.run).committed with
    | .present r =>
      if OwnsPreparation now token r then
        guarded (now ≤ s.core.clock ∧ (s.runs ev.run).Free) (.locked (.preparation token) ev)
      else guarded (now ≤ s.core.clock) .finished
    | _ => guarded (now ≤ s.core.clock) .finished
  | .evaluated ev, .lockResume =>
    if ev.preflight = .block then none
    else lockedOn s ev.run [.paused, .blocked] fun _ => .locked .resume ev
  | .locked fence ev, .checkRevisions =>
    some (if capabilitySnapshotChanged s n ev then .stale fence ev else .checked fence ev)
  | .stale _ _, .releaseStale now => guarded (now ≤ s.core.clock) .finished
  | .checked (.preparation _) ev, .applyBlocked now =>
    guarded (now ≤ s.core.clock ∧ ev.preflight = .block) .finished
  | .checked fence ev, .copyRevisions => guarded (ev.preflight ≠ .block) (.copied fence ev)
  | .copied fence ev, .insertDeliveries now => guarded (now ≤ s.core.clock) (.inserted fence ev)
  | .inserted fence ev, .writeRun now _ => guarded (now ≤ s.core.clock) (.applied fence ev)
  | .idle, .lockCancel run =>
    lockedOn s run cancellable fun _ => .cancelLocked run
  | .cancelLocked run, .insertDeliveries now => guarded (now ≤ s.core.clock) (.cancelInserted run)
  | .cancelInserted run, .startCancelJobs => some (.cancellingJobs run (linkedJobs s n run))
  | .cancellingJobs run remaining, .cancelJob job now =>
    guarded (now ≤ s.core.clock ∧ job ∈ remaining) (.cancellingJobs run (remaining.erase job))
  | .cancellingJobs run [], .startCancelDeliveries =>
    some (.cancellingDeliveries run (runGroups s n run))
  | .cancellingDeliveries run remaining, .cancelDelivery group now =>
    guarded (now ≤ s.core.clock ∧ group ∈ remaining)
      (.cancellingDeliveries run (remaining.erase group))
  | .cancellingDeliveries run [], .writeCancelled now =>
    guarded (now ≤ s.core.clock) (.cancelWritten run)
  | .idle, .lockMaterialize run maxBuffered =>
    lockedOn s run [.running] fun r => .materializeLocked run maxBuffered (canMaterialize s r)
  | .materializeLocked _ _ false, .pauseUnsendable now => guarded (now ≤ s.core.clock) .finished
  | .materializeLocked run maxBuffered true, .countActive =>
    some (.materializeCounted run (maxBuffered - activeCount s n run))
  | .materializeCounted run slots, .selectPending groups =>
    guarded (groups.Nodup ∧ groups.length ≤ slots ∧ groups ⊆ runGroups s n run ∧
        groups.all fun g => selectable s n (run, g))
      (.materializing run (groups.map fun g => (g, capabilityChanged s n (run, g))))
  | .materializing run (_ :: rest), .materializeNext job now _ =>
    guarded (now ≤ s.core.clock ∧ s.core.jobs job = Row.settled .unused) (.materializing run rest)
  | .idle, .snapshotFinalizable found =>
    guarded (found.Nodup ∧ found.all fun run => (finalizable s run).isSome)
      (.finalizing (found.filterMap fun run => (finalizable s run).map fun f => (run, f)))
  | .finalizing (_ :: rest), .finalizeRow now => guarded (now ≤ s.core.clock) (.finalizing rest)
  | .idle, .snapshotJobs => some (.reconciling fun job => (s.core.jobs job).committed)
  | .reconciling jobs, .reconcileRow _ now => guarded (now ≤ s.core.clock) (.reconciling jobs)
  | .applied _ _, .commit | .cancelWritten _, .commit | .materializing _ [], .commit
  | .finalizing [], .commit | .reconciling _, .commit | .finished, .commit => some .idle
  | _, .abort => some .idle
  | _, _ => none

/-- The lock of `applyPreflight` has the ownership test in its WHERE clause. -/
def ownsPreparation (s : State) (run : RunId) (now token : ℕ) : Bool :=
  match (s.runs run).committed with
  | .present r => decide (OwnsPreparation now token r)
  | _ => false

/-- The statement or transaction end that a campaign transaction runs on `campaign_runs`. -/
def txRunEffect (s : State) (n : ℕ) : CampaignTx → TxEvent → Effect Tx RunId RunSlot
  | .evaluated ev, .lockPreparation now token =>
    if ownsPreparation s ev.run now token then .updateIn (.campaign n) (onRun some) ev.run
    else .none
  | .evaluated ev, .lockResume => .updateIn (.campaign n) (onRun some) ev.run
  | .stale (.preparation token) ev, .releaseStale now =>
    .updateIn (.campaign n) (onRun (releaseStaleAttempt now token)) ev.run
  | .checked (.preparation _) ev, .applyBlocked now =>
    .updateIn (.campaign n) (onRun fun r => some (applyBlocked now r)) ev.run
  | .inserted (.preparation _) ev, .writeRun now date =>
    .updateIn (.campaign n) (onRun fun r => some (applyReady now date ev.preflight r)) ev.run
  | .inserted .resume ev, .writeRun now date =>
    .updateIn (.campaign n) (onRun fun r => some (resume now date ev.preflight r)) ev.run
  | .idle, .lockCancel run => .updateIn (.campaign n) (onRun some) run
  | .cancellingDeliveries run [], .writeCancelled now =>
    .updateIn (.campaign n) (onRun fun r => some (cancel now r)) run
  | .idle, .lockMaterialize run _ => .updateIn (.campaign n) (onRun some) run
  | .materializeLocked run _ _, .pauseUnsendable now =>
    .updateIn (.campaign n) (onRun (pauseUnsendable now)) run
  | .finalizing ((run, hasFailure) :: _), .finalizeRow now =>
    .update (onRun fun r => some (finalize now hasFailure r)) run
  | _, .commit => .commit (.campaign n)
  | _, .abort => .abort (.campaign n)
  | _, _ => .none

def runEffect (s : State) : Event → Effect Tx RunId RunSlot
  | .createRun run input now => .update (insertRun now input) run
  | .deleteRun run cutoff => .update (deleteRunSlot cutoff) run
  | .claimPreparation run now token => .update (onRun (claimPreparation now token)) run
  | .recoverExpiredPreparation run now => .update (onRun (recoverExpiredPreparation now)) run
  | .failPreparationAttempt run now token error =>
    .update (onRun (failPreparationAttempt now token error)) run
  | .activateDue run now => .update (onRun (activateDue now)) run
  | .pause run now => .update (onRun (pause now)) run
  | .recordBlockedResume run now => .update (onRun (recordBlockedResume now)) run
  | .tx n event => txRunEffect s n (s.txs n) event
  | .core _ | .writeGroup _ _ | .writeSession _ _ => .none

/-- The keys of the target and delivery rows that go with a deleted run. -/
def cascade (s : State) (run : RunId) (cutoff : ℕ) : List TargetKey :=
  match (s.runs run).committed with
  | .present r => if DeletableRun cutoff r then r.targets.map fun g => (run, g) else []
  | _ => []

def targetEffect (s : State) : Event → Effect Tx TargetKey (Option TargetSnapshot)
  | .createRun run input _ =>
    .updateAll (fun key _ => (s.groups (input.sessionId, key.2)).map fun g => some g.snapshot)
      (input.targets.map fun g => (run, g))
  | .deleteRun run cutoff => .updateAll (fun _ _ => some none) (cascade s run cutoff)
  | .tx n event =>
    match s.txs n, event with
    | .checked fence ev, .copyRevisions =>
      .updateAllIn (.campaign n) (copySnapshot s n) (copiedKeys s n fence ev.run)
    | _, .commit => .commit (.campaign n)
    | _, .abort => .abort (.campaign n)
    | _, _ => .none
  | _ => .none

/-- The UPDATE of one selected delivery: blocked on a capability change, else linked to its job. -/
def materializeDelivery (live changed : Bool) (now : ℕ) (job : JobId) :
    Option CampaignDelivery → Option (Option CampaignDelivery)
  | none => none
  | some delivery =>
    if live && changed then some (some (blockDelivery now delivery))
    else (linkDelivery now job delivery).map some

def isLive (s : State) (n : ℕ) (run : RunId) : Bool :=
  (s.runView n run).map CampaignRun.executionMode == some .live

/-- The FOR UPDATE of a delivery row: it keeps the row as it is. -/
def lockDelivery : Option CampaignDelivery → Option (Option CampaignDelivery)
  | none => none
  | some delivery => some (some delivery)

def deliveryEffect (s : State) : Event → Effect Tx TargetKey (Option CampaignDelivery)
  | .deleteRun run cutoff => .updateAll (fun _ _ => some none) (cascade s run cutoff)
  | .tx n event =>
    match s.txs n, event with
    | .copied _ ev, .insertDeliveries now =>
      .updateAllIn (.campaign n) (fun _ => insertDelivery now) (s.targetKeys n ev.run)
    | .cancelLocked run, .insertDeliveries now =>
      .updateAllIn (.campaign n) (fun _ => insertDelivery now) (s.targetKeys n run)
    | .cancellingDeliveries run _, .cancelDelivery group now =>
      .updateIn (.campaign n) (cancelDelivery now (s.jobView n)) (run, group)
    | .materializeCounted run _, .selectPending groups =>
      .updateAllIn (.campaign n) (fun _ => lockDelivery) (groups.map fun g => (run, g))
    | .materializing run ((g, changed) :: _), .materializeNext job now _ =>
      .updateIn (.campaign n) (materializeDelivery (isLive s n run) changed now job) (run, g)
    | .reconciling jobs, .reconcileRow key now => .update (reconcile now jobs) key
    | _, .commit => .commit (.campaign n)
    | _, .abort => .abort (.campaign n)
    | _, _ => .none
  | _ => .none

/-- The job that `materializePending` creates for a delivery it does not block. -/
def materializedJob (s : State) (n : ℕ) (date : ℕ) : CampaignTx → Option (RunId × CreateInput)
  | .materializing run ((g, changed) :: _) =>
    (s.runView n run).bind fun r =>
      if r.executionMode = .live ∧ changed then none
      else some (run, ⟨r.sessionId, g, r.text, date, decide (r.executionMode = .dryRun)⟩)
  | _ => none

/-- The step of the message system inside an event, if there is one. -/
def coreEvent (s : State) : Event → Option OutboundMessageExecution.Event
  | .core event => some event
  | .tx n (.cancelJob job now) => some (.cancelJob (.campaign n) job now)
  | .tx n (.materializeNext job now date) =>
    (materializedJob s n date (s.txs n)).map fun p => .insertJob (.campaign n) job p.2 now
  | .tx n .commit => some (.commit (.campaign n))
  | .tx n .abort => some (.abort (.campaign n))
  | _ => none

/-- Some version of the delivery row refers to the job. -/
def Refers (s : State) (key : TargetKey) (job : JobId) : Prop :=
  link (s.deliveries key).committed = some job ∨
    ((s.deliveries key).held.bind fun p => link p.2) = some job

instance (s : State) (key : TargetKey) (job : JobId) : Decidable (Refers s key job) :=
  inferInstanceAs (Decidable (_ ∨ _))

/-- Steps of the message system outside campaign transactions. Nothing else cancels jobs, and
retention keeps the jobs that a delivery refers to: its SELECT leaves them out, and the foreign
key refuses to delete one that an open transaction has just linked. -/
def Outside (s : State) : OutboundMessageExecution.Event → Prop
  | .cancelJob _ _ _ => False
  | .insertJob t job _ _ => (∀ n, t ≠ .campaign n) ∧ (s.core.jobs job).committed = .unused
  | .commit t | .abort t => ∀ n, t ≠ .campaign n
  | .deleteJob job _ => ∀ key ∈ s.jobOwner job, ¬ Refers s key job
  | _ => True

def campaignOf : Tx → Option RunId
  | .campaign n => some n
  | .dispatcher _ | .worker _ | .webhook _ | .api _ => none

theorem campaignOf_none_iff (t : Tx) : campaignOf t = none ↔ ∀ n, t ≠ .campaign n := by
  cases t <;> simp [campaignOf]

instance (t : Tx) : Decidable (∀ n, t ≠ .campaign n) :=
  decidable_of_iff _ (campaignOf_none_iff t)

instance (s : State) : (e : OutboundMessageExecution.Event) → Decidable (Outside s e)
  | .cancelJob _ _ _ => isFalse id
  | .insertJob _ _ _ _ => inferInstanceAs (Decidable (_ ∧ _))
  | .commit t => inferInstanceAs (Decidable (∀ n, t ≠ .campaign n))
  | .abort t => inferInstanceAs (Decidable (∀ n, t ≠ .campaign n))
  | .deleteJob job _ => inferInstanceAs (Decidable (∀ key ∈ s.jobOwner job, ¬ Refers s key job))
  | .tick _ | .webhookStatus _ _ _ _ _ | .lockDue _ _ _ | .queueClaimed _ _ | .commitClaim _ _
  | .publish _ _ | .publishFails _ _ _ _ | .resetQueued _ _ | .nextTick _ | .dispatcherStops _
  | .recoverStaleQueued _ _ | .markExpiredProcessingUnknown _ _ | .deliver _ _
  | .markProcessing _ _ _ | .markProcessingLost _ _ | .startFails _ | .work _ _ | .settle _
  | .crash _ => isTrue trivial

/-- The job that is created takes its scope and key from the delivery it is created for. -/
def ownerAfter (s : State) : CampaignTx → TxEvent → JobId → Option TargetKey
  | .materializing run ((g, _) :: _), .materializeNext job _ _ =>
    Function.update s.jobOwner job (some (run, g))
  | _, _ => s.jobOwner

/-- Everything but the tables: guards, the stage of the transaction, groups and sessions. -/
def moveParties (s : State) : Event → Option State
  | .core event =>
    match event with
    | .insertJob _ job _ _ =>
      guarded (Outside s event) { s with jobOwner := Function.update s.jobOwner job none }
    | _ => guarded (Outside s event) s
  | .writeGroup key group => some { s with groups := Function.update s.groups key (some group) }
  | .writeSession session state =>
    some { s with sessions := Function.update s.sessions session (some state) }
  | .createRun run input now =>
    guarded (now ≤ s.core.clock ∧ (s.runs run).committed = .unused ∧ input.targets.Nodup ∧
      input.targets.all fun g => (s.groups (input.sessionId, g)).isSome) s
  | .deleteRun _ _ => some s
  | .claimPreparation _ now _ | .recoverExpiredPreparation _ now | .failPreparationAttempt _ now _ _
  | .activateDue _ now | .pause _ now | .recordBlockedResume _ now =>
    guarded (now ≤ s.core.clock) s
  | .tx n event =>
    match txNext s n (s.txs n) event with
    | none => none
    | some stage =>
      some { s with
        txs := Function.update s.txs n stage
        jobOwner := ownerAfter s (s.txs n) event }

def coreStep (c : Config) (s : State) (e : Event) : Option OutboundMessageExecution.State :=
  match coreEvent s e with
  | none => some s.core
  | some event => OutboundMessageExecution.step c s.core event

/-- No row that the event's statements need is locked. -/
def Ready (s : State) (e : Event) : Prop :=
  (runEffect s e).Ready s.runs ∧ (targetEffect s e).Ready s.targets ∧
    (deliveryEffect s e).Ready s.deliveries

instance (s : State) (e : Event) : Decidable (Ready s e) := inferInstanceAs (Decidable (_ ∧ _ ∧ _))

def step (c : Config) (s : State) (e : Event) : Option State :=
  match moveParties s e, coreStep c s e with
  | some v, some core =>
    guarded (Ready s e) { v with
      core := core
      runs := (runEffect s e).apply s.runs
      targets := (targetEffect s e).apply s.targets
      deliveries := (deliveryEffect s e).apply s.deliveries }
  | _, _ => none

def system (c : Config) : System State Event := ofStep (· = initial) (step c)

instance (c : Config) (s : State) (e : Event) : Decidable ((system c).enabled s e) :=
  inferInstanceAs (Decidable ((step c s e).isSome = true))

theorem step_some {c : Config} {s u : State} {e : Event} (h : step c s e = some u) :
    ∃ v core, moveParties s e = some v ∧ coreStep c s e = some core ∧ Ready s e ∧
      u = { v with
        core := core
        runs := (runEffect s e).apply s.runs
        targets := (targetEffect s e).apply s.targets
        deliveries := (deliveryEffect s e).apply s.deliveries } := by
  unfold step at h
  split at h
  · rename_i v core hv hc
    obtain ⟨hr, rfl⟩ := guarded_eq_some.mp h
    exact ⟨v, core, hv, hc, hr, rfl⟩
  · cases h

section Frames

variable {c : Config} {s u v : State} {e : Event} {n : ℕ} {event : TxEvent}

theorem lockedOn_some {run : RunId} {statuses : List CampaignRunStatus}
    {next : CampaignRun → CampaignTx} {k : CampaignTx} (h : lockedOn s run statuses next = some k) :
    k = .finished ∨ ∃ r, (s.runs run).Free ∧ (s.runs run).committed = .present r ∧
      r.status ∈ statuses ∧ k = next r := by
  unfold lockedOn at h
  split at h
  · rename_i r hr
    obtain ⟨hfree, hk⟩ := guarded_eq_some.mp h
    split at hk
    · rename_i hs
      exact .inr ⟨r, hfree, hr, hs, hk.symm⟩
    · exact .inl hk.symm
  · cases h
    exact .inl rfl

/-- Leaving the campaign tables out, every run is a run of the message system. -/
theorem projects_to_messages (c : Config) :
    Projects (system c) (OutboundMessageExecution.system c) State.core := by
  refine projects_ofStep ?_ ?_
  · rintro _ rfl
    rfl
  · intro s e u h
    obtain ⟨v, core, _, hc, _, rfl⟩ := step_some h
    unfold coreStep at hc
    split at hc
    · cases hc
      exact ⟨[], Execution.refl⟩
    · rename_i event _
      exact ⟨[event], ofStep_execution hc⟩

theorem other_tx_unchanged (h : moveParties s e = some v) (ha : ∀ event, e ≠ .tx n event) :
    v.txs n = s.txs n := by
  cases e <;> simp only [moveParties] at h
  case tx m event =>
    split at h
    · cases h
    · cases h
      have hnm : n ≠ m := fun hm => ha event (by rw [hm])
      exact Function.update_of_ne hnm _ _
  case core event =>
    split at h <;> obtain ⟨_, rfl⟩ := guarded_eq_some.mp h <;> rfl
  all_goals
    simp only [guarded_eq_some, Option.some.injEq] at h
    first
    | subst h
    | obtain ⟨_, rfl⟩ := h
    rfl

theorem tx_moves (h : moveParties s (.tx n event) = some v) :
    txNext s n (s.txs n) event = some (v.txs n) := by
  simp only [moveParties] at h
  split at h
  · cases h
  · rename_i stage hs
    cases h
    simpa using hs

theorem run_effect_owner {t : Tx} (h : (runEffect s e).owner = some t) :
    ∃ m event, e = .tx m event ∧ t = .campaign m := by
  cases e <;> simp only [runEffect] at h
  case tx m event =>
    refine ⟨m, event, rfl, ?_⟩
    unfold txRunEffect at h
    split at h
    case h_1 =>
      split at h
      · cases h
        rfl
      · cases h
    all_goals first | (cases h; rfl) | cases h
  all_goals cases h

theorem delivery_effect_owner {t : Tx} (h : (deliveryEffect s e).owner = some t) :
    ∃ m event, e = .tx m event ∧ t = .campaign m := by
  cases e <;> simp only [deliveryEffect] at h
  case tx m event =>
    refine ⟨m, event, rfl, ?_⟩
    split at h <;> first | (cases h; rfl) | cases h
  all_goals cases h

end Frames

end CampaignExecution
