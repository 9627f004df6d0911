import Mathlib.Data.Rat.Defs
import Mathlib.Algebra.Order.Ring.Rat
import WaRuntime.CampaignAggregates
import WaRuntime.GatewaySyncItemStatements
import WaRuntime.GroupCapabilityRevision

/-! Sync runs, the discovery of a session's groups and the items that a discovery selects.
A publication locks its run, the groups that it finds and its session until it commits, and is one
step; `unseen` are the groups that others have inserted since it has read the session's groups.
`refreshParent` follows a change of an item sooner or later, or not at all. -/
namespace GatewayDiscovery

open TransitionRuns
open GroupCapabilityStatements (GroupRow Expired Unexpired)
open GroupCapabilityRevision (GroupKey GroupEvent replaceSummary)
open GatewaySyncItemStatements (SyncItemRow insertItem)

abbrev SessionId := String

abbrev GroupId := String

abbrev RunId := ℕ

structure OpenWAGroupSummary where
  id : GroupId
  name : String
  participantsCount : Option ℕ
  isAdmin : Option Bool
  linkedParentJID : Option String
  deriving DecidableEq, Repr

inductive GatewaySyncMode where
  | full
  | incremental
  deriving DecidableEq, Repr

inductive SyncRunStatus where
  | pending
  | running
  | completed
  | failed
  deriving DecidableEq, Repr

inductive SyncRunPhase where
  | discovering
  | reconciling
  | completed
  deriving DecidableEq, Repr

inductive Reason where
  | full
  | missingDetails
  | capabilityInvalidated
  | summaryNotReconciled
  | detailsStale
  deriving DecidableEq, Repr

/-- `dropBelow baseline` is `baseline * GATEWAY_SYNC_SNAPSHOT_DROP_RATIO` as JavaScript rounds it,
and the digests are SHA-256 of JSON texts: of the ids of a snapshot, and of one summary. -/
structure Config (Hash : Type) where
  minBaseline : ℕ
  dropBelow : ℕ → ℚ
  confirmations : ℕ
  confirmations_min : 2 ≤ confirmations
  itemMaxAttempts : ℕ
  snapshotDigest : List GroupId → Hash
  summaryDigest : OpenWAGroupSummary → Hash

/-- The columns of `gateway_sessions` about snapshots. -/
structure SessionRow (Hash : Type) where
  groupSnapshotCount : Option ℕ
  suspiciousFingerprint : Option Hash
  suspiciousCount : Option ℕ
  suspiciousConfirmations : ℕ
  deriving DecidableEq, Repr

/-- The capability columns of `gateway_groups`, and the fingerprints. -/
structure GatewayGroup (Hash : Type) where
  row : GroupRow
  summaryFingerprint : Option Hash
  reconciledSummaryFingerprint : Option Hash
  deriving DecidableEq, Repr

structure SyncRun where
  sessionId : SessionId
  mode : GatewaySyncMode
  status : SyncRunStatus
  phase : SyncRunPhase
  attemptCount : ℕ
  nextAttemptAt : ℕ
  syncEpoch : Option ℕ
  leaseToken : Option ℕ
  leaseExpiresAt : Option ℕ
  groupsDiscovered : ℕ
  groupsScheduled : ℕ
  error : Option String
  completedAt : Option ℕ
  deriving DecidableEq, Repr

structure Item (Hash : Type) where
  row : SyncItemRow
  ordinal : ℕ
  reason : Reason
  observedSummaryFingerprint : Option Hash
  deriving DecidableEq, Repr

structure SyncWriteFence where
  syncRunId : RunId
  leaseToken : ℕ
  syncEpoch : ℕ
  deriving DecidableEq, Repr

/-- `groupIds` are the ids of the rows of each session. -/
structure State (Hash : Type) where
  sessions : SessionId → Option (SessionRow Hash)
  groups : GroupKey → Option (GatewayGroup Hash)
  groupIds : SessionId → List GroupId
  fences : SessionId → ℕ
  runs : RunId → Option SyncRun
  runIds : List RunId
  items : RunId → List (Item Hash)

variable {Hash : Type}

def initial : State Hash where
  sessions := fun _ => none
  groups := fun _ => none
  groupIds := fun _ => []
  fences := fun _ => 0
  runs := fun _ => none
  runIds := []
  items := fun _ => []

section Runs

def runLeaseMs : ℕ := 120000

def maxRunAttempts : ℕ := 3

def insertRun (now : ℕ) (sessionId : SessionId) (mode : GatewaySyncMode) : SyncRun where
  sessionId := sessionId
  mode := mode
  status := .pending
  phase := .discovering
  attemptCount := 0
  nextAttemptAt := now
  syncEpoch := none
  leaseToken := none
  leaseExpiresAt := none
  groupsDiscovered := 0
  groupsScheduled := 0
  error := none
  completedAt := none

def State.hasStatus (s : State Hash) (sessionId : SessionId) (statuses : List SyncRunStatus) :
    Bool :=
  s.runIds.any fun r => (s.runs r).any fun run =>
    run.sessionId == sessionId && decide (run.status ∈ statuses)

def claimRun (now token epoch : ℕ) (run : SyncRun) : Option SyncRun :=
  if run.status = .pending ∧ run.attemptCount < maxRunAttempts ∧ run.nextAttemptAt ≤ now then
    some { run with
      status := .running
      attemptCount := run.attemptCount + 1
      syncEpoch := some epoch
      leaseToken := some token
      leaseExpiresAt := some (now + runLeaseMs)
      phase := .discovering
      groupsDiscovered := 0
      groupsScheduled := 0
      error := none
      completedAt := none }
  else none

/-- The WHERE clause of a run's worker. -/
def RunOwned (now token : ℕ) (run : SyncRun) : Prop :=
  run.status = .running ∧ run.leaseToken = some token ∧ Unexpired now run.leaseExpiresAt

instance (now token : ℕ) (run : SyncRun) : Decidable (RunOwned now token run) :=
  inferInstanceAs (Decidable (_ ∧ _))

def renewRun (now token : ℕ) (run : SyncRun) : Option SyncRun :=
  if RunOwned now token run then some { run with leaseExpiresAt := some (now + runLeaseMs) }
  else none

/-- Back to PENDING, or FAILED after the last attempt. -/
def endAttempt (now nextAttemptAt : ℕ) (error : String) (run : SyncRun) : SyncRun :=
  let exhausted := maxRunAttempts ≤ run.attemptCount
  { run with
    status := if exhausted then .failed else .pending
    syncEpoch := if exhausted then run.syncEpoch else none
    nextAttemptAt := if exhausted then run.nextAttemptAt else nextAttemptAt
    leaseToken := none
    leaseExpiresAt := none
    error := some error
    completedAt := if exhausted then some now else none }

def recoverExpiredRun (now : ℕ) (run : SyncRun) : Option SyncRun :=
  if run.status = .running ∧ Expired now run.leaseExpiresAt then
    some (endAttempt now now "Recovered expired sync lease" run)
  else none

def failAttempt (now token : ℕ) (error : String) (run : SyncRun) : Option SyncRun :=
  if RunOwned now token run then
    some (endAttempt now (now + min 300 (5 * 2 ^ (run.attemptCount - 1)) * 1000) error run)
  else none

/-- `refreshParent`, of the columns modelled here. -/
def refreshParent (now : ℕ) (items : List (Item Hash)) (run : SyncRun) : SyncRun :=
  let failed := items.countP fun item => item.row.status == .failed
  if items.any fun item => !decide item.row.Terminal then
    { run with phase := .reconciling, completedAt := none }
  else
    { run with
      phase := .completed
      status := if 0 < failed then .failed else .completed
      error := if 0 < failed then some (toString failed ++ " group reconciliations failed")
        else run.error
      completedAt := some now }

end Runs

section Discovery

variable (c : Config Hash) (s : State Hash)

def snapshotFingerprint (groups : List OpenWAGroupSummary) : Hash :=
  c.snapshotDigest (CampaignAggregates.sort (groups.map OpenWAGroupSummary.id))

/-- `assertDiscoveryOwnership`, with the run that it finds. -/
def ownedRun (now : ℕ) (fence : SyncWriteFence) : Option SyncRun :=
  (s.runs fence.syncRunId).filter fun run =>
    decide (RunOwned now fence.leaseToken run ∧ run.syncEpoch = some fence.syncEpoch ∧
      s.fences run.sessionId = fence.syncEpoch)

/-- The groups that the publication has read, and the row that it has read of one. -/
def existing (sessionId : SessionId) (unseen : List GroupId) : List GroupId :=
  (s.groupIds sessionId).filter (· ∉ unseen)

def before (sessionId : SessionId) (unseen : List GroupId) (g : GroupId) :
    Option (GatewayGroup Hash) :=
  if g ∈ unseen then none else s.groups (sessionId, g)

def baseline (session : SessionRow Hash) (existing : List GroupId) : ℕ :=
  session.groupSnapshotCount.getD existing.length

def Suspicious (baseline count : ℕ) : Prop :=
  c.minBaseline ≤ baseline ∧ (count : ℚ) < c.dropBelow baseline

instance (baseline count : ℕ) : Decidable (Suspicious c baseline count) :=
  inferInstanceAs (Decidable (_ ∧ _))

/-- `confirmations` of a suspicious snapshot. -/
def confirmations [DecidableEq Hash] (session : SessionRow Hash) (fingerprint : Hash) (count : ℕ) :
    ℕ :=
  if session.suspiciousFingerprint = some fingerprint ∧ session.suspiciousCount = some count then
    session.suspiciousConfirmations + 1
  else 1

/-- The reason for which a listed group is selected, if there is one. -/
def reason [DecidableEq Hash] (mode : GatewaySyncMode) (staleBefore : ℕ)
    (before : Option (GatewayGroup Hash)) (fingerprint : Hash) : Option Reason :=
  if mode = .full then some .full
  else
    match before with
    | none => some .missingDetails
    | some group =>
      match group.row.detailsSyncedAt with
      | none => some .missingDetails
      | some detailsSyncedAt =>
        if group.row.capabilityInvalidatedAt.isSome then some .capabilityInvalidated
        else if group.reconciledSummaryFingerprint ≠ some fingerprint then
          some .summaryNotReconciled
        else if detailsSyncedAt < staleBefore then some .detailsStale
        else none

/-- The rows that are inserted into `gateway_sync_items`. -/
def selected [DecidableEq Hash] (now staleBefore : ℕ) (r : RunId) (run : SyncRun)
    (unseen : List GroupId) (groups : List OpenWAGroupSummary) : List (Item Hash) :=
  groups.zipIdx.filterMap fun (group, ordinal) =>
    (reason run.mode staleBefore (before s run.sessionId unseen group.id)
      (c.summaryDigest group)).map fun reason =>
        ⟨insertItem now r group.id, ordinal, reason, some (c.summaryDigest group)⟩

/-- `replaceSummaries` and the UPDATE of the fingerprint, on one row of the session. -/
def publishedGroup (now : ℕ) (listed : Option OpenWAGroupSummary)
    (group : Option (GatewayGroup Hash)) : Option (GatewayGroup Hash) :=
  (replaceSummary now (listed.map fun summary => ⟨summary.isAdmin⟩)
    (group.map GatewayGroup.row)).map fun row =>
      { row := row
        summaryFingerprint :=
          (listed.map c.summaryDigest).or (group.bind GatewayGroup.summaryFingerprint)
        reconciledSummaryFingerprint := group.bind GatewayGroup.reconciledSummaryFingerprint }

structure DiscoveryResult where
  discovered : ℕ
  scheduled : ℕ
  completed : Bool
  deferred : Bool
  deriving DecidableEq, Repr

/-- The attempt is given back. -/
def deferredRun (now : ℕ) (run : SyncRun) : SyncRun :=
  { run with
    status := .pending
    syncEpoch := none
    attemptCount := run.attemptCount - 1
    nextAttemptAt := now + 5000
    leaseToken := none
    leaseExpiresAt := none
    error := some "SUSPICIOUS_GROUP_SNAPSHOT" }

def publishedRun (now discovered scheduled : ℕ) (run : SyncRun) : SyncRun :=
  { run with
    phase := if scheduled = 0 then .completed else .reconciling
    groupsDiscovered := discovered
    groupsScheduled := scheduled
    status := if scheduled = 0 then .completed else run.status
    completedAt := if scheduled = 0 then some now else none
    leaseToken := none
    leaseExpiresAt := none
    error := none }

variable [DecidableEq Hash]

def defer (now : ℕ) (r : RunId) (run : SyncRun) (session : SessionRow Hash)
    (groups : List OpenWAGroupSummary) (confirmations : ℕ) : State Hash :=
  { s with
    sessions := Function.update s.sessions run.sessionId (some { session with
      suspiciousFingerprint := some (snapshotFingerprint c groups)
      suspiciousCount := some groups.length
      suspiciousConfirmations := confirmations })
    runs := Function.update s.runs r (some (deferredRun now run)) }

def publish (now staleBefore : ℕ) (r : RunId) (run : SyncRun) (unseen : List GroupId)
    (groups : List OpenWAGroupSummary) : State Hash :=
  let items := selected c s now staleBefore r run unseen groups
  { s with
    sessions := Function.update s.sessions run.sessionId (some ⟨some groups.length, none, none, 0⟩)
    groups := fun key =>
      if key.1 = run.sessionId then
        publishedGroup c now (groups.find? fun group => group.id = key.2) (s.groups key)
      else s.groups key
    groupIds := Function.update s.groupIds run.sessionId (s.groupIds run.sessionId ++
      (groups.map OpenWAGroupSummary.id).filter (· ∉ s.groupIds run.sessionId))
    items := Function.update s.items r (s.items r ++ items.filter fun item =>
      !(s.items r).any fun old => old.row.groupId == item.row.groupId)
    runs := Function.update s.runs r (some (publishedRun now groups.length items.length run)) }

/-- `perform` has upserted the session before, and `listGroups` refuses a list with two groups of
one id. -/
def publishDiscovery (now staleBefore : ℕ) (fence : SyncWriteFence) (unseen : List GroupId)
    (groups : List OpenWAGroupSummary) : Option (State Hash × DiscoveryResult) :=
  match ownedRun s now fence with
  | none => none
  | some run =>
    match s.sessions run.sessionId with
    | none => none
    | some session =>
      let count := groups.length
      let confirmations := confirmations session (snapshotFingerprint c groups) count
      if ¬ (groups.map OpenWAGroupSummary.id).Nodup then none
      else if Suspicious c (baseline session (existing s run.sessionId unseen)) count ∧
          confirmations < c.confirmations then
        some (defer c s now fence.syncRunId run session groups confirmations,
          ⟨count, 0, false, true⟩)
      else
        let scheduled :=
          (selected c s now staleBefore fence.syncRunId run unseen groups).length
        some (publish c s now staleBefore fence.syncRunId run unseen groups,
          ⟨count, scheduled, decide (scheduled = 0), false⟩)

variable {c s}

/-- What a publication can do. -/
theorem publishDiscovery_some {u : State Hash} {now staleBefore : ℕ} {fence : SyncWriteFence}
    {unseen : List GroupId} {groups : List OpenWAGroupSummary} {result : DiscoveryResult}
    (h : publishDiscovery c s now staleBefore fence unseen groups = some (u, result)) :
    ∃ run session, ownedRun s now fence = some run ∧ s.sessions run.sessionId = some session ∧
      (groups.map OpenWAGroupSummary.id).Nodup ∧
      ((Suspicious c (baseline session (existing s run.sessionId unseen)) groups.length ∧
          confirmations session (snapshotFingerprint c groups) groups.length < c.confirmations ∧
          result.deferred = true ∧
          u = defer c s now fence.syncRunId run session groups
            (confirmations session (snapshotFingerprint c groups) groups.length)) ∨
        ((Suspicious c (baseline session (existing s run.sessionId unseen)) groups.length →
            c.confirmations ≤
              confirmations session (snapshotFingerprint c groups) groups.length) ∧
          result.deferred = false ∧
          u = publish c s now staleBefore fence.syncRunId run unseen groups)) := by
  unfold publishDiscovery at h
  split at h
  · cases h
  rename_i run hrun
  split at h
  · cases h
  rename_i session hsession
  simp only at h
  split at h
  · cases h
  rename_i hnodup
  refine ⟨run, session, hrun, hsession, not_not.mp hnodup, ?_⟩
  split at h
  · rename_i hdefer
    cases h
    exact .inl ⟨hdefer.1, hdefer.2, rfl, rfl⟩
  · rename_i hpublish
    cases h
    exact .inr ⟨fun hsuspicious => not_lt.mp fun hlt => hpublish ⟨hsuspicious, hlt⟩, rfl, rfl⟩

end Discovery

/-- What happens to an item of a run. -/
inductive ItemEvent where
  | claim (now token : ℕ)
  | renewLease (now token : ℕ)
  | renewAfterWrite (time token : ℕ)
  | complete (now token members : ℕ)
  | skip (now token : ℕ) (error : String)
  | fail (now token random : ℕ) (error : String) (retryable : Bool)
  | recoverExpired (now : ℕ)
  deriving DecidableEq, Repr

def ItemEvent.write (maxAttempts : ℕ) : ItemEvent → SyncItemRow → Option SyncItemRow
  | .claim now token => GatewaySyncItemStatements.claim maxAttempts now token
  | .renewLease now token => GatewaySyncItemStatements.renewLease now token
  | .renewAfterWrite time token => GatewaySyncItemStatements.renewAfterWrite time token
  | .complete now token members => GatewaySyncItemStatements.complete now token members
  | .skip now token error => GatewaySyncItemStatements.skip now token error
  | .fail now token random error retryable =>
    GatewaySyncItemStatements.fail maxAttempts now token random error retryable
  | .recoverExpired now => GatewaySyncItemStatements.recoverExpired maxAttempts now

inductive Event where
  | upsertSession (sessionId : SessionId)
  | createRun (r : RunId) (now : ℕ) (sessionId : SessionId) (mode : GatewaySyncMode)
  | claimRun (r : RunId) (now token : ℕ)
  | renewRun (r : RunId) (now token : ℕ)
  | recoverExpiredRun (r : RunId) (now : ℕ)
  | failAttempt (r : RunId) (now token : ℕ) (error : String)
  | refreshParent (r : RunId) (now : ℕ)
  | deleteRun (r : RunId)
  | publishDiscovery (now staleBefore : ℕ) (fence : SyncWriteFence) (unseen : List GroupId)
      (groups : List OpenWAGroupSummary)
  | item (r : RunId) (g : GroupId) (event : ItemEvent)
  | group (event : GroupEvent)

/-- An UPDATE of one run. -/
def updateRun (s : State Hash) (r : RunId) (f : SyncRun → Option SyncRun) : Option (State Hash) :=
  ((s.runs r).bind f).map fun run => { s with runs := Function.update s.runs r (some run) }

/-- An UPDATE of one item, and what `complete` does to its group. -/
def updateItem (maxAttempts : ℕ) (s : State Hash) (r : RunId) (g : GroupId) (event : ItemEvent) :
    Option (State Hash) :=
  match s.runs r, (s.items r).find? fun item => item.row.groupId = g with
  | some run, some item =>
    (event.write maxAttempts item.row).map fun row =>
      { s with
        items := Function.update s.items r ((s.items r).map fun old =>
          if old.row.groupId = g then { old with row := row } else old)
        groups :=
          match event with
          | .complete _ _ _ =>
            Function.update s.groups (run.sessionId, g) ((s.groups (run.sessionId, g)).map
              fun group => { group with
                reconciledSummaryFingerprint :=
                  item.observedSummaryFingerprint.or group.reconciledSummaryFingerprint })
          | _ => s.groups }
  | _, _ => none

/-- A write of the capability columns; a details write may insert the row. -/
def updateGroups (s : State Hash) (event : GroupEvent) : State Hash :=
  let rows := GroupCapabilityRevision.next (fun key => (s.groups key).map GatewayGroup.row) event
  { s with
    groups := fun key => (rows key).map fun row =>
      { row := row
        summaryFingerprint := (s.groups key).bind GatewayGroup.summaryFingerprint
        reconciledSummaryFingerprint := (s.groups key).bind GatewayGroup.reconciledSummaryFingerprint }
    groupIds :=
      match event with
      | .upsertGroupDetails key _ _ _ _ =>
        if (s.groups key).isNone ∧ (rows key).isSome then
          Function.update s.groupIds key.1 (s.groupIds key.1 ++ [key.2])
        else s.groupIds
      | _ => s.groupIds }

def step [DecidableEq Hash] (c : Config Hash) (s : State Hash) : Event → Option (State Hash)
  | .upsertSession sessionId => some { s with
      sessions := Function.update s.sessions sessionId
        (some ((s.sessions sessionId).getD ⟨none, none, none, 0⟩)) }
  | .createRun r now sessionId mode =>
    guarded (s.runs r = none ∧ r ∉ s.runIds ∧ s.hasStatus sessionId [.pending, .running] = false)
      { s with
        runs := Function.update s.runs r (some (insertRun now sessionId mode))
        runIds := r :: s.runIds }
  | .claimRun r now token =>
    match s.runs r with
    | some run =>
      if s.hasStatus run.sessionId [.running] then none
      else
        (updateRun s r (claimRun now token (s.fences run.sessionId + 1))).map fun u =>
          { u with fences := Function.update s.fences run.sessionId (s.fences run.sessionId + 1) }
    | none => none
  | .renewRun r now token => updateRun s r (renewRun now token)
  | .recoverExpiredRun r now => updateRun s r (recoverExpiredRun now)
  | .failAttempt r now token error => updateRun s r (failAttempt now token error)
  | .refreshParent r now =>
    if s.items r = [] then none
    else updateRun s r fun run => some (refreshParent now (s.items r) run)
  | .deleteRun r =>
    match s.runs r with
    | some run => guarded (run.status ∈ [.completed, .failed]) { s with
        runs := Function.update s.runs r none
        items := Function.update s.items r [] }
    | none => none
  | .publishDiscovery now staleBefore fence unseen groups =>
    (publishDiscovery c s now staleBefore fence unseen groups).map Prod.fst
  | .item r g event =>
    match event, s.runs r with
    | .claim _ _, some run =>
      if run.status = .running then updateItem c.itemMaxAttempts s r g event else none
    | _, _ => updateItem c.itemMaxAttempts s r g event
  | .group event =>
    match event with
    | .replaceSummaries _ _ _ => none
    | _ => some (updateGroups s event)

def system [DecidableEq Hash] (c : Config Hash) : System (State Hash) Event :=
  ofStep (· = initial) (step c)

instance [DecidableEq Hash] (c : Config Hash) (s : State Hash) (e : Event) :
    Decidable ((system c).enabled s e) :=
  inferInstanceAs (Decidable ((step c s e).isSome = true))

/-- Digests that keep what they digest, and the ratio of the defaults. -/
def plainConfig : Config (List String) where
  minBaseline := 2
  dropBelow baseline := baseline / 4
  confirmations := 2
  confirmations_min := le_rfl
  itemMaxAttempts := 1
  snapshotDigest groupIds := groupIds
  summaryDigest group :=
    [group.id, group.name, (group.participantsCount.map toString).getD "null",
      (group.isAdmin.map toString).getD "null", group.linkedParentJID.getD "null"]

section Steps

variable {c : Config Hash} {s u : State Hash} {e : Event} {r : RunId} {g : GroupId}
  {maxAttempts : ℕ}

theorem updateRun_some {f : SyncRun → Option SyncRun} (h : updateRun s r f = some u) :
    ∃ run new, s.runs r = some run ∧ f run = some new ∧
      u = { s with runs := Function.update s.runs r (some new) } := by
  obtain ⟨new, hnew, rfl⟩ := Option.map_eq_some_iff.mp h
  obtain ⟨run, hrun, hf⟩ := Option.bind_eq_some_iff.mp hnew
  exact ⟨run, new, hrun, hf, rfl⟩

theorem updateItem_some {event : ItemEvent} (h : updateItem maxAttempts s r g event = some u) :
    ∃ run item row, s.runs r = some run ∧ item ∈ s.items r ∧ item.row.groupId = g ∧
      event.write maxAttempts item.row = some row ∧
      u = { s with
        items := Function.update s.items r ((s.items r).map fun old =>
          if old.row.groupId = g then { old with row := row } else old)
        groups := u.groups } ∧
      (u.groups = s.groups ∨ ∃ now token members, event = .complete now token members ∧
        u.groups = Function.update s.groups (run.sessionId, g)
          ((s.groups (run.sessionId, g)).map fun group => { group with
            reconciledSummaryFingerprint :=
              item.observedSummaryFingerprint.or group.reconciledSummaryFingerprint })) := by
  unfold updateItem at h
  split at h
  · rename_i run item hrun hitem
    obtain ⟨row, hrow, rfl⟩ := Option.map_eq_some_iff.mp h
    have hg : item.row.groupId = g := by simpa using List.find?_some hitem
    refine ⟨run, item, row, hrun, List.mem_of_find?_eq_some hitem, hg, hrow, rfl, ?_⟩
    cases event with
    | complete now token members => exact .inr ⟨now, token, members, rfl, rfl⟩
    | _ => exact .inl rfl
  · cases h

theorem ownedRun_some {now : ℕ} {fence : SyncWriteFence} {run : SyncRun}
    (h : ownedRun s now fence = some run) :
    s.runs fence.syncRunId = some run ∧ RunOwned now fence.leaseToken run := by
  obtain ⟨hrun, howned⟩ := Option.filter_eq_some_iff.mp h
  exact ⟨hrun, (of_decide_eq_true howned).1⟩

/-- What a step does to the row of a run. -/
inductive RunWrite (s : State Hash) (r : RunId) : Option SyncRun → Option SyncRun → Prop
  | keep row : RunWrite s r row row
  | insert now sessionId mode : RunWrite s r none (some (insertRun now sessionId mode))
  | claim {now token epoch run new} : claimRun now token epoch run = some new →
      RunWrite s r (some run) (some new)
  | renew {now token run new} : renewRun now token run = some new → RunWrite s r (some run) (some new)
  | endAttempt {now at' error run} : run.leaseExpiresAt.isSome →
      RunWrite s r (some run) (some (endAttempt now at' error run))
  | refresh {now run} : s.items r ≠ [] →
      RunWrite s r (some run) (some (refreshParent now (s.items r) run))
  | delete {run} : RunWrite s r (some run) none
  | defer {now token run} : RunOwned now token run →
      RunWrite s r (some run) (some (deferredRun now run))
  | publish {now token discovered scheduled run} : RunOwned now token run →
      RunWrite s r (some run) (some (publishedRun now discovered scheduled run))

theorem write_update {q : RunId} {new : Option SyncRun} (h : RunWrite s q (s.runs q) new)
    (r : RunId) : RunWrite s r (s.runs r) (Function.update s.runs q new r) := by
  by_cases hr : r = q
  · subst hr
    simpa using h
  · rw [Function.update_of_ne hr]
    exact .keep _

theorem write_updateRun {q : RunId} {f : SyncRun → Option SyncRun}
    (hf : ∀ run new, f run = some new → RunWrite s q (some run) (some new))
    (h : updateRun s q f = some u) (r : RunId) : RunWrite s r (s.runs r) (u.runs r) := by
  obtain ⟨run, new, hrun, hnew, rfl⟩ := updateRun_some h
  refine write_update ?_ r
  rw [hrun]
  exact hf run new hnew

/-- An event of the runs alone. -/
structure RunsOnly (s u : State Hash) : Prop where
  sessions : u.sessions = s.sessions
  groups : u.groups = s.groups
  groupIds : u.groupIds = s.groupIds
  items : ∀ r, u.items r = [] ∨ u.items r = s.items r ∧ (u.runs r = none → s.runs r = none)
  runs : ∀ r, RunWrite s r (s.runs r) (u.runs r)

theorem none_of_update {q : RunId} {run : SyncRun}
    (h : Function.update s.runs r (some run) q = none) : s.runs q = none := by
  by_cases hq : q = r
  · subst hq
    simp at h
  · rwa [Function.update_of_ne hq] at h

theorem runsOnly_updateRun {f : SyncRun → Option SyncRun}
    (hf : ∀ run new, f run = some new → RunWrite s r (some run) (some new))
    (h : updateRun s r f = some u) : RunsOnly s u := by
  have hruns := write_updateRun hf h
  obtain ⟨run, new, _, _, rfl⟩ := updateRun_some h
  exact ⟨rfl, rfl, rfl, fun q => .inr ⟨rfl, none_of_update⟩, hruns⟩

theorem step_cases [DecidableEq Hash] (h : step c s e = some u) :
    (∃ sessionId, u = { s with
      sessions := Function.update s.sessions sessionId
        (some ((s.sessions sessionId).getD ⟨none, none, none, 0⟩)) }) ∨
    RunsOnly s u ∨
    (∃ now staleBefore fence unseen groups result,
      e = .publishDiscovery now staleBefore fence unseen groups ∧
      publishDiscovery c s now staleBefore fence unseen groups = some (u, result)) ∨
    (∃ r g event, e = .item r g event ∧ updateItem c.itemMaxAttempts s r g event = some u) ∨
    ∃ event, (∀ sessionId now listed, event ≠ .replaceSummaries sessionId now listed) ∧
      e = .group event ∧ u = updateGroups s event := by
  cases e with
  | upsertSession sessionId =>
    cases h
    exact .inl ⟨sessionId, rfl⟩
  | createRun q now sessionId mode =>
    obtain ⟨hfree, rfl⟩ := guarded_eq_some.mp h
    refine .inr (.inl ⟨rfl, rfl, rfl, fun _ => .inr ⟨rfl, none_of_update⟩, write_update ?_⟩)
    rw [hfree.1]
    exact .insert now sessionId mode
  | claimRun q now token =>
    simp only [step] at h
    split at h
    · split at h
      · cases h
      · obtain ⟨v, hv, rfl⟩ := Option.map_eq_some_iff.mp h
        obtain ⟨hsessions, hgroups, hids, hitems, hruns⟩ :=
          runsOnly_updateRun (fun _ _ => .claim) hv
        exact .inr (.inl ⟨hsessions, hgroups, hids, hitems, hruns⟩)
    · cases h
  | renewRun q now token => exact .inr (.inl (runsOnly_updateRun (fun _ _ => .renew) h))
  | recoverExpiredRun q now =>
    refine .inr (.inl (runsOnly_updateRun (fun run new hnew => ?_) h))
    unfold recoverExpiredRun at hnew
    split at hnew
    · rename_i hexpired
      cases hnew
      obtain ⟨time, htime, _⟩ := hexpired.2
      exact .endAttempt (by simp [htime])
    · cases hnew
  | failAttempt q now token error =>
    refine .inr (.inl (runsOnly_updateRun (fun run new hnew => ?_) h))
    unfold failAttempt at hnew
    split at hnew
    · rename_i howned
      cases hnew
      obtain ⟨time, htime, _⟩ := howned.2.2
      exact .endAttempt (by simp [htime])
    · cases hnew
  | refreshParent q now =>
    simp only [step] at h
    split at h
    · cases h
    · rename_i hitems
      refine .inr (.inl (runsOnly_updateRun (fun run new hnew => ?_) h))
      cases hnew
      exact .refresh hitems
  | deleteRun q =>
    simp only [step] at h
    split at h
    · rename_i run hrun
      obtain ⟨_, rfl⟩ := guarded_eq_some.mp h
      refine .inr (.inl ⟨rfl, rfl, rfl, fun r => ?_, write_update (by rw [hrun]; exact .delete)⟩)
      by_cases hr : r = q
      · subst hr
        exact .inl (Function.update_self ..)
      · exact .inr ⟨Function.update_of_ne hr .., fun hnone =>
          (Function.update_of_ne hr ..).symm.trans hnone⟩
    · cases h
  | publishDiscovery now staleBefore fence unseen groups =>
    obtain ⟨⟨v, result⟩, hv, rfl⟩ := Option.map_eq_some_iff.mp h
    exact .inr (.inr (.inl ⟨now, staleBefore, fence, unseen, groups, result, rfl, hv⟩))
  | item q g event =>
    refine .inr (.inr (.inr (.inl ⟨q, g, event, rfl, ?_⟩)))
    simp only [step] at h
    split at h
    · split at h
      · exact h
      · cases h
    · exact h
  | group event =>
    refine .inr (.inr (.inr (.inr ⟨event, ?_, rfl, ?_⟩)))
    · rintro sessionId now listed rfl
      cases h
    · cases event
      case replaceSummaries => cases h
      all_goals
        cases h
        rfl

theorem run_write [DecidableEq Hash] (h : step c s e = some u) (r : RunId) :
    RunWrite s r (s.runs r) (u.runs r) := by
  obtain ⟨sessionId, rfl⟩ | honly | ⟨now, staleBefore, fence, unseen, groups, result, _, hpublish⟩ |
    ⟨q, g, event, _, hitem⟩ | ⟨event, _, _, rfl⟩ := step_cases h
  · exact .keep _
  · exact honly.runs r
  · obtain ⟨run, session, hrun, _, _, ⟨_, _, _, rfl⟩ | ⟨_, _, rfl⟩⟩ := publishDiscovery_some hpublish
    · obtain ⟨hrun, howned⟩ := ownedRun_some hrun
      exact write_update (by rw [hrun]; exact .defer howned) r
    · obtain ⟨hrun, howned⟩ := ownedRun_some hrun
      exact write_update (by rw [hrun]; exact .publish howned) r
  · obtain ⟨_, _, _, _, _, _, _, hu, _⟩ := updateItem_some hitem
    rw [hu]
    exact .keep _
  · exact .keep _

/-- A run has a lease in an attempt that has been counted. -/
def Counted (s : State Hash) : Prop :=
  ∀ r run, s.runs r = some run → run.leaseToken.isSome → 1 ≤ run.attemptCount

theorem counted_step [DecidableEq Hash] (h : Counted s) (hs : step c s e = some u) :
    Counted u := by
  intro r new hnew hlease
  have hwrite := run_write hs r
  rw [hnew] at hwrite
  generalize hold : s.runs r = old at hwrite
  cases hwrite with
  | keep => exact h r new hold hlease
  | insert => cases hlease
  | claim hclaim =>
    unfold claimRun at hclaim
    split at hclaim
    · cases hclaim
      exact Nat.le_add_left 1 _
    · cases hclaim
  | renew hrenew =>
    unfold renewRun at hrenew
    split at hrenew
    · rename_i run howned
      cases hrenew
      exact h r run hold (by simp [howned.2.1])
    · cases hrenew
  | endAttempt => cases hlease
  | @refresh now run hitems =>
    have hlease' : run.leaseToken.isSome ∧ (refreshParent now (s.items r) run).attemptCount =
        run.attemptCount := by
      revert hlease
      unfold refreshParent
      simp only
      split <;> exact fun hl => ⟨hl, rfl⟩
    rw [hlease'.2]
    exact h r run hold hlease'.1
  | defer => cases hlease
  | publish => cases hlease

theorem reachable_counted [DecidableEq Hash] (h : Reachable (system c) s) : Counted s := by
  refine reachable_invariant ?_ (fun _ _ hI he => counted_step hI (ofStep_enabled he)) h
  rintro _ rfl r run hrun
  cases hrun

/-- The items of a run stand from the discovery that selects them to the deletion of the run. -/
theorem items_stand [DecidableEq Hash] (h : step c s e = some u) {run : SyncRun}
    (hrun : s.runs r = some run) (hu : u.runs r = none) : u.items r = [] := by
  have hsame : u.runs = s.runs → u.items r = [] := fun hruns => by
    rw [hruns, hrun] at hu
    cases hu
  obtain ⟨sessionId, rfl⟩ | honly | ⟨now, staleBefore, fence, unseen, groups, result, _, hpublish⟩ |
    ⟨q, g, event, _, hitem⟩ | ⟨event, _, _, rfl⟩ := step_cases h
  · exact hsame rfl
  · obtain hnil | ⟨_, hdeleted⟩ := honly.items r
    · exact hnil
    · rw [hdeleted hu] at hrun
      cases hrun
  · obtain ⟨_, _, _, _, _, ⟨_, _, _, rfl⟩ | ⟨_, _, rfl⟩⟩ := publishDiscovery_some hpublish
    · rw [none_of_update hu] at hrun
      cases hrun
    · rw [none_of_update hu] at hrun
      cases hrun
  · obtain ⟨_, _, _, _, _, _, _, hu', _⟩ := updateItem_some hitem
    exact hsame (by rw [hu'])
  · exact hsame rfl

theorem items_selected [DecidableEq Hash] (h : step c s e = some u) (hold : s.items r = [])
    (hnew : u.items r ≠ []) :
    ∃ now token discovered scheduled run, RunOwned now token run ∧
      u.runs r = some (publishedRun now discovered scheduled run) := by
  obtain ⟨sessionId, rfl⟩ | honly | ⟨now, staleBefore, fence, unseen, groups, result, _, hpublish⟩ |
    ⟨q, g, event, _, hitem⟩ | ⟨event, _, _, rfl⟩ := step_cases h
  · exact absurd hold hnew
  · obtain hnil | ⟨hsame, _⟩ := honly.items r
    · exact absurd hnil hnew
    · exact absurd (hsame.trans hold) hnew
  · obtain ⟨run, _, hrun, _, _, ⟨_, _, _, rfl⟩ | ⟨_, _, rfl⟩⟩ := publishDiscovery_some hpublish
    · exact absurd hold hnew
    · by_cases hr : r = fence.syncRunId
      · subst hr
        exact ⟨now, fence.leaseToken, groups.length, _, run, (ownedRun_some hrun).2,
          Function.update_self ..⟩
      · exact absurd ((Function.update_of_ne hr ..).trans hold) hnew
  · obtain ⟨_, _, _, _, _, _, _, hu, _⟩ := updateItem_some hitem
    rw [hu] at hnew
    by_cases hr : r = q
    · subst hr
      simp [hold] at hnew
    · exact absurd ((Function.update_of_ne hr ..).trans hold) hnew
  · exact absurd hold hnew

/-- What a step does to the row of a group, apart from a discovery. -/
theorem group_kept [DecidableEq Hash] (h : step c s e = some u)
    (hpublish : ∀ now staleBefore fence unseen groups,
      e ≠ .publishDiscovery now staleBefore fence unseen groups) (key : GroupKey) :
    (u.groups key).map GatewayGroup.row = (s.groups key).map GatewayGroup.row ∨
      ∃ event, (∀ sessionId now listed, event ≠ .replaceSummaries sessionId now listed) ∧
        (u.groups key).map GatewayGroup.row =
          GroupCapabilityRevision.next (fun key => (s.groups key).map GatewayGroup.row) event
            key := by
  obtain ⟨sessionId, rfl⟩ | honly | ⟨_, _, _, _, _, _, rfl, _⟩ | ⟨r, g, event, _, hitem⟩ |
    ⟨event, hevent, _, rfl⟩ := step_cases h
  · exact .inl rfl
  · exact .inl (by rw [honly.groups])
  · exact (hpublish _ _ _ _ _ rfl).elim
  · obtain ⟨run, item, _, _, _, _, _, _, hgroups | ⟨_, _, _, _, hgroups⟩⟩ := updateItem_some hitem
    · exact .inl (by rw [hgroups])
    · refine .inl ?_
      rw [hgroups]
      by_cases hk : key = (run.sessionId, g)
      · subst hk
        rw [Function.update_self, Option.map_map]
        rfl
      · rw [Function.update_of_ne hk]
  · refine .inr ⟨event, hevent, ?_⟩
    simp [updateGroups, Function.comp_def]

end Steps

end GatewayDiscovery
