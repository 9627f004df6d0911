import Mathlib.Data.List.Lex
import Mathlib.Data.List.Sort
import WaRuntime.CampaignTransactions
import WaRuntime.CreationReplay

/-! Campaigns, saved group lists and campaign runs, statement by statement.
A row of `campaigns` is kept with its rows of `campaign_targets`, and a row of `group_lists` with
its rows of `group_list_items`: every transaction that writes the latter holds the former. The
transactions that read before they write are stepped one statement at a time, each with the row it
has locked; a statement of its own, and a creation, is one step. A status UPDATE that follows the
UPDATE of a run comes at any time, on any campaign. A run is visible from the commit of the
transaction that creates it, and from then on it lives in `CampaignExecution`.
A creation that finds its idempotency key taken writes nothing and is left out. -/
namespace CampaignAggregates

open TransitionRuns RowVersions CampaignRunStatements CampaignTransactions
open CampaignExecution (GroupId RunSlot)

abbrev ListId := String

/-- A row of `group_lists` with its members, in the order of the database. -/
structure SavedList where
  sessionId : String
  name : String
  description : Option String
  revision : ℕ
  membershipRevision : ℕ
  groupIds : List GroupId
  archivedAt : Option ℕ
  updatedAt : ℕ
  deriving DecidableEq, Repr

structure CreateListInput where
  sessionId : String
  name : String
  description : Option String
  groupIds : List GroupId
  deriving DecidableEq, Repr

/-- `collate` is ORDER BY on a column of group ids: it depends on the collation of the database. -/
structure Config where
  messages : OutboundMessageExecution.Config
  allowedSessionIds : List String
  collate : List GroupId → List GroupId
  collate_perm : ∀ groupIds, (collate groupIds).Perm groupIds

/-- The columns of a run that its creation writes and nothing changes. -/
structure RunOrigin where
  input : CreateRunInput
  campaignRevision : ℕ
  targetsRevision : ℕ
  targetSource : Option CampaignTargetSource
  deriving DecidableEq, Repr

/-- Where a transaction stands, with the row it read when it locked it. -/
inductive AggregateTx where
  | idle
  | replacing (id : CampaignId) (groupIds : List GroupId) (campaign : Campaign)
  | applying (id : CampaignId) (list : ListId) (membership : Option ℕ) (campaign : Campaign)
  | sharing (id : CampaignId) (list : ListId) (membership : Option ℕ) (campaign : Campaign)
      (found : SavedList)
  | provided (id : CampaignId) (campaign : Campaign) (source : GroupList)
  | regrouping (list : ListId) (groupIds : List GroupId) (found : SavedList)
  | requested (request : CreateRunRequest)
  | launching (request : CreateRunRequest) (campaign : Campaign)
  | unreplayed (request : CreateRunRequest) (campaign : Campaign)
  | unlaunched (request : CreateRunRequest) (campaign : Campaign)
  | inserting (request : CreateRunRequest) (campaign : Campaign) (date : ℕ)
  | launched (request : CreateRunRequest) (campaign : Campaign) (date : ℕ)
  | conflicting (request : CreateRunRequest)
  | answered (request : CreateRunRequest) (result : CreateRunResult)
  | deleting (id : CampaignId) (campaign : Campaign)
  | inspecting (id : CampaignId) (campaign : Campaign) (runs : List RunId)
  | finished

/-- `origins` are the runs created so far, also those that retention has deleted; `shares` are the
transactions that hold a list FOR SHARE. -/
structure State where
  exec : CampaignExecution.State
  campaigns : Table ℕ CampaignId (Option Campaign)
  lists : Table ℕ ListId (Option SavedList)
  shares : ListId → List ℕ
  origins : List (RunId × RunOrigin)
  txs : ℕ → AggregateTx

def initial : State where
  exec := CampaignExecution.initial
  campaigns := fun _ => Row.settled none
  lists := fun _ => Row.settled none
  shares := fun _ => []
  origins := []
  txs := fun _ => .idle

inductive TxEvent where
  | lockReplace (id : CampaignId) (groupIds : List GroupId) (expectedTargetsRevision : ℕ)
  | writeTargets (now : ℕ)
  | lockApply (id : CampaignId) (list : ListId) (expectedTargetsRevision : ℕ)
      (expectedMembershipRevision : Option ℕ)
  | shareList
  | readItems
  | writeApplied (now : ℕ)
  | lockList (list : ListId) (groupIds : List GroupId) (expectedRevision : ℕ)
      (expectedMembershipRevision : Option ℕ)
  | writeGroups (now : ℕ)
  | requestRun (request : CreateRunRequest)
  | lockCampaign
  | readByKey
  | readLive
  | checkLaunch (date : ℕ)
  | insertRun (now : ℕ)
  | readConflicting
  | lockDelete (id : CampaignId) (expectedRevision expectedTargetsRevision : ℕ)
  | selectActive
  | inspectRun
  | tombstone (now : ℕ)
  | commit
  | commitRun (run : RunId) (now : ℕ)
  | abort
  deriving Repr

/-- The status UPDATEs that follow the UPDATE of a run. -/
inductive StatusChange where
  | pause
  | resume
  | finish
  deriving DecidableEq, Repr

inductive Event where
  | exec (event : CampaignExecution.Event)
  | createCampaign (id : CampaignId) (input : CreateCampaignInput) (now : ℕ)
  | updateCampaign (id : CampaignId) (input : UpdateCampaignInput) (expectedRevision now : ℕ)
  | changeStatus (id : CampaignId) (change : StatusChange) (now : ℕ)
  | createList (list : ListId) (input : CreateListInput) (now : ℕ)
  | updateList (list : ListId) (name : String) (description : Option String)
      (expectedRevision now : ℕ)
  | archiveList (list : ListId) (expectedRevision now : ℕ)
  | tx (n : ℕ) (event : TxEvent)
  deriving Repr

section Rows

/-- A statement on a row that is there. -/
def onRow {ρ : Type} (f : ρ → Option ρ) : Option ρ → Option (Option ρ)
  | some row => (f row).map some
  | none => none

def insertRow {ρ : Type} (row : ρ) : Option ρ → Option (Option ρ)
  | none => some (some row)
  | some _ => none

/-- A locking SELECT. -/
def selecting {ρ : Type} (found : ρ → Bool) (row : ρ) : Option ρ :=
  if found row then some row else none

/-- The UTF-16 code units of a text, which JavaScript compares and counts. -/
def codeUnits (s : String) : List ℕ :=
  s.toList.flatMap fun c =>
    if 0x10000 ≤ c.toNat then
      [0xD800 + (c.toNat - 0x10000) / 0x400, 0xDC00 + (c.toNat - 0x10000) % 0x400]
    else [c.toNat]

/-- `[...groupIds].sort()`. -/
def sort (groupIds : List GroupId) : List GroupId :=
  groupIds.insertionSort fun a b => codeUnits a ≤ codeUnits b

def StatusChange.write : StatusChange → ℕ → Campaign → Option Campaign
  | .pause => setStatus [.active] .paused
  | .resume => setStatus [.paused] .active
  | .finish => setStatus [.active, .paused] .archived

/-- What `replaceTargets` does to the campaign once it has validated the groups. -/
def replaced (c : Config) (groupIds : List GroupId) (now : ℕ) (row : Campaign) : Option Campaign :=
  if row.targets ≠ sort groupIds then some (writeTargets (c.collate groupIds) none now row)
  else if row.targetSource.isSome then some (writeTargets row.targets none now row)
  else none

def provenance (source : GroupList) (now : ℕ) : CampaignTargetSource :=
  ⟨source.id, source.name, source.membershipRevision, now⟩

def sameProvenance (source : GroupList) (row : Campaign) : Bool :=
  row.targetSource.any fun old =>
    old.groupListId == source.id && old.membershipRevision == source.membershipRevision

/-- What `applyGroupListTargets` does to the campaign once it has read the list. -/
def applied (source : GroupList) (now : ℕ) (row : Campaign) : Option Campaign :=
  if row.targets ≠ source.groupIds ∨ sameProvenance source row = false then
    some (writeTargets source.groupIds (provenance source now) now row)
  else none

def newList (c : Config) (now : ℕ) (input : CreateListInput) : SavedList :=
  { sessionId := input.sessionId
    name := input.name
    description := input.description
    revision := 1
    membershipRevision := 1
    groupIds := c.collate input.groupIds
    archivedAt := none
    updatedAt := now }

def updated (name : String) (description : Option String) (expectedRevision now : ℕ)
    (list : SavedList) : Option SavedList :=
  if list.archivedAt = none ∧ list.revision = expectedRevision then
    let changed := decide ((list.name, list.description) ≠ (name, description))
    some { list with
      name := name
      description := description
      revision := if changed then list.revision + 1 else list.revision
      updatedAt := if changed then now else list.updatedAt }
  else none

def archived (expectedRevision now : ℕ) (list : SavedList) : Option SavedList :=
  if list.archivedAt = none ∧ list.revision = expectedRevision then
    some { list with archivedAt := some now, revision := list.revision + 1, updatedAt := now }
  else none

/-- What `replaceGroups` does to the list once it has validated the groups. -/
def regrouped (c : Config) (groupIds : List GroupId) (now : ℕ) (list : SavedList) :
    Option SavedList :=
  if list.groupIds ≠ sort groupIds then
    some { list with
      groupIds := c.collate groupIds
      revision := list.revision + 1
      membershipRevision := list.membershipRevision + 1
      updatedAt := now }
  else none

end Rows

namespace State

variable (s : State)

/-- The rows of `campaign_runs`. -/
def runs : List (RunId × CampaignRun) :=
  s.origins.filterMap fun p => (s.exec.runs p.1).committed.run.map fun run => (p.1, run)

def runByKey (request : CreateRunRequest) : Option CampaignRun :=
  (s.runs.map Prod.snd).find? fun run =>
    run.campaignId == request.campaignId && run.idempotencyKey == request.idempotencyKey

def hasLive (id : CampaignId) : Bool :=
  s.runs.any fun p => p.2.campaignId == id && isLive p.2

/-- UNIQUE (campaign_id, idempotency_key), and one LIVE run for each campaign. -/
def insertConflicts (request : CreateRunRequest) : Bool :=
  s.runs.any fun p => p.2.campaignId == request.campaignId &&
    (p.2.idempotencyKey == request.idempotencyKey ||
      isLive p.2 && request.executionMode == .live)

def activeRuns (id : CampaignId) : List RunId :=
  (s.runs.filter fun p => p.2.campaignId == id && !decide p.2.status.Terminal).map Prod.fst

/-- `validateGroups` finds none missing and none of another session. -/
def knownGroups (sessionId : String) (groupIds : List GroupId) : Bool :=
  groupIds.all fun g => (s.exec.groups (sessionId, g)).isSome

def clock : ℕ := s.exec.core.clock

end State

section Service

structure CampaignError where
  status : ℕ
  code : String
  message : String
  current : Option (ℕ × ℕ)
  deriving DecidableEq, Repr

/-- `CampaignRunService.create` up to the repository: the key without its surrounding blanks. -/
def admitRun (c : Config) (s : State) (request : CreateRunRequest) :
    Except CampaignError CreateRunRequest :=
  let idempotencyKey := CreationReplay.trim request.idempotencyKey
  if idempotencyKey = "" then
    .error ⟨400, "CAMPAIGN_RUN_IDEMPOTENCY_KEY_REQUIRED", "Idempotency-Key header is required", none⟩
  else if 200 < (codeUnits idempotencyKey).length then
    .error ⟨400, "CAMPAIGN_RUN_IDEMPOTENCY_KEY_INVALID",
      "Idempotency-Key must not exceed 200 characters", none⟩
  else
    match (s.campaigns request.campaignId).committed with
    | some row =>
      if row.deletedAt = none ∧ row.sessionId ∈ c.allowedSessionIds then
        .ok { request with idempotencyKey := idempotencyKey }
      else .error ⟨404, "CAMPAIGN_NOT_FOUND", "Campaign not found", none⟩
    | none => .error ⟨404, "CAMPAIGN_NOT_FOUND", "Campaign not found", none⟩

/-- What the service makes of the result of the repository. -/
def respond (result : CreateRunResult) : Except CampaignError (CampaignRun × Bool) :=
  if result.campaignFound = false then
    .error ⟨404, "CAMPAIGN_NOT_FOUND", "Campaign not found", none⟩
  else if result.idempotencyConflict then
    .error ⟨409, "CAMPAIGN_RUN_IDEMPOTENCY_CONFLICT",
      "Idempotency-Key was already used with a different executionMode", none⟩
  else if result.campaignNotLaunchable then
    .error ⟨409, "CAMPAIGN_RUN_LAUNCH_CONFLICT",
      "Campaign is not launchable from its current lifecycle state", none⟩
  else if result.revisionConflict then
    .error ⟨409, "CAMPAIGN_RUN_REVISION_CONFLICT",
      "Campaign content or targets changed after launch review", result.current⟩
  else if result.scheduleExpired then
    .error ⟨409, "CAMPAIGN_RUN_SCHEDULE_EXPIRED",
      "The ONCE campaign schedule is already in the past", none⟩
  else
    match result.run with
    | some run => .ok (run, result.created)
    | none =>
      .error ⟨409, "CAMPAIGN_RUN_LAUNCH_CONFLICT", "Campaign run could not be created", none⟩

def campaignNotFound : CreateRunResult := ⟨none, false, false, false, false, false, false, none⟩

def revisionConflict (row : Campaign) : CreateRunResult :=
  ⟨none, false, true, false, false, true, false, some (row.revision, row.targetsRevision)⟩

def expiredSchedule : CreateRunResult := ⟨none, false, true, false, false, false, true, none⟩

/-- The checks of `create` between its queries and the INSERT. -/
def checkLaunch (request : CreateRunRequest) (row : Campaign) (date : ℕ) : Option CreateRunResult :=
  if revisionsDiffer request row then some (revisionConflict row)
  else if row.status ≠ .draft then some notLaunchable
  else if scheduleExpired request row date then some expiredSchedule
  else none

end Service

/-- Where a locking SELECT on a campaign leads. -/
def lockedOn (s : State) (id : CampaignId) (found : Campaign → Bool) (otherwise : AggregateTx)
    (next : Campaign → AggregateTx) : Option AggregateTx :=
  match (s.campaigns id).committed with
  | some row => if found row then guarded (s.campaigns id).Free (next row) else some otherwise
  | none => some otherwise

def notDeleted (row : Campaign) : Bool := row.deletedAt.isNone

def notArchived (list : SavedList) : Bool := list.archivedAt.isNone

def mayDelete (c : Config) (row : Campaign) : Bool := decide (row.sessionId ∈ c.allowedSessionIds)

/-- The tests of the two transactions that edit the targets of a campaign. -/
def editable (expectedTargetsRevision : ℕ) (row : Campaign) : Bool :=
  row.status == .draft && row.targetsRevision == expectedTargetsRevision

/-- The moves of one transaction. -/
def txNext (c : Config) (s : State) : AggregateTx → TxEvent → Option AggregateTx
  | .idle, .lockReplace id groupIds expected =>
    lockedOn s id notDeleted .finished fun row =>
      if editable expected row then .replacing id groupIds row else .finished
  | .replacing _ groupIds _, .writeTargets now => guarded (now ≤ s.clock ∧ groupIds.Nodup) .finished
  | .idle, .lockApply id list expected membership =>
    lockedOn s id notDeleted .finished fun row =>
      if editable expected row then .applying id list membership row else .finished
  | .applying id list membership row, .shareList =>
    match (s.lists list).committed with
    | some found =>
      if notArchived found then
        guarded (s.lists list).Free (.sharing id list membership row found)
      else some .finished
    | none => some .finished
  | .sharing id list membership row found, .readItems =>
    match (s.lists list).committed with
    | some current =>
      some (if found.sessionId = row.sessionId ∧
          ∀ expected ∈ membership, found.membershipRevision = expected then
        .provided id row
          ⟨list, found.name, found.sessionId, found.membershipRevision, current.groupIds⟩
      else .finished)
    | none => some .finished
  | .provided _ _ _, .writeApplied now => guarded (now ≤ s.clock) .finished
  | .idle, .lockList list groupIds expected membership =>
    match (s.lists list).committed with
    | some found =>
      if notArchived found then
        guarded ((s.lists list).Free ∧ s.shares list = [])
          (if found.revision = expected ∧
              ∀ expected ∈ membership, found.membershipRevision = expected then
            .regrouping list groupIds found
          else .finished)
      else some .finished
    | none => some .finished
  | .regrouping _ groupIds _, .writeGroups now =>
    guarded (now ≤ s.clock ∧ groupIds.Nodup) .finished
  | .idle, .requestRun request =>
    match admitRun c s request with
    | .ok request => some (.requested request)
    | .error _ => none
  | .requested request, .lockCampaign =>
    lockedOn s request.campaignId notDeleted (.answered request campaignNotFound)
      (.launching request)
  | .launching request row, .readByKey =>
    some (match s.runByKey request with
      | some run => .answered request (replayRun request.executionMode run)
      | none => .unreplayed request row)
  | .unreplayed request row, .readLive =>
    some (if s.hasLive request.campaignId then .answered request notLaunchable
      else .unlaunched request row)
  | .unlaunched request row, .checkLaunch date =>
    some (match checkLaunch request row date with
      | some result => .answered request result
      | none => .inserting request row date)
  | .inserting request row date, .insertRun now =>
    guarded (now ≤ s.clock)
      (if s.insertConflicts request then .conflicting request else .launched request row date)
  | .conflicting request, .readConflicting =>
    some (.answered request
      (((s.runByKey request).map (replayRun request.executionMode)).getD notLaunchable))
  | .launched _ _ _, .commitRun _ _ => some .idle
  | .idle, .lockDelete id expectedRevision expectedTargetsRevision =>
    lockedOn s id (mayDelete c) .finished fun row =>
      if row.deletedAt = none ∧ row.revision = expectedRevision ∧
          row.targetsRevision = expectedTargetsRevision ∧ row.status ∈ [.draft, .archived] then
        .deleting id row
      else .finished
  | .deleting id row, .selectActive => some (.inspecting id row (s.activeRuns id))
  | .inspecting id row (run :: rest), .inspectRun =>
    match (s.exec.runs run).committed with
    | .present r =>
      guarded (s.exec.runs run).Free
        (if r.status.Terminal then .inspecting id row rest else .finished)
    | _ => some (.inspecting id row rest)
  | .inspecting _ _ [], .tombstone now => guarded (now ≤ s.clock) .finished
  | .answered _ _, .commit | .finished, .commit => some .idle
  | _, .abort => some .idle
  | _, _ => none

/-- The UPDATE of `create` that moves a campaign with its LIVE run. -/
def launch (request : CreateRunRequest) (now : ℕ) (row : Campaign) : Option Campaign :=
  if request.executionMode = .live then setStatus [.draft] .active now row else none

def txCampaignEffect (c : Config) (s : State) (n : ℕ) :
    AggregateTx → TxEvent → Effect ℕ CampaignId (Option Campaign)
  | .idle, .lockReplace id _ _ => .updateIn n (onRow (selecting notDeleted)) id
  | .replacing id groupIds row, .writeTargets now =>
    if s.knownGroups row.sessionId groupIds then .updateIn n (onRow (replaced c groupIds now)) id
    else .none
  | .idle, .lockApply id _ _ _ => .updateIn n (onRow (selecting notDeleted)) id
  | .provided id _ source, .writeApplied now => .updateIn n (onRow (applied source now)) id
  | .requested request, .lockCampaign =>
    .updateIn n (onRow (selecting notDeleted)) request.campaignId
  | .inserting request _ _, .insertRun now =>
    if s.insertConflicts request then .none
    else .updateIn n (onRow (launch request now)) request.campaignId
  | .idle, .lockDelete id _ _ => .updateIn n (onRow (selecting (mayDelete c))) id
  | .inspecting id _ [], .tombstone now =>
    .updateIn n (onRow (CampaignTransactions.tombstone now)) id
  | _, .commit | _, .commitRun _ _ => .commit n
  | _, .abort => .abort n
  | _, _ => .none

def campaignEffect (c : Config) (s : State) : Event → Effect ℕ CampaignId (Option Campaign)
  | .createCampaign id input now => .update (insertRow (newCampaign now input)) id
  | .updateCampaign id input expectedRevision now =>
    .update (onRow (updateDraft input expectedRevision now)) id
  | .changeStatus id change now => .update (onRow (change.write now)) id
  | .tx n event => txCampaignEffect c s n (s.txs n) event
  | .exec _ | .createList _ _ _ | .updateList _ _ _ _ _ | .archiveList _ _ _ => .none

def txListEffect (c : Config) (s : State) (n : ℕ) :
    AggregateTx → TxEvent → Effect ℕ ListId (Option SavedList)
  | .idle, .lockList list _ _ _ => .updateIn n (onRow (selecting notArchived)) list
  | .regrouping list groupIds found, .writeGroups now =>
    if s.knownGroups found.sessionId groupIds then
      .updateIn n (onRow (regrouped c groupIds now)) list
    else .none
  | _, .commit | _, .commitRun _ _ => .commit n
  | _, .abort => .abort n
  | _, _ => .none

def listEffect (c : Config) (s : State) : Event → Effect ℕ ListId (Option SavedList)
  | .createList list input now => .update (insertRow (newList c now input)) list
  | .updateList list name description expectedRevision now =>
    .update (onRow (updated name description expectedRevision now)) list
  | .archiveList list expectedRevision now => .update (onRow (archived expectedRevision now)) list
  | .tx n event => txListEffect c s n (s.txs n) event
  | .exec _ | .createCampaign _ _ _ | .updateCampaign _ _ _ _ | .changeStatus _ _ _ => .none

/-- A statement of its own waits for the transactions that hold the list FOR SHARE. -/
def Unshared (s : State) (list : ListId) (f : SavedList → Option SavedList) : Prop :=
  s.shares list = [] ∨ onRow f (s.lists list).committed = none

instance (s : State) (list : ListId) (f : SavedList → Option SavedList) :
    Decidable (Unshared s list f) :=
  inferInstanceAs (Decidable (_ ∨ _))

def isCreation : CampaignExecution.Event → Bool
  | .createRun _ _ _ => true
  | _ => false

/-- A share lock is taken with the row it is for, and ends with the transaction. -/
def sharesAfter (n : ℕ) (k : AggregateTx) (shares : ListId → List ℕ) : ListId → List ℕ :=
  match k with
  | .sharing _ list _ _ _ => Function.update shares list (n :: shares list)
  | .idle => fun list => (shares list).filter (· ≠ n)
  | _ => shares

def originsAfter (s : State) : AggregateTx → TxEvent → List (RunId × RunOrigin)
  | .launched request row date, .commitRun run _ =>
    (run, ⟨runInput request row date, row.revision, row.targetsRevision, row.targetSource⟩) ::
      s.origins
  | _, _ => s.origins

/-- Everything but the tables: guards, the stage of the transaction, share locks and new runs. -/
def moveParties (c : Config) (s : State) : Event → Option State
  | .exec event => guarded (isCreation event = false) s
  | .createCampaign id _ now => guarded (now ≤ s.clock ∧ s.campaigns id = Row.settled none) s
  | .updateCampaign _ _ _ now | .changeStatus _ _ now => guarded (now ≤ s.clock) s
  | .createList list input now =>
    guarded (now ≤ s.clock ∧ s.lists list = Row.settled none ∧ input.groupIds.Nodup ∧
      s.knownGroups input.sessionId input.groupIds) s
  | .updateList list name description expectedRevision now =>
    guarded (now ≤ s.clock ∧ Unshared s list (updated name description expectedRevision now)) s
  | .archiveList list expectedRevision now =>
    guarded (now ≤ s.clock ∧ Unshared s list (archived expectedRevision now)) s
  | .tx n event =>
    match txNext c s (s.txs n) event with
    | none => none
    | some stage =>
      some { s with
        txs := Function.update s.txs n stage
        shares := sharesAfter n stage s.shares
        origins := originsAfter s (s.txs n) event }

/-- The step of the runs inside an event, if there is one. -/
def execEvent (s : State) : Event → Option CampaignExecution.Event
  | .exec event => some event
  | .tx n (.commitRun run now) =>
    match s.txs n with
    | .launched request row date => some (.createRun run (runInput request row date) now)
    | _ => none
  | _ => none

def execStep (c : Config) (s : State) (e : Event) : Option CampaignExecution.State :=
  match execEvent s e with
  | none => some s.exec
  | some event => CampaignExecution.step c.messages s.exec event

/-- No row that the event's statements need is locked. -/
def Ready (c : Config) (s : State) (e : Event) : Prop :=
  (campaignEffect c s e).Ready s.campaigns ∧ (listEffect c s e).Ready s.lists

instance (c : Config) (s : State) (e : Event) : Decidable (Ready c s e) :=
  inferInstanceAs (Decidable (_ ∧ _))

def step (c : Config) (s : State) (e : Event) : Option State :=
  match moveParties c s e, execStep c s e with
  | some v, some exec =>
    guarded (Ready c s e) { v with
      exec := exec
      campaigns := (campaignEffect c s e).apply s.campaigns
      lists := (listEffect c s e).apply s.lists }
  | _, _ => none

def system (c : Config) : System State Event := ofStep (· = initial) (step c)

instance (c : Config) (s : State) (e : Event) : Decidable ((system c).enabled s e) :=
  inferInstanceAs (Decidable ((step c s e).isSome = true))

def exampleConfig : Config where
  messages := ⟨true, 1000⟩
  allowedSessionIds := ["session"]
  collate groupIds := groupIds
  collate_perm _ := .refl _

theorem step_some {c : Config} {s u : State} {e : Event} (h : step c s e = some u) :
    ∃ v exec, moveParties c s e = some v ∧ execStep c s e = some exec ∧ Ready c s e ∧
      u = { v with
        exec := exec
        campaigns := (campaignEffect c s e).apply s.campaigns
        lists := (listEffect c s e).apply s.lists } := by
  unfold step at h
  split at h
  · rename_i v exec hv hx
    obtain ⟨hr, rfl⟩ := guarded_eq_some.mp h
    exact ⟨v, exec, hv, hx, hr, rfl⟩
  · cases h

section Frames

variable {c : Config} {s u v : State} {e : Event} {n : ℕ} {event : TxEvent} {id : CampaignId}
  {k k' : AggregateTx}

theorem lockedOn_some {found : Campaign → Bool} {otherwise : AggregateTx}
    {next : Campaign → AggregateTx} (h : lockedOn s id found otherwise next = some k) :
    k = otherwise ∨ ∃ row, (s.campaigns id).Free ∧ (s.campaigns id).committed = some row ∧
      found row ∧ k = next row := by
  unfold lockedOn at h
  split at h
  · rename_i row hrow
    split at h
    · rename_i hfound
      obtain ⟨hfree, rfl⟩ := guarded_eq_some.mp h
      exact .inr ⟨row, hfree, hrow, hfound, rfl⟩
    · cases h
      exact .inl rfl
  · cases h
    exact .inl rfl

/-- Leaving campaigns and lists out, every run is a run of the system of the campaign runs. -/
theorem projects_to_runs (c : Config) :
    Projects (system c) (CampaignExecution.system c.messages) State.exec := by
  refine projects_ofStep ?_ ?_
  · rintro _ rfl
    rfl
  · intro s e u h
    obtain ⟨v, exec, _, hx, _, rfl⟩ := step_some h
    unfold execStep at hx
    split at hx
    · cases hx
      exact ⟨[], Execution.refl⟩
    · rename_i event _
      exact ⟨[event], ofStep_execution hx⟩

theorem reachable_runs (h : Reachable (system c) s) :
    Reachable (CampaignExecution.system c.messages) s.exec :=
  (projects_to_runs c).reachable h

theorem tx_moves (h : moveParties c s (.tx n event) = some v) :
    txNext c s (s.txs n) event = some (v.txs n) := by
  simp only [moveParties] at h
  split at h
  · cases h
  · rename_i stage hs
    cases h
    simpa using hs

/-- An event of no transaction leaves every party as it is. -/
theorem outside_tx (h : moveParties c s e = some v) (ha : ∀ n event, e ≠ .tx n event) : v = s := by
  cases e <;> simp only [moveParties] at h
  case tx n event => exact absurd rfl (ha n event)
  all_goals exact (guarded_eq_some.mp h).2.symm

theorem other_tx_unchanged (h : moveParties c s e = some v) (ha : ∀ event, e ≠ .tx n event) :
    v.txs n = s.txs n := by
  by_cases he : ∃ m event, e = .tx m event
  · obtain ⟨m, event, rfl⟩ := he
    have hnm : n ≠ m := fun hm => ha event (by rw [hm])
    simp only [moveParties] at h
    split at h
    · cases h
    · cases h
      exact Function.update_of_ne hnm _ _
  · rw [outside_tx h fun m event hev => he ⟨m, event, hev⟩]

theorem tx_campaign_effect_owner {m : ℕ} (h : (txCampaignEffect c s n k event).owner = some m) :
    m = n := by
  unfold txCampaignEffect at h
  split at h
  all_goals try split at h
  all_goals first | (cases h; rfl) | cases h

theorem campaign_effect_owner (h : (campaignEffect c s e).owner = some n) :
    ∃ event, e = .tx n event := by
  cases e <;> simp only [campaignEffect] at h
  case tx m event =>
    obtain rfl := tx_campaign_effect_owner h
    exact ⟨event, rfl⟩
  all_goals cases h

theorem tx_list_effect_owner {m : ℕ} (h : (txListEffect c s n k event).owner = some m) :
    m = n := by
  unfold txListEffect at h
  split at h
  all_goals try split at h
  all_goals first | (cases h; rfl) | cases h

theorem list_effect_owner (h : (listEffect c s e).owner = some n) : ∃ event, e = .tx n event := by
  cases e <;> simp only [listEffect] at h
  case tx m event =>
    obtain rfl := tx_list_effect_owner h
    exact ⟨event, rfl⟩
  all_goals cases h

theorem originsAfter_cases (s : State) (k : AggregateTx) (event : TxEvent) :
    originsAfter s k event = s.origins ∨ ∃ request row date run now,
      k = .launched request row date ∧ event = .commitRun run now ∧
      originsAfter s k event =
        (run, ⟨runInput request row date, row.revision, row.targetsRevision, row.targetSource⟩) ::
          s.origins := by
  unfold originsAfter
  split
  · exact .inr ⟨_, _, _, _, _, rfl, rfl, rfl⟩
  · exact .inl rfl

/-- The event that creates a run. -/
def Creates (s : State) (e : Event) (run : RunId) (origin : RunOrigin) : Prop :=
  ∃ n request row date now, e = .tx n (.commitRun run now) ∧
    s.txs n = .launched request row date ∧
    origin = ⟨runInput request row date, row.revision, row.targetsRevision, row.targetSource⟩

/-- A step creates one run or none. -/
theorem origins_step (h : moveParties c s e = some v) :
    v.origins = s.origins ∨ ∃ run origin, Creates s e run origin ∧
      v.origins = (run, origin) :: s.origins := by
  by_cases he : ∃ n event, e = .tx n event
  · obtain ⟨n, event, rfl⟩ := he
    simp only [moveParties] at h
    split at h
    · cases h
    · cases h
      obtain hsame | ⟨request, row, date, run, now, hk, rfl, hnew⟩ :=
        originsAfter_cases s (s.txs n) event
      · exact .inl hsame
      · exact .inr ⟨run, _, ⟨n, request, row, date, now, rfl, hk, rfl⟩, hnew⟩
  · rw [outside_tx h fun n event hev => he ⟨n, event, hev⟩]
    exact .inl rfl

end Frames

end CampaignAggregates
