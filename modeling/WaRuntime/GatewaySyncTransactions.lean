import WaRuntime.GatewayDiscovery

/-! Sync runs, their fences and their items, one statement at a time.
A transaction is at a stage, which keeps what it has read, the rows it has locked and the versions
it would commit; `drawn` counts the ids and tokens given out so far. A statement that waits for a
row is enabled once nobody else holds it, and reads the version committed then; `probe`, `peekItem`,
`readDiscovery` and `aggregate` are the reads of a snapshot that may be older than the lock that
follows. Statements on rows that their transaction has locked already follow in one step. What the
writes put into sessions, groups and members is left out, as are the locks on those rows, and a
fence without a row is at epoch 0. A transaction that finds nothing to write, or fails, aborts. -/
namespace GatewaySyncTransactions

open TransitionRuns
open GatewaySyncItemStatements (SyncItemRow insertItem Owned)
open GatewayDiscovery (SessionId GroupId RunId GatewaySyncMode SyncRun SyncWriteFence RunOwned
  insertRun claimRun renewRun recoverExpiredRun deferredRun publishedRun)

abbrev ItemId := ℕ

/-- A row of `sync_runs`: the columns of `SyncRun`, and the counters that `refreshParent` sets. -/
structure RunRow where
  run : SyncRun
  groupsSynced : ℕ
  groupsFailed : ℕ
  groupsSkipped : ℕ
  membersSynced : ℕ
  deriving DecidableEq, Repr

def RunRow.Active (row : RunRow) : Prop := row.run.status ∈ [.pending, .running]

instance (row : RunRow) : Decidable row.Active := inferInstanceAs (Decidable (_ ∈ _))

structure ClaimedSyncRun where
  id : RunId
  sessionId : SessionId
  leaseToken : ℕ
  attemptNumber : ℕ
  syncEpoch : ℕ
  deriving DecidableEq, Repr

structure ClaimedGatewaySyncItem where
  id : ItemId
  syncRunId : RunId
  sessionId : SessionId
  groupId : GroupId
  syncEpoch : ℕ
  leaseToken : ℕ
  attemptNumber : ℕ
  deriving DecidableEq, Repr

section Statements

/-- The CTE of `refreshParent`. -/
structure Aggregate where
  completed : ℕ
  failed : ℕ
  skipped : ℕ
  members : ℕ
  remaining : ℕ
  deriving DecidableEq, Repr

def aggregate (items : List SyncItemRow) : Aggregate where
  completed := items.countP (·.status == .completed)
  failed := items.countP (·.status == .failed)
  skipped := items.countP (·.status == .skipped)
  members := ((items.filter (·.status == .completed)).map SyncItemRow.membersSynced).sum
  remaining := items.countP fun item => decide (item.status ∈ [.pending, .running, .retry])

/-- The UPDATE of `refreshParent`, with the values of the CTE. -/
def refreshed (now : ℕ) (aggregate : Aggregate) (row : RunRow) : RunRow where
  run := { row.run with
    phase := if aggregate.remaining = 0 then .completed else .reconciling
    status :=
      if 0 < aggregate.remaining then row.run.status
      else if 0 < aggregate.failed then .failed
      else .completed
    error :=
      if aggregate.remaining = 0 ∧ 0 < aggregate.failed then
        some (toString aggregate.failed ++ " group reconciliations failed")
      else row.run.error
    completedAt := if aggregate.remaining = 0 then some now else none }
  groupsSynced := aggregate.completed
  groupsFailed := aggregate.failed
  groupsSkipped := aggregate.skipped
  membersSynced := aggregate.members

/-- A statement that leaves the counters as they are. -/
def onRun (f : SyncRun → Option SyncRun) (row : RunRow) : Option RunRow :=
  (f row.run).map fun run => { row with run := run }

def newRun (now : ℕ) (sessionId : SessionId) (mode : GatewaySyncMode) : RunRow :=
  ⟨insertRun now sessionId mode, 0, 0, 0, 0⟩

def claim (now token epoch : ℕ) (row : RunRow) : Option RunRow :=
  (claimRun now token epoch row.run).map fun run => ⟨run, 0, 0, 0, 0⟩

def failAttempt (now token groups members : ℕ) (error : String) (row : RunRow) : Option RunRow :=
  (GatewayDiscovery.failAttempt now token error row.run).map fun run =>
    { row with run := run, groupsSynced := groups, membersSynced := members }

def complete (now token groups members : ℕ) (row : RunRow) : Option RunRow :=
  if RunOwned now token row.run then
    some { row with
      run := { row.run with
        status := .completed
        error := none
        leaseToken := none
        leaseExpiresAt := none
        completedAt := some now }
      groupsSynced := groups
      membersSynced := members }
  else none

/-- The last UPDATE of `publishDiscovery`, for a run that its transaction has locked. -/
def published (now discovered scheduled : ℕ) (row : RunRow) : RunRow :=
  { row with run := publishedRun now discovered scheduled row.run }

def deferred (now : ℕ) (row : RunRow) : RunRow := { row with run := deferredRun now row.run }

/-- The rows that `publishDiscovery` inserts for the groups it has selected. -/
def insertedItems (now : ℕ) (run : RunId) (drawn : ℕ) (present groups : List GroupId) :
    List (ItemId × SyncItemRow) :=
  ((groups.dedup.filter (· ∉ present)).zipIdx drawn).map fun (group, id) =>
    (id, insertItem now run group)

end Statements

/-- The tables that a transaction writes under its fence. -/
inductive WriteTable where
  | sessions
  | groups
  | members
  | items
  | runs
  deriving DecidableEq, Repr

/-- A row that a transaction may lock. -/
inductive Resource where
  | fence (sessionId : SessionId)
  | run (id : RunId)
  | item (id : ItemId)
  deriving DecidableEq, Repr

/-- How far a transaction is. -/
inductive Tx where
  | closed
  | fenced (id : RunId) (sessionId : SessionId) (epoch : ℕ)
  | probed (id : RunId) (sessionId : SessionId) (epoch : ℕ) (running : Bool)
  | claimed (claim : ClaimedSyncRun) (row : RunRow)
  | fenceShared (table : WriteTable) (sessionId : SessionId) (fence : SyncWriteFence)
  | owned (table : WriteTable) (sessionId : SessionId) (fence : SyncWriteFence)
  | noticed (sessionId : SessionId) (fence : SyncWriteFence) (now : ℕ)
  | discovering (sessionId : SessionId) (fence : SyncWriteFence) (now : ℕ)
  | published (sessionId : SessionId) (fence : SyncWriteFence) (row : RunRow)
      (items : List (ItemId × SyncItemRow))
  | detailing (claim : ClaimedGatewaySyncItem)
  | detailed (claim : ClaimedGatewaySyncItem) (item : SyncItemRow)
  | peeked (id : ItemId) (run : RunId) (sessionId : SessionId) (epoch : ℕ)
  | selected (id : ItemId) (run : RunId) (sessionId : SessionId) (epoch : ℕ)
  | itemClaimed (claim : ClaimedGatewaySyncItem) (item : SyncItemRow)
  | renewed (claim : ClaimedGatewaySyncItem) (item : SyncItemRow)
  | recovering (now : ℕ) (items : List (ItemId × SyncItemRow))
  | settling (now : ℕ) (claim : Option ClaimedGatewaySyncItem)
      (items : List (ItemId × SyncItemRow)) (waiting : List RunId) (refreshed : List (RunId × RunRow))
  | refreshing (now : ℕ) (claim : Option ClaimedGatewaySyncItem)
      (items : List (ItemId × SyncItemRow)) (run : RunId) (aggregate : Aggregate)
      (waiting : List RunId) (refreshed : List (RunId × RunRow))
  deriving DecidableEq, Repr

namespace Tx

/-- The versions of items that the transaction has written. -/
def itemWrites : Tx → List (ItemId × SyncItemRow)
  | .published _ _ _ items | .recovering _ items | .settling _ _ items _ _
  | .refreshing _ _ items _ _ _ _ => items
  | .detailed claim item | .itemClaimed claim item | .renewed claim item => [(claim.id, item)]
  | _ => []

def runWrites : Tx → List (RunId × RunRow)
  | .claimed claim row => [(claim.id, row)]
  | .published _ fence row _ => [(fence.syncRunId, row)]
  | .settling _ _ _ _ refreshed | .refreshing _ _ _ _ _ _ refreshed => refreshed
  | _ => []

/-- The rows that the transaction has written or locked FOR UPDATE. -/
def locks : Tx → List Resource
  | .fenced _ sessionId _ | .probed _ sessionId _ _ => [.fence sessionId]
  | .claimed claim _ => [.fence claim.sessionId, .run claim.id]
  | .discovering _ fence _ => [.run fence.syncRunId]
  | .selected id _ _ _ => [.item id]
  | k => k.runWrites.map (fun p => .run p.1) ++ k.itemWrites.map fun p => .item p.1

/-- The rows that the transaction has locked FOR SHARE. -/
def shares : Tx → List Resource
  | .fenceShared _ sessionId _ => [.fence sessionId]
  | .owned _ sessionId fence => [.fence sessionId, .run fence.syncRunId]
  | .detailing claim | .detailed claim _ =>
    [.item claim.id, .run claim.syncRunId, .fence claim.sessionId]
  | _ => []

end Tx

/-- `itemIds` are the items inserted so far, `runIds` the runs; the claims are what the workers
hold. -/
structure State where
  clock : ℕ
  drawn : ℕ
  fences : SessionId → ℕ
  runs : RunId → Option RunRow
  runIds : List RunId
  items : ItemId → Option SyncItemRow
  itemIds : List ItemId
  runClaims : List ClaimedSyncRun
  itemClaims : List ClaimedGatewaySyncItem
  started : ℕ
  txs : ℕ → Tx

def initial : State where
  clock := 0
  drawn := 0
  fences := fun _ => 0
  runs := fun _ => none
  runIds := []
  items := fun _ => none
  itemIds := []
  runClaims := []
  itemClaims := []
  started := 0
  txs := fun _ => .closed

namespace State

variable (s : State)

def hasStatus (sessionId : SessionId) (statuses : List GatewayDiscovery.SyncRunStatus) : Bool :=
  s.runIds.any fun r => (s.runs r).any fun row =>
    row.run.sessionId == sessionId && decide (row.run.status ∈ statuses)

/-- Nobody but `n` has locked the row FOR UPDATE. -/
def Sharable (n : ℕ) (r : Resource) : Prop := ∀ m < s.started, m ≠ n → r ∉ (s.txs m).locks

/-- Nobody but `n` has locked the row. -/
def Free (n : ℕ) (r : Resource) : Prop :=
  ∀ m < s.started, m ≠ n → r ∉ (s.txs m).locks ∧ r ∉ (s.txs m).shares

instance (n : ℕ) (r : Resource) : Decidable (s.Sharable n r) :=
  inferInstanceAs (Decidable (∀ m < s.started, _ → _))

instance (n : ℕ) (r : Resource) : Decidable (s.Free n r) :=
  inferInstanceAs (Decidable (∀ m < s.started, _ → _))

/-- The items of a run that a statement of the transaction sees. -/
def itemsSeen (k : Tx) (run : RunId) : List SyncItemRow :=
  (s.itemIds.filterMap fun i => (k.itemWrites.lookup i).or (s.items i)).filter
    (·.syncRunId = run)

end State

/-- The first statement of a transaction. -/
inductive Opening where
  | claimRun (id : RunId)
  | assertFence (table : WriteTable) (sessionId : SessionId) (fence : SyncWriteFence)
  | readDiscovery (sessionId : SessionId) (fence : SyncWriteFence) (now : ℕ)
  | assertItem (claim : ClaimedGatewaySyncItem) (now : ℕ)
  | peekItem (id : ItemId)
  | renewItem (claim : ClaimedGatewaySyncItem) (now : ℕ)
  | completeItem (claim : ClaimedGatewaySyncItem) (now members : ℕ)
  | skipItem (claim : ClaimedGatewaySyncItem) (now : ℕ) (error : String)
  | failItem (claim : ClaimedGatewaySyncItem) (now random : ℕ) (error : String) (retryable : Bool)
  | recoverItems (now : ℕ)
  deriving Repr

/-- A further statement of a transaction, or its end. -/
inductive TxEvent where
  | probe
  | updateRun (now : ℕ)
  | assertRun (now : ℕ)
  | lockRun
  | publish (discovered : ℕ) (groups : List GroupId)
  | defer
  | renewDetail (time : ℕ)
  | lockItem
  | claimItem (now : ℕ)
  | recoverItem (id : ItemId)
  | recovered
  | aggregate
  | writeParent
  | commit
  | abort
  deriving Repr

inductive Event where
  | tick (ms : ℕ)
  | createRun (sessionId : SessionId) (mode : GatewaySyncMode) (now : ℕ)
  | recoverExpiredRun (id : RunId) (now : ℕ)
  | renewRun (claim : ClaimedSyncRun) (now : ℕ)
  | failAttempt (claim : ClaimedSyncRun) (now groups members : ℕ) (error : String)
  | completeRun (claim : ClaimedSyncRun) (now groups members : ℕ)
  | deleteRun (id : RunId)
  | opening (first : Opening)
  | tx (n : ℕ) (event : TxEvent)
  deriving Repr

section Steps

variable (maxAttempts : ℕ) (s : State)

/-- `assertSyncWriteOwnership`, and `assertDiscoveryOwnership` but for the fence: what they ask of
the run. -/
def FencedRun (now : ℕ) (sessionId : SessionId) (fence : SyncWriteFence) (row : RunRow) : Prop :=
  row.run.sessionId = sessionId ∧ RunOwned now fence.leaseToken row.run ∧
    row.run.syncEpoch = some fence.syncEpoch

instance (now : ℕ) (sessionId : SessionId) (fence : SyncWriteFence) (row : RunRow) :
    Decidable (FencedRun now sessionId fence row) :=
  inferInstanceAs (Decidable (_ ∧ _))

/-- `assertSyncItemWriteOwnership`, of the rows it joins. -/
def FencedItem (now : ℕ) (claim : ClaimedGatewaySyncItem) (item : SyncItemRow) (row : RunRow) :
    Prop :=
  item.syncRunId = claim.syncRunId ∧ row.run.sessionId = claim.sessionId ∧
    Owned now claim.leaseToken item ∧ row.run.status = .running ∧
    row.run.syncEpoch = some claim.syncEpoch

instance (now : ℕ) (claim : ClaimedGatewaySyncItem) (item : SyncItemRow) (row : RunRow) :
    Decidable (FencedItem now claim item row) :=
  inferInstanceAs (Decidable (_ ∧ _))

/-- A transaction of the holder of a claim that begins with an UPDATE of its item. -/
def startItem (claim : ClaimedGatewaySyncItem) (now : ℕ)
    (f : SyncItemRow → Option SyncItemRow) (next : SyncItemRow → Tx) : Option Tx :=
  match (s.items claim.id).bind f with
  | some item =>
    guarded (claim ∈ s.itemClaims ∧ now ≤ s.clock ∧ s.Free s.started (.item claim.id)) (next item)
  | none => none

/-- `complete`, `skip` and `fail` after their UPDATE, with the run to refresh. -/
def settled (claim : ClaimedGatewaySyncItem) (now : ℕ) (item : SyncItemRow) : Tx :=
  .settling now (some claim) [(claim.id, item)] [item.syncRunId] []

/-- The INSERT that makes sure of the row of the fence belongs to the step that locks it. -/
def opened : Opening → Option Tx
  | .claimRun id =>
    match s.runs id with
    | some row =>
      guarded (s.Free s.started (.fence row.run.sessionId))
        (.fenced id row.run.sessionId (s.fences row.run.sessionId))
    | none => none
  | .assertFence table sessionId fence =>
    guarded (s.fences sessionId = fence.syncEpoch ∧ s.Sharable s.started (.fence sessionId))
      (.fenceShared table sessionId fence)
  | .readDiscovery sessionId fence now =>
    guarded (now ≤ s.clock ∧ s.fences sessionId = fence.syncEpoch) (.noticed sessionId fence now)
  | .assertItem claim now =>
    match s.items claim.id, s.runs claim.syncRunId with
    | some item, some row =>
      guarded (now ≤ s.clock ∧ FencedItem now claim item row ∧
          s.fences claim.sessionId = claim.syncEpoch ∧ s.Sharable s.started (.item claim.id) ∧
          s.Sharable s.started (.run claim.syncRunId) ∧
          s.Sharable s.started (.fence claim.sessionId))
        (.detailing claim)
    | _, _ => none
  | .peekItem id =>
    match s.items id with
    | some item =>
      match s.runs item.syncRunId with
      | some row =>
        match row.run.syncEpoch with
        | some epoch =>
          guarded (row.run.status = .running)
            (.peeked id item.syncRunId row.run.sessionId epoch)
        | none => none
      | none => none
    | none => none
  | .renewItem claim now =>
    startItem s claim now (GatewaySyncItemStatements.renewLease now claim.leaseToken)
      (.renewed claim)
  | .completeItem claim now members =>
    startItem s claim now (GatewaySyncItemStatements.complete now claim.leaseToken members)
      (settled claim now)
  | .skipItem claim now error =>
    startItem s claim now (GatewaySyncItemStatements.skip now claim.leaseToken error)
      (settled claim now)
  | .failItem claim now random error retryable =>
    startItem s claim now
      (GatewaySyncItemStatements.fail maxAttempts now claim.leaseToken random error retryable)
      (settled claim now)
  | .recoverItems now => guarded (now ≤ s.clock) (.recovering now [])

/-- The groups for which a run has items already. -/
def present (run : RunId) : List GroupId := (s.itemsSeen .closed run).map SyncItemRow.groupId

def txNext (n : ℕ) : Tx → TxEvent → Option Tx
  | .fenced id sessionId epoch, .probe =>
    some (.probed id sessionId epoch (s.hasStatus sessionId [.running]))
  | .probed id sessionId epoch running, .updateRun now =>
    match (s.runs id).bind (claim now s.drawn (epoch + 1)) with
    | some row =>
      guarded (now ≤ s.clock ∧ running = false ∧ s.Free n (.run id))
        (.claimed ⟨id, sessionId, s.drawn, row.run.attemptCount, epoch + 1⟩ row)
    | none => none
  | .fenceShared table sessionId fence, .assertRun now =>
    match s.runs fence.syncRunId with
    | some row =>
      guarded (now ≤ s.clock ∧ FencedRun now sessionId fence row ∧
          s.Sharable n (.run fence.syncRunId))
        (.owned table sessionId fence)
    | none => none
  | .noticed sessionId fence now, .lockRun =>
    match s.runs fence.syncRunId with
    | some row =>
      guarded (FencedRun now sessionId fence row ∧ s.Free n (.run fence.syncRunId))
        (.discovering sessionId fence now)
    | none => none
  | .discovering sessionId fence now, .publish discovered groups =>
    (s.runs fence.syncRunId).map fun row =>
      let items := insertedItems now fence.syncRunId s.drawn (present s fence.syncRunId) groups
      .published sessionId fence (published now discovered groups.length row) items
  | .discovering sessionId fence now, .defer =>
    (s.runs fence.syncRunId).map fun row => .published sessionId fence (deferred now row) []
  | .detailing claim, .renewDetail time =>
    match (s.items claim.id).bind
        (GatewaySyncItemStatements.renewAfterWrite time claim.leaseToken) with
    | some item =>
      guarded (time ≤ s.clock ∧ s.Free n (.item claim.id)) (.detailed claim item)
    | none => none
  | .peeked id run sessionId epoch, .lockItem =>
    guarded ((s.items id).isSome ∧ s.Free n (.item id)) (.selected id run sessionId epoch)
  | .selected id run sessionId epoch, .claimItem now =>
    match (s.items id).bind (GatewaySyncItemStatements.claim maxAttempts now s.drawn) with
    | some item =>
      guarded (now ≤ s.clock)
        (.itemClaimed ⟨id, run, sessionId, item.groupId, epoch, s.drawn, item.attemptCount⟩ item)
    | none => none
  | .recovering now items, .recoverItem id =>
    match (s.items id).bind (GatewaySyncItemStatements.recoverExpired maxAttempts now) with
    | some item =>
      guarded (id ∉ items.map Prod.fst ∧ s.Free n (.item id))
        (.recovering now (items ++ [(id, item)]))
    | none => none
  | .recovering now items, .recovered =>
    some (.settling now none items (items.map fun p => p.2.syncRunId).dedup [])
  | .settling now claim items (run :: waiting) refreshed, .aggregate =>
    let seen := s.itemsSeen (.settling now claim items (run :: waiting) refreshed) run
    some (.refreshing now claim items run (aggregate seen) waiting refreshed)
  | .refreshing now claim items run aggregate waiting done, .writeParent =>
    match s.runs run with
    | some row =>
      guarded (s.Free n (.run run))
        (.settling now claim items waiting ((run, refreshed now aggregate row) :: done))
    | none => some (.settling now claim items waiting done)
  | _, _ => none

/-- The stages at which a transaction has nothing more to do than to commit. -/
def Tx.Done : Tx → Prop
  | .claimed _ _ | .owned _ _ _ | .published _ _ _ _ | .detailed _ _ | .itemClaimed _ _
  | .renewed _ _ | .settling _ _ _ [] _ => True
  | _ => False

instance : (k : Tx) → Decidable k.Done
  | .claimed _ _ | .owned _ _ _ | .published _ _ _ _ | .detailed _ _ | .itemClaimed _ _
  | .renewed _ _ | .settling _ _ _ [] _ => isTrue trivial
  | .closed | .fenced _ _ _ | .probed _ _ _ _ | .fenceShared _ _ _ | .noticed _ _ _
  | .discovering _ _ _ | .detailing _ | .peeked _ _ _ _ | .selected _ _ _ _ | .recovering _ _
  | .settling _ _ _ (_ :: _) _ | .refreshing _ _ _ _ _ _ _ => isFalse id

/-- How many ids and tokens a statement draws. -/
def draws : Tx → ℕ
  | .claimed _ _ | .itemClaimed _ _ => 1
  | .published _ _ _ items => items.length
  | _ => 0

/-- What a commit makes visible. -/
def committed (k : Tx) : State :=
  { s with
    fences :=
      match k with
      | .claimed claim _ => Function.update s.fences claim.sessionId claim.syncEpoch
      | _ => s.fences
    runs := fun r => (k.runWrites.lookup r).or (s.runs r)
    items := fun i => (k.itemWrites.lookup i).or (s.items i)
    itemIds :=
      match k with
      | .published _ _ _ items => s.itemIds ++ items.map Prod.fst
      | _ => s.itemIds
    runClaims :=
      match k with
      | .claimed claim _ => claim :: s.runClaims
      | _ => s.runClaims
    itemClaims :=
      match k with
      | .itemClaimed claim _ => claim :: s.itemClaims
      | _ => s.itemClaims }

/-- A statement of its own on one run, which waits for whoever holds it. -/
def updateRun (id : RunId) (now : ℕ) (f : RunRow → Option RunRow) : Option State :=
  match (s.runs id).bind f with
  | some row =>
    guarded (now ≤ s.clock ∧ s.Free s.started (.run id))
      { s with runs := Function.update s.runs id (some row) }
  | none => none

/-- A creation holds the advisory lock of its session, and is one step. -/
def step : Event → Option State
  | .tick ms => some { s with clock := s.clock + ms }
  | .createRun sessionId mode now =>
    guarded (now ≤ s.clock ∧ s.hasStatus sessionId [.pending, .running] = false) { s with
      drawn := s.drawn + 1
      runs := Function.update s.runs s.drawn (some (newRun now sessionId mode))
      runIds := s.drawn :: s.runIds }
  | .recoverExpiredRun id now => updateRun s id now (onRun (recoverExpiredRun now))
  | .renewRun claim now =>
    if claim ∈ s.runClaims then updateRun s claim.id now (onRun (renewRun now claim.leaseToken))
    else none
  | .failAttempt claim now groups members error =>
    if claim ∈ s.runClaims then
      updateRun s claim.id now (failAttempt now claim.leaseToken groups members error)
    else none
  | .completeRun claim now groups members =>
    if claim ∈ s.runClaims then
      updateRun s claim.id now (complete now claim.leaseToken groups members)
    else none
  | .deleteRun id =>
    match s.runs id with
    | some row =>
      guarded (row.run.status ∈ [.completed, .failed] ∧ s.Free s.started (.run id) ∧
          ∀ i ∈ s.itemIds, (s.items i).any (·.syncRunId = id) → s.Free s.started (.item i))
        { s with
          runs := Function.update s.runs id none
          items := fun i => (s.items i).filter (·.syncRunId ≠ id) }
    | none => none
  | .opening first =>
    (opened maxAttempts s first).map fun k =>
      { s with started := s.started + 1, txs := Function.update s.txs s.started k }
  | .tx n .commit =>
    guarded (s.txs n).Done
      { committed s (s.txs n) with txs := Function.update s.txs n .closed }
  | .tx n .abort =>
    guarded (s.txs n ≠ .closed) { s with txs := Function.update s.txs n .closed }
  | .tx n event =>
    (txNext maxAttempts s n (s.txs n) event).map fun k =>
      { s with drawn := s.drawn + draws k, txs := Function.update s.txs n k }

end Steps

def system (maxAttempts : ℕ) : System State Event := ofStep (· = initial) (step maxAttempts)

instance (maxAttempts : ℕ) (s : State) (e : Event) :
    Decidable ((system maxAttempts).enabled s e) :=
  inferInstanceAs (Decidable ((step maxAttempts s e).isSome = true))

/-- The session and the epoch of a claim that the step commits. -/
def claims (s : State) : Event → Option ClaimedSyncRun
  | .tx n .commit =>
    match s.txs n with
    | .claimed claim _ => some claim
    | _ => none
  | _ => none

/-- The writes that a step commits on behalf of an attempt, with its session and epoch. -/
def writes (s : State) : Event → List (WriteTable × SessionId × ℕ)
  | .renewRun claim _ | .failAttempt claim _ _ _ _ | .completeRun claim _ _ _ =>
    [(.runs, claim.sessionId, claim.syncEpoch)]
  | .tx n .commit =>
    match s.txs n with
    | .owned table sessionId fence => [(table, sessionId, fence.syncEpoch)]
    | .published sessionId fence _ _ =>
      [.sessions, .groups, .items, .runs].map fun table => (table, sessionId, fence.syncEpoch)
    | .detailed claim _ =>
      [.groups, .members, .items].map fun table => (table, claim.sessionId, claim.syncEpoch)
    | .itemClaimed claim _ | .renewed claim _ => [(.items, claim.sessionId, claim.syncEpoch)]
    | .settling _ (some claim) _ _ _ =>
      [.items, .groups, .runs].map fun table => (table, claim.sessionId, claim.syncEpoch)
    | _ => []
  | _ => []

end GatewaySyncTransactions
