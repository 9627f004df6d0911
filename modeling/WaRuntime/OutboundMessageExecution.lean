import Mathlib.Data.Finset.Insert
import WaRuntime.TransitionRuns
import WaRuntime.RowVersions
import WaRuntime.MessageJobStatements
import WaRuntime.OpenWARequest

/-! Dispatch and processing of message jobs: the dispatcher's claim transaction and its publishes,
queue deliveries, workers with their session lease, the POST and the result transaction, expiry
recovery, acknowledgement webhooks, cancellation and retention.
Every SQL statement is one step; a transaction holds its rows from its first write to its commit.
A statement over many rows is one step for each row it reaches, with one `now` of its own, so the
steps here interleave at least as freely as the statements do. Clocks are one database clock.
Any number of dispatchers and workers run, and each may stop at any step; the queue delivers a
published id any number of times. A policy answer and an upstream answer are arbitrary. -/
namespace OutboundMessageExecution

open TransitionRuns RowVersions MessageJobStatements OpenWARequest

inductive Tx where
  | dispatcher (d : ℕ)
  | worker (w : ℕ)
  | webhook (n : ℕ)
  | api (n : ℕ)
  | campaign (n : ℕ)
  deriving DecidableEq, Repr

abbrev Jobs := Table Tx JobId JobSlot

structure Config where
  allowLiveSends : Bool
  outboundMaxDelayMs : ℕ
  deriving Repr

/-- A row of `outbound_session_leases`; the table has one for a session at most. -/
structure SessionLease where
  leaseToken : ℕ
  holderMessageJobId : JobId
  leaseExpiresAt : ℕ
  deriving DecidableEq, Repr

def SessionLease.OwnedBy (job : JobId) (token : ℕ) (lease : SessionLease) : Prop :=
  lease.holderMessageJobId = job ∧ lease.leaseToken = token

instance (job : JobId) (token : ℕ) (lease : SessionLease) : Decidable (lease.OwnedBy job token) :=
  inferInstanceAs (Decidable (_ ∧ _))

/-- INSERT … ON CONFLICT DO UPDATE … WHERE; `none` where it returns no row. -/
def tryAcquire (now ttl : ℕ) (job : JobId) (token : ℕ) :
    Option SessionLease → Option SessionLease
  | none => some ⟨token, job, now + ttl⟩
  | some lease =>
    if lease.leaseExpiresAt < now ∨ lease.OwnedBy job token then some ⟨token, job, now + ttl⟩
    else none

def renew (now ttl : ℕ) (job : JobId) (token : ℕ) : Option SessionLease → Option SessionLease
  | none => none
  | some lease =>
    if lease.OwnedBy job token ∧ now < lease.leaseExpiresAt then
      some { lease with leaseExpiresAt := now + ttl }
    else none

def release (job : JobId) (token : ℕ) : Option SessionLease → Option SessionLease
  | none => none
  | some lease => if lease.OwnedBy job token then none else some lease

/-- The ttl that `verifyForSend` renews a session lease to. -/
def sendLeaseMs : ℕ := 45000

def acquisitionTtlMs (c : Config) : ℕ := c.outboundMaxDelayMs + 45000

/-- How long a waiting worker goes before it refreshes its processing lease. -/
def waitingRefreshMs : ℕ := 30000

def claimLimit : ℕ := 100

inductive DispatchPhase where
  | claiming (ids : List JobId)
  | queued (ids : List JobId)
  | publishing (ids : List JobId)
  | resetting (job : JobId) (error : String) (ids : List JobId)
  deriving DecidableEq, Repr

/-- How `process` ended: it returned, or it threw. -/
inductive ProcessEnd where
  | completed
  | failed
  deriving DecidableEq, Repr

/-- What follows the release of the session lease. -/
inductive AfterRelease where
  | finish (outcome : ProcessEnd)
  | record (result : Result)
  deriving DecidableEq, Repr

/-- Where `process` stands after `markProcessing` returned the row. `accepting` and `recording`
are the result transaction, with `written` once its UPDATE has run. -/
inductive Phase where
  | marked
  | checkingPolicy
  | acquiring (refreshedAt : ℕ)
  | leased
  | pacing
  | renewed
  | sending (counters : Counters)
  | awaiting (counters : Counters)
  | accepting (result : Result) (written : Bool)
  | releasing (after : AfterRelease)
  | recording (result : Result) (outcome : ProcessEnd) (written : Bool)
  deriving DecidableEq, Repr

structure Worker where
  job : JobId
  row : MessageJob
  token : ℕ
  phase : Phase
  deriving DecidableEq, Repr

inductive WorkerState where
  | idle
  | starting (job : JobId)
  | working (worker : Worker)
  | finished (job : JobId) (outcome : ProcessEnd)
  deriving DecidableEq, Repr

structure State where
  clock : ℕ
  jobs : Jobs
  dispatchers : ℕ → DispatchPhase
  published : Finset JobId
  leases : String → Option SessionLease
  workers : ℕ → WorkerState

def initial : State :=
  ⟨0, fun _ => Row.settled .unused, fun _ => .claiming [], ∅, fun _ => none, fun _ => .idle⟩

inductive WorkerEvent where
  | branch
  | policyAnswered (blockReason : Option String)
  | tryAcquire (now : ℕ)
  | refreshWhileWaiting (now : ℕ)
  | confirmProcessing (now : ℕ)
  | renew (now : ℕ)
  | verifyProcessing (now : ℕ)
  | fetch (job : JobId)
  | answered (outcome : Outcome String)
  | write (now : ℕ)
  | commit
  | commitLost (message : String)
  | release (deleted : Bool)
  | throws (message : String)
  deriving Repr

inductive Event where
  | tick (ms : ℕ)
  | insertJob (t : Tx) (job : JobId) (input : CreateInput) (now : ℕ)
  | cancelJob (t : Tx) (job : JobId) (now : ℕ)
  | webhookStatus (n : ℕ) (job : JobId) (openwaMessageId : String) (status : MessageJobStatus)
      (now : ℕ)
  | commit (t : Tx)
  | abort (t : Tx)
  | deleteJob (job : JobId) (cutoff : ℕ)
  | lockDue (d : ℕ) (job : JobId) (now : ℕ)
  | queueClaimed (d : ℕ) (now : ℕ)
  | commitClaim (d : ℕ) (acknowledged : Bool)
  | publish (d : ℕ) (job : JobId)
  | publishFails (d : ℕ) (job : JobId) (error : String) (stored : Bool)
  | resetQueued (d : ℕ) (now : ℕ)
  | nextTick (d : ℕ)
  | dispatcherStops (d : ℕ)
  | recoverStaleQueued (job : JobId) (now : ℕ)
  | markExpiredProcessingUnknown (job : JobId) (now : ℕ)
  | deliver (w : ℕ) (job : JobId)
  | markProcessing (w : ℕ) (now : ℕ) (token : ℕ)
  | markProcessingLost (w : ℕ) (now : ℕ)
  | startFails (w : ℕ)
  | work (w : ℕ) (event : WorkerEvent)
  | settle (w : ℕ)
  | crash (w : ℕ)
  deriving Repr

/-- The branches of `process` before the policy check. -/
def afterBranch (c : Config) (row : MessageJob) : Phase :=
  if row.dryRun then .recording .dryRunCompleted .completed false
  else if c.allowLiveSends then .checkingPolicy
  else .recording (.failed "Live send blocked: ALLOW_LIVE_SENDS=false") .failed false

def afterPolicy (clock : ℕ) : Option String → Phase
  | some reason => .recording (.failed ("Live send blocked: " ++ reason)) .failed false
  | none => .acquiring clock

def isDefinitiveUpstreamRejection : RequestError → Bool
  | .http status _ _ => 400 ≤ status && status < 500 && status != 408
  | _ => false

def afterTurn : Turn String → Phase
  | .fetchAgain counters => .sending counters
  | .returned messageId => .accepting (.accepted messageId) false
  | .raised error =>
    if isDefinitiveUpstreamRejection error then .releasing (.record (.failed error.message))
    else .releasing (.record (.unknown error.message))

/-- A job that is no longer PROCESSING is skipped: `process` releases the lease and returns. -/
def skipped : Phase := .releasing (.finish .completed)

def leaseLostError : String := "Outbound session lease lost before send"

def Worker.withPhase (k : Worker) (phase : Phase) : WorkerState :=
  .working { k with phase := phase }

def Worker.afterRelease (k : Worker) : AfterRelease → WorkerState
  | .finish outcome => .finished k.job outcome
  | .record result => k.withPhase (.recording result .failed false)

/-- An exception. Before the `try` and in the last result transaction it leaves `process`; inside
the `try` it is recorded, as FAILED only while `upstreamStarted` is false. A failed release is
ignored. -/
def Worker.afterThrow (k : Worker) (message : String) : WorkerState :=
  match k.phase with
  | .marked | .checkingPolicy | .recording _ _ _ => .finished k.job .failed
  | .acquiring _ | .leased | .pacing | .renewed =>
    k.withPhase (.releasing (.record (.failed message)))
  | .sending _ | .awaiting _ | .accepting _ _ =>
    k.withPhase (.releasing (.record (.unknown message)))
  | .releasing after => k.afterRelease after

def Worker.afterCommit (k : Worker) : WorkerState :=
  match k.phase with
  | .accepting _ _ => k.withPhase (.releasing (.finish .completed))
  | .recording _ outcome _ => .finished k.job outcome
  | _ => .working k

def Phase.result : Phase → Option (Result × Bool)
  | .accepting result written => some (result, written)
  | .recording result _ written => some (result, written)
  | _ => none

def Phase.wrote : Phase → Phase
  | .accepting result _ => .accepting result true
  | .recording result outcome _ => .recording result outcome true
  | phase => phase

namespace State

def setWorker (s : State) (w : ℕ) (k : WorkerState) : State :=
  { s with workers := Function.update s.workers w k }

def setDispatcher (s : State) (d : ℕ) (phase : DispatchPhase) : State :=
  { s with dispatchers := Function.update s.dispatchers d phase }

def setLease (s : State) (session : String) (lease : Option SessionLease) : State :=
  { s with leases := Function.update s.leases session lease }

variable {s : State} {w d : ℕ} {k : WorkerState} {phase : DispatchPhase} {session : String}
  {lease : Option SessionLease}

@[simp] theorem setWorker_workers :
    (s.setWorker w k).workers = Function.update s.workers w k := rfl

@[simp] theorem setWorker_dispatchers : (s.setWorker w k).dispatchers = s.dispatchers := rfl

@[simp] theorem setWorker_published : (s.setWorker w k).published = s.published := rfl

@[simp] theorem setDispatcher_workers : (s.setDispatcher d phase).workers = s.workers := rfl

@[simp] theorem setDispatcher_dispatchers :
    (s.setDispatcher d phase).dispatchers = Function.update s.dispatchers d phase := rfl

@[simp] theorem setDispatcher_published : (s.setDispatcher d phase).published = s.published := rfl

@[simp] theorem setLease_workers : (s.setLease session lease).workers = s.workers := rfl

@[simp] theorem setLease_dispatchers : (s.setLease session lease).dispatchers = s.dispatchers := rfl

@[simp] theorem setLease_published : (s.setLease session lease).published = s.published := rfl

end State

/-- The statement or transaction end that an event of a worker runs on the job table. -/
def workerEffect (w : ℕ) (k : Worker) : WorkerEvent → Effect Tx JobId JobSlot
  | .refreshWhileWaiting now | .confirmProcessing now | .verifyProcessing now =>
    .update (onPresent (refreshProcessingLease now)) k.job
  | .write now =>
    match k.phase.result with
    | some (result, _) => .updateIn (.worker w) (onPresent (updateResult now result)) k.job
    | none => .none
  | .commit | .commitLost _ => .commit (.worker w)
  | .throws _ => .abort (.worker w)
  | _ => .none

/-- What it does to the session lease, if it runs a statement on it. -/
def leaseAfter (c : Config) (k : Worker) (lease : Option SessionLease) :
    WorkerEvent → Option SessionLease
  | .tryAcquire now => (tryAcquire now (acquisitionTtlMs c) k.job k.token lease).or lease
  | .renew now => (renew now sendLeaseMs k.job k.token lease).or lease
  | .release deleted => if deleted then release k.job k.token lease else lease
  | _ => lease

/-- `assertMessageProcessing`: on no row it throws, and the worker skips the job. -/
def assertProcessing (s : State) (k : Worker) (now : ℕ) (phase : Phase) : Option WorkerState :=
  guarded (now ≤ s.clock)
    (match onPresent (refreshProcessingLease now) (s.jobs k.job).committed with
    | some _ => k.withPhase phase
    | none => k.withPhase skipped)

/-- Where the worker goes, with the answers of the statements it runs. -/
def workerNext (c : Config) (s : State) (k : Worker) : WorkerEvent → Option WorkerState
  | .branch =>
    match k.phase with
    | .marked => some (k.withPhase (afterBranch c k.row))
    | _ => none
  | .policyAnswered blockReason =>
    match k.phase with
    | .checkingPolicy => some (k.withPhase (afterPolicy s.clock blockReason))
    | _ => none
  | .tryAcquire now =>
    match k.phase with
    | .acquiring _ => guarded (now ≤ s.clock)
      (match tryAcquire now (acquisitionTtlMs c) k.job k.token (s.leases k.row.sessionId) with
      | some _ => k.withPhase .leased
      | none => .working k)
    | _ => none
  | .refreshWhileWaiting now =>
    match k.phase with
    | .acquiring refreshedAt =>
      if refreshedAt + waitingRefreshMs ≤ s.clock then
        assertProcessing s k now (.acquiring s.clock)
      else none
    | _ => none
  | .confirmProcessing now =>
    match k.phase with
    | .leased => assertProcessing s k now .pacing
    | _ => none
  | .renew now =>
    match k.phase with
    | .pacing => guarded (now ≤ s.clock)
      (match renew now sendLeaseMs k.job k.token (s.leases k.row.sessionId) with
      | some _ => k.withPhase .renewed
      | none => k.withPhase (.releasing (.record (.failed leaseLostError))))
    | _ => none
  | .verifyProcessing now =>
    match k.phase with
    | .renewed => assertProcessing s k now (.sending ⟨0, 0⟩)
    | _ => none
  | .fetch job =>
    match k.phase with
    | .sending counters => guarded (job = k.job) (k.withPhase (.awaiting counters))
    | _ => none
  | .answered outcome =>
    match k.phase with
    | .awaiting counters =>
      some (k.withPhase (afterTurn (turn "send_text" .post counters outcome)))
    | _ => none
  | .write now =>
    match k.phase.result with
    | some (_, false) => guarded (now ≤ s.clock) (k.withPhase k.phase.wrote)
    | _ => none
  | .commit =>
    match k.phase.result with
    | some (_, true) => some k.afterCommit
    | _ => none
  | .commitLost message =>
    match k.phase.result with
    | some (_, true) => some (k.afterThrow message)
    | _ => none
  | .release _ =>
    match k.phase with
    | .releasing after => some (k.afterRelease after)
    | _ => none
  | .throws message => some (k.afterThrow message)

/-- Transactions that hold job rows and have no other state here. -/
def Tx.External : Tx → Prop
  | .webhook _ | .api _ | .campaign _ => True
  | _ => False

instance : (t : Tx) → Decidable t.External
  | .webhook _ | .api _ | .campaign _ => isTrue trivial
  | .dispatcher _ | .worker _ => isFalse id

/-- The statement or transaction end that an event runs on the job table. -/
def jobEffect (s : State) : Event → Effect Tx JobId JobSlot
  | .insertJob t job input now => .updateIn t (insertJob now input) job
  | .cancelJob t job now => .updateIn t (onPresent (cancelJob now)) job
  | .webhookStatus n job openwaMessageId status now =>
    .updateIn (.webhook n) (onPresent (updateStatusByOpenWAMessageId now openwaMessageId status)) job
  | .commit t => .commit t
  | .abort t => .abort t
  | .deleteJob job cutoff => .update (deleteJob cutoff) job
  | .lockDue d job now => .updateIn (.dispatcher d) (lockDue now) job
  | .queueClaimed d now =>
    match s.dispatchers d with
    | .claiming ids =>
      .updateAllIn (.dispatcher d) (fun _ => onPresent fun job => some (queueClaimed now job)) ids
    | _ => .none
  | .commitClaim d _ => .commit (.dispatcher d)
  | .dispatcherStops d => .abort (.dispatcher d)
  | .resetQueued d now =>
    match s.dispatchers d with
    | .resetting job error _ => .update (onPresent (resetQueued now error)) job
    | _ => .none
  | .recoverStaleQueued job now => .update (onPresent (recoverStaleQueued now)) job
  | .markExpiredProcessingUnknown job now =>
    .update (onPresent (markExpiredProcessingUnknown now)) job
  | .markProcessing w now _ | .markProcessingLost w now =>
    match s.workers w with
    | .starting job => .update (onPresent (markProcessing now)) job
    | _ => .none
  | .work w event =>
    match s.workers w with
    | .working k => workerEffect w k event
    | _ => .none
  | .crash w => .abort (.worker w)
  | _ => .none

/-- Everything but the job table: guards, and where the parties go. SKIP LOCKED makes `lockDue`
pass over a row that any transaction holds. -/
def moveParties (c : Config) (s : State) : Event → Option State
  | .tick ms => some { s with clock := s.clock + ms }
  | .insertJob t _ _ now | .cancelJob t _ now => guarded (t.External ∧ now ≤ s.clock) s
  | .webhookStatus _ _ _ _ now | .recoverStaleQueued _ now
  | .markExpiredProcessingUnknown _ now => guarded (now ≤ s.clock) s
  | .commit t | .abort t => guarded t.External s
  | .deleteJob _ _ => some s
  | .lockDue d job now =>
    match s.dispatchers d with
    | .claiming ids =>
      guarded (now ≤ s.clock ∧ (s.jobs job).Free ∧ (lockDue now (s.jobs job).committed).isSome ∧
        ids.length < claimLimit) (s.setDispatcher d (.claiming (ids ++ [job])))
    | _ => none
  | .queueClaimed d now =>
    match s.dispatchers d with
    | .claiming ids => guarded (now ≤ s.clock ∧ ids ≠ []) (s.setDispatcher d (.queued ids))
    | _ => none
  | .commitClaim d acknowledged =>
    match s.dispatchers d with
    | .queued ids => some (s.setDispatcher d (.publishing (if acknowledged then ids else [])))
    | _ => none
  | .publish d job =>
    match s.dispatchers d with
    | .publishing (j :: ids) =>
      guarded (job = j)
        ({ s with published := insert job s.published }.setDispatcher d (.publishing ids))
    | _ => none
  | .publishFails d job error stored =>
    match s.dispatchers d with
    | .publishing (j :: ids) =>
      guarded (job = j)
        ({ s with published := if stored then insert job s.published else s.published
          }.setDispatcher d (.resetting job error ids))
    | _ => none
  | .resetQueued d now =>
    match s.dispatchers d with
    | .resetting _ _ ids => guarded (now ≤ s.clock) (s.setDispatcher d (.publishing ids))
    | _ => none
  | .nextTick d =>
    match s.dispatchers d with
    | .publishing [] => some (s.setDispatcher d (.claiming []))
    | _ => none
  | .dispatcherStops d => some (s.setDispatcher d (.claiming []))
  | .deliver w job =>
    guarded (s.workers w = .idle ∧ job ∈ s.published) (s.setWorker w (.starting job))
  | .markProcessing w now token =>
    match s.workers w with
    | .starting job =>
      guarded (now ≤ s.clock) (s.setWorker w
        (match onPresent (markProcessing now) (s.jobs job).committed with
        | some (.present row) => .working ⟨job, row, token, .marked⟩
        | _ => .finished job .completed))
    | _ => none
  | .markProcessingLost w now =>
    match s.workers w with
    | .starting job => guarded (now ≤ s.clock) (s.setWorker w (.finished job .failed))
    | _ => none
  | .startFails w =>
    match s.workers w with
    | .starting job => some (s.setWorker w (.finished job .failed))
    | _ => none
  | .work w event =>
    match s.workers w with
    | .working k =>
      (workerNext c s k event).map fun k' =>
        (s.setLease k.row.sessionId (leaseAfter c k (s.leases k.row.sessionId) event)).setWorker w k'
    | _ => none
  | .settle w =>
    match s.workers w with
    | .finished _ _ => some (s.setWorker w .idle)
    | _ => none
  | .crash w => some (s.setWorker w .idle)

/-- An event happens where its guard holds and no row it needs is locked. -/
def step (c : Config) (s : State) (e : Event) : Option State :=
  match moveParties c s e with
  | none => none
  | some u => guarded ((jobEffect s e).Ready s.jobs) { u with jobs := (jobEffect s e).apply s.jobs }

def system (c : Config) : System State Event := ofStep (· = initial) (step c)

instance (c : Config) (s : State) (e : Event) : Decidable ((system c).enabled s e) :=
  inferInstanceAs (Decidable ((step c s e).isSome = true))

theorem step_some {c : Config} {s u : State} {e : Event} (h : step c s e = some u) :
    ∃ v, moveParties c s e = some v ∧ (jobEffect s e).Ready s.jobs ∧
      u = { v with jobs := (jobEffect s e).apply s.jobs } := by
  unfold step at h
  split at h
  · cases h
  · rename_i v hv
    obtain ⟨hr, rfl⟩ := guarded_eq_some.mp h
    exact ⟨v, hv, hr, rfl⟩

/-- The party whose program takes the step; a statement of its own has none. -/
def actor : Event → Option Tx
  | .insertJob t _ _ _ | .cancelJob t _ _ => some t
  | .webhookStatus n _ _ _ _ => some (.webhook n)
  | .commit t | .abort t => some t
  | .lockDue d _ _ | .queueClaimed d _ | .commitClaim d _ | .publish d _ | .publishFails d _ _ _
  | .resetQueued d _ | .nextTick d | .dispatcherStops d => some (.dispatcher d)
  | .deliver w _ | .markProcessing w _ _ | .markProcessingLost w _ | .startFails w | .work w _
  | .settle w | .crash w => some (.worker w)
  | .tick _ | .deleteJob _ _ | .recoverStaleQueued _ _ | .markExpiredProcessingUnknown _ _ => none

section Frames

variable {c : Config} {s u v : State} {e : Event} {d w : ℕ}

/-- A transaction runs statements only in the steps of its own party. -/
theorem effect_owner {t : Tx} (h : (jobEffect s e).owner = some t) : actor e = some t := by
  cases e <;> simp only [jobEffect] at h
  case work w we =>
    split at h
    · rename_i k _
      cases we <;> simp only [workerEffect] at h
      case write now =>
        split at h
        · exact h
        · cases h
      all_goals first | exact h | cases h
    · cases h
  case queueClaimed d now =>
    split at h
    · exact h
    · cases h
  case resetQueued d now => split at h <;> cases h
  case markProcessing w now token => split at h <;> cases h
  case markProcessingLost w now => split at h <;> cases h
  all_goals first | exact h | cases h

theorem other_dispatcher_unchanged (h : moveParties c s e = some v)
    (ha : actor e ≠ some (.dispatcher d)) : v.dispatchers d = s.dispatchers d := by
  cases e <;> simp only [moveParties] at h <;> (try split at h) <;>
    simp only [guarded_eq_some, Option.some.injEq, Option.map_eq_some_iff, reduceCtorEq] at h <;>
    simp only [actor, ne_eq, Option.some.injEq, Tx.dispatcher.injEq] at ha
  all_goals
    first
    | subst h
    | obtain ⟨_, rfl⟩ := h
    | obtain ⟨_, _, rfl⟩ := h
  all_goals
    first
    | rfl
    | exact Function.update_of_ne (Ne.symm ha) _ _

theorem other_worker_unchanged (h : moveParties c s e = some v)
    (ha : actor e ≠ some (.worker w)) : v.workers w = s.workers w := by
  cases e <;> simp only [moveParties] at h <;> (try split at h) <;>
    simp only [guarded_eq_some, Option.some.injEq, Option.map_eq_some_iff, reduceCtorEq] at h <;>
    simp only [actor, ne_eq, Option.some.injEq, Tx.worker.injEq] at ha
  all_goals
    first
    | subst h
    | obtain ⟨_, rfl⟩ := h
    | obtain ⟨_, _, rfl⟩ := h
  all_goals
    first
    | rfl
    | exact Function.update_of_ne (Ne.symm ha) _ _

/-- The moves of one dispatcher. -/
inductive DispatchMove (s : State) (d : ℕ) : Event → DispatchPhase → DispatchPhase → Prop where
  | lockDue {ids job now} : (s.jobs job).Free → (lockDue now (s.jobs job).committed).isSome →
      DispatchMove s d (.lockDue d job now) (.claiming ids) (.claiming (ids ++ [job]))
  | queueClaimed {ids now} : DispatchMove s d (.queueClaimed d now) (.claiming ids) (.queued ids)
  | commitClaim {ids} : DispatchMove s d (.commitClaim d true) (.queued ids) (.publishing ids)
  | commitLost {ids} : DispatchMove s d (.commitClaim d false) (.queued ids) (.publishing [])
  | publish {job ids} :
      DispatchMove s d (.publish d job) (.publishing (job :: ids)) (.publishing ids)
  | publishFails {job error stored ids} :
      DispatchMove s d (.publishFails d job error stored) (.publishing (job :: ids))
        (.resetting job error ids)
  | resetQueued {job error ids now} :
      DispatchMove s d (.resetQueued d now) (.resetting job error ids) (.publishing ids)
  | nextTick : DispatchMove s d (.nextTick d) (.publishing []) (.claiming [])
  | stops {phase} : DispatchMove s d (.dispatcherStops d) phase (.claiming [])

theorem dispatcher_moves (h : moveParties c s e = some v) (ha : actor e = some (.dispatcher d)) :
    DispatchMove s d e (s.dispatchers d) (v.dispatchers d) := by
  cases e <;> simp only [actor, reduceCtorEq, Option.some.injEq, Tx.dispatcher.injEq] at ha <;>
    simp only [moveParties] at h
  all_goals subst ha
  case commit => cases (guarded_eq_some.mp h).1
  case abort => cases (guarded_eq_some.mp h).1
  case insertJob => cases (guarded_eq_some.mp h).1.1
  case cancelJob => cases (guarded_eq_some.mp h).1.1
  case dispatcherStops =>
    cases h
    simpa using .stops
  all_goals
    split at h <;> simp only [guarded_eq_some, Option.some.injEq, reduceCtorEq] at h
    rename_i hd
    rw [hd]
    first
    | subst h
    | obtain ⟨rfl, rfl⟩ := h
    | obtain ⟨hg, rfl⟩ := h
    simp only [State.setDispatcher_dispatchers, Function.update_self]
  · exact .lockDue hg.2.1 hg.2.2.1
  · exact .queueClaimed
  · rename_i acknowledged _ _
    cases acknowledged
    · exact .commitLost
    · exact .commitClaim
  · exact .publish
  · exact .publishFails
  · exact .resetQueued
  · exact .nextTick

/-- The moves of one worker inside `process`. -/
inductive WorkerMove (c : Config) (s : State) (k : Worker) : WorkerEvent → WorkerState → Prop where
  | branch : k.phase = .marked → WorkerMove c s k .branch (k.withPhase (afterBranch c k.row))
  | policyAnswered {reason} : k.phase = .checkingPolicy →
      WorkerMove c s k (.policyAnswered reason) (k.withPhase (afterPolicy s.clock reason))
  | acquired {now since} : k.phase = .acquiring since → now ≤ s.clock →
      (tryAcquire now (acquisitionTtlMs c) k.job k.token (s.leases k.row.sessionId)).isSome →
      WorkerMove c s k (.tryAcquire now) (k.withPhase .leased)
  | busy {now since} : k.phase = .acquiring since →
      tryAcquire now (acquisitionTtlMs c) k.job k.token (s.leases k.row.sessionId) = none →
      WorkerMove c s k (.tryAcquire now) (.working k)
  | refreshed {now since} : k.phase = .acquiring since →
      WorkerMove c s k (.refreshWhileWaiting now) (k.withPhase (.acquiring s.clock))
  | confirmed {now} : k.phase = .leased →
      WorkerMove c s k (.confirmProcessing now) (k.withPhase .pacing)
  | renewed {now} : k.phase = .pacing → now ≤ s.clock →
      (renew now sendLeaseMs k.job k.token (s.leases k.row.sessionId)).isSome →
      WorkerMove c s k (.renew now) (k.withPhase .renewed)
  | leaseLost {now} : k.phase = .pacing →
      renew now sendLeaseMs k.job k.token (s.leases k.row.sessionId) = none →
      WorkerMove c s k (.renew now) (k.withPhase (.releasing (.record (.failed leaseLostError))))
  | verified {now} : k.phase = .renewed →
      WorkerMove c s k (.verifyProcessing now) (k.withPhase (.sending ⟨0, 0⟩))
  | skips {event now} :
      (event = .refreshWhileWaiting now ∧ ∃ since, k.phase = .acquiring since) ∨
        (event = .confirmProcessing now ∧ k.phase = .leased) ∨
        (event = .verifyProcessing now ∧ k.phase = .renewed) →
      WorkerMove c s k event (k.withPhase skipped)
  | fetch {counters} : k.phase = .sending counters →
      WorkerMove c s k (.fetch k.job) (k.withPhase (.awaiting counters))
  | answered {counters outcome} : k.phase = .awaiting counters →
      WorkerMove c s k (.answered outcome)
        (k.withPhase (afterTurn (turn "send_text" .post counters outcome)))
  | write {now result} : k.phase.result = some (result, false) →
      WorkerMove c s k (.write now) (k.withPhase k.phase.wrote)
  | commit {result} : k.phase.result = some (result, true) →
      WorkerMove c s k .commit k.afterCommit
  | commitLost {message result} : k.phase.result = some (result, true) →
      WorkerMove c s k (.commitLost message) (k.afterThrow message)
  | release {deleted after} : k.phase = .releasing after →
      WorkerMove c s k (.release deleted) (k.afterRelease after)
  | throws {message} : WorkerMove c s k (.throws message) (k.afterThrow message)

theorem assert_processing_moves {k : Worker} {k' : WorkerState} {now : ℕ} {phase : Phase}
    (h : assertProcessing s k now phase = some k') :
    k' = k.withPhase phase ∨ k' = k.withPhase skipped := by
  obtain ⟨_, rfl⟩ := guarded_eq_some.mp h
  split
  · exact .inl rfl
  · exact .inr rfl

theorem worker_moves {k : Worker} {k' : WorkerState} {we : WorkerEvent}
    (h : workerNext c s k we = some k') : WorkerMove c s k we k' := by
  cases we with
  | throws message =>
    cases h
    exact .throws
  | branch =>
    simp only [workerNext] at h
    split at h <;> cases h
    rename_i hp
    exact .branch hp
  | policyAnswered reason =>
    simp only [workerNext] at h
    split at h <;> cases h
    rename_i hp
    exact .policyAnswered hp
  | tryAcquire now =>
    simp only [workerNext] at h
    split at h
    · rename_i since hp
      obtain ⟨hn, rfl⟩ := guarded_eq_some.mp h
      split
      · rename_i lease hl
        exact .acquired hp hn (by rw [hl]; rfl)
      · rename_i hl
        exact .busy hp hl
    · cases h
  | refreshWhileWaiting now =>
    simp only [workerNext] at h
    split at h
    · rename_i since hp
      split at h
      · obtain rfl | rfl := assert_processing_moves h
        · exact .refreshed hp
        · exact .skips (.inl ⟨rfl, since, hp⟩)
      · cases h
    · cases h
  | confirmProcessing now =>
    simp only [workerNext] at h
    split at h
    · rename_i hp
      obtain rfl | rfl := assert_processing_moves h
      · exact .confirmed hp
      · exact .skips (.inr (.inl ⟨rfl, hp⟩))
    · cases h
  | renew now =>
    simp only [workerNext] at h
    split at h
    · rename_i hp
      obtain ⟨hn, rfl⟩ := guarded_eq_some.mp h
      split
      · rename_i lease hl
        exact .renewed hp hn (by rw [hl]; rfl)
      · rename_i hl
        exact .leaseLost hp hl
    · cases h
  | verifyProcessing now =>
    simp only [workerNext] at h
    split at h
    · rename_i hp
      obtain rfl | rfl := assert_processing_moves h
      · exact .verified hp
      · exact .skips (.inr (.inr ⟨rfl, hp⟩))
    · cases h
  | fetch job =>
    simp only [workerNext] at h
    split at h
    · rename_i counters hp
      obtain ⟨rfl, rfl⟩ := guarded_eq_some.mp h
      exact .fetch hp
    · cases h
  | answered outcome =>
    simp only [workerNext] at h
    split at h <;> cases h
    rename_i counters hp
    exact .answered hp
  | write now =>
    simp only [workerNext] at h
    split at h
    · rename_i result hp
      obtain ⟨_, rfl⟩ := guarded_eq_some.mp h
      exact .write hp
    · cases h
  | commit =>
    simp only [workerNext] at h
    split at h <;> cases h
    rename_i result hp
    exact .commit hp
  | commitLost message =>
    simp only [workerNext] at h
    split at h <;> cases h
    rename_i result hp
    exact .commitLost hp
  | release deleted =>
    simp only [workerNext] at h
    split at h <;> cases h
    rename_i after hp
    exact .release hp

/-- Inside `process` a worker keeps its job, its row and its token. -/
theorem worker_move_keeps {k k' : Worker} {we : WorkerEvent}
    (h : WorkerMove c s k we (.working k')) :
    k'.job = k.job ∧ k'.row = k.row ∧ k'.token = k.token := by
  have hphase : ∀ phase, k.withPhase phase = .working k' →
      k'.job = k.job ∧ k'.row = k.row ∧ k'.token = k.token := by
    intro phase hp
    cases hp
    exact ⟨rfl, rfl, rfl⟩
  have hrelease : ∀ after, k.afterRelease after = .working k' →
      k'.job = k.job ∧ k'.row = k.row ∧ k'.token = k.token := by
    intro after hp
    cases after with
    | finish outcome => cases hp
    | record result => exact hphase _ hp
  have hthrow : ∀ message, k.afterThrow message = .working k' →
      k'.job = k.job ∧ k'.row = k.row ∧ k'.token = k.token := by
    intro message hp
    unfold Worker.afterThrow at hp
    split at hp
    case h_11 => exact hrelease _ hp
    all_goals first | exact hphase _ hp | cases hp
  generalize ht : WorkerState.working k' = target at h
  cases h with
  | busy =>
    cases ht
    exact ⟨rfl, rfl, rfl⟩
  | commit hr =>
    unfold Worker.afterCommit at ht
    split at ht
    · exact hphase _ ht.symm
    · cases ht
    · cases ht
      exact ⟨rfl, rfl, rfl⟩
  | commitLost => exact hthrow _ ht.symm
  | throws => exact hthrow _ ht.symm
  | release => exact hrelease _ ht.symm
  | _ => exact hphase _ ht.symm

/-- A worker is inside `process` because it was, or because it has just taken the row. -/
theorem working_origin {k' : Worker} (h : moveParties c s e = some v)
    (hw : v.workers w = .working k') :
    (actor e ≠ some (.worker w) ∧ s.workers w = .working k') ∨
      (∃ we k, e = .work w we ∧ s.workers w = .working k ∧
        WorkerMove c s k we (.working k')) ∨
      ∃ now token job row, e = .markProcessing w now token ∧ s.workers w = .starting job ∧
        k' = ⟨job, row, token, .marked⟩ ∧
        onPresent (markProcessing now) (s.jobs job).committed = some (.present row) := by
  by_cases ha : actor e = some (.worker w)
  · refine .inr ?_
    cases e <;> simp only [actor, reduceCtorEq, Option.some.injEq, Tx.worker.injEq] at ha <;>
      simp only [moveParties] at h
    all_goals subst ha
    case work w we =>
      split at h
      · rename_i k hk
        obtain ⟨k'', hk', rfl⟩ := Option.map_eq_some_iff.mp h
        simp only [State.setWorker_workers, Function.update_self] at hw
        rw [hw] at hk'
        exact .inl ⟨we, k, rfl, hk, worker_moves hk'⟩
      · cases h
    case markProcessing w now token =>
      split at h
      · rename_i job hs
        obtain ⟨_, rfl⟩ := guarded_eq_some.mp h
        simp only [State.setWorker_workers, Function.update_self] at hw
        split at hw
        · rename_i row hm
          cases hw
          exact .inr ⟨now, token, job, row, rfl, hs, rfl, hm⟩
        · cases hw
      · cases h
    case commit => cases (guarded_eq_some.mp h).1
    case abort => cases (guarded_eq_some.mp h).1
    case insertJob => cases (guarded_eq_some.mp h).1.1
    case cancelJob => cases (guarded_eq_some.mp h).1.1
    case deliver =>
      obtain ⟨_, rfl⟩ := guarded_eq_some.mp h
      simp at hw
    case crash =>
      cases h
      simp at hw
    all_goals
      split at h <;> simp only [guarded_eq_some, Option.some.injEq, reduceCtorEq] at h
      first
      | subst h
      | obtain ⟨_, rfl⟩ := h
      simp at hw
  · rw [other_worker_unchanged h ha] at hw
    exact .inl ⟨ha, hw⟩

/-- A worker stays in `process` as it is, short of its own steps and a crash. -/
theorem working_next {k : Worker} (h : moveParties c s e = some v)
    (hw : s.workers w = .working k) :
    (v.workers w = .working k ∧ (∀ we, e ≠ .work w we) ∧ e ≠ .crash w) ∨
      (∃ we, e = .work w we ∧ WorkerMove c s k we (v.workers w)) ∨
      (e = .crash w ∧ v.workers w = .idle) := by
  by_cases ha : actor e = some (.worker w)
  · refine .inr ?_
    cases e <;> simp only [actor, reduceCtorEq, Option.some.injEq, Tx.worker.injEq] at ha <;>
      simp only [moveParties] at h
    all_goals subst ha
    case work w we =>
      simp only [hw] at h
      obtain ⟨k', hk', rfl⟩ := Option.map_eq_some_iff.mp h
      refine .inl ⟨we, rfl, ?_⟩
      simpa using worker_moves hk'
    case crash w =>
      cases h
      exact .inr ⟨rfl, by simp⟩
    case commit => cases (guarded_eq_some.mp h).1
    case abort => cases (guarded_eq_some.mp h).1
    case insertJob => cases (guarded_eq_some.mp h).1.1
    case cancelJob => cases (guarded_eq_some.mp h).1.1
    all_goals simp [hw] at h
  · refine .inl ⟨?_, ?_, ?_⟩
    · rw [other_worker_unchanged h ha, hw]
    · rintro we rfl
      exact ha rfl
    · rintro rfl
      exact ha rfl

/-- The session leases change only by the statements that workers run on their own session. -/
theorem lease_changes (session : String) (h : moveParties c s e = some v) :
    v.leases session = s.leases session ∨
      ∃ w we k k', e = .work w we ∧ s.workers w = .working k ∧ k.row.sessionId = session ∧
        WorkerMove c s k we k' ∧ v.leases session = leaseAfter c k (s.leases session) we := by
  cases e <;> simp only [moveParties] at h
  case work w we =>
    split at h
    · rename_i k hk
      obtain ⟨k', hk', rfl⟩ := Option.map_eq_some_iff.mp h
      by_cases hs : session = k.row.sessionId
      · subst hs
        refine .inr ⟨w, we, k, k', rfl, hk, rfl, worker_moves hk', ?_⟩
        simp [State.setLease, State.setWorker]
      · refine .inl ?_
        simp [State.setLease, State.setWorker, hs]
    · cases h
  all_goals (try split at h)
  all_goals simp only [guarded_eq_some, Option.some.injEq, reduceCtorEq] at h
  all_goals
    first
    | subst h
    | obtain ⟨_, rfl⟩ := h
    exact .inl rfl

end Frames

end OutboundMessageExecution
