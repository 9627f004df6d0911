import Mathlib.Algebra.Group.Nat.Defs
import Mathlib.Data.Nat.Notation
import Mathlib.Logic.Function.Basic
import WaRuntime.TransitionRuns

/-! The scheduler process: its ticks, the listener that wakes the gateway tick, the shutdown of the
runner and the advisory lock that makes one replica the leader.
A process has one thread, so what runs between two awaits is one step; timers fire at any instant
from their due time on, and an operation takes any time. A tick that is passed over while another
pass runs answers at once, but its promise settles in a step of its own. The last-known times of a
tick, which are only reported, and the heartbeat are left out. -/
namespace SchedulerRunner

open TransitionRuns

inductive TickName where
  | messages
  | webhooks
  | gateway
  | campaigns
  | campaignLifecycleAudit
  | retention
  | contacts
  | contactMemberIdentityBackfill
  | contactResolution
  | contactProjection
  | contactMessageObservations
  | webhookRegistration
  deriving DecidableEq, Repr

def TickName.all : List TickName :=
  [.messages, .webhooks, .gateway, .campaigns, .campaignLifecycleAudit, .retention, .contacts,
    .contactMemberIdentityBackfill, .contactResolution, .contactProjection,
    .contactMessageObservations, .webhookRegistration]

theorem TickName.mem_all (t : TickName) : t ∈ TickName.all := by
  cases t <;> decide

structure Config where
  gatewaySyncPollIntervalMs : ℕ
  runtimeRetentionIntervalMs : ℕ
  openwaWebhookReconciliationIntervalMs : ℕ
  gatewaySyncNotifyWakeupEnabled : Bool
  deriving Repr

structure TickOptions where
  intervalMs : ℕ
  timeoutMs : ℕ
  maxBackoffMs : ℕ
  deriving DecidableEq, Repr

def tickOptions (intervalMs timeoutMs : ℕ) : TickOptions :=
  ⟨intervalMs, timeoutMs, max 60000 (intervalMs * 8)⟩

/-- The ticks that `run` builds. -/
def options (c : Config) : TickName → TickOptions
  | .messages | .webhooks | .campaigns => tickOptions 1000 30000
  | .gateway => tickOptions c.gatewaySyncPollIntervalMs 60000
  | .campaignLifecycleAudit => tickOptions 60000 30000
  | .retention => tickOptions c.runtimeRetentionIntervalMs 300000
  | .contacts => tickOptions 300000 900000
  | .contactMemberIdentityBackfill => tickOptions 30000 120000
  | .contactResolution => tickOptions 60000 300000
  | .contactProjection | .contactMessageObservations => tickOptions 5000 60000
  | .webhookRegistration => tickOptions c.openwaWebhookReconciliationIntervalMs 120000

/-- Where one call of `execute` stands until its promise settles. -/
inductive Pass where
  | skipped
  | announcing
  | operating
  | reporting
  deriving DecidableEq, Repr

/-- An `IsolatedSchedulerTick`. `activeRun` is the call that the tick's own timer has made. -/
structure Tick where
  running : Bool
  stopped : Bool
  timedOut : Bool
  consecutiveFailures : ℕ
  nextRunAt : Option ℕ
  timer : Option ℕ
  timeout : Option ℕ
  activeRun : Option Pass
  deriving DecidableEq, Repr

def Tick.initial : Tick where
  running := false
  stopped := true
  timedOut := false
  consecutiveFailures := 0
  nextRunAt := none
  timer := none
  timeout := none
  activeRun := none

namespace Tick

def schedule (now delayMs : ℕ) (t : Tick) : Tick :=
  if t.stopped then t
  else { t with nextRunAt := some (now + delayMs), timer := some (now + delayMs) }

def start (now : ℕ) (t : Tick) : Tick :=
  if t.stopped then { t with stopped := false }.schedule now 0 else t

/-- The first part of `execute`, up to the report that the tick is running. -/
def execute (t : Tick) : Tick × Pass :=
  if t.running then (t, .skipped)
  else ({ t with running := true, timedOut := false, nextRunAt := none }, .announcing)

def timerFires (t : Tick) : Tick :=
  let (called, pass) := { t with timer := none }.execute
  { called with activeRun := some pass }

/-- The operation starts, and the timer of its timeout with it. -/
def operate (o : TickOptions) (now : ℕ) (t : Tick) : Tick :=
  { t with timeout := some (now + o.timeoutMs) }

def nextDelayMs (o : TickOptions) (t : Tick) : ℕ :=
  if t.consecutiveFailures = 0 then o.intervalMs
  else min o.maxBackoffMs (o.intervalMs * 2 ^ min t.consecutiveFailures 10)

/-- The rest of `execute`, up to the last report. -/
def complete (o : TickOptions) (now : ℕ) (error : Bool) (t : Tick) : Tick :=
  let ended := { t with
    timeout := none
    running := false
    consecutiveFailures := if error || t.timedOut then t.consecutiveFailures + 1 else 0 }
  { ended with nextRunAt := some (now + ended.nextDelayMs o) }

/-- What follows a call by the timer: the next call is scheduled, unless the tick is stopped. -/
def runSettled (o : TickOptions) (now : ℕ) (t : Tick) : Tick :=
  { t with activeRun := none }.schedule now (t.nextRunAt.getD (now + o.intervalMs) - now)

/-- The first part of `stop`; it then waits for `activeRun`, if there is one. -/
def stop (t : Tick) : Tick := { t with stopped := true, timer := none, nextRunAt := none }

end Tick

/-- The time that `stop` waits for the active run. -/
def stopGraceMs : ℕ := 10000

/-- A `GatewayWakeCoordinator`, with the call of `execute` that its wake in flight has made. -/
structure WakeCoordinator where
  wakeInFlight : Option Pass
  wakeAgain : Bool
  deriving DecidableEq, Repr

namespace WakeCoordinator

def request (k : WakeCoordinator) (gateway : Tick) : WakeCoordinator × Tick :=
  match k.wakeInFlight with
  | some _ => ({ k with wakeAgain := true }, gateway)
  | none => ({ k with wakeInFlight := some gateway.execute.2 }, gateway.execute.1)

/-- What follows a wake: one more, if it was requested in the meantime. -/
def wakeSettled (k : WakeCoordinator) (gateway : Tick) : WakeCoordinator × Tick :=
  if k.wakeAgain then
    { k with wakeInFlight := none, wakeAgain := false }.request gateway
  else ({ k with wakeInFlight := none }, gateway)

end WakeCoordinator

/-- Where `run` stands. -/
inductive RunnerPhase where
  | idle
  | acquired
  | starting
  | serving
  | stopping (since : ℕ)
  | released
  deriving DecidableEq, Repr

/-- One scheduler process. `stopSettled` are the ticks whose `stop` has returned, `incomplete`
those it has reported as `scheduler.tick.shutdown_incomplete`; `connected` is the session that
holds the lock, `leadershipLost` what the process knows of it. -/
structure Instance where
  phase : RunnerPhase
  ticks : TickName → Tick
  coordinator : WakeCoordinator
  listenerStopped : Bool
  listenerEnded : Bool
  stopSettled : TickName → Bool
  incomplete : TickName → Bool
  connected : Bool
  leadershipLost : Bool

def Instance.initial : Instance where
  phase := .idle
  ticks := fun _ => .initial
  coordinator := ⟨none, false⟩
  listenerStopped := true
  listenerEnded := false
  stopSettled := fun _ => false
  incomplete := fun _ => false
  connected := false
  leadershipLost := false

/-- Who has called `execute`. -/
inductive Starter where
  | timer
  | wake
  deriving DecidableEq, Repr

namespace Instance

def setTick (i : Instance) (t : TickName) (tick : Tick) : Instance :=
  { i with ticks := Function.update i.ticks t tick }

def setGateway (i : Instance) (p : WakeCoordinator × Tick) : Instance :=
  { i.setTick .gateway p.2 with coordinator := p.1 }

/-- The call that a starter has in flight for a tick; the listener wakes the gateway tick only. -/
def pass (i : Instance) (t : TickName) : Starter → Option Pass
  | .timer => (i.ticks t).activeRun
  | .wake => if t = .gateway then i.coordinator.wakeInFlight else none

/-- The call of the starter moves on, with what it does to its tick. -/
def setPass (i : Instance) (t : TickName) (pass : Pass) (tick : Tick) : Starter → Instance
  | .timer => i.setTick t { tick with activeRun := some pass }
  | .wake => i.setGateway ({ i.coordinator with wakeInFlight := some pass }, tick)

end Instance

inductive RunnerEvent where
  | acquire
  | startTicks
  | listenerStarted
  | timerFires (t : TickName)
  | announced (t : TickName) (starter : Starter)
  | timesOut (t : TickName)
  | operationEnds (t : TickName) (starter : Starter) (error : Bool)
  | settles (t : TickName) (starter : Starter)
  | requestWake
  | connectionEnds
  | leadershipLost
  | shutDown
  | listenerEnds
  | graceElapses (t : TickName)
  | release
  | crash
  deriving Repr

/-- `leader` is the replica whose session holds the advisory lock. -/
structure State where
  clock : ℕ
  leader : Option ℕ
  instances : ℕ → Instance

def initial : State := ⟨0, none, fun _ => .initial⟩

inductive Event where
  | elapse (ms : ℕ)
  | runner (n : ℕ) (event : RunnerEvent)
  deriving Repr

/-- `stop` of the tick has something to wait for. -/
def awaitsRun (i : Instance) (t : TickName) : Bool := (i.ticks t).activeRun.isSome

/-- The synchronous part of the cleanup in `run`: the listener and every tick are stopped. -/
def Instance.shutDown (now : ℕ) (i : Instance) : Instance :=
  { i with
    phase := .stopping now
    listenerStopped := true
    ticks := fun t => (i.ticks t).stop
    stopSettled := fun t => !awaitsRun i t }

/-- A promise of `execute` settles; a `stop` that waits for it returns. -/
def Instance.settle (c : Config) (now : ℕ) (i : Instance) (t : TickName) : Starter → Instance
  | .timer =>
    { i.setTick t ((i.ticks t).runSettled (options c t) now) with
      stopSettled := Function.update i.stopSettled t true }
  | .wake => i.setGateway (i.coordinator.wakeSettled (i.ticks .gateway))

def Instance.next (c : Config) (now : ℕ) (lockFree : Bool) (i : Instance) :
    RunnerEvent → Option Instance
  | .acquire =>
    guarded (i.phase = .idle ∧ lockFree)
      { Instance.initial with phase := .acquired, connected := true }
  | .startTicks =>
    guarded (i.phase = .acquired)
      { i with
        phase := .starting
        ticks := fun t => (i.ticks t).start now
        listenerStopped := !c.gatewaySyncNotifyWakeupEnabled }
  | .listenerStarted => guarded (i.phase = .starting) { i with phase := .serving }
  | .timerFires t =>
    guarded (∃ due ∈ (i.ticks t).timer, due ≤ now) (i.setTick t (i.ticks t).timerFires)
  | .announced t starter =>
    guarded (i.pass t starter = some .announcing)
      (i.setPass t .operating ((i.ticks t).operate (options c t) now) starter)
  | .timesOut t =>
    guarded (∃ due ∈ (i.ticks t).timeout, due ≤ now)
      (i.setTick t { i.ticks t with timedOut := true, timeout := none })
  | .operationEnds t starter error =>
    guarded (i.pass t starter = some .operating)
      (i.setPass t .reporting ((i.ticks t).complete (options c t) now error) starter)
  | .settles t starter =>
    guarded (i.pass t starter ∈ [some .skipped, some .reporting]) (i.settle c now t starter)
  | .requestWake =>
    guarded (i.phase ≠ .idle ∧ i.phase ≠ .acquired)
      (if i.listenerStopped then i
      else i.setGateway (i.coordinator.request (i.ticks .gateway)))
  | .connectionEnds => guarded i.connected { i with connected := false }
  | .leadershipLost =>
    guarded (i.connected = false ∧ i.phase ≠ .idle ∧ i.phase ≠ .released)
      { i with leadershipLost := true }
  | .shutDown => guarded (i.phase = .serving) (i.shutDown now)
  | .listenerEnds =>
    match i.phase with
    | .stopping _ => some { i with listenerEnded := true }
    | _ => none
  | .graceElapses t =>
    match i.phase with
    | .stopping since =>
      guarded (since + stopGraceMs ≤ now ∧ i.stopSettled t = false)
        { i with
          stopSettled := Function.update i.stopSettled t true
          incomplete := Function.update i.incomplete t true }
    | _ => none
  | .release =>
    match i.phase with
    | .stopping _ =>
      guarded (i.listenerEnded ∧ TickName.all.all i.stopSettled) { i with phase := .released }
    | _ => none
  | .crash => some .initial

/-- The session of a replica holds the lock until it ends or unlocks. -/
def leaderAfter (leader : Option ℕ) (n : ℕ) : RunnerEvent → Option ℕ
  | .acquire => some n
  | .connectionEnds | .release | .crash => if leader = some n then none else leader
  | _ => leader

def step (c : Config) (s : State) : Event → Option State
  | .elapse ms => some { s with clock := s.clock + ms }
  | .runner n event =>
    match (s.instances n).next c s.clock s.leader.isNone event with
    | none => none
    | some i =>
      some { s with
        leader := leaderAfter s.leader n event
        instances := Function.update s.instances n i }

def system (c : Config) : System State Event := ofStep (· = initial) (step c)

instance (c : Config) (s : State) (e : Event) : Decidable ((system c).enabled s e) :=
  inferInstanceAs (Decidable ((step c s e).isSome = true))

end SchedulerRunner
