import WaRuntime.FairRuns
import WaRuntime.SchedulerRunner

/-! Wake requests of the gateway listener, and the scans that answer them.
The scheduler has started and is not stopped. A request passes the coordinator, the overlap guard of
the gateway tick and the rerun flag of `GatewayDispatchTick`; a scan is one pass of `dispatchOnce`.
`unserved` records that no scan has started since the last request; no guard reads it. -/
namespace GatewayWakes

open TransitionRuns FairRuns SchedulerRunner

/-- A `GatewayDispatchTick`: whether its `running` is set, and `rerun`. -/
structure DispatchTick where
  running : Bool
  rerun : Bool
  deriving DecidableEq, Repr

/-- `run`, up to the first query of a scan. -/
def DispatchTick.run (d : DispatchTick) : DispatchTick :=
  if d.running then { d with rerun := true } else ⟨true, false⟩

structure State where
  clock : ℕ
  scheduler : Instance
  dispatch : DispatchTick
  unserved : Bool

/-- The ticks have started, and `start` of the listener has been called. -/
def starting (c : Config) (now : ℕ) : State where
  clock := now
  scheduler :=
    { Instance.initial with
      phase := .starting
      ticks := fun _ => Tick.initial.start now
      connected := true
      listenerStopped := !c.gatewaySyncNotifyWakeupEnabled }
  dispatch := ⟨false, false⟩
  unserved := false

inductive Event where
  | elapse (ms : ℕ)
  | listenerStarted
  | timerFires (t : TickName)
  | announced (t : TickName) (starter : Starter)
  | timesOut (t : TickName)
  | rescans
  | operationEnds (t : TickName) (starter : Starter) (error : Bool)
  | settles (t : TickName) (starter : Starter)
  | requestWake
  deriving DecidableEq, Repr

/-- A step of the scheduler that the dispatcher takes no part in. -/
def schedule (c : Config) (s : State) (e : RunnerEvent) : Option State :=
  (s.scheduler.next c s.clock false e).map fun i => { s with scheduler := i }

def step (c : Config) (s : State) : Event → Option State
  | .elapse ms => some { s with clock := s.clock + ms }
  | .listenerStarted => schedule c s .listenerStarted
  | .timerFires t => schedule c s (.timerFires t)
  | .timesOut t => schedule c s (.timesOut t)
  | .settles t starter => schedule c s (.settles t starter)
  | .announced t starter =>
    (schedule c s (.announced t starter)).map fun u =>
      if t = .gateway then
        { u with dispatch := s.dispatch.run, unserved := s.dispatch.running && s.unserved }
      else u
  | .rescans =>
    guarded (s.dispatch.running ∧ s.dispatch.rerun)
      { s with dispatch := ⟨true, false⟩, unserved := false }
  | .operationEnds t starter error =>
    (guarded (t = .gateway → error = true ∨ s.dispatch.rerun = false) s).bind fun s =>
      (schedule c s (.operationEnds t starter error)).map fun u =>
        if t = .gateway then { u with dispatch := { s.dispatch with running := false } } else u
  | .requestWake =>
    (schedule c s .requestWake).map fun u =>
      { u with unserved := s.unserved || !s.scheduler.listenerStopped }

def system (c : Config) : System State Event := ofStep (fun s => ∃ now, s = starting c now) (step c)

instance (c : Config) (s : State) (e : Event) : Decidable ((system c).enabled s e) :=
  inferInstanceAs (Decidable ((step c s e).isSome = true))

theorem system_step {c : Config} {s : State} {e : Event} (he : (system c).enabled s e) :
    step c s e = some ((system c).next s e) :=
  ofStep_enabled he

/-- The listener receives a wake request. -/
def Receives (s : State) (e : Event) : Prop :=
  e = .requestWake ∧ s.scheduler.listenerStopped = false

/-- A dispatch pass starts its database scan. -/
def StartsScan (d : DispatchTick) : Event → Prop
  | .announced .gateway _ => d.running = false
  | .rescans => True
  | _ => False

/-- What the gateway pass does on its own, once it is called: no timer is waited for. -/
def ownEvents : List Event :=
  [.rescans, .announced .gateway .timer, .announced .gateway .wake,
    .operationEnds .gateway .timer false, .operationEnds .gateway .wake false,
    .operationEnds .gateway .timer true, .operationEnds .gateway .wake true,
    .settles .gateway .timer, .settles .gateway .wake]

def Own (e : Event) : Prop := e ∈ ownEvents

/-- A gateway pass scans, or is about to end. -/
def Scanning (s : State) : Prop :=
  s.scheduler.pass .gateway .timer = some .operating ∨
    s.scheduler.pass .gateway .wake = some .operating

instance (s : State) : Decidable (Scanning s) := inferInstanceAs (Decidable (_ ∨ _))

/-- Where the coordinator calls `wake`, no gateway pass is scanning, unless its scan has started
after the last request. -/
def WakesInTime (s : State) : Event → Prop
  | .requestWake =>
    s.scheduler.listenerStopped = false → s.scheduler.coordinator.wakeInFlight = none → ¬ Scanning s
  | .settles .gateway .wake =>
    s.scheduler.coordinator.wakeAgain = true → s.unserved = true → ¬ Scanning s
  | _ => True

/-- What the three layers remember of the gateway tick: `timer` is whether a timer is set. -/
structure Flags where
  listening : Bool
  running : Bool
  timer : Bool
  timerCall : Option Pass
  wakeCall : Option Pass
  wakeAgain : Bool
  dispatch : DispatchTick
  unserved : Bool
  deriving DecidableEq, Repr

def flags (s : State) : Flags where
  listening := !s.scheduler.listenerStopped
  running := (s.scheduler.ticks .gateway).running
  timer := (s.scheduler.ticks .gateway).timer.isSome
  timerCall := (s.scheduler.ticks .gateway).activeRun
  wakeCall := s.scheduler.coordinator.wakeInFlight
  wakeAgain := s.scheduler.coordinator.wakeAgain
  dispatch := s.dispatch
  unserved := s.unserved

namespace Flags

def call (f : Flags) : Starter → Option Pass
  | .timer => f.timerCall
  | .wake => f.wakeCall

def setCall (f : Flags) (pass : Pass) : Starter → Flags
  | .timer => { f with timerCall := some pass }
  | .wake => { f with wakeCall := some pass }

/-- What becomes of a call of `execute`. -/
def called (f : Flags) : Pass := if f.running then .skipped else .announcing

def wake (f : Flags) : Flags := { f with running := true, wakeCall := some f.called }

/-- What a step can do to the flags. -/
inductive Change : Flags → Event → Flags → Prop
  | other {f e} : ¬ Own e → Change f e f
  | fires {f} : f.timer = true → Change f (.timerFires .gateway)
      { f with timer := false, running := true, timerCall := some f.called }
  | again {f pass} : f.listening = true → f.wakeCall = some pass →
      Change f .requestWake { f with wakeAgain := true, unserved := true }
  | wakes {f} : f.listening = true → f.wakeCall = none →
      Change f .requestWake { f.wake with unserved := true }
  | announced {f} starter : f.call starter = some .announcing →
      Change f (.announced .gateway starter)
        { f.setCall .operating starter with
          dispatch := f.dispatch.run
          unserved := f.dispatch.running && f.unserved }
  | rescans {f} : f.dispatch.rerun = true →
      Change f .rescans { f with dispatch := ⟨true, false⟩, unserved := false }
  | ends {f} starter error : f.call starter = some .operating →
      Change f (.operationEnds .gateway starter error)
        { f.setCall .reporting starter with
          running := false
          dispatch := { f.dispatch with running := false } }
  | timerSettles {f} timer : f.timerCall ∈ [some .skipped, some .reporting] →
      Change f (.settles .gateway .timer) { f with timerCall := none, timer }
  | wakeSettles {f} : f.wakeCall ∈ [some .skipped, some .reporting] → f.wakeAgain = false →
      Change f (.settles .gateway .wake) { f with wakeCall := none }
  | wakesAgain {f} : f.wakeCall ∈ [some .skipped, some .reporting] → f.wakeAgain = true →
      Change f (.settles .gateway .wake) { f.wake with wakeAgain := false }

end Flags

section Steps

variable {c : Config} {s u : State} {e : Event} {r : RunnerEvent} {t : TickName} {tick : Tick}
  {i : Instance}

theorem schedule_some (h : schedule c s r = some u) :
    ∃ i, s.scheduler.next c s.clock false r = some i ∧ u = { s with scheduler := i } := by
  obtain ⟨i, hi, rfl⟩ := Option.map_eq_some_iff.mp h
  exact ⟨i, hi, rfl⟩

theorem call_flags (s : State) (starter : Starter) :
    (flags s).call starter = s.scheduler.pass .gateway starter := by
  cases starter with
  | timer => rfl
  | wake => simp [Flags.call, flags, Instance.pass]

/-- A step of another tick leaves the gateway tick alone. -/
theorem flags_setTick (ht : t ≠ .gateway) (s : State) :
    flags { s with scheduler := s.scheduler.setTick t tick } = flags s := by
  simp [flags, Instance.setTick, Function.update_of_ne ht.symm]

theorem other_pass {starter : Starter} {pass : Pass} (ht : t ≠ .gateway)
    (h : s.scheduler.pass t starter = some pass) : starter = .timer := by
  cases starter with
  | timer => rfl
  | wake => simp [Instance.pass, ht] at h

theorem execute_called (f : Flags) (tick : Tick) (h : tick.running = f.running) :
    tick.execute.2 = f.called ∧ tick.execute.1.running = true ∧
      tick.execute.1.timer = tick.timer ∧ tick.execute.1.activeRun = tick.activeRun := by
  unfold Tick.execute Flags.called
  rw [← h]
  by_cases hr : tick.running = true
  · simp [hr]
  · simp [hr]

theorem request_changes (hl : s.scheduler.listenerStopped = false) :
    Flags.Change (flags s) .requestWake
      { flags { s with
          scheduler := s.scheduler.setGateway
            (s.scheduler.coordinator.request (s.scheduler.ticks .gateway)) } with
        unserved := true } := by
  cases hw : s.scheduler.coordinator.wakeInFlight with
  | some pass =>
    have h := Flags.Change.again (f := flags s) (by simp [flags, hl]) hw
    simpa [flags, Instance.setGateway, Instance.setTick, WakeCoordinator.request, hw] using h
  | none =>
    have h := Flags.Change.wakes (f := flags s) (by simp [flags, hl]) hw
    obtain ⟨hpass, hrun, htimer, hactive⟩ :=
      execute_called (flags s) (s.scheduler.ticks .gateway) rfl
    simpa [flags, Flags.wake, Instance.setGateway, Instance.setTick, WakeCoordinator.request, hw,
      hpass, hrun, htimer, hactive] using h

theorem wake_settles_changes
    (h : (flags s).wakeCall ∈ [some Pass.skipped, some .reporting]) :
    Flags.Change (flags s) (.settles .gateway .wake)
      (flags { s with
        scheduler := s.scheduler.setGateway
          (s.scheduler.coordinator.wakeSettled (s.scheduler.ticks .gateway)) }) := by
  cases ha : s.scheduler.coordinator.wakeAgain with
  | false =>
    have hc := Flags.Change.wakeSettles h ha
    simpa [flags, Instance.setGateway, Instance.setTick, WakeCoordinator.wakeSettled, ha] using hc
  | true =>
    have hc := Flags.Change.wakesAgain h ha
    obtain ⟨hpass, hrun, htimer, hactive⟩ :=
      execute_called (flags s) (s.scheduler.ticks .gateway) rfl
    simpa [flags, Flags.wake, Instance.setGateway, Instance.setTick, WakeCoordinator.wakeSettled,
      WakeCoordinator.request, ha, hpass, hrun, htimer, hactive] using hc

theorem timer_settles_changes
    (h : (flags s).timerCall ∈ [some Pass.skipped, some .reporting]) (i : Instance)
    (hi : i = s.scheduler.settle c s.clock .gateway .timer) :
    Flags.Change (flags s) (.settles .gateway .timer) (flags { s with scheduler := i }) := by
  subst hi
  have hc := Flags.Change.timerSettles
    ((s.scheduler.settle c s.clock .gateway .timer).ticks .gateway).timer.isSome h
  by_cases hstopped : (s.scheduler.ticks .gateway).stopped = true
  · simpa [flags, Instance.settle, Instance.setTick, Tick.runSettled, Tick.schedule, hstopped]
      using hc
  · simpa [flags, Instance.settle, Instance.setTick, Tick.runSettled, Tick.schedule, hstopped]
      using hc

theorem flags_other_pass {pass old : Pass} {starter : Starter} (ht : t ≠ .gateway)
    (h : s.scheduler.pass t starter = some old) :
    flags { s with scheduler := s.scheduler.setPass t pass tick starter } = flags s := by
  obtain rfl := other_pass ht h
  exact flags_setTick ht s

theorem step_changes (h : step c s e = some u) : Flags.Change (flags s) e (flags u) := by
  cases e with
  | elapse ms =>
    cases h
    exact .other (by simp [Own, ownEvents])
  | listenerStarted =>
    obtain ⟨i, hi, rfl⟩ := schedule_some h
    obtain ⟨_, rfl⟩ := guarded_eq_some.mp hi
    exact .other (by simp [Own, ownEvents])
  | timerFires t =>
    obtain ⟨i, hi, rfl⟩ := schedule_some h
    obtain ⟨⟨due, hdue, _⟩, rfl⟩ := guarded_eq_some.mp hi
    by_cases ht : t = .gateway
    · subst ht
      have hc := Flags.Change.fires (f := flags s) (by simp [flags, Option.mem_def.mp hdue])
      obtain ⟨hpass, hrun, htimer, _⟩ := execute_called (flags s)
        { s.scheduler.ticks .gateway with timer := none } rfl
      simpa [flags, Instance.setTick, Tick.timerFires, hpass, hrun, htimer] using hc
    · rw [flags_setTick ht]
      exact .other (by simp [Own, ownEvents])
  | timesOut t =>
    obtain ⟨i, hi, rfl⟩ := schedule_some h
    obtain ⟨_, rfl⟩ := guarded_eq_some.mp hi
    have hsame : flags { s with
        scheduler := s.scheduler.setTick t
          { s.scheduler.ticks t with timedOut := true, timeout := none } } = flags s := by
      by_cases ht : t = .gateway
      · subst ht
        simp [flags, Instance.setTick]
      · exact flags_setTick ht s
    rw [hsame]
    exact .other (by simp [Own, ownEvents])
  | announced t starter =>
    obtain ⟨v, hv, rfl⟩ := Option.map_eq_some_iff.mp h
    obtain ⟨i, hi, rfl⟩ := schedule_some hv
    obtain ⟨hpass, rfl⟩ := guarded_eq_some.mp hi
    by_cases ht : t = .gateway
    · subst ht
      have hcall : (flags s).call starter = some .announcing := (call_flags s starter).trans hpass
      have hc := Flags.Change.announced starter hcall
      cases starter <;>
        simpa [flags, Flags.setCall, Instance.setPass, Instance.setGateway, Instance.setTick,
          Tick.operate] using hc
    · rw [if_neg ht, flags_other_pass ht hpass]
      exact .other (by simp [Own, ownEvents, ht])
  | rescans =>
    obtain ⟨⟨_, hr⟩, rfl⟩ := guarded_eq_some.mp h
    exact .rescans hr
  | operationEnds t starter error =>
    obtain ⟨v, hv, hw⟩ := Option.bind_eq_some_iff.mp h
    obtain ⟨_, rfl⟩ := guarded_eq_some.mp hv
    obtain ⟨w, hends, rfl⟩ := Option.map_eq_some_iff.mp hw
    obtain ⟨i, hi, rfl⟩ := schedule_some hends
    obtain ⟨hpass, rfl⟩ := guarded_eq_some.mp hi
    by_cases ht : t = .gateway
    · subst ht
      have hc := Flags.Change.ends starter error ((call_flags s starter).trans hpass)
      cases starter <;>
        simpa [flags, Flags.setCall, Instance.setPass, Instance.setGateway, Instance.setTick,
          Tick.complete] using hc
    · rw [if_neg ht, flags_other_pass ht hpass]
      exact .other (by simp [Own, ownEvents, ht])
  | settles t starter =>
    obtain ⟨i, hi, rfl⟩ := schedule_some h
    obtain ⟨hpass, rfl⟩ := guarded_eq_some.mp hi
    by_cases ht : t = .gateway
    · subst ht
      rw [← call_flags] at hpass
      cases starter with
      | timer => exact timer_settles_changes hpass _ rfl
      | wake => exact wake_settles_changes hpass
    · obtain rfl : starter = .timer := by
        by_contra hs
        cases starter <;> simp [Instance.pass, ht] at hs hpass
      refine (flags_setTick ht s).symm ▸ Flags.Change.other ?_
      simp [Own, ownEvents, ht]
  | requestWake =>
    obtain ⟨v, hv, rfl⟩ := Option.map_eq_some_iff.mp h
    obtain ⟨i, hi, rfl⟩ := schedule_some hv
    obtain ⟨_, rfl⟩ := guarded_eq_some.mp hi
    by_cases hl : s.scheduler.listenerStopped = true
    · rw [if_pos hl]
      have hc := Flags.Change.other (f := flags s) (e := .requestWake)
        (by simp [Own, ownEvents])
      simpa [flags, hl] using hc
    · have hc := request_changes (Bool.eq_false_iff.mpr hl)
      simpa [flags, hl] using hc

end Steps

namespace Flags

variable {f g : Flags} {e : Event}

/-- The call is past the overlap guard, and has not ended. -/
def Inside (call : Option Pass) : Prop := call = some .announcing ∨ call = some .operating

/-- The overlap guard keeps the calls apart, so the dispatcher is called by one at a time and its
rerun flag is never set. -/
structure Coherent (f : Flags) : Prop where
  running : f.running = true ↔ Inside f.timerCall ∨ Inside f.wakeCall
  single : Inside f.timerCall → ¬ Inside f.wakeCall
  dispatching : f.dispatch.running = true ↔
    f.timerCall = some .operating ∨ f.wakeCall = some .operating
  rerun : f.dispatch.rerun = false
  timer : f.timer = true → f.timerCall = none

def Scanning (f : Flags) : Prop := f.timerCall = some .operating ∨ f.wakeCall = some .operating

/-- An unserved request will be answered by a scan that is about to start, or by another wake. -/
def Owed (f : Flags) : Prop :=
  f.unserved = true → f.timerCall = some .announcing ∨ f.wakeCall = some .announcing ∨
    (f.wakeCall ≠ none ∧ f.wakeAgain = true)

def InTime (f : Flags) : Event → Prop
  | .requestWake => f.listening = true → f.wakeCall = none → ¬ f.Scanning
  | .settles .gateway .wake => f.wakeAgain = true → f.unserved = true → ¬ f.Scanning
  | _ => True

@[simp] theorem not_inside_none : ¬ Inside none := by simp [Inside]

@[simp] theorem not_inside_skipped : ¬ Inside (some .skipped) := by simp [Inside]

@[simp] theorem not_inside_reporting : ¬ Inside (some .reporting) := by simp [Inside]

@[simp] theorem inside_announcing : Inside (some .announcing) := .inl rfl

@[simp] theorem inside_operating : Inside (some .operating) := .inr rfl

theorem not_inside_ended {call : Option Pass}
    (h : call ∈ [some Pass.skipped, some .reporting]) : ¬ Inside call := by
  rcases List.mem_cons.mp h with rfl | h
  · exact not_inside_skipped
  · rw [List.mem_singleton.mp h]
    exact not_inside_reporting

theorem not_operating {call : Option Pass} (h : ¬ Inside call) : call ≠ some .operating :=
  fun heq => h (.inr heq)

/-- A call of the timer, while it has none in flight. -/
theorem coherent_timer (hf : Coherent f) (hout : ¬ Inside f.timerCall) :
    Coherent { f with timer := false, running := true, timerCall := some f.called } := by
  obtain ⟨hrun, _, hdisp, hrerun, _⟩ := hf
  simp only [hout, not_operating hout, false_or] at hrun hdisp
  by_cases hr : f.running = true
  · have hcalled : f.called = .skipped := if_pos hr
    have hwake := hrun.mp hr
    refine ⟨?_, ?_, ?_, hrerun, ?_⟩
    · simpa [hcalled] using hwake
    · simp [hcalled]
    · simpa [hcalled] using hdisp
    · simp
  · have hcalled : f.called = .announcing := if_neg hr
    have hwake : ¬ Inside f.wakeCall := fun h => hr (hrun.mpr h)
    refine ⟨?_, ?_, ?_, hrerun, ?_⟩
    · simp [hcalled]
    · simpa [hcalled] using hwake
    · simpa [hcalled] using hdisp
    · simp

/-- A call of `wake`, while the coordinator has none in flight. -/
theorem coherent_wake (hf : Coherent f) (hout : ¬ Inside f.wakeCall) : Coherent f.wake := by
  obtain ⟨hrun, _, hdisp, hrerun, htimer⟩ := hf
  simp only [hout, not_operating hout, or_false] at hrun hdisp
  by_cases hr : f.running = true
  · have hcalled : f.called = .skipped := if_pos hr
    have hin := hrun.mp hr
    refine ⟨?_, ?_, ?_, hrerun, htimer⟩
    · simpa [wake, hcalled] using hin
    · simp [wake, hcalled]
    · simpa [wake, hcalled] using hdisp
  · have hcalled : f.called = .announcing := if_neg hr
    have hin : ¬ Inside f.timerCall := fun h => hr (hrun.mpr h)
    refine ⟨?_, ?_, ?_, hrerun, htimer⟩
    · simp [wake, hcalled]
    · simp [wake, hin]
    · simpa [wake, hcalled] using hdisp

/-- What the coherence of the flags depends on. -/
theorem coherent_congr {f g : Flags} (hf : Coherent f) (hr : g.running = f.running)
    (ht : g.timer = f.timer) (hc : g.timerCall = f.timerCall) (hw : g.wakeCall = f.wakeCall)
    (hd : g.dispatch = f.dispatch) : Coherent g := by
  obtain ⟨hrun, hsingle, hdisp, hrerun, htimer⟩ := hf
  refine ⟨?_, ?_, ?_, ?_, ?_⟩
  · rwa [hr, hc, hw]
  · rwa [hc, hw]
  · rwa [hd, hc, hw]
  · rwa [hd]
  · rwa [ht, hc]

/-- One call operates at a time, so the dispatcher is not running when it is called. -/
theorem dispatch_idle (hf : Coherent f) {starter : Starter}
    (hcall : f.call starter = some .announcing) : f.dispatch.running = false := by
  by_contra hrun
  have hop := hf.dispatching.mp (by simpa using hrun)
  cases starter with
  | timer =>
    have hin : Inside f.timerCall := .inl hcall
    rcases hop with hop | hop
    · cases hop.symm.trans hcall
    · exact hf.single hin (.inr hop)
  | wake =>
    have hin : Inside f.wakeCall := .inl hcall
    rcases hop with hop | hop
    · exact hf.single (.inr hop) hin
    · cases hop.symm.trans hcall

/-- Of two calls, the one is out while the other is inside. -/
theorem other_out (hf : Coherent f) : (Inside f.timerCall → ¬ Inside f.wakeCall) ∧
    (Inside f.wakeCall → ¬ Inside f.timerCall) :=
  ⟨hf.single, fun hw ht => hf.single ht hw⟩

theorem coherent_announced (hf : Coherent f) {starter : Starter} {unserved : Bool}
    (hcall : f.call starter = some .announcing) :
    Coherent { f.setCall .operating starter with dispatch := f.dispatch.run, unserved } := by
  have hidle := dispatch_idle hf hcall
  have hrun : f.dispatch.run = ⟨true, false⟩ := if_neg (by simp [hidle])
  cases starter with
  | timer =>
    have hin : Inside f.timerCall := .inl hcall
    have hout := (other_out hf).1 hin
    have hrunning := hf.running.mpr (.inl hin)
    refine ⟨?_, ?_, ?_, ?_, ?_⟩
    · simpa [setCall] using hrunning
    · simpa [setCall] using hout
    · simp [setCall, hrun]
    · simp [hrun]
    · intro ht
      have hnone := hf.timer ht
      rw [hnone] at hin
      exact absurd hin not_inside_none
  | wake =>
    have hin : Inside f.wakeCall := .inl hcall
    have hout := (other_out hf).2 hin
    have hrunning := hf.running.mpr (.inr hin)
    refine ⟨?_, ?_, ?_, ?_, ?_⟩
    · simpa [setCall] using hrunning
    · intro ht
      exact absurd ht hout
    · simp [setCall, hrun]
    · simp [hrun]
    · exact hf.timer

theorem coherent_ends (hf : Coherent f) {starter : Starter}
    (hcall : f.call starter = some .operating) :
    Coherent { f.setCall .reporting starter with
      running := false
      dispatch := { f.dispatch with running := false } } := by
  have hrerun := hf.rerun
  cases starter with
  | timer =>
    have hin : Inside f.timerCall := .inr hcall
    have hout := (other_out hf).1 hin
    refine ⟨?_, ?_, ?_, ?_, ?_⟩
    · simpa [setCall] using hout
    · simp [setCall]
    · simpa [setCall] using not_operating hout
    · exact hrerun
    · intro ht
      have hnone := hf.timer ht
      rw [hnone] at hin
      exact absurd hin not_inside_none
  | wake =>
    have hin : Inside f.wakeCall := .inr hcall
    have hout := (other_out hf).2 hin
    refine ⟨?_, ?_, ?_, ?_, ?_⟩
    · simpa [setCall] using hout
    · simp [setCall]
    · simpa [setCall] using not_operating hout
    · exact hrerun
    · exact hf.timer

theorem Change.coherent (h : Change f e g) (hf : Coherent f) : Coherent g := by
  cases h with
  | other => exact hf
  | again => exact coherent_congr hf rfl rfl rfl rfl rfl
  | fires ht =>
    have hnone := hf.timer ht
    exact coherent_timer hf (by simp [hnone])
  | wakes _ hw =>
    exact coherent_congr (coherent_wake hf (by simp [hw])) rfl rfl rfl rfl rfl
  | announced starter hcall => exact coherent_announced hf hcall
  | rescans hr => exact absurd hr (by simp [hf.rerun])
  | ends starter error hcall => exact coherent_ends hf hcall
  | timerSettles timer hcall =>
    have hout := not_inside_ended hcall
    obtain ⟨hrun, _, hdisp, hrerun, _⟩ := hf
    simp only [hout, not_operating hout, false_or] at hrun hdisp
    exact ⟨by simpa using hrun, by simp, by simpa using hdisp, hrerun, by simp⟩
  | wakeSettles hcall =>
    have hout := not_inside_ended hcall
    obtain ⟨hrun, _, hdisp, hrerun, htimer⟩ := hf
    simp only [hout, not_operating hout, or_false] at hrun hdisp
    exact ⟨by simpa using hrun, by simp, by simpa using hdisp, hrerun, htimer⟩
  | wakesAgain hcall =>
    exact coherent_congr (coherent_wake hf (not_inside_ended hcall)) rfl rfl rfl rfl rfl

/-- Only a call of `wake` that is passed over while a scan runs loses a request. -/
theorem Change.owed (h : Change f e g) (hc : Coherent f) (hf : Owed f) (hok : InTime f e) :
    Owed g := by
  obtain ⟨hrun, hsingle, hdisp, hrerun, _⟩ := hc
  cases h with
  | other => exact hf
  | again _ hw =>
    intro _
    exact .inr (.inr ⟨by simp [hw], rfl⟩)
  | fires ht => grind [called, Inside, Owed]
  | wakes hl hw =>
    have hidle : ¬ f.Scanning := hok hl hw
    grind [called, Inside, Owed, wake, Scanning]
  | announced starter hcall =>
    intro hu
    have hnone : f.dispatch.running = false := by
      cases starter <;> grind [call, Inside]
    simp [hnone] at hu
  | rescans hr =>
    intro hu
    cases hu
  | ends starter error hcall => cases starter <;> grind [call, setCall, Inside, Owed]
  | timerSettles timer hcall => grind [Owed]
  | wakeSettles hcall ha => grind [Owed]
  | wakesAgain hcall ha =>
    intro hu
    have hidle : ¬ f.Scanning := hok ha hu
    grind [called, Inside, wake, Scanning]

/-- A request is served by the start of a scan only. -/
theorem Change.starts_scan (h : Change f e g) (hf : f.unserved = true) (hg : g.unserved = false) :
    StartsScan f.dispatch e := by
  cases h with
  | announced starter hcall => simpa [StartsScan, hf] using hg
  | rescans hr => trivial
  | again | wakes => cases hg
  | ends starter => cases starter <;> cases hf.symm.trans hg
  | _ => cases hf.symm.trans hg

/-- A request waits for a scan. -/
structure Pending (f : Flags) : Prop where
  coherent : Coherent f
  owed : Owed f
  unserved : f.unserved = true

/-- The step that brings the scan nearer. -/
def helpful (f : Flags) : Event :=
  if f.timerCall = some .announcing then .announced .gateway .timer
  else if f.wakeCall = some .announcing then .announced .gateway .wake
  else if f.wakeCall = some .operating then .operationEnds .gateway .wake false
  else .settles .gateway .wake

/-- How many of these steps are left before the scan can start. -/
def rank (f : Flags) : ℕ :=
  if f.timerCall = some .announcing ∨ f.wakeCall = some .announcing then 0
  else if f.wakeCall = some .operating then 2
  else 1

theorem helpful_own (f : Flags) : Own f.helpful := by
  unfold helpful
  split_ifs <;> simp [Own, ownEvents]

/-- Other calls that come and go neither serve the request nor delay it. -/
theorem Pending.moves (hp : Pending f) (h : Change f e g) (hok : InTime f e) :
    g.unserved = false ∨ (Pending g ∧ (rank g < rank f ∨
      (e ≠ helpful f ∧ rank g = rank f ∧ helpful g = helpful f))) := by
  have hg := h.coherent hp.coherent
  have ho := h.owed hp.coherent hp.owed hok
  obtain ⟨⟨hrun, hsingle, hdisp, hrerun, htimer⟩, howed, hu⟩ := hp
  cases hgu : g.unserved with
  | false => exact .inl rfl
  | true =>
    refine .inr ⟨⟨hg, ho, hgu⟩, ?_⟩
    cases h with
    | other hown =>
      refine .inr ⟨?_, rfl, rfl⟩
      rintro rfl
      exact hown (helpful_own f)
    | again _ hw => exact .inr ⟨by grind [helpful], rfl, rfl⟩
    | fires ht => grind [helpful, rank, called, Inside]
    | wakes hl hw => grind [helpful, rank, called, Inside, wake, Owed]
    | announced starter hcall =>
      have hnone : f.dispatch.running = false := by
        cases starter <;> grind [call, Inside]
      simp [hnone] at hgu
    | rescans hr => cases hgu
    | ends starter error hcall => cases starter <;> grind [helpful, rank, call, setCall, Inside]
    | timerSettles timer hcall => grind [helpful, rank]
    | wakeSettles hcall ha => grind [helpful, rank, Owed]
    | wakesAgain hcall ha =>
      have hidle : ¬ f.Scanning := hok ha hu
      grind [helpful, rank, called, Inside, wake, Scanning]

end Flags

section Runs

variable {c : Config} {s : State} {e : Event}

theorem in_time (h : WakesInTime s e) : (flags s).InTime e := by
  cases e with
  | requestWake =>
    intro hl hw
    have hidle : ¬ Scanning s := h (by simpa [flags] using hl) hw
    simpa [Scanning, Flags.Scanning, flags, Instance.pass] using hidle
  | settles t starter =>
    cases starter with
    | timer => cases t <;> trivial
    | wake =>
      by_cases ht : t = .gateway
      · subst ht
        intro ha hu
        have hidle : ¬ Scanning s := h ha hu
        simpa [Scanning, Flags.Scanning, flags, Instance.pass] using hidle
      · cases t <;> trivial
  | _ => trivial

theorem starting_coherent (now : ℕ) : (flags (starting c now)).Coherent := by
  constructor <;>
    simp [flags, starting, Tick.start, Tick.initial, Tick.schedule, Instance.initial, Flags.Inside]

theorem flags_reachable (h : Reachable (restrict (system c) WakesInTime) s) :
    (flags s).Coherent ∧ (flags s).Owed := by
  refine reachable_invariant (M := restrict (system c) WakesInTime)
    (I := fun s => (flags s).Coherent ∧ (flags s).Owed) ?_ (fun s e hI he => ?_) h
  · rintro _ ⟨now, rfl⟩
    refine ⟨starting_coherent now, fun hu => ?_⟩
    cases hu
  · have hchange := step_changes (system_step he.1)
    exact ⟨hchange.coherent hI.1, hchange.owed hI.1 hI.2 (in_time he.2)⟩

theorem announced_enabled {starter : Starter}
    (h : (flags s).call starter = some .announcing) :
    (system c).enabled s (.announced .gateway starter) := by
  rw [call_flags] at h
  simp [system, ofStep, step, schedule, Instance.next, guarded, h]

theorem ended_call {call : Option Pass} (hnone : call ≠ none) (ha : call ≠ some .announcing)
    (ho : call ≠ some .operating) : call ∈ [some Pass.skipped, some .reporting] := by
  rcases call with _ | pass
  · exact absurd rfl hnone
  · cases pass <;> simp at ha ho ⊢

/-- What brings the scan nearer needs no timer and no event from outside. -/
theorem helpful_enabled (h : (flags s).Pending) : (system c).enabled s (flags s).helpful := by
  unfold Flags.helpful
  split_ifs with htimer hwake hscan
  · exact announced_enabled htimer
  · exact announced_enabled hwake
  · have hpass : s.scheduler.pass .gateway .wake = some .operating :=
      (call_flags s .wake).symm.trans hscan
    have hrerun : s.dispatch.rerun = false := h.coherent.rerun
    simp [system, ofStep, step, schedule, Instance.next, guarded, hpass, hrerun]
  · have hpass : s.scheduler.pass .gateway .wake ∈ [some .skipped, some .reporting] := by
      rw [← call_flags s .wake]
      have howed := ((h.owed h.unserved).resolve_left htimer).resolve_left hwake
      exact ended_call howed.1 hwake hscan
    simp only [system, ofStep, step, schedule, Instance.next, guarded, if_pos hpass]
    rfl

theorem scans_progress : Progress (system c) WakesInTime (fun s e => StartsScan s.dispatch e) Own
    (fun s => (flags s).Pending) (fun s => (flags s).rank) (fun s => (flags s).helpful) where
  urgent s _ := Flags.helpful_own (flags s)
  enabled s hp := helpful_enabled hp
  moves s e hp he hok := by
    have hchange := step_changes (system_step he)
    rcases hp.moves hchange (in_time hok) with hserved | hmoves
    · exact .inl (hchange.starts_scan hp.unserved hserved)
    · exact .inr hmoves

theorem received_pending {u : State} (h : step c s e = some u) (hr : Receives s e)
    (hc : (flags u).Coherent) (ho : (flags u).Owed) : (flags u).Pending := by
  obtain ⟨rfl, hl⟩ := hr
  obtain ⟨v, _, rfl⟩ := Option.map_eq_some_iff.mp h
  exact ⟨hc, ho, by simp [flags, hl]⟩

/-- In a run in which wakes are called in time, every request that the listener receives is followed
by a scan that starts after it, and nothing but the calls under way has to move for that. -/
theorem requests_are_scanned {p : Path (system c)} (hfair : Fair p Own)
    (hok : Meets p WakesInTime) {n : ℕ} (hn : p.event n = some e) (hr : Receives (p.state n) e) :
    ∃ m e', n < m ∧ p.event m = some e' ∧ StartsScan (p.state m).dispatch e' := by
  obtain ⟨henabled, hnext⟩ := p.steps n e hn
  obtain ⟨hc, ho⟩ := flags_reachable (path_reachable hok (n + 1))
  have hpending : (flags (p.state (n + 1))).Pending := by
    refine received_pending (c := c) ?_ hr hc ho
    rw [hnext]
    exact system_step henabled
  obtain ⟨m, e', hm, he', hscan⟩ := scans_progress.reaches hfair hok hpending
  exact ⟨m, e', hm, he', hscan⟩

instance (s : State) : (e : Event) → Decidable (WakesInTime s e)
  | .requestWake => inferInstanceAs (Decidable (_ → _ → _))
  | .settles .gateway .wake => inferInstanceAs (Decidable (_ → _ → _))
  | .settles .gateway .timer => isTrue trivial
  | .settles .messages _ | .settles .webhooks _ | .settles .campaigns _
  | .settles .campaignLifecycleAudit _ | .settles .retention _ | .settles .contacts _
  | .settles .contactMemberIdentityBackfill _ | .settles .contactResolution _
  | .settles .contactProjection _ | .settles .contactMessageObservations _
  | .settles .webhookRegistration _ => isTrue trivial
  | .elapse _ | .listenerStarted | .timerFires _ | .announced _ _ | .timesOut _ | .rescans
  | .operationEnds _ _ _ => isTrue trivial

/-- No pass throws. -/
def Succeeds (_ : State) : Event → Prop
  | .operationEnds _ _ error => error = false
  | _ => True

instance (s : State) : (e : Event) → Decidable (Succeeds s e)
  | .operationEnds _ _ error => inferInstanceAs (Decidable (error = false))
  | .elapse _ | .listenerStarted | .timerFires _ | .announced _ _ | .timesOut _ | .rescans
  | .settles _ _ | .requestWake => isTrue trivial

def exampleConfig : Config := ⟨10000, 3600000, 300000, true⟩

/-- The first pass of the timer ends before the listener has connected. -/
def connectedTrace : List Event :=
  [.timerFires .gateway, .announced .gateway .timer, .operationEnds .gateway .timer false,
    .settles .gateway .timer, .listenerStarted]

def wokenTrace : List Event :=
  connectedTrace ++ [.requestWake, .announced .gateway .wake,
    .operationEnds .gateway .wake false, .settles .gateway .wake]

/-- The listener connects while the first pass of the timer scans. -/
def passedOverTrace : List Event :=
  [.timerFires .gateway, .announced .gateway .timer, .requestWake, .settles .gateway .wake,
    .operationEnds .gateway .timer false, .settles .gateway .timer]

theorem woken_valid :
    ValidTrace (restrict (system exampleConfig) WakesInTime) (starting exampleConfig 0)
      wokenTrace := by
  decide +kernel

theorem passed_over_valid :
    ValidTrace (restrict (system exampleConfig) Succeeds) (starting exampleConfig 0)
      passedOverTrace := by
  decide +kernel

def woken : Path (system exampleConfig) :=
  Path.ofTrace ⟨0, rfl⟩ (restricted_trace woken_valid)

def passedOver : Path (system exampleConfig) :=
  Path.ofTrace ⟨0, rfl⟩ (restricted_trace passed_over_valid)

theorem woken_scanned :
    ∃ m e', 5 < m ∧ woken.event m = some e' ∧ StartsScan (woken.state m).dispatch e' := by
  have hrest : ∀ e ∈ ownEvents, ¬ (system exampleConfig).enabled
      (runTrace (system exampleConfig) (starting exampleConfig 0) wokenTrace) e := by
    decide +kernel
  have hfair : Fair woken Own := ofTrace_fair _ _ hrest
  have hok : Meets woken WakesInTime := ofTrace_meets _ woken_valid
  exact requests_are_scanned hfair hok (n := 5) (e := .requestWake) rfl ⟨rfl, rfl⟩

/-- The wake of the listener is passed over, and nothing scans again before the next interval. -/
theorem passed_over_unscanned :
    ¬ ∀ (c : Config) (p : Path (system c)), Fair p Own → Meets p Succeeds →
      ∀ n e, p.event n = some e → Receives (p.state n) e →
      ∃ m e', n < m ∧ p.event m = some e' ∧ StartsScan (p.state m).dispatch e' := by
  intro h
  have hrest : ∀ e ∈ ownEvents, ¬ (system exampleConfig).enabled
      (runTrace (system exampleConfig) (starting exampleConfig 0) passedOverTrace) e := by
    decide +kernel
  have hfair : Fair passedOver Own := ofTrace_fair _ _ hrest
  have hsucceeds : Meets passedOver Succeeds := ofTrace_meets _ passed_over_valid
  obtain ⟨m, e', hm, he, hscan⟩ :=
    h exampleConfig passedOver hfair hsucceeds 2 .requestWake rfl ⟨rfl, rfl⟩
  change passedOverTrace[m]? = some e' at he
  have hlt : m < 6 := (List.getElem?_eq_some_iff.mp he).1
  obtain rfl | rfl | rfl : m = 3 ∨ m = 4 ∨ m = 5 := by omega
  all_goals
    cases he
    exact hscan

end Runs

end GatewayWakes
