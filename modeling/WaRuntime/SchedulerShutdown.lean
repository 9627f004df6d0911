import WaRuntime.SchedulerRunner

/-! What still runs when a scheduler has given up its leadership.
`stop` of a tick waits for the call that the tick's own timer has made. A call that the listener has
made is not waited for, and the coordinator makes one more where a wake was requested during it. -/
namespace SchedulerShutdown

open TransitionRuns SchedulerRunner

variable {c : Config} {s : State} {i i' : Instance} {t : TickName} {starter : Starter} {n : ℕ}
  {e : RunnerEvent}

section Ticks

variable {tick : Tick} {o : TickOptions} {now delay : ℕ} {error : Bool}

@[simp] theorem execute_stopped : tick.execute.1.stopped = tick.stopped := by
  unfold Tick.execute
  split <;> rfl

@[simp] theorem execute_timer : tick.execute.1.timer = tick.timer := by
  unfold Tick.execute
  split <;> rfl

@[simp] theorem execute_activeRun : tick.execute.1.activeRun = tick.activeRun := by
  unfold Tick.execute
  split <;> rfl

theorem schedule_of_stopped (h : tick.stopped = true) : tick.schedule now delay = tick := by
  simp [Tick.schedule, h]

@[simp] theorem runSettled_of_stopped (h : tick.stopped = true) :
    tick.runSettled o now = { tick with activeRun := none } :=
  schedule_of_stopped (show ({ tick with activeRun := none } : Tick).stopped = true from h)

end Ticks

/-- Nothing that the listener has started is under way, or owed. -/
def WakesSettled (i : Instance) : Prop :=
  match i.coordinator.wakeInFlight with
  | none => True
  | some pass => pass ∈ [.skipped, .reporting] ∧ i.coordinator.wakeAgain = false

instance (i : Instance) : Decidable (WakesSettled i) := by
  unfold WakesSettled
  split <;> infer_instance

/-- A tick that has been stopped: its timer makes no more calls, and if `stop` has returned, the
last one is over or was reported. -/
structure Stopped (i : Instance) (t : TickName) : Prop where
  stopped : (i.ticks t).stopped = true
  timer : (i.ticks t).timer = none
  settled : i.stopSettled t = true → (i.ticks t).activeRun = none ∨ i.incomplete t = true

/-- What an instance has to do with its passes, in each phase of the runner. -/
structure Sound (i : Instance) : Prop where
  quiet : i.phase = .idle ∨ i.phase = .acquired →
    (∀ t starter, i.pass t starter = none) ∧ ∀ t, (i.ticks t).timer = none
  stopped : (∃ since, i.phase = .stopping since) ∨ i.phase = .released →
    i.listenerStopped = true ∧ ∀ t, Stopped i t
  released : i.phase = .released → (∀ t, i.stopSettled t = true) ∧ WakesSettled i

theorem initial_sound : Sound .initial := by
  constructor
  · intro _
    refine ⟨fun t starter => ?_, fun _ => rfl⟩
    cases starter
    · rfl
    · simp [Instance.pass, Instance.initial]
  · rintro (⟨_, h⟩ | h) <;> cases h
  · intro h
    cases h

/-- A step that only moves passes on: it starts none by a timer, and none by a wake once the runner
has stopped. -/
structure MovesPasses (i i' : Instance) : Prop where
  phase : i'.phase = i.phase
  listener : i'.listenerStopped = i.listenerStopped
  settled : i'.stopSettled = i.stopSettled
  incomplete : i'.incomplete = i.incomplete
  ticks : ∀ t, (i'.ticks t).stopped = (i.ticks t).stopped ∧
    (i'.ticks t).timer = (i.ticks t).timer ∧
    ((i.ticks t).activeRun = none → (i'.ticks t).activeRun = none)
  wakes : i.phase = .released → WakesSettled i → WakesSettled i'
  quiet : i.phase = .idle ∨ i.phase = .acquired → (∀ t starter, i.pass t starter = none) →
    ∀ t starter, i'.pass t starter = none

theorem moves_sound (hI : Sound i) (h : MovesPasses i i') : Sound i' := by
  constructor
  · intro hp
    rw [h.phase] at hp
    obtain ⟨hpass, htimer⟩ := hI.quiet hp
    exact ⟨h.quiet hp hpass, fun t => (h.ticks t).2.1.trans (htimer t)⟩
  · intro hp
    rw [h.phase] at hp
    obtain ⟨hlistener, hstopped⟩ := hI.stopped hp
    refine ⟨h.listener.trans hlistener, fun t => ?_⟩
    obtain ⟨hsame, htimer, hrun⟩ := h.ticks t
    refine ⟨hsame.trans (hstopped t).stopped, htimer.trans (hstopped t).timer, fun hsettled => ?_⟩
    rw [h.settled] at hsettled
    rw [h.incomplete]
    exact ((hstopped t).settled hsettled).imp_left hrun
  · intro hp
    rw [h.phase] at hp
    obtain ⟨hall, hwakes⟩ := hI.released hp
    exact ⟨fun t => by rw [h.settled]; exact hall t, h.wakes hp hwakes⟩

section Moves

variable {tick : Tick} {pass : Pass} {k : WakeCoordinator}

/-- A tick that has been changed in place. -/
def SameTimer (old new : Tick) : Prop :=
  new.stopped = old.stopped ∧ new.timer = old.timer ∧ new.activeRun = old.activeRun

theorem same_timer_ticks (h : SameTimer (i.ticks t) tick) (t' : TickName) :
    SameTimer (i.ticks t') ((i.setTick t tick).ticks t') := by
  by_cases ht : t' = t
  · subst ht
    simpa [Instance.setTick] using h
  · simp [Instance.setTick, ht, SameTimer]

/-- A call that is under way moves on. -/
theorem setPass_moves {old : Pass} (hpass : i.pass t starter = some old)
    (hopen : old ∈ [.announcing, .operating]) (h : SameTimer (i.ticks t) tick) :
    MovesPasses i (i.setPass t pass tick starter) := by
  have hquiet : (∀ t starter, i.pass t starter = none) →
      ∀ t' starter', (i.setPass t pass tick starter).pass t' starter' = none := by
    intro hnone
    rw [hnone] at hpass
    cases hpass
  cases starter with
  | timer =>
    refine ⟨rfl, rfl, rfl, rfl, fun t' => ?_, fun _ hw => hw, fun _ => hquiet⟩
    by_cases ht : t' = t
    · subst ht
      have hrun : (i.ticks t').activeRun ≠ none := by
        rw [show (i.ticks t').activeRun = some old from hpass]
        simp
      simp only [Instance.setPass, Instance.setTick, Function.update_self]
      exact ⟨h.1, h.2.1, fun hnone => absurd hnone hrun⟩
    · simp [Instance.setPass, Instance.setTick, ht]
  | wake =>
    simp only [Instance.pass, Option.ite_none_right_eq_some] at hpass
    obtain ⟨rfl, hflight⟩ := hpass
    refine ⟨rfl, rfl, rfl, rfl, fun t' => ?_, fun _ hw => ?_, fun _ => hquiet⟩
    · obtain ⟨hs, ht, hr⟩ := same_timer_ticks (i := i) h t'
      exact ⟨hs, ht, fun hnone => hr.trans hnone⟩
    · rw [WakesSettled, hflight] at hw
      exfalso
      revert hopen hw
      cases old <;> simp

theorem same_timer_execute : SameTimer tick tick.execute.1 :=
  ⟨execute_stopped, execute_timer, execute_activeRun⟩

theorem same_timer_request : SameTimer tick (k.request tick).2 := by
  unfold WakeCoordinator.request
  split
  · exact ⟨rfl, rfl, rfl⟩
  · exact same_timer_execute

theorem same_timer_wakeSettled : SameTimer tick (k.wakeSettled tick).2 := by
  unfold WakeCoordinator.wakeSettled
  split
  · exact same_timer_request
  · exact ⟨rfl, rfl, rfl⟩

/-- A wake that changes the coordinator and the gateway tick. -/
theorem setGateway_moves {p : WakeCoordinator × Tick} (h : SameTimer (i.ticks .gateway) p.2)
    (hwakes : i.phase = .released → WakesSettled i → WakesSettled (i.setGateway p))
    (hquiet : i.phase = .idle ∨ i.phase = .acquired → (∀ t starter, i.pass t starter = none) →
      ∀ t starter, (i.setGateway p).pass t starter = none) : MovesPasses i (i.setGateway p) := by
  refine ⟨rfl, rfl, rfl, rfl, fun t => ?_, hwakes, hquiet⟩
  obtain ⟨hs, ht, hr⟩ := same_timer_ticks (i := i) h t
  exact ⟨hs, ht, fun hnone => hr.trans hnone⟩

/-- No wake follows the last one, unless it is owed. -/
theorem wake_settles_moves (hpass : i.pass t .wake ≠ none) :
    MovesPasses i (i.settle c n t .wake) := by
  refine setGateway_moves same_timer_wakeSettled (fun _ hw => ?_) fun _ hnone => ?_
  · obtain ⟨pass, hflight⟩ : ∃ pass, i.coordinator.wakeInFlight = some pass := by
      simp only [Instance.pass, ne_eq, ite_eq_right_iff, not_forall] at hpass
      exact Option.ne_none_iff_exists'.mp hpass.2
    rw [WakesSettled, hflight] at hw
    simp [WakesSettled, Instance.setGateway, Instance.setTick, WakeCoordinator.wakeSettled, hw.2]
  · exact absurd (hnone t .wake) hpass

theorem setTick_moves (h : SameTimer (i.ticks t) tick) : MovesPasses i (i.setTick t tick) := by
  refine ⟨rfl, rfl, rfl, rfl, fun t' => ?_, fun _ hw => hw, fun _ hnone t' starter => ?_⟩
  · obtain ⟨hs, ht, hr⟩ := same_timer_ticks (i := i) h t'
    exact ⟨hs, ht, fun hnone => hr.trans hnone⟩
  · cases starter with
    | timer =>
      obtain ⟨_, _, hr⟩ := same_timer_ticks (i := i) h t'
      exact hr.trans (hnone t' .timer)
    | wake => exact hnone t' .wake

end Moves

section Steps

variable {now : ℕ} {free : Bool}

/-- The phases in which timers and wakes start passes. -/
def Open (i : Instance) : Prop := i.phase = .starting ∨ i.phase = .serving

theorem open_sound (h : Open i) : Sound i := by
  constructor
  · intro hp
    rcases h with h | h <;> simp [h] at hp
  · intro hp
    rcases h with h | h <;> simp [h] at hp
  · intro hp
    rcases h with h | h <;> simp [h] at hp

theorem open_cases (i : Instance) : Open i ∨ (i.phase = .idle ∨ i.phase = .acquired) ∨
    (∃ since, i.phase = .stopping since) ∨ i.phase = .released := by
  unfold Open
  cases i.phase <;> simp

/-- A promise of the timer settles: a stopped tick is left without a call. -/
theorem timer_settles_sound (hI : Sound i) (hpass : i.pass t .timer ≠ none) :
    Sound (i.settle c now t .timer) := by
  rcases open_cases i with hopen | hquiet | hstop
  · exact open_sound hopen
  · exact absurd ((hI.quiet hquiet).1 t .timer) hpass
  · obtain ⟨hlistener, hstopped⟩ := hI.stopped hstop
    refine ⟨fun hp => ?_, fun _ => ⟨hlistener, fun t' => ?_⟩, fun hp => ⟨fun t' => ?_, ?_⟩⟩
    · change i.phase = .idle ∨ i.phase = .acquired at hp
      rcases hstop with ⟨since, hs⟩ | hs <;> simp [hs] at hp
    · by_cases ht : t' = t
      · subst ht
        have hs := (hstopped t').stopped
        refine ⟨?_, ?_, fun _ => .inl ?_⟩ <;>
          simp [Instance.settle, Instance.setTick, hs, (hstopped t').timer]
      · obtain ⟨hs, htimer, hsettled⟩ := hstopped t'
        refine ⟨?_, ?_, fun h => ?_⟩
        · simpa [Instance.settle, Instance.setTick, ht] using hs
        · simpa [Instance.settle, Instance.setTick, ht] using htimer
        · simp only [Instance.settle, Instance.setTick, Function.update_of_ne ht] at h ⊢
          exact hsettled h
    · by_cases ht : t' = t
      · simp [Instance.settle, ht]
      · simpa [Instance.settle, ht] using (hI.released hp).1 t'
    · exact (hI.released hp).2

theorem shutDown_sound : Sound (i.shutDown now) := by
  refine ⟨fun hp => ?_, fun _ => ⟨rfl, fun t => ⟨rfl, rfl, fun hsettled => .inl ?_⟩⟩, fun hp => ?_⟩
  · rcases hp with hp | hp <;> cases hp
  · change (i.ticks t).activeRun = none
    simpa [Instance.shutDown, awaitsRun] using hsettled
  · cases hp

theorem next_sound (hI : Sound i) (h : i.next c now free e = some i')
    (hok : e = .release → WakesSettled i) : Sound i' := by
  cases e <;> simp only [Instance.next] at h
  case acquire =>
    obtain ⟨_, rfl⟩ := guarded_eq_some.mp h
    refine ⟨fun _ => initial_sound.quiet (.inl rfl), fun hp => ?_, fun hp => ?_⟩
    · rcases hp with ⟨_, hp⟩ | hp <;> cases hp
    · cases hp
  case startTicks =>
    obtain ⟨_, rfl⟩ := guarded_eq_some.mp h
    exact open_sound (.inl rfl)
  case listenerStarted =>
    obtain ⟨_, rfl⟩ := guarded_eq_some.mp h
    exact open_sound (.inr rfl)
  case timerFires t =>
    obtain ⟨⟨due, hdue, _⟩, rfl⟩ := guarded_eq_some.mp h
    rcases open_cases i with hopen | hquiet | hstop
    · exact open_sound hopen
    · simp [(hI.quiet hquiet).2 t] at hdue
    · simp [((hI.stopped hstop).2 t).timer] at hdue
  case announced t starter =>
    obtain ⟨hpass, rfl⟩ := guarded_eq_some.mp h
    exact moves_sound hI (setPass_moves hpass (by simp) ⟨rfl, rfl, rfl⟩)
  case timesOut t =>
    obtain ⟨_, rfl⟩ := guarded_eq_some.mp h
    exact moves_sound hI (setTick_moves ⟨rfl, rfl, rfl⟩)
  case operationEnds t starter error =>
    obtain ⟨hpass, rfl⟩ := guarded_eq_some.mp h
    exact moves_sound hI (setPass_moves hpass (by simp) ⟨rfl, rfl, rfl⟩)
  case settles t starter =>
    obtain ⟨hpass, rfl⟩ := guarded_eq_some.mp h
    have hsome : i.pass t starter ≠ none := by
      intro hnone
      simp [hnone] at hpass
    cases starter with
    | timer => exact timer_settles_sound hI hsome
    | wake => exact moves_sound hI (wake_settles_moves hsome)
  case requestWake =>
    obtain ⟨⟨hidle, hacquired⟩, rfl⟩ := guarded_eq_some.mp h
    split
    · exact hI
    · rename_i hlistener
      rcases open_cases i with hopen | hquiet | hstop
      · exact open_sound hopen
      · exact absurd hquiet (by simp [hidle, hacquired])
      · exact absurd (hI.stopped hstop).1 hlistener
  case connectionEnds | leadershipLost =>
    obtain ⟨_, rfl⟩ := guarded_eq_some.mp h
    exact moves_sound hI ⟨rfl, rfl, rfl, rfl, fun _ => ⟨rfl, rfl, id⟩, fun _ => id, fun _ => id⟩
  case shutDown =>
    obtain ⟨_, rfl⟩ := guarded_eq_some.mp h
    exact shutDown_sound
  case listenerEnds =>
    split at h <;> cases h
    exact moves_sound hI ⟨rfl, rfl, rfl, rfl, fun _ => ⟨rfl, rfl, id⟩, fun _ => id, fun _ => id⟩
  case graceElapses t =>
    split at h
    · rename_i since hp
      obtain ⟨_, rfl⟩ := guarded_eq_some.mp h
      obtain ⟨hlistener, hstopped⟩ := hI.stopped (.inl ⟨since, hp⟩)
      refine ⟨fun hq => ?_, fun _ => ⟨hlistener, fun t' => ?_⟩, fun hr => ?_⟩
      · simp [hp] at hq
      · obtain ⟨hs, htimer, hsettled⟩ := hstopped t'
        refine ⟨hs, htimer, fun hset => ?_⟩
        by_cases ht : t' = t
        · simp [ht]
        · simp only [Function.update_of_ne ht] at hset ⊢
          exact hsettled hset
      · simp [hp] at hr
    · cases h
  case release =>
    split at h
    · rename_i since hp
      obtain ⟨⟨_, hall⟩, rfl⟩ := guarded_eq_some.mp h
      obtain ⟨hlistener, hstopped⟩ := hI.stopped (.inl ⟨since, hp⟩)
      refine ⟨fun hq => ?_, fun _ => ⟨hlistener, fun t => ?_⟩, fun _ => ⟨fun t => ?_, hok rfl⟩⟩
      · simp at hq
      · exact ⟨(hstopped t).stopped, (hstopped t).timer, (hstopped t).settled⟩
      · exact List.all_eq_true.mp hall t t.mem_all
    · cases h
  case crash =>
    cases h
    exact initial_sound

end Steps

section Runs

/-- An instance that has got past the acquisition and has not released holds the lock while its
session lasts. -/
def Leads (s : State) : Prop :=
  ∀ n, (s.instances n).phase ≠ .idle → (s.instances n).phase ≠ .released →
    (s.instances n).connected = true → s.leader = some n

/-- The steps under which nothing that the listener has started outlives the leadership. -/
def ReleasesSettled (s : State) : Event → Prop
  | .runner n .release => WakesSettled (s.instances n)
  | _ => True

instance (s : State) : (e : Event) → Decidable (ReleasesSettled s e)
  | .runner n .release => inferInstanceAs (Decidable (WakesSettled (s.instances n)))
  | .elapse _ => isTrue trivial
  | .runner _ .acquire | .runner _ .startTicks | .runner _ .listenerStarted
  | .runner _ (.timerFires _) | .runner _ (.announced _ _) | .runner _ (.timesOut _)
  | .runner _ (.operationEnds _ _ _) | .runner _ (.settles _ _) | .runner _ .requestWake
  | .runner _ .connectionEnds | .runner _ .leadershipLost | .runner _ .shutDown
  | .runner _ .listenerEnds | .runner _ (.graceElapses _) | .runner _ .crash => isTrue trivial

theorem instances_sound (h : Reachable (restrict (system c) ReleasesSettled) s) :
    ∀ n, Sound (s.instances n) := by
  refine reachable_invariant (M := restrict (system c) ReleasesSettled)
    (I := fun s => ∀ n, Sound (s.instances n)) ?_ (fun s e hI he => ?_) h
  · rintro _ rfl n
    exact initial_sound
  · have hstep := ofStep_enabled he.1
    change step c s e = some ((restrict (system c) ReleasesSettled).next s e) at hstep
    generalize (restrict (system c) ReleasesSettled).next s e = u at hstep ⊢
    cases e with
    | elapse ms =>
      cases hstep
      exact hI
    | runner n event =>
      simp only [step] at hstep
      split at hstep
      · cases hstep
      · rename_i i hi
        cases hstep
        intro m
        by_cases hm : m = n
        · subst hm
          simp only [Function.update_self]
          refine next_sound (hI m) hi ?_
          rintro rfl
          exact he.2
        · simp only [Function.update_of_ne hm]
          exact hI m

/-- A step of an instance that still leads after it has kept its session, or acquired the lock. -/
theorem next_leads {now : ℕ} {free : Bool} (h : i.next c now free e = some i')
    (hidle : i'.phase ≠ .idle) (hreleased : i'.phase ≠ .released)
    (hconnected : i'.connected = true) :
    (e = .acquire ∧ free = true) ∨
      (i.phase ≠ .idle ∧ i.phase ≠ .released ∧ i.connected = true ∧
        e ≠ .acquire ∧ e ≠ .connectionEnds ∧ e ≠ .release ∧ e ≠ .crash) := by
  cases e <;> simp only [Instance.next] at h
  case acquire =>
    obtain ⟨⟨_, hfree⟩, _⟩ := guarded_eq_some.mp h
    exact .inl ⟨rfl, hfree⟩
  case crash =>
    cases h
    exact absurd rfl hidle
  case release =>
    split at h
    · obtain ⟨_, rfl⟩ := guarded_eq_some.mp h
      exact absurd rfl hreleased
    · cases h
  case connectionEnds =>
    obtain ⟨_, rfl⟩ := guarded_eq_some.mp h
    cases hconnected
  case listenerEnds =>
    split at h <;> cases h
    exact .inr ⟨hidle, hreleased, hconnected, by simp⟩
  case graceElapses =>
    split at h
    · obtain ⟨_, rfl⟩ := guarded_eq_some.mp h
      exact .inr ⟨hidle, hreleased, hconnected, by simp⟩
    · cases h
  case requestWake =>
    obtain ⟨_, rfl⟩ := guarded_eq_some.mp h
    by_cases hl : i.listenerStopped = true
    · rw [if_pos hl] at hidle hreleased hconnected
      exact .inr ⟨hidle, hreleased, hconnected, by simp⟩
    · rw [if_neg hl] at hidle hreleased hconnected
      exact .inr ⟨hidle, hreleased, hconnected, by simp⟩
  case startTicks | listenerStarted | shutDown =>
    obtain ⟨hp, rfl⟩ := guarded_eq_some.mp h
    exact .inr ⟨by simp [hp], by simp [hp], hconnected, by simp⟩
  case announced t starter | operationEnds t starter _ =>
    obtain ⟨_, rfl⟩ := guarded_eq_some.mp h
    cases starter <;> exact .inr ⟨hidle, hreleased, hconnected, by simp⟩
  case settles t starter =>
    obtain ⟨_, rfl⟩ := guarded_eq_some.mp h
    cases starter <;> exact .inr ⟨hidle, hreleased, hconnected, by simp⟩
  all_goals
    obtain ⟨_, rfl⟩ := guarded_eq_some.mp h
    exact .inr ⟨hidle, hreleased, hconnected, by simp⟩

theorem leads (h : Reachable (system c) s) : Leads s := by
  refine reachable_invariant (M := system c) (I := Leads) ?_ (fun s e hI he => ?_) h
  · rintro _ rfl n hidle
    exact absurd rfl hidle
  · have hstep := ofStep_enabled he
    change step c s e = some ((system c).next s e) at hstep
    generalize (system c).next s e = u at hstep ⊢
    cases e with
    | elapse ms =>
      cases hstep
      exact hI
    | runner n event =>
      simp only [step] at hstep
      split at hstep
      · cases hstep
      · rename_i i hi
        cases hstep
        intro m hidle hreleased hconnected
        by_cases hm : m = n
        · subst hm
          simp only [Function.update_self] at hidle hreleased hconnected
          rcases next_leads hi hidle hreleased hconnected with ⟨rfl, _⟩ |
            ⟨hidle, hreleased, hconnected, _, _, _, _⟩
          · rfl
          · have hleader := hI m hidle hreleased hconnected
            change leaderAfter s.leader m event = some m
            unfold leaderAfter
            split <;> simp_all
        · simp only [Function.update_of_ne hm] at hidle hreleased hconnected
          have hleader := hI m hidle hreleased hconnected
          have hne : (some m : Option ℕ) ≠ some n := by simpa using hm
          change leaderAfter s.leader n event = some m
          cases event
          case acquire => simp [Instance.next, hleader] at hi
          all_goals simp [leaderAfter, hleader, hm]

end Runs

section Shutdown

/-- The operation of a tick is running, called by this starter. -/
def Operates (i : Instance) (t : TickName) (starter : Starter) : Prop :=
  i.pass t starter = some .operating

instance (i : Instance) (t : TickName) (starter : Starter) : Decidable (Operates i t starter) :=
  inferInstanceAs (Decidable (_ = _))

/-- The session that holds the lock has ended before the cleanup, or the tick was reported. -/
def Disorderly (i : Instance) (t : TickName) : Prop :=
  i.connected = false ∨ i.incomplete t = true

/-- No operation outlives the leadership of its instance, except the timer's that was reported; and
no two replicas run the same tick, unless one of them has not shut down in order. -/
structure LeadershipCovers (s : State) : Prop where
  released : ∀ n, (s.instances n).phase = .released → ∀ t starter,
    Operates (s.instances n) t starter → starter = .timer ∧ (s.instances n).incomplete t = true
  replicas : ∀ m n, m ≠ n → ∀ t starter starter', Operates (s.instances m) t starter →
    Operates (s.instances n) t starter' →
    Disorderly (s.instances m) t ∨ Disorderly (s.instances n) t

theorem released_covers (hI : Sound i) (hp : i.phase = .released) (h : Operates i t starter) :
    starter = .timer ∧ i.incomplete t = true := by
  obtain ⟨hall, hwakes⟩ := hI.released hp
  cases starter with
  | timer =>
    refine ⟨rfl, (((hI.stopped (.inr hp)).2 t).settled (hall t)).resolve_left ?_⟩
    intro hnone
    rw [Operates, Instance.pass, hnone] at h
    cases h
  | wake =>
    simp only [Operates, Instance.pass, Option.ite_none_right_eq_some] at h
    simp [WakesSettled, h.2] at hwakes

/-- An instance that operates and has nothing to report is the leader. -/
theorem operating_leads (hI : Sound (s.instances n)) (hL : Leads s)
    (h : Operates (s.instances n) t starter) (hd : ¬ Disorderly (s.instances n) t) :
    s.leader = some n := by
  obtain ⟨hconnected, hincomplete⟩ := not_or.mp hd
  refine hL n (fun hidle => ?_) (fun hreleased => ?_) (by simpa using hconnected)
  · have hnone := (hI.quiet (.inl hidle)).1 t starter
    rw [Operates, hnone] at h
    cases h
  · exact hincomplete (released_covers hI hreleased h).2

/-- Where nothing that the listener has started is under way or owed at a release, the leadership
covers every operation. -/
theorem leadership_covers_operations
    (h : Reachable (restrict (system c) ReleasesSettled) s) : LeadershipCovers s := by
  have hsound := instances_sound h
  have hleads := leads h.unrestrict
  constructor
  · exact fun n hp t starter hop => released_covers (hsound n) hp hop
  · intro m n hmn t starter starter' hm hn
    by_contra hd
    obtain ⟨hdm, hdn⟩ := not_or.mp hd
    have hleadm := operating_leads (hsound m) hleads hm hdm
    have hleadn := operating_leads (hsound n) hleads hn hdn
    rw [hleadm] at hleadn
    exact hmn (Option.some.inj hleadn)

def exampleConfig : Config := ⟨5000, 3600000, 300000, true⟩

/-- The listener has connected and has woken the gateway tick. -/
def wokenTrace (n : ℕ) : List Event :=
  [.runner n .acquire, .runner n .startTicks, .runner n .listenerStarted, .runner n .requestWake,
    .runner n (.announced .gateway .wake)]

def cleanupTrace : List Event :=
  [.runner 0 .shutDown, .runner 0 .listenerEnds, .runner 0 .release]

def finishTrace : List Event :=
  [.runner 0 (.operationEnds .gateway .wake false), .runner 0 (.settles .gateway .wake)]

def stateAfter (trace : List Event) : State := runTrace (system exampleConfig) initial trace

/-- The wake ends before the cleanup does, and another replica takes over. -/
theorem settled_wake_is_covered :
    LeadershipCovers (stateAfter (wokenTrace 0 ++ finishTrace ++ cleanupTrace ++ wokenTrace 1)) :=
  leadership_covers_operations
    ⟨wokenTrace 0 ++ finishTrace ++ cleanupTrace ++ wokenTrace 1,
      valid_trace_restricted_run rfl (by decide)⟩

/-- The gateway pass of the listener is not waited for: two replicas run it at once. -/
theorem woken_pass_outlives_leadership :
    ¬ ∀ c s, Reachable (system c) s → LeadershipCovers s := by
  intro h
  have hreach : Reachable (system exampleConfig)
      (stateAfter (wokenTrace 0 ++ cleanupTrace ++ wokenTrace 1)) :=
    ⟨_, valid_trace_run rfl (by decide)⟩
  have hcovers := (h _ _ hreach).released 0 (by decide) .gateway .wake (by decide)
  cases hcovers.1

end Shutdown

end SchedulerShutdown
