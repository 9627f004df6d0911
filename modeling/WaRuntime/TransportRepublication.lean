import WaRuntime.MessageJobTransitions

/-! The job table together with the queue it is published to.
The queue keeps one record for a job id and ignores an add while it has one, in whatever state.
A terminal record stays until bounded retention evicts it. The model evicts at any time. A worker
that stops leaves its record active until the queue's stall check moves it back or fails it; that
check may also fire on a worker that is only slow. -/
namespace TransportRepublication

open TransitionRuns RowVersions MessageJobStatements OpenWARequest OutboundMessageExecution
open MessageJobTransitions

inductive Record where
  | waiting
  | active (w : ℕ)
  | completed
  | failed
  deriving DecidableEq, Repr

def Record.Terminal : Record → Prop
  | .completed | .failed => True
  | _ => False

instance : (r : Record) → Decidable r.Terminal
  | .completed | .failed => isTrue trivial
  | .waiting | .active _ => isFalse id

structure State where
  core : OutboundMessageExecution.State
  transport : JobId → Option Record

def initial : State := ⟨OutboundMessageExecution.initial, fun _ => none⟩

inductive Event where
  | core (event : OutboundMessageExecution.Event)
  | stalled (job : JobId) (again : Bool)
  | evict (job : JobId)
  deriving Repr

namespace State

/-- `add` with the job id of an existing record does nothing. -/
def add (s : State) (job : JobId) : State :=
  match s.transport job with
  | none => { s with transport := Function.update s.transport job (some .waiting) }
  | some _ => s

def setRecord (s : State) (job : JobId) (record : Option Record) : State :=
  { s with transport := Function.update s.transport job record }

def retained (s : State) (job : JobId) : Prop := ∃ r ∈ s.transport job, r.Terminal

end State

def endRecord : ProcessEnd → Record
  | .completed => .completed
  | .failed => .failed

/-- What a step of the job system does to the queue; a worker settles its own record only. -/
def transportStep (s : State) : OutboundMessageExecution.Event → Option State
  | .publish _ job => some (s.add job)
  | .publishFails _ job _ stored => some (if stored then s.add job else s)
  | .deliver w job => guarded (s.transport job = some .waiting) (s.setRecord job (some (.active w)))
  | .settle w =>
    match s.core.workers w with
    | .finished job outcome =>
      if s.transport job = some (.active w) then some (s.setRecord job (some (endRecord outcome)))
      else some s
    | _ => none
  | _ => some s

def step (c : Config) (s : State) : Event → Option State
  | .core event =>
    match OutboundMessageExecution.step c s.core event, transportStep s event with
    | some core, some t => some { t with core := core }
    | _, _ => none
  | .stalled job again =>
    match s.transport job with
    | some (.active _) => some (s.setRecord job (some (if again then .waiting else .failed)))
    | _ => none
  | .evict job =>
    match s.transport job with
    | some .completed | some .failed => some (s.setRecord job none)
    | _ => none

def system (c : Config) : System State Event := ofStep (· = initial) (step c)

instance (c : Config) (s : State) (e : Event) : Decidable ((system c).enabled s e) :=
  inferInstanceAs (Decidable ((step c s e).isSome = true))

variable {c : Config} {s u : State} {e : Event} {j : JobId}

theorem core_step {event : OutboundMessageExecution.Event}
    (h : step c s (.core event) = some u) :
    OutboundMessageExecution.step c s.core event = some u.core ∧
      ∃ t, transportStep s event = some t ∧ u.transport = t.transport := by
  simp only [step] at h
  split at h
  · rename_i core t hc ht
    cases h
    exact ⟨hc, t, ht, rfl⟩
  · cases h

/-- Leaving the queue out, every run is a run of the job system. -/
theorem projects_to_jobs (c : Config) :
    Projects (system c) (OutboundMessageExecution.system c) State.core := by
  refine projects_ofStep ?_ ?_
  · rintro _ rfl
    rfl
  · intro s e u h
    cases e with
    | core event => exact ⟨[event], ofStep_execution (core_step h).1⟩
    | stalled job again =>
      simp only [step] at h
      split at h
      · cases h
        exact ⟨[], Execution.refl⟩
      · cases h
    | evict job =>
      simp only [step] at h
      split at h
      · cases h
        exact ⟨[], Execution.refl⟩
      · cases h
        exact ⟨[], Execution.refl⟩
      · cases h

/-- The ids a dispatcher has selected and not published yet. -/
def unpublished : DispatchPhase → List JobId
  | .claiming ids | .queued ids | .publishing ids | .resetting _ _ ids => ids

/-- The job is out of the dispatcher's reach: a worker has taken its row, and no dispatcher still
has the id of an earlier claim to publish. -/
def OutOfReach (s : State) (job : JobId) : Prop :=
  ¬ (s.core.jobs job).committed.AwaitsWorker ∧
    ∀ d, job ∉ unpublished (s.core.dispatchers d)

/-- The job whose record a step makes terminal. -/
def endedJob (s : State) : Event → Option JobId
  | .core (.settle w) =>
    match s.core.workers w with
    | .finished job _ => if s.transport job = some (.active w) then some job else none
    | _ => none
  | .stalled job false => some job
  | _ => none

/-- A transport run of a job ends only once the job is out of the dispatcher's reach. -/
def EndsOutOfReach (s : State) (e : Event) : Prop := ∀ job ∈ endedJob s e, OutOfReach s job

/-- A publish leaves a record that the queue will deliver: an older one that is still waiting or
active, or the one just added. -/
def PublishReaches (c : Config) (s : State) : Prop :=
  ∀ d job u, step c s (.core (.publish d job)) = some u →
    ∃ r ∈ u.transport job, ¬ r.Terminal

theorem add_retained (s : State) (job : JobId) (h : (s.add job).retained j) : s.retained j := by
  unfold State.add at h
  split at h
  · rename_i hn
    obtain ⟨r, hr, ht⟩ := h
    by_cases hj : j = job
    · subst hj
      simp only [Function.update_self, Option.mem_def, Option.some.injEq] at hr
      subst hr
      exact absurd ht id
    · simp only [Function.update_of_ne hj] at hr
      exact ⟨r, hr, ht⟩
  · exact h

/-- A record is terminal because it was, or because the step has just ended its transport run. -/
theorem retained_origin (h : step c s e = some u) (hr : u.retained j) :
    s.retained j ∨ endedJob s e = some j := by
  have hset : ∀ {job record}, (s.setRecord job record).retained j →
      s.retained j ∨ (j = job ∧ ∃ r ∈ record, r.Terminal) := by
    intro job record hr
    obtain ⟨r, hr, ht⟩ := hr
    by_cases hj : j = job
    · subst hj
      simp only [State.setRecord, Function.update_self] at hr
      exact .inr ⟨rfl, r, hr, ht⟩
    · simp only [State.setRecord, Function.update_of_ne hj] at hr
      exact .inl ⟨r, hr, ht⟩
  cases e with
  | stalled job again =>
    simp only [step] at h
    split at h
    · cases h
      obtain hs | ⟨rfl, r, hr, ht⟩ := hset hr
      · exact .inl hs
      · cases again
        · exact .inr rfl
        · simp only [if_true, Option.mem_def, Option.some.injEq] at hr
          subst hr
          exact absurd ht id
    · cases h
  | evict job =>
    simp only [step] at h
    have hev : u = s.setRecord job none := by
      split at h <;> cases h <;> rfl
    subst hev
    obtain hs | ⟨_, r, hr, _⟩ := hset hr
    · exact .inl hs
    · cases hr
  | core event =>
    obtain ⟨-, t, ht, hu⟩ := core_step h
    replace hr : t.retained j := by simpa only [State.retained, hu] using hr
    cases event <;> simp only [transportStep] at ht
    case publish d job =>
      cases ht
      exact .inl (add_retained s job hr)
    case publishFails d job error stored =>
      cases ht
      cases stored
      · exact .inl hr
      · exact .inl (add_retained s job hr)
    case deliver w job =>
      obtain ⟨_, rfl⟩ := guarded_eq_some.mp ht
      obtain hs | ⟨_, r, hr, hterm⟩ := hset hr
      · exact .inl hs
      · simp only [Option.mem_def, Option.some.injEq] at hr
        subst hr
        exact absurd hterm id
    case settle w =>
      split at ht
      · rename_i job outcome hw
        split at ht
        · rename_i hact
          cases ht
          obtain hs | ⟨rfl, _⟩ := hset hr
          · exact .inl hs
          · simp [endedJob, hw, hact]
        · cases ht
          exact .inl hr
      · cases ht
    all_goals
      cases ht
      exact .inl hr

/-- An id a dispatcher holds was held before, or its row was up for a claim. -/
theorem unpublished_origin {s u : OutboundMessageExecution.State}
    {e : OutboundMessageExecution.Event} {d : ℕ}
    (h : OutboundMessageExecution.step c s e = some u) (hj : j ∈ unpublished (u.dispatchers d)) :
    j ∈ unpublished (s.dispatchers d) ∨ (s.jobs j).committed.AwaitsWorker := by
  obtain ⟨v, hv, _, rfl⟩ := step_some h
  by_cases ha : actor e = some (.dispatcher d)
  · have hm := dispatcher_moves hv ha
    change j ∈ unpublished (v.dispatchers d) at hj
    generalize s.dispatchers d = before at hm ⊢
    generalize v.dispatchers d = after at hm hj
    cases hm with
    | lockDue hfree hdue =>
      obtain ⟨slot, hw⟩ := Option.isSome_iff_exists.mp hdue
      obtain ⟨_, row, hp, hs⟩ := lockDue_some hw
      simp only [unpublished, List.mem_append, List.mem_singleton] at hj ⊢
      rcases hj with hj | rfl
      · exact .inl hj
      · refine .inr ?_
        rw [hp]
        exact .inl hs
    | publish => exact .inl (List.mem_cons_of_mem _ hj)
    | publishFails => exact .inl (List.mem_cons_of_mem _ hj)
    | commitLost => cases hj
    | stops => cases hj
    | queueClaimed => exact .inl hj
    | commitClaim => exact .inl hj
    | resetQueued => exact .inl hj
    | nextTick => exact .inl hj
  · rw [← other_dispatcher_unchanged hv ha]
    exact .inl hj

/-- What has gone out of the dispatcher's reach stays there. -/
theorem out_of_reach_step (hc : Reachable (OutboundMessageExecution.system c) s.core)
    (h : step c s e = some u) (ho : OutOfReach s j) : OutOfReach u j := by
  have hsame : u.core = s.core ∨
      ∃ event, OutboundMessageExecution.step c s.core event = some u.core := by
    cases e with
    | core event => exact .inr ⟨event, (core_step h).1⟩
    | stalled job again =>
      simp only [step] at h
      split at h <;> cases h
      exact .inl rfl
    | evict job =>
      simp only [step] at h
      split at h <;> cases h <;> exact .inl rfl
  obtain hs | ⟨event, hs⟩ := hsame
  · simpa only [OutOfReach, hs] using ho
  · refine ⟨fun ha => ho.1 (no_return (committed_row_moves hc hs j) ha), fun d hd => ?_⟩
    · obtain hd | ha := unpublished_origin hs hd
      · exact ho.2 d hd
      · exact ho.1 ha

theorem retained_out_of_reach (h : Reachable (restrict (system c) EndsOutOfReach) s) :
    ∀ j, s.retained j → OutOfReach s j := by
  refine reachable_invariant_with (M := restrict (system c) EndsOutOfReach)
    (I := fun s => ∀ j, s.retained j → OutOfReach s j)
    (J := fun s => Reachable (OutboundMessageExecution.system c) s.core) ?_ ?_ ?_ h
  · exact fun s hs => (projects_to_jobs c).reachable hs.unrestrict
  · rintro _ rfl j ⟨r, hr, _⟩
    cases hr
  · intro s e hc hI he j hr
    have hstep := ofStep_enabled he.1
    refine out_of_reach_step hc hstep ?_
    obtain hs | hend := retained_origin hstep hr
    · exact hI j hs
    · exact he.2 j hend

/-- While every transport run ends out of the dispatcher's reach, every publish of a claimed job
reaches the queue, and no retained record is left for a job that is SCHEDULED or QUEUED. -/
theorem publish_reaches_the_queue (h : Reachable (restrict (system c) EndsOutOfReach) s) :
    PublishReaches c s ∧ ∀ j, s.retained j → ¬ (s.core.jobs j).committed.AwaitsWorker := by
  have hI := retained_out_of_reach h
  refine ⟨fun d job u hu => ?_, fun j hr => (hI j hr).1⟩
  obtain ⟨hc, t, ht, htr⟩ := core_step hu
  obtain ⟨v, hv, _, _⟩ := step_some hc
  have hm := dispatcher_moves hv (d := d) rfl
  generalize hd : s.core.dispatchers d = before at hm
  generalize v.dispatchers d = after at hm
  cases hm with
  | publish =>
    have hfresh : ¬ s.retained job := by
      intro hr
      have hout := (hI job hr).2 d
      rw [hd] at hout
      exact hout List.mem_cons_self
    cases ht
    rw [htr]
    unfold State.add
    split
    · exact ⟨.waiting, by simp, id⟩
    · rename_i r hr
      exact ⟨r, hr, fun hterm => hfresh ⟨r, hr, hterm⟩⟩

def exampleConfig : Config := ⟨true, 1000⟩

/-- A job is created and claimed; its publish is next. -/
def claimTrace : List Event :=
  [.core (.insertJob (.api 0) 1 ⟨"session", "group@g.us", "text", 0, false⟩ 0), .core (.commit (.api 0)),
    .core (.lockDue 0 1 0), .core (.queueClaimed 0 0), .core (.commitClaim 0 true)]

theorem first_publish_reaches_the_queue :
    PublishReaches exampleConfig (runTrace (system exampleConfig) initial claimTrace) :=
  (publish_reaches_the_queue (c := exampleConfig) ⟨claimTrace, valid_trace_run rfl
    ⟨⟨rfl, fun _ h => nomatch h⟩, ⟨rfl, fun _ h => nomatch h⟩, ⟨rfl, fun _ h => nomatch h⟩,
      ⟨rfl, fun _ h => nomatch h⟩, ⟨rfl, fun _ h => nomatch h⟩, trivial⟩⟩).1

/-- The job is published, `markProcessing` fails with a database error, and the worker leaves a
failed record behind a QUEUED row; the row is recovered and claimed again. -/
def reclaimTrace : List Event :=
  claimTrace ++ [.core (.publish 0 1), .core (.nextTick 0), .core (.deliver 0 1),
    .core (.startFails 0), .core (.settle 0), .core (.tick 120001),
    .core (.recoverStaleQueued 1 120001), .core (.lockDue 0 1 120001),
    .core (.queueClaimed 0 120001), .core (.commitClaim 0 true)]

def reclaimedState : State := runTrace (system exampleConfig) initial reclaimTrace

/-- The second publish is ignored: the QUEUED job has a failed record and nothing delivers it. -/
theorem retained_record_swallows_publish :
    Reachable (system exampleConfig) reclaimedState ∧
      (reclaimedState.core.jobs 1).committed.AwaitsWorker ∧
      ¬ PublishReaches exampleConfig reclaimedState := by
  refine ⟨⟨reclaimTrace, valid_trace_run rfl (by decide)⟩, by decide, fun h => ?_⟩
  have hpub : step exampleConfig reclaimedState (.core (.publish 0 1)) =
      some (runTrace (system exampleConfig) reclaimedState [.core (.publish 0 1)]) := rfl
  obtain ⟨r, hr, hterm⟩ := h 0 1 _ hpub
  have hfailed : (runTrace (system exampleConfig) reclaimedState
      [.core (.publish 0 1)]).transport 1 = some .failed := rfl
  rw [hfailed] at hr
  cases hr
  exact hterm trivial

end TransportRepublication
