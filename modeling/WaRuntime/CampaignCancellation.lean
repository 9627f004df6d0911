import WaRuntime.OutboundSendAtMostOnce
import WaRuntime.CampaignDeliveries

/-! What the cancellation of a campaign run makes certain.
The cancel transaction holds the run row, so no other transaction writes deliveries of the run;
it waits for every job row before it looks at the status, and no writer brings a taken job back. -/
namespace CampaignCancellation

open TransitionRuns RowVersions MessageJobStatements CampaignRunStatements CampaignExecution
open CampaignRunTransitions CampaignDeliveries
open MessageJobTransitions (SlotMoves SlotStep Withdrawn)
open OutboundMessageExecution (Tx Config)

variable {c : Config} {s t u : State} {e : Event} {n : ℕ} {run : RunId} {key : TargetKey}
  {j : JobId} {g : GroupId}

def Cancelled (slot : JobSlot) : Prop := ∃ job, slot = .present job ∧ job.status = .cancelled

/-- The job is there, and a worker has taken it. -/
def ReachedProcessing (slot : JobSlot) : Prop :=
  ∃ job, slot = .present job ∧ job.status ∉ [.scheduled, .queued, .cancelled]

theorem reached_step {old new : JobSlot} (h : SlotStep old new) (hr : ReachedProcessing old) :
    ReachedProcessing new ∨ new = .deleted := by
  obtain ⟨job, rfl, hs⟩ := hr
  cases h with
  | @kept _ new hk => exact .inl ⟨new, rfl, by rwa [hk]⟩
  | claimed ho => simp [ho] at hs
  | returned ho => simp [ho] at hs
  | @taken _ new _ hn => exact .inl ⟨new, rfl, by simp [hn]⟩
  | @recorded _ new _ hn =>
    refine .inl ⟨new, rfl, fun hm => ?_⟩
    simp only [List.mem_cons, List.not_mem_nil, or_false] at hn hm
    rcases hm with hm | hm | hm <;> simp [hm] at hn
  | @acknowledged _ new ho =>
    refine .inl ⟨new, rfl, fun hm => ?_⟩
    obtain ⟨_, ⟨hf, _⟩ | ⟨_, hlt⟩⟩ := ho
    · simp [hf] at hm
    · simp only [List.mem_cons, List.not_mem_nil, or_false] at hm
      rcases hm with hm | hm | hm <;> simp [hm, acknowledgementRank] at hlt
  | cancelled ho => rcases ho with ho | ho <;> simp [ho] at hs
  | deleted => exact .inr rfl

theorem reached_moves {old new : JobSlot} (h : SlotMoves old new) (hr : ReachedProcessing old) :
    ReachedProcessing new ∨ new = .deleted := by
  induction h with
  | refl => exact .inl hr
  | tail _ hs ih =>
    obtain hm | rfl := ih
    · exact reached_step hs hm
    · cases hs

theorem cancelled_not_reached {slot : JobSlot} (h : Cancelled slot) :
    ¬ ReachedProcessing slot ∧ slot ≠ .deleted := by
  obtain ⟨job, rfl, hs⟩ := h
  refine ⟨?_, by simp⟩
  rintro ⟨_, h, hn⟩
  cases h
  simp [hs] at hn

theorem cancelled_withdrawn {slot : JobSlot} (h : Cancelled slot) : Withdrawn slot := by
  obtain ⟨job, rfl, hs⟩ := h
  exact hs

/-- A row that stays there stays CANCELLED. -/
theorem cancelled_moves {old new : JobSlot} (h : SlotMoves old new) (hc : Cancelled old)
    (hp : ∃ job, new = .present job) : Cancelled new := by
  obtain ⟨job, rfl⟩ := hp
  exact ⟨job, rfl, MessageJobTransitions.withdrawn_moves h (cancelled_withdrawn hc)⟩

/-- Every other party's step moves what a campaign transaction sees of a job as writers do. -/
theorem job_view_moves (hr : Reachable (system c) s) (h : step c s e = some u)
    (he : ∀ event, e ≠ .tx n event) (j : JobId) : SlotMoves (s.jobView n j) (u.jobView n j) := by
  obtain ⟨m, core, hm, hc, _, rfl⟩ := step_some h
  change SlotMoves ((s.core.jobs j).view (.campaign n)) ((core.jobs j).view (.campaign n))
  obtain ⟨_, rfl⟩ | ⟨event, hevent, hstep⟩ := core_steps hc
  · exact Relation.ReflTransGen.refl
  · have howner : (OutboundMessageExecution.jobEffect s.core event).owner ≠ some (.campaign n) := by
      intro ho
      obtain ⟨ev, hev⟩ := core_actor (in_core hm hevent) (OutboundMessageExecution.effect_owner ho)
      exact he ev hev
    have hmoved := MessageJobTransitions.committed_row_moves (core_reachable hr) hstep j
    obtain ⟨_, _, hready, rfl⟩ := OutboundMessageExecution.step_some hstep
    obtain hsame | ⟨hbefore, hafter⟩ := Effect.view_of_other hready howner j
    · rw [show ((OutboundMessageExecution.jobEffect s.core event).apply s.core.jobs j).view
        (.campaign n) = _ from hsame]
    · rw [hbefore]
      exact hafter ▸ hmoved

/-- The jobs a transaction holds are those it has created, or cancelled. -/
def JobsHeld (s : State) : Prop :=
  ∀ n j v, (s.core.jobs j).held = some (.campaign n, v) →
    (∃ run pending, s.txs n = .materializing run pending) ∨ Cancelled v

theorem materializing_kept {k' : CampaignTx} {event : TxEvent} {pending : List (GroupId × Bool)}
    (h : txNext s n (.materializing run pending) event = some k') :
    (∃ rest, k' = .materializing run rest) ∨ event = .commit ∨ event = .abort := by
  cases event <;> simp only [txNext, reduceCtorEq] at h
  case materializeNext job now date =>
    cases pending with
    | nil => simp at h
    | cons p rest =>
      obtain ⟨_, rfl⟩ := guarded_eq_some.mp h
      exact .inl ⟨rest, rfl⟩
  case commit => exact .inr (.inl rfl)
  case abort => exact .inr (.inr rfl)

theorem jobs_held_step (hI : JobsHeld s) (h : step c s e = some u) : JobsHeld u := by
  obtain ⟨m, core, hm, hc, _, rfl⟩ := step_some h
  intro n j v hv
  change (core.jobs j).held = some (.campaign n, v) at hv
  change (∃ run pending, m.txs n = .materializing run pending) ∨ Cancelled v
  -- a row held before stays accounted for while its transaction goes on
  have hbefore : (s.core.jobs j).held = some (.campaign n, v) → e ≠ .tx n .commit →
      e ≠ .tx n .abort → (∃ run pending, m.txs n = .materializing run pending) ∨ Cancelled v := by
    intro hheld hcommit habort
    obtain ⟨run, pending, hk⟩ | hcancelled := hI n j v hheld
    · by_cases he : ∃ event, e = .tx n event
      · obtain ⟨event, rfl⟩ := he
        have hnext := tx_moves hm
        rw [hk] at hnext
        obtain ⟨rest, hrest⟩ | rfl | rfl := materializing_kept hnext
        · exact .inl ⟨run, rest, hrest⟩
        · exact absurd rfl hcommit
        · exact absurd rfl habort
      · rw [other_tx_unchanged hm fun event hev => he ⟨event, hev⟩]
        exact .inl ⟨run, pending, hk⟩
    · exact .inr hcancelled
  obtain ⟨hnone, rfl⟩ | ⟨event, hevent, hstep⟩ := core_steps hc
  · refine hbefore hv ?_ ?_ <;> rintro rfl <;> cases hnone
  · have hin := in_core hm hevent
    obtain ⟨_, _, hready, rfl⟩ := OutboundMessageExecution.step_some hstep
    change ((OutboundMessageExecution.jobEffect s.core event).apply s.core.jobs j).held = _ at hv
    have hrow := Effect.row_moves hready j
    generalize (OutboundMessageExecution.jobEffect s.core event).apply s.core.jobs j = row
      at hrow hv
    cases hrow with
    | same hend =>
      refine hbefore hv ?_ ?_
      · rintro rfl
        cases hin with
        | commit => exact hend _ (.inl rfl) v hv
      · rintro rfl
        cases hin with
        | abort => exact hend _ (.inr rfl) v hv
    | own => cases hv
    | inside hs ho _ hw =>
      simp only [Row.write_held, Option.some.injEq, Prod.mk.injEq] at hv
      obtain ⟨rfl, rfl⟩ := hv
      obtain ⟨ev, rfl⟩ := core_actor hin (OutboundMessageExecution.effect_owner ho)
      cases hin with
      | cancelJob =>
        simp only [OutboundMessageExecution.jobEffect, Effect.statement,
          Option.ite_none_right_eq_some, Option.some.injEq] at hs
        obtain ⟨_, rfl⟩ := hs
        obtain ⟨job, new, _, hnew, rfl⟩ := onPresent_some hw
        exact .inr ⟨new, rfl, (cancelJob_some hnew).2⟩
      | materialize hstage =>
        have hnext := tx_moves hm
        rw [hstage] at hnext
        obtain ⟨rest, hrest⟩ | h | h := materializing_kept hnext
        · exact .inl ⟨_, rest, hrest⟩
        · cases h
        · cases h
      | commit => cases hs
      | abort => cases hs
    | commit => cases hv
    | abort => cases hv

theorem jobs_held (h : Reachable (system c) s) : JobsHeld s := by
  refine reachable_invariant (M := system c) ?_ (fun s e hI he => ?_) h
  · rintro _ rfl n j v hv
    cases hv
  · exact jobs_held_step hI (ofStep_enabled he)

theorem committed_job_moves (hr : Reachable (system c) s) (h : step c s e = some u) (j : JobId) :
    SlotMoves (s.core.jobs j).committed (u.core.jobs j).committed := by
  obtain ⟨m, core, hm, hc, _, rfl⟩ := step_some h
  obtain ⟨_, rfl⟩ | ⟨event, hevent, hstep⟩ := core_steps hc
  · exact Relation.ReflTransGen.refl
  · exact MessageJobTransitions.committed_row_moves (core_reachable hr) hstep j

/-- What a reconciliation has read of a job is a state the job was in before. -/
def SnapshotsPast (s : State) : Prop :=
  ∀ n jobs, s.txs n = .reconciling jobs → ∀ j, SlotMoves (jobs j) (s.core.jobs j).committed

theorem reconciling_origin {k : CampaignTx} {event : TxEvent} {jobs : JobId → JobSlot}
    (h : txNext s n k event = some (.reconciling jobs)) :
    k = .reconciling jobs ∨ jobs = fun j => (s.core.jobs j).committed := by
  unfold txNext at h
  split at h
  case h_2 =>
    split at h
    · split at h <;> simp at h
    · simp at h
  case h_3 =>
    split at h
    · cases h
    · obtain h | ⟨r, _, _, _, h⟩ := lockedOn_some h <;> cases h
  case h_4 =>
    split at h <;> cases h
  case h_10 | h_17 => obtain h | ⟨r, _, _, _, h⟩ := lockedOn_some h <;> cases h
  case h_24 =>
    cases h
    exact .inr rfl
  case h_25 =>
    obtain ⟨_, h⟩ := guarded_eq_some.mp h
    cases h
    exact .inl rfl
  all_goals simp at h

theorem snapshots_past_step (hr : Reachable (system c) s) (hI : SnapshotsPast s)
    (h : step c s e = some u) : SnapshotsPast u := by
  intro n jobs hn j
  have hmoved := committed_job_moves hr h j
  obtain ⟨m, core, hm, hc, _, rfl⟩ := step_some h
  have hstage : m.txs n = .reconciling jobs := hn
  by_cases hev : ∃ event, e = .tx n event
  · obtain ⟨event, rfl⟩ := hev
    have hk := tx_moves hm
    rw [hstage] at hk
    obtain hold | rfl := reconciling_origin hk
    · exact (hI n jobs hold j).trans hmoved
    · exact hmoved
  · rw [other_tx_unchanged hm fun event he => hev ⟨event, he⟩] at hstage
    exact (hI n jobs hstage j).trans hmoved

theorem snapshots_past (h : Reachable (system c) s) : SnapshotsPast s := by
  refine reachable_invariant_with (M := system c) (I := SnapshotsPast) (J := Reachable (system c))
    (fun _ => id) ?_ (fun s e hr hI he => snapshots_past_step hr hI (ofStep_enabled he)) h
  rintro _ rfl n jobs hn
  cases hn

/-- No job that the deliveries of the run refer to awaits a worker, the remaining ones apart. -/
def JobsSettled (s : State) (n : ℕ) (run : RunId) (remaining : List JobId) : Prop :=
  ∀ g j, link (s.delivery n (run, g)) = some j →
    j ∈ remaining ∨ ¬ (s.jobView n j).AwaitsWorker

/-- The delivery has no job and is not open, or a worker has taken its job, or its job is
cancelled and the transaction holds the delivery as CANCELLED. -/
def DeliverySettled (s : State) (n : ℕ) (key : TargetKey) (d : CampaignDelivery) : Prop :=
  (d.messageJobId = none ∧ ¬ d.status.Open) ∨
    (∃ j, d.messageJobId = some j ∧ ReachedProcessing (s.core.jobs j).committed) ∨
      ∃ j, d.messageJobId = some j ∧ d.status = .cancelled ∧ Cancelled (s.jobView n j) ∧
        ∃ v, (s.deliveries key).held = some (.campaign n, v)

def DeliveriesSettled (s : State) (n : ℕ) (run : RunId) (remaining : List GroupId) : Prop :=
  ∀ g d, s.delivery n (run, g) = some d → g ∈ remaining ∨ DeliverySettled s n (run, g) d

/-- How far a cancel transaction has come. -/
def CancelPhase (s : State) (n : ℕ) : CampaignTx → Prop
  | .cancellingJobs run remaining => JobsSettled s n run remaining
  | .cancellingDeliveries run remaining =>
    JobsSettled s n run [] ∧ DeliveriesSettled s n run remaining
  | .cancelWritten run => JobsSettled s n run [] ∧ DeliveriesSettled s n run []
  | _ => True

section OtherParties

variable {statuses : List CampaignRunStatus}

theorem link_of_other (hr : Reachable (system c) s) (h : step c s e = some u)
    (he : ∀ event, e ≠ .tx n event) (hlock : (s.txs n).lock = some (run, statuses)) (g : GroupId) :
    link (u.delivery n (run, g)) = link (s.delivery n (run, g)) := by
  obtain ⟨hrow, _⟩ | ⟨_, hsame | ⟨now, jobs, hw⟩⟩ := locked_delivery_step hr h he hlock g
  · simp only [State.delivery, hrow]
  · rw [hsame]
  · obtain ⟨d, d', i, _, hd, hd', hi, hi', _⟩ := reconcile_some hw
    rw [hd, hd']
    exact hi'.trans hi.symm

theorem jobs_settled_of_other (hr : Reachable (system c) s) (h : step c s e = some u)
    (he : ∀ event, e ≠ .tx n event) (hlock : (s.txs n).lock = some (run, statuses))
    {remaining : List JobId} (hs : JobsSettled s n run remaining) :
    JobsSettled u n run remaining := by
  intro g j hj
  rw [link_of_other hr h he hlock] at hj
  obtain hm | hn := hs g j hj
  · exact .inl hm
  · exact .inr fun ha => hn (MessageJobTransitions.no_return (job_view_moves hr h he j) ha)

/-- A job that a delivery refers to stays there, so a taken one remains taken. -/
theorem reached_kept (n : ℕ) (key : TargetKey) (hr : Reachable (system c) s) (h : step c s e = some u)
    (hl : link (s.delivery n key) = some j) (hj : ReachedProcessing (s.core.jobs j).committed) :
    ReachedProcessing (u.core.jobs j).committed := by
  obtain hreached | hdeleted := reached_moves (committed_job_moves hr h j) hj
  · exact hreached
  · obtain ⟨hrefers, howner, _⟩ := named_view hr (links_named hr) hl
    obtain ⟨job, hjob, _⟩ := hj
    obtain ⟨m, core, hm, hc, _, rfl⟩ := step_some h
    obtain ⟨_, row, hrow⟩ := referred_committed_kept hr hm hc hrefers ⟨howner, job, hjob⟩
    change (core.jobs j).committed = .deleted at hdeleted
    rw [hrow] at hdeleted
    cases hdeleted

theorem cancelled_kept (hr : Reachable (system c) s) (h : step c s e = some u)
    (he : ∀ event, e ≠ .tx n event) (hl : link (s.delivery n key) = some j)
    (hj : Cancelled (s.jobView n j)) : Cancelled (u.jobView n j) := by
  have hmoved := job_view_moves hr h he j
  obtain ⟨hrefers, hnamed⟩ := named_view hr (links_named hr) hl
  obtain ⟨m, core, hm, hc, _, rfl⟩ := step_some h
  obtain ⟨_, hpresent⟩ := referred_view_kept hr hm hc hrefers ⟨he _, he _⟩ hnamed
  exact cancelled_moves hmoved hj hpresent

theorem deliveries_settled_of_other (hr : Reachable (system c) s) (h : step c s e = some u)
    (he : ∀ event, e ≠ .tx n event) (hlock : (s.txs n).lock = some (run, statuses))
    {remaining : List GroupId} (hs : DeliveriesSettled s n run remaining) :
    DeliveriesSettled u n run remaining := by
  intro g d hd
  obtain ⟨hrow, v, hv⟩ | ⟨hnot, hview⟩ := locked_delivery_step hr h he hlock g
  · have hold : s.delivery n (run, g) = some d := by
      simpa only [State.delivery, hrow] using hd
    have hlink : ∀ j, d.messageJobId = some j → link (s.delivery n (run, g)) = some j := by
      intro j hj
      rw [hold]
      exact hj
    obtain hm | ⟨hn, ho⟩ | ⟨j, hj, hp⟩ | ⟨j, hj, hcs, hc, _⟩ := hs g d hold
    · exact .inl hm
    · exact .inr (.inl ⟨hn, ho⟩)
    · exact .inr (.inr (.inl ⟨j, hj, reached_kept n (run, g) hr h (hlink j hj) hp⟩))
    · exact .inr (.inr (.inr ⟨j, hj, hcs, cancelled_kept hr h he (hlink j hj) hc, v, by rwa [hrow]⟩))
  · obtain hsame | ⟨now, jobs, hw⟩ := hview
    · rw [hsame] at hd
      obtain hm | ⟨hn, ho⟩ | ⟨j, hj, hp⟩ | ⟨_, _, _, _, v, hv⟩ := hs g d hd
      · exact .inl hm
      · exact .inr (.inl ⟨hn, ho⟩)
      · refine .inr (.inr (.inl ⟨j, hj, reached_kept n (run, g) hr h ?_ hp⟩))
        rw [hd]
        exact hj
      · exact absurd hv (hnot v)
    · obtain ⟨d₀, d', i, _, hd₀, hd', hi, hi', _⟩ := reconcile_some hw
      rw [hd] at hd'
      cases hd'
      obtain hm | ⟨hn, _⟩ | ⟨j, hj, hp⟩ | ⟨_, _, _, _, v, hv⟩ := hs g d₀ hd₀
      · exact .inl hm
      · rw [hi] at hn
        cases hn
      · have hij : i = j := Option.some.inj (hi.symm.trans hj)
        subst hij
        refine .inr (.inr (.inl ⟨i, hi', reached_kept n (run, g) hr h ?_ hp⟩))
        rw [hd₀]
        exact hi
      · exact absurd hv (hnot v)

end OtherParties

/-- A step that runs no statement on deliveries or jobs leaves what is settled. -/
theorem settled_congr {remaining : List GroupId} (hd : u.deliveries = s.deliveries)
    (hc : u.core = s.core) (hs : DeliveriesSettled s n run remaining) :
    DeliveriesSettled u n run remaining := by
  simpa only [DeliveriesSettled, DeliverySettled, State.delivery, State.jobView, hd, hc] using hs

theorem jobs_settled_congr {remaining : List JobId} (hd : u.deliveries = s.deliveries)
    (hc : u.core = s.core) (hs : JobsSettled s n run remaining) :
    JobsSettled u n run remaining := by
  simpa only [JobsSettled, State.delivery, State.jobView, hd, hc] using hs

theorem quiet_step {event : TxEvent} (h : step c s (.tx n event) = some u)
    (hd : deliveryEffect s (.tx n event) = .none) (hc : coreEvent s (.tx n event) = none) :
    u.deliveries = s.deliveries ∧ u.core = s.core := by
  obtain ⟨m, core, _, hcore, _, rfl⟩ := step_some h
  simp only [coreStep, hc, Option.some.injEq] at hcore
  subst hcore
  refine ⟨?_, rfl⟩
  change (deliveryEffect s (.tx n event)).apply s.deliveries = s.deliveries
  rw [hd]
  rfl

/-- The cancelled run's deliveries are among those the transaction goes through. -/
theorem delivery_listed (hr : Reachable (system c) s) {k : CampaignTx}
    {statuses : List CampaignRunStatus} (hk : s.txs n = k) (hlock : k.lock = some (run, statuses))
    (hkeep : ∀ r v, Keeps k r v → v = .present r) {d : CampaignDelivery}
    (hd : s.delivery n (run, g) = some d) : (run, g) ∈ s.targetKeys n run := by
  have hlocked := runs_locked hr n run statuses (by rw [hk]; exact hlock)
  rw [hk] at hlocked
  obtain ⟨r, hc, _, hview⟩ := locked_run_view hlocked hkeep
  have hplaced : Placed (s.runs run).committed g := by
    have heach := deliveries_placed hr (run, g)
    exact Row.each_view heach (t := .campaign n) (by
      rw [show (s.deliveries (run, g)).view (.campaign n) = some d from hd]
      simp)
  rw [hc] at hplaced
  simp only [State.targetKeys, hview, List.mem_map, Prod.mk.injEq, true_and, exists_eq_right]
  exact hplaced

theorem own_cancel_job (hr : Reachable (system c) s) {remaining : List JobId} {job : JobId}
    {now : ℕ} (hk : s.txs n = .cancellingJobs run remaining)
    (h : step c s (.tx n (.cancelJob job now)) = some u) (hs : JobsSettled s n run remaining) :
    JobsSettled u n run (remaining.erase job) := by
  intro g j hj
  have hdel : u.deliveries = s.deliveries := by
    obtain ⟨m, core, _, _, _, rfl⟩ := step_some h
    change (deliveryEffect s (.tx n (.cancelJob job now))).apply s.deliveries = s.deliveries
    simp [deliveryEffect, hk, Effect.apply]
  have hjobs : u.core.jobs = (Effect.updateIn (.campaign n) (onPresent (cancelJob now)) job).apply
      s.core.jobs := by
    obtain ⟨m, core, _, hc, _, rfl⟩ := step_some h
    obtain ⟨_, _, _, rfl⟩ := OutboundMessageExecution.step_some
      (show OutboundMessageExecution.step c s.core (.cancelJob (.campaign n) job now) = some core
        from hc)
    rfl
  have hlink : link (s.delivery n (run, g)) = some j := by
    simpa only [State.delivery, hdel] using hj
  by_cases hjob : j = job
  · subst hjob
    right
    obtain ⟨_, _, job, hjob⟩ := named_view hr (links_named hr) hlink
    have hrow : u.core.jobs j =
        (s.core.jobs j).updateIn (.campaign n) (onPresent (cancelJob now)) := by
      simp only [hjobs, Effect.apply, Table.updateIn_same]
    cases hnew : cancelJob now job with
    | none =>
      have hsame : u.jobView n j = .present job := by
        simp [State.jobView, hrow, Row.updateIn, hjob, onPresent, hnew]
      rw [hsame]
      exact cancelJob_none hnew
    | some new =>
      have hwritten : u.jobView n j = .present new := by
        refine Row.view_of_held ?_
        simp [hrow, Row.updateIn, hjob, onPresent, hnew]
      rw [hwritten]
      have hcancelled : new.status = .cancelled := (cancelJob_some hnew).2
      rintro (ha | ha) <;> rw [hcancelled] at ha <;> cases ha
  · have hsame : u.jobView n j = s.jobView n j := by
      simp only [State.jobView, hjobs, Effect.apply, Table.updateIn_other hjob]
    rw [hsame]
    obtain hm | hn := hs g j hlink
    · exact .inl ((List.mem_erase_of_ne hjob).mpr hm)
    · exact .inr hn

/-- A delivery that `cancel` has looked at is settled. -/
theorem own_cancel_delivery (hr : Reachable (system c) s) {remaining : List GroupId}
    {group : GroupId} {now : ℕ} (hk : s.txs n = .cancellingDeliveries run remaining)
    (h : step c s (.tx n (.cancelDelivery group now)) = some u) (hj : JobsSettled s n run [])
    (hs : DeliveriesSettled s n run remaining) :
    JobsSettled u n run [] ∧ DeliveriesSettled u n run (remaining.erase group) := by
  have hcore : u.core = s.core := by
    obtain ⟨m, core, _, hc, _, rfl⟩ := step_some h
    exact (Option.some.inj hc).symm
  have hdel : u.deliveries = (Effect.updateIn (.campaign n) (cancelDelivery now (s.jobView n))
      (run, group)).apply s.deliveries := by
    obtain ⟨m, core, _, _, _, rfl⟩ := step_some h
    change (deliveryEffect s (.tx n (.cancelDelivery group now))).apply s.deliveries = _
    simp only [deliveryEffect, hk]
  have hother : ∀ g, g ≠ group → u.deliveries (run, g) = s.deliveries (run, g) := by
    intro g hg
    rw [hdel]
    exact Table.updateIn_other (by simpa using hg)
  have hrow : u.deliveries (run, group) =
      (s.deliveries (run, group)).updateIn (.campaign n) (cancelDelivery now (s.jobView n)) := by
    simp only [hdel, Effect.apply, Table.updateIn_same]
  have hview : u.jobView n = s.jobView n := by
    unfold State.jobView
    rw [hcore]
  cases hw : cancelDelivery now (s.jobView n) (s.delivery n (run, group)) with
  | none =>
    have hgroup : u.deliveries (run, group) = s.deliveries (run, group) := by
      rw [hrow]
      simp only [Row.updateIn, show (s.deliveries (run, group)).view (.campaign n) =
        s.delivery n (run, group) from rfl, hw]
    have hsame : ∀ g, u.deliveries (run, g) = s.deliveries (run, g) := by
      intro g
      by_cases hg : g = group
      · subst hg
        exact hgroup
      · exact hother g hg
    constructor
    · intro g j hl
      rw [hview]
      exact hj g j (by simpa only [State.delivery, hsame] using hl)
    · intro g d hd
      have hold : s.delivery n (run, g) = some d := by simpa only [State.delivery, hsame] using hd
      have hsettled : g ∈ remaining.erase group ∨ DeliverySettled s n (run, g) d := by
        by_cases hg : g = group
        · subst hg
          right
          rw [hold] at hw
          obtain ⟨hpending, hcancelled⟩ := cancelDelivery_none hw
          cases hl : d.messageJobId with
          | none =>
            have hwf : WellFormed (s.delivery n (run, g)) :=
              Row.each_view (deliveries_well_formed hr (run, g))
            have hstatus := (hwf d hold).2 hl
            refine .inl ⟨hl, fun hopen => ?_⟩
            simp only [CampaignDeliveryStatus.Open, List.mem_cons, List.not_mem_nil, or_false]
              at hstatus hopen
            rcases hstatus with hst | hst | hst
            · exact hpending hst
            · simp [hst] at hopen
            · simp [hst] at hopen
          | some j =>
            have hlink : link (s.delivery n (run, g)) = some j := by rw [hold]; exact hl
            obtain ⟨_, _, job, hjob⟩ := named_view hr (links_named hr) hlink
            have hnot : ¬ (s.jobView n j).AwaitsWorker := by
              obtain hm | hn := hj g j hlink
              · cases hm
              · exact hn
            have hstatus : job.status ∉ [.scheduled, .queued, .cancelled] := by
              have hc := hcancelled j job hl hjob
              rw [show s.jobView n j = .present job from hjob] at hnot
              simp only [JobSlot.AwaitsWorker, MessageJobStatus.AwaitsWorker, not_or] at hnot
              simp [hnot.1, hnot.2, hc]
            -- the transaction holds only jobs it has cancelled, so it sees the committed row
            have hfree : ∀ v, (s.core.jobs j).held ≠ some (.campaign n, v) := by
              intro v hv
              obtain ⟨r, p, hm⟩ | ⟨row, hrow, hcs⟩ := jobs_held hr n j v hv
              · rw [hk] at hm
                cases hm
              · rw [Row.view_of_held hv, hrow] at hjob
                cases hjob
                simp [hcs] at hstatus
            rw [Row.view_of_not_held hfree] at hjob
            exact .inr (.inl ⟨j, hl, job, hjob, hstatus⟩)
        · obtain hm | hd := hs g d hold
          · exact .inl ((List.mem_erase_of_ne hg).mpr hm)
          · exact .inr hd
      obtain hm | hd := hsettled
      · exact .inl hm
      · refine .inr ?_
        simpa only [DeliverySettled, State.jobView, hsame, hcore] using hd
  | some w =>
    obtain ⟨d₀, d', hd₀, rfl, hstatus, hlink, hwhy⟩ := cancelDelivery_some hw
    have hwritten : u.deliveries (run, group) =
        (s.deliveries (run, group)).write (.campaign n) (some d') := by
      rw [hrow]
      simp only [Row.updateIn, show (s.deliveries (run, group)).view (.campaign n) =
        s.delivery n (run, group) from rfl, hw]
    have hnew : u.delivery n (run, group) = some d' := by
      simp only [State.delivery, hwritten]
      exact Row.view_of_held rfl
    constructor
    · intro g j hl
      rw [hview]
      by_cases hg : g = group
      · subst hg
        refine hj g j ?_
        rw [hnew] at hl
        rw [hd₀]
        exact hlink.symm.trans hl
      · exact hj g j (by simpa only [State.delivery, hother g hg] using hl)
    · intro g d hd
      by_cases hg : g = group
      · subst hg
        right
        rw [hnew] at hd
        cases hd
        obtain hpending | ⟨j, job, hl, hjob, hcs⟩ := hwhy
        · have hwf : WellFormed (s.delivery n (run, g)) :=
            Row.each_view (deliveries_well_formed hr (run, g))
          refine .inl ⟨hlink.trans ((hwf d₀ hd₀).1 hpending), ?_⟩
          simp [hstatus, CampaignDeliveryStatus.Open]
        · refine .inr (.inr ⟨j, hlink.trans hl, hstatus, ⟨job, ?_, hcs⟩, some d', ?_⟩)
          · rw [hview]
            exact hjob
          · rw [hwritten]
            rfl
      · have hold : s.delivery n (run, g) = some d := by
          simpa only [State.delivery, hother g hg] using hd
        obtain hm | hsettled := hs g d hold
        · exact .inl ((List.mem_erase_of_ne hg).mpr hm)
        · refine .inr ?_
          simpa only [DeliverySettled, State.jobView, hother g hg, hcore] using hsettled

theorem own_phase (hr : Reachable (system c) s) {event : TxEvent} {k k' : CampaignTx}
    (hk : s.txs n = k) (hI : CancelPhase s n k) (h : step c s (.tx n event) = some u)
    (hnext : txNext s n k event = some k') : CancelPhase u n k' := by
  have hquiet : ∀ event, deliveryEffect s (.tx n event) = .none →
      coreEvent s (.tx n event) = none → step c s (.tx n event) = some u →
        u.deliveries = s.deliveries ∧ u.core = s.core := fun _ hd hc h => quiet_step h hd hc
  unfold txNext at hnext
  split at hnext
  case h_12 run =>
    obtain rfl := Option.some.inj hnext
    obtain ⟨hd, hc⟩ := hquiet _ (by simp [deliveryEffect, hk]) rfl h
    refine jobs_settled_congr hd hc fun g j hj => .inl ?_
    obtain ⟨d, hdel, hl⟩ := Option.bind_eq_some_iff.mp hj
    have hlisted := delivery_listed hr hk rfl (fun r v hv => hv) hdel
    exact List.mem_filterMap.mpr ⟨(run, g), hlisted, hj⟩
  case h_13 run remaining job now =>
    obtain ⟨_, rfl⟩ := guarded_eq_some.mp hnext
    exact own_cancel_job hr hk h hI
  case h_14 run =>
    obtain rfl := Option.some.inj hnext
    obtain ⟨hd, hc⟩ := hquiet _ (by simp [deliveryEffect, hk]) rfl h
    refine ⟨jobs_settled_congr hd hc hI, settled_congr hd hc fun g d hdel => .inl ?_⟩
    have hlisted := delivery_listed hr hk rfl (fun r v hv => hv) hdel
    exact List.mem_map.mpr ⟨(run, g), hlisted, rfl⟩
  case h_15 run remaining group now =>
    obtain ⟨_, rfl⟩ := guarded_eq_some.mp hnext
    exact own_cancel_delivery hr hk h hI.1 hI.2
  case h_16 run now =>
    obtain ⟨_, rfl⟩ := guarded_eq_some.mp hnext
    obtain ⟨hd, hc⟩ := hquiet _ (by simp [deliveryEffect, hk]) rfl h
    exact ⟨jobs_settled_congr hd hc hI.1, settled_congr hd hc hI.2⟩
  case h_2 =>
    split at hnext
    · split at hnext <;> obtain ⟨_, rfl⟩ := guarded_eq_some.mp hnext <;> trivial
    · obtain ⟨_, rfl⟩ := guarded_eq_some.mp hnext
      trivial
  case h_3 =>
    split at hnext
    · cases hnext
    · obtain rfl | ⟨r, _, _, _, rfl⟩ := lockedOn_some hnext <;> trivial
  case h_4 =>
    obtain rfl := Option.some.inj hnext
    split <;> trivial
  case h_10 | h_17 => obtain rfl | ⟨r, _, _, _, rfl⟩ := lockedOn_some hnext <;> trivial
  all_goals simp only [guarded_eq_some, Option.some.injEq, reduceCtorEq] at hnext
  all_goals
    first
    | subst hnext
    | obtain ⟨_, rfl⟩ := hnext
    trivial

def CancelPhases (s : State) : Prop := ∀ n, CancelPhase s n (s.txs n)

theorem cancel_phases_step (hr : Reachable (system c) s) (hI : CancelPhases s)
    (h : step c s e = some u) : CancelPhases u := by
  intro n
  obtain ⟨m, core, hm, _, _, hu⟩ := step_some h
  have htxs : u.txs n = m.txs n := by rw [hu]
  rw [htxs]
  by_cases he : ∃ event, e = .tx n event
  · obtain ⟨event, rfl⟩ := he
    exact own_phase hr rfl (hI n) h (tx_moves hm)
  · have hother : ∀ event, e ≠ .tx n event := fun event hev => he ⟨event, hev⟩
    rw [other_tx_unchanged hm hother]
    have hphase := hI n
    generalize hk : s.txs n = k at hphase
    cases k with
    | cancellingJobs run remaining =>
      exact jobs_settled_of_other hr h hother (by rw [hk]; rfl) hphase
    | cancellingDeliveries run remaining =>
      have hlock : (s.txs n).lock = some (run, cancellable) := by rw [hk]; rfl
      exact ⟨jobs_settled_of_other hr h hother hlock hphase.1,
        deliveries_settled_of_other hr h hother hlock hphase.2⟩
    | cancelWritten run =>
      have hlock : (s.txs n).lock = some (run, cancellable) := by rw [hk]; rfl
      exact ⟨jobs_settled_of_other hr h hother hlock hphase.1,
        deliveries_settled_of_other hr h hother hlock hphase.2⟩
    | _ => trivial

theorem cancel_phases (h : Reachable (system c) s) : CancelPhases s := by
  refine reachable_invariant_with (M := system c) (I := CancelPhases) (J := Reachable (system c))
    (fun _ => id) ?_ (fun s e hr hI he => cancel_phases_step hr hI (ofStep_enabled he)) h
  rintro _ rfl n
  trivial

def Closed : RunSlot → Prop
  | .present r => r.status.Terminal
  | .deleted => True
  | .unused => False

theorem closed_kept {slot slot' : RunSlot} (h : SlotChange StaysEnded slot slot')
    (hc : Closed slot) : Closed slot' := by
  cases h with
  | kept => exact hc
  | created => exact absurd hc id
  | changed hr => exact hr.2 hc
  | deleted => trivial

theorem closed_not_written (hr : Reachable (system c) s) (hc : Closed (s.runs run).committed) :
    ∀ n, writesFor (s.txs n) ≠ some run := by
  intro n hw
  obtain ⟨statuses, hlock⟩ := writesFor_lock hw
  obtain ⟨r, hrun, hopen⟩ := locked_run_open hr hlock
  rw [hrun] at hc
  exact hopen hc

/-- A delivery of the run in `u`, after the cancellation has led from `s` to `t`. -/
def DeliveryAfter (s t u : State) (key : TargetKey) (d : CampaignDelivery) : Prop :=
  (d.messageJobId = none ∧ ¬ d.status.Open ∧ (t.deliveries key).committed = some d) ∨
    (∃ j, d.messageJobId = some j ∧ link (t.deliveries key).committed = some j ∧
      ReachedProcessing (s.core.jobs j).committed) ∨
      ∃ j, d.messageJobId = some j ∧ link (t.deliveries key).committed = some j ∧
        d.status = .cancelled ∧ Cancelled (u.core.jobs j).committed

/-- A job of the run that was waiting for a worker when the cancellation committed. -/
def Waiting (s : State) (run : RunId) (j : JobId) : Prop :=
  ∃ g, link (s.deliveries (run, g)).committed = some j ∧ (s.core.jobs j).committed.AwaitsWorker

structure AfterCancel (s t : State) (run : RunId) (u : State) : Prop where
  closed : Closed (u.runs run).committed
  withdrawn : ∀ j, Waiting s run j → Withdrawn (u.core.jobs j).committed
  unsent : ∀ j, Waiting s run j → ∀ w, ¬ OutboundSendAtMostOnce.BeforeSend j (u.core.workers w)
  deliveries : ∀ g d, (u.deliveries (run, g)).committed = some d →
    DeliveryAfter s t u (run, g) d

theorem waiting_unsent (hr : Reachable (system c) s) (hj : Waiting s run j) (w : ℕ) :
    ¬ OutboundSendAtMostOnce.BeforeSend j (s.core.workers w) := by
  obtain ⟨g, _, ha⟩ := hj
  obtain ⟨es, hrun⟩ := core_reachable hr
  exact ((OutboundSendAtMostOnce.send_invariant hrun).untaken j ha).2 w

/-- A commit makes what the transaction saw the committed state. -/
theorem commit_step (h : step c s (.tx n .commit) = some t) :
    (∀ key, (t.deliveries key).committed = s.delivery n key) ∧
      (∀ j, (t.core.jobs j).committed = s.jobView n j) ∧ t.core.workers = s.core.workers := by
  obtain ⟨m, core, _, hc, _, rfl⟩ := step_some h
  obtain ⟨v, hv, _, rfl⟩ := OutboundMessageExecution.step_some
    (show OutboundMessageExecution.step c s.core (.commit (.campaign n)) = some core from hc)
  obtain ⟨_, rfl⟩ := guarded_eq_some.mp hv
  refine ⟨fun key => ?_, fun j => Row.commit_committed, rfl⟩
  change ((deliveryEffect s (.tx n .commit)).apply s.deliveries key).committed = _
  rw [deliveryEffect_commit]
  exact Row.commit_committed

theorem after_commit (hr : Reachable (system c) s) (hk : s.txs n = .cancelWritten run)
    (h : step c s (.tx n .commit) = some t) : AfterCancel s t run t := by
  have hphase : JobsSettled s n run [] ∧ DeliveriesSettled s n run [] := by
    have hp := cancel_phases hr n
    rwa [hk] at hp
  obtain ⟨hdeliveries, hjobs, hworkers⟩ := commit_step h
  constructor
  · obtain ⟨r, v, _, _, hh, r', rfl, hcs⟩ :
        HoldsRun (.cancelWritten run) n cancellable (s.runs run) := by
      have hl := runs_locked hr n run cancellable (by rw [hk]; rfl)
      rwa [hk] at hl
    obtain ⟨m, core, _, _, _, rfl⟩ := step_some h
    change Closed ((runEffect s (.tx n .commit)).apply s.runs run).committed
    have heffect : runEffect s (.tx n .commit) = .commit (.campaign n) := by
      simp [runEffect, txRunEffect, hk]
    rw [heffect]
    change Closed ((s.runs run).commit (.campaign n)).committed
    rw [Row.commit_of_held hh]
    simp [Closed, hcs, CampaignRunStatus.Terminal]
  · rintro j ⟨g, hl, ha⟩
    have hview : link (s.delivery n (run, g)) = some j :=
      Row.view_follows (R := KeepsLink) (fun v i hi => hi) (links_kept hr (run, g)) j hl
    have hnot : ¬ (s.jobView n j).AwaitsWorker := by
      obtain hm | hn := hphase.1 g j hview
      · cases hm
      · exact hn
    have hheld : ∃ v, (s.core.jobs j).held = some (.campaign n, v) := by
      by_contra hne
      refine hnot ?_
      rw [State.jobView, Row.view_of_not_held fun v hv => hne ⟨v, hv⟩]
      exact ha
    obtain ⟨v, hv⟩ := hheld
    obtain ⟨r, p, hm⟩ | hcancelled := jobs_held hr n j v hv
    · rw [hk] at hm
      cases hm
    · rw [hjobs, State.jobView, Row.view_of_held hv]
      exact cancelled_withdrawn hcancelled
  · intro j hj w
    rw [hworkers]
    exact waiting_unsent hr hj w
  · intro g d hd
    have hold : s.delivery n (run, g) = some d := by rw [← hdeliveries, hd]
    obtain hm | ⟨hn, ho⟩ | ⟨j, hj, hp⟩ | ⟨j, hj, hcs, hc, _⟩ := hphase.2 g d hold
    · cases hm
    · exact .inl ⟨hn, ho, hd⟩
    · exact .inr (.inl ⟨j, hj, by rw [hd]; exact hj, hp⟩)
    · exact .inr (.inr ⟨j, hj, by rw [hd]; exact hj, hcs, by rw [hjobs]; exact hc⟩)

/-- No step issues a POST for a job that no worker holds and that none can take. -/
theorem unsent_step (h : step c s e = some u)
    (hw : Withdrawn (s.core.jobs j).committed)
    (hs : ∀ w, ¬ OutboundSendAtMostOnce.BeforeSend j (s.core.workers w)) :
    (∀ w, ¬ OutboundSendAtMostOnce.BeforeSend j (u.core.workers w)) ∧
      ∀ w, e ≠ .core (.work w (.fetch j)) := by
  have hnot : ¬ (s.core.jobs j).committed.AwaitsWorker := by
    intro ha
    cases hslot : (s.core.jobs j).committed with
    | present job =>
      rw [hslot] at ha hw
      rcases ha with ha | ha <;> rw [show job.status = .cancelled from hw] at ha <;> cases ha
    | unused =>
      rw [hslot] at hw
      exact hw
    | deleted =>
      rw [hslot] at ha
      exact ha
  obtain ⟨m, core, _, hc, _, rfl⟩ := step_some h
  constructor
  · intro w hb
    obtain ⟨_, rfl⟩ | ⟨event, _, hstep⟩ := core_steps hc
    · exact hs w hb
    · obtain ⟨hb, _⟩ | ⟨_, ha, _⟩ := OutboundSendAtMostOnce.before_send_origin hstep hb
      · exact hs w hb
      · exact hnot ha
  · rintro w rfl
    obtain ⟨w', _, hb, _⟩ := OutboundSendAtMostOnce.send_origin (j := j)
      (show OutboundMessageExecution.step c s.core (.work w (.fetch j)) = some core from hc)
      (by simp [OutboundSendAtMostOnce.isSend])
    exact hs w' hb

theorem after_cancel_step {x : State} (hr : Reachable (system c) u)
    (hI : AfterCancel s t run u) (h : step c u e = some x) : AfterCancel s t run x := by
  constructor
  · exact closed_kept (run_row_changes hr h run) hI.closed
  · intro j hj
    exact MessageJobTransitions.withdrawn_moves (committed_job_moves hr h j) (hI.withdrawn j hj)
  · intro j hj
    exact (unsent_step h (hI.withdrawn j hj) (hI.unsent j hj)).1
  · intro g d hd
    have hwriters : ∀ m, e = .tx m .commit → writesFor (u.txs m) ≠ some run :=
      fun m _ => closed_not_written hr hI.closed m
    -- a job that the delivery refers to is there, so a cancelled one is still CANCELLED
    have hcancelled : ∀ d j, (u.deliveries (run, g)).committed = some d → d.messageJobId = some j →
        Cancelled (u.core.jobs j).committed → Cancelled (x.core.jobs j).committed := by
      intro d j hd hj hc
      have hl : link (u.deliveries (run, g)).committed = some j := by rw [hd]; exact hj
      have hnamed := (links_named hr).committed _ _ hl
      have hmoved := committed_job_moves hr h j
      obtain ⟨m, core, hm, hcore, _, rfl⟩ := step_some h
      exact cancelled_moves hmoved hc (referred_committed_kept hr hm hcore (.inl hl) hnamed).2
    obtain hsame | ⟨m, now, jobs, hm, hw⟩ | ⟨hnone, _⟩ :=
      committed_delivery_step (run, g) hr h hwriters
    · rw [hsame] at hd
      obtain hn | hp | ⟨j, hj, hl, hcs, hc⟩ := hI.deliveries g d hd
      · exact .inl hn
      · exact .inr (.inl hp)
      · exact .inr (.inr ⟨j, hj, hl, hcs, hcancelled d j hd hj hc⟩)
    · obtain ⟨d₀, d', i, job, hd₀, hd', hi, hi', hjob, hstatus⟩ := reconcile_some hw
      rw [hd] at hd'
      cases hd'
      obtain ⟨hn, _⟩ | ⟨j, hj, hl, hp⟩ | ⟨j, hj, hl, hcs, hc⟩ := hI.deliveries g d₀ hd₀
      · rw [hi] at hn
        cases hn
      · exact .inr (.inl ⟨j, by rw [hi', ← hi, hj], hl, hp⟩)
      · -- the snapshot is older than the cancellation, or shows the job CANCELLED
        have hij : i = j := Option.some.inj (hi.symm.trans hj)
        subst hij
        obtain ⟨hnot, hthere⟩ := cancelled_not_reached hc
        have hpast := snapshots_past hr m jobs hm i
        rw [hjob] at hpast
        have hsnapshot : job.status = .cancelled := by
          by_contra hne
          have hreached : ReachedProcessing (.present job) := by
            refine ⟨job, rfl, fun hmem => ?_⟩
            simp only [List.mem_cons, List.not_mem_nil, or_false] at hmem
            rcases hmem with hmem | hmem | hmem
            · simp [hmem, reconciledStatus] at hstatus
            · simp [hmem, reconciledStatus] at hstatus
            · exact hne hmem
          obtain h | h := reached_moves hpast hreached
          · exact hnot h
          · exact hthere h
        rw [hsnapshot] at hstatus
        exact .inr (.inr ⟨i, hi', hl, (Option.some.inj hstatus).symm,
          hcancelled d₀ i hd₀ hj hc⟩)
    · rw [hnone] at hd
      cases hd

theorem after_cancel {es : List Event} (hr : Reachable (system c) t)
    (ht : AfterCancel s t run t) (hx : Execution (system c) t es u) :
    AfterCancel s t run u ∧ ∀ j, Waiting s run j → ∀ w, .core (.work w (.fetch j)) ∉ es := by
  induction hx with
  | refl => exact ⟨ht, fun j _ w hm => nomatch hm⟩
  | @step es v e hx he ih =>
    obtain ⟨hafter, hunsent⟩ := ih
    have hstep := ofStep_enabled he
    refine ⟨after_cancel_step (hr.extend hx) hafter hstep, fun j hj w hm => ?_⟩
    rw [List.mem_append, List.mem_singleton] at hm
    obtain hm | hm := hm
    · exact hunsent j hj w hm
    · exact (unsent_step hstep (hafter.withdrawn j hj) (hafter.unsent j hj)).2 w hm.symm

/-- The cancellation of a run has committed between `s` and `t`, and the events `es` have led on
to `u`. -/
structure CancelSafe (s t u : State) (es : List Event) (run : RunId) : Prop where
  withdrawn : ∀ j, Waiting s run j →
    Withdrawn (u.core.jobs j).committed ∧ ∀ w, .core (.work w (.fetch j)) ∉ es
  unlinked : ∀ g j, link (u.deliveries (run, g)).committed = some j →
    link (t.deliveries (run, g)).committed = some j
  settled : ∀ g d, (u.deliveries (run, g)).committed = some d →
    d.status = .cancelled ∨
      (¬ d.status.Open ∧ (t.deliveries (run, g)).committed = some d) ∨
        ∃ j, d.messageJobId = some j ∧ ReachedProcessing (s.core.jobs j).committed

/-- Once a run is cancelled, the jobs of it that were SCHEDULED or QUEUED are never sent, no
delivery of it gets a job, and each delivery is cancelled, was settled by then, or refers to a job
that a worker had taken before. -/
theorem cancel_is_safe (hr : Reachable (system c) s) (hk : s.txs n = .cancelWritten run)
    (h : step c s (.tx n .commit) = some t) {es : List Event}
    (hx : Execution (system c) t es u) : CancelSafe s t u es run := by
  have hreach : Reachable (system c) t := hr.extend (ofStep_execution h)
  obtain ⟨hafter, hunsent⟩ := after_cancel hreach (after_commit hr hk h) hx
  constructor
  · exact fun j hj => ⟨hafter.withdrawn j hj, hunsent j hj⟩
  · intro g j hl
    obtain ⟨d, hd, hj⟩ := Option.bind_eq_some_iff.mp hl
    obtain ⟨hn, _⟩ | ⟨i, hi, hlt, _⟩ | ⟨i, hi, hlt, _⟩ := hafter.deliveries g d hd
    · rw [hn] at hj
      cases hj
    · rw [hlt, ← hi, hj]
    · rw [hlt, ← hi, hj]
  · intro g d hd
    obtain ⟨_, ho, ht⟩ | ⟨j, hj, _, hp⟩ | ⟨_, _, _, hcs, _⟩ := hafter.deliveries g d hd
    · exact .inr (.inl ⟨ho, ht⟩)
    · exact .inr (.inr ⟨j, hj, hp⟩)
    · exact .inl hcs

/-- A job of the run is QUEUED and published when the run is cancelled. -/
def cancelTrace : List Event :=
  [.writeGroup ("session", "group") ⟨.allowed, "ok", 1, some 0⟩,
    .writeSession "session" ⟨"ready", true, false⟩,
    .createRun 1 ⟨1, "session", "key", .live, "text", ["group"], 0⟩ 0,
    .claimPreparation 1 0 5, .tx 0 (.evaluate 1 .pass), .tx 0 (.lockPreparation 0 5),
    .tx 0 .checkRevisions, .tx 0 .copyRevisions, .tx 0 (.insertDeliveries 0),
    .tx 0 (.writeRun 0 0), .tx 0 .commit,
    .tx 0 (.lockMaterialize 1 10), .tx 0 .countActive, .tx 0 (.selectPending ["group"]),
    .tx 0 (.materializeNext 7 0 0), .tx 0 .commit,
    .core (.lockDue 0 7 0), .core (.queueClaimed 0 0), .core (.commitClaim 0 true),
    .core (.publish 0 7),
    .tx 0 (.lockCancel 1), .tx 0 (.insertDeliveries 0), .tx 0 .startCancelJobs,
    .tx 0 (.cancelJob 7 0), .tx 0 .startCancelDeliveries, .tx 0 (.cancelDelivery "group" 0),
    .tx 0 (.writeCancelled 0)]

def exampleConfig : Config := ⟨true, 1000⟩

def cancelState : State := runTrace (system exampleConfig) initial cancelTrace

def cancelledState : State := (system exampleConfig).next cancelState (.tx 0 .commit)

/-- The queue delivers the job after the cancellation; the worker finds nothing to take. -/
def lateDelivery : List Event :=
  [.core (.deliver 0 7), .core (.markProcessing 0 0 9), .core (.settle 0)]

set_option maxRecDepth 2000 in
theorem queued_job_is_withdrawn :
    Waiting cancelState 1 7 ∧
      CancelSafe cancelState cancelledState
        (runTrace (system exampleConfig) cancelledState lateDelivery) lateDelivery 1 := by
  refine ⟨⟨"group", by decide, by decide⟩, ?_⟩
  have hreach : Reachable (system exampleConfig) cancelState :=
    ⟨cancelTrace, valid_trace_run rfl (by decide)⟩
  have hcommit : (system exampleConfig).enabled cancelState (.tx 0 .commit) := by decide
  exact cancel_is_safe hreach rfl (ofStep_enabled hcommit) (valid_trace_execution (by decide))

end CampaignCancellation
