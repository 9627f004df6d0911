import WaRuntime.CampaignRunTransitions

/-! What holds of the delivery rows of a run, over every writer: which statement may write a row,
which transaction may hold it, and what a delivery's link to a message job says. -/
namespace CampaignDeliveries

open TransitionRuns RowVersions MessageJobStatements CampaignRunStatements CampaignExecution
open CampaignRunTransitions
open OutboundMessageExecution (Tx Config)

variable {c : Config} {s u : State} {e : Event} {n : ℕ} {run : RunId} {key : TargetKey}
  {v w : Option CampaignDelivery} {f : Option CampaignDelivery → Option (Option CampaignDelivery)}
  {j : JobId}

/-- The statements that write a delivery row, with the stage of the transaction they belong to. -/
inductive DeliveryStatement (s : State) : Event → TargetKey →
    (Option CampaignDelivery → Option (Option CampaignDelivery)) → Prop where
  | cascade {run cutoff key} : key ∈ cascade s run cutoff →
      DeliveryStatement s (.deleteRun run cutoff) key (fun _ => some none)
  | insertForRun {n fence ev now key} : s.txs n = .copied fence ev → key ∈ s.targetKeys n ev.run →
      DeliveryStatement s (.tx n (.insertDeliveries now)) key (insertDelivery now)
  | insertForCancel {n run now key} : s.txs n = .cancelLocked run → key ∈ s.targetKeys n run →
      DeliveryStatement s (.tx n (.insertDeliveries now)) key (insertDelivery now)
  | cancel {n run remaining g now} : s.txs n = .cancellingDeliveries run remaining →
      DeliveryStatement s (.tx n (.cancelDelivery g now)) (run, g)
        (cancelDelivery now (s.jobView n))
  | select {n run slots groups g} : s.txs n = .materializeCounted run slots →
      DeliveryStatement s (.tx n (.selectPending groups)) (run, g) lockDelivery
  | materialize {n run g changed rest job now date} :
      s.txs n = .materializing run ((g, changed) :: rest) →
      DeliveryStatement s (.tx n (.materializeNext job now date)) (run, g)
        (materializeDelivery (isLive s n run) changed now job)
  | reconcile {n jobs key now} : s.txs n = .reconciling jobs →
      DeliveryStatement s (.tx n (.reconcileRow key now)) key (reconcile now jobs)

theorem delivery_statement (h : (deliveryEffect s e).statement key = some f) :
    DeliveryStatement s e key f := by
  cases e <;> simp only [deliveryEffect] at h
  case deleteRun run cutoff =>
    simp only [Effect.statement, Option.ite_none_right_eq_some, Option.some.injEq] at h
    obtain ⟨hk, rfl⟩ := h
    exact .cascade hk
  case tx n event =>
    split at h <;> simp only [Effect.statement, Option.ite_none_right_eq_some, Option.some.injEq,
      reduceCtorEq] at h
    all_goals obtain ⟨hk, rfl⟩ := h
    · exact .insertForRun (by assumption) hk
    · exact .insertForCancel (by assumption) hk
    · subst hk
      exact .cancel (by assumption)
    · obtain ⟨g, _, rfl⟩ := List.mem_map.mp hk
      exact .select (by assumption)
    · subst hk
      exact .materialize (by assumption)
    · subst hk
      exact .reconcile (by assumption)
  all_goals cases h

theorem target_key (h : key ∈ s.targetKeys n run) :
    ∃ r, s.runView n run = some r ∧ key.2 ∈ r.targets ∧ key.1 = run := by
  unfold State.targetKeys at h
  split at h
  · rename_i r hr
    obtain ⟨g, hg, rfl⟩ := List.mem_map.mp h
    exact ⟨r, hr, hg, rfl⟩
  · cases h

/-- The run whose delivery rows a transaction may hold. -/
def writesFor : CampaignTx → Option RunId
  | .inserted _ ev | .applied _ ev => some ev.run
  | .cancelInserted run | .cancellingJobs run _ | .cancellingDeliveries run _ | .cancelWritten run
  | .materializing run _ => some run
  | _ => none

theorem writesFor_lock {k : CampaignTx} (h : writesFor k = some run) :
    ∃ statuses, k.lock = some (run, statuses) := by
  cases k <;> cases h <;> exact ⟨_, rfl⟩

/-- A transaction that may hold delivery rows goes on until it commits or aborts. -/
theorem writesFor_kept {k k' : CampaignTx} {event : TxEvent} (h : txNext s n k event = some k')
    (hk : writesFor k = some run) : writesFor k' = some run ∨ event = .commit ∨ event = .abort := by
  unfold txNext at h
  split at h
  all_goals
    first
    | exact .inr (.inl rfl)
    | exact .inr (.inr rfl)
    | cases hk
    | cases h
  all_goals simp only [guarded_eq_some, Option.some.injEq] at h
  all_goals
    first
    | subst h
    | obtain ⟨_, rfl⟩ := h
    exact .inl rfl

/-- Where a statement on a delivery row leaves its transaction. -/
theorem statement_writesFor {k' : CampaignTx} {event : TxEvent}
    (hs : DeliveryStatement s (.tx n event) key f) (hk : txNext s n (s.txs n) event = some k') :
    writesFor k' = some key.1 ∨
      ∃ jobs now, s.txs n = .reconciling jobs ∧ event = .reconcileRow key now := by
  generalize he : Event.tx n event = e at hs
  cases hs with
  | cascade => cases he
  | insertForRun hstage hkey =>
    cases he
    rw [hstage] at hk
    obtain ⟨_, rfl⟩ := guarded_eq_some.mp hk
    obtain ⟨_, _, _, hrun⟩ := target_key hkey
    exact .inl (by rw [hrun]; rfl)
  | insertForCancel hstage hkey =>
    cases he
    rw [hstage] at hk
    obtain ⟨_, rfl⟩ := guarded_eq_some.mp hk
    obtain ⟨_, _, _, hrun⟩ := target_key hkey
    exact .inl (by rw [hrun]; rfl)
  | cancel hstage =>
    cases he
    rw [hstage] at hk
    obtain ⟨_, rfl⟩ := guarded_eq_some.mp hk
    exact .inl rfl
  | select hstage =>
    cases he
    rw [hstage] at hk
    obtain ⟨_, rfl⟩ := guarded_eq_some.mp hk
    exact .inl rfl
  | materialize hstage =>
    cases he
    rw [hstage] at hk
    obtain ⟨_, rfl⟩ := guarded_eq_some.mp hk
    exact .inl rfl
  | reconcile hstage =>
    cases he
    exact .inr ⟨_, _, hstage, rfl⟩

/-- Only a transaction that has locked the run holds delivery rows of it. -/
def RowsHeldByWriters (s : State) : Prop :=
  ∀ key t v, (s.deliveries key).held = some (t, v) →
    ∃ n, t = .campaign n ∧ writesFor (s.txs n) = some key.1

theorem rows_held_step (hI : RowsHeldByWriters s) (h : step c s e = some u) :
    RowsHeldByWriters u := by
  obtain ⟨m, core, hm, _, ⟨_, _, hr⟩, rfl⟩ := step_some h
  intro key t v hv
  change ((deliveryEffect s e).apply s.deliveries key).held = some (t, v) at hv
  change ∃ n, t = .campaign n ∧ writesFor (m.txs n) = some key.1
  have hrow := Effect.row_moves hr key
  generalize (deliveryEffect s e).apply s.deliveries key = row at hrow hv
  cases hrow with
  | same hend =>
    obtain ⟨n, rfl, hw⟩ := hI key t v hv
    refine ⟨n, rfl, ?_⟩
    by_cases he : ∃ event, e = .tx n event
    · obtain ⟨event, rfl⟩ := he
      obtain hk | rfl | rfl := writesFor_kept (tx_moves hm) hw
      · exact hk
      · have hcommit : deliveryEffect s (.tx n .commit) = .commit (.campaign n) := by
          simp only [deliveryEffect]
        exact absurd hv (hend _ (.inl hcommit) v)
      · have habort : deliveryEffect s (.tx n .abort) = .abort (.campaign n) := by
          simp only [deliveryEffect]
        exact absurd hv (hend _ (.inr habort) v)
    · rw [other_tx_unchanged hm fun event hev => he ⟨event, hev⟩]
      exact hw
  | own => cases hv
  | inside hs ho _ _ =>
    simp only [Row.write_held, Option.some.injEq, Prod.mk.injEq] at hv
    obtain ⟨rfl, _⟩ := hv
    obtain ⟨n, event, rfl, rfl⟩ := delivery_effect_owner ho
    refine ⟨n, rfl, ?_⟩
    obtain hk | ⟨jobs, now, hjobs, rfl⟩ :=
      statement_writesFor (delivery_statement hs) (tx_moves hm)
    · exact hk
    · simp only [deliveryEffect, hjobs] at ho
      cases ho
  | commit => cases hv
  | abort => cases hv

theorem rows_held_by_writers (h : Reachable (system c) s) : RowsHeldByWriters s := by
  refine reachable_invariant (M := system c) ?_ (fun s e hI he => ?_) h
  · rintro _ rfl key t v hv
    cases hv
  · exact rows_held_step hI (ofStep_enabled he)

/-- A PENDING delivery has no job, and a delivery without one is PENDING, CANCELLED or blocked. -/
def WellFormed (v : Option CampaignDelivery) : Prop :=
  ∀ d ∈ v, (d.status = .pending → d.messageJobId = none) ∧
    (d.messageJobId = none → d.status ∈ [.pending, .cancelled, .blockedCapabilityChanged])

/-- A link to a job stays. -/
def KeepsLink (v w : Option CampaignDelivery) : Prop := ∀ j, link v = some j → link w = some j

theorem lockDelivery_some (h : lockDelivery v = some w) : w = v ∧ v ≠ none := by
  cases v with
  | none => cases h
  | some d =>
    cases h
    exact ⟨rfl, by simp⟩

/-- A selected delivery is blocked, or linked to the job created for it. -/
theorem materializeDelivery_some {live changed : Bool} {now : ℕ} {job : JobId}
    (h : materializeDelivery live changed now job v = some w) :
    ∃ d d', v = some d ∧ w = some d' ∧
      ((d'.status = .blockedCapabilityChanged ∧ d'.messageJobId = d.messageJobId) ∨
        (¬ (live && changed) ∧ d.status = .pending ∧ d'.status = .materialized ∧
          d'.messageJobId = some job)) := by
  cases v with
  | none => cases h
  | some d =>
    simp only [materializeDelivery] at h
    split at h
    · cases h
      exact ⟨d, _, rfl, rfl, .inl ⟨rfl, rfl⟩⟩
    · rename_i hlive
      obtain ⟨d', hd, rfl⟩ := Option.map_eq_some_iff.mp h
      exact ⟨d, d', rfl, rfl, .inr ⟨hlive, linkDelivery_some hd⟩⟩

theorem statement_well_formed (hs : DeliveryStatement s e key f) (hf : f v = some w)
    (hv : WellFormed v) : WellFormed w := by
  cases hs with
  | cascade =>
    cases hf
    intro d hd
    cases hd
  | insertForRun | insertForCancel =>
    obtain ⟨_, rfl⟩ := insertDelivery_some hf
    rintro d ⟨⟩
    exact ⟨fun _ => rfl, fun _ => by simp⟩
  | cancel =>
    obtain ⟨d, d', rfl, rfl, hstatus, _, _⟩ := cancelDelivery_some hf
    rintro _ ⟨⟩
    exact ⟨fun hp => by simp [hstatus] at hp, fun _ => by simp [hstatus]⟩
  | select =>
    obtain ⟨rfl, _⟩ := lockDelivery_some hf
    exact hv
  | materialize =>
    obtain ⟨d, d', rfl, rfl, ⟨hstatus, hjob⟩ | ⟨_, _, hstatus, hjob⟩⟩ := materializeDelivery_some hf
    · rintro _ ⟨⟩
      exact ⟨fun hp => by simp [hstatus] at hp, fun _ => by simp [hstatus]⟩
    · rintro _ ⟨⟩
      exact ⟨fun hp => by simp [hstatus] at hp, fun hn => by simp [hjob] at hn⟩
  | reconcile =>
    obtain ⟨d, d', j, job, rfl, rfl, _, hj, _, hstatus⟩ := reconcile_some hf
    rintro _ ⟨⟩
    refine ⟨fun hp => absurd hp (reconciled_not_pending hstatus), fun hn => ?_⟩
    rw [hj] at hn
    cases hn

theorem deliveries_well_formed (h : Reachable (system c) s) :
    ∀ key, (s.deliveries key).Each WellFormed := by
  refine reachable_invariant (M := system c) (I := fun s => ∀ key, (s.deliveries key).Each WellFormed)
    ?_ (fun s e hI he => ?_) h
  · rintro _ rfl key
    exact Row.each_settled fun d hd => nomatch hd
  · intro key
    obtain ⟨m, core, _, _, ⟨_, _, hr⟩, hu⟩ := step_some (ofStep_enabled he)
    rw [show (system c).next s e = _ from hu]
    exact Effect.each_apply (hI key) hr fun f v w hs hf hv =>
      statement_well_formed (delivery_statement hs) hf hv

/-- A statement of a transaction never takes a link away. -/
theorem statement_keeps_link {t : Tx} (ho : (deliveryEffect s e).owner = some t)
    (hs : DeliveryStatement s e key f) (hf : f v = some w) (hv : WellFormed v) :
    KeepsLink v w := by
  cases hs with
  | cascade => cases ho
  | insertForRun | insertForCancel =>
    obtain ⟨rfl, _⟩ := insertDelivery_some hf
    intro j hj
    cases hj
  | cancel =>
    obtain ⟨d, d', rfl, rfl, _, hlink, _⟩ := cancelDelivery_some hf
    intro j hj
    exact hlink.trans hj
  | select =>
    obtain ⟨rfl, _⟩ := lockDelivery_some hf
    exact fun j hj => hj
  | materialize =>
    obtain ⟨d, d', rfl, rfl, ⟨_, hlink⟩ | ⟨_, hpending, _⟩⟩ := materializeDelivery_some hf
    · exact fun j hj => hlink.trans hj
    · intro j hj
      have hnone := (hv d rfl).1 hpending
      change d.messageJobId = some j at hj
      rw [hnone] at hj
      cases hj
  | reconcile =>
    obtain ⟨d, d', j, job, rfl, rfl, hd, hd', _, _⟩ := reconcile_some hf
    intro i hi
    exact (hd'.trans hd.symm).trans hi

theorem links_kept (h : Reachable (system c) s) : ∀ key, (s.deliveries key).Follows KeepsLink := by
  refine reachable_invariant_with (M := system c)
    (I := fun s => ∀ key, (s.deliveries key).Follows KeepsLink)
    (J := fun s => ∀ key, (s.deliveries key).Each WellFormed)
    (fun _ => deliveries_well_formed) ?_ ?_ h
  · rintro _ rfl key
    exact Row.follows_settled _
  · intro s e hJ hI he key
    obtain ⟨m, core, _, _, ⟨_, _, hr⟩, hu⟩ := step_some (ofStep_enabled he)
    rw [show (system c).next s e = _ from hu]
    refine Effect.follows_inside (fun v j hj => hj) (fun x y z hxy hyz j hj => hyz j (hxy j hj)) hI hr ?_
    intro t f w ho hs hf
    exact statement_keeps_link ho (delivery_statement hs) hf (Row.each_view (hJ key))

/-- The run that a transaction has locked, as it sees it until it writes the row. -/
theorem locked_run_view {k : CampaignTx} {statuses : List CampaignRunStatus}
    (hk : HoldsRun k n statuses (s.runs run)) (hkeep : ∀ r v, Keeps k r v → v = .present r) :
    ∃ r, (s.runs run).committed = .present r ∧ r.status ∈ statuses ∧
      s.runView n run = some r := by
  obtain ⟨r, v, hc, hs, hh, hv⟩ := hk
  obtain rfl := hkeep r v hv
  exact ⟨r, hc, hs, by rw [State.runView, Row.view_of_held hh]; rfl⟩

/-- A delivery stands for a target of its run. -/
def Placed (slot : RunSlot) (g : GroupId) : Prop :=
  match slot with
  | .present r => g ∈ r.targets
  | .deleted => True
  | .unused => False

theorem placed_kept {slot slot' : RunSlot} {g : GroupId} (h : SlotChange StaysEnded slot slot')
    (hp : Placed slot g) : Placed slot' g := by
  cases h with
  | kept => exact hp
  | created => exact absurd hp id
  | @changed old new hr =>
    have htargets : new.targets = old.targets := congrArg CreateRunInput.targets hr.1
    simpa only [Placed, htargets] using hp
  | deleted => trivial

def DeliveriesPlaced (s : State) : Prop :=
  ∀ key, (s.deliveries key).Each fun v => v ≠ none → Placed (s.runs key.1).committed key.2

theorem target_placed (hI : RunsLocked s) {k : CampaignTx} {statuses : List CampaignRunStatus}
    (hn : s.txs n = k) (hlock : k.lock = some (run, statuses))
    (hkeep : ∀ r v, Keeps k r v → v = .present r) (hkey : key ∈ s.targetKeys n run) :
    Placed (s.runs key.1).committed key.2 := by
  obtain ⟨r, hr, hg, rfl⟩ := target_key hkey
  have hk := hI n key.1 statuses (by rw [hn]; exact hlock)
  rw [hn] at hk
  obtain ⟨r', hc, _, hv⟩ := locked_run_view hk hkeep
  rw [hr] at hv
  cases hv
  rw [hc]
  exact hg

theorem deliveries_placed (h : Reachable (system c) s) : DeliveriesPlaced s := by
  refine reachable_invariant_with (M := system c) (I := DeliveriesPlaced) (J := Reachable (system c))
    (fun _ => id) ?_ ?_ h
  · rintro _ rfl key
    exact Row.each_settled fun hv => absurd rfl hv
  · intro s e hreach hI he key
    have hstep := ofStep_enabled he
    have hslot := run_row_changes hreach hstep key.1
    obtain ⟨m, core, _, _, ⟨_, _, hr⟩, hu⟩ := step_some hstep
    have hlocked := runs_locked hreach
    have heach : ((deliveryEffect s e).apply s.deliveries key).Each
        fun v => v ≠ none → Placed (s.runs key.1).committed key.2 := by
      refine Effect.each_apply (hI key) hr fun f v w hs hf hv hw => ?_
      cases delivery_statement hs with
      | cascade =>
        cases hf
        exact absurd rfl hw
      | insertForRun hstage hkey => exact target_placed hlocked hstage rfl (fun r v hv => hv) hkey
      | insertForCancel hstage hkey =>
        exact target_placed hlocked hstage rfl (fun r v hv => hv) hkey
      | cancel =>
        obtain ⟨d, _, rfl, _⟩ := cancelDelivery_some hf
        exact hv (by simp)
      | select => exact hv (lockDelivery_some hf).2
      | materialize =>
        obtain ⟨d, _, rfl, _⟩ := materializeDelivery_some hf
        exact hv (by simp)
      | reconcile =>
        obtain ⟨d, _, _, _, rfl, _⟩ := reconcile_some hf
        exact hv (by simp)
    have hmoved : ((deliveryEffect s e).apply s.deliveries key).Each
        fun v => v ≠ none → Placed (((system c).next s e).runs key.1).committed key.2 :=
      ⟨fun hv => placed_kept hslot (heach.1 hv),
        fun t v ht hv => placed_kept hslot (heach.2 t v ht hv)⟩
    rwa [show ((system c).next s e).deliveries = _ from congrArg State.deliveries hu]

theorem core_reachable (h : Reachable (system c) s) :
    Reachable (OutboundMessageExecution.system c) s.core :=
  (projects_to_messages c).reachable h

/-- A step leaves the message system as it is or takes one step of it. -/
theorem core_steps {core : OutboundMessageExecution.State} (h : coreStep c s e = some core) :
    (coreEvent s e = none ∧ core = s.core) ∨
      ∃ event, coreEvent s e = some event ∧
        OutboundMessageExecution.step c s.core event = some core := by
  unfold coreStep at h
  split at h
  · rename_i hnone
    cases h
    exact .inl ⟨hnone, rfl⟩
  · rename_i event hevent
    exact .inr ⟨event, hevent, h⟩

/-- The steps of the message system inside the events here. -/
inductive InCore (s : State) : Event → OutboundMessageExecution.Event → Prop where
  | message {event : OutboundMessageExecution.Event} : Outside s event → InCore s (.core event) event
  | cancelJob {m : ℕ} {id : RunId} {remaining : List JobId} {job : JobId} {now : ℕ} :
      s.txs m = .cancellingJobs id remaining → job ∈ remaining →
      InCore s (.tx m (.cancelJob job now)) (.cancelJob (.campaign m) job now)
  | materialize {m : ℕ} {id : RunId} {g changed rest} {r : CampaignRun} {job : JobId}
      {now date : ℕ} : s.txs m = .materializing id ((g, changed) :: rest) →
      s.core.jobs job = Row.settled .unused → s.runView m id = some r →
      ¬ (r.executionMode = .live ∧ changed) →
      InCore s (.tx m (.materializeNext job now date)) (.insertJob (.campaign m) job
        ⟨r.sessionId, g, r.text, date, decide (r.executionMode = .dryRun)⟩ now)
  | commit {m : ℕ} : InCore s (.tx m .commit) (.commit (.campaign m))
  | abort {m : ℕ} : InCore s (.tx m .abort) (.abort (.campaign m))

theorem in_core {m : State} {event : OutboundMessageExecution.Event}
    (hm : moveParties s e = some m) (he : coreEvent s e = some event) : InCore s e event := by
  unfold coreEvent at he
  split at he
  · rename_i ev
    obtain rfl := Option.some.inj he
    refine .message ?_
    simp only [moveParties] at hm
    split at hm <;> exact (guarded_eq_some.mp hm).1
  · rename_i n job now
    obtain rfl := Option.some.inj he
    have hk := tx_moves hm
    generalize hstage : s.txs n = k at hk
    cases k <;> simp only [txNext, reduceCtorEq] at hk
    case cancellingJobs run remaining =>
      obtain ⟨⟨_, hjob⟩, _⟩ := guarded_eq_some.mp hk
      exact .cancelJob hstage hjob
  · rename_i n job now date
    have hk := tx_moves hm
    generalize hstage : s.txs n = k at hk
    cases k <;> simp only [txNext, reduceCtorEq] at hk
    case materializing run pending =>
      cases pending with
      | nil => simp at hk
      | cons p rest =>
        obtain ⟨g, changed⟩ := p
        obtain ⟨⟨_, hjob⟩, _⟩ := guarded_eq_some.mp hk
        obtain ⟨⟨run', input⟩, hp, rfl⟩ := Option.map_eq_some_iff.mp he
        rw [hstage] at hp
        obtain ⟨r, hr, hp⟩ := Option.bind_eq_some_iff.mp hp
        split at hp
        · cases hp
        · rename_i hlive
          cases hp
          exact .materialize hstage hjob hr hlive
  · obtain rfl := Option.some.inj he
    exact .commit
  · obtain rfl := Option.some.inj he
    exact .abort
  · cases he

/-- What a campaign transaction does to message jobs it does in steps of its own. -/
theorem core_actor {event : OutboundMessageExecution.Event} (h : InCore s e event)
    (ha : OutboundMessageExecution.actor event = some (.campaign n)) : ∃ ev, e = .tx n ev := by
  cases h with
  | message hout =>
    cases event <;> simp only [OutboundMessageExecution.actor, reduceCtorEq, Option.some.injEq] at ha
    case insertJob => exact absurd ha (hout.1 n)
    case cancelJob => exact absurd hout id
    case commit => exact absurd ha (hout n)
    case abort => exact absurd ha (hout n)
  | cancelJob | materialize | commit | abort =>
    cases ha
    exact ⟨_, rfl⟩

/-- A campaign transaction ends in the message system where it ends here. -/
theorem core_end {event : OutboundMessageExecution.Event} (h : InCore s e event)
    (hend : OutboundMessageExecution.jobEffect s.core event = .commit (.campaign n) ∨
      OutboundMessageExecution.jobEffect s.core event = .abort (.campaign n)) :
    e = .tx n .commit ∨ e = .tx n .abort := by
  have howner : (OutboundMessageExecution.jobEffect s.core event).owner = some (.campaign n) := by
    obtain h | h := hend <;> rw [h] <;> rfl
  obtain ⟨ev, rfl⟩ := core_actor h (OutboundMessageExecution.effect_owner howner)
  cases h with
  | cancelJob => obtain h | h := hend <;> cases h
  | materialize => obtain h | h := hend <;> cases h
  | commit => exact .inl rfl
  | abort => exact .inr rfl

/-- The job a delivery refers to was created for this delivery, and its row is there. -/
def Named (s : State) (key : TargetKey) (j : JobId) (slot : JobSlot) : Prop :=
  s.jobOwner j = some key ∧ ∃ job, slot = .present job

structure LinksNamed (s : State) : Prop where
  committed : ∀ key j, link (s.deliveries key).committed = some j →
    Named s key j (s.core.jobs j).committed
  held : ∀ key j n v, (s.deliveries key).held = some (.campaign n, v) → link v = some j →
    Named s key j ((s.core.jobs j).view (.campaign n))

/-- A job row that stands in some version seen by a campaign transaction. -/
def Stands (s : State) (j : JobId) : Prop :=
  (∃ job, (s.core.jobs j).committed = .present job) ∨
    ∃ n job, (s.core.jobs j).held = some (.campaign n, .present job)

theorem stands_of_view (h : ∃ job, (s.core.jobs j).view (.campaign n) = .present job) :
    Stands s j := by
  obtain ⟨job, h⟩ := h
  unfold Row.view at h
  split at h
  · exact .inl ⟨job, h⟩
  · rename_i t v hv
    split at h
    · rename_i ht
      rw [ht, h] at hv
      exact .inr ⟨n, job, hv⟩
    · exact .inl ⟨job, h⟩

theorem owner_kept {m : State} {core : OutboundMessageExecution.State}
    (hm : moveParties s e = some m) (hc : coreStep c s e = some core) (hj : Stands s j) :
    m.jobOwner j = s.jobOwner j := by
  cases e <;> simp only [moveParties] at hm
  case core event =>
    split at hm
    · rename_i t job input now
      obtain ⟨⟨ht, hunused⟩, rfl⟩ := guarded_eq_some.mp hm
      have hne : j ≠ job := by
        rintro rfl
        obtain ⟨row, hrow⟩ | ⟨n, row, hheld⟩ := hj
        · rw [hunused] at hrow
          cases hrow
        · -- the insertion would wait for the transaction that has inserted the job
          obtain ⟨_, _, hready, _⟩ := OutboundMessageExecution.step_some hc
          have hview : (s.core.jobs j).view t = .unused := by
            rw [Row.view_of_not_held (Row.not_held_of_held hheld (ht n).symm), hunused]
          obtain hfree | hnone := hready
          · exact Row.not_held_of_free_for hfree (ht n) _ hheld
          · rw [hview] at hnone
            cases hnone
      exact Function.update_of_ne hne _ _
    · obtain ⟨_, rfl⟩ := guarded_eq_some.mp hm
      rfl
  case tx n event =>
    split at hm
    · cases hm
    · rename_i stage hstage
      cases hm
      change ownerAfter s (s.txs n) event j = s.jobOwner j
      generalize s.txs n = k at hstage
      unfold ownerAfter
      split
      · rename_i run g changed rest job now date
        have hne : j ≠ job := by
          rintro rfl
          obtain ⟨⟨_, hsettled⟩, _⟩ := guarded_eq_some.mp hstage
          obtain ⟨row, hrow⟩ | ⟨n, row, hheld⟩ := hj
          · rw [hsettled] at hrow
            cases hrow
          · rw [hsettled] at hheld
            cases hheld
        exact Function.update_of_ne hne _ _
      · rfl
  all_goals
    simp only [guarded_eq_some, Option.some.injEq] at hm
    first
    | subst hm
    | obtain ⟨_, rfl⟩ := hm
    rfl

/-- Retention does not delete a job that a delivery refers to. -/
theorem referred_not_deleted {event : OutboundMessageExecution.Event} (hin : InCore s e event)
    (howner : s.jobOwner j = some key) (hrefers : Refers s key j) :
    ∀ cutoff, event ≠ .deleteJob j cutoff := by
  rintro cutoff rfl
  cases hin with
  | message hout => exact hout key howner hrefers

section Kept

variable {m : State} {core : OutboundMessageExecution.State}

theorem referred_committed_kept (hr : Reachable (system c) s) (hm : moveParties s e = some m)
    (hc : coreStep c s e = some core) (hrefers : Refers s key j)
    (hj : Named s key j (s.core.jobs j).committed) :
    m.jobOwner j = some key ∧ ∃ job, (core.jobs j).committed = .present job := by
  obtain ⟨howner, job, hjob⟩ := hj
  refine ⟨(owner_kept hm hc (.inl ⟨job, hjob⟩)).trans howner, ?_⟩
  obtain ⟨_, rfl⟩ | ⟨event, hevent, hstep⟩ := core_steps hc
  · exact ⟨job, hjob⟩
  · have hkept := referred_not_deleted (in_core hm hevent) howner hrefers
    exact MessageJobTransitions.committed_stays (core_reachable hr) hstep hkept hjob

theorem referred_view_kept (hr : Reachable (system c) s) (hm : moveParties s e = some m)
    (hc : coreStep c s e = some core) (hrefers : Refers s key j)
    (hend : e ≠ .tx n .commit ∧ e ≠ .tx n .abort)
    (hj : Named s key j ((s.core.jobs j).view (.campaign n))) :
    m.jobOwner j = some key ∧ ∃ job, (core.jobs j).view (.campaign n) = .present job := by
  obtain ⟨howner, job, hjob⟩ := hj
  refine ⟨(owner_kept hm hc (stands_of_view ⟨job, hjob⟩)).trans howner, ?_⟩
  obtain ⟨_, rfl⟩ | ⟨event, hevent, hstep⟩ := core_steps hc
  · exact ⟨job, hjob⟩
  · have hin := in_core hm hevent
    have hkept := referred_not_deleted hin howner hrefers
    have hgo : OutboundMessageExecution.jobEffect s.core event ≠ .commit (.campaign n) ∧
        OutboundMessageExecution.jobEffect s.core event ≠ .abort (.campaign n) := by
      constructor
      · intro h
        obtain h | h := core_end hin (.inl h)
        · exact hend.1 h
        · exact hend.2 h
      · intro h
        obtain h | h := core_end hin (.inr h)
        · exact hend.1 h
        · exact hend.2 h
    exact MessageJobTransitions.present_stays (core_reachable hr) hstep hkept hgo hjob

end Kept

/-- What a campaign transaction sees of a delivery refers to a job that it sees too. -/
theorem named_view (hr : Reachable (system c) s) (hI : LinksNamed s)
    (hj : link ((s.deliveries key).view (.campaign n)) = some j) :
    Refers s key j ∧ Named s key j ((s.core.jobs j).view (.campaign n)) := by
  by_cases hh : ∃ v, (s.deliveries key).held = some (.campaign n, v)
  · obtain ⟨v, hv⟩ := hh
    rw [Row.view_of_held hv] at hj
    refine ⟨.inr (by rw [hv]; exact hj), hI.held key j n v hv hj⟩
  · rw [Row.view_of_not_held fun v hv => hh ⟨v, hv⟩] at hj
    obtain ⟨howner, job, hjob⟩ := hI.committed key j hj
    refine ⟨.inl hj, howner, ?_⟩
    by_cases hjh : ∃ v, (s.core.jobs j).held = some (.campaign n, v)
    · obtain ⟨v, hv⟩ := hjh
      rw [Row.view_of_held hv]
      exact MessageJobTransitions.held_rows_present (core_reachable hr) j _ v hv
    · rw [Row.view_of_not_held fun v hv => hjh ⟨v, hv⟩]
      exact ⟨job, hjob⟩

@[simp] theorem deliveryEffect_commit :
    deliveryEffect s (.tx n .commit) = .commit (.campaign n) := by
  simp only [deliveryEffect]

@[simp] theorem deliveryEffect_abort :
    deliveryEffect s (.tx n .abort) = .abort (.campaign n) := by
  simp only [deliveryEffect]

theorem delivery_commit {t : Tx} (h : deliveryEffect s e = .commit t) :
    ∃ n, e = .tx n .commit ∧ t = .campaign n := by
  have howner : (deliveryEffect s e).owner = some t := by rw [h]; rfl
  obtain ⟨n, event, rfl, rfl⟩ := delivery_effect_owner howner
  refine ⟨n, ?_, rfl⟩
  simp only [deliveryEffect] at h
  split at h <;> first | rfl | cases h

/-- The job inserted for a delivery is the one that the delivery is then linked to. -/
theorem materialized_job {m : State} {core : OutboundMessageExecution.State} {g : GroupId}
    {changed : Bool} {rest : List (GroupId × Bool)} {now date : ℕ} (hr : Reachable (system c) s)
    (hstage : s.txs n = .materializing run ((g, changed) :: rest))
    (hm : moveParties s (.tx n (.materializeNext j now date)) = some m)
    (hc : coreStep c s (.tx n (.materializeNext j now date)) = some core)
    (hlive : ¬ (isLive s n run && changed)) :
    m.jobOwner j = some (run, g) ∧ ∃ job, (core.jobs j).view (.campaign n) = .present job := by
  have hk := tx_moves hm
  rw [hstage] at hk
  obtain ⟨⟨_, hsettled⟩, _⟩ := guarded_eq_some.mp hk
  constructor
  · simp only [moveParties, hstage] at hm
    split at hm
    · cases hm
    · cases hm
      exact Function.update_self _ _ _
  · obtain ⟨r, _, _, hview⟩ : ∃ r, (s.runs run).committed = .present r ∧ r.status ∈ _ ∧
        s.runView n run = some r := by
      have hlock := runs_locked hr n run [.running] (by rw [hstage]; rfl)
      rw [hstage] at hlock
      exact locked_run_view hlock fun r v hv => hv
    have hnot : ¬ (r.executionMode = .live ∧ changed = true) := by
      rintro ⟨hmode, hchanged⟩
      exact hlive (by simp [isLive, hview, hmode, hchanged])
    have hcore : ∃ input, OutboundMessageExecution.step c s.core
        (.insertJob (.campaign n) j input now) = some core := by
      simp only [coreStep, coreEvent, materializedJob, hstage, hview, Option.bind_some, if_neg hnot,
        Option.map_some] at hc
      exact ⟨_, hc⟩
    obtain ⟨input, hstep⟩ := hcore
    obtain ⟨_, _, _, rfl⟩ := OutboundMessageExecution.step_some hstep
    refine ⟨create now input, Row.view_of_held ?_⟩
    simp [OutboundMessageExecution.jobEffect, Effect.apply, hsettled, Row.updateIn, Row.view,
      insertJob]

theorem links_named_step (hr : Reachable (system c) s) (hI : LinksNamed s)
    (h : step c s e = some u) : LinksNamed u := by
  obtain ⟨m, core, hm, hc, ⟨_, _, hready⟩, rfl⟩ := step_some h
  constructor
  · intro key j hj
    change link ((deliveryEffect s e).apply s.deliveries key).committed = some j at hj
    change m.jobOwner j = some key ∧ ∃ job, (core.jobs j).committed = .present job
    have hbefore : link (s.deliveries key).committed = some j →
        m.jobOwner j = some key ∧ ∃ job, (core.jobs j).committed = .present job :=
      fun hl => referred_committed_kept hr hm hc (.inl hl) (hI.committed key j hl)
    have hrow := Effect.row_moves hready key
    generalize (deliveryEffect s e).apply s.deliveries key = row at hrow hj
    cases hrow with
    | same => exact hbefore hj
    | own hs ho _ hw =>
      cases delivery_statement hs with
      | cascade =>
        cases hw
        cases hj
      | reconcile =>
        obtain ⟨d, d', i, job, hd, rfl, hi, hi', _⟩ := reconcile_some hw
        refine hbefore ?_
        rw [hd]
        exact hi.trans (hi'.symm.trans hj)
      | insertForRun hstage => simp [deliveryEffect, hstage, Effect.owner] at ho
      | insertForCancel hstage => simp [deliveryEffect, hstage, Effect.owner] at ho
      | cancel hstage => simp [deliveryEffect, hstage, Effect.owner] at ho
      | select hstage => simp [deliveryEffect, hstage, Effect.owner] at ho
      | materialize hstage => simp [deliveryEffect, hstage, Effect.owner] at ho
    | inside => exact hbefore hj
    | commit he hh =>
      obtain ⟨n, rfl, rfl⟩ := delivery_commit he
      obtain ⟨howner, job, hjob⟩ := hI.held key j n _ hh hj
      refine ⟨(owner_kept hm hc (stands_of_view ⟨job, hjob⟩)).trans howner, job, ?_⟩
      obtain ⟨_, _, _, rfl⟩ := OutboundMessageExecution.step_some
        (show OutboundMessageExecution.step c s.core (.commit (.campaign n)) = some core from hc)
      exact Row.commit_committed.trans hjob
    | abort => exact hbefore hj
  · intro key j n v hv hj
    change ((deliveryEffect s e).apply s.deliveries key).held = some (.campaign n, v) at hv
    change m.jobOwner j = some key ∧ ∃ job, (core.jobs j).view (.campaign n) = .present job
    have hrow := Effect.row_moves hready key
    generalize (deliveryEffect s e).apply s.deliveries key = row at hrow hv
    cases hrow with
    | same hend =>
      have hgo : e ≠ .tx n .commit ∧ e ≠ .tx n .abort := by
        constructor
        · rintro rfl
          exact hend _ (.inl deliveryEffect_commit) v hv
        · rintro rfl
          exact hend _ (.inr deliveryEffect_abort) v hv
      have hrefers : Refers s key j := .inr (by rw [hv]; exact hj)
      exact referred_view_kept hr hm hc hrefers hgo (hI.held key j n v hv hj)
    | own => cases hv
    | inside hs ho _ hw =>
      simp only [Row.write_held, Option.some.injEq, Prod.mk.injEq] at hv
      obtain ⟨rfl, rfl⟩ := hv
      obtain ⟨_, event, rfl, hn⟩ := delivery_effect_owner ho
      cases hn
      -- a link that the transaction has seen before stays named
      have hseen : event ≠ .commit ∧ event ≠ .abort →
          link ((s.deliveries key).view (.campaign n)) = some j →
            m.jobOwner j = some key ∧ ∃ job, (core.jobs j).view (.campaign n) = .present job := by
        intro hgo hl
        obtain ⟨hrefers, hnamed⟩ := named_view hr hI hl
        exact referred_view_kept hr hm hc hrefers (by simpa using hgo) hnamed
      cases delivery_statement hs with
      | insertForRun =>
        obtain ⟨_, rfl⟩ := insertDelivery_some hw
        cases hj
      | insertForCancel =>
        obtain ⟨_, rfl⟩ := insertDelivery_some hw
        cases hj
      | cancel =>
        obtain ⟨d, d', hd, rfl, _, hlink, _⟩ := cancelDelivery_some hw
        refine hseen (by simp) ?_
        rw [hd]
        exact hlink.symm.trans hj
      | select =>
        obtain ⟨rfl, _⟩ := lockDelivery_some hw
        exact hseen (by simp) hj
      | materialize hstage =>
        obtain ⟨d, d', hd, rfl, ⟨_, hlink⟩ | ⟨hlive, _, _, hlink⟩⟩ := materializeDelivery_some hw
        · refine hseen (by simp) ?_
          rw [hd]
          exact hlink.symm.trans hj
        · have hjob := hlink.symm.trans hj
          cases hjob
          exact materialized_job hr hstage hm hc hlive
      | reconcile hstage => simp [deliveryEffect, hstage, Effect.owner] at ho
    | commit => cases hv
    | abort => cases hv

theorem links_named (h : Reachable (system c) s) : LinksNamed s := by
  refine reachable_invariant_with (M := system c) (I := LinksNamed) (J := Reachable (system c))
    (fun _ => id) ?_ (fun s e hr hI he => links_named_step hr hI (ofStep_enabled he)) h
  rintro _ rfl
  constructor
  · intro key j hj
    cases hj
  · intro key j n v hv
    cases hv

theorem lock_statuses_open {k : CampaignTx} {statuses : List CampaignRunStatus}
    (h : k.lock = some (run, statuses)) : ∀ status ∈ statuses, ¬ status.Terminal := by
  have hfence : ∀ fence : Fence, ∀ status ∈ fence.statuses, ¬ status.Terminal := by
    intro fence
    cases fence <;> simp [Fence.statuses, CampaignRunStatus.Terminal]
  cases k <;> cases h
  all_goals first | exact hfence _ | decide

theorem locked_run_open (hr : Reachable (system c) s) {statuses : List CampaignRunStatus}
    (h : (s.txs n).lock = some (run, statuses)) :
    ∃ r, (s.runs run).committed = .present r ∧ ¬ r.status.Terminal := by
  obtain ⟨r, _, hc, hs, _⟩ := runs_locked hr n run statuses h
  exact ⟨r, hc, lock_statuses_open h r.status hs⟩

theorem lock_unique (hr : Reachable (system c) s) {m : ℕ} {xs ys : List CampaignRunStatus}
    (hn : (s.txs n).lock = some (run, xs)) (hm : (s.txs m).lock = some (run, ys)) : n = m := by
  obtain ⟨_, _, _, _, hn, _⟩ := runs_locked hr n run xs hn
  obtain ⟨_, _, _, _, hm, _⟩ := runs_locked hr m run ys hm
  rw [hn] at hm
  cases hm
  rfl

/-- A committed delivery row changes by a commit of the transaction that has locked its run, by a
reconciliation, or with the deletion of the run. -/
theorem committed_delivery_step (key : TargetKey) (hr : Reachable (system c) s) (h : step c s e = some u)
    (hcommit : ∀ m, e = .tx m .commit → writesFor (s.txs m) ≠ some key.1) :
    (u.deliveries key).committed = (s.deliveries key).committed ∨
      (∃ m now jobs, s.txs m = .reconciling jobs ∧
        reconcile now jobs (s.deliveries key).committed = some (u.deliveries key).committed) ∨
      ((u.deliveries key).committed = none ∧ ∃ cutoff, key ∈ cascade s key.1 cutoff) := by
  obtain ⟨m, core, _, _, ⟨_, _, hready⟩, rfl⟩ := step_some h
  have hrow := Effect.row_moves hready key
  change ((deliveryEffect s e).apply s.deliveries key).committed = _ ∨
    (∃ m now jobs, s.txs m = .reconciling jobs ∧ reconcile now jobs _ =
      some ((deliveryEffect s e).apply s.deliveries key).committed) ∨
    ((deliveryEffect s e).apply s.deliveries key).committed = none ∧ _
  generalize (deliveryEffect s e).apply s.deliveries key = row at hrow ⊢
  cases hrow with
  | same => exact .inl rfl
  | own hs ho _ hw =>
    cases delivery_statement hs with
    | @cascade run cutoff _ hk =>
      cases hw
      have hrun : run = key.1 := by
        unfold cascade at hk
        split at hk
        · split at hk
          · obtain ⟨g, _, rfl⟩ := List.mem_map.mp hk
            rfl
          · cases hk
        · cases hk
      exact .inr (.inr ⟨rfl, cutoff, hrun ▸ hk⟩)
    | reconcile hstage => exact .inr (.inl ⟨_, _, _, hstage, hw⟩)
    | insertForRun hstage => simp [deliveryEffect, hstage, Effect.owner] at ho
    | insertForCancel hstage => simp [deliveryEffect, hstage, Effect.owner] at ho
    | cancel hstage => simp [deliveryEffect, hstage, Effect.owner] at ho
    | select hstage => simp [deliveryEffect, hstage, Effect.owner] at ho
    | materialize hstage => simp [deliveryEffect, hstage, Effect.owner] at ho
  | inside => exact .inl rfl
  | commit he hh =>
    obtain ⟨n, rfl, rfl⟩ := delivery_commit he
    obtain ⟨n', hn, hw⟩ := rows_held_by_writers hr key _ _ hh
    cases hn
    exact absurd hw (hcommit n rfl)
  | abort => exact .inl rfl

/-- While a transaction has the run locked, the other parties change the rows it does not hold by
reconciliation only. -/
theorem locked_delivery_step (hr : Reachable (system c) s) (h : step c s e = some u)
    (he : ∀ event, e ≠ .tx n event) {statuses : List CampaignRunStatus}
    (hlock : (s.txs n).lock = some (run, statuses)) (g : GroupId) :
    u.deliveries (run, g) = s.deliveries (run, g) ∧
        (∃ v, (s.deliveries (run, g)).held = some (.campaign n, v)) ∨
      (∀ v, (s.deliveries (run, g)).held ≠ some (.campaign n, v)) ∧
        (u.delivery n (run, g) = s.delivery n (run, g) ∨
          ∃ now jobs, reconcile now jobs (s.delivery n (run, g)) = some (u.delivery n (run, g))) := by
  have howner : (deliveryEffect s e).owner ≠ some (.campaign n) := by
    intro ho
    obtain ⟨m, event, hev, hm⟩ := delivery_effect_owner ho
    cases hm
    exact he event hev
  have hcommitted := committed_delivery_step (run, g) hr h (by
    intro m hm hw
    obtain ⟨ys, hys⟩ := writesFor_lock hw
    obtain rfl := lock_unique hr hlock hys
    exact he _ hm)
  obtain ⟨r, hrun, hopen⟩ := locked_run_open hr hlock
  obtain ⟨m, core, _, _, ⟨_, _, hready⟩, rfl⟩ := step_some h
  by_cases hheld : ∃ v, (s.deliveries (run, g)).held = some (.campaign n, v)
  · obtain ⟨v, hv⟩ := hheld
    exact .inl ⟨Effect.locked_row_unchanged hready howner hv, v, hv⟩
  · refine .inr ⟨fun v hv => hheld ⟨v, hv⟩, ?_⟩
    obtain hsame | ⟨hbefore, hafter⟩ := Effect.view_of_other hready howner (run, g)
    · exact .inl hsame
    · simp only [State.delivery, hbefore]
      rw [show (Row.view (Tx.campaign n) ((deliveryEffect s e).apply s.deliveries (run, g))) = _
        from hafter]
      obtain hsame | ⟨_, now, jobs, _, hw⟩ | ⟨_, cutoff, hk⟩ := hcommitted
      · exact .inl hsame
      · exact .inr ⟨now, jobs, hw⟩
      · simp only [cascade, hrun] at hk
        split at hk
        · rename_i hd
          exact absurd hd.1 hopen
        · cases hk

end CampaignDeliveries
