import WaRuntime.AggregateLocks
import WaRuntime.CampaignDeliveries

/-! Where the runs come from: a run slot is filled once, by the commit of the transaction that
creates the run, and what the run was created with stays. -/
namespace RunOrigins

open TransitionRuns RowVersions CampaignRunStatements CampaignAggregates AggregateLocks
open CampaignExecution (RunSlot onRun runEffect txRunEffect insertRun deleteRunSlot)
open CampaignRunTransitions (SlotChange StaysEnded run_row_changes run_statement)
open CampaignTransactions (runInput)

section Slots

variable {c : OutboundMessageExecution.Config} {s u : CampaignExecution.State}
  {e : CampaignExecution.Event} {run : RunId}

/-- Only the creation fills an unused slot. -/
theorem statement_on_unused {f : RunSlot → Option RunSlot} {w : RunSlot}
    (hs : (runEffect s e).statement run = some f) (hw : f .unused = some w) :
    ∃ input now, e = .createRun run input now ∧ w = .present (createRun now input) := by
  obtain ⟨input, now, he, _, rfl⟩ | ⟨_, _, _, hold, _⟩ | ⟨_, _, hold, _⟩ :=
    run_statement hs hw
  · exact ⟨input, now, he, rfl⟩
  · cases hold
  · cases hold

/-- No transaction holds the row of a slot that is still unused. -/
theorem unused_is_free (h : Reachable (CampaignExecution.system c) s)
    (hrun : (s.runs run).committed = .unused) : (s.runs run).Free := by
  revert run
  refine reachable_invariant (M := CampaignExecution.system c)
    (I := fun s => ∀ {run}, (s.runs run).committed = .unused → (s.runs run).Free) ?_
    (fun s e hI he run hrun => ?_) h
  · rintro _ rfl run _
    rfl
  · obtain ⟨v, core, _, _, ⟨hr, _, _⟩, hu⟩ := CampaignExecution.step_some (ofStep_enabled he)
    rw [show (CampaignExecution.system c).next s e = _ from hu] at hrun ⊢
    change ((runEffect s e).apply s.runs run).committed = .unused at hrun
    change ((runEffect s e).apply s.runs run).Free
    have hrow := Effect.row_moves hr run
    generalize (runEffect s e).apply s.runs run = row at hrow hrun ⊢
    cases hrow with
    | same => exact hI hrun
    | own => rfl
    | inside hs ho _ hw =>
      have hunused : (s.runs run).committed = .unused := hrun
      rw [Row.view_of_free (hI hunused), hunused] at hw
      obtain ⟨input, now, rfl, _⟩ := statement_on_unused hs hw
      cases ho
    | commit => rfl
    | abort => rfl

/-- A slot stays unused until a run is created in it. -/
theorem unused_step (h : Reachable (CampaignExecution.system c) s)
    (hstep : CampaignExecution.step c s e = some u) (hrun : (s.runs run).committed = .unused) :
    (u.runs run).committed = .unused ∨ ∃ input now, e = .createRun run input now ∧
      (u.runs run).committed = .present (createRun now input) := by
  obtain ⟨v, core, _, _, ⟨hr, _, _⟩, rfl⟩ := CampaignExecution.step_some hstep
  have hfree := unused_is_free h hrun
  have hrow := Effect.row_moves hr run
  change ((runEffect s e).apply s.runs run).committed = _ ∨
    ∃ input now, _ ∧ ((runEffect s e).apply s.runs run).committed = _
  generalize (runEffect s e).apply s.runs run = row at hrow ⊢
  cases hrow with
  | same => exact .inl hrun
  | own hs _ _ hw =>
    rw [hrun] at hw
    obtain ⟨input, now, rfl, rfl⟩ := statement_on_unused hs hw
    exact .inr ⟨input, now, rfl, rfl⟩
  | inside => exact .inl hrun
  | commit _ hh =>
    rw [hfree] at hh
    cases hh
  | abort => exact .inl hrun

/-- The creation fills a slot that was unused. -/
theorem created_run {input : CreateRunInput} {now : ℕ}
    (hstep : CampaignExecution.step c s (.createRun run input now) = some u) :
    (s.runs run).committed = .unused ∧
      (u.runs run).committed = .present (createRun now input) := by
  obtain ⟨v, core, hv, _, _, rfl⟩ := CampaignExecution.step_some hstep
  obtain ⟨⟨_, hunused, _⟩, _⟩ := guarded_eq_some.mp hv
  refine ⟨hunused, ?_⟩
  change (((s.runs).update (insertRun now input) run) run).committed = _
  simp [Row.update, hunused, insertRun]

end Slots

variable {c : Config} {s u : State} {e : Event} {run : RunId} {r : CampaignRun}

theorem exec_moves (h : step c s e = some u) :
    execEvent s e = none ∧ u.exec = s.exec ∨
      ∃ event, execEvent s e = some event ∧
        CampaignExecution.step c.messages s.exec event = some u.exec := by
  obtain ⟨v, exec, _, hx, _, rfl⟩ := step_some h
  unfold execStep at hx
  split at hx
  · rename_i hnone
    cases hx
    exact .inl ⟨hnone, rfl⟩
  · rename_i event hevent
    exact .inr ⟨event, hevent, hx⟩

/-- A step changes the row of a run as `CampaignExecution` does. -/
theorem slot_step (h : Reachable (system c) s) (hstep : step c s e = some u) (run : RunId) :
    SlotChange StaysEnded (s.exec.runs run).committed (u.exec.runs run).committed := by
  obtain ⟨_, hsame⟩ | ⟨event, _, hx⟩ := exec_moves hstep
  · rw [hsame]
    exact .kept
  · exact run_row_changes (reachable_runs h) hx run

/-- The step of the runs that creates one belongs to the transaction that launches it. -/
theorem creation_event {input : CreateRunInput} {now : ℕ} (hstep : step c s e = some u)
    (h : execEvent s e = some (.createRun run input now)) :
    ∃ origin, Creates s e run origin ∧ origin.input = input ∧ u.origins = (run, origin) :: s.origins := by
  obtain ⟨v, exec, hv, hx, hready, rfl⟩ := step_some hstep
  unfold execEvent at h
  split at h
  · cases h
    obtain ⟨hno, _⟩ := guarded_eq_some.mp hv
    cases hno
  · rename_i n run' now'
    split at h
    · rename_i request row date hk
      obtain ⟨rfl, rfl, rfl⟩ : run' = run ∧ runInput request row date = input ∧ now' = now := by
        simpa using h
      refine ⟨_, ⟨n, request, row, date, _, rfl, hk, rfl⟩, rfl, ?_⟩
      simp only [moveParties, hk, txNext] at hv
      cases hv
      rfl
    · cases h
  · cases h

/-- Only the holder of a campaign creates a run of it. -/
theorem creates_under_lock {origin : RunOrigin} (h : Creates s e run origin) :
    ∃ m row, (∃ event, e = .tx m event) ∧
      lockOf (s.txs m) = some (origin.input.campaignId, row) := by
  obtain ⟨m, request, row, date, now, rfl, hk, rfl⟩ := h
  exact ⟨m, row, ⟨_, rfl⟩, by rw [hk]; rfl⟩

/-- A run that is there after a step was there before, as it was created, or is created by it. -/
theorem present_step (h : Reachable (system c) s) (hstep : step c s e = some u)
    (hr : (u.exec.runs run).committed = .present r) :
    (∃ old, (s.exec.runs run).committed = .present old ∧ r.input = old.input) ∨
      ∃ origin, Creates s e run origin ∧ r.input = origin.input ∧
        u.origins = (run, origin) :: s.origins := by
  cases hbefore : (s.exec.runs run).committed with
  | unused =>
    obtain ⟨_, hsame⟩ | ⟨event, hevent, hx⟩ := exec_moves hstep
    · rw [hsame, hbefore] at hr
      cases hr
    · obtain hunused | ⟨input, now, rfl, hnew⟩ := unused_step (reachable_runs h) hx hbefore
      · rw [hunused] at hr
        cases hr
      · obtain ⟨origin, hcreates, rfl, horigins⟩ := creation_event hstep hevent
        rw [hnew] at hr
        cases hr
        exact .inr ⟨origin, hcreates, rfl, horigins⟩
  | present old =>
    have hslot := slot_step h hstep run
    rw [hbefore, hr] at hslot
    cases hslot with
    | kept => exact .inl ⟨_, rfl, rfl⟩
    | changed hc => exact .inl ⟨_, rfl, hc.1⟩
  | deleted =>
    have hslot := slot_step h hstep run
    rw [hbefore, hr] at hslot
    cases hslot

/-- The origins are those of the runs in the slots that have been used. -/
structure OriginsAgree (s : State) : Prop where
  known : ∀ run r, (s.exec.runs run).committed = .present r →
    ∃ origin, (run, origin) ∈ s.origins ∧ r.input = origin.input
  used : ∀ p ∈ s.origins, (s.exec.runs p.1).committed ≠ .unused
  nodup : (s.origins.map Prod.fst).Nodup

theorem origins_agree_step (h : Reachable (system c) s) (hI : OriginsAgree s)
    (hstep : step c s e = some u) : OriginsAgree u := by
  have hsub : ∀ p ∈ s.origins, p ∈ u.origins := by
    obtain ⟨v, exec, hv, _, _, rfl⟩ := step_some hstep
    intro p hp
    change p ∈ v.origins
    obtain hsame | ⟨run, origin, _, hnew⟩ := origins_step hv
    · rwa [hsame]
    · rw [hnew]
      exact List.mem_cons_of_mem _ hp
  have hused : ∀ p ∈ s.origins, (u.exec.runs p.1).committed ≠ .unused := by
    intro p hp hunused
    have hslot := slot_step h hstep p.1
    rw [hunused] at hslot
    have hbefore := hI.used p hp
    generalize (s.exec.runs p.1).committed = slot at hslot hbefore
    cases hslot
    exact hbefore rfl
  constructor
  · intro run r hr
    obtain ⟨old, hold, hinput⟩ | ⟨origin, _, hinput, horigins⟩ := present_step h hstep hr
    · obtain ⟨origin, ho, hi⟩ := hI.known run old hold
      exact ⟨origin, hsub _ ho, hinput.trans hi⟩
    · exact ⟨origin, by simp [horigins], hinput⟩
  · intro p hp
    obtain ⟨v, exec, hv, _, _, hu⟩ := step_some hstep
    obtain hsame | ⟨run, origin, hcreates, hnew⟩ := origins_step hv
    · have hp' : p ∈ v.origins := by rwa [hu] at hp
      rw [hsame] at hp'
      exact hused p hp'
    · have hp' : p ∈ v.origins := by rwa [hu] at hp
      rw [hnew] at hp'
      rcases List.mem_cons.mp hp' with rfl | hold
      · obtain ⟨n, request, row, date, now, rfl, hk, _⟩ := hcreates
        obtain ⟨hnone, _⟩ | ⟨event, hevent, hx⟩ := exec_moves hstep
        · simp [execEvent, hk] at hnone
        · simp only [execEvent, hk, Option.some.injEq] at hevent
          subst hevent
          rw [(created_run hx).2]
          simp
      · exact hused p hold
  · obtain ⟨v, exec, hv, _, _, hu⟩ := step_some hstep
    have hvo : u.origins = v.origins := by rw [hu]
    rw [hvo]
    obtain hsame | ⟨run, origin, hcreates, hnew⟩ := origins_step hv
    · rw [hsame]
      exact hI.nodup
    · rw [hnew]
      refine List.nodup_cons.mpr ⟨fun hmem => ?_, hI.nodup⟩
      obtain ⟨p, hp, hrun⟩ := List.mem_map.mp hmem
      obtain ⟨n, request, row, date, now, rfl, hk, _⟩ := hcreates
      obtain ⟨hnone, _⟩ | ⟨event, hevent, hx⟩ := exec_moves hstep
      · simp [execEvent, hk] at hnone
      · simp only [execEvent, hk, Option.some.injEq] at hevent
        subst hevent
        exact hI.used p hp (hrun ▸ (created_run hx).1)

theorem origins_agree (h : Reachable (system c) s) : OriginsAgree s := by
  refine reachable_invariant_with (M := system c) (I := OriginsAgree) (J := Reachable (system c))
    (fun _ => id) ?_ (fun s e hr hI he => origins_agree_step hr hI (ofStep_enabled he)) h
  rintro _ rfl
  exact ⟨fun _ _ hr => (nomatch hr), fun _ hp => (nomatch hp), List.nodup_nil⟩

theorem origin_of_run (h : OriginsAgree s) {origin : RunOrigin}
    (hr : (s.exec.runs run).committed = .present r) (ho : (run, origin) ∈ s.origins) :
    r.input = origin.input := by
  obtain ⟨known, hknown, hinput⟩ := h.known run r hr
  have hpair := List.inj_on_of_nodup_map h.nodup ho hknown rfl
  rw [(Prod.mk.inj hpair).2]
  exact hinput

theorem mem_runs (h : OriginsAgree s) :
    (run, r) ∈ s.runs ↔ (s.exec.runs run).committed = .present r := by
  have hrun : ∀ slot : RunSlot, slot.run = some r ↔ slot = .present r := by
    intro slot
    cases slot <;> simp [RunSlot.run]
  unfold State.runs
  constructor
  · intro hm
    obtain ⟨p, _, hp⟩ := List.mem_filterMap.mp hm
    obtain ⟨r', hr', heq⟩ := Option.map_eq_some_iff.mp hp
    cases heq
    exact (hrun _).mp hr'
  · intro hr
    obtain ⟨origin, ho, _⟩ := h.known run r hr
    exact List.mem_filterMap.mpr ⟨_, ho, by rw [(hrun _).mpr hr]; rfl⟩

end RunOrigins
