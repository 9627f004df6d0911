import WaRuntime.CampaignDeliveries
import WaRuntime.CampaignPreflight

/-! Every target of a run that has passed its preflight, or was cancelled, has its delivery row.
The statuses SCHEDULED and RUNNING are first reached by a transaction that inserts the missing rows
before it writes the run, and so is CANCELLED; the finalization, which writes a run without a look
at its status, writes only runs that were RUNNING before. -/
namespace CampaignRunDeliveries

open TransitionRuns RowVersions CampaignRunStatements CampaignExecution
open CampaignRunTransitions CampaignDeliveries CampaignPreflight
open OutboundMessageExecution (Tx Config)

variable {c : Config} {s u : State} {e : Event} {n : ℕ} {run : RunId} {key : TargetKey}
  {v w : RunSlot} {f : RunSlot → Option RunSlot}

section Statuses

/-- The statuses of the runs whose targets all have a delivery. -/
def populatedStatuses : List CampaignRunStatus :=
  [.scheduled, .running, .paused, .completed, .partialFailed, .cancelled]

def launchedStatuses : List CampaignRunStatus := [.scheduled, .running]

def Populated : RunSlot → Prop
  | .present r => r.status ∈ populatedStatuses
  | _ => False

def Launched : RunSlot → Prop
  | .present r => r.status ∈ launchedStatuses
  | _ => False

/-- A write of a run row that does not bring it among these statuses. -/
def Quiet (old new : CampaignRun) : Prop :=
  (new.status ∈ populatedStatuses → old.status ∈ populatedStatuses) ∧
    (new.status ∈ launchedStatuses → old.status ∈ launchedStatuses)

variable {now token : ℕ} {old new : CampaignRun}

theorem quiet_of_status (h : new.status = old.status) : Quiet old new :=
  ⟨fun hp => h ▸ hp, fun hl => h ▸ hl⟩

theorem launched_populated {status : CampaignRunStatus} (h : status ∈ launchedStatuses) :
    status ∈ populatedStatuses := by
  cases status <;> simp_all [launchedStatuses, populatedStatuses]

theorem quiet_of_unpopulated (h : new.status ∉ populatedStatuses) : Quiet old new :=
  ⟨fun hp => absurd hp h, fun hl => absurd (launched_populated hl) h⟩

theorem claimPreparation_quiet (h : claimPreparation now token old = some new) :
    Quiet old new := by
  unfold claimPreparation at h
  split at h
  · cases h
    exact quiet_of_status rfl
  · cases h

theorem recoverExpiredPreparation_quiet (h : recoverExpiredPreparation now old = some new) :
    Quiet old new := by
  unfold recoverExpiredPreparation at h
  split at h
  · cases h
    refine quiet_of_unpopulated ?_
    by_cases hx : preparationAttempts ≤ old.preparationAttemptCount <;>
      simp [hx, populatedStatuses]
  · cases h

theorem failPreparationAttempt_quiet {error : String}
    (h : failPreparationAttempt now token error old = some new) : Quiet old new := by
  unfold failPreparationAttempt at h
  split at h
  · cases h
    refine quiet_of_unpopulated ?_
    by_cases hx : preparationAttempts ≤ old.preparationAttemptCount <;>
      simp [hx, populatedStatuses]
  · cases h

theorem releaseStaleAttempt_quiet (h : releaseStaleAttempt now token old = some new) :
    Quiet old new := by
  unfold releaseStaleAttempt at h
  split at h
  · cases h
    exact quiet_of_status rfl
  · cases h

theorem applyBlocked_quiet (now : ℕ) (old : CampaignRun) : Quiet old (applyBlocked now old) :=
  quiet_of_unpopulated (by simp [applyBlocked, populatedStatuses])

theorem activateDue_quiet (h : activateDue now old = some new) : Quiet old new := by
  unfold activateDue at h
  split at h
  · rename_i hdue
    cases h
    simp [Quiet, hdue.1, populatedStatuses, launchedStatuses]
  · cases h

theorem pause_quiet (h : pause now old = some new) : Quiet old new := by
  unfold pause at h
  split at h
  · rename_i hrunning
    cases h
    exact ⟨fun _ => launched_populated hrunning, by simp [launchedStatuses]⟩
  · cases h

theorem pauseUnsendable_quiet (h : pauseUnsendable now old = some new) : Quiet old new := by
  unfold pauseUnsendable at h
  split at h
  · rename_i hrunning
    cases h
    simp [Quiet, hrunning, populatedStatuses, launchedStatuses]
  · cases h

theorem recordBlockedResume_quiet (h : recordBlockedResume now old = some new) :
    Quiet old new := by
  unfold recordBlockedResume at h
  split at h
  · cases h
    exact quiet_of_unpopulated (by simp [populatedStatuses])
  · cases h

/-- How a statement may bring a run among the statuses. -/
inductive RunStep (s : State) (e : Event) (run : RunId) (v w : RunSlot) : Prop where
  | quiet : (Populated w → Populated v) → (Launched w → Launched v) → RunStep s e run v w
  | applied {n now date : ℕ} {fence : Fence} {ev : Evaluation} :
      e = .tx n (.writeRun now date) → s.txs n = .inserted fence ev → run = ev.run →
      RunStep s e run v w
  | cancelled {n now : ℕ} :
      e = .tx n (.writeCancelled now) → s.txs n = .cancellingDeliveries run [] → ¬ Launched w →
      RunStep s e run v w
  | finalized {n now : ℕ} {found : RunId × Bool} {rest : List (RunId × Bool)} :
      e = .tx n (.finalizeRow now) → s.txs n = .finalizing (found :: rest) → run = found.1 →
      ¬ Launched w → RunStep s e run v w

theorem quiet_run_step {g : CampaignRun → Option CampaignRun}
    (hg : ∀ old new, g old = some new → Quiet old new) (hf : onRun g v = some w) :
    RunStep s e run v w := by
  cases v with
  | present old =>
    obtain ⟨new, hnew, rfl⟩ := Option.map_eq_some_iff.mp hf
    exact .quiet (hg old new hnew).1 (hg old new hnew).2
  | unused => cases hf
  | deleted => cases hf

theorem locked_quiet (old new : CampaignRun) (h : some old = some new) : Quiet old new := by
  cases h
  exact quiet_of_status rfl

theorem not_launched {g : CampaignRun → CampaignRun} (hg : ∀ r, (g r).status ∉ launchedStatuses)
    (hf : onRun (fun r => some (g r)) v = some w) : ¬ Launched w := by
  cases v with
  | present old =>
    cases hf
    exact hg old
  | unused => cases hf
  | deleted => cases hf

theorem tx_run_step {event : TxEvent} (hs : (txRunEffect s n (s.txs n) event).statement run = some f)
    (hf : f v = some w) : RunStep s (.tx n event) run v w := by
  generalize hstage : s.txs n = k at hs
  unfold txRunEffect at hs
  split at hs
  case h_1 =>
    split at hs
    · simp only [Effect.statement, Option.ite_none_right_eq_some, Option.some.injEq] at hs
      obtain ⟨_, rfl⟩ := hs
      exact quiet_run_step locked_quiet hf
    · cases hs
  all_goals
    simp only [Effect.statement, Option.ite_none_right_eq_some, Option.some.injEq,
      reduceCtorEq] at hs
  all_goals obtain ⟨rfl, rfl⟩ := hs
  case h_2 | h_7 | h_9 => exact quiet_run_step locked_quiet hf
  case h_3 => exact quiet_run_step (fun _ _ => releaseStaleAttempt_quiet) hf
  case h_4 token ev now =>
    refine quiet_run_step (fun old new h => ?_) hf
    cases h
    exact applyBlocked_quiet now old
  case h_5 | h_6 => exact .applied rfl hstage rfl
  case h_8 =>
    refine .cancelled rfl hstage (not_launched (fun r => ?_) hf)
    simp [CampaignRunStatements.cancel, launchedStatuses]
  case h_10 => exact quiet_run_step (fun _ _ => pauseUnsendable_quiet) hf
  case h_11 run hasFailure rest now =>
    refine .finalized rfl hstage rfl (not_launched (fun r => ?_) hf)
    cases hasFailure <;> simp [finalize, finalOutcome, launchedStatuses]

theorem run_step (hs : (runEffect s e).statement run = some f) (hf : f v = some w) :
    RunStep s e run v w := by
  cases e <;> simp only [runEffect] at hs
  case tx n event => exact tx_run_step hs hf
  case createRun id input now =>
    simp only [Effect.statement, Option.ite_none_right_eq_some, Option.some.injEq] at hs
    obtain ⟨_, rfl⟩ := hs
    cases v with
    | unused =>
      cases hf
      have hstatus : (createRun now input).status = .preparing := rfl
      refine .quiet (fun hp => ?_) fun hl => ?_
      · simp [Populated, hstatus, populatedStatuses] at hp
      · simp [Launched, hstatus, launchedStatuses] at hl
    | present r => cases hf
    | deleted => cases hf
  case deleteRun id cutoff =>
    simp only [Effect.statement, Option.ite_none_right_eq_some, Option.some.injEq] at hs
    obtain ⟨_, rfl⟩ := hs
    have hw : w = .deleted := by
      unfold deleteRunSlot at hf
      split at hf
      · split at hf
        · exact (Option.some.inj hf).symm
        · cases hf
      · cases hf
    subst hw
    exact .quiet (fun hp => hp.elim) fun hl => hl.elim
  all_goals
    simp only [Effect.statement, Option.ite_none_right_eq_some, Option.some.injEq,
      reduceCtorEq] at hs
  all_goals obtain ⟨_, rfl⟩ := hs
  case claimPreparation => exact quiet_run_step (fun _ _ => claimPreparation_quiet) hf
  case recoverExpiredPreparation =>
    exact quiet_run_step (fun _ _ => recoverExpiredPreparation_quiet) hf
  case failPreparationAttempt => exact quiet_run_step (fun _ _ => failPreparationAttempt_quiet) hf
  case activateDue => exact quiet_run_step (fun _ _ => activateDue_quiet) hf
  case pause => exact quiet_run_step (fun _ _ => pause_quiet) hf
  case recordBlockedResume => exact quiet_run_step (fun _ _ => recordBlockedResume_quiet) hf

end Statuses

section Rows

variable {d d' : Option CampaignDelivery}
  {g : Option CampaignDelivery → Option (Option CampaignDelivery)}

/-- A statement leaves a delivery where it writes, unless it deletes those of a deleted run. -/
theorem statement_leaves_delivery (hs : DeliveryStatement s e key g) (hg : g d = some d') :
    d' ≠ none ∨ ∃ run cutoff, e = .deleteRun run cutoff ∧ key ∈ cascade s run cutoff := by
  cases hs with
  | cascade hk => exact .inr ⟨_, _, rfl, hk⟩
  | insertForRun | insertForCancel =>
    obtain ⟨_, rfl⟩ := insertDelivery_some hg
    exact .inl (by simp)
  | cancel =>
    obtain ⟨_, _, _, rfl, _⟩ := cancelDelivery_some hg
    exact .inl (by simp)
  | select =>
    obtain ⟨rfl, hne⟩ := lockDelivery_some hg
    exact .inl hne
  | materialize =>
    obtain ⟨_, _, _, rfl, _⟩ := materializeDelivery_some hg
    exact .inl (by simp)
  | reconcile =>
    obtain ⟨_, _, _, _, _, rfl, _⟩ := reconcile_some hg
    exact .inl (by simp)

theorem held_deliveries_present (h : Reachable (system c) s) :
    ∀ key t d, (s.deliveries key).held = some (t, d) → d ≠ none := by
  refine reachable_invariant (M := system c)
    (I := fun s => ∀ key t d, (s.deliveries key).held = some (t, d) → d ≠ none) ?_ ?_ h
  · rintro _ rfl key t d hd
    cases hd
  · intro s e hI he key t d hd
    obtain ⟨m, core, _, _, ⟨_, _, hr⟩, hu⟩ := step_some (ofStep_enabled he)
    rw [show (system c).next s e = _ from hu] at hd
    change ((deliveryEffect s e).apply s.deliveries key).held = some (t, d) at hd
    have hrow := Effect.row_moves hr key
    generalize (deliveryEffect s e).apply s.deliveries key = row at hrow hd
    cases hrow with
    | same => exact hI key t d hd
    | own => cases hd
    | inside hs ho _ hw =>
      simp only [Row.write_held, Option.some.injEq, Prod.mk.injEq] at hd
      obtain ⟨_, rfl⟩ := hd
      rcases statement_leaves_delivery (delivery_statement hs) hw with hne | ⟨run, cutoff, rfl, _⟩
      · exact hne
      · cases ho
    | commit => cases hd
    | abort => cases hd

/-- The deliveries that go with a run go in the step that deletes it. -/
theorem cascade_deletes {cutoff : ℕ} (h : step c s (.deleteRun run cutoff) = some u)
    (hk : key ∈ cascade s run cutoff) :
    key.1 = run ∧ (u.runs run).committed = .deleted := by
  obtain ⟨m, core, _, _, ⟨hr, _, _⟩, rfl⟩ := step_some h
  unfold cascade at hk
  split at hk
  · rename_i r hrun
    split at hk
    · rename_i hdeletable
      obtain ⟨g, _, rfl⟩ := List.mem_map.mp hk
      refine ⟨rfl, ?_⟩
      change ((runEffect s (.deleteRun run cutoff)).apply s.runs run).committed = .deleted
      simp [runEffect, Effect.apply, Row.update, hrun, deleteRunSlot, hdeletable]
    · cases hk
  · cases hk

theorem committed_delivery_stays (key : TargetKey) (hr : Reachable (system c) s)
    (h : step c s e = some u)
    (hrun : (u.runs key.1).committed ≠ .deleted) (hd : (s.deliveries key).committed ≠ none) :
    (u.deliveries key).committed ≠ none := by
  have hdeleted : ∀ run cutoff, e = .deleteRun run cutoff → key ∉ cascade s run cutoff := by
    rintro run cutoff rfl hk
    obtain ⟨rfl, hgone⟩ := cascade_deletes h hk
    exact hrun hgone
  obtain ⟨m, core, _, _, ⟨_, _, hready⟩, rfl⟩ := step_some h
  change ((deliveryEffect s e).apply s.deliveries key).committed ≠ none
  have hrow := Effect.row_moves hready key
  generalize (deliveryEffect s e).apply s.deliveries key = row at hrow ⊢
  cases hrow with
  | same => exact hd
  | own hs _ _ hw =>
    rcases statement_leaves_delivery (delivery_statement hs) hw with hne | ⟨run, cutoff, he, hk⟩
    · exact hne
    · exact absurd hk (hdeleted run cutoff he)
  | inside => exact hd
  | commit _ hh => exact held_deliveries_present hr key _ _ hh
  | abort => exact hd

theorem delivery_abort {t : Tx} (h : deliveryEffect s e = .abort t) :
    ∃ n, e = .tx n .abort ∧ t = .campaign n := by
  have howner : (deliveryEffect s e).owner = some t := by rw [h]; rfl
  obtain ⟨n, event, rfl, rfl⟩ := delivery_effect_owner howner
  refine ⟨n, ?_, rfl⟩
  simp only [deliveryEffect] at h
  split at h <;> first | rfl | cases h

/-- A delivery that a transaction sees is there until the transaction gives up. -/
theorem seen_delivery_stays (key : TargetKey) (hr : Reachable (system c) s)
    (h : step c s e = some u)
    (hrun : (u.runs key.1).committed ≠ .deleted) (habort : e ≠ .tx n .abort)
    (hd : s.delivery n key ≠ none) : u.delivery n key ≠ none := by
  have hdeleted : ∀ run cutoff, e = .deleteRun run cutoff → key ∉ cascade s run cutoff := by
    rintro run cutoff rfl hk
    obtain ⟨rfl, hgone⟩ := cascade_deletes h hk
    exact hrun hgone
  obtain ⟨m, core, _, _, ⟨_, _, hready⟩, rfl⟩ := step_some h
  change ((deliveryEffect s e).apply s.deliveries key).view (.campaign n) ≠ none
  change (s.deliveries key).view (.campaign n) ≠ none at hd
  have hrow := Effect.row_moves hready key
  have hpresent := held_deliveries_present hr key
  generalize (deliveryEffect s e).apply s.deliveries key = row at hrow ⊢
  cases hrow with
  | same => exact hd
  | own hs _ _ hw =>
    rcases statement_leaves_delivery (delivery_statement hs) hw with hne | ⟨run, cutoff, he, hk⟩
    · exact hne
    · exact absurd hk (hdeleted run cutoff he)
  | @inside t g w hs _ hfree hw =>
    by_cases ht : t = .campaign n
    · subst ht
      rw [Row.view_write]
      rcases statement_leaves_delivery (delivery_statement hs) hw with hne | ⟨run, cutoff, he, hk⟩
      · exact hne
      · exact absurd hk (hdeleted run cutoff he)
    · have hheld : ((s.deliveries key).write t w).held = some (t, w) := rfl
      rw [Row.view_of_not_held (Row.not_held_of_held hheld ht)]
      rwa [Row.view_of_not_held (Row.not_held_of_free_for hfree ht)] at hd
  | commit _ hh => exact hpresent _ _ hh
  | abort he hh =>
    obtain ⟨m, rfl, rfl⟩ := delivery_abort he
    have hne : Tx.campaign m ≠ .campaign n := by
      intro hsame
      cases hsame
      exact habort rfl
    rwa [Row.view_of_not_held (Row.not_held_of_held hh hne)] at hd

end Rows

section Populations

/-- The run whose row a transaction has written, with a status that its deliveries must meet. -/
def writing : CampaignTx → Option RunId
  | .applied _ ev => some ev.run
  | .cancelWritten run => some run
  | _ => none

/-- The run for which a transaction has inserted the deliveries that were missing. -/
def delivered : CampaignTx → Option RunId
  | .inserted _ ev | .applied _ ev => some ev.run
  | .cancelInserted run | .cancellingJobs run _ | .cancellingDeliveries run _
  | .cancelWritten run => some run
  | _ => none

/-- The run for which the next INSERT of a transaction is. -/
def inserting : CampaignTx → Option RunId
  | .copied _ ev => some ev.run
  | .cancelLocked run => some run
  | _ => none

theorem writing_delivered {k : CampaignTx} (h : writing k = some run) : delivered k = some run := by
  cases k <;> cases h <;> rfl

theorem delivered_lock {k : CampaignTx} (h : delivered k = some run) :
    ∃ statuses, k.lock = some (run, statuses) := by
  cases k <;> cases h <;> exact ⟨_, rfl⟩

/-- A transaction that has written its run only commits or aborts. -/
theorem writing_ends {k k' : CampaignTx} {event : TxEvent} (h : txNext s n k event = some k')
    (hk : writing k = some run) : event = .commit ∨ event = .abort := by
  cases k <;> cases hk <;> cases event <;> simp [txNext] at h ⊢

/-- What a transaction has made of a run row is so already, unless it is at its last write. -/
def HeldAccounted (P : RunSlot → Prop) (s : State) : Prop :=
  ∀ run n v, (s.runs run).held = some (.campaign n, v) → P v →
    P (s.runs run).committed ∨ writing (s.txs n) = some run

/-- A property that no quiet statement brings about. -/
def Guarded (P : RunSlot → Prop) : Prop :=
  ∀ v w, (Populated w → Populated v) → (Launched w → Launched v) → P w → P v

theorem populated_guarded : Guarded Populated := fun _ _ hback _ => hback

theorem launched_guarded : Guarded Launched := fun _ _ _ hback => hback

theorem held_accounted_step {P : RunSlot → Prop} (hP : Guarded P) (hI : HeldAccounted P s)
    (h : step c s e = some u) : HeldAccounted P u := by
  obtain ⟨m, core, hm, _, ⟨hready, _, _⟩, rfl⟩ := step_some h
  intro run n v hv hp
  change ((runEffect s e).apply s.runs run).held = _ at hv
  change P ((runEffect s e).apply s.runs run).committed ∨ writing (m.txs n) = some run
  have hkeep : writing (s.txs n) = some run → (∀ event, e = .tx n event →
      event ≠ .commit ∧ event ≠ .abort) → writing (m.txs n) = some run := by
    intro hw hgo
    by_cases he : ∃ event, e = .tx n event
    · obtain ⟨event, rfl⟩ := he
      obtain ⟨hcommit, habort⟩ := hgo event rfl
      rcases writing_ends (tx_moves hm) hw with rfl | rfl
      · exact absurd rfl hcommit
      · exact absurd rfl habort
    · rw [other_tx_unchanged hm fun event hev => he ⟨event, hev⟩]
      exact hw
  have hrow := Effect.row_moves hready run
  generalize (runEffect s e).apply s.runs run = row at hrow hv ⊢
  cases hrow with
  | same hend =>
    rcases hI run n v hv hp with hbefore | hw
    · exact .inl hbefore
    · refine .inr (hkeep hw fun event he => ?_)
      subst he
      constructor
      · rintro rfl
        exact hend _ (.inl (by simp [runEffect, txRunEffect])) v hv
      · rintro rfl
        exact hend _ (.inr (by simp [runEffect, txRunEffect])) v hv
  | own => cases hv
  | inside hs ho _ hw =>
    simp only [Row.write_held, Option.some.injEq, Prod.mk.injEq] at hv
    obtain ⟨rfl, rfl⟩ := hv
    obtain ⟨_, event, rfl, hn⟩ := run_effect_owner ho
    cases hn
    have hk := tx_moves hm
    cases run_step hs hw with
    | quiet hpopulated hlaunched =>
      have hview := hP _ _ hpopulated hlaunched hp
      unfold Row.view at hview
      split at hview
      · exact .inl hview
      · rename_i t old hold
        split at hview
        · rename_i ht
          rw [ht] at hold
          rcases hI run n old hold hview with hbefore | hwriting
          · exact .inl hbefore
          · refine .inr (hkeep hwriting fun event he => ?_)
            cases he
            constructor
            · rintro rfl
              simp [runEffect, txRunEffect, Effect.statement] at hs
            · rintro rfl
              simp [runEffect, txRunEffect, Effect.statement] at hs
        · exact .inl hview
    | applied he hstage hrun =>
      cases he
      rw [hstage] at hk
      obtain ⟨_, hk⟩ := guarded_eq_some.mp hk
      right
      rw [← hk, hrun]
      rfl
    | cancelled he hstage _ =>
      cases he
      rw [hstage] at hk
      obtain ⟨_, hk⟩ := guarded_eq_some.mp hk
      right
      rw [← hk]
      rfl
    | finalized he hstage _ _ =>
      cases he
      simp [runEffect, hstage, txRunEffect, Effect.owner] at ho
  | commit => cases hv
  | abort => cases hv

theorem held_accounted {P : RunSlot → Prop} (hP : Guarded P) (h : Reachable (system c) s) :
    HeldAccounted P s := by
  refine reachable_invariant (M := system c) ?_ (fun s e hI he => ?_) h
  · rintro _ rfl run n v hv
    cases hv
  · exact held_accounted_step hP hI (ofStep_enabled he)

theorem delivered_origin {k k' : CampaignTx} {event : TxEvent} (h : txNext s n k event = some k')
    (hk : delivered k' = some run) :
    (delivered k = some run ∧ event ≠ .abort) ∨
      ∃ now, event = .insertDeliveries now ∧ inserting k = some run := by
  unfold txNext at h
  split at h
  case h_2 =>
    split at h
    · split at h <;> obtain ⟨_, rfl⟩ := guarded_eq_some.mp h <;> cases hk
    · obtain ⟨_, rfl⟩ := guarded_eq_some.mp h
      cases hk
  case h_3 =>
    split at h
    · cases h
    · obtain rfl | ⟨r, _, _, _, rfl⟩ := lockedOn_some h <;> cases hk
  case h_4 =>
    split at h <;> cases h <;> cases hk
  case h_10 | h_17 => obtain rfl | ⟨r, _, _, _, rfl⟩ := lockedOn_some h <;> cases hk
  case h_8 | h_11 =>
    obtain ⟨_, rfl⟩ := guarded_eq_some.mp h
    cases hk
    exact .inr ⟨_, rfl, rfl⟩
  all_goals simp only [guarded_eq_some, Option.some.injEq, reduceCtorEq] at h
  all_goals
    first
    | subst h
    | obtain ⟨_, rfl⟩ := h
  all_goals cases hk
  all_goals exact .inl ⟨rfl, by simp⟩

/-- Every target of the run has its delivery, or the run is gone with all of them. -/
def Filled (s : State) (run : RunId) : Prop :=
  match (s.runs run).committed with
  | .present r => ∀ g ∈ r.targets, (s.deliveries (run, g)).committed ≠ none
  | .deleted => True
  | .unused => False

theorem filled_step (hr : Reachable (system c) s) (h : step c s e = some u)
    (hfilled : Filled s run) : Filled u run := by
  have hrun := run_row_changes hr h run
  have hstays : ∀ g, (u.runs run).committed ≠ .deleted →
      (s.deliveries (run, g)).committed ≠ none → (u.deliveries (run, g)).committed ≠ none :=
    fun g => committed_delivery_stays (run, g) hr h
  unfold Filled at hfilled ⊢
  generalize (s.runs run).committed = before at hrun hfilled
  generalize (u.runs run).committed = after at hrun hstays ⊢
  cases hrun with
  | kept =>
    cases before with
    | present r => exact fun g hg => hstays g (by simp) (hfilled g hg)
    | deleted => trivial
    | unused => exact hfilled
  | created => exact hfilled.elim
  | @changed old new hchange =>
    have htargets : new.targets = old.targets := congrArg CreateRunInput.targets hchange.1
    intro g hg
    exact hstays g (by simp) (hfilled g (htargets ▸ hg))
  | deleted => trivial

/-- The runs whose deliveries are all there: those among the statuses, those about to be finalized,
and, for its transaction, the run that is about to be brought among the statuses. -/
structure Populations (s : State) : Prop where
  filled : ∀ run, Populated (s.runs run).committed → Filled s run
  finalizing : ∀ n found, s.txs n = .finalizing found → ∀ p ∈ found, Filled s p.1
  seen : ∀ n run r g, delivered (s.txs n) = some run → (s.runs run).committed = .present r →
    g ∈ r.targets → s.delivery n (run, g) ≠ none

theorem run_commit {t : Tx} (h : runEffect s e = .commit t) :
    ∃ n, e = .tx n .commit ∧ t = .campaign n := by
  have howner : (runEffect s e).owner = some t := by rw [h]; rfl
  obtain ⟨n, event, rfl, rfl⟩ := run_effect_owner howner
  refine ⟨n, ?_, rfl⟩
  simp only [runEffect] at h
  generalize s.txs n = k at h
  unfold txRunEffect at h
  split at h
  case h_1 =>
    split at h <;> cases h
  all_goals first | rfl | cases h

/-- The transaction that commits a run row has locked it. -/
theorem filled_by_commit (hr : Reachable (system c) s) (hI : Populations s)
    (h : step c s (.tx n .commit) = some u) (hw : writing (s.txs n) = some run) : Filled u run := by
  obtain ⟨statuses, hlock⟩ := delivered_lock (writing_delivered hw)
  obtain ⟨r, _, hc, _⟩ := runs_locked hr n run statuses hlock
  have hrun := run_row_changes hr h run
  have hseen := hI.seen n run r
  obtain ⟨m, core, _, _, _, rfl⟩ := step_some h
  have hcommitted : ∀ g, ((deliveryEffect s (.tx n .commit)).apply s.deliveries (run, g)).committed =
      s.delivery n (run, g) := by
    intro g
    rw [deliveryEffect_commit]
    exact Row.commit_committed
  have hall : ∀ g ∈ r.targets,
      ((deliveryEffect s (.tx n .commit)).apply s.deliveries (run, g)).committed ≠ none := by
    intro g hg
    rw [hcommitted]
    exact hseen g (writing_delivered hw) hc hg
  rw [hc] at hrun
  unfold Filled
  change SlotChange _ _ ((runEffect s (.tx n .commit)).apply s.runs run).committed at hrun
  change match ((runEffect s (.tx n .commit)).apply s.runs run).committed with
    | .present r => ∀ g ∈ r.targets,
      ((deliveryEffect s (.tx n .commit)).apply s.deliveries (run, g)).committed ≠ none
    | .deleted => True
    | .unused => False
  generalize ((runEffect s (.tx n .commit)).apply s.runs run).committed = after at hrun ⊢
  cases hrun with
  | kept => exact hall
  | @changed _ new hchange =>
    have htargets : new.targets = r.targets := congrArg CreateRunInput.targets hchange.1
    intro g hg
    exact hall g (htargets ▸ hg)
  | deleted => trivial

theorem populations_filled (hr : Reachable (system c) s) (hI : Populations s)
    (h : step c s e = some u) (hp : Populated (u.runs run).committed) : Filled u run := by
  have hkept : Populated (s.runs run).committed → Filled u run :=
    fun hp => filled_step hr h (hI.filled run hp)
  obtain ⟨m, core, hm, _, ⟨hready, _, _⟩, hu⟩ := step_some h
  have hruns : (u.runs run) = (runEffect s e).apply s.runs run := by rw [hu]
  rw [hruns] at hp
  have hrow := Effect.row_moves hready run
  generalize (runEffect s e).apply s.runs run = row at hrow hp
  cases hrow with
  | same => exact hkept hp
  | own hs ho _ hw =>
    cases run_step hs hw with
    | quiet hback _ => exact hkept (hback hp)
    | @applied _ _ _ fence _ he hstage _ =>
      rw [he] at ho
      cases fence <;> simp [runEffect, hstage, txRunEffect, Effect.owner] at ho
    | cancelled he hstage _ =>
      rw [he] at ho
      simp [runEffect, hstage, txRunEffect, Effect.owner] at ho
    | finalized he hstage hrun _ =>
      rw [hrun]
      exact filled_step hr h (hI.finalizing _ _ hstage _ List.mem_cons_self)
  | inside => exact hkept hp
  | commit he hh =>
    obtain ⟨n, rfl, rfl⟩ := run_commit he
    rcases held_accounted populated_guarded hr run n _ hh hp with hbefore | hw
    · exact hkept hbefore
    · exact filled_by_commit hr hI h hw
  | abort => exact hkept hp

/-- The INSERT gives every target of the run its delivery. -/
theorem inserted_seen (hr : Reachable (system c) s) {now : ℕ} {r : CampaignRun} {g : GroupId}
    (hins : inserting (s.txs n) = some run)
    (h : step c s (.tx n (.insertDeliveries now)) = some u)
    (hrun : (s.runs run).committed = .present r) (hg : g ∈ r.targets) :
    u.delivery n (run, g) ≠ none := by
  obtain ⟨statuses, hlock, hkeep⟩ : ∃ statuses, (s.txs n).lock = some (run, statuses) ∧
      ∀ r v, Keeps (s.txs n) r v → v = .present r := by
    generalize s.txs n = k at hins
    cases k <;> cases hins <;> exact ⟨_, rfl, fun r v hv => hv⟩
  obtain ⟨r', hc, _, hview⟩ := locked_run_view (runs_locked hr n run statuses hlock) hkeep
  rw [hrun] at hc
  cases hc
  have hkey : (run, g) ∈ s.targetKeys n run := by
    simp only [State.targetKeys, hview]
    exact List.mem_map.mpr ⟨g, hg, rfl⟩
  have heffect : deliveryEffect s (.tx n (.insertDeliveries now)) =
      .updateAllIn (.campaign n) (fun _ => insertDelivery now) (s.targetKeys n run) := by
    generalize hk : s.txs n = k at hins
    cases k <;> cases hins <;> simp [deliveryEffect, hk]
  obtain ⟨m, core, _, _, _, rfl⟩ := step_some h
  change ((deliveryEffect s (.tx n (.insertDeliveries now))).apply s.deliveries (run, g)).view
    (.campaign n) ≠ none
  rw [heffect]
  simp only [Effect.apply, Table.updateAllIn, if_pos hkey, Row.updateIn]
  cases hd : (s.deliveries (run, g)).view (.campaign n) with
  | none =>
    simp only [insertDelivery]
    rw [Row.view_write]
    simp
  | some d =>
    simp only [insertDelivery]
    rw [hd]
    simp

theorem populations_seen (hr : Reachable (system c) s) (hI : Populations s)
    (h : step c s e = some u) {r : CampaignRun} {g : GroupId}
    (hd : delivered (u.txs n) = some run) (hrun : (u.runs run).committed = .present r)
    (hg : g ∈ r.targets) : u.delivery n (run, g) ≠ none := by
  have hchange := run_row_changes hr h run
  have hstays : e ≠ .tx n .abort → s.delivery n (run, g) ≠ none →
      u.delivery n (run, g) ≠ none :=
    seen_delivery_stays (run, g) hr h (by simp [hrun])
  -- a run that is locked now has the targets that it had
  have hold : ∀ statuses, (s.txs n).lock = some (run, statuses) →
      ∃ old, (s.runs run).committed = .present old ∧ g ∈ old.targets := by
    intro statuses hlock
    obtain ⟨old, _, hc, _⟩ := runs_locked hr n run statuses hlock
    refine ⟨old, hc, ?_⟩
    rw [hc, hrun] at hchange
    cases hchange with
    | kept => exact hg
    | changed hsame =>
      have htargets : r.targets = old.targets := congrArg CreateRunInput.targets hsame.1
      exact htargets ▸ hg
  obtain ⟨m, core, hm, _, _, hu⟩ := step_some h
  have htxs : u.txs n = m.txs n := by rw [hu]
  rw [htxs] at hd
  by_cases he : ∃ event, e = .tx n event
  · obtain ⟨event, rfl⟩ := he
    rcases delivered_origin (tx_moves hm) hd with ⟨hbefore, habort⟩ | ⟨now, rfl, hins⟩
    · obtain ⟨statuses, hlock⟩ := delivered_lock hbefore
      obtain ⟨old, hc, hg'⟩ := hold statuses hlock
      exact hstays (by simpa using habort) (hI.seen n run old g hbefore hc hg')
    · have hlock : ∃ statuses, (s.txs n).lock = some (run, statuses) := by
        generalize s.txs n = k at hins
        cases k <;> cases hins <;> exact ⟨_, rfl⟩
      obtain ⟨statuses, hlock⟩ := hlock
      obtain ⟨old, hc, hg'⟩ := hold statuses hlock
      exact inserted_seen hr hins h hc hg'
  · rw [other_tx_unchanged hm fun event hev => he ⟨event, hev⟩] at hd
    obtain ⟨statuses, hlock⟩ := delivered_lock hd
    obtain ⟨old, hc, hg'⟩ := hold statuses hlock
    exact hstays (fun hev => he ⟨_, hev⟩) (hI.seen n run old g hd hc hg')

theorem finalizing_origin {k : CampaignTx} {event : TxEvent} {found : List (RunId × Bool)}
    (h : txNext s n k event = some (.finalizing found)) :
    (∃ p, k = .finalizing (p :: found)) ∨ ∀ p ∈ found, finalizable s p.1 = some p.2 := by
  unfold txNext at h
  split at h
  case h_2 =>
    split at h
    · split at h <;> simp at h
    · simp at h
  case h_3 =>
    split at h
    · cases h
    · obtain h | ⟨r, _, _, _, h⟩ := lockedOn_some h <;> cases h
  case h_4 =>
    split at h <;> cases h
  case h_10 | h_17 => obtain h | ⟨r, _, _, _, h⟩ := lockedOn_some h <;> cases h
  case h_22 =>
    obtain ⟨_, h⟩ := guarded_eq_some.mp h
    cases h
    right
    intro p hp
    obtain ⟨run, _, hsome⟩ := List.mem_filterMap.mp hp
    obtain ⟨failed, hfinalizable, rfl⟩ := Option.map_eq_some_iff.mp hsome
    exact hfinalizable
  case h_23 =>
    obtain ⟨_, h⟩ := guarded_eq_some.mp h
    cases h
    exact .inl ⟨_, rfl⟩
  all_goals simp at h

theorem finalizable_populated (h : (finalizable s run).isSome) :
    Populated (s.runs run).committed := by
  unfold finalizable at h
  split at h
  · rename_i r hr
    simp only at h
    split at h
    · rename_i hrunning
      simp [Populated, hr, hrunning.1, populatedStatuses]
    · cases h
  · cases h

theorem populations_finalizing (hr : Reachable (system c) s) (hI : Populations s)
    (h : step c s e = some u) {found : List (RunId × Bool)} (hf : u.txs n = .finalizing found)
    {p : RunId × Bool} (hp : p ∈ found) : Filled u p.1 := by
  refine filled_step hr h ?_
  obtain ⟨m, core, hm, _, _, rfl⟩ := step_some h
  change m.txs n = _ at hf
  by_cases he : ∃ event, e = .tx n event
  · obtain ⟨event, rfl⟩ := he
    have hk := tx_moves hm
    rw [hf] at hk
    rcases finalizing_origin hk with ⟨q, hbefore⟩ | hall
    · exact hI.finalizing n _ hbefore p (List.mem_cons_of_mem _ hp)
    · exact hI.filled p.1 (finalizable_populated (by rw [hall p hp]; rfl))
  · rw [other_tx_unchanged hm fun event hev => he ⟨event, hev⟩] at hf
    exact hI.finalizing n found hf p hp

theorem populations (h : Reachable (system c) s) : Populations s := by
  refine reachable_invariant_with (M := system c) (I := Populations) (J := Reachable (system c))
    (fun _ => id) ?_ (fun s e hr hI he => ?_) h
  · rintro _ rfl
    constructor
    · intro run hp
      exact hp.elim
    · intro n found hf
      cases hf
    · intro n run r g hd
      cases hd
  · have hstep := ofStep_enabled he
    exact ⟨fun run => populations_filled hr hI hstep,
      fun n found hf p hp => populations_finalizing hr hI hstep hf hp,
      fun n run r g hd hrun hg => populations_seen hr hI hstep hd hrun hg⟩

end Populations

section Launches

/-- The run has a target, or is gone. -/
def Targeted : RunSlot → Prop
  | .present r => r.targets ≠ []
  | .deleted => True
  | .unused => False

theorem targeted_kept (h : SlotChange StaysEnded v w) (ht : Targeted v) : Targeted w := by
  cases h with
  | kept => exact ht
  | created => exact ht.elim
  | @changed old new hchange =>
    have htargets : new.targets = old.targets := congrArg CreateRunInput.targets hchange.1
    simpa only [Targeted, htargets] using ht
  | deleted => trivial

/-- The preflight that a transaction goes by. -/
def evaluation : CampaignTx → Option Evaluation
  | .evaluated ev | .locked _ ev | .stale _ ev | .checked _ ev | .copied _ ev | .inserted _ ev
  | .applied _ ev => some ev
  | _ => none

/-- A preflight that the transaction has found not to block. -/
def passed : CampaignTx → Option Evaluation
  | .copied _ ev | .inserted _ ev | .applied _ ev => some ev
  | _ => none

theorem evaluation_origin {k k' : CampaignTx} {event : TxEvent} {ev : Evaluation}
    (h : txNext s n k event = some k') (hk : evaluation k' = some ev) :
    evaluation k = some ev ∨ event = .evaluate ev.run ev.preflight := by
  unfold txNext at h
  split at h
  case h_1 =>
    obtain ⟨_, rfl⟩ := guarded_eq_some.mp h
    cases hk
    exact .inr rfl
  case h_2 =>
    split at h
    · split at h <;> obtain ⟨_, rfl⟩ := guarded_eq_some.mp h <;> cases hk
      exact .inl rfl
    · obtain ⟨_, rfl⟩ := guarded_eq_some.mp h
      cases hk
  case h_3 =>
    split at h
    · cases h
    · obtain rfl | ⟨r, _, _, _, rfl⟩ := lockedOn_some h <;> cases hk
      exact .inl rfl
  case h_4 =>
    split at h <;> cases h <;> cases hk <;> exact .inl rfl
  case h_10 | h_17 => obtain rfl | ⟨r, _, _, _, rfl⟩ := lockedOn_some h <;> cases hk
  all_goals simp only [guarded_eq_some, Option.some.injEq, reduceCtorEq] at h
  all_goals
    first
    | subst h
    | obtain ⟨_, rfl⟩ := h
  all_goals cases hk
  all_goals exact .inl rfl

theorem passed_origin {k k' : CampaignTx} {event : TxEvent} {ev : Evaluation}
    (h : txNext s n k event = some k') (hk : passed k' = some ev) :
    passed k = some ev ∨ ev.preflight ≠ .block := by
  unfold txNext at h
  split at h
  case h_2 =>
    split at h
    · split at h <;> obtain ⟨_, rfl⟩ := guarded_eq_some.mp h <;> cases hk
    · obtain ⟨_, rfl⟩ := guarded_eq_some.mp h
      cases hk
  case h_3 =>
    split at h
    · cases h
    · obtain rfl | ⟨r, _, _, _, rfl⟩ := lockedOn_some h <;> cases hk
  case h_4 =>
    split at h <;> cases h <;> cases hk
  case h_7 =>
    obtain ⟨hpass, rfl⟩ := guarded_eq_some.mp h
    cases hk
    exact .inr hpass
  case h_10 | h_17 => obtain rfl | ⟨r, _, _, _, rfl⟩ := lockedOn_some h <;> cases hk
  all_goals simp only [guarded_eq_some, Option.some.injEq, reduceCtorEq] at h
  all_goals
    first
    | subst h
    | obtain ⟨_, rfl⟩ := h
  all_goals cases hk
  all_goals exact .inl rfl

/-- A preflight that does not block has seen a target, and only such a preflight launches a run. -/
structure Launches (s : State) : Prop where
  evaluated : ∀ n ev, evaluation (s.txs n) = some ev → ev.preflight ≠ .block →
    Targeted (s.runs ev.run).committed
  passed : ∀ n ev, passed (s.txs n) = some ev → ev.preflight ≠ .block
  launched : ∀ run, Launched (s.runs run).committed → Targeted (s.runs run).committed

theorem launches_evaluated (hr : Reachable (system c) s) (hI : Launches s) (hok : Evaluates s e)
    (h : step c s e = some u) {ev : Evaluation} (hev : evaluation (u.txs n) = some ev)
    (hp : ev.preflight ≠ .block) : Targeted (u.runs ev.run).committed := by
  refine targeted_kept (run_row_changes hr h ev.run) ?_
  obtain ⟨m, core, hm, _, _, rfl⟩ := step_some h
  change evaluation (m.txs n) = some ev at hev
  by_cases he : ∃ event, e = .tx n event
  · obtain ⟨event, rfl⟩ := he
    rcases evaluation_origin (tx_moves hm) hev with hbefore | rfl
    · exact hI.evaluated n ev hbefore hp
    · obtain ⟨r, hrun, hne⟩ := evaluated_targets hok hp
      rw [hrun]
      exact hne
  · rw [other_tx_unchanged hm fun event hev => he ⟨event, hev⟩] at hev
    exact hI.evaluated n ev hev hp

theorem launches_passed (hI : Launches s) (h : step c s e = some u) {ev : Evaluation}
    (hev : passed (u.txs n) = some ev) : ev.preflight ≠ .block := by
  obtain ⟨m, core, hm, _, _, rfl⟩ := step_some h
  change passed (m.txs n) = some ev at hev
  by_cases he : ∃ event, e = .tx n event
  · obtain ⟨event, rfl⟩ := he
    rcases passed_origin (tx_moves hm) hev with hbefore | hpass
    · exact hI.passed n ev hbefore
    · exact hpass
  · rw [other_tx_unchanged hm fun event hev => he ⟨event, hev⟩] at hev
    exact hI.passed n ev hev

/-- The transaction that commits a launched run has passed a preflight, or has cancelled the run. -/
theorem targeted_by_commit (hr : Reachable (system c) s) (hI : Launches s)
    (hh : (s.runs run).held = some (.campaign n, v)) (hl : Launched v)
    (hw : writing (s.txs n) = some run) : Targeted (s.runs run).committed := by
  obtain ⟨statuses, hlock⟩ := delivered_lock (writing_delivered hw)
  obtain ⟨r, v', _, _, hheld, hkeep⟩ := runs_locked hr n run statuses hlock
  rw [hh] at hheld
  cases hheld
  have hpassed := hI.passed n
  have hevaluated := hI.evaluated n
  generalize s.txs n = k at hw hkeep hpassed hevaluated
  cases k with
  | applied fence ev =>
    cases hw
    exact hevaluated ev rfl (hpassed ev rfl)
  | cancelWritten run' =>
    obtain ⟨r', rfl, hstatus⟩ := hkeep
    simp [Launched, hstatus, launchedStatuses] at hl
  | _ => cases hw

theorem launches_launched (hr : Reachable (system c) s) (hI : Launches s)
    (h : step c s e = some u) (hl : Launched (u.runs run).committed) :
    Targeted (u.runs run).committed := by
  refine targeted_kept (run_row_changes hr h run) ?_
  obtain ⟨m, core, hm, _, ⟨hready, _, _⟩, hu⟩ := step_some h
  have hruns : (u.runs run) = (runEffect s e).apply s.runs run := by rw [hu]
  rw [hruns] at hl
  have hrow := Effect.row_moves hready run
  generalize (runEffect s e).apply s.runs run = row at hrow hl
  cases hrow with
  | same => exact hI.launched run hl
  | own hs ho _ hw =>
    cases run_step hs hw with
    | quiet _ hback => exact hI.launched run (hback hl)
    | @applied _ _ _ fence _ he hstage _ =>
      rw [he] at ho
      cases fence <;> simp [runEffect, hstage, txRunEffect, Effect.owner] at ho
    | cancelled _ _ hnot => exact absurd hl hnot
    | finalized _ _ _ hnot => exact absurd hl hnot
  | inside => exact hI.launched run hl
  | commit he hh =>
    obtain ⟨n, rfl, rfl⟩ := run_commit he
    rcases held_accounted launched_guarded hr run n _ hh hl with hbefore | hw
    · exact hI.launched run hbefore
    · exact targeted_by_commit hr hI hh hl hw
  | abort => exact hI.launched run hl

theorem launches (h : Reachable (restrict (system c) Evaluates) s) : Launches s := by
  refine reachable_invariant_with (M := restrict (system c) Evaluates) (I := Launches)
    (J := Reachable (system c)) (fun _ hr => hr.unrestrict) ?_ (fun s e hr hI he => ?_) h
  · rintro _ rfl
    constructor
    · intro n ev hev
      cases hev
    · intro n ev hev
      cases hev
    · intro run hl
      exact hl.elim
  · have hstep := ofStep_enabled he.1
    exact ⟨fun n ev hev hp => launches_evaluated hr hI he.2 hstep hev hp,
      fun n ev hev => launches_passed hI hstep hev,
      fun run hl => launches_launched hr hI hstep hl⟩

end Launches

/-- A run among the statuses has a delivery for each of its targets and none besides, and a run
that is RUNNING has at least one. -/
theorem targets_have_deliveries (h : Reachable (restrict (system c) Evaluates) s) {r : CampaignRun}
    (hrun : (s.runs run).committed = .present r) (hstatus : r.status ∈ populatedStatuses) :
    (∀ g, g ∈ r.targets ↔ (s.deliveries (run, g)).committed ≠ none) ∧
      (r.status = .running → ∃ g, (s.deliveries (run, g)).committed ≠ none) := by
  have hfilled := (populations h.unrestrict).filled run (by rw [hrun]; exact hstatus)
  have hplaced := deliveries_placed h.unrestrict
  rw [Filled, hrun] at hfilled
  refine ⟨fun g => ⟨hfilled g, fun hd => ?_⟩, fun hrunning => ?_⟩
  · have hplace := (hplaced (run, g)).1 hd
    rw [hrun] at hplace
    exact hplace
  · have htargeted := (launches h).launched run (by
      rw [hrun]
      simp [Launched, hrunning, launchedStatuses])
    rw [hrun] at htargeted
    obtain ⟨g, hg⟩ := List.exists_mem_of_ne_nil r.targets htargeted
    exact ⟨g, hfilled g hg⟩

end CampaignRunDeliveries
