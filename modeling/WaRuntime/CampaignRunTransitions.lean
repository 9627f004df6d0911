import WaRuntime.CampaignExecution

/-! The run lifecycle under concurrency.
Every transaction that locks its run before it writes holds it in a status that its write may
leave; the statements of their own name the statuses in their WHERE clause. The finalization does
neither: it writes the rows that a CTE has found RUNNING some time before. -/
namespace CampaignRunTransitions

open TransitionRuns RowVersions CampaignRunStatements CampaignExecution
open OutboundMessageExecution (Tx Config)

variable {c : Config} {s u : State} {e : Event} {n : ℕ} {run : RunId}

/-- The version of its run row that a transaction holds: the committed one until it writes. -/
def Keeps : CampaignTx → CampaignRun → RunSlot → Prop
  | .applied _ _, _, _ => True
  | .cancelWritten _, _, v => ∃ r, v = .present r ∧ r.status = .cancelled
  | _, r, v => v = .present r

/-- A transaction holds the row of its run, which still has a status it was locked on. -/
def HoldsRun (k : CampaignTx) (n : ℕ) (statuses : List CampaignRunStatus)
    (row : Row Tx RunSlot) : Prop :=
  ∃ r v, row.committed = .present r ∧ r.status ∈ statuses ∧ row.held = some (.campaign n, v) ∧
    Keeps k r v

theorem locked_on (n : ℕ) {statuses statuses' : List CampaignRunStatus} {next : CampaignRun → CampaignTx}
    {k : CampaignTx} {run' : RunId}
    (h : lockedOn s run statuses next = some k) (hk : k.lock = some (run', statuses'))
    (hnext : ∀ r, (next r).lock = some (run, statuses) ∧ ∀ v, v = .present r → Keeps (next r) r v) :
    run' = run ∧ statuses' = statuses ∧ HoldsRun k n statuses ((s.runs run).updateIn (.campaign n) (onRun some)) := by
  obtain rfl | ⟨r, hfree, hr, hs, rfl⟩ := lockedOn_some h
  · cases hk
  · obtain ⟨hl, hkeep⟩ := hnext r
    rw [hl] at hk
    cases hk
    refine ⟨rfl, rfl, r, .present r, ?_, hs, ?_, hkeep _ rfl⟩
    · simpa using hr
    · simp [Row.updateIn, Row.view_of_free hfree, hr, onRun]

/-- A transaction keeps the lock of its run from the locking SELECT to its commit or abort. -/
theorem own_lock {k k' : CampaignTx} {event : TxEvent} {statuses : List CampaignRunStatus}
    (hI : ∀ run statuses, k.lock = some (run, statuses) → HoldsRun k n statuses (s.runs run))
    (hn : txNext s n k event = some k') (hlock : k'.lock = some (run, statuses)) :
    HoldsRun k' n statuses ((txRunEffect s n k event).apply s.runs run) := by
  unfold txNext at hn
  split at hn
  case h_2 ev now token =>
    split at hn
    · rename_i r hr
      split at hn
      · rename_i how
        obtain ⟨⟨_, hfree⟩, rfl⟩ := guarded_eq_some.mp hn
        cases hlock
        refine ⟨r, .present r, ?_, ?_, ?_, rfl⟩
        · simp [txRunEffect, ownsPreparation, hr, how, Effect.apply]
        · simp [Fence.statuses, how.1]
        · simp [txRunEffect, ownsPreparation, hr, how, Effect.apply, Row.updateIn,
            Row.view_of_free hfree, onRun]
      · obtain ⟨_, rfl⟩ := guarded_eq_some.mp hn
        cases hlock
    · obtain ⟨_, rfl⟩ := guarded_eq_some.mp hn
      cases hlock
  case h_3 ev =>
    split at hn
    · cases hn
    · obtain ⟨rfl, rfl, h⟩ := locked_on n hn hlock fun r => ⟨rfl, fun v hv => hv⟩
      simpa [txRunEffect, Effect.apply] using h
  case h_10 run' =>
    obtain ⟨rfl, rfl, h⟩ := locked_on n hn hlock fun r => ⟨rfl, fun v hv => hv⟩
    simpa [txRunEffect, Effect.apply] using h
  case h_17 run' maxBuffered =>
    obtain ⟨rfl, rfl, h⟩ := locked_on n hn hlock fun r => ⟨rfl, fun v hv => hv⟩
    simpa [txRunEffect, Effect.apply] using h
  case h_4 fence ev =>
    obtain rfl := Option.some.inj hn
    split at hlock
    · rename_i hc
      rw [if_pos hc]
      cases hlock
      exact hI _ _ rfl
    · rename_i hc
      rw [if_neg hc]
      cases hlock
      exact hI _ _ rfl
  case h_9 fence ev now date =>
    obtain ⟨_, rfl⟩ := guarded_eq_some.mp hn
    cases hlock
    obtain ⟨r, v, hr, hs, hh, rfl⟩ := hI _ _ rfl
    cases fence with
    | preparation token =>
      have hw := Row.updateIn_of_held (f := onRun fun r => some (applyReady now date ev.preflight r))
        hh rfl
      refine ⟨r, .present (applyReady now date ev.preflight r), ?_, hs, ?_, trivial⟩
      · simpa [txRunEffect, Effect.apply] using hr
      · simp [txRunEffect, Effect.apply, hw]
    | resume =>
      have hw := Row.updateIn_of_held (f := onRun fun r => some (resume now date ev.preflight r))
        hh rfl
      refine ⟨r, .present (resume now date ev.preflight r), ?_, hs, ?_, trivial⟩
      · simpa [txRunEffect, Effect.apply] using hr
      · simp [txRunEffect, Effect.apply, hw]
  case h_16 run' now =>
    obtain ⟨_, rfl⟩ := guarded_eq_some.mp hn
    cases hlock
    obtain ⟨r, v, hr, hs, hh, rfl⟩ := hI _ _ rfl
    refine ⟨r, .present (cancel now r), ?_, hs, ?_, cancel now r, rfl, rfl⟩
    · simpa [txRunEffect, Effect.apply] using hr
    · have hw := Row.updateIn_of_held (f := onRun fun r => some (cancel now r)) hh rfl
      simp [txRunEffect, Effect.apply, hw]
  case h_7 fence ev =>
    obtain ⟨_, rfl⟩ := guarded_eq_some.mp hn
    cases hlock
    cases fence <;> exact hI _ _ rfl
  case h_15 run' remaining group now =>
    obtain ⟨_, rfl⟩ := guarded_eq_some.mp hn
    cases hlock
    cases remaining <;> exact hI _ _ rfl
  all_goals simp only [guarded_eq_some, Option.some.injEq, reduceCtorEq] at hn
  all_goals
    first
    | subst hn
    | obtain ⟨_, rfl⟩ := hn
    cases hlock
  all_goals exact hI _ _ rfl

/-- Every open transaction that has locked a run keeps the row as the locking SELECT found it. -/
def RunsLocked (s : State) : Prop :=
  ∀ n run statuses, (s.txs n).lock = some (run, statuses) →
    HoldsRun (s.txs n) n statuses (s.runs run)

theorem runs_locked_step (hI : RunsLocked s) (h : step c s e = some u) : RunsLocked u := by
  obtain ⟨v, core, hv, _, ⟨hr, _, _⟩, rfl⟩ := step_some h
  intro n run statuses hlock
  change (v.txs n).lock = _ at hlock
  by_cases he : ∃ event, e = .tx n event
  · obtain ⟨event, rfl⟩ := he
    have hk := tx_moves hv
    exact own_lock (hI n) hk hlock
  · have hsame : v.txs n = s.txs n := other_tx_unchanged hv fun event hev => he ⟨event, hev⟩
    rw [hsame] at hlock
    obtain ⟨r, held, hc, hs, hh, hk⟩ := hI n run statuses hlock
    have howner : (runEffect s e).owner ≠ some (.campaign n) := by
      intro ho
      obtain ⟨m, event, hev, hm⟩ := run_effect_owner ho
      cases hm
      exact he ⟨event, hev⟩
    have hrow := Effect.locked_row_unchanged hr howner hh
    change HoldsRun (v.txs n) n statuses ((runEffect s e).apply s.runs run)
    rw [hsame, hrow]
    exact ⟨r, held, hc, hs, hh, hk⟩

theorem runs_locked (h : Reachable (system c) s) : RunsLocked s := by
  refine reachable_invariant (M := system c) ?_ (fun s e hI he => ?_) h
  · rintro _ rfl n run statuses hlock
    cases hlock
  · exact runs_locked_step hI (ofStep_enabled he)

/-- What a step may do to a run slot, for a relation between the versions of a present run. -/
inductive SlotChange (R : CampaignRun → CampaignRun → Prop) : RunSlot → RunSlot → Prop where
  | kept {slot} : SlotChange R slot slot
  | created {new} : new.status = .preparing → SlotChange R .unused (.present new)
  | changed {old new} : R old new → SlotChange R (.present old) (.present new)
  | deleted {old} : old.status.Terminal → SlotChange R (.present old) .deleted

theorem onRun_changes {R : CampaignRun → CampaignRun → Prop}
    {f : CampaignRun → Option CampaignRun} (hf : ∀ old new, f old = some new → R old new)
    (v w : RunSlot) (h : onRun f v = some w) : SlotChange R v w := by
  cases v with
  | present old =>
    obtain ⟨new, hn, rfl⟩ := Option.map_eq_some_iff.mp h
    exact .changed (hf old new hn)
  | unused => cases h
  | deleted => cases h

/-- The run a step finalizes, with the outcome it writes. -/
def finalized (s : State) : Event → Option (RunId × Bool)
  | .tx n (.finalizeRow _) =>
    match s.txs n with
    | .finalizing (found :: _) => some found
    | _ => none
  | _ => none

/-- A statement of the holder of a run on the row as its locking SELECT found it. -/
theorem held_changes {R : CampaignRun → CampaignRun → Prop} {k : CampaignTx}
    {statuses : List CampaignRunStatus} {f : CampaignRun → Option CampaignRun}
    {row : Row Tx RunSlot} (hk : HoldsRun k n statuses row)
    (hkeep : ∀ r v, Keeps k r v → v = .present r)
    (hf : ∀ old new, old.status ∈ statuses → f old = some new → R old new)
    (w : RunSlot) (h : onRun f (row.view (.campaign n)) = some w) :
    SlotChange R row.committed w := by
  obtain ⟨r, v, hc, hs, hh, hv⟩ := hk
  obtain rfl := hkeep r v hv
  rw [Row.view_of_held hh] at h
  obtain ⟨new, hn, rfl⟩ := Option.map_eq_some_iff.mp h
  rw [hc]
  exact .changed (hf r new hs hn)

/-- A locking SELECT writes back the version it reads. -/
theorem lock_changes {R : CampaignRun → CampaignRun → Prop} {t : Tx} {row : Row Tx RunSlot}
    (hrow : row.Follows (SlotChange R)) (w : RunSlot) (h : onRun some (row.view t) = some w) :
    SlotChange R row.committed w := by
  have hw : w = row.view t := by
    cases hv : row.view t with
    | present r =>
      rw [hv] at h
      cases h
      rfl
    | unused =>
      rw [hv] at h
      cases h
    | deleted =>
      rw [hv] at h
      cases h
  rw [hw]
  exact Row.view_follows (fun _ => .kept) hrow

/-- What every statement on `campaign_runs` may do, with the finalization as a case of its own. -/
theorem run_effect_changes {R : CampaignRun → CampaignRun → Prop} (hI : RunsLocked s)
    (hrow : ∀ run, (s.runs run).Follows (SlotChange R))
    (hlawful : ∀ old new, Lawful old new → R old new)
    (hfinal : ∀ now run hasFailure r, finalized s e = some (run, hasFailure) →
      (s.runs run).committed = .present r → R r (finalize now hasFailure r)) :
    (runEffect s e).MovesBy (SlotChange R) s.runs := by
  have hown : ∀ {f : CampaignRun → Option CampaignRun} {run : RunId},
      (∀ old new, f old = some new → Lawful old new) →
        (Effect.update (onRun f) run : Effect Tx RunId RunSlot).MovesBy (SlotChange R) s.runs :=
    fun hf => onRun_changes (fun old new h => hlawful old new (hf old new h)) _
  cases e <;> simp only [runEffect]
  case createRun run input now =>
    intro w hw
    unfold insertRun at hw
    split at hw
    · rename_i hu
      cases hw
      rw [hu]
      exact .created rfl
    · cases hw
  case deleteRun run cutoff =>
    intro w hw
    unfold deleteRunSlot at hw
    split at hw
    · rename_i r hr
      split at hw
      · rename_i hd
        cases hw
        rw [hr]
        exact .deleted hd.1
      · cases hw
    · cases hw
  case claimPreparation => exact hown fun _ _ => claimPreparation_lawful
  case recoverExpiredPreparation => exact hown fun _ _ => recoverExpiredPreparation_lawful
  case failPreparationAttempt => exact hown fun _ _ => failPreparationAttempt_lawful
  case activateDue => exact hown fun _ _ => activateDue_lawful
  case pause => exact hown fun _ _ => pause_lawful
  case recordBlockedResume => exact hown fun _ _ => recordBlockedResume_lawful
  case tx n event =>
    have hk := hI n
    generalize hstage : s.txs n = k at hk
    unfold txRunEffect
    split
    case h_1 ev now token =>
      split
      · exact lock_changes (hrow _)
      · trivial
    case h_2 | h_7 | h_9 => exact lock_changes (hrow _)
    case h_3 token ev now =>
      refine held_changes (hk _ _ rfl) (fun r v hv => hv) fun old new _ h => ?_
      exact hlawful old new (releaseStaleAttempt_lawful h)
    case h_4 token ev now =>
      refine held_changes (hk _ _ rfl) (fun r v hv => hv) fun old new hs h => ?_
      obtain rfl := Option.some.inj h
      exact hlawful old _ (applyBlocked_lawful (List.mem_singleton.mp hs))
    case h_5 token ev now date =>
      refine held_changes (hk _ _ rfl) (fun r v hv => hv) fun old new hs h => ?_
      obtain rfl := Option.some.inj h
      exact hlawful old _ (applyReady_lawful (List.mem_singleton.mp hs))
    case h_6 ev now date =>
      refine held_changes (hk _ _ rfl) (fun r v hv => hv) fun old new hs h => ?_
      obtain rfl := Option.some.inj h
      exact hlawful old _ (resume_lawful hs)
    case h_8 run now =>
      refine held_changes (hk _ _ rfl) (fun r v hv => hv) fun old new hs h => ?_
      obtain rfl := Option.some.inj h
      exact hlawful old _ (cancel_lawful hs)
    case h_10 run maxBuffered sendable now =>
      refine held_changes (hk _ _ rfl) (fun r v hv => hv) fun old new _ h => ?_
      exact hlawful old new (pauseUnsendable_lawful h)
    case h_11 run hasFailure rest now =>
      intro w hw
      cases hc : (s.runs run).committed with
      | present r =>
        rw [hc] at hw
        cases hw
        exact .changed (hfinal now run hasFailure r (by simp [finalized, hstage]) hc)
      | unused =>
        rw [hc] at hw
        cases hw
      | deleted =>
        rw [hc] at hw
        cases hw
    all_goals trivial
  all_goals trivial

/-- The write of a finalization finds its run RUNNING still, or with the outcome it writes. -/
def FinalizesRunning (s : State) (e : Event) : Prop :=
  ∀ found ∈ finalized s e, ∀ r ∈ (s.runs found.1).committed.run,
    r.status = .running ∨ r.status = finalOutcome found.2

instance (s : State) (e : Event) : Decidable (FinalizesRunning s e) :=
  inferInstanceAs (Decidable (∀ found ∈ finalized s e, ∀ r ∈ (s.runs found.1).committed.run, _))

/-- The steps of a run under the condition change the runs as documented. -/
theorem lawful_effect (hI : RunsLocked s) (hrow : ∀ run, (s.runs run).Follows (SlotChange Lawful))
    (hok : FinalizesRunning s e) : (runEffect s e).MovesBy (SlotChange Lawful) s.runs := by
  refine run_effect_changes hI hrow (fun _ _ h => h) ?_
  intro now run hasFailure r hf hr
  have hrunning := hok _ hf r (by rw [hr]; rfl)
  exact (finalize_lawful_iff hasFailure).mpr hrunning

section Follows

variable {R : CampaignRun → CampaignRun → Prop} {ok : State → Event → Prop}

theorem runs_follow
    (hR : ∀ s e, RunsLocked s → (∀ run, (s.runs run).Follows (SlotChange R)) → ok s e →
      (runEffect s e).MovesBy (SlotChange R) s.runs)
    (h : Reachable (restrict (system c) ok) s) : ∀ run, (s.runs run).Follows (SlotChange R) := by
  refine reachable_invariant_with (M := restrict (system c) ok)
    (I := fun s => ∀ run, (s.runs run).Follows (SlotChange R)) (J := RunsLocked)
    (fun _ hs => runs_locked hs.unrestrict) ?_ ?_ h
  · rintro _ rfl run
    exact Row.follows_settled _
  · intro s e hJ hI he run
    obtain ⟨v, core, _, _, ⟨hready, _, _⟩, hu⟩ := step_some (ofStep_enabled he.1)
    have hfollows := Effect.follows_apply hI hready (hR s e hJ hI he.2) run
    rwa [show (restrict (system c) ok).next s e = _ from hu]

/-- A step under the condition changes the committed row of a run along the relation. -/
theorem committed_run_changes
    (hR : ∀ s e, RunsLocked s → (∀ run, (s.runs run).Follows (SlotChange R)) → ok s e →
      (runEffect s e).MovesBy (SlotChange R) s.runs)
    (h : Reachable (restrict (system c) ok) s) (hstep : step c s e = some u) (hok : ok s e)
    (run : RunId) : SlotChange R (s.runs run).committed (u.runs run).committed := by
  obtain ⟨v, core, _, _, ⟨hready, _, _⟩, rfl⟩ := step_some hstep
  have hfollow := runs_follow hR h
  exact Effect.committed_moves (fun _ => .kept) hfollow hready
    (hR s e (runs_locked h.unrestrict) hfollow hok) run

end Follows

/-- Statements of campaign transactions keep what a run was created with. -/
theorem tx_run_statement {k : CampaignTx} {event : TxEvent} {f : RunSlot → Option RunSlot}
    (hs : (txRunEffect s n k event).statement run = some f) :
    ∃ g, f = onRun g ∧ ∀ old new, g old = some new → new.input = old.input := by
  have hwrites : ∀ g : CampaignRun → CampaignRun, f = onRun (fun r => some (g r)) →
      (∀ r, (g r).input = r.input) →
      ∃ g, f = onRun g ∧ ∀ old new, g old = some new → new.input = old.input := by
    rintro g rfl hg
    refine ⟨_, rfl, fun old new h => ?_⟩
    cases h
    exact hg old
  unfold txRunEffect at hs
  split at hs
  case h_1 =>
    split at hs <;> simp only [Effect.statement, Option.ite_none_right_eq_some, Option.some.injEq,
      reduceCtorEq] at hs
    exact hwrites id hs.2.symm fun _ => rfl
  all_goals simp only [Effect.statement, Option.ite_none_right_eq_some, Option.some.injEq,
    reduceCtorEq] at hs
  case h_2 | h_7 | h_9 => exact hwrites id hs.2.symm fun _ => rfl
  case h_3 => exact ⟨_, hs.2.symm, fun _ _ h => (releaseStaleAttempt_lawful h).1⟩
  case h_10 => exact ⟨_, hs.2.symm, fun _ _ h => (pauseUnsendable_lawful h).1⟩
  all_goals exact hwrites _ hs.2.symm fun _ => rfl

/-- A statement on a run row creates it, deletes it, or keeps what it was created with. -/
theorem run_statement {f : RunSlot → Option RunSlot} {v w : RunSlot}
    (hs : (runEffect s e).statement run = some f) (hf : f v = some w) :
    (∃ input now, e = .createRun run input now ∧ v = .unused ∧
        w = .present (createRun now input)) ∨
      (∃ old cutoff, e = .deleteRun run cutoff ∧ v = .present old ∧ w = .deleted) ∨
        ∃ old new, v = .present old ∧ w = .present new ∧ new.input = old.input := by
  have hkeeps : ∀ g : CampaignRun → Option CampaignRun, onRun g = f →
      (∀ old new, g old = some new → new.input = old.input) →
      ∃ old new, v = .present old ∧ w = .present new ∧ new.input = old.input := by
    rintro g rfl hg
    cases v with
    | present old =>
      obtain ⟨new, hn, rfl⟩ := Option.map_eq_some_iff.mp hf
      exact ⟨old, new, rfl, rfl, hg old new hn⟩
    | unused => cases hf
    | deleted => cases hf
  cases e <;> simp only [runEffect] at hs
  case tx n event =>
    obtain ⟨g, rfl, hg⟩ := tx_run_statement hs
    exact .inr (.inr (hkeeps g rfl hg))
  all_goals simp only [Effect.statement, Option.ite_none_right_eq_some, Option.some.injEq,
    reduceCtorEq] at hs
  case createRun id input now =>
    obtain ⟨rfl, rfl⟩ := hs
    cases v <;> cases hf
    exact .inl ⟨input, now, rfl, rfl, rfl⟩
  case deleteRun id cutoff =>
    obtain ⟨rfl, rfl⟩ := hs
    cases v <;> simp only [deleteRunSlot, Option.ite_none_right_eq_some, Option.some.injEq,
      reduceCtorEq] at hf
    exact .inr (.inl ⟨_, cutoff, rfl, rfl, hf.2.symm⟩)
  case claimPreparation =>
    exact .inr (.inr (hkeeps _ hs.2 fun _ _ h => (claimPreparation_lawful h).1))
  case recoverExpiredPreparation =>
    exact .inr (.inr (hkeeps _ hs.2 fun _ _ h => (recoverExpiredPreparation_lawful h).1))
  case failPreparationAttempt =>
    exact .inr (.inr (hkeeps _ hs.2 fun _ _ h => (failPreparationAttempt_lawful h).1))
  case activateDue => exact .inr (.inr (hkeeps _ hs.2 fun _ _ h => (activateDue_lawful h).1))
  case pause => exact .inr (.inr (hkeeps _ hs.2 fun _ _ h => (pause_lawful h).1))
  case recordBlockedResume =>
    exact .inr (.inr (hkeeps _ hs.2 fun _ _ h => (recordBlockedResume_lawful h).1))

/-- Whatever the finalization overwrites, a run keeps what it was created with, and a run that
has ended does not become open again. -/
def StaysEnded (old new : CampaignRun) : Prop :=
  new.input = old.input ∧ (old.status.Terminal → new.status.Terminal)

theorem lawful_stays_ended (old new : CampaignRun) (h : Lawful old new) : StaysEnded old new := by
  obtain ⟨hinput, hs | ht⟩ := h
  · exact ⟨hinput, fun hterm => hs ▸ hterm⟩
  · exact ⟨hinput, fun hterm => absurd ht (terminal_has_no_transition hterm)⟩

theorem finalize_stays_ended (now : ℕ) (hasFailure : Bool) (r : CampaignRun) :
    StaysEnded r (finalize now hasFailure r) := by
  refine ⟨rfl, fun _ => ?_⟩
  cases hasFailure <;> simp [finalize, finalOutcome, CampaignRunStatus.Terminal]

theorem run_row_changes (h : Reachable (system c) s) (hstep : step c s e = some u) (run : RunId) :
    SlotChange StaysEnded (s.runs run).committed (u.runs run).committed := by
  have hfree : Reachable (restrict (system c) fun _ _ => True) s := h.restrict_of fun _ _ => trivial
  refine committed_run_changes (fun s e hI hrow _ => ?_) hfree hstep trivial run
  exact run_effect_changes hI hrow lawful_stays_ended
    fun now _ hasFailure r _ _ => finalize_stays_ended now hasFailure r

/-- A step from `s` to `u` changes the status of each run as documented, or not at all. -/
def ChangesAsDocumented (s u : State) : Prop :=
  ∀ run old new, (s.runs run).committed = .present old → (u.runs run).committed = .present new →
    old.status = new.status ∨ Transition old.status new.status

/-- A run that has ended in `s` has the same status in `u`, or retention has deleted it. -/
def KeepsEndedRuns (s u : State) : Prop :=
  ∀ run old, (s.runs run).committed = .present old → old.status.Terminal →
    (u.runs run).committed = .deleted ∨
      ∃ new, (u.runs run).committed = .present new ∧ new.status = old.status

/-- Under the condition each step changes each run as documented. -/
theorem lawful_run_changes (h : Reachable (restrict (system c) FinalizesRunning) s)
    (he : (restrict (system c) FinalizesRunning).enabled s e) (run : RunId) :
    SlotChange Lawful (s.runs run).committed (((system c).next s e).runs run).committed :=
  committed_run_changes (fun _ _ hI hrow hok => lawful_effect hI hrow hok) h
    (ofStep_enabled he.1) he.2 run

theorem changes_as_documented {u : State}
    (h : ∀ run, SlotChange Lawful (s.runs run).committed (u.runs run).committed) :
    ChangesAsDocumented s u := by
  intro run old new hold hnew
  have hc := h run
  rw [hold, hnew] at hc
  cases hc with
  | kept => exact .inl rfl
  | changed hl => exact hl.2

theorem keeps_ended_runs_step {t u : State} (hI : KeepsEndedRuns s t)
    (h : ∀ run, SlotChange Lawful (t.runs run).committed (u.runs run).committed) :
    KeepsEndedRuns s u := by
  intro run old hold hterm
  have hc := h run
  obtain hd | ⟨r, hr, hs⟩ := hI run old hold hterm
  · rw [hd] at hc
    left
    generalize (u.runs run).committed = after at hc
    cases hc
    rfl
  · rw [hr] at hc
    generalize (u.runs run).committed = after at hc
    cases hc with
    | kept => exact .inr ⟨r, rfl, hs⟩
    | @changed _ new hl =>
      right
      refine ⟨new, rfl, ?_⟩
      obtain heq | ht := hl.2
      · exact heq.symm.trans hs
      · rw [hs] at ht
        exact absurd ht (terminal_has_no_transition hterm)
    | deleted => exact .inl rfl

/-- In every run whose finalizations write runs that are still RUNNING, each status change is a
documented one and a run that has ended keeps its status. -/
theorem run_lifecycle_honoured {es : List Event}
    (h : Reachable (restrict (system c) FinalizesRunning) s)
    (hx : Execution (restrict (system c) FinalizesRunning) s es u) :
    KeepsEndedRuns s u ∧ ∀ e, (restrict (system c) FinalizesRunning).enabled u e →
      ChangesAsDocumented u ((system c).next u e) := by
  constructor
  · refine related_along (R := KeepsEndedRuns) ?_ ?_ h hx
    · exact fun s run old hold _ => .inr ⟨old, hold, rfl⟩
    · exact fun s t e ht hI he => keeps_ended_runs_step hI (lawful_run_changes ht he)
  · intro e he
    exact changes_as_documented (lawful_run_changes (h.extend hx) he)

def exampleConfig : Config := ⟨true, 1000⟩

/-- A LIVE run with one group, whose capability changes after the preflight: the delivery is
blocked, and a finalization has found the run RUNNING with no open delivery. -/
def foundTrace : List Event :=
  [.writeGroup ("session", "group") ⟨.allowed, "ok", 1, some 0⟩,
    .writeSession "session" ⟨"ready", true, false⟩,
    .createRun 1 ⟨1, "session", "key", .live, "text", ["group"], 0⟩ 0,
    .claimPreparation 1 0 5, .tx 0 (.evaluate 1 .pass), .tx 0 (.lockPreparation 0 5),
    .tx 0 .checkRevisions, .tx 0 .copyRevisions, .tx 0 (.insertDeliveries 0),
    .tx 0 (.writeRun 0 0), .tx 0 .commit,
    .writeGroup ("session", "group") ⟨.denied, "not_found", 2, some 0⟩,
    .tx 0 (.lockMaterialize 1 10), .tx 0 .countActive, .tx 0 (.selectPending ["group"]),
    .tx 0 (.materializeNext 1 0 0), .tx 0 .commit,
    .tx 0 (.snapshotFinalizable [1])]

def stateAfter (trace : List Event) : State := runTrace (system exampleConfig) initial trace

def finalizeStep : Event := .tx 0 (.finalizeRow 0)

def finalizedState : State := (system exampleConfig).next (stateAfter foundTrace) finalizeStep

/-- The finalization ends the run, and a pause comes too late. -/
theorem finalized_run_stays :
    KeepsEndedRuns finalizedState ((system exampleConfig).next finalizedState (.pause 1 0)) ∧
      ChangesAsDocumented (stateAfter foundTrace) finalizedState := by
  have hfound : Reachable (restrict (system exampleConfig) FinalizesRunning)
      (stateAfter foundTrace) := ⟨foundTrace, valid_trace_restricted_run rfl (by decide)⟩
  have hended : Reachable (restrict (system exampleConfig) FinalizesRunning) finalizedState :=
    hfound.restricted_step (e := finalizeStep) (by decide)
  constructor
  · exact (run_lifecycle_honoured hended (Execution.restricted_step (by decide))).1
  · exact (run_lifecycle_honoured hfound Execution.refl).2 finalizeStep (by decide)

/-- The operator pauses the run before the finalization reaches its row. -/
def pauseTrace : List Event := foundTrace ++ [.pause 1 0]

/-- The operator cancels the run before the finalization reaches its row. -/
def cancelTrace : List Event :=
  foundTrace ++ [.tx 1 (.lockCancel 1), .tx 1 (.insertDeliveries 0), .tx 1 .startCancelJobs,
    .tx 1 .startCancelDeliveries, .tx 1 (.cancelDelivery "group" 0), .tx 1 (.writeCancelled 0),
    .tx 1 .commit]

theorem finalization_overwrites_pause_and_cancel :
    Reachable (system exampleConfig) (stateAfter pauseTrace) ∧
      (system exampleConfig).enabled (stateAfter pauseTrace) finalizeStep ∧
      ¬ ChangesAsDocumented (stateAfter pauseTrace)
        (stateAfter (pauseTrace ++ [finalizeStep])) ∧
      Reachable (system exampleConfig) (stateAfter cancelTrace) ∧
      (system exampleConfig).enabled (stateAfter cancelTrace) finalizeStep ∧
      ¬ KeepsEndedRuns (stateAfter cancelTrace)
        (stateAfter (cancelTrace ++ [finalizeStep])) := by
  refine ⟨⟨pauseTrace, valid_trace_run rfl (by decide)⟩, by decide, fun h => ?_,
    ⟨cancelTrace, valid_trace_run rfl (by decide)⟩, by decide, fun h => ?_⟩
  · obtain hs | hs := h 1 _ _ rfl rfl
    · cases hs
    · exact absurd hs (by decide)
  · obtain hd | ⟨new, hn, hs⟩ := h 1 _ rfl (by decide)
    · cases hd
    · cases hn
      cases hs

end CampaignRunTransitions
