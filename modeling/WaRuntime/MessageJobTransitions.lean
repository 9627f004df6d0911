import Mathlib.Logic.Relation
import WaRuntime.OutboundMessageExecution

/-! What the writers of `message_jobs` can do to one row, over all of them.
One relation lists the changes; each statement makes one of them. The dispatcher's UPDATE does not
look at the status again, and makes one of them because it acts on rows it has locked. -/
namespace MessageJobTransitions

open TransitionRuns RowVersions MessageJobStatements OutboundMessageExecution

variable {c : Config} {s u : State} {e : Event} {j : JobId}

inductive SlotStep : JobSlot → JobSlot → Prop where
  | created {new} : new.status = .scheduled → SlotStep .unused (.present new)
  | kept {old new} : new.status = old.status → SlotStep (.present old) (.present new)
  | claimed {old new} : old.status = .scheduled → new.status = .queued →
      SlotStep (.present old) (.present new)
  | returned {old new} : old.status = .queued → new.status = .scheduled →
      SlotStep (.present old) (.present new)
  | taken {old new} : old.status = .queued → new.status = .processing →
      SlotStep (.present old) (.present new)
  | recorded {old new} : old.status = .processing →
      new.status ∈ [.accepted, .failed, .unknown, .dryRunCompleted] →
      SlotStep (.present old) (.present new)
  | acknowledged {old new} : WebhookOverwrites new.status old.status →
      SlotStep (.present old) (.present new)
  | cancelled {old new} : old.status.AwaitsWorker → new.status = .cancelled →
      SlotStep (.present old) (.present new)
  | deleted {old} : ¬ old.status.AwaitsWorker → SlotStep (.present old) .deleted

/-- Any number of changes, one after the other. -/
abbrev SlotMoves : JobSlot → JobSlot → Prop := Relation.ReflTransGen SlotStep

theorem slot_step_no_return {old new : JobSlot} (h : SlotStep old new) (ha : new.AwaitsWorker) :
    old.AwaitsWorker := by
  cases h with
  | created => trivial
  | kept hs =>
    simp only [JobSlot.AwaitsWorker, hs] at ha
    exact ha
  | claimed hs => exact .inl hs
  | returned hs => exact .inr hs
  | taken hs => exact .inr hs
  | recorded _ hs => rcases ha with ha | ha <;> simp [ha] at hs
  | acknowledged ho => exact absurd ha (webhook_overwrites_not_awaiting ho)
  | cancelled hs => exact hs
  | deleted => exact absurd ha id

/-- A taken row is never up for taking again. -/
theorem no_return {old new : JobSlot} (h : SlotMoves old new) (ha : new.AwaitsWorker) :
    old.AwaitsWorker := by
  induction h with
  | refl => exact ha
  | tail _ hs ih => exact ih (slot_step_no_return hs ha)

/-- A row that can no longer be sent, whatever happens: cancelled, or gone. -/
def Withdrawn : JobSlot → Prop
  | .present job => job.status = .cancelled
  | .deleted => True
  | .unused => False

theorem slot_step_withdrawn {old new : JobSlot} (h : SlotStep old new) (hw : Withdrawn old) :
    Withdrawn new := by
  cases h with
  | created => exact absurd hw id
  | kept hs =>
    simp only [Withdrawn] at hw ⊢
    rw [hs, hw]
  | deleted => trivial
  | cancelled _ hs => exact hs
  | claimed hs => simp [Withdrawn, hs] at hw
  | returned hs => simp [Withdrawn, hs] at hw
  | taken hs => simp [Withdrawn, hs] at hw
  | recorded hs => simp [Withdrawn, hs] at hw
  | acknowledged ho =>
    simp only [Withdrawn] at hw
    simp [WebhookOverwrites, hw] at ho

theorem withdrawn_moves {old new : JobSlot} (h : SlotMoves old new) (hw : Withdrawn old) :
    Withdrawn new := by
  induction h with
  | refl => exact hw
  | tail _ hs ih => exact slot_step_withdrawn hs ih

/-- The dispatcher holds the rows it has selected, unchanged and SCHEDULED. -/
def ClaimsLocked (s : State) : Prop :=
  ∀ d ids, s.dispatchers d = .claiming ids → ∀ j ∈ ids, ∃ job,
    (s.jobs j).held = some (.dispatcher d, .present job) ∧ job.status = .scheduled

theorem onPresent_steps {f : MessageJob → Option MessageJob}
    (hf : ∀ job new, f job = some new → SlotStep (.present job) (.present new)) (v w : JobSlot)
    (h : onPresent f v = some w) : SlotStep v w := by
  obtain ⟨job, new, rfl, hn, rfl⟩ := onPresent_some h
  exact hf job new hn

theorem worker_effect_steps (s : State) (w : ℕ) (k : Worker) (e : WorkerEvent) :
    (workerEffect w k e).WritesBy SlotStep s.jobs := by
  have hrefresh : ∀ now, (Effect.update (onPresent (refreshProcessingLease now)) k.job :
      Effect Tx JobId JobSlot).WritesBy SlotStep s.jobs := by
    intro now
    refine onPresent_steps ?_ _
    intro job new h
    obtain ⟨ho, hn⟩ := refreshProcessingLease_some h
    exact .kept (hn.trans ho.symm)
  cases e <;> simp only [workerEffect]
  case refreshWhileWaiting now => exact hrefresh now
  case confirmProcessing now => exact hrefresh now
  case verifyProcessing now => exact hrefresh now
  case write now =>
    split
    · rename_i result b hr
      refine onPresent_steps ?_ _
      intro job new h
      obtain ⟨ho, hn⟩ := updateResult_some h
      exact .recorded ho (by rw [hn]; exact result.recorded)
    · trivial
  all_goals trivial

/-- Every statement makes one of the listed changes to the version it reads. -/
theorem job_effect_steps (h : ClaimsLocked s) (e : Event) :
    (jobEffect s e).WritesBy SlotStep s.jobs := by
  cases e <;> simp only [jobEffect]
  case insertJob n job input now =>
    intro v hv
    unfold insertJob at hv
    split at hv
    · rename_i hu
      cases hv
      rw [hu]
      exact .created rfl
    · cases hv
  case cancelJob n job now =>
    refine onPresent_steps ?_ _
    intro job new h
    obtain ⟨ho, hn⟩ := cancelJob_some h
    exact .cancelled ho hn
  case webhookStatus n job mid status now =>
    refine onPresent_steps ?_ _
    intro job new h
    obtain ⟨_, ho, rfl⟩ := updateStatusByOpenWAMessageId_some h
    exact .acknowledged ho
  case deleteJob job cutoff =>
    intro v hv
    unfold deleteJob at hv
    split at hv
    · rename_i old hp
      split at hv
      · rename_i hd
        cases hv
        rw [hp]
        exact .deleted (deletable_not_awaiting hd)
      · cases hv
    · cases hv
  case lockDue d job now =>
    refine onPresent_steps ?_ _
    intro job new h
    split at h
    · cases h
      exact .kept rfl
    · cases h
  case queueClaimed d now =>
    split
    · rename_i ids hd
      intro j hj v hv
      obtain ⟨job, hh, hs⟩ := h d ids hd j hj
      rw [Row.view_of_held hh] at hv ⊢
      cases hv
      exact .claimed hs rfl
    · trivial
  case resetQueued d now =>
    split
    · refine onPresent_steps ?_ _
      intro job new h
      obtain ⟨ho, hn⟩ := resetQueued_some h
      exact .returned ho hn
    · trivial
  case recoverStaleQueued job now =>
    refine onPresent_steps ?_ _
    intro job new h
    obtain ⟨ho, hn⟩ := recoverStaleQueued_some h
    exact .returned ho hn
  case markExpiredProcessingUnknown job now =>
    refine onPresent_steps ?_ _
    intro job new h
    obtain ⟨ho, hn⟩ := markExpiredProcessingUnknown_some h
    exact .recorded ho (by simp [hn])
  case markProcessing w now token =>
    split
    · refine onPresent_steps ?_ _
      intro job new h
      obtain ⟨ho, hn, _⟩ := markProcessing_some h
      exact .taken ho hn
    · trivial
  case markProcessingLost w now =>
    split
    · refine onPresent_steps ?_ _
      intro job new h
      obtain ⟨ho, hn, _⟩ := markProcessing_some h
      exact .taken ho hn
    · trivial
  case work w e =>
    split
    · exact worker_effect_steps s w _ e
    · trivial
  all_goals trivial

/-- The locks of a claim transaction outlast every step but its own UPDATE and commit. -/
theorem claims_locked_step (hI : ClaimsLocked s) (h : step c s e = some u) : ClaimsLocked u := by
  obtain ⟨v, hv, hr, rfl⟩ := step_some h
  intro d ids hd j hj
  -- a row held by `d` keeps its version unless the step is one of `d`'s own
  have hkeep : ∀ {row}, (s.jobs j).held = some (.dispatcher d, row) →
      (jobEffect s e).owner ≠ some (.dispatcher d) →
      ((jobEffect s e).apply s.jobs j).held = some (.dispatcher d, row) := by
    intro row hh ho
    rw [Effect.locked_row_unchanged hr ho hh]
    exact hh
  by_cases ha : actor e = some (.dispatcher d)
  · have hm := dispatcher_moves hv ha
    change v.dispatchers d = _ at hd
    rw [hd] at hm
    generalize ho : s.dispatchers d = before at hm
    cases hm with
    | @lockDue old job now hfree hdue =>
      obtain ⟨slot, hw⟩ := Option.isSome_iff_exists.mp hdue
      obtain ⟨rfl, row, hp, hs⟩ := lockDue_some hw
      by_cases hjob : j = job
      · subst hjob
        rw [hp] at hw
        refine ⟨row, ?_, hs⟩
        simp [jobEffect, Effect.apply, Row.updateIn, Row.view_of_free hfree, hw, hp]
      · have hold : j ∈ old := by simpa [hjob] using hj
        obtain ⟨row', hh, hs'⟩ := hI d old ho j hold
        refine ⟨row', ?_, hs'⟩
        simpa [jobEffect, Effect.apply, hjob] using hh
    | nextTick => cases hj
    | stops => cases hj
  · have hsame : s.dispatchers d = .claiming ids := by
      rw [← other_dispatcher_unchanged hv ha]
      exact hd
    obtain ⟨row, hh, hs⟩ := hI d ids hsame j hj
    exact ⟨row, hkeep hh (fun ho => ha (effect_owner ho)), hs⟩

theorem claims_locked {s : State} (h : Reachable (system c) s) : ClaimsLocked s := by
  refine reachable_invariant (M := system c) ?_ (fun s e hI he => ?_) h
  · rintro _ rfl d ids hd j hj
    cases hd
    cases hj
  · exact claims_locked_step hI (ofStep_enabled he)

theorem slot_moves_trans (v₁ v₂ v₃ : JobSlot) (h : SlotMoves v₁ v₂) (k : SlotMoves v₂ v₃) :
    SlotMoves v₁ v₃ := h.trans k

theorem job_effect_moves (h : ClaimsLocked s) (hf : ∀ j, (s.jobs j).Follows SlotMoves)
    (e : Event) : (jobEffect s e).MovesBy SlotMoves s.jobs :=
  ((job_effect_steps h e).mono fun _ _ => Relation.ReflTransGen.single).moves
    (fun _ => Relation.ReflTransGen.refl) slot_moves_trans hf

/-- In a reachable state every open transaction has made listed changes only. -/
theorem rows_follow {s : State} (h : Reachable (system c) s) : ∀ j, (s.jobs j).Follows SlotMoves := by
  refine reachable_invariant_with (M := system c) (I := fun s => ∀ j, (s.jobs j).Follows SlotMoves)
    (J := ClaimsLocked) (fun _ => claims_locked) ?_ ?_ h
  · rintro _ rfl j
    exact Row.follows_settled _
  · intro s e hc hI he
    obtain ⟨v, _, hready, hu⟩ := step_some (ofStep_enabled he)
    rw [show (system c).next s e = _ from hu]
    exact Effect.follows_apply hI hready (job_effect_moves hc hI e)

/-- A step changes a committed row by listed changes only. -/
theorem committed_row_moves (hr : Reachable (system c) s) (h : step c s e = some u) (j : JobId) :
    SlotMoves (s.jobs j).committed (u.jobs j).committed := by
  obtain ⟨v, _, hready, rfl⟩ := step_some h
  have hmoves := job_effect_moves (claims_locked hr) (rows_follow hr) e
  exact Effect.committed_moves (fun _ => Relation.ReflTransGen.refl) (rows_follow hr) hready hmoves j

/-- Every statement but the deletion leaves a row behind. -/
theorem statement_writes_present {f : JobSlot → Option JobSlot} {v w : JobSlot}
    (hs : (jobEffect s e).statement j = some f) (hd : ∀ cutoff, e ≠ .deleteJob j cutoff)
    (hf : f v = some w) : ∃ job, w = .present job := by
  have hpresent : ∀ g, onPresent g v = some w → ∃ job, w = .present job := by
    intro g hg
    obtain ⟨job, new, _, _, rfl⟩ := onPresent_some hg
    exact ⟨new, rfl⟩
  cases e <;> simp only [jobEffect] at hs
  case insertJob t job input now =>
    simp only [Effect.statement, Option.ite_none_right_eq_some, Option.some.injEq] at hs
    obtain ⟨_, rfl⟩ := hs
    unfold insertJob at hf
    split at hf
    · cases hf
      exact ⟨_, rfl⟩
    · cases hf
  case deleteJob job cutoff =>
    simp only [Effect.statement, Option.ite_none_right_eq_some, Option.some.injEq] at hs
    obtain ⟨rfl, _⟩ := hs
    exact absurd rfl (hd cutoff)
  case work w we =>
    split at hs
    · rename_i k _
      cases we <;> simp only [workerEffect] at hs
      case write now =>
        split at hs
        · simp only [Effect.statement, Option.ite_none_right_eq_some, Option.some.injEq] at hs
          obtain ⟨_, rfl⟩ := hs
          exact hpresent _ hf
        · cases hs
      all_goals
        simp only [Effect.statement, Option.ite_none_right_eq_some, Option.some.injEq,
          reduceCtorEq] at hs
      all_goals
        obtain ⟨_, rfl⟩ := hs
        exact hpresent _ hf
    · cases hs
  all_goals try split at hs
  all_goals
    simp only [Effect.statement, Option.ite_none_right_eq_some, Option.some.injEq,
      reduceCtorEq, lockDue] at hs
  all_goals
    obtain ⟨_, rfl⟩ := hs
    exact hpresent _ hf

/-- No open transaction deletes a row. -/
theorem held_rows_present (h : Reachable (system c) s) :
    ∀ j t v, (s.jobs j).held = some (t, v) → ∃ job, v = .present job := by
  refine reachable_invariant (M := system c)
    (I := fun s => ∀ j t v, (s.jobs j).held = some (t, v) → ∃ job, v = .present job) ?_
    (fun s e hI he => ?_) h
  · rintro _ rfl j t v hv
    cases hv
  · intro j t v hv
    obtain ⟨m, _, hr, hu⟩ := step_some (ofStep_enabled he)
    rw [show (system c).next s e = _ from hu] at hv
    change ((jobEffect s e).apply s.jobs j).held = some (t, v) at hv
    have hrow := Effect.row_moves hr j
    generalize (jobEffect s e).apply s.jobs j = row at hrow hv
    cases hrow with
    | same => exact hI j t v hv
    | own => cases hv
    | inside hs ho _ hw =>
      simp only [Row.write_held, Option.some.injEq, Prod.mk.injEq] at hv
      obtain ⟨_, rfl⟩ := hv
      refine statement_writes_present hs ?_ hw
      rintro cutoff rfl
      cases ho
    | commit => cases hv
    | abort => cases hv

theorem committed_stays {job : MessageJob} (hr : Reachable (system c) s)
    (h : step c s e = some u) (hd : ∀ cutoff, e ≠ .deleteJob j cutoff)
    (hv : (s.jobs j).committed = .present job) : ∃ job, (u.jobs j).committed = .present job := by
  obtain ⟨m, _, hready, rfl⟩ := step_some h
  change ∃ job, ((jobEffect s e).apply s.jobs j).committed = .present job
  have hrow := Effect.row_moves hready j
  generalize (jobEffect s e).apply s.jobs j = row at hrow ⊢
  cases hrow with
  | same => exact ⟨job, hv⟩
  | own hs _ _ hw => exact statement_writes_present hs hd hw
  | inside => exact ⟨job, hv⟩
  | commit _ hh => exact held_rows_present hr j _ _ hh
  | abort => exact ⟨job, hv⟩

/-- A row that a transaction sees stays there, short of a deletion and the transaction's end. -/
theorem present_stays {t : Tx} {job : MessageJob} (hr : Reachable (system c) s)
    (h : step c s e = some u) (hd : ∀ cutoff, e ≠ .deleteJob j cutoff)
    (ht : jobEffect s e ≠ .commit t ∧ jobEffect s e ≠ .abort t)
    (hv : (s.jobs j).view t = .present job) : ∃ job, (u.jobs j).view t = .present job := by
  obtain ⟨m, _, hready, hu⟩ := step_some h
  have hjobs : u.jobs = (jobEffect s e).apply s.jobs := by rw [hu]
  by_cases ho : (jobEffect s e).owner = some t
  · rw [hjobs]
    have hrow := Effect.row_moves hready j
    generalize (jobEffect s e).apply s.jobs j = row at hrow ⊢
    cases hrow with
    | same => exact ⟨job, hv⟩
    | own _ hn => rw [hn] at ho; cases ho
    | inside hs ht' _ hw =>
      rw [ht'] at ho
      cases ho
      obtain ⟨new, rfl⟩ := statement_writes_present hs hd hw
      exact ⟨new, Row.view_of_held rfl⟩
    | commit he => rw [he] at ho; cases ho; exact absurd he ht.1
    | abort he => rw [he] at ho; cases ho; exact absurd he ht.2
  · obtain hsame | ⟨hbefore, hafter⟩ := Effect.view_of_other hready ho j
    · exact ⟨job, by rw [hjobs, hsame, hv]⟩
    · rw [hjobs, hafter, ← hjobs]
      exact committed_stays hr h hd (hbefore.symm.trans hv)

end MessageJobTransitions
