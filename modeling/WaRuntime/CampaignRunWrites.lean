import WaRuntime.CampaignRunTransitions

/-! The statements that write a campaign run after its creation, with the stage of the transaction
they belong to. -/
namespace CampaignRunWrites

open TransitionRuns RowVersions CampaignRunStatements CampaignExecution
open OutboundMessageExecution (Tx Config)

variable {s : State} {e : Event} {n : ℕ} {run : RunId} {f : RunSlot → Option RunSlot}
  {v w : RunSlot}

inductive RunWrite (s : State) : Event → RunId → (CampaignRun → Option CampaignRun) → Prop where
  | claim {run now token : ℕ} :
      RunWrite s (.claimPreparation run now token) run (claimPreparation now token)
  | recover {run now : ℕ} :
      RunWrite s (.recoverExpiredPreparation run now) run (recoverExpiredPreparation now)
  | fail {run now token : ℕ} {error : String} :
      RunWrite s (.failPreparationAttempt run now token error) run
        (failPreparationAttempt now token error)
  | activate {run now : ℕ} : RunWrite s (.activateDue run now) run (activateDue now)
  | pause {run now : ℕ} : RunWrite s (.pause run now) run (pause now)
  | recordBlocked {run now : ℕ} :
      RunWrite s (.recordBlockedResume run now) run (recordBlockedResume now)
  | locked {n : ℕ} {event : TxEvent} {run : RunId} : RunWrite s (.tx n event) run some
  | releaseStale {n now token : ℕ} {ev : Evaluation} : s.txs n = .stale (.preparation token) ev →
      RunWrite s (.tx n (.releaseStale now)) ev.run (releaseStaleAttempt now token)
  | applyBlocked {n now token : ℕ} {ev : Evaluation} :
      s.txs n = .checked (.preparation token) ev →
      RunWrite s (.tx n (.applyBlocked now)) ev.run fun r => some (applyBlocked now r)
  | applyReady {n now date token : ℕ} {ev : Evaluation} :
      s.txs n = .inserted (.preparation token) ev →
      RunWrite s (.tx n (.writeRun now date)) ev.run fun r =>
        some (applyReady now date ev.preflight r)
  | resume {n now date : ℕ} {ev : Evaluation} : s.txs n = .inserted .resume ev →
      RunWrite s (.tx n (.writeRun now date)) ev.run fun r => some (resume now date ev.preflight r)
  | cancel {n now : ℕ} {run : RunId} : s.txs n = .cancellingDeliveries run [] →
      RunWrite s (.tx n (.writeCancelled now)) run fun r => some (cancel now r)
  | pauseUnsendable {n now maxBuffered : ℕ} {run : RunId} {sendable : Bool} :
      s.txs n = .materializeLocked run maxBuffered sendable →
      RunWrite s (.tx n (.pauseUnsendable now)) run (pauseUnsendable now)
  | finalize {n now : ℕ} {run : RunId} {hasFailure : Bool} {rest : List (RunId × Bool)} :
      s.txs n = .finalizing ((run, hasFailure) :: rest) →
      RunWrite s (.tx n (.finalizeRow now)) run fun r => some (finalize now hasFailure r)

theorem tx_run_write {event : TxEvent} (hs : (txRunEffect s n (s.txs n) event).statement run = some f) :
    ∃ g, f = onRun g ∧ RunWrite s (.tx n event) run g := by
  generalize hstage : s.txs n = k at hs
  unfold txRunEffect at hs
  split at hs
  case h_1 =>
    split at hs
    · simp only [Effect.statement, Option.ite_none_right_eq_some, Option.some.injEq] at hs
      exact ⟨some, hs.2.symm, .locked⟩
    · cases hs
  all_goals
    simp only [Effect.statement, Option.ite_none_right_eq_some, Option.some.injEq,
      reduceCtorEq] at hs
  all_goals obtain ⟨rfl, rfl⟩ := hs
  case h_2 | h_7 | h_9 => exact ⟨_, rfl, .locked⟩
  case h_3 => exact ⟨_, rfl, .releaseStale hstage⟩
  case h_4 => exact ⟨_, rfl, .applyBlocked hstage⟩
  case h_5 => exact ⟨_, rfl, .applyReady hstage⟩
  case h_6 => exact ⟨_, rfl, .resume hstage⟩
  case h_8 => exact ⟨_, rfl, .cancel hstage⟩
  case h_10 => exact ⟨_, rfl, .pauseUnsendable hstage⟩
  case h_11 => exact ⟨_, rfl, .finalize hstage⟩

/-- A statement on a run row creates it, deletes it, or is one of the writes. -/
theorem run_write (hs : (runEffect s e).statement run = some f) (hf : f v = some w) :
    (∃ input now, e = .createRun run input now ∧ v = .unused ∧
        w = .present (createRun now input)) ∨
      (∃ cutoff, e = .deleteRun run cutoff ∧ w = .deleted) ∨
        ∃ g old new, RunWrite s e run g ∧ v = .present old ∧ g old = some new ∧
          w = .present new := by
  have hwrite : ∀ g, f = onRun g → RunWrite s e run g →
      ∃ g old new, RunWrite s e run g ∧ v = .present old ∧ g old = some new ∧ w = .present new := by
    rintro g rfl hg
    cases v with
    | present old =>
      obtain ⟨new, hnew, rfl⟩ := Option.map_eq_some_iff.mp hf
      exact ⟨g, old, new, hg, rfl, hnew, rfl⟩
    | unused => cases hf
    | deleted => cases hf
  cases e <;> simp only [runEffect] at hs
  case tx n event =>
    obtain ⟨g, hg, hw⟩ := tx_run_write hs
    exact .inr (.inr (hwrite g hg hw))
  all_goals
    simp only [Effect.statement, Option.ite_none_right_eq_some, Option.some.injEq,
      reduceCtorEq] at hs
  case createRun id input now =>
    obtain ⟨rfl, rfl⟩ := hs
    cases v <;> cases hf
    exact .inl ⟨input, now, rfl, rfl, rfl⟩
  case deleteRun id cutoff =>
    obtain ⟨rfl, rfl⟩ := hs
    cases v <;> simp only [deleteRunSlot, Option.ite_none_right_eq_some, Option.some.injEq,
      reduceCtorEq] at hf
    exact .inr (.inl ⟨cutoff, rfl, hf.2.symm⟩)
  all_goals obtain ⟨rfl, rfl⟩ := hs
  case claimPreparation => exact .inr (.inr (hwrite _ rfl .claim))
  case recoverExpiredPreparation => exact .inr (.inr (hwrite _ rfl .recover))
  case failPreparationAttempt => exact .inr (.inr (hwrite _ rfl .fail))
  case activateDue => exact .inr (.inr (hwrite _ rfl .activate))
  case pause => exact .inr (.inr (hwrite _ rfl .pause))
  case recordBlockedResume => exact .inr (.inr (hwrite _ rfl .recordBlocked))

end CampaignRunWrites
