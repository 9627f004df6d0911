import WaRuntime.OutboundSendAtMostOnce

/-! Who writes the row of a message job, and what each writer makes of it.
The statements outside a transaction and those of the open transactions are listed one by one,
with what the version they read has to be; from these lists follows what an open transaction holds
a row for, and how a step changes a committed row. -/
namespace MessageRowWrites

open TransitionRuns RowVersions MessageJobStatements OutboundMessageExecution
open MessageJobTransitions OutboundSendAtMostOnce

variable {c : Config} {s u v : State} {e : Event} {es : List Event} {j : JobId} {w : ℕ}

/-- The worker has taken the row of the job and is inside `process`. -/
def Works (j : JobId) : WorkerState → Prop
  | .working k => k.job = j
  | _ => False

theorem works_iff {k : WorkerState} :
    Works j k ↔ ∃ worker, k = .working worker ∧ worker.job = j := by
  constructor
  · intro h
    cases k with
    | working worker => exact ⟨worker, rfl, h⟩
    | idle => exact absurd h id
    | starting => exact absurd h id
    | finished => exact absurd h id
  · rintro ⟨worker, rfl, h⟩
    exact h

theorem before_send_works {k : WorkerState} (h : BeforeSend j k) : Works j k := by
  cases k with
  | working worker => exact h.1
  | idle => exact absurd h id
  | starting => exact absurd h id
  | finished => exact absurd h id

/-- A worker has a row because it had it, or because it has just taken it. -/
theorem works_origin (h : step c s e = some u) (hw : Works j (u.workers w)) :
    Works j (s.workers w) ∨
      ((∃ now token, e = .markProcessing w now token) ∧ (s.jobs j).committed.AwaitsWorker ∧
        ∃ row, (u.jobs j).committed = .present row ∧ row.status = .processing) := by
  obtain ⟨v, hv, hr, rfl⟩ := step_some h
  obtain ⟨k', hk', hj⟩ := works_iff.mp hw
  obtain ⟨_, hs⟩ | ⟨we, k, rfl, hk, hm⟩ | ⟨now, token, job, row, rfl, hs, rfl, hm⟩ :=
    working_origin hv hk'
  · rw [hs]
    exact .inl hj
  · rw [hk]
    exact .inl ((worker_move_keeps hm).1.symm.trans hj)
  · obtain rfl : job = j := hj
    obtain ⟨old, new, ho, hn, hrow⟩ := onPresent_some hm
    obtain ⟨hq, hp, _⟩ := markProcessing_some hn
    cases hrow
    refine .inr ⟨⟨now, token, rfl⟩, ?_, row, ?_, hp⟩
    · rw [ho]
      exact .inr hq
    · simp [jobEffect, hs, Effect.apply, Row.update, hm]

/-- A row is taken once: one worker at most has it, and none while it is up for taking. -/
structure TakenOnce (s : State) : Prop where
  untaken : ∀ j, (s.jobs j).committed.AwaitsWorker → ∀ w, ¬ Works j (s.workers w)
  alone : ∀ j w w', Works j (s.workers w) → Works j (s.workers w') → w = w'

theorem taken_once_step (hr : Reachable (system c) s) (hI : TakenOnce s)
    (h : step c s e = some u) : TakenOnce u := by
  constructor
  · intro j ha w hw
    obtain hb | ⟨_, _, row, hrow, hp⟩ := works_origin h hw
    · exact hI.untaken j (no_return (committed_row_moves hr h j) ha) w hb
    · rw [hrow] at ha
      rcases ha with ha | ha <;> rw [hp] at ha <;> cases ha
  · intro j w w' hw hw'
    obtain hb | ⟨⟨now, token, he⟩, ha, _⟩ := works_origin h hw
    · obtain hb' | ⟨_, ha', _⟩ := works_origin h hw'
      · exact hI.alone j w w' hb hb'
      · exact absurd hb (hI.untaken j ha' w)
    · obtain hb' | ⟨⟨now', token', he'⟩, _, _⟩ := works_origin h hw'
      · exact absurd hb' (hI.untaken j ha w')
      · rw [he] at he'
        cases he'
        rfl

theorem taken_once (h : Reachable (system c) s) : TakenOnce s := by
  obtain ⟨es, h⟩ := h
  refine run_invariant (M := system c) (I := fun _ s => TakenOnce s) ?_
    (fun es s e hr hI he => ?_) h
  · rintro _ rfl
    exact ⟨fun j _ w hw => hw, fun j w w' hw => absurd hw id⟩
  · exact taken_once_step ⟨es, hr⟩ hI (ofStep_enabled he)
/-- What a statement outside any transaction makes of a row. Only a worker before its POST
refreshes the processing lease. -/
inductive OwnWrite (s : State) (j : JobId) : JobSlot → JobSlot → Prop where
  | deleted {old : MessageJob} {cutoff : ℕ} : Deletable cutoff old →
      OwnWrite s j (.present old) .deleted
  | refreshed {old new : MessageJob} {w : ℕ} : BeforeSend j (s.workers w) →
      old.status = .processing → new.status = .processing → new.leaseExpiresAt.isSome →
      new.openwaMessageId = old.openwaMessageId → OwnWrite s j (.present old) (.present new)
  | returned {old new : MessageJob} : old.status = .queued → new.status = .scheduled →
      new.openwaMessageId = old.openwaMessageId → OwnWrite s j (.present old) (.present new)
  | taken {old new : MessageJob} : old.status = .queued → new.status = .processing →
      new.leaseExpiresAt.isSome → new.openwaMessageId = old.openwaMessageId →
      OwnWrite s j (.present old) (.present new)
  | expired {old new : MessageJob} : old.status = .processing → new.status = .unknown →
      new.openwaMessageId = old.openwaMessageId → OwnWrite s j (.present old) (.present new)

theorem own_refreshed {k : Worker} {now : ℕ} {slot slot' : JobSlot} (hk : s.workers w = .working k)
    (hb : BeforePost k.phase) (hf : onPresent (refreshProcessingLease now) slot = some slot') :
    OwnWrite s k.job slot slot' := by
  obtain ⟨old, new, rfl, hn, rfl⟩ := onPresent_some hf
  obtain ⟨ho, hp⟩ := refreshProcessingLease_some hn
  unfold refreshProcessingLease at hn
  split at hn <;> cases hn
  exact .refreshed (w := w) (by rw [hk]; exact ⟨rfl, hb⟩) ho hp rfl rfl

theorem own_taken {now : ℕ} {slot slot' : JobSlot}
    (hf : onPresent (markProcessing now) slot = some slot') : OwnWrite s j slot slot' := by
  obtain ⟨old, new, rfl, hn, rfl⟩ := onPresent_some hf
  unfold markProcessing at hn
  split at hn <;> cases hn
  rename_i hq
  exact .taken hq rfl rfl rfl

/-- A statement outside any transaction is an UPDATE of one row. -/
theorem own_statement {f : JobSlot → Option JobSlot} (ho : (jobEffect s e).owner = none)
    (hs : (jobEffect s e).statement j = some f) : jobEffect s e = .update f j := by
  generalize he : jobEffect s e = effect at ho hs
  cases effect with
  | update g k =>
    simp only [Effect.statement, Option.ite_none_right_eq_some, Option.some.injEq] at hs
    rw [hs.1, hs.2]
  | updateAll g ks =>
    cases e <;> simp only [jobEffect] at he
    case work w we =>
      split at he
      · cases we <;> simp only [workerEffect] at he
        case write now => split at he <;> cases he
        all_goals cases he
      · cases he
    all_goals try split at he
    all_goals cases he
  | none => cases hs
  | updateIn => cases ho
  | updateAllIn => cases ho
  | commit => cases ho
  | abort => cases ho

theorem own_writes {f : JobSlot → Option JobSlot} {slot slot' : JobSlot}
    (hv : moveParties c s e = some v) (he : jobEffect s e = .update f j)
    (hf : f slot = some slot') : OwnWrite s j slot slot' := by
  cases e <;> simp only [jobEffect] at he
  case deleteJob job cutoff =>
    cases he
    unfold deleteJob at hf
    split at hf
    · split at hf <;> cases hf
      rename_i hd
      exact .deleted hd
    · cases hf
  case resetQueued d now =>
    split at he <;> cases he
    obtain ⟨old, new, rfl, hn, rfl⟩ := onPresent_some hf
    unfold resetQueued at hn
    split at hn <;> cases hn
    rename_i hq
    exact .returned hq rfl rfl
  case recoverStaleQueued job now =>
    cases he
    obtain ⟨old, new, rfl, hn, rfl⟩ := onPresent_some hf
    unfold recoverStaleQueued at hn
    split at hn <;> cases hn
    rename_i hq
    exact .returned hq.1 rfl rfl
  case markExpiredProcessingUnknown job now =>
    cases he
    obtain ⟨old, new, rfl, hn, rfl⟩ := onPresent_some hf
    unfold markExpiredProcessingUnknown at hn
    split at hn <;> cases hn
    rename_i hq
    exact .expired hq.1 rfl rfl
  case markProcessing w now token =>
    split at he <;> cases he
    exact own_taken hf
  case markProcessingLost w now =>
    split at he <;> cases he
    exact own_taken hf
  case work w we =>
    split at he
    · rename_i k hk
      simp only [moveParties, hk] at hv
      obtain ⟨k', hk', _⟩ := Option.map_eq_some_iff.mp hv
      have hm := worker_moves hk'
      cases we <;> simp only [workerEffect] at he
      case refreshWhileWaiting now =>
        cases he
        refine own_refreshed hk ?_ hf
        cases hm with
        | refreshed hp => exact hp ▸ trivial
        | skips hp =>
          obtain ⟨_, _, hp⟩ | ⟨hne, _⟩ | ⟨hne, _⟩ := hp
          · exact hp ▸ trivial
          · cases hne
          · cases hne
      case confirmProcessing now =>
        cases he
        refine own_refreshed hk ?_ hf
        cases hm with
        | confirmed hp => exact hp ▸ trivial
        | skips hp =>
          obtain ⟨hne, _⟩ | ⟨_, hp⟩ | ⟨hne, _⟩ := hp
          · cases hne
          · exact hp ▸ trivial
          · cases hne
      case verifyProcessing now =>
        cases he
        refine own_refreshed hk ?_ hf
        cases hm with
        | verified hp => exact hp ▸ trivial
        | skips hp =>
          obtain ⟨hne, _⟩ | ⟨hne, _⟩ | ⟨_, hp⟩ := hp
          · cases hne
          · cases hne
          · exact hp ▸ trivial
      case write now => split at he <;> cases he
      all_goals cases he
    · cases he
  all_goals try split at he
  all_goals cases he

/-- What a statement of an open transaction makes of the version that the transaction sees. -/
inductive InsideWrite (s : State) (e : Event) (j : JobId) : Tx → JobSlot → JobSlot → Prop where
  | created {t : Tx} {new : MessageJob} : t.External → new.status = .scheduled →
      new.openwaMessageId = none → InsideWrite s e j t .unused (.present new)
  | cancelled {t : Tx} {old new : MessageJob} : t.External → old.status.AwaitsWorker →
      new.status = .cancelled → new.openwaMessageId = old.openwaMessageId →
      InsideWrite s e j t (.present old) (.present new)
  | acknowledged {n : ℕ} {old new : MessageJob} : old.openwaMessageId ≠ none →
      WebhookOverwrites new.status old.status → new.openwaMessageId = old.openwaMessageId →
      InsideWrite s e j (.webhook n) (.present old) (.present new)
  | locked {d : ℕ} {old : MessageJob} : old.status = .scheduled →
      InsideWrite s e j (.dispatcher d) (.present old) (.present old)
  | queued {d : ℕ} {old new : MessageJob} : old.status = .scheduled → new.status = .queued →
      new.openwaMessageId = old.openwaMessageId →
      InsideWrite s e j (.dispatcher d) (.present old) (.present new)
  | recorded {w now : ℕ} {k : Worker} {result : Result} {written : Bool} {old new : MessageJob} :
      e = .work w (.write now) → s.workers w = .working k → k.job = j →
      k.phase.result = some (result, written) → old.status = .processing →
      new.status = result.status →
      new.openwaMessageId = result.openwaMessageId.or old.openwaMessageId →
      InsideWrite s e j (.worker w) (.present old) (.present new)

theorem inside_writes {t : Tx} {f : JobSlot → Option JobSlot} {slot : JobSlot}
    (hr : Reachable (system c) s) (hv : moveParties c s e = some v)
    (ho : (jobEffect s e).owner = some t) (hs : (jobEffect s e).statement j = some f)
    (hf : f ((s.jobs j).view t) = some slot) : InsideWrite s e j t ((s.jobs j).view t) slot := by
  generalize hview : (s.jobs j).view t = seen at hf ⊢
  cases e <;> simp only [jobEffect] at ho hs
  case insertJob t job input now =>
    simp only [Effect.statement, Option.ite_none_right_eq_some, Option.some.injEq] at hs
    obtain ⟨rfl, rfl⟩ := hs
    cases ho
    unfold insertJob at hf
    split at hf <;> cases hf
    exact .created (guarded_eq_some.mp hv).1.1 rfl rfl
  case cancelJob t job now =>
    simp only [Effect.statement, Option.ite_none_right_eq_some, Option.some.injEq] at hs
    obtain ⟨rfl, rfl⟩ := hs
    cases ho
    obtain ⟨old, new, rfl, hn, rfl⟩ := onPresent_some hf
    obtain ⟨ha, hc⟩ := cancelJob_some hn
    unfold cancelJob at hn
    split at hn <;> cases hn
    exact .cancelled (guarded_eq_some.mp hv).1.1 ha hc rfl
  case webhookStatus n job mid status now =>
    simp only [Effect.statement, Option.ite_none_right_eq_some, Option.some.injEq] at hs
    obtain ⟨rfl, rfl⟩ := hs
    cases ho
    obtain ⟨old, new, rfl, hn, rfl⟩ := onPresent_some hf
    obtain ⟨hid, hov, rfl⟩ := updateStatusByOpenWAMessageId_some hn
    exact .acknowledged (by rw [hid]; simp) hov rfl
  case lockDue d job now =>
    simp only [Effect.statement, Option.ite_none_right_eq_some, Option.some.injEq] at hs
    obtain ⟨rfl, rfl⟩ := hs
    cases ho
    obtain ⟨rfl, row, rfl, hq⟩ := lockDue_some hf
    exact .locked hq
  case queueClaimed d now =>
    split at hs
    · rename_i ids hd
      simp only [Effect.statement, Option.ite_none_right_eq_some, Option.some.injEq] at hs
      obtain ⟨hj, rfl⟩ := hs
      rw [hd] at ho
      cases ho
      obtain ⟨row, hh, hq⟩ := claims_locked hr d ids hd j hj
      rw [Row.view_of_held hh] at hview
      subst hview
      cases hf
      exact .queued hq rfl rfl
    · cases hs
  case work w we =>
    split at hs
    · rename_i k hk
      rw [hk] at ho
      cases we <;> simp only [workerEffect] at hs ho
      case write now =>
        split at hs
        · rename_i result written hres
          simp only [Effect.statement, Option.ite_none_right_eq_some, Option.some.injEq] at hs
          obtain ⟨rfl, rfl⟩ := hs
          rw [hres] at ho
          cases ho
          obtain ⟨old, new, rfl, hn, rfl⟩ := onPresent_some hf
          obtain ⟨hp, hst⟩ := updateResult_some hn
          rw [updateResult, if_pos hp] at hn
          cases hn
          exact .recorded rfl hk rfl hres hp hst rfl
        · cases hs
      all_goals cases ho
      all_goals cases hs
    · cases hs
  all_goals try split at ho
  all_goals cases ho
  all_goals cases hs

/-- A worker that has written its result ends the transaction next. -/
theorem written_ends {k : Worker} {we : WorkerEvent} {target : WorkerState} {result : Result}
    (hm : WorkerMove c s k we target) (hr : k.phase.result = some (result, true)) :
    workerEffect w k we = .commit (.worker w) ∨ workerEffect w k we = .abort (.worker w) := by
  cases hm with
  | commit => exact .inl rfl
  | commitLost => exact .inl rfl
  | throws => exact .inr rfl
  | write hw =>
    rw [hr] at hw
    cases hw
  | skips hp =>
    obtain ⟨_, _, hp⟩ | ⟨_, hp⟩ | ⟨_, hp⟩ := hp <;> rw [hp] at hr <;> cases hr
  | _ hp => rw [hp] at hr; cases hr

/-- What an open transaction holds a row for. -/
inductive Holds (s : State) (j : JobId) : Tx → JobSlot → Prop where
  | worker {w : ℕ} {k : Worker} {result : Result} {row : MessageJob} :
      s.workers w = .working k → k.job = j → k.phase.result = some (result, true) →
      row.status = result.status →
      (∃ old, (s.jobs j).committed = .present old ∧ old.status = .processing) →
      Holds s j (.worker w) (.present row)
  | dispatcher {d : ℕ} {row : MessageJob} : row.status.AwaitsWorker →
      Holds s j (.dispatcher d) (.present row)
  | external {t : Tx} {row : MessageJob} : t.External →
      ((s.jobs j).committed.AwaitsWorker ∨
        ∃ old, (s.jobs j).committed = .present old ∧ old.openwaMessageId ≠ none ∧
          row.openwaMessageId = old.openwaMessageId) →
      Holds s j t (.present row)

theorem holds_step {t : Tx} {slot : JobSlot} (hr : Reachable (system c) s)
    (hI : ∀ j t slot, (s.jobs j).held = some (t, slot) → Holds s j t slot)
    (h : step c s e = some u) (hh : (u.jobs j).held = some (t, slot)) : Holds u j t slot := by
  obtain ⟨v, hv, hready, rfl⟩ := step_some h
  change ((jobEffect s e).apply s.jobs j).held = some (t, slot) at hh
  have hrow := Effect.row_moves hready j
  generalize hap : (jobEffect s e).apply s.jobs j = row at hrow hh
  cases hrow with
  | same hends =>
    have hold := hI j t slot hh
    cases hold with
    | @worker w k result row hk hj hres hst hold =>
      obtain ⟨hsame, _⟩ | ⟨we, rfl, hm⟩ | ⟨rfl, _⟩ := working_next hv hk
      · refine .worker hsame hj hres hst ?_
        change ∃ old, ((jobEffect s e).apply s.jobs j).committed = .present old ∧ _
        rw [hap]
        exact hold
      · have heffect : jobEffect s (.work w we) = workerEffect w k we := by
          simp only [jobEffect, hk]
        obtain he | he := written_ends (w := w) hm hres
        · exact absurd hh (hends _ (.inl (heffect.trans he)) _)
        · exact absurd hh (hends _ (.inr (heffect.trans he)) _)
      · exact absurd hh (hends _ (.inr rfl) _)
    | dispatcher ha => exact .dispatcher ha
    | external hx hc =>
      refine .external hx ?_
      change ((jobEffect s e).apply s.jobs j).committed.AwaitsWorker ∨
        ∃ old, ((jobEffect s e).apply s.jobs j).committed = .present old ∧ _
      rw [hap]
      exact hc
  | own => cases hh
  | @inside t' f slot' hs ho hfree hf =>
    have hw := inside_writes hr hv ho hs hf
    simp only [Row.write_held, Option.some.injEq, Prod.mk.injEq] at hh
    obtain ⟨rfl, rfl⟩ := hh
    have hkept : ((jobEffect s e).apply s.jobs j).committed = (s.jobs j).committed := by
      rw [hap]
      rfl
    -- an external transaction that already holds the row had its reason then
    have hexternal : ∀ {old new : MessageJob}, t'.External →
        (s.jobs j).view t' = .present old →
        (old.status.AwaitsWorker ∨ old.openwaMessageId ≠ none) →
        new.openwaMessageId = old.openwaMessageId →
        Holds { v with jobs := (jobEffect s e).apply s.jobs } j t' (.present new) := by
      intro old new hx hview hreason hid
      refine .external hx ?_
      change ((jobEffect s e).apply s.jobs j).committed.AwaitsWorker ∨
        ∃ old, ((jobEffect s e).apply s.jobs j).committed = .present old ∧ _
      rw [hkept, hid]
      obtain hnone | ⟨seen, hseen⟩ := Row.free_for_cases hfree
      · rw [Row.view_of_free hnone] at hview
        rw [hview]
        obtain ha | hne := hreason
        · exact .inl ha
        · exact .inr ⟨old, rfl, hne, rfl⟩
      · rw [Row.view_of_held hseen] at hview
        subst hview
        cases hI j t' _ hseen with
        | worker => exact absurd hx id
        | dispatcher => exact absurd hx id
        | external _ hc => exact hc
    generalize hview : (s.jobs j).view t' = seen at hw
    cases hw with
    | created hx =>
      obtain hnone | ⟨seen, hseen⟩ := Row.free_for_cases hfree
      · rw [Row.view_of_free hnone] at hview
        refine .external hx (.inl ?_)
        change ((jobEffect s e).apply s.jobs j).committed.AwaitsWorker
        rw [hkept, hview]
        trivial
      · rw [Row.view_of_held hseen] at hview
        subst hview
        cases hI j t' _ hseen
    | cancelled hx ha _ hid => exact hexternal hx hview (.inl ha) hid
    | acknowledged hne _ hid => exact hexternal trivial hview (.inr hne) hid
    | locked hq => exact .dispatcher (.inl hq)
    | queued _ hq => exact .dispatcher (.inr hq)
    | @recorded w now k result written old new he hk hj hres hp hst =>
      subst he
      obtain ⟨_, hne, _⟩ | ⟨we, hwe, hm⟩ | ⟨hcrash, _⟩ := working_next hv hk
      · exact absurd rfl (hne _)
      · cases hwe
        generalize ht : v.workers w = target at hm
        cases hm with
        | write hres' =>
          refine .worker ht hj (?_ : _ = some (result, true)) hst ?_
          · cases hphase : k.phase <;> simp [hphase, Phase.result] at hres <;>
              simp [Phase.wrote, Phase.result, hres]
          · change ∃ old, ((jobEffect s (.work w (.write now))).apply s.jobs j).committed = _ ∧ _
            rw [hkept]
            obtain hnone | ⟨seen, hseen⟩ := Row.free_for_cases hfree
            · rw [Row.view_of_free hnone] at hview
              exact ⟨old, hview, hp⟩
            · rw [Row.view_of_held hseen] at hview
              subst hview
              cases hI j _ _ hseen with
              | @worker _ _ written _ _ _ _ hrec =>
                have hstatus := written.recorded
                rw [← hrec, hp] at hstatus
                simp at hstatus
              | external hx => exact absurd hx id
        | skips hp => simp at hp
      · cases hcrash
  | commit => cases hh
  | abort => cases hh

theorem holds (h : Reachable (system c) s) :
    ∀ j t slot, (s.jobs j).held = some (t, slot) → Holds s j t slot := by
  obtain ⟨es, h⟩ := h
  refine run_invariant (M := system c)
    (I := fun _ s => ∀ j t slot, (s.jobs j).held = some (t, slot) → Holds s j t slot) ?_
    (fun es s e hr hI he => ?_) h
  · rintro _ rfl j t slot hh
    cases hh
  · exact fun j t slot => holds_step ⟨es, hr⟩ hI (ofStep_enabled he)

/-- How a step changes the committed version of a row. -/
inductive CommittedStep (s : State) (e : Event) (j : JobId) : JobSlot → Prop where
  | same : CommittedStep s e j (s.jobs j).committed
  | own {slot : JobSlot} : OwnWrite s j (s.jobs j).committed slot → CommittedStep s e j slot
  | commit {t : Tx} {slot : JobSlot} : jobEffect s e = .commit t →
      (s.jobs j).held = some (t, slot) → Holds s j t slot → CommittedStep s e j slot

theorem committed_step (hr : Reachable (system c) s) (h : step c s e = some u) (j : JobId) :
    CommittedStep s e j (u.jobs j).committed := by
  obtain ⟨v, hv, hready, rfl⟩ := step_some h
  change CommittedStep s e j ((jobEffect s e).apply s.jobs j).committed
  have hrow := Effect.row_moves hready j
  generalize (jobEffect s e).apply s.jobs j = row at hrow ⊢
  cases hrow with
  | same => exact .same
  | own hs ho _ hf => exact .own (own_writes hv (own_statement ho hs) hf)
  | inside => exact .same
  | commit he hh => exact .commit he hh (holds hr j _ _ hh)
  | abort => exact .same

theorem step_of_parties (hv : moveParties c s e = some v) (hr : (jobEffect s e).Ready s.jobs) :
    step c s e = some { v with jobs := (jobEffect s e).apply s.jobs } := by
  simp only [step, hv, guarded, if_pos hr]

end MessageRowWrites
