import WaRuntime.OutboundMessageExecution

/-! Webhooks for a message that race with the worker's ACCEPTED result.
The webhook transaction finds the job by `openwa_message_id`, which only the result transaction
stores, and it is marked processed whether or not it found the job. What was committed before the
result is therefore dropped; what comes after it is ranked. -/
namespace DeliveryEvidence

open TransitionRuns RowVersions MessageJobStatements OpenWARequest OutboundMessageExecution

inductive WebhookEvent where
  | ack (status : String)
  | sent
  | failed
  deriving DecidableEq, Repr

/-- `webhookStatus` of the webhook processor, for the three events that carry a message id. -/
def webhookStatus : WebhookEvent → Option MessageJobStatus
  | .sent => some .sent
  | .failed => some .failed
  | .ack status =>
    let status := status.toLower
    if status = "sent" then some .sent
    else if status = "delivered" then some .delivered
    else if status = "read" then some .read
    else if status = "failed" then some .failed
    else none

def statuses (ws : List WebhookEvent) : List MessageJobStatus := ws.filterMap webhookStatus

theorem statuses_are_evidence {ws : List WebhookEvent} {status : MessageJobStatus}
    (h : status ∈ statuses ws) : status ∈ [.sent, .delivered, .read, .failed] := by
  obtain ⟨event, _, he⟩ := List.mem_filterMap.mp h
  cases event with
  | ack text =>
    simp only [webhookStatus] at he
    split at he
    · cases he
      decide
    · split at he
      · cases he
        decide
      · split at he
        · cases he
          decide
        · split at he
          · cases he
            decide
          · cases he
  | sent =>
    cases he
    decide
  | failed =>
    cases he
    decide

/-- The status a row has after the webhook update, whether or not the update matches. -/
def overwrite (stored status : MessageJobStatus) : MessageJobStatus :=
  if WebhookOverwrites status stored then status else stored

def further (best status : MessageJobStatus) : MessageJobStatus :=
  if status ≠ .failed ∧ acknowledgementRank best < acknowledgementRank status then status else best

/-- The furthest of ACCEPTED and the acknowledged statuses, in the order of their ranks. -/
def furthest (ss : List MessageJobStatus) : MessageJobStatus := ss.foldl further .accepted

theorem further_fold_spec (ss : List MessageJobStatus) (best : MessageJobStatus) :
    (ss.foldl further best = best ∨ ss.foldl further best ∈ ss) ∧
      acknowledgementRank best ≤ acknowledgementRank (ss.foldl further best) ∧
      (∀ s ∈ ss, s ≠ .failed →
        acknowledgementRank s ≤ acknowledgementRank (ss.foldl further best)) ∧
      (best ≠ .failed → ss.foldl further best ≠ .failed) := by
  induction ss generalizing best with
  | nil => simp
  | cons x ss ih =>
    obtain ⟨hmem, hle, hall, hne⟩ := ih (further best x)
    have hx : (further best x = best ∨ further best x = x) ∧
        acknowledgementRank best ≤ acknowledgementRank (further best x) ∧
        (x ≠ .failed → acknowledgementRank x ≤ acknowledgementRank (further best x)) ∧
        (best ≠ .failed → further best x ≠ .failed) := by
      unfold further
      split
      · rename_i h
        exact ⟨.inr rfl, h.2.le, fun _ => le_rfl, fun _ => h.1⟩
      · rename_i h
        exact ⟨.inl rfl, le_rfl, fun hx => not_lt.mp fun hlt => h ⟨hx, hlt⟩, id⟩
    obtain ⟨hx, hbest, hrank, hfail⟩ := hx
    simp only [List.foldl_cons, List.mem_cons]
    refine ⟨?_, hbest.trans hle, ?_, fun h => hne (hfail h)⟩
    · rcases hmem with hm | hm
      · rcases hx with hx | hx
        · exact .inl (hm.trans hx)
        · exact .inr (.inl (hm.trans hx))
      · exact .inr (.inr hm)
    · rintro s (rfl | hs) hf
      · exact (hrank hf).trans hle
      · exact hall s hs hf

/-- `furthest` is a maximum: it is one of the candidates and none of them ranks above it. -/
theorem furthest_is_maximum (ss : List MessageJobStatus) :
    (furthest ss = .accepted ∨ furthest ss ∈ ss) ∧ furthest ss ≠ .failed ∧
      acknowledgementRank .accepted ≤ acknowledgementRank (furthest ss) ∧
      ∀ s ∈ ss, s ≠ .failed → acknowledgementRank s ≤ acknowledgementRank (furthest ss) := by
  obtain ⟨hmem, hle, hall, hne⟩ := further_fold_spec ss .accepted
  exact ⟨hmem, hne (by decide), hle, hall⟩

/-- Past ACCEPTED a failure changes nothing, and an acknowledgement counts by its rank. -/
theorem overwrite_acknowledged {stored status : MessageJobStatus}
    (h : stored ∈ [.sent, .delivered, .read]) (hs : status ∈ [.sent, .delivered, .read, .failed]) :
    overwrite stored status = further stored status ∧
      further stored status ∈ [.sent, .delivered, .read] := by
  simp only [List.mem_cons, List.not_mem_nil, or_false] at h hs
  rcases h with rfl | rfl | rfl <;> rcases hs with rfl | rfl | rfl | rfl <;> decide

theorem fold_acknowledged {ss : List MessageJobStatus} {stored : MessageJobStatus}
    (h : stored ∈ [.sent, .delivered, .read])
    (hs : ∀ s ∈ ss, s ∈ [.sent, .delivered, .read, .failed]) :
    ss.foldl overwrite stored = ss.foldl further stored := by
  induction ss generalizing stored with
  | nil => rfl
  | cons x ss ih =>
    obtain ⟨he, hm⟩ := overwrite_acknowledged h (hs x (by simp))
    simp only [List.foldl_cons, he]
    exact ih hm fun s hx => hs s (by simp [hx])

theorem fold_failed (ss : List MessageJobStatus) : ss.foldl overwrite .failed = .failed := by
  induction ss with
  | nil => rfl
  | cons x ss ih =>
    have hx : overwrite .failed x = .failed := by simp [overwrite, WebhookOverwrites]
    simpa [hx] using ih

/-- From ACCEPTED, a failure that comes first stands for good; any other sequence ends at the
furthest acknowledged status. -/
theorem fold_accepted {ss : List MessageJobStatus}
    (hs : ∀ s ∈ ss, s ∈ [.sent, .delivered, .read, .failed]) :
    ss.foldl overwrite .accepted = if ss.head? = some .failed then .failed else furthest ss := by
  cases ss with
  | nil => rfl
  | cons x ss =>
    have hrest : ∀ s ∈ ss, s ∈ [.sent, .delivered, .read, .failed] := fun s h => hs s (by simp [h])
    have hx : x ∈ [.sent, .delivered, .read] ∨ x = .failed := by
      have := hs x (by simp)
      simp only [List.mem_cons, List.not_mem_nil, or_false] at this ⊢
      tauto
    rcases hx with hx | rfl
    · have ha : overwrite .accepted x = x ∧ further .accepted x = x ∧ x ≠ .failed := by
        simp only [List.mem_cons, List.not_mem_nil, or_false] at hx
        rcases hx with rfl | rfl | rfl <;> decide
      simp only [List.foldl_cons, furthest, ha.1, ha.2.1, List.head?_cons, Option.some.injEq,
        ha.2.2, if_false]
      exact fold_acknowledged hx hrest
    · have ha : overwrite .accepted .failed = .failed := by decide
      simp only [List.foldl_cons, ha, List.head?_cons, if_true]
      exact fold_failed ss

/-- The events after the result say the same as all of them: both begin with a failure, or
neither does and the furthest status is among the later ones. -/
def KeepsEvidence (all late : List MessageJobStatus) : Prop :=
  (late.head? = some .failed ↔ all.head? = some .failed) ∧
    (all.head? ≠ some .failed → furthest late = furthest all)

theorem same_status_iff {all late : List MessageJobStatus}
    (ha : ∀ s ∈ all, s ∈ [.sent, .delivered, .read, .failed])
    (hl : ∀ s ∈ late, s ∈ [.sent, .delivered, .read, .failed]) :
    late.foldl overwrite .accepted = all.foldl overwrite .accepted ↔ KeepsEvidence all late := by
  rw [fold_accepted ha, fold_accepted hl]
  have hnl := (furthest_is_maximum late).2.1
  have hna := (furthest_is_maximum all).2.1
  unfold KeepsEvidence
  by_cases h : all.head? = some .failed <;> by_cases k : late.head? = some .failed
  · simp [h, k]
  · simp [h, k, hnl]
  · simp [h, k, Ne.symm hna]
  · simp [h, k]

section Runs

variable {c : Config} {s : State} {w : ℕ} {job : JobId} {m : String} {row : MessageJob}

/-- The job's part of one webhook transaction. -/
def webhookTransaction (clock : ℕ) (job : JobId) (m : String) (event : WebhookEvent) : List Event :=
  match webhookStatus event with
  | none => []
  | some status => [.webhookStatus 0 job m status clock, .commit (.webhook 0)]

def resultTransaction (clock w : ℕ) : List Event := [.work w (.write clock), .work w .commit]

/-- The webhook transactions in order, with the result transaction after the first `k` of them. -/
def interleaving (clock w : ℕ) (job : JobId) (m : String) (ws : List WebhookEvent) (k : ℕ) :
    List Event :=
  (ws.take k).flatMap (webhookTransaction clock job m) ++ resultTransaction clock w ++
    (ws.drop k).flatMap (webhookTransaction clock job m)

/-- The POST of `job` returned the message id `m` and its result is still to be recorded. -/
structure Posted (s : State) (w : ℕ) (job : JobId) (m : String) (row : MessageJob) : Prop where
  worker : ∃ k, s.workers w = .working k ∧ k.job = job ∧ k.phase = .accepting (.accepted m) false
  settled : s.jobs job = Row.settled (.present row)
  processing : row.status = .processing
  unlinked : row.openwaMessageId ≠ some m

def observe (now : ℕ) (m : String) (row : MessageJob) (event : WebhookEvent) : MessageJob :=
  match webhookStatus event with
  | none => row
  | some status => (updateStatusByOpenWAMessageId now m status row).getD row

/-- One webhook transaction on a job row that nothing holds. -/
theorem webhook_transaction_runs (event : WebhookEvent)
    (h : s.jobs job = Row.settled (.present row)) :
    let es := webhookTransaction s.clock job m event
    ValidTrace (system c) s es ∧
      (runTrace (system c) s es).jobs job = Row.settled (.present (observe s.clock m row event)) ∧
      (runTrace (system c) s es).workers = s.workers ∧
      (runTrace (system c) s es).clock = s.clock := by
  intro es
  cases hs : webhookStatus event with
  | none =>
    have he : es = [] := by simp [es, webhookTransaction, hs]
    simp [he, ValidTrace, runTrace, observe, hs, h]
  | some status =>
    have he : es = [.webhookStatus 0 job m status s.clock, .commit (.webhook 0)] := by
      simp [es, webhookTransaction, hs]
    let f := onPresent (updateStatusByOpenWAMessageId s.clock m status)
    let s₁ := { s with jobs := s.jobs.updateIn (.webhook 0) f job }
    let s₂ := { s₁ with jobs := s₁.jobs.commit (.webhook 0) }
    have h₁ : step c s (.webhookStatus 0 job m status s.clock) = some s₁ := by
      have hr : (s.jobs job).ReadyIn (.webhook 0) f := by
        rw [h]
        exact .inl trivial
      simp [step, moveParties, guarded, jobEffect, Effect.Ready, Effect.apply, s₁, f, hr]
    have h₂ : step c s₁ (.commit (.webhook 0)) = some s₂ := by
      simp [step, moveParties, guarded, jobEffect, Effect.Ready, Effect.apply, s₂, Tx.External]
    obtain ⟨e₁, n₁⟩ := ofStep_of_some (· = initial) h₁
    obtain ⟨e₂, n₂⟩ := ofStep_of_some (· = initial) h₂
    have hrun : runTrace (system c) s es = s₂ := by
      rw [he]
      simp only [runTrace, system, n₁, n₂]
    refine ⟨?_, ?_, ?_, ?_⟩
    · rw [he]
      refine ⟨e₁, ?_, trivial⟩
      simp only [system, n₁]
      exact e₂
    · rw [hrun]
      simp only [s₂, s₁, Table.commit_apply, Table.updateIn_same, h, Row.updateIn, observe, hs, f]
      cases hu : updateStatusByOpenWAMessageId s.clock m status row with
      | none => simp [Row.view, Row.settled, onPresent, hu, Row.commit]
      | some new => simp [Row.view, Row.settled, onPresent, hu, Row.commit, Row.write]
    · rw [hrun]
    · rw [hrun]

theorem webhooks_run (ws : List WebhookEvent) (h : s.jobs job = Row.settled (.present row)) :
    let es := ws.flatMap (webhookTransaction s.clock job m)
    ValidTrace (system c) s es ∧
      (runTrace (system c) s es).jobs job =
        Row.settled (.present (ws.foldl (observe s.clock m) row)) ∧
      (runTrace (system c) s es).workers = s.workers ∧
      (runTrace (system c) s es).clock = s.clock := by
  induction ws generalizing s row with
  | nil => exact ⟨trivial, h, rfl, rfl⟩
  | cons event ws ih =>
    obtain ⟨hv, hj, hw, hc⟩ := webhook_transaction_runs (c := c) (m := m) event h
    obtain ⟨hv', hj', hw', hc'⟩ := ih hj
    rw [hc] at hv' hj' hw' hc'
    simp only [List.flatMap_cons, valid_trace_append, runTrace_append, List.foldl_cons]
    exact ⟨⟨hv, hv'⟩, hj', hw'.trans hw, hc'⟩

/-- The result transaction of a posted job stores the message id together with ACCEPTED. -/
theorem result_transaction_runs (h : Posted s w job m row) :
    let es := resultTransaction s.clock w
    ∃ new, ValidTrace (system c) s es ∧
      (runTrace (system c) s es).jobs job = Row.settled (.present new) ∧
      (runTrace (system c) s es).clock = s.clock ∧
      new.status = .accepted ∧ new.openwaMessageId = some m := by
  obtain ⟨⟨k, hk, rfl, hp⟩, hj, hproc, _⟩ := h
  intro es
  let f := onPresent (updateResult s.clock (.accepted m))
  let k₁ : Worker := { k with phase := .accepting (.accepted m) true }
  let k₂ : Worker := { k with phase := .releasing (.finish .completed) }
  let s₁ : State := { s with
    jobs := s.jobs.updateIn (.worker w) f k.job
    leases := Function.update s.leases k.row.sessionId (s.leases k.row.sessionId)
    workers := Function.update s.workers w (.working k₁) }
  have hr : (s.jobs k.job).ReadyIn (.worker w) f := by
    rw [hj]
    exact .inl trivial
  have h₁ : step c s (.work w (.write s.clock)) = some s₁ := by
    simp [step, moveParties, hk, workerNext, hp, Phase.result, guarded, jobEffect, workerEffect,
      Effect.Ready, Effect.apply, leaseAfter, s₁, f, hr, State.setWorker, State.setLease,
      Worker.withPhase, Phase.wrote, k₁]
  let s₂ : State := { s₁ with
    jobs := s₁.jobs.commit (.worker w)
    leases := Function.update s₁.leases k.row.sessionId (s₁.leases k.row.sessionId)
    workers := Function.update s₁.workers w (.working k₂) }
  have h₂ : step c s₁ (.work w .commit) = some s₂ := by
    simp [step, moveParties, workerNext, Phase.result, guarded, jobEffect, workerEffect,
      Effect.Ready, Effect.apply, leaseAfter, s₁, s₂, State.setWorker, State.setLease,
      Worker.afterCommit, Worker.withPhase, k₁, k₂]
  obtain ⟨e₁, n₁⟩ := ofStep_of_some (· = initial) h₁
  obtain ⟨e₂, n₂⟩ := ofStep_of_some (· = initial) h₂
  have hrun : runTrace (system c) s es = s₂ := by
    simp only [es, resultTransaction, runTrace, system, n₁, n₂]
  obtain ⟨new, hnew⟩ : ∃ new, updateResult s.clock (.accepted m) row = some new := by
    simp [updateResult, hproc]
  refine ⟨new, ?_, ?_, ?_, (updateResult_some hnew).2, ?_⟩
  · refine ⟨e₁, ?_, trivial⟩
    simp only [system, n₁]
    exact e₂
  · rw [hrun]
    simp [s₂, s₁, hj, Row.updateIn, Row.view, Row.settled, f, onPresent, hnew, Row.commit,
      Row.write]
  · rw [hrun]
  · simp only [updateResult, hproc, if_true, Option.some.injEq] at hnew
    rw [← hnew]
    rfl

/-- The status of a job's committed row. -/
def committedStatus (s : State) (job : JobId) : Option MessageJobStatus :=
  match (s.jobs job).committed with
  | .present row => some row.status
  | _ => none

theorem committed_status_settled (h : s.jobs job = Row.settled (.present row)) :
    committedStatus s job = some row.status := by
  simp [committedStatus, h]

/-- Before the id is stored no webhook matches the row. -/
theorem observe_unlinked (now : ℕ) (ws : List WebhookEvent) (h : row.openwaMessageId ≠ some m) :
    ws.foldl (observe now m) row = row := by
  induction ws with
  | nil => rfl
  | cons event ws ih =>
    have he : observe now m row event = row := by
      unfold observe
      split
      · rfl
      · simp [updateStatusByOpenWAMessageId, h]
    simpa [he] using ih

/-- Once it is stored every webhook is ranked against the row's status. -/
theorem observe_linked (now : ℕ) (ws : List WebhookEvent) (h : row.openwaMessageId = some m) :
    (ws.foldl (observe now m) row).status = (statuses ws).foldl overwrite row.status := by
  induction ws generalizing row with
  | nil => rfl
  | cons event ws ih =>
    have he : (observe now m row event).openwaMessageId = some m ∧
        (observe now m row event).status =
          ((webhookStatus event).elim row.status (overwrite row.status)) := by
      unfold observe
      cases hs : webhookStatus event with
      | none => exact ⟨h, rfl⟩
      | some status =>
        by_cases ho : WebhookOverwrites status row.status
        · simp [updateStatusByOpenWAMessageId, h, ho, overwrite]
        · simp [updateStatusByOpenWAMessageId, h, ho, overwrite]
    rw [List.foldl_cons, ih he.1, he.2]
    cases hs : webhookStatus event <;> simp [statuses, hs]

/-- The interleaving can always run, and what it leaves is decided by the later webhooks. -/
theorem interleaving_runs (h : Posted s w job m row) (ws : List WebhookEvent) (k : ℕ) :
    let es := interleaving s.clock w job m ws k
    ValidTrace (system c) s es ∧
      committedStatus (runTrace (system c) s es) job =
        some ((statuses (ws.drop k)).foldl overwrite .accepted) := by
  obtain ⟨hv, hj, hw, hc⟩ := webhooks_run (c := c) (m := m) (ws.take k) h.settled
  rw [observe_unlinked _ _ h.unlinked] at hj
  have hposted : Posted (runTrace (system c) s
      ((ws.take k).flatMap (webhookTransaction s.clock job m))) w job m row :=
    ⟨by rw [hw]; exact h.worker, hj, h.processing, h.unlinked⟩
  obtain ⟨new, hv', hj', hc', hs, hm⟩ := result_transaction_runs (c := c) hposted
  rw [hc] at hv' hj' hc'
  obtain ⟨hv'', hj'', _, _⟩ := webhooks_run (c := c) (m := m) (ws.drop k) hj'
  rw [hc'] at hv'' hj''
  simp only [interleaving, valid_trace_append, runTrace_append]
  refine ⟨⟨⟨hv, hv'⟩, hv''⟩, ?_⟩
  rw [committed_status_settled hj'', observe_linked _ _ hm, hs]

/-- An UPDATE that finds nothing leaves everything as it is. -/
theorem unmatched_webhook (h : Posted s w job m row) (status : MessageJobStatus) :
    step c s (.webhookStatus 0 job m status s.clock) = some s := by
  have hnone : updateStatusByOpenWAMessageId s.clock m status row = none := by
    simp [updateStatusByOpenWAMessageId, h.unlinked]
  have hready : (s.jobs job).ReadyIn (.webhook 0)
      (onPresent (updateStatusByOpenWAMessageId s.clock m status)) := by
    rw [h.settled]
    exact .inl trivial
  have hjobs : s.jobs.updateIn (.webhook 0)
      (onPresent (updateStatusByOpenWAMessageId s.clock m status)) job = s.jobs := by
    funext other
    by_cases hother : other = job
    · subst hother
      simp [h.settled, Row.updateIn, Row.view, Row.settled, onPresent, hnone]
    · simp [Table.updateIn_other, hother]
  simp [step, moveParties, guarded, jobEffect, Effect.Ready, Effect.apply, hready, hjobs]

/-- The result transaction between the UPDATE of a webhook and its COMMIT. -/
def withinWebhook (clock w : ℕ) (job : JobId) (m : String) (event : WebhookEvent) : List Event :=
  match webhookStatus event with
  | none => resultTransaction clock w
  | some status =>
    [.webhookStatus 0 job m status clock] ++ resultTransaction clock w ++ [.commit (.webhook 0)]

theorem within_webhook_runs (h : Posted s w job m row) (event : WebhookEvent) :
    let es := withinWebhook s.clock w job m event
    ∃ new, ValidTrace (system c) s es ∧
      (runTrace (system c) s es).jobs job = Row.settled (.present new) ∧
      (runTrace (system c) s es).clock = s.clock ∧
      new.status = .accepted ∧ new.openwaMessageId = some m := by
  cases hs : webhookStatus event with
  | none =>
    simp only [withinWebhook, hs]
    exact result_transaction_runs h
  | some status =>
    obtain ⟨new, hv, hj, hc, hs', hm⟩ := result_transaction_runs (c := c) h
    obtain ⟨e₁, n₁⟩ := ofStep_of_some (· = initial) (unmatched_webhook (c := c) h status)
    let t := runTrace (system c) s (resultTransaction s.clock w)
    have h₂ : step c t (.commit (.webhook 0)) =
        some { t with jobs := t.jobs.commit (.webhook 0) } := by
      simp [step, moveParties, guarded, jobEffect, Effect.Ready, Effect.apply, Tx.External]
    obtain ⟨e₂, n₂⟩ := ofStep_of_some (· = initial) h₂
    have hfirst : runTrace (system c) s [.webhookStatus 0 job m status s.clock] = s := n₁
    have hlast : runTrace (system c) t [.commit (.webhook 0)] =
        { t with jobs := t.jobs.commit (.webhook 0) } := n₂
    simp only [withinWebhook, hs, valid_trace_append, runTrace_append, hfirst]
    refine ⟨new, ⟨⟨⟨e₁, trivial⟩, hv⟩, e₂, trivial⟩, ?_, ?_, hs', hm⟩
    · rw [hlast]
      simp only [Table.commit_apply, t, hj]
      rfl
    · rw [hlast]
      exact hc

/-- A result that is committed within a webhook transaction leaves what it leaves after it. -/
theorem result_within_webhook (h : Posted s w job m row) (event : WebhookEvent)
    (before after : List WebhookEvent) :
    let es := before.flatMap (webhookTransaction s.clock job m) ++
      withinWebhook s.clock w job m event ++ after.flatMap (webhookTransaction s.clock job m)
    ValidTrace (system c) s es ∧
      committedStatus (runTrace (system c) s es) job = committedStatus (runTrace (system c) s
        (interleaving s.clock w job m (before ++ [event] ++ after) (before.length + 1))) job := by
  intro es
  obtain ⟨hv, hj, hw, hc⟩ := webhooks_run (c := c) (m := m) before h.settled
  rw [observe_unlinked _ _ h.unlinked] at hj
  have hposted : Posted (runTrace (system c) s
      (before.flatMap (webhookTransaction s.clock job m))) w job m row :=
    ⟨by rw [hw]; exact h.worker, hj, h.processing, h.unlinked⟩
  obtain ⟨new, hv', hj', hc', hs, hm⟩ := within_webhook_runs (c := c) hposted event
  rw [hc] at hv' hj' hc'
  obtain ⟨hv'', hj'', _, _⟩ := webhooks_run (c := c) (m := m) after hj'
  rw [hc'] at hv'' hj''
  have hrest : (before ++ [event] ++ after).drop (before.length + 1) = after := by
    rw [show before.length + 1 = (before ++ [event]).length by simp, List.drop_left]
  rw [(interleaving_runs (c := c) h _ _).2, hrest]
  simp only [es, valid_trace_append, runTrace_append]
  refine ⟨⟨⟨hv, hv'⟩, hv''⟩, ?_⟩
  rw [committed_status_settled hj'', observe_linked _ _ hm, hs]

/-- What is to hold at one position of the result: the status is that of the position before all
webhooks, and without a failure it is the furthest acknowledged one. -/
def EvidenceKeptAt (c : Config) (s : State) (w : ℕ) (job : JobId) (m : String)
    (ws : List WebhookEvent) (k : ℕ) : Prop :=
  let final k := committedStatus (runTrace (system c) s (interleaving s.clock w job m ws k)) job
  final k = final 0 ∧ (.failed ∉ statuses ws → final k = some (furthest (statuses ws)))

/-- The result transaction keeps the evidence exactly when the webhooks after it say the same as
all of them. -/
theorem evidence_kept_iff (h : Posted s w job m row) (ws : List WebhookEvent) (k : ℕ) :
    EvidenceKeptAt c s w job m ws k ↔ KeepsEvidence (statuses ws) (statuses (ws.drop k)) := by
  have hk := (interleaving_runs (c := c) h ws k).2
  have h0 := (interleaving_runs (c := c) h ws 0).2
  have hall : ∀ es : List WebhookEvent, ∀ s ∈ statuses es,
      s ∈ [.sent, .delivered, .read, .failed] := fun _ _ => statuses_are_evidence
  have hiff := same_status_iff (hall ws) (hall (ws.drop k))
  simp only [EvidenceKeptAt, hk, h0, List.drop_zero, Option.some.injEq]
  constructor
  · exact fun hs => hiff.mp hs.1
  · intro hkeep
    have hsame := hiff.mpr hkeep
    refine ⟨hsame, fun hf => ?_⟩
    rw [hsame, fold_accepted (hall ws), if_neg]
    intro hhead
    exact hf (List.mem_of_mem_head? hhead)

end Runs

/-- A run up to the answer of the POST: message id "m" is known to the worker alone. -/
def postedTrace : List Event :=
  [.insertJob (.api 0) 1 ⟨"session", "group@g.us", "text", 0, false⟩ 0, .commit (.api 0),
    .lockDue 0 1 0, .queueClaimed 0 0, .commitClaim 0 true, .publish 0 1,
    .deliver 0 1, .markProcessing 0 0 7, .work 0 .branch, .work 0 (.policyAnswered none),
    .work 0 (.tryAcquire 0), .work 0 (.confirmProcessing 0), .work 0 (.renew 0),
    .work 0 (.verifyProcessing 0), .work 0 (.fetch 1),
    .work 0 (.answered (.answered ⟨201, .ok "", .ok (.ok "m"), none⟩))]

def postedRow : MessageJob :=
  { create 0 ⟨"session", "group@g.us", "text", 0, false⟩ with
    status := .processing
    attemptCount := 1
    processingStartedAt := some 0
    leaseExpiresAt := some leaseMs }

def postedConfig : Config := ⟨true, 1000⟩

def postedState : State := runTrace (system postedConfig) initial postedTrace

theorem posted_state_posted : Posted postedState 0 1 "m" postedRow := by
  refine ⟨⟨⟨1, postedRow, 7, .accepting (.accepted "m") false⟩, rfl, rfl, rfl⟩, rfl, rfl, ?_⟩
  decide

theorem posted_state_reachable : Reachable (system postedConfig) postedState :=
  ⟨postedTrace, valid_trace_run rfl (by decide)⟩

/-- A `read` acknowledgement committed before the result is lost: the job stays ACCEPTED. -/
theorem early_read_is_lost :
    Reachable (system postedConfig) postedState ∧ Posted postedState 0 1 "m" postedRow ∧
      ¬ EvidenceKeptAt postedConfig postedState 0 1 "m" [.ack "read"] 1 := by
  refine ⟨posted_state_reachable, posted_state_posted, fun h => ?_⟩
  have hsame := h.1
  have h1 := (interleaving_runs (c := postedConfig) posted_state_posted [.ack "read"] 1).2
  have h0 := (interleaving_runs (c := postedConfig) posted_state_posted [.ack "read"] 0).2
  simp only [] at hsame
  rw [h1, h0] at hsame
  exact absurd hsame (by decide +kernel)

/-- An early `sent` is lost too, but the `read` after the result says as much and more. -/
theorem later_read_suffices :
    EvidenceKeptAt postedConfig postedState 0 1 "m" [.sent, .ack "read"] 1 :=
  (evidence_kept_iff posted_state_posted [.sent, .ack "read"] 1).mpr
    ⟨by decide +kernel, fun _ => by decide +kernel⟩

end DeliveryEvidence
