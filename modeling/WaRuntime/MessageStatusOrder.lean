import WaRuntime.MessageJobTransitions

/-! The order in which the status of a message job moves over a run, whoever writes it. -/
namespace MessageStatusOrder

open TransitionRuns RowVersions MessageJobStatements OutboundMessageExecution
open MessageJobTransitions

variable {c : Config} {s u : State} {j : JobId}

def acknowledged : List MessageJobStatus := [.accepted, .sent, .delivered, .read]

def closed : List MessageJobStatus := [.cancelled, .dryRunCompleted, .failed]

/-- A closed status stays, an acknowledgement is only overtaken by a later one (or ACCEPTED by a
failure), and a taken job is not taken back. -/
structure Advances (old new : MessageJobStatus) : Prop where
  absorbing : old ∈ closed → new = old
  acknowledging : old ∈ acknowledged →
    (new ∈ acknowledged ∧ acknowledgementRank old ≤ acknowledgementRank new) ∨
      (old = .accepted ∧ new = .failed)
  taken : ¬ old.AwaitsWorker → ¬ new.AwaitsWorker

theorem advances_refl (status : MessageJobStatus) : Advances status status :=
  ⟨fun _ => rfl, fun h => .inl ⟨h, le_refl _⟩, id⟩

theorem rank_accepted {status : MessageJobStatus} (h : status ∈ acknowledged)
    (hr : acknowledgementRank status ≤ acknowledgementRank .accepted) : status = .accepted := by
  simp only [acknowledged, List.mem_cons, List.not_mem_nil, or_false] at h
  rcases h with rfl | rfl | rfl | rfl <;> simp [acknowledgementRank] at hr ⊢

theorem advances_trans {a b d : MessageJobStatus} (h : Advances a b) (k : Advances b d) :
    Advances a d := by
  refine ⟨fun ha => ?_, fun ha => ?_, fun ha => k.taken (h.taken ha)⟩
  · obtain rfl := h.absorbing ha
    exact k.absorbing ha
  · obtain ⟨hb, hle⟩ | ⟨rfl, rfl⟩ := h.acknowledging ha
    · obtain ⟨hd, hle'⟩ | ⟨rfl, rfl⟩ := k.acknowledging hb
      · exact .inl ⟨hd, hle.trans hle'⟩
      · exact .inr ⟨rank_accepted ha hle, rfl⟩
    · exact .inr ⟨rfl, k.absorbing (by simp [closed])⟩

/-- A status that awaits a worker is neither closed nor acknowledged. -/
theorem awaiting_advances {old new : MessageJobStatus} (h : old.AwaitsWorker) :
    Advances old new := by
  refine ⟨fun hc => ?_, fun hc => ?_, fun hn => absurd h hn⟩ <;>
    rcases h with rfl | rfl <;> simp [closed, acknowledged] at hc

theorem recorded_advances {new : MessageJobStatus}
    (h : new ∈ [.accepted, .failed, .unknown, .dryRunCompleted]) : Advances .processing new := by
  refine ⟨fun hc => by simp [closed] at hc, fun hc => by simp [acknowledged] at hc, fun _ hn => ?_⟩
  rcases hn with rfl | rfl <;> simp at h

theorem webhook_advances {old new : MessageJobStatus} (h : WebhookOverwrites new old) :
    Advances old new := by
  obtain ⟨hopen, hnew⟩ := h
  refine ⟨fun hc => ?_, fun hc => ?_, fun _ => ?_⟩
  · simp only [closed, List.mem_cons, List.not_mem_nil, or_false] at hc hopen
    exact absurd (by tauto) hopen
  · obtain ⟨rfl, ho⟩ | ⟨hne, hlt⟩ := hnew
    · refine .inr ⟨?_, rfl⟩
      simp only [acknowledged, List.mem_cons, List.not_mem_nil, or_false] at hc
      rcases hc with rfl | rfl | rfl | rfl <;> simp at ho ⊢
    · refine .inl ⟨?_, le_of_lt hlt⟩
      cases new <;> simp [acknowledgementRank] at hlt <;> simp [acknowledged]
  · obtain ⟨rfl, _⟩ | ⟨_, hlt⟩ := hnew
    · rintro (h | h) <;> cases h
    · rintro (rfl | rfl) <;> simp [acknowledgementRank] at hlt

/-- Every change that a writer makes to a row advances its status. -/
theorem slot_step_advances {old new : MessageJob} (h : SlotStep (.present old) (.present new)) :
    Advances old.status new.status := by
  cases h with
  | kept hs =>
    rw [hs]
    exact advances_refl _
  | claimed hs => exact awaiting_advances (.inl hs)
  | returned hs => exact awaiting_advances (.inr hs)
  | taken hs => exact awaiting_advances (.inr hs)
  | recorded hs hn =>
    rw [hs]
    exact recorded_advances hn
  | acknowledged ho => exact webhook_advances ho
  | cancelled hs => exact awaiting_advances hs

/-- What any number of changes leave of a row. -/
def AdvancedFrom (old : MessageJob) : JobSlot → Prop
  | .present new => Advances old.status new.status
  | .deleted => True
  | .unused => False

theorem slot_moves_advance {old : MessageJob} {slot : JobSlot}
    (h : SlotMoves (.present old) slot) : AdvancedFrom old slot := by
  induction h with
  | refl => exact advances_refl _
  | @tail b d _ hs ih =>
    cases b with
    | unused => exact absurd ih id
    | deleted => cases hs
    | present mid =>
      cases d with
      | unused => cases hs
      | deleted => trivial
      | present new => exact advances_trans ih (slot_step_advances hs)

/-- Along a run each committed row makes listed changes only. -/
theorem execution_moves {es : List Event} (hr : Reachable (system c) s)
    (h : Execution (system c) s es u) (j : JobId) :
    SlotMoves (s.jobs j).committed (u.jobs j).committed := by
  refine related_along (M := system c)
    (R := fun s u => SlotMoves (s.jobs j).committed (u.jobs j).committed)
    (fun s => Relation.ReflTransGen.refl) (fun s t e ht hm he => ?_) hr h
  exact hm.trans (committed_row_moves ht (ofStep_enabled he) j)

/-- Over every run, the status of a message job only advances: CANCELLED, DRY_RUN_COMPLETED and
FAILED stay, an acknowledgement is never taken back, and neither is a taken job. -/
theorem message_status_monotone {es : List Event} {old new : MessageJob}
    (hr : Reachable (system c) s) (h : Execution (system c) s es u)
    (ho : (s.jobs j).committed = .present old) (hn : (u.jobs j).committed = .present new) :
    (old.status ∈ [.cancelled, .dryRunCompleted, .failed] → new.status = old.status) ∧
      (old.status ∈ [.accepted, .sent, .delivered, .read] →
        new.status ∈ [.accepted, .sent, .delivered, .read] →
        acknowledgementRank old.status ≤ acknowledgementRank new.status) ∧
      (old.status ∉ [.scheduled, .queued] → new.status ∉ [.scheduled, .queued]) := by
  have hm := execution_moves hr h j
  rw [ho, hn] at hm
  have ha : Advances old.status new.status := slot_moves_advance hm
  refine ⟨ha.absorbing, fun hk hk' => ?_, fun hk hk' => ?_⟩
  · obtain ⟨_, hle⟩ | ⟨_, hf⟩ := ha.acknowledging hk
    · exact hle
    · simp [hf] at hk'
  · refine ha.taken (fun hw => hk ?_) (by simpa [MessageJobStatus.AwaitsWorker] using hk')
    simpa [MessageJobStatus.AwaitsWorker] using hw

def liveConfig : Config := ⟨true, 1000⟩

/-- A job is sent and accepted under the upstream id `"id"`. -/
def acceptedJob : List Event :=
  [.insertJob (.api 0) 1 ⟨"session", "group@g.us", "text", 0, false⟩ 0, .commit (.api 0),
    .lockDue 0 1 0, .queueClaimed 0 0, .commitClaim 0 true, .publish 0 1,
    .deliver 0 1, .markProcessing 0 0 7, .work 0 .branch, .work 0 (.policyAnswered none),
    .work 0 (.tryAcquire 0), .work 0 (.confirmProcessing 0), .work 0 (.renew 0),
    .work 0 (.verifyProcessing 0), .work 0 (.fetch 1),
    .work 0 (.answered (.answered ⟨201, .ok "", .ok (.ok "id"), none⟩)), .work 0 (.write 0),
    .work 0 .commit]

/-- Its acknowledgements arrive out of order, one of them twice, and a failure comes last. -/
def reorderedAcknowledgements : List Event :=
  [.webhookStatus 0 1 "id" .delivered 0, .commit (.webhook 0),
    .webhookStatus 1 1 "id" .sent 0, .commit (.webhook 1),
    .webhookStatus 2 1 "id" .delivered 0, .commit (.webhook 2),
    .webhookStatus 3 1 "id" .failed 0, .commit (.webhook 3)]

theorem reordered_acknowledgements_advance :
    ∃ old new, ((runTrace (system liveConfig) initial acceptedJob).jobs 1).committed =
        .present old ∧
      ((runTrace (system liveConfig) (runTrace (system liveConfig) initial acceptedJob)
        reorderedAcknowledgements).jobs 1).committed = .present new ∧
      old.status = .accepted ∧ new.status = .delivered ∧
      acknowledgementRank old.status ≤ acknowledgementRank new.status := by
  refine ⟨_, _, rfl, rfl, rfl, rfl, ?_⟩
  have hx : Execution (system liveConfig) (runTrace (system liveConfig) initial acceptedJob)
      reorderedAcknowledgements _ := valid_trace_execution (by decide)
  have hm := message_status_monotone (c := liveConfig) (j := 1)
    ⟨acceptedJob, valid_trace_run rfl (by decide)⟩ hx rfl rfl
  exact hm.2.1 (by decide) (by decide)

end MessageStatusOrder
