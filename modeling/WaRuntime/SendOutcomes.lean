import WaRuntime.MessageStatusOrder
import WaRuntime.MessageRowWrites

/-! What the outcome of a POST makes of its message job.
A worker records FAILED only for a job without a POST or with a rejected one; every other started
POST leaves its row PROCESSING until the worker or the lease-expiry recovery makes it ACCEPTED or
UNKNOWN. A row is taken once, so what a worker has yet to record is about its own POST. -/
namespace SendOutcomes

open TransitionRuns RowVersions MessageJobStatements OpenWARequest OutboundMessageExecution
open MessageJobTransitions OutboundSendAtMostOnce MessageRowWrites

variable {c : Config} {s u v : State} {e : Event} {es : List Event} {j : JobId} {w : ℕ}

/-- The result that a worker has decided on and not yet committed. -/
def pending : Phase → Option Result
  | .accepting result _ | .recording result _ _ | .releasing (.record result) => some result
  | _ => none

theorem pending_of_result {phase : Phase} {result : Result} {written : Bool}
    (h : phase.result = some (result, written)) : pending phase = some result := by
  cases phase <;> simp [Phase.result] at h <;> simp [pending, h]

theorem before_post_pending {phase : Phase} (h : BeforePost phase) : pending phase = none := by
  cases phase <;> first | rfl | exact absurd h id

/-- HTTP 4xx other than 408. -/
def ClientError (status : ℕ) : Prop := 400 ≤ status ∧ status < 500 ∧ status ≠ 408

theorem client_error_iff {status : ℕ} {body : String} {retryAfterMs : Option ℕ} :
    isDefinitiveUpstreamRejection (.http status body retryAfterMs) = true ↔ ClientError status := by
  simp [isDefinitiveUpstreamRejection, ClientError, and_assoc]

/-- A POST error is a definitive rejection only where the answer has such a status. -/
theorem rejected_turn {counters : Counters} {outcome : Outcome String} {error : RequestError}
    (h : turn "send_text" .post counters outcome = .raised error)
    (hd : isDefinitiveUpstreamRejection error = true) :
    ∃ response, outcome = .answered response ∧ ClientError response.status := by
  cases outcome with
  | threw message =>
    cases h
    cases hd
  | answered response =>
    refine ⟨response, rfl, ?_⟩
    simp only [turn, reduceCtorEq, false_and, and_false, if_false] at h
    split at h
    · split at h <;> cases h
      · cases hd
      · exact client_error_iff.mp hd
    · split at h <;> cases h <;> cases hd

/-- The steps in which a worker decides on a result. -/
inductive Decides (k : Worker) : WorkerEvent → Result → Prop where
  | accepted {we : WorkerEvent} {messageId : String} : Decides k we (.accepted messageId)
  | unknown {we : WorkerEvent} {error : String} : Decides k we (.unknown error)
  | unsent {we : WorkerEvent} {result : Result} : BeforePost k.phase → (∀ i, we ≠ .fetch i) →
      result.openwaMessageId = none → result.status ≠ .accepted → Decides k we result
  | rejected {counters : Counters} {response : Response String} {error : String} :
      k.phase = .awaiting counters → ClientError response.status →
      Decides k (.answered (.answered response)) (.failed error)

/-- A pending result was pending before the step, or the step has decided on it. -/
theorem pending_origin {k k' : Worker} {we : WorkerEvent} {result : Result}
    (h : WorkerMove c s k we (.working k')) (hp : pending k'.phase = some result) :
    pending k.phase = some result ∨ Decides k we result := by
  have hrelease : ∀ after, k.phase = .releasing after → k.afterRelease after = .working k' →
      pending k.phase = some result := by
    intro after ha hk
    cases after with
    | finish outcome => cases hk
    | record r =>
      cases hk
      rw [ha]
      exact hp
  have hthrow : ∀ message, k.afterThrow message = .working k' → (∀ i, we ≠ .fetch i) →
      pending k.phase = some result ∨ Decides k we result := by
    intro message hk hne
    unfold Worker.afterThrow at hk
    split at hk
    case h_11 after ha => exact .inl (hrelease _ ha hk)
    all_goals cases hk
    all_goals
      cases hp
      rename_i hphase
      first
      | exact .inr .unknown
      | exact .inr (.unsent (by rw [hphase]; trivial) hne rfl fun h => by cases h)
  generalize ht : WorkerState.working k' = target at h
  cases h with
  | branch hb =>
    cases ht
    refine .inr ?_
    simp only [afterBranch] at hp
    split at hp
    · cases hp
      exact .unsent (by rw [hb]; trivial) (by simp) rfl fun h => by cases h
    · split at hp <;> cases hp
      exact .unsent (by rw [hb]; trivial) (by simp) rfl fun h => by cases h
  | @policyAnswered reason hb =>
    cases ht
    cases reason <;> cases hp
    exact .inr (.unsent (by rw [hb]; trivial) (by simp) rfl fun h => by cases h)
  | leaseLost hb =>
    cases ht
    cases hp
    exact .inr (.unsent (by rw [hb]; trivial) (by simp) rfl fun h => by cases h)
  | busy =>
    cases ht
    exact .inl hp
  | @answered counters outcome hb =>
    cases ht
    refine .inr ?_
    cases hturn : turn "send_text" .post counters outcome with
    | fetchAgain again => exact absurd hturn post_is_not_repeated
    | returned messageId =>
      rw [hturn] at hp
      cases hp
      exact .accepted
    | raised error =>
      simp only [hturn, afterTurn] at hp
      split at hp
      · rename_i hd
        cases hp
        obtain ⟨response, rfl, hc⟩ := rejected_turn hturn hd
        exact .rejected hb hc
      · cases hp
        exact .unknown
  | write hr =>
    cases ht
    refine .inl ?_
    cases hphase : k.phase <;> simp [hphase, Phase.result] at hr <;>
      simpa [hphase, Phase.wrote, pending] using hp
  | commit hr =>
    cases hphase : k.phase <;> simp [hphase, Phase.result] at hr <;>
      simp [Worker.afterCommit, hphase, Worker.withPhase] at ht
    subst ht
    cases hp
  | commitLost => exact hthrow _ ht.symm (by simp)
  | throws => exact hthrow _ ht.symm (by simp)
  | release hb => exact .inl (hrelease _ hb ht.symm)
  | _ =>
    cases ht
    cases hp
/-- The job's POST was answered, at some state of the run at which a worker awaited the answer,
with an HTTP status 4xx other than 408. -/
def Rejected (c : Config) (j : JobId) (es : List Event) : Prop :=
  ∃ pre post s w k counters response, es = pre ++ .work w (.answered (.answered response)) :: post ∧
    Run (system c) pre s ∧ s.workers w = .working k ∧ k.job = j ∧ k.phase = .awaiting counters ∧
    ClientError response.status

/-- No POST was started, or it was rejected. -/
def MayFail (c : Config) (j : JobId) (es : List Event) : Prop := sends j es = 0 ∨ Rejected c j es

theorem rejected_append (h : Rejected c j es) (fs : List Event) : Rejected c j (es ++ fs) := by
  obtain ⟨pre, post, s, w, k, counters, response, rfl, hrest⟩ := h
  exact ⟨pre, post ++ fs, s, w, k, counters, response, by simp, hrest⟩

/-- A row has an upstream message id once it was ACCEPTED, and a PROCESSING row has a lease. -/
structure Formed (row : MessageJob) : Prop where
  addressed : row.openwaMessageId ≠ none →
    row.status ∈ [.accepted, .sent, .delivered, .read, .failed]
  accepted : row.status ∈ [.accepted, .sent, .delivered, .read] → row.openwaMessageId ≠ none
  leased : row.status = .processing → row.leaseExpiresAt.isSome

def FormedSlot : JobSlot → Prop
  | .present row => Formed row
  | _ => True

theorem formed_of_status {old new : MessageJob} (hold : Formed old)
    (hs : old.status ∉ [.accepted, .sent, .delivered, .read, .failed])
    (hn : new.status ∉ [.accepted, .sent, .delivered, .read])
    (hid : new.openwaMessageId = old.openwaMessageId)
    (hl : new.status = .processing → new.leaseExpiresAt.isSome) : Formed new := by
  refine ⟨fun hne => ?_, fun hm => absurd hm hn, hl⟩
  rw [hid] at hne
  exact absurd (hold.addressed hne) hs

theorem own_write_formed {slot slot' : JobSlot} (h : OwnWrite s j slot slot')
    (hf : FormedSlot slot) : FormedSlot slot' := by
  cases h with
  | deleted => trivial
  | refreshed _ ho hn hl hid =>
    exact formed_of_status hf (by simp [ho]) (by simp [hn]) hid (fun _ => hl)
  | returned ho hn hid => exact formed_of_status hf (by simp [ho]) (by simp [hn]) hid (by simp [hn])
  | taken ho hn hl hid => exact formed_of_status hf (by simp [ho]) (by simp [hn]) hid (fun _ => hl)
  | expired ho hn hid => exact formed_of_status hf (by simp [ho]) (by simp [hn]) hid (by simp [hn])

theorem webhook_status {status stored : MessageJobStatus} (h : WebhookOverwrites status stored) :
    status ∈ [.accepted, .sent, .delivered, .read, .failed] := by
  obtain ⟨_, ⟨rfl, _⟩ | ⟨_, hr⟩⟩ := h
  · simp
  · cases status <;> simp_all [acknowledgementRank]

theorem inside_write_formed {t : Tx} {slot slot' : JobSlot} (h : InsideWrite s e j t slot slot')
    (hf : FormedSlot slot)
    (hr : ∀ w k result, s.workers w = .working k → pending k.phase = some result →
      (result.openwaMessageId ≠ none ↔ result.status = .accepted)) : FormedSlot slot' := by
  cases h with
  | created _ hn hid => exact ⟨fun hne => absurd hid hne, by simp [hn], by simp [hn]⟩
  | cancelled _ ha hn hid =>
    refine formed_of_status hf ?_ (by simp [hn]) hid (by simp [hn])
    rcases ha with ha | ha <;> simp [ha]
  | acknowledged hne ho hid =>
    have hs := webhook_status ho
    exact ⟨fun _ => hs, fun _ => by rw [hid]; exact hne, fun hp => by simp [hp] at hs⟩
  | locked => exact hf
  | queued ho hn hid => exact formed_of_status hf (by simp [ho]) (by simp [hn]) hid (by simp [hn])
  | @recorded w now k result written old new he hk hj hres hp hst hid =>
    have hnone : old.openwaMessageId = none := by
      by_contra hne
      simpa [hp] using hf.addressed hne
    rw [hnone, Option.or_none] at hid
    have hrec := result.recorded
    have haddress := hr w k result hk (pending_of_result hres)
    refine ⟨fun hne => ?_, fun hm => ?_, fun hproc => ?_⟩
    · rw [hid] at hne
      rw [hst, haddress.mp hne]
      simp
    · rw [hid]
      rw [hst] at hm
      refine haddress.mpr ?_
      generalize result.status = status at hm hrec
      cases status <;> simp at hm hrec ⊢
    · rw [← hst, hproc] at hrec
      simp at hrec

/-- A job whose POST was not rejected: PROCESSING, ACCEPTED or UNKNOWN, or known to webhooks since
it was ACCEPTED, or deleted by retention. -/
def Posted : JobSlot → Prop
  | .present row =>
    row.status ∈ [.processing, .accepted, .unknown] ∨ row.openwaMessageId ≠ none
  | .deleted => True
  | .unused => False

theorem posted_not_awaiting {slot : JobSlot} (h : Posted slot) (hf : FormedSlot slot) :
    ¬ slot.AwaitsWorker := by
  cases slot with
  | unused => exact absurd h id
  | deleted => exact id
  | present row =>
    obtain hs | hne := h
    · rintro (ha | ha) <;> simp [ha] at hs
    · have hs := hf.addressed hne
      rintro (ha | ha) <;> simp [ha] at hs

theorem own_write_posted {slot slot' : JobSlot} (h : OwnWrite s j slot slot') (hp : Posted slot)
    (hf : FormedSlot slot) : Posted slot' := by
  have hna := posted_not_awaiting hp hf
  cases h with
  | deleted => trivial
  | refreshed _ _ hn => exact .inl (by simp [hn])
  | returned ho => exact absurd (.inr ho) hna
  | taken ho => exact absurd (.inr ho) hna
  | expired _ hn => exact .inl (by simp [hn])

/-- What every worker is about to record, and what every posted job has come to. -/
structure OutcomeInvariant (c : Config) (es : List Event) (s : State) : Prop where
  formed : ∀ j, (s.jobs j).Each FormedSlot
  addressed : ∀ w k result, s.workers w = .working k → pending k.phase = some result →
    (result.openwaMessageId ≠ none ↔ result.status = .accepted)
  results : ∀ w k result, s.workers w = .working k → pending k.phase = some result →
    result.status ∈ [.accepted, .unknown] ∨ MayFail c k.job es
  posted : ∀ j, ((∃ w, BeforeSend j (s.workers w)) ∨ ¬ MayFail c j es) →
    Posted (s.jobs j).committed

section Step

variable {k : Worker} {result : Result}

/-- A worker with a result to record has the only chance to send its job behind it. -/
theorem may_fail_kept (hr : Run (system c) es s) (h : step c s e = some u)
    (hk : s.workers w = .working k) (hp : pending k.phase = some result)
    (hm : MayFail c k.job es) : MayFail c k.job (es ++ [e]) := by
  obtain hz | hj := hm
  · refine .inl ?_
    rw [sends_append, hz]
    by_cases hs : isSend k.job e
    · obtain ⟨w', _, hb, _⟩ := send_origin h hs
      have hw : Works k.job (s.workers w) := by
        rw [hk]
        rfl
      obtain rfl := (taken_once ⟨es, hr⟩).alone _ _ _ hw (before_send_works hb)
      rw [hk] at hb
      rw [before_post_pending hb.2] at hp
      cases hp
    · simp [hs]
  · exact .inr (rejected_append hj [e])

theorem result_step (hr : Run (system c) es s) (hI : OutcomeInvariant c es s)
    (h : step c s e = some u) (hk : u.workers w = .working k)
    (hp : pending k.phase = some result) :
    (result.openwaMessageId ≠ none ↔ result.status = .accepted) ∧
      (result.status ∈ [.accepted, .unknown] ∨ MayFail c k.job (es ++ [e])) := by
  have hkeep : ∀ old, s.workers w = .working old → pending old.phase = some result →
      (result.openwaMessageId ≠ none ↔ result.status = .accepted) ∧
        (result.status ∈ [.accepted, .unknown] ∨ MayFail c old.job (es ++ [e])) := by
    intro old ho hpo
    refine ⟨hI.addressed w old result ho hpo, ?_⟩
    obtain hs | hm := hI.results w old result ho hpo
    · exact .inl hs
    · exact .inr (may_fail_kept hr h ho hpo hm)
  obtain ⟨v, hv, _, rfl⟩ := step_some h
  obtain ⟨_, hs⟩ | ⟨we, old, rfl, ho, hm⟩ | ⟨now, token, job, row, rfl, _, rfl, _⟩ :=
    working_origin hv hk
  · exact hkeep k hs hp
  · rw [(worker_move_keeps hm).1]
    obtain hpo | hd := pending_origin hm hp
    · exact hkeep old ho hpo
    · cases hd with
      | accepted => exact ⟨by simp [Result.accepted], .inl (by simp [Result.accepted])⟩
      | unknown => exact ⟨by simp [Result.unknown], .inl (by simp [Result.unknown])⟩
      | unsent hb hne hid hs =>
        refine ⟨⟨fun hsome => absurd hid hsome, fun ha => absurd ha hs⟩, .inr (.inl ?_)⟩
        have hz := (send_invariant hr).unsent old.job w (by rw [ho]; exact ⟨rfl, hb⟩)
        rw [sends_append, hz]
        cases we with
        | fetch i => exact absurd rfl (hne i)
        | _ => rfl
      | @rejected counters response error hb hc =>
        exact ⟨by simp [Result.failed],
          .inr (.inr ⟨es, [], s, w, old, counters, response, rfl, hr, ho, rfl, hb, hc⟩)⟩
  · cases hp

theorem posted_step (hr : Run (system c) es s) (hI : OutcomeInvariant c es s)
    (h : step c s e = some u)
    (hj : (∃ w, BeforeSend j (u.workers w)) ∨ ¬ MayFail c j (es ++ [e])) :
    Posted (u.jobs j).committed := by
  have hreach : Reachable (system c) s := ⟨es, hr⟩
  -- the row is taken by this step, or it was posted or about to be before it
  by_cases htaken : ∃ row, (u.jobs j).committed = .present row ∧ row.status = .processing
  · obtain ⟨row, hrow, hs⟩ := htaken
    rw [hrow]
    exact .inl (by simp [hs])
  have hbefore : (∃ w, BeforeSend j (s.workers w)) ∨ ¬ MayFail c j es := by
    obtain ⟨w, hb⟩ | hm := hj
    · obtain ⟨hb, _⟩ | ⟨⟨now, token, rfl⟩, ha, hna⟩ := before_send_origin h hb
      · exact .inl ⟨w, hb⟩
      · obtain hw | ⟨_, _, hrow⟩ := works_origin h (before_send_works hb)
        · exact absurd hw ((taken_once hreach).untaken j ha w)
        · exact absurd hrow htaken
    · by_cases hs : isSend j e
      · obtain ⟨w, _, hb, _⟩ := send_origin h hs
        exact .inl ⟨w, hb⟩
      · refine .inr fun hmay => hm ?_
        obtain hz | hrej := hmay
        · exact .inl (by simp [sends_append, hz, hs])
        · exact .inr (rejected_append hrej [e])
  have hposted := hI.posted j hbefore
  have hna := posted_not_awaiting hposted (hI.formed j).1
  have hstep := committed_step hreach h j
  generalize (u.jobs j).committed = slot at hstep
  cases hstep with
  | same => exact hposted
  | own ho => exact own_write_posted ho hposted (hI.formed j).1
  | commit he hh hholds =>
    cases hholds with
    | @worker w k result row hk hjob hres hs =>
      have hp := pending_of_result hres
      obtain ⟨w', hb⟩ | hm := hbefore
      · have hw : Works j (s.workers w) := by
          rw [hk]
          exact hjob
        obtain rfl := (taken_once hreach).alone _ _ _ hw (before_send_works hb)
        rw [hk] at hb
        rw [before_post_pending hb.2] at hp
        cases hp
      · subst hjob
        obtain hc | hmay := hI.results w k result hk hp
        · rw [← hs] at hc
          exact .inl (by simpa using .inr (by simpa using hc))
        · exact absurd hmay hm
    | dispatcher ha => exact absurd (no_return (rows_follow hreach j _ _ hh) ha) hna
    | external _ hc =>
      obtain ha | ⟨old, _, hne, hid⟩ := hc
      · exact absurd ha hna
      · exact .inr (by rw [hid]; exact hne)

end Step

theorem formed_step (hr : Reachable (system c) s) (hf : ∀ j, (s.jobs j).Each FormedSlot)
    (ha : ∀ w k result, s.workers w = .working k → pending k.phase = some result →
      (result.openwaMessageId ≠ none ↔ result.status = .accepted))
    (h : step c s e = some u) (j : JobId) : (u.jobs j).Each FormedSlot := by
  obtain ⟨v, hv, hready, rfl⟩ := step_some h
  refine Effect.each_apply_read (hf j) hready fun f slot hs hw => ?_
  cases ho : (jobEffect s e).owner with
  | none =>
    simp only [Effect.read, ho] at hw
    exact own_write_formed (own_writes hv (own_statement ho hs) hw) (hf j).1
  | some t =>
    simp only [Effect.read, ho] at hw
    exact inside_write_formed (inside_writes hr hv ho hs hw) (Row.each_view (hf j)) ha

theorem outcome_invariant (h : Run (system c) es s) : OutcomeInvariant c es s := by
  refine run_invariant (M := system c) ?_ (fun es s e hr hI he => ?_) h
  · rintro _ rfl
    constructor
    · exact fun j => Row.each_settled trivial
    · exact fun w k result hk => by cases hk
    · exact fun w k result hk => by cases hk
    · rintro j (⟨w, hb⟩ | hm)
      · exact absurd hb id
      · exact absurd (.inl rfl) hm
  · have hstep := ofStep_enabled he
    constructor
    · exact formed_step ⟨es, hr⟩ hI.formed hI.addressed hstep
    · exact fun w k result hk hp => (result_step hr hI hstep hk hp).1
    · exact fun w k result hk hp => (result_step hr hI hstep hk hp).2
    · exact fun j => posted_step hr hI hstep

section Outcomes

variable {old new : MessageJob}

/-- Once nobody can take the row and no worker is before its POST, nothing is sent any more. -/
theorem no_more_posts {fs : List Event} (hr : Reachable (system c) s)
    (hn : ¬ (s.jobs j).committed.AwaitsWorker) (hw : ∀ w, ¬ BeforeSend j (s.workers w))
    (h : Execution (system c) s fs u) :
    sends j fs = 0 ∧ ¬ (u.jobs j).committed.AwaitsWorker ∧
      ∀ w, ¬ BeforeSend j (u.workers w) := by
  induction h with
  | refl => exact ⟨rfl, hn, hw⟩
  | @step fs m e hexec he ih =>
    obtain ⟨hz, hn', hw'⟩ := ih
    have hstep := ofStep_enabled he
    refine ⟨?_, fun ha => ?_, fun w hb => ?_⟩
    · rw [sends_append, hz]
      by_cases hs : isSend j e
      · obtain ⟨w, _, hb, _⟩ := send_origin hstep hs
        exact absurd hb (hw' w)
      · simp [hs]
    · exact hn' (no_return (committed_row_moves (hr.extend hexec) hstep j) ha)
    · obtain ⟨hb', _⟩ | ⟨_, ha, _⟩ := before_send_origin hstep hb
      · exact hw' w hb'
      · exact hn' ha

/-- A step outside a webhook, an API request and a campaign that makes a job FAILED is the commit
of its worker. -/
theorem failed_by_worker (hr : Run (system c) es s) (h : step c s e = some u)
    (he : ∀ t, e ≠ .commit t) (hn : (u.jobs j).committed = .present new)
    (hf : new.status = .failed) (ho : (s.jobs j).committed ≠ (u.jobs j).committed) :
    ∃ w k result, s.workers w = .working k ∧ k.job = j ∧ pending k.phase = some result ∧
      result.status = .failed := by
  have hstep := committed_step ⟨es, hr⟩ h j
  rw [hn] at hstep ho
  generalize hslot : JobSlot.present new = slot at hstep
  cases hstep with
  | same => exact absurd hslot.symm ho
  | own hown =>
    generalize (s.jobs j).committed = before at hown
    cases hown <;> cases hslot <;> simp_all
  | @commit t _ heff hh hholds =>
    cases hholds with
    | @worker w k result row hk hj hres hs =>
      cases hslot
      exact ⟨w, k, result, hk, hj, pending_of_result hres, by rw [← hs, hf]⟩
    | dispatcher ha =>
      cases hslot
      rcases ha with ha | ha <;> rw [hf] at ha <;> cases ha
    | external hx =>
      have hact := effect_owner (s := s) (e := e) (t := t) (by rw [heff]; rfl)
      cases e <;> simp only [jobEffect, reduceCtorEq] at heff
      case commit t' => exact absurd rfl (he t')
      case commitClaim d acknowledged =>
        cases heff
        exact absurd hx id
      all_goals
        split at heff <;> try cases heff
      all_goals
        cases hact
        exact absurd hx id

/-- The worker or the scheduler makes a job FAILED only if it was not sent, then or later, or its
POST was rejected. -/
theorem failed_by_system {fs : List Event} {v : State} (hr : Run (system c) es s)
    (h : step c s e = some u) (he : ∀ t, e ≠ .commit t)
    (hn : (u.jobs j).committed = .present new) (hf : new.status = .failed)
    (ho : (s.jobs j).committed ≠ (u.jobs j).committed) (hv : Execution (system c) u fs v) :
    MayFail c j (es ++ e :: fs) := by
  have hreach : Reachable (system c) s := ⟨es, hr⟩
  obtain ⟨w, k, result, hk, rfl, hp, hres⟩ := failed_by_worker hr h he hn hf ho
  have hmay : MayFail c k.job es := by
    obtain hc | hm := (outcome_invariant hr).results w k result hk hp
    · simp [hres] at hc
    · exact hm
  have hworks : Works k.job (s.workers w) := by
    rw [hk]
    rfl
  have hna : ¬ (u.jobs k.job).committed.AwaitsWorker := by
    rw [hn]
    rintro (ha | ha) <;> rw [hf] at ha <;> cases ha
  have hnone : ∀ w', ¬ BeforeSend k.job (s.workers w') := by
    intro w' hb
    obtain rfl := (taken_once hreach).alone _ _ _ hworks (before_send_works hb)
    rw [hk] at hb
    rw [before_post_pending hb.2] at hp
    cases hp
  have hlater : ∀ w', ¬ BeforeSend k.job (u.workers w') := by
    intro w' hb
    obtain ⟨hb, _⟩ | ⟨_, ha, _⟩ := before_send_origin h hb
    · exact hnone w' hb
    · exact (taken_once hreach).untaken _ ha w hworks
  have hsplit : es ++ e :: fs = (es ++ [e]) ++ fs := by simp
  obtain hz | hrej := may_fail_kept hr h hk hp hmay
  · refine .inl ?_
    have hrest := no_more_posts (hreach.extend (ofStep_execution h)) hna hlater hv
    simp only [sends] at hz hrest ⊢
    rw [hsplit, List.countP_append, hz, hrest.1]
  · rw [hsplit]
    exact .inr (rejected_append hrej fs)

/-- Only a worker about to commit ACCEPTED or UNKNOWN holds the PROCESSING row of a job whose POST
was not rejected. -/
theorem processing_holder {t : Tx} {slot : JobSlot} (hr : Run (system c) es s)
    (hm : ¬ MayFail c j es) (ho : (s.jobs j).committed = .present old)
    (hp : old.status = .processing) (hh : (s.jobs j).held = some (t, slot)) :
    ∃ w k result row, t = .worker w ∧ s.workers w = .working k ∧
      k.phase.result = some (result, true) ∧ slot = .present row ∧
      row.status ∈ [.accepted, .unknown] := by
  have hreach : Reachable (system c) s := ⟨es, hr⟩
  have hna : ¬ (s.jobs j).committed.AwaitsWorker := by
    rw [ho]
    rintro (ha | ha) <;> rw [hp] at ha <;> cases ha
  cases holds hreach j t slot hh with
  | @worker w k result row hk hj hres hs =>
    subst hj
    refine ⟨w, k, result, row, rfl, hk, hres, rfl, ?_⟩
    obtain hc | hmay := (outcome_invariant hr).results w k result hk (pending_of_result hres)
    · rw [hs]
      exact hc
    · exact absurd hmay hm
  | dispatcher ha => exact absurd (no_return (rows_follow hreach j _ _ hh) ha) hna
  | external _ hc =>
    obtain ha | ⟨before, hbefore, hne, _⟩ := hc
    · exact absurd ha hna
    · rw [ho] at hbefore
      cases hbefore
      have hf : FormedSlot (s.jobs j).committed := ((outcome_invariant hr).formed j).1
      rw [ho] at hf
      have hs := hf.addressed hne
      simp [hp] at hs

/-- A row whose POST was not rejected stays as it is until it is ACCEPTED or UNKNOWN. -/
theorem processing_left (hr : Run (system c) es s) (hm : ¬ MayFail c j es)
    (h : step c s e = some u) (ho : (s.jobs j).committed = .present old)
    (hp : old.status = .processing) :
    (u.jobs j).committed = .present old ∨
      ∃ new, (u.jobs j).committed = .present new ∧ new.status ∈ [.accepted, .unknown] := by
  have hstep := committed_step ⟨es, hr⟩ h j
  generalize (u.jobs j).committed = slot at hstep
  cases hstep with
  | same => exact .inl ho
  | own hown =>
    rw [ho] at hown
    cases hown with
    | deleted hd => simp [Deletable, hp] at hd
    | refreshed hb => exact absurd (.inl ((send_invariant hr).unsent j _ hb)) hm
    | returned hq => simp [hp] at hq
    | taken hq => simp [hp] at hq
    | expired _ hn => exact .inr ⟨_, rfl, by simp [hn]⟩
  | commit _ hh =>
    obtain ⟨w, k, result, row, _, _, _, rfl, hs⟩ := processing_holder hr hm ho hp hh
    exact .inr ⟨row, rfl, hs⟩

theorem recovery_applies {now lease : ℕ} (ho : (s.jobs j).committed = .present old)
    (hp : old.status = .processing) (hl : old.leaseExpiresAt = some lease) (hlt : lease < now)
    (hn : now ≤ s.clock) (hfree : (s.jobs j).Free) :
    ∃ u new, step c s (.markExpiredProcessingUnknown j now) = some u ∧
      (u.jobs j).committed = .present new ∧ new.status = .unknown := by
  have hbefore : old.status = .processing ∧ LeaseBefore now old := ⟨hp, lease, hl, hlt⟩
  have hparties : moveParties c s (.markExpiredProcessingUnknown j now) = some s :=
    guarded_eq_some.mpr ⟨hn, rfl⟩
  obtain ⟨new, hnew⟩ : ∃ new, markExpiredProcessingUnknown now old = some new :=
    ⟨_, if_pos hbefore⟩
  refine ⟨_, new, step_of_parties hparties (.inl hfree), ?_,
    (markExpiredProcessingUnknown_some hnew).2⟩
  simp [jobEffect, Effect.apply, Row.update, onPresent, ho, hnew]

/-- After its lease has expired, a job whose POST was not rejected is one step from its outcome:
the commit of the worker that holds its row, or the recovery of a row that nobody holds. -/
theorem outcome_enabled (hr : Run (system c) es s) (hm : ¬ MayFail c j es)
    (ho : (s.jobs j).committed = .present old) (hp : old.status = .processing) :
    ∃ lease, old.leaseExpiresAt = some lease ∧ ∀ now, lease < now → now ≤ s.clock →
      ∃ e u new, (e = .markExpiredProcessingUnknown j now ∨ ∃ w, e = .work w .commit) ∧
        step c s e = some u ∧ (u.jobs j).committed = .present new ∧
        new.status ∈ [.accepted, .unknown] := by
  have hf : FormedSlot (s.jobs j).committed := ((outcome_invariant hr).formed j).1
  rw [ho] at hf
  obtain ⟨lease, hl⟩ := Option.isSome_iff_exists.mp (hf.leased hp)
  refine ⟨lease, hl, fun now hlt hn => ?_⟩
  cases hheld : (s.jobs j).held with
  | none =>
    obtain ⟨u, new, hu, hc, hs⟩ := recovery_applies (c := c) ho hp hl hlt hn hheld
    exact ⟨_, u, new, .inl rfl, hu, hc, by simp [hs]⟩
  | some held =>
    obtain ⟨w, k, result, row, ht, hk, hres, hrow, hs⟩ :=
      processing_holder hr hm ho hp (hheld : _ = some (held.1, held.2))
    have hparties : moveParties c s (.work w .commit) = some
        ((s.setLease k.row.sessionId (s.leases k.row.sessionId)).setWorker w k.afterCommit) := by
      simp only [moveParties, hk, workerNext, hres, Option.map_some, leaseAfter]
    have heffect : jobEffect s (.work w .commit) = .commit (.worker w) := by
      simp only [jobEffect, hk, workerEffect]
    refine ⟨.work w .commit, _, row, .inr ⟨w, rfl⟩,
      step_of_parties hparties (by rw [heffect]; trivial), ?_, hs⟩
    simp only [heffect, Effect.apply, Table.commit_apply]
    rw [Row.commit_of_held (v := .present row) (by rw [hheld, ← ht, ← hrow])]

end Outcomes

/-- A committed row keeps its upstream message id, and an UNKNOWN row, which has none, is not
reached by webhooks. -/
theorem row_kept {old new : MessageJob} (hr : Reachable (system c) s) (h : step c s e = some u)
    (ho : (s.jobs j).committed = .present old) (hn : (u.jobs j).committed = .present new) :
    (old.openwaMessageId ≠ none → new.openwaMessageId ≠ none) ∧
      (old.status = .unknown → new.status = .unknown) := by
  obtain ⟨es, hrun⟩ := hr
  have hf : FormedSlot (s.jobs j).committed := ((outcome_invariant hrun).formed j).1
  rw [ho] at hf
  have hstep := committed_step ⟨es, hrun⟩ h j
  rw [hn] at hstep
  -- a row that awaits a worker has neither an id nor an outcome
  have hawaits : old.status.AwaitsWorker →
      (old.openwaMessageId ≠ none → new.openwaMessageId ≠ none) ∧
        (old.status = .unknown → new.status = .unknown) := by
    rintro (ha | ha)
    · exact ⟨fun hne => by simpa [ha] using hf.addressed hne, fun hu => by simp [ha] at hu⟩
    · exact ⟨fun hne => by simpa [ha] using hf.addressed hne, fun hu => by simp [ha] at hu⟩
  generalize hslot : JobSlot.present new = slot at hstep
  cases hstep with
  | same =>
    rw [ho] at hslot
    cases hslot
    exact ⟨id, id⟩
  | own hown =>
    rw [ho] at hown
    subst hslot
    cases hown with
    | refreshed _ hp _ _ hid => exact ⟨fun hne => by rw [hid]; exact hne, fun hu => by simp [hp] at hu⟩
    | returned hq => exact hawaits (.inr hq)
    | taken hq => exact hawaits (.inr hq)
    | expired hp hu hid => exact ⟨fun hne => by rw [hid]; exact hne, fun _ => hu⟩
  | @commit t _ _ hh hholds =>
    subst hslot
    cases hholds with
    | worker _ _ _ _ hc =>
      obtain ⟨before, hbefore, hp⟩ := hc
      rw [ho] at hbefore
      cases hbefore
      exact ⟨fun hne => by simpa [hp] using hf.addressed hne, fun hu => by simp [hp] at hu⟩
    | dispatcher ha =>
      have hback := no_return (rows_follow ⟨es, hrun⟩ j _ _ hh) ha
      rw [ho] at hback
      exact hawaits hback
    | external _ hc =>
      obtain ha | ⟨before, hbefore, hne, hid⟩ := hc
      · rw [ho] at ha
        exact hawaits ha
      · rw [ho] at hbefore
        cases hbefore
        refine ⟨fun _ => by rw [hid]; exact hne, fun hu => ?_⟩
        simpa [hu] using hf.addressed hne

/-- An UNKNOWN job is not scheduled, queued or processed again. -/
theorem unknown_moves {old : MessageJob} {slot : JobSlot} (h : SlotMoves (.present old) slot)
    (ho : old.status = .unknown) :
    slot ≠ .unused ∧ ∀ new, slot = .present new →
      new.status ∉ [.scheduled, .queued, .processing] := by
  induction h with
  | refl => exact ⟨by simp, fun new hn => by cases hn; simp [ho]⟩
  | @tail b d _ hs ih =>
    obtain ⟨hne, hb⟩ := ih
    cases hs with
    | created => exact absurd rfl hne
    | deleted => exact ⟨by simp, by simp⟩
    | kept hs =>
      refine ⟨by simp, fun new hn => ?_⟩
      cases hn
      rw [hs]
      exact hb _ rfl
    | claimed hs => exact absurd (by simp [hs]) (hb _ rfl)
    | returned hs => exact absurd (by simp [hs]) (hb _ rfl)
    | taken hs => exact absurd (by simp [hs]) (hb _ rfl)
    | recorded hs => exact absurd (by simp [hs]) (hb _ rfl)
    | acknowledged ho =>
      refine ⟨by simp, fun new hn => ?_⟩
      cases hn
      have hw := webhook_status ho
      intro hm
      simp only [List.mem_cons, List.not_mem_nil, or_false] at hm
      rcases hm with hm | hm | hm <;> simp [hm] at hw
    | cancelled hs =>
      rcases hs with hs | hs
      · exact absurd (by simp [hs]) (hb _ rfl)
      · exact absurd (by simp [hs]) (hb _ rfl)

/-- Conservative send outcomes, for every job at every point of every run. -/
structure ConservativeOutcomes (c : Config) (es : List Event) (s : State) (j : JobId) : Prop where
  /-- The worker or the scheduler makes the job FAILED only if its POST is never started, or was
  answered with an HTTP 4xx status other than 408. -/
  failed : ∀ e u new, step c s e = some u → (∀ t, e ≠ .commit t) →
    (u.jobs j).committed = .present new → new.status = .failed →
    (s.jobs j).committed ≠ (u.jobs j).committed → ∀ fs v, Execution (system c) u fs v →
    sends j (es ++ e :: fs) = 0 ∨ Rejected c j (es ++ e :: fs)
  /-- Every other started POST leaves the job PROCESSING, or it has become ACCEPTED or UNKNOWN. -/
  posted : sends j es ≠ 0 → ¬ Rejected c j es → Posted (s.jobs j).committed
  /-- Whoever takes such a job out of PROCESSING makes it ACCEPTED or UNKNOWN. -/
  left : ∀ e u old, sends j es ≠ 0 → ¬ Rejected c j es → step c s e = some u →
    (s.jobs j).committed = .present old → old.status = .processing →
    (u.jobs j).committed = .present old ∨
      ∃ new, (u.jobs j).committed = .present new ∧ new.status ∈ [.accepted, .unknown]
  /-- Once its lease has expired, a step that does so is enabled. -/
  enabled : ∀ old, sends j es ≠ 0 → ¬ Rejected c j es →
    (s.jobs j).committed = .present old → old.status = .processing →
    ∃ lease, old.leaseExpiresAt = some lease ∧ ∀ now, lease < now → now ≤ s.clock →
      ∃ e u new, (e = .markExpiredProcessingUnknown j now ∨ ∃ w, e = .work w .commit) ∧
        step c s e = some u ∧ (u.jobs j).committed = .present new ∧
        new.status ∈ [.accepted, .unknown]
  /-- An UNKNOWN job is never scheduled, queued or processed again. -/
  unknown : ∀ fs u old new, Execution (system c) s fs u → (s.jobs j).committed = .present old →
    old.status = .unknown → (u.jobs j).committed = .present new →
    new.status ∉ [.scheduled, .queued, .processing]

theorem conservative_send_outcomes (h : Run (system c) es s) (j : JobId) :
    ConservativeOutcomes c es s j := by
  have hmay : sends j es ≠ 0 → ¬ Rejected c j es → ¬ MayFail c j es :=
    fun hs hr hm => hm.elim hs hr
  constructor
  · exact fun e u new hstep he hn hf ho fs v hv => failed_by_system h hstep he hn hf ho hv
  · exact fun hs hr => (outcome_invariant h).posted j (.inr (hmay hs hr))
  · exact fun e u old hs hr hstep => processing_left h (hmay hs hr) hstep
  · exact fun old hs hr => outcome_enabled h (hmay hs hr)
  · intro fs u old new hexec ho hu hn
    have hm := MessageStatusOrder.execution_moves ⟨es, h⟩ hexec j
    rw [ho, hn] at hm
    exact (unknown_moves hm hu).2 new rfl

/-- The worker crashes after its POST, and the recovery finds the lease expired. -/
def crashedAfterPost : List Event :=
  unknownOutcome.take 16 ++ [.crash 0, .tick 120001, .markExpiredProcessingUnknown 1 120001]

theorem crashed_post_becomes_unknown :
    sends 1 crashedAfterPost = 1 ∧
      (∃ row, ((runTrace (system ⟨true, 1000⟩) initial crashedAfterPost).jobs 1).committed =
        .present row ∧ row.status = .unknown) ∧
      ConservativeOutcomes ⟨true, 1000⟩ crashedAfterPost
        (runTrace (system ⟨true, 1000⟩) initial crashedAfterPost) 1 :=
  ⟨rfl, ⟨_, rfl, rfl⟩, conservative_send_outcomes (valid_trace_run rfl (by decide)) 1⟩

end SendOutcomes
