import WaRuntime.MessageJobTransitions

/-! At most one POST for each message job.
A row that no worker has taken has no POST behind it; `markProcessing` takes it once and for all,
since no statement of any writer brings a taken row back to SCHEDULED or QUEUED. -/
namespace OutboundSendAtMostOnce

open TransitionRuns RowVersions MessageJobStatements OpenWARequest OutboundMessageExecution
open MessageJobTransitions

variable {c : Config} {s u : State} {e : Event} {j : JobId} {w : ℕ}

def isSend (job : JobId) : Event → Bool
  | .work _ (.fetch j) => j == job
  | _ => false

/-- The number of POST requests issued for a job in a run. -/
def sends (job : JobId) (es : List Event) : ℕ := es.countP (isSend job)

/-- The phases in which `process` holds a taken row and has not issued its POST. -/
def BeforePost : Phase → Prop
  | .marked | .checkingPolicy | .acquiring _ | .leased | .pacing | .renewed | .sending _ => True
  | _ => False

def BeforeSend (j : JobId) : WorkerState → Prop
  | .working k => k.job = j ∧ BeforePost k.phase
  | _ => False

theorem after_release_not_before (k : Worker) (after : AfterRelease) :
    ¬ BeforeSend j (k.afterRelease after) := by
  cases after <;> simp [Worker.afterRelease, Worker.withPhase, BeforeSend, BeforePost]

theorem after_throw_not_before (k : Worker) (message : String) :
    ¬ BeforeSend j (k.afterThrow message) := by
  unfold Worker.afterThrow
  split
  case h_11 => exact after_release_not_before k _
  all_goals simp [Worker.withPhase, BeforeSend, BeforePost]

/-- The answer to a POST is never a reason to fetch again. -/
theorem after_post_not_before (counters : Counters) (outcome : Outcome String) :
    ¬ BeforePost (afterTurn (turn "send_text" .post counters outcome)) := by
  cases ht : turn "send_text" .post counters outcome with
  | fetchAgain c => exact absurd ht post_is_not_repeated
  | returned messageId => exact id
  | raised error =>
    simp only [afterTurn]
    split <;> exact id

/-- The moves that leave a worker before its POST. -/
inductive PreparingMove (c : Config) (s : State) (k : Worker) : WorkerEvent → Phase → Prop where
  | branch : k.phase = .marked → PreparingMove c s k .branch .checkingPolicy
  | passed : k.phase = .checkingPolicy →
      PreparingMove c s k (.policyAnswered none) (.acquiring s.clock)
  | acquired {now since : ℕ} : k.phase = .acquiring since → now ≤ s.clock →
      (tryAcquire now (acquisitionTtlMs c) k.job k.token (s.leases k.row.sessionId)).isSome →
      PreparingMove c s k (.tryAcquire now) .leased
  | busy {now since : ℕ} : k.phase = .acquiring since →
      tryAcquire now (acquisitionTtlMs c) k.job k.token (s.leases k.row.sessionId) = none →
      PreparingMove c s k (.tryAcquire now) (.acquiring since)
  | refreshed {now since : ℕ} : k.phase = .acquiring since →
      PreparingMove c s k (.refreshWhileWaiting now) (.acquiring s.clock)
  | confirmed {now : ℕ} : k.phase = .leased → PreparingMove c s k (.confirmProcessing now) .pacing
  | renewed {now : ℕ} : k.phase = .pacing → now ≤ s.clock →
      (renew now sendLeaseMs k.job k.token (s.leases k.row.sessionId)).isSome →
      PreparingMove c s k (.renew now) .renewed
  | verified {now : ℕ} : k.phase = .renewed →
      PreparingMove c s k (.verifyProcessing now) (.sending ⟨0, 0⟩)

theorem preparing_move {k k' : Worker} {we : WorkerEvent} (h : WorkerMove c s k we (.working k'))
    (hb : BeforePost k'.phase) : PreparingMove c s k we k'.phase := by
  have hrelease : ∀ after, k.afterRelease after ≠ .working k' := by
    intro after hk
    exact after_release_not_before (j := k'.job) k after (by rw [hk]; exact ⟨rfl, hb⟩)
  have hthrow : ∀ message, k.afterThrow message ≠ .working k' := by
    intro message hk
    exact after_throw_not_before (j := k'.job) k message (by rw [hk]; exact ⟨rfl, hb⟩)
  generalize ht : WorkerState.working k' = target at h
  cases h with
  | branch hp =>
    cases ht
    simp only [afterBranch] at hb ⊢
    split at hb
    · exact absurd hb id
    · rename_i hdry
      split at hb
      · rename_i hlive
        simpa [hdry, hlive] using PreparingMove.branch hp
      · exact absurd hb id
  | @policyAnswered reason hp =>
    cases ht
    cases reason with
    | none => exact .passed hp
    | some reason => exact absurd hb id
  | acquired hp hn hl =>
    cases ht
    exact .acquired hp hn hl
  | busy hp hl =>
    cases ht
    rw [hp]
    exact .busy hp hl
  | refreshed hp =>
    cases ht
    exact .refreshed hp
  | confirmed hp =>
    cases ht
    exact .confirmed hp
  | renewed hp hn hl =>
    cases ht
    exact .renewed hp hn hl
  | verified hp =>
    cases ht
    exact .verified hp
  | answered =>
    cases ht
    exact absurd hb (after_post_not_before _ _)
  | write hr =>
    cases ht
    cases hp : k.phase <;> simp [hp, Phase.result] at hr <;>
      simp [hp, Phase.wrote, BeforePost] at hb
  | commit hr =>
    unfold Worker.afterCommit at ht
    split at ht
    · cases ht
      exact absurd hb id
    · cases ht
    · rename_i ha hc
      cases hp : k.phase <;> simp [hp, Phase.result] at hr ha hc
  | commitLost => exact absurd ht.symm (hthrow _)
  | throws => exact absurd ht.symm (hthrow _)
  | release => exact absurd ht.symm (hrelease _)
  | _ =>
    cases ht
    exact absurd hb id

theorem preparing_before {k : Worker} {we : WorkerEvent} {phase : Phase}
    (h : PreparingMove c s k we phase) : BeforePost k.phase ∧ ∀ i, we ≠ .fetch i := by
  cases h with
  | branch hp => exact ⟨by rw [hp]; trivial, by simp⟩
  | passed hp => exact ⟨by rw [hp]; trivial, by simp⟩
  | acquired hp => exact ⟨by rw [hp]; trivial, by simp⟩
  | busy hp => exact ⟨by rw [hp]; trivial, by simp⟩
  | refreshed hp => exact ⟨by rw [hp]; trivial, by simp⟩
  | confirmed hp => exact ⟨by rw [hp]; trivial, by simp⟩
  | renewed hp => exact ⟨by rw [hp]; trivial, by simp⟩
  | verified hp => exact ⟨by rw [hp]; trivial, by simp⟩

/-- Inside `process` nothing leads back before the POST, and the POST leaves these phases. -/
theorem worker_before_send {k : Worker} {we : WorkerEvent} {k' : WorkerState}
    (h : workerNext c s k we = some k') (hb : BeforeSend j k') :
    BeforeSend j (.working k) ∧ ∀ i, we ≠ .fetch i := by
  cases k' with
  | working k' =>
    have hm := worker_moves h
    obtain ⟨hjob, hphase⟩ := hb
    obtain ⟨hbefore, hne⟩ := preparing_before (preparing_move hm hphase)
    exact ⟨⟨by rw [← (worker_move_keeps hm).1, hjob], hbefore⟩, hne⟩
  | _ => exact absurd hb id

/-- A worker is before its POST for a job because it was, or because it has just taken the row. -/
theorem before_send_origin (h : step c s e = some u) (hb : BeforeSend j (u.workers w)) :
    (BeforeSend j (s.workers w) ∧ ∀ i, e ≠ .work w (.fetch i)) ∨
      ((∃ now token, e = .markProcessing w now token) ∧ (s.jobs j).committed.AwaitsWorker ∧
        ¬ (u.jobs j).committed.AwaitsWorker) := by
  obtain ⟨v, hv, hr, rfl⟩ := step_some h
  by_cases ha : actor e = some (.worker w)
  · cases e <;> simp only [actor, reduceCtorEq, Option.some.injEq, Tx.worker.injEq] at ha <;>
      simp only [moveParties] at hv
    case work w' we =>
      subst ha
      split at hv
      · rename_i k hk
        obtain ⟨k', hk', rfl⟩ := Option.map_eq_some_iff.mp hv
        simp only [State.setWorker_workers, Function.update_self] at hb
        obtain ⟨hbk, hne⟩ := worker_before_send hk' hb
        rw [hk]
        exact .inl ⟨hbk, fun i hi => hne i (by simpa using hi)⟩
      · cases hv
    case markProcessing w' now token =>
      subst ha
      split at hv
      · rename_i job hw
        obtain ⟨_, rfl⟩ := guarded_eq_some.mp hv
        simp only [State.setWorker_workers, Function.update_self] at hb
        split at hb
        · rename_i row hm
          obtain ⟨old, new, ho, hn, hrow⟩ := onPresent_some hm
          obtain ⟨hq, hp, _⟩ := markProcessing_some hn
          obtain rfl : job = j := hb.1
          refine .inr ⟨⟨now, token, rfl⟩, ?_, ?_⟩
          · rw [ho]
            exact .inr hq
          · have hnew : JobSlot.present row = .present new := hrow
            simp only [jobEffect, hw, Effect.apply, Table.update_same, Row.update, hm,
              Row.settled_committed, hnew]
            rintro (hs | hs) <;> rw [hp] at hs <;> cases hs
        · exact absurd hb id
      · cases hv
    case commit t =>
      subst ha
      cases (guarded_eq_some.mp hv).1
    case abort t =>
      subst ha
      cases (guarded_eq_some.mp hv).1
    case insertJob t job input now =>
      subst ha
      cases (guarded_eq_some.mp hv).1.1
    case cancelJob t job now =>
      subst ha
      cases (guarded_eq_some.mp hv).1.1
    case deliver w' job =>
      subst ha
      obtain ⟨_, rfl⟩ := guarded_eq_some.mp hv
      simp only [State.setWorker_workers, Function.update_self] at hb
      exact absurd hb id
    case crash w' =>
      subst ha
      cases hv
      simp only [State.setWorker_workers, Function.update_self] at hb
      exact absurd hb id
    all_goals
      subst ha
      split at hv <;> simp only [guarded_eq_some, Option.some.injEq, reduceCtorEq] at hv
      first
      | subst hv
      | obtain ⟨_, rfl⟩ := hv
      simp only [State.setWorker_workers, Function.update_self] at hb
      exact absurd hb id
  · refine .inl ⟨?_, ?_⟩
    · rw [← other_worker_unchanged hv ha]
      exact hb
    · rintro i rfl
      exact ha rfl

/-- The steps that lead to a send: a job that is up for taking has neither a worker nor a POST,
one worker at most holds a taken job before its POST, and there is no POST behind it. -/
structure SendInvariant (es : List Event) (s : State) : Prop where
  untaken : ∀ j, (s.jobs j).committed.AwaitsWorker →
    sends j es = 0 ∧ ∀ w, ¬ BeforeSend j (s.workers w)
  alone : ∀ j w w', BeforeSend j (s.workers w) → BeforeSend j (s.workers w') → w = w'
  unsent : ∀ j w, BeforeSend j (s.workers w) → sends j es = 0
  bound : ∀ j, sends j es ≤ 1

theorem initial_send_invariant : SendInvariant [] initial := by
  constructor
  · exact fun j _ => ⟨rfl, fun w h => h⟩
  · exact fun j w w' h => absurd h id
  · exact fun j w h => absurd h id
  · exact fun j => Nat.zero_le 1

theorem sends_append (es : List Event) (e : Event) :
    sends j (es ++ [e]) = sends j es + if isSend j e then 1 else 0 := by
  simp [sends, List.countP_append, List.countP_singleton]

/-- A POST for `j` comes from a worker that holds `j` and has not sent it yet. -/
theorem send_origin (h : step c s e = some u) (hs : isSend j e) :
    ∃ w, e = .work w (.fetch j) ∧ BeforeSend j (s.workers w) ∧
      ∀ i, ¬ BeforeSend i (u.workers w) := by
  cases e with
  | work w we =>
    cases we with
    | fetch i =>
      obtain rfl : i = j := by simpa [isSend] using hs
      obtain ⟨v, hv, hr, rfl⟩ := step_some h
      simp only [moveParties] at hv
      split at hv
      · rename_i k hk
        obtain ⟨k', hk', rfl⟩ := Option.map_eq_some_iff.mp hv
        simp only [workerNext] at hk'
        split at hk'
        · rename_i counters hp
          obtain ⟨rfl, rfl⟩ := guarded_eq_some.mp hk'
          refine ⟨w, rfl, ?_, fun i hb => ?_⟩
          · rw [hk]
            exact ⟨rfl, by simp [hp, BeforePost]⟩
          · simp only [State.setWorker_workers, Function.update_self] at hb
            exact absurd hb.2 id
        · cases hk'
      · cases hv
    | _ => simp [isSend] at hs
  | _ => simp [isSend] at hs

theorem send_invariant_step {es : List Event} (hr : Reachable (system c) s)
    (hI : SendInvariant es s) (h : step c s e = some u) : SendInvariant (es ++ [e]) u := by
  have hback : ∀ j, (u.jobs j).committed.AwaitsWorker → (s.jobs j).committed.AwaitsWorker :=
    fun j => no_return (committed_row_moves hr h j)
  constructor
  · intro j ha
    obtain ⟨hz, hn⟩ := hI.untaken j (hback j ha)
    constructor
    · rw [sends_append, hz]
      by_cases hs : isSend j e
      · obtain ⟨w, _, hb, _⟩ := send_origin h hs
        exact absurd hb (hn w)
      · simp [hs]
    · intro w hb
      obtain ⟨hb, _⟩ | ⟨_, _, hna⟩ := before_send_origin h hb
      · exact hn w hb
      · exact hna ha
  · intro j w w' hb hb'
    obtain ⟨ho, _⟩ | ⟨⟨now, token, he⟩, ha, _⟩ := before_send_origin h hb
    · obtain ⟨ho', _⟩ | ⟨_, ha', _⟩ := before_send_origin h hb'
      · exact hI.alone j w w' ho ho'
      · exact absurd ho ((hI.untaken j ha').2 w)
    · obtain ⟨ho', _⟩ | ⟨⟨now', token', he'⟩, _, _⟩ := before_send_origin h hb'
      · exact absurd ho' ((hI.untaken j ha).2 w')
      · rw [he] at he'
        cases he'
        rfl
  · intro j w hb
    rw [sends_append]
    obtain ⟨ho, hne⟩ | ⟨⟨now, token, rfl⟩, ha, _⟩ := before_send_origin h hb
    · rw [hI.unsent j w ho]
      by_cases hs : isSend j e
      · obtain ⟨w', rfl, hb', _⟩ := send_origin h hs
        obtain rfl := hI.alone j w w' ho hb'
        exact absurd rfl (hne j)
      · simp [hs]
    · rw [(hI.untaken j ha).1]
      rfl
  · intro j
    rw [sends_append]
    by_cases hs : isSend j e
    · obtain ⟨w, _, hb, _⟩ := send_origin h hs
      rw [hI.unsent j w hb]
      simp [hs]
    · simpa [hs] using hI.bound j

theorem send_invariant {es : List Event} (h : Run (system c) es s) : SendInvariant es s := by
  refine run_invariant (M := system c) ?_ (fun es s e hr hI he => ?_) h
  · rintro _ rfl
    exact initial_send_invariant
  · exact send_invariant_step ⟨es, hr⟩ hI (ofStep_enabled he)

/-- In every run, at most one POST is issued for a message job. -/
theorem at_most_one_post (h : Run (system c) es s) (job : JobId) : sends job es ≤ 1 :=
  (send_invariant h).bound job

/-- A job is sent, the outcome of its POST is unknown, and the queue delivers its id again. -/
def unknownOutcome : List Event :=
  [.insertJob (.api 0) 1 ⟨"session", "group@g.us", "text", 0, false⟩ 0, .commit (.api 0),
    .lockDue 0 1 0, .queueClaimed 0 0, .commitClaim 0 true, .publish 0 1,
    .deliver 0 1, .markProcessing 0 0 7, .work 0 .branch, .work 0 (.policyAnswered none),
    .work 0 (.tryAcquire 0), .work 0 (.confirmProcessing 0), .work 0 (.renew 0),
    .work 0 (.verifyProcessing 0), .work 0 (.fetch 1),
    .work 0 (.answered (.threw "The operation was aborted due to timeout")),
    .work 0 (.release true), .work 0 (.write 0), .work 0 .commit, .settle 0,
    .deliver 1 1, .markProcessing 1 0 8, .settle 1]

theorem one_post_with_unknown_outcome :
    sends 1 unknownOutcome = 1 ∧ sends 1 unknownOutcome ≤ 1 :=
  ⟨rfl, at_most_one_post (c := ⟨true, 1000⟩) (valid_trace_run rfl (by decide)) 1⟩

end OutboundSendAtMostOnce
