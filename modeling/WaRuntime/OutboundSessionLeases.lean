import WaRuntime.OutboundSendAtMostOnce

/-! The session lease in real time.
A POST is in flight from its fetch to the answer or the error it ends in, thirty seconds at most;
that of a worker that crashed counts as in flight for the whole thirty. What the code leaves to
the machine is one assumption of `timedSystem`: the POST starts within fifteen seconds of the
database time at which its lease was renewed. -/
namespace OutboundSessionLeases

open TransitionRuns RowVersions MessageJobStatements OpenWARequest OutboundMessageExecution
open MessageJobTransitions OutboundSendAtMostOnce

variable {c : Config} {j : JobId} {w : ℕ}

/-- `AbortSignal.timeout` of a request. -/
def fetchTimeoutMs : ℕ := 30000

def renewalToPostMs : ℕ := 15000

structure Post where
  session : String
  job : JobId
  worker : ℕ
  startedAt : ℕ
  endedAt : Option ℕ
  deriving DecidableEq, Repr

def Post.InFlight (p : Post) (t : ℕ) : Prop :=
  p.startedAt ≤ t ∧ ∀ e, p.endedAt = some e → t < e

/-- The request of worker `w` that has no end yet ends, at a time that may depend on its start. -/
def Post.endBy (w : ℕ) (time : ℕ → ℕ) (p : Post) : Post :=
  if p.worker = w ∧ p.endedAt = none then { p with endedAt := some (time p.startedAt) } else p

structure TimedState where
  base : State
  renewedAt : ℕ → ℕ
  posts : List Post

def timedInitial : TimedState := ⟨initial, fun _ => 0, []⟩

/-- No request outlives its timeout, and no POST starts late after its renewal. -/
def timely (s : TimedState) : Event → Bool
  | .tick ms => s.posts.all fun p =>
    p.endedAt.isSome || decide (s.base.clock + ms ≤ p.startedAt + fetchTimeoutMs)
  | .work w (.fetch _) => decide (s.base.clock ≤ s.renewedAt w + renewalToPostMs)
  | _ => true

theorem timely_tick {s : TimedState} {ms : ℕ} {p : Post} (h : timely s (.tick ms))
    (hp : p ∈ s.posts) (hn : p.endedAt = none) :
    s.base.clock + ms ≤ p.startedAt + fetchTimeoutMs := by
  have hall := List.all_eq_true.mp h p hp
  simpa [hn] using hall

theorem timely_fetch {s : TimedState} {job : JobId} (h : timely s (.work w (.fetch job))) :
    s.base.clock ≤ s.renewedAt w + renewalToPostMs :=
  of_decide_eq_true h

/-- The database time of each worker's last successful renewal. -/
def renewedAfter (s : TimedState) : Event → ℕ → ℕ
  | .work w (.renew now) =>
    match s.base.workers w with
    | .working k =>
      if (renew now sendLeaseMs k.job k.token (s.base.leases k.row.sessionId)).isSome then
        Function.update s.renewedAt w now
      else s.renewedAt
    | _ => s.renewedAt
  | _ => s.renewedAt

def postsAfter (s : TimedState) : Event → List Post
  | .work w (.fetch job) =>
    match s.base.workers w with
    | .working k => s.posts ++ [⟨k.row.sessionId, job, w, s.base.clock, none⟩]
    | _ => s.posts
  | .work w (.answered _) | .work w (.throws _) =>
    s.posts.map (Post.endBy w fun _ => s.base.clock)
  | .crash w => s.posts.map (Post.endBy w fun startedAt => startedAt + fetchTimeoutMs)
  | _ => s.posts

def timedStep (c : Config) (s : TimedState) (e : Event) : Option TimedState :=
  match step c s.base e with
  | none => none
  | some u => guarded (timely s e) ⟨u, renewedAfter s e, postsAfter s e⟩

def timedSystem (c : Config) : System TimedState Event := ofStep (· = timedInitial) (timedStep c)

instance (c : Config) (s : TimedState) (e : Event) : Decidable ((timedSystem c).enabled s e) :=
  inferInstanceAs (Decidable ((timedStep c s e).isSome = true))

theorem timed_step_some {s u : TimedState} {e : Event} (h : timedStep c s e = some u) :
    step c s.base e = some u.base ∧ timely s e ∧ u.renewedAt = renewedAfter s e ∧
      u.posts = postsAfter s e := by
  unfold timedStep at h
  split at h
  · cases h
  · rename_i v hv
    obtain ⟨ht, rfl⟩ := guarded_eq_some.mp h
    exact ⟨hv, ht, rfl, rfl⟩

theorem timed_projects : Projects (timedSystem c) (system c) TimedState.base := by
  refine projects_ofStep ?_ ?_
  · rintro _ rfl
    rfl
  · intro s e u h
    exact ⟨[e], ofStep_execution (timed_step_some h).1⟩

section Rows

variable {s u : State} {e : Event}

/-- The lease of the worker's session is the worker's own. -/
def Owns (s : State) (k : Worker) : Prop :=
  ∃ lease, s.leases k.row.sessionId = some lease ∧ lease.OwnedBy k.job k.token

/-- The phases from the renewal of the lease to the end of the POST. -/
def Verified : Phase → Prop
  | .renewed | .sending _ | .awaiting _ => True
  | _ => False

theorem acquired_lease {now ttl token : ℕ} {old : Option SessionLease}
    (h : (tryAcquire now ttl j token old).isSome) :
    (tryAcquire now ttl j token old).or old = some ⟨token, j, now + ttl⟩ ∧
      ∀ lease, old = some lease → lease.leaseExpiresAt < now ∨ lease.OwnedBy j token := by
  cases old with
  | none => exact ⟨rfl, fun lease hl => nomatch hl⟩
  | some lease =>
    simp only [tryAcquire] at h ⊢
    split at h
    · rename_i hfree
      refine ⟨by rw [if_pos hfree]; rfl, ?_⟩
      intro lease' hl
      cases hl
      exact hfree
    · cases h

theorem renewed_lease {now ttl token : ℕ} {old : Option SessionLease}
    (h : (renew now ttl j token old).isSome) :
    ∃ lease, old = some lease ∧ lease.OwnedBy j token ∧ now < lease.leaseExpiresAt ∧
      (renew now ttl j token old).or old = some { lease with leaseExpiresAt := now + ttl } := by
  cases old with
  | none => cases h
  | some lease =>
    simp only [renew] at h ⊢
    split at h
    · rename_i hown
      exact ⟨lease, rfl, hown.1, hown.2, by rw [if_pos hown]; rfl⟩
    · cases h

theorem released_lease {token : ℕ} {lease : SessionLease} (h : lease.holderMessageJobId ≠ j) :
    release j token (some lease) = some lease := by
  simp [release, SessionLease.OwnedBy, h]

/-- A lease stays until it expires, unless the worker whose job it names changes it. -/
theorem lease_stays {session : String} {lease : SessionLease} (h : step c s e = some u)
    (hl : s.leases session = some lease)
    (hother : ∀ w we k, e = .work w we → s.workers w = .working k →
      k.job ≠ lease.holderMessageJobId) :
    u.leases session = some lease ∨ lease.leaseExpiresAt < s.clock := by
  obtain ⟨v, hv, _, rfl⟩ := step_some h
  obtain hsame | ⟨w, we, k, k', rfl, hk, rfl, hm, hafter⟩ := lease_changes session hv
  · exact .inl (hsame.trans hl)
  · have hjob := hother w we k rfl hk
    have hkeep : leaseAfter c k (s.leases k.row.sessionId) we = s.leases k.row.sessionId ∨
        lease.leaseExpiresAt < s.clock := by
      cases hm with
      | acquired _ hn ha =>
        obtain hexp | hown := (acquired_lease ha).2 lease hl
        · exact .inr (by omega)
        · exact absurd hown.1.symm hjob
      | busy _ hb => exact .inl (by simp [leaseAfter, hb])
      | renewed _ _ hr =>
        obtain ⟨lease', hl', hown, _⟩ := renewed_lease hr
        rw [hl] at hl'
        cases hl'
        exact absurd hown.1.symm hjob
      | leaseLost _ hr => exact .inl (by simp [leaseAfter, hr])
      | release =>
        refine .inl ?_
        simp only [leaseAfter, hl]
        split
        · exact released_lease (Ne.symm hjob)
        · rfl
      | skips he => rcases he with ⟨rfl, _⟩ | ⟨rfl, _⟩ | ⟨rfl, _⟩ <;> exact .inl rfl
      | _ => exact .inl rfl
    refine hkeep.imp_left fun hsame => ?_
    rw [← hl, ← hsame]
    exact hafter

/-- `markProcessing` finds a row that is up for taking and leaves one that is not. -/
theorem taken_row {now token : ℕ} {job : JobId} {row : MessageJob}
    (h : step c s (.markProcessing w now token) = some u) (hs : s.workers w = .starting job)
    (hm : onPresent (markProcessing now) (s.jobs job).committed = some (.present row)) :
    (s.jobs job).committed.AwaitsWorker ∧ ¬ (u.jobs job).committed.AwaitsWorker := by
  obtain ⟨v, _, _, rfl⟩ := step_some h
  obtain ⟨old, new, ho, hn, hrow⟩ := onPresent_some hm
  obtain ⟨hq, hp, _⟩ := markProcessing_some hn
  have hnew : JobSlot.present row = .present new := hrow
  constructor
  · rw [ho]
    exact .inr hq
  · simp only [jobEffect, hs, Effect.apply, Table.update_same, Row.update, hm,
      Row.settled_committed, hnew]
    rintro (h | h) <;> rw [hp] at h <;> cases h

/-- Only time moves the clock. -/
theorem clock_next (h : step c s e = some u) :
    u.clock = s.clock ∨ ∃ ms, e = .tick ms ∧ u.clock = s.clock + ms := by
  obtain ⟨v, hv, hr, rfl⟩ := step_some h
  cases e <;> simp only [moveParties] at hv
  case tick ms =>
    cases hv
    exact .inr ⟨ms, rfl, rfl⟩
  case work w we =>
    split at hv
    · obtain ⟨k', _, rfl⟩ := Option.map_eq_some_iff.mp hv
      exact .inl rfl
    · cases hv
  all_goals (try split at hv)
  all_goals simp only [guarded_eq_some, Option.some.injEq, reduceCtorEq] at hv
  all_goals
    first
    | subst hv
    | obtain ⟨_, rfl⟩ := hv
    exact .inl rfl

/-- What a step does to the list of requests. -/
inductive PostMove (s : TimedState) : Event → List Post → Prop where
  | kept {e : Event} : (∀ w, e ≠ .crash w) →
      (∀ w we, e = .work w we → (∀ outcome, we ≠ .answered outcome) ∧ ∀ message, we ≠ .throws message) →
      PostMove s e s.posts
  | started {w : ℕ} {k : Worker} {counters : Counters} : s.base.workers w = .working k → k.phase = .sending counters →
      s.base.clock ≤ s.renewedAt w + renewalToPostMs →
      PostMove s (.work w (.fetch k.job))
        (s.posts ++ [⟨k.row.sessionId, k.job, w, s.base.clock, none⟩])
  | ended {w : ℕ} {we : WorkerEvent} : (∃ outcome, we = .answered outcome) ∨ (∃ message, we = .throws message) →
      PostMove s (.work w we) (s.posts.map (Post.endBy w fun _ => s.base.clock))
  | cut {w : ℕ} : PostMove s (.crash w)
      (s.posts.map (Post.endBy w fun startedAt => startedAt + fetchTimeoutMs))

theorem post_moves {s u : TimedState} (h : timedStep c s e = some u) : PostMove s e u.posts := by
  obtain ⟨hstep, ht, _, hposts⟩ := timed_step_some h
  obtain ⟨v, hv, _, _⟩ := step_some hstep
  rw [hposts]
  cases e with
  | crash w => exact .cut
  | work w we =>
    cases we with
    | answered outcome => exact .ended (.inl ⟨outcome, rfl⟩)
    | throws message => exact .ended (.inr ⟨message, rfl⟩)
    | fetch job =>
      simp only [moveParties] at hv
      split at hv
      · rename_i k hk
        obtain ⟨k', hk', _⟩ := Option.map_eq_some_iff.mp hv
        have hmove := worker_moves hk'
        generalize hwe : WorkerEvent.fetch job = we at hmove
        cases hmove with
        | fetch hp =>
          cases hwe
          simpa only [postsAfter, hk] using PostMove.started hk hp (timely_fetch ht)
        | skips he =>
          subst hwe
          rcases he with ⟨he, _⟩ | ⟨he, _⟩ | ⟨he, _⟩ <;> cases he
        | _ => cases hwe
      · cases hv
    | _ =>
      refine .kept (by simp) ?_
      rintro w' we' hwe
      cases hwe
      simp
  | _ => exact .kept (by simp) (by simp)

/-- Each request of the new list is one of the old, possibly with an end, or has just started. -/
theorem post_origin {s : TimedState} {posts : List Post} {q : Post} (h : PostMove s e posts)
    (hq : q ∈ posts) :
    (∃ p ∈ s.posts, q.session = p.session ∧ q.job = p.job ∧ q.worker = p.worker ∧
        q.startedAt = p.startedAt ∧ (p.endedAt ≠ none → q = p)) ∨
      ∃ w k counters, e = .work w (.fetch k.job) ∧ s.base.workers w = .working k ∧
        k.phase = .sending counters ∧ s.base.clock ≤ s.renewedAt w + renewalToPostMs ∧
        q = ⟨k.row.sessionId, k.job, w, s.base.clock, none⟩ := by
  have hend : ∀ w time, q ∈ s.posts.map (Post.endBy w time) → ∃ p ∈ s.posts,
      q.session = p.session ∧ q.job = p.job ∧ q.worker = p.worker ∧
        q.startedAt = p.startedAt ∧ (p.endedAt ≠ none → q = p) := by
    intro w time hm
    obtain ⟨p, hp, rfl⟩ := List.mem_map.mp hm
    refine ⟨p, hp, ?_⟩
    unfold Post.endBy
    split
    · rename_i he
      exact ⟨rfl, rfl, rfl, rfl, fun hne => absurd he.2 hne⟩
    · exact ⟨rfl, rfl, rfl, rfl, fun _ => rfl⟩
  cases h with
  | kept => exact .inl ⟨q, hq, rfl, rfl, rfl, rfl, fun _ => rfl⟩
  | @started w k counters hk hp ht =>
    rcases List.mem_append.mp hq with hq | hq
    · exact .inl ⟨q, hq, rfl, rfl, rfl, rfl, fun _ => rfl⟩
    · exact .inr ⟨w, k, counters, rfl, hk, hp, ht, List.mem_singleton.mp hq⟩
  | ended => exact .inl (hend _ _ hq)
  | cut => exact .inl (hend _ _ hq)

end Rows

/-- What keeps the requests of a session apart. -/
structure LeaseInvariant (s : TimedState) : Prop where
  untaken : ∀ j, (s.base.jobs j).committed.AwaitsWorker →
    (∀ w k, s.base.workers w = .working k → k.job ≠ j) ∧ ∀ p ∈ s.posts, p.job ≠ j
  alone : ∀ w w' k k', s.base.workers w = .working k → s.base.workers w' = .working k' →
    k.job = k'.job → w = w'
  verified : ∀ w k, s.base.workers w = .working k → Verified k.phase →
    (∃ lease, s.base.leases k.row.sessionId = some lease ∧ lease.OwnedBy k.job k.token ∧
      lease.leaseExpiresAt = s.renewedAt w + sendLeaseMs) ∨
      s.renewedAt w + sendLeaseMs < s.base.clock
  running : ∀ p ∈ s.posts, p.endedAt = none → ∃ k counters,
    s.base.workers p.worker = .working k ∧ k.phase = .awaiting counters ∧ k.job = p.job ∧
      k.row.sessionId = p.session ∧ s.base.clock ≤ p.startedAt + fetchTimeoutMs ∧
      p.startedAt ≤ s.renewedAt p.worker + renewalToPostMs
  abandoned : ∀ p ∈ s.posts, ∀ time, p.endedAt = some time → s.base.clock < time →
    (∀ w k, s.base.workers w = .working k → k.job ≠ p.job) ∧
      ∃ lease, s.base.leases p.session = some lease ∧ lease.holderMessageJobId = p.job ∧
        time ≤ lease.leaseExpiresAt
  apart : s.posts.Pairwise fun p q =>
    p.session = q.session → ∃ time, p.endedAt = some time ∧ time ≤ q.startedAt

section Steps

variable {s u : TimedState} {e : Event}

/-- A worker of the new state has the job of one of the old, or one that was up for taking. -/
theorem working_job {k' : Worker} (h : timedStep c s e = some u)
    (hw : u.base.workers w = .working k') :
    (∃ k, s.base.workers w = .working k ∧ k.job = k'.job) ∨
      ((∃ now token, e = .markProcessing w now token) ∧
        (s.base.jobs k'.job).committed.AwaitsWorker ∧
        ¬ (u.base.jobs k'.job).committed.AwaitsWorker) := by
  obtain ⟨hstep, _⟩ := timed_step_some h
  obtain ⟨v, hv, _, hu⟩ := step_some hstep
  have hwv : v.workers w = .working k' := by
    rw [hu] at hw
    exact hw
  rcases working_origin hv hwv with ⟨_, hs⟩ | ⟨we, k, _, hk, hm⟩ | hmark
  · exact .inl ⟨k', hs, rfl⟩
  · exact .inl ⟨k, hk, (worker_move_keeps hm).1.symm⟩
  · obtain ⟨now, token, job, row, rfl, hs, rfl, hm⟩ := hmark
    exact .inr ⟨⟨now, token, rfl⟩, taken_row hstep hs hm⟩

theorem base_reachable (hr : Reachable (timedSystem c) s) : Reachable (system c) s.base :=
  timed_projects.reachable hr

theorem awaiting_before (hr : Reachable (timedSystem c) s) (h : timedStep c s e = some u)
    (ha : (u.base.jobs j).committed.AwaitsWorker) : (s.base.jobs j).committed.AwaitsWorker :=
  no_return (committed_row_moves (base_reachable hr) (timed_step_some h).1 j) ha

theorem untaken_step (hr : Reachable (timedSystem c) s) (hI : LeaseInvariant s)
    (h : timedStep c s e = some u) (ha : (u.base.jobs j).committed.AwaitsWorker) :
    (∀ w k, u.base.workers w = .working k → k.job ≠ j) ∧ ∀ p ∈ u.posts, p.job ≠ j := by
  obtain ⟨hworkers, hposts⟩ := hI.untaken j (awaiting_before hr h ha)
  constructor
  · rintro w k' hw rfl
    rcases working_job h hw with ⟨k, hk, hjob⟩ | ⟨_, _, hna⟩
    · exact hworkers w k hk hjob
    · exact hna ha
  · intro q hq
    rcases post_origin (post_moves h) hq with ⟨p, hp, _, hjob, _⟩ | hstart
    · rw [hjob]
      exact hposts p hp
    · obtain ⟨w, k, _, _, hk, _, _, rfl⟩ := hstart
      exact hworkers w k hk

theorem alone_step (hI : LeaseInvariant s) (h : timedStep c s e = some u) {w w' : ℕ}
    {k k' : Worker} (hw : u.base.workers w = .working k) (hw' : u.base.workers w' = .working k')
    (hjob : k.job = k'.job) : w = w' := by
  rcases working_job h hw with ⟨k₀, hk₀, hj₀⟩ | ⟨⟨now, token, he⟩, ha, _⟩
  · rcases working_job h hw' with ⟨k₁, hk₁, hj₁⟩ | ⟨_, ha, _⟩
    · exact hI.alone w w' k₀ k₁ hk₀ hk₁ (by rw [hj₀, hj₁, hjob])
    · exact absurd (hj₀.trans hjob) ((hI.untaken _ ha).1 w k₀ hk₀)
  · rcases working_job h hw' with ⟨k₁, hk₁, hj₁⟩ | ⟨⟨now', token', he'⟩, _, _⟩
    · exact absurd (hj₁.trans hjob.symm) ((hI.untaken _ ha).1 w' k₁ hk₁)
    · rw [he] at he'
      cases he'
      rfl

theorem clock_le (h : timedStep c s e = some u) : s.base.clock ≤ u.base.clock := by
  rcases clock_next (timed_step_some h).1 with hc | ⟨ms, _, hc⟩ <;> omega

/-- A worker's renewal time changes only when it renews. -/
theorem renewed_at_kept (h : timedStep c s e = some u) (he : ∀ now, e ≠ .work w (.renew now)) :
    u.renewedAt w = s.renewedAt w := by
  rw [(timed_step_some h).2.2.1]
  unfold renewedAfter
  split
  · rename_i w' now
    have hw : w ≠ w' := by
      rintro rfl
      exact he now rfl
    cases s.base.workers w' with
    | working k =>
      dsimp only
      split
      · exact Function.update_of_ne hw _ _
      · rfl
    | _ => rfl
  · rfl

/-- A worker waits for the answer because it sent, and for no other reason. -/
theorem awaiting_origin {s : State} {k k' : Worker} {we : WorkerEvent} {counters : Counters}
    (h : WorkerMove c s k we (.working k')) (hp : k'.phase = .awaiting counters) :
    we = .fetch k.job ∧ k.phase = .sending counters := by
  generalize ht : WorkerState.working k' = target at h
  have hrelease : ∀ after, k.afterRelease after ≠ .working k' := by
    intro after hk
    cases after <;> cases hk
    cases hp
  cases h with
  | fetch hk =>
    cases ht
    cases hp
    exact ⟨rfl, hk⟩
  | busy hk =>
    cases ht
    rw [hk] at hp
    cases hp
  | branch =>
    cases ht
    simp only [afterBranch] at hp
    split at hp
    · cases hp
    · split at hp <;> cases hp
  | policyAnswered =>
    cases ht
    simp only [afterPolicy] at hp
    split at hp <;> cases hp
  | @answered counters outcome =>
    cases ht
    revert hp
    cases turn "send_text" .post counters outcome with
    | fetchAgain => simp [afterTurn]
    | returned => simp [afterTurn]
    | raised error =>
      simp only [afterTurn]
      split <;> simp
  | write hr =>
    cases ht
    cases hk : k.phase <;> simp [hk, Phase.result] at hr <;> simp [hk, Phase.wrote] at hp
  | commit hr =>
    unfold Worker.afterCommit at ht
    split at ht
    · cases ht
      cases hp
    · cases ht
    · rename_i ha hc
      cases hk : k.phase <;> simp [hk, Phase.result] at hr ha hc
  | commitLost | throws =>
    unfold Worker.afterThrow at ht
    split at ht
    case h_11 => exact absurd ht.symm (hrelease _)
    all_goals
      cases ht
      try cases hp
  | release => exact absurd ht.symm (hrelease _)
  | _ =>
    cases ht
    cases hp

/-- A worker gets behind the renewal by the renewal, and no further but by the two steps that
lead to the end of the POST. -/
theorem verified_origin {s : State} {k k' : Worker} {we : WorkerEvent}
    (h : WorkerMove c s k we (.working k')) (hv : Verified k'.phase) :
    (∃ now, we = .renew now ∧ (renew now sendLeaseMs k.job k.token
      (s.leases k.row.sessionId)).isSome) ∨
      (Verified k.phase ∧ (∀ now, we ≠ .renew now) ∧ ∀ lease, leaseAfter c k lease we = lease) := by
  by_cases hb : BeforePost k'.phase
  · have hm := preparing_move h hb
    generalize k'.phase = phase at hm hv
    cases hm with
    | renewed _ _ hr => exact .inl ⟨_, rfl, hr⟩
    | verified hp => exact .inr ⟨by rw [hp]; trivial, by simp, fun _ => rfl⟩
    | _ => exact absurd hv id
  · cases hp : k'.phase with
    | awaiting counters =>
      obtain ⟨rfl, hk⟩ := awaiting_origin h hp
      exact .inr ⟨by rw [hk]; trivial, by simp, fun _ => rfl⟩
    | renewed => exact absurd (by rw [hp]; trivial) hb
    | sending => exact absurd (by rw [hp]; trivial) hb
    | _ =>
      rw [hp] at hv
      exact absurd hv id

theorem verified_step (hI : LeaseInvariant s) (h : timedStep c s e = some u) {k' : Worker}
    (hw : u.base.workers w = .working k') (hv : Verified k'.phase) :
    (∃ lease, u.base.leases k'.row.sessionId = some lease ∧ lease.OwnedBy k'.job k'.token ∧
      lease.leaseExpiresAt = u.renewedAt w + sendLeaseMs) ∨
      u.renewedAt w + sendLeaseMs < u.base.clock := by
  obtain ⟨hstep, _⟩ := timed_step_some h
  obtain ⟨v, hmove, _, hu⟩ := step_some hstep
  have hwv : v.workers w = .working k' := by
    rw [hu] at hw
    exact hw
  have hclock := clock_le h
  rcases working_origin hmove hwv with ⟨ha, hs⟩ | ⟨we, k, rfl, hk, hm⟩ | hmark
  · -- the worker stands still, and only a takeover after the expiry ends its lease
    rw [renewed_at_kept h fun now he => ha (by rw [he]; rfl)]
    rcases hI.verified w k' hs hv with ⟨lease, hl, hown, hexp⟩ | hold
    · have hother : ∀ w' we k, e = .work w' we → s.base.workers w' = .working k →
          k.job ≠ lease.holderMessageJobId := by
        intro w' we k he hk hjob
        have hjobs : k.job = k'.job := hjob.trans hown.1
        obtain rfl := hI.alone w' w k k' hk hs hjobs
        exact ha (by rw [he]; rfl)
      rcases lease_stays hstep hl hother with hl' | hexpired
      · exact .inl ⟨lease, hl', hown, hexp⟩
      · exact .inr (by omega)
    · exact .inr (by omega)
  · obtain ⟨hjob, hrow, htoken⟩ := worker_move_keeps hm
    have hleases : u.base.leases k'.row.sessionId =
        leaseAfter c k (s.base.leases k.row.sessionId) we := by
      rw [hu, hrow]
      simp only [moveParties, hk] at hmove
      obtain ⟨k'', _, rfl⟩ := Option.map_eq_some_iff.mp hmove
      simp [State.setLease, State.setWorker]
    rcases verified_origin hm hv with ⟨now, rfl, hr⟩ | ⟨hv', hne, hsame⟩
    · obtain ⟨lease, hl, hown, _, hafter⟩ := renewed_lease hr
      refine .inl ⟨{ lease with leaseExpiresAt := now + sendLeaseMs }, ?_, ?_, ?_⟩
      · rw [hleases]
        exact hafter
      · rw [hjob, htoken]
        exact hown
      · rw [(timed_step_some h).2.2.1]
        simp [renewedAfter, hk, hr]
    · rw [renewed_at_kept h fun now he => hne now (by cases he; rfl), hleases, hsame, hjob, htoken]
      rcases hI.verified w k hk hv' with hown | hold
      · exact .inl hown
      · exact .inr (by omega)
  · obtain ⟨now, token, job, row, rfl, _, rfl, _⟩ := hmark
    exact absurd hv id

theorem awaiting_moves {s : State} {k : Worker} {k' : WorkerState} {we : WorkerEvent}
    {counters : Counters} (h : WorkerMove c s k we k') (hp : k.phase = .awaiting counters) :
    (∃ outcome, we = .answered outcome) ∨ ∃ message, we = .throws message := by
  cases h with
  | answered => exact .inl ⟨_, rfl⟩
  | throws => exact .inr ⟨_, rfl⟩
  | skips he =>
    rcases he with ⟨_, since, he⟩ | ⟨_, he⟩ | ⟨_, he⟩ <;> rw [hp] at he <;> cases he
  | write hr => simp [hp, Phase.result] at hr
  | commit hr => simp [hp, Phase.result] at hr
  | commitLost hr => simp [hp, Phase.result] at hr
  | _ => simp_all

/-- Only the answer, an exception and a crash move a worker that waits for the answer. -/
theorem awaiting_next {k : Worker} {counters : Counters} (h : timedStep c s e = some u)
    (hw : s.base.workers w = .working k) (hp : k.phase = .awaiting counters) :
    u.base.workers w = .working k ∨
      ∃ time, u.posts = s.posts.map (Post.endBy w time) := by
  obtain ⟨hstep, _⟩ := timed_step_some h
  obtain ⟨v, hmove, _, hu⟩ := step_some hstep
  have hwu : u.base.workers w = v.workers w := by rw [hu]
  have hposts := post_moves h
  rcases working_next hmove hw with ⟨hk, _⟩ | ⟨we, rfl, hm⟩ | ⟨rfl, _⟩
  · exact .inl (hwu.trans hk)
  · refine .inr ?_
    generalize v.workers w = k' at hm
    have hend := awaiting_moves hm hp
    generalize he : Event.work w we = e at hposts
    generalize u.posts = posts at hposts ⊢
    cases hposts with
    | kept _ hno =>
      obtain ⟨ha, ht⟩ := hno w we he.symm
      rcases hend with ⟨outcome, rfl⟩ | ⟨message, rfl⟩
      · exact absurd rfl (ha outcome)
      · exact absurd rfl (ht message)
    | started =>
      cases he
      rcases hend with ⟨_, he⟩ | ⟨_, he⟩ <;> cases he
    | ended =>
      cases he
      exact ⟨_, rfl⟩
    | cut => cases he
  · refine .inr ?_
    generalize he : Event.crash w = e at hposts
    generalize u.posts = posts at hposts ⊢
    cases hposts with
    | kept hno _ => exact absurd he.symm (hno w)
    | started => cases he
    | ended => cases he
    | cut =>
      cases he
      exact ⟨_, rfl⟩

theorem end_by_ended {p : Post} {time : ℕ → ℕ} (h : p.worker = w) :
    (p.endBy w time).endedAt ≠ none := by
  intro hn
  unfold Post.endBy at hn
  split at hn
  · cases hn
  · rename_i hc
    exact hc ⟨h, hn⟩

theorem running_step (hI : LeaseInvariant s) (h : timedStep c s e = some u) {q : Post}
    (hq : q ∈ u.posts) (hn : q.endedAt = none) : ∃ k counters,
    u.base.workers q.worker = .working k ∧ k.phase = .awaiting counters ∧ k.job = q.job ∧
      k.row.sessionId = q.session ∧ u.base.clock ≤ q.startedAt + fetchTimeoutMs ∧
      q.startedAt ≤ u.renewedAt q.worker + renewalToPostMs := by
  obtain ⟨hstep, htimely, _⟩ := timed_step_some h
  rcases post_origin (post_moves h) hq with ⟨p, hp, hsession, hjob, hworker, hstart, hsame⟩ | hnew
  · have hpn : p.endedAt = none := by
      by_contra hne
      rw [hsame hne] at hn
      exact hne hn
    obtain ⟨k, counters, hk, hphase, hkjob, hkrow, htime, hrenewed⟩ := hI.running p hp hpn
    have hstill : u.base.workers p.worker = .working k := by
      rcases awaiting_next h hk hphase with hk' | ⟨time, hposts⟩
      · exact hk'
      · rw [hposts] at hq
        obtain ⟨r, _, rfl⟩ := List.mem_map.mp hq
        have hr : r.worker = p.worker := by
          rw [← hworker]
          unfold Post.endBy
          split <;> rfl
        exact absurd hn (end_by_ended hr)
    have hne : ∀ now, e ≠ .work p.worker (.renew now) := by
      rintro now rfl
      obtain ⟨v, hmove, _, _⟩ := step_some hstep
      rcases working_next hmove hk with ⟨_, hno, _⟩ | ⟨we, he, hm⟩ | ⟨he, _⟩
      · exact hno _ rfl
      · cases he
        rcases awaiting_moves hm hphase with ⟨_, he⟩ | ⟨_, he⟩ <;> cases he
      · cases he
    rw [hworker, renewed_at_kept h hne, hstart, hjob, hsession]
    refine ⟨k, counters, hstill, hphase, hkjob, hkrow, ?_, hrenewed⟩
    rcases clock_next hstep with hc | ⟨ms, rfl, hc⟩
    · omega
    · have := timely_tick htimely hp hpn
      omega
  · obtain ⟨w, k, counters, rfl, hk, hphase, htime, rfl⟩ := hnew
    obtain ⟨v, hmove, _, hu⟩ := step_some hstep
    have hwu : u.base.workers w = k.withPhase (.awaiting counters) := by
      rw [hu]
      simp only [moveParties, hk] at hmove
      obtain ⟨k', hk', rfl⟩ := Option.map_eq_some_iff.mp hmove
      simp only [workerNext, hphase] at hk'
      obtain ⟨_, rfl⟩ := guarded_eq_some.mp hk'
      simp
    have hclock : u.base.clock = s.base.clock := by
      rcases clock_next hstep with hc | ⟨ms, he, _⟩
      · exact hc
      · cases he
    have hrenewed := renewed_at_kept (w := w) h (by simp)
    refine ⟨{ k with phase := .awaiting counters }, counters, hwu, rfl, rfl, rfl, ?_, ?_⟩
    · dsimp only
      omega
    · dsimp only
      omega

/-- The lease that covers a request is still there when its worker crashes. -/
theorem running_owns (hI : LeaseInvariant s) {p : Post} (hp : p ∈ s.posts)
    (hn : p.endedAt = none) : ∃ k counters lease, s.base.workers p.worker = .working k ∧
      k.phase = .awaiting counters ∧ k.job = p.job ∧ s.base.leases p.session = some lease ∧
      lease.holderMessageJobId = p.job ∧ p.startedAt + fetchTimeoutMs ≤ lease.leaseExpiresAt := by
  obtain ⟨k, counters, hk, hphase, hjob, hrow, htime, hrenewed⟩ := hI.running p hp hn
  rcases hI.verified p.worker k hk (by rw [hphase]; trivial) with ⟨lease, hl, hown, hexp⟩ | hold
  · refine ⟨k, counters, lease, hk, hphase, hjob, by rw [← hrow, hl], ?_, ?_⟩
    · rw [hown.1, hjob]
    · simp only [fetchTimeoutMs, renewalToPostMs, sendLeaseMs] at *
      omega
  · simp only [fetchTimeoutMs, renewalToPostMs, sendLeaseMs] at *
    omega

/-- A request nobody waits for keeps its lease until the end of its time. -/
theorem abandoned_after (hI : LeaseInvariant s) (h : timedStep c s e = some u) {job : JobId}
    {session : String} {time : ℕ} (hlate : u.base.clock < time)
    (hcrash : ∀ w k, s.base.workers w = .working k → k.job = job → e = .crash w)
    (hpost : ∃ p ∈ s.posts, p.job = job)
    (hlease : ∃ lease, s.base.leases session = some lease ∧ lease.holderMessageJobId = job ∧
      time ≤ lease.leaseExpiresAt) :
    (∀ w k, u.base.workers w = .working k → k.job ≠ job) ∧
      ∃ lease, u.base.leases session = some lease ∧ lease.holderMessageJobId = job ∧
        time ≤ lease.leaseExpiresAt := by
  obtain ⟨hstep, _⟩ := timed_step_some h
  have hclock := clock_le h
  obtain ⟨p, hp, hpjob⟩ := hpost
  obtain ⟨lease, hl, hholder, hexp⟩ := hlease
  constructor
  · intro w k' hw hjob
    rcases working_job h hw with ⟨k, hk, hkjob⟩ | ⟨_, ha, _⟩
    · have hcr := hcrash w k hk (hkjob.trans hjob)
      subst hcr
      obtain ⟨v, hmove, _, hu⟩ := step_some hstep
      rw [hu] at hw
      cases hmove
      simp at hw
    · exact (hI.untaken _ ha).2 p hp (hpjob.trans hjob.symm)
  · have hother : ∀ w we k, e = .work w we → s.base.workers w = .working k →
        k.job ≠ lease.holderMessageJobId := by
      intro w we k hwe hk hjob
      have hcr := hcrash w k hk (hjob.trans hholder)
      rw [hwe] at hcr
      cases hcr
    rcases lease_stays hstep hl hother with hl' | hexpired
    · exact ⟨lease, hl', hholder, hexp⟩
    · omega

theorem abandoned_step (hI : LeaseInvariant s) (h : timedStep c s e = some u) {q : Post}
    {time : ℕ} (hq : q ∈ u.posts) (hend : q.endedAt = some time) (hlate : u.base.clock < time) :
    (∀ w k, u.base.workers w = .working k → k.job ≠ q.job) ∧
      ∃ lease, u.base.leases q.session = some lease ∧ lease.holderMessageJobId = q.job ∧
        time ≤ lease.leaseExpiresAt := by
  have hclock := clock_le h
  have hold : q ∈ s.posts → (∀ w k, u.base.workers w = .working k → k.job ≠ q.job) ∧
      ∃ lease, u.base.leases q.session = some lease ∧ lease.holderMessageJobId = q.job ∧
        time ≤ lease.leaseExpiresAt := by
    intro hqs
    obtain ⟨hnone, hlease⟩ := hI.abandoned q hqs time hend (by omega)
    exact abandoned_after hI h hlate (fun w k hk hjob => absurd hjob (hnone w k hk))
      ⟨q, hqs, rfl⟩ hlease
  have hposts := post_moves h
  generalize hus : u.posts = posts at hq hposts
  cases hposts with
  | kept => exact hold hq
  | started =>
    rcases List.mem_append.mp hq with hq | hq
    · exact hold hq
    · rw [List.mem_singleton.mp hq] at hend
      cases hend
  | ended =>
    obtain ⟨p, hp, rfl⟩ := List.mem_map.mp hq
    unfold Post.endBy at hend hold ⊢
    split at hend
    · cases hend
      dsimp only at hlate
      omega
    · rename_i hc
      rw [if_neg hc] at hold ⊢
      exact hold hp
  | @cut w =>
    obtain ⟨p, hp, rfl⟩ := List.mem_map.mp hq
    unfold Post.endBy at hend hold ⊢
    split at hend
    · rename_i hc
      rw [if_pos hc]
      cases hend
      obtain ⟨k, counters, lease, hk, _, hjob, hl, hholder, hexp⟩ := running_owns hI hp hc.2
      refine abandoned_after hI h hlate ?_ ⟨p, hp, rfl⟩ ⟨lease, hl, hholder, hexp⟩
      intro w' k' hk' hjob'
      obtain rfl := hI.alone w' p.worker k' k hk' hk (hjob'.trans hjob.symm)
      rw [hc.1]
    · rename_i hc
      rw [if_neg hc] at hold ⊢
      exact hold hp

/-- Who starts a POST holds the lease of the session. -/
theorem sender_owns (hI : LeaseInvariant s) {k : Worker} {counters : Counters}
    (hk : s.base.workers w = .working k) (hphase : k.phase = .sending counters)
    (htime : s.base.clock ≤ s.renewedAt w + renewalToPostMs) : Owns s.base k := by
  rcases hI.verified w k hk (by rw [hphase]; trivial) with ⟨lease, hl, hown, _⟩ | hold
  · exact ⟨lease, hl, hown⟩
  · simp only [renewalToPostMs, sendLeaseMs] at *
    omega

theorem pairwise_end_by {posts : List Post} {time : ℕ → ℕ}
    (h : posts.Pairwise fun p q => p.session = q.session →
      ∃ time, p.endedAt = some time ∧ time ≤ q.startedAt) :
    (posts.map (Post.endBy w time)).Pairwise fun p q => p.session = q.session →
      ∃ time, p.endedAt = some time ∧ time ≤ q.startedAt := by
  have hkeeps : ∀ p : Post, (p.endBy w time).session = p.session ∧
      (p.endBy w time).startedAt = p.startedAt ∧ (p.endedAt ≠ none → p.endBy w time = p) := by
    intro p
    unfold Post.endBy
    split
    · rename_i hc
      exact ⟨rfl, rfl, fun hne => absurd hc.2 hne⟩
    · exact ⟨rfl, rfl, fun _ => rfl⟩
  refine List.Pairwise.map _ (fun p q hpq hs => ?_) h
  rw [(hkeeps p).1, (hkeeps q).1] at hs
  obtain ⟨end', he, hle⟩ := hpq hs
  rw [(hkeeps q).2.1, (hkeeps p).2.2 (by simp [he])]
  exact ⟨end', he, hle⟩

theorem apart_step (hI : LeaseInvariant s) (h : timedStep c s e = some u) :
    u.posts.Pairwise fun p q =>
      p.session = q.session → ∃ time, p.endedAt = some time ∧ time ≤ q.startedAt := by
  have hposts := post_moves h
  generalize u.posts = posts at hposts ⊢
  cases hposts with
  | kept => exact hI.apart
  | ended => exact pairwise_end_by hI.apart
  | cut => exact pairwise_end_by hI.apart
  | @started w k counters hk hphase htime =>
    refine List.pairwise_append.mpr ⟨hI.apart, List.pairwise_singleton _ _, ?_⟩
    intro p hp q hq hs
    obtain rfl := List.mem_singleton.mp hq
    obtain ⟨lease, hl, hown⟩ := sender_owns hI hk hphase htime
    cases hend : p.endedAt with
    | none =>
      -- the other request would be covered by a lease that names another job
      exfalso
      obtain ⟨k', _, lease', hk', hphase', hjob, hl', hholder, _⟩ := running_owns hI hp hend
      have hsame : some lease' = some lease := by rw [← hl', ← hl, hs]
      cases hsame
      have hjobs : k'.job = k.job := by rw [hjob, ← hholder, hown.1]
      obtain rfl := hI.alone p.worker w k' k hk' hk hjobs
      rw [hk'] at hk
      cases hk
      rw [hphase] at hphase'
      cases hphase'
    | some time =>
      refine ⟨time, rfl, ?_⟩
      by_contra hlate
      obtain ⟨hnone, lease', hl', hholder, _⟩ := hI.abandoned p hp time hend (Nat.lt_of_not_le hlate)
      have hsame : some lease' = some lease := by rw [← hl', ← hl, hs]
      cases hsame
      exact hnone w k hk (by rw [← hholder, hown.1])

theorem lease_invariant (h : Reachable (timedSystem c) s) : LeaseInvariant s := by
  obtain ⟨es, h⟩ := h
  refine run_invariant (M := timedSystem c) (I := fun _ => LeaseInvariant) ?_ ?_ h
  · rintro _ rfl
    constructor
    · exact fun j _ => ⟨fun w k hw => (nomatch hw), fun p hp => (nomatch hp)⟩
    · exact fun w w' k k' hw => nomatch hw
    · exact fun w k hw => nomatch hw
    · exact fun p hp => nomatch hp
    · exact fun p hp => nomatch hp
    · exact List.Pairwise.nil
  · intro es s e hr hI he
    have hstep := ofStep_enabled he
    exact ⟨fun j => untaken_step ⟨es, hr⟩ hI hstep, fun w w' k k' => alone_step hI hstep,
      fun w k => verified_step hI hstep, fun p => running_step hI hstep,
      fun p hp time => abandoned_step hI hstep hp, apart_step hI hstep⟩

/-- The phases between the acquisition of the session lease and the POST. -/
def AfterAcquisition : Phase → Prop
  | .leased | .pacing | .renewed | .sending _ => True
  | _ => False

/-- The worker has acquired the lease of its session, and the lease is not its own any more. -/
def TakenOver (s : State) (k : Worker) : Prop := AfterAcquisition k.phase ∧ ¬ Owns s k

/-- A job that is never sent from here on: its worker, if it has one before the POST, has lost
the lease. -/
structure Barred (s : State) (job : JobId) : Prop where
  taken : ¬ (s.jobs job).committed.AwaitsWorker
  robbed : ∀ w k, s.workers w = .working k → k.job = job → BeforePost k.phase → TakenOver s k

/-- A worker does not get its lease back from the steps of the others. -/
theorem not_owned_by_others {s u : State} {e : Event} {k : Worker} (h : step c s e = some u)
    (hk : ¬ Owns s k)
    (hother : ∀ w we k', e = .work w we → s.workers w = .working k' → k'.job ≠ k.job) :
    ¬ Owns u k := by
  obtain ⟨v, hv, _, rfl⟩ := step_some h
  rintro ⟨lease, hl, hown⟩
  rcases lease_changes k.row.sessionId hv with hsame | hchange
  · exact hk ⟨lease, by rw [← hsame]; exact hl, hown⟩
  · obtain ⟨w, we, k', target, rfl, hk', hrow, hm, hafter⟩ := hchange
    have hjob := hother w we k' rfl hk'
    have hnew : leaseAfter c k' (s.leases k.row.sessionId) we = some lease := by
      rw [← hafter]
      exact hl
    have hkept : leaseAfter c k' (s.leases k.row.sessionId) we = s.leases k.row.sessionId →
        False := by
      intro hsame
      exact hk ⟨lease, by rw [← hsame, hnew], hown⟩
    cases hm with
    | acquired _ _ ha =>
      rw [hrow] at ha
      simp only [leaseAfter, (acquired_lease ha).1, Option.some.injEq] at hnew
      exact hjob (by rw [← hown.1, ← hnew])
    | busy _ hb =>
      rw [hrow] at hb
      exact hkept (by simp [leaseAfter, hb])
    | renewed _ _ hr =>
      rw [hrow] at hr
      obtain ⟨old, _, hold, _, hsome⟩ := renewed_lease hr
      simp only [leaseAfter, hsome, Option.some.injEq] at hnew
      exact hjob (by rw [← hown.1, ← hnew, hold.1])
    | leaseLost _ hr =>
      rw [hrow] at hr
      exact hkept (by simp [leaseAfter, hr])
    | release =>
      refine hkept ?_
      simp only [leaseAfter] at hnew ⊢
      split at hnew
      · cases hold : s.leases k.row.sessionId with
        | none =>
          rw [hold] at hnew
          cases hnew
        | some old =>
          rw [hold] at hnew
          simp only [release] at hnew ⊢
          split at hnew
          · cases hnew
          · rename_i hno
            simp [hno]
      · simp [*]
    | skips he => rcases he with ⟨rfl, _⟩ | ⟨rfl, _⟩ | ⟨rfl, _⟩ <;> exact hkept rfl
    | _ => exact hkept rfl

/-- A worker that lost its lease stays without it until it leaves the phases before the POST. -/
theorem taken_over_move {s : State} {k : Worker} {we : WorkerEvent} {phase : Phase}
    (h : PreparingMove c s k we phase) (hk : TakenOver s k) :
    AfterAcquisition phase ∧ ∀ lease, leaseAfter c k lease we = lease := by
  obtain ⟨hphase, hown⟩ := hk
  cases h with
  | confirmed => exact ⟨trivial, fun _ => rfl⟩
  | verified => exact ⟨trivial, fun _ => rfl⟩
  | renewed _ _ hr =>
    obtain ⟨lease, hl, hlease, _⟩ := renewed_lease hr
    exact absurd ⟨lease, hl, hlease⟩ hown
  | branch hp | passed hp | acquired hp | busy hp | refreshed hp =>
    rw [hp] at hphase
    exact absurd hphase id

theorem barred_step {job : JobId} (hr : Reachable (timedSystem c) s)
    (h : timedStep c s e = some u) (hb : Barred s.base job) : Barred u.base job := by
  obtain ⟨hstep, _⟩ := timed_step_some h
  have hI := lease_invariant hr
  refine ⟨fun ha => hb.taken (awaiting_before hr h ha), ?_⟩
  intro w k' hw hjob hbefore
  obtain ⟨v, hmove, _, hu⟩ := step_some hstep
  have hwv : v.workers w = .working k' := by
    rw [hu] at hw
    exact hw
  rcases working_origin hmove hwv with ⟨ha, hs⟩ | ⟨we, k, rfl, hk, hm⟩ | hmark
  · obtain ⟨hphase, hown⟩ := hb.robbed w k' hs hjob hbefore
    refine ⟨hphase, not_owned_by_others hstep hown ?_⟩
    rintro w' we k rfl hk hjobs
    obtain rfl := hI.alone w' w k k' hk hs hjobs
    exact ha rfl
  · obtain ⟨hkjob, hrow, htoken⟩ := worker_move_keeps hm
    have hprepare := preparing_move hm hbefore
    have hover := hb.robbed w k hk (by rw [← hkjob, hjob]) (preparing_before hprepare).1
    obtain ⟨hphase, hsame⟩ := taken_over_move hprepare hover
    refine ⟨hphase, ?_⟩
    rintro ⟨lease, hl, hown⟩
    refine hover.2 ⟨lease, ?_, by rw [← hkjob, ← htoken]; exact hown⟩
    rw [hu] at hl
    simp only [moveParties, hk] at hmove
    obtain ⟨k'', _, rfl⟩ := Option.map_eq_some_iff.mp hmove
    simp only [State.setLease, State.setWorker, hrow, Function.update_self, hsame] at hl
    exact hl
  · obtain ⟨now, token, started, row, rfl, hs, rfl, hm⟩ := hmark
    obtain ⟨ha, _⟩ := taken_row hstep hs hm
    subst hjob
    exact absurd ha hb.taken

theorem barred_unsent {job : JobId} (hr : Reachable (timedSystem c) s)
    (h : timedStep c s e = some u) (hb : Barred s.base job) : ¬ isSend job e := by
  intro hs
  obtain ⟨hstep, htimely, _⟩ := timed_step_some h
  obtain ⟨w, rfl, hbefore, _⟩ := send_origin hstep hs
  obtain ⟨v, hmove, _, _⟩ := step_some hstep
  cases hw : s.base.workers w with
  | working k =>
    rw [hw] at hbefore
    obtain ⟨hjob, hphase⟩ := hbefore
    obtain ⟨_, hown⟩ := hb.robbed w k hw hjob hphase
    simp only [moveParties, hw] at hmove
    obtain ⟨k', hk', _⟩ := Option.map_eq_some_iff.mp hmove
    simp only [workerNext] at hk'
    split at hk'
    · rename_i counters hp
      exact hown (sender_owns (lease_invariant hr) hw hp (timely_fetch htimely))
    · cases hk'
  | _ =>
    rw [hw] at hbefore
    exact hbefore

end Steps

/-- In every timed run the requests of a session follow one another, and a worker whose lease was
taken over never sends its job. -/
theorem sends_are_exclusive {s : TimedState} (h : Reachable (timedSystem c) s) :
    (∀ (i i' : ℕ) (p q : Post), i ≠ i' → s.posts[i]? = some p → s.posts[i']? = some q →
      p.session = q.session → ∀ t, ¬ (p.InFlight t ∧ q.InFlight t)) ∧
    ∀ (w : ℕ) (k : Worker), s.base.workers w = .working k → TakenOver s.base k →
      ∀ es u, Execution (timedSystem c) s es u → ∀ e ∈ es, ¬ isSend k.job e := by
  have hI := lease_invariant h
  constructor
  · have hordered : ∀ (i i' : ℕ) (p q : Post), i < i' → s.posts[i]? = some p →
        s.posts[i']? = some q → p.session = q.session → ∀ t, ¬ (p.InFlight t ∧ q.InFlight t) := by
      intro i i' p q hlt hp hq hsession t ⟨hpt, hqt⟩
      obtain ⟨hi, rfl⟩ := List.getElem?_eq_some_iff.mp hp
      obtain ⟨hi', rfl⟩ := List.getElem?_eq_some_iff.mp hq
      obtain ⟨time, hend, hle⟩ := List.pairwise_iff_getElem.mp hI.apart i i' hi hi' hlt hsession
      have hbefore := hpt.2 time hend
      have hafter := hqt.1
      omega
    intro i i' p q hne hp hq hsession t
    rcases Nat.lt_or_gt_of_ne hne with hlt | hgt
    · exact hordered i i' p q hlt hp hq hsession t
    · rw [and_comm]
      exact hordered i' i q p hgt hq hp hsession.symm t
  · intro w k hk hover es u hes
    have hbarred : Barred s.base k.job := by
      refine ⟨fun ha => (hI.untaken _ ha).1 w k hk rfl, ?_⟩
      intro w' k' hk' hjob _
      obtain rfl := hI.alone w' w k' k hk' hk hjob
      rw [hk'] at hk
      cases hk
      exact hover
    have hall : Barred u.base k.job ∧ ∀ e ∈ es, ¬ isSend k.job e := by
      induction hes with
      | refl => exact ⟨hbarred, fun e he => nomatch he⟩
      | step hrun he ih =>
        obtain ⟨hb, hsends⟩ := ih
        have hr := h.extend hrun
        have hstep := ofStep_enabled he
        refine ⟨barred_step hr hstep hb, fun e' he' => ?_⟩
        rcases List.mem_append.mp he' with hmem | hlast
        · exact hsends e' hmem
        · rw [List.mem_singleton.mp hlast]
          exact barred_unsent hr hstep hb
    exact hall.2

/-- Worker 0 sleeps past its lease, worker 1 takes the session over and crashes in its POST, and
worker 2 sends once that lease has expired. -/
def takeover : List Event :=
  [.insertJob (.api 0) 1 ⟨"session", "a@g.us", "text", 0, false⟩ 0,
    .insertJob (.api 0) 2 ⟨"session", "b@g.us", "text", 0, false⟩ 0,
    .insertJob (.api 0) 3 ⟨"session", "c@g.us", "text", 0, false⟩ 0, .commit (.api 0),
    .lockDue 0 1 0, .lockDue 0 2 0, .lockDue 0 3 0, .queueClaimed 0 0, .commitClaim 0 true,
    .publish 0 1, .publish 0 2, .publish 0 3,
    .deliver 0 1, .markProcessing 0 0 7, .work 0 .branch, .work 0 (.policyAnswered none),
    .work 0 (.tryAcquire 0), .work 0 (.confirmProcessing 0), .tick 50000,
    .deliver 1 2, .markProcessing 1 50000 8, .work 1 .branch, .work 1 (.policyAnswered none),
    .work 1 (.tryAcquire 50000), .work 1 (.confirmProcessing 50000), .work 1 (.renew 50000),
    .work 1 (.verifyProcessing 50000), .work 1 (.fetch 2), .crash 1, .tick 46000,
    .deliver 2 3, .markProcessing 2 96000 9, .work 2 .branch, .work 2 (.policyAnswered none),
    .work 2 (.tryAcquire 96000), .work 2 (.confirmProcessing 96000), .work 2 (.renew 96000),
    .work 2 (.verifyProcessing 96000), .work 2 (.fetch 3)]

def afterTakeover : TimedState := runTrace (timedSystem ⟨true, 1000⟩) timedInitial takeover

set_option maxRecDepth 4000 in
theorem takeover_runs : Run (timedSystem ⟨true, 1000⟩) takeover afterTakeover :=
  valid_trace_run rfl (by decide)

set_option maxRecDepth 4000 in
theorem takeover_sends_are_exclusive :
    (afterTakeover.posts =
        [⟨"session", 2, 1, 50000, some 80000⟩, ⟨"session", 3, 2, 96000, none⟩] ∧
      ∃ k, afterTakeover.base.workers 0 = .working k ∧ TakenOver afterTakeover.base k) ∧
      (∀ (i i' : ℕ) (p q : Post), i ≠ i' → afterTakeover.posts[i]? = some p →
        afterTakeover.posts[i']? = some q → p.session = q.session →
        ∀ t, ¬ (p.InFlight t ∧ q.InFlight t)) ∧
      ∀ (w : ℕ) (k : Worker), afterTakeover.base.workers w = .working k →
        TakenOver afterTakeover.base k → ∀ es u,
        Execution (timedSystem ⟨true, 1000⟩) afterTakeover es u → ∀ e ∈ es, ¬ isSend k.job e := by
  refine ⟨⟨by decide, _, rfl, trivial, ?_⟩, sends_are_exclusive ⟨takeover, takeover_runs⟩⟩
  rintro ⟨lease, hl, hown⟩
  have hnow : some lease = some ⟨9, 3, 141000⟩ := hl.symm
  cases hnow
  exact absurd hown (by decide)

end OutboundSessionLeases
