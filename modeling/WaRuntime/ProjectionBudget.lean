import WaRuntime.AttemptBudgets
import WaRuntime.ContactProjectionWork
import WaRuntime.TransitionRuns

/-! The attempts of a contact projection.
Every work row carries in addition the log of the attempts since its active pass began: a claim
opens one, after taking away one whose lease has run out. A tick projects at least one batch of a
claim before it releases it (`CONTACT_PROJECTION_MAX_BATCHES_PER_JOB` is at least 1), so a released
claim has made progress. -/
namespace ProjectionBudget

open TransitionRuns ContactProjectionWork AttemptBudgets

/-- A session and one of its identities. -/
abbrev WorkKey := String × ℕ

inductive Statement where
  | request (revision now : ℕ)
  | retire
  | claim (now token : ℕ) (latestRun : Option RunId)
  | advance (now token : ℕ) (last : String × String)
  | complete (now token : ℕ)
  | release (now token : ℕ)
  | fail (now token : ℕ)
  deriving DecidableEq, Repr

structure Event where
  key : WorkKey
  statement : Statement
  deriving DecidableEq, Repr

/-- `advanced`: the current claim has projected a full page. -/
structure State where
  works : WorkKey → Option WorkRow
  attempts : WorkKey → Log ℕ
  advanced : WorkKey → Bool

def initial : State := ⟨fun _ => none, fun _ => [], fun _ => false⟩

def execute (statement : Statement) (work : Option WorkRow) : Option WorkRow :=
  match statement with
  | .request revision now => some (requestWork revision now work)
  | .retire => work.bind retireAlias
  | .claim now token latestRun => work.bind (ContactProjectionWork.claim now token latestRun)
  | .advance now token last => work.bind (advance now token last)
  | .complete now token => work.bind (complete now token)
  | .release now token => work.bind (release now token)
  | .fail now token => work.bind (fail now token)

/-- The attempts at a claim: a work without an active pass begins one. -/
def earlier (now : ℕ) (work : Option WorkRow) (log : Log ℕ) : Log ℕ :=
  if work.bind WorkRow.active = none then [] else finish (.expired now) log

def record (statement : Statement) (work : Option WorkRow) (log : Log ℕ) : Log ℕ :=
  match statement with
  | .claim now token _ =>
    AttemptBudgets.claim token (now + projectionLeaseMs) (consumed (earlier now work log))
      (earlier now work log)
  | .complete now _ => finish (.succeeded now) log
  | .release now _ => finish (.returned now) log
  | .fail now _ => finish (.failed now) log
  | _ => log

def Statement.advances (statement : Statement) (advanced : Bool) : Bool :=
  match statement with
  | .claim _ _ _ => false
  | .advance _ _ _ => true
  | _ => advanced

def Statement.releases : Statement → Bool
  | .release _ _ => true
  | _ => false

/-- A tick releases a claim whose pages were all full. -/
def step (s : State) (e : Event) : Option State :=
  if e.statement.releases ∧ s.advanced e.key = false then none
  else
    (execute e.statement (s.works e.key)).map fun next =>
      { works := fun key => if key = e.key then some next else s.works key
        attempts := fun key =>
          if key = e.key then record e.statement (s.works e.key) (s.attempts e.key)
          else s.attempts key
        advanced := fun key =>
          if key = e.key then e.statement.advances (s.advanced e.key) else s.advanced key }

def system : System State Event := ofStep (· = initial) step

instance (s : State) (e : Event) : Decidable (system.enabled s e) :=
  inferInstanceAs (Decidable ((step s e).isSome = true))

variable {s u : State} {e : Event} {key : WorkKey} {statement : Statement}
  {work : Option WorkRow} {row next : WorkRow} {log : Log ℕ} {now token : ℕ}

theorem system_step (he : system.enabled s e) : step s e = some (system.next s e) :=
  ofStep_enabled he

theorem step_some (h : step s e = some u) : ∃ next,
    execute e.statement (s.works e.key) = some next ∧
      u.works e.key = some next ∧
      u.attempts e.key = record e.statement (s.works e.key) (s.attempts e.key) ∧
      ∀ key, key ≠ e.key → u.works key = s.works key ∧ u.attempts key = s.attempts key := by
  unfold step at h
  split at h
  · cases h
  obtain ⟨next, hx, rfl⟩ := Option.map_eq_some_iff.mp h
  refine ⟨next, hx, by simp, by simp, fun key hne => ?_⟩
  simp [hne]

section Counting

/-- The attempt counter of a work is the number of attempts since its active pass began, whatever
they ended in. -/
structure Counted (row : WorkRow) (log : Log ℕ) : Prop where
  active : row.status = .running ∨ row.status = .retry ∨ row.status = .failed →
    row.active.isSome
  fresh : row.active = none → row.status ≠ .idle → row.attemptCount = 0
  running : row.active.isSome → ((current log).isSome ↔ row.status = .running)
  counts : row.active.isSome → row.attemptCount =
    losses log + returns log + if row.status = .running then 1 else 0

theorem counted_without_pass (hactive : row.active = none)
    (hstatus : row.status = .pending ∨ row.status = .idle)
    (hfresh : row.status ≠ .idle → row.attemptCount = 0) : Counted row log where
  active h := by
    rcases hstatus with hs | hs <;> simp [hs] at h
  fresh _ hs := hfresh hs
  running h := by simp [hactive] at h
  counts h := by simp [hactive] at h

theorem counted_request {revision : ℕ} (h : ∀ row ∈ work, Counted row log) :
    Counted (requestWork revision now work) log := by
  cases work with
  | none => exact counted_without_pass rfl (.inl rfl) fun _ => rfl
  | some row =>
    have hrow := h row rfl
    by_cases hk : KeepsPass row
    · rw [request_keeps hk]
      exact ⟨hrow.active, hrow.fresh, hrow.running, hrow.counts⟩
    · obtain ⟨hs, ha, hn, _⟩ := request_restarts hk
      exact counted_without_pass ha (.inl hs) fun _ => hn

/-- A claim counts one more attempt, and the one it takes over is lost. -/
theorem counted_claim {latestRun : Option RunId} (h : Counted row log)
    (hx : ContactProjectionWork.claim now token latestRun row = some next) :
    Counted next (record (.claim now token latestRun) (some row) log) := by
  obtain ⟨hclaimable, rfl⟩ := claim_some hx
  refine ⟨fun _ => rfl, fun hn => (by cases hn), fun _ => by simp [record], fun _ => ?_⟩
  simp only [record, losses_claim, returns_claim, if_true]
  cases ha : row.active with
  | none =>
    have hpending : row.status ≠ .idle := by
      rcases claimable_cases hclaimable with hs | hs | hs <;> simp [hs]
    simp [earlier, ha, h.fresh ha hpending, losses, returns]
  | some pass =>
    have hsome : row.active.isSome := by simp [ha]
    have hcount := h.counts hsome
    have hcurrent := h.running hsome
    simp only [earlier, Option.bind_some, ha, reduceCtorEq, if_false]
    cases hc : current log with
    | none =>
      have hs : row.status ≠ .running := by simpa [hc] using hcurrent
      rw [finish_of_none hc]
      simp only [hs, if_false] at hcount
      omega
    | some attempt =>
      have hs : row.status = .running := by simpa [hc] using hcurrent
      rw [losses_finish _ hc, returns_finish _ hc]
      simp only [hs, if_true] at hcount
      simp [Attempt.lost, Attempt.returned]
      omega

theorem counted_release (h : Counted row log) (hx : release now token row = some next) :
    Counted next (finish (.returned now) log) := by
  obtain ⟨⟨hs, _⟩, rfl⟩ := release_some hx
  have hsome := h.active (.inl hs)
  obtain ⟨attempt, hc⟩ := Option.isSome_iff_exists.mp ((h.running hsome).mpr hs)
  have hcount := h.counts hsome
  refine ⟨fun _ => hsome, fun hn => ?_, fun _ => by simp, fun _ => ?_⟩
  · simp only at hn
    simp [hn] at hsome
  · rw [losses_finish _ hc, returns_finish _ hc]
    simp only [hs, if_true] at hcount
    simp [Attempt.lost, Attempt.returned]
    omega

/-- A failure is charged to the attempt that was counted when it was claimed. -/
theorem counted_fail (h : Counted row log) (hx : fail now token row = some next) :
    Counted next (finish (.failed now) log) := by
  obtain ⟨⟨hs, _⟩, hactive, hattempts, _, _, hstatus⟩ := fail_some hx
  have hsome := h.active (.inl hs)
  obtain ⟨attempt, hc⟩ := Option.isSome_iff_exists.mp ((h.running hsome).mpr hs)
  have hcount := h.counts hsome
  simp only [hs, if_true] at hcount
  have hlosses : losses (finish (.failed now) log) = losses log + 1 := by
    rw [losses_finish _ hc]
    simp [Attempt.lost]
  have hreturns : returns (finish (.failed now) log) = returns log := by
    rw [returns_finish _ hc]
    simp [Attempt.returned]
  have hrunning : next.status ≠ .running := by
    rw [hstatus]
    split <;> simp
  refine ⟨fun _ => by rw [hactive]; exact hsome, fun hn => ?_, fun _ => by simp [hrunning],
    fun _ => ?_⟩
  · rw [hactive] at hn
    simp [hn] at hsome
  · rw [hattempts, hlosses, hreturns]
    simp only [hrunning, if_false]
    omega

theorem counted_execute (h : ∀ row ∈ work, Counted row log)
    (hx : execute statement work = some next) : Counted next (record statement work log) := by
  cases statement with
  | request revision now =>
    cases hx
    exact counted_request h
  | retire =>
    obtain ⟨row, rfl, hx⟩ := Option.bind_eq_some_iff.mp hx
    obtain ⟨_, hs, ha, _⟩ := retire_some hx
    exact counted_without_pass ha (.inr hs) fun hn => absurd hs hn
  | claim now token latestRun =>
    obtain ⟨row, rfl, hx⟩ := Option.bind_eq_some_iff.mp hx
    exact counted_claim (h row rfl) hx
  | advance now token last =>
    obtain ⟨row, rfl, hx⟩ := Option.bind_eq_some_iff.mp hx
    obtain ⟨_, rfl⟩ := advance_some hx
    have hrow := h row rfl
    exact ⟨hrow.active, hrow.fresh, hrow.running, hrow.counts⟩
  | complete now token =>
    obtain ⟨row, rfl, hx⟩ := Option.bind_eq_some_iff.mp hx
    obtain ⟨_, ha, hn, _, _, hs⟩ := complete_some hx
    refine counted_without_pass ha ?_ fun _ => hn
    rw [hs]
    split
    · exact .inl rfl
    · exact .inr rfl
  | release now token =>
    obtain ⟨row, rfl, hx⟩ := Option.bind_eq_some_iff.mp hx
    exact counted_release (h row rfl) hx
  | fail now token =>
    obtain ⟨row, rfl, hx⟩ := Option.bind_eq_some_iff.mp hx
    exact counted_fail (h row rfl) hx

/-- In every run, cooperative releases are counted like failures. -/
theorem works_counted (h : Reachable system s) :
    ∀ key row, s.works key = some row → Counted row (s.attempts key) := by
  refine reachable_invariant (M := system)
    (I := fun s => ∀ key row, s.works key = some row → Counted row (s.attempts key)) ?_ ?_ h
  · rintro _ rfl key row hrow
    cases hrow
  · intro s e hI he key row hrow
    obtain ⟨next, hx, hnext, hlog, hother⟩ := step_some (system_step he)
    by_cases hk : key = e.key
    · subst hk
      cases hnext.symm.trans hrow
      rw [hlog]
      exact counted_execute (fun row hrow => hI e.key row hrow) hx
    · obtain ⟨hwork, hattempts⟩ := hother key hk
      rw [hattempts]
      exact hI key row (hwork.symm.trans hrow)

end Counting

section Budget

/-- A work fails on five lost attempts, and its counter counts lost attempts only: a claim that was
released is not in it. -/
structure Budgeted (s : State) : Prop where
  failed : ∀ key row, s.works key = some row → row.status = .failed →
    projectionMaxAttempts ≤ losses (s.attempts key)
  uncounted : ∀ key row, s.works key = some row → row.active.isSome →
    row.attemptCount = losses (s.attempts key) + if row.status = .running then 1 else 0

/-- The slice of a claim does not end before the pass does, so that the claim is not released. -/
def Unreleased (_ : State) (e : Event) : Prop := e.statement.releases = false

instance (s : State) (e : Event) : Decidable (Unreleased s e) :=
  inferInstanceAs (Decidable (_ = false))

/-- Only `fail` gives up a work, from a counter of five on. -/
theorem failed_attempts (hx : execute statement work = some next) (hs : next.status = .failed)
    (hwork : ∀ row ∈ work, row.status = .failed → projectionMaxAttempts ≤ row.attemptCount) :
    projectionMaxAttempts ≤ next.attemptCount := by
  cases statement with
  | request revision now =>
    cases hx
    cases work with
    | none => cases hs
    | some row =>
      by_cases hk : KeepsPass row
      · rw [request_keeps hk] at hs ⊢
        exact hwork row rfl hs
      · rw [(request_restarts hk).1] at hs
        cases hs
  | retire =>
    obtain ⟨row, rfl, hx⟩ := Option.bind_eq_some_iff.mp hx
    rw [(retire_some hx).2.1] at hs
    cases hs
  | claim now token latestRun =>
    obtain ⟨row, rfl, hx⟩ := Option.bind_eq_some_iff.mp hx
    obtain ⟨_, rfl⟩ := claim_some hx
    cases hs
  | advance now token last =>
    obtain ⟨row, rfl, hx⟩ := Option.bind_eq_some_iff.mp hx
    obtain ⟨_, rfl⟩ := advance_some hx
    exact hwork row rfl hs
  | complete now token =>
    obtain ⟨row, rfl, hx⟩ := Option.bind_eq_some_iff.mp hx
    rw [(complete_some hx).2.2.2.2.2] at hs
    split at hs <;> cases hs
  | release now token =>
    obtain ⟨row, rfl, hx⟩ := Option.bind_eq_some_iff.mp hx
    obtain ⟨_, rfl⟩ := release_some hx
    cases hs
  | fail now token =>
    obtain ⟨row, rfl, hx⟩ := Option.bind_eq_some_iff.mp hx
    obtain ⟨_, _, hattempts, _, _, hstatus⟩ := fail_some hx
    rw [hstatus] at hs
    split at hs
    · rename_i hexhausted
      rwa [hattempts]
    · cases hs

theorem works_exhausted (h : Reachable system s) : ∀ key row, s.works key = some row →
    row.status = .failed → projectionMaxAttempts ≤ row.attemptCount := by
  refine reachable_invariant (M := system) (I := fun s => ∀ key row, s.works key = some row →
    row.status = .failed → projectionMaxAttempts ≤ row.attemptCount) ?_ ?_ h
  · rintro _ rfl key row hrow
    cases hrow
  · intro s e hI he key row hrow hs
    obtain ⟨next, hx, hnext, _, hother⟩ := step_some (system_step he)
    by_cases hk : key = e.key
    · subst hk
      cases hnext.symm.trans hrow
      exact failed_attempts hx hs fun row hrow => hI e.key row hrow
    · exact hI key row ((hother key hk).1.symm.trans hrow) hs

/-- The counter is as it should be while no attempt of an active pass has been released. -/
theorem budgeted_iff (h : Reachable system s) : Budgeted s ↔
    ∀ key row, s.works key = some row → row.active.isSome → returns (s.attempts key) = 0 := by
  constructor
  · intro hbudget key row hrow hactive
    have hcounts := (works_counted h key row hrow).counts hactive
    have huncounted := hbudget.uncounted key row hrow hactive
    omega
  · intro hreturns
    refine ⟨fun key row hrow hs => ?_, fun key row hrow hactive => ?_⟩
    · have hcounted := works_counted h key row hrow
      have hactive := hcounted.active (.inr (.inr hs))
      have hcounts := hcounted.counts hactive
      have hexhausted := works_exhausted h key row hrow hs
      rw [hreturns key row hrow hactive] at hcounts
      simp only [hs, reduceCtorEq, if_false] at hcounts
      omega
    · have hcounts := (works_counted h key row hrow).counts hactive
      rw [hreturns key row hrow hactive] at hcounts
      omega

theorem returns_expired (hreturns : row.active.isSome → returns log = 0) :
    returns (earlier now (some row) log) = 0 := by
  unfold earlier
  split
  · rfl
  rename_i hactive
  have hzero := hreturns (Option.isSome_iff_ne_none.mpr hactive)
  cases hc : current log with
  | none => rwa [finish_of_none hc]
  | some attempt => simp [returns_finish _ hc, hzero, Attempt.returned]

theorem unreleased_returns (hx : execute statement work = some next)
    (hreturns : ∀ row ∈ work, row.active.isSome → returns log = 0)
    (hkept : statement.releases = false) (hactive : next.active.isSome) :
    returns (record statement work log) = 0 := by
  cases statement with
  | request revision now =>
    cases hx
    cases work with
    | none => cases hactive
    | some row =>
      by_cases hk : KeepsPass row
      · exact hreturns row rfl hk.2
      · simp [(request_restarts hk).2.1] at hactive
  | retire =>
    obtain ⟨row, rfl, hx⟩ := Option.bind_eq_some_iff.mp hx
    simp [(retire_some hx).2.2.1] at hactive
  | claim now token latestRun =>
    obtain ⟨row, rfl, hx⟩ := Option.bind_eq_some_iff.mp hx
    simp only [record, returns_claim]
    exact returns_expired (hreturns row rfl)
  | advance now token last =>
    obtain ⟨row, rfl, hx⟩ := Option.bind_eq_some_iff.mp hx
    obtain ⟨_, rfl⟩ := advance_some hx
    exact hreturns row rfl hactive
  | complete now token =>
    obtain ⟨row, rfl, hx⟩ := Option.bind_eq_some_iff.mp hx
    simp [(complete_some hx).2.1] at hactive
  | release now token => cases hkept
  | fail now token =>
    obtain ⟨row, rfl, hx⟩ := Option.bind_eq_some_iff.mp hx
    obtain ⟨_, hkeeps, _⟩ := fail_some hx
    have hzero := hreturns row rfl (by rwa [← hkeeps])
    simp only [record]
    cases hc : current log with
    | none => rwa [finish_of_none hc]
    | some attempt => simp [returns_finish _ hc, hzero, Attempt.returned]

/-- A release leaves the claim in the counter of the pass, which goes on. -/
theorem released_returns (hcounted : Counted row log) (hx : release now token row = some next) :
    next.active.isSome ∧ returns (record (.release now token) (some row) log) ≠ 0 := by
  obtain ⟨⟨hs, _⟩, rfl⟩ := release_some hx
  have hactive := hcounted.active (.inl hs)
  obtain ⟨attempt, hc⟩ := Option.isSome_iff_exists.mp ((hcounted.running hactive).mpr hs)
  refine ⟨hactive, ?_⟩
  simp [record, returns_finish _ hc, Attempt.returned]

theorem budgeted_next_iff (h : Reachable system s) (hbudget : Budgeted s)
    (he : system.enabled s e) : Budgeted (system.next s e) ↔ Unreleased s e := by
  have hcounted := works_counted h
  have hbefore := (budgeted_iff h).mp hbudget
  obtain ⟨next, hx, hnext, hlog, hother⟩ := step_some (system_step he)
  rw [budgeted_iff (h.step he)]
  constructor
  · intro hafter
    cases hkept : e.statement.releases with
    | false => exact hkept
    | true =>
      obtain ⟨now, token, hstatement⟩ : ∃ now token, e.statement = .release now token := by
        cases hs : e.statement <;> simp [Statement.releases, hs] at hkept ⊢
      rw [hstatement] at hx hlog
      obtain ⟨row, hrow, hx⟩ := Option.bind_eq_some_iff.mp hx
      obtain ⟨hactive, hreturned⟩ := released_returns (hcounted e.key row hrow) hx
      rw [hrow] at hlog
      exact absurd (hlog ▸ hafter e.key next hnext hactive) hreturned
  · intro hkept key row hrow hactive
    by_cases hk : key = e.key
    · subst hk
      cases hnext.symm.trans hrow
      rw [hlog]
      exact unreleased_returns hx (fun row hrow => hbefore e.key row hrow) hkept hactive
    · obtain ⟨hwork, hattempts⟩ := hother key hk
      rw [hattempts]
      exact hbefore key row (hwork.symm.trans hrow) hactive

/-- A work fails on a spent budget, to which no released claim is counted, in every run in which
no slice ends before its pass; the first one that does is counted. -/
theorem failed_works_spent_iff (h : Reachable (restrict system Unreleased) s) :
    Budgeted s ∧ ∀ e, system.enabled s e → (Budgeted (system.next s e) ↔ Unreleased s e) := by
  have hbudget : Budgeted s := by
    refine reachable_invariant_with (M := restrict system Unreleased)
      (fun s h => h.unrestrict) ?_ (fun s e hr hI he => ?_) h
    · rintro _ rfl
      exact ⟨(fun _ _ hrow => nomatch hrow), (fun _ _ hrow => nomatch hrow)⟩
    · exact (budgeted_next_iff hr hI he.1).mpr he.2
  exact ⟨hbudget, fun e he => budgeted_next_iff h.unrestrict hbudget he⟩

end Budget

section Example

def jid : WorkKey := ("s1", 7)

/-- A slice of a tick: a claim, a full batch, and the release. -/
def slice (now token : ℕ) : List Event :=
  [⟨jid, .claim now token none⟩, ⟨jid, .advance now token ("g1@g.us", "p@c.us")⟩,
    ⟨jid, .release now token⟩]

def fourSlices : List Event :=
  ⟨jid, .request 1 0⟩ :: (slice 1 1 ++ slice 2 2 ++ slice 3 3 ++ slice 4 4)

/-- The fifth slice of a large identity fails once, and its work is given up: four claims that made
progress and were released count towards its budget. -/
theorem slices_use_up_budget : ∃ s, Reachable system s ∧ ¬Budgeted s := by
  have hvalid : ValidTrace system initial
      (fourSlices ++ [⟨jid, .claim 5 5 none⟩, ⟨jid, .fail 5 5⟩]) := by
    decide +kernel
  refine ⟨_, ⟨_, valid_trace_run rfl hvalid⟩, fun h => ?_⟩
  have hlosses := h.failed jid _ rfl (by decide +kernel)
  exact absurd hlosses (by decide +kernel)

/-- Five failures in a row, each after the wait of the one before. -/
def fiveFailures : List Event :=
  [⟨jid, .request 1 0⟩, ⟨jid, .claim 0 1 none⟩, ⟨jid, .fail 0 1⟩,
    ⟨jid, .claim 3600000 2 none⟩, ⟨jid, .fail 3600000 2⟩,
    ⟨jid, .claim 7200000 3 none⟩, ⟨jid, .fail 7200000 3⟩,
    ⟨jid, .claim 10800000 4 none⟩, ⟨jid, .fail 10800000 4⟩,
    ⟨jid, .claim 14400000 5 none⟩, ⟨jid, .fail 14400000 5⟩]

theorem five_failures_spend_budget :
    Budgeted (runTrace system initial fiveFailures) ∧
      ∀ e, system.enabled (runTrace system initial fiveFailures) e →
        (Budgeted (system.next (runTrace system initial fiveFailures) e) ↔
          Unreleased (runTrace system initial fiveFailures) e) := by
  have hvalid : ValidTrace (restrict system Unreleased) initial fiveFailures := by decide +kernel
  exact failed_works_spent_iff ⟨_, valid_trace_restricted_run rfl hvalid⟩

end Example

end ProjectionBudget
