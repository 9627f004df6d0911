import WaRuntime.AttemptBudgets
import WaRuntime.CampaignRunWrites
import WaRuntime.CampaignRunDeliveries
import WaRuntime.RunOrigins
import WaRuntime.OutboundSessionLeases

/-! The preparation attempts of a campaign run.
The run row keeps the number of attempts used up and the lease of the current one. Here every run
carries in addition the log of its attempts: the claim opens one, and the failure, the recovery
and the commit of a preflight result end it. -/
namespace PreparationAttempts

open TransitionRuns RowVersions MessageJobStatements CampaignRunStatements AttemptBudgets
open CampaignExecution (RunSlot Evaluation CampaignTx Event TxEvent onRun runEffect txRunEffect
  ownsPreparation)
open CampaignRunTransitions CampaignRunWrites
open OutboundMessageExecution (Tx Config)

/-- `testedAt` is the `now()` of the `applyPreflight` that last found itself the owner of the run. -/
structure State where
  exec : CampaignExecution.State
  testedAt : RunId → ℕ
  attempts : RunId → Log ℕ

def initial : State := ⟨CampaignExecution.initial, fun _ => 0, fun _ => []⟩

def testedAfter (s : State) (e : Event) (run : RunId) : ℕ :=
  match e with
  | .tx n (.lockPreparation now token) =>
    match s.exec.txs n with
    | .evaluated ev =>
      if ev.run = run ∧ ownsPreparation s.exec run now token then now else s.testedAt run
    | _ => s.testedAt run
  | _ => s.testedAt run

/-- What the commit of a transaction that has cleared the lease of a run reports. -/
def reported (time : ℕ) (old new : CampaignRun) : Option Ending :=
  if old.preparationLeaseToken ≠ none ∧ new.preparationLeaseToken = none then
    some (if new.status = .preparing then .returned time else .succeeded time)
  else none

/-- The attempts of a run after an event that has taken its row from `old` to `new`. -/
def record (time : ℕ) (e : Event) (run : RunId) (old new : CampaignRun) (log : Log ℕ) : Log ℕ :=
  match e with
  | .claimPreparation id now token =>
    if id = run ∧ claimPreparation now token old = some new then
      claim token (now + leaseMs) old.preparationAttemptCount (finish (.expired now) log)
    else log
  | .recoverExpiredPreparation id now =>
    if id = run ∧ recoverExpiredPreparation now old = some new then finish (.expired now) log
    else log
  | .failPreparationAttempt id now token error =>
    if id = run ∧ failPreparationAttempt now token error old = some new then
      finish (.failed now) log
    else log
  | .tx _ .commit =>
    match reported time old new with
    | some ending => finish ending log
    | none => log
  | _ => log

def attemptsAfter (s : State) (e : Event) (exec : CampaignExecution.State) (run : RunId) : Log ℕ :=
  match (s.exec.runs run).committed, (exec.runs run).committed with
  | .present old, .present new => record (s.testedAt run) e run old new (s.attempts run)
  | _, _ => s.attempts run

def step (c : Config) (s : State) (e : Event) : Option State :=
  (CampaignExecution.step c s.exec e).map fun exec =>
    ⟨exec, testedAfter s e, attemptsAfter s e exec⟩

def system (c : Config) : System State Event := ofStep (· = initial) (step c)

instance (c : Config) (s : State) (e : Event) : Decidable ((system c).enabled s e) :=
  inferInstanceAs (Decidable ((step c s e).isSome = true))

variable {c : Config} {s u : State} {e : Event} {n : ℕ} {run : RunId}

theorem step_some (h : step c s e = some u) : ∃ exec,
    CampaignExecution.step c s.exec e = some exec ∧
      u = ⟨exec, testedAfter s e, attemptsAfter s e exec⟩ := by
  obtain ⟨exec, hx, rfl⟩ := Option.map_eq_some_iff.mp h
  exact ⟨exec, hx, rfl⟩

theorem exec_reachable (h : Reachable (system c) s) :
    Reachable (CampaignExecution.system c) s.exec := by
  refine Projects.reachable (f := State.exec) (projects_ofStep ?_ fun s e u h => ?_) h
  · rintro _ rfl
    rfl
  · obtain ⟨exec, hx, rfl⟩ := step_some h
    exact ⟨[e], ofStep_execution hx⟩

/-- The log is a record only: every run of the campaign system has one. -/
theorem attempts_recorded {exec : CampaignExecution.State}
    (h : Reachable (CampaignExecution.system c) exec) :
    ∃ s, Reachable (system c) s ∧ s.exec = exec := by
  refine reachable_invariant (M := CampaignExecution.system c)
    (I := fun exec => ∃ s, Reachable (system c) s ∧ s.exec = exec) ?_ (fun exec e hI he => ?_) h
  · rintro _ rfl
    exact ⟨initial, reachable_of_initial rfl, rfl⟩
  · obtain ⟨s, hs, rfl⟩ := hI
    have hx := ofStep_enabled he
    have hstep : step c s e = some ⟨_, testedAfter s e, attemptsAfter s e _⟩ :=
      Option.map_eq_some_iff.mpr ⟨_, hx, rfl⟩
    exact ⟨_, hs.extend (ofStep_execution hstep), rfl⟩

section Locks

/-- The run and the token of a transaction that has found itself the owner of a preparation. -/
def fencedToken : CampaignTx → Option (RunId × ℕ)
  | .locked (.preparation token) ev | .stale (.preparation token) ev
  | .checked (.preparation token) ev | .copied (.preparation token) ev
  | .inserted (.preparation token) ev => some (ev.run, token)
  | _ => none

theorem fenced_locked {k : CampaignTx} {token : ℕ} (h : fencedToken k = some (run, token)) :
    k.lock = some (run, [.preparing]) ∧ ∀ r v, Keeps k r v → v = .present r := by
  unfold fencedToken at h
  split at h <;> cases h
  all_goals exact ⟨rfl, fun r v hv => hv⟩

/-- A transaction becomes the owner in its locking SELECT only. -/
theorem fenced_origin {x : CampaignExecution.State} {k k' : CampaignTx} {event : TxEvent}
    {token : ℕ} (hn : CampaignExecution.txNext x n k event = some k')
    (hf : fencedToken k' = some (run, token)) :
    fencedToken k = some (run, token) ∨
      ∃ ev now, k = .evaluated ev ∧ event = .lockPreparation now token ∧ ev.run = run ∧
        ownsPreparation x run now token = true ∧ (x.runs run).Free := by
  unfold CampaignExecution.txNext at hn
  split at hn
  case h_2 ev now token' =>
    split at hn
    · rename_i r hr
      split at hn
      · rename_i how
        obtain ⟨⟨_, hfree⟩, rfl⟩ := guarded_eq_some.mp hn
        cases hf
        exact .inr ⟨ev, now, rfl, rfl, rfl, by simp [ownsPreparation, hr, how], hfree⟩
      · obtain ⟨_, rfl⟩ := guarded_eq_some.mp hn
        cases hf
    · obtain ⟨_, rfl⟩ := guarded_eq_some.mp hn
      cases hf
  case h_3 ev =>
    split at hn
    · cases hn
    · obtain rfl | ⟨r, _, _, _, rfl⟩ := CampaignExecution.lockedOn_some hn <;> cases hf
  case h_10 | h_17 =>
    obtain rfl | ⟨r, _, _, _, rfl⟩ := CampaignExecution.lockedOn_some hn <;> cases hf
  case h_4 fence ev =>
    obtain rfl := Option.some.inj hn
    split at hf <;> cases fence <;> cases hf <;> exact .inl rfl
  case h_7 fence ev | h_8 fence ev _ =>
    obtain ⟨_, rfl⟩ := guarded_eq_some.mp hn
    cases fence <;> cases hf
    exact .inl rfl
  all_goals simp only [guarded_eq_some, Option.some.injEq, reduceCtorEq] at hn
  all_goals
    first
    | subst hn
    | obtain ⟨_, rfl⟩ := hn
    cases hf

/-- The committed row of a run that a transaction holds changes with the commit of the holder. -/
theorem held_committed_kept {x y : CampaignExecution.State} {v : RunSlot}
    (h : CampaignExecution.step c x e = some y) (hh : (x.runs run).held = some (.campaign n, v))
    (he : e ≠ .tx n .commit) : (y.runs run).committed = (x.runs run).committed := by
  obtain ⟨m, core, _, _, ⟨hready, _, _⟩, rfl⟩ := CampaignExecution.step_some h
  have hrow := Effect.row_moves hready run
  change ((runEffect x e).apply x.runs run).committed = _
  generalize (runEffect x e).apply x.runs run = row at hrow ⊢
  cases hrow with
  | same => rfl
  | own _ _ hfree =>
    rw [hfree] at hh
    cases hh
  | inside => rfl
  | commit hc hw =>
    obtain ⟨k, rfl, rfl⟩ := CampaignRunDeliveries.run_commit hc
    rw [hh] at hw
    cases hw
    exact absurd rfl he
  | abort => rfl

theorem lock_free {x y : CampaignExecution.State} {ev : Evaluation} {now token : ℕ}
    (h : CampaignExecution.step c x (.tx n (.lockPreparation now token)) = some y)
    (hk : x.txs n = .evaluated ev) (ho : ownsPreparation x ev.run now token = true) :
    (x.runs ev.run).Free ∧ now ≤ x.core.clock := by
  obtain ⟨m, core, hm, _, _, _⟩ := CampaignExecution.step_some h
  have hn := CampaignExecution.tx_moves hm
  rw [hk] at hn
  unfold ownsPreparation at ho
  simp only [CampaignExecution.txNext] at hn
  split at ho
  · rename_i r hr
    simp only [hr, if_pos (of_decide_eq_true ho)] at hn
    obtain ⟨⟨hclock, hfree⟩, _⟩ := guarded_eq_some.mp hn
    exact ⟨hfree, hclock⟩
  · cases ho

/-- The time of the ownership test stays while a transaction holds the run. -/
theorem tested_kept (h : step c s e = some u) (hh : (s.exec.runs run).held ≠ none) :
    u.testedAt run = s.testedAt run := by
  obtain ⟨exec, hx, rfl⟩ := step_some h
  change testedAfter s e run = _
  unfold testedAfter
  split
  · rename_i n now token
    split
    · rename_i ev hk
      split
      · rename_i ho
        obtain ⟨rfl, ho⟩ := ho
        exact absurd (lock_free hx hk ho).1 hh
      · rfl
    · rfl
  · rfl

/-- A transaction that has found itself the owner of a preparation still is, by the row it holds. -/
def Owned (s : State) : Prop :=
  ∀ n run token, fencedToken (s.exec.txs n) = some (run, token) →
    ∃ r, (s.exec.runs run).committed = .present r ∧
      (s.exec.runs run).held = some (.campaign n, .present r) ∧
      OwnsPreparation (s.testedAt run) token r

theorem owned_step (hr : Reachable (system c) s) (hI : Owned s) (h : step c s e = some u) :
    Owned u := by
  intro n run token hf
  have hreach : Reachable (system c) u := hr.extend (ofStep_execution h)
  obtain ⟨hlock, hkeep⟩ := fenced_locked hf
  obtain ⟨r, v, hcommitted, _, hheld, hv⟩ := runs_locked (exec_reachable hreach) n run _ hlock
  obtain rfl := hkeep r v hv
  refine ⟨r, hcommitted, hheld, ?_⟩
  obtain ⟨exec, hx, rfl⟩ := step_some h
  -- the transaction was the owner before, or has tested it in this step
  have hbefore : fencedToken (s.exec.txs n) = some (run, token) → e ≠ .tx n .commit →
      OwnsPreparation ((⟨exec, testedAfter s e, attemptsAfter s e exec⟩ : State).testedAt run)
        token r := by
    intro hold he
    obtain ⟨r', hcommitted', hheld', howns⟩ := hI n run token hold
    have hsame := held_committed_kept hx hheld' he
    rw [tested_kept h (by simp [hheld'])]
    rw [hsame, hcommitted'] at hcommitted
    cases hcommitted
    exact howns
  obtain ⟨m, core, hm, _, _, rfl⟩ := CampaignExecution.step_some hx
  change fencedToken (m.txs n) = _ at hf
  by_cases hev : ∃ event, e = .tx n event
  · obtain ⟨event, rfl⟩ := hev
    have hn := CampaignExecution.tx_moves hm
    obtain hold | ⟨ev, now, hk, rfl, rfl, ho, hfree⟩ := fenced_origin hn hf
    · refine hbefore hold ?_
      intro hc
      cases hc
      generalize s.exec.txs n = k at hn hold
      cases k <;> simp [CampaignExecution.txNext, fencedToken] at hn hold
    · have howns : OwnsPreparation now token r := by
        have hsame : (s.exec.runs ev.run).committed = .present r := by
          simpa [runEffect, txRunEffect, hk, ho, Effect.apply] using hcommitted
        simpa [ownsPreparation, hsame] using ho
      simpa [testedAfter, hk, ho] using howns
  · rw [CampaignExecution.other_tx_unchanged hm fun event he => hev ⟨event, he⟩] at hf
    exact hbefore hf fun he => hev ⟨_, he⟩

theorem owned (h : Reachable (system c) s) : Owned s := by
  refine reachable_invariant_with (M := system c) (I := Owned) (J := Reachable (system c))
    (fun _ => id) ?_ (fun s e hr hI he => owned_step hr hI (ofStep_enabled he)) h
  rintro _ rfl n run token hf
  cases hf

end Locks

section Finalizations

def Prepared (old new : CampaignRun) : Prop :=
  old.status ≠ .preparing → new.status ≠ .preparing

theorem lawful_prepared (old new : CampaignRun) (h : Lawful old new) : Prepared old new := by
  obtain ⟨_, hs | ht⟩ := h
  · rw [Prepared, hs]
    exact id
  · intro _ hn
    rw [hn] at ht
    cases hs : old.status <;> simp [hs, Transition] at ht

/-- A run does not come back to its preparation. -/
theorem prepared_changes {x y : CampaignExecution.State}
    (hr : Reachable (CampaignExecution.system c) x) (h : CampaignExecution.step c x e = some y)
    (run : RunId) : SlotChange Prepared (x.runs run).committed (y.runs run).committed := by
  have hfree : Reachable (restrict (CampaignExecution.system c) fun _ _ => True) x :=
    hr.restrict_of fun _ _ => trivial
  refine committed_run_changes (fun s e hI hrow _ => ?_) hfree h trivial run
  refine run_effect_changes hI hrow lawful_prepared fun now _ hasFailure r _ _ _ => ?_
  cases hasFailure <;> simp [finalize, finalOutcome]

/-- The run has left its preparation behind. -/
def PastPreparation : RunSlot → Prop
  | .present r => r.status ≠ .preparing
  | .deleted => True
  | .unused => False

theorem past_preparation_kept {v w : RunSlot} (h : SlotChange Prepared v w)
    (hv : PastPreparation v) : PastPreparation w := by
  cases h with
  | kept => exact hv
  | created => exact hv.elim
  | changed hp => exact hp hv
  | deleted => trivial

def FinalizingPrepared (x : CampaignExecution.State) : Prop :=
  ∀ n found, x.txs n = .finalizing found → ∀ p ∈ found, PastPreparation (x.runs p.1).committed

theorem finalizing_prepared_step {x y : CampaignExecution.State}
    (hr : Reachable (CampaignExecution.system c) x) (hI : FinalizingPrepared x)
    (h : CampaignExecution.step c x e = some y) : FinalizingPrepared y := by
  intro n found hf p hp
  refine past_preparation_kept (prepared_changes hr h p.1) ?_
  obtain ⟨m, core, hm, _, _, rfl⟩ := CampaignExecution.step_some h
  change m.txs n = _ at hf
  by_cases hev : ∃ event, e = .tx n event
  · obtain ⟨event, rfl⟩ := hev
    have hn := CampaignExecution.tx_moves hm
    rw [hf] at hn
    obtain ⟨q, hbefore⟩ | hall := CampaignRunDeliveries.finalizing_origin hn
    · exact hI n _ hbefore p (List.mem_cons_of_mem _ hp)
    · have hfound := hall p hp
      unfold CampaignExecution.finalizable at hfound
      split at hfound
      · rename_i r hrun
        rw [hrun]
        simp only [Option.ite_none_right_eq_some] at hfound
        simp [PastPreparation, hfound.1.1]
      · cases hfound
  · rw [CampaignExecution.other_tx_unchanged hm fun event he => hev ⟨event, he⟩] at hf
    exact hI n found hf p hp

theorem finalizing_prepared {x : CampaignExecution.State}
    (h : Reachable (CampaignExecution.system c) x) : FinalizingPrepared x := by
  refine reachable_invariant_with (M := CampaignExecution.system c) (I := FinalizingPrepared)
    (J := Reachable (CampaignExecution.system c)) (fun _ => id) ?_
    (fun x e hr hI he => finalizing_prepared_step hr hI (ofStep_enabled he)) h
  rintro _ rfl n found hf
  cases hf

end Finalizations

section Changes

/-- The count and the lease stay. The run may be cancelled during its preparation, which cancels
no lease. -/
structure SamePreparation (old new : CampaignRun) : Prop where
  count : new.preparationAttemptCount = old.preparationAttemptCount
  token : new.preparationLeaseToken = old.preparationLeaseToken
  expiresAt : new.preparationLeaseExpiresAt = old.preparationLeaseExpiresAt
  left : old.status = .preparing → new.status = .preparing ∨ new.status = .cancelled
  entered : new.status = .preparing → old.status = .preparing
  failed : new.status = .failed → old.status = .failed

theorem same_preparation_refl (r : CampaignRun) : SamePreparation r r :=
  ⟨rfl, rfl, rfl, .inl, id, id⟩

/-- What a transaction may have done to the run it commits, where `time` is when it tested its
ownership. -/
inductive Report (time : ℕ) (old new : CampaignRun) : Prop where
  | none (same : SamePreparation old new)
  | stale {token : ℕ} (owns : OwnsPreparation time token old) (status : new.status = .preparing)
      (cleared : new.preparationLeaseToken = .none ∧ new.preparationLeaseExpiresAt = .none)
      (count : new.preparationAttemptCount = old.preparationAttemptCount - 1)
  | applied {token : ℕ} (owns : OwnsPreparation time token old)
      (status : new.status ∈ [.blocked, .scheduled, .running])
      (cleared : new.preparationLeaseToken = .none ∧ new.preparationLeaseExpiresAt = .none)
      (count : new.preparationAttemptCount = old.preparationAttemptCount)

theorem blocked_report {time token now : ℕ} {r : CampaignRun}
    (h : OwnsPreparation time token r) : Report time r (applyBlocked now r) :=
  .applied h (by simp [applyBlocked]) ⟨rfl, rfl⟩ rfl

theorem ready_report {time token date now : ℕ} {preflight : CampaignPreflightStatus}
    {r : CampaignRun} (h : OwnsPreparation time token r) :
    Report time r (applyReady now date preflight r) := by
  refine .applied h ?_ ⟨rfl, rfl⟩ rfl
  simp only [applyReady]
  split <;> simp

theorem stale_report {time token now : ℕ} {r new : CampaignRun} (h : OwnsPreparation time token r)
    (hw : releaseStaleAttempt now token r = some new) : Report time r new := by
  unfold releaseStaleAttempt at hw
  split at hw <;> cases hw
  exact .stale h h.1 ⟨rfl, rfl⟩ rfl

/-- A write of a run that has left its preparation. -/
theorem same_of_past {old new : CampaignRun} (hp : old.status ≠ .preparing)
    (hs : new.status ≠ .preparing ∧ new.status ≠ .failed)
    (hcount : new.preparationAttemptCount = old.preparationAttemptCount)
    (htoken : new.preparationLeaseToken = old.preparationLeaseToken)
    (hexpires : new.preparationLeaseExpiresAt = old.preparationLeaseExpiresAt) :
    SamePreparation old new :=
  ⟨hcount, htoken, hexpires, fun h => absurd h hp, fun h => absurd h hs.1, fun h => absurd h hs.2⟩

/-- What the holder of a run makes of it. -/
def HeldReports (s : State) : Prop :=
  ∀ run n v, (s.exec.runs run).held = some (.campaign n, v) → ∃ old new,
    (s.exec.runs run).committed = .present old ∧ v = .present new ∧
      Report (s.testedAt run) old new

/-- A transaction locks a run as it is committed, and later writes what it reports. -/
theorem held_write {g : CampaignRun → Option CampaignRun} {seen new : CampaignRun}
    (hr : Reachable (system c) s) (hI : HeldReports s) (hw : RunWrite s.exec e run g)
    (ho : (runEffect s.exec e).owner = some (.campaign n))
    (hfree : (s.exec.runs run).FreeFor (.campaign n))
    (hview : (s.exec.runs run).view (.campaign n) = .present seen) (hg : g seen = some new) :
    ∃ old, (s.exec.runs run).committed = .present old ∧
      (new = old ∨ (s.exec.runs run).held ≠ none ∧ Report (s.testedAt run) old new) := by
  have hmine : ∀ k event, e = .tx k event → k = n := by
    rintro k event rfl
    obtain ⟨_, _, hev, hk⟩ := CampaignExecution.run_effect_owner ho
    cases hev
    cases hk
    rfl
  have hlocked : ∀ statuses, (s.exec.txs n).lock = some (run, statuses) →
      (∀ r v, Keeps (s.exec.txs n) r v → v = .present r) →
        (s.exec.runs run).committed = .present seen ∧ (s.exec.runs run).held ≠ none ∧
          seen.status ∈ statuses := by
    intro statuses hl hkeep
    obtain ⟨r, v, hcommitted, hs, hheld, hv⟩ := runs_locked (exec_reachable hr) n run _ hl
    obtain rfl := hkeep r v hv
    rw [Row.view_of_held hheld] at hview
    cases hview
    exact ⟨hcommitted, by simp [hheld], hs⟩
  have hfenced : ∀ token, fencedToken (s.exec.txs n) = some (run, token) →
      (s.exec.runs run).committed = .present seen ∧ (s.exec.runs run).held ≠ none ∧
        OwnsPreparation (s.testedAt run) token seen := by
    intro token hf
    obtain ⟨r, hcommitted, hheld, howns⟩ := owned hr n run token hf
    rw [Row.view_of_held hheld] at hview
    cases hview
    exact ⟨hcommitted, by simp [hheld], howns⟩
  cases hw with
  | claim | recover | fail | activate | pause | recordBlocked =>
    simp [runEffect, Effect.owner] at ho
  | finalize hstage => simp [runEffect, txRunEffect, hstage, Effect.owner] at ho
  | locked =>
    cases hg
    obtain hnone | ⟨v, hheld⟩ := Row.free_for_cases hfree
    · rw [Row.view_of_free hnone] at hview
      exact ⟨seen, hview, .inl rfl⟩
    · obtain ⟨old, new, hcommitted, rfl, hreport⟩ := hI run n v hheld
      rw [Row.view_of_held hheld] at hview
      cases hview
      exact ⟨old, hcommitted, .inr ⟨by simp [hheld], hreport⟩⟩
  | releaseStale hstage =>
    obtain rfl := hmine _ _ rfl
    obtain ⟨hcommitted, hheld, howns⟩ := hfenced _ (by rw [hstage]; rfl)
    exact ⟨seen, hcommitted, .inr ⟨hheld, stale_report howns hg⟩⟩
  | applyBlocked hstage =>
    obtain rfl := hmine _ _ rfl
    obtain ⟨hcommitted, hheld, howns⟩ := hfenced _ (by rw [hstage]; rfl)
    cases hg
    exact ⟨seen, hcommitted, .inr ⟨hheld, blocked_report howns⟩⟩
  | applyReady hstage =>
    obtain rfl := hmine _ _ rfl
    obtain ⟨hcommitted, hheld, howns⟩ := hfenced _ (by rw [hstage]; rfl)
    cases hg
    exact ⟨seen, hcommitted, .inr ⟨hheld, ready_report howns⟩⟩
  | resume hstage =>
    obtain rfl := hmine _ _ rfl
    obtain ⟨hcommitted, hheld, hs⟩ :=
      hlocked _ (by rw [hstage]; rfl) (by rw [hstage]; exact fun _ _ => id)
    cases hg
    refine ⟨seen, hcommitted, .inr ⟨hheld, .none (same_of_past ?_ ?_ rfl rfl rfl)⟩⟩
    · intro hp
      simp [hp, CampaignExecution.Fence.statuses] at hs
    · simp only [CampaignRunStatements.resume]
      split <;> simp
  | cancel hstage =>
    obtain rfl := hmine _ _ rfl
    obtain ⟨hcommitted, hheld, _⟩ :=
      hlocked _ (by rw [hstage]; rfl) (by rw [hstage]; exact fun _ _ => id)
    cases hg
    refine ⟨seen, hcommitted,
      .inr ⟨hheld, .none ⟨rfl, rfl, rfl, fun _ => .inr rfl, ?_, ?_⟩⟩⟩ <;>
      simp [CampaignRunStatements.cancel]
  | pauseUnsendable hstage =>
    obtain rfl := hmine _ _ rfl
    obtain ⟨hcommitted, hheld, _⟩ :=
      hlocked _ (by rw [hstage]; rfl) (by rw [hstage]; exact fun _ _ => id)
    unfold CampaignRunStatements.pauseUnsendable at hg
    split at hg <;> cases hg
    rename_i hrunning
    refine ⟨seen, hcommitted, .inr ⟨hheld, .none ?_⟩⟩
    exact same_of_past (by simp [hrunning]) (by simp) rfl rfl rfl

theorem held_reports_step (hr : Reachable (system c) s) (hI : HeldReports s)
    (h : step c s e = some u) : HeldReports u := by
  intro run n v hv
  have hkept : (s.exec.runs run).held ≠ none → u.testedAt run = s.testedAt run := tested_kept h
  obtain ⟨exec, hx, rfl⟩ := step_some h
  obtain ⟨m, core, _, _, ⟨hready, _, _⟩, rfl⟩ := CampaignExecution.step_some hx
  change ((runEffect s.exec e).apply s.exec.runs run).held = some (.campaign n, v) at hv
  change ∃ old new, ((runEffect s.exec e).apply s.exec.runs run).committed = .present old ∧
    v = .present new ∧ Report (testedAfter s e run) old new
  have hrow := Effect.row_moves hready run
  generalize (runEffect s.exec e).apply s.exec.runs run = row at hrow hv ⊢
  cases hrow with
  | same =>
    obtain ⟨old, new, hcommitted, hnew, hreport⟩ := hI run n v hv
    rw [← hkept (by simp [hv])] at hreport
    exact ⟨old, new, hcommitted, hnew, hreport⟩
  | own => cases hv
  | @inside t f w hs ho hfree hw =>
    simp only [Row.write_held, Option.some.injEq, Prod.mk.injEq] at hv
    obtain ⟨rfl, rfl⟩ := hv
    obtain ⟨_, _, rfl, _, _⟩ | ⟨_, rfl, _⟩ | ⟨g, seen, new, hrun, hview, hg, rfl⟩ :=
      run_write hs hw
    · simp [runEffect, Effect.owner] at ho
    · simp [runEffect, Effect.owner] at ho
    · obtain ⟨old, hcommitted, rfl | ⟨hheld, hreport⟩⟩ :=
        held_write hr hI hrun ho hfree hview hg
      · exact ⟨new, new, hcommitted, rfl, .none (same_preparation_refl new)⟩
      · rw [← hkept hheld] at hreport
        exact ⟨old, new, hcommitted, rfl, hreport⟩
  | commit => cases hv
  | abort => cases hv

theorem held_reports (h : Reachable (system c) s) : HeldReports s := by
  refine reachable_invariant_with (M := system c) (I := HeldReports) (J := Reachable (system c))
    (fun _ => id) ?_ (fun s e hr hI he => held_reports_step hr hI (ofStep_enabled he)) h
  rintro _ rfl run n v hv
  cases hv

/-- What one step makes of a committed run, as far as its preparation goes. -/
inductive Change (time clock : ℕ) (e : Event) (run : RunId) (old new : CampaignRun) : Prop where
  | kept (same : SamePreparation old new)
  | claimed {now token : ℕ} (event : e = .claimPreparation run now token) (started : now ≤ clock)
      (write : claimPreparation now token old = some new)
  | recovered {now : ℕ} (event : e = .recoverExpiredPreparation run now) (started : now ≤ clock)
      (write : recoverExpiredPreparation now old = some new)
  | failed {now token : ℕ} {error : String} (event : e = .failPreparationAttempt run now token error)
      (write : failPreparationAttempt now token error old = some new)
  | committed {n : ℕ} (event : e = .tx n .commit) (report : Report time old new)

theorem own_change {x y : CampaignExecution.State} {g : CampaignRun → Option CampaignRun}
    {old new : CampaignRun} {time : ℕ} (hr : Reachable (CampaignExecution.system c) x)
    (h : CampaignExecution.step c x e = some y) (hw : RunWrite x e run g)
    (ho : (runEffect x e).owner = none) (hold : (x.runs run).committed = .present old)
    (hg : g old = some new) : Change time x.core.clock e run old new := by
  obtain ⟨m, core, hm, _, _, _⟩ := CampaignExecution.step_some h
  cases hw with
  | claim => exact .claimed rfl (guarded_eq_some.mp hm).1 hg
  | recover => exact .recovered rfl (guarded_eq_some.mp hm).1 hg
  | fail => exact .failed rfl hg
  | activate =>
    unfold activateDue at hg
    split at hg <;> cases hg
    rename_i hs
    exact .kept (same_of_past (by simp [hs.1]) (by simp) rfl rfl rfl)
  | pause =>
    unfold CampaignRunStatements.pause at hg
    split at hg <;> cases hg
    rename_i hs
    refine .kept (same_of_past ?_ (by simp) rfl rfl rfl)
    intro hp
    simp [hp] at hs
  | recordBlocked =>
    unfold recordBlockedResume at hg
    split at hg <;> cases hg
    rename_i hs
    refine .kept (same_of_past ?_ (by simp) rfl rfl rfl)
    intro hp
    simp [hp] at hs
  | @finalize n now _ hasFailure rest hstage =>
    cases hg
    have hpast := finalizing_prepared hr n _ hstage (run, hasFailure) (by simp)
    rw [hold] at hpast
    refine .kept (same_of_past hpast ?_ rfl rfl rfl)
    cases hasFailure <;> simp [finalize, finalOutcome]
  | @locked n event =>
    cases hg
    exact .kept (same_preparation_refl _)
  | releaseStale hstage => simp [runEffect, txRunEffect, hstage, Effect.owner] at ho
  | applyBlocked hstage => simp [runEffect, txRunEffect, hstage, Effect.owner] at ho
  | applyReady hstage => simp [runEffect, txRunEffect, hstage, Effect.owner] at ho
  | resume hstage => simp [runEffect, txRunEffect, hstage, Effect.owner] at ho
  | cancel hstage => simp [runEffect, txRunEffect, hstage, Effect.owner] at ho
  | pauseUnsendable hstage => simp [runEffect, txRunEffect, hstage, Effect.owner] at ho

theorem change_step (hr : Reachable (system c) s) (h : step c s e = some u)
    {old new : CampaignRun} (hold : (s.exec.runs run).committed = .present old)
    (hnew : (u.exec.runs run).committed = .present new) :
    Change (s.testedAt run) s.exec.core.clock e run old new := by
  obtain ⟨exec, hx, rfl⟩ := step_some h
  have hown : ∀ g, ∀ new : CampaignRun, RunWrite s.exec e run g → (runEffect s.exec e).owner = none →
      (s.exec.runs run).committed = .present old → g old = some new →
      Change (s.testedAt run) s.exec.core.clock e run old new :=
    fun g new => own_change (exec_reachable hr) hx
  obtain ⟨m, core, _, _, ⟨hready, _, _⟩, rfl⟩ := CampaignExecution.step_some hx
  change ((runEffect s.exec e).apply s.exec.runs run).committed = _ at hnew
  have hrow := Effect.row_moves hready run
  generalize (runEffect s.exec e).apply s.exec.runs run = row at hrow hnew
  have hsame : (s.exec.runs run).committed = .present new →
      Change (s.testedAt run) s.exec.core.clock e run old new := by
    intro hn
    rw [hold] at hn
    cases hn
    exact .kept (same_preparation_refl old)
  cases hrow with
  | same => exact hsame hnew
  | own hs ho _ hw =>
    simp only [Row.settled_committed] at hnew
    subst hnew
    rw [hold] at hw
    obtain ⟨_, _, _, hunused, _⟩ | ⟨_, _, hdeleted⟩ | ⟨g, seen, new', hrun, hseen, hg, heq⟩ :=
      run_write hs hw
    · cases hunused
    · cases hdeleted
    · cases hseen
      cases heq
      exact hown g new hrun ho hold hg
  | inside => exact hsame hnew
  | commit hc hh =>
    obtain ⟨n, rfl, rfl⟩ := CampaignRunDeliveries.run_commit hc
    obtain ⟨old', new', hold', rfl, hreport⟩ := held_reports hr run n _ hh
    rw [hold] at hold'
    cases hold'
    cases hnew
    exact .committed rfl hreport
  | abort => exact hsame hnew

end Changes

section Protocol

/-- The row of a run against the log of its attempts. -/
structure Tracks (clock : ℕ) (r : CampaignRun) (log : Log ℕ) : Prop where
  valid : Valid clock log
  count : r.preparationAttemptCount = consumed log
  budget : consumed log ≤ preparationAttempts
  token : r.preparationLeaseToken = (current log).map Attempt.token
  expiresAt : r.preparationLeaseExpiresAt = (current log).map Attempt.expiresAt
  preparing : r.status = .preparing →
    successes log = 0 ∧ (current log = none → consumed log < preparationAttempts)
  failed : r.status = .failed → losses log = preparationAttempts

theorem tracks_created (clock now : ℕ) (input : CreateRunInput) :
    Tracks clock (createRun now input) [] := by
  constructor <;> simp [createRun, Valid, consumed, current, successes, preparationAttempts]

variable {time clock clock' : ℕ} {old new r : CampaignRun} {log : Log ℕ}

theorem tracks_kept (h : Tracks clock old log) (hle : clock ≤ clock')
    (hs : SamePreparation old new) : Tracks clock' new log where
  valid := valid_later h.valid hle
  count := hs.count.trans h.count
  budget := h.budget
  token := hs.token.trans h.token
  expiresAt := hs.expiresAt.trans h.expiresAt
  preparing := fun hp => h.preparing (hs.entered hp)
  failed := fun hf => h.failed (hs.failed hf)

/-- An event that leaves the preparation alone records nothing. -/
theorem record_kept (hs : SamePreparation old new) : record time e run old new log = log := by
  cases e with
  | claimPreparation id now token =>
    refine if_neg ?_
    rintro ⟨_, hw⟩
    have hcount := hs.count
    unfold claimPreparation at hw
    split at hw <;> cases hw
    exact absurd hcount (by simp)
  | recoverExpiredPreparation id now =>
    refine if_neg ?_
    rintro ⟨_, hw⟩
    have htoken := hs.token
    have hfailed := hs.failed
    unfold recoverExpiredPreparation at hw
    split at hw <;> cases hw
    rename_i hguard
    obtain ⟨hp, ⟨hsome, _⟩ | ⟨_, hcount⟩⟩ := hguard
    · exact hsome htoken.symm
    · simp [hcount, hp] at hfailed
  | failPreparationAttempt id now token error =>
    refine if_neg ?_
    rintro ⟨_, hw⟩
    have htoken := hs.token
    unfold failPreparationAttempt at hw
    split at hw <;> cases hw
    rename_i howns
    rw [howns.2.1] at htoken
    cases htoken
  | tx n event =>
    cases event with
    | commit => simp [record, reported, hs.token]
    | _ => rfl
  | _ => rfl

/-- The lease of the row is that of the current attempt. -/
theorem current_of_lease (h : Tracks clock r log) {expiresAt : ℕ}
    (htoken : r.preparationLeaseToken ≠ none)
    (hexpires : r.preparationLeaseExpiresAt = some expiresAt) :
    ∃ a, current log = some a ∧ r.preparationLeaseToken = some a.token ∧
      a.expiresAt = expiresAt := by
  have hlease := h.token
  have hend := h.expiresAt
  cases hc : current log with
  | none =>
    rw [hc] at hlease
    exact absurd hlease htoken
  | some a =>
    rw [hc] at hlease hend
    rw [hend] at hexpires
    exact ⟨a, rfl, hlease, Option.some.inj hexpires⟩

/-- The attempt under an expired lease is taken away. -/
theorem valid_expired (h : Tracks clock r log) {now : ℕ} (hnow : now ≤ clock)
    (hlease : r.preparationLeaseToken = none ∨ ∃ x ∈ r.preparationLeaseExpiresAt, x < now) :
    Valid clock (finish (.expired now) log) := by
  refine valid_finish h.valid fun a ha => ?_
  have htoken := h.token
  have hexpires := h.expiresAt
  rw [ha] at htoken hexpires
  obtain hnone | ⟨x, hx, hlt⟩ := hlease
  · rw [hnone] at htoken
    cases htoken
  · rw [hexpires] at hx
    cases hx
    exact ⟨hlt, hnow⟩

theorem tracks_claimed (h : Tracks clock old log) {now token : ℕ} (hnow : now ≤ clock)
    (hw : claimPreparation now token old = some new) :
    Tracks clock new
      (claim token (now + leaseMs) old.preparationAttemptCount (finish (.expired now) log)) := by
  have hconsumed : consumed (finish (.expired now) log) = consumed log :=
    consumed_finish (by simp)
  have hcount := h.count
  unfold claimPreparation at hw
  split at hw <;> cases hw
  rename_i hguard
  obtain ⟨hs, _, hlt, hfree⟩ := hguard
  have hvalid := valid_expired h hnow hfree
  constructor
  · rw [hcount, ← hconsumed]
    exact valid_claim hvalid current_finish
  · simp [hconsumed, hcount]
  · rw [consumed_claim, hconsumed]
    omega
  · rfl
  · rfl
  · intro _
    rw [successes_claim, successes_finish (by simp)]
    exact ⟨(h.preparing hs).1, by simp⟩
  · intro hf
    rw [hs] at hf
    cases hf

/-- The end of an attempt by a failure or by its expiry. -/
theorem tracks_lost (h : Tracks clock old log) {ending : Ending}
    (hvalid : Valid clock (finish ending log)) (hs : old.status = .preparing)
    (hlost : ∀ time, ending ≠ .returned time ∧ ending ≠ .succeeded time)
    (hstatus : new.status =
      if preparationAttempts ≤ old.preparationAttemptCount then .failed else .preparing)
    (hcount : new.preparationAttemptCount = old.preparationAttemptCount)
    (htoken : new.preparationLeaseToken = none) (hexpires : new.preparationLeaseExpiresAt = none) :
    Tracks clock new (finish ending log) := by
  have hconsumed : consumed (finish ending log) = consumed log :=
    consumed_finish fun time => (hlost time).1
  have hsuccesses : successes (finish ending log) = 0 :=
    (successes_finish fun time => (hlost time).2).trans (h.preparing hs).1
  have hsum := consumed_eq hvalid
  have hold := h.count
  have hbudget := h.budget
  simp only [hsuccesses, current_finish, if_true] at hsum
  constructor
  · exact hvalid
  · rw [hcount, hconsumed, hold]
  · rw [hconsumed]
    exact hbudget
  · simp [htoken]
  · simp [hexpires]
  · intro hp
    rw [hstatus] at hp
    split at hp
    · cases hp
    · refine ⟨hsuccesses, fun _ => ?_⟩
      omega
  · intro hf
    rw [hstatus] at hf
    split at hf
    · omega
    · cases hf

theorem tracks_recovered (h : Tracks clock old log) {now : ℕ} (hnow : now ≤ clock)
    (hw : recoverExpiredPreparation now old = some new) :
    Tracks clock new (finish (.expired now) log) := by
  unfold recoverExpiredPreparation at hw
  split at hw <;> cases hw
  rename_i hguard
  obtain ⟨hs, hlease⟩ := hguard
  have hvalid : Valid clock (finish (.expired now) log) := by
    refine valid_expired h hnow ?_
    obtain ⟨_, hexpired⟩ | ⟨hnone, _⟩ := hlease
    · exact .inr hexpired
    · exact .inl hnone
  exact tracks_lost h hvalid hs (by simp) (by simp) rfl rfl rfl

theorem tracks_failed (h : Tracks clock old log) {now token : ℕ} {error : String}
    (hw : failPreparationAttempt now token error old = some new) :
    Tracks clock new (finish (.failed now) log) := by
  unfold failPreparationAttempt at hw
  split at hw <;> cases hw
  rename_i hguard
  obtain ⟨hs, htoken, x, hx, hlt⟩ := hguard
  have hvalid : Valid clock (finish (.failed now) log) := by
    refine valid_finish h.valid fun a ha => ?_
    obtain ⟨b, hb, _, rfl⟩ := current_of_lease h (by simp [htoken]) hx
    rw [ha] at hb
    cases hb
    exact hlt
  exact tracks_lost h hvalid hs (by simp) (by simp) rfl rfl rfl

theorem tracks_stale (h : Tracks clock old log) {token : ℕ}
    (howns : OwnsPreparation time token old) (hs : new.status = .preparing)
    (hcleared : new.preparationLeaseToken = none ∧ new.preparationLeaseExpiresAt = none)
    (hcount : new.preparationAttemptCount = old.preparationAttemptCount - 1) :
    Tracks clock new (finish (.returned time) log) := by
  obtain ⟨hp, htoken, x, hx, hlt⟩ := howns
  obtain ⟨a, ha, _, rfl⟩ := current_of_lease h (by simp [htoken]) hx
  obtain ⟨hreturned, hconsumed⟩ := consumed_returned time h.valid ha
  have hold := h.count
  have hbudget := h.budget
  constructor
  · refine valid_finish h.valid fun b hb => ?_
    rw [ha] at hb
    cases hb
    exact hlt
  · omega
  · omega
  · simp [hcleared.1]
  · simp [hcleared.2]
  · intro _
    refine ⟨(successes_finish (by simp)).trans (h.preparing hp).1, fun _ => ?_⟩
    omega
  · intro hf
    rw [hs] at hf
    cases hf

theorem tracks_applied (h : Tracks clock old log) {token : ℕ}
    (howns : OwnsPreparation time token old) (hs : new.status ∈ [.blocked, .scheduled, .running])
    (hcleared : new.preparationLeaseToken = none ∧ new.preparationLeaseExpiresAt = none)
    (hcount : new.preparationAttemptCount = old.preparationAttemptCount) :
    Tracks clock new (finish (.succeeded time) log) := by
  obtain ⟨_, htoken, x, hx, hlt⟩ := howns
  obtain ⟨a, ha, _, rfl⟩ := current_of_lease h (by simp [htoken]) hx
  have hconsumed : consumed (finish (.succeeded time) log) = consumed log :=
    consumed_finish (by simp)
  constructor
  · refine valid_finish h.valid fun b hb => ?_
    rw [ha] at hb
    cases hb
    exact hlt
  · rw [hcount, hconsumed, h.count]
  · rw [hconsumed]
    exact h.budget
  · simp [hcleared.1]
  · simp [hcleared.2]
  · intro hp
    simp [hp] at hs
  · intro hf
    simp [hf] at hs

theorem tracks_change (h : Tracks clock old log) (hle : clock ≤ clock')
    (hc : Change time clock e run old new) :
    Tracks clock' new (record time e run old new log) := by
  have hlater : ∀ {log'}, Tracks clock new log' → Tracks clock' new log' := fun h =>
    tracks_kept h hle (same_preparation_refl new)
  cases hc with
  | kept same =>
    rw [record_kept same]
    exact tracks_kept h hle same
  | claimed event started write =>
    subst event
    simp only [record, write, and_self, if_true]
    exact hlater (tracks_claimed h started write)
  | recovered event started write =>
    subst event
    simp only [record, write, and_self, if_true]
    exact hlater (tracks_recovered h started write)
  | failed event write =>
    subst event
    simp only [record, write, and_self, if_true]
    exact hlater (tracks_failed h write)
  | committed event report =>
    subst event
    cases report with
    | none same =>
      rw [record_kept same]
      exact tracks_kept h hle same
    | stale owns status cleared count =>
      simp only [record, reported, owns.2.1, cleared.1, status, ne_eq, reduceCtorEq,
        not_false_eq_true, and_self, if_true]
      exact hlater (tracks_stale h owns status cleared count)
    | applied owns status cleared count =>
      have hs : new.status ≠ .preparing := by
        intro hp
        simp [hp] at status
      simp only [record, reported, owns.2.1, cleared.1, hs, ne_eq, reduceCtorEq,
        not_false_eq_true, and_self, if_true, if_false]
      exact hlater (tracks_applied h owns status cleared count)

/-- Every run row against the log of its attempts. -/
def AttemptsTracked (s : State) : Prop :=
  ∀ run, match (s.exec.runs run).committed with
    | .present r => Tracks s.exec.core.clock r (s.attempts run)
    | .unused => s.attempts run = []
    | .deleted => True

theorem clock_le {x y : CampaignExecution.State} (h : CampaignExecution.step c x e = some y) :
    x.core.clock ≤ y.core.clock := by
  obtain ⟨m, core, _, hc, _, rfl⟩ := CampaignExecution.step_some h
  change x.core.clock ≤ core.clock
  obtain ⟨_, rfl⟩ | ⟨event, _, hstep⟩ := CampaignDeliveries.core_steps hc
  · exact le_rfl
  · obtain hsame | ⟨ms, _, hlater⟩ := OutboundSessionLeases.clock_next hstep
    · exact hsame.ge
    · omega

theorem attempts_tracked_step (hr : Reachable (system c) s) (hI : AttemptsTracked s)
    (h : step c s e = some u) : AttemptsTracked u := by
  intro run
  have hbefore := hI run
  have hchange : ∀ old new, (s.exec.runs run).committed = .present old →
      (u.exec.runs run).committed = .present new →
      Change (s.testedAt run) s.exec.core.clock e run old new := fun _ _ => change_step hr h
  obtain ⟨exec, hx, rfl⟩ := step_some h
  change match (exec.runs run).committed with
    | .present r => Tracks exec.core.clock r (attemptsAfter s e exec run)
    | .unused => attemptsAfter s e exec run = []
    | .deleted => True
  have hclock := clock_le hx
  have hslot := run_row_changes (exec_reachable hr) hx run
  have hcreated : (s.exec.runs run).committed = .unused → (exec.runs run).committed = .unused ∨
      ∃ input now, e = .createRun run input now ∧
        (exec.runs run).committed = .present (createRun now input) :=
    RunOrigins.unused_step (exec_reachable hr) hx
  unfold attemptsAfter
  generalize (s.exec.runs run).committed = v at hbefore hslot hcreated hchange ⊢
  change ∀ old new, v = .present old → (exec.runs run).committed = .present new →
    Change (s.testedAt run) s.exec.core.clock e run old new at hchange
  generalize (exec.runs run).committed = w at hslot hcreated hchange ⊢
  cases v with
  | unused =>
    obtain rfl | ⟨input, now, _, rfl⟩ := hcreated rfl
    · exact hbefore
    · change Tracks _ _ (s.attempts run)
      rw [show s.attempts run = [] from hbefore]
      exact tracks_created _ now input
  | deleted =>
    cases hslot
    trivial
  | present old =>
    cases w with
    | present new => exact tracks_change hbefore hclock (hchange old new rfl rfl)
    | unused => cases hslot
    | deleted => trivial

theorem attempts_tracked (h : Reachable (system c) s) : AttemptsTracked s := by
  refine reachable_invariant_with (M := system c) (I := AttemptsTracked)
    (J := Reachable (system c)) (fun _ => id) ?_
    (fun s e hr hI he => attempts_tracked_step hr hI (ofStep_enabled he)) h
  rintro _ rfl run
  rfl

theorem tracks_run (h : Reachable (system c) s)
    (hrun : (s.exec.runs run).committed = .present r) :
    Tracks s.exec.core.clock r (s.attempts run) := by
  have htracked := attempts_tracked h run
  rwa [hrun] at htracked

/-- The holder of the token has the current attempt, whose lease has not run out at that time. -/
def Holds (log : Log ℕ) (token time : ℕ) : Prop :=
  ∃ a, current log = some a ∧ a.token = token ∧ time < a.expiresAt

theorem holds_of_owns (h : Tracks clock r log) {token : ℕ} (ho : OwnsPreparation time token r) :
    Holds log token time := by
  obtain ⟨_, htoken, x, hx, hlt⟩ := ho
  obtain ⟨a, ha, htoken', rfl⟩ := current_of_lease h (by simp [htoken]) hx
  rw [htoken] at htoken'
  exact ⟨a, ha, (Option.some.inj htoken').symm, hlt⟩

/-- The attempts of a run. -/
structure AttemptProtocol (clock : ℕ) (r : CampaignRun) (log : Log ℕ) : Prop where
  count : r.preparationAttemptCount = consumed log
  bounded : r.preparationAttemptCount ≤ 3
  exclusive : log.countP (Attempt.unexpired clock) ≤ 1
  claimed : ∀ newer a older, log = newer ++ a :: older → a.before = consumed older
  exhausted : r.status = .failed → losses log = 3

/-- What one step makes of a run, and what gives it the right to. -/
inductive PreparationStep (s : State) (e : Event) (run : RunId) (old new : CampaignRun) : Prop where
  | kept (same : SamePreparation old new)
  | claimed {now token : ℕ} (event : e = .claimPreparation run now token)
      (free : ∀ a, current (s.attempts run) = some a → a.expiresAt < now)
      (count : new.preparationAttemptCount = old.preparationAttemptCount + 1)
  | recovered {now : ℕ} (event : e = .recoverExpiredPreparation run now)
      (expired : ∃ a, current (s.attempts run) = some a ∧ a.expiresAt < now)
      (status : new.status = if 3 ≤ old.preparationAttemptCount then .failed else .preparing)
  | failed {now token : ℕ} {error : String}
      (event : e = .failPreparationAttempt run now token error)
      (holder : Holds (s.attempts run) token now)
      (status : new.status = if 3 ≤ old.preparationAttemptCount then .failed else .preparing)
  | stale {n token : ℕ} (event : e = .tx n .commit)
      (holder : Holds (s.attempts run) token (s.testedAt run)) (status : new.status = .preparing)
      (budget : ∀ a, current (s.attempts run) = some a → new.preparationAttemptCount = a.before)
  | applied {n token : ℕ} (event : e = .tx n .commit)
      (holder : Holds (s.attempts run) token (s.testedAt run))
      (status : new.status ∈ [.blocked, .scheduled, .running])

theorem lease_expired (h : Tracks clock r log) {now : ℕ} (hf : LeaseFree now r) {a : Attempt ℕ}
    (ha : current log = some a) : a.expiresAt < now := by
  have htoken := h.token
  have hexpires := h.expiresAt
  rw [ha] at htoken hexpires
  obtain hnone | ⟨x, hx, hlt⟩ := hf
  · rw [hnone] at htoken
    cases htoken
  · rw [hexpires] at hx
    cases hx
    exact hlt

theorem preparation_step (hr : Reachable (system c) s) (h : step c s e = some u)
    (hold : (s.exec.runs run).committed = .present old)
    (hnew : (u.exec.runs run).committed = .present new) :
    PreparationStep s e run old new := by
  have htracks := tracks_run hr hold
  cases change_step hr h hold hnew with
  | kept same => exact .kept same
  | claimed event _ write =>
    unfold claimPreparation at write
    split at write <;> cases write
    rename_i hguard
    exact .claimed event (fun a => lease_expired htracks hguard.2.2.2) rfl
  | recovered event _ write =>
    unfold recoverExpiredPreparation at write
    split at write <;> cases write
    rename_i hguard
    obtain ⟨hs, ⟨hsome, x, hx, hlt⟩ | ⟨hnone, hcount⟩⟩ := hguard
    · obtain ⟨a, ha, _, rfl⟩ := current_of_lease htracks hsome hx
      exact .recovered event ⟨a, ha, hlt⟩ (if_congr decide_eq_true_iff rfl rfl)
    · have hcurrent : current (s.attempts run) = none := by
        simpa [hnone] using htracks.token.symm
      have hlt := (htracks.preparing hs).2 hcurrent
      rw [htracks.count] at hcount
      omega
  | failed event write =>
    unfold failPreparationAttempt at write
    split at write <;> cases write
    rename_i howns
    exact .failed event (holds_of_owns htracks howns) (if_congr decide_eq_true_iff rfl rfl)
  | committed event report =>
    cases report with
    | none same => exact .kept same
    | stale owns status _ count =>
      refine .stale event (holds_of_owns htracks owns) status fun a ha => ?_
      have hreturned := consumed_returned 0 htracks.valid ha
      have hcount := htracks.count
      omega
    | applied owns status => exact .applied event (holds_of_owns htracks owns) status

theorem preparation_protocol (h : Reachable (system c) s) :
    (∀ run r, (s.exec.runs run).committed = .present r →
        AttemptProtocol s.exec.core.clock r (s.attempts run)) ∧
      ∀ e u run old new, step c s e = some u → (s.exec.runs run).committed = .present old →
        (u.exec.runs run).committed = .present new → PreparationStep s e run old new := by
  constructor
  · intro run r hrun
    have htracks := tracks_run h hrun
    refine ⟨htracks.count, ?_, unexpired_le_one htracks.valid, ?_, htracks.failed⟩
    · rw [htracks.count]
      exact htracks.budget
    · rintro newer a older hlog
      have hvalid := htracks.valid
      rw [hlog] at hvalid
      exact before_eq hvalid
  · exact fun e u run old new hstep hold hnew => preparation_step h hstep hold hnew

/-- A stale input, a failure, an expiry and a failure: the run is FAILED. -/
def exhaustingTrace : List Event :=
  [.writeGroup ("session", "group") ⟨.allowed, "ok", 1, some 0⟩,
    .createRun 1 ⟨1, "session", "key", .live, "text", ["group"], 0⟩ 0,
    .claimPreparation 1 0 5, .tx 0 (.evaluate 1 .pass),
    .writeGroup ("session", "group") ⟨.denied, "not_found", 2, some 0⟩,
    .tx 0 (.lockPreparation 0 5), .tx 0 .checkRevisions, .tx 0 (.releaseStale 0), .tx 0 .commit,
    .claimPreparation 1 0 6, .failPreparationAttempt 1 0 6 "error", .core (.tick 5000),
    .claimPreparation 1 5000 7, .core (.tick 120001), .recoverExpiredPreparation 1 125001,
    .claimPreparation 1 125001 8, .failPreparationAttempt 1 125001 8 "error"]

def attemptSystem : System State Event := system exampleConfig

instance (s : State) (e : Event) : Decidable (attemptSystem.enabled s e) :=
  inferInstanceAs (Decidable ((system exampleConfig).enabled s e))

def exhaustedState : State := runTrace attemptSystem initial exhaustingTrace

theorem exhausted_run_failed : ∃ r, (exhaustedState.exec.runs 1).committed = .present r ∧
    r.status = .failed ∧
      AttemptProtocol exhaustedState.exec.core.clock r (exhaustedState.attempts 1) := by
  have hread : (exhaustedState.exec.runs 1).committed.run.map CampaignRun.status =
      some .failed := by
    decide +kernel
  obtain ⟨r, hr, hs⟩ := Option.map_eq_some_iff.mp hread
  have hrun : (exhaustedState.exec.runs 1).committed = .present r := by
    generalize (exhaustedState.exec.runs 1).committed = slot at hr
    cases slot <;> cases hr
    rfl
  have hreached : Reachable attemptSystem exhaustedState :=
    ⟨exhaustingTrace, valid_trace_run rfl (by decide +kernel)⟩
  exact ⟨r, hrun, hs, (preparation_protocol hreached).1 1 r hrun⟩

end Protocol

end PreparationAttempts
