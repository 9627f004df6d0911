import WaRuntime.GroupCapabilityRevision

/-! The refresh budget of a capability.
The counter is a column that several repositories write. Beside the table, a ledger keeps for each
group the attempts claimed so far and those claimed since its latest invalidation. -/
namespace GroupCapabilityBudget

open TransitionRuns GroupCapabilityStatements GroupCapabilityRevision

/-- A claimed refresh: the revision it was claimed at and its lease token. -/
structure Attempt where
  revision : ℕ
  token : ℕ
  deriving DecidableEq, Repr

structure Ledger where
  granted : List Attempt
  sinceInvalidation : List Attempt
  refused : Bool
  deriving DecidableEq, Repr

def Ledger.empty : Ledger := ⟨[], [], false⟩

/-- What an event does to one group, as far as its budget goes. -/
inductive Mark where
  | invalidated
  | claimed (attempt : Attempt)
  | refused (attempt : Attempt)
  | other
  deriving DecidableEq, Repr

def Ledger.record (ledger : Ledger) : Mark → Ledger
  | .invalidated => { ledger with sinceInvalidation := [], refused := false }
  | .claimed attempt =>
    { ledger with
      granted := attempt :: ledger.granted
      sinceInvalidation := attempt :: ledger.sinceInvalidation }
  | .refused attempt =>
    { ledger with
      refused := ledger.refused || decide (attempt ∈ ledger.sinceInvalidation) }
  | .other => ledger

/-- Three attempts were claimed since the latest invalidation, or one of them was refused. -/
def Ledger.Spent (ledger : Ledger) : Prop :=
  refreshMaxAttempts ≤ ledger.sinceInvalidation.length ∨ ledger.refused = true

instance (ledger : Ledger) : Decidable ledger.Spent := inferInstanceAs (Decidable (_ ∨ _))

structure State where
  groups : Groups
  ledger : GroupKey → Ledger
  /-- Every lease token drawn so far. -/
  tokens : List ℕ

/-- The group has a row on which the UPDATE finds something to write. -/
def Writes (f : GroupRow → Option GroupRow) (row : Option GroupRow) : Prop :=
  (row.bind f).isSome = true

instance (f : GroupRow → Option GroupRow) (row : Option GroupRow) : Decidable (Writes f row) :=
  inferInstanceAs (Decidable (_ = true))

def mark (groups : Groups) (key : GroupKey) : GroupEvent → Mark
  | .invalidate target now reason =>
    if key = target ∧ Writes (invalidate now reason) (groups key) then .invalidated else .other
  | .invalidateByEvent target now =>
    if key = target ∧ Writes (invalidateByEvent now) (groups key) then .invalidated else .other
  | .claim target now token expectedRevision discovering =>
    if key = target ∧ Writes (claimRefresh now token expectedRevision discovering) (groups key) then
      .claimed ⟨expectedRevision, token⟩
    else .other
  | .failAttempt target now expectedRevision token error retryable =>
    if key = target ∧ retryable = false ∧
        Writes (failRefreshAttempt now expectedRevision token error retryable) (groups key) then
      .refused ⟨expectedRevision, token⟩
    else .other
  | .recoverExpired _ => .other
  | .replaceSummaries sessionId _ listed =>
    if key.1 = sessionId ∧ (listed key.2).isSome ∧ (groups key).any (!·.isActive) then .invalidated
    else .other
  | .upsertGroupDetails _ _ _ _ _ => .other

/-- The reasons of the callers of `invalidateGroupCapability`: a manual refresh, and the two
rejections of a send. -/
def invalidateReasons : List GroupSendCapabilityReason :=
  [.manualRefresh, .gatewayPermissionDenied, .groupChanged]

/-- A worker fails the attempt it has claimed, with the revision it claimed it at; lease tokens
are fresh. -/
def Enabled (s : State) : GroupEvent → Prop
  | .invalidate _ _ reason => reason ∈ invalidateReasons
  | .claim _ _ token _ _ => token ∉ s.tokens
  | .failAttempt key _ expectedRevision token _ _ =>
    ⟨expectedRevision, token⟩ ∈ (s.ledger key).granted
  | _ => True

instance (s : State) : (e : GroupEvent) → Decidable (Enabled s e)
  | .invalidate _ _ reason => inferInstanceAs (Decidable (reason ∈ invalidateReasons))
  | .claim _ _ token _ _ => inferInstanceAs (Decidable (token ∉ s.tokens))
  | .failAttempt key _ expectedRevision token _ _ =>
    inferInstanceAs (Decidable (⟨expectedRevision, token⟩ ∈ (s.ledger key).granted))
  | .invalidateByEvent _ _ => isTrue trivial
  | .recoverExpired _ => isTrue trivial
  | .replaceSummaries _ _ _ => isTrue trivial
  | .upsertGroupDetails _ _ _ _ _ => isTrue trivial

def drawToken (tokens : List ℕ) : GroupEvent → List ℕ
  | .claim _ _ token _ _ => token :: tokens
  | _ => tokens

/-- The migrations leave counters at zero, and reasons that the metadata give. -/
structure Start (s : State) : Prop where
  groups : Initial s.groups
  counters : ∀ key row, s.groups key = some row →
    row.capabilityRefreshAttemptCount = 0 ∧ row.sendCapabilityReason ≠ .refreshFailed
  ledger : ∀ key, s.ledger key = Ledger.empty

def system : System State GroupEvent where
  initial := Start
  enabled := Enabled
  next s e :=
    { groups := GroupCapabilityRevision.next s.groups e
      ledger := fun key => (s.ledger key).record (mark s.groups key e)
      tokens := drawToken s.tokens e }

instance (s : State) (e : GroupEvent) : Decidable (system.enabled s e) :=
  inferInstanceAs (Decidable (Enabled s e))

/-- The counter charges no attempt from before the latest invalidation, a group fails on a spent
budget, and a lease taken at the present revision was taken since. -/
structure Budgeted (row : GroupRow) (ledger : Ledger) : Prop where
  charged : row.capabilityRefreshAttemptCount ≤ ledger.sinceInvalidation.length
  failed : row.sendCapabilityReason = .refreshFailed → ledger.Spent
  leased : ∀ token, row.capabilityRefreshLeaseToken = some token → ∃ revision,
    ⟨revision, token⟩ ∈ ledger.granted ∧ revision ≤ row.capabilityRevision ∧
      (revision = row.capabilityRevision → ⟨revision, token⟩ ∈ ledger.sinceInvalidation)

section Writers

variable {now token revision : ℕ} {row new : GroupRow} {ledger : Ledger}

theorem budgeted_fresh (hc : row.capabilityRefreshAttemptCount = 0)
    (hf : row.sendCapabilityReason ≠ .refreshFailed)
    (hl : row.capabilityRefreshLeaseToken = none) : Budgeted row ledger where
  charged := by omega
  failed h := absurd h hf
  leased token ht := by simp [hl] at ht

/-- An invalidation that resets the counter opens a new account. -/
theorem budgeted_invalidated (h : Budgeted row ledger)
    (hc : new.capabilityRefreshAttemptCount = 0)
    (hf : new.sendCapabilityReason ≠ .refreshFailed)
    (hr : row.capabilityRevision < new.capabilityRevision)
    (hl : new.capabilityRefreshLeaseToken = row.capabilityRefreshLeaseToken) :
    Budgeted new (ledger.record .invalidated) where
  charged := by omega
  failed h := absurd h hf
  leased token ht := by
    rw [hl] at ht
    obtain ⟨held, hmem, hle, _⟩ := h.leased token ht
    exact ⟨held, hmem, by omega, fun heq => by omega⟩

theorem invalidate_budgeted {reason : GroupSendCapabilityReason}
    (hreason : reason ∈ invalidateReasons) (h : invalidate now reason row = some new) :
    Budgeted new (ledger.record .invalidated) := by
  obtain ⟨_, heq⟩ := Option.ite_none_right_eq_some.mp h
  cases heq
  refine budgeted_fresh rfl ?_ rfl
  intro hfailed
  subst hfailed
  simp [invalidateReasons] at hreason

theorem invalidate_by_event_budgeted (hb : Budgeted row ledger)
    (hspared : row.capabilityRefreshAttemptCount = 0)
    (h : invalidateByEvent now row = some new) : Budgeted new (ledger.record .invalidated) := by
  obtain ⟨_, heq⟩ := Option.ite_none_right_eq_some.mp h
  cases heq
  exact budgeted_invalidated hb hspared (by simp) (by simp) rfl

theorem claim_budgeted {discovering : Bool} (hb : Budgeted row ledger)
    (h : claimRefresh now token revision discovering row = some new) :
    Budgeted new (ledger.record (.claimed ⟨revision, token⟩)) := by
  obtain ⟨⟨hrevision, _⟩, heq⟩ := Option.ite_none_right_eq_some.mp h
  cases heq
  have hcharged := hb.charged
  refine ⟨?_, fun hfailed => ?_, ?_⟩
  · simp only [Ledger.record, List.length_cons]
    omega
  · rcases hb.failed hfailed with hspent | hrefused
    · refine .inl ?_
      simp only [Ledger.record, List.length_cons]
      omega
    · exact .inr hrefused
  · intro token' ht
    cases ht
    refine ⟨revision, ?_, ?_, ?_⟩ <;> simp [Ledger.record, hrevision]

/-- Its token names the attempt, and the revision says that it was claimed since. -/
theorem fail_attempt_budgeted {error : String} {retryable : Bool} (hb : Budgeted row ledger)
    (hgranted : ⟨revision, token⟩ ∈ ledger.granted)
    (hunique : ∀ a ∈ ledger.granted, ∀ b ∈ ledger.granted, a.token = b.token → a = b)
    (h : failRefreshAttempt now revision token error retryable row = some new) :
    Budgeted new
      (ledger.record (if retryable = false then .refused ⟨revision, token⟩ else .other)) := by
  obtain ⟨⟨hrevision, htoken, _⟩, heq⟩ := Option.ite_none_right_eq_some.mp h
  obtain ⟨held, hheld, _, hsince⟩ := hb.leased token htoken
  have hsame : held = revision := congrArg Attempt.revision (hunique _ hheld _ hgranted rfl)
  subst hsame
  have hclaimed : ⟨held, token⟩ ∈ ledger.sinceInvalidation := hsince hrevision.symm
  have hcharged := hb.charged
  by_cases hretry : retryable = false
  · subst hretry
    simp only [true_or, if_true] at heq
    cases heq
    refine ⟨hcharged, fun _ => .inr ?_, fun _ ht => nomatch ht⟩
    simp [Ledger.record, hclaimed]
  · simp only [hretry] at heq ⊢
    by_cases hcount : refreshMaxAttempts ≤ row.capabilityRefreshAttemptCount
    · simp only [hcount] at heq
      cases heq
      exact ⟨hcharged, fun _ => .inl (hcount.trans hcharged), fun _ ht => nomatch ht⟩
    · simp only [hcount] at heq
      cases heq
      exact ⟨hcharged, hb.failed, fun _ ht => nomatch ht⟩

theorem recover_expired_budgeted (hb : Budgeted row ledger)
    (h : recoverExpiredRefresh now row = some new) : Budgeted new ledger := by
  obtain ⟨_, heq⟩ := Option.ite_none_right_eq_some.mp h
  have hcharged := hb.charged
  cases heq
  refine ⟨hcharged, fun hfailed => ?_, fun _ ht => nomatch ht⟩
  by_cases hcount : refreshMaxAttempts ≤ row.capabilityRefreshAttemptCount
  · exact .inl (hcount.trans hcharged)
  · simp only [hcount, if_false] at hfailed
    exact hb.failed hfailed

theorem deny_inactive_budgeted (now : ℕ) (hb : Budgeted row ledger) :
    Budgeted (updateGroup (denyInactive now) row) ledger := by
  unfold updateGroup denyInactive
  split
  · refine ⟨hb.charged, (fun hfailed => nomatch hfailed), fun token ht => ?_⟩
    obtain ⟨held, hmem, hle, _⟩ := hb.leased token ht
    refine ⟨held, hmem, hle.trans (Nat.le_succ _), fun heq => ?_⟩
    simp only [Option.getD_some] at heq
    omega
  · exact hb

theorem deactivate_budgeted (hb : Budgeted row ledger) : Budgeted (deactivate row) ledger :=
  ⟨hb.charged, hb.failed, hb.leased⟩

theorem upsert_summary_budgeted (now : ℕ) (summary : OpenWAGroupSummary) (hb : Budgeted row ledger)
    (hspared : row.isActive = false → row.capabilityRefreshAttemptCount = 0) :
    Budgeted (upsertSummary now summary (some row))
      (ledger.record (if row.isActive then .other else .invalidated)) := by
  by_cases ha : row.isActive = true
  · simp only [upsertSummary, ha, if_true]
    exact ⟨hb.charged, hb.failed, hb.leased⟩
  · have hcount := hspared (by simpa using ha)
    simp only [upsertSummary, ha]
    exact budgeted_invalidated hb hcount (by simp) (by simp) rfl

/-- The details of a group never say that its refresh has failed. -/
theorem evaluated_reason (input : GroupCapabilityInput) :
    (evaluateGroupCapability input).reason ≠ .refreshFailed := by
  unfold evaluateGroupCapability
  repeat' split
  all_goals simp

theorem upsert_details_budgeted {group : OpenWAGroup} {isAdmin : Option Bool}
    {seen existing : Option GroupRow} :
    Budgeted (upsertDetails now group isAdmin (detailsCapability group seen) existing) ledger := by
  have hreason : (detailsCapability group seen).reason ≠ .refreshFailed := evaluated_reason _
  cases existing with
  | none => exact budgeted_fresh rfl hreason rfl
  | some row => exact budgeted_fresh rfl hreason rfl

end Writers

section Runs

variable {s : State} {e : GroupEvent}

/-- A webhook event invalidates, and discovery reactivates, only groups whose counter is zero. -/
def Spares (s : State) : GroupEvent → Prop
  | .invalidateByEvent key _ => ∀ row, s.groups key = some row → row.isActive = true →
      row.capabilityRefreshAttemptCount = 0
  | .replaceSummaries sessionId _ listed => ∀ groupId row,
      s.groups (sessionId, groupId) = some row → (listed groupId).isSome → row.isActive = false →
        row.capabilityRefreshAttemptCount = 0
  | _ => True

/-- Lease tokens name attempts. -/
structure TokensUnique (s : State) : Prop where
  drawn : ∀ key, ∀ a ∈ (s.ledger key).granted, a.token ∈ s.tokens
  unique : ∀ key, ∀ a ∈ (s.ledger key).granted, ∀ b ∈ (s.ledger key).granted,
    a.token = b.token → a = b

theorem granted_origin {key : GroupKey} {a : Attempt}
    (h : a ∈ ((system.next s e).ledger key).granted) :
    a ∈ (s.ledger key).granted ∨ mark s.groups key e = .claimed a := by
  simp only [system] at h
  cases hm : mark s.groups key e with
  | claimed b =>
    rw [hm] at h
    rcases List.mem_cons.mp h with rfl | h
    · exact .inr rfl
    · exact .inl h
  | invalidated => rw [hm] at h; exact .inl h
  | refused b => rw [hm] at h; exact .inl h
  | other => rw [hm] at h; exact .inl h

theorem claimed_by_claim {groups : Groups} {key : GroupKey} {a : Attempt}
    (h : mark groups key e = .claimed a) :
    ∃ now discovering, e = .claim key now a.token a.revision discovering := by
  cases e with
  | claim target now token expectedRevision discovering =>
    simp only [mark] at h
    split at h
    · rename_i hclaim
      cases h
      exact ⟨now, discovering, by rw [hclaim.1]⟩
    · cases h
  | recoverExpired now => cases h
  | upsertGroupDetails target now options group found => cases h
  | _ =>
    simp only [mark] at h
    split at h <;> cases h

theorem drawn_kept {tokens : List ℕ} {token : ℕ} (h : token ∈ tokens) :
    token ∈ drawToken tokens e := by
  cases e with
  | claim target now drawn expectedRevision discovering => exact List.mem_cons_of_mem _ h
  | _ => exact h

theorem tokens_unique_step (h : TokensUnique s) (he : system.enabled s e) :
    TokensUnique (system.next s e) where
  drawn key a ha := by
    rcases granted_origin ha with ha | ha
    · exact drawn_kept (h.drawn key a ha)
    · obtain ⟨now, discovering, rfl⟩ := claimed_by_claim ha
      exact List.mem_cons_self
  unique key a ha b hb htoken := by
    -- A claim draws a token that no granted attempt has.
    have hfresh : ∀ x y, x ∈ (s.ledger key).granted → mark s.groups key e = .claimed y →
        x.token ≠ y.token := by
      intro x y hx hy heq
      obtain ⟨now, discovering, rfl⟩ := claimed_by_claim hy
      have hnew : y.token ∉ s.tokens := he
      exact hnew (heq ▸ h.drawn key x hx)
    rcases granted_origin ha with ha | ha
    · rcases granted_origin hb with hb | hb
      · exact h.unique key a ha b hb htoken
      · exact absurd htoken (hfresh a b ha hb)
    · rcases granted_origin hb with hb | hb
      · exact absurd htoken.symm (hfresh b a hb ha)
      · rw [ha] at hb
        exact Mark.claimed.inj hb

theorem tokens_unique (hr : Reachable system s) : TokensUnique s := by
  refine reachable_invariant (M := system) (I := TokensUnique) (fun start hs => ?_)
    (fun _ _ h he => tokens_unique_step h he) hr
  have hempty : ∀ key, (start.ledger key).granted = [] := fun key => by rw [hs.ledger key]; rfl
  constructor
  · intro key a ha
    simp [hempty] at ha
  · intro key a ha
    simp [hempty] at ha

/-- Every row within its budget. -/
def Inv (s : State) : Prop := ∀ key row, s.groups key = some row → Budgeted row (s.ledger key)

/-- An UPDATE keeps the budget of its row where it does so whenever it writes, and the budgets of
the other rows in any case. -/
theorem update_budgeted {f : GroupRow → Option GroupRow} {key target : GroupKey} {m : Mark}
    (h : Inv s)
    (hf : ∀ row new, s.groups target = some row → f row = some new → Budgeted row (s.ledger target) →
      Budgeted new ((s.ledger target).record m)) {new : GroupRow}
    (hnew : Function.update s.groups target ((s.groups target).map (updateGroup f)) key = some new) :
    Budgeted new ((s.ledger key).record
      (if key = target ∧ Writes f (s.groups key) then m else .other)) := by
  by_cases hk : key = target
  · subst hk
    rw [Function.update_self] at hnew
    obtain ⟨row, hrow, rfl⟩ := Option.map_eq_some_iff.mp hnew
    have hb := h key row hrow
    cases hw : f row with
    | none =>
      have hidle : ¬ Writes f (s.groups key) := by simp [Writes, hrow, hw]
      simpa [updateGroup, hw, hidle, Ledger.record] using hb
    | some written =>
      have hwrites : Writes f (s.groups key) := by simp [Writes, hrow, hw]
      simpa [updateGroup, hw, hwrites] using hf row written hrow hw hb
  · rw [Function.update_of_ne hk] at hnew
    simpa [hk, Ledger.record] using h key new hnew

theorem inv_step (hu : TokensUnique s) (h : Inv s) (he : system.enabled s e) (hok : Spares s e) :
    Inv (system.next s e) := by
  intro key new hnew
  cases e with
  | invalidate target now reason =>
    exact update_budgeted h (fun _ _ _ hw _ => invalidate_budgeted he hw) hnew
  | invalidateByEvent target now =>
    refine update_budgeted h (fun row new hrow hw hb => ?_) hnew
    obtain ⟨hactive, _⟩ := Option.ite_none_right_eq_some.mp hw
    exact invalidate_by_event_budgeted hb (hok row hrow hactive) hw
  | claim target now token expectedRevision discovering =>
    exact update_budgeted h (fun _ _ _ hw hb => claim_budgeted hb hw) hnew
  | failAttempt target now expectedRevision token error retryable =>
    have hkept := update_budgeted h
      (fun _ _ _ hw hb => fail_attempt_budgeted hb he (hu.unique target) hw) hnew
    by_cases hretry : retryable = false
    · simpa [system, mark, hretry] using hkept
    · simpa [system, mark, hretry] using hkept
  | recoverExpired now =>
    obtain ⟨row, hrow, rfl⟩ := Option.map_eq_some_iff.mp hnew
    have hb := h key row hrow
    unfold updateGroup
    cases hw : recoverExpiredRefresh now row with
    | none => exact hb
    | some written => exact recover_expired_budgeted hb hw
  | replaceSummaries sessionId now listed =>
    by_cases hs : key.1 = sessionId
    · obtain ⟨_, groupId⟩ := key
      subst hs
      simp only [system, GroupCapabilityRevision.next, mark, true_and, if_true] at hnew ⊢
      cases hl : listed groupId with
      | none =>
        simp only [hl, replaceSummary] at hnew
        obtain ⟨row, hrow, rfl⟩ := Option.map_eq_some_iff.mp hnew
        have hb := deny_inactive_budgeted now (deactivate_budgeted (h _ row hrow))
        simpa [Ledger.record] using hb
      | some summary =>
        simp only [hl, replaceSummary, Option.some.injEq] at hnew
        subst hnew
        refine deny_inactive_budgeted now ?_
        cases hrow : s.groups (_, groupId) with
        | none => exact budgeted_fresh rfl (by simp [upsertSummary, GroupRow.inserted]) rfl
        | some row =>
          have hb := upsert_summary_budgeted now summary (h _ row hrow)
            (hok groupId row hrow (by simp [hl]))
          by_cases ha : row.isActive = true
          · simpa [ha] using hb
          · simpa [ha] using hb
    · simp only [system, GroupCapabilityRevision.next, hs, if_false] at hnew
      simpa [system, mark, hs, Ledger.record] using h key new hnew
  | upsertGroupDetails target now options group found =>
    simp only [system, GroupCapabilityRevision.next] at hnew
    by_cases hk : key = target
    · subst hk
      rw [Function.update_self, upsertGroupDetails] at hnew
      generalize (if found then s.groups key else none) = seen at hnew
      by_cases hmet : options.Met now seen
      · rw [if_pos hmet] at hnew
        cases hnew
        exact upsert_details_budgeted
      · rw [if_neg hmet] at hnew
        exact h key new hnew
    · rw [Function.update_of_ne hk] at hnew
      exact h key new hnew

theorem inv_of_reachable (hr : Reachable (restrict system Spares) s) : Inv s := by
  refine reachable_invariant_with (M := restrict system Spares) (J := TokensUnique)
    (fun _ h => tokens_unique h.unrestrict) (fun start hs key row hrow => ?_)
    (fun _ _ hu h he => inv_step hu h he.1 he.2) hr
  obtain ⟨hcount, hreason⟩ := hs.counters key row hrow
  exact budgeted_fresh hcount hreason (hs.groups key row hrow).2

/-- `UNKNOWN` because the refresh failed. -/
def RefreshFailed (row : GroupRow) : Prop :=
  row.sendCapability = .unknown ∧ row.sendCapabilityReason = .refreshFailed

instance (row : GroupRow) : Decidable (RefreshFailed row) := inferInstanceAs (Decidable (_ ∧ _))

/-- No attempt from before the latest invalidation is charged, and a group whose refresh failed
has spent the budget it got by that invalidation. -/
def FullBudget (s : State) : Prop := ∀ key row, s.groups key = some row →
  row.capabilityRefreshAttemptCount ≤ (s.ledger key).sinceInvalidation.length ∧
    (RefreshFailed row → (s.ledger key).Spent)

theorem full_budget (h : Inv s) : FullBudget s := by
  intro key row hrow
  have hb := h key row hrow
  exact ⟨hb.charged, fun hfailed => hb.failed hfailed.2⟩

theorem uncharged {key : GroupKey} {row : GroupRow} (h : FullBudget s)
    (hrow : s.groups key = some row) (hl : (s.ledger key).sinceInvalidation = []) :
    row.capabilityRefreshAttemptCount = 0 := by
  have hcharged := (h key row hrow).1
  rw [hl] at hcharged
  exact Nat.le_zero.mp hcharged

/-- An event or a reactivation that finds a counter leaves it charged to its own invalidation. -/
theorem spares_of_full_budget (h : FullBudget (system.next s e)) : Spares s e := by
  cases e with
  | invalidateByEvent key now =>
    intro row hrow hactive
    have hw : updateGroup (invalidateByEvent now) row =
        { row with
          sendCapability := .unknown
          sendCapabilityReason := .groupChanged
          capabilityInvalidatedAt := some now
          capabilityRevision := row.capabilityRevision + 1 } := by
      simp [updateGroup, invalidateByEvent, hactive]
    have hnext : (system.next s (.invalidateByEvent key now)).groups key =
        some (updateGroup (invalidateByEvent now) row) := by
      simp [system, GroupCapabilityRevision.next, hrow]
    have hzero := uncharged h hnext (by
      simp [system, mark, Writes, hrow, invalidateByEvent, hactive, Ledger.record])
    rw [hw] at hzero
    exact hzero
  | replaceSummaries sessionId now listed =>
    intro groupId row hrow hlisted hactive
    obtain ⟨summary, hsummary⟩ := Option.isSome_iff_exists.mp hlisted
    have hnext : (system.next s (.replaceSummaries sessionId now listed)).groups
        (sessionId, groupId) =
          some (updateGroup (denyInactive now) (upsertSummary now summary (some row))) := by
      simp [system, GroupCapabilityRevision.next, replaceSummary, hrow, hsummary]
    have hzero := uncharged h hnext (by
      simp [system, mark, hrow, hsummary, hactive, Ledger.record])
    simpa [upsertSummary, hactive, updateGroup, denyInactive] using hzero
  | _ => trivial

/-- As long as webhook events and discovery invalidate only groups without counted attempts, each
invalidation has its three attempts; the first one that finds a counter takes them from it. -/
theorem refresh_budget_full (hr : Reachable (restrict system Spares) s) :
    FullBudget s ∧ ∀ e, system.enabled s e → (FullBudget (system.next s e) ↔ Spares s e) := by
  have hinv := inv_of_reachable hr
  refine ⟨full_budget hinv, fun e he => ?_⟩
  constructor
  · exact spares_of_full_budget
  · intro hok
    exact full_budget (inv_step (tokens_unique hr.unrestrict) hinv he hok)

def emptyTable : State := ⟨fun _ => none, fun _ => Ledger.empty, []⟩

theorem empty_table_start : Start emptyTable where
  groups _ _ h := nomatch h
  counters _ _ h := nomatch h
  ledger _ := rfl

/-- A group whose refresh fails three times after a manual invalidation. -/
def threeFailures : List GroupEvent :=
  let group : GroupKey := ("session-1", "group-1")
  [.upsertGroupDetails group 0 ⟨none, none⟩ ⟨some false, some false, some false, none⟩ true,
    .invalidate group 1 .manualRefresh,
    .claim group 2 1 2 false, .failAttempt group 3 2 1 "UPSTREAM_NETWORK_ERROR" true,
    .claim group 6000 2 2 false, .failAttempt group 6001 2 2 "UPSTREAM_NETWORK_ERROR" true,
    .claim group 20000 3 2 false, .failAttempt group 20001 2 3 "UPSTREAM_NETWORK_ERROR" true]

theorem three_failures_spend_the_budget :
    FullBudget (runTrace system emptyTable threeFailures) := by
  have hinit : Reachable (restrict system Spares) emptyTable :=
    reachable_of_initial empty_table_start
  have hspares : ∀ e ∈ threeFailures, ∀ s, Spares s e := by
    simp [threeFailures, Spares]
  have hvalid : ValidTrace system emptyTable threeFailures := by decide +kernel
  have hrun := valid_trace_restricted_execution hspares hvalid
  exact (refresh_budget_full (hinit.extend hrun)).1

/-- A webhook then invalidates the group, which fails again without a single attempt. -/
theorem event_after_failures_gets_no_attempt :
    ∃ s row, Reachable system s ∧ s.groups ("session-1", "group-1") = some row ∧
      RefreshFailed row ∧ (s.ledger ("session-1", "group-1")).sinceInvalidation = [] ∧
      ¬ (s.ledger ("session-1", "group-1")).Spent := by
  have hvalid : ValidTrace system emptyTable (threeFailures ++
      [.invalidateByEvent ("session-1", "group-1") 30000, .recoverExpired 30001]) := by
    decide +kernel
  refine ⟨_, _, ⟨_, valid_trace_run empty_table_start hvalid⟩, rfl, ?_⟩
  decide +kernel

end Runs

end GroupCapabilityBudget
