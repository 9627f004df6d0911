import WaRuntime.GatewayReadLeases

/-! What a 429 does to the limiter of its session.
The refresh of a capability hands its outcome on without the Retry-After that the two other readers
pass, so the limiter falls back to its own pause there. -/
namespace RateLimitAnswers

open TransitionRuns GroupCapabilityStatements GatewayRateLimitStatements SharedLeases
open GatewayGroupReads GatewayReadLeases
open GatewaySyncItemStatements (SyncItemRow)
open GroupIntentStatements (IntentRow)

/-- How a 429 is classified. -/
def rateLimited (retryAfterMs : Option ℕ) : GatewaySyncFailurePolicy :=
  classifyGroupReadFailure (.http 429 retryAfterMs)

/-- The columns that a 429 is to set. -/
structure Throttle where
  cooldownUntil : Option ℕ
  effectiveRequestsPerMinute : Option ℕ
  consecutiveFailures : ℕ
  deriving DecidableEq, Repr

def throttle (row : RateLimitRow) : Throttle :=
  ⟨row.cooldownUntil, row.effectiveRequestsPerMinute, row.consecutiveFailures⟩

section Answers

variable (config : Config) (now token claimedRevision random : ℕ) (retryAfterMs : Option ℕ)
  (item : SyncItemRow) (intent : IntentRow) (row : RateLimitRow)

/-- The limiter once the item, the intent and the refresh that were answered have failed. -/
def afterItem : RateLimitRow :=
  ((failItem config now token random (rateLimited retryAfterMs) item (some row)).bind
    Prod.snd).getD row

def afterIntent : RateLimitRow :=
  ((failIntent config now token claimedRevision random (rateLimited retryAfterMs) intent
    (some row)).bind Prod.snd).getD row

def afterRefresh : RateLimitRow :=
  (recordSessionRequestFailure config now token random (rateLimited retryAfterMs).ratePressure
    (rateLimited retryAfterMs).reduceRate (some row)).getD row

/-- Whatever the jitter, the three readers leave the same limiter. -/
def AnsweredAlike : Prop :=
  ∀ random,
    throttle (afterItem config now token random retryAfterMs item row) =
        throttle (afterRefresh config now token random retryAfterMs row) ∧
      throttle (afterIntent config now token claimedRevision random retryAfterMs intent row) =
        throttle (afterRefresh config now token random retryAfterMs row)

/-- The reader of the item and that of the intent still own their rows. -/
def RowsOwned : Prop :=
  GatewaySyncItemStatements.Owned now token item ∧
    GroupIntentStatements.Owned now token intent ∧ intent.claimedRevision = some claimedRevision

variable {config now token claimedRevision random retryAfterMs item intent row}

theorem afterRefresh_eq : afterRefresh config now token random retryAfterMs row =
    failure config.rate now token random (rateLimited none) row := rfl

theorem afterItem_owned (h : GatewaySyncItemStatements.Owned now token item) :
    afterItem config now token random retryAfterMs item row =
      failure config.rate now token random (rateLimited retryAfterMs) row := by
  simp [afterItem, failItem, GatewaySyncItemStatements.fail, h]

theorem afterItem_lost (h : ¬ GatewaySyncItemStatements.Owned now token item) :
    afterItem config now token random retryAfterMs item row = row := by
  simp [afterItem, failItem, GatewaySyncItemStatements.fail, h]

theorem afterIntent_owned (h : GroupIntentStatements.Owned now token intent)
    (hr : intent.claimedRevision = some claimedRevision) :
    afterIntent config now token claimedRevision random retryAfterMs intent row =
      failure config.rate now token random (rateLimited retryAfterMs) row := by
  simp [afterIntent, failIntent, GroupIntentStatements.fail, h, hr]

theorem afterIntent_lost (h : ¬ (GroupIntentStatements.Owned now token intent ∧
    intent.claimedRevision = some claimedRevision)) :
    afterIntent config now token claimedRevision random retryAfterMs intent row = row := by
  simp [afterIntent, failIntent, GroupIntentStatements.fail, h]

theorem failure_idle (h : row.activeLeaseToken ≠ some token) (policy : GatewaySyncFailurePolicy) :
    failure config.rate now token random policy row = row := by
  simp [GatewayRateLimitStatements.failure, h]

/-- A recorded 429 counts. -/
theorem failure_counts (h : row.activeLeaseToken = some token) :
    (throttle (failure config.rate now token random (rateLimited retryAfterMs) row)).consecutiveFailures
      = row.consecutiveFailures + 1 := by
  simp [throttle, GatewayRateLimitStatements.failure, h, rateLimited, classifyGroupReadFailure]

theorem failure_cooldown (h : row.activeLeaseToken = some token) :
    (failure config.rate now token random (rateLimited retryAfterMs) row).cooldownUntil =
      some (now + retryAfterMs.getD (backoffMs (row.consecutiveFailures + 1) random)) := by
  simp [GatewayRateLimitStatements.failure, h, rateLimited, classifyGroupReadFailure]

/-- The limiter's own pause depends on the jitter, so it is no given delay. -/
theorem backoffMs_varies (failures : ℕ) : backoffMs failures 0 < backoffMs failures 1 := by
  unfold backoffMs
  split <;> omega

/-- The readers leave one limiter where none of them may write it, or where all may and the answer
names no delay. -/
theorem answered_alike_iff :
    AnsweredAlike config now token claimedRevision retryAfterMs item intent row ↔
      (row.activeLeaseToken = some token →
        retryAfterMs = none ∧ RowsOwned now token claimedRevision item intent) := by
  constructor
  · intro h hactive
    have hitem : GatewaySyncItemStatements.Owned now token item := by
      by_contra hlost
      have heq := congrArg Throttle.consecutiveFailures (h 0).1
      rw [afterItem_lost hlost, afterRefresh_eq, failure_counts hactive] at heq
      simp only [throttle] at heq
      omega
    have hintent : GroupIntentStatements.Owned now token intent ∧
        intent.claimedRevision = some claimedRevision := by
      by_contra hlost
      have heq := congrArg Throttle.consecutiveFailures (h 0).2
      rw [afterIntent_lost hlost, afterRefresh_eq, failure_counts hactive] at heq
      simp only [throttle] at heq
      omega
    refine ⟨?_, hitem, hintent⟩
    cases retryAfterMs with
    | none => rfl
    | some delay =>
      -- Two draws of the jitter give two pauses, and the delay is one instant.
      have hpause : ∀ random, delay = backoffMs (row.consecutiveFailures + 1) random := by
        intro random
        have heq := congrArg Throttle.cooldownUntil (h random).1
        rw [afterItem_owned hitem, afterRefresh_eq] at heq
        simp only [throttle, failure_cooldown hactive, Option.getD_some, Option.getD_none,
          Option.some.injEq] at heq
        omega
      have hlt := backoffMs_varies (row.consecutiveFailures + 1)
      have h0 := hpause 0
      have h1 := hpause 1
      omega
  · intro h random
    by_cases hactive : row.activeLeaseToken = some token
    · obtain ⟨rfl, hitem, hintent, hrevision⟩ := h hactive
      rw [afterItem_owned hitem, afterIntent_owned hintent hrevision, afterRefresh_eq]
      exact ⟨rfl, rfl⟩
    · have hidle : afterItem config now token random retryAfterMs item row = row := by
        by_cases hitem : GatewaySyncItemStatements.Owned now token item
        · rw [afterItem_owned hitem, failure_idle hactive]
        · exact afterItem_lost hitem
      have hidle' : afterIntent config now token claimedRevision random retryAfterMs intent row =
          row := by
        by_cases hintent : GroupIntentStatements.Owned now token intent ∧
            intent.claimedRevision = some claimedRevision
        · rw [afterIntent_owned hintent.1 hintent.2, failure_idle hactive]
        · exact afterIntent_lost hintent
      rw [hidle, hidle', afterRefresh_eq, failure_idle hactive]
      exact ⟨rfl, rfl⟩

end Answers

section Runs

variable {config : Config} {s u : State} {e : Event} {now token random : ℕ} {reader : Reader}

/-- The delay of the 429 that a call has been answered with. -/
def Stage.limited : Stage → Option (Option ℕ)
  | .failed (.http 429 retryAfterMs) => some retryAfterMs
  | _ => none

/-- The call still owns its own row, and the limiter bears its token. -/
def OwnsLease (s : State) (token now : ℕ) (reader : Reader) : Prop :=
  (∃ row ∈ s.limits, row.activeLeaseToken = some token) ∧
    match reader.path with
    | .item id => ∃ item ∈ s.items id, GatewaySyncItemStatements.Owned now token item
    | .intent claimedRevision => ∃ intent ∈ s.intents reader.group,
        GroupIntentStatements.Owned now token intent ∧
          intent.claimedRevision = some claimedRevision
    | .refresh _ => True

instance (s : State) (token now : ℕ) : (reader : Reader) → Decidable (OwnsLease s token now reader)
  | ⟨.item _, _, _, _, _⟩ => inferInstanceAs (Decidable (_ ∧ ∃ item ∈ _, _))
  | ⟨.intent _, _, _, _, _⟩ => inferInstanceAs (Decidable (_ ∧ ∃ intent ∈ _, _))
  | ⟨.refresh _, _, _, _, _⟩ => inferInstanceAs (Decidable (_ ∧ True))

def holderOf (token : ℕ) (reader : Reader) : Holder :=
  match reader.path with
  | .item id => .item id
  | .intent _ => .intent reader.group
  | .refresh _ => .reservation token

def Reader.Refreshes (reader : Reader) : Bool :=
  match reader.path with
  | .refresh _ => true
  | _ => false

/-- A 429 is recorded by a call that owns its lease, without a delay where the call is a refresh;
and a read starts under a lease that has not expired. -/
def Heeds (s : State) : Event → Prop
  | .fail token now _ => ∀ reader ∈ s.readers token, ∀ retryAfterMs ∈ Stage.limited reader.stage,
      OwnsLease s token now reader ∧ (Reader.Refreshes reader = true → retryAfterMs = none)
  | .readGroup token => ∀ reader ∈ s.readers token, reader.stage = .claimed →
      ∃ lease ∈ copyOf s (holderOf token reader), s.clock ≤ lease.expiresAt
  | _ => True

instance (s : State) : (e : Event) → Decidable (Heeds s e)
  | .fail _ _ _ => inferInstanceAs (Decidable (∀ reader ∈ _, _))
  | .readGroup _ => inferInstanceAs (Decidable (∀ reader ∈ _, _))
  | .tick .. | .publishItem .. | .groupChanged .. | .invalidate .. | .replaceSummary ..
  | .claimItem .. | .claimIntent .. | .reserve .. | .claimRefresh .. | .releaseReservation ..
  | .renew .. | .answer .. | .confirm .. | .upsertGroupDetails .. | .complete ..
  | .skipMissing .. | .failRefreshAttempt .. | .recoverExpiredItem .. | .recoverExpiredIntent ..
  | .recoverExpiredRefresh .. | .releaseExpiredLimits .. => isTrue trivial

theorem limited_policy {retryAfterMs : Option ℕ}
    (h : reader.stage = .failed (.http 429 retryAfterMs)) :
    failurePolicy reader = some (rateLimited retryAfterMs) := by
  unfold failurePolicy
  rw [h]
  cases reader.path <;> rfl

/-- A call that heeds the condition records its 429 in one way, whatever it reads for. -/
theorem fail_limits {retryAfterMs : Option ℕ} (hreader : s.readers token = some reader)
    (hstage : reader.stage = .failed (.http 429 retryAfterMs))
    (hown : OwnsLease s token now reader)
    (hdelay : Reader.Refreshes reader = true → retryAfterMs = none) :
    (next config s (.fail token now random)).limits =
      s.limits.map (failure config.rate now token random (rateLimited retryAfterMs)) := by
  have hpolicy := limited_policy hstage
  obtain ⟨_, hrow⟩ := hown
  simp only [next, fail, onReader, hreader]
  cases hpath : reader.path with
  | item id =>
    simp only [hpath] at hrow
    obtain ⟨item, hitem, howned⟩ := hrow
    have hitem' : s.items id = some item := hitem
    simp [hpolicy, hitem', failItem, GatewaySyncItemStatements.fail, howned]
  | intent claimedRevision =>
    simp only [hpath] at hrow
    obtain ⟨intent, hintent, howned, hrevision⟩ := hrow
    have hintent' : s.intents reader.group = some intent := hintent
    simp [hpolicy, hintent', failIntent, GroupIntentStatements.fail, howned, hrevision]
  | refresh expectedRevision =>
    have hnone := hdelay (by simp [Reader.Refreshes, hpath])
    subst hnone
    simp only [hpolicy]
    rfl

/-- Until then, the limiter is free and cools down. -/
def Cooling (time : ℕ) (s : State) : Prop :=
  (∃ row cooldown, s.limits = some row ∧ row.activeLeaseToken = none ∧
    row.cooldownUntil = some cooldown ∧ time ≤ cooldown) ∨ time ≤ s.clock

/-- A free limiter is not freed again, and its cooldown is not touched. -/
structure Untouched (row new : RateLimitRow) : Prop where
  token : row.activeLeaseToken = none → new.activeLeaseToken = none
  cooldown : row.activeLeaseToken = none → new.cooldownUntil = row.cooldownUntil

theorem cooling_of_untouched {time : ℕ} (hclock : s.clock ≤ u.clock)
    (h : ∀ row, s.limits = some row → ∃ new, u.limits = some new ∧ Untouched row new)
    (hc : Cooling time s) : Cooling time u := by
  rcases hc with ⟨row, cooldown, hrow, htoken, hcooldown, hle⟩ | hle
  · obtain ⟨new, hnew, huntouched⟩ := h row hrow
    exact .inl ⟨new, cooldown, hnew, huntouched.token htoken,
      (huntouched.cooldown htoken).trans hcooldown, hle⟩
  · exact .inr (hle.trans hclock)

/-- Nothing is owed where the limiter is taken. -/
theorem untouched_of_taken {row new : RateLimitRow} (h : row.activeLeaseToken = some token) :
    Untouched row new := by
  constructor
  · intro hfree
    rw [h] at hfree
    cases hfree
  · intro hfree
    rw [h] at hfree
    cases hfree

theorem success_untouched (row : RateLimitRow) :
    Untouched row (success config.rate token row) := by
  by_cases htoken : row.activeLeaseToken = some token
  · exact untouched_of_taken htoken
  · obtain ⟨streak, heq⟩ := success_eq config.rate token row
    rw [heq, recordSuccess, if_neg htoken]
    exact ⟨fun hfree => hfree, fun _ => rfl⟩

theorem failure_untouched (policy : GatewaySyncFailurePolicy) (row : RateLimitRow) :
    Untouched row (failure config.rate now token random policy row) := by
  by_cases htoken : row.activeLeaseToken = some token
  · exact untouched_of_taken htoken
  · rw [failure_idle htoken]
    exact ⟨fun hfree => hfree, fun _ => rfl⟩

theorem release_untouched (row : RateLimitRow) : Untouched row (release token row) := by
  by_cases htoken : row.activeLeaseToken = some token
  · exact untouched_of_taken htoken
  · rw [release, if_neg htoken]
    exact ⟨fun hfree => hfree, fun _ => rfl⟩

theorem releaseExpired_untouched (row : RateLimitRow) : Untouched row (releaseExpired now row) := by
  unfold releaseExpired
  split
  · exact ⟨fun _ => rfl, fun _ => rfl⟩
  · exact ⟨fun hfree => hfree, fun _ => rfl⟩

theorem renew_untouched {row new : RateLimitRow} (h : renew now token row = some new) :
    Untouched row new := by
  obtain ⟨lease, hlease, _, _⟩ := renew_some h
  exact untouched_of_taken (leaseOf_eq_some.mp hlease).1

theorem untouched_map {f : RateLimitRow → RateLimitRow} (hf : ∀ row, Untouched row (f row))
    (hu : u.limits = s.limits.map f) {row : RateLimitRow} (hrow : s.limits = some row) :
    ∃ new, u.limits = some new ∧ Untouched row new :=
  ⟨f row, by rw [hu, hrow]; rfl, hf row⟩

/-- Only an acquisition ends the cooling, and it finds the time past. -/
theorem cooling_step {time : ℕ} (he : Enabled s e) (hc : Cooling time s) :
    Cooling time (next config s e) := by
  have hout := next_outcome config s e
  have hclock := (outcome_tokens hout).1
  have hmove := limit_move hout
  generalize next config s e = u at hclock hmove ⊢
  generalize hlimits : u.limits = limits at hmove
  cases hmove with
  | acquired hclaims hrate =>
    rename_i now rate
    right
    rcases hc with ⟨row, cooldown, hrow, _, hcooldown, hle⟩ | hle
    · have hready := (readyAndRate_some hrate).1.2.1
      rw [hrow] at hready
      have hpast : cooldown ≤ now := hready cooldown hcooldown
      have hstart : now ≤ s.clock := by
        have hnow := he.1
        cases e <;> simp only [Event.claimsAt, reduceCtorEq, Option.some.injEq] at hclaims
        all_goals
          subst hclaims
          exact hnow
      omega
    · omega
  | same =>
    refine cooling_of_untouched hclock (fun row hrow => ⟨row, ?_, fun h => h, fun _ => rfl⟩) hc
    rw [hlimits, hrow]
  | ensured =>
    refine cooling_of_untouched hclock (fun row hrow => ⟨_, hlimits, ?_⟩) hc
    rw [hrow]
    exact ⟨fun h => h, fun _ => rfl⟩
  | renewed hlimit hrow =>
    refine cooling_of_untouched hclock (fun row hold => ⟨_, hlimits, ?_⟩) hc
    rw [hlimit] at hold
    cases hold
    exact renew_untouched hrow
  | written hlimit hrow =>
    refine cooling_of_untouched hclock (fun row hold => ⟨_, hlimits, ?_⟩) hc
    rw [hlimit] at hold
    cases hold
    exact untouched_of_taken (renewGroupReadPacingLease_some hrow).1
  | succeeded =>
    exact cooling_of_untouched hclock (fun _ => untouched_map success_untouched hlimits) hc
  | failed =>
    exact cooling_of_untouched hclock (fun _ => untouched_map (failure_untouched _) hlimits) hc
  | released =>
    exact cooling_of_untouched hclock (fun _ => untouched_map release_untouched hlimits) hc
  | lapsed =>
    exact cooling_of_untouched hclock (fun _ => untouched_map releaseExpired_untouched hlimits) hc

/-- The runs whose 429s and reads heed the condition. -/
def heedful (config : Config) : System State Event := restrict (system config) Heeds

instance (config : Config) (s : State) (e : Event) : Decidable ((heedful config).enabled s e) :=
  inferInstanceAs (Decidable (Enabled s e ∧ Heeds s e))

theorem cooling_along {time : ℕ} {es : List Event} (hr : Reachable (heedful config) s)
    (h : Execution (heedful config) s es u) (hc : Cooling time s) : Cooling time u :=
  stable_along (M := heedful config) (P := Cooling time)
    (fun _ _ _ hc he => cooling_step he.1 hc) hr h hc

/-- An unexpired lease is the limiter's, so nobody holds one while the limiter is free. -/
theorem lease_taken (hr : Reachable (heedful config) s) {holder : Holder} {lease : Lease}
    (hl : copyOf s holder = some lease) (hle : s.clock ≤ lease.expiresAt) :
    ∃ row, s.limits = some row ∧ row.activeLeaseToken ≠ none := by
  have hinv := reachable_leases hr.unrestrict
  obtain ⟨_, whole, hwhole, _, _⟩ := hinv.exclusive.unique hl hl hle hle
  obtain ⟨row, hrow, hlease⟩ := Option.bind_eq_some_iff.mp hwhole
  refine ⟨row, hrow, ?_⟩
  rw [(leaseOf_eq_some.mp hlease).1]
  simp

/-- The limiter of a 429 is one function of what it was and of the delay, for all three readers,
exactly where the answer names no delay and the readers own their rows, or where the token is not
the limiter's. And in runs that heed the condition no read of the session starts before the delay
of a recorded 429 is over. -/
theorem rate_limit_answered_alike (config : Config) :
    (∀ now token claimedRevision retryAfterMs item intent row,
      AnsweredAlike config now token claimedRevision retryAfterMs item intent row ↔
        (row.activeLeaseToken = some token →
          retryAfterMs = none ∧ RowsOwned now token claimedRevision item intent)) ∧
    ∀ s token now random reader retryAfterMs, Reachable (heedful config) s →
      (heedful config).enabled s (.fail token now random) → s.readers token = some reader →
      reader.stage = .failed (.http 429 retryAfterMs) →
      (next config s (.fail token now random)).limits =
          s.limits.map (failure config.rate now token random (rateLimited retryAfterMs)) ∧
        ∀ delay es u other waiting, retryAfterMs = some delay →
          Execution (heedful config) (next config s (.fail token now random)) es u →
          (heedful config).enabled u (.readGroup other) → u.readers other = some waiting →
          waiting.stage = .claimed → reader.since + delay ≤ u.clock := by
  refine ⟨fun now token claimedRevision retryAfterMs item intent row => answered_alike_iff, ?_⟩
  intro s token now random reader retryAfterMs hr he hreader hstage
  have hlimited : Stage.limited reader.stage = some retryAfterMs := by
    rw [hstage]
    rfl
  obtain ⟨hown, hdelay⟩ := he.2 reader hreader retryAfterMs hlimited
  have hlimits : (next config s (.fail token now random)).limits =
      s.limits.map (failure config.rate now token random (rateLimited retryAfterMs)) :=
    fail_limits hreader hstage hown hdelay
  refine ⟨hlimits, ?_⟩
  rintro delay es u other waiting rfl hx hread hwaiting hclaimed
  have hnext : Reachable (heedful config) (next config s (.fail token now random)) :=
    hr.restricted_step he
  obtain ⟨row, hrow, htoken⟩ := hown.1
  have hrow' : s.limits = some row := hrow
  have hsince : reader.since ≤ now := he.1.2.1 token rfl reader hreader
  -- The step leaves the limiter free, with the delay as its cooldown.
  have hcool : Cooling (reader.since + delay) (next config s (.fail token now random)) := by
    refine .inl ⟨_, now + delay, by rw [hlimits, hrow']; rfl, ?_, ?_, by omega⟩
    · simp [GatewayRateLimitStatements.failure, htoken]
    · rw [failure_cooldown htoken]
      rfl
  obtain ⟨lease, hlease, hle⟩ := hread.2 waiting hwaiting hclaimed
  obtain ⟨row', hlimits', hactive⟩ := lease_taken (hnext.extend hx) hlease hle
  rcases cooling_along hnext hx hcool with ⟨free, _, hfree, hnone, _, _⟩ | hpast
  · rw [hlimits'] at hfree
    cases hfree
    exact absurd hnone hactive
  · exact hpast

/-- An item is read and answered 429. -/
def limitedItem : List Event :=
  [.publishItem 7 0 1 "group-1", .claimItem 7 0 true, .readGroup 0,
    .answer 0 (.error (.http 429 (some 30000)))]

/-- The item is claimed again. -/
def itemAgain : List Event := [.tick 30000, .claimItem 7 30000 true]

/-- The next read of the session has waited for the delay. -/
theorem item_waits_for_retry_after :
    30000 ≤ (runTrace (heedful exampleConfig) emptyState
      (limitedItem ++ .fail 0 0 0 :: itemAgain)).clock := by
  have hvalid : ValidTrace (heedful exampleConfig) emptyState
      (limitedItem ++ .fail 0 0 0 :: itemAgain) := by decide +kernel
  obtain ⟨hbefore, hfail, hafter⟩ := valid_trace_append.mp hvalid
  have hreach : Reachable (heedful exampleConfig)
      (runTrace (heedful exampleConfig) emptyState limitedItem) :=
    ⟨_, valid_trace_run (empty_initial _) hbefore⟩
  rw [runTrace_append]
  change 30000 ≤ (runTrace (heedful exampleConfig) (next exampleConfig
    (runTrace (heedful exampleConfig) emptyState limitedItem) (.fail 0 0 0)) itemAgain).clock
  have hwait := ((rate_limit_answered_alike exampleConfig).2 _ 0 0 0
    ⟨.item 7, "group-1", none, .failed (.http 429 (some 30000)), 0⟩ (some 30000) hreach hfail
    (by decide +kernel) rfl).2 30000 itemAgain _ 1 ⟨.item 7, "group-1", none, .claimed, 30000⟩ rfl
    (valid_trace_execution hafter) (by decide +kernel) (by decide +kernel) rfl
  simpa using hwait

/-- A group that has been invalidated. -/
def invalidatedGroup : State :=
  { emptyState with
    groups := fun group =>
      if group = "group-1" then
        some { GroupRow.inserted 0 with capabilityInvalidatedAt := some 0 }
      else none }

/-- A refresh of the group is answered 429. -/
def limitedRefresh : List Event :=
  [.publishItem 7 0 1 "group-1", .reserve "group-1" 1 0, .claimRefresh 0 0 false, .readGroup 0,
    .answer 0 (.error (.http 429 (some 30000)))]

/-- The outcome is recorded, and five seconds later an item is claimed. -/
def itemSoonAfter : List Event := [.fail 0 0 0, .tick 5000, .claimItem 7 5000 true]

def runningItem : SyncItemRow :=
  { GatewaySyncItemStatements.insertItem 0 1 "group-1" with
    status := .running
    leaseToken := some 0
    leaseExpiresAt := some 120000 }

def runningIntent : IntentRow :=
  { GroupIntentStatements.insertIntent exampleConfig.intent 0 "group.update" with
    status := .running
    claimedRevision := some 1
    leaseToken := some 0
    leaseExpiresAt := some 120000
    claimed_le := fun _ h => (Option.some.inj h).ge }

def takenLimiter : RateLimitRow := acquire 0 0 40 (ensure exampleConfig.rate 0 none)

/-- A refresh that is told to wait 30 seconds leaves another limiter than an item or an intent does,
and the next read of its session starts after five. -/
theorem refresh_ignores_retry_after :
    ¬ AnsweredAlike exampleConfig 0 0 1 (some 30000) runningItem runningIntent takenLimiter ∧
      ∃ s u reader, Reachable (system exampleConfig) s ∧ s.readers 0 = some reader ∧
        reader.stage = .failed (.http 429 (some 30000)) ∧
        Execution (system exampleConfig) s itemSoonAfter u ∧ Enabled u (.readGroup 2) ∧
        (u.readers 2).map Reader.stage = some .claimed ∧ u.clock < reader.since + 30000 := by
  constructor
  · intro h
    have hnone := (answered_alike_iff.mp h rfl).1
    cases hnone
  · have hinit : Initial exampleConfig invalidatedGroup :=
      ⟨fun _ => rfl, (fun _ h => nomatch h), (fun _ _ h => nomatch h), fun _ _ h => nomatch h⟩
    have hvalid : ValidTrace (system exampleConfig) invalidatedGroup
        (limitedRefresh ++ itemSoonAfter) := by decide +kernel
    obtain ⟨hbefore, hafter⟩ := valid_trace_append.mp hvalid
    exact ⟨_, _, ⟨.refresh 1, "group-1", some 1, .failed (.http 429 (some 30000)), 0⟩,
      ⟨_, valid_trace_run hinit hbefore⟩, by decide +kernel, rfl, valid_trace_execution hafter,
      by decide +kernel, by decide +kernel, by decide +kernel⟩

end Runs

end RateLimitAnswers
