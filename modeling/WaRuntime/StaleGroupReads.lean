import WaRuntime.GroupIntentCoalescing

/-! Group details that were read before the group was invalidated.
A capability refresh writes its details only at the revision that it expects. A sync item and an
intent expect none, so what they read earlier may clear a later invalidation; a group event leaves
an intent that reads the group again, the other invalidations leave nothing. That an intent is ever
dispatched takes GATEWAY_TARGETED_RECONCILIATION_ENABLED, which is false by default. -/
namespace StaleGroupReads

open TransitionRuns GroupCapabilityStatements GatewayRateLimitStatements GatewayGroupReads
open GroupReadHistory GroupIntentCoalescing
open GatewayReadLeases (LimitMove limit_move emptyState exampleConfig)
open GatewaySyncItemStatements (SyncItemRow)
open GroupIntentStatements (IntentRow IntentConfig)

section Revisions

variable {config : Config} {s : State} {e : Event}

/-- A write of a group row that does not move its revision back. -/
def RevisionGrows (f : GroupRow → Option GroupRow) : Prop :=
  ∀ row new, f row = some new → row.capabilityRevision ≤ new.capabilityRevision

theorem invalidate_grows (now : ℕ) (reason : GroupSendCapabilityReason) :
    RevisionGrows (GroupCapabilityStatements.invalidate now reason) := by
  intro row new h
  unfold GroupCapabilityStatements.invalidate at h
  split at h
  · cases h
    exact Nat.le_succ _
  · cases h

theorem invalidateByEvent_grows (now : ℕ) : RevisionGrows (invalidateByEvent now) := by
  intro row new h
  unfold invalidateByEvent at h
  split at h
  · cases h
    exact Nat.le_succ _
  · cases h

theorem failRefreshAttempt_grows (now revision token : ℕ) (error : String) (retryable : Bool) :
    RevisionGrows
      (GroupCapabilityStatements.failRefreshAttempt now revision token error retryable) := by
  intro row new h
  unfold GroupCapabilityStatements.failRefreshAttempt at h
  split at h
  · split at h
    · cases h
      exact Nat.le_refl _
    · cases h
      exact Nat.le_refl _
  · cases h

theorem recoverExpiredRefresh_grows (now : ℕ) :
    RevisionGrows (GroupCapabilityStatements.recoverExpiredRefresh now) := by
  intro row new h
  unfold GroupCapabilityStatements.recoverExpiredRefresh at h
  split at h
  · cases h
    exact Nat.le_refl _
  · cases h

theorem denyInactive_grows (now : ℕ) : RevisionGrows (denyInactive now) := by
  intro row new h
  unfold denyInactive at h
  split at h
  · cases h
    exact Nat.le_succ _
  · cases h

theorem updateGroup_grows {f : GroupRow → Option GroupRow} (hf : RevisionGrows f) (row : GroupRow) :
    row.capabilityRevision ≤ (GroupCapabilityRevision.updateGroup f row).capabilityRevision := by
  unfold GroupCapabilityRevision.updateGroup
  cases h : f row with
  | none => exact Nat.le_refl _
  | some new => exact hf row new h

/-- A row that is there stays, at its revision or a later one. -/
def Follows (old new : Option GroupRow) : Prop :=
  ∀ row, old = some row →
    ∃ row', new = some row' ∧ row.capabilityRevision ≤ row'.capabilityRevision

theorem follows_refl (row : Option GroupRow) : Follows row row :=
  fun row h => ⟨row, h, Nat.le_refl _⟩

theorem follows_map {f : GroupRow → Option GroupRow} (hf : RevisionGrows f) (row : Option GroupRow) :
    Follows row (row.map (GroupCapabilityRevision.updateGroup f)) := by
  rintro row rfl
  exact ⟨_, rfl, updateGroup_grows hf row⟩

theorem follows_summary (now : ℕ) (listed : Option OpenWAGroupSummary) (row : Option GroupRow) :
    Follows row (GroupCapabilityRevision.replaceSummary now listed row) := by
  rintro row rfl
  cases listed with
  | none =>
    exact ⟨_, rfl, updateGroup_grows (denyInactive_grows now) (deactivate row)⟩
  | some summary =>
    refine ⟨_, rfl, le_trans ?_ (updateGroup_grows (denyInactive_grows now) _)⟩
    unfold upsertSummary
    simp only
    split
    · exact Nat.le_refl _
    · exact Nat.le_succ _

theorem follows_details (now : ℕ) (options : DetailsOptions) (group : OpenWAGroup)
    (seen row : Option GroupRow) :
    Follows row (GroupCapabilityRevision.upsertGroupDetails now options group seen row) := by
  rintro row rfl
  unfold GroupCapabilityRevision.upsertGroupDetails
  split
  · refine ⟨_, rfl, ?_⟩
    simp only [upsertDetails]
    split
    · exact Nat.le_succ _
    · exact Nat.le_refl _
  · exact ⟨row, rfl, Nat.le_refl _⟩

theorem follows_at {groups : String → Option GroupRow} {group other : String} {row : Option GroupRow}
    (h : Follows (groups other) row) :
    Follows (groups group) (Function.update groups other row group) := by
  by_cases heq : group = other
  · subst heq
    rw [Function.update_self]
    exact h
  · rw [Function.update_of_ne heq]
    exact follows_refl _

theorem group_follows {u : State} (h : Outcome config s e u) (group : String) :
    Follows (s.groups group) (u.groups group) := by
  cases h with
  | changed => exact follows_at (follows_map (invalidateByEvent_grows _) _)
  | invalidated => exact follows_at (follows_map (invalidate_grows _ _) _)
  | summarized => exact follows_at (follows_summary _ _ _)
  | refreshClaimed _ _ _ hold hclaim =>
    refine follows_at fun row hrow => ?_
    rw [hold] at hrow
    cases hrow
    obtain ⟨hrevision, hrevision', _⟩ := claimRefresh_revision hclaim
    exact ⟨_, rfl, by omega⟩
  | renewed _ hrenew | confirmed _ _ hrenew =>
    obtain ⟨_, _, _, _, hcase⟩ := renewLease_cases hrenew
    rcases hcase with ⟨_, _, _, _, _, _, rfl⟩ | ⟨_, _, _, _, _, _, rfl⟩
    · exact follows_refl _
    · exact follows_refl _
  | itemWritten | intentWritten | refreshWritten => exact follows_at (follows_details _ _ _ _ _)
  | attemptFailed => exact follows_at (follows_map (failRefreshAttempt_grows _ _ _ _ _) _)
  | refreshRecovered => exact follows_at (follows_map (recoverExpiredRefresh_grows _) _)
  | _ => exact follows_refl _

/-- An invalidation gives its row a new revision. -/
theorem invalidation_grows (config : Config) {group : String}
    (h : invalidationOf s e = some group) :
    ∃ old new, s.groups group = some old ∧ (next config s e).groups group = some new ∧
      old.capabilityRevision < new.capabilityRevision := by
  have hactive : ∀ other, (s.groups other).bind
      (fun row => if row.isActive then some other else none) = some group →
      other = group ∧ ∃ old, s.groups group = some old ∧ old.isActive = true := by
    intro other hbind
    obtain ⟨old, hold, hif⟩ := Option.bind_eq_some_iff.mp hbind
    split at hif
    · rename_i hactive
      cases hif
      exact ⟨rfl, old, hold, hactive⟩
    · cases hif
  cases e with
  | groupChanged other now reason =>
    obtain ⟨rfl, old, hold, hactive⟩ := hactive other h
    refine ⟨old, (invalidateByEvent now old).getD old, hold, ?_, ?_⟩
    · simp [next, onGroup, hold, GroupCapabilityRevision.updateGroup]
    · simp [invalidateByEvent, hactive]
  | invalidate other now reason =>
    obtain ⟨rfl, old, hold, hactive⟩ := hactive other h
    refine ⟨old, (GroupCapabilityStatements.invalidate now reason old).getD old, hold, ?_, ?_⟩
    · simp [next, onGroup, hold, GroupCapabilityRevision.updateGroup]
    · simp [GroupCapabilityStatements.invalidate, hactive]
  | _ => cases h

end Revisions

section Refreshes

variable {config : Config} {h : Recorded} {e : Event}

/-- A refresh has claimed its group, and has not yet written it. -/
def Stage.Reading : Stage → Prop
  | .claimed | .reading | .answered _ => True
  | _ => False

/-- The group of a refresh has its revision still, and then it was not invalidated since the read
was started. -/
structure RefreshInvariant (h : Recorded) : Prop where
  invalidated : ∀ group moment, h.invalidated group = some moment → moment < h.moment
  revision : ∀ token reader expected, h.state.readers token = some reader →
    reader.path = .refresh expected → Stage.Reading reader.stage →
    ∃ row, h.state.groups reader.group = some row ∧ expected ≤ row.capabilityRevision
  stale : ∀ token reader expected row start moment, h.state.readers token = some reader →
    reader.path = .refresh expected → Stage.Reading reader.stage →
    h.state.groups reader.group = some row → h.started token = some start →
    h.invalidated reader.group = some moment → start < moment →
    reader.stage ≠ .claimed → expected < row.capabilityRevision

theorem record_invalidated {u : State} {group : String} {moment : ℕ}
    (hi : (recordStep config h e u).invalidated group = some moment) :
    invalidationOf h.state e = some group ∧ moment = h.moment ∨
      h.invalidated group = some moment := by
  simp only [recordStep] at hi
  split at hi
  · rename_i hnow
    exact .inl ⟨hnow, (Option.some.inj hi).symm⟩
  · exact .inr hi

/-- A call of a refresh that still reads: it was there, or has just claimed its group. -/
theorem reading_origin {token expected : ℕ} {after : Reader}
    (hafter : (next config h.state e).readers token = some after)
    (hpath : after.path = .refresh expected) (hstage : Stage.Reading after.stage) :
    (after.stage = .claimed ∧ ∃ old, h.state.groups after.group = some old ∧
      old.capabilityRevision = expected) ∨
    ∃ reader, h.state.readers token = some reader ∧ reader.path = .refresh expected ∧
      reader.group = after.group ∧ Stage.Reading reader.stage ∧
      (reader.stage = after.stage ∨ e = .readGroup token ∧ reader.stage = .claimed ∨
        reader.stage = .reading) := by
  cases reader_origin (reader_move (next_outcome config h.state e)) hafter with
  | kept hreader => exact .inr ⟨after, hreader, hpath, rfl, hstage, .inl rfl⟩
  | drawn _ _ _ _ hreserved =>
    rw [hreserved expected hpath] at hstage
    exact hstage.elim
  | staged reader hreader hsame hgroup hm =>
    rw [hsame] at hpath
    generalize hafterStage : after.stage = stage at hm hstage ⊢
    cases hm with
    | claimed hrefresh hold hrevision =>
      rw [hpath] at hrefresh
      cases hrefresh
      exact .inl ⟨rfl, _, by rw [hgroup]; exact hold, hrevision⟩
    | reading he hclaimed =>
      refine .inr ⟨reader, hreader, hpath, hgroup.symm, ?_, .inr (.inl ⟨he, hclaimed⟩)⟩
      rw [hclaimed]
      trivial
    | answered _ hreading =>
      refine .inr ⟨reader, hreader, hpath, hgroup.symm, ?_, .inr (.inr hreading)⟩
      rw [hreading]
      trivial
    | _ => exact hstage.elim

theorem refresh_revision_step (hi : RefreshInvariant h) {token expected : ℕ} {after : Reader}
    (hafter : (next config h.state e).readers token = some after)
    (hpath : after.path = .refresh expected) (hstage : Stage.Reading after.stage) :
    ∃ row, (next config h.state e).groups after.group = some row ∧
      expected ≤ row.capabilityRevision := by
  have hfollow := group_follows (next_outcome config h.state e) after.group
  rcases reading_origin hafter hpath hstage with ⟨_, old, hold, hrevision⟩ |
    ⟨reader, hreader, hrefresh, hgroup, hreading, _⟩
  · obtain ⟨row, hrow, hle⟩ := hfollow old hold
    exact ⟨row, hrow, by omega⟩
  · obtain ⟨old, hold, hle⟩ := hi.revision token reader expected hreader hrefresh hreading
    rw [hgroup] at hold
    obtain ⟨row, hrow, hle'⟩ := hfollow old hold
    exact ⟨row, hrow, hle.trans hle'⟩

theorem refresh_stale_step (hi : RefreshInvariant h)
    {token expected start moment : ℕ} {after : Reader} {row : GroupRow}
    (hafter : (next config h.state e).readers token = some after)
    (hpath : after.path = .refresh expected) (hstage : Stage.Reading after.stage)
    (hrow : (next config h.state e).groups after.group = some row)
    (hs : (recordStep config h e (next config h.state e)).started token = some start)
    (hm : (recordStep config h e (next config h.state e)).invalidated after.group = some moment)
    (hlt : start < moment) (hclaimed : after.stage ≠ .claimed) :
    expected < row.capabilityRevision := by
  rcases reading_origin hafter hpath hstage with ⟨heq, _⟩ |
    ⟨reader, hreader, hrefresh, hgroup, hreading, hcase⟩
  · exact absurd heq hclaimed
  obtain ⟨old, hold, hle⟩ := hi.revision token reader expected hreader hrefresh hreading
  have hold' := hold
  rw [hgroup] at hold'
  rcases record_invalidated hm with ⟨hinvalidation, rfl⟩ | hbefore
  · -- The invalidation itself moves the revision on.
    obtain ⟨old', new, hold'', hnew, hgrows⟩ :=
      invalidation_grows config hinvalidation
    rw [hold'] at hold''
    cases hold''
    rw [hrow] at hnew
    cases hnew
    omega
  · obtain ⟨row', hrow', hle'⟩ :=
      group_follows (next_outcome config h.state e) after.group old hold'
    rw [hrow] at hrow'
    cases hrow'
    have hmoment := hi.invalidated after.group moment hbefore
    rcases record_started hs with ⟨_, rfl⟩ | ⟨hnot, hstarted⟩
    · omega
    · have hstale : reader.stage ≠ .claimed → expected < row.capabilityRevision := by
        intro hne
        have := hi.stale token reader expected old start moment hreader hrefresh hreading hold
          hstarted (by rw [hgroup]; exact hbefore) hlt hne
        omega
      rcases hcase with heq | ⟨he, hc⟩ | hr
      · exact hstale (by rw [heq]; exact hclaimed)
      · exact absurd (by simp [startOf, he, hreader, hc]) hnot
      · exact hstale (by simp [hr])

theorem refresh_invariant_step (hi : RefreshInvariant h) :
    RefreshInvariant (recordStep config h e (next config h.state e)) where
  invalidated group moment hm := by
    change moment < h.moment + 1
    rcases record_invalidated hm with ⟨_, rfl⟩ | hbefore
    · omega
    · have := hi.invalidated group moment hbefore
      omega
  revision _ _ _ hafter hpath hstage := refresh_revision_step hi hafter hpath hstage
  stale _ _ _ _ _ _ hafter hpath hstage hrow hs hm hlt hclaimed :=
    refresh_stale_step hi hafter hpath hstage hrow hs hm hlt hclaimed

theorem initial_refreshes (h₀ : RecordInitial config h) : RefreshInvariant h where
  invalidated group _ hm := by simp [h₀.invalidated group] at hm
  revision token _ _ hreader := by simp [h₀.state.readers token] at hreader
  stale token _ _ _ _ _ hreader := by simp [h₀.state.readers token] at hreader

theorem reachable_refreshes (hr : Reachable (recorded config) h) : RefreshInvariant h :=
  reachable_invariant (M := recorded config) (I := RefreshInvariant)
    (fun _ => initial_refreshes) (fun _ _ hi _ => refresh_invariant_step hi) hr

end Refreshes

section Waits

variable {config : Config} {s : State} {h : Recorded} {e : Event}

/-- An intent that reads its group again, whatever becomes of the call that has claimed it. -/
structure Waiting (intent : IntentRow) : Prop where
  owed : intent.completedRevision < intent.requestedRevision
  claimed : ∀ revision, intent.claimedRevision = some revision → revision < intent.requestedRevision
  unsettled : ¬ intent.Settled

theorem schedule_waits (config : IntentConfig) (now : ℕ) (reason : String)
    (intent : Option IntentRow) :
    Waiting (GroupIntentStatements.scheduleInTransaction config now reason intent) := by
  cases intent with
  | none =>
    refine ⟨Nat.zero_lt_one, fun _ hc => (nomatch hc), ?_⟩
    simp [IntentRow.Settled, GroupIntentStatements.scheduleInTransaction,
      GroupIntentStatements.insertIntent]
  | some intent =>
    refine ⟨Nat.lt_succ_of_le intent.completed_le, fun revision hc => ?_, ?_⟩
    · exact Nat.lt_succ_of_le (intent.claimed_le revision hc)
    · simp only [IntentRow.Settled, GroupIntentStatements.scheduleInTransaction,
        GroupIntentStatements.coalesceIntent]
      by_cases hrunning : intent.status = .running
      · simp [hrunning]
      · simp [hrunning]

/-- A call that ends on a waiting intent leaves it PENDING. -/
theorem completed_waits {now token revision : ℕ} {errorCode : Option String}
    {old new : IntentRow} (hw : Waiting old)
    (hc : GroupIntentStatements.completeClaimed now token revision errorCode old = some new) :
    Waiting new := by
  unfold GroupIntentStatements.completeClaimed at hc
  split at hc
  · rename_i howned
    cases hc
    have hlt := hw.claimed revision howned.2
    exact ⟨max_lt hw.owed hlt, fun _ hnone => (by cases hnone),
      by simp [IntentRow.Settled, hlt]⟩
  · cases hc

theorem failed_waits {config : IntentConfig} {now token revision random : ℕ}
    {policy : GroupIntentStatements.GatewayGroupIntentFailurePolicy} {old new : IntentRow}
    (hw : Waiting old)
    (hf : GroupIntentStatements.fail config now token revision random policy old = some new) :
    Waiting new := by
  unfold GroupIntentStatements.fail at hf
  split at hf
  · rename_i howned
    cases hf
    have hlt := hw.claimed revision howned.2
    exact ⟨hw.owed, fun _ hnone => (by cases hnone),
      by simp [IntentRow.Settled, hlt]⟩
  · cases hf

theorem recovered_waits {config : IntentConfig} {now : ℕ} {old new : IntentRow}
    (hw : Waiting old) (hr : GroupIntentStatements.recoverExpired config now old = some new) :
    Waiting new := by
  unfold GroupIntentStatements.recoverExpired at hr
  split at hr
  · cases hr
    have hlt : old.claimedRevision.getD old.completedRevision < old.requestedRevision := by
      cases hclaimed : old.claimedRevision with
      | none => exact hw.owed
      | some revision => exact hw.claimed revision hclaimed
    exact ⟨hw.owed, fun _ hnone => (nomatch hnone),
      by simp [IntentRow.Settled, hlt]⟩
  · cases hr

/-- Whoever holds the limiter after a step has just drawn its token, or held it before. -/
theorem active_origin {limits : Option RateLimitRow} (hm : LimitMove config s e limits)
    {row : RateLimitRow} {token : ℕ} (hrow : limits = some row)
    (hactive : row.activeLeaseToken = some token) :
    token = s.tokens ∨ ∃ old, s.limits = some old ∧ old.activeLeaseToken = some token := by
  have hmap : ∀ f : RateLimitRow → RateLimitRow, s.limits.map f = some row →
      (∀ old, (f old).activeLeaseToken = some token → old.activeLeaseToken = some token) →
      ∃ old, s.limits = some old ∧ old.activeLeaseToken = some token := by
    intro f hf hkeep
    obtain ⟨old, hold, rfl⟩ := Option.map_eq_some_iff.mp hf
    exact ⟨old, hold, hkeep old hactive⟩
  cases hm with
  | same => exact .inr ⟨row, hrow, hactive⟩
  | ensured =>
    cases hrow
    cases hlimits : s.limits with
    | none =>
      rw [hlimits] at hactive
      cases hactive
    | some old =>
      rw [hlimits] at hactive
      exact .inr ⟨old, rfl, hactive⟩
  | acquired =>
    cases hrow
    exact .inl (Option.some.inj hactive).symm
  | renewed hlimit hrenew =>
    cases hrow
    unfold renew at hrenew
    split at hrenew
    · cases hrenew
      exact .inr ⟨_, hlimit, hactive⟩
    · cases hrenew
  | written hlimit hrenew =>
    cases hrow
    unfold renewGroupReadPacingLease at hrenew
    split at hrenew
    · cases hrenew
      exact .inr ⟨_, hlimit, hactive⟩
    · cases hrenew
  | succeeded =>
    refine .inr (hmap _ hrow fun old hold => ?_)
    obtain ⟨streak, heq⟩ := success_eq config.rate _ old
    rw [heq] at hold
    unfold recordSuccess at hold
    split at hold
    · cases hold
    · exact hold
  | failed =>
    refine .inr (hmap _ hrow fun old hold => ?_)
    unfold GatewayRateLimitStatements.failure at hold
    split at hold
    · cases hold
    · exact hold
  | released =>
    refine .inr (hmap _ hrow fun old hold => ?_)
    unfold release at hold
    split at hold
    · cases hold
    · exact hold
  | lapsed =>
    refine .inr (hmap _ hrow fun old hold => ?_)
    unfold releaseExpired at hold
    split at hold
    · cases hold
    · exact hold

/-- While the call of a read holds the limiter, what is requested after its start waits. -/
structure WaitInvariant (h : Recorded) : Prop where
  requested : ∀ group revision commit, h.requested group revision = some commit →
    commit < h.moment
  waits : ∀ limit token start group revision commit intent, h.state.limits = some limit →
    limit.activeLeaseToken = some token → h.started token = some start →
    h.requested group revision = some commit → start < commit →
    h.state.intents group = some intent → Waiting intent

/-- A waiting intent waits still where the limiter was not taken. -/
theorem waiting_move {u : State} {group : String} {old new : IntentRow} (hw : Waiting old)
    (hold : s.intents group = some old) (hm : IntentMove config s u group (some new))
    (hlimits : ∀ row, u.limits = some row → row.activeLeaseToken ≠ some s.tokens) :
    Waiting new := by
  generalize hrow : (some new : Option IntentRow) = row at hm
  cases hm with
  | same =>
    rw [hold] at hrow
    cases hrow
    exact hw
  | claimed _ _ hlimit hactive => exact absurd hactive (hlimits _ hlimit)
  | renewed hintent hnew =>
    cases hrow
    rw [hold] at hintent
    cases hintent
    subst hnew
    exact ⟨hw.owed, hw.claimed, hw.unsettled⟩
  | completed _ _ _ _ hintent hcomplete =>
    cases hrow
    rw [hold] at hintent
    cases hintent
    exact completed_waits hw hcomplete
  | failed hintent hfail =>
    cases hrow
    rw [hold] at hintent
    cases hintent
    exact failed_waits hw hfail
  | recovered hintent hrecover =>
    cases hrow
    rw [hold] at hintent
    cases hintent
    exact recovered_waits hw hrecover

theorem record_requested_origin {u : State} {group : String} {revision commit : ℕ}
    (hc : (recordStep config h e u).requested group revision = some commit) :
    requestOf config h.state e = some (group, revision) ∧ commit = h.moment ∨
      h.requested group revision = some commit := by
  simp only [recordStep] at hc
  split at hc
  · rename_i hnow
    exact .inl ⟨hnow, (Option.some.inj hc).symm⟩
  · exact .inr hc

/-- A token that is drawn by a step has started nothing after it. -/
theorem drawn_not_started (hreads : ReadInvariant h) {u : State} {start : ℕ}
    (hs : (recordStep config h e u).started h.state.tokens = some start) : False := by
  rcases record_started hs with ⟨hnow, _⟩ | ⟨_, hbefore⟩
  · obtain ⟨_, reader, hreader, _⟩ := startOf_some hnow
    have := hreads.drawn _ reader hreader
    omega
  · have := (hreads.begun _ start hbefore).1
    omega

theorem waits_step (hreads : ReadInvariant h) (hrequests : RequestInvariant h)
    (hi : WaitInvariant h) {limit : RateLimitRow} {token start : ℕ} {group : String}
    {revision commit : ℕ} {intent : IntentRow}
    (hlimit : (next config h.state e).limits = some limit)
    (hactive : limit.activeLeaseToken = some token)
    (hs : (recordStep config h e (next config h.state e)).started token = some start)
    (hc : (recordStep config h e (next config h.state e)).requested group revision = some commit)
    (hlt : start < commit) (hintent : (next config h.state e).intents group = some intent) :
    Waiting intent := by
  have hheld : token ≠ h.state.tokens := by
    rintro rfl
    exact drawn_not_started hreads hs
  rcases intent_move config h.state e group with ⟨now, reason, _, hnew⟩ | ⟨hquiet, hm⟩
  · rw [hnew] at hintent
    cases hintent
    exact schedule_waits _ _ _ _
  · rcases record_requested_origin hc with ⟨hnow, _⟩ | hbefore
    · exact absurd hnow (hquiet revision)
    · obtain ⟨old, hold, _⟩ := hrequests.known group revision commit hbefore
      have hcommit := hi.requested group revision commit hbefore
      rcases active_origin (limit_move (next_outcome config h.state e)) hlimit hactive with
        heq | ⟨row, hrow, hrow'⟩
      · exact absurd heq hheld
      rcases record_started hs with ⟨_, rfl⟩ | ⟨_, hstarted⟩
      · omega
      · have hw := hi.waits row token start group revision commit old hrow hrow' hstarted hbefore
          hlt hold
        rw [hintent] at hm
        refine waiting_move hw hold hm fun row hrow htaken => ?_
        rw [hlimit] at hrow
        cases hrow
        rw [hactive] at htaken
        exact hheld (Option.some.inj htaken)

theorem wait_invariant_step (hreads : ReadInvariant h) (hrequests : RequestInvariant h)
    (hi : WaitInvariant h) : WaitInvariant (recordStep config h e (next config h.state e)) where
  requested group revision commit hc := by
    change commit < h.moment + 1
    rcases record_requested_origin hc with ⟨_, rfl⟩ | hbefore
    · omega
    · have := hi.requested group revision commit hbefore
      omega
  waits _ _ _ _ _ _ _ hlimit hactive hs hc hlt hintent :=
    waits_step hreads hrequests hi hlimit hactive hs hc hlt hintent

theorem initial_waits (h₀ : RecordInitial config h) : WaitInvariant h where
  requested group revision _ hc := by simp [h₀.requested group revision] at hc
  waits _ token _ _ _ _ _ _ _ hs := by simp [h₀.started token] at hs

theorem reachable_waits (hr : Reachable (recorded config) h) : WaitInvariant h :=
  reachable_invariant_with (M := recorded config)
    (J := fun h => ReadInvariant h ∧ RequestInvariant h) (I := WaitInvariant)
    (fun _ hr => ⟨reachable_reads hr, reachable_requests hr⟩) (fun _ => initial_waits)
    (fun _ _ hj hi _ => wait_invariant_step hj.1 hj.2 hi) hr

end Waits

section Writes

variable {config : Config} {s : State} {h : Recorded} {e : Event}

/-- The work that is still to read the group of a call: an intent that waits, an open item other
than the call's own, or a capability refresh that comes due. -/
def WorkRemains (s : State) (reader : Reader) : Prop :=
  (∃ intent, s.intents reader.group = some intent ∧ Waiting intent) ∨
    (∃ id item, s.items id = some item ∧ item.groupId = reader.group ∧ ¬ item.Terminal ∧
      reader.path ≠ .item id) ∨
    ∃ row now, s.groups reader.group = some row ∧ RefreshDue now row

/-- Where an item or an intent applies details that allow sending and were read before the last
invalidation of the group, a group event has committed since the read was started. -/
def Sheltered (h : Recorded) : Event → Prop
  | .upsertGroupDetails token _ _ _ _ found =>
    ∀ reader group start moment, h.state.readers token = some reader →
      reader.stage = .confirmed group →
      (detailsCapability group (if found then h.state.groups reader.group else none)).status =
        .allowed →
      h.started token = some start → h.invalidated reader.group = some moment → start < moment →
      ∃ revision commit, h.requested reader.group revision = some commit ∧ start < commit
  | _ => True

theorem applied_write {u : State} {token : ℕ} {reader : Reader}
    (h : appliedBy s u e = some (token, reader)) :
    ∃ now itemTime limitTime running found,
      e = .upsertGroupDetails token now itemTime limitTime running found ∧
      s.readers token = some reader ∧ reader.stage ≠ .applied ∧
      (∃ after, u.readers token = some after ∧ after.stage = .applied) ∧
      (readOptions reader).Met now (if found then s.groups reader.group else none) := by
  cases e with
  | upsertGroupDetails other now itemTime limitTime running found =>
    obtain ⟨before, hbefore, hif⟩ := Option.bind_eq_some_iff.mp h
    obtain ⟨⟨hstage, hafter, hmet⟩, hsame⟩ := Option.ite_none_right_eq_some.mp hif
    cases hsame
    obtain ⟨after, hafter, happlied⟩ := Option.map_eq_some_iff.mp hafter
    exact ⟨now, itemTime, limitTime, running, found, rfl, hbefore, hstage,
      ⟨after, hafter, happlied⟩, hmet⟩
  | _ => cases h

/-- Details that do not allow sending leave the group unsendable. -/
theorem denied_not_sendable {now : ℕ} {reader : Reader} {group : OpenWAGroup} {found : Bool}
    (hdenied : (detailsCapability group (if found then s.groups reader.group else none)).status ≠
      .allowed) {new : GroupRow}
    (hnew : (writeGroup s now ⟨none, none⟩ reader group found).groups reader.group = some new) :
    ¬ new.Sendable := by
  have hmet : ∀ seen, (⟨none, none⟩ : DetailsOptions).Met now seen := by
    simp [DetailsOptions.Met]
  simp only [writeGroup, Function.update_self, GroupCapabilityRevision.upsertGroupDetails,
    if_pos (hmet _)] at hnew
  cases hnew
  intro hsend
  cases hrow : s.groups reader.group with
  | none =>
    rw [hrow] at hsend
    exact hdenied (by rw [hrow]; exact hsend.1)
  | some row =>
    rw [hrow] at hsend
    exact hdenied (by rw [hrow]; exact hsend.1)

/-- A refresh that applies what it read found its revision: nothing was invalidated since. -/
theorem refresh_applies_fresh (hi : RefreshInvariant h) {token expected now start moment : ℕ}
    {reader : Reader} {group : OpenWAGroup} {found : Bool}
    (hreader : h.state.readers token = some reader) (hpath : reader.path = .refresh expected)
    (hstage : reader.stage = .answered group)
    (hmet : (readOptions reader).Met now (if found then h.state.groups reader.group else none))
    (hs : h.started token = some start) (hm : h.invalidated reader.group = some moment) :
    moment ≤ start := by
  have hrevision := hmet.1 expected (by simp [readOptions, hpath])
  obtain ⟨row, hrow, hexpected⟩ := Option.map_eq_some_iff.mp hrevision
  have hgroup : h.state.groups reader.group = some row := by
    cases found with
    | true => exact hrow
    | false => cases hrow
  by_contra hlt
  have := hi.stale token reader expected row start moment hreader hpath (by rw [hstage]; trivial)
    hgroup hs hm (by omega) (by rw [hstage]; simp)
  omega

/-- What a group event that committed since the start of a read has left to do, where the call of the
read still holds the limiter. -/
theorem sheltered_waits (hrequests : RequestInvariant h) (hi : WaitInvariant h)
    {token now start moment time : ℕ} {itemTime limitTime : ℕ} {running found : Bool}
    {reader : Reader} {group : OpenWAGroup} {limit row : RateLimitRow}
    (hok : Sheltered h (.upsertGroupDetails token now itemTime limitTime running found))
    (hreader : h.state.readers token = some reader) (hstage : reader.stage = .confirmed group)
    (hallowed : (detailsCapability group
      (if found then h.state.groups reader.group else none)).status = .allowed)
    (hlimit : h.state.limits = some limit)
    (hrow : renewGroupReadPacingLease time token limit = some row)
    (hs : h.started token = some start) (hm : h.invalidated reader.group = some moment)
    (hlt : start < moment) :
    ∃ intent, h.state.intents reader.group = some intent ∧ Waiting intent := by
  obtain ⟨revision, commit, hcommit, hlater⟩ :=
    hok reader group start moment hreader hstage hallowed hs hm hlt
  obtain ⟨intent, hintent, _⟩ := hrequests.known reader.group revision commit hcommit
  exact ⟨intent, hintent, hi.waits limit token start reader.group revision commit intent hlimit
    (renewGroupReadPacingLease_some hrow).1 hs hcommit hlater hintent⟩

/-- Where every item and intent that applies a stale read is sheltered by a group event, a group to
which a stale read is applied cannot be sent to, or work remains that reads it again. -/
theorem stale_read_leaves_work (hr : Reachable (restrict (recorded config) Sheltered) h)
    (he : (restrict (recorded config) Sheltered).enabled h e) {token start moment : ℕ}
    {reader : Reader}
    (happlied : appliedBy h.state (next config h.state e) e = some (token, reader))
    (hs : h.started token = some start) (hm : h.invalidated reader.group = some moment)
    (hlt : start < moment) :
    (∀ row, (next config h.state e).groups reader.group = some row → ¬ row.Sendable) ∨
      WorkRemains (next config h.state e) reader := by
  obtain ⟨now, itemTime, limitTime, running, found, rfl, hreader, hbefore,
    ⟨after, hafter, hstage⟩, hmet⟩ := applied_write happlied
  have hrequests := reachable_requests hr.unrestrict
  have hwaits := reachable_waits hr.unrestrict
  have hrefreshes := reachable_refreshes hr.unrestrict
  have hout := next_outcome config h.state
    (.upsertGroupDetails token now itemTime limitTime running found)
  have hok := he.2
  generalize next config h.state (.upsertGroupDetails token now itemTime limitTime running found) =
    u at hout hafter ⊢
  cases hout with
  | idle =>
    rw [hreader] at hafter
    cases hafter
    exact absurd hstage hbefore
  | ensured hclaims => cases hclaims
  | lost hother =>
    rename_i other _
    by_cases heq : token = other
    · subst heq
      simp only [setStage, Function.update_self, Option.some.injEq] at hafter
      rw [← hafter] at hstage
      cases hstage
    · simp only [setStage, Function.update_of_ne heq] at hafter
      rw [hreader] at hafter
      cases hafter
      exact absurd hstage hbefore
  | itemWritten hreader' hpath hconfirmed hitem howned hrenew hlimit hrow =>
    rename_i group _ _ _ _
    rw [hreader] at hreader'
    cases hreader'
    by_cases hallowed : (detailsCapability group
        (if found then h.state.groups reader.group else none)).status = .allowed
    · obtain ⟨intent, hintent, hw⟩ := sheltered_waits hrequests hwaits hok hreader hconfirmed
        hallowed hlimit hrow hs hm hlt
      exact .inr (.inl ⟨intent, hintent, hw⟩)
    · exact .inl fun row hnew => denied_not_sendable hallowed hnew
  | intentWritten hreader' hpath hconfirmed hold howned hclaimed hlimit hrow =>
    rename_i group _ _ _
    rw [hreader] at hreader'
    cases hreader'
    by_cases hallowed : (detailsCapability group
        (if found then h.state.groups reader.group else none)).status = .allowed
    · obtain ⟨intent, hintent, hw⟩ := sheltered_waits hrequests hwaits hok hreader hconfirmed
        hallowed hlimit hrow hs hm hlt
      rw [hold] at hintent
      cases hintent
      exact .inr (.inl ⟨_, Function.update_self .., hw.owed, hw.claimed, hw.unsettled⟩)
    · exact .inl fun row hnew => denied_not_sendable hallowed hnew
  | refreshWritten hreader' hpath hanswered =>
    rw [hreader] at hreader'
    cases hreader'
    have := refresh_applies_fresh hrefreshes hreader hpath hanswered hmet hs hm
    omega

/-- An item is being read while an event of its group commits. -/
def shelteredEvents : List Event :=
  [.publishItem 7 0 1 "group-1", .claimItem 7 0 true, .readGroup 0,
    .groupChanged "group-1" 0 "group.update", .answer 0 (.ok ⟨"group-1", openGroup⟩), .confirm 0 0]

def writeItem : Event := .upsertGroupDetails 0 0 0 0 true true

def writingReader : Reader := ⟨.item 7, "group-1", none, .confirmed openGroup, 0⟩

def knownGroup : Recorded :=
  { emptyRecord with
    state := { emptyState with
      groups := Function.update (fun _ => none) "group-1" (some (GroupRow.inserted 0)) } }

theorem known_group_initial (config : Config) : RecordInitial config knownGroup where
  state := {
    readers _ := rfl
    limits _ h := nomatch h
    items _ _ h := nomatch h
    intents _ _ h := nomatch h }
  intents _ := rfl
  requested _ _ := rfl
  started _ := rfl
  invalidated _ := rfl

/-- The stale details are written, and the intent of the event waits. -/
theorem event_during_read_leaves_work :
    (∀ row, (next exampleConfig
        (runTrace (recorded exampleConfig) knownGroup shelteredEvents).state writeItem).groups
          "group-1" = some row → ¬ row.Sendable) ∨
      WorkRemains (next exampleConfig
        (runTrace (recorded exampleConfig) knownGroup shelteredEvents).state writeItem)
          writingReader := by
  have hvalid : ValidTrace (restrict (recorded exampleConfig) Sheltered) knownGroup
      shelteredEvents := by
    refine ⟨⟨?_, trivial⟩, ⟨?_, trivial⟩, ⟨?_, trivial⟩, ⟨?_, trivial⟩, ⟨?_, trivial⟩,
      ⟨?_, trivial⟩, trivial⟩ <;> decide +kernel
  have hreach : Reachable (restrict (recorded exampleConfig) Sheltered)
      (runTrace (recorded exampleConfig) knownGroup shelteredEvents) :=
    ⟨_, valid_trace_restricted_run (known_group_initial _) hvalid⟩
  have hstart : (runTrace (recorded exampleConfig) knownGroup shelteredEvents).started 0 =
      some 2 := by decide +kernel
  have hinvalidated : (runTrace (recorded exampleConfig) knownGroup shelteredEvents).invalidated
      "group-1" = some 3 := by decide +kernel
  have hrequested : (runTrace (recorded exampleConfig) knownGroup shelteredEvents).requested
      "group-1" 1 = some 3 := by decide +kernel
  have hreader : (runTrace (recorded exampleConfig) knownGroup shelteredEvents).state.readers 0 =
      some writingReader := by decide +kernel
  have henabled : (restrict (recorded exampleConfig) Sheltered).enabled
      (runTrace (recorded exampleConfig) knownGroup shelteredEvents) writeItem := by
    refine ⟨by decide +kernel, ?_⟩
    intro reader group start moment hreader' _ _ hs _ _
    rw [hreader] at hreader'
    cases hreader'
    rw [hstart] at hs
    cases hs
    exact ⟨1, 3, hrequested, by omega⟩
  have happlied : appliedBy (runTrace (recorded exampleConfig) knownGroup shelteredEvents).state
      (next exampleConfig (runTrace (recorded exampleConfig) knownGroup shelteredEvents).state
        writeItem) writeItem = some (0, writingReader) := by decide +kernel
  exact stale_read_leaves_work hreach henabled happlied hstart hinvalidated (by omega)

/-- The item that a step publishes. -/
def publishedBy : Event → Option ℕ
  | .publishItem id _ _ _ => some id
  | _ => none

theorem unpublished_step {u : State} {id : ℕ} (hout : Outcome config s e u)
    (hitem : s.items id = none) (hp : publishedBy e ≠ some id) : u.items id = none := by
  have hat : ∀ (other : ℕ) (old : SyncItemRow) (new : Option SyncItemRow),
      s.items other = some old → Function.update s.items other new id = none := by
    intro other old new hold
    rw [Function.update_of_ne]
    · exact hitem
    · rintro rfl
      rw [hold] at hitem
      cases hitem
  cases hout with
  | published =>
    rename_i other _ _ _ _
    have hne : id ≠ other := by
      rintro rfl
      exact hp rfl
    exact (Function.update_of_ne hne ..).trans hitem
  | itemClaimed hold | itemWritten _ _ _ hold | itemCompleted _ _ _ hold => exact hat _ _ _ hold
  | itemSkipped _ _ _ hold | itemFailed _ _ _ hold | itemRecovered hold => exact hat _ _ _ hold
  | renewed _ hrenew | confirmed _ _ hrenew =>
    obtain ⟨_, _, _, _, hcase⟩ := renewLease_cases hrenew
    rcases hcase with ⟨_, _, _, _, hold, _, rfl⟩ | ⟨_, _, _, _, _, _, rfl⟩
    · exact hat _ _ _ hold
    · exact hitem
  | _ => exact hitem

theorem unpublished_along {es : List Event} {id : ℕ} (hitem : h.state.items id = none)
    (hp : id ∉ es.filterMap publishedBy) :
    (runTrace (recorded config) h es).state.items id = none := by
  induction es generalizing h with
  | nil => exact hitem
  | cons e es ih =>
    refine ih (unpublished_step (next_outcome config h.state e) hitem ?_) ?_
    · intro hpublished
      exact hp (List.mem_filterMap.mpr ⟨e, List.mem_cons_self, hpublished⟩)
    · intro hmem
      obtain ⟨e', he', hpublished⟩ := List.mem_filterMap.mp hmem
      exact hp (List.mem_filterMap.mpr ⟨e', List.mem_cons_of_mem _ he', hpublished⟩)

/-- A send is answered 403 while an item reads its group. -/
def deniedEvents : List Event :=
  [.publishItem 7 0 1 "group-1", .claimItem 7 0 true, .readGroup 0,
    .invalidate "group-1" 0 .gatewayPermissionDenied, .answer 0 (.ok ⟨"group-1", openGroup⟩),
    .confirm 0 0]

theorem nothing_remains (hitems : ∀ id, id ≠ 7 → s.items id = none)
    (hintent : s.intents "group-1" = none)
    (hrow : (s.groups "group-1").bind GroupRow.capabilityInvalidatedAt = none) :
    ¬ WorkRemains s writingReader := by
  rintro (⟨intent, hsome, _⟩ | ⟨id, item, hitem, _, _, hother⟩ | ⟨row, now, hsome, hdue⟩)
  · rw [show writingReader.group = "group-1" from rfl, hintent] at hsome
    cases hsome
  · have hne : id ≠ 7 := by
      rintro rfl
      exact hother rfl
    rw [hitems id hne] at hitem
    cases hitem
  · rw [show s.groups "group-1" = some row from hsome] at hrow
    have hinvalidated := hdue.2.1
    rw [show row.capabilityInvalidatedAt = none from hrow] at hinvalidated
    cases hinvalidated

/-- The stale details allow sending again, and once the item has completed nothing reads the group
any more. -/
theorem stale_item_reenables_group :
    ∃ h, Reachable (recorded exampleConfig) h ∧ Enabled h.state writeItem ∧
      appliedBy h.state (next exampleConfig h.state writeItem) writeItem =
        some (0, writingReader) ∧
      (∃ start moment, h.started 0 = some start ∧ h.invalidated "group-1" = some moment ∧
        start < moment) ∧
      (∃ row, (next exampleConfig h.state writeItem).groups "group-1" = some row ∧
        row.Sendable) ∧
      ¬ WorkRemains (next exampleConfig h.state writeItem) writingReader ∧
      ∃ k, Execution (recorded exampleConfig) h [writeItem, .complete 0 0 0] k ∧
        (∃ row, k.state.groups "group-1" = some row ∧ row.Sendable) ∧
        ¬ WorkRemains k.state writingReader ∧
        ∀ id item, k.state.items id = some item → item.Terminal := by
  have hvalid : ValidTrace (recorded exampleConfig) knownGroup
      (deniedEvents ++ [writeItem, .complete 0 0 0]) := by decide +kernel
  obtain ⟨hbefore, hafter⟩ := valid_trace_append.mp hvalid
  have hitems : ∀ id, id ≠ 7 →
      (runTrace (recorded exampleConfig) knownGroup deniedEvents).state.items id = none := by
    intro id hne
    refine unpublished_along rfl ?_
    simpa [deniedEvents, publishedBy] using hne
  have hwritten : ∀ id, id ≠ 7 → (next exampleConfig
      (runTrace (recorded exampleConfig) knownGroup deniedEvents).state writeItem).items id =
        none := by
    intro id hne
    exact unpublished_step (next_outcome _ _ _) (hitems id hne) (by simp [publishedBy, writeItem])
  have hcompleted : ∀ id, id ≠ 7 → (runTrace (recorded exampleConfig)
      (runTrace (recorded exampleConfig) knownGroup deniedEvents)
        [writeItem, .complete 0 0 0]).state.items id = none := by
    intro id hne
    exact unpublished_along (hitems id hne) (by simp [publishedBy, writeItem])
  refine ⟨_, ⟨_, valid_trace_run (known_group_initial _) hbefore⟩, hafter.1, by decide +kernel,
    ⟨2, 3, by decide +kernel, by decide +kernel, by omega⟩, ⟨_, rfl, by decide +kernel⟩,
    nothing_remains hwritten rfl (by decide +kernel), _, valid_trace_execution hafter,
    ⟨_, rfl, by decide +kernel⟩, nothing_remains hcompleted rfl (by decide +kernel), ?_⟩
  intro id item hitem
  by_cases hid : id = 7
  · subst hid
    revert hitem
    generalize hrow : (runTrace (recorded exampleConfig)
      (runTrace (recorded exampleConfig) knownGroup deniedEvents)
        [writeItem, .complete 0 0 0]).state.items 7 = row
    have hterminal : ∀ item ∈ row, item.Terminal := by
      rw [← hrow]
      decide +kernel
    exact hterminal item
  · rw [hcompleted id hid] at hitem
    cases hitem

end Writes

end StaleGroupReads
