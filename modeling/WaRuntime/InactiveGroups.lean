import WaRuntime.GroupCapabilityRevision

/-! Whether an inactive group is DENIED.
A refresh reports its failure under the lease token and the revision of its claim, so the state
keeps both beside the table, under the token, which the database draws anew for every claim. -/
namespace InactiveGroups

open TransitionRuns GroupCapabilityStatements GroupCapabilityRevision

abbrev Token := ℕ

structure State where
  groups : Groups
  claimed : Token → Option (GroupKey × ℕ)

def Enabled (s : State) : GroupEvent → Prop
  | .claim _ _ token _ _ => s.claimed token = none
  | .failAttempt key _ expectedRevision token _ _ => s.claimed token = some (key, expectedRevision)
  | _ => True

instance (s : State) : (e : GroupEvent) → Decidable (Enabled s e)
  | .claim _ _ token _ _ => inferInstanceAs (Decidable (s.claimed token = none))
  | .failAttempt key _ revision token _ _ =>
    inferInstanceAs (Decidable (s.claimed token = some (key, revision)))
  | .invalidate .. | .invalidateByEvent .. | .recoverExpired .. | .replaceSummaries ..
  | .upsertGroupDetails .. => isTrue trivial

/-- A claim that updates no row returns no token. -/
def claimedAfter (s : State) : GroupEvent → Token → Option (GroupKey × ℕ)
  | .claim key now token expectedRevision discovering =>
    if ((s.groups key).bind (claimRefresh now token expectedRevision discovering)).isSome then
      Function.update s.claimed token (some (key, expectedRevision))
    else s.claimed
  | _ => s.claimed

def Denied (row : GroupRow) : Prop :=
  row.sendCapability = .denied ∧ row.sendCapabilityReason = .groupInactive

instance (row : GroupRow) : Decidable (Denied row) := inferInstanceAs (Decidable (_ ∧ _))

/-- Migration 004 denies the inactive groups and no other one for this reason, and leaves no
group invalidated and no refresh claimed. -/
def Initial (s : State) : Prop :=
  (∀ key row, s.groups key = some row → (row.isActive = false ↔ Denied row) ∧
    row.capabilityInvalidatedAt = none ∧ row.capabilityRefreshLeaseToken = none) ∧
  ∀ token, s.claimed token = none

def system : System State GroupEvent where
  initial := Initial
  enabled := Enabled
  next s e := ⟨next s.groups e, claimedAfter s e⟩

instance (s : State) (e : GroupEvent) : Decidable (system.enabled s e) :=
  inferInstanceAs (Decidable (Enabled s e))

/-- A recovery that finds no inactive group whose refresh lease has expired. -/
def Spared (s : State) : GroupEvent → Prop
  | .recoverExpired now => ∀ key row, s.groups key = some row → row.isActive = false →
      row.capabilityRefreshLeaseToken.isSome → ¬ Expired now row.capabilityRefreshLeaseExpiresAt
  | _ => True

def AllDenied (s : State) : Prop :=
  ∀ key row, s.groups key = some row → row.isActive = false → Denied row

section Rows

/-- Deactivation leaves the lease and outdates its revision. -/
structure Sound (claimed : Token → Option (GroupKey × ℕ)) (key : GroupKey) (row : GroupRow) :
    Prop where
  lease : ∀ token, row.capabilityRefreshLeaseToken = some token →
    ∃ revision, claimed token = some (key, revision) ∧ revision ≤ row.capabilityRevision ∧
      (row.isActive = false → revision < row.capabilityRevision)
  denied : row.isActive = false → Denied row ∧ row.capabilityInvalidatedAt = none
  active : row.isActive = true → ¬ Denied row

variable {claimed : Token → Option (GroupKey × ℕ)} {key : GroupKey} {row new : GroupRow}
  {now token revision : ℕ}

theorem unknown_not_denied (h : row.sendCapability = .unknown) : ¬ Denied row := by
  intro hd
  rw [hd.1] at h
  cases h

/-- An active group without a refresh lease. -/
theorem sound_of_unleased (ha : row.isActive = true)
    (hlease : row.capabilityRefreshLeaseToken = none) (hd : ¬ Denied row) :
    Sound claimed key row := by
  refine ⟨fun token htoken => ?_, fun hi => ?_, fun _ => hd⟩
  · rw [hlease] at htoken
    cases htoken
  · exact absurd (ha.symm.trans hi) (by decide)

theorem invalidate_kept {reason : GroupSendCapabilityReason}
    (h : invalidate now reason row = some new) : Sound claimed key new := by
  unfold invalidate at h
  split at h
  · rename_i ha
    cases h
    exact sound_of_unleased ha rfl (unknown_not_denied rfl)
  · cases h

theorem invalidateByEvent_kept (hs : Sound claimed key row)
    (h : invalidateByEvent now row = some new) : Sound claimed key new := by
  unfold invalidateByEvent at h
  split at h
  · rename_i ha
    cases h
    refine ⟨fun token htoken => ?_, fun hi => ?_, fun _ => unknown_not_denied rfl⟩
    · obtain ⟨revision, hclaimed, hle, _⟩ := hs.lease token htoken
      exact ⟨revision, hclaimed, Nat.le_succ_of_le hle, fun _ => Nat.lt_succ_of_le hle⟩
    · exact absurd (ha.symm.trans hi) (by decide)
  · cases h

theorem claim_kept {discovering : Bool} (hs : Sound claimed key row)
    (hclaimed : claimed token = some (key, revision))
    (h : claimRefresh now token revision discovering row = some new) : Sound claimed key new := by
  unfold claimRefresh at h
  split at h
  · rename_i hclaim
    obtain ⟨hrevision, ⟨ha, _⟩, _⟩ := hclaim
    cases h
    refine ⟨fun other hother => ?_, fun hi => ?_, hs.active⟩
    · cases hother
      refine ⟨revision, hclaimed, hrevision.ge, fun hi => ?_⟩
      exact absurd (ha.symm.trans hi) (by decide)
    · exact absurd (ha.symm.trans hi) (by decide)
  · cases h

/-- A refresh that reports its failure finds an active group. -/
theorem fail_kept {error : String} {retryable : Bool} (hs : Sound claimed key row)
    (hclaimed : claimed token = some (key, revision))
    (h : failRefreshAttempt now revision token error retryable row = some new) :
    Sound claimed key new := by
  unfold failRefreshAttempt at h
  split at h
  · rename_i howned
    obtain ⟨hrevision, htoken, _⟩ := howned
    obtain ⟨claimedAt, hat, _, houtdated⟩ := hs.lease token htoken
    rw [hclaimed] at hat
    cases hat
    have ha : row.isActive = true := by
      by_contra hi
      have hlt := houtdated (by simpa using hi)
      omega
    split at h
    · cases h
      exact sound_of_unleased ha rfl (unknown_not_denied rfl)
    · cases h
      exact sound_of_unleased ha rfl (unknown_not_denied rfl)
  · cases h

theorem recover_kept (hs : Sound claimed key row)
    (hspared : row.isActive = false → row.capabilityRefreshLeaseToken.isSome →
      ¬ Expired now row.capabilityRefreshLeaseExpiresAt)
    (h : recoverExpiredRefresh now row = some new) : Sound claimed key new := by
  unfold recoverExpiredRefresh at h
  split at h
  · rename_i hfound
    have ha : row.isActive = true := by
      by_contra hi
      have hi : row.isActive = false := by simpa using hi
      obtain ⟨hlease, hexpired⟩ | ⟨hinvalid, _⟩ := hfound
      · exact hspared hi hlease hexpired
      · simp [(hs.denied hi).2] at hinvalid
    cases h
    exact sound_of_unleased ha rfl (unknown_not_denied rfl)
  · cases h

theorem listed_kept (summary : OpenWAGroupSummary) {old : Option GroupRow}
    (hs : ∀ row, old = some row → Sound claimed key row) :
    Sound claimed key (updateGroup (denyInactive now) (upsertSummary now summary old)) := by
  have hkeep : ∀ row : GroupRow, row.isActive = true → updateGroup (denyInactive now) row = row := by
    intro row ha
    simp [updateGroup, denyInactive, ha]
  cases old with
  | none =>
    rw [hkeep _ rfl]
    exact sound_of_unleased rfl rfl (unknown_not_denied rfl)
  | some row =>
    obtain ⟨hlease, hdenied, hactive⟩ := hs row rfl
    cases ha : row.isActive with
    | true =>
      have hrow : upsertSummary now summary (some row) =
          { row with isAdmin := coalesce summary.isAdmin row.isAdmin } := by
        simp [upsertSummary, ha]
      rw [hrow, hkeep { row with isAdmin := coalesce summary.isAdmin row.isAdmin } ha]
      exact ⟨hlease, hdenied, hactive⟩
    | false =>
      have hrow : (upsertSummary now summary (some row)).isActive = true ∧
          (upsertSummary now summary (some row)).sendCapability = .unknown ∧
          (upsertSummary now summary (some row)).capabilityRevision =
            row.capabilityRevision + 1 ∧
          (upsertSummary now summary (some row)).capabilityRefreshLeaseToken =
            row.capabilityRefreshLeaseToken := by
        simp [upsertSummary, ha]
      obtain ⟨hnow, hunknown, hrevision, htoken⟩ := hrow
      rw [hkeep _ hnow]
      refine ⟨fun token hsome => ?_, fun hi => ?_, fun _ => unknown_not_denied hunknown⟩
      · obtain ⟨revision, hclaimed, hle, _⟩ := hlease token (htoken.symm.trans hsome)
        exact ⟨revision, hclaimed, by omega, fun _ => by omega⟩
      · exact absurd (hnow.symm.trans hi) (by decide)

theorem unlisted_kept (hs : Sound claimed key row) :
    Sound claimed key (updateGroup (denyInactive now) (deactivate row)) := by
  cases ha : row.isActive with
  | true =>
    -- No active group is DENIED for this reason, so the third statement always finds it.
    have hopen : row.sendCapability ≠ .denied ∨ row.sendCapabilityReason ≠ .groupInactive := by
      by_contra hdenied
      simp only [not_or, not_not] at hdenied
      exact hs.active ha hdenied
    have hdeny : denyInactive now (deactivate row) = some { deactivate row with
        sendCapability := .denied
        sendCapabilityReason := .groupInactive
        capabilityCheckedAt := some now
        capabilityInvalidatedAt := none
        capabilityRevision := row.capabilityRevision + 1 } := if_pos ⟨rfl, hopen⟩
    rw [updateGroup, hdeny]
    refine ⟨fun token htoken => ?_, fun _ => ⟨⟨rfl, rfl⟩, rfl⟩, fun hactive => ?_⟩
    · obtain ⟨revision, hclaimed, hle, _⟩ := hs.lease token htoken
      exact ⟨revision, hclaimed, Nat.le_succ_of_le hle, fun _ => Nat.lt_succ_of_le hle⟩
    · cases hactive
  | false =>
    obtain ⟨⟨hstatus, hreason⟩, _⟩ := hs.denied ha
    have hsame : deactivate row = row := by
      unfold deactivate
      rw [← ha]
    have hskip : denyInactive now row = none := by simp [denyInactive, hstatus, hreason]
    rw [hsame, updateGroup, hskip]
    exact hs

theorem details_kept (group : OpenWAGroup) (isAdmin : Option Bool) (seen old : Option GroupRow) :
    Sound claimed key (upsertDetails now group isAdmin (detailsCapability group seen) old) := by
  have hreason : (detailsCapability group seen).reason ≠ .groupInactive := by
    unfold detailsCapability evaluateGroupCapability
    simp only [Bool.not_true, Bool.false_eq_true, if_false]
    repeat' split
    all_goals simp
  cases old with
  | none => exact sound_of_unleased rfl rfl fun hd => hreason hd.2
  | some row => exact sound_of_unleased rfl rfl fun hd => hreason hd.2

theorem sound_grow {larger : Token → Option (GroupKey × ℕ)} (hs : Sound claimed key row)
    (h : ∀ token holder, claimed token = some holder → larger token = some holder) :
    Sound larger key row := by
  refine ⟨fun token htoken => ?_, hs.denied, hs.active⟩
  obtain ⟨revision, hclaimed, hrest⟩ := hs.lease token htoken
  exact ⟨revision, h token _ hclaimed, hrest⟩

end Rows

section Runs

variable {s : State} {e : GroupEvent} {key : GroupKey} {row : GroupRow}

def AllSound (s : State) : Prop := ∀ key row, s.groups key = some row → Sound s.claimed key row

/-- A token names one claim for ever. -/
theorem claimed_grows (he : Enabled s e) (token : Token) (holder : GroupKey × ℕ)
    (h : s.claimed token = some holder) : claimedAfter s e token = some holder := by
  cases e with
  | claim other now fresh expectedRevision discovering =>
    simp only [claimedAfter]
    split
    · have hfresh : s.claimed fresh = none := he
      have hne : token ≠ fresh := by
        intro heq
        rw [heq, hfresh] at h
        cases h
      rw [Function.update_of_ne hne]
      exact h
    · exact h
  | invalidate | invalidateByEvent | failAttempt | recoverExpired | replaceSummaries
  | upsertGroupDetails => exact h

/-- An UPDATE of one group leaves the other rows. -/
theorem update_kept {claimed : Token → Option (GroupKey × ℕ)} {other : GroupKey}
    {f : GroupRow → Option GroupRow}
    (hs : ∀ key row, s.groups key = some row → Sound claimed key row)
    (hf : ∀ row new, s.groups other = some row → f row = some new → Sound claimed other new)
    (hrow : Function.update s.groups other ((s.groups other).map (updateGroup f)) key = some row) :
    Sound claimed key row := by
  by_cases hk : key = other
  · subst hk
    rw [Function.update_self] at hrow
    obtain ⟨old, hold, rfl⟩ := Option.map_eq_some_iff.mp hrow
    unfold updateGroup
    cases hnew : f old with
    | none => exact hs key old hold
    | some new => exact hf old new hold hnew
  · rw [Function.update_of_ne hk] at hrow
    exact hs key row hrow

theorem sound_step (hs : AllSound s) (he : Enabled s e) (hspared : Spared s e) :
    AllSound (system.next s e) := by
  intro key row hrow
  have hgrown : ∀ key row, s.groups key = some row → Sound (claimedAfter s e) key row :=
    fun key row hrow => sound_grow (hs key row hrow) (claimed_grows he)
  cases e with
  | invalidate other now reason =>
    exact update_kept hgrown (fun _ _ _ hnew => invalidate_kept hnew) hrow
  | invalidateByEvent other now =>
    exact update_kept hgrown (fun old _ hold => invalidateByEvent_kept (hgrown other old hold)) hrow
  | claim other now token expectedRevision discovering =>
    refine update_kept hgrown (fun old new hold hnew => ?_) hrow
    refine claim_kept (hgrown other old hold) ?_ hnew
    change claimedAfter s (.claim other now token expectedRevision discovering) token = _
    simp [claimedAfter, hold, hnew]
  | failAttempt other now expectedRevision token error retryable =>
    exact update_kept hgrown (fun old _ hold => fail_kept (hgrown other old hold) he) hrow
  | recoverExpired now =>
    obtain ⟨old, hold, rfl⟩ := Option.map_eq_some_iff.mp hrow
    unfold updateGroup
    cases hnew : recoverExpiredRefresh now old with
    | none => exact hs key old hold
    | some new => exact recover_kept (hs key old hold) (hspared key old hold) hnew
  | replaceSummaries sessionId now listed =>
    have hrow : next s.groups (.replaceSummaries sessionId now listed) key = some row := hrow
    simp only [next] at hrow
    split at hrow
    · unfold replaceSummary at hrow
      split at hrow
      · cases hrow
        exact listed_kept _ (hs key)
      · obtain ⟨old, hold, rfl⟩ := Option.map_eq_some_iff.mp hrow
        exact unlisted_kept (hs key old hold)
    · exact hs key row hrow
  | upsertGroupDetails other now options group found =>
    have hrow : next s.groups (.upsertGroupDetails other now options group found) key =
        some row := hrow
    simp only [next] at hrow
    by_cases hk : key = other
    · subst hk
      rw [Function.update_self, upsertGroupDetails] at hrow
      by_cases hmet : options.Met now (if found then s.groups key else none)
      · rw [if_pos hmet] at hrow
        cases hrow
        exact details_kept group _ _ _
      · rw [if_neg hmet] at hrow
        exact hs key row hrow
    · rw [Function.update_of_ne hk] at hrow
      exact hs key row hrow

theorem reachable_sound (h : Reachable (restrict system Spared) s) : AllSound s := by
  refine reachable_invariant (I := AllSound) ?_ ?_ h
  · rintro start ⟨hrows, _⟩ key row hrow
    obtain ⟨hdenied, hinvalid, hlease⟩ := hrows key row hrow
    refine ⟨fun token htoken => ?_, fun hi => ⟨hdenied.mp hi, hinvalid⟩, fun ha hd => ?_⟩
    · rw [hlease] at htoken
      cases htoken
    · exact absurd (ha.symm.trans (hdenied.mpr hd)) (by decide)
  · rintro s e hs ⟨he, hspared⟩
    exact sound_step hs he hspared

theorem all_denied_of_sound (h : AllSound s) : AllDenied s :=
  fun key row hrow hi => ((h key row hrow).denied hi).1

/-- A recovery that finds such a group leaves it UNKNOWN. -/
theorem spared_of_denied (h : AllDenied (system.next s e)) : Spared s e := by
  cases e with
  | recoverExpired now =>
    intro key row hrow hi hlease hexpired
    have hfound : (row.capabilityRefreshLeaseToken.isSome ∧
        Expired now row.capabilityRefreshLeaseExpiresAt) ∨
        (row.capabilityInvalidatedAt.isSome ∧ row.capabilityRefreshLeaseToken = none ∧
          refreshMaxAttempts ≤ row.capabilityRefreshAttemptCount) := .inl ⟨hlease, hexpired⟩
    obtain ⟨hdenied, _⟩ := h key (updateGroup (recoverExpiredRefresh now) row)
      (by simp [system, next, hrow]) (by simp [updateGroup, recoverExpiredRefresh, hfound, hi])
    simp [updateGroup, recoverExpiredRefresh, hfound] at hdenied
  | invalidate | invalidateByEvent | claim | failAttempt | replaceSummaries
  | upsertGroupDetails => trivial

/-- While no recovery finds an inactive group under an expired refresh lease, every inactive group
is DENIED, and the next step keeps it so exactly when it is no such recovery. -/
theorem inactive_groups_denied_iff (hr : Reachable (restrict system Spared) s) :
    AllDenied s ∧
      ∀ e, system.enabled s e → (AllDenied (system.next s e) ↔ Spared s e) := by
  refine ⟨all_denied_of_sound (reachable_sound hr), fun e he => ⟨spared_of_denied, fun hok => ?_⟩⟩
  exact all_denied_of_sound (sound_step (reachable_sound hr) he hok)

def empty : State where
  groups _ := none
  claimed _ := none

theorem empty_initial : system.initial empty := by
  refine ⟨fun key row hrow => ?_, fun _ => rfl⟩
  cases hrow

/-- The group leaves while its refresh is under way. -/
def leavesUnderRefresh : List GroupEvent :=
  [.upsertGroupDetails ("session-1", "group-1") 1 ⟨none, none⟩
      ⟨some false, some false, some false, none⟩ true,
    .invalidateByEvent ("session-1", "group-1") 2,
    .claim ("session-1", "group-1") 3 7 2 false,
    .replaceSummaries "session-1" 4 fun _ => none]

theorem left_group_denied :
    ∃ row, (runTrace system empty leavesUnderRefresh).groups ("session-1", "group-1") = some row ∧
      row.isActive = false ∧ Denied row ∧ row.capabilityRefreshLeaseToken = some 7 := by
  have hvalid : ValidTrace (restrict system Spared) empty leavesUnderRefresh := by
    refine ⟨⟨?_, trivial⟩, ⟨?_, trivial⟩, ⟨?_, trivial⟩, ⟨?_, trivial⟩, trivial⟩ <;> decide
  have hreach : Reachable (restrict system Spared) (runTrace system empty leavesUnderRefresh) :=
    ⟨_, valid_trace_restricted_run empty_initial hvalid⟩
  have hrow : ((runTrace system empty leavesUnderRefresh).groups ("session-1", "group-1")).any
      (fun row => !row.isActive && row.capabilityRefreshLeaseToken == some 7) = true := by decide
  obtain ⟨row, hrow, hfacts⟩ := (Option.any_eq_true _ _).mp hrow
  simp only [Bool.and_eq_true, Bool.not_eq_true', beq_iff_eq] at hfacts
  exact ⟨row, hrow, hfacts.1, (inactive_groups_denied_iff hreach).1 _ row hrow hfacts.1, hfacts.2⟩

/-- The recovery of its lease makes the group UNKNOWN. -/
theorem recovered_group_unknown :
    ∃ s key row, Reachable system s ∧ s.groups key = some row ∧ row.isActive = false ∧
      row.sendCapability = .unknown := by
  have hvalid : ValidTrace system empty (leavesUnderRefresh ++ [.recoverExpired 200000]) := by
    refine ⟨?_, ?_, ?_, ?_, ?_, trivial⟩ <;> decide
  have hrow : ((runTrace system empty (leavesUnderRefresh ++ [.recoverExpired 200000])).groups
      ("session-1", "group-1")).any
      (fun row => !row.isActive && row.sendCapability == .unknown) = true := by decide
  obtain ⟨row, hrow, hfacts⟩ := (Option.any_eq_true _ _).mp hrow
  simp only [Bool.and_eq_true, Bool.not_eq_true', beq_iff_eq] at hfacts
  exact ⟨_, _, row, ⟨_, valid_trace_run empty_initial hvalid⟩, hrow, hfacts⟩

end Runs

end InactiveGroups
