import Mathlib.Logic.Function.Basic
import Mathlib.Order.Nat
import WaRuntime.GroupCapabilityStatements
import WaRuntime.TransitionRuns

/-! The capability revision as a version stamp.
The table is changed by one committed transaction at a time: each writer locks a row from its
first write to its commit, so what it does to the row is one step. Instants and tokens are
arguments of the events, since nothing here depends on their order. -/
namespace GroupCapabilityRevision

open TransitionRuns GroupCapabilityStatements

abbrev GroupKey := String × String

abbrev Groups := GroupKey → Option GroupRow

/-- An UPDATE of one row. -/
def updateGroup (f : GroupRow → Option GroupRow) (row : GroupRow) : GroupRow := (f row).getD row

/-- The three statements of `replaceSummaries` on one row of the session. -/
def replaceSummary (now : ℕ) (listed : Option OpenWAGroupSummary) (row : Option GroupRow) :
    Option GroupRow :=
  match listed with
  | some summary => some (updateGroup (denyInactive now) (upsertSummary now summary row))
  | none => row.map fun row => updateGroup (denyInactive now) (deactivate row)

/-- `upsertGroupDetails`; `seen` is what its locking SELECT found. -/
def upsertGroupDetails (now : ℕ) (options : DetailsOptions) (group : OpenWAGroup)
    (seen row : Option GroupRow) : Option GroupRow :=
  if options.Met now seen then
    some (upsertDetails now group (coalesce group.isAdmin (seen.bind GroupRow.isAdmin))
      (detailsCapability group seen) row)
  else row

inductive GroupEvent where
  | invalidate (key : GroupKey) (now : ℕ) (reason : GroupSendCapabilityReason)
  | invalidateByEvent (key : GroupKey) (now : ℕ)
  | claim (key : GroupKey) (now token expectedRevision : ℕ) (discovering : Bool)
  | failAttempt (key : GroupKey) (now expectedRevision token : ℕ) (error : String)
      (retryable : Bool)
  | recoverExpired (now : ℕ)
  | replaceSummaries (sessionId : String) (now : ℕ) (listed : String → Option OpenWAGroupSummary)
  | upsertGroupDetails (key : GroupKey) (now : ℕ) (options : DetailsOptions) (group : OpenWAGroup)
      (found : Bool)

/-- Where the locking SELECT found no row, another transaction may have inserted one since. -/
def next (groups : Groups) : GroupEvent → Groups
  | .invalidate key now reason =>
    Function.update groups key ((groups key).map (updateGroup (invalidate now reason)))
  | .invalidateByEvent key now =>
    Function.update groups key ((groups key).map (updateGroup (invalidateByEvent now)))
  | .claim key now token expectedRevision discovering =>
    Function.update groups key
      ((groups key).map (updateGroup (claimRefresh now token expectedRevision discovering)))
  | .failAttempt key now expectedRevision token error retryable =>
    Function.update groups key
      ((groups key).map (updateGroup (failRefreshAttempt now expectedRevision token error retryable)))
  | .recoverExpired now => fun key => (groups key).map (updateGroup (recoverExpiredRefresh now))
  | .replaceSummaries sessionId now listed => fun key =>
    if key.1 = sessionId then replaceSummary now (listed key.2) (groups key) else groups key
  | .upsertGroupDetails key now options group found =>
    Function.update groups key
      (upsertGroupDetails now options group (if found then groups key else none) (groups key))

/-- A table that the migrations leave: the refresh columns come without leases, and no row has
been invalidated. -/
def Initial (groups : Groups) : Prop := ∀ key row, groups key = some row →
  row.capabilityInvalidatedAt = none ∧ row.capabilityRefreshLeaseToken = none

def system : System Groups GroupEvent where
  initial := Initial
  enabled _ _ := True
  next := next

/-- An invalidated group, or one under refresh, is not ALLOWED. -/
def Guarded (row : GroupRow) : Prop :=
  row.capabilityInvalidatedAt.isSome ∨ row.capabilityRefreshLeaseToken.isSome →
    row.sendCapability ≠ .allowed

/-- The revision does not go back, and while it stays the row is as sendable as before. -/
structure Stamped (old new : GroupRow) : Prop where
  grows : old.capabilityRevision ≤ new.capabilityRevision
  agrees : old.capabilityRevision = new.capabilityRevision → (old.Sendable ↔ new.Sendable)

section Writers

variable {now token revision : ℕ} {old mid new row : GroupRow}

theorem stamped_refl (row : GroupRow) : Stamped row row := ⟨le_rfl, fun _ => Iff.rfl⟩

theorem stamped_trans (h : Stamped old mid) (k : Stamped mid new) : Stamped old new where
  grows := h.grows.trans k.grows
  agrees heq := by
    have h₁ := h.grows
    have h₂ := k.grows
    exact (h.agrees (by omega)).trans (k.agrees (by omega))

theorem stamped_of_bump (h : old.capabilityRevision < new.capabilityRevision) : Stamped old new where
  grows := h.le
  agrees heq := absurd heq h.ne

/-- A write between two states that are not sendable needs no new revision. -/
theorem stamped_of_unsendable (hr : old.capabilityRevision = new.capabilityRevision)
    (ho : old.sendCapability ≠ .allowed) (hn : new.sendCapability ≠ .allowed) :
    Stamped old new where
  grows := hr.le
  agrees _ := iff_of_false (fun h => ho h.1) fun h => hn h.1

theorem guarded_of_unsendable (h : row.sendCapability ≠ .allowed) : Guarded row := fun _ => h

theorem not_sendable_of_invalidated (hg : Guarded row) (h : row.capabilityInvalidatedAt.isSome) :
    ¬ row.Sendable := fun hs => hg (.inl h) hs.1

/-- What each writer owes: the guard stays, and the revision stamps the change. -/
def Sound (f : GroupRow → GroupRow) : Prop :=
  ∀ row, Guarded row → Guarded (f row) ∧ Stamped row (f row)

theorem sound_update {f : GroupRow → Option GroupRow}
    (h : ∀ row new, Guarded row → f row = some new → Guarded new ∧ Stamped row new) :
    Sound (updateGroup f) := by
  intro row hg
  unfold updateGroup
  cases hf : f row with
  | none => exact ⟨hg, stamped_refl row⟩
  | some new => exact h row new hg hf

theorem invalidate_sound (now : ℕ) (reason : GroupSendCapabilityReason) :
    Sound (updateGroup (invalidate now reason)) := by
  refine sound_update fun row new _ h => ?_
  unfold invalidate at h
  split at h
  · cases h
    exact ⟨guarded_of_unsendable (by simp), stamped_of_bump (by simp)⟩
  · cases h

theorem invalidate_by_event_sound (now : ℕ) : Sound (updateGroup (invalidateByEvent now)) := by
  refine sound_update fun row new _ h => ?_
  unfold invalidateByEvent at h
  split at h
  · cases h
    exact ⟨guarded_of_unsendable (by simp), stamped_of_bump (by simp)⟩
  · cases h

theorem claim_sound (now token expectedRevision : ℕ) (discovering : Bool) :
    Sound (updateGroup (claimRefresh now token expectedRevision discovering)) := by
  refine sound_update fun row new hg h => ?_
  unfold claimRefresh at h
  split at h
  · rename_i hclaim
    cases h
    -- Only an invalidated group is claimed.
    have hclosed : row.sendCapability ≠ .allowed := hg (.inl hclaim.2.1.2.1)
    exact ⟨guarded_of_unsendable hclosed, stamped_of_unsendable rfl hclosed hclosed⟩
  · cases h

theorem fail_attempt_sound (now expectedRevision token : ℕ) (error : String) (retryable : Bool) :
    Sound (updateGroup (failRefreshAttempt now expectedRevision token error retryable)) := by
  refine sound_update fun row new hg h => ?_
  unfold failRefreshAttempt at h
  split at h
  · rename_i hown
    have hclosed : row.sendCapability ≠ .allowed := hg (.inr (by simp [hown.2.1]))
    split at h
    · cases h
      exact ⟨guarded_of_unsendable (by simp), stamped_of_unsendable rfl hclosed (by simp)⟩
    · cases h
      exact ⟨guarded_of_unsendable (by simp), stamped_of_unsendable rfl hclosed (by simp)⟩
  · cases h

theorem recover_expired_sound (now : ℕ) : Sound (updateGroup (recoverExpiredRefresh now)) := by
  refine sound_update fun row new hg h => ?_
  unfold recoverExpiredRefresh at h
  split at h
  · rename_i hwhere
    have hclosed : row.sendCapability ≠ .allowed := by
      rcases hwhere with ⟨hlease, _⟩ | ⟨hinvalid, _⟩
      · exact hg (.inr hlease)
      · exact hg (.inl hinvalid)
    cases h
    exact ⟨guarded_of_unsendable (by simp), stamped_of_unsendable rfl hclosed (by simp)⟩
  · cases h

theorem upsert_summary_sound (now : ℕ) (summary : OpenWAGroupSummary) :
    Sound fun row => upsertSummary now summary (some row) := by
  intro row hg
  by_cases ha : row.isActive = true
  · simp only [upsertSummary, ha, if_true]
    exact ⟨hg, le_rfl, fun _ => Iff.rfl⟩
  · simp only [upsertSummary, ha]
    exact ⟨guarded_of_unsendable (by simp), stamped_of_bump (by simp)⟩

/-- A row that is left without a new revision was denied already. -/
theorem deny_inactive_sound (now : ℕ) : Sound (updateGroup (denyInactive now)) := by
  refine sound_update fun row new _ h => ?_
  unfold denyInactive at h
  split at h
  · cases h
    exact ⟨guarded_of_unsendable (by simp), stamped_of_bump (by simp)⟩
  · cases h

theorem deactivate_sound : Sound deactivate := fun _ hg => ⟨hg, le_rfl, fun _ => Iff.rfl⟩

theorem sound_comp {f g : GroupRow → GroupRow} (hf : Sound f) (hg : Sound g) :
    Sound fun row => g (f row) := by
  intro row hrow
  obtain ⟨hmid, hstamp⟩ := hf row hrow
  obtain ⟨hnew, hstamp'⟩ := hg (f row) hmid
  exact ⟨hnew, stamped_trans hstamp hstamp'⟩

/-- Details keep the revision only where they find the same status, and then an ALLOWED group was
not invalidated before. -/
theorem upsert_details_sound (now : ℕ) (group : OpenWAGroup) (isAdmin : Option Bool)
    (capability : GroupCapabilityDecision) :
    Sound fun row => upsertDetails now group isAdmin capability (some row) := by
  intro row hg
  refine ⟨fun hguard => by simp [upsertDetails] at hguard, ?_⟩
  by_cases hchange : row.sendCapability ≠ capability.status ∨
      row.sendCapabilityReason ≠ capability.reason
  · refine stamped_of_bump ?_
    simp [upsertDetails, hchange]
  · refine ⟨by simp [upsertDetails, hchange], fun _ => ?_⟩
    have hstatus : row.sendCapability = capability.status := by
      by_contra hne
      exact hchange (.inl hne)
    simp only [GroupRow.Sendable, upsertDetails, and_true, hstatus]
    constructor
    · intro hs
      exact hs.1
    · intro hallowed
      refine ⟨hallowed, ?_⟩
      by_contra hinvalid
      exact hg (.inl (Option.isSome_iff_ne_none.mpr hinvalid)) (hstatus.trans hallowed)

end Writers

section Runs

variable {groups later : Groups} {e : GroupEvent} {es : List GroupEvent}

def Inv (groups : Groups) : Prop := ∀ key row, groups key = some row → Guarded row

/-- What one step does to one row: nothing, a sound write, or an insert. -/
theorem row_step (groups : Groups) (e : GroupEvent) (key : GroupKey) :
    (∃ f, Sound f ∧ next groups e key = (groups key).map f) ∨
      (groups key = none ∧ ∀ new, next groups e key = some new → Guarded new) := by
  have hwrite : ∀ (other : GroupKey) (f : GroupRow → GroupRow), Sound f →
      ∃ g, Sound g ∧ Function.update groups other ((groups other).map f) key =
        (groups key).map g := by
    intro other f hf
    by_cases hk : key = other
    · subst hk
      exact ⟨f, hf, by simp⟩
    · exact ⟨id, fun row hg => ⟨hg, stamped_refl row⟩, by simp [hk]⟩
  have hkeep : ∃ f, Sound f ∧ groups key = (groups key).map f :=
    ⟨id, fun row hg => ⟨hg, stamped_refl row⟩, by simp⟩
  cases e with
  | invalidate other now reason => exact .inl (hwrite other _ (invalidate_sound now reason))
  | invalidateByEvent other now => exact .inl (hwrite other _ (invalidate_by_event_sound now))
  | claim other now token expectedRevision discovering =>
    exact .inl (hwrite other _ (claim_sound now token expectedRevision discovering))
  | failAttempt other now expectedRevision token error retryable =>
    exact .inl (hwrite other _ (fail_attempt_sound now expectedRevision token error retryable))
  | recoverExpired now => exact .inl ⟨_, recover_expired_sound now, rfl⟩
  | replaceSummaries sessionId now listed =>
    by_cases hs : key.1 = sessionId
    · simp only [next, hs, if_true]
      cases hl : listed key.2 with
      | none =>
        exact .inl ⟨_, sound_comp deactivate_sound (deny_inactive_sound now), rfl⟩
      | some summary =>
        cases hrow : groups key with
        | none =>
          refine .inr ⟨rfl, fun new hnew => ?_⟩
          simp only [replaceSummary, Option.some.injEq] at hnew
          rw [← hnew]
          refine (deny_inactive_sound now _ ?_).1
          exact guarded_of_unsendable (by simp [upsertSummary, GroupRow.inserted])
        | some row =>
          exact .inl ⟨_, sound_comp (upsert_summary_sound now summary) (deny_inactive_sound now),
            rfl⟩
    · simp only [next, hs, if_false]
      exact .inl hkeep
  | upsertGroupDetails other now options group found =>
    by_cases hk : key = other
    · subst hk
      simp only [next, Function.update_self, upsertGroupDetails]
      by_cases hmet : options.Met now (if found then groups key else none)
      · simp only [hmet, if_true]
        generalize (if found then groups key else none) = seen
        cases groups key with
        | none =>
          refine .inr ⟨rfl, fun new hnew => ?_⟩
          rw [← Option.some.inj hnew]
          intro hguard
          simp [upsertDetails, GroupRow.inserted] at hguard
        | some row => exact .inl ⟨_, upsert_details_sound now group _ _, rfl⟩
      · simp only [hmet, if_false]
        exact .inl hkeep
    · simp only [next, Function.update_of_ne hk]
      exact .inl hkeep

theorem inv_step (h : Inv groups) (e : GroupEvent) : Inv (next groups e) := by
  intro key new hnew
  obtain ⟨f, hf, heq⟩ | ⟨_, hinsert⟩ := row_step groups e key
  · rw [heq] at hnew
    obtain ⟨row, hrow, rfl⟩ := Option.map_eq_some_iff.mp hnew
    exact (hf row (h key row hrow)).1
  · exact hinsert new hnew

theorem reachable_inv (h : Reachable system groups) : Inv groups := by
  refine reachable_invariant (M := system) (I := Inv) (fun start hs key row hrow => ?_)
    (fun _ e hi _ => inv_step hi e) h
  obtain ⟨hinvalid, hlease⟩ := hs key row hrow
  intro hguard
  simp [hinvalid, hlease] at hguard

theorem stamped_step (h : Inv groups) (e : GroupEvent) {key : GroupKey} {row : GroupRow}
    (hrow : groups key = some row) : ∃ new, next groups e key = some new ∧ Stamped row new := by
  obtain ⟨f, hf, heq⟩ | ⟨hnone, _⟩ := row_step groups e key
  · rw [hrow] at heq
    exact ⟨f row, heq, (hf row (h key row hrow)).2⟩
  · rw [hrow] at hnone
    cases hnone

/-- A row stays in its table, and its revision stamps whatever has happened to it since. -/
theorem stamped_along (hr : Reachable system groups) (h : Execution system groups es later)
    {key : GroupKey} {row : GroupRow} (hrow : groups key = some row) :
    ∃ new, later key = some new ∧ Stamped row new := by
  refine related_along (M := system)
    (R := fun s t => ∀ key row, s key = some row → ∃ new, t key = some new ∧ Stamped row new)
    (fun s key row hrow => ⟨row, hrow, stamped_refl row⟩) ?_ hr h key row hrow
  intro s t e ht hst _ key row hrow
  obtain ⟨mid, hmid, hstamp⟩ := hst key row hrow
  obtain ⟨new, hnew, hstamp'⟩ := stamped_step (reachable_inv ht) e hmid
  exact ⟨new, hnew, stamped_trans hstamp hstamp'⟩

/-- What a consumer asks of a row: the revision it was shown, and ALLOWED. -/
def CarriesAllowed (revision : ℕ) (row : GroupRow) : Prop :=
  row.capabilityRevision = revision ∧ row.sendCapability = .allowed

/-- An invalidated group is not ALLOWED; two moments with one revision agree on whether the group
is ALLOWED and not invalidated; a consumer that compares the revision and the status never takes
an invalidated group for a sendable one. -/
theorem revision_is_version_stamp (hr : Reachable system groups)
    (h : Execution system groups es later) :
    (∀ key row, later key = some row → row.capabilityInvalidatedAt.isSome →
      row.sendCapability ≠ .allowed) ∧
      (∀ key row new, groups key = some row → later key = some new →
        row.capabilityRevision = new.capabilityRevision → (row.Sendable ↔ new.Sendable)) ∧
      ∀ key revision new, later key = some new → CarriesAllowed revision new →
        new.Sendable ∧ ∀ row, groups key = some row → row.capabilityRevision = revision →
          row.Sendable := by
  have hinv := reachable_inv (hr.extend h)
  have hagree : ∀ key row new, groups key = some row → later key = some new →
      row.capabilityRevision = new.capabilityRevision → (row.Sendable ↔ new.Sendable) := by
    intro key row new hrow hnew heq
    obtain ⟨new', hnew', hstamp⟩ := stamped_along hr h hrow
    rw [hnew] at hnew'
    cases hnew'
    exact hstamp.agrees heq
  refine ⟨fun key row hrow hinvalid => hinv key row hrow (.inl hinvalid), hagree, ?_⟩
  rintro key revision new hnew ⟨rfl, hallowed⟩
  have hsendable : new.Sendable := by
    refine ⟨hallowed, ?_⟩
    by_contra hinvalid
    exact hinv key new hnew (.inl (Option.isSome_iff_ne_none.mpr hinvalid)) hallowed
  exact ⟨hsendable, fun row hrow heq => (hagree key row new hrow hnew heq).mpr hsendable⟩

/-- A group becomes ALLOWED by its details and is invalidated by a webhook. -/
def invalidatedGroup : List GroupEvent :=
  [.upsertGroupDetails ("session-1", "group-1") 1 ⟨none, none⟩
      ⟨some false, some false, some false, none⟩ true,
    .invalidateByEvent ("session-1", "group-1") 2]

theorem invalidated_group_has_new_revision :
    ∃ row, runTrace system (fun _ => none) invalidatedGroup ("session-1", "group-1") = some row ∧
      row.capabilityInvalidatedAt.isSome ∧ row.sendCapability ≠ .allowed := by
  have hinit : Reachable system (fun _ => none) :=
    reachable_of_initial fun _ _ h => nomatch h
  have hvalid : ValidTrace system (fun _ => none) invalidatedGroup := ⟨trivial, trivial, trivial⟩
  have hrows : (runTrace system (fun _ => none) invalidatedGroup ("session-1", "group-1")).any
      (·.capabilityInvalidatedAt.isSome) = true := by decide
  obtain ⟨row, hrow, hinvalid⟩ := (Option.any_eq_true _ _).mp hrows
  exact ⟨row, hrow, hinvalid,
    (revision_is_version_stamp hinit (valid_trace_execution hvalid)).1 _ row hrow hinvalid⟩

end Runs

end GroupCapabilityRevision
