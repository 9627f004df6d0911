import WaRuntime.GatewayRateLimitStatements
import WaRuntime.GroupIntentStatements

/-! The statements that write `gateway_sync_items`, each on one row.
An UPDATE gives `none` where its WHERE clause fails. `ordinal`, `reason` and the fingerprint, which
no transition looks at, and `updated_at` are left out. -/
namespace GatewaySyncItemStatements

open GroupCapabilityStatements (Expired Unexpired)
open GatewayRateLimitStatements (leaseOf leaseOf_eq_some groupReadLeaseMs)
open GroupIntentStatements (retryDelayMs)
open SharedLeases (Lease)

inductive GatewaySyncItemStatus where
  | pending
  | running
  | retry
  | completed
  | failed
  | skipped
  deriving DecidableEq, Repr

structure SyncItemRow where
  syncRunId : ℕ
  groupId : String
  status : GatewaySyncItemStatus
  attemptCount : ℕ
  nextAttemptAt : ℕ
  leaseToken : Option ℕ
  leaseExpiresAt : Option ℕ
  membersSynced : ℕ
  error : Option String
  startedAt : Option ℕ
  completedAt : Option ℕ
  deriving DecidableEq, Repr

/-- A row that `publishDiscovery` inserts. -/
def insertItem (now syncRunId : ℕ) (groupId : String) : SyncItemRow where
  syncRunId := syncRunId
  groupId := groupId
  status := .pending
  attemptCount := 0
  nextAttemptAt := now
  leaseToken := none
  leaseExpiresAt := none
  membersSynced := 0
  error := none
  startedAt := none
  completedAt := none

def SyncItemRow.Terminal (item : SyncItemRow) : Prop :=
  item.status ∈ [.completed, .failed, .skipped]

instance (item : SyncItemRow) : Decidable item.Terminal := inferInstanceAs (Decidable (_ ∈ _))

def claim (maxAttempts now token : ℕ) (item : SyncItemRow) : Option SyncItemRow :=
  if item.status ∈ [.pending, .retry] ∧ item.nextAttemptAt ≤ now ∧
      item.attemptCount < maxAttempts then
    some { item with
      status := .running
      attemptCount := item.attemptCount + 1
      leaseToken := some token
      leaseExpiresAt := some (now + groupReadLeaseMs)
      startedAt := item.startedAt.or (some now)
      error := none }
  else none

/-- The WHERE clause by which a reader's writes look for its own unexpired lease. -/
def Owned (now token : ℕ) (item : SyncItemRow) : Prop :=
  item.status = .running ∧ item.leaseToken = some token ∧ Unexpired now item.leaseExpiresAt

instance (now token : ℕ) (item : SyncItemRow) : Decidable (Owned now token item) :=
  inferInstanceAs (Decidable (_ ∧ _))

def renewLease (now token : ℕ) (item : SyncItemRow) : Option SyncItemRow :=
  if Owned now token item then
    some { item with leaseExpiresAt := some (now + groupReadLeaseMs) }
  else none

/-- The renewal within `upsertGroupDetails`; `time` is its `clock_timestamp()`. -/
def renewAfterWrite (time token : ℕ) (item : SyncItemRow) : Option SyncItemRow :=
  if item.status = .running ∧ item.leaseToken = some token then
    some { item with leaseExpiresAt := some (time + groupReadLeaseMs) }
  else none

def complete (now token members : ℕ) (item : SyncItemRow) : Option SyncItemRow :=
  if Owned now token item then
    some { item with
      status := .completed
      membersSynced := members
      leaseToken := none
      leaseExpiresAt := none
      completedAt := some now }
  else none

def skip (now token : ℕ) (error : String) (item : SyncItemRow) : Option SyncItemRow :=
  if Owned now token item then
    some { item with
      status := .skipped
      error := some error
      leaseToken := none
      leaseExpiresAt := none
      completedAt := some now }
  else none

def fail (maxAttempts now token random : ℕ) (error : String) (retryable : Bool)
    (item : SyncItemRow) : Option SyncItemRow :=
  if Owned now token item then
    let willRetry := retryable ∧ item.attemptCount < maxAttempts
    some { item with
      status := if willRetry then .retry else .failed
      error := some error
      nextAttemptAt :=
        if willRetry then now + retryDelayMs item.attemptCount random else item.nextAttemptAt
      leaseToken := none
      leaseExpiresAt := none
      completedAt := if willRetry then none else some now }
  else none

def recoverExpired (maxAttempts now : ℕ) (item : SyncItemRow) : Option SyncItemRow :=
  if item.status = .running ∧ Expired now item.leaseExpiresAt then
    some { item with
      status := if maxAttempts ≤ item.attemptCount then .failed else .retry
      nextAttemptAt := now
      leaseToken := none
      leaseExpiresAt := none
      error := some "Recovered expired group reconciliation lease"
      completedAt := if maxAttempts ≤ item.attemptCount then some now else none }
  else none

def SyncItemRow.lease (item : SyncItemRow) : Option Lease :=
  leaseOf item.leaseToken item.leaseExpiresAt

section Leases

variable {maxAttempts now token members random time : ℕ} {error : String} {retryable : Bool}
  {item new : SyncItemRow}

theorem owned_lease (h : Owned now token item) :
    ∃ old, item.lease = some old ∧ old.token = token := by
  obtain ⟨_, htoken, expiresAt, hexpires, _⟩ := h
  exact ⟨⟨token, expiresAt⟩, leaseOf_eq_some.mpr ⟨htoken, hexpires⟩, rfl⟩

theorem claim_some (h : claim maxAttempts now token item = some new) :
    new.lease = some ⟨token, now + groupReadLeaseMs⟩ := by
  unfold claim at h
  split at h
  · cases h
    rfl
  · cases h

theorem renewLease_some (h : renewLease now token item = some new) :
    Owned now token item ∧ new.lease = some ⟨token, now + groupReadLeaseMs⟩ := by
  unfold renewLease at h
  split at h
  · rename_i howned
    cases h
    exact ⟨howned, leaseOf_eq_some.mpr ⟨howned.2.1, rfl⟩⟩
  · cases h

theorem renewAfterWrite_some (h : renewAfterWrite time token item = some new) :
    new.lease = some ⟨token, time + groupReadLeaseMs⟩ := by
  unfold renewAfterWrite at h
  split at h
  · rename_i hrunning
    cases h
    exact leaseOf_eq_some.mpr ⟨hrunning.2, rfl⟩
  · cases h

theorem complete_some (h : complete now token members item = some new) :
    Owned now token item ∧ new.lease = none := by
  unfold complete at h
  split at h
  · rename_i howned
    cases h
    exact ⟨howned, rfl⟩
  · cases h

theorem skip_some (h : skip now token error item = some new) :
    Owned now token item ∧ new.lease = none := by
  unfold skip at h
  split at h
  · rename_i howned
    cases h
    exact ⟨howned, rfl⟩
  · cases h

theorem fail_some (h : fail maxAttempts now token random error retryable item = some new) :
    Owned now token item ∧ new.lease = none := by
  unfold fail at h
  split at h
  · rename_i howned
    cases h
    exact ⟨howned, rfl⟩
  · cases h

theorem recoverExpired_some (h : recoverExpired maxAttempts now item = some new) :
    new.lease = none := by
  unfold recoverExpired at h
  split at h
  · cases h
    rfl
  · cases h

end Leases

end GatewaySyncItemStatements
