import Mathlib.Algebra.Group.Nat.Defs
import Mathlib.Data.Option.Basic
import Mathlib.Data.Nat.Notation

/-! The statements that write the capability columns of `gateway_groups`.
A row is modelled by the columns these statements and their readers look at; `none` is a group
without a row. Each UPDATE gives the new row, or `none` where its WHERE clause fails. -/
namespace GroupCapabilityStatements

inductive GroupSendCapabilityStatus where
  | allowed
  | denied
  | unknown
  deriving DecidableEq, Repr

inductive GroupSendCapabilityReason where
  | sendAllowed
  | groupInactive
  | groupReadOnly
  | adminOnly
  | adminStatusUnknown
  | metadataIncomplete
  | groupChanged
  | gatewayPermissionDenied
  | manualRefresh
  | refreshFailed
  deriving DecidableEq, Repr

/-- The text that the column holds. -/
def GroupSendCapabilityReason.text : GroupSendCapabilityReason → String
  | .sendAllowed => "SEND_ALLOWED"
  | .groupInactive => "GROUP_INACTIVE"
  | .groupReadOnly => "GROUP_READ_ONLY"
  | .adminOnly => "ADMIN_ONLY"
  | .adminStatusUnknown => "ADMIN_STATUS_UNKNOWN"
  | .metadataIncomplete => "METADATA_INCOMPLETE"
  | .groupChanged => "GROUP_CHANGED"
  | .gatewayPermissionDenied => "GATEWAY_PERMISSION_DENIED"
  | .manualRefresh => "MANUAL_REFRESH"
  | .refreshFailed => "REFRESH_FAILED"

structure GroupCapabilityInput where
  isActive : Bool
  isReadOnly : Option Bool
  isAnnounce : Option Bool
  isAdmin : Option Bool
  hasDetails : Bool
  deriving DecidableEq, Repr

structure GroupCapabilityDecision where
  status : GroupSendCapabilityStatus
  reason : GroupSendCapabilityReason
  deriving DecidableEq, Repr

def evaluateGroupCapability (input : GroupCapabilityInput) : GroupCapabilityDecision :=
  if !input.isActive then ⟨.denied, .groupInactive⟩
  else if !input.hasDetails then ⟨.unknown, .metadataIncomplete⟩
  else if input.isReadOnly = some true then ⟨.denied, .groupReadOnly⟩
  else if input.isAnnounce = some true ∧ input.isAdmin = some false then ⟨.denied, .adminOnly⟩
  else if input.isAnnounce = some true ∧ input.isAdmin = none then
    ⟨.unknown, .adminStatusUnknown⟩
  else if input.isAnnounce = some false ∧ input.isReadOnly = some false then
    ⟨.allowed, .sendAllowed⟩
  else ⟨.unknown, .metadataIncomplete⟩

/-- A group is never allowed without details that say it is neither read-only nor announce-only. -/
theorem allowed_needs_open_group {input : GroupCapabilityInput}
    (h : (evaluateGroupCapability input).status = .allowed) :
    input.isActive ∧ input.hasDetails ∧ input.isAnnounce = some false ∧
      input.isReadOnly = some false := by
  revert h
  unfold evaluateGroupCapability
  split
  · simp
  · split
    · simp
    · split
      · simp
      · split
        · simp
        · split
          · simp
          · split
            · rename_i ha hd _ _ _ ho
              intro _
              exact ⟨by simpa using ha, by simpa using hd, ho⟩
            · simp

structure GroupRow where
  isActive : Bool
  isAdmin : Option Bool
  isReadOnly : Option Bool
  isAnnounce : Option Bool
  detailsSyncedAt : Option ℕ
  sendCapability : GroupSendCapabilityStatus
  sendCapabilityReason : GroupSendCapabilityReason
  capabilityCheckedAt : Option ℕ
  capabilityInvalidatedAt : Option ℕ
  capabilityRevision : ℕ
  capabilityRefreshAttemptCount : ℕ
  capabilityRefreshNextAttemptAt : ℕ
  capabilityRefreshLeaseToken : Option ℕ
  capabilityRefreshLeaseExpiresAt : Option ℕ
  capabilityRefreshError : Option String
  deriving DecidableEq, Repr

/-- The column defaults of an inserted row. -/
def GroupRow.inserted (now : ℕ) : GroupRow where
  isActive := true
  isAdmin := none
  isReadOnly := none
  isAnnounce := none
  detailsSyncedAt := none
  sendCapability := .unknown
  sendCapabilityReason := .metadataIncomplete
  capabilityCheckedAt := none
  capabilityInvalidatedAt := none
  capabilityRevision := 1
  capabilityRefreshAttemptCount := 0
  capabilityRefreshNextAttemptAt := now
  capabilityRefreshLeaseToken := none
  capabilityRefreshLeaseExpiresAt := none
  capabilityRefreshError := none

/-- What a group summary says about sending. -/
structure OpenWAGroupSummary where
  isAdmin : Option Bool
  deriving DecidableEq, Repr

/-- What the details of a group say about sending. -/
structure OpenWAGroup where
  isAdmin : Option Bool
  isReadOnly : Option Bool
  isAnnounce : Option Bool
  announce : Option Bool
  deriving DecidableEq, Repr

def refreshLeaseMs : ℕ := 120000

def refreshMaxAttempts : ℕ := 3

/-- `lease_expires_at < now()`, which a NULL never meets. -/
def Expired (now : ℕ) (expiresAt : Option ℕ) : Prop := ∃ time, expiresAt = some time ∧ time < now

instance (now : ℕ) : (expiresAt : Option ℕ) → Decidable (Expired now expiresAt)
  | none => isFalse fun ⟨_, h, _⟩ => nomatch h
  | some time => decidable_of_iff (time < now)
      ⟨fun h => ⟨time, rfl, h⟩, fun ⟨_, h, hlt⟩ => by cases h; exact hlt⟩

/-- `lease_expires_at > now()`, which a NULL never meets. -/
def Unexpired (now : ℕ) (expiresAt : Option ℕ) : Prop := ∃ time, expiresAt = some time ∧ now < time

instance (now : ℕ) : (expiresAt : Option ℕ) → Decidable (Unexpired now expiresAt)
  | none => isFalse fun ⟨_, h, _⟩ => nomatch h
  | some time => decidable_of_iff (now < time)
      ⟨fun h => ⟨time, rfl, h⟩, fun ⟨_, h, hlt⟩ => by cases h; exact hlt⟩

/-- `GatewayCapabilityRepository.invalidate`. -/
def invalidate (now : ℕ) (reason : GroupSendCapabilityReason) (group : GroupRow) :
    Option GroupRow :=
  if group.isActive then
    some { group with
      sendCapability := .unknown
      sendCapabilityReason := reason
      capabilityInvalidatedAt := some now
      capabilityRevision := group.capabilityRevision + 1
      capabilityRefreshAttemptCount := 0
      capabilityRefreshNextAttemptAt := now
      capabilityRefreshLeaseToken := none
      capabilityRefreshLeaseExpiresAt := none
      capabilityRefreshError := none }
  else none

/-- The invalidation that `storeInTransaction` makes on a group event. -/
def invalidateByEvent (now : ℕ) (group : GroupRow) : Option GroupRow :=
  if group.isActive then
    some { group with
      sendCapability := .unknown
      sendCapabilityReason := .groupChanged
      capabilityInvalidatedAt := some now
      capabilityRevision := group.capabilityRevision + 1 }
  else none

/-- The row's part of the WHERE clause of `listNeedingRefresh` and `claim`. -/
def RefreshDue (now : ℕ) (group : GroupRow) : Prop :=
  group.isActive = true ∧ group.capabilityInvalidatedAt.isSome ∧
    group.capabilityRefreshAttemptCount < refreshMaxAttempts ∧
    group.capabilityRefreshNextAttemptAt ≤ now ∧
    (group.capabilityRefreshLeaseToken = none ∨ Expired now group.capabilityRefreshLeaseExpiresAt)

instance (now : ℕ) (group : GroupRow) : Decidable (RefreshDue now group) :=
  inferInstanceAs (Decidable (_ ∧ _))

/-- `GatewayCapabilityRepository.claim`; `discovering` says that a run of the session is PENDING or
still DISCOVERING. -/
def claimRefresh (now token expectedRevision : ℕ) (discovering : Bool) (group : GroupRow) :
    Option GroupRow :=
  if group.capabilityRevision = expectedRevision ∧ RefreshDue now group ∧ discovering = false then
    some { group with
      capabilityRefreshAttemptCount := group.capabilityRefreshAttemptCount + 1
      capabilityRefreshLeaseToken := some token
      capabilityRefreshLeaseExpiresAt := some (now + refreshLeaseMs)
      capabilityRefreshError := none }
  else none

def refreshBackoffMs (attemptCount : ℕ) : ℕ := min 300 (5 * 2 ^ (attemptCount - 1)) * 1000

/-- `GatewayCapabilityRepository.failAttempt`. -/
def failRefreshAttempt (now expectedRevision token : ℕ) (error : String) (retryable : Bool)
    (group : GroupRow) : Option GroupRow :=
  if group.capabilityRevision = expectedRevision ∧
      group.capabilityRefreshLeaseToken = some token ∧
      Unexpired now group.capabilityRefreshLeaseExpiresAt then
    if retryable = false ∨ refreshMaxAttempts ≤ group.capabilityRefreshAttemptCount then
      some { group with
        sendCapability := .unknown
        sendCapabilityReason := .refreshFailed
        capabilityCheckedAt := some now
        capabilityInvalidatedAt := none
        capabilityRefreshLeaseToken := none
        capabilityRefreshLeaseExpiresAt := none
        capabilityRefreshError := some error }
    else
      some { group with
        sendCapability := .unknown
        capabilityRefreshNextAttemptAt :=
          now + refreshBackoffMs group.capabilityRefreshAttemptCount
        capabilityRefreshLeaseToken := none
        capabilityRefreshLeaseExpiresAt := none
        capabilityRefreshError := some error }
  else none

/-- `GatewayCapabilityRepository.recoverExpired`. -/
def recoverExpiredRefresh (now : ℕ) (group : GroupRow) : Option GroupRow :=
  if (group.capabilityRefreshLeaseToken.isSome ∧
        Expired now group.capabilityRefreshLeaseExpiresAt) ∨
      (group.capabilityInvalidatedAt.isSome ∧ group.capabilityRefreshLeaseToken = none ∧
        refreshMaxAttempts ≤ group.capabilityRefreshAttemptCount) then
    let exhausted := refreshMaxAttempts ≤ group.capabilityRefreshAttemptCount
    some { group with
      sendCapability := .unknown
      sendCapabilityReason := if exhausted then .refreshFailed else group.sendCapabilityReason
      capabilityCheckedAt := if exhausted then some now else group.capabilityCheckedAt
      capabilityInvalidatedAt := if exhausted then none else group.capabilityInvalidatedAt
      capabilityRefreshNextAttemptAt := now
      capabilityRefreshLeaseToken := none
      capabilityRefreshLeaseExpiresAt := none
      capabilityRefreshError := some "Recovered expired capability refresh lease" }
  else none

/-- `COALESCE` of a new value and an old one. -/
def coalesce {α : Type*} (new old : Option α) : Option α := new.or old

/-- The upsert of `replaceSummaries` and `replaceGroupSummaries` for one listed group. -/
def upsertSummary (now : ℕ) (summary : OpenWAGroupSummary) : Option GroupRow → GroupRow
  | none => { GroupRow.inserted now with isAdmin := summary.isAdmin }
  | some group =>
    if group.isActive then { group with isAdmin := coalesce summary.isAdmin group.isAdmin }
    else
      { group with
        isAdmin := coalesce summary.isAdmin group.isAdmin
        sendCapability := .unknown
        sendCapabilityReason := .groupChanged
        capabilityInvalidatedAt := some now
        capabilityRevision := group.capabilityRevision + 1
        isActive := true }

/-- The second statement of `replaceSummaries`, on a group that is not listed. -/
def deactivate (group : GroupRow) : GroupRow := { group with isActive := false }

/-- The third, on every inactive group of the session. -/
def denyInactive (now : ℕ) (group : GroupRow) : Option GroupRow :=
  if group.isActive = false ∧
      (group.sendCapability ≠ .denied ∨ group.sendCapabilityReason ≠ .groupInactive) then
    some { group with
      sendCapability := .denied
      sendCapabilityReason := .groupInactive
      capabilityCheckedAt := some now
      capabilityInvalidatedAt := none
      capabilityRevision := group.capabilityRevision + 1 }
  else none

/-- The capability that the details give, together with what the row knew about `is_admin`. -/
def detailsCapability (group : OpenWAGroup) (existing : Option GroupRow) :
    GroupCapabilityDecision :=
  evaluateGroupCapability
    { isActive := true
      isReadOnly := group.isReadOnly
      isAnnounce := coalesce group.announce group.isAnnounce
      isAdmin := coalesce group.isAdmin (existing.bind GroupRow.isAdmin)
      hasDetails := true }

/-- The upsert of `upsertGroupDetails`: `capability` was evaluated on the row it had locked. -/
def upsertDetails (now : ℕ) (group : OpenWAGroup) (isAdmin : Option Bool)
    (capability : GroupCapabilityDecision) : Option GroupRow → GroupRow
  | none =>
    { GroupRow.inserted now with
      isAdmin := isAdmin
      isReadOnly := group.isReadOnly
      isAnnounce := coalesce group.announce group.isAnnounce
      detailsSyncedAt := some now
      sendCapability := capability.status
      sendCapabilityReason := capability.reason
      capabilityCheckedAt := some now }
  | some row =>
    { row with
      isActive := true
      isAdmin := coalesce isAdmin row.isAdmin
      isReadOnly := group.isReadOnly
      isAnnounce := coalesce group.announce group.isAnnounce
      detailsSyncedAt := some now
      sendCapability := capability.status
      sendCapabilityReason := capability.reason
      capabilityCheckedAt := some now
      capabilityInvalidatedAt := none
      capabilityRevision :=
        if row.sendCapability ≠ capability.status ∨
            row.sendCapabilityReason ≠ capability.reason then row.capabilityRevision + 1
        else row.capabilityRevision
      capabilityRefreshAttemptCount := 0
      capabilityRefreshNextAttemptAt := now
      capabilityRefreshLeaseToken := none
      capabilityRefreshLeaseExpiresAt := none
      capabilityRefreshError := none }

/-- What a caller of `upsertGroupDetails` wants of the row it locks. The capability refresh asks
for its revision and its lease, the two other readers for neither. -/
structure DetailsOptions where
  expectedRevision : Option ℕ
  capabilityLeaseToken : Option ℕ
  deriving DecidableEq, Repr

/-- The two early returns of `upsertGroupDetails`. -/
def DetailsOptions.Met (now : ℕ) (options : DetailsOptions) (existing : Option GroupRow) : Prop :=
  (∀ revision, options.expectedRevision = some revision →
      existing.map GroupRow.capabilityRevision = some revision) ∧
    ∀ token, options.capabilityLeaseToken = some token → ∃ row, existing = some row ∧
      row.capabilityRefreshLeaseToken = some token ∧
      Unexpired now row.capabilityRefreshLeaseExpiresAt

instance (now : ℕ) (options : DetailsOptions) :
    (existing : Option GroupRow) → Decidable (options.Met now existing)
  | none => decidable_of_iff
      (options.expectedRevision = none ∧ options.capabilityLeaseToken = none) (by
        unfold DetailsOptions.Met
        cases options.expectedRevision <;> cases options.capabilityLeaseToken <;> simp)
  | some row => decidable_of_iff
      ((options.expectedRevision = none ∨
          options.expectedRevision = some row.capabilityRevision) ∧
        (options.capabilityLeaseToken = none ∨
          options.capabilityLeaseToken = row.capabilityRefreshLeaseToken ∧
            Unexpired now row.capabilityRefreshLeaseExpiresAt)) (by
        unfold DetailsOptions.Met
        cases options.expectedRevision <;> cases options.capabilityLeaseToken <;>
          simp [eq_comm])

/-- ALLOWED, and not invalidated since. -/
def GroupRow.Sendable (group : GroupRow) : Prop :=
  group.sendCapability = .allowed ∧ group.capabilityInvalidatedAt = none

instance (group : GroupRow) : Decidable group.Sendable := inferInstanceAs (Decidable (_ ∧ _))

end GroupCapabilityStatements
