import Mathlib.Algebra.Group.Nat.Defs
import WaRuntime.GroupCapabilityStatements

/-! The statements that write `contact_projection_work`, each on one row.
`none` means that the row does not meet the statement's WHERE clause. Columns that a CHECK lets be
NULL only together are one field. -/
namespace ContactProjectionWork

open GroupCapabilityStatements (Expired Unexpired)

abbrev RunId := ℕ

inductive WorkStatus where
  | idle
  | pending
  | running
  | retry
  | failed
  deriving DecidableEq, Repr

/-- What a pass projects: the revision, cutoff and resolution run it was begun with. -/
structure ActivePass where
  revision : ℕ
  cutoffAt : ℕ
  resolutionRunId : Option RunId
  deriving DecidableEq, Repr

structure WorkLease where
  token : ℕ
  expiresAt : ℕ
  deriving DecidableEq, Repr

/-- The cursor is a group and a participant. -/
structure WorkRow where
  status : WorkStatus
  requestedRevision : ℕ
  completedRevision : ℕ
  requestedCutoffAt : ℕ
  firstRequestedAt : ℕ
  lastRequestedAt : ℕ
  active : Option ActivePass
  cursor : Option (String × String)
  attemptCount : ℕ
  nextAttemptAt : ℕ
  lease : Option WorkLease
  completedAt : Option ℕ
  failedAt : Option ℕ
  errorCode : Option String
  deriving DecidableEq, Repr

def projectionLeaseMs : ℕ := 300000

def projectionMaxAttempts : ℕ := 5

/-- A request during a pass that runs or waits for its retry does not disturb it. -/
def KeepsPass (row : WorkRow) : Prop :=
  (row.status = .running ∨ row.status = .retry) ∧ row.active.isSome

instance (row : WorkRow) : Decidable (KeepsPass row) := inferInstanceAs (Decidable (_ ∧ _))

/-- The upsert of `enqueueContactProjectionWork` for one canonical identity. -/
def requestWork (revision now : ℕ) : Option WorkRow → WorkRow
  | none =>
    { status := .pending
      requestedRevision := revision
      completedRevision := 0
      requestedCutoffAt := now
      firstRequestedAt := now
      lastRequestedAt := now
      active := none
      cursor := none
      attemptCount := 0
      nextAttemptAt := now
      lease := none
      completedAt := none
      failedAt := none
      errorCode := none }
  | some row =>
    { row with
      requestedRevision := revision
      requestedCutoffAt := now
      firstRequestedAt :=
        if row.status = .idle ∨ row.status = .failed then now else row.firstRequestedAt
      lastRequestedAt := now
      status := if KeepsPass row then row.status else .pending
      active := if KeepsPass row then row.active else none
      cursor := if KeepsPass row then row.cursor else none
      attemptCount := if KeepsPass row then row.attemptCount else 0
      nextAttemptAt := now
      failedAt := none
      errorCode := none }

/-- `retired_aliases`, on the work of an identity that has another canonical one. -/
def retireAlias (row : WorkRow) : Option WorkRow :=
  if row.status = .pending ∨ row.status = .retry ∨ row.status = .failed then
    some { row with
      status := .idle
      active := none
      cursor := none
      lease := none
      failedAt := none
      errorCode := none }
  else none

/-- The row's part of the WHERE clause of `claim`. -/
def Claimable (now : ℕ) (row : WorkRow) : Prop :=
  ((row.status = .pending ∨ row.status = .retry) ∧ row.nextAttemptAt ≤ now) ∨
    (row.status = .running ∧ Expired now (row.lease.map WorkLease.expiresAt))

instance (now : ℕ) (row : WorkRow) : Decidable (Claimable now row) :=
  inferInstanceAs (Decidable (_ ∨ _))

/-- `latestRun` is the newest resolution run that was completed by the cutoff. -/
def claimedPass (latestRun : Option RunId) (row : WorkRow) : ActivePass where
  revision := (row.active.map ActivePass.revision).getD row.requestedRevision
  cutoffAt := (row.active.map ActivePass.cutoffAt).getD row.requestedCutoffAt
  resolutionRunId := (row.active.bind ActivePass.resolutionRunId).or latestRun

def claim (now token : ℕ) (latestRun : Option RunId) (row : WorkRow) : Option WorkRow :=
  if Claimable now row then
    some { row with
      status := .running
      active := some (claimedPass latestRun row)
      attemptCount := row.attemptCount + 1
      lease := some ⟨token, now + projectionLeaseMs⟩
      errorCode := none }
  else none

/-- The locking SELECT of `project`. -/
def OwnsWork (now token : ℕ) (row : WorkRow) : Prop :=
  row.status = .running ∧ row.lease.map WorkLease.token = some token ∧
    Unexpired now (row.lease.map WorkLease.expiresAt)

instance (now token : ℕ) (row : WorkRow) : Decidable (OwnsWork now token row) :=
  inferInstanceAs (Decidable (_ ∧ _))

/-- `project` after a full page, whose last row is `last`. -/
def advance (now token : ℕ) (last : String × String) (row : WorkRow) : Option WorkRow :=
  if OwnsWork now token row then
    some { row with
      cursor := some last
      lease := some ⟨token, now + projectionLeaseMs⟩ }
  else none

/-- The active pass is older than what is requested by now. -/
def RequestedSince (row : WorkRow) : Prop :=
  ∃ pass ∈ row.active, pass.revision < row.requestedRevision

instance (row : WorkRow) : Decidable (RequestedSince row) :=
  decidable_of_iff ((row.active.any fun pass => pass.revision < row.requestedRevision) = true)
    (by cases h : row.active <;> simp [RequestedSince, h])

/-- `project` after a page that was not full. -/
def complete (now token : ℕ) (row : WorkRow) : Option WorkRow :=
  if OwnsWork now token row then
    some { row with
      completedRevision := (row.active.map ActivePass.revision).getD row.completedRevision
      status := if RequestedSince row then .pending else .idle
      firstRequestedAt :=
        if RequestedSince row then row.lastRequestedAt else row.firstRequestedAt
      active := none
      cursor := none
      attemptCount := 0
      nextAttemptAt := now
      lease := none
      completedAt := some now
      failedAt := none
      errorCode := none }
  else none

/-- The WHERE clause of `release` and `fail`, which do not look at the time of the lease. -/
def HoldsWork (token : ℕ) (row : WorkRow) : Prop :=
  row.status = .running ∧ row.lease.map WorkLease.token = some token

instance (token : ℕ) (row : WorkRow) : Decidable (HoldsWork token row) :=
  inferInstanceAs (Decidable (_ ∧ _))

def release (now token : ℕ) (row : WorkRow) : Option WorkRow :=
  if HoldsWork token row then
    some { row with status := .pending, nextAttemptAt := now, lease := none }
  else none

def failureBackoffMs (attemptCount : ℕ) : ℕ := min 3600 (30 * 2 ^ min attemptCount 7) * 1000

def fail (now token : ℕ) (row : WorkRow) : Option WorkRow :=
  if HoldsWork token row then
    let exhausted := projectionMaxAttempts ≤ row.attemptCount
    some { row with
      status := if exhausted then .failed else .retry
      nextAttemptAt := now + failureBackoffMs row.attemptCount
      failedAt := if exhausted then some now else row.failedAt
      errorCode := some "PROJECTION_ERROR"
      lease := none }
  else none

section Results

variable {row next : WorkRow} {now token revision : ℕ} {latestRun : Option RunId}
  {last : String × String}

theorem request_keeps (h : KeepsPass row) :
    requestWork revision now (some row) =
      { row with
        requestedRevision := revision
        requestedCutoffAt := now
        lastRequestedAt := now
        nextAttemptAt := now
        failedAt := none
        errorCode := none } := by
  have hstatus : ¬(row.status = .idle ∨ row.status = .failed) := by
    rcases h.1 with hs | hs <;> simp [hs]
  simp [requestWork, h, hstatus]

theorem request_restarts (h : ¬KeepsPass row) :
    (requestWork revision now (some row)).status = .pending ∧
      (requestWork revision now (some row)).active = none ∧
      (requestWork revision now (some row)).attemptCount = 0 ∧
      (requestWork revision now (some row)).cursor = none := by
  simp [requestWork, h]

theorem request_revision (work : Option WorkRow) :
    (requestWork revision now work).requestedRevision = revision := by
  cases work <;> rfl

theorem retire_some (h : retireAlias row = some next) :
    (row.status = .pending ∨ row.status = .retry ∨ row.status = .failed) ∧
      next.status = .idle ∧ next.active = none ∧ next.cursor = none ∧
      next.requestedRevision = row.requestedRevision := by
  unfold retireAlias at h
  split at h
  · rename_i hs
    cases h
    exact ⟨hs, rfl, rfl, rfl, rfl⟩
  · cases h

theorem claim_some (h : claim now token latestRun row = some next) :
    Claimable now row ∧ next =
      { row with
        status := .running
        active := some (claimedPass latestRun row)
        attemptCount := row.attemptCount + 1
        lease := some ⟨token, now + projectionLeaseMs⟩
        errorCode := none } := by
  unfold claim at h
  split at h
  · rename_i hc
    exact ⟨hc, (Option.some.inj h).symm⟩
  · cases h

theorem advance_some (h : advance now token last row = some next) :
    OwnsWork now token row ∧ next =
      { row with cursor := some last, lease := some ⟨token, now + projectionLeaseMs⟩ } := by
  unfold advance at h
  split at h
  · rename_i ho
    exact ⟨ho, (Option.some.inj h).symm⟩
  · cases h

theorem complete_some (h : complete now token row = some next) :
    OwnsWork now token row ∧ next.active = none ∧ next.attemptCount = 0 ∧ next.cursor = none ∧
      next.requestedRevision = row.requestedRevision ∧
      next.status = if RequestedSince row then .pending else .idle := by
  unfold complete at h
  split at h
  · rename_i ho
    cases h
    exact ⟨ho, rfl, rfl, rfl, rfl, rfl⟩
  · cases h

theorem release_some (h : release now token row = some next) :
    HoldsWork token row ∧
      next = { row with status := .pending, nextAttemptAt := now, lease := none } := by
  unfold release at h
  split at h
  · rename_i hh
    exact ⟨hh, (Option.some.inj h).symm⟩
  · cases h

theorem fail_some (h : fail now token row = some next) :
    HoldsWork token row ∧ next.active = row.active ∧ next.attemptCount = row.attemptCount ∧
      next.requestedRevision = row.requestedRevision ∧ next.cursor = row.cursor ∧
      next.status = if projectionMaxAttempts ≤ row.attemptCount then .failed else .retry := by
  unfold fail at h
  split at h
  · rename_i hh
    cases h
    exact ⟨hh, rfl, rfl, rfl, rfl, rfl⟩
  · cases h

/-- A work that may be claimed waits, or its lease has run out. -/
theorem claimable_cases (h : Claimable now row) :
    row.status = .pending ∨ row.status = .retry ∨ row.status = .running := by
  rcases h with ⟨hp | hr, _⟩ | ⟨hr, _⟩
  · exact .inl hp
  · exact .inr (.inl hr)
  · exact .inr (.inr hr)

end Results

end ContactProjectionWork
