import Mathlib.Data.List.MinMax
import Mathlib.Data.Prod.Lex
import Mathlib.Order.WithBot
import WaRuntime.TransitionRuns
import WaRuntime.ContactProjectionWork
import WaRuntime.ContactResolution

/-! The resolution runs of a session, and which of them is the current one.
Every statement but those of `resolve` is a transaction by itself and waits for the row that it
updates. `resolve` has the row of its run locked from its first statement to its commit, so that
its version of the row is kept beside the committed one; its completion takes `clock_timestamp()`,
and its commit comes later. Beside the runs are the rows of `contact_projection_work`: a projection
pass keeps the run that its first claim has found, through all claims that go on with the pass. -/
namespace ContactResolutionRuns

open TransitionRuns ContactResolution
open ContactEvidence (IdentityId)
open ContactProjectionWork (WorkRow ActivePass claimedPass)

abbrev SessionId := String

inductive RunStatus where
  | pending
  | running
  | retry
  | completed
  | failed
  deriving DecidableEq, Repr

/-- A row of `contact_resolution_runs`. -/
structure ResolutionRunRow where
  id : RunId
  sourceGeneration : ℕ
  evidenceCutoffAt : ℕ
  status : RunStatus
  attemptCount : ℕ
  nextAttemptAt : ℕ
  leaseToken : Option ℕ
  leaseExpiresAt : Option ℕ
  result : Option ContactResolutionResult
  startedAt : Option ℕ
  completedAt : Option ℕ
  failedAt : Option ℕ
  errorCode : Option String
  createdAt : ℕ
  deriving DecidableEq, Repr

section Statements

def leaseMs : ℕ := 300000

def maxAttempts : ℕ := 5

/-- LEAST(3600, 30 * power(2, LEAST(attempt_count, 7))) seconds. -/
def failureBackoffMs (attempts : ℕ) : ℕ := min 3600 (30 * 2 ^ min attempts 7) * 1000

/-- `enqueuePublished`, for one generation. -/
def newRun (now : ℕ) (id : RunId) (generation publishedAt : ℕ) : ResolutionRunRow :=
  ⟨id, generation, publishedAt, .pending, 0, now, none, none, none, none, none, none, none, now⟩

/-- The rows that `claim` may take; its ORDER BY and SKIP LOCKED say which of them it takes. -/
def Due (now : ℕ) (row : ResolutionRunRow) : Prop :=
  ((row.status = .pending ∨ row.status = .retry) ∧ row.nextAttemptAt ≤ now) ∨
    (row.status = .running ∧ ∃ e ∈ row.leaseExpiresAt, e < now)

instance (now : ℕ) (row : ResolutionRunRow) : Decidable (Due now row) :=
  inferInstanceAs (Decidable (_ ∨ (_ ∧ ∃ e ∈ row.leaseExpiresAt, e < now)))

def claim (now token : ℕ) (row : ResolutionRunRow) : ResolutionRunRow :=
  { row with
    status := .running
    attemptCount := row.attemptCount + 1
    leaseToken := some token
    leaseExpiresAt := some (now + leaseMs)
    startedAt := some (row.startedAt.getD now)
    errorCode := none }

/-- The row that the first statement of `resolve` locks. -/
def Owned (now token : ℕ) (row : ResolutionRunRow) : Prop :=
  row.status = .running ∧ row.leaseToken = some token ∧ ∃ e ∈ row.leaseExpiresAt, now < e

instance (now token : ℕ) (row : ResolutionRunRow) : Decidable (Owned now token row) :=
  inferInstanceAs (Decidable (_ ∧ _ ∧ ∃ e ∈ row.leaseExpiresAt, now < e))

/-- `completion`. -/
def complete (clock : ℕ) (result : ContactResolutionResult) (row : ResolutionRunRow) :
    ResolutionRunRow :=
  { row with
    status := .completed
    result := some result
    completedAt := some clock
    failedAt := none
    errorCode := none
    leaseToken := none
    leaseExpiresAt := none }

def fail (now : ℕ) (row : ResolutionRunRow) : ResolutionRunRow :=
  { row with
    status := if maxAttempts ≤ row.attemptCount then .failed else .retry
    nextAttemptAt := now + failureBackoffMs row.attemptCount
    failedAt := if maxAttempts ≤ row.attemptCount then some now else row.failedAt
    errorCode := some "RESOLUTION_ERROR"
    leaseToken := none
    leaseExpiresAt := none }

/-- ORDER BY completed_at DESC, id DESC: the row that comes last has the greatest key. -/
def completionKey (row : ResolutionRunRow) : Lex (WithTop ℕ × ℕ) :=
  toLex ((row.completedAt : WithTop ℕ), row.id)

/-- The runs that had completed by the cutoff, if there is one. -/
def CompletedBy (cutoff : Option ℕ) (row : ResolutionRunRow) : Prop :=
  row.status = .completed ∧ ∀ c ∈ cutoff, ∃ at_ ∈ row.completedAt, at_ ≤ c

instance (cutoff : Option ℕ) (row : ResolutionRunRow) : Decidable (CompletedBy cutoff row) :=
  inferInstanceAs (Decidable (_ ∧ ∀ c ∈ cutoff, ∃ at_ ∈ row.completedAt, at_ ≤ c))

/-- The run that a query takes for the current one. -/
def currentRun (cutoff : Option ℕ) (rows : List ResolutionRunRow) : Option ResolutionRunRow :=
  (rows.filter fun row => CompletedBy cutoff row).argmax completionKey

/-- `latest_run` of `enqueueContactProjectionWork`, `coalesceResolvedAliases` and
`catchUpUnprojected`. -/
def latestRun (rows : List ResolutionRunRow) : Option ResolutionRunRow := currentRun none rows

/-- The subquery of a projection claim with the given cutoff. -/
def runCompletedBy (cutoff : ℕ) (rows : List ResolutionRunRow) : Option ResolutionRunRow :=
  currentRun (some cutoff) rows

/-- `claim_cutoff`: that of the pass under way, or what is requested. -/
def claimCutoff (work : WorkRow) : ℕ := (claimedPass none work).cutoffAt

/-- The run that a claim of the work takes: the one that its pass has, or that of the subquery. -/
def projectionRun (rows : List ResolutionRunRow) (work : WorkRow) : Option RunId :=
  (claimedPass ((runCompletedBy (claimCutoff work) rows).map ResolutionRunRow.id)
    work).resolutionRunId

end Statements

/-- A row, and the version of the `resolve` that has it locked. -/
structure RunEntry where
  committed : ResolutionRunRow
  resolving : Option ResolutionRunRow
  deriving DecidableEq, Repr

/-- The last version, committed or not. -/
def RunEntry.version (e : RunEntry) : ResolutionRunRow := e.resolving.getD e.committed

/-- The published generations of a session, with when they were published, its runs, and its rows
of `contact_projection_work`. -/
structure SessionRuns where
  published : List (ℕ × ℕ)
  entries : List RunEntry
  works : List (IdentityId × WorkRow)
  deriving DecidableEq, Repr

/-- What a statement outside of every `resolve` reads. -/
def SessionRuns.rows (s : SessionRuns) : List ResolutionRunRow :=
  s.entries.map RunEntry.committed

/-- What the statements of the `resolve` of a run read. -/
def SessionRuns.rowsFor (s : SessionRuns) (id : RunId) : List ResolutionRunRow :=
  s.entries.map fun e => if e.committed.id = id then e.version else e.committed

/-- A statement on the row of a run; it waits, or finds nothing, where `f` gives nothing. -/
def SessionRuns.change (s : SessionRuns) (id : RunId) (f : RunEntry → Option RunEntry) :
    Option SessionRuns :=
  match s.entries.find? (·.committed.id = id) with
  | none => none
  | some e => (f e).map fun changed =>
    { s with entries := s.entries.map fun x => if x.committed.id = id then changed else x }

def SessionRuns.workOf (s : SessionRuns) (identity : IdentityId) : Option WorkRow :=
  (s.works.find? (·.1 = identity)).map Prod.snd

def SessionRuns.setWork (s : SessionRuns) (identity : IdentityId) (work : WorkRow) : SessionRuns :=
  { s with works := (identity, work) :: s.works.filter (·.1 ≠ identity) }

/-- The statements on a row of `contact_projection_work`. -/
inductive WorkCall where
  | request (revision : ℕ)
  | retire
  | claim (token : ℕ)
  | advance (token : ℕ) (last : String × String)
  | complete (token : ℕ)
  | release (token : ℕ)
  | fail (token : ℕ)
  deriving DecidableEq, Repr

inductive Call where
  | publish (generation publishedAt : ℕ)
  | deleteGenerations (generations : List ℕ)
  | enqueuePublished (now : ℕ) (id : RunId) (generation publishedAt : ℕ)
  | claim (now token : ℕ) (id : RunId)
  | resolve (now token : ℕ) (id : RunId)
  | complete (id : RunId) (result : ContactResolutionResult)
  | commit (id : RunId)
  | abort (id : RunId)
  | fail (now token : ℕ) (id : RunId)
  | work (now : ℕ) (identity : IdentityId) (call : WorkCall)
  deriving DecidableEq, Repr

inductive Event where
  | tick (clock : ℕ)
  | call (session : SessionId) (call : Call)
  deriving DecidableEq, Repr

def Call.now : Call → ℕ
  | .enqueuePublished now _ _ _ | .claim now _ _ | .resolve now _ _ | .fail now _ _
  | .work now _ _ => now
  | .publish _ publishedAt => publishedAt
  | .deleteGenerations _ | .complete _ _ | .commit _ | .abort _ => 0

/-- The ids of the runs that go with the generations. -/
def runsOf (generations : List ℕ) (s : SessionRuns) : List RunId :=
  (s.rows.filter (·.sourceGeneration ∈ generations)).map ResolutionRunRow.id

/-- ON DELETE SET NULL of `active_resolution_run_id`. -/
def forgetRuns (deleted : List RunId) (work : WorkRow) : WorkRow :=
  { work with
    active := work.active.map fun pass =>
      { pass with resolutionRunId := pass.resolutionRunId.filter (· ∉ deleted) } }

/-- `begin` deletes generations, and their runs with them, when no `resolve` has them locked. -/
def deleteGenerations (generations : List ℕ) (s : SessionRuns) : Option SessionRuns :=
  guarded (∀ e ∈ s.entries, e.committed.sourceGeneration ∈ generations → e.resolving = none)
    { published := s.published.filter (·.1 ∉ generations)
      entries := s.entries.filter (·.committed.sourceGeneration ∉ generations)
      works := s.works.map fun w => (w.1, forgetRuns (runsOf generations s) w.2) }

/-- The row after a statement on it; a claim looks at the committed runs. -/
def writeWork (rows : List ResolutionRunRow) (now : ℕ) (work : Option WorkRow) :
    WorkCall → Option WorkRow
  | .request revision => some (ContactProjectionWork.requestWork revision now work)
  | .retire => work.bind ContactProjectionWork.retireAlias
  | .claim token => work.bind fun row => ContactProjectionWork.claim now token
      ((runCompletedBy (claimCutoff row) rows).map ResolutionRunRow.id) row
  | .advance token last => work.bind (ContactProjectionWork.advance now token last)
  | .complete token => work.bind (ContactProjectionWork.complete now token)
  | .release token => work.bind (ContactProjectionWork.release now token)
  | .fail token => work.bind (ContactProjectionWork.fail now token)

def run (clock : ℕ) (s : SessionRuns) : Call → Option SessionRuns
  | .publish generation publishedAt =>
    guarded (generation ∉ s.published.map Prod.fst)
      { s with published := s.published ++ [(generation, publishedAt)] }
  | .deleteGenerations generations => deleteGenerations generations s
  | .enqueuePublished now id generation publishedAt =>
    guarded ((generation, publishedAt) ∈ s.published ∧
        generation ∉ s.rows.map ResolutionRunRow.sourceGeneration ∧
        id ∉ s.rows.map ResolutionRunRow.id)
      { s with entries := s.entries ++ [⟨newRun now id generation publishedAt, none⟩] }
  | .claim now token id => s.change id fun e =>
    guarded (e.resolving = none ∧ Due now e.committed) ⟨claim now token e.committed, none⟩
  | .resolve now token id => s.change id fun e =>
    guarded (e.resolving = none ∧ Owned now token e.committed) ⟨e.committed, some e.committed⟩
  | .complete id result => s.change id fun e =>
    match e.resolving with
    | none => none
    | some row => guarded (row.status = .running) ⟨e.committed, some (complete clock result row)⟩
  | .commit id => s.change id fun e =>
    match e.resolving with
    | none => none
    | some row => guarded (row.status = .completed) ⟨row, none⟩
  | .abort id => s.change id fun e => guarded (e.resolving ≠ none) ⟨e.committed, none⟩
  | .fail now token id => s.change id fun e =>
    guarded (e.resolving = none ∧ e.committed.status = .running ∧
      e.committed.leaseToken = some token) ⟨fail now e.committed, none⟩
  | .work now identity call =>
    (writeWork s.rows now (s.workOf identity) call).map (s.setWork identity)

structure State where
  clock : ℕ
  sessions : SessionId → SessionRuns

def initial : State := ⟨0, fun _ => ⟨[], [], []⟩⟩

def step (s : State) : Event → Option State
  | .tick clock => guarded (s.clock ≤ clock) { s with clock := clock }
  | .call session call =>
    match run s.clock (s.sessions session) call with
    | none => none
    | some new =>
      guarded (call.now ≤ s.clock)
        { s with sessions := Function.update s.sessions session new }

def system : System State Event := ofStep (· = initial) step

instance (s : State) (e : Event) : Decidable (system.enabled s e) :=
  inferInstanceAs (Decidable ((step s e).isSome = true))

section Current

/-- Where a key orders what a measure orders, the element with the last key is the one with the
greatest measure. -/
theorem argmax_agrees {α β γ : Type*} [LinearOrder β] [LinearOrder γ] {key : α → β}
    {measure : α → γ} {xs : List α} {x : α}
    (hunique : ∀ a ∈ xs, ∀ b ∈ xs, measure a = measure b → a = b)
    (hordered : ∀ a ∈ xs, ∀ b ∈ xs, measure a < measure b → key a < key b) :
    xs.argmax key = some x ↔ x ∈ xs ∧ ∀ a ∈ xs, measure a ≤ measure x := by
  have hlast : ∀ y, xs.argmax key = some y → y ∈ xs ∧ ∀ a ∈ xs, measure a ≤ measure y := by
    intro y hy
    have hmem := List.argmax_mem hy
    refine ⟨hmem, fun a ha => ?_⟩
    by_contra hlt
    have hkey := hordered y hmem a ha (not_le.mp hlt)
    exact List.not_lt_of_mem_argmax ha hy hkey
  constructor
  · exact hlast x
  · rintro ⟨hx, hgreatest⟩
    have hsome : xs.argmax key ≠ none := by
      rw [ne_eq, List.argmax_eq_none]
      exact List.ne_nil_of_mem hx
    obtain ⟨y, hy⟩ := Option.ne_none_iff_exists'.mp hsome
    obtain ⟨hmem, hle⟩ := hlast y hy
    have heq : y = x := hunique y hmem x hx (le_antisymm (hgreatest y hmem) (hle x hx))
    rw [hy, heq]

/-- The run is the completed one of the greatest generation, of those completed by the cutoff. -/
def Newest (cutoff : Option ℕ) (rows : List ResolutionRunRow) (row : ResolutionRunRow) : Prop :=
  (row ∈ rows ∧ CompletedBy cutoff row) ∧
    ∀ other ∈ rows, CompletedBy cutoff other → other.sourceGeneration ≤ row.sourceGeneration

/-- What a statement can read of the runs: the committed rows, and with a version of its own. -/
def Reads (s : SessionRuns) (rows : List ResolutionRunRow) : Prop :=
  rows = s.rows ∨ ∃ id, rows = s.rowsFor id

/-- Whatever reads the runs takes the newest one for the current one, and a claim of a projection
work takes the newest of those completed by its cutoff, also where it goes on with a pass. -/
structure NewestWins (s : SessionRuns) : Prop where
  latest : ∀ rows, Reads s rows → ∀ row, latestRun rows = some row ↔ Newest none rows row
  completed : ∀ rows, Reads s rows → ∀ cutoff row, runCompletedBy cutoff rows = some row ↔
    Newest (some cutoff) rows row
  claimed : ∀ w ∈ s.works, ∀ id, projectionRun s.rows w.2 = some id ↔
    ∃ row, row.id = id ∧ Newest (some (claimCutoff w.2)) s.rows row

/-- The completed runs have been completed in the order of their generations. -/
structure Settled (clock : ℕ) (s : SessionRuns) : Prop where
  ids : (s.entries.map fun e => e.committed.id).Nodup
  generations : (s.entries.map fun e => e.committed.sourceGeneration).Nodup
  held : ∀ e ∈ s.entries, ∀ row, e.resolving = some row → row.id = e.committed.id ∧
    row.sourceGeneration = e.committed.sourceGeneration ∧ e.committed.status = .running
  timed : ∀ e ∈ s.entries, e.version.status = .completed →
    ∃ at_, e.version.completedAt = some at_ ∧ at_ ≤ clock
  ordered : ∀ a ∈ s.entries, ∀ b ∈ s.entries, a.version.status = .completed →
    b.version.status = .completed → a.version.sourceGeneration < b.version.sourceGeneration →
    completionKey a.version < completionKey b.version

variable {clock : ℕ} {s u : SessionRuns}

theorem version_generation (h : Settled clock s) {e : RunEntry} (he : e ∈ s.entries) :
    e.version.id = e.committed.id ∧
      e.version.sourceGeneration = e.committed.sourceGeneration := by
  unfold RunEntry.version
  cases hrow : e.resolving with
  | none => exact ⟨rfl, rfl⟩
  | some row => exact ⟨(h.held e he row hrow).1, (h.held e he row hrow).2.1⟩

theorem entry_unique (h : Settled clock s) {a b : RunEntry} (ha : a ∈ s.entries)
    (hb : b ∈ s.entries) (hg : a.version.sourceGeneration = b.version.sourceGeneration) :
    a = b := by
  rw [(version_generation h ha).2, (version_generation h hb).2] at hg
  exact List.inj_on_of_nodup_map h.generations ha hb hg

theorem committed_version (h : Settled clock s) {e : RunEntry} (he : e ∈ s.entries)
    (hs : e.committed.status = .completed) : e.committed = e.version := by
  unfold RunEntry.version
  cases hresolving : e.resolving with
  | none => rfl
  | some row =>
    have hrunning := (h.held e he row hresolving).2.2
    rw [hs] at hrunning
    cases hrunning

/-- A completed row is the last version, whoever reads it: what is locked is RUNNING. -/
theorem read_completed (h : Settled clock s) {rows : List ResolutionRunRow} (hreads : Reads s rows)
    {row : ResolutionRunRow} (hrow : row ∈ rows) (hs : row.status = .completed) :
    ∃ e ∈ s.entries, row = e.version := by
  rcases hreads with rfl | ⟨id, rfl⟩
  · obtain ⟨e, he, rfl⟩ := List.mem_map.mp hrow
    exact ⟨e, he, committed_version h he hs⟩
  · obtain ⟨e, he, rfl⟩ := List.mem_map.mp hrow
    refine ⟨e, he, ?_⟩
    by_cases hid : e.committed.id = id
    · rw [if_pos hid]
    · rw [if_neg hid] at hs ⊢
      exact committed_version h he hs

/-- What a pass has is the newest run of those completed by its cutoff. -/
def Held (s : SessionRuns) : Prop :=
  ∀ w ∈ s.works, ∀ pass ∈ w.2.active, ∀ id ∈ pass.resolutionRunId,
    ∃ row, row.id = id ∧ Newest (some pass.cutoffAt) s.rows row

theorem currentRun_newest (h : Settled clock s) {rows : List ResolutionRunRow}
    (hreads : Reads s rows) (cutoff : Option ℕ) (row : ResolutionRunRow) :
    currentRun cutoff rows = some row ↔ Newest cutoff rows row := by
  have hentry : ∀ r ∈ rows.filter (fun row => CompletedBy cutoff row), ∃ e ∈ s.entries,
      r = e.version ∧ e.version.status = .completed := by
    intro r hr
    obtain ⟨hmem, hcompleted⟩ := List.mem_filter.mp hr
    have hs := (of_decide_eq_true hcompleted).1
    obtain ⟨e, he, rfl⟩ := read_completed h hreads hmem hs
    exact ⟨e, he, rfl, hs⟩
  have hunique : ∀ a ∈ rows.filter (fun row => CompletedBy cutoff row),
      ∀ b ∈ rows.filter (fun row => CompletedBy cutoff row),
        a.sourceGeneration = b.sourceGeneration → a = b := by
    intro a ha b hb hg
    obtain ⟨e, he, rfl, _⟩ := hentry a ha
    obtain ⟨e', he', rfl, _⟩ := hentry b hb
    rw [entry_unique h he he' hg]
  have hordered : ∀ a ∈ rows.filter (fun row => CompletedBy cutoff row),
      ∀ b ∈ rows.filter (fun row => CompletedBy cutoff row),
        a.sourceGeneration < b.sourceGeneration → completionKey a < completionKey b := by
    intro a ha b hb hg
    obtain ⟨e, he, rfl, hs⟩ := hentry a ha
    obtain ⟨e', he', rfl, hs'⟩ := hentry b hb
    exact h.ordered e he e' he' hs hs' hg
  unfold currentRun
  rw [argmax_agrees hunique hordered]
  simp only [List.mem_filter, decide_eq_true_eq, Newest, and_imp]

/-- One run is the newest. -/
theorem newest_unique (h : Settled clock s) {rows : List ResolutionRunRow} (hreads : Reads s rows)
    {cutoff : Option ℕ} {a b : ResolutionRunRow} (ha : Newest cutoff rows a)
    (hb : Newest cutoff rows b) : a = b := by
  rw [← currentRun_newest h hreads] at ha hb
  rw [ha] at hb
  exact Option.some.inj hb

theorem settled_newest (h : Settled clock s) (hheld : Held s) : NewestWins s := by
  refine ⟨fun rows hreads => currentRun_newest h hreads none,
    fun rows hreads cutoff => currentRun_newest h hreads (some cutoff), fun w hw id => ?_⟩
  have hreads : Reads s s.rows := .inl rfl
  have hquery : ∀ cutoff, (runCompletedBy cutoff s.rows).map ResolutionRunRow.id = some id ↔
      ∃ row, row.id = id ∧ Newest (some cutoff) s.rows row := by
    intro cutoff
    rw [Option.map_eq_some_iff]
    refine exists_congr fun row => ?_
    rw [runCompletedBy, currentRun_newest h hreads, and_comm]
  cases hactive : w.2.active with
  | none => simpa [projectionRun, claimedPass, hactive] using hquery (claimCutoff w.2)
  | some pass =>
    cases hrun : pass.resolutionRunId with
    | none => simpa [projectionRun, claimedPass, hactive, hrun] using hquery (claimCutoff w.2)
    | some first =>
      obtain ⟨row, rfl, hnewest⟩ := hheld w hw pass hactive first hrun
      have hcutoff : claimCutoff w.2 = pass.cutoffAt := by simp [claimCutoff, claimedPass, hactive]
      have htakes : projectionRun s.rows w.2 = some row.id := by
        simp [projectionRun, claimedPass, hactive, hrun]
      rw [htakes, hcutoff, Option.some.injEq]
      constructor
      · rintro rfl
        exact ⟨row, rfl, hnewest⟩
      · rintro ⟨other, rfl, hother⟩
        rw [newest_unique h hreads hnewest hother]

end Current

section Steps

variable {clock : ℕ} {s u : SessionRuns} {id : RunId} {f : RunEntry → Option RunEntry}

theorem change_some (h : s.change id f = some u) : ∃ e ∈ s.entries, ∃ changed,
    e.committed.id = id ∧ f e = some changed ∧
      u = { s with entries := s.entries.map fun x =>
        if x.committed.id = id then changed else x } := by
  unfold SessionRuns.change at h
  split at h
  · cases h
  · rename_i e he
    obtain ⟨changed, hchanged, rfl⟩ := Option.map_eq_some_iff.mp h
    exact ⟨e, List.mem_of_find?_eq_some he, changed, by simpa using List.find?_some he, hchanged,
      rfl⟩

/-- An entry after a statement is the changed one, or one that was there. -/
theorem mem_changed {changed x : RunEntry} {entries : List RunEntry}
    (h : x ∈ entries.map fun x => if x.committed.id = id then changed else x) :
    x = changed ∨ x ∈ entries := by
  obtain ⟨y, hy, rfl⟩ := List.mem_map.mp h
  by_cases hid : y.committed.id = id
  · rw [if_pos hid]
    exact .inl rfl
  · rw [if_neg hid]
    exact .inr hy

/-- A statement that changes one row: what has to be shown of the changed version. -/
theorem change_settled (h : Settled clock s) (hu : s.change id f = some u)
    (hf : ∀ e ∈ s.entries, ∀ changed, e.committed.id = id → f e = some changed →
      changed.committed.id = e.committed.id ∧
      changed.committed.sourceGeneration = e.committed.sourceGeneration ∧
      (∀ row, changed.resolving = some row → row.id = changed.committed.id ∧
        row.sourceGeneration = changed.committed.sourceGeneration ∧
        changed.committed.status = .running) ∧
      (changed.version.status = .completed →
        (∃ at_, changed.version.completedAt = some at_ ∧ at_ ≤ clock) ∧
        ∀ x ∈ s.entries, x.version.status = .completed →
          (x.version.sourceGeneration < changed.version.sourceGeneration →
            completionKey x.version < completionKey changed.version) ∧
          (changed.version.sourceGeneration < x.version.sourceGeneration →
            completionKey changed.version < completionKey x.version))) :
    Settled clock u := by
  obtain ⟨e, he, changed, hid, hchanged, rfl⟩ := change_some hu
  obtain ⟨hsame, hgeneration, hheld, hcompleted⟩ := hf e he changed hid hchanged
  have hentry : ∀ x ∈ s.entries, x.committed.id = id → x = e := by
    intro x hx hxid
    exact List.inj_on_of_nodup_map h.ids hx he (hxid.trans hid.symm)
  -- the keys of the rows stay
  have hkeys : ∀ {γ : Type} (key : ResolutionRunRow → γ), key changed.committed = key e.committed →
      (s.entries.map fun x => if x.committed.id = id then changed else x).map
        (fun x => key x.committed) = s.entries.map fun x => key x.committed := by
    intro γ key hkey
    rw [List.map_map]
    refine List.map_congr_left fun x hx => ?_
    by_cases hxid : x.committed.id = id
    · rw [Function.comp_apply, if_pos hxid, hkey, hentry x hx hxid]
    · simp only [Function.comp_apply, if_neg hxid]
  constructor
  · exact (hkeys ResolutionRunRow.id hsame).symm ▸ h.ids
  · exact (hkeys ResolutionRunRow.sourceGeneration hgeneration).symm ▸ h.generations
  · intro x hx row hrow
    rcases mem_changed hx with rfl | hx
    · exact hheld row hrow
    · exact h.held x hx row hrow
  · intro x hx hs
    rcases mem_changed hx with rfl | hx
    · exact (hcompleted hs).1
    · exact h.timed x hx hs
  · intro a ha b hb hsa hsb hlt
    rcases mem_changed ha with rfl | ha'
    · rcases mem_changed hb with rfl | hb'
      · omega
      · exact ((hcompleted hsa).2 b hb' hsb).2 hlt
    · rcases mem_changed hb with rfl | hb'
      · exact ((hcompleted hsb).2 a ha' hsa).1 hlt
      · exact h.ordered a ha' b hb' hsa hsb hlt

/-- A statement after which the last version of the row is the same, or not completed. -/
theorem change_kept (h : Settled clock s) (hu : s.change id f = some u)
    (hf : ∀ e ∈ s.entries, ∀ changed, f e = some changed →
      changed.committed.id = e.committed.id ∧
      changed.committed.sourceGeneration = e.committed.sourceGeneration ∧
      (∀ row, changed.resolving = some row → row = changed.committed ∧
        changed.committed.status = .running) ∧
      (changed.version.status = .completed → changed.version = e.version)) :
    Settled clock u := by
  refine change_settled h hu fun e he changed _ hchanged => ?_
  obtain ⟨hsame, hgeneration, hheld, hcompleted⟩ := hf e he changed hchanged
  refine ⟨hsame, hgeneration, ?_, ?_⟩
  · intro row hrow
    obtain ⟨rfl, hrunning⟩ := hheld row hrow
    exact ⟨rfl, rfl, hrunning⟩
  · intro hs
    have hversion := hcompleted hs
    rw [hversion] at hs ⊢
    exact ⟨h.timed e he hs, fun x hx hsx =>
      ⟨fun hlt => h.ordered x hx e he hsx hs hlt, fun hlt => h.ordered e he x hx hs hsx hlt⟩⟩

/-- A run may be completed: no run of a greater generation is completed, or being completed by a
transaction that is still open; and no run with a greater id at the same instant. -/
def InOrder (clock : ℕ) (s : SessionRuns) (id : RunId) : Prop :=
  ∀ e ∈ s.entries, e.committed.id = id → ∀ x ∈ s.entries, x.version.status = .completed →
    x.version.sourceGeneration < e.committed.sourceGeneration ∧
      (x.version.completedAt = some clock → x.version.id < id)

instance (clock : ℕ) (s : SessionRuns) (id : RunId) : Decidable (InOrder clock s id) :=
  inferInstanceAs (Decidable (∀ e ∈ s.entries, e.committed.id = id → ∀ x ∈ s.entries, _ → _ ∧ _))

/-- A completion comes last of what was completed, unless a greater id has the same instant. -/
theorem completion_last {result : ContactResolutionResult} {row x : ResolutionRunRow} {at_ : ℕ}
    (hat : x.completedAt = some at_) (hle : at_ ≤ clock)
    (hinstant : x.completedAt = some clock → x.id < row.id) :
    completionKey x < completionKey (complete clock result row) := by
  unfold completionKey
  rw [Prod.Lex.toLex_lt_toLex, hat]
  rcases hle.lt_or_eq with hlt | rfl
  · exact .inl (WithTop.coe_lt_coe.mpr hlt)
  · exact .inr ⟨rfl, hinstant hat⟩

theorem complete_settled {result : ContactResolutionResult} (h : Settled clock s)
    (hu : run clock s (.complete id result) = some u) (horder : InOrder clock s id) :
    Settled clock u := by
  refine change_settled h hu fun e he changed hid hchanged => ?_
  split at hchanged
  · cases hchanged
  · rename_i row hrow
    obtain ⟨_, rfl⟩ := guarded_eq_some.mp hchanged
    obtain ⟨hrid, hrgen, hrunning⟩ := h.held e he row hrow
    refine ⟨rfl, rfl, ?_, ?_⟩
    · intro row' hrow'
      cases hrow'
      exact ⟨hrid, hrgen, hrunning⟩
    · intro _
      refine ⟨⟨clock, rfl, le_rfl⟩, fun x hx hsx => ?_⟩
      obtain ⟨hlt, hinstant⟩ := horder e he hid x hx hsx
      change (x.version.sourceGeneration < row.sourceGeneration → _) ∧
        (row.sourceGeneration < x.version.sourceGeneration → _)
      constructor
      · intro _
        obtain ⟨at_, hat, hle⟩ := h.timed x hx hsx
        refine completion_last hat hle fun hnow => ?_
        rw [hrid, hid]
        exact hinstant hnow
      · intro hgt
        omega

/-- The other direction: after a completion that comes after a greater generation, the transaction
itself takes the older generation for the current one. -/
theorem older_completion_breaks {result : ContactResolutionResult} {e x : RunEntry}
    (h : Settled clock s) (hu : run clock s (.complete id result) = some u)
    (he : e ∈ s.entries) (hid : e.committed.id = id) (hx : x ∈ s.entries)
    (hs : x.committed.status = .completed)
    (hlt : e.committed.sourceGeneration < x.committed.sourceGeneration)
    (hinstant : ∀ y ∈ s.entries, y.version.status = .completed →
      y.version.completedAt = some clock → y.version.id < id) : ¬ NewestWins u := by
  intro hwins
  obtain ⟨e', he', changed, hid', hchanged, rfl⟩ := change_some hu
  obtain rfl : e' = e := List.inj_on_of_nodup_map h.ids he' he (hid'.trans hid.symm)
  split at hchanged
  · cases hchanged
  rename_i row hrow
  obtain ⟨_, rfl⟩ := guarded_eq_some.mp hchanged
  obtain ⟨hrid, hrgen, _⟩ := h.held e' he row hrow
  -- the rows that the transaction reads: its own completion, and what is committed
  have hread : ∀ r, r ∈ SessionRuns.rowsFor { s with entries := s.entries.map fun x =>
      if x.committed.id = id then ⟨e'.committed, some (complete clock result row)⟩ else x } id ↔
      r = complete clock result row ∨ ∃ y ∈ s.entries, y.committed.id ≠ id ∧ r = y.committed := by
    intro r
    simp only [SessionRuns.rowsFor, List.map_map, List.mem_map, Function.comp_apply]
    constructor
    · rintro ⟨y, hy, rfl⟩
      by_cases hyid : y.committed.id = id
      · simp only [if_pos hyid, if_pos hid]
        exact .inl rfl
      · simp only [if_neg hyid]
        exact .inr ⟨y, hy, hyid, rfl⟩
    · rintro (rfl | ⟨y, hy, hyid, rfl⟩)
      · refine ⟨e', he, ?_⟩
        simp only [if_pos hid]
        rfl
      · exact ⟨y, hy, by simp only [if_neg hyid]⟩
  have hxid : x.committed.id ≠ id := by
    intro hxid
    rw [List.inj_on_of_nodup_map h.ids hx he (hxid.trans hid.symm)] at hlt
    omega
  have hlatest := hwins.latest _ (.inr ⟨id, rfl⟩)
  obtain ⟨r, hr⟩ := Option.ne_none_iff_exists'.mp (show latestRun _ ≠ none from by
    unfold latestRun currentRun
    rw [ne_eq, List.argmax_eq_none]
    refine List.ne_nil_of_mem (List.mem_filter.mpr ⟨(hread _).mpr (.inl rfl), ?_⟩)
    exact decide_eq_true ⟨rfl, fun _ hc => nomatch hc⟩)
  obtain ⟨⟨hmem, hcompleted⟩, hgreatest⟩ := (hlatest r).mp hr
  have hge := hgreatest x.committed ((hread _).mpr (.inr ⟨x, hx, hxid, rfl⟩))
    ⟨hs, fun _ hc => nomatch hc⟩
  rcases (hread r).mp hmem with rfl | ⟨y, hy, hyid, rfl⟩
  · have hgeneration : (complete clock result row).sourceGeneration =
        e'.committed.sourceGeneration := hrgen
    omega
  · refine List.not_lt_of_mem_argmax (a := complete clock result row) ?_ hr ?_
    · refine List.mem_filter.mpr ⟨(hread _).mpr (.inl rfl), ?_⟩
      exact decide_eq_true ⟨rfl, fun _ hc => nomatch hc⟩
    · have hversion := committed_version h hy hcompleted.1
      have hys : y.version.status = .completed := hversion ▸ hcompleted.1
      obtain ⟨at_, hat, hle⟩ := h.timed y hy hys
      rw [hversion]
      refine completion_last hat hle fun hnow => ?_
      rw [hrid, hid]
      exact hinstant y hy hys hnow

theorem run_settled {call : Call} (h : Settled clock s) (hu : run clock s call = some u)
    (horder : ∀ id result, call = .complete id result → InOrder clock s id) :
    Settled clock u := by
  cases call with
  | publish generation publishedAt =>
    obtain ⟨_, rfl⟩ := guarded_eq_some.mp hu
    exact ⟨h.ids, h.generations, h.held, h.timed, h.ordered⟩
  | deleteGenerations generations =>
    obtain ⟨_, rfl⟩ := guarded_eq_some.mp hu
    have hold : ∀ e, e ∈ s.entries.filter (·.committed.sourceGeneration ∉ generations) →
        e ∈ s.entries := fun e he => (List.mem_filter.mp he).1
    refine ⟨(List.filter_sublist.map _).nodup h.ids,
      (List.filter_sublist.map _).nodup h.generations, ?_, ?_, ?_⟩
    · exact fun e he => h.held e (hold e he)
    · exact fun e he => h.timed e (hold e he)
    · exact fun a ha b hb => h.ordered a (hold a ha) b (hold b hb)
  | enqueuePublished now id generation publishedAt =>
    obtain ⟨⟨_, hgeneration, hid⟩, rfl⟩ := guarded_eq_some.mp hu
    unfold SessionRuns.rows at hgeneration hid
    rw [List.map_map] at hgeneration hid
    have hnew : ∀ e, e ∈ s.entries ++ [⟨newRun now id generation publishedAt, none⟩] →
        e.version.status = .completed → e ∈ s.entries := by
      intro e he hs
      rcases List.mem_append.mp he with he | he
      · exact he
      · rw [List.mem_singleton.mp he] at hs
        cases hs
    refine ⟨?_, ?_, ?_, ?_, ?_⟩
    · rw [List.map_append, List.map_singleton]
      exact h.ids.append (List.nodup_singleton _) (List.disjoint_singleton.mpr hid)
    · rw [List.map_append, List.map_singleton]
      exact h.generations.append (List.nodup_singleton _)
        (List.disjoint_singleton.mpr hgeneration)
    · intro e he row hrow
      rcases List.mem_append.mp he with he | he
      · exact h.held e he row hrow
      · rw [List.mem_singleton.mp he] at hrow
        cases hrow
    · exact fun e he hs => h.timed e (hnew e he hs) hs
    · exact fun a ha b hb hsa hsb => h.ordered a (hnew a ha hsa) b (hnew b hb hsb) hsa hsb
  | claim now token id =>
    refine change_kept h hu fun e he changed hchanged => ?_
    obtain ⟨_, rfl⟩ := guarded_eq_some.mp hchanged
    exact ⟨rfl, rfl, (fun _ hrow => nomatch hrow), (fun hs => nomatch hs)⟩
  | resolve now token id =>
    refine change_kept h hu fun e he changed hchanged => ?_
    obtain ⟨⟨hfree, howned⟩, rfl⟩ := guarded_eq_some.mp hchanged
    refine ⟨rfl, rfl, ?_, ?_⟩
    · intro row hrow
      cases hrow
      exact ⟨rfl, howned.1⟩
    · intro _
      simp [RunEntry.version, hfree]
  | complete id result => exact complete_settled h hu (horder id result rfl)
  | commit id =>
    refine change_kept h hu fun e he changed hchanged => ?_
    split at hchanged
    · cases hchanged
    · rename_i row hrow
      obtain ⟨_, rfl⟩ := guarded_eq_some.mp hchanged
      obtain ⟨hrid, hrgen, _⟩ := h.held e he row hrow
      refine ⟨hrid, hrgen, (fun _ hrow => nomatch hrow), ?_⟩
      intro _
      simp [RunEntry.version, hrow]
  | abort id =>
    refine change_kept h hu fun e he changed hchanged => ?_
    obtain ⟨hopen, rfl⟩ := guarded_eq_some.mp hchanged
    obtain ⟨row, hrow⟩ := Option.ne_none_iff_exists'.mp hopen
    refine ⟨rfl, rfl, (fun _ hrow => nomatch hrow), ?_⟩
    intro hs
    have hcommitted : e.committed.status = .completed := hs
    rw [(h.held e he row hrow).2.2] at hcommitted
    cases hcommitted
  | fail now token id =>
    refine change_kept h hu fun e he changed hchanged => ?_
    obtain ⟨_, rfl⟩ := guarded_eq_some.mp hchanged
    refine ⟨rfl, rfl, (fun _ hrow => nomatch hrow), ?_⟩
    intro hs
    have hcompleted : (fail now e.committed).status = .completed := hs
    simp only [fail] at hcompleted
    split at hcompleted <;> cases hcompleted
  | work now identity call =>
    obtain ⟨work, _, rfl⟩ := Option.map_eq_some_iff.mp hu
    exact ⟨h.ids, h.generations, h.held, h.timed, h.ordered⟩

end Steps

section Passes

variable {clock : ℕ} {s u : SessionRuns} {id : RunId} {f : RunEntry → Option RunEntry}

/-- A run may be committed: no pass that is to go on to its instant, or later, has a run of a
smaller generation. -/
def CommitsInTime (s : SessionRuns) (id : RunId) : Prop :=
  ∀ e ∈ s.entries, e.committed.id = id → ∀ row ∈ e.resolving, ∀ at_ ∈ row.completedAt,
    ∀ w ∈ s.works, ∀ pass ∈ w.2.active, ∀ x ∈ s.entries,
      pass.resolutionRunId = some x.committed.id →
      x.committed.sourceGeneration < row.sourceGeneration → pass.cutoffAt < at_

instance (s : SessionRuns) (id : RunId) : Decidable (CommitsInTime s id) :=
  inferInstanceAs (Decidable (∀ e ∈ s.entries, e.committed.id = id → ∀ row ∈ e.resolving,
    ∀ at_ ∈ row.completedAt, ∀ w ∈ s.works, ∀ pass ∈ w.2.active, ∀ x ∈ s.entries, _ → _ → _))

/-- The newest run stays so where no other completed run comes. -/
theorem newest_kept {cutoff : Option ℕ} {rows rows' : List ResolutionRunRow}
    {row : ResolutionRunRow}
    (hrows : ∀ r ∈ rows', r.status = .completed → r ∈ rows) (hrow : row ∈ rows')
    (h : Newest cutoff rows row) : Newest cutoff rows' row :=
  ⟨⟨hrow, h.1.2⟩, fun other hother hc => h.2 other (hrows other hother hc.1) hc⟩

theorem held_kept (h : Held s) (hworks : u.works = s.works)
    (hrows : ∀ row : ResolutionRunRow, row.status = .completed → (row ∈ u.rows ↔ row ∈ s.rows)) :
    Held u := by
  intro w hw pass hpass run hrun
  obtain ⟨row, hid, hnewest⟩ := h w (hworks ▸ hw) pass hpass run hrun
  exact ⟨row, hid, newest_kept (fun r hr hs => (hrows r hs).mp hr)
    ((hrows row hnewest.1.2.1).mpr hnewest.1.1) hnewest⟩

/-- A statement on a run that leaves it as it is committed, or not completed. -/
theorem change_held (hS : Settled clock s) (h : Held s) (hu : s.change id f = some u)
    (hf : ∀ e ∈ s.entries, ∀ changed, f e = some changed → changed.committed = e.committed ∨
      e.committed.status ≠ .completed ∧ changed.committed.status ≠ .completed) : Held u := by
  obtain ⟨e, he, changed, hid, hchanged, rfl⟩ := change_some hu
  have hsame : e.committed.status = .completed ∨ changed.committed.status = .completed →
      changed.committed = e.committed := by
    rintro (hs | hs)
    · exact (hf e he changed hchanged).resolve_right fun hno => hno.1 hs
    · exact (hf e he changed hchanged).resolve_right fun hno => hno.2 hs
  refine held_kept h rfl fun row hs => ?_
  simp only [SessionRuns.rows, List.map_map, List.mem_map, Function.comp_apply]
  constructor
  · rintro ⟨x, hx, rfl⟩
    by_cases hxid : x.committed.id = id
    · rw [if_pos hxid] at hs ⊢
      exact ⟨e, he, (hsame (.inr hs)).symm⟩
    · rw [if_neg hxid]
      exact ⟨x, hx, rfl⟩
  · rintro ⟨x, hx, rfl⟩
    by_cases hxid : x.committed.id = id
    · obtain rfl := List.inj_on_of_nodup_map hS.ids hx he (hxid.trans hid.symm)
      exact ⟨x, hx, by rw [if_pos hxid, hsame (.inl hs)]⟩
    · exact ⟨x, hx, by rw [if_neg hxid]⟩

/-- What the commit of a run adds to the committed completed rows is its own version. -/
theorem commit_rows (hS : Settled clock s) (hu : run clock s (.commit id) = some u) :
    ∃ e ∈ s.entries, ∃ row, e.committed.id = id ∧ e.resolving = some row ∧
      row.status = .completed ∧ u.works = s.works ∧
      ∀ r : ResolutionRunRow, r.status = .completed → (r ∈ u.rows ↔ r = row ∨ r ∈ s.rows) := by
  obtain ⟨e, he, changed, hid, hchanged, rfl⟩ := change_some hu
  split at hchanged
  · cases hchanged
  rename_i row hrow
  obtain ⟨hs, rfl⟩ := guarded_eq_some.mp hchanged
  refine ⟨e, he, row, hid, hrow, hs, rfl, fun r hr => ?_⟩
  simp only [SessionRuns.rows, List.map_map, List.mem_map, Function.comp_apply]
  constructor
  · rintro ⟨x, hx, rfl⟩
    by_cases hxid : x.committed.id = id
    · exact .inl (by rw [if_pos hxid])
    · exact .inr ⟨x, hx, by rw [if_neg hxid]⟩
  · rintro (rfl | ⟨x, hx, rfl⟩)
    · exact ⟨e, he, by rw [if_pos hid]⟩
    · refine ⟨x, hx, ?_⟩
      rw [if_neg]
      intro hxid
      -- the row that is locked is RUNNING
      obtain rfl := List.inj_on_of_nodup_map hS.ids hx he (hxid.trans hid.symm)
      have hrunning := (hS.held x hx row hrow).2.2
      rw [hr] at hrunning
      cases hrunning

theorem commit_held (hS : Settled clock s) (h : Held s) (hu : run clock s (.commit id) = some u)
    (hok : CommitsInTime s id) : Held u := by
  obtain ⟨e, he, row, hid, hrow, -, hworks, hrows⟩ := commit_rows hS hu
  intro w hw pass hpass held hheld
  rw [hworks] at hw
  obtain ⟨first, hfirst, hnewest⟩ := h w hw pass hpass held hheld
  refine ⟨first, hfirst, ⟨(hrows first hnewest.1.2.1).mpr (.inr hnewest.1.1), hnewest.1.2⟩, ?_⟩
  intro other hother hcompleted
  rcases (hrows other hcompleted.1).mp hother with rfl | hother
  · by_contra hlt
    obtain ⟨x, hx, rfl⟩ := List.mem_map.mp hnewest.1.1
    obtain ⟨at_, hat, hle⟩ := hcompleted.2 pass.cutoffAt rfl
    have hlater := hok e he hid other hrow at_ hat w hw pass hpass x hx
      (by rw [hfirst]; exact hheld) (not_le.mp hlt)
    omega
  · exact hnewest.2 other hother hcompleted

/-- The other direction: a pass that already has a run of a smaller generation keeps it. -/
theorem late_commit_breaks (hS : Settled clock s) (hu : run clock s (.commit id) = some u)
    {e x : RunEntry} (he : e ∈ s.entries) (hid : e.committed.id = id) {row : ResolutionRunRow}
    (hrow : e.resolving = some row) {at_ : ℕ} (hat : row.completedAt = some at_)
    {w : IdentityId × WorkRow} (hw : w ∈ s.works) {pass : ActivePass}
    (hpass : w.2.active = some pass) (hx : x ∈ s.entries)
    (hrun : pass.resolutionRunId = some x.committed.id)
    (hlt : x.committed.sourceGeneration < row.sourceGeneration) (hle : at_ ≤ pass.cutoffAt) :
    ¬ NewestWins u := by
  intro hwins
  obtain ⟨e', he', row', hid', hrow', hs, hworks, hrows⟩ := commit_rows hS hu
  obtain rfl := List.inj_on_of_nodup_map hS.ids he' he (hid'.trans hid.symm)
  rw [hrow] at hrow'
  cases hrow'
  have htakes : projectionRun u.rows w.2 = some x.committed.id := by
    simp [projectionRun, claimedPass, hpass, hrun]
  have hcutoff : claimCutoff w.2 = pass.cutoffAt := by simp [claimCutoff, claimedPass, hpass]
  obtain ⟨taken, htaken, hnewest⟩ := (hwins.claimed w (hworks ▸ hw) x.committed.id).mp htakes
  rw [hcutoff] at hnewest
  have hge := hnewest.2 row ((hrows row hs).mpr (.inl rfl))
    ⟨hs, fun c hc => ⟨at_, hat, by cases hc; exact hle⟩⟩
  rcases (hrows taken hnewest.1.2.1).mp hnewest.1.1 with rfl | hmem
  · obtain ⟨hrid, hrgen, _⟩ := hS.held e' he' taken hrow
    obtain rfl := List.inj_on_of_nodup_map hS.ids hx he' (htaken.symm.trans hrid)
    omega
  · obtain ⟨y, hy, rfl⟩ := List.mem_map.mp hmem
    obtain rfl := List.inj_on_of_nodup_map hS.ids hy hx htaken
    omega

theorem delete_held {generations : List ℕ} (h : Held s)
    (hu : run clock s (.deleteGenerations generations) = some u) : Held u := by
  obtain ⟨_, rfl⟩ := guarded_eq_some.mp hu
  intro w hw pass hpass held hheld
  obtain ⟨⟨identity, work⟩, hmem, rfl⟩ := List.mem_map.mp hw
  obtain ⟨old, hold, rfl⟩ := Option.map_eq_some_iff.mp hpass
  obtain ⟨hrun, hkept⟩ := Option.filter_eq_some_iff.mp hheld
  obtain ⟨row, rfl, hnewest⟩ := h (identity, work) hmem old hold held hrun
  obtain ⟨x, hx, rfl⟩ := List.mem_map.mp hnewest.1.1
  have hstays : x.committed.sourceGeneration ∉ generations := by
    intro hdeleted
    refine of_decide_eq_true hkept (List.mem_map.mpr ⟨x.committed, ?_, rfl⟩)
    exact List.mem_filter.mpr ⟨List.mem_map_of_mem hx, by simpa using hdeleted⟩
  have hfiltered : ∀ r, r ∈ SessionRuns.rows
      { published := s.published.filter (·.1 ∉ generations)
        entries := s.entries.filter (·.committed.sourceGeneration ∉ generations)
        works := s.works.map fun w => (w.1, forgetRuns (runsOf generations s) w.2) } →
      r ∈ s.rows := by
    intro r hr
    obtain ⟨y, hy, rfl⟩ := List.mem_map.mp hr
    exact List.mem_map_of_mem (List.mem_of_mem_filter hy)
  refine ⟨x.committed, rfl, newest_kept (fun r hr _ => hfiltered r hr) ?_ hnewest⟩
  exact List.mem_map_of_mem (List.mem_filter.mpr ⟨hx, by simpa using hstays⟩)

/-- A statement on a work has the pass that was under way, or claims one. -/
theorem written_pass {rows : List ResolutionRunRow} {now : ℕ} {work : Option WorkRow}
    {call : WorkCall} {new : WorkRow} (hu : writeWork rows now work call = some new)
    {pass : ActivePass} (hpass : new.active = some pass) :
    ∃ old, work = some old ∧ (old.active = some pass ∨
      pass = claimedPass ((runCompletedBy (claimCutoff old) rows).map ResolutionRunRow.id) old) := by
  cases call with
  | request revision =>
    cases hu
    cases work with
    | none => cases hpass
    | some old =>
      refine ⟨old, rfl, .inl ?_⟩
      by_cases hkeeps : ContactProjectionWork.KeepsPass old
      · rwa [ContactProjectionWork.request_keeps hkeeps] at hpass
      · rw [(ContactProjectionWork.request_restarts hkeeps).2.1] at hpass
        cases hpass
  | retire =>
    obtain ⟨old, rfl, hold⟩ := Option.bind_eq_some_iff.mp hu
    rw [(ContactProjectionWork.retire_some hold).2.2.1] at hpass
    cases hpass
  | claim token =>
    obtain ⟨old, rfl, hold⟩ := Option.bind_eq_some_iff.mp hu
    rw [(ContactProjectionWork.claim_some hold).2] at hpass
    cases hpass
    exact ⟨old, rfl, .inr rfl⟩
  | advance token last =>
    obtain ⟨old, rfl, hold⟩ := Option.bind_eq_some_iff.mp hu
    rw [(ContactProjectionWork.advance_some hold).2] at hpass
    exact ⟨old, rfl, .inl hpass⟩
  | complete token =>
    obtain ⟨old, rfl, hold⟩ := Option.bind_eq_some_iff.mp hu
    rw [(ContactProjectionWork.complete_some hold).2.1] at hpass
    cases hpass
  | release token =>
    obtain ⟨old, rfl, hold⟩ := Option.bind_eq_some_iff.mp hu
    rw [(ContactProjectionWork.release_some hold).2] at hpass
    exact ⟨old, rfl, .inl hpass⟩
  | fail token =>
    obtain ⟨old, rfl, hold⟩ := Option.bind_eq_some_iff.mp hu
    rw [(ContactProjectionWork.fail_some hold).2.1] at hpass
    exact ⟨old, rfl, .inl hpass⟩

theorem workOf_mem {identity : IdentityId} {work : WorkRow} (h : s.workOf identity = some work) :
    (identity, work) ∈ s.works := by
  obtain ⟨⟨other, found⟩, hfind, rfl⟩ := Option.map_eq_some_iff.mp h
  obtain rfl : other = identity := by simpa using List.find?_some hfind
  exact List.mem_of_find?_eq_some hfind

/-- What a claim begins, or goes on with, is the newest run by its cutoff. -/
theorem work_held {now : ℕ} {identity : IdentityId} {call : WorkCall} (hS : Settled clock s)
    (h : Held s) (hu : run clock s (.work now identity call) = some u) : Held u := by
  obtain ⟨new, hnew, rfl⟩ := Option.map_eq_some_iff.mp hu
  intro w hw pass hpass held hheld
  rcases List.mem_cons.mp hw with rfl | hw
  · obtain ⟨old, hold, hactive | rfl⟩ := written_pass hnew hpass
    · exact h (identity, old) (workOf_mem hold) pass hactive held hheld
    · exact ((settled_newest hS h).claimed (identity, old) (workOf_mem hold) held).mp hheld
  · exact h w (List.mem_of_mem_filter hw) pass hpass held hheld

theorem run_held {call : Call} (hS : Settled clock s) (h : Held s) (hu : run clock s call = some u)
    (hok : ∀ id, call = .commit id → CommitsInTime s id) : Held u := by
  cases call with
  | publish generation publishedAt =>
    obtain ⟨_, rfl⟩ := guarded_eq_some.mp hu
    exact h
  | deleteGenerations generations => exact delete_held h hu
  | enqueuePublished now id generation publishedAt =>
    obtain ⟨_, rfl⟩ := guarded_eq_some.mp hu
    refine held_kept h rfl fun row hs => ?_
    simp only [SessionRuns.rows, List.map_append, List.map_singleton, List.mem_append,
      List.mem_singleton]
    constructor
    · rintro (hrow | rfl)
      · exact hrow
      · cases hs
    · exact .inl
  | claim now token id =>
    refine change_held hS h hu fun e _ changed hchanged => .inr ?_
    obtain ⟨⟨_, hdue⟩, rfl⟩ := guarded_eq_some.mp hchanged
    refine ⟨fun hs => ?_, fun hs => by cases hs⟩
    simp [Due, hs] at hdue
  | resolve now token id =>
    refine change_held hS h hu fun e _ changed hchanged => .inl ?_
    obtain ⟨_, rfl⟩ := guarded_eq_some.mp hchanged
    rfl
  | complete id result =>
    refine change_held hS h hu fun e _ changed hchanged => .inl ?_
    split at hchanged
    · cases hchanged
    · obtain ⟨_, rfl⟩ := guarded_eq_some.mp hchanged
      rfl
  | commit id => exact commit_held hS h hu (hok id rfl)
  | abort id =>
    refine change_held hS h hu fun e _ changed hchanged => .inl ?_
    obtain ⟨_, rfl⟩ := guarded_eq_some.mp hchanged
    rfl
  | fail now token id =>
    refine change_held hS h hu fun e _ changed hchanged => .inr ?_
    obtain ⟨⟨_, hrunning, _⟩, rfl⟩ := guarded_eq_some.mp hchanged
    refine ⟨fun hs => ?_, fun hs => ?_⟩
    · rw [hs] at hrunning
      cases hrunning
    · simp only [fail] at hs
      split at hs <;> cases hs
  | work now identity call => exact work_held hS h hu

end Passes

section Runs

variable {s u : State} {e : Event} {session : SessionId}

/-- The steps of a run complete the resolution runs of a session in order, and commit them before a
pass goes on without them. -/
def CompletesInOrder (s : State) : Event → Prop
  | .call session (.complete id _) => InOrder s.clock (s.sessions session) id
  | .call session (.commit id) => CommitsInTime (s.sessions session) id
  | _ => True

instance (s : State) : (e : Event) → Decidable (CompletesInOrder s e)
  | .call session (.complete id _) =>
    inferInstanceAs (Decidable (InOrder s.clock (s.sessions session) id))
  | .call session (.commit id) =>
    inferInstanceAs (Decidable (CommitsInTime (s.sessions session) id))
  | .tick _ => isTrue trivial
  | .call _ (.publish _ _) | .call _ (.deleteGenerations _) | .call _ (.enqueuePublished _ _ _ _)
  | .call _ (.claim _ _ _) | .call _ (.resolve _ _ _) | .call _ (.abort _)
  | .call _ (.fail _ _ _) | .call _ (.work _ _ _) => isTrue trivial

theorem settled_later {clock clock' : ℕ} {v : SessionRuns} (h : Settled clock v)
    (hle : clock ≤ clock') : Settled clock' v := by
  refine ⟨h.ids, h.generations, h.held, ?_, h.ordered⟩
  intro e he hs
  obtain ⟨at_, hat, hat'⟩ := h.timed e he hs
  exact ⟨at_, hat, hat'.trans hle⟩

theorem step_settled (h : Settled s.clock (s.sessions session) ∧ Held (s.sessions session))
    (hu : step s e = some u) (horder : CompletesInOrder s e) :
    Settled u.clock (u.sessions session) ∧ Held (u.sessions session) := by
  cases e with
  | tick clock =>
    obtain ⟨hle, rfl⟩ := guarded_eq_some.mp hu
    exact ⟨settled_later h.1 hle, h.2⟩
  | call k call =>
    simp only [step] at hu
    split at hu
    · cases hu
    · rename_i new hnew
      obtain ⟨_, rfl⟩ := guarded_eq_some.mp hu
      by_cases hk : session = k
      · subst hk
        simp only [Function.update_self]
        refine ⟨run_settled h.1 hnew fun id result hcall => ?_,
          run_held h.1 h.2 hnew fun id hcall => ?_⟩
        · subst hcall
          exact horder
        · subst hcall
          exact horder
      · simp only [Function.update_of_ne hk]
        exact h

theorem reachable_settled (h : Reachable (restrict system CompletesInOrder) s)
    (session : SessionId) :
    Settled s.clock (s.sessions session) ∧ Held (s.sessions session) := by
  refine reachable_invariant (M := restrict system CompletesInOrder)
    (I := fun s => Settled s.clock (s.sessions session) ∧ Held (s.sessions session)) ?_
    (fun s e hI he => ?_) h
  · rintro _ rfl
    exact ⟨⟨List.nodup_nil, List.nodup_nil, (fun _ he => nomatch he), (fun _ he => nomatch he),
      (fun _ ha => nomatch ha)⟩, fun _ hw => by cases hw⟩
  · exact step_settled hI (ofStep_enabled he.1) he.2

/-- Where no run is completed after a run of a greater generation of its session, nor committed
after a pass that should have had it, whatever reads the runs takes the completed run of the greatest
generation for the current one. -/
theorem newest_generation_wins (h : Reachable (restrict system CompletesInOrder) s)
    (session : SessionId) : NewestWins (s.sessions session) :=
  have hI := reachable_settled h session
  settled_newest hI.1 hI.2

/-- The runs of two generations; the first one fails once, and is completed before the second, which
a projection pass then takes. -/
def orderedTrace : List Event :=
  [.tick 1000000,
   .call "session" (.publish 1 10),
   .call "session" (.enqueuePublished 11 1 1 10),
   .call "session" (.claim 12 100 1),
   .call "session" (.resolve 13 100 1),
   .call "session" (.abort 1),
   .call "session" (.fail 14 100 1),
   .call "session" (.publish 2 20),
   .call "session" (.enqueuePublished 21 2 2 20),
   .call "session" (.claim 60014 101 1),
   .call "session" (.resolve 60015 101 1),
   .call "session" (.complete 1 ⟨3, 2, 2, 0⟩),
   .call "session" (.commit 1),
   .tick 1000001,
   .call "session" (.claim 60016 200 2),
   .call "session" (.resolve 60017 200 2),
   .call "session" (.complete 2 ⟨4, 3, 2, 0⟩),
   .call "session" (.commit 2),
   .call "session" (.work 1000001 7 (.request 1)),
   .call "session" (.work 1000001 7 (.claim 300))]

def ordered : State := runTrace system initial orderedTrace

theorem ordered_newest_wins :
    NewestWins (ordered.sessions "session") ∧
      (latestRun (ordered.sessions "session").rows).map ResolutionRunRow.sourceGeneration =
        some 2 ∧
      ((ordered.sessions "session").workOf 7).bind
        (projectionRun (ordered.sessions "session").rows) = some 2 := by
  have hrun : Run (restrict system CompletesInOrder) orderedTrace ordered :=
    valid_trace_restricted_run rfl (by decide +kernel)
  exact ⟨newest_generation_wins ⟨_, hrun⟩ "session", by decide +kernel, by decide +kernel⟩

/-- The run of the first generation fails, the second generation is resolved, and then the first
run is claimed again after its backoff. -/
def retriedTrace : List Event :=
  [.tick 1000000,
   .call "session" (.publish 1 10),
   .call "session" (.enqueuePublished 11 1 1 10),
   .call "session" (.claim 12 100 1),
   .call "session" (.resolve 13 100 1),
   .call "session" (.abort 1),
   .call "session" (.fail 14 100 1),
   .call "session" (.publish 2 20),
   .call "session" (.enqueuePublished 21 2 2 20),
   .call "session" (.claim 22 200 2),
   .call "session" (.resolve 23 200 2),
   .call "session" (.complete 2 ⟨4, 3, 2, 0⟩),
   .call "session" (.commit 2),
   .tick 1000001,
   .call "session" (.claim 60014 101 1),
   .call "session" (.resolve 60015 101 1),
   .call "session" (.complete 1 ⟨3, 2, 2, 0⟩),
   .call "session" (.commit 1)]

def retried : State := runTrace system initial retriedTrace

/-- The retried run of the first generation becomes the current one, although the second
generation has been resolved. -/
theorem retried_generation_is_current :
    Reachable system retried ∧
      (latestRun (retried.sessions "session").rows).map ResolutionRunRow.sourceGeneration =
        some 1 ∧
      (∃ row ∈ (retried.sessions "session").rows,
        row.status = .completed ∧ row.sourceGeneration = 2) ∧
      ¬ NewestWins (retried.sessions "session") := by
  have hlatest : (latestRun (retried.sessions "session").rows).map
      ResolutionRunRow.sourceGeneration = some 1 := by decide +kernel
  have hsecond : ∃ row ∈ (retried.sessions "session").rows,
      row.status = .completed ∧ row.sourceGeneration = 2 := by decide +kernel
  refine ⟨⟨_, valid_trace_run rfl (by decide +kernel)⟩, hlatest, hsecond, fun hwins => ?_⟩
  obtain ⟨row, hrow, hfirst⟩ := Option.map_eq_some_iff.mp hlatest
  obtain ⟨second, hmem, hs, hgeneration⟩ := hsecond
  have hnewest := (hwins.latest _ (.inl rfl) row).mp hrow
  have hle := hnewest.2 second hmem ⟨hs, fun _ hc => nomatch hc⟩
  omega

end Runs

end ContactResolutionRuns
