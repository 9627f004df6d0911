import Mathlib.Data.List.Dedup
import WaRuntime.ContactProjectionWork
import WaRuntime.TransitionRuns

/-! Requests for projection work, one statement at a time.
The work rows are those of one session. `enqueueContactProjectionWork` takes its time first, draws a
revision for each canonical identity, and only then waits for the row; the identities and their
canonical ones come with the event, and so does the choice of the aliases it retires. A transaction
enqueues once, as every caller does. Nobody checks the constraints of the table here. -/
namespace ProjectionRequests

open TransitionRuns
open ContactProjectionWork

abbrev IdentityId := ℕ

/-- A stored observation with the work row that was requested for it, and the one it counts for:
the same, until that is retired. -/
structure Observation where
  createdAt : ℕ
  enqueuedFor : IdentityId
  work : IdentityId
  deriving DecidableEq, Repr

/-- The enqueue statement of a transaction: its `statement_timestamp()`, the identities with their
canonical ones, the works that it has yet to upsert, the revision drawn for the next one, and the
versions that it has written. -/
structure Request where
  time : ℕ
  requested : List (IdentityId × IdentityId)
  waiting : List IdentityId
  drawn : Option (IdentityId × ℕ)
  works : List (IdentityId × WorkRow)
  retired : List (IdentityId × IdentityId)
  deriving DecidableEq, Repr

/-- `start` is the `now()` of the transaction, and of the observations it stores; `locked` are the
works that it has locked before it enqueues. -/
inductive Tx where
  | closed
  | opened (start : ℕ) (locked : List IdentityId)
  | enqueuing (start : ℕ) (locked : List IdentityId) (request : Request)
  deriving DecidableEq, Repr

namespace Tx

def request : Tx → Option Request
  | .enqueuing _ _ request => some request
  | _ => none

def works : Tx → List (IdentityId × WorkRow)
  | .enqueuing _ _ request => request.works
  | _ => []

def locks : Tx → List IdentityId
  | .closed => []
  | .opened _ locked => locked
  | .enqueuing _ locked request => locked ++ request.works.map Prod.fst

end Tx

/-- `sequence` is the last revision drawn; `passes` are the cutoffs of the completed passes. The
observations and the passes are a record that no step reads. -/
structure State where
  clock : ℕ
  sequence : ℕ
  works : IdentityId → Option WorkRow
  observations : List Observation
  passes : IdentityId → List ℕ
  started : ℕ
  txs : ℕ → Tx

def initial : State := ⟨0, 0, fun _ => none, [], fun _ => [], 0, fun _ => .closed⟩

/-- Nobody but `n` has locked the work. -/
def State.Free (s : State) (n : ℕ) (id : IdentityId) : Prop :=
  ∀ m < s.started, m ≠ n → id ∉ (s.txs m).locks

instance (s : State) (n : ℕ) (id : IdentityId) : Decidable (s.Free n id) :=
  inferInstanceAs (Decidable (∀ m < s.started, _ → _))

inductive TxEvent where
  | lock (id : IdentityId)
  | enqueue (requested : List (IdentityId × IdentityId))
  | draw (id : IdentityId)
  | upsert
  | retire (id canonical : IdentityId)
  | commit
  | abort
  deriving Repr

inductive Event where
  | tick (ms : ℕ)
  | drawElsewhere
  | begin
  | tx (n : ℕ) (event : TxEvent)
  | claim (id : IdentityId) (now token : ℕ) (latestRun : Option RunId)
  | advance (id : IdentityId) (now token : ℕ) (last : String × String)
  | complete (id : IdentityId) (now token : ℕ)
  | release (id : IdentityId) (now token : ℕ)
  | fail (id : IdentityId) (now token : ℕ)
  deriving Repr

section Steps

variable (s : State)

/-- A canonical identity has no other canonical one. -/
def Canonical (requested : List (IdentityId × IdentityId)) : Prop :=
  ∀ p ∈ requested, ∀ q ∈ requested, p.2 = q.1 → q.2 = q.1

instance (requested : List (IdentityId × IdentityId)) : Decidable (Canonical requested) :=
  inferInstanceAs (Decidable (∀ p ∈ requested, ∀ q ∈ requested, _ → _))

def canonicalWorks (requested : List (IdentityId × IdentityId)) : List IdentityId :=
  (requested.map Prod.snd).dedup

def enqueue (time : ℕ) (requested : List (IdentityId × IdentityId)) : Request where
  time := time
  requested := requested
  waiting := canonicalWorks requested
  drawn := none
  works := []
  retired := []

/-- Every canonical work is upserted. -/
def Request.Upserted (request : Request) : Prop := request.waiting = [] ∧ request.drawn = none

instance (request : Request) : Decidable request.Upserted := inferInstanceAs (Decidable (_ ∧ _))

def txNext (n : ℕ) : Tx → TxEvent → Option Tx
  | .opened start locked, .lock id =>
    guarded ((s.works id).isSome ∧ s.Free n id) (.opened start (id :: locked))
  | .opened start locked, .enqueue requested =>
    guarded (Canonical requested) (.enqueuing start locked (enqueue s.clock requested))
  | .enqueuing start locked request, .draw id =>
    guarded (id ∈ request.waiting ∧ request.drawn = none)
      (.enqueuing start locked { request with
        waiting := request.waiting.erase id
        drawn := some (id, s.sequence + 1) })
  | .enqueuing start locked request, .upsert =>
    match request.drawn with
    | some (id, revision) =>
      guarded (s.Free n id)
        (.enqueuing start locked { request with
          drawn := none
          works := (id, requestWork revision request.time (s.works id)) :: request.works })
    | none => none
  | .enqueuing start locked request, .retire id canonical =>
    match (s.works id).bind retireAlias with
    | some row =>
      guarded (request.Upserted ∧ (id, canonical) ∈ request.requested ∧ id ≠ canonical ∧
          id ∉ request.retired.map Prod.fst ∧ s.Free n id)
        (.enqueuing start locked { request with
          works := (id, row) :: request.works
          retired := (id, canonical) :: request.retired })
    | none => none
  | _, _ => none

def draws : TxEvent → ℕ
  | .draw _ => 1
  | _ => 0

def Tx.Done : Tx → Prop
  | .closed => False
  | .opened _ _ => True
  | .enqueuing _ _ request => request.Upserted

instance : (k : Tx) → Decidable k.Done
  | .closed => isFalse id
  | .opened _ _ => isTrue trivial
  | .enqueuing _ _ request => inferInstanceAs (Decidable request.Upserted)

/-- What the observations of a transaction, and those of the works that it retires, count for. -/
def observed (observations : List Observation) : Tx → List Observation
  | .enqueuing start _ request =>
    ((canonicalWorks request.requested).map fun id => ⟨start, id, id⟩) ++
      observations.map fun o => { o with work := (request.retired.lookup o.work).getD o.work }
  | _ => observations

def committed (k : Tx) : State :=
  { s with
    works := fun id => (k.works.lookup id).or (s.works id)
    observations := observed s.observations k }

/-- A statement of its own on one work, which waits for whoever holds it, or passes it over. -/
def updateWork (id : IdentityId) (now : ℕ) (f : WorkRow → Option WorkRow) : Option State :=
  match (s.works id).bind f with
  | some row =>
    guarded (now ≤ s.clock ∧ s.Free s.started id)
      { s with works := Function.update s.works id (some row) }
  | none => none

/-- The cutoff of the pass that a row's worker is in. -/
def activeCutoff (work : Option WorkRow) : Option ℕ :=
  (work.bind WorkRow.active).map ActivePass.cutoffAt

def step : Event → Option State
  | .tick ms => some { s with clock := s.clock + ms }
  | .drawElsewhere => some { s with sequence := s.sequence + 1 }
  | .begin => some { s with
      started := s.started + 1
      txs := Function.update s.txs s.started (.opened s.clock []) }
  | .tx n .commit =>
    guarded (s.txs n).Done
      { committed s (s.txs n) with txs := Function.update s.txs n .closed }
  | .tx n .abort =>
    guarded (s.txs n ≠ .closed) { s with txs := Function.update s.txs n .closed }
  | .tx n event =>
    (txNext s n (s.txs n) event).map fun k =>
      { s with sequence := s.sequence + draws event, txs := Function.update s.txs n k }
  | .claim id now token latestRun =>
    updateWork s id now (ContactProjectionWork.claim now token latestRun)
  | .advance id now token last => updateWork s id now (advance now token last)
  | .complete id now token =>
    (updateWork s id now (complete now token)).map fun u =>
      { u with
        passes := Function.update s.passes id
          ((activeCutoff (s.works id)).toList ++ s.passes id) }
  | .release id now token => updateWork s id now (release now token)
  | .fail id now token => updateWork s id now (fail now token)

def system : System State Event := ofStep (· = initial) step

instance (e : Event) : Decidable (system.enabled s e) :=
  inferInstanceAs (Decidable ((step s e).isSome = true))

/-- A work that an enqueue upserts has not been requested since with a later revision or at a later
time, and one that it retires not at a later time. -/
def InOrder : Event → Prop
  | .tx n .upsert => ∀ request ∈ (s.txs n).request, ∀ p ∈ request.drawn, ∀ row ∈ s.works p.1,
      row.requestedRevision < p.2 ∧ row.requestedCutoffAt ≤ request.time
  | .tx n (.retire id _) => ∀ request ∈ (s.txs n).request, ∀ row ∈ s.works id,
      row.requestedCutoffAt ≤ request.time
  | _ => True

instance : (e : Event) → Decidable (InOrder s e)
  | .tx n .upsert => inferInstanceAs (Decidable (∀ request ∈ (s.txs n).request,
      ∀ p ∈ request.drawn, ∀ row ∈ s.works p.1,
        row.requestedRevision < p.2 ∧ row.requestedCutoffAt ≤ request.time))
  | .tx n (.retire id _) => inferInstanceAs (Decidable (∀ request ∈ (s.txs n).request,
      ∀ row ∈ s.works id, row.requestedCutoffAt ≤ request.time))
  | .tx _ (.lock _) | .tx _ (.enqueue _) | .tx _ (.draw _) | .tx _ .commit | .tx _ .abort
  | .tick _ | .drawElsewhere | .begin | .claim _ _ _ _ | .advance _ _ _ _ | .complete _ _ _
  | .release _ _ _ | .fail _ _ _ => isTrue trivial

end Steps

variable {s u : State} {e : Event} {k : Tx} {n : ℕ} {id : IdentityId} {row new : WorkRow}
  {now token : ℕ}

section Rows

/-- What holds of a row whose requests have come in order: the active pass is no newer than what is
requested, and the pass of the latest request has its cutoff. -/
structure RowOk (row : WorkRow) : Prop where
  completed : row.completedRevision ≤ row.requestedRevision
  pass : ∀ pass ∈ row.active, pass.revision ≤ row.requestedRevision ∧
    (pass.revision = row.requestedRevision → pass.cutoffAt = row.requestedCutoffAt)
  running : row.status = .running → row.active.isSome

theorem request_ok {work : Option WorkRow} {revision : ℕ}
    (h : ∀ row ∈ work, RowOk row ∧ row.requestedRevision < revision) :
    RowOk (requestWork revision now work) := by
  cases work with
  | none => exact ⟨Nat.zero_le _, fun pass hp => (by cases hp), fun hr => (by cases hr)⟩
  | some row =>
    obtain ⟨hrow, hlt⟩ := h row rfl
    by_cases hk : KeepsPass row
    · rw [request_keeps hk]
      refine ⟨Nat.le_trans hrow.completed (Nat.le_of_lt hlt), ?_, hrow.running⟩
      intro pass hp
      have hle := Nat.lt_of_le_of_lt (hrow.pass pass hp).1 hlt
      exact ⟨Nat.le_of_lt hle, fun heq => absurd heq (Nat.ne_of_lt hle)⟩
    · have hs : (requestWork revision now (some row)).status = .pending := (request_restarts hk).1
      have ha : (requestWork revision now (some row)).active = none := (request_restarts hk).2.1
      refine ⟨?_, ?_, ?_⟩
      · rw [request_revision]
        exact Nat.le_trans hrow.completed (Nat.le_of_lt hlt)
      · intro pass hp
        rw [ha] at hp
        cases hp
      · intro hr
        rw [hs] at hr
        cases hr

theorem request_cutoff {work : Option WorkRow} {revision : ℕ} :
    (requestWork revision now work).requestedCutoffAt = now := by
  cases work <;> rfl

theorem request_busy {work : Option WorkRow} {revision : ℕ} :
    (requestWork revision now work).status ≠ .idle := by
  cases work with
  | none => exact fun h => by cases h
  | some row =>
    by_cases hk : KeepsPass row
    · rw [request_keeps hk]
      obtain ⟨hs | hs, _⟩ := hk
      · simp [hs]
      · simp [hs]
    · rw [(request_restarts hk).1]
      exact fun h => by cases h

/-- A statement that leaves what is requested. -/
structure Kept (row new : WorkRow) : Prop where
  ok : RowOk row → RowOk new
  revision : new.requestedRevision = row.requestedRevision
  cutoff : new.requestedCutoffAt = row.requestedCutoffAt

theorem retire_kept (h : retireAlias row = some new) : Kept row new := by
  unfold retireAlias at h
  split at h
  · cases h
    exact ⟨fun hrow => ⟨hrow.completed, fun _ hp => (by cases hp), fun hr => (by cases hr)⟩,
      rfl, rfl⟩
  · cases h

theorem claim_kept {latestRun : Option RunId}
    (h : ContactProjectionWork.claim now token latestRun row = some new) :
    Kept row new ∧ new.status ≠ .idle := by
  obtain ⟨_, rfl⟩ := claim_some h
  refine ⟨⟨?_, rfl, rfl⟩, fun hi => by cases hi⟩
  intro hrow
  refine ⟨hrow.completed, ?_, fun _ => rfl⟩
  rintro pass ⟨⟩
  unfold claimedPass
  cases ha : row.active with
  | none => exact ⟨Nat.le_refl _, fun _ => rfl⟩
  | some old => exact hrow.pass old ha

theorem advance_kept {last : String × String} (h : advance now token last row = some new) :
    Kept row new ∧ new.status ≠ .idle := by
  obtain ⟨howns, rfl⟩ := advance_some h
  refine ⟨⟨fun hrow => ⟨hrow.completed, hrow.pass, hrow.running⟩, rfl, rfl⟩, ?_⟩
  simp [howns.1]

theorem release_kept (h : release now token row = some new) :
    Kept row new ∧ new.status ≠ .idle := by
  obtain ⟨_, rfl⟩ := release_some h
  exact ⟨⟨fun hrow => ⟨hrow.completed, hrow.pass, fun hr => (by cases hr)⟩, rfl, rfl⟩,
    fun hi => by cases hi⟩

theorem fail_kept (h : fail now token row = some new) : Kept row new ∧ new.status ≠ .idle := by
  unfold fail at h
  split at h
  · cases h
    refine ⟨⟨fun hrow => ⟨hrow.completed, hrow.pass, ?_⟩, rfl, rfl⟩, ?_⟩
    · simp only
      intro hr
      split at hr <;> cases hr
    · simp only
      split <;> simp
  · cases h

/-- A pass that leaves its row idle is the one of the latest request. -/
theorem complete_kept (h : complete now token row = some new) :
    Kept row new ∧ (RowOk row → new.status = .idle →
      activeCutoff (some row) = some row.requestedCutoffAt) := by
  unfold complete at h
  split at h
  · rename_i howns
    cases h
    refine ⟨⟨?_, rfl, rfl⟩, ?_⟩
    · intro hrow
      refine ⟨?_, fun _ hp => (by cases hp), ?_⟩
      · cases ha : row.active with
        | none => exact hrow.completed
        | some pass => exact (hrow.pass pass ha).1
      · simp only
        intro hr
        split at hr <;> cases hr
    · intro hrow hidle
      obtain ⟨pass, ha⟩ := Option.isSome_iff_exists.mp (hrow.running howns.1)
      have hnot : ¬ RequestedSince row := by
        intro hs
        simp [hs] at hidle
      have hle := (hrow.pass pass ha).1
      have hge : ¬ pass.revision < row.requestedRevision := fun hlt => hnot ⟨pass, ha, hlt⟩
      have heq := (hrow.pass pass ha).2 (by omega)
      simp [activeCutoff, ha, heq]
  · cases h

end Rows

section Invariant

/-- The version of a canonical work that the transaction has requested. -/
structure Upserted (s : State) (q : Request) (id : IdentityId) (new : WorkRow) : Prop where
  canonical : id ∈ canonicalWorks q.requested
  busy : new.status ≠ .idle
  cutoff : new.requestedCutoffAt = q.time
  old : ∀ row, s.works id = some row →
    row.requestedRevision ≤ new.requestedRevision ∧ row.requestedCutoffAt ≤ q.time

/-- The version of an alias that it has retired. -/
structure Retired (s : State) (q : Request) (id : IdentityId) (new : WorkRow) : Prop where
  retired : (q.retired.lookup id).isSome
  old : ∃ row, s.works id = some row ∧ new.requestedRevision = row.requestedRevision ∧
    new.requestedCutoffAt = row.requestedCutoffAt

structure Enqueued (s : State) (start : ℕ) (q : Request) : Prop where
  started : start ≤ q.time
  canonical : Canonical q.requested
  waiting : ∀ id ∈ q.waiting, id ∈ canonicalWorks q.requested
  drawn : ∀ p ∈ q.drawn, p.1 ∈ canonicalWorks q.requested
  upserted : ∀ id ∈ canonicalWorks q.requested,
    id ∈ q.waiting ∨ (∃ p ∈ q.drawn, p.1 = id) ∨ (q.works.lookup id).isSome
  ok : ∀ id new, q.works.lookup id = some new → RowOk new
  written : ∀ id new, q.works.lookup id = some new → Upserted s q id new ∨ Retired s q id new
  retired : ∀ id canonical, q.retired.lookup id = some canonical →
    canonical ∈ canonicalWorks q.requested ∧ id ∉ canonicalWorks q.requested ∧
      (q.works.lookup id).isSome ∧ ∃ row, s.works id = some row ∧ row.requestedCutoffAt ≤ q.time

def Holds (s : State) : Tx → Prop
  | .closed => True
  | .opened start _ => start ≤ s.clock
  | .enqueuing start _ q => Enqueued s start q

structure Inv (s : State) : Prop where
  closed : ∀ n, s.started ≤ n → s.txs n = .closed
  exclusive : ∀ m n id, m ≠ n → id ∈ (s.txs m).locks → id ∉ (s.txs n).locks
  rows : ∀ id row, s.works id = some row → RowOk row
  covered : ∀ o ∈ s.observations, ∃ row, s.works o.work = some row ∧
    o.createdAt ≤ row.requestedCutoffAt ∧
    (row.status = .idle → ∃ cutoff ∈ s.passes o.work, o.createdAt ≤ cutoff)
  holds : ∀ n, Holds s (s.txs n)

theorem works_locked (h : k.works.lookup id = some new) : id ∈ k.locks := by
  cases k with
  | enqueuing start locked q =>
    obtain ⟨l₁, l₂, heq, _⟩ := List.lookup_eq_some_iff.mp h
    have heq' : q.works = l₁ ++ (id, new) :: l₂ := heq
    refine List.mem_append_right _ ?_
    rw [heq']
    simp
  | _ => cases h

/-- What the transaction relies on are the works that it has locked. -/
theorem holds_same (hclock : s.clock ≤ u.clock) (hsame : ∀ id ∈ k.locks, u.works id = s.works id)
    (h : Holds s k) : Holds u k := by
  cases k with
  | closed => trivial
  | opened start locked => exact Nat.le_trans h hclock
  | enqueuing start locked q =>
    have hwritten : ∀ id, (q.works.lookup id).isSome → u.works id = s.works id := by
      intro id hid
      obtain ⟨new, hl⟩ := Option.isSome_iff_exists.mp hid
      exact hsame id (works_locked (k := .enqueuing start locked q) hl)
    refine ⟨h.started, h.canonical, h.waiting, h.drawn, h.upserted, h.ok, ?_, ?_⟩
    · intro id new hl
      have hid := hwritten id (by rw [hl]; rfl)
      refine (h.written id new hl).imp (fun hu => ?_) (fun hr => ?_)
      · exact ⟨hu.canonical, hu.busy, hu.cutoff, by rw [hid]; exact hu.old⟩
      · exact ⟨hr.retired, by rw [hid]; exact hr.old⟩
    · intro id canonical hl
      obtain ⟨hc, hn, hs, hold⟩ := h.retired id canonical hl
      exact ⟨hc, hn, hs, by rw [hwritten id hs]; exact hold⟩

end Invariant

section Preservation

theorem free_unlocked (hI : Inv s) {m : ℕ} (hm : m ≠ n) (h : s.Free n id) :
    id ∉ (s.txs m).locks := by
  by_cases hlt : m < s.started
  · exact h m hlt hm
  · rw [hI.closed m (Nat.not_lt.mp hlt)]
    exact List.not_mem_nil

/-- A statement of a transaction, which writes no committed work. -/
theorem inv_stage (hI : Inv s) {q t : ℕ} (hn : n < t) (ht : s.started ≤ t) (hk : Holds s k)
    (hlocks : ∀ id ∈ k.locks, id ∈ (s.txs n).locks ∨ s.Free n id) :
    Inv { s with sequence := q, started := t, txs := Function.update s.txs n k } where
  closed := by
    intro m hm
    have hne : m ≠ n := Nat.ne_of_gt (Nat.lt_of_lt_of_le hn hm)
    simp only [Function.update_of_ne hne]
    exact hI.closed m (Nat.le_trans ht hm)
  exclusive := by
    have hother : ∀ m, m ≠ n → ∀ id ∈ k.locks, id ∉ (s.txs m).locks := by
      intro m hm id hid
      obtain hold | hfree := hlocks id hid
      · exact hI.exclusive n m id (Ne.symm hm) hold
      · exact free_unlocked hI hm hfree
    intro m p id hmp hid
    by_cases hm : m = n
    · subst hm
      simp only [Function.update_self] at hid
      simp only [Function.update_of_ne (Ne.symm hmp)]
      exact hother p (Ne.symm hmp) id hid
    · simp only [Function.update_of_ne hm] at hid
      by_cases hp : p = n
      · subst hp
        simp only [Function.update_self]
        exact fun hl => hother m hm id hl hid
      · simp only [Function.update_of_ne hp]
        exact hI.exclusive m p id hmp hid
  rows := hI.rows
  covered := hI.covered
  holds := by
    intro m
    by_cases hm : m = n
    · subst hm
      simp only [Function.update_self]
      exact holds_same (s := s) (Nat.le_refl s.clock) (fun _ _ => rfl) hk
    · simp only [Function.update_of_ne hm]
      exact holds_same (s := s) (Nat.le_refl s.clock) (fun _ _ => rfl) (hI.holds m)

theorem canonical_alias {q : List (IdentityId × IdentityId)} {canonical : IdentityId}
    (hq : Canonical q) (hp : (id, canonical) ∈ q) (hne : id ≠ canonical) :
    id ∉ canonicalWorks q := by
  intro hid
  obtain ⟨p, hmem, heq⟩ := List.mem_map.mp (List.mem_dedup.mp hid)
  exact hne (hq p hmem _ hp heq).symm

theorem enqueue_enqueued {start : ℕ} {requested : List (IdentityId × IdentityId)}
    (hstart : start ≤ s.clock) (hc : Canonical requested) :
    Enqueued s start (enqueue s.clock requested) where
  started := hstart
  canonical := hc
  waiting _ hid := hid
  drawn _ hp := by cases hp
  upserted _ hid := .inl hid
  ok _ _ hl := by cases hl
  written _ _ hl := by cases hl
  retired _ _ hl := by cases hl

theorem draw_enqueued {start revision : ℕ} {q : Request} (h : Enqueued s start q)
    (hid : id ∈ q.waiting) (hdrawn : q.drawn = none) :
    Enqueued s start { q with waiting := q.waiting.erase id, drawn := some (id, revision) } where
  started := h.started
  canonical := h.canonical
  waiting other hother := h.waiting other (List.mem_of_mem_erase hother)
  drawn := by
    rintro p ⟨⟩
    exact h.waiting id hid
  upserted := by
    intro other hother
    obtain hw | ⟨p, hp, _⟩ | hl := h.upserted other hother
    · by_cases heq : id = other
      · exact .inr (.inl ⟨_, rfl, heq⟩)
      · exact .inl ((List.mem_erase_of_ne (Ne.symm heq)).mpr hw)
    · rw [hdrawn] at hp
      cases hp
    · exact .inr (.inr hl)
  ok := h.ok
  written other new hl := (h.written other new hl).imp
    (fun hu => ⟨hu.canonical, hu.busy, hu.cutoff, hu.old⟩) (fun hr => ⟨hr.retired, hr.old⟩)
  retired := h.retired

theorem lookup_cons_cases {α : Type*} {a b : α} {l : List (IdentityId × α)} {other : IdentityId}
    (h : ((id, a) :: l).lookup other = some b) : (other = id ∧ b = a) ∨ l.lookup other = some b := by
  rw [List.lookup_cons] at h
  by_cases heq : other = id
  · simp only [heq, beq_self_eq_true] at h
    exact .inl ⟨heq, (Option.some.inj h).symm⟩
  · rw [beq_eq_false_iff_ne.mpr heq] at h
    exact .inr h

theorem lookup_cons_isSome {α : Type*} {a : α} {l : List (IdentityId × α)} {other : IdentityId}
    (h : (l.lookup other).isSome) : (((id, a) :: l).lookup other).isSome := by
  rw [List.lookup_cons]
  split
  · rfl
  · exact h

/-- The upsert of a work that nobody has requested later. -/
theorem upsert_enqueued (hI : Inv s) {start revision : ℕ} {q : Request} (h : Enqueued s start q)
    (hdrawn : q.drawn = some (id, revision))
    (hok : ∀ row ∈ s.works id, row.requestedRevision < revision ∧ row.requestedCutoffAt ≤ q.time) :
    Enqueued s start { q with
      drawn := none
      works := (id, requestWork revision q.time (s.works id)) :: q.works } := by
  have hcanonical : id ∈ canonicalWorks q.requested := h.drawn _ hdrawn
  refine ⟨h.started, h.canonical, h.waiting, fun _ hp => (by cases hp), ?_, ?_, ?_, ?_⟩
  · intro other hother
    obtain hw | ⟨p, hp, heq⟩ | hl := h.upserted other hother
    · exact .inl hw
    · rw [hdrawn] at hp
      cases hp
      obtain rfl : id = other := heq
      exact .inr (.inr (by simp))
    · exact .inr (.inr (lookup_cons_isSome hl))
  · intro other new hl
    obtain ⟨rfl, rfl⟩ | hl := lookup_cons_cases hl
    · exact request_ok fun row hrow => ⟨hI.rows _ row hrow, (hok row hrow).1⟩
    · exact h.ok other new hl
  · intro other new hl
    obtain ⟨rfl, rfl⟩ | hl := lookup_cons_cases hl
    · refine .inl ⟨hcanonical, request_busy, request_cutoff, ?_⟩
      intro row hrow
      rw [request_revision]
      exact ⟨Nat.le_of_lt (hok row hrow).1, (hok row hrow).2⟩
    · exact (h.written other new hl).imp
        (fun hu => ⟨hu.canonical, hu.busy, hu.cutoff, hu.old⟩) (fun hr => ⟨hr.retired, hr.old⟩)
  · intro other canonical hl
    obtain ⟨hc, hn, hs, hold⟩ := h.retired other canonical hl
    exact ⟨hc, hn, lookup_cons_isSome hs, hold⟩

/-- The retirement of an alias that nobody has requested later. -/
theorem retire_enqueued (hI : Inv s) {start : ℕ} {canonical : IdentityId} {q : Request}
    (h : Enqueued s start q) (hp : (id, canonical) ∈ q.requested) (hne : id ≠ canonical)
    (hrow : s.works id = some row) (hnew : retireAlias row = some new)
    (hok : row.requestedCutoffAt ≤ q.time) :
    Enqueued s start { q with
      works := (id, new) :: q.works
      retired := (id, canonical) :: q.retired } := by
  have hkept := retire_kept hnew
  refine ⟨h.started, h.canonical, h.waiting, h.drawn, ?_, ?_, ?_, ?_⟩
  · intro other hother
    exact (h.upserted other hother).imp_right fun ho => ho.imp_right lookup_cons_isSome
  · intro other found hl
    obtain ⟨rfl, rfl⟩ | hl := lookup_cons_cases hl
    · exact hkept.ok (hI.rows _ row hrow)
    · exact h.ok other found hl
  · intro other found hl
    obtain ⟨rfl, rfl⟩ | hl := lookup_cons_cases hl
    · exact .inr ⟨by simp, row, hrow, hkept.revision, hkept.cutoff⟩
    · exact (h.written other found hl).imp
        (fun hu => ⟨hu.canonical, hu.busy, hu.cutoff, hu.old⟩)
        (fun hr => ⟨lookup_cons_isSome hr.retired, hr.old⟩)
  · intro other c hl
    obtain ⟨rfl, rfl⟩ | hl := lookup_cons_cases hl
    · refine ⟨List.mem_dedup.mpr (List.mem_map.mpr ⟨_, hp, rfl⟩),
        canonical_alias h.canonical hp hne, by simp, row, hrow, hok⟩
    · obtain ⟨hc, hn, hs, hold⟩ := h.retired other c hl
      exact ⟨hc, hn, lookup_cons_isSome hs, hold⟩

theorem next_inv (hI : Inv s) {event : TxEvent} (hok : InOrder s (.tx n event))
    (h : txNext s n (s.txs n) event = some k) :
    Inv { s with sequence := s.sequence + draws event, txs := Function.update s.txs n k } := by
  have hn : n < s.started := by
    by_contra hge
    rw [hI.closed n (Nat.not_lt.mp hge)] at h
    cases event <;> cases h
  have hholds := hI.holds n
  have hstage : Holds s k → (∀ id ∈ k.locks, id ∈ (s.txs n).locks ∨ s.Free n id) →
      Inv { s with sequence := s.sequence + draws event, txs := Function.update s.txs n k } :=
    fun hk hl => inv_stage hI hn (Nat.le_refl _) hk hl
  generalize hbefore : s.txs n = before at h hholds hstage
  unfold txNext at h
  split at h
  · obtain ⟨⟨_, hfree⟩, rfl⟩ := guarded_eq_some.mp h
    refine hstage hholds ?_
    intro id hid
    obtain rfl | hid := List.mem_cons.mp hid
    · exact .inr hfree
    · exact .inl hid
  · obtain ⟨hc, rfl⟩ := guarded_eq_some.mp h
    refine hstage (enqueue_enqueued hholds hc) ?_
    intro id hid
    simp only [Tx.locks, enqueue, List.map_nil, List.append_nil] at hid
    exact .inl hid
  · obtain ⟨⟨hw, hd⟩, rfl⟩ := guarded_eq_some.mp h
    exact hstage (draw_enqueued hholds hw hd) fun id hid => .inl hid
  · rename_i start locked q
    split at h
    · rename_i id revision hdrawn
      obtain ⟨hfree, rfl⟩ := guarded_eq_some.mp h
      have hrow : ∀ row ∈ s.works id,
          row.requestedRevision < revision ∧ row.requestedCutoffAt ≤ q.time := by
        intro row hrow
        exact hok q (by rw [hbefore]; rfl) _ hdrawn row hrow
      refine hstage (upsert_enqueued hI hholds hdrawn hrow) ?_
      intro other hother
      simp only [Tx.locks, List.map_cons, List.mem_append, List.mem_cons] at hother
      obtain hl | rfl | hw := hother
      · exact .inl (List.mem_append_left _ hl)
      · exact .inr hfree
      · exact .inl (List.mem_append_right _ hw)
    · cases h
  · rename_i start locked q id canonical
    split at h
    · rename_i new hnew
      obtain ⟨row, hrow, hretire⟩ := Option.bind_eq_some_iff.mp hnew
      obtain ⟨⟨_, hp, hne, _, hfree⟩, rfl⟩ := guarded_eq_some.mp h
      have hcutoff : row.requestedCutoffAt ≤ q.time := hok q (by rw [hbefore]; rfl) row hrow
      refine hstage (retire_enqueued hI hholds hp hne hrow hretire hcutoff) ?_
      intro other hother
      simp only [Tx.locks, List.map_cons, List.mem_append, List.mem_cons] at hother
      obtain hl | rfl | hw := hother
      · exact .inl (List.mem_append_left _ hl)
      · exact .inr hfree
      · exact .inl (List.mem_append_right _ hw)
    · cases h
  · cases h

/-- A statement of its own on a work that nobody else has locked. -/
theorem inv_update (hI : Inv s) {passes : IdentityId → List ℕ} (hrow : s.works id = some row)
    (hkept : Kept row new) (hfree : s.Free s.started id)
    (hidle : new.status = .idle → row.requestedCutoffAt ∈ passes id)
    (hpasses : ∀ other, ∀ cutoff ∈ s.passes other, cutoff ∈ passes other) :
    Inv { s with works := Function.update s.works id (some new), passes := passes } where
  closed := hI.closed
  exclusive := hI.exclusive
  rows := by
    intro other found hfound
    by_cases ho : other = id
    · subst ho
      simp only [Function.update_self, Option.some.injEq] at hfound
      rw [← hfound]
      exact hkept.ok (hI.rows _ row hrow)
    · simp only [Function.update_of_ne ho] at hfound
      exact hI.rows other found hfound
  covered := by
    intro o ho
    obtain ⟨found, hfound, hcutoff, hcovered⟩ := hI.covered o ho
    by_cases hid : o.work = id
    · rw [hid, hrow] at hfound
      cases hfound
      refine ⟨new, by simp [hid], by rw [hkept.cutoff]; exact hcutoff, ?_⟩
      intro hs
      exact ⟨_, by simp only [hid]; exact hidle hs, hcutoff⟩
    · refine ⟨found, by simp [hid, hfound], hcutoff, ?_⟩
      intro hs
      obtain ⟨cutoff, hmem, hle⟩ := hcovered hs
      exact ⟨cutoff, hpasses _ cutoff hmem, hle⟩
  holds := by
    intro m
    refine holds_same (s := s) (Nat.le_refl s.clock) ?_ (hI.holds m)
    intro other hother
    refine Function.update_of_ne ?_ _ _
    rintro rfl
    by_cases hm : m = s.started
    · rw [hm, hI.closed _ (Nat.le_refl _)] at hother
      cases hother
    · exact free_unlocked hI hm hfree hother

theorem updateWork_some {f : WorkRow → Option WorkRow} (h : updateWork s id now f = some u) :
    ∃ row new, s.works id = some row ∧ f row = some new ∧ s.Free s.started id ∧
      u = { s with works := Function.update s.works id (some new) } := by
  unfold updateWork at h
  split at h
  · rename_i new hnew
    obtain ⟨row, hrow, hf⟩ := Option.bind_eq_some_iff.mp hnew
    obtain ⟨⟨_, hfree⟩, rfl⟩ := guarded_eq_some.mp h
    exact ⟨row, new, hrow, hf, hfree, rfl⟩
  · cases h

theorem updated_inv (hI : Inv s) {f : WorkRow → Option WorkRow}
    (hf : ∀ row new, f row = some new → Kept row new ∧ new.status ≠ .idle)
    (h : updateWork s id now f = some u) : Inv u := by
  obtain ⟨row, new, hrow, hnew, hfree, rfl⟩ := updateWork_some h
  obtain ⟨hkept, hbusy⟩ := hf row new hnew
  exact inv_update hI hrow hkept hfree (fun hi => absurd hi hbusy) fun _ _ hc => hc

theorem completed_inv (hI : Inv s) (h : updateWork s id now (complete now token) = some u) :
    Inv { u with
      passes := Function.update s.passes id
        ((activeCutoff (s.works id)).toList ++ s.passes id) } := by
  obtain ⟨row, new, hrow, hnew, hfree, rfl⟩ := updateWork_some h
  obtain ⟨hkept, hidle⟩ := complete_kept hnew
  refine inv_update hI hrow hkept hfree ?_ ?_
  · intro hi
    simp [hrow, hidle (hI.rows id row hrow) hi]
  · intro other cutoff hc
    by_cases ho : other = id
    · subst ho
      simp [hc]
    · simpa [Function.update_of_ne ho] using hc

/-- What a commit makes of a work, and of what counts for it. -/
theorem committed_covered (hI : Inv s) (hk : (s.txs n).Done) {o : Observation}
    (ho : o ∈ observed s.observations (s.txs n)) :
    ∃ row, (committed s (s.txs n)).works o.work = some row ∧
      o.createdAt ≤ row.requestedCutoffAt ∧
      (row.status = .idle → ∃ cutoff ∈ s.passes o.work, o.createdAt ≤ cutoff) := by
  have hholds := hI.holds n
  generalize s.txs n = k at hk ho hholds
  cases k with
  | closed => exact absurd hk id
  | opened start locked => exact hI.covered o ho
  | enqueuing start locked q =>
    have hcanonical : ∀ id ∈ canonicalWorks q.requested, ∀ t ≤ q.time, ∃ row,
        (committed s (.enqueuing start locked q)).works id = some row ∧
          t ≤ row.requestedCutoffAt ∧
          (row.status = .idle → ∃ cutoff ∈ s.passes id, t ≤ cutoff) := by
      intro id hid t ht
      have hsome : (q.works.lookup id).isSome := by
        obtain hw | ⟨p, hp, _⟩ | hl := hholds.upserted id hid
        · rw [hk.1] at hw
          cases hw
        · rw [hk.2] at hp
          cases hp
        · exact hl
      obtain ⟨new, hl⟩ := Option.isSome_iff_exists.mp hsome
      have hnew : (committed s (.enqueuing start locked q)).works id = some new := by
        simp [committed, Tx.works, hl]
      obtain hu | hr := hholds.written id new hl
      · exact ⟨new, hnew, by rw [hu.cutoff]; exact ht, fun hi => absurd hi hu.busy⟩
      · obtain ⟨c, hc⟩ := Option.isSome_iff_exists.mp hr.retired
        exact absurd hid (hholds.retired id c hc).2.1
    obtain ho | ho := List.mem_append.mp ho
    · obtain ⟨id, hid, rfl⟩ := List.mem_map.mp ho
      exact hcanonical id hid start hholds.started
    · obtain ⟨old, hold, rfl⟩ := List.mem_map.mp ho
      obtain ⟨row, hrow, hcutoff, hcovered⟩ := hI.covered old hold
      cases hr : q.retired.lookup old.work with
      | some c =>
        obtain ⟨hc, _, _, found, hfound, hle⟩ := hholds.retired _ c hr
        rw [hrow] at hfound
        cases hfound
        exact hcanonical c hc old.createdAt (Nat.le_trans hcutoff hle)
      | none =>
        simp only [Option.getD_none]
        cases hl : q.works.lookup old.work with
        | none => exact ⟨row, by simp [committed, Tx.works, hl, hrow], hcutoff, hcovered⟩
        | some new =>
          refine ⟨new, by simp [committed, Tx.works, hl], ?_⟩
          obtain hu | hn := hholds.written _ new hl
          · refine ⟨?_, fun hi => absurd hi hu.busy⟩
            rw [hu.cutoff]
            exact Nat.le_trans hcutoff (hu.old row hrow).2
          · have hretired := hn.retired
            rw [hr] at hretired
            cases hretired

theorem committed_inv (hI : Inv s) (hk : (s.txs n).Done) :
    Inv { committed s (s.txs n) with txs := Function.update s.txs n .closed } where
  closed := by
    intro m hm
    by_cases hmn : m = n
    · simp [hmn]
    · simp only [Function.update_of_ne hmn]
      exact hI.closed m hm
  exclusive := by
    intro m p id hmp hid
    by_cases hm : m = n
    · subst hm
      simp only [Function.update_self] at hid
      cases hid
    · simp only [Function.update_of_ne hm] at hid
      by_cases hp : p = n
      · subst hp
        simp only [Function.update_self]
        exact List.not_mem_nil
      · simp only [Function.update_of_ne hp]
        exact hI.exclusive m p id hmp hid
  rows := by
    intro id row hrow
    have hholds := hI.holds n
    simp only [committed] at hrow
    cases hl : (s.txs n).works.lookup id with
    | none =>
      rw [hl] at hrow
      exact hI.rows id row hrow
    | some new =>
      rw [hl] at hrow
      cases hrow
      cases hc : s.txs n with
      | enqueuing start locked q =>
        rw [hc] at hl hholds
        exact hholds.ok id row hl
      | _ =>
        rw [hc] at hl
        cases hl
  covered o ho := committed_covered hI hk ho
  holds := by
    intro m
    by_cases hm : m = n
    · subst hm
      simp only [Function.update_self]
      trivial
    · simp only [Function.update_of_ne hm]
      refine holds_same (s := s) (Nat.le_refl s.clock) ?_ (hI.holds m)
      intro id hid
      simp only [committed]
      cases hl : (s.txs n).works.lookup id with
      | none => rfl
      | some new =>
        exact absurd (works_locked hl) (hI.exclusive m n id hm hid)

theorem step_inv (hI : Inv s) (hok : InOrder s e) (h : step s e = some u) : Inv u := by
  have hnext : ∀ n event, InOrder s (.tx n event) →
      (txNext s n (s.txs n) event).map (fun k =>
        { s with sequence := s.sequence + draws event, txs := Function.update s.txs n k }) = some u →
      Inv u := by
    intro n event hok h
    obtain ⟨k, hk, rfl⟩ := Option.map_eq_some_iff.mp h
    exact next_inv hI hok hk
  cases e with
  | tick ms =>
    cases h
    exact ⟨hI.closed, hI.exclusive, hI.rows, hI.covered, fun m =>
      holds_same (Nat.le_add_right _ _) (fun _ _ => rfl) (hI.holds m)⟩
  | drawElsewhere =>
    cases h
    exact ⟨hI.closed, hI.exclusive, hI.rows, hI.covered, fun m =>
      holds_same (s := s) (Nat.le_refl s.clock) (fun _ _ => rfl) (hI.holds m)⟩
  | begin =>
    cases h
    exact inv_stage hI (Nat.lt_succ_self _) (Nat.le_succ _) (Nat.le_refl s.clock)
      fun id hid => absurd hid List.not_mem_nil
  | tx n event =>
    cases event with
    | commit =>
      obtain ⟨hk, rfl⟩ := guarded_eq_some.mp h
      exact committed_inv hI hk
    | abort =>
      obtain ⟨hopen, rfl⟩ := guarded_eq_some.mp h
      have hn : n < s.started := by
        by_contra hge
        exact hopen (hI.closed n (Nat.not_lt.mp hge))
      exact inv_stage hI hn (Nat.le_refl _) trivial fun id hid => absurd hid List.not_mem_nil
    | _ => exact hnext n _ hok h
  | claim id now token latestRun => exact updated_inv hI (fun _ _ => claim_kept) h
  | advance id now token last => exact updated_inv hI (fun _ _ => advance_kept) h
  | complete id now token =>
    obtain ⟨v, hv, rfl⟩ := Option.map_eq_some_iff.mp h
    exact completed_inv hI hv
  | release id now token => exact updated_inv hI (fun _ _ => release_kept) h
  | fail id now token => exact updated_inv hI (fun _ _ => fail_kept) h

theorem initial_inv : Inv initial where
  closed _ _ := rfl
  exclusive m n id _ hid := by cases hid
  rows id row h := by cases h
  covered o ho := by cases ho
  holds _ := trivial

theorem reachable_inv (h : Reachable (restrict system InOrder) s) : Inv s := by
  refine reachable_invariant (I := Inv) ?_ ?_ h
  · rintro t rfl
    exact initial_inv
  · exact fun t e hI he => step_inv hI he.2 (ofStep_enabled he.1)

end Preservation

section Requests

/-- A work keeps what is requested of it, or is requested again later. -/
def Later (s u : State) : Prop :=
  ∀ id row, s.works id = some row → ∃ new, u.works id = some new ∧
    row.requestedRevision ≤ new.requestedRevision ∧ row.requestedCutoffAt ≤ new.requestedCutoffAt

theorem later_same (h : u.works = s.works) : Later s u := by
  intro id row hrow
  exact ⟨row, by rw [h, hrow], Nat.le_refl _, Nat.le_refl _⟩

theorem later_trans {v : State} (h : Later s u) (h' : Later u v) : Later s v := by
  intro id row hrow
  obtain ⟨new, hnew, hr, hc⟩ := h id row hrow
  obtain ⟨last, hlast, hr', hc'⟩ := h' id new hnew
  exact ⟨last, hlast, Nat.le_trans hr hr', Nat.le_trans hc hc'⟩

theorem updated_later {f : WorkRow → Option WorkRow} (hf : ∀ row new, f row = some new → Kept row new)
    (h : updateWork s id now f = some u) : Later s u := by
  obtain ⟨row, new, hrow, hnew, _, rfl⟩ := updateWork_some h
  have hkept := hf row new hnew
  intro other found hfound
  by_cases ho : other = id
  · subst ho
    rw [hrow] at hfound
    cases hfound
    exact ⟨new, by simp, Nat.le_of_eq hkept.revision.symm, Nat.le_of_eq hkept.cutoff.symm⟩
  · exact ⟨found, by simp [ho, hfound], Nat.le_refl _, Nat.le_refl _⟩

theorem committed_later (hI : Inv s) : Later s (committed s (s.txs n)) := by
  intro id row hrow
  cases hl : (s.txs n).works.lookup id with
  | none => exact ⟨row, by simp [committed, hl, hrow], Nat.le_refl _, Nat.le_refl _⟩
  | some new =>
    refine ⟨new, by simp [committed, hl], ?_⟩
    have hholds := hI.holds n
    cases hc : s.txs n with
    | enqueuing start locked q =>
      rw [hc] at hl hholds
      obtain hu | hr := hholds.written id new hl
      · obtain ⟨hrevision, hcutoff⟩ := hu.old row hrow
        exact ⟨hrevision, by rw [hu.cutoff]; exact hcutoff⟩
      · obtain ⟨old, hold, hrevision, hcutoff⟩ := hr.old
        rw [hrow] at hold
        cases hold
        exact ⟨Nat.le_of_eq hrevision.symm, Nat.le_of_eq hcutoff.symm⟩
    | _ =>
      rw [hc] at hl
      cases hl

theorem step_later (hI : Inv s) (h : step s e = some u) : Later s u := by
  have hnext : ∀ n event, (txNext s n (s.txs n) event).map (fun k =>
      { s with sequence := s.sequence + draws event, txs := Function.update s.txs n k }) = some u →
      Later s u := by
    intro n event h
    obtain ⟨k, _, rfl⟩ := Option.map_eq_some_iff.mp h
    exact later_same rfl
  cases e with
  | tick ms =>
    cases h
    exact later_same rfl
  | drawElsewhere =>
    cases h
    exact later_same rfl
  | begin =>
    cases h
    exact later_same rfl
  | tx n event =>
    cases event with
    | commit =>
      obtain ⟨_, rfl⟩ := guarded_eq_some.mp h
      exact committed_later hI
    | abort =>
      obtain ⟨_, rfl⟩ := guarded_eq_some.mp h
      exact later_same rfl
    | _ => exact hnext n _ h
  | claim id now token latestRun => exact updated_later (fun _ _ hf => (claim_kept hf).1) h
  | advance id now token last => exact updated_later (fun _ _ hf => (advance_kept hf).1) h
  | complete id now token =>
    obtain ⟨v, hv, rfl⟩ := Option.map_eq_some_iff.mp h
    have hlater : Later s v := updated_later (fun _ _ hf => (complete_kept hf).1) hv
    exact hlater
  | release id now token => exact updated_later (fun _ _ hf => (release_kept hf).1) h
  | fail id now token => exact updated_later (fun _ _ hf => (fail_kept hf).1) h

/-- Where no enqueue reaches a work that has been requested later since, what is requested of a work
never decreases, no completion goes beyond it, and behind an idle work there is a completed pass for
every observation that counts for it. -/
theorem ordered_requests_covered (hs : Reachable (restrict system InOrder) s) :
    (∀ es u, Execution (restrict system InOrder) s es u → ∀ id row, s.works id = some row →
      ∃ new, u.works id = some new ∧ row.requestedRevision ≤ new.requestedRevision ∧
        row.requestedCutoffAt ≤ new.requestedCutoffAt) ∧
    (∀ id row, s.works id = some row → row.completedRevision ≤ row.requestedRevision) ∧
    ∀ o ∈ s.observations, ∃ row, s.works o.work = some row ∧
      (row.status = .idle → ∃ cutoff ∈ s.passes o.work, o.createdAt ≤ cutoff) := by
  have hI := reachable_inv hs
  refine ⟨?_, fun id row hrow => (hI.rows id row hrow).completed, ?_⟩
  · intro es u hx
    refine related_along (R := Later) (fun _ => later_same rfl) ?_ hs hx
    intro t v e ht hlater he
    exact later_trans hlater (step_later (reachable_inv ht) (ofStep_enabled he.1))
  · intro o ho
    obtain ⟨row, hrow, _, hcovered⟩ := hI.covered o ho
    exact ⟨row, hrow, hcovered⟩

/-- One observation, and the pass that covers it. -/
def passed : List Event :=
  [.tick 5, .begin, .tx 0 (.enqueue [(1, 1)]), .tx 0 (.draw 1), .tx 0 .upsert, .tx 0 .commit,
    .claim 1 5 7 none, .complete 1 5 7]

theorem passed_work_covers :
    ∃ row, (runTrace system initial passed).works 1 = some row ∧ row.status = .idle ∧
      ∃ cutoff ∈ (runTrace system initial passed).passes 1, 5 ≤ cutoff := by
  have hvalid : ValidTrace (restrict system InOrder) initial passed := by decide +kernel
  have hreach : Reachable (restrict system InOrder) (runTrace system initial passed) :=
    ⟨_, valid_trace_restricted_run rfl hvalid⟩
  obtain ⟨row, hrow, hcovered⟩ := (ordered_requests_covered hreach).2.2 ⟨5, 1, 1⟩ (by decide +kernel)
  have hidle : row.status = .idle := by
    cases hrow
    rfl
  exact ⟨row, hrow, hidle, hcovered hidle⟩

/-- An identity is requested, and resolved to another one before its pass. -/
def resolvedSince : List Event :=
  [.begin, .tx 0 (.enqueue [(1, 1)]), .tx 0 (.draw 1), .tx 0 .upsert, .tx 0 .commit, .tick 1,
    .begin, .tx 1 (.enqueue [(1, 2)]), .tx 1 (.draw 2), .tx 1 .upsert, .tx 1 (.retire 1 2),
    .tx 1 .commit]

/-- An enqueue of two identities is still at the first one when the second is requested. -/
def requestedSince : List Event :=
  [.begin, .tx 0 (.enqueue [(1, 1), (2, 2)]), .tx 0 (.draw 1), .tx 0 .upsert, .tick 10, .begin,
    .tx 1 (.enqueue [(2, 2)]), .tx 1 (.draw 2), .tx 1 .upsert, .tx 1 .commit]

def passedOver : List Event :=
  [.tx 0 (.draw 2), .tx 0 .upsert, .tx 0 .commit, .claim 2 10 7 none, .complete 2 10 7]

/-- A retired work is idle without a pass. A request that comes late takes the cutoff back, and the
observation that was requested in between is left out of the pass that leaves the work idle. -/
theorem idle_works_miss_observations :
    (∃ s row, Reachable (restrict system InOrder) s ∧ ⟨0, 1, 2⟩ ∈ s.observations ∧
      s.works 1 = some row ∧ row.status = .idle ∧ ∀ id, s.passes id = []) ∧
    ∃ s es u row new, Reachable system s ∧ Execution system s es u ∧
      s.works 2 = some row ∧ u.works 2 = some new ∧
      new.requestedCutoffAt < row.requestedCutoffAt ∧ new.status = .idle ∧
      ⟨10, 2, 2⟩ ∈ u.observations ∧ u.passes 2 = [0] := by
  have hfirst : ValidTrace (restrict system InOrder) initial resolvedSince := by decide +kernel
  have hlast : ValidTrace system initial (requestedSince ++ passedOver) := by decide +kernel
  obtain ⟨hbefore, hafter⟩ := valid_trace_append.mp hlast
  refine ⟨⟨_, _, ⟨_, valid_trace_restricted_run rfl hfirst⟩, by decide +kernel, rfl, rfl,
    fun _ => rfl⟩, _, _, _, _, _, ⟨_, valid_trace_run rfl hbefore⟩, valid_trace_execution hafter, rfl, rfl,
    by decide +kernel, rfl, by decide +kernel, rfl⟩

end Requests

end ProjectionRequests
