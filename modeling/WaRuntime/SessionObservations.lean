import Mathlib.Data.Nat.Notation
import Mathlib.Order.Nat
import WaRuntime.LastWriterRegisters
import WaRuntime.RowVersions
import WaRuntime.TransitionRuns

/-! The status and the restriction of a session.
Two statements write them, each in a transaction of its own: the upsert of a session snapshot and
the UPDATE that a session event makes. The observations that have been applied, and those of the
open transactions, are kept beside the row. -/
namespace SessionObservations

open TransitionRuns RowVersions LastWriterRegisters

abbrev TxId := ℕ

/-- What a snapshot says about a session besides its status and its restriction. -/
structure SessionDetails where
  name : String
  phone : Option String
  pushName : Option String
  connectedAt : Option ℕ
  lastActiveAt : Option ℕ
  engineLoaded : Bool
  lastError : Option String
  deriving DecidableEq, Repr

/-- A row of `gateway_sessions`. -/
structure SessionRow where
  details : SessionDetails
  status : String
  restriction : Option String
  statusObservedAt : ℕ
  restrictionObservedAt : ℕ
  gatewayUpdatedAt : ℕ
  deriving DecidableEq, Repr

structure OpenWASession where
  details : SessionDetails
  status : String
  restriction : Option String
  updatedAt : ℕ
  deriving DecidableEq, Repr

inductive Observation where
  | statusChanged (status : String) (occurredAt : ℕ)
  | restrictionChanged (active : Bool) (payload : String) (occurredAt : ℕ)
  | snapshot (session : OpenWASession)
  deriving DecidableEq, Repr

section Statements

/-- The ON CONFLICT clause of `upsertSession`. -/
def upsertSession (session : OpenWASession) (row : SessionRow) : SessionRow where
  details := session.details
  status := if row.statusObservedAt < session.updatedAt then session.status else row.status
  restriction :=
    if row.restrictionObservedAt < session.updatedAt then session.restriction else row.restriction
  statusObservedAt := max row.statusObservedAt session.updatedAt
  restrictionObservedAt := max row.restrictionObservedAt session.updatedAt
  gatewayUpdatedAt := max row.gatewayUpdatedAt session.updatedAt

/-- The UPDATE for `session.status.changed`. -/
def changeStatus (status : String) (occurredAt : ℕ) (row : SessionRow) : Option SessionRow :=
  if row.statusObservedAt < occurredAt then
    some { row with
      status := status
      statusObservedAt := occurredAt
      gatewayUpdatedAt := max row.gatewayUpdatedAt occurredAt }
  else none

/-- The UPDATE for `session.restriction.changed`. -/
def changeRestriction (active : Bool) (payload : String) (occurredAt : ℕ) (row : SessionRow) :
    Option SessionRow :=
  if row.restrictionObservedAt < occurredAt then
    some { row with
      restriction := if active then some payload else none
      restrictionObservedAt := occurredAt
      gatewayUpdatedAt := max row.gatewayUpdatedAt occurredAt }
  else none

def Observation.statement : Observation → SessionRow → Option SessionRow
  | .statusChanged status occurredAt, row => changeStatus status occurredAt row
  | .restrictionChanged active payload occurredAt, row =>
    changeRestriction active payload occurredAt row
  | .snapshot session, row => some (upsertSession session row)

end Statements

section System

/-- `applied` are the observations of the committed transactions, `pending` those of an open one. -/
structure State where
  row : Row TxId SessionRow
  applied : List Observation
  pending : TxId → List Observation

inductive Event where
  | apply (tx : TxId) (o : Observation)
  | commit (tx : TxId)
  | abort (tx : TxId)
  deriving Repr

def step (s : State) : Event → Option State
  | .apply tx o =>
    guarded (s.row.ReadyIn tx o.statement)
      { s with
        row := s.row.updateIn tx o.statement
        pending := Function.update s.pending tx (s.pending tx ++ [o]) }
  | .commit tx =>
    some
      { row := s.row.commit tx
        applied := s.applied ++ s.pending tx
        pending := Function.update s.pending tx [] }
  | .abort tx => some { s with row := s.row.abort tx, pending := Function.update s.pending tx [] }

/-- A session that exists, and its row as it is. -/
def system (start : SessionRow) : System State Event :=
  ofStep (fun s => s = ⟨Row.settled start, [], fun _ => []⟩) step

instance (start : SessionRow) (s : State) (e : Event) : Decidable ((system start).enabled s e) :=
  inferInstanceAs (Decidable ((step s e).isSome = true))

end System

section Fields

/-- The two fields that have a time of observation of their own. -/
inductive Field where
  | status
  | restriction
  deriving DecidableEq, Repr

def register (field : Field) (row : SessionRow) : Entry ℕ (Option String) :=
  match field with
  | .status => ⟨row.statusObservedAt, some row.status⟩
  | .restriction => ⟨row.restrictionObservedAt, row.restriction⟩

/-- What an observation says about the field, if anything. -/
def Observation.entry (field : Field) : Observation → Option (Entry ℕ (Option String))
  | .statusChanged status occurredAt =>
    match field with
    | .status => some ⟨occurredAt, some status⟩
    | .restriction => none
  | .restrictionChanged active payload occurredAt =>
    match field with
    | .status => none
    | .restriction => some ⟨occurredAt, if active then some payload else none⟩
  | .snapshot session =>
    match field with
    | .status => some ⟨session.updatedAt, some session.status⟩
    | .restriction => some ⟨session.updatedAt, session.restriction⟩

/-- The observations of the field, that of the row included. -/
def history (start : SessionRow) (field : Field) (observations : List Observation) :
    List (Entry ℕ (Option String)) :=
  register field start :: observations.filterMap (Observation.entry field)

end Fields

section Rows

variable {row : Row TxId SessionRow} {tx u : TxId} {f : SessionRow → Option SessionRow}

theorem view_updateIn (row : Row TxId SessionRow) (tx : TxId)
    (f : SessionRow → Option SessionRow) :
    (row.updateIn tx f).view tx = (f (row.view tx)).getD (row.view tx) := by
  unfold Row.updateIn
  cases hf : f (row.view tx) with
  | none => rfl
  | some new => exact Row.view_write

theorem view_updateIn_other (h : row.ReadyIn tx f) (hu : u ≠ tx) :
    (row.updateIn tx f).view u = row.view u := by
  obtain heq | ⟨new, hfree, _, heq⟩ := Row.updateIn_cases h
  · rw [heq]
  · have hafter : (row.write tx new).view u = row.committed :=
      Row.view_of_not_held (r := row.write tx new) (Row.not_held_of_held rfl hu.symm)
    rw [heq, hafter, Row.view_of_not_held (Row.not_held_of_free_for hfree hu.symm)]

theorem view_commit (row : Row TxId SessionRow) (tx : TxId) :
    (row.commit tx).view tx = row.view tx := by
  obtain ⟨_, heq⟩ | ⟨v, hheld, heq⟩ := Row.commit_cases tx row
  · rw [heq]
  · rw [heq, Row.view_of_held hheld]
    exact Row.view_of_free rfl

/-- A commit shows its version to the others, or there is none and all see what they saw. -/
theorem view_commit_other (hu : u ≠ tx) :
    ((row.commit tx).view u = row.view tx ∧ row.view u = row.committed) ∨
      ((row.commit tx).view u = row.view u ∧ row.view tx = row.committed) := by
  obtain ⟨hnot, heq⟩ | ⟨v, hheld, heq⟩ := Row.commit_cases tx row
  · rw [heq]
    exact .inr ⟨rfl, Row.view_of_not_held hnot⟩
  · rw [heq, Row.view_of_held hheld]
    exact .inl ⟨Row.view_of_free rfl, Row.view_of_not_held (Row.not_held_of_held hheld hu.symm)⟩

theorem view_abort (row : Row TxId SessionRow) (tx : TxId) :
    (row.abort tx).view tx = row.committed := by
  obtain ⟨hnot, heq⟩ | ⟨v, _, heq⟩ := Row.abort_cases tx row
  · rw [heq]
    exact Row.view_of_not_held hnot
  · rw [heq]
    exact Row.view_of_free (r := ⟨row.committed, none⟩) rfl

theorem view_abort_other (hu : u ≠ tx) : (row.abort tx).view u = row.view u := by
  obtain ⟨_, heq⟩ | ⟨v, hheld, heq⟩ := Row.abort_cases tx row
  · rw [heq]
  · rw [heq, Row.view_of_not_held (Row.not_held_of_held hheld hu.symm)]
    exact Row.view_of_free (r := ⟨row.committed, none⟩) rfl

end Rows

section Histories

variable {start row : SessionRow} {field : Field} {observations later : List Observation}
  {o : Observation}

/-- A statement absorbs what its observation says about each field. -/
theorem register_statement (field : Field) (o : Observation) (row : SessionRow) :
    register field ((o.statement row).getD row) =
      ((o.entry field).map (observe (register field row))).getD (register field row) := by
  cases o with
  | statusChanged status occurredAt =>
    cases field with
    | status =>
      simp only [Observation.statement, changeStatus, Observation.entry, Option.map_some,
        Option.getD_some, observe, register]
      split <;> rfl
    | restriction =>
      simp only [Observation.statement, changeStatus, Observation.entry, Option.map_none,
        Option.getD_none, register]
      split <;> rfl
  | restrictionChanged active payload occurredAt =>
    cases field with
    | status =>
      simp only [Observation.statement, changeRestriction, Observation.entry, Option.map_none,
        Option.getD_none, register]
      split <;> rfl
    | restriction =>
      simp only [Observation.statement, changeRestriction, Observation.entry, Option.map_some,
        Option.getD_some, observe, register]
      split <;> rfl
  | snapshot session =>
    cases field with
    | status =>
      simp only [Observation.statement, upsertSession, Observation.entry, Option.map_some,
        Option.getD_some, observe, register]
      split
      · rename_i hlt
        rw [max_eq_right hlt.le]
      · rename_i hle
        rw [max_eq_left (not_lt.mp hle)]
    | restriction =>
      simp only [Observation.statement, upsertSession, Observation.entry, Option.map_some,
        Option.getD_some, observe, register]
      split
      · rename_i hlt
        rw [max_eq_right hlt.le]
      · rename_i hle
        rw [max_eq_left (not_lt.mp hle)]

theorem history_append (start : SessionRow) (field : Field) (observations later : List Observation) :
    history start field (observations ++ later) =
      history start field observations ++ later.filterMap (Observation.entry field) := by
  simp [history]

theorem mem_history {e : Entry ℕ (Option String)} :
    e ∈ history start field observations ↔
      e = register field start ∨ ∃ o ∈ observations, o.entry field = some e := by
  simp [history]

/-- One more observation. -/
theorem newest_statement (h : Newest (register field row) (history start field observations)) :
    Newest (register field ((o.statement row).getD row))
      (history start field (observations ++ [o])) := by
  rw [register_statement, history_append]
  cases hentry : o.entry field with
  | none => simpa [hentry] using h
  | some e => simpa [hentry] using newest_observe h e

/-- Observations that are no newer than the register. -/
theorem newest_more (h : Newest (register field row) (history start field observations))
    (hsub : ∀ o ∈ observations, o ∈ later)
    (hold : ∀ o ∈ later, o ∈ observations ∨
      ∀ e, o.entry field = some e → e.stamp ≤ (register field row).stamp) :
    Newest (register field row) (history start field later) := by
  refine newest_older h (fun e he => ?_) fun e he => ?_
  · obtain rfl | ⟨o, ho, hentry⟩ := mem_history.mp he
    · exact mem_history.mpr (.inl rfl)
    · exact mem_history.mpr (.inr ⟨o, hsub o ho, hentry⟩)
  · obtain rfl | ⟨o, ho, hentry⟩ := mem_history.mp he
    · exact .inl (mem_history.mpr (.inl rfl))
    · obtain ho | hle := hold o ho
      · exact .inl (mem_history.mpr (.inr ⟨o, ho, hentry⟩))
      · exact .inr (hle e hentry)

theorem newest_covers (h : Newest (register field row) (history start field observations))
    (ho : o ∈ observations) : ∀ e, o.entry field = some e → e.stamp ≤ (register field row).stamp :=
  fun e hentry => h.max e (mem_history.mpr (.inr ⟨o, ho, hentry⟩))

end Histories

section Steps

variable {start : SessionRow} {s t : State} {e : Event}

/-- Every version of the row has the newest of the observations that made it. -/
structure Sound (start : SessionRow) (s : State) : Prop where
  committed : ∀ field, Newest (register field s.row.committed) (history start field s.applied)
  view : ∀ tx field,
    Newest (register field (s.row.view tx)) (history start field (s.applied ++ s.pending tx))

theorem committed_older (h : Sound start s) (tx : TxId) (field : Field) :
    (register field s.row.committed).stamp ≤ (register field (s.row.view tx)).stamp := by
  refine (h.view tx field).max _ ?_
  rw [history_append]
  exact List.mem_append_left _ (h.committed field).mem

theorem sound_apply (h : Sound start s) {tx : TxId} {o : Observation}
    (hready : s.row.ReadyIn tx o.statement) :
    Sound start { s with
      row := s.row.updateIn tx o.statement
      pending := Function.update s.pending tx (s.pending tx ++ [o]) } := by
  refine ⟨fun field => ?_, fun u field => ?_⟩
  · rw [Row.updateIn_committed]
    exact h.committed field
  · by_cases hu : u = tx
    · subst hu
      simp only [view_updateIn, Function.update_self, ← List.append_assoc]
      exact newest_statement (h.view u field)
    · simp only [view_updateIn_other hready hu, Function.update_of_ne hu]
      exact h.view u field

/-- What a commit adds to the observations of another transaction is no newer than what that one
sees, whichever of the two has changed the row. -/
theorem sound_commit (h : Sound start s) (tx : TxId) :
    Sound start
      { row := s.row.commit tx
        applied := s.applied ++ s.pending tx
        pending := Function.update s.pending tx [] } := by
  refine ⟨fun field => ?_, fun u field => ?_⟩
  · rw [Row.commit_committed]
    exact h.view tx field
  · by_cases hu : u = tx
    · subst hu
      simp only [view_commit, Function.update_self, List.append_nil]
      exact h.view u field
    · have hown := h.view tx field
      have hothers := h.view u field
      simp only [Function.update_of_ne hu]
      have hcases := @view_commit_other s.row _ _ hu
      obtain ⟨hview, hseen⟩ | ⟨hview, hseen⟩ := hcases
      · rw [hview]
        refine newest_more hown (fun o ho => List.mem_append_left _ ho) fun o ho => ?_
        obtain ho | ho := List.mem_append.mp ho
        · exact .inl ho
        · refine .inr fun e hentry => ?_
          have hle := newest_covers hothers (List.mem_append_right _ ho) e hentry
          rw [hseen] at hle
          exact hle.trans (committed_older h tx field)
      · rw [hview]
        refine newest_more hothers (fun o ho => ?_) fun o ho => ?_
        · obtain ho | ho := List.mem_append.mp ho
          · exact List.mem_append_left _ (List.mem_append_left _ ho)
          · exact List.mem_append_right _ ho
        · obtain ho | ho := List.mem_append.mp ho
          · obtain ho | ho := List.mem_append.mp ho
            · exact .inl (List.mem_append_left _ ho)
            · refine .inr fun e hentry => ?_
              have hle := newest_covers hown (List.mem_append_right _ ho) e hentry
              rw [hseen] at hle
              exact hle.trans (committed_older h u field)
          · exact .inl (List.mem_append_right _ ho)

theorem sound_abort (h : Sound start s) (tx : TxId) :
    Sound start
      { s with row := s.row.abort tx, pending := Function.update s.pending tx [] } := by
  refine ⟨fun field => ?_, fun u field => ?_⟩
  · rw [Row.abort_committed]
    exact h.committed field
  · by_cases hu : u = tx
    · subst hu
      simp only [view_abort, Function.update_self, List.append_nil]
      exact h.committed field
    · simp only [view_abort_other hu, Function.update_of_ne hu]
      exact h.view u field

theorem sound_step (h : Sound start s) (hstep : step s e = some t) : Sound start t := by
  cases e with
  | apply tx o =>
    obtain ⟨hready, rfl⟩ := guarded_eq_some.mp hstep
    exact sound_apply h hready
  | commit tx =>
    cases hstep
    exact sound_commit h tx
  | abort tx =>
    cases hstep
    exact sound_abort h tx

theorem sound_start (start : SessionRow) : Sound start ⟨Row.settled start, [], fun _ => []⟩ :=
  ⟨fun field => newest_single (register field start), fun _ field =>
    newest_single (register field start)⟩

theorem reachable_sound (h : Reachable (system start) s) : Sound start s := by
  refine reachable_invariant (M := system start) (I := Sound start) ?_ ?_ h
  · rintro s rfl
    exact sound_start start
  · intro s e hs he
    exact sound_step hs (ofStep_enabled he)

end Steps

section Convergence

variable {start : SessionRow} {s : State}

/-- However the observations came, each field is that of its newest one. -/
theorem session_converges (h : Reachable (system start) s) (field : Field)
    (hdistinct : Distinct (history start field s.applied)) :
    Newest (register field s.row.committed) (history start field s.applied) ∧
      ∀ e, Newest e (history start field s.applied) → register field s.row.committed = e := by
  have hnewest := (reachable_sound h).committed field
  exact ⟨hnewest, fun e he => newest_unique hdistinct hnewest he⟩

def quietSession : SessionRow where
  details := ⟨"Shop", none, none, none, none, true, none⟩
  status := "qr"
  restriction := none
  statusObservedAt := 10
  restrictionObservedAt := 10
  gatewayUpdatedAt := 10

/-- Two events, a repeated one and a snapshot between them in time, and none in order. -/
def lateObservations : List Event :=
  [.apply 1 (.statusChanged "ready" 40), .commit 1,
    .apply 2 (.snapshot ⟨quietSession.details, "connecting", some "\"soft\"", 30⟩), .commit 2,
    .apply 3 (.restrictionChanged true "\"hard\"" 20), .commit 3,
    .apply 4 (.statusChanged "ready" 40), .commit 4]

theorem late_observations_converge :
    (runTrace (system quietSession) ⟨Row.settled quietSession, [], fun _ => []⟩
        lateObservations).row.committed.status = "ready" ∧
      (runTrace (system quietSession) ⟨Row.settled quietSession, [], fun _ => []⟩
        lateObservations).row.committed.restriction = some "\"soft\"" := by
  have hvalid : ValidTrace (system quietSession) ⟨Row.settled quietSession, [], fun _ => []⟩
      lateObservations := by decide
  have hreach : Reachable (system quietSession) (runTrace (system quietSession)
      ⟨Row.settled quietSession, [], fun _ => []⟩ lateObservations) :=
    ⟨_, valid_trace_run rfl hvalid⟩
  have hstatus := (session_converges hreach .status (by unfold Distinct; decide)).2
    ⟨40, some "ready"⟩ ⟨by decide, by decide⟩
  have hrestriction := (session_converges hreach .restriction (by unfold Distinct; decide)).2
    ⟨30, some "\"soft\""⟩ ⟨by decide, by decide⟩
  exact ⟨Option.some.inj (congrArg Entry.value hstatus), congrArg Entry.value hrestriction⟩

end Convergence

end SessionObservations
