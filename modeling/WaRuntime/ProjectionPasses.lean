import WaRuntime.ContactProjection
import WaRuntime.ContactProjectionWork
import WaRuntime.ContactResolutionRuns
import WaRuntime.KeysetPages
import WaRuntime.MemberReplacement

/-! The projection passes of a session.
Batches and member writes hold the lock of the session, and a transaction that requests work holds
the rows that it requests until it commits, so that each is one step. The values that a batch
projects are left out here. -/
namespace ProjectionPasses

open TransitionRuns CanonicalOrders KeysetPages
open ContactNormalization ContactEvidence ContactResolution ContactProjection
open ContactResolutionRuns (ResolutionRunRow latestRun runCompletedBy)
open ContactProjectionWork hiding RunId
open MemberReplacement (OpenWAGroupParticipant MemberRow Runtime rawRow participantName)

/-- A group and a participant. -/
abbrev MemberKey := String × String

/-- A row of `group_members`. Two fields are no columns: the step in which the row was inserted or
last given another identity, and the identity whose work was requested with that. -/
structure Member where
  key : MemberKey
  details : MemberRow
  identityType : Option ContactIdentityType
  evidenceIdentityId : Option IdentityId
  shadowProjectionRevision : ℕ
  shadowResolutionRunId : Option RunId
  assignedAt : ℕ
  requestedFor : IdentityId
  deriving DecidableEq, Repr

/-- A row of `contact_projection_work`, with the step in which its active pass began and the
identities that every batch of the pass has affected, `none` before the first one. -/
structure Work where
  row : WorkRow
  begunAt : ℕ
  batched : Option (List IdentityId)
  deriving DecidableEq, Repr

structure Config where
  collation : TotalOrder String
  runtime : Runtime
  batchSize : ℕ
  /-- The id that the identity with a key gets when it is first observed. -/
  identityOf : IdentityKey → IdentityId
  typeOf : IdentityId → ContactIdentityType

/-- The rows of one session, the sequence of revisions, and the number of steps so far. -/
structure State where
  time : ℕ
  sequence : ℕ
  runs : List ResolutionRunRow
  out : ResolvedTables
  members : List Member
  works : IdentityId → Option Work

def initial : State := ⟨0, 0, [], ⟨[], [], []⟩, [], fun _ => none⟩

def Config.memberOrder (c : Config) : TotalOrder MemberKey := c.collation.prod c.collation

section Statements

variable (c : Config) (s : State)

def latestRunId : Option RunId := (latestRun s.runs).map ResolutionRunRow.id

def canonical (id : IdentityId) : IdentityId := projectionIdentity s.out (latestRunId s) id

def canonicalWorks (ids : List IdentityId) : List IdentityId := (ids.map (canonical s)).dedup

def requested (revision now : ℕ) : Option Work → Work
  | none => ⟨requestWork revision now none, 0, none⟩
  | some w => { w with row := requestWork revision now (some w.row) }

/-- `enqueueContactProjectionWork`; a work that it requests is no alias of another one. -/
def enqueue (now : ℕ) (ids : List IdentityId) : State :=
  { s with
    sequence := s.sequence + (canonicalWorks s ids).length
    works := fun id =>
      if id ∈ canonicalWorks s ids then
        some (requested (s.sequence + 1 + (canonicalWorks s ids).idxOf id) now (s.works id))
      else if id ∈ ids ∧ canonical s id ≠ id then
        (s.works id).map fun w => { w with row := (retireAlias w.row).getD w.row }
      else s.works id }

/-- The evidence columns of a member, with the work that is requested for its identity. -/
def assignIdentity (type : ContactIdentityType) (id : IdentityId) (m : Member) : Member :=
  { m with
    identityType := some type
    evidenceIdentityId := some id
    assignedAt := if m.evidenceIdentityId = some id then m.assignedAt else s.time
    requestedFor := if m.evidenceIdentityId = some id then m.requestedFor else canonical s id }

/-- The identity that `seedGroupMembers` finds for a participant. -/
def participantIdentity (p : OpenWAGroupParticipant) : IdentityId :=
  c.identityOf ((normalizeContactIdentity p.id).type, (normalizeContactIdentity p.id).value)

/-- A changed member, as `seedGroupMembers` leaves it. -/
def seedMember (p : OpenWAGroupParticipant) (m : Member) : Member :=
  assignIdentity s (normalizeContactIdentity p.id).type (participantIdentity c p)
    { m with details :=
        { rawRow p with participantDisplayName := participantName c.runtime p } }

def insertedMember (groupId : String) (p : OpenWAGroupParticipant) : Member :=
  ⟨(groupId, p.id), rawRow p, none, none, 0, none, s.time, 0⟩

/-- The participant is new in the group, or its details are. -/
def Changed (groupId : String) (members : List Member) (p : OpenWAGroupParticipant) : Prop :=
  ∀ m ∈ members, m.key = (groupId, p.id) → m.details ≠ rawRow p

instance (groupId : String) (members : List Member) (p : OpenWAGroupParticipant) :
    Decidable (Changed groupId members p) :=
  inferInstanceAs (Decidable (∀ m ∈ members, _ → _))

/-- A member that was there, after the INSERT and `seedGroupMembers`. -/
def writtenMember (groupId : String) (participants : List OpenWAGroupParticipant) (m : Member) :
    Member :=
  match participants.find? fun p => m.key = (groupId, p.id) with
  | some p => if m.details = rawRow p then m else seedMember c s p m
  | none => m

def insertedMembers (groupId : String) (participants : List OpenWAGroupParticipant) :
    List Member :=
  (participants.filter fun p => ∀ m ∈ s.members, m.key ≠ (groupId, p.id)).map fun p =>
    seedMember c s p (insertedMember s groupId p)

/-- The member statements of `upsertGroupDetails`, where the fingerprint of the members is new. -/
def replaceMembers (groupId : String) (participants : List OpenWAGroupParticipant) :
    List Member :=
  (s.members.map (writtenMember c s groupId participants) ++
    insertedMembers c s groupId participants).filter fun m =>
      m.key.1 = groupId → m.key.2 ∈ participants.map OpenWAGroupParticipant.id

/-- The identity that `materializeEvidenceBackfillPage` finds for a member. -/
def backfilledIdentity (m : Member) : ContactIdentityType × IdentityId :=
  let identity := memberEvidence m.key.2 none
  (identity.type, c.identityOf (identity.type, identity.value))

/-- The member is in the page, and has other evidence columns. -/
def Backfilled (page : List MemberKey) (m : Member) : Prop :=
  m.key ∈ page ∧ (m.identityType, m.evidenceIdentityId) ≠
    (some (backfilledIdentity c m).1, some (backfilledIdentity c m).2)

instance (page : List MemberKey) (m : Member) : Decidable (Backfilled c page m) :=
  inferInstanceAs (Decidable (_ ∧ _))

def materialize (page : List MemberKey) : List Member :=
  s.members.map fun m =>
    if Backfilled c page m then
      assignIdentity s (backfilledIdentity c m).1 (backfilledIdentity c m).2 m
    else m

def claimedRun (w : Work) : Option RunId :=
  (runCompletedBy (claimedPass none w.row).cutoffAt s.runs).map ResolutionRunRow.id

def claimWork (now token : ℕ) (w : Work) : Option Work :=
  (claim now token (claimedRun s w) w.row).map fun row =>
    if w.row.active = none then ⟨row, s.time, none⟩ else { w with row := row }

/-- The members with an affected identity. -/
def affectedMembers (affected : List IdentityId) : List Member :=
  s.members.filter fun m => ∃ id ∈ m.evidenceIdentityId, id ∈ affected

def memberPage (affected : List IdentityId) (w : Work) : List Member :=
  page c.memberOrder Member.key w.row.cursor c.batchSize (affectedMembers s affected)

/-- `writes`, on a member of the page. -/
def projectMember (pass : ActivePass) (m : Member) : Member :=
  if m.shadowProjectionRevision ≤ pass.revision then
    { m with
      identityType := m.evidenceIdentityId.map c.typeOf
      shadowProjectionRevision := pass.revision
      shadowResolutionRunId := pass.resolutionRunId }
  else m

/-- The members after a batch. -/
def projectPage (pass : ActivePass) (rows : List Member) : List Member :=
  s.members.map fun m => if m ∈ rows then projectMember c pass m else m

/-- The identities that all batches have affected, this one included. -/
def batchedWith (affected : List IdentityId) (w : Work) : List IdentityId :=
  match w.batched with
  | none => affected
  | some earlier => earlier.filter (· ∈ affected)

/-- The row of the work after a batch. -/
def advanceWork (now token : ℕ) (rows : List Member) (row : WorkRow) : Option WorkRow :=
  if rows.length < c.batchSize then complete now token row
  else rows.getLast?.bind fun last => advance now token last.key row

end Statements

inductive Event where
  | draw
  | request (now : ℕ) (ids : List IdentityId)
  | replaceMembers (now : ℕ) (groupId : String) (participants : List OpenWAGroupParticipant)
  | materialize (now : ℕ) (page : List MemberKey)
  | claim (now token : ℕ) (id : IdentityId)
  | project (now token : ℕ) (id : IdentityId)
  | release (now token : ℕ) (id : IdentityId)
  | fail (now token : ℕ) (id : IdentityId)
  | resolve (now : ℕ) (run : ResolutionRunRow) (results : ResolvedTables)
  | deleteRun (id : RunId)

section System

variable (c : Config)

def setWork (s : State) (id : IdentityId) (w : Work) : State :=
  { s with works := fun other => if other = id then some w else s.works other }

/-- The results of a run, beside those of the other runs. -/
def addRun (s : State) (run : ResolutionRunRow) (results : ResolvedTables) : State :=
  { s with
    runs := s.runs ++ [run]
    out := ⟨s.out.clusters ++ results.clusters, s.out.assignments ++ results.assignments,
      s.out.conflicts ++ results.conflicts⟩ }

/-- The results are those of a run that is being completed. -/
def Completes (s : State) (run : ResolutionRunRow) (results : ResolvedTables) : Prop :=
  run.status = .completed ∧ run.completedAt.isSome ∧ (∀ other ∈ s.runs, other.id ≠ run.id) ∧
    (∀ row ∈ results.clusters, row.runId = run.id) ∧
    ∀ row ∈ results.assignments, row.runId = run.id

instance (s : State) (run : ResolutionRunRow) (results : ResolvedTables) :
    Decidable (Completes s run results) := inferInstanceAs (Decidable (_ ∧ _))

/-- ON DELETE SET NULL of `active_resolution_run_id`. -/
def forgetRun (id : RunId) (w : Work) : Work :=
  { w with row := { w.row with active := w.row.active.map fun pass =>
      { pass with
        resolutionRunId := if pass.resolutionRunId = some id then none else pass.resolutionRunId } } }

def dropRun (s : State) (id : RunId) : State :=
  { s with
    runs := s.runs.filter (·.id ≠ id)
    out := s.out.withoutRun id
    members := s.members.map fun m =>
      { m with
        shadowResolutionRunId :=
          if m.shadowResolutionRunId = some id then none else m.shadowResolutionRunId }
    works := fun other => (s.works other).map (forgetRun id) }

/-- What a batch leaves, with the new row of its work. -/
def batchState (s : State) (id : IdentityId) (w : Work) (pass : ActivePass)
    (affected : List IdentityId) (row : WorkRow) : State :=
  { setWork s id { w with row := row, batched := some (batchedWith affected w) } with
    members := projectPage c s pass (memberPage c s affected w) }

/-- The state after an event, but for the number of steps. -/
def effect (s : State) : Event → Option State
  | .draw => some { s with sequence := s.sequence + 1 }
  | .request now ids => some (enqueue s now ids)
  | .replaceMembers now groupId participants =>
    guarded (participants.map OpenWAGroupParticipant.id).Nodup
      { enqueue s now ((participants.filter (Changed groupId s.members)).map
          (participantIdentity c)) with
        members := replaceMembers c s groupId participants }
  | .materialize now page =>
    some
      { enqueue s now ((s.members.filter (Backfilled c page)).map
          fun m => (backfilledIdentity c m).2) with
        members := materialize c s page }
  | .claim now token id =>
    ((s.works id).bind (claimWork s now token)).map (setWork s id)
  | .project now token id =>
    (s.works id).bind fun w =>
      w.row.active.bind fun pass =>
        let affected := affectedIdentities s.out pass.resolutionRunId id
        (advanceWork c now token (memberPage c s affected w) w.row).map
          (batchState c s id w pass affected)
  | .release now token id =>
    (s.works id).bind fun w =>
      (ContactProjectionWork.release now token w.row).map fun row =>
        setWork s id { w with row := row }
  | .fail now token id =>
    (s.works id).bind fun w =>
      (ContactProjectionWork.fail now token w.row).map fun row =>
        setWork s id { w with row := row }
  | .resolve now run results =>
    guarded (Completes s run results)
      (enqueue (addRun s run results) now
        (affectedByResolution (addRun s run results).out (latestRunId s) run.id))
  | .deleteRun id => guarded (latestRunId s ≠ some id) (dropRun s id)

def step (s : State) (e : Event) : Option State :=
  (effect c s e).map fun u => { u with time := s.time + 1 }

def system : System State Event := ofStep (· = initial) (step c)

instance (s : State) (e : Event) : Decidable ((system c).enabled s e) :=
  inferInstanceAs (Decidable ((step c s e).isSome = true))

end System

section Steps

variable {c : Config} {s u : State} {e : Event} {id : IdentityId} {w : Work}

/-- What a step leaves of the rows of members: their revision never falls, and a row either keeps
its identity or was assigned in the step, with a request. -/
structure MemberStep (s u : State) (m : Member) : Prop where
  raised : ∀ old ∈ s.members, old.key = m.key →
    old.shadowProjectionRevision ≤ m.shadowProjectionRevision
  assigned : (∃ old ∈ s.members, old.key = m.key ∧
      old.evidenceIdentityId = m.evidenceIdentityId ∧ old.assignedAt = m.assignedAt ∧
      old.requestedFor = m.requestedFor) ∨
    (m.assignedAt = s.time ∧
      ∃ work, u.works m.requestedFor = some work ∧ s.sequence < work.row.requestedRevision)

/-- The members that the batches of a pass have gone by: what the pass affects has its revision,
or was assigned after it began. -/
def Passed (c : Config) (u : State) (w : Work) (pass : ActivePass) : Prop :=
  ∀ affected ∈ w.batched, ∀ m ∈ u.members, ∀ identity ∈ m.evidenceIdentityId,
    identity ∈ affected → ¬After c.memberOrder w.row.cursor m.key →
      pass.revision ≤ m.shadowProjectionRevision ∨ w.begunAt < m.assignedAt

/-- What a step leaves of a work: it begins a pass, or goes on with the one it had. -/
structure WorkStep (c : Config) (s u : State) (old : Option Work) (w : Work) : Prop where
  drawn : w.row.requestedRevision ≤ u.sequence
  later : ∀ v ∈ old, v.row.requestedRevision ≤ w.row.requestedRevision
  begun : w.begunAt ≤ s.time
  idle : w.row.active = none → w.row.cursor = none
  unbatched : w.batched = none → w.row.cursor = none
  pass : ∀ pass ∈ w.row.active,
    (pass.revision ≤ w.row.requestedRevision ∧ w.begunAt = s.time ∧ w.batched = none) ∨
      ∃ v ∈ old, ∃ earlier ∈ v.row.active, earlier.revision = pass.revision ∧
        v.begunAt = w.begunAt ∧
        ((v.row.cursor = w.row.cursor ∧ v.batched = w.batched) ∨ Passed c u w pass)

/-- A step of a work looks at the time before, and at the sequence and the members after. -/
theorem WorkStep.congr {s' u' : State} {old : Option Work} (h : WorkStep c s u old w)
    (htime : s'.time = s.time) (hsequence : u'.sequence = u.sequence)
    (hmembers : u'.members = u.members) : WorkStep c s' u' old w where
  drawn := hsequence ▸ h.drawn
  later := h.later
  begun := htime ▸ h.begun
  idle := h.idle
  unbatched := h.unbatched
  pass pass hpass := by
    rcases h.pass pass hpass with ⟨hle, hbegun, hnone⟩ | ⟨v, hv, earlier, hearlier, hrest⟩
    · exact .inl ⟨hle, hbegun.trans htime.symm, hnone⟩
    · refine .inr ⟨v, hv, earlier, hearlier, ?_⟩
      simpa only [Passed, hmembers] using hrest

structure Sound (c : Config) (s : State) : Prop where
  keys : (s.members.map Member.key).Nodup
  assigned : ∀ m ∈ s.members, m.assignedAt < s.time
  drawn : ∀ id w, s.works id = some w → w.row.requestedRevision ≤ s.sequence
  begun : ∀ id w, s.works id = some w → w.begunAt < s.time
  idle : ∀ id w, s.works id = some w → w.row.active = none → w.row.cursor = none
  unbatched : ∀ id w, s.works id = some w → w.batched = none → w.row.cursor = none
  revision : ∀ id w, s.works id = some w → ∀ pass ∈ w.row.active,
    pass.revision ≤ w.row.requestedRevision
  requested : ∀ id w, s.works id = some w → ∀ pass ∈ w.row.active, ∀ m ∈ s.members,
    w.begunAt < m.assignedAt → ∃ work, s.works m.requestedFor = some work ∧
      pass.revision < work.row.requestedRevision
  passed : ∀ id w, s.works id = some w → ∀ pass ∈ w.row.active, Passed c s w pass

theorem member_unique (h : (s.members.map Member.key).Nodup) {m m' : Member}
    (hm : m ∈ s.members) (hm' : m' ∈ s.members) (hk : m.key = m'.key) : m = m' :=
  List.inj_on_of_nodup_map h hm hm' hk

theorem sound_initial : Sound c initial where
  keys := List.nodup_nil
  assigned m hm := by cases hm
  drawn id w hw := by cases hw
  begun id w hw := by cases hw
  idle id w hw := by cases hw
  unbatched id w hw := by cases hw
  revision id w hw := by cases hw
  requested id w hw := by cases hw
  passed id w hw := by cases hw

/-- The step lemma: what the two kinds of rows have to do with the rows before. -/
theorem sound_of_steps (h : Sound c s) (htime : u.time = s.time + 1)
    (hkeys : (u.members.map Member.key).Nodup) (hmembers : ∀ m ∈ u.members, MemberStep s u m)
    (hworks : ∀ id w, u.works id = some w → WorkStep c s u (s.works id) w)
    (hkept : ∀ id w, s.works id = some w → (u.works id).isSome) : Sound c u where
  keys := hkeys
  assigned m hm := by
    rcases (hmembers m hm).assigned with ⟨old, hold, _, _, hassigned, _⟩ | ⟨hassigned, _⟩
    · have := h.assigned old hold
      omega
    · omega
  drawn id w hw := (hworks id w hw).drawn
  begun id w hw := by
    have := (hworks id w hw).begun
    omega
  idle id w hw := (hworks id w hw).idle
  unbatched id w hw := (hworks id w hw).unbatched
  revision id w hw pass hpass := by
    have hstep := hworks id w hw
    rcases hstep.pass pass hpass with ⟨hle, _⟩ | ⟨v, hv, earlier, hearlier, heq, _⟩
    · exact hle
    · have hle := h.revision id v hv earlier hearlier
      have hlater := hstep.later v hv
      omega
  requested id w hw pass hpass m hm hafter := by
    have hstep := hworks id w hw
    rcases hstep.pass pass hpass with ⟨_, hbegun, _⟩ | ⟨v, hv, earlier, hearlier, heq, hbegun, _⟩
    · exfalso
      rcases (hmembers m hm).assigned with ⟨old, hold, _, _, hassigned, _⟩ | ⟨hassigned, _⟩
      · have := h.assigned old hold
        omega
      · omega
    · rcases (hmembers m hm).assigned with ⟨old, hold, _, _, hassigned, hfor⟩ | ⟨_, work, hwork, hlt⟩
      · obtain ⟨work, hwork, hlt⟩ := h.requested id v hv earlier hearlier old hold (by omega)
        rw [hfor] at hwork
        obtain ⟨work', hwork'⟩ := Option.isSome_iff_exists.mp (hkept _ work hwork)
        have hle := (hworks _ work' hwork').later work hwork
        exact ⟨work', hwork', by omega⟩
      · have hle := h.revision id v hv earlier hearlier
        have hdrawn := h.drawn id v hv
        exact ⟨work, hwork, by omega⟩
  passed id w hw pass hpass := by
    have hstep := hworks id w hw
    rcases hstep.pass pass hpass with ⟨_, _, hnone⟩ | ⟨v, hv, earlier, hearlier, heq, hbegun, hrest⟩
    · intro affected haffected
      rw [hnone] at haffected
      cases haffected
    · rcases hrest with ⟨hcursor, hbatched⟩ | hpassed
      · intro affected haffected m hm identity hidentity hin hnot
        rw [← hbatched] at haffected
        rw [← hcursor] at hnot
        rw [← heq, ← hbegun]
        have hmember := hmembers m hm
        rcases hmember.assigned with ⟨old, hold, hkey, hsame, hassigned, _⟩ | ⟨hassigned, _⟩
        · rw [← hsame] at hidentity
          rw [← hkey] at hnot
          have hraised := hmember.raised old hold hkey
          have hcovered := h.passed id v hv earlier hearlier affected haffected old hold identity
            hidentity hin hnot
          omega
        · have := h.begun id v hv
          exact .inr (by omega)
      · exact hpassed

end Steps

section Works

variable {c : Config} {s u : State} {id : IdentityId} {v w : Work} {row : WorkRow}
  {ids : List IdentityId} {now token : ℕ}

/-- A work whose pass goes on where it was, or ends. -/
theorem work_goes_on (h : Sound c s) (hv : s.works id = some v)
    (hle : v.row.requestedRevision ≤ row.requestedRevision)
    (hdrawn : row.requestedRevision ≤ u.sequence)
    (hrow : (row.active = none ∧ row.cursor = none) ∨ (row.cursor = v.row.cursor ∧
      row.active.map ActivePass.revision = v.row.active.map ActivePass.revision)) :
    WorkStep c s u (s.works id) { v with row := row } where
  drawn := hdrawn
  later old hold := by
    cases hv.symm.trans hold
    exact hle
  begun := Nat.le_of_lt (h.begun id v hv)
  idle hnone := by
    rcases hrow with ⟨_, hcursor⟩ | ⟨hcursor, hactive⟩
    · exact hcursor
    · rw [hcursor]
      refine h.idle id v hv ?_
      simpa [show row.active = none from hnone] using hactive.symm
  unbatched hnone := by
    rcases hrow with ⟨_, hcursor⟩ | ⟨hcursor, _⟩
    · exact hcursor
    · rw [hcursor]
      exact h.unbatched id v hv hnone
  pass pass hpass := by
    rcases hrow with ⟨hactive, _⟩ | ⟨hcursor, hactive⟩
    · cases hactive.symm.trans hpass
    · rw [show row.active = some pass from hpass] at hactive
      obtain ⟨earlier, hearlier, heq⟩ := Option.map_eq_some_iff.mp hactive.symm
      exact .inr ⟨v, hv, earlier, hearlier, heq, rfl, .inl ⟨hcursor.symm, rfl⟩⟩

theorem work_same (h : Sound c s) (hv : s.works id = some v) (hseq : s.sequence ≤ u.sequence) :
    WorkStep c s u (s.works id) v :=
  @work_goes_on _ _ _ _ _ v.row h hv le_rfl ((h.drawn id v hv).trans hseq) (.inr ⟨rfl, rfl⟩)

/-- One work is written, and the others are not. -/
theorem works_set (h : Sound c s) (hseq : s.sequence ≤ u.sequence)
    (hworks : u.works = (setWork s id w).works) (hw : WorkStep c s u (s.works id) w) :
    (∀ id w, u.works id = some w → WorkStep c s u (s.works id) w) ∧
      ∀ id w, s.works id = some w → (u.works id).isSome := by
  rw [hworks]
  constructor
  · intro other w' hw'
    by_cases heq : other = id
    · subst heq
      simp only [setWork, if_true, Option.some.injEq] at hw'
      subst hw'
      exact hw
    · simp only [setWork, heq, if_false] at hw'
      exact work_same h hw' hseq
  · intro other w' hw'
    by_cases heq : other = id
    · simp [setWork, heq]
    · simp [setWork, heq, hw']

/-- A request gets a revision that is greater than all before. -/
theorem request_step (h : Sound c s) {revision : ℕ} (hold : s.sequence < revision)
    (hdrawn : revision ≤ u.sequence) :
    WorkStep c s u (s.works id) (requested revision now (s.works id)) := by
  cases hv : s.works id with
  | none =>
    refine ⟨hdrawn, fun v hv => (by cases hv), Nat.zero_le _, fun _ => rfl, fun _ => rfl, ?_⟩
    intro pass hpass
    cases hpass
  | some v =>
    have hle : v.row.requestedRevision ≤
        (requestWork revision now (some v.row)).requestedRevision := by
      rw [request_revision]
      have := h.drawn id v hv
      omega
    have hstep : WorkStep c s u (s.works id)
        { v with row := requestWork revision now (some v.row) } := by
      refine work_goes_on h hv hle (by rwa [request_revision]) ?_
      by_cases hk : KeepsPass v.row
      · rw [request_keeps hk]
        exact .inr ⟨rfl, rfl⟩
      · exact .inl ⟨(request_restarts hk).2.1, (request_restarts hk).2.2.2⟩
    rw [hv] at hstep
    exact hstep

theorem enqueue_steps (h : Sound c s) (hseq : u.sequence = (enqueue s now ids).sequence)
    (hworks : u.works = (enqueue s now ids).works) :
    (∀ id w, u.works id = some w → WorkStep c s u (s.works id) w) ∧
      ∀ id w, s.works id = some w → (u.works id).isSome := by
  have hle : s.sequence ≤ u.sequence := by
    rw [hseq]
    exact Nat.le_add_right _ _
  rw [hworks]
  constructor
  · intro id w hw
    simp only [enqueue] at hw
    split at hw
    · rename_i hin
      have hidx := List.idxOf_lt_length_of_mem hin
      cases hw
      refine request_step h (by omega) ?_
      rw [hseq]
      simp only [enqueue]
      omega
    · split at hw
      · obtain ⟨v, hv, rfl⟩ := Option.map_eq_some_iff.mp hw
        cases hr : retireAlias v.row with
        | none => exact work_same h hv hle
        | some row =>
          obtain ⟨_, _, hactive, hcursor, hrevision⟩ := retire_some hr
          refine work_goes_on h hv hrevision.ge ?_ (.inl ⟨hactive, hcursor⟩)
          exact hrevision.le.trans ((h.drawn id v hv).trans hle)
      · exact work_same h hw hle
  · intro id w hw
    simp only [enqueue]
    split
    · rfl
    · split <;> simp [hw]

/-- The work that is canonical for a requested identity has been requested. -/
theorem enqueue_requests (hworks : u.works = (enqueue s now ids).works) (hid : id ∈ ids) :
    ∃ work, u.works (canonical s id) = some work ∧
      s.sequence < work.row.requestedRevision := by
  have hin : canonical s id ∈ canonicalWorks s ids :=
    List.mem_dedup.mpr (List.mem_map_of_mem hid)
  rw [hworks]
  refine ⟨_, if_pos hin, ?_⟩
  have hrevision : ∀ revision work,
      (requested revision now work).row.requestedRevision = revision := by
    intro revision work
    cases work <;> simp [requested, request_revision]
  rw [hrevision]
  omega

/-- A claim goes on with the pass of the work, or begins one. -/
theorem claim_step (h : Sound c s) (hv : s.works id = some v) (hseq : s.sequence ≤ u.sequence)
    (hw : claimWork s now token v = some w) : WorkStep c s u (s.works id) w := by
  obtain ⟨row, hrow, rfl⟩ := Option.map_eq_some_iff.mp hw
  obtain ⟨_, rfl⟩ := claim_some hrow
  have hdrawn := (h.drawn id v hv).trans hseq
  split
  · rename_i hnone
    have hcursor := h.idle id v hv hnone
    refine ⟨hdrawn, fun old hold => ?_, le_rfl, fun _ => hcursor, fun _ => hcursor, ?_⟩
    · cases hv.symm.trans hold
      exact le_rfl
    · rintro pass ⟨rfl⟩
      exact .inl ⟨by simp [claimedPass, hnone], rfl, rfl⟩
  · rename_i hsome
    obtain ⟨pass, hpass⟩ := Option.ne_none_iff_exists'.mp hsome
    exact work_goes_on h hv le_rfl hdrawn (.inr ⟨rfl, by simp [claimedPass, hpass]⟩)

end Works

section Members

variable {c : Config} {s u : State} {m old : Member}

theorem member_step_of (h : Sound c s) (hold : old ∈ s.members) (hkey : old.key = m.key)
    (hraised : old.shadowProjectionRevision ≤ m.shadowProjectionRevision)
    (hassigned : (old.evidenceIdentityId = m.evidenceIdentityId ∧
        old.assignedAt = m.assignedAt ∧ old.requestedFor = m.requestedFor) ∨
      (m.assignedAt = s.time ∧
        ∃ work, u.works m.requestedFor = some work ∧ s.sequence < work.row.requestedRevision)) :
    MemberStep s u m where
  raised other hother hk := by
    rw [member_unique h.keys hother hold (hk.trans hkey.symm)]
    exact hraised
  assigned := by
    rcases hassigned with hsame | hnew
    · exact .inl ⟨old, hold, hkey, hsame⟩
    · exact .inr hnew

theorem member_same (h : Sound c s) (hm : m ∈ s.members) : MemberStep s u m :=
  member_step_of h hm rfl le_rfl (.inl ⟨rfl, rfl, rfl⟩)

/-- A member whose evidence is written keeps its identity, or is requested with the new one. -/
theorem member_assigned (h : Sound c s) {type : ContactIdentityType} {id : IdentityId}
    {details : MemberRow} (hold : old ∈ s.members)
    (hreq : ∃ work, u.works (canonical s id) = some work ∧
      s.sequence < work.row.requestedRevision) :
    MemberStep s u (assignIdentity s type id { old with details := details }) := by
  refine member_step_of h hold rfl le_rfl ?_
  by_cases hsame : old.evidenceIdentityId = some id
  · left
    simp [assignIdentity, hsame]
  · right
    simpa [assignIdentity, hsame] using hreq

theorem written_key (c : Config) (s : State) (groupId : String)
    (participants : List OpenWAGroupParticipant) (m : Member) :
    (writtenMember c s groupId participants m).key = m.key := by
  unfold writtenMember
  split
  · split <;> rfl
  · rfl

theorem replaced_keys (h : Sound c s) {groupId : String}
    {participants : List OpenWAGroupParticipant}
    (hn : (participants.map OpenWAGroupParticipant.id).Nodup) :
    ((replaceMembers c s groupId participants).map Member.key).Nodup := by
  have hinserted : (insertedMembers c s groupId participants).map Member.key =
      ((participants.filter fun p => ∀ m ∈ s.members, m.key ≠ (groupId, p.id)).map
        OpenWAGroupParticipant.id).map fun id => (groupId, id) := by
    simp [insertedMembers, seedMember, assignIdentity, insertedMember, Function.comp_def]
  refine List.Nodup.sublist (List.Sublist.map _ List.filter_sublist) ?_
  rw [List.map_append, List.map_map, hinserted]
  have hwritten : (Member.key ∘ writtenMember c s groupId participants) = Member.key :=
    funext fun m => written_key c s groupId participants m
  rw [hwritten]
  refine List.Nodup.append h.keys ?_ ?_
  · exact (hn.sublist (List.filter_sublist.map _)).map fun a b hab => (Prod.ext_iff.mp hab).2
  · intro key hkey hnew
    obtain ⟨m, hm, rfl⟩ := List.mem_map.mp hkey
    simp only [List.map_map, List.mem_map, List.mem_filter, decide_eq_true_eq,
      Function.comp_apply] at hnew
    obtain ⟨p, ⟨_, hnone⟩, heq⟩ := hnew
    exact hnone m hm heq.symm

theorem replaced_steps (h : Sound c s) {groupId : String}
    {participants : List OpenWAGroupParticipant}
    (hreq : ∀ p ∈ participants, Changed groupId s.members p →
      ∃ work, u.works (canonical s (participantIdentity c p)) = some work ∧
        s.sequence < work.row.requestedRevision) :
    ∀ m ∈ replaceMembers c s groupId participants, MemberStep s u m := by
  intro m hm
  rcases List.mem_append.mp (List.mem_of_mem_filter hm) with hold | hnew
  · obtain ⟨old, hmem, rfl⟩ := List.mem_map.mp hold
    unfold writtenMember
    split
    · rename_i p hp
      split
      · exact member_same h hmem
      · rename_i hdetails
        have hkey : old.key = (groupId, p.id) := by simpa using List.find?_some hp
        have hchanged : Changed groupId s.members p := by
          intro other hother hk
          rwa [member_unique h.keys hother hmem (hk.trans hkey.symm)]
        exact member_assigned h hmem (hreq p (List.mem_of_find?_eq_some hp) hchanged)
    · exact member_same h hmem
  · simp only [insertedMembers, List.mem_map, List.mem_filter, decide_eq_true_eq] at hnew
    obtain ⟨p, ⟨hp, hnone⟩, rfl⟩ := hnew
    have hchanged : Changed groupId s.members p := fun other hother hk =>
      absurd hk (hnone other hother)
    refine ⟨fun old hold hk => absurd hk (hnone old hold), .inr ⟨?_, ?_⟩⟩
    · simp [seedMember, assignIdentity, insertedMember]
    · simpa [seedMember, assignIdentity, insertedMember] using hreq p hp hchanged

theorem materialized_steps (h : Sound c s) {page : List MemberKey}
    (hreq : ∀ m ∈ s.members, Backfilled c page m →
      ∃ work, u.works (canonical s (backfilledIdentity c m).2) = some work ∧
        s.sequence < work.row.requestedRevision) :
    ∀ m ∈ materialize c s page, MemberStep s u m := by
  intro m hm
  obtain ⟨old, hold, rfl⟩ := List.mem_map.mp hm
  split
  · rename_i hb
    exact member_assigned h hold (hreq old hold hb)
  · exact member_same h hold

theorem materialized_keys (c : Config) (s : State) (page : List MemberKey) :
    (materialize c s page).map Member.key = s.members.map Member.key := by
  rw [materialize, List.map_map]
  refine List.map_congr_left fun m _ => ?_
  simp only [Function.comp_apply]
  split <;> rfl

/-- A batch raises the revision of its rows to that of the pass. -/
theorem projected_member (c : Config) (pass : ActivePass) (m : Member) :
    (projectMember c pass m).key = m.key ∧
      (projectMember c pass m).evidenceIdentityId = m.evidenceIdentityId ∧
      (projectMember c pass m).assignedAt = m.assignedAt ∧
      (projectMember c pass m).requestedFor = m.requestedFor ∧
      m.shadowProjectionRevision ≤ (projectMember c pass m).shadowProjectionRevision ∧
      pass.revision ≤ (projectMember c pass m).shadowProjectionRevision := by
  unfold projectMember
  split
  · rename_i hle
    exact ⟨rfl, rfl, rfl, rfl, hle, le_rfl⟩
  · rename_i hlt
    exact ⟨rfl, rfl, rfl, rfl, le_rfl, by omega⟩

theorem projected_keys (c : Config) (s : State) (pass : ActivePass) (rows : List Member) :
    (projectPage c s pass rows).map Member.key = s.members.map Member.key := by
  rw [projectPage, List.map_map]
  refine List.map_congr_left fun m _ => ?_
  simp only [Function.comp_apply]
  split
  · exact (projected_member c pass m).1
  · rfl

theorem projected_steps (h : Sound c s) {pass : ActivePass} {rows : List Member} :
    ∀ m ∈ projectPage c s pass rows, MemberStep s u m := by
  intro m hm
  obtain ⟨old, hold, rfl⟩ := List.mem_map.mp hm
  split
  · obtain ⟨hkey, hevidence, hassigned, hfor, hle, _⟩ := projected_member c pass old
    exact member_step_of h hold hkey.symm hle (.inl ⟨hevidence.symm, hassigned.symm, hfor.symm⟩)
  · exact member_same h hold

end Members

section Batches

variable {c : Config} {s u : State} {id : IdentityId} {v : Work} {pass : ActivePass}
  {affected : List IdentityId}

theorem batched_affected {identity : IdentityId} (h : identity ∈ batchedWith affected v) :
    identity ∈ affected := by
  unfold batchedWith at h
  split at h
  · exact h
  · simpa using (List.mem_filter.mp h).2

/-- A member after a batch has the revision of the pass, or was assigned after it began. -/
def Reached (c : Config) (s : State) (affected : List IdentityId) (v : Work) (pass : ActivePass)
    (m : Member) : Prop :=
  ∀ identity ∈ m.evidenceIdentityId, identity ∈ batchedWith affected v →
    pass.revision ≤ (if m ∈ memberPage c s affected v then projectMember c pass m
      else m).shadowProjectionRevision ∨ v.begunAt < m.assignedAt

theorem reached_before (h : Sound c s) (hv : s.works id = some v) (hpass : pass ∈ v.row.active)
    {m : Member} (hm : m ∈ s.members) (hnot : ¬After c.memberOrder v.row.cursor m.key) :
    Reached c s affected v pass m := by
  intro identity hidentity hin
  unfold batchedWith at hin
  split at hin
  · rename_i hnone
    rw [h.unbatched id v hv hnone] at hnot
    exact absurd (fun _ hc => by cases hc) hnot
  · rename_i earlier hearlier
    have hcovered := h.passed id v hv pass hpass earlier hearlier m hm identity hidentity
      (List.mem_of_mem_filter hin) hnot
    split
    · have := (projected_member c pass m).2.2.2.2.1
      omega
    · exact hcovered

theorem reached_page {m : Member} (hm : m ∈ memberPage c s affected v) :
    Reached c s affected v pass m := by
  intro identity _ _
  rw [if_pos hm]
  exact .inl (projected_member c pass m).2.2.2.2.2

theorem mem_affectedMembers {m : Member} {identity : IdentityId} (hm : m ∈ s.members)
    (hidentity : identity ∈ m.evidenceIdentityId) (hin : identity ∈ batchedWith affected v) :
    m ∈ affectedMembers s affected := by
  simp only [affectedMembers, List.mem_filter, decide_eq_true_eq]
  exact ⟨hm, identity, hidentity, batched_affected hin⟩

theorem reached_upto (h : Sound c s) (hv : s.works id = some v) (hpass : pass ∈ v.row.active)
    {last m : Member} (hlast : (memberPage c s affected v).getLast? = some last)
    (hm : m ∈ s.members) (hle : c.memberOrder.le m.key last.key) :
    Reached c s affected v pass m := by
  intro identity hidentity hin
  have hkey : ∀ a ∈ affectedMembers s affected, ∀ b ∈ affectedMembers s affected,
      a.key = b.key → a = b := fun a ha b hb hk =>
    member_unique h.keys (List.mem_of_mem_filter ha) (List.mem_of_mem_filter hb) hk
  exact covered_upto (P := Reached c s affected v pass) hkey hlast
    (fun m hm hnot => reached_before h hv hpass (List.mem_of_mem_filter hm) hnot)
    (fun m hm => reached_page hm) m (mem_affectedMembers hm hidentity hin) hle identity
    hidentity hin

theorem reached_all (h : Sound c s) (hv : s.works id = some v) (hpass : pass ∈ v.row.active)
    {m : Member} (hshort : (memberPage c s affected v).length < c.batchSize)
    (hm : m ∈ s.members) : Reached c s affected v pass m := by
  intro identity hidentity hin
  exact covered (P := Reached c s affected v pass) hshort
    (fun m hm hnot => reached_before h hv hpass (List.mem_of_mem_filter hm) hnot)
    (fun m hm => reached_page hm) m (mem_affectedMembers hm hidentity hin) identity hidentity hin

/-- A batch moves the cursor to its last row, or ends the pass. -/
theorem batch_step (h : Sound c s) (hv : s.works id = some v) (hpass : pass ∈ v.row.active)
    (hseq : s.sequence ≤ u.sequence)
    (hmembers : u.members = projectPage c s pass (memberPage c s affected v))
    {now token : ℕ} {row : WorkRow}
    (hrow : advanceWork c now token (memberPage c s affected v) v.row = some row) :
    WorkStep c s u (s.works id)
      { v with row := row, batched := some (batchedWith affected v) } := by
  have hdrawn := (h.drawn id v hv).trans hseq
  have hbegun := Nat.le_of_lt (h.begun id v hv)
  unfold advanceWork at hrow
  split at hrow
  · obtain ⟨_, hactive, _, hcursor, hrevision, _⟩ := complete_some hrow
    refine ⟨hrevision.le.trans hdrawn, fun old hold => ?_, hbegun, fun _ => hcursor,
      fun hnone => (by cases hnone), fun pass hpass => ?_⟩
    · cases hv.symm.trans hold
      exact hrevision.ge
    · cases hactive.symm.trans hpass
  · obtain ⟨last, hlast, hrow⟩ := Option.bind_eq_some_iff.mp hrow
    obtain ⟨_, rfl⟩ := advance_some hrow
    refine ⟨hdrawn, fun old hold => ?_, hbegun, fun hnone => ?_, fun hnone => (by cases hnone),
      fun pass' hpass' => ?_⟩
    · cases hv.symm.trans hold
      exact le_rfl
    · cases hnone.symm.trans hpass
    · cases Option.mem_unique hpass hpass'
      refine .inr ⟨v, hv, pass, hpass, rfl, rfl, .inr ?_⟩
      intro affected' haffected m hm identity hidentity hin hnot
      cases haffected
      rw [hmembers] at hm
      obtain ⟨old, hold, rfl⟩ := List.mem_map.mp hm
      have hle := not_after_some.mp hnot
      have hsame : (if old ∈ memberPage c s affected v then projectMember c pass old
          else old).key = old.key ∧
          (if old ∈ memberPage c s affected v then projectMember c pass old
          else old).evidenceIdentityId = old.evidenceIdentityId ∧
          (if old ∈ memberPage c s affected v then projectMember c pass old
          else old).assignedAt = old.assignedAt := by
        obtain ⟨hk, he, ha, _⟩ := projected_member c pass old
        split
        · exact ⟨hk, he, ha⟩
        · exact ⟨rfl, rfl, rfl⟩
      rw [hsame.1] at hle
      rw [hsame.2.1] at hidentity
      rw [hsame.2.2]
      exact reached_upto h hv hpass hlast hold hle identity hidentity hin

end Batches

section Runs

variable {c : Config} {s u : State} {e : Event}

theorem system_step (he : (system c).enabled s e) :
    ∃ v, effect c s e = some v ∧ (system c).next s e = { v with time := s.time + 1 } := by
  obtain ⟨v, hv, heq⟩ := Option.map_eq_some_iff.mp (ofStep_enabled he)
  exact ⟨v, hv, heq.symm⟩

theorem sound_addRun {run : ResolutionRunRow} {results : ResolvedTables} (h : Sound c s) :
    Sound c (addRun s run results) :=
  ⟨h.keys, h.assigned, h.drawn, h.begun, h.idle, h.unbatched, h.revision, h.requested, h.passed⟩

/-- What the proofs need of a step: every row of the new state comes from the old one. -/
structure Stepped (c : Config) (s u : State) : Prop where
  keys : (u.members.map Member.key).Nodup
  members : ∀ m ∈ u.members, MemberStep s u m
  works : ∀ id w, u.works id = some w → WorkStep c s u (s.works id) w
  kept : ∀ id w, s.works id = some w → (u.works id).isSome

theorem enqueue_stepped {now : ℕ} {ids : List IdentityId} {members : List Member} (h : Sound c s)
    (hkeys : (members.map Member.key).Nodup)
    (hmembers : ∀ m ∈ members, MemberStep s { enqueue s now ids with members := members } m) :
    Stepped c s { enqueue s now ids with members := members } := by
  obtain ⟨hworks, hkept⟩ :=
    enqueue_steps (u := { enqueue s now ids with members := members }) h rfl rfl
  exact ⟨hkeys, hmembers, hworks, hkept⟩

theorem goes_on_stepped {id : IdentityId} {v : Work} {row : WorkRow} (h : Sound c s)
    (hv : s.works id = some v) (hrevision : row.requestedRevision = v.row.requestedRevision)
    (hcursor : row.cursor = v.row.cursor)
    (hactive : row.active.map ActivePass.revision = v.row.active.map ActivePass.revision) :
    Stepped c s (setWork s id { v with row := row }) := by
  have hworks := works_set (u := setWork s id { v with row := row }) h le_rfl rfl
    (work_goes_on h hv hrevision.ge (hrevision.le.trans (h.drawn id v hv))
      (.inr ⟨hcursor, hactive⟩))
  exact ⟨h.keys, fun m hm => member_same h hm, hworks.1, hworks.2⟩

theorem batch_stepped {id : IdentityId} {v : Work} {pass : ActivePass}
    {affected : List IdentityId} {now token : ℕ} {row : WorkRow} (h : Sound c s)
    (hv : s.works id = some v) (hpass : pass ∈ v.row.active)
    (hrow : advanceWork c now token (memberPage c s affected v) v.row = some row) :
    Stepped c s (batchState c s id v pass affected row) := by
  have hwork : WorkStep c s (batchState c s id v pass affected row) (s.works id)
      { v with row := row, batched := some (batchedWith affected v) } :=
    batch_step (u := batchState c s id v pass affected row) h hv hpass le_rfl rfl hrow
  obtain ⟨hworks, hkept⟩ :=
    works_set (u := batchState c s id v pass affected row) h le_rfl rfl hwork
  refine ⟨?_, projected_steps h, hworks, hkept⟩
  change ((projectPage c s pass (memberPage c s affected v)).map Member.key).Nodup
  rw [projected_keys]
  exact h.keys

theorem effect_stepped (h : Sound c s) (hu : effect c s e = some u) : Stepped c s u := by
  cases e with
  | draw =>
    cases hu
    exact ⟨h.keys, fun m hm => member_same h hm, fun id w hw => work_same h hw (Nat.le_succ _),
      fun id w hw => by simp [hw]⟩
  | request now ids =>
    cases hu
    exact enqueue_stepped h h.keys fun m hm => member_same h hm
  | replaceMembers now groupId participants =>
    obtain ⟨hn, rfl⟩ := guarded_eq_some.mp hu
    refine enqueue_stepped h (replaced_keys h hn) (replaced_steps h fun p hp hchanged => ?_)
    refine enqueue_requests rfl (List.mem_map_of_mem ?_)
    simpa using ⟨hp, hchanged⟩
  | materialize now page =>
    cases hu
    refine enqueue_stepped h ?_ (materialized_steps h fun m hm hb => ?_)
    · rw [materialized_keys]
      exact h.keys
    · refine enqueue_requests rfl (List.mem_map.mpr ⟨m, ?_, rfl⟩)
      simpa using ⟨hm, hb⟩
  | claim now token id =>
    obtain ⟨w, hw, rfl⟩ := Option.map_eq_some_iff.mp hu
    obtain ⟨v, hv, hw⟩ := Option.bind_eq_some_iff.mp hw
    have hworks := works_set (u := setWork s id w) h le_rfl rfl (claim_step h hv le_rfl hw)
    exact ⟨h.keys, fun m hm => member_same h hm, hworks.1, hworks.2⟩
  | project now token id =>
    obtain ⟨v, hv, hu⟩ := Option.bind_eq_some_iff.mp hu
    obtain ⟨pass, hpass, hu⟩ := Option.bind_eq_some_iff.mp hu
    obtain ⟨row, hrow, rfl⟩ := Option.map_eq_some_iff.mp hu
    exact batch_stepped h hv hpass hrow
  | release now token id =>
    obtain ⟨v, hv, hu⟩ := Option.bind_eq_some_iff.mp hu
    obtain ⟨row, hrow, rfl⟩ := Option.map_eq_some_iff.mp hu
    obtain ⟨_, rfl⟩ := release_some hrow
    exact goes_on_stepped h hv rfl rfl rfl
  | fail now token id =>
    obtain ⟨v, hv, hu⟩ := Option.bind_eq_some_iff.mp hu
    obtain ⟨row, hrow, rfl⟩ := Option.map_eq_some_iff.mp hu
    obtain ⟨_, hactive, _, hrevision, hcursor, _⟩ := fail_some hrow
    exact goes_on_stepped h hv hrevision hcursor (congrArg (Option.map _) hactive)
  | resolve now run results =>
    obtain ⟨_, rfl⟩ := guarded_eq_some.mp hu
    have hrun : Sound c (addRun s run results) := sound_addRun h
    exact ⟨h.keys, fun m hm => member_same h hm,
      fun id w hw => ((enqueue_steps hrun rfl rfl).1 id w hw).congr rfl rfl rfl,
      (enqueue_steps hrun rfl rfl).2⟩
  | deleteRun id =>
    obtain ⟨_, rfl⟩ := guarded_eq_some.mp hu
    refine ⟨?_, fun m hm => ?_, fun other w hw => ?_, fun other w hw => ?_⟩
    · have hkeys : (dropRun s id).members.map Member.key = s.members.map Member.key := by
        simp [dropRun, Function.comp_def]
      rw [hkeys]
      exact h.keys
    · obtain ⟨old, hold, rfl⟩ := List.mem_map.mp hm
      exact member_step_of h hold rfl le_rfl (.inl ⟨rfl, rfl, rfl⟩)
    · obtain ⟨v, hv, rfl⟩ := Option.map_eq_some_iff.mp hw
      refine work_goes_on h hv le_rfl (h.drawn other v hv) (.inr ⟨rfl, ?_⟩)
      cases v.row.active <;> rfl
    · simp [dropRun, hw]

theorem sound_step (h : Sound c s) (he : (system c).enabled s e) :
    Sound c ((system c).next s e) := by
  obtain ⟨v, hv, hnext⟩ := system_step he
  have hstepped := effect_stepped h hv
  rw [hnext]
  exact sound_of_steps h rfl hstepped.keys
    (fun m hm => ⟨(hstepped.members m hm).raised, (hstepped.members m hm).assigned⟩)
    (fun id w hw => (hstepped.works id w hw).congr rfl rfl rfl)
    hstepped.kept

theorem reachable_sound (h : Reachable (system c) s) : Sound c s := by
  refine reachable_invariant (M := system c) ?_ (fun s e hs he => sound_step hs he) h
  rintro _ rfl
  exact sound_initial

/-- The event is the last batch of the pass of a work. -/
def CompletesPass (c : Config) (s : State) (e : Event) (id : IdentityId) (w : Work)
    (pass : ActivePass) : Prop :=
  (∃ now token, e = .project now token id) ∧ s.works id = some w ∧ w.row.active = some pass ∧
    (memberPage c s (affectedIdentities s.out pass.resolutionRunId id) w).length < c.batchSize

/-- All batches of the pass, the coming one included, affect the identity. -/
def PassAffects (s : State) (id : IdentityId) (w : Work) (pass : ActivePass)
    (identity : IdentityId) : Prop :=
  identity ∈ batchedWith (affectedIdentities s.out pass.resolutionRunId id) w

/-- The member has the revision of the pass, or was assigned during the pass and the work that was
requested then is behind. -/
def Covered (u : State) (w : Work) (pass : ActivePass) (m : Member) : Prop :=
  pass.revision ≤ m.shadowProjectionRevision ∨
    (w.begunAt < m.assignedAt ∧ ∃ work, u.works m.requestedFor = some work ∧
      pass.revision < work.row.requestedRevision)

/-- In every run, the revision of a member never falls, and a pass that is completed has covered
every member that it affects. -/
theorem passes_cover_members (h : Reachable (system c) s) (he : (system c).enabled s e) :
    (∀ old ∈ s.members, ∀ m ∈ ((system c).next s e).members, old.key = m.key →
      old.shadowProjectionRevision ≤ m.shadowProjectionRevision) ∧
    ∀ id w pass, CompletesPass c s e id w pass →
      ∀ m ∈ ((system c).next s e).members, ∀ identity ∈ m.evidenceIdentityId,
        PassAffects s id w pass identity → Covered ((system c).next s e) w pass m := by
  have hsound := reachable_sound h
  obtain ⟨u, hu, hnext⟩ := system_step he
  have hstepped := effect_stepped hsound hu
  rw [hnext]
  constructor
  · intro old hold m hm hk
    exact (hstepped.members m hm).raised old hold hk
  · rintro id w pass ⟨⟨now, token, rfl⟩, hw, hpass, hshort⟩ m hm identity hidentity haffects
    obtain ⟨v, hv, hu⟩ := Option.bind_eq_some_iff.mp hu
    cases hw.symm.trans hv
    obtain ⟨pass', hpass', hu⟩ := Option.bind_eq_some_iff.mp hu
    cases hpass.symm.trans hpass'
    obtain ⟨row, hrow, rfl⟩ := Option.map_eq_some_iff.mp hu
    obtain ⟨old, hold, rfl⟩ := List.mem_map.mp hm
    have hsame : old.evidenceIdentityId = some identity := by
      split at hidentity
      · exact (projected_member c pass old).2.1.symm.trans hidentity
      · exact hidentity
    have hreached := reached_all hsound hw hpass hshort hold identity hsame haffects
    rcases hreached with hle | hafter
    · exact .inl hle
    · right
      have hfields : (if old ∈ memberPage c s (affectedIdentities s.out pass.resolutionRunId id) w
          then projectMember c pass old else old).assignedAt = old.assignedAt ∧
          (if old ∈ memberPage c s (affectedIdentities s.out pass.resolutionRunId id) w
          then projectMember c pass old else old).requestedFor = old.requestedFor := by
        obtain ⟨_, _, hassigned, hfor, _⟩ := projected_member c pass old
        split
        · exact ⟨hassigned, hfor⟩
        · exact ⟨rfl, rfl⟩
      rw [hfields.1, hfields.2]
      obtain ⟨work, hwork, hlt⟩ := hsound.requested id w hw pass hpass old hold hafter
      obtain ⟨work', hwork'⟩ := Option.isSome_iff_exists.mp (hstepped.kept _ work hwork)
      have hle := (hstepped.works _ work' hwork').later work hwork
      exact ⟨hafter, work', hwork', by omega⟩

end Runs

section Example

def plainConfig : Config where
  collation := TotalOrder.codePoints
  runtime := MemberReplacement.plainRuntime
  batchSize := 1
  identityOf key := if key.2 = "b@lid" then 2 else 1
  typeOf _ := .lid

def participant : OpenWAGroupParticipant := ⟨"b@lid", "b", none, false, false⟩

/-- A run that puts the participant with its phone, identity 1. -/
def linkingRun : ResolutionRunRow where
  id := 1
  sourceGeneration := 1
  evidenceCutoffAt := 15
  status := .completed
  attemptCount := 1
  nextAttemptAt := 15
  leaseToken := none
  leaseExpiresAt := none
  result := none
  startedAt := some 16
  completedAt := some 20
  failedAt := none
  errorCode := none
  createdAt := 15

def linkingResults : ResolvedTables where
  clusters := [⟨1, 1, some "84970000000", none, 2⟩]
  assignments := [⟨1, 1, 1, .resolved, some "84970000000"⟩, ⟨1, 2, 1, .resolved, some "84970000000"⟩]
  conflicts := []

/-- The work of the participant was requested before the run was completed; during its pass the
participant comes into a group that the cursor has gone by. -/
def lateMember : List Event :=
  [.replaceMembers 10 "g1" [participant], .resolve 21 linkingRun linkingResults, .claim 30 5 2,
    .project 31 5 2, .replaceMembers 32 "g0" [participant]]

def lateState : State := runTrace (system plainConfig) initial lateMember

theorem late_state_reachable : Reachable (system plainConfig) lateState := by
  have hvalid : ValidTrace (system plainConfig) initial lateMember := by decide +kernel
  exact ⟨_, valid_trace_run rfl hvalid⟩

def latePass : ActivePass := ⟨1, 10, none⟩

def lateWork : Work where
  row :=
    { status := .running
      requestedRevision := 1
      completedRevision := 0
      requestedCutoffAt := 10
      firstRequestedAt := 10
      lastRequestedAt := 10
      active := some latePass
      cursor := some ("g1", "b@lid")
      attemptCount := 1
      nextAttemptAt := 10
      lease := some ⟨5, 300031⟩
      completedAt := none
      failedAt := none
      errorCode := none }
  begunAt := 2
  batched := some [2]

/-- The second membership of the participant. -/
def secondMember : Member where
  key := ("g0", "b@lid")
  details := ⟨"b", none, false, false⟩
  identityType := some .lid
  evidenceIdentityId := some 2
  shadowProjectionRevision := 0
  shadowResolutionRunId := none
  assignedAt := 4
  requestedFor := 1

def afterPass : State := (system plainConfig).next lateState (.project 33 5 2)

theorem late_pass_completes :
    (system plainConfig).enabled lateState (.project 33 5 2) ∧
      CompletesPass plainConfig lateState (.project 33 5 2) 2 lateWork latePass ∧
      secondMember ∈ afterPass.members := by
  have hwork : lateState.works 2 = some lateWork := by decide +kernel
  have hshort : (memberPage plainConfig lateState
      (affectedIdentities lateState.out latePass.resolutionRunId 2) lateWork).length <
        plainConfig.batchSize := by
    decide +kernel
  exact ⟨by decide +kernel, ⟨⟨33, 5, rfl⟩, hwork, rfl, hshort⟩, by decide +kernel⟩

/-- Its revision is 0, and the work that waits is that of its phone. -/
theorem late_member_covered :
    Covered afterPass lateWork latePass secondMember ∧
      secondMember.shadowProjectionRevision < latePass.revision := by
  obtain ⟨he, hcompletes, hmember⟩ := late_pass_completes
  exact ⟨(passes_cover_members late_state_reachable he).2 2 lateWork latePass hcompletes
    secondMember hmember 2 rfl (by unfold PassAffects; decide +kernel), by decide⟩

/-- The work of the pass itself has no request that is newer than the pass. -/
theorem passed_member_waits_elsewhere : ¬∀ c s e, Reachable (system c) s →
    (system c).enabled s e → ∀ id w pass, CompletesPass c s e id w pass →
      ∀ m ∈ ((system c).next s e).members, ∀ identity ∈ m.evidenceIdentityId,
        identity ∈ affectedIdentities s.out pass.resolutionRunId id →
          pass.revision ≤ m.shadowProjectionRevision ∨
            (w.begunAt < m.assignedAt ∧ ∃ work, ((system c).next s e).works id = some work ∧
              pass.revision < work.row.requestedRevision) := by
  intro h
  obtain ⟨he, hcompletes, hmember⟩ := late_pass_completes
  have hclaim := h plainConfig lateState _ late_state_reachable he 2 lateWork latePass hcompletes
    secondMember hmember 2 rfl (by decide +kernel)
  rcases hclaim with hle | ⟨_, work, hwork, hlt⟩
  · exact absurd hle (by decide)
  · have hrequested : (afterPass.works 2).map (fun work => work.row.requestedRevision) = some 1 := by
      decide +kernel
    have hone : work.row.requestedRevision = 1 := by
      rw [show afterPass.works 2 = some work from hwork] at hrequested
      simpa using hrequested
    rw [hone] at hlt
    exact absurd hlt (by decide)

/-- A pass that began without a run is claimed again after a run that was completed by its cutoff
has been committed. -/
def lateRun : List Event :=
  [.replaceMembers 10 "g1" [participant], .replaceMembers 11 "g2" [⟨"a@lid", "a", none, false, false⟩],
    .request 25 [1], .claim 26 5 1, .project 27 5 1, .resolve 28 linkingRun linkingResults,
    .fail 29 5 1, .claim 60029 6 1]

/-- The new claim affects the participant, but the batch before it did not. -/
theorem claim_widens_pass :
    let s := runTrace (system plainConfig) initial lateRun
    ValidTrace (system plainConfig) initial (lateRun ++ [.project 60030 6 1]) ∧
      2 ∈ affectedIdentities s.out (some 1) 1 ∧
      (s.works 1).bind Work.batched = some [1] ∧
      ((system plainConfig).next s (.project 60030 6 1)).members.map
        (fun m => (m.key, m.shadowProjectionRevision)) =
          [(("g1", "b@lid"), 0), (("g2", "a@lid"), 3)] := by
  decide +kernel

end Example

end ProjectionPasses
