import WaRuntime.CampaignEdits
import WaRuntime.OptimisticRequests

/-! Requests that change saved group lists: PATCH, DELETE and the replacement of the members.
A request reads the list, checks what it has read, and then runs one transaction that locks the row
and is atomic by it. A row of `group_lists` is kept with its members. -/
namespace GroupListRequests

open OptimisticRequests
open CampaignAggregates (ListId SavedList updated archived regrouped)
open CampaignEdits renaming Field → JsonField
open CampaignExecution (GroupId)
open CreationReplay (trim)

/-- A row of `group_lists`, with the columns that only its creation writes. -/
structure StoredList where
  list : SavedList
  createIdempotencyKey : String
  createRequestHash : String
  createdAt : ℕ
  deriving DecidableEq, Repr

/-- `lower` is the function of the database. -/
structure Config where
  aggregates : CampaignAggregates.Config
  lower : String → String

/-- `gateway_sessions`, the rows `(session_id, id)` of `gateway_groups`, and `now()`. -/
structure World where
  sessions : List String
  groups : List (String × GroupId)
  now : ℕ

structure GroupListError where
  status : ℕ
  code : Option String
  message : String
  details : List (String × Option ℕ)
  fieldErrors : List (String × List String)
  deriving DecidableEq, Repr

section Errors

def notFound : GroupListError :=
  ⟨404, some "GROUP_LIST_NOT_FOUND", "Saved group list not found", [], []⟩

def archivedError : GroupListError :=
  ⟨409, some "GROUP_LIST_ARCHIVED", "Archived saved group lists cannot be changed", [], []⟩

/-- `null` is `none` for the expected revision, and the current one may not be there. -/
def revisionConflict (expectedRevision : Option ℕ) (currentRevision : Option ℕ) : GroupListError :=
  ⟨409, some "GROUP_LIST_REVISION_CONFLICT", "Saved group list changed after it was loaded",
    ("expectedRevision", expectedRevision) ::
      (currentRevision.map fun current => ("currentRevision", some current)).toList, []⟩

def nameInvalid : GroupListError :=
  ⟨400, some "GROUP_LIST_NAME_INVALID", "name must not be blank", [],
    [("name", ["Must not be blank."])]⟩

def nameConflict : GroupListError :=
  ⟨409, some "GROUP_LIST_NAME_CONFLICT",
    "An active saved group list with this name already exists in the session", [],
    [("name", ["Must be unique within the session."])]⟩

def groupLimitExceeded : GroupListError :=
  ⟨422, some "GROUP_LIST_GROUP_LIMIT_EXCEEDED",
    "A saved group list can contain at most 1000 unique groups", [("maximum", some 1000)], []⟩

def groupDuplicate : GroupListError :=
  ⟨422, some "GROUP_LIST_GROUP_DUPLICATE", "Duplicate group IDs are not allowed", [], []⟩

def groupSessionMismatch (count : ℕ) : GroupListError :=
  ⟨422, some "GROUP_LIST_GROUP_SESSION_MISMATCH",
    "One or more groups do not belong to the saved list session",
    [("invalidGroupCount", some count)], []⟩

def groupNotFound (count : ℕ) : GroupListError :=
  ⟨422, some "GROUP_LIST_GROUP_NOT_FOUND",
    "One or more groups are not present in the durable group read model",
    [("invalidGroupCount", some count)], []⟩

/-- `trim` of null. -/
def typeError : GroupListError :=
  ⟨500, none, "Cannot read properties of null (reading 'trim')", [], []⟩

end Errors

structure UpdateGroupListDto where
  expectedRevision : JsonField ℕ
  name : JsonField String
  description : JsonField String
  deriving DecidableEq, Repr

structure ReplaceGroupListGroupsDto where
  expectedRevision : JsonField ℕ
  expectedMembershipRevision : JsonField ℕ
  groupIds : List GroupId
  deriving DecidableEq, Repr

/-- What a request asks for; the revision of a DELETE is a query parameter. -/
inductive Call where
  | update (id : ListId) (dto : UpdateGroupListDto)
  | archive (id : ListId) (expectedRevision : Option ℕ)
  | replaceGroups (id : ListId) (dto : ReplaceGroupListGroupsDto)
  deriving DecidableEq, Repr

def Call.id : Call → ListId
  | .update id _ | .archive id _ | .replaceGroups id _ => id

/-- The arguments of the repository besides the revision that was read. -/
inductive Plan where
  | update (name : String) (description : Option String)
  | archive
  | replaceGroups (groupIds : List GroupId) (expectedMembershipRevision : JsonField ℕ)
  deriving DecidableEq, Repr

/-- A membership answers with the groups of the list, of which the ids are in the row. -/
inductive Answer where
  | list (row : StoredList)
  | membership (row : StoredList)
  | archived
  | failed (error : GroupListError)
  deriving DecidableEq, Repr

section Service

variable (c : Config)

def isAllowed (row : StoredList) : Bool :=
  decide (row.list.sessionId ∈ c.aggregates.allowedSessionIds)

def normalizeName (value : String) : Except GroupListError String :=
  if trim value = "" then .error nameInvalid else .ok (trim value)

def normalizeDescription (value : JsonField String) : Option String :=
  match value with
  | .value text => if trim text = "" then none else some (trim text)
  | _ => none

def validateGroupIds (groupIds : List GroupId) : Except GroupListError Unit :=
  if 1000 < groupIds.length then .error groupLimitExceeded
  else if ¬ groupIds.Nodup then .error groupDuplicate
  else .ok ()

def getForMutation (found : Option StoredList) : Except GroupListError StoredList :=
  match found.filter (isAllowed c) with
  | none => .error notFound
  | some row => if row.list.archivedAt.isSome then .error archivedError else .ok row

def assertExpectedRevision (expectedRevision : JsonField ℕ) (currentRevision : ℕ) :
    Except GroupListError Unit :=
  match expectedRevision with
  | .undefined => .ok ()
  | .null => .error (revisionConflict none (some currentRevision))
  | .value expected =>
    if expected ≠ currentRevision then
      .error (revisionConflict (some expected) (some currentRevision))
    else .ok ()

/-- The name and the description that `update` writes. -/
def mergeList (dto : UpdateGroupListDto) (current : SavedList) :
    Except GroupListError (String × Option String) := do
  let name ←
    match dto.name with
    | .undefined => .ok current.name
    | .null => .error typeError
    | .value text => normalizeName text
  let description :=
    match dto.description with
    | .undefined => current.description
    | field => normalizeDescription field
  return (name, description)

/-- `update` up to the repository. -/
def planUpdate (dto : UpdateGroupListDto) (found : Option StoredList) :
    Except GroupListError (StoredList × Plan) := do
  let current ← getForMutation c found
  assertExpectedRevision dto.expectedRevision current.list.revision
  let (name, description) ← mergeList dto current.list
  return (current, .update name description)

/-- `replaceGroups` up to the repository. -/
def planReplaceGroups (dto : ReplaceGroupListGroupsDto) (found : Option StoredList) :
    Except GroupListError (StoredList × Plan) := do
  let current ← getForMutation c found
  assertExpectedRevision dto.expectedRevision current.list.revision
  assertExpectedRevision dto.expectedMembershipRevision current.list.membershipRevision
  validateGroupIds dto.groupIds
  return (current,
    .replaceGroups (CampaignAggregates.sort dto.groupIds) dto.expectedMembershipRevision)

/-- `archive` up to the repository: of an archived list it answers at once. -/
def planArchive (expectedRevision : Option ℕ) (found : Option StoredList) :
    Except Answer (StoredList × Plan) :=
  match found.filter (isAllowed c) with
  | none => .error (.failed notFound)
  | some current =>
    if current.list.archivedAt.isSome then .error .archived
    else
      match expectedRevision with
      | none => .ok (current, .archive)
      | some expected =>
        if expected ≠ current.list.revision then
          .error (.failed (revisionConflict (some expected) (some current.list.revision)))
        else .ok (current, .archive)

def answering {α : Type} (result : Except GroupListError α) : Except Answer α :=
  match result with
  | .error error => .error (.failed error)
  | .ok value => .ok value

def plan (call : Call) (found : Option StoredList) : Except Answer (StoredList × Plan) :=
  match call with
  | .update _ dto => answering (planUpdate c dto found)
  | .archive _ expectedRevision => planArchive c expectedRevision found
  | .replaceGroups _ dto => answering (planReplaceGroups c dto found)

/-- The answer after an UPDATE that found no row: `throwMutationRace`, or the end of `archive`. -/
def latest (call : Call) (current : StoredList) (found : Option StoredList) : Answer :=
  match found.filter (isAllowed c) with
  | none => .failed notFound
  | some row =>
    if row.list.archivedAt.isSome then
      match call with
      | .archive _ _ => .archived
      | _ => .failed archivedError
    else .failed (revisionConflict (some current.list.revision) (some row.list.revision))

end Service

/-- The columns that only the creation of a list writes. -/
structure ListOrigin where
  sessionId : String
  createIdempotencyKey : String
  createRequestHash : String
  createdAt : ℕ
  deriving DecidableEq, Repr

def StoredList.origin (row : StoredList) : ListOrigin :=
  ⟨row.list.sessionId, row.createIdempotencyKey, row.createRequestHash, row.createdAt⟩

abbrev domain : Domain where
  Key := ListId
  Row := StoredList
  Origin := ListOrigin
  Plan := Plan
  Call := Call
  Answer := Answer
  World := World
  keyEq := inferInstance

section Repository

variable (c : Config)

/-- Another active list of the session has the name: `uq_group_lists_active_session_name`. -/
def nameTaken (store : Store domain) (id : ListId) (sessionId name : String) : Bool :=
  store.entries.any fun ⟨other, row⟩ =>
    decide (other ≠ id) && row.list.archivedAt.isNone && row.list.sessionId == sessionId &&
      c.lower row.list.name == c.lower name

def missingGroupIds (world : World) (groupIds : List GroupId) : List GroupId :=
  groupIds.filter fun groupId => !world.groups.any (·.2 == groupId)

def mismatchedGroupIds (world : World) (sessionId : String) (groupIds : List GroupId) :
    List GroupId :=
  groupIds.filter fun groupId =>
    world.groups.any (·.2 == groupId) && !world.groups.any (· == (sessionId, groupId))

def throwGroupValidation (world : World) (sessionId : String) (groupIds : List GroupId) :
    Except GroupListError Unit :=
  if mismatchedGroupIds world sessionId groupIds ≠ [] then
    .error (groupSessionMismatch (mismatchedGroupIds world sessionId groupIds).length)
  else if missingGroupIds world groupIds ≠ [] then
    .error (groupNotFound (missingGroupIds world groupIds).length)
  else .ok ()

def updateList (world : World) (store : Store domain) (id : ListId) (name : String)
    (description : Option String) (expectedRevision : ℕ) : Outcome domain :=
  match store.lookup id with
  | none => .missed
  | some row =>
    match updated name description expectedRevision world.now row.list with
    | none => .missed
    | some list =>
      if nameTaken c store id list.sessionId list.name then .refused (Answer.failed nameConflict)
      else .written { row with list := list } (Answer.list { row with list := list })

def archiveList (world : World) (store : Store domain) (id : ListId) (expectedRevision : ℕ) :
    Outcome domain :=
  match store.lookup id with
  | none => .missed
  | some row =>
    match archived expectedRevision world.now row.list with
    | none => .missed
    | some list => .written { row with list := list } Answer.archived

def membershipDiffers (expected : JsonField ℕ) (membershipRevision : ℕ) : Bool :=
  match expected with
  | .undefined => false
  | .null => true
  | .value expected => expected ≠ membershipRevision

/-- The transaction of `replaceGroups`, with what the service makes of its result. -/
def replaceGroups (world : World) (store : Store domain) (id : ListId) (groupIds : List GroupId)
    (expectedRevision : ℕ) (expectedMembershipRevision : JsonField ℕ) : Outcome domain :=
  match (store.lookup id).filter (·.list.archivedAt.isNone) with
  | none => .refused (Answer.failed notFound)
  | some row =>
    if row.list.revision ≠ expectedRevision ∨
        membershipDiffers expectedMembershipRevision row.list.membershipRevision then
      .refused (Answer.failed (revisionConflict (some expectedRevision) none))
    else
      match throwGroupValidation world row.list.sessionId groupIds with
      | .error error => .refused (Answer.failed error)
      | .ok () =>
        match regrouped c.aggregates groupIds world.now row.list with
        | none => .written row (Answer.membership row)
        | some list =>
          .written { row with list := list } (Answer.membership { row with list := list })

def write (world : World) (store : Store domain) (call : Call) (current : StoredList) :
    Plan → Outcome domain
  | .update name description =>
    updateList c world store call.id name description current.list.revision
  | .archive => archiveList world store call.id current.list.revision
  | .replaceGroups groupIds expectedMembershipRevision =>
    replaceGroups c world store call.id groupIds current.list.revision expectedMembershipRevision

def service : Service domain where
  key := Call.id
  version row := row.list.revision
  origin := StoredList.origin
  plan := plan c
  write := write c
  again := latest c

end Repository

section Laws

variable {c : Config} {world : World} {store : Store domain} {id : ListId} {row : StoredList}
  {list new : SavedList} {outcome : Outcome domain} {now expected : ℕ}

/-- What the statements on a list leave alone. -/
structure Edited (old new : SavedList) : Prop where
  sessionId : new.sessionId = old.sessionId
  active : old.archivedAt = none
  advances : old.revision < new.revision ∨ new = old

theorem updated_edits {name : String} {description : Option String}
    (h : updated name description expected now list = some new) :
    Edited list new ∧ list.revision = expected ∧ new.archivedAt = none ∧
      new.groupIds = list.groupIds ∧ new.name = name := by
  unfold updated at h
  split at h
  · rename_i hguard
    obtain ⟨hactive, hrevision⟩ := hguard
    cases h
    refine ⟨⟨rfl, hactive, ?_⟩, hrevision, hactive, rfl, rfl⟩
    by_cases hsame : (list.name, list.description) = (name, description)
    · obtain ⟨rfl, rfl⟩ := Prod.mk.inj hsame
      exact .inr (by simp)
    · exact .inl (by simp [hsame])
  · cases h

theorem archived_edits (h : archived expected now list = some new) :
    Edited list new ∧ list.revision = expected ∧ new.archivedAt = some now ∧
      new.groupIds = list.groupIds := by
  unfold archived at h
  split at h
  · rename_i hguard
    cases h
    exact ⟨⟨rfl, hguard.1, .inl (Nat.lt_succ_self _)⟩, hguard.2, rfl, rfl⟩
  · cases h

theorem regrouped_edits {groupIds : List GroupId} (hactive : list.archivedAt = none)
    (h : regrouped c.aggregates groupIds now list = some new) :
    Edited list new ∧ new.archivedAt = none ∧ new.name = list.name ∧
      new.groupIds = c.aggregates.collate groupIds := by
  unfold regrouped at h
  split at h
  · cases h
    exact ⟨⟨rfl, hactive, .inl (Nat.lt_succ_self _)⟩, hactive, rfl, rfl⟩
  · cases h

/-- What the repository leaves of a row: a statement on the list, on which the answer depends. -/
inductive Repository (c : Config) (world : World) (store : Store domain) (call : Call)
    (current row : StoredList) : Plan → Outcome domain → Prop where
  | updated (name : String) (description : Option String) (list : SavedList)
      (h : updated name description current.list.revision world.now row.list = some list)
      (hfree : nameTaken c store call.id list.sessionId list.name = false) :
      Repository c world store call current row (.update name description)
        (.written { row with list := list } (Answer.list { row with list := list }))
  | nameTaken (name : String) (description : Option String) (list : SavedList)
      (h : updated name description current.list.revision world.now row.list = some list) :
      Repository c world store call current row (.update name description)
        (.refused (Answer.failed nameConflict))
  | notUpdated (name : String) (description : Option String)
      (h : updated name description current.list.revision world.now row.list = none) :
      Repository c world store call current row (.update name description) .missed
  | archived (list : SavedList)
      (h : archived current.list.revision world.now row.list = some list) :
      Repository c world store call current row .archive
        (.written { row with list := list } Answer.archived)
  | notArchived (h : archived current.list.revision world.now row.list = none) :
      Repository c world store call current row .archive .missed
  | gone (groupIds : List GroupId) (expected : JsonField ℕ) (h : row.list.archivedAt ≠ none) :
      Repository c world store call current row (.replaceGroups groupIds expected)
        (.refused (Answer.failed notFound))
  | conflicting (groupIds : List GroupId) (expected : JsonField ℕ)
      (hactive : row.list.archivedAt = none) :
      Repository c world store call current row (.replaceGroups groupIds expected)
        (.refused (Answer.failed (revisionConflict (some current.list.revision) none)))
  | invalid (groupIds : List GroupId) (expected : JsonField ℕ) (error : GroupListError)
      (hrevision : row.list.revision = current.list.revision) :
      Repository c world store call current row (.replaceGroups groupIds expected)
        (.refused (Answer.failed error))
  | unchanged (groupIds : List GroupId) (expected : JsonField ℕ)
      (hactive : row.list.archivedAt = none) (hrevision : row.list.revision = current.list.revision)
      (hgroups : throwGroupValidation world row.list.sessionId groupIds = .ok ())
      (h : regrouped c.aggregates groupIds world.now row.list = none) :
      Repository c world store call current row (.replaceGroups groupIds expected)
        (.written row (Answer.membership row))
  | regrouped (groupIds : List GroupId) (expected : JsonField ℕ) (list : SavedList)
      (hactive : row.list.archivedAt = none) (hrevision : row.list.revision = current.list.revision)
      (hgroups : throwGroupValidation world row.list.sessionId groupIds = .ok ())
      (h : regrouped c.aggregates groupIds world.now row.list = some list) :
      Repository c world store call current row (.replaceGroups groupIds expected)
        (.written { row with list := list } (Answer.membership { row with list := list }))

theorem write_repository (c : Config) (world : World) {call : Call} (current : StoredList)
    (plan : Plan) (hrow : store.lookup call.id = some row) :
    Repository c world store call current row plan (write c world store call current plan) := by
  cases plan with
  | update name description =>
    simp only [write, updateList, hrow]
    cases hupdated : updated name description current.list.revision world.now row.list with
    | none => exact .notUpdated name description hupdated
    | some list =>
      cases hname : nameTaken c store call.id list.sessionId list.name with
      | true =>
        simp only [hname, if_true]
        exact .nameTaken name description list hupdated
      | false =>
        simp only [hname, Bool.false_eq_true, if_false]
        exact .updated name description list hupdated hname
  | archive =>
    simp only [write, archiveList, hrow]
    cases harchived : archived current.list.revision world.now row.list with
    | none => exact .notArchived harchived
    | some list => exact .archived list harchived
  | replaceGroups groupIds expected =>
    simp only [write, replaceGroups, hrow]
    cases hactive : row.list.archivedAt with
    | some at' =>
      simp only [Option.filter_some, hactive, Option.isNone_some, Bool.false_eq_true, if_false]
      exact .gone groupIds expected (by simp [hactive])
    | none =>
      simp only [Option.filter_some, hactive, Option.isNone_none, if_true]
      split
      · exact .conflicting groupIds expected hactive
      · rename_i hsame
        have hrevision : row.list.revision = current.list.revision := by
          by_contra hne
          exact hsame (.inl hne)
        cases hgroups : throwGroupValidation world row.list.sessionId groupIds with
        | error error => exact .invalid groupIds expected error hrevision
        | ok _ =>
          cases hregrouped : regrouped c.aggregates groupIds world.now row.list with
          | none => exact .unchanged groupIds expected hactive hrevision hgroups hregrouped
          | some list =>
            exact .regrouped groupIds expected list hactive hrevision hgroups hregrouped

theorem write_none (c : Config) (world : World) {call : Call} (current : StoredList) (plan : Plan)
    (hrow : store.lookup call.id = none) :
    write c world store call current plan = .missed ∨
      write c world store call current plan = .refused (Answer.failed notFound) := by
  cases plan <;> simp [write, updateList, archiveList, replaceGroups, hrow]

theorem getForMutation_ok {found : Option StoredList} (h : getForMutation c found = .ok row) :
    found = some row ∧ row.list.archivedAt = none ∧ isAllowed c row := by
  unfold getForMutation at h
  split at h
  · cases h
  · rename_i other hfound
    split at h
    · cases h
    · rename_i hactive
      cases h
      obtain ⟨hfound, hallowed⟩ := Option.filter_eq_some_iff.mp hfound
      exact ⟨hfound, by simpa using hactive, hallowed⟩

theorem validateGroupIds_ok {groupIds : List GroupId} (h : validateGroupIds groupIds = .ok ()) :
    groupIds.length ≤ 1000 ∧ groupIds.Nodup := by
  unfold validateGroupIds at h
  split at h
  · cases h
  · rename_i hlength
    split at h
    · cases h
    · rename_i hunique
      exact ⟨by omega, by simpa using hunique⟩

/-- What a plan is for its call. -/
inductive Planned : Call → Plan → Prop where
  | update (id : ListId) (dto : UpdateGroupListDto) (name : String) (description : Option String) :
      Planned (.update id dto) (.update name description)
  | archive (id : ListId) (expectedRevision : Option ℕ) :
      Planned (.archive id expectedRevision) .archive
  | replaceGroups (id : ListId) (dto : ReplaceGroupListGroupsDto)
      (hlength : dto.groupIds.length ≤ 1000) (hunique : dto.groupIds.Nodup) :
      Planned (.replaceGroups id dto)
        (.replaceGroups (CampaignAggregates.sort dto.groupIds) dto.expectedMembershipRevision)

/-- A plan is made for an active list that was found, and that may be used. -/
theorem plan_ok {call : Call} {found : Option StoredList} {current : StoredList} {made : Plan}
    (h : plan c call found = .ok (current, made)) :
    found = some current ∧ current.list.archivedAt = none ∧ isAllowed c current ∧
      Planned call made := by
  cases call with
  | update id dto =>
    simp only [plan, answering, planUpdate] at h
    cases hfound : getForMutation c found with
    | error error => simp [hfound, bind, Except.bind] at h
    | ok row =>
      have hrow := getForMutation_ok hfound
      simp only [hfound, bind, Except.bind] at h
      cases hexpected : assertExpectedRevision dto.expectedRevision row.list.revision with
      | error error => simp [hexpected] at h
      | ok _ =>
        cases hmerged : mergeList dto row.list with
        | error error => simp [hexpected, hmerged] at h
        | ok merged =>
          simp only [hexpected, hmerged, pure, Except.pure, Except.ok.injEq, Prod.mk.injEq] at h
          obtain ⟨rfl, rfl⟩ := h
          exact ⟨hrow.1, hrow.2.1, hrow.2.2, .update id dto _ _⟩
  | archive id expected =>
    simp only [plan, planArchive] at h
    split at h
    · cases h
    · rename_i row hfound
      obtain ⟨hrow, hallowed⟩ := Option.filter_eq_some_iff.mp hfound
      split at h
      · cases h
      · rename_i hactive
        have hactive : row.list.archivedAt = none := by simpa using hactive
        split at h
        · cases h
          exact ⟨hrow, hactive, hallowed, .archive id _⟩
        · split at h
          · cases h
          · cases h
            exact ⟨hrow, hactive, hallowed, .archive id _⟩
  | replaceGroups id dto =>
    simp only [plan, answering, planReplaceGroups] at h
    cases hfound : getForMutation c found with
    | error error => simp [hfound, bind, Except.bind] at h
    | ok row =>
      have hrow := getForMutation_ok hfound
      simp only [hfound, bind, Except.bind] at h
      cases hexpected : assertExpectedRevision dto.expectedRevision row.list.revision with
      | error error => simp [hexpected] at h
      | ok _ =>
        cases hmembership : assertExpectedRevision dto.expectedMembershipRevision
            row.list.membershipRevision with
        | error error => simp [hexpected, hmembership] at h
        | ok _ =>
          cases hgroups : validateGroupIds dto.groupIds with
          | error error => simp [hexpected, hmembership, hgroups] at h
          | ok _ =>
            simp only [hexpected, hmembership, hgroups, pure, Except.pure, Except.ok.injEq,
              Prod.mk.injEq] at h
            obtain ⟨rfl, rfl⟩ := h
            obtain ⟨hlength, hunique⟩ := validateGroupIds_ok hgroups
            exact ⟨hrow.1, hrow.2.1, hrow.2.2, .replaceGroups id dto hlength hunique⟩

theorem origin_eq (h : Edited row.list new) :
    { row with list := new }.origin = row.origin := by
  simp [StoredList.origin, h.sessionId]

theorem advances_eq (h : Edited row.list new) :
    row.list.revision < new.revision ∨ { row with list := new } = row := by
  refine h.advances.imp_right ?_
  rintro rfl
  rfl

theorem service_lawful (c : Config) : (service c).Lawful where
  planned _ _ _ _ h := (plan_ok h).1
  guarded world store call current plan row answer h := by
    cases hrow : store.lookup call.id with
    | none =>
      rcases write_none c world current plan hrow with hw | hw <;>
        rw [show (service c).write = write c from rfl, hw] at h <;> cases h
    | some found =>
      have hrepository := write_repository c world current plan hrow
      rw [show write c world store call current plan = .written row answer from h] at hrepository
      refine ⟨found, hrow, ?_⟩
      cases hrepository with
      | updated name description list hupdated hfree =>
        obtain ⟨hedited, hrevision, _⟩ := updated_edits hupdated
        exact ⟨hrevision, origin_eq hedited, advances_eq hedited⟩
      | archived list harchived =>
        obtain ⟨hedited, hrevision, _⟩ := archived_edits harchived
        exact ⟨hrevision, origin_eq hedited, advances_eq hedited⟩
      | unchanged groupIds expected hactive hrevision hgroups hsame =>
        exact ⟨hrevision, rfl, .inr rfl⟩
      | regrouped groupIds expected list hactive hrevision hgroups hregrouped =>
        obtain ⟨hedited, _⟩ := regrouped_edits hactive hregrouped
        exact ⟨hrevision, origin_eq hedited, advances_eq hedited⟩
  found world store call current plan hplan hrow h := by
    have hactive := (plan_ok hplan).2.1
    have hrepository := write_repository c world current plan hrow
    rw [show write c world store call current plan = .missed from h] at hrepository
    cases hrepository with
    | notUpdated name description hnone => simp [updated, hactive] at hnone
    | notArchived hnone => simp [archived, hactive] at hnone

end Laws

section Races

variable {c : Config} {s s₀ : State domain} {es : List (Event domain)} {r : ℕ} {call : Call}
  {answer : Answer} {current row : StoredList}

/-- The answer of a request that has read `current`, by the later revision that it finds. -/
inductive Overtaken (current row : StoredList) : Call → Answer → Prop where
  | archived (id : ListId) (expectedRevision : Option ℕ) (h : row.list.archivedAt.isSome) :
      Overtaken current row (.archive id expectedRevision) .archived
  | closed (id : ListId) (dto : UpdateGroupListDto) (h : row.list.archivedAt.isSome) :
      Overtaken current row (.update id dto) (.failed archivedError)
  | gone (id : ListId) (dto : ReplaceGroupListGroupsDto) (h : row.list.archivedAt.isSome) :
      Overtaken current row (.replaceGroups id dto) (.failed notFound)
  | changed (call : Call) (hcall : ∀ id dto, call ≠ .replaceGroups id dto)
      (h : row.list.archivedAt = none) :
      Overtaken current row call
        (.failed (revisionConflict (some current.list.revision) (some row.list.revision)))
  | differs (id : ListId) (dto : ReplaceGroupListGroupsDto) (h : row.list.archivedAt = none) :
      Overtaken current row (.replaceGroups id dto)
        (.failed (revisionConflict (some current.list.revision) none))

theorem isAllowed_origin (h : row.origin = current.origin) :
    isAllowed c row = isAllowed c current := by
  have hsession : row.list.sessionId = current.list.sessionId := congrArg ListOrigin.sessionId h
  rw [isAllowed, isAllowed, hsession]

/-- A write that the guard refuses on a later revision is that of a membership. -/
theorem refused_overtaken {world : World} {store : Store domain} {made : Plan}
    (hplanned : Planned call made) (hrow : store.lookup call.id = some row)
    (hlater : current.list.revision < row.list.revision)
    (h : write c world store call current made = .refused answer) :
    Overtaken current row call answer := by
  have hrepository := write_repository c world current made hrow
  rw [h] at hrepository
  cases hrepository with
  | nameTaken name description list hupdated =>
    have hrevision := (updated_edits hupdated).2.1
    omega
  | gone groupIds expected harchived =>
    cases hplanned with
    | replaceGroups id dto hlength hunique =>
      exact .gone id dto (Option.isSome_iff_ne_none.mpr harchived)
  | conflicting groupIds expected hactive =>
    cases hplanned with
    | replaceGroups id dto hlength hunique => exact .differs id dto hactive
  | invalid groupIds expected error hrevision => omega

theorem latest_overtaken (hallowed : isAllowed c row)
    (hcall : ∀ id dto, call ≠ .replaceGroups id dto) :
    Overtaken current row call (latest c call current (some row)) := by
  simp only [latest, Option.filter_some, hallowed, if_true]
  cases hactive : row.list.archivedAt with
  | none =>
    simp only [Option.isSome_none, Bool.false_eq_true, if_false]
    exact .changed call hcall hactive
  | some at' =>
    simp only [Option.isSome_some, if_true]
    have harchived : row.list.archivedAt.isSome := by simp [hactive]
    cases call with
    | update id dto => exact .closed id dto harchived
    | archive id expectedRevision => exact .archived id expectedRevision harchived
    | replaceGroups id dto => exact absurd rfl (hcall id dto)

/-- A membership never misses. -/
theorem missed_call {world : World} {store : Store domain} {made : Plan}
    (hplanned : Planned call made) (h : write c world store call current made = .missed) (id : ListId)
    (dto : ReplaceGroupListGroupsDto) : call ≠ .replaceGroups id dto := by
  rintro rfl
  cases hplanned with
  | replaceGroups _ _ hlength hunique =>
    cases hrow : store.lookup id with
    | none => simp [write, replaceGroups, Call.id, hrow] at h
    | some row =>
      have hrepository := write_repository c world current
        (.replaceGroups (CampaignAggregates.sort dto.groupIds) dto.expectedMembershipRevision)
        (show store.lookup (Call.id (.replaceGroups id dto)) = some row from hrow)
      rw [h] at hrepository
      cases hrepository

theorem contended_overtaken (hr : TransitionRuns.Reachable (system (service c)) s)
    (h : Contended (service c) s r call answer) :
    ∃ phase current row, s.requests r = some (call, phase) ∧ phase.current = some current ∧
      s.store.lookup call.id = some row ∧ current.list.revision < row.list.revision ∧
      Overtaken current row call answer := by
  obtain ⟨current, ⟨row, hrow, horigin, hlater⟩, ⟨made, hphase, hrefused⟩ | ⟨hphase, rfl⟩⟩ := h
  · obtain ⟨hplan, _⟩ := reachable_inv (service_lawful c) hr r call _ hphase
    obtain ⟨_, _, _, hplanned⟩ := plan_ok hplan
    exact ⟨_, current, row, hphase, rfl, hrow, hlater,
      refused_overtaken hplanned hrow hlater hrefused⟩
  · obtain ⟨⟨made, hplan, world, store, hmissed⟩, _⟩ :=
      reachable_inv (service_lawful c) hr r call _ hphase
    obtain ⟨_, _, hallowed, hplanned⟩ := plan_ok hplan
    refine ⟨_, current, row, hphase, rfl, hrow, hlater, ?_⟩
    rw [show s.store.lookup ((service c).key call) = some row from hrow]
    refine latest_overtaken ?_ (missed_call hplanned hmissed)
    rw [isAllowed_origin horigin]
    exact hallowed

/-- At some moment the request, which had read the list and was not answered yet, found a later
revision of it than the one that it had read. -/
def LostRace (c : Config) (s₀ : State domain) (es : List (Event domain)) (r : ℕ) (call : Call)
    (answer : Answer) : Prop :=
  ∃ fs t phase current row, fs <+: es ∧ TransitionRuns.Execution (system (service c)) s₀ fs t ∧
    t.requests r = some (call, phase) ∧ phase.current = some current ∧
    HasRead (service c) s₀ fs r call current ∧ t.store.lookup call.id = some row ∧
    current.list.revision < row.list.revision ∧ Overtaken current row call answer

/-- The lists are what the requests make of them one after the other, each alone where it was
answered; all other requests have lost a race, and have changed nothing. -/
structure EditsSerialized (c : Config) (s₀ : State domain) (es : List (Event domain))
    (s : State domain) (ops : List (Op domain)) : Prop where
  serial : Serial (service c) s₀.store ops s.store
  once : (ops.filterMap Op.request).Nodup
  inserts : ops.filterMap Op.inserted = es.filterMap Event.inserted
  sound : ∀ r world call answer, Op.call r world call answer ∈ ops →
    s.requests r = some (call, .answered answer)
  complete : ∀ r call answer, s.requests r = some (call, .answered answer) →
    (∃ world, Op.call r world call answer ∈ ops) ∨ LostRace c s₀ es r call answer

theorem edits_serialized (h₀ : (system (service c)).initial s₀)
    (h : TransitionRuns.Execution (system (service c)) s₀ es s) :
    ∃ ops, EditsSerialized c s₀ es s ops := by
  obtain ⟨ops, hops⟩ := requests_serialized (service_lawful c) h₀ h
  refine ⟨ops, hops.serial, hops.once, hops.inserts, hops.sound, fun r call answer hanswer => ?_⟩
  refine (hops.complete r call answer hanswer).imp_right ?_
  rintro ⟨fs, t, hfs, ht, hcontended⟩
  obtain ⟨phase, current, row, hphase, hcurrent, hrow, hlater, hovertaken⟩ :=
    contended_overtaken ⟨fs, s₀, h₀, ht⟩ hcontended
  exact ⟨fs, t, phase, current, row, hfs, ht, hphase, hcurrent,
    has_read (service_lawful c) h₀ ht hphase hcurrent, hrow, hlater, hovertaken⟩

end Races

end GroupListRequests
