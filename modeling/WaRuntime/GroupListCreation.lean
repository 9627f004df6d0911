import WaRuntime.GroupListRequests

/-! Saved group lists as a whole: their creation under an idempotency key, beside the requests that
change them.
A creation is one transaction. Its first query locks the list of the key where there is one. The
session and the groups are locked before the INSERT, which is one step with their queries, and
after an INSERT that finds the key taken the list of the key is read again. -/
namespace GroupListCreation

open TransitionRuns OptimisticRequests GroupListRequests
open CampaignAggregates (ListId SavedList CreateListInput newList updated archived regrouped)
open CampaignEdits renaming Field → JsonField
open CampaignExecution (GroupId)
open CreationReplay (Formats trim quote)

structure CreateGroupListDto where
  sessionId : String
  name : String
  description : JsonField String
  groupIds : JsonField (List GroupId)
  deriving DecidableEq, Repr

/-- The argument of the repository. -/
structure CreateInput where
  list : CreateListInput
  idempotencyKey : String
  requestHash : String
  deriving DecidableEq, Repr

inductive CreateAnswer where
  | returned (id : ListId) (row : StoredList) (created : Bool)
  | failed (error : GroupListError)
  deriving DecidableEq, Repr

/-- A creation that its service has refused has no query. -/
inductive Creation where
  | refused (error : GroupListError)
  | looking (input : CreateInput)
  | inserting (input : CreateInput)
  | selecting (input : CreateInput)
  | answered (input : CreateInput) (answer : CreateAnswer)
  deriving DecidableEq, Repr

structure State where
  lists : OptimisticRequests.State domain
  creations : ℕ → Option Creation

inductive Event where
  | lists (event : OptimisticRequests.Event domain)
  | create (r : ℕ) (dto : CreateGroupListDto) (rawIdempotencyKey : Option String)
  | look (r : ℕ)
  | insert (r : ℕ) (id : ListId)
  | select (r : ℕ)

section Errors

def sessionForbidden : GroupListError :=
  ⟨403, none, "Session is not in OPENWA_ALLOWED_SESSION_IDS", [], []⟩

def keyRequired : GroupListError :=
  ⟨400, some "GROUP_LIST_IDEMPOTENCY_KEY_REQUIRED", "Idempotency-Key header is required", [], []⟩

def keyInvalid : GroupListError :=
  ⟨400, some "GROUP_LIST_IDEMPOTENCY_KEY_INVALID", "Idempotency-Key must be a UUID", [], []⟩

def sessionNotFound : GroupListError :=
  ⟨422, some "GROUP_LIST_SESSION_NOT_FOUND", "Session is not synchronized", [], []⟩

def idempotencyConflict : GroupListError :=
  ⟨409, some "GROUP_LIST_IDEMPOTENCY_CONFLICT",
    "Idempotency-Key was already used with a different group-list payload", [], []⟩

def keyRetired : GroupListError :=
  ⟨409, some "GROUP_LIST_IDEMPOTENCY_KEY_RETIRED",
    "Idempotency-Key belongs to an archived saved group list and cannot be reused", [], []⟩

/-- The row of the key is not there. -/
def rowMissing : GroupListError :=
  ⟨500, none, "Cannot read properties of undefined (reading 'id')", [], []⟩

end Errors

section Steps

variable (f : Formats) (c : Config) (s : State)

/-- The hash of the JSON text of the content. -/
def requestHash (input : CreateListInput) : String :=
  f.sha256 ("\x7b" ++ ",".intercalate
    ["\"sessionId\":" ++ quote input.sessionId, "\"name\":" ++ quote input.name,
      "\"description\":" ++ (input.description.map quote).getD "null",
      "\"groupIds\":[" ++ ",".intercalate (input.groupIds.map quote) ++ "]"] ++ "\x7d")

def orEmpty (groupIds : JsonField (List GroupId)) : List GroupId :=
  match groupIds with
  | .value groupIds => groupIds
  | _ => []

/-- `create` of the service up to the repository. -/
def prepare (dto : CreateGroupListDto) (rawIdempotencyKey : Option String) :
    Except GroupListError CreateInput := do
  if dto.sessionId ∉ c.aggregates.allowedSessionIds then .error sessionForbidden
  let idempotencyKey := (rawIdempotencyKey.map trim).getD ""
  if idempotencyKey = "" then .error keyRequired
  if ¬ f.isUUID idempotencyKey then .error keyInvalid
  validateGroupIds (orEmpty dto.groupIds)
  let name ← normalizeName dto.name
  let list := ⟨dto.sessionId, name, normalizeDescription dto.description,
    CampaignAggregates.sort (orEmpty dto.groupIds)⟩
  return ⟨list, idempotencyKey, requestHash f list⟩

/-- The column of the key is a UUID, in which the case of a digit does not count. -/
def CreateInput.key (input : CreateInput) : String := input.idempotencyKey.toLower

/-- The query by `create_idempotency_key`. -/
def findByKey (store : Store domain) (key : String) : Option (ListId × StoredList) :=
  (store.entries.find? fun entry => entry.2.createIdempotencyKey == key).map fun entry =>
    (entry.1, entry.2)

/-- What the service makes of a list that was there. -/
def judge (input : CreateInput) (id : ListId) (row : StoredList) : CreateAnswer :=
  if row.createRequestHash ≠ input.requestHash then .failed idempotencyConflict
  else if row.list.archivedAt.isSome then .failed keyRetired
  else .returned id row false

/-- The foreign keys of the lists and of their members. -/
def Referred (world : World) (row : StoredList) : Prop :=
  row.list.sessionId ∈ world.sessions ∧
    ∀ groupId ∈ row.list.groupIds, (row.list.sessionId, groupId) ∈ world.groups

instance (world : World) (row : StoredList) : Decidable (Referred world row) :=
  inferInstanceAs (Decidable (_ ∧ _))

def newRow (now : ℕ) (input : CreateInput) : StoredList where
  list := newList c.aggregates now input.list
  createIdempotencyKey := input.key
  createRequestHash := input.requestHash
  createdAt := now

def State.set (r : ℕ) (creation : Creation) : State :=
  { s with creations := Function.update s.creations r (some creation) }

def looked (input : CreateInput) : Creation :=
  match findByKey s.lists.store input.key with
  | some (id, row) => .answered input (judge input id row)
  | none => .inserting input

def selected (input : CreateInput) : Creation :=
  match findByKey s.lists.store input.key with
  | some (id, row) => .answered input (judge input id row)
  | none => .answered input (.failed rowMissing)

/-- From the query of the session to the commit. The key is looked at before the name. -/
def inserted (r : ℕ) (input : CreateInput) (id : ListId) : Option State :=
  if input.list.sessionId ∉ s.lists.world.sessions then
    some (s.set r (.answered input (.failed sessionNotFound)))
  else
    match throwGroupValidation s.lists.world input.list.sessionId input.list.groupIds with
    | .error error => some (s.set r (.answered input (.failed error)))
    | .ok () =>
      match findByKey s.lists.store input.key with
      | some _ => some (s.set r (.selecting input))
      | none =>
        if nameTaken c s.lists.store id input.list.sessionId input.list.name then
          some (s.set r (.answered input (.failed nameConflict)))
        else
          match s.lists.store.lookup id with
          | some _ => none
          | none =>
            let row := newRow c s.lists.world.now input
            some { s.set r (.answered input (.returned id row true)) with
              lists := { s.lists with store := s.lists.store.insert id row } }

def step : Event → Option State
  | .lists (.insert _ _) => none
  | .lists (.world world) =>
    guarded (∀ entry ∈ s.lists.store.entries, Referred world entry.2)
      { s with lists := { s.lists with world := world } }
  | .lists event =>
    (OptimisticRequests.step (service c) s.lists event).map fun lists => { s with lists := lists }
  | .create r dto rawIdempotencyKey =>
    match s.creations r with
    | some _ => none
    | none =>
      match prepare f c dto rawIdempotencyKey with
      | .error error => some (s.set r (.refused error))
      | .ok input => some (s.set r (.looking input))
  | .look r =>
    match s.creations r with
    | some (.looking input) => some (s.set r (looked s input))
    | _ => none
  | .insert r id =>
    match s.creations r with
    | some (.inserting input) => inserted c s r input id
    | _ => none
  | .select r =>
    match s.creations r with
    | some (.selecting input) => some (s.set r (selected s input))
    | _ => none

/-- There is no list, and nobody asks for anything. -/
structure Start (s : State) : Prop where
  store : s.lists.store = ∅
  requests : ∀ r, s.lists.requests r = none
  creations : ∀ r, s.creations r = none

def system : System State Event := ofStep Start (step f c)

instance (s : State) (e : Event) : Decidable ((system f c).enabled s e) :=
  inferInstanceAs (Decidable ((step f c s e).isSome = true))

end Steps

section Stores

variable {f : Formats} {c : Config} {world : World} {store : Store domain} {id : ListId}
  {old row : StoredList} {call : Call} {made : Plan} {current : StoredList} {answer : Answer}

/-- No two lists have one key, and no two active lists of a session one name; the members are
distinct groups of the session of the list. -/
structure Consistent (c : Config) (world : World) (store : Store domain) : Prop where
  keys : ∀ id id' row row', store.lookup id = some row → store.lookup id' = some row' →
    row.createIdempotencyKey = row'.createIdempotencyKey → id = id'
  names : ∀ id id' row row', store.lookup id = some row → store.lookup id' = some row' →
    row.list.archivedAt = none → row'.list.archivedAt = none →
    row.list.sessionId = row'.list.sessionId →
    c.lower row.list.name = c.lower row'.list.name → id = id'
  members : ∀ id row, store.lookup id = some row →
    row.list.groupIds.Nodup ∧ row.list.groupIds.length ≤ 1000
  referred : ∀ id row, store.lookup id = some row → Referred world row

theorem findByKey_some {key : String} (h : findByKey store key = some (id, row)) :
    store.lookup id = some row ∧ row.createIdempotencyKey = key := by
  obtain ⟨⟨id', row'⟩, hfind, heq⟩ := Option.map_eq_some_iff.mp h
  cases heq
  have hmem := List.mem_of_find?_eq_some hfind
  have hkey := List.find?_some hfind
  exact ⟨AList.mem_lookup_iff.mpr hmem, by simpa using hkey⟩

theorem findByKey_none {key : String} (h : findByKey store key = none)
    (hrow : store.lookup id = some row) : row.createIdempotencyKey ≠ key := by
  have hfind := Option.map_eq_none_iff.mp h
  have hother := List.find?_eq_none.mp hfind ⟨id, row⟩ (AList.mem_lookup_iff.mp hrow)
  simpa using hother

theorem nameTaken_false {sessionId name : String} (h : nameTaken c store id sessionId name = false)
    {other : ListId} (hother : other ≠ id) (hrow : store.lookup other = some row)
    (hactive : row.list.archivedAt = none) (hsession : row.list.sessionId = sessionId) :
    c.lower row.list.name ≠ c.lower name := by
  have hentry := List.any_eq_false.mp h ⟨other, row⟩ (AList.mem_lookup_iff.mp hrow)
  simpa [hother, hactive, hsession] using hentry

theorem throwGroupValidation_ok {sessionId : String} {groupIds : List GroupId}
    (h : throwGroupValidation world sessionId groupIds = .ok ()) {groupId : GroupId}
    (hmem : groupId ∈ groupIds) : (sessionId, groupId) ∈ world.groups := by
  unfold throwGroupValidation at h
  split at h
  · cases h
  · rename_i hmatched
    split at h
    · cases h
    · rename_i hfound
      have hthere : world.groups.any (·.2 == groupId) := by
        have hnot := List.filter_eq_nil_iff.mp (not_ne_iff.mp hfound) groupId hmem
        simpa using hnot
      have hsame := List.filter_eq_nil_iff.mp (not_ne_iff.mp hmatched) groupId hmem
      simp only [hthere, Bool.true_and, Bool.not_eq_true', Bool.not_eq_false] at hsame
      simpa using hsame

theorem sort_perm (groupIds : List GroupId) : (CampaignAggregates.sort groupIds).Perm groupIds :=
  List.perm_insertionSort _ _

/-- What a write makes of the row that it finds. -/
structure Rewritten (c : Config) (world : World) (store : Store domain) (id : ListId)
    (old row : StoredList) : Prop where
  origin : row.origin = old.origin
  settled : old.list.archivedAt = none ∨ row = old
  name : row.list.archivedAt = none → old.list.archivedAt = none ∧ row.list.name = old.list.name ∨
    nameTaken c store id row.list.sessionId row.list.name = false
  members : row.list.groupIds = old.list.groupIds ∨ row.list.groupIds.Nodup ∧
    row.list.groupIds.length ≤ 1000 ∧
    ∀ groupId ∈ row.list.groupIds, (row.list.sessionId, groupId) ∈ world.groups

theorem write_rewritten (hplanned : Planned call made) (hrow : store.lookup call.id = some old)
    (h : write c world store call current made = .written row answer) :
    Rewritten c world store call.id old row := by
  have hrepository := write_repository c world current made hrow
  rw [h] at hrepository
  cases hrepository with
  | updated name description list hupdated hfree =>
    obtain ⟨hedited, -, -, hgroups, -⟩ := updated_edits hupdated
    exact ⟨origin_eq hedited, .inl hedited.active, fun _ => .inr hfree, .inl hgroups⟩
  | archived list harchived =>
    obtain ⟨hedited, -, hat, hgroups⟩ := archived_edits harchived
    refine ⟨origin_eq hedited, .inl hedited.active, fun hactive => ?_, .inl hgroups⟩
    rw [hat] at hactive
    cases hactive
  | unchanged groupIds expected hactive hrevision hgroups hsame =>
    exact ⟨rfl, .inr rfl, fun _ => .inl ⟨hactive, rfl⟩, .inl rfl⟩
  | regrouped groupIds expected list hactive hrevision hgroups hregrouped =>
    obtain ⟨hedited, -, hname, hmembers⟩ := regrouped_edits hactive hregrouped
    refine ⟨origin_eq hedited, .inl hactive, fun _ => .inl ⟨hactive, hname⟩, .inr ?_⟩
    cases hplanned with
    | replaceGroups id dto hlength hunique =>
      have hperm := (c.aggregates.collate_perm (CampaignAggregates.sort dto.groupIds)).trans
        (sort_perm dto.groupIds)
      rw [hmembers]
      refine ⟨hperm.nodup_iff.mpr hunique, hperm.length_eq.trans_le hlength, fun groupId hmem => ?_⟩
      rw [hedited.sessionId]
      exact throwGroupValidation_ok hgroups ((c.aggregates.collate_perm _).subset hmem)

/-- A row is put where no other has its key, nor, when it is active, its name. -/
theorem consistent_insert (hC : Consistent c world store) (row : StoredList)
    (hkey : ∀ other found, other ≠ id → store.lookup other = some found →
      found.createIdempotencyKey ≠ row.createIdempotencyKey)
    (hname : row.list.archivedAt = none → ∀ other found, other ≠ id →
      store.lookup other = some found → found.list.archivedAt = none →
      found.list.sessionId = row.list.sessionId → c.lower found.list.name ≠ c.lower row.list.name)
    (hmembers : row.list.groupIds.Nodup ∧ row.list.groupIds.length ≤ 1000)
    (hreferred : Referred world row) : Consistent c world (store.insert id row) := by
  have hcases : ∀ other found, (store.insert id row).lookup other = some found →
      other = id ∧ found = row ∨ other ≠ id ∧ store.lookup other = some found := by
    intro other found hfound
    by_cases heq : other = id
    · subst heq
      rw [AList.lookup_insert] at hfound
      cases hfound
      exact .inl ⟨rfl, rfl⟩
    · rw [AList.lookup_insert_ne heq] at hfound
      exact .inr ⟨heq, hfound⟩
  constructor
  · intro a b rowA rowB ha hb hsame
    rcases hcases a rowA ha with ⟨rfl, rfl⟩ | ⟨hane, hstoredA⟩ <;>
      rcases hcases b rowB hb with ⟨rfl, rfl⟩ | ⟨hbne, hstoredB⟩
    · rfl
    · exact absurd hsame.symm (hkey b rowB hbne hstoredB)
    · exact absurd hsame (hkey a rowA hane hstoredA)
    · exact hC.keys a b rowA rowB hstoredA hstoredB hsame
  · intro a b rowA rowB ha hb hactiveA hactiveB hsession hsame
    rcases hcases a rowA ha with ⟨rfl, rfl⟩ | ⟨hane, hstoredA⟩ <;>
      rcases hcases b rowB hb with ⟨rfl, rfl⟩ | ⟨hbne, hstoredB⟩
    · rfl
    · exact absurd hsame.symm (hname hactiveA b rowB hbne hstoredB hactiveB hsession.symm)
    · exact absurd hsame (hname hactiveB a rowA hane hstoredA hactiveA hsession)
    · exact hC.names a b rowA rowB hstoredA hstoredB hactiveA hactiveB hsession hsame
  · intro a rowA ha
    rcases hcases a rowA ha with ⟨rfl, rfl⟩ | ⟨-, ha⟩
    · exact hmembers
    · exact hC.members a rowA ha
  · intro a rowA ha
    rcases hcases a rowA ha with ⟨rfl, rfl⟩ | ⟨-, ha⟩
    · exact hreferred
    · exact hC.referred a rowA ha

theorem consistent_rewritten (hC : Consistent c world store) (hrow : store.lookup id = some old)
    (h : Rewritten c world store id old row) : Consistent c world (store.insert id row) := by
  have hkey : row.createIdempotencyKey = old.createIdempotencyKey :=
    congrArg ListOrigin.createIdempotencyKey h.origin
  have hsession : row.list.sessionId = old.list.sessionId := congrArg ListOrigin.sessionId h.origin
  refine consistent_insert hC row ?_ ?_ ?_ ?_
  · intro other found hother hfound hsame
    exact hother (hC.keys other id found old hfound hrow (hsame.trans hkey))
  · intro hactive other found hother hfound hfoundActive hfoundSession
    rcases h.name hactive with ⟨holdActive, hname⟩ | hfree
    · intro hsame
      rw [hname] at hsame
      exact hother (hC.names other id found old hfound hrow hfoundActive holdActive
        (hfoundSession.trans hsession) hsame)
    · exact nameTaken_false hfree hother hfound hfoundActive hfoundSession
  · rcases h.members with hmembers | ⟨hunique, hlength, -⟩
    · rw [hmembers]
      exact hC.members id old hrow
    · exact ⟨hunique, hlength⟩
  · obtain ⟨hthere, hknown⟩ := hC.referred id old hrow
    refine ⟨hsession ▸ hthere, ?_⟩
    rcases h.members with hmembers | ⟨-, -, hmembers⟩
    · rw [hmembers, hsession]
      exact hknown
    · exact hmembers

end Stores

section Moves

variable {f : Formats} {c : Config} {s u : State} {e : Event} {r : ℕ} {input : CreateInput}
  {id : ListId} {row : StoredList} {creation : Creation}

/-- What `prepare` has seen to. -/
structure Prepared (f : Formats) (input : CreateInput) : Prop where
  unique : input.list.groupIds.Nodup
  length : input.list.groupIds.length ≤ 1000
  hash : input.requestHash = requestHash f input.list

theorem prepare_ok {dto : CreateGroupListDto} {raw : Option String}
    (h : prepare f c dto raw = .ok input) : Prepared f input := by
  unfold prepare at h
  by_cases hsession : dto.sessionId ∈ c.aggregates.allowedSessionIds
  · by_cases hkey : (raw.map trim).getD "" = ""
    · simp [hsession, hkey, bind, Except.bind] at h
    · by_cases huuid : f.isUUID ((raw.map trim).getD "") = true
      · cases hgroups : validateGroupIds (orEmpty dto.groupIds) with
        | error error => simp [hsession, hkey, huuid, hgroups, bind, Except.bind] at h
        | ok _ =>
          obtain ⟨hlength, hunique⟩ := validateGroupIds_ok hgroups
          have hperm := sort_perm (orEmpty dto.groupIds)
          cases hname : normalizeName dto.name with
          | error error =>
            simp [hsession, hkey, huuid, hgroups, hname, bind, Except.bind] at h
          | ok name =>
            simp only [hsession, hkey, huuid, hgroups, hname, bind, Except.bind, pure, Except.pure,
              not_true_eq_false, if_false, Except.ok.injEq] at h
            subst h
            exact ⟨hperm.nodup_iff.mpr hunique, hperm.length_eq.trans_le hlength, rfl⟩
      · simp [hsession, hkey, huuid, bind, Except.bind] at h
  · simp [hsession, bind, Except.bind] at h

/-- The refusals between the query of the session and the INSERT. -/
def Refuses (c : Config) (s : State) (input : CreateInput) (id : ListId) (error : GroupListError) :
    Prop :=
  input.list.sessionId ∉ s.lists.world.sessions ∧ error = sessionNotFound ∨
    throwGroupValidation s.lists.world input.list.sessionId input.list.groupIds = .error error ∨
    nameTaken c s.lists.store id input.list.sessionId input.list.name = true ∧ error = nameConflict

/-- What one step does. -/
inductive Moves (f : Formats) (c : Config) (s : State) : Event → State → Prop where
  | lists (event : OptimisticRequests.Event domain) (lists : OptimisticRequests.State domain)
      (h : OptimisticRequests.step (service c) s.lists event = some lists)
      (hinsert : event.inserted = none)
      (hworld : ∀ world, event = .world world →
        ∀ id row, s.lists.store.lookup id = some row → Referred world row) :
      Moves f c s (.lists event) { s with lists := lists }
  | refused (r : ℕ) (dto : CreateGroupListDto) (raw : Option String) (error : GroupListError)
      (hn : s.creations r = none) :
      Moves f c s (.create r dto raw) (s.set r (.refused error))
  | prepared (r : ℕ) (dto : CreateGroupListDto) (raw : Option String) (input : CreateInput)
      (hn : s.creations r = none) (h : Prepared f input) :
      Moves f c s (.create r dto raw) (s.set r (.looking input))
  | found (e : Event) (r : ℕ) (input : CreateInput) (id : ListId) (row : StoredList)
      (hr : s.creations r = some (.looking input) ∨ s.creations r = some (.selecting input))
      (h : findByKey s.lists.store input.key = some (id, row)) :
      Moves f c s e (s.set r (.answered input (judge input id row)))
  | unseen (r : ℕ) (input : CreateInput) (hr : s.creations r = some (.looking input)) :
      Moves f c s (.look r) (s.set r (.inserting input))
  | lost (r : ℕ) (input : CreateInput) (hr : s.creations r = some (.selecting input))
      (h : findByKey s.lists.store input.key = none) :
      Moves f c s (.select r) (s.set r (.answered input (.failed rowMissing)))
  | failed (r : ℕ) (id : ListId) (input : CreateInput) (error : GroupListError)
      (hr : s.creations r = some (.inserting input)) (h : Refuses c s input id error) :
      Moves f c s (.insert r id) (s.set r (.answered input (.failed error)))
  | taken (r : ℕ) (id other : ListId) (input : CreateInput) (row : StoredList)
      (hr : s.creations r = some (.inserting input))
      (h : findByKey s.lists.store input.key = some (other, row)) :
      Moves f c s (.insert r id) (s.set r (.selecting input))
  | inserted (r : ℕ) (id : ListId) (input : CreateInput)
      (hr : s.creations r = some (.inserting input))
      (hsession : input.list.sessionId ∈ s.lists.world.sessions)
      (hgroups :
        throwGroupValidation s.lists.world input.list.sessionId input.list.groupIds = .ok ())
      (hkey : findByKey s.lists.store input.key = none)
      (hname : nameTaken c s.lists.store id input.list.sessionId input.list.name = false)
      (hid : s.lists.store.lookup id = none) :
      Moves f c s (.insert r id)
        { s.set r (.answered input (.returned id (newRow c s.lists.world.now input) true)) with
          lists := { s.lists with
            store := s.lists.store.insert id (newRow c s.lists.world.now input) } }

theorem moves_inserted (hr : s.creations r = some (.inserting input))
    (h : inserted c s r input id = some u) : Moves f c s (.insert r id) u := by
  unfold inserted at h
  split at h
  · rename_i hsession
    cases h
    exact .failed r id input _ hr (.inl ⟨hsession, rfl⟩)
  · rename_i hsession
    split at h
    · rename_i error hgroups
      cases h
      exact .failed r id input error hr (.inr (.inl hgroups))
    · rename_i hgroups
      split at h
      · rename_i found hkey
        cases h
        exact .taken r id found.1 input found.2 hr hkey
      · rename_i hkey
        split at h
        · rename_i hname
          cases h
          exact .failed r id input _ hr (.inr (.inr ⟨hname, rfl⟩))
        · rename_i hname
          split at h
          · cases h
          · rename_i hid
            cases h
            exact .inserted r id input hr (not_not.mp hsession) hgroups hkey
              (Bool.eq_false_iff.mpr hname) hid

theorem moves_of_step (h : step f c s e = some u) : Moves f c s e u := by
  cases e with
  | lists event =>
    cases event with
    | insert key row => cases h
    | world world =>
      obtain ⟨hworld, rfl⟩ := guarded_eq_some.mp h
      refine .lists (.world world) _ rfl rfl fun w hw id row hrow => ?_
      cases hw
      exact hworld ⟨id, row⟩ (AList.mem_lookup_iff.mp hrow)
    | start r call =>
      obtain ⟨lists, hlists, rfl⟩ := Option.map_eq_some_iff.mp h
      exact .lists _ lists hlists rfl (fun _ hw => by cases hw)
    | read r =>
      obtain ⟨lists, hlists, rfl⟩ := Option.map_eq_some_iff.mp h
      exact .lists _ lists hlists rfl (fun _ hw => by cases hw)
    | write r =>
      obtain ⟨lists, hlists, rfl⟩ := Option.map_eq_some_iff.mp h
      exact .lists _ lists hlists rfl (fun _ hw => by cases hw)
    | again r =>
      obtain ⟨lists, hlists, rfl⟩ := Option.map_eq_some_iff.mp h
      exact .lists _ lists hlists rfl (fun _ hw => by cases hw)
  | create r dto raw =>
    simp only [step] at h
    split at h
    · cases h
    · rename_i hn
      split at h
      · rename_i error hprepare
        cases h
        exact .refused r dto raw error hn
      · rename_i input hprepare
        cases h
        exact .prepared r dto raw input hn (prepare_ok hprepare)
  | look r =>
    simp only [step] at h
    split at h
    · rename_i input hr
      cases h
      unfold looked
      split
      · rename_i id row hfound
        exact .found _ r input id row (.inl hr) hfound
      · exact .unseen r input hr
    · cases h
  | insert r id =>
    simp only [step] at h
    split at h
    · rename_i input hr
      exact moves_inserted hr h
    · cases h
  | select r =>
    simp only [step] at h
    split at h
    · rename_i input hr
      cases h
      unfold selected
      split
      · rename_i id row hfound
        exact .found _ r input id row (.inr hr) hfound
      · rename_i hfound
        exact .lost r input hr hfound
    · cases h

end Moves

section Invariants

variable {f : Formats} {c : Config} {s u : State} {e : Event} {r : ℕ} {input : CreateInput}
  {id : ListId} {row : StoredList} {creation : Creation} {store store' : Store domain}

/-- What a creation knows of the lists where it stands. -/
def Knows (f : Formats) (store : Store domain) : Creation → Prop
  | .refused _ => True
  | .looking input | .inserting input => Prepared f input
  | .selecting input => ∃ id row, store.lookup id = some row ∧ row.createIdempotencyKey = input.key
  | .answered input (.returned id row _) =>
    row.createIdempotencyKey = input.key ∧ row.createRequestHash = input.requestHash ∧
      ∃ found, store.lookup id = some found ∧ found.origin = row.origin
  | .answered input (.failed error) =>
    (error = idempotencyConflict → ∃ id row, store.lookup id = some row ∧
      row.createIdempotencyKey = input.key ∧ row.createRequestHash ≠ input.requestHash) ∧
    (error = keyRetired → ∃ id row, store.lookup id = some row ∧
      row.createIdempotencyKey = input.key ∧ row.createRequestHash = input.requestHash ∧
      row.list.archivedAt.isSome) ∧
    error ≠ rowMissing

/-- Every list stays, of the same origin, and archived where it is. -/
def Progress (store store' : Store domain) : Prop :=
  ∀ id row, store.lookup id = some row → ∃ later, store'.lookup id = some later ∧
    later.origin = row.origin ∧ (row.list.archivedAt.isSome → later.list.archivedAt.isSome)

theorem progress_refl (store : Store domain) : Progress store store :=
  fun _ row hrow => ⟨row, hrow, rfl, fun h => h⟩

theorem progress_insert (hid : store.lookup id = none) : Progress store (store.insert id row) := by
  intro other found hfound
  have hne : other ≠ id := by
    rintro rfl
    rw [hid] at hfound
    cases hfound
  exact ⟨found, by rwa [AList.lookup_insert_ne hne], rfl, fun h => h⟩

theorem progress_rewritten {world : World} {old : StoredList} (hrow : store.lookup id = some old)
    (h : Rewritten c world store id old row) : Progress store (store.insert id row) := by
  intro other found hfound
  by_cases heq : other = id
  · subst heq
    rw [hrow] at hfound
    cases hfound
    refine ⟨row, by rw [AList.lookup_insert], h.origin, fun harchived => ?_⟩
    rcases h.settled with hactive | rfl
    · simp [hactive] at harchived
    · exact harchived
  · exact ⟨found, by rwa [AList.lookup_insert_ne heq], rfl, fun h => h⟩

theorem knows_later (hp : Progress store store') (h : Knows f store creation) :
    Knows f store' creation := by
  cases creation with
  | refused error => trivial
  | looking input => exact h
  | inserting input => exact h
  | selecting input =>
    obtain ⟨id, row, hrow, hkey⟩ := h
    obtain ⟨later, hlater, horigin, -⟩ := hp id row hrow
    exact ⟨id, later, hlater, (congrArg ListOrigin.createIdempotencyKey horigin).trans hkey⟩
  | answered input answer =>
    cases answer with
    | returned id row created =>
      obtain ⟨hkey, hhash, found, hfound, horigin⟩ := h
      obtain ⟨later, hlater, hsame, -⟩ := hp id found hfound
      exact ⟨hkey, hhash, later, hlater, hsame.trans horigin⟩
    | failed error =>
      obtain ⟨hconflict, hretired, hfound⟩ := h
      refine ⟨fun herror => ?_, fun herror => ?_, hfound⟩
      · obtain ⟨id, row, hrow, hkey, hhash⟩ := hconflict herror
        obtain ⟨later, hlater, horigin, -⟩ := hp id row hrow
        exact ⟨id, later, hlater, (congrArg ListOrigin.createIdempotencyKey horigin).trans hkey,
          (congrArg ListOrigin.createRequestHash horigin).trans_ne hhash⟩
      · obtain ⟨id, row, hrow, hkey, hhash, harchived⟩ := hretired herror
        obtain ⟨later, hlater, horigin, hstays⟩ := hp id row hrow
        exact ⟨id, later, hlater, (congrArg ListOrigin.createIdempotencyKey horigin).trans hkey,
          (congrArg ListOrigin.createRequestHash horigin).trans hhash, hstays harchived⟩

theorem knows_judged (hrow : store.lookup id = some row)
    (hkey : row.createIdempotencyKey = input.key) :
    Knows f store (.answered input (judge input id row)) := by
  unfold judge
  split
  · rename_i hhash
    refine ⟨fun _ => ⟨id, row, hrow, hkey, hhash⟩, fun herror => ?_, fun herror => ?_⟩
    · simp [idempotencyConflict, keyRetired] at herror
    · simp [idempotencyConflict, rowMissing] at herror
  · rename_i hhash
    have hhash := not_ne_iff.mp hhash
    split
    · rename_i harchived
      refine ⟨fun herror => ?_, fun _ => ⟨id, row, hrow, hkey, hhash, harchived⟩, fun herror => ?_⟩
      · simp [idempotencyConflict, keyRetired] at herror
      · simp [keyRetired, rowMissing] at herror
    · exact ⟨hkey, hhash, row, hrow, rfl⟩

theorem judge_creates_none (id : ListId) (row : StoredList) (other : CreateInput) (key : ListId)
    (found : StoredList) :
    Creation.answered input (judge input id row) ≠ .answered other (.returned key found true) := by
  unfold judge
  split
  · simp
  · split <;> simp

theorem knows_refused {error : GroupListError} (h : Refuses c s input id error) :
    Knows f store (.answered input (.failed error)) := by
  have hother : error ≠ idempotencyConflict ∧ error ≠ keyRetired ∧ error ≠ rowMissing := by
    rcases h with ⟨-, rfl⟩ | hgroups | ⟨-, rfl⟩
    · simp [sessionNotFound, idempotencyConflict, keyRetired, rowMissing]
    · unfold throwGroupValidation at hgroups
      split at hgroups
      · cases hgroups
        simp [groupSessionMismatch, idempotencyConflict, keyRetired, rowMissing]
      · split at hgroups
        · cases hgroups
          simp [groupNotFound, idempotencyConflict, keyRetired, rowMissing]
        · cases hgroups
    · simp [nameConflict, idempotencyConflict, keyRetired, rowMissing]
  exact ⟨fun herror => absurd herror hother.1, fun herror => absurd herror hother.2.1, hother.2.2⟩

/-- The creation has inserted the list. -/
def Creates (s : State) (r : ℕ) (id : ListId) (row : StoredList) : Prop :=
  ∃ input, s.creations r = some (.answered input (.returned id row true))

structure Inv (f : Formats) (c : Config) (s : State) : Prop where
  store : Consistent c s.lists.world s.lists.store
  knows : ∀ r creation, s.creations r = some creation → Knows f s.lists.store creation
  created : ∀ id row, s.lists.store.lookup id = some row → ∃ r first, Creates s r id first
  once : ∀ r r' id row row', Creates s r id row → Creates s r' id row' → r = r'

theorem inv_start (h : Start s) : Inv f c s := by
  have hnone : ∀ id row, s.lists.store.lookup id ≠ some row := fun id row hrow => by
    rw [h.store, AList.lookup_empty] at hrow
    cases hrow
  refine ⟨⟨?_, ?_, ?_, ?_⟩, fun r creation hr => ?_,
    fun id row hrow => absurd hrow (hnone id row), ?_⟩
  · exact fun id _ row _ hrow => absurd hrow (hnone id row)
  · exact fun id _ row _ hrow => absurd hrow (hnone id row)
  · exact fun id row hrow => absurd hrow (hnone id row)
  · exact fun id row hrow => absurd hrow (hnone id row)
  · rw [h.creations r] at hr
    cases hr
  · rintro r r' id row row' ⟨input, hr⟩
    rw [h.creations r] at hr
    cases hr

theorem set_creations {other : ℕ} : (s.set r creation).creations other =
    if other = r then some creation else s.creations other := by
  by_cases h : other = r <;> simp [State.set, h]

/-- A creation goes on that has not been answered. -/
theorem set_creates
    (hopen : ∀ input id row, s.creations r ≠ some (.answered input (.returned id row true)))
    (hnew : ∀ input id row, creation ≠ .answered input (.returned id row true)) (other : ℕ)
    (id : ListId) (row : StoredList) :
    Creates (s.set r creation) other id row ↔ Creates s other id row := by
  unfold Creates
  simp only [set_creations]
  by_cases heq : other = r
  · subst heq
    rw [if_pos rfl]
    constructor
    · rintro ⟨input, h⟩
      exact absurd (Option.some.inj h) (hnew input id row)
    · rintro ⟨input, h⟩
      exact absurd h (hopen input id row)
  · simp only [heq, if_false]

/-- The creation that inserts its list is answered with it. -/
theorem inserted_creates (hr : s.creations r = some (.inserting input)) (id : ListId)
    (row : StoredList) (lists : OptimisticRequests.State domain) (other : ℕ) (key : ListId)
    (found : StoredList) :
    Creates { s.set r (.answered input (.returned id row true)) with lists := lists }
        other key found ↔
      (other = r ∧ key = id ∧ found = row) ∨ Creates s other key found := by
  unfold Creates
  simp only [set_creations]
  by_cases heq : other = r
  · subst heq
    rw [if_pos rfl, hr]
    constructor
    · rintro ⟨_, h⟩
      cases h
      exact .inl ⟨rfl, rfl, rfl⟩
    · rintro (⟨-, rfl, rfl⟩ | ⟨_, h⟩)
      · exact ⟨_, rfl⟩
      · cases h
  · simp [heq]

/-- A creation that was not answered goes on, and creates nothing. -/
theorem inv_set (hI : Inv f c s)
    (hopen : ∀ input id row, s.creations r ≠ some (.answered input (.returned id row true)))
    (hk : Knows f s.lists.store creation)
    (hnew : ∀ input id row, creation ≠ .answered input (.returned id row true)) :
    Inv f c (s.set r creation) := by
  have hcreates := set_creates hopen hnew
  refine ⟨hI.store, fun other k hother => ?_, fun id row hrow => ?_,
    fun a b id row row' ha hb => ?_⟩
  · rw [set_creations] at hother
    split at hother
    · cases hother
      exact hk
    · exact hI.knows other k hother
  · obtain ⟨other, first, hother⟩ := hI.created id row hrow
    exact ⟨other, first, (hcreates other id first).mpr hother⟩
  · exact hI.once a b id row row' ((hcreates a id row).mp ha) ((hcreates b id row').mp hb)

theorem consistent_world {world world' : World} (hC : Consistent c world store)
    (h : ∀ id row, store.lookup id = some row → Referred world' row) : Consistent c world' store :=
  ⟨hC.keys, hC.names, hC.members, h⟩

/-- The requests that change lists insert none and keep what holds of them. -/
theorem lists_move {t t' : OptimisticRequests.State domain}
    {event : OptimisticRequests.Event domain}
    (hO : OptimisticRequests.Inv (service c) t) (hC : Consistent c t.world t.store)
    (h : OptimisticRequests.Moves (service c) t event t') (hinsert : event.inserted = none)
    (hworld : ∀ world, event = .world world →
      ∀ id row, t.store.lookup id = some row → Referred world row) :
    Consistent c t'.world t'.store ∧ Progress t.store t'.store ∧
      ∀ id row, t'.store.lookup id = some row → ∃ old, t.store.lookup id = some old := by
  have hstays : ∀ id row, t.store.lookup id = some row → ∃ old, t.store.lookup id = some old :=
    fun id row hrow => ⟨row, hrow⟩
  cases h with
  | world world => exact ⟨consistent_world hC (hworld world rfl), progress_refl _, hstays⟩
  | insert key row hn => cases hinsert
  | write r call current plan hr u hw =>
    cases hw with
    | written row old answer hw hs hv ho hn =>
      obtain ⟨hplan, -⟩ := hO r call _ hr
      obtain ⟨-, -, -, hplanned⟩ := plan_ok hplan
      have hrewritten := write_rewritten hplanned hs hw
      refine ⟨consistent_rewritten hC hs hrewritten, progress_rewritten hs hrewritten,
        fun id found hfound => ?_⟩
      have hfound : (t.store.insert call.id row).lookup id = some found := hfound
      by_cases heq : id = call.id
      · exact ⟨old, heq ▸ hs⟩
      · exact ⟨found, by rwa [AList.lookup_insert_ne heq] at hfound⟩
    | refused answer hw => exact ⟨hC, progress_refl _, hstays⟩
    | missed hw => exact ⟨hC, progress_refl _, hstays⟩
  | _ => exact ⟨hC, progress_refl _, hstays⟩

/-- What is inserted has a key and a name that no other list has. -/
theorem consistent_inserted (hC : Consistent c s.lists.world s.lists.store)
    (hprepared : Prepared f input) (hsession : input.list.sessionId ∈ s.lists.world.sessions)
    (hgroups : throwGroupValidation s.lists.world input.list.sessionId input.list.groupIds = .ok ())
    (hkey : findByKey s.lists.store input.key = none)
    (hname : nameTaken c s.lists.store id input.list.sessionId input.list.name = false) :
    Consistent c s.lists.world (s.lists.store.insert id (newRow c s.lists.world.now input)) := by
  have hperm := c.aggregates.collate_perm input.list.groupIds
  refine consistent_insert hC _ (fun other found _ hfound => findByKey_none hkey hfound) ?_ ?_ ?_
  · intro _ other found hother hfound hactive hsame
    exact nameTaken_false hname hother hfound hactive hsame
  · exact ⟨hperm.nodup_iff.mpr hprepared.unique, hperm.length_eq.trans_le hprepared.length⟩
  · exact ⟨hsession, fun groupId hmem => throwGroupValidation_ok hgroups (hperm.subset hmem)⟩

theorem inv_inserted (hI : Inv f c s) (hr : s.creations r = some (.inserting input))
    (hsession : input.list.sessionId ∈ s.lists.world.sessions)
    (hgroups : throwGroupValidation s.lists.world input.list.sessionId input.list.groupIds = .ok ())
    (hkey : findByKey s.lists.store input.key = none)
    (hname : nameTaken c s.lists.store id input.list.sessionId input.list.name = false)
    (hid : s.lists.store.lookup id = none) :
    Inv f c { s.set r (.answered input (.returned id (newRow c s.lists.world.now input) true)) with
      lists := { s.lists with
        store := s.lists.store.insert id (newRow c s.lists.world.now input) } } := by
  have hprogress : Progress s.lists.store
      (s.lists.store.insert id (newRow c s.lists.world.now input)) := progress_insert hid
  have hcreates := inserted_creates hr id (newRow c s.lists.world.now input)
    { s.lists with store := s.lists.store.insert id (newRow c s.lists.world.now input) }
  refine ⟨consistent_inserted hI.store (hI.knows r _ hr) hsession hgroups hkey hname,
    fun other k hother => ?_, fun key found hfound => ?_, fun a b key rowA rowB ha hb => ?_⟩
  · simp only [set_creations] at hother
    split at hother
    · cases hother
      exact ⟨rfl, rfl, _, AList.lookup_insert _, rfl⟩
    · exact knows_later hprogress (hI.knows other k hother)
  · by_cases heq : key = id
    · exact ⟨r, _, (hcreates r key _).mpr (.inl ⟨rfl, heq, rfl⟩)⟩
    · simp only [AList.lookup_insert_ne heq] at hfound
      obtain ⟨other, first, hother⟩ := hI.created key found hfound
      exact ⟨other, first, (hcreates other key first).mpr (.inr hother)⟩
  · -- a list that was created is in the store, and the new one was not
    have hnew : ∀ other row, ¬ Creates s other id row := by
      rintro other row ⟨_, h⟩
      obtain ⟨-, -, found, hfound, -⟩ := hI.knows other _ h
      rw [hid] at hfound
      cases hfound
    rcases (hcreates a key rowA).mp ha with ⟨hrA, hkeyA, -⟩ | hbefore <;>
      rcases (hcreates b key rowB).mp hb with ⟨hrB, hkeyB, -⟩ | hbefore'
    · exact hrA.trans hrB.symm
    · exact absurd (hkeyA ▸ hbefore') (hnew b rowB)
    · exact absurd (hkeyB ▸ hbefore) (hnew a rowA)
    · exact hI.once a b key rowA rowB hbefore hbefore'

theorem inv_move (hO : OptimisticRequests.Inv (service c) s.lists) (hI : Inv f c s)
    (h : Moves f c s e u) : Inv f c u := by
  cases h with
  | lists event lists h hinsert hworld =>
    obtain ⟨hconsistent, hprogress, hstays⟩ := lists_move hO hI.store
      (OptimisticRequests.moves_of_step (service_lawful c) h) hinsert hworld
    refine ⟨hconsistent, fun r k hr => knows_later hprogress (hI.knows r k hr),
      fun id row hrow => ?_, hI.once⟩
    obtain ⟨old, hold⟩ := hstays id row hrow
    exact hI.created id old hold
  | refused r dto raw error hn =>
    exact inv_set hI (by simp [hn]) trivial (fun _ _ _ h => by cases h)
  | prepared r dto raw input hn hprepared =>
    exact inv_set hI (by simp [hn]) hprepared (fun _ _ _ h => by cases h)
  | found e r input id row hr hfound =>
    obtain ⟨hrow, hkey⟩ := findByKey_some hfound
    exact inv_set hI (by rcases hr with hr | hr <;> simp [hr]) (knows_judged hrow hkey)
      (judge_creates_none id row)
  | unseen r input hr =>
    have hprepared : Prepared f input := hI.knows r _ hr
    exact inv_set hI (by simp [hr]) hprepared (fun _ _ _ h => by cases h)
  | lost r input hr hnone =>
    -- the list of a key that was taken is still there
    obtain ⟨id, row, hrow, hkey⟩ := hI.knows r _ hr
    exact absurd hkey (findByKey_none hnone hrow)
  | failed r id input error hr herror =>
    exact inv_set hI (by simp [hr]) (knows_refused herror) (fun _ _ _ h => by cases h)
  | taken r id other input row hr hfound =>
    obtain ⟨hrow, hkey⟩ := findByKey_some hfound
    exact inv_set hI (by simp [hr]) ⟨other, row, hrow, hkey⟩ (fun _ _ _ h => by cases h)
  | inserted r id input hr hsession hgroups hkey hname hid =>
    exact inv_inserted hI hr hsession hgroups hkey hname hid

end Invariants

section Runs

variable {f : Formats} {c : Config} {s s₀ u : State} {e : Event} {es : List Event}

/-- What a step does to the lists: that of the requests that change them, with the insertion of the
creation that is answered with its list, if one is. -/
inductive Traced (c : Config) (s u : State) : Prop where
  | kept (fs : List (OptimisticRequests.Event domain))
      (h : Execution (OptimisticRequests.system (service c)) s.lists fs u.lists)
      (hfs : fs.filterMap Event.inserted = [])
      (hcreates : ∀ r id row, Creates u r id row ↔ Creates s r id row)
  | inserted (r : ℕ) (id : ListId) (row : StoredList)
      (h : Execution (OptimisticRequests.system (service c)) s.lists [.insert id row] u.lists)
      (hcreates : ∀ other key found, Creates u other key found ↔
        (other = r ∧ key = id ∧ found = row) ∨ Creates s other key found)

theorem traced_of_move (h : Moves f c s e u) : Traced c s u := by
  cases h with
  | lists event lists h hinsert hworld =>
    refine .kept [event] (ofStep_execution h) ?_ fun _ _ _ => Iff.rfl
    simp [hinsert]
  | refused r dto raw error hn =>
    exact .kept [] .refl rfl (set_creates (by simp [hn]) (fun _ _ _ h => by cases h))
  | prepared r dto raw input hn hprepared =>
    exact .kept [] .refl rfl (set_creates (by simp [hn]) (fun _ _ _ h => by cases h))
  | found e r input id row hr hfound =>
    exact .kept [] .refl rfl
      (set_creates (by rcases hr with hr | hr <;> simp [hr]) (judge_creates_none id row))
  | unseen r input hr =>
    exact .kept [] .refl rfl (set_creates (by simp [hr]) (fun _ _ _ h => by cases h))
  | lost r input hr hnone =>
    exact .kept [] .refl rfl (set_creates (by simp [hr]) (fun _ _ _ h => by cases h))
  | failed r id input error hr herror =>
    exact .kept [] .refl rfl (set_creates (by simp [hr]) (fun _ _ _ h => by cases h))
  | taken r id other input row hr hfound =>
    exact .kept [] .refl rfl (set_creates (by simp [hr]) (fun _ _ _ h => by cases h))
  | inserted r id input hr hsession hgroups hkey hname hid =>
    refine .inserted r id _ (ofStep_execution ?_) (inserted_creates hr id _ _)
    simp [OptimisticRequests.step, hid]

theorem projects_to_lists (f : Formats) (c : Config) :
    Projects (system f c) (OptimisticRequests.system (service c)) State.lists := by
  refine projects_ofStep (fun s h => h.requests) fun s e u hstep => ?_
  cases traced_of_move (moves_of_step hstep) with
  | kept gs hgs hnone hcreates => exact ⟨gs, hgs⟩
  | inserted r id row hx hcreates => exact ⟨_, hx⟩

theorem reachable_inv (h : Reachable (system f c) s) : Inv f c s := by
  refine reachable_invariant_with (I := Inv f c)
    (J := fun s => OptimisticRequests.Inv (service c) s.lists)
    (fun s h => ?_) (fun s h => inv_start h)
    (fun s e hO hI he => inv_move hO hI (moves_of_step (ofStep_enabled he))) h
  exact OptimisticRequests.reachable_inv (service_lawful c) ((projects_to_lists f c).reachable h)

/-- A run of the whole is a run of the requests that change lists, in which just the lists are
inserted that creations are answered with. -/
theorem run_of_lists (h₀ : Start s₀) (h : Execution (system f c) s₀ es s) :
    ∃ fs, Execution (OptimisticRequests.system (service c)) s₀.lists fs s.lists ∧
      ∀ id row, (id, row) ∈ fs.filterMap OptimisticRequests.Event.inserted ↔
        ∃ r, Creates s r id row := by
  induction h with
  | refl =>
    refine ⟨[], .refl, fun id row => ⟨(fun h => by cases h), ?_⟩⟩
    rintro ⟨r, input, h⟩
    rw [h₀.creations r] at h
    cases h
  | @step es t e hrun he ih =>
    obtain ⟨fs, hfs, hinserted⟩ := ih
    have htraced : Traced c t ((system f c).next t e) :=
      traced_of_move (moves_of_step (ofStep_enabled he))
    cases htraced with
    | kept gs hgs hnone hcreates =>
      refine ⟨fs ++ gs, hfs.trans hgs, fun id row => ?_⟩
      simp only [List.filterMap_append, hnone, List.append_nil, hinserted, hcreates]
    | inserted r id row hx hcreates =>
      refine ⟨fs ++ [.insert id row], hfs.trans hx, fun key found => ?_⟩
      simp only [List.filterMap_append, List.mem_append, hinserted, hcreates]
      constructor
      · rintro (⟨other, hother⟩ | hmem)
        · exact ⟨other, .inr hother⟩
        · obtain ⟨rfl, rfl⟩ : key = id ∧ found = row := by
            simpa [OptimisticRequests.Event.inserted] using hmem
          exact ⟨r, .inl ⟨rfl, rfl, rfl⟩⟩
      · rintro ⟨other, ⟨-, rfl, rfl⟩ | hother⟩
        · exact .inr (by simp [OptimisticRequests.Event.inserted])
        · exact .inl ⟨other, hother⟩

/-- Every list has one creation; the creations of one key are answered with one list, and otherwise
with what keeps them from it. -/
structure Sound (c : Config) (s : State) : Prop where
  store : Consistent c s.lists.world s.lists.store
  creator : ∀ id row, s.lists.store.lookup id = some row → ∃! r, ∃ first, Creates s r id first
  replayed : ∀ r r' input input' id id' row row' created created', input.key = input'.key →
    s.creations r = some (.answered input (.returned id row created)) →
    s.creations r' = some (.answered input' (.returned id' row' created')) →
    id = id' ∧ input.requestHash = input'.requestHash
  conflict : ∀ r input, s.creations r = some (.answered input (.failed idempotencyConflict)) →
    ∃ id row, s.lists.store.lookup id = some row ∧ row.createIdempotencyKey = input.key ∧
      row.createRequestHash ≠ input.requestHash
  retired : ∀ r input, s.creations r = some (.answered input (.failed keyRetired)) →
    ∃ id row, s.lists.store.lookup id = some row ∧ row.createIdempotencyKey = input.key ∧
      row.createRequestHash = input.requestHash ∧ row.list.archivedAt.isSome
  found : ∀ r input, s.creations r ≠ some (.answered input (.failed rowMissing))

theorem returned_row (hI : Inv f c s) {r : ℕ} {input : CreateInput} {id : ListId} {row : StoredList}
    {created : Bool} (hr : s.creations r = some (.answered input (.returned id row created))) :
    ∃ found, s.lists.store.lookup id = some found ∧ found.createIdempotencyKey = input.key ∧
      found.createRequestHash = input.requestHash := by
  obtain ⟨hkey, hhash, found, hfound, horigin⟩ := hI.knows r _ hr
  exact ⟨found, hfound, (congrArg ListOrigin.createIdempotencyKey horigin).trans hkey,
    (congrArg ListOrigin.createRequestHash horigin).trans hhash⟩

theorem lists_sound (h : Reachable (system f c) s) : Sound c s := by
  have hI := reachable_inv h
  refine ⟨hI.store, fun id row hrow => ?_, ?_, fun r input hr => (hI.knows r _ hr).1 rfl,
    fun r input hr => (hI.knows r _ hr).2.1 rfl, fun r input hr => (hI.knows r _ hr).2.2 rfl⟩
  · obtain ⟨r, first, hcreates⟩ := hI.created id row hrow
    refine ⟨r, ⟨first, hcreates⟩, fun other hother => ?_⟩
    obtain ⟨first', hcreates'⟩ := hother
    exact hI.once other r id first' first hcreates' hcreates
  · intro r r' input input' id id' row row' created created' hkey hr hr'
    obtain ⟨found, hfound, hfoundKey, hhash⟩ := returned_row hI hr
    obtain ⟨found', hfound', hfoundKey', hhash'⟩ := returned_row hI hr'
    obtain rfl : id = id' := hI.store.keys id id' found found' hfound hfound'
      (hfoundKey.trans (hkey.trans hfoundKey'.symm))
    rw [hfound] at hfound'
    cases hfound'
    exact ⟨rfl, hhash.symm.trans hhash'⟩

/-- The lists are what creations and requests make of them one after the other. -/
theorem lists_serialized (h₀ : Start s₀) (h : Execution (system f c) s₀ es s) :
    ∃ fs ops, Execution (OptimisticRequests.system (service c)) s₀.lists fs s.lists ∧
      EditsSerialized c s₀.lists fs s.lists ops ∧
      ∀ id row, Op.insert id row ∈ ops ↔ ∃ r, Creates s r id row := by
  obtain ⟨fs, hfs, hinserted⟩ := run_of_lists h₀ h
  obtain ⟨ops, hops⟩ := edits_serialized h₀.requests hfs
  refine ⟨fs, ops, hfs, hops, fun id row => ?_⟩
  rw [← hinserted, ← hops.inserts]
  simp only [List.mem_filterMap]
  constructor
  · exact fun hmem => ⟨_, hmem, rfl⟩
  · rintro ⟨op, hmem, hop⟩
    cases op with
    | insert key found =>
      cases hop
      exact hmem
    | call r world call answer => cases hop

section Examples

def exampleConfig : Config where
  aggregates := CampaignAggregates.exampleConfig
  lower := String.toLower

def noLists : State where
  lists := ⟨⟨["session"], [("session", "1@g.us")], 5⟩, ∅, fun _ => none⟩
  creations _ := none

theorem noLists_start : Start noLists := ⟨rfl, fun _ => rfl, fun _ => rfl⟩

def customers : CreateGroupListDto := ⟨"session", " Customers ", .undefined, .value ["1@g.us"]⟩

/-- A creation and its repetition at once, then a list that is archived while it is renamed, and the
key once more. -/
def createAndArchive : List Event :=
  [.create 1 customers (some "a"), .create 2 customers (some "A "), .look 1, .look 2,
    .insert 1 "list", .insert 2 "other", .select 2] ++
  [.start 1 (.update "list" ⟨.undefined, .value "Clients", .undefined⟩),
    .start 2 (.archive "list" (some 1)), .read 1, .read 2, .write 2, .write 1, .again 1].map
      Event.lists ++
  [.create 3 customers (some "a"), .look 3]

def heard (s : State) (r : ℕ) : Option Answer :=
  match s.lists.requests r with
  | some (_, .answered answer) => some answer
  | _ => none

def createdList (s : State) (r : ℕ) : Option (ListId × Bool) :=
  match s.creations r with
  | some (.answered _ (.returned id _ created)) => some (id, created)
  | _ => none

theorem example_valid :
    ValidTrace (system CreationReplay.plainFormats exampleConfig) noLists createAndArchive := by
  decide +kernel

theorem example_sound :
    ∃ s, Sound exampleConfig s ∧ createdList s 1 = some ("list", true) ∧
      createdList s 2 = some ("list", false) :=
  ⟨_, lists_sound ⟨_, valid_trace_run noLists_start example_valid⟩, by decide +kernel,
    by decide +kernel⟩

theorem example_serialized :
    ∃ s fs ops, EditsSerialized exampleConfig noLists.lists fs s.lists ops ∧
      (∀ id row, Op.insert id row ∈ ops ↔ ∃ r, Creates s r id row) ∧
      heard s 1 = some (.failed archivedError) ∧ heard s 2 = some .archived := by
  obtain ⟨fs, ops, -, hserialized, hinserts⟩ :=
    lists_serialized noLists_start (valid_trace_execution example_valid)
  exact ⟨_, fs, ops, hserialized, hinserts, by decide +kernel, by decide +kernel⟩

end Examples

end Runs

end GroupListCreation
