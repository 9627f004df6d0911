import WaRuntime.ContactMerges
import WaRuntime.ContactSnapshots
import WaRuntime.TransitionRuns

/-! The push names that message senders and the pages of snapshots give to the contacts of one
session.
Every writer takes the advisory lock of the session, so that each transaction is one step. A page is
taken apart into its statements: the push names are one step, and new identifiers, staged evidence,
names from other sources, members and the lease are there as the merges depend on them; what a page
displays is left out. `observed` records every observation that has been made; no step reads it. -/
namespace PushNames

open CanonicalOrders ContactNormalization ContactEvidence ContactProjection ContactMerges
open TransitionRuns

/-- Where a push name comes from. -/
inductive Origin where
  | messageSender
  | snapshotPage
  deriving DecidableEq, Repr

/-- A push name of an identity, once it is normalized. -/
structure Observation where
  key : IdentityKey
  value : String
  observedAt : ℕ
  observationKey : String
  origin : Origin
  deriving DecidableEq, Repr

def Observation.stamp (o : Observation) : ℕ × String := (o.observedAt, o.observationKey)

section Writer

variable (c : Config) (texts : Texts) (now : ℕ)

/-- INSERT of a contact, ON CONFLICT DO NOTHING. -/
def insertContact (id : ContactId) (t : ContactTables) : ContactTables :=
  if t.contacts.any (·.id = id) then t
  else { t with contacts := t.contacts ++ [⟨id, none, none, now, now, now, now⟩] }

/-- An identifier is observed: with a new contact, if it is missing. -/
def observeIdentifier (key : IdentityKey) (candidate : ContactId) (t : ContactTables) :
    ContactTables :=
  if t.identifiers.any (·.key = key) then
    { t with
      identifiers := t.identifiers.map fun i =>
        if i.key = key then { i with lastObservedAt := now, updatedAt := now } else i }
  else
    let created := insertContact now candidate t
    { created with identifiers := created.identifiers ++ [⟨key, candidate, now, now⟩] }

/-- `name_write`, on a contact. -/
def writePushName (o : Observation) (id : ContactId) (names : List ContactName) :
    Option (List ContactName) :=
  match names.find? (·.key = (id, ObservationSource.openwaPushName)) with
  | none =>
    some (names ++ [⟨id, .openwaPushName, o.value, now, now, o.observedAt, o.observationKey, now⟩])
  | some old =>
    if StampLe c.collation o.stamp old.stamp then none
    else some (names.map fun n =>
      if n.key = old.key then
        { n with
          nameValue := o.value
          sourceObservedAt := o.observedAt
          sourceObservationKey := o.observationKey
          lastObservedAt := now
          updatedAt := now }
      else n)

/-- `contact_write` and `member_write`. -/
def showPushName (o : Observation) (id : ContactId) (t : ContactTables) : ContactTables :=
  let effective := contactNameProjection (storedName t.names id .openwaContactName) (some o.value)
  let named := { t with
    contacts := t.contacts.map fun contact =>
      if contact.id = id then
        { contact with
          effectiveDisplayName := effective.1
          displayNameSource := effective.2
          lastObservedAt := now
          updatedAt := now }
      else contact }
  if c.legacyMemberFanoutEnabled then
    { named with
      members := named.members.map fun m =>
        let projection := memberNameProjection effective.1 effective.2 m.participantDisplayName
        if m.contactId = some id ∧ (m.displayName, m.displayNameSource) ≠ projection then
          { m with
            displayName := projection.1
            displayNameSource := projection.2
            displayNameUpdatedAt := projection.1.map fun _ => now
            updatedAt := now }
        else m }
  else named

/-- The observation that a call makes, if it makes one. -/
def senderObservation (rawIdentity : String) (rawPushName : Option String) (observedAt : ℕ)
    (observationKey : String) : Option Observation :=
  let identity := normalizeContactIdentity rawIdentity
  if identity.type = .lid ∨ identity.type = .phoneJid then
    (normalizeContactName texts rawPushName identity).map fun pushName =>
      ⟨(identity.type, identity.value), pushName, observedAt, observationKey, .messageSender⟩
  else none

/-- `observeMessageSender`, from its transaction on, with what it returns. -/
def observe (o : Observation) (candidate : ContactId) (t : ContactTables) : ContactTables × Bool :=
  let observed := observeIdentifier now o.key candidate t
  match observed.identifiers.find? (·.key = o.key) with
  | none => (observed, false)
  | some i =>
    match writePushName c now o i.contactId observed.names with
    | none => (observed, false)
    | some names => (showPushName c now o i.contactId { observed with names }, true)

/-- The push name that a page brings for an identity, if it brings one. -/
def pageObservation (generation : ℕ) (contact : OpenWAContact) : Option Observation :=
  let identity := normalizeContactIdentity contact.id
  (normalizeContactName texts contact.pushName identity).map fun pushName =>
    ⟨(identity.type, identity.value), pushName, now,
      "snapshot:" ++ toString generation ++ ":push:" ++
        texts.md5 (ContactSnapshots.typeText identity.type ++ ":" ++ identity.value),
      .snapshotPage⟩

/-- `matched`, for one contact. -/
def matchedNames (page : List Observation) (t : ContactTables) (id : ContactId) :
    List Observation :=
  page.filter fun o => t.identifiers.any fun i => i.key = o.key ∧ i.contactId = id

/-- DISTINCT ON (contact_id), ORDER BY `identity_value`. -/
def pageNames (page : List Observation) (t : ContactTables) : List (ContactId × Observation) :=
  (t.contacts.map Contact.id).filterMap fun id =>
    (c.collation.firstBy (fun o : Observation => o.key.2) (matchedNames page t id)).map (id, ·)

/-- INSERT … ON CONFLICT DO UPDATE of the push name of one contact. -/
def storePushName (names : List ContactName) (row : ContactId × Observation) : List ContactName :=
  (writePushName c now row.2 row.1 names).getD names

/-- The push names of `ingestObservedPage`, with the observations that it makes. -/
def ingestPushNames (generation leaseToken : ℕ) (contacts : List OpenWAContact)
    (t : ContactTables) : Option (ContactTables × List Observation) :=
  (renewLease now generation leaseToken t).map fun owned =>
    let rows := pageNames c (contacts.filterMap (pageObservation texts now generation)) owned
    ({ owned with names := rows.foldl (storePushName c now) owned.names }, rows.map Prod.snd)

end Writer

structure State where
  tables : ContactTables
  observed : List Observation

def initial : State := ⟨⟨[], [], [], [], [], none⟩, []⟩

inductive Event where
  | observeMessageSender (now : ℕ) (rawIdentity : String) (rawPushName : Option String)
      (observedAt : ℕ) (observationKey : String) (candidate : ContactId)
  | ingestPushNames (now generation leaseToken : ℕ) (contacts : List OpenWAContact)
  | reconcile (now generation leaseToken : ℕ)
  | insertIdentifier (now : ℕ) (key : IdentityKey) (candidate : ContactId)
  | insertPhone (now : ℕ) (phone : String) (contactId : ContactId)
  | stageEvidence (row : IdentityEvidence)
  | storeName (row : ContactName)
  | storeMember (row : Member)
  | setSyncState (row : SyncState)
  deriving Repr

def step (c : Config) (texts : Texts) (s : State) : Event → Option State
  | .observeMessageSender now rawIdentity rawPushName observedAt observationKey candidate =>
    match senderObservation texts rawIdentity rawPushName observedAt observationKey with
    | none => some s
    | some o => some ⟨(observe c now o candidate s.tables).1, s.observed ++ [o]⟩
  | .ingestPushNames now generation leaseToken contacts =>
    (ingestPushNames c texts now generation leaseToken contacts s.tables).map fun r =>
      ⟨r.1, s.observed ++ r.2⟩
  | .reconcile now generation leaseToken =>
    (reconcileObservedIdentities c now generation leaseToken s.tables).map fun r =>
      { s with tables := r.1 }
  | .insertIdentifier now key candidate =>
    some { s with tables := observeIdentifier now key candidate s.tables }
  | .insertPhone now phone contactId =>
    guarded (s.tables.contacts.any (·.id = contactId))
      { s with tables := observeIdentifier now (.phone, phone) contactId s.tables }
  | .stageEvidence row =>
    some { s with
      tables := { s.tables with
        evidence := row :: s.tables.evidence.filter fun e =>
          ¬ (e.syncGeneration = row.syncGeneration ∧ e.key = row.key) } }
  | .storeName row =>
    guarded (row.nameSource ≠ .openwaPushName ∧ s.tables.contacts.any (·.id = row.contactId))
      { s with
        tables := { s.tables with
          names := row :: s.tables.names.filter fun n => n.key ≠ row.key } }
  | .storeMember row =>
    guarded (∀ id ∈ row.contactId, s.tables.contacts.any (·.id = id))
      { s with
        tables := { s.tables with
          members := row :: s.tables.members.filter fun m =>
            ¬ (m.groupId = row.groupId ∧ m.participantId = row.participantId) } }
  | .setSyncState row => some { s with tables := { s.tables with syncState := some row } }

def system (c : Config) (texts : Texts) : System State Event := ofStep (· = initial) (step c texts)

theorem system_step {c : Config} {texts : Texts} {s : State} {e : Event}
    (he : (system c texts).enabled s e) : step c texts s e = some ((system c texts).next s e) :=
  ofStep_enabled he

/-- The observations that have been made for the identifiers which a contact holds. -/
def ObservedFor (s : State) (id : ContactId) (o : Observation) : Prop :=
  o ∈ s.observed ∧ ∃ i ∈ s.tables.identifiers, i.key = o.key ∧ i.contactId = id

/-- The push name of a contact is the value of the newest of the observations that count, and a
contact without such observations has none. -/
structure PushNameNewest (c : Config) (counts : Origin → Prop) (s : State) (id : ContactId) :
    Prop where
  newest : ∀ name, storedName s.tables.names id .openwaPushName = some name →
    ∃ o, ObservedFor s id o ∧ counts o.origin ∧ o.value = name ∧
      ∀ o', ObservedFor s id o' → counts o'.origin → StampLe c.collation o'.stamp o.stamp
  none : storedName s.tables.names id .openwaPushName = none →
    ∀ o, ObservedFor s id o → ¬ counts o.origin

section Names

variable {c : Config} {now : ℕ} {names names' : List ContactName} {new : ContactName}
  {k : ContactId × ObservationSource} {stamp : ℕ × String} {value : String} {id : ContactId}
  {o : Observation}

/-- A write of one name: the row of this key has the stamp and the value, and the others stay. -/
structure Stores (names names' : List ContactName) (k : ContactId × ObservationSource)
    (stamp : ℕ × String) (value : String) : Prop where
  nodup : (names'.map ContactName.key).Nodup
  mem : ∀ n ∈ names', (n ∈ names ∧ n.key ≠ k) ∨
    (n.key = k ∧ n.stamp = stamp ∧ n.nameValue = value)
  stored : ∃ n ∈ names', n.key = k
  others : ∀ n ∈ names, n.key ≠ k → n ∈ names'

theorem replace_stores {f : ContactName → ContactName} (hn : (names.map ContactName.key).Nodup)
    (hf : ∀ n ∈ names, n.key = k →
      (f n).key = k ∧ (f n).stamp = stamp ∧ (f n).nameValue = value)
    (hold : ∃ n ∈ names, n.key = k) :
    Stores names (names.map fun n => if n.key = k then f n else n) k stamp value := by
  constructor
  · have hkeys : (names.map fun n => if n.key = k then f n else n).map ContactName.key =
        names.map ContactName.key := by
      rw [List.map_map]
      refine List.map_congr_left fun n hmem => ?_
      by_cases hk : n.key = k
      · simp [hk, (hf n hmem hk).1]
      · simp [hk]
    rwa [hkeys]
  · intro n hmem
    obtain ⟨old, hold, rfl⟩ := List.mem_map.mp hmem
    by_cases hk : old.key = k
    · rw [if_pos hk]
      exact .inr (hf old hold hk)
    · rw [if_neg hk]
      exact .inl ⟨hold, hk⟩
  · obtain ⟨n, hmem, hk⟩ := hold
    refine ⟨f n, List.mem_map.mpr ⟨n, hmem, if_pos hk⟩, (hf n hmem hk).1⟩
  · intro n hmem hk
    exact List.mem_map.mpr ⟨n, hmem, if_neg hk⟩

theorem append_stores (hn : (names.map ContactName.key).Nodup) (new : ContactName)
    (hfree : ∀ n ∈ names, n.key ≠ new.key) :
    Stores names (names ++ [new]) new.key new.stamp new.nameValue := by
  constructor
  · rw [List.map_append, List.map_singleton]
    refine List.Nodup.append hn (List.nodup_singleton _) ?_
    intro k hk hnew
    obtain ⟨n, hmem, rfl⟩ := List.mem_map.mp hk
    exact hfree n hmem (List.mem_singleton.mp hnew)
  · intro n hmem
    rcases List.mem_append.mp hmem with hmem | hmem
    · exact .inl ⟨hmem, hfree n hmem⟩
    · rw [List.mem_singleton.mp hmem]
      exact .inr ⟨rfl, rfl, rfl⟩
  · exact ⟨new, List.mem_append_right _ List.mem_cons_self, rfl⟩
  · exact fun n hmem _ => List.mem_append_left _ hmem

/-- The upsert of a merge takes a row that is not older than the stored one. -/
theorem upsert_stores (c : Config) (now : ℕ) (hn : (names.map ContactName.key).Nodup)
    (hle : ∀ old ∈ names, old.key = new.key → StampLe c.collation old.stamp new.stamp) :
    Stores names (upsertName c.collation now names new) new.key new.stamp new.nameValue := by
  unfold upsertName
  split
  · rename_i hany
    refine replace_stores hn (fun n hmem hk => ?_) (by simpa using hany)
    unfold replaceName
    rw [if_pos (hle n hmem hk)]
    exact ⟨hk, rfl, rfl⟩
  · rename_i hany
    have hfree : ∀ n ∈ names, n.key ≠ new.key := by simpa using hany
    exact append_stores hn { new with updatedAt := now } hfree

theorem writePushName_none (h : writePushName c now o id names = none) :
    ∃ old ∈ names, old.key = (id, .openwaPushName) ∧ StampLe c.collation o.stamp old.stamp := by
  unfold writePushName at h
  split at h
  · cases h
  · rename_i old hfind
    split at h
    · rename_i hle
      exact ⟨old, List.mem_of_find?_eq_some hfind, by simpa using List.find?_some hfind, hle⟩
    · cases h

/-- An observation is stored where it is newer than what is stored. -/
theorem writePushName_some (hn : (names.map ContactName.key).Nodup)
    (h : writePushName c now o id names = some names') :
    Stores names names' (id, .openwaPushName) o.stamp o.value ∧
      ∀ old ∈ names, old.key = (id, .openwaPushName) → ¬ StampLe c.collation o.stamp old.stamp := by
  unfold writePushName at h
  split at h
  · rename_i hfind
    cases h
    have hfree : ∀ n ∈ names, n.key ≠ (id, .openwaPushName) := by
      intro n hmem
      simpa using List.find?_eq_none.mp hfind n hmem
    exact ⟨append_stores hn ⟨id, .openwaPushName, o.value, now, now, o.observedAt,
      o.observationKey, now⟩ hfree, fun old hold hk => absurd hk (hfree old hold)⟩
  · rename_i old hfind
    have hkey : old.key = (id, .openwaPushName) := by simpa using List.find?_some hfind
    have hmem := List.mem_of_find?_eq_some hfind
    split at h
    · cases h
    · rename_i hlt
      cases h
      rw [hkey]
      refine ⟨replace_stores hn (fun n _ hk => ⟨hk, rfl, rfl⟩) ⟨old, hmem, hkey⟩, ?_⟩
      intro other hother hk
      rwa [List.inj_on_of_nodup_map hn hother hmem (hk.trans hkey.symm)]

/-- The rows of one upsert have different keys, so each is stored as it is. -/
structure StoresAll (names names' rows : List ContactName) : Prop where
  nodup : (names'.map ContactName.key).Nodup
  mem : ∀ n ∈ names', (n ∈ names ∧ ∀ row ∈ rows, n.key ≠ row.key) ∨
    ∃ row ∈ rows, n.key = row.key ∧ n.stamp = row.stamp ∧ n.nameValue = row.nameValue
  stored : ∀ row ∈ rows, ∃ n ∈ names', n.key = row.key
  others : ∀ n ∈ names, (∀ row ∈ rows, n.key ≠ row.key) → n ∈ names'

theorem upserts_store {rows : List ContactName} (hn : (names.map ContactName.key).Nodup)
    (hrows : (rows.map ContactName.key).Nodup)
    (hle : ∀ row ∈ rows, ∀ old ∈ names, old.key = row.key →
      StampLe c.collation old.stamp row.stamp) :
    StoresAll names (rows.foldl (upsertName c.collation now) names) rows := by
  induction rows generalizing names with
  | nil => exact ⟨hn, fun n hmem => .inl ⟨hmem, by simp⟩, by simp, fun n hmem _ => hmem⟩
  | cons row rows ih =>
    rw [List.map_cons, List.nodup_cons] at hrows
    have hdiffers : ∀ r ∈ rows, r.key ≠ row.key := fun r hr heq =>
      hrows.1 (heq ▸ List.mem_map_of_mem hr)
    have hfirst := upsert_stores c now hn (hle row List.mem_cons_self)
    have hrest := ih hfirst.nodup hrows.2 (fun r hr old hold hk => by
      rcases hfirst.mem old hold with ⟨hmem, _⟩ | ⟨hrow, _⟩
      · exact hle r (List.mem_cons_of_mem row hr) old hmem hk
      · exact absurd (hk.symm.trans hrow) (hdiffers r hr))
    rw [List.foldl_cons]
    constructor
    · exact hrest.nodup
    · intro n hmem
      rcases hrest.mem n hmem with ⟨hmem, hother⟩ | ⟨r, hr, hsame⟩
      · rcases hfirst.mem n hmem with ⟨hmem, hk⟩ | hsame
        · exact .inl ⟨hmem, List.forall_mem_cons.mpr ⟨hk, hother⟩⟩
        · exact .inr ⟨row, List.mem_cons_self, hsame⟩
      · exact .inr ⟨r, List.mem_cons_of_mem row hr, hsame⟩
    · intro r hr
      rcases List.mem_cons.mp hr with rfl | hr
      · obtain ⟨n, hmem, hk⟩ := hfirst.stored
        refine ⟨n, hrest.others n hmem fun r' hr' heq => ?_, hk⟩
        exact hdiffers r' hr' (heq.symm.trans hk)
      · exact hrest.stored r hr
    · intro n hmem hall
      obtain ⟨hrow, hall⟩ := List.forall_mem_cons.mp hall
      exact hrest.others n (hfirst.others n hmem hrow) hall

end Names

section Ranked

variable {collation : TotalOrder String} {plan : List Mapping} {names : List ContactName}
  {row n : ContactName} {winner : ContactId}

theorem rank_stamp {a b : ContactName}
    (h : (rankOrder collation).le (rankKey a) (rankKey b)) : StampLe collation b.stamp a.stamp :=
  h.1

theorem mem_rankedNames : row ∈ rankedNames collation plan names ↔ ∃ winner ∈ winners plan,
    ∃ source n, (rankOrder collation).firstBy rankKey (candidateNames plan names winner source) =
      some n ∧ row = { n with contactId := winner } := by
  simp only [rankedNames, List.mem_flatMap, List.mem_filterMap, Option.map_eq_some_iff]
  constructor
  · rintro ⟨winner, hwinner, source, _, n, hn, rfl⟩
    exact ⟨winner, hwinner, source, n, hn, rfl⟩
  · rintro ⟨winner, hwinner, source, n, hn, rfl⟩
    exact ⟨winner, hwinner, source, by cases source <;> simp, n, hn, rfl⟩

theorem mem_candidateNames {source : ObservationSource} :
    n ∈ candidateNames plan names winner source ↔
      n ∈ names ∧ n.nameSource = source ∧ Joins plan winner n.contactId := by
  simp [candidateNames]

/-- A ranked row is the newest of what the winner and its losers have. -/
structure Ranks (collation : TotalOrder String) (plan : List Mapping) (names : List ContactName)
    (row n : ContactName) : Prop where
  winner : row.contactId ∈ winners plan
  mem : n ∈ names
  joins : Joins plan row.contactId n.contactId
  source : n.nameSource = row.nameSource
  stamp : n.stamp = row.stamp
  value : n.nameValue = row.nameValue
  newest : ∀ n' ∈ names, n'.nameSource = row.nameSource → Joins plan row.contactId n'.contactId →
    StampLe collation n'.stamp row.stamp

theorem ranked_newest (h : row ∈ rankedNames collation plan names) :
    ∃ n, Ranks collation plan names row n := by
  obtain ⟨winner, hwinner, source, n, hn, rfl⟩ := mem_rankedNames.mp h
  obtain ⟨hmem, hsource, hjoins⟩ := mem_candidateNames.mp
    ((rankOrder collation).firstBy_mem hn)
  refine ⟨n, hwinner, hmem, hjoins, rfl, rfl, rfl, fun n' hn' hsource' hjoins' => ?_⟩
  have hcandidate : n' ∈ candidateNames plan names winner source :=
    mem_candidateNames.mpr ⟨hn', hsource'.trans hsource, hjoins'⟩
  have hle : StampLe collation n'.stamp n.stamp :=
    rank_stamp ((rankOrder collation).firstBy_le hn hcandidate)
  exact hle

theorem ranked_exists (collation : TotalOrder String) (hwinner : winner ∈ winners plan)
    (hn : n ∈ names) (hjoins : Joins plan winner n.contactId) :
    ∃ row ∈ rankedNames collation plan names, row.key = (winner, n.nameSource) := by
  have hcandidate : n ∈ candidateNames plan names winner n.nameSource :=
    mem_candidateNames.mpr ⟨hn, rfl, hjoins⟩
  cases hfirst : (rankOrder collation).firstBy rankKey
      (candidateNames plan names winner n.nameSource) with
  | none =>
    rw [(rankOrder collation).firstBy_eq_none.mp hfirst] at hcandidate
    cases hcandidate
  | some m =>
    refine ⟨_, mem_rankedNames.mpr ⟨winner, hwinner, _, m, hfirst, rfl⟩, ?_⟩
    have hm := (mem_candidateNames.mp ((rankOrder collation).firstBy_mem hfirst)).2.1
    exact Prod.ext rfl hm

theorem keys_sublist {g : ObservationSource → Option ContactName} {sources : List ObservationSource}
    (hg : ∀ source row, g source = some row → row.key = (winner, source)) :
    ((sources.filterMap g).map ContactName.key).Sublist (sources.map fun s => (winner, s)) := by
  induction sources with
  | nil => exact List.Sublist.slnil
  | cons source sources ih =>
    cases hrow : g source with
    | none =>
      rw [List.filterMap_cons_none hrow]
      exact ih.cons _
    | some row =>
      rw [List.filterMap_cons_some hrow, List.map_cons, List.map_cons, hg source row hrow]
      exact ih.cons_cons _

theorem ranked_nodup : ((rankedNames collation plan names).map ContactName.key).Nodup := by
  unfold rankedNames
  rw [List.map_flatMap, List.nodup_flatMap]
  have hkey : ∀ w source row, ((rankOrder collation).firstBy rankKey
      (candidateNames plan names w source)).map (fun n => { n with contactId := w }) = some row →
      row.key = (w, source) := by
    intro w source row hrow
    obtain ⟨n, hn, rfl⟩ := Option.map_eq_some_iff.mp hrow
    have hsource := (mem_candidateNames.mp ((rankOrder collation).firstBy_mem hn)).2.1
    exact Prod.ext rfl hsource
  constructor
  · intro w _
    refine (keys_sublist (hkey w)).nodup (List.Nodup.map (fun a b h => congrArg Prod.snd h) ?_)
    decide
  · refine (List.nodup_dedup _).imp fun {w w'} hne => ?_
    intro k hk hk'
    obtain ⟨s, _, rfl⟩ := List.mem_map.mp ((keys_sublist (hkey w)).subset hk)
    obtain ⟨s', _, heq⟩ := List.mem_map.mp ((keys_sublist (hkey w')).subset hk')
    exact hne (congrArg Prod.fst heq).symm

end Ranked

/-- The rows of the push names and the observations agree. -/
structure Agrees (c : Config) (t : ContactTables) (observed : List Observation) : Prop where
  identified : ∀ o ∈ observed, ∃ i ∈ t.identifiers, i.key = o.key
  held : ∀ n ∈ t.names, n.nameSource = .openwaPushName →
    ∃ o, ObservedFor ⟨t, observed⟩ n.contactId o ∧ o.value = n.nameValue ∧ o.stamp = n.stamp
  newest : ∀ n ∈ t.names, n.nameSource = .openwaPushName → ∀ o,
    ObservedFor ⟨t, observed⟩ n.contactId o → StampLe c.collation o.stamp n.stamp
  stored : ∀ id o, ObservedFor ⟨t, observed⟩ id o →
    ∃ n ∈ t.names, n.key = (id, .openwaPushName)

section Writes

variable {c : Config} {texts : Texts} {now : ℕ} {t u : ContactTables}
  {observed : List Observation} {key : IdentityKey} {candidate id : ContactId} {o : Observation}

theorem insertContact_mem (t : ContactTables) :
    (∀ contact ∈ t.contacts, contact ∈ (insertContact now id t).contacts) ∧
      ∃ contact ∈ (insertContact now id t).contacts, contact.id = id := by
  unfold insertContact
  split
  · rename_i hany
    exact ⟨fun _ h => h, by simpa using hany⟩
  · exact ⟨fun _ h => List.mem_append_left _ h,
      ⟨_, List.mem_append_right _ List.mem_cons_self, rfl⟩⟩

theorem insertContact_nodup (h : (t.contacts.map Contact.id).Nodup) :
    ((insertContact now id t).contacts.map Contact.id).Nodup := by
  unfold insertContact
  split
  · exact h
  · rename_i hany
    rw [List.map_append, List.map_singleton]
    refine List.Nodup.append h (List.nodup_singleton _) ?_
    intro k hk hnew
    obtain ⟨contact, hc, rfl⟩ := List.mem_map.mp hk
    exact hany (List.any_eq_true.mpr ⟨contact, hc, by simpa using hnew⟩)

theorem insertContact_rest (now : ℕ) (id : ContactId) (t : ContactTables) :
    (insertContact now id t).identifiers = t.identifiers ∧
      (insertContact now id t).names = t.names ∧ (insertContact now id t).members = t.members := by
  unfold insertContact
  split <;> exact ⟨rfl, rfl, rfl⟩

/-- What an observed identifier changes: it is there, and nothing else moves. -/
structure Identifies (t u : ContactTables) (key : IdentityKey) (candidate : ContactId) : Prop where
  names : u.names = t.names
  members : u.members = t.members
  contacts : ∀ contact ∈ t.contacts, contact ∈ u.contacts
  held : ∀ k id, (∃ i ∈ u.identifiers, i.key = k ∧ i.contactId = id) ↔
    (∃ i ∈ t.identifiers, i.key = k ∧ i.contactId = id) ∨
      (k = key ∧ id = candidate ∧ ∀ i ∈ t.identifiers, i.key ≠ key)
  present : ∃ i ∈ u.identifiers, i.key = key

theorem observeIdentifier_identifies (now : ℕ) (t : ContactTables) (key : IdentityKey)
    (candidate : ContactId) :
    Identifies t (observeIdentifier now key candidate t) key candidate := by
  unfold observeIdentifier
  split
  · rename_i hany
    obtain ⟨old, hold, hkey⟩ : ∃ i ∈ t.identifiers, i.key = key := by simpa using hany
    have hsame : ∀ i : Identifier, (if i.key = key then
        { i with lastObservedAt := now, updatedAt := now } else i).key = i.key ∧
        (if i.key = key then { i with lastObservedAt := now, updatedAt := now } else i).contactId =
          i.contactId := by
      intro i
      split <;> exact ⟨rfl, rfl⟩
    refine ⟨rfl, rfl, fun _ h => h, fun k id => ?_, _, List.mem_map_of_mem hold,
      (hsame old).1.trans hkey⟩
    constructor
    · rintro ⟨i, hi, hk, hid⟩
      obtain ⟨j, hj, rfl⟩ := List.mem_map.mp hi
      exact .inl ⟨j, hj, (hsame j).1.symm.trans hk, (hsame j).2.symm.trans hid⟩
    · rintro (⟨i, hi, hk, hid⟩ | ⟨_, _, hnone⟩)
      · exact ⟨_, List.mem_map_of_mem hi, (hsame i).1.trans hk, (hsame i).2.trans hid⟩
      · exact absurd hkey (hnone old hold)
  · rename_i hany
    have hnone : ∀ i ∈ t.identifiers, i.key ≠ key := by simpa using hany
    obtain ⟨hidentifiers, hnames, hmembers⟩ := insertContact_rest now candidate t
    refine ⟨hnames, hmembers, (insertContact_mem t).1, fun k id => ?_, _,
      List.mem_append_right _ List.mem_cons_self, rfl⟩
    simp only [hidentifiers, List.mem_append, List.mem_singleton]
    constructor
    · rintro ⟨i, hi | rfl, hk, hid⟩
      · exact .inl ⟨i, hi, hk, hid⟩
      · exact .inr ⟨hk.symm, hid.symm, hnone⟩
    · rintro (⟨i, hi, hk, hid⟩ | ⟨rfl, rfl, _⟩)
      · exact ⟨i, .inl hi, hk, hid⟩
      · exact ⟨_, .inr rfl, rfl, rfl⟩

theorem observeIdentifier_wellFormed (hwf : WellFormed t) :
    WellFormed (observeIdentifier now key candidate t) := by
  have hI := observeIdentifier_identifies now t key candidate
  have hkept : ∀ id, (∃ contact ∈ t.contacts, contact.id = id) →
      ∃ contact ∈ (observeIdentifier now key candidate t).contacts, contact.id = id := by
    rintro id ⟨contact, hc, rfl⟩
    exact ⟨contact, hI.contacts contact hc, rfl⟩
  have hnames : ∀ n ∈ (observeIdentifier now key candidate t).names,
      ∃ contact ∈ (observeIdentifier now key candidate t).contacts, contact.id = n.contactId := by
    intro n hn
    rw [hI.names] at hn
    exact hkept _ (hwf.named n hn)
  have hmembers : ∀ m ∈ (observeIdentifier now key candidate t).members, ∀ id ∈ m.contactId,
      ∃ contact ∈ (observeIdentifier now key candidate t).contacts, contact.id = id := by
    intro m hm id hid
    rw [hI.members] at hm
    exact hkept _ (hwf.joined m hm id hid)
  have hnodup : ((observeIdentifier now key candidate t).names.map ContactName.key).Nodup := by
    rw [hI.names]
    exact hwf.names
  refine ⟨?_, ?_, hnodup, ?_, hnames, hmembers⟩
  · unfold observeIdentifier
    split
    · exact hwf.contacts
    · exact insertContact_nodup hwf.contacts
  · unfold observeIdentifier
    split
    · have hkeys : (t.identifiers.map fun i => if i.key = key then
          { i with lastObservedAt := now, updatedAt := now } else i).map Identifier.key =
          t.identifiers.map Identifier.key := by
        rw [List.map_map]
        refine List.map_congr_left fun i _ => ?_
        by_cases hk : i.key = key
        · simp [hk]
        · simp [hk]
      rw [hkeys]
      exact hwf.identifiers
    · rename_i hany
      have hsame := (insertContact_rest now candidate t).1
      simp only [hsame, List.map_append, List.map_singleton]
      refine List.Nodup.append hwf.identifiers (List.nodup_singleton _) ?_
      intro k hk hnew
      obtain ⟨i, hi, rfl⟩ := List.mem_map.mp hk
      exact hany (List.any_eq_true.mpr ⟨i, hi, by simpa using hnew⟩)
  · intro i hi
    have hheld := (hI.held i.key i.contactId).mp ⟨i, hi, rfl, rfl⟩
    rcases hheld with ⟨j, hj, _, hid⟩ | ⟨_, hid, hnone⟩
    · rw [← hid]
      exact hkept _ (hwf.identified j hj)
    · rw [hid]
      unfold observeIdentifier
      have hany : t.identifiers.any (·.key = key) = false := by simpa using hnone
      rw [hany]
      exact (insertContact_mem t).2

/-- An identifier that has not been observed by a sender brings no observations along. -/
theorem observedFor_identifies (hI : Identifies t u key candidate)
    (hid : ∀ o ∈ observed, ∃ i ∈ t.identifiers, i.key = o.key) :
    ObservedFor ⟨u, observed⟩ id o ↔ ObservedFor ⟨t, observed⟩ id o := by
  refine and_congr_right fun ho => ?_
  change (∃ i ∈ u.identifiers, i.key = o.key ∧ i.contactId = id) ↔ _
  rw [hI.held]
  constructor
  · rintro (h | ⟨hk, _, hnone⟩)
    · exact h
    · obtain ⟨i, hi, hik⟩ := hid o ho
      exact absurd (hik.trans hk) (hnone i hi)
  · exact .inl

theorem identifies_agrees (hI : Identifies t u key candidate) (h : Agrees c t observed) :
    Agrees c u observed := by
  have hfor : ∀ id o, ObservedFor ⟨u, observed⟩ id o ↔ ObservedFor ⟨t, observed⟩ id o :=
    fun id o => observedFor_identifies hI h.identified
  constructor
  · intro o ho
    obtain ⟨i, hi, hk⟩ := h.identified o ho
    obtain ⟨j, hj, hjk, _⟩ := (hI.held o.key i.contactId).mpr (.inl ⟨i, hi, hk, rfl⟩)
    exact ⟨j, hj, hjk⟩
  · intro n hn hs
    rw [hI.names] at hn
    obtain ⟨o, ho, hsame⟩ := h.held n hn hs
    exact ⟨o, (hfor _ o).mpr ho, hsame⟩
  · intro n hn hs o ho
    rw [hI.names] at hn
    exact h.newest n hn hs o ((hfor _ o).mp ho)
  · intro id o ho
    rw [hI.names]
    exact h.stored id o ((hfor id o).mp ho)

theorem showPushName_tables (c : Config) (now : ℕ) (o : Observation) (id : ContactId)
    (t : ContactTables) : (showPushName c now o id t).identifiers = t.identifiers ∧
      (showPushName c now o id t).names = t.names ∧
      (showPushName c now o id t).contacts.map Contact.id = t.contacts.map Contact.id ∧
      (showPushName c now o id t).members.map Member.contactId =
        t.members.map Member.contactId := by
  have hcontacts : ∀ f : Contact → Contact, (∀ contact, (f contact).id = contact.id) →
      (t.contacts.map f).map Contact.id = t.contacts.map Contact.id := by
    intro f hf
    rw [List.map_map]
    exact List.map_congr_left fun contact _ => hf contact
  have hmembers : ∀ f : Member → Member, (∀ m, (f m).contactId = m.contactId) →
      (t.members.map f).map Member.contactId = t.members.map Member.contactId := by
    intro f hf
    rw [List.map_map]
    exact List.map_congr_left fun m _ => hf m
  unfold showPushName
  split
  · refine ⟨rfl, rfl, hcontacts _ fun contact => ?_, hmembers _ fun m => ?_⟩
    · split <;> rfl
    · dsimp only
      split <;> rfl
  · refine ⟨rfl, rfl, hcontacts _ fun contact => ?_, rfl⟩
    split <;> rfl

/-- The keys of a table of contacts, identifiers and members that were there stay well formed when
only the names change. -/
theorem wellFormed_names {v : ContactTables} (hwf : WellFormed t)
    (hcontacts : v.contacts.map Contact.id = t.contacts.map Contact.id)
    (hidentifiers : v.identifiers = t.identifiers)
    (hmembers : v.members.map Member.contactId = t.members.map Member.contactId)
    (hnodup : (v.names.map ContactName.key).Nodup)
    (hnamed : ∀ n ∈ v.names, ∃ contact ∈ t.contacts, contact.id = n.contactId) :
    WellFormed v := by
  have hkept : ∀ id, (∃ contact ∈ t.contacts, contact.id = id) →
      ∃ contact ∈ v.contacts, contact.id = id := by
    rintro id ⟨contact, hc, rfl⟩
    have hid : contact.id ∈ v.contacts.map Contact.id := hcontacts ▸ List.mem_map_of_mem hc
    exact List.mem_map.mp hid
  refine ⟨hcontacts ▸ hwf.contacts, hidentifiers ▸ hwf.identifiers, hnodup, fun i hi => ?_,
    fun n hn => hkept _ (hnamed n hn), fun m hm id hid => ?_⟩
  · exact hkept _ (hwf.identified i (hidentifiers ▸ hi))
  · have hcontact : m.contactId ∈ t.members.map Member.contactId :=
      hmembers ▸ List.mem_map_of_mem hm
    obtain ⟨old, hold, heq⟩ := List.mem_map.mp hcontact
    exact hkept _ (hwf.joined old hold id (heq ▸ hid))

/-- One more observation, for the contact that holds its identifier. -/
theorem observedFor_append {i : Identifier} (hwf : WellFormed t) (hi : i ∈ t.identifiers)
    (hk : i.key = o.key) {o' : Observation} :
    ObservedFor ⟨t, observed ++ [o]⟩ id o' ↔
      ObservedFor ⟨t, observed⟩ id o' ∨ (o' = o ∧ id = i.contactId) := by
  simp only [ObservedFor, List.mem_append, List.mem_singleton]
  constructor
  · rintro ⟨hmem | rfl, hheld⟩
    · exact .inl ⟨hmem, hheld⟩
    · obtain ⟨j, hj, hjk, rfl⟩ := hheld
      have hsame : j = i :=
        List.inj_on_of_nodup_map hwf.identifiers hj hi (hjk.trans hk.symm)
      exact .inr ⟨rfl, by rw [hsame]⟩
  · rintro (⟨hmem, hheld⟩ | ⟨rfl, rfl⟩)
    · exact ⟨.inl hmem, hheld⟩
    · exact ⟨.inr rfl, i, hi, hk, rfl⟩

theorem name_key {n : ContactName} (hs : n.nameSource = .openwaPushName) :
    n.key = (n.contactId, .openwaPushName) :=
  Prod.ext rfl hs

theorem stamp_trans {x y z : ℕ × String} (hxy : StampLe c.collation x y)
    (hyz : StampLe c.collation y z) : StampLe c.collation x z :=
  (observationOrder c.collation).trans _ _ _ hxy hyz

/-- An observation that is older than what is stored changes nothing. -/
theorem older_agrees {i : Identifier} {old : ContactName} (hwf : WellFormed t)
    (h : Agrees c t observed) (hi : i ∈ t.identifiers) (hk : i.key = o.key) (hold : old ∈ t.names)
    (hkey : old.key = (i.contactId, .openwaPushName))
    (hle : StampLe c.collation o.stamp old.stamp) : Agrees c t (observed ++ [o]) := by
  constructor
  · intro o' ho'
    rcases List.mem_append.mp ho' with ho' | ho'
    · exact h.identified o' ho'
    · rw [List.mem_singleton.mp ho']
      exact ⟨i, hi, hk⟩
  · intro n hn hs
    obtain ⟨o', ho', hsame⟩ := h.held n hn hs
    exact ⟨o', (observedFor_append hwf hi hk).mpr (.inl ho'), hsame⟩
  · intro n hn hs o' ho'
    rcases (observedFor_append hwf hi hk).mp ho' with ho' | ⟨rfl, hid⟩
    · exact h.newest n hn hs o' ho'
    · have hsame : n = old := by
        refine List.inj_on_of_nodup_map hwf.names hn hold ?_
        rw [name_key hs, hkey, hid]
      rwa [hsame]
  · intro id o' ho'
    rcases (observedFor_append hwf hi hk).mp ho' with ho' | ⟨rfl, rfl⟩
    · exact h.stored id o' ho'
    · exact ⟨old, hold, hkey⟩

/-- An observation that is newer than what is stored is the newest. -/
theorem newer_agrees {v : ContactTables} {i : Identifier} (hwf : WellFormed t)
    (h : Agrees c t observed) (hi : i ∈ t.identifiers) (hk : i.key = o.key)
    (hidentifiers : v.identifiers = t.identifiers)
    (hstores : Stores t.names v.names (i.contactId, .openwaPushName) o.stamp o.value)
    (hnewer : ∀ old ∈ t.names, old.key = (i.contactId, .openwaPushName) →
      ¬ StampLe c.collation o.stamp old.stamp) : Agrees c v (observed ++ [o]) := by
  have hfor : ∀ id o', ObservedFor ⟨v, observed ++ [o]⟩ id o' ↔
      ObservedFor ⟨t, observed⟩ id o' ∨ (o' = o ∧ id = i.contactId) := by
    intro id o'
    rw [← observedFor_append hwf hi hk]
    simp only [ObservedFor, hidentifiers]
  have hkeyed : ∀ n : ContactName, n.nameSource = .openwaPushName →
      n.key ≠ (i.contactId, .openwaPushName) → n.contactId ≠ i.contactId := by
    intro n hs hne hid
    exact hne (by rw [name_key hs, hid])
  constructor
  · intro o' ho'
    rw [hidentifiers]
    rcases List.mem_append.mp ho' with ho' | ho'
    · exact h.identified o' ho'
    · rw [List.mem_singleton.mp ho']
      exact ⟨i, hi, hk⟩
  · intro n hn hs
    rcases hstores.mem n hn with ⟨hmem, _⟩ | ⟨hkey, hstamp, hvalue⟩
    · obtain ⟨o', ho', hsame⟩ := h.held n hmem hs
      exact ⟨o', (hfor _ o').mpr (.inl ho'), hsame⟩
    · exact ⟨o, (hfor _ o).mpr (.inr ⟨rfl, congrArg Prod.fst hkey⟩), hvalue.symm, hstamp.symm⟩
  · intro n hn hs o' ho'
    rcases hstores.mem n hn with ⟨hmem, hne⟩ | ⟨hkey, hstamp, _⟩
    · rcases (hfor _ o').mp ho' with ho' | ⟨_, hid⟩
      · exact h.newest n hmem hs o' ho'
      · exact absurd hid (hkeyed n hs hne)
    · rw [hstamp]
      rcases (hfor _ o').mp ho' with ho' | ⟨rfl, _⟩
      · obtain ⟨old, hold, holdkey⟩ := h.stored _ o' ho'
        have hid : n.contactId = i.contactId := congrArg Prod.fst hkey
        have hsource : old.nameSource = .openwaPushName := congrArg Prod.snd holdkey
        have hcontact : old.contactId = n.contactId := congrArg Prod.fst holdkey
        have hbefore := h.newest old hold hsource o' (hcontact ▸ ho')
        have hafter := hnewer old hold (by rw [holdkey, hid])
        exact stamp_trans hbefore
          (((observationOrder c.collation).total _ _).resolve_right hafter)
      · exact (observationOrder c.collation).le_self _
  · intro id o' ho'
    rcases (hfor id o').mp ho' with ho' | ⟨_, rfl⟩
    · obtain ⟨n, hn, hkey⟩ := h.stored id o' ho'
      by_cases hid : id = i.contactId
      · subst hid
        exact hstores.stored
      · refine ⟨n, hstores.others n hn ?_, hkey⟩
        rw [hkey]
        exact fun heq => hid (congrArg Prod.fst heq)
    · exact hstores.stored

theorem agrees_names {v : ContactTables} (hidentifiers : v.identifiers = t.identifiers)
    (hnames : v.names = t.names) (h : Agrees c t observed) : Agrees c v observed := by
  have hfor : ∀ id o, ObservedFor ⟨v, observed⟩ id o ↔ ObservedFor ⟨t, observed⟩ id o := by
    intro id o
    simp only [ObservedFor, hidentifiers]
  refine ⟨fun o ho => ?_, fun n hn hs => ?_, fun n hn hs o ho => ?_, fun id o ho => ?_⟩
  · rw [hidentifiers]
    exact h.identified o ho
  · rw [hnames] at hn
    obtain ⟨o, ho, hsame⟩ := h.held n hn hs
    exact ⟨o, (hfor _ o).mpr ho, hsame⟩
  · rw [hnames] at hn
    exact h.newest n hn hs o ((hfor _ o).mp ho)
  · rw [hnames]
    exact h.stored id o ((hfor id o).mp ho)

/-- A push name is observed for the contact that holds its identifier, and stored if it is newer
than what is there. -/
theorem stored_agrees (now : ℕ) (hwf : WellFormed t) (h : Agrees c t observed)
    (hheld : ∃ i ∈ t.identifiers, i.key = o.key ∧ i.contactId = id) :
    WellFormed { t with names := storePushName c now t.names (id, o) } ∧
      Agrees c { t with names := storePushName c now t.names (id, o) } (observed ++ [o]) := by
  obtain ⟨i, hi, hk, rfl⟩ := hheld
  unfold storePushName
  cases hwrite : writePushName c now o i.contactId t.names with
  | none =>
    obtain ⟨old, hold, hkey, hle⟩ := writePushName_none hwrite
    exact ⟨hwf, older_agrees hwf h hi hk hold hkey hle⟩
  | some names =>
    obtain ⟨hstores, hnewer⟩ := writePushName_some hwf.names hwrite
    refine ⟨wellFormed_names hwf rfl rfl rfl hstores.nodup fun n hn => ?_,
      newer_agrees hwf h hi hk rfl hstores hnewer⟩
    rcases hstores.mem n hn with ⟨hmem, _⟩ | ⟨hkey, _, _⟩
    · exact hwf.named n hmem
    · rw [show n.contactId = i.contactId from congrArg Prod.fst hkey]
      exact hwf.identified i hi

theorem observe_agrees (hwf : WellFormed t) (h : Agrees c t observed) :
    WellFormed (observe c now o candidate t).1 ∧
      Agrees c (observe c now o candidate t).1 (observed ++ [o]) := by
  have hI := observeIdentifier_identifies now t o.key candidate
  have hwf' : WellFormed (observeIdentifier now o.key candidate t) :=
    observeIdentifier_wellFormed hwf
  have h' := identifies_agrees hI h
  unfold observe
  dsimp only
  split
  · rename_i hfind
    obtain ⟨i, hi, hk⟩ := hI.present
    simpa [hk] using List.find?_eq_none.mp hfind i hi
  · rename_i i hfind
    have hi := List.mem_of_find?_eq_some hfind
    have hk : i.key = o.key := by simpa using List.find?_some hfind
    obtain ⟨hstored, hagrees⟩ := stored_agrees now hwf' h' ⟨i, hi, hk, rfl⟩
    unfold storePushName at hstored hagrees
    split
    · rename_i hnone
      rw [hnone] at hstored hagrees
      exact ⟨hstored, hagrees⟩
    · rename_i names hsome
      rw [hsome] at hstored hagrees
      obtain ⟨hidentifiers, hnames, hcontacts, hmembers⟩ := showPushName_tables c now o i.contactId
        { observeIdentifier now o.key candidate t with names }
      refine ⟨wellFormed_names hstored hcontacts hidentifiers hmembers ?_ fun n hn => ?_,
        agrees_names hidentifiers hnames hagrees⟩
      · rw [hnames]
        exact hstored.names
      · rw [hnames] at hn
        exact hstored.named n hn

/-- The contact of a name that a page stores holds the identifier of the name. -/
theorem pageNames_held {page : List Observation} {row : ContactId × Observation}
    (h : row ∈ pageNames c page t) :
    row.2 ∈ page ∧ ∃ i ∈ t.identifiers, i.key = row.2.key ∧ i.contactId = row.1 := by
  simp only [pageNames, List.mem_filterMap, Option.map_eq_some_iff] at h
  obtain ⟨id, _, o, hfirst, rfl⟩ := h
  have hmem := c.collation.firstBy_mem hfirst
  simpa [matchedNames] using hmem

theorem rows_agree {rows : List (ContactId × Observation)} (hwf : WellFormed t)
    (h : Agrees c t observed)
    (hheld : ∀ row ∈ rows, ∃ i ∈ t.identifiers, i.key = row.2.key ∧ i.contactId = row.1) :
    WellFormed { t with names := rows.foldl (storePushName c now) t.names } ∧
      Agrees c { t with names := rows.foldl (storePushName c now) t.names }
        (observed ++ rows.map Prod.snd) := by
  induction rows generalizing t observed with
  | nil => simpa using And.intro hwf h
  | cons row rows ih =>
    obtain ⟨hfirst, hrest⟩ := List.forall_mem_cons.mp hheld
    obtain ⟨hwf', h'⟩ := stored_agrees now hwf h hfirst
    have hall := ih hwf' h' hrest
    rwa [List.append_assoc, List.singleton_append] at hall

theorem renewLease_state {generation leaseToken : ℕ}
    (h : renewLease now generation leaseToken t = some u) :
    ∃ row, u = { t with syncState := row } := by
  obtain ⟨row, _, h⟩ := Option.bind_eq_some_iff.mp h
  split at h
  · cases h
    exact ⟨_, rfl⟩
  · cases h

theorem state_agrees (hwf : WellFormed t) (h : Agrees c t observed) (row : Option SyncState) :
    WellFormed { t with syncState := row } ∧ Agrees c { t with syncState := row } observed :=
  ⟨⟨hwf.contacts, hwf.identifiers, hwf.names, hwf.identified, hwf.named, hwf.joined⟩,
    agrees_names (t := t) rfl rfl h⟩

theorem ingest_agrees {generation leaseToken : ℕ} {contacts : List OpenWAContact}
    {made : List Observation} (hwf : WellFormed t) (h : Agrees c t observed)
    (hi : ingestPushNames c texts now generation leaseToken contacts t = some (u, made)) :
    WellFormed u ∧ Agrees c u (observed ++ made) := by
  obtain ⟨owned, howned, heq⟩ := Option.map_eq_some_iff.mp hi
  obtain ⟨row, rfl⟩ := renewLease_state howned
  obtain ⟨rfl, rfl⟩ := Prod.mk.inj heq
  obtain ⟨hwf', h'⟩ := state_agrees hwf h row
  exact rows_agree hwf' h' fun row hrow => (pageNames_held hrow).2

/-- A page brings no names of message senders. -/
theorem ingest_origin {generation leaseToken : ℕ} {contacts : List OpenWAContact}
    {made : List Observation}
    (hi : ingestPushNames c texts now generation leaseToken contacts t = some (u, made)) :
    ∀ o ∈ made, o.origin = .snapshotPage := by
  obtain ⟨owned, _, heq⟩ := Option.map_eq_some_iff.mp hi
  obtain ⟨_, rfl⟩ := Prod.mk.inj heq
  intro o ho
  obtain ⟨row, hrow, rfl⟩ := List.mem_map.mp ho
  obtain ⟨contact, _, hbrought⟩ := List.mem_filterMap.mp (pageNames_held hrow).1
  obtain ⟨pushName, _, heq⟩ := Option.map_eq_some_iff.mp hbrought
  rw [← heq]

end Writes

section Merges

variable {c : Config} {now generation leaseToken : ℕ} {t u : ContactTables}
  {result : MergeResult} {observed : List Observation} {id : ContactId} {o : Observation}
  {plan : List Mapping}

/-- The names that a merge leaves: the ranked ones of the winners, and those of the contacts that
take no part in it. -/
theorem merged_names (c : Config) (now : ℕ) (plan : List Mapping)
    (hn : (t.names.map ContactName.key).Nodup) :
    StoresAll t.names (mergeNames c.collation now plan t).names
      (rankedNames c.collation plan t.names) := by
  refine upserts_store hn ranked_nodup fun row hrow old hold hkey => ?_
  obtain ⟨n, hranks⟩ := ranked_newest hrow
  have hid : old.contactId = row.contactId := congrArg Prod.fst hkey
  exact hranks.newest old hold (congrArg Prod.snd hkey) (.inl hid)

theorem winner_of_moved {plan : List Mapping} (hplan : Coherent plan t) (hl : Loses plan id) :
    moved plan id ∈ winners plan ∧ ⟨moved plan id, id⟩ ∈ plan := by
  obtain ⟨m, hm, rfl⟩ := hl
  rw [moved_of_mem hplan hm]
  exact ⟨List.mem_dedup.mpr (List.mem_map_of_mem hm), hm⟩

/-- What is moved to a winner is the winner, or loses to it. -/
theorem joins_moved (hplan : Coherent plan t) : Joins plan (moved plan id) id := by
  by_cases hl : Loses plan id
  · exact .inr (winner_of_moved hplan hl).2
  · exact .inl (moved_of_not_loses hl).symm

theorem moved_of_joins {w : ContactId} (hplan : Coherent plan t) (hw : w ∈ winners plan)
    (h : Joins plan w id) : moved plan id = w := by
  rcases h with rfl | hm
  · obtain ⟨m, hm, rfl⟩ := List.mem_map.mp (List.mem_dedup.mp hw)
    exact moved_of_not_loses (hplan.final m hm)
  · exact moved_of_mem hplan hm

theorem winner_kept (hplan : Coherent plan t) (hw : id ∈ winners plan) : ¬ Loses plan id := by
  obtain ⟨m, hm, rfl⟩ := List.mem_map.mp (List.mem_dedup.mp hw)
  exact hplan.final m hm

/-- A winner holds the observations of its whole component. -/
theorem observedFor_moved (hmoved : u.identifiers = t.identifiers.map (moveIdentifier now plan)) :
    ObservedFor ⟨u, observed⟩ id o ↔
      ∃ old, ObservedFor ⟨t, observed⟩ old o ∧ moved plan old = id := by
  simp only [ObservedFor, hmoved, List.mem_map]
  constructor
  · rintro ⟨ho, _, ⟨i, hi, rfl⟩, hk, hid⟩
    rw [moveIdentifier_key] at hk
    rw [moveIdentifier_contact] at hid
    exact ⟨i.contactId, ⟨ho, i, hi, hk, rfl⟩, hid⟩
  · rintro ⟨_, ⟨ho, i, hi, hk, rfl⟩, hid⟩
    exact ⟨ho, _, ⟨i, hi, rfl⟩, (moveIdentifier_key i).trans hk,
      (moveIdentifier_contact i).trans hid⟩

/-- The merge keeps for each contact the newest of the names that its losers had. -/
theorem merge_agrees (hn : (t.names.map ContactName.key).Nodup) (h : Agrees c t observed)
    (hplan : Coherent plan t)
    (hidentifiers : u.identifiers = t.identifiers.map (moveIdentifier now plan))
    (hnames : u.names = (mergeNames c.collation now plan t).names.filter
      (fun n => ¬ Loses plan n.contactId)) : Agrees c u observed := by
  have hstores := merged_names c now plan hn
  have hmem : ∀ n, n ∈ u.names ↔
      n ∈ (mergeNames c.collation now plan t).names ∧ ¬ Loses plan n.contactId := by
    intro n
    rw [hnames, List.mem_filter, decide_eq_true_eq]
  -- a name that no ranked row replaces is that of a contact outside the plan
  have houtside : ∀ n ∈ t.names, ¬ Loses plan n.contactId →
      (∀ row ∈ rankedNames c.collation plan t.names, n.key ≠ row.key) →
      ∀ old, moved plan old = n.contactId → old = n.contactId := by
    intro n hnt hkept hfree old hold
    by_cases hl : Loses plan old
    · have hw : n.contactId ∈ winners plan := hold ▸ (winner_of_moved hplan hl).1
      obtain ⟨row, hrow, hkey⟩ := ranked_exists c.collation hw hnt (.inl rfl)
      exact absurd hkey.symm (hfree row hrow)
    · rwa [moved_of_not_loses hl] at hold
  constructor
  · intro o ho
    obtain ⟨i, hi, hk⟩ := h.identified o ho
    rw [hidentifiers]
    exact ⟨_, List.mem_map_of_mem hi, (moveIdentifier_key i).trans hk⟩
  · intro n hnu hs
    obtain ⟨hnm, hkept⟩ := (hmem n).mp hnu
    rcases hstores.mem n hnm with ⟨hnt, _⟩ | ⟨row, hrow, hkey, hstamp, hvalue⟩
    · obtain ⟨o, ho, hsame⟩ := h.held n hnt hs
      exact ⟨o, (observedFor_moved hidentifiers).mpr ⟨_, ho, moved_of_not_loses hkept⟩, hsame⟩
    · obtain ⟨m, hranks⟩ := ranked_newest hrow
      have hsource : row.nameSource = .openwaPushName := (congrArg Prod.snd hkey).symm.trans hs
      obtain ⟨o, ho, hov, hos⟩ := h.held m hranks.mem (hranks.source.trans hsource)
      have hid : n.contactId = row.contactId := congrArg Prod.fst hkey
      refine ⟨o, (observedFor_moved hidentifiers).mpr ⟨_, ho, ?_⟩, ?_, ?_⟩
      · rw [hid]
        exact moved_of_joins hplan hranks.winner hranks.joins
      · rw [hov, hranks.value, hvalue]
      · rw [hos, hranks.stamp, hstamp]
  · intro n hnu hs o ho
    obtain ⟨hnm, hkept⟩ := (hmem n).mp hnu
    obtain ⟨old, hold, hmoved⟩ := (observedFor_moved hidentifiers).mp ho
    rcases hstores.mem n hnm with ⟨hnt, hfree⟩ | ⟨row, hrow, hkey, hstamp, _⟩
    · rw [houtside n hnt hkept hfree old hmoved] at hold
      exact h.newest n hnt hs o hold
    · obtain ⟨m, hranks⟩ := ranked_newest hrow
      have hid : n.contactId = row.contactId := congrArg Prod.fst hkey
      have hsource : row.nameSource = .openwaPushName := (congrArg Prod.snd hkey).symm.trans hs
      obtain ⟨stored, hst, hstk⟩ := h.stored old o hold
      have hcontact : stored.contactId = old := congrArg Prod.fst hstk
      have hpush : stored.nameSource = .openwaPushName := congrArg Prod.snd hstk
      have hbefore := h.newest stored hst hpush o (hcontact ▸ hold)
      have hjoins : Joins plan row.contactId stored.contactId := by
        rw [← hid, ← hmoved, hcontact]
        exact joins_moved hplan
      rw [hstamp]
      exact stamp_trans hbefore
        (hranks.newest stored hst (hpush.trans hsource.symm) hjoins)
  · intro id o ho
    obtain ⟨old, hold, rfl⟩ := (observedFor_moved hidentifiers).mp ho
    obtain ⟨stored, hst, hstk⟩ := h.stored old o hold
    have hcontact : stored.contactId = old := congrArg Prod.fst hstk
    have hpush : stored.nameSource = .openwaPushName := congrArg Prod.snd hstk
    by_cases hw : moved plan old ∈ winners plan
    · have hjoins : Joins plan (moved plan old) stored.contactId := by
        rw [hcontact]
        exact joins_moved hplan
      obtain ⟨row, hrow, hkey⟩ := ranked_exists c.collation hw hst hjoins
      obtain ⟨n, hnm, hnk⟩ := hstores.stored row hrow
      have hnkey : n.key = (moved plan old, .openwaPushName) := by
        rw [hnk, hkey, hpush]
      refine ⟨n, (hmem n).mpr ⟨hnm, ?_⟩, hnkey⟩
      rw [show n.contactId = moved plan old from congrArg Prod.fst hnkey]
      exact winner_kept hplan hw
    · have hkept : ¬ Loses plan old := fun hl => hw (winner_of_moved hplan hl).1
      rw [moved_of_not_loses hkept] at hw ⊢
      refine ⟨stored, (hmem stored).mpr ⟨hstores.others stored hst fun row hrow heq => ?_, ?_⟩,
        hstk⟩
      · obtain ⟨m, hranks⟩ := ranked_newest hrow
        have hid : stored.contactId = row.contactId := congrArg Prod.fst heq
        exact hw (hcontact ▸ hid ▸ hranks.winner)
      · rwa [hcontact]

theorem reconcile_sound (hwf : WellFormed t) (h : Agrees c t observed)
    (hr : reconcileObservedIdentities c now generation leaseToken t = some (u, result)) :
    WellFormed u ∧ Agrees c u observed := by
  obtain ⟨hidentifiers, hnames, _, _, _⟩ := reconcile_tables hr
  have hplan := mergePlan_coherent generation t
  have hkept := merge_preserves_contacts hwf hr
  have hstores := merged_names c now (mergePlan generation t) hwf.names
  refine ⟨?_, merge_agrees hwf.names h hplan hidentifiers hnames⟩
  refine ⟨kept_unique hwf hr, ?_, ?_, fun i hi => ?_, fun n hn => ?_, hkept.members⟩
  · rw [hkept.identifiers]
    exact hwf.identifiers
  · rw [hnames]
    exact (List.filter_sublist.map ContactName.key).nodup hstores.nodup
  · obtain ⟨contact, ⟨hc, hid⟩, _⟩ := hkept.owned i hi
    exact ⟨contact, hc, hid⟩
  · rw [hnames, List.mem_filter, decide_eq_true_eq] at hn
    refine (kept_contact hr).mpr ⟨?_, hn.2⟩
    rcases hstores.mem n hn.1 with ⟨hnt, _⟩ | ⟨row, hrow, hkey, _, _⟩
    · exact hwf.named n hnt
    · obtain ⟨m, hranks⟩ := ranked_newest hrow
      obtain ⟨mapping, hm, hid⟩ := List.mem_map.mp (List.mem_dedup.mp hranks.winner)
      rw [show n.contactId = row.contactId from congrArg Prod.fst hkey, ← hid]
      exact hplan.stored mapping hm

end Merges

section Runs

variable {c : Config} {texts : Texts} {s s' : State} {e : Event} {t : ContactTables}
  {observed : List Observation}

theorem storeName_sound (hwf : WellFormed t) (h : Agrees c t observed) {row : ContactName}
    (hs : row.nameSource ≠ .openwaPushName)
    (hc : ∃ contact ∈ t.contacts, contact.id = row.contactId) :
    WellFormed { t with names := row :: t.names.filter fun n => n.key ≠ row.key } ∧
      Agrees c { t with names := row :: t.names.filter fun n => n.key ≠ row.key } observed := by
  have hmem : ∀ n, n.nameSource = .openwaPushName →
      (n ∈ row :: t.names.filter (fun n => n.key ≠ row.key) ↔ n ∈ t.names) := by
    intro n hn
    have hne : n.key ≠ row.key := fun heq => hs ((congrArg Prod.snd heq).symm.trans hn)
    simp only [List.mem_cons, List.mem_filter, decide_eq_true_eq]
    exact ⟨fun hor => hor.elim (fun heq => absurd (congrArg ContactName.key heq) hne) And.left,
      fun hn' => .inr ⟨hn', hne⟩⟩
  constructor
  · refine wellFormed_names hwf rfl rfl rfl ?_ fun n hn => ?_
    · rw [List.map_cons, List.nodup_cons]
      refine ⟨fun hk => ?_, (List.filter_sublist.map ContactName.key).nodup hwf.names⟩
      obtain ⟨n, hn, heq⟩ := List.mem_map.mp hk
      have hne : n.key ≠ row.key := by simpa using (List.mem_filter.mp hn).2
      exact hne heq
    · rcases List.mem_cons.mp hn with rfl | hn
      · exact hc
      · exact hwf.named n (List.mem_filter.mp hn).1
  · refine ⟨h.identified, fun n hn hn' => ?_, fun n hn hn' => ?_, fun id o ho => ?_⟩
    · exact h.held n ((hmem n hn').mp hn) hn'
    · exact h.newest n ((hmem n hn').mp hn) hn'
    · obtain ⟨n, hn, hk⟩ := h.stored id o ho
      exact ⟨n, (hmem n (congrArg Prod.snd hk)).mpr hn, hk⟩

theorem step_sound (hwf : WellFormed s.tables) (h : Agrees c s.tables s.observed)
    (hstep : step c texts s e = some s') :
    WellFormed s'.tables ∧ Agrees c s'.tables s'.observed := by
  cases e with
  | observeMessageSender now rawIdentity rawPushName observedAt observationKey candidate =>
    simp only [step] at hstep
    split at hstep <;> cases hstep
    · exact ⟨hwf, h⟩
    · exact observe_agrees hwf h
  | ingestPushNames now generation leaseToken contacts =>
    obtain ⟨⟨u, made⟩, hi, rfl⟩ := Option.map_eq_some_iff.mp hstep
    exact ingest_agrees hwf h hi
  | reconcile now generation leaseToken =>
    obtain ⟨⟨u, result⟩, hr, rfl⟩ := Option.map_eq_some_iff.mp hstep
    exact reconcile_sound hwf h hr
  | insertIdentifier now key candidate =>
    cases hstep
    exact ⟨observeIdentifier_wellFormed hwf,
      identifies_agrees (observeIdentifier_identifies now s.tables key candidate) h⟩
  | insertPhone now phone contactId =>
    obtain ⟨_, rfl⟩ := guarded_eq_some.mp hstep
    exact ⟨observeIdentifier_wellFormed hwf,
      identifies_agrees (observeIdentifier_identifies now s.tables _ contactId) h⟩
  | stageEvidence row =>
    cases hstep
    exact ⟨⟨hwf.contacts, hwf.identifiers, hwf.names, hwf.identified, hwf.named, hwf.joined⟩,
      ⟨h.identified, h.held, h.newest, h.stored⟩⟩
  | storeName row =>
    obtain ⟨⟨hs, hc⟩, rfl⟩ := guarded_eq_some.mp hstep
    exact storeName_sound hwf h hs (by simpa using hc)
  | storeMember row =>
    obtain ⟨hc, rfl⟩ := guarded_eq_some.mp hstep
    refine ⟨⟨hwf.contacts, hwf.identifiers, hwf.names, hwf.identified, hwf.named, ?_⟩,
      ⟨h.identified, h.held, h.newest, h.stored⟩⟩
    intro m hm id hid
    rcases List.mem_cons.mp hm with rfl | hm
    · simpa using hc id hid
    · exact hwf.joined m (List.mem_filter.mp hm).1 id hid
  | setSyncState row =>
    cases hstep
    exact state_agrees hwf h (some row)

theorem reachable_sound (h : Reachable (system c texts) s) :
    WellFormed s.tables ∧ Agrees c s.tables s.observed := by
  refine reachable_invariant (M := system c texts)
    (I := fun s => WellFormed s.tables ∧ Agrees c s.tables s.observed) ?_
    (fun s e hI he => step_sound hI.1 hI.2 (system_step he)) h
  rintro _ rfl
  refine ⟨⟨List.nodup_nil, List.nodup_nil, List.nodup_nil, ?_, ?_, ?_⟩, ⟨?_, ?_, ?_, ?_⟩⟩ <;>
    simp [initial, ObservedFor]

/-- In every run of observations and merges, in any order and with any repetitions, each contact has
the name of the newest observation, by a message sender or by a page, made for the identifiers that
it holds. -/
theorem push_names_newest (h : Reachable (system c texts) s) (id : ContactId) :
    PushNameNewest c (fun _ => True) s id := by
  obtain ⟨_, hagrees⟩ := reachable_sound h
  constructor
  · intro name hname
    obtain ⟨n, hfind, rfl⟩ := Option.map_eq_some_iff.mp hname
    have hn := List.mem_of_find?_eq_some hfind
    have hkey : n.key = (id, .openwaPushName) := by simpa using List.find?_some hfind
    obtain rfl : n.contactId = id := congrArg Prod.fst hkey
    have hs : n.nameSource = .openwaPushName := congrArg Prod.snd hkey
    obtain ⟨o, ho, hvalue, hstamp⟩ := hagrees.held n hn hs
    exact ⟨o, ho, trivial, hvalue, fun o' ho' _ => hstamp ▸ hagrees.newest n hn hs o' ho'⟩
  · intro hnone o ho
    obtain ⟨n, hn, hkey⟩ := hagrees.stored id o ho
    have hfind := List.find?_eq_none.mp (Option.map_eq_none_iff.mp hnone) n hn
    simp [hkey] at hfind

instance (s : State) (e : Event) : Decidable ((system c texts).enabled s e) :=
  inferInstanceAs (Decidable ((step c texts s e).isSome = true))

def exampleTexts : Texts := ⟨id, id⟩

/-- Two contacts get names out of order, and a snapshot that names one of them too merges them. -/
def mergeTrace : List Event :=
  [.observeMessageSender 20 "7@lid" (some "An") 15 "b" 1,
    .observeMessageSender 30 "84@c.us" (some "Binh") 25 "c" 2,
    .observeMessageSender 40 "84@c.us" (some "Bin") 5 "a" 3,
    .setSyncState ⟨1, some 9, some 600000⟩, .stageEvidence ⟨1, (.lid, "7@lid"), "84"⟩,
    .insertPhone 50 "84" 2, .ingestPushNames 50 1 9 [⟨"7@lid", "84", none, some "An N"⟩],
    .reconcile 60 1 9]

def merged : State := runTrace (system exampleConfig exampleTexts) initial mergeTrace

theorem merged_names_newest : PushNameNewest exampleConfig (fun _ => True) merged 1 :=
  push_names_newest ⟨mergeTrace, valid_trace_run rfl (by decide +kernel)⟩ 1

/-- The name that a page of the snapshot has brought is newer than those of the messages. -/
theorem page_name_stored : ∃ s, Reachable (system exampleConfig exampleTexts) s ∧
    ∃ id, ¬ PushNameNewest exampleConfig (· = .messageSender) s id := by
  refine ⟨merged, ⟨mergeTrace, valid_trace_run rfl (by decide +kernel)⟩, 1, fun h => ?_⟩
  have hstored : storedName merged.tables.names 1 .openwaPushName = some "An N" := by
    decide +kernel
  have hnone : ∀ o ∈ merged.observed, o.origin = .messageSender → o.value ≠ "An N" := by
    decide +kernel
  obtain ⟨o, ⟨ho, _⟩, hmessage, hvalue, _⟩ := h.newest "An N" hstored
  exact hnone o ho hmessage hvalue

end Runs

end PushNames
