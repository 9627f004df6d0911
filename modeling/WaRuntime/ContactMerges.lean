import WaRuntime.ContactProjection

/-! The contacts of one session, and the merge that a snapshot of the upstream contacts ends with.
`reconcileObservedIdentities` is one transaction under the advisory lock of the session, which every
writer of these tables takes, so it is one step. `now` is the start of its transaction; texts are
ordered by the collation of the database, and the ids of contacts are numbers. -/
namespace ContactMerges

open CanonicalOrders ContactNormalization ContactEvidence ContactProjection
open ContactResolution hiding clusterOf
open RecursiveQuery

abbrev ContactId := ℕ

structure Contact where
  id : ContactId
  effectiveDisplayName : Option String
  displayNameSource : Option ObservationSource
  firstObservedAt : ℕ
  lastObservedAt : ℕ
  createdAt : ℕ
  updatedAt : ℕ
  deriving DecidableEq, Repr

/-- A row of `contact_identifiers`. -/
structure Identifier where
  key : IdentityKey
  contactId : ContactId
  lastObservedAt : ℕ
  updatedAt : ℕ
  deriving DecidableEq, Repr

structure ContactName where
  contactId : ContactId
  nameSource : ObservationSource
  nameValue : String
  firstObservedAt : ℕ
  lastObservedAt : ℕ
  sourceObservedAt : ℕ
  sourceObservationKey : String
  updatedAt : ℕ
  deriving DecidableEq, Repr

/-- What the contacts have to do with a row of `group_members`. -/
structure Member where
  groupId : String
  participantId : String
  contactId : Option ContactId
  participantDisplayName : Option String
  displayName : Option String
  displayNameSource : Option ObservationSource
  displayNameUpdatedAt : Option ℕ
  updatedAt : ℕ
  deriving DecidableEq, Repr

/-- A row of `contact_identity_evidence`. -/
structure IdentityEvidence where
  syncGeneration : ℕ
  key : IdentityKey
  phone : String
  deriving DecidableEq, Repr

structure SyncState where
  syncGeneration : ℕ
  leaseToken : Option ℕ
  leaseExpiresAt : Option ℕ
  deriving DecidableEq, Repr

structure ContactTables where
  contacts : List Contact
  identifiers : List Identifier
  names : List ContactName
  members : List Member
  evidence : List IdentityEvidence
  syncState : Option SyncState
  deriving DecidableEq, Repr

def ContactName.key (n : ContactName) : ContactId × ObservationSource := (n.contactId, n.nameSource)

/-- The order of the observations of a name. -/
def ContactName.stamp (n : ContactName) : ℕ × String :=
  (n.sourceObservedAt, n.sourceObservationKey)

/-- A row of `contact_merge_plan`. -/
structure Mapping where
  winnerId : ContactId
  loserId : ContactId
  deriving DecidableEq, Repr

section Plan

variable (generation : ℕ) (t : ContactTables)

def evidenceOf : List IdentityEvidence := t.evidence.filter (·.syncGeneration = generation)

/-- `identity_count` of `phone_cardinality`. -/
def identityCount (phone : String) : ℕ :=
  (((evidenceOf generation t).filter (·.phone = phone)).map IdentityEvidence.key).dedup.length

/-- `edges`. -/
def mergeEdges : List (ContactId × ContactId) :=
  (((evidenceOf generation t).filter fun e => identityCount generation t e.phone = 1).flatMap
    fun e => (t.identifiers.filter (·.key = e.key)).flatMap fun exact =>
      (t.identifiers.filter fun i =>
        i.key = (.phone, e.phone) ∧ exact.contactId ≠ i.contactId).map fun i =>
          (exact.contactId, i.contactId)).dedup

/-- The column `source` of `undirected`. -/
def edgeSources (edges : List (ContactId × ContactId)) : List ContactId :=
  (edges.map Prod.fst ++ edges.map Prod.snd).dedup

/-- `reach(root, node)`. -/
def mergeReach (edges : List (ContactId × ContactId)) : List (ContactId × ContactId) :=
  reach (neighbours edges) ((edgeSources edges).length * (edgeSources edges).length)
    (edgeSources edges)

/-- `component_id` of a node. -/
def component (node : ContactId) : Option ContactId :=
  ContactResolution.clusterOf (mergeReach (mergeEdges generation t)) node

/-- ORDER BY `created_at`, `id`. -/
def creationOrder : TotalOrder (ℕ × ContactId) :=
  (TotalOrder.ascending ℕ).prod (TotalOrder.ascending ℕ)

def Contact.creation (c : Contact) : ℕ × ContactId := (c.createdAt, c.id)

/-- The contacts of a component. -/
def partitionOf (node : ContactId) : List Contact :=
  t.contacts.filter fun c => component generation t c.id = component generation t node

/-- `winner_id` of a node: the first value of its partition. -/
def winnerOf (node : ContactId) : Option ContactId :=
  (component generation t node).bind fun _ =>
    (creationOrder.firstBy Contact.creation (partitionOf generation t node)).map Contact.id

def mergePlan : List Mapping :=
  t.contacts.filterMap fun c => (winnerOf generation t c.id).bind fun winner =>
    if c.id ≠ winner then some ⟨winner, c.id⟩ else none

end Plan

section Statements

variable (collation : TotalOrder String) (now : ℕ) (plan : List Mapping)

def winners : List ContactId := (plan.map Mapping.winnerId).dedup

/-- A contact is the winner, or a loser to it. -/
def Joins (winner id : ContactId) : Prop := id = winner ∨ ⟨winner, id⟩ ∈ plan

instance (winner id : ContactId) : Decidable (Joins plan winner id) :=
  inferInstanceAs (Decidable (_ ∨ _))

/-- Where an id that the plan may map is moved to. -/
def moved (id : ContactId) : ContactId :=
  ((plan.find? (·.loserId = id)).map Mapping.winnerId).getD id

/-- The comparison of two observations of a name. -/
def StampLe (a b : ℕ × String) : Prop := (observationOrder collation).le a b

instance (a b : ℕ × String) : Decidable (StampLe collation a b) :=
  (observationOrder collation).decidable a b

/-- The order in which the names of a winner and its losers are ranked. -/
def rankOrder : TotalOrder ((ℕ × String) × (ContactId × String)) :=
  (observationOrder collation).reverse.prod ((TotalOrder.ascending ℕ).prod collation)

def rankKey (n : ContactName) : (ℕ × String) × (ContactId × String) :=
  (n.stamp, (n.contactId, n.nameValue))

/-- The names that are ranked for a winner and a source. -/
def candidateNames (names : List ContactName) (winner : ContactId) (source : ObservationSource) :
    List ContactName :=
  names.filter fun n => n.nameSource = source ∧ Joins plan winner n.contactId

/-- `ranked`, the rows of rank 1. -/
def rankedNames (names : List ContactName) : List ContactName :=
  (winners plan).flatMap fun winner =>
    [ObservationSource.openwaContactName, .groupParticipantName, .openwaPushName].filterMap
      fun source =>
        ((rankOrder collation).firstBy rankKey (candidateNames plan names winner source)).map
          fun n => { n with contactId := winner }

/-- DO UPDATE of a stored name, unless the stored one was observed later. -/
def replaceName (new old : ContactName) : ContactName :=
  if StampLe collation old.stamp new.stamp then
    { old with
      nameValue := new.nameValue
      firstObservedAt := min old.firstObservedAt new.firstObservedAt
      lastObservedAt := max old.lastObservedAt new.lastObservedAt
      sourceObservedAt := new.sourceObservedAt
      sourceObservationKey := new.sourceObservationKey
      updatedAt := now }
  else old

/-- INSERT … ON CONFLICT (session_id, contact_id, name_source) of one row. -/
def upsertName (names : List ContactName) (new : ContactName) : List ContactName :=
  if names.any (·.key = new.key) then
    names.map fun old => if old.key = new.key then replaceName collation now new old else old
  else names ++ [{ new with updatedAt := now }]

def mergeNames (t : ContactTables) : ContactTables :=
  { t with
    names := (rankedNames collation plan t.names).foldl (upsertName collation now) t.names }

/-- An id is a loser of the plan. -/
def Loses (id : ContactId) : Prop := ∃ m ∈ plan, m.loserId = id

instance (id : ContactId) : Decidable (Loses plan id) := inferInstanceAs (Decidable (∃ m ∈ plan, _))

def deleteNames (t : ContactTables) : ContactTables :=
  { t with names := t.names.filter fun n => ¬ Loses plan n.contactId }

def moveIdentifier (i : Identifier) : Identifier :=
  if Loses plan i.contactId then { i with contactId := moved plan i.contactId, updatedAt := now }
  else i

def moveIdentifiers (t : ContactTables) : ContactTables :=
  { t with identifiers := t.identifiers.map (moveIdentifier now plan) }

def moveMember (m : Member) : Member :=
  if ∃ id ∈ m.contactId, Loses plan id then
    { m with contactId := m.contactId.map (moved plan), updatedAt := now }
  else m

def moveMembers (t : ContactTables) : ContactTables :=
  { t with members := t.members.map (moveMember now plan) }

/-- The times of a winner and its losers. -/
def aggregateContacts (t : ContactTables) : ContactTables :=
  { t with
    contacts := t.contacts.map fun c =>
      if c.id ∈ winners plan then
        { c with
          firstObservedAt := ((t.contacts.filter fun d => Joins plan c.id d.id).map
            Contact.firstObservedAt).foldl min c.firstObservedAt
          lastObservedAt := ((t.contacts.filter fun d => Joins plan c.id d.id).map
            Contact.lastObservedAt).foldl max c.lastObservedAt
          updatedAt := now }
      else c }

def deleteContacts (t : ContactTables) : ContactTables :=
  { t with contacts := t.contacts.filter fun c => ¬ Loses plan c.id }

def storedName (names : List ContactName) (id : ContactId) (source : ObservationSource) :
    Option String :=
  (names.find? (·.key = (id, source))).map ContactName.nameValue

/-- `contactNameProjectionSql`. -/
def contactNameProjection (contactName pushName : Option String) :
    Option String × Option ObservationSource :=
  match contactName, pushName with
  | some name, _ => (some name, some .openwaContactName)
  | none, some name => (some name, some .openwaPushName)
  | none, none => (none, none)

/-- `memberNameProjectionSql`. -/
def memberNameProjection (contactName : Option String) (contactSource : Option ObservationSource)
    (participantName : Option String) : Option String × Option ObservationSource :=
  if contactSource = some .openwaContactName then (contactName, some .openwaContactName)
  else
    match participantName with
    | some name => (some name, some .groupParticipantName)
    | none =>
      if contactSource = some .openwaPushName then (contactName, some .openwaPushName)
      else (none, none)

/-- The effective names of the winners. -/
def nameContacts (t : ContactTables) : ContactTables :=
  { t with
    contacts := t.contacts.map fun c =>
      if c.id ∈ winners plan then
        let effective := contactNameProjection (storedName t.names c.id .openwaContactName)
          (storedName t.names c.id .openwaPushName)
        { c with
          effectiveDisplayName := effective.1
          displayNameSource := effective.2
          updatedAt := now }
      else c }

/-- What `member_writes` makes of a member, if it changes it. -/
def enrichedMember (contacts : List Contact) (m : Member) : Option Member :=
  m.contactId.bind fun id =>
    if id ∈ winners plan then
      (contacts.find? (·.id = id)).bind fun c =>
        let effective := memberNameProjection c.effectiveDisplayName c.displayNameSource
          m.participantDisplayName
        if (m.displayName, m.displayNameSource) ≠ effective then
          some { m with
            displayName := effective.1
            displayNameSource := effective.2
            displayNameUpdatedAt := effective.1.map fun _ => now
            updatedAt := now }
        else none
    else none

def enrichMembers (legacyMemberFanoutEnabled : Bool) (t : ContactTables) : ContactTables :=
  if legacyMemberFanoutEnabled then
    { t with members := t.members.map fun m => (enrichedMember now plan t.contacts m).getD m }
  else t

def deleteEvidence (generation : ℕ) (t : ContactTables) : ContactTables :=
  { t with evidence := t.evidence.filter fun e => generation < e.syncGeneration }

end Statements

structure MergeResult where
  merged : ℕ
  conflicts : ℕ
  enriched : ℕ
  deriving DecidableEq, Repr

/-- The evidence whose phone is claimed by more than one identity. -/
def ambiguousEvidence (generation : ℕ) (t : ContactTables) : List IdentityEvidence :=
  (evidenceOf generation t).filter fun e => 1 < identityCount generation t e.phone

structure Config where
  collation : TotalOrder String
  legacyMemberFanoutEnabled : Bool

/-- The update of the lease that every step of a snapshot begins with. -/
def renewLease (now generation leaseToken : ℕ) (t : ContactTables) : Option ContactTables :=
  t.syncState.bind fun row =>
    if row.syncGeneration = generation ∧ row.leaseToken = some leaseToken ∧
        ∃ expires ∈ row.leaseExpiresAt, now < expires then
      some { t with syncState := some { row with leaseExpiresAt := some (now + 600000) } }
    else none

/-- The merge, from the plan on. -/
def mergeContacts (c : Config) (now : ℕ) (plan : List Mapping) (t : ContactTables) :
    ContactTables :=
  nameContacts now plan <| deleteContacts plan <| aggregateContacts now plan <|
    moveMembers now plan <| moveIdentifiers now plan <| deleteNames plan <|
      mergeNames c.collation now plan t

/-- `none` where the transaction fails. -/
def reconcileObservedIdentities (c : Config) (now generation leaseToken : ℕ) (t : ContactTables) :
    Option (ContactTables × MergeResult) :=
  (renewLease now generation leaseToken t).map fun owned =>
    let plan := mergePlan generation owned
    let merged := mergeContacts c now plan owned
    let enriched := enrichMembers now plan c.legacyMemberFanoutEnabled merged
    (deleteEvidence generation enriched,
      { merged := plan.length
        conflicts := (ambiguousEvidence generation merged).length
        enriched :=
          if c.legacyMemberFanoutEnabled then
            (merged.members.filterMap (enrichedMember now plan merged.contacts)).length
          else 0 })

/-- The primary keys and the foreign keys of the tables. -/
structure WellFormed (t : ContactTables) : Prop where
  contacts : (t.contacts.map Contact.id).Nodup
  identifiers : (t.identifiers.map Identifier.key).Nodup
  names : (t.names.map ContactName.key).Nodup
  identified : ∀ i ∈ t.identifiers, ∃ c ∈ t.contacts, c.id = i.contactId
  named : ∀ n ∈ t.names, ∃ c ∈ t.contacts, c.id = n.contactId
  joined : ∀ m ∈ t.members, ∀ id ∈ m.contactId, ∃ c ∈ t.contacts, c.id = id

section Components

variable {generation : ℕ} {t : ContactTables} {a b : ContactId} {k : ContactId}

/-- The evidence is the only claim on its phone in the generation. -/
def SoleClaim (generation : ℕ) (t : ContactTables) (e : IdentityEvidence) : Prop :=
  e ∈ evidenceOf generation t ∧
    ∀ e' ∈ evidenceOf generation t, e'.phone = e.phone → e'.key = e.key

/-- The contact of an identity, and that of the phone which only this identity claims. -/
def Link (generation : ℕ) (t : ContactTables) (a b : ContactId) : Prop :=
  ∃ e, SoleClaim generation t e ∧ ∃ i ∈ t.identifiers, ∃ j ∈ t.identifiers,
    i.key = e.key ∧ j.key = (.phone, e.phone) ∧ i.contactId = a ∧ j.contactId = b

def Connected (generation : ℕ) (t : ContactTables) : ContactId → ContactId → Prop :=
  Relation.EqvGen (Link generation t)

theorem identity_count_one {e : IdentityEvidence} (he : e ∈ evidenceOf generation t) :
    identityCount generation t e.phone = 1 ↔ SoleClaim generation t e := by
  have hmem : e.key ∈ ((evidenceOf generation t).filter (·.phone = e.phone)).map
      IdentityEvidence.key :=
    List.mem_map_of_mem (List.mem_filter.mpr ⟨he, by simp⟩)
  have hpos : 0 < identityCount generation t e.phone :=
    List.length_pos_of_mem (List.mem_dedup.mpr hmem)
  have hmany : 1 < identityCount generation t e.phone ↔ ¬ SoleClaim generation t e := by
    rw [identityCount, one_lt_dedup_length]
    constructor
    · rintro ⟨x, hx, y, hy, hne⟩ hsole
      obtain ⟨e₁, h₁, rfl⟩ := List.mem_map.mp hx
      obtain ⟨e₂, h₂, rfl⟩ := List.mem_map.mp hy
      simp only [List.mem_filter, decide_eq_true_eq] at h₁ h₂
      exact hne ((hsole.2 e₁ h₁.1 h₁.2).trans (hsole.2 e₂ h₂.1 h₂.2).symm)
    · intro hnot
      have hother : ∃ e' ∈ evidenceOf generation t, e'.phone = e.phone ∧ e'.key ≠ e.key := by
        by_contra hall
        push Not at hall
        exact hnot ⟨he, hall⟩
      obtain ⟨e', he', hphone, hkey⟩ := hother
      exact ⟨e'.key, List.mem_map_of_mem (List.mem_filter.mpr ⟨he', by simpa using hphone⟩),
        e.key, hmem, hkey⟩
  constructor
  · intro hone
    by_contra hnot
    have hlt := hmany.mpr hnot
    omega
  · intro hsole
    by_contra hne
    exact (hmany.mp (by omega)) hsole

theorem edge_merge : Edge (mergeEdges generation t) a b ↔ Link generation t a b ∧ a ≠ b := by
  simp only [Edge, mergeEdges, List.mem_dedup, List.mem_flatMap, List.mem_map, List.mem_filter,
    decide_eq_true_eq, Prod.mk.injEq]
  constructor
  · rintro ⟨e, ⟨he, hone⟩, i, ⟨hi, hikey⟩, j, ⟨hj, hjkey, hne⟩, rfl, rfl⟩
    exact ⟨⟨e, (identity_count_one he).mp hone, i, hi, j, hj, hikey, hjkey, rfl, rfl⟩, hne⟩
  · rintro ⟨⟨e, hsole, i, hi, j, hj, hikey, hjkey, rfl, rfl⟩, hne⟩
    exact ⟨e, ⟨hsole.1, (identity_count_one hsole.1).mpr hsole⟩, i, ⟨hi, hikey⟩, j,
      ⟨hj, hjkey, hne⟩, rfl, rfl⟩

/-- The edges leave out what links a contact with itself, and that connects nothing. -/
theorem connected_iff :
    Connected generation t a b ↔ Relation.EqvGen (Edge (mergeEdges generation t)) a b := by
  constructor
  · intro h
    induction h with
    | rel x y hxy =>
      by_cases hne : x = y
      · subst hne
        exact .refl x
      · exact .rel x y (edge_merge.mpr ⟨hxy, hne⟩)
    | refl x => exact .refl x
    | symm x y _ ih => exact ih.symm
    | trans x y z _ _ ihxy ihyz => exact ihxy.trans _ _ _ ihyz
  · intro h
    exact Relation.EqvGen.mono (fun x y hxy => (edge_merge.mp hxy).1) _ _ h

variable {edges : List (ContactId × ContactId)}

theorem mem_edgeSources : a ∈ edgeSources edges ↔ ∃ b, Edge edges a b ∨ Edge edges b a := by
  simp only [edgeSources, List.mem_dedup, List.mem_append, List.mem_map, Edge]
  constructor
  · rintro (⟨e, he, rfl⟩ | ⟨e, he, rfl⟩)
    · exact ⟨e.2, .inl he⟩
    · exact ⟨e.1, .inr he⟩
  · rintro ⟨b, he | he⟩
    · exact .inl ⟨(a, b), he, rfl⟩
    · exact .inr ⟨(b, a), he, rfl⟩

/-- Only what has an edge is connected with something else. -/
theorem source_of_connected (h : Relation.EqvGen (Edge edges) a b) (hne : a ≠ b) :
    a ∈ edgeSources edges := by
  rw [← Relation.EqvGen.reflTransGen_symmGen] at h
  rcases Relation.ReflTransGen.cases_head h with heq | ⟨c, hac, _⟩
  · exact absurd heq hne
  · exact mem_edgeSources.mpr ⟨c, hac⟩

theorem mem_mergeReach : (a, b) ∈ mergeReach edges ↔
    a ∈ edgeSources edges ∧ Relation.EqvGen (Edge edges) a b := by
  have hclosed : ∀ x ∈ edgeSources edges, ∀ y, Leads (neighbours edges) x y →
      y ∈ edgeSources edges := by
    intro x _ y hxy
    rw [leads_neighbours] at hxy
    exact mem_edgeSources.mpr ⟨x, hxy.symm⟩
  have hnodup : (edgeSources edges).Nodup := List.nodup_dedup _
  unfold mergeReach
  rw [mem_reach_iff hnodup (List.Subset.refl _) hclosed le_rfl, leads_neighbours,
    Relation.EqvGen.reflTransGen_symmGen]

/-- The component of a node is the least contact with an edge that it is connected with. -/
theorem component_eq_some : component generation t a = some k ↔
    (k ∈ edgeSources (mergeEdges generation t) ∧ Connected generation t k a) ∧
      ∀ root ∈ edgeSources (mergeEdges generation t), Connected generation t root a → k ≤ root := by
  have hroots : ∀ root, root ∈ ((mergeReach (mergeEdges generation t)).filter (·.2 = a)).map
      Prod.fst ↔ root ∈ edgeSources (mergeEdges generation t) ∧ Connected generation t root a := by
    intro root
    rw [connected_iff, ← mem_mergeReach]
    simp only [List.mem_map, List.mem_filter, decide_eq_true_eq]
    constructor
    · rintro ⟨row, ⟨hrow, rfl⟩, rfl⟩
      exact hrow
    · intro hrow
      exact ⟨_, ⟨hrow, rfl⟩, rfl⟩
  unfold component ContactResolution.clusterOf
  rw [List.min?_eq_some_iff, hroots]
  refine and_congr Iff.rfl (forall_congr' fun root => ?_)
  rw [hroots]
  exact and_imp

theorem component_of_source (h : a ∈ edgeSources (mergeEdges generation t)) :
    ∃ k, component generation t a = some k := by
  have hrow : (a, a) ∈ mergeReach (mergeEdges generation t) := mem_mergeReach.mpr ⟨h, .refl a⟩
  have hmem : a ∈ ((mergeReach (mergeEdges generation t)).filter (·.2 = a)).map Prod.fst :=
    List.mem_map_of_mem (f := Prod.fst) (List.mem_filter.mpr ⟨hrow, by simp⟩)
  exact Option.isSome_iff_exists.mp (List.isSome_min?_of_ne_nil (List.ne_nil_of_mem hmem))

/-- A partition holds the contacts that are connected. -/
theorem same_component (ha : component generation t a = some k) :
    component generation t b = component generation t a ↔ Connected generation t a b := by
  obtain ⟨⟨hk, hka⟩, hleast⟩ := component_eq_some.mp ha
  rw [ha, component_eq_some]
  constructor
  · rintro ⟨⟨_, hkb⟩, _⟩
    exact hka.symm.trans _ _ _ hkb
  · intro hab
    refine ⟨⟨hk, hka.trans _ _ _ hab⟩, fun root hroot hrb => ?_⟩
    exact hleast root hroot (hrb.trans _ _ _ hab.symm)

/-- The contact was created first of all that are connected with the id. -/
structure Earliest (generation : ℕ) (t : ContactTables) (w : Contact) (id : ContactId) : Prop where
  mem : w ∈ t.contacts
  connected : Connected generation t id w.id
  first : ∀ d ∈ t.contacts, Connected generation t id d.id →
    creationOrder.le w.creation d.creation

theorem earliest_unique {w w' : Contact} (hw : Earliest generation t w a)
    (hw' : Earliest generation t w' a) : w.id = w'.id := by
  have hle := hw.first w' hw'.mem hw'.connected
  have hge := hw'.first w hw.mem hw.connected
  exact congrArg Prod.snd (creationOrder.antisymm _ _ hle hge)

theorem Earliest.transport {w : Contact} (hw : Earliest generation t w a)
    (hab : Connected generation t a b) : Earliest generation t w b :=
  ⟨hw.mem, hab.symm.trans _ _ _ hw.connected,
    fun d hd hbd => hw.first d hd (hab.trans _ _ _ hbd)⟩

theorem winnerOf_eq_some (ha : ∃ c ∈ t.contacts, c.id = a) : winnerOf generation t a = some b ↔
    a ∈ edgeSources (mergeEdges generation t) ∧ ∃ w, Earliest generation t w a ∧ w.id = b := by
  have hsource : ∀ k, component generation t a = some k →
      a ∈ edgeSources (mergeEdges generation t) := by
    intro k hk
    obtain ⟨⟨hk, hka⟩, _⟩ := component_eq_some.mp hk
    by_cases hne : a = k
    · exact hne ▸ hk
    · exact source_of_connected (connected_iff.mp hka.symm) hne
  have hmem : ∀ k, component generation t a = some k → ∀ c,
      c ∈ partitionOf generation t a ↔ c ∈ t.contacts ∧ Connected generation t a c.id := by
    intro k hk c
    simp only [partitionOf, List.mem_filter, decide_eq_true_eq, same_component hk]
  unfold winnerOf
  rw [Option.bind_eq_some_iff]
  constructor
  · rintro ⟨k, hk, hw⟩
    obtain ⟨w, hfirst, rfl⟩ := Option.map_eq_some_iff.mp hw
    obtain ⟨hwc, hconnected⟩ := (hmem k hk w).mp (creationOrder.firstBy_mem hfirst)
    refine ⟨hsource k hk, w, ⟨hwc, hconnected, fun d hd had => ?_⟩, rfl⟩
    exact creationOrder.firstBy_le hfirst ((hmem k hk d).mpr ⟨hd, had⟩)
  · rintro ⟨ha', w, hw, rfl⟩
    obtain ⟨k, hk⟩ := component_of_source ha'
    refine ⟨k, hk, ?_⟩
    obtain ⟨c, hc, rfl⟩ := ha
    cases hfirst : creationOrder.firstBy Contact.creation (partitionOf generation t c.id) with
    | none =>
      have hself := (hmem k hk c).mpr ⟨hc, .refl _⟩
      rw [creationOrder.firstBy_eq_none.mp hfirst] at hself
      cases hself
    | some v =>
      obtain ⟨hv, hcv⟩ := (hmem k hk v).mp (creationOrder.firstBy_mem hfirst)
      have hearliest : Earliest generation t v c.id := ⟨hv, hcv, fun d hd had =>
        creationOrder.firstBy_le hfirst ((hmem k hk d).mpr ⟨hd, had⟩)⟩
      exact congrArg some (earliest_unique hearliest hw)

/-- The plan maps each contact that is not the earliest of its component to the earliest one. -/
theorem mem_mergePlan {m : Mapping} : m ∈ mergePlan generation t ↔
    (∃ c ∈ t.contacts, c.id = m.loserId) ∧ m.loserId ≠ m.winnerId ∧
      ∃ w, Earliest generation t w m.loserId ∧ w.id = m.winnerId := by
  simp only [mergePlan, List.mem_filterMap, Option.bind_eq_some_iff, Option.ite_none_right_eq_some,
    Option.some.injEq]
  constructor
  · rintro ⟨c, hc, winner, hwinner, hne, rfl⟩
    exact ⟨⟨c, hc, rfl⟩, hne, ((winnerOf_eq_some ⟨c, hc, rfl⟩).mp hwinner).2⟩
  · rintro ⟨⟨c, hc, hid⟩, hne, w, hw, hwid⟩
    have hlost : w.id ≠ c.id := by
      rw [hwid, hid]
      exact hne.symm
    rw [← hid] at hw
    have hsource := source_of_connected (connected_iff.mp hw.connected) hlost.symm
    refine ⟨c, hc, m.winnerId, (winnerOf_eq_some ⟨c, hc, rfl⟩).mpr ⟨hsource, w, hw, hwid⟩, ?_, ?_⟩
    · rw [← hwid]
      exact hlost.symm
    · rw [hid]

/-- Every contact has an earliest one. -/
theorem earliest_exists (generation : ℕ) {c : Contact} (hc : c ∈ t.contacts) :
    ∃ w, Earliest generation t w c.id := by
  classical
  have hmem : ∀ d, d ∈ t.contacts.filter (fun d => Connected generation t c.id d.id) ↔
      d ∈ t.contacts ∧ Connected generation t c.id d.id := by
    intro d
    simp
  cases hfirst : creationOrder.firstBy Contact.creation
      (t.contacts.filter fun d => Connected generation t c.id d.id) with
  | none =>
    have hself := (hmem c).mpr ⟨hc, .refl _⟩
    rw [creationOrder.firstBy_eq_none.mp hfirst] at hself
    cases hself
  | some w =>
    obtain ⟨hw, hcw⟩ := (hmem w).mp (creationOrder.firstBy_mem hfirst)
    exact ⟨w, hw, hcw, fun d hd hcd => creationOrder.firstBy_le hfirst ((hmem d).mpr ⟨hd, hcd⟩)⟩

end Components

section Moves

variable {generation : ℕ} {t : ContactTables} {plan : List Mapping} {id a b : ContactId}

/-- What the statements of the merge rely on. -/
structure Coherent (plan : List Mapping) (t : ContactTables) : Prop where
  single : ∀ m ∈ plan, ∀ m' ∈ plan, m.loserId = m'.loserId → m.winnerId = m'.winnerId
  final : ∀ m ∈ plan, ¬ Loses plan m.winnerId
  stored : ∀ m ∈ plan, ∃ c ∈ t.contacts, c.id = m.winnerId

theorem mergePlan_coherent (generation : ℕ) (t : ContactTables) :
    Coherent (mergePlan generation t) t := by
  refine ⟨fun m hm m' hm' hid => ?_, fun m hm hloses => ?_, fun m hm => ?_⟩
  · obtain ⟨_, _, w, hw, hwid⟩ := mem_mergePlan.mp hm
    obtain ⟨_, _, w', hw', hwid'⟩ := mem_mergePlan.mp hm'
    rw [← hwid, ← hwid']
    exact earliest_unique hw (hid ▸ hw')
  · obtain ⟨m', hm', hid⟩ := hloses
    obtain ⟨_, _, w, hw, hwid⟩ := mem_mergePlan.mp hm
    obtain ⟨_, hne, w', hw', hwid'⟩ := mem_mergePlan.mp hm'
    rw [hid, ← hwid] at hw'
    have hsame := earliest_unique hw' (hw.transport hw.connected)
    exact hne (by rw [hid, ← hwid, ← hwid', hsame])
  · obtain ⟨_, _, w, hw, hwid⟩ := mem_mergePlan.mp hm
    exact ⟨w, hw.mem, hwid⟩

theorem moved_of_mem (h : Coherent plan t) {m : Mapping} (hm : m ∈ plan) :
    moved plan m.loserId = m.winnerId := by
  unfold moved
  cases hf : plan.find? (·.loserId = m.loserId) with
  | none => simpa using List.find?_eq_none.mp hf m hm
  | some m' =>
    have hid : m'.loserId = m.loserId := by simpa using List.find?_some hf
    exact h.single m' (List.mem_of_find?_eq_some hf) m hm hid

theorem moved_of_not_loses (h : ¬ Loses plan id) : moved plan id = id := by
  unfold moved
  cases hf : plan.find? (·.loserId = id) with
  | none => rfl
  | some m =>
    have hid : m.loserId = id := by simpa using List.find?_some hf
    exact absurd ⟨m, List.mem_of_find?_eq_some hf, hid⟩ h

/-- An id is moved to the earliest contact of its component. -/
theorem moved_earliest (generation : ℕ) {c : Contact} (hc : c ∈ t.contacts) :
    ∃ w, Earliest generation t w c.id ∧ moved (mergePlan generation t) c.id = w.id := by
  obtain ⟨w, hw⟩ := earliest_exists generation hc
  refine ⟨w, hw, ?_⟩
  by_cases hne : c.id = w.id
  · rw [moved_of_not_loses, hne]
    rintro ⟨m, hm, hid⟩
    obtain ⟨_, hlost, w', hw', hwid⟩ := mem_mergePlan.mp hm
    rw [hid] at hw'
    exact hlost (by rw [hid, hne, ← hwid, earliest_unique hw hw'])
  · have hm : (⟨w.id, c.id⟩ : Mapping) ∈ mergePlan generation t :=
      mem_mergePlan.mpr ⟨⟨c, hc, rfl⟩, hne, w, hw, rfl⟩
    exact moved_of_mem (mergePlan_coherent generation t) hm

/-- Two contacts are moved to the same one if they are connected. -/
theorem moved_eq_iff {c d : Contact} (hc : c ∈ t.contacts) (hd : d ∈ t.contacts) :
    moved (mergePlan generation t) c.id = moved (mergePlan generation t) d.id ↔
      Connected generation t c.id d.id := by
  obtain ⟨w, hw, hcw⟩ := moved_earliest generation hc
  obtain ⟨v, hv, hdv⟩ := moved_earliest generation hd
  rw [hcw, hdv]
  constructor
  · intro hid
    exact hw.connected.trans _ _ _ (hid ▸ hv.connected.symm)
  · intro hcd
    exact earliest_unique (hw.transport hcd) hv

/-- What is connected with nothing else is in no row of the plan. -/
theorem isolated_plan {c : Contact}
    (halone : ∀ d, Connected generation t c.id d → d = c.id) :
    ¬ Loses (mergePlan generation t) c.id ∧ c.id ∉ winners (mergePlan generation t) ∧
      ∀ id, Loses (mergePlan generation t) id → moved (mergePlan generation t) id ≠ c.id := by
  have hwins : ∀ m ∈ mergePlan generation t, m.winnerId ≠ c.id := by
    intro m hm heq
    obtain ⟨_, hne, w, hw, hwid⟩ := mem_mergePlan.mp hm
    have hloser := halone m.loserId (by rw [← heq, ← hwid]; exact hw.connected.symm)
    exact hne (hloser.trans heq.symm)
  refine ⟨?_, ?_, ?_⟩
  · rintro ⟨m, hm, hid⟩
    obtain ⟨_, hne, w, hw, hwid⟩ := mem_mergePlan.mp hm
    exact hwins m hm (hwid ▸ halone w.id (hid ▸ hw.connected))
  · intro hmem
    obtain ⟨m, hm, hid⟩ := List.mem_map.mp (List.mem_dedup.mp hmem)
    exact hwins m hm hid
  · rintro id ⟨m, hm, rfl⟩
    rw [moved_of_mem (mergePlan_coherent generation t) hm]
    exact hwins m hm

end Moves

section Merged

variable {c : Config} {now generation leaseToken : ℕ} {plan : List Mapping} {t u : ContactTables}
  {result : MergeResult} {id : ContactId}

theorem filter_map_fixed {α : Type*} {p : α → Bool} {f : α → α} {l : List α}
    (hfixed : ∀ x ∈ l, p x = true → f x = x) (hback : ∀ x ∈ l, p (f x) = true → p x = true) :
    (l.map f).filter p = l.filter p := by
  induction l with
  | nil => rfl
  | cons x l ih =>
    have hrest := ih (fun y hy => hfixed y (List.mem_cons_of_mem x hy))
      (fun y hy => hback y (List.mem_cons_of_mem x hy))
    cases hp : p x with
    | true => simp [hfixed x List.mem_cons_self hp, hp, hrest]
    | false =>
      have hpf : p (f x) = false := by
        by_contra htrue
        have hx := hback x List.mem_cons_self (by simpa using htrue)
        rw [hp] at hx
        cases hx
      simp [hpf, hp, hrest]

theorem moveIdentifier_key (i : Identifier) : (moveIdentifier now plan i).key = i.key := by
  unfold moveIdentifier
  split <;> rfl

theorem moveIdentifier_contact (i : Identifier) :
    (moveIdentifier now plan i).contactId = moved plan i.contactId := by
  unfold moveIdentifier
  split
  · rfl
  · rename_i h
    exact (moved_of_not_loses h).symm

theorem moveMember_contact (now : ℕ) (m : Member) :
    (moveMember now plan m).contactId = m.contactId.map (moved plan) := by
  unfold moveMember
  split
  · rfl
  · rename_i h
    cases hid : m.contactId with
    | none => rfl
    | some id =>
      have hnot : ¬ Loses plan id := fun hloses => h ⟨id, hid, hloses⟩
      rw [Option.map_some, moved_of_not_loses hnot]

/-- What becomes of a member. -/
def mergedMember (c : Config) (now : ℕ) (plan : List Mapping) (contacts : List Contact)
    (m : Member) : Member :=
  if c.legacyMemberFanoutEnabled then
    (enrichedMember now plan contacts (moveMember now plan m)).getD (moveMember now plan m)
  else moveMember now plan m

theorem enrichedMember_some {contacts : List Contact} {m m' : Member}
    (h : enrichedMember now plan contacts m = some m') :
    m'.contactId = m.contactId ∧ ∃ id ∈ m.contactId, id ∈ winners plan := by
  obtain ⟨id, hid, h⟩ := Option.bind_eq_some_iff.mp h
  obtain ⟨hwins, h⟩ := Option.ite_none_right_eq_some.mp h
  obtain ⟨contact, _, h⟩ := Option.bind_eq_some_iff.mp h
  obtain ⟨_, h⟩ := Option.ite_none_right_eq_some.mp h
  cases h
  exact ⟨rfl, id, hid, hwins⟩

theorem mergedMember_contact (contacts : List Contact) (m : Member) :
    (mergedMember c now plan contacts m).contactId = m.contactId.map (moved plan) := by
  rw [← moveMember_contact now]
  unfold mergedMember
  split
  · cases h : enrichedMember now plan contacts (moveMember now plan m) with
    | none => rfl
    | some m' => exact (enrichedMember_some h).1
  · rfl

theorem mergedMember_untouched {contacts : List Contact} {m : Member} (hid : m.contactId = some id)
    (hloses : ¬ Loses plan id) (hwins : id ∉ winners plan) :
    mergedMember c now plan contacts m = m := by
  have hmove : moveMember now plan m = m := by
    refine if_neg ?_
    rintro ⟨id', hid', hl⟩
    rw [hid, Option.mem_some_iff] at hid'
    exact hloses (hid' ▸ hl)
  have henrich : enrichedMember now plan contacts m = none := by
    simp [enrichedMember, hid, hwins]
  simp [mergedMember, hmove, henrich]

/-- A statement on the contacts that keeps their ids and leaves all but the winners as they are. -/
def KeepsOthers (plan : List Mapping) (f : Contact → Contact) : Prop :=
  ∀ contact, (f contact).id = contact.id ∧ (contact.id ∉ winners plan → f contact = contact)

theorem keeps_ids {f : Contact → Contact} (h : KeepsOthers plan f) (contacts : List Contact) :
    (contacts.map f).map Contact.id = contacts.map Contact.id := by
  rw [List.map_map]
  exact List.map_congr_left fun contact _ => (h contact).1

theorem keeps_mem {f : Contact → Contact} (h : KeepsOthers plan f) {contacts : List Contact}
    {contact : Contact} (hwins : contact.id ∉ winners plan) (hmem : contact ∈ contacts) :
    contact ∈ contacts.map f :=
  List.mem_map.mpr ⟨contact, hmem, (h contact).2 hwins⟩

theorem aggregate_keeps (now : ℕ) (plan : List Mapping) (t : ContactTables) : ∃ f, KeepsOthers plan f ∧
    (aggregateContacts now plan t).contacts = t.contacts.map f := by
  refine ⟨_, fun contact => ⟨?_, fun hwins => ?_⟩, rfl⟩
  · split <;> rfl
  · rw [if_neg hwins]

theorem nameContacts_keeps (now : ℕ) (plan : List Mapping) (t : ContactTables) : ∃ f, KeepsOthers plan f ∧
    (nameContacts now plan t).contacts = t.contacts.map f := by
  refine ⟨_, fun contact => ⟨?_, fun hwins => ?_⟩, rfl⟩
  · dsimp only
    split <;> rfl
  · dsimp only
    rw [if_neg hwins]

/-- The merge deletes the losers. -/
theorem merged_contacts : (mergeContacts c now plan t).contacts.map Contact.id =
      (t.contacts.map Contact.id).filter (fun id => ¬ Loses plan id) ∧
    ∀ contact ∈ t.contacts, ¬ Loses plan contact.id → contact.id ∉ winners plan →
      contact ∈ (mergeContacts c now plan t).contacts := by
  obtain ⟨f, hf, hagg⟩ := aggregate_keeps now plan
    (moveMembers now plan <| moveIdentifiers now plan <| deleteNames plan <|
      mergeNames c.collation now plan t)
  obtain ⟨g, hg, hname⟩ := nameContacts_keeps now plan
    (deleteContacts plan <| aggregateContacts now plan <| moveMembers now plan <|
      moveIdentifiers now plan <| deleteNames plan <| mergeNames c.collation now plan t)
  have hcontacts : (mergeContacts c now plan t).contacts =
      ((t.contacts.map f).filter fun contact => ¬ Loses plan contact.id).map g := by
    refine hname.trans (congrArg (List.map g) ?_)
    exact congrArg (List.filter fun contact => ¬ Loses plan contact.id) hagg
  rw [hcontacts]
  constructor
  · rw [keeps_ids hg, ← keeps_ids hf t.contacts]
    rw [List.filter_map (l := t.contacts.map f)]
    rfl
  · intro contact hmem hloses hwins
    exact keeps_mem hg hwins
      (List.mem_filter.mpr ⟨keeps_mem hf hwins hmem, by simpa using hloses⟩)

/-- The names of the other contacts are left alone. -/
theorem upsertName_others {names : List ContactName} {new : ContactName}
    {collation : TotalOrder String} (hid : new.contactId ≠ id) :
    (upsertName collation now names new).filter (·.contactId = id) =
      names.filter (·.contactId = id) := by
  have hreplaced : ∀ old, (replaceName collation now new old).contactId = old.contactId := by
    intro old
    unfold replaceName
    split <;> rfl
  unfold upsertName
  split
  · refine filter_map_fixed (fun old _ hold => if_neg fun hkey => ?_) (fun old _ hold => ?_)
    · have hcontact : old.contactId = new.contactId := congrArg Prod.fst hkey
      exact hid (hcontact.symm.trans (by simpa using hold))
    · split at hold
      · rw [hreplaced] at hold
        exact hold
      · exact hold
  · simp [hid]

theorem mergeNames_others (c : Config) (now : ℕ) (hwins : id ∉ winners plan) :
    (mergeNames c.collation now plan t).names.filter (·.contactId = id) =
      t.names.filter (·.contactId = id) := by
  have hranked : ∀ new ∈ rankedNames c.collation plan t.names, new.contactId ≠ id := by
    rintro new hnew rfl
    obtain ⟨winner, hwinner, hnew⟩ := List.mem_flatMap.mp hnew
    obtain ⟨source, _, hnew⟩ := List.mem_filterMap.mp hnew
    obtain ⟨n, _, rfl⟩ := Option.map_eq_some_iff.mp hnew
    exact hwins hwinner
  change ((rankedNames c.collation plan t.names).foldl (upsertName c.collation now)
    t.names).filter (·.contactId = id) = _
  generalize rankedNames c.collation plan t.names = rows at hranked
  generalize t.names = names
  induction rows generalizing names with
  | nil => rfl
  | cons new rows ih =>
    rw [List.foldl_cons, ih (fun n hn => hranked n (List.mem_cons_of_mem new hn)),
      upsertName_others (hranked new List.mem_cons_self)]

theorem enrichMembers_tables (flag : Bool) (t : ContactTables) :
    enrichMembers now plan flag t = { t with
      members := t.members.map fun m =>
        if flag then (enrichedMember now plan t.contacts m).getD m else m } := by
  cases flag with
  | true => rfl
  | false => simp [enrichMembers]

/-- What a transaction that succeeds leaves. -/
theorem reconcile_tables
    (h : reconcileObservedIdentities c now generation leaseToken t = some (u, result)) :
    u.identifiers = t.identifiers.map (moveIdentifier now (mergePlan generation t)) ∧
    u.names = (mergeNames c.collation now (mergePlan generation t) t).names.filter
      (fun n => ¬ Loses (mergePlan generation t) n.contactId) ∧
    u.contacts = (mergeContacts c now (mergePlan generation t) t).contacts ∧
    u.members = t.members.map (mergedMember c now (mergePlan generation t) u.contacts) ∧
    u.evidence = t.evidence.filter (fun e => generation < e.syncGeneration) := by
  obtain ⟨owned, howned, h⟩ := Option.map_eq_some_iff.mp h
  obtain ⟨row, _, howned⟩ := Option.bind_eq_some_iff.mp howned
  obtain ⟨_, howned⟩ := Option.ite_none_right_eq_some.mp howned
  cases howned
  cases h
  rw [enrichMembers_tables]
  exact ⟨rfl, rfl, rfl, List.map_map, rfl⟩

/-- What the merge does to the contacts: the identifiers stay, each component is left with its
earliest contact, and what is connected with nothing else is left as it is. -/
structure Reconciled (generation : ℕ) (t u : ContactTables) : Prop where
  identifiers : u.identifiers.map Identifier.key = t.identifiers.map Identifier.key
  owned : ∀ i ∈ u.identifiers, ∃! contact, contact ∈ u.contacts ∧ contact.id = i.contactId
  shared : ∀ i ∈ t.identifiers, ∀ j ∈ t.identifiers, ∀ i' ∈ u.identifiers, ∀ j' ∈ u.identifiers,
    i'.key = i.key → j'.key = j.key →
      (i'.contactId = j'.contactId ↔ Connected generation t i.contactId j.contactId)
  members : ∀ m ∈ u.members, ∀ id ∈ m.contactId, ∃ contact ∈ u.contacts, contact.id = id
  represented : ∀ contact ∈ t.contacts, ∃ w, Earliest generation t w contact.id ∧
    (∃ w' ∈ u.contacts, w'.id = w.id) ∧
    (∀ d ∈ u.contacts, Connected generation t contact.id d.id → d.id = w.id) ∧
    ∀ i ∈ t.identifiers, i.contactId = contact.id → ∀ i' ∈ u.identifiers, i'.key = i.key →
      i'.contactId = w.id
  untouched : ∀ contact ∈ t.contacts,
    (∀ id, Connected generation t contact.id id → id = contact.id) →
      contact ∈ u.contacts ∧
      u.identifiers.filter (·.contactId = contact.id) =
        t.identifiers.filter (·.contactId = contact.id) ∧
      u.names.filter (·.contactId = contact.id) = t.names.filter (·.contactId = contact.id) ∧
      u.members.filter (·.contactId = some contact.id) =
        t.members.filter (·.contactId = some contact.id)

section Reconciled

variable {c : Config} {now generation leaseToken : ℕ} {t u : ContactTables} {result : MergeResult}
  {id : ContactId}

/-- The contacts that are left are those that are their own representatives. -/
theorem kept_contact (h : reconcileObservedIdentities c now generation leaseToken t =
    some (u, result)) : (∃ contact ∈ u.contacts, contact.id = id) ↔
      (∃ contact ∈ t.contacts, contact.id = id) ∧ ¬ Loses (mergePlan generation t) id := by
  have hids : u.contacts.map Contact.id = (t.contacts.map Contact.id).filter
      (fun id => ¬ Loses (mergePlan generation t) id) := by
    rw [(reconcile_tables h).2.2.1]
    exact merged_contacts.1
  have hmem : id ∈ u.contacts.map Contact.id ↔
      id ∈ (t.contacts.map Contact.id).filter (fun id => ¬ Loses (mergePlan generation t) id) := by
    rw [hids]
  simpa using hmem

theorem moved_kept (h : reconcileObservedIdentities c now generation leaseToken t =
      some (u, result)) {contact : Contact} (hc : contact ∈ t.contacts) :
    ∃ kept ∈ u.contacts, kept.id = moved (mergePlan generation t) contact.id := by
  obtain ⟨w, hw, hmoved⟩ := moved_earliest generation hc
  rw [hmoved]
  refine (kept_contact h).mpr ⟨⟨w, hw.mem, rfl⟩, ?_⟩
  rintro ⟨m, hm, hid⟩
  obtain ⟨_, hne, v, hv, hvid⟩ := mem_mergePlan.mp hm
  rw [hid] at hv
  have hsame := earliest_unique hv (hw.transport hw.connected)
  exact hne (by rw [hid, ← hvid, hsame])

theorem kept_unique (hwf : WellFormed t) (h : reconcileObservedIdentities c now generation
      leaseToken t = some (u, result)) : (u.contacts.map Contact.id).Nodup := by
  rw [(reconcile_tables h).2.2.1, merged_contacts.1]
  exact hwf.contacts.filter _

/-- An identifier is moved with its contact. -/
theorem moved_identifier (hwf : WellFormed t) (h : reconcileObservedIdentities c now generation
      leaseToken t = some (u, result)) {i i' : Identifier} (hi : i ∈ t.identifiers)
    (hi' : i' ∈ u.identifiers) (hkey : i'.key = i.key) :
    i'.contactId = moved (mergePlan generation t) i.contactId := by
  rw [(reconcile_tables h).1] at hi'
  obtain ⟨old, hold, rfl⟩ := List.mem_map.mp hi'
  rw [moveIdentifier_key] at hkey
  have hsame : old = i := List.inj_on_of_nodup_map hwf.identifiers hold hi hkey
  rw [moveIdentifier_contact, hsame]

theorem reconciled_untouched {contact : Contact} (hc : contact ∈ t.contacts)
    (h : reconcileObservedIdentities c now generation leaseToken t = some (u, result))
    (halone : ∀ id, Connected generation t contact.id id → id = contact.id) :
    contact ∈ u.contacts ∧
      u.identifiers.filter (·.contactId = contact.id) =
        t.identifiers.filter (·.contactId = contact.id) ∧
      u.names.filter (·.contactId = contact.id) = t.names.filter (·.contactId = contact.id) ∧
      u.members.filter (·.contactId = some contact.id) =
        t.members.filter (·.contactId = some contact.id) := by
  obtain ⟨hidentifiers, hnames, hcontacts, hmembers, _⟩ := reconcile_tables h
  obtain ⟨hloses, hwins, hother⟩ := isolated_plan halone
  have hback : ∀ id, moved (mergePlan generation t) id = contact.id → id = contact.id := by
    intro id hid
    by_cases hl : Loses (mergePlan generation t) id
    · exact absurd hid (hother id hl)
    · rwa [moved_of_not_loses hl] at hid
  refine ⟨?_, ?_, ?_, ?_⟩
  · rw [hcontacts]
    exact merged_contacts.2 contact hc hloses hwins
  · rw [hidentifiers]
    refine filter_map_fixed (fun i _ hi => if_neg ?_) (fun i _ hi => ?_)
    · rwa [show i.contactId = contact.id by simpa using hi]
    · rw [moveIdentifier_contact] at hi
      simpa using hback i.contactId (by simpa using hi)
  · rw [hnames, List.filter_filter, ← mergeNames_others c now hwins]
    refine List.filter_congr fun n _ => ?_
    by_cases hn : n.contactId = contact.id
    · simp [hn, hloses]
    · simp [hn]
  · rw [hmembers]
    refine filter_map_fixed (fun m _ hm => ?_) (fun m _ hm => ?_)
    · exact mergedMember_untouched (by simpa using hm) hloses hwins
    · rw [mergedMember_contact] at hm
      obtain ⟨id, hid, hmoved⟩ := Option.map_eq_some_iff.mp (by simpa using hm)
      simpa [hid] using hback id hmoved

/-- Merging contacts keeps every identifier and every member with an existing contact. -/
theorem merge_preserves_contacts (hwf : WellFormed t)
    (h : reconcileObservedIdentities c now generation leaseToken t = some (u, result)) :
    Reconciled generation t u := by
  have hidentified : ∀ i ∈ u.identifiers, ∃ contact ∈ u.contacts, contact.id = i.contactId := by
    intro i hi
    rw [(reconcile_tables h).1] at hi
    obtain ⟨old, hold, rfl⟩ := List.mem_map.mp hi
    obtain ⟨contact, hc, hid⟩ := hwf.identified old hold
    rw [moveIdentifier_contact, ← hid]
    exact moved_kept h hc
  constructor
  · rw [(reconcile_tables h).1, List.map_map]
    exact List.map_congr_left fun i _ => moveIdentifier_key i
  · intro i hi
    obtain ⟨contact, hc, hid⟩ := hidentified i hi
    refine ⟨contact, ⟨hc, hid⟩, fun other hother => ?_⟩
    exact List.inj_on_of_nodup_map (kept_unique hwf h) hother.1 hc (hother.2.trans hid.symm)
  · intro i hi j hj i' hi' j' hj' hik hjk
    obtain ⟨a, ha, haid⟩ := hwf.identified i hi
    obtain ⟨b, hb, hbid⟩ := hwf.identified j hj
    rw [moved_identifier hwf h hi hi' hik, moved_identifier hwf h hj hj' hjk, ← haid, ← hbid]
    exact moved_eq_iff ha hb
  · intro m hm id hid
    rw [(reconcile_tables h).2.2.2.1] at hm
    obtain ⟨old, hold, rfl⟩ := List.mem_map.mp hm
    rw [mergedMember_contact] at hid
    obtain ⟨oldId, holdId, rfl⟩ := Option.map_eq_some_iff.mp hid
    obtain ⟨contact, hc, rfl⟩ := hwf.joined old hold oldId holdId
    exact moved_kept h hc
  · intro contact hc
    obtain ⟨w, hw, hmoved⟩ := moved_earliest generation hc
    refine ⟨w, hw, hmoved ▸ moved_kept h hc, fun d hd hconnected => ?_, ?_⟩
    · obtain ⟨⟨d₀, hd₀, hid⟩, hkept⟩ := (kept_contact h).mp ⟨d, hd, rfl⟩
      rw [← moved_of_not_loses hkept, ← hid, ← hmoved]
      exact (moved_eq_iff hd₀ hc).mpr (hid ▸ hconnected.symm)
    · intro i hi hid i' hi' hkey
      rw [moved_identifier hwf h hi hi' hkey, hid, hmoved]
  · exact fun contact hc halone => reconciled_untouched hc h halone

def exampleConfig : Config := ⟨TotalOrder.codePoints, true⟩

def exampleContact (id createdAt : ℕ) : Contact :=
  ⟨id, none, none, createdAt, createdAt, createdAt, createdAt⟩

def exampleName (id observedAt : ℕ) (value key : String) : ContactName :=
  ⟨id, .openwaPushName, value, observedAt, observedAt, observedAt, key, observedAt⟩

/-- A LID whose phone belongs to an older contact, and a contact that has nothing to do with it. -/
def exampleTables : ContactTables where
  contacts := [exampleContact 1 20, exampleContact 2 10, exampleContact 3 30]
  identifiers := [⟨(.lid, "7@lid"), 1, 20, 20⟩, ⟨(.phoneJid, "84@c.us"), 2, 10, 10⟩,
    ⟨(.phone, "84"), 2, 10, 10⟩, ⟨(.lid, "8@lid"), 3, 30, 30⟩]
  names := [exampleName 1 25 "An" "b", exampleName 2 15 "Binh" "a", exampleName 3 30 "Chi" "c"]
  members := [⟨"g", "7@lid", some 1, none, none, none, none, 20⟩]
  evidence := [⟨1, (.lid, "7@lid"), "84"⟩, ⟨1, (.lid, "8@lid"), "85"⟩]
  syncState := some ⟨1, some 9, some 600000⟩

theorem exampleTables_wellFormed : WellFormed exampleTables :=
  ⟨by decide, by decide, by decide, by decide, by decide, by decide⟩

theorem claimed_phone_merged : ∃ u result,
    reconcileObservedIdentities exampleConfig 40 1 9 exampleTables = some (u, result) ∧
      result = ⟨1, 0, 1⟩ ∧ Reconciled 1 exampleTables u := by
  have hresult : (reconcileObservedIdentities exampleConfig 40 1 9 exampleTables).map Prod.snd =
      some ⟨1, 0, 1⟩ := by
    decide +kernel
  obtain ⟨⟨u, result⟩, h, hsnd⟩ := Option.map_eq_some_iff.mp hresult
  exact ⟨u, result, h, hsnd, merge_preserves_contacts exampleTables_wellFormed h⟩

end Reconciled

end Merged

end ContactMerges
