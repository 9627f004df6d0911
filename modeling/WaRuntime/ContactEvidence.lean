import Mathlib.Data.List.Dedup
import WaRuntime.ContactNormalization

/-! The evidence tables of one session and the writer that fills them.
A row gets a random id when it is inserted, and an id that is already taken makes the transaction
fail. The projection work that the writer enqueues is not part of these tables. -/
namespace ContactEvidence

open ContactNormalization

abbrev IdentityId := ℕ

abbrev IdentityKey := ContactIdentityType × String

/-- What the database and the runtime compute on texts: `md5`, and Unicode normalization. -/
structure Texts where
  md5 : String → String
  nfc : String → String

/-- A row of `observed_contact_identities`. -/
structure ObservedIdentity where
  id : IdentityId
  type : ContactIdentityType
  value : String
  firstObservedAt : ℕ
  lastObservedAt : ℕ
  deriving DecidableEq, Repr

def ObservedIdentity.key (identity : ObservedIdentity) : IdentityKey :=
  (identity.type, identity.value)

inductive ObservationSource where
  | openwaContactName
  | groupParticipantName
  | openwaPushName
  deriving DecidableEq, Repr

def ObservationSource.text : ObservationSource → String
  | .openwaContactName => "OPENWA_CONTACT_NAME"
  | .groupParticipantName => "GROUP_PARTICIPANT_NAME"
  | .openwaPushName => "OPENWA_PUSH_NAME"

/-- A row of `contact_observations`; a membership is a group and a participant. -/
structure ContactObservation where
  identityId : IdentityId
  observationSource : ObservationSource
  membership : Option (String × String)
  nameValue : String
  sourceGeneration : Option ℕ
  sourceObservedAt : ℕ
  sourceObservationKey : String
  createdAt : ℕ
  deriving DecidableEq, Repr

inductive EvidenceSource where
  | phoneJidDerivation
  | openwaContactPhone
  deriving DecidableEq, Repr

/-- A row of `contact_link_evidence`. -/
structure LinkEvidence where
  leftIdentityId : IdentityId
  rightIdentityId : IdentityId
  evidenceSource : EvidenceSource
  sourceGeneration : Option ℕ
  sourceObservedAt : ℕ
  sourceObservationKey : String
  createdAt : ℕ
  deriving DecidableEq, Repr

structure EvidenceTables where
  identities : List ObservedIdentity
  observations : List ContactObservation
  links : List LinkEvidence
  deriving DecidableEq, Repr

def EvidenceTables.empty : EvidenceTables := ⟨[], [], []⟩

section Names

/-- `\p{Cc}`. -/
def controlCharacter (c : Char) : Bool := c.toNat < 32 || (127 ≤ c.toNat && c.toNat < 160)

def maxContactNameCodePoints : ℕ := 256

def normalizeContactName (texts : Texts) (rawName : Option String)
    (identity : NormalizedContactIdentity) : Option String :=
  match rawName.map fun raw => texts.nfc (String.ofList (trim raw.toList)) with
  | none => none
  | some name =>
    if name = "" ∨ maxContactNameCodePoints < name.length ∨ name.toList.any controlCharacter ∨
        name = identity.value ∨ some name = identity.phone ∨
        (normalizeContactIdentity name).value = identity.value then none
    else some name

end Names

section Statements

variable (draw : IdentityKey → IdentityId)

/-- INSERT … ON CONFLICT (session_id, identity_type, identity_value) DO UPDATE on one row, observed
at `at_`. -/
def EvidenceTables.upsertIdentity (touch : ObservedIdentity → ObservedIdentity) (key : IdentityKey)
    (at_ : ℕ) (t : EvidenceTables) : Option EvidenceTables :=
  if t.identities.any (·.key == key) then
    some { t with identities := t.identities.map fun i => if i.key = key then touch i else i }
  else if t.identities.any (·.id == draw key) then none
  else some { t with identities := t.identities ++ [⟨draw key, key.1, key.2, at_, at_⟩] }

def EvidenceTables.upsertIdentities (touch : ℕ → ObservedIdentity → ObservedIdentity) :
    List (IdentityKey × ℕ) → EvidenceTables → Option EvidenceTables
  | [], t => some t
  | (key, at_) :: rows, t =>
    match t.upsertIdentity draw (touch at_) key at_ with
    | none => none
    | some u => u.upsertIdentities touch rows

def EvidenceTables.findIdentity (t : EvidenceTables) (key : IdentityKey) :
    Option ObservedIdentity :=
  t.identities.find? (·.key == key)

/-- INSERT … ON CONFLICT (session_id, observation_source, source_observation_key) DO NOTHING. -/
def EvidenceTables.insertObservation (t : EvidenceTables) (row : ContactObservation) :
    EvidenceTables :=
  if t.observations.any fun o => o.observationSource == row.observationSource &&
      o.sourceObservationKey == row.sourceObservationKey then t
  else { t with observations := t.observations ++ [row] }

/-- INSERT … ON CONFLICT (session_id, evidence_source, source_observation_key) DO NOTHING. -/
def EvidenceTables.insertLink (t : EvidenceTables) (row : LinkEvidence) : EvidenceTables :=
  if t.links.any fun l => l.evidenceSource == row.evidenceSource &&
      l.sourceObservationKey == row.sourceObservationKey then t
  else { t with links := t.links ++ [row] }

def EvidenceTables.insertObservations (rows : List ContactObservation) (t : EvidenceTables) :
    EvidenceTables :=
  rows.foldl EvidenceTables.insertObservation t

def EvidenceTables.insertLinks (rows : List LinkEvidence) (t : EvidenceTables) : EvidenceTables :=
  rows.foldl EvidenceTables.insertLink t

/-- The row that joins an identity with the PHONE identity of a phone. -/
def EvidenceTables.linkRow (t : EvidenceTables) (key : IdentityKey) (phone : String)
    (source : EvidenceSource) (generation : Option ℕ) (observedAt : ℕ) (observationKey : String)
    (now : ℕ) : Option LinkEvidence :=
  match t.findIdentity key, t.findIdentity (.phone, phone) with
  | some left, some right =>
    some ⟨left.id, right.id, source, generation, observedAt, observationKey, now⟩
  | _, _ => none

end Statements

structure ContactEvidenceIdentityInput where
  identityType : ContactIdentityType
  identityValue : String
  phone : Option String
  participantId : Option String
  participantName : Option String
  deriving DecidableEq, Repr

def ContactEvidenceIdentityInput.key (input : ContactEvidenceIdentityInput) : IdentityKey :=
  (input.identityType, input.identityValue)

/-- A row of `contact_snapshot_observations`. -/
structure SnapshotObservation where
  identityType : ContactIdentityType
  identityValue : String
  phone : Option String
  contactName : Option String
  pushName : Option String
  sourceObservedAt : ℕ
  sourceObservationKey : String
  deriving DecidableEq, Repr

def SnapshotObservation.key (o : SnapshotObservation) : IdentityKey :=
  (o.identityType, o.identityValue)

section Writer

variable (texts : Texts) (draw : IdentityKey → IdentityId) (now : ℕ)

/-- An identity that is seen again by a group or a message. -/
def touchInput (now : ℕ) (identity : ObservedIdentity) : ObservedIdentity :=
  { identity with lastObservedAt := now }

/-- An identity that a snapshot has observed too. -/
def touchSnapshot (at_ : ℕ) (identity : ObservedIdentity) : ObservedIdentity :=
  { identity with
    firstObservedAt := min identity.firstObservedAt at_
    lastObservedAt := max identity.lastObservedAt at_ }

/-- The distinct phones, each with its type. -/
def phoneKeys (phones : List String) : List IdentityKey :=
  phones.dedup.map fun phone => (.phone, phone)

def upsertInputIdentities (inputs : List ContactEvidenceIdentityInput) (t : EvidenceTables) :
    Option EvidenceTables :=
  t.upsertIdentities draw touchInput
    (((inputs.map ContactEvidenceIdentityInput.key).dedup ++
      phoneKeys (inputs.filterMap ContactEvidenceIdentityInput.phone)).map fun key => (key, now))

def derivedLink (generation : Option ℕ) (t : EvidenceTables) (input : ContactEvidenceIdentityInput) :
    Option LinkEvidence :=
  if input.identityType = .phoneJid then
    input.phone.bind fun phone => t.linkRow input.key phone .phoneJidDerivation generation now
      ("derived:" ++ texts.md5 (input.identityValue ++ ":" ++ phone)) now
  else none

def insertInputLinks (inputs : List ContactEvidenceIdentityInput) (generation : Option ℕ)
    (t : EvidenceTables) : EvidenceTables :=
  t.insertLinks (inputs.filterMap (derivedLink texts now generation t))

def groupObservation (groupId : String) (t : EvidenceTables)
    (input : ContactEvidenceIdentityInput) : Option ContactObservation :=
  match t.findIdentity input.key, input.participantId, input.participantName with
  | some identity, some participantId, some name =>
    some ⟨identity.id, .groupParticipantName, some (groupId, participantId), name, none, now,
      "group:" ++ texts.md5 (groupId ++ ":" ++ participantId ++ ":" ++ name), now⟩
  | _, _, _ => none

def observeGroupMembers (groupId : String) (inputs : List ContactEvidenceIdentityInput)
    (t : EvidenceTables) : Option EvidenceTables :=
  (upsertInputIdentities draw now inputs t).map fun t =>
    insertInputLinks texts now inputs none
      (t.insertObservations (inputs.filterMap (groupObservation texts now groupId t)))

def messageObservation (pushName : String) (observedAt : ℕ) (observationKey : String)
    (t : EvidenceTables) (input : ContactEvidenceIdentityInput) : Option ContactObservation :=
  (t.findIdentity input.key).map fun identity =>
    ⟨identity.id, .openwaPushName, none, pushName, none, observedAt, observationKey, now⟩

def observeMessageSender (input : ContactEvidenceIdentityInput) (pushName : String)
    (observedAt : ℕ) (observationKey : String) (t : EvidenceTables) : Option EvidenceTables :=
  (upsertInputIdentities draw now [input] t).map fun t =>
    insertInputLinks texts now [input] none
      (t.insertObservations
        ([input].filterMap (messageObservation now pushName observedAt observationKey t)))

/-- The instant that DISTINCT ON takes for a phone: the last at which the snapshot observed it. -/
def phoneObservedAt (staged : List SnapshotObservation) (phone : String) : ℕ :=
  ((staged.filter (·.phone = some phone)).map SnapshotObservation.sourceObservedAt).foldr max 0

def nameObservation (generation : ℕ) (t : EvidenceTables) (o : SnapshotObservation)
    (source : ObservationSource) (name : Option String) : Option ContactObservation :=
  match t.findIdentity o.key, name with
  | some identity, some name =>
    some ⟨identity.id, source, none, name, some generation, o.sourceObservedAt,
      o.sourceObservationKey ++ ":" ++ source.text, now⟩
  | _, _ => none

def phoneSource (o : SnapshotObservation) : EvidenceSource :=
  if o.identityType = .phoneJid then .phoneJidDerivation else .openwaContactPhone

def phoneLink (generation : ℕ) (t : EvidenceTables) (o : SnapshotObservation) :
    Option LinkEvidence :=
  o.phone.bind fun phone => t.linkRow o.key phone (phoneSource o) (some generation)
    o.sourceObservedAt (o.sourceObservationKey ++ ":phone") now

/-- `staged` are the staged rows of the generation. -/
def publishSnapshot (generation : ℕ) (staged : List SnapshotObservation) (t : EvidenceTables) :
    Option EvidenceTables :=
  (t.upsertIdentities draw touchSnapshot (staged.map fun o => (o.key, o.sourceObservedAt))).bind
    fun t =>
  (t.upsertIdentities draw touchSnapshot
    ((phoneKeys (staged.filterMap SnapshotObservation.phone)).map fun key =>
      (key, phoneObservedAt staged key.2))).map fun t =>
  let t := t.insertObservations (staged.flatMap fun o =>
    (nameObservation now generation t o .openwaContactName o.contactName).toList ++
      (nameObservation now generation t o .openwaPushName o.pushName).toList)
  t.insertLinks (staged.filterMap (phoneLink now generation t))

end Writer

section Inputs

variable (texts : Texts)

/-- What `seedGroupMembers` hands to the writer for a participant. -/
def participantInput (id : String) (name : Option String) : ContactEvidenceIdentityInput :=
  let identity := normalizeContactIdentity id
  ⟨identity.type, identity.value, identity.phone, some id, normalizeContactName texts name identity⟩

/-- What `observeMessageSender` of the repository hands to the writer, if anything. -/
def senderInput (rawIdentity : String) (rawPushName : Option String) :
    Option (ContactEvidenceIdentityInput × String) :=
  let identity := normalizeContactIdentity rawIdentity
  if identity.type ≠ .lid ∧ identity.type ≠ .phoneJid then none
  else (normalizeContactName texts rawPushName identity).map fun pushName =>
    (⟨identity.type, identity.value, identity.phone, none, none⟩, pushName)

structure OpenWAContact where
  id : String
  number : String
  name : Option String
  pushName : Option String
  deriving DecidableEq, Repr

/-- A contact of a page as it is staged: `ingestObservedPage` up to its transaction. -/
def contactRow (observedAt : ℕ) (observationKey : IdentityKey → String) (contact : OpenWAContact) :
    SnapshotObservation :=
  let identity := normalizeContactIdentity contact.id
  let upstreamPhone := trim contact.number.toList
  { identityType := identity.type
    identityValue := identity.value
    phone :=
      if identity.type = .lid then
        if allDigits upstreamPhone ∧
            upstreamPhone ≠ replaceAtEnd [literal "@lid"] [] identity.value.toList then
          some (String.ofList upstreamPhone)
        else none
      else identity.phone
    contactName := normalizeContactName texts contact.name identity
    pushName := normalizeContactName texts contact.pushName identity
    sourceObservedAt := observedAt
    sourceObservationKey := observationKey (identity.type, identity.value) }

end Inputs

section Specifications

variable {texts : Texts} {draw : IdentityKey → IdentityId} {t u v : EvidenceTables}
  {touch : ObservedIdentity → ObservedIdentity} {key : IdentityKey} {at_ now generation : ℕ}

/-- An UPDATE of an identity keeps what it is, and does not make it look newer. -/
def Touches (touch : ObservedIdentity → ObservedIdentity) : Prop :=
  ∀ i, (touch i).id = i.id ∧ (touch i).key = i.key ∧ (touch i).firstObservedAt ≤ i.firstObservedAt

theorem touches_input (now : ℕ) : Touches (touchInput now) := fun _ => ⟨rfl, rfl, le_rfl⟩

theorem touches_snapshot (at_ : ℕ) : Touches (touchSnapshot at_) :=
  fun _ => ⟨rfl, rfl, min_le_left _ _⟩

/-- No identity gets lost, changes its key or looks newer. -/
def Extends (t u : EvidenceTables) : Prop :=
  ∀ i ∈ t.identities, ∃ j ∈ u.identities, j.id = i.id ∧ j.key = i.key ∧
    j.firstObservedAt ≤ i.firstObservedAt

theorem extends_refl (t : EvidenceTables) : Extends t t := fun i hi => ⟨i, hi, rfl, rfl, le_rfl⟩

theorem extends_trans (h : Extends t u) (k : Extends u v) : Extends t v := by
  intro i hi
  obtain ⟨j, hj, hid, hkey, hfirst⟩ := h i hi
  obtain ⟨l, hl, hid', hkey', hfirst'⟩ := k j hj
  exact ⟨l, hl, hid'.trans hid, hkey'.trans hkey, hfirst'.trans hfirst⟩

/-- Both keys of `observed_contact_identities`. -/
structure Identified (t : EvidenceTables) : Prop where
  ids : (t.identities.map ObservedIdentity.id).Nodup
  keys : (t.identities.map ObservedIdentity.key).Nodup

theorem identified_key (h : Identified t) {i j : ObservedIdentity} (hi : i ∈ t.identities)
    (hj : j ∈ t.identities) (hk : i.key = j.key) : i = j :=
  List.inj_on_of_nodup_map h.keys hi hj hk

theorem identified_id (h : Identified t) {i j : ObservedIdentity} (hi : i ∈ t.identities)
    (hj : j ∈ t.identities) (hid : i.id = j.id) : i = j :=
  List.inj_on_of_nodup_map h.ids hi hj hid

theorem upsertIdentity_some (h : t.upsertIdentity draw touch key at_ = some u) :
    ((∃ i ∈ t.identities, i.key = key) ∧
      u = { t with identities := t.identities.map fun i => if i.key = key then touch i else i }) ∨
    ((∀ i ∈ t.identities, i.key ≠ key ∧ i.id ≠ draw key) ∧
      u = { t with identities := t.identities ++ [⟨draw key, key.1, key.2, at_, at_⟩] }) := by
  unfold EvidenceTables.upsertIdentity at h
  split at h
  · rename_i hfound
    cases h
    exact .inl ⟨by simpa using hfound, rfl⟩
  · rename_i hfound
    split at h
    · cases h
    · rename_i hfree
      cases h
      refine .inr ⟨fun i hi => ⟨fun hk => hfound ?_, fun hid => hfree ?_⟩, rfl⟩
      · simpa using ⟨i, hi, hk⟩
      · simpa using ⟨i, hi, hid⟩

theorem upsertIdentity_spec (htouch : Touches touch)
    (h : t.upsertIdentity draw touch key at_ = some u) (ht : Identified t) :
    Extends t u ∧ Identified u ∧ u.observations = t.observations ∧ u.links = t.links ∧
      ∃ j ∈ u.identities, j.key = key ∧
        ((∃ i ∈ t.identities, j = touch i) ∨ j.firstObservedAt = at_) := by
  rcases upsertIdentity_some h with ⟨⟨i, hi, hik⟩, rfl⟩ | ⟨hfresh, rfl⟩
  · have hid : ∀ i : ObservedIdentity, (if i.key = key then touch i else i).id = i.id ∧
        (if i.key = key then touch i else i).key = i.key ∧
        (if i.key = key then touch i else i).firstObservedAt ≤ i.firstObservedAt := by
      intro i
      split
      · exact htouch i
      · exact ⟨rfl, rfl, le_rfl⟩
    refine ⟨?_, ⟨?_, ?_⟩, rfl, rfl, touch i, ?_, (htouch i).2.1.trans hik, .inl ⟨i, hi, rfl⟩⟩
    · intro i hi
      exact ⟨_, List.mem_map_of_mem hi, hid i⟩
    · rw [List.map_map]
      have hsame : ObservedIdentity.id ∘ (fun i => if i.key = key then touch i else i) =
          ObservedIdentity.id := funext fun i => (hid i).1
      rw [hsame]
      exact ht.ids
    · rw [List.map_map]
      have hsame : ObservedIdentity.key ∘ (fun i => if i.key = key then touch i else i) =
          ObservedIdentity.key := funext fun i => (hid i).2.1
      rw [hsame]
      exact ht.keys
    · refine List.mem_map.mpr ⟨i, hi, ?_⟩
      simp [hik]
  · refine ⟨?_, ⟨?_, ?_⟩, rfl, rfl, _, List.mem_append_right _ (List.mem_singleton_self _), rfl,
      .inr rfl⟩
    · intro i hi
      exact ⟨i, List.mem_append_left _ hi, rfl, rfl, le_rfl⟩
    · rw [List.map_append, List.map_singleton]
      refine List.Nodup.append ht.ids (List.nodup_singleton _) ?_
      intro id hid hnew
      obtain ⟨i, hi, rfl⟩ := List.mem_map.mp hid
      exact (hfresh i hi).2 (List.mem_singleton.mp hnew)
    · rw [List.map_append, List.map_singleton]
      refine List.Nodup.append ht.keys (List.nodup_singleton _) ?_
      intro k hk hnew
      obtain ⟨i, hi, rfl⟩ := List.mem_map.mp hk
      exact (hfresh i hi).1 (List.mem_singleton.mp hnew)

/-- Every row of the statement finds its identity afterwards; where an UPDATE takes the earlier
instant, that identity is as old as the row. -/
theorem upsertIdentities_spec {touch : ℕ → ObservedIdentity → ObservedIdentity}
    (htouch : ∀ at_, Touches (touch at_)) {rows : List (IdentityKey × ℕ)}
    (h : t.upsertIdentities draw touch rows = some u) (ht : Identified t) :
    Extends t u ∧ Identified u ∧ u.observations = t.observations ∧ u.links = t.links ∧
      ∀ row ∈ rows, ∃ j ∈ u.identities, j.key = row.1 ∧
        ((∀ at_ i, (touch at_ i).firstObservedAt ≤ at_) → j.firstObservedAt ≤ row.2) := by
  induction rows generalizing t with
  | nil =>
    cases h
    exact ⟨extends_refl _, ht, rfl, rfl, fun _ hrow => nomatch hrow⟩
  | cons row rows ih =>
    obtain ⟨key, at_⟩ := row
    unfold EvidenceTables.upsertIdentities at h
    split at h
    · cases h
    · rename_i w hw
      obtain ⟨hext, hw', hobs, hlinks, j, hj, hjk, hage⟩ := upsertIdentity_spec (htouch at_) hw ht
      obtain ⟨hext', hu, hobs', hlinks', hrows⟩ := ih h hw'
      refine ⟨extends_trans hext hext', hu, hobs'.trans hobs, hlinks'.trans hlinks, ?_⟩
      intro row hrow
      rcases List.mem_cons.mp hrow with rfl | hrow
      · obtain ⟨l, hl, _, hlk, hfirst⟩ := hext' j hj
        refine ⟨l, hl, hlk.trans hjk, fun hmin => hfirst.trans ?_⟩
        rcases hage with ⟨i, _, rfl⟩ | hage
        · exact hmin at_ i
        · exact hage.le
      · exact hrows row hrow

theorem insertObservations_spec (rows : List ContactObservation) (t : EvidenceTables) :
    (t.insertObservations rows).identities = t.identities ∧
      (t.insertObservations rows).links = t.links ∧
      ∀ o ∈ (t.insertObservations rows).observations, o ∈ t.observations ∨ o ∈ rows := by
  unfold EvidenceTables.insertObservations
  induction rows generalizing t with
  | nil => exact ⟨rfl, rfl, fun o ho => .inl ho⟩
  | cons row rows ih =>
    obtain ⟨hids, hlinks, hobs⟩ := ih (t.insertObservation row)
    have hone : (t.insertObservation row).identities = t.identities ∧
        (t.insertObservation row).links = t.links ∧
        ∀ o ∈ (t.insertObservation row).observations, o ∈ t.observations ∨ o = row := by
      unfold EvidenceTables.insertObservation
      split
      · exact ⟨rfl, rfl, fun o ho => .inl ho⟩
      · exact ⟨rfl, rfl, fun o ho => (List.mem_append.mp ho).imp id List.mem_singleton.mp⟩
    refine ⟨hids.trans hone.1, hlinks.trans hone.2.1, fun o ho => ?_⟩
    rcases hobs o ho with ho | ho
    · rcases hone.2.2 o ho with ho | rfl
      · exact .inl ho
      · exact .inr List.mem_cons_self
    · exact .inr (List.mem_cons_of_mem _ ho)

theorem insertLinks_spec (rows : List LinkEvidence) (t : EvidenceTables) :
    (t.insertLinks rows).identities = t.identities ∧
      (t.insertLinks rows).observations = t.observations ∧
      ∀ l ∈ (t.insertLinks rows).links, l ∈ t.links ∨ l ∈ rows := by
  unfold EvidenceTables.insertLinks
  induction rows generalizing t with
  | nil => exact ⟨rfl, rfl, fun l hl => .inl hl⟩
  | cons row rows ih =>
    obtain ⟨hids, hobs, hlinks⟩ := ih (t.insertLink row)
    have hone : (t.insertLink row).identities = t.identities ∧
        (t.insertLink row).observations = t.observations ∧
        ∀ l ∈ (t.insertLink row).links, l ∈ t.links ∨ l = row := by
      unfold EvidenceTables.insertLink
      split
      · exact ⟨rfl, rfl, fun l hl => .inl hl⟩
      · exact ⟨rfl, rfl, fun l hl => (List.mem_append.mp hl).imp id List.mem_singleton.mp⟩
    refine ⟨hids.trans hone.1, hobs.trans hone.2.1, fun l hl => ?_⟩
    rcases hlinks l hl with hl | hl
    · rcases hone.2.2 l hl with hl | rfl
      · exact .inl hl
      · exact .inr List.mem_cons_self
    · exact .inr (List.mem_cons_of_mem _ hl)

theorem findIdentity_some {i : ObservedIdentity} (h : t.findIdentity key = some i) :
    i ∈ t.identities ∧ i.key = key := by
  unfold EvidenceTables.findIdentity at h
  exact ⟨List.mem_of_find?_eq_some h, by simpa using List.find?_some h⟩

/-- A link row names the two identities it was made from. -/
theorem linkRow_some {phone observationKey : String} {source : EvidenceSource} {g : Option ℕ}
    {l : LinkEvidence} (h : t.linkRow key phone source g at_ observationKey now = some l) :
    l.evidenceSource = source ∧ l.sourceGeneration = g ∧ l.sourceObservedAt = at_ ∧
      ∃ i ∈ t.identities, ∃ j ∈ t.identities, i.id = l.leftIdentityId ∧
        j.id = l.rightIdentityId ∧ i.key = key ∧ j.key = (.phone, phone) := by
  unfold EvidenceTables.linkRow at h
  split at h
  · rename_i i j hi hj
    cases h
    obtain ⟨him, hik⟩ := findIdentity_some hi
    obtain ⟨hjm, hjk⟩ := findIdentity_some hj
    exact ⟨rfl, rfl, rfl, i, him, j, hjm, rfl, rfl, hik, hjk⟩
  · cases h

/-- What the normalization leaves of an identity and its phone: a phone JID carries its phone, and
of the other identities only a LID may have one. -/
def PhoneFits (type : ContactIdentityType) (value : String) (phone : Option String) : Prop :=
  match type with
  | .phoneJid => ∃ digits, phone = some digits ∧ value = digits ++ "@c.us"
  | .lid => True
  | .otherJid => phone = none
  | .phone => False

theorem normalized_fits (rawIdentity : String) :
    PhoneFits (normalizeContactIdentity rawIdentity).type
      (normalizeContactIdentity rawIdentity).value (normalizeContactIdentity rawIdentity).phone := by
  unfold normalizeContactIdentity
  dsimp only
  split
  · trivial
  · split
    · exact ⟨_, rfl, rfl⟩
    · rfl

theorem contactRow_fits (observationKey : IdentityKey → String) (contact : OpenWAContact) :
    PhoneFits (contactRow texts at_ observationKey contact).identityType
      (contactRow texts at_ observationKey contact).identityValue
      (contactRow texts at_ observationKey contact).phone := by
  have hfits := normalized_fits contact.id
  unfold contactRow
  dsimp only
  cases htype : (normalizeContactIdentity contact.id).type with
  | lid => trivial
  | phone => simp [htype, PhoneFits] at hfits
  | phoneJid => simpa [htype] using hfits
  | otherJid => simpa [htype, PhoneFits] using hfits

/-- The link of a phone JID is to the phone it carries; a contact links a LID, under the generation
that observed it, and the LID is at least that old. -/
def Justified (t : EvidenceTables) (l : LinkEvidence) : Prop :=
  ∃ i ∈ t.identities, ∃ j ∈ t.identities, i.id = l.leftIdentityId ∧ j.id = l.rightIdentityId ∧
    j.type = .phone ∧
    match l.evidenceSource with
    | .phoneJidDerivation => i.type = .phoneJid ∧ i.value = j.value ++ "@c.us"
    | .openwaContactPhone =>
      i.type = .lid ∧ l.sourceGeneration ≠ none ∧ i.firstObservedAt ≤ l.sourceObservedAt

theorem justified_extends {l : LinkEvidence} (h : Justified t l) (hext : Extends t u) :
    Justified u l := by
  obtain ⟨i, hi, j, hj, hleft, hright, hphone, hsource⟩ := h
  obtain ⟨i', hi', hid, hkey, hfirst⟩ := hext i hi
  obtain ⟨j', hj', hjd, hjkey, _⟩ := hext j hj
  have htype : i'.type = i.type := congrArg Prod.fst hkey
  have hvalue : i'.value = i.value := congrArg Prod.snd hkey
  have hjtype : j'.type = j.type := congrArg Prod.fst hjkey
  have hjvalue : j'.value = j.value := congrArg Prod.snd hjkey
  refine ⟨i', hi', j', hj', hid.trans hleft, hjd.trans hright, hjtype.trans hphone, ?_⟩
  rw [htype, hvalue, hjvalue]
  cases hs : l.evidenceSource with
  | phoneJidDerivation => simpa [hs] using hsource
  | openwaContactPhone =>
    simp only [hs] at hsource
    exact ⟨hsource.1, hsource.2.1, hfirst.trans hsource.2.2⟩

/-- The evidence tables of a session: identities under their keys, and links with a reason. -/
structure Sound (t : EvidenceTables) : Prop where
  identified : Identified t
  justified : ∀ l ∈ t.links, Justified t l

theorem sound_empty : Sound EvidenceTables.empty :=
  ⟨⟨List.nodup_nil, List.nodup_nil⟩, fun _ hl => nomatch hl⟩

/-- The observations and links that are new in `u` have the source generation, and the links were
observed at one of the times. -/
structure Adds (source : Option ℕ) (times : ℕ → Prop) (t u : EvidenceTables) : Prop where
  observations : ∀ o ∈ u.observations, o ∈ t.observations ∨ o.sourceGeneration = source
  links : ∀ l ∈ u.links, l ∈ t.links ∨ (l.sourceGeneration = source ∧ times l.sourceObservedAt)

theorem upsertInputIdentities_spec {inputs : List ContactEvidenceIdentityInput}
    (h : upsertInputIdentities draw now inputs t = some u) (ht : Identified t) :
    Extends t u ∧ Identified u ∧ u.observations = t.observations ∧ u.links = t.links := by
  obtain ⟨hext, hu, hobs, hlinks, _⟩ := upsertIdentities_spec touches_input h ht
  exact ⟨hext, hu, hobs, hlinks⟩

/-- The tail of both `observe` functions: observations without a generation, then derived links. -/
theorem derived_links_spec {inputs : List ContactEvidenceIdentityInput}
    {rows : List ContactObservation} (hext : Extends t u) (hu : Identified u)
    (hobs : u.observations = t.observations) (hlinks : u.links = t.links) (ht : Sound t)
    (hrows : ∀ o ∈ rows, o.sourceGeneration = none)
    (hinputs : ∀ input ∈ inputs, PhoneFits input.identityType input.identityValue input.phone) :
    let v := insertInputLinks texts now inputs none (u.insertObservations rows)
    Extends t v ∧ Sound v ∧ Adds none (fun _ => True) t v := by
  intro v
  obtain ⟨hids₁, hlinks₁, hobs₁⟩ := insertObservations_spec rows u
  obtain ⟨hids₂, hobs₂, hlinks₂⟩ := insertLinks_spec
    (inputs.filterMap (derivedLink texts now none (u.insertObservations rows)))
    (u.insertObservations rows)
  have hids : v.identities = u.identities := hids₂.trans hids₁
  have hext' : Extends t v := by
    intro i hi
    obtain ⟨j, hj, hrest⟩ := hext i hi
    exact ⟨j, hids ▸ hj, hrest⟩
  have hnew : ∀ l ∈ v.links, l ∈ t.links ∨ (Justified v l ∧ l.sourceGeneration = none) := by
    intro l hl
    rcases hlinks₂ l hl with hl | hl
    · rw [hlinks₁, hlinks] at hl
      exact .inl hl
    · right
      obtain ⟨input, hinput, hrow⟩ := List.mem_filterMap.mp hl
      unfold derivedLink at hrow
      split at hrow
      · rename_i htype
        obtain ⟨phone, hphone, hrow⟩ := Option.bind_eq_some_iff.mp hrow
        obtain ⟨hsource, hg, _, i, hi, j, hj, hleft, hright, hik, hjk⟩ := linkRow_some hrow
        have hfits := hinputs input hinput
        simp only [PhoneFits, htype, hphone, Option.some.injEq] at hfits
        obtain ⟨digits, rfl, hvalue⟩ := hfits
        rw [hids₁, ← hids] at hi hj
        refine ⟨⟨i, hi, j, hj, hleft, hright, congrArg Prod.fst hjk, ?_⟩, hg⟩
        have hit : i.type = input.identityType := congrArg Prod.fst hik
        have hiv : i.value = input.identityValue := congrArg Prod.snd hik
        have hjv : j.value = phone := congrArg Prod.snd hjk
        rw [hsource]
        exact ⟨hit.trans htype, by rw [hiv, hjv, hvalue]⟩
      · cases hrow
  refine ⟨hext', ⟨⟨by rw [hids]; exact hu.ids, by rw [hids]; exact hu.keys⟩, ?_⟩, ⟨?_, ?_⟩⟩
  · intro l hl
    rcases hnew l hl with hl | hl
    · exact justified_extends (ht.justified l hl) hext'
    · exact hl.1
  · intro o ho
    have ho' : o ∈ (u.insertObservations rows).observations := hobs₂ ▸ ho
    rcases hobs₁ o ho' with ho' | ho'
    · exact .inl (hobs ▸ ho')
    · exact .inr (hrows o ho')
  · intro l hl
    exact (hnew l hl).imp id fun h => ⟨h.2, trivial⟩

theorem observeGroupMembers_spec {groupId : String} {inputs : List ContactEvidenceIdentityInput}
    (h : observeGroupMembers texts draw now groupId inputs t = some u) (ht : Sound t)
    (hinputs : ∀ input ∈ inputs, PhoneFits input.identityType input.identityValue input.phone) :
    Extends t u ∧ Sound u ∧ Adds none (fun _ => True) t u := by
  obtain ⟨w, hw, rfl⟩ := Option.map_eq_some_iff.mp h
  obtain ⟨hext, hu, hobs, hlinks⟩ := upsertInputIdentities_spec hw ht.identified
  refine derived_links_spec hext hu hobs hlinks ht ?_ hinputs
  intro o ho
  obtain ⟨input, _, hrow⟩ := List.mem_filterMap.mp ho
  unfold groupObservation at hrow
  split at hrow
  · cases hrow
    rfl
  · cases hrow

theorem observeMessageSender_spec {input : ContactEvidenceIdentityInput}
    {pushName observationKey : String}
    (h : observeMessageSender texts draw now input pushName at_ observationKey t = some u)
    (ht : Sound t) (hinput : PhoneFits input.identityType input.identityValue input.phone) :
    Extends t u ∧ Sound u ∧ Adds none (fun _ => True) t u := by
  obtain ⟨w, hw, rfl⟩ := Option.map_eq_some_iff.mp h
  obtain ⟨hext, hu, hobs, hlinks⟩ := upsertInputIdentities_spec hw ht.identified
  refine derived_links_spec hext hu hobs hlinks ht ?_ ?_
  · intro o ho
    obtain ⟨input, _, hrow⟩ := List.mem_filterMap.mp ho
    obtain ⟨_, _, rfl⟩ := Option.map_eq_some_iff.mp hrow
    rfl
  · intro other hother
    rw [List.mem_singleton.mp hother]
    exact hinput

/-- A publication adds rows of its own generation only, and each link it adds has a reason. -/
theorem publishSnapshot_spec {staged : List SnapshotObservation}
    (h : publishSnapshot draw now generation staged t = some u) (ht : Sound t)
    (hstaged : ∀ o ∈ staged, PhoneFits o.identityType o.identityValue o.phone) :
    Extends t u ∧ Sound u ∧
      Adds (some generation) (fun at_ => ∃ o ∈ staged, at_ = o.sourceObservedAt) t u := by
  obtain ⟨w₁, hw₁, h⟩ := Option.bind_eq_some_iff.mp h
  obtain ⟨w₂, hw₂, rfl⟩ := Option.map_eq_some_iff.mp h
  obtain ⟨hext₁, hid₁, hobs₁, hlinks₁, hfound⟩ :=
    upsertIdentities_spec touches_snapshot hw₁ ht.identified
  obtain ⟨hext₂, hid₂, hobs₂, hlinks₂, _⟩ := upsertIdentities_spec touches_snapshot hw₂ hid₁
  generalize hnames : (staged.flatMap fun o =>
    (nameObservation now generation w₂ o .openwaContactName o.contactName).toList ++
      (nameObservation now generation w₂ o .openwaPushName o.pushName).toList) = names
  obtain ⟨hids₃, hlinks₃, hobs₃⟩ := insertObservations_spec names w₂
  obtain ⟨hids₄, hobs₄, hlinks₄⟩ := insertLinks_spec
    (staged.filterMap (phoneLink now generation (w₂.insertObservations names)))
    (w₂.insertObservations names)
  have hnamed : ∀ o ∈ names, o.sourceGeneration = some generation := by
    intro row hrow
    rw [← hnames] at hrow
    obtain ⟨o, _, hrow⟩ := List.mem_flatMap.mp hrow
    have hone : ∀ source name, nameObservation now generation w₂ o source name = some row →
        row.sourceGeneration = some generation := by
      intro source name heq
      unfold nameObservation at heq
      split at heq
      · cases heq
        rfl
      · cases heq
    rcases List.mem_append.mp hrow with hrow | hrow
    · exact hone _ _ (Option.mem_toList.mp hrow)
    · exact hone _ _ (Option.mem_toList.mp hrow)
  generalize hv : (w₂.insertObservations names).insertLinks
    (staged.filterMap (phoneLink now generation (w₂.insertObservations names))) = v at *
  have hids : v.identities = w₂.identities := hids₄.trans hids₃
  have hext : Extends t v := by
    intro i hi
    obtain ⟨j, hj, hrest⟩ := extends_trans hext₁ hext₂ i hi
    exact ⟨j, hids ▸ hj, hrest⟩
  have hnew : ∀ l ∈ v.links, l ∈ t.links ∨ (Justified v l ∧
      l.sourceGeneration = some generation ∧
        ∃ o ∈ staged, l.sourceObservedAt = o.sourceObservedAt) := by
    intro l hl
    rcases hlinks₄ l hl with hl | hl
    · rw [hlinks₃, hlinks₂, hlinks₁] at hl
      exact .inl hl
    · right
      obtain ⟨o, ho, hrow⟩ := List.mem_filterMap.mp hl
      obtain ⟨phone, hphone, hrow⟩ := Option.bind_eq_some_iff.mp hrow
      obtain ⟨hsource, hg, hat, i, hi, j, hj, hleft, hright, hik, hjk⟩ := linkRow_some hrow
      rw [hids₃, ← hids] at hi hj
      refine ⟨⟨i, hi, j, hj, hleft, hright, congrArg Prod.fst hjk, ?_⟩, hg, o, ho, hat⟩
      have hit : i.type = o.identityType := congrArg Prod.fst hik
      have hiv : i.value = o.identityValue := congrArg Prod.snd hik
      have hjv : j.value = phone := congrArg Prod.snd hjk
      have hfits := hstaged o ho
      rw [hsource]
      by_cases htype : o.identityType = .phoneJid
      · simp only [PhoneFits, htype, hphone, Option.some.injEq] at hfits
        obtain ⟨digits, rfl, hvalue⟩ := hfits
        simp only [phoneSource, htype, if_true]
        exact ⟨hit.trans htype, by rw [hiv, hjv, hvalue]⟩
      · have hlid : o.identityType = .lid := by
          cases hcase : o.identityType with
          | lid => rfl
          | phoneJid => exact absurd hcase htype
          | phone => simp [PhoneFits, hcase] at hfits
          | otherJid => simp [PhoneFits, hcase, hphone] at hfits
        simp only [phoneSource, htype, if_false]
        refine ⟨hit.trans hlid, by simp [hg], ?_⟩
        -- the identity of the staged row, as old as the row, is the one the link was made from
        obtain ⟨k, hk, hkk, hage⟩ := hfound (o.key, o.sourceObservedAt) (List.mem_map_of_mem ho)
        obtain ⟨k', hk', _, hkk', hfirst⟩ := hext₂ k hk
        have hsame : k' = i :=
          identified_key hid₂ hk' (hids ▸ hi) ((hkk'.trans hkk).trans hik.symm)
        rw [hat, ← hsame]
        exact hfirst.trans (hage fun at_ i => min_le_right _ _)
  refine ⟨hext, ⟨⟨by rw [hids]; exact hid₂.ids, by rw [hids]; exact hid₂.keys⟩, ?_⟩, ⟨?_, ?_⟩⟩
  · intro l hl
    rcases hnew l hl with hl | hl
    · exact justified_extends (ht.justified l hl) hext
    · exact hl.1
  · intro o ho
    rw [hobs₄] at ho
    rcases hobs₃ o ho with ho | ho
    · rw [hobs₂, hobs₁] at ho
      exact .inl ho
    · exact .inr (hnamed o ho)
  · intro l hl
    exact (hnew l hl).imp id And.right

end Specifications

end ContactEvidence
