import WaRuntime.ContactEvidence

/-! The evidence that SQL derives from the rows of the group members, page by page. Which rows a
page has is left to its cursor and its LIMIT. -/
namespace EvidenceBackfill

open ContactNormalization ContactEvidence

/-- The columns of `group_members` that evidence is derived from, and those it is written to. -/
structure GroupMember where
  groupId : String
  participantId : String
  identityType : Option ContactIdentityType
  resolvedPhoneNumber : Option String
  evidenceIdentityId : Option IdentityId
  participantDisplayName : Option String
  syncedAt : ℕ
  deriving DecidableEq, Repr

/-- A row of `member_evidence_backfill_page`. -/
structure PageRow where
  groupId : String
  participantId : String
  identity : NormalizedContactIdentity
  participantDisplayName : Option String
  syncedAt : ℕ
  deriving DecidableEq, Repr

def PageRow.key (row : PageRow) : IdentityKey := (row.identity.type, row.identity.value)

section Statements

def pageRow (m : GroupMember) : PageRow :=
  ⟨m.groupId, m.participantId, memberEvidence m.participantId m.resolvedPhoneNumber,
    m.participantDisplayName, m.syncedAt⟩

variable (texts : Texts) (draw : IdentityKey → IdentityId) (now : ℕ)

def memberObservation (t : EvidenceTables) (row : PageRow) : Option ContactObservation :=
  match t.findIdentity row.key, row.participantDisplayName with
  | some identity, some name =>
    some ⟨identity.id, .groupParticipantName, some (row.groupId, row.participantId), name, none,
      row.syncedAt, "backfill:group:" ++
        texts.md5 (row.groupId ++ ":" ++ row.participantId ++ ":" ++ name), now⟩
  | _, _ => none

def memberLink (t : EvidenceTables) (row : PageRow) : Option LinkEvidence :=
  if row.identity.type = .phoneJid then
    row.identity.phone.bind fun phone => t.linkRow row.key phone .phoneJidDerivation none
      row.syncedAt ("backfill:derived:" ++ texts.md5 (row.identity.value ++ ":" ++ phone)) now
  else none

/-- The phones of a page, each with the instant at which its row was synced. -/
def pagePhones (page : List PageRow) : List (IdentityKey × ℕ) :=
  page.filterMap fun row => row.identity.phone.map fun phone => ((.phone, phone), row.syncedAt)

/-- `materializeEvidenceBackfillPage`, up to its UPDATE. A group of rows with one key is inserted
with its first and last instants, which is what inserting them one by one leaves. -/
def materializeEvidenceBackfillPage (page : List PageRow) (t : EvidenceTables) :
    Option EvidenceTables :=
  (t.upsertIdentities draw touchSnapshot (page.map fun row => (row.key, row.syncedAt))).bind
    fun t =>
  (t.upsertIdentities draw touchSnapshot (pagePhones page)).map fun t =>
  (t.insertObservations (page.filterMap (memberObservation texts now t))).insertLinks
    (page.filterMap (memberLink texts now t))

end Statements

end EvidenceBackfill
