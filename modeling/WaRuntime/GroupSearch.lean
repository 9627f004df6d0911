import WaRuntime.GroupCapabilityStatements
import WaRuntime.LikePatterns
import WaRuntime.MemberDatasetRevision

/-! The listing of a session's groups, with its search, its filters and its pages.
The predicate is the one of the statement, with NULL as a third truth value; the search pattern is
that of the members. The database lower-cases by character. -/
namespace GroupSearch

open CanonicalOrders ContactNormalization LikePatterns
open GroupCapabilityStatements (GroupSendCapabilityStatus GroupSendCapabilityReason)
open MemberDatasetRevision (searchPattern)

/-- The columns of `gateway_groups` that the listing selects. -/
structure GroupRow where
  sessionId : String
  id : String
  name : String
  description : Option String
  ownerId : Option String
  linkedParentId : Option String
  participantsCount : Option ℕ
  isAdmin : Option Bool
  isReadOnly : Option Bool
  isAnnounce : Option Bool
  settingsLocked : Option Bool
  isActive : Bool
  detailsSyncedAt : Option ℕ
  syncedAt : ℕ
  sendCapability : GroupSendCapabilityStatus
  sendCapabilityReason : GroupSendCapabilityReason
  capabilityCheckedAt : Option ℕ
  capabilityInvalidatedAt : Option ℕ
  capabilityRevision : ℕ
  deriving DecidableEq, Repr

structure SendCapabilityDto where
  status : GroupSendCapabilityStatus
  reason : GroupSendCapabilityReason
  checkedAt : Option ℕ
  invalidatedAt : Option ℕ
  revision : ℕ
  deriving DecidableEq, Repr

structure GroupDto where
  sessionId : String
  id : String
  name : String
  description : Option String
  ownerId : Option String
  linkedParentId : Option String
  participantsCount : Option ℕ
  isAdmin : Option Bool
  isReadOnly : Option Bool
  isAnnounce : Option Bool
  settingsLocked : Option Bool
  isActive : Bool
  detailsSyncedAt : Option ℕ
  syncedAt : ℕ
  sendCapability : SendCapabilityDto
  deriving DecidableEq, Repr

def mapGroup (row : GroupRow) : GroupDto where
  sessionId := row.sessionId
  id := row.id
  name := row.name
  description := row.description
  ownerId := row.ownerId
  linkedParentId := row.linkedParentId
  participantsCount := row.participantsCount
  isAdmin := row.isAdmin
  isReadOnly := row.isReadOnly
  isAnnounce := row.isAnnounce
  settingsLocked := row.settingsLocked
  isActive := row.isActive
  detailsSyncedAt := row.detailsSyncedAt
  syncedAt := row.syncedAt
  sendCapability := ⟨row.sendCapability, row.sendCapabilityReason, row.capabilityCheckedAt,
    row.capabilityInvalidatedAt, row.capabilityRevision⟩

inductive GroupCapabilityFreshness where
  | current
  | stale
  deriving DecidableEq, Repr

structure GroupQuery where
  sessionId : String
  query : Option String
  capabilityStatus : Option (List GroupSendCapabilityStatus)
  capabilityFreshness : Option (List GroupCapabilityFreshness)
  isActive : Option Bool
  minParticipants : Option ℕ
  maxParticipants : Option ℕ
  limit : ℕ
  offset : ℕ
  deriving Repr

structure GroupPage where
  data : List GroupDto
  total : ℕ
  deriving DecidableEq, Repr

section Conditions

/-- OR of SQL. -/
def sqlOr : Option Bool → Option Bool → Option Bool
  | some true, _ | _, some true => some true
  | some false, some false => some false
  | _, _ => none

/-- AND of SQL. -/
def sqlAnd : Option Bool → Option Bool → Option Bool
  | some false, _ | _, some false => some false
  | some true, some true => some true
  | _, _ => none

/-- A comparison with what may be NULL. -/
def compared {α β : Type} (f : α → β → Bool) (a : Option α) (b : Option β) : Option Bool :=
  a.bind fun x => b.map (f x)

/-- A filter that a NULL parameter turns off. -/
def unlessNull {α : Type} (parameter : Option α) (condition : α → Option Bool) : Option Bool :=
  sqlOr (some parameter.isNone) (parameter.bind condition)

theorem sqlOr_eq_true {a b : Option Bool} :
    sqlOr a b = some true ↔ a = some true ∨ b = some true := by
  rcases a with _ | (_ | _) <;> rcases b with _ | (_ | _) <;> simp [sqlOr]

theorem sqlAnd_eq_true {a b : Option Bool} :
    sqlAnd a b = some true ↔ a = some true ∧ b = some true := by
  rcases a with _ | (_ | _) <;> rcases b with _ | (_ | _) <;> simp [sqlAnd]

theorem compared_eq_true {α β : Type} {f : α → β → Bool} {a : Option α} {b : Option β} :
    compared f a b = some true ↔ ∃ x ∈ a, ∃ y ∈ b, f x y = true := by
  simp [compared, Option.bind_eq_some_iff, Option.map_eq_some_iff]

theorem unlessNull_eq_true {α : Type} {parameter : Option α} {condition : α → Option Bool} :
    unlessNull parameter condition = some true ↔ ∀ x ∈ parameter, condition x = some true := by
  unfold unlessNull
  rw [sqlOr_eq_true]
  cases parameter <;> simp

end Conditions

section Listing

variable (collation : TotalOrder String) (lower : Char → Char)

/-- ILIKE; a pattern that ends with the escape character would throw. -/
def ilikeText (pattern text : String) : Bool :=
  (ilike lower pattern.toList text.toList).getD false

/-- `normalizedQuery || null`. -/
def exactQuery (query : Option String) : Option String :=
  (query.map fun q => String.ofList (trim q.toList)).filter (· ≠ "")

def searches (q : GroupQuery) (row : GroupRow) : Option Bool :=
  let pattern := searchPattern q.query
  unlessNull pattern fun p =>
    sqlOr (compared (fun a b => a == b) (some row.id) (exactQuery q.query))
      (sqlOr (some (ilikeText lower p row.name))
        (sqlOr (some (ilikeText lower p row.id))
          (compared (ilikeText lower) (some p) row.description)))

def hasStatus (q : GroupQuery) (row : GroupRow) : Option Bool :=
  unlessNull q.capabilityStatus fun statuses => some (decide (row.sendCapability ∈ statuses))

def hasFreshness (q : GroupQuery) (row : GroupRow) : Option Bool :=
  unlessNull q.capabilityFreshness fun freshness =>
    sqlOr (some (decide (.current ∈ freshness) && row.capabilityInvalidatedAt.isNone))
      (some (decide (.stale ∈ freshness) && row.capabilityInvalidatedAt.isSome))

/-- The predicate of both statements. -/
def predicate (q : GroupQuery) (row : GroupRow) : Option Bool :=
  sqlAnd (some (row.sessionId == q.sessionId && row.isActive == q.isActive.getD true))
    (sqlAnd (searches lower q row)
      (sqlAnd (hasStatus q row)
        (sqlAnd (hasFreshness q row)
          (sqlAnd
            (unlessNull q.minParticipants fun least =>
              compared (fun a b => decide (a ≤ b)) (some least) row.participantsCount)
            (unlessNull q.maxParticipants fun most =>
              compared (fun a b => decide (b ≤ a)) (some most) row.participantsCount)))))

def selected (q : GroupQuery) (rows : List GroupRow) : List GroupRow :=
  rows.filter fun row => predicate lower q row = some true

/-- ORDER BY name, id. -/
def ordered (rows : List GroupRow) : List GroupRow :=
  (collation.prod collation).sortBy (fun row : GroupRow => (row.name, row.id)) rows

/-- `list`, on the rows of a repeatable-read transaction. -/
def list (q : GroupQuery) (rows : List GroupRow) : GroupPage where
  data := (((ordered collation (selected lower q rows)).drop q.offset).take q.limit).map mapGroup
  total := (selected lower q rows).length

end Listing

/-- The first text is a part of the second one, letter case apart. -/
def Part (lower : Char → Char) (part : List Char) (text : String) : Prop :=
  part.map lower <:+: text.toList.map lower

/-- What the query parameters are documented to select. -/
structure Documented (lower : Char → Char) (q : GroupQuery) (row : GroupRow) : Prop where
  session : row.sessionId = q.sessionId
  active : row.isActive = q.isActive.getD true
  text : ∀ s ∈ q.query, trim s.toList ≠ [] → Part lower (trim s.toList) row.name ∨
    Part lower (trim s.toList) row.id ∨ ∃ d ∈ row.description, Part lower (trim s.toList) d
  status : ∀ statuses ∈ q.capabilityStatus, row.sendCapability ∈ statuses
  freshness : ∀ freshness ∈ q.capabilityFreshness,
    (.current ∈ freshness ∧ row.capabilityInvalidatedAt = none) ∨
      (.stale ∈ freshness ∧ row.capabilityInvalidatedAt ≠ none)
  least : ∀ least ∈ q.minParticipants, ∃ n ∈ row.participantsCount, least ≤ n
  most : ∀ most ∈ q.maxParticipants, ∃ n ∈ row.participantsCount, n ≤ most

section Search

variable {collation : TotalOrder String} {lower : Char → Char} {q : GroupQuery} {row : GroupRow}
  {rows rows' : List GroupRow}

theorem searchPattern_some {query : Option String} {pattern : String}
    (h : searchPattern query = some pattern) : ∃ s ∈ query, trim s.toList ≠ [] ∧
      pattern.toList = '%' :: escape (trim s.toList) ++ ['%'] := by
  cases query with
  | none => cases h
  | some s =>
    refine ⟨s, rfl, ?_⟩
    simp only [searchPattern, Option.map_some] at h
    split at h
    · cases h
    · cases h
    · rename_i c cs htrim
      obtain rfl := Option.some.inj h
      rw [Option.some.inj htrim]
      exact ⟨List.cons_ne_nil c cs, String.toList_ofList⟩

theorem searchPattern_of_query {s : String} (h : trim s.toList ≠ []) :
    ∃ pattern, searchPattern (some s) = some pattern := by
  unfold searchPattern
  cases htrim : trim s.toList with
  | nil => exact absurd htrim h
  | cons c cs =>
    rw [Option.map_some, htrim]
    exact ⟨_, rfl⟩

/-- The pattern of a search is no error, and finds the parts. -/
theorem ilikeText_search (hl : LawfulLower lower) {cs : List Char} {pattern : String}
    (hp : pattern.toList = '%' :: escape cs ++ ['%']) (text : String) :
    ilike lower pattern.toList text.toList ≠ none ∧
      (ilikeText lower pattern text = true ↔ Part lower cs text) := by
  unfold ilikeText
  rw [hp, ilike_search hl]
  exact ⟨Option.some_ne_none _, decide_eq_true_iff⟩

theorem part_self (cs : List Char) (text : String) (h : text.toList = cs) : Part lower cs text := by
  unfold Part
  rw [h]

theorem searches_iff (hl : LawfulLower lower) : searches lower q row = some true ↔
    ∀ s ∈ q.query, trim s.toList ≠ [] → Part lower (trim s.toList) row.name ∨
      Part lower (trim s.toList) row.id ∨ ∃ d ∈ row.description, Part lower (trim s.toList) d := by
  unfold searches
  simp only [unlessNull_eq_true, sqlOr_eq_true, compared_eq_true, Option.some_inj]
  constructor
  · intro h s hs hne
    rw [Option.mem_def.mp hs] at h
    obtain ⟨pattern, hpattern⟩ := searchPattern_of_query hne
    obtain ⟨s', hs', _, hp⟩ := searchPattern_some hpattern
    obtain rfl := Option.some.inj hs'
    have htext := fun text => (ilikeText_search hl hp text).2
    rcases h pattern hpattern with ⟨x, hx, y, hy, heq⟩ | hname | hid | ⟨_, ⟨⟩, d, hd, hpart⟩
    · -- an equal identifier contains the query
      obtain rfl := Option.some.inj hx
      have hexact := (Option.filter_eq_some_iff.mp hy).1
      obtain rfl := Option.some.inj hexact
      refine .inr (.inl (part_self _ _ ?_))
      rw [eq_of_beq heq, String.toList_ofList]
    · exact .inl ((htext _).mp hname)
    · exact .inr (.inl ((htext _).mp hid))
    · exact .inr (.inr ⟨d, hd, (htext d).mp hpart⟩)
  · intro h pattern hpattern
    obtain ⟨s, hs, hne, hp⟩ := searchPattern_some hpattern
    have htext := fun text => (ilikeText_search hl hp text).2
    rcases h s hs hne with hname | hid | ⟨d, hd, hpart⟩
    · exact .inr (.inl ((htext _).mpr hname))
    · exact .inr (.inr (.inl ((htext _).mpr hid)))
    · exact .inr (.inr (.inr ⟨pattern, rfl, d, hd, (htext d).mpr hpart⟩))

theorem predicate_iff (hl : LawfulLower lower) :
    predicate lower q row = some true ↔ Documented lower q row := by
  unfold predicate hasStatus hasFreshness
  simp only [sqlAnd_eq_true, searches_iff hl, unlessNull_eq_true, sqlOr_eq_true, compared_eq_true,
    Option.some_inj, Bool.and_eq_true, beq_iff_eq, decide_eq_true_eq, Option.isNone_iff_eq_none,
    Option.isSome_iff_ne_none]
  constructor
  · rintro ⟨⟨hsession, hactive⟩, htext, hstatus, hfreshness, hleast, hmost⟩
    refine ⟨hsession, hactive, htext, hstatus, hfreshness, fun least h => ?_, fun most h => ?_⟩
    · obtain ⟨_, ⟨⟩, n, hn, hle⟩ := hleast least h
      exact ⟨n, hn, hle⟩
    · obtain ⟨_, ⟨⟩, n, hn, hle⟩ := hmost most h
      exact ⟨n, hn, hle⟩
  · intro h
    exact ⟨⟨h.session, h.active⟩, h.text, h.status, h.freshness,
      fun least hleast => ⟨least, rfl, h.least least hleast⟩,
      fun most hmost => ⟨most, rfl, h.most most hmost⟩⟩

theorem mem_selected (hl : LawfulLower lower) :
    row ∈ selected lower q rows ↔ row ∈ rows ∧ Documented lower q row := by
  unfold selected
  rw [List.mem_filter, decide_eq_true_iff, predicate_iff hl]

end Search

section Pages

variable {α : Type*}

/-- The pages of one size, one after the other. -/
theorem pages_flatMap (l : List α) (size n : ℕ) :
    ((List.range n).flatMap fun k => (l.drop (k * size)).take size) = l.take (n * size) := by
  induction n with
  | zero => simp
  | succ n ih =>
    rw [List.range_succ, List.flatMap_append, ih, Nat.succ_mul, List.take_add]
    simp

end Pages

section Listing

variable {collation : TotalOrder String} {lower : Char → Char} {q : GroupQuery} {row : GroupRow}
  {rows rows' : List GroupRow}

/-- The page of the query at an offset. -/
def GroupQuery.at (q : GroupQuery) (offset : ℕ) : GroupQuery := { q with offset }

theorem selected_at (offset : ℕ) : selected lower (q.at offset) rows = selected lower q rows := rfl

/-- The rows of a session differ in their ids. -/
theorem row_eq_of_key (hkey : (rows.map fun row => (row.sessionId, row.id)).Nodup)
    (hl : LawfulLower lower) : ∀ a ∈ selected lower q rows, ∀ b ∈ selected lower q rows,
      (a.name, a.id) = (b.name, b.id) → a = b := by
  intro a ha b hb heq
  obtain ⟨ha, hda⟩ := (mem_selected hl).mp ha
  obtain ⟨hb, hdb⟩ := (mem_selected hl).mp hb
  have hid : a.id = b.id := congrArg Prod.snd heq
  exact List.inj_on_of_nodup_map hkey ha hb
    (Prod.ext (hda.session.trans hdb.session.symm) hid)

/-- What a reader gets who goes through the pages of one size. -/
structure Listed (collation : TotalOrder String) (lower : Char → Char) (q : GroupQuery)
    (rows : List GroupRow) : Prop where
  total : ∀ offset, (list collation lower (q.at offset) rows).total =
    (selected lower q rows).length
  pages : ∀ n, (selected lower q rows).length ≤ n * q.limit →
    ((List.range n).flatMap fun k => (list collation lower (q.at (k * q.limit)) rows).data) =
      (ordered collation (selected lower q rows)).map mapGroup
  sorted : (ordered collation (selected lower q rows)).Pairwise fun a b =>
    (collation.prod collation).le (a.name, a.id) (b.name, b.id)
  once : (ordered collation (selected lower q rows)).Nodup
  documented : ∀ row, row ∈ ordered collation (selected lower q rows) ↔
    row ∈ rows ∧ Documented lower q row
  anyOrder : ∀ rows', rows'.Perm rows → ∀ offset,
    list collation lower (q.at offset) rows' = list collation lower (q.at offset) rows

/-- The pages of a listing are, in the order of name and id, the groups that the parameters are
documented to select, each of them once, in whatever order the table is read. -/
theorem listing_documented (hl : LawfulLower lower)
    (hkey : (rows.map fun row => (row.sessionId, row.id)).Nodup) :
    Listed collation lower q rows := by
  have hperm : (ordered collation (selected lower q rows)).Perm (selected lower q rows) :=
    TotalOrder.sortBy_perm _
  refine ⟨fun offset => rfl, fun n hn => ?_, TotalOrder.sortBy_pairwise _, ?_, fun row => ?_,
    fun rows' hrows offset => ?_⟩
  · have hpage : ∀ k, (list collation lower (q.at (k * q.limit)) rows).data =
        ((ordered collation (selected lower q rows)).map mapGroup |>.drop (k * q.limit)).take
          q.limit := by
      intro k
      rw [← List.map_drop, ← List.map_take]
      rfl
    simp only [hpage]
    rw [pages_flatMap, List.take_of_length_le]
    rwa [List.length_map, hperm.length_eq]
  · have hnodup : rows.Nodup := List.Nodup.of_map _ hkey
    exact hperm.nodup_iff.mpr (hnodup.filter _)
  · rw [hperm.mem_iff, mem_selected hl]
  · have hselected : (selected lower q rows').Perm (selected lower q rows) := hrows.filter _
    have hkey' : (rows'.map fun row => (row.sessionId, row.id)).Nodup :=
      (hrows.map _).nodup_iff.mpr hkey
    have hsame : ordered collation (selected lower q rows') =
        ordered collation (selected lower q rows) :=
      TotalOrder.sortBy_eq_of_perm _ (row_eq_of_key hkey' hl) hselected
    unfold list
    rw [selected_at, selected_at, hsame, hselected.length_eq]

def exampleGroup (id name : String) (description : Option String) (count : Option ℕ) : GroupRow :=
  ⟨"main", id, name, description, none, none, count, none, none, none, none, true, none, 5,
    .allowed, .sendAllowed, some 3, none, 1⟩

/-- The percent sign of the query is no wildcard. -/
def saleGroups : List GroupRow :=
  [exampleGroup "1@g.us" "Sale 50% off" none (some 9),
    exampleGroup "2@g.us" "Sale 500 off" (some "sale 50% OFF") (some 40),
    exampleGroup "3@g.us" "Sale 500 off" none (some 7), exampleGroup "4@g.us" "50% Off" none none]

def saleQuery : GroupQuery := ⟨"main", some " 50% OFF ", none, some [.current], none, some 5, none, 1, 0⟩

theorem sale_listed : Listed TotalOrder.codePoints Char.toLower saleQuery saleGroups :=
  listing_documented toLower_lawful (by decide)

example : (list TotalOrder.codePoints Char.toLower (saleQuery.at 1) saleGroups).data.map
    GroupDto.id = ["2@g.us"] := by decide +kernel

end Listing

section Members

variable {lower : Char → Char} {db : MemberDatasetRevision.Database} {query : Option String}
  {row : MemberDatasetRevision.MemberRow} {readContactProjection : Bool}

/-- The search of the members finds the parts of what a member shows. -/
theorem members_search (hl : LawfulLower lower) (hdb : db.ilike = ilikeText lower) :
    MemberDatasetRevision.matchesPattern db readContactProjection (searchPattern query) row ↔
      ∀ s ∈ query, trim s.toList ≠ [] →
        (∃ name ∈ MemberDatasetRevision.shownName readContactProjection row,
          Part lower (trim s.toList) name) ∨
        (∃ phone ∈ MemberDatasetRevision.shownPhone readContactProjection row,
          Part lower (trim s.toList) phone) ∨
        Part lower (trim s.toList) row.phoneNumber ∨
        Part lower (trim s.toList) row.participantId := by
  cases hpattern : searchPattern query with
  | none =>
    simp only [MemberDatasetRevision.matchesPattern, true_iff]
    intro s hs hne
    obtain ⟨pattern, hsome⟩ := searchPattern_of_query hne
    rw [Option.mem_def.mp hs, hsome] at hpattern
    cases hpattern
  | some pattern =>
    obtain ⟨s, hs, hne, hp⟩ := searchPattern_some hpattern
    have htext := fun text => (ilikeText_search hl hp text).2
    simp only [MemberDatasetRevision.matchesPattern, hdb, Bool.or_eq_true, Option.any_eq_true,
      htext, or_assoc]
    constructor
    · intro h s' hs' _
      obtain rfl := Option.some.inj (hs.symm.trans hs')
      exact h
    · intro h
      exact h s hs hne

end Members

end GroupSearch
