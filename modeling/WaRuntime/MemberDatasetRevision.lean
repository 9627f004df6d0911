import Mathlib.Data.List.Dedup
import WaRuntime.CanonicalOrders
import WaRuntime.ContactNormalization
import WaRuntime.RowVersions
import WaRuntime.TransitionRuns

/-! The dataset revision of a group's members.
A transaction writes members with statements of its own, each followed by the triggers, which lock
the row of every group the statement has changed; its members come into sight with its commit. Of
the row of a group only `member_dataset_revision` is modelled. It is a natural number here; as a
number of the runtime it is exact up to 2^53. -/
namespace MemberDatasetRevision

open TransitionRuns RowVersions CanonicalOrders ContactNormalization

abbrev GroupKey := String × String

abbrev TxId := ℕ

/-- The columns that the listing shows, searches or sorts by. -/
structure MemberRow where
  participantId : String
  phoneNumber : String
  displayName : Option String
  identityType : Option String
  resolvedPhoneNumber : Option String
  displayNameSource : Option String
  shadowProjectionRevision : ℕ
  shadowDisplayName : Option String
  shadowResolvedPhoneNumber : Option String
  shadowDisplayNameSource : Option String
  shadowSortValue : Option String
  isAdmin : Bool
  isSuperAdmin : Bool
  deriving DecidableEq, Repr

section Listing

/-- What the database computes on texts; its collation tells any two texts apart. -/
structure Database where
  collation : TotalOrder String
  lower : String → String
  ilike : (pattern text : String) → Bool

structure GroupMemberDto where
  participantId : String
  phoneNumber : String
  displayName : Option String
  identityType : Option String
  resolvedPhoneNumber : Option String
  displayNameSource : Option String
  projectionRevision : ℕ
  isAdmin : Bool
  isSuperAdmin : Bool
  deriving DecidableEq, Repr

structure MemberPage where
  data : List GroupMemberDto
  total : ℕ
  datasetRevision : ℕ
  deriving DecidableEq, Repr

/-- What a repeatable-read transaction sees of a group; the rows come in any order. -/
structure Snapshot where
  revision : Option ℕ
  rows : List MemberRow

variable (db : Database) (readContactProjection : Bool)

def projected (row : MemberRow) : Bool :=
  readContactProjection && decide (0 < row.shadowProjectionRevision)

def shownName (row : MemberRow) : Option String :=
  if projected readContactProjection row then row.shadowDisplayName else row.displayName

def shownPhone (row : MemberRow) : Option String :=
  if projected readContactProjection row then row.shadowResolvedPhoneNumber
  else row.resolvedPhoneNumber

def mapMember (row : MemberRow) : GroupMemberDto where
  participantId := row.participantId
  phoneNumber := row.phoneNumber
  displayName := shownName readContactProjection row
  identityType := row.identityType
  resolvedPhoneNumber := shownPhone readContactProjection row
  displayNameSource :=
    if projected readContactProjection row then row.shadowDisplayNameSource
    else row.displayNameSource
  projectionRevision :=
    if projected readContactProjection row then row.shadowProjectionRevision else 0
  isAdmin := row.isAdmin
  isSuperAdmin := row.isSuperAdmin

/-- `normalizedQuery.replace(/[\\%_]/g, '\\$&')` between two percent signs. -/
def searchPattern (query : Option String) : Option String :=
  match query.map fun query => trim query.toList with
  | none => none
  | some [] => none
  | some (c :: cs) =>
    some (String.ofList ('%' :: (c :: cs).flatMap (fun c =>
      if c = '\\' ∨ c = '%' ∨ c = '_' then ['\\', c] else [c]) ++ ['%']))

/-- A NULL never matches. -/
def matchesPattern (pattern : Option String) (row : MemberRow) : Bool :=
  match pattern with
  | none => true
  | some pattern =>
    (shownName readContactProjection row).any (db.ilike pattern) ||
      (shownPhone readContactProjection row).any (db.ilike pattern) ||
      db.ilike pattern row.phoneNumber || db.ilike pattern row.participantId

def sortValue (row : MemberRow) : Option String :=
  if projected readContactProjection row then row.shadowSortValue
  else some (db.lower (row.displayName.getD row.phoneNumber))

/-- The keys of ORDER BY. -/
def sortKey (row : MemberRow) : Bool × Bool × Option String × String :=
  (row.isSuperAdmin, row.isAdmin, sortValue db readContactProjection row, row.participantId)

def listingOrder : TotalOrder (Bool × Bool × Option String × String) :=
  TotalOrder.flagDesc.prod (TotalOrder.flagDesc.prod (db.collation.nullsLast.prod db.collation))

def matchingMembers (snapshot : Snapshot) (query : Option String) : List MemberRow :=
  (listingOrder db).sortBy (sortKey db readContactProjection)
    (snapshot.rows.filter (matchesPattern db readContactProjection (searchPattern query)))

def listMembers (snapshot : Snapshot) (query : Option String) (limit offset : ℕ) : MemberPage where
  data := (((matchingMembers db readContactProjection snapshot query).drop offset).take limit).map
    (mapMember readContactProjection)
  total := (snapshot.rows.filter
    (matchesPattern db readContactProjection (searchPattern query))).length
  datasetRevision := if readContactProjection then snapshot.revision.getD 0 else 0

end Listing

section System

/-- A row of the transition table of a statement. -/
inductive MemberChange where
  | put (key : GroupKey) (row : MemberRow)
  | remove (key : GroupKey) (participantId : String)
  deriving DecidableEq, Repr

def MemberChange.key : MemberChange → GroupKey
  | .put key _ => key
  | .remove key _ => key

/-- `due` are the groups whose revision the triggers of the last statement have still to bump. -/
structure Transaction where
  changes : List MemberChange
  due : List GroupKey
  deriving DecidableEq, Repr

def Transaction.idle : Transaction := ⟨[], []⟩

structure State where
  groups : Table TxId GroupKey (Option ℕ)
  members : GroupKey → List MemberRow
  txs : TxId → Transaction

inductive Event where
  | insertGroup (tx : TxId) (key : GroupKey)
  | lockGroup (tx : TxId) (key : GroupKey)
  | writeMembers (tx : TxId) (changes : List MemberChange)
  | bumpRevision (tx : TxId) (key : GroupKey)
  | commit (tx : TxId)
  | abort (tx : TxId)
  deriving Repr

def putRow (row : MemberRow) (rows : List MemberRow) : List MemberRow :=
  rows.filter (·.participantId ≠ row.participantId) ++ [row]

def applyChange (members : GroupKey → List MemberRow) : MemberChange → GroupKey → List MemberRow
  | .put key row => Function.update members key (putRow row (members key))
  | .remove key participantId =>
    Function.update members key ((members key).filter (·.participantId ≠ participantId))

def applyChanges (members : GroupKey → List MemberRow) (changes : List MemberChange) :
    GroupKey → List MemberRow :=
  changes.foldl applyChange members

/-- A statement that writes the group's row; it waits while another transaction holds it. -/
def writeGroup (s : State) (tx : TxId) (key : GroupKey) (revision : Option ℕ) : State :=
  { s with groups := Function.update s.groups key ((s.groups key).write tx revision) }

def setTx (s : State) (tx : TxId) (value : Transaction) : State :=
  { s with txs := Function.update s.txs tx value }

/-- A transaction goes on only once the triggers of its last statement are through. A member
refers to its group by a foreign key. -/
def step (s : State) : Event → Option State
  | .insertGroup tx key =>
    guarded ((s.txs tx).due = [] ∧ (s.groups key).FreeFor tx ∧ (s.groups key).view tx = none)
      (writeGroup s tx key (some 0))
  | .lockGroup tx key =>
    guarded ((s.txs tx).due = [] ∧ (s.groups key).FreeFor tx ∧ ((s.groups key).view tx).isSome)
      (writeGroup s tx key ((s.groups key).view tx))
  | .writeMembers tx changes =>
    guarded ((s.txs tx).due = [] ∧ ∀ c ∈ changes, ((s.groups c.key).view tx).isSome)
      (setTx s tx ⟨(s.txs tx).changes ++ changes, (changes.map MemberChange.key).dedup⟩)
  | .bumpRevision tx key =>
    guarded (key ∈ (s.txs tx).due ∧ (s.groups key).FreeFor tx)
      (setTx (writeGroup s tx key (((s.groups key).view tx).map (· + 1))) tx
        ⟨(s.txs tx).changes, (s.txs tx).due.erase key⟩)
  | .commit tx =>
    guarded ((s.txs tx).due = [])
      { groups := s.groups.commit tx
        members := applyChanges s.members (s.txs tx).changes
        txs := Function.update s.txs tx .idle }
  | .abort tx =>
    some { s with groups := s.groups.abort tx, txs := Function.update s.txs tx .idle }

/-- Any groups with any members, at rest. -/
def Initial (s : State) : Prop :=
  (∀ key, (s.groups key).held = none) ∧ (∀ tx, s.txs tx = .idle) ∧
    ∀ key, ((s.members key).map MemberRow.participantId).Nodup

def system : System State Event := ofStep Initial step

instance (s : State) (e : Event) : Decidable (system.enabled s e) :=
  inferInstanceAs (Decidable ((ofStep Initial step).enabled s e))

/-- A call of `listMembers` at a moment of a run. -/
def Sees (s : State) (key : GroupKey) (snapshot : Snapshot) : Prop :=
  snapshot.revision = (s.groups key).committed ∧ snapshot.rows.Perm (s.members key)

end System

section Changes

variable {members : GroupKey → List MemberRow} {key : GroupKey}

def Distinct (rows : List MemberRow) : Prop := (rows.map MemberRow.participantId).Nodup

theorem distinct_filter {p : MemberRow → Bool} {rows : List MemberRow} (h : Distinct rows) :
    Distinct (rows.filter p) :=
  List.Nodup.sublist (List.filter_sublist.map _) h

theorem distinct_put {row : MemberRow} {rows : List MemberRow} (h : Distinct rows) :
    Distinct (putRow row rows) := by
  unfold Distinct putRow
  rw [List.map_append, List.nodup_append]
  refine ⟨distinct_filter h, List.nodup_singleton _, ?_⟩
  intro id hid id' hid' heq
  obtain ⟨old, hold, rfl⟩ := List.mem_map.mp hid
  have hne : old.participantId ≠ row.participantId := by simpa using (List.mem_filter.mp hold).2
  rw [List.map_singleton, List.mem_singleton] at hid'
  exact hne (heq.trans hid')

theorem applyChange_distinct (h : ∀ key, Distinct (members key)) (c : MemberChange)
    (key : GroupKey) : Distinct (applyChange members c key) := by
  cases c with
  | put other row =>
    simp only [applyChange, Function.update_apply]
    split
    · exact distinct_put (h other)
    · exact h key
  | remove other participantId =>
    simp only [applyChange, Function.update_apply]
    split
    · exact distinct_filter (h other)
    · exact h key

theorem applyChanges_distinct {changes : List MemberChange} (h : ∀ key, Distinct (members key)) :
    ∀ key, Distinct (applyChanges members changes key) := by
  induction changes generalizing members with
  | nil => exact h
  | cons c changes ih => exact ih (applyChange_distinct h c)

/-- A group that no change names keeps its members. -/
theorem applyChanges_other {changes : List MemberChange} (h : ∀ c ∈ changes, c.key ≠ key) :
    applyChanges members changes key = members key := by
  induction changes generalizing members with
  | nil => rfl
  | cons c changes ih =>
    have hc : applyChange members c key = members key := by
      have hne : key ≠ c.key := (h c List.mem_cons_self).symm
      cases c <;> exact Function.update_of_ne hne _ _
    exact (ih fun d hd => h d (List.mem_cons_of_mem _ hd)).trans hc

end Changes

section GroupRows

variable {row : Row TxId (Option ℕ)} {tx other : TxId} {value : Option ℕ}

/-- What `listMembers` takes for the revision. -/
def revision (value : Option ℕ) : ℕ := value.getD 0

/-- A version that waits for its commit is no older than the committed one. -/
def Advanced (row : Row TxId (Option ℕ)) : Prop :=
  ∀ tx value, row.held = some (tx, value) → value.isSome ∧ revision row.committed ≤ revision value

/-- The transaction holds a newer revision. -/
def Bumped (tx : TxId) (row : Row TxId (Option ℕ)) : Prop :=
  ∃ value, row.held = some (tx, value) ∧ revision row.committed < revision value

theorem advanced_view (h : Advanced row) (tx : TxId) :
    revision row.committed ≤ revision (row.view tx) := by
  unfold Row.view
  split
  · exact le_rfl
  · rename_i u value hheld
    split
    · exact (h u value hheld).2
    · exact le_rfl

theorem advanced_write (h : Advanced row) (hsome : value.isSome)
    (hle : revision (row.view tx) ≤ revision value) : Advanced (row.write tx value) := by
  intro u v hheld
  simp only [Row.write_held, Option.some.injEq, Prod.mk.injEq] at hheld
  obtain ⟨rfl, rfl⟩ := hheld
  exact ⟨hsome, (advanced_view h tx).trans hle⟩

theorem advanced_commit (h : Advanced row) (tx : TxId) : Advanced (row.commit tx) := by
  obtain ⟨_, heq⟩ | ⟨v, _, heq⟩ := Row.commit_cases tx row
  · rw [heq]
    exact h
  · rw [heq]
    intro u w hheld
    cases hheld

theorem advanced_abort (h : Advanced row) (tx : TxId) : Advanced (row.abort tx) := by
  obtain ⟨_, heq⟩ | ⟨v, _, heq⟩ := Row.abort_cases tx row
  · rw [heq]
    exact h
  · rw [heq]
    intro u w hheld
    cases hheld

theorem commit_advances (h : Advanced row) (tx : TxId) :
    revision row.committed ≤ revision (row.commit tx).committed := by
  rw [Row.commit_committed]
  exact advanced_view h tx

/-- A transaction that has bumped the revision has its row locked. -/
theorem bumped_locked (h : Bumped tx row) (hfree : row.FreeFor other) : other = tx := by
  obtain ⟨value, hheld, _⟩ := h
  by_contra hne
  exact Row.not_held_of_free_for hfree hne value hheld

theorem bumped_write (h : Bumped tx row) (hle : revision (row.view tx) ≤ revision value) :
    Bumped tx (row.write tx value) := by
  obtain ⟨old, hheld, hlt⟩ := h
  rw [Row.view_of_held hheld] at hle
  exact ⟨value, rfl, lt_of_lt_of_le hlt hle⟩

/-- The end of another transaction leaves its row. -/
theorem bumped_others (h : Bumped tx row) (hne : tx ≠ other) :
    row.commit other = row ∧ row.abort other = row := by
  obtain ⟨value, hheld, _⟩ := h
  have hother : ∀ v, row.held ≠ some (other, v) := Row.not_held_of_held hheld hne
  exact ⟨Row.commit_of_not_held hother, Row.abort_of_not_held hother⟩

theorem bump_advances (hsome : (row.view tx).isSome) :
    ((row.view tx).map (· + 1)).isSome ∧
      revision (row.view tx) < revision ((row.view tx).map (· + 1)) := by
  obtain ⟨n, hn⟩ := Option.isSome_iff_exists.mp hsome
  simp [hn, revision]

theorem visible_write {u : TxId} (hfree : row.FreeFor tx) (hsome : value.isSome)
    (h : (row.view u).isSome) : ((row.write tx value).view u).isSome := by
  by_cases hu : u = tx
  · subst hu
    rwa [Row.view_write]
  · have hbefore : row.view u = row.committed :=
      Row.view_of_not_held (Row.not_held_of_free_for hfree (Ne.symm hu))
    have hafter : (row.write tx value).view u = row.committed :=
      Row.view_of_not_held (r := row.write tx value) (Row.not_held_of_held rfl (Ne.symm hu))
    rwa [hafter, ← hbefore]

theorem visible_commit {u : TxId} (hadvanced : Advanced row) (h : (row.view u).isSome) :
    ((row.commit tx).view u).isSome := by
  obtain ⟨_, heq⟩ | ⟨v, hheld, heq⟩ := Row.commit_cases tx row
  · rwa [heq]
  · rw [heq, Row.view_of_free (r := ⟨v, none⟩) rfl]
    exact (hadvanced tx v hheld).1

theorem visible_abort {u : TxId} (hu : u ≠ tx) (h : (row.view u).isSome) :
    ((row.abort tx).view u).isSome := by
  obtain ⟨_, heq⟩ | ⟨v, hheld, heq⟩ := Row.abort_cases tx row
  · rwa [heq]
  · rw [heq, Row.view_of_free (r := ⟨row.committed, none⟩) rfl]
    rwa [Row.view_of_not_held (Row.not_held_of_held hheld (Ne.symm hu))] at h

end GroupRows

section Steps

variable {s t : State} {tx : TxId} {key : GroupKey} {value : Option ℕ}

/-- A group whose members a transaction has changed is one whose revision it has bumped, or is
still about to. -/
structure Sound (s : State) : Prop where
  advanced : ∀ key, Advanced (s.groups key)
  bumped : ∀ tx, ∀ c ∈ (s.txs tx).changes,
    c.key ∈ (s.txs tx).due ∨ Bumped tx (s.groups c.key)
  visible : ∀ tx, ∀ key ∈ (s.txs tx).due, ((s.groups key).view tx).isSome
  distinct : ∀ key, Distinct (s.members key)

theorem sound_initial (h : Initial s) : Sound s := by
  obtain ⟨hfree, hidle, hdistinct⟩ := h
  refine ⟨fun key tx value hheld => ?_, fun tx c hc => ?_, fun tx key hkey => ?_, hdistinct⟩
  · rw [hfree key] at hheld
    cases hheld
  · rw [hidle tx] at hc
    cases hc
  · rw [hidle tx] at hkey
    cases hkey

/-- A write of the group's row by the transaction that has it. -/
theorem sound_writeGroup (h : Sound s) (hfree : (s.groups key).FreeFor tx) (hsome : value.isSome)
    (hle : revision ((s.groups key).view tx) ≤ revision value) :
    Sound (writeGroup s tx key value) := by
  refine ⟨fun other => ?_, fun u c hc => ?_, fun u other hdue => ?_, h.distinct⟩
  · by_cases hk : other = key
    · subst hk
      simpa [writeGroup] using advanced_write (h.advanced other) hsome hle
    · simpa [writeGroup, hk] using h.advanced other
  · obtain hdue | hbumped := h.bumped u c hc
    · exact .inl hdue
    · refine .inr ?_
      by_cases hk : c.key = key
      · rw [hk] at hbumped
        obtain rfl := bumped_locked hbumped hfree
        simpa [writeGroup, hk] using bumped_write hbumped hle
      · simpa [writeGroup, hk] using hbumped
  · have hseen := h.visible u other hdue
    by_cases hk : other = key
    · subst hk
      simpa [writeGroup] using visible_write hfree hsome hseen
    · simpa [writeGroup, hk] using hseen

theorem sound_setTx (h : Sound s) {new : Transaction}
    (hbumped : ∀ c ∈ new.changes, c.key ∈ new.due ∨ Bumped tx (s.groups c.key))
    (hvisible : ∀ key ∈ new.due, ((s.groups key).view tx).isSome) : Sound (setTx s tx new) := by
  refine ⟨h.advanced, fun u c hc => ?_, fun u key hkey => ?_, h.distinct⟩
  · by_cases hu : u = tx
    · subst hu
      simp only [setTx, Function.update_self] at hc ⊢
      exact hbumped c hc
    · simp only [setTx, Function.update_of_ne hu] at hc ⊢
      exact h.bumped u c hc
  · by_cases hu : u = tx
    · subst hu
      simp only [setTx, Function.update_self] at hkey
      exact hvisible key hkey
    · simp only [setTx, Function.update_of_ne hu] at hkey
      exact h.visible u key hkey

/-- The trigger after a statement. -/
theorem sound_bump (h : Sound s) (hdue : key ∈ (s.txs tx).due)
    (hfree : (s.groups key).FreeFor tx) :
    Sound (setTx (writeGroup s tx key (((s.groups key).view tx).map (· + 1))) tx
      ⟨(s.txs tx).changes, (s.txs tx).due.erase key⟩) := by
  obtain ⟨hsome, hlt⟩ := bump_advances (h.visible tx key hdue)
  have hwritten := sound_writeGroup h hfree hsome hlt.le
  refine sound_setTx hwritten (fun c hc => ?_) fun other hother => ?_
  · by_cases hk : c.key = key
    · refine .inr ⟨((s.groups key).view tx).map (· + 1), ?_, ?_⟩
      · simp only [writeGroup, hk, Function.update_self, Row.write_held]
      · simp only [writeGroup, hk, Function.update_self, Row.write_committed]
        exact lt_of_le_of_lt (advanced_view (h.advanced key) tx) hlt
    · obtain hc | hc := hwritten.bumped tx c hc
      · exact .inl ((List.mem_erase_of_ne hk).mpr hc)
      · exact .inr hc
  · exact hwritten.visible tx other (List.mem_of_mem_erase hother)

/-- The end of a transaction leaves what the others are about. -/
theorem sound_finish (h : Sound s) {groups : Table TxId GroupKey (Option ℕ)}
    {members : GroupKey → List MemberRow} (hadvanced : ∀ key, Advanced (groups key))
    (hbumped : ∀ u, u ≠ tx → ∀ key, Bumped u (s.groups key) → groups key = s.groups key)
    (hvisible : ∀ u, u ≠ tx → ∀ key, ((s.groups key).view u).isSome →
      ((groups key).view u).isSome)
    (hdistinct : ∀ key, Distinct (members key)) :
    Sound ⟨groups, members, Function.update s.txs tx .idle⟩ := by
  refine ⟨hadvanced, fun u c hc => ?_, fun u key hkey => ?_, hdistinct⟩
  · by_cases hu : u = tx
    · subst hu
      simp [Transaction.idle] at hc
    · simp only [Function.update_of_ne hu] at hc ⊢
      obtain hdue | hb := h.bumped u c hc
      · exact .inl hdue
      · refine .inr ?_
        rwa [hbumped u hu c.key hb]
  · by_cases hu : u = tx
    · subst hu
      simp [Transaction.idle] at hkey
    · simp only [Function.update_of_ne hu] at hkey
      exact hvisible u hu key (h.visible u key hkey)

theorem sound_step {e : Event} (h : Sound s) (hstep : step s e = some t) : Sound t := by
  cases e with
  | insertGroup tx key =>
    obtain ⟨⟨_, hfree, hnone⟩, rfl⟩ := guarded_eq_some.mp hstep
    exact sound_writeGroup h hfree rfl (by simp [hnone, revision])
  | lockGroup tx key =>
    obtain ⟨⟨_, hfree, hsome⟩, rfl⟩ := guarded_eq_some.mp hstep
    exact sound_writeGroup h hfree hsome le_rfl
  | writeMembers tx changes =>
    obtain ⟨⟨hdue, hseen⟩, rfl⟩ := guarded_eq_some.mp hstep
    refine sound_setTx h (fun c hc => ?_) fun key hkey => ?_
    · obtain hc | hc := List.mem_append.mp hc
      · obtain hold | hbumped := h.bumped tx c hc
        · simp [hdue] at hold
        · exact .inr hbumped
      · exact .inl (List.mem_dedup.mpr (List.mem_map_of_mem hc))
    · obtain ⟨c, hc, rfl⟩ := List.mem_map.mp (List.mem_dedup.mp hkey)
      exact hseen c hc
  | bumpRevision tx key =>
    obtain ⟨⟨hdue, hfree⟩, rfl⟩ := guarded_eq_some.mp hstep
    exact sound_bump h hdue hfree
  | commit tx =>
    obtain ⟨_, rfl⟩ := guarded_eq_some.mp hstep
    exact sound_finish h (fun key => advanced_commit (h.advanced key) tx)
      (fun u hu key hb => (bumped_others hb hu).1)
      (fun u _ key hseen => visible_commit (h.advanced key) hseen) (applyChanges_distinct h.distinct)
  | abort tx =>
    cases hstep
    exact sound_finish h (fun key => advanced_abort (h.advanced key) tx)
      (fun u hu key hb => (bumped_others hb hu).2) (fun u hu key hseen => visible_abort hu hseen)
      h.distinct

/-- The revision does not go back, and while it stays the members stay. -/
def Kept (s t : State) : Prop := ∀ key,
  revision (s.groups key).committed ≤ revision (t.groups key).committed ∧
    (revision (s.groups key).committed = revision (t.groups key).committed →
      s.members key = t.members key)

theorem kept_of_same (hgroups : ∀ key, (t.groups key).committed = (s.groups key).committed)
    (hmembers : t.members = s.members) : Kept s t := by
  intro key
  rw [hgroups, hmembers]
  exact ⟨le_rfl, fun _ => rfl⟩

theorem writeGroup_committed (s : State) (tx : TxId) (key other : GroupKey) (value : Option ℕ) :
    ((writeGroup s tx key value).groups other).committed = (s.groups other).committed := by
  by_cases hk : other = key
  · subst hk
    simp [writeGroup]
  · simp [writeGroup, hk]

/-- Only a commit changes what is seen, and a transaction that has changed the members of a group
commits a newer revision of it. -/
theorem kept_step {e : Event} (h : Sound s) (hstep : step s e = some t) : Kept s t := by
  cases e with
  | insertGroup tx key =>
    obtain ⟨_, rfl⟩ := guarded_eq_some.mp hstep
    exact kept_of_same (fun other => writeGroup_committed s tx key other _) rfl
  | lockGroup tx key =>
    obtain ⟨_, rfl⟩ := guarded_eq_some.mp hstep
    exact kept_of_same (fun other => writeGroup_committed s tx key other _) rfl
  | writeMembers tx changes =>
    obtain ⟨_, rfl⟩ := guarded_eq_some.mp hstep
    exact kept_of_same (fun _ => rfl) rfl
  | bumpRevision tx key =>
    obtain ⟨_, rfl⟩ := guarded_eq_some.mp hstep
    exact kept_of_same (fun other => writeGroup_committed s tx key other _) rfl
  | commit tx =>
    obtain ⟨hdue, rfl⟩ := guarded_eq_some.mp hstep
    intro key
    refine ⟨commit_advances (h.advanced key) tx, fun heq => ?_⟩
    refine (applyChanges_other fun c hc hkey => ?_).symm
    obtain hold | ⟨value, hheld, hlt⟩ := h.bumped tx c hc
    · simp [hdue] at hold
    · rw [hkey] at hheld hlt
      simp only [Table.commit_apply, Row.commit_committed, Row.view_of_held hheld] at heq
      omega
  | abort tx =>
    cases hstep
    exact kept_of_same (fun key => Row.abort_committed) rfl

end Steps

section Runs

variable {s t : State} {es : List Event} {db : Database}

theorem reachable_sound (h : Reachable system s) : Sound s := by
  refine reachable_invariant (M := system) (I := Sound) (fun _ => sound_initial) ?_ h
  intro s e hs he
  exact sound_step hs (ofStep_enabled he)

theorem kept_along (hr : Reachable system s) (h : Execution system s es t) : Kept s t := by
  refine related_along (M := system) (R := Kept) (fun s => kept_of_same (fun _ => rfl) rfl) ?_ hr h
  intro s t e ht hst he key
  obtain ⟨hle, hsame⟩ := hst key
  have hkept : Kept t (system.next t e) := kept_step (reachable_sound ht) (ofStep_enabled he)
  obtain ⟨hle', hsame'⟩ := hkept key
  exact ⟨hle.trans hle', fun heq => (hsame (by omega)).trans (hsame' (by omega))⟩

/-- The members of a group are sorted by a key that tells them apart. -/
theorem matching_of_perm (hdistinct : Distinct (s.members key)) {first second : Snapshot}
    (hfirst : first.rows.Perm (s.members key)) (hsecond : second.rows.Perm (s.members key))
    (query : Option String) :
    matchingMembers db true first query = matchingMembers db true second query := by
  refine TotalOrder.sortBy_eq_of_perm _ (fun a ha b hb heq => ?_)
    ((hfirst.trans hsecond.symm).filter _)
  have hid : a.participantId = b.participantId := congrArg (·.2.2.2) heq
  exact List.inj_on_of_nodup_map ((hfirst.map _).nodup_iff.mpr hdistinct)
    (List.mem_of_mem_filter ha) (List.mem_of_mem_filter hb) hid

/-- Two calls that return one dataset revision see the same members in the same order; so the
pages of both are pages of one list, in which no matching member is missing or comes twice. -/
theorem equal_revisions_equal_lists (hr : Reachable system s) (h : Execution system s es t)
    {key : GroupKey} {first second : Snapshot} (hfirst : Sees s key first)
    (hsecond : Sees t key second) (query : Option String) {limit offset limit' offset' : ℕ}
    (heq : (listMembers db true first query limit offset).datasetRevision =
      (listMembers db true second query limit' offset').datasetRevision) :
    matchingMembers db true first query = matchingMembers db true second query ∧
      listMembers db true first query = listMembers db true second query ∧
      (matchingMembers db true first query).Perm
        (first.rows.filter (matchesPattern db true (searchPattern query))) ∧
      (matchingMembers db true first query).Nodup ∧
      ∀ limit offset limit', (listMembers db true first query limit offset).data ++
          (listMembers db true second query limit' (offset + limit)).data =
        (listMembers db true first query (limit + limit') offset).data := by
  have hrevision : first.revision.getD 0 = second.revision.getD 0 := heq
  have hmembers : s.members key = t.members key := by
    rw [hfirst.1, hsecond.1] at hrevision
    exact (kept_along hr h key).2 hrevision
  have hdistinct := (reachable_sound hr).distinct key
  have hrows : first.rows.Perm second.rows :=
    hfirst.2.trans (hmembers ▸ hsecond.2.symm)
  have hmatching : matchingMembers db true first query = matchingMembers db true second query :=
    matching_of_perm hdistinct hfirst.2 (hmembers ▸ hsecond.2) query
  have hlists : listMembers db true first query = listMembers db true second query := by
    funext limit offset
    simp only [listMembers, hmatching, hrevision,
      (hrows.filter (matchesPattern db true (searchPattern query))).length_eq]
  refine ⟨hmatching, hlists, TotalOrder.sortBy_perm _, ?_, fun limit offset limit' => ?_⟩
  · have hnodup : first.rows.Nodup :=
      List.Nodup.of_map _ ((hfirst.2.map _).nodup_iff.mpr hdistinct)
    exact (TotalOrder.sortBy_perm _).nodup_iff.mpr (hnodup.filter _)
  · rw [← hlists]
    simp only [listMembers, ← List.map_append, ← List.drop_drop, ← List.take_add]

def plainDatabase : Database where
  collation := TotalOrder.codePoints
  lower := id
  ilike pattern text := pattern = text

def member (participantId : String) (isAdmin : Bool) : MemberRow where
  participantId := participantId
  phoneNumber := participantId
  displayName := none
  identityType := none
  resolvedPhoneNumber := none
  displayNameSource := none
  shadowProjectionRevision := 0
  shadowDisplayName := none
  shadowResolvedPhoneNumber := none
  shadowDisplayNameSource := none
  shadowSortValue := none
  isAdmin := isAdmin
  isSuperAdmin := false

def noGroups : State where
  groups _ := Row.settled none
  members _ := []
  txs _ := .idle

/-- A refresh of a new group writes two members and commits. -/
def newGroup : List Event :=
  [.insertGroup 1 ("session-1", "group-1"),
    .writeMembers 1 [.put ("session-1", "group-1") (member "1" false),
      .put ("session-1", "group-1") (member "2" true)],
    .bumpRevision 1 ("session-1", "group-1"), .commit 1]

/-- A later transaction writes the group but none of its members. -/
def renamedGroup : List Event := [.lockGroup 2 ("session-1", "group-1"), .commit 2]

/-- The same rows, as two scans may find them. -/
def firstScan : Snapshot := ⟨some 1, [member "1" false, member "2" true]⟩

def secondScan : Snapshot := ⟨some 1, [member "2" true, member "1" false]⟩

theorem pages_of_one_revision :
    (listMembers plainDatabase true firstScan none 1 0).data ++
        (listMembers plainDatabase true secondScan none 1 1).data =
      (listMembers plainDatabase true firstScan none 2 0).data ∧
      (listMembers plainDatabase true firstScan none 2 0).data.map GroupMemberDto.participantId =
        ["2", "1"] := by
  have hvalid : ValidTrace system noGroups newGroup := by decide +kernel
  have hlater : ValidTrace system (runTrace system noGroups newGroup) renamedGroup := by
    decide +kernel
  have hinitial : system.initial noGroups :=
    ⟨fun _ => rfl, fun _ => rfl, fun _ => List.nodup_nil⟩
  have hfirst : Sees (runTrace system noGroups newGroup) ("session-1", "group-1") firstScan := by
    unfold Sees
    decide +kernel
  have hsecond : Sees (runTrace system (runTrace system noGroups newGroup) renamedGroup)
      ("session-1", "group-1") secondScan := by
    unfold Sees
    decide +kernel
  have hrevision : (listMembers plainDatabase true firstScan none 1 0).datasetRevision =
      (listMembers plainDatabase true secondScan none 1 1).datasetRevision := rfl
  have hlists := equal_revisions_equal_lists ⟨_, valid_trace_run hinitial hvalid⟩
    (valid_trace_execution hlater) hfirst hsecond none hrevision
  exact ⟨hlists.2.2.2.2 1 0 1, by decide +kernel⟩

end Runs

end MemberDatasetRevision
