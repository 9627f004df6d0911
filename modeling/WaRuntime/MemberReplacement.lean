import Mathlib.Data.List.Nodup
import WaRuntime.ContactEvidence
import WaRuntime.DelimitedTexts
import WaRuntime.GroupCapabilityRevision

/-! How the details of a group replace its members.
A member row is modelled by the four columns that the details give; no other statement writes
them. A refresh holds the session's lock on member projections until it commits, so that it is one
step. -/
namespace MemberReplacement

open TransitionRuns DelimitedTexts ContactNormalization
open ContactEvidence (Texts normalizeContactName)
open GroupCapabilityStatements (OpenWAGroup DetailsOptions)
open GroupCapabilityRevision (GroupKey Groups GroupEvent)

structure OpenWAGroupParticipant where
  id : String
  number : String
  name : Option String
  isAdmin : Bool
  isSuperAdmin : Bool
  deriving DecidableEq, Repr

/-- What the response schema lets through: no participant is listed twice. -/
structure GroupDetails where
  sending : OpenWAGroup
  participants : List OpenWAGroupParticipant
  distinct : (participants.map OpenWAGroupParticipant.id).Nodup

structure MemberRow where
  phoneNumber : String
  participantDisplayName : Option String
  isAdmin : Bool
  isSuperAdmin : Bool
  deriving DecidableEq, Repr

/-- The member rows of one group. -/
abbrev Members := String → Option MemberRow

/-- What the runtime computes on texts. -/
structure Runtime where
  sha256 : String → String
  localeCompare : String → String → Ordering
  texts : Texts

/-- The hash has no collisions, as the caller assumes. NFC is idempotent, and it makes no white
space out of another character. -/
structure LawfulRuntime (r : Runtime) : Prop where
  sha256 : Function.Injective r.sha256
  nfc_nfc : ∀ s, r.texts.nfc (r.texts.nfc s) = r.texts.nfc s
  nfc_trimmed : ∀ s, trim s.toList = s.toList → trim (r.texts.nfc s).toList = (r.texts.nfc s).toList

section Statements

variable (r : Runtime)

def participantText (p : OpenWAGroupParticipant) : List Char :=
  "\x7b\"id\":".toList ++ (string p.id ++
    (",\"number\":".toList ++ (string p.number ++
      (",\"name\":".toList ++ (optional "null".toList string p.name ++
        (",\"isAdmin\":".toList ++ (boolean p.isAdmin ++
          (",\"isSuperAdmin\":".toList ++ (boolean p.isSuperAdmin ++ "\x7d".toList)))))))))

def membersFingerprint (participants : List OpenWAGroupParticipant) : String :=
  r.sha256 (String.ofList (array participantText
    (participants.mergeSort fun left right => (r.localeCompare left.id right.id).isLE)))

/-- The row that `unnest` gives the INSERT. -/
def rawRow (p : OpenWAGroupParticipant) : MemberRow :=
  ⟨p.number, p.name, p.isAdmin, p.isSuperAdmin⟩

/-- `participant_name` of the input of `seedGroupMembers`. -/
def participantName (p : OpenWAGroupParticipant) : Option String :=
  normalizeContactName r.texts p.name (normalizeContactIdentity p.id)

/-- The INSERT, whose ON CONFLICT clause leaves a row that is not distinct. -/
def upsertMembers (participants : List OpenWAGroupParticipant) (members : Members) : Members :=
  participants.foldl
    (fun members p =>
      if members p.id = some (rawRow p) then members
      else Function.update members p.id (some (rawRow p)))
    members

/-- The participants whose ids the INSERT returns. -/
def changedParticipants (participants : List OpenWAGroupParticipant) (members : Members) :
    List OpenWAGroupParticipant :=
  participants.filter fun p => members p.id ≠ some (rawRow p)

/-- `seedGroupMembers`, as far as its last statement writes these columns. -/
def seedGroupMembers (participants : List OpenWAGroupParticipant) (members : Members) : Members :=
  participants.foldl
    (fun members p => Function.update members p.id
      ((members p.id).map fun row => { row with participantDisplayName := participantName r p }))
    members

def deleteAbsent (ids : List String) (members : Members) : Members :=
  fun id => if id ∈ ids then members id else none

/-- The member statements of `upsertGroupDetails`. -/
def replaceMembers (fingerprint : Option String) (participants : List OpenWAGroupParticipant)
    (members : Members) : Members :=
  let membersChanged := fingerprint ≠ some (membersFingerprint r participants)
  let seeded :=
    if membersChanged ∧ 0 < participants.length then
      seedGroupMembers r (changedParticipants participants members)
        (upsertMembers participants members)
    else members
  if membersChanged then deleteAbsent (participants.map OpenWAGroupParticipant.id) seeded
  else seeded

end Statements

section System

variable (r : Runtime)

structure State where
  groups : Groups
  fingerprints : GroupKey → Option String
  members : GroupKey → Members

inductive Event where
  | group (e : GroupEvent)
  | upsertGroupDetails (key : GroupKey) (now : ℕ) (options : DetailsOptions)
      (group : GroupDetails) (found : Bool)

/-- What the locking SELECT found; where it found no row, another transaction may have inserted
one since. -/
def existing (s : State) (key : GroupKey) (found : Bool) :=
  if found then s.groups key else none

/-- Neither early return is taken. -/
def Applied (s : State) (key : GroupKey) (now : ℕ) (options : DetailsOptions) (found : Bool) :
    Prop :=
  options.Met now (existing s key found)

instance (s : State) (key : GroupKey) (now : ℕ) (options : DetailsOptions) (found : Bool) :
    Decidable (Applied s key now options found) :=
  inferInstanceAs (Decidable (options.Met now (existing s key found)))

/-- The other writers of a group; they leave its members and their fingerprint. -/
def OtherWriter : GroupEvent → Prop
  | .upsertGroupDetails .. => False
  | _ => True

def next (s : State) : Event → State
  | .group e => { s with groups := GroupCapabilityRevision.next s.groups e }
  | .upsertGroupDetails key now options group found =>
    if Applied s key now options found then
      { groups := GroupCapabilityRevision.next s.groups
          (.upsertGroupDetails key now options group.sending found)
        fingerprints := Function.update s.fingerprints key
          (some (membersFingerprint r group.participants))
        members := Function.update s.members key
          (replaceMembers r (if found then s.fingerprints key else none) group.participants
            (s.members key)) }
    else s

/-- The tables before the first member is written. -/
def Initial (s : State) : Prop :=
  (∀ key, s.fingerprints key = none) ∧ ∀ key id, s.members key id = none

def system : System State Event where
  initial := Initial
  enabled _ e := ∀ g, e = .group g → OtherWriter g
  next := next r

end System

section Specification

variable (r : Runtime)

/-- A participant as a member row. -/
def memberRow (p : OpenWAGroupParticipant) : MemberRow :=
  ⟨p.number, participantName r p, p.isAdmin, p.isSuperAdmin⟩

/-- Exactly the participants. -/
def participantRows (participants : List OpenWAGroupParticipant) : Members :=
  fun id => (participants.find? (·.id = id)).map (memberRow r)

/-- The slow path: all rows written anew. -/
def replaceAll (participants : List OpenWAGroupParticipant) : Members :=
  seedGroupMembers r participants (upsertMembers participants fun _ => none)

end Specification

section Names

variable {r : Runtime} {cs : List Char}

theorem trim_trim (cs : List Char) : trim (trim cs) = trim cs := by
  have hhead : ∀ (l : List Char) (c : Char),
      (l.dropWhile (· ∈ WebhookEvents.whiteSpace)).head? = some c → c ∉ WebhookEvents.whiteSpace := by
    intro l c hc
    have hnot := List.head?_dropWhile_not (· ∈ WebhookEvents.whiteSpace) l
    rw [hc] at hnot
    simpa using hnot
  refine trim_of_ends (fun c hc => ?_) fun c hc => ?_
  · have hprefix : trim cs <+: cs.dropWhile (· ∈ WebhookEvents.whiteSpace) := by
      unfold trim
      rw [← List.reverse_suffix, List.reverse_reverse]
      exact List.dropWhile_suffix _
    obtain ⟨rest, hrest⟩ := hprefix
    refine hhead cs c ?_
    rw [← hrest, List.head?_append, hc]
    rfl
  · unfold trim at hc
    rw [List.getLast?_reverse] at hc
    exact hhead _ c hc

/-- A name that has been normalized for an identity stays as it is. -/
theorem normalized_again (h : LawfulRuntime r) (name : Option String)
    (identity : NormalizedContactIdentity) :
    normalizeContactName r.texts (normalizeContactName r.texts name identity) identity =
      normalizeContactName r.texts name identity := by
  cases name with
  | none => rfl
  | some raw =>
    generalize hnorm : normalizeContactName r.texts (some raw) identity = result
    cases result with
    | none => rfl
    | some n =>
      simp only [normalizeContactName, Option.map_some] at hnorm
      split at hnorm
      · cases hnorm
      · rename_i hfine
        have hn : r.texts.nfc (String.ofList (trim raw.toList)) = n := Option.some.inj hnorm
        have htrimmed : trim n.toList = n.toList := by
          rw [← hn]
          refine h.nfc_trimmed _ ?_
          rw [String.toList_ofList]
          exact trim_trim raw.toList
        have hagain : r.texts.nfc (String.ofList (trim n.toList)) = n := by
          rw [htrimmed, String.ofList_toList, ← hn, h.nfc_nfc]
        rw [hn] at hfine
        simp only [normalizeContactName, Option.map_some, hagain, if_neg hfine]

end Names

section Fingerprints

variable {r : Runtime} {participants other : List OpenWAGroupParticipant}

theorem participantText_delimited : Delimited participantText := by
  have hname : Delimited (optional "null".toList string) := by
    refine string_delimited.optional ?_ (by decide)
    rintro c hc s
    refine ⟨'"', _, rfl, ?_⟩
    cases hc
    decide
  have hfields := string_delimited.pair <|
    (string_delimited.pair <|
      (hname.pair <|
        (boolean_delimited.pair <|
          (boolean_delimited.append "\x7d".toList).prepend ",\"isSuperAdmin\":".toList).prepend
            ",\"isAdmin\":".toList).prepend ",\"name\":".toList).prepend ",\"number\":".toList
  refine (hfields.prepend "\x7b\"id\":".toList).comp
    (k := fun p : OpenWAGroupParticipant => (p.id, p.number, p.name, p.isAdmin, p.isSuperAdmin)) ?_
  rintro ⟨⟩ ⟨⟩ heq
  simpa using heq

theorem participantText_starts : StartsOff ']' participantText :=
  fun _ => ⟨_, _, rfl, by decide⟩

/-- Payloads with one fingerprint list the same participants. -/
theorem fingerprint_perm (h : LawfulRuntime r)
    (heq : membersFingerprint r participants = membersFingerprint r other) :
    participants.Perm other := by
  have htexts := String.ofList_injective (h.sha256 heq)
  have hsorted := (array_delimited participantText_delimited participantText_starts).injective htexts
  have hperm := List.mergeSort_perm participants
    fun left right => (r.localeCompare left.id right.id).isLE
  rw [hsorted] at hperm
  exact hperm.symm.trans (List.mergeSort_perm other _)

end Fingerprints

section Rows

variable {r : Runtime} {participants other : List OpenWAGroupParticipant} {members : Members}
  {p : OpenWAGroupParticipant} {id : String}

theorem find_iff (hn : (participants.map OpenWAGroupParticipant.id).Nodup) :
    participants.find? (·.id = id) = some p ↔ p ∈ participants ∧ p.id = id := by
  constructor
  · intro hfind
    exact ⟨List.mem_of_find?_eq_some hfind, by simpa using List.find?_some hfind⟩
  · rintro ⟨hp, rfl⟩
    cases hfind : participants.find? (·.id = p.id) with
    | none =>
      have hnone := List.find?_eq_none.mp hfind p hp
      simp at hnone
    | some q =>
      have hq : q.id = p.id := by simpa using List.find?_some hfind
      rw [List.inj_on_of_nodup_map hn (List.mem_of_find?_eq_some hfind) hp hq]

/-- A statement that writes the row of each participant once. -/
theorem writes_apply (g : OpenWAGroupParticipant → Option MemberRow → Option MemberRow)
    (hn : (participants.map OpenWAGroupParticipant.id).Nodup) :
    participants.foldl (fun m p => Function.update m p.id (g p (m p.id))) members id =
      match participants.find? (·.id = id) with
      | some p => g p (members id)
      | none => members id := by
  induction participants generalizing members with
  | nil => rfl
  | cons p rest ih =>
    obtain ⟨hp, hrest⟩ := List.nodup_cons.mp hn
    rw [List.foldl_cons, ih hrest]
    by_cases hid : p.id = id
    · subst hid
      have hnone : rest.find? (·.id = p.id) = none := by
        rw [List.find?_eq_none]
        intro q hq hqp
        exact hp (List.mem_map.mpr ⟨q, hq, by simpa using hqp⟩)
      simp [hnone]
    · rw [Function.update_of_ne (Ne.symm hid), List.find?_cons_of_neg (by simpa using hid)]

theorem upsert_apply (hn : (participants.map OpenWAGroupParticipant.id).Nodup) :
    upsertMembers participants members id =
      match participants.find? (·.id = id) with
      | some p => some (rawRow p)
      | none => members id := by
  have hstep : ∀ (m : Members) (p : OpenWAGroupParticipant),
      (if m p.id = some (rawRow p) then m else Function.update m p.id (some (rawRow p))) =
        Function.update m p.id (some (rawRow p)) := by
    intro m p
    split
    · rename_i hsame
      rw [← hsame, Function.update_eq_self]
    · rfl
  simp only [upsertMembers, hstep]
  exact writes_apply (fun p _ => some (rawRow p)) hn

theorem seed_apply (hn : (participants.map OpenWAGroupParticipant.id).Nodup) :
    seedGroupMembers r participants members id =
      match participants.find? (·.id = id) with
      | some p => (members id).map
          fun row => { row with participantDisplayName := participantName r p }
      | none => members id :=
  writes_apply (fun p old => old.map
    fun row : MemberRow => { row with participantDisplayName := participantName r p }) hn

theorem rows_some_iff (hn : (participants.map OpenWAGroupParticipant.id).Nodup) {row : MemberRow} :
    participantRows r participants id = some row ↔
      ∃ p ∈ participants, p.id = id ∧ memberRow r p = row := by
  unfold participantRows
  rw [Option.map_eq_some_iff]
  constructor
  · rintro ⟨p, hfind, hrow⟩
    obtain ⟨hp, hid⟩ := (find_iff hn).mp hfind
    exact ⟨p, hp, hid, hrow⟩
  · rintro ⟨p, hp, hid, hrow⟩
    exact ⟨p, (find_iff hn).mpr ⟨hp, hid⟩, hrow⟩

/-- The order of the participants does not matter. -/
theorem rows_perm (hn : (participants.map OpenWAGroupParticipant.id).Nodup)
    (hperm : participants.Perm other) : participantRows r participants = participantRows r other := by
  funext id
  ext row
  rw [rows_some_iff hn, rows_some_iff ((hperm.map _).nodup_iff.mp hn)]
  simp only [hperm.mem_iff]

/-- A participant whose raw row is stored already needs no normalization: the name was stored
normalized for the same identifier. -/
theorem unchanged_row (h : LawfulRuntime r)
    (hn : (other.map OpenWAGroupParticipant.id).Nodup)
    (hsame : participantRows r other p.id = some (rawRow p)) : rawRow p = memberRow r p := by
  obtain ⟨q, _, hid, hrow⟩ := (rows_some_iff hn).mp hsame
  have hname : p.name = participantName r q := (congrArg MemberRow.participantDisplayName hrow).symm
  have hstays : participantName r p = p.name := by
    unfold participantName at hname ⊢
    rw [hname, hid]
    exact normalized_again h q.name (normalizeContactIdentity p.id)
  simp [rawRow, memberRow, hstays]

/-- The rows that changed are seeded, and the others are right. -/
theorem seeded_apply (h : LawfulRuntime r)
    (hn : (participants.map OpenWAGroupParticipant.id).Nodup)
    (hold : (other.map OpenWAGroupParticipant.id).Nodup) (hp : p ∈ participants) :
    seedGroupMembers r (changedParticipants participants (participantRows r other))
        (upsertMembers participants (participantRows r other)) p.id = some (memberRow r p) := by
  have hchanged : ((changedParticipants participants (participantRows r other)).map
      OpenWAGroupParticipant.id).Nodup :=
    hn.sublist (List.filter_sublist.map _)
  have hstored : upsertMembers participants (participantRows r other) p.id = some (rawRow p) := by
    rw [upsert_apply hn, (find_iff hn).mpr ⟨hp, rfl⟩]
  rw [seed_apply hchanged, hstored]
  by_cases hsame : participantRows r other p.id = some (rawRow p)
  · have hnone : (changedParticipants participants (participantRows r other)).find?
        (·.id = p.id) = none := by
      rw [List.find?_eq_none]
      intro q hq hid
      obtain ⟨hqin, hdiffers⟩ := List.mem_filter.mp hq
      have hqp : q = p := List.inj_on_of_nodup_map hn hqin hp (by simpa using hid)
      rw [hqp] at hdiffers
      simp [hsame] at hdiffers
    rw [hnone, unchanged_row h hold hsame]
  · have hfound : (changedParticipants participants (participantRows r other)).find?
        (·.id = p.id) = some p :=
      (find_iff hchanged).mpr ⟨List.mem_filter.mpr ⟨hp, by simpa using hsame⟩, rfl⟩
    rw [hfound]
    rfl

/-- The fast path, from rows that the stored fingerprint describes. -/
theorem replaced_exactly (h : LawfulRuntime r)
    (hn : (participants.map OpenWAGroupParticipant.id).Nodup)
    (hold : (other.map OpenWAGroupParticipant.id).Nodup) {fingerprint : Option String}
    (hdescribes : ∀ stored, fingerprint = some stored → stored = membersFingerprint r other) :
    replaceMembers r fingerprint participants (participantRows r other) =
      participantRows r participants := by
  unfold replaceMembers
  by_cases hchanged : fingerprint ≠ some (membersFingerprint r participants)
  · simp only [hchanged, not_false_eq_true, ne_eq, true_and, if_true]
    funext id
    unfold deleteAbsent
    split
    · rename_i hid
      obtain ⟨p, hp, rfl⟩ := List.mem_map.mp hid
      rw [if_pos (List.length_pos_of_mem hp), seeded_apply h hn hold hp]
      exact ((rows_some_iff hn).mpr ⟨p, hp, rfl, rfl⟩).symm
    · rename_i hid
      cases hrow : participantRows r participants id with
      | none => rfl
      | some row =>
        obtain ⟨p, hp, rfl, _⟩ := (rows_some_iff hn).mp hrow
        exact absurd (List.mem_map_of_mem hp) hid
  · have hstored : fingerprint = some (membersFingerprint r participants) := not_not.mp hchanged
    simp only [hstored, ne_eq, not_true_eq_false, false_and, if_false]
    exact rows_perm hold (fingerprint_perm h (hdescribes _ hstored).symm)

/-- The slow path gives the same rows. -/
theorem replaceAll_rows (hn : (participants.map OpenWAGroupParticipant.id).Nodup) :
    replaceAll r participants = participantRows r participants := by
  funext id
  unfold replaceAll participantRows
  rw [seed_apply hn, upsert_apply hn]
  cases participants.find? (·.id = id) <;> rfl

end Rows

section Runs

variable {r : Runtime} {s : State} {e : Event}

/-- The rows of every group are those of one payload, and the stored fingerprint is its. -/
def Described (r : Runtime) (s : State) : Prop := ∀ key, ∃ participants : List OpenWAGroupParticipant,
  (participants.map OpenWAGroupParticipant.id).Nodup ∧
    s.members key = participantRows r participants ∧
    ∀ stored, s.fingerprints key = some stored → stored = membersFingerprint r participants

theorem described_initial (h : Initial s) : Described r s := by
  intro key
  refine ⟨[], List.nodup_nil, funext (h.2 key), fun stored hstored => ?_⟩
  rw [h.1 key] at hstored
  cases hstored

/-- What an applied refresh leaves of its group. -/
theorem refreshed (h : LawfulRuntime r) (hd : Described r s) {key : GroupKey} {now : ℕ}
    {options : DetailsOptions} (group : GroupDetails) {found : Bool}
    (happlied : Applied s key now options found) :
    (next r s (.upsertGroupDetails key now options group found)).members key =
        participantRows r group.participants ∧
      (next r s (.upsertGroupDetails key now options group found)).fingerprints key =
        some (membersFingerprint r group.participants) := by
  obtain ⟨old, hold, hrows, hdescribes⟩ := hd key
  simp only [next, if_pos happlied, Function.update_self, and_true, hrows]
  refine replaced_exactly h group.distinct hold fun stored hstored => ?_
  cases found with
  | true => exact hdescribes stored (by simpa using hstored)
  | false => simp at hstored

theorem described_step (h : LawfulRuntime r) (hd : Described r s) (e : Event) :
    Described r (next r s e) := by
  cases e with
  | group e => exact hd
  | upsertGroupDetails key now options group found =>
    by_cases happlied : Applied s key now options found
    · obtain ⟨hrows, hstored⟩ := refreshed h hd group happlied
      intro other
      by_cases hk : other = key
      · subst hk
        refine ⟨group.participants, group.distinct, hrows, fun stored heq => ?_⟩
        rw [hstored] at heq
        exact (Option.some.inj heq).symm
      · simpa only [next, if_pos happlied, Function.update_of_ne hk] using hd other
    · simpa only [next, if_neg happlied] using hd

theorem reachable_described (h : LawfulRuntime r) (hr : Reachable (system r) s) :
    Described r s :=
  reachable_invariant (M := system r) (I := Described r) (fun _ hs => described_initial hs)
    (fun _ e hd _ => described_step h hd e) hr

/-- After an applied refresh the rows of the group are exactly the participants, as if they had all
been written anew. -/
theorem members_replaced (h : LawfulRuntime r) (hr : Reachable (system r) s) (key : GroupKey)
    (now : ℕ) (options : DetailsOptions) (group : GroupDetails) (found : Bool)
    (happlied : Applied s key now options found) :
    ((system r).next s (.upsertGroupDetails key now options group found)).members key =
        participantRows r group.participants ∧
      replaceAll r group.participants = participantRows r group.participants :=
  ⟨(refreshed h (reachable_described h hr) group happlied).1, replaceAll_rows group.distinct⟩

/-- The identity is in NFC on the ASCII texts below, and has no collisions. -/
def plainRuntime : Runtime where
  sha256 text := text
  localeCompare left right := if left = right then .eq else if left < right then .lt else .gt
  texts := ⟨id, id⟩

theorem plain_runtime_lawful : LawfulRuntime plainRuntime where
  sha256 _ _ h := h
  nfc_nfc _ := rfl
  nfc_trimmed _ h := h

def firstDetails : GroupDetails where
  sending := ⟨some false, some false, some false, none⟩
  participants := [⟨"2@lid", "2", some " Bo ", true, false⟩, ⟨"1@c.us", "1", some "Ann", false, false⟩]
  distinct := by decide

/-- The first participant is demoted, the second one stays, and a third one comes. -/
def secondDetails : GroupDetails where
  sending := ⟨some false, some false, some false, none⟩
  participants := [⟨"1@c.us", "1", some "Ann", false, false⟩, ⟨"2@lid", "2", some " Bo ", false, false⟩,
    ⟨"3@c.us", "3", some "3", false, false⟩]
  distinct := by decide

def noMembers : State where
  groups _ := none
  fingerprints _ := none
  members _ _ := none

theorem changed_members_replaced :
    ((system plainRuntime).next (runTrace (system plainRuntime) noMembers
        [.upsertGroupDetails ("session-1", "group-1") 1 ⟨none, none⟩ firstDetails false])
      (.upsertGroupDetails ("session-1", "group-1") 2 ⟨none, none⟩ secondDetails true)).members
        ("session-1", "group-1") = participantRows plainRuntime secondDetails.participants ∧
      participantRows plainRuntime secondDetails.participants "2@lid" =
        some ⟨"2", some "Bo", false, false⟩ ∧
      participantRows plainRuntime secondDetails.participants "3@c.us" =
        some ⟨"3", none, false, false⟩ := by
  have hreach : Reachable (system plainRuntime) (runTrace (system plainRuntime) noMembers
      [.upsertGroupDetails ("session-1", "group-1") 1 ⟨none, none⟩ firstDetails false]) :=
    ⟨_, valid_trace_run ⟨fun _ => rfl, fun _ _ => rfl⟩ ⟨fun _ h => (by cases h), trivial⟩⟩
  refine ⟨(members_replaced plain_runtime_lawful hreach _ 2 ⟨none, none⟩ secondDetails true ?_).1,
    by decide +kernel, by decide +kernel⟩
  exact ⟨fun _ h => (by cases h), fun _ h => (by cases h)⟩

end Runs

end MemberReplacement
