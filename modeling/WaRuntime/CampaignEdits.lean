import WaRuntime.SequentialEdits
import WaRuntime.TargetProvenance

/-! PATCH requests on campaigns.
A request reads the campaign, merges its partial body with what it has read, and writes the
result where the revision is still the one it has read. Requests run beside each other and beside
everything else that happens to campaigns. -/
namespace CampaignEdits

open TransitionRuns RowVersions VersionHistory SequentialEdits CampaignAggregates AggregateLocks
open CreationReplay (Formats CreationError resolveSchedule trim)
open CampaignTransactions (CampaignId Campaign CampaignScheduleType UpdateCampaignInput newCampaign
  updateDraft writeTargets)

section Service

/-- A property of a JSON body. -/
inductive Field (α : Type) where
  | undefined
  | null
  | value (v : α)
  deriving DecidableEq, Repr

def Field.isDefined {α : Type} : Field α → Bool
  | .undefined => false
  | _ => true

structure UpdateCampaignDto where
  expectedRevision : Field ℕ
  name : Field String
  text : Field String
  scheduleType : Field CampaignScheduleType
  scheduledAt : Field String
  deriving DecidableEq, Repr

/-- `revisions` are `expectedRevision` and `currentRevision` of the answer, where it has them. -/
structure UpdateError where
  status : ℕ
  code : Option String
  message : String
  revisions : Option (Option ℕ × ℕ)
  deriving DecidableEq, Repr

def notFound : UpdateError := ⟨404, some "CAMPAIGN_NOT_FOUND", "Campaign not found", none⟩

def notEditable (message : String) : UpdateError :=
  ⟨409, some "CAMPAIGN_NOT_EDITABLE", message, none⟩

def revisionConflict (message : String) (expected : Option ℕ) (current : ℕ) : UpdateError :=
  ⟨409, some "CAMPAIGN_REVISION_CONFLICT", message, some (expected, current)⟩

/-- `trim` of null. -/
def typeError : UpdateError := ⟨500, none, "Cannot read properties of null (reading 'trim')", none⟩

/-- The database refuses an invalid date. -/
def invalidDate : UpdateError :=
  ⟨500, none, "invalid input syntax for type timestamp with time zone", none⟩

def creationError (error : CreationError) : UpdateError :=
  ⟨error.status, error.code, error.message, none⟩

/-- The columns that a PATCH writes. -/
def content (row : Campaign) : UpdateCampaignInput :=
  ⟨row.name, row.text, row.scheduleType, row.scheduledAt⟩

/-- The checks of `update` on the campaign that `find` has returned. -/
def checkEditable (c : Config) (dto : UpdateCampaignDto) (found : Option Campaign) :
    Except UpdateError Campaign :=
  match found.filter fun row => row.deletedAt.isNone && decide (row.sessionId ∈ c.allowedSessionIds) with
  | none => .error notFound
  | some current =>
    if current.status ≠ .draft then .error (notEditable "Only DRAFT campaigns can be edited")
    else
      match dto.expectedRevision with
      | .undefined => .ok current
      | .null =>
        .error (revisionConflict "Campaign changed after it was loaded" none current.revision)
      | .value expected =>
        if expected = current.revision then .ok current
        else .error (revisionConflict "Campaign changed after it was loaded" (some expected)
          current.revision)

def scheduleKind : CampaignScheduleType → CreationReplay.CampaignScheduleType
  | .immediate => .immediate
  | .once => .once

def mergeType (field : Field CampaignScheduleType) (current : CampaignScheduleType) :
    CampaignScheduleType :=
  match field with
  | .value scheduleType => scheduleType
  | _ => current

/-- What `resolveSchedule` is given for `scheduledAt`. -/
def mergeValue (f : Formats) (field : Field String) (current : Option ℕ) : Option String :=
  match field with
  | .undefined => current.map fun scheduledAt : ℕ => f.isoString (scheduledAt : ℤ)
  | .null => none
  | .value text => some text

/-- The schedule is resolved as a whole where the body has one of its two fields. -/
def mergeSchedule (f : Formats) (date : ℕ) (dto : UpdateCampaignDto) (current : UpdateCampaignInput) :
    Except UpdateError (CampaignScheduleType × Option ℕ) :=
  if dto.scheduleType.isDefined || dto.scheduledAt.isDefined then
    match resolveSchedule f date (scheduleKind (mergeType dto.scheduleType current.scheduleType))
        (mergeValue f dto.scheduledAt current.scheduledAt) with
    | .error error => .error (creationError error)
    | .ok (_, none) => .ok (.immediate, none)
    | .ok (_, some none) => .error invalidDate
    | .ok (_, some (some scheduledAt)) => .ok (.once, some scheduledAt.toNat)
  else .ok (current.scheduleType, current.scheduledAt)

def mergeText (field : Field String) (current name : String) : Except UpdateError String :=
  match field with
  | .undefined => .ok current
  | .null => .error typeError
  | .value text =>
    match CreationReplay.nonBlank text name with
    | some error => .error (creationError error)
    | none => .ok (trim text)

/-- What `update` writes; `date` is `new Date()` of the validation. -/
def merge (f : Formats) (date : ℕ) (dto : UpdateCampaignDto) (current : UpdateCampaignInput) :
    Except UpdateError UpdateCampaignInput :=
  match mergeSchedule f date dto current with
  | .error error => .error error
  | .ok (scheduleType, scheduledAt) =>
    match mergeText dto.name current.name "name" with
    | .error error => .error error
    | .ok name =>
      match mergeText dto.text current.text "text" with
      | .error error => .error error
      | .ok text => .ok ⟨name, text, scheduleType, scheduledAt⟩

/-- The answer of `update` after a write that has found no row, by what `find` returns then. -/
def missed (expected : ℕ) (latest : Option Campaign) : UpdateError :=
  match latest.filter fun row => row.deletedAt.isNone && row.status == .draft with
  | some row =>
    revisionConflict "Campaign changed while the update was being applied" (some expected)
      row.revision
  | none => notEditable "Campaign is no longer editable"

end Service

/-- Where a request on a campaign stands; `current` is the campaign it has read. -/
inductive Request where
  | read (dto : UpdateCampaignDto) (current : Campaign)
  | merged (dto : UpdateCampaignDto) (date : ℕ) (current : Campaign) (input : UpdateCampaignInput)
  | missed (current : Campaign)
  | answered (result : Except UpdateError Campaign)

/-- A body with the date it was validated at. -/
structure Patch where
  request : ℕ
  dto : UpdateCampaignDto
  date : ℕ
  deriving DecidableEq, Repr

/-- `edits` are the successful writes on each campaign, in the order of their commits. -/
structure State where
  base : CampaignAggregates.State
  requests : ℕ → Option (CampaignId × Request)
  edits : CampaignId → List (Edit Patch UpdateCampaignInput)

def initial : State := ⟨CampaignAggregates.initial, fun _ => none, fun _ => []⟩

inductive Event where
  | base (event : CampaignAggregates.Event)
  | read (r : ℕ) (id : CampaignId) (dto : UpdateCampaignDto)
  | merge (r : ℕ) (date : ℕ)
  | write (r : ℕ) (now : ℕ)
  | reread (r : ℕ)
  deriving Repr

/-- The largest time value of a `Date`. -/
def maxTime : ℕ := 8640000000000000

/-- The CHECK on the schedule columns, and what a `Date` can hold. -/
def Scheduled (input : UpdateCampaignInput) : Prop :=
  match input.scheduleType, input.scheduledAt with
  | .immediate, none => True
  | .once, some scheduledAt => scheduledAt ≤ maxTime
  | _, _ => False

instance (input : UpdateCampaignInput) : Decidable (Scheduled input) := by
  unfold Scheduled
  split <;> infer_instance

/-- Campaigns are edited by requests only, and created with a schedule that the table accepts. -/
def Outside : CampaignAggregates.Event → Prop
  | .updateCampaign _ _ _ _ => False
  | .createCampaign _ input _ =>
    Scheduled ⟨input.name, input.text, input.scheduleType, input.scheduledAt⟩
  | _ => True

instance : (e : CampaignAggregates.Event) → Decidable (Outside e)
  | .updateCampaign _ _ _ _ => isFalse id
  | .createCampaign _ input _ =>
    inferInstanceAs (Decidable (Scheduled
      ⟨input.name, input.text, input.scheduleType, input.scheduledAt⟩))
  | .exec _ | .changeStatus _ _ _ | .createList _ _ _ | .updateList _ _ _ _ _ | .archiveList _ _ _
  | .tx _ _ => isTrue trivial

def State.setRequest (s : State) (r : ℕ) (id : CampaignId) (request : Request) : State :=
  { s with requests := Function.update s.requests r (some (id, request)) }

def afterRead (c : Config) (dto : UpdateCampaignDto) (found : Option Campaign) : Request :=
  match checkEditable c dto found with
  | .ok current => .read dto current
  | .error error => .answered (.error error)

def afterMerge (f : Formats) (date : ℕ) (dto : UpdateCampaignDto) (current : Campaign) : Request :=
  match merge f date dto (content current) with
  | .ok input => .merged dto date current input
  | .error error => .answered (.error error)

/-- The UPDATE of a request, on the row as it is committed then. -/
def writeRequest (c : Config) (s : State) (r : ℕ) (id : CampaignId) (patch : Patch)
    (current : Campaign) (input : UpdateCampaignInput) (now : ℕ) : Option State :=
  (CampaignAggregates.step c s.base (.updateCampaign id input current.revision now)).map fun base =>
    match (s.base.campaigns id).committed.bind (updateDraft input current.revision now) with
    | some row =>
      { (s.setRequest r id (.answered (.ok row))) with
        base := base
        edits := Function.update s.edits id (s.edits id ++ [⟨patch, content row⟩]) }
    | none => { (s.setRequest r id (.missed current)) with base := base }

def step (c : Config) (f : Formats) (s : State) : Event → Option State
  | .base event =>
    if Outside event then
      (CampaignAggregates.step c s.base event).map fun base => { s with base := base }
    else none
  | .read r id dto =>
    guarded (s.requests r = none)
      (s.setRequest r id (afterRead c dto (s.base.campaigns id).committed))
  | .merge r date =>
    match s.requests r with
    | some (id, .read dto current) => some (s.setRequest r id (afterMerge f date dto current))
    | _ => none
  | .write r now =>
    match s.requests r with
    | some (id, .merged dto date current input) =>
      writeRequest c s r id ⟨r, dto, date⟩ current input now
    | _ => none
  | .reread r =>
    match s.requests r with
    | some (id, .missed current) =>
      some (s.setRequest r id
        (.answered (.error (missed current.revision (s.base.campaigns id).committed))))
    | _ => none

def system (c : Config) (f : Formats) : System State Event := ofStep (· = initial) (step c f)

instance (c : Config) (f : Formats) (s : State) (e : Event) :
    Decidable ((system c f).enabled s e) :=
  inferInstanceAs (Decidable ((step c f s e).isSome = true))

variable {c : Config} {f : Formats} {s u : State} {e : Event} {id : CampaignId}

section Rows

/-- Everything but a PATCH leaves the content of a campaign; only its deletion raises the
revision. -/
def Kept (old new : Campaign) : Prop :=
  content new = content old ∧
    (new.revision = old.revision ∧ new.deletedAt = old.deletedAt ∨
      old.deletedAt = none ∧ new.deletedAt ≠ none ∧ new.revision = old.revision + 1)

def RowKept (v w : Option Campaign) : Prop :=
  ∀ old, v = some old → ∃ new, w = some new ∧ Kept old new

theorem row_kept_refl (v : Option Campaign) : RowKept v v :=
  fun old h => ⟨old, h, rfl, .inl ⟨rfl, rfl⟩⟩

theorem row_kept_trans (v w x : Option Campaign) (h : RowKept v w) (k : RowKept w x) :
    RowKept v x := by
  intro old hold
  obtain ⟨mid, hmid, hcontent, hcase⟩ := h old hold
  obtain ⟨new, hnew, hcontent', hcase'⟩ := k mid hmid
  refine ⟨new, hnew, hcontent'.trans hcontent, ?_⟩
  obtain ⟨hr, hd⟩ | ⟨hd, hsome, hr⟩ := hcase
  · obtain ⟨hr', hd'⟩ | ⟨hd', hsome', hr'⟩ := hcase'
    · exact .inl ⟨hr'.trans hr, hd'.trans hd⟩
    · exact .inr ⟨hd ▸ hd', hsome', hr ▸ hr'⟩
  · obtain ⟨hr', hd'⟩ | ⟨hd', _, _⟩ := hcase'
    · exact .inr ⟨hd, hd' ▸ hsome, hr'.trans hr⟩
    · exact absurd hd' hsome

theorem row_kept_of_same {old new : Campaign} (hc : content new = content old)
    (hr : new.revision = old.revision) (hd : new.deletedAt = old.deletedAt) :
    RowKept (some old) (some new) := by
  rintro _ ⟨⟩
  exact ⟨new, rfl, hc, .inl ⟨hr, hd⟩⟩

theorem statement_keeps {x : CampaignAggregates.State} {event : CampaignAggregates.Event}
    {g : Option Campaign → Option (Option Campaign)} {v w : Option Campaign}
    (hs : CampaignStatement c x event id g)
    (he : ∀ input expected now, event ≠ .updateCampaign id input expected now) (hw : g v = some w) :
    RowKept v w := by
  cases hs with
  | create =>
    obtain ⟨rfl, rfl⟩ := insertRow_some hw
    intro old hold
    cases hold
  | update => exact absurd rfl (he _ _ _)
  | changeStatus =>
    obtain ⟨old, new, rfl, hnew, rfl⟩ := onRow_some hw
    obtain ⟨_, status, _, rfl⟩ := statusChange_some hnew
    exact row_kept_of_same rfl rfl rfl
  | select =>
    obtain ⟨old, new, rfl, hnew, rfl⟩ := onRow_some hw
    rw [selecting_some hnew]
    exact row_kept_refl _
  | replace =>
    obtain ⟨old, new, rfl, hnew, rfl⟩ := onRow_some hw
    obtain ⟨targets, rfl⟩ := replaced_some hnew
    exact row_kept_of_same rfl rfl rfl
  | apply =>
    obtain ⟨old, new, rfl, hnew, rfl⟩ := onRow_some hw
    rw [applied_some hnew]
    exact row_kept_of_same rfl rfl rfl
  | launch =>
    obtain ⟨old, new, rfl, hnew, rfl⟩ := onRow_some hw
    obtain ⟨_, _, rfl⟩ := launch_some hnew
    exact row_kept_of_same rfl rfl rfl
  | tombstone =>
    obtain ⟨old, new, rfl, hnew, rfl⟩ := onRow_some hw
    obtain ⟨hd, rfl⟩ := tombstone_some hnew
    rintro _ ⟨⟩
    exact ⟨_, rfl, rfl, .inr ⟨hd, by simp, rfl⟩⟩

/-- What a transaction holds of a campaign has the committed content. -/
theorem campaigns_follow {x : CampaignAggregates.State}
    (h : Reachable (CampaignAggregates.system c) x) : ∀ id, (x.campaigns id).Follows RowKept := by
  refine reachable_invariant (M := CampaignAggregates.system c)
    (I := fun x => ∀ id, (x.campaigns id).Follows RowKept) ?_ (fun x event hI he id => ?_) h
  · rintro _ rfl id
    exact Row.follows_settled _
  · obtain ⟨v, exec, _, _, ⟨hr, _⟩, hu⟩ := CampaignAggregates.step_some (ofStep_enabled he)
    rw [show (CampaignAggregates.system c).next x event = _ from hu]
    refine Effect.follows_inside row_kept_refl row_kept_trans hI hr fun n g w ho hs hw => ?_
    refine statement_keeps (campaign_statement hs) ?_ hw
    rintro input expected now rfl
    cases ho

theorem committed_kept {x y : CampaignAggregates.State} {event : CampaignAggregates.Event}
    (hr : Reachable (CampaignAggregates.system c) x)
    (h : CampaignAggregates.step c x event = some y)
    (he : ∀ input expected now, event ≠ .updateCampaign id input expected now) :
    RowKept (x.campaigns id).committed (y.campaigns id).committed := by
  obtain ⟨v, exec, _, _, ⟨hready, _⟩, rfl⟩ := CampaignAggregates.step_some h
  change RowKept _ ((campaignEffect c x event).apply x.campaigns id).committed
  have hrow := Effect.row_moves hready id
  generalize (campaignEffect c x event).apply x.campaigns id = row at hrow ⊢
  cases hrow with
  | same => exact row_kept_refl _
  | own hs _ _ hw => exact statement_keeps (campaign_statement hs) he hw
  | inside => exact row_kept_refl _
  | commit _ hh => exact campaigns_follow hr id _ _ hh
  | abort => exact row_kept_refl _

end Rows

section Steps

/-- What a step does. -/
inductive Moves (c : Config) (f : Formats) (s : State) : State → Prop where
  | base {event : CampaignAggregates.Event} {base : CampaignAggregates.State} :
      Outside event → CampaignAggregates.step c s.base event = some base →
      Moves c f s { s with base := base }
  | read {r : ℕ} {id : CampaignId} {dto : UpdateCampaignDto} : s.requests r = none →
      Moves c f s (s.setRequest r id (afterRead c dto (s.base.campaigns id).committed))
  | merged {r date : ℕ} {id : CampaignId} {dto : UpdateCampaignDto} {current : Campaign} :
      s.requests r = some (id, .read dto current) →
      Moves c f s (s.setRequest r id (afterMerge f date dto current))
  | written {r date now : ℕ} {id : CampaignId} {dto : UpdateCampaignDto} {current old row : Campaign}
      {input : UpdateCampaignInput} {base : CampaignAggregates.State} :
      s.requests r = some (id, .merged dto date current input) →
      CampaignAggregates.step c s.base (.updateCampaign id input current.revision now) = some base →
      (s.base.campaigns id).committed = some old →
      updateDraft input current.revision now old = some row →
      Moves c f s { (s.setRequest r id (.answered (.ok row))) with
        base := base
        edits := Function.update s.edits id (s.edits id ++ [⟨⟨r, dto, date⟩, content row⟩]) }
  | missed {r date now : ℕ} {id : CampaignId} {dto : UpdateCampaignDto} {current : Campaign}
      {input : UpdateCampaignInput} {base : CampaignAggregates.State} :
      s.requests r = some (id, .merged dto date current input) →
      CampaignAggregates.step c s.base (.updateCampaign id input current.revision now) = some base →
      (∀ old, (s.base.campaigns id).committed = some old →
        updateDraft input current.revision now old = none) →
      Moves c f s { (s.setRequest r id (.missed current)) with base := base }
  | reread {r : ℕ} {id : CampaignId} {current : Campaign} : s.requests r = some (id, .missed current) →
      Moves c f s (s.setRequest r id
        (.answered (.error (CampaignEdits.missed current.revision (s.base.campaigns id).committed))))

theorem step_moves (h : step c f s e = some u) : Moves c f s u := by
  cases e with
  | base event =>
    simp only [step] at h
    split at h
    · rename_i houtside
      obtain ⟨base, hb, rfl⟩ := Option.map_eq_some_iff.mp h
      exact .base houtside hb
    · cases h
  | read r id dto =>
    obtain ⟨hfree, rfl⟩ := guarded_eq_some.mp h
    exact .read hfree
  | merge r date =>
    simp only [step] at h
    split at h <;> cases h
    rename_i hread
    exact .merged hread
  | write r now =>
    simp only [step] at h
    split at h
    · rename_i hmerged
      obtain ⟨base, hb, rfl⟩ := Option.map_eq_some_iff.mp h
      split
      · rename_i row hrow
        obtain ⟨old, hold, hupdate⟩ := Option.bind_eq_some_iff.mp hrow
        exact .written hmerged hb hold hupdate
      · rename_i hnone
        refine .missed hmerged hb fun old hold => ?_
        simpa [hold] using hnone
    · cases h
  | reread r =>
    simp only [step] at h
    split at h <;> cases h
    rename_i hmissed
    exact .reread hmissed

theorem base_reachable (h : Reachable (system c f) s) :
    Reachable (CampaignAggregates.system c) s.base := by
  refine Projects.reachable (f := State.base) (projects_ofStep ?_ fun s e u h => ?_) h
  · rintro _ rfl
    rfl
  · cases step_moves h with
    | base _ hb => exact ⟨_, ofStep_execution hb⟩
    | written _ hb => exact ⟨_, ofStep_execution hb⟩
    | missed _ hb => exact ⟨_, ofStep_execution hb⟩
    | read | merged | reread => exact ⟨[], Execution.refl⟩

/-- The UPDATE of a PATCH changes the row of its campaign, as the database finds it. -/
theorem update_row {x y : CampaignAggregates.State} {input : UpdateCampaignInput}
    {expected now : ℕ} {i : CampaignId}
    (h : CampaignAggregates.step c x (.updateCampaign i input expected now) = some y) :
    (y.campaigns id).committed =
      if id = i then
        ((x.campaigns i).committed.bind (updateDraft input expected now)).or (x.campaigns i).committed
      else (x.campaigns id).committed := by
  obtain ⟨v, exec, _, _, _, rfl⟩ := CampaignAggregates.step_some h
  change ((x.campaigns).update (onRow (updateDraft input expected now)) i id).committed = _
  by_cases hid : id = i
  · subst hid
    cases hrow : (x.campaigns id).committed with
    | none => simp [Row.update, hrow, onRow]
    | some old =>
      cases hu : updateDraft input expected now old <;> simp [Row.update, hrow, onRow, hu]
  · simp [hid]

theorem updateDraft_row {input : UpdateCampaignInput} {expected now : ℕ} {old new : Campaign}
    (h : updateDraft input expected now old = some new) :
    old.revision = expected ∧ content new = input ∧ new.deletedAt = old.deletedAt ∧
      new.revision = old.revision + if content new = content old then 0 else 1 := by
  unfold updateDraft at h
  split at h
  · rename_i hguard
    cases h
    refine ⟨hguard.2.2, rfl, rfl, ?_⟩
    by_cases hc : content old = input
    · simp [content, ← hc]
    · have hne : (⟨input.name, input.text, input.scheduleType, input.scheduledAt⟩ :
          UpdateCampaignInput) ≠ content old := fun hi => hc hi.symm
      simp only [content] at hc hne ⊢
      simp [hc, hne]
  · cases h

/-- A step on a campaign that is there: it is kept, or one PATCH is written to it. -/
inductive RowStep (s u : State) (id : CampaignId) (old new : Campaign) : Prop where
  | kept (edits : u.edits id = s.edits id) (row : Kept old new)
  | written {r date : ℕ} {dto : UpdateCampaignDto} {current : Campaign}
      (request : s.requests r = some (id, .merged dto date current (content new)))
      (answer : u.requests r = some (id, .answered (.ok new)))
      (edits : u.edits id = s.edits id ++ [⟨⟨r, dto, date⟩, content new⟩])
      (read : old.revision = current.revision) (deleted : new.deletedAt = old.deletedAt)
      (revision : new.revision = old.revision + if content new = content old then 0 else 1)

theorem row_step_refl {old : Campaign} (h : u.edits = s.edits) : RowStep s u id old old :=
  .kept (by rw [h]) ⟨rfl, .inl ⟨rfl, rfl⟩⟩

theorem row_step (hr : Reachable (system c f) s) (h : step c f s e = some u) {old : Campaign}
    (hold : (s.base.campaigns id).committed = some old) :
    ∃ new, (u.base.campaigns id).committed = some new ∧ RowStep s u id old new := by
  cases step_moves h with
  | @base event base houtside hb =>
    have hother : ∀ input expected now, event ≠ .updateCampaign id input expected now := by
      rintro input expected now rfl
      exact houtside
    obtain ⟨new, hnew, hk⟩ := committed_kept (base_reachable hr) hb hother old hold
    exact ⟨new, hnew, .kept rfl hk⟩
  | @written r date now i dto current found row input base hmerged hb hfound hupdate =>
    have hrow := @update_row _ id _ _ _ _ _ _ hb
    rw [hfound] at hrow
    by_cases hid : id = i
    · subst hid
      rw [hold] at hfound
      cases hfound
      obtain ⟨hrevision, rfl, hdeleted, hraised⟩ := updateDraft_row hupdate
      have hrequests : (s.setRequest r id (.answered (.ok row))).requests r =
          some (id, .answered (.ok row)) := by
        simp [State.setRequest]
      refine ⟨row, by simpa [hupdate] using hrow,
        .written hmerged hrequests ?_ hrevision hdeleted hraised⟩
      simp
    · refine ⟨old, by simpa [hid, hold] using hrow, .kept ?_ ⟨rfl, .inl ⟨rfl, rfl⟩⟩⟩
      simp [Function.update_of_ne hid]
  | @missed r date now i dto current input base hmerged hb hnone =>
    have hrow := @update_row _ id _ _ _ _ _ _ hb
    refine ⟨old, ?_, row_step_refl rfl⟩
    by_cases hid : id = i
    · subst hid
      simpa [hold, hnone old hold] using hrow
    · simpa [hid, hold] using hrow
  | read | merged | reread => exact ⟨old, hold, row_step_refl rfl⟩

end Steps

section Merges

/-- `Date` reads back what it writes, and holds no later time. -/
structure LawfulDates (f : Formats) : Prop where
  read_back : ∀ time : ℕ, time ≤ maxTime → f.parseDate (f.isoString time) = some (time : ℤ)
  bounded : ∀ value time, f.parseDate value = some time → time ≤ maxTime

variable {date : ℕ} {dto : UpdateCampaignDto} {before after : UpdateCampaignInput}

/-- The instant of a resolved schedule is that of the given text, and lies ahead. -/
theorem resolved_once {value : Option String} {kind : CreationReplay.CampaignScheduleType}
    {time : ℤ} (h : resolveSchedule f date .once value = .ok (kind, some (some time))) :
    ∃ text, value = some text ∧ f.parseDate text = some time ∧ (date : ℤ) < time := by
  simp only [resolveSchedule] at h
  split at h
  · cases h
  · rename_i text hgiven
    have hvalue : value = some text := (Option.filter_eq_some_iff.mp hgiven).1
    split at h
    · cases h
    · split at h
      · cases h
      · rename_i parsed hparsed
        split at h
        · cases h
        · rename_i hlater
          cases h
          exact ⟨text, hvalue, hparsed, by omega⟩

theorem merged_schedule (hf : LawfulDates f) (hs : Scheduled before)
    {scheduleType : CampaignScheduleType} {scheduledAt : Option ℕ}
    (h : mergeSchedule f date dto before = .ok (scheduleType, scheduledAt)) :
    Scheduled ⟨before.name, before.text, scheduleType, scheduledAt⟩ ∧
      scheduleType = mergeType dto.scheduleType before.scheduleType ∧
      (dto.scheduledAt = .undefined → dto.scheduleType ≠ .value .immediate →
        scheduledAt = before.scheduledAt) := by
  unfold mergeSchedule at h
  split at h
  · cases hkind : mergeType dto.scheduleType before.scheduleType with
    | immediate =>
      simp only [hkind, scheduleKind, resolveSchedule] at h
      cases h
      refine ⟨trivial, rfl, fun _ hne => ?_⟩
      have htype : before.scheduleType = .immediate := by
        unfold mergeType at hkind
        split at hkind
        · rename_i v hv
          exact absurd (hkind ▸ hv) hne
        · exact hkind
      cases hat : before.scheduledAt with
      | none => rfl
      | some time => simp [Scheduled, htype, hat] at hs
    | once =>
      rw [hkind] at h
      split at h
      · cases h
      · rename_i resolved _ hresolved
        simp only [scheduleKind, resolveSchedule] at hresolved
        repeat' split at hresolved
        all_goals cases hresolved
      · cases h
      · rename_i kind time hresolved
        cases h
        obtain ⟨text, hvalue, hparsed, hlater⟩ := resolved_once hresolved
        have hbound := hf.bounded text time hparsed
        refine ⟨?_, rfl, fun hundefined _ => ?_⟩
        · change time.toNat ≤ maxTime
          omega
        · rw [hundefined] at hvalue
          obtain ⟨old, hold, rfl⟩ := Option.map_eq_some_iff.mp hvalue
          have hle : old ≤ maxTime := by
            unfold Scheduled at hs
            rw [hold] at hs
            split at hs
            · rename_i hnone
              cases hnone
            · rename_i htime
              cases htime
              exact hs
            · exact hs.elim
          rw [hf.read_back old hle] at hparsed
          cases hparsed
          simp [hold]
  · rename_i hnone
    cases h
    have htype : dto.scheduleType = .undefined := by
      cases hd : dto.scheduleType <;> simp [hd, Field.isDefined] at hnone ⊢
    refine ⟨hs, ?_, fun _ _ => rfl⟩
    rw [htype]
    rfl

theorem merged_text {field : Field String} {current name text : String}
    (h : mergeText field current name = .ok text) : field = .undefined → text = current := by
  rintro rfl
  cases h
  rfl

/-- A patch on the complete content: what it does not mention stays. A schedule that becomes
IMMEDIATE has no instant. -/
structure Applied (f : Formats) (patch : Patch) (before after : UpdateCampaignInput) : Prop where
  merged : merge f patch.date patch.dto before = .ok after
  name : patch.dto.name = .undefined → after.name = before.name
  text : patch.dto.text = .undefined → after.text = before.text
  scheduleType : (∀ v, patch.dto.scheduleType ≠ .value v) → after.scheduleType = before.scheduleType
  scheduledAt : patch.dto.scheduledAt = .undefined → patch.dto.scheduleType ≠ .value .immediate →
    after.scheduledAt = before.scheduledAt

theorem merge_applied (hf : LawfulDates f) (hs : Scheduled before) {r : ℕ}
    (h : merge f date dto before = .ok after) :
    Applied f ⟨r, dto, date⟩ before after ∧ Scheduled after := by
  have hmerge := h
  unfold merge at hmerge
  split at hmerge
  · cases hmerge
  · rename_i scheduleType scheduledAt hschedule
    obtain ⟨hscheduled, htype, hat⟩ := merged_schedule hf hs hschedule
    split at hmerge
    · cases hmerge
    · rename_i name hname
      split at hmerge
      · cases hmerge
      · rename_i text htext
        cases hmerge
        refine ⟨⟨h, merged_text hname, merged_text htext, fun hne => ?_, hat⟩, hscheduled⟩
        change scheduleType = before.scheduleType
        rw [htype]
        unfold mergeType
        split
        · rename_i v hv
          exact absurd hv (hne v)
        · rfl

end Merges

section Requests

/-- Nobody holds a campaign that is not there. -/
theorem absent_free {x : CampaignAggregates.State} (h : Reachable (CampaignAggregates.system c) x) :
    ∀ id, (x.campaigns id).committed = none → (x.campaigns id).Free := by
  refine reachable_invariant (M := CampaignAggregates.system c)
    (I := fun x => ∀ id, (x.campaigns id).committed = none → (x.campaigns id).Free) ?_
    (fun x event hI he id hnone => ?_) h
  · rintro _ rfl id _
    rfl
  · obtain ⟨v, exec, _, _, ⟨hr, _⟩, hu⟩ := CampaignAggregates.step_some (ofStep_enabled he)
    rw [show (CampaignAggregates.system c).next x event = _ from hu] at hnone ⊢
    change ((campaignEffect c x event).apply x.campaigns id).committed = none at hnone
    change ((campaignEffect c x event).apply x.campaigns id).Free
    have hrow := Effect.row_moves hr id
    generalize (campaignEffect c x event).apply x.campaigns id = row at hrow hnone ⊢
    cases hrow with
    | same => exact hI id hnone
    | own => rfl
    | inside hs ho _ hw =>
      rw [Row.view_of_free (hI id hnone), show (x.campaigns id).committed = none from hnone] at hw
      cases campaign_statement hs with
      | create => cases ho
      | _ =>
        obtain ⟨_, _, hold, _⟩ := onRow_some hw
        cases hold
    | commit => rfl
    | abort => rfl

/-- A campaign appears with its creation. -/
theorem absent_step {x y : CampaignAggregates.State} {event : CampaignAggregates.Event}
    (hr : Reachable (CampaignAggregates.system c) x)
    (h : CampaignAggregates.step c x event = some y) (hnone : (x.campaigns id).committed = none)
    {new : Campaign} (hnew : (y.campaigns id).committed = some new) :
    ∃ input now, event = .createCampaign id input now ∧ new = newCampaign now input := by
  obtain ⟨v, exec, _, _, ⟨hready, _⟩, rfl⟩ := CampaignAggregates.step_some h
  change ((campaignEffect c x event).apply x.campaigns id).committed = some new at hnew
  have hrow := Effect.row_moves hready id
  generalize (campaignEffect c x event).apply x.campaigns id = row at hrow hnew
  cases hrow with
  | same | inside | abort =>
    change (x.campaigns id).committed = some new at hnew
    rw [hnone] at hnew
    cases hnew
  | own hs _ _ hw =>
    rw [hnone] at hw
    cases campaign_statement hs with
    | create =>
      obtain ⟨_, rfl⟩ := insertRow_some hw
      cases hnew
      exact ⟨_, _, rfl, rfl⟩
    | _ =>
      obtain ⟨_, _, hold, _⟩ := onRow_some hw
      cases hold
  | commit _ hh =>
    rw [absent_free hr id hnone] at hh
    cases hh

/-- What a request has read of its campaign is the current content or an earlier one. -/
def Seen (s : State) (id : CampaignId) (current : Campaign) : Prop :=
  Scheduled (content current) ∧ ∃ row, (s.base.campaigns id).committed = some row ∧
    Advances (current.revision, content current) (row.revision, content row)

def Pending (f : Formats) (s : State) (id : CampaignId) : Request → Prop
  | .read _ current => Seen s id current
  | .merged dto date current input => Seen s id current ∧
    merge f date dto (content current) = .ok input
  | _ => True

structure EditsTracked (f : Formats) (s : State) : Prop where
  scheduled : ∀ id row, (s.base.campaigns id).committed = some row → Scheduled (content row)
  pending : ∀ r id request, s.requests r = some (id, request) → Pending f s id request

theorem row_step_advances {old new : Campaign} (h : RowStep s u id old new) :
    Advances (old.revision, content old) (new.revision, content new) := by
  cases h with
  | kept _ row =>
    obtain ⟨hc, ⟨hr, _⟩ | ⟨_, _, hr⟩⟩ := row
    · exact .inr (by rw [hc, hr])
    · exact .inl (by omega)
  | written _ _ _ _ _ revision =>
    by_cases hc : content new = content old
    · rw [if_pos hc] at revision
      exact .inr (by rw [hc, revision]; rfl)
    · rw [if_neg hc] at revision
      exact .inl (by omega)

theorem seen_step (hr : Reachable (system c f) s) (h : step c f s e = some u) {current : Campaign}
    (hs : Seen s id current) : Seen u id current := by
  obtain ⟨hscheduled, row, hrow, hadvances⟩ := hs
  obtain ⟨new, hnew, hstep⟩ := row_step hr h hrow
  exact ⟨hscheduled, new, hnew, advances_trans hadvances (row_step_advances hstep)⟩

theorem pending_step (hr : Reachable (system c f) s) (h : step c f s e = some u)
    {request : Request} (hs : Pending f s id request) : Pending f u id request := by
  cases request with
  | read => exact seen_step hr h hs
  | merged => exact ⟨seen_step hr h hs.1, hs.2⟩
  | missed | answered => trivial

theorem admitted {dto : UpdateCampaignDto} {found : Option Campaign} {current : Campaign}
    (h : checkEditable c dto found = .ok current) : found = some current := by
  unfold checkEditable at h
  split at h
  · cases h
  · rename_i row hrow
    have hfound : found = some row := (Option.filter_eq_some_iff.mp hrow).1
    split at h
    · cases h
    · split at h
      · cases h
        exact hfound
      · cases h
      · split at h
        · cases h
          exact hfound
        · cases h

/-- A PATCH is applied to the content that it finds: no one has changed it since it was read. -/
theorem written_applied (hf : LawfulDates f) (hI : EditsTracked f s) {old : Campaign}
    {r date : ℕ} {dto : UpdateCampaignDto} {current : Campaign} {input : UpdateCampaignInput}
    (hold : (s.base.campaigns id).committed = some old)
    (hrequest : s.requests r = some (id, .merged dto date current input))
    (hread : old.revision = current.revision) :
    Applied f ⟨r, dto, date⟩ (content old) input ∧ Scheduled input := by
  obtain ⟨⟨hscheduled, row, hrow, hadvances⟩, hmerge⟩ := hI.pending r id _ hrequest
  rw [hold] at hrow
  cases hrow
  rw [hread] at hadvances
  rw [← advances_same_version hadvances]
  exact merge_applied hf hscheduled hmerge

theorem scheduled_step (hf : LawfulDates f) (hr : Reachable (system c f) s) (hI : EditsTracked f s)
    (h : step c f s e = some u) {row : Campaign}
    (hrow : (u.base.campaigns id).committed = some row) : Scheduled (content row) := by
  cases hold : (s.base.campaigns id).committed with
  | some old =>
    obtain ⟨new, hnew, hstep⟩ := row_step hr h hold
    rw [hrow] at hnew
    cases hnew
    cases hstep with
    | kept _ hk =>
      rw [hk.1]
      exact hI.scheduled id old hold
    | written request _ _ read => exact (written_applied hf hI hold request read).2
  | none =>
    have hsame : u.base = s.base → Scheduled (content row) := by
      intro hb
      rw [hb, hold] at hrow
      cases hrow
    cases step_moves h with
    | base houtside hb =>
      obtain ⟨input, now, rfl, rfl⟩ := absent_step (base_reachable hr) hb hold hrow
      exact houtside
    | written _ hb =>
      obtain ⟨_, _, hevent, _⟩ := absent_step (base_reachable hr) hb hold hrow
      cases hevent
    | missed _ hb =>
      obtain ⟨_, _, hevent, _⟩ := absent_step (base_reachable hr) hb hold hrow
      cases hevent
    | read | merged | reread => exact hsame rfl

theorem requests_step (hr : Reachable (system c f) s) (hI : EditsTracked f s)
    (h : step c f s e = some u) {r : ℕ} {request : Request}
    (hrequest : u.requests r = some (id, request)) : Pending f u id request := by
  have hkept : s.requests r = some (id, request) → Pending f u id request :=
    fun hold => pending_step hr h (hI.pending r id request hold)
  -- the request that takes the step, or any other
  have hset : ∀ (k : ℕ) (i : CampaignId) (next : Request),
      Function.update s.requests k (some (i, next)) r = some (id, request) →
        (k = r → Pending f s i next) → Pending f u id request := by
    intro k i next hnext hpending
    by_cases hk : r = k
    · subst hk
      rw [Function.update_self] at hnext
      cases hnext
      exact pending_step hr h (hpending rfl)
    · rw [Function.update_of_ne hk] at hnext
      exact hkept hnext
  cases step_moves h with
  | base => exact hkept hrequest
  | @read k i dto =>
    refine hset k i _ hrequest fun _ => ?_
    unfold afterRead
    split
    · rename_i current hadmit
      have hfound := admitted hadmit
      exact ⟨hI.scheduled i current hfound, current, hfound, .inr rfl⟩
    · trivial
  | @merged k date i dto current hread =>
    refine hset k i _ hrequest fun _ => ?_
    unfold afterMerge
    split
    · rename_i input hmerge
      exact ⟨hI.pending k i _ hread, hmerge⟩
    · trivial
  | written => exact hset _ _ _ hrequest fun _ => trivial
  | missed => exact hset _ _ _ hrequest fun _ => trivial
  | reread => exact hset _ _ _ hrequest fun _ => trivial

theorem edits_tracked (hf : LawfulDates f) (h : Reachable (system c f) s) : EditsTracked f s := by
  refine reachable_invariant_with (M := system c f) (I := EditsTracked f)
    (J := Reachable (system c f)) (fun _ => id) ?_ (fun s e hr hI he => ?_) h
  · rintro _ rfl
    exact ⟨fun _ _ hrow => (nomatch hrow), fun _ _ _ hrequest => (nomatch hrequest)⟩
  · have hstep := ofStep_enabled he
    exact ⟨fun id row hrow => scheduled_step hf hr hI hstep hrow,
      fun r id request hrequest => requests_step hr hI hstep hrequest⟩

end Requests

section Linearization

/-- The log has the successful requests, each of them once. -/
structure Logged (s : State) : Prop where
  logged : ∀ id e, e ∈ s.edits id →
    ∃ row, s.requests e.patch.request = some (id, .answered (.ok row)) ∧ content row = e.result
  answered : ∀ r id row, s.requests r = some (id, .answered (.ok row)) →
    ∃ e ∈ s.edits id, e.patch.request = r ∧ e.result = content row
  once : ∀ id, ((s.edits id).map fun e => e.patch.request).Nodup

/-- A request that has not succeeded takes a step without success. -/
theorem logged_set {r : ℕ} {next : Request} (hI : Logged s)
    (hopen : ∀ i row, s.requests r ≠ some (i, .answered (.ok row)))
    (hnext : ∀ row, next ≠ .answered (.ok row)) : Logged (s.setRequest r id next) := by
  constructor
  · intro i e he
    obtain ⟨row, hrow, hresult⟩ := hI.logged i e he
    refine ⟨row, ?_, hresult⟩
    have hne : e.patch.request ≠ r := by
      intro heq
      exact hopen i row (heq ▸ hrow)
    change Function.update s.requests r _ _ = _
    rwa [Function.update_of_ne hne]
  · intro k i row hrow
    change Function.update s.requests r _ _ = _ at hrow
    by_cases hk : k = r
    · subst hk
      rw [Function.update_self] at hrow
      cases hrow
      exact absurd rfl (hnext row)
    · rw [Function.update_of_ne hk] at hrow
      exact hI.answered k i row hrow
  · exact hI.once

theorem logged_written {r : ℕ} {patch : Patch} {row : Campaign} {base : CampaignAggregates.State}
    (hI : Logged s) (hopen : ∀ i row, s.requests r ≠ some (i, .answered (.ok row)))
    (hpatch : patch.request = r) :
    Logged { (s.setRequest r id (.answered (.ok row))) with
      base := base
      edits := Function.update s.edits id (s.edits id ++ [⟨patch, content row⟩]) } := by
  have hother : ∀ i e, e ∈ s.edits i → e.patch.request ≠ r := by
    intro i e he heq
    obtain ⟨found, hfound, _⟩ := hI.logged i e he
    exact hopen i found (heq ▸ hfound)
  constructor
  · intro i e he
    change ∃ row', Function.update s.requests r (some (id, .answered (.ok row))) e.patch.request =
      some (i, .answered (.ok row')) ∧ content row' = e.result
    have hold : e ∈ s.edits i → ∃ row',
        Function.update s.requests r (some (id, .answered (.ok row))) e.patch.request =
          some (i, .answered (.ok row')) ∧ content row' = e.result := by
      intro he
      obtain ⟨found, hfound, hresult⟩ := hI.logged i e he
      exact ⟨found, by rwa [Function.update_of_ne (hother i e he)], hresult⟩
    by_cases hi : i = id
    · subst hi
      simp only [Function.update_self, List.mem_append, List.mem_singleton] at he
      rcases he with he | rfl
      · exact hold he
      · exact ⟨row, by simp [hpatch], rfl⟩
    · simp only [Function.update_of_ne hi] at he
      exact hold he
  · intro k i found hfound
    change Function.update s.requests r _ k = _ at hfound
    by_cases hk : k = r
    · subst hk
      rw [Function.update_self] at hfound
      cases hfound
      exact ⟨⟨patch, content row⟩, by simp, hpatch, rfl⟩
    · rw [Function.update_of_ne hk] at hfound
      obtain ⟨e, he, hrequest, hresult⟩ := hI.answered k i found hfound
      refine ⟨e, ?_, hrequest, hresult⟩
      by_cases hi : i = id
      · subst hi
        simp [he]
      · simpa [Function.update_of_ne hi] using he
  · intro i
    by_cases hi : i = id
    · subst hi
      simp only [Function.update_self, List.map_append, List.map_cons, List.map_nil]
      refine List.nodup_append.mpr ⟨hI.once i, List.nodup_singleton _, ?_⟩
      intro a ha b hb hab
      obtain ⟨e, he, rfl⟩ := List.mem_map.mp ha
      rw [List.mem_singleton] at hb
      exact hother i e he (hab.trans (hb.trans hpatch))
    · simpa [Function.update_of_ne hi] using hI.once i

theorem logged_step (hI : Logged s) (h : step c f s e = some u) : Logged u := by
  have hopen : ∀ r i (request : Request), s.requests r = some (i, request) →
      (∀ row, request ≠ .answered (.ok row)) →
        ∀ i row, s.requests r ≠ some (i, .answered (.ok row)) := by
    intro r i request hr hne j row hrow
    rw [hr] at hrow
    cases hrow
    exact hne row rfl
  cases step_moves h with
  | base => exact ⟨hI.logged, hI.answered, hI.once⟩
  | read hfree =>
    refine logged_set hI (fun i row hrow => by rw [hfree] at hrow; cases hrow) fun row => ?_
    unfold afterRead
    split <;> simp
  | merged hread =>
    refine logged_set hI (hopen _ _ _ hread (by simp)) fun row => ?_
    unfold afterMerge
    split <;> simp
  | written hmerged => exact logged_written hI (hopen _ _ _ hmerged (by simp)) rfl
  | @missed r date now i dto current input base hmerged =>
    have hset : Logged (s.setRequest r i (.missed current)) :=
      logged_set hI (hopen _ _ _ hmerged (by simp)) (by simp)
    exact ⟨hset.logged, hset.answered, hset.once⟩
  | reread hmissed => exact logged_set hI (hopen _ _ _ hmissed (by simp)) (by simp)

theorem edits_logged (h : Reachable (system c f) s) : Logged s := by
  refine reachable_invariant (M := system c f) (I := Logged) ?_
    (fun s e hI he => logged_step hI (ofStep_enabled he)) h
  rintro _ rfl
  exact ⟨fun _ _ he => (nomatch he), fun _ _ _ hr => (nomatch hr), fun _ => List.nodup_nil⟩

/-- The row of a campaign after the edits of the log. -/
structure Linearized (f : Formats) (old new : Campaign) (log : List (Edit Patch UpdateCampaignInput)) :
    Prop where
  sequential : Sequential (Applied f) (content old) log (content new)
  revision : new.revision = old.revision + material (content old) log +
    if old.deletedAt = none ∧ new.deletedAt ≠ none then 1 else 0
  deleted : old.deletedAt ≠ none → new.deletedAt ≠ none

theorem linearized_refl (row : Campaign) : Linearized f row row [] := by
  refine ⟨rfl, ?_, id⟩
  have hno : ¬ (row.deletedAt = none ∧ row.deletedAt ≠ none) := fun h => h.2 h.1
  simp [material, hno]

theorem linearized_kept {old mid new : Campaign} {log : List (Edit Patch UpdateCampaignInput)}
    (h : Linearized f old mid log) (k : Kept mid new) : Linearized f old new log := by
  obtain ⟨hc, hcase⟩ := k
  have hrevision := h.revision
  refine ⟨hc ▸ h.sequential, ?_, ?_⟩
  · obtain ⟨hr, hd⟩ | ⟨hd, hsome, hr⟩ := hcase
    · rw [hr, hd]
      exact hrevision
    · have hold : old.deletedAt = none := by
        by_contra hne
        exact h.deleted hne hd
      simp only [hold, hd, ne_eq, not_true_eq_false, and_false, if_false] at hrevision
      simp only [hold, hsome, ne_eq, not_false_eq_true, and_self, if_true]
      omega
  · intro hne
    obtain ⟨_, hd⟩ | ⟨_, hsome, _⟩ := hcase
    · rw [hd]
      exact h.deleted hne
    · exact hsome

theorem linearized_written {old mid new : Campaign} {log : List (Edit Patch UpdateCampaignInput)}
    {patch : Patch} (h : Linearized f old mid log) (ha : Applied f patch (content mid) (content new))
    (hd : new.deletedAt = mid.deletedAt)
    (hr : new.revision = mid.revision + if content new = content mid then 0 else 1) :
    Linearized f old new (log ++ [⟨patch, content new⟩]) := by
  have hrevision := h.revision
  refine ⟨sequential_append h.sequential ⟨ha, rfl⟩, ?_, by rw [hd]; exact h.deleted⟩
  rw [material_append h.sequential, hd, hr]
  simp only [material]
  omega

/-- The successful edits of an execution, one after the other. -/
theorem execution_linearized (hf : LawfulDates f) (hr : Reachable (system c f) s) {es : List Event}
    (h : Execution (system c f) s es u) {old : Campaign}
    (hold : (s.base.campaigns id).committed = some old) :
    ∃ new log, (u.base.campaigns id).committed = some new ∧ u.edits id = s.edits id ++ log ∧
      Linearized f old new log := by
  induction h with
  | refl => exact ⟨old, [], hold, by simp, linearized_refl old⟩
  | step h he ih =>
    obtain ⟨mid, log, hmid, hedits, hlinear⟩ := ih
    have hreached := hr.extend h
    obtain ⟨new, hnew, hstep⟩ := row_step hreached (ofStep_enabled he) hmid
    cases hstep with
    | kept edits row => exact ⟨new, log, hnew, edits.trans hedits, linearized_kept hlinear row⟩
    | written request _ edits read deleted revision =>
      obtain ⟨happlied, _⟩ := written_applied hf (edits_tracked hf hreached) hmid request read
      refine ⟨new, _, hnew, ?_, linearized_written hlinear happlied deleted revision⟩
      rw [← List.append_assoc, ← hedits]
      exact edits

/-- What the log says of single fields: a field that no edit mentions stays as it was. The instant
also goes where an edit makes the schedule IMMEDIATE. -/
structure FieldsKept (before after : UpdateCampaignInput)
    (log : List (Edit Patch UpdateCampaignInput)) : Prop where
  name : (∀ e ∈ log, e.patch.dto.name = .undefined) → after.name = before.name
  text : (∀ e ∈ log, e.patch.dto.text = .undefined) → after.text = before.text
  scheduleType : (∀ e ∈ log, ∀ v, e.patch.dto.scheduleType ≠ .value v) →
    after.scheduleType = before.scheduleType
  scheduledAt : (∀ e ∈ log, e.patch.dto.scheduledAt = .undefined ∧
    e.patch.dto.scheduleType ≠ .value .immediate) → after.scheduledAt = before.scheduledAt

theorem fields_kept {before after : UpdateCampaignInput}
    {log : List (Edit Patch UpdateCampaignInput)} (h : Sequential (Applied f) before log after) :
    FieldsKept before after log := by
  constructor
  · intro hlog
    refine sequential_field (fun patch => patch.dto.name ≠ .undefined) h ?_ ?_
    · exact fun patch _ _ happlied hundefined => happlied.name (not_not.mp hundefined)
    · exact fun e he => not_not.mpr (hlog e he)
  · intro hlog
    refine sequential_field (fun patch => patch.dto.text ≠ .undefined) h ?_ ?_
    · exact fun patch _ _ happlied hundefined => happlied.text (not_not.mp hundefined)
    · exact fun e he => not_not.mpr (hlog e he)
  · intro hlog
    refine sequential_field (fun patch => ∃ v, patch.dto.scheduleType = .value v) h ?_ ?_
    · exact fun patch _ _ happlied hnone => happlied.scheduleType fun v hv => hnone ⟨v, hv⟩
    · exact fun e he ⟨v, hv⟩ => hlog e he v hv
  · intro hlog
    refine sequential_field (fun patch => ¬ (patch.dto.scheduledAt = .undefined ∧
      patch.dto.scheduleType ≠ .value .immediate)) h ?_ ?_
    · exact fun patch _ _ happlied hboth =>
        happlied.scheduledAt (not_not.mp hboth).1 (not_not.mp hboth).2
    · exact fun e he => not_not.mpr (hlog e he)

theorem campaign_edits_linearize (hf : LawfulDates f) (hr : Reachable (system c f) s)
    {es : List Event} (h : Execution (system c f) s es u) :
    Logged u ∧ ∀ id old, (s.base.campaigns id).committed = some old → ∃ new log,
      (u.base.campaigns id).committed = some new ∧ u.edits id = s.edits id ++ log ∧
        Linearized f old new log ∧ FieldsKept (content old) (content new) log := by
  refine ⟨edits_logged (hr.extend h), fun id old hold => ?_⟩
  obtain ⟨new, log, hnew, hedits, hlinear⟩ := execution_linearized hf hr h hold
  exact ⟨new, log, hnew, hedits, hlinear, fields_kept hlinear.sequential⟩

/-- Dates that are lawful: one instant has its usual text, any other time that many zeros. -/
def exampleFormats : Formats where
  parseDate value :=
    if value = "1970-01-01T00:00:01.000Z" then some 1000
    else if value.length ≤ maxTime then some value.length else none
  isoString time :=
    if time = 1000 then "1970-01-01T00:00:01.000Z"
    else String.ofList (List.replicate time.toNat '0')
  sha256 text := text
  isUUID _ := true
  isISO8601 _ := true

theorem exampleFormats_lawful : LawfulDates exampleFormats := by
  constructor
  · intro time hle
    by_cases htime : (time : ℤ) = 1000
    · simp [exampleFormats, htime]
    · have hne : String.ofList (List.replicate time '0') ≠ "1970-01-01T00:00:01.000Z" := by
        intro heq
        have hlist := congrArg String.toList heq
        rw [String.toList_ofList] at hlist
        have hmem : '-' ∈ List.replicate time '0' := by
          rw [hlist]
          decide
        cases List.eq_of_mem_replicate hmem
      simp [exampleFormats, htime, hne, hle]
  · intro value time h
    simp only [exampleFormats] at h
    split at h
    · cases h
      decide
    · split at h
      · rename_i hle
        cases h
        exact_mod_cast hle
      · cases h

def exampleSystem : System State Event := system CampaignAggregates.exampleConfig exampleFormats

instance (s : State) (e : Event) : Decidable (exampleSystem.enabled s e) :=
  inferInstanceAs (Decidable ((step CampaignAggregates.exampleConfig exampleFormats s e).isSome = true))

def createDraft : List Event :=
  [.base (.createCampaign 1 ⟨"session", "offer", "Hello", .immediate, none, "key", "hash"⟩ 0)]

/-- Two requests have read the same campaign. The second one finds it changed; it is repeated, and
repeated once more without effect. -/
def concurrentPatches : List Event :=
  [.read 0 1 ⟨.undefined, .value "news", .undefined, .undefined, .undefined⟩,
    .read 1 1 ⟨.undefined, .undefined, .value "Hi", .undefined, .undefined⟩,
    .merge 0 0, .merge 1 0, .write 0 0, .write 1 0, .reread 1,
    .read 2 1 ⟨.undefined, .undefined, .value "Hi", .undefined, .undefined⟩, .merge 2 0, .write 2 0,
    .read 3 1 ⟨.undefined, .undefined, .value "Hi", .undefined, .undefined⟩, .merge 3 0, .write 3 0]

theorem concurrent_patches_linearize :
    let s := runTrace exampleSystem initial createDraft
    let u := runTrace exampleSystem s concurrentPatches
    ∃ old new, (s.base.campaigns 1).committed = some old ∧ (u.base.campaigns 1).committed = some new ∧
      Linearized exampleFormats old new (u.edits 1) ∧
      (u.edits 1).map (fun e => e.patch.request) = [0, 2, 3] ∧
      content new = ⟨"news", "Hi", .immediate, none⟩ ∧ new.revision = old.revision + 2 := by
  intro s u
  have hs : Reachable exampleSystem s := ⟨createDraft, valid_trace_run rfl (by decide +kernel)⟩
  have hx : Execution exampleSystem s concurrentPatches u := valid_trace_execution (by decide +kernel)
  obtain ⟨old, hold⟩ : ∃ old, (s.base.campaigns 1).committed = some old := ⟨_, rfl⟩
  obtain ⟨new, log, hnew, hedits, hlinear, _⟩ :=
    (campaign_edits_linearize exampleFormats_lawful hs hx).2 1 old hold
  obtain rfl : u.edits 1 = log := hedits
  have hnow : ((u.base.campaigns 1).committed.map fun row => (content row, row.revision)) =
      some (⟨"news", "Hi", .immediate, none⟩, 3) := by decide +kernel
  have hthen : ((s.base.campaigns 1).committed.map fun row => row.revision) = some 1 := rfl
  rw [hnew] at hnow
  rw [hold] at hthen
  simp only [Option.map_some, Option.some.injEq, Prod.mk.injEq] at hnow hthen
  refine ⟨old, new, hold, hnew, hlinear, by decide +kernel, hnow.1, ?_⟩
  rw [hnow.2, hthen]

/-- An instant is set, and then the schedule made IMMEDIATE. -/
def schedulePatch : List Event :=
  [.read 0 1 ⟨.undefined, .undefined, .undefined, .value .once, .value "1970-01-01T00:00:01.000Z"⟩,
    .merge 0 0, .write 0 0]

def immediatePatch : List Event :=
  [.read 1 1 ⟨.undefined, .undefined, .undefined, .value .immediate, .undefined⟩, .merge 1 0,
    .write 1 0]

/-- The second body does not mention the instant, and sets it back to what it was. -/
theorem immediate_patch_reverts_instant :
    ∃ s t u es e old mid new, Reachable exampleSystem s ∧ Execution exampleSystem s schedulePatch t ∧
      Execution exampleSystem t es u ∧ u.edits 1 = t.edits 1 ++ [e] ∧
      e.patch.dto.scheduledAt = .undefined ∧ (s.base.campaigns 1).committed = some old ∧
      (t.base.campaigns 1).committed = some mid ∧ (u.base.campaigns 1).committed = some new ∧
      old.scheduledAt = none ∧ mid.scheduledAt = some 1000 ∧ new.scheduledAt = none := by
  have hs : Reachable exampleSystem (runTrace exampleSystem initial createDraft) :=
    ⟨createDraft, valid_trace_run rfl (by decide +kernel)⟩
  refine ⟨_, _, _, immediatePatch, _, _, _, _, hs, valid_trace_execution (by decide +kernel),
    valid_trace_execution (by decide +kernel), rfl, rfl, rfl, rfl, rfl, rfl, rfl, rfl⟩

end Linearization

end CampaignEdits
