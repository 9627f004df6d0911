import WaRuntime.CampaignAggregates

/-! What the locks of the campaign and list transactions guarantee: the row that a transaction has
locked stays as it read it until the transaction writes it, and what it has checked on that row
is still so then. -/
namespace AggregateLocks

open TransitionRuns RowVersions CampaignRunStatements CampaignAggregates
open CampaignTransactions (CampaignId CampaignStatus Campaign GroupList CreateRunRequest
  UpdateCampaignInput newCampaign updateDraft setStatus writeTargets revisionsDiffer replayRun
  notLaunchable)

variable {c : Config} {s u v : State} {e : Event} {n : ℕ} {event : TxEvent} {id : CampaignId}
  {list : ListId} {k k' : AggregateTx} {row : Campaign}

/-- The statements on a row of `campaigns`, with the stage of the transaction they belong to. -/
inductive CampaignStatement (c : Config) (s : State) : Event → CampaignId →
    (Option Campaign → Option (Option Campaign)) → Prop where
  | create {id input now} :
      CampaignStatement c s (.createCampaign id input now) id (insertRow (newCampaign now input))
  | update {id input expected now} :
      CampaignStatement c s (.updateCampaign id input expected now) id
        (onRow (updateDraft input expected now))
  | changeStatus {id change now} :
      CampaignStatement c s (.changeStatus id change now) id (onRow (change.write now))
  | select {n event id found} : CampaignStatement c s (.tx n event) id (onRow (selecting found))
  | replace {n id groupIds row now} : s.txs n = .replacing id groupIds row →
      CampaignStatement c s (.tx n (.writeTargets now)) id (onRow (replaced c groupIds now))
  | apply {n id row source now} : s.txs n = .provided id row source →
      CampaignStatement c s (.tx n (.writeApplied now)) id (onRow (applied source now))
  | launch {n request row date now} : s.txs n = .inserting request row date →
      CampaignStatement c s (.tx n (.insertRun now)) request.campaignId
        (onRow (launch request now))
  | tombstone {n id row now} : s.txs n = .inspecting id row [] →
      CampaignStatement c s (.tx n (.tombstone now)) id
        (onRow (CampaignTransactions.tombstone now))

theorem campaign_statement {f : Option Campaign → Option (Option Campaign)}
    (h : (campaignEffect c s e).statement id = some f) : CampaignStatement c s e id f := by
  cases e
  case tx n event =>
    change (txCampaignEffect c s n (s.txs n) event).statement id = some f at h
    unfold txCampaignEffect at h
    split at h
    all_goals try split at h
    all_goals simp only [Effect.statement, Option.ite_none_right_eq_some, Option.some.injEq,
      reduceCtorEq] at h
    all_goals obtain ⟨rfl, rfl⟩ := h
    all_goals
      first
      | exact .select
      | exact .replace (by assumption)
      | exact .apply (by assumption)
      | exact .launch (by assumption)
      | exact .tombstone (by assumption)
  all_goals simp only [campaignEffect, Effect.statement, Option.ite_none_right_eq_some,
    Option.some.injEq, reduceCtorEq] at h
  case createCampaign =>
    obtain ⟨rfl, rfl⟩ := h
    exact .create
  case updateCampaign =>
    obtain ⟨rfl, rfl⟩ := h
    exact .update
  case changeStatus =>
    obtain ⟨rfl, rfl⟩ := h
    exact .changeStatus

/-- The statements on a row of `group_lists`. -/
inductive ListStatement (c : Config) (s : State) : Event → ListId →
    (Option SavedList → Option (Option SavedList)) → Prop where
  | create {list input now} :
      ListStatement c s (.createList list input now) list (insertRow (newList c now input))
  | update {list name description expected now} :
      ListStatement c s (.updateList list name description expected now) list
        (onRow (updated name description expected now))
  | archive {list expected now} :
      ListStatement c s (.archiveList list expected now) list (onRow (archived expected now))
  | select {n list groupIds expected membership} : s.txs n = .idle →
      ListStatement c s (.tx n (.lockList list groupIds expected membership)) list
        (onRow (selecting notArchived))
  | regroup {n list groupIds found now} : s.txs n = .regrouping list groupIds found →
      ListStatement c s (.tx n (.writeGroups now)) list (onRow (regrouped c groupIds now))

theorem list_statement {f : Option SavedList → Option (Option SavedList)}
    (h : (listEffect c s e).statement list = some f) : ListStatement c s e list f := by
  cases e
  case tx n event =>
    change (txListEffect c s n (s.txs n) event).statement list = some f at h
    unfold txListEffect at h
    split at h
    all_goals try split at h
    all_goals simp only [Effect.statement, Option.ite_none_right_eq_some, Option.some.injEq,
      reduceCtorEq] at h
    all_goals obtain ⟨rfl, rfl⟩ := h
    all_goals first | exact .select (by assumption) | exact .regroup (by assumption)
  all_goals simp only [listEffect, Effect.statement, Option.ite_none_right_eq_some,
    Option.some.injEq, reduceCtorEq] at h
  case createList =>
    obtain ⟨rfl, rfl⟩ := h
    exact .create
  case updateList =>
    obtain ⟨rfl, rfl⟩ := h
    exact .update
  case archiveList =>
    obtain ⟨rfl, rfl⟩ := h
    exact .archive

theorem onRow_some {ρ : Type} {f : ρ → Option ρ} {v w : Option ρ} (h : onRow f v = some w) :
    ∃ old new, v = some old ∧ f old = some new ∧ w = some new := by
  cases v with
  | none => cases h
  | some old =>
    obtain ⟨new, hnew, rfl⟩ := Option.map_eq_some_iff.mp h
    exact ⟨old, new, rfl, hnew, rfl⟩

theorem insertRow_some {ρ : Type} {row : ρ} {v w : Option ρ} (h : insertRow row v = some w) :
    v = none ∧ w = some row := by
  cases v with
  | none =>
    cases h
    exact ⟨rfl, rfl⟩
  | some _ => cases h

theorem selecting_some {ρ : Type} {found : ρ → Bool} {old new : ρ}
    (h : selecting found old = some new) : new = old := by
  unfold selecting at h
  split at h
  · cases h
    rfl
  · cases h

theorem replaced_some {groupIds : List CampaignExecution.GroupId} {now : ℕ} {new : Campaign}
    (h : replaced c groupIds now row = some new) : ∃ targets, new = writeTargets targets none now row := by
  unfold replaced at h
  split at h
  · cases h
    exact ⟨_, rfl⟩
  · split at h
    · cases h
      exact ⟨_, rfl⟩
    · cases h

theorem applied_some {source : GroupList} {now : ℕ} {new : Campaign}
    (h : applied source now row = some new) :
    new = writeTargets source.groupIds (provenance source now) now row := by
  unfold applied at h
  split at h
  · cases h
    rfl
  · cases h

theorem setStatus_some {accepted : List CampaignStatus} {status : CampaignStatus} {now : ℕ}
    {new : Campaign} (h : setStatus accepted status now row = some new) :
    row.status ∈ accepted ∧ new = { row with status := status, updatedAt := now } := by
  unfold setStatus at h
  split at h
  · rename_i hs
    cases h
    exact ⟨hs, rfl⟩
  · cases h

theorem launch_some {request : CreateRunRequest} {now : ℕ} {new : Campaign}
    (h : launch request now row = some new) :
    request.executionMode = .live ∧ row.status = .draft ∧
      new = { row with status := .active, updatedAt := now } := by
  unfold launch at h
  split at h
  · rename_i hlive
    obtain ⟨hs, rfl⟩ := setStatus_some h
    exact ⟨hlive, List.mem_singleton.mp hs, rfl⟩
  · cases h

/-- The statuses that a status UPDATE accepts, and the one it writes. -/
theorem statusChange_some {change : StatusChange} {now : ℕ} {new : Campaign}
    (h : change.write now row = some new) :
    row.status ∈ [.active, .paused] ∧ ∃ status, status ≠ .draft ∧
      new = { row with status := status, updatedAt := now } := by
  cases change with
  | pause =>
    obtain ⟨hs, rfl⟩ := setStatus_some h
    exact ⟨by simp [List.mem_singleton.mp hs], .paused, by simp, rfl⟩
  | resume =>
    obtain ⟨hs, rfl⟩ := setStatus_some h
    exact ⟨by simp [List.mem_singleton.mp hs], .active, by simp, rfl⟩
  | finish =>
    obtain ⟨hs, rfl⟩ := setStatus_some h
    exact ⟨hs, .archived, by simp, rfl⟩

theorem updateDraft_some {input : UpdateCampaignInput} {expected now : ℕ} {new : Campaign}
    (h : updateDraft input expected now row = some new) :
    row.deletedAt = none ∧ row.status = .draft ∧ new.deletedAt = none ∧ new.status = .draft ∧
      new.targets = row.targets ∧ new.targetsRevision = row.targetsRevision ∧
      new.targetSource = row.targetSource := by
  unfold updateDraft at h
  split at h
  · rename_i hc
    cases h
    exact ⟨hc.1, hc.2.1, hc.1, hc.2.1, rfl, rfl, rfl⟩
  · cases h

theorem tombstone_some {now : ℕ} {new : Campaign}
    (h : CampaignTransactions.tombstone now row = some new) :
    row.deletedAt = none ∧
      new = { row with deletedAt := some now, revision := row.revision + 1, updatedAt := now } := by
  unfold CampaignTransactions.tombstone at h
  split at h
  · rename_i hd
    cases h
    exact ⟨hd, rfl⟩
  · cases h

/-- A locking SELECT finds the row of the campaign, and finds it free. -/
def Locks (s : State) (id : CampaignId) (found : Campaign → Bool) (row : Campaign) : Prop :=
  (s.campaigns id).Free ∧ (s.campaigns id).committed = some row ∧ found row

/-- The request for a run that a transaction is about. -/
def requestOf : AggregateTx → Option CreateRunRequest
  | .requested request | .launching request _ | .unreplayed request _ | .unlaunched request _
  | .inserting request _ _ | .launched request _ _ | .conflicting request
  | .answered request _ => some request
  | _ => none

/-- What one statement does to its transaction. Where a transaction that is no request ends, only
that it does is said. -/
inductive TxMove (c : Config) (s : State) : AggregateTx → TxEvent → AggregateTx → Prop where
  | replacing {id groupIds expected row} : Locks s id notDeleted row → editable expected row →
      TxMove c s .idle (.lockReplace id groupIds expected) (.replacing id groupIds row)
  | applying {id list expected membership row} : Locks s id notDeleted row →
      editable expected row →
      TxMove c s .idle (.lockApply id list expected membership) (.applying id list membership row)
  | sharing {id list membership row found} : (s.lists list).Free →
      (s.lists list).committed = some found →
      TxMove c s (.applying id list membership row) .shareList
        (.sharing id list membership row found)
  | provided {id list membership row found current} : (s.lists list).committed = some current →
      TxMove c s (.sharing id list membership row found) .readItems (.provided id row
        ⟨list, found.name, found.sessionId, found.membershipRevision, current.groupIds⟩)
  | regrouping {list groupIds expected membership found} : (s.lists list).Free →
      s.shares list = [] → (s.lists list).committed = some found → notArchived found →
      TxMove c s .idle (.lockList list groupIds expected membership)
        (.regrouping list groupIds found)
  | requested {raw request} : admitRun c s raw = .ok request →
      TxMove c s .idle (.requestRun raw) (.requested request)
  | launching {request row} : Locks s request.campaignId notDeleted row →
      TxMove c s (.requested request) .lockCampaign (.launching request row)
  | notFound {request} : (∀ row, (s.campaigns request.campaignId).committed = some row →
        row.deletedAt ≠ none) →
      TxMove c s (.requested request) .lockCampaign (.answered request campaignNotFound)
  | replayed {request row run} : s.runByKey request = some run →
      TxMove c s (.launching request row) .readByKey
        (.answered request (replayRun request.executionMode run))
  | unreplayed {request row} : s.runByKey request = none →
      TxMove c s (.launching request row) .readByKey (.unreplayed request row)
  | live {request row} : s.hasLive request.campaignId →
      TxMove c s (.unreplayed request row) .readLive (.answered request notLaunchable)
  | unlaunched {request row} : s.hasLive request.campaignId = false →
      TxMove c s (.unreplayed request row) .readLive (.unlaunched request row)
  | refused {request row date result} : checkLaunch request row date = some result →
      TxMove c s (.unlaunched request row) (.checkLaunch date) (.answered request result)
  | inserting {request row date} : checkLaunch request row date = none →
      TxMove c s (.unlaunched request row) (.checkLaunch date) (.inserting request row date)
  | launched {request row date now} : s.insertConflicts request = false →
      TxMove c s (.inserting request row date) (.insertRun now) (.launched request row date)
  | conflicting {request row date now} : s.insertConflicts request →
      TxMove c s (.inserting request row date) (.insertRun now) (.conflicting request)
  | answered {request} : TxMove c s (.conflicting request) .readConflicting (.answered request
      (((s.runByKey request).map (replayRun request.executionMode)).getD notLaunchable))
  | created {request row date run now} :
      TxMove c s (.launched request row date) (.commitRun run now) .idle
  | deleting {id expectedRevision expectedTargetsRevision row} : Locks s id (mayDelete c) row →
      row.deletedAt = none → row.status ∈ [.draft, .archived] →
      TxMove c s .idle (.lockDelete id expectedRevision expectedTargetsRevision) (.deleting id row)
  | selected {id : CampaignId} {row : Campaign} :
      TxMove c s (.deleting id row) .selectActive (.inspecting id row (s.activeRuns id))
  | inspected {id row run rest} :
      (∀ r, (s.exec.runs run).committed = .present r →
        (s.exec.runs run).Free ∧ r.status.Terminal) →
      TxMove c s (.inspecting id row (run :: rest)) .inspectRun (.inspecting id row rest)
  | finished {before event} : requestOf before = none → event ≠ .commit → event ≠ .abort →
      TxMove c s before event .finished
  | replied {request result} : TxMove c s (.answered request result) .commit .idle
  | commit : TxMove c s .finished .commit .idle
  | abort {before} : TxMove c s before .abort .idle

theorem tx_move (h : txNext c s k event = some k') : TxMove c s k event k' := by
  unfold txNext at h
  split at h
  case h_1 | h_3 =>
    obtain rfl | ⟨row, hfree, hrow, hfound, rfl⟩ := lockedOn_some h
    · exact .finished rfl (by simp) (by simp)
    · split
      · rename_i hedit
        first
        | exact .replacing ⟨hfree, hrow, hfound⟩ hedit
        | exact .applying ⟨hfree, hrow, hfound⟩ hedit
      · exact .finished rfl (by simp) (by simp)
  case h_4 =>
    split at h
    · rename_i found hfound
      split at h
      · obtain ⟨hfree, rfl⟩ := guarded_eq_some.mp h
        exact .sharing hfree hfound
      · cases h
        exact .finished rfl (by simp) (by simp)
    · cases h
      exact .finished rfl (by simp) (by simp)
  case h_5 =>
    split at h
    · rename_i current hcurrent
      cases h
      split
      · exact .provided hcurrent
      · exact .finished rfl (by simp) (by simp)
    · cases h
      exact .finished rfl (by simp) (by simp)
  case h_7 =>
    split at h
    · rename_i found hfound
      split at h
      · rename_i hopen
        obtain ⟨⟨hfree, hshares⟩, rfl⟩ := guarded_eq_some.mp h
        split
        · exact .regrouping hfree hshares hfound hopen
        · exact .finished rfl (by simp) (by simp)
      · cases h
        exact .finished rfl (by simp) (by simp)
    · cases h
      exact .finished rfl (by simp) (by simp)
  case h_9 =>
    split at h
    · rename_i request hadmit
      cases h
      exact .requested hadmit
    · cases h
  case h_10 request =>
    unfold lockedOn at h
    split at h
    · rename_i row hrow
      split at h
      · rename_i hfound
        obtain ⟨hfree, rfl⟩ := guarded_eq_some.mp h
        exact .launching ⟨hfree, hrow, hfound⟩
      · rename_i hdeleted
        cases h
        refine .notFound fun r hr => ?_
        rw [hrow] at hr
        cases hr
        simpa [notDeleted] using hdeleted
    · rename_i hnone
      cases h
      refine .notFound fun r hr => ?_
      rw [hnone] at hr
      cases hr
  case h_11 =>
    cases h
    split
    · exact .replayed (by assumption)
    · exact .unreplayed (by assumption)
  case h_12 =>
    cases h
    split
    · exact .live (by assumption)
    · rename_i hlive
      exact .unlaunched (by simpa using hlive)
  case h_13 =>
    cases h
    split
    · exact .refused (by assumption)
    · exact .inserting (by assumption)
  case h_14 =>
    obtain ⟨_, rfl⟩ := guarded_eq_some.mp h
    split
    · exact .conflicting (by assumption)
    · rename_i hconf
      exact .launched (by simpa using hconf)
  case h_17 =>
    obtain rfl | ⟨row, hfree, hrow, hfound, rfl⟩ := lockedOn_some h
    · exact .finished rfl (by simp) (by simp)
    · split
      · rename_i hchecked
        exact .deleting ⟨hfree, hrow, hfound⟩ hchecked.1 hchecked.2.2.2
      · exact .finished rfl (by simp) (by simp)
  case h_19 =>
    split at h
    · rename_i r hr
      obtain ⟨hfree, rfl⟩ := guarded_eq_some.mp h
      split
      · rename_i hterm
        refine .inspected fun r' hr' => ?_
        rw [hr] at hr'
        cases hr'
        exact ⟨hfree, hterm⟩
      · exact .finished rfl (by simp) (by simp)
    · rename_i hgone
      cases h
      exact .inspected fun r hr => absurd hr (hgone r)
  all_goals simp only [guarded_eq_some, Option.some.injEq, reduceCtorEq] at h
  all_goals
    first
    | subst h
    | obtain ⟨_, rfl⟩ := h
  all_goals
    first
    | exact .answered
    | exact .created
    | exact .selected
    | exact .replied
    | exact .commit
    | exact .abort
    | exact .finished rfl (by simp) (by simp)

/-- What a transaction has checked on the row it has locked. -/
def Checked : AggregateTx → Prop
  | .replacing _ _ row | .applying _ _ _ row | .sharing _ _ _ row _ | .provided _ row _ =>
    row.deletedAt = none ∧ row.status = .draft
  | .launching _ row | .unreplayed _ row | .unlaunched _ row => row.deletedAt = none
  | .inserting request row _ | .launched request row _ =>
    row.deletedAt = none ∧ row.status = .draft ∧ revisionsDiffer request row = false
  | .deleting _ row | .inspecting _ row _ =>
    row.deletedAt = none ∧ row.status ∈ [.draft, .archived]
  | _ => True

theorem checkLaunch_none {request : CreateRunRequest} {date : ℕ}
    (h : checkLaunch request row date = none) :
    row.status = .draft ∧ revisionsDiffer request row = false := by
  unfold checkLaunch at h
  split at h
  · cases h
  · rename_i hr
    split at h
    · cases h
    · rename_i hs
      exact ⟨not_not.mp hs, by simpa using hr⟩

theorem checked_step (hk : Checked k) (h : TxMove c s k event k') : Checked k' := by
  cases h with
  | replacing hlock hedit | applying hlock hedit =>
    simp only [editable, Bool.and_eq_true, beq_iff_eq] at hedit
    exact ⟨by simpa [notDeleted] using hlock.2.2, hedit.1⟩
  | launching hlock =>
    have hfound := hlock.2.2
    exact show _ = none by simpa [notDeleted] using hfound
  | inserting hcheck => exact ⟨hk, checkLaunch_none hcheck⟩
  | deleting _ hdeleted hstatus => exact ⟨hdeleted, hstatus⟩
  | sharing | provided | unreplayed | unlaunched | launched | selected | inspected => exact hk
  | _ => trivial

theorem checks_hold (h : Reachable (system c) s) : ∀ n, Checked (s.txs n) := by
  refine reachable_invariant (M := system c) (I := fun s => ∀ n, Checked (s.txs n)) ?_
    (fun s e hI he n => ?_) h
  · rintro _ rfl n
    trivial
  · obtain ⟨v, exec, hv, _, _, hu⟩ := step_some (ofStep_enabled he)
    rw [show (system c).next s e = _ from hu]
    change Checked (v.txs n)
    by_cases hown : ∃ event, e = .tx n event
    · obtain ⟨event, rfl⟩ := hown
      exact checked_step (hI n) (tx_move (tx_moves hv))
    · rw [other_tx_unchanged hv fun event hev => hown ⟨event, hev⟩]
      exact hI n

/-- The campaign a transaction has locked, with the row it read. -/
def lockOf : AggregateTx → Option (CampaignId × Campaign)
  | .replacing id _ row | .applying id _ _ row | .sharing id _ _ row _ | .provided id row _
  | .deleting id row | .inspecting id row _ => some (id, row)
  | .launching request row | .unreplayed request row | .unlaunched request row
  | .inserting request row _ | .launched request row _ => some (request.campaignId, row)
  | _ => none

/-- The version that the transaction holds: the row it read, until `create` has moved it on. -/
def Keeps : AggregateTx → Campaign → Campaign → Prop
  | .launched request _ _, row, v =>
    v = if request.executionMode = .live then
      { row with status := .active, updatedAt := v.updatedAt } else row
  | _, row, v => v = row

def HoldsCampaign (k : AggregateTx) (n : ℕ) (row : Campaign) (r : Row ℕ (Option Campaign)) : Prop :=
  r.committed = some row ∧ ∃ v, r.held = some (n, some v) ∧ Keeps k row v

theorem holds_after_lock {found : Campaign → Bool} (n : ℕ) (h : Locks s id found row)
    (hk : Keeps k row row) :
    HoldsCampaign k n row ((s.campaigns id).updateIn n (onRow (selecting found))) := by
  obtain ⟨hfree, hrow, hfound⟩ := h
  refine ⟨by simpa using hrow, row, ?_, hk⟩
  simp [Row.updateIn, Row.view_of_free hfree, hrow, onRow, selecting, hfound]

/-- The INSERT of a run, and the UPDATE that follows it for a LIVE one. -/
theorem holds_after_insert {request : CreateRunRequest} {date now : ℕ} {r : Row ℕ (Option Campaign)}
    (hdraft : row.status = .draft) (h : HoldsCampaign (.inserting request row date) n row r) :
    HoldsCampaign (.launched request row date) n row (r.updateIn n (onRow (launch request now))) := by
  obtain ⟨hc, w, hh, rfl⟩ := h
  refine ⟨by simpa using hc, ?_⟩
  by_cases hlive : request.executionMode = .live
  · have hw := Row.updateIn_of_held (f := onRow (launch request now)) hh
      (w := some { w with status := .active, updatedAt := now })
      (by simp [onRow, launch, hlive, setStatus, hdraft])
    rw [hw]
    exact ⟨{ w with status := .active, updatedAt := now }, rfl, by simp [Keeps, hlive]⟩
  · have hsame : r.updateIn n (onRow (launch request now)) = r := by
      simp [Row.updateIn, Row.view_of_held hh, onRow, launch, hlive]
    rw [hsame]
    exact ⟨w, hh, by simp [Keeps, hlive]⟩

/-- A transaction keeps the lock of its campaign, and the row as it read it, until it writes. -/
theorem own_lock (hck : Checked k)
    (hI : ∀ id row, lockOf k = some (id, row) → HoldsCampaign k n row (s.campaigns id))
    (h : TxMove c s k event k') (hlock : lockOf k' = some (id, row)) :
    HoldsCampaign k' n row ((txCampaignEffect c s n k event).apply s.campaigns id) := by
  cases h with
  | replacing hl | applying hl | launching hl | deleting hl =>
    cases hlock
    simp only [txCampaignEffect, Effect.apply, Table.updateIn_same]
    exact holds_after_lock n hl rfl
  | launched hconf =>
    cases hlock
    simpa [txCampaignEffect, hconf, Effect.apply] using holds_after_insert hck.2.1 (hI _ _ rfl)
  | sharing | provided | unreplayed | unlaunched | inserting | selected | inspected =>
    cases hlock
    exact hI _ _ rfl
  | _ => cases hlock

/-- Every open transaction that has locked a campaign keeps its row. -/
def CampaignsLocked (s : State) : Prop :=
  ∀ n id row, lockOf (s.txs n) = some (id, row) → HoldsCampaign (s.txs n) n row (s.campaigns id)

theorem campaigns_locked (h : Reachable (system c) s) : CampaignsLocked s := by
  refine reachable_invariant_with (M := system c) (I := CampaignsLocked)
    (fun _ => checks_hold) ?_ (fun s e hck hI he => ?_) h
  · rintro _ rfl n id row hlock
    cases hlock
  · obtain ⟨v, exec, hv, _, ⟨hr, _⟩, hu⟩ := step_some (ofStep_enabled he)
    rw [show (system c).next s e = _ from hu]
    intro n id row hlock
    change lockOf (v.txs n) = _ at hlock
    change HoldsCampaign (v.txs n) n row ((campaignEffect c s e).apply s.campaigns id)
    by_cases hown : ∃ event, e = .tx n event
    · obtain ⟨event, rfl⟩ := hown
      exact own_lock (hck n) (hI n) (tx_move (tx_moves hv)) hlock
    · have hsame : v.txs n = s.txs n := other_tx_unchanged hv fun event hev => hown ⟨event, hev⟩
      rw [hsame] at hlock ⊢
      obtain ⟨hc, w, hh, hk⟩ := hI n id row hlock
      have hrow := Effect.locked_row_unchanged hr (fun ho => hown (campaign_effect_owner ho)) hh
      rw [hrow]
      exact ⟨hc, w, hh, hk⟩

/-- Two transactions never hold one campaign at a time. -/
theorem campaign_lock_unique (h : Reachable (system c) s) {m : ℕ} {row' : Campaign}
    (hn : lockOf (s.txs n) = some (id, row)) (hm : lockOf (s.txs m) = some (id, row')) : n = m := by
  obtain ⟨_, _, hn, _⟩ := campaigns_locked h n id row hn
  obtain ⟨_, _, hm, _⟩ := campaigns_locked h m id row' hm
  rw [hn] at hm
  cases hm
  rfl

end AggregateLocks
