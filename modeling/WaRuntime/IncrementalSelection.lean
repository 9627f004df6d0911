import WaRuntime.GatewayDiscovery

/-! What an incremental discovery selects.
Beside the tables the state keeps the groups whose item has FAILED for a changed summary, with the
fingerprint that was reconciled at the failure, until a detail read of the group is applied: by an
item, by a group intent or by a capability refresh. -/
namespace IncrementalSelection

open TransitionRuns GatewayDiscovery
open GroupCapabilityRevision (GroupKey replaceSummary updateGroup)
open GroupCapabilityStatements (GroupRow DetailsOptions upsertSummary denyInactive)

variable {Hash : Type}

structure State (Hash : Type) where
  base : GatewayDiscovery.State Hash
  owed : GroupKey → Option (Option Hash)

def reconciled (s : GatewayDiscovery.State Hash) (key : GroupKey) : Option Hash :=
  (s.groups key).bind GatewayGroup.reconciledSummaryFingerprint

/-- The item of the group has FAILED for a changed summary. -/
def FailedChange (s : GatewayDiscovery.State Hash) (r : RunId) (g : GroupId) : Prop :=
  ∃ item ∈ s.items r, item.row.groupId = g ∧ item.row.status = .failed ∧
    item.reason = .summaryNotReconciled

instance (s : GatewayDiscovery.State Hash) (r : RunId) (g : GroupId) :
    Decidable (FailedChange s r g) :=
  inferInstanceAs (Decidable (∃ item ∈ s.items r, _))

def completes : ItemEvent → Bool
  | .complete _ _ _ => true
  | _ => false

/-- `upsertGroupDetails` applies what it was given to the row that its locking SELECT found. -/
def DetailsApplied (s : GatewayDiscovery.State Hash) (key : GroupKey) (now : ℕ)
    (options : DetailsOptions) (found : Bool) : Prop :=
  options.Met now (if found then (s.groups key).map GatewayGroup.row else none)

instance (s : GatewayDiscovery.State Hash) (key : GroupKey) (now : ℕ) (options : DetailsOptions)
    (found : Bool) : Decidable (DetailsApplied s key now options found) :=
  inferInstanceAs (Decidable (options.Met now _))

def owedAfter (s : State Hash) (e : Event) (base : GatewayDiscovery.State Hash) :
    GroupKey → Option (Option Hash) :=
  match e with
  | .item r g event =>
    match s.base.runs r with
    | none => s.owed
    | some run =>
      if completes event then Function.update s.owed (run.sessionId, g) none
      else if FailedChange base r g then
        Function.update s.owed (run.sessionId, g) (some (reconciled base (run.sessionId, g)))
      else s.owed
  | .group (.upsertGroupDetails key now options _ found) =>
    if DetailsApplied s.base key now options found then Function.update s.owed key none else s.owed
  | _ => s.owed

section Step

variable [DecidableEq Hash] (c : Config Hash)

def step (s : State Hash) (e : Event) : Option (State Hash) :=
  (GatewayDiscovery.step c s.base e).map fun base => ⟨base, owedAfter s e base⟩

def system : System (State Hash) Event :=
  ofStep (· = ⟨GatewayDiscovery.initial, fun _ => none⟩) (step c)

end Step

section Selections

variable (c : Config Hash) (staleBefore : ℕ)

/-- A listed group that has to be read: `old` is its row before the discovery, `new` the committed
one. -/
def NeedsRead (fingerprint : Hash) (old new : Option (GatewayGroup Hash)) : Prop :=
  old = none ∨ ∃ group, old = some group ∧
    ((∀ detailsSyncedAt, group.row.detailsSyncedAt = some detailsSyncedAt →
        detailsSyncedAt < staleBefore) ∨
      group.reconciledSummaryFingerprint ≠ some fingerprint ∨
      ∃ row, new = some row ∧ row.row.capabilityInvalidatedAt.isSome)

/-- The discovery finds nothing to read: the details are fresh, the capability stands, and the
summary is the reconciled one. -/
structure Settled (fingerprint : Hash) (group : GatewayGroup Hash) : Prop where
  details : ∃ detailsSyncedAt, group.row.detailsSyncedAt = some detailsSyncedAt ∧
    staleBefore ≤ detailsSyncedAt
  valid : group.row.capabilityInvalidatedAt = none
  reconciled : group.reconciledSummaryFingerprint = some fingerprint

def Selected (s : GatewayDiscovery.State Hash) (r : RunId) (g : GroupId) : Prop :=
  ∃ item ∈ s.items r, item.row.groupId = g

instance (s : GatewayDiscovery.State Hash) (r : RunId) (g : GroupId) : Decidable (Selected s r g) :=
  inferInstanceAs (Decidable (∃ item ∈ s.items r, _))

variable {c staleBefore} [DecidableEq Hash] {group : GatewayGroup Hash}
  {found : Option (GatewayGroup Hash)} {fingerprint : Hash}

theorem reason_none_iff :
    reason .incremental staleBefore found fingerprint = none ↔
      ∃ group, found = some group ∧ Settled staleBefore fingerprint group := by
  have hsettled : ∀ group : GatewayGroup Hash, Settled staleBefore fingerprint group ↔
      reason .incremental staleBefore (some group) fingerprint = none := by
    intro group
    constructor
    · rintro ⟨⟨time, htime, hfresh⟩, hvalid, hreconciled⟩
      simp [reason, htime, hvalid, hreconciled, hfresh]
    · intro h
      cases htime : group.row.detailsSyncedAt with
      | none => simp [reason, htime] at h
      | some time =>
        simp only [reason, htime] at h
        split at h
        · cases h
        split at h
        · cases h
        rename_i hvalid
        split at h
        · cases h
        rename_i hreconciled
        split at h
        · cases h
        rename_i hfresh
        exact ⟨⟨time, htime, not_lt.mp hfresh⟩, by simpa using hvalid, not_not.mp hreconciled⟩
  cases found with
  | none => simp [reason]
  | some group => simp [hsettled group]

theorem selected_iff {s : GatewayDiscovery.State Hash} {now : ℕ} {r : RunId} {run : SyncRun}
    {unseen : List GroupId} {groups : List OpenWAGroupSummary} {listed : OpenWAGroupSummary}
    (hnodup : (groups.map OpenWAGroupSummary.id).Nodup) (hlisted : listed ∈ groups) :
    (∃ item ∈ selected c s now staleBefore r run unseen groups, item.row.groupId = listed.id) ↔
      reason run.mode staleBefore (before s run.sessionId unseen listed.id)
        (c.summaryDigest listed) ≠ none := by
  unfold selected
  simp only [List.mem_filterMap, Option.map_eq_some_iff, Prod.exists]
  constructor
  · rintro ⟨_, ⟨other, ordinal, hmem, found, hreason, rfl⟩, hid⟩
    have hother : other ∈ groups := (List.mem_zipIdx' hmem).2 ▸ List.getElem_mem _
    obtain rfl := List.inj_on_of_nodup_map hnodup hother hlisted hid
    rw [hreason]
    simp
  · intro hreason
    obtain ⟨found, hfound⟩ := Option.ne_none_iff_exists'.mp hreason
    obtain ⟨ordinal, hlt, hget⟩ := List.getElem_of_mem hlisted
    refine ⟨_, ⟨listed, ordinal, ?_, found, hfound, rfl⟩, rfl⟩
    rw [List.mem_zipIdx_iff_getElem?, ← hget]
    exact List.getElem?_eq_getElem hlt

end Selections

section Runs

variable [DecidableEq Hash] {c : Config Hash} {b v : GatewayDiscovery.State Hash}
  {s u : State Hash} {e : Event}

/-- A run with items has made its discovery, and never makes another one. -/
def Discovered (b : GatewayDiscovery.State Hash) : Prop :=
  ∀ r, b.items r ≠ [] → ∃ run, b.runs r = some run ∧ run.leaseToken = none ∧
    run.leaseExpiresAt = none ∧ run.status ≠ .pending

theorem discovered_step (hI : Discovered b) (h : GatewayDiscovery.step c b e = some v) :
    Discovered v := by
  intro r hitems
  by_cases hold : b.items r = []
  · obtain ⟨now, token, discovered, scheduled, run, ⟨hrunning, _⟩, hrun⟩ :=
      items_selected h hold hitems
    refine ⟨_, hrun, rfl, rfl, ?_⟩
    by_cases hnone : scheduled = 0
    · simp [publishedRun, hnone]
    · simp [publishedRun, hnone, hrunning]
  · obtain ⟨run, hrun, htoken, hexpires, hstatus⟩ := hI r hold
    have hwrite := run_write h r
    rw [hrun] at hwrite
    generalize hnew : v.runs r = new at hwrite
    cases hwrite with
    | keep => exact ⟨run, rfl, htoken, hexpires, hstatus⟩
    | claim hclaim =>
      unfold claimRun at hclaim
      split at hclaim
      · rename_i hpending
        exact absurd hpending.1 hstatus
      · cases hclaim
    | renew hrenew =>
      unfold renewRun at hrenew
      split at hrenew
      · rename_i howned
        simp [RunOwned, htoken] at howned
      · cases hrenew
    | endAttempt hlease => simp [hexpires] at hlease
    | refresh =>
      refine ⟨_, rfl, ?_⟩
      unfold refreshParent
      simp only
      split
      · exact ⟨htoken, hexpires, hstatus⟩
      · refine ⟨htoken, hexpires, ?_⟩
        simp only
        split <;> decide
    | delete => exact absurd (items_stand h hrun hnew) hitems
    | defer howned => simp [RunOwned, htoken] at howned
    | publish howned => simp [RunOwned, htoken] at howned

theorem reachable_discovered (h : Reachable (GatewayDiscovery.system c) b) : Discovered b := by
  refine reachable_invariant ?_ (fun _ _ hI he => discovered_step hI (ofStep_enabled he)) h
  rintro _ rfl r hitems
  exact absurd rfl hitems

omit [DecidableEq Hash] in
/-- A discovery finds its run without items. -/
theorem no_items_before (hI : Discovered b) {now : ℕ} {fence : SyncWriteFence} {run : SyncRun}
    (h : ownedRun b now fence = some run) : b.items fence.syncRunId = [] := by
  by_contra hitems
  obtain ⟨hrun, howned⟩ := ownedRun_some h
  obtain ⟨other, hother, htoken, _⟩ := hI fence.syncRunId hitems
  rw [hrun] at hother
  cases hother
  simp [RunOwned, htoken] at howned

theorem row_stays (groups : GroupCapabilityRevision.Groups)
    (event : GroupCapabilityRevision.GroupEvent) {key : GroupKey}
    (h : GroupCapabilityRevision.next groups event key = none) : groups key = none := by
  obtain ⟨f, _, hnext⟩ | ⟨hnone, _⟩ := GroupCapabilityRevision.row_step groups event key
  · rw [hnext] at h
    exact Option.map_eq_none_iff.mp h
  · exact hnone

/-- Only the completion of an item of the group advances what is reconciled. -/
theorem reconciled_kept (h : GatewayDiscovery.step c b e = some v) (key : GroupKey) :
    reconciled v key = reconciled b key ∨
      ∃ r g now token members run, e = .item r g (.complete now token members) ∧
        b.runs r = some run ∧ key = (run.sessionId, g) := by
  obtain ⟨sessionId, rfl⟩ | honly | ⟨now, staleBefore, fence, unseen, groups, result, _, hpublish⟩ |
    ⟨r, g, event, rfl, hitem⟩ | ⟨event, _, _, rfl⟩ := step_cases h
  · exact .inl rfl
  · refine .inl ?_
    unfold reconciled
    rw [honly.groups]
  · refine .inl ?_
    obtain ⟨run, _, _, _, _, ⟨_, _, _, rfl⟩ | ⟨_, _, rfl⟩⟩ := publishDiscovery_some hpublish
    · rfl
    · by_cases hkey : key.1 = run.sessionId
      · simp only [reconciled, publish, hkey, if_true, publishedGroup]
        generalize (groups.find? fun group => group.id = key.2) = listed
        cases b.groups key <;> cases listed <;> simp [replaceSummary]
      · simp [reconciled, publish, hkey]
  · obtain ⟨run, item, _, hrun, _, _, _, _, hgroups | ⟨now, token, members, rfl, hgroups⟩⟩ :=
      updateItem_some hitem
    · refine .inl ?_
      unfold reconciled
      rw [hgroups]
    · by_cases hkey : key = (run.sessionId, g)
      · exact .inr ⟨r, g, now, token, members, run, rfl, hrun, hkey⟩
      · refine .inl ?_
        unfold reconciled
        rw [hgroups, Function.update_of_ne hkey]
  · refine .inl ?_
    simp only [reconciled, updateGroups]
    cases hrow : GroupCapabilityRevision.next (fun key => (b.groups key).map GatewayGroup.row)
        event key with
    | some row => simp
    | none =>
      have hnone := row_stays _ event hrow
      simp [Option.map_eq_none_iff.mp hnone]

/-- While a group is owed a read, what was reconciled at its failure still is. -/
def Owed (s : State Hash) : Prop :=
  ∀ key fingerprint, s.owed key = some fingerprint → reconciled s.base key = fingerprint

theorem owed_step (hI : Owed s) (h : step c s e = some u) : Owed u := by
  obtain ⟨base, hbase, rfl⟩ := Option.map_eq_some_iff.mp h
  intro key fingerprint howed
  have hold : (∀ r g now token members run, e = .item r g (.complete now token members) →
      s.base.runs r = some run → key ≠ (run.sessionId, g)) →
      s.owed key = some fingerprint → reconciled base key = fingerprint := by
    intro hother howed
    obtain hkept | ⟨r, g, now, token, members, run, he, hrun, hkey⟩ := reconciled_kept hbase key
    · exact hkept.trans (hI key fingerprint howed)
    · exact absurd hkey (hother r g now token members run he hrun)
  cases e with
  | item r g event =>
    simp only [owedAfter] at howed
    cases hrun : s.base.runs r with
    | none =>
      rw [hrun] at howed
      refine hold ?_ howed
      rintro r' g' _ _ _ run' ⟨rfl, rfl, rfl⟩ hrun'
      rw [hrun] at hrun'
      cases hrun'
    | some run =>
      simp only [hrun] at howed
      have hother : completes event = false ∨ key ≠ (run.sessionId, g) →
          s.owed key = some fingerprint → reconciled base key = fingerprint := by
        intro hapart
        refine hold ?_
        rintro r' g' _ _ _ run' ⟨rfl, rfl, rfl⟩ hrun'
        rw [hrun] at hrun'
        cases hrun'
        exact hapart.resolve_left (by simp [completes])
      by_cases hkey : key = (run.sessionId, g)
      · subst hkey
        split at howed
        · simp at howed
        rename_i hincomplete
        split at howed
        · rw [Function.update_self] at howed
          exact Option.some.inj howed
        · exact hother (.inl (by simpa using hincomplete)) howed
      · refine hother (.inr hkey) ?_
        split at howed
        · rwa [Function.update_of_ne hkey] at howed
        split at howed
        · rwa [Function.update_of_ne hkey] at howed
        · exact howed
  | group event =>
    refine hold (fun _ _ _ _ _ _ he => nomatch he) ?_
    cases event with
    | upsertGroupDetails read now options details found =>
      simp only [owedAfter] at howed
      split at howed
      · by_cases hkey : key = read
        · simp [hkey] at howed
        · rwa [Function.update_of_ne hkey] at howed
      · exact howed
    | _ => exact howed
  | _ => exact hold (fun _ _ _ _ _ _ he => nomatch he) howed

theorem reachable_owed (h : Reachable (system c) s) : Owed s := by
  refine reachable_invariant ?_ (fun _ _ hI he => owed_step hI (ofStep_enabled he)) h
  rintro _ rfl key fingerprint howed
  cases howed

theorem reachable_base (h : Reachable (system c) s) :
    Reachable (GatewayDiscovery.system c) s.base := by
  refine (projects_ofStep ?_ fun t e u h => ?_).reachable h
  · rintro _ rfl
    rfl
  · obtain ⟨base, hbase, rfl⟩ := Option.map_eq_some_iff.mp h
    exact ⟨[e], ofStep_execution hbase⟩

end Runs

section Completeness

variable [DecidableEq Hash] {c : Config Hash} {s : State Hash} {v : GatewayDiscovery.State Hash}
  {now staleBefore : ℕ} {fence : SyncWriteFence} {unseen : List GroupId}
  {groups : List OpenWAGroupSummary} {result : DiscoveryResult} {run : SyncRun}
  {listed : OpenWAGroupSummary} {group new : GatewayGroup Hash}

omit [DecidableEq Hash] in
/-- Publication invalidates the groups that it reactivates. -/
theorem published_invalidated (listed : OpenWAGroupSummary)
    (h : publishedGroup c now (some listed) (some group) = some new) :
    new.row.capabilityInvalidatedAt.isSome ↔
      group.row.isActive = false ∨ group.row.capabilityInvalidatedAt.isSome := by
  simp only [publishedGroup, replaceSummary, Option.map_some, Option.some.injEq] at h
  subst h
  cases ha : group.row.isActive <;> simp [updateGroup, upsertSummary, denyInactive, ha]

theorem published_listed (h : publishDiscovery c s.base now staleBefore fence unseen groups =
      some (v, result)) (hpublished : result.deferred = false)
    (hrun : s.base.runs fence.syncRunId = some run) (hlisted : listed ∈ groups)
    (hgroup : s.base.groups (run.sessionId, listed.id) = some group) :
    ∃ new, v.groups (run.sessionId, listed.id) = some new ∧
      (new.row.capabilityInvalidatedAt.isSome ↔
        group.row.isActive = false ∨ group.row.capabilityInvalidatedAt.isSome) := by
  obtain ⟨found, _, hfound, _, _, ⟨_, _, hdeferred, _⟩ | ⟨_, _, rfl⟩⟩ := publishDiscovery_some h
  · exact absurd (hpublished.symm.trans hdeferred) (by decide)
  obtain ⟨hfound, _⟩ := ownedRun_some hfound
  rw [hrun] at hfound
  cases hfound
  have hsome : (groups.find? fun other => other.id = listed.id).isSome :=
    List.find?_isSome.mpr ⟨listed, hlisted, by simp⟩
  obtain ⟨other, hother⟩ := Option.isSome_iff_exists.mp hsome
  simp only [publish, if_true, hgroup, hother]
  exact ⟨_, rfl, published_invalidated other rfl⟩

theorem listed_selected (hr : Reachable (system c) s)
    (h : publishDiscovery c s.base now staleBefore fence unseen groups = some (v, result))
    (hpublished : result.deferred = false) (hrun : s.base.runs fence.syncRunId = some run)
    (hmode : run.mode = .incremental) (hlisted : listed ∈ groups) :
    Selected v fence.syncRunId listed.id ↔
      ¬ ∃ group, before s.base run.sessionId unseen listed.id = some group ∧
        Settled staleBefore (c.summaryDigest listed) group := by
  obtain ⟨found, _, hfound, _, hnodup, ⟨_, _, hdeferred, _⟩ | ⟨_, _, rfl⟩⟩ :=
    publishDiscovery_some h
  · exact absurd (hpublished.symm.trans hdeferred) (by decide)
  have hempty := no_items_before (reachable_discovered (reachable_base hr)) hfound
  obtain ⟨hfound, _⟩ := ownedRun_some hfound
  rw [hrun] at hfound
  cases hfound
  have hitems : Selected (publish c s.base now staleBefore fence.syncRunId run unseen groups)
      fence.syncRunId listed.id ↔
        ∃ item ∈ selected c s.base now staleBefore fence.syncRunId run unseen groups,
          item.row.groupId = listed.id := by
    simp [Selected, publish, hempty]
  rw [hitems, selected_iff hnodup hlisted, ← reason_none_iff, hmode]

/-- Every listed group that is new, without fresh details, changed or invalidated when the
discovery commits, and every one whose item has failed for a change and of which no detail read has
been applied since, is an item of the run, exactly when no listed group in which the discovery finds
nothing to read was inactive, or is owed a read and has gone back to the summary that was reconciled
when its item failed. -/
theorem selection_complete_iff (hr : Reachable (system c) s)
    (h : publishDiscovery c s.base now staleBefore fence unseen groups = some (v, result))
    (hpublished : result.deferred = false) (hrun : s.base.runs fence.syncRunId = some run)
    (hmode : run.mode = .incremental) :
    ((∀ listed ∈ groups,
        NeedsRead staleBefore (c.summaryDigest listed)
          (s.base.groups (run.sessionId, listed.id)) (v.groups (run.sessionId, listed.id)) →
        Selected v fence.syncRunId listed.id) ∧
      ∀ listed ∈ groups, (s.owed (run.sessionId, listed.id)).isSome →
        Selected v fence.syncRunId listed.id) ↔
    ∀ listed ∈ groups, ∀ group, before s.base run.sessionId unseen listed.id = some group →
      Settled staleBefore (c.summaryDigest listed) group →
        group.row.isActive = true ∧
          s.owed (run.sessionId, listed.id) ≠ some (some (c.summaryDigest listed)) := by
  have hselected := fun listed (hlisted : listed ∈ groups) =>
    listed_selected hr h hpublished hrun hmode hlisted
  have hbefore : ∀ g group, before s.base run.sessionId unseen g = some group →
      s.base.groups (run.sessionId, g) = some group := by
    intro g group hg
    unfold before at hg
    split at hg
    · cases hg
    · exact hg
  constructor
  · rintro ⟨hneeds, howes⟩ listed hlisted group hgroup hsettled
    have hskipped : ¬ Selected v fence.syncRunId listed.id := fun hs =>
      (hselected listed hlisted).mp hs ⟨group, hgroup, hsettled⟩
    have hrow := hbefore listed.id group hgroup
    obtain ⟨new, hnew, hinvalidated⟩ := published_listed h hpublished hrun hlisted hrow
    constructor
    · by_contra hinactive
      refine hskipped (hneeds listed hlisted (.inr ⟨group, hrow, .inr (.inr ⟨new, hnew, ?_⟩)⟩))
      exact hinvalidated.mpr (.inl (by simpa using hinactive))
    · intro howed
      exact hskipped (howes listed hlisted (by simp [howed]))
  · intro hcondition
    refine ⟨fun listed hlisted hneeds => ?_, fun listed hlisted howed => ?_⟩
    · rw [hselected listed hlisted]
      rintro ⟨group, hgroup, hsettled⟩
      obtain ⟨hactive, _⟩ := hcondition listed hlisted group hgroup hsettled
      have hrow := hbefore listed.id group hgroup
      obtain hnone | ⟨other, hother, hread⟩ := hneeds
      · rw [hnone] at hrow
        cases hrow
      rw [hrow] at hother
      cases hother
      obtain hstale | hchanged | ⟨new, hnew, hset⟩ := hread
      · obtain ⟨time, htime, hfresh⟩ := hsettled.details
        exact absurd (hstale time htime) (not_lt.mpr hfresh)
      · exact hchanged hsettled.reconciled
      · obtain ⟨found, hfound, hinvalidated⟩ :=
          published_listed h hpublished hrun hlisted hrow
        rw [hnew] at hfound
        cases hfound
        simp [hinvalidated, hactive, hsettled.valid] at hset
    · rw [hselected listed hlisted]
      rintro ⟨group, hgroup, hsettled⟩
      obtain ⟨_, hnotOwed⟩ := hcondition listed hlisted group hgroup hsettled
      obtain ⟨fingerprint, hfingerprint⟩ := Option.isSome_iff_exists.mp howed
      have hreconciled := reachable_owed hr _ fingerprint hfingerprint
      have hrow := hbefore listed.id group hgroup
      simp only [reconciled, hrow, Option.bind_some, hsettled.reconciled] at hreconciled
      exact hnotOwed (by rw [hfingerprint, hreconciled])

def plainSystem : System (State (List String)) Event := system plainConfig

instance (s : State (List String)) (e : Event) : Decidable (plainSystem.enabled s e) :=
  inferInstanceAs (Decidable ((step plainConfig s e).isSome = true))

def summary (name : String) : OpenWAGroupSummary := ⟨"group", name, some 2, some true, none⟩

/-- A run that lists these groups, up to its discovery. -/
def discovering (r now : ℕ) (groups : List OpenWAGroupSummary) : List Event :=
  [.createRun r now "session" .incremental, .claimRun r now r,
    .publishDiscovery now 0 ⟨r, r, r + 1⟩ [] groups]

/-- The group has been read with this summary. -/
def reading : List Event :=
  .upsertSession "session" :: discovering 0 0 [summary "old"] ++
    [.item 0 "group" (.claim 0 7),
      .group (.upsertGroupDetails ("session", "group") 1 ⟨none, none⟩
        ⟨some true, some false, some false, none⟩ true),
      .item 0 "group" (.complete 1 7 2), .refreshParent 0 1]

/-- The group disappears for one discovery, and is listed again. -/
def returning : List Event :=
  reading ++ discovering 1 2 [] ++
    [.createRun 2 3 "session" .incremental, .claimRun 2 3 2]

/-- The group is renamed, its read fails, and it is listed again. -/
def failing : List Event :=
  reading ++ discovering 1 2 [summary "new"] ++
    [.item 1 "group" (.claim 2 8), .item 1 "group" (.fail 2 8 0 "GROUP_READ_FAILED" true),
      .refreshParent 1 2, .createRun 2 3 "session" .incremental, .claimRun 2 3 2]

def stateAfter (es : List Event) : State (List String) :=
  runTrace plainSystem ⟨GatewayDiscovery.initial, fun _ => none⟩ es

def listing (name : String) : Event := .publishDiscovery 3 0 ⟨2, 2, 3⟩ [] [summary name]

def nextBase (es : List Event) (name : String) : GatewayDiscovery.State (List String) :=
  (plainSystem.next (stateAfter es) (listing name)).base

theorem reachable_after {es : List Event}
    (h : ValidTrace plainSystem ⟨GatewayDiscovery.initial, fun _ => none⟩ es) :
    Reachable plainSystem (stateAfter es) := ⟨es, valid_trace_run rfl h⟩

def readAgain : Event :=
  .group (.upsertGroupDetails ("session", "group") 3 ⟨none, none⟩
    ⟨some true, some false, some false, none⟩ true)

/-- A read by another path ends what the failed item left owed. -/
example : (stateAfter (failing ++ [readAgain])).owed ("session", "group") = none := by
  decide +kernel

/-- While the group keeps its new name, it is selected again. -/
theorem failed_group_selected :
    ((stateAfter failing).owed ("session", "group")).isSome ∧
      ∃ v result, publishDiscovery plainConfig (stateAfter failing).base 3 0 ⟨2, 2, 3⟩ []
        [summary "new"] = some (v, result) ∧ Selected v 2 "group" := by
  have hreach : Reachable plainSystem (stateAfter failing) := reachable_after (by decide +kernel)
  have howed : (stateAfter failing).owed ("session", "group") =
      some (some (plainConfig.summaryDigest (summary "old"))) := by decide +kernel
  have hmode : ((stateAfter failing).base.runs 2).map (fun run => (run.sessionId, run.mode)) =
      some ("session", .incremental) := by decide +kernel
  have hdeferred : (publishDiscovery plainConfig (stateAfter failing).base 3 0 ⟨2, 2, 3⟩ []
      [summary "new"]).map (fun published => published.2.deferred) = some false := by
    decide +kernel
  obtain ⟨run, hrun, hrow⟩ := Option.map_eq_some_iff.mp hmode
  obtain ⟨⟨v, result⟩, hv, hpublished⟩ := Option.map_eq_some_iff.mp hdeferred
  obtain ⟨hsession, hmode⟩ := Prod.mk.inj hrow
  have hcomplete := selection_complete_iff hreach hv hpublished hrun hmode
  rw [hsession] at hcomplete
  refine ⟨by rw [howed]; rfl, v, result, hv, ?_⟩
  refine (hcomplete.mpr ?_).2 (summary "new") (by simp) (by simp [howed, summary])
  intro listed hlisted group hgroup hsettled
  obtain rfl : listed = summary "new" := by simpa using hlisted
  have hold : (before (stateAfter failing).base "session" [] "group").bind
      GatewayGroup.reconciledSummaryFingerprint =
        some (plainConfig.summaryDigest (summary "old")) := by decide +kernel
  change before (stateAfter failing).base "session" [] "group" = some group at hgroup
  rw [hgroup, Option.bind_some, hsettled.reconciled] at hold
  exact absurd hold (by decide)

/-- A group that comes back after an absence is invalidated and not selected, and one that goes
back to its old name after its read has failed is not selected either. -/
theorem returning_group_skipped :
    (Reachable plainSystem (stateAfter returning) ∧
      plainSystem.enabled (stateAfter returning) (listing "old") ∧
      NeedsRead 0 (plainConfig.summaryDigest (summary "old"))
        ((stateAfter returning).base.groups ("session", "group"))
        ((nextBase returning "old").groups ("session", "group")) ∧
      ¬ Selected (nextBase returning "old") 2 "group") ∧
    Reachable plainSystem (stateAfter failing) ∧
      plainSystem.enabled (stateAfter failing) (listing "old") ∧
      ((stateAfter failing).owed ("session", "group")).isSome ∧
      ¬ Selected (nextBase failing "old") 2 "group" := by
  refine ⟨⟨reachable_after (by decide +kernel), by decide +kernel, ?_, by decide +kernel⟩,
    reachable_after (by decide +kernel), by decide +kernel, by decide +kernel, by decide +kernel⟩
  have hold : ((stateAfter returning).base.groups ("session", "group")).isSome = true := by
    decide +kernel
  have hnew : (((nextBase returning "old").groups ("session", "group")).bind fun group =>
      group.row.capabilityInvalidatedAt) = some 3 := by decide +kernel
  obtain ⟨group, hgroup⟩ := Option.isSome_iff_exists.mp hold
  obtain ⟨row, hrow, hinvalidated⟩ := Option.bind_eq_some_iff.mp hnew
  exact .inr ⟨group, hgroup, .inr (.inr ⟨row, hrow, by rw [hinvalidated]; rfl⟩)⟩

end Completeness

end IncrementalSelection
