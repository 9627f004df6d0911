import WaRuntime.TargetProvenance
import WaRuntime.Utf16Order

/-! Replacement of a target set or of the membership of a saved list.
The stored set is read in the order of the database collation and compared, element by element,
with the submitted one in the order of its UTF-16 code units. -/
namespace SetReplacement

open TransitionRuns RowVersions CanonicalOrders Utf16Order CampaignAggregates AggregateLocks
open CampaignExecution (GroupId)
open TargetProvenance (lists_shared)
open CampaignTransactions (CampaignId Campaign GroupList newCampaign updateDraft writeTargets)

/-- The runtime on a database with the given collation. -/
def collated (collation : TotalOrder GroupId) (messages : OutboundMessageExecution.Config)
    (allowedSessionIds : List String) : Config where
  messages := messages
  allowedSessionIds := allowedSessionIds
  collate := collation.sort
  collate_perm := collation.sort_perm

variable {collation : TotalOrder GroupId} {messages : OutboundMessageExecution.Config}
  {allowed : List String} {s u : State} {e : Event} {n now : ℕ} {id : CampaignId} {list : ListId}
  {groupIds : List GroupId}

section StoredSets

/-- A set as the tables keep it, of groups that the session has. -/
structure StoredSet (collation : TotalOrder GroupId) (s : State) (sessionId : String)
    (groupIds : List GroupId) : Prop where
  nodup : groupIds.Nodup
  sorted : collation.sort groupIds = groupIds
  known : s.knownGroups sessionId groupIds

theorem stored_empty (sessionId : String) : StoredSet collation s sessionId [] :=
  ⟨List.nodup_nil, rfl, rfl⟩

theorem known_perm {sessionId : String} {l m : List GroupId} (h : l.Perm m) :
    s.knownGroups sessionId l = s.knownGroups sessionId m := by
  unfold State.knownGroups
  rw [Bool.eq_iff_iff, List.all_eq_true, List.all_eq_true]
  exact ⟨fun hl g hg => hl g (h.mem_iff.mpr hg), fun hm g hg => hm g (h.mem_iff.mp hg)⟩

theorem stored_sorted {sessionId : String} (hn : groupIds.Nodup)
    (hk : s.knownGroups sessionId groupIds) :
    StoredSet collation s sessionId (collation.sort groupIds) where
  nodup := (collation.sort_perm groupIds).nodup_iff.mpr hn
  sorted := collation.sort_sort groupIds
  known := (known_perm (collation.sort_perm groupIds)).trans hk

/-- Groups are never deleted. -/
theorem groups_stay {x m : CampaignExecution.State} {event : CampaignExecution.Event}
    (h : CampaignExecution.moveParties x event = some m) (key : String × GroupId)
    (hk : (x.groups key).isSome) : (m.groups key).isSome := by
  cases event with
  | core event =>
    cases event
    all_goals
      obtain ⟨_, rfl⟩ := guarded_eq_some.mp h
      exact hk
  | writeGroup k group =>
    cases h
    by_cases hkey : key = k
    · subst hkey
      simp
    · simpa [Function.update_of_ne hkey] using hk
  | tx n event =>
    simp only [CampaignExecution.moveParties] at h
    split at h
    · cases h
    · cases h
      exact hk
  | writeSession | deleteRun =>
    cases h
    exact hk
  | createRun | claimPreparation | recoverExpiredPreparation | failPreparationAttempt | activateDue
  | pause | recordBlockedResume =>
    obtain ⟨_, rfl⟩ := guarded_eq_some.mp h
    exact hk

theorem known_later {c : Config} (h : step c s e = some u) {sessionId : String}
    (hk : s.knownGroups sessionId groupIds) : u.knownGroups sessionId groupIds := by
  obtain ⟨v, exec, _, hx, _, rfl⟩ := step_some h
  refine List.all_eq_true.mpr fun g hg => ?_
  have hold := List.all_eq_true.mp hk g hg
  change (exec.groups (sessionId, g)).isSome = true
  unfold execStep at hx
  split at hx
  · cases hx
    exact hold
  · obtain ⟨m, core, hm, _, _, rfl⟩ := CampaignExecution.step_some hx
    exact groups_stay hm _ hold

theorem stored_later {c : Config} (h : step c s e = some u) {sessionId : String}
    (hs : StoredSet collation s sessionId groupIds) : StoredSet collation u sessionId groupIds :=
  ⟨hs.nodup, hs.sorted, known_later h hs.known⟩

def TargetsStored (collation : TotalOrder GroupId) (s : State) (v : Option Campaign) : Prop :=
  ∀ row, v = some row → StoredSet collation s row.sessionId row.targets

def MembersStored (collation : TotalOrder GroupId) (s : State) (v : Option SavedList) : Prop :=
  ∀ row, v = some row → StoredSet collation s row.sessionId row.groupIds

/-- Every set that is stored, or about to be, is a sorted set of known groups. -/
structure SetsStored (collation : TotalOrder GroupId) (s : State) : Prop where
  campaigns : ∀ id, (s.campaigns id).Each (TargetsStored collation s)
  lists : ∀ list, (s.lists list).Each (MembersStored collation s)
  provided : ∀ n id row source, s.txs n = .provided id row source →
    StoredSet collation s row.sessionId source.groupIds

theorem targets_of_same {old new : Campaign} (h : TargetsStored collation s (some old))
    (hs : new.sessionId = old.sessionId) (ht : new.targets = old.targets) :
    TargetsStored collation s (some new) := by
  rintro _ ⟨⟩
  rw [hs, ht]
  exact h old rfl

theorem members_of_same {old new : SavedList} (h : MembersStored collation s (some old))
    (hs : new.sessionId = old.sessionId) (hg : new.groupIds = old.groupIds) :
    MembersStored collation s (some new) := by
  rintro _ ⟨⟩
  rw [hs, hg]
  exact h old rfl

/-- The row that a transaction has locked is the one its statements read. -/
theorem locked_view {c : Config} (h : Reachable (system c) s) {row : Campaign}
    (hlock : lockOf (s.txs n) = some (id, row)) (hk : ∀ v, Keeps (s.txs n) row v → v = row) :
    (s.campaigns id).view n = some row := by
  obtain ⟨_, v, hh, hv⟩ := campaigns_locked h n id row hlock
  rw [Row.view_of_held hh, hk v hv]

theorem replacing_view {c : Config} (h : Reachable (system c) s) {row : Campaign}
    (hstage : s.txs n = .replacing id groupIds row) : (s.campaigns id).view n = some row := by
  refine locked_view h (by rw [hstage]; rfl) fun v hv => ?_
  rw [hstage] at hv
  exact hv

theorem provided_view {c : Config} (h : Reachable (system c) s) {row : Campaign}
    {source : GroupList} (hstage : s.txs n = .provided id row source) :
    (s.campaigns id).view n = some row := by
  refine locked_view h (by rw [hstage]; rfl) fun v hv => ?_
  rw [hstage] at hv
  exact hv

theorem replaced_stored {c : Config} {row new : Campaign} (hc : c.collate = collation.sort)
    (hn : groupIds.Nodup) (hk : s.knownGroups row.sessionId groupIds)
    (hold : TargetsStored collation s (some row)) (h : replaced c groupIds now row = some new) :
    TargetsStored collation s (some new) := by
  unfold replaced at h
  split at h
  · cases h
    rintro _ ⟨⟩
    rw [hc]
    exact stored_sorted hn hk
  · split at h
    · cases h
      exact targets_of_same hold rfl rfl
    · cases h

theorem regrouped_stored {c : Config} {row new : SavedList} (hc : c.collate = collation.sort)
    (hn : groupIds.Nodup) (hk : s.knownGroups row.sessionId groupIds)
    (h : regrouped c groupIds now row = some new) : MembersStored collation s (some new) := by
  unfold regrouped at h
  split at h
  · cases h
    rintro _ ⟨⟩
    rw [hc]
    exact stored_sorted hn hk
  · cases h

/-- A statement on a campaign, on the version `v` that it reads, leaves a stored set. -/
theorem campaign_statement_stores (hI : SetsStored collation s)
    (hr : Reachable (system (collated collation messages allowed)) s)
    (hm : (moveParties (collated collation messages allowed) s e).isSome)
    {g : Option Campaign → Option (Option Campaign)} {w : Option Campaign}
    (hs : (campaignEffect (collated collation messages allowed) s e).statement id = some g)
    (hw : g ((campaignEffect (collated collation messages allowed) s e).read s.campaigns id) =
      some w) : TargetsStored collation s w := by
  have hread : TargetsStored collation s
      ((campaignEffect (collated collation messages allowed) s e).read s.campaigns id) :=
    Effect.each_read (hI.campaigns id)
  obtain ⟨v, hv⟩ := Option.isSome_iff_exists.mp hm
  cases campaign_statement hs with
  | create =>
    obtain ⟨_, rfl⟩ := insertRow_some hw
    rintro _ ⟨⟩
    exact stored_empty _
  | update =>
    obtain ⟨old, new, hold, hnew, rfl⟩ := onRow_some hw
    unfold updateDraft at hnew
    split at hnew
    · cases hnew
      rw [hold] at hread
      exact targets_of_same hread rfl rfl
    · cases hnew
  | changeStatus =>
    obtain ⟨old, new, hold, hnew, rfl⟩ := onRow_some hw
    obtain ⟨_, status, _, rfl⟩ := statusChange_some hnew
    rw [hold] at hread
    exact targets_of_same hread rfl rfl
  | select =>
    obtain ⟨old, new, hold, hnew, rfl⟩ := onRow_some hw
    rw [hold] at hread
    rwa [selecting_some hnew]
  | @replace n id groupIds row now hstage =>
    obtain ⟨old, new, hold, hnew, rfl⟩ := onRow_some hw
    simp only [campaignEffect, txCampaignEffect, hstage] at hs hold hread
    split at hs
    · rename_i hknown
      rw [if_pos hknown] at hold hread
      change (s.campaigns id).view n = some old at hold
      rw [show (Effect.updateIn n _ id).read s.campaigns id = _ from hold] at hread
      rw [replacing_view hr hstage] at hold
      cases hold
      have hmove := tx_moves hv
      rw [hstage] at hmove
      obtain ⟨⟨_, hnodup⟩, _⟩ := guarded_eq_some.mp hmove
      exact replaced_stored rfl hnodup hknown hread hnew
    · cases hs
  | @apply n id row source now hstage =>
    obtain ⟨old, new, hold, hnew, rfl⟩ := onRow_some hw
    simp only [campaignEffect, txCampaignEffect, hstage] at hold
    change (s.campaigns id).view n = some old at hold
    rw [provided_view hr hstage] at hold
    cases hold
    have hstored : StoredSet collation s row.sessionId source.groupIds :=
      hI.provided _ _ _ _ hstage
    rw [applied_some hnew]
    rintro _ ⟨⟩
    exact hstored
  | launch =>
    obtain ⟨old, new, hold, hnew, rfl⟩ := onRow_some hw
    obtain ⟨_, _, rfl⟩ := launch_some hnew
    rw [hold] at hread
    exact targets_of_same hread rfl rfl
  | tombstone =>
    obtain ⟨old, new, hold, hnew, rfl⟩ := onRow_some hw
    obtain ⟨_, rfl⟩ := tombstone_some hnew
    rw [hold] at hread
    exact targets_of_same hread rfl rfl

theorem regrouping_view {c : Config} (h : Reachable (system c) s) {found : SavedList}
    (hstage : s.txs n = .regrouping list groupIds found) :
    (s.lists list).view n = some found :=
  Row.view_of_held ((lists_shared h).regrouping n list groupIds found hstage)

theorem list_statement_stores (hI : SetsStored collation s)
    (hr : Reachable (system (collated collation messages allowed)) s)
    (hm : (moveParties (collated collation messages allowed) s e).isSome)
    {g : Option SavedList → Option (Option SavedList)} {w : Option SavedList}
    (hs : (listEffect (collated collation messages allowed) s e).statement list = some g)
    (hw : g ((listEffect (collated collation messages allowed) s e).read s.lists list) = some w) :
    MembersStored collation s w := by
  have hread : MembersStored collation s
      ((listEffect (collated collation messages allowed) s e).read s.lists list) :=
    Effect.each_read (hI.lists list)
  obtain ⟨v, hv⟩ := Option.isSome_iff_exists.mp hm
  cases list_statement hs with
  | create =>
    obtain ⟨_, rfl⟩ := insertRow_some hw
    obtain ⟨⟨_, _, hnodup, hknown⟩, _⟩ := guarded_eq_some.mp hv
    rintro _ ⟨⟩
    exact stored_sorted hnodup hknown
  | update =>
    obtain ⟨old, new, hold, hnew, rfl⟩ := onRow_some hw
    unfold updated at hnew
    split at hnew
    · cases hnew
      rw [hold] at hread
      exact members_of_same hread rfl rfl
    · cases hnew
  | archive =>
    obtain ⟨old, new, hold, hnew, rfl⟩ := onRow_some hw
    unfold archived at hnew
    split at hnew
    · cases hnew
      rw [hold] at hread
      exact members_of_same hread rfl rfl
    · cases hnew
  | select =>
    obtain ⟨old, new, hold, hnew, rfl⟩ := onRow_some hw
    rw [hold] at hread
    rwa [selecting_some hnew]
  | @regroup n list groupIds found now hstage =>
    obtain ⟨old, new, hold, hnew, rfl⟩ := onRow_some hw
    simp only [listEffect, txListEffect, hstage] at hs hold
    split at hs
    · rename_i hknown
      rw [if_pos hknown] at hold
      change (s.lists list).view n = some old at hold
      rw [regrouping_view hr hstage] at hold
      cases hold
      have hmove := tx_moves hv
      rw [hstage] at hmove
      obtain ⟨⟨_, hnodup⟩, _⟩ := guarded_eq_some.mp hmove
      exact regrouped_stored rfl hnodup hknown hnew
    · cases hs

/-- The members that a transaction reads belong to the session of its campaign. -/
theorem provided_stored {v : State} {row : Campaign} {source : GroupList}
    (hI : SetsStored collation s) (hr : Reachable (system (collated collation messages allowed)) s)
    (hv : moveParties (collated collation messages allowed) s e = some v)
    (hn : v.txs n = .provided id row source) : StoredSet collation s row.sessionId source.groupIds := by
  by_cases he : ∃ event, e = .tx n event
  · obtain ⟨event, rfl⟩ := he
    have hnext := tx_moves hv
    have hmove := tx_move hnext
    rw [hn] at hmove hnext
    generalize hstage : s.txs n = k at hmove hnext
    cases hmove with
    | provided hcurrent =>
      obtain ⟨_, hfound⟩ := (lists_shared hr).sharing _ _ _ _ _ _ hstage
      rw [hcurrent] at hfound
      cases hfound
      have hstored := (hI.lists _).1 _ hcurrent
      simp only [txNext, hcurrent, Option.some.injEq] at hnext
      split at hnext
      · rename_i hsession
        rwa [hsession.1] at hstored
      · cases hnext
  · rw [other_tx_unchanged hv fun event h => he ⟨event, h⟩] at hn
    exact hI.provided n id row source hn

theorem sets_stored_step (hI : SetsStored collation s)
    (hr : Reachable (system (collated collation messages allowed)) s)
    (hstep : step (collated collation messages allowed) s e = some u) : SetsStored collation u := by
  have hlater : ∀ sessionId groupIds, StoredSet collation s sessionId groupIds →
      StoredSet collation u sessionId groupIds := fun _ _ => stored_later hstep
  obtain ⟨v, exec, hv, _, ⟨hcampaigns, hlists⟩, rfl⟩ := step_some hstep
  have hm : (moveParties (collated collation messages allowed) s e).isSome := by rw [hv]; rfl
  constructor
  · intro id
    have heach : (((campaignEffect (collated collation messages allowed) s e).apply s.campaigns)
        id).Each (TargetsStored collation s) :=
      Effect.each_apply_read (hI.campaigns id) hcampaigns fun _ _ hs hw =>
        campaign_statement_stores hI hr hm hs hw
    exact ⟨fun row hrow => hlater _ _ (heach.1 row hrow),
      fun t w hw row hrow => hlater _ _ (heach.2 t w hw row hrow)⟩
  · intro list
    have heach : (((listEffect (collated collation messages allowed) s e).apply s.lists)
        list).Each (MembersStored collation s) :=
      Effect.each_apply_read (hI.lists list) hlists fun _ _ hs hw =>
        list_statement_stores hI hr hm hs hw
    exact ⟨fun row hrow => hlater _ _ (heach.1 row hrow),
      fun t w hw row hrow => hlater _ _ (heach.2 t w hw row hrow)⟩
  · intro n id row source hn
    exact hlater _ _ (provided_stored hI hr hv hn)

theorem sets_stored (h : Reachable (system (collated collation messages allowed)) s) :
    SetsStored collation s := by
  refine reachable_invariant_with (M := system (collated collation messages allowed))
    (I := SetsStored collation) (J := Reachable (system (collated collation messages allowed)))
    (fun _ => id) ?_ (fun s e hr hI he => sets_stored_step hI hr (ofStep_enabled he)) h
  rintro _ rfl
  exact ⟨fun _ => Row.each_settled fun _ hr => (nomatch hr),
    fun _ => Row.each_settled fun _ hr => (nomatch hr), fun _ _ _ _ hn => (nomatch hn)⟩

end StoredSets

section Replacement

/-- The documented effect of a replacement on a campaign: a set replaced by itself changes nothing,
and an accepted other set raises the revision of the targets by one. -/
def TargetsReplaced (s : State) (groupIds : List GroupId) (old new : Campaign) : Prop :=
  (groupIds.Perm old.targets → old.targetSource = none → new = old) ∧
    (¬ groupIds.Perm old.targets → s.knownGroups old.sessionId groupIds →
      new.targetsRevision = old.targetsRevision + 1 ∧ new.targets.Perm groupIds)

def MembersReplaced (s : State) (groupIds : List GroupId) (old new : SavedList) : Prop :=
  (groupIds.Perm old.groupIds → new = old) ∧
    (¬ groupIds.Perm old.groupIds → s.knownGroups old.sessionId groupIds →
      new.revision = old.revision + 1 ∧ new.membershipRevision = old.membershipRevision + 1 ∧
        new.groupIds.Perm groupIds)

/-- The stored set equals the submitted one, as the code compares them. -/
theorem compared_eq (groupIds : List GroupId) {stored : List GroupId} (hs : collation.sort stored = stored) :
    stored = sort groupIds ↔ stored.Perm groupIds ∧ collation.Alike utf16 stored := by
  rw [sort_eq, ← collation.sorts_eq_iff utf16 stored, hs]
  constructor
  · intro h
    have hperm : stored.Perm groupIds := h ▸ utf16.sort_perm groupIds
    exact ⟨hperm, h.trans (utf16.sort_eq_iff_perm.mpr hperm.symm)⟩
  · rintro ⟨hperm, h⟩
    exact h.trans (utf16.sort_eq_iff_perm.mpr hperm)

theorem replaced_documented_iff {c : Config} {old : Campaign} (hc : c.collate = collation.sort)
    (hs : collation.sort old.targets = old.targets) :
    TargetsReplaced s groupIds old ((replaced c groupIds now old).getD old) ↔
      (groupIds.Perm old.targets → old.targetSource = none →
        collation.Alike utf16 old.targets) := by
  have heq := compared_eq groupIds hs
  by_cases hperm : groupIds.Perm old.targets
  · by_cases halike : collation.Alike utf16 old.targets
    · have hsame := heq.mpr ⟨hperm.symm, halike⟩
      refine iff_of_true ⟨fun _ hsource => ?_, fun hne => absurd hperm hne⟩ fun _ _ => halike
      simp [replaced, ← hsame, hsource]
    · have hdiffers : old.targets ≠ sort groupIds := fun h => halike (heq.mp h).2
      cases hsource : old.targetSource with
      | none =>
        refine iff_of_false (fun h => ?_) fun h => halike (h hperm rfl)
        have hnew := congrArg Campaign.targetsRevision (h.1 hperm hsource)
        simp [replaced, hdiffers, writeTargets] at hnew
      | some source =>
        refine iff_of_true ⟨fun _ hnone => ?_, fun hne => absurd hperm hne⟩ fun _ hnone => ?_
        · rw [hsource] at hnone
          cases hnone
        · cases hnone
  · have hdiffers : old.targets ≠ sort groupIds := fun h => hperm (heq.mp h).1.symm
    refine iff_of_true ⟨fun h => absurd h hperm, fun _ _ => ?_⟩ fun h => absurd h hperm
    simp only [replaced, ne_eq, hdiffers, not_false_eq_true, if_true, Option.getD_some, hc]
    exact ⟨rfl, collation.sort_perm groupIds⟩

theorem regrouped_documented_iff {c : Config} {old : SavedList} (hc : c.collate = collation.sort)
    (hs : collation.sort old.groupIds = old.groupIds) :
    MembersReplaced s groupIds old ((regrouped c groupIds now old).getD old) ↔
      (groupIds.Perm old.groupIds → collation.Alike utf16 old.groupIds) := by
  have heq := compared_eq groupIds hs
  by_cases hperm : groupIds.Perm old.groupIds
  · by_cases halike : collation.Alike utf16 old.groupIds
    · have hsame := heq.mpr ⟨hperm.symm, halike⟩
      refine iff_of_true ⟨fun _ => ?_, fun hne => absurd hperm hne⟩ fun _ => halike
      simp [regrouped, ← hsame]
    · have hdiffers : old.groupIds ≠ sort groupIds := fun h => halike (heq.mp h).2
      refine iff_of_false (fun h => ?_) fun h => halike (h hperm)
      have hnew := congrArg SavedList.revision (h.1 hperm)
      simp [regrouped, hdiffers] at hnew
  · have hdiffers : old.groupIds ≠ sort groupIds := fun h => hperm (heq.mp h).1.symm
    refine iff_of_true ⟨fun h => absurd h hperm, fun _ _ => ?_⟩ fun h => absurd h hperm
    simp only [regrouped, ne_eq, hdiffers, not_false_eq_true, if_true, Option.getD_some, hc]
    exact ⟨trivial, trivial, collation.sort_perm groupIds⟩

/-- A transaction keeps the rows that it holds while others take their steps. -/
theorem held_along {c : Config} {es : List Event} (h : Execution (system c) s es u)
    (hes : ∀ event, Event.tx n event ∉ es) :
    u.txs n = s.txs n ∧
      (∀ id row, (s.campaigns id).held = some (n, row) → (u.campaigns id).held = some (n, row)) ∧
      ∀ list row, (s.lists list).held = some (n, row) → (u.lists list).held = some (n, row) := by
  induction h with
  | refl => exact ⟨rfl, fun _ _ hh => hh, fun _ _ hh => hh⟩
  | @step fs t e hx he ih =>
    obtain ⟨htx, hcampaigns, hlists⟩ := ih fun event hmem => hes event (List.mem_append_left _ hmem)
    have hother : ∀ event, e ≠ .tx n event := by
      rintro event rfl
      exact hes event (by simp)
    obtain ⟨v, exec, hv, _, ⟨hrc, hrl⟩, hu⟩ := step_some (ofStep_enabled he)
    rw [show (system c).next t e = _ from hu]
    refine ⟨(other_tx_unchanged hv hother).trans htx, fun id row hh => ?_, fun list row hh => ?_⟩
    · have howner : (campaignEffect c t e).owner ≠ some n :=
        fun ho => (campaign_effect_owner ho).elim hother
      change ((campaignEffect c t e).apply t.campaigns id).held = _
      rw [Effect.locked_row_unchanged hrc howner (hcampaigns id row hh)]
      exact hcampaigns id row hh
    · have howner : (listEffect c t e).owner ≠ some n := fun ho => (list_effect_owner ho).elim hother
      change ((listEffect c t e).apply t.lists list).held = _
      rw [Effect.locked_row_unchanged hrl howner (hlists list row hh)]
      exact hlists list row hh

/-- The transaction commits what it has written, whatever others do in between. -/
def Commits (c : Config) (u : State) (n : ℕ) (P : State → Prop) : Prop :=
  ∀ es w x, Execution (system c) u es w → (∀ event, Event.tx n event ∉ es) →
    step c w (.tx n .commit) = some x → P x

theorem campaign_commits {c : Config} {row : Option Campaign} (hstage : u.txs n = .finished)
    (hh : (u.campaigns id).held = some (n, row)) :
    Commits c u n fun x => (x.campaigns id).committed = row := by
  intro es w x hx hes hstep
  obtain ⟨htx, hcampaigns, _⟩ := held_along hx hes
  obtain ⟨v, exec, _, _, _, rfl⟩ := step_some hstep
  change ((campaignEffect c w (.tx n .commit)).apply w.campaigns id).committed = row
  simp [campaignEffect, txCampaignEffect, htx.trans hstage, Effect.apply, Row.commit,
    hcampaigns id row hh]

theorem list_commits {c : Config} {row : Option SavedList} (hstage : u.txs n = .finished)
    (hh : (u.lists list).held = some (n, row)) :
    Commits c u n fun x => (x.lists list).committed = row := by
  intro es w x hx hes hstep
  obtain ⟨htx, _, hlists⟩ := held_along hx hes
  obtain ⟨v, exec, _, _, _, rfl⟩ := step_some hstep
  change ((listEffect c w (.tx n .commit)).apply w.lists list).committed = row
  simp [listEffect, txListEffect, htx.trans hstage, Effect.apply, Row.commit, hlists list row hh]

theorem targets_replacement (h : Reachable (system (collated collation messages allowed)) s)
    {row : Campaign} (hstage : s.txs n = .replacing id groupIds row)
    (hstep : step (collated collation messages allowed) s (.tx n (.writeTargets now)) = some u) :
    ∃ new, (u.campaigns id).held = some (n, some new) ∧
      (TargetsReplaced s groupIds row new ↔
        (groupIds.Perm row.targets → row.targetSource = none →
          collation.Alike utf16 row.targets)) := by
  obtain ⟨_, v, hheld, hv⟩ := campaigns_locked h n id row (by rw [hstage]; rfl)
  rw [hstage] at hv
  obtain rfl : v = row := hv
  have hstored := ((sets_stored h).campaigns id).2 n _ hheld v rfl
  obtain ⟨w, exec, _, _, _, rfl⟩ := step_some hstep
  change ∃ new, ((campaignEffect (collated collation messages allowed) s
    (.tx n (.writeTargets now))).apply s.campaigns id).held = _ ∧ _
  simp only [campaignEffect, hstage, txCampaignEffect]
  by_cases hknown : s.knownGroups v.sessionId groupIds
  · refine ⟨(replaced (collated collation messages allowed) groupIds now v).getD v, ?_,
      replaced_documented_iff rfl hstored.sorted⟩
    rw [if_pos hknown]
    simp only [Effect.apply, Table.updateIn_same]
    cases hnew : replaced (collated collation messages allowed) groupIds now v <;>
      simp [Row.updateIn, Row.view, hheld, onRow, hnew]
  · have hother : ¬ groupIds.Perm v.targets := by
      intro hperm
      exact hknown ((known_perm hperm).trans hstored.known)
    rw [if_neg hknown]
    exact ⟨v, hheld, iff_of_true ⟨fun _ _ => rfl, fun _ hk => absurd hk hknown⟩
      fun hperm => absurd hperm hother⟩

theorem members_replacement (h : Reachable (system (collated collation messages allowed)) s)
    {found : SavedList} (hstage : s.txs n = .regrouping list groupIds found)
    (hstep : step (collated collation messages allowed) s (.tx n (.writeGroups now)) = some u) :
    ∃ new, (u.lists list).held = some (n, some new) ∧
      (MembersReplaced s groupIds found new ↔
        (groupIds.Perm found.groupIds → collation.Alike utf16 found.groupIds)) := by
  have hheld := (lists_shared h).regrouping n list groupIds found hstage
  have hstored := ((sets_stored h).lists list).2 n _ hheld found rfl
  obtain ⟨w, exec, _, _, _, rfl⟩ := step_some hstep
  change ∃ new, ((listEffect (collated collation messages allowed) s
    (.tx n (.writeGroups now))).apply s.lists list).held = _ ∧ _
  simp only [listEffect, hstage, txListEffect]
  by_cases hknown : s.knownGroups found.sessionId groupIds
  · refine ⟨(regrouped (collated collation messages allowed) groupIds now found).getD found, ?_,
      regrouped_documented_iff rfl hstored.sorted⟩
    rw [if_pos hknown]
    simp only [Effect.apply, Table.updateIn_same]
    cases hnew : regrouped (collated collation messages allowed) groupIds now found <;>
      simp [Row.updateIn, Row.view, hheld, onRow, hnew]
  · have hother : ¬ groupIds.Perm found.groupIds := by
      intro hperm
      exact hknown ((known_perm hperm).trans hstored.known)
    rw [if_neg hknown]
    exact ⟨found, hheld, iff_of_true ⟨fun _ => rfl, fun _ hk => absurd hk hknown⟩
      fun hperm => absurd hperm hother⟩

/-- Replacements of target sets and of memberships do what is documented of them exactly where the
collation compares the stored members as JavaScript does. -/
theorem replacements_documented_iff
    (h : Reachable (system (collated collation messages allowed)) s) :
    (∀ n id groupIds row now u, s.txs n = .replacing id groupIds row →
      step (collated collation messages allowed) s (.tx n (.writeTargets now)) = some u →
      ∃ new, Commits (collated collation messages allowed) u n
          (fun x => (x.campaigns id).committed = some new) ∧
        (TargetsReplaced s groupIds row new ↔
          (groupIds.Perm row.targets → row.targetSource = none →
            collation.Alike utf16 row.targets))) ∧
    ∀ n list groupIds found now u, s.txs n = .regrouping list groupIds found →
      step (collated collation messages allowed) s (.tx n (.writeGroups now)) = some u →
      ∃ new, Commits (collated collation messages allowed) u n
          (fun x => (x.lists list).committed = some new) ∧
        (MembersReplaced s groupIds found new ↔
          (groupIds.Perm found.groupIds → collation.Alike utf16 found.groupIds)) := by
  constructor
  · intro n id groupIds row now u hstage hstep
    obtain ⟨new, hheld, hiff⟩ := targets_replacement h hstage hstep
    refine ⟨new, campaign_commits ?_ hheld, hiff⟩
    obtain ⟨v, exec, hv, _, _, rfl⟩ := step_some hstep
    have hmove := tx_moves hv
    rw [hstage] at hmove
    exact (guarded_eq_some.mp hmove).2.symm
  · intro n list groupIds found now u hstage hstep
    obtain ⟨new, hheld, hiff⟩ := members_replacement h hstage hstep
    refine ⟨new, list_commits ?_ hheld, hiff⟩
    obtain ⟨v, exec, hv, _, _, rfl⟩ := step_some hstep
    have hmove := tx_moves hv
    rw [hstage] at hmove
    exact (guarded_eq_some.mp hmove).2.symm

theorem codePoints_injective :
    Function.Injective fun groupId : GroupId => groupId.toList.map Char.toNat := by
  intro a b h
  have hchar : Function.Injective Char.toNat := fun _ _ hc => Char.toNat_inj.mp hc
  exact String.toList_inj.mp (List.map_injective_iff.mpr hchar h)

/-- A collation by code points. -/
def byCodePoint : TotalOrder GroupId := lexicographic.lift _ codePoints_injective

def exampleConfig : Config := collated byCodePoint ⟨true, 1000⟩ ["session"]

/-- A campaign with two targets, which are then submitted once more. -/
def resubmission (first second : GroupId) : List Event :=
  [.exec (.writeGroup ("session", first) ⟨.allowed, "ok", 1, some 0⟩),
    .exec (.writeGroup ("session", second) ⟨.allowed, "ok", 1, some 0⟩),
    .createCampaign 1 ⟨"session", "offer", "Hello", .immediate, none, "key", "hash"⟩ 0,
    .tx 0 (.lockReplace 1 [first, second] 0), .tx 0 (.writeTargets 0), .tx 0 .commit,
    .tx 1 (.lockReplace 1 [first, second] 1)]

def exampleSystem : System State Event := system exampleConfig

instance (s : State) (e : Event) : Decidable (exampleSystem.enabled s e) :=
  inferInstanceAs (Decidable ((step exampleConfig s e).isSome = true))

def beforeWrite (first second : GroupId) : State :=
  runTrace exampleSystem initial (resubmission first second)

/-- The members are stored in the other order, and compared with those of the list. -/
theorem resubmission_is_noop :
    ∃ row u new, (beforeWrite "b@g.us" "a@g.us").txs 1 = .replacing 1 ["b@g.us", "a@g.us"] row ∧
      step exampleConfig (beforeWrite "b@g.us" "a@g.us") (.tx 1 (.writeTargets 0)) = some u ∧
      Commits exampleConfig u 1 (fun x => (x.campaigns 1).committed = some new) ∧
      TargetsReplaced (beforeWrite "b@g.us" "a@g.us") ["b@g.us", "a@g.us"] row new := by
  have hreach : Reachable exampleSystem (beforeWrite "b@g.us" "a@g.us") :=
    ⟨resubmission "b@g.us" "a@g.us", valid_trace_run rfl (by decide +kernel)⟩
  obtain ⟨row, hstage, htargets⟩ : ∃ row, (beforeWrite "b@g.us" "a@g.us").txs 1 =
      .replacing 1 ["b@g.us", "a@g.us"] row ∧ row.targets = ["a@g.us", "b@g.us"] :=
    ⟨_, rfl, by decide +kernel⟩
  obtain ⟨u, hu⟩ := Option.isSome_iff_exists.mp (show (step exampleConfig
    (beforeWrite "b@g.us" "a@g.us") (.tx 1 (.writeTargets 0))).isSome = true by decide +kernel)
  obtain ⟨new, hcommits, hiff⟩ :=
    (replacements_documented_iff hreach).1 1 1 ["b@g.us", "a@g.us"] row 0 u hstage hu
  refine ⟨row, u, new, hstage, hu, hcommits, hiff.mpr fun _ _ => ?_⟩
  refine (byCodePoint.sorts_eq_iff utf16 row.targets).mp ?_
  rw [htargets]
  decide +kernel

/-- A surrogate pair comes before U+FF5E in UTF-16, and after it by code point. -/
theorem resubmission_raises_revision :
    ∃ row u new, Reachable exampleSystem (beforeWrite "～@g.us" "😀@g.us") ∧
      (beforeWrite "～@g.us" "😀@g.us").txs 1 = .replacing 1 ["～@g.us", "😀@g.us"] row ∧
      row.targets = ["～@g.us", "😀@g.us"] ∧ row.targetSource = none ∧
      step exampleConfig (beforeWrite "～@g.us" "😀@g.us") (.tx 1 (.writeTargets 0)) = some u ∧
      (u.campaigns 1).held = some (1, some new) ∧
      new.targetsRevision = row.targetsRevision + 1 := by
  have hreach : Reachable exampleSystem (beforeWrite "～@g.us" "😀@g.us") :=
    ⟨resubmission "～@g.us" "😀@g.us", valid_trace_run rfl (by decide +kernel)⟩
  refine ⟨_, _, _, hreach, rfl, by decide +kernel, by decide +kernel, rfl, rfl, by decide +kernel⟩

end Replacement

end SetReplacement
