import WaRuntime.VersionHistory
import WaRuntime.RunOrigins

/-! Where the targets of a campaign come from.
The membership of a saved list and the targets of a campaign are versioned: no statement changes
one without raising its revision. A list is read under a share lock, so the revision and the
members that `applyGroupListTargets` reads in two statements belong together, and a campaign is
locked from the read of its targets to the commit of the run that takes them. -/
namespace TargetProvenance

open TransitionRuns RowVersions VersionHistory CampaignRunStatements CampaignAggregates
open AggregateLocks RunOrigins
open CampaignExecution (GroupId)
open CampaignTransactions (CampaignId Campaign CampaignTargetSource GroupList newCampaign
  updateDraft writeTargets runInput)

variable {c : Config} {s u : State} {e : Event} {es : List Event} {n : ℕ} {event : TxEvent}
  {id : CampaignId} {list : ListId}

/-- The membership revision of a saved list, with its members. -/
def membershipOf (row : Option SavedList) : Option (ℕ × List GroupId) :=
  row.map fun list => (list.membershipRevision, list.groupIds)

/-- The targets revision of a campaign, with its targets and their source. -/
def targetsOf (row : Option Campaign) : Option (ℕ × List GroupId × Option CampaignTargetSource) :=
  row.map fun row => (row.targetsRevision, row.targets, row.targetSource)

/-- In the run of `es` the list had these members at the revision. -/
def HadMembership (c : Config) (es : List Event) (list : ListId) (revision : ℕ)
    (groupIds : List GroupId) : Prop :=
  HadVersion (system c) initial es (fun s => membershipOf (s.lists list).committed) revision groupIds

/-- In the run of `es` the campaign had these targets, from this source, at the revision. -/
def HadTargets (c : Config) (es : List Event) (id : CampaignId) (revision : ℕ)
    (targets : List GroupId) (source : Option CampaignTargetSource) : Prop :=
  HadVersion (system c) initial es (fun s => targetsOf (s.campaigns id).committed) revision
    (targets, source)

section Versions

variable {ρ α : Type} {observe : ρ → Option (ℕ × α)}

/-- What the row shows stays, or gets a later version. -/
def MovesOn (observe : ρ → Option (ℕ × α)) (v w : ρ) : Prop :=
  ∀ p, observe v = some p → ∃ q, observe w = some q ∧ Advances p q

theorem moves_on_refl (v : ρ) : MovesOn observe v v := fun p hp => ⟨p, hp, .inr rfl⟩

theorem moves_on_trans (u v w : ρ) (h : MovesOn observe u v) (k : MovesOn observe v w) :
    MovesOn observe u w := by
  intro p hp
  obtain ⟨q, hq, hpq⟩ := h p hp
  obtain ⟨r, hr, hqr⟩ := k q hq
  exact ⟨r, hr, advances_trans hpq hqr⟩

theorem moves_on_of_same {v w : ρ} (h : observe w = observe v) : MovesOn observe v w :=
  fun p hp => ⟨p, h.trans hp, .inr rfl⟩

end Versions

theorem list_statement_moves_on {f : Option SavedList → Option (Option SavedList)}
    {v w : Option SavedList} (hs : ListStatement c s e list f) (hw : f v = some w) :
    MovesOn membershipOf v w := by
  cases hs with
  | create =>
    obtain ⟨rfl, rfl⟩ := insertRow_some hw
    intro p hp
    cases hp
  | update =>
    obtain ⟨old, new, rfl, hnew, rfl⟩ := onRow_some hw
    unfold updated at hnew
    split at hnew
    · cases hnew
      exact moves_on_of_same rfl
    · cases hnew
  | archive =>
    obtain ⟨old, new, rfl, hnew, rfl⟩ := onRow_some hw
    unfold archived at hnew
    split at hnew
    · cases hnew
      exact moves_on_of_same rfl
    · cases hnew
  | select =>
    obtain ⟨old, new, rfl, hnew, rfl⟩ := onRow_some hw
    rw [selecting_some hnew]
    exact moves_on_refl _
  | regroup =>
    obtain ⟨old, new, rfl, hnew, rfl⟩ := onRow_some hw
    unfold regrouped at hnew
    split at hnew
    · cases hnew
      rintro _ ⟨⟩
      exact ⟨_, rfl, .inl (Nat.lt_succ_self _)⟩
    · cases hnew

theorem writeTargets_moves_on (targets : List GroupId) (source : Option CampaignTargetSource)
    (now : ℕ) (row : Campaign) :
    MovesOn targetsOf (some row) (some (writeTargets targets source now row)) := by
  rintro _ ⟨⟩
  exact ⟨_, rfl, .inl (Nat.lt_succ_self _)⟩

theorem campaign_statement_moves_on {f : Option Campaign → Option (Option Campaign)}
    {v w : Option Campaign} (hs : CampaignStatement c s e id f) (hw : f v = some w) :
    MovesOn targetsOf v w := by
  cases hs with
  | create =>
    obtain ⟨rfl, rfl⟩ := insertRow_some hw
    intro p hp
    cases hp
  | update =>
    obtain ⟨old, new, rfl, hnew, rfl⟩ := onRow_some hw
    obtain ⟨_, _, _, _, ht, hr, hsource⟩ := updateDraft_some hnew
    exact moves_on_of_same (by simp [targetsOf, ht, hr, hsource])
  | changeStatus =>
    obtain ⟨old, new, rfl, hnew, rfl⟩ := onRow_some hw
    obtain ⟨_, status, _, rfl⟩ := statusChange_some hnew
    exact moves_on_of_same rfl
  | select =>
    obtain ⟨old, new, rfl, hnew, rfl⟩ := onRow_some hw
    rw [selecting_some hnew]
    exact moves_on_refl _
  | replace =>
    obtain ⟨old, new, rfl, hnew, rfl⟩ := onRow_some hw
    obtain ⟨targets, rfl⟩ := replaced_some hnew
    exact writeTargets_moves_on targets none _ old
  | apply =>
    obtain ⟨old, new, rfl, hnew, rfl⟩ := onRow_some hw
    rw [applied_some hnew]
    exact writeTargets_moves_on _ _ _ old
  | launch =>
    obtain ⟨old, new, rfl, hnew, rfl⟩ := onRow_some hw
    obtain ⟨_, _, rfl⟩ := launch_some hnew
    exact moves_on_of_same rfl
  | tombstone =>
    obtain ⟨old, new, rfl, hnew, rfl⟩ := onRow_some hw
    obtain ⟨_, rfl⟩ := tombstone_some hnew
    exact moves_on_of_same rfl

theorem list_effect_moves_on (hs : ∀ list, (s.lists list).Follows (MovesOn membershipOf)) :
    (listEffect c s e).MovesBy (MovesOn membershipOf) s.lists :=
  (Effect.writes_by_statements fun _ _ _ _ hf hw =>
    list_statement_moves_on (list_statement hf) hw).moves moves_on_refl moves_on_trans hs

theorem campaign_effect_moves_on (hs : ∀ id, (s.campaigns id).Follows (MovesOn targetsOf)) :
    (campaignEffect c s e).MovesBy (MovesOn targetsOf) s.campaigns :=
  (Effect.writes_by_statements fun _ _ _ _ hf hw =>
    campaign_statement_moves_on (campaign_statement hf) hw).moves moves_on_refl moves_on_trans hs

theorem lists_move_on (h : Reachable (system c) s) :
    ∀ list, (s.lists list).Follows (MovesOn membershipOf) := by
  refine reachable_invariant (M := system c)
    (I := fun s => ∀ list, (s.lists list).Follows (MovesOn membershipOf)) ?_
    (fun s e hI he list => ?_) h
  · rintro _ rfl list
    exact Row.follows_settled _
  · obtain ⟨v, exec, _, _, ⟨_, hr⟩, hu⟩ := step_some (ofStep_enabled he)
    rw [show (system c).next s e = _ from hu]
    exact Effect.follows_apply hI hr (list_effect_moves_on hI) list

theorem campaigns_move_on (h : Reachable (system c) s) :
    ∀ id, (s.campaigns id).Follows (MovesOn targetsOf) := by
  refine reachable_invariant (M := system c)
    (I := fun s => ∀ id, (s.campaigns id).Follows (MovesOn targetsOf)) ?_
    (fun s e hI he id => ?_) h
  · rintro _ rfl id
    exact Row.follows_settled _
  · obtain ⟨v, exec, _, _, ⟨hr, _⟩, hu⟩ := step_some (ofStep_enabled he)
    rw [show (system c).next s e = _ from hu]
    exact Effect.follows_apply hI hr (campaign_effect_moves_on hI) id

theorem membership_versioned (c : Config) (list : ListId) :
    Versioned (system c) fun s => membershipOf (s.lists list).committed := by
  intro s e hs he
  obtain ⟨v, exec, _, _, ⟨_, hr⟩, hu⟩ := step_some (ofStep_enabled he)
  rw [show (system c).next s e = _ from hu]
  have hfollows := lists_move_on hs
  exact Effect.committed_moves moves_on_refl hfollows hr (list_effect_moves_on hfollows) list

theorem targets_versioned (c : Config) (id : CampaignId) :
    Versioned (system c) fun s => targetsOf (s.campaigns id).committed := by
  intro s e hs he
  obtain ⟨v, exec, _, _, ⟨hr, _⟩, hu⟩ := step_some (ofStep_enabled he)
  rw [show (system c).next s e = _ from hu]
  have hfollows := campaigns_move_on hs
  exact Effect.committed_moves moves_on_refl hfollows hr (campaign_effect_moves_on hfollows) id

section ShareLocks

/-- A list that is held FOR SHARE is locked by nobody, and a transaction that reads its members
still finds the row it has shared; one that is to be regrouped is held by its transaction. -/
structure ListsShared (s : State) : Prop where
  shared : ∀ list, s.shares list ≠ [] →
    (s.lists list).Free ∧ (s.lists list).committed ≠ none
  sharing : ∀ n id list membership row found,
    s.txs n = .sharing id list membership row found →
      n ∈ s.shares list ∧ (s.lists list).committed = some found
  regrouping : ∀ n list groupIds found, s.txs n = .regrouping list groupIds found →
    (s.lists list).held = some (n, some found)

theorem tx_shares {v : State} (h : moveParties c s (.tx n event) = some v) :
    v.shares = sharesAfter n (v.txs n) s.shares := by
  simp only [moveParties] at h
  split at h
  · cases h
  · cases h
    simp

theorem share_kept {m : ℕ} {k : AggregateTx} {shares : ListId → List ℕ} (hnm : n ≠ m)
    (h : n ∈ shares list) : n ∈ sharesAfter m k shares list := by
  unfold sharesAfter
  split
  · rename_i list' _ _ _
    by_cases hl : list = list'
    · subst hl
      simp [h]
    · simpa [hl] using h
  · simp [h, hnm]
  · exact h

/-- A share lock makes the statements on the list wait. -/
theorem shared_row_unchanged {v : State} (hI : ListsShared s) (hv : moveParties c s e = some v)
    (hr : (listEffect c s e).Ready s.lists) (hlist : s.shares list ≠ []) :
    (listEffect c s e).apply s.lists list = s.lists list := by
  obtain ⟨hfree, hpresent⟩ := hI.shared list hlist
  have hrow := Effect.row_moves hr list
  generalize (listEffect c s e).apply s.lists list = row at hrow ⊢
  cases hrow with
  | same => rfl
  | own hs ho _ hw =>
    cases list_statement hs with
    | create => exact absurd (insertRow_some hw).1 hpresent
    | update =>
      obtain ⟨⟨_, hunshared⟩, _⟩ := guarded_eq_some.mp hv
      exact absurd hw (by simp [hunshared.resolve_left hlist])
    | archive =>
      obtain ⟨⟨_, hunshared⟩, _⟩ := guarded_eq_some.mp hv
      exact absurd hw (by simp [hunshared.resolve_left hlist])
    | select hk => simp [listEffect, hk, txListEffect, Effect.owner] at ho
    | regroup hk =>
      have hheld := hI.regrouping _ _ _ _ hk
      rw [hfree] at hheld
      cases hheld
  | inside hs ho _ hw =>
    cases list_statement hs with
    | create | update | archive => cases ho
    | select hk =>
      obtain ⟨old, new, hold, hnew, _⟩ := onRow_some hw
      rw [Row.view_of_free hfree] at hold
      have hmove := tx_moves hv
      have hopen : notArchived old := by
        by_contra hclosed
        simp [selecting, hclosed] at hnew
      simp only [hk, txNext, hold, hopen, if_true, guarded_eq_some] at hmove
      exact absurd hmove.1.2 hlist
    | regroup hk =>
      have hheld := hI.regrouping _ _ _ _ hk
      rw [hfree] at hheld
      cases hheld
  | commit _ hh | abort _ hh =>
    rw [hfree] at hh
    cases hh

theorem lists_shared_step (hI : ListsShared s) (hstep : step c s e = some u) : ListsShared u := by
  obtain ⟨v, exec, hv, _, ⟨_, hr⟩, rfl⟩ := step_some hstep
  have hkept : ∀ list, s.shares list ≠ [] →
      (listEffect c s e).apply s.lists list = s.lists list := fun list =>
    shared_row_unchanged hI hv hr
  by_cases he : ∃ n event, e = .tx n event
  · obtain ⟨m, event, rfl⟩ := he
    have hmove := tx_move (tx_moves hv)
    have hshares := tx_shares hv
    have hother : ∀ n, n ≠ m → v.txs n = s.txs n := fun n hn =>
      other_tx_unchanged hv fun event' h => hn (by cases h; rfl)
    constructor
    · intro list hlist
      change v.shares list ≠ [] at hlist
      change ((listEffect c s (.tx m event)).apply s.lists list).Free ∧
        ((listEffect c s (.tx m event)).apply s.lists list).committed ≠ none
      by_cases hbefore : s.shares list = []
      · rw [hshares] at hlist
        generalize hstage : s.txs m = k at hmove
        generalize v.txs m = k' at hmove hlist
        cases hmove with
        | @sharing _ list' _ _ _ hfree hfound =>
          by_cases hl : list = list'
          · subst hl
            simp [listEffect, hstage, txListEffect, Effect.apply, hfree, hfound]
          · simp [sharesAfter, hl, hbefore] at hlist
        | _ => simp [sharesAfter, hbefore] at hlist
      · rw [hkept list hbefore]
        exact hI.shared list hbefore
    · intro n id list membership row found hn
      change v.txs n = _ at hn
      change n ∈ v.shares list ∧
        ((listEffect c s (.tx m event)).apply s.lists list).committed = some found
      by_cases hnm : n = m
      · subst hnm
        rw [hn] at hmove hshares
        generalize hstage : s.txs n = k at hmove
        cases hmove with
        | sharing hfree hfound =>
          rw [hshares]
          refine ⟨by simp [sharesAfter], ?_⟩
          simpa [listEffect, hstage, txListEffect, Effect.apply] using hfound
      · rw [hother n hnm] at hn
        obtain ⟨hmem, hfound⟩ := hI.sharing n id list membership row found hn
        rw [hkept list (List.ne_nil_of_mem hmem)]
        rw [hshares]
        exact ⟨share_kept hnm hmem, hfound⟩
    · intro n list groupIds found hn
      change v.txs n = _ at hn
      change ((listEffect c s (.tx m event)).apply s.lists list).held = some (n, some found)
      by_cases hnm : n = m
      · subst hnm
        rw [hn] at hmove
        generalize hstage : s.txs n = k at hmove
        cases hmove with
        | regrouping hfree _ hfound hopen =>
          simp [listEffect, hstage, txListEffect, Effect.apply, Row.updateIn,
            Row.view_of_free hfree, hfound, onRow, selecting, hopen]
      · rw [hother n hnm] at hn
        have hheld := hI.regrouping n list groupIds found hn
        rw [Effect.locked_row_unchanged hr (fun ho => hnm ?_) hheld]
        · exact hheld
        · obtain ⟨event', h⟩ := list_effect_owner ho
          cases h
          rfl
  · have hsame : v = s := outside_tx hv fun n event h => he ⟨n, event, h⟩
    subst hsame
    constructor
    · intro list hlist
      change ((listEffect c v e).apply v.lists list).Free ∧
        ((listEffect c v e).apply v.lists list).committed ≠ none
      rw [hkept list hlist]
      exact hI.shared list hlist
    · intro n id list membership row found hn
      obtain ⟨hmem, hfound⟩ := hI.sharing n id list membership row found hn
      refine ⟨hmem, ?_⟩
      change ((listEffect c v e).apply v.lists list).committed = some found
      rw [hkept list (List.ne_nil_of_mem hmem)]
      exact hfound
    · intro n list groupIds found hn
      have hheld := hI.regrouping n list groupIds found hn
      change ((listEffect c v e).apply v.lists list).held = some (n, some found)
      rw [Effect.locked_row_unchanged hr (fun ho => he ?_) hheld]
      · exact hheld
      · obtain ⟨event, h⟩ := list_effect_owner ho
        exact ⟨n, event, h⟩

theorem lists_shared (h : Reachable (system c) s) : ListsShared s := by
  refine reachable_invariant (M := system c) ?_ (fun s e hI he => ?_) h
  · rintro _ rfl
    exact ⟨fun _ hl => absurd rfl hl, fun _ _ _ _ _ _ hn => (nomatch hn),
      fun _ _ _ _ hn => (nomatch hn)⟩
  · exact lists_shared_step hI (ofStep_enabled he)

end ShareLocks

/-- A version of a campaign with a source has the members that the list had at that revision. -/
def FromList (c : Config) (es : List Event) (v : Option Campaign) : Prop :=
  ∀ row ∈ v, ∀ source ∈ row.targetSource,
    HadMembership c es source.groupListId source.membershipRevision row.targets

theorem from_list_of_cleared {row : Campaign} (h : row.targetSource = none) :
    FromList c es (some row) := by
  rintro _ ⟨⟩ source hsource
  rw [h] at hsource
  cases hsource

theorem from_list_of_same {old new : Campaign} (h : FromList c es (some old))
    (htargets : new.targets = old.targets) (hsource : new.targetSource = old.targetSource) :
    FromList c es (some new) := by
  rintro _ ⟨⟩ source hs
  rw [htargets]
  exact h old rfl source (hsource ▸ hs)

theorem statement_keeps_provenance {f : Option Campaign → Option (Option Campaign)}
    {v w : Option Campaign} (hs : CampaignStatement c s e id f) (hw : f v = some w)
    (hprovided : ∀ n id row source, s.txs n = .provided id row source →
      HadMembership c es source.id source.membershipRevision source.groupIds)
    (hv : FromList c es v) : FromList c es w := by
  cases hs with
  | create =>
    obtain ⟨rfl, rfl⟩ := insertRow_some hw
    exact from_list_of_cleared rfl
  | update =>
    obtain ⟨old, new, rfl, hnew, rfl⟩ := onRow_some hw
    obtain ⟨_, _, _, _, htargets, _, hsource⟩ := updateDraft_some hnew
    exact from_list_of_same hv htargets hsource
  | changeStatus =>
    obtain ⟨old, new, rfl, hnew, rfl⟩ := onRow_some hw
    obtain ⟨_, status, _, rfl⟩ := statusChange_some hnew
    exact from_list_of_same hv rfl rfl
  | select =>
    obtain ⟨old, new, rfl, hnew, rfl⟩ := onRow_some hw
    rw [selecting_some hnew]
    exact hv
  | replace =>
    obtain ⟨old, new, rfl, hnew, rfl⟩ := onRow_some hw
    obtain ⟨targets, rfl⟩ := replaced_some hnew
    exact from_list_of_cleared rfl
  | apply hstage =>
    obtain ⟨old, new, rfl, hnew, rfl⟩ := onRow_some hw
    rw [applied_some hnew]
    rintro _ ⟨⟩ source ⟨⟩
    exact hprovided _ _ _ _ hstage
  | launch =>
    obtain ⟨old, new, rfl, hnew, rfl⟩ := onRow_some hw
    obtain ⟨_, _, rfl⟩ := launch_some hnew
    exact from_list_of_same hv rfl rfl
  | tombstone =>
    obtain ⟨old, new, rfl, hnew, rfl⟩ := onRow_some hw
    obtain ⟨_, rfl⟩ := tombstone_some hnew
    exact from_list_of_same hv rfl rfl

/-- What is written, read or snapshotted of a membership or a target set is what was there. -/
structure Provenance (c : Config) (es : List Event) (s : State) : Prop where
  rows : ∀ id, (s.campaigns id).Each (FromList c es)
  provided : ∀ n id row source, s.txs n = .provided id row source →
    HadMembership c es source.id source.membershipRevision source.groupIds
  origins : ∀ p ∈ s.origins, HadTargets c es p.2.input.campaignId p.2.targetsRevision
    p.2.input.targets p.2.targetSource

theorem provenance_later (h : Provenance c es s) (e : Event) : Provenance c (es ++ [e]) s where
  rows id := ⟨fun row hr source hs => had_later ((h.rows id).1 row hr source hs) [e],
    fun t v hv row hr source hs => had_later ((h.rows id).2 t v hv row hr source hs) [e]⟩
  provided n id row source hn := had_later (h.provided n id row source hn) [e]
  origins p hp := had_later (h.origins p hp) [e]

theorem provenance_step (hr : Run (system c) es s) (hI : Provenance c es s)
    (hstep : step c s e = some u) : Provenance c (es ++ [e]) u := by
  have hreach : Reachable (system c) s := ⟨es, hr⟩
  obtain ⟨_, rfl, hx⟩ := hr
  have hlater := provenance_later hI e
  obtain ⟨v, exec, hv, _, ⟨hready, _⟩, rfl⟩ := step_some hstep
  constructor
  · intro id
    exact Effect.each_apply (hlater.rows id) hready fun f v w hs hw =>
      statement_keeps_provenance (campaign_statement hs) hw hlater.provided
  · intro n id row source hn
    change v.txs n = _ at hn
    by_cases he : ∃ event, e = .tx n event
    · obtain ⟨event, rfl⟩ := he
      have hmove := tx_move (tx_moves hv)
      rw [hn] at hmove
      generalize hstage : s.txs n = k at hmove
      cases hmove with
      | provided hcurrent =>
        obtain ⟨_, hfound⟩ := (lists_shared hreach).sharing _ _ _ _ _ _ hstage
        rw [hfound] at hcurrent
        cases hcurrent
        exact had_later (had_now hx (by rw [hfound]; rfl)) _
    · rw [other_tx_unchanged hv fun event h => he ⟨event, h⟩] at hn
      exact hlater.provided n id row source hn
  · intro p hp
    change p ∈ v.origins at hp
    obtain hsame | ⟨run, origin, ⟨n, request, row, date, now, rfl, hk, rfl⟩, hnew⟩ :=
      origins_step hv
    · rw [hsame] at hp
      exact hlater.origins p hp
    · rw [hnew] at hp
      rcases List.mem_cons.mp hp with rfl | hold
      · obtain ⟨hrow, _⟩ := campaigns_locked hreach n request.campaignId row (by rw [hk]; rfl)
        exact had_later (had_now hx (by
          change targetsOf (s.campaigns request.campaignId).committed = _
          rw [hrow]
          rfl)) _
      · exact hlater.origins p hold

theorem provenance (h : Run (system c) es s) : Provenance c es s := by
  refine run_invariant (M := system c) (I := Provenance c) ?_ (fun es s e hr hI he => ?_) h
  · rintro _ rfl
    exact ⟨fun id => Row.each_settled fun row hr => (nomatch hr), fun _ _ _ _ hn => (nomatch hn),
      fun _ hp => (nomatch hp)⟩
  · exact provenance_step hr hI (ofStep_enabled he)

theorem reachable_initial (c : Config) : Reachable (system c) initial := reachable_of_initial rfl

/-- In every run, a campaign whose targets have a source has the members that the list had at the
membership revision of the source, and each retained run has the targets and the source that its
campaign had at the targets revision of the run. Neither revision ever stood for anything else. -/
theorem targets_have_provenance (h : Execution (system c) initial es s) :
    (∀ id row source, (s.campaigns id).committed = some row → row.targetSource = some source →
      HadMembership c es source.groupListId source.membershipRevision row.targets ∧
        ∀ groupIds, HadMembership c es source.groupListId source.membershipRevision groupIds →
          groupIds = row.targets) ∧
      ∀ run r, (s.exec.runs run).committed = .present r →
        (∃ origin, (run, origin) ∈ s.origins) ∧ ∀ origin, (run, origin) ∈ s.origins →
          HadTargets c es r.campaignId origin.targetsRevision r.targets origin.targetSource ∧
            ∀ targets source, HadTargets c es r.campaignId origin.targetsRevision targets source →
              targets = r.targets ∧ source = origin.targetSource := by
  have hrun : Run (system c) es s := ⟨initial, rfl, h⟩
  have hprovenance := provenance hrun
  have hagree := origins_agree ⟨es, hrun⟩
  constructor
  · intro id row source hrow hsource
    have hhad := (hprovenance.rows id).1 row hrow source hsource
    refine ⟨hhad, fun groupIds hother => ?_⟩
    exact had_unique (membership_versioned c _) (reachable_initial c) hother hhad
  · intro run r hr
    obtain ⟨known, hknown, _⟩ := hagree.known run r hr
    refine ⟨⟨known, hknown⟩, fun origin horigin => ?_⟩
    have hinput := origin_of_run hagree hr horigin
    have hhad : HadTargets c es r.campaignId origin.targetsRevision r.targets origin.targetSource := by
      have hcampaign : r.campaignId = origin.input.campaignId :=
        congrArg CreateRunInput.campaignId hinput
      have htargets : r.targets = origin.input.targets := congrArg CreateRunInput.targets hinput
      rw [hcampaign, htargets]
      exact hprovenance.origins _ horigin
    refine ⟨hhad, fun targets source hother => ?_⟩
    have hpair := had_unique (targets_versioned c _) (reachable_initial c) hother hhad
    exact Prod.mk.inj hpair

/-- A list with one group is applied to a campaign and gets a second group before the launch. -/
def appliedTrace : List Event :=
  [.exec (.writeGroup ("session", "a") ⟨.allowed, "ok", 1, some 0⟩),
    .exec (.writeGroup ("session", "b") ⟨.allowed, "ok", 1, some 0⟩),
    .createList "list" ⟨"session", "friends", none, ["a"]⟩ 0,
    .createCampaign 1 ⟨"session", "name", "text", .immediate, none, "key", "hash"⟩ 0,
    .tx 0 (.lockApply 1 "list" 0 none), .tx 0 .shareList, .tx 0 .readItems,
    .tx 0 (.writeApplied 0), .tx 0 .commit, .tx 1 (.lockList "list" ["a", "b"] 1 none),
    .tx 1 (.writeGroups 0), .tx 1 .commit, .tx 2 (.requestRun ⟨1, "run", .live, none, none⟩),
    .tx 2 .lockCampaign, .tx 2 .readByKey, .tx 2 .readLive, .tx 2 (.checkLaunch 0),
    .tx 2 (.insertRun 0), .tx 2 (.commitRun 7 0)]

def exampleSource : CampaignTargetSource := ⟨"list", "friends", 1, 0⟩

def exampleInput : CreateRunInput := ⟨1, "session", "run", .live, "text", ["a"], 0⟩

/-- The campaign and its run keep the members of the first revision. -/
theorem regrouping_does_not_propagate :
    HadMembership exampleConfig appliedTrace "list" 1 ["a"] ∧
      HadTargets exampleConfig appliedTrace 1 1 ["a"] (some exampleSource) := by
  have htrace : ValidTrace (system exampleConfig) initial appliedTrace := by decide +kernel
  obtain ⟨hcampaigns, hruns⟩ := targets_have_provenance (valid_trace_execution htrace)
  exact ⟨(hcampaigns 1 _ exampleSource rfl rfl).1,
    ((hruns 7 (createRun 0 exampleInput) rfl).2 ⟨exampleInput, 1, 1, some exampleSource⟩
      (List.mem_singleton_self _)).1⟩

end TargetProvenance
