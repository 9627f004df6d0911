import WaRuntime.RunOrigins

/-! After the deletion of a campaign.
`delete` has locked the campaign before it looks at the runs, and waits for each open one it finds,
so no run of the campaign is open when it commits. From then on the row of the campaign meets no
WHERE clause and passes no check, and a run that has ended is locked by nothing that would move it
or its deliveries. -/
namespace DeletedCampaigns

open TransitionRuns RowVersions CampaignRunStatements CampaignAggregates AggregateLocks RunOrigins
open CampaignExecution (TargetKey runEffect link)
open CampaignRunTransitions (SlotChange StaysEnded finalized run_effect_changes runs_locked
  finalize_stays_ended)
open CampaignDeliveries (committed_delivery_step writesFor_lock locked_run_open)
open CampaignTransactions (CampaignId CampaignStatus Campaign newCampaign)

section Runs

variable {c : OutboundMessageExecution.Config} {s u : CampaignExecution.State}
  {e : CampaignExecution.Event}

theorem lawful_effect_changes (h : Reachable (CampaignExecution.system c) s)
    (hrow : ∀ run, (s.runs run).Follows (SlotChange Lawful)) (hfinal : finalized s e = none) :
    (runEffect s e).MovesBy (SlotChange Lawful) s.runs := by
  refine run_effect_changes (runs_locked h) hrow (fun _ _ hl => hl) ?_
  intro now run hasFailure r hf
  rw [hfinal] at hf
  cases hf

/-- A finalization is a statement of its own, so what open transactions hold is lawful. -/
theorem held_runs_lawful (h : Reachable (CampaignExecution.system c) s) :
    ∀ run, (s.runs run).Follows (SlotChange Lawful) := by
  refine reachable_invariant_with (M := CampaignExecution.system c)
    (I := fun s => ∀ run, (s.runs run).Follows (SlotChange Lawful))
    (J := Reachable (CampaignExecution.system c)) (fun _ => id) ?_
    (fun s e hreach hI he run => ?_) h
  · rintro _ rfl run
    exact Row.follows_settled _
  · obtain ⟨v, core, _, _, ⟨hr, _, _⟩, hu⟩ := CampaignExecution.step_some (ofStep_enabled he)
    rw [show (CampaignExecution.system c).next s e = _ from hu]
    change ((runEffect s e).apply s.runs run).Follows (SlotChange Lawful)
    cases hf : finalized s e with
    | none => exact Effect.follows_apply hI hr (lawful_effect_changes hreach hI hf) run
    | some found =>
      have howner : (runEffect s e).owner = none := by
        unfold finalized at hf
        split at hf
        · split at hf
          · rename_i n now found' rest hstage
            simp [runEffect, hstage, CampaignExecution.txRunEffect, Effect.owner]
          · cases hf
        · cases hf
      have hrow := Effect.row_moves hr run
      generalize (runEffect s e).apply s.runs run = row at hrow ⊢
      cases hrow with
      | same => exact hI run
      | own => exact Row.follows_settled _
      | inside _ ho =>
        rw [howner] at ho
        cases ho
      | commit => exact Row.follows_settled _
      | abort => exact Row.follows_settled _

/-- Any other step changes each run as documented. -/
theorem lawful_run_step (h : Reachable (CampaignExecution.system c) s)
    (hstep : CampaignExecution.step c s e = some u) (hfinal : finalized s e = none) (run : RunId) :
    SlotChange Lawful (s.runs run).committed (u.runs run).committed := by
  obtain ⟨v, core, _, _, ⟨hr, _, _⟩, rfl⟩ := CampaignExecution.step_some hstep
  have hfollows := held_runs_lawful h
  exact Effect.committed_moves (fun _ => .kept) hfollows hr
    (lawful_effect_changes h hfollows hfinal) run

end Runs

variable {c : Config} {s u : State} {e : Event} {es : List Event} {n : ℕ} {id : CampaignId}
  {run : RunId} {row : Campaign}

section Rows

/-- A statement of a transaction reads what the transaction sees. -/
theorem tx_reads_view {event : TxEvent} {f : Option Campaign → Option (Option Campaign)}
    (hs : (campaignEffect c s (.tx n event)).statement id = some f) :
    (campaignEffect c s (.tx n event)).read s.campaigns id = (s.campaigns id).view n := by
  change (txCampaignEffect c s n (s.txs n) event).statement id = some f at hs
  change (txCampaignEffect c s n (s.txs n) event).read s.campaigns id = _
  unfold txCampaignEffect at hs ⊢
  split at hs
  all_goals try split at hs
  all_goals simp_all [Effect.statement, Effect.read, Effect.owner]

theorem not_deleted_under_lock (h : Reachable (system c) s)
    (hlock : lockOf (s.txs n) = some (id, row)) :
    (s.campaigns id).committed = some row ∧ row.deletedAt = none := by
  obtain ⟨hrow, _⟩ := campaigns_locked h n id row hlock
  refine ⟨hrow, ?_⟩
  have hchecked := checks_hold h n
  generalize s.txs n = k at hlock hchecked
  cases k <;> cases hlock
  case launching | unreplayed | unlaunched => exact hchecked
  all_goals exact hchecked.1

/-- The row a transaction has locked, as it sees it until it writes. -/
theorem locked_view (h : Reachable (system c) s) (hlock : lockOf (s.txs n) = some (id, row))
    (hkeep : ∀ v, Keeps (s.txs n) row v → v = row) : (s.campaigns id).view n = some row := by
  obtain ⟨_, v, hheld, hk⟩ := campaigns_locked h n id row hlock
  rw [Row.view_of_held hheld, hkeep v hk]

/-- A deleted campaign is DRAFT or ARCHIVED. -/
def DeletedAtRest (v : Option Campaign) : Prop :=
  ∀ row ∈ v, row.deletedAt ≠ none → row.status ∈ [.draft, .archived]

theorem at_rest_of_same {old new : Campaign} (h : DeletedAtRest (some old))
    (hdeleted : new.deletedAt = old.deletedAt) (hstatus : new.status = old.status) :
    DeletedAtRest (some new) := by
  rintro _ ⟨⟩ hnew
  rw [hstatus]
  exact h old rfl (hdeleted ▸ hnew)

theorem at_rest_of_present {new : Campaign} (h : new.deletedAt = none) :
    DeletedAtRest (some new) := by
  rintro _ ⟨⟩ hnew
  exact absurd h hnew

theorem statement_leaves_at_rest (h : Reachable (system c) s)
    {f : Option Campaign → Option (Option Campaign)} {w : Option Campaign}
    (hs : (campaignEffect c s e).statement id = some f)
    (hw : f ((campaignEffect c s e).read s.campaigns id) = some w)
    (hv : DeletedAtRest ((campaignEffect c s e).read s.campaigns id)) : DeletedAtRest w := by
  cases campaign_statement hs with
  | create =>
    obtain ⟨_, rfl⟩ := insertRow_some hw
    exact at_rest_of_present rfl
  | update =>
    obtain ⟨old, new, _, hnew, rfl⟩ := onRow_some hw
    exact at_rest_of_present (updateDraft_some hnew).2.2.1
  | changeStatus =>
    obtain ⟨old, new, hold, hnew, rfl⟩ := onRow_some hw
    obtain ⟨haccepted, status, _, rfl⟩ := statusChange_some hnew
    rintro _ ⟨⟩ hdeleted
    have hrest := hv old hold hdeleted
    revert haccepted hrest
    cases old.status <;> simp
  | select =>
    obtain ⟨old, new, hold, hnew, rfl⟩ := onRow_some hw
    rw [selecting_some hnew, ← hold]
    exact hv
  | replace =>
    obtain ⟨old, new, hold, hnew, rfl⟩ := onRow_some hw
    obtain ⟨targets, rfl⟩ := replaced_some hnew
    rw [hold] at hv
    exact at_rest_of_same hv rfl rfl
  | apply =>
    obtain ⟨old, new, hold, hnew, rfl⟩ := onRow_some hw
    rw [hold] at hv
    rw [applied_some hnew]
    exact at_rest_of_same hv rfl rfl
  | @launch n request row _ _ hk =>
    obtain ⟨old, new, hold, hnew, rfl⟩ := onRow_some hw
    obtain ⟨_, _, rfl⟩ := launch_some hnew
    have hlock : lockOf (s.txs n) = some (request.campaignId, row) := by rw [hk]; rfl
    rw [tx_reads_view hs, locked_view h hlock (by rw [hk]; exact fun v hv => hv)] at hold
    cases hold
    have hpresent := (not_deleted_under_lock h hlock).2
    exact at_rest_of_present hpresent
  | @tombstone n _ row _ hk =>
    obtain ⟨old, new, hold, hnew, rfl⟩ := onRow_some hw
    obtain ⟨_, rfl⟩ := tombstone_some hnew
    have hlock : lockOf (s.txs n) = some (id, row) := by rw [hk]; rfl
    rw [tx_reads_view hs, locked_view h hlock (by rw [hk]; exact fun v hv => hv)] at hold
    cases hold
    have hchecked := checks_hold h n
    rw [hk] at hchecked
    rintro _ ⟨⟩ _
    exact hchecked.2

theorem deleted_at_rest (h : Reachable (system c) s) :
    ∀ id, (s.campaigns id).Each DeletedAtRest := by
  refine reachable_invariant_with (M := system c)
    (I := fun s => ∀ id, (s.campaigns id).Each DeletedAtRest) (J := Reachable (system c))
    (fun _ => id) ?_ (fun s e hreach hI he id => ?_) h
  · rintro _ rfl id
    exact Row.each_settled fun row hr => nomatch hr
  · obtain ⟨v, exec, _, _, ⟨hr, _⟩, hu⟩ := step_some (ofStep_enabled he)
    rw [show (system c).next s e = _ from hu]
    exact Effect.each_apply_read (hI id) hr fun f w hs hw =>
      statement_leaves_at_rest hreach hs hw (Effect.each_read (hI id))

/-- Nothing changes a deleted campaign. -/
def Sealed (v w : Option Campaign) : Prop := ∀ row, v = some row → row.deletedAt ≠ none → w = v

theorem sealed_effect (h : Reachable (system c) s) (hI : ∀ id, (s.campaigns id).Follows Sealed) :
    (campaignEffect c s e).MovesBy Sealed s.campaigns := by
  refine Effect.moves_by_read fun id f w hs hw row hrow hdeleted => ?_
  have hread : (campaignEffect c s e).read s.campaigns id = some row := by
    unfold Effect.read
    split
    · exact hrow
    · rename_i t _
      have hview := Row.view_follows (t := t) (fun v row hr hd => rfl) (hI id)
      exact (hview row hrow hdeleted).trans hrow
  have hrest := (deleted_at_rest h id).1 row hrow hdeleted
  have hunlocked : ∀ n row', lockOf (s.txs n) = some (id, row') → False := by
    intro n row' hlock
    obtain ⟨hrow', hpresent⟩ := not_deleted_under_lock h hlock
    rw [hrow] at hrow'
    cases hrow'
    exact hdeleted hpresent
  rw [hread] at hw
  rw [hrow]
  cases campaign_statement hs with
  | create => cases (insertRow_some hw).1
  | update =>
    obtain ⟨old, new, hold, hnew, rfl⟩ := onRow_some hw
    cases hold
    exact absurd (updateDraft_some hnew).1 hdeleted
  | changeStatus =>
    obtain ⟨old, new, hold, hnew, rfl⟩ := onRow_some hw
    cases hold
    obtain ⟨haccepted, _⟩ := statusChange_some hnew
    revert haccepted hrest
    cases row.status <;> simp
  | select =>
    obtain ⟨old, new, hold, hnew, rfl⟩ := onRow_some hw
    rw [selecting_some hnew, hold]
  | replace hk => exact (hunlocked _ _ (by rw [hk]; rfl)).elim
  | apply hk => exact (hunlocked _ _ (by rw [hk]; rfl)).elim
  | launch hk => exact (hunlocked _ _ (by rw [hk]; rfl)).elim
  | tombstone hk => exact (hunlocked _ _ (by rw [hk]; rfl)).elim

theorem campaigns_sealed (h : Reachable (system c) s) : ∀ id, (s.campaigns id).Follows Sealed := by
  refine reachable_invariant_with (M := system c)
    (I := fun s => ∀ id, (s.campaigns id).Follows Sealed) (J := Reachable (system c))
    (fun _ => id) ?_ (fun s e hreach hI he id => ?_) h
  · rintro _ rfl id
    exact Row.follows_settled _
  · obtain ⟨v, exec, _, _, ⟨hr, _⟩, hu⟩ := step_some (ofStep_enabled he)
    rw [show (system c).next s e = _ from hu]
    exact Effect.follows_apply hI hr (sealed_effect hreach hI) id

theorem deleted_row_kept (h : Reachable (system c) s) (hstep : step c s e = some u)
    (hrow : (s.campaigns id).committed = some row) (hdeleted : row.deletedAt ≠ none) :
    (u.campaigns id).committed = some row := by
  obtain ⟨v, exec, _, _, ⟨hr, _⟩, rfl⟩ := step_some hstep
  have hfollows := campaigns_sealed h
  have hsealed := Effect.committed_moves (fun v row hr hd => rfl) hfollows hr
    (sealed_effect h hfollows) id
  exact (hsealed row hrow hdeleted).trans hrow

end Rows

section Ended

/-- The runs of a campaign that are not listed have ended. -/
def EndedExcept (s : State) (id : CampaignId) (runs : List RunId) : Prop :=
  ∀ run r, (s.exec.runs run).committed = .present r → r.campaignId = id → run ∉ runs →
    r.status.Terminal

theorem ended_step {runs : List RunId} (h : Reachable (system c) s) (hstep : step c s e = some u)
    (hother : ∀ run origin, Creates s e run origin → origin.input.campaignId ≠ id)
    (hended : EndedExcept s id runs) : EndedExcept u id runs := by
  intro run r hr hcampaign hrun
  obtain ⟨old, hold, hinput⟩ | ⟨origin, hcreates, hinput, _⟩ := present_step h hstep hr
  · have hterm := hended run old hold
      ((congrArg CreateRunInput.campaignId hinput).symm.trans hcampaign) hrun
    have hslot := slot_step h hstep run
    rw [hold, hr] at hslot
    cases hslot with
    | kept => exact hterm
    | changed hc => exact hc.2 hterm
  · exact absurd ((congrArg CreateRunInput.campaignId hinput).symm.trans hcampaign)
      (hother run origin hcreates)

theorem active_runs (h : OriginsAgree s) : EndedExcept s id (s.activeRuns id) := by
  intro run r hr hcampaign hrun
  by_contra hopen
  refine hrun (List.mem_map.mpr ⟨(run, r), List.mem_filter.mpr ⟨(mem_runs h).mpr hr, ?_⟩, rfl⟩)
  simp [hcampaign, hopen]

/-- Where a version of the campaign is deleted, or about to be, its runs have ended. -/
structure RunsEnded (s : State) : Prop where
  versions : ∀ id, (s.campaigns id).Each fun v => ∀ row ∈ v, row.deletedAt ≠ none →
    EndedExcept s id []
  inspected : ∀ n id row runs, s.txs n = .inspecting id row runs → EndedExcept s id runs

theorem version_statement (hI : RunsEnded s) {f : Option Campaign → Option (Option Campaign)}
    {v w : Option Campaign} (hs : CampaignStatement c s e id f) (hw : f v = some w)
    (hv : ∀ row ∈ v, row.deletedAt ≠ none → EndedExcept s id []) :
    ∀ row ∈ w, row.deletedAt ≠ none → EndedExcept s id [] := by
  cases hs with
  | create =>
    obtain ⟨_, rfl⟩ := insertRow_some hw
    rintro _ ⟨⟩ hdeleted
    exact absurd rfl hdeleted
  | update =>
    obtain ⟨old, new, _, hnew, rfl⟩ := onRow_some hw
    rintro _ ⟨⟩ hdeleted
    exact absurd (updateDraft_some hnew).2.2.1 hdeleted
  | changeStatus =>
    obtain ⟨old, new, rfl, hnew, rfl⟩ := onRow_some hw
    obtain ⟨_, status, _, rfl⟩ := statusChange_some hnew
    rintro _ ⟨⟩ hdeleted
    exact hv old rfl hdeleted
  | select =>
    obtain ⟨old, new, rfl, hnew, rfl⟩ := onRow_some hw
    rw [selecting_some hnew]
    exact hv
  | replace =>
    obtain ⟨old, new, rfl, hnew, rfl⟩ := onRow_some hw
    obtain ⟨targets, rfl⟩ := replaced_some hnew
    rintro _ ⟨⟩ hdeleted
    exact hv old rfl hdeleted
  | apply =>
    obtain ⟨old, new, rfl, hnew, rfl⟩ := onRow_some hw
    rw [applied_some hnew]
    rintro _ ⟨⟩ hdeleted
    exact hv old rfl hdeleted
  | launch =>
    obtain ⟨old, new, rfl, hnew, rfl⟩ := onRow_some hw
    obtain ⟨_, _, rfl⟩ := launch_some hnew
    rintro _ ⟨⟩ hdeleted
    exact hv old rfl hdeleted
  | tombstone hk =>
    rintro _ _ _
    exact hI.inspected _ _ _ _ hk

/-- The commit that creates a run leaves its campaign as it was launched. -/
theorem creation_leaves_present (h : Reachable (system c) s) (hstep : step c s e = some u)
    {origin : RunOrigin} (hcreates : Creates s e run origin) :
    (u.campaigns origin.input.campaignId).Each fun v => ∀ row ∈ v, row.deletedAt = none := by
  obtain ⟨n, request, row, date, now, rfl, hk, rfl⟩ := hcreates
  obtain ⟨_, hpresent⟩ := not_deleted_under_lock h (n := n) (by rw [hk]; rfl)
  obtain ⟨_, held, hheld, hkeep⟩ := campaigns_locked h n request.campaignId row (by rw [hk]; rfl)
  obtain ⟨v, exec, _, _, _, rfl⟩ := step_some hstep
  have heffect : campaignEffect c s (.tx n (.commitRun run now)) = .commit n := by
    simp [campaignEffect, hk, txCampaignEffect]
  have hdeletedAt : held.deletedAt = none := by
    simp only [hk, Keeps] at hkeep
    rw [hkeep]
    split <;> exact hpresent
  change ((campaignEffect c s (.tx n (.commitRun run now))).apply s.campaigns
    request.campaignId).Each _
  rw [heffect, Effect.apply, Table.commit_apply, Row.commit_of_held hheld]
  refine Row.each_settled ?_
  rintro _ ⟨⟩
  exact hdeletedAt

theorem runs_ended_step (h : Reachable (system c) s) (hI : RunsEnded s)
    (hstep : step c s e = some u) : RunsEnded u := by
  constructor
  · intro id
    by_cases hcreates : ∃ run origin, Creates s e run origin ∧ origin.input.campaignId = id
    · obtain ⟨run, origin, hcreates, rfl⟩ := hcreates
      have hpresent := creation_leaves_present h hstep hcreates
      exact ⟨fun row hr hdeleted => absurd (hpresent.1 row hr) hdeleted,
        fun t v hv row hr hdeleted => absurd (hpresent.2 t v hv row hr) hdeleted⟩
    · have hstays : EndedExcept s id [] → EndedExcept u id [] :=
        ended_step h hstep fun run origin hc hsame => hcreates ⟨run, origin, hc, hsame⟩
      obtain ⟨v, exec, _, _, ⟨hr, _⟩, hu⟩ := step_some hstep
      have hversions := Effect.each_apply (hI.versions id) hr fun f v w hs hw =>
        version_statement hI (campaign_statement hs) hw
      have hrow : u.campaigns id = (campaignEffect c s e).apply s.campaigns id := by rw [hu]
      rw [hrow]
      exact ⟨fun row hr hdeleted => hstays (hversions.1 row hr hdeleted),
        fun t v hv row hr hdeleted => hstays (hversions.2 t v hv row hr hdeleted)⟩
  · intro n id row runs hn
    obtain ⟨v, exec, hv, _, _, hu⟩ := step_some hstep
    have htxs : u.txs n = v.txs n := by rw [hu]
    rw [htxs] at hn
    by_cases he : ∃ event, e = .tx n event
    · obtain ⟨event, rfl⟩ := he
      have hmove := tx_move (tx_moves hv)
      rw [hn] at hmove
      generalize hstage : s.txs n = k at hmove
      have hno : ∀ run origin, (∀ request row date, k ≠ .launched request row date) →
          ¬ Creates s (.tx n event) run origin := by
        rintro run origin hk ⟨m, request, row', date, now, hm, hlaunched, _⟩
        cases hm
        exact hk request row' date (hstage.symm.trans hlaunched)
      cases hmove with
      | selected =>
        refine ended_step h hstep (fun run origin hc => ?_) (active_runs (origins_agree h))
        exact absurd hc (hno run origin (by simp))
      | @inspected _ _ run' _ hterm =>
        refine ended_step h hstep (fun run origin hc => absurd hc (hno run origin (by simp))) ?_
        intro run r hr hcampaign hrun
        by_cases hsame : run = run'
        · subst hsame
          exact (hterm r hr).2
        · exact hI.inspected n id row _ hstage run r hr hcampaign (by simp [hsame, hrun])
    · rw [other_tx_unchanged hv fun event hev => he ⟨event, hev⟩] at hn
      refine ended_step h hstep (fun run origin hc hsame => ?_) (hI.inspected n id row runs hn)
      obtain ⟨m, row', ⟨event, rfl⟩, hm⟩ := creates_under_lock hc
      rw [hsame] at hm
      obtain rfl := campaign_lock_unique h (by rw [hn]; rfl) hm
      exact he ⟨event, rfl⟩

theorem runs_ended (h : Reachable (system c) s) : RunsEnded s := by
  refine reachable_invariant_with (M := system c) (I := RunsEnded) (J := Reachable (system c))
    (fun _ => id) ?_ (fun s e hr hI he => runs_ended_step hr hI (ofStep_enabled he)) h
  rintro _ rfl
  exact ⟨fun id => Row.each_settled fun row hr => (nomatch hr), fun _ _ _ _ hn => (nomatch hn)⟩

end Ended

/-- The step is no write of a finalization, which does not look at the status of its run. -/
def NotFinalizing (s : State) (e : Event) : Prop :=
  ∀ event ∈ execEvent s e, finalized s.exec event = none

/-- A step that does not finalize leaves the status of a run that has ended. -/
theorem ended_status_step (h : Reachable (system c) s) (hstep : step c s e = some u)
    (hfinal : NotFinalizing s e) {old new : CampaignRun}
    (hold : (s.exec.runs run).committed = .present old)
    (hnew : (u.exec.runs run).committed = .present new) (hterm : old.status.Terminal) :
    new.status = old.status := by
  obtain ⟨_, hsame⟩ | ⟨event, hevent, hx⟩ := exec_moves hstep
  · rw [hsame, hold] at hnew
    cases hnew
    rfl
  · have hslot := lawful_run_step (reachable_runs h) hx (hfinal event hevent) run
    rw [hold, hnew] at hslot
    cases hslot with
    | kept => rfl
    | changed hlawful =>
      obtain hs | ht := hlawful.2
      · exact hs.symm
      · exact absurd ht (terminal_has_no_transition hterm)

/-- No step links a job to a delivery of a run that is not open. -/
theorem links_stay (h : Reachable (system c) s) (hstep : step c s e = some u)
    (hended : ∀ r, (s.exec.runs run).committed = .present r → r.status.Terminal) {g : String}
    {j : MessageJobStatements.JobId} (hj : link (u.exec.deliveries (run, g)).committed = some j) :
    link (s.exec.deliveries (run, g)).committed = some j := by
  obtain ⟨_, hsame⟩ | ⟨event, _, hx⟩ := exec_moves hstep
  · rwa [hsame] at hj
  · have hcommit : ∀ m, event = .tx m .commit →
        CampaignDeliveries.writesFor (s.exec.txs m) ≠ some run := by
      intro m _ hw
      obtain ⟨statuses, hlock⟩ := writesFor_lock hw
      obtain ⟨r, hr, hopen⟩ := locked_run_open (reachable_runs h) hlock
      exact hopen (hended r hr)
    obtain hsame | ⟨m, now, jobs, _, hw⟩ | ⟨hnone, _⟩ :=
      committed_delivery_step (run, g) (reachable_runs h) hx hcommit
    · rwa [hsame] at hj
    · obtain ⟨d, d', i, job, hd, hd', hlink, hlink', _⟩ := reconcile_some hw
      rw [hd'] at hj
      rw [hd]
      exact hlink.trans (hlink'.symm.trans hj)
    · rw [hnone] at hj
      cases hj

theorem deleted_runs_ended (h : Reachable (system c) s)
    (hrow : (s.campaigns id).committed = some row) (hdeleted : row.deletedAt ≠ none) :
    EndedExcept s id [] :=
  ((runs_ended h).versions id).1 row hrow hdeleted

/-- What a later state has of a campaign that is deleted in `s`: the same row, no run that was not
there, and no job that was not linked. -/
structure Quiet (s : State) (id : CampaignId) (row : Campaign) (u : State) : Prop where
  row : (u.campaigns id).committed = some row
  known : ∀ run r, (u.exec.runs run).committed = .present r → r.campaignId = id →
    ∃ old, (s.exec.runs run).committed = .present old ∧ r.input = old.input
  slots : ∀ run r, (s.exec.runs run).committed = .present r →
    (u.exec.runs run).committed = .deleted ∨
      ∃ new, (u.exec.runs run).committed = .present new ∧ new.input = r.input
  links : ∀ run r g j, (s.exec.runs run).committed = .present r → r.campaignId = id →
    link (u.exec.deliveries (run, g)).committed = some j →
      link (s.exec.deliveries (run, g)).committed = some j

theorem quiet_step {t : State} (h : Reachable (system c) t) (hdeleted : row.deletedAt ≠ none)
    (hI : Quiet s id row t) (hstep : step c t e = some u) : Quiet s id row u where
  row := deleted_row_kept h hstep hI.row hdeleted
  known := by
    intro run r hr hcampaign
    obtain ⟨old, hold, hinput⟩ | ⟨origin, hcreates, hinput, _⟩ := present_step h hstep hr
    · obtain ⟨first, hfirst, hi⟩ := hI.known run old hold
        ((congrArg CreateRunInput.campaignId hinput).symm.trans hcampaign)
      exact ⟨first, hfirst, hinput.trans hi⟩
    · obtain ⟨m, row', _, hm⟩ := creates_under_lock hcreates
      obtain ⟨hrow', hpresent⟩ := not_deleted_under_lock h hm
      have horigin : origin.input.campaignId = id :=
        (congrArg CreateRunInput.campaignId hinput).symm.trans hcampaign
      rw [horigin, hI.row] at hrow'
      cases hrow'
      exact absurd hpresent hdeleted
  slots := by
    intro run r hr
    have hslot := slot_step h hstep run
    obtain hgone | ⟨new, hnew, hinput⟩ := hI.slots run r hr
    · rw [hgone] at hslot
      generalize (u.exec.runs run).committed = slot at hslot
      cases hslot
      exact .inl rfl
    · rw [hnew] at hslot
      generalize (u.exec.runs run).committed = slot at hslot
      cases hslot with
      | kept => exact .inr ⟨new, rfl, hinput⟩
      | changed hc => exact .inr ⟨_, rfl, hc.1.trans hinput⟩
      | deleted => exact .inl rfl
  links := by
    intro run r g j hr hcampaign hj
    refine hI.links run r g j hr hcampaign (links_stay h hstep (fun r' hr' => ?_) hj)
    obtain hgone | ⟨new, hnew, hinput⟩ := hI.slots run r hr
    · rw [hgone] at hr'
      cases hr'
    · rw [hnew] at hr'
      cases hr'
      exact deleted_runs_ended h hI.row hdeleted run _ hnew
        ((congrArg CreateRunInput.campaignId hinput).trans hcampaign) List.not_mem_nil

theorem quiet_along (h : Reachable (system c) s) (hx : Execution (system c) s es u)
    (hrow : (s.campaigns id).committed = some row) (hdeleted : row.deletedAt ≠ none) :
    Quiet s id row u := by
  refine stable_along (M := system c) (P := Quiet s id row)
    (fun t e ht hI he => quiet_step ht hdeleted hI (ofStep_enabled he)) h hx ?_
  exact ⟨hrow, fun run r hr _ => ⟨r, hr, rfl⟩, fun run r hr => .inr ⟨r, hr, rfl⟩,
    fun run r g j _ _ hj => hj⟩

/-- Once a campaign is deleted, its row stays as it is. No run of it is created, each of its runs
has ended and does not change its status, but by a finalization that has found it RUNNING before,
and no job is linked to a delivery of it. -/
theorem deleted_campaign_is_quiescent (h : Reachable (system c) s)
    (hx : Execution (system c) s es u) (hrow : (s.campaigns id).committed = some row)
    (hdeleted : row.deletedAt ≠ none) :
    (u.campaigns id).committed = some row ∧
      (∀ run r, (u.exec.runs run).committed = .present r → r.campaignId = id →
        r.status.Terminal ∧ ∃ old, (s.exec.runs run).committed = .present old ∧
          r.input = old.input) ∧
      (∀ run r g j, (s.exec.runs run).committed = .present r → r.campaignId = id →
        link (u.exec.deliveries (run, g)).committed = some j →
          link (s.exec.deliveries (run, g)).committed = some j) ∧
      ∀ e run old new, (system c).enabled u e → NotFinalizing u e →
        (u.exec.runs run).committed = .present old → old.campaignId = id →
        (((system c).next u e).exec.runs run).committed = .present new →
          new.status = old.status := by
  have hu := h.extend hx
  have hquiet := quiet_along h hx hrow hdeleted
  have hended := deleted_runs_ended hu hquiet.row hdeleted
  refine ⟨hquiet.row, fun run r hr hcampaign => ?_, hquiet.links, ?_⟩
  · exact ⟨hended run r hr hcampaign List.not_mem_nil, hquiet.known run r hr hcampaign⟩
  · intro e run old new he hfinal hold hcampaign hnew
    have hterm := hended run old hold hcampaign List.not_mem_nil
    exact ended_status_step hu (ofStep_enabled he) hfinal hold hnew hterm

/-- A LIVE run is created and cancelled, and its campaign deleted. -/
def deletionTrace : List Event :=
  [.createCampaign 1 ⟨"session", "name", "text", .immediate, none, "key", "hash"⟩ 0,
    .tx 0 (.requestRun ⟨1, "run", .live, none, none⟩), .tx 0 .lockCampaign, .tx 0 .readByKey,
    .tx 0 .readLive, .tx 0 (.checkLaunch 0), .tx 0 (.insertRun 0), .tx 0 (.commitRun 7 0),
    .exec (.tx 1 (.lockCancel 7)), .exec (.tx 1 (.insertDeliveries 0)),
    .exec (.tx 1 .startCancelJobs), .exec (.tx 1 .startCancelDeliveries),
    .exec (.tx 1 (.writeCancelled 0)), .exec (.tx 1 .commit), .changeStatus 1 .finish 0,
    .tx 2 (.lockDelete 1 1 0), .tx 2 .selectActive, .tx 2 (.tombstone 0), .tx 2 .commit]

/-- A pause of the run, a draft edit and a status change come after the deletion. -/
def lateTrace : List Event :=
  [.exec (.pause 7 0), .updateCampaign 1 ⟨"other", "text", .immediate, none⟩ 2 0,
    .changeStatus 1 .resume 0]

def deletedState : State := runTrace (system exampleConfig) initial deletionTrace

def lateState : State := runTrace (system exampleConfig) deletedState lateTrace

theorem late_writes_change_nothing :
    (lateState.campaigns 1).committed = (deletedState.campaigns 1).committed ∧
      ∀ r, (lateState.exec.runs 7).committed = .present r → r.campaignId = 1 →
        r.status.Terminal := by
  have hreach : Reachable (system exampleConfig) deletedState :=
    ⟨deletionTrace, valid_trace_run rfl (by decide +kernel)⟩
  have hlate : Execution (system exampleConfig) deletedState lateTrace lateState :=
    valid_trace_execution (by decide +kernel)
  obtain ⟨hrow, hruns, _⟩ := deleted_campaign_is_quiescent hreach hlate
    (show (deletedState.campaigns 1).committed = some _ from rfl) (by simp)
  exact ⟨hrow, fun r hr hcampaign => (hruns 7 r hr hcampaign).1⟩

end DeletedCampaigns
