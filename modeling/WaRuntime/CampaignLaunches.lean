import WaRuntime.RunOrigins

/-! Creating runs.
The transaction that creates a run has locked its campaign before it looks for the key and for a
LIVE run, so nothing it has looked for appears before it commits. A LIVE run takes its campaign out
of DRAFT for good, which outlives the run. -/
namespace CampaignLaunches

open TransitionRuns RowVersions CampaignRunStatements CampaignAggregates AggregateLocks RunOrigins
open CampaignTransactions (CampaignId CampaignStatus Campaign CreateRunRequest CreateRunResult
  isLive replayRun revisionsDiffer runInput)

variable {c : Config} {s u : State} {e : Event} {n : ℕ} {id : CampaignId} {run : RunId}
  {r : CampaignRun} {request : CreateRunRequest}

section Reads

/-- No retained run of the campaign has the key of the request. -/
def NoKey (s : State) (request : CreateRunRequest) : Prop :=
  ∀ run r, (s.exec.runs run).committed = .present r → r.campaignId = request.campaignId →
    r.idempotencyKey ≠ request.idempotencyKey

def NoLive (s : State) (id : CampaignId) : Prop :=
  ∀ run r, (s.exec.runs run).committed = .present r → r.campaignId = id → r.executionMode ≠ .live

theorem runByKey_none (h : OriginsAgree s) (hnone : s.runByKey request = none) :
    NoKey s request := by
  intro run r hr hcampaign hkey
  have hmem : r ∈ s.runs.map Prod.snd := List.mem_map_of_mem ((mem_runs h).mpr hr)
  have hfind := List.find?_eq_none.mp hnone r hmem
  simp [hcampaign, hkey] at hfind

theorem runByKey_some (h : OriginsAgree s) (hsome : s.runByKey request = some r) :
    ∃ run, (s.exec.runs run).committed = .present r ∧ r.campaignId = request.campaignId ∧
      r.idempotencyKey = request.idempotencyKey := by
  have hkey := List.find?_some hsome
  obtain ⟨p, hp, rfl⟩ := List.mem_map.mp (List.mem_of_find?_eq_some hsome)
  simp only [Bool.and_eq_true, beq_iff_eq] at hkey
  exact ⟨p.1, (mem_runs h).mp hp, hkey⟩

theorem hasLive_false (h : OriginsAgree s) (hnone : s.hasLive id = false) : NoLive s id := by
  intro run r hr hcampaign hlive
  have hany := List.any_eq_false.mp hnone (run, r) ((mem_runs h).mpr hr)
  simp [hcampaign, hlive, isLive] at hany

/-- The unique indexes find nothing that the transaction has not looked for. -/
theorem no_insert_conflict (h : OriginsAgree s) (hkey : NoKey s request)
    (hlive : NoLive s request.campaignId) : s.insertConflicts request = false := by
  refine List.any_eq_false.mpr fun p hp => ?_
  have hr := (mem_runs h).mp hp
  by_cases hcampaign : p.2.campaignId = request.campaignId
  · have hnokey := hkey p.1 p.2 hr hcampaign
    have hnolive := hlive p.1 p.2 hr hcampaign
    simp [hnokey, isLive, hnolive]
  · simp [hcampaign]

end Reads

/-- What a transaction that creates a run has looked for and not found. -/
def Searched (s : State) : AggregateTx → Prop
  | .unreplayed request _ => NoKey s request
  | .unlaunched request _ | .inserting request _ _ | .launched request _ _ =>
    NoKey s request ∧ NoLive s request.campaignId
  | .conflicting _ => False
  | _ => True

theorem no_key_step (h : Reachable (system c) s) (hstep : step c s e = some u)
    (hother : ∀ run origin, Creates s e run origin → origin.input.campaignId ≠ request.campaignId)
    (hno : NoKey s request) : NoKey u request := by
  intro run r hr hcampaign
  obtain ⟨old, hold, hinput⟩ | ⟨origin, hcreates, hinput, _⟩ := present_step h hstep hr
  · have hkey : r.idempotencyKey = old.idempotencyKey := congrArg CreateRunInput.idempotencyKey hinput
    rw [hkey]
    exact hno run old hold ((congrArg CreateRunInput.campaignId hinput).symm.trans hcampaign)
  · exact absurd ((congrArg CreateRunInput.campaignId hinput).symm.trans hcampaign)
      (hother run origin hcreates)

theorem no_live_step (h : Reachable (system c) s) (hstep : step c s e = some u)
    (hother : ∀ run origin, Creates s e run origin → origin.input.campaignId ≠ id)
    (hno : NoLive s id) : NoLive u id := by
  intro run r hr hcampaign
  obtain ⟨old, hold, hinput⟩ | ⟨origin, hcreates, hinput, _⟩ := present_step h hstep hr
  · have hmode : r.executionMode = old.executionMode := congrArg CreateRunInput.executionMode hinput
    rw [hmode]
    exact hno run old hold ((congrArg CreateRunInput.campaignId hinput).symm.trans hcampaign)
  · exact absurd ((congrArg CreateRunInput.campaignId hinput).symm.trans hcampaign)
      (hother run origin hcreates)

theorem searched_kept {k : AggregateTx} (h : Reachable (system c) s) (hstep : step c s e = some u)
    (hother : ∀ request row, lockOf k = some (request, row) →
      ∀ run origin, Creates s e run origin → origin.input.campaignId ≠ request)
    (hk : Searched s k) : Searched u k := by
  cases k with
  | unreplayed request row => exact no_key_step h hstep (hother _ row rfl) hk
  | unlaunched request row | inserting request row _ | launched request row _ =>
    exact ⟨no_key_step h hstep (hother _ row rfl) hk.1,
      no_live_step h hstep (hother _ row rfl) hk.2⟩
  | conflicting => exact hk
  | _ => trivial

theorem searched_step (h : Reachable (system c) s) (hI : ∀ n, Searched s (s.txs n))
    (hstep : step c s e = some u) : ∀ n, Searched u (u.txs n) := by
  have hagree := origins_agree h
  obtain ⟨v, exec, hv, _, _, hu⟩ := step_some hstep
  intro n
  have htxs : u.txs n = v.txs n := by rw [hu]
  rw [htxs]
  by_cases he : ∃ event, e = .tx n event
  · obtain ⟨event, rfl⟩ := he
    have hmove := tx_move (tx_moves hv)
    have hno : ∀ (row : Campaign) (run : RunId) (origin : RunOrigin),
        (∀ request row date, s.txs n ≠ .launched request row date) →
          ¬ Creates s (.tx n event) run origin := by
      rintro row run origin hstage ⟨m, request, row', date, now, hm, hk, _⟩
      cases hm
      exact hstage request row' date hk
    have hsearched := hI n
    generalize hstage : s.txs n = k at hmove hsearched
    generalize v.txs n = k' at hmove
    cases hmove with
    | @unreplayed request row hnone =>
      refine searched_kept h hstep (fun id r hl run origin hcreates => ?_) (runByKey_none hagree hnone)
      exact absurd hcreates (hno row run origin (by simp [hstage]))
    | @unlaunched request row hlive =>
      refine searched_kept (k := .unlaunched request row) h hstep
        (fun id r hl run origin hcreates => ?_) ⟨hsearched, hasLive_false hagree hlive⟩
      exact absurd hcreates (hno row run origin (by simp [hstage]))
    | @inserting request row date _ =>
      refine searched_kept (k := .inserting request row date) h hstep
        (fun id r hl run origin hcreates => ?_) hsearched
      exact absurd hcreates (hno row run origin (by simp [hstage]))
    | @launched request row date now _ =>
      refine searched_kept (k := .launched request row date) h hstep
        (fun id r hl run origin hcreates => ?_) hsearched
      exact absurd hcreates (hno row run origin (by simp [hstage]))
    | conflicting hconf =>
      rw [no_insert_conflict hagree hsearched.1 hsearched.2] at hconf
      cases hconf
    | _ => trivial
  · rw [other_tx_unchanged hv fun event hev => he ⟨event, hev⟩]
    refine searched_kept h hstep (fun id row hl run origin hcreates hsame => ?_) (hI n)
    obtain ⟨m, row', ⟨event, rfl⟩, hm⟩ := creates_under_lock hcreates
    rw [hsame] at hm
    obtain rfl := campaign_lock_unique h hl hm
    exact he ⟨event, rfl⟩

theorem searches_hold (h : Reachable (system c) s) : ∀ n, Searched s (s.txs n) := by
  refine reachable_invariant_with (M := system c) (I := fun s => ∀ n, Searched s (s.txs n))
    (J := Reachable (system c)) (fun _ => id) ?_
    (fun s e hr hI he => searched_step hr hI (ofStep_enabled he)) h
  rintro _ rfl n
  trivial

/-- A campaign that is no longer DRAFT. -/
def Left (v : Option Campaign) : Prop := ∃ row, v = some row ∧ row.status ≠ .draft

theorem statement_keeps_left {f : Option Campaign → Option (Option Campaign)}
    {v w : Option Campaign} (hs : CampaignStatement c s e id f) (hw : f v = some w)
    (hv : Left v) : Left w := by
  obtain ⟨row, rfl, hrow⟩ := hv
  cases hs with
  | create => cases (insertRow_some hw).1
  | update =>
    obtain ⟨old, new, hold, hnew, rfl⟩ := onRow_some hw
    cases hold
    exact absurd (updateDraft_some hnew).2.1 hrow
  | changeStatus =>
    obtain ⟨old, new, hold, hnew, rfl⟩ := onRow_some hw
    obtain ⟨_, status, hstatus, rfl⟩ := statusChange_some hnew
    exact ⟨_, rfl, hstatus⟩
  | select =>
    obtain ⟨old, new, hold, hnew, rfl⟩ := onRow_some hw
    rw [selecting_some hnew]
    exact ⟨old, rfl, by rwa [Option.some.inj hold] at hrow⟩
  | replace =>
    obtain ⟨old, new, hold, hnew, rfl⟩ := onRow_some hw
    obtain ⟨targets, rfl⟩ := replaced_some hnew
    exact ⟨_, rfl, by rwa [Option.some.inj hold] at hrow⟩
  | apply =>
    obtain ⟨old, new, hold, hnew, rfl⟩ := onRow_some hw
    rw [applied_some hnew]
    exact ⟨_, rfl, by rwa [Option.some.inj hold] at hrow⟩
  | launch =>
    obtain ⟨old, new, hold, hnew, rfl⟩ := onRow_some hw
    obtain ⟨_, _, rfl⟩ := launch_some hnew
    exact ⟨_, rfl, by simp⟩
  | tombstone =>
    obtain ⟨old, new, hold, hnew, rfl⟩ := onRow_some hw
    obtain ⟨_, rfl⟩ := tombstone_some hnew
    exact ⟨_, rfl, by rwa [Option.some.inj hold] at hrow⟩

/-- Each LIVE run has taken its campaign out of DRAFT, and is the only one of it. -/
structure LaunchedOnce (s : State) : Prop where
  left : ∀ p ∈ s.origins, p.2.input.executionMode = .live →
    (s.campaigns p.2.input.campaignId).Each Left
  once : ∀ p ∈ s.origins, ∀ q ∈ s.origins, p.2.input.executionMode = .live →
    q.2.input.executionMode = .live → p.2.input.campaignId = q.2.input.campaignId → p = q

theorem launched_once_step (h : Reachable (system c) s) (hI : LaunchedOnce s)
    (hstep : step c s e = some u) : LaunchedOnce u := by
  obtain ⟨v, exec, hv, _, ⟨hready, _⟩, rfl⟩ := step_some hstep
  have hleft : ∀ p ∈ s.origins, p.2.input.executionMode = .live →
      ((campaignEffect c s e).apply s.campaigns p.2.input.campaignId).Each Left :=
    fun p hp hlive => Effect.each_apply (hI.left p hp hlive) hready fun f v w hs hw =>
      statement_keeps_left (campaign_statement hs) hw
  obtain hsame | ⟨run, origin, ⟨n, request, row, date, now, rfl, hk, rfl⟩, hnew⟩ := origins_step hv
  · constructor
    · intro p hp
      change p ∈ v.origins at hp
      rw [hsame] at hp
      exact hleft p hp
    · change ∀ p ∈ v.origins, ∀ q ∈ v.origins, _
      rw [hsame]
      exact hI.once
  · have hchecked := checks_hold h n
    rw [hk] at hchecked
    obtain ⟨hrow, held, hheld, hkeep⟩ := campaigns_locked h n request.campaignId row (by rw [hk]; rfl)
    rw [hk] at hkeep
    -- the new run is the first LIVE one, since its campaign is still DRAFT
    have hfirst : ∀ p ∈ s.origins, p.2.input.executionMode = .live →
        p.2.input.campaignId ≠ request.campaignId := by
      intro p hp hlive hcampaign
      obtain ⟨row', hrow', hdraft⟩ := (hI.left p hp hlive).1
      rw [hcampaign, hrow] at hrow'
      cases hrow'
      exact hdraft hchecked.2.1
    constructor
    · intro p hp hlive
      change p ∈ v.origins at hp
      rw [hnew] at hp
      rcases List.mem_cons.mp hp with rfl | hold
      · change ((campaignEffect c s (.tx n (.commitRun run now))).apply s.campaigns
          request.campaignId).Each Left
        have heffect : campaignEffect c s (.tx n (.commitRun run now)) = .commit n := by
          simp [campaignEffect, hk, txCampaignEffect]
        have hmode : request.executionMode = .live := hlive
        have hstatus : held.status = .active := by
          simp only [Keeps, hmode, if_true] at hkeep
          rw [hkeep]
        rw [heffect, Effect.apply, Table.commit_apply, Row.commit_of_held hheld]
        exact Row.each_settled ⟨held, rfl, by simp [hstatus]⟩
      · exact hleft p hold hlive
    · change ∀ p ∈ v.origins, ∀ q ∈ v.origins, _
      rw [hnew]
      intro p hp q hq hplive hqlive hsame
      rcases List.mem_cons.mp hp with rfl | hp
      · rcases List.mem_cons.mp hq with rfl | hq
        · rfl
        · exact absurd hsame.symm (hfirst q hq hqlive)
      · rcases List.mem_cons.mp hq with rfl | hq
        · exact absurd hsame (hfirst p hp hplive)
        · exact hI.once p hp q hq hplive hqlive hsame

theorem launched_once (h : Reachable (system c) s) : LaunchedOnce s := by
  refine reachable_invariant_with (M := system c) (I := LaunchedOnce) (J := Reachable (system c))
    (fun _ => id) ?_ (fun s e hr hI he => launched_once_step hr hI (ofStep_enabled he)) h
  rintro _ rfl
  exact ⟨fun _ hp => (nomatch hp), fun _ hp => (nomatch hp)⟩

/-- The run under a key that is retained is the only one. -/
theorem retained_key_unique (h : Reachable (system c) s) {run' : RunId} {r' : CampaignRun}
    (hr : (s.exec.runs run).committed = .present r)
    (hr' : (s.exec.runs run').committed = .present r') (hcampaign : r.campaignId = r'.campaignId)
    (hkey : r.idempotencyKey = r'.idempotencyKey) : run = run' := by
  revert run run' r r'
  refine reachable_invariant_with (M := system c) (J := Reachable (system c))
    (I := fun s => ∀ {run : RunId} {r : CampaignRun} {run' : RunId} {r' : CampaignRun},
      (s.exec.runs run).committed = .present r → (s.exec.runs run').committed = .present r' →
        r.campaignId = r'.campaignId → r.idempotencyKey = r'.idempotencyKey → run = run')
    (fun _ => id) ?_ (fun s e hreach hI he => ?_) h
  · rintro _ rfl run r run' r' hr
    cases hr
  · have hstep := ofStep_enabled he
    -- the key of a run that is created is new
    have hfresh : ∀ {run origin run' old}, Creates s e run origin →
        (s.exec.runs run').committed = .present old →
        old.campaignId = origin.input.campaignId →
        old.idempotencyKey ≠ origin.input.idempotencyKey := by
      rintro run origin run' old ⟨n, request, row, date, now, rfl, hk, rfl⟩ hold hcampaign
      have hsearched := searches_hold hreach n
      rw [hk] at hsearched
      exact hsearched.1 run' old hold hcampaign
    intro run r run' r' hr hr' hcampaign hkey
    have hcampaignId : ∀ {x y : CreateRunInput}, x = y → x.campaignId = y.campaignId :=
      congrArg CreateRunInput.campaignId
    have hidempotencyKey : ∀ {x y : CreateRunInput}, x = y → x.idempotencyKey = y.idempotencyKey :=
      congrArg CreateRunInput.idempotencyKey
    obtain ⟨old, hold, hi⟩ | ⟨origin, hcreates, hi, _⟩ := present_step hreach hstep hr
    · obtain ⟨old', hold', hi'⟩ | ⟨origin, hcreates, hi', _⟩ := present_step hreach hstep hr'
      · exact hI hold hold' (((hcampaignId hi).symm.trans hcampaign).trans (hcampaignId hi'))
          (((hidempotencyKey hi).symm.trans hkey).trans (hidempotencyKey hi'))
      · exact absurd (((hidempotencyKey hi).symm.trans hkey).trans (hidempotencyKey hi'))
          (hfresh hcreates hold (((hcampaignId hi).symm.trans hcampaign).trans (hcampaignId hi')))
    · obtain ⟨old', hold', hi'⟩ | ⟨origin', hcreates', _, _⟩ := present_step hreach hstep hr'
      · exact absurd (((hidempotencyKey hi').symm.trans hkey.symm).trans (hidempotencyKey hi))
          (hfresh hcreates hold' (((hcampaignId hi').symm.trans hcampaign.symm).trans (hcampaignId hi)))
      · obtain ⟨n, _, _, _, now, rfl, _, _⟩ := hcreates
        obtain ⟨m, _, _, _, now', hm, _, _⟩ := hcreates'
        cases hm
        rfl

theorem retained_by_key (h : Reachable (system c) s)
    (hr : (s.exec.runs run).committed = .present r) (hcampaign : r.campaignId = request.campaignId)
    (hkey : r.idempotencyKey = request.idempotencyKey) : s.runByKey request = some r := by
  have hagree := origins_agree h
  cases hfound : s.runByKey request with
  | none => exact absurd hkey (runByKey_none hagree hfound run r hr hcampaign)
  | some r' =>
    obtain ⟨run', hr', hcampaign', hkey'⟩ := runByKey_some hagree hfound
    have hsame := retained_key_unique h hr hr' (hcampaign.trans hcampaign'.symm)
      (hkey.trans hkey'.symm)
    subst hsame
    rw [hr] at hr'
    cases hr'
    rfl

/-- The ways of a request that is answered with a run. -/
def AnswersWith (request : CreateRunRequest) (r : CampaignRun) : AggregateTx → AggregateTx → Prop
  | .requested _, k => ∃ row, k = .launching request row
  | .launching _ _, k => k = .answered request (replayRun request.executionMode r)
  | .answered _ _, k => k = .idle
  | _, _ => False

/-- The service gives the run of a replay back, or refuses it for its mode. -/
theorem respond_replay (mode : CampaignExecutionMode) (r : CampaignRun) :
    respond (replayRun mode r) =
      if r.executionMode = mode then .ok (r, false)
      else .error ⟨409, "CAMPAIGN_RUN_IDEMPOTENCY_CONFLICT",
        "Idempotency-Key was already used with a different executionMode", none⟩ := by
  by_cases hmode : r.executionMode = mode <;> simp [respond, replayRun, hmode]

/-- A request whose key is the one of a retained run is answered with it. -/
theorem answers_with_retained {event : TxEvent} {k' : AggregateTx} (h : Reachable (system c) s)
    (hr : (s.exec.runs run).committed = .present r) (hcampaign : r.campaignId = request.campaignId)
    (hkey : r.idempotencyKey = request.idempotencyKey)
    (hrow : ∃ row, (s.campaigns request.campaignId).committed = some row ∧ row.deletedAt = none)
    (hn : requestOf (s.txs n) = some request) (hmove : TxMove c s (s.txs n) event k')
    (habort : event ≠ .abort) :
    AnswersWith request r (s.txs n) k' := by
  have hsearched := searches_hold h n
  generalize s.txs n = k at hn hmove hsearched
  cases hmove with
  | launching hlock =>
    cases hn
    exact ⟨_, rfl⟩
  | notFound hdeleted =>
    cases hn
    obtain ⟨row, hrow, hnot⟩ := hrow
    exact absurd hnot (hdeleted row hrow)
  | replayed hfound =>
    cases hn
    rw [retained_by_key h hr hcampaign hkey] at hfound
    cases hfound
    rfl
  | unreplayed hnone =>
    cases hn
    rw [retained_by_key h hr hcampaign hkey] at hnone
    cases hnone
  | live | unlaunched =>
    cases hn
    exact absurd hkey (hsearched run r hr hcampaign)
  | refused | inserting | launched | conflicting | created =>
    cases hn
    exact absurd hkey (hsearched.1 run r hr hcampaign)
  | answered => exact absurd hsearched id
  | finished hno =>
    rw [hno] at hn
    cases hn
  | replied =>
    cases hn
    rfl
  | abort => exact absurd rfl habort
  | _ => cases hn

/-- A run is created by the commit of a transaction that still finds its campaign as it has checked
it: not deleted, at the revisions that the request expects, with no run under its key. -/
theorem creation_is_checked (h : Reachable (system c) s) (hstep : step c s e = some u)
    (hunused : (s.exec.runs run).committed = .unused)
    (hused : (u.exec.runs run).committed ≠ .unused) :
    ∃ n request row date now, e = .tx n (.commitRun run now) ∧
      s.txs n = .launched request row date ∧
      (s.campaigns request.campaignId).committed = some row ∧ row.deletedAt = none ∧
      (∀ expected ∈ request.expectedCampaignRevision, expected = row.revision) ∧
      (∀ expected ∈ request.expectedTargetsRevision, expected = row.targetsRevision) ∧
      NoKey s request := by
  obtain ⟨_, hsame⟩ | ⟨event, hevent, hx⟩ := exec_moves hstep
  · rw [hsame] at hused
    exact absurd hunused hused
  · obtain hstill | ⟨input, now, rfl, _⟩ := unused_step (reachable_runs h) hx hunused
    · exact absurd hstill hused
    · obtain ⟨origin, ⟨n, request, row, date, now', rfl, hk, _⟩, _⟩ := creation_event hstep hevent
      have hchecked := checks_hold h n
      have hsearched := searches_hold h n
      rw [hk] at hchecked hsearched
      obtain ⟨hrow, _⟩ := campaigns_locked h n request.campaignId row (by rw [hk]; rfl)
      obtain ⟨hdeleted, _, hrevisions⟩ := hchecked
      simp only [revisionsDiffer, Bool.or_eq_false_iff] at hrevisions
      refine ⟨n, request, row, date, now', rfl, hk, hrow, hdeleted, ?_, ?_, hsearched.1⟩
      · intro expected hexpected
        rw [hexpected] at hrevisions
        simpa using hrevisions.1
      · intro expected hexpected
        rw [hexpected] at hrevisions
        simpa using hrevisions.2

/-- Of all runs ever created, at most one of a campaign is LIVE. A request under the key of a
retained run of a campaign that is not deleted is answered with that run, or refused for its mode,
and creates nothing; a run is created at the revisions that the request expects. -/
theorem one_launch_per_campaign (h : Reachable (system c) s) :
    (OriginsAgree s ∧ ∀ p ∈ s.origins, ∀ q ∈ s.origins, p.2.input.executionMode = .live →
      q.2.input.executionMode = .live → p.2.input.campaignId = q.2.input.campaignId → p = q) ∧
    (∀ run r request, (s.exec.runs run).committed = .present r →
      r.campaignId = request.campaignId → r.idempotencyKey = request.idempotencyKey →
      (∃ row, (s.campaigns request.campaignId).committed = some row ∧ row.deletedAt = none) →
        (∀ n event k', requestOf (s.txs n) = some request →
          txNext c s (s.txs n) event = some k' → event ≠ .abort →
            AnswersWith request r (s.txs n) k') ∧
        respond (replayRun request.executionMode r) =
          if r.executionMode = request.executionMode then .ok (r, false)
          else .error ⟨409, "CAMPAIGN_RUN_IDEMPOTENCY_CONFLICT",
            "Idempotency-Key was already used with a different executionMode", none⟩) ∧
    ∀ e run, (system c).enabled s e → (s.exec.runs run).committed = .unused →
      (((system c).next s e).exec.runs run).committed ≠ .unused →
        ∃ n request row date now, e = .tx n (.commitRun run now) ∧
          s.txs n = .launched request row date ∧
          (s.campaigns request.campaignId).committed = some row ∧ row.deletedAt = none ∧
          (∀ expected ∈ request.expectedCampaignRevision, expected = row.revision) ∧
          (∀ expected ∈ request.expectedTargetsRevision, expected = row.targetsRevision) ∧
          NoKey s request := by
  refine ⟨⟨origins_agree h, (launched_once h).once⟩, ?_, ?_⟩
  · intro run r request hr hcampaign hkey hrow
    refine ⟨fun n event k' hn hmove habort => ?_, respond_replay request.executionMode r⟩
    exact answers_with_retained h hr hcampaign hkey hrow hn (tx_move hmove) habort
  · intro e run he hunused hused
    exact creation_is_checked h (ofStep_enabled he) hunused hused

/-- A LIVE launch, and the same key again in a second transaction. -/
def launchTrace : List Event :=
  [.createCampaign 1 ⟨"session", "name", "text", .immediate, none, "key", "hash"⟩ 0,
    .tx 0 (.requestRun ⟨1, "run", .live, some 1, some 0⟩), .tx 0 .lockCampaign, .tx 0 .readByKey,
    .tx 0 .readLive, .tx 0 (.checkLaunch 0), .tx 0 (.insertRun 0), .tx 0 (.commitRun 7 0),
    .tx 1 (.requestRun ⟨1, " run ", .live, none, none⟩), .tx 1 .lockCampaign]

def launchedState : State := runTrace (system exampleConfig) initial launchTrace

def launchedRun : CampaignRun := createRun 0 ⟨1, "session", "run", .live, "text", [], 0⟩

def repeatedRequest : CreateRunRequest := ⟨1, "run", .live, none, none⟩

/-- The second request gets the run of the first. -/
theorem launch_is_replayed :
    AnswersWith repeatedRequest launchedRun (launchedState.txs 1)
        (.answered repeatedRequest (replayRun .live launchedRun)) ∧
      respond (replayRun .live launchedRun) = .ok (launchedRun, false) := by
  have hreach : Reachable (system exampleConfig) launchedState :=
    ⟨launchTrace, valid_trace_run rfl (by decide +kernel)⟩
  obtain ⟨_, hreplay, _⟩ := one_launch_per_campaign hreach
  obtain ⟨hanswers, hrespond⟩ := hreplay 7 launchedRun repeatedRequest rfl rfl rfl ⟨_, rfl, rfl⟩
  exact ⟨hanswers 1 .readByKey _ rfl rfl (by simp), hrespond⟩

end CampaignLaunches
