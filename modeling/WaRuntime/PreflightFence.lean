import WaRuntime.CampaignDeliveries

/-! The revision fence of the preflight.
`applyPreflight` and `resume` compare the observed capability revisions with the current ones and
then copy the current ones in a second statement. Both statements read `gateway_groups` without a
lock, and each sees what has been committed before it. -/
namespace PreflightFence

open TransitionRuns RowVersions CampaignRunStatements CampaignExecution
open CampaignRunTransitions CampaignDeliveries
open OutboundMessageExecution (Tx Config)

variable {c : Config} {s u m : State} {e : Event} {n : ℕ} {run : RunId} {key : TargetKey}
  {ev : Evaluation} {fence : Fence}

/-- The evaluation observed the group at this revision and at no other. -/
def Observed (ev : Evaluation) (g : GroupId) (revision : ℕ) : Prop :=
  ∀ rev, (g, rev) ∈ ev.observed ↔ rev = revision

/-- A version of a target row of the evaluated run carries the observed revision. -/
def Carries (ev : Evaluation) (key : TargetKey) (v : Option TargetSnapshot) : Prop :=
  key.1 = ev.run ∧ ∃ snapshot, v = some snapshot ∧ Observed ev key.2 snapshot.capabilityRevision

/-- No group that a transaction is about to copy changes its revision between the comparison and
the copy. -/
def WindowQuiet (s : State) : Event → Prop
  | .writeGroup key group => ∀ n fence ev, s.txs n = .checked fence ev → ev.preflight ≠ .block →
    ∀ target ∈ copiedKeys s n fence ev.run, ∀ r ∈ s.runView n target.1,
      key = (r.sessionId, target.2) → ∀ old ∈ s.groups key,
        group.capabilityRevision = old.capabilityRevision
  | _ => True

section Groups

theorem groups_moved (h : moveParties s e = some m) :
    m.groups = s.groups ∨
      ∃ key group, e = .writeGroup key group ∧
        m.groups = Function.update s.groups key (some group) := by
  cases e <;> simp only [moveParties] at h
  case writeGroup key group =>
    obtain rfl := Option.some.inj h
    exact .inr ⟨key, group, rfl, rfl⟩
  case tx n event =>
    split at h
    · cases h
    · obtain rfl := Option.some.inj h
      exact .inl rfl
  case core event =>
    split at h <;> obtain ⟨_, rfl⟩ := guarded_eq_some.mp h <;> exact .inl rfl
  all_goals
    simp only [guarded_eq_some, Option.some.injEq] at h
    first
    | subst h
    | obtain ⟨_, rfl⟩ := h
    exact .inl rfl

/-- Rows of `gateway_groups` are never deleted. -/
theorem groups_grow (h : moveParties s e = some m) (key : String × GroupId)
    (hk : (s.groups key).isSome) : (m.groups key).isSome := by
  obtain hg | ⟨key', group, _, hg⟩ := groups_moved h
  · rwa [hg]
  · rw [hg]
    by_cases heq : key = key'
    · simp [heq]
    · simpa [heq] using hk

/-- Every target of a run refers to a row of `gateway_groups`. -/
def Grouped (groups : String × GroupId → Option Group) (slot : RunSlot) : Prop :=
  ∀ r, slot = .present r → ∀ g ∈ r.targets, (groups (r.sessionId, g)).isSome

theorem runs_grouped (h : Reachable (system c) s) :
    ∀ run, (s.runs run).Each (Grouped s.groups) := by
  refine reachable_invariant (M := system c)
    (I := fun s => ∀ run, (s.runs run).Each (Grouped s.groups)) ?_ (fun s e hI he => ?_) h
  · rintro _ rfl run
    exact Row.each_settled fun r hr => by cases hr
  · intro run
    obtain ⟨m, core, hm, _, ⟨hready, _, _⟩, hu⟩ := step_some (ofStep_enabled he)
    rw [show (system c).next s e = _ from hu]
    have hold : (s.runs run).Each (Grouped m.groups) :=
      ⟨fun r hr g hg => groups_grow hm _ ((hI run).1 r hr g hg),
        fun t v hv r hr g hg => groups_grow hm _ ((hI run).2 t v hv r hr g hg)⟩
    refine Effect.each_apply hold hready fun f v w hs hf hv => ?_
    obtain ⟨input, now, rfl, rfl, rfl⟩ | ⟨_, _, _, rfl, rfl⟩ | ⟨old, new, rfl, rfl, hinput⟩ :=
      run_statement hs hf
    · rintro _ ⟨⟩ g hg
      simp only [moveParties] at hm
      obtain ⟨⟨_, _, _, hall⟩, rfl⟩ := guarded_eq_some.mp hm
      exact List.all_eq_true.mp hall g hg
    · exact fun r hr => by cases hr
    · rintro _ ⟨⟩ g hg
      have htargets : new.targets = old.targets := congrArg CreateRunInput.targets hinput
      have hsession : new.sessionId = old.sessionId := congrArg CreateRunInput.sessionId hinput
      rw [hsession]
      exact hv old rfl g (htargets ▸ hg)

end Groups

section Stages

/-- The evaluation has observed a revision of every target of its run. -/
def Covers (ev : Evaluation) : RunSlot → Prop
  | .present r => ∀ g ∈ r.targets, ∃ rev, (g, rev) ∈ ev.observed
  | .deleted => True
  | .unused => False

theorem covers_kept {slot slot' : RunSlot} (h : SlotChange StaysEnded slot slot')
    (hc : Covers ev slot) : Covers ev slot' := by
  cases h with
  | kept => exact hc
  | created => exact absurd hc id
  | @changed old new hr =>
    have htargets : new.targets = old.targets := congrArg CreateRunInput.targets hr.1
    simpa only [Covers, htargets] using hc
  | deleted => trivial

/-- The evaluation of a transaction that has not compared the revisions yet. -/
def comparing : CampaignTx → Option Evaluation
  | .evaluated ev | .locked _ ev => some ev
  | _ => none

/-- The evaluation of a transaction that has copied the revisions. -/
def copying : CampaignTx → Option Evaluation
  | .copied _ ev | .inserted _ ev | .applied _ ev => some ev
  | _ => none

theorem comparing_origin {k k' : CampaignTx} {event : TxEvent}
    (h : txNext s n k event = some k') (hk : comparing k' = some ev) :
    comparing k = some ev ∨
      ((s.runs ev.run).committed.run.isSome ∧ ev.observed = s.context ev.run) := by
  unfold txNext at h
  split at h
  case h_1 run preflight =>
    obtain ⟨hp, rfl⟩ := guarded_eq_some.mp h
    cases hk
    exact .inr ⟨hp, rfl⟩
  case h_2 ev' now token =>
    left
    split at h
    · split at h <;> obtain ⟨_, rfl⟩ := guarded_eq_some.mp h
      · exact hk
      · cases hk
    · obtain ⟨_, rfl⟩ := guarded_eq_some.mp h
      cases hk
  case h_3 ev' =>
    left
    split at h
    · cases h
    · obtain rfl | ⟨r, _, _, _, rfl⟩ := lockedOn_some h
      · cases hk
      · exact hk
  case h_4 =>
    obtain rfl := Option.some.inj h
    split at hk <;> cases hk
  case h_10 | h_17 =>
    obtain rfl | ⟨r, _, _, _, rfl⟩ := lockedOn_some h <;> cases hk
  all_goals simp only [guarded_eq_some, Option.some.injEq, reduceCtorEq] at h
  all_goals
    first
    | subst h
    | obtain ⟨_, rfl⟩ := h
    cases hk

theorem checked_origin {k : CampaignTx} {event : TxEvent}
    (h : txNext s n k event = some (.checked fence ev)) :
    k = .locked fence ev ∧ event = .checkRevisions ∧ capabilitySnapshotChanged s n ev = false := by
  unfold txNext at h
  split at h
  case h_2 ev' now token =>
    split at h
    · split at h <;> obtain ⟨_, h⟩ := guarded_eq_some.mp h <;> cases h
    · obtain ⟨_, h⟩ := guarded_eq_some.mp h
      cases h
  case h_3 ev' =>
    split at h
    · cases h
    · obtain h | ⟨r, _, _, _, h⟩ := lockedOn_some h <;> cases h
  case h_4 fence' ev' =>
    split at h
    · cases h
    · rename_i hc
      cases h
      exact ⟨rfl, rfl, Bool.eq_false_of_not_eq_true hc⟩
  case h_10 | h_17 =>
    obtain h | ⟨r, _, _, _, h⟩ := lockedOn_some h <;> cases h
  all_goals simp only [guarded_eq_some, Option.some.injEq, reduceCtorEq, and_false] at h

theorem copying_kept {k k' : CampaignTx} {event : TxEvent} (h : txNext s n k event = some k')
    (hk : copying k = some ev) : copying k' = some ev ∨ event = .commit ∨ event = .abort := by
  unfold txNext at h
  split at h
  all_goals
    first
    | exact .inr (.inl rfl)
    | exact .inr (.inr rfl)
    | cases hk
    | cases h
  all_goals
    obtain ⟨_, rfl⟩ := guarded_eq_some.mp h
    exact .inl rfl

end Stages

/-- The context of an evaluation has a revision for every target, since every target has its
group. -/
theorem context_covers (h : Reachable (system c) s) (hp : (s.runs ev.run).committed.run.isSome)
    (ho : ev.observed = s.context ev.run) : Covers ev (s.runs ev.run).committed := by
  obtain ⟨r, hr⟩ := Option.isSome_iff_exists.mp hp
  cases hc : (s.runs ev.run).committed with
  | unused => simp [hc, RunSlot.run] at hr
  | deleted => simp [hc, RunSlot.run] at hr
  | present r =>
    intro g hg
    obtain ⟨group, hgroup⟩ := Option.isSome_iff_exists.mp ((runs_grouped h ev.run).1 r hc g hg)
    refine ⟨group.capabilityRevision, ?_⟩
    rw [ho]
    simp only [State.context, hc, List.mem_filterMap, Option.map_eq_some_iff]
    exact ⟨g, hg, group, hgroup, rfl⟩

/-- Until a transaction has compared the revisions, its evaluation covers its run. -/
theorem evaluations_cover (h : Reachable (system c) s) :
    ∀ n ev, comparing (s.txs n) = some ev → Covers ev (s.runs ev.run).committed := by
  refine reachable_invariant_with (M := system c)
    (I := fun s => ∀ n ev, comparing (s.txs n) = some ev → Covers ev (s.runs ev.run).committed)
    (J := Reachable (system c)) (fun _ => id) ?_ ?_ h
  · rintro _ rfl n ev hk
    cases hk
  · intro s e hr hI he n ev hk
    have hstep := ofStep_enabled he
    refine covers_kept (run_row_changes hr hstep ev.run) ?_
    obtain ⟨m, core, hm, _, _, hu⟩ := step_some hstep
    rw [show ((system c).next s e).txs = m.txs by rw [show (system c).next s e = _ from hu]] at hk
    by_cases hown : ∃ event, e = .tx n event
    · obtain ⟨event, rfl⟩ := hown
      obtain hk | ⟨hp, ho⟩ := comparing_origin (tx_moves hm) hk
      · exact hI n ev hk
      · exact context_covers hr hp ho
    · rw [other_tx_unchanged hm fun event hev => hown ⟨event, hev⟩] at hk
      exact hI n ev hk

theorem copied_target {run : RunId} (h : key ∈ copiedKeys s n fence run) :
    key ∈ s.targetKeys n run := by
  cases fence with
  | preparation token => exact h
  | resume => exact List.mem_of_mem_filter h

/-- What a transaction is about to copy is what its evaluation has observed. -/
def Compared (s : State) (n : ℕ) (fence : Fence) (ev : Evaluation) : Prop :=
  ∀ key ∈ copiedKeys s n fence ev.run, ∀ group, s.groupOf n key = some group →
    Observed ev key.2 group.capabilityRevision

/-- The comparison reads the same rows as the copy would at that moment. -/
theorem comparison_sound (h : Reachable (system c) s) (hk : s.txs n = .locked fence ev)
    (hc : capabilitySnapshotChanged s n ev = false) : Compared s n fence ev := by
  intro key hkey group hgroup
  obtain ⟨r, hview, hg, hrun⟩ := target_key (copied_target hkey)
  have hsame : ∀ rev, (key.2, rev) ∈ ev.observed → group.capabilityRevision = rev := by
    intro rev hrev
    have hnot := List.any_eq_false.mp hc _ hrev
    rw [show (ev.run, key.2) = key from Prod.ext hrun.symm rfl, hgroup] at hnot
    simpa using hnot
  have hlocked := runs_locked h n ev.run fence.statuses (by rw [hk]; rfl)
  rw [hk] at hlocked
  obtain ⟨r', hcommitted, _, hview'⟩ := locked_run_view hlocked fun r v hv => hv
  rw [hview] at hview'
  obtain rfl := Option.some.inj hview'
  have hcovers := evaluations_cover h n ev (by rw [hk]; rfl)
  rw [hcommitted] at hcovers
  obtain ⟨rev, hrev⟩ := hcovers key.2 hg
  intro rev'
  constructor
  · exact fun hm => (hsame rev' hm).symm
  · rintro rfl
    rwa [hsame rev hrev]

theorem locked_run_kept (hr : Reachable (system c) s) (h : step c s e = some u)
    (he : ∀ event, e ≠ .tx n event) {statuses : List CampaignRunStatus}
    (hlock : (s.txs n).lock = some (run, statuses)) : u.runs run = s.runs run := by
  obtain ⟨_, v, _, _, hheld, _⟩ := runs_locked hr n run statuses hlock
  obtain ⟨m, core, _, _, ⟨hready, _, _⟩, rfl⟩ := step_some h
  refine Effect.locked_row_unchanged hready (fun ho => ?_) hheld
  obtain ⟨_, event, hev, hm⟩ := run_effect_owner ho
  cases hm
  exact he event hev

/-- The other parties take rows out of the copy at most. -/
theorem copied_of_other (hr : Reachable (system c) s) (h : step c s e = some u)
    (he : ∀ event, e ≠ .tx n event) {statuses : List CampaignRunStatus}
    (hlock : (s.txs n).lock = some (run, statuses)) (hkey : key ∈ copiedKeys u n fence run) :
    key ∈ copiedKeys s n fence run := by
  have hrow := locked_run_kept hr h he hlock
  have htargets : u.targetKeys n run = s.targetKeys n run := by
    simp only [State.targetKeys, State.runView, hrow]
  cases fence with
  | preparation token =>
    rw [copiedKeys, htargets] at hkey
    exact hkey
  | resume =>
    simp only [copiedKeys, htargets, List.mem_filter] at hkey ⊢
    obtain ⟨htarget, hpending⟩ := hkey
    obtain ⟨_, _, _, hrun⟩ := target_key htarget
    refine ⟨htarget, ?_⟩
    rw [show key = (run, key.2) from Prod.ext hrun rfl] at hpending ⊢
    obtain ⟨hsame, _⟩ | ⟨_, hsame | ⟨now, jobs, hw⟩⟩ := locked_delivery_step hr h he hlock key.2
    · simpa only [State.delivery, hsame] using hpending
    · rwa [hsame] at hpending
    · obtain ⟨d, d', _, _, _, hd', _, _, _, hstatus⟩ := reconcile_some hw
      rw [hd'] at hpending
      exact absurd (by simpa using hpending) (reconciled_not_pending hstatus)

/-- The join with `gateway_groups` loses no target of a run. -/
theorem group_exists (hr : Reachable (system c) s) {r : CampaignRun}
    (hview : s.runView n key.1 = some r) (hg : key.2 ∈ r.targets) :
    ∃ group, s.groups (r.sessionId, key.2) = some group := by
  have hgrouped := Row.each_view (runs_grouped hr key.1) (t := .campaign n)
  rw [State.runView] at hview
  cases hslot : (s.runs key.1).view (.campaign n) <;> simp only [hslot, RunSlot.run, reduceCtorEq,
    Option.some.injEq] at hview
  subst hview
  exact Option.isSome_iff_exists.mp (hgrouped _ hslot key.2 hg)

/-- While nobody changes the revisions it has compared, a transaction may copy them. -/
theorem compared_of_other (hr : Reachable (system c) s) (h : step c s e = some u)
    (he : ∀ event, e ≠ .tx n event) (hquiet : WindowQuiet s e) (hk : s.txs n = .checked fence ev)
    (hblock : ev.preflight ≠ .block) (hI : Compared s n fence ev) : Compared u n fence ev := by
  have hlock : (s.txs n).lock = some (ev.run, fence.statuses) := by rw [hk]; rfl
  intro key hkey group hgroup
  have hcopied := copied_of_other hr h he hlock hkey
  obtain ⟨r, hview, hg, hrun⟩ := target_key (copied_target hcopied)
  rw [← hrun] at hlock hview
  have hview' : u.runView n key.1 = some r := by
    rw [← hview, State.runView, locked_run_kept hr h he hlock]
    rfl
  have hbefore : ∀ group, s.groups (r.sessionId, key.2) = some group →
      Observed ev key.2 group.capabilityRevision := by
    intro group hg
    refine hI key hcopied group ?_
    rw [State.groupOf, hview]
    exact hg
  have hafter : u.groups (r.sessionId, key.2) = some group := by
    rw [State.groupOf, hview'] at hgroup
    exact hgroup
  obtain ⟨m, core, hm, _, _, rfl⟩ := step_some h
  change m.groups (r.sessionId, key.2) = some group at hafter
  obtain hsame | ⟨written, new, rfl, hnew⟩ := groups_moved hm
  · rw [hsame] at hafter
    exact hbefore group hafter
  · rw [hnew] at hafter
    by_cases hkw : (r.sessionId, key.2) = written
    · rw [hkw, Function.update_self] at hafter
      obtain rfl := Option.some.inj hafter
      obtain ⟨old, hold⟩ := group_exists hr hview hg
      rw [hquiet n fence ev hk hblock key hcopied r hview hkw.symm old (hkw ▸ hold)]
      exact hbefore old hold
    · rw [Function.update_of_ne hkw] at hafter
      exact hbefore group hafter

/-- The step that compares the revisions writes nothing. -/
theorem comparison_quiet (hk : s.txs n = .locked fence ev)
    (h : step c s (.tx n .checkRevisions) = some u) :
    u.runs = s.runs ∧ u.deliveries = s.deliveries ∧ u.groups = s.groups := by
  obtain ⟨m, core, hm, _, _, rfl⟩ := step_some h
  obtain hg | ⟨_, _, hev, _⟩ := groups_moved hm
  · refine ⟨?_, ?_, hg⟩ <;> simp [runEffect, txRunEffect, deliveryEffect, hk, Effect.apply]
  · cases hev

theorem compared_congr (hr : u.runs = s.runs) (hd : u.deliveries = s.deliveries)
    (hg : u.groups = s.groups) (h : Compared s n fence ev) : Compared u n fence ev := by
  cases fence <;>
    simpa only [Compared, copiedKeys, State.targetKeys, State.groupOf, State.runView,
      State.delivery, hr, hd, hg] using h

theorem comparisons_hold (h : Reachable (restrict (system c) WindowQuiet) s) :
    ∀ n fence ev, s.txs n = .checked fence ev → ev.preflight ≠ .block → Compared s n fence ev := by
  refine reachable_invariant_with (M := restrict (system c) WindowQuiet)
    (I := fun s => ∀ n fence ev, s.txs n = .checked fence ev → ev.preflight ≠ .block →
      Compared s n fence ev)
    (J := Reachable (system c)) (fun _ => Reachable.unrestrict) ?_ ?_ h
  · rintro _ rfl n fence ev hk
    cases hk
  · intro s e hr hI he n fence ev hk hblock
    obtain ⟨he, hquiet⟩ := he
    have hstep := ofStep_enabled he
    obtain ⟨m, core, hm, _, _, hu⟩ := step_some hstep
    have htxs : ((system c).next s e).txs = m.txs := by rw [show (system c).next s e = _ from hu]
    change ((system c).next s e).txs n = _ at hk
    change Compared ((system c).next s e) n fence ev
    rw [htxs] at hk
    by_cases hown : ∃ event, e = .tx n event
    · obtain ⟨event, rfl⟩ := hown
      have hnext := tx_moves hm
      rw [hk] at hnext
      obtain ⟨hlocked, rfl, hc⟩ := checked_origin hnext
      have hsound := comparison_sound hr hlocked hc
      obtain ⟨hruns, hdeliveries, hgroups⟩ := comparison_quiet hlocked hstep
      exact compared_congr hruns hdeliveries hgroups hsound
    · have hother : ∀ event, e ≠ .tx n event := fun event hev => hown ⟨event, hev⟩
      rw [other_tx_unchanged hm hother] at hk
      exact compared_of_other hr hstep hother hquiet hk hblock (hI n fence ev hk hblock)

/-- The transactions write target rows in one statement only, the copy. -/
theorem target_statement {f : Option TargetSnapshot → Option (Option TargetSnapshot)} {t : Tx}
    (ho : (targetEffect s e).owner = some t) (hs : (targetEffect s e).statement key = some f) :
    ∃ n fence ev, t = .campaign n ∧ e = .tx n .copyRevisions ∧ s.txs n = .checked fence ev ∧
      key ∈ copiedKeys s n fence ev.run ∧ f = copySnapshot s n key := by
  cases e <;> simp only [targetEffect] at ho hs
  case tx n event =>
    split at hs <;> simp only [Effect.statement, Option.ite_none_right_eq_some, Option.some.injEq,
      reduceCtorEq] at hs
    rename_i fence ev hk
    simp only [hk, Effect.owner, Option.some.injEq] at ho
    exact ⟨n, fence, ev, ho.symm, rfl, hk, hs.1, hs.2.symm⟩
  all_goals cases ho

/-- The target rows that transactions hold carry the revisions of their evaluations. -/
def RowsCarry (s : State) : Prop :=
  ∀ key t v, (s.targets key).held = some (t, v) →
    ∃ n ev, t = .campaign n ∧ copying (s.txs n) = some ev ∧ Carries ev key v

theorem copied_carries (hI : Compared s n fence ev) (hkey : key ∈ copiedKeys s n fence ev.run)
    {v w : Option TargetSnapshot} (h : copySnapshot s n key v = some w) : Carries ev key w := by
  cases v with
  | none => cases h
  | some old =>
    obtain ⟨group, hgroup, rfl⟩ := Option.map_eq_some_iff.mp h
    obtain ⟨_, _, _, hrun⟩ := target_key (copied_target hkey)
    exact ⟨hrun, group.snapshot, rfl, hI key hkey group hgroup⟩

theorem rows_carry (h : Reachable (restrict (system c) WindowQuiet) s) : RowsCarry s := by
  refine reachable_invariant_with (M := restrict (system c) WindowQuiet) (I := RowsCarry)
    (J := Reachable (restrict (system c) WindowQuiet)) (fun _ => id) ?_ ?_ h
  · rintro _ rfl key t v hv
    cases hv
  · intro s e hr hI he key t v hv
    obtain ⟨m, core, hm, _, ⟨_, hready, _⟩, hu⟩ := step_some (ofStep_enabled he.1)
    rw [show (restrict (system c) WindowQuiet).next s e = _ from hu] at hv ⊢
    change ((targetEffect s e).apply s.targets key).held = some (t, v) at hv
    change ∃ n ev, t = .campaign n ∧ copying (m.txs n) = some ev ∧ Carries ev key v
    have hrow := Effect.row_moves hready key
    generalize (targetEffect s e).apply s.targets key = row at hrow hv
    cases hrow with
    | same hend =>
      obtain ⟨n, ev, rfl, hk, hcarries⟩ := hI key t v hv
      refine ⟨n, ev, rfl, ?_, hcarries⟩
      by_cases hown : ∃ event, e = .tx n event
      · obtain ⟨event, rfl⟩ := hown
        obtain hk | rfl | rfl := copying_kept (tx_moves hm) hk
        · exact hk
        · have hcommit : targetEffect s (.tx n .commit) = .commit (.campaign n) := by
            simp only [targetEffect]
          exact absurd hv (hend _ (.inl hcommit) v)
        · have habort : targetEffect s (.tx n .abort) = .abort (.campaign n) := by
            simp only [targetEffect]
          exact absurd hv (hend _ (.inr habort) v)
      · rw [other_tx_unchanged hm fun event hev => hown ⟨event, hev⟩]
        exact hk
    | own => cases hv
    | inside hs ho _ hw =>
      simp only [Row.write_held, Option.some.injEq, Prod.mk.injEq] at hv
      obtain ⟨rfl, rfl⟩ := hv
      obtain ⟨n, fence, ev, rfl, rfl, hk, hkey, rfl⟩ := target_statement ho hs
      have hnext := tx_moves hm
      rw [hk] at hnext
      have hblock : ev.preflight ≠ .block ∧ m.txs n = .copied fence ev := by
        cases fence <;> exact (guarded_eq_some.mp hnext).imp id Eq.symm
      refine ⟨n, ev, rfl, by rw [hblock.2]; rfl, ?_⟩
      exact copied_carries (comparisons_hold hr n fence ev hk hblock.1) hkey hw
    | commit => cases hv
    | abort => cases hv

/-- Every snapshot that the commit of a preflight transaction stores has the observed revision. -/
def CommitsObserved (s u : State) (n : ℕ) (ev : Evaluation) : Prop :=
  ∀ key v, (s.targets key).held = some (.campaign n, v) →
    ∃ snapshot, (u.targets key).committed = some snapshot ∧ key.1 = ev.run ∧
      Observed ev key.2 snapshot.capabilityRevision

/-- In every run in which no compared revision changes before it is copied, `applyPreflight` and
`resume` store the revisions that the evaluated report carried. -/
theorem commit_stores_observed (h : Reachable (restrict (system c) WindowQuiet) s)
    (hk : s.txs n = .applied fence ev)
    (he : (restrict (system c) WindowQuiet).enabled s (.tx n .commit)) :
    CommitsObserved s ((system c).next s (.tx n .commit)) n ev := by
  intro key v hv
  obtain ⟨n', ev', hn, hcopying, hrun, snapshot, rfl, hobserved⟩ := rows_carry h key _ v hv
  cases hn
  rw [hk] at hcopying
  cases hcopying
  refine ⟨snapshot, ?_, hrun, hobserved⟩
  obtain ⟨m, core, _, _, _, hu⟩ := step_some (ofStep_enabled he.1)
  rw [show (system c).next s (.tx n .commit) = _ from hu]
  change ((targetEffect s (.tx n .commit)).apply s.targets key).committed = some snapshot
  simp only [targetEffect, Effect.apply, Table.commit_apply]
  exact Row.commit_committed.trans (Row.view_of_held hv)

def exampleConfig : Config := ⟨true, 1000⟩

def writeRevision (revision : ℕ) : Event :=
  .writeGroup ("session", "group") ⟨.allowed, "ok", revision, some 0⟩

/-- A LIVE run with one group is evaluated at revision 1, and the comparison finds that still. -/
def comparedTrace : List Event :=
  [.createRun 1 ⟨1, "session", "key", .live, "text", ["group"], 0⟩ 0, .claimPreparation 1 0 5,
    .tx 0 (.evaluate 1 .pass), .tx 0 (.lockPreparation 0 5), .tx 0 .checkRevisions]

def appliedTrace : List Event :=
  [.tx 0 .copyRevisions, .tx 0 (.insertDeliveries 0), .tx 0 (.writeRun 0 0)]

def evaluation : Evaluation := ⟨1, [("group", 1)], .pass⟩

def firstState : State := (system exampleConfig).next initial (writeRevision 1)

def appliedState : State :=
  runTrace (system exampleConfig) firstState (comparedTrace ++ appliedTrace)

/-- Without a write in between the transaction stores revision 1. -/
theorem unchanged_revision_is_stored :
    CommitsObserved appliedState ((system exampleConfig).next appliedState (.tx 0 .commit)) 0
      evaluation := by
  have hquiet : WindowQuiet initial (writeRevision 1) := by
    intro n fence ev hk
    cases hk
  have hfirst : Reachable (restrict (system exampleConfig) WindowQuiet) firstState :=
    (reachable_of_initial rfl).restricted_step (e := writeRevision 1) ⟨by decide, hquiet⟩
  have happlied : Reachable (restrict (system exampleConfig) WindowQuiet) appliedState :=
    hfirst.extend (valid_trace_restricted_execution
      (by simp [comparedTrace, appliedTrace, WindowQuiet]) (by decide))
  have hstage : appliedState.txs 0 = .applied (.preparation 5) evaluation := rfl
  exact commit_stores_observed happlied hstage ⟨by decide, trivial⟩

/-- A writer commits revision 2 after the comparison and before the copy. -/
def overtakenState : State :=
  runTrace (system exampleConfig) initial
    (writeRevision 1 :: comparedTrace ++ writeRevision 2 :: appliedTrace)

theorem changed_revision_is_adopted :
    Reachable (system exampleConfig) overtakenState ∧
      overtakenState.txs 0 = .applied (.preparation 5) evaluation ∧
      (system exampleConfig).enabled overtakenState (.tx 0 .commit) ∧
      ¬ CommitsObserved overtakenState
        ((system exampleConfig).next overtakenState (.tx 0 .commit)) 0 evaluation := by
  refine ⟨⟨_, valid_trace_run rfl (by decide)⟩, rfl, by decide, fun h => ?_⟩
  obtain ⟨snapshot, hs, _, hobserved⟩ := h (1, "group") _ rfl
  cases hs
  exact absurd ((hobserved 1).mp (by decide)) (by decide)

end PreflightFence
