import WaRuntime.CampaignCancellation
import WaRuntime.CampaignRunDeliveries

/-! The message jobs of a campaign run and the deliveries that refer to them.
A delivery is linked in the transaction that creates its job, so a job in the scope of a run is the
job of one delivery, and is addressed to its group. The transaction has the delivery locked as
PENDING, and a PENDING delivery has no job yet. -/
namespace CampaignJobLinks

open TransitionRuns RowVersions MessageJobStatements CampaignRunStatements CampaignExecution
open CampaignRunTransitions CampaignDeliveries CampaignCancellation CampaignPreflight
open CampaignRunDeliveries
open MessageJobTransitions (SlotMoves SlotStep)
open OutboundMessageExecution (Tx Config)

variable {c : Config} {s u : State} {e : Event} {n : ℕ} {run : RunId} {key : TargetKey}
  {j : JobId} {g : GroupId}

section Recipients

variable {job new : MessageJob} {v w : JobSlot}

def SameRecipient (v w : JobSlot) : Prop :=
  ∃ old new, v = .present old ∧ w = .present new ∧ new.recipientId = old.recipientId

theorem onPresent_recipient {f : MessageJob → Option MessageJob}
    (hf : ∀ job new, f job = some new → new.recipientId = job.recipientId)
    (h : onPresent f v = some w) : SameRecipient v w := by
  obtain ⟨job, new, rfl, hnew, rfl⟩ := onPresent_some h
  exact ⟨job, new, rfl, rfl, hf job new hnew⟩

theorem worker_statement_recipient {W : ℕ} {k : OutboundMessageExecution.Worker}
    {we : OutboundMessageExecution.WorkerEvent} {f : JobSlot → Option JobSlot}
    (hs : (OutboundMessageExecution.workerEffect W k we).statement j = some f)
    (hf : f v = some w) : SameRecipient v w := by
  cases we <;> simp only [OutboundMessageExecution.workerEffect] at hs
  case write now =>
    split at hs
    · simp only [Effect.statement, Option.ite_none_right_eq_some, Option.some.injEq] at hs
      obtain ⟨_, rfl⟩ := hs
      refine onPresent_recipient (fun job new h => ?_) hf
      unfold updateResult at h
      split at h <;> cases h
      rfl
    · cases hs
  all_goals
    simp only [Effect.statement, Option.ite_none_right_eq_some, Option.some.injEq,
      reduceCtorEq] at hs
  all_goals
    obtain ⟨_, rfl⟩ := hs
    refine onPresent_recipient (fun job new h => ?_) hf
    unfold refreshProcessingLease at h
    split at h <;> cases h
    rfl

/-- A statement keeps the recipient of the job, deletes it, or inserts it. -/
theorem statement_recipient {s : OutboundMessageExecution.State}
    {e : OutboundMessageExecution.Event} {f : JobSlot → Option JobSlot}
    (hs : (OutboundMessageExecution.jobEffect s e).statement j = some f) (hf : f v = some w) :
    SameRecipient v w ∨ (∃ cutoff, e = .deleteJob j cutoff ∧ w = .deleted) ∨
      ∃ t input now, e = .insertJob t j input now ∧ v = .unused ∧
        w = .present (create now input) := by
  cases e <;> simp only [OutboundMessageExecution.jobEffect] at hs
  case insertJob t job input now =>
    simp only [Effect.statement, Option.ite_none_right_eq_some, Option.some.injEq] at hs
    obtain ⟨rfl, rfl⟩ := hs
    unfold insertJob at hf
    split at hf
    · cases hf
      exact .inr (.inr ⟨t, input, now, rfl, rfl, rfl⟩)
    · cases hf
  case deleteJob job cutoff =>
    simp only [Effect.statement, Option.ite_none_right_eq_some, Option.some.injEq] at hs
    obtain ⟨rfl, rfl⟩ := hs
    unfold deleteJob at hf
    split at hf
    · split at hf <;> cases hf
      exact .inr (.inl ⟨cutoff, rfl, rfl⟩)
    · cases hf
  case work W we =>
    split at hs
    · exact .inl (worker_statement_recipient hs hf)
    · cases hs
  all_goals left
  case queueClaimed d now =>
    split at hs
    · simp only [Effect.statement, Option.ite_none_right_eq_some, Option.some.injEq] at hs
      obtain ⟨_, rfl⟩ := hs
      refine onPresent_recipient (fun job new h => ?_) hf
      cases h
      rfl
    · cases hs
  all_goals try split at hs
  all_goals
    simp only [Effect.statement, Option.ite_none_right_eq_some, Option.some.injEq,
      reduceCtorEq, lockDue] at hs
  all_goals obtain ⟨_, rfl⟩ := hs
  all_goals refine onPresent_recipient (fun job new h => ?_) hf
  case lockDue =>
    split at h <;> cases h
    rfl
  all_goals
    simp only [cancelJob, updateStatusByOpenWAMessageId, resetQueued, recoverStaleQueued,
      markExpiredProcessingUnknown, markProcessing] at h
    split at h <;> cases h
    rfl

/-- Where the owner of a job comes from. -/
theorem owner_origin {m : State} (hm : moveParties s e = some m) (j : JobId) :
    m.jobOwner j = s.jobOwner j ∨
      (∃ n run g changed rest now date, e = .tx n (.materializeNext j now date) ∧
        s.txs n = .materializing run ((g, changed) :: rest) ∧ m.jobOwner j = some (run, g) ∧
        s.core.jobs j = Row.settled .unused) ∨
      ∃ t input now, e = .core (.insertJob t j input now) ∧ m.jobOwner j = none := by
  cases e <;> simp only [moveParties] at hm
  case core event =>
    split at hm
    · rename_i t job input now
      obtain ⟨_, rfl⟩ := guarded_eq_some.mp hm
      by_cases hj : j = job
      · subst hj
        exact .inr (.inr ⟨t, input, now, rfl, Function.update_self ..⟩)
      · exact .inl (Function.update_of_ne hj ..)
    · obtain ⟨_, rfl⟩ := guarded_eq_some.mp hm
      exact .inl rfl
  case tx n event =>
    split at hm
    · cases hm
    · rename_i stage hstage
      cases hm
      change ownerAfter s (s.txs n) event j = _ ∨ (∃ _ _ _ _ _ _ _, _ ∧ _ ∧
        ownerAfter s (s.txs n) event j = _ ∧ _) ∨ ∃ _ _ _, _ ∧ _
      generalize hk : s.txs n = k at hstage
      unfold ownerAfter
      split
      · rename_i run g changed rest job now date
        obtain ⟨⟨_, hsettled⟩, _⟩ := guarded_eq_some.mp hstage
        by_cases hj : j = job
        · subst hj
          exact .inr (.inl ⟨n, run, g, changed, rest, now, date, rfl, hk,
            Function.update_self .., hsettled⟩)
        · exact .inl (Function.update_of_ne hj ..)
      · exact .inl rfl
  all_goals
    simp only [guarded_eq_some, Option.some.injEq] at hm
    first
    | subst hm
    | obtain ⟨_, rfl⟩ := hm
    exact .inl rfl

/-- The job of a delivery is addressed to its group. -/
def RecipientsNamed (s : State) : Prop :=
  ∀ j run g, s.jobOwner j = some (run, g) →
    (s.core.jobs j).Each fun slot => ∀ job, slot = .present job → job.recipientId = g

theorem recipients_named_step (hI : RecipientsNamed s) (h : step c s e = some u) :
    RecipientsNamed u := by
  obtain ⟨m, core, hm, hc, _, rfl⟩ := step_some h
  intro j run g howner
  change m.jobOwner j = some (run, g) at howner
  change (core.jobs j).Each fun slot => ∀ job, slot = .present job → job.recipientId = g
  have hbefore : (s.core.jobs j).Each fun slot => ∀ job, slot = .present job →
      job.recipientId = g := by
    rcases owner_origin hm j with hsame | ⟨_, _, _, _, _, _, _, _, _, _, hunused⟩ |
      ⟨_, _, _, _, hnone⟩
    · exact hI j run g (hsame ▸ howner)
    · rw [hunused]
      exact Row.each_settled fun job hjob => nomatch hjob
    · rw [hnone] at howner
      cases howner
  obtain ⟨_, rfl⟩ | ⟨event, hevent, hstep⟩ := core_steps hc
  · exact hbefore
  · have hin := in_core hm hevent
    obtain ⟨_, _, hready, rfl⟩ := OutboundMessageExecution.step_some hstep
    refine Effect.each_apply hbefore hready fun f v w hs hf hv job hjob => ?_
    rcases statement_recipient hs hf with ⟨old, new, rfl, rfl, hsame⟩ | ⟨_, _, rfl⟩ |
      ⟨t, input, now, rfl, _, rfl⟩
    · cases hjob
      rw [hsame]
      exact hv old rfl
    · cases hjob
    · cases hjob
      cases hin with
      | message =>
        obtain ⟨_, rfl⟩ := guarded_eq_some.mp hm
        simp only [Function.update_self, reduceCtorEq] at howner
      | materialize hstage =>
        simp only [moveParties] at hm
        split at hm
        · cases hm
        · cases hm
          simp only [hstage, ownerAfter, Function.update_self, Option.some.injEq,
            Prod.mk.injEq] at howner
          exact howner.2

theorem recipients_named (h : Reachable (system c) s) : RecipientsNamed s := by
  refine reachable_invariant (M := system c) ?_ (fun s e hI he => ?_) h
  · rintro _ rfl j run g howner
    cases howner
  · exact recipients_named_step hI (ofStep_enabled he)

end Recipients

section Pending

theorem materializing_origin {k : CampaignTx} {event : TxEvent} {pending : List (GroupId × Bool)}
    (h : txNext s n k event = some (.materializing run pending)) :
    (∃ p job now date, k = .materializing run (p :: pending) ∧
        event = .materializeNext job now date) ∨
      ∃ slots groups, k = .materializeCounted run slots ∧ event = .selectPending groups ∧
        groups.Nodup ∧ groups.length ≤ slots ∧ (∀ g ∈ groups, selectable s n (run, g) = true) ∧
        pending = groups.map fun g => (g, capabilityChanged s n (run, g)) := by
  unfold txNext at h
  split at h
  case h_2 =>
    split at h
    · split at h <;> simp at h
    · simp at h
  case h_3 =>
    split at h
    · cases h
    · obtain h | ⟨r, _, _, _, h⟩ := lockedOn_some h <;> cases h
  case h_4 =>
    split at h <;> cases h
  case h_10 | h_17 => obtain h | ⟨r, _, _, _, h⟩ := lockedOn_some h <;> cases h
  case h_20 =>
    obtain ⟨⟨hnodup, hlength, _, hall⟩, h⟩ := guarded_eq_some.mp h
    cases h
    exact .inr ⟨_, _, rfl, rfl, hnodup, hlength, List.all_eq_true.mp hall, rfl⟩
  case h_21 =>
    obtain ⟨_, h⟩ := guarded_eq_some.mp h
    cases h
    exact .inl ⟨_, _, _, _, rfl, rfl⟩
  all_goals simp at h

/-- A materializing transaction holds the deliveries that it has yet to go through, and found them
PENDING. -/
def PendingHeld (s : State) : Prop :=
  ∀ n run pending, s.txs n = .materializing run pending →
    (pending.map Prod.fst).Nodup ∧ ∀ p ∈ pending, ∃ d,
      (s.deliveries (run, p.1)).held = some (.campaign n, some d) ∧ d.status = .pending

theorem selected_held {slots : ℕ} {groups : List GroupId}
    (hstage : s.txs n = .materializeCounted run slots)
    (hg : g ∈ groups) (hsel : selectable s n (run, g) = true) :
    ∃ d, ((deliveryEffect s (.tx n (.selectPending groups))).apply s.deliveries (run, g)).held =
      some (.campaign n, some d) ∧ d.status = .pending := by
  simp only [selectable, Bool.and_eq_true, beq_iff_eq] at hsel
  obtain ⟨⟨⟨_, hpending⟩, _⟩, _⟩ := hsel
  obtain ⟨d, hd, hstatus⟩ := Option.map_eq_some_iff.mp hpending
  refine ⟨d, ?_, hstatus⟩
  have hmem : (run, g) ∈ groups.map fun g => (run, g) := List.mem_map.mpr ⟨g, hg, rfl⟩
  have hview : (s.deliveries (run, g)).view (.campaign n) = some d := hd
  simp only [deliveryEffect, hstage, Effect.apply, Table.updateAllIn, if_pos hmem, Row.updateIn,
    hview, lockDelivery, Row.write_held]

theorem pending_held_step (hI : PendingHeld s) (h : step c s e = some u) : PendingHeld u := by
  obtain ⟨m, core, hm, _, ⟨_, _, hready⟩, rfl⟩ := step_some h
  intro n run pending hp
  change m.txs n = .materializing run pending at hp
  by_cases he : ∃ event, e = .tx n event
  · obtain ⟨event, rfl⟩ := he
    have hk := tx_moves hm
    rw [hp] at hk
    rcases materializing_origin hk with ⟨p, job, now, date, hstage, rfl⟩ |
      ⟨slots, groups, hstage, rfl, hnodup, _, hsel, rfl⟩
    · obtain ⟨hnodup, hheld⟩ := hI n run _ hstage
      rw [List.map_cons, List.nodup_cons] at hnodup
      refine ⟨hnodup.2, fun q hq => ?_⟩
      have hne : (run, q.1) ≠ (run, p.1) := by
        intro hsame
        have hfst : q.1 = p.1 := congrArg Prod.snd hsame
        exact hnodup.1 (hfst ▸ List.mem_map.mpr ⟨q, hq, rfl⟩)
      obtain ⟨d, hd, hstatus⟩ := hheld q (List.mem_cons_of_mem _ hq)
      refine ⟨d, ?_, hstatus⟩
      obtain ⟨pg, pc⟩ := p
      simpa [deliveryEffect, hstage, Effect.apply, hne] using hd
    · refine ⟨by simpa [Function.comp_def] using hnodup, fun p hp => ?_⟩
      obtain ⟨g, hg, rfl⟩ := List.mem_map.mp hp
      exact selected_held hstage hg (hsel g hg)
  · rw [other_tx_unchanged hm fun event hev => he ⟨event, hev⟩] at hp
    obtain ⟨hnodup, hheld⟩ := hI n run pending hp
    refine ⟨hnodup, fun p hmem => ?_⟩
    obtain ⟨d, hd, hstatus⟩ := hheld p hmem
    refine ⟨d, ?_, hstatus⟩
    have howner : (deliveryEffect s e).owner ≠ some (.campaign n) := by
      intro ho
      obtain ⟨k, event, hev, hk⟩ := delivery_effect_owner ho
      cases hk
      exact he ⟨event, hev⟩
    change ((deliveryEffect s e).apply s.deliveries (run, p.1)).held = _
    rw [Effect.locked_row_unchanged hready howner hd]
    exact hd

theorem pending_held (h : Reachable (system c) s) : PendingHeld s := by
  refine reachable_invariant (M := system c) ?_ (fun s e hI he => ?_) h
  · rintro _ rfl n run pending hp
    cases hp
  · exact pending_held_step hI (ofStep_enabled he)

end Pending

section Links

variable {d d' : Option CampaignDelivery}
  {f : Option CampaignDelivery → Option (Option CampaignDelivery)}

/-- A statement of its own keeps the link of a delivery, unless it deletes the row. -/
theorem own_statement_keeps_link (ho : (deliveryEffect s e).owner = none)
    (hs : DeliveryStatement s e key f) (hf : f d = some d') :
    KeepsLink d d' ∨ ∃ run cutoff, e = .deleteRun run cutoff ∧ key ∈ cascade s run cutoff := by
  cases hs with
  | cascade hk => exact .inr ⟨_, _, rfl, hk⟩
  | reconcile =>
    obtain ⟨_, _, i, _, rfl, rfl, hi, hi', _⟩ := reconcile_some hf
    left
    intro j hj
    have hij : i = j := Option.some.inj (hi.symm.trans hj)
    exact hij ▸ hi'
  | insertForRun hstage | insertForCancel hstage | cancel hstage | select hstage
  | materialize hstage => simp [deliveryEffect, hstage, Effect.owner] at ho

theorem committed_link_stays (hr : Reachable (system c) s) (h : step c s e = some u)
    (hrun : (u.runs key.1).committed ≠ .deleted) (hj : link (s.deliveries key).committed = some j) :
    link (u.deliveries key).committed = some j := by
  have hdeleted : ∀ run cutoff, e = .deleteRun run cutoff → key ∉ cascade s run cutoff := by
    rintro run cutoff rfl hk
    obtain ⟨rfl, hgone⟩ := cascade_deletes h hk
    exact hrun hgone
  obtain ⟨m, core, _, _, ⟨_, _, hready⟩, rfl⟩ := step_some h
  change link ((deliveryEffect s e).apply s.deliveries key).committed = some j
  have hrow := Effect.row_moves hready key
  generalize (deliveryEffect s e).apply s.deliveries key = row at hrow ⊢
  cases hrow with
  | same => exact hj
  | own hs ho _ hw =>
    rcases own_statement_keeps_link ho (delivery_statement hs) hw with hkeep | ⟨run, cutoff, he, hk⟩
    · exact hkeep j hj
    · exact absurd hk (hdeleted run cutoff he)
  | inside => exact hj
  | commit _ hh => exact links_kept hr key _ _ hh j hj
  | abort => exact hj

/-- A link that a transaction sees stays until the transaction gives up. -/
theorem seen_link_stays (hr : Reachable (system c) s) (h : step c s e = some u)
    (hrun : (u.runs key.1).committed ≠ .deleted) (habort : e ≠ .tx n .abort)
    (hj : link (s.delivery n key) = some j) : link (u.delivery n key) = some j := by
  have hdeleted : ∀ run cutoff, e = .deleteRun run cutoff → key ∉ cascade s run cutoff := by
    rintro run cutoff rfl hk
    obtain ⟨rfl, hgone⟩ := cascade_deletes h hk
    exact hrun hgone
  have hwell := deliveries_well_formed hr key
  obtain ⟨m, core, _, _, ⟨_, _, hready⟩, rfl⟩ := step_some h
  change link (((deliveryEffect s e).apply s.deliveries key).view (.campaign n)) = some j
  change link ((s.deliveries key).view (.campaign n)) = some j at hj
  have hrow := Effect.row_moves hready key
  generalize (deliveryEffect s e).apply s.deliveries key = row at hrow ⊢
  cases hrow with
  | same => exact hj
  | own hs ho hfree hw =>
    rw [Row.view_of_free hfree] at hj
    rcases own_statement_keeps_link ho (delivery_statement hs) hw with hkeep | ⟨run, cutoff, he, hk⟩
    · exact hkeep j hj
    · exact absurd hk (hdeleted run cutoff he)
  | @inside t g w hs ho hfree hw =>
    by_cases ht : t = .campaign n
    · subst ht
      rw [Row.view_write]
      exact statement_keeps_link ho (delivery_statement hs) hw (Row.each_view hwell) j hj
    · have hheld : ((s.deliveries key).write t w).held = some (t, w) := rfl
      rw [Row.view_of_not_held (Row.not_held_of_held hheld ht)]
      rwa [Row.view_of_not_held (Row.not_held_of_free_for hfree ht)] at hj
  | @commit t w _ hh =>
    by_cases ht : t = .campaign n
    · subst ht
      rw [Row.view_of_held hh] at hj
      exact hj
    · rw [Row.view_of_not_held (Row.not_held_of_held hh ht)] at hj
      exact links_kept hr key _ _ hh j hj
  | abort he hh =>
    obtain ⟨m, rfl, rfl⟩ := delivery_abort he
    have hne : Tx.campaign m ≠ .campaign n := by
      intro hsame
      cases hsame
      exact habort rfl
    rwa [Row.view_of_not_held (Row.not_held_of_held hh hne)] at hj

/-- A job in the scope of a run that is there is linked to the delivery it was created for, in the
transaction that creates it and afterwards. -/
structure JobsLinked (s : State) : Prop where
  run : ∀ j run g, s.jobOwner j = some (run, g) → (s.runs run).committed ≠ .unused
  outside : ∀ j t v, (s.core.jobs j).held = some (t, v) → (∀ n, t ≠ .campaign n) →
    (s.core.jobs j).committed = .unused → s.jobOwner j = none
  committed : ∀ j key job r, s.jobOwner j = some key → (s.core.jobs j).committed = .present job →
    (s.runs key.1).committed = .present r → link (s.deliveries key).committed = some j
  held : ∀ n j key v r, (s.core.jobs j).held = some (.campaign n, v) → s.jobOwner j = some key →
    (s.runs key.1).committed = .present r → link (s.delivery n key) = some j

theorem materializing_run (hr : Reachable (system c) s) {pending : List (GroupId × Bool)}
    (hstage : s.txs n = .materializing run pending) :
    ∃ r, (s.runs run).committed = .present r ∧ s.runView n run = some r := by
  have hlock := runs_locked hr n run [.running] (by rw [hstage]; rfl)
  rw [hstage] at hlock
  obtain ⟨r, hc, _, hview⟩ := locked_run_view hlock fun r v hv => hv
  exact ⟨r, hc, hview⟩

theorem owned_run_step (hr : Reachable (system c) s) (hI : JobsLinked s) (h : step c s e = some u)
    (howner : u.jobOwner j = some (run, g)) : (u.runs run).committed ≠ .unused := by
  have hchange := run_row_changes hr h run
  have hbefore : (s.runs run).committed ≠ .unused := by
    obtain ⟨m, core, hm, _, _, rfl⟩ := step_some h
    change m.jobOwner j = some (run, g) at howner
    rcases owner_origin hm j with hsame | ⟨n, run', g', _, _, _, _, _, hstage, hnew, _⟩ |
      ⟨_, _, _, _, hnone⟩
    · exact hI.run j run g (hsame ▸ howner)
    · rw [hnew] at howner
      cases howner
      obtain ⟨r, hc, _⟩ := materializing_run hr hstage
      simp [hc]
    · rw [hnone] at howner
      cases howner
  generalize (s.runs run).committed = before at hchange hbefore
  generalize (u.runs run).committed = after at hchange ⊢
  cases hchange with
  | kept => exact hbefore
  | created => exact absurd rfl hbefore
  | changed => simp
  | deleted => simp

/-- A run that is there after a step was there before, where a job of it exists. -/
theorem owned_run_before (hr : Reachable (system c) s) (h : step c s e = some u)
    (hused : (s.runs run).committed ≠ .unused) {r : CampaignRun}
    (hrun : (u.runs run).committed = .present r) : ∃ r, (s.runs run).committed = .present r := by
  have hchange := run_row_changes hr h run
  generalize (s.runs run).committed = before at hchange hused ⊢
  rw [hrun] at hchange
  cases hchange with
  | kept => exact ⟨r, rfl⟩
  | created => exact absurd rfl hused
  | changed => exact ⟨_, rfl⟩

theorem owned_outside_step (hI : JobsLinked s) (h : step c s e = some u) {t : Tx} {v : JobSlot}
    (hheld : (u.core.jobs j).held = some (t, v)) (ht : ∀ n, t ≠ .campaign n)
    (hunused : (u.core.jobs j).committed = .unused) : u.jobOwner j = none := by
  obtain ⟨m, core, hm, hc, _, rfl⟩ := step_some h
  change (core.jobs j).held = some (t, v) at hheld
  change (core.jobs j).committed = .unused at hunused
  change m.jobOwner j = none
  have hkept : (s.core.jobs j).held ≠ none → s.jobOwner j = none → m.jobOwner j = none := by
    intro hheld hnone
    rcases owner_origin hm j with hsame | ⟨_, _, _, _, _, _, _, _, _, _, hsettled⟩ |
      ⟨_, _, _, _, hnew⟩
    · rw [hsame, hnone]
    · rw [hsettled] at hheld
      exact absurd rfl hheld
    · exact hnew
  have hsame : (s.core.jobs j).held = some (t, v) → (s.core.jobs j).committed = .unused →
      m.jobOwner j = none := by
    intro hh hu
    exact hkept (by simp [hh]) (hI.outside j t v hh ht hu)
  obtain ⟨_, rfl⟩ | ⟨event, hevent, hstep⟩ := core_steps hc
  · exact hsame hheld hunused
  · have hin := in_core hm hevent
    obtain ⟨_, _, hready, rfl⟩ := OutboundMessageExecution.step_some hstep
    change ((OutboundMessageExecution.jobEffect s.core event).apply s.core.jobs j).held = _ at hheld
    change ((OutboundMessageExecution.jobEffect s.core event).apply s.core.jobs j).committed = _
      at hunused
    have hrow := Effect.row_moves hready j
    generalize (OutboundMessageExecution.jobEffect s.core event).apply s.core.jobs j = row
      at hrow hheld hunused
    cases hrow with
    | same => exact hsame hheld hunused
    | own => cases hheld
    | @inside t' f w hs ho hfree hw =>
      simp only [Row.write_held, Option.some.injEq, Prod.mk.injEq] at hheld
      obtain ⟨rfl, rfl⟩ := hheld
      -- the transaction holds a job that it has inserted before, or inserts it now
      have hmine : (s.core.jobs j).view t' ≠ .unused → m.jobOwner j = none := by
        intro hview
        rcases Row.free_for_cases hfree with hnone | ⟨old, hold⟩
        · rw [Row.view_of_free hnone] at hview
          exact absurd hunused hview
        · exact hkept (by simp [hold]) (hI.outside j t' old hold ht hunused)
      rcases statement_recipient hs hw with ⟨old, _, hold, _, _⟩ | ⟨_, rfl, _⟩ |
        ⟨_, _, _, rfl, _, _⟩
      · exact hmine (by rw [hold]; simp)
      · cases ho
      · cases hin with
        | message =>
          obtain ⟨_, rfl⟩ := guarded_eq_some.mp hm
          exact Function.update_self ..
        | materialize =>
          cases ho
          exact absurd rfl (ht _)
    | commit => cases hheld
    | abort => cases hheld

theorem created_job_linked (hr : Reachable (system c) s) {changed : Bool}
    {rest : List (GroupId × Bool)} {r : CampaignRun} {now date : ℕ}
    (h : step c s (.tx n (.materializeNext j now date)) = some u)
    (hstage : s.txs n = .materializing run ((g, changed) :: rest))
    (hview : s.runView n run = some r) (hlive : ¬ (r.executionMode = .live ∧ changed = true)) :
    link (u.delivery n (run, g)) = some j := by
  obtain ⟨d, hd, hstatus⟩ := (pending_held hr n run _ hstage).2 (g, changed) List.mem_cons_self
  have hnot : (isLive s n run && changed) = false := by
    by_contra hne
    rw [Bool.not_eq_false, Bool.and_eq_true, isLive, hview] at hne
    exact hlive ⟨by simpa using hne.1, hne.2⟩
  have hwrite : materializeDelivery (isLive s n run) changed now j (some d) =
      some (some { d with messageJobId := some j, status := .materialized, updatedAt := now }) := by
    simp [materializeDelivery, hnot, linkDelivery, hstatus]
  obtain ⟨m, core, _, _, _, rfl⟩ := step_some h
  change link (((deliveryEffect s (.tx n (.materializeNext j now date))).apply s.deliveries
    (run, g)).view (.campaign n)) = some j
  simp only [deliveryEffect, hstage, Effect.apply, Table.updateIn_same]
  rw [Row.updateIn_of_held hd hwrite, Row.view_write]
  rfl

/-- Inside the transaction that creates a job, its delivery is linked to it. -/
theorem owned_held_step (hr : Reachable (system c) s) (hI : JobsLinked s)
    (h : step c s e = some u) {v : JobSlot} {r : CampaignRun}
    (hheld : (u.core.jobs j).held = some (.campaign n, v)) (howner : u.jobOwner j = some key)
    (hrun : (u.runs key.1).committed = .present r) : link (u.delivery n key) = some j := by
  have hstays : e ≠ .tx n .abort → link (s.delivery n key) = some j →
      link (u.delivery n key) = some j := seen_link_stays hr h (by simp [hrun])
  have hbefore : s.jobOwner j = some key → ∃ r, (s.runs key.1).committed = .present r :=
    fun hsame => owned_run_before hr h (hI.run j key.1 key.2 hsame) hrun
  have hu := h
  obtain ⟨m, core, hm, hc, ⟨_, _, hready⟩, rfl⟩ := step_some h
  change (core.jobs j).held = some (.campaign n, v) at hheld
  change m.jobOwner j = some key at howner
  have hkept : Stands s j → s.jobOwner j = some key := by
    intro hstands
    rw [← owner_kept hm hc hstands]
    exact howner
  have hsame : (s.core.jobs j).held = some (.campaign n, v) → e ≠ .tx n .abort →
      link (State.delivery { m with
        core := core
        runs := (runEffect s e).apply s.runs
        targets := (targetEffect s e).apply s.targets
        deliveries := (deliveryEffect s e).apply s.deliveries } n key) = some j := by
    intro hh habort
    obtain ⟨job, rfl⟩ := MessageJobTransitions.held_rows_present (core_reachable hr) j _ v hh
    have hown := hkept (.inr ⟨n, job, hh⟩)
    obtain ⟨r, hc⟩ := hbefore hown
    exact hstays habort (hI.held n j key _ r hh hown hc)
  obtain ⟨hnone, rfl⟩ | ⟨event, hevent, hstep⟩ := core_steps hc
  · refine hsame hheld ?_
    rintro rfl
    cases hnone
  · have hin := in_core hm hevent
    obtain ⟨_, _, hjobs, rfl⟩ := OutboundMessageExecution.step_some hstep
    change ((OutboundMessageExecution.jobEffect s.core event).apply s.core.jobs j).held = _ at hheld
    have hrow := Effect.row_moves hjobs j
    generalize hnew : (OutboundMessageExecution.jobEffect s.core event).apply s.core.jobs j = row
      at hrow hheld
    cases hrow with
    | same hend =>
      refine hsame hheld ?_
      rintro rfl
      cases hin with
      | abort => exact hend _ (.inr rfl) v hheld
    | own => cases hheld
    | inside hs ho hfree hw =>
      simp only [Row.write_held, Option.some.injEq, Prod.mk.injEq] at hheld
      obtain ⟨rfl, rfl⟩ := hheld
      cases hin with
      | message hout =>
        obtain ⟨ev, hev⟩ := core_actor (.message hout) (OutboundMessageExecution.effect_owner ho)
        cases hev
      | cancelJob hstage hmem =>
        cases ho
        -- the job was there, committed or inserted by the same transaction
        refine hstays (by simp) ?_
        obtain ⟨job, _, hview, _⟩ : SameRecipient _ _ := by
          rcases statement_recipient hs hw with hsame | ⟨_, he, _⟩ | ⟨_, _, _, he, _⟩
          · exact hsame
          · cases he
          · cases he
        have hown := hkept (stands_of_view ⟨job, hview⟩)
        obtain ⟨r, hc⟩ := hbefore hown
        rcases Row.free_for_cases hfree with hnone | ⟨old, hold⟩
        · rw [Row.view_of_free hnone] at hview
          have hlink := hI.committed j key job r hown hview hc
          exact Row.view_follows (fun _ _ h => h) (links_kept hr key) j hlink
        · exact hI.held _ j key old r hold hown hc
      | @materialize _ id g' changed rest _ job now date hstage _ hview hlive =>
        cases ho
        have hjob : j = job := by
          simp only [OutboundMessageExecution.jobEffect, Effect.statement,
            Option.ite_none_right_eq_some] at hs
          exact hs.1
        subst hjob
        have hkey : key = (id, g') := by
          have hnew := hm
          simp only [moveParties] at hnew
          split at hnew
          · cases hnew
          · cases hnew
            simp only [hstage, ownerAfter, Function.update_self, Option.some.injEq] at howner
            exact howner.symm
        subst hkey
        exact created_job_linked hr hu hstage hview hlive
      | commit => cases hs
      | abort => cases hs
    | commit => cases hheld
    | abort => cases hheld

theorem deleted_stays {job : MessageJob} : ¬ SlotMoves .deleted (.present job) := by
  intro h
  have hgone : ∀ w, SlotMoves .deleted w → w = .deleted := by
    intro w hw
    induction hw with
    | refl => rfl
    | tail _ hstep ih =>
      subst ih
      cases hstep
  cases hgone _ h

theorem owned_committed_step (hr : Reachable (system c) s) (hI : JobsLinked s)
    (h : step c s e = some u) {job : MessageJob} {r : CampaignRun}
    (howner : u.jobOwner j = some key) (hjob : (u.core.jobs j).committed = .present job)
    (hrun : (u.runs key.1).committed = .present r) :
    link (u.deliveries key).committed = some j := by
  have hstays : link (s.deliveries key).committed = some j →
      link (u.deliveries key).committed = some j := committed_link_stays hr h (by simp [hrun])
  have hbefore : s.jobOwner j = some key → ∃ r, (s.runs key.1).committed = .present r :=
    fun hsame => owned_run_before hr h (hI.run j key.1 key.2 hsame) hrun
  have hmoved := committed_job_moves hr h j
  obtain ⟨m, core, hm, hc, ⟨_, _, hready⟩, rfl⟩ := step_some h
  change m.jobOwner j = some key at howner
  change (core.jobs j).committed = .present job at hjob
  have hsame : (∃ job, (s.core.jobs j).committed = .present job) →
      link ((deliveryEffect s e).apply s.deliveries key).committed = some j := by
    rintro ⟨job, hjob⟩
    have hown : s.jobOwner j = some key := by
      rw [← owner_kept hm hc (.inl ⟨job, hjob⟩)]
      exact howner
    obtain ⟨r, hc⟩ := hbefore hown
    exact hstays (hI.committed j key job r hown hjob hc)
  obtain ⟨_, rfl⟩ | ⟨event, hevent, hstep⟩ := core_steps hc
  · exact hsame ⟨job, hjob⟩
  · have hin := in_core hm hevent
    obtain ⟨_, _, hjobs, rfl⟩ := OutboundMessageExecution.step_some hstep
    change ((OutboundMessageExecution.jobEffect s.core event).apply s.core.jobs j).committed = _
      at hjob
    have hrow := Effect.row_moves hjobs j
    generalize (OutboundMessageExecution.jobEffect s.core event).apply s.core.jobs j = row
      at hrow hjob
    cases hrow with
    | same => exact hsame ⟨job, hjob⟩
    | own hs ho _ hw =>
      rcases statement_recipient hs hw with ⟨old, _, hold, _, _⟩ | ⟨_, _, rfl⟩ |
        ⟨_, _, _, rfl, _, _⟩
      · exact hsame ⟨old, hold⟩
      · cases hjob
      · cases ho
    | inside => exact hsame ⟨job, hjob⟩
    | @commit t w he hh =>
      cases hold : (s.core.jobs j).committed with
      | present old => exact hsame ⟨old, hold⟩
      | deleted =>
        have hfollow := MessageJobTransitions.rows_follow (core_reachable hr) j t w hh
        rw [hold, show w = .present job from hjob] at hfollow
        exact absurd hfollow deleted_stays
      | unused =>
        have hheld : (s.core.jobs j).held ≠ none := by simp [hh]
        by_cases ht : ∃ n, t = .campaign n
        · obtain ⟨n, rfl⟩ := ht
          obtain rfl | rfl := core_end hin (.inl he)
          · have hown : s.jobOwner j = some key := by
              rw [← owner_kept hm hc (.inr ⟨n, job, by rw [hh, show w = .present job from hjob]⟩)]
              exact howner
            obtain ⟨r, hr⟩ := hbefore hown
            rw [deliveryEffect_commit]
            change link ((s.deliveries key).commit (.campaign n)).committed = some j
            rw [Row.commit_committed]
            exact hI.held n j key w r hh hown hr
          · cases hin
            cases he
        · have hnone := hI.outside j t w hh (fun n htn => ht ⟨n, htn⟩) hold
          rcases owner_origin hm j with hkept | ⟨_, _, _, _, _, _, _, _, _, _, hsettled⟩ |
            ⟨_, _, _, _, hnew⟩
          · rw [hkept, hnone] at howner
            cases howner
          · rw [hsettled] at hheld
            exact absurd rfl hheld
          · rw [hnew] at howner
            cases howner
    | abort => exact hsame ⟨job, hjob⟩

theorem jobs_linked (h : Reachable (system c) s) : JobsLinked s := by
  refine reachable_invariant_with (M := system c) (I := JobsLinked) (J := Reachable (system c))
    (fun _ => id) ?_ (fun s e hr hI he => ?_) h
  · rintro _ rfl
    constructor
    · intro j run g howner
      cases howner
    · intro j t v hheld
      cases hheld
    · intro j key job r howner
      cases howner
    · intro n j key v r hheld
      cases hheld
  · have hstep := ofStep_enabled he
    exact ⟨fun j run g howner => owned_run_step hr hI hstep howner,
      fun j t v hheld ht hunused => owned_outside_step hI hstep hheld ht hunused,
      fun j key job r howner hjob hrun => owned_committed_step hr hI hstep howner hjob hrun,
      fun n j key v r hheld howner hrun => owned_held_step hr hI hstep hheld howner hrun⟩

end Links

end CampaignJobLinks
