import WaRuntime.SendOutcomes
import WaRuntime.CampaignRunWrites
import WaRuntime.CampaignDeliveryAccounting
import WaRuntime.RunOrigins

/-! The outcome of a finished campaign run against its deliveries.
A finalization decides from one snapshot of the mirrored deliveries. What it has found there about
the jobs behind them is kept by every later step: an outcome a job has reached stays, and so does
the upstream id of a message that OpenWA has accepted. A failure webhook for an accepted message is
therefore all that can change the picture afterwards. -/
namespace CampaignOutcomes

open TransitionRuns RowVersions MessageJobStatements CampaignRunStatements CampaignExecution
open CampaignRunTransitions CampaignDeliveries CampaignCancellation CampaignPreflight
open CampaignRunDeliveries CampaignJobLinks CampaignDeliveryAccounting CampaignRunWrites
open MessageJobTransitions (SlotMoves SlotStep)
open SendOutcomes (Formed FormedSlot)
open OutboundMessageExecution (Tx Config)

variable {c : Config} {s u : State} {e : Event} {n : ℕ} {run : RunId} {key : TargetKey}
  {j : JobId}

section Jobs

/-- The job outcomes that no later step undoes. -/
def concluded : List MessageJobStatus := [.dryRunCompleted, .failed, .unknown, .cancelled]

/-- What a job keeps whatever happens to it: that OpenWA has accepted it, and its outcome. -/
structure JobKept (old new : MessageJob) : Prop where
  accepted : old.openwaMessageId ≠ none → new.openwaMessageId ≠ none
  concluded : old.status ∈ concluded → new.status = old.status

/-- The same over a slot, unless retention deletes the row. -/
def SlotKept (v w : JobSlot) : Prop :=
  ∀ old, v = .present old → w = .deleted ∨ ∃ new, w = .present new ∧ JobKept old new

theorem slot_kept_refl (v : JobSlot) : SlotKept v v :=
  fun old h => .inr ⟨old, h, id, fun _ => rfl⟩

theorem slot_kept_trans {v w x : JobSlot} (h : SlotKept v w) (k : SlotKept w x)
    (hd : w = .deleted → x = .deleted) : SlotKept v x := by
  intro old ho
  obtain hw | ⟨mid, hw, hm⟩ := h old ho
  · exact .inl (hd hw)
  · obtain hx | ⟨new, hx, hn⟩ := k mid hw
    · exact .inl hx
    · refine .inr ⟨new, hx, fun ha => hn.accepted (hm.accepted ha), fun hc => ?_⟩
      have hmid := hm.concluded hc
      rw [← hmid] at hc ⊢
      exact hn.concluded hc

theorem deleted_moves {w : JobSlot} (h : SlotMoves .deleted w) : w = .deleted := by
  induction h with
  | refl => rfl
  | tail _ hs ih =>
    subst ih
    cases hs

/-- A step of the message system keeps what the committed rows have reached. -/
theorem message_step_kept {v w : OutboundMessageExecution.State}
    {event : OutboundMessageExecution.Event}
    (hr : Reachable (OutboundMessageExecution.system c) v)
    (h : OutboundMessageExecution.step c v event = some w) (j : JobId) :
    SlotKept (v.jobs j).committed (w.jobs j).committed := by
  intro old ho
  have hmoves := MessageJobTransitions.committed_row_moves hr h j
  rw [ho] at hmoves
  have hadvance := MessageStatusOrder.slot_moves_advance hmoves
  cases hn : (w.jobs j).committed with
  | unused =>
    rw [hn] at hadvance
    exact absurd hadvance id
  | deleted => exact .inl rfl
  | present new =>
    rw [hn] at hadvance
    obtain ⟨hid, hunknown⟩ := SendOutcomes.row_kept hr h ho hn
    refine .inr ⟨new, rfl, hid, fun hc => ?_⟩
    by_cases hu : old.status = .unknown
    · rw [hunknown hu, hu]
    · refine hadvance.absorbing ?_
      simp only [concluded, List.mem_cons, List.not_mem_nil, or_false] at hc
      simp only [MessageStatusOrder.closed, List.mem_cons, List.not_mem_nil, or_false]
      tauto

theorem committed_jobs_kept (hr : Reachable (system c) s) (h : step c s e = some u) (j : JobId) :
    SlotKept (s.core.jobs j).committed (u.core.jobs j).committed := by
  obtain ⟨m, core, _, hc, _, rfl⟩ := step_some h
  obtain ⟨_, rfl⟩ | ⟨event, _, hstep⟩ := core_steps hc
  · exact slot_kept_refl _
  · exact message_step_kept (core_reachable hr) hstep j

theorem committed_jobs_formed (hr : Reachable (system c) s) (j : JobId) :
    FormedSlot (s.core.jobs j).committed := by
  obtain ⟨es, hrun⟩ := core_reachable hr
  exact ((SendOutcomes.outcome_invariant hrun).formed j).1

/-- What a reconciliation has read of a job still holds of it. -/
def SnapshotsKept (s : State) : Prop :=
  ∀ n jobs, s.txs n = .reconciling jobs → ∀ j, FormedSlot (jobs j) ∧
    SlotKept (jobs j) (s.core.jobs j).committed

theorem snapshots_kept_step (hr : Reachable (system c) s) (hI : SnapshotsKept s)
    (h : step c s e = some u) : SnapshotsKept u := by
  intro n jobs hn j
  have hkept := committed_jobs_kept hr h j
  have hmoves := committed_job_moves hr h j
  have hold : FormedSlot (jobs j) ∧ SlotKept (jobs j) (s.core.jobs j).committed →
      FormedSlot (jobs j) ∧ SlotKept (jobs j) (u.core.jobs j).committed := by
    rintro ⟨hf, hk⟩
    refine ⟨hf, slot_kept_trans hk hkept fun hd => ?_⟩
    rw [hd] at hmoves
    exact deleted_moves hmoves
  obtain ⟨m, core, hm, hc, _, rfl⟩ := step_some h
  have hstage : m.txs n = .reconciling jobs := hn
  refine hold ?_
  by_cases hev : ∃ event, e = .tx n event
  · obtain ⟨event, rfl⟩ := hev
    have hk := tx_moves hm
    rw [hstage] at hk
    obtain hold | rfl := reconciling_origin hk
    · exact hI n jobs hold j
    · exact ⟨committed_jobs_formed hr j, slot_kept_refl _⟩
  · rw [other_tx_unchanged hm fun event he => hev ⟨event, he⟩] at hstage
    exact hI n jobs hstage j

theorem snapshots_kept (h : Reachable (system c) s) : SnapshotsKept s := by
  refine reachable_invariant_with (M := system c) (I := SnapshotsKept) (J := Reachable (system c))
    (fun _ => id) ?_ (fun s e hr hI he => snapshots_kept_step hr hI (ofStep_enabled he)) h
  rintro _ rfl n jobs hn
  cases hn

end Jobs

section Mirrors

/-- What the status of a linked delivery says about its job. -/
def Reached (status : CampaignDeliveryStatus) (job : MessageJob) : Prop :=
  match status with
  | .materialized | .processing => True
  | .accepted | .sent | .delivered | .read => job.openwaMessageId ≠ none
  | .dryRunCompleted => job.status = .dryRunCompleted
  | .failed => job.status = .failed
  | .unknown => job.status = .unknown
  | .cancelled => job.status = .cancelled
  | .pending | .blockedCapabilityChanged => False

theorem reached_kept {status : CampaignDeliveryStatus} {old new : MessageJob}
    (h : Reached status old) (hk : JobKept old new) : Reached status new := by
  have hconcluded : ∀ outcome ∈ concluded, old.status = outcome → new.status = outcome := by
    intro outcome hm ho
    rw [hk.concluded (ho ▸ hm), ho]
  cases status with
  | materialized | processing => trivial
  | accepted | sent | delivered | read => exact hk.accepted h
  | dryRunCompleted => exact hconcluded .dryRunCompleted (by simp [concluded]) h
  | failed => exact hconcluded .failed (by simp [concluded]) h
  | unknown => exact hconcluded .unknown (by simp [concluded]) h
  | cancelled => exact hconcluded .cancelled (by simp [concluded]) h
  | pending | blockedCapabilityChanged => exact absurd h id

theorem reconciled_reached {job : MessageJob} {status : CampaignDeliveryStatus}
    (h : reconciledStatus job.status = some status) (hf : Formed job) : Reached status job := by
  cases hs : job.status <;> simp only [hs, reconciledStatus, Option.some.injEq, reduceCtorEq] at h
  all_goals
    subst h
    first
    | trivial
    | exact hs
    | exact hf.accepted (by simp [hs])

/-- What the deliveries say about their jobs: the committed ones, and those a transaction holds. -/
structure Mirrored (s : State) : Prop where
  committed : ∀ key d j job, (s.deliveries key).committed = some d → d.messageJobId = some j →
    (s.core.jobs j).committed = .present job → Reached d.status job
  held : ∀ key n d j, (s.deliveries key).held = some (.campaign n, some d) →
    d.messageJobId = some j →
    d.status = .materialized ∨ (d.status = .cancelled ∧ Cancelled (s.jobView n j))

/-- A transaction that holds a CANCELLED delivery goes on seeing its job CANCELLED. -/
theorem seen_cancelled_kept (hr : Reachable (system c) s) (h : step c s e = some u)
    (hend : e ≠ .tx n .commit ∧ e ≠ .tx n .abort) (hl : link (s.delivery n key) = some j)
    (hj : Cancelled (s.jobView n j)) : Cancelled (u.jobView n j) := by
  have hmoved := seen_job_moves hr h hend.2 j
  obtain ⟨hrefers, hnamed⟩ := named_view hr (links_named hr) hl
  obtain ⟨m, core, hm, hc, _, rfl⟩ := step_some h
  obtain ⟨_, hpresent⟩ := referred_view_kept hr hm hc hrefers hend hnamed
  exact cancelled_moves hmoved hj hpresent

theorem mirrored_write {f : Option CampaignDelivery → Option (Option CampaignDelivery)}
    {d : CampaignDelivery} (hr : Reachable (system c) s) (h : step c s e = some u)
    (hs : (deliveryEffect s e).statement key = some f)
    (ho : (deliveryEffect s e).owner = some (.campaign n))
    (hw : f ((s.deliveries key).view (.campaign n)) = some (some d))
    (hj : d.messageJobId = some j) :
    d.status = .materialized ∨ (d.status = .cancelled ∧ Cancelled (u.jobView n j)) := by
  have hwell : WellFormed ((s.deliveries key).view (.campaign n)) :=
    Row.each_view (deliveries_well_formed hr key)
  generalize hview : (s.deliveries key).view (.campaign n) = seen at hw hwell
  obtain ⟨m, core, hm, hc, _, rfl⟩ := step_some h
  have hmine : ∀ k event, e = .tx k event → k = n := by
    rintro k event rfl
    obtain ⟨_, _, hev, hk⟩ := delivery_effect_owner ho
    cases hev
    cases hk
    rfl
  cases delivery_statement hs with
  | cascade =>
    simp [deliveryEffect, Effect.owner] at ho
  | insertForRun | insertForCancel =>
    obtain ⟨_, hd⟩ := insertDelivery_some hw
    cases hd
    cases hj
  | @cancel k run remaining g now hstage =>
    obtain rfl := hmine _ _ rfl
    obtain ⟨old, _, rfl, hd, hstatus, hlink, hp | ⟨i, job, hi, hjob, hcancelled⟩⟩ :=
      cancelDelivery_some hw
    · cases hd
      rw [hlink, (hwell old rfl).1 hp] at hj
      cases hj
    · cases hd
      rw [hlink, hi] at hj
      cases hj
      obtain rfl : core = s.core := (Option.some.inj hc).symm
      exact .inr ⟨hstatus, job, hjob, hcancelled⟩
  | @select k run slots groups g hstage =>
    obtain rfl := hmine _ _ rfl
    obtain ⟨hd, _⟩ := lockDelivery_some hw
    subst hd
    have hk := tx_moves hm
    rw [hstage] at hk
    obtain ⟨⟨_, _, _, hall⟩, _⟩ := guarded_eq_some.mp hk
    have hmem : g ∈ groups := by
      simp only [deliveryEffect, hstage, Effect.statement, Option.ite_none_right_eq_some,
        List.mem_map, Prod.mk.injEq, true_and] at hs
      obtain ⟨⟨_, hg, rfl⟩, _⟩ := hs
      exact hg
    have hsel := List.all_eq_true.mp hall g hmem
    simp only [selectable, Bool.and_eq_true, beq_iff_eq, State.delivery, hview] at hsel
    have hp : d.status = .pending := by simpa using hsel.1.1.2
    rw [(hwell d rfl).1 hp] at hj
    cases hj
  | @materialize k run g changed rest job now date hstage =>
    obtain rfl := hmine _ _ rfl
    obtain ⟨old, _, rfl, hd, ⟨_, hlink⟩ | ⟨_, _, hstatus, _⟩⟩ := materializeDelivery_some hw
    · cases hd
      obtain ⟨held, hheld, hp⟩ := (pending_held hr k run _ hstage).2 (g, changed) (by simp)
      rw [Row.view_of_held hheld] at hview
      cases hview
      rw [hlink, (hwell old rfl).1 hp] at hj
      cases hj
    · cases hd
      exact .inl hstatus
  | reconcile hstage => simp [deliveryEffect, hstage, Effect.owner] at ho

theorem mirrored_held_step (hr : Reachable (system c) s) (hI : Mirrored s)
    (h : step c s e = some u) {d : CampaignDelivery}
    (hh : (u.deliveries key).held = some (.campaign n, some d)) (hj : d.messageJobId = some j) :
    d.status = .materialized ∨ (d.status = .cancelled ∧ Cancelled (u.jobView n j)) := by
  obtain ⟨m, core, hm, hc, ⟨hready₁, hready₂, hready⟩, hu⟩ := step_some h
  have hrow := Effect.row_moves hready key
  have hdeliveries : u.deliveries key = (deliveryEffect s e).apply s.deliveries key := by rw [hu]
  rw [← hdeliveries] at hrow
  generalize u.deliveries key = row at hrow hh
  cases hrow with
  | same hends =>
    obtain hmat | ⟨hs, hcancelled⟩ := hI.held key n d j hh hj
    · exact .inl hmat
    · have hlink : link (s.delivery n key) = some j := by
        rw [State.delivery, Row.view_of_held hh]
        exact hj
      refine .inr ⟨hs, seen_cancelled_kept hr h ⟨?_, ?_⟩ hlink hcancelled⟩
      · rintro rfl
        exact hends _ (.inl deliveryEffect_commit) _ hh
      · rintro rfl
        exact hends _ (.inr deliveryEffect_abort) _ hh
  | own => cases hh
  | inside hs ho _ hw =>
    simp only [Row.write_held, Option.some.injEq, Prod.mk.injEq] at hh
    obtain ⟨rfl, rfl⟩ := hh
    exact mirrored_write hr h hs ho hw hj
  | commit => cases hh
  | abort => cases hh

theorem mirrored_committed_step (hr : Reachable (system c) s) (hI : Mirrored s)
    (h : step c s e = some u) {d : CampaignDelivery} {job : MessageJob}
    (hd : (u.deliveries key).committed = some d) (hj : d.messageJobId = some j)
    (hjob : (u.core.jobs j).committed = .present job) : Reached d.status job := by
  have hsame : (s.deliveries key).committed = some d → Reached d.status job := by
    intro hold
    obtain ⟨_, before, hbefore⟩ := (links_named hr).committed key j (by rw [hold]; exact hj)
    have hreached := hI.committed key d j before hold hj hbefore
    obtain hgone | ⟨new, hnew, hk⟩ := committed_jobs_kept hr h j before hbefore
    · rw [hjob] at hgone
      cases hgone
    · rw [hjob] at hnew
      cases hnew
      exact reached_kept hreached hk
  obtain ⟨m, core, hm, hc, ⟨_, _, hready⟩, hu⟩ := step_some h
  have hrow := Effect.row_moves hready key
  have hdeliveries : u.deliveries key = (deliveryEffect s e).apply s.deliveries key := by rw [hu]
  rw [← hdeliveries] at hrow
  generalize u.deliveries key = row at hrow hd
  cases hrow with
  | same => exact hsame hd
  | own hs ho _ hw =>
    simp only [Row.settled_committed] at hd
    subst hd
    cases delivery_statement hs with
    | cascade => cases hw
    | @reconcile k jobs _ now hstage =>
      obtain ⟨_, d', i, before, _, hd', _, hi, hbefore, hstatus⟩ := reconcile_some hw
      cases hd'
      rw [hi] at hj
      cases hj
      have hstep := tx_moves hm
      rw [hstage] at hstep
      obtain ⟨_, hnext⟩ := guarded_eq_some.mp hstep
      have hstage' : u.txs k = .reconciling jobs := by
        rw [hu]
        exact hnext.symm
      obtain ⟨hf, hk⟩ := snapshots_kept_step hr (snapshots_kept hr) h k jobs hstage' j
      rw [hbefore] at hf
      obtain hgone | ⟨new, hnew, hk⟩ := hk before hbefore
      · rw [hjob] at hgone
        cases hgone
      · rw [hjob] at hnew
        cases hnew
        exact reached_kept (reconciled_reached hstatus hf) hk
    | insertForRun hstage => simp [deliveryEffect, hstage, Effect.owner] at ho
    | insertForCancel hstage => simp [deliveryEffect, hstage, Effect.owner] at ho
    | cancel hstage => simp [deliveryEffect, hstage, Effect.owner] at ho
    | select hstage => simp [deliveryEffect, hstage, Effect.owner] at ho
    | materialize hstage => simp [deliveryEffect, hstage, Effect.owner] at ho
  | inside => exact hsame hd
  | commit he hh =>
    obtain ⟨n, rfl, rfl⟩ := delivery_commit he
    change _ = some d at hd
    subst hd
    obtain hmat | ⟨hs, before, hbefore, hcancelled⟩ := hI.held key n d j hh hj
    · rw [hmat]
      trivial
    · rw [(commit_step h).2.1 j, hbefore] at hjob
      cases hjob
      rw [hs]
      exact hcancelled
  | abort => exact hsame hd

theorem mirrored (h : Reachable (system c) s) : Mirrored s := by
  refine reachable_invariant_with (M := system c) (I := Mirrored) (J := Reachable (system c))
    (fun _ => id) ?_ (fun s e hr hI he => ?_) h
  · rintro _ rfl
    constructor
    · intro key d j job hd
      cases hd
    · intro key n d j hh
      cases hh
  · have hstep := ofStep_enabled he
    exact ⟨fun key d j job => mirrored_committed_step hr hI hstep,
      fun key n d j => mirrored_held_step hr hI hstep⟩

end Mirrors

section Verdicts

/-- A delivery that no job stands for and none ever will. -/
def Unlinked (v : Option CampaignDelivery) : Prop :=
  ∃ d, v = some d ∧ d.messageJobId = none ∧ d.status ∈ [.blockedCapabilityChanged, .cancelled]

/-- A statement of a transaction leaves such a delivery as it is. -/
theorem statement_keeps_unlinked {f : Option CampaignDelivery → Option (Option CampaignDelivery)}
    {v w : Option CampaignDelivery} {t : Tx} (ho : (deliveryEffect s e).owner = some t)
    (hs : DeliveryStatement s e key f) (hf : f v = some w) (hv : Unlinked v) : Unlinked w := by
  obtain ⟨d, rfl, hlink, hstatus⟩ := hv
  have hpending : d.status ≠ .pending := by
    intro hp
    simp [hp] at hstatus
  cases hs with
  | cascade => simp [deliveryEffect, Effect.owner] at ho
  | insertForRun | insertForCancel =>
    obtain ⟨hnone, _⟩ := insertDelivery_some hf
    cases hnone
  | cancel =>
    obtain ⟨old, _, hold, _, _, _, hp | ⟨i, _, hi, _⟩⟩ := cancelDelivery_some hf
    · cases hold
      exact absurd hp hpending
    · cases hold
      rw [hlink] at hi
      cases hi
  | select =>
    obtain ⟨rfl, _⟩ := lockDelivery_some hf
    exact ⟨d, rfl, hlink, hstatus⟩
  | materialize =>
    obtain ⟨old, new, hold, rfl, ⟨hs, hl⟩ | ⟨_, hp, _⟩⟩ := materializeDelivery_some hf
    · cases hold
      exact ⟨new, rfl, hl.trans hlink, by simp [hs]⟩
    · cases hold
      exact absurd hp hpending
  | reconcile hstage => simp [deliveryEffect, hstage, Effect.owner] at ho

theorem unlinked_kept (h : Reachable (system c) s) :
    ∀ key, (s.deliveries key).Follows fun v w => Unlinked v → Unlinked w := by
  refine reachable_invariant (M := system c)
    (I := fun s => ∀ key, (s.deliveries key).Follows fun v w => Unlinked v → Unlinked w) ?_
    (fun s e hI he key => ?_) h
  · rintro _ rfl key
    exact Row.follows_settled _
  · obtain ⟨m, core, _, _, ⟨_, _, hr⟩, hu⟩ := step_some (ofStep_enabled he)
    rw [show (system c).next s e = _ from hu]
    exact Effect.follows_inside (fun _ => id) (fun _ _ _ hab hbc ha => hbc (hab ha)) hI hr
      fun t f w ho hs hw => statement_keeps_unlinked ho (delivery_statement hs) hw

theorem unlinked_stays (hr : Reachable (system c) s) (h : step c s e = some u)
    (hrun : (u.runs key.1).committed ≠ .deleted) (hd : Unlinked (s.deliveries key).committed) :
    Unlinked (u.deliveries key).committed := by
  have hdeleted : ∀ run cutoff, e = .deleteRun run cutoff → key ∉ cascade s run cutoff := by
    rintro run cutoff rfl hk
    obtain ⟨rfl, hgone⟩ := cascade_deletes h hk
    exact hrun hgone
  obtain ⟨m, core, _, _, ⟨_, _, hready⟩, rfl⟩ := step_some h
  change Unlinked ((deliveryEffect s e).apply s.deliveries key).committed
  have hrow := Effect.row_moves hready key
  generalize (deliveryEffect s e).apply s.deliveries key = row at hrow ⊢
  cases hrow with
  | same => exact hd
  | own hs ho _ hw =>
    cases delivery_statement hs with
    | cascade hk => exact absurd hk (hdeleted _ _ rfl)
    | reconcile =>
      obtain ⟨old, _, i, _, hold, _, hi, _⟩ := reconcile_some hw
      obtain ⟨d, hsome, hlink, _⟩ := hd
      rw [hold] at hsome
      cases hsome
      rw [hlink] at hi
      cases hi
    | insertForRun hstage | insertForCancel hstage | cancel hstage | select hstage
    | materialize hstage => simp [deliveryEffect, hstage, Effect.owner] at ho
  | inside => exact hd
  | commit _ hh => exact unlinked_kept hr key _ _ hh hd
  | abort => exact hd

/-- Where a delivery has come to, by its job or, where that counts, without one. -/
def Verdict (unlinked : Prop) (P : MessageJob → Prop) (s : State) (key : TargetKey) : Prop :=
  (unlinked ∧ Unlinked (s.deliveries key).committed) ∨
    ∃ j job, link (s.deliveries key).committed = some j ∧
      (s.core.jobs j).committed = .present job ∧ P job

theorem verdict_step {unlinked : Prop} {P : MessageJob → Prop}
    (hP : ∀ old new, JobKept old new → P old → P new) (hr : Reachable (system c) s)
    (h : step c s e = some u) (hrun : (u.runs key.1).committed ≠ .deleted)
    (hv : Verdict unlinked P s key) : Verdict unlinked P u key := by
  obtain ⟨hu, hd⟩ | ⟨j, job, hl, hjob, hp⟩ := hv
  · exact .inl ⟨hu, unlinked_stays hr h hrun hd⟩
  · have hlink := committed_link_stays hr h hrun hl
    have hreach : Reachable (system c) u := hr.extend (ofStep_execution h)
    obtain ⟨_, new, hnew⟩ := (links_named hreach).committed key j hlink
    refine .inr ⟨j, new, hlink, hnew, ?_⟩
    obtain hgone | ⟨new', hnew', hk⟩ := committed_jobs_kept hr h j job hjob
    · rw [hnew] at hgone
      cases hgone
    · rw [hnew] at hnew'
      cases hnew'
      exact hP job new hk hp

/-- Nothing is left to send: the job has an outcome or OpenWA has accepted its message. -/
def Over (job : MessageJob) : Prop := job.openwaMessageId ≠ none ∨ job.status ∈ concluded

/-- OpenWA has accepted the message, or the dry run is complete. -/
def Succeeded (job : MessageJob) : Prop :=
  job.openwaMessageId ≠ none ∨ job.status = .dryRunCompleted

def Lost (job : MessageJob) : Prop := job.status ∈ [.failed, .unknown, .cancelled]

theorem over_kept (old new : MessageJob) (h : JobKept old new) (ho : Over old) : Over new := by
  obtain hid | hc := ho
  · exact .inl (h.accepted hid)
  · refine .inr ?_
    rw [h.concluded hc]
    exact hc

theorem succeeded_kept (old new : MessageJob) (h : JobKept old new) (ho : Succeeded old) :
    Succeeded new := by
  obtain hid | hd := ho
  · exact .inl (h.accepted hid)
  · refine .inr ?_
    rw [h.concluded (by simp [concluded, hd]), hd]

theorem lost_kept (old new : MessageJob) (h : JobKept old new) (ho : Lost old) : Lost new := by
  have hc : old.status ∈ concluded := by
    simp only [Lost, List.mem_cons, List.not_mem_nil, or_false] at ho
    simp only [concluded, List.mem_cons, List.not_mem_nil, or_false]
    tauto
  unfold Lost
  rw [h.concluded hc]
  exact ho

/-- The deliveries of the targets are as the outcome says. -/
structure Outcome (s : State) (run : RunId) (targets : List GroupId) (hasFailure : Bool) :
    Prop where
  ended : ∀ g ∈ targets, Verdict True Over s (run, g)
  completed : hasFailure = false → ∀ g ∈ targets, Verdict False Succeeded s (run, g)
  failed : hasFailure = true → ∃ g ∈ targets, Verdict True Lost s (run, g)

theorem outcome_step {targets : List GroupId} {hasFailure : Bool} (hr : Reachable (system c) s)
    (h : step c s e = some u) (hrun : (u.runs run).committed ≠ .deleted)
    (ho : Outcome s run targets hasFailure) : Outcome u run targets hasFailure := by
  constructor
  · exact fun g hg => verdict_step over_kept hr h hrun (ho.ended g hg)
  · exact fun hf g hg => verdict_step succeeded_kept hr h hrun (ho.completed hf g hg)
  · intro hf
    obtain ⟨g, hg, hv⟩ := ho.failed hf
    exact ⟨g, hg, verdict_step lost_kept hr h hrun hv⟩

/-- What a delivery that is not open says of its job, or of having none. -/
theorem verdict_of_delivery {unlinked : Prop} {P : MessageJob → Prop} {d : CampaignDelivery}
    (hr : Reachable (system c) s) (hd : (s.deliveries key).committed = some d)
    (hopen : ¬ d.status.Open)
    (hnone : d.status ∈ [.blockedCapabilityChanged, .cancelled] → d.messageJobId = none → unlinked)
    (hP : ∀ job, Formed job → Reached d.status job → P job) : Verdict unlinked P s key := by
  cases hj : d.messageJobId with
  | none =>
    have hwell := (deliveries_well_formed hr key).1
    rw [hd] at hwell
    have hstatus := (hwell d rfl).2 hj
    have hbad : d.status ∈ [.blockedCapabilityChanged, .cancelled] := by
      simp only [CampaignDeliveryStatus.Open, List.mem_cons, List.not_mem_nil, or_false]
        at hopen hstatus ⊢
      tauto
    exact .inl ⟨hnone hbad hj, d, hd, hj, hbad⟩
  | some j =>
    have hlink : link (s.deliveries key).committed = some j := by
      rw [hd]
      exact hj
    obtain ⟨_, job, hjob⟩ := (links_named hr).committed key j hlink
    have hformed := committed_jobs_formed hr j
    rw [hjob] at hformed
    exact .inr ⟨j, job, hlink, hjob, hP job hformed ((mirrored hr).committed key d j job hd hj hjob)⟩

theorem reached_over {status : CampaignDeliveryStatus} {job : MessageJob}
    (hopen : ¬ status.Open) (h : Reached status job) : Over job := by
  cases status with
  | accepted | sent | delivered | read => exact .inl h
  | dryRunCompleted | failed | unknown | cancelled =>
    have hs : job.status = _ := h
    exact .inr (by simp [concluded, hs])
  | pending | blockedCapabilityChanged => exact absurd h id
  | materialized | processing => simp [CampaignDeliveryStatus.Open] at hopen

theorem reached_succeeded {status : CampaignDeliveryStatus} {job : MessageJob}
    (hopen : ¬ status.Open) (hf : ¬ status.Failure) (h : Reached status job) : Succeeded job := by
  cases status with
  | accepted | sent | delivered | read => exact .inl h
  | dryRunCompleted => exact .inr h
  | failed | unknown | cancelled => simp [CampaignDeliveryStatus.Failure] at hf
  | pending | blockedCapabilityChanged => exact absurd h id
  | materialized | processing => simp [CampaignDeliveryStatus.Open] at hopen

theorem reached_lost {status : CampaignDeliveryStatus} {job : MessageJob}
    (hf : status.Failure) (h : Reached status job) : Lost job := by
  cases status with
  | failed | unknown | cancelled =>
    have hs : job.status = _ := h
    simp [Lost, hs]
  | _ => first | exact absurd h id | simp [CampaignDeliveryStatus.Failure] at hf

/-- The snapshot of a finalization decides on what holds of the jobs then. -/
theorem finalizable_outcome {hasFailure : Bool} {r : CampaignRun} (hr : Reachable (system c) s)
    (hrun : (s.runs run).committed = .present r) (h : finalizable s run = some hasFailure) :
    Outcome s run r.targets hasFailure := by
  have hfilled := (populations hr).filled run (finalizable_populated (by rw [h]; rfl))
  simp only [Filled, hrun] at hfilled
  simp only [finalizable, hrun] at h
  split at h
  case isFalse => cases h
  rename_i hguard
  obtain ⟨_, _, hclosed⟩ := hguard
  -- every target has its delivery, and the CTE has read it
  have hread : ∀ g ∈ r.targets, ∃ d, (s.deliveries (run, g)).committed = some d ∧
      ¬ d.status.Open := by
    intro g hg
    obtain ⟨d, hd⟩ := Option.ne_none_iff_exists'.mp (hfilled g hg)
    exact ⟨d, hd, hclosed d.status (List.mem_filterMap.mpr ⟨g, hg, by rw [hd]; rfl⟩)⟩
  have hfailure : hasFailure = true ↔ ∃ g ∈ r.targets, ∃ d,
      (s.deliveries (run, g)).committed = some d ∧ d.status.Failure := by
    rw [← Option.some.inj h, List.any_eq_true]
    constructor
    · rintro ⟨status, hmem, hf⟩
      obtain ⟨g, hg, hs⟩ := List.mem_filterMap.mp hmem
      obtain ⟨d, hd, rfl⟩ := Option.map_eq_some_iff.mp hs
      exact ⟨g, hg, d, hd, by simpa using hf⟩
    · rintro ⟨g, hg, d, hd, hf⟩
      exact ⟨d.status, List.mem_filterMap.mpr ⟨g, hg, by rw [hd]; rfl⟩, by simpa using hf⟩
  constructor
  · intro g hg
    obtain ⟨d, hd, hopen⟩ := hread g hg
    exact verdict_of_delivery hr hd hopen (fun _ _ => trivial) fun _ _ => reached_over hopen
  · intro hf g hg
    obtain ⟨d, hd, hopen⟩ := hread g hg
    have hnot : ¬ d.status.Failure := by
      intro hfail
      rw [hfailure.mpr ⟨g, hg, d, hd, hfail⟩] at hf
      cases hf
    refine verdict_of_delivery hr hd hopen (fun hbad _ => ?_)
      fun _ _ => reached_succeeded hopen hnot
    refine hnot ?_
    simp only [CampaignDeliveryStatus.Failure, List.mem_cons, List.not_mem_nil, or_false] at hbad ⊢
    tauto
  · intro hf
    obtain ⟨g, hg, d, hd, hfail⟩ := hfailure.mp hf
    obtain ⟨d', hd', hopen⟩ := hread g hg
    rw [hd] at hd'
    cases hd'
    exact ⟨g, hg, verdict_of_delivery hr hd hopen (fun _ _ => trivial) fun _ _ => reached_lost hfail⟩

end Verdicts

section Finalization

/-- The outcome of a run, in the versions of its row. -/
def OutcomeOf (s : State) (run : RunId) (slot : RunSlot) : Prop :=
  ∀ r, slot = .present r → ∀ hasFailure, r.status = finalOutcome hasFailure →
    Outcome s run r.targets hasFailure

/-- What a finalization has found, and what finished runs show, holds of their deliveries. -/
structure OutcomesKept (s : State) : Prop where
  finalizing : ∀ n found, s.txs n = .finalizing found → ∀ p ∈ found, ∀ r,
    (s.runs p.1).committed = .present r → Outcome s p.1 r.targets p.2
  finished : ∀ run, (s.runs run).committed ≠ .deleted → (s.runs run).Each (OutcomeOf s run)

theorem finalizing_step (hr : Reachable (system c) s) (hI : OutcomesKept s)
    (h : step c s e = some u) {found : List (RunId × Bool)} (hf : u.txs n = .finalizing found)
    {p : RunId × Bool} (hp : p ∈ found) {r : CampaignRun}
    (hrun : (u.runs p.1).committed = .present r) : Outcome u p.1 r.targets p.2 := by
  have hchange := run_row_changes hr h p.1
  have hpresent : (u.runs p.1).committed ≠ .deleted := by
    rw [hrun]
    simp
  have hstage : (∃ all, s.txs n = .finalizing all ∧ p ∈ all) ∨ finalizable s p.1 = some p.2 := by
    obtain ⟨m, core, hm, _, _, rfl⟩ := step_some h
    change m.txs n = _ at hf
    by_cases he : ∃ event, e = .tx n event
    · obtain ⟨event, rfl⟩ := he
      have hk := tx_moves hm
      rw [hf] at hk
      obtain ⟨q, hbefore⟩ | hall := finalizing_origin hk
      · exact .inl ⟨_, hbefore, List.mem_cons_of_mem _ hp⟩
      · exact .inr (hall p hp)
    · rw [other_tx_unchanged hm fun event hev => he ⟨event, hev⟩] at hf
      exact .inl ⟨found, hf, hp⟩
  refine outcome_step hr h hpresent ?_
  rw [hrun] at hchange
  generalize hbefore : (s.runs p.1).committed = before at hchange
  have hcurrent : ∀ old, before = .present old → old.targets = r.targets →
      Outcome s p.1 r.targets p.2 := by
    rintro old rfl htargets
    rw [← htargets]
    obtain ⟨all, hall, hmem⟩ | hfound := hstage
    · exact hI.finalizing n all hall p hmem old hbefore
    · exact finalizable_outcome hr hbefore hfound
  cases hchange with
  | kept => exact hcurrent r rfl rfl
  | @changed old _ hs => exact hcurrent old rfl (congrArg CreateRunInput.targets hs.1).symm
  | created hs =>
    obtain ⟨all, hall, hmem⟩ | hfound := hstage
    · have hfilled := (populations hr).finalizing n all hall p hmem
      simp only [Filled, hbefore] at hfilled
    · simp only [finalizable, hbefore, reduceCtorEq] at hfound

/-- Only a finalization gives a run an outcome that it did not have. -/
theorem finished_write {g : CampaignRun → Option CampaignRun} {old new : CampaignRun}
    {hasFailure : Bool} (hw : RunWrite s e run g) (hg : g old = some new)
    (hn : new.status = finalOutcome hasFailure) :
    (old.status = new.status ∧ old.targets = new.targets) ∨
      ∃ n now rest, e = .tx n (.finalizeRow now) ∧
        s.txs n = .finalizing ((run, hasFailure) :: rest) ∧ new.targets = old.targets := by
  have hopen : ∀ status : CampaignRunStatus, status ∉ [.completed, .partialFailed] →
      new.status ≠ status := by
    rintro status hs rfl
    rw [hn] at hs
    cases hasFailure <;> simp [finalOutcome] at hs
  cases hw with
  | claim =>
    unfold claimPreparation at hg
    split at hg <;> cases hg
    exact .inl ⟨rfl, rfl⟩
  | locked =>
    cases hg
    exact .inl ⟨rfl, rfl⟩
  | releaseStale =>
    unfold releaseStaleAttempt at hg
    split at hg <;> cases hg
    exact .inl ⟨rfl, rfl⟩
  | @finalize n now _ failed rest hstage =>
    cases hg
    have hsame : failed = hasFailure := by
      cases failed <;> cases hasFailure <;> simp [finalize, finalOutcome] at hn ⊢
    subst hsame
    exact .inr ⟨n, now, rest, rfl, hstage, rfl⟩
  | recover =>
    unfold recoverExpiredPreparation at hg
    split at hg <;> cases hg
    exact absurd rfl (hopen _ (by split <;> simp))
  | fail =>
    unfold failPreparationAttempt at hg
    split at hg <;> cases hg
    exact absurd rfl (hopen _ (by split <;> simp))
  | activate =>
    unfold activateDue at hg
    split at hg <;> cases hg
    exact absurd rfl (hopen _ (by simp))
  | pause =>
    unfold CampaignRunStatements.pause at hg
    split at hg <;> cases hg
    exact absurd rfl (hopen _ (by simp))
  | recordBlocked =>
    unfold recordBlockedResume at hg
    split at hg <;> cases hg
    exact absurd rfl (hopen _ (by simp))
  | pauseUnsendable =>
    unfold CampaignRunStatements.pauseUnsendable at hg
    split at hg <;> cases hg
    exact absurd rfl (hopen _ (by simp))
  | applyReady | resume =>
    cases hg
    refine absurd rfl (hopen _ ?_)
    simp only [CampaignRunStatements.applyReady, CampaignRunStatements.resume, decide_eq_true_eq]
    split <;> simp
  | applyBlocked | cancel =>
    cases hg
    exact absurd rfl
      (hopen _ (by simp [CampaignRunStatements.applyBlocked, CampaignRunStatements.cancel]))

theorem finished_step (hr : Reachable (system c) s) (hI : OutcomesKept s)
    (h : step c s e = some u) (hrun : (u.runs run).committed ≠ .deleted) :
    (u.runs run).Each (OutcomeOf u run) := by
  have hbefore : (s.runs run).committed ≠ .deleted := by
    intro hd
    have hchange := run_row_changes hr h run
    rw [hd] at hchange
    generalize (u.runs run).committed = after at hchange hrun
    cases hchange
    exact hrun rfl
  have hkept : ∀ slot, OutcomeOf s run slot → OutcomeOf u run slot :=
    fun slot ho r hslot hasFailure hs => outcome_step hr h hrun (ho r hslot hasFailure hs)
  obtain ⟨hc, hh⟩ := hI.finished run hbefore
  have heach : (s.runs run).Each (OutcomeOf u run) :=
    ⟨hkept _ hc, fun t v hv => hkept _ (hh t v hv)⟩
  obtain ⟨m, core, hm, _, ⟨hready, _, _⟩, hu⟩ := step_some h
  have hruns : u.runs run = (runEffect s e).apply s.runs run := by rw [hu]
  rw [hruns]
  refine Effect.each_apply_read heach hready fun f w hs hw => ?_
  intro r hslot hasFailure hstatus
  subst hslot
  obtain ⟨input, now, _, _, hcreated⟩ | ⟨_, _, hdeleted⟩ | ⟨g, old, new, hg, hread, hnew, heq⟩ :=
    run_write hs hw
  · cases hcreated
    cases hasFailure <;> simp [createRun, finalOutcome] at hstatus
  · cases hdeleted
  · cases heq
    have hold : OutcomeOf u run (.present old) := by
      rw [← hread]
      exact Effect.each_read heach
    obtain ⟨hsame, htargets⟩ | ⟨n, now, rest, rfl, hstage, htargets⟩ := finished_write hg hnew hstatus
    · rw [← htargets]
      exact hold old rfl hasFailure (hsame.trans hstatus)
    · rw [htargets]
      refine outcome_step hr h hrun ?_
      have hcommitted : (s.runs run).committed = .present old := by
        simpa [Effect.read, runEffect, txRunEffect, hstage, Effect.owner] using hread
      exact hI.finalizing n _ hstage (run, hasFailure) (by simp) old hcommitted

theorem outcomes_kept (h : Reachable (system c) s) : OutcomesKept s := by
  refine reachable_invariant_with (M := system c) (I := OutcomesKept) (J := Reachable (system c))
    (fun _ => id) ?_ (fun s e hr hI he => ?_) h
  · rintro _ rfl
    constructor
    · intro n found hf
      cases hf
    · intro run _
      refine Row.each_settled ?_
      intro r hslot
      cases hslot
  · have hstep := ofStep_enabled he
    exact ⟨fun n found hf p hp r hrun => finalizing_step hr hI hstep hf hp hrun,
      fun run hrun => finished_step hr hI hstep hrun⟩

end Finalization

section Mirror

/-- The reconciliation finds no delivery of the run to change. -/
def CaughtUp (s : State) (run : RunId) : Prop :=
  ∀ g now, reconcile now (fun j => (s.core.jobs j).committed)
    (s.deliveries (run, g)).committed = none

theorem caught_up_status {g : GroupId} {d : CampaignDelivery} {job : MessageJob}
    {status : CampaignDeliveryStatus} (hc : CaughtUp s run)
    (hd : (s.deliveries (run, g)).committed = some d) (hj : d.messageJobId = some j)
    (hjob : (s.core.jobs j).committed = .present job)
    (hs : reconciledStatus job.status = some status) : d.status = status := by
  have hnone := hc g 0
  by_contra hne
  simp [hd, reconcile, CampaignDelivery.job, hj, hjob, hs, hne] at hnone

/-- A delivery of a caught-up run, by the verdict on it. -/
theorem caught_up_cases {unlinked : Prop} {P : MessageJob → Prop} {g : GroupId}
    {d : CampaignDelivery} (hc : CaughtUp s run) (hd : (s.deliveries (run, g)).committed = some d)
    (hv : Verdict unlinked P s (run, g)) :
    (unlinked ∧ d.status ∈ [.blockedCapabilityChanged, .cancelled]) ∨
      ∃ j job, d.messageJobId = some j ∧ (s.core.jobs j).committed = .present job ∧ P job ∧
        ∀ status, reconciledStatus job.status = some status → d.status = status := by
  obtain ⟨hu, d', hd', _, hstatus⟩ | ⟨j, job, hl, hjob, hp⟩ := hv
  · rw [hd] at hd'
    cases hd'
    exact .inl ⟨hu, hstatus⟩
  · rw [hd] at hl
    have hlink : d.messageJobId = some j := hl
    exact .inr ⟨j, job, hlink, hjob, hp, fun status => caught_up_status hc hd hlink hjob⟩

/-- The statuses of a job that OpenWA has accepted a message of. -/
theorem addressed_status {job : MessageJob} (hf : Formed job) (h : job.openwaMessageId ≠ none) :
    ∃ status, reconciledStatus job.status = some status ∧
      status ∈ [.accepted, .sent, .delivered, .read, .failed] ∧
        (status = .failed → job.status = .failed) := by
  have hs := hf.addressed h
  cases hstatus : job.status <;> simp [hstatus, reconciledStatus] at hs ⊢

theorem over_closed {job : MessageJob} (hf : Formed job) (h : Over job) :
    ∃ status, reconciledStatus job.status = some status ∧ ¬ status.Open := by
  obtain hid | hc := h
  · obtain ⟨status, hs, hmem, _⟩ := addressed_status hf hid
    refine ⟨status, hs, ?_⟩
    intro hopen
    simp only [CampaignDeliveryStatus.Open, List.mem_cons, List.not_mem_nil, or_false]
      at hmem hopen
    obtain rfl | rfl | rfl := hopen <;> simp at hmem
  · cases hstatus : job.status <;>
      simp [hstatus, concluded, reconciledStatus, CampaignDeliveryStatus.Open] at hc ⊢

end Mirror

section Agreement

/-- The outcome of a finished run against its deliveries. A COMPLETED run may show a FAILED
delivery, of a message that OpenWA has accepted. -/
structure Agrees (s : State) (run : RunId) (status : CampaignRunStatus) : Prop where
  closed : status = .completed ∨ status = .partialFailed →
    ∀ g d, (s.deliveries (run, g)).committed = some d → ¬ d.status.Open
  completed : status = .completed → ∀ g d, (s.deliveries (run, g)).committed = some d →
    d.status.Failure → d.status = .failed ∧ ∃ j job, d.messageJobId = some j ∧
      (s.core.jobs j).committed = .present job ∧ job.status = .failed ∧
        job.openwaMessageId ≠ none
  failed : status = .partialFailed →
    ∃ g d, (s.deliveries (run, g)).committed = some d ∧ d.status.Failure

theorem outcome_closed {targets : List GroupId} {hasFailure : Bool} {g : GroupId}
    {d : CampaignDelivery} (hr : Reachable (system c) s) (hc : CaughtUp s run)
    (ho : Outcome s run targets hasFailure) (hg : g ∈ targets)
    (hd : (s.deliveries (run, g)).committed = some d) : ¬ d.status.Open := by
  obtain ⟨_, hstatus⟩ | ⟨j, job, _, hjob, hover, hmirror⟩ := caught_up_cases hc hd (ho.ended g hg)
  · simp only [List.mem_cons, List.not_mem_nil, or_false] at hstatus
    obtain hs | hs := hstatus <;> simp [hs, CampaignDeliveryStatus.Open]
  · have hformed := committed_jobs_formed hr j
    rw [hjob] at hformed
    obtain ⟨status, hs, hopen⟩ := over_closed hformed hover
    rw [hmirror status hs]
    exact hopen

theorem outcome_completed {targets : List GroupId} {g : GroupId} {d : CampaignDelivery}
    (hr : Reachable (system c) s) (hc : CaughtUp s run) (ho : Outcome s run targets false)
    (hg : g ∈ targets) (hd : (s.deliveries (run, g)).committed = some d)
    (hf : d.status.Failure) : d.status = .failed ∧ ∃ j job, d.messageJobId = some j ∧
      (s.core.jobs j).committed = .present job ∧ job.status = .failed ∧
        job.openwaMessageId ≠ none := by
  obtain ⟨h, _⟩ | ⟨j, job, hj, hjob, hsucceeded, hmirror⟩ :=
    caught_up_cases hc hd (ho.completed rfl g hg)
  · exact absurd h id
  · obtain hid | hdry := hsucceeded
    · have hformed := committed_jobs_formed hr j
      rw [hjob] at hformed
      obtain ⟨status, hs, hmem, hfailed⟩ := addressed_status hformed hid
      have hstatus : status = .failed := by
        rw [hmirror status hs] at hf
        simp only [CampaignDeliveryStatus.Failure, List.mem_cons, List.not_mem_nil, or_false]
          at hmem hf
        obtain rfl | rfl | rfl | rfl := hf <;> simp at hmem ⊢
      exact ⟨(hmirror status hs).trans hstatus, j, job, hj, hjob, hfailed hstatus, hid⟩
    · rw [hmirror .dryRunCompleted (by rw [hdry]; rfl)] at hf
      simp [CampaignDeliveryStatus.Failure] at hf

theorem outcome_failed {targets : List GroupId} (hc : CaughtUp s run)
    (ho : Outcome s run targets true) :
    ∃ g d, (s.deliveries (run, g)).committed = some d ∧ d.status.Failure := by
  obtain ⟨g, _, hv⟩ := ho.failed rfl
  have hsome : ∃ d, (s.deliveries (run, g)).committed = some d := by
    obtain ⟨_, d, hd, _⟩ | ⟨j, _, hl, _⟩ := hv
    · exact ⟨d, hd⟩
    · obtain ⟨d, hd, _⟩ := Option.bind_eq_some_iff.mp hl
      exact ⟨d, hd⟩
  obtain ⟨d, hd⟩ := hsome
  refine ⟨g, d, hd, ?_⟩
  obtain ⟨_, hstatus⟩ | ⟨j, job, _, _, hlost, hmirror⟩ := caught_up_cases hc hd hv
  · simp only [List.mem_cons, List.not_mem_nil, or_false] at hstatus
    obtain hs | hs := hstatus <;> simp [hs, CampaignDeliveryStatus.Failure]
  · simp only [Lost, List.mem_cons, List.not_mem_nil, or_false] at hlost
    obtain hs | hs | hs := hlost <;>
      simp [hmirror _ (congrArg reconciledStatus hs), CampaignDeliveryStatus.Failure]

theorem committed_placed {g : GroupId} {d : CampaignDelivery} (h : Reachable (system c) s)
    (hd : (s.deliveries (run, g)).committed = some d) : Placed (s.runs run).committed g :=
  (deliveries_placed h (run, g)).1 (by simp [hd])

theorem finished_run_agrees {r : CampaignRun} (h : Reachable (system c) s)
    (hrun : (s.runs run).committed = .present r) (hc : CaughtUp s run) :
    Agrees s run r.status := by
  have houtcome : ∀ hasFailure, r.status = finalOutcome hasFailure →
      Outcome s run r.targets hasFailure :=
    ((outcomes_kept h).finished run (by simp [hrun])).1 r hrun
  have htarget : ∀ g d, (s.deliveries (run, g)).committed = some d → g ∈ r.targets := by
    intro g d hd
    have hplaced := committed_placed h hd
    rw [hrun] at hplaced
    exact hplaced
  constructor
  · rintro (hs | hs) g d hd
    · exact outcome_closed h hc (houtcome false hs) (htarget g d hd) hd
    · exact outcome_closed h hc (houtcome true hs) (htarget g d hd) hd
  · exact fun hs g d hd => outcome_completed h hc (houtcome false hs) (htarget g d hd) hd
  · exact fun hs => outcome_failed hc (houtcome true hs)

end Agreement

section LateFailures

/-- Whether a reconciliation changes a row does not depend on its time. -/
theorem reconcile_none {a b : ℕ} {jobs : JobId → JobSlot} {v : Option CampaignDelivery}
    (h : reconcile a jobs v = none) : reconcile b jobs v = none := by
  cases v with
  | none => rfl
  | some d =>
    simp only [reconcile] at h ⊢
    split at h
    · split at h
      · split at h <;> simp_all
      · rfl
    · rfl

/-- A run is caught up when no delivery of its targets is left to change. -/
theorem targets_caught_up {r : CampaignRun} (h : Reachable (system c) s)
    (hrun : (s.runs run).committed = .present r)
    (ht : ∀ g ∈ r.targets, reconcile 0 (fun j => (s.core.jobs j).committed)
      (s.deliveries (run, g)).committed = none) : CaughtUp s run := by
  intro g now
  by_cases hg : g ∈ r.targets
  · exact reconcile_none (ht g hg)
  · cases hd : (s.deliveries (run, g)).committed with
    | none => rfl
    | some d =>
      have hplaced := committed_placed h hd
      rw [hrun] at hplaced
      exact absurd hplaced hg

/-- A run that was never created is caught up. -/
theorem unused_caught_up (h : Reachable (restrict (system c) fun _ e =>
    ∀ input now, e ≠ .createRun run input now) s) : CaughtUp s run := by
  have hunused : (s.runs run).committed = .unused := by
    refine reachable_invariant_with (I := fun s => (s.runs run).committed = .unused)
      (J := Reachable (system c)) (fun _ => Reachable.unrestrict) ?_ (fun s e hr hI he => ?_) h
    · rintro _ rfl
      rfl
    · obtain hu | ⟨input, now, hev, _⟩ := RunOrigins.unused_step hr (ofStep_enabled he.1) hI
      · exact hu
      · exact absurd hev (he.2 input now)
  intro g now
  cases hd : (s.deliveries (run, g)).committed with
  | none => rfl
  | some d =>
    have hplaced := committed_placed h.unrestrict hd
    rw [hunused] at hplaced
    exact hplaced.elim

/-- The message of the only delivery is accepted. -/
def acceptedSend : List OutboundMessageExecution.Event :=
  [.lockDue 0 7 0, .queueClaimed 0 0, .commitClaim 0 true, .publish 0 7, .deliver 0 7,
    .markProcessing 0 0 7, .work 0 .branch, .work 0 (.policyAnswered none), .work 0 (.tryAcquire 0),
    .work 0 (.confirmProcessing 0), .work 0 (.renew 0), .work 0 (.verifyProcessing 0),
    .work 0 (.fetch 7), .work 0 (.answered (.answered ⟨201, .ok "", .ok (.ok "id"), none⟩)),
    .work 0 (.write 0), .work 0 .commit]

def reconciliation : List Event :=
  [.tx 0 .snapshotJobs, .tx 0 (.reconcileRow (1, "group") 0), .tx 0 .commit]

/-- The run is COMPLETED, a failure webhook arrives for its message, and the reconciliation
catches up with it. -/
def lateFailure : List Event :=
  [.writeGroup ("session", "group") ⟨.allowed, "ok", 1, some 0⟩,
    .writeSession "session" ⟨"ready", true, false⟩,
    .createRun 1 ⟨1, "session", "key", .live, "text", ["group"], 0⟩ 0,
    .claimPreparation 1 0 5, .tx 0 (.evaluate 1 .pass), .tx 0 (.lockPreparation 0 5),
    .tx 0 .checkRevisions, .tx 0 .copyRevisions, .tx 0 (.insertDeliveries 0),
    .tx 0 (.writeRun 0 0), .tx 0 .commit, .tx 0 (.lockMaterialize 1 10), .tx 0 .countActive,
    .tx 0 (.selectPending ["group"]), .tx 0 (.materializeNext 7 0 0), .tx 0 .commit] ++
    acceptedSend.map .core ++ reconciliation ++
    [.tx 0 (.snapshotFinalizable [1]), .tx 0 (.finalizeRow 0), .tx 0 .commit,
      .core (.webhookStatus 0 7 "id" .failed 0), .core (.commit (.webhook 0))] ++ reconciliation

def failureSystem : System State Event := system CampaignRunTransitions.exampleConfig

instance (s : State) (e : Event) : Decidable (failureSystem.enabled s e) :=
  inferInstanceAs (Decidable ((system CampaignRunTransitions.exampleConfig).enabled s e))

def lateState : State := runTrace failureSystem initial lateFailure

theorem late_failure_valid : ValidTrace failureSystem initial lateFailure := by decide +kernel

theorem late_failure_reached : Reachable failureSystem lateState :=
  ⟨lateFailure, valid_trace_run rfl late_failure_valid⟩

theorem late_run_completed : ∃ r, (lateState.runs 1).committed = .present r ∧
    r.status = .completed ∧ r.targets = ["group"] := by
  have hread : (lateState.runs 1).committed.run.map (fun r => (r.status, r.targets)) =
      some (.completed, ["group"]) := by
    decide +kernel
  cases hrun : (lateState.runs 1).committed with
  | present r => exact ⟨r, rfl, by simpa [hrun, RunSlot.run] using hread⟩
  | unused | deleted => simp [hrun, RunSlot.run] at hread

theorem late_failure_caught_up (run : RunId) : CaughtUp lateState run := by
  by_cases hrun : run = 1
  · subst hrun
    obtain ⟨r, hr, _, htargets⟩ := late_run_completed
    refine targets_caught_up late_failure_reached hr ?_
    rw [htargets]
    decide +kernel
  · refine unused_caught_up (c := CampaignRunTransitions.exampleConfig)
      ⟨lateFailure, initial, rfl, valid_trace_restricted_execution ?_ late_failure_valid⟩
    simp [lateFailure, acceptedSend, reconciliation, Ne.symm hrun]

/-- A COMPLETED run with a FAILED delivery, and nothing left to reconcile. -/
theorem completed_run_with_failed_delivery :
    Reachable failureSystem lateState ∧ (∀ run, CaughtUp lateState run) ∧
      (∃ r, (lateState.runs 1).committed = .present r ∧ r.status = .completed) ∧
      ∃ d, (lateState.deliveries (1, "group")).committed = some d ∧ d.status = .failed :=
  have hrun : ∃ r, (lateState.runs 1).committed = .present r ∧ r.status = .completed := by
    obtain ⟨r, hr, hs, _⟩ := late_run_completed
    exact ⟨r, hr, hs⟩
  ⟨late_failure_reached, late_failure_caught_up, hrun,
    ⟨⟨some 7, .failed, none, 0⟩, by decide +kernel, rfl⟩⟩

theorem completed_run_agrees :
    ∃ r, (lateState.runs 1).committed = .present r ∧ r.status = .completed ∧
      Agrees lateState 1 r.status := by
  obtain ⟨r, hrun, hs, _⟩ := late_run_completed
  exact ⟨r, hrun, hs, finished_run_agrees late_failure_reached hrun (late_failure_caught_up 1)⟩

end LateFailures

end CampaignOutcomes
