import WaRuntime.CampaignJobLinks

/-! The buffer of a campaign run, and the accounts of its deliveries.
A materializing transaction has the run locked from its count to its commit, and a job that exists
never becomes active again, so the count can only have gone down since. The bound is therefore kept
by the jobs that the transaction sees and those it may still create, together. -/
namespace CampaignDeliveryAccounting

open TransitionRuns RowVersions MessageJobStatements CampaignRunStatements CampaignExecution
open CampaignRunTransitions CampaignDeliveries CampaignCancellation CampaignPreflight
open CampaignRunDeliveries CampaignJobLinks
open MessageJobTransitions (SlotMoves SlotStep)
open OutboundMessageExecution (Tx Config)

variable {c : Config} {s u : State} {e : Event} {n : ℕ} {run : RunId} {key : TargetKey}
  {j : JobId} {g : GroupId}

section Targets

/-- Retention deletes run rows outside transactions: one that is held is there. -/
theorem held_runs (h : Reachable (system c) s) :
    ∀ run t v, (s.runs run).held = some (t, v) → ∃ old new,
      (s.runs run).committed = .present old ∧ v = .present new ∧ new.input = old.input := by
  refine reachable_invariant (M := system c)
    (I := fun s => ∀ run t v, (s.runs run).held = some (t, v) → ∃ old new,
      (s.runs run).committed = .present old ∧ v = .present new ∧ new.input = old.input)
    ?_ (fun s e hI he run t v hv => ?_) h
  · rintro _ rfl run t v hv
    cases hv
  · obtain ⟨m, core, _, _, ⟨hready, _, _⟩, hu⟩ := step_some (ofStep_enabled he)
    rw [show (system c).next s e = _ from hu] at hv ⊢
    change ((runEffect s e).apply s.runs run).held = some (t, v) at hv
    change ∃ old new, ((runEffect s e).apply s.runs run).committed = .present old ∧ _
    have hrow := Effect.row_moves hready run
    generalize (runEffect s e).apply s.runs run = row at hrow hv ⊢
    cases hrow with
    | same => exact hI run t v hv
    | own => cases hv
    | @inside t' f w hs ho hfree hw =>
      simp only [Row.write_held, Option.some.injEq, Prod.mk.injEq] at hv
      obtain ⟨rfl, rfl⟩ := hv
      obtain ⟨_, _, rfl, _⟩ | ⟨_, _, rfl, _⟩ | ⟨old, new, hold, rfl, hinput⟩ := run_statement hs hw
      · cases ho
      · cases ho
      · rcases Row.free_for_cases hfree with hnone | ⟨v, hheld⟩
        · rw [Row.view_of_free hnone] at hold
          exact ⟨old, new, hold, rfl, hinput⟩
        · obtain ⟨first, old', hfirst, rfl, hsame⟩ := hI run _ v hheld
          rw [Row.view_of_held hheld] at hold
          cases hold
          exact ⟨first, new, hfirst, rfl, hinput.trans hsame⟩
    | commit => cases hv
    | abort => cases hv

/-- A transaction that has locked its run sees the targets that the run was created with. -/
theorem seen_targets (hr : Reachable (system c) s) {statuses : List CampaignRunStatus}
    (hlock : (s.txs n).lock = some (run, statuses)) : ∃ r, (s.runs run).committed = .present r ∧
      s.targetKeys n run = r.targets.map fun g => (run, g) := by
  obtain ⟨r, v, hr', _, hheld, _⟩ := runs_locked hr n run statuses hlock
  obtain ⟨old, new, hold, rfl, hinput⟩ := held_runs hr run _ v hheld
  obtain rfl : r = old := RunSlot.present.inj (hr'.symm.trans hold)
  have htargets : new.targets = r.targets := congrArg CreateRunInput.targets hinput
  have hview : s.runView n run = some new := by
    rw [State.runView, Row.view_of_held hheld]
    rfl
  exact ⟨r, hr', by simp only [State.targetKeys, hview, htargets]⟩

/-- A run is created with different target groups. -/
def TargetsDistinct (slot : RunSlot) : Prop := ∀ r, slot = .present r → r.targets.Nodup

theorem targets_distinct (h : Reachable (system c) s) :
    ∀ run, (s.runs run).Each TargetsDistinct := by
  refine reachable_invariant (M := system c)
    (I := fun s => ∀ run, (s.runs run).Each TargetsDistinct) ?_ (fun s e hI he => ?_) h
  · rintro _ rfl run
    exact Row.each_settled fun r hr => by cases hr
  · intro run
    obtain ⟨m, core, hm, _, ⟨hready, _, _⟩, hu⟩ := step_some (ofStep_enabled he)
    rw [show (system c).next s e = _ from hu]
    refine Effect.each_apply (hI run) hready fun f v w hs hf hv => ?_
    obtain ⟨input, now, rfl, rfl, rfl⟩ | ⟨_, _, _, rfl, rfl⟩ | ⟨old, new, rfl, rfl, hinput⟩ :=
      run_statement hs hf
    · rintro _ ⟨⟩
      simp only [moveParties] at hm
      obtain ⟨⟨_, _, hnodup, _⟩, rfl⟩ := guarded_eq_some.mp hm
      exact hnodup
    · exact fun r hr => by cases hr
    · rintro _ ⟨⟩
      have htargets : new.targets = old.targets := congrArg CreateRunInput.targets hinput
      rw [htargets]
      exact hv old rfl

end Targets

section Counting

variable {α : Type*} {l : List α} {p q : α → Bool}

/-- One element more can satisfy `q` than `p`, where only `a` can be new. -/
theorem countP_le_succ (hl : l.Nodup) (a : α) (h : ∀ x ∈ l, x ≠ a → q x = true → p x = true) :
    l.countP q ≤ l.countP p + 1 := by
  induction l with
  | nil => simp
  | cons x l ih =>
    rw [List.nodup_cons] at hl
    have hrest : ∀ y ∈ l, y ≠ a → q y = true → p y = true :=
      fun y hy => h y (List.mem_cons_of_mem x hy)
    rw [List.countP_cons, List.countP_cons]
    by_cases hx : x = a
    · have hmono : l.countP q ≤ l.countP p := by
        refine List.countP_mono_left fun y hy hq => hrest y hy ?_ hq
        intro hya
        exact hl.1 (hx ▸ hya ▸ hy)
      have hone : (if q x = true then 1 else 0) ≤ 1 := by split <;> omega
      omega
    · have hstep := ih hl.2 hrest
      by_cases hq : q x = true
      · rw [if_pos hq, if_pos (h x List.mem_cons_self hx hq)]
        omega
      · rw [if_neg hq]
        omega

end Counting

section Jobs

/-- The job of a delivery that is on its way. -/
def activeAt (delivery : Option CampaignDelivery) (jobs : JobId → JobSlot) : Bool :=
  match link delivery with
  | some job => jobActive (jobs job)
  | none => false

theorem activeAt_iff {delivery : Option CampaignDelivery} {jobs : JobId → JobSlot} :
    activeAt delivery jobs = true ↔ ∃ j, link delivery = some j ∧ jobActive (jobs j) = true := by
  unfold activeAt
  cases link delivery <;> simp

theorem overwritten_not_active {old new : MessageJob}
    (h : WebhookOverwrites new.status old.status) : jobActive (.present new) ≠ true := by
  simp only [jobActive]
  generalize new.status = status at h
  generalize old.status = stored at h
  revert h
  cases stored <;> cases status <;> decide

theorem slot_step_active {v w : JobSlot} (h : SlotStep v w) (hv : v ≠ .unused)
    (hw : jobActive w = true) : jobActive v = true := by
  cases h with
  | created => exact absurd rfl hv
  | kept hs => simpa [jobActive, hs] using hw
  | claimed hs => simp [jobActive, hs]
  | returned hs => simp [jobActive, hs]
  | taken hs => simp [jobActive, hs]
  | recorded hs => simp [jobActive, hs]
  | acknowledged ho => exact absurd hw (overwritten_not_active ho)
  | cancelled _ hs => simp [jobActive, hs] at hw
  | deleted => cases hw

theorem slot_step_used {v w : JobSlot} (h : SlotStep v w) : w ≠ .unused := by
  cases h <;> simp

/-- A job that exists does not become active again. -/
theorem moves_active {v w : JobSlot} (h : SlotMoves v w) (hv : v ≠ .unused)
    (hw : jobActive w = true) : jobActive v = true := by
  induction h with
  | refl => exact hw
  | @tail x w hmoves hs ih =>
    have hx : x ≠ .unused := by
      cases hmoves with
      | refl => exact hv
      | tail _ hlast => exact slot_step_used hlast
    exact ih (slot_step_active hs hx hw)

theorem job_steps_in (hr : Reachable (system c) s) {event : OutboundMessageExecution.Event}
    {t : Tx} {f : JobSlot → Option JobSlot} {w : JobSlot}
    (hs : (OutboundMessageExecution.jobEffect s.core event).statement j = some f)
    (ho : (OutboundMessageExecution.jobEffect s.core event).owner = some t)
    (hw : f ((s.core.jobs j).view t) = some w) : SlotStep ((s.core.jobs j).view t) w := by
  have hsteps := MessageJobTransitions.job_effect_steps
    (MessageJobTransitions.claims_locked (core_reachable hr)) event
  generalize OutboundMessageExecution.jobEffect s.core event = effect at hs ho hsteps
  cases effect <;> simp only [Effect.statement, Effect.owner, Option.ite_none_right_eq_some,
    Option.some.injEq, reduceCtorEq] at hs ho
  case updateIn =>
    obtain ⟨rfl, rfl⟩ := hs
    subst ho
    exact hsteps w hw
  case updateAllIn =>
    obtain ⟨hmem, rfl⟩ := hs
    subst ho
    exact hsteps j hmem w hw

/-- The jobs move on in what a transaction sees, until it gives up. -/
theorem seen_job_moves (hr : Reachable (system c) s) (h : step c s e = some u)
    (habort : e ≠ .tx n .abort) (j : JobId) : SlotMoves (s.jobView n j) (u.jobView n j) := by
  by_cases he : ∀ event, e ≠ .tx n event
  · exact job_view_moves hr h he j
  · obtain ⟨event, rfl⟩ : ∃ event, e = .tx n event := by simpa using he
    obtain ⟨m, core, hm, hc, _, rfl⟩ := step_some h
    change SlotMoves ((s.core.jobs j).view (.campaign n)) ((core.jobs j).view (.campaign n))
    obtain ⟨_, rfl⟩ | ⟨inner, hinner, hstep⟩ := core_steps hc
    · exact Relation.ReflTransGen.refl
    · have hin := in_core hm hinner
      obtain ⟨_, _, hready, rfl⟩ := OutboundMessageExecution.step_some hstep
      have hmine : ∀ t, (OutboundMessageExecution.jobEffect s.core inner).owner = some t →
          t = .campaign n := by
        intro t ho
        cases hin <;> cases ho <;> rfl
      change SlotMoves _ (((OutboundMessageExecution.jobEffect s.core inner).apply
        s.core.jobs j).view (.campaign n))
      have hrow := Effect.row_moves hready j
      generalize (OutboundMessageExecution.jobEffect s.core inner).apply s.core.jobs j = row
        at hrow ⊢
      cases hrow with
      | same => exact Relation.ReflTransGen.refl
      | own _ ho => cases hin <;> cases ho
      | inside hs ho _ hw =>
        obtain rfl := hmine _ ho
        rw [Row.view_write]
        exact Relation.ReflTransGen.single (job_steps_in hr hs ho hw)
      | commit he hh =>
        obtain rfl := hmine _ (by rw [he]; rfl)
        rw [Row.view_of_held hh]
        exact Relation.ReflTransGen.refl
      | abort he => cases hin <;> first | exact absurd rfl habort | cases he

end Jobs

section Seen

variable {statuses : List CampaignRunStatus}

/-- A statement of the transaction links a delivery only when it materializes it. -/
theorem own_link_origin {event : TxEvent} (h : step c s (.tx n event) = some u)
    (hwrite : ∀ job now date, event ≠ .materializeNext job now date) (habort : event ≠ .abort)
    (hj : link (u.delivery n key) = some j) : link (s.delivery n key) = some j := by
  obtain ⟨m, core, _, _, ⟨_, _, hready⟩, rfl⟩ := step_some h
  change link (((deliveryEffect s (.tx n event)).apply s.deliveries key).view (.campaign n)) =
    some j at hj
  change link ((s.deliveries key).view (.campaign n)) = some j
  have hmine : ∀ t, (deliveryEffect s (.tx n event)).owner = some t → t = .campaign n := by
    intro t ho
    obtain ⟨k, event', hev, rfl⟩ := delivery_effect_owner ho
    cases hev
    rfl
  have hrow := Effect.row_moves hready key
  generalize (deliveryEffect s (.tx n event)).apply s.deliveries key = row at hrow hj
  have hstatement : ∀ f v w, (deliveryEffect s (.tx n event)).statement key = some f →
      f v = some w → link w = some j → link v = some j := by
    intro f v w hs hw hl
    cases delivery_statement hs with
    | insertForRun | insertForCancel =>
      obtain ⟨rfl, rfl⟩ := insertDelivery_some hw
      cases hl
    | cancel =>
      unfold cancelDelivery at hw
      split at hw
      · cases hw
      · split at hw <;> cases hw
        exact hl
    | select =>
      obtain ⟨rfl, _⟩ := lockDelivery_some hw
      exact hl
    | materialize => exact absurd rfl (hwrite _ _ _)
    | reconcile =>
      obtain ⟨_, _, i, _, rfl, rfl, hi, hi', _⟩ := reconcile_some hw
      exact hi.trans (hi'.symm.trans hl)
  cases hrow with
  | same => exact hj
  | own hs _ hfree hw =>
    rw [Row.view_of_free hfree]
    exact hstatement _ _ _ hs hw hj
  | inside hs ho _ hw =>
    obtain rfl := hmine _ ho
    rw [Row.view_write] at hj
    exact hstatement _ _ _ hs hw hj
  | commit he hh =>
    obtain rfl := hmine _ (by rw [he]; rfl)
    rwa [Row.view_of_held hh]
  | abort he =>
    obtain ⟨_, hev, _⟩ := delivery_abort he
    cases hev
    exact absurd rfl habort

/-- An active job of a delivery in what a transaction sees was one before the step, unless the
step creates it. -/
theorem seen_active_before (hr : Reachable (system c) s) (h : step c s e = some u)
    (habort : e ≠ .tx n .abort)
    (hlink : ∀ j, link (u.delivery n (run, g)) = some j → link (s.delivery n (run, g)) = some j)
    (ha : activeAt (u.delivery n (run, g)) (u.jobView n) = true) :
    activeAt (s.delivery n (run, g)) (s.jobView n) = true := by
  obtain ⟨j, hj, hactive⟩ := activeAt_iff.mp ha
  have hbefore := hlink j hj
  obtain ⟨_, _, job, hjob⟩ := named_view hr (links_named hr) hbefore
  have hused : s.jobView n j ≠ .unused := by
    rw [State.jobView, hjob]
    simp
  exact activeAt_iff.mpr ⟨j, hbefore, moves_active (seen_job_moves hr h habort j) hused hactive⟩

theorem activeCount_eq (s : State) (n : ℕ) (run : RunId) : activeCount s n run =
    (s.targetKeys n run).countP fun key => activeAt (s.delivery n key) (s.jobView n) := rfl

/-- The targets of a run do not change while its lock is held. -/
theorem targets_kept (hr : Reachable (system c) s) (h : step c s e = some u)
    (hlock : (s.txs n).lock = some (run, statuses))
    (hlock' : (u.txs n).lock = some (run, statuses)) :
    u.targetKeys n run = s.targetKeys n run := by
  obtain ⟨old, hold, hkeys⟩ := seen_targets hr hlock
  obtain ⟨new, hnew, hkeys'⟩ := seen_targets (hr.extend (ofStep_execution h)) hlock'
  have hchange := run_row_changes hr h run
  rw [hold, hnew] at hchange
  have htargets : new.targets = old.targets := by
    cases hchange with
    | kept => rfl
    | changed hinput => exact congrArg CreateRunInput.targets hinput.1
  rw [hkeys, hkeys', htargets]

end Seen

section Buffer

variable {statuses : List CampaignRunStatus} {B : ℕ}

/-- The jobs that a materializing transaction may still create. -/
def slack : CampaignTx → ℕ
  | .materializeCounted _ slots => slots
  | .materializing _ pending => pending.length
  | _ => 0

/-- The committed jobs of the deliveries to these groups that are on their way. -/
def bufferedJobs (s : State) (run : RunId) (groups : List GroupId) : ℕ :=
  groups.countP fun g =>
    activeAt (s.deliveries (run, g)).committed fun j => (s.core.jobs j).committed

/-- The buffer bound is kept by what is committed, and by what each transaction that has locked a
run sees and may still add. -/
structure Buffered (B : ℕ) (s : State) : Prop where
  committed : ∀ run r, (s.runs run).committed = .present r → bufferedJobs s run r.targets ≤ B
  bound : ∀ n run maxBuffered sendable,
    s.txs n = .materializeLocked run maxBuffered sendable → maxBuffered ≤ B
  seen : ∀ n run statuses, (s.txs n).lock = some (run, statuses) →
    activeCount s n run + slack (s.txs n) ≤ B

theorem activeCount_targets {r : CampaignRun}
    (hkeys : s.targetKeys n run = r.targets.map fun g => (run, g)) :
    activeCount s n run =
      r.targets.countP fun g => activeAt (s.delivery n (run, g)) (s.jobView n) := by
  rw [activeCount_eq, hkeys, List.countP_map]
  rfl

/-- A transaction that has not written deliveries yet counts what is committed. -/
theorem unwritten_count (hr : Reachable (system c) s)
    (hlock : (s.txs n).lock = some (run, statuses)) (hw : writesFor (s.txs n) = none)
    (hb : ∀ r, (s.runs run).committed = .present r → bufferedJobs s run r.targets ≤ B) :
    activeCount s n run ≤ B := by
  obtain ⟨r, hrun, hkeys⟩ := seen_targets hr hlock
  rw [activeCount_targets hkeys]
  refine (List.countP_mono_left fun g _ ha => ?_).trans (hb r hrun)
  have hdelivery : s.delivery n (run, g) = (s.deliveries (run, g)).committed := by
    refine Row.view_of_not_held fun v hv => ?_
    obtain ⟨m, hm, hwrites⟩ := rows_held_by_writers hr _ _ v hv
    cases hm
    rw [hw] at hwrites
    cases hwrites
  obtain ⟨j, hj, hactive⟩ := activeAt_iff.mp ha
  refine activeAt_iff.mpr ⟨j, hdelivery ▸ hj, ?_⟩
  have hjob : s.jobView n j = (s.core.jobs j).committed := by
    refine Row.view_of_not_held fun v hv => ?_
    rcases jobs_held hr n j v hv with ⟨run', pending, hstage⟩ | ⟨job, rfl, hcancelled⟩
    · rw [hstage] at hw
      cases hw
    · rw [State.jobView, Row.view_of_held hv] at hactive
      simp [jobActive, hcancelled] at hactive
  rwa [← hjob]

/-- What a step of a transaction that keeps its lock does to its slack. -/
theorem slack_step {k k' : CampaignTx} {event : TxEvent} (h : txNext s n k event = some k')
    (hk : k'.lock = some (run, statuses)) :
    (writesFor k' = none ∧ slack k' = 0) ∨
      (k.lock = some (run, statuses) ∧ event ≠ .abort ∧
        ((∃ job now date, event = .materializeNext job now date ∧ slack k = slack k' + 1) ∨
          (∀ job now date, event ≠ .materializeNext job now date) ∧
            (slack k' ≤ slack k ∨
              ∃ maxBuffered, k = .materializeLocked run maxBuffered true ∧
                slack k' = maxBuffered - activeCount s n run))) := by
  unfold txNext at h
  split at h
  case h_2 =>
    split at h
    · split at h <;> obtain ⟨_, rfl⟩ := guarded_eq_some.mp h
      · exact .inl ⟨rfl, rfl⟩
      · cases hk
    · obtain ⟨_, rfl⟩ := guarded_eq_some.mp h
      cases hk
  case h_3 =>
    split at h
    · cases h
    · obtain rfl | ⟨r, _, _, _, rfl⟩ := lockedOn_some h
      · cases hk
      · exact .inl ⟨rfl, rfl⟩
  case h_4 =>
    split at h <;> cases h <;> exact .inl ⟨rfl, rfl⟩
  case h_10 | h_17 =>
    obtain rfl | ⟨r, _, _, _, rfl⟩ := lockedOn_some h
    · cases hk
    · exact .inl ⟨rfl, rfl⟩
  case h_19 =>
    cases h
    cases hk
    exact .inr ⟨rfl, by simp, .inr ⟨by simp, .inr ⟨_, rfl, rfl⟩⟩⟩
  case h_20 =>
    obtain ⟨⟨_, hlength, _⟩, rfl⟩ := guarded_eq_some.mp h
    exact .inr ⟨hk, by simp, .inr ⟨by simp, .inl (by simpa [slack] using hlength)⟩⟩
  case h_21 =>
    obtain ⟨_, rfl⟩ := guarded_eq_some.mp h
    exact .inr ⟨hk, by simp, .inl ⟨_, _, _, rfl, rfl⟩⟩
  case h_33 => cases h
  all_goals
    simp only [guarded_eq_some, Option.some.injEq] at h
    first
    | subst h
    | obtain ⟨_, rfl⟩ := h
    first
    | exact .inl ⟨rfl, rfl⟩
    | exact .inr ⟨hk, by simp, .inr ⟨by simp, .inl (Nat.zero_le _)⟩⟩

/-- A step that does not materialize leaves a transaction at most the active jobs it has seen. -/
theorem seen_count_calm (hr : Reachable (system c) s) (h : step c s e = some u)
    (hlock : (s.txs n).lock = some (run, statuses))
    (hlock' : (u.txs n).lock = some (run, statuses)) (habort : e ≠ .tx n .abort)
    (hlink : ∀ g j, link (u.delivery n (run, g)) = some j → link (s.delivery n (run, g)) = some j) :
    activeCount u n run ≤ activeCount s n run := by
  rw [activeCount_eq, activeCount_eq, targets_kept hr h hlock hlock']
  obtain ⟨r, _, hkeys⟩ := seen_targets hr hlock
  rw [hkeys]
  refine List.countP_mono_left fun key hkey ha => ?_
  obtain ⟨g, _, rfl⟩ := List.mem_map.mp hkey
  exact seen_active_before hr h habort (hlink g) ha

theorem materializeNext_stage {k k' : CampaignTx} {job : JobId} {now date : ℕ}
    (h : txNext s n k (.materializeNext job now date) = some k') :
    ∃ run p rest, k = .materializing run (p :: rest) := by
  cases k <;> simp only [txNext, reduceCtorEq] at h
  case materializing run pending =>
    cases pending with
    | nil => cases h
    | cons p rest => exact ⟨run, p, rest, rfl⟩

/-- The delivery that a transaction materializes is the only one that may count anew. -/
theorem seen_count_materialize (hr : Reachable (system c) s) {job : JobId} {now date : ℕ}
    (h : step c s (.tx n (.materializeNext job now date)) = some u)
    (hlock : (s.txs n).lock = some (run, statuses))
    (hlock' : (u.txs n).lock = some (run, statuses)) :
    activeCount u n run ≤ activeCount s n run + 1 := by
  obtain ⟨r, hrun, hkeys⟩ := seen_targets hr hlock
  have hkeys' : u.targetKeys n run = r.targets.map fun g => (run, g) :=
    (targets_kept hr h hlock hlock').trans hkeys
  rw [activeCount_targets hkeys, activeCount_targets hkeys']
  obtain ⟨id, ⟨g, changed⟩, rest, hstage⟩ :
      ∃ id p rest, s.txs n = .materializing id (p :: rest) := by
    obtain ⟨m, _, hm, _, _, _⟩ := step_some h
    exact materializeNext_stage (tx_moves hm)
  obtain rfl : id = run := by
    rw [hstage] at hlock
    cases hlock
    rfl
  refine countP_le_succ ((targets_distinct hr id).1 r hrun) g fun g' _ hne ha => ?_
  refine seen_active_before hr h (by simp) (fun j hj => ?_) ha
  have hsame : u.deliveries (id, g') = s.deliveries (id, g') := by
    obtain ⟨m, _, _, _, _, rfl⟩ := step_some h
    have hother : (id, g') ≠ (id, g) := by
      intro heq
      exact hne (congrArg Prod.snd heq)
    simp [deliveryEffect, hstage, Effect.apply, hother]
  rwa [State.delivery, hsame] at hj

theorem seen_step (hr : Reachable (system c) s) (hI : Buffered B s) (h : step c s e = some u)
    (hcommitted : ∀ run r, (u.runs run).committed = .present r → bufferedJobs u run r.targets ≤ B)
    (hlock : (u.txs n).lock = some (run, statuses)) :
    activeCount u n run + slack (u.txs n) ≤ B := by
  have hu : Reachable (system c) u := hr.extend (ofStep_execution h)
  by_cases he : ∀ event, e ≠ .tx n event
  · have hsame : u.txs n = s.txs n := by
      obtain ⟨m, _, hm, _, _, rfl⟩ := step_some h
      change m.txs n = s.txs n
      exact other_tx_unchanged hm he
    have hlock' : (s.txs n).lock = some (run, statuses) := hsame ▸ hlock
    have hcalm := seen_count_calm hr h hlock' hlock (he _)
      fun g j hj => (link_of_other hr h he hlock' g) ▸ hj
    have hseen := hI.seen n run statuses hlock'
    rw [hsame]
    omega
  · obtain ⟨event, rfl⟩ : ∃ event, e = .tx n event := by simpa using he
    have hnext : txNext s n (s.txs n) event = some (u.txs n) := by
      obtain ⟨m, _, hm, _, _, rfl⟩ := step_some h
      change _ = some (m.txs n)
      exact tx_moves hm
    rcases slack_step hnext hlock with ⟨hw, hzero⟩ | ⟨hlock', habort, hmove⟩
    · rw [hzero]
      exact unwritten_count hu hlock hw (hcommitted run)
    · have hseen := hI.seen n run statuses hlock'
      rcases hmove with ⟨job, now, date, rfl, hslack⟩ | ⟨hother, hslack⟩
      · have hcount := seen_count_materialize hr h hlock' hlock
        omega
      · have hcalm := seen_count_calm hr h hlock' hlock (by simpa using habort)
          fun g j hj => own_link_origin h hother habort hj
        rcases hslack with hle | ⟨maxBuffered, hstage, hslack⟩
        · omega
        · have hbound := hI.bound n run maxBuffered true hstage
          omega

/-- A step that commits no delivery of the run leaves it at most its committed active jobs. -/
theorem committed_active_before (hr : Reachable (system c) s) (h : step c s e = some u)
    (hcommit : ∀ m, e = .tx m .commit → writesFor (s.txs m) ≠ some run)
    (ha : activeAt (u.deliveries (run, g)).committed (fun j => (u.core.jobs j).committed) = true) :
    activeAt (s.deliveries (run, g)).committed (fun j => (s.core.jobs j).committed) = true := by
  obtain ⟨j, hj, hactive⟩ := activeAt_iff.mp ha
  have hbefore : link (s.deliveries (run, g)).committed = some j := by
    rcases committed_delivery_step (run, g) hr h hcommit with hsame | ⟨_, now, jobs, _, hw⟩ |
      ⟨hnone, _⟩
    · rwa [← hsame]
    · obtain ⟨_, _, i, _, hd, hd', hi, hi', _⟩ := reconcile_some hw
      rw [hd'] at hj
      rw [hd]
      exact hi.trans (hi'.symm.trans hj)
    · rw [hnone] at hj
      cases hj
  obtain ⟨_, job, hjob⟩ := (links_named hr).committed (run, g) j hbefore
  have hused : (s.core.jobs j).committed ≠ .unused := by simp [hjob]
  exact activeAt_iff.mpr ⟨j, hbefore, moves_active (committed_job_moves hr h j) hused hactive⟩

theorem committed_step (hr : Reachable (system c) s) (hI : Buffered B s) (h : step c s e = some u)
    {r : CampaignRun} (hrun : (u.runs run).committed = .present r) :
    bufferedJobs u run r.targets ≤ B := by
  have hchange := run_row_changes hr h run
  rw [hrun] at hchange
  by_cases hcommit : ∃ m, e = .tx m .commit ∧ writesFor (s.txs m) = some run
  · obtain ⟨m, rfl, hwrites⟩ := hcommit
    obtain ⟨statuses, hlock⟩ := writesFor_lock hwrites
    obtain ⟨old, hold, hkeys⟩ := seen_targets hr hlock
    have htargets : r.targets = old.targets := by
      rw [hold] at hchange
      cases hchange with
      | kept => rfl
      | changed hinput => exact congrArg CreateRunInput.targets hinput.1
    obtain ⟨hdeliveries, hjobs, _⟩ := commit_step h
    have hseen := hI.seen m run statuses hlock
    rw [activeCount_targets hkeys] at hseen
    have hsame : bufferedJobs u run r.targets =
        old.targets.countP fun g => activeAt (s.delivery m (run, g)) (s.jobView m) := by
      simp only [bufferedJobs, hdeliveries, hjobs, htargets]
    omega
  · have hquiet : ∀ m, e = .tx m .commit → writesFor (s.txs m) ≠ some run :=
      fun m he hw => hcommit ⟨m, he, hw⟩
    have hmono : bufferedJobs u run r.targets ≤ bufferedJobs s run r.targets :=
      List.countP_mono_left fun g _ ha => committed_active_before hr h hquiet ha
    refine hmono.trans ?_
    cases hold : (s.runs run).committed with
    | unused =>
      have hnone : bufferedJobs s run r.targets = 0 := by
        refine List.countP_eq_zero.mpr fun g _ ha => ?_
        obtain ⟨j, hj, _⟩ := activeAt_iff.mp ha
        have hplaced := (deliveries_placed hr (run, g)).1 fun hd => by
          rw [hd] at hj
          cases hj
        rw [hold] at hplaced
        exact hplaced
      omega
    | present old =>
      rw [hold] at hchange
      have htargets : r.targets = old.targets := by
        cases hchange with
        | kept => rfl
        | changed hinput => exact congrArg CreateRunInput.targets hinput.1
      rw [htargets]
      exact hI.committed run old hold
    | deleted =>
      rw [hold] at hchange
      cases hchange

end Buffer

section Accounts

variable {B : ℕ}

/-- Each call of `materializePending` passes at most this bound. -/
def BufferedBy (B : ℕ) : Event → Prop
  | .tx _ (.lockMaterialize _ maxBuffered) => maxBuffered ≤ B
  | _ => True

theorem materializeLocked_origin {k : CampaignTx} {event : TxEvent} {maxBuffered : ℕ}
    {sendable : Bool}
    (h : txNext s n k event = some (.materializeLocked run maxBuffered sendable)) :
    event = .lockMaterialize run maxBuffered := by
  unfold txNext at h
  split at h
  case h_2 =>
    split at h
    · split at h <;> simp at h
    · simp at h
  case h_3 =>
    split at h
    · cases h
    · obtain h | ⟨_, _, _, _, h⟩ := lockedOn_some h <;> cases h
  case h_10 => obtain h | ⟨_, _, _, _, h⟩ := lockedOn_some h <;> cases h
  case h_4 => split at h <;> cases h
  case h_17 =>
    obtain h | ⟨_, _, _, _, h⟩ := lockedOn_some h
    · cases h
    · cases h
      rfl
  all_goals simp at h

theorem buffered (h : Reachable (restrict (system c) fun _ e => BufferedBy B e) s) :
    Buffered B s := by
  refine reachable_invariant_with (M := restrict (system c) fun _ e => BufferedBy B e)
    (I := Buffered B) (J := Reachable (system c)) (fun _ hr => hr.unrestrict) ?_
    (fun s e hr hI he => ?_) h
  · rintro _ rfl
    constructor
    · intro run r hr
      cases hr
    · intro n run maxBuffered sendable hn
      cases hn
    · intro n run statuses hn
      cases hn
  · have hstep := ofStep_enabled he.1
    have hcommitted : ∀ run r, (((system c).next s e).runs run).committed = .present r →
        bufferedJobs ((system c).next s e) run r.targets ≤ B :=
      fun run r hrun => committed_step hr hI hstep hrun
    refine ⟨hcommitted, fun n run maxBuffered sendable hstage => ?_,
      fun n run statuses hlock => seen_step hr hI hstep hcommitted hlock⟩
    obtain ⟨m, _, hm, _, _, hu⟩ := step_some hstep
    have hm' : m.txs n = .materializeLocked run maxBuffered sendable := by
      rw [← hstage]
      exact (congrArg (fun u : State => u.txs n) hu).symm
    by_cases hmine : ∃ event, e = .tx n event
    · obtain ⟨event, rfl⟩ := hmine
      have hnext := tx_moves hm
      rw [hm'] at hnext
      obtain rfl := materializeLocked_origin hnext
      exact he.2
    · rw [other_tx_unchanged hm fun event hev => hmine ⟨event, hev⟩] at hm'
      exact hI.bound n run maxBuffered sendable hm'

/-- The accounts of all runs, under the bound that is passed to `materializePending`. -/
structure Accounted (B : ℕ) (s : State) : Prop where
  populated : ∀ run r, (s.runs run).committed = .present r → r.status ∈ populatedStatuses →
    (∀ g, g ∈ r.targets ↔ (s.deliveries (run, g)).committed ≠ none) ∧
      (r.status = .running → ∃ g, (s.deliveries (run, g)).committed ≠ none)
  linked : ∀ key j, link (s.deliveries key).committed = some j →
    s.jobOwner j = some key ∧ ∃ job, (s.core.jobs j).committed = .present job
  owned : ∀ run r, (s.runs run).committed = .present r → ∀ j job g,
    s.jobOwner j = some (run, g) → (s.core.jobs j).committed = .present job →
      job.recipientId = g ∧ ∀ key, link (s.deliveries key).committed = some j ↔ key = (run, g)
  buffered : ∀ run r, (s.runs run).committed = .present r → ∀ js : List JobId, js.Nodup →
    (∀ j ∈ js, (∃ g, s.jobOwner j = some (run, g)) ∧ jobActive (s.core.jobs j).committed = true) →
      js.length ≤ B

/-- The active jobs in the scope of a run are those of different deliveries. -/
theorem active_jobs_counted (hr : Reachable (system c) s) {r : CampaignRun}
    (hrun : (s.runs run).committed = .present r) {js : List JobId} (hjs : js.Nodup)
    (hall : ∀ j ∈ js, (∃ g, s.jobOwner j = some (run, g)) ∧
      jobActive (s.core.jobs j).committed = true) :
    js.length ≤ bufferedJobs s run r.targets := by
  have hlinked : ∀ j ∈ js, ∃ g ∈ r.targets, link (s.deliveries (run, g)).committed = some j := by
    intro j hj
    obtain ⟨⟨g, howner⟩, hactive⟩ := hall j hj
    obtain ⟨job, hjob⟩ : ∃ job, (s.core.jobs j).committed = .present job := by
      cases hslot : (s.core.jobs j).committed with
      | present job => exact ⟨job, rfl⟩
      | unused => simp [hslot, jobActive] at hactive
      | deleted => simp [hslot, jobActive] at hactive
    have hlink := (jobs_linked hr).committed j (run, g) job r howner hjob hrun
    have hplaced := (deliveries_placed hr (run, g)).1 fun hd => by
      rw [hd] at hlink
      cases hlink
    rw [hrun] at hplaced
    exact ⟨g, hplaced, hlink⟩
  let counted := r.targets.filter fun g =>
    activeAt (s.deliveries (run, g)).committed fun j => (s.core.jobs j).committed
  have hsub : js.map some ⊆ counted.map fun g => link (s.deliveries (run, g)).committed := by
    intro x hx
    obtain ⟨j, hj, rfl⟩ := List.mem_map.mp hx
    obtain ⟨g, hg, hlink⟩ := hlinked j hj
    refine List.mem_map.mpr ⟨g, List.mem_filter.mpr ⟨hg, ?_⟩, hlink⟩
    exact activeAt_iff.mpr ⟨j, hlink, (hall j hj).2⟩
  have hnodup : (js.map some).Nodup := hjs.map (Option.some_injective _)
  have hlength := (List.subperm_of_subset hnodup hsub).length_le
  rw [List.length_map, List.length_map] at hlength
  rwa [bufferedJobs, List.countP_eq_length_filter]

/-- Every reachable state accounts for the deliveries and jobs of its runs. -/
theorem deliveries_accounted
    (h : Reachable (restrict (system c) fun s e => Evaluates s e ∧ BufferedBy B e) s) :
    Accounted B s := by
  have hr : Reachable (system c) s := h.unrestrict
  have hevaluates : Reachable (restrict (system c) Evaluates) s :=
    h.restrict_mono fun _ _ _ he => he.1
  have hbuffered : Buffered B s := buffered (h.restrict_mono fun _ _ _ he => he.2)
  constructor
  · exact fun run r hrun hstatus => targets_have_deliveries hevaluates hrun hstatus
  · exact fun key j hj => (links_named hr).committed key j hj
  · intro run r hrun j job g howner hjob
    refine ⟨(recipients_named hr j run g howner).1 job hjob, fun key => ⟨fun hkey => ?_, ?_⟩⟩
    · obtain ⟨hsame, _⟩ := (links_named hr).committed key j hkey
      exact Option.some.inj (hsame.symm.trans howner)
    · rintro rfl
      exact (jobs_linked hr).committed j (run, g) job r howner hjob hrun
  · intro run r hrun js hjs hall
    exact (active_jobs_counted hr hrun hjs hall).trans (hbuffered.committed run r hrun)

/-- A LIVE run with two groups is waiting for its preflight. -/
def claimedTrace : List Event :=
  [.writeGroup ("session", "first") ⟨.allowed, "ok", 1, some 0⟩,
    .writeGroup ("session", "second") ⟨.allowed, "ok", 1, some 0⟩,
    .writeSession "session" ⟨"ready", true, false⟩,
    .createRun 1 ⟨1, "session", "key", .live, "text", ["first", "second"], 0⟩ 0,
    .claimPreparation 1 0 5]

def evaluateStep : Event := .tx 0 (.evaluate 1 .pass)

/-- The run starts, and a buffer of one takes one of its two deliveries. -/
def materializedTrace : List Event :=
  [.tx 0 (.lockPreparation 0 5), .tx 0 .checkRevisions, .tx 0 .copyRevisions,
    .tx 0 (.insertDeliveries 0), .tx 0 (.writeRun 0 0), .tx 0 .commit,
    .tx 0 (.lockMaterialize 1 1), .tx 0 .countActive, .tx 0 (.selectPending ["first"]),
    .tx 0 (.materializeNext 7 0 0), .tx 0 .commit]

def bufferSystem : System State Event := system CampaignRunTransitions.exampleConfig

instance (s : State) (e : Event) : Decidable (bufferSystem.enabled s e) :=
  inferInstanceAs (Decidable ((system CampaignRunTransitions.exampleConfig).enabled s e))

def claimedState : State := runTrace bufferSystem initial claimedTrace

def materializedState : State :=
  runTrace bufferSystem (bufferSystem.next claimedState evaluateStep) materializedTrace

theorem buffer_of_one_accounted :
    link (materializedState.deliveries (1, "first")).committed = some 7 ∧
      Accounted 1 materializedState := by
  have hclaimed : Execution (restrict bufferSystem fun s e => Evaluates s e ∧ BufferedBy 1 e)
      initial claimedTrace claimedState :=
    valid_trace_restricted_execution (by simp [claimedTrace, Evaluates, BufferedBy])
      (by decide +kernel)
  have hevaluates : Evaluates claimedState evaluateStep :=
    ⟨_, ⟨.live, "text",
      [⟨"first", "First", .allowed, none, 1⟩, ⟨"second", "Second", .allowed, none, 1⟩],
      ⟨"ready", true, false⟩, true, 1, 1, 0⟩, rfl, rfl, rfl, by decide +kernel, by decide +kernel⟩
  have hmaterialized : Execution (restrict bufferSystem fun s e => Evaluates s e ∧ BufferedBy 1 e)
      (bufferSystem.next claimedState evaluateStep) materializedTrace materializedState :=
    valid_trace_restricted_execution (by simp [materializedTrace, Evaluates, BufferedBy])
      (by decide +kernel)
  exact ⟨by decide +kernel, deliveries_accounted ⟨_, initial, rfl,
    hclaimed.trans (Execution.cons ⟨by decide +kernel, hevaluates, trivial⟩ hmaterialized)⟩⟩

end Accounts

end CampaignDeliveryAccounting
