import Mathlib.Data.Fintype.EquivFin
import Mathlib.Data.Prod.Lex
import WaRuntime.WebhookRegistrations

/-! A pass that is answered leaves one registration.
Whatever earlier passes have left behind, a pass that runs alone and gets every answer ends after
finitely many calls, and each allowed session then has the one registration that the options ask
for. It is the first of those that were there. -/
namespace RegistrationConvergence

open TransitionRuns CanonicalOrders WebhookRegistrations

variable {o : Options} {rs rs' : List Registration} {id : String} {active : Bool}

section Ids

def managedIds (o : Options) (rs : List Registration) : List String :=
  (managed o rs).map Registration.id

theorem managed_ids_perm :
    (managedIds o rs).Perm ((rs.filter fun r => Managed o r).map Registration.id) :=
  o.localeCompare.sortBy_perm.map Registration.id

theorem managed_ids_sorted : (managedIds o rs).Pairwise o.localeCompare.le :=
  List.pairwise_map.mpr o.localeCompare.sortBy_pairwise

/-- A sorted list of the same ids is the list itself. -/
theorem managed_ids_eq {l : List String} (hl : l.Pairwise o.localeCompare.le)
    (h : l.Perm ((rs.filter fun r => Managed o r).map Registration.id)) : managedIds o rs = l :=
  List.Perm.eq_of_pairwise' managed_ids_sorted hl (managed_ids_perm.trans h.symm)

theorem managed_nil_iff : managedIds o rs = [] ↔ managed o rs = [] := List.map_eq_nil_iff

/-- An update leaves the ids and what is managed. -/
theorem managed_ids_mapped {f : Registration → Registration}
    (hid : ∀ r ∈ rs, (f r).id = r.id) (hm : ∀ r ∈ rs, Managed o r ↔ Managed o (f r)) :
    managedIds o (rs.map f) = managedIds o rs := by
  refine managed_ids_eq managed_ids_sorted (managed_ids_perm.trans ?_)
  have hsame : (rs.map f).filter (fun r => Managed o r) =
      (rs.filter fun r => Managed o r).map f := by
    rw [List.filter_map]
    congr 1
    exact List.filter_congr fun r hr => by simp [hm r hr]
  rw [hsame, List.map_map]
  refine List.Perm.of_eq (List.map_congr_left fun r hr => ?_)
  exact (hid r (List.mem_of_mem_filter hr)).symm

theorem managed_ids_removed :
    managedIds o (rs.filter fun r => r.id ≠ id) = (managedIds o rs).filter fun i => i ≠ id := by
  refine managed_ids_eq (managed_ids_sorted.sublist List.filter_sublist) ?_
  refine (managed_ids_perm.filter _).trans (List.Perm.of_eq ?_)
  rw [List.filter_map, List.filter_filter, List.filter_filter]
  congr 1
  refine List.filter_congr fun r _ => ?_
  simp [Bool.and_comm]

theorem managed_registered_alone (h : managed o rs = []) :
    managed o (rs ++ [registered o id active]) = [registered o id active] := by
  have hnone : rs.filter (fun r => Managed o r) = [] := by
    have hlength := (o.localeCompare.sortBy_perm (f := Registration.id)
      (l := rs.filter fun r => Managed o r)).length_eq
    rw [show o.localeCompare.sortBy Registration.id (rs.filter fun r => Managed o r) = [] from h]
      at hlength
    exact List.length_eq_zero_iff.mp hlength.symm
  rw [managed, List.filter_append, hnone]
  simp [managed_registered, TotalOrder.sortBy]

end Ids

section Calls

/-- What a pass knows of the session that it is at. -/
def Found (o : Options) (rs : List Registration) : Work → Prop
  | .listing => True
  | .registering => managed o rs = []
  | .updating retained duplicates => managedIds o rs = retained :: duplicates
  | .deleting retained duplicate rest _ => managedIds o rs = retained :: duplicate :: rest ∧
      ∀ r ∈ rs, r.id = retained → r = registered o retained true

/-- How many calls a session takes at most. -/
def callsLeft (o : Options) (rs : List Registration) : Work → ℕ
  | .listing => 2 + (managedIds o rs).length
  | .registering => 1
  | .updating _ duplicates => 1 + duplicates.length
  | .deleting _ _ rest _ => 1 + rest.length

theorem single_managed {retained : String} (h : managedIds o rs = [retained])
    (hr : ∀ r ∈ rs, r.id = retained → r = registered o retained true) :
    managed o rs = [registered o retained true] := by
  obtain ⟨r, hone, hid⟩ := List.map_eq_singleton_iff.mp h
  have hmem : r ∈ managed o rs := hone ▸ List.mem_singleton_self r
  rw [hone, hr r (mem_managed.mp hmem).1 hid]

theorem updated_found {retained : String} {r : Registration}
    (h : r ∈ rs.map fun r => if r.id = retained then updated o r else r) (hid : r.id = retained) :
    r = registered o retained true := by
  obtain ⟨old, _, rfl⟩ := List.mem_map.mp h
  rw [updated_id] at hid
  rw [if_pos hid, updated, hid]

theorem managed_ids_updated {retained : String} (hn : (rs.map Registration.id).Nodup)
    (h : retained ∈ managedIds o rs) :
    managedIds o (rs.map fun r => if r.id = retained then updated o r else r) =
      managedIds o rs :=
  managed_ids_mapped (fun r _ => updated_id r) fun _ hr =>
    updated_managed fun hid => listed_owned hn h hr hid

/-- An answered call is never a 404, and it brings the session nearer to its one registration. -/
theorem found_proceeds {work : Work} (hn : (rs.map Registration.id).Nodup)
    (hf : Found o rs work) : ∃ rs', carryOut o id active rs work = some rs' ∧
      ((∃ next, proceed o rs' work = .inl next ∧ Found o rs' next ∧
          callsLeft o rs' next < callsLeft o rs work) ∨
        ∃ counts i state, proceed o rs' work = .inr counts ∧
          managed o rs' = [registered o i state] ∧ (managed o rs ≠ [] → state = true)) := by
  cases work with
  | listing =>
    refine ⟨rs, rfl, .inl ?_⟩
    cases hids : managedIds o rs with
    | nil =>
      refine ⟨.registering, ?_, managed_nil_iff.mp hids, ?_⟩
      · simp [proceed, show (managed o rs).map Registration.id = [] from hids]
      · simp [callsLeft, hids]
    | cons retained duplicates =>
      refine ⟨.updating retained duplicates, ?_, hids, ?_⟩
      · simp [proceed, show (managed o rs).map Registration.id = retained :: duplicates from hids]
      · simp only [callsLeft, hids, List.length_cons]
        omega
  | registering =>
    exact ⟨_, rfl, .inr ⟨_, id, active, rfl, managed_registered_alone hf, absurd hf⟩⟩
  | updating retained duplicates =>
    have hlist : managedIds o rs = retained :: duplicates := hf
    have hmem : retained ∈ managedIds o rs := hlist ▸ List.mem_cons_self
    obtain ⟨r, hr, hid⟩ := List.mem_map.mp hmem
    have hcarried : retained ∈ rs.map Registration.id :=
      List.mem_map.mpr ⟨r, (mem_managed.mp hr).1, hid⟩
    refine ⟨_, if_pos hcarried, ?_⟩
    have hids := (managed_ids_updated hn hmem).trans hlist
    cases duplicates with
    | nil =>
      exact .inr ⟨_, retained, true, rfl, single_managed hids fun _ => updated_found, fun _ => rfl⟩
    | cons duplicate rest =>
      exact .inl ⟨_, rfl, ⟨hids, fun _ => updated_found⟩, by simp [callsLeft]⟩
  | deleting retained duplicate rest total =>
    obtain ⟨hlist, hupdated⟩ := hf
    have hmem : duplicate ∈ managedIds o rs := by simp [hlist]
    obtain ⟨r, hr, hid⟩ := List.mem_map.mp hmem
    have hcarried : duplicate ∈ rs.map Registration.id :=
      List.mem_map.mpr ⟨r, (mem_managed.mp hr).1, hid⟩
    refine ⟨_, if_pos hcarried, ?_⟩
    have hnodup : (retained :: duplicate :: rest).Nodup := hlist ▸ managed_ids hn
    have hids : managedIds o (rs.filter fun r => r.id ≠ duplicate) = retained :: rest := by
      rw [managed_ids_removed, hlist]
      simp only [List.nodup_cons, List.mem_cons, not_or] at hnodup
      obtain ⟨⟨hne, _⟩, hnotin, _⟩ := hnodup
      have hrest : rest.filter (fun i => decide (i ≠ duplicate)) = rest := by
        refine List.filter_eq_self.mpr fun i hi => decide_eq_true ?_
        rintro rfl
        exact hnotin hi
      rw [List.filter_cons_of_pos (by simpa using hne), List.filter_cons_of_neg (by simp), hrest]
    have hkept : ∀ r ∈ rs.filter (fun r => r.id ≠ duplicate), r.id = retained →
        r = registered o retained true := fun r hr => hupdated r (List.mem_of_mem_filter hr)
    cases rest with
    | nil => exact .inr ⟨_, retained, true, rfl, single_managed hids hkept, fun _ => rfl⟩
    | cons next rest => exact .inl ⟨_, rfl, ⟨hids, hkept⟩, by simp [callsLeft]⟩

/-- A call takes ids away, or leaves them as they are, unless it registers the first one. -/
theorem carried_ids {work : Work} (hn : (rs.map Registration.id).Nodup) (hf : Found o rs work)
    (hne : managed o rs ≠ []) (h : carryOut o id active rs work = some rs') :
    ∀ i ∈ managedIds o rs', i ∈ managedIds o rs := by
  cases work with
  | listing =>
    obtain rfl := Option.some.inj h
    exact fun _ hi => hi
  | registering => exact absurd hf hne
  | updating retained duplicates =>
    have hlist : managedIds o rs = retained :: duplicates := hf
    obtain ⟨_, rfl⟩ := guarded_eq_some.mp h
    rw [managed_ids_updated hn (hlist ▸ List.mem_cons_self)]
    exact fun _ hi => hi
  | deleting retained duplicate rest total =>
    obtain ⟨_, rfl⟩ := guarded_eq_some.mp h
    rw [managed_ids_removed]
    exact fun _ hi => List.mem_of_mem_filter hi

end Calls

section Pass

variable {s₀ s u : State} {p : ℕ} {k : Pass} {e : Event} {sessionId : String}

/-- One registration for the callback, as the options ask for it. -/
def Single (o : Options) (before after : List Registration) : Prop :=
  ∃ id active, managed o after = [registered o id active] ∧
    (managed o before ≠ [] → active = true)

/-- What holds between the state before a pass and every state of it while it is alone. -/
structure Along (o : Options) (s₀ s : State) : Prop where
  inv : Inv o s
  foreign : ∀ sessionId,
    foreign o (s.registrations sessionId) = foreign o (s₀.registrations sessionId)
  lower : ∀ sessionId, ∀ r ∈ managed o (s₀.registrations sessionId),
    ∃ r' ∈ managed o (s.registrations sessionId), o.localeCompare.le r'.id r.id
  kept : ∀ sessionId, managed o (s₀.registrations sessionId) ≠ [] →
    ∀ i ∈ managedIds o (s.registrations sessionId),
      i ∈ managedIds o (s₀.registrations sessionId)
  outside : ∀ sessionId ∉ o.allowedSessionIds,
    s.registrations sessionId = s₀.registrations sessionId

structure AtWork (o : Options) (s₀ s : State) (k : Pass) : Prop where
  failed : k.failed = 0
  reports : s.reports = s₀.reports
  found : Found o (s.registrations k.sessionId) k.work
  allowed : ∀ x ∈ k.sessionId :: k.following, x ∈ o.allowedSessionIds
  settled : ∀ x ∈ o.allowedSessionIds, x ∉ k.sessionId :: k.following →
    Single o (s₀.registrations x) (s.registrations x)

structure Finished (o : Options) (s₀ s : State) : Prop where
  report : ∃ r, s.reports = s₀.reports ++ [r] ∧ r.failed = 0
  settled : ∀ x ∈ o.allowedSessionIds, Single o (s₀.registrations x) (s.registrations x)

structure Converging (o : Options) (s₀ s : State) (p : ℕ) : Prop where
  along : Along o s₀ s
  working : ∀ k, s.passes p = some k → AtWork o s₀ s k
  finished : s.passes p = none → Finished o s₀ s

def AnsweredCall (p : ℕ) (e : Event) : Prop := ∃ id active, e = .call p true id active

/-- The pass goes on with the sessions that are left. -/
theorem converging_advance {totals : ReconciliationCounts} {l : List String}
    (ha : Along o s₀ (advance o s p totals 0 l)) (hr : s.reports = s₀.reports)
    (hl : ∀ x ∈ l, x ∈ o.allowedSessionIds)
    (hs : ∀ x ∈ o.allowedSessionIds, x ∉ l → Single o (s₀.registrations x) (s.registrations x)) :
    Converging o s₀ (advance o s p totals 0 l) p where
  along := ha
  working k hk := by
    rcases advance_passes hk with ⟨hne, _⟩ | ⟨_, hwork, _, hfailed, rfl⟩
    · exact absurd rfl hne
    · refine ⟨hfailed, hr, ?_, hl, hs⟩
      rw [hwork]
      trivial
  finished hnone := by
    cases l with
    | nil => exact ⟨⟨_, congrArg (· ++ _) hr, rfl⟩, fun x hx => hs x hx (by simp)⟩
    | cons sessionId following => simp [advance] at hnone

/-- The state between an answered call and what the pass does with the answer. -/
def carried (s : State) (k : Pass) (id : String) (rs : List Registration) : State :=
  { s with
    registrations := Function.update s.registrations k.sessionId rs
    issued := if k.work = .registering then id :: s.issued else s.issued }

theorem answered_call (hk : s.passes p = some k)
    (hc : carryOut o id active (s.registrations k.sessionId) k.work = some rs)
    (hnew : k.work = .registering → id ∉ s.issued) :
    step o s (.call p true id active) = some (goOn o (carried s k id rs) p k rs) := by
  simp only [step, hk, Option.bind_some, perform, hc, guarded, if_pos hnew]
  rfl

theorem carried_at : (carried s k id rs).registrations k.sessionId = rs := by
  simp [carried]

theorem carried_other (h : sessionId ≠ k.sessionId) :
    (carried s k id rs).registrations sessionId = s.registrations sessionId := by
  simp [carried, h]

theorem along_managed (ha : Along o s₀ s) (h : managed o (s₀.registrations sessionId) ≠ []) :
    managed o (s.registrations sessionId) ≠ [] := by
  obtain ⟨r, hr⟩ := List.exists_mem_of_ne_nil _ h
  obtain ⟨r', hr', _⟩ := ha.lower sessionId r hr
  exact List.ne_nil_of_mem hr'

theorem along_call (ha : Along o s₀ s) (hw : AtWork o s₀ s k) (hk : s.passes p = some k)
    (hc : carryOut o id active (s.registrations k.sessionId) k.work = some rs)
    (h : step o s (.call p true id active) = some u)
    (hu : u.registrations = (carried s k id rs).registrations) : Along o s₀ u := by
  have hperform : perform o s p k true id active = some u := by simpa [step, hk] using h
  obtain ⟨hm, hforeign⟩ := perform_moved ha.inv hk hperform
  refine ⟨inv_step ha.inv h trivial, fun x => (hforeign x).trans (ha.foreign x), ?_, ?_, ?_⟩
  · intro x r hr
    obtain ⟨r', hr', hle⟩ := ha.lower x r hr
    obtain ⟨hmem, hman⟩ := mem_managed.mp hr'
    obtain ⟨r'', hr'', hman', hle'⟩ := (hm.keeps x).lower r' hmem hman
    exact ⟨r'', mem_managed.mpr ⟨hr'', hman'⟩, o.localeCompare.trans _ _ _ hle' hle⟩
  · intro x hne i hi
    rw [hu] at hi
    refine ha.kept x hne i ?_
    by_cases hsame : x = k.sessionId
    · subst hsame
      rw [carried_at] at hi
      exact carried_ids (ha.inv.nodup _) hw.found (along_managed ha hne) hc i hi
    · rwa [carried_other hsame] at hi
  · intro x hx
    have hne : x ≠ k.sessionId := by
      rintro rfl
      exact hx (hw.allowed _ List.mem_cons_self)
    rw [hu, carried_other hne]
    exact ha.outside x hx

theorem single_before (ha : Along o s₀ s) {r : Registration}
    (h : managed o rs = [r]) (hr : r = registered o id active)
    (hactive : managed o (s.registrations sessionId) ≠ [] → active = true) :
    Single o (s₀.registrations sessionId) rs := by
  exact ⟨id, active, hr ▸ h, fun hne => hactive (along_managed ha hne)⟩

/-- The calls that the rest of a pass takes: first by the sessions that are left. -/
noncomputable def remaining (o : Options) (s : State) (p : ℕ) : ℕ ×ₗ ℕ :=
  (s.passes p).elim (toLex (0, 0)) fun k =>
    toLex (k.following.length + 1, callsLeft o (s.registrations k.sessionId) k.work)

/-- Every answered call leaves less to do. -/
theorem converging_call (hc : Converging o s₀ s p) (hk : s.passes p = some k)
    (hnew : k.work = .registering → id ∉ s.issued) :
    ∃ u, step o s (.call p true id active) = some u ∧ Converging o s₀ u p ∧
      remaining o u p < remaining o s p := by
  have hw := hc.working k hk
  obtain ⟨rs, hcarry, hnext⟩ := @found_proceeds o _ id active _
    (hc.along.inv.nodup k.sessionId) hw.found
  have hstep := answered_call hk hcarry hnew
  refine ⟨_, hstep, ?_⟩
  have ha := along_call hc.along hw hk hcarry hstep go_on_registrations.1
  have hothers : ∀ x ∈ o.allowedSessionIds, x ∉ k.sessionId :: k.following →
      Single o (s₀.registrations x) ((carried s k id rs).registrations x) := by
    intro x hx hnot
    rw [carried_other fun heq => hnot (heq ▸ List.mem_cons_self)]
    exact hw.settled x hx hnot
  rcases hnext with ⟨next, hproceed, hfound, hless⟩ | ⟨counts, i, state, hproceed, hone, hactive⟩
  · have hgo : goOn o (carried s k id rs) p k rs = { carried s k id rs with
        passes := Function.update (carried s k id rs).passes p (some { k with work := next }) } := by
      simp [goOn, hproceed]
    rw [hgo] at ha ⊢
    refine ⟨⟨ha, fun k' hk' => ?_, fun hnone => ?_⟩, ?_⟩
    · simp only [Function.update_self, Option.some.injEq] at hk'
      subst hk'
      refine ⟨hw.failed, hw.reports, ?_, hw.allowed, hothers⟩
      rw [carried_at]
      exact hfound
    · simp at hnone
    · simp only [remaining, Function.update_self, Option.elim_some, hk, carried_at]
      exact Prod.Lex.toLex_lt_toLex.mpr (.inr ⟨rfl, hless⟩)
  · have hgo : goOn o (carried s k id rs) p k rs =
        advance o (carried s k id rs) p (k.totals.add counts) 0 k.following := by
      simp [goOn, hproceed, hw.failed]
    rw [hgo] at ha ⊢
    refine ⟨converging_advance ha hw.reports (fun x hx => hw.allowed x (List.mem_cons_of_mem _ hx))
      fun x hx hnot => ?_, ?_⟩
    · by_cases hsame : x = k.sessionId
      · subst hsame
        rw [carried_at]
        exact single_before hc.along hone rfl hactive
      · exact hothers x hx (by simp [hsame, hnot])
    · cases hl : k.following with
      | nil =>
        simp only [remaining, advance, Function.update_self, Option.elim_none, hk,
          Option.elim_some]
        exact Prod.Lex.toLex_lt_toLex.mpr (.inl (Nat.succ_pos _))
      | cons next rest =>
        simp only [remaining, advance, Function.update_self, Option.elim_some, hk, hl]
        exact Prod.Lex.toLex_lt_toLex.mpr (.inl (by simp))

theorem fresh_id (issued : List String) : ∃ id, id ∉ issued := by
  obtain ⟨id, hid⟩ := Infinite.exists_notMem_finset issued.toFinset
  exact ⟨id, by simpa using hid⟩

/-- A pass that is alone comes to its end, whatever the gateway's ids are. -/
theorem pass_ends (hc : Converging o s₀ s p) : ∃ es u, Execution (system o) s es u ∧
    (∀ e ∈ es, AnsweredCall p e) ∧ u.passes p = none := by
  -- by induction on the calls that are left
  induction hr : remaining o s p using WellFoundedLT.induction generalizing s with
  | _ r ih =>
    subst hr
    cases hk : s.passes p with
    | none => exact ⟨[], s, .refl, by simp, hk⟩
    | some k =>
      obtain ⟨id, hid⟩ := fresh_id s.issued
      obtain ⟨t, hstep, ht, hless⟩ := @converging_call o id true s₀ s p k hc hk fun _ => hid
      obtain ⟨es, u, hes, hall, hnone⟩ := ih _ hless ht rfl
      refine ⟨.call p true id true :: es, u, ?_, ?_, hnone⟩
      · obtain ⟨henabled, hnext⟩ := ofStep_of_some Initial hstep
        exact .cons henabled (hnext ▸ hes)
      · intro e he
        rcases List.mem_cons.mp he with rfl | he
        · exact ⟨id, true, rfl⟩
        · exact hall e he

theorem converging_run {es : List Event} (hc : Converging o s₀ s p)
    (h : Execution (system o) s es u) (hall : ∀ e ∈ es, AnsweredCall p e) :
    Converging o s₀ u p := by
  induction h with
  | refl => exact hc
  | @step es t e _ he ih =>
    have ht := ih fun e he => hall e (List.mem_append_left _ he)
    obtain ⟨id, active, rfl⟩ := hall e (List.mem_append_right _ (List.mem_singleton_self e))
    have hstep := ofStep_enabled he
    obtain ⟨k, hk, hperform⟩ := Option.bind_eq_some_iff.mp hstep
    obtain ⟨hnew, _⟩ := guarded_eq_some.mp hperform
    obtain ⟨v, hv, hc', _⟩ := @converging_call o id active s₀ t p k ht hk hnew
    rw [hv] at hstep
    exact Option.some.inj hstep ▸ hc'

end Pass

/-- What a pass makes of the registrations of an allowed session: one, which is the first by id of
those that were there, if there was one. -/
structure Converged (o : Options) (before after : List Registration) : Prop where
  foreign : foreign o after = foreign o before
  single : ∃ id active, managed o after = [registered o id active] ∧
    (managed o before ≠ [] → active = true ∧ id ∈ managedIds o before ∧
      ∀ r ∈ managed o before, o.localeCompare.le id r.id)

theorem along_converged {s₀ s : State} {sessionId : String} (ha : Along o s₀ s)
    (h : Single o (s₀.registrations sessionId) (s.registrations sessionId)) :
    Converged o (s₀.registrations sessionId) (s.registrations sessionId) := by
  obtain ⟨id, active, hone, hactive⟩ := h
  refine ⟨ha.foreign sessionId, id, active, hone, fun hne => ⟨hactive hne, ?_, fun r hr => ?_⟩⟩
  · exact ha.kept sessionId hne id (by simp [managedIds, hone, registered])
  obtain ⟨r', hr', hle⟩ := ha.lower sessionId r hr
  rw [hone, List.mem_singleton] at hr'
  rwa [hr'] at hle

/-- A pass that is alone and gets its answers can only end well, and it does end. -/
theorem registrations_converge {s t : State} {p : ℕ}
    (hs : Reachable (restrict (system o) (Apart o)) s) (hstart : step o s (.start p) = some t) :
    (∃ es u, Execution (system o) t es u ∧ (∀ e ∈ es, AnsweredCall p e) ∧ u.passes p = none) ∧
      ∀ es u, Execution (system o) t es u → (∀ e ∈ es, AnsweredCall p e) → u.passes p = none →
        (∃ r, u.reports = s.reports ++ [r] ∧ r.failed = 0) ∧
        (∀ sessionId ∈ o.allowedSessionIds,
          Converged o (s.registrations sessionId) (u.registrations sessionId)) ∧
        ∀ sessionId ∉ o.allowedSessionIds,
          u.registrations sessionId = s.registrations sessionId := by
  have hi := reachable_inv hs
  have hc : Converging o s t p := by
    have hstep := hstart
    simp only [step, begin, Option.ite_none_right_eq_some, Option.some.injEq] at hstart
    obtain ⟨_, rfl⟩ := hstart
    refine converging_advance ⟨inv_step hi hstep trivial, ?_, ?_, ?_, ?_⟩ rfl (fun _ hx => hx)
      fun x hx hnot => absurd hx hnot
    · exact fun x => by rw [advance_registrations.1]
    · exact fun x r hr => ⟨r, by rwa [advance_registrations.1], o.localeCompare.le_self _⟩
    · exact fun x _ i hi => by rwa [advance_registrations.1] at hi
    · exact fun x _ => by rw [advance_registrations.1]
  refine ⟨pass_ends hc, fun es u hes hall hnone => ?_⟩
  have hu := converging_run hc hes hall
  have hend := hu.finished hnone
  exact ⟨hend.report, fun x hx => along_converged hu.along (hend.settled x hx), hu.along.outside⟩

theorem duplicates_converge : ∃ t, step callbackOptions duplicated (.start 0) = some t ∧
    ∃ es u, Execution (system callbackOptions) t es u ∧
      Converged callbackOptions (duplicated.registrations "session-one")
        (u.registrations "session-one") := by
  obtain ⟨t, ht⟩ : ∃ t, step callbackOptions duplicated (.start 0) = some t := ⟨_, rfl⟩
  obtain ⟨⟨es, u, hes, hall, hnone⟩, hend⟩ :=
    registrations_converge (reachable_of_initial duplicated_initial) ht
  exact ⟨t, ht, es, u, hes, (hend es u hes hall hnone).2.1 "session-one" (by decide)⟩

end RegistrationConvergence
