import WaRuntime.ConfirmationStreaks
import WaRuntime.GatewayDiscovery
import WaRuntime.Utf16Order

/-! The guard against destructive snapshots.
Beside the tables the state keeps the discoveries of each session, the last one first. -/
namespace SnapshotGuard

open TransitionRuns GatewayDiscovery
open GroupCapabilityRevision (GroupKey)
open ConfirmationStreaks (Memory Observation PutOff Remembers follows observe)

variable {Hash : Type}

/-- A discovery, with the baseline that its count has been compared with. -/
structure Discovery where
  groups : List OpenWAGroupSummary
  baseline : ℕ
  deferred : Bool
  deriving DecidableEq, Repr

def Discovery.ids (d : Discovery) : List GroupId := d.groups.map OpenWAGroupSummary.id

def Discovery.Suspicious (c : Config Hash) (d : Discovery) : Prop :=
  GatewayDiscovery.Suspicious c d.baseline d.groups.length

instance (c : Config Hash) (d : Discovery) : Decidable (d.Suspicious c) :=
  inferInstanceAs (Decidable (GatewayDiscovery.Suspicious c d.baseline d.groups.length))

/-- An earlier discovery that counts towards the confirmation of this one. -/
structure Discovery.ConfirmedBy (c : Config Hash) (d earlier : Discovery) : Prop where
  suspicious : earlier.Suspicious c
  deferred : earlier.deferred = true
  same : earlier.ids.Perm d.ids

/-- The last of the required number in a row; what stands before them is no part of the row. -/
def Discovery.Confirmed (c : Config Hash) (d : Discovery) (older : List Discovery) : Prop :=
  ∃ recent rest, older = recent ++ rest ∧ recent.length + 1 = c.confirmations ∧
    (∀ earlier ∈ recent, d.ConfirmedBy c earlier) ∧
    ∀ earlier ∈ rest.head?, ¬ d.ConfirmedBy c earlier

structure State (Hash : Type) where
  base : GatewayDiscovery.State Hash
  log : SessionId → List Discovery

section Step

variable [DecidableEq Hash] (c : Config Hash)

/-- The discovery that an event makes. -/
def discovery (s : GatewayDiscovery.State Hash) : Event → Option (SessionId × Discovery)
  | .publishDiscovery now staleBefore fence unseen groups =>
    match ownedRun s now fence, publishDiscovery c s now staleBefore fence unseen groups with
    | some run, some (_, result) =>
      (s.sessions run.sessionId).map fun session =>
        (run.sessionId,
          ⟨groups, baseline session (existing s run.sessionId unseen), result.deferred⟩)
    | _, _ => none
  | _ => none

def step (s : State Hash) (e : Event) : Option (State Hash) :=
  (GatewayDiscovery.step c s.base e).map fun base =>
    { base := base
      log :=
        match discovery c s.base e with
        | some (sessionId, d) => Function.update s.log sessionId (d :: s.log sessionId)
        | none => s.log }

def system : System (State Hash) Event :=
  ofStep (· = ⟨GatewayDiscovery.initial, fun _ => []⟩) (step c)

end Step

section Memories

variable (c : Config Hash)

/-- What the session's row remembers. -/
def rowMemory (session : SessionRow Hash) : Memory (Hash × ℕ) where
  doubt := session.suspiciousFingerprint.bind fun fingerprint =>
    session.suspiciousCount.map fun count => (fingerprint, count)
  confirmations := session.suspiciousConfirmations

def memory (s : GatewayDiscovery.State Hash) (sessionId : SessionId) : Memory (Hash × ℕ) :=
  (s.sessions sessionId).elim Memory.none rowMemory

def doubt (d : Discovery) : Option (Hash × ℕ) :=
  if d.Suspicious c then some (snapshotFingerprint c d.groups, d.groups.length) else none

def observation (d : Discovery) : Observation (Hash × ℕ) := ⟨doubt c d, !d.deferred⟩

variable {c} {d earlier : Discovery}

theorem same_snapshot_iff (hash : Function.Injective c.snapshotDigest) (a b : Discovery) :
    snapshotFingerprint c a.groups = snapshotFingerprint c b.groups ↔ a.ids.Perm b.ids := by
  unfold snapshotFingerprint
  rw [hash.eq_iff, Utf16Order.sort_eq, Utf16Order.sort_eq, Utf16Order.utf16.sort_eq_iff_perm]
  rfl

theorem putOff_iff (hash : Function.Injective c.snapshotDigest) (d earlier : Discovery) :
    PutOff (snapshotFingerprint c d.groups, d.groups.length) (observation c earlier) ↔
      d.ConfirmedBy c earlier := by
  have hlength : earlier.ids.Perm d.ids → earlier.groups.length = d.groups.length := by
    intro hperm
    have hids := hperm.length_eq
    simpa [Discovery.ids] using hids
  constructor
  · rintro ⟨hdoubt, hfollowed⟩
    simp only [observation, doubt] at hdoubt hfollowed
    split at hdoubt
    · rename_i hsuspicious
      have hsame := congrArg Prod.fst (Option.some.inj hdoubt)
      exact ⟨hsuspicious, by simpa using hfollowed, (same_snapshot_iff hash earlier d).mp hsame⟩
    · cases hdoubt
  · rintro ⟨hsuspicious, hdeferred, hsame⟩
    have hfingerprint := (same_snapshot_iff hash earlier d).mpr hsame
    refine ⟨?_, by simp [observation, hdeferred]⟩
    simp [observation, doubt, hsuspicious, hfingerprint, hlength hsame]

variable [DecidableEq Hash]

/-- `publishDiscovery` confirms as the memory of the row does. -/
theorem confirmations_eq (session : SessionRow Hash) (fingerprint : Hash) (count : ℕ) :
    confirmations session fingerprint count =
      ConfirmationStreaks.confirmations (rowMemory session) (fingerprint, count) := by
  unfold confirmations ConfirmationStreaks.confirmations rowMemory
  cases session.suspiciousFingerprint <;> cases session.suspiciousCount <;> simp

theorem confirmed_iff (hash : Function.Injective c.snapshotDigest) {m : Memory (Hash × ℕ)}
    {older : List Discovery} (h : Remembers c.confirmations m (older.map (observation c)))
    (hd : d.Suspicious c) :
    follows c.confirmations m (doubt c d) = true ↔ d.Confirmed c older := by
  have hdoubt : doubt c d = some (snapshotFingerprint c d.groups, d.groups.length) := if_pos hd
  rw [hdoubt, ConfirmationStreaks.follows_iff h]
  constructor
  · rintro ⟨recent, rest, hsplit, hlength, hrecent, hrest⟩
    obtain ⟨recent, rest, rfl, rfl, rfl⟩ := List.map_eq_append_iff.mp hsplit
    refine ⟨recent, rest, rfl, by simpa using hlength, fun earlier hmem => ?_, fun earlier hmem => ?_⟩
    · exact (putOff_iff hash d earlier).mp (hrecent _ (List.mem_map_of_mem hmem))
    · rw [← putOff_iff hash]
      exact hrest _ (by simp [Option.mem_def.mp hmem])
  · rintro ⟨recent, rest, rfl, hlength, hrecent, hrest⟩
    refine ⟨recent.map (observation c), rest.map (observation c), by simp, by simpa using hlength,
      fun o ho => ?_, fun o ho => ?_⟩
    · obtain ⟨earlier, hmem, rfl⟩ := List.mem_map.mp ho
      exact (putOff_iff hash d earlier).mpr (hrecent earlier hmem)
    · rw [List.head?_map] at ho
      obtain ⟨earlier, hmem, rfl⟩ := Option.map_eq_some_iff.mp ho
      rw [putOff_iff hash]
      exact hrest earlier hmem

end Memories

section Runs

variable [DecidableEq Hash] {c : Config Hash} {b v : GatewayDiscovery.State Hash}
  {s u : State Hash} {e : Event} {sessionId : SessionId} {d : Discovery}

theorem discovered (h : GatewayDiscovery.step c b e = some v)
    (hd : discovery c b e = some (sessionId, d)) :
    ∃ now r run session, b.runs r = some run ∧ run.leaseToken.isSome ∧
      run.sessionId = sessionId ∧ b.sessions sessionId = some session ∧
      ((d.Suspicious c ∧ d.deferred = true ∧
          confirmations session (snapshotFingerprint c d.groups) d.groups.length <
            c.confirmations ∧
          v = defer c b now r run session d.groups
            (confirmations session (snapshotFingerprint c d.groups) d.groups.length)) ∨
        ((d.Suspicious c → c.confirmations ≤
            confirmations session (snapshotFingerprint c d.groups) d.groups.length) ∧
          d.deferred = false ∧
          ∃ staleBefore unseen, v = publish c b now staleBefore r run unseen d.groups)) := by
  cases e with
  | publishDiscovery now staleBefore fence unseen groups =>
    obtain ⟨⟨_, result⟩, hresult, rfl⟩ := Option.map_eq_some_iff.mp h
    obtain ⟨run, session, hrun, hsession, _, hcases⟩ := publishDiscovery_some hresult
    simp only [discovery, hrun, hresult, hsession, Option.map_some, Option.some.injEq,
      Prod.mk.injEq] at hd
    obtain ⟨rfl, rfl⟩ := hd
    obtain ⟨hfound, _, htoken, _⟩ := ownedRun_some hrun
    refine ⟨now, fence.syncRunId, run, session, hfound, by simp [htoken], rfl, hsession, ?_⟩
    obtain ⟨hsuspicious, hfew, hdeferred, hv⟩ | ⟨henough, hdeferred, hv⟩ := hcases
    · exact .inl ⟨hsuspicious, hdeferred, hfew, hv⟩
    · exact .inr ⟨henough, hdeferred, staleBefore, unseen, hv⟩
  | _ => cases hd

/-- Nothing but a discovery writes what the row of a session remembers. -/
theorem memory_kept (h : GatewayDiscovery.step c b e = some v) (hd : discovery c b e = none)
    (sessionId : SessionId) : memory v sessionId = memory b sessionId := by
  have hkeep : v.sessions = b.sessions → memory v sessionId = memory b sessionId := by
    intro hsessions
    unfold memory
    rw [hsessions]
  obtain ⟨id, rfl⟩ | honly | ⟨_, _, _, _, _, _, rfl, hresult⟩ | ⟨_, _, _, _, hitem⟩ |
    ⟨_, _, _, rfl⟩ := step_cases h
  · by_cases hid : sessionId = id
    · subst hid
      cases hrow : b.sessions sessionId <;> simp [memory, hrow, rowMemory, Memory.none]
    · simp [memory, Function.update_of_ne hid]
  · exact hkeep honly.sessions
  · obtain ⟨run, session, hrun, hsession, _⟩ := publishDiscovery_some hresult
    simp [discovery, hrun, hresult, hsession] at hd
  · obtain ⟨_, _, _, _, _, _, _, hv, _⟩ := updateItem_some hitem
    exact hkeep (by rw [hv])
  · exact hkeep rfl

/-- A discovery advances what the row remembers, and is followed as that tells. -/
theorem memory_discovered (h : GatewayDiscovery.step c b e = some v)
    (hd : discovery c b e = some (sessionId, d)) :
    memory v sessionId = observe c.confirmations (memory b sessionId) (doubt c d) ∧
      (!d.deferred) = follows c.confirmations (memory b sessionId) (doubt c d) ∧
      ∀ other, other ≠ sessionId → memory v other = memory b other := by
  obtain ⟨now, r, run, session, _, _, rfl, hsession, hcases⟩ := discovered h hd
  have hmemory : memory b run.sessionId = rowMemory session := by simp [memory, hsession]
  rw [hmemory]
  obtain ⟨hsuspicious, hdeferred, hfew, rfl⟩ | ⟨henough, hdeferred, staleBefore, unseen, rfl⟩ := hcases
  · rw [confirmations_eq] at hfew
    refine ⟨?_, ?_, fun other hother => ?_⟩
    · rw [doubt, if_pos hsuspicious, observe, if_neg (Nat.not_le.mpr hfew)]
      simp [memory, defer, rowMemory, confirmations_eq]
    · simp [hdeferred, doubt, hsuspicious, follows, Nat.not_le.mpr hfew]
    · simp [memory, defer, Function.update_of_ne hother]
  · refine ⟨?_, ?_, fun other hother => ?_⟩
    · have hpublished : memory (publish c b now staleBefore r run unseen d.groups) run.sessionId =
          Memory.none := by
        simp [memory, publish, rowMemory, Memory.none]
      rw [hpublished]
      by_cases hsuspicious : d.Suspicious c
      · have hall := henough hsuspicious
        rw [confirmations_eq] at hall
        simp [observe, doubt, hsuspicious, hall]
      · simp [observe, doubt, hsuspicious]
    · by_cases hsuspicious : d.Suspicious c
      · have hall := henough hsuspicious
        rw [confirmations_eq] at hall
        simp [hdeferred, follows, doubt, hsuspicious, hall]
      · simp [hdeferred, follows, doubt, hsuspicious]
    · simp [memory, publish, Function.update_of_ne hother]

/-- The row of each session remembers its log. -/
def Remembered (c : Config Hash) (s : State Hash) : Prop :=
  ∀ sessionId, Remembers c.confirmations (memory s.base sessionId)
    ((s.log sessionId).map (observation c))

theorem step_some (h : step c s e = some u) : GatewayDiscovery.step c s.base e = some u.base ∧
    ((discovery c s.base e = none ∧ u.log = s.log) ∨
      ∃ sessionId d, discovery c s.base e = some (sessionId, d) ∧
        u.log = Function.update s.log sessionId (d :: s.log sessionId)) := by
  obtain ⟨base, hbase, rfl⟩ := Option.map_eq_some_iff.mp h
  refine ⟨hbase, ?_⟩
  cases hd : discovery c s.base e with
  | none => exact .inl ⟨rfl, rfl⟩
  | some found => exact .inr ⟨found.1, found.2, rfl, rfl⟩

theorem remembered_step (hI : Remembered c s) (h : step c s e = some u) : Remembered c u := by
  intro id
  obtain ⟨hbase, ⟨hd, hlog⟩ | ⟨sessionId, d, hd, hlog⟩⟩ := step_some h
  · rw [hlog, memory_kept hbase hd]
    exact hI id
  · obtain ⟨hmemory, hfollows, hothers⟩ := memory_discovered hbase hd
    by_cases hid : id = sessionId
    · subst hid
      have hpos : 0 < c.confirmations := by
        have := c.confirmations_min
        omega
      have hobservation : observation c d =
          ⟨doubt c d, follows c.confirmations (memory s.base id) (doubt c d)⟩ := by
        rw [← hfollows]
        rfl
      rw [hlog, Function.update_self, List.map_cons, hmemory, hobservation]
      exact ConfirmationStreaks.remembers_observe hpos (hI id) (doubt c d)
    · rw [hlog, Function.update_of_ne hid, hothers id hid]
      exact hI id

theorem reachable_remembered (h : Reachable (system c) s) : Remembered c s := by
  refine reachable_invariant ?_ (fun _ _ hI he => remembered_step hI (ofStep_enabled he)) h
  rintro _ rfl sessionId
  have hmin := c.confirmations_min
  exact ConfirmationStreaks.remembers_nothing (by omega)

theorem reachable_base (h : Reachable (system c) s) :
    Reachable (GatewayDiscovery.system c) s.base := by
  refine (projects_ofStep ?_ fun t e u h => ?_).reachable h
  · rintro _ rfl
    rfl
  · exact ⟨[e], ofStep_execution (step_some h).1⟩

/-- Every discovery in the log was put off or published as those before it required. -/
def Judged (c : Config Hash) (s : State Hash) : Prop :=
  ∀ sessionId newer d older, s.log sessionId = newer ++ d :: older →
    (d.deferred = true ↔ d.Suspicious c ∧ ¬ d.Confirmed c older)

theorem judged_step (hash : Function.Injective c.snapshotDigest) (hI : Remembered c s)
    (hJ : Judged c s) (h : step c s e = some u) : Judged c u := by
  intro id newer d older hlog
  obtain ⟨hbase, ⟨_, hsame⟩ | ⟨sessionId, made, hmade, hgrown⟩⟩ := step_some h
  · rw [hsame] at hlog
    exact hJ id newer d older hlog
  · by_cases hid : id = sessionId
    · subst hid
      rw [hgrown, Function.update_self] at hlog
      cases newer with
      | cons _ newer => exact hJ id newer d older (List.cons.inj hlog).2
      | nil =>
        obtain ⟨rfl, rfl⟩ := List.cons.inj hlog
        obtain ⟨_, hfollows, _⟩ := memory_discovered hbase hmade
        by_cases hsuspicious : made.Suspicious c
        · rw [← confirmed_iff hash (hI id) hsuspicious, ← hfollows]
          simp [hsuspicious]
        · rw [doubt, if_neg hsuspicious] at hfollows
          have hpublished : made.deferred = false := by simpa [follows] using hfollows
          simp [hsuspicious, hpublished]
    · rw [hgrown, Function.update_of_ne hid] at hlog
      exact hJ id newer d older hlog

theorem reachable_judged (hash : Function.Injective c.snapshotDigest)
    (h : Reachable (system c) s) : Judged c s := by
  refine reachable_invariant_with (fun _ hr => reachable_remembered hr) ?_
    (fun _ _ hI hJ he => judged_step hash hI hJ (ofStep_enabled he)) h
  rintro _ rfl sessionId newer d older hlog
  cases newer <;> cases hlog

end Runs

section Deactivations

open GroupCapabilityStatements GroupCapabilityRevision

variable [DecidableEq Hash] {c : Config Hash} {b v : GatewayDiscovery.State Hash} {e : Event}
  {key : GroupKey} {sessionId : SessionId} {d : Discovery}

/-- Only a published list can deactivate a group. -/
theorem active_kept (groups : Groups) {event : GroupEvent} {row : GroupRow}
    (hevent : ∀ sessionId now listed, event ≠ .replaceSummaries sessionId now listed)
    (hrow : groups key = some row) (ha : row.isActive = true) :
    ∃ new, next groups event key = some new ∧ new.isActive = true := by
  have hupdate : ∀ (other : GroupKey) (f : GroupRow → Option GroupRow),
      (∀ old new, f old = some new → new.isActive = old.isActive) →
      ∃ new, Function.update groups other ((groups other).map (updateGroup f)) key = some new ∧
        new.isActive = true := by
    intro other f hf
    by_cases hk : key = other
    · subst hk
      refine ⟨updateGroup f row, by simp [hrow], ?_⟩
      unfold updateGroup
      cases hnew : f row with
      | none => exact ha
      | some new => exact (hf row new hnew).trans ha
    · exact ⟨row, by rw [Function.update_of_ne hk, hrow], ha⟩
  cases event with
  | invalidate other now reason =>
    refine hupdate other _ fun old new h => ?_
    unfold invalidate at h
    split at h <;> cases h
    rfl
  | invalidateByEvent other now =>
    refine hupdate other _ fun old new h => ?_
    unfold invalidateByEvent at h
    split at h <;> cases h
    rfl
  | claim other now token revision discovering =>
    refine hupdate other _ fun old new h => ?_
    unfold claimRefresh at h
    split at h <;> cases h
    rfl
  | failAttempt other now revision token error retryable =>
    refine hupdate other _ fun old new h => ?_
    unfold failRefreshAttempt at h
    split at h
    · split at h <;> cases h <;> rfl
    · cases h
  | recoverExpired now =>
    have h := hupdate key (recoverExpiredRefresh now) fun old new h => by
      unfold recoverExpiredRefresh at h
      split at h <;> cases h
      rfl
    rw [Function.update_self] at h
    exact h
  | replaceSummaries sessionId now listed => exact (hevent _ _ _ rfl).elim
  | upsertGroupDetails other now options group found =>
    by_cases hk : key = other
    · subst hk
      simp only [next, Function.update_self, upsertGroupDetails, hrow]
      cases found <;> simp only [Bool.false_eq_true, if_true, if_false]
      all_goals
        split
        · exact ⟨_, rfl, rfl⟩
        · exact ⟨row, rfl, ha⟩
    · exact ⟨row, by simp [next, Function.update_of_ne hk, hrow], ha⟩

theorem listed_active (now : ℕ) (summary : GroupCapabilityStatements.OpenWAGroupSummary)
    (row : Option GroupRow) :
    (updateGroup (denyInactive now) (upsertSummary now summary row)).isActive = true := by
  have hactive : (upsertSummary now summary row).isActive = true := by
    cases row with
    | none => rfl
    | some row =>
      unfold upsertSummary
      simp only
      split
      · rename_i ha
        exact ha
      · rfl
  have hkeep : denyInactive now (upsertSummary now summary row) = none := by
    simp [denyInactive, hactive]
  rw [updateGroup, hkeep]
  exact hactive

/-- A group becomes inactive in a published discovery of its session that does not list it. -/
theorem deactivated (h : GatewayDiscovery.step c b e = some v) {old new : GatewayGroup Hash}
    (hold : b.groups key = some old) (ha : old.row.isActive = true)
    (hnew : v.groups key = some new) (hi : new.row.isActive = false) :
    ∃ d, discovery c b e = some (key.1, d) ∧ d.deferred = false ∧ key.2 ∉ d.ids := by
  by_cases hpublish : ∃ now staleBefore fence unseen groups,
      e = .publishDiscovery now staleBefore fence unseen groups
  · obtain ⟨now, staleBefore, fence, unseen, groups, rfl⟩ := hpublish
    obtain ⟨⟨_, result⟩, hresult, rfl⟩ := Option.map_eq_some_iff.mp h
    obtain ⟨run, session, hrun, hsession, _, ⟨_, _, _, rfl⟩ | ⟨_, hdeferred, rfl⟩⟩ :=
      publishDiscovery_some hresult
    · have hsame : b.groups key = some new := hnew
      rw [hold] at hsame
      cases hsame
      exact absurd (ha.symm.trans hi) (by decide)
    · have hkey : key.1 = run.sessionId := by
        by_contra hk
        have hsame : b.groups key = some new := by simpa [publish, hk] using hnew
        rw [hold] at hsame
        cases hsame
        exact absurd (ha.symm.trans hi) (by decide)
      refine ⟨⟨groups, baseline session (existing b run.sessionId unseen), result.deferred⟩,
        by simp [discovery, hrun, hresult, hsession, hkey], hdeferred, ?_⟩
      intro hlisted
      obtain ⟨summary, hsummary, hid⟩ := List.mem_map.mp hlisted
      have hfound : (groups.find? fun group => group.id = key.2).isSome :=
        List.find?_isSome.mpr ⟨summary, hsummary, by simpa using hid⟩
      obtain ⟨found, hfound⟩ := Option.isSome_iff_exists.mp hfound
      simp only [publish, hkey, if_true, hfound, publishedGroup, Option.map_some, replaceSummary,
        Option.some.injEq] at hnew
      rw [← hnew] at hi
      exact absurd ((listed_active ..).symm.trans hi) (by decide)
  · push Not at hpublish
    have hactive : ∃ row, (v.groups key).map GatewayGroup.row = some row ∧ row.isActive = true := by
      have hrow : (b.groups key).map GatewayGroup.row = some old.row := by rw [hold]; rfl
      obtain hkeep | ⟨event, hevent, hnext⟩ := group_kept h hpublish key
      · exact ⟨old.row, hkeep.trans hrow, ha⟩
      · rw [hnext]
        exact active_kept (fun key => (b.groups key).map GatewayGroup.row) hevent hrow ha
    obtain ⟨row, hrow, hactive⟩ := hactive
    rw [hnew] at hrow
    cases hrow
    exact absurd (hactive.symm.trans hi) (by decide)

end Deactivations

section Guard

variable [DecidableEq Hash] {c : Config Hash} {s u : State Hash} {e : Event}
  {sessionId : SessionId} {d : Discovery}

theorem logged (h : step c s e = some u) :
    u.log sessionId = d :: s.log sessionId ↔ discovery c s.base e = some (sessionId, d) := by
  obtain ⟨_, ⟨hd, hlog⟩ | ⟨id, made, hd, hlog⟩⟩ := step_some h
  · simp [hlog, hd]
  · rw [hlog, hd]
    by_cases hid : sessionId = id
    · subst hid
      simp [eq_comm]
    · simp [Function.update_of_ne hid, Ne.symm hid]

theorem deferred_discovery (hr : Reachable (system c) s) (h : step c s e = some u)
    (hd : discovery c s.base e = some (sessionId, d)) (hdeferred : d.deferred = true) :
    u.base.groups = s.base.groups ∧ u.base.items = s.base.items ∧
      ∃ r old new, s.base.runs r = some old ∧ old.sessionId = sessionId ∧
        u.base.runs r = some new ∧ new.status = .pending ∧
        new.attemptCount + 1 = old.attemptCount := by
  obtain ⟨hbase, _⟩ := step_some h
  obtain ⟨now, r, run, session, hrun, hlease, hsession, _, ⟨_, _, _, hu⟩ | ⟨_, hpublished, _⟩⟩ :=
    discovered hbase hd
  · have hcounted := reachable_counted (reachable_base hr) r run hrun hlease
    rw [hu]
    refine ⟨rfl, rfl, r, run, deferredRun now run, hrun, hsession, Function.update_self .., rfl, ?_⟩
    exact Nat.sub_add_cancel hcounted
  · exact absurd (hdeferred.symm.trans hpublished) (by decide)

/-- A discovery is put off exactly when it is suspicious and not the last of the required number in
a row. Putting it off leaves the groups alone and gives the attempt back, and no other step than a
publication makes a group inactive. -/
theorem destructive_snapshots_confirmed (hash : Function.Injective c.snapshotDigest)
    (hr : Reachable (system c) s) (h : step c s e = some u) :
    (∀ sessionId newer d older, u.log sessionId = newer ++ d :: older →
      (d.deferred = true ↔ d.Suspicious c ∧ ¬ d.Confirmed c older)) ∧
    (∀ sessionId d, u.log sessionId = d :: s.log sessionId → d.deferred = true →
      u.base.groups = s.base.groups ∧ u.base.items = s.base.items ∧
        ∃ r old new, s.base.runs r = some old ∧ old.sessionId = sessionId ∧
          u.base.runs r = some new ∧ new.status = .pending ∧
          new.attemptCount + 1 = old.attemptCount) ∧
    ∀ (key : GroupKey) old new, s.base.groups key = some old → old.row.isActive = true →
      u.base.groups key = some new → new.row.isActive = false →
      ∃ d, u.log key.1 = d :: s.log key.1 ∧ d.deferred = false ∧ key.2 ∉ d.ids := by
  refine ⟨?_, ?_, ?_⟩
  · have hjudged := judged_step hash (reachable_remembered hr) (reachable_judged hash hr) h
    exact hjudged
  · intro sessionId d hlog hdeferred
    exact deferred_discovery hr h ((logged h).mp hlog) hdeferred
  · intro key old new hold ha hnew hi
    obtain ⟨hbase, _⟩ := step_some h
    obtain ⟨d, hd, hpublished, hlisted⟩ := deactivated hbase hold ha hnew hi
    exact ⟨d, (logged h).mpr hd, hpublished, hlisted⟩

def plainSystem : System (State (List String)) Event := system plainConfig

instance (s : State (List String)) (e : Event) : Decidable (plainSystem.enabled s e) :=
  inferInstanceAs (Decidable ((step plainConfig s e).isSome = true))

/-- Two groups are known, and an empty list of groups arrives. -/
def firstReduction : List Event :=
  [.upsertSession "session",
    .group (.upsertGroupDetails ("session", "group-1") 0 ⟨none, none⟩ ⟨none, none, none, none⟩ false),
    .group (.upsertGroupDetails ("session", "group-2") 0 ⟨none, none⟩ ⟨none, none, none, none⟩ false),
    .createRun 0 0 "session" .incremental, .claimRun 0 0 1,
    .publishDiscovery 10 0 ⟨0, 1, 1⟩ [] [], .claimRun 0 6000 2]

def secondReduction : Event := .publishDiscovery 6010 0 ⟨0, 2, 2⟩ [] []

def reducedState : State (List String) :=
  runTrace plainSystem ⟨GatewayDiscovery.initial, fun _ => []⟩ firstReduction

/-- The second empty list deactivates both groups. -/
theorem second_reduction_confirmed :
    (⟨[], 2, false⟩ : Discovery).Confirmed plainConfig [⟨[], 2, true⟩] ∧
      (plainSystem.next reducedState secondReduction).log "session" =
        ⟨[], 2, false⟩ :: reducedState.log "session" := by
  have hvalid : ValidTrace plainSystem ⟨GatewayDiscovery.initial, fun _ => []⟩ firstReduction := by
    decide +kernel
  have hreach : Reachable plainSystem reducedState := ⟨_, valid_trace_run rfl hvalid⟩
  have henabled : plainSystem.enabled reducedState secondReduction := by decide +kernel
  have hlog : (plainSystem.next reducedState secondReduction).log "session" =
      [⟨[], 2, false⟩, ⟨[], 2, true⟩] := by decide +kernel
  have hbefore : reducedState.log "session" = [⟨[], 2, true⟩] := by decide +kernel
  obtain ⟨hjudged, _⟩ := destructive_snapshots_confirmed (fun _ _ h => h) hreach
    (ofStep_enabled henabled)
  have hsuspicious : (⟨[], 2, false⟩ : Discovery).Suspicious plainConfig := by decide +kernel
  have hpublished := hjudged "session" [] ⟨[], 2, false⟩ [⟨[], 2, true⟩] hlog
  rw [hbefore]
  refine ⟨?_, hlog⟩
  by_contra hfew
  exact absurd (hpublished.mpr ⟨hsuspicious, hfew⟩) (by decide)

end Guard

end SnapshotGuard
