import WaRuntime.ContactSnapshots

/-! The publication of a contact snapshot is fenced, and takes all of it or nothing.
What the calls of a session have been is kept beside its rows, so that the staged rows can be
compared with the pages, and the evidence with the completions. -/
namespace SnapshotPublication

open TransitionRuns ContactNormalization ContactEvidence ContactSnapshots

section Calls

variable {c : Config} {s u : Snapshots} {call : Call} {calls : List Call}

/-- A page that was ingested under the claim has the row. -/
def Ingested (c : Config) (calls : List Call) (claim : SnapshotClaim) (row : SnapshotObservation) :
    Prop :=
  ∃ now contacts, Call.ingestObservedPage claim now contacts ∈ calls ∧
    row ∈ pageRows c.texts claim.generation now contacts

/-- What the calls of a session have left in its rows. -/
structure Recorded (c : Config) (calls : List Call) (s : Snapshots) : Prop where
  owned : ∀ claim now contacts, .ingestObservedPage claim now contacts ∈ calls → claim ∈ s.claims
  pages : ∀ claim row, Ingested c calls claim row → ∀ r ∈ s.generations,
    r.generation = claim.generation → ∃ o ∈ s.stagedOf r.generation, Agrees o row
  staged : ∀ p ∈ s.staged, ∃ claim, claim.generation = p.1 ∧ Ingested c calls claim p.2
  completed : ∀ draw claim now records intervalMs,
    .complete draw claim now records intervalMs ∈ calls → claim ∈ s.claims ∧
      ∀ r ∈ s.generations, r.generation = claim.generation → r.state = .published

theorem ingested_append {claim : SnapshotClaim} {row : SnapshotObservation} :
    Ingested c (calls ++ [call]) claim row ↔ Ingested c calls claim row ∨
      ∃ now contacts, call = .ingestObservedPage claim now contacts ∧
        row ∈ pageRows c.texts claim.generation now contacts := by
  constructor
  · rintro ⟨now, contacts, hcall, hrow⟩
    rcases List.mem_append.mp hcall with hcall | hcall
    · exact .inl ⟨now, contacts, hcall, hrow⟩
    · exact .inr ⟨now, contacts, (List.mem_singleton.mp hcall).symm, hrow⟩
  · rintro (⟨now, contacts, hcall, hrow⟩ | ⟨now, contacts, rfl, hrow⟩)
    · exact ⟨now, contacts, List.mem_append_left _ hcall, hrow⟩
    · exact ⟨now, contacts, List.mem_append_right _ (List.mem_singleton_self _), hrow⟩

/-- A call that stages nothing and leaves every generation, or turns it into another state. -/
theorem recorded_kept (h : Recorded c calls s) (hstaged : u.staged = s.staged)
    (hclaims : u.claims = s.claims)
    (hgenerations : ∀ r ∈ u.generations, ∃ r₀ ∈ s.generations, r.generation = r₀.generation ∧
      (r₀.state = .published → r.state = .published))
    (hcall : ∀ claim now contacts, call ≠ .ingestObservedPage claim now contacts)
    (hcomplete : ∀ draw claim now records intervalMs,
      call = .complete draw claim now records intervalMs → claim ∈ s.claims ∧
        ∀ r ∈ u.generations, r.generation = claim.generation → r.state = .published) :
    Recorded c (calls ++ [call]) u := by
  have hsame : ∀ g, u.stagedOf g = s.stagedOf g := by
    intro g
    unfold Snapshots.stagedOf
    rw [hstaged]
  constructor
  · intro claim now contacts hmem
    rw [hclaims]
    rcases List.mem_append.mp hmem with hmem | hmem
    · exact h.owned claim now contacts hmem
    · exact absurd (List.mem_singleton.mp hmem).symm (hcall claim now contacts)
  · intro claim row hrow r hr hg
    obtain ⟨r₀, hr₀, hr₀g, _⟩ := hgenerations r hr
    rcases ingested_append.mp hrow with hrow | ⟨now, contacts, heq, _⟩
    · rw [hsame, hr₀g]
      exact h.pages claim row hrow r₀ hr₀ (hr₀g.symm.trans hg)
    · exact absurd heq (hcall claim now contacts)
  · intro p hp
    rw [hstaged] at hp
    obtain ⟨claim, hg, hrow⟩ := h.staged p hp
    exact ⟨claim, hg, ingested_append.mpr (.inl hrow)⟩
  · intro draw claim now records intervalMs hmem
    rcases List.mem_append.mp hmem with hmem | hmem
    · obtain ⟨hclaim, hpublished⟩ := h.completed draw claim now records intervalMs hmem
      refine ⟨hclaims ▸ hclaim, fun r hr hg => ?_⟩
      obtain ⟨r₀, hr₀, hr₀g, hs⟩ := hgenerations r hr
      exact hs (hpublished r₀ hr₀ (hr₀g.symm.trans hg))
    · obtain ⟨hclaim, hpublished⟩ :=
        hcomplete draw claim now records intervalMs (List.mem_singleton.mp hmem).symm
      exact ⟨hclaims ▸ hclaim, hpublished⟩

theorem begin_recorded {now token : ℕ} {force : Bool} {resolved : Option ℕ} (hf : Fenced s)
    (h : Recorded c calls s) (hu : begin_ c now token force resolved s = some u) :
    Recorded c (calls ++ [.begin_ now token force resolved]) u := by
  obtain ⟨row, gone, hrow, rfl⟩ := begin_some hu
  have hnext := (claimSync_some hrow).1
  constructor
  · intro claim now contacts hmem
    rcases List.mem_append.mp hmem with hmem | hmem
    · exact List.mem_append_left _ (h.owned claim now contacts hmem)
    · cases List.mem_singleton.mp hmem
  · intro claim o ho r hr hg
    rcases ingested_append.mp ho with ho | ⟨_, _, heq, _⟩
    · rcases List.mem_append.mp hr with hr | hr
      · obtain ⟨hkept, r₀, hr₀, rfl⟩ := kept_generation hr
        rw [(expire_generation now row.syncGeneration r₀).1] at hg hkept ⊢
        obtain ⟨staged, hstaged, hagrees⟩ := h.pages claim o ho r₀ hr₀ hg
        refine ⟨staged, mem_stagedOf.mpr (List.mem_filter.mpr ⟨mem_stagedOf.mp hstaged, ?_⟩),
          hagrees⟩
        simp [hkept]
      · -- nothing was ingested for a generation that is only now begun
        obtain ⟨now, contacts, hmem, _⟩ := ho
        have hbound := hf.claimed claim (h.owned claim now contacts hmem)
        rw [List.mem_singleton.mp hr] at hg
        have hnew : row.syncGeneration = claim.generation := hg
        omega
    · cases heq
  · intro p hp
    obtain ⟨claim, hg, ho⟩ := h.staged p (List.mem_filter.mp hp).1
    exact ⟨claim, hg, ingested_append.mpr (.inl ho)⟩
  · intro draw claim at_ records intervalMs hmem
    rcases List.mem_append.mp hmem with hmem | hmem
    · obtain ⟨hclaim, hpublished⟩ := h.completed draw claim at_ records intervalMs hmem
      refine ⟨List.mem_append_left _ hclaim, fun r hr hg => ?_⟩
      rcases List.mem_append.mp hr with hr | hr
      · obtain ⟨_, r₀, hr₀, rfl⟩ := kept_generation hr
        have hs := hpublished r₀ hr₀ ((expire_generation now row.syncGeneration r₀).1.symm.trans hg)
        rw [(expire_generation now row.syncGeneration r₀).2.2.1 (by simp [hs])]
        exact hs
      · have hbound := hf.claimed claim hclaim
        rw [List.mem_singleton.mp hr] at hg
        have hnew : row.syncGeneration = claim.generation := hg
        omega
    · cases List.mem_singleton.mp hmem

theorem ingest_recorded {claim : SnapshotClaim} {now : ℕ} {contacts : List OpenWAContact}
    (h : Recorded c calls s) (hclaim : claim ∈ s.claims)
    (hu : ingestObservedPage c claim now contacts s = some u) :
    Recorded c (calls ++ [.ingestObservedPage claim now contacts]) u := by
  have hmoved : u.claims = s.claims ∧ u.generations = s.generations ∧
      (∀ p ∈ s.staged, p ∈ u.staged) ∧
      (∀ p ∈ u.staged, p ∈ s.staged ∨ p.1 = claim.generation ∧
        p.2 ∈ pageRows c.texts claim.generation now contacts) ∧
      ∀ row ∈ pageRows c.texts claim.generation now contacts,
        ∃ o ∈ u.stagedOf claim.generation, Agrees o row := by
    rcases ingest_some hu with ⟨rfl, rfl⟩ | ⟨owned, howned, heq, hagree⟩
    · exact ⟨rfl, rfl, fun _ hp => hp, fun _ hp => .inl hp, fun _ hrow => nomatch hrow⟩
    · obtain ⟨row, _, _, rfl⟩ := renewOwned_some howned
      subst heq
      exact ⟨rfl, rfl, fun p hp => mem_stageRows.2 hp, fun p hp => mem_stageRows.1 hp, hagree⟩
  obtain ⟨hclaims, hgenerations, hkept, hnew, hagree⟩ := hmoved
  constructor
  · intro claim' now' contacts' hmem
    rw [hclaims]
    rcases List.mem_append.mp hmem with hmem | hmem
    · exact h.owned claim' now' contacts' hmem
    · cases List.mem_singleton.mp hmem
      exact hclaim
  · intro claim' row hrow r hr hg
    rw [hgenerations] at hr
    rcases ingested_append.mp hrow with hrow | ⟨now', contacts', heq, hrow⟩
    · obtain ⟨o, ho, hagrees⟩ := h.pages claim' row hrow r hr hg
      exact ⟨o, mem_stagedOf.mpr (hkept _ (mem_stagedOf.mp ho)), hagrees⟩
    · cases heq
      rw [hg]
      exact hagree row hrow
  · intro p hp
    rcases hnew p hp with hp | ⟨hg, hrow⟩
    · obtain ⟨claim', hg, ho⟩ := h.staged p hp
      exact ⟨claim', hg, ingested_append.mpr (.inl ho)⟩
    · exact ⟨claim, hg.symm, ingested_append.mpr (.inr ⟨now, contacts, rfl, hrow⟩)⟩
  · intro draw claim' now' records intervalMs hmem
    rw [hclaims, hgenerations]
    rcases List.mem_append.mp hmem with hmem | hmem
    · exact h.completed draw claim' now' records intervalMs hmem
    · cases List.mem_singleton.mp hmem

theorem run_recorded (hf : Fenced s) (h : Recorded c calls s) (ha : Allowed s call)
    (hu : run c s call = some u) : Recorded c (calls ++ [call]) u := by
  cases call with
  | begin_ now token force resolved => exact begin_recorded hf h hu
  | ingestObservedPage claim now contacts => exact ingest_recorded h ha hu
  | reconcileObservedIdentities claim now =>
    obtain ⟨row, _, _, rfl⟩ := renewOwned_some hu
    exact recorded_kept h rfl rfl (fun r hr => ⟨r, hr, rfl, id⟩) (fun _ _ _ heq => nomatch heq)
      (fun _ _ _ _ _ heq => nomatch heq)
  | complete draw claim now records intervalMs =>
    obtain ⟨row, evidence, r, _, _, hr, hg, ht, hs, _, rfl⟩ := complete_some hu
    have hpublish := publish_generation claim now records
      (s.stagedOf claim.generation).length
    refine recorded_kept h rfl rfl ?_ (fun _ _ _ heq => nomatch heq) ?_
    · intro r' hr'
      obtain ⟨r₀, hr₀, rfl⟩ := List.mem_map.mp hr'
      refine ⟨r₀, hr₀, (hpublish r₀).1, fun hs₀ => ?_⟩
      rcases (hpublish r₀).2.2 with ⟨_, _, _, hs', _⟩ | ⟨_, hsame⟩
      · exact hs'
      · rw [hsame]
        exact hs₀
    · intro _ _ _ _ _ heq
      cases heq
      refine ⟨ha.1, fun r' hr' hg' => ?_⟩
      obtain ⟨r₀, hr₀, rfl⟩ := List.mem_map.mp hr'
      rw [(hpublish r₀).1] at hg'
      obtain rfl : r₀ = r := generation_unique hf hr₀ hr (hg'.trans hg.symm)
      rcases (hpublish r₀).2.2 with ⟨_, _, _, hs', _⟩ | ⟨hno, _⟩
      · exact hs'
      · exact absurd ⟨hg, hs, ht⟩ hno
  | fail claim now code =>
    cases hu
    refine recorded_kept h rfl rfl ?_ (fun _ _ _ heq => nomatch heq)
      (fun _ _ _ _ _ heq => nomatch heq)
    intro r hr
    obtain ⟨r₀, hr₀, rfl⟩ := List.mem_map.mp hr
    have hfail := fail_generation claim now code r₀
    refine ⟨r₀, hr₀, hfail.1, fun hs => ?_⟩
    rcases hfail.2.2 with ⟨_, _, hreceiving, _⟩ | ⟨_, hsame⟩
    · rw [hs] at hreceiving
      cases hreceiving
    · rw [hsame]
      exact hs
  | observeGroupMembers draw now groupId participants =>
    obtain ⟨evidence, rfl, _⟩ := observe_some hf hu (.inl ⟨_, _, _, _, rfl⟩)
    exact recorded_kept h rfl rfl (fun r hr => ⟨r, hr, rfl, id⟩) (fun _ _ _ heq => nomatch heq)
      (fun _ _ _ _ _ heq => nomatch heq)
  | observeMessageSender draw now rawIdentity rawPushName observedAt key =>
    obtain ⟨evidence, rfl, _⟩ := observe_some hf hu (.inr ⟨_, _, _, _, _, _, rfl⟩)
    exact recorded_kept h rfl rfl (fun r hr => ⟨r, hr, rfl, id⟩) (fun _ _ _ heq => nomatch heq)
      (fun _ _ _ _ _ heq => nomatch heq)

end Calls

section Runs

variable {c : Config} {s t u : State} {e : Event} {es fs : List Event} {session : SessionId}

theorem run_recorded_calls (h : Run (system c) es s) (session : SessionId) :
    Recorded c (callsOf session es) (s.sessions session) := by
  refine run_invariant (M := system c)
    (I := fun es s => Recorded c (callsOf session es) (s.sessions session)) ?_
    (fun es s e hr hI he => ?_) h
  · rintro _ rfl
    refine ⟨?_, ?_, ?_, ?_⟩
    · exact fun _ _ _ hmem => nomatch hmem
    · exact fun _ _ _ _ hr => nomatch hr
    · exact fun _ hp => nomatch hp
    · exact fun _ _ _ _ _ hmem => nomatch hmem
  · unfold system
    rw [callsOf_append]
    rcases step_cases session (ofStep_enabled he) with
      ⟨hsame, hcalls⟩ | ⟨call, _, hcalls, ha, hrun⟩
    · rw [hcalls, List.append_nil, hsame]
      exact hI
    · rw [hcalls]
      exact run_recorded (reachable_fenced ⟨es, hr⟩ session) hI ha hrun

/-- The generation has failed, or it is already deleted; it is not published any more. -/
def Lost (generation : ℕ) (s : Snapshots) : Prop :=
  generation ≤ s.lastGeneration ∧
    ∀ r ∈ s.generations, r.generation = generation → r.state = .failed

/-- A lost generation stays lost, and no call completes it. -/
theorem lost_stays {v w : Snapshots} {call : Call} {generation : ℕ} (hf : Fenced v)
    (h : Lost generation v) (hu : run c v call = some w) :
    Lost generation w ∧ ∀ draw claim now records intervalMs,
      call = .complete draw claim now records intervalMs → claim.generation ≠ generation := by
  obtain ⟨hlast, hstate⟩ := h
  have hsame : ∀ r ∈ v.generations, r.generation = generation → r.state = .failed := hstate
  cases call with
  | begin_ now token force resolved =>
    obtain ⟨row, gone, hrow, rfl⟩ := begin_some hu
    have hnext := (claimSync_some hrow).1
    refine ⟨⟨?_, ?_⟩, fun _ _ _ _ _ heq => by cases heq⟩
    · change generation ≤ row.syncGeneration
      omega
    · intro r hr hg
      rcases List.mem_append.mp hr with hr | hr
      · obtain ⟨_, r₀, hr₀, rfl⟩ := kept_generation hr
        have hs := hsame r₀ hr₀ ((expire_generation now row.syncGeneration r₀).1.symm.trans hg)
        rw [(expire_generation now row.syncGeneration r₀).2.2.1 (by simp [hs])]
        exact hs
      · rw [List.mem_singleton.mp hr] at hg
        have hnew : row.syncGeneration = generation := hg
        omega
  | ingestObservedPage claim now contacts =>
    refine ⟨?_, fun _ _ _ _ _ heq => by cases heq⟩
    rcases ingest_some hu with ⟨_, rfl⟩ | ⟨owned, howned, rfl, _⟩
    · exact ⟨hlast, hsame⟩
    · obtain ⟨row, hrow, _, rfl⟩ := renewOwned_some howned
      refine ⟨?_, hsame⟩
      simpa [Snapshots.lastGeneration, hrow, renew] using hlast
  | reconcileObservedIdentities claim now =>
    obtain ⟨row, hrow, _, rfl⟩ := renewOwned_some hu
    refine ⟨⟨?_, hsame⟩, fun _ _ _ _ _ heq => by cases heq⟩
    simpa [Snapshots.lastGeneration, hrow, renew] using hlast
  | complete draw claim now records intervalMs =>
    obtain ⟨row, evidence, r, hrow, _, hr, hg, _, hs, _, rfl⟩ := complete_some hu
    refine ⟨⟨?_, ?_⟩, ?_⟩
    · simpa [Snapshots.lastGeneration, hrow, completeSync] using hlast
    · intro r' hr' hg'
      obtain ⟨r₀, hr₀, rfl⟩ := List.mem_map.mp hr'
      have hpublish := publish_generation claim now records
        (v.stagedOf claim.generation).length r₀
      have hs₀ := hsame r₀ hr₀ (hpublish.1.symm.trans hg')
      rcases hpublish.2.2 with ⟨_, hreceiving, _⟩ | ⟨_, heq⟩
      · rw [hs₀] at hreceiving
        cases hreceiving
      · rw [heq]
        exact hs₀
    · rintro _ _ _ _ _ heq hlost
      cases heq
      have hfailed := hsame r hr (hg.trans hlost)
      rw [hs] at hfailed
      cases hfailed
  | fail claim now code =>
    cases hu
    refine ⟨⟨?_, ?_⟩, fun _ _ _ _ _ heq => by cases heq⟩
    · have hkeep : (fail claim now code v).lastGeneration = v.lastGeneration := by
        unfold Snapshots.lastGeneration fail
        cases v.sync with
        | none => rfl
        | some row =>
          simp only [Option.map_some, Option.getD_some, failSync]
          split <;> rfl
      rw [hkeep]
      exact hlast
    · intro r hr hg
      obtain ⟨r₀, hr₀, rfl⟩ := List.mem_map.mp hr
      have hfail := fail_generation claim now code r₀
      rcases hfail.2.2 with ⟨_, _, _, hs⟩ | ⟨_, heq⟩
      · exact hs
      · rw [heq]
        exact hsame r₀ hr₀ (hfail.1.symm.trans hg)
  | observeGroupMembers draw now groupId participants =>
    obtain ⟨evidence, rfl, _⟩ := observe_some hf hu (.inl ⟨_, _, _, _, rfl⟩)
    exact ⟨⟨hlast, hsame⟩, fun _ _ _ _ _ heq => by cases heq⟩
  | observeMessageSender draw now rawIdentity rawPushName observedAt key =>
    obtain ⟨evidence, rfl, _⟩ := observe_some hf hu (.inr ⟨_, _, _, _, _, _, rfl⟩)
    exact ⟨⟨hlast, hsame⟩, fun _ _ _ _ _ heq => by cases heq⟩

/-- No call has completed the generation. -/
def NotCompleted (generation : ℕ) (calls : List Call) : Prop :=
  ∀ draw claim now records intervalMs, .complete draw claim now records intervalMs ∈ calls →
    claim.generation ≠ generation

theorem lost_along {generation : ℕ} (h : Reachable (system c) s)
    (hlost : Lost generation (s.sessions session)) (hx : Execution (system c) s fs u) :
    Lost generation (u.sessions session) ∧ NotCompleted generation (callsOf session fs) := by
  induction hx with
  | refl => exact ⟨hlost, fun _ _ _ _ _ hmem => nomatch hmem⟩
  | @step fs t e hx he ih =>
    rw [callsOf_append]
    rcases step_cases session (ofStep_enabled he) with
      ⟨hsame, hcalls⟩ | ⟨call, _, hcalls, _, hrun⟩
    · rw [hcalls, List.append_nil]
      refine ⟨?_, ih.2⟩
      unfold system
      rw [hsame]
      exact ih.1
    · obtain ⟨hlost', hnot⟩ := lost_stays (reachable_fenced (h.extend hx) session) ih.1 hrun
      refine ⟨hlost', ?_⟩
      rw [hcalls]
      intro draw claim now records intervalMs hmem
      rcases List.mem_append.mp hmem with hmem | hmem
      · exact ih.2 draw claim now records intervalMs hmem
      · exact hnot draw claim now records intervalMs (List.mem_singleton.mp hmem).symm

end Runs

section Claim

variable {c : Config} {s u : State} {e : Event} {es fs : List Event} {session : SessionId}

/-- The generation is published by a call of the one that holds its lease. -/
def PublishedByOwner (s : Snapshots) (call : Call) (r : SnapshotGeneration) : Prop :=
  ∃ draw claim now records intervalMs row, call = .complete draw claim now records intervalMs ∧
    claim.generation = r.generation ∧ claim.leaseToken = r.leaseToken ∧ claim ∈ s.claims ∧
    s.sync = some row ∧ Owns claim now row

/-- Only observations and completions write evidence; what `begin` does to it is to delete. -/
def WritesEvidence (s u : Snapshots) : Call → Prop
  | .complete _ _ _ _ _ | .observeGroupMembers _ _ _ _ | .observeMessageSender _ _ _ _ _ _ => True
  | .begin_ _ _ _ _ => ∃ gone, u.evidence = withoutGenerations gone s.evidence
  | .ingestObservedPage _ _ _ | .reconcileObservedIdentities _ _ | .fail _ _ _ =>
    u.evidence = s.evidence

/-- The staged identities are those of the pages that came in under the lease, with what the pages
say of them, and no page came in under another lease. -/
def StagedExactly (c : Config) (calls : List Call) (s : Snapshots) (r : SnapshotGeneration) :
    Prop :=
  (∀ key, (∃ o ∈ s.stagedOf r.generation, o.key = key) ↔
    ∃ row, Ingested c calls ⟨r.generation, r.leaseToken⟩ row ∧ row.key = key) ∧
  (∀ row, Ingested c calls ⟨r.generation, r.leaseToken⟩ row →
    ∃ o ∈ s.stagedOf r.generation, Agrees o row) ∧
  ∀ claim now contacts, .ingestObservedPage claim now contacts ∈ calls →
    claim.generation = r.generation → claim.leaseToken = r.leaseToken

/-- The generation was never completed, and the evidence has no row of it. -/
def ContributesNothing (generation : ℕ) (calls : List Call) (t : EvidenceTables) : Prop :=
  NotCompleted generation calls ∧ (∀ o ∈ t.observations, o.sourceGeneration ≠ some generation) ∧
    ∀ l ∈ t.links, l.sourceGeneration ≠ some generation

theorem recorded_exactly {v : Snapshots} {calls : List Call} {r : SnapshotGeneration}
    (hf : Fenced v) (h : Recorded c calls v) (hr : r ∈ v.generations) :
    StagedExactly c calls v r := by
  have howner : ∀ claim row, Ingested c calls claim row → claim.generation = r.generation →
      claim = ⟨r.generation, r.leaseToken⟩ := by
    rintro claim row ⟨now, contacts, hmem, _⟩ hg
    exact claim_unique hf (h.owned claim now contacts hmem) (hf.issued r hr) hg
  refine ⟨fun key => ⟨?_, ?_⟩, ?_, ?_⟩
  · rintro ⟨o, ho, rfl⟩
    obtain ⟨claim, hg, hrow⟩ := h.staged _ (mem_stagedOf.mp ho)
    rw [howner claim o hrow hg] at hrow
    exact ⟨o, hrow, rfl⟩
  · rintro ⟨row, hrow, rfl⟩
    obtain ⟨o, ho, hagrees⟩ := h.pages _ row hrow r hr rfl
    exact ⟨o, ho, hagrees.1⟩
  · intro row hrow
    exact h.pages _ row hrow r hr rfl
  · intro claim now contacts hmem hg
    exact congrArg SnapshotClaim.leaseToken
      (claim_unique hf (h.owned claim now contacts hmem) (hf.issued r hr) hg)

theorem published_by_owner {v w : Snapshots} {call : Call} {r : SnapshotGeneration}
    (hf : Fenced v) (ha : Allowed v call) (hu : run c v call = some w) (hr : r ∈ w.generations)
    (hs : r.state = .published) :
    (∃ r₀ ∈ v.generations, r₀.generation = r.generation ∧ r₀.state = .published) ∨
      PublishedByOwner v call r := by
  cases call with
  | begin_ now token force resolved =>
    obtain ⟨row, gone, hrow, rfl⟩ := begin_some hu
    rcases List.mem_append.mp hr with hr | hr
    · obtain ⟨_, r₀, hr₀, rfl⟩ := kept_generation hr
      unfold expireGeneration at hs ⊢
      split at hs
      · cases hs
      · rename_i hkept
        rw [if_neg hkept]
        exact .inl ⟨r₀, hr₀, rfl, hs⟩
    · rw [List.mem_singleton.mp hr] at hs
      cases hs
  | ingestObservedPage claim now contacts =>
    rcases ingest_some hu with ⟨_, rfl⟩ | ⟨owned, howned, rfl, _⟩
    · exact .inl ⟨r, hr, rfl, hs⟩
    · obtain ⟨row, _, _, rfl⟩ := renewOwned_some howned
      exact .inl ⟨r, hr, rfl, hs⟩
  | reconcileObservedIdentities claim now =>
    obtain ⟨row, _, _, rfl⟩ := renewOwned_some hu
    exact .inl ⟨r, hr, rfl, hs⟩
  | complete draw claim now records intervalMs =>
    obtain ⟨row, evidence, r₁, hrow, howns, _, _, _, _, _, rfl⟩ := complete_some hu
    obtain ⟨r₀, hr₀, rfl⟩ := List.mem_map.mp hr
    have hpublish := publish_generation claim now records
      (v.stagedOf claim.generation).length r₀
    rcases hpublish.2.2 with ⟨hg, _, ht, _⟩ | ⟨_, hsame⟩
    · refine .inr ⟨draw, claim, now, records, intervalMs, row, rfl, ?_, ?_, ha.1, hrow, howns⟩
      · rw [hpublish.1, hg]
      · rw [hpublish.2.1, ht]
    · rw [hsame] at hs ⊢
      exact .inl ⟨r₀, hr₀, rfl, hs⟩
  | fail claim now code =>
    cases hu
    obtain ⟨r₀, hr₀, rfl⟩ := List.mem_map.mp hr
    have hfail := fail_generation claim now code r₀
    rcases hfail.2.2 with ⟨_, _, _, hs'⟩ | ⟨_, hsame⟩
    · rw [hs] at hs'
      cases hs'
    · rw [hsame] at hs ⊢
      exact .inl ⟨r₀, hr₀, rfl, hs⟩
  | observeGroupMembers draw now groupId participants =>
    obtain ⟨evidence, rfl, _⟩ := observe_some hf hu (.inl ⟨_, _, _, _, rfl⟩)
    exact .inl ⟨r, hr, rfl, hs⟩
  | observeMessageSender draw now rawIdentity rawPushName observedAt key =>
    obtain ⟨evidence, rfl, _⟩ := observe_some hf hu (.inr ⟨_, _, _, _, _, _, rfl⟩)
    exact .inl ⟨r, hr, rfl, hs⟩

theorem writes_evidence {v w : Snapshots} {call : Call} (hu : run c v call = some w) :
    WritesEvidence v w call := by
  cases call with
  | begin_ now token force resolved =>
    obtain ⟨row, gone, _, rfl⟩ := begin_some hu
    exact ⟨gone, rfl⟩
  | ingestObservedPage claim now contacts =>
    rcases ingest_some hu with ⟨_, rfl⟩ | ⟨owned, howned, rfl, _⟩
    · rfl
    · obtain ⟨row, _, _, rfl⟩ := renewOwned_some howned
      rfl
  | reconcileObservedIdentities claim now =>
    obtain ⟨row, _, _, rfl⟩ := renewOwned_some hu
    rfl
  | fail claim now code =>
    cases hu
    rfl
  | complete draw claim now records intervalMs => trivial
  | observeGroupMembers draw now groupId participants => trivial
  | observeMessageSender draw now rawIdentity rawPushName observedAt key => trivial

theorem lost_contributes_nothing {generation : ℕ} {v : Snapshots} {calls : List Call}
    (hf : Fenced v) (hlost : Lost generation v) (hcalls : NotCompleted generation calls) :
    ContributesNothing generation calls v.evidence := by
  have hnone : ¬ ∃ r ∈ v.generations, r.generation = generation ∧ r.state = .published := by
    rintro ⟨r, hr, hg, hs⟩
    rw [hlost.2 r hr hg] at hs
    cases hs
  refine ⟨hcalls, fun o ho hg => hnone (hf.observed o ho _ hg), fun l hl hg => hnone ?_⟩
  obtain ⟨r, hr, hrg, hs, _⟩ := hf.linked l hl _ hg
  exact ⟨r, hr, hrg, hs⟩

theorem unpublished_not_completed {v : Snapshots} {calls : List Call} {r : SnapshotGeneration}
    (h : Recorded c calls v) (hr : r ∈ v.generations) (hs : r.state ≠ .published) :
    NotCompleted r.generation calls := by
  intro draw claim now records intervalMs hmem hg
  exact hs ((h.completed draw claim now records intervalMs hmem).2 r hr hg.symm)

theorem failed_lost {v : Snapshots} {r : SnapshotGeneration} (hf : Fenced v)
    (hr : r ∈ v.generations) (hs : r.state = .failed) : Lost r.generation v := by
  refine ⟨hf.bounded r hr, fun r' hr' hg => ?_⟩
  rw [generation_unique hf hr' hr hg]
  exact hs

/-- A generation is lost to the one that begins after it, whether its row is kept or deleted. -/
theorem taken_over_lost {v w : Snapshots} {r : SnapshotGeneration} {now token : ℕ} {force : Bool}
    {resolved : Option ℕ} (hf : Fenced v) (hr : r ∈ v.generations) (hs : r.state = .receiving)
    (hu : begin_ c now token force resolved v = some w) : Lost r.generation w := by
  obtain ⟨row, gone, hrow, rfl⟩ := begin_some hu
  have hnext := (claimSync_some hrow).1
  have hbound := hf.bounded r hr
  refine ⟨?_, fun r' hr' hg => ?_⟩
  · change r.generation ≤ row.syncGeneration
    omega
  · rcases List.mem_append.mp hr' with hr' | hr'
    · obtain ⟨_, r₀, hr₀, rfl⟩ := kept_generation hr'
      rw [(expire_generation now row.syncGeneration r₀).1] at hg
      obtain rfl := generation_unique hf hr₀ hr hg
      have hnewer : r₀.generation < row.syncGeneration := by omega
      simp [expireGeneration, hs, hnewer]
    · rw [List.mem_singleton.mp hr'] at hg
      have hnew : row.syncGeneration = r.generation := hg
      omega

theorem lost_from_here {generation : ℕ} (h : Run (system c) es s)
    (hlost : Lost generation (s.sessions session))
    (hcalls : NotCompleted generation (callsOf session es)) (hx : Execution (system c) s fs u) :
    ContributesNothing generation (callsOf session (es ++ fs)) (u.sessions session).evidence := by
  have hreach : Reachable (system c) s := ⟨es, h⟩
  obtain ⟨hlost', hlater⟩ := lost_along hreach hlost hx
  refine lost_contributes_nothing (reachable_fenced (hreach.extend hx) session) hlost' ?_
  intro draw claim now records intervalMs hmem
  rw [callsOf_append] at hmem
  rcases List.mem_append.mp hmem with hmem | hmem
  · exact hcalls draw claim now records intervalMs hmem
  · exact hlater draw claim now records intervalMs hmem

/-- After any calls for a session, from any owners in any order: one generation is RECEIVING at
most, and generations were begun in increasing order; a generation is published by the owner of its
lease while the lease is current, and its staged identities are those of the owner's pages; one
that failed or was taken over never adds anything to the evidence. -/
theorem publication_fenced (h : Run (system c) es s) (session : SessionId) :
    (∀ r ∈ (s.sessions session).generations, ∀ r' ∈ (s.sessions session).generations,
      r.state = .receiving → r'.state = .receiving → r = r') ∧
    ((s.sessions session).claims.Pairwise fun a b => a.generation < b.generation) ∧
    (∀ call u, step c s (.call session call) = some u →
      WritesEvidence (s.sessions session) (u.sessions session) call ∧
      ∀ r ∈ (u.sessions session).generations, r.state = .published →
        (∃ r₀ ∈ (s.sessions session).generations,
          r₀.generation = r.generation ∧ r₀.state = .published) ∨
        PublishedByOwner (s.sessions session) call r) ∧
    (∀ r ∈ (s.sessions session).generations, r.state = .published →
      StagedExactly c (callsOf session es) (s.sessions session) r) ∧
    (∀ r ∈ (s.sessions session).generations, r.state = .failed →
      ∀ fs u, Execution (system c) s fs u →
        ContributesNothing r.generation (callsOf session (es ++ fs))
          (u.sessions session).evidence) ∧
    ∀ r ∈ (s.sessions session).generations, r.state = .receiving →
      ∀ now token force resolved t,
        step c s (.call session (.begin_ now token force resolved)) = some t →
        ∀ fs u, Execution (system c) t fs u →
          ContributesNothing r.generation
            (callsOf session (es ++ [.call session (.begin_ now token force resolved)] ++ fs))
            (u.sessions session).evidence := by
  have hf := reachable_fenced ⟨es, h⟩ session
  have hrecorded := run_recorded_calls h session
  refine ⟨fun r hr r' hr' hs hs' => one_receiving hf hr hr' hs hs', hf.increasing, ?_, ?_, ?_, ?_⟩
  · intro call u hu
    rcases step_cases session hu with ⟨_, hcalls⟩ | ⟨_, heq, _, ha, hrun⟩
    · simp [callsOf] at hcalls
    · cases heq
      exact ⟨writes_evidence hrun, fun r hr hs => published_by_owner hf ha hrun hr hs⟩
  · exact fun r hr _ => recorded_exactly hf hrecorded hr
  · intro r hr hs fs u hx
    have hcalls := unpublished_not_completed hrecorded hr (by simp [hs])
    exact lost_from_here h (failed_lost hf hr hs) hcalls hx
  · intro r hr hs now token force resolved t ht fs u hx
    obtain ⟨henabled, rfl⟩ := ofStep_of_some (fun s => s = initial) ht
    have hnext : Run (system c) (es ++ [.call session (.begin_ now token force resolved)]) _ :=
      h.extend (Execution.step Execution.refl henabled)
    rcases step_cases session ht with ⟨_, hcalls⟩ | ⟨_, heq, _, _, hrun⟩
    · simp [callsOf] at hcalls
    · cases heq
      refine lost_from_here hnext (taken_over_lost hf hr hs hrun) ?_ hx
      -- a begin completes nothing
      rw [callsOf_append]
      intro draw claim at_ records intervalMs hmem
      rcases List.mem_append.mp hmem with hmem | hmem
      · exact unpublished_not_completed hrecorded hr (by simp [hs]) draw claim at_ records
          intervalMs hmem
      · simp [callsOf] at hmem

/-- Two generations of a session: the lease of the first expires after its page, the second one is
begun by someone else, and completed. -/
def takeoverTrace : List Event :=
  [.tick 1000000,
   .call "session" (.begin_ 1 7 false none),
   .call "session" (.ingestObservedPage ⟨1, 7⟩ 2 [⟨"12@lid", "34", some "Ann", none⟩]),
   .call "session" (.begin_ 600010 8 false none),
   .call "session" (.ingestObservedPage ⟨2, 8⟩ 600011 [⟨"56@c.us", "56", none, some "Ben"⟩]),
   .call "session" (.complete (fun key => key.2.length) ⟨2, 8⟩ 600012 1 60000)]

def takeoverConfig : Config := ⟨⟨id, id⟩, true, 86400000⟩

def takenOver : State := runTrace (system takeoverConfig) initial takeoverTrace

/-- Of the two generations the first contributes nothing, and the second what its page says. -/
theorem takeover_fenced :
    (takenOver.sessions "session").generations.map (fun r => (r.generation, r.state)) =
        [(1, .failed), (2, .published)] ∧
      (∀ r ∈ (takenOver.sessions "session").generations, r.state = .published →
        StagedExactly takeoverConfig (callsOf "session" takeoverTrace)
          (takenOver.sessions "session") r) ∧
      ∀ r ∈ (takenOver.sessions "session").generations, r.state = .failed →
        ∀ fs u, Execution (system takeoverConfig) takenOver fs u →
          ContributesNothing r.generation (callsOf "session" (takeoverTrace ++ fs))
            (u.sessions "session").evidence := by
  have hrun : Run (system takeoverConfig) takeoverTrace takenOver :=
    valid_trace_run rfl (by decide +kernel)
  obtain ⟨_, _, _, hstaged, hfailed, _⟩ := publication_fenced hrun "session"
  exact ⟨by decide +kernel, hstaged, hfailed⟩

end Claim

end SnapshotPublication
