import WaRuntime.OutboundSessionLeases
import WaRuntime.GroupCapabilityStatements

/-! The live send policy and the time at which it is read.
`liveBlockReason` is two queries, one on the session and one on the group, both before
`withLease`. The read model changes at any time, to anything. `history` keeps, for each worker,
what the read model said when the worker obtained the session lease, and whether the policy has
been evaluated since. -/
namespace LiveSendPolicy

open TransitionRuns RowVersions MessageJobStatements OutboundMessageExecution
open OutboundSendAtMostOnce OutboundSessionLeases GroupCapabilityStatements

structure GatewaySession where
  status : String
  engineLoaded : Bool
  restriction : Option String
  deriving DecidableEq, Repr

def isSessionSendable : Option GatewaySession → Bool
  | some session => session.status == "ready" && session.engineLoaded && session.restriction.isNone
  | none => false

/-- `findGroup` reads active rows only. -/
def findGroup (row : Option GroupRow) : Option GroupRow := row.filter GroupRow.isActive

def isGroupSendable (row : Option GroupRow) : Bool :=
  (findGroup row).any fun group => group.sendCapability == .allowed

/-- The part of `liveBlockReason` up to the group query. -/
def sessionBlockReason (allowedIds : List String) (sessionId : String)
    (row : Option GatewaySession) : Option String :=
  if sessionId ∉ allowedIds then some "Session is outside the Runtime allowlist"
  else if isSessionSendable row then none
  else some "Gateway session is not sendable"

def groupBlockReason (recipientId : String) (row : Option GroupRow) : Option String :=
  if recipientId.endsWith "@g.us" then
    match findGroup row with
    | none => some "Recipient group is not active in the synchronized read model"
    | some group =>
      if group.sendCapability = .allowed then none
      else some ("Group is not sendable: " ++ group.sendCapabilityReason.text)
  else some "Recipient is not a synchronized group"

theorem session_unblocked {allowedIds : List String} {sessionId : String}
    {row : Option GatewaySession} (h : sessionBlockReason allowedIds sessionId row = none) :
    isSessionSendable row = true := by
  unfold sessionBlockReason at h
  split at h
  · cases h
  · split at h
    · assumption
    · cases h

theorem group_unblocked {recipientId : String} {row : Option GroupRow}
    (h : groupBlockReason recipientId row = none) : isGroupSendable row = true := by
  unfold groupBlockReason at h
  split at h
  · split at h
    · cases h
    · rename_i group hg
      split at h
      · rename_i ha
        simp [isGroupSendable, hg, ha]
      · cases h
  · cases h

structure LeaseHistory where
  sendableAtLease : Bool
  evaluatedSince : Bool
  deriving DecidableEq, Repr

structure PolicyState where
  base : State
  sessions : String → Option GatewaySession
  groups : String → String → Option GroupRow
  sessionRead : ℕ → Option (Option String)
  history : ℕ → Option LeaseHistory

def policyInitial : PolicyState :=
  ⟨initial, fun _ => none, fun _ _ => none, fun _ => none, fun _ => none⟩

inductive PolicyEvent where
  | base (event : Event)
  | readSession (w : ℕ)
  | sessionChanged (sessionId : String) (row : GatewaySession)
  | groupChanged (sessionId groupId : String) (row : GroupRow)
  deriving Repr

namespace PolicyState

/-- What the read model says of a job's session and group together. -/
def sendable (s : PolicyState) (row : MessageJob) : Bool :=
  isSessionSendable (s.sessions row.sessionId) &&
    isGroupSendable (s.groups row.sessionId row.recipientId)

def setSession (s : PolicyState) (sessionId : String) (row : GatewaySession) : PolicyState :=
  { s with sessions := Function.update s.sessions sessionId (some row) }

def setGroup (s : PolicyState) (sessionId groupId : String) (row : GroupRow) : PolicyState :=
  let groups := Function.update (s.groups sessionId) groupId (some row)
  { s with groups := Function.update s.groups sessionId groups }

/-- The first query of `liveBlockReason`. -/
def readSession (s : PolicyState) (allowedIds : List String) (w : ℕ) (sessionId : String) :
    PolicyState :=
  let reason := sessionBlockReason allowedIds sessionId (s.sessions sessionId)
  { s with sessionRead := Function.update s.sessionRead w (some reason) }

end PolicyState

/-- The answer of the policy: the reason of the first query, else that of the second one now. -/
def policyAnswer (s : PolicyState) (w : ℕ) (row : MessageJob) : Option (Option String) :=
  (s.sessionRead w).map fun first =>
    first.or (groupBlockReason row.recipientId (s.groups row.sessionId row.recipientId))

/-- The worker hears what the queries answered. -/
def answered (s : PolicyState) : Event → Bool
  | .work w (.policyAnswered reason) =>
    match s.base.workers w with
    | .working k => policyAnswer s w k.row == some reason
    | _ => true
  | _ => true

def sessionReadAfter (s : PolicyState) : Event → ℕ → Option (Option String)
  | .work w (.policyAnswered _) | .markProcessing w _ _ => Function.update s.sessionRead w none
  | _ => s.sessionRead

def historyAfter (c : Config) (s : PolicyState) : Event → ℕ → Option LeaseHistory
  | .work w (.tryAcquire now) =>
    match s.base.workers w with
    | .working k =>
      if (tryAcquire now (acquisitionTtlMs c) k.job k.token
          (s.base.leases k.row.sessionId)).isSome then
        Function.update s.history w (some ⟨s.sendable k.row, false⟩)
      else s.history
    | _ => s.history
  | .work w (.policyAnswered _) =>
    Function.update s.history w ((s.history w).map fun h => { h with evaluatedSince := true })
  | .markProcessing w _ _ => Function.update s.history w none
  | _ => s.history

def policyStep (c : Config) (allowedIds : List String) (s : PolicyState) :
    PolicyEvent → Option PolicyState
  | .base e =>
    match step c s.base e with
    | none => none
    | some u => guarded (answered s e)
      { s with base := u, sessionRead := sessionReadAfter s e, history := historyAfter c s e }
  | .readSession w =>
    match s.base.workers w with
    | .working k => guarded (k.phase = .checkingPolicy ∧ s.sessionRead w = none)
      (s.readSession allowedIds w k.row.sessionId)
    | _ => none
  | .sessionChanged sessionId row => some (s.setSession sessionId row)
  | .groupChanged sessionId groupId row => some (s.setGroup sessionId groupId row)

def policySystem (c : Config) (allowedIds : List String) : System PolicyState PolicyEvent :=
  ofStep (· = policyInitial) (policyStep c allowedIds)

instance (c : Config) (allowedIds : List String) (s : PolicyState) (e : PolicyEvent) :
    Decidable ((policySystem c allowedIds).enabled s e) :=
  inferInstanceAs (Decidable ((policyStep c allowedIds s e).isSome = true))

/-- The worker has found the session sendable and does not hold its lease yet. -/
def SessionFound (s : PolicyState) (w : ℕ) (k : Worker) : Prop :=
  (k.phase = .checkingPolicy ∧ s.sessionRead w = some none) ∨ ∃ since, k.phase = .acquiring since

/-- The worker has found the group sendable and does not hold the session lease yet. -/
def GroupFound (k : Worker) : Prop := ∃ since, k.phase = .acquiring since

/-- No change of the read model takes the permission away from a worker that is on its way from
the policy to the session lease. -/
def Undisturbed (s : PolicyState) : PolicyEvent → Prop
  | .sessionChanged sessionId row => isSessionSendable (some row) = true ∨
    ∀ w k, s.base.workers w = .working k → SessionFound s w k → k.row.sessionId ≠ sessionId
  | .groupChanged sessionId groupId row => isGroupSendable (some row) = true ∨
    ∀ w k, s.base.workers w = .working k → GroupFound k →
      ¬ (k.row.sessionId = sessionId ∧ k.row.recipientId = groupId)
  | _ => True

section Steps

variable {c : Config} {allowedIds : List String} {s u : PolicyState} {e : Event} {w : ℕ}

theorem base_step_some (h : policyStep c allowedIds s (.base e) = some u) :
    step c s.base e = some u.base ∧ answered s e ∧ u.sessions = s.sessions ∧
      u.groups = s.groups ∧ u.sessionRead = sessionReadAfter s e ∧ u.history = historyAfter c s e := by
  simp only [policyStep] at h
  split at h
  · cases h
  · rename_i v hv
    obtain ⟨ha, rfl⟩ := guarded_eq_some.mp h
    exact ⟨hv, ha, rfl, rfl, rfl, rfl⟩

theorem read_session_some (h : policyStep c allowedIds s (.readSession w) = some u) :
    ∃ k, s.base.workers w = .working k ∧ k.phase = .checkingPolicy ∧
      u = s.readSession allowedIds w k.row.sessionId := by
  simp only [policyStep] at h
  split at h
  · rename_i k hk
    obtain ⟨⟨hp, _⟩, rfl⟩ := guarded_eq_some.mp h
    exact ⟨k, hk, hp, rfl⟩
  · cases h

/-- What is kept for a worker changes only in its own steps. -/
theorem kept_by_others (ha : actor e ≠ some (.worker w)) :
    sessionReadAfter s e w = s.sessionRead w ∧ historyAfter c s e w = s.history w := by
  constructor
  · unfold sessionReadAfter
    split
    · refine Function.update_of_ne ?_ _ _
      rintro rfl
      exact ha rfl
    · refine Function.update_of_ne ?_ _ _
      rintro rfl
      exact ha rfl
    · rfl
  · unfold historyAfter
    split
    · rename_i w' now
      have hw : w ≠ w' := by
        rintro rfl
        exact ha rfl
      cases s.base.workers w' with
      | working k =>
        dsimp only
        split
        · exact Function.update_of_ne hw _ _
        · rfl
      | _ => rfl
    · refine Function.update_of_ne ?_ _ _
      rintro rfl
      exact ha rfl
    · refine Function.update_of_ne ?_ _ _
      rintro rfl
      exact ha rfl
    · rfl

theorem after_acquisition_before_post {phase : Phase} (h : AfterAcquisition phase) :
    BeforePost phase := by
  cases phase <;> trivial

/-- A worker gets behind the acquisition by the acquisition, and then neither evaluates the policy
nor acquires again. -/
theorem acquisition_origin {s : State} {k : Worker} {we : WorkerEvent} {phase : Phase}
    (h : PreparingMove c s k we phase) (ha : AfterAcquisition phase) :
    (∃ now since, we = .tryAcquire now ∧ k.phase = .acquiring since ∧
      (tryAcquire now (acquisitionTtlMs c) k.job k.token (s.leases k.row.sessionId)).isSome) ∨
      (AfterAcquisition k.phase ∧ (∀ now, we ≠ .tryAcquire now) ∧
        ∀ reason, we ≠ .policyAnswered reason) := by
  cases h with
  | acquired hp _ hl => exact .inl ⟨_, _, rfl, hp, hl⟩
  | confirmed hp => exact .inr ⟨by rw [hp]; trivial, by simp, by simp⟩
  | renewed hp => exact .inr ⟨by rw [hp]; trivial, by simp, by simp⟩
  | verified hp => exact .inr ⟨by rw [hp]; trivial, by simp, by simp⟩
  | _ => exact absurd ha id

/-- Where a worker before its POST comes from, with what is kept for it. -/
theorem preparing_origin {k' : Worker} (h : policyStep c allowedIds s (.base e) = some u)
    (hw : u.base.workers w = .working k') (hb : BeforePost k'.phase) :
    (s.base.workers w = .working k' ∧ u.sessionRead w = s.sessionRead w ∧
      u.history w = s.history w) ∨
      (∃ we k, e = .work w we ∧ s.base.workers w = .working k ∧ k'.row = k.row ∧
        PreparingMove c s.base k we k'.phase) ∨
      (k'.phase = .marked ∧ u.sessionRead w = none) := by
  obtain ⟨hstep, _, _, _, hread, hhistory⟩ := base_step_some h
  obtain ⟨v, hv, _, hu⟩ := step_some hstep
  have hwv : v.workers w = .working k' := by
    rw [hu] at hw
    exact hw
  rcases working_origin hv hwv with ⟨ha, hs⟩ | ⟨we, k, rfl, hk, hm⟩ | hmark
  · obtain ⟨hr, hh⟩ := kept_by_others (c := c) (s := s) ha
    exact .inl ⟨hs, by rw [hread, hr], by rw [hhistory, hh]⟩
  · exact .inr (.inl ⟨we, k, rfl, hk, (worker_move_keeps hm).2.1, preparing_move hm hb⟩)
  · obtain ⟨now, token, job, row, rfl, _, rfl, _⟩ := hmark
    exact .inr (.inr ⟨rfl, by simp [hread, sessionReadAfter]⟩)

/-- What `history` holds for a worker between its acquisition and its POST. -/
def Kept (P : LeaseHistory → Prop) (s : PolicyState) : Prop :=
  ∀ w k, s.base.workers w = .working k → AfterAcquisition k.phase →
    ∃ h, s.history w = some h ∧ P h

/-- It is what was written at the acquisition. -/
theorem kept_step {P : LeaseHistory → Prop} (hI : Kept P s)
    (hnew : ∀ w k since, s.base.workers w = .working k → k.phase = .acquiring since →
      P ⟨s.sendable k.row, false⟩)
    {e : PolicyEvent} (h : policyStep c allowedIds s e = some u) : Kept P u := by
  intro w k' hw ha
  cases e with
  | base e =>
    obtain ⟨_, _, _, _, _, hhistory⟩ := base_step_some h
    rcases preparing_origin h hw (after_acquisition_before_post ha) with hsame | hmove | hmark
    · obtain ⟨hs, _, hh⟩ := hsame
      rw [hh]
      exact hI w k' hs ha
    · obtain ⟨we, k, rfl, hk, _, hm⟩ := hmove
      rcases acquisition_origin hm ha with ⟨now, since, rfl, hp, hl⟩ | ⟨hbefore, hacq, hpolicy⟩
      · refine ⟨⟨s.sendable k.row, false⟩, ?_, hnew w k since hk hp⟩
        rw [hhistory]
        simp [historyAfter, hk, hl]
      · have hsame : historyAfter c s (.work w we) = s.history := by
          cases we with
          | tryAcquire now => exact absurd rfl (hacq now)
          | policyAnswered reason => exact absurd rfl (hpolicy reason)
          | _ => rfl
        rw [hhistory, hsame]
        exact hI w k hk hbefore
    · rw [hmark.1] at ha
      exact absurd ha id
  | readSession w' =>
    obtain ⟨k, _, _, rfl⟩ := read_session_some h
    exact hI w k' hw ha
  | sessionChanged sessionId row =>
    cases h
    exact hI w k' hw ha
  | groupChanged sessionId groupId row =>
    cases h
    exact hI w k' hw ha

/-- The policy has not been evaluated since the worker obtained the lease. -/
theorem lease_unevaluated (h : Reachable (policySystem c allowedIds) s) :
    Kept (fun h => h.evaluatedSince = false) s := by
  refine reachable_invariant (M := policySystem c allowedIds) ?_ ?_ h
  · rintro _ rfl w k hw
    cases hw
  · intro s e hI he
    exact kept_step hI (fun _ _ _ _ _ => rfl) (ofStep_enabled he)

/-- What the queries have found holds until the worker has the lease. -/
structure Found (s : PolicyState) : Prop where
  unread : ∀ w k, s.base.workers w = .working k → k.phase = .marked → s.sessionRead w = none
  session : ∀ w k, s.base.workers w = .working k → SessionFound s w k →
    isSessionSendable (s.sessions k.row.sessionId) = true
  group : ∀ w k, s.base.workers w = .working k → GroupFound k →
    isGroupSendable (s.groups k.row.sessionId k.row.recipientId) = true

/-- A worker waits for the lease because the policy let it pass, or because it waited before. -/
theorem acquiring_origin {s : State} {k : Worker} {we : WorkerEvent} {since : ℕ}
    (h : PreparingMove c s k we (.acquiring since)) :
    (we = .policyAnswered none ∧ k.phase = .checkingPolicy) ∨ GroupFound k := by
  generalize hp : Phase.acquiring since = phase at h
  cases h with
  | passed hk => exact .inl ⟨rfl, hk⟩
  | busy hk => exact .inr ⟨_, hk⟩
  | refreshed hk => exact .inr ⟨_, hk⟩
  | _ => cases hp

/-- The answer that lets a worker pass rests on both queries. -/
theorem passed_queries {k : Worker} (hk : s.base.workers w = .working k)
    (ha : answered s (.work w (.policyAnswered none))) :
    s.sessionRead w = some none ∧
      isGroupSendable (s.groups k.row.sessionId k.row.recipientId) = true := by
  simp only [answered, hk, policyAnswer, beq_iff_eq, Option.map_eq_some_iff] at ha
  obtain ⟨first, hread, hor⟩ := ha
  rw [Option.or_eq_none_iff] at hor
  rw [hread, hor.1]
  exact ⟨rfl, group_unblocked hor.2⟩

theorem found_step_base (hI : Found s) (h : policyStep c allowedIds s (.base e) = some u) :
    Found u := by
  obtain ⟨_, ha, hsessions, hgroups, hread, _⟩ := base_step_some h
  have hgroup : ∀ w k', u.base.workers w = .working k' → GroupFound k' →
      (∃ k, s.base.workers w = .working k ∧ k'.row = k.row ∧ SessionFound s w k) ∧
        isGroupSendable (s.groups k'.row.sessionId k'.row.recipientId) = true := by
    rintro w k' hw ⟨since, hp⟩
    have hb : BeforePost k'.phase := by
      rw [hp]
      trivial
    rcases preparing_origin h hw hb with ⟨hs, _, _⟩ | hmove | ⟨hmark, _⟩
    · exact ⟨⟨k', hs, rfl, .inr ⟨since, hp⟩⟩, hI.group w k' hs ⟨since, hp⟩⟩
    · obtain ⟨we, k, rfl, hk, hrow, hm⟩ := hmove
      rw [hp] at hm
      rw [hrow]
      rcases acquiring_origin hm with ⟨rfl, hphase⟩ | hfound
      · obtain ⟨hr, hg⟩ := passed_queries hk ha
        exact ⟨⟨k, hk, rfl, .inl ⟨hphase, hr⟩⟩, hg⟩
      · exact ⟨⟨k, hk, rfl, .inr hfound⟩, hI.group w k hk hfound⟩
    · rw [hp] at hmark
      cases hmark
  constructor
  · intro w k' hw hp
    have hb : BeforePost k'.phase := by
      rw [hp]
      trivial
    rcases preparing_origin h hw hb with ⟨hs, hr, _⟩ | hmove | ⟨_, hr⟩
    · rw [hr]
      exact hI.unread w k' hs hp
    · obtain ⟨we, k, _, _, _, hm⟩ := hmove
      rw [hp] at hm
      cases hm
    · exact hr
  · intro w k' hw hfound
    rw [hsessions]
    rcases hfound with ⟨hp, hr⟩ | hacquiring
    · have hb : BeforePost k'.phase := by
        rw [hp]
        trivial
      rcases preparing_origin h hw hb with ⟨hs, hr', _⟩ | hmove | ⟨hmark, _⟩
      · exact hI.session w k' hs (.inl ⟨hp, by rw [← hr', hr]⟩)
      · obtain ⟨we, k, rfl, hk, hrow, hm⟩ := hmove
        rw [hp] at hm
        generalize hphase : Phase.checkingPolicy = phase at hm
        cases hm with
        | branch hk' =>
          have hkeep : u.sessionRead w = s.sessionRead w := by rw [hread]; rfl
          rw [hkeep, hI.unread w k hk hk'] at hr
          cases hr
        | _ => cases hphase
      · rw [hp] at hmark
        cases hmark
    · obtain ⟨⟨k, hk, hrow, hs⟩, _⟩ := hgroup w k' hw hacquiring
      rw [hrow]
      exact hI.session w k hk hs
  · intro w k' hw hfound
    rw [hgroups]
    exact (hgroup w k' hw hfound).2

theorem found_step {e : PolicyEvent} (hI : Found s) (hq : Undisturbed s e)
    (h : policyStep c allowedIds s e = some u) : Found u := by
  cases e with
  | base e => exact found_step_base hI h
  | readSession w' =>
    obtain ⟨k', hk', hp', rfl⟩ := read_session_some h
    have hother : ∀ w, w ≠ w' →
        (s.readSession allowedIds w' k'.row.sessionId).sessionRead w = s.sessionRead w :=
      fun w hw => Function.update_of_ne hw _ _
    constructor
    · intro w k hk hp
      by_cases hw : w = w'
      · subst hw
        have hsame : some k = some k' := by
          change s.base.workers w = .working k at hk
          rw [hk'] at hk
          cases hk
          rfl
        cases hsame
        rw [hp'] at hp
        cases hp
      · rw [hother w hw]
        exact hI.unread w k hk hp
    · intro w k hk hfound
      by_cases hw : w = w'
      · subst hw
        change s.base.workers w = .working k at hk
        rw [hk'] at hk
        cases hk
        rcases hfound with ⟨_, hr⟩ | ⟨since, hp⟩
        · simp only [PolicyState.readSession, Function.update_self, Option.some.injEq] at hr
          exact session_unblocked hr
        · rw [hp'] at hp
          cases hp
      · refine hI.session w k hk (hfound.imp_left fun ⟨hp, hr⟩ => ⟨hp, ?_⟩)
        rw [← hother w hw]
        exact hr
    · exact hI.group
  | sessionChanged sessionId row =>
    cases h
    refine ⟨hI.unread, fun w k hk hfound => ?_, hI.group⟩
    by_cases hs : k.row.sessionId = sessionId
    · rcases hq with hsendable | hquiet
      · simpa [PolicyState.setSession, hs] using hsendable
      · exact absurd hs (hquiet w k hk hfound)
    · simpa [PolicyState.setSession, hs] using hI.session w k hk hfound
  | groupChanged sessionId groupId row =>
    cases h
    refine ⟨hI.unread, hI.session, fun w k hk hfound => ?_⟩
    have hold := hI.group w k hk hfound
    by_cases hs : k.row.sessionId = sessionId
    · subst hs
      by_cases hg : k.row.recipientId = groupId
      · rcases hq with hsendable | hquiet
        · simpa [PolicyState.setGroup, hg] using hsendable
        · exact absurd ⟨rfl, hg⟩ (hquiet w k hk hfound)
      · simpa [PolicyState.setGroup, hg] using hold
    · simpa [PolicyState.setGroup, hs] using hold

/-- In undisturbed runs the read model permits the send when the worker obtains the lease. -/
theorem lease_sendable
    (h : Reachable (restrict (policySystem c allowedIds) Undisturbed) s) :
    Found s ∧ Kept (fun h => h.sendableAtLease = true) s := by
  refine reachable_invariant (M := restrict (policySystem c allowedIds) Undisturbed)
    (I := fun s => Found s ∧ Kept (fun h => h.sendableAtLease = true) s) ?_ ?_ h
  · rintro _ rfl
    refine ⟨⟨?_, ?_, ?_⟩, ?_⟩ <;> intro w k hw <;> cases hw
  · rintro s e ⟨hF, hK⟩ ⟨he, hq⟩
    have hstep := ofStep_enabled he
    refine ⟨found_step hF hq hstep, kept_step hK ?_ hstep⟩
    intro w k since hk hp
    simp only [PolicyState.sendable, Bool.and_eq_true]
    exact ⟨hF.session w k hk (.inr ⟨since, hp⟩), hF.group w k hk ⟨since, hp⟩⟩

/-- Who sends has the lease behind it. -/
theorem sender_acquired {job : JobId}
    (h : (policySystem c allowedIds).enabled s (.base (.work w (.fetch job)))) :
    ∃ k, s.base.workers w = .working k ∧ AfterAcquisition k.phase := by
  obtain ⟨hstep, _⟩ := base_step_some (ofStep_enabled h)
  obtain ⟨v, hv, _, _⟩ := step_some hstep
  simp only [moveParties] at hv
  split at hv
  · rename_i k hk
    obtain ⟨k', hk', _⟩ := Option.map_eq_some_iff.mp hv
    simp only [workerNext] at hk'
    split at hk'
    · rename_i counters hp
      exact ⟨k, hk, by rw [hp]; trivial⟩
    · cases hk'
  · cases hv

end Steps

/-- The worker has evaluated the policy since it obtained the session lease. -/
def EvaluatedSinceLease (s : PolicyState) (w : ℕ) : Prop :=
  ∃ h, s.history w = some h ∧ h.evaluatedSince = true

/-- Session and group were sendable when the worker obtained the session lease. -/
def SendableAtLease (s : PolicyState) (w : ℕ) : Prop :=
  ∃ h, s.history w = some h ∧ h.sendableAtLease = true

/-- The worker is about to issue the POST for the job. -/
def Sends (c : Config) (allowedIds : List String) (s : PolicyState) (w : ℕ) (job : JobId) : Prop :=
  (policySystem c allowedIds).enabled s (.base (.work w (.fetch job)))

/-- No POST has a policy evaluation between the lease and itself. In the runs in which no change
of the read model falls between the queries and the lease, it is still a POST for a session and a
group that were sendable when the worker obtained the lease. -/
theorem policy_precedes_the_lease (c : Config) (allowedIds : List String) :
    (∀ s, Reachable (policySystem c allowedIds) s → ∀ w job, Sends c allowedIds s w job →
      ¬ EvaluatedSinceLease s w) ∧
    ∀ s, Reachable (restrict (policySystem c allowedIds) Undisturbed) s →
      ∀ w job, Sends c allowedIds s w job → SendableAtLease s w := by
  constructor
  · rintro s h w job hsend ⟨history, hh, he⟩
    obtain ⟨k, hk, ha⟩ := sender_acquired hsend
    obtain ⟨history', hh', hn⟩ := lease_unevaluated h w k hk ha
    have hsame : some history = some history' := by rw [← hh, hh']
    cases hsame
    rw [he] at hn
    cases hn
  · intro s h w job hsend
    obtain ⟨k, hk, ha⟩ := sender_acquired hsend
    exact (lease_sendable h).2 w k hk ha

def readySession : GatewaySession := ⟨"ready", true, none⟩

def openGroup : GroupRow :=
  upsertDetails 0 ⟨some false, some false, some false, none⟩ (some false)
    (detailsCapability ⟨some false, some false, some false, none⟩ none) none

/-- A live job reaches the wait for the session lease. -/
def toTheLease : List PolicyEvent :=
  [.sessionChanged "session" readySession, .groupChanged "session" "a@g.us" openGroup,
    .base (.insertJob (.api 0) 1 ⟨"session", "a@g.us", "text", 0, false⟩ 0),
    .base (.commit (.api 0)), .base (.lockDue 0 1 0), .base (.queueClaimed 0 0),
    .base (.commitClaim 0 true), .base (.publish 0 1), .base (.deliver 0 1),
    .base (.markProcessing 0 0 7), .base (.work 0 .branch), .readSession 0,
    .base (.work 0 (.policyAnswered none))]

def toThePost : List PolicyEvent :=
  [.base (.work 0 (.tryAcquire 0)), .base (.work 0 (.confirmProcessing 0)),
    .base (.work 0 (.renew 0)), .base (.work 0 (.verifyProcessing 0))]

/-- A group event invalidates the group while the worker waits. -/
def invalidatedWhileWaiting : List PolicyEvent :=
  toTheLease ++
    [.groupChanged "session" "a@g.us" ((invalidateByEvent 0 openGroup).getD openGroup)] ++
    toThePost

def liveConfig : Config := ⟨true, 1000⟩

def afterEvents (es : List PolicyEvent) : PolicyState :=
  runTrace (policySystem liveConfig ["session"]) policyInitial es

set_option maxRecDepth 4000 in
theorem undisturbed_post_is_sendable :
    (Sends liveConfig ["session"] (afterEvents (toTheLease ++ toThePost)) 0 1 ∧
      SendableAtLease (afterEvents (toTheLease ++ toThePost)) 0) ∧
    ∀ w job, Sends liveConfig ["session"] (afterEvents (toTheLease ++ toThePost)) w job →
      ¬ EvaluatedSinceLease (afterEvents (toTheLease ++ toThePost)) w ∧
        SendableAtLease (afterEvents (toTheLease ++ toThePost)) w := by
  have hvalid : ValidTrace (policySystem liveConfig ["session"]) policyInitial
      (toTheLease ++ toThePost) := by decide +kernel
  have hquiet : ∀ e ∈ toTheLease ++ toThePost, ∀ s, Undisturbed s e := by
    have hsession : isSessionSendable (some readySession) = true := by decide
    have hgroup : isGroupSendable (some openGroup) = true := by decide
    simp [toTheLease, toThePost, Undisturbed, hsession, hgroup]
  have hrun : Reachable (restrict (policySystem liveConfig ["session"]) Undisturbed)
      (afterEvents (toTheLease ++ toThePost)) :=
    ⟨_, policyInitial, rfl, valid_trace_restricted_execution hquiet hvalid⟩
  have hall := policy_precedes_the_lease liveConfig ["session"]
  have hsends : Sends liveConfig ["session"] (afterEvents (toTheLease ++ toThePost)) 0 1 := by
    unfold Sends
    decide +kernel
  exact ⟨⟨hsends, hall.2 _ hrun 0 1 hsends⟩, fun w job hs =>
    ⟨hall.1 _ hrun.unrestrict w job hs, hall.2 _ hrun w job hs⟩⟩

/-- The group is no longer sendable when the worker obtains the lease, and the POST follows. -/
theorem invalidated_group_is_sent_to :
    ¬ ∀ (c : Config) (allowedIds : List String) (s : PolicyState),
      Reachable (policySystem c allowedIds) s → ∀ w job, Sends c allowedIds s w job →
        EvaluatedSinceLease s w ∧ SendableAtLease s w := by
  intro hclaim
  have hvalid : ValidTrace (policySystem liveConfig ["session"]) policyInitial
      invalidatedWhileWaiting := by decide +kernel
  have hsends : Sends liveConfig ["session"] (afterEvents invalidatedWhileWaiting) 0 1 := by
    unfold Sends
    decide +kernel
  obtain ⟨_, history, hh, hs⟩ := hclaim liveConfig ["session"] _
    ⟨_, valid_trace_run rfl hvalid⟩ 0 1 hsends
  have hnow : (afterEvents invalidatedWhileWaiting).history 0 = some ⟨false, false⟩ := by
    decide +kernel
  have hsame : some history = some ⟨false, false⟩ := by
    rw [← hnow, ← hh]
    rfl
  cases hsame
  cases hs

end LiveSendPolicy
