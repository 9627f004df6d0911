import WaRuntime.GroupReadHistory

/-! No group event is lost by coalescing.
The law relates the three revisions of an intent to the record of requests and reads: what is
completed was read after it was requested. -/
namespace GroupIntentCoalescing

open TransitionRuns GatewayGroupReads GroupReadHistory
open GatewayReadLeases (emptyState empty_initial exampleConfig)
open GroupIntentStatements (IntentRow IntentConfig)

section Rows

variable {config : Config} {s u : State} {group : String} {old new : IntentRow}

/-- What an event does to the revisions of the intent of its group. -/
theorem scheduled_revisions (config : IntentConfig) (now : ℕ) (reason : String) (intent : IntentRow) :
    (GroupIntentStatements.scheduleInTransaction config now reason (some intent)).requestedRevision =
        intent.requestedRevision + 1 ∧
      (GroupIntentStatements.scheduleInTransaction config now reason
        (some intent)).completedRevision = intent.completedRevision := ⟨rfl, rfl⟩

theorem scheduled_status (config : IntentConfig) (now : ℕ) (reason : String)
    (intent : Option IntentRow) :
    (GroupIntentStatements.scheduleInTransaction config now reason intent).status ≠ .completed := by
  cases intent with
  | none => simp [GroupIntentStatements.scheduleInTransaction, GroupIntentStatements.insertIntent]
  | some intent =>
    simp only [GroupIntentStatements.scheduleInTransaction, GroupIntentStatements.coalesceIntent]
    split <;> simp

/-- What a step other than a group event does to the revisions: it completes what a call claimed and
settled, or nothing. -/
inductive RevisionMove (s : State) (group : String) (old new : IntentRow) : Prop where
  | kept :
      new.completedRevision = old.completedRevision →
      (new.status = .completed → old.status = .completed) → RevisionMove s group old new
  | completed (token claimed : ℕ) (reader : Reader) :
      s.readers token = some reader → reader.path = .intent claimed → reader.group = group →
      Stage.Settled reader.stage →
      new.completedRevision = max old.completedRevision claimed →
      (new.status = .completed → old.requestedRevision ≤ claimed) → RevisionMove s group old new

theorem revision_move (hm : IntentMove config s u group (some new)) :
    ∃ old, s.intents group = some old ∧ new.requestedRevision = old.requestedRevision ∧
      RevisionMove s group old new := by
  generalize hrow : (some new : Option IntentRow) = row at hm
  cases hm with
  | same => exact ⟨new, hrow.symm, rfl, .kept rfl fun h => h⟩
  | claimed hold hclaim _ _ =>
    cases hrow
    unfold GroupIntentStatements.claim at hclaim
    split at hclaim
    · cases hclaim
      exact ⟨_, hold, rfl, .kept rfl (by simp)⟩
    · cases hclaim
  | renewed hold hnew =>
    cases hrow
    subst hnew
    exact ⟨_, hold, rfl, .kept rfl fun h => h⟩
  | completed hreader hpath hgroup hsettled hold hcomplete =>
    cases hrow
    unfold GroupIntentStatements.completeClaimed at hcomplete
    split at hcomplete
    · cases hcomplete
      refine ⟨_, hold, rfl, .completed _ _ _ hreader hpath hgroup hsettled rfl ?_⟩
      intro hstatus
      by_contra hlt
      simp [Nat.lt_of_not_le hlt] at hstatus
    · cases hcomplete
  | failed hold hfail =>
    cases hrow
    unfold GroupIntentStatements.fail at hfail
    split at hfail
    · cases hfail
      refine ⟨_, hold, rfl, .kept rfl fun hstatus => ?_⟩
      simp only at hstatus
      split at hstatus
      · cases hstatus
      · split at hstatus <;> cases hstatus
    · cases hfail
  | recovered hold hrecover =>
    cases hrow
    unfold GroupIntentStatements.recoverExpired at hrecover
    split at hrecover
    · cases hrecover
      refine ⟨_, hold, rfl, .kept rfl fun hstatus => ?_⟩
      simp only at hstatus
      split at hstatus
      · cases hstatus
      · split at hstatus <;> cases hstatus
    · cases hrecover

theorem completed_grows (hm : RevisionMove s group old new) :
    old.completedRevision ≤ new.completedRevision := by
  cases hm with
  | kept heq _ => omega
  | completed token claimed reader _ _ _ _ heq _ => omega

/-- The revisions of an intent do not go back. -/
structure Grows (old new : IntentRow) : Prop where
  requested : old.requestedRevision ≤ new.requestedRevision
  completed : old.completedRevision ≤ new.completedRevision

theorem grows_step (config : Config) (s : State) (e : Event) (hold : s.intents group = some old) :
    ∃ new, (next config s e).intents group = some new ∧ Grows old new := by
  rcases intent_move config s e group with ⟨now, reason, _, hnew⟩ | ⟨_, hm⟩
  · rw [hold] at hnew
    obtain ⟨hrequested, hcompleted⟩ := scheduled_revisions config.intent now reason old
    exact ⟨_, hnew, by omega, by omega⟩
  · cases hrow : (next config s e).intents group with
    | none =>
      rw [hrow] at hm
      generalize hnone : (none : Option IntentRow) = row at hm
      cases hm with
      | same =>
        rw [hold] at hnone
        cases hnone
      | _ => cases hnone
    | some new =>
      rw [hrow] at hm
      obtain ⟨old', hold', hrequested, hmove⟩ := revision_move hm
      rw [hold] at hold'
      cases hold'
      exact ⟨new, rfl, by omega, completed_grows hmove⟩

end Rows

section Requests

variable {config : Config} {h k : Recorded} {e : Event}

/-- Each request of an intent has committed, each call on an intent started its read after the
requests that it claimed, and what is completed was read after it was requested. -/
structure RequestInvariant (h : Recorded) : Prop where
  requests : ∀ group intent revision, h.state.intents group = some intent → 1 ≤ revision →
    revision ≤ intent.requestedRevision →
    ∃ commit, h.requested group revision = some commit ∧ commit < h.moment
  known : ∀ group revision commit, h.requested group revision = some commit →
    ∃ intent, h.state.intents group = some intent ∧ revision ≤ intent.requestedRevision
  claims : ∀ token reader claimed, h.state.readers token = some reader →
    reader.path = .intent claimed →
    (∃ intent, h.state.intents reader.group = some intent ∧ claimed ≤ intent.requestedRevision) ∧
      ∀ revision, 1 ≤ revision → revision ≤ claimed →
        ∃ commit, h.requested reader.group revision = some commit ∧
          ∀ start, h.started token = some start → commit < start
  completed : ∀ group intent revision, h.state.intents group = some intent → 1 ≤ revision →
    revision ≤ intent.completedRevision →
    ∃ commit start, h.requested group revision = some commit ∧ start ∈ h.reads group ∧
      commit < start
  status : ∀ group intent, h.state.intents group = some intent → intent.status = .completed →
    intent.completedRevision = intent.requestedRevision

/-- A request is recorded once: an intent's older requests keep their moments. -/
theorem record_requested {u : State} {group : String} {intent : IntentRow} {revision : ℕ}
    (hintent : h.state.intents group = some intent) (hle : revision ≤ intent.requestedRevision) :
    (recordStep config h e u).requested group revision = h.requested group revision := by
  simp only [recordStep]
  split
  · rename_i hrequest
    cases e with
    | groupChanged other now reason =>
      simp only [requestOf, Option.some.injEq, Prod.mk.injEq] at hrequest
      obtain ⟨rfl, hrevision⟩ := hrequest
      rw [hintent, (scheduled_revisions config.intent now reason intent).1] at hrevision
      omega
    | _ => cases hrequest
  · rfl

theorem requests_step (hi : RequestInvariant h) {group : String} {intent : IntentRow}
    {revision : ℕ} (hintent : (next config h.state e).intents group = some intent)
    (hpos : 1 ≤ revision) (hle : revision ≤ intent.requestedRevision) :
    ∃ commit, (recordStep config h e (next config h.state e)).requested group revision =
        some commit ∧ commit < h.moment + 1 := by
  have hold : ∀ old, h.state.intents group = some old → revision ≤ old.requestedRevision →
      ∃ commit, (recordStep config h e (next config h.state e)).requested group revision =
        some commit ∧ commit < h.moment + 1 := by
    intro old hold hrevision
    obtain ⟨commit, hcommit, hlt⟩ := hi.requests group old revision hold hpos hrevision
    exact ⟨commit, by rw [record_requested hold hrevision, hcommit], by omega⟩
  rcases intent_move config h.state e group with ⟨now, reason, he, hnew⟩ | ⟨_, hm⟩
  · by_cases hrevision : revision = intent.requestedRevision
    · rw [hnew] at hintent
      cases hintent
      refine ⟨h.moment, ?_, by omega⟩
      simp [recordStep, requestOf, he, hrevision]
    · -- An older request was recorded by the step that made it.
      cases hrow : h.state.intents group with
      | none =>
        rw [hnew, hrow] at hintent
        cases hintent
        have hone : revision ≤ 1 := hle
        exact absurd (le_antisymm hone hpos) hrevision
      | some old =>
        rw [hnew, hrow] at hintent
        cases hintent
        rw [(scheduled_revisions config.intent now reason old).1] at hle hrevision
        exact hold old hrow (by omega)
  · rw [hintent] at hm
    obtain ⟨old, hrow, hrequested, _⟩ := revision_move hm
    exact hold old hrow (by omega)

theorem known_step (hi : RequestInvariant h) {group : String} {revision commit : ℕ}
    (hc : (recordStep config h e (next config h.state e)).requested group revision = some commit) :
    ∃ intent, (next config h.state e).intents group = some intent ∧
      revision ≤ intent.requestedRevision := by
  by_cases hrequest : requestOf config h.state e = some (group, revision)
  · cases e with
    | groupChanged other now reason =>
      simp only [requestOf, Option.some.injEq, Prod.mk.injEq] at hrequest
      obtain ⟨rfl, rfl⟩ := hrequest
      exact ⟨_, Function.update_self .., le_rfl⟩
    | _ => cases hrequest
  · simp only [recordStep, if_neg hrequest] at hc
    obtain ⟨old, hold, hle⟩ := hi.known group revision commit hc
    obtain ⟨new, hnew, hgrows⟩ := grows_step config h.state e hold
    exact ⟨new, hnew, hle.trans hgrows.requested⟩

/-- A call that was there keeps what it claimed, and starts its read after those requests. -/
theorem claims_kept (hi : RequestInvariant h) {token claimed : ℕ} {reader : Reader}
    (hreader : h.state.readers token = some reader) (hpath : reader.path = .intent claimed) :
    (∃ intent, (next config h.state e).intents reader.group = some intent ∧
        claimed ≤ intent.requestedRevision) ∧
      ∀ revision, 1 ≤ revision → revision ≤ claimed →
        ∃ commit, (recordStep config h e (next config h.state e)).requested reader.group revision =
            some commit ∧
          ∀ start, (recordStep config h e (next config h.state e)).started token = some start →
            commit < start := by
  obtain ⟨⟨old, hold, hle⟩, hcommits⟩ := hi.claims token reader claimed hreader hpath
  obtain ⟨new, hnew, hgrows⟩ := grows_step config h.state e hold
  refine ⟨⟨new, hnew, hle.trans hgrows.requested⟩, fun revision hpos hrevision => ?_⟩
  obtain ⟨commit, hcommit, hbefore⟩ := hcommits revision hpos hrevision
  refine ⟨commit, by rw [record_requested hold (hrevision.trans hle), hcommit], ?_⟩
  intro start hstart
  rcases record_started hstart with ⟨_, rfl⟩ | ⟨_, hstarted⟩
  · obtain ⟨commit', hcommit', hlt⟩ :=
      hi.requests reader.group old revision hold hpos (hrevision.trans hle)
    rw [hcommit] at hcommit'
    cases hcommit'
    exact hlt
  · exact hbefore start hstarted

theorem claims_step (hreads : ReadInvariant h) (hi : RequestInvariant h) {token claimed : ℕ}
    {after : Reader} (hafter : (next config h.state e).readers token = some after)
    (hpath : after.path = .intent claimed) :
    (∃ intent, (next config h.state e).intents after.group = some intent ∧
        claimed ≤ intent.requestedRevision) ∧
      ∀ revision, 1 ≤ revision → revision ≤ claimed →
        ∃ commit, (recordStep config h e (next config h.state e)).requested after.group revision =
            some commit ∧
          ∀ start, (recordStep config h e (next config h.state e)).started token = some start →
            commit < start := by
  cases reader_origin (reader_move (next_outcome config h.state e)) hafter with
  | kept hreader => exact claims_kept hi hreader hpath
  | staged reader hreader hsame hgroup _ =>
    rw [hgroup]
    exact claims_kept hi hreader (hsame.symm.trans hpath)
  | drawn htoken _ _ hclaimed _ =>
    obtain ⟨old, hold, rfl⟩ := hclaimed claimed hpath
    obtain ⟨new, hnew, hgrows⟩ := grows_step config h.state e hold
    refine ⟨⟨new, hnew, hgrows.requested⟩, fun revision hpos hrevision => ?_⟩
    obtain ⟨commit, hcommit, _⟩ := hi.requests after.group old revision hold hpos hrevision
    refine ⟨commit, by rw [record_requested hold hrevision, hcommit], fun start hstart => ?_⟩
    -- A token that is drawn now has started nothing.
    rcases record_started hstart with ⟨hnow, _⟩ | ⟨_, hstarted⟩
    · obtain ⟨_, reader, hreader, _⟩ := startOf_some hnow
      have := hreads.drawn token reader hreader
      omega
    · have := (hreads.begun token start hstarted).1
      omega

theorem completed_step (hreads : ReadInvariant h) (hi : RequestInvariant h) {group : String}
    {intent : IntentRow} {revision : ℕ}
    (hintent : (next config h.state e).intents group = some intent) (hpos : 1 ≤ revision)
    (hle : revision ≤ intent.completedRevision) :
    ∃ commit start, (recordStep config h e (next config h.state e)).requested group revision =
        some commit ∧
      start ∈ (recordStep config h e (next config h.state e)).reads group ∧ commit < start := by
  have hbefore : ∀ old, h.state.intents group = some old → revision ≤ old.completedRevision →
      ∃ commit start, (recordStep config h e (next config h.state e)).requested group revision =
          some commit ∧
        start ∈ (recordStep config h e (next config h.state e)).reads group ∧ commit < start := by
    intro old hold hrevision
    obtain ⟨commit, start, hcommit, hstart, hlt⟩ :=
      hi.completed group old revision hold hpos hrevision
    exact ⟨commit, start,
      by rw [record_requested hold (hrevision.trans old.completed_le), hcommit],
      record_reads hstart, hlt⟩
  rcases intent_move config h.state e group with ⟨now, reason, _, hnew⟩ | ⟨_, hm⟩
  · cases hrow : h.state.intents group with
    | none =>
      rw [hnew, hrow] at hintent
      cases hintent
      have hzero : revision ≤ 0 := hle
      omega
    | some old =>
      rw [hnew, hrow] at hintent
      cases hintent
      rw [(scheduled_revisions config.intent now reason old).2] at hle
      exact hbefore old hrow hle
  · rw [hintent] at hm
    obtain ⟨old, hrow, _, hmove⟩ := revision_move hm
    cases hmove with
    | kept heq _ => exact hbefore old hrow (by omega)
    | completed token claimed reader hreader hpath hgroup hsettled heq _ =>
      by_cases hrevision : revision ≤ old.completedRevision
      · exact hbefore old hrow hrevision
      · -- The call that completes the intent has read the group since.
        obtain ⟨⟨old', hold', hclaimed⟩, hcommits⟩ := hi.claims token reader claimed hreader hpath
        rw [hgroup] at hold'
        rw [hrow] at hold'
        cases hold'
        obtain ⟨commit, hcommit, hlt⟩ := hcommits revision hpos (by omega)
        rw [hgroup] at hcommit
        obtain ⟨start, hstart⟩ := hreads.started token reader hreader (settled_started hsettled)
        have hread := hreads.settled token reader start hreader (by simp [hpath]) hsettled hstart
        rw [hgroup] at hread
        exact ⟨commit, start, by rw [record_requested hrow (by omega), hcommit],
          record_reads hread, hlt start hstart⟩

theorem status_step (hi : RequestInvariant h) {group : String} {intent : IntentRow}
    (hintent : (next config h.state e).intents group = some intent)
    (hstatus : intent.status = .completed) :
    intent.completedRevision = intent.requestedRevision := by
  rcases intent_move config h.state e group with ⟨now, reason, _, hnew⟩ | ⟨_, hm⟩
  · rw [hnew] at hintent
    cases hintent
    exact absurd hstatus (scheduled_status config.intent now reason _)
  · rw [hintent] at hm
    obtain ⟨old, hrow, hrequested, hmove⟩ := revision_move hm
    cases hmove with
    | kept heq hback =>
      have := hi.status group old hrow (hback hstatus)
      omega
    | completed token claimed reader hreader hpath hgroup _ heq hreached =>
      obtain ⟨⟨old', hold', hclaimed⟩, _⟩ := hi.claims token reader claimed hreader hpath
      rw [hgroup, hrow] at hold'
      cases hold'
      have hle := hreached hstatus
      have := old.completed_le
      omega

theorem request_invariant_step (hreads : ReadInvariant h) (hi : RequestInvariant h) :
    RequestInvariant (recordStep config h e (next config h.state e)) where
  requests _ _ _ hintent hpos hle := requests_step hi hintent hpos hle
  known _ _ _ hc := known_step hi hc
  claims _ _ _ hafter hpath := claims_step hreads hi hafter hpath
  completed _ _ _ hintent hpos hle := completed_step hreads hi hintent hpos hle
  status _ _ hintent hstatus := status_step hi hintent hstatus

theorem initial_requests (h₀ : RecordInitial config h) : RequestInvariant h where
  requests group intent _ hintent := by simp [h₀.intents group] at hintent
  known group revision _ hc := by simp [h₀.requested group revision] at hc
  claims token reader _ hreader := by simp [h₀.state.readers token] at hreader
  completed group intent _ hintent := by simp [h₀.intents group] at hintent
  status group intent hintent := by simp [h₀.intents group] at hintent

theorem reachable_requests (hr : Reachable (recorded config) h) : RequestInvariant h :=
  reachable_invariant_with (M := recorded config) (J := ReadInvariant) (I := RequestInvariant)
    (fun _ => reachable_reads) (fun _ => initial_requests)
    (fun _ _ hreads hi _ => request_invariant_step hreads hi) hr

theorem grows_along {es : List Event} {group : String} {old : IntentRow}
    (hr : Reachable (recorded config) h) (hx : Execution (recorded config) h es k)
    (hold : h.state.intents group = some old) :
    ∃ new, k.state.intents group = some new ∧ Grows old new := by
  refine stable_along (M := recorded config)
    (P := fun k => ∃ new, k.state.intents group = some new ∧ Grows old new) ?_ hr hx
    ⟨old, hold, le_rfl, le_rfl⟩
  rintro k e _ ⟨mid, hmid, hgrows⟩ _
  obtain ⟨new, hnew, hgrows'⟩ := grows_step config k.state e hmid
  exact ⟨new, hnew, hgrows.requested.trans hgrows'.requested,
    hgrows.completed.trans hgrows'.completed⟩

/-- An intent is COMPLETED only where all that was requested is completed; it claims no more than
was requested; whatever is completed was read, by a read that started after the request committed;
and neither revision goes back. -/
theorem intents_lose_no_event (hr : Reachable (recorded config) h) :
    (∀ group intent, h.state.intents group = some intent →
      (intent.status = .completed → intent.completedRevision = intent.requestedRevision) ∧
      (∀ claimed, intent.claimedRevision = some claimed → claimed ≤ intent.requestedRevision) ∧
      ∀ revision, 1 ≤ revision → revision ≤ intent.completedRevision →
        ∃ commit start, h.requested group revision = some commit ∧ start ∈ h.reads group ∧
          commit < start) ∧
    ∀ es k group old, Execution (recorded config) h es k → h.state.intents group = some old →
      ∃ new, k.state.intents group = some new ∧
        old.requestedRevision ≤ new.requestedRevision ∧
        old.completedRevision ≤ new.completedRevision := by
  have hi := reachable_requests hr
  constructor
  · intro group intent hintent
    exact ⟨hi.status group intent hintent, intent.claimed_le,
      fun revision => hi.completed group intent revision hintent⟩
  · intro es k group old hx hold
    obtain ⟨new, hnew, hgrows⟩ := grows_along hr hx hold
    exact ⟨new, hnew, hgrows.requested, hgrows.completed⟩

def emptyRecord : Recorded where
  state := emptyState
  moment := 0
  requested := fun _ _ => none
  started := fun _ => none
  reads := fun _ => []
  invalidated := fun _ => none

theorem empty_record_initial (config : Config) : RecordInitial config emptyRecord where
  state := empty_initial config
  intents _ := rfl
  requested _ _ := rfl
  started _ := rfl
  invalidated _ := rfl

/-- The details of an open group. -/
def openGroup : GroupCapabilityStatements.OpenWAGroup := ⟨some false, some false, some false, none⟩

/-- Two events of a group, the second while the first is being read. -/
def coalescedEvents : List Event :=
  [.groupChanged "group-1" 0 "group.update", .tick 2000, .claimIntent "group-1" 2000,
    .readGroup 0, .groupChanged "group-1" 2000 "group.update", .answer 0 (.ok ⟨"group-1", openGroup⟩),
    .confirm 0 2000, .upsertGroupDetails 0 2000 2000 2000 true true, .complete 0 2000 0]

/-- The first request was read, and the second waits. -/
theorem coalesced_event_waits :
    ∃ commit start,
      (runTrace (recorded exampleConfig) emptyRecord coalescedEvents).requested "group-1" 1 =
        some commit ∧
      start ∈ (runTrace (recorded exampleConfig) emptyRecord coalescedEvents).reads "group-1" ∧
      commit < start := by
  have hvalid : ValidTrace (recorded exampleConfig) emptyRecord coalescedEvents := by
    decide +kernel
  have hreach : Reachable (recorded exampleConfig)
      (runTrace (recorded exampleConfig) emptyRecord coalescedEvents) :=
    ⟨_, valid_trace_run (empty_record_initial _) hvalid⟩
  have hintent : ∃ intent,
      (runTrace (recorded exampleConfig) emptyRecord coalescedEvents).state.intents "group-1" =
        some intent ∧ 1 ≤ intent.completedRevision := by
    refine ⟨_, rfl, ?_⟩
    decide +kernel
  obtain ⟨intent, hintent, hcompleted⟩ := hintent
  exact ((intents_lose_no_event hreach).1 "group-1" intent hintent).2.2 1 le_rfl hcompleted

end Requests

end GroupIntentCoalescing
