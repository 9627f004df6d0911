import WaRuntime.GatewayReadLeases

/-! When the group reads of a run were asked for, started and settled.
Every step has its moment. The record keeps the moment at which each request of an intent committed
and at which each read was started, the starts of the reads that were applied to a group or answered
not found, and the last invalidation of each group. -/
namespace GroupReadHistory

open TransitionRuns GroupCapabilityStatements GatewayRateLimitStatements GatewayGroupReads
open GatewayReadLeases (outcome_tokens)
open GroupIntentStatements (IntentRow)

structure Recorded where
  state : State
  moment : ℕ
  requested : String → ℕ → Option ℕ
  started : ℕ → Option ℕ
  reads : String → List ℕ
  invalidated : String → Option ℕ

/-- The revision that a group event requests of its group. -/
def requestOf (config : Config) (s : State) : Event → Option (String × ℕ)
  | .groupChanged group now reason =>
    some (group, (GroupIntentStatements.scheduleInTransaction config.intent now reason
      (s.intents group)).requestedRevision)
  | _ => none

/-- The call whose upstream read a step starts. -/
def startOf (s : State) : Event → Option ℕ
  | .readGroup token =>
    (s.readers token).bind fun reader => if reader.stage = .claimed then some token else none
  | _ => none

/-- What each reader asks of the row that it writes. -/
def readOptions (reader : Reader) : DetailsOptions :=
  match reader.path with
  | .refresh expectedRevision => ⟨some expectedRevision, reader.capabilityToken⟩
  | _ => ⟨none, none⟩

/-- The call whose details a step from `s` to `u` writes to its group. -/
def appliedBy (s u : State) : Event → Option (ℕ × Reader)
  | .upsertGroupDetails token now _ _ _ found =>
    (s.readers token).bind fun reader =>
      if reader.stage ≠ .applied ∧ (u.readers token).map Reader.stage = some .applied ∧
          (readOptions reader).Met now (if found then s.groups reader.group else none) then
        some (token, reader)
      else none
  | _ => none

/-- The call that a step answers not found. -/
def missingBy (s : State) : Event → Option (ℕ × Reader)
  | .answer token (.error (.http 404 _)) =>
    (s.readers token).bind fun reader =>
      if reader.stage = .reading then some (token, reader) else none
  | _ => none

def settledBy (s u : State) (e : Event) : Option (ℕ × Reader) :=
  (appliedBy s u e).or (missingBy s e)

/-- The group whose row a step invalidates. -/
def invalidationOf (s : State) : Event → Option String
  | .groupChanged group _ _ | .invalidate group _ _ =>
    (s.groups group).bind fun row => if row.isActive then some group else none
  | _ => none

def recordStep (config : Config) (h : Recorded) (e : Event) (u : State) : Recorded where
  state := u
  moment := h.moment + 1
  requested group revision :=
    if requestOf config h.state e = some (group, revision) then some h.moment
    else h.requested group revision
  started token := if startOf h.state e = some token then some h.moment else h.started token
  reads group :=
    match settledBy h.state u e with
    | some (token, reader) =>
      if reader.group = group then (h.started token).toList ++ h.reads group else h.reads group
    | none => h.reads group
  invalidated group :=
    if invalidationOf h.state e = some group then some h.moment else h.invalidated group

/-- No event has been requested, and nothing was recorded. -/
structure RecordInitial (config : Config) (h : Recorded) : Prop where
  state : Initial config h.state
  intents : ∀ group, h.state.intents group = none
  requested : ∀ group revision, h.requested group revision = none
  started : ∀ token, h.started token = none
  invalidated : ∀ group, h.invalidated group = none

def recorded (config : Config) : System Recorded Event where
  initial := RecordInitial config
  enabled h e := Enabled h.state e
  next h e := recordStep config h e (next config h.state e)

instance (config : Config) (h : Recorded) (e : Event) : Decidable ((recorded config).enabled h e) :=
  inferInstanceAs (Decidable (Enabled h.state e))

/-- The record does not change what the code does. -/
theorem recorded_projects (config : Config) :
    Projects (recorded config) (system config) Recorded.state where
  initial _ h := h.state
  step _ _ he := ⟨_, Execution.step (M := system config) Execution.refl he⟩

/-- An upstream read has been started. -/
def Stage.Started : Stage → Prop
  | .reading | .answered _ | .confirmed _ | .failed _ | .applied => True
  | _ => False

/-- What was read has been applied, or was answered not found. -/
def Stage.Settled : Stage → Prop
  | .applied | .failed (.http 404 _) => True
  | _ => False

section Moves

variable {config : Config} {s u : State} {e : Event}

/-- How a step moves a call on. -/
inductive StageMove (s : State) (e : Event) (token : ℕ) (reader : Reader) : Stage → Prop where
  | claimed {expectedRevision : ℕ} {old : GroupRow} :
      reader.path = .refresh expectedRevision → s.groups reader.group = some old →
      old.capabilityRevision = expectedRevision → StageMove s e token reader .claimed
  | unclaimed : StageMove s e token reader .unclaimed
  | reading : e = .readGroup token → reader.stage = .claimed → StageMove s e token reader .reading
  | answered {group : UpstreamGroup} :
      e = .answer token (.ok group) → reader.stage = .reading →
      StageMove s e token reader (.answered group.details)
  | failed {error : GroupReadError} :
      e = .answer token (.error error) → reader.stage = .reading →
      StageMove s e token reader (.failed error)
  | confirmed {group : OpenWAGroup} :
      reader.stage = .answered group → StageMove s e token reader (.confirmed group)
  | applied {now itemTime limitTime : ℕ} {running found : Bool} {group : OpenWAGroup} :
      e = .upsertGroupDetails token now itemTime limitTime running found →
      reader.stage = .confirmed group ∨
        (∃ revision, reader.path = .refresh revision) ∧ reader.stage = .answered group →
      StageMove s e token reader .applied
  | recorded {policy : GatewaySyncFailurePolicy} : StageMove s e token reader (.recorded policy)
  | done : StageMove s e token reader .done

/-- What a step does to the calls: nothing, a new one, or a step of one. -/
inductive ReaderMove (s : State) (e : Event) (u : State) : Prop where
  | same : u.readers = s.readers → ReaderMove s e u
  | drawn (path : ReadPath) (group : String) (stage : Stage) :
      u.readers = Function.update s.readers s.tokens (some ⟨path, group, none, stage, s.clock⟩) →
      u.tokens = s.tokens + 1 → stage = .claimed ∨ stage = .reserved →
      (∀ revision, path = .intent revision → ∃ intent, s.intents group = some intent ∧
        revision = intent.requestedRevision) →
      (∀ revision, path = .refresh revision → stage = .reserved) → ReaderMove s e u
  | staged (token : ℕ) (reader other : Reader) (stage : Stage) :
      s.readers token = some reader → other.path = reader.path → other.group = reader.group →
      u.readers =
        Function.update s.readers token (some { other with stage := stage, since := s.clock }) →
      StageMove s e token reader stage → ReaderMove s e u

theorem claimRefresh_revision {now token expectedRevision : ℕ} {discovering : Bool}
    {old row : GroupRow}
    (h : GroupCapabilityStatements.claimRefresh now token expectedRevision discovering old =
      some row) : old.capabilityRevision = expectedRevision ∧
        row.capabilityRevision = expectedRevision ∧ row.isActive = old.isActive := by
  unfold GroupCapabilityStatements.claimRefresh at h
  split at h
  · rename_i hclaim
    cases h
    exact ⟨hclaim.1, hclaim.1, rfl⟩
  · cases h

theorem reader_move (h : Outcome config s e u) : ReaderMove s e u := by
  cases h with
  | idle | ticked | published | changed | invalidated | summarized | ensured => exact .same rfl
  | itemRecovered | intentRecovered | refreshRecovered | lapsed => exact .same rfl
  | renewed _ hrenew =>
    obtain ⟨_, _, _, _, hcase⟩ := renewLease_cases hrenew
    rcases hcase with ⟨_, _, _, _, _, _, rfl⟩ | ⟨_, _, _, _, _, _, rfl⟩
    · exact .same rfl
    · exact .same rfl
  | itemClaimed =>
    exact .drawn _ _ _ rfl rfl (.inl rfl) (fun _ h => nomatch h) fun _ h => nomatch h
  | intentClaimed hintent _ _ =>
    refine .drawn _ _ _ rfl rfl (.inl rfl) (fun revision hrevision => ⟨_, hintent, ?_⟩)
      fun _ h => nomatch h
    cases hrevision
    rfl
  | reserved =>
    exact .drawn _ _ _ rfl rfl (.inr rfl) (fun _ h => nomatch h) fun _ _ => rfl
  | refreshClaimed hreader hpath _ hold hclaim =>
    rename_i reader _ _ _
    exact .staged _ _ { reader with capabilityToken := some s.tokens } _ hreader rfl rfl rfl
      (.claimed hpath hold (claimRefresh_revision hclaim).1)
  | refreshUnclaimed hreader _ _ => exact .staged _ _ _ _ hreader rfl rfl rfl .unclaimed
  | confirmed hreader hstage hrenew =>
    obtain ⟨_, _, _, _, hcase⟩ := renewLease_cases hrenew
    rcases hcase with ⟨_, _, _, _, _, _, rfl⟩ | ⟨_, _, _, _, _, _, rfl⟩
    · exact .staged _ _ _ _ hreader rfl rfl rfl (.confirmed hstage)
    · exact .staged _ _ _ _ hreader rfl rfl rfl (.confirmed hstage)
  | started hreader hstage => exact .staged _ _ _ _ hreader rfl rfl rfl (.reading rfl hstage)
  | answered hreader hstage =>
    rename_i token reader result
    cases result with
    | ok group => exact .staged _ _ _ _ hreader rfl rfl rfl (.answered rfl hstage)
    | error error => exact .staged _ _ _ _ hreader rfl rfl rfl (.failed rfl hstage)
  | itemWritten hreader _ hstage | intentWritten hreader _ hstage =>
    exact .staged _ _ _ _ hreader rfl rfl rfl (.applied rfl (.inl hstage))
  | refreshWritten hreader hpath hstage =>
    exact .staged _ _ _ _ hreader rfl rfl rfl (.applied rfl (.inr ⟨⟨_, hpath⟩, hstage⟩))
  | refreshFailed hreader _ _ => exact .staged _ _ _ _ hreader rfl rfl rfl .recorded
  | released hreader _ | lost hreader | attemptFailed hreader _ =>
    exact .staged _ _ _ _ hreader rfl rfl rfl .done
  | itemCompleted hreader | intentCompleted hreader | refreshCompleted hreader =>
    exact .staged _ _ _ _ hreader rfl rfl rfl .done
  | itemSkipped hreader | intentSkipped hreader | itemFailed hreader | intentFailed hreader =>
    exact .staged _ _ _ _ hreader rfl rfl rfl .done

/-- Where a call that is there after a step comes from. -/
inductive Origin (s : State) (e : Event) (u : State) (token : ℕ) (after : Reader) : Prop where
  | kept : s.readers token = some after → Origin s e u token after
  | drawn :
      token = s.tokens → u.tokens = s.tokens + 1 →
      after.stage = .claimed ∨ after.stage = .reserved →
      (∀ revision, after.path = .intent revision → ∃ intent, s.intents after.group = some intent ∧
        revision = intent.requestedRevision) →
      (∀ revision, after.path = .refresh revision → after.stage = .reserved) →
      Origin s e u token after
  | staged (reader : Reader) :
      s.readers token = some reader → after.path = reader.path → after.group = reader.group →
      StageMove s e token reader after.stage → Origin s e u token after

theorem reader_origin (hm : ReaderMove s e u) {token : ℕ} {after : Reader}
    (hafter : u.readers token = some after) : Origin s e u token after := by
  cases hm with
  | same heq =>
    rw [heq] at hafter
    exact .kept hafter
  | drawn path group stage hreaders htokens hstage hintent hrefresh =>
    rw [hreaders] at hafter
    by_cases htoken : token = s.tokens
    · rw [htoken, Function.update_self] at hafter
      cases hafter
      exact .drawn htoken htokens hstage hintent hrefresh
    · rw [Function.update_of_ne htoken] at hafter
      exact .kept hafter
  | staged moved reader other stage hreader hpath hgroup hreaders hmove =>
    rw [hreaders] at hafter
    by_cases htoken : token = moved
    · subst htoken
      rw [Function.update_self] at hafter
      cases hafter
      exact .staged reader hreader hpath hgroup hmove
    · rw [Function.update_of_ne htoken] at hafter
      exact .kept hafter

/-- What a step other than a group event does to the intent of a group. -/
inductive IntentMove (config : Config) (s u : State) (group : String) : Option IntentRow → Prop where
  | same : IntentMove config s u group (s.intents group)
  | claimed {now : ℕ} {intent new : IntentRow} {row : RateLimitRow} :
      s.intents group = some intent →
      GroupIntentStatements.claim config.intent now s.tokens intent = some new →
      u.limits = some row → row.activeLeaseToken = some s.tokens →
      IntentMove config s u group (some new)
  | renewed {intent new : IntentRow} {expiresAt : Option ℕ} :
      s.intents group = some intent → new = { intent with leaseExpiresAt := expiresAt } →
      IntentMove config s u group (some new)
  | completed {now token revision : ℕ} {errorCode : Option String} {reader : Reader}
      {intent new : IntentRow} :
      s.readers token = some reader → reader.path = .intent revision → reader.group = group →
      Stage.Settled reader.stage → s.intents group = some intent →
      GroupIntentStatements.completeClaimed now token revision errorCode intent = some new →
      IntentMove config s u group (some new)
  | failed {now token revision random : ℕ}
      {policy : GroupIntentStatements.GatewayGroupIntentFailurePolicy} {intent new : IntentRow} :
      s.intents group = some intent →
      GroupIntentStatements.fail config.intent now token revision random policy intent = some new →
      IntentMove config s u group (some new)
  | recovered {now : ℕ} {intent new : IntentRow} :
      s.intents group = some intent →
      GroupIntentStatements.recoverExpired config.intent now intent = some new →
      IntentMove config s u group (some new)

/-- The intent of one group after the intent of another was written. -/
theorem intent_move_at {group other : String} {row : IntentRow}
    (h : other = group → IntentMove config s u group (some row)) :
    IntentMove config s u group (Function.update s.intents other (some row) group) := by
  by_cases heq : group = other
  · subst heq
    rw [Function.update_self]
    exact h rfl
  · rw [Function.update_of_ne heq]
    exact .same

theorem renewed_intent {now token : ℕ} {intent new : IntentRow}
    (h : GroupIntentStatements.renewLease now token intent = some new) :
    ∃ expiresAt, new = { intent with leaseExpiresAt := expiresAt } := by
  unfold GroupIntentStatements.renewLease at h
  split at h
  · exact ⟨_, (Option.some.inj h).symm⟩
  · cases h

theorem quiet_intent_move {group : String} (hq : requestOf config s e = none)
    (h : Outcome config s e u) : IntentMove config s u group (u.intents group) := by
  cases h with
  | changed => cases hq
  | intentClaimed hintent _ hclaim =>
    refine intent_move_at fun heq => ?_
    rw [heq] at hintent
    exact .claimed hintent hclaim rfl rfl
  | renewed _ hrenew | confirmed _ _ hrenew =>
    obtain ⟨_, _, _, _, hcase⟩ := renewLease_cases hrenew
    rcases hcase with ⟨_, _, _, _, _, _, rfl⟩ | ⟨_, intent, new, _, hintent, hnew, rfl⟩
    · exact .same
    · refine intent_move_at fun heq => ?_
      rw [heq] at hintent
      obtain ⟨_, hexpires⟩ := renewed_intent hnew
      exact .renewed hintent hexpires
  | intentWritten _ _ _ hintent _ _ _ _ =>
    refine intent_move_at fun heq => ?_
    rw [heq] at hintent
    exact .renewed hintent rfl
  | intentCompleted hreader hpath hstage hintent hcomplete =>
    refine intent_move_at fun heq => ?_
    rw [heq] at hintent
    exact .completed hreader hpath heq (by rw [hstage]; trivial) hintent hcomplete
  | intentSkipped hreader hpath hstage hintent hskip =>
    refine intent_move_at fun heq => ?_
    rw [heq] at hintent
    exact .completed hreader hpath heq (by rw [hstage]; trivial) hintent hskip
  | intentFailed _ _ _ hintent hfail =>
    refine intent_move_at fun heq => ?_
    rw [heq] at hintent
    exact .failed hintent hfail
  | intentRecovered hintent hrecover =>
    refine intent_move_at fun heq => ?_
    rw [heq] at hintent
    exact .recovered hintent hrecover
  | _ => exact .same

/-- A group event writes the intent of its group, and no other step requests anything. -/
theorem intent_move (config : Config) (s : State) (e : Event) (group : String) :
    (∃ now reason, e = .groupChanged group now reason ∧
      (next config s e).intents group =
        some (GroupIntentStatements.scheduleInTransaction config.intent now reason
          (s.intents group))) ∨
    (∀ revision, requestOf config s e ≠ some (group, revision)) ∧
      IntentMove config s (next config s e) group ((next config s e).intents group) := by
  cases hrequest : requestOf config s e with
  | none => exact .inr ⟨by simp, quiet_intent_move hrequest (next_outcome config s e)⟩
  | some request =>
    cases e with
    | groupChanged other now reason =>
      by_cases heq : group = other
      · subst heq
        exact .inl ⟨now, reason, rfl, Function.update_self ..⟩
      · right
        constructor
        · intro revision hsome
          rw [← hrequest] at hsome
          simp only [requestOf, Option.some.injEq, Prod.mk.injEq] at hsome
          exact heq hsome.1.symm
        · simp only [next, Function.update_of_ne heq]
          exact .same
    | _ => cases hrequest

end Moves

section Reads

variable {config : Config} {h : Recorded} {e : Event}

/-- Calls bear tokens that were drawn, and have a start once they read; what an item or an intent
has settled is among the reads of its group. -/
structure ReadInvariant (h : Recorded) : Prop where
  drawn : ∀ token reader, h.state.readers token = some reader → token < h.state.tokens
  begun : ∀ token start, h.started token = some start →
    token < h.state.tokens ∧ start < h.moment
  started : ∀ token reader, h.state.readers token = some reader → Stage.Started reader.stage →
    ∃ start, h.started token = some start
  settled : ∀ token reader start, h.state.readers token = some reader →
    (∀ revision, reader.path ≠ .refresh revision) → Stage.Settled reader.stage →
    h.started token = some start → start ∈ h.reads reader.group

theorem startOf_some {s : State} {token : ℕ} (h : startOf s e = some token) :
    e = .readGroup token ∧ ∃ reader, s.readers token = some reader ∧ reader.stage = .claimed := by
  cases e with
  | readGroup other =>
    obtain ⟨reader, hreader, hstage⟩ := Option.bind_eq_some_iff.mp h
    split at hstage
    · rename_i hclaimed
      cases hstage
      exact ⟨rfl, reader, hreader, hclaimed⟩
    · cases hstage
  | _ => cases h

/-- A start is recorded once, or now. -/
theorem record_started {u : State} {token start : ℕ}
    (hs : (recordStep config h e u).started token = some start) :
    startOf h.state e = some token ∧ start = h.moment ∨
      startOf h.state e ≠ some token ∧ h.started token = some start := by
  simp only [recordStep] at hs
  split at hs
  · rename_i hstart
    exact .inl ⟨hstart, (Option.some.inj hs).symm⟩
  · rename_i hstart
    exact .inr ⟨hstart, hs⟩

theorem record_started_of {u : State} {token start : ℕ} (hs : h.started token = some start) :
    ∃ start', (recordStep config h e u).started token = some start' := by
  by_cases hstart : startOf h.state e = some token
  · exact ⟨h.moment, by simp [recordStep, hstart]⟩
  · exact ⟨start, by simp [recordStep, hstart, hs]⟩

/-- The reads of a group are kept. -/
theorem record_reads {u : State} {group : String} {start : ℕ} (hs : start ∈ h.reads group) :
    start ∈ (recordStep config h e u).reads group := by
  simp only [recordStep]
  split
  · split
    · exact List.mem_append_right _ hs
    · exact hs
  · exact hs

/-- A settled read is recorded with its start. -/
theorem record_settled {u : State} {token start : ℕ} {reader : Reader}
    (hsettled : settledBy h.state u e = some (token, reader))
    (hs : h.started token = some start) :
    start ∈ (recordStep config h e u).reads reader.group := by
  simp [recordStep, hsettled, hs]

theorem appliedBy_write {s u : State} {token now itemTime limitTime : ℕ} {running found : Bool}
    {reader : Reader} {group : OpenWAGroup} {after : Reader}
    (hreader : s.readers token = some reader) (hstage : reader.stage = .confirmed group)
    (hpath : ∀ revision, reader.path ≠ .refresh revision)
    (hafter : u.readers token = some after) (happlied : after.stage = .applied) :
    appliedBy s u (.upsertGroupDetails token now itemTime limitTime running found) =
      some (token, reader) := by
  have hoptions : readOptions reader = ⟨none, none⟩ := by
    unfold readOptions
    split
    · rename_i revision hrefresh
      exact absurd hrefresh (hpath revision)
    · rfl
  simp [appliedBy, hreader, hstage, hafter, happlied, hoptions, DetailsOptions.Met]

theorem missingBy_answer {s : State} {token : ℕ} {retryAfterMs : Option ℕ} {reader : Reader}
    (hreader : s.readers token = some reader) (hstage : reader.stage = .reading) :
    missingBy s (.answer token (.error (.http 404 retryAfterMs))) = some (token, reader) := by
  simp [missingBy, hreader, hstage]

/-- What an item or an intent settles is recorded for its group. -/
theorem stage_settled {u : State} {token start : ℕ} {reader after : Reader} {stage : Stage}
    (hreader : h.state.readers token = some reader)
    (hpath : ∀ revision, reader.path ≠ .refresh revision)
    (hafter : u.readers token = some after) (hstage : after.stage = stage)
    (hm : StageMove h.state e token reader stage) (hsettled : Stage.Settled stage)
    (hs : h.started token = some start) :
    start ∈ (recordStep config h e u).reads reader.group := by
  cases hm with
  | applied he hbefore =>
    rcases hbefore with hconfirmed | ⟨⟨revision, hrefresh⟩, _⟩
    · refine record_settled ?_ hs
      rw [he, settledBy, appliedBy_write hreader hconfirmed hpath hafter hstage]
      rfl
    · exact absurd hrefresh (hpath revision)
  | failed he hreading =>
    rename_i error
    cases error with
    | http status retryAfterMs =>
      by_cases hmissing : status = 404
      · subst hmissing
        refine record_settled ?_ hs
        rw [he, settledBy, missingBy_answer hreader hreading]
        rfl
      · simp [Stage.Settled, hmissing] at hsettled
    | validation => exact absurd hsettled (by simp [Stage.Settled])
    | network => exact absurd hsettled (by simp [Stage.Settled])
  | _ => exact absurd hsettled (by simp [Stage.Settled])

/-- A call that is moved on was there before, and its read had started unless it starts now. -/
theorem stage_started {token : ℕ} {reader : Reader} {stage : Stage}
    (hm : StageMove h.state e token reader stage) (hs : Stage.Started stage) :
    e = .readGroup token ∧ reader.stage = .claimed ∨ Stage.Started reader.stage := by
  cases hm with
  | reading he hclaimed => exact .inl ⟨he, hclaimed⟩
  | answered _ hreading | failed _ hreading =>
    right
    rw [hreading]
    trivial
  | confirmed hanswered =>
    right
    rw [hanswered]
    trivial
  | applied _ hbefore =>
    right
    rcases hbefore with hconfirmed | ⟨_, hanswered⟩
    · rw [hconfirmed]
      trivial
    · rw [hanswered]
      trivial
  | _ => exact absurd hs (by simp [Stage.Started])

theorem settled_event {token : ℕ} {reader : Reader} {stage : Stage}
    (hm : StageMove h.state e token reader stage) (hs : Stage.Settled stage) (other : ℕ) :
    e ≠ .readGroup other := by
  rintro rfl
  cases hm with
  | applied he => cases he
  | failed he => cases he
  | _ => exact hs.elim

theorem settled_started {stage : Stage} (h : Stage.Settled stage) : Stage.Started stage := by
  unfold Stage.Settled at h
  split at h
  · trivial
  · trivial
  · exact h.elim

theorem read_invariant_step (hi : ReadInvariant h) :
    ReadInvariant (recordStep config h e (next config h.state e)) := by
  have hout := next_outcome config h.state e
  have htokens := (outcome_tokens hout).2
  have horigin : ∀ token after, (next config h.state e).readers token = some after →
      Origin h.state e (next config h.state e) token after :=
    fun _ _ => reader_origin (reader_move hout)
  generalize next config h.state e = u at htokens horigin
  constructor
  · intro token after hafter
    change u.readers token = some after at hafter
    change token < u.tokens
    cases horigin token after hafter with
    | kept hreader =>
      have := hi.drawn token after hreader
      omega
    | drawn htoken hdrawn _ _ _ => omega
    | staged reader hreader _ _ _ =>
      have := hi.drawn token reader hreader
      omega
  · intro token start hstart
    change token < u.tokens ∧ start < h.moment + 1
    rcases record_started hstart with ⟨hnow, rfl⟩ | ⟨_, hbefore⟩
    · obtain ⟨_, reader, hreader, _⟩ := startOf_some hnow
      have := hi.drawn token reader hreader
      omega
    · have := hi.begun token start hbefore
      omega
  · intro token after hafter hstarted
    change u.readers token = some after at hafter
    cases horigin token after hafter with
    | kept hreader =>
      obtain ⟨start, hstart⟩ := hi.started token after hreader hstarted
      exact record_started_of hstart
    | drawn _ _ hstage _ _ =>
      rcases hstage with hclaimed | hreserved
      · rw [hclaimed] at hstarted
        exact hstarted.elim
      · rw [hreserved] at hstarted
        exact hstarted.elim
    | staged reader hreader _ _ hm =>
      rcases stage_started hm hstarted with ⟨he, hclaimed⟩ | hbefore
      · refine ⟨h.moment, ?_⟩
        simp [recordStep, startOf, he, hreader, hclaimed]
      · obtain ⟨start, hstart⟩ := hi.started token reader hreader hbefore
        exact record_started_of hstart
  · intro token after start hafter hpath hsettled hstart
    change u.readers token = some after at hafter
    cases horigin token after hafter with
    | kept hreader =>
      rcases record_started hstart with ⟨hnow, _⟩ | ⟨_, hbefore⟩
      · obtain ⟨_, reader, hreader', hclaimed⟩ := startOf_some hnow
        rw [hreader] at hreader'
        cases hreader'
        rw [hclaimed] at hsettled
        exact hsettled.elim
      · exact record_reads (hi.settled token after start hreader hpath hsettled hbefore)
    | drawn _ _ hstage _ _ =>
      rcases hstage with hclaimed | hreserved
      · rw [hclaimed] at hsettled
        exact hsettled.elim
      · rw [hreserved] at hsettled
        exact hsettled.elim
    | staged reader hreader hsame hgroup hm =>
      rw [hsame] at hpath
      rcases record_started hstart with ⟨hnow, _⟩ | ⟨_, hbefore⟩
      · obtain ⟨he, _⟩ := startOf_some hnow
        exact absurd he (settled_event hm hsettled token)
      · rw [hgroup]
        exact stage_settled hreader hpath hafter rfl hm hsettled hbefore

theorem initial_reads (h₀ : RecordInitial config h) : ReadInvariant h where
  drawn token reader hreader := by simp [h₀.state.readers token] at hreader
  begun token start hstart := by simp [h₀.started token] at hstart
  started token reader hreader := by simp [h₀.state.readers token] at hreader
  settled token reader _ hreader := by simp [h₀.state.readers token] at hreader

theorem reachable_reads (hr : Reachable (recorded config) h) : ReadInvariant h :=
  reachable_invariant (M := recorded config) (I := ReadInvariant) (fun _ => initial_reads)
    (fun _ _ hi _ => read_invariant_step hi) hr

end Reads

end GroupReadHistory
