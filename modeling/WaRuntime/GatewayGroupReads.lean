import Mathlib.Logic.Function.Basic
import WaRuntime.GatewaySyncItemStatements
import WaRuntime.GroupCapabilityRevision

/-! The three readers of group details of one session.
A sync item, a targeted intent and a capability refresh each take the session's limiter, read the
group upstream and write what they read. A transaction is one step, at its commit: it holds every
row that it reads until then, and `now`, its start, may lie anywhere before. A statement over many
rows is one step for each of them. A process that stops takes no further step. -/
namespace GatewayGroupReads

open TransitionRuns GroupCapabilityStatements GatewayRateLimitStatements SharedLeases
open GatewaySyncItemStatements (SyncItemRow)
open GroupIntentStatements (IntentRow IntentConfig)

structure Config where
  rate : RateConfig
  intent : IntentConfig

inductive ReadPath where
  | item (id : ℕ)
  | intent (claimedRevision : ℕ)
  | refresh (expectedRevision : ℕ)
  deriving DecidableEq, Repr

/-- How far a reader is in its service method. -/
inductive Stage where
  | reserved
  | unclaimed
  | claimed
  | reading
  | answered (group : OpenWAGroup)
  | confirmed (group : OpenWAGroup)
  | failed (error : GroupReadError)
  | applied
  | recorded (policy : GatewaySyncFailurePolicy)
  | done
  deriving DecidableEq, Repr

/-- What `getGroup` answers with. -/
structure UpstreamGroup where
  id : String
  details : OpenWAGroup
  deriving DecidableEq, Repr

/-- The local variables of one call, under its lease token. `since` is when its last step ended. -/
structure Reader where
  path : ReadPath
  group : String
  capabilityToken : Option ℕ
  stage : Stage
  since : ℕ
  deriving DecidableEq, Repr

structure State where
  clock : ℕ
  tokens : ℕ
  limits : Option RateLimitRow
  items : ℕ → Option SyncItemRow
  intents : String → Option IntentRow
  groups : String → Option GroupRow
  readers : ℕ → Option Reader

inductive Event where
  | tick (ms : ℕ)
  | publishItem (id now syncRunId : ℕ) (group : String)
  | groupChanged (group : String) (now : ℕ) (reason : String)
  | invalidate (group : String) (now : ℕ) (reason : GroupSendCapabilityReason)
  | replaceSummary (group : String) (now : ℕ) (listed : Option OpenWAGroupSummary)
  | claimItem (id now : ℕ) (running : Bool)
  | claimIntent (group : String) (now : ℕ)
  | reserve (group : String) (expectedRevision now : ℕ)
  | claimRefresh (token now : ℕ) (discovering : Bool)
  | releaseReservation (token now : ℕ)
  | renew (token now : ℕ)
  | readGroup (token : ℕ)
  | answer (token : ℕ) (answer : Except GroupReadError UpstreamGroup)
  | confirm (token now : ℕ)
  | upsertGroupDetails (token now itemTime limitTime : ℕ) (running found : Bool)
  | complete (token now members : ℕ)
  | skipMissing (token now : ℕ)
  | fail (token now random : ℕ)
  | failRefreshAttempt (token now : ℕ)
  | recoverExpiredItem (id now : ℕ)
  | recoverExpiredIntent (group : String) (now : ℕ)
  | recoverExpiredRefresh (group : String) (now : ℕ)
  | releaseExpiredLimits (now : ℕ)

/-- A step of the call that holds `token`. -/
def onReader (s : State) (token : ℕ) (f : Reader → State) : State :=
  match s.readers token with
  | some reader => f reader
  | none => s

def setStage (s : State) (token : ℕ) (reader : Reader) (stage : Stage) : State :=
  { s with
    readers :=
      Function.update s.readers token (some { reader with stage := stage, since := s.clock }) }

/-- A new call, under the token that its transaction drew. -/
def startReader (s : State) (path : ReadPath) (group : String) (stage : Stage) : State :=
  { s with
    tokens := s.tokens + 1
    readers := Function.update s.readers s.tokens (some ⟨path, group, none, stage, s.clock⟩) }

/-- `GatewaySyncItemRepository.claim`; `running` says that the run of the item is RUNNING. Where it
returns null after `ensure`, that statement is still committed. -/
def claimItem (config : Config) (s : State) (id now : ℕ) (running : Bool) : State :=
  match s.items id with
  | none => s
  | some item =>
    if running then
      let row := ensure config.rate now s.limits
      match readyAndRate config.rate now row,
        GatewaySyncItemStatements.claim config.intent.maxAttempts now s.tokens item with
      | some rate, some claimed =>
        { startReader s (.item id) item.groupId .claimed with
          limits := some (acquire now s.tokens rate row)
          items := Function.update s.items id (some claimed) }
      | _, _ => { s with limits := some row }
    else s

/-- `GatewayGroupIntentRepository.claim`. -/
def claimIntent (config : Config) (s : State) (group : String) (now : ℕ) : State :=
  match s.intents group with
  | none => s
  | some intent =>
    let row := ensure config.rate now s.limits
    match readyAndRate config.rate now row,
      GroupIntentStatements.claim config.intent now s.tokens intent with
    | some rate, some claimed =>
      { startReader s (.intent intent.requestedRevision) group .claimed with
        limits := some (acquire now s.tokens rate row)
        intents := Function.update s.intents group (some claimed) }
    | _, _ => { s with limits := some row }

/-- `reserve`, which `refreshGroupCapability` calls first. -/
def reserve (config : Config) (s : State) (group : String) (expectedRevision now : ℕ) : State :=
  let row := ensure config.rate now s.limits
  match readyAndRate config.rate now row with
  | some rate =>
    { startReader s (.refresh expectedRevision) group .reserved with
      limits := some (acquire now s.tokens rate row) }
  | none => { s with limits := some row }

/-- `GatewayCapabilityRepository.claim`. -/
def claimRefresh (s : State) (token now : ℕ) (discovering : Bool) : State :=
  onReader s token fun reader =>
    match reader.path, reader.stage with
    | .refresh expectedRevision, .reserved =>
      match (s.groups reader.group).bind
          (GroupCapabilityStatements.claimRefresh now s.tokens expectedRevision discovering) with
      | some row =>
        { setStage s token { reader with capabilityToken := some s.tokens } .claimed with
          tokens := s.tokens + 1
          groups := Function.update s.groups reader.group (some row) }
      | none => setStage s token reader .unclaimed
    | _, _ => s

def releaseReservation (s : State) (token : ℕ) : State :=
  onReader s token fun reader =>
    match reader.path, reader.stage with
    | .refresh _, .unclaimed =>
      { setStage s token reader .done with limits := s.limits.map (release token) }
    | _, _ => s

/-- `renewLease` of an item or an intent, with the limiter's; `none` where it is rolled back. -/
def renewLease (s : State) (token now : ℕ) (reader : Reader) : Option State :=
  match reader.path with
  | .item id =>
    match (s.items id).bind (GatewaySyncItemStatements.renewLease now token),
      s.limits.bind (GatewayRateLimitStatements.renew now token) with
    | some item, some row =>
      some { s with limits := some row, items := Function.update s.items id (some item) }
    | _, _ => none
  | .intent _ =>
    match (s.intents reader.group).bind (GroupIntentStatements.renewLease now token),
      s.limits.bind (GatewayRateLimitStatements.renew now token) with
    | some intent, some row =>
      some { s with
        limits := some row
        intents := Function.update s.intents reader.group (some intent) }
    | _, _ => none
  | .refresh _ => none

def readGroup (s : State) (token : ℕ) : State :=
  onReader s token fun reader =>
    match reader.stage with
    | .claimed => setStage s token reader .reading
    | _ => s

def answer (s : State) (token : ℕ) (answer : Except GroupReadError UpstreamGroup) : State :=
  onReader s token fun reader =>
    match reader.stage with
    | .reading =>
      setStage s token reader (match answer with
        | .ok group => .answered group.details
        | .error error => .failed error)
    | _ => s

/-- The renewal that an item or an intent needs before its write. -/
def confirm (s : State) (token now : ℕ) : State :=
  onReader s token fun reader =>
    match reader.path, reader.stage with
    | .refresh _, _ => s
    | _, .answered group =>
      match renewLease s token now reader with
      | some u => setStage u token reader (.confirmed group)
      | none => setStage s token reader .done
    | _, _ => s

/-- The upsert on the group of a reader, which is the one that the answer names; `found` says that
the locking SELECT saw the row. -/
def writeGroup (s : State) (now : ℕ) (options : DetailsOptions) (reader : Reader)
    (group : OpenWAGroup) (found : Bool) : State :=
  { s with
    groups :=
      Function.update s.groups reader.group
        (GroupCapabilityRevision.upsertGroupDetails now options group
          (if found then s.groups reader.group else none) (s.groups reader.group)) }

/-- `assertGroupIntentWriteOwnership`, and the WHERE clause of the renewal after the write. -/
def ownedIntent (now token claimedRevision : ℕ) (intent : IntentRow) : Option IntentRow :=
  if GroupIntentStatements.Owned now token intent ∧
      intent.claimedRevision = some claimedRevision then some intent
  else none

def renewIntentAfterWrite (time : ℕ) (intent : IntentRow) : IntentRow :=
  { intent with leaseExpiresAt := some (time + groupReadLeaseMs) }

/-- A transaction that finds its lease lost throws, and leaves everything as it was. -/
def upsertGroupDetails (s : State) (token now itemTime limitTime : ℕ) (running found : Bool) :
    State :=
  onReader s token fun reader =>
    match reader.path, reader.stage with
    | .item id, .confirmed group =>
      match (s.items id).bind fun item =>
          if GatewaySyncItemStatements.Owned now token item ∧ running then
            GatewaySyncItemStatements.renewAfterWrite itemTime token item
          else none,
        s.limits.bind (renewGroupReadPacingLease limitTime token) with
      | some item, some row =>
        { setStage (writeGroup s now ⟨none, none⟩ reader group found) token reader .applied with
          limits := some row
          items := Function.update s.items id (some item) }
      | _, _ => s
    | .intent claimedRevision, .confirmed group =>
      match (s.intents reader.group).bind (ownedIntent now token claimedRevision),
        s.limits.bind (renewGroupReadPacingLease limitTime token) with
      | some intent, some row =>
        { setStage (writeGroup s now ⟨none, none⟩ reader group found) token reader .applied with
          limits := some row
          intents :=
            Function.update s.intents reader.group (some (renewIntentAfterWrite itemTime intent)) }
      | _, _ => s
    | .refresh expectedRevision, .answered group =>
      setStage (writeGroup s now ⟨some expectedRevision, reader.capabilityToken⟩ reader group found)
        token reader .applied
    | _, _ => s

/-- What a reader does once its details are written. -/
def complete (config : Config) (s : State) (token now members : ℕ) : State :=
  onReader s token fun reader =>
    match reader.path, reader.stage with
    | .item id, .applied =>
      match (s.items id).bind (GatewaySyncItemStatements.complete now token members) with
      | some item =>
        { setStage s token reader .done with
          limits := s.limits.map (success config.rate token)
          items := Function.update s.items id (some item) }
      | none => setStage s token reader .done
    | .intent claimedRevision, .applied =>
      match (s.intents reader.group).bind
          (GroupIntentStatements.complete now token claimedRevision) with
      | some intent =>
        { setStage s token reader .done with
          limits := s.limits.map (success config.rate token)
          intents := Function.update s.intents reader.group (some intent) }
      | none => setStage s token reader .done
    | .refresh _, .applied =>
      { setStage s token reader .done with limits := s.limits.map (success config.rate token) }
    | _, _ => s

/-- What an item and an intent do about a 404. -/
def skipMissing (s : State) (token now : ℕ) : State :=
  onReader s token fun reader =>
    match reader.path, reader.stage with
    | .item id, .failed (.http 404 _) =>
      match (s.items id).bind
          (GatewaySyncItemStatements.skip now token "OpenWA returned HTTP 404") with
      | some item =>
        { setStage s token reader .done with
          limits := s.limits.map (release token)
          items := Function.update s.items id (some item) }
      | none => setStage s token reader .done
    | .intent claimedRevision, .failed (.http 404 _) =>
      match (s.intents reader.group).bind
          (GroupIntentStatements.skipMissing now token claimedRevision) with
      | some intent =>
        { setStage s token reader .done with
          limits := s.limits.map (release token)
          intents := Function.update s.intents reader.group (some intent) }
      | none => setStage s token reader .done
    | _, _ => s

/-- The policy by which a call is failed: by the answer, or once answered as a persistence error.
The refresh alone classifies a 404. -/
def failurePolicy (reader : Reader) : Option GatewaySyncFailurePolicy :=
  match reader.path, reader.stage with
  | .refresh _, .failed error => some (classifyGroupReadFailure error)
  | _, .failed (.http 404 _) => none
  | _, .failed error => some (classifyGroupReadFailure error)
  | _, .answered _ => some persistenceFailure
  | _, .confirmed _ => some persistenceFailure
  | _, .applied => some persistenceFailure
  | _, _ => none

/-- `GatewaySyncItemRepository.fail`; `none` is LOST_OWNERSHIP. -/
def failItem (config : Config) (now token random : ℕ) (policy : GatewaySyncFailurePolicy)
    (item : SyncItemRow) (limits : Option RateLimitRow) :
    Option (SyncItemRow × Option RateLimitRow) :=
  (GatewaySyncItemStatements.fail config.intent.maxAttempts now token random policy.code
    policy.retryable item).map fun item =>
      (item, limits.map (failure config.rate now token random policy))

/-- `GatewayGroupIntentRepository.fail`; `none` is LOST_OWNERSHIP. -/
def failIntent (config : Config) (now token claimedRevision random : ℕ)
    (policy : GatewaySyncFailurePolicy) (intent : IntentRow) (limits : Option RateLimitRow) :
    Option (IntentRow × Option RateLimitRow) :=
  (GroupIntentStatements.fail config.intent now token claimedRevision random
    ⟨policy.code, policy.retryable⟩ intent).map fun intent =>
      (intent, limits.map (failure config.rate now token random policy))

/-- `recordSessionRequestOutcome` of a failed request, whose signature has no `retryAfterMs`. -/
def recordSessionRequestFailure (config : Config) (now token random : ℕ)
    (ratePressure reduceRate : Bool) (limits : Option RateLimitRow) : Option RateLimitRow :=
  limits.map
    (failure config.rate now token random ⟨true, ratePressure, reduceRate, none, "REQUEST_FAILED"⟩)

def fail (config : Config) (s : State) (token now random : ℕ) : State :=
  onReader s token fun reader =>
    match reader.path, failurePolicy reader with
    | .item id, some policy =>
      match (s.items id).bind fun item => failItem config now token random policy item s.limits with
      | some (item, limits) =>
        { setStage s token reader .done with
          limits := limits
          items := Function.update s.items id (some item) }
      | none => setStage s token reader .done
    | .intent claimedRevision, some policy =>
      match (s.intents reader.group).bind fun intent =>
          failIntent config now token claimedRevision random policy intent s.limits with
      | some (intent, limits) =>
        { setStage s token reader .done with
          limits := limits
          intents := Function.update s.intents reader.group (some intent) }
      | none => setStage s token reader .done
    | .refresh _, some policy =>
      { setStage s token reader (.recorded policy) with
        limits :=
          recordSessionRequestFailure config now token random policy.ratePressure
            policy.reduceRate s.limits }
    | _, none => s

/-- `failCapabilityRefreshAttempt`, after the limiter has its outcome. -/
def failRefreshAttempt (s : State) (token now : ℕ) : State :=
  onReader s token fun reader =>
    match reader.path, reader.stage, reader.capabilityToken with
    | .refresh expectedRevision, .recorded policy, some capabilityToken =>
      { setStage s token reader .done with
        groups :=
          Function.update s.groups reader.group
            ((s.groups reader.group).map (GroupCapabilityRevision.updateGroup
              (GroupCapabilityStatements.failRefreshAttempt now expectedRevision capabilityToken
                policy.code policy.retryable))) }
    | _, _, _ => s

/-- The limiter is released only with an intent of its session. -/
def recoverExpiredIntent (config : Config) (s : State) (group : String) (now : ℕ) : State :=
  match (s.intents group).bind (GroupIntentStatements.recoverExpired config.intent now) with
  | some intent =>
    { s with
      limits := s.limits.map (releaseExpired now)
      intents := Function.update s.intents group (some intent) }
  | none => s

/-- An update of the row of one group. -/
def onGroup (s : State) (group : String) (f : GroupRow → Option GroupRow) : State :=
  { s with
    groups :=
      Function.update s.groups group
        ((s.groups group).map (GroupCapabilityRevision.updateGroup f)) }

def next (config : Config) (s : State) : Event → State
  | .tick ms => { s with clock := s.clock + ms }
  | .publishItem id now syncRunId group =>
    match s.items id with
    | none =>
      { s with
        items :=
          Function.update s.items id (some (GatewaySyncItemStatements.insertItem now syncRunId group)) }
    | some _ => s
  | .groupChanged group now reason =>
    { onGroup s group (invalidateByEvent now) with
      intents :=
        Function.update s.intents group
          (some (GroupIntentStatements.scheduleInTransaction config.intent now reason
            (s.intents group))) }
  | .invalidate group now reason => onGroup s group (GroupCapabilityStatements.invalidate now reason)
  | .replaceSummary group now listed =>
    { s with
      groups :=
        Function.update s.groups group
          (GroupCapabilityRevision.replaceSummary now listed (s.groups group)) }
  | .claimItem id now running => claimItem config s id now running
  | .claimIntent group now => claimIntent config s group now
  | .reserve group expectedRevision now => reserve config s group expectedRevision now
  | .claimRefresh token now discovering => claimRefresh s token now discovering
  | .releaseReservation token _ => releaseReservation s token
  | .renew token now => onReader s token fun reader => (renewLease s token now reader).getD s
  | .readGroup token => readGroup s token
  | .answer token result => answer s token result
  | .confirm token now => confirm s token now
  | .upsertGroupDetails token now itemTime limitTime running found =>
    upsertGroupDetails s token now itemTime limitTime running found
  | .complete token now members => complete config s token now members
  | .skipMissing token now => skipMissing s token now
  | .fail token now random => fail config s token now random
  | .failRefreshAttempt token now => failRefreshAttempt s token now
  | .recoverExpiredItem id now =>
    { s with
      items :=
        Function.update s.items id
          ((s.items id).map fun item =>
            (GatewaySyncItemStatements.recoverExpired config.intent.maxAttempts now item).getD item) }
  | .recoverExpiredIntent group now => recoverExpiredIntent config s group now
  | .recoverExpiredRefresh group now =>
    onGroup s group (GroupCapabilityStatements.recoverExpiredRefresh now)
  | .releaseExpiredLimits now => { s with limits := s.limits.map (releaseExpired now) }

/-- The start of an event's transaction, and its reader when it is one of a call. -/
def Event.transaction : Event → Option ℕ × ℕ
  | .tick _ | .readGroup _ | .answer _ _ => (none, 0)
  | .publishItem _ now _ _ | .groupChanged _ now _ | .invalidate _ now _
  | .replaceSummary _ now _ | .claimItem _ now _ | .claimIntent _ now | .reserve _ _ now
  | .recoverExpiredItem _ now | .recoverExpiredIntent _ now | .recoverExpiredRefresh _ now
  | .releaseExpiredLimits now | .renew _ now => (none, now)
  | .claimRefresh token now _ | .releaseReservation token now | .confirm token now
  | .upsertGroupDetails token now _ _ _ _ | .complete token now _ | .skipMissing token now
  | .fail token now _ | .failRefreshAttempt token now => (some token, now)

/-- `upsertGroupDetails` reads the clock twice more before it commits. -/
def ClockRead (s : State) : Event → Prop
  | .upsertGroupDetails _ now itemTime limitTime _ _ =>
    now ≤ itemTime ∧ itemTime ≤ limitTime ∧ limitTime ≤ s.clock
  | _ => True

instance (s : State) (e : Event) : Decidable (ClockRead s e) := by
  cases e <;> first
    | exact isTrue trivial
    | exact inferInstanceAs (Decidable (_ ∧ _ ∧ _))

/-- The upstream answers with the group that it is asked for. The client does not compare the ids,
and the write goes to the id of the answer. -/
def AnswersItsGroup (s : State) : Event → Prop
  | .answer token (.ok group) => ∀ reader ∈ s.readers token, group.id = reader.group
  | _ => True

instance (s : State) : (e : Event) → Decidable (AnswersItsGroup s e)
  | .answer _ (.ok _) => inferInstanceAs (Decidable (∀ reader ∈ _, _))
  | .answer _ (.error _) => isTrue trivial
  | .tick .. | .publishItem .. | .groupChanged .. | .invalidate .. | .replaceSummary ..
  | .claimItem .. | .claimIntent .. | .reserve .. | .claimRefresh .. | .releaseReservation ..
  | .renew .. | .readGroup .. | .confirm .. | .upsertGroupDetails .. | .complete ..
  | .skipMissing .. | .fail .. | .failRefreshAttempt .. | .recoverExpiredItem ..
  | .recoverExpiredIntent .. | .recoverExpiredRefresh .. | .releaseExpiredLimits .. =>
    isTrue trivial

/-- A transaction commits after its start, and a call starts one only after its last step. -/
def Enabled (s : State) (e : Event) : Prop :=
  e.transaction.2 ≤ s.clock ∧
    (∀ token ∈ e.transaction.1, ∀ reader ∈ s.readers token, reader.since ≤ e.transaction.2) ∧
    ClockRead s e ∧ AnswersItsGroup s e

instance (s : State) (e : Event) : Decidable (Enabled s e) :=
  inferInstanceAs (Decidable (_ ∧ _ ∧ _ ∧ _))

/-- No call has started, no row is leased; a limiter from before has a rate within the bounds. -/
structure Initial (config : Config) (s : State) : Prop where
  readers : ∀ token, s.readers token = none
  limits : ∀ row, s.limits = some row →
    row.activeLeaseToken = none ∧ row.RateWithin config.rate
  items : ∀ id item, s.items id = some item → item.lease = none
  intents : ∀ group intent, s.intents group = some intent →
    intent.leaseToken = none ∧ intent.claimedRevision = none

def system (config : Config) : System State Event where
  initial := Initial config
  enabled := Enabled
  next := next config

instance (config : Config) (s : State) (e : Event) : Decidable ((system config).enabled s e) :=
  inferInstanceAs (Decidable (Enabled s e))

/-- The events that may take the limiter, with the start of their transaction. -/
def Event.claimsAt : Event → Option ℕ
  | .claimItem _ now _ | .claimIntent _ now | .reserve _ _ now => some now
  | _ => none

/-- All that a step may come to. -/
inductive Outcome (config : Config) (s : State) : Event → State → Prop
  | idle {e : Event} : Outcome config s e s
  | ticked {ms : ℕ} : Outcome config s (.tick ms) { s with clock := s.clock + ms }
  | published {id now syncRunId : ℕ} {group : String} :
      s.items id = none →
      Outcome config s (.publishItem id now syncRunId group)
        { s with
          items :=
            Function.update s.items id
              (some (GatewaySyncItemStatements.insertItem now syncRunId group)) }
  | changed {group : String} {now : ℕ} {reason : String} :
      Outcome config s (.groupChanged group now reason)
        { onGroup s group (invalidateByEvent now) with
          intents :=
            Function.update s.intents group
              (some (GroupIntentStatements.scheduleInTransaction config.intent now reason
                (s.intents group))) }
  | invalidated {group : String} {now : ℕ} {reason : GroupSendCapabilityReason} :
      Outcome config s (.invalidate group now reason)
        (onGroup s group (GroupCapabilityStatements.invalidate now reason))
  | summarized {group : String} {now : ℕ} {listed : Option OpenWAGroupSummary} :
      Outcome config s (.replaceSummary group now listed)
        { s with
          groups :=
            Function.update s.groups group
              (GroupCapabilityRevision.replaceSummary now listed (s.groups group)) }
  | ensured {e : Event} {now : ℕ} :
      e.claimsAt = some now →
      Outcome config s e { s with limits := some (ensure config.rate now s.limits) }
  | itemClaimed {id now rate : ℕ} {item claimed : SyncItemRow} :
      s.items id = some item →
      readyAndRate config.rate now (ensure config.rate now s.limits) = some rate →
      GatewaySyncItemStatements.claim config.intent.maxAttempts now s.tokens item = some claimed →
      Outcome config s (.claimItem id now true)
        { startReader s (.item id) item.groupId .claimed with
          limits := some (acquire now s.tokens rate (ensure config.rate now s.limits))
          items := Function.update s.items id (some claimed) }
  | intentClaimed {group : String} {now rate : ℕ} {intent claimed : IntentRow} :
      s.intents group = some intent →
      readyAndRate config.rate now (ensure config.rate now s.limits) = some rate →
      GroupIntentStatements.claim config.intent now s.tokens intent = some claimed →
      Outcome config s (.claimIntent group now)
        { startReader s (.intent intent.requestedRevision) group .claimed with
          limits := some (acquire now s.tokens rate (ensure config.rate now s.limits))
          intents := Function.update s.intents group (some claimed) }
  | reserved {group : String} {expectedRevision now rate : ℕ} :
      readyAndRate config.rate now (ensure config.rate now s.limits) = some rate →
      Outcome config s (.reserve group expectedRevision now)
        { startReader s (.refresh expectedRevision) group .reserved with
          limits := some (acquire now s.tokens rate (ensure config.rate now s.limits)) }
  | refreshClaimed {token now expectedRevision : ℕ} {discovering : Bool} {reader : Reader}
      {old row : GroupRow} :
      s.readers token = some reader → reader.path = .refresh expectedRevision →
      reader.stage = .reserved → s.groups reader.group = some old →
      GroupCapabilityStatements.claimRefresh now s.tokens expectedRevision discovering old =
        some row →
      Outcome config s (.claimRefresh token now discovering)
        { setStage s token { reader with capabilityToken := some s.tokens } .claimed with
          tokens := s.tokens + 1
          groups := Function.update s.groups reader.group (some row) }
  | refreshUnclaimed {token now expectedRevision : ℕ} {discovering : Bool} {reader : Reader} :
      s.readers token = some reader → reader.path = .refresh expectedRevision →
      reader.stage = .reserved →
      Outcome config s (.claimRefresh token now discovering) (setStage s token reader .unclaimed)
  | released {token now expectedRevision : ℕ} {reader : Reader} :
      s.readers token = some reader → reader.path = .refresh expectedRevision →
      Outcome config s (.releaseReservation token now)
        { setStage s token reader .done with limits := s.limits.map (release token) }
  | renewed {token now : ℕ} {reader : Reader} {u : State} :
      s.readers token = some reader → renewLease s token now reader = some u →
      Outcome config s (.renew token now) u
  | confirmed {token now : ℕ} {reader : Reader} {group : OpenWAGroup} {u : State} :
      s.readers token = some reader → reader.stage = .answered group →
      renewLease s token now reader = some u →
      Outcome config s (.confirm token now) (setStage u token reader (.confirmed group))
  | lost {e : Event} {token : ℕ} {reader : Reader} :
      s.readers token = some reader → Outcome config s e (setStage s token reader .done)
  | started {token : ℕ} {reader : Reader} :
      s.readers token = some reader → reader.stage = .claimed →
      Outcome config s (.readGroup token) (setStage s token reader .reading)
  | answered {token : ℕ} {reader : Reader} {result : Except GroupReadError UpstreamGroup} :
      s.readers token = some reader → reader.stage = .reading →
      Outcome config s (.answer token result)
        (setStage s token reader (match result with
          | .ok group => .answered group.details
          | .error error => .failed error))
  | itemWritten {token now itemTime limitTime id : ℕ} {found : Bool} {reader : Reader}
      {group : OpenWAGroup} {item renewed : SyncItemRow} {limit row : RateLimitRow} :
      s.readers token = some reader → reader.path = .item id →
      reader.stage = .confirmed group → s.items id = some item →
      GatewaySyncItemStatements.Owned now token item →
      GatewaySyncItemStatements.renewAfterWrite itemTime token item = some renewed →
      s.limits = some limit → renewGroupReadPacingLease limitTime token limit = some row →
      Outcome config s (.upsertGroupDetails token now itemTime limitTime true found)
        { setStage (writeGroup s now ⟨none, none⟩ reader group found) token reader .applied with
          limits := some row
          items := Function.update s.items id (some renewed) }
  | intentWritten {token now itemTime limitTime claimedRevision : ℕ} {running found : Bool}
      {reader : Reader} {group : OpenWAGroup} {intent : IntentRow} {limit row : RateLimitRow} :
      s.readers token = some reader → reader.path = .intent claimedRevision →
      reader.stage = .confirmed group → s.intents reader.group = some intent →
      GroupIntentStatements.Owned now token intent →
      intent.claimedRevision = some claimedRevision →
      s.limits = some limit → renewGroupReadPacingLease limitTime token limit = some row →
      Outcome config s (.upsertGroupDetails token now itemTime limitTime running found)
        { setStage (writeGroup s now ⟨none, none⟩ reader group found) token reader .applied with
          limits := some row
          intents :=
            Function.update s.intents reader.group (some (renewIntentAfterWrite itemTime intent)) }
  | refreshWritten {token now itemTime limitTime expectedRevision : ℕ} {running found : Bool}
      {reader : Reader} {group : OpenWAGroup} :
      s.readers token = some reader → reader.path = .refresh expectedRevision →
      reader.stage = .answered group →
      Outcome config s (.upsertGroupDetails token now itemTime limitTime running found)
        (setStage (writeGroup s now ⟨some expectedRevision, reader.capabilityToken⟩ reader group
          found) token reader .applied)
  | itemCompleted {token now members id : ℕ} {reader : Reader} {item completed : SyncItemRow} :
      s.readers token = some reader → reader.path = .item id → reader.stage = .applied →
      s.items id = some item →
      GatewaySyncItemStatements.complete now token members item = some completed →
      Outcome config s (.complete token now members)
        { setStage s token reader .done with
          limits := s.limits.map (success config.rate token)
          items := Function.update s.items id (some completed) }
  | intentCompleted {token now members claimedRevision : ℕ} {reader : Reader}
      {intent completed : IntentRow} :
      s.readers token = some reader → reader.path = .intent claimedRevision →
      reader.stage = .applied → s.intents reader.group = some intent →
      GroupIntentStatements.complete now token claimedRevision intent = some completed →
      Outcome config s (.complete token now members)
        { setStage s token reader .done with
          limits := s.limits.map (success config.rate token)
          intents := Function.update s.intents reader.group (some completed) }
  | refreshCompleted {token now members expectedRevision : ℕ} {reader : Reader} :
      s.readers token = some reader → reader.path = .refresh expectedRevision →
      reader.stage = .applied →
      Outcome config s (.complete token now members)
        { setStage s token reader .done with limits := s.limits.map (success config.rate token) }
  | itemSkipped {token now id : ℕ} {after : Option ℕ} {reader : Reader}
      {item skipped : SyncItemRow} :
      s.readers token = some reader → reader.path = .item id →
      reader.stage = .failed (.http 404 after) → s.items id = some item →
      GatewaySyncItemStatements.skip now token "OpenWA returned HTTP 404" item = some skipped →
      Outcome config s (.skipMissing token now)
        { setStage s token reader .done with
          limits := s.limits.map (release token)
          items := Function.update s.items id (some skipped) }
  | intentSkipped {token now claimedRevision : ℕ} {after : Option ℕ} {reader : Reader}
      {intent skipped : IntentRow} :
      s.readers token = some reader → reader.path = .intent claimedRevision →
      reader.stage = .failed (.http 404 after) → s.intents reader.group = some intent →
      GroupIntentStatements.skipMissing now token claimedRevision intent = some skipped →
      Outcome config s (.skipMissing token now)
        { setStage s token reader .done with
          limits := s.limits.map (release token)
          intents := Function.update s.intents reader.group (some skipped) }
  | itemFailed {token now random id : ℕ} {reader : Reader} {policy : GatewaySyncFailurePolicy}
      {item failed : SyncItemRow} :
      s.readers token = some reader → reader.path = .item id →
      failurePolicy reader = some policy → s.items id = some item →
      GatewaySyncItemStatements.fail config.intent.maxAttempts now token random policy.code
        policy.retryable item = some failed →
      Outcome config s (.fail token now random)
        { setStage s token reader .done with
          limits := s.limits.map (failure config.rate now token random policy)
          items := Function.update s.items id (some failed) }
  | intentFailed {token now random claimedRevision : ℕ} {reader : Reader}
      {policy : GatewaySyncFailurePolicy} {intent failed : IntentRow} :
      s.readers token = some reader → reader.path = .intent claimedRevision →
      failurePolicy reader = some policy → s.intents reader.group = some intent →
      GroupIntentStatements.fail config.intent now token claimedRevision random
        ⟨policy.code, policy.retryable⟩ intent = some failed →
      Outcome config s (.fail token now random)
        { setStage s token reader .done with
          limits := s.limits.map (failure config.rate now token random policy)
          intents := Function.update s.intents reader.group (some failed) }
  | refreshFailed {token now random expectedRevision : ℕ} {reader : Reader}
      {policy : GatewaySyncFailurePolicy} :
      s.readers token = some reader → reader.path = .refresh expectedRevision →
      failurePolicy reader = some policy →
      Outcome config s (.fail token now random)
        { setStage s token reader (.recorded policy) with
          limits :=
            recordSessionRequestFailure config now token random policy.ratePressure
              policy.reduceRate s.limits }
  | attemptFailed {token now expectedRevision capabilityToken : ℕ} {reader : Reader}
      {policy : GatewaySyncFailurePolicy} :
      s.readers token = some reader → reader.path = .refresh expectedRevision →
      Outcome config s (.failRefreshAttempt token now)
        (onGroup (setStage s token reader .done) reader.group
          (GroupCapabilityStatements.failRefreshAttempt now expectedRevision capabilityToken
            policy.code policy.retryable))
  | itemRecovered {id now : ℕ} {item recovered : SyncItemRow} :
      s.items id = some item →
      GatewaySyncItemStatements.recoverExpired config.intent.maxAttempts now item =
        some recovered →
      Outcome config s (.recoverExpiredItem id now)
        { s with items := Function.update s.items id (some recovered) }
  | intentRecovered {group : String} {now : ℕ} {intent recovered : IntentRow} :
      s.intents group = some intent →
      GroupIntentStatements.recoverExpired config.intent now intent = some recovered →
      Outcome config s (.recoverExpiredIntent group now)
        { s with
          limits := s.limits.map (releaseExpired now)
          intents := Function.update s.intents group (some recovered) }
  | refreshRecovered {group : String} {now : ℕ} :
      Outcome config s (.recoverExpiredRefresh group now)
        (onGroup s group (GroupCapabilityStatements.recoverExpiredRefresh now))
  | lapsed {now : ℕ} :
      Outcome config s (.releaseExpiredLimits now)
        { s with limits := s.limits.map (releaseExpired now) }

section Outcomes

variable {config : Config} {s u : State} {token now : ℕ} {reader : Reader}

theorem update_same {α β : Type*} [DecidableEq α] {f : α → β} {a : α} {b : β} (h : f a = b) :
    Function.update f a b = f := by
  subst h
  exact Function.update_eq_self a f

theorem claimItem_outcome (id : ℕ) (running : Bool) :
    Outcome config s (.claimItem id now running) (claimItem config s id now running) := by
  unfold claimItem
  split
  · exact .idle
  · rename_i item hitem
    by_cases hrun : running = true
    · subst hrun
      simp only [if_true]
      split
      · rename_i rate claimed hrate hclaim
        exact .itemClaimed hitem hrate hclaim
      · exact .ensured rfl
    · simp only [hrun]
      exact .idle

theorem claimIntent_outcome (group : String) :
    Outcome config s (.claimIntent group now) (claimIntent config s group now) := by
  unfold claimIntent
  split
  · exact .idle
  · rename_i intent hintent
    simp only
    split
    · rename_i rate claimed hrate hclaim
      exact .intentClaimed hintent hrate hclaim
    · exact .ensured rfl

theorem reserve_outcome (group : String) (expectedRevision : ℕ) :
    Outcome config s (.reserve group expectedRevision now)
      (reserve config s group expectedRevision now) := by
  unfold reserve
  simp only
  split
  · rename_i rate hrate
    exact .reserved hrate
  · exact .ensured rfl

/-- Where there is no such call nothing happens. -/
theorem onReader_outcome {e : Event} {f : Reader → State}
    (h : ∀ reader, s.readers token = some reader → Outcome config s e (f reader)) :
    Outcome config s e (onReader s token f) := by
  unfold onReader
  split
  · rename_i reader hreader
    exact h reader hreader
  · exact .idle

theorem claimRefresh_outcome (discovering : Bool) :
    Outcome config s (.claimRefresh token now discovering) (claimRefresh s token now discovering) := by
  refine onReader_outcome fun reader hreader => ?_
  split
  · rename_i expectedRevision hpath hstage
    split
    · rename_i row hrow
      obtain ⟨old, hold, hclaim⟩ := Option.bind_eq_some_iff.mp hrow
      exact .refreshClaimed hreader hpath hstage hold hclaim
    · exact .refreshUnclaimed hreader hpath hstage
  · exact .idle

theorem releaseReservation_outcome :
    Outcome config s (.releaseReservation token now) (releaseReservation s token) := by
  refine onReader_outcome fun reader hreader => ?_
  split
  · rename_i hpath _
    exact .released hreader hpath
  · exact .idle

theorem renew_outcome :
    Outcome config s (.renew token now)
      (onReader s token fun reader => (renewLease s token now reader).getD s) := by
  refine onReader_outcome fun reader hreader => ?_
  cases hrenew : renewLease s token now reader with
  | none => exact .idle
  | some u => exact .renewed hreader hrenew

theorem readGroup_outcome : Outcome config s (.readGroup token) (readGroup s token) := by
  refine onReader_outcome fun reader hreader => ?_
  split
  · rename_i hstage
    exact .started hreader hstage
  · exact .idle

theorem answer_outcome (result : Except GroupReadError UpstreamGroup) :
    Outcome config s (.answer token result) (answer s token result) := by
  refine onReader_outcome fun reader hreader => ?_
  split
  · rename_i hstage
    exact .answered hreader hstage
  · exact .idle

theorem confirm_outcome : Outcome config s (.confirm token now) (confirm s token now) := by
  refine onReader_outcome fun reader hreader => ?_
  split
  · exact .idle
  · rename_i group hstage _
    split
    · rename_i u hrenew
      exact .confirmed hreader hstage hrenew
    · exact .lost hreader
  · exact .idle

theorem upsertGroupDetails_outcome (itemTime limitTime : ℕ) (running found : Bool) :
    Outcome config s (.upsertGroupDetails token now itemTime limitTime running found)
      (upsertGroupDetails s token now itemTime limitTime running found) := by
  refine onReader_outcome fun reader hreader => ?_
  split
  · rename_i id group hpath hstage
    split
    · rename_i renewed row hitem hrow
      obtain ⟨item, hitem, hrenew⟩ := Option.bind_eq_some_iff.mp hitem
      obtain ⟨limit, hlimit, hrow⟩ := Option.bind_eq_some_iff.mp hrow
      split at hrenew
      · rename_i howned
        rw [howned.2]
        exact .itemWritten hreader hpath hstage hitem howned.1 hrenew hlimit hrow
      · cases hrenew
    · exact .idle
  · rename_i claimedRevision group hpath hstage
    split
    · rename_i intent row hintent hrow
      obtain ⟨old, hintent, howned⟩ := Option.bind_eq_some_iff.mp hintent
      obtain ⟨limit, hlimit, hrow⟩ := Option.bind_eq_some_iff.mp hrow
      unfold ownedIntent at howned
      split at howned
      · rename_i hown
        cases howned
        exact .intentWritten hreader hpath hstage hintent hown.1 hown.2 hlimit hrow
      · cases howned
    · exact .idle
  · rename_i expectedRevision group hpath hstage
    exact .refreshWritten hreader hpath hstage
  · exact .idle

theorem complete_outcome (members : ℕ) :
    Outcome config s (.complete token now members) (complete config s token now members) := by
  refine onReader_outcome fun reader hreader => ?_
  split
  · rename_i id hpath hstage
    split
    · rename_i completed hitem
      obtain ⟨item, hitem, hcomplete⟩ := Option.bind_eq_some_iff.mp hitem
      exact .itemCompleted hreader hpath hstage hitem hcomplete
    · exact .lost hreader
  · rename_i claimedRevision hpath hstage
    split
    · rename_i completed hintent
      obtain ⟨intent, hintent, hcomplete⟩ := Option.bind_eq_some_iff.mp hintent
      exact .intentCompleted hreader hpath hstage hintent hcomplete
    · exact .lost hreader
  · rename_i hpath hstage
    exact .refreshCompleted hreader hpath hstage
  · exact .idle

theorem skipMissing_outcome :
    Outcome config s (.skipMissing token now) (skipMissing s token now) := by
  refine onReader_outcome fun reader hreader => ?_
  split
  · rename_i id after hpath hstage
    split
    · rename_i skipped hitem
      obtain ⟨item, hitem, hskip⟩ := Option.bind_eq_some_iff.mp hitem
      exact .itemSkipped hreader hpath hstage hitem hskip
    · exact .lost hreader
  · rename_i claimedRevision after hpath hstage
    split
    · rename_i skipped hintent
      obtain ⟨intent, hintent, hskip⟩ := Option.bind_eq_some_iff.mp hintent
      exact .intentSkipped hreader hpath hstage hintent hskip
    · exact .lost hreader
  · exact .idle

theorem fail_outcome (random : ℕ) :
    Outcome config s (.fail token now random) (fail config s token now random) := by
  refine onReader_outcome fun reader hreader => ?_
  split
  · rename_i id policy hpath hpolicy
    split
    · rename_i failed limits hbind
      obtain ⟨item, hitem, hfail⟩ := Option.bind_eq_some_iff.mp hbind
      obtain ⟨row, hrow, heq⟩ := Option.map_eq_some_iff.mp hfail
      cases heq
      exact .itemFailed hreader hpath hpolicy hitem hrow
    · exact .lost hreader
  · rename_i claimedRevision policy hpath hpolicy
    split
    · rename_i failed limits hbind
      obtain ⟨intent, hintent, hfail⟩ := Option.bind_eq_some_iff.mp hbind
      obtain ⟨row, hrow, heq⟩ := Option.map_eq_some_iff.mp hfail
      cases heq
      exact .intentFailed hreader hpath hpolicy hintent hrow
    · exact .lost hreader
  · rename_i expectedRevision policy hpath hpolicy
    exact .refreshFailed hreader hpath hpolicy
  · exact .idle

theorem failRefreshAttempt_outcome :
    Outcome config s (.failRefreshAttempt token now) (failRefreshAttempt s token now) := by
  refine onReader_outcome fun reader hreader => ?_
  split
  · rename_i expectedRevision policy capabilityToken hpath hstage hcapability
    exact .attemptFailed hreader hpath
  · exact .idle

theorem recoverExpiredIntent_outcome (group : String) :
    Outcome config s (.recoverExpiredIntent group now)
      (recoverExpiredIntent config s group now) := by
  unfold recoverExpiredIntent
  split
  · rename_i recovered hintent
    obtain ⟨intent, hintent, hrecover⟩ := Option.bind_eq_some_iff.mp hintent
    exact .intentRecovered hintent hrecover
  · exact .idle

/-- Every step is one of the outcomes. -/
theorem next_outcome (config : Config) (s : State) (e : Event) :
    Outcome config s e (next config s e) := by
  cases e with
  | tick ms => exact .ticked
  | publishItem id now syncRunId group =>
    simp only [next]
    split
    · rename_i hnone
      exact .published hnone
    · exact .idle
  | groupChanged group now reason => exact .changed
  | invalidate group now reason => exact .invalidated
  | replaceSummary group now listed => exact .summarized
  | claimItem id now running => exact claimItem_outcome id running
  | claimIntent group now => exact claimIntent_outcome group
  | reserve group expectedRevision now => exact reserve_outcome group expectedRevision
  | claimRefresh token now discovering => exact claimRefresh_outcome discovering
  | releaseReservation token now => exact releaseReservation_outcome
  | renew token now => exact renew_outcome
  | readGroup token => exact readGroup_outcome
  | answer token result => exact answer_outcome result
  | confirm token now => exact confirm_outcome
  | upsertGroupDetails token now itemTime limitTime running found =>
    exact upsertGroupDetails_outcome itemTime limitTime running found
  | complete token now members => exact complete_outcome members
  | skipMissing token now => exact skipMissing_outcome
  | fail token now random => exact fail_outcome random
  | failRefreshAttempt token now => exact failRefreshAttempt_outcome
  | recoverExpiredItem id now =>
    simp only [next]
    cases hitem : s.items id with
    | none =>
      simp only [Option.map_none, update_same hitem]
      exact .idle
    | some item =>
      cases hrecover :
          GatewaySyncItemStatements.recoverExpired config.intent.maxAttempts now item with
      | none =>
        simp only [Option.map_some, hrecover, Option.getD_none, update_same hitem]
        exact .idle
      | some recovered =>
        simp only [Option.map_some, hrecover, Option.getD_some]
        exact .itemRecovered hitem hrecover
  | recoverExpiredIntent group now => exact recoverExpiredIntent_outcome group
  | recoverExpiredRefresh group now => exact .refreshRecovered
  | releaseExpiredLimits now => exact .lapsed

/-- What a renewal needs and leaves. -/
theorem renewLease_cases (h : renewLease s token now reader = some u) :
    ∃ limit row, s.limits = some limit ∧
      GatewayRateLimitStatements.renew now token limit = some row ∧
      ((∃ id item renewed, reader.path = .item id ∧ s.items id = some item ∧
          GatewaySyncItemStatements.renewLease now token item = some renewed ∧
          u = { s with limits := some row, items := Function.update s.items id (some renewed) }) ∨
        ∃ revision intent renewed, reader.path = .intent revision ∧
          s.intents reader.group = some intent ∧
          GroupIntentStatements.renewLease now token intent = some renewed ∧
          u = { s with
            limits := some row
            intents := Function.update s.intents reader.group (some renewed) }) := by
  unfold renewLease at h
  split at h
  · rename_i id hpath
    split at h
    · rename_i renewed row hitem hrow
      obtain ⟨item, hitem, hrenew⟩ := Option.bind_eq_some_iff.mp hitem
      obtain ⟨limit, hlimit, hrow⟩ := Option.bind_eq_some_iff.mp hrow
      cases h
      exact ⟨limit, row, hlimit, hrow, .inl ⟨id, item, renewed, hpath, hitem, hrenew, rfl⟩⟩
    · cases h
  · rename_i revision hpath
    split at h
    · rename_i renewed row hintent hrow
      obtain ⟨intent, hintent, hrenew⟩ := Option.bind_eq_some_iff.mp hintent
      obtain ⟨limit, hlimit, hrow⟩ := Option.bind_eq_some_iff.mp hrow
      cases h
      exact ⟨limit, row, hlimit, hrow,
        .inr ⟨revision, intent, renewed, hpath, hintent, hrenew, rfl⟩⟩
    · cases h
  · cases h

end Outcomes

end GatewayGroupReads
