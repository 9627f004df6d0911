import WaRuntime.PushNames
import WaRuntime.RowBatches

/-! The queue of push names that webhooks leave for the contacts.
A webhook commits an intent together with its runtime event. Ticks of any number of processes claim
intents under a lease, observe the sender, and delete the intent afterwards; they may stop between
any two statements, and a statement that throws may have committed. The retention of runtime events
takes the intents along. `enqueued` and `expired` only record what has happened: the intents in the
order in which they were enqueued, and the numbers of those that went with their event. -/
namespace ObservationIntents

open CanonicalOrders ContactNormalization ContactEvidence ContactProjection ContactMerges
open TransitionRuns RowBatches

inductive ProcessingState where
  | pending
  | processing
  | retry
  | dead
  deriving DecidableEq, Repr

structure IntentInput where
  eventId : String
  sessionId : String
  senderId : String
  pushName : String
  observedAt : ℕ
  deriving DecidableEq, Repr

/-- A row of `contact_message_observation_intents`; no statement reads the number. -/
structure Intent where
  number : ℕ
  input : IntentInput
  processingState : ProcessingState
  attemptCount : ℕ
  nextAttemptAt : ℕ
  leaseToken : Option ℕ
  leaseExpiresAt : Option ℕ
  processingError : Option String
  createdAt : ℕ
  updatedAt : ℕ
  deriving DecidableEq, Repr

structure RuntimeEvent where
  eventId : String
  createdAt : ℕ
  deriving DecidableEq, Repr

def maxAttempts : ℕ := 10

def leaseMs : ℕ := 120000

section Statements

variable (now : ℕ)

/-- INSERT, ON CONFLICT DO NOTHING. -/
def enqueue (number : ℕ) (input : IntentInput) (intents : List Intent) : List Intent :=
  if intents.any (·.input.eventId = input.eventId) then intents
  else intents ++ [⟨number, input, .pending, 0, now, none, none, none, now, now⟩]

def recoverExpired (row : Intent) : Intent :=
  if row.processingState = .processing ∧ ∃ expiresAt ∈ row.leaseExpiresAt, expiresAt < now then
    { row with
      processingState := if maxAttempts ≤ row.attemptCount then .dead else .retry
      nextAttemptAt := if maxAttempts ≤ row.attemptCount then row.nextAttemptAt else now
      leaseToken := none
      leaseExpiresAt := none
      processingError := some "Recovered expired processing lease"
      updatedAt := now }
  else row

/-- The WHERE clause of `candidates`, on rows that no other transaction has locked. -/
def Claimable (locked : List String) (row : Intent) : Prop :=
  row.processingState ∈ [.pending, .retry] ∧ row.nextAttemptAt ≤ now ∧ row.input.eventId ∉ locked

instance (locked : List String) (row : Intent) : Decidable (Claimable now locked row) :=
  inferInstanceAs (Decidable (_ ∧ _ ∧ _))

def candidates (limit : ℕ) (locked : List String) (intents : List Intent) : List Intent :=
  batch ((TotalOrder.ascending ℕ).prod (TotalOrder.ascending ℕ))
    (fun row : Intent => (row.nextAttemptAt, row.createdAt)) (Claimable now locked) limit intents

/-- The UPDATE of `claim`; each candidate has got a token of its own. -/
def claim (granted : List (Intent × ℕ)) (row : Intent) : Intent :=
  match granted.find? fun g => g.1.input.eventId = row.input.eventId with
  | none => row
  | some g =>
    { row with
      processingState := .processing
      attemptCount := row.attemptCount + 1
      leaseToken := some g.2
      leaseExpiresAt := some (now + leaseMs)
      processingError := none
      updatedAt := now }

/-- The WHERE clause of `complete` and of `fail`. -/
def Owned (eventId : String) (leaseToken : ℕ) (row : Intent) : Prop :=
  row.input.eventId = eventId ∧ row.processingState = .processing ∧
    row.leaseToken = some leaseToken

instance (eventId : String) (leaseToken : ℕ) (row : Intent) :
    Decidable (Owned eventId leaseToken row) := inferInstanceAs (Decidable (_ ∧ _ ∧ _))

def complete (eventId : String) (leaseToken : ℕ) (intents : List Intent) : List Intent :=
  intents.filter fun row => ¬ Owned eventId leaseToken row

def retryDelayMs (attemptCount : ℕ) : ℕ := min 900 (5 * 2 ^ (attemptCount - 1)) * 1000

def fail (eventId : String) (leaseToken : ℕ) (error : String) (row : Intent) : Intent :=
  if Owned eventId leaseToken row then
    { row with
      processingState := if maxAttempts ≤ row.attemptCount then .dead else .retry
      nextAttemptAt := if maxAttempts ≤ row.attemptCount then row.nextAttemptAt
        else now + retryDelayMs row.attemptCount
      leaseToken := none
      leaseExpiresAt := none
      processingError := some error
      updatedAt := now }
  else row

/-- The event of a webhook, ON CONFLICT DO NOTHING. -/
def storeEvent (eventId : String) (events : List RuntimeEvent) : List RuntimeEvent :=
  if events.any (·.eventId = eventId) then events else events ++ [⟨eventId, now⟩]

/-- The candidates of `deleteRuntimeEvents`. -/
def expiredEvents (cutoff limit : ℕ) (locked : List String) (events : List RuntimeEvent) :
    List RuntimeEvent :=
  batch ((TotalOrder.ascending ℕ).prod TotalOrder.codePoints)
    (fun e : RuntimeEvent => (e.createdAt, e.eventId))
    (fun e => e.createdAt < cutoff ∧ e.eventId ∉ locked) limit events

end Statements

/-- How far the loop of a tick has come with a claim: it still has to observe, to complete, or, in
its `catch`, to fail. -/
inductive Progress where
  | claimed
  | observed
  | failed
  deriving DecidableEq, Repr

structure Claim where
  input : IntentInput
  leaseToken : ℕ
  progress : Progress
  deriving DecidableEq, Repr

structure State where
  events : List RuntimeEvent
  intents : List Intent
  names : String → PushNames.State
  claims : List Claim
  nextToken : ℕ
  enqueued : List IntentInput
  expired : List ℕ

def initial : State := ⟨[], [], fun _ => PushNames.initial, [], 0, [], []⟩

inductive Event where
  | enqueue (now : ℕ) (enabled : Bool) (input : IntentInput)
  | recoverExpired (now : ℕ)
  | claim (now limit : ℕ) (locked : List String)
  | observe (now leaseToken : ℕ) (candidate : ContactId) (committed returned : Bool)
  | complete (leaseToken : ℕ) (committed returned : Bool)
  | fail (now leaseToken : ℕ) (error : String) (committed : Bool)
  | abandon (leaseToken : ℕ)
  | deleteRuntimeEvents (cutoff limit : ℕ) (locked : List String)
  | contacts (sessionId : String) (event : PushNames.Event)
  deriving Repr

/-- The call of `observeMessageSender` for an intent. -/
def observeCall (now : ℕ) (input : IntentInput) (candidate : ContactId) : PushNames.Event :=
  .observeMessageSender now input.senderId (some input.pushName) input.observedAt input.eventId
    candidate

/-- A message sender is observed for an intent only. -/
def OwnedByIntents : PushNames.Event → Bool
  | .observeMessageSender .. => true
  | _ => false

section System

variable (c : Config) (texts : Texts)

def updateNames (sessionId : String) (n : PushNames.State) (s : State) : State :=
  { s with names := Function.update s.names sessionId n }

/-- The claims of the ticks, after one of them has come further. -/
def progressTo (leaseToken : ℕ) (progress : Progress) (claims : List Claim) : List Claim :=
  claims.map fun k => if k.leaseToken = leaseToken then { k with progress } else k

def dropClaim (leaseToken : ℕ) (claims : List Claim) : List Claim :=
  claims.filter fun k => k.leaseToken ≠ leaseToken

def claimOf (leaseToken : ℕ) (progress : Progress) (s : State) : Option Claim :=
  s.claims.find? fun k => k.leaseToken = leaseToken ∧ k.progress = progress

def step (s : State) : Event → Option State
  | .enqueue now enabled input =>
    let stored := { s with events := storeEvent now input.eventId s.events }
    if enabled ∧ ¬ s.intents.any (·.input.eventId = input.eventId) then
      some { stored with
        intents := enqueue now s.enqueued.length input s.intents
        enqueued := s.enqueued ++ [input] }
    else some stored
  | .recoverExpired now => some { s with intents := s.intents.map (recoverExpired now) }
  | .claim now limit locked =>
    let granted := (candidates now limit locked s.intents).zipIdx s.nextToken
    some { s with
      intents := s.intents.map (claim now granted)
      claims := s.claims ++ granted.map fun g => ⟨g.1.input, g.2, .claimed⟩
      nextToken := s.nextToken + granted.length }
  | .observe now leaseToken candidate committed returned =>
    (claimOf leaseToken .claimed s).bind fun k =>
      let moved := { s with
        claims := progressTo leaseToken (if returned then .observed else .failed) s.claims }
      if committed then
        (PushNames.step c texts (s.names k.input.sessionId) (observeCall now k.input candidate)).map
          fun n => updateNames k.input.sessionId n moved
      else guarded (returned = false) moved
  | .complete leaseToken committed returned =>
    (claimOf leaseToken .observed s).bind fun k =>
      guarded (returned → committed) { s with
        intents := if committed then complete k.input.eventId leaseToken s.intents else s.intents
        claims := if returned then dropClaim leaseToken s.claims
          else progressTo leaseToken .failed s.claims }
  | .fail now leaseToken error committed =>
    (claimOf leaseToken .failed s).map fun k => { s with
      intents := if committed then s.intents.map (fail now k.input.eventId leaseToken error)
        else s.intents
      claims := dropClaim leaseToken s.claims }
  | .abandon leaseToken => some { s with claims := dropClaim leaseToken s.claims }
  | .deleteRuntimeEvents cutoff limit locked =>
    let deleted := expiredEvents cutoff limit locked s.events
    let gone := fun row : Intent => row.input.eventId ∈ deleted.map RuntimeEvent.eventId
    some { s with
      events := s.events.filter (· ∉ deleted)
      intents := s.intents.filter fun row => ¬ gone row
      expired := s.expired ++ (s.intents.filter gone).map Intent.number }
  | .contacts sessionId event =>
    if OwnedByIntents event then none
    else (PushNames.step c texts (s.names sessionId) event).map fun n => updateNames sessionId n s

def system : System State Event := ofStep (· = initial) (step c texts)

end System

/-- The observation that an intent stands for, if its sender and its name make one. -/
def observationOf (texts : Texts) (input : IntentInput) : Option PushNames.Observation :=
  PushNames.senderObservation texts input.senderId (some input.pushName) input.observedAt
    input.eventId

/-- The observation has been made. -/
def Applied (texts : Texts) (s : State) (input : IntentInput) : Prop :=
  ∀ o, observationOf texts input = some o → o ∈ (s.names input.sessionId).observed

/-- Ten attempts at most, and a row is given up after ten only. -/
structure Counted (row : Intent) : Prop where
  bounded : row.attemptCount ≤ maxAttempts
  remaining : row.processingState ∈ [.pending, .retry] → row.attemptCount < maxAttempts
  dead : row.processingState = .dead → row.attemptCount = maxAttempts

/-- Where an observation of a session comes from. -/
def Sourced (texts : Texts) (s : State) (sessionId : String) (o : PushNames.Observation) : Prop :=
  o.origin = .snapshotPage ∨
    ∃ input ∈ s.enqueued, input.sessionId = sessionId ∧ observationOf texts input = some o

structure Inv (c : Config) (texts : Texts) (s : State) : Prop where
  keyed : (s.intents.map fun row => row.input.eventId).Nodup
  enqueued : ∀ row ∈ s.intents, s.enqueued[row.number]? = some row.input
  counted : ∀ row ∈ s.intents, Counted row
  leased : ∀ row ∈ s.intents, ∀ token, row.leaseToken = some token → token < s.nextToken
  claimed : ∀ k ∈ s.claims, k.input ∈ s.enqueued ∧ k.leaseToken < s.nextToken
  alike : ∀ k ∈ s.claims, ∀ k' ∈ s.claims, k.leaseToken = k'.leaseToken → k.input = k'.input
  matching : ∀ k ∈ s.claims, ∀ row ∈ s.intents, row.leaseToken = some k.leaseToken →
    row.input = k.input
  applied : ∀ k ∈ s.claims, k.progress = .observed → Applied texts s k.input
  accounted : ∀ number input, s.enqueued[number]? = some input →
    (∃ row ∈ s.intents, row.number = number) ∨ number ∈ s.expired ∨ Applied texts s input
  sound : ∀ sessionId, WellFormed (s.names sessionId).tables ∧
    PushNames.Agrees c (s.names sessionId).tables (s.names sessionId).observed
  sourced : ∀ sessionId, ∀ o ∈ (s.names sessionId).observed, Sourced texts s sessionId o

section Preservation

variable {c : Config} {texts : Texts} {s u : State} {row : Intent} {k : Claim} {input : IntentInput}
  {now token : ℕ} {sessionId : String}

theorem inv_initial : Inv c texts initial := by
  have hsound : ∀ sessionId : String, WellFormed (initial.names sessionId).tables ∧
      PushNames.Agrees c (initial.names sessionId).tables (initial.names sessionId).observed :=
    fun _ => PushNames.reachable_sound (reachable_of_initial rfl : Reachable
      (PushNames.system c texts) PushNames.initial)
  constructor <;> first | exact hsound | simp [initial, PushNames.initial]

theorem intent_eq (hi : Inv c texts s) {a b : Intent} (ha : a ∈ s.intents) (hb : b ∈ s.intents)
    (h : a.input.eventId = b.input.eventId) : a = b :=
  List.inj_on_of_nodup_map hi.keyed ha hb h

theorem claimOf_some {progress : Progress} (h : claimOf token progress s = some k) :
    k ∈ s.claims ∧ k.leaseToken = token ∧ k.progress = progress := by
  have hp := List.find?_some h
  rw [decide_eq_true_eq] at hp
  exact ⟨List.mem_of_find?_eq_some h, hp⟩

theorem mem_progressTo {progress : Progress} {claims : List Claim}
    (h : k ∈ progressTo token progress claims) : ∃ k₀ ∈ claims, k.input = k₀.input ∧
      k.leaseToken = k₀.leaseToken ∧
        (k = k₀ ∨ k₀.leaseToken = token ∧ k.progress = progress) := by
  obtain ⟨k₀, hk₀, rfl⟩ := List.mem_map.mp h
  refine ⟨k₀, hk₀, ?_⟩
  split
  · rename_i htoken
    exact ⟨rfl, rfl, .inr ⟨htoken, rfl⟩⟩
  · exact ⟨rfl, rfl, .inl rfl⟩

/-- An UPDATE that leaves the input of a row alone and gives out no tokens. -/
theorem inv_map {f : Intent → Intent} (hi : Inv c texts s)
    (hinput : ∀ row, (f row).number = row.number ∧ (f row).input = row.input)
    (hcounted : ∀ row, Counted row → Counted (f row))
    (hlease : ∀ row, (f row).leaseToken = none ∨ (f row).leaseToken = row.leaseToken) :
    Inv c texts { s with intents := s.intents.map f } := by
  have hold : ∀ row token, (f row).leaseToken = some token → row.leaseToken = some token := by
    intro row token h
    rcases hlease row with hnone | hsame
    · rw [hnone] at h
      cases h
    · rw [← hsame, h]
  refine ⟨?_, fun row hrow => ?_, fun row hrow => ?_, fun row hrow token htoken => ?_, hi.claimed,
    hi.alike, fun k hk row hrow htoken => ?_, hi.applied, fun number input hget => ?_, hi.sound,
    hi.sourced⟩
  · rw [List.map_map]
    have hkeys : s.intents.map ((fun row : Intent => row.input.eventId) ∘ f) =
        s.intents.map fun row => row.input.eventId :=
      List.map_congr_left fun row _ => congrArg IntentInput.eventId (hinput row).2
    rw [hkeys]
    exact hi.keyed
  all_goals try obtain ⟨old, hmem, rfl⟩ := List.mem_map.mp hrow
  · rw [(hinput old).1, (hinput old).2]
    exact hi.enqueued old hmem
  · exact hcounted old (hi.counted old hmem)
  · exact hi.leased old hmem token (hold old token htoken)
  · rw [(hinput old).2]
    exact hi.matching k hk old hmem (hold old _ htoken)
  · rcases hi.accounted number input hget with ⟨row, hrow, rfl⟩ | h
    · exact .inl ⟨f row, List.mem_map_of_mem hrow, (hinput row).1⟩
    · exact .inr h

/-- A DELETE of rows that are accounted for. -/
theorem inv_filter {p : Intent → Bool} {events : List RuntimeEvent} {expired : List ℕ}
    (hi : Inv c texts s)
    (hexpired : s.expired ⊆ expired)
    (hdropped : ∀ row ∈ s.intents, p row = false →
      row.number ∈ expired ∨ Applied texts s row.input) :
    Inv c texts { s with
      events := events, intents := s.intents.filter p, expired := expired } := by
  have hsub : (s.intents.filter p).Sublist s.intents := List.filter_sublist
  refine ⟨(hsub.map _).nodup hi.keyed, fun row hrow => hi.enqueued row (hsub.subset hrow),
    fun row hrow => hi.counted row (hsub.subset hrow),
    fun row hrow => hi.leased row (hsub.subset hrow), hi.claimed, hi.alike,
    fun k hk row hrow => hi.matching k hk row (hsub.subset hrow), hi.applied,
    fun number input hget => ?_, hi.sound, hi.sourced⟩
  rcases hi.accounted number input hget with ⟨row, hrow, rfl⟩ | hexp | happ
  · cases hp : p row with
    | true => exact .inl ⟨row, List.mem_filter.mpr ⟨hrow, hp⟩, rfl⟩
    | false =>
      obtain rfl : row.input = input := Option.some.inj ((hi.enqueued row hrow).symm.trans hget)
      exact .inr (hdropped row hrow hp)
  · exact .inr (.inl (hexpired hexp))
  · exact .inr (.inr happ)

/-- The ticks may drop claims and go on with them; an observation is not claimed to be made before
it has been made. -/
theorem inv_claims {claims : List Claim} (hi : Inv c texts s)
    (hfrom : ∀ k ∈ claims, ∃ k₀ ∈ s.claims, k.input = k₀.input ∧ k.leaseToken = k₀.leaseToken ∧
      (k.progress = .observed → k₀.progress = .observed ∨ Applied texts s k.input)) :
    Inv c texts { s with claims := claims } := by
  refine ⟨hi.keyed, hi.enqueued, hi.counted, hi.leased, fun k hk => ?_, fun k hk k' hk' heq => ?_,
    fun k hk => ?_, fun k hk hobserved => ?_, hi.accounted, hi.sound, hi.sourced⟩
  all_goals obtain ⟨k₀, hk₀, hinput, htoken, hprogress⟩ := hfrom k hk
  · rw [hinput, htoken]
    exact hi.claimed k₀ hk₀
  · obtain ⟨k₁, hk₁, hinput', htoken', _⟩ := hfrom k' hk'
    rw [hinput, hinput']
    exact hi.alike k₀ hk₀ k₁ hk₁ (by rw [← htoken, ← htoken', heq])
  · rw [hinput, htoken]
    exact hi.matching k₀ hk₀
  · rcases hprogress hobserved with hold | happ
    · rw [hinput]
      exact hi.applied k₀ hk₀ hold
    · exact happ

/-- A transaction on the contacts of one session, which may add to its observations. -/
theorem inv_names {n : PushNames.State} (hi : Inv c texts s)
    (hobserved : (s.names sessionId).observed ⊆ n.observed)
    (hsound : WellFormed n.tables ∧ PushNames.Agrees c n.tables n.observed)
    (hnew : ∀ o ∈ n.observed, o ∈ (s.names sessionId).observed ∨ Sourced texts s sessionId o) :
    Inv c texts (updateNames sessionId n s) := by
  have hkept : ∀ input, Applied texts s input → Applied texts (updateNames sessionId n s) input := by
    intro input happ o ho
    have hmem := happ o ho
    by_cases hsame : input.sessionId = sessionId
    · rw [hsame] at hmem
      simpa [updateNames, hsame] using hobserved hmem
    · simpa [updateNames, Function.update_of_ne hsame] using hmem
  refine ⟨hi.keyed, hi.enqueued, hi.counted, hi.leased, hi.claimed, hi.alike, hi.matching,
    fun k hk hobs => hkept k.input (hi.applied k hk hobs), fun number input hget => ?_,
    fun sid => ?_, fun sid o ho => ?_⟩
  · rcases hi.accounted number input hget with hrow | hexp | happ
    · exact .inl hrow
    · exact .inr (.inl hexp)
    · exact .inr (.inr (hkept input happ))
  · by_cases hsame : sid = sessionId
    · subst hsame
      simpa [updateNames] using hsound
    · simpa [updateNames, Function.update_of_ne hsame] using hi.sound sid
  · by_cases hsame : sid = sessionId
    · subst hsame
      have ho' : o ∈ n.observed := by simpa [updateNames] using ho
      rcases hnew o ho' with hold | hsrc
      · exact hi.sourced sid o hold
      · exact hsrc
    · have ho' : o ∈ (s.names sid).observed := by
        simpa [updateNames, Function.update_of_ne hsame] using ho
      exact hi.sourced sid o ho'

/-- A row whose attempts are used up is given up. -/
theorem counted_ended {attempts : ℕ} (hrow : Counted row) (hattempts : attempts = row.attemptCount)
    {ended : Intent} (hcount : ended.attemptCount = attempts)
    (hstate : ended.processingState = if maxAttempts ≤ attempts then .dead else .retry) :
    Counted ended := by
  have hle := hrow.bounded
  subst hattempts
  refine ⟨by omega, fun hopen => ?_, fun hdead => ?_⟩
  · by_contra hge
    rw [hstate, if_pos (by omega)] at hopen
    simp at hopen
  · by_contra hne
    rw [hstate, if_neg (by omega)] at hdead
    cases hdead

theorem recoverExpired_counted (hrow : Counted row) : Counted (recoverExpired now row) := by
  unfold recoverExpired
  split
  · exact counted_ended hrow rfl rfl rfl
  · exact hrow

theorem fail_counted {eventId error : String} (hrow : Counted row) :
    Counted (fail now eventId token error row) := by
  unfold fail
  split
  · exact counted_ended hrow rfl rfl rfl
  · exact hrow

theorem inv_recover (hi : Inv c texts s) :
    Inv c texts { s with intents := s.intents.map (recoverExpired now) } := by
  refine inv_map hi (fun row => ?_) (fun _ => recoverExpired_counted) fun row => ?_
  · unfold recoverExpired
    split <;> exact ⟨rfl, rfl⟩
  · unfold recoverExpired
    split
    · exact .inl rfl
    · exact .inr rfl

theorem inv_fail {eventId error : String} (hi : Inv c texts s) :
    Inv c texts { s with intents := s.intents.map (fail now eventId token error) } := by
  refine inv_map hi (fun row => ?_) (fun _ => fail_counted) fun row => ?_
  · unfold fail
    split <;> exact ⟨rfl, rfl⟩
  · unfold fail
    split
    · exact .inl rfl
    · exact .inr rfl

theorem inv_drop (hi : Inv c texts s) :
    Inv c texts { s with claims := dropClaim token s.claims } :=
  inv_claims hi fun k hk => ⟨k, (List.mem_filter.mp hk).1, rfl, rfl, .inl⟩

/-- What a claim has observed may be deleted: its row is the one that the claim was made for. -/
theorem inv_complete (hi : Inv c texts s) (hk : k ∈ s.claims) (hobserved : k.progress = .observed) :
    Inv c texts { s with intents := complete k.input.eventId k.leaseToken s.intents } := by
  refine inv_filter hi (fun _ h => h) fun row hrow hp => ?_
  have howned : Owned k.input.eventId k.leaseToken row := by simpa using hp
  rw [hi.matching k hk row hrow howned.2.2]
  exact .inr (hi.applied k hk hobserved)

theorem inv_enqueue {enabled : Bool} (hi : Inv c texts s)
    (h : step c texts s (.enqueue now enabled input) = some u) : Inv c texts u := by
  simp only [step] at h
  split at h
  · rename_i hnew
    obtain ⟨_, hfree⟩ := hnew
    obtain rfl := Option.some.inj h
    have hkeys : ∀ row ∈ s.intents, row.input.eventId ≠ input.eventId := by simpa using hfree
    have happend : enqueue now s.enqueued.length input s.intents = s.intents ++
        [⟨s.enqueued.length, input, .pending, 0, now, none, none, none, now, now⟩] := if_neg hfree
    have hlater : ∀ x ∈ s.enqueued, x ∈ s.enqueued ++ [input] := fun x hx =>
      List.mem_append_left _ hx
    simp only [happend]
    refine ⟨?_, fun row hrow => ?_, fun row hrow => ?_, fun row hrow token htoken => ?_,
      fun k hk => ?_, hi.alike, fun k hk row hrow htoken => ?_, hi.applied,
      fun number x hget => ?_, hi.sound, fun sid o ho => ?_⟩
    · rw [List.map_append, List.map_singleton]
      refine List.Nodup.append hi.keyed (List.nodup_singleton _) fun key hkey hnew => ?_
      obtain ⟨row, hrow, rfl⟩ := List.mem_map.mp hkey
      exact hkeys row hrow (List.mem_singleton.mp hnew)
    · rcases List.mem_append.mp hrow with hold | hnew
      · have hget := hi.enqueued row hold
        rwa [List.getElem?_append_left (List.getElem?_eq_some_iff.mp hget).1]
      · rw [List.mem_singleton.mp hnew]
        exact List.getElem?_concat_length
    · rcases List.mem_append.mp hrow with hold | hnew
      · exact hi.counted row hold
      · rw [List.mem_singleton.mp hnew]
        exact ⟨Nat.zero_le _, fun _ => show 0 < maxAttempts by decide, fun hdead => by cases hdead⟩
    · rcases List.mem_append.mp hrow with hold | hnew
      · exact hi.leased row hold token htoken
      · rw [List.mem_singleton.mp hnew] at htoken
        cases htoken
    · exact ⟨hlater _ (hi.claimed k hk).1, (hi.claimed k hk).2⟩
    · rcases List.mem_append.mp hrow with hold | hnew
      · exact hi.matching k hk row hold htoken
      · rw [List.mem_singleton.mp hnew] at htoken
        cases htoken
    · by_cases hlast : number = s.enqueued.length
      · exact .inl ⟨_, List.mem_append_right _ List.mem_cons_self, hlast.symm⟩
      · have hlt := (List.getElem?_eq_some_iff.mp hget).1
        rw [List.length_append, List.length_singleton] at hlt
        rw [List.getElem?_append_left (by omega)] at hget
        rcases hi.accounted number x hget with ⟨row, hrow, heq⟩ | hrest
        · exact .inl ⟨row, List.mem_append_left _ hrow, heq⟩
        · exact .inr hrest
    · rcases hi.sourced sid o ho with hpage | ⟨x, hx, hsrc⟩
      · exact .inl hpage
      · exact .inr ⟨x, hlater x hx, hsrc⟩
  · obtain rfl := Option.some.inj h
    exact ⟨hi.keyed, hi.enqueued, hi.counted, hi.leased, hi.claimed, hi.alike, hi.matching, hi.applied,
      hi.accounted, hi.sound, hi.sourced⟩

/-- The rows that a claim gets, each with a token of its own that nobody has had before. -/
structure Grants (s : State) (now : ℕ) (granted : List (Intent × ℕ)) : Prop where
  mem : ∀ g ∈ granted, g.1 ∈ s.intents
  claimable : ∀ g ∈ granted, g.1.processingState ∈ [.pending, .retry]
  fresh : ∀ g ∈ granted, s.nextToken ≤ g.2 ∧ g.2 < s.nextToken + granted.length
  distinct : ∀ g ∈ granted, ∀ g' ∈ granted, g.2 = g'.2 → g.1 = g'.1

theorem claim_grants (s : State) (now limit : ℕ) (locked : List String) :
    Grants s now ((candidates now limit locked s.intents).zipIdx s.nextToken) := by
  have hmem : ∀ g ∈ (candidates now limit locked s.intents).zipIdx s.nextToken,
      g.1 ∈ candidates now limit locked s.intents := by
    rintro ⟨row, token⟩ hg
    exact List.fst_mem_of_mem_zipIdx hg
  refine ⟨fun g hg => (mem_batch (hmem g hg)).1, fun g hg => (mem_batch (hmem g hg)).2.1,
    fun g hg => ?_, fun g hg g' hg' htoken => ?_⟩
  · obtain ⟨hle, hlt, _⟩ := List.mem_zipIdx (x := g.1) (i := g.2) hg
    rw [List.length_zipIdx]
    exact ⟨hle, hlt⟩
  · obtain ⟨_, _, hrow⟩ := List.mem_zipIdx (x := g.1) (i := g.2) hg
    obtain ⟨_, _, hrow'⟩ := List.mem_zipIdx (x := g'.1) (i := g'.2) hg'
    rw [hrow, hrow']
    congr 2

/-- A row after a claim: it is as it was, or it is one of those that the claim has got. -/
inductive ClaimMove (granted : List (Intent × ℕ)) (row new : Intent) : Prop where
  | same : new = row → ClaimMove granted row new
  | taken (token : ℕ) : (row, token) ∈ granted → new.number = row.number → new.input = row.input →
      new.processingState = .processing → new.attemptCount = row.attemptCount + 1 →
      new.leaseToken = some token → ClaimMove granted row new

theorem claim_moves {granted : List (Intent × ℕ)} (hi : Inv c texts s) (hg : Grants s now granted)
    (hrow : row ∈ s.intents) : ClaimMove granted row (claim now granted row) := by
  unfold claim
  split
  · exact .same rfl
  · rename_i g hfind
    have hmem := List.mem_of_find?_eq_some hfind
    have hkey : g.1.input.eventId = row.input.eventId := by simpa using List.find?_some hfind
    have hsame : g.1 = row := intent_eq hi (hg.mem g hmem) hrow hkey
    exact .taken g.2 (hsame ▸ hmem) rfl rfl rfl rfl rfl

theorem claimed_counted {granted : List (Intent × ℕ)} {new : Intent} (hg : Grants s now granted)
    (hrow : Counted row) (hm : ClaimMove granted row new) : Counted new := by
  cases hm with
  | same h => rwa [h]
  | taken token hmem _ _ hstate hcount _ =>
    have hlt := hrow.remaining (hg.claimable _ hmem)
    refine ⟨by omega, fun hopen => ?_, fun hdead => ?_⟩
    · rw [hstate] at hopen
      simp at hopen
    · rw [hstate] at hdead
      cases hdead

theorem inv_claim {granted : List (Intent × ℕ)} (hi : Inv c texts s) (hg : Grants s now granted) :
    Inv c texts { s with
      intents := s.intents.map (claim now granted)
      claims := s.claims ++ granted.map fun g => ⟨g.1.input, g.2, .claimed⟩
      nextToken := s.nextToken + granted.length } := by
  have hsame : ∀ row ∈ s.intents, (claim now granted row).number = row.number ∧
      (claim now granted row).input = row.input := by
    intro row hrow
    cases claim_moves hi hg hrow with
    | same h => rw [h]; exact ⟨rfl, rfl⟩
    | taken _ _ hnumber hinput => exact ⟨hnumber, hinput⟩
  have hinput : ∀ row ∈ s.intents, (claim now granted row).input = row.input :=
    fun row hrow => (hsame row hrow).2
  refine ⟨?_, fun row hrow => ?_, fun row hrow => ?_, fun row hrow token htoken => ?_,
    fun k hk => ?_, fun k hk k' hk' heq => ?_, fun k hk row hrow htoken => ?_,
    fun k hk hobserved => ?_, fun number input hget => ?_, hi.sound, hi.sourced⟩
  · rw [List.map_map]
    have hkeys : s.intents.map ((fun row : Intent => row.input.eventId) ∘ claim now granted) =
        s.intents.map fun row => row.input.eventId :=
      List.map_congr_left fun row hrow => congrArg IntentInput.eventId (hinput row hrow)
    rw [hkeys]
    exact hi.keyed
  all_goals try obtain ⟨old, hmem, rfl⟩ := List.mem_map.mp hrow
  · rw [(hsame old hmem).1, hinput old hmem]
    exact hi.enqueued old hmem
  · exact claimed_counted hg (hi.counted old hmem) (claim_moves hi hg hmem)
  · cases claim_moves hi hg hmem with
    | same h =>
      rw [h] at htoken
      exact Nat.lt_add_right _ (hi.leased old hmem token htoken)
    | taken t ht _ _ _ _ hlease =>
      rw [hlease] at htoken
      rw [← Option.some.inj htoken]
      exact (hg.fresh _ ht).2
  · rcases List.mem_append.mp hk with hold | hnew
    · exact ⟨(hi.claimed k hold).1, Nat.lt_add_right _ (hi.claimed k hold).2⟩
    · obtain ⟨g, hmem, rfl⟩ := List.mem_map.mp hnew
      exact ⟨List.mem_of_getElem? (hi.enqueued _ (hg.mem g hmem)), (hg.fresh g hmem).2⟩
  · rcases List.mem_append.mp hk with hold | hnew
    · rcases List.mem_append.mp hk' with hold' | hnew'
      · exact hi.alike k hold k' hold' heq
      · obtain ⟨g, hmem, rfl⟩ := List.mem_map.mp hnew'
        have hlt := (hi.claimed k hold).2
        have hge := (hg.fresh g hmem).1
        simp only at heq
        omega
    · obtain ⟨g, hmem, rfl⟩ := List.mem_map.mp hnew
      rcases List.mem_append.mp hk' with hold' | hnew'
      · have hlt := (hi.claimed k' hold').2
        have hge := (hg.fresh g hmem).1
        simp only at heq
        omega
      · obtain ⟨g', hmem', rfl⟩ := List.mem_map.mp hnew'
        exact congrArg Intent.input (hg.distinct g hmem g' hmem' heq)
  · rw [hinput old hmem]
    rcases List.mem_append.mp hk with hold | hnew
    · -- an earlier claim has an earlier token
      have hlt := (hi.claimed k hold).2
      cases claim_moves hi hg hmem with
      | same h => exact hi.matching k hold old hmem (h ▸ htoken)
      | taken t ht _ _ _ _ hlease =>
        rw [hlease] at htoken
        have heq := Option.some.inj htoken
        have hge := (hg.fresh _ ht).1
        simp only at hge
        omega
    · obtain ⟨g, hgmem, rfl⟩ := List.mem_map.mp hnew
      cases claim_moves hi hg hmem with
      | same h =>
        rw [h] at htoken
        have hlt := hi.leased old hmem _ htoken
        have hge := (hg.fresh g hgmem).1
        simp only at hlt
        omega
      | taken t ht _ _ _ _ hlease =>
        rw [hlease] at htoken
        have hsame := hg.distinct _ ht g hgmem (Option.some.inj htoken)
        exact congrArg Intent.input hsame
  · rcases List.mem_append.mp hk with hold | hnew
    · exact hi.applied k hold hobserved
    · obtain ⟨g, _, rfl⟩ := List.mem_map.mp hnew
      cases hobserved
  · rcases hi.accounted number input hget with ⟨row, hrow, rfl⟩ | hrest
    · exact .inl ⟨_, List.mem_map_of_mem hrow, (hsame row hrow).1⟩
    · exact .inr hrest

theorem call_observes {n n' : PushNames.State} {candidate : ContactId}
    (h : PushNames.step c texts n (observeCall now input candidate) = some n') :
    n'.observed = n.observed ++ (observationOf texts input).toList := by
  unfold observationOf
  simp only [PushNames.step, observeCall] at h
  split at h <;> rename_i ho <;> obtain rfl := Option.some.inj h <;> simp [ho]

/-- The other transactions observe what the pages of snapshots bring. -/
theorem others_observe_pages {n n' : PushNames.State} {e : PushNames.Event}
    (h : PushNames.step c texts n e = some n') (he : OwnedByIntents e = false) :
    ∃ made, n'.observed = n.observed ++ made ∧ ∀ o ∈ made, o.origin = .snapshotPage := by
  have hnothing : n'.observed = n.observed →
      ∃ made, n'.observed = n.observed ++ made ∧ ∀ o ∈ made, o.origin = .snapshotPage :=
    fun hsame => ⟨[], by rw [hsame, List.append_nil], by simp⟩
  cases e with
  | observeMessageSender => cases he
  | ingestPushNames =>
    obtain ⟨⟨tables, made⟩, hmade, rfl⟩ := Option.map_eq_some_iff.mp h
    exact ⟨made, rfl, PushNames.ingest_origin hmade⟩
  | reconcile =>
    obtain ⟨r, _, rfl⟩ := Option.map_eq_some_iff.mp h
    exact hnothing rfl
  | insertPhone | storeName | storeMember =>
    obtain ⟨_, rfl⟩ := guarded_eq_some.mp h
    exact hnothing rfl
  | insertIdentifier | stageEvidence | setSyncState =>
    obtain rfl := Option.some.inj h
    exact hnothing rfl

theorem step_names_sound {n n' : PushNames.State} {e : PushNames.Event} (hi : Inv c texts s)
    (hn : s.names sessionId = n) (h : PushNames.step c texts n e = some n') :
    WellFormed n'.tables ∧ PushNames.Agrees c n'.tables n'.observed := by
  obtain ⟨hwf, hagrees⟩ := hi.sound sessionId
  rw [hn] at hwf hagrees
  exact PushNames.step_sound hwf hagrees h

theorem inv_contacts {n : PushNames.State} {e : PushNames.Event} (hi : Inv c texts s)
    (he : OwnedByIntents e = false) (h : PushNames.step c texts (s.names sessionId) e = some n) :
    Inv c texts (updateNames sessionId n s) := by
  obtain ⟨made, hobserved, hpages⟩ := others_observe_pages h he
  refine inv_names hi ?_ (step_names_sound hi rfl h) fun o ho => ?_
  · rw [hobserved]
    exact List.subset_append_left _ _
  · rw [hobserved] at ho
    exact (List.mem_append.mp ho).imp id fun hmade => .inl (hpages o hmade)

theorem inv_call {n : PushNames.State} {candidate : ContactId} (hi : Inv c texts s)
    (hin : input ∈ s.enqueued)
    (h : PushNames.step c texts (s.names input.sessionId) (observeCall now input candidate) =
      some n) :
    Inv c texts (updateNames input.sessionId n s) ∧
      Applied texts (updateNames input.sessionId n s) input := by
  have hobserved := call_observes h
  constructor
  · refine inv_names hi ?_ (step_names_sound hi rfl h) fun o ho => ?_
    · rw [hobserved]
      exact List.subset_append_left _ _
    · rw [hobserved] at ho
      rcases List.mem_append.mp ho with hold | hnew
      · exact .inl hold
      · exact .inr (.inr ⟨input, hin, rfl, Option.mem_toList.mp hnew⟩)
  · intro o ho
    have hmem : o ∈ n.observed := by
      rw [hobserved, ho]
      exact List.mem_append_right _ List.mem_cons_self
    simpa [updateNames] using hmem

theorem inv_progress {progress : Progress} (hi : Inv c texts s)
    (happ : ∀ k ∈ s.claims, k.leaseToken = token → progress = .observed → Applied texts s k.input) :
    Inv c texts { s with claims := progressTo token progress s.claims } := by
  refine inv_claims hi fun k hk => ?_
  obtain ⟨k₀, hk₀, hinput, htoken, hprogress⟩ := mem_progressTo hk
  refine ⟨k₀, hk₀, hinput, htoken, fun hobserved => ?_⟩
  rcases hprogress with rfl | ⟨hown, hnew⟩
  · exact .inl hobserved
  · rw [hinput]
    exact .inr (happ k₀ hk₀ hown (hnew.symm.trans hobserved))

theorem step_inv {e : Event} (hi : Inv c texts s) (h : step c texts s e = some u) :
    Inv c texts u := by
  cases e with
  | enqueue now enabled input => exact inv_enqueue hi h
  | recoverExpired now =>
    obtain rfl := Option.some.inj h
    exact inv_recover hi
  | claim now limit locked =>
    obtain rfl := Option.some.inj h
    exact inv_claim hi (claim_grants s now limit locked)
  | observe now token candidate committed returned =>
    obtain ⟨k, hfind, h⟩ := Option.bind_eq_some_iff.mp h
    obtain ⟨hk, rfl, _⟩ := claimOf_some hfind
    cases committed with
    | true =>
      obtain ⟨n, hn, rfl⟩ := Option.map_eq_some_iff.mp h
      obtain ⟨hcalled, happ⟩ := inv_call hi (hi.claimed k hk).1 hn
      refine inv_progress hcalled fun k' hk' htoken _ => ?_
      rw [hi.alike k' hk' k hk htoken]
      exact happ
    | false =>
      obtain ⟨rfl, rfl⟩ := guarded_eq_some.mp h
      exact inv_progress hi fun _ _ _ hobserved => by cases hobserved
  | complete token committed returned =>
    obtain ⟨k, hfind, h⟩ := Option.bind_eq_some_iff.mp h
    obtain ⟨hk, rfl, hobserved⟩ := claimOf_some hfind
    obtain ⟨_, rfl⟩ := guarded_eq_some.mp h
    have hdeleted : Inv c texts { s with
        intents := if committed then complete k.input.eventId k.leaseToken s.intents
          else s.intents } := by
      split
      · exact inv_complete hi hk hobserved
      · exact hi
    cases returned with
    | true => exact inv_drop hdeleted
    | false => exact inv_progress hdeleted fun _ _ _ hobs => by cases hobs
  | fail now token error committed =>
    obtain ⟨k, hfind, rfl⟩ := Option.map_eq_some_iff.mp h
    cases committed with
    | true => exact inv_drop (inv_fail hi)
    | false => exact inv_drop hi
  | abandon token =>
    obtain rfl := Option.some.inj h
    exact inv_drop hi
  | deleteRuntimeEvents cutoff limit locked =>
    obtain rfl := Option.some.inj h
    refine inv_filter hi (List.subset_append_left _ _) fun row hrow hdeleted => .inl ?_
    refine List.mem_append_right _ (List.mem_map_of_mem (List.mem_filter.mpr ⟨hrow, ?_⟩))
    simpa using hdeleted
  | contacts sessionId event =>
    simp only [step] at h
    split at h
    · cases h
    · rename_i hnot
      obtain ⟨n, hn, rfl⟩ := Option.map_eq_some_iff.mp h
      exact inv_contacts hi (by simpa using hnot) hn

theorem reachable_inv (h : Reachable (system c texts) s) : Inv c texts s := by
  refine reachable_invariant (I := Inv c texts) ?_ (fun s e hi he => ?_) h
  · rintro _ rfl
    exact inv_initial
  · exact step_inv hi (ofStep_enabled he)

end Preservation

/-- The contact that holds the identifier of an observation has a push name that is not older. -/
def Shown (c : Config) (n : PushNames.State) (o : PushNames.Observation) : Prop :=
  ∃ i ∈ n.tables.identifiers, i.key = o.key ∧ ∃ name ∈ n.tables.names,
    name.key = (i.contactId, .openwaPushName) ∧ StampLe c.collation o.stamp name.stamp

/-- An intent that stands for no observation: its sender is a group, a status or another JID, or its
name normalizes to nothing. -/
def Unobservable (texts : Texts) (input : IntentInput) : Prop :=
  let identity := normalizeContactIdentity input.senderId
  (identity.type ≠ .lid ∧ identity.type ≠ .phoneJid) ∨
    normalizeContactName texts (some input.pushName) identity = none

/-- What has become of the intent that was enqueued with this number: it waits, with attempts left
or all ten used up; it went with its event when that expired; or it has been deleted after its
observation, and the name of its sender is shown unless a newer one is, or after it was found to
stand for none. -/
inductive Outcome (c : Config) (texts : Texts) (s : State) (number : ℕ) (input : IntentInput) :
    Prop where
  | waiting (row : Intent) : row ∈ s.intents → row.number = number → row.input = input →
      row.attemptCount ≤ maxAttempts →
      (row.processingState = .dead → row.attemptCount = maxAttempts) → Outcome c texts s number input
  | expired : number ∈ s.expired → Outcome c texts s number input
  | observed (o : PushNames.Observation) : (∀ row ∈ s.intents, row.number ≠ number) →
      observationOf texts input = some o → Shown c (s.names input.sessionId) o →
      Outcome c texts s number input
  | unobservable : (∀ row ∈ s.intents, row.number ≠ number) → Unobservable texts input →
      Outcome c texts s number input

/-- A stored push name is the name of an intent, or of a page, that has been observed for an
identifier of the contact. -/
def Genuine (texts : Texts) (s : State) (sessionId : String) (name : ContactName) : Prop :=
  ∃ o, Sourced texts s sessionId o ∧ PushNames.ObservedFor (s.names sessionId) name.contactId o ∧
    name.nameValue = o.value ∧ name.stamp = o.stamp

section Delivery

variable {c : Config} {texts : Texts} {s : State} {o : PushNames.Observation}

theorem observed_shown {n : PushNames.State} (h : PushNames.Agrees c n.tables n.observed)
    (ho : o ∈ n.observed) : Shown c n o := by
  obtain ⟨i, hmem, hkey⟩ := h.identified o ho
  have hfor : PushNames.ObservedFor n i.contactId o := ⟨ho, i, hmem, hkey, rfl⟩
  obtain ⟨name, hname, hnamekey⟩ := h.stored i.contactId o hfor
  have hcontact : name.contactId = i.contactId := congrArg Prod.fst hnamekey
  have hsource : name.nameSource = .openwaPushName := congrArg Prod.snd hnamekey
  exact ⟨i, hmem, hkey, name, hname, hnamekey, h.newest name hname hsource o (hcontact ▸ hfor)⟩

theorem unobservable_of_none {texts : Texts} {input : IntentInput}
    (h : observationOf texts input = none) : Unobservable texts input := by
  simp only [observationOf, PushNames.senderObservation] at h
  split at h
  · exact .inr (Option.map_eq_none_iff.mp h)
  · rename_i hother
    exact .inl (not_or.mp hother)

/-- Whatever ticks, crashes and merges there have been, no push name that was left for the contacts
is lost, and none is made up. -/
theorem intents_accounted (h : Reachable (system c texts) s) :
    (∀ number input, s.enqueued[number]? = some input → Outcome c texts s number input) ∧
      ∀ sessionId, ∀ name ∈ (s.names sessionId).tables.names,
        name.nameSource = .openwaPushName → Genuine texts s sessionId name := by
  have hi := reachable_inv h
  constructor
  · intro number input hget
    by_cases hrow : ∃ row ∈ s.intents, row.number = number
    · obtain ⟨row, hrow, rfl⟩ := hrow
      have hcounted := hi.counted row hrow
      have hinput := Option.some.inj ((hi.enqueued row hrow).symm.trans hget)
      exact .waiting row hrow rfl hinput hcounted.bounded hcounted.dead
    · have hgone : ∀ row ∈ s.intents, row.number ≠ number :=
        fun row hmem heq => hrow ⟨row, hmem, heq⟩
      rcases (hi.accounted number input hget).resolve_left hrow with hexpired | happ
      · exact .expired hexpired
      · cases ho : observationOf texts input with
        | none => exact .unobservable hgone (unobservable_of_none ho)
        | some o =>
          exact .observed o hgone ho (observed_shown (hi.sound input.sessionId).2 (happ o ho))
  · intro sessionId name hname hsource
    obtain ⟨o, hfor, hvalue, hstamp⟩ := (hi.sound sessionId).2.held name hname hsource
    exact ⟨o, hi.sourced sessionId o hfor.1, hfor, hvalue.symm, hstamp.symm⟩

def greeting : IntentInput := ⟨"e1", "main", "7@lid", "An", 15⟩

def reply : IntentInput := ⟨"e2", "main", "7@lid", "Binh", 25⟩

/-- The observation of the first intent commits, but its call throws; the tick that has claimed the
second one stops. Both are claimed again. -/
def retriedTrace : List Event :=
  [.enqueue 20 true greeting, .enqueue 30 true reply, .claim 40 100 ["e2"],
    .observe 41 0 1 true false, .fail 42 0 "connection lost" true, .claim 43 100 [],
    .abandon 1, .recoverExpired 200000, .claim 200001 100 [], .observe 200002 2 2 true true,
    .complete 2 true true, .observe 200003 3 3 true true]

def retried : State :=
  runTrace (system exampleConfig PushNames.exampleTexts) initial retriedTrace

instance (e : Event) :
    Decidable ((system exampleConfig PushNames.exampleTexts).enabled s e) :=
  inferInstanceAs (Decidable ((step _ _ s e).isSome = true))

theorem retried_accounted :
    (∀ number input, retried.enqueued[number]? = some input →
        Outcome exampleConfig PushNames.exampleTexts retried number input) ∧
      ∀ sessionId, ∀ name ∈ (retried.names sessionId).tables.names,
        name.nameSource = .openwaPushName →
          Genuine PushNames.exampleTexts retried sessionId name :=
  intents_accounted ⟨retriedTrace, valid_trace_run rfl (by decide +kernel)⟩

example : retried.enqueued = [greeting, reply] ∧ retried.intents.map (·.attemptCount) = [2] ∧
    storedName (retried.names "main").tables.names 1 .openwaPushName = some "Binh" := by
  decide +kernel

end Delivery

end ObservationIntents
