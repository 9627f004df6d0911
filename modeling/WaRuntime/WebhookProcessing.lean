import WaRuntime.RowVersions
import WaRuntime.TransitionRuns
import WaRuntime.WebhookTransaction

/-! Concurrent processing of stored webhooks, statement by statement.
Any number of processors claim events, run the transaction of `process` and may crash, throw or
lose the answer to COMMIT at any point. The webhook row is locked from `lockProcessingLease` to
the end of the transaction. The other tables are kept as what a transaction has written to them:
a log has one entry for each commit. A stored row has an id of its own, so a key that is stored
again after retention counts as another event. -/
namespace WebhookProcessing

open TransitionRuns RowVersions WebhookEvents WebhookStatements WebhookTransaction

structure StoredWebhook where
  id : ℕ
  row : WebhookRow

abbrev Slot := Option StoredWebhook

def onStored (f : WebhookRow → Option WebhookRow) : Slot → Option Slot
  | some stored => (f stored.row).map fun row => some ⟨stored.id, row⟩
  | none => none

def insertStored (id now : ℕ) (envelope : OpenWAWebhookEnvelope) : Slot → Option Slot
  | none => some (some ⟨id, WebhookStatements.insert now envelope⟩)
  | some _ => none

def deleteStored (cutoff : ℕ) : Slot → Option Slot
  | some stored => if Deletable cutoff stored.row then some none else none
  | none => none

def lockProcessingLease (now token : ℕ) : Slot → Option Slot :=
  onStored fun row => if OwnsLease now token row then some row else none

/-- Which of its effects a transaction has written. -/
structure Written where
  runtimeEvent : Bool
  observationIntent : Bool
  messageJobStatus : Bool
  deriving DecidableEq, Repr

inductive Phase where
  | claimed
  | begun (now : ℕ)
  | storing (now : ℕ)
  | enqueuing (now : ℕ) (written : Written)
  | updating (now : ℕ) (written : Written)
  | marking (now : ℕ) (written : Written)
  | marked (written : Written)
  | failing
  deriving DecidableEq, Repr

/-- The transaction holds the lock on its webhook row. -/
def Phase.Locks : Phase → Bool
  | .claimed | .begun _ | .failing => false
  | _ => true

structure Processor where
  key : String
  id : ℕ
  token : ℕ
  envelope : OpenWAWebhookEnvelope
  phase : Phase

def Processor.at (k : Processor) (phase : Phase) : Processor := { k with phase := phase }

@[simp] theorem Processor.at_key (k : Processor) (phase : Phase) : (k.at phase).key = k.key := rfl

@[simp] theorem Processor.at_id (k : Processor) (phase : Phase) : (k.at phase).id = k.id := rfl

@[simp] theorem Processor.at_token (k : Processor) (phase : Phase) :
    (k.at phase).token = k.token := rfl

@[simp] theorem Processor.at_phase (k : Processor) (phase : Phase) :
    (k.at phase).phase = phase := rfl

structure Claim where
  id : ℕ
  token : ℕ
  deriving DecidableEq, Repr

structure Commit where
  id : ℕ
  token : ℕ
  written : Written
  deriving DecidableEq, Repr

structure State where
  webhooks : Table ℕ String Slot
  processors : ℕ → Option Processor
  claims : List Claim
  commits : List Commit
  nextId : ℕ
  nextToken : ℕ
  clock : ℕ

def initial : State where
  webhooks _ := Row.settled none
  processors _ := none
  claims := []
  commits := []
  nextId := 0
  nextToken := 0
  clock := 0

inductive ProcessorEvent where
  | begin (now : ℕ)
  | lock
  | store (inserted : Bool)
  | enqueue
  | update
  | mark
  | commit (acknowledged : Bool)
  | throws
  | markFailed (now : ℕ) (error : String)
  | crash
  deriving DecidableEq, Repr

inductive Event where
  | receive (now : ℕ) (envelope : OpenWAWebhookEnvelope)
  | claim (p : ℕ) (key : String) (now : ℕ)
  | processor (p : ℕ) (event : ProcessorEvent)
  | recoverExpired (key : String) (now : ℕ)
  | delete (key : String) (cutoff : ℕ)
  | tick (ms : ℕ)

/-- What `process` computes before it begins the transaction does not throw. -/
def Readable (config : Config) (envelope : OpenWAWebhookEnvelope) : Prop :=
  (normalizeOpenWAWebhook config.parsing envelope).isSome ∧
    (webhookStatus envelope.event envelope.data).isSome ∧ (webhookMessageId envelope.data).isSome

instance (config : Config) (envelope : OpenWAWebhookEnvelope) :
    Decidable (Readable config envelope) := inferInstanceAs (Decidable (_ ∧ _))

/-- Whether the contact part inserts an intent; `none` where it throws. -/
def enqueueWrites (config : Config) (envelope : OpenWAWebhookEnvelope) : Option Bool :=
  if envelope.event = "message.received" then
    (webhookSenderId envelope.data).map fun senderId =>
      senderId ≠ "" ∧ (webhookPushName envelope.data).getD "" ≠ "" ∧ config.contactsEnabled
  else some false

/-- Whether the job part updates `message_jobs`; `none` where it throws. -/
def updateWrites (envelope : OpenWAWebhookEnvelope) : Option Bool :=
  match webhookMessageId envelope.data, webhookStatus envelope.event envelope.data with
  | some messageId, some status =>
    if messageId = "" then some false
    else
      match status with
      | .absent => some false
      | .inherited => none
      | .status _ => some true
  | _, _ => none

/-- The two agree with the statements of the transaction on when they throw and when they leave
the database as it is. -/
theorem update_writes_agree {now : ℕ} {envelope : OpenWAWebhookEnvelope} {status : WebhookStatus}
    {messageId : String} {db : Database}
    (hs : webhookStatus envelope.event envelope.data = some status)
    (hm : webhookMessageId envelope.data = some messageId) :
    (updateWrites envelope = none ↔ updateJobs now status messageId db = .error .invalidStatus) ∧
      (updateWrites envelope = some false → updateJobs now status messageId db = .ok db) := by
  unfold updateWrites updateJobs
  simp only [hs, hm]
  by_cases hid : messageId = ""
  · simp [hid]
  · cases status <;> simp [hid]

theorem enqueue_writes_agree {config : Config} {envelope : OpenWAWebhookEnvelope}
    {event : RuntimeEvent} {db : Database} :
    (enqueueWrites config envelope = none ↔
        enqueueContact config envelope event db = .error .conversion) ∧
      (enqueueWrites config envelope = some false →
        enqueueContact config envelope event db = .ok db) := by
  unfold enqueueWrites enqueueContact
  by_cases hevent : envelope.event = "message.received"
  · simp only [hevent, if_true]
    cases hsender : webhookSenderId envelope.data with
    | none => simp
    | some senderId =>
      cases hpush : webhookPushName envelope.data with
      | none => simp
      | some pushName =>
        cases timestamptz event.occurredAt with
        | none => simp
        | some observedAt =>
          simp only [Option.map_some, reduceCtorEq, false_iff]
          constructor
          · split <;> simp
          · intro h
            rw [dif_neg]
            rintro ⟨hsend, hname, henabled, _⟩
            simp [hsend, hname, henabled] at h
  · simp [hevent]

/-- The next step of a processor; the inner `none` is a processor that is done. -/
def processorNext (config : Config) (s : State) (p : ℕ) (k : Processor) :
    ProcessorEvent → Option (Option Processor)
  | .begin now =>
    match k.phase with
    | .claimed =>
      guarded (now ≤ s.clock ∧ Readable config k.envelope) (some (k.at (.begun now)))
    | _ => none
  | .lock =>
    match k.phase with
    | .begun now =>
      some (if (lockProcessingLease now k.token ((s.webhooks k.key).view p)).isSome then
        some (k.at (.storing now)) else none)
    | _ => none
  | .store inserted =>
    match k.phase with
    | .storing now => some (some (k.at (.enqueuing now ⟨inserted, false, false⟩)))
    | _ => none
  | .enqueue =>
    match k.phase with
    | .enqueuing now written =>
      (enqueueWrites config k.envelope).map fun writes =>
        some (k.at (.updating now { written with observationIntent := writes }))
    | _ => none
  | .update =>
    match k.phase with
    | .updating now written =>
      (updateWrites k.envelope).map fun writes =>
        some (k.at (.marking now { written with messageJobStatus := writes }))
    | _ => none
  | .mark =>
    match k.phase with
    | .marking now written =>
      guarded ((onStored (markProcessed config.compactProcessedWebhookPayload now k.key k.token)
        ((s.webhooks k.key).view p)).isSome) (some (k.at (.marked written)))
    | _ => none
  | .commit acknowledged =>
    match k.phase with
    | .marked _ => some (if acknowledged then none else some (k.at .failing))
    | _ => none
  | .throws => guarded (k.phase ≠ .failing) (some (k.at .failing))
  | .markFailed now _ => guarded (k.phase = .failing ∧ now ≤ s.clock) none
  | .crash => some none

/-- The statement that a processor runs on the webhook row. -/
def processorEffect (config : Config) (p : ℕ) (k : Processor) :
    ProcessorEvent → Effect ℕ String Slot
  | .lock =>
    match k.phase with
    | .begun now => .updateIn p (lockProcessingLease now k.token) k.key
    | _ => .none
  | .mark =>
    match k.phase with
    | .marking now _ =>
      .updateIn p
        (onStored (markProcessed config.compactProcessedWebhookPayload now k.key k.token)) k.key
    | _ => .none
  | .commit _ => .commit p
  | .throws | .crash => .abort p
  | .markFailed now error => .update (onStored (markFailed now k.token error)) k.key
  | _ => .none

def webhookEffect (config : Config) (s : State) : Event → Effect ℕ String Slot
  | .receive now envelope => .update (insertStored s.nextId now envelope) envelope.idempotencyKey
  | .claim _ key now => .update (onStored (claimForProcessing now s.nextToken)) key
  | .processor p event =>
    match s.processors p with
    | some k => processorEffect config p k event
    | none => .none
  | .recoverExpired key now => .update (onStored (recoverExpiredProcessing now)) key
  | .delete key cutoff => .update (deleteStored cutoff) key
  | .tick _ => .none

/-- The entry that a commit adds to the log. -/
def committedBy (k : Processor) : ProcessorEvent → List Commit
  | .commit _ =>
    match k.phase with
    | .marked written => [⟨k.id, k.token, written⟩]
    | _ => []
  | _ => []

/-- The processor that a claim of the row starts. -/
def claimedProcessor (s : State) (key : String) (now : ℕ) : Option Processor :=
  match (s.webhooks key).committed with
  | some stored =>
    if Dispatchable now stored.row then
      some ⟨key, stored.id, s.nextToken, stored.row.payload, .claimed⟩
    else none
  | none => none

def moveParties (config : Config) (s : State) : Event → Option State
  | .receive now _ => guarded (now ≤ s.clock) { s with nextId := s.nextId + 1 }
  | .claim p key now =>
    guarded ((s.processors p).isNone ∧ now ≤ s.clock)
      { s with
        processors := Function.update s.processors p (claimedProcessor s key now)
        claims := s.claims ++
          ((claimedProcessor s key now).map fun k => Claim.mk k.id k.token).toList
        nextToken := s.nextToken + 1 }
  | .processor p event =>
    match s.processors p with
    | some k =>
      (processorNext config s p k event).map fun next =>
        { s with
          processors := Function.update s.processors p next
          commits := s.commits ++ committedBy k event }
    | none => none
  | .recoverExpired _ now => guarded (now ≤ s.clock) s
  | .delete _ cutoff => guarded (cutoff ≤ s.clock) s
  | .tick ms => some { s with clock := s.clock + ms }

def step (config : Config) (s : State) (e : Event) : Option State :=
  if (webhookEffect config s e).Ready s.webhooks then
    (moveParties config s e).map fun u =>
      { u with webhooks := (webhookEffect config s e).apply s.webhooks }
  else none

def system (config : Config) : System State Event := ofStep (· = initial) (step config)

instance (config : Config) (s : State) (e : Event) : Decidable ((system config).enabled s e) :=
  inferInstanceAs (Decidable ((step config s e).isSome = true))

section Moves

variable {config : Config} {s u : State} {e : Event} {p : ℕ} {key : String}

theorem step_parties (h : step config s e = some u) :
    (webhookEffect config s e).Ready s.webhooks ∧
      u.webhooks = (webhookEffect config s e).apply s.webhooks ∧
      ∃ v, moveParties config s e = some v ∧ u.processors = v.processors ∧
        u.claims = v.claims ∧ u.commits = v.commits ∧ u.nextId = v.nextId ∧
        u.nextToken = v.nextToken := by
  unfold step at h
  split at h
  · rename_i hready
    obtain ⟨v, hv, rfl⟩ := Option.map_eq_some_iff.mp h
    exact ⟨hready, rfl, v, hv, rfl, rfl, rfl, rfl, rfl⟩
  · cases h

theorem onStored_some {f : WebhookRow → Option WebhookRow} {old new : Slot}
    (h : onStored f old = some new) :
    ∃ stored row, old = some stored ∧ f stored.row = some row ∧ new = some ⟨stored.id, row⟩ := by
  cases old with
  | none => cases h
  | some stored =>
    obtain ⟨row, hrow, rfl⟩ := Option.map_eq_some_iff.mp h
    exact ⟨stored, row, rfl, hrow, rfl⟩

theorem lockProcessingLease_some {now token : ℕ} {old new : Slot}
    (h : lockProcessingLease now token old = some new) :
    new = old ∧ ∃ stored, old = some stored ∧ OwnsLease now token stored.row := by
  obtain ⟨stored, row, rfl, hrow, rfl⟩ := onStored_some h
  split at hrow
  · rename_i hown
    cases hrow
    exact ⟨rfl, stored, rfl, hown⟩
  · cases hrow

/-- What a step does to the row under `key`. A row that stays is not one that `p` releases. -/
inductive WebhookMove (config : Config) (s : State) (e : Event) (key : String) :
    Row ℕ Slot → Prop where
  | same : (∀ p v, (s.webhooks key).held = some (p, v) →
        ∀ event, e = .processor p event → event ≠ .throws ∧ event ≠ .crash ∧
          ∀ acknowledged, event ≠ .commit acknowledged) →
      WebhookMove config s e key (s.webhooks key)
  | received {now : ℕ} {envelope : OpenWAWebhookEnvelope} :
      e = .receive now envelope → key = envelope.idempotencyKey → (s.webhooks key).Free →
      (s.webhooks key).committed = none →
      WebhookMove config s e key
        (Row.settled (some ⟨s.nextId, WebhookStatements.insert now envelope⟩))
  | claimed {p now : ℕ} {stored : StoredWebhook} {row : WebhookRow} :
      e = .claim p key now → (s.webhooks key).Free → (s.webhooks key).committed = some stored →
      claimForProcessing now s.nextToken stored.row = some row →
      WebhookMove config s e key (Row.settled (some ⟨stored.id, row⟩))
  | recovered {now : ℕ} {stored : StoredWebhook} {row : WebhookRow} :
      e = .recoverExpired key now → (s.webhooks key).Free →
      (s.webhooks key).committed = some stored →
      recoverExpiredProcessing now stored.row = some row →
      WebhookMove config s e key (Row.settled (some ⟨stored.id, row⟩))
  | deleted {cutoff : ℕ} {stored : StoredWebhook} :
      e = .delete key cutoff → (s.webhooks key).Free → (s.webhooks key).committed = some stored →
      Deletable cutoff stored.row → WebhookMove config s e key (Row.settled none)
  | failed {p now : ℕ} {error : String} {k : Processor} {stored : StoredWebhook}
      {row : WebhookRow} :
      e = .processor p (.markFailed now error) → s.processors p = some k → k.key = key →
      (s.webhooks key).Free → (s.webhooks key).committed = some stored →
      markFailed now k.token error stored.row = some row →
      WebhookMove config s e key (Row.settled (some ⟨stored.id, row⟩))
  | locked {p now : ℕ} {k : Processor} {stored : StoredWebhook} :
      e = .processor p .lock → s.processors p = some k → k.key = key → k.phase = .begun now →
      (s.webhooks key).FreeFor p → (s.webhooks key).view p = some stored →
      OwnsLease now k.token stored.row →
      WebhookMove config s e key ((s.webhooks key).write p (some stored))
  | marked {p now : ℕ} {written : Written} {k : Processor} {stored : StoredWebhook}
      {row : WebhookRow} :
      e = .processor p .mark → s.processors p = some k → k.key = key →
      k.phase = .marking now written → (s.webhooks key).FreeFor p →
      (s.webhooks key).view p = some stored →
      markProcessed config.compactProcessedWebhookPayload now k.key k.token stored.row = some row →
      WebhookMove config s e key ((s.webhooks key).write p (some ⟨stored.id, row⟩))
  | committed {p : ℕ} {acknowledged : Bool} {slot : Slot} :
      e = .processor p (.commit acknowledged) → (s.webhooks key).held = some (p, slot) →
      WebhookMove config s e key ⟨slot, none⟩
  | aborted {p : ℕ} {event : ProcessorEvent} {slot : Slot} :
      e = .processor p event → event = .throws ∨ event = .crash →
      (s.webhooks key).held = some (p, slot) →
      WebhookMove config s e key ⟨(s.webhooks key).committed, none⟩

/-- The end of a transaction as an effect comes from the processor's own event. -/
theorem effect_ends {q : ℕ} (h : webhookEffect config s e = .commit q) :
    ∃ acknowledged, e = .processor q (.commit acknowledged) := by
  cases e <;> simp only [webhookEffect, reduceCtorEq] at h
  case processor p event =>
    split at h
    · rename_i k _
      cases event <;> simp only [processorEffect, reduceCtorEq, Effect.commit.injEq] at h
      case commit acknowledged =>
        subst h
        exact ⟨acknowledged, rfl⟩
      all_goals split at h <;> cases h
    · cases h

theorem effect_aborts {q : ℕ} (h : webhookEffect config s e = .abort q) :
    ∃ event, e = .processor q event ∧ (event = .throws ∨ event = .crash) := by
  cases e <;> simp only [webhookEffect, reduceCtorEq] at h
  case processor p event =>
    split at h
    · rename_i k _
      cases event <;> simp only [processorEffect, reduceCtorEq, Effect.abort.injEq] at h
      case throws =>
        subst h
        exact ⟨_, rfl, .inl rfl⟩
      case crash =>
        subst h
        exact ⟨_, rfl, .inr rfl⟩
      all_goals split at h <;> cases h
    · cases h

theorem update_statement {f g : Slot → Option Slot} {l : String}
    (h : (Effect.update g l : Effect ℕ String Slot).statement key = some f) : key = l ∧ g = f := by
  simpa [Effect.statement, Option.ite_none_right_eq_some] using h

theorem updateIn_statement {f g : Slot → Option Slot} {l : String} {q : ℕ}
    (h : (Effect.updateIn q g l : Effect ℕ String Slot).statement key = some f) :
    key = l ∧ g = f := by
  simpa [Effect.statement, Option.ite_none_right_eq_some] using h

/-- A statement of its own on a free row. -/
theorem own_statement_moves {f : Slot → Option Slot} {new : Slot}
    (hs : (webhookEffect config s e).statement key = some f)
    (ho : (webhookEffect config s e).owner = none) (hfree : (s.webhooks key).Free)
    (hf : f (s.webhooks key).committed = some new) :
    WebhookMove config s e key (Row.settled new) := by
  cases e <;> simp only [webhookEffect] at hs ho
  case receive now envelope =>
    obtain ⟨rfl, rfl⟩ := update_statement hs
    cases hc : (s.webhooks envelope.idempotencyKey).committed with
    | some stored =>
      rw [hc] at hf
      cases hf
    | none =>
      rw [hc] at hf
      cases hf
      exact .received rfl rfl hfree hc
  case claim p l now =>
    obtain ⟨rfl, rfl⟩ := update_statement hs
    obtain ⟨stored, row, hc, hrow, rfl⟩ := onStored_some hf
    exact .claimed rfl hfree hc hrow
  case recoverExpired l now =>
    obtain ⟨rfl, rfl⟩ := update_statement hs
    obtain ⟨stored, row, hc, hrow, rfl⟩ := onStored_some hf
    exact .recovered rfl hfree hc hrow
  case delete l cutoff =>
    obtain ⟨rfl, rfl⟩ := update_statement hs
    cases hc : (s.webhooks key).committed with
    | none =>
      rw [hc] at hf
      cases hf
    | some stored =>
      rw [hc] at hf
      simp only [deleteStored, Option.ite_none_right_eq_some, Option.some.injEq] at hf
      obtain ⟨hdel, rfl⟩ := hf
      exact .deleted rfl hfree hc hdel
  case processor p event =>
    split at hs
    · rename_i k hk
      rw [hk] at ho
      cases event <;> simp only [processorEffect] at hs ho
      case markFailed now error =>
        obtain ⟨rfl, rfl⟩ := update_statement hs
        obtain ⟨stored, row, hc, hrow, rfl⟩ := onStored_some hf
        exact .failed rfl hk rfl hfree hc hrow
      case lock =>
        split at hs
        · rename_i now hphase
          rw [hphase] at ho
          cases ho
        · cases hs
      case mark =>
        split at hs
        · rename_i now written hphase
          rw [hphase] at ho
          cases ho
        · cases hs
      all_goals cases hs
    · cases hs
  case tick ms => cases hs

/-- A statement of the transaction of a processor. -/
theorem inside_statement_moves {f : Slot → Option Slot} {new : Slot} {q : ℕ}
    (hs : (webhookEffect config s e).statement key = some f)
    (ho : (webhookEffect config s e).owner = some q) (hfree : (s.webhooks key).FreeFor q)
    (hf : f ((s.webhooks key).view q) = some new) :
    WebhookMove config s e key ((s.webhooks key).write q new) := by
  cases e <;> simp only [webhookEffect] at hs ho
  case processor p event =>
    split at hs
    · rename_i k hk
      rw [hk] at ho
      cases event <;> simp only [processorEffect] at hs ho
      case lock =>
        split at hs
        · rename_i now hphase
          rw [hphase] at ho
          cases ho
          obtain ⟨rfl, rfl⟩ := updateIn_statement hs
          obtain ⟨rfl, stored, hv, hown⟩ := lockProcessingLease_some hf
          rw [hv]
          exact .locked rfl hk rfl hphase hfree hv hown
        · cases hs
      case mark =>
        split at hs
        · rename_i now written hphase
          rw [hphase] at ho
          cases ho
          obtain ⟨rfl, rfl⟩ := updateIn_statement hs
          obtain ⟨stored, row, hv, hrow, rfl⟩ := onStored_some hf
          exact .marked rfl hk rfl hphase hfree hv hrow
        · cases hs
      case markFailed now error => cases ho
      all_goals cases hs
    · cases hs
  all_goals cases ho

theorem webhook_moves (h : step config s e = some u) (key : String) :
    WebhookMove config s e key (u.webhooks key) := by
  obtain ⟨hready, hw, v, hv, _⟩ := step_parties h
  rw [hw]
  have hrow := Effect.row_moves hready key
  generalize (webhookEffect config s e).apply s.webhooks key = row at hrow ⊢
  cases hrow with
  | own hs ho hfree hf => exact own_statement_moves hs ho hfree hf
  | inside hs ho hfree hf => exact inside_statement_moves hs ho hfree hf
  | commit he hh =>
    obtain ⟨acknowledged, rfl⟩ := effect_ends he
    exact .committed rfl hh
  | abort he hh =>
    obtain ⟨event, rfl, hevent⟩ := effect_aborts he
    exact .aborted rfl hevent hh
  | same hsame =>
    refine .same fun q held hheld event he => ?_
    subst he
    cases hk : s.processors q with
    | none => simp [moveParties, hk] at hv
    | some k =>
      refine ⟨?_, ?_, ?_⟩
      · rintro rfl
        exact hsame q (.inr (by simp [webhookEffect, hk, processorEffect])) held hheld
      · rintro rfl
        exact hsame q (.inr (by simp [webhookEffect, hk, processorEffect])) held hheld
      · rintro acknowledged rfl
        exact hsame q (.inl (by simp [webhookEffect, hk, processorEffect])) held hheld

end Moves

section Locks

variable {config : Config} {s u : State} {e : Event} {p q : ℕ} {key : String}
  {k next : Processor} {event : ProcessorEvent}

theorem effect_owner (h : (webhookEffect config s e).owner = some q) :
    ∃ event, e = .processor q event := by
  cases e <;> simp only [webhookEffect] at h
  case processor p event =>
    refine ⟨event, ?_⟩
    split at h
    · rename_i k _
      cases event <;> simp only [processorEffect] at h
      case lock =>
        split at h
        · cases h
          rfl
        · cases h
      case mark =>
        split at h
        · cases h
          rfl
        · cases h
      all_goals
        cases h
      all_goals rfl
    · cases h
  all_goals cases h

theorem processor_step (h : step config s (.processor p event) = some u) :
    ∃ k after, s.processors p = some k ∧ processorNext config s p k event = some after ∧
      u.processors = Function.update s.processors p after ∧
      u.webhooks = (processorEffect config p k event).apply s.webhooks ∧
      u.claims = s.claims ∧ u.commits = s.commits ++ committedBy k event := by
  obtain ⟨_, hw, v, hv, hp, hcl, hco, _⟩ := step_parties h
  simp only [moveParties] at hv
  split at hv
  · rename_i k hk
    obtain ⟨after, hafter, rfl⟩ := Option.map_eq_some_iff.mp hv
    refine ⟨k, after, hk, hafter, hp, ?_, hcl, hco⟩
    rw [hw]
    simp [webhookEffect, hk]
  · cases hv

/-- The parties of the steps that are no step of `q`. -/
theorem other_processor (h : step config s e = some u)
    (hq : ∀ event, e ≠ .processor q event) :
    u.processors q = s.processors q ∨
      ∃ key now, e = .claim q key now ∧ s.processors q = none ∧
        u.processors q = claimedProcessor s key now := by
  obtain ⟨hready, hw, v, hv, hp, hrest⟩ := step_parties h
  rw [hp]
  cases e <;> simp only [moveParties, guarded_eq_some, Option.some.injEq] at hv
  case claim p key now =>
    obtain ⟨⟨hnone, _⟩, rfl⟩ := hv
    by_cases hpq : q = p
    · subst hpq
      refine .inr ⟨key, now, rfl, ?_, ?_⟩
      · simpa using hnone
      · simp
    · simp [hpq]
  case processor p event =>
    split at hv
    · rename_i k _
      obtain ⟨after, _, rfl⟩ := Option.map_eq_some_iff.mp hv
      have hpq : q ≠ p := by
        rintro rfl
        exact hq event rfl
      simp [hpq]
    · cases hv
  case tick ms =>
    subst hv
    exact .inl rfl
  all_goals
    obtain ⟨_, rfl⟩ := hv
    exact .inl rfl

theorem claimed_processor (h : claimedProcessor s key p = some k) :
    k.key = key ∧ k.token = s.nextToken ∧ k.phase = .claimed ∧
      ∃ stored, (s.webhooks key).committed = some stored ∧ k.id = stored.id ∧
        k.envelope = stored.row.payload ∧ Dispatchable p stored.row := by
  unfold claimedProcessor at h
  split at h
  · rename_i stored hstored
    split at h
    · rename_i hd
      cases h
      exact ⟨rfl, rfl, rfl, stored, hstored, rfl, rfl, hd⟩
    · cases h
  · cases h

/-- A processor keeps what it has claimed. -/
theorem next_identity (h : processorNext config s p k event = some (some next)) :
    next.key = k.key ∧ next.id = k.id ∧ next.token = k.token := by
  cases event <;> simp only [processorNext] at h
  case begin now =>
    split at h
    · obtain ⟨_, h⟩ := guarded_eq_some.mp h
      cases h
      exact ⟨rfl, rfl, rfl⟩
    · cases h
  case lock =>
    split at h
    · simp only [Option.some.injEq, Option.ite_none_right_eq_some] at h
      rw [← h.2]
      exact ⟨rfl, rfl, rfl⟩
    · cases h
  case store inserted =>
    split at h
    · cases h
      exact ⟨rfl, rfl, rfl⟩
    · cases h
  case enqueue =>
    split at h
    · obtain ⟨writes, _, h⟩ := Option.map_eq_some_iff.mp h
      cases h
      exact ⟨rfl, rfl, rfl⟩
    · cases h
  case update =>
    split at h
    · obtain ⟨writes, _, h⟩ := Option.map_eq_some_iff.mp h
      cases h
      exact ⟨rfl, rfl, rfl⟩
    · cases h
  case mark =>
    split at h
    · obtain ⟨_, h⟩ := guarded_eq_some.mp h
      cases h
      exact ⟨rfl, rfl, rfl⟩
    · cases h
  case commit acknowledged =>
    split at h
    · cases acknowledged <;> cases h
      exact ⟨rfl, rfl, rfl⟩
    · cases h
  case throws =>
    obtain ⟨_, h⟩ := guarded_eq_some.mp h
    cases h
    exact ⟨rfl, rfl, rfl⟩
  case markFailed now error =>
    obtain ⟨_, h⟩ := guarded_eq_some.mp h
    cases h
  case crash => cases h

/-- What a processor that keeps or takes the lock does to the row. -/
inductive LockMove (config : Config) (s : State) (p : ℕ) (k : Processor) :
    ProcessorEvent → Phase → Prop where
  | lock {now : ℕ} {stored : StoredWebhook} : k.phase = .begun now →
      (s.webhooks k.key).view p = some stored → OwnsLease now k.token stored.row →
      LockMove config s p k .lock (.storing now)
  | write {event : ProcessorEvent} {phase : Phase} : k.phase.Locks = true → phase.Locks = true →
      (∀ written, k.phase ≠ .marked written) → (∀ written, phase ≠ .marked written) →
      processorEffect config p k event = .none → LockMove config s p k event phase
  | mark {now : ℕ} {written : Written} {stored : StoredWebhook} {row : WebhookRow} :
      k.phase = .marking now written → (s.webhooks k.key).view p = some stored →
      markProcessed config.compactProcessedWebhookPayload now k.key k.token stored.row = some row →
      LockMove config s p k .mark (.marked written)

theorem lock_moves (h : processorNext config s p k event = some (some next))
    (hl : next.phase.Locks = true) : LockMove config s p k event next.phase := by
  cases event <;> simp only [processorNext] at h
  case begin now =>
    split at h
    · obtain ⟨_, h⟩ := guarded_eq_some.mp h
      cases h
      cases hl
    · cases h
  case lock =>
    split at h
    · rename_i now hphase
      simp only [Option.some.injEq, Option.ite_none_right_eq_some] at h
      obtain ⟨hsome, rfl⟩ := h
      obtain ⟨slot, hslot⟩ := Option.isSome_iff_exists.mp hsome
      obtain ⟨_, stored, hv, hown⟩ := lockProcessingLease_some hslot
      exact .lock hphase hv hown
    · cases h
  case store inserted =>
    split at h
    · rename_i now hphase
      cases h
      exact .write (by simp [hphase, Phase.Locks]) rfl (by simp [hphase]) (by simp) rfl
    · cases h
  case enqueue =>
    split at h
    · rename_i now written hphase
      obtain ⟨writes, _, h⟩ := Option.map_eq_some_iff.mp h
      cases h
      exact .write (by simp [hphase, Phase.Locks]) rfl (by simp [hphase]) (by simp) rfl
    · cases h
  case update =>
    split at h
    · rename_i now written hphase
      obtain ⟨writes, _, h⟩ := Option.map_eq_some_iff.mp h
      cases h
      exact .write (by simp [hphase, Phase.Locks]) rfl (by simp [hphase]) (by simp) rfl
    · cases h
  case mark =>
    split at h
    · rename_i now written hphase
      obtain ⟨hsome, h⟩ := guarded_eq_some.mp h
      cases h
      obtain ⟨slot, hslot⟩ := Option.isSome_iff_exists.mp hsome
      obtain ⟨stored, row, hv, hrow, _⟩ := onStored_some hslot
      exact .mark hphase hv hrow
    · cases h
  case commit acknowledged =>
    split at h
    · cases acknowledged <;> cases h
      cases hl
    · cases h
  case throws =>
    obtain ⟨_, h⟩ := guarded_eq_some.mp h
    cases h
    cases hl
  case markFailed now error =>
    obtain ⟨_, h⟩ := guarded_eq_some.mp h
    cases h
  case crash => cases h

end Locks

end WebhookProcessing
