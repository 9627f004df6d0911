import WaRuntime.WebhookSessionIsolation

/-! The instant of a webhook.
It is a number of seconds or of milliseconds, a text of either kind or a date text, or else the
timestamp of the envelope; only numbers that are finite reach a stored payload. -/
namespace WebhookTimestamps

open OwnedTables WebhookEvents WebhookStatements WebhookTransaction

section Instants

variable {parsing : Parsing} {q : ℚ} {value : Json}

/-- The milliseconds of a number. -/
def milliseconds (value : ℚ) : ℚ :=
  if value < 10000000000 then nearestDouble (value * 1000) else value

/-- Milliseconds from 4714 BC, where `timestamptz` begins, to 275760, where a `Date` ends. -/
def Within (q : ℚ) : Prop := (earliestTimestamp : ℚ) - 1 < q ∧ q ≤ 8640000000000000

/-- A date that the database takes. -/
def Storable (date : Option ℤ) : Prop := (timestamptz date).isSome

theorem storable_some {time : ℤ} : Storable (some time) ↔ earliestTimestamp ≤ time := by
  unfold Storable timestamptz
  simp only [Option.bind_some]
  split
  · rename_i hle
    exact ⟨fun _ => hle, fun _ => rfl⟩
  · rename_i hnot
    exact ⟨fun h => (by cases h), fun hle => absurd hle hnot⟩

theorem storable_clip : Storable (timeClip q) ↔ Within q := by
  unfold timeClip Within
  by_cases hbig : 8640000000000000 < |q|
  · rw [if_pos hbig]
    constructor
    · intro h
      cases h
    · rintro ⟨hlow, hhigh⟩
      refine absurd hbig (not_lt.mpr (abs_le.mpr ⟨?_, hhigh⟩))
      have hearliest : (-8640000000000000 : ℚ) ≤ (earliestTimestamp : ℚ) - 1 := by
        norm_num [earliestTimestamp]
      exact hearliest.trans hlow.le
  · rw [if_neg hbig, storable_some]
    have hhigh : q ≤ 8640000000000000 := (abs_le.mp (not_lt.mp hbig)).2
    split
    · rename_i hpos
      have hlow : (earliestTimestamp : ℚ) - 1 < q := by
        refine lt_of_lt_of_le ?_ hpos
        norm_num [earliestTimestamp]
      refine iff_of_true ?_ ⟨hlow, hhigh⟩
      have hfloor : 0 ≤ ⌊q⌋ := Int.floor_nonneg.mpr hpos
      exact le_trans (by decide) hfloor
    · rw [Int.le_ceil_iff]
      exact ⟨fun hlow => ⟨hlow, hhigh⟩, fun h => h.1⟩

end Instants

section Kinds

variable (parsing : Parsing)

/-- Neither a number, nor a text that is one or that is a date. -/
def GivesNoDate : Option Json → Prop
  | some (.number _ _) => False
  | some (.string s) => blank s = true ∨ parsing.number s = none ∧ parsing.date s = none
  | _ => True

/-- What `new Date` makes a storable date of. -/
def DatableFallback : Json → Prop
  | .null => True
  | .bool _ => True
  | .number value _ => Within value
  | value => ∃ text time, value.toText = some text ∧ parsing.date text = some time ∧
      earliestTimestamp ≤ time

/-- The kinds of timestamps that give no instant, or one that cannot be stored. -/
inductive Undatable (envelope : OpenWAWebhookEnvelope) : Prop where
  | number {value : ℚ} {text : String} :
      envelope.data.member "timestamp" = some (.number value text) → ¬ Within (milliseconds value) →
      Undatable envelope
  | numericText {s : String} {value : ℚ} :
      envelope.data.member "timestamp" = some (.string s) → blank s = false →
      parsing.number s = some value → ¬ Within (milliseconds value) → Undatable envelope
  | earlyText {s : String} {time : ℤ} :
      envelope.data.member "timestamp" = some (.string s) → blank s = false →
      parsing.number s = none → parsing.date s = some time → time < earliestTimestamp →
      Undatable envelope
  | fallback :
      GivesNoDate parsing (envelope.data.member "timestamp") →
      ¬ DatableFallback parsing envelope.timestamp → Undatable envelope

end Kinds

section Conversions

variable {parsing : Parsing} {envelope : OpenWAWebhookEnvelope} {event : RuntimeEvent}

theorem storable_number {value : ℚ} : Storable (dateOfNumber value) ↔ Within (milliseconds value) :=
  storable_clip

theorem fallback_iff (value : Json) :
    (∃ date, newDate parsing value = some date ∧ Storable date) ↔ DatableFallback parsing value := by
  have htext : ∀ value : Json, (∃ date, value.toText.map parsing.date = some date ∧ Storable date) ↔
      ∃ text time, value.toText = some text ∧ parsing.date text = some time ∧
        earliestTimestamp ≤ time := by
    intro value
    constructor
    · rintro ⟨date, hdate, hstorable⟩
      obtain ⟨text, htext, rfl⟩ := Option.map_eq_some_iff.mp hdate
      cases htime : parsing.date text with
      | none =>
        rw [htime] at hstorable
        cases hstorable
      | some time =>
        rw [htime] at hstorable
        exact ⟨text, time, htext, htime, storable_some.mp hstorable⟩
    · rintro ⟨text, time, htext, htime, hle⟩
      exact ⟨some time, by rw [htext, Option.map_some, htime], storable_some.mpr hle⟩
  cases value with
  | null => exact iff_of_true ⟨some 0, rfl, storable_some.mpr (by decide)⟩ trivial
  | bool value =>
    refine iff_of_true ⟨_, rfl, storable_some.mpr ?_⟩ trivial
    cases value <;> decide
  | number value text =>
    simp only [newDate, Option.some.injEq, exists_eq_left', DatableFallback]
    exact storable_clip
  | string s => exact htext (.string s)
  | array elements => exact htext (.array elements)
  | object members => exact htext (.object members)

theorem dateFrom_fallback {value : Option Json} {timestamp : Json}
    (h : GivesNoDate parsing value) : dateFrom parsing value timestamp = newDate parsing timestamp := by
  cases value with
  | none => rfl
  | some value =>
    cases value with
    | number value text => exact h.elim
    | string s =>
      simp only [dateFrom]
      obtain hblank | ⟨hnumber, hdate⟩ := h
      · rw [if_pos hblank]
      · rw [hnumber, hdate]
        split <;> rfl
    | null | bool | array | object => rfl

/-- The date of an envelope is one that the database takes, unless its timestamps are of one of the
failing kinds. -/
theorem date_storable_iff :
    (∃ date, dateFrom parsing (envelope.data.member "timestamp") envelope.timestamp = some date ∧
      Storable date) ↔ ¬ Undatable parsing envelope := by
  by_cases hnone : GivesNoDate parsing (envelope.data.member "timestamp")
  · rw [dateFrom_fallback hnone, fallback_iff]
    constructor
    · intro hdatable hbad
      cases hbad with
      | number hvalue => rw [hvalue] at hnone; exact hnone
      | numericText hvalue hblank hnumber =>
        rw [hvalue] at hnone
        obtain h | ⟨h, _⟩ := hnone
        · simp [hblank] at h
        · simp [hnumber] at h
      | earlyText hvalue hblank _ hdate =>
        rw [hvalue] at hnone
        obtain h | ⟨_, h⟩ := hnone
        · simp [hblank] at h
        · simp [hdate] at h
      | fallback _ hnot => exact hnot hdatable
    · intro hgood
      by_contra hnot
      exact hgood (.fallback hnone hnot)
  · cases hvalue : envelope.data.member "timestamp" with
    | none => simp [hvalue, GivesNoDate] at hnone
    | some value =>
      cases value with
      | null | bool | array | object => simp [hvalue, GivesNoDate] at hnone
      | number value text =>
        simp only [dateFrom, Option.some.injEq, exists_eq_left', storable_number]
        constructor
        · intro hwithin hbad
          cases hbad with
          | number hother hnot =>
            rw [hvalue] at hother
            cases hother
            exact hnot hwithin
          | numericText hother => simp [hvalue] at hother
          | earlyText hother => simp [hvalue] at hother
          | fallback hfallback => exact hnone hfallback
        · intro hgood
          by_contra hnot
          exact hgood (.number hvalue hnot)
      | string s =>
        rw [hvalue] at hnone
        have hblank : blank s = false := by
          cases hb : blank s with
          | true => exact absurd (.inl hb) hnone
          | false => rfl
        simp only [dateFrom, hblank, Bool.false_eq_true, if_false]
        cases hnumber : parsing.number s with
        | some value =>
          simp only [Option.some.injEq, exists_eq_left', storable_number]
          constructor
          · intro hwithin hbad
            cases hbad with
            | number hother => simp [hvalue] at hother
            | numericText hother _ hnumber' hnot =>
              rw [hvalue] at hother
              cases hother
              rw [hnumber] at hnumber'
              cases hnumber'
              exact hnot hwithin
            | earlyText hother _ hnumber' =>
              rw [hvalue] at hother
              cases hother
              simp [hnumber] at hnumber'
            | fallback hfallback =>
              rw [hvalue] at hfallback
              exact hnone hfallback
          · intro hgood
            by_contra hnot
            exact hgood (.numericText hvalue hblank hnumber hnot)
        | none =>
          cases hdate : parsing.date s with
          | none => exact absurd (.inr ⟨hnumber, hdate⟩) hnone
          | some time =>
            simp only [Option.some.injEq, exists_eq_left', storable_some]
            constructor
            · intro hle hbad
              cases hbad with
              | number hother => simp [hvalue] at hother
              | numericText hother _ hnumber' =>
                rw [hvalue] at hother
                cases hother
                simp [hnumber] at hnumber'
              | earlyText hother _ _ hdate' hlt =>
                rw [hvalue] at hother
                cases hother
                rw [hdate] at hdate'
                cases hdate'
                omega
              | fallback hfallback =>
                rw [hvalue] at hfallback
                exact hnone hfallback
            · intro hgood
              by_contra hnot
              exact hgood (.earlyText hvalue hblank hnumber hdate (not_le.mp hnot))

end Conversions

section Events

variable {config : Config} {envelope : OpenWAWebhookEnvelope}

/-- The event is normalized to a valid instant, and no attempt to store it fails on the instant. -/
def Survives (config : Config) (envelope : OpenWAWebhookEnvelope) : Prop :=
  ∃ event time, normalizeOpenWAWebhook config.parsing envelope = some event ∧
    event.occurredAt = some time ∧
    ∀ now db, storeInTransaction config now event db ≠ .error .invalidTimestamp

def emptyDatabase : Database where
  webhookEvents _ := none
  ledger :=
    { runtimeEvents _ := none
      inboundMessages _ := none
      messageEvents _ := none
      observationIntents _ := none
      inbound_references := by simp
      message_references := by simp
      observation_references := by simp }
  sessions _ := none
  groups _ := none
  intents _ := none
  messageJobs _ := none
  webhook_stored := by simp

/-- An event whose instant the database takes is never refused for it, and another one always is. -/
theorem store_refuses_iff {event : RuntimeEvent} (now : ℕ) (db : Database) :
    storeInTransaction config now event db = .error .invalidTimestamp ↔
      ¬ Storable event.occurredAt := by
  unfold storeInTransaction Storable
  cases htime : timestamptz event.occurredAt with
  | none => simp
  | some time =>
    simp only [Option.isSome_some, not_true_eq_false, iff_false]
    split
    · split <;> simp
    · simp

theorem storable_valid {date : Option ℤ} (h : Storable date) : ∃ time, date = some time := by
  cases date with
  | none => cases h
  | some time => exact ⟨time, rfl⟩

theorem survives_iff (config : Config) (envelope : OpenWAWebhookEnvelope) :
    Survives config envelope ↔ ¬ Undatable config.parsing envelope := by
  rw [← date_storable_iff]
  constructor
  · rintro ⟨event, time, hevent, htime, hstored⟩
    obtain ⟨date, hdate, rfl⟩ := Option.map_eq_some_iff.mp hevent
    refine ⟨date, hdate, ?_⟩
    by_contra hnot
    exact hstored 0 emptyDatabase ((store_refuses_iff 0 emptyDatabase).mpr hnot)
  · rintro ⟨date, hdate, hstorable⟩
    obtain ⟨time, rfl⟩ := storable_valid hstorable
    refine ⟨_, time, by rw [normalizeOpenWAWebhook, hdate]; rfl, rfl, fun now db herror => ?_⟩
    exact (store_refuses_iff now db).mp herror hstorable

end Events

section Attempts

variable {config : Config} {envelope : OpenWAWebhookEnvelope} {db : Database} {row : WebhookRow}
  {key : String}

/-- The transaction of an event without a storable instant never commits. -/
theorem undatable_throws (h : Undatable config.parsing envelope) {now token : ℕ}
    (hown : db.OwnsProcessing now token envelope.idempotencyKey) :
    ∃ error, transaction config now token envelope db = .error error := by
  unfold transaction
  split
  · rename_i event status messageId hevent _ _
    obtain ⟨date, hdate, rfl⟩ := Option.map_eq_some_iff.mp hevent
    rw [if_pos hown]
    have hrefused : ¬ Storable date := fun hstorable => date_storable_iff.mp ⟨date, hdate, hstorable⟩ h
    rw [(store_refuses_iff now db).mpr hrefused]
    exact ⟨_, rfl⟩
  · exact ⟨_, rfl⟩

/-- An attempt whose statements all begin within the lease. -/
def Timely (attempt : Attempt) : Prop :=
  attempt.startedAt < attempt.claimedAt + webhookLeaseMs ∧
    attempt.failedAt < attempt.claimedAt + webhookLeaseMs

instance (attempt : Attempt) : Decidable (Timely attempt) := inferInstanceAs (Decidable (_ ∧ _))

/-- Each attempt fails, and the fifth one is the last. -/
theorem undatable_fails (h : Undatable config.parsing row.payload)
    (hrow : db.webhookEvents key = some row) {attempt : Attempt}
    (hdue : Dispatchable attempt.claimedAt row) (htimely : Timely attempt) :
    ∃ new, (process config attempt key db).2.webhookEvents key = some new ∧
      new.payload = row.payload ∧ new.attemptCount = row.attemptCount + 1 ∧
      (webhookMaxAttempts ≤ new.attemptCount → new.processingState = .dead) := by
  obtain ⟨hkey, _⟩ := db.webhook_stored key row hrow
  obtain ⟨claimed, hclaim, hclaimed⟩ :=
    WebhookSessionIsolation.claimed_row attempt.token hrow hdue
  obtain ⟨_, _, hstate, hcount, htoken, hlease, _, hpayload⟩ := claimForProcessing_some hclaim
  have hown : ∀ now, now < attempt.claimedAt + webhookLeaseMs →
      OwnsLease now attempt.token claimed := fun now hnow => ⟨hstate, htoken, _, hlease, hnow⟩
  have howns : (db.claimForProcessing attempt.claimedAt attempt.token key).OwnsProcessing
      attempt.startedAt attempt.token row.payload.idempotencyKey :=
    ⟨claimed, by rw [hkey]; exact hclaimed, hown _ htimely.1⟩
  obtain ⟨error, herror⟩ := undatable_throws h howns
  have hfailed : ∃ new, WebhookStatements.markFailed attempt.failedAt attempt.token
      (error.message attempt.foreignMessage) claimed = some new := by
    simp [WebhookStatements.markFailed, hown _ htimely.2]
  obtain ⟨new, hnew⟩ := hfailed
  obtain ⟨_, hends, hsame, _, _, hkept⟩ := markFailed_some hnew
  refine ⟨new, ?_, hkept.trans hpayload, by omega, fun hfive => ?_⟩
  · simp only [process, hrow, if_pos hdue, herror, hkey]
    simp [Database.markFailed, Database.updateWebhook, updateAt, hclaimed, hnew]
  · obtain ⟨_, hlt⟩ | hdead := hends
    · omega
    · exact hdead

def processAll (config : Config) (key : String) : List Attempt → Database → Database
  | [], db => db
  | attempt :: attempts, db => processAll config key attempts (process config attempt key db).2

/-- Every attempt comes when the event is due, and within its lease. -/
def AllDue (config : Config) (key : String) : List Attempt → Database → Prop
  | [], _ => True
  | attempt :: attempts, db =>
    (∀ row, db.webhookEvents key = some row → Dispatchable attempt.claimedAt row) ∧
      Timely attempt ∧ AllDue config key attempts (process config attempt key db).2

theorem undatable_dies (h : Undatable config.parsing row.payload) {attempts : List Attempt}
    (hrow : db.webhookEvents key = some row) (hdue : AllDue config key attempts db)
    (hne : attempts ≠ []) (hcount : row.attemptCount + attempts.length = webhookMaxAttempts) :
    ∃ last, (processAll config key attempts db).webhookEvents key = some last ∧
      last.processingState = .dead := by
  induction attempts generalizing db row with
  | nil => exact absurd rfl hne
  | cons attempt attempts ih =>
    obtain ⟨hready, htimely, hrest⟩ := hdue
    obtain ⟨new, hnew, hpayload, hmore, hdead⟩ := undatable_fails h hrow (hready row hrow) htimely
    rw [List.length_cons] at hcount
    by_cases hlast : attempts = []
    · subst hlast
      exact ⟨new, hnew, hdead (by simp only [List.length_nil] at hcount; omega)⟩
    · exact ih (hpayload ▸ h) hnew hrest hlast (by omega)

/-- An accepted event, in the envelope that is stored as its payload and read back, gets a valid
instant and is never refused for it, exactly where its timestamps are of none of the failing kinds;
an event of one of these kinds is DEAD after its fifth attempt. -/
theorem webhook_survives_iff (config : Config) (envelope : OpenWAWebhookEnvelope) :
    (Survives config envelope ↔ ¬ Undatable config.parsing envelope) ∧
      (Undatable config.parsing envelope → ∀ key receivedAt db attempts,
        db.webhookEvents key = some (WebhookStatements.insert receivedAt envelope) →
        attempts.length = webhookMaxAttempts → AllDue config key attempts db →
        ∃ last, (processAll config key attempts db).webhookEvents key = some last ∧
          last.processingState = .dead) := by
  refine ⟨survives_iff config envelope, fun h key receivedAt db attempts hrow hlength hdue => ?_⟩
  refine undatable_dies h hrow hdue ?_ (by simpa [WebhookStatements.insert] using hlength)
  rintro rfl
  cases hlength

/-- A timestamp that is neither in seconds nor in milliseconds but in nanoseconds. -/
def nanoseconds : OpenWAWebhookEnvelope where
  event := "session.status"
  timestamp := .string "2026-08-11T05:00:00.000Z"
  sessionId := "session-1"
  idempotencyKey := "status-1"
  deliveryId := "delivery-1"
  data := .object [("status", .string "ready"),
    ("timestamp", .number 1786424400000000000 "1786424400000000000")]

def storedNanoseconds : Database :=
  { emptyDatabase with
    webhookEvents key :=
      if key = "status-1" then some (WebhookStatements.insert 0 nanoseconds) else none
    webhook_stored key row h := by
      split at h
      · rename_i hkey
        cases h
        exact ⟨hkey.symm, rfl⟩
      · cases h }

def attemptAt (time : ℕ) : Attempt := ⟨time, time, time, time, fun _ => ""⟩

theorem nanoseconds_die :
    nanoseconds.Accepted ["session-1"] ∧
      (∃ event, normalizeOpenWAWebhook WebhookSessionIsolation.plainConfig.parsing nanoseconds =
        some event ∧ event.occurredAt = none) ∧
      ∃ last, (processAll WebhookSessionIsolation.plainConfig "status-1"
          ([0, 5000, 15000, 35000, 75000].map attemptAt) storedNanoseconds).webhookEvents
            "status-1" = some last ∧ last.processingState = .dead := by
  refine ⟨by decide +kernel, ⟨_, rfl, by decide +kernel⟩, ?_⟩
  have hdead : ((processAll WebhookSessionIsolation.plainConfig "status-1"
      ([0, 5000, 15000, 35000, 75000].map attemptAt) storedNanoseconds).webhookEvents
        "status-1").any (fun row => row.processingState = .dead) = true := by decide +kernel
  obtain ⟨last, hlast, hstate⟩ := (Option.any_eq_true _ _).mp hdead
  exact ⟨last, hlast, of_decide_eq_true hstate⟩

end Attempts

end WebhookTimestamps
