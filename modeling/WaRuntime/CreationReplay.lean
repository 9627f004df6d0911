import WaRuntime.ContactNormalization
import WaRuntime.KeyedCreation
import WaRuntime.LiveSendPolicy

/-! The two creations that take an idempotency key: message jobs and campaigns.
Each validates before its repository looks for the key, so a replay is validated again, on the
clock, the allowlist, the session and the group of its own time. -/
namespace CreationReplay

open TransitionRuns KeyedCreation GroupCapabilityStatements
open LiveSendPolicy (findGroup isGroupSendable)

/-- What a validation looks at; the clock in milliseconds. -/
structure World where
  allowedSessionIds : List String
  sessions : String → Bool
  groups : String → String → Option GroupRow
  now : ℤ

/-- `new Date`, `toISOString`, the hash, `JSON.stringify` and the validators of the libraries. -/
structure Formats where
  parseDate : String → Option ℤ
  isoString : ℤ → String
  sha256 : String → String
  isUUID : String → Bool
  isISO8601 : String → Bool

structure CreationError where
  status : ℕ
  code : Option String
  message : String
  deriving DecidableEq, Repr

def utf16Length (s : String) : ℕ :=
  (s.toList.map fun c => if 0x10000 ≤ c.toNat then 2 else 1).sum

def trim (s : String) : String := String.ofList (ContactNormalization.trim s.toList)

structure CreateMessageJobDto where
  sessionId : String
  recipientId : String
  text : String
  scheduledAt : Option String
  dryRun : Bool
  deriving DecidableEq, Repr

inductive CampaignScheduleType where
  | immediate
  | once
  deriving DecidableEq, Repr

def CampaignScheduleType.text : CampaignScheduleType → String
  | .immediate => "IMMEDIATE"
  | .once => "ONCE"

structure CreateCampaignDto where
  sessionId : String
  name : String
  text : String
  scheduleType : CampaignScheduleType
  scheduledAt : Option String
  deriving DecidableEq, Repr

/-- A string that is given and not empty. -/
def given (value : Option String) : Option String := value.filter (· ≠ "")

def sessionForbidden : CreationError :=
  ⟨403, none, "Session is not in OPENWA_ALLOWED_SESSION_IDS"⟩

/-- `toISOString` of an invalid date. -/
def invalidTime : CreationError := ⟨500, none, "Invalid time value"⟩

section MessageJobs

/-- `MessageJobService.create` up to its first query. -/
def assertKeyAndScope (world : World) (idempotencyKey : String) (dto : CreateMessageJobDto) :
    Option CreationError :=
  if 200 < utf16Length idempotencyKey then
    some ⟨400, none, "Idempotency-Key must not exceed 200 characters"⟩
  else if dto.sessionId ∉ world.allowedSessionIds then some sessionForbidden
  else if dto.dryRun = false ∧ ¬ dto.recipientId.endsWith "@g.us" then
    some ⟨400, none, "Live low-level message jobs require a synchronized group recipient"⟩
  else none

/-- The group query of `assertCreatable`. -/
def assertGroupSendable (world : World) (_ : String) (dto : CreateMessageJobDto) :
    Option CreationError :=
  if dto.dryRun then none
  else
    match findGroup (world.groups dto.sessionId dto.recipientId) with
    | none => some ⟨400, none, "Recipient group is not active in the synchronized read model"⟩
    | some group =>
      if group.sendCapability = .allowed then none
      else some ⟨409, none, "Group is not sendable: " ++ group.sendCapabilityReason.text⟩

/-- A date that is not one compares as not past, and has no canonical text to be hashed. -/
def assertScheduledAt (f : Formats) (world : World) (_ : String) (dto : CreateMessageJobDto) :
    Option CreationError :=
  match given dto.scheduledAt with
  | none => none
  | some value =>
    match f.parseDate value with
    | none => some invalidTime
    | some scheduledAt =>
      if scheduledAt < world.now - 60000 then
        some ⟨409, none, "scheduledAt is more than 60 seconds in the past"⟩
      else none

def messageRequestHash (f : Formats) (dto : CreateMessageJobDto) : String :=
  let scheduledAt := ((given dto.scheduledAt).bind f.parseDate).map f.isoString
  f.sha256 ("\n".intercalate [dto.sessionId, dto.recipientId, dto.text, scheduledAt.getD "",
    if dto.dryRun then "true" else "false"])

/-- The scope of these keys is `runtime-api`; campaign deliveries have scopes of their own. -/
def messageJobs (f : Formats) :
    Endpoint String String CreateMessageJobDto World CreationError String where
  checks := [assertKeyAndScope, assertGroupSendable, assertScheduledAt f]
  slot key := key
  hash := messageRequestHash f
  looksFirst := false

end MessageJobs

section Campaigns

def assertSessionAndKey (f : Formats) (world : World) (rawIdempotencyKey : String)
    (dto : CreateCampaignDto) : Option CreationError :=
  if dto.sessionId ∉ world.allowedSessionIds then some sessionForbidden
  else if trim rawIdempotencyKey = "" then
    some ⟨400, some "CAMPAIGN_IDEMPOTENCY_KEY_REQUIRED", "Idempotency-Key header is required"⟩
  else if ¬ f.isUUID (trim rawIdempotencyKey) then
    some ⟨400, some "CAMPAIGN_IDEMPOTENCY_KEY_INVALID", "Idempotency-Key must be a UUID"⟩
  else none

def assertSessionExists (world : World) (_ : String) (dto : CreateCampaignDto) :
    Option CreationError :=
  if world.sessions dto.sessionId then none
  else some ⟨422, some "CAMPAIGN_SESSION_NOT_FOUND", "Session is not synchronized"⟩

/-- `Z` or an offset of hours and minutes, after at least one character that is no line end. -/
def endsInZone (cs : List Char) : Bool :=
  let plain := fun front : List Char =>
    front ≠ [] && front.all (· ∉ ['\n', '\r', '\u2028', '\u2029'])
  (cs.getLast? = some 'Z' && plain cs.dropLast) ||
    match (cs.drop (cs.length - 6)) with
    | [sign, h, h', ':', m, m'] =>
      (sign = '+' || sign = '-') && [h, h', m, m'].all Char.isDigit && plain (cs.take (cs.length - 6))
    | _ => false

/-- `^\d{4}-\d{2}-\d{2}T.+(?:Z|[+-]\d{2}:\d{2})$`. -/
def hasExplicitTimeAndZone (value : String) : Bool :=
  match value.toList with
  | y₁ :: y₂ :: y₃ :: y₄ :: '-' :: m₁ :: m₂ :: '-' :: d₁ :: d₂ :: 'T' :: rest =>
    [y₁, y₂, y₃, y₄, m₁, m₂, d₁, d₂].all Char.isDigit && endsInZone rest
  | _ => false

/-- The schedule that is stored; the outer error is the answer of `resolveSchedule` at `now`. -/
def resolveSchedule (f : Formats) (now : ℤ) (scheduleType : CampaignScheduleType)
    (value : Option String) : Except CreationError (CampaignScheduleType × Option (Option ℤ)) :=
  match scheduleType with
  | .immediate => .ok (.immediate, none)
  | .once =>
    match given value with
    | none =>
      .error ⟨422, some "CAMPAIGN_SCHEDULE_REQUIRED", "scheduledAt is required for ONCE campaigns"⟩
    | some value =>
      if ¬ (hasExplicitTimeAndZone value ∧ f.isISO8601 value) then
        .error ⟨422, some "CAMPAIGN_SCHEDULE_INVALID",
          "scheduledAt must be a valid ISO-8601 date-time"⟩
      else
        match f.parseDate value with
        | none => .ok (.once, some none)
        | some scheduledAt =>
          if scheduledAt ≤ now then
            .error ⟨422, some "CAMPAIGN_SCHEDULE_IN_PAST", "scheduledAt must be in the future"⟩
          else .ok (.once, some (some scheduledAt))

def nonBlank (value field : String) : Option CreationError :=
  if trim value = "" then some ⟨400, none, field ++ " must not be blank"⟩ else none

/-- What follows the session query, with the hash, for which an invalid date has no text. -/
def assertContent (f : Formats) (world : World) (_ : String) (dto : CreateCampaignDto) :
    Option CreationError :=
  match resolveSchedule f world.now dto.scheduleType dto.scheduledAt with
  | .error error => some error
  | .ok (_, scheduledAt) =>
    (nonBlank dto.name "name").or ((nonBlank dto.text "text").or
      (if scheduledAt = some none then some invalidTime else none))

/-- A JSON string literal. -/
def quote (s : String) : String :=
  let hex := fun n : ℕ => (Nat.toDigits 16 n)
  let escape := fun c : Char =>
    if c = '"' then ['\\', '"']
    else if c = '\\' then ['\\', '\\']
    else if c = '\n' then ['\\', 'n']
    else if c = '\r' then ['\\', 'r']
    else if c = '\t' then ['\\', 't']
    else if c.toNat = 8 then ['\\', 'b']
    else if c.toNat = 12 then ['\\', 'f']
    else if c.toNat < 16 then ['\\', 'u', '0', '0', '0'] ++ hex c.toNat
    else if c.toNat < 32 then ['\\', 'u', '0', '0'] ++ hex c.toNat
    else [c]
  "\"" ++ String.ofList (s.toList.flatMap escape) ++ "\""

/-- The hash of the JSON text of the stored content. -/
def campaignRequestHash (f : Formats) (dto : CreateCampaignDto) : String :=
  let scheduledAt :=
    match dto.scheduleType with
    | .immediate => none
    | .once => ((given dto.scheduledAt).bind f.parseDate).map f.isoString
  f.sha256 ("\x7b" ++ ",".intercalate
    ["\"sessionId\":" ++ quote dto.sessionId, "\"name\":" ++ quote (trim dto.name),
      "\"text\":" ++ quote (trim dto.text), "\"scheduleType\":" ++ quote dto.scheduleType.text,
      "\"scheduledAt\":" ++ (scheduledAt.map quote).getD "null"] ++ "\x7d")

/-- The column of the key is a UUID, in which the case of a digit does not count. -/
def campaigns (f : Formats) :
    Endpoint String String CreateCampaignDto World CreationError String where
  checks := [assertSessionAndKey f, assertSessionExists, assertContent f]
  slot key := (trim key).toLower
  hash := campaignRequestHash f
  looksFirst := true

end Campaigns

section Replays

variable {f : Formats} {world w : World} {key : String}

/-- The part of each validation that the world decides. -/
def MessageAdmitted (f : Formats) (world : World) (dto : CreateMessageJobDto) : ℕ → Prop
  | 0 => dto.sessionId ∈ world.allowedSessionIds
  | 1 => dto.dryRun = true ∨ isGroupSendable (world.groups dto.sessionId dto.recipientId) = true
  | 2 => ∀ scheduledAt, (given dto.scheduledAt).bind f.parseDate = some scheduledAt →
      world.now - 60000 ≤ scheduledAt
  | _ => True

def CampaignAdmitted (f : Formats) (world : World) (dto : CreateCampaignDto) : ℕ → Prop
  | 0 => dto.sessionId ∈ world.allowedSessionIds
  | 1 => world.sessions dto.sessionId = true
  | 2 => dto.scheduleType = .once → ∀ scheduledAt,
      (given dto.scheduledAt).bind f.parseDate = some scheduledAt → world.now < scheduledAt
  | _ => True

instance (f : Formats) (world : World) (dto : CreateMessageJobDto) :
    (n : ℕ) → Decidable (MessageAdmitted f world dto n)
  | 0 => inferInstanceAs (Decidable (_ ∈ _))
  | 1 => inferInstanceAs (Decidable (_ ∨ _))
  | 2 => decidable_of_iff
      (((given dto.scheduledAt).bind f.parseDate).all (world.now - 60000 ≤ ·) = true) (by
        unfold MessageAdmitted
        cases (given dto.scheduledAt).bind f.parseDate <;> simp)
  | _ + 3 => isTrue trivial

/-- A repeated creation whose record is retained is validated in a world that admits it. -/
def AdmitsReplays {Body : Type} (admitted : World → Body → ℕ → Prop)
    (s : State String String Body World CreationError String) : Event String String Body World → Prop
  | .check r => ∀ request id n, s.requests r = some request → s.owed r = some id →
      request.phase = .checking n → admitted s.world request.body n
  | _ => True

instance {Body : Type} {admitted : World → Body → ℕ → Prop}
    [∀ world body n, Decidable (admitted world body n)]
    (s : State String String Body World CreationError String) :
    (e : Event String String Body World) → Decidable (AdmitsReplays admitted s e)
  | .check r => decidable_of_iff
      ((s.requests r).all (fun request =>
        match s.owed r, request.phase with
        | some _, .checking n => decide (admitted s.world request.body n)
        | _, _ => true) = true) (by
          simp only [AdmitsReplays]
          cases s.requests r with
          | none => simp
          | some request =>
            cases s.owed r with
            | none => simp
            | some id =>
              simp only [Option.all_some, Option.some.injEq]
              split
              · rename_i n _ hp
                constructor
                · rintro h _ _ m rfl rfl hm
                  cases hp.symm.trans hm
                  simpa using h
                · intro h
                  simpa using h request id n rfl rfl hp
              · rename_i hother
                refine iff_of_true rfl ?_
                rintro _ _ m rfl rfl hm
                exact (hother id m rfl hm).elim)
  | .world _ => isTrue trivial
  | .retire _ => isTrue trivial
  | .remove _ => isTrue trivial
  | .start _ _ _ => isTrue trivial
  | .look _ => isTrue trivial
  | .insert _ _ => isTrue trivial
  | .select _ => isTrue trivial

theorem key_and_scope_again {dto : CreateMessageJobDto}
    (h : assertKeyAndScope w key dto = none) :
    assertKeyAndScope world key dto = none ↔ MessageAdmitted f world dto 0 := by
  unfold assertKeyAndScope at h ⊢
  by_cases hlong : 200 < utf16Length key
  · simp [hlong] at h
  · by_cases hscope : dto.sessionId ∈ w.allowedSessionIds
    · simp only [hlong, hscope, not_true_eq_false, if_false] at h
      by_cases hnow : dto.sessionId ∈ world.allowedSessionIds
      · simp only [hlong, hnow, not_true_eq_false, if_false, MessageAdmitted, iff_true]
        exact h
      · simp [hlong, hnow, MessageAdmitted]
    · simp [hlong, hscope] at h

theorem group_again {dto : CreateMessageJobDto} :
    assertGroupSendable world key dto = none ↔ MessageAdmitted f world dto 1 := by
  unfold assertGroupSendable MessageAdmitted isGroupSendable
  by_cases hdry : dto.dryRun = true
  · simp [hdry]
  · cases findGroup (world.groups dto.sessionId dto.recipientId) with
    | none => simp [hdry]
    | some group => simp [hdry]

theorem scheduled_again {dto : CreateMessageJobDto} (h : assertScheduledAt f w key dto = none) :
    assertScheduledAt f world key dto = none ↔ MessageAdmitted f world dto 2 := by
  unfold assertScheduledAt at h ⊢
  unfold MessageAdmitted
  cases hgiven : given dto.scheduledAt with
  | none => simp
  | some value =>
    cases hparse : f.parseDate value with
    | none => simp [hgiven, hparse] at h
    | some scheduledAt => simp [hparse]

theorem session_and_key_again {dto : CreateCampaignDto}
    (h : assertSessionAndKey f w key dto = none) :
    assertSessionAndKey f world key dto = none ↔ CampaignAdmitted f world dto 0 := by
  unfold assertSessionAndKey at h ⊢
  by_cases hscope : dto.sessionId ∈ w.allowedSessionIds
  · simp only [hscope, not_true_eq_false, if_false] at h
    by_cases hnow : dto.sessionId ∈ world.allowedSessionIds
    · simp only [hnow, not_true_eq_false, if_false, CampaignAdmitted, iff_true]
      exact h
    · simp [hnow, CampaignAdmitted]
  · simp [hscope] at h

theorem session_exists_again {dto : CreateCampaignDto} :
    assertSessionExists world key dto = none ↔ CampaignAdmitted f world dto 1 := by
  simp [assertSessionExists, CampaignAdmitted]

theorem content_again {dto : CreateCampaignDto} (h : assertContent f w key dto = none) :
    assertContent f world key dto = none ↔ CampaignAdmitted f world dto 2 := by
  unfold assertContent at h ⊢
  unfold CampaignAdmitted
  cases htype : dto.scheduleType with
  | immediate => simpa [resolveSchedule, htype] using h
  | once =>
    cases hgiven : given dto.scheduledAt with
    | none => simp [resolveSchedule, htype, hgiven] at h
    | some value =>
      by_cases hvalid : hasExplicitTimeAndZone value = true ∧ f.isISO8601 value = true
      · cases hparse : f.parseDate value with
        | none => simp [resolveSchedule, htype, hgiven, hvalid, hparse] at h
        | some scheduledAt =>
          by_cases hpast : scheduledAt ≤ w.now
          · simp [resolveSchedule, htype, hgiven, hvalid, hparse, hpast] at h
          · simp only [resolveSchedule, htype, hgiven, hvalid, hparse, hpast] at h
            by_cases hnow : scheduledAt ≤ world.now
            · simp [resolveSchedule, hgiven, hvalid, hparse, hnow]
            · have hfuture : world.now < scheduledAt := by omega
              simp only [resolveSchedule, hgiven, hvalid, hparse, hnow, Option.bind_some,
                Option.some.injEq, forall_eq', hfuture, forall_const, iff_true]
              exact h
      · simp [resolveSchedule, htype, hgiven, hvalid] at h

/-- What the world decides of a check is all that can refuse a request that once passed it. -/
theorem admits_replays_iff {Body : Type} [DecidableEq Body]
    {E : Endpoint String String Body World CreationError String}
    {admitted : World → Body → ℕ → Prop}
    (hagain : ∀ n check, E.checks[n]? = some check → ∀ w world key body, check w key body = none →
      (check world key body = none ↔ admitted world body n))
    (hrest : ∀ n, E.checks.length ≤ n → ∀ world body, admitted world body n)
    {s : State String String Body World CreationError String} (hr : Reachable (system E) s)
    (e : Event String String Body World) : AdmitsReplays admitted s e ↔ Readmits E s e := by
  cases e with
  | check r =>
    have hsame : ∀ request id n check, s.requests r = some request → s.owed r = some id →
        E.checks[n]? = some check →
        (check s.world request.key request.body = none ↔ admitted s.world request.body n) := by
      intro request id n check hq ho hc
      obtain ⟨w, hw⟩ := owed_passed hr hq ho n (List.getElem?_eq_some_iff.mp hc).1 check hc
      exact hagain n check hc w s.world request.key request.body hw
    constructor
    · intro h request id n check hq ho hp hc
      exact (hsame request id n check hq ho hc).mpr (h request id n hq ho hp)
    · intro h request id n hq ho hp
      cases hc : E.checks[n]? with
      | some check => exact (hsame request id n check hq ho hc).mp (h request id n check hq ho hp hc)
      | none => exact hrest n (List.getElem?_eq_none_iff.mp hc) s.world request.body
  | _ => exact Iff.rfl

theorem message_checks_again {n : ℕ} {check : World → String → CreateMessageJobDto →
    Option CreationError} (hc : (messageJobs f).checks[n]? = some check) (w world : World)
    (key : String) (dto : CreateMessageJobDto) (h : check w key dto = none) :
    check world key dto = none ↔ MessageAdmitted f world dto n := by
  have hn : n < 3 := (List.getElem?_eq_some_iff.mp hc).1
  match n, hn with
  | 0, _ =>
    cases hc
    exact key_and_scope_again h
  | 1, _ =>
    cases hc
    exact group_again
  | 2, _ =>
    cases hc
    exact scheduled_again h

theorem campaign_checks_again {n : ℕ} {check : World → String → CreateCampaignDto →
    Option CreationError} (hc : (campaigns f).checks[n]? = some check) (w world : World)
    (key : String) (dto : CreateCampaignDto) (h : check w key dto = none) :
    check world key dto = none ↔ CampaignAdmitted f world dto n := by
  have hn : n < 3 := (List.getElem?_eq_some_iff.mp hc).1
  match n, hn with
  | 0, _ =>
    cases hc
    exact session_and_key_again h
  | 1, _ =>
    cases hc
    exact session_exists_again
  | 2, _ =>
    cases hc
    exact content_again h

theorem message_admits_iff {s : State String String CreateMessageJobDto World CreationError String}
    (hr : Reachable (system (messageJobs f)) s) (e : Event String String CreateMessageJobDto World) :
    AdmitsReplays (MessageAdmitted f) s e ↔ Readmits (messageJobs f) s e := by
  refine admits_replays_iff (fun n check hc => message_checks_again hc) (fun n hn _ _ => ?_) hr e
  match n, hn with
  | n + 3, _ => trivial

theorem campaign_admits_iff {s : State String String CreateCampaignDto World CreationError String}
    (hr : Reachable (system (campaigns f)) s) (e : Event String String CreateCampaignDto World) :
    AdmitsReplays (CampaignAdmitted f) s e ↔ Readmits (campaigns f) s e := by
  refine admits_replays_iff (fun n check hc => campaign_checks_again hc) (fun n hn _ _ => ?_) hr e
  match n, hn with
  | n + 3, _ => trivial

/-- A repeated creation returns the resource of the first one in every run in which the validations
admit it again, and a validation that does not is just what breaks it. -/
theorem creations_are_replayed (f : Formats) :
    (∀ s, Reachable (restrict (system (messageJobs f)) (AdmitsReplays (MessageAdmitted f))) s →
      Replayed s ∧ OneResource (messageJobs f) s ∧ ∀ e, (system (messageJobs f)).enabled s e →
        (Replayed ((system (messageJobs f)).next s e) ↔
          AdmitsReplays (MessageAdmitted f) s e)) ∧
    (∀ s, Reachable (restrict (system (campaigns f)) (AdmitsReplays (CampaignAdmitted f))) s →
      Replayed s ∧ OneResource (campaigns f) s ∧ ∀ e, (system (campaigns f)).enabled s e →
        (Replayed ((system (campaigns f)).next s e) ↔
          AdmitsReplays (CampaignAdmitted f) s e)) :=
  ⟨fun _ hr => replays_under (fun _ => message_admits_iff) hr,
    fun _ hr => replays_under (fun _ => campaign_admits_iff) hr⟩

/-- One date is one second after the start of the clock. -/
def plainFormats : Formats where
  parseDate s := if s = "1970-01-01T00:00:01.000Z" then some 1000 else none
  isoString _ := "1970-01-01T00:00:01.000Z"
  sha256 s := s
  isUUID _ := true
  isISO8601 _ := true

def worldAt (now : ℤ) : World where
  allowedSessionIds := ["session-1"]
  sessions s := s == "session-1"
  groups _ _ := none
  now := now

def emptyStore : State String String CreateMessageJobDto World CreationError String where
  world := worldAt 0
  records _ := none
  requests _ := none
  owed _ := none
  drawn := []
  removed := []

def scheduledJob : CreateMessageJobDto :=
  ⟨"session-1", "120363000000000000@g.us", "Hello", some "1970-01-01T00:00:01.000Z", true⟩

def createOnce : List (Event String String CreateMessageJobDto World) :=
  [.start 1 "key-1" scheduledJob, .check 1, .check 1, .check 1, .check 1, .insert 1 7]

/-- A creation and its repetition at once. -/
theorem repeated_job_is_returned :
    ∃ s, s = runTrace (system (messageJobs plainFormats)) emptyStore (createOnce ++
      [.start 2 "key-1" scheduledJob, .check 2, .check 2, .check 2, .check 2, .insert 2 8,
        .select 2]) ∧ Replayed s ∧ s.owed 2 = some 7 := by
  have hvalid : ValidTrace
      (restrict (system (messageJobs plainFormats)) (AdmitsReplays (MessageAdmitted plainFormats)))
      emptyStore (createOnce ++
        [.start 2 "key-1" scheduledJob, .check 2, .check 2, .check 2, .check 2, .insert 2 8,
          .select 2]) := by decide +kernel
  have hstart : Start emptyStore := ⟨fun _ => rfl, fun _ => rfl, fun _ => rfl⟩
  have hrun := valid_trace_restricted_run hstart hvalid
  exact ⟨_, rfl, ((creations_are_replayed plainFormats).1 _ ⟨_, hrun⟩).1, by decide +kernel⟩

/-- The same repetition ten minutes later, when the schedule has passed. -/
theorem late_repetition_is_refused :
    ∃ s, Reachable (system (messageJobs plainFormats)) s ∧ s.owed 2 = some 7 ∧
      (s.requests 2).map Request.phase = some (.answered
        (.refused ⟨409, none, "scheduledAt is more than 60 seconds in the past"⟩)) := by
  have hvalid : ValidTrace (system (messageJobs plainFormats)) emptyStore (createOnce ++
      [.world (worldAt 600000), .start 2 "key-1" scheduledJob, .check 2, .check 2, .check 2]) := by
    decide +kernel
  have hstart : Start emptyStore := ⟨fun _ => rfl, fun _ => rfl, fun _ => rfl⟩
  refine ⟨_, ⟨_, valid_trace_run hstart hvalid⟩, ?_⟩
  decide +kernel

end Replays

end CreationReplay
