import WaRuntime.CreationReplay
import WaRuntime.JoinedFields
import WaRuntime.Utf16Strings

/-! The fingerprint of a message request.
It is the hash of five fields that are joined with line breaks, of which the recipient and the text
are free to have line breaks of their own; the schedule is hashed as the date it denotes. The fields
are strings of JavaScript, which a JSON body may fill with surrogates that have no partner; the hash
is that of their UTF-8 encoding. -/
namespace MessageFingerprint

open TransitionRuns KeyedCreation JoinedFields Utf16Strings
open CreationReplay (Formats World CreationError given assertScheduledAt plainFormats worldAt
  utf16Length sessionForbidden)

/-- What `IsISO8601` accepts is a text. -/
structure CreateMessageJobDto where
  sessionId : Utf16String
  recipientId : Utf16String
  text : Utf16String
  scheduledAt : Option String
  dryRun : Bool
  deriving DecidableEq, Repr

/-- The request as the database stores it. -/
def CreateMessageJobDto.stored (dto : CreateMessageJobDto) : CreationReplay.CreateMessageJobDto :=
  ⟨wellFormed dto.sessionId, wellFormed dto.recipientId, wellFormed dto.text, dto.scheduledAt,
    dto.dryRun⟩

/-- A request that is well formed. -/
def encoded (dto : CreationReplay.CreateMessageJobDto) : CreateMessageJobDto :=
  ⟨units dto.sessionId, units dto.recipientId, units dto.text, dto.scheduledAt, dto.dryRun⟩

variable {f : Formats} {a b : CreateMessageJobDto}

def flag (dto : CreateMessageJobDto) : String := if dto.dryRun then "true" else "false"

/-- `toISOString` throws on an invalid date. -/
def scheduleText (f : Formats) (dto : CreateMessageJobDto) : Option String :=
  match given dto.scheduledAt with
  | none => some ""
  | some value => (f.parseDate value).map f.isoString

/-- `join('\n')`. -/
def joinLines (fields : List Utf16String) : Utf16String := [10].intercalate fields

def messageRequestHash (f : Formats) (dto : CreateMessageJobDto) : Option String :=
  (scheduleText f dto).map fun scheduledAt =>
    f.sha256 (wellFormed (joinLines
      [dto.sessionId, dto.recipientId, dto.text, units scheduledAt, units (flag dto)]))

/-- The schedule of the request, where it has one, is a date. -/
def Dated (f : Formats) (dto : CreateMessageJobDto) : Prop :=
  ∀ value, given dto.scheduledAt = some value → (f.parseDate value).isSome

section Preimages

theorem scheduleText_some : (scheduleText f a).isSome ↔ Dated f a := by
  unfold scheduleText Dated
  cases hgiven : given a.scheduledAt with
  | none => simp
  | some value => simp

/-- A line break is a unit of its own. -/
theorem joinLines_scalars (session recipient text schedule dryRun : Utf16String) :
    scalars (joinLines [session, recipient, text, schedule, dryRun]) =
      scalars session ++ '\n' :: ((((scalars recipient ++ '\n' :: scalars text) ++
        '\n' :: scalars schedule) ++ '\n' :: scalars dryRun)) := by
  have hbreak : ∀ us vs, scalars (us ++ 10 :: vs) = scalars us ++ '\n' :: scalars vs :=
    fun _ _ => scalars_break rfl rfl
  have hjoin : joinLines [session, recipient, text, schedule, dryRun] =
      session ++ 10 :: (recipient ++ 10 :: (text ++ 10 :: (schedule ++ 10 :: dryRun))) := by
    simp [joinLines]
  rw [hjoin, hbreak, hbreak, hbreak, hbreak]
  simp

end Preimages

section Endpoint

/-- `CreationReplay.assertKeyAndScope` on strings of JavaScript. -/
def assertKeyAndScope (world : World) (idempotencyKey : String) (dto : CreateMessageJobDto) :
    Option CreationError :=
  if 200 < utf16Length idempotencyKey then
    some ⟨400, none, "Idempotency-Key must not exceed 200 characters"⟩
  else if dto.sessionId ∉ world.allowedSessionIds.map units then some sessionForbidden
  else if dto.dryRun = false ∧ ¬ units "@g.us" <:+ dto.recipientId then
    some ⟨400, none, "Live low-level message jobs require a synchronized group recipient"⟩
  else none

/-- `CreationReplay.messageJobs` on strings of JavaScript; the other checks look at the database and
at the schedule. -/
def messageJobs (f : Formats) :
    Endpoint String String CreateMessageJobDto World CreationError String where
  checks := [assertKeyAndScope,
    fun world key dto => CreationReplay.assertGroupSendable world key dto.stored,
    fun world key dto => assertScheduledAt f world key dto.stored]
  slot key := key
  hash dto := (messageRequestHash f dto).getD ""
  looksFirst := false

/-- On well-formed requests the endpoint is the one of `CreationReplay`. -/
theorem encoded_checks (world : World) (key : String) (dto : CreationReplay.CreateMessageJobDto) :
    (messageJobs f).checks.map (fun check => check world key (encoded dto)) =
      (CreationReplay.messageJobs f).checks.map (fun check => check world key dto) := by
  have hstored : (encoded dto).stored = dto := by
    simp [encoded, CreateMessageJobDto.stored]
  have hsession : units dto.sessionId ∈ world.allowedSessionIds.map units ↔
      dto.sessionId ∈ world.allowedSessionIds := List.mem_map_of_injective units_injective
  have hgroup : units "@g.us" <:+ units dto.recipientId ↔ dto.recipientId.endsWith "@g.us" := by
    rw [units_suffix, String.endsWith, String.Slice.endsWith_string_iff, String.copy_toSlice]
  have hkey : assertKeyAndScope world key (encoded dto) =
      CreationReplay.assertKeyAndScope world key dto := by
    simp only [assertKeyAndScope, CreationReplay.assertKeyAndScope, encoded, hsession, hgroup]
  simp only [messageJobs, CreationReplay.messageJobs, List.map_cons, List.map_nil, hkey, hstored]

theorem encoded_hash {dto : CreationReplay.CreateMessageJobDto} (hd : Dated f (encoded dto)) :
    (messageJobs f).hash (encoded dto) = (CreationReplay.messageJobs f).hash dto := by
  obtain ⟨text, htext⟩ := Option.isSome_iff_exists.mp (scheduleText_some.mpr hd)
  have hjoined : wellFormed (joinLines [(encoded dto).sessionId, (encoded dto).recipientId,
      (encoded dto).text, units text, units (flag (encoded dto))]) =
      "\n".intercalate [dto.sessionId, dto.recipientId, dto.text, text, flag (encoded dto)] := by
    rw [← String.toList_inj, wellFormed, String.toList_ofList, joinLines_scalars]
    simp [encoded, scalars_units]
  have hhash : (messageJobs f).hash (encoded dto) = f.sha256 ("\n".intercalate
      [dto.sessionId, dto.recipientId, dto.text, text, flag (encoded dto)]) := by
    simp [messageJobs, messageRequestHash, htext, hjoined]
  have hflag : flag (encoded dto) = if dto.dryRun then "true" else "false" := rfl
  rw [hhash, hflag]
  change _ = CreationReplay.messageRequestHash f dto
  unfold CreationReplay.messageRequestHash
  unfold scheduleText at htext
  cases hgiven : given dto.scheduledAt with
  | none =>
    rw [show given (encoded dto).scheduledAt = none from hgiven] at htext
    cases htext
    simp only [Option.bind_none, Option.map_none, Option.getD_none]
  | some value =>
    rw [show given (encoded dto).scheduledAt = some value from hgiven] at htext
    obtain ⟨time, htime, rfl⟩ := Option.map_eq_some_iff.mp htext
    simp only [Option.bind_some, htime, Option.map_some, Option.getD_some]

end Endpoint

def request (recipientId text : String) (scheduledAt : Option String) : CreateMessageJobDto :=
  encoded ⟨"session-1", recipientId, text, scheduledAt, true⟩

end MessageFingerprint
