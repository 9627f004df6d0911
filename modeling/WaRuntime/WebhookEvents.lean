import Mathlib.Data.Int.Log
import Mathlib.Data.Rat.Floor
import WaRuntime.MessageJobStatements

/-! The envelope of an OpenWA webhook and the runtime event it is normalized to.
The payload of an envelope is any JSON value, so what the code reads of it goes through
JavaScript's own conversions: a missing member is `undefined`, `||` and `??` choose by truthiness
and by nullishness, and `String(x)` and `new Date(x)` may throw on an object. `Number` of a string
and `Date.parse` are parameters. -/
namespace WebhookEvents

open MessageJobStatements

/-- A JSON value; a number has the double it denotes and the text JavaScript prints for it. -/
inductive Json where
  | null
  | bool (value : Bool)
  | number (value : ℚ) (text : String)
  | string (value : String)
  | array (elements : List Json)
  | object (members : List (String × Json))
  deriving Repr

namespace Json

/-- `value[name]`; `none` is `undefined`. Only an object has any of the names that are read. -/
def member (name : String) : Json → Option Json
  | .object members => members.lookup name
  | _ => none

def truthy : Json → Bool
  | .null => false
  | .bool value => value
  | .number value _ => value != 0
  | .string value => value != ""
  | .array _ => true
  | .object _ => true

mutual

/-- `String(value)`; `none` where it throws. `toString` of an object is inherited unless the
object has a member of that name, which is no function. -/
def toText : Json → Option String
  | .null => some "null"
  | .bool value => some (if value then "true" else "false")
  | .number _ text => some text
  | .string value => some value
  | .array elements => (joinTexts elements).map (String.intercalate ",")
  | .object members => if (members.lookup "toString").isSome then none else some "[object Object]"

/-- The texts that `join` puts together: `null` counts as the empty one. -/
def joinTexts : List Json → Option (List String)
  | [] => some []
  | .null :: rest => (joinTexts rest).map ("" :: ·)
  | value :: rest => (toText value).bind fun text => (joinTexts rest).map (text :: ·)

end

end Json

/-- `a || b` on values that may be undefined. -/
def orElse (a b : Option Json) : Option Json := if a.any Json.truthy then a else b

/-- `a ?? b`. -/
def nullish (a b : Option Json) : Option Json :=
  match a with
  | none => b
  | some .null => b
  | some value => some value

/-- The `text` of the normalizer: a string, or the empty one. -/
def text : Option Json → String
  | some (.string value) => value
  | _ => ""

/-- `s || fallback` on strings. -/
def textOr (s fallback : String) : String := if s = "" then fallback else s

/-- `s || null`. -/
def textOrNull (s : String) : Option String := if s = "" then none else some s

def isTrue : Option Json → Bool
  | some (.bool true) => true
  | _ => false

/-- `String(value ?? '')`. -/
def stringOrEmpty : Option Json → Option String
  | none => some ""
  | some .null => some ""
  | some value => value.toText

/-- What `Number(s)` and `Date.parse(s)` give; `none` is NaN, or for a number an infinity. -/
structure Parsing where
  number : String → Option ℚ
  date : String → Option ℤ

/-- The double nearest to a rational number, ties to even. No overflow: what is too large for a
double is too large for a date. -/
def nearestDouble (q : ℚ) : ℚ :=
  let ulp : ℚ := 2 ^ (max (Int.log 2 |q| - 52) (-1074))
  let low := ⌊q / ulp⌋
  let rest := q / ulp - low
  let rounded := if rest < 1 / 2 ∨ rest = 1 / 2 ∧ low % 2 = 0 then low else low + 1
  rounded * ulp

/-- `new Date(q)`: whole milliseconds, toward zero; `none` is an invalid date. -/
def timeClip (q : ℚ) : Option ℤ :=
  if 8640000000000000 < |q| then none else some (if 0 ≤ q then ⌊q⌋ else ⌈q⌉)

/-- A number of seconds or, from 10^10 on, of milliseconds. -/
def dateOfNumber (value : ℚ) : Option ℤ :=
  timeClip (if value < 10000000000 then nearestDouble (value * 1000) else value)

/-- `new Date(value)`; the outer `none` where the conversion to a primitive throws. -/
def newDate (parsing : Parsing) : Json → Option (Option ℤ)
  | .null => some (some 0)
  | .bool value => some (some (if value then 1 else 0))
  | .number value _ => some (timeClip value)
  | value => value.toText.map parsing.date

/-- The white space that `trim` removes. -/
def whiteSpace : List Char :=
  ['\t', '\n', '\x0b', '\x0c', '\r', ' ', '\xa0', '\u1680', '\u2000', '\u2001', '\u2002',
    '\u2003', '\u2004', '\u2005', '\u2006', '\u2007', '\u2008', '\u2009', '\u200a', '\u2028',
    '\u2029', '\u202f', '\u205f', '\u3000', '\ufeff']

def blank (s : String) : Bool := s.toList.all (· ∈ whiteSpace)

def dateFrom (parsing : Parsing) (value : Option Json) (fallback : Json) : Option (Option ℤ) :=
  match value with
  | some (.number value _) => some (dateOfNumber value)
  | some (.string value) =>
    if blank value then newDate parsing fallback
    else
      match parsing.number value with
      | some numeric => some (dateOfNumber numeric)
      | none =>
        match parsing.date value with
        | some parsed => some (some parsed)
        | none => newDate parsing fallback
  | _ => newDate parsing fallback

/-- The controller asks of `timestamp` and `data` only that they are truthy. -/
structure OpenWAWebhookEnvelope where
  event : String
  timestamp : Json
  sessionId : String
  idempotencyKey : String
  deliveryId : String
  data : Json
  deriving Repr

/-- The checks of the controller on a signed body. -/
def OpenWAWebhookEnvelope.Accepted (allowedSessionIds : List String)
    (envelope : OpenWAWebhookEnvelope) : Prop :=
  envelope.event ≠ "" ∧ envelope.timestamp.truthy ∧ envelope.sessionId ≠ "" ∧
    envelope.idempotencyKey ≠ "" ∧ envelope.deliveryId ≠ "" ∧ envelope.data.truthy ∧
    envelope.sessionId ∈ allowedSessionIds

instance (allowedSessionIds : List String) (envelope : OpenWAWebhookEnvelope) :
    Decidable (envelope.Accepted allowedSessionIds) := inferInstanceAs (Decidable (_ ∧ _))

inductive RuntimeEventPayload where
  | messageReceived (messageId groupId senderId body messageType : String) (fromMe isGroup : Bool)
  | messageStatus (messageId : String) (groupId deliveryStatus : Option String)
  | sessionStatus (status : String)
  | sessionRestriction (active : Bool) (kind code expiresAt : Option String)
  | groupChange (groupId : String) (participantIds : List Json) (changes : Option Json)
  | gateway (data : Json)
  deriving Repr

/-- `eventVersion` is always 1. An `occurredAt` of `none` is an invalid date. -/
structure RuntimeEvent where
  eventId : String
  sourceEventType : String
  eventType : String
  sessionId : String
  occurredAt : Option ℤ
  payload : RuntimeEventPayload
  deriving Repr

def messageStatusEvents : List String := ["message.ack", "message.sent", "message.failed"]

def groupEvents : List String := ["group.join", "group.leave", "group.update"]

/-- The type of the normalized event and its payload. -/
def normalizePayload (event : String) (data : Json) : String × RuntimeEventPayload :=
  let field := fun name => data.member name
  if event = "message.received" then
    let groupId := text (orElse (field "chatId") (field "from"))
    ("message.received",
      .messageReceived (text (field "id")) groupId (text (orElse (field "author") (field "from")))
        (text (field "body")) (textOr (text (field "type")) "unknown") (isTrue (field "fromMe"))
        (isTrue (field "isGroup") || groupId.endsWith "@g.us"))
  else if event ∈ messageStatusEvents then
    (event,
      .messageStatus (text (orElse (field "messageId") (field "id")))
        (textOrNull (text (field "chatId")))
        (textOrNull (text (orElse (field "status") (field "ack")))))
  else if event = "session.status" then
    ("session.status.changed", .sessionStatus (textOr (text (field "status")) "unknown"))
  else if event = "session.restriction" then
    ("session.restriction.changed",
      .sessionRestriction (isTrue (field "active")) (textOrNull (text (field "kind")))
        (textOrNull (text (field "code"))) (textOrNull (text (field "expiresAt"))))
  else if event ∈ groupEvents then
    (event,
      .groupChange (text (field "groupId"))
        (match field "participantIds" with
          | some (.array elements) => elements
          | _ => [])
        (match field "changes" with
          | some (.array elements) => some (.array elements)
          | some (.object members) => some (.object members)
          | _ => none))
  else ("gateway." ++ event, .gateway data)

/-- `none` where `new Date` throws. -/
def normalizeOpenWAWebhook (parsing : Parsing) (envelope : OpenWAWebhookEnvelope) :
    Option RuntimeEvent :=
  (dateFrom parsing (envelope.data.member "timestamp") envelope.timestamp).map fun occurredAt =>
    let normalized := normalizePayload envelope.event envelope.data
    { eventId := envelope.idempotencyKey
      sourceEventType := envelope.event
      eventType := normalized.1
      sessionId := envelope.sessionId
      occurredAt := occurredAt
      payload := normalized.2 }

/-- What the processor looks up for an acknowledgement in its object literal. Two lower case names
are found on the literal's prototype: they give a truthy value that is no status. -/
inductive WebhookStatus where
  | absent
  | status (status : MessageJobStatus)
  | inherited
  deriving DecidableEq, Repr

def acknowledgedStatus (status : String) : WebhookStatus :=
  if status = "sent" then .status .sent
  else if status = "delivered" then .status .delivered
  else if status = "read" then .status .read
  else if status = "failed" then .status .failed
  else if status = "constructor" ∨ status = "__proto__" then .inherited
  else .absent

/-- `none` where `String(data.status)` throws. -/
def webhookStatus (event : String) (data : Json) : Option WebhookStatus :=
  if event = "message.sent" then some (.status .sent)
  else if event = "message.failed" then some (.status .failed)
  else if event ≠ "message.ack" then some .absent
  else (stringOrEmpty (data.member "status")).map fun status => acknowledgedStatus status.toLower

/-- The message id of the job update; `none` where `String` throws. -/
def webhookMessageId (data : Json) : Option String :=
  stringOrEmpty (nullish (data.member "messageId") (data.member "id"))

def webhookSenderId (data : Json) : Option String :=
  stringOrEmpty (nullish (data.member "author") (data.member "from"))

def webhookPushName (data : Json) : Option String :=
  match (data.member "contact").bind (Json.member "pushName") with
  | some (.string pushName) => some pushName
  | _ => none

section Specifications

variable {parsing : Parsing} {envelope : OpenWAWebhookEnvelope} {event : RuntimeEvent}

/-- The normalized event carries the envelope's key and session whatever the payload says. -/
theorem normalized_identity (h : normalizeOpenWAWebhook parsing envelope = some event) :
    event.eventId = envelope.idempotencyKey ∧ event.sourceEventType = envelope.event ∧
      event.sessionId = envelope.sessionId ∧
      (event.eventType, event.payload) = normalizePayload envelope.event envelope.data := by
  obtain ⟨occurredAt, _, rfl⟩ := Option.map_eq_some_iff.mp h
  exact ⟨rfl, rfl, rfl, rfl⟩

/-- Only the three message events have a status to apply. -/
theorem status_of_message_event {name : String} {data : Json} {found : WebhookStatus}
    (h : webhookStatus name data = some found) (hf : found ≠ .absent) :
    name ∈ messageStatusEvents := by
  unfold webhookStatus at h
  by_cases hs : name = "message.sent"
  · simp [messageStatusEvents, hs]
  · by_cases hx : name = "message.failed"
    · simp [messageStatusEvents, hx]
    · by_cases ha : name = "message.ack"
      · simp [messageStatusEvents, ha]
      · simp only [hs, hx, ha, if_false, ne_eq, not_false_eq_true, if_true, Option.some.injEq] at h
        exact absurd h.symm hf

theorem acknowledged_range {word : String} {status : MessageJobStatus}
    (h : acknowledgedStatus word = .status status) : status ∈ [.sent, .delivered, .read, .failed] := by
  unfold acknowledgedStatus at h
  by_cases hs : word = "sent"
  · simp only [hs, if_true, WebhookStatus.status.injEq] at h
    simp [← h]
  · by_cases hd : word = "delivered"
    · simp only [hd, if_neg (by decide : ¬ "delivered" = "sent"), if_true,
        WebhookStatus.status.injEq] at h
      simp [← h]
    · by_cases hr : word = "read"
      · simp only [hr, if_neg (by decide : ¬ "read" = "sent"),
          if_neg (by decide : ¬ "read" = "delivered"), if_true, WebhookStatus.status.injEq] at h
        simp [← h]
      · simp only [hs, hd, hr, if_false] at h
        split at h
        · simp only [WebhookStatus.status.injEq] at h
          simp [← h]
        · split at h <;> simp at h

/-- A status that a webhook applies is one of the four acknowledgements. -/
theorem webhook_status_range {name : String} {data : Json} {status : MessageJobStatus}
    (h : webhookStatus name data = some (.status status)) :
    status ∈ [.sent, .delivered, .read, .failed] := by
  unfold webhookStatus at h
  by_cases hs : name = "message.sent"
  · simp only [hs, if_true, Option.some.injEq, WebhookStatus.status.injEq] at h
    simp [← h]
  · by_cases hf : name = "message.failed"
    · simp only [hf, if_neg (by decide : ¬ "message.failed" = "message.sent"), if_true,
        Option.some.injEq, WebhookStatus.status.injEq] at h
      simp [← h]
    · simp only [hs, hf, if_false] at h
      split at h
      · simp at h
      · obtain ⟨word, _, hw⟩ := Option.map_eq_some_iff.mp h
        exact acknowledged_range hw

end Specifications

end WebhookEvents
