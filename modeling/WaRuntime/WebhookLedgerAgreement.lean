import WaRuntime.WebhookSessionIsolation

/-! The update of `message_jobs` beside the event that the ledger keeps.
The normalizer takes the first truthy field and only a string from it; the processor takes the
first field that is not null, makes a string of it, and never looks at `ack`. A status word that is
the name of a member of `Object.prototype` ends the transaction, so that nothing is stored. -/
namespace WebhookLedgerAgreement

open WebhookEvents WebhookStatements WebhookTransaction WebhookSessionIsolation OwnedTables
open MessageJobStatements

/-- The status that the processor's object literal has for a word in any case. -/
def knownStatus (word : String) : Option MessageJobStatus :=
  match acknowledgedStatus word.toLower with
  | .status status => some status
  | _ => none

/-- The message id and the status that the transaction updates jobs with. -/
def issuedUpdate (envelope : OpenWAWebhookEnvelope) : Option (String × MessageJobStatus) :=
  match webhookStatus envelope.event envelope.data, webhookMessageId envelope.data with
  | some (.status status), some messageId =>
    if messageId = "" then none else some (messageId, status)
  | _, _ => none

/-- The update that the stored event speaks of. -/
def ledgerUpdate (event : RuntimeEvent) : Option (String × MessageJobStatus) :=
  match event.payload with
  | .messageStatus messageId _ deliveryStatus =>
    if messageId = "" then none
    else if event.eventType = "message.sent" then some (messageId, .sent)
    else if event.eventType = "message.failed" then some (messageId, .failed)
    else (deliveryStatus.bind knownStatus).map fun status => (messageId, status)
  | _ => none

def applyUpdate (now : ℕ) (update : Option (String × MessageJobStatus))
    (jobs : JobId → Option MessageJob) : JobId → Option MessageJob :=
  match update with
  | none => jobs
  | some (messageId, status) => updateAll jobs (updateStatusByOpenWAMessageId now messageId status)

/-- The first of two fields that is neither absent nor null. -/
def FirstGiven (a b : Option Json) (value : Json) : Prop :=
  value ≠ .null ∧ (a = some value ∨ (a = none ∨ a = some .null) ∧ b = some value)

/-- A string in the first of two fields or, where that is absent or falsy, in the second. -/
def FirstString (a b : Option Json) (word : String) : Prop :=
  word ≠ "" ∧ (a = some (.string word) ∨ a.any Json.truthy = false ∧ b = some (.string word))

/-- `messageId` is a string; or it is absent, null or falsy, and `id` is a string, which spells
out a `messageId` that is falsy without being null. -/
def SameId (data : Json) : Prop := ∃ word, word ≠ "" ∧
  (data.member "messageId" = some (.string word) ∨
    (data.member "messageId" = none ∨ data.member "messageId" = some .null ∨
      ∃ value, data.member "messageId" = some value ∧ value.truthy = false ∧
        value.toText = some word) ∧
      data.member "id" = some (.string word))

/-- `status` is a string, or it is falsy and spells out the same status as the string `ack`. What is
falsy spells out no status, so that an update is only due in the first case. -/
def SameStatus (data : Json) : Prop := ∃ word, word ≠ "" ∧
  (data.member "status" = some (.string word) ∨
    ∃ value spelled, data.member "status" = some value ∧ value.truthy = false ∧
      value.toText = some spelled ∧ data.member "ack" = some (.string word) ∧
      knownStatus spelled = knownStatus word)

/-- The processor finds an id and, for an acknowledgement, a status. -/
def JobUpdateDue (event : String) (data : Json) : Prop :=
  (∃ value word, FirstGiven (data.member "messageId") (data.member "id") value ∧
      value.toText = some word ∧ word ≠ "") ∧
    (event = "message.ack" → ∃ value word, data.member "status" = some value ∧ value ≠ .null ∧
      value.toText = some word ∧ (knownStatus word).isSome)

/-- So does a reader of the ledger. -/
def LedgerUpdateDue (event : String) (data : Json) : Prop :=
  (∃ word, FirstString (data.member "messageId") (data.member "id") word) ∧
    (event = "message.ack" → ∃ word, FirstString (data.member "status") (data.member "ack") word ∧
      (knownStatus word).isSome)

/-- Where one of the two finds an update, both take it from the same fields. -/
def Unambiguous (event : String) (data : Json) : Prop :=
  JobUpdateDue event data ∨ LedgerUpdateDue event data →
    SameId data ∧ (event = "message.ack" → SameStatus data)

section Readings

variable {a b : Option Json} {word : String} {event : String} {data : Json}

theorem string_reads {value : Option Json} (hw : word ≠ "") : stringOrEmpty value = some word ↔
    ∃ given, value = some given ∧ given ≠ .null ∧ given.toText = some word := by
  cases value with
  | none => simpa [stringOrEmpty] using hw.symm
  | some given =>
    cases given with
    | null => simpa [stringOrEmpty] using hw.symm
    | _ => simp [stringOrEmpty]

theorem first_given {value : Json} :
    nullish a b = some value ∧ value ≠ .null ↔ FirstGiven a b value := by
  unfold FirstGiven
  cases a with
  | none => simp [nullish, and_comm]
  | some first =>
    cases first with
    | null => simp +contextual [nullish, and_comm, eq_comm]
    | _ => simp [nullish, and_comm]

theorem job_reads (hw : word ≠ "") : stringOrEmpty (nullish a b) = some word ↔
    ∃ value, FirstGiven a b value ∧ value.toText = some word := by
  rw [string_reads hw]
  constructor
  · rintro ⟨value, hgiven, hnull, htext⟩
    exact ⟨value, first_given.mp ⟨hgiven, hnull⟩, htext⟩
  · rintro ⟨value, hfirst, htext⟩
    obtain ⟨hgiven, hnull⟩ := first_given.mpr hfirst
    exact ⟨value, hgiven, hnull, htext⟩

theorem text_reads {value : Option Json} (hw : word ≠ "") :
    text value = word ↔ value = some (.string word) := by
  cases value with
  | none => simpa [text] using hw.symm
  | some given =>
    cases given with
    | string found => simp [text]
    | _ => simpa [text] using hw.symm

theorem ledger_reads (hw : word ≠ "") : text (orElse a b) = word ↔ FirstString a b word := by
  have htruthy : (Json.string word).truthy = true := by simp [Json.truthy, hw]
  rw [text_reads hw]
  unfold orElse FirstString
  by_cases ha : a.any Json.truthy = true
  · simp [ha, hw]
  · have hfirst : a ≠ some (.string word) := by
      rintro rfl
      exact ha htruthy
    simp [ha, hw, hfirst]

theorem known_of_reads (h : (knownStatus word).isSome) : word ≠ "" := by
  rintro rfl
  revert h
  decide +kernel

theorem same_id_reads (h : SameId data) : ∃ word, word ≠ "" ∧
    stringOrEmpty (nullish (data.member "messageId") (data.member "id")) = some word ∧
    text (orElse (data.member "messageId") (data.member "id")) = word := by
  obtain ⟨word, hw, hsame⟩ := h
  refine ⟨word, hw, (job_reads hw).mpr ?_, (ledger_reads hw).mpr ⟨hw, ?_⟩⟩
  · rcases hsame with hfirst | ⟨hnone | hnull | ⟨value, hfirst, hfalsy, htext⟩, hsecond⟩
    · exact ⟨.string word, ⟨nofun, .inl hfirst⟩, rfl⟩
    · exact ⟨.string word, ⟨nofun, .inr ⟨.inl hnone, hsecond⟩⟩, rfl⟩
    · exact ⟨.string word, ⟨nofun, .inr ⟨.inr hnull, hsecond⟩⟩, rfl⟩
    · by_cases hv : value = .null
      · exact ⟨.string word, ⟨nofun, .inr ⟨.inr (hv ▸ hfirst), hsecond⟩⟩, rfl⟩
      · exact ⟨value, ⟨hv, .inl hfirst⟩, htext⟩
  · rcases hsame with hfirst | ⟨hfalsy, hsecond⟩
    · exact .inl hfirst
    · refine .inr ⟨?_, hsecond⟩
      rcases hfalsy with hnone | hnull | ⟨value, hfirst, hfalsy, _⟩
      · simp [hnone]
      · simp [hnull, Json.truthy]
      · simp [hfirst, hfalsy]

theorem same_id_of_reads (hw : word ≠ "")
    (hj : stringOrEmpty (nullish (data.member "messageId") (data.member "id")) = some word)
    (hl : text (orElse (data.member "messageId") (data.member "id")) = word) : SameId data := by
  obtain ⟨value, ⟨hnull, hgiven⟩, htext⟩ := (job_reads hw).mp hj
  obtain ⟨_, hstring⟩ := (ledger_reads hw).mp hl
  refine ⟨word, hw, ?_⟩
  rcases hstring with hfirst | ⟨hfalsy, hsecond⟩
  · exact .inl hfirst
  · refine .inr ⟨?_, hsecond⟩
    rcases hgiven with hfirst | ⟨hnone | hnull', _⟩
    · exact .inr (.inr ⟨value, hfirst, by simpa [hfirst] using hfalsy, htext⟩)
    · exact .inl hnone
    · exact .inr (.inl hnull')

theorem same_status_reads (h : SameStatus data) :
    (stringOrEmpty (data.member "status")).bind knownStatus =
      knownStatus (text (orElse (data.member "status") (data.member "ack"))) := by
  obtain ⟨word, hw, hfirst | ⟨value, spelled, hfirst, hfalsy, htext, hsecond, hsame⟩⟩ := h
  · have hl : text (orElse (data.member "status") (data.member "ack")) = word :=
      (ledger_reads hw).mpr ⟨hw, .inl hfirst⟩
    rw [hl, hfirst]
    simp [stringOrEmpty, Json.toText]
  · have hl : text (orElse (data.member "status") (data.member "ack")) = word :=
      (ledger_reads hw).mpr ⟨hw, .inr ⟨by simp [hfirst, hfalsy], hsecond⟩⟩
    have hnull : knownStatus "" = knownStatus "null" := by decide +kernel
    rw [hl, hfirst, ← hsame]
    cases value with
    | null =>
      cases htext
      exact hnull
    | _ => simp only [stringOrEmpty, htext, Option.bind_some]

/-- The word that both read for a status known to both. -/
theorem same_status_of_reads {status : MessageJobStatus}
    (hj : (stringOrEmpty (data.member "status")).bind knownStatus = some status)
    (hl : knownStatus (text (orElse (data.member "status") (data.member "ack"))) = some status) :
    SameStatus data := by
  obtain ⟨spelled, hread, hknown⟩ := Option.bind_eq_some_iff.mp hj
  obtain ⟨value, hvalue, _, htext⟩ := (string_reads (known_of_reads (by simp [hknown]))).mp hread
  have hw : text (orElse (data.member "status") (data.member "ack")) ≠ "" :=
    known_of_reads (by simp [hl])
  obtain ⟨_, hfirst | ⟨hfalsy, hsecond⟩⟩ := (ledger_reads hw).mp rfl
  · exact ⟨_, hw, .inl hfirst⟩
  · exact ⟨_, hw, .inr ⟨value, spelled, hvalue, by simpa [hvalue] using hfalsy, htext, hsecond,
      hknown.trans hl.symm⟩⟩

/-- The status of an update, where `found` is the one that an acknowledgement carries. -/
def Applies (event : String) (found : Option MessageJobStatus) (status : MessageJobStatus) : Prop :=
  if event = "message.sent" then status = .sent
  else if event = "message.failed" then status = .failed
  else found = some status

theorem webhook_status_applies (hm : event ∈ messageStatusEvents) {status : MessageJobStatus} :
    webhookStatus event data = some (.status status) ↔
      Applies event ((stringOrEmpty (data.member "status")).bind knownStatus) status := by
  unfold webhookStatus Applies
  by_cases hs : event = "message.sent"
  · simp [hs, eq_comm]
  · by_cases hf : event = "message.failed"
    · simp [hf, eq_comm]
    · have ha : event = "message.ack" := by simpa [messageStatusEvents, hs, hf] using hm
      subst ha
      simp only [hs, hf, if_false, ne_eq, not_true_eq_false]
      cases stringOrEmpty (data.member "status") with
      | none => simp
      | some word =>
        simp only [Option.map_some, Option.some.injEq, Option.bind_some, knownStatus]
        cases acknowledgedStatus word.toLower <;> simp

end Readings

section Updates

variable {config : Config} {now token : ℕ} {envelope : OpenWAWebhookEnvelope}
  {event : RuntimeEvent} {db after : Database} {messageId : String} {status : MessageJobStatus}

theorem issued_some (hm : envelope.event ∈ messageStatusEvents) :
    issuedUpdate envelope = some (messageId, status) ↔ messageId ≠ "" ∧
      stringOrEmpty (nullish (envelope.data.member "messageId") (envelope.data.member "id")) =
        some messageId ∧
      Applies envelope.event ((stringOrEmpty (envelope.data.member "status")).bind knownStatus)
        status := by
  rw [← webhook_status_applies hm]
  unfold issuedUpdate webhookMessageId
  split
  · rename_i found id hfound hid
    rw [hfound, hid]
    by_cases he : id = ""
    · simp +contextual [he, eq_comm]
    · simp only [he, if_false, Option.some.injEq, Prod.mk.injEq, WebhookStatus.status.injEq]
      constructor
      · rintro ⟨rfl, rfl⟩
        exact ⟨he, rfl, rfl⟩
      · rintro ⟨_, rfl, rfl⟩
        exact ⟨rfl, rfl⟩
  · rename_i hnone
    simp only [reduceCtorEq, false_iff]
    rintro ⟨_, hid, hfound⟩
    exact hnone status messageId hfound hid

theorem ledger_some (hm : envelope.event ∈ messageStatusEvents)
    (hn : normalizeOpenWAWebhook config.parsing envelope = some event) :
    ledgerUpdate event = some (messageId, status) ↔ messageId ≠ "" ∧
      text (orElse (envelope.data.member "messageId") (envelope.data.member "id")) = messageId ∧
      Applies envelope.event
        (knownStatus (text (orElse (envelope.data.member "status") (envelope.data.member "ack"))))
        status := by
  obtain ⟨_, _, _, hpayload⟩ := normalized_identity hn
  have hreceived : envelope.event ≠ "message.received" := by
    intro h
    rw [h] at hm
    exact absurd hm (by decide)
  simp only [normalizePayload, hreceived, if_false, hm, if_true, Prod.mk.injEq] at hpayload
  obtain ⟨htype, hpayload⟩ := hpayload
  simp only [ledgerUpdate, hpayload, htype]
  generalize text (orElse (envelope.data.member "messageId") (envelope.data.member "id")) = id
  generalize text (orElse (envelope.data.member "status") (envelope.data.member "ack")) = word
  have hknown : (textOrNull word).bind knownStatus = knownStatus word := by
    unfold textOrNull
    by_cases hw : word = ""
    · simp only [hw, if_true, Option.bind_none]
      decide +kernel
    · simp [hw]
  rw [hknown]
  by_cases he : id = ""
  · simp +contextual [he, eq_comm]
  · unfold Applies
    by_cases hs : envelope.event = "message.sent"
    · simp only [he, hs, if_false, if_true, Option.some.injEq, Prod.mk.injEq]
      constructor
      · rintro ⟨rfl, rfl⟩
        exact ⟨he, rfl, rfl⟩
      · rintro ⟨_, rfl, rfl⟩
        exact ⟨rfl, rfl⟩
    · by_cases hf : envelope.event = "message.failed"
      · simp only [he, hf, if_neg (by decide : ¬ "message.failed" = "message.sent"), if_false, if_true,
          Option.some.injEq, Prod.mk.injEq]
        constructor
        · rintro ⟨rfl, rfl⟩
          exact ⟨he, rfl, rfl⟩
        · rintro ⟨_, rfl, rfl⟩
          exact ⟨rfl, rfl⟩
      · simp only [he, hs, hf, if_false, Option.map_eq_some_iff, Prod.mk.injEq]
        constructor
        · rintro ⟨found, hfound, rfl, rfl⟩
          exact ⟨he, rfl, hfound⟩
        · rintro ⟨_, rfl, hfound⟩
          exact ⟨status, hfound, rfl, rfl⟩

theorem applies_ack {found : Option MessageJobStatus} :
    Applies "message.ack" found status ↔ found = some status := by
  simp [Applies]

theorem ledger_due (hm : envelope.event ∈ messageStatusEvents)
    (hn : normalizeOpenWAWebhook config.parsing envelope = some event)
    (h : LedgerUpdateDue envelope.event envelope.data) : (ledgerUpdate event).isSome := by
  obtain ⟨⟨messageId, hid⟩, hack⟩ := h
  have hread := (ledger_reads hid.1).mpr hid
  obtain ⟨status, happlies⟩ : ∃ status, Applies envelope.event
      (knownStatus (text (orElse (envelope.data.member "status") (envelope.data.member "ack"))))
      status := by
    unfold Applies
    by_cases hs : envelope.event = "message.sent"
    · simp [hs]
    · by_cases hf : envelope.event = "message.failed"
      · simp [hf]
      · have ha : envelope.event = "message.ack" := by
          simpa [messageStatusEvents, hs, hf] using hm
        obtain ⟨word, hword, hknown⟩ := hack ha
        rw [(ledger_reads hword.1).mpr hword]
        simpa [hs, hf] using Option.isSome_iff_exists.mp hknown
  rw [(ledger_some hm hn).mpr ⟨hid.1, hread, happlies⟩]
  rfl

theorem job_due (hm : envelope.event ∈ messageStatusEvents)
    (h : JobUpdateDue envelope.event envelope.data) : (issuedUpdate envelope).isSome := by
  obtain ⟨⟨value, messageId, hgiven, htext, hid⟩, hack⟩ := h
  have hread := (job_reads hid).mpr ⟨value, hgiven, htext⟩
  obtain ⟨status, happlies⟩ : ∃ status, Applies envelope.event
      ((stringOrEmpty (envelope.data.member "status")).bind knownStatus) status := by
    unfold Applies
    by_cases hs : envelope.event = "message.sent"
    · simp [hs]
    · by_cases hf : envelope.event = "message.failed"
      · simp [hf]
      · have ha : envelope.event = "message.ack" := by
          simpa [messageStatusEvents, hs, hf] using hm
        obtain ⟨value, word, hvalue, hnull, hword, hknown⟩ := hack ha
        rw [(string_reads (known_of_reads hknown)).mpr ⟨value, hvalue, hnull, hword⟩]
        simpa [hs, hf] using Option.isSome_iff_exists.mp hknown
  rw [(issued_some hm).mpr ⟨hid, hread, happlies⟩]
  rfl

theorem due_of_issued (hm : envelope.event ∈ messageStatusEvents)
    (h : issuedUpdate envelope = some (messageId, status)) :
    JobUpdateDue envelope.event envelope.data := by
  obtain ⟨hid, hread, happlies⟩ := (issued_some hm).mp h
  obtain ⟨value, hgiven, htext⟩ := (job_reads hid).mp hread
  refine ⟨⟨value, messageId, hgiven, htext, hid⟩, fun hack => ?_⟩
  rw [hack, applies_ack] at happlies
  obtain ⟨word, hword, hknown⟩ := Option.bind_eq_some_iff.mp happlies
  have hknown : (knownStatus word).isSome := by simp [hknown]
  obtain ⟨given, hgiven, hnull, htext⟩ := (string_reads (known_of_reads hknown)).mp hword
  exact ⟨given, word, hgiven, hnull, htext, hknown⟩

theorem due_of_ledger (hm : envelope.event ∈ messageStatusEvents)
    (hn : normalizeOpenWAWebhook config.parsing envelope = some event)
    (h : ledgerUpdate event = some (messageId, status)) :
    LedgerUpdateDue envelope.event envelope.data := by
  obtain ⟨hid, hread, happlies⟩ := (ledger_some hm hn).mp h
  refine ⟨⟨messageId, (ledger_reads hid).mp hread⟩, fun hack => ?_⟩
  rw [hack, applies_ack] at happlies
  have hknown := Option.isSome_iff_exists.mpr ⟨status, happlies⟩
  exact ⟨_, (ledger_reads (known_of_reads hknown)).mp rfl, hknown⟩

/-- An update found by either is the one that both read from the same fields. -/
theorem agrees_of_unambiguous (hm : envelope.event ∈ messageStatusEvents)
    (hn : normalizeOpenWAWebhook config.parsing envelope = some event)
    (h : Unambiguous envelope.event envelope.data) : issuedUpdate envelope = ledgerUpdate event := by
  have hsame : JobUpdateDue envelope.event envelope.data ∨
      LedgerUpdateDue envelope.event envelope.data → ∀ messageId status,
        issuedUpdate envelope = some (messageId, status) ↔
          ledgerUpdate event = some (messageId, status) := by
    intro hdue messageId status
    obtain ⟨hsame, hack⟩ := h hdue
    obtain ⟨word, _, hj, hl⟩ := same_id_reads hsame
    rw [issued_some hm, ledger_some hm hn, hj, hl, Option.some.injEq]
    by_cases ha : envelope.event = "message.ack"
    · rw [same_status_reads (hack ha)]
    · have hother : ∀ found other, Applies envelope.event found status ↔
          Applies envelope.event other status := by
        intro found other
        unfold Applies
        have hcases : envelope.event = "message.sent" ∨ envelope.event = "message.failed" := by
          simpa [messageStatusEvents, ha] using hm
        rcases hcases with hs | hf
        · simp [hs]
        · simp [hf]
      rw [hother]
  apply Option.ext
  rintro ⟨messageId, status⟩
  constructor
  · intro hissued
    exact (hsame (.inl (due_of_issued hm hissued)) messageId status).mp hissued
  · intro hledger
    exact (hsame (.inr (due_of_ledger hm hn hledger)) messageId status).mpr hledger

theorem unambiguous_of_agrees (hm : envelope.event ∈ messageStatusEvents)
    (hn : normalizeOpenWAWebhook config.parsing envelope = some event)
    (h : issuedUpdate envelope = ledgerUpdate event) :
    Unambiguous envelope.event envelope.data := by
  intro hdue
  obtain ⟨⟨messageId, status⟩, hissued⟩ : ∃ update, issuedUpdate envelope = some update := by
    rcases hdue with hjob | hledger
    · exact Option.isSome_iff_exists.mp (job_due hm hjob)
    · rw [h]
      exact Option.isSome_iff_exists.mp (ledger_due hm hn hledger)
  obtain ⟨hid, hj, hsj⟩ := (issued_some hm).mp hissued
  obtain ⟨_, hl, hsl⟩ := (ledger_some hm hn).mp (h ▸ hissued)
  refine ⟨same_id_of_reads hid hj hl, fun hack => ?_⟩
  rw [hack, applies_ack] at hsj hsl
  exact same_status_of_reads hsj hsl

/-- The update that a committed transaction has made. -/
theorem committed_update {updated : Bool}
    (h : transaction config now token envelope db = .ok (some (after, updated))) :
    after.messageJobs = applyUpdate now (issuedUpdate envelope) db.messageJobs := by
  obtain ⟨event, status, messageId, stored, enqueued, written, _, hstatus, hmessage, _, hstore,
    henqueue, hwrite, rfl⟩ := transaction_committed h
  have hjobs : enqueued.messageJobs = db.messageJobs :=
    (enqueue_keeps henqueue).2.2.trans (store_keeps hstore).2.2
  unfold issuedUpdate
  rw [hstatus, hmessage]
  show written.messageJobs = _
  obtain ⟨rfl, hidle⟩ | ⟨applied, rfl, hid, rfl⟩ := update_jobs_ok hwrite
  · rcases hidle with rfl | rfl
    · cases status <;> simp [applyUpdate, hjobs]
    · simp [applyUpdate, hjobs]
  · simp [applyUpdate, hid, hjobs]

/-- A committed transaction applies the update of the event it stores just where the fields that
give one are unambiguous. -/
theorem update_agrees_iff {updated : Bool} (hm : envelope.event ∈ messageStatusEvents)
    (h : transaction config now token envelope db = .ok (some (after, updated))) :
    ∃ event stored, normalizeOpenWAWebhook config.parsing envelope = some event ∧
      storeInTransaction config now event db = .ok stored ∧
      after.messageJobs = applyUpdate now (issuedUpdate envelope) db.messageJobs ∧
      (issuedUpdate envelope = ledgerUpdate event ↔
        Unambiguous envelope.event envelope.data) := by
  have hjobs := committed_update h
  obtain ⟨event, _, _, stored, _, _, hevent, _, _, _, hstore, _⟩ := transaction_committed h
  refine ⟨event, stored, hevent, hstore, hjobs, ?_⟩
  constructor
  · exact unambiguous_of_agrees hm hevent
  · exact agrees_of_unambiguous hm hevent

theorem committed_of_isSome {result : Except ProcessError (Option (Database × Bool))}
    (h : result.toOption.join.isSome = true) :
    ∃ after updated, result = .ok (some (after, updated)) := by
  cases result with
  | error error => cases h
  | ok committed =>
    cases committed with
    | none => cases h
    | some pair => exact ⟨pair.1, pair.2, rfl⟩

/-- A claimed webhook beside the accepted message that it may be about. -/
def claimedWebhook (envelope : OpenWAWebhookEnvelope) : Database :=
  Database.claimForProcessing
    { acknowledgedJob "session-1" with
      webhookEvents := fun key =>
        if key = envelope.idempotencyKey then some (WebhookStatements.insert 0 envelope) else none
      webhook_stored := fun key row h => by
        split at h
        · rename_i hkey
          cases h
          exact ⟨hkey.symm, rfl⟩
        · cases h } 0 7 envelope.idempotencyKey

theorem acknowledgement_agrees : ∃ after updated event stored,
    transaction plainConfig 1 7 acknowledgement (claimedWebhook acknowledgement) =
      .ok (some (after, updated)) ∧
    normalizeOpenWAWebhook plainConfig.parsing acknowledgement = some event ∧
    storeInTransaction plainConfig 1 event (claimedWebhook acknowledgement) = .ok stored ∧
    after.messageJobs = applyUpdate 1 (issuedUpdate acknowledgement)
      (claimedWebhook acknowledgement).messageJobs ∧
    (issuedUpdate acknowledgement = ledgerUpdate event ↔
      Unambiguous acknowledgement.event acknowledgement.data) := by
  obtain ⟨after, updated, h⟩ : ∃ after updated,
      transaction plainConfig 1 7 acknowledgement (claimedWebhook acknowledgement) =
        .ok (some (after, updated)) := committed_of_isSome (by decide +kernel)
  obtain ⟨event, stored, hrest⟩ := update_agrees_iff (by decide) h
  exact ⟨after, updated, event, stored, h, hrest⟩

/-- An acknowledgement that carries its status under `ack`. -/
def ackOnly : OpenWAWebhookEnvelope :=
  { acknowledgement with
    data := .object [("messageId", .string "message-1"), ("ack", .string "read")] }

/-- The ledger gets a message that was read, and no job is updated. -/
theorem ack_field_updates_no_job :
    ¬ ∀ (config : Config) (now token : ℕ) (envelope : OpenWAWebhookEnvelope) (db after : Database)
      (updated : Bool) (event : RuntimeEvent), envelope.Accepted config.allowedSessionIds →
      envelope.event ∈ messageStatusEvents →
      transaction config now token envelope db = .ok (some (after, updated)) →
      normalizeOpenWAWebhook config.parsing envelope = some event →
      issuedUpdate envelope = ledgerUpdate event := by
  intro h
  obtain ⟨after, updated, hcommitted⟩ : ∃ after updated,
      transaction plainConfig 1 7 ackOnly (claimedWebhook ackOnly) =
        .ok (some (after, updated)) := committed_of_isSome (by decide +kernel)
  obtain ⟨event, hevent⟩ : ∃ event,
      normalizeOpenWAWebhook plainConfig.parsing ackOnly = some event := ⟨_, rfl⟩
  have hagrees := h plainConfig 1 7 ackOnly (claimedWebhook ackOnly) after updated event
    (by decide +kernel) (by decide) hcommitted hevent
  have hissued : issuedUpdate ackOnly = none := by decide +kernel
  have hledger : (normalizeOpenWAWebhook plainConfig.parsing ackOnly).bind ledgerUpdate =
      some ("message-1", .read) := by decide +kernel
  rw [hevent, Option.bind_some, ← hagrees, hissued] at hledger
  cases hledger

end Updates

end WebhookLedgerAgreement
