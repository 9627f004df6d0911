import Mathlib.Data.List.Basic
import WaRuntime.WebhookEvents

/-! The identity of a contact as it is read from a participant identifier: by TypeScript, by the
page query of the evidence backfill and of the late catch-up, and by the member identity backfill.
A regular expression is modelled by what it does on a list of characters; a digit is one of the
ten ASCII digits, which is what both engines take here. -/
namespace ContactNormalization

inductive ContactIdentityType where
  | lid
  | phoneJid
  | phone
  | otherJid
  deriving DecidableEq, Repr

/-- The type is never `phone`. -/
structure NormalizedContactIdentity where
  type : ContactIdentityType
  value : String
  phone : Option String
  deriving DecidableEq, Repr

section Texts

/-- `trim`. -/
def trim (cs : List Char) : List Char :=
  ((cs.dropWhile (· ∈ WebhookEvents.whiteSpace)).reverse.dropWhile
    (· ∈ WebhookEvents.whiteSpace)).reverse

/-- A match of `:\d+(?=@)` at the beginning, by what follows it. -/
def devicePart : List Char → Option (List Char)
  | ':' :: rest =>
    if rest.takeWhile Char.isDigit ≠ [] ∧ (rest.dropWhile Char.isDigit).head? = some '@' then
      some (rest.dropWhile Char.isDigit)
    else none
  | _ => none

/-- The first match of `:\d+(?=@)` taken out. -/
def removeDevice : List Char → List Char
  | [] => []
  | c :: cs =>
    match devicePart (c :: cs) with
    | some after => after
    | none => c :: removeDevice cs

def endsWith (suffix : String) (cs : List Char) : Bool := suffix.toList.isSuffixOf cs

/-- A regular expression of fixed length; `none` is a dot. -/
abbrev Pattern := List (Option Char)

def literal (s : String) : Pattern := s.toList.map some

/-- A pattern whose dots match any character: in a template literal `\.` is just a dot. -/
def dotted (s : String) : Pattern := s.toList.map fun c => if c = '.' then none else some c

def Pattern.accepts : Pattern → List Char → Bool
  | [], [] => true
  | none :: ps, _ :: cs => accepts ps cs
  | some p :: ps, c :: cs => p = c && accepts ps cs
  | _, _ => false

/-- The leftmost match of `(p|q|…)$` replaced. -/
def replaceAtEnd (patterns : List Pattern) (replacement : List Char) : List Char → List Char
  | [] => []
  | c :: cs =>
    if patterns.any (·.accepts (c :: cs)) then replacement
    else c :: replaceAtEnd patterns replacement cs

/-- `^\d+$`. -/
def allDigits (cs : List Char) : Bool := cs ≠ [] && cs.all Char.isDigit

end Texts

def phoneJidSuffix : List Pattern := [literal "@c.us", literal "@s.whatsapp.net"]

def normalizeContactIdentity (rawIdentity : String) : NormalizedContactIdentity :=
  let identity := removeDevice (trim rawIdentity.toList)
  let phone := replaceAtEnd phoneJidSuffix [] identity
  if endsWith "@lid" identity then ⟨.lid, String.ofList identity, none⟩
  else if (endsWith "@c.us" identity || endsWith "@s.whatsapp.net" identity) && allDigits phone then
    ⟨.phoneJid, String.ofList phone ++ "@c.us", some (String.ofList phone)⟩
  else ⟨.otherJid, String.ofList identity, none⟩

/-- The type that both SQL statements find by `LIKE`. -/
def likeIdentityType (cs : List Char) : ContactIdentityType :=
  if endsWith "@lid" cs then .lid
  else if endsWith "@c.us" cs || endsWith "@s.whatsapp.net" cs then .phoneJid
  else .otherJid

/-- A row of `member_evidence_backfill_page`: the participant's identifier, with the phone that the
member row may already have. -/
def memberEvidence (participantId : String) (resolvedPhoneNumber : Option String) :
    NormalizedContactIdentity :=
  let cs := participantId.toList
  let candidate := (resolvedPhoneNumber.map String.toList).getD
    (replaceAtEnd [dotted "@c.us", dotted "@s.whatsapp.net"] [] cs)
  { type := likeIdentityType cs
    value :=
      if endsWith "@s.whatsapp.net" cs then
        String.ofList (replaceAtEnd [dotted "@s.whatsapp.net"] "@c.us".toList cs)
      else participantId
    phone :=
      if (endsWith "@c.us" cs || endsWith "@s.whatsapp.net" cs) && allDigits candidate then
        some (String.ofList candidate)
      else none }

/-- What `processBatch` of the member identity backfill projects. -/
def memberIdentity (participantId : String) : ContactIdentityType × Option String :=
  let normalizedId := removeDevice participantId.toList
  let phoneCandidate := replaceAtEnd phoneJidSuffix [] normalizedId
  let identityType := likeIdentityType normalizedId
  (identityType,
    if identityType = .phoneJid ∧ allDigits phoneCandidate then some (String.ofList phoneCandidate)
    else none)

/-- The three readings of a participant identifier are the same. -/
def Agrees (participantId : String) (resolvedPhoneNumber : Option String) : Prop :=
  memberEvidence participantId resolvedPhoneNumber = normalizeContactIdentity participantId ∧
    memberIdentity participantId =
      ((normalizeContactIdentity participantId).type, (normalizeContactIdentity participantId).phone)

instance (participantId : String) (resolvedPhoneNumber : Option String) :
    Decidable (Agrees participantId resolvedPhoneNumber) := inferInstanceAs (Decidable (_ ∧ _))

/-- No white space around it, no device part, and before a phone suffix only digits; then a phone
that the member row has is that phone. -/
structure Plain (participantId : String) (resolvedPhoneNumber : Option String) : Prop where
  trimmed : trim participantId.toList = participantId.toList
  noDevice : removeDevice participantId.toList = participantId.toList
  phone : ∀ phone, participantId = phone ++ "@c.us" ∨ participantId = phone ++ "@s.whatsapp.net" →
    allDigits phone.toList = true ∧
      ∀ resolved, resolvedPhoneNumber = some resolved → resolved = phone

section Specifications

variable {cs front : List Char}

theorem accepts_length {p : Pattern} (h : p.accepts cs = true) : cs.length = p.length := by
  induction p generalizing cs with
  | nil =>
    cases cs with
    | nil => rfl
    | cons c cs => simp [Pattern.accepts] at h
  | cons q p ih =>
    cases cs with
    | nil => cases q <;> simp [Pattern.accepts] at h
    | cons c cs =>
      cases q with
      | none => simpa using ih h
      | some q =>
        simp only [Pattern.accepts, Bool.and_eq_true] at h
        simpa using ih h.2

theorem accepts_last {p : Pattern} {q : Char} (h : Pattern.accepts (p ++ [some q]) cs = true) :
    cs.getLast? = some q := by
  induction p generalizing cs with
  | nil =>
    cases cs with
    | nil => simp [Pattern.accepts] at h
    | cons c cs =>
      cases cs with
      | nil => simpa [Pattern.accepts, eq_comm] using h
      | cons d cs => simp [Pattern.accepts] at h
  | cons r p ih =>
    cases cs with
    | nil => cases r <;> simp [Pattern.accepts] at h
    | cons c cs =>
      have hrest : Pattern.accepts (p ++ [some q]) cs = true := by
        cases r with
        | none => exact h
        | some r =>
          simp only [List.cons_append, Pattern.accepts, Bool.and_eq_true] at h
          exact h.2
      have hlast := ih hrest
      cases cs with
      | nil => simp at hlast
      | cons d cs => rw [List.getLast?_cons_cons]; exact hlast

/-- A pattern that is no longer than the suffix, or ends in another character, finds nothing before
it, so the suffix is what is replaced. -/
theorem replace_suffix {patterns : List Pattern} {suffix : List Char} (replacement : List Char)
    (hs : patterns.any (·.accepts suffix) = true) (hne : suffix ≠ [])
    (hother : ∀ p ∈ patterns, p.length ≤ suffix.length ∨
      ∃ q x, p = q ++ [some x] ∧ suffix.getLast? ≠ some x) :
    replaceAtEnd patterns replacement (front ++ suffix) = front ++ replacement := by
  have hlong : ∀ c front, patterns.any (·.accepts (c :: (front ++ suffix))) = false := by
    intro c front
    rw [List.any_eq_false]
    intro p hp haccepts
    rcases hother p hp with hlen | ⟨q, x, rfl, hlast⟩
    · have hlength := accepts_length haccepts
      simp only [List.length_cons, List.length_append] at hlength
      omega
    · apply hlast
      have hend := accepts_last haccepts
      rw [← List.cons_append, List.getLast?_append] at hend
      cases hsuffix : suffix.getLast? with
      | none => exact absurd (List.getLast?_eq_none_iff.mp hsuffix) hne
      | some y => simpa [hsuffix] using hend
  induction front with
  | nil =>
    cases suffix with
    | nil => exact absurd rfl hne
    | cons c cs => simp [replaceAtEnd, hs]
  | cons c front ih =>
    simp only [List.cons_append, replaceAtEnd, hlong, Bool.false_eq_true, if_false, ih]

/-- Escaped or not, the dots make no difference behind the `LIKE`. -/
def IsPhoneSuffix (patterns : List Pattern) : Prop :=
  patterns = phoneJidSuffix ∨ patterns = [dotted "@c.us", dotted "@s.whatsapp.net"]

theorem replace_c_us {patterns : List Pattern} (hp : IsPhoneSuffix patterns)
    (replacement : List Char) :
    replaceAtEnd patterns replacement (front ++ "@c.us".toList) = front ++ replacement := by
  apply replace_suffix
  · rcases hp with rfl | rfl <;> decide
  · decide
  · intro p hmem
    rcases hp with rfl | rfl
    · simp only [phoneJidSuffix, List.mem_cons, List.not_mem_nil, or_false] at hmem
      rcases hmem with rfl | rfl
      · exact .inl (by decide)
      · exact .inr ⟨literal "@s.whatsapp.ne", 't', by decide, by decide⟩
    · simp only [List.mem_cons, List.not_mem_nil, or_false] at hmem
      rcases hmem with rfl | rfl
      · exact .inl (by decide)
      · exact .inr ⟨dotted "@s.whatsapp.ne", 't', by decide, by decide⟩

theorem replace_s_whatsapp_net {patterns : List Pattern}
    (hp : IsPhoneSuffix patterns ∨ patterns = [dotted "@s.whatsapp.net"])
    (replacement : List Char) :
    replaceAtEnd patterns replacement (front ++ "@s.whatsapp.net".toList) =
      front ++ replacement := by
  have hshort : ∀ p ∈ patterns, p.length ≤ "@s.whatsapp.net".toList.length := by
    rcases hp with (rfl | rfl) | rfl <;> decide
  apply replace_suffix
  · rcases hp with (rfl | rfl) | rfl <;> decide
  · decide
  · intro p hmem
    exact .inl (hshort p hmem)

theorem ends_with {suffix : String} :
    endsWith suffix cs = true ↔ ∃ front, cs = front ++ suffix.toList := by
  unfold endsWith
  rw [List.isSuffixOf_iff_suffix]
  constructor
  · rintro ⟨front, h⟩
    exact ⟨front, h.symm⟩
  · rintro ⟨front, h⟩
    exact ⟨front, h.symm⟩

theorem trim_sublist (cs : List Char) : (trim cs).Sublist cs := by
  unfold trim
  refine (List.reverse_sublist.mpr (List.dropWhile_sublist _)).trans ?_
  rw [List.reverse_reverse]
  exact List.dropWhile_sublist _

theorem device_part_length {after : List Char} (h : devicePart cs = some after) :
    after.length < cs.length := by
  unfold devicePart at h
  split at h
  · rename_i rest
    split at h
    · cases h
      have hle := (List.dropWhile_sublist (p := Char.isDigit) (l := rest)).length_le
      simp only [List.length_cons]
      omega
    · cases h
  · cases h

theorem remove_device_length (cs : List Char) : (removeDevice cs).length ≤ cs.length := by
  induction cs with
  | nil => simp [removeDevice]
  | cons c cs ih =>
    unfold removeDevice
    split
    · rename_i after h
      exact (device_part_length h).le
    · simpa using ih

/-- An identifier that normalizes to itself was trimmed and had no device part. -/
theorem unchanged (h : removeDevice (trim cs) = cs) : trim cs = cs ∧ removeDevice cs = cs := by
  have hle := remove_device_length (trim cs)
  rw [h] at hle
  have htrim : trim cs = cs := (trim_sublist cs).eq_of_length_le hle
  rw [htrim] at h
  exact ⟨htrim, h⟩

theorem remove_device_of_no_colon (h : ':' ∉ cs) : removeDevice cs = cs := by
  induction cs with
  | nil => rfl
  | cons c cs ih =>
    have hc : c ≠ ':' := fun hc => h (hc ▸ List.mem_cons_self)
    have hpart : devicePart (c :: cs) = none := by
      unfold devicePart
      split
      · rename_i heq
        exact absurd (List.cons.inj heq).1 hc
      · rfl
    simp [removeDevice, hpart, ih fun hmem => h (List.mem_cons_of_mem _ hmem)]

theorem trim_of_ends (hfirst : ∀ c, cs.head? = some c → c ∉ WebhookEvents.whiteSpace)
    (hlast : ∀ c, cs.getLast? = some c → c ∉ WebhookEvents.whiteSpace) : trim cs = cs := by
  have hfront : ∀ ds : List Char, (∀ c, ds.head? = some c → c ∉ WebhookEvents.whiteSpace) →
      ds.dropWhile (· ∈ WebhookEvents.whiteSpace) = ds := by
    intro ds hds
    cases ds with
    | nil => rfl
    | cons c ds => simp [hds c rfl]
  unfold trim
  rw [hfront cs hfirst, hfront cs.reverse (by simpa using hlast), List.reverse_reverse]

/-- A number before a phone suffix is read as it stands. -/
theorem digits_unchanged {suffix : String} (hs : suffix = "@c.us" ∨ suffix = "@s.whatsapp.net")
    (hd : allDigits front = true) :
    trim (front ++ suffix.toList) = front ++ suffix.toList ∧
      removeDevice (front ++ suffix.toList) = front ++ suffix.toList := by
  obtain ⟨hne, hall⟩ : front ≠ [] ∧ ∀ c ∈ front, c.isDigit = true := by
    simpa [allDigits] using hd
  have hplain : ∀ c : Char, c.isDigit = true → c ∉ WebhookEvents.whiteSpace ∧ c ≠ ':' := by
    intro c hc
    constructor
    · intro hmem
      have hnone : ∀ d ∈ WebhookEvents.whiteSpace, d.isDigit = false := by
        simp [WebhookEvents.whiteSpace]
      rw [hnone c hmem] at hc
      cases hc
    · rintro rfl
      revert hc
      decide
  constructor
  · apply trim_of_ends
    · intro c hc
      cases front with
      | nil => exact absurd rfl hne
      | cons d front =>
        simp only [List.cons_append, List.head?_cons, Option.some.injEq] at hc
        exact hc ▸ (hplain d (hall d List.mem_cons_self)).1
    · intro c hc
      rw [List.getLast?_append] at hc
      rcases hs with rfl | rfl
      · have hlast : "@c.us".toList.getLast? = some 's' := by decide
        rw [hlast] at hc
        cases hc
        decide
      · have hlast : "@s.whatsapp.net".toList.getLast? = some 't' := by decide
        rw [hlast] at hc
        cases hc
        decide
  · apply remove_device_of_no_colon
    intro hmem
    rcases List.mem_append.mp hmem with hfront | hsuffix
    · exact (hplain ':' (hall ':' hfront)).2 rfl
    · revert hsuffix
      rcases hs with rfl | rfl <;> decide

/-- What `replaceAtEnd` leaves of an identifier with a phone suffix, and the three tests on it. -/
theorem phone_suffix (front : List Char) {suffix : String} (hs : suffix = "@c.us" ∨ suffix = "@s.whatsapp.net")
    {patterns : List Pattern} (hp : IsPhoneSuffix patterns) :
    replaceAtEnd patterns [] (front ++ suffix.toList) = front ∧
      endsWith "@lid" (front ++ suffix.toList) = false ∧
      (endsWith "@c.us" (front ++ suffix.toList) ||
        endsWith "@s.whatsapp.net" (front ++ suffix.toList)) = true := by
  have hlid : endsWith "@lid" (front ++ suffix.toList) = false := by
    rw [Bool.eq_false_iff]
    intro h
    obtain ⟨before, heq⟩ := ends_with.mp h
    have hlast := congrArg List.getLast? heq
    rw [List.getLast?_append, List.getLast?_append] at hlast
    revert hlast
    rcases hs with rfl | rfl <;> simp
  rcases hs with rfl | rfl
  · refine ⟨?_, hlid, ?_⟩
    · rw [replace_c_us hp, List.append_nil]
    · rw [ends_with.mpr ⟨front, rfl⟩, Bool.true_or]
  · refine ⟨?_, hlid, ?_⟩
    · rw [replace_s_whatsapp_net (.inl hp), List.append_nil]
    · rw [ends_with.mpr ⟨front, rfl⟩, Bool.or_true]

variable {raw participantId suffix : String} {resolved : Option String}

/-- An identifier that is read as a phone number is digits and a phone suffix. -/
theorem normalized_phone (raw : String)
    (h : (normalizeContactIdentity raw).type = .phoneJid) :
    ∃ phone, allDigits phone = true ∧ normalizeContactIdentity raw =
      ⟨.phoneJid, String.ofList phone ++ "@c.us", some (String.ofList phone)⟩ := by
  unfold normalizeContactIdentity at h ⊢
  simp only at h ⊢
  split at h
  · cases h
  · rename_i hlid
    split at h
    · rename_i hphone
      rw [Bool.and_eq_true] at hphone
      simp only [hlid, hphone, if_false, Bool.false_eq_true, Bool.and_true, if_true]
      exact ⟨_, hphone.2, rfl⟩
    · cases h

theorem normalized_value (raw : String)
    (h : (normalizeContactIdentity raw).type ≠ .phoneJid) :
    (normalizeContactIdentity raw).value = String.ofList (removeDevice (trim raw.toList)) := by
  unfold normalizeContactIdentity at h ⊢
  simp only at h ⊢
  split
  · rfl
  · rename_i hlid
    split
    · rename_i hphone
      simp [hlid, hphone] at h
    · rfl

theorem evidence_of_phone (resolved : Option String)
    (hs : suffix = "@c.us" ∨ suffix = "@s.whatsapp.net")
    (hid : participantId.toList = front ++ suffix.toList) :
    memberEvidence participantId resolved =
      ⟨.phoneJid, String.ofList front ++ "@c.us",
        if allDigits ((resolved.map String.toList).getD front) then
          some (String.ofList ((resolved.map String.toList).getD front))
        else none⟩ := by
  obtain ⟨hfront, hlid, hphone⟩ := phone_suffix front hs (.inr rfl)
  unfold memberEvidence likeIdentityType
  simp only [hid, hlid, hphone, hfront, Bool.true_and, Bool.false_eq_true, if_false, if_true,
    NormalizedContactIdentity.mk.injEq, true_and, and_true]
  rcases hs with rfl | rfl
  · have hother : endsWith "@s.whatsapp.net" (front ++ "@c.us".toList) = false := by
      rw [Bool.eq_false_iff]
      intro h
      obtain ⟨before, heq⟩ := ends_with.mp h
      have hlast := congrArg List.getLast? heq
      rw [List.getLast?_append, List.getLast?_append] at hlast
      simp at hlast
    simp only [hother, Bool.false_eq_true, if_false, ← String.toList_inj, String.toList_append,
      String.toList_ofList]
    exact hid
  · rw [ends_with.mpr ⟨front, rfl⟩, if_pos rfl, replace_s_whatsapp_net (.inr rfl)]
    simp only [← String.toList_inj, String.toList_append, String.toList_ofList]

theorem normalized_of_phone (hs : suffix = "@c.us" ∨ suffix = "@s.whatsapp.net")
    (hid : removeDevice (trim raw.toList) = front ++ suffix.toList)
    (hd : allDigits front = true) :
    normalizeContactIdentity raw =
      ⟨.phoneJid, String.ofList front ++ "@c.us", some (String.ofList front)⟩ := by
  obtain ⟨hfront, hlid, hphone⟩ := phone_suffix front hs (.inl rfl)
  simp [normalizeContactIdentity, hid, hlid, hphone, hfront, hd]

theorem member_of_phone (hs : suffix = "@c.us" ∨ suffix = "@s.whatsapp.net")
    (hid : removeDevice participantId.toList = front ++ suffix.toList)
    (hd : allDigits front = true) :
    memberIdentity participantId = (.phoneJid, some (String.ofList front)) := by
  obtain ⟨hfront, hlid, hphone⟩ := phone_suffix front hs (.inl rfl)
  simp [memberIdentity, likeIdentityType, hid, hlid, hphone, hfront, hd]

/-- Without a phone suffix only the type is read from an identifier. -/
theorem agrees_without_phone (hid : removeDevice (trim participantId.toList) = participantId.toList)
    (hc : endsWith "@c.us" participantId.toList = false)
    (hw : endsWith "@s.whatsapp.net" participantId.toList = false) :
    Agrees participantId resolved := by
  have hdevice := (unchanged hid).2
  unfold Agrees memberEvidence memberIdentity normalizeContactIdentity likeIdentityType
  by_cases hlid : endsWith "@lid" participantId.toList = true
  · simp [hid, hdevice, hc, hw, hlid]
  · simp [hid, hdevice, hc, hw, hlid]

theorem phone_suffix_cases (cs : List Char) :
    (∃ front suffix, (suffix = "@c.us" ∨ suffix = "@s.whatsapp.net") ∧
      cs = front ++ suffix.toList) ∨
    (endsWith "@c.us" cs = false ∧ endsWith "@s.whatsapp.net" cs = false) := by
  by_cases hc : endsWith "@c.us" cs = true
  · obtain ⟨front, h⟩ := ends_with.mp hc
    exact .inl ⟨front, _, .inl rfl, h⟩
  · by_cases hw : endsWith "@s.whatsapp.net" cs = true
    · obtain ⟨front, h⟩ := ends_with.mp hw
      exact .inl ⟨front, _, .inr rfl, h⟩
    · exact .inr ⟨by simpa using hc, by simpa using hw⟩

theorem phone_front_unique {other : String} {before : List Char}
    (hs : suffix = "@c.us" ∨ suffix = "@s.whatsapp.net")
    (ho : other = "@c.us" ∨ other = "@s.whatsapp.net")
    (h : front ++ suffix.toList = before ++ other.toList) : front = before := by
  have hsame : suffix = other := by
    have hlast := congrArg List.getLast? h
    rw [List.getLast?_append, List.getLast?_append] at hlast
    rcases hs with rfl | rfl <;> rcases ho with rfl | rfl <;> first | rfl | simp at hlast
  subst hsame
  exact List.append_cancel_right h

theorem plain_agrees (h : Plain participantId resolved) : Agrees participantId resolved := by
  have hid : removeDevice (trim participantId.toList) = participantId.toList := by
    rw [h.trimmed, h.noDevice]
  obtain ⟨front, suffix, hs, hfront⟩ | ⟨hc, hw⟩ := phone_suffix_cases participantId.toList
  · obtain ⟨hdigits, hresolved⟩ := h.phone (String.ofList front) (by
      rcases hs with rfl | rfl
      · exact .inl (by rw [← String.toList_inj, String.toList_append, String.toList_ofList, hfront])
      · exact .inr (by rw [← String.toList_inj, String.toList_append, String.toList_ofList, hfront]))
    rw [String.toList_ofList] at hdigits
    rw [hfront] at hid
    refine ⟨?_, ?_⟩
    · rw [evidence_of_phone _ hs hfront, normalized_of_phone hs (by rw [hfront, hid]) hdigits]
      cases resolved with
      | none => simp [hdigits]
      | some found => simp [hresolved found rfl, hdigits]
    · rw [member_of_phone hs (by rw [h.noDevice, hfront]) hdigits,
        normalized_of_phone hs (by rw [hfront, hid]) hdigits]
  · exact agrees_without_phone hid hc hw

theorem plain_of_agrees
    (h : memberEvidence participantId resolved = normalizeContactIdentity participantId) :
    Plain participantId resolved := by
  obtain ⟨front, suffix, hs, hfront⟩ | ⟨hc, hw⟩ := phone_suffix_cases participantId.toList
  · have hevidence := evidence_of_phone resolved hs hfront
    rw [h] at hevidence
    obtain ⟨phone, hdigits, hnormalized⟩ := normalized_phone participantId (by
      rw [hevidence])
    rw [hnormalized, NormalizedContactIdentity.mk.injEq] at hevidence
    obtain ⟨_, hvalue, hphone⟩ := hevidence
    have hsame : phone = front := by
      have hchars := congrArg String.toList hvalue
      simp only [String.toList_append, String.toList_ofList] at hchars
      exact List.append_cancel_right hchars
    subst hsame
    obtain ⟨htrim, hdevice⟩ := digits_unchanged hs hdigits
    refine ⟨by rw [hfront, htrim], by rw [hfront, hdevice], fun other hother => ?_⟩
    have hother : phone = other.toList := by
      rcases hother with rfl | rfl
      · exact phone_front_unique hs (.inl rfl) (hfront.symm.trans String.toList_append)
      · exact phone_front_unique hs (.inr rfl) (hfront.symm.trans String.toList_append)
    refine ⟨hother ▸ hdigits, fun found hfound => ?_⟩
    subst hfound
    simp only [Option.map_some, Option.getD_some] at hphone
    split at hphone
    · rw [Option.some.injEq, String.ofList_inj] at hphone
      rw [← String.toList_inj, ← hphone, hother]
    · cases hphone
  · have htype : (memberEvidence participantId resolved).type ≠ .phoneJid := by
      simp only [memberEvidence, likeIdentityType, hc, hw, Bool.or_self, Bool.false_eq_true,
        if_false]
      split <;> simp
    have hvalue := normalized_value participantId (h ▸ htype)
    rw [← h] at hvalue
    simp only [memberEvidence, hw, Bool.false_eq_true, if_false] at hvalue
    rw [← String.toList_inj, String.toList_ofList] at hvalue
    obtain ⟨htrim, hdevice⟩ := unchanged hvalue.symm
    refine ⟨htrim, hdevice, fun phone hphone => ?_⟩
    rcases hphone with rfl | rfl
    · rw [String.toList_append, ends_with.mpr ⟨_, rfl⟩] at hc
      cases hc
    · rw [String.toList_append, ends_with.mpr ⟨_, rfl⟩] at hw
      cases hw

/-- The paths agree on an identifier just where it is plain. -/
theorem normalizations_agree_iff (participantId : String) (resolved : Option String) :
    Agrees participantId resolved ↔ Plain participantId resolved :=
  ⟨fun h => plain_of_agrees h.1, plain_agrees⟩

/-- A device part stays in what the evidence backfill writes. -/
theorem device_identity_disagrees : ¬ ∀ participantId, Agrees participantId none := by
  intro h
  exact absurd (h "84900000001:4@c.us") (by decide +kernel)

end Specifications

end ContactNormalization
