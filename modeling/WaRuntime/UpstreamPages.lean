import Mathlib.Data.List.Nodup
import WaRuntime.OpenWARequest

/-! The paged listings of `OpenWAClient`.
For each page the upstream chooses the outcomes of all fetches that may be issued for it. An item is
what the schema leaves of it, with its id. -/
namespace UpstreamPages

open OpenWARequest

variable {α β : Type*}

def pageSize : ℕ := 1000

def maxPages : ℕ := 100

/-- The outcomes of the fetches for a page. -/
abbrev Upstream (α : Type*) := ℕ → ℕ → Outcome (List α)

/-- `.max(pageSize)` of the schema, on an array of items that it accepts. -/
def limitResponse (response : Response (List α)) : Response (List α) :=
  { response with
    parsed := response.parsed.map fun body => body.bind fun page =>
      if page.length ≤ pageSize then .ok page else .error 1 }

def limitPage : Outcome (List α) → Outcome (List α)
  | .threw message => .threw message
  | .answered response => .answered (limitResponse response)

/-- The most fetches of one request. -/
def maxFetches : ℕ := maxRateLimitRetries + maxTransientReadRetries + 1

section Listing

variable (idOf : α → String) (operation : String) (upstream : Upstream α)

def requestPage (pageNumber : ℕ) : Option (Except RequestError (List α) × ℕ) :=
  requestLoop operation .get maxFetches ⟨0, 0⟩ (fun k => limitPage (upstream pageNumber k)) 0

/-- The ids of a page, added to those before; `none` if one of them is there already. -/
def addIds : List String → List α → Option (List String)
  | seen, [] => some seen
  | seen, item :: rest =>
    if idOf item ∈ seen then none else addIds (idOf item :: seen) rest

/-- The pages that have passed the check of their ids, the number of fetches for each page request,
and how the loop has ended. -/
structure Listing (α : Type*) where
  pages : List (List α)
  requests : List ℕ
  ended : Except RequestError Unit

/-- The loop over the pages, with the number of pages that it may still request. -/
def listPages : ℕ → ℕ → List String → Option (Listing α)
  | 0, _, _ => some ⟨[], [], .error (.validation operation 1)⟩
  | left + 1, pageNumber, seen =>
    match requestPage operation upstream pageNumber with
    | none => none
    | some (.error error, fetches) => some ⟨[], [fetches], .error error⟩
    | some (.ok page, fetches) =>
      match addIds idOf seen page with
      | none => some ⟨[], [fetches], .error (.validation operation 1)⟩
      | some seen =>
        if page.length < pageSize then some ⟨[page], [fetches], .ok ()⟩
        else (listPages left (pageNumber + 1) seen).map fun rest =>
          { rest with pages := page :: rest.pages, requests := fetches :: rest.requests }

end Listing

/-- What `listGroups` returns, and the number of fetches for each of its page requests. -/
def listGroups (idOf : α → String) (upstream : Upstream α) :
    Option (Except RequestError (List α) × List ℕ) :=
  (listPages idOf "list_groups" upstream maxPages 0 []).map fun listing =>
    (listing.ended.map fun _ => listing.pages.flatten, listing.requests)

/-- The pages that `listContactPages` yields, and how it ends. -/
def listContactPages (idOf : α → String) (upstream : Upstream α) :
    Option (List (List α) × Except RequestError Unit × List ℕ) :=
  (listPages idOf "list_contacts" upstream maxPages 0 []).map fun listing =>
    (listing.pages.filter (· ≠ []), listing.ended, listing.requests)

section Requests

variable {operation : String} {upstream : Upstream α} {pageNumber : ℕ}

theorem request_ends (operation : String) (upstream : Upstream α) (pageNumber : ℕ) :
    ∃ result fetches, requestPage operation upstream pageNumber = some (result, fetches) ∧
      fetches ≤ maxFetches := by
  obtain ⟨result, fetches, heq, hle⟩ := requestLoop_terminates operation .get
    (fun k => limitPage (upstream pageNumber k)) ⟨0, 0⟩ 0 maxFetches (Nat.zero_le _)
    (Nat.zero_le _) (by simp [maxFetches])
  refine ⟨result, fetches, heq, ?_⟩
  simpa [maxFetches] using hle

/-- From the fetch with a number on, the upstream answers with the data after some 429s and some
server errors. -/
inductive Serves (outcomes : ℕ → Outcome β) (data : β) : ℕ → ℕ → ℕ → Prop
  | answers {k : ℕ} {response : Response β} : outcomes k = .answered response →
      response.status = 200 → response.parsed = .ok (.ok data) → Serves outcomes data k 0 0
  | limits {k limited failed : ℕ} {response : Response β} : outcomes k = .answered response →
      response.status = 429 → Serves outcomes data (k + 1) limited failed →
      Serves outcomes data k (limited + 1) failed
  | fails {k limited failed : ℕ} {response : Response β} : outcomes k = .answered response →
      500 ≤ response.status → Serves outcomes data (k + 1) limited failed →
      Serves outcomes data k limited (failed + 1)

/-- A request gets what the upstream serves within the retries of the client. -/
theorem request_served {outcomes : ℕ → Outcome β} {data : β} {k limited failed fuel : ℕ}
    {counters : Counters} (h : Serves outcomes data k limited failed)
    (hoperation : operation ≠ "get_group")
    (hlimited : counters.rateLimitRetries + limited ≤ maxRateLimitRetries)
    (hfailed : counters.transientRetries + failed ≤ maxTransientReadRetries)
    (hfuel : limited + failed < fuel) :
    requestLoop operation .get fuel counters outcomes k =
      some (.ok data, k + limited + failed + 1) := by
  induction h generalizing counters fuel with
  | @answers k response hk hstatus hparsed =>
    obtain ⟨fuel, rfl⟩ := Nat.exists_eq_add_of_lt hfuel
    have hturn : turn operation .get counters (outcomes k) = .returned data := by
      simp [turn, hk, hstatus, hparsed, Response.ok]
    simp only [requestLoop, hturn, Nat.add_zero]
  | @limits k limited failed response hk hstatus _ ih =>
    obtain ⟨fuel, rfl⟩ : ∃ n, fuel = n + 1 := ⟨fuel - 1, by omega⟩
    have hturn : turn operation .get counters (outcomes k) =
        .fetchAgain { counters with rateLimitRetries := counters.rateLimitRetries + 1 } := by
      simp only [turn, hk]
      rw [if_pos ⟨hstatus, trivial, hoperation, by omega⟩]
    have hrest : requestLoop operation .get fuel
        { counters with rateLimitRetries := counters.rateLimitRetries + 1 } outcomes (k + 1) =
          some (.ok data, k + 1 + limited + failed + 1) :=
      ih (by simp only; omega) hfailed (by omega)
    simp only [requestLoop, hturn, hrest, Option.some.injEq, Prod.mk.injEq, true_and]
    omega
  | @fails k limited failed response hk hstatus _ ih =>
    obtain ⟨fuel, rfl⟩ : ∃ n, fuel = n + 1 := ⟨fuel - 1, by omega⟩
    have hturn : turn operation .get counters (outcomes k) =
        .fetchAgain { counters with transientRetries := counters.transientRetries + 1 } := by
      simp only [turn, hk]
      rw [if_neg (fun hlimit => by omega), if_pos ⟨hstatus, trivial, hoperation, by omega⟩]
    have hrest : requestLoop operation .get fuel
        { counters with transientRetries := counters.transientRetries + 1 } outcomes (k + 1) =
          some (.ok data, k + 1 + limited + failed + 1) :=
      ih hlimited (by simp only; omega) (by omega)
    simp only [requestLoop, hturn, hrest, Option.some.injEq, Prod.mk.injEq, true_and]
    omega

theorem serves_limited {outcomes : ℕ → Outcome (List α)} {page : List α} {k limited failed : ℕ}
    (h : Serves outcomes page k limited failed) (hpage : page.length ≤ pageSize) :
    Serves (fun k => limitPage (outcomes k)) page k limited failed := by
  induction h with
  | @answers k response hk hstatus hparsed =>
    have hlimited : (limitResponse response).parsed = .ok (.ok page) := by
      simp only [limitResponse, hparsed, Except.map, Except.bind, hpage, if_true]
    exact .answers (congrArg limitPage hk) hstatus hlimited
  | limits hk hstatus _ ih => exact .limits (congrArg limitPage hk) hstatus ih
  | fails hk hstatus _ ih => exact .fails (congrArg limitPage hk) hstatus ih

end Requests

section Ids

variable {idOf : α → String} {seen found : List String} {page : List α}

/-- A page passes the check if its ids are new and differ from each other. -/
theorem addIds_iff : (∃ found, addIds idOf seen page = some found) ↔
    (page.map idOf).Nodup ∧ ∀ item ∈ page, idOf item ∉ seen := by
  induction page generalizing seen with
  | nil => simp [addIds]
  | cons item page ih =>
    by_cases hseen : idOf item ∈ seen
    · simp only [addIds, if_pos hseen, reduceCtorEq, exists_false, false_iff]
      rintro ⟨_, hnew⟩
      exact hnew item List.mem_cons_self hseen
    · simp only [addIds, if_neg hseen]
      rw [ih, List.map_cons, List.nodup_cons]
      constructor
      · rintro ⟨hnodup, hnew⟩
        refine ⟨⟨?_, hnodup⟩, ?_⟩
        · rw [List.mem_map]
          rintro ⟨other, hother, hid⟩
          exact hnew other hother (hid ▸ List.mem_cons_self)
        · intro other hother
          rcases List.mem_cons.mp hother with rfl | hother
          · exact hseen
          · exact fun hmem => hnew other hother (List.mem_cons_of_mem _ hmem)
      · rintro ⟨⟨hfirst, hnodup⟩, hnew⟩
        refine ⟨hnodup, fun other hother hmem => ?_⟩
        rcases List.mem_cons.mp hmem with hid | hmem
        · exact hfirst (hid ▸ List.mem_map_of_mem hother)
        · exact hnew other (List.mem_cons_of_mem _ hother) hmem

theorem mem_addIds (h : addIds idOf seen page = some found) {id : String} :
    id ∈ found ↔ id ∈ seen ∨ id ∈ page.map idOf := by
  induction page generalizing seen with
  | nil =>
    cases h
    simp
  | cons item page ih =>
    unfold addIds at h
    split at h
    · cases h
    · rw [ih h, List.map_cons, List.mem_cons, List.mem_cons]
      tauto

end Ids

section Loop

variable {idOf : α → String} {operation : String} {upstream : Upstream α}

/-- What one turn of the loop does. -/
theorem listPages_cases (idOf : α → String) (operation : String) (upstream : Upstream α)
    (left pageNumber : ℕ) (seen : List String) :
    ∃ fetches ≤ maxFetches,
      (∃ error, listPages idOf operation upstream (left + 1) pageNumber seen =
        some ⟨[], [fetches], .error error⟩) ∨
      ∃ page found, requestPage operation upstream pageNumber = some (.ok page, fetches) ∧
        addIds idOf seen page = some found ∧
        ((page.length < pageSize ∧ listPages idOf operation upstream (left + 1) pageNumber seen =
            some ⟨[page], [fetches], .ok ()⟩) ∨
          (pageSize ≤ page.length ∧ listPages idOf operation upstream (left + 1) pageNumber seen =
            (listPages idOf operation upstream left (pageNumber + 1) found).map fun rest =>
              { rest with pages := page :: rest.pages, requests := fetches :: rest.requests })) := by
  obtain ⟨result, fetches, hrequest, hfetches⟩ := request_ends operation upstream pageNumber
  refine ⟨fetches, hfetches, ?_⟩
  cases result with
  | error error =>
    left
    exact ⟨error, by simp only [listPages, hrequest]⟩
  | ok page =>
    cases hids : addIds idOf seen page with
    | none =>
      left
      exact ⟨.validation operation 1, by simp only [listPages, hrequest, hids]⟩
    | some found =>
      right
      refine ⟨page, found, hrequest, hids, ?_⟩
      by_cases hshort : page.length < pageSize
      · left
        exact ⟨hshort, by simp only [listPages, hrequest, hids, hshort, if_true]⟩
      · right
        exact ⟨Nat.not_lt.mp hshort, by simp only [listPages, hrequest, hids, hshort, if_false]⟩

/-- A listing of at most `left` requests, from the page with the number on: its pages are what the
requests have returned, and their ids are new and differ from each other. -/
structure Lists (idOf : α → String) (operation : String) (upstream : Upstream α)
    (left pageNumber : ℕ) (seen : List String) (listing : Listing α) : Prop where
  requests : listing.requests.length ≤ left
  fetches : ∀ n ∈ listing.requests, n ≤ maxFetches
  returned : ∀ k page, listing.pages[k]? = some page →
    ∃ fetches, requestPage operation upstream (pageNumber + k) = some (.ok page, fetches)
  complete : listing.ended = .ok () → listing.pages.length = listing.requests.length
  distinct : (listing.pages.flatten.map idOf).Nodup
  fresh : ∀ item ∈ listing.pages.flatten, idOf item ∉ seen

theorem listPages_lists (idOf : α → String) (operation : String) (upstream : Upstream α)
    (left pageNumber : ℕ) (seen : List String) :
    ∃ listing, listPages idOf operation upstream left pageNumber seen = some listing ∧
      Lists idOf operation upstream left pageNumber seen listing := by
  induction left generalizing pageNumber seen with
  | zero => exact ⟨_, rfl, by simp, by simp, by simp, by simp, by simp, by simp⟩
  | succ left ih =>
    obtain ⟨fetches, hfetches, ⟨error, heq⟩ | ⟨page, found, hrequest, hids, hpage⟩⟩ :=
      listPages_cases idOf operation upstream left pageNumber seen
    · refine ⟨_, heq, by simp, ?_, by simp, by simp, by simp, by simp⟩
      intro n hn
      rw [List.mem_singleton.mp hn]
      exact hfetches
    · obtain ⟨hdistinct, hfresh⟩ := addIds_iff.mp ⟨found, hids⟩
      rcases hpage with ⟨_, heq⟩ | ⟨_, heq⟩
      · refine ⟨_, heq, by simp, ?_, ?_, by simp, by simpa using hdistinct,
          by simpa using hfresh⟩
        · intro n hn
          rw [List.mem_singleton.mp hn]
          exact hfetches
        · intro k other hk
          cases k with
          | zero =>
            rw [← Option.some.inj hk]
            exact ⟨fetches, hrequest⟩
          | succ k => cases hk
      · obtain ⟨rest, hrest, hlists⟩ := ih (pageNumber + 1) found
        rw [hrest] at heq
        refine ⟨_, heq, ?_, ?_, ?_, fun hended => ?_, ?_, ?_⟩
        · simpa using hlists.requests
        · intro n hn
          rcases List.mem_cons.mp hn with rfl | hn
          · exact hfetches
          · exact hlists.fetches n hn
        · intro k other hk
          cases k with
          | zero =>
            rw [← Option.some.inj hk]
            exact ⟨fetches, hrequest⟩
          | succ k =>
            obtain ⟨n, hn⟩ := hlists.returned k other hk
            exact ⟨n, by rw [← hn]; congr 1; omega⟩
        · simpa using hlists.complete hended
        · -- the ids of the later pages are none of those that this page has added
          simp only [List.flatten_cons, List.map_append]
          refine List.Nodup.append hdistinct hlists.distinct ?_
          intro id hid hlater
          obtain ⟨item, hitem, rfl⟩ := List.mem_map.mp hlater
          exact hlists.fresh item hitem ((mem_addIds hids).mpr (.inr hid))
        · intro item hitem hseen
          rcases List.mem_append.mp (List.flatten_cons ▸ hitem) with hitem | hitem
          · exact hfresh item hitem hseen
          · exact hlists.fresh item hitem ((mem_addIds hids).mpr (.inl hseen))

end Loop

section Faithful

variable {idOf : α → String} {operation : String} {upstream : Upstream α} {items : List α}

/-- The items at the offset of a page. -/
def slice (items : List α) (pageNumber : ℕ) : List α :=
  (items.drop (pageNumber * pageSize)).take pageSize

/-- The upstream holds the items, and serves each page within the retries of the client. -/
def Faithful (upstream : Upstream α) (items : List α) : Prop :=
  ∀ pageNumber, ∃ limited ≤ maxRateLimitRetries, ∃ failed ≤ maxTransientReadRetries,
    Serves (upstream pageNumber) (slice items pageNumber) 0 limited failed

theorem faithful_request (h : Faithful upstream items) (hoperation : operation ≠ "get_group")
    (pageNumber : ℕ) : ∃ fetches,
      requestPage operation upstream pageNumber = some (.ok (slice items pageNumber), fetches) := by
  obtain ⟨limited, hlimited, failed, hfailed, hserves⟩ := h pageNumber
  have hlength : (slice items pageNumber).length ≤ pageSize := List.length_take_le _ _
  refine ⟨_, request_served (serves_limited hserves hlength) hoperation ?_ ?_ ?_⟩
  · simpa using hlimited
  · simpa using hfailed
  · simp only [maxFetches]
    omega

/-- With the pages that are left, the loop gets the rest of the items or fails. -/
theorem listPages_faithful (h : Faithful upstream items) (hoperation : operation ≠ "get_group")
    (left pageNumber : ℕ) (seen : List String)
    (hdistinct : ((items.drop (pageNumber * pageSize)).map idOf).Nodup)
    (hfresh : ∀ item ∈ items.drop (pageNumber * pageSize), idOf item ∉ seen) :
    ∃ listing, listPages idOf operation upstream left pageNumber seen = some listing ∧
      (items.length - pageNumber * pageSize < left * pageSize →
        listing.pages.flatten = items.drop (pageNumber * pageSize) ∧ listing.ended = .ok ()) ∧
      (left * pageSize ≤ items.length - pageNumber * pageSize →
        ∃ error, listing.ended = .error error) := by
  induction left generalizing pageNumber seen with
  | zero =>
    refine ⟨_, rfl, fun hlt => ?_, fun _ => ⟨_, rfl⟩⟩
    rw [Nat.zero_mul] at hlt
    exact absurd hlt (Nat.not_lt_zero _)
  | succ left ih =>
    obtain ⟨fetches, hrequest⟩ := faithful_request h hoperation pageNumber
    generalize hrest : items.drop (pageNumber * pageSize) = rest at *
    have hslice : slice items pageNumber = rest.take pageSize := by rw [slice, hrest]
    have hlength : rest.length = items.length - pageNumber * pageSize := by
      rw [← hrest, List.length_drop]
    rw [← hlength]
    rw [hslice] at hrequest
    have hsplit : (rest.take pageSize).map idOf ++ (rest.drop pageSize).map idOf =
        rest.map idOf := by
      rw [← List.map_append, List.take_append_drop]
    rw [← hsplit, List.nodup_append] at hdistinct
    obtain ⟨found, hids⟩ := addIds_iff.mpr ⟨hdistinct.1, fun item hitem =>
      hfresh item (List.mem_of_mem_take hitem)⟩
    by_cases hshort : rest.length < pageSize
    · -- a short page is the last one
      have htake : rest.take pageSize = rest := List.take_of_length_le (Nat.le_of_lt hshort)
      rw [htake] at hrequest hids
      refine ⟨⟨[rest], [fetches], .ok ()⟩, ?_, fun _ => ⟨by simp, rfl⟩, fun hle => ?_⟩
      · simp only [listPages, hrequest, hids, hshort, if_true]
      · rw [Nat.add_mul, Nat.one_mul] at hle
        omega
    · have hfull : ¬ (rest.take pageSize).length < pageSize := by
        rw [List.length_take]
        omega
      have hnext : items.drop ((pageNumber + 1) * pageSize) = rest.drop pageSize := by
        rw [← hrest, List.drop_drop, Nat.add_mul, Nat.one_mul]
      obtain ⟨listing, hlisting, hall, hfails⟩ := ih (pageNumber + 1) found
        (by rw [hnext]; exact hdistinct.2.1) (by
          rw [hnext]
          intro item hitem hmem
          rcases (mem_addIds hids).mp hmem with hseen | hpage
          · exact hfresh item (List.mem_of_mem_drop hitem) hseen
          · exact hdistinct.2.2 _ hpage _ (List.mem_map_of_mem hitem) rfl)
      have hremaining : items.length - (pageNumber + 1) * pageSize = rest.length - pageSize := by
        rw [hlength, Nat.add_mul, Nat.one_mul]
        omega
      rw [hremaining] at hall hfails
      refine ⟨_, by simp only [listPages, hrequest, hids, hfull, if_false, hlisting]; rfl, ?_, ?_⟩
      · intro hlt
        rw [Nat.add_mul, Nat.one_mul] at hlt
        obtain ⟨hflatten, hended⟩ := hall (by omega)
        refine ⟨?_, hended⟩
        simp only [List.flatten_cons, hflatten, hnext, List.take_append_drop]
      · intro hle
        rw [Nat.add_mul, Nat.one_mul] at hle
        exact hfails (by omega)

/-- Both listings end after at most 100 requests of at most 17 fetches each, with all that the
requests have returned or with an error; and from a faithful upstream they get its items, or fail
where it holds too many. -/
theorem listings_bounded_exact (idOf : α → String) (upstream : Upstream α) :
    (∃ result requests, listGroups idOf upstream = some (result, requests) ∧
      requests.length ≤ 100 ∧ (∀ n ∈ requests, n ≤ 17) ∧
      ∀ groups, result = .ok groups → (groups.map idOf).Nodup ∧ ∃ pages : List (List α),
        groups = pages.flatten ∧ pages.length = requests.length ∧ ∀ k page, pages[k]? = some page →
          ∃ n, requestPage "list_groups" upstream k = some (.ok page, n)) ∧
    (∃ yielded ended requests, listContactPages idOf upstream = some (yielded, ended, requests) ∧
      requests.length ≤ 100 ∧ (∀ n ∈ requests, n ≤ 17) ∧
      (yielded.flatten.map idOf).Nodup ∧ ∃ pages : List (List α),
        yielded.flatten = pages.flatten ∧ (ended = .ok () → pages.length = requests.length) ∧
        ∀ k page, pages[k]? = some page →
          ∃ n, requestPage "list_contacts" upstream k = some (.ok page, n)) ∧
    ∀ items : List α, (items.map idOf).Nodup → Faithful upstream items →
      (items.length < 100000 →
        (∃ requests, listGroups idOf upstream = some (.ok items, requests)) ∧
        ∃ yielded requests, listContactPages idOf upstream = some (yielded, .ok (), requests) ∧
          yielded.flatten = items) ∧
      (100000 ≤ items.length →
        (∃ error requests, listGroups idOf upstream = some (.error error, requests)) ∧
        ∃ yielded error requests,
          listContactPages idOf upstream = some (yielded, .error error, requests)) := by
  have hflatten : ∀ pages : List (List α), (pages.filter (· ≠ [])).flatten = pages.flatten :=
    fun pages => List.flatten_filter_ne_nil
  refine ⟨?_, ?_, fun items hdistinct hfaithful => ?_⟩
  · obtain ⟨listing, hlisting, hlists⟩ := listPages_lists idOf "list_groups" upstream
      maxPages 0 []
    refine ⟨_, _, by rw [listGroups, hlisting]; rfl, hlists.requests, hlists.fetches, ?_⟩
    intro groups hgroups
    cases hended : listing.ended with
    | error error => rw [hended] at hgroups; cases hgroups
    | ok _ =>
      rw [hended] at hgroups
      cases hgroups
      refine ⟨hlists.distinct, listing.pages, rfl, hlists.complete hended, fun k page hpage => ?_⟩
      simpa using hlists.returned k page hpage
  · obtain ⟨listing, hlisting, hlists⟩ := listPages_lists idOf "list_contacts" upstream
      maxPages 0 []
    refine ⟨_, _, _, by rw [listContactPages, hlisting]; rfl, hlists.requests, hlists.fetches, ?_,
      listing.pages, hflatten _, hlists.complete, fun k page hpage => ?_⟩
    · rw [hflatten]
      exact hlists.distinct
    · simpa using hlists.returned k page hpage
  · have hlisting : ∀ operation, operation ≠ "get_group" →
        ∃ listing, listPages idOf operation upstream maxPages 0 [] = some listing ∧
          (items.length < 100000 → listing.pages.flatten = items ∧ listing.ended = .ok ()) ∧
          (100000 ≤ items.length → ∃ error, listing.ended = .error error) := by
      intro operation hoperation
      obtain ⟨listing, heq, hall, hfails⟩ := listPages_faithful hfaithful
        hoperation maxPages 0 [] (by simpa using hdistinct) (by simp)
      refine ⟨listing, heq, fun hlt => ?_, fun hle => hfails (by simpa [maxPages, pageSize])⟩
      simpa using hall (by simpa [maxPages, pageSize])
    obtain ⟨groups, hgroups, hall, hfails⟩ := hlisting "list_groups" (by decide)
    obtain ⟨contacts, hcontacts, hall', hfails'⟩ := hlisting "list_contacts" (by decide)
    refine ⟨fun hlt => ⟨⟨groups.requests, ?_⟩, contacts.pages.filter (· ≠ []),
      contacts.requests, ?_, ?_⟩, fun hle => ?_⟩
    · obtain ⟨hitems, hended⟩ := hall hlt
      rw [listGroups, hgroups, Option.map_some, hended, hitems]
      rfl
    · rw [listContactPages, hcontacts, Option.map_some, (hall' hlt).2]
    · rw [hflatten]
      exact (hall' hlt).1
    · obtain ⟨error, herror⟩ := hfails hle
      obtain ⟨error', herror'⟩ := hfails' hle
      refine ⟨⟨error, groups.requests, ?_⟩, contacts.pages.filter (· ≠ []), error',
        contacts.requests, ?_⟩
      · rw [listGroups, hgroups, Option.map_some, herror]
        rfl
      · rw [listContactPages, hcontacts, Option.map_some, herror']

/-- An upstream with two groups that answers each first fetch with 429. -/
def slowUpstream : Upstream String := fun pageNumber k =>
  if k = 0 then .answered ⟨429, .ok "", .error "", none⟩
  else .answered ⟨200, .ok "", .ok (.ok (slice ["1@g.us", "2@g.us"] pageNumber)), none⟩

theorem slow_groups_listed :
    ∃ requests, listGroups id slowUpstream = some (.ok ["1@g.us", "2@g.us"], requests) := by
  have hfaithful : Faithful slowUpstream ["1@g.us", "2@g.us"] := fun pageNumber =>
    ⟨1, by decide, 0, by decide, .limits rfl rfl (.answers rfl rfl rfl)⟩
  obtain ⟨_, _, hexact⟩ := listings_bounded_exact id slowUpstream
  exact ((hexact _ (by decide) hfaithful).1 (by decide)).1

end Faithful

end UpstreamPages
