import Mathlib.Data.List.Basic

/-! The retry loop of `OpenWAClient.request`.
One turn of the loop issues one `fetch` and looks at its outcome. The outcomes are the upstream's
choice: an infinite sequence of them is given, and the loop reads a prefix. Delays between the
turns and logging are left out; they do not decide what is fetched or returned. -/
namespace OpenWARequest

inductive Method where
  | get
  | post
  deriving DecidableEq, Repr

/-- `text` and `parsed` are what reading the body gives; a body that cannot be read throws a
message. A body that the operation's schema rejects is `.error` with the number of issues. -/
structure Response (α : Type*) where
  status : ℕ
  text : Except String String
  parsed : Except String (Except ℕ α)
  retryAfterMs : Option ℕ
  deriving Repr

/-- A fetch is answered, or it throws (no connection, a redirect, the 30 s abort signal). -/
inductive Outcome (α : Type*) where
  | answered (response : Response α)
  | threw (message : String)
  deriving Repr

inductive RequestError where
  | http (status : ℕ) (responseBody : String) (retryAfterMs : Option ℕ)
  | validation (operation : String) (issues : ℕ)
  | other (message : String)
  deriving DecidableEq, Repr

def RequestError.message : RequestError → String
  | .http status _ _ => "OpenWA returned HTTP " ++ toString status
  | .validation operation issues =>
      "OpenWA returned an invalid " ++ operation ++ " response (" ++ toString issues ++
        " schema issues)"
  | .other message => message

structure Counters where
  rateLimitRetries : ℕ
  transientRetries : ℕ
  deriving DecidableEq, Repr

def maxRateLimitRetries : ℕ := 12

def maxTransientReadRetries : ℕ := 4

inductive Turn (α : Type*) where
  | fetchAgain (counters : Counters)
  | returned (data : α)
  | raised (error : RequestError)
  deriving Repr

def Response.ok {α : Type*} (response : Response α) : Prop :=
  200 ≤ response.status ∧ response.status ≤ 299

instance {α : Type*} (response : Response α) : Decidable response.ok :=
  inferInstanceAs (Decidable (_ ∧ _))

/-- What the loop does with the outcome of one fetch. -/
def turn {α : Type*} (operation : String) (method : Method) (counters : Counters) :
    Outcome α → Turn α
  | .threw message => .raised (.other message)
  | .answered response =>
    if response.status = 429 ∧ method = .get ∧ operation ≠ "get_group" ∧
        counters.rateLimitRetries < maxRateLimitRetries then
      .fetchAgain { counters with rateLimitRetries := counters.rateLimitRetries + 1 }
    else if 500 ≤ response.status ∧ method = .get ∧ operation ≠ "get_group" ∧
        counters.transientRetries < maxTransientReadRetries then
      .fetchAgain { counters with transientRetries := counters.transientRetries + 1 }
    else if ¬ response.ok then
      match response.text with
      | .error message => .raised (.other message)
      | .ok body => .raised (.http response.status body response.retryAfterMs)
    else
      match response.parsed with
      | .error message => .raised (.other message)
      | .ok (.error issues) => .raised (.validation operation issues)
      | .ok (.ok data) => .returned data

theorem fetchAgain_is_get {α : Type*} {operation : String} {method : Method}
    {counters c : Counters} {outcome : Outcome α}
    (h : turn operation method counters outcome = .fetchAgain c) :
    method = .get ∧
      c.rateLimitRetries ≤ max counters.rateLimitRetries maxRateLimitRetries ∧
      c.transientRetries ≤ max counters.transientRetries maxTransientReadRetries ∧
      c.rateLimitRetries + c.transientRetries =
        counters.rateLimitRetries + counters.transientRetries + 1 := by
  cases outcome with
  | threw message => cases h
  | answered response =>
    simp only [turn] at h
    split at h
    · rename_i hg
      cases h
      exact ⟨hg.2.1, by simp; omega, Nat.le_max_left _ _, by simp; omega⟩
    · split at h
      · rename_i hg
        cases h
        exact ⟨hg.2.1, Nat.le_max_left _ _, by simp; omega, by simp; omega⟩
      · split at h
        · split at h <;> cases h
        · split at h <;> cases h

/-- A POST is never fetched again, whatever the answer. -/
theorem post_is_not_repeated {α : Type*} {operation : String} {counters c : Counters}
    {outcome : Outcome α} : turn operation .post counters outcome ≠ .fetchAgain c := by
  intro h
  cases (fetchAgain_is_get h).1

/-- The loop over the upstream's outcomes: its result and the number of fetches it issued.
`fuel` bounds the number of turns; `none` is a loop still running when it is spent. -/
def requestLoop {α : Type*} (operation : String) (method : Method) :
    ℕ → Counters → (ℕ → Outcome α) → ℕ → Option (Except RequestError α × ℕ)
  | 0, _, _, _ => none
  | fuel + 1, counters, outcomes, fetches =>
    match turn operation method counters (outcomes fetches) with
    | .fetchAgain c => requestLoop operation method fuel c outcomes (fetches + 1)
    | .returned data => some (.ok data, fetches + 1)
    | .raised error => some (.error error, fetches + 1)

/-- Every call ends, after at most the turns its retry budget has left. -/
theorem requestLoop_terminates {α : Type*} (operation : String) (method : Method)
    (outcomes : ℕ → Outcome α) (counters : Counters) (fetches fuel : ℕ)
    (hr : counters.rateLimitRetries ≤ maxRateLimitRetries)
    (ht : counters.transientRetries ≤ maxTransientReadRetries)
    (hf : maxRateLimitRetries + maxTransientReadRetries + 1 ≤
      fuel + counters.rateLimitRetries + counters.transientRetries) :
    ∃ result n, requestLoop operation method fuel counters outcomes fetches = some (result, n) ∧
      n + counters.rateLimitRetries + counters.transientRetries ≤
        fetches + maxRateLimitRetries + maxTransientReadRetries + 1 := by
  induction fuel generalizing counters fetches with
  | zero => omega
  | succ fuel ih =>
    simp only [requestLoop]
    split
    · rename_i c hc
      obtain ⟨_, hcr, hct, hsum⟩ := fetchAgain_is_get hc
      have hcr' : c.rateLimitRetries ≤ maxRateLimitRetries := by omega
      have hct' : c.transientRetries ≤ maxTransientReadRetries := by omega
      obtain ⟨result, n, he, hn⟩ := ih c (fetches + 1) hcr' hct' (by omega)
      exact ⟨result, n, he, by omega⟩
    · exact ⟨_, _, rfl, by omega⟩
    · exact ⟨_, _, rfl, by omega⟩

/-- A POST ends with its first fetch. -/
theorem post_issues_one_fetch {α : Type*} (operation : String) (outcomes : ℕ → Outcome α)
    (counters : Counters) (fetches fuel : ℕ) :
    ∃ result, requestLoop operation .post (fuel + 1) counters outcomes fetches =
      some (result, fetches + 1) := by
  simp only [requestLoop]
  split
  · rename_i c hc
    exact absurd hc post_is_not_repeated
  · exact ⟨_, rfl⟩
  · exact ⟨_, rfl⟩

end OpenWARequest
