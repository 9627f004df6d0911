import Mathlib.Tactic.Linarith
import WaRuntime.GatewayGroupReads

/-! One lease for the group reads of a session, and their pace.
The limiter's lease is the shared one; an item and an intent keep a copy in their row, and a
reservation has no other place than the limiter. The lease that a capability refresh then takes on
its group keeps other refreshes away, and is no lease to read: its column may outlive the lease of
the limiter. The distance of two acquisitions is that between the starts of their transactions,
which are what `now()` gives to the statements. -/
namespace GatewayReadLeases

open TransitionRuns GatewayRateLimitStatements SharedLeases GatewayGroupReads
open GroupCapabilityStatements (Unexpired)
open GatewaySyncItemStatements (SyncItemRow)
open GroupIntentStatements (IntentRow)

inductive Holder where
  | item (id : ℕ)
  | intent (group : String)
  | reservation (token : ℕ)
  deriving DecidableEq, Repr

def shared (limits : Option RateLimitRow) : Option Lease := limits.bind RateLimitRow.lease

def intentLease (intent : IntentRow) : Option Lease :=
  leaseOf intent.leaseToken intent.leaseExpiresAt

/-- The token was drawn by a capability refresh. -/
def Reserved (readers : ℕ → Option Reader) (token : ℕ) : Prop :=
  ∃ reader expectedRevision, readers token = some reader ∧ reader.path = .refresh expectedRevision

/-- A reservation under `token` is the limiter's lease, while it bears that token. -/
def reservationCopy (readers : ℕ → Option Reader) (limits : Option RateLimitRow) (token : ℕ) :
    Option Lease :=
  (readers token).bind fun reader =>
    match reader.path with
    | .refresh _ => (shared limits).filter fun lease => lease.token = token
    | _ => none

def copyOf (s : State) : Holder → Option Lease
  | .item id => (s.items id).bind SyncItemRow.lease
  | .intent group => (s.intents group).bind intentLease
  | .reservation token => reservationCopy s.readers s.limits token

def leases (s : State) : Leases Holder := ⟨shared s.limits, copyOf s⟩

section Copies

variable {config : Config} {s u : State} {e : Event} {now token time : ℕ} {lease : Lease}
  {readers readers' : ℕ → Option Reader} {limits limits' : Option RateLimitRow}
  {reader : Reader} {stage : Stage}

theorem reservationCopy_eq_some : reservationCopy readers limits token = some lease ↔
    Reserved readers token ∧ shared limits = some lease ∧ lease.token = token := by
  unfold reservationCopy Reserved
  constructor
  · intro h
    obtain ⟨reader, hreader, h⟩ := Option.bind_eq_some_iff.mp h
    split at h
    · rename_i expectedRevision hpath
      obtain ⟨hlease, htoken⟩ := Option.filter_eq_some_iff.mp h
      exact ⟨⟨reader, expectedRevision, hreader, hpath⟩, hlease, by simpa using htoken⟩
    · cases h
  · rintro ⟨⟨reader, expectedRevision, hreader, hpath⟩, hlease, htoken⟩
    simp [hreader, hpath, hlease, htoken]

/-- Reservations are kept or dropped where the limiter's lease is. -/
theorem reservation_kept (hr : ∀ k, Reserved readers' k → Reserved readers k)
    (hl : ∀ lease, shared limits' = some lease → shared limits = some lease) (token : ℕ) :
    reservationCopy readers' limits' token = none ∨
      reservationCopy readers' limits' token = reservationCopy readers limits token := by
  cases hc : reservationCopy readers' limits' token with
  | none => exact .inl rfl
  | some lease =>
    obtain ⟨hreserved, hlease, htoken⟩ := reservationCopy_eq_some.mp hc
    exact .inr (reservationCopy_eq_some.mpr ⟨hr _ hreserved, hl _ hlease, htoken⟩).symm

/-- No reservation has a lease of another kind. -/
theorem reservation_none (h : ∀ lease, shared limits = some lease → ¬ Reserved readers lease.token)
    (token : ℕ) : reservationCopy readers limits token = none := by
  cases hc : reservationCopy readers limits token with
  | none => rfl
  | some lease =>
    obtain ⟨hreserved, hlease, htoken⟩ := reservationCopy_eq_some.mp hc
    rw [← htoken] at hreserved
    exact absurd hreserved (h lease hlease)

theorem reserved_of_setStage {other : Reader} (hreader : s.readers token = some reader)
    (hpath : other.path = reader.path) {k : ℕ}
    (h : Reserved (setStage s token other stage).readers k) : Reserved s.readers k := by
  obtain ⟨found, expectedRevision, hk, hrefresh⟩ := h
  by_cases heq : k = token
  · subst heq
    simp only [setStage, Function.update_self] at hk
    cases hk
    exact ⟨reader, expectedRevision, hreader, hpath.symm.trans hrefresh⟩
  · simp only [setStage, Function.update_of_ne heq] at hk
    exact ⟨found, expectedRevision, hk, hrefresh⟩

/-- A token is of one kind for good. -/
theorem not_reserved (hreader : s.readers token = some reader)
    (hpath : ∀ expectedRevision, reader.path ≠ .refresh expectedRevision) :
    ¬ Reserved s.readers token := by
  rintro ⟨other, expectedRevision, hother, hrefresh⟩
  rw [hreader] at hother
  cases hother
  exact hpath expectedRevision hrefresh

theorem claimed_intent_lease {intent claimed : IntentRow}
    (h : GroupIntentStatements.claim config.intent now token intent = some claimed) :
    intentLease claimed = some ⟨token, now + groupReadLeaseMs⟩ := by
  unfold GroupIntentStatements.claim at h
  split at h
  · cases h
    rfl
  · cases h

theorem owned_intent_lease {intent : IntentRow} (h : GroupIntentStatements.Owned now token intent) :
    ∃ old, intentLease intent = some old ∧ old.token = token := by
  obtain ⟨_, htoken, expiresAt, hexpires, _⟩ := h
  exact ⟨⟨token, expiresAt⟩, leaseOf_eq_some.mpr ⟨htoken, hexpires⟩, rfl⟩

theorem renewed_intent_lease {intent renewed : IntentRow}
    (h : GroupIntentStatements.renewLease now token intent = some renewed) :
    GroupIntentStatements.Owned now token intent ∧
      intentLease renewed = some ⟨token, now + groupReadLeaseMs⟩ := by
  unfold GroupIntentStatements.renewLease at h
  split at h
  · rename_i howned
    cases h
    exact ⟨howned, leaseOf_eq_some.mpr ⟨howned.2.1, rfl⟩⟩
  · cases h

theorem completed_intent_lease {intent completed : IntentRow} {claimedRevision : ℕ}
    {errorCode : Option String}
    (h : GroupIntentStatements.completeClaimed now token claimedRevision errorCode intent =
      some completed) :
    GroupIntentStatements.Owned now token intent ∧ intentLease completed = none := by
  unfold GroupIntentStatements.completeClaimed at h
  split at h
  · rename_i howned
    cases h
    exact ⟨howned.1, rfl⟩
  · cases h

theorem failed_intent_lease {intent failed : IntentRow} {claimedRevision random : ℕ}
    {policy : GroupIntentStatements.GatewayGroupIntentFailurePolicy}
    (h : GroupIntentStatements.fail config.intent now token claimedRevision random policy intent =
      some failed) :
    GroupIntentStatements.Owned now token intent ∧ intentLease failed = none := by
  unfold GroupIntentStatements.fail at h
  split at h
  · rename_i howned
    cases h
    exact ⟨howned.1, rfl⟩
  · cases h

theorem recovered_intent_lease {intent recovered : IntentRow}
    (h : GroupIntentStatements.recoverExpired config.intent now intent = some recovered) :
    intentLease recovered = none := by
  unfold GroupIntentStatements.recoverExpired at h
  split at h
  · cases h
    rfl
  · cases h

/-- An event leaves the lease of an intent that is there, and gives a new one none. -/
theorem scheduled_intent_lease (reason : String) (intent : Option IntentRow) :
    intentLease (GroupIntentStatements.scheduleInTransaction config.intent now reason intent) =
      intent.bind intentLease := by
  cases intent with
  | none => rfl
  | some intent => rfl

/-- What becomes of the copies in the rows, when one row of one table is written. -/
theorem item_others {id : ℕ} {item : SyncItemRow}
    (hitems : u.items = Function.update s.items id (some item)) (hintents : u.intents = s.intents)
    (hres : ∀ k, copyOf u (.reservation k) = none ∨
      copyOf u (.reservation k) = copyOf s (.reservation k)) :
    Others (.item id) (leases s) (leases u) := by
  intro h hne
  cases h with
  | item other =>
    have hother : other ≠ id := fun heq => hne (by rw [heq])
    exact .inr (by simp [leases, copyOf, hitems, Function.update_of_ne hother])
  | intent group => exact .inr (by simp [leases, copyOf, hintents])
  | reservation k => exact hres k

theorem intent_others {group : String} {intent : IntentRow}
    (hintents : u.intents = Function.update s.intents group (some intent))
    (hitems : u.items = s.items)
    (hres : ∀ k, copyOf u (.reservation k) = none ∨
      copyOf u (.reservation k) = copyOf s (.reservation k)) :
    Others (.intent group) (leases s) (leases u) := by
  intro h hne
  cases h with
  | item id => exact .inr (by simp [leases, copyOf, hitems])
  | intent other =>
    have hother : other ≠ group := fun heq => hne (by rw [heq])
    exact .inr (by simp [leases, copyOf, hintents, Function.update_of_ne hother])
  | reservation k => exact hres k

/-- A step that touches no copy but may let the limiter's lease lapse. -/
theorem lapse_move
    (hshared : shared u.limits = shared s.limits ∨ shared u.limits = none ∧
      ∀ lease, shared s.limits = some lease → lease.expiresAt < s.clock)
    (hitems : ∀ id, copyOf u (.item id) = none ∨ copyOf u (.item id) = copyOf s (.item id))
    (hintents : ∀ group, copyOf u (.intent group) = none ∨
      copyOf u (.intent group) = copyOf s (.intent group))
    (hr : ∀ k, Reserved u.readers k → Reserved s.readers k) :
    Move s.clock s.tokens u.tokens (leases s) (leases u) := by
  have hsub : ∀ lease, shared u.limits = some lease → shared s.limits = some lease := by
    intro lease hlease
    rcases hshared with heq | ⟨hnone, _⟩
    · rw [← heq, hlease]
    · rw [hnone] at hlease
      cases hlease
  refine .lapse hshared fun h => ?_
  cases h with
  | item id => exact hitems id
  | intent group => exact hintents group
  | reservation token => exact reservation_kept hr hsub token

theorem quiet_move (hshared : shared u.limits = shared s.limits) (hitems : u.items = s.items)
    (hintents : u.intents = s.intents) (hr : ∀ k, Reserved u.readers k → Reserved s.readers k) :
    Move s.clock s.tokens u.tokens (leases s) (leases u) :=
  lapse_move (.inl hshared) (fun id => .inr (by simp [copyOf, hitems]))
    (fun group => .inr (by simp [copyOf, hintents])) hr

theorem shared_ensure : shared (some (ensure config.rate now s.limits)) = shared s.limits := by
  cases s.limits with
  | none => rfl
  | some row => rfl

/-- What the statements that name a token do to the shared lease. -/
theorem shared_frees (limits : Option RateLimitRow) {f : RateLimitRow → RateLimitRow}
    (hf : ∀ row, Frees token row (f row)) :
    shared (limits.map f) = shared limits ∨ shared (limits.map f) = none ∧
      ∃ lease, shared limits = some lease ∧ lease.token = token := by
  cases limits with
  | none => exact .inl rfl
  | some row => exact hf row

theorem shared_releaseExpired (hn : now ≤ s.clock) :
    shared (s.limits.map (releaseExpired now)) = shared s.limits ∨
      shared (s.limits.map (releaseExpired now)) = none ∧
        ∀ lease, shared s.limits = some lease → lease.expiresAt < s.clock := by
  cases hlimits : s.limits with
  | none => exact .inl rfl
  | some row =>
    rcases releaseExpired_lease now row with hkeep | ⟨hnone, hexpired⟩
    · exact .inl hkeep
    · exact .inr ⟨hnone, fun lease hlease => lt_of_lt_of_le (hexpired lease hlease) hn⟩

/-- The limiter is taken when its lease has run out. -/
theorem ready_shared {rate : ℕ} (hn : now ≤ s.clock)
    (h : readyAndRate config.rate now (ensure config.rate now s.limits) = some rate) :
    ∀ old, (leases s).shared = some old → old.expiresAt < s.clock := by
  intro old hold
  have hlease : (ensure config.rate now s.limits).lease = some old :=
    shared_ensure.trans hold
  exact lt_of_lt_of_le (ready_lease (readyAndRate_some h).1 hlease) hn

theorem acquired_lease {rate : ℕ} {row : RateLimitRow} :
    shared (some (acquire now token rate row)) = some ⟨token, now + groupReadLeaseMs⟩ := rfl

/-- The end of a call on an item or an intent: its copy goes, and the shared lease if it is its. -/
theorem finish_move {h : Holder} {old : Lease} {f : RateLimitRow → RateLimitRow}
    (hold : copyOf s h = some old) (htoken : old.token = token) (hnone : copyOf u h = none)
    (hf : ∀ row, Frees token row (f row)) (hlimits : u.limits = s.limits.map f)
    (ho : Others h (leases s) (leases u)) :
    Move s.clock s.tokens u.tokens (leases s) (leases u) := by
  refine .finish h old hold hnone ?_ ho
  have hshared := shared_frees s.limits hf
  rw [← hlimits, ← htoken] at hshared
  exact hshared

theorem frees_sub {f : RateLimitRow → RateLimitRow} (hf : ∀ row, Frees token row (f row))
    (hlimits : limits' = limits.map f) :
    ∀ lease, shared limits' = some lease → shared limits = some lease := by
  intro lease hlease
  rw [hlimits] at hlease
  rcases shared_frees limits hf with hkeep | ⟨hnone, _⟩
  · rw [← hkeep, hlease]
  · rw [hnone] at hlease
    cases hlease

/-- The same for a reservation, which has no copy but the shared lease. -/
theorem reservation_finish_move {f : RateLimitRow → RateLimitRow}
    (hf : ∀ row, Frees token row (f row)) (hlimits : u.limits = s.limits.map f)
    (hitems : u.items = s.items) (hintents : u.intents = s.intents)
    (hreserved : Reserved s.readers token)
    (hr : ∀ k, Reserved u.readers k → Reserved s.readers k) :
    Move s.clock s.tokens u.tokens (leases s) (leases u) := by
  have hsub := frees_sub hf hlimits
  rcases shared_frees s.limits hf with hkeep | ⟨hnone, lease, hlease, htoken⟩
  · rw [← hlimits] at hkeep
    exact quiet_move hkeep hitems hintents hr
  · rw [← hlimits] at hnone
    have hold : copyOf s (.reservation token) = some lease :=
      reservationCopy_eq_some.mpr ⟨hreserved, hlease, htoken⟩
    refine .finish (.reservation token) lease hold ?_ (.inr ⟨hnone, lease, hlease, rfl⟩) ?_
    · refine reservation_none (fun other hother => ?_) token
      rw [hnone] at hother
      cases hother
    · intro k _
      cases k with
      | item id => exact .inr (by simp [leases, copyOf, hitems])
      | intent group => exact .inr (by simp [leases, copyOf, hintents])
      | reservation k => exact reservation_kept hr hsub k

/-- A renewal moves the copy and the shared lease to one instant. -/
theorem renewLease_move (hreader : s.readers token = some reader)
    (h : renewLease s token now reader = some u) :
    Move s.clock s.tokens s.tokens (leases s) (leases u) ∧ u.clock = s.clock ∧
      u.tokens = s.tokens ∧ u.readers = s.readers := by
  obtain ⟨limit, row, hlimit, hrow, hcase⟩ := renewLease_cases h
  obtain ⟨whole, hwhole, hwholeToken, hnew⟩ := renew_some hrow
  rcases hcase with ⟨id, item, renewed, hpath, hitem, hrenew, rfl⟩ |
    ⟨revision, intent, renewed, hpath, hintent, hrenew, rfl⟩
  · obtain ⟨howned, hlease⟩ := GatewaySyncItemStatements.renewLease_some hrenew
    obtain ⟨old, hold, htoken⟩ := GatewaySyncItemStatements.owned_lease howned
    refine ⟨.renew (.item id) old ⟨token, now + groupReadLeaseMs⟩ whole
      ⟨token, now + groupReadLeaseMs⟩ ?_ htoken.symm ?_ (by omega) ?_ hnew hwholeToken.symm
      (Nat.le_refl _) (item_others rfl rfl fun k => .inl ?_), rfl, rfl, rfl⟩
    · simp [leases, copyOf, hitem, hold]
    · simp [leases, shared, hlimit, hwhole]
    · simp [leases, copyOf, hlease]
    · refine reservation_none (fun lease hl => ?_) k
      have heq : lease = ⟨token, now + groupReadLeaseMs⟩ := Option.some.inj (hl.symm.trans hnew)
      rw [heq]
      exact not_reserved hreader (by simp [hpath])
  · obtain ⟨howned, hlease⟩ := renewed_intent_lease hrenew
    obtain ⟨old, hold, htoken⟩ := owned_intent_lease howned
    refine ⟨.renew (.intent reader.group) old ⟨token, now + groupReadLeaseMs⟩ whole
      ⟨token, now + groupReadLeaseMs⟩ ?_ htoken.symm ?_ (by omega) ?_ hnew hwholeToken.symm
      (Nat.le_refl _) (intent_others rfl rfl fun k => .inl ?_), rfl, rfl, rfl⟩
    · simp [leases, copyOf, hintent, hold]
    · simp [leases, shared, hlimit, hwhole]
    · simp [leases, copyOf, hlease]
    · refine reservation_none (fun lease hl => ?_) k
      have heq : lease = ⟨token, now + groupReadLeaseMs⟩ := Option.some.inj (hl.symm.trans hnew)
      rw [heq]
      exact not_reserved hreader (by simp [hpath])

theorem leases_setStage (hreader : s.readers token = some reader) :
    leases (setStage s token reader stage) = leases s := by
  have hcopy : copyOf (setStage s token reader stage) = copyOf s := by
    funext h
    cases h with
    | item id => rfl
    | intent group => rfl
    | reservation k =>
      by_cases hk : k = token
      · subst hk
        simp [copyOf, reservationCopy, setStage, hreader]
      · simp [copyOf, reservationCopy, setStage, Function.update_of_ne hk]
  simp only [leases, hcopy]
  rfl

/-- The token of a new call on an item or an intent is no reservation's. -/
theorem started_not_reserved {path : ReadPath} {group : String}
    (hpath : ∀ expectedRevision, path ≠ .refresh expectedRevision) :
    ¬ Reserved (startReader s path group stage).readers s.tokens := by
  rintro ⟨other, expectedRevision, hother, hrefresh⟩
  simp only [startReader, Function.update_self, Option.some.injEq] at hother
  rw [← hother] at hrefresh
  exact hpath expectedRevision hrefresh

/-- The end of the call of an item. -/
theorem item_finish_move {id : ℕ} {item new : SyncItemRow} {f : RateLimitRow → RateLimitRow}
    (hreader : s.readers token = some reader) (hitem : s.items id = some item)
    (hend : GatewaySyncItemStatements.Owned now token item ∧ new.lease = none)
    (hf : ∀ row, Frees token row (f row))
    (hu : u = { setStage s token reader .done with
      limits := s.limits.map f
      items := Function.update s.items id (some new) }) :
    Move s.clock s.tokens u.tokens (leases s) (leases u) := by
  obtain ⟨howned, hnone⟩ := hend
  obtain ⟨old, hold, htoken⟩ := GatewaySyncItemStatements.owned_lease howned
  subst hu
  refine finish_move (h := .item id) (by simp [copyOf, hitem, hold]) htoken ?_ hf rfl
    (item_others rfl rfl fun k => ?_)
  · simp [copyOf, hnone]
  · exact reservation_kept (fun _ => reserved_of_setStage hreader rfl) (frees_sub hf rfl) k

/-- The end of the call of an intent. -/
theorem intent_finish_move {group : String} {intent new : IntentRow}
    {f : RateLimitRow → RateLimitRow}
    (hreader : s.readers token = some reader) (hintent : s.intents group = some intent)
    (hend : GroupIntentStatements.Owned now token intent ∧ intentLease new = none)
    (hf : ∀ row, Frees token row (f row))
    (hu : u = { setStage s token reader .done with
      limits := s.limits.map f
      intents := Function.update s.intents group (some new) }) :
    Move s.clock s.tokens u.tokens (leases s) (leases u) := by
  obtain ⟨howned, hnone⟩ := hend
  obtain ⟨old, hold, htoken⟩ := owned_intent_lease howned
  subst hu
  refine finish_move (h := .intent group) (by simp [copyOf, hintent, hold]) htoken ?_ hf rfl
    (intent_others rfl rfl fun k => ?_)
  · simp [copyOf, hnone]
  · exact reservation_kept (fun _ => reserved_of_setStage hreader rfl) (frees_sub hf rfl) k

/-- The limiter's lease that a write finds, and how it leaves it. -/
theorem written_lease {limit row : RateLimitRow} (hs : limit.Sound config.rate)
    (h : renewGroupReadPacingLease time token limit = some row) :
    ∃ whole, limit.lease = some whole ∧ whole.token = token ∧
      row.lease = some ⟨token, time + groupReadLeaseMs⟩ := by
  obtain ⟨htoken, hlease⟩ := renewGroupReadPacingLease_some h
  have hexpires := hs.paired (by simp [htoken])
  obtain ⟨expiresAt, hexpires⟩ := Option.ne_none_iff_exists'.mp hexpires
  exact ⟨⟨token, expiresAt⟩, leaseOf_eq_some.mpr ⟨htoken, hexpires⟩, rfl, hlease⟩

/-- A new token is no reservation's where the call is on an item or an intent. -/
theorem started_reservations {rate : ℕ} {path : ReadPath} {group : String} {row : RateLimitRow}
    (hpath : ∀ expectedRevision, path ≠ .refresh expectedRevision) (k : ℕ) :
    reservationCopy (startReader s path group stage).readers
      (some (acquire now s.tokens rate row)) k = none := by
  refine reservation_none (fun lease hl => ?_) k
  rw [acquired_lease] at hl
  cases hl
  exact started_not_reserved hpath

theorem item_claim_move {id rate : ℕ} {item claimed : SyncItemRow} (hnow : now ≤ s.clock)
    (hrate : readyAndRate config.rate now (ensure config.rate now s.limits) = some rate)
    (hclaim : GatewaySyncItemStatements.claim config.intent.maxAttempts now s.tokens item =
      some claimed)
    (hu : u = { startReader s (.item id) item.groupId .claimed with
      limits := some (acquire now s.tokens rate (ensure config.rate now s.limits))
      items := Function.update s.items id (some claimed) }) :
    Move s.clock s.tokens u.tokens (leases s) (leases u) := by
  subst hu
  refine .acquire (.item id) ⟨s.tokens, now + groupReadLeaseMs⟩ (ready_shared hnow hrate)
    (Nat.le_refl _) (Nat.lt_succ_self _) rfl ?_
    (item_others rfl rfl fun k => .inl (started_reservations (by simp) k))
  simp [leases, copyOf, GatewaySyncItemStatements.claim_some hclaim]

theorem intent_claim_move {group : String} {rate : ℕ} {intent claimed : IntentRow}
    (hnow : now ≤ s.clock)
    (hrate : readyAndRate config.rate now (ensure config.rate now s.limits) = some rate)
    (hclaim : GroupIntentStatements.claim config.intent now s.tokens intent = some claimed)
    (hu : u = { startReader s (.intent intent.requestedRevision) group .claimed with
      limits := some (acquire now s.tokens rate (ensure config.rate now s.limits))
      intents := Function.update s.intents group (some claimed) }) :
    Move s.clock s.tokens u.tokens (leases s) (leases u) := by
  subst hu
  refine .acquire (.intent group) ⟨s.tokens, now + groupReadLeaseMs⟩ (ready_shared hnow hrate)
    (Nat.le_refl _) (Nat.lt_succ_self _) rfl ?_
    (intent_others rfl rfl fun k => .inl (started_reservations (by simp) k))
  simp [leases, copyOf, claimed_intent_lease hclaim]

/-- A reservation is the limiter's new lease, and has no other copy. -/
theorem reserve_move {group : String} {expectedRevision rate : ℕ} (hnow : now ≤ s.clock)
    (hrate : readyAndRate config.rate now (ensure config.rate now s.limits) = some rate)
    (hu : u = { startReader s (.refresh expectedRevision) group .reserved with
      limits := some (acquire now s.tokens rate (ensure config.rate now s.limits)) }) :
    Move s.clock s.tokens u.tokens (leases s) (leases u) := by
  subst hu
  refine .acquire (.reservation s.tokens) ⟨s.tokens, now + groupReadLeaseMs⟩
    (ready_shared hnow hrate) (Nat.le_refl _) (Nat.lt_succ_self _) rfl ?_ ?_
  · refine reservationCopy_eq_some.mpr
      ⟨⟨⟨.refresh expectedRevision, group, none, .reserved, s.clock⟩, expectedRevision, ?_, rfl⟩,
        rfl, rfl⟩
    exact Function.update_self ..
  · intro h hne
    cases h with
    | item id => exact .inr rfl
    | intent group => exact .inr rfl
    | reservation k =>
      left
      cases hc : reservationCopy (startReader s (.refresh expectedRevision) group .reserved).readers
          (some (acquire now s.tokens rate (ensure config.rate now s.limits))) k with
      | none => exact hc
      | some lease =>
        obtain ⟨_, hlease, htoken⟩ := reservationCopy_eq_some.mp hc
        rw [acquired_lease] at hlease
        cases hlease
        exact absurd (by rw [← htoken]) hne

/-- The limiter's lease stays that of a call on an item or an intent. -/
theorem written_reservations {row : RateLimitRow} {other : Reader}
    (hreader : s.readers token = some reader)
    (hpath : ∀ expectedRevision, reader.path ≠ .refresh expectedRevision)
    (hother : other.path = reader.path) (hnew : row.lease = some ⟨token, time⟩) (k : ℕ) :
    reservationCopy (setStage s token other stage).readers (some row) k = none := by
  refine reservation_none (fun lease hl => ?_) k
  rw [← Option.some.inj (hnew.symm.trans hl)]
  intro hreserved
  exact not_reserved hreader hpath (reserved_of_setStage hreader hother hreserved)

/-- The write of an item moves its own lease to one instant, and the limiter's to a later one. -/
theorem item_write_move {limitTime id : ℕ} {group : GroupCapabilityStatements.OpenWAGroup}
    {found : Bool} {item renewed : SyncItemRow} {limit row : RateLimitRow}
    (hs : limit.Sound config.rate) (htime : time ≤ limitTime)
    (hreader : s.readers token = some reader) (hpath : reader.path = .item id)
    (hitem : s.items id = some item) (howned : GatewaySyncItemStatements.Owned now token item)
    (hrenew : GatewaySyncItemStatements.renewAfterWrite time token item = some renewed)
    (hlimit : s.limits = some limit)
    (hrow : renewGroupReadPacingLease limitTime token limit = some row)
    (hu : u = { setStage (writeGroup s now ⟨none, none⟩ reader group found) token reader
        .applied with
      limits := some row
      items := Function.update s.items id (some renewed) }) :
    Move s.clock s.tokens u.tokens (leases s) (leases u) := by
  obtain ⟨old, hold, htoken⟩ := GatewaySyncItemStatements.owned_lease howned
  obtain ⟨whole, hwhole, hwholeToken, hnew⟩ := written_lease hs hrow
  have hcopy := GatewaySyncItemStatements.renewAfterWrite_some hrenew
  subst hu
  refine .renew (.item id) old ⟨token, time + groupReadLeaseMs⟩ whole _ ?_ htoken.symm ?_
    (by omega) ?_ hnew hwholeToken.symm (Nat.add_le_add_right htime _) (item_others rfl rfl
      fun k => .inl (written_reservations hreader (by simp [hpath]) rfl hnew k))
  · simp [leases, copyOf, hitem, hold]
  · simp [leases, shared, hlimit, hwhole]
  · simp [leases, copyOf, hcopy]

theorem intent_write_move {limitTime claimedRevision : ℕ}
    {group : GroupCapabilityStatements.OpenWAGroup} {found : Bool} {intent : IntentRow}
    {limit row : RateLimitRow}
    (hs : limit.Sound config.rate) (htime : time ≤ limitTime)
    (hreader : s.readers token = some reader) (hpath : reader.path = .intent claimedRevision)
    (hintent : s.intents reader.group = some intent)
    (howned : GroupIntentStatements.Owned now token intent) (hlimit : s.limits = some limit)
    (hrow : renewGroupReadPacingLease limitTime token limit = some row)
    (hu : u = { setStage (writeGroup s now ⟨none, none⟩ reader group found) token reader
        .applied with
      limits := some row
      intents :=
        Function.update s.intents reader.group (some (renewIntentAfterWrite time intent)) }) :
    Move s.clock s.tokens u.tokens (leases s) (leases u) := by
  obtain ⟨old, hold, htoken⟩ := owned_intent_lease howned
  obtain ⟨whole, hwhole, hwholeToken, hnew⟩ := written_lease hs hrow
  have hcopy : intentLease (renewIntentAfterWrite time intent) =
      some ⟨token, time + groupReadLeaseMs⟩ := leaseOf_eq_some.mpr ⟨howned.2.1, rfl⟩
  subst hu
  refine .renew (.intent reader.group) old ⟨token, time + groupReadLeaseMs⟩ whole _ ?_
    htoken.symm ?_ (by omega) ?_ hnew hwholeToken.symm (Nat.add_le_add_right htime _)
    (intent_others rfl rfl
      fun k => .inl (written_reservations hreader (by simp [hpath]) rfl hnew k))
  · simp [leases, copyOf, hintent, hold]
  · simp [leases, shared, hlimit, hwhole]
  · simp [leases, copyOf, hcopy]

/-- An item without a lease comes in, or the lease of one goes. -/
theorem item_lapse_move {id : ℕ} {item : SyncItemRow} (hnone : item.lease = none)
    (hu : u = { s with items := Function.update s.items id (some item) }) :
    Move s.clock s.tokens u.tokens (leases s) (leases u) := by
  subst hu
  refine lapse_move (.inl rfl) (fun other => ?_) (fun _ => .inr rfl) fun _ h => h
  by_cases hid : other = id
  · subst hid
    exact .inl (by simp [copyOf, hnone])
  · exact .inr (by simp [copyOf, Function.update_of_ne hid])

theorem schedule_move {group reason : String}
    (hu : u = { onGroup s group (GroupCapabilityStatements.invalidateByEvent now) with
      intents := Function.update s.intents group
        (some (GroupIntentStatements.scheduleInTransaction config.intent now reason
          (s.intents group))) }) :
    Move s.clock s.tokens u.tokens (leases s) (leases u) := by
  subst hu
  refine lapse_move (.inl rfl) (fun _ => .inr rfl) (fun other => .inr ?_) fun _ h => h
  by_cases hgroup : other = group
  · subst hgroup
    simp only [copyOf, Function.update_self, Option.bind_some]
    exact scheduled_intent_lease reason (s.intents other)
  · simp [copyOf, Function.update_of_ne hgroup]

theorem intent_recovery_move {group : String} {intent recovered : IntentRow} (hnow : now ≤ s.clock)
    (hrecover : GroupIntentStatements.recoverExpired config.intent now intent = some recovered)
    (hu : u = { s with
      limits := s.limits.map (releaseExpired now)
      intents := Function.update s.intents group (some recovered) }) :
    Move s.clock s.tokens u.tokens (leases s) (leases u) := by
  subst hu
  refine lapse_move (shared_releaseExpired hnow) (fun _ => .inr rfl) (fun other => ?_) fun _ h => h
  by_cases hgroup : other = group
  · subst hgroup
    exact .inl (by simp [copyOf, recovered_intent_lease hrecover])
  · exact .inr (by simp [copyOf, Function.update_of_ne hgroup])

/-- What each step does to the leases. -/
theorem step_move (hs : ∀ row, s.limits = some row → row.Sound config.rate) (he : Enabled s e)
    (h : Outcome config s e u) : Move s.clock s.tokens u.tokens (leases s) (leases u) := by
  cases h with
  | idle | ticked => exact quiet_move rfl rfl rfl fun _ h => h
  | invalidated | summarized | refreshRecovered => exact quiet_move rfl rfl rfl fun _ h => h
  | published _ => exact item_lapse_move rfl rfl
  | changed => exact schedule_move rfl
  | ensured _ => exact quiet_move shared_ensure rfl rfl fun _ h => h
  | itemClaimed _ hrate hclaim => exact item_claim_move he.1 hrate hclaim rfl
  | intentClaimed _ hrate hclaim => exact intent_claim_move he.1 hrate hclaim rfl
  | reserved hrate => exact reserve_move he.1 hrate rfl
  | refreshClaimed hreader _ _ _ _ =>
    rename_i token now expectedRevision discovering reader old row _ _ _ _
    refine quiet_move rfl rfl rfl fun k hk => ?_
    have hstaged : Reserved (setStage s token { reader with capabilityToken := some s.tokens }
        .claimed).readers k := hk
    refine reserved_of_setStage hreader ?_ hstaged
    rfl
  | refreshUnclaimed hreader _ _ | lost hreader | started hreader _ | answered hreader _ =>
    exact quiet_move rfl rfl rfl fun _ => reserved_of_setStage hreader rfl
  | released hreader hpath =>
    exact reservation_finish_move (fun _ => release_frees) rfl rfl rfl ⟨_, _, hreader, hpath⟩
      fun _ => reserved_of_setStage hreader rfl
  | renewed hreader hrenew =>
    obtain ⟨hmove, _, htokens, _⟩ := renewLease_move hreader hrenew
    rw [htokens]
    exact hmove
  | confirmed hreader _ hrenew =>
    obtain ⟨hmove, _, htokens, hreaders⟩ := renewLease_move hreader hrenew
    rw [leases_setStage (by rw [hreaders, hreader])]
    simp only [setStage, htokens]
    exact hmove
  | itemWritten hreader hpath _ hitem howned hrenew hlimit hrow =>
    exact item_write_move (hs _ hlimit) he.2.2.1.2.1 hreader hpath hitem howned hrenew hlimit hrow
      rfl
  | intentWritten hreader hpath _ hintent howned _ hlimit hrow =>
    exact intent_write_move (hs _ hlimit) he.2.2.1.2.1 hreader hpath hintent howned hlimit hrow rfl
  | refreshWritten hreader _ _ =>
    exact quiet_move rfl rfl rfl fun _ => reserved_of_setStage hreader rfl
  | itemCompleted hreader _ _ hitem hcomplete =>
    exact item_finish_move hreader hitem (GatewaySyncItemStatements.complete_some hcomplete)
      (fun _ => success_frees) rfl
  | intentCompleted hreader _ _ hintent hcomplete =>
    exact intent_finish_move hreader hintent (completed_intent_lease hcomplete)
      (fun _ => success_frees) rfl
  | refreshCompleted hreader hpath _ =>
    exact reservation_finish_move (fun _ => success_frees) rfl rfl rfl ⟨_, _, hreader, hpath⟩
      fun _ => reserved_of_setStage hreader rfl
  | itemSkipped hreader _ _ hitem hskip =>
    exact item_finish_move hreader hitem (GatewaySyncItemStatements.skip_some hskip)
      (fun _ => release_frees) rfl
  | intentSkipped hreader _ _ hintent hskip =>
    exact intent_finish_move hreader hintent (completed_intent_lease hskip)
      (fun _ => release_frees) rfl
  | itemFailed hreader _ _ hitem hfail =>
    exact item_finish_move hreader hitem (GatewaySyncItemStatements.fail_some hfail)
      (fun _ => failure_frees) rfl
  | intentFailed hreader _ _ hintent hfail =>
    exact intent_finish_move hreader hintent (failed_intent_lease hfail)
      (fun _ => failure_frees) rfl
  | refreshFailed hreader hpath _ =>
    exact reservation_finish_move (fun _ => failure_frees) rfl rfl rfl ⟨_, _, hreader, hpath⟩
      fun _ => reserved_of_setStage hreader rfl
  | attemptFailed hreader _ =>
    exact quiet_move rfl rfl rfl fun _ => reserved_of_setStage hreader rfl
  | itemRecovered _ hrecover =>
    exact item_lapse_move (GatewaySyncItemStatements.recoverExpired_some hrecover) rfl
  | intentRecovered _ hrecover => exact intent_recovery_move he.1 hrecover rfl
  | lapsed =>
    exact lapse_move (shared_releaseExpired he.1) (fun _ => .inr rfl) (fun _ => .inr rfl)
      fun _ h => h

end Copies

section Limiter

variable {config : Config} {s t u : State} {e : Event} {now rate : ℕ}

/-- What a step does to the limiter's row. -/
inductive LimitMove (config : Config) (s : State) (e : Event) : Option RateLimitRow → Prop where
  | same : LimitMove config s e s.limits
  | ensured {now : ℕ} : LimitMove config s e (some (ensure config.rate now s.limits))
  | acquired {now rate : ℕ} :
      e.claimsAt = some now →
      readyAndRate config.rate now (ensure config.rate now s.limits) = some rate →
      LimitMove config s e
        (some (acquire now s.tokens rate (ensure config.rate now s.limits)))
  | renewed {now token : ℕ} {limit row : RateLimitRow} :
      s.limits = some limit → renew now token limit = some row → LimitMove config s e (some row)
  | written {time token : ℕ} {limit row : RateLimitRow} :
      s.limits = some limit → renewGroupReadPacingLease time token limit = some row →
      LimitMove config s e (some row)
  | succeeded {token : ℕ} : LimitMove config s e (s.limits.map (success config.rate token))
  | failed {now token random : ℕ} {policy : GatewaySyncFailurePolicy} :
      LimitMove config s e (s.limits.map (failure config.rate now token random policy))
  | released {token : ℕ} : LimitMove config s e (s.limits.map (release token))
  | lapsed {now : ℕ} : LimitMove config s e (s.limits.map (releaseExpired now))

theorem limit_move (h : Outcome config s e u) : LimitMove config s e u.limits := by
  cases h with
  | idle | ticked | published | changed | invalidated | summarized | refreshRecovered => exact .same
  | refreshClaimed | refreshUnclaimed | lost | started | answered => exact .same
  | refreshWritten | attemptFailed | itemRecovered => exact .same
  | ensured => exact .ensured
  | itemClaimed _ hrate _ | intentClaimed _ hrate _ | reserved hrate =>
    exact .acquired rfl hrate
  | released | itemSkipped | intentSkipped => exact .released
  | renewed _ hrenew | confirmed _ _ hrenew =>
    obtain ⟨limit, row, hlimit, hrow, hcase⟩ := renewLease_cases hrenew
    rcases hcase with ⟨_, _, _, _, _, _, rfl⟩ | ⟨_, _, _, _, _, _, rfl⟩
    · exact .renewed hlimit hrow
    · exact .renewed hlimit hrow
  | itemWritten _ _ _ _ _ _ hlimit hrow | intentWritten _ _ _ _ _ _ hlimit hrow =>
    exact .written hlimit hrow
  | itemCompleted | intentCompleted | refreshCompleted => exact .succeeded
  | itemFailed | intentFailed | refreshFailed => exact .failed
  | intentRecovered | lapsed => exact .lapsed

def LimitsSound (config : Config) (limits : Option RateLimitRow) : Prop :=
  ∀ row, limits = some row → row.Sound config.rate

theorem sound_map {limits : Option RateLimitRow} {f : RateLimitRow → RateLimitRow}
    (h : LimitsSound config limits) (hf : ∀ row, row.Sound config.rate → (f row).Sound config.rate) :
    LimitsSound config (limits.map f) := by
  intro row hrow
  obtain ⟨old, hold, rfl⟩ := Option.map_eq_some_iff.mp hrow
  exact hf old (h old hold)

theorem limit_move_sound {limits : Option RateLimitRow} (h : LimitsSound config s.limits)
    (hm : LimitMove config s e limits) : LimitsSound config limits := by
  cases hm with
  | same => exact h
  | ensured =>
    rintro row ⟨⟩
    exact ensure_sound h
  | acquired _ _ =>
    rintro row ⟨⟩
    exact acquire_sound (ensure_sound h)
  | renewed hlimit hrow =>
    rintro row ⟨⟩
    exact renew_sound (h _ hlimit) hrow
  | written hlimit hrow =>
    rintro row ⟨⟩
    exact renewGroupReadPacingLease_sound (h _ hlimit) hrow
  | succeeded => exact sound_map h fun _ => success_sound
  | failed => exact sound_map h fun _ => failure_sound
  | released => exact sound_map h fun _ => release_sound
  | lapsed => exact sound_map h fun _ => releaseExpired_sound

theorem outcome_tokens (h : Outcome config s e u) : s.clock ≤ u.clock ∧ s.tokens ≤ u.tokens := by
  cases h with
  | renewed _ hrenew | confirmed _ _ hrenew =>
    obtain ⟨_, _, _, _, hcase⟩ := renewLease_cases hrenew
    rcases hcase with ⟨_, _, _, _, _, _, rfl⟩ | ⟨_, _, _, _, _, _, rfl⟩
    · exact ⟨Nat.le_refl _, Nat.le_refl _⟩
    · exact ⟨Nat.le_refl _, Nat.le_refl _⟩
  | ticked => exact ⟨Nat.le_add_right _ _, Nat.le_refl _⟩
  | itemClaimed | intentClaimed | reserved | refreshClaimed =>
    exact ⟨Nat.le_refl _, Nat.le_succ _⟩
  | _ => exact ⟨Nat.le_refl _, Nat.le_refl _⟩

/-- The limiter's row is sound, and the leases exclude each other. -/
structure LeaseInvariant (config : Config) (s : State) : Prop where
  limits : LimitsSound config s.limits
  exclusive : Exclusive s.clock s.tokens (leases s)

theorem initial_invariant (h : Initial config s) : LeaseInvariant config s where
  limits row hrow :=
    ⟨fun hne => absurd (h.limits row hrow).1 hne, (h.limits row hrow).2⟩
  exclusive := by
    refine exclusive_empty fun holder => ?_
    cases holder with
    | item id =>
      cases hitem : s.items id with
      | none => simp [leases, copyOf, hitem]
      | some item => simp [leases, copyOf, hitem, h.items id item hitem]
    | intent group =>
      cases hintent : s.intents group with
      | none => simp [leases, copyOf, hintent]
      | some intent =>
        simp [leases, copyOf, hintent, intentLease, (h.intents group intent hintent).1]
    | reservation token => simp [leases, copyOf, reservationCopy, h.readers token]

theorem invariant_step (h : LeaseInvariant config s) (he : Enabled s e) :
    LeaseInvariant config (next config s e) := by
  have hout := next_outcome config s e
  obtain ⟨hclock, htokens⟩ := outcome_tokens hout
  refine ⟨limit_move_sound h.limits (limit_move hout), ?_⟩
  exact (move_exclusive h.exclusive htokens (step_move h.limits he hout)).later hclock

theorem reachable_leases (h : Reachable (system config) s) : LeaseInvariant config s :=
  reachable_invariant (M := system config) (I := LeaseInvariant config)
    (fun _ => initial_invariant) (fun _ _ hi he => invariant_step hi he) h

/-- The event takes the limiter, with `rate` in force. -/
structure Acquires (config : Config) (s : State) (e : Event) (now rate : ℕ) : Prop where
  claims : e.claimsAt = some now
  rate : readyAndRate config.rate now (ensure config.rate now s.limits) = some rate
  drawn : s.tokens < (next config s e).tokens

theorem acquires_limits (h : Acquires config s e now rate) :
    (next config s e).limits =
      some (acquire now s.tokens rate (ensure config.rate now s.limits)) := by
  obtain ⟨hclaims, hrate, hdrawn⟩ := h
  have hout := next_outcome config s e
  generalize next config s e = u at hout hdrawn ⊢
  cases hout with
  | itemClaimed _ hrate' _ | intentClaimed _ hrate' _ | reserved hrate' =>
    cases hclaims
    rw [hrate'] at hrate
    cases hrate
    rfl
  | refreshClaimed => cases hclaims
  | renewed | confirmed => cases hclaims
  | _ => exact absurd hdrawn (Nat.lt_irrefl _)

/-- The next request of a row that is there is never moved back. -/
def Later (limits limits' : Option RateLimitRow) : Prop :=
  ∀ row, limits = some row →
    ∃ row', limits' = some row' ∧ row.nextRequestAt ≤ row'.nextRequestAt

theorem later_refl (limits : Option RateLimitRow) : Later limits limits :=
  fun row hrow => ⟨row, hrow, le_rfl⟩

theorem later_map (limits : Option RateLimitRow) {f : RateLimitRow → RateLimitRow}
    (hf : ∀ row, (f row).nextRequestAt = row.nextRequestAt) : Later limits (limits.map f) := by
  rintro row rfl
  exact ⟨f row, rfl, (hf row).ge⟩

theorem later_of_eq {limit row : RateLimitRow} (hlimit : s.limits = some limit)
    (hrow : row.nextRequestAt = limit.nextRequestAt) : Later s.limits (some row) := by
  intro old hold
  rw [hlimit] at hold
  cases hold
  exact ⟨row, rfl, hrow.ge⟩

theorem later_ensure (config : Config) (s : State) (now : ℕ) :
    Later s.limits (some (ensure config.rate now s.limits)) := by
  intro row hrow
  rw [hrow]
  exact ⟨_, rfl, le_rfl⟩

/-- An acquisition finds the next request due, and sets it later. -/
theorem acquired_later {row : RateLimitRow} {token : ℕ} (h : row.Ready now) :
    row.nextRequestAt ≤ (acquire now token rate row).nextRequestAt := by
  have hdue := h.1
  have hpause : (0 : ℚ) ≤ 60000 / (rate : ℚ) := div_nonneg (by norm_num) (Nat.cast_nonneg rate)
  simp only [acquire]
  linarith

theorem later_step (config : Config) (s : State) (e : Event) :
    Later s.limits (next config s e).limits := by
  have hmove := limit_move (next_outcome config s e)
  generalize (next config s e).limits = limits at hmove ⊢
  cases hmove with
  | same => exact later_refl s.limits
  | ensured => exact later_ensure config s _
  | acquired _ hrate =>
    intro row hrow
    obtain ⟨row', hrow', hle⟩ := later_ensure config s _ row hrow
    cases hrow'
    exact ⟨_, rfl, hle.trans (acquired_later (readyAndRate_some hrate).1)⟩
  | renewed hlimit hrow => exact later_of_eq hlimit (renew_nextRequestAt hrow)
  | written hlimit hrow => exact later_of_eq hlimit (renewGroupReadPacingLease_nextRequestAt hrow)
  | succeeded => exact later_map s.limits fun _ => success_nextRequestAt
  | failed => exact later_map s.limits fun _ => failure_nextRequestAt
  | released => exact later_map s.limits fun _ => release_nextRequestAt
  | lapsed => exact later_map s.limits fun _ => releaseExpired_nextRequestAt

theorem later_along {es : List Event} (hr : Reachable (system config) s)
    (h : Execution (system config) s es t) : Later s.limits t.limits := by
  refine related_along (M := system config) (R := fun s t => Later s.limits t.limits)
    (fun s => later_refl s.limits) ?_ hr h
  intro s t e _ hst _ row hrow
  obtain ⟨mid, hmid, hle⟩ := hst row hrow
  obtain ⟨new, hnew, hle'⟩ := later_step config t e mid hmid
  exact ⟨new, hnew, hle.trans hle'⟩

/-- Whoever acquires finds the cooldown over and the next request due. -/
theorem acquires_ready (h : Acquires config s e now rate) {row : RateLimitRow}
    (hrow : s.limits = some row) :
    row.nextRequestAt ≤ now ∧ ∀ cooldown, row.cooldownUntil = some cooldown → cooldown ≤ now := by
  have hready := (readyAndRate_some h.rate).1
  rw [hrow] at hready
  exact ⟨hready.1, hready.2.1⟩

/-- An acquisition at `now` keeps the next one away for a minute divided by the rate. -/
theorem acquisitions_apart {es : List Event} {e' : Event} {now' rate' : ℕ}
    (hr : Reachable (system config) s) (he : Enabled s e) (h : Acquires config s e now rate)
    (hx : Execution (system config) (next config s e) es u)
    (h' : Acquires config u e' now' rate') : (now : ℚ) + 60000 / rate ≤ now' := by
  have hnext : Reachable (system config) (next config s e) := hr.step (M := system config) he
  obtain ⟨row, hrow, hle⟩ := later_along hnext hx _ (acquires_limits h)
  exact hle.trans (acquires_ready h' hrow).1

/-- Two leases that have not expired are one, and it is the limiter's; acquisitions keep their
distance and wait for a cooldown to end; and the rate stays within its bounds. -/
theorem one_group_read_lease (hr : Reachable (system config) s) :
    (∀ h k lease other, copyOf s h = some lease → copyOf s k = some other →
      s.clock ≤ lease.expiresAt → s.clock ≤ other.expiresAt →
      h = k ∧ ∃ row expiresAt, s.limits = some row ∧ row.activeLeaseToken = some lease.token ∧
        row.activeLeaseExpiresAt = some expiresAt ∧ lease.expiresAt ≤ expiresAt) ∧
    (∀ e now rate, Enabled s e → Acquires config s e now rate →
      (∀ row cooldown, s.limits = some row → row.cooldownUntil = some cooldown →
        cooldown ≤ now) ∧
      ∀ es u e' now' rate', Execution (system config) (next config s e) es u →
        Acquires config u e' now' rate' → (now : ℚ) + 60000 / rate ≤ now') ∧
    ∀ row rate, s.limits = some row → row.effectiveRequestsPerMinute = some rate →
      config.rate.minGroupsPerMinute ≤ rate ∧ rate ≤ config.rate.groupsPerMinute := by
  have hinv := reachable_leases hr
  refine ⟨?_, ?_, fun row rate hrow hrate => (hinv.limits row hrow).rate rate hrate⟩
  · intro h k lease other hh hk ha hb
    obtain ⟨heq, whole, hwhole, htoken, hle⟩ := hinv.exclusive.unique hh hk ha hb
    obtain ⟨row, hrow, hlease⟩ := Option.bind_eq_some_iff.mp hwhole
    obtain ⟨hactive, hexpires⟩ := leaseOf_eq_some.mp hlease
    exact ⟨heq, row, whole.expiresAt, hrow, by rw [hactive, htoken], hexpires, hle⟩
  · intro e now rate he hacquires
    refine ⟨fun row cooldown hrow => (acquires_ready hacquires hrow).2 cooldown, ?_⟩
    intro es u e' now' rate' hx hacquires'
    exact acquisitions_apart hr he hacquires hx hacquires'

def emptyState : State where
  clock := 0
  tokens := 0
  limits := none
  items := fun _ => none
  intents := fun _ => none
  groups := fun _ => none
  readers := fun _ => none

theorem empty_initial (config : Config) : Initial config emptyState where
  readers _ := rfl
  limits _ h := nomatch h
  items _ _ h := nomatch h
  intents _ _ h := nomatch h

def exampleConfig : Config where
  rate := ⟨true, 40, 5, 25, by decide, by decide⟩
  intent := ⟨2000, 30000, 5⟩

/-- An item is published and claimed. -/
def claimedItem : List Event := [.publishItem 7 0 1 "group-1", .claimItem 7 0 true]

/-- The item's lease is the limiter's. -/
theorem claimed_item_holds_limiter :
    ∃ row expiresAt, (runTrace (system exampleConfig) emptyState claimedItem).limits = some row ∧
      row.activeLeaseToken = some 0 ∧ row.activeLeaseExpiresAt = some expiresAt ∧
      120000 ≤ expiresAt := by
  have hvalid : ValidTrace (system exampleConfig) emptyState claimedItem := by
    refine ⟨?_, ?_, trivial⟩
    · decide
    · decide
  have hreach : Reachable (system exampleConfig) (runTrace (system exampleConfig) emptyState
      claimedItem) := ⟨_, valid_trace_run (empty_initial _) hvalid⟩
  have hlease : copyOf (runTrace (system exampleConfig) emptyState claimedItem) (.item 7) =
      some ⟨0, 120000⟩ := by decide +kernel
  exact ((one_group_read_lease hreach).1 _ _ _ _ hlease hlease (by decide +kernel)
    (by decide +kernel)).2

end Limiter

end GatewayReadLeases
