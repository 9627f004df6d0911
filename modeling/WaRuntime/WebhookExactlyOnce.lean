import WaRuntime.WebhookProcessing

/-! The effects of a stored webhook are committed at most once.
A transaction that holds the lock on its row has found its own token there, and nobody else can
write the row until it ends. So its commit turns a row that is PROCESSING under that token into a
PROCESSED one, and no statement leads back from there. -/
namespace WebhookExactlyOnce

open TransitionRuns RowVersions WebhookStatements WebhookProcessing
open WebhookTransaction (Config)

variable {config : Config} {s u : State} {e : Event} {p q id token : ℕ} {key : String}
  {k : Processor} {stored : StoredWebhook}

def attemptsOf (s : State) (id : ℕ) : ℕ := (s.claims.filter fun c => c.id = id).length

/-- The committed and the held version of a row that the transaction of `k` has locked. -/
structure Holds (k : Processor) (committed held : Slot) (stored : StoredWebhook) : Prop where
  committed : committed = some stored
  id : stored.id = k.id
  processing : stored.row.processingState = .processing
  lease : stored.row.leaseToken = some k.token
  unmarked : (∀ written, k.phase ≠ .marked written) → held = some stored
  marked : ∀ written, k.phase = .marked written → ∃ row, held = some ⟨stored.id, row⟩ ∧
    row.processingState = .processed ∧ row.attemptCount = stored.row.attemptCount ∧
    row.leaseToken = none

structure Inv (s : State) : Prop where
  id_lt : ∀ key stored, (s.webhooks key).committed = some stored → stored.id < s.nextId
  id_inj : ∀ key other stored stored', (s.webhooks key).committed = some stored →
    (s.webhooks other).committed = some stored' → stored.id = stored'.id → key = other
  claim_lt : ∀ c ∈ s.claims, c.id < s.nextId ∧ c.token < s.nextToken
  token_inj : ∀ c ∈ s.claims, ∀ d ∈ s.claims, c.token = d.token → c = d
  lease : ∀ key stored token, (s.webhooks key).committed = some stored →
    stored.row.leaseToken = some token → ⟨stored.id, token⟩ ∈ s.claims
  processor : ∀ p k, s.processors p = some k → ⟨k.id, k.token⟩ ∈ s.claims
  attempts : ∀ key stored, (s.webhooks key).committed = some stored →
    stored.row.attemptCount = attemptsOf s stored.id
  attempts_le : ∀ id, attemptsOf s id ≤ webhookMaxAttempts
  holder : ∀ key p slot, (s.webhooks key).held = some (p, slot) → ∃ k stored,
    s.processors p = some k ∧ k.key = key ∧ k.phase.Locks = true ∧
      Holds k (s.webhooks key).committed slot stored
  keeps : ∀ p k, s.processors p = some k → k.phase.Locks = true →
    ∃ slot, (s.webhooks k.key).held = some (p, slot)
  commit : ∀ c ∈ s.commits, ⟨c.id, c.token⟩ ∈ s.claims ∧ ∀ key stored,
    (s.webhooks key).committed = some stored → stored.id = c.id →
      stored.row.processingState = .processed
  once : (s.commits.map Commit.id).Nodup
  processed : ∀ key stored, (s.webhooks key).committed = some stored →
    stored.row.processingState = .processed → ∃ c ∈ s.commits, c.id = stored.id

theorem inv_initial : Inv initial := by
  constructor <;> simp [initial, attemptsOf]

/-- What a step does to the committed version of the row under `key`. -/
inductive CommittedMove (s u : State) (e : Event) (key : String) : Slot → Slot → Prop where
  | same {slot : Slot} : CommittedMove s u e key slot slot
  | received {now : ℕ} {envelope : WebhookEvents.OpenWAWebhookEnvelope} :
      e = .receive now envelope → key = envelope.idempotencyKey → u.nextId = s.nextId + 1 →
      CommittedMove s u e key none (some ⟨s.nextId, WebhookStatements.insert now envelope⟩)
  | claimed {now : ℕ} {stored : StoredWebhook} {row : WebhookRow} :
      claimForProcessing now s.nextToken stored.row = some row →
      u.claims = s.claims ++ [⟨stored.id, s.nextToken⟩] → u.nextToken = s.nextToken + 1 →
      CommittedMove s u e key (some stored) (some ⟨stored.id, row⟩)
  | ended {stored : StoredWebhook} {row : WebhookRow} :
      stored.row.processingState = .processing →
      row.processingState = .retry ∨ row.processingState = .dead →
      row.attemptCount = stored.row.attemptCount → row.leaseToken = none →
      CommittedMove s u e key (some stored) (some ⟨stored.id, row⟩)
  | deleted {stored : StoredWebhook} : CommittedMove s u e key (some stored) none
  | processed {p : ℕ} {k : Processor} {written : Written} {stored : StoredWebhook}
      {row : WebhookRow} :
      s.processors p = some k → k.key = key → stored.id = k.id →
      stored.row.processingState = .processing → stored.row.leaseToken = some k.token →
      row.processingState = .processed → row.attemptCount = stored.row.attemptCount →
      row.leaseToken = none → u.commits = s.commits ++ [⟨k.id, k.token, written⟩] →
      CommittedMove s u e key (some stored) (some ⟨stored.id, row⟩)

theorem claimed_processor_of_claim {now : ℕ} {row : WebhookRow}
    (hc : (s.webhooks key).committed = some stored)
    (h : claimForProcessing now s.nextToken stored.row = some row) :
    claimedProcessor s key now = some ⟨key, stored.id, s.nextToken, stored.row.payload, .claimed⟩ := by
  have hd : Dispatchable now stored.row := by
    by_contra hnot
    simp [claimForProcessing, hnot] at h
  simp [claimedProcessor, hc, hd]

theorem commit_of_marked {acknowledged : Bool} {after : Option Processor}
    (h : processorNext config s p k (.commit acknowledged) = some after) :
    ∃ written, k.phase = .marked written ∧
      committedBy k (.commit acknowledged) = [⟨k.id, k.token, written⟩] := by
  simp only [processorNext] at h
  split at h
  · rename_i written hphase
    exact ⟨written, hphase, by simp [committedBy, hphase]⟩
  · cases h

theorem committed_moves (hi : Inv s) (h : step config s e = some u) (key : String) :
    CommittedMove s u e key (s.webhooks key).committed (u.webhooks key).committed := by
  obtain ⟨hready, hw, v, hv, hp, hcl, hco, hid, htok⟩ := step_parties h
  have hmove := webhook_moves h key
  generalize u.webhooks key = row at hmove ⊢
  cases hmove with
  | same => exact .same
  | received he hkey hfree hc =>
    subst he
    simp only [moveParties, guarded_eq_some] at hv
    obtain ⟨_, rfl⟩ := hv
    rw [hc]
    exact .received rfl hkey hid
  | claimed he hfree hc hrow =>
    subst he
    simp only [moveParties, guarded_eq_some] at hv
    obtain ⟨_, rfl⟩ := hv
    rw [claimed_processor_of_claim hc hrow] at hcl
    rw [hc]
    exact .claimed hrow (by simpa using hcl) htok
  | recovered he hfree hc hrow =>
    obtain ⟨hstate, _, hnew, hattempt, hlease, _⟩ := recoverExpiredProcessing_some hrow
    rw [hc]
    exact .ended hstate (hnew.imp_left And.left) hattempt hlease
  | deleted he hfree hc hd =>
    rw [hc]
    exact .deleted
  | failed he hk hkey hfree hc hrow =>
    obtain ⟨hown, hnew, hattempt, hlease, _⟩ := markFailed_some hrow
    rw [hc]
    exact .ended hown.1 (hnew.imp_left And.left) hattempt hlease
  | locked => exact .same
  | marked => exact .same
  | committed he hheld =>
    subst he
    obtain ⟨k, stored, hk, hkey, hlocks, hholds⟩ := hi.holder _ _ _ hheld
    obtain ⟨k', after, hk', hafter, hprocs, hws, _, hcommits⟩ := processor_step h
    rw [hk] at hk'
    cases hk'
    obtain ⟨written, hphase, hentry⟩ := commit_of_marked hafter
    obtain ⟨row, rfl, hstate, hattempt, hlease⟩ := hholds.marked written hphase
    rw [hentry] at hcommits
    rw [hholds.committed]
    exact .processed hk hkey hholds.id hholds.processing hholds.lease hstate hattempt hlease
      hcommits
  | aborted => exact .same

theorem counters_grow (h : step config s e = some u) :
    s.nextId ≤ u.nextId ∧ s.nextToken ≤ u.nextToken := by
  obtain ⟨hready, hw, v, hv, hp, hcl, hco, hid, htok⟩ := step_parties h
  rw [hid, htok]
  cases e <;> simp only [moveParties, guarded_eq_some, Option.some.injEq] at hv
  case processor p event =>
    split at hv
    · obtain ⟨after, _, rfl⟩ := Option.map_eq_some_iff.mp hv
      exact ⟨le_rfl, le_rfl⟩
    · cases hv
  case tick ms =>
    subst hv
    exact ⟨le_rfl, le_rfl⟩
  all_goals
    obtain ⟨_, rfl⟩ := hv
    constructor <;> simp

/-- The log of claims grows only by the claim of a dispatchable row. -/
theorem claims_moved (h : step config s e = some u) :
    u.claims = s.claims ∨
      ∃ key now stored row, (s.webhooks key).committed = some stored ∧
        claimForProcessing now s.nextToken stored.row = some row ∧
        (u.webhooks key).committed = some ⟨stored.id, row⟩ ∧
        u.claims = s.claims ++ [⟨stored.id, s.nextToken⟩] ∧ u.nextToken = s.nextToken + 1 := by
  obtain ⟨hready, hw, v, hv, hp, hcl, hco, hid, htok⟩ := step_parties h
  cases e <;> simp only [moveParties, guarded_eq_some, Option.some.injEq] at hv
  case claim p key now =>
    obtain ⟨_, rfl⟩ := hv
    cases hk : claimedProcessor s key now with
    | none => exact .inl (by simpa [hk] using hcl)
    | some k =>
      obtain ⟨_, htoken, _, stored, hstored, hkid, _, hd⟩ := claimed_processor hk
      obtain ⟨row, hrow⟩ : ∃ row, claimForProcessing now s.nextToken stored.row = some row := by
        simp [claimForProcessing, hd]
      refine .inr ⟨key, now, stored, row, hstored, hrow, ?_, ?_, htok⟩
      · rw [hw]
        simp [webhookEffect, Effect.apply, Row.update, hstored, onStored, hrow]
      · rw [hcl]
        simp [hk, hkid, htoken]
  case processor p event =>
    split at hv
    · obtain ⟨after, _, rfl⟩ := Option.map_eq_some_iff.mp hv
      exact .inl hcl
    · cases hv
  case tick ms =>
    subst hv
    exact .inl hcl
  all_goals
    obtain ⟨_, rfl⟩ := hv
    exact .inl hcl

theorem claims_grow (h : step config s e = some u) {c : Claim} (hc : c ∈ s.claims) :
    c ∈ u.claims := by
  obtain hsame | ⟨_, _, _, _, _, _, _, hgrow, _⟩ := claims_moved h
  · rwa [hsame]
  · rw [hgrow]
    exact List.mem_append_left _ hc

/-- The log of commits grows only by the commit of a transaction that has its row locked. -/
theorem commits_moved (hi : Inv s) (h : step config s e = some u) :
    u.commits = s.commits ∨
      ∃ p k written stored row, s.processors p = some k ∧ stored.id = k.id ∧
        (s.webhooks k.key).committed = some stored ∧
        stored.row.processingState = .processing ∧ stored.row.leaseToken = some k.token ∧
        (u.webhooks k.key).committed = some ⟨stored.id, row⟩ ∧
        row.processingState = .processed ∧
        u.commits = s.commits ++ [⟨k.id, k.token, written⟩] := by
  obtain ⟨hready, hw, v, hv, hp, hcl, hco, hid, htok⟩ := step_parties h
  cases e <;> simp only [moveParties, guarded_eq_some, Option.some.injEq] at hv
  case processor p event =>
    obtain ⟨k, after, hk, hafter, _, hws, _, hcommits⟩ := processor_step h
    cases event
    case commit acknowledged =>
      obtain ⟨written, hphase, hentry⟩ := commit_of_marked hafter
      obtain ⟨slot, hheld⟩ := hi.keeps p k hk (by simp [hphase, Phase.Locks])
      obtain ⟨k', stored, hk', _, _, hholds⟩ := hi.holder _ _ _ hheld
      rw [hk] at hk'
      cases hk'
      obtain ⟨row, rfl, hstate, _, _⟩ := hholds.marked written hphase
      refine .inr ⟨p, k, written, stored, row, hk, hholds.id, hholds.committed,
        hholds.processing, hholds.lease, ?_, hstate, by rw [hcommits, hentry]⟩
      rw [hws]
      simp [processorEffect, Effect.apply, Row.commit_of_held hheld]
    all_goals exact .inl (by simpa [committedBy] using hcommits)
  case tick ms =>
    subst hv
    exact .inl hco
  all_goals
    obtain ⟨_, rfl⟩ := hv
    exact .inl hco

/-- A stored row was there before, or has just been received. -/
theorem stored_origin (hi : Inv s) (h : step config s e = some u)
    (hs : (u.webhooks key).committed = some stored) :
    (∃ old, (s.webhooks key).committed = some old ∧ old.id = stored.id) ∨
      (stored.id = s.nextId ∧ u.nextId = s.nextId + 1 ∧ (s.webhooks key).committed = none ∧
        ∃ now envelope, e = .receive now envelope ∧ key = envelope.idempotencyKey ∧
          stored.row = WebhookStatements.insert now envelope) := by
  have hmove := committed_moves hi h key
  rw [hs] at hmove
  generalize (s.webhooks key).committed = old at hmove ⊢
  cases hmove with
  | same => exact .inl ⟨stored, rfl, rfl⟩
  | received he hkey hid => exact .inr ⟨rfl, hid, rfl, _, _, he, hkey, rfl⟩
  | claimed => exact .inl ⟨_, rfl, rfl⟩
  | ended => exact .inl ⟨_, rfl, rfl⟩
  | processed => exact .inl ⟨_, rfl, rfl⟩

section Steps

variable (hi : Inv s) (h : step config s e = some u)

include hi h

theorem id_lt_step (hs : (u.webhooks key).committed = some stored) : stored.id < u.nextId := by
  have hgrow := (counters_grow h).1
  obtain ⟨old, hold, hid⟩ | ⟨hid, hnext, _⟩ := stored_origin hi h hs
  · have := hi.id_lt key old hold
    omega
  · omega

theorem id_inj_step {other : String} {stored' : StoredWebhook}
    (hs : (u.webhooks key).committed = some stored)
    (hs' : (u.webhooks other).committed = some stored') (hid : stored.id = stored'.id) :
    key = other := by
  obtain ⟨old, hold, ho⟩ | ⟨hnew, hnext, hfree, now, envelope, he, hkey, hrow⟩ :=
    stored_origin hi h hs
  · obtain ⟨old', hold', ho'⟩ | ⟨hnew', hrest⟩ := stored_origin hi h hs'
    · exact hi.id_inj key other old old' hold hold' (by omega)
    · have := hi.id_lt key old hold
      omega
  · obtain ⟨old', hold', ho'⟩ | ⟨hnew', hnext', hfree', now', envelope', he', hkey', hrow'⟩ :=
      stored_origin hi h hs'
    · have := hi.id_lt other old' hold'
      omega
    · rw [he] at he'
      cases he'
      rw [hkey, hkey']

theorem claim_lt_step {c : Claim} (hc : c ∈ u.claims) : c.id < u.nextId ∧ c.token < u.nextToken := by
  obtain ⟨hid, htoken⟩ := counters_grow h
  obtain hsame | ⟨key, now, stored, row, hs, hrow, hnew, hgrow, hnext⟩ := claims_moved h
  · rw [hsame] at hc
    have := hi.claim_lt c hc
    omega
  · rw [hgrow, List.mem_append, List.mem_singleton] at hc
    rcases hc with hc | rfl
    · have := hi.claim_lt c hc
      omega
    · have := hi.id_lt key stored hs
      constructor
      · exact this.trans_le hid
      · simp only
        omega

theorem token_inj_step {c d : Claim} (hc : c ∈ u.claims) (hd : d ∈ u.claims)
    (hcd : c.token = d.token) : c = d := by
  obtain hsame | ⟨key, now, stored, row, hs, hrow, hnew, hgrow, hnext⟩ := claims_moved h
  · rw [hsame] at hc hd
    exact hi.token_inj c hc d hd hcd
  · rw [hgrow, List.mem_append, List.mem_singleton] at hc hd
    rcases hc with hc | rfl
    · rcases hd with hd | rfl
      · exact hi.token_inj c hc d hd hcd
      · have := (hi.claim_lt c hc).2
        simp only at hcd
        omega
    · rcases hd with hd | rfl
      · have := (hi.claim_lt d hd).2
        simp only at hcd
        omega
      · rfl

/-- A row with a lease was there with it before, or has just been claimed. -/
theorem leased_row (hs : (u.webhooks key).committed = some stored)
    (htoken : stored.row.leaseToken = some token) :
    (s.webhooks key).committed = some stored ∨
      (token = s.nextToken ∧ u.claims = s.claims ++ [⟨stored.id, s.nextToken⟩]) := by
  have hmove := committed_moves hi h key
  rw [hs] at hmove
  generalize (s.webhooks key).committed = old at hmove ⊢
  cases hmove with
  | same => exact .inl rfl
  | received => cases htoken
  | claimed hrow hgrow =>
    obtain ⟨_, _, _, _, hlease, _⟩ := claimForProcessing_some hrow
    simp only [hlease, Option.some.injEq] at htoken
    exact .inr ⟨htoken.symm, hgrow⟩
  | ended _ _ _ hnone =>
    rw [hnone] at htoken
    cases htoken
  | processed _ _ _ _ _ _ _ hnone =>
    rw [hnone] at htoken
    cases htoken

theorem lease_step (hs : (u.webhooks key).committed = some stored)
    (htoken : stored.row.leaseToken = some token) : ⟨stored.id, token⟩ ∈ u.claims := by
  rcases leased_row hi h hs htoken with hold | ⟨rfl, hgrow⟩
  · exact claims_grow h (hi.lease key stored token hold htoken)
  · rw [hgrow]
    simp

theorem processor_claim_step (hk : u.processors p = some k) : ⟨k.id, k.token⟩ ∈ u.claims := by
  by_cases hown : ∃ event, e = .processor p event
  · obtain ⟨event, rfl⟩ := hown
    obtain ⟨k', after, hk', hafter, hprocs, _⟩ := processor_step h
    rw [hprocs, Function.update_self] at hk
    subst hk
    obtain ⟨_, hid, htoken⟩ := next_identity hafter
    rw [hid, htoken]
    exact claims_grow h (hi.processor p k' hk')
  · obtain hsame | ⟨key, now, rfl, hnone, hclaimed⟩ :=
      other_processor h fun event he => hown ⟨event, he⟩
    · rw [hsame] at hk
      exact claims_grow h (hi.processor p k hk)
    · rw [hclaimed] at hk
      obtain ⟨_, hv, v, hv', _, hcl, _⟩ := step_parties h
      simp only [moveParties, guarded_eq_some] at hv'
      obtain ⟨_, rfl⟩ := hv'
      rw [hcl]
      simp [hk]

omit h in
theorem attempts_of_new_id : attemptsOf s s.nextId = 0 := by
  simp only [attemptsOf, List.length_eq_zero_iff, List.filter_eq_nil_iff, decide_eq_true_eq]
  intro c hc
  have := (hi.claim_lt c hc).1
  omega

/-- The attempt count of a row stays, unless the row is claimed. -/
theorem attempts_kept (hs : (u.webhooks key).committed = some stored)
    (hclaims : u.claims ≠ s.claims ++ [⟨stored.id, s.nextToken⟩]) :
    stored.row.attemptCount = attemptsOf s stored.id := by
  have hmove := committed_moves hi h key
  rw [hs] at hmove
  generalize ho : (s.webhooks key).committed = old at hmove
  cases hmove with
  | same => exact hi.attempts key stored ho
  | received => exact (attempts_of_new_id hi).symm
  | claimed _ hgrow => exact absurd hgrow hclaims
  | ended _ _ hattempt => exact hattempt.trans (hi.attempts key _ ho)
  | processed _ _ _ _ _ _ hattempt => exact hattempt.trans (hi.attempts key _ ho)

theorem attempts_step (hs : (u.webhooks key).committed = some stored) :
    stored.row.attemptCount = attemptsOf u stored.id := by
  obtain hsame | ⟨other, now, claimed, row, hc, hrow, hafter, hgrow, hnext⟩ := claims_moved h
  · have hkept := attempts_kept hi h hs (by simp [hsame])
    simpa [attemptsOf, hsame] using hkept
  · by_cases hid : stored.id = claimed.id
    · have hkey := id_inj_step hi h hs hafter hid
      subst hkey
      rw [hs] at hafter
      cases hafter
      obtain ⟨_, _, _, hattempt, _⟩ := claimForProcessing_some hrow
      have hbefore := hi.attempts key claimed hc
      simp only [attemptsOf, hgrow, List.filter_append, List.length_append] at hbefore ⊢
      simp
      omega
    · have hkept := attempts_kept hi h hs (by simp [hgrow, Ne.symm hid])
      simpa [attemptsOf, hgrow, List.filter_append, Ne.symm hid] using hkept

theorem attempts_le_step (id : ℕ) : attemptsOf u id ≤ webhookMaxAttempts := by
  have hbefore := hi.attempts_le id
  obtain hsame | ⟨key, now, stored, row, hs, hrow, hafter, hgrow, hnext⟩ := claims_moved h
  · simpa [attemptsOf, hsame] using hbefore
  · by_cases hid : stored.id = id
    · subst hid
      obtain ⟨_, hlt, _⟩ := claimForProcessing_some hrow
      have hcount := hi.attempts key stored hs
      simp [attemptsOf, hgrow, List.filter_append] at hcount ⊢
      omega
    · simpa [attemptsOf, hgrow, List.filter_append, hid] using hbefore

/-- A row under the id of a commit is PROCESSED, before the step and after it. -/
theorem commit_step {c : Commit} (hc : c ∈ u.commits) : ⟨c.id, c.token⟩ ∈ u.claims ∧
    ∀ key stored, (u.webhooks key).committed = some stored → stored.id = c.id →
      stored.row.processingState = .processed := by
  have hold : c ∈ s.commits → ⟨c.id, c.token⟩ ∈ u.claims ∧
      ∀ key stored, (u.webhooks key).committed = some stored → stored.id = c.id →
        stored.row.processingState = .processed := by
    intro hc
    obtain ⟨hclaim, hstate⟩ := hi.commit c hc
    refine ⟨claims_grow h hclaim, fun key stored hs hid => ?_⟩
    have hmove := committed_moves hi h key
    rw [hs] at hmove
    generalize ho : (s.webhooks key).committed = old at hmove
    cases hmove with
    | same => exact hstate key stored ho hid
    | received =>
      have := (hi.claim_lt _ hclaim).1
      simp only at hid this
      omega
    | claimed hrow =>
      have hprocessed := hstate key _ ho hid
      obtain ⟨hwaiting, _⟩ := claimForProcessing_some hrow
      rw [hprocessed] at hwaiting
      simp at hwaiting
    | ended hprocessing =>
      have hprocessed := hstate key _ ho hid
      rw [hprocessing] at hprocessed
      cases hprocessed
    | processed _ _ _ _ _ hnew => exact hnew
  obtain hsame | ⟨p, k, written, stored, row, hk, hid, hs, _, _, hafter, hstate, hgrow⟩ :=
    commits_moved hi h
  · rw [hsame] at hc
    exact hold hc
  · rw [hgrow, List.mem_append, List.mem_singleton] at hc
    rcases hc with hc | rfl
    · exact hold hc
    · refine ⟨claims_grow h (hi.processor p k hk), fun key other ho hid' => ?_⟩
      have hkey : key = k.key := by
        refine id_inj_step hi h ho hafter ?_
        simp only at hid' ⊢
        omega
      rw [hkey, hafter] at ho
      cases ho
      exact hstate

theorem once_step : (u.commits.map Commit.id).Nodup := by
  obtain hsame | ⟨p, k, written, stored, row, hk, hid, hs, hprocessing, _, _, _, hgrow⟩ :=
    commits_moved hi h
  · rw [hsame]
    exact hi.once
  · have hnew : ∀ c ∈ s.commits, c.id ≠ k.id := by
      intro c hc hsame
      have hprocessed := (hi.commit c hc).2 k.key stored hs (by omega)
      rw [hprocessing] at hprocessed
      cases hprocessed
    rw [hgrow, List.map_append, List.nodup_append]
    refine ⟨hi.once, by simp, ?_⟩
    intro a ha b hb
    obtain ⟨c, hc, rfl⟩ := List.mem_map.mp ha
    simp only [List.map_cons, List.map_nil, List.mem_singleton] at hb
    rw [hb]
    exact hnew c hc

theorem processed_step (hs : (u.webhooks key).committed = some stored)
    (hstate : stored.row.processingState = .processed) : ∃ c ∈ u.commits, c.id = stored.id := by
  have hgrow : ∀ c ∈ s.commits, c ∈ u.commits := by
    intro c hc
    obtain hsame | ⟨_, _, _, _, _, _, _, _, _, _, _, _, hgrow⟩ := commits_moved hi h
    · rwa [hsame]
    · rw [hgrow]
      exact List.mem_append_left _ hc
  have hmove := committed_moves hi h key
  rw [hs] at hmove
  generalize ho : (s.webhooks key).committed = old at hmove
  cases hmove with
  | same =>
    obtain ⟨c, hc, hid⟩ := hi.processed key stored ho hstate
    exact ⟨c, hgrow c hc, hid⟩
  | received => cases hstate
  | claimed hrow =>
    obtain ⟨_, _, hnew, _⟩ := claimForProcessing_some hrow
    simp only [hnew, reduceCtorEq] at hstate
  | ended _ hnew =>
    simp only at hstate
    rcases hnew with hnew | hnew <;> simp [hstate] at hnew
  | processed _ _ hid _ _ _ _ _ hcommits =>
    rw [hcommits]
    exact ⟨_, List.mem_append_right _ List.mem_cons_self, hid.symm⟩

end Steps

/-- A transaction that holds its lock goes on to hold it until it ends. -/
theorem locked_phase_stays {event : ProcessorEvent} {after : Option Processor}
    (hl : k.phase.Locks = true) (h : processorNext config s p k event = some after)
    (hend : event ≠ .throws ∧ event ≠ .crash ∧ ∀ acknowledged, event ≠ .commit acknowledged) :
    ∃ next, after = some next ∧ next.phase.Locks = true := by
  obtain ⟨hthrows, hcrash, hcommit⟩ := hend
  cases event <;> simp only [processorNext] at h
  case begin now =>
    split at h
    · rename_i hphase
      simp [hphase, Phase.Locks] at hl
    · cases h
  case lock =>
    split at h
    · rename_i now hphase
      simp [hphase, Phase.Locks] at hl
    · cases h
  case store inserted =>
    split at h
    · cases h
      exact ⟨_, rfl, rfl⟩
    · cases h
  case enqueue =>
    split at h
    · obtain ⟨writes, _, rfl⟩ := Option.map_eq_some_iff.mp h
      exact ⟨_, rfl, rfl⟩
    · cases h
  case update =>
    split at h
    · obtain ⟨writes, _, rfl⟩ := Option.map_eq_some_iff.mp h
      exact ⟨_, rfl, rfl⟩
    · cases h
  case mark =>
    split at h
    · obtain ⟨_, rfl⟩ := guarded_eq_some.mp h
      exact ⟨_, rfl, rfl⟩
    · cases h
  case commit acknowledged => exact absurd rfl (hcommit acknowledged)
  case throws => exact absurd rfl hthrows
  case markFailed now error =>
    obtain ⟨⟨hphase, _⟩, _⟩ := guarded_eq_some.mp h
    simp [hphase, Phase.Locks] at hl
  case crash => exact absurd rfl hcrash

section Locks

variable {event : ProcessorEvent} {after : Option Processor} {slot : Slot}

/-- A processor that does not go on with a lock holds no row. -/
theorem released_row (hi : Inv s) (h : step config s (.processor q event) = some u)
    (hk : s.processors q = some k) (hafter : processorNext config s q k event = some after)
    (hfree : ∀ next, after = some next → next.phase.Locks = false) :
    (u.webhooks key).held ≠ some (q, slot) := by
  intro hheld
  have hmove := webhook_moves h key
  generalize u.webhooks key = row at hmove hheld
  cases hmove with
  | same hsame =>
    obtain ⟨k', stored, hk', _, hlocks, _⟩ := hi.holder _ _ _ hheld
    rw [hk] at hk'
    cases hk'
    obtain ⟨next, rfl, hnext⟩ := locked_phase_stays hlocks hafter (hsame q slot hheld event rfl)
    rw [hfree next rfl] at hnext
    cases hnext
  | @locked p now k' stored he hk' hkey hphase _ hview hown =>
    cases he
    rw [hk] at hk'
    cases hk'
    have hsome : (lockProcessingLease now k.token ((s.webhooks k.key).view q)).isSome := by
      simp [hkey, hview, lockProcessingLease, onStored, hown]
    simp only [processorNext, hphase, hsome, if_true, Option.some.injEq] at hafter
    have := hfree _ hafter.symm
    cases this
  | marked he hk' hkey hphase _ hview hrow =>
    cases he
    rw [hk] at hk'
    cases hk'
    simp only [processorNext, hphase] at hafter
    obtain ⟨_, rfl⟩ := guarded_eq_some.mp hafter
    have := hfree _ rfl
    cases this
  | committed => cases hheld
  | aborted => cases hheld
  | received => cases hheld
  | claimed => cases hheld
  | recovered => cases hheld
  | deleted => cases hheld
  | failed => cases hheld

theorem no_row_unless_locked (hi : Inv s) (hk : s.processors q = some k)
    (hfree : k.phase.Locks = false) : (s.webhooks key).held ≠ some (q, slot) := by
  intro hheld
  obtain ⟨k', stored, hk', _, hlocks, _⟩ := hi.holder _ _ _ hheld
  rw [hk] at hk'
  cases hk'
  rw [hfree] at hlocks
  cases hlocks

/-- What the transaction of a processor holds after a step that keeps or takes its lock. -/
theorem lock_step (hi : Inv s) {next : Processor}
    (h : step config s (.processor q event) = some u) (hk : s.processors q = some k)
    (hafter : processorNext config s q k event = some (some next))
    (hlocks : next.phase.Locks = true) :
    (∃ slot stored, (u.webhooks k.key).held = some (q, slot) ∧
      Holds next (u.webhooks k.key).committed slot stored) ∧
      ∀ key, key ≠ k.key → u.webhooks key = s.webhooks key := by
  obtain ⟨k', after, hk', hafter', _, hws, _⟩ := processor_step h
  rw [hk] at hk'
  cases hk'
  rw [hafter] at hafter'
  cases hafter'
  obtain ⟨_, hid, htoken⟩ := next_identity hafter
  have hmove := lock_moves hafter hlocks
  generalize hphase' : next.phase = phase at hmove
  cases hmove with
  | @lock now stored hphase hview hown =>
    have hnone : ∀ slot, (s.webhooks k.key).held ≠ some (q, slot) :=
      fun slot => no_row_unless_locked hi hk (by simp [hphase, Phase.Locks])
    have hcommitted : (s.webhooks k.key).committed = some stored := by
      rwa [Row.view_of_not_held hnone] at hview
    have hsame : (⟨stored.id, k.token⟩ : Claim) = ⟨k.id, k.token⟩ :=
      hi.token_inj _ (hi.lease _ _ _ hcommitted hown.2.1) _ (hi.processor q k hk) rfl
    have hrow : u.webhooks k.key = (s.webhooks k.key).write q (some stored) := by
      rw [hws]
      simp [processorEffect, hphase, Effect.apply, Row.updateIn, hview, lockProcessingLease,
        onStored, hown]
    refine ⟨⟨some stored, stored, by simp [hrow], ?_⟩, fun key hne => ?_⟩
    · exact
        { committed := by simpa [hrow] using hcommitted
          id := by rw [hid]; exact congrArg Claim.id hsame
          processing := hown.1
          lease := by rw [htoken]; exact hown.2.1
          unmarked := fun _ => rfl
          marked := fun written hw => by simp [hphase'] at hw }
    · rw [hws]
      simp [processorEffect, hphase, Effect.apply, hne]
  | write hl hl' hunmarked hunmarked' heffect =>
    have hrows : u.webhooks = s.webhooks := by rw [hws, heffect, Effect.apply]
    obtain ⟨slot, hheld⟩ := hi.keeps q k hk hl
    obtain ⟨k', stored, hk', _, _, hholds⟩ := hi.holder _ _ _ hheld
    rw [hk] at hk'
    cases hk'
    rw [hrows]
    refine ⟨⟨slot, stored, hheld, ?_⟩, fun key _ => rfl⟩
    exact
      { committed := hholds.committed
        id := by rw [hid, hholds.id]
        processing := hholds.processing
        lease := by rw [htoken, hholds.lease]
        unmarked := fun _ => hholds.unmarked hunmarked
        marked := fun written hw => absurd (hphase'.symm.trans hw) (hunmarked' written) }
  | @mark now written stored row hphase hview hrow =>
    obtain ⟨slot, hheld⟩ := hi.keeps q k hk (by simp [hphase, Phase.Locks])
    obtain ⟨k', stored', hk', _, _, hholds⟩ := hi.holder _ _ _ hheld
    rw [hk] at hk'
    cases hk'
    obtain rfl := hholds.unmarked (by simp [hphase])
    rw [Row.view_of_held hheld] at hview
    cases hview
    obtain ⟨_, hstate, hattempt, hlease, _⟩ := markProcessed_some hrow
    have hnew : u.webhooks k.key = (s.webhooks k.key).write q (some ⟨stored.id, row⟩) := by
      rw [hws]
      simp [processorEffect, hphase, Effect.apply, Row.updateIn, Row.view_of_held hheld, onStored,
        hrow]
    refine ⟨⟨some ⟨stored.id, row⟩, stored, by simp [hnew], ?_⟩, fun key hne => ?_⟩
    · exact
        { committed := by simpa [hnew] using hholds.committed
          id := by rw [hid, hholds.id]
          processing := hholds.processing
          lease := by rw [htoken, hholds.lease]
          unmarked := fun hw => absurd hphase' (hw written)
          marked := fun _ _ => ⟨row, rfl, hstate, hattempt, hlease⟩ }
    · rw [hws]
      simp [processorEffect, hphase, Effect.apply, hne]

theorem holder_step (hi : Inv s) (h : step config s e = some u)
    (hheld : (u.webhooks key).held = some (q, slot)) : ∃ k stored,
      u.processors q = some k ∧ k.key = key ∧ k.phase.Locks = true ∧
        Holds k (u.webhooks key).committed slot stored := by
  by_cases hown : ∃ event, e = .processor q event
  · obtain ⟨event, rfl⟩ := hown
    obtain ⟨k, after, hk, hafter, hprocs, _⟩ := processor_step h
    by_cases hlocks : ∃ next, after = some next ∧ next.phase.Locks = true
    · obtain ⟨next, rfl, hnext⟩ := hlocks
      obtain ⟨⟨slot', stored, hheld', hholds⟩, hothers⟩ := lock_step hi h hk hafter hnext
      obtain ⟨hkey, _, _⟩ := next_identity hafter
      by_cases hsame : key = k.key
      · subst hsame
        rw [hheld] at hheld'
        cases hheld'
        exact ⟨next, stored, by simp [hprocs], hkey, hnext, hholds⟩
      · rw [hothers key hsame] at hheld
        obtain ⟨k', _, hk', hkey', _⟩ := hi.holder _ _ _ hheld
        rw [hk] at hk'
        cases hk'
        exact absurd hkey'.symm hsame
    · refine absurd hheld (released_row hi h hk hafter fun next hnext => ?_)
      by_contra hl
      exact hlocks ⟨next, hnext, by simpa using hl⟩
  · have hother : ∀ event, e ≠ .processor q event := fun event he => hown ⟨event, he⟩
    have hmove := webhook_moves h key
    generalize u.webhooks key = row at hmove hheld ⊢
    cases hmove with
    | same =>
      obtain ⟨k, stored, hk, hkey, hlocks, hholds⟩ := hi.holder _ _ _ hheld
      refine ⟨k, stored, ?_, hkey, hlocks, hholds⟩
      obtain hsame | ⟨_, _, _, hnone, _⟩ := other_processor h hother
      · rw [hsame, hk]
      · rw [hk] at hnone
        cases hnone
    | locked he =>
      cases hheld
      exact absurd he (hother _)
    | marked he =>
      cases hheld
      exact absurd he (hother _)
    | committed => cases hheld
    | aborted => cases hheld
    | received => cases hheld
    | claimed => cases hheld
    | recovered => cases hheld
    | deleted => cases hheld
    | failed => cases hheld

theorem keeps_step (hi : Inv s) (h : step config s e = some u) (hk : u.processors q = some k)
    (hlocks : k.phase.Locks = true) : ∃ slot, (u.webhooks k.key).held = some (q, slot) := by
  by_cases hown : ∃ event, e = .processor q event
  · obtain ⟨event, rfl⟩ := hown
    obtain ⟨k', after, hk', hafter, hprocs, _⟩ := processor_step h
    rw [hprocs, Function.update_self] at hk
    subst hk
    obtain ⟨⟨slot, stored, hheld, _⟩, _⟩ := lock_step hi h hk' hafter hlocks
    rw [(next_identity hafter).1]
    exact ⟨slot, hheld⟩
  · have hother : ∀ event, e ≠ .processor q event := fun event he => hown ⟨event, he⟩
    obtain hsame | ⟨key, now, _, _, hclaimed⟩ := other_processor h hother
    · rw [hsame] at hk
      obtain ⟨slot, hheld⟩ := hi.keeps q k hk hlocks
      obtain ⟨hready, hw, _⟩ := step_parties h
      have howner : (webhookEffect config s e).owner ≠ some q := by
        intro ho
        exact hown (effect_owner ho)
      rw [hw, Effect.locked_row_unchanged hready howner hheld]
      exact ⟨slot, hheld⟩
    · rw [hclaimed] at hk
      obtain ⟨_, _, hphase, _⟩ := claimed_processor hk
      simp [hphase, Phase.Locks] at hlocks

end Locks

theorem inv_step (hi : Inv s) (h : step config s e = some u) : Inv u where
  id_lt _ _ := id_lt_step hi h
  id_inj _ _ _ _ := id_inj_step hi h
  claim_lt _ := claim_lt_step hi h
  token_inj _ hc _ hd := token_inj_step hi h hc hd
  lease _ _ _ := lease_step hi h
  processor _ _ := processor_claim_step hi h
  attempts _ _ := attempts_step hi h
  attempts_le := attempts_le_step hi h
  holder _ _ _ := holder_step hi h
  keeps _ _ := keeps_step hi h
  commit _ := commit_step hi h
  once := once_step hi h
  processed _ _ := processed_step hi h

theorem reachable_inv (h : Reachable (system config) s) : Inv s :=
  reachable_invariant (M := system config) (fun _ hs => hs ▸ inv_initial)
    (fun _ _ hi he => inv_step hi (ofStep_enabled he)) h

def lastClaim (s : State) (id : ℕ) : Option Claim := (s.claims.filter fun c => c.id = id).getLast?

/-- The lease of a row, and the commit of an event, are those of the last claim. -/
structure LastClaim (s : State) : Prop where
  lease : ∀ key stored token, (s.webhooks key).committed = some stored →
    stored.row.leaseToken = some token → lastClaim s stored.id = some ⟨stored.id, token⟩
  commit : ∀ c ∈ s.commits, lastClaim s c.id = some ⟨c.id, c.token⟩

theorem last_claim_initial : LastClaim initial := by
  constructor <;> simp [initial]

theorem last_claim_of_claim {c : Claim} (h : u.claims = s.claims ++ [c]) (id : ℕ) :
    lastClaim u id = if c.id = id then some c else lastClaim s id := by
  by_cases hid : c.id = id <;> simp [lastClaim, h, List.filter_append, hid]

theorem last_claim_step (hi : Inv s) (hl : LastClaim s) (h : step config s e = some u) :
    LastClaim u where
  lease key stored token hs htoken := by
    rcases leased_row hi h hs htoken with hold | ⟨rfl, hgrow⟩
    · have hbefore := hl.lease key stored token hold htoken
      obtain hsame | ⟨other, now, claimed, row, hc, hrow, hafter, hgrow, _⟩ := claims_moved h
      · simpa [lastClaim, hsame] using hbefore
      · have hid : claimed.id ≠ stored.id := by
          intro hid
          obtain rfl := hi.id_inj other key claimed stored hc hold hid
          rw [hc] at hold
          cases hold
          rw [hs] at hafter
          obtain ⟨_, _, _, _, hlease, _⟩ := claimForProcessing_some hrow
          have hnew : stored.row.leaseToken = some s.nextToken := by
            rw [Option.some.inj hafter]
            exact hlease
          have hlt := (hi.claim_lt _ (hi.lease _ stored token hc htoken)).2
          rw [htoken, Option.some.injEq] at hnew
          simp only at hlt
          omega
        rw [last_claim_of_claim hgrow, if_neg hid]
        exact hbefore
    · rw [last_claim_of_claim hgrow]
      simp
  commit c hc := by
    have hold : c ∈ s.commits → lastClaim u c.id = some ⟨c.id, c.token⟩ := by
      intro hc
      obtain hsame | ⟨other, now, claimed, row, ho, hrow, hafter, hgrow, _⟩ := claims_moved h
      · simpa [lastClaim, hsame] using hl.commit c hc
      · have hid : claimed.id ≠ c.id := by
          intro hid
          have hprocessed := (hi.commit c hc).2 other claimed ho hid
          obtain ⟨hwaiting, _⟩ := claimForProcessing_some hrow
          rw [hprocessed] at hwaiting
          simp at hwaiting
        rw [last_claim_of_claim hgrow, if_neg hid]
        exact hl.commit c hc
    obtain hsame | ⟨p, k, written, stored, row, hk, hid, hs, hprocessing, hlease, _, _, hgrow⟩ :=
      commits_moved hi h
    · rw [hsame] at hc
      exact hold hc
    · rw [hgrow, List.mem_append, List.mem_singleton] at hc
      rcases hc with hc | rfl
      · exact hold hc
      · have hlast := hl.lease k.key stored k.token hs hlease
        rw [hid] at hlast
        obtain hsame | ⟨other, now, claimed, row', ho, hrow, _, hclaims, _⟩ := claims_moved h
        · simpa [lastClaim, hsame] using hlast
        · have hne : claimed.id ≠ k.id := by
            intro hsame
            obtain rfl := hi.id_inj other k.key claimed stored ho hs (by omega)
            rw [hs] at ho
            cases ho
            obtain ⟨hwaiting, _⟩ := claimForProcessing_some hrow
            rw [hprocessing] at hwaiting
            simp at hwaiting
          rw [last_claim_of_claim hclaims, if_neg hne]
          exact hlast

theorem reachable_last_claim (h : Reachable (system config) s) : LastClaim s :=
  reachable_invariant_with (M := system config) (fun _ => reachable_inv)
    (fun _ hs => hs ▸ last_claim_initial)
    (fun _ _ hi hl he => last_claim_step hi hl (ofStep_enabled he)) h

/-- The token was claimed for the event, whose row no longer carries it: the lease has expired
and been recovered, or the attempt has ended, or a newer claim has replaced it. -/
structure Superseded (s : State) (id token : ℕ) : Prop where
  claimed : ⟨id, token⟩ ∈ s.claims
  replaced : ∀ key stored, (s.webhooks key).committed = some stored → stored.id = id →
    stored.row.leaseToken ≠ some token

theorem superseded_step (hi : Inv s) (hsup : Superseded s id token)
    (h : step config s e = some u) : Superseded u id token where
  claimed := claims_grow h hsup.claimed
  replaced key stored hs hid hlease := by
    rcases leased_row hi h hs hlease with hold | ⟨rfl, _⟩
    · exact hsup.replaced key stored hold hid hlease
    · have hlt := (hi.claim_lt _ hsup.claimed).2
      simp only at hlt
      omega

theorem superseded_commit_step (hi : Inv s) (hsup : Superseded s id token)
    (h : step config s e = some u) {c : Commit} (hc : c ∈ u.commits) (hid : c.id = id)
    (htoken : c.token = token) : c ∈ s.commits := by
  obtain hsame | ⟨p, k, written, stored, row, hk, hkid, hks, _, hlease, _, _, hgrow⟩ :=
    commits_moved hi h
  · rwa [hsame] at hc
  · rw [hgrow, List.mem_append, List.mem_singleton] at hc
    rcases hc with hc | rfl
    · exact hc
    · rw [show k.token = token from htoken] at hlease
      exact absurd hlease (hsup.replaced k.key stored hks (hkid.trans hid))

/-- A superseded attempt adds no commit in any continuation of the run. -/
theorem superseded_commits_nothing {es : List Event} (hs : Reachable (system config) s)
    (h : Execution (system config) s es u) (hsup : Superseded s id token) :
    ∀ c ∈ u.commits, c.id = id → c.token = token → c ∈ s.commits := by
  have hstable : Superseded u id token ∧
      ∀ c ∈ u.commits, c.id = id → c.token = token → c ∈ s.commits := by
    refine stable_along (M := system config)
      (P := fun t => Superseded t id token ∧
        ∀ c ∈ t.commits, c.id = id → c.token = token → c ∈ s.commits) ?_ hs h
      ⟨hsup, fun _ hc _ _ => hc⟩
    rintro t e hr ⟨hsup, hold⟩ he
    have hi := reachable_inv hr
    have hstep := ofStep_enabled he
    refine ⟨superseded_step hi hsup hstep, fun c hc hid htoken => ?_⟩
    exact hold c (superseded_commit_step hi hsup hstep hc hid htoken) hid htoken
  exact hstable.2

/-- The stored event `id` is DEAD, or deleted since, and has no commit. -/
structure DeadForGood (s : State) (id : ℕ) : Prop where
  lt : id < s.nextId
  dead : ∀ key stored, (s.webhooks key).committed = some stored → stored.id = id →
    stored.row.processingState = .dead
  no_commit : ∀ c ∈ s.commits, c.id ≠ id

theorem dead_for_good (hi : Inv s) (hs : (s.webhooks key).committed = some stored)
    (hdead : stored.row.processingState = .dead) : DeadForGood s stored.id where
  lt := hi.id_lt key stored hs
  dead other stored' hs' hid := by
    obtain rfl := hi.id_inj other key stored' stored hs' hs hid
    rw [hs] at hs'
    cases hs'
    exact hdead
  no_commit c hc hid := by
    have hprocessed := (hi.commit c hc).2 key stored hs hid.symm
    rw [hdead] at hprocessed
    cases hprocessed

theorem dead_step (hi : Inv s) (hd : DeadForGood s id) (h : step config s e = some u) :
    DeadForGood u id where
  lt := hd.lt.trans_le (counters_grow h).1
  dead key stored hs hid := by
    have hmove := committed_moves hi h key
    rw [hs] at hmove
    generalize ho : (s.webhooks key).committed = old at hmove
    cases hmove with
    | same => exact hd.dead key stored ho hid
    | received =>
      have := hd.lt
      simp only at hid
      omega
    | claimed hrow =>
      obtain ⟨hwaiting, _⟩ := claimForProcessing_some hrow
      rw [hd.dead key _ ho hid] at hwaiting
      simp at hwaiting
    | ended hprocessing =>
      rw [hd.dead key _ ho hid] at hprocessing
      cases hprocessing
    | processed _ _ _ hprocessing =>
      rw [hd.dead key _ ho hid] at hprocessing
      cases hprocessing
  no_commit c hc hid := by
    obtain hsame | ⟨p, k, written, stored, row, hk, hkid, hks, hprocessing, _, _, _, hgrow⟩ :=
      commits_moved hi h
    · rw [hsame] at hc
      exact hd.no_commit c hc hid
    · rw [hgrow, List.mem_append, List.mem_singleton] at hc
      rcases hc with hc | rfl
      · exact hd.no_commit c hc hid
      · rw [hd.dead k.key stored hks (hkid.trans hid)] at hprocessing
        cases hprocessing

theorem dead_commits_nothing {es : List Event} (hs : Reachable (system config) s)
    (h : Execution (system config) s es u) (hd : DeadForGood s id) : ∀ c ∈ u.commits, c.id ≠ id := by
  have hdead : DeadForGood u id :=
    stable_along (M := system config) (P := fun t => DeadForGood t id)
      (fun _ _ hr hd he => dead_step (reachable_inv hr) hd (ofStep_enabled he)) hs h hd
  exact hdead.no_commit

/-- Every stored event commits its effects at most once, with its PROCESSED state and by its last
attempt; a superseded attempt and a DEAD event commit nothing; five claims are the most. -/
theorem effects_exactly_once {es : List Event} (hs : Reachable (system config) s)
    (h : Execution (system config) s es u) :
    (u.commits.map Commit.id).Nodup ∧
      (∀ key stored, (u.webhooks key).committed = some stored →
        ((∃ c ∈ u.commits, c.id = stored.id) ↔ stored.row.processingState = .processed)) ∧
      (∀ c ∈ u.commits, lastClaim u c.id = some ⟨c.id, c.token⟩) ∧
      (∀ id token, Superseded s id token →
        ∀ c ∈ u.commits, c.id = id → c.token = token → c ∈ s.commits) ∧
      (∀ key stored, (s.webhooks key).committed = some stored →
        stored.row.processingState = .dead → ∀ c ∈ u.commits, c.id ≠ stored.id) ∧
      ∀ id, attemptsOf u id ≤ webhookMaxAttempts := by
  have hu := reachable_inv (hs.extend h)
  refine ⟨hu.once, fun key stored hstored => ⟨?_, hu.processed key stored hstored⟩,
    (reachable_last_claim (hs.extend h)).commit, fun id token => superseded_commits_nothing hs h,
    fun key stored hstored hdead => ?_, hu.attempts_le⟩
  · rintro ⟨c, hc, hid⟩
    exact (hu.commit c hc).2 key stored hstored hid.symm
  · exact dead_commits_nothing hs h (dead_for_good (reachable_inv hs) hstored hdead)

def sessionStatus : WebhookEvents.OpenWAWebhookEnvelope where
  event := "session.status"
  timestamp := .string "2026-08-11T05:00:00.000Z"
  sessionId := "session-1"
  idempotencyKey := "status-1"
  deliveryId := "delivery-1"
  data := .object [("status", .string "ready")]

def statusConfig : Config where
  parsing := ⟨fun _ => none, fun _ => some 1786424400000⟩
  sha256 text := text
  compactEventPayload := true
  compactProcessedWebhookPayload := true
  contactsEnabled := false
  allowedSessionIds := ["session-1"]
  intents := ⟨5000, 60000, 5⟩

/-- The first processor crashes with its transaction open; the second one takes the event over. -/
def takeover : List Event :=
  [.receive 0 sessionStatus, .claim 0 "status-1" 0, .processor 0 (.begin 0), .processor 0 .lock,
    .processor 0 (.store true), .processor 0 .crash, .tick 120001, .recoverExpired "status-1" 120001,
    .claim 1 "status-1" 120001, .processor 1 (.begin 120001), .processor 1 .lock,
    .processor 1 (.store true), .processor 1 .enqueue, .processor 1 .update, .processor 1 .mark,
    .processor 1 (.commit true)]

theorem takeover_commits_once :
    (runTrace (system statusConfig) initial takeover).commits =
        [⟨0, 1, ⟨true, false, false⟩⟩] ∧
      attemptsOf (runTrace (system statusConfig) initial takeover) 0 ≤ webhookMaxAttempts := by
  have hvalid : ValidTrace (system statusConfig) initial takeover := by decide +kernel
  refine ⟨by decide +kernel, ?_⟩
  exact (effects_exactly_once (reachable_of_initial rfl)
    (valid_trace_execution hvalid)).2.2.2.2.2 0

end WebhookExactlyOnce
