import Mathlib.Data.Prod.Lex
import WaRuntime.FairActions
import WaRuntime.WebhookExactlyOnce

/-! Every stored webhook is settled: it becomes PROCESSED or DEAD.
The clock goes on, an event that can be claimed is claimed some time, a processor that has begun
does something some time, be it a crash, and an expired lease is recovered some time. An attempt
then ends, by its own statements or by the recovery, and the sixth does not begin. -/
namespace WebhookLiveness

open TransitionRuns FairRuns FairActions RowVersions WebhookStatements WebhookProcessing
open WebhookExactlyOnce
open GroupCapabilityStatements (Expired)
open WebhookTransaction (Config)

/-- What is not put off for ever: the clock, the dispatch of an event, the next statement of a
processor and the recovery of an expired lease. -/
inductive Duty where
  | advance
  | dispatch (key : String)
  | attempt (p : ℕ)
  | recover (key : String)
  deriving DecidableEq, Repr

def Claimable (s : State) (key : String) (now : ℕ) : Prop :=
  ∃ stored, (s.webhooks key).committed = some stored ∧ Dispatchable now stored.row

def Recoverable (s : State) (key : String) (now : ℕ) : Prop :=
  ∃ stored, (s.webhooks key).committed = some stored ∧
    stored.row.processingState = .processing ∧ Expired now stored.row.leaseExpiresAt

def duties : Duty → State → Event → Prop
  | .advance, _, .tick ms => 0 < ms
  | .dispatch key, s, .claim _ other now => other = key ∧ Claimable s key now
  | .attempt p, _, .processor q _ => q = p
  | .recover key, s, .recoverExpired other now => other = key ∧ Recoverable s key now
  | _, _, _ => False

def Done (row : WebhookRow) : Prop := row.processingState ∈ [.processed, .dead]

instance (row : WebhookRow) : Decidable (Done row) := inferInstanceAs (Decidable (_ ∈ _))

variable {config : Config} {s u : State} {e : Event} {p q id token : ℕ} {key : String}
  {k : Processor} {stored : StoredWebhook} {row new : WebhookRow}

/-- What a step makes of a row that it changes. -/
inductive RowMoves (old new : WebhookRow) : Prop where
  | claimed : old.attemptCount < webhookMaxAttempts → new.attemptCount = old.attemptCount + 1 →
      new.processingState = .processing →
      (∃ token expires, new.leaseToken = some token ∧ new.leaseExpiresAt = some expires) →
      RowMoves old new
  | returned : old.processingState = .processing → new.processingState = .retry →
      new.attemptCount = old.attemptCount → old.attemptCount < webhookMaxAttempts →
      RowMoves old new
  | settled : Done new → RowMoves old new

theorem ended_moves (hp : row.processingState = .processing)
    (h : (new.processingState = .retry ∧ row.attemptCount < webhookMaxAttempts ∨
      new.processingState = .dead) ∧ new.attemptCount = row.attemptCount) : RowMoves row new := by
  obtain ⟨⟨hretry, hlt⟩ | hdead, hattempt⟩ := h
  · exact .returned hp hretry hattempt hlt
  · exact .settled (by simp [Done, hdead])

theorem claim_moves {now : ℕ} (h : claimForProcessing now token row = some new) :
    RowMoves row new := by
  obtain ⟨_, hlt, hstate, hattempt, htoken, hexpires, _⟩ := claimForProcessing_some h
  exact .claimed hlt hattempt hstate ⟨_, _, htoken, hexpires⟩

theorem recovery_moves {now : ℕ} (h : recoverExpiredProcessing now row = some new) :
    RowMoves row new := by
  obtain ⟨hp, _, hnew, hattempt, _⟩ := recoverExpiredProcessing_some h
  exact ended_moves hp ⟨hnew, hattempt⟩

/-- A stored row stays, is changed by one statement, or is deleted after it was settled. -/
theorem row_next (hi : Inv s) (h : step config s e = some u)
    (hs : (s.webhooks key).committed = some stored) :
    (u.webhooks key).committed = some stored ∨
      (∃ row, (u.webhooks key).committed = some ⟨stored.id, row⟩ ∧ RowMoves stored.row row) ∨
      Done stored.row := by
  have hmove := webhook_moves h key
  generalize u.webhooks key = new at hmove ⊢
  cases hmove with
  | same => exact .inl hs
  | received he hkey hfree hc =>
    rw [hs] at hc
    cases hc
  | claimed he hfree hc hrow =>
    rw [hs] at hc
    cases hc
    exact .inr (.inl ⟨_, rfl, claim_moves hrow⟩)
  | recovered he hfree hc hrow =>
    rw [hs] at hc
    cases hc
    exact .inr (.inl ⟨_, rfl, recovery_moves hrow⟩)
  | deleted he hfree hc hd =>
    rw [hs] at hc
    cases hc
    exact .inr (.inr hd.1)
  | failed he hk hkey hfree hc hrow =>
    rw [hs] at hc
    cases hc
    obtain ⟨hown, hnew, hattempt, _⟩ := markFailed_some hrow
    exact .inr (.inl ⟨_, rfl, ended_moves hown.1 ⟨hnew, hattempt⟩⟩)
  | locked => exact .inl hs
  | marked => exact .inl hs
  | committed he hheld =>
    subst he
    obtain ⟨k, old, hk, _, _, hholds⟩ := hi.holder _ _ _ hheld
    obtain ⟨k', after, hk', hafter, _⟩ := processor_step h
    rw [hk] at hk'
    cases hk'
    obtain ⟨written, hphase, _⟩ := commit_of_marked hafter
    obtain ⟨row, rfl, hstate, _⟩ := hholds.marked written hphase
    have hold := hholds.committed
    rw [hs] at hold
    cases hold
    exact .inr (.inl ⟨row, rfl, .settled (by simp [Done, hstate])⟩)
  | aborted => exact .inl hs

section Scheduling

/-- What the other invariant leaves open about when a row can move. -/
structure Scheduled (s : State) : Prop where
  waiting : ∀ key stored, (s.webhooks key).committed = some stored →
    stored.row.processingState ∈ [.pending, .retry] →
      stored.row.attemptCount < webhookMaxAttempts
  leased : ∀ key stored, (s.webhooks key).committed = some stored →
    stored.row.processingState = .processing → ∃ token expires,
      stored.row.leaseToken = some token ∧ stored.row.leaseExpiresAt = some expires
  tokens : ∀ p q k k', s.processors p = some k → s.processors q = some k' →
    k.token = k'.token → p = q
  idle : ∃ bound, ∀ p, bound ≤ p → s.processors p = none

theorem scheduled_initial : Scheduled initial := by
  constructor <;> simp [initial]

/-- A row after a step has been there, has been made of one, or has just been received. -/
theorem row_before (hi : Inv s) (h : step config s e = some u)
    (hs : (u.webhooks key).committed = some stored) :
    (s.webhooks key).committed = some stored ∨
      (∃ row, RowMoves row stored.row) ∨
      ∃ now envelope, stored.row = WebhookStatements.insert now envelope := by
  obtain ⟨old, hold, hid⟩ | ⟨_, _, _, now, envelope, _, _, hrow⟩ := stored_origin hi h hs
  · obtain hsame | ⟨row, hnew, hmoves⟩ | hdone := row_next hi h hold
    · rw [hs] at hsame
      exact .inl (hold.trans hsame.symm)
    · rw [hs] at hnew
      cases hnew
      exact .inr (.inl ⟨_, hmoves⟩)
    · have hmove := committed_moves hi h key
      rw [hold, hs] at hmove
      cases hmove with
      | same => exact .inl hold
      | claimed hrow => exact .inr (.inl ⟨_, claim_moves hrow⟩)
      | ended hp =>
        rw [Done, hp] at hdone
        simp at hdone
      | processed _ _ _ hp =>
        rw [Done, hp] at hdone
        simp at hdone
  · exact .inr (.inr ⟨now, envelope, hrow⟩)

theorem waiting_step (hi : Inv s) (hsch : Scheduled s) (h : step config s e = some u)
    (hs : (u.webhooks key).committed = some stored)
    (hw : stored.row.processingState ∈ [.pending, .retry]) :
    stored.row.attemptCount < webhookMaxAttempts := by
  obtain hold | ⟨row, hmoves⟩ | ⟨now, envelope, hrow⟩ := row_before hi h hs
  · exact hsch.waiting key stored hold hw
  · cases hmoves with
    | claimed _ _ hstate => simp [hstate] at hw
    | returned _ _ hattempt hlt => rwa [hattempt]
    | settled hdone =>
      rcases List.mem_pair.mp hdone with hstate | hstate <;> simp [hstate] at hw
  · rw [hrow]
    exact (by decide : 0 < webhookMaxAttempts)

theorem leased_step (hi : Inv s) (hsch : Scheduled s) (h : step config s e = some u)
    (hs : (u.webhooks key).committed = some stored)
    (hp : stored.row.processingState = .processing) :
    ∃ token expires, stored.row.leaseToken = some token ∧
      stored.row.leaseExpiresAt = some expires := by
  obtain hold | ⟨row, hmoves⟩ | ⟨now, envelope, hrow⟩ := row_before hi h hs
  · exact hsch.leased key stored hold hp
  · cases hmoves with
    | claimed _ _ _ hlease => exact hlease
    | returned _ hstate =>
      rw [hstate] at hp
      cases hp
    | settled hdone =>
      rw [Done, hp] at hdone
      simp at hdone
  · rw [hrow] at hp
    cases hp

/-- The processor of an old token has been there with it. -/
theorem processor_before (h : step config s e = some u) (hk : u.processors p = some k) :
    (∃ old, s.processors p = some old ∧ old.token = k.token) ∨ k.token = s.nextToken := by
  by_cases hown : ∃ event, e = .processor p event
  · obtain ⟨event, rfl⟩ := hown
    obtain ⟨old, after, hold, hafter, hprocs, _⟩ := processor_step h
    rw [hprocs, Function.update_self] at hk
    subst hk
    exact .inl ⟨old, hold, (next_identity hafter).2.2.symm⟩
  · obtain hsame | ⟨key, now, _, _, hclaimed⟩ := other_processor h fun event he => hown ⟨event, he⟩
    · rw [hsame] at hk
      exact .inl ⟨k, hk, rfl⟩
    · rw [hclaimed] at hk
      exact .inr (claimed_processor hk).2.1

theorem token_lt (hi : Inv s) (hk : s.processors p = some k) : k.token < s.nextToken :=
  (hi.claim_lt _ (hi.processor p k hk)).2

/-- Only the claim by `p` starts the processor `p`. -/
theorem claim_of_new_token (hi : Inv s) (h : step config s e = some u)
    (hk : u.processors p = some k) (ht : k.token = s.nextToken) :
    ∃ key now, e = .claim p key now := by
  by_cases hown : ∃ event, e = .processor p event
  · obtain ⟨event, rfl⟩ := hown
    obtain ⟨old, after, hold, hafter, hprocs, _⟩ := processor_step h
    rw [hprocs, Function.update_self] at hk
    subst hk
    have hlt := token_lt hi hold
    have htoken := (next_identity hafter).2.2
    omega
  · obtain hsame | ⟨key, now, he, _⟩ := other_processor h fun event he => hown ⟨event, he⟩
    · rw [hsame] at hk
      have hlt := token_lt hi hk
      omega
    · exact ⟨key, now, he⟩

theorem tokens_step (hi : Inv s) (hsch : Scheduled s) (h : step config s e = some u)
    {k' : Processor} (hk : u.processors p = some k) (hk' : u.processors q = some k')
    (ht : k.token = k'.token) : p = q := by
  rcases processor_before h hk with ⟨old, hold, htoken⟩ | hnew
  · rcases processor_before h hk' with ⟨old', hold', htoken'⟩ | hnew'
    · exact hsch.tokens p q old old' hold hold' (by omega)
    · have := token_lt hi hold
      omega
  · have hnew' : k'.token = s.nextToken := by omega
    obtain ⟨_, _, he⟩ := claim_of_new_token hi h hk hnew
    obtain ⟨_, _, he'⟩ := claim_of_new_token hi h hk' hnew'
    rw [he] at he'
    cases he'
    rfl

theorem idle_step (hsch : Scheduled s) (h : step config s e = some u) :
    ∃ bound, ∀ p, bound ≤ p → u.processors p = none := by
  obtain ⟨bound, hbound⟩ := hsch.idle
  have hstays : ∀ q, bound ≤ q → (∀ event, e ≠ .processor q event) →
      (∀ key now, e ≠ .claim q key now) → u.processors q = none := by
    intro q hq hevent hclaim
    obtain hsame | ⟨key, now, he, _⟩ := other_processor h hevent
    · rw [hsame, hbound q hq]
    · exact absurd he (hclaim key now)
  cases e with
  | claim p key now =>
    refine ⟨max bound (p + 1), fun q hq => hstays q (by omega) (by simp) fun key now he => ?_⟩
    cases he
    omega
  | processor p event =>
    refine ⟨max bound (p + 1), fun q hq => hstays q (by omega) (fun event he => ?_) (by simp)⟩
    cases he
    omega
  | _ => exact ⟨bound, fun q hq => hstays q hq (by simp) (by simp)⟩

theorem scheduled_step (hi : Inv s) (hsch : Scheduled s) (h : step config s e = some u) :
    Scheduled u where
  waiting _ _ := waiting_step hi hsch h
  leased _ _ := leased_step hi hsch h
  tokens _ _ _ _ := tokens_step hi hsch h
  idle := idle_step hsch h

theorem reachable_scheduled (h : Reachable (system config) s) : Scheduled s :=
  reachable_invariant_with (M := system config) (fun _ => reachable_inv)
    (fun _ hs => hs ▸ scheduled_initial)
    (fun _ _ hi hsch he => scheduled_step hi hsch (ofStep_enabled he)) h

end Scheduling

section Rank

/-- How many of its statements are still before a processor. -/
def phaseRank : Option Phase → ℕ
  | none => 0
  | some .failing => 1
  | some (.marked _) => 2
  | some (.marking _ _) => 3
  | some (.updating _ _) => 4
  | some (.enqueuing _ _) => 5
  | some (.storing _) => 6
  | some (.begun _) => 7
  | some .claimed => 8

/-- Every statement of a processor, and every way out of its transaction, leaves it fewer. -/
theorem next_lowers {event : ProcessorEvent} {after : Option Processor}
    (h : processorNext config s p k event = some after) :
    phaseRank (after.map Processor.phase) < phaseRank (some k.phase) := by
  cases event <;> simp only [processorNext] at h
  case throws =>
    obtain ⟨hphase, rfl⟩ := guarded_eq_some.mp h
    cases hk : k.phase <;> simp_all [phaseRank]
  case markFailed now error =>
    obtain ⟨⟨hphase, _⟩, rfl⟩ := guarded_eq_some.mp h
    simp [hphase, phaseRank]
  case crash =>
    cases h
    cases k.phase <;> simp [phaseRank]
  case lock =>
    split at h
    · rename_i now hphase
      split at h <;> cases h <;> simp [hphase, phaseRank]
    · cases h
  case commit acknowledged =>
    split at h
    · rename_i written hphase
      cases acknowledged <;> cases h <;> simp [hphase, phaseRank]
    · cases h
  case store inserted =>
    split at h
    · rename_i now hphase
      cases h
      simp [hphase, phaseRank]
    · cases h
  case begin now =>
    split at h
    · rename_i hphase
      obtain ⟨_, rfl⟩ := guarded_eq_some.mp h
      simp [hphase, phaseRank]
    · cases h
  case mark =>
    split at h
    · rename_i now written hphase
      obtain ⟨_, rfl⟩ := guarded_eq_some.mp h
      simp [hphase, phaseRank]
    · cases h
  all_goals
    split at h
    · rename_i now written hphase
      obtain ⟨writes, _, rfl⟩ := Option.map_eq_some_iff.mp h
      simp [hphase, phaseRank]
    · cases h

open Classical in
/-- The processor with a token, of which there is at most one. -/
noncomputable def holderOf (s : State) (token : ℕ) : Option (ℕ × Processor) :=
  if h : ∃ x : ℕ × Processor, s.processors x.1 = some x.2 ∧ x.2.token = token then some h.choose
  else none

theorem holder_eq (hsch : Scheduled s) (hk : s.processors p = some k) :
    holderOf s k.token = some (p, k) := by
  have h : ∃ x : ℕ × Processor, s.processors x.1 = some x.2 ∧ x.2.token = k.token :=
    ⟨(p, k), hk, rfl⟩
  rw [holderOf, dif_pos h]
  obtain ⟨hx, htoken⟩ := h.choose_spec
  have hp : h.choose.1 = p := hsch.tokens _ _ _ _ hx hk htoken
  rw [hp, hk] at hx
  exact congrArg some (Prod.ext hp (Option.some.inj hx).symm)

theorem holder_some {x : ℕ × Processor} (h : holderOf s token = some x) :
    s.processors x.1 = some x.2 ∧ x.2.token = token := by
  unfold holderOf at h
  split at h
  · rename_i hex
    cases h
    exact hex.choose_spec
  · cases h

theorem holder_none (h : ∀ p k, s.processors p = some k → k.token ≠ token) :
    holderOf s token = none := by
  unfold holderOf
  rw [dif_neg]
  rintro ⟨x, hx, htoken⟩
  exact h x.1 x.2 hx htoken

/-- A step of the processor with the token brings it nearer to its end. -/
theorem holder_lowers {event : ProcessorEvent} (hi : Inv s) (hsch : Scheduled s)
    (hk : s.processors p = some k) (h : step config s (.processor p event) = some u) :
    phaseRank ((holderOf u k.token).map fun x => x.2.phase) < phaseRank (some k.phase) := by
  obtain ⟨k', after, hk', hafter, hprocs, _⟩ := processor_step h
  rw [hk] at hk'
  cases hk'
  have hlowers := next_lowers hafter
  have hsch' := scheduled_step hi hsch h
  cases after with
  | some next =>
    have hnext : u.processors p = some next := by rw [hprocs, Function.update_self]
    rw [← (next_identity hafter).2.2, holder_eq hsch' hnext]
    exact hlowers
  | none =>
    rw [holder_none]
    · exact hlowers
    · intro q l hl htoken
      by_cases hpq : q = p
      · rw [hpq, hprocs, Function.update_self] at hl
        cases hl
      · rw [hprocs, Function.update_of_ne hpq] at hl
        exact hpq (hsch.tokens q p l k hl hk htoken)

/-- The other steps leave it as it is. -/
theorem holder_kept (hi : Inv s) (hsch : Scheduled s) (h : step config s e = some u)
    (ht : token < s.nextToken)
    (hother : ∀ p k event, s.processors p = some k → k.token = token → e ≠ .processor p event) :
    holderOf u token = holderOf s token := by
  have hsch' := scheduled_step hi hsch h
  cases hs : holderOf s token with
  | some x =>
    obtain ⟨hx, rfl⟩ := holder_some hs
    have hsame : u.processors x.1 = some x.2 := by
      obtain hsame | ⟨_, _, _, hnone, _⟩ :=
        other_processor h fun event => hother x.1 x.2 event hx rfl
      · rw [hsame, hx]
      · rw [hx] at hnone
        cases hnone
    exact holder_eq hsch' hsame
  | none =>
    refine holder_none fun p k hk htoken => ?_
    rcases processor_before h hk with ⟨old, hold, hsame⟩ | hnew
    · have hsome := holder_eq hsch hold
      rw [hsame, htoken, hs] at hsome
      cases hsome
    · omega

/-- The processor that has claimed the row. -/
noncomputable def holder (s : State) (row : WebhookRow) : Option (ℕ × Processor) :=
  if row.processingState = .processing then row.leaseToken.bind (holderOf s) else none

noncomputable def lockedBy (s : State) (row : WebhookRow) : Option ℕ :=
  (holder s row).bind fun x => if x.2.phase.Locks then some x.1 else none

noncomputable def stage (s : State) (row : WebhookRow) : ℕ :=
  if row.processingState = .processing then
    1 + phaseRank ((holder s row).map fun x => x.2.phase)
  else 0

/-- How long the clock has to run until the row can be claimed or recovered. -/
def distance (s : State) (row : WebhookRow) : ℕ :=
  if row.processingState = .processing then row.leaseExpiresAt.getD 0 + 1 - s.clock
  else row.nextAttemptAt - s.clock

noncomputable def rowRank (s : State) (row : WebhookRow) : ℕ ×ₗ ℕ ×ₗ ℕ :=
  toLex (webhookMaxAttempts - row.attemptCount, toLex (stage s row, distance s row))

noncomputable def duty (key : String) (s : State) (row : WebhookRow) : Duty :=
  match lockedBy s row with
  | some p => .attempt p
  | none =>
    if distance s row = 0 then
      if row.processingState = .processing then .recover key else .dispatch key
    else .advance

theorem rank_lt_of_attempts (h : row.attemptCount < new.attemptCount)
    (hmax : row.attemptCount < webhookMaxAttempts) : rowRank u new < rowRank s row := by
  refine Prod.Lex.toLex_lt_toLex.mpr (.inl ?_)
  simp only
  omega

theorem rank_lt_of_stage (ha : new.attemptCount = row.attemptCount)
    (h : stage u new < stage s row) : rowRank u new < rowRank s row := by
  refine Prod.Lex.toLex_lt_toLex.mpr (.inr ⟨by simp only [ha], ?_⟩)
  exact Prod.Lex.toLex_lt_toLex.mpr (.inl h)

theorem rank_lt_of_distance (hstage : stage u row = stage s row)
    (h : distance u row < distance s row) : rowRank u row < rowRank s row := by
  refine Prod.Lex.toLex_lt_toLex.mpr (.inr ⟨rfl, ?_⟩)
  exact Prod.Lex.toLex_lt_toLex.mpr (.inr ⟨hstage, h⟩)

/-- A statement on an open row settles it or lowers its rank. -/
theorem moves_lower (h : RowMoves row new) :
    Done new ∨ (¬ Done new ∧ rowRank u new < rowRank s row) := by
  cases h with
  | claimed hmax hattempt hstate _ =>
    exact .inr ⟨by simp [Done, hstate], rank_lt_of_attempts (by omega) hmax⟩
  | returned hp hstate hattempt _ =>
    refine .inr ⟨by simp [Done, hstate], rank_lt_of_stage hattempt ?_⟩
    simp [stage, hp, hstate]
  | settled hdone => exact .inl hdone

theorem clock_moves (h : step config s e = some u) :
    s.clock ≤ u.clock ∧ ∀ ms, e = .tick ms → u.clock = s.clock + ms := by
  unfold step at h
  split at h
  · obtain ⟨v, hv, rfl⟩ := Option.map_eq_some_iff.mp h
    cases e <;> simp only [moveParties, guarded_eq_some, Option.some.injEq] at hv
    case processor p event =>
      split at hv
      · obtain ⟨after, _, rfl⟩ := Option.map_eq_some_iff.mp hv
        exact ⟨le_rfl, by simp⟩
      · cases hv
    case tick ms =>
      subst hv
      refine ⟨Nat.le_add_right _ _, fun other he => ?_⟩
      cases he
      rfl
    all_goals
      obtain ⟨_, rfl⟩ := hv
      exact ⟨le_rfl, by simp⟩
  · cases h

theorem distance_le (h : s.clock ≤ u.clock) : distance u row ≤ distance s row := by
  unfold distance
  split <;> omega

theorem stage_of_holder (h : holder u row = holder s row) : stage u row = stage s row := by
  unfold stage
  rw [h]

/-- With the same processor at the row only the clock counts. -/
theorem same_holder (hclock : s.clock ≤ u.clock) (h : holder u row = holder s row) :
    rowRank u row < rowRank s row ∨
      (rowRank u row = rowRank s row ∧ duty key u row = duty key s row) := by
  have hstage := stage_of_holder h
  rcases (distance_le hclock : distance u row ≤ distance s row).lt_or_eq with hlt | heq
  · exact .inl (rank_lt_of_distance hstage hlt)
  · refine .inr ⟨?_, ?_⟩
    · simp only [rowRank, hstage, heq]
    · simp only [duty, lockedBy, h, heq]

theorem holder_of_token (hp : row.processingState = .processing)
    (htoken : row.leaseToken = some token) : holder s row = holderOf s token := by
  simp [holder, hp, htoken]

theorem stage_lowers {event : ProcessorEvent} (hi : Inv s) (hsch : Scheduled s)
    (hp : row.processingState = .processing) (hk : s.processors p = some k)
    (htoken : row.leaseToken = some k.token) (h : step config s (.processor p event) = some u) :
    stage u row < stage s row := by
  have hlowers := holder_lowers hi hsch hk h
  simp only [stage, if_pos hp, holder_of_token hp htoken, holder_eq hsch hk, Option.map_some]
  omega

/-- A step that leaves the row as it is: it may belong to the processor of the row. -/
theorem unmoved_row (hi : Inv s) (hsch : Scheduled s) (h : step config s e = some u)
    (hs : (s.webhooks key).committed = some ⟨id, row⟩) :
    rowRank u row < rowRank s row ∨
      (rowRank u row = rowRank s row ∧ duty key u row = duty key s row) := by
  have hclock := (clock_moves h).1
  by_cases hp : row.processingState = .processing
  · obtain ⟨token, expires, htoken, hexpires⟩ := hsch.leased key _ hs hp
    by_cases hown : ∃ p k event, s.processors p = some k ∧ k.token = token ∧ e = .processor p event
    · obtain ⟨p, k, event, hk, rfl, rfl⟩ := hown
      exact .inl (rank_lt_of_stage rfl (stage_lowers hi hsch hp hk htoken h))
    · have ht : token < s.nextToken := (hi.claim_lt _ (hi.lease key _ token hs htoken)).2
      refine same_holder hclock ?_
      rw [holder_of_token hp htoken, holder_of_token hp htoken]
      exact holder_kept hi hsch h ht fun p k event hk hkt he => hown ⟨p, k, event, hk, hkt, he⟩
  · refine same_holder hclock ?_
    simp [holder, hp]

end Rank

section Settling

/-- The event `id` is stored under its key and has not been settled yet. -/
structure Pending (config : Config) (key : String) (id : ℕ) (s : State) : Prop where
  reachable : Reachable (system config) s
  stored : ∃ row, (s.webhooks key).committed = some ⟨id, row⟩ ∧ ¬ Done row

def Settled (key : String) (id : ℕ) (s : State) : Prop :=
  ∃ row, (s.webhooks key).committed = some ⟨id, row⟩ ∧ Done row

noncomputable def slotRank (key : String) (s : State) : ℕ ×ₗ ℕ ×ₗ ℕ :=
  (s.webhooks key).committed.elim (toLex (0, toLex (0, 0))) fun stored => rowRank s stored.row

noncomputable def slotDuty (key : String) (s : State) : Duty :=
  (s.webhooks key).committed.elim .advance fun stored => duty key s stored.row

theorem slot_rank (hs : (s.webhooks key).committed = some ⟨id, row⟩) :
    slotRank key s = rowRank s row := by
  simp [slotRank, hs]

theorem slot_duty (hs : (s.webhooks key).committed = some ⟨id, row⟩) :
    slotDuty key s = duty key s row := by
  simp [slotDuty, hs]

/-- A row that a statement has changed. -/
theorem moved_row (hr : Reachable (system config) u)
    (hs : (s.webhooks key).committed = some ⟨id, row⟩)
    (hu : (u.webhooks key).committed = some ⟨id, new⟩) (h : RowMoves row new) :
    Settled key id u ∨ (Pending config key id u ∧ slotRank key u < slotRank key s) := by
  rcases (moves_lower h : Done new ∨ (¬ Done new ∧ rowRank u new < rowRank s row)) with
    hdone | ⟨hopen, hless⟩
  · exact .inl ⟨new, hu, hdone⟩
  · rw [slot_rank hu, slot_rank hs]
    exact .inr ⟨⟨hr, new, hu, hopen⟩, hless⟩

theorem pending_keeps (hpend : Pending config key id s) (h : step config s e = some u)
    (hr : Reachable (system config) u) :
    Settled key id u ∨ (Pending config key id u ∧ (slotRank key u < slotRank key s ∨
      (slotRank key u = slotRank key s ∧ slotDuty key u = slotDuty key s))) := by
  have hi := reachable_inv hpend.reachable
  have hsch := reachable_scheduled hpend.reachable
  obtain ⟨row, hs, hopen⟩ := hpend.stored
  obtain hsame | ⟨new, hu, hmoves⟩ | hdone := row_next hi h hs
  · rw [slot_rank hsame, slot_rank hs, slot_duty hsame, slot_duty hs]
    exact .inr ⟨⟨hr, row, hsame, hopen⟩, unmoved_row hi hsch h hs⟩
  · exact (moved_row hr hs hu hmoves).imp_right fun hless => ⟨hless.1, .inl hless.2⟩
  · exact absurd hdone hopen

theorem waiting_of_open (hopen : ¬ Done row) (hp : row.processingState ≠ .processing) :
    row.processingState ∈ [.pending, .retry] := by
  cases hstate : row.processingState <;> simp_all [Done]

/-- Without a transaction on it the row is free. -/
theorem row_free (hi : Inv s) (hsch : Scheduled s)
    (hs : (s.webhooks key).committed = some ⟨id, row⟩) (hl : lockedBy s row = none) :
    (s.webhooks key).Free := by
  cases hheld : (s.webhooks key).held with
  | none => exact hheld
  | some x =>
    obtain ⟨k, stored, hk, _, hlocks, hholds⟩ := hi.holder key x.1 x.2 hheld
    have hstored := hholds.committed
    rw [hs] at hstored
    cases hstored
    have hlocked : lockedBy s row = some x.1 := by
      simp [lockedBy, holder_of_token hholds.processing hholds.lease, holder_eq hsch hk, hlocks]
    rw [hl] at hlocked
    cases hlocked

theorem ready_update {f : Slot → Option Slot} (h : (s.webhooks key).Free) :
    (Effect.update f key : Effect ℕ String Slot).Ready s.webhooks := .inl h

/-- The row is due: nobody has it locked and the clock has run far enough. -/
theorem due_possible (hi : Inv s) (hsch : Scheduled s)
    (hs : (s.webhooks key).committed = some ⟨id, row⟩) (hopen : ¬ Done row)
    (hl : lockedBy s row = none) (hd : distance s row = 0) :
    CanTake (system config)
      (duties (if row.processingState = .processing then .recover key else .dispatch key)) s := by
  have hfree := row_free hi hsch hs hl
  split
  · rename_i hp
    obtain ⟨token, expires, htoken, hexpires⟩ := hsch.leased key _ hs hp
    refine ⟨.recoverExpired key s.clock, ?_, rfl, _, hs, hp, expires, hexpires, ?_⟩
    · simp [system, ofStep, step, webhookEffect, ready_update hfree, moveParties, guarded]
    · replace hexpires : row.leaseExpiresAt = some expires := hexpires
      simp only [distance, if_pos hp, hexpires, Option.getD_some] at hd
      omega
  · rename_i hp
    have hw := waiting_of_open hopen hp
    obtain ⟨bound, hidle⟩ := hsch.idle
    refine ⟨.claim bound key s.clock, ?_, rfl, _, hs, hw, hsch.waiting key _ hs hw, ?_⟩
    · simp [system, ofStep, step, webhookEffect, ready_update hfree, moveParties, guarded,
        hidle bound le_rfl]
    · simp only [distance, if_neg hp] at hd
      show row.nextAttemptAt ≤ s.clock
      omega

theorem pending_possible (hpend : Pending config key id s) :
    CanTake (system config) (duties (slotDuty key s)) s := by
  have hi := reachable_inv hpend.reachable
  have hsch := reachable_scheduled hpend.reachable
  obtain ⟨row, hs, hopen⟩ := hpend.stored
  rw [slot_duty hs]
  unfold duty
  split
  · rename_i p hl
    obtain ⟨x, hx, hif⟩ := Option.bind_eq_some_iff.mp hl
    simp only [Option.ite_none_right_eq_some, Option.some.injEq] at hif
    obtain ⟨hlocks, rfl⟩ := hif
    obtain ⟨token, hbind⟩ : ∃ token, holderOf s token = some x := by
      unfold holder at hx
      split at hx
      · obtain ⟨token, _, htoken⟩ := Option.bind_eq_some_iff.mp hx
        exact ⟨token, htoken⟩
      · cases hx
    have hk := (holder_some hbind).1
    refine ⟨.processor x.1 .throws, ?_, rfl⟩
    have hphase : x.2.phase ≠ .failing := by
      intro hf
      rw [hf] at hlocks
      cases hlocks
    simp [system, ofStep, step, webhookEffect, hk, processorEffect, Effect.Ready, moveParties,
      processorNext, guarded, hphase]
  · rename_i hl
    split
    · rename_i hd
      exact due_possible hi hsch hs hopen hl hd
    · refine ⟨.tick 1, ?_, Nat.one_pos⟩
      simp [system, ofStep, step, webhookEffect, Effect.Ready, moveParties]

/-- The processor that has the row locked owns its lease. -/
theorem locked_by_some (h : lockedBy s row = some p) : ∃ k, s.processors p = some k ∧
    row.processingState = .processing ∧ row.leaseToken = some k.token ∧ k.phase.Locks = true := by
  obtain ⟨x, hx, hif⟩ := Option.bind_eq_some_iff.mp h
  simp only [Option.ite_none_right_eq_some, Option.some.injEq] at hif
  obtain ⟨hlocks, rfl⟩ := hif
  unfold holder at hx
  split at hx
  · rename_i hp
    obtain ⟨token, htoken, hholder⟩ := Option.bind_eq_some_iff.mp hx
    obtain ⟨hk, rfl⟩ := holder_some hholder
    exact ⟨x.2, hk, hp, htoken, hlocks⟩
  · cases hx

/-- A statement of its own that finds the row in the state it asks for changes it. -/
theorem updated_row {f : WebhookRow → Option WebhookRow} (h : step config s e = some u)
    (he : webhookEffect config s e = .update (onStored f) key)
    (hs : (s.webhooks key).committed = some ⟨id, row⟩) (hf : f row = some new) :
    (u.webhooks key).committed = some ⟨id, new⟩ := by
  obtain ⟨_, hw, _⟩ := step_parties h
  rw [hw, he]
  simp [Effect.apply, Row.update, hs, onStored, hf]

theorem claim_taken {now : ℕ} (h : step config s (.claim q key now) = some u)
    (hs : (s.webhooks key).committed = some ⟨id, row⟩) (hc : Claimable s key now) :
    ∃ new, (u.webhooks key).committed = some ⟨id, new⟩ ∧ RowMoves row new := by
  obtain ⟨stored, hstored, hd⟩ := hc
  rw [hs] at hstored
  cases hstored
  obtain ⟨new, hnew⟩ : ∃ new, claimForProcessing now s.nextToken row = some new :=
    ⟨_, if_pos hd⟩
  exact ⟨new, updated_row h rfl hs hnew, claim_moves hnew⟩

theorem recovery_taken {now : ℕ} (h : step config s (.recoverExpired key now) = some u)
    (hs : (s.webhooks key).committed = some ⟨id, row⟩) (hc : Recoverable s key now) :
    ∃ new, (u.webhooks key).committed = some ⟨id, new⟩ ∧ RowMoves row new := by
  obtain ⟨stored, hstored, hd⟩ := hc
  rw [hs] at hstored
  cases hstored
  obtain ⟨new, hnew⟩ : ∃ new, recoverExpiredProcessing now row = some new := ⟨_, if_pos hd⟩
  exact ⟨new, updated_row h rfl hs hnew, recovery_moves hnew⟩

/-- The clock brings a row nearer that waits for it. -/
theorem tick_lowers {ms : ℕ} (hi : Inv s) (hsch : Scheduled s)
    (h : step config s (.tick ms) = some u) (hs : (s.webhooks key).committed = some ⟨id, row⟩)
    (hms : 0 < ms) (hd : distance s row ≠ 0) : rowRank u row < rowRank s row := by
  have hclock := (clock_moves h).2 ms rfl
  have hlt : distance u row < distance s row := by
    unfold distance at hd ⊢
    split at hd <;> rename_i hp <;> simp only [hp, if_true, if_false] <;> omega
  rcases unmoved_row hi hsch h hs with hless | ⟨heq, _⟩
  · exact hless
  · simp only [rowRank, EmbeddingLike.apply_eq_iff_eq, Prod.mk.injEq] at heq
    omega

theorem pending_helps (hpend : Pending config key id s) (h : step config s e = some u)
    (hr : Reachable (system config) u) (hd : duties (slotDuty key s) s e) :
    Settled key id u ∨ (Pending config key id u ∧ slotRank key u < slotRank key s) := by
  have hi := reachable_inv hpend.reachable
  have hsch := reachable_scheduled hpend.reachable
  obtain ⟨row, hs, hopen⟩ := hpend.stored
  rw [slot_duty hs] at hd
  have hnext : (rowRank u row < rowRank s row) ∨
      (∃ new, (u.webhooks key).committed = some ⟨id, new⟩ ∧ RowMoves row new) := by
    unfold duty at hd
    split at hd
    · rename_i p hl
      obtain ⟨k, hk, hp, htoken, _⟩ := locked_by_some hl
      cases e <;> simp only [duties] at hd
      subst hd
      exact .inl (rank_lt_of_stage rfl (stage_lowers hi hsch hp hk htoken h))
    · split at hd
      · split at hd
        · cases e <;> simp only [duties] at hd
          obtain ⟨rfl, hc⟩ := hd
          exact .inr (recovery_taken h hs hc)
        · cases e <;> simp only [duties] at hd
          obtain ⟨rfl, hc⟩ := hd
          exact .inr (claim_taken h hs hc)
      · rename_i hdistance
        cases e <;> simp only [duties] at hd
        exact .inl (tick_lowers hi hsch h hs hd hdistance)
  rcases hnext with hless | ⟨new, hu, hmoves⟩
  · obtain hsame | ⟨new, hu, hmoves⟩ | hdone := row_next hi h hs
    · rw [slot_rank hsame, slot_rank hs]
      exact .inr ⟨⟨hr, row, hsame, hopen⟩, hless⟩
    · exact moved_row hr hs hu hmoves
    · exact absurd hdone hopen
  · exact moved_row hr hs hu hmoves

theorem webhook_progress (config : Config) (key : String) (id : ℕ) :
    Progress (system config) duties (Settled key id) (Pending config key id) (slotRank key)
      (slotDuty key) where
  possible _ := pending_possible
  helps _ _ hpend he := pending_helps hpend (ofStep_enabled he) (hpend.reachable.step he)
  keeps _ _ hpend he := pending_keeps hpend (ofStep_enabled he) (hpend.reachable.step he)

/-- What a settled event has come to at the instant `m` of a run: its effects are committed once,
or it is dead and nothing of it is ever committed. -/
def Accounted (path : Path (system config)) (key : String) (id m : ℕ) : Prop :=
  ∃ row, ((path.state m).webhooks key).committed = some ⟨id, row⟩ ∧
    ((row.processingState = .processed ∧ ∃! c, c ∈ (path.state m).commits ∧ c.id = id) ∨
      (row.processingState = .dead ∧
        ∀ later, m ≤ later → ∀ c ∈ (path.state later).commits, c.id ≠ id))

theorem settled_accounted (path : Path (system config)) {m : ℕ}
    (h : Settled key id (path.state m)) : Accounted path key id m := by
  have hr := state_reachable path m
  have hi := reachable_inv hr
  obtain ⟨row, hs, hdone⟩ := h
  refine ⟨row, hs, ?_⟩
  rcases List.mem_pair.mp hdone with hstate | hstate
  · obtain ⟨c, hc, hid⟩ := hi.processed key _ hs hstate
    refine .inl ⟨hstate, c, ⟨hc, hid⟩, fun d hd => ?_⟩
    exact List.inj_on_of_nodup_map hi.once hd.1 hc (hd.2.trans hid.symm)
  · refine .inr ⟨hstate, fun later hlater => ?_⟩
    have hdead : DeadForGood (path.state m) id := dead_for_good hi hs hstate
    have hstays : DeadForGood (path.state later) id :=
      stays path (fun s e hr hd he => dead_step (reachable_inv hr) hd (ofStep_enabled he)) hdead
        hlater
    exact hstays.no_commit

/-- In every fair run each stored event is settled some time: its effects are committed exactly
once, or it is DEAD and has none. -/
theorem stored_webhook_settles {path : Path (system config)} (hfair : Fair path duties) {n : ℕ}
    (hs : ((path.state n).webhooks key).committed = some stored) :
    ∃ m, n ≤ m ∧ Accounted path key stored.id m := by
  by_cases hdone : Done stored.row
  · exact ⟨n, le_rfl, settled_accounted path ⟨stored.row, hs, hdone⟩⟩
  · have hpend : Pending config key stored.id (path.state n) :=
      ⟨state_reachable path n, stored.row, hs, hdone⟩
    obtain ⟨m, hnm, hsettled⟩ := (webhook_progress config key stored.id).reaches hfair hpend
    exact ⟨m, hnm, settled_accounted path hsettled⟩

end Settling

section Witness

/-- A processor that nobody starts stays away. -/
theorem unclaimed_idle {es : List Event} (h : Execution (system config) s es u)
    (hp : s.processors p = none) (hclaim : ∀ key now, Event.claim p key now ∉ es) :
    u.processors p = none := by
  induction h with
  | refl => exact hp
  | @step es t e _ he ih =>
    have ht := ih fun key now hmem => hclaim key now (List.mem_append_left _ hmem)
    have hstep := ofStep_enabled he
    have hevent : ∀ event, e ≠ .processor p event := by
      rintro event rfl
      obtain ⟨k, _, hk, _⟩ := processor_step hstep
      rw [ht] at hk
      cases hk
    obtain hsame | ⟨key, now, rfl, _⟩ := other_processor hstep hevent
    · exact hsame.trans ht
    · exact absurd (List.mem_append_right _ (List.mem_singleton_self _)) (hclaim key now)

theorem ticks_only (config : Config) (s : State) (n : ℕ) :
    ((system config).next · (.tick 1))^[n] s = { s with clock := s.clock + n } := by
  induction n with
  | zero => rfl
  | succ n ih =>
    rw [Function.iterate_succ_apply', ih]
    rfl

/-- Nothing is left to do but to wait. -/
theorem rest_only_waits (hrow : ∀ key stored, (s.webhooks key).committed = some stored →
    Done stored.row) (hidle : ∀ p, s.processors p = none) (d : Duty)
    (h : CanTake (system config) (duties d) s) : duties d s (.tick 1) := by
  obtain ⟨e, he, hd⟩ := h
  cases d <;> cases e <;> simp only [duties] at hd ⊢
  case advance.tick => exact Nat.one_pos
  case dispatch.claim =>
    obtain ⟨_, stored, hs, hwaiting, _⟩ := hd
    rcases List.mem_pair.mp (hrow _ stored hs) with hstate | hstate <;> simp [hstate] at hwaiting
  case attempt.processor =>
    obtain ⟨k, _, hk, _⟩ := processor_step (ofStep_enabled he)
    rw [hidle] at hk
    cases hk
  case recover.recoverExpired =>
    obtain ⟨_, stored, hs, hp, _⟩ := hd
    have hdone := hrow _ stored hs
    rw [Done, hp] at hdone
    simp at hdone

theorem takeover_valid : ValidTrace (system statusConfig) initial takeover := by decide +kernel

theorem takeover_ticks (n : ℕ) : (system statusConfig).enabled
    (((system statusConfig).next · (.tick 1))^[n] (runTrace (system statusConfig) initial takeover))
    (.tick 1) := by
  rw [ticks_only]
  rfl

/-- The takeover, and then only time. -/
def takeoverPath : Path (system statusConfig) := loopPath rfl takeover_valid takeover_ticks

theorem takeover_fair : Fair takeoverPath duties := by
  refine loop_fair rfl takeover_valid takeover_ticks fun d n hcan => ?_
  rw [ticks_only] at hcan ⊢
  have hrun := valid_trace_execution takeover_valid
  have hi := reachable_inv ((reachable_of_initial rfl : Reachable (system statusConfig)
    initial).extend hrun)
  refine rest_only_waits (fun key stored hs => ?_) (fun p => ?_) d hcan
  · -- the only event that was received is the one that has been processed
    have hlt := hi.id_lt key stored hs
    obtain ⟨last, hlast, hid, hdone⟩ : ∃ last, ((runTrace (system statusConfig) initial
        takeover).webhooks "status-1").committed = some last ∧ last.id = 0 ∧ Done last.row :=
      ⟨_, rfl, rfl, by decide +kernel⟩
    have hnext : (runTrace (system statusConfig) initial takeover).nextId = 1 := by decide +kernel
    obtain rfl := hi.id_inj key "status-1" stored last hs hlast (by omega)
    rw [hs] at hlast
    cases hlast
    exact hdone
  · by_cases hp : p < 2
    · have hnone : ∀ q < 2, ((runTrace (system statusConfig) initial
          takeover).processors q).isNone := by decide +kernel
      exact Option.isNone_iff_eq_none.mp (hnone p hp)
    · have hclaim : ∀ key now, Event.claim p key now ∉ takeover := by
        intro key now hmem
        simp only [takeover, List.mem_cons, Event.claim.injEq, reduceCtorEq, false_or,
          List.not_mem_nil, or_false] at hmem
        omega
      exact (unclaimed_idle hrun rfl hclaim : (runTrace (system statusConfig) initial
        takeover).processors p = none)

theorem takeover_settles : ∃ m, 1 ≤ m ∧ Accounted takeoverPath "status-1" 0 m :=
  stored_webhook_settles takeover_fair (rfl : ((takeoverPath.state 1).webhooks "status-1").committed =
    some ⟨0, WebhookStatements.insert 0 sessionStatus⟩)

end Witness

end WebhookLiveness
