import Mathlib.Data.Nat.Notation
import Mathlib.Data.List.Basic
import Mathlib.Order.Nat

/-! A log of attempts under leases that run out, newest first, and the budget they use up.
The holder of an attempt reports its result before the lease runs out, or the attempt is taken
away after that. A returned attempt costs nothing; every other one is charged. -/
namespace AttemptBudgets

/-- How an attempt ended, and the time at which its lease was tested. -/
inductive Ending where
  | succeeded (time : ℕ)
  | returned (time : ℕ)
  | failed (time : ℕ)
  | expired (time : ℕ)
  deriving DecidableEq, Repr

/-- `before` is the budget that was used up when the attempt was claimed. -/
structure Attempt (κ : Type*) where
  token : κ
  expiresAt : ℕ
  before : ℕ
  ending : Option Ending
  deriving DecidableEq, Repr

abbrev Log (κ : Type*) := List (Attempt κ)

variable {κ : Type*} {a : Attempt κ} {log older newer : Log κ} {ending : Ending}
  {clock clock' expiresAt : ℕ} {token : κ}

namespace Attempt

def charged (a : Attempt κ) : Bool :=
  match a.ending with
  | some (.returned _) => false
  | _ => true

def lost (a : Attempt κ) : Bool :=
  match a.ending with
  | some (.failed _) | some (.expired _) => true
  | _ => false

def succeeded (a : Attempt κ) : Bool :=
  match a.ending with
  | some (.succeeded _) => true
  | _ => false

def returned (a : Attempt κ) : Bool :=
  match a.ending with
  | some (.returned _) => true
  | _ => false

/-- No result has been reported, and the lease has not run out. -/
def unexpired (clock : ℕ) (a : Attempt κ) : Bool :=
  match a.ending with
  | none | some (.expired _) => decide (clock ≤ a.expiresAt)
  | _ => false

/-- A result comes while the lease runs, and nothing is taken away before the lease has run out. -/
def Timely (clock : ℕ) (a : Attempt κ) : Prop :=
  match a.ending with
  | none => True
  | some (.succeeded t) | some (.returned t) | some (.failed t) => t < a.expiresAt
  | some (.expired t) => a.expiresAt < t ∧ t ≤ clock

end Attempt

def consumed (log : Log κ) : ℕ := log.countP Attempt.charged

def losses (log : Log κ) : ℕ := log.countP Attempt.lost

def successes (log : Log κ) : ℕ := log.countP Attempt.succeeded

def returns (log : Log κ) : ℕ := log.countP Attempt.returned

/-- The attempt that has not ended yet. -/
def current : Log κ → Option (Attempt κ)
  | a :: _ => if a.ending = none then some a else none
  | [] => none

def claim (token : κ) (expiresAt before : ℕ) (log : Log κ) : Log κ :=
  ⟨token, expiresAt, before, none⟩ :: log

/-- The end of the current attempt, if there is one. -/
def finish (ending : Ending) : Log κ → Log κ
  | a :: older => (if a.ending = none then { a with ending := some ending } else a) :: older
  | [] => []

theorem current_some (h : current log = some a) : ∃ older, log = a :: older ∧ a.ending = none := by
  cases log with
  | nil => cases h
  | cons b older =>
    simp only [current, Option.ite_none_right_eq_some, Option.some.injEq] at h
    obtain ⟨hb, rfl⟩ := h
    exact ⟨older, rfl, hb⟩

@[simp] theorem current_claim {before : ℕ} :
    current (claim token expiresAt before log) = some ⟨token, expiresAt, before, none⟩ := rfl

@[simp] theorem current_finish : current (finish ending log) = none := by
  cases log with
  | nil => rfl
  | cons b older =>
    by_cases hb : b.ending = none <;> simp [finish, current, hb]

theorem finish_of_none (h : current log = none) : finish ending log = log := by
  cases log with
  | nil => rfl
  | cons b older =>
    by_cases hb : b.ending = none
    · simp [current, hb] at h
    · simp [finish, hb]

theorem finish_of_some (ending : Ending) (h : current log = some a) :
    ∃ older, log = a :: older ∧ a.ending = none ∧
      finish ending log = { a with ending := some ending } :: older := by
  obtain ⟨older, rfl, ha⟩ := current_some h
  exact ⟨older, rfl, ha, by simp [finish, ha]⟩

/-- Attempts are claimed one after the other, each with the budget used up so far, and end in
time. -/
def Valid (clock : ℕ) : Log κ → Prop
  | [] => True
  | a :: older => current older = none ∧ a.before = consumed older ∧ a.Timely clock ∧
    Valid clock older

theorem valid_later (h : Valid clock log) (hle : clock ≤ clock') : Valid clock' log := by
  induction log with
  | nil => trivial
  | cons a older ih =>
    obtain ⟨hcurrent, hbefore, htimely, hrest⟩ := h
    refine ⟨hcurrent, hbefore, ?_, ih hrest⟩
    cases ha : a.ending with
    | none => simp [Attempt.Timely, ha]
    | some ending =>
      cases ending <;> simp only [Attempt.Timely, ha] at htimely ⊢ <;> omega

theorem valid_claim (h : Valid clock log) (hc : current log = none) :
    Valid clock (claim token expiresAt (consumed log) log) :=
  ⟨hc, rfl, trivial, h⟩

theorem valid_finish (h : Valid clock log)
    (ht : ∀ a, current log = some a → ({ a with ending := some ending } : Attempt κ).Timely clock) :
    Valid clock (finish ending log) := by
  cases hc : current log with
  | none =>
    rw [finish_of_none hc]
    exact h
  | some a =>
    obtain ⟨older, rfl, _, hf⟩ := finish_of_some ending hc
    rw [hf]
    exact ⟨h.1, h.2.1, ht a hc, h.2.2.2⟩

@[simp] theorem consumed_claim {before : ℕ} :
    consumed (claim token expiresAt before log) = consumed log + 1 := by
  simp [consumed, claim, List.countP_cons, Attempt.charged]

theorem consumed_finish (hr : ∀ time, ending ≠ .returned time) :
    consumed (finish ending log) = consumed log := by
  cases hc : current log with
  | none => rw [finish_of_none hc]
  | some a =>
    obtain ⟨older, rfl, ha, hf⟩ := finish_of_some ending hc
    rw [hf]
    cases ending with
    | returned time => exact absurd rfl (hr time)
    | succeeded | failed | expired => simp [consumed, List.countP_cons, Attempt.charged, ha]

/-- A returned attempt leaves the budget as it was before its claim. -/
theorem consumed_returned (time : ℕ) (h : Valid clock log) (hc : current log = some a) :
    consumed (finish (.returned time) log) = a.before ∧ consumed log = a.before + 1 := by
  obtain ⟨older, rfl, ha, hf⟩ := finish_of_some (.returned time) hc
  rw [hf, h.2.1]
  simp [consumed, Attempt.charged, ha]

theorem losses_claim {before : ℕ} : losses (claim token expiresAt before log) = losses log := by
  simp [losses, claim, Attempt.lost]

theorem losses_finish (ending : Ending) (hc : current log = some a) :
    losses (finish ending log) =
      losses log + if ({ a with ending := some ending } : Attempt κ).lost then 1 else 0 := by
  obtain ⟨older, rfl, ha, hf⟩ := finish_of_some ending hc
  rw [hf]
  simp [losses, List.countP_cons, show a.lost = false by simp [Attempt.lost, ha]]

theorem returns_claim {before : ℕ} : returns (claim token expiresAt before log) = returns log := by
  simp [returns, claim, Attempt.returned]

theorem returns_finish (ending : Ending) (hc : current log = some a) :
    returns (finish ending log) =
      returns log + if ({ a with ending := some ending } : Attempt κ).returned then 1 else 0 := by
  obtain ⟨older, rfl, ha, hf⟩ := finish_of_some ending hc
  rw [hf]
  simp [returns, List.countP_cons, show a.returned = false by simp [Attempt.returned, ha]]

theorem successes_claim {before : ℕ} :
    successes (claim token expiresAt before log) = successes log := by
  simp [successes, claim, Attempt.succeeded]

theorem successes_finish (hs : ∀ time, ending ≠ .succeeded time) :
    successes (finish ending log) = successes log := by
  cases hc : current log with
  | none => rw [finish_of_none hc]
  | some a =>
    obtain ⟨older, rfl, ha, hf⟩ := finish_of_some ending hc
    rw [hf]
    cases ending with
    | succeeded time => exact absurd rfl (hs time)
    | returned | failed | expired => simp [successes, Attempt.succeeded, ha]

/-- The budget is used up by the attempts that were lost, those that succeeded, and the current
one. -/
theorem consumed_eq (h : Valid clock log) :
    consumed log = losses log + successes log + if current log = none then 0 else 1 := by
  have hended : ∀ log : Log κ, Valid clock log → current log = none →
      consumed log = losses log + successes log := by
    intro log h hc
    induction log with
    | nil => rfl
    | cons a older ih =>
      have hold := ih h.2.2.2 h.1
      have ha : a.ending ≠ none := by
        intro ha
        simp [current, ha] at hc
      obtain ⟨ending, hending⟩ := Option.ne_none_iff_exists'.mp ha
      simp only [consumed, losses, successes, List.countP_cons] at hold ⊢
      cases ending <;>
        simp only [Attempt.charged, Attempt.lost, Attempt.succeeded, hending] <;> simp <;> omega
  cases hc : current log with
  | none => simp [hended log h hc]
  | some a =>
    obtain ⟨older, rfl, ha⟩ := current_some hc
    have hold := hended older h.2.2.2 h.1
    simp only [consumed, losses, successes] at hold
    simp [consumed, losses, successes, Attempt.charged, Attempt.lost, Attempt.succeeded, ha]
    omega

theorem before_eq (h : Valid clock (newer ++ a :: older)) : a.before = consumed older := by
  induction newer with
  | nil => exact h.2.1
  | cons b newer ih => exact ih h.2.2.2

/-- An attempt that has been taken away had run out. -/
theorem no_unexpired (h : Valid clock log) (hc : current log = none) :
    log.countP (Attempt.unexpired clock) = 0 := by
  induction log with
  | nil => rfl
  | cons a older ih =>
    have hold := ih h.2.2.2 h.1
    have htimely := h.2.2.1
    rw [List.countP_cons, hold]
    unfold Attempt.Timely at htimely
    split at htimely
    · rename_i ha
      simp [current, ha] at hc
    all_goals
      rename_i ha
      simp [Attempt.unexpired, ha]
    omega

/-- At most one lease is running. -/
theorem unexpired_le_one (h : Valid clock log) : log.countP (Attempt.unexpired clock) ≤ 1 := by
  cases log with
  | nil => simp
  | cons a older =>
    rw [List.countP_cons, no_unexpired h.2.2.2 h.1]
    split <;> omega

end AttemptBudgets
