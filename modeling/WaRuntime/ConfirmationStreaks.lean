import Mathlib.Data.List.Basic
import Mathlib.Data.Nat.Notation
import Mathlib.Order.Nat

/-! A guard that follows a doubtful observation only when it has been made often enough in a row.
Its memory is the last doubt that it has put off, with the number of times. A log keeps every
observation, the last one first, with whether the guard has followed it. -/
namespace ConfirmationStreaks

variable {φ : Type*} [DecidableEq φ] {needed : ℕ} {claim : φ}

/-- `doubt` is what the observation says where it is doubtful. -/
structure Observation (φ : Type*) where
  doubt : Option φ
  followed : Bool
  deriving DecidableEq, Repr

structure Memory (φ : Type*) where
  doubt : Option φ
  confirmations : ℕ
  deriving DecidableEq, Repr

variable {m : Memory φ} {o : Observation φ} {log : List (Observation φ)}

def Memory.none : Memory φ := ⟨Option.none, 0⟩

def confirmations (m : Memory φ) (claim : φ) : ℕ :=
  if m.doubt = some claim then m.confirmations + 1 else 1

/-- What is not doubtful is followed at once. -/
def follows (needed : ℕ) (m : Memory φ) (doubt : Option φ) : Bool :=
  doubt.all fun claim => decide (needed ≤ confirmations m claim)

def observe (needed : ℕ) (m : Memory φ) (doubt : Option φ) : Memory φ :=
  match doubt with
  | Option.none => Memory.none
  | some claim =>
    if needed ≤ confirmations m claim then Memory.none
    else ⟨some claim, confirmations m claim⟩

def PutOff (claim : φ) (o : Observation φ) : Prop := o.doubt = some claim ∧ o.followed = false

instance (claim : φ) (o : Observation φ) : Decidable (PutOff claim o) :=
  inferInstanceAs (Decidable (_ ∧ _))

/-- How often the claim has been put off since anything else was observed. -/
def streak (claim : φ) : List (Observation φ) → ℕ
  | [] => 0
  | o :: log => if PutOff claim o then streak claim log + 1 else 0

/-- The memory is that of the log. -/
structure Remembers (needed : ℕ) (m : Memory φ) (log : List (Observation φ)) : Prop where
  streaks : ∀ claim, streak claim log = if m.doubt = some claim then m.confirmations else 0
  below : m.confirmations < needed

theorem remembers_nothing (h : 0 < needed) : Remembers needed (Memory.none : Memory φ) [] :=
  ⟨fun _ => rfl, h⟩

theorem confirmations_eq (h : Remembers needed m log) (claim : φ) :
    confirmations m claim = streak claim log + 1 := by
  rw [confirmations, h.streaks claim]
  by_cases hm : m.doubt = some claim <;> simp [hm]

theorem remembers_observe (hpos : 0 < needed) (h : Remembers needed m log) (doubt : Option φ) :
    Remembers needed (observe needed m doubt) (⟨doubt, follows needed m doubt⟩ :: log) := by
  cases doubt with
  | none =>
    refine ⟨fun claim => ?_, hpos⟩
    have hno : ¬ PutOff claim ⟨none, follows needed m none⟩ := fun hp => nomatch hp.1
    simp [streak, hno, observe, Memory.none]
  | some claim =>
    by_cases henough : needed ≤ confirmations m claim
    · have hobserve : observe needed m (some claim) = Memory.none := if_pos henough
      rw [hobserve]
      refine ⟨fun other => ?_, hpos⟩
      have hno : ¬ PutOff other ⟨some claim, follows needed m (some claim)⟩ := by
        intro hp
        have hfollowed := hp.2
        simp [follows, henough] at hfollowed
      simp [streak, hno, Memory.none]
    · have hobserve : observe needed m (some claim) = ⟨some claim, confirmations m claim⟩ :=
        if_neg henough
      rw [hobserve]
      refine ⟨fun other => ?_, by simpa using henough⟩
      have hput : PutOff other ⟨some claim, follows needed m (some claim)⟩ ↔ claim = other := by
        simp [PutOff, follows, henough]
      simp only [streak, hput, Option.some.injEq]
      by_cases hother : claim = other
      · subst hother
        rw [if_pos rfl, if_pos rfl, confirmations_eq h]
      · rw [if_neg hother, if_neg hother]

/-- What has been put off so often stands at the head of the log, and nothing of the kind after
it. -/
theorem streak_split (claim : φ) (log : List (Observation φ)) :
    ∃ recent older, log = recent ++ older ∧ recent.length = streak claim log ∧
      (∀ o ∈ recent, PutOff claim o) ∧ ∀ o ∈ older.head?, ¬ PutOff claim o := by
  induction log with
  | nil => exact ⟨[], [], rfl, rfl, by simp, by simp⟩
  | cons o log ih =>
    by_cases ho : PutOff claim o
    · obtain ⟨recent, older, rfl, hlength, hrecent, holder⟩ := ih
      refine ⟨o :: recent, older, rfl, by simp [streak, ho, hlength], ?_, holder⟩
      intro x hx
      obtain rfl | hx := List.mem_cons.mp hx
      · exact ho
      · exact hrecent x hx
    · refine ⟨[], o :: log, rfl, by simp [streak, ho], by simp, ?_⟩
      intro x hx
      obtain rfl : o = x := by simpa using hx
      exact ho

theorem streak_append {recent older : List (Observation φ)} (hrecent : ∀ o ∈ recent, PutOff claim o)
    (holder : ∀ o ∈ older.head?, ¬ PutOff claim o) :
    streak claim (recent ++ older) = recent.length := by
  induction recent with
  | nil =>
    cases older with
    | nil => rfl
    | cons o older => exact if_neg (holder o rfl)
  | cons o recent ih =>
    have ho : PutOff claim o := hrecent o List.mem_cons_self
    have hrest := ih fun x hx => hrecent x (List.mem_cons_of_mem o hx)
    simp [streak, ho, hrest]

/-- A doubt is followed as the last of the needed number of observations in a row. -/
theorem follows_iff (h : Remembers needed m log) :
    follows needed m (some claim) = true ↔
      ∃ recent older, log = recent ++ older ∧ recent.length + 1 = needed ∧
        (∀ o ∈ recent, PutOff claim o) ∧ ∀ o ∈ older.head?, ¬ PutOff claim o := by
  have hfollows : follows needed m (some claim) = true ↔ needed ≤ streak claim log + 1 := by
    rw [← confirmations_eq h]
    simp [follows]
  rw [hfollows]
  constructor
  · intro henough
    obtain ⟨recent, older, hlog, hlength, hrecent, holder⟩ := streak_split claim log
    refine ⟨recent, older, hlog, ?_, hrecent, holder⟩
    have hbelow := h.below
    have hstreak := h.streaks claim
    split at hstreak <;> omega
  · rintro ⟨recent, older, rfl, hlength, hrecent, holder⟩
    rw [streak_append hrecent holder]
    omega

end ConfirmationStreaks
