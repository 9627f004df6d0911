import Mathlib.Data.Set.Function

/-! Keyed tables whose rows have owners.
A table gives the row under each key. `KeepsOthers` says that a write left every row of another
owner as it was: none is changed, none removed and none added. -/
namespace OwnedTables

variable {κ ρ ω : Type*}

section Operations

variable [DecidableEq κ]

/-- INSERT … ON CONFLICT DO NOTHING. -/
def insertAbsent (table : κ → Option ρ) (key : κ) (row : ρ) : κ → Option ρ :=
  if (table key).isSome then table else Function.update table key (some row)

/-- INSERT … ON CONFLICT DO UPDATE: `f` gives the new row from the one that is there. -/
def upsert (table : κ → Option ρ) (key : κ) (f : Option ρ → ρ) : κ → Option ρ :=
  Function.update table key (some (f (table key)))

/-- UPDATE of the row under one key; `none` is a row that the WHERE clause leaves. -/
def updateAt (table : κ → Option ρ) (key : κ) (f : ρ → Option ρ) : κ → Option ρ :=
  Function.update table key ((table key).map fun row => (f row).getD row)

end Operations

/-- UPDATE of all rows. -/
def updateAll (table : κ → Option ρ) (f : ρ → Option ρ) : κ → Option ρ :=
  fun key => (table key).map fun row => (f row).getD row

def KeepsOthers (owner : κ → ρ → ω) (s : ω) (old new : κ → Option ρ) : Prop :=
  ∀ key row, owner key row ≠ s → (old key = some row ↔ new key = some row)

variable {owner : κ → ρ → ω} {s : ω} {old mid new table : κ → Option ρ} {key : κ}

theorem keeps_others_refl : KeepsOthers owner s table table := fun _ _ _ => Iff.rfl

theorem keeps_others_trans (h : KeepsOthers owner s old mid) (k : KeepsOthers owner s mid new) :
    KeepsOthers owner s old new :=
  fun key row ho => (h key row ho).trans (k key row ho)

theorem keeps_others_symm (h : KeepsOthers owner s old new) : KeepsOthers owner s new old :=
  fun key row ho => (h key row ho).symm

section Keys

variable [DecidableEq κ]

theorem insert_absent_isSome {other : κ} {row : ρ}
    (h : (table other).isSome) : (insertAbsent table key row other).isSome := by
  unfold insertAbsent
  split
  · exact h
  · by_cases hk : other = key
    · simp [hk]
    · rwa [Function.update_of_ne hk]

theorem insert_absent_some {other : κ} {row stored : ρ}
    (h : insertAbsent table key row other = some stored) :
    table other = some stored ∨ other = key ∧ stored = row := by
  unfold insertAbsent at h
  split at h
  · exact .inl h
  · by_cases hk : other = key
    · subst hk
      simp only [Function.update_self, Option.some.injEq] at h
      exact .inr ⟨rfl, h.symm⟩
    · rw [Function.update_of_ne hk] at h
      exact .inl h

/-- A write to one key, when the rows there before and after it belong to the owner. -/
theorem keeps_others_update {slot : Option ρ} (ho : ∀ row, table key = some row → owner key row = s)
    (hn : ∀ row, slot = some row → owner key row = s) :
    KeepsOthers owner s table (Function.update table key slot) := by
  intro other row hrow
  by_cases hk : other = key
  · subst hk
    rw [Function.update_self]
    constructor
    · intro h
      exact absurd (ho row h) hrow
    · intro h
      exact absurd (hn row h) hrow
  · rw [Function.update_of_ne hk]

theorem insert_absent_keeps {row : ρ} (h : owner key row = s) :
    KeepsOthers owner s table (insertAbsent table key row) := by
  unfold insertAbsent
  split
  · exact keeps_others_refl
  · rename_i hfree
    refine keeps_others_update (fun old hold => ?_) fun new hnew => ?_
    · simp [hold] at hfree
    · cases hnew
      exact h

theorem upsert_keeps {f : Option ρ → ρ} (ho : ∀ row, table key = some row → owner key row = s)
    (hn : owner key (f (table key)) = s) : KeepsOthers owner s table (upsert table key f) := by
  refine keeps_others_update ho fun row hrow => ?_
  cases hrow
  exact hn

theorem update_at_keeps {f : ρ → Option ρ} (ho : ∀ row, table key = some row → owner key row = s)
    (hn : ∀ row new, table key = some row → f row = some new → owner key new = s) :
    KeepsOthers owner s table (updateAt table key f) := by
  refine keeps_others_update ho fun new hnew => ?_
  obtain ⟨row, hrow, rfl⟩ := Option.map_eq_some_iff.mp hnew
  cases hf : f row with
  | none => exact ho row hrow
  | some new => exact hn row new hrow hf

end Keys

/-- An UPDATE over the whole table spares the others exactly when its WHERE clause fails on each
of their rows, provided that it leaves no row equal and gives none away. -/
theorem update_all_keeps_iff {f : ρ → Option ρ}
    (hf : ∀ key row new, f row = some new → new ≠ row ∧ owner key new = owner key row) :
    KeepsOthers owner s table (updateAll table f) ↔
      ∀ key row, table key = some row → owner key row ≠ s → f row = none := by
  constructor
  · intro h key row hrow hown
    by_contra hsome
    obtain ⟨new, hnew⟩ := Option.ne_none_iff_exists'.mp hsome
    have hafter : updateAll table f key = some row := (h key row hown).mp hrow
    have heq : new = row := by simpa [updateAll, hrow, hnew] using hafter
    exact (hf key row new hnew).1 heq
  · intro h key row hown
    constructor
    · intro hrow
      simp [updateAll, hrow, h key row hrow hown]
    · intro hafter
      obtain ⟨before, hbefore, heq⟩ := Option.map_eq_some_iff.mp hafter
      cases hfb : f before with
      | none =>
        rw [hfb] at heq
        exact hbefore.trans (congrArg some heq)
      | some new =>
        have hnew : new = row := by rwa [hfb] at heq
        subst hnew
        have hsame := (hf key before new hfb).2
        have hnone := h key before hbefore (by rwa [← hsame])
        rw [hfb] at hnone
        cases hnone

end OwnedTables
