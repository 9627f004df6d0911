import WaRuntime.CanonicalOrders

/-! Pages of a scan that remembers the last key it has seen.
The rows may change between two pages; what a page does for its rows holds of every row up to the
key it ends with, if it held of the rows up to the key it began after. -/
namespace KeysetPages

open CanonicalOrders

variable {α κ : Type*} (o : TotalOrder κ) (key : α → κ)

/-- The key comes after the cursor; no cursor is before every key. -/
def After (cursor : Option κ) (k : κ) : Prop := ∀ c ∈ cursor, ¬o.le k c

instance (cursor : Option κ) (k : κ) : Decidable (After o cursor k) :=
  match cursor with
  | none => isTrue fun _ h => by cases h
  | some c =>
    have : Decidable (o.le k c) := o.decidable k c
    decidable_of_iff (¬o.le k c) ⟨fun h _ hc => by cases hc; exact h, fun h => h c rfl⟩

/-- ORDER BY the key, LIMIT the size. -/
def page (cursor : Option κ) (size : ℕ) (rows : List α) : List α :=
  (o.sortBy key (rows.filter fun row => After o cursor (key row))).take size

variable {o key} {cursor : Option κ} {size : ℕ} {rows : List α} {row last : α}

theorem mem_of_mem_page (h : row ∈ page o key cursor size rows) :
    row ∈ rows ∧ After o cursor (key row) := by
  have h := o.sortBy_perm.mem_iff.mp (List.mem_of_mem_take h)
  simpa using h

/-- A page that is not full holds every row after the cursor. -/
theorem mem_short_page (hshort : (page o key cursor size rows).length < size) (hrow : row ∈ rows)
    (hafter : After o cursor (key row)) : row ∈ page o key cursor size rows := by
  unfold page at hshort ⊢
  rw [List.length_take] at hshort
  rw [List.take_of_length_le (by omega), o.sortBy_perm.mem_iff]
  simp [hrow, hafter]

/-- A page holds every row after the cursor up to its last one. -/
theorem mem_page_upto (hkey : ∀ a ∈ rows, ∀ b ∈ rows, key a = key b → a = b)
    (hlast : (page o key cursor size rows).getLast? = some last) (hrow : row ∈ rows)
    (hafter : After o cursor (key row)) (hle : o.le (key row) (key last)) :
    row ∈ page o key cursor size rows := by
  have hlastmem := List.mem_of_getLast? hlast
  unfold page at hlast hlastmem ⊢
  let sorted := o.sortBy key (rows.filter fun row => After o cursor (key row))
  have hsorted : sorted.Pairwise fun a b => o.le (key a) (key b) := o.sortBy_pairwise
  have hmem : row ∈ sorted.take size ++ sorted.drop size := by
    rw [List.take_append_drop, o.sortBy_perm.mem_iff]
    simp [hrow, hafter]
  rcases List.mem_append.mp hmem with htake | hdrop
  · exact htake
  · rw [← List.take_append_drop size sorted, List.pairwise_append] at hsorted
    have hge := hsorted.2.2 last hlastmem row hdrop
    have hrows : last ∈ rows ∧ After o cursor (key last) := mem_of_mem_page hlastmem
    rwa [hkey row hrow last hrows.1 (o.antisymm _ _ hle hge)]

variable {P : α → Prop}

/-- One page more: `P` holds of the rows up to its last one. -/
theorem covered_upto (hkey : ∀ a ∈ rows, ∀ b ∈ rows, key a = key b → a = b)
    (hlast : (page o key cursor size rows).getLast? = some last)
    (hbefore : ∀ row ∈ rows, ¬After o cursor (key row) → P row)
    (hpage : ∀ row ∈ page o key cursor size rows, P row) :
    ∀ row ∈ rows, o.le (key row) (key last) → P row := by
  intro row hrow hle
  by_cases hafter : After o cursor (key row)
  · exact hpage row (mem_page_upto hkey hlast hrow hafter hle)
  · exact hbefore row hrow hafter

/-- The last page: `P` holds of all rows. -/
theorem covered (hshort : (page o key cursor size rows).length < size)
    (hbefore : ∀ row ∈ rows, ¬After o cursor (key row) → P row)
    (hpage : ∀ row ∈ page o key cursor size rows, P row) : ∀ row ∈ rows, P row := by
  intro row hrow
  by_cases hafter : After o cursor (key row)
  · exact hpage row (mem_short_page hshort hrow hafter)
  · exact hbefore row hrow hafter

theorem not_after_some {k c : κ} : ¬After o (some c) k ↔ o.le k c := by
  have hd : Decidable (o.le k c) := o.decidable k c
  constructor
  · intro h
    by_contra hle
    exact h fun c' hc' => by cases hc'; exact hle
  · intro hle h
    exact h c rfl hle

end KeysetPages
