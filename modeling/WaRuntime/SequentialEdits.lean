import Mathlib.Data.Nat.Notation
import Mathlib.Data.List.Basic
import Mathlib.Order.Nat

/-! Edits of one value, applied one after the other.
Each edit keeps its patch and the value it has left. A log is sequential when every patch was
applied to the complete value that the edit before it has left. -/
namespace SequentialEdits

variable {π α β : Type*}

structure Edit (π α : Type*) where
  patch : π
  result : α
  deriving DecidableEq, Repr

variable {applies : π → α → α → Prop} {before mid after : α} {log edits : List (Edit π α)}
  {e : Edit π α} {field : α → β}

/-- The log leads from one value to the other. -/
def Sequential (applies : π → α → α → Prop) : α → List (Edit π α) → α → Prop
  | before, [], after => before = after
  | before, e :: log, after => applies e.patch before e.result ∧ Sequential applies e.result log after

/-- The number of edits that change the value. -/
def material [DecidableEq α] : α → List (Edit π α) → ℕ
  | _, [] => 0
  | before, e :: log => (if e.result = before then 0 else 1) + material e.result log

theorem sequential_append (h : Sequential applies before log mid)
    (k : Sequential applies mid edits after) : Sequential applies before (log ++ edits) after := by
  induction log generalizing before with
  | nil =>
    obtain rfl : before = mid := h
    exact k
  | cons e log ih => exact ⟨h.1, ih h.2⟩

theorem material_append [DecidableEq α] (h : Sequential applies before log mid) :
    material before (log ++ edits) = material before log + material mid edits := by
  induction log generalizing before with
  | nil =>
    obtain rfl : before = mid := h
    simp [material]
  | cons e log ih =>
    simp only [List.cons_append, material, ih h.2]
    omega

/-- A field stays as the last edit that mentions it has left it. -/
theorem sequential_field (mentions : π → Prop) (h : Sequential applies before log after)
    (hkeeps : ∀ patch value result, applies patch value result → ¬ mentions patch →
      field result = field value)
    (hlog : ∀ e ∈ log, ¬ mentions e.patch) : field after = field before := by
  induction log generalizing before with
  | nil =>
    obtain rfl : before = after := h
    rfl
  | cons e log ih =>
    have hrest := ih h.2 fun d hd => hlog d (List.mem_cons_of_mem _ hd)
    exact hrest.trans (hkeeps _ _ _ h.1 (hlog e List.mem_cons_self))

end SequentialEdits
