import Mathlib.Data.List.Basic
import Mathlib.Order.Lattice

/-! Registers that keep the newest observation.
A register has a value and the stamp of the observation that gave it, and takes another observation
only where its stamp is greater. What it holds in the end does not depend on the order in which the
observations come, nor on how often. -/
namespace LastWriterRegisters

variable {τ α : Type*}

@[ext] structure Entry (τ α : Type*) where
  stamp : τ
  value : α
  deriving DecidableEq, Repr

variable [LinearOrder τ] {r e f : Entry τ α} {history later : List (Entry τ α)}

def observe (r e : Entry τ α) : Entry τ α := if r.stamp < e.stamp then e else r

/-- An observation of the history whose stamp no other one exceeds. -/
structure Newest (r : Entry τ α) (history : List (Entry τ α)) : Prop where
  mem : r ∈ history
  max : ∀ e ∈ history, e.stamp ≤ r.stamp

/-- No two observations have one stamp. -/
def Distinct (history : List (Entry τ α)) : Prop :=
  ∀ e ∈ history, ∀ f ∈ history, e.stamp = f.stamp → e = f

theorem observe_stamp (r e : Entry τ α) : (observe r e).stamp = max r.stamp e.stamp := by
  unfold observe
  split
  · rename_i hlt
    exact (max_eq_right hlt.le).symm
  · rename_i hle
    exact (max_eq_left (not_lt.mp hle)).symm

theorem observe_cases (r e : Entry τ α) : observe r e = r ∨ observe r e = e := by
  unfold observe
  split
  · exact .inr rfl
  · exact .inl rfl

theorem newest_single (r : Entry τ α) : Newest r [r] :=
  ⟨List.mem_singleton.mpr rfl, fun e he => by rw [List.mem_singleton.mp he]⟩

theorem newest_older (hr : Newest r history) (hsub : ∀ e ∈ history, e ∈ later)
    (hold : ∀ e ∈ later, e ∈ history ∨ e.stamp ≤ r.stamp) : Newest r later := by
  refine ⟨hsub r hr.mem, fun e he => ?_⟩
  obtain hmem | hle := hold e he
  · exact hr.max e hmem
  · exact hle

theorem newest_observe (hr : Newest r history) (e : Entry τ α) :
    Newest (observe r e) (history ++ [e]) := by
  refine ⟨?_, fun f hf => ?_⟩
  · obtain h | h := observe_cases r e
    · rw [h]
      exact List.mem_append_left _ hr.mem
    · rw [h]
      exact List.mem_append_right _ List.mem_cons_self
  · rw [observe_stamp]
    obtain hf | hf := List.mem_append.mp hf
    · exact (hr.max f hf).trans (le_max_left _ _)
    · rw [List.mem_singleton.mp hf]
      exact le_max_right _ _

theorem newest_unique (hd : Distinct history) (hr : Newest r history) (he : Newest e history) :
    r = e :=
  hd r hr.mem e he.mem (le_antisymm (he.max r hr.mem) (hr.max e he.mem))

end LastWriterRegisters
