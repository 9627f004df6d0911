import WaRuntime.CanonicalOrders

/-! The rows that `ORDER BY ... LIMIT ... FOR UPDATE SKIP LOCKED` takes out of a table.
`p` is the WHERE clause together with the rows that nobody else has locked. -/
namespace RowBatches

open CanonicalOrders

variable {ρ α : Type*} (o : TotalOrder α) (key : ρ → α) (p : ρ → Prop) [DecidablePred p]
  (limit : ℕ) (rows : List ρ)

def batch : List ρ := (o.sortBy key (rows.filter (p ·))).take limit

variable {o key p limit rows} {row : ρ}

theorem mem_batch (h : row ∈ batch o key p limit rows) : row ∈ rows ∧ p row := by
  have hmem := (o.sortBy_perm (f := key)).mem_iff.mp (List.mem_of_mem_take h)
  obtain ⟨hrow, hp⟩ := List.mem_filter.mp hmem
  exact ⟨hrow, of_decide_eq_true hp⟩

theorem batch_length_le : (batch o key p limit rows).length ≤ limit := List.length_take_le _ _

theorem batch_nodup (h : rows.Nodup) : (batch o key p limit rows).Nodup :=
  (List.take_sublist _ _).nodup ((o.sortBy_perm (f := key)).nodup_iff.mpr (h.filter _))

/-- A batch that is not full has taken every row it may take. -/
theorem mem_of_short (h : (batch o key p limit rows).length < limit) (hrow : row ∈ rows)
    (hp : p row) : row ∈ batch o key p limit rows := by
  unfold batch at h ⊢
  rw [List.length_take] at h
  rw [List.take_of_length_le (by omega)]
  exact (o.sortBy_perm (f := key)).mem_iff.mpr (List.mem_filter.mpr ⟨hrow, decide_eq_true hp⟩)

end RowBatches
