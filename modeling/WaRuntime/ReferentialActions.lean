import WaRuntime.RecursiveQuery

/-! Foreign keys, and what becomes of the rows that refer to rows that are deleted.
A database is the list of its rows, of whatever tables. A DELETE takes its own rows and, round by
round, the rows that refer to them by a key that cascades; it fails where a row that it does not
take itself refers to one of these by a key that restricts. -/
namespace ReferentialActions

open Relation RecursiveQuery

inductive OnDelete where
  | cascade
  | restrict
  deriving DecidableEq, Repr

/-- `value` is what a row refers to, none where it is NULL or the row is of another table, and `key`
is what the referenced table is referred to by. -/
structure ForeignKey (ρ κ : Type*) where
  onDelete : OnDelete
  value : ρ → Option κ
  key : ρ → Option κ

variable {ρ κ : Type*}

def ForeignKey.Refers (fk : ForeignKey ρ κ) (child parent : ρ) : Prop :=
  fk.value child ≠ none ∧ fk.value child = fk.key parent

/-- Each row that refers to something refers to a row that is there. -/
def Consistent (fks : List (ForeignKey ρ κ)) (db : List ρ) : Prop :=
  ∀ fk ∈ fks, ∀ child ∈ db, fk.value child ≠ none → ∃ parent ∈ db, fk.Refers child parent

def Cascades (fks : List (ForeignKey ρ κ)) (child parent : ρ) : Prop :=
  ∃ fk ∈ fks, fk.onDelete = .cascade ∧ fk.Refers child parent

variable [DecidableEq ρ] [DecidableEq κ]

instance (fk : ForeignKey ρ κ) (child parent : ρ) : Decidable (fk.Refers child parent) :=
  inferInstanceAs (Decidable (_ ∧ _))

instance (fks : List (ForeignKey ρ κ)) (child parent : ρ) :
    Decidable (Cascades fks child parent) :=
  inferInstanceAs (Decidable (∃ fk ∈ fks, _))

instance (fks : List (ForeignKey ρ κ)) (db : List ρ) : Decidable (Consistent fks db) :=
  inferInstanceAs (Decidable (∀ fk ∈ fks, ∀ child ∈ db, _ → ∃ parent ∈ db, _))

variable (fks : List (ForeignKey ρ κ)) (db roots : List ρ)

/-- The rows that go with a row. -/
def dependents (parent : ρ) : List ρ := db.filter (Cascades fks · parent)

/-- The rows of a DELETE of `roots`, with the rows that go with them. -/
def removed : List ρ :=
  rounds (dependents fks db) db.length (db.filter (· ∈ roots)).dedup

def Restricted : Prop :=
  ∃ fk ∈ fks, fk.onDelete = .restrict ∧ ∃ child ∈ db, child ∉ roots ∧
    ∃ parent ∈ removed fks db roots, fk.Refers child parent

instance : Decidable (Restricted fks db roots) :=
  inferInstanceAs (Decidable (∃ fk ∈ fks, _ ∧ ∃ child ∈ db, _ ∧ ∃ parent ∈ _, _))

def delete : Option (List ρ) :=
  if Restricted fks db roots then none else some (db.filter (· ∉ removed fks db roots))

variable {fks db roots} {row child parent : ρ} {db' : List ρ}

omit [DecidableEq ρ] in
theorem leads_dependents :
    Leads (dependents fks db) parent child ↔ child ∈ db ∧ Cascades fks child parent := by
  simp only [Leads, dependents, List.mem_filter, decide_eq_true_eq]

theorem mem_removed : row ∈ removed fks db roots ↔
    ∃ root, (root ∈ db ∧ root ∈ roots) ∧ ReflTransGen (Leads (dependents fks db)) root row := by
  have hbase : (db.filter (· ∈ roots)).dedup ⊆ db := fun x hx =>
    (List.mem_filter.mp (List.mem_dedup.mp hx)).1
  have hstep : ∀ a ∈ db, ∀ b, Leads (dependents fks db) a b → b ∈ db := fun a _ b hb =>
    (leads_dependents.mp hb).1
  rw [removed, mem_rounds_iff (List.nodup_dedup _) hbase hstep (by omega)]
  simp only [List.mem_dedup, List.mem_filter, decide_eq_true_eq]

theorem removed_root (hrow : row ∈ db) (hroot : row ∈ roots) : row ∈ removed fks db roots :=
  mem_removed.mpr ⟨row, ⟨hrow, hroot⟩, .refl⟩

theorem removed_dependent (hparent : parent ∈ removed fks db roots) (hchild : child ∈ db)
    (hc : Cascades fks child parent) : child ∈ removed fks db roots := by
  obtain ⟨root, hroot, hpath⟩ := mem_removed.mp hparent
  exact mem_removed.mpr ⟨root, hroot, hpath.tail (leads_dependents.mpr ⟨hchild, hc⟩)⟩

/-- A row is removed for its own sake or with a row that it refers to. -/
theorem removed_cases (h : row ∈ removed fks db roots) : row ∈ db ∧
    (row ∈ roots ∨ ∃ parent ∈ removed fks db roots, Cascades fks row parent) := by
  obtain ⟨root, hroot, hpath⟩ := mem_removed.mp h
  rcases hpath.cases_tail with rfl | ⟨parent, hbefore, hlast⟩
  · exact ⟨hroot.1, .inl hroot.2⟩
  · obtain ⟨hrow, hc⟩ := leads_dependents.mp hlast
    exact ⟨hrow, .inr ⟨parent, mem_removed.mpr ⟨root, hroot, hbefore⟩, hc⟩⟩

/-- What holds of the rows of a DELETE, and of a row that goes with one of which it holds, holds of
every row that is removed. -/
theorem removed_induction {P : ρ → Prop} (hroots : ∀ row ∈ db, row ∈ roots → P row)
    (hcascade : ∀ child ∈ db, ∀ parent ∈ db, Cascades fks child parent → P parent → P child)
    (h : row ∈ removed fks db roots) : P row := by
  obtain ⟨root, hroot, hpath⟩ := mem_removed.mp h
  have hboth : row ∈ db ∧ P row := by
    clear h
    induction hpath with
    | refl => exact ⟨hroot.1, hroots _ hroot.1 hroot.2⟩
    | tail _ hlast ih =>
      obtain ⟨hrow, hc⟩ := leads_dependents.mp hlast
      exact ⟨hrow, hcascade _ hrow _ ih.1 hc ih.2⟩
  exact hboth.2

theorem delete_eq_some : delete fks db roots = some db' ↔
    ¬ Restricted fks db roots ∧ db' = db.filter (· ∉ removed fks db roots) := by
  unfold delete
  split <;> simp_all [eq_comm]

theorem mem_of_delete (h : delete fks db roots = some db') :
    row ∈ db' ↔ row ∈ db ∧ row ∉ removed fks db roots := by
  obtain ⟨_, rfl⟩ := delete_eq_some.mp h
  simp

/-- What is left after a DELETE refers to what is left. -/
theorem delete_consistent (hc : Consistent fks db) (h : delete fks db roots = some db') :
    Consistent fks db' := by
  intro fk hfk child hchild hvalue
  obtain ⟨hin, hkept⟩ := (mem_of_delete h).mp hchild
  obtain ⟨parent, hparent, hrefers⟩ := hc fk hfk child hin hvalue
  refine ⟨parent, (mem_of_delete h).mpr ⟨hparent, fun hgone => ?_⟩, hrefers⟩
  cases haction : fk.onDelete with
  | cascade => exact hkept (removed_dependent hgone hin ⟨fk, hfk, haction, hrefers⟩)
  | restrict =>
    have hnot : child ∉ roots := fun hroot => hkept (removed_root hin hroot)
    exact (delete_eq_some.mp h).1 ⟨fk, hfk, haction, child, hin, hnot, parent, hgone, hrefers⟩

/-- A DELETE of distinct rows that are there removes that many at least. -/
theorem delete_length (h : delete fks db roots = some db') (taken : List ρ) (hnodup : taken.Nodup)
    (htaken : ∀ row ∈ taken, row ∈ db ∧ row ∈ roots) : db'.length + taken.length ≤ db.length := by
  obtain ⟨_, rfl⟩ := delete_eq_some.mp h
  have hsub : taken ⊆ db.filter (· ∈ removed fks db roots) := fun row hrow =>
    List.mem_filter.mpr ⟨(htaken row hrow).1,
      decide_eq_true (removed_root (htaken row hrow).1 (htaken row hrow).2)⟩
  have hle := (hnodup.subperm hsub).length_le
  have hsplit := List.length_eq_length_filter_add (l := db)
    fun x => decide (x ∈ removed fks db roots)
  simp only [decide_not]
  omega

end ReferentialActions
