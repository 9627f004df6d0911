import Mathlib.Data.List.Dedup
import Mathlib.Data.List.ProdSigma
import Mathlib.Data.List.Perm.Subperm
import Mathlib.Logic.Relation
import Mathlib.Data.Nat.Notation
import Mathlib.Order.Nat

/-! Recursive queries: `WITH RECURSIVE rows AS (base UNION step of rows)`, evaluated in rounds
until a round adds no row, and what the rows mean when each row leads to rows by itself. A second
part is about the components of a graph whose edges lead to endpoints. -/
namespace RecursiveQuery

open Relation

section Rounds

variable {β : Type*} [DecidableEq β] {step : β → List β} {rows base universe_ : List β} {fuel : ℕ}

/-- The rows that a round adds. -/
def added (step : β → List β) (rows : List β) : List β :=
  (rows.flatMap step).dedup.filter (· ∉ rows)

/-- Rounds until one adds nothing, but no more than the fuel. -/
def rounds (step : β → List β) : ℕ → List β → List β
  | 0, rows => rows
  | fuel + 1, rows =>
    if added step rows = [] then rows else rounds step fuel (rows ++ added step rows)

/-- A row leads to another one. -/
def Leads (step : β → List β) (a b : β) : Prop := b ∈ step a

theorem mem_added {b : β} : b ∈ added step rows ↔ (∃ a ∈ rows, Leads step a b) ∧ b ∉ rows := by
  simp only [added, List.mem_filter, List.mem_dedup, List.mem_flatMap, decide_eq_true_eq, Leads]

theorem added_empty (h : added step rows = []) {a b : β} (ha : a ∈ rows) (hb : Leads step a b) :
    b ∈ rows := by
  by_contra hnot
  have hmem : b ∈ added step rows := mem_added.mpr ⟨⟨a, ha, hb⟩, hnot⟩
  rw [h] at hmem
  cases hmem

theorem append_added_nodup (step : β → List β) (h : rows.Nodup) :
    (rows ++ added step rows).Nodup := by
  refine List.Nodup.append h ?_ ?_
  · exact (List.nodup_dedup _).filter _
  · intro b hb hnew
    exact (mem_added.mp hnew).2 hb

theorem append_added_subset (hsubset : rows ⊆ universe_)
    (hstep : ∀ a ∈ universe_, ∀ b, Leads step a b → b ∈ universe_) :
    rows ++ added step rows ⊆ universe_ := by
  intro b hb
  rcases List.mem_append.mp hb with hb | hb
  · exact hsubset hb
  · obtain ⟨⟨a, ha, hab⟩, _⟩ := mem_added.mp hb
    exact hstep a (hsubset ha) b hab

theorem append_added_length (hnodup : rows.Nodup) (hsubset : rows ⊆ universe_)
    (hstep : ∀ a ∈ universe_, ∀ b, Leads step a b → b ∈ universe_) :
    rows.length + (added step rows).length ≤ universe_.length := by
  have hle := ((append_added_nodup step hnodup).subperm
    (append_added_subset hsubset hstep)).length_le
  rwa [List.length_append] at hle

theorem mem_rounds_of_mem {b : β} (h : b ∈ rows) : b ∈ rounds step fuel rows := by
  induction fuel generalizing rows with
  | zero => exact h
  | succ fuel ih =>
    simp only [rounds]
    split
    · exact h
    · exact ih (List.mem_append_left _ h)

/-- Every row comes from a row of the base. -/
theorem rounds_derived {b : β} (h : b ∈ rounds step fuel rows) :
    ∃ a ∈ rows, ReflTransGen (Leads step) a b := by
  induction fuel generalizing rows with
  | zero => exact ⟨b, h, .refl⟩
  | succ fuel ih =>
    simp only [rounds] at h
    split at h
    · exact ⟨b, h, .refl⟩
    · obtain ⟨a, ha, hab⟩ := ih h
      rcases List.mem_append.mp ha with ha | ha
      · exact ⟨a, ha, hab⟩
      · obtain ⟨⟨r, hr, hra⟩, _⟩ := mem_added.mp ha
        exact ⟨r, hr, ReflTransGen.head hra hab⟩

/-- With a round for every row there could be, the last round adds nothing. -/
theorem rounds_closed (hnodup : rows.Nodup) (hsubset : rows ⊆ universe_)
    (hstep : ∀ a ∈ universe_, ∀ b, Leads step a b → b ∈ universe_)
    (hfuel : universe_.length ≤ rows.length + fuel) :
    added step (rounds step fuel rows) = [] := by
  induction fuel generalizing rows with
  | zero =>
    have hbound := append_added_length hnodup hsubset hstep
    have hzero : (added step rows).length = 0 := by omega
    exact List.length_eq_zero_iff.mp hzero
  | succ fuel ih =>
    simp only [rounds]
    split
    · assumption
    · rename_i hnew
      have hpos : 0 < (added step rows).length := List.length_pos_iff.mpr hnew
      refine ih (append_added_nodup step hnodup) (append_added_subset hsubset hstep) ?_
      rw [List.length_append]
      omega

/-- The query finds what its base leads to, and nothing else. -/
theorem mem_rounds_iff {b : β} (hnodup : rows.Nodup) (hsubset : rows ⊆ universe_)
    (hstep : ∀ a ∈ universe_, ∀ b, Leads step a b → b ∈ universe_)
    (hfuel : universe_.length ≤ rows.length + fuel) :
    b ∈ rounds step fuel rows ↔ ∃ a ∈ rows, ReflTransGen (Leads step) a b := by
  constructor
  · exact rounds_derived
  · rintro ⟨a, ha, hab⟩
    have hclosed := rounds_closed hnodup hsubset hstep hfuel
    induction hab with
    | refl => exact mem_rounds_of_mem ha
    | tail _ hbc ih => exact added_empty hclosed ih hbc

end Rounds

section Pairs

variable {α : Type*} {next : α → List α} {roots universe_ : List α} {fuel : ℕ}

/-- `reach(root, node)`: what can be reached, with where from. -/
def fromRoot (next : α → List α) (row : α × α) : List (α × α) := (next row.2).map (row.1, ·)

def reach [DecidableEq α] (next : α → List α) (fuel : ℕ) (roots : List α) : List (α × α) :=
  rounds (fromRoot next) fuel (roots.map fun root => (root, root))

theorem leads_fromRoot {row row' : α × α} :
    Leads (fromRoot next) row row' ↔ row'.1 = row.1 ∧ Leads next row.2 row'.2 := by
  simp only [Leads, fromRoot, List.mem_map, Prod.ext_iff]
  constructor
  · rintro ⟨node, hnode, hroot, rfl⟩
    exact ⟨hroot.symm, hnode⟩
  · rintro ⟨hroot, hnode⟩
    exact ⟨row'.2, hnode, hroot.symm, rfl⟩

theorem derived_fromRoot {row row' : α × α} :
    ReflTransGen (Leads (fromRoot next)) row row' ↔
      row'.1 = row.1 ∧ ReflTransGen (Leads next) row.2 row'.2 := by
  constructor
  · intro h
    induction h with
    | refl => exact ⟨rfl, .refl⟩
    | tail _ hlast ih =>
      obtain ⟨hroot, hnode⟩ := leads_fromRoot.mp hlast
      exact ⟨hroot.trans ih.1, ih.2.tail hnode⟩
  · rintro ⟨hroot, h⟩
    obtain ⟨root, node⟩ := row
    obtain ⟨root', node'⟩ := row'
    obtain rfl : root' = root := hroot
    change ReflTransGen (Leads next) node node' at h
    induction h with
    | refl => exact .refl
    | tail _ hlast ih => exact ih.tail (leads_fromRoot.mpr ⟨rfl, hlast⟩)

/-- A pair is found if its root is one of the roots, and leads to its node. -/
theorem mem_reach_iff [DecidableEq α] {root node : α} (hnodup : roots.Nodup) (hsubset : roots ⊆ universe_)
    (hnext : ∀ a ∈ universe_, ∀ b, Leads next a b → b ∈ universe_)
    (hfuel : universe_.length * universe_.length ≤ fuel) :
    (root, node) ∈ reach next fuel roots ↔
      root ∈ roots ∧ ReflTransGen (Leads next) root node := by
  have hrows : (roots.map fun root => (root, root)) ⊆ universe_ ×ˢ universe_ := by
    intro row hrow
    obtain ⟨r, hr, rfl⟩ := List.mem_map.mp hrow
    exact List.pair_mem_product.mpr ⟨hsubset hr, hsubset hr⟩
  have hclosed : ∀ a ∈ universe_ ×ˢ universe_, ∀ b, Leads (fromRoot next) a b →
      b ∈ universe_ ×ˢ universe_ := by
    intro a ha b hab
    obtain ⟨hroot, hnode⟩ := leads_fromRoot.mp hab
    obtain ⟨ha₁, ha₂⟩ := List.mem_product.mp ha
    exact List.pair_mem_product.mpr ⟨hroot ▸ ha₁, hnext a.2 ha₂ b.2 hnode⟩
  have hlength : (universe_ ×ˢ universe_).length ≤
      (roots.map fun root => (root, root)).length + fuel := by
    rw [List.length_product]
    omega
  unfold reach
  rw [mem_rounds_iff (hnodup.map fun a b h => congrArg Prod.fst h) hrows hclosed hlength]
  simp only [derived_fromRoot, List.mem_map, exists_exists_and_eq_and]
  constructor
  · rintro ⟨r, hr, rfl, h⟩
    exact ⟨hr, h⟩
  · rintro ⟨hr, h⟩
    exact ⟨root, hr, rfl, h⟩

end Pairs

section Anchors

variable {α : Type*} {edge : α → α → Prop} {x y a b : α}

/-- A node with an edge is anchored where the edge leads, and the others at themselves. -/
def Anchored (edge : α → α → Prop) (x a : α) : Prop := edge x a ∨ a = x ∧ ∀ b, ¬ edge x b

/-- Each node has one edge at most, and an edge leads to a node without one. -/
structure Stars (edge : α → α → Prop) : Prop where
  single : ∀ x a b, edge x a → edge x b → a = b
  final : ∀ x a b, edge x a → ¬ edge a b

theorem anchored_final (h : Stars edge) (hxa : edge x a) : Anchored edge a a :=
  .inr ⟨rfl, fun b => h.final x a b hxa⟩

theorem anchored_unique (h : Stars edge) (ha : Anchored edge x a) (hb : Anchored edge x b) :
    a = b := by
  rcases ha with ha | ⟨rfl, ha⟩
  · rcases hb with hb | ⟨rfl, hb⟩
    · exact h.single x a b ha hb
    · exact absurd ha (hb a)
  · rcases hb with hb | ⟨rfl, hb⟩
    · exact absurd hb (ha b)
    · rfl

/-- What is connected has one anchor. -/
theorem anchored_along (h : Stars edge) (hxy : EqvGen edge x y) :
    Anchored edge x a ↔ Anchored edge y a := by
  induction hxy with
  | rel x y hxy =>
    have hy := anchored_final h hxy
    have hx : Anchored edge x y := .inl hxy
    constructor
    · intro ha
      rw [anchored_unique h ha hx]
      exact hy
    · intro ha
      rw [anchored_unique h ha hy]
      exact hx
  | refl x => exact Iff.rfl
  | symm x y _ ih => exact ih.symm
  | trans x y z _ _ hxy hyz => exact hxy.trans hyz

/-- Of what is connected, at most one node has no edge. -/
theorem connected_ends (h : Stars edge) (hxy : EqvGen edge x y) (hx : ∀ b, ¬ edge x b)
    (hy : ∀ b, ¬ edge y b) : x = y := by
  have hanchor : Anchored edge y x := (anchored_along h hxy).mp (.inr ⟨rfl, hx⟩)
  exact anchored_unique h hanchor (.inr ⟨rfl, hy⟩)

/-- Two connected nodes are the same one, lead to the same one, or one leads to the other. -/
theorem connected_cases (h : Stars edge) (hxy : EqvGen edge x y) :
    x = y ∨ edge x y ∨ edge y x ∨ ∃ a, edge x a ∧ edge y a := by
  by_cases hx : ∃ a, edge x a
  · obtain ⟨a, hxa⟩ := hx
    rcases (anchored_along h hxy).mp (.inl hxa) with hya | ⟨rfl, _⟩
    · exact .inr (.inr (.inr ⟨a, hxa, hya⟩))
    · exact .inr (.inl hxa)
  · have hnone : ∀ b, ¬ edge x b := fun b hb => hx ⟨b, hb⟩
    rcases (anchored_along h hxy).mp (.inr ⟨rfl, hnone⟩) with hyx | ⟨rfl, _⟩
    · exact .inr (.inr (.inl hyx))
    · exact .inl rfl

/-- A relation that carries edges to edges carries what is connected to what is connected. -/
theorem connected_transport {β : Type*} {edge' : β → β → Prop} {R : α → β → Prop}
    (hunique : ∀ x k k', R x k → R x k' → k = k')
    (hedge : ∀ x y, edge x y → ∃ k l, R x k ∧ R y l ∧ edge' k l) (hxy : EqvGen edge x y) :
    (∀ k, R x k → ∃ l, R y l ∧ EqvGen edge' k l) ∧
      ∀ l, R y l → ∃ k, R x k ∧ EqvGen edge' k l := by
  induction hxy with
  | rel x y hxy =>
    obtain ⟨k₀, l₀, hk₀, hl₀, he⟩ := hedge x y hxy
    constructor
    · intro k hk
      rw [hunique x k k₀ hk hk₀]
      exact ⟨l₀, hl₀, .rel _ _ he⟩
    · intro l hl
      rw [hunique y l l₀ hl hl₀]
      exact ⟨k₀, hk₀, .rel _ _ he⟩
  | refl x => exact ⟨fun k hk => ⟨k, hk, .refl k⟩, fun l hl => ⟨l, hl, .refl l⟩⟩
  | symm x y _ ih =>
    constructor
    · intro k hk
      obtain ⟨l, hl, hlk⟩ := ih.2 k hk
      exact ⟨l, hl, hlk.symm⟩
    · intro l hl
      obtain ⟨k, hk, hlk⟩ := ih.1 l hl
      exact ⟨k, hk, hlk.symm⟩
  | trans x y z _ _ hxy hyz =>
    constructor
    · intro k hk
      obtain ⟨l, hl, hkl⟩ := hxy.1 k hk
      obtain ⟨m, hm, hlm⟩ := hyz.1 l hl
      exact ⟨m, hm, hkl.trans _ _ _ hlm⟩
    · intro m hm
      obtain ⟨l, hl, hlm⟩ := hyz.2 m hm
      obtain ⟨k, hk, hkl⟩ := hxy.2 l hl
      exact ⟨k, hk, hkl.trans _ _ _ hlm⟩

end Anchors

end RecursiveQuery
