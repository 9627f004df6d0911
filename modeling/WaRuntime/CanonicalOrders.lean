import Mathlib.Data.Char
import Mathlib.Data.List.Lex
import Mathlib.Data.List.Sort
import Mathlib.Order.Nat

/-! Sets that are kept as sorted lists.
Under a total order all lists of the same members have one sorted form. Two orders give the same
form exactly where they compare the members alike. -/
namespace CanonicalOrders

variable {α β : Type*}

structure TotalOrder (α : Type*) where
  le : α → α → Prop
  decidable : DecidableRel le
  total : ∀ a b, le a b ∨ le b a
  trans : ∀ a b c, le a b → le b c → le a c
  antisymm : ∀ a b, le a b → le b a → a = b

namespace TotalOrder

variable (o p : TotalOrder α) {l m : List α}

instance : Std.Total o.le := ⟨o.total⟩

instance : IsTrans α o.le := ⟨o.trans⟩

instance : Std.Antisymm o.le := ⟨o.antisymm⟩

/-- The order of the values of an injective function. -/
def lift (o : TotalOrder β) (f : α → β) (hf : Function.Injective f) : TotalOrder α where
  le a b := o.le (f a) (f b)
  decidable a b := o.decidable (f a) (f b)
  total a b := o.total (f a) (f b)
  trans a b c := o.trans (f a) (f b) (f c)
  antisymm a b hab hba := hf (o.antisymm (f a) (f b) hab hba)

def sort (l : List α) : List α := @List.insertionSort α o.le o.decidable l

theorem sort_perm (l : List α) : (o.sort l).Perm l :=
  @List.perm_insertionSort α o.le o.decidable l

theorem sort_pairwise (l : List α) : (o.sort l).Pairwise o.le :=
  @List.pairwise_insertionSort α o.le o.decidable _ _ l

theorem mem_sort {a : α} : a ∈ o.sort l ↔ a ∈ l := (o.sort_perm l).mem_iff

theorem sort_eq_of_pairwise (h : l.Pairwise o.le) : o.sort l = l :=
  (o.sort_perm l).eq_of_pairwise' (o.sort_pairwise l) h

@[simp] theorem sort_sort (l : List α) : o.sort (o.sort l) = o.sort l :=
  o.sort_eq_of_pairwise (o.sort_pairwise l)

theorem sort_eq_iff_perm : o.sort l = o.sort m ↔ l.Perm m := by
  constructor
  · intro h
    exact (o.sort_perm l).symm.trans (h ▸ o.sort_perm m)
  · intro h
    refine List.Perm.eq_of_pairwise' (o.sort_pairwise l) (o.sort_pairwise m) ?_
    exact ((o.sort_perm l).trans h).trans (o.sort_perm m).symm

/-- The orders compare the members of the list alike. -/
def Alike (l : List α) : Prop := ∀ a ∈ l, ∀ b ∈ l, o.le a b ↔ p.le a b

theorem le_self (a : α) : o.le a a := (o.total a a).elim id id

theorem alike_of_pairwise (ho : l.Pairwise o.le) (hp : l.Pairwise p.le) : Alike o p l := by
  induction l with
  | nil => exact fun a ha => (nomatch ha)
  | cons x l ih =>
    obtain ⟨hox, ho⟩ := List.pairwise_cons.mp ho
    obtain ⟨hpx, hp⟩ := List.pairwise_cons.mp hp
    intro a ha b hb
    by_cases hab : a = b
    · subst hab
      exact ⟨fun _ => p.le_self a, fun _ => o.le_self a⟩
    · obtain hax | ha := List.mem_cons.mp ha
      · subst hax
        have hb : b ∈ l := (List.mem_cons.mp hb).resolve_left fun h => hab h.symm
        exact ⟨fun _ => hpx b hb, fun _ => hox b hb⟩
      · have hxa := And.intro (hox a ha) (hpx a ha)
        obtain hbx | hb := List.mem_cons.mp hb
        · rw [← hbx] at hxa
          exact ⟨fun h => absurd (o.antisymm a b h hxa.1) hab,
            fun h => absurd (p.antisymm a b h hxa.2) hab⟩
        · exact ih ho hp a ha b hb

theorem sorts_eq_iff (l : List α) : o.sort l = p.sort l ↔ Alike o p l := by
  constructor
  · intro h a ha b hb
    have hp : (o.sort l).Pairwise p.le := h ▸ p.sort_pairwise l
    exact alike_of_pairwise o p (o.sort_pairwise l) hp a (o.mem_sort.mpr ha) b (o.mem_sort.mpr hb)
  · intro h
    have hp : (o.sort l).Pairwise p.le := by
      refine (o.sort_pairwise l).imp_of_mem fun ha hb hab => ?_
      exact (h _ (o.mem_sort.mp ha) _ (o.mem_sort.mp hb)).mp hab
    have hperm : (o.sort l).Perm (p.sort l) := (o.sort_perm l).trans (p.sort_perm l).symm
    exact hperm.eq_of_pairwise' hp (p.sort_pairwise l)

/-- First by the one, then by the other. -/
def prod (o : TotalOrder α) (p : TotalOrder β) : TotalOrder (α × β) where
  le a b := o.le a.1 b.1 ∧ (a.1 = b.1 → p.le a.2 b.2)
  decidable a b := by
    have hfirst : Decidable (o.le a.1 b.1) := o.decidable a.1 b.1
    have hback : Decidable (o.le b.1 a.1) := o.decidable b.1 a.1
    have hsecond : Decidable (p.le a.2 b.2) := p.decidable a.2 b.2
    refine decidable_of_iff (o.le a.1 b.1 ∧ (o.le b.1 a.1 → p.le a.2 b.2)) ?_
    refine and_congr_right fun hle => ⟨fun h heq => h (heq ▸ o.le_self a.1), fun h hge => ?_⟩
    exact h (o.antisymm a.1 b.1 hle hge)
  total a b := by
    by_cases heq : a.1 = b.1
    · obtain h | h := p.total a.2 b.2
      · exact .inl ⟨heq ▸ o.le_self a.1, fun _ => h⟩
      · exact .inr ⟨heq ▸ o.le_self a.1, fun _ => h⟩
    · obtain h | h := o.total a.1 b.1
      · exact .inl ⟨h, fun h' => absurd h' heq⟩
      · exact .inr ⟨h, fun h' => absurd h'.symm heq⟩
  trans a b c hab hbc := by
    refine ⟨o.trans _ _ _ hab.1 hbc.1, fun heq => ?_⟩
    have hba : o.le b.1 a.1 := heq ▸ hbc.1
    have heqb : a.1 = b.1 := o.antisymm _ _ hab.1 hba
    exact p.trans _ _ _ (hab.2 heqb) (hbc.2 (heqb.symm.trans heq))
  antisymm a b hab hba := by
    have heq : a.1 = b.1 := o.antisymm _ _ hab.1 hba.1
    exact Prod.ext heq (p.antisymm _ _ (hab.2 heq) (hba.2 heq.symm))

/-- A descending order of a column. -/
def reverse (o : TotalOrder α) : TotalOrder α where
  le a b := o.le b a
  decidable a b := o.decidable b a
  total a b := o.total b a
  trans _ _ _ hab hbc := o.trans _ _ _ hbc hab
  antisymm _ _ hab hba := o.antisymm _ _ hba hab

/-- The order that a type comes with. -/
def ascending (α : Type*) [LinearOrder α] : TotalOrder α where
  le a b := a ≤ b
  decidable _ _ := inferInstance
  total := le_total
  trans _ _ _ := le_trans
  antisymm _ _ := le_antisymm

/-- Texts under the collation "C". -/
def codePoints : TotalOrder String where
  le a b := a.toList ≤ b.toList
  decidable _ _ := inferInstance
  total _ _ := le_total _ _
  trans _ _ _ := le_trans
  antisymm _ _ h h' := String.toList_injective (le_antisymm h h')

/-- A descending order of flags: true comes first. -/
def flagDesc : TotalOrder Bool where
  le a b := b = true → a = true
  decidable _ _ := inferInstance
  total := by decide
  trans := by decide
  antisymm := by decide

/-- An ascending order of a column: NULL comes last. -/
def nullsLast (o : TotalOrder α) : TotalOrder (Option α) where
  le
    | _, none => True
    | none, some _ => False
    | some a, some b => o.le a b
  decidable
    | none, none => isTrue trivial
    | some _, none => isTrue trivial
    | none, some _ => isFalse id
    | some a, some b => o.decidable a b
  total a b := by
    cases a with
    | none => exact .inr (by cases b <;> trivial)
    | some a =>
      cases b with
      | none => exact .inl trivial
      | some b => exact o.total a b
  trans a b c hab hbc := by
    cases c with
    | none => cases a <;> trivial
    | some c =>
      cases b with
      | none => exact hbc.elim
      | some b =>
        cases a with
        | none => exact hab.elim
        | some a => exact o.trans a b c hab hbc
  antisymm a b hab hba := by
    cases a with
    | none =>
      cases b with
      | none => rfl
      | some b => exact hab.elim
    | some a =>
      cases b with
      | none => exact hba.elim
      | some b => exact congrArg some (o.antisymm a b hab hba)

section Keys

variable {f : β → α} {l m : List β}

/-- ORDER BY the key. -/
def sortBy (f : β → α) (l : List β) : List β :=
  @List.insertionSort β (fun a b => o.le (f a) (f b)) (fun a b => o.decidable (f a) (f b)) l

theorem sortBy_perm : (o.sortBy f l).Perm l :=
  @List.perm_insertionSort β (fun a b => o.le (f a) (f b)) (fun a b => o.decidable (f a) (f b)) l

theorem sortBy_pairwise : (o.sortBy f l).Pairwise fun a b => o.le (f a) (f b) :=
  @List.pairwise_insertionSort β (fun a b => o.le (f a) (f b))
    (fun a b => o.decidable (f a) (f b)) ⟨fun a b => o.total (f a) (f b)⟩
    ⟨fun a b c => o.trans (f a) (f b) (f c)⟩ l

/-- Where no two rows share a key, the order in which they were found does not matter. -/
theorem sortBy_eq_of_perm (hkey : ∀ a ∈ l, ∀ b ∈ l, f a = f b → a = b) (h : l.Perm m) :
    o.sortBy f l = o.sortBy f m := by
  have hperm : (o.sortBy f l).Perm (o.sortBy f m) :=
    (o.sortBy_perm.trans h).trans o.sortBy_perm.symm
  refine hperm.eq_of_pairwise (fun a b ha hb hab hba => ?_) o.sortBy_pairwise o.sortBy_pairwise
  have ha : a ∈ l := o.sortBy_perm.mem_iff.mp ha
  have hb : b ∈ l := h.mem_iff.mpr (o.sortBy_perm.mem_iff.mp hb)
  exact hkey a ha b hb (o.antisymm _ _ hab hba)

/-- The first row in the order of the key. -/
def firstBy (f : β → α) (l : List β) : Option β := (o.sortBy f l).head?

theorem firstBy_eq_none : o.firstBy f l = none ↔ l = [] := by
  have hlength := (o.sortBy_perm (f := f) (l := l)).length_eq
  rw [firstBy, List.head?_eq_none_iff, ← List.length_eq_zero_iff, hlength,
    List.length_eq_zero_iff]

theorem firstBy_mem {b : β} (h : o.firstBy f l = some b) : b ∈ l :=
  o.sortBy_perm.mem_iff.mp (List.mem_of_head? h)

theorem firstBy_le {a b : β} (h : o.firstBy f l = some b) (ha : a ∈ l) : o.le (f b) (f a) := by
  obtain ⟨rest, hrest⟩ := List.head?_eq_some_iff.mp h
  have hmem : a ∈ b :: rest := by
    rw [← hrest]
    exact o.sortBy_perm.mem_iff.mpr ha
  have hsorted := o.sortBy_pairwise (f := f) (l := l)
  rw [hrest, List.pairwise_cons] at hsorted
  rcases List.mem_cons.mp hmem with rfl | hin
  · exact o.le_self _
  · exact hsorted.1 a hin

/-- The row with the greatest key. -/
def greatestBy (f : β → α) (l : List β) : Option β := (o.sortBy f l).getLast?

theorem greatestBy_eq_none : o.greatestBy f l = none ↔ l = [] := by
  have hlength := (o.sortBy_perm (f := f) (l := l)).length_eq
  rw [greatestBy, List.getLast?_eq_none_iff, ← List.length_eq_zero_iff, hlength,
    List.length_eq_zero_iff]

theorem greatestBy_mem {b : β} (h : o.greatestBy f l = some b) : b ∈ l :=
  o.sortBy_perm.mem_iff.mp (List.mem_of_getLast? h)

theorem le_greatestBy {a b : β} (h : o.greatestBy f l = some b) (ha : a ∈ l) :
    o.le (f a) (f b) := by
  obtain ⟨front, hfront⟩ := List.getLast?_eq_some_iff.mp h
  have hmem : a ∈ front ++ [b] := by
    rw [← hfront]
    exact o.sortBy_perm.mem_iff.mpr ha
  have hsorted := o.sortBy_pairwise (f := f) (l := l)
  rw [hfront, List.pairwise_append] at hsorted
  rcases List.mem_append.mp hmem with hin | hin
  · exact hsorted.2.2 a hin b (by simp)
  · rw [List.mem_singleton.mp hin]
    exact o.le_self _

/-- Where no two rows share a key, the greatest is the one that no other exceeds. -/
theorem greatestBy_eq_some {b : β} (hkey : ∀ x ∈ l, ∀ y ∈ l, f x = f y → x = y) :
    o.greatestBy f l = some b ↔ b ∈ l ∧ ∀ a ∈ l, o.le (f a) (f b) := by
  constructor
  · intro h
    exact ⟨o.greatestBy_mem h, fun a ha => o.le_greatestBy h ha⟩
  · rintro ⟨hb, hle⟩
    cases hg : o.greatestBy f l with
    | none =>
      rw [o.greatestBy_eq_none.mp hg] at hb
      cases hb
    | some c =>
      have hc := o.greatestBy_mem hg
      rw [hkey b hb c hc (o.antisymm _ _ (o.le_greatestBy hg hb) (hle c hc))]

/-- The key of `b` comes strictly after that of `a`. -/
def Exceeds (f : β → α) (b a : β) : Prop := o.le (f a) (f b) ∧ f a ≠ f b

theorem exceeds_trans {a b c : β} (hcb : o.Exceeds f c b) (hba : o.Exceeds f b a) :
    o.Exceeds f c a := by
  refine ⟨o.trans _ _ _ hba.1 hcb.1, fun heq => hba.2 ?_⟩
  exact o.antisymm _ _ hba.1 (heq ▸ hcb.1)

/-- Rows that a common row exceeds may be missing or added: the greatest row stays the same. -/
theorem greatestBy_of_exceeded (hl : ∀ x ∈ l, ∀ y ∈ l, f x = f y → x = y)
    (hm : ∀ x ∈ m, ∀ y ∈ m, f x = f y → x = y)
    (hlm : ∀ a ∈ l, a ∈ m ∨ ∃ b ∈ l, b ∈ m ∧ o.Exceeds f b a)
    (hml : ∀ a ∈ m, a ∈ l ∨ ∃ b ∈ l, b ∈ m ∧ o.Exceeds f b a) :
    o.greatestBy f l = o.greatestBy f m := by
  cases hg : o.greatestBy f l with
  | none =>
    have hnil : l = [] := o.greatestBy_eq_none.mp hg
    subst hnil
    have hempty : m = [] := by
      refine List.eq_nil_iff_forall_not_mem.mpr fun a ha => ?_
      rcases hml a ha with hl | ⟨b, hb, _⟩
      · cases hl
      · cases hb
    exact (o.greatestBy_eq_none.mpr hempty).symm
  | some g =>
    have hgl : g ∈ l := o.greatestBy_mem hg
    refine ((o.greatestBy_eq_some hm).mpr ⟨?_, fun a ha => ?_⟩).symm
    · rcases hlm g hgl with hgm | ⟨b, hb, _, hle, hne⟩
      · exact hgm
      · exact absurd (o.antisymm _ _ hle (o.le_greatestBy hg hb)) hne
    · rcases hml a ha with hal | ⟨b, hb, _, hle, _⟩
      · exact o.le_greatestBy hg hal
      · exact o.trans _ _ _ hle (o.le_greatestBy hg hb)

end Keys

end TotalOrder

/-- A code in which no word begins another one can be read back. -/
theorem flatMap_injective {f : α → List β} (hne : ∀ a, f a ≠ [])
    (hf : ∀ a b x y, f a ++ x = f b ++ y → a = b) :
    Function.Injective fun l : List α => l.flatMap f := by
  intro l
  induction l with
  | nil =>
    intro m h
    cases m with
    | nil => rfl
    | cons b m => simp [hne b] at h
  | cons a l ih =>
    intro m h
    cases m with
    | nil => simp [hne a] at h
    | cons b m =>
      simp only [List.flatMap_cons] at h
      obtain rfl := hf a b _ _ h
      rw [ih (List.append_cancel_left h)]

end CanonicalOrders
