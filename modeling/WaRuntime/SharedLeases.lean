import Mathlib.Data.Nat.Notation
import Mathlib.Data.Option.Basic
import Mathlib.Order.Nat

/-! A lease in one shared row, of which each holder keeps a copy in a row of its own.
A copy may run out before the shared lease does, never after it, so whoever takes the shared lease
over finds every copy expired. Holders are of any type. -/
namespace SharedLeases

structure Lease where
  token : ℕ
  expiresAt : ℕ
  deriving DecidableEq, Repr

structure Leases (H : Type*) where
  shared : Option Lease
  held : H → Option Lease

variable {H : Type*} {clock clock' drawn drawn' : ℕ} {l l' : Leases H} {h k : H} {lease other : Lease}

/-- All holders but `h` keep their copies or lose them. -/
def Others (h : H) (l l' : Leases H) : Prop :=
  ∀ k, k ≠ h → l'.held k = none ∨ l'.held k = l.held k

/-- What one transaction that commits at `clock` may do to the leases; `drawn` tokens exist before
it and `drawn'` after it. -/
inductive Move (clock drawn drawn' : ℕ) (l l' : Leases H) : Prop where
  | acquire (h : H) (lease : Lease) :
      (∀ old, l.shared = some old → old.expiresAt < clock) →
      drawn ≤ lease.token → lease.token < drawn' →
      l'.shared = some lease → l'.held h = some lease → Others h l l' →
      Move clock drawn drawn' l l'
  | renew (h : H) (old own lease renewed : Lease) :
      l.held h = some old → own.token = old.token → l.shared = some lease →
      lease.token = old.token → l'.held h = some own → l'.shared = some renewed →
      renewed.token = lease.token → own.expiresAt ≤ renewed.expiresAt → Others h l l' →
      Move clock drawn drawn' l l'
  | finish (h : H) (old : Lease) :
      l.held h = some old → l'.held h = none →
      (l'.shared = l.shared ∨ l'.shared = none ∧ ∃ lease, l.shared = some lease ∧
        lease.token = old.token) →
      Others h l l' → Move clock drawn drawn' l l'
  | lapse :
      (l'.shared = l.shared ∨ l'.shared = none ∧ ∀ lease, l.shared = some lease →
        lease.expiresAt < clock) →
      (∀ k, l'.held k = none ∨ l'.held k = l.held k) → Move clock drawn drawn' l l'

/-- The shared lease is the one that `lease` is a copy of, and outlasts it. -/
def Covers (l : Leases H) (lease : Lease) : Prop :=
  ∃ whole, l.shared = some whole ∧ whole.token = lease.token ∧ lease.expiresAt ≤ whole.expiresAt

structure Exclusive (clock drawn : ℕ) (l : Leases H) : Prop where
  bounded : ∀ h lease, l.held h = some lease → lease.token < drawn
  covered : ∀ h lease, l.held h = some lease → lease.expiresAt < clock ∨ Covers l lease
  distinct : ∀ h k lease other, l.held h = some lease → l.held k = some other →
    lease.token = other.token → h = k

theorem exclusive_empty (hl : ∀ h, l.held h = none) : Exclusive clock drawn l where
  bounded h lease hh := by simp [hl h] at hh
  covered h lease hh := by simp [hl h] at hh
  distinct h _ lease _ hh := by simp [hl h] at hh

theorem Exclusive.later (he : Exclusive clock drawn l) (hle : clock ≤ clock') :
    Exclusive clock' drawn l where
  bounded := he.bounded
  covered h lease hh := by
    rcases he.covered h lease hh with hlt | hc
    · exact .inl (by omega)
    · exact .inr hc
  distinct := he.distinct

theorem held_of_others (ho : Others h l l') (hne : k ≠ h) (hk : l'.held k = some lease) :
    l.held k = some lease := by
  rcases ho k hne with hnone | hsame
  · rw [hnone] at hk
    cases hk
  · rw [← hsame, hk]

/-- What a copy is covered by, once the shared lease has run out. -/
theorem Exclusive.expired_of_shared (he : Exclusive clock drawn l) (hh : l.held h = some lease)
    (hs : ∀ whole, l.shared = some whole → whole.expiresAt < clock) : lease.expiresAt < clock := by
  rcases he.covered h lease hh with hlt | ⟨whole, hwhole, _, hle⟩
  · exact hlt
  · have := hs whole hwhole
    omega

/-- Only one holder has a copy of a lease, so a copy of another's lease has expired. -/
theorem Exclusive.expired_of_other (he : Exclusive clock drawn l) (hh : l.held h = some lease)
    (hk : l.held k = some other) (hne : k ≠ h)
    (hs : ∀ whole, l.shared = some whole → whole.token = lease.token) :
    other.expiresAt < clock := by
  rcases he.covered k other hk with hlt | ⟨whole, hwhole, htoken, _⟩
  · exact hlt
  · have heq : lease.token = other.token := (hs whole hwhole).symm.trans htoken
    exact absurd (he.distinct h k lease other hh hk heq).symm hne

theorem move_exclusive (he : Exclusive clock drawn l) (hle : drawn ≤ drawn')
    (hm : Move clock drawn drawn' l l') : Exclusive clock drawn' l' := by
  cases hm with
  | acquire h lease hfree hfresh hdrawn hshared hheld hothers =>
    constructor
    · intro k other hk
      by_cases hne : k = h
      · subst hne
        rw [hheld] at hk
        cases hk
        exact hdrawn
      · exact lt_of_lt_of_le (he.bounded k other (held_of_others hothers hne hk)) hle
    · intro k other hk
      by_cases hne : k = h
      · subst hne
        rw [hheld] at hk
        cases hk
        exact .inr ⟨lease, hshared, rfl, Nat.le_refl _⟩
      · exact .inl (he.expired_of_shared (held_of_others hothers hne hk) hfree)
    · intro j k first second hj hk heq
      by_cases hjh : j = h
      · by_cases hkh : k = h
        · rw [hjh, hkh]
        · rw [hjh, hheld] at hj
          cases hj
          have := he.bounded k second (held_of_others hothers hkh hk)
          omega
      · by_cases hkh : k = h
        · rw [hkh, hheld] at hk
          cases hk
          have := he.bounded j first (held_of_others hothers hjh hj)
          omega
        · exact he.distinct j k first second (held_of_others hothers hjh hj)
            (held_of_others hothers hkh hk) heq
  | renew h old own lease renewed hold hown hlease hsame hheld hshared hrenewed hlater hothers =>
    constructor
    · intro k other hk
      by_cases hne : k = h
      · subst hne
        rw [hheld] at hk
        cases hk
        have := he.bounded k old hold
        omega
      · exact lt_of_lt_of_le (he.bounded k other (held_of_others hothers hne hk)) hle
    · intro k other hk
      by_cases hne : k = h
      · subst hne
        rw [hheld] at hk
        cases hk
        exact .inr ⟨renewed, hshared, by omega, hlater⟩
      · refine .inl (he.expired_of_other hold (held_of_others hothers hne hk) hne ?_)
        intro whole hwhole
        rw [hlease] at hwhole
        cases hwhole
        exact hsame
    · intro j k first second hj hk heq
      -- The renewed copy stands for the one it replaces.
      have hback : ∀ i copy, l'.held i = some copy → ∃ before, l.held i = some before ∧
          before.token = copy.token := by
        intro i copy hi
        by_cases hih : i = h
        · subst hih
          rw [hheld] at hi
          cases hi
          exact ⟨old, hold, hown.symm⟩
        · exact ⟨copy, held_of_others hothers hih hi, rfl⟩
      obtain ⟨first', hfirst, htoken⟩ := hback j first hj
      obtain ⟨second', hsecond, htoken'⟩ := hback k second hk
      exact he.distinct j k first' second' hfirst hsecond (by omega)
  | finish h old hold hnone hshared hothers =>
    have hback : ∀ k copy, l'.held k = some copy → k ≠ h ∧ l.held k = some copy := by
      intro k copy hk
      have hne : k ≠ h := by
        intro hkh
        rw [hkh, hnone] at hk
        cases hk
      exact ⟨hne, held_of_others hothers hne hk⟩
    constructor
    · intro k copy hk
      exact lt_of_lt_of_le (he.bounded k copy (hback k copy hk).2) hle
    · intro k copy hk
      obtain ⟨hne, hk'⟩ := hback k copy hk
      rcases hshared with hkeep | ⟨_, whole, hwhole, htoken⟩
      · unfold Covers
        rw [hkeep]
        exact he.covered k copy hk'
      · refine .inl (he.expired_of_other hold hk' hne ?_)
        intro whole' hwhole'
        rw [hwhole] at hwhole'
        cases hwhole'
        exact htoken
    · intro j k first second hj hk heq
      exact he.distinct j k first second (hback j first hj).2 (hback k second hk).2 heq
  | lapse hshared hkept =>
    have hback : ∀ k copy, l'.held k = some copy → l.held k = some copy := by
      intro k copy hk
      rcases hkept k with hnone | hsame
      · rw [hnone] at hk
        cases hk
      · rw [← hsame, hk]
    constructor
    · intro k copy hk
      exact lt_of_lt_of_le (he.bounded k copy (hback k copy hk)) hle
    · intro k copy hk
      rcases hshared with hkeep | ⟨_, hexpired⟩
      · unfold Covers
        rw [hkeep]
        exact he.covered k copy (hback k copy hk)
      · exact .inl (he.expired_of_shared (hback k copy hk) hexpired)
    · intro j k first second hj hk heq
      exact he.distinct j k first second (hback j first hj) (hback k second hk) heq

/-- At most one lease is unexpired, and it is the shared one. -/
theorem Exclusive.unique (he : Exclusive clock drawn l) (hh : l.held h = some lease)
    (hk : l.held k = some other) (ha : clock ≤ lease.expiresAt) (hb : clock ≤ other.expiresAt) :
    h = k ∧ Covers l lease := by
  rcases he.covered h lease hh with hlt | hc
  · omega
  · rcases he.covered k other hk with hlt | ⟨whole', hwhole', htoken', _⟩
    · omega
    · have hcovers := hc
      obtain ⟨whole, hwhole, htoken, _⟩ := hc
      rw [hwhole] at hwhole'
      cases hwhole'
      exact ⟨he.distinct h k lease other hh hk (by omega), hcovers⟩

end SharedLeases
