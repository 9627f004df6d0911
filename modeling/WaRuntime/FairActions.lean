import Mathlib.Order.WellFounded
import WaRuntime.FairRuns

/-! Runs that put no action off for ever.
An action is a set of events, which may depend on the state, such as every statement that a worker
could run next. A fair run takes an event of it again and again, or finds none enabled again and
again. What is pending has a rank in a well-founded order and one action that lowers it. -/
namespace FairActions

open TransitionRuns FairRuns

variable {σ ε ι α : Type*} {M : System σ ε}

def CanTake (M : System σ ε) (action : σ → ε → Prop) (s : σ) : Prop :=
  ∃ e, M.enabled s e ∧ action s e

def Takes (p : Path M) (action : σ → ε → Prop) (n : ℕ) : Prop :=
  ∃ e, p.event n = some e ∧ action (p.state n) e

/-- Weak fairness: no action can be taken from some instant on without ever being taken. -/
def Fair (p : Path M) (actions : ι → σ → ε → Prop) : Prop :=
  ∀ i n, ∃ m, n ≤ m ∧ (CanTake M (actions i) (p.state m) → Takes p (actions i) m)

theorem state_reachable (p : Path M) (n : ℕ) : Reachable M (p.state n) := by
  induction n with
  | zero => exact reachable_of_initial p.starts
  | succ n ih =>
    cases he : p.event n with
    | none =>
      rw [p.pauses n he]
      exact ih
    | some e =>
      obtain ⟨henabled, hnext⟩ := p.steps n e he
      rw [hnext]
      exact ih.step henabled

/-- What every step keeps holds from `n` on. -/
theorem stays {P : σ → Prop} (p : Path M)
    (hstep : ∀ s e, Reachable M s → P s → M.enabled s e → P (M.next s e)) {n : ℕ}
    (hn : P (p.state n)) {m : ℕ} (hnm : n ≤ m) : P (p.state m) := by
  induction m, hnm using Nat.le_induction with
  | base => exact hn
  | succ m _ ih =>
    cases he : p.event m with
    | none =>
      rw [p.pauses m he]
      exact ih
    | some e =>
      obtain ⟨henabled, hnext⟩ := p.steps m e he
      rw [hnext]
      exact hstep _ e (state_reachable p m) ih henabled

/-- While something is pending, its helpful action can be taken and brings it nearer; the other
steps bring it nearer too, or leave the rank and the helpful action as they are. -/
structure Progress [Preorder α] (M : System σ ε) (actions : ι → σ → ε → Prop)
    (goal pending : σ → Prop) (rank : σ → α) (helpful : σ → ι) : Prop where
  possible : ∀ s, pending s → CanTake M (actions (helpful s)) s
  helps : ∀ s e, pending s → M.enabled s e → actions (helpful s) s e →
    goal (M.next s e) ∨ (pending (M.next s e) ∧ rank (M.next s e) < rank s)
  keeps : ∀ s e, pending s → M.enabled s e →
    goal (M.next s e) ∨ (pending (M.next s e) ∧ (rank (M.next s e) < rank s ∨
      (rank (M.next s e) = rank s ∧ helpful (M.next s e) = helpful s)))

section Progress

variable [Preorder α] {actions : ι → σ → ε → Prop} {goal pending : σ → Prop} {rank : σ → α}
  {helpful : σ → ι} {p : Path M}

/-- After any number of instants the goal has been reached, the rank has become lower, or both the
rank and the helpful action are still the same. -/
theorem Progress.waits (h : Progress M actions goal pending rank helpful) {n m : ℕ}
    (hn : pending (p.state n)) (hnm : n ≤ m) :
    (∃ j, n ≤ j ∧ goal (p.state j)) ∨
      (∃ j, n ≤ j ∧ pending (p.state j) ∧ rank (p.state j) < rank (p.state n)) ∨
      (pending (p.state m) ∧ rank (p.state m) = rank (p.state n) ∧
        helpful (p.state m) = helpful (p.state n)) := by
  induction m, hnm using Nat.le_induction with
  | base => exact .inr (.inr ⟨hn, rfl, rfl⟩)
  | succ m hnm ih =>
    rcases ih with hgoal | hless | ⟨hpending, hrank, hhelpful⟩
    · exact .inl hgoal
    · exact .inr (.inl hless)
    cases he : p.event m with
    | none =>
      rw [p.pauses m he]
      exact .inr (.inr ⟨hpending, hrank, hhelpful⟩)
    | some e =>
      obtain ⟨henabled, hnext⟩ := p.steps m e he
      have hkeeps := h.keeps _ e hpending henabled
      rw [← hnext] at hkeeps
      rcases hkeeps with hgoal | ⟨hpending', hless | ⟨hrank', hhelpful'⟩⟩
      · exact .inl ⟨m + 1, by omega, hgoal⟩
      · refine .inr (.inl ⟨m + 1, by omega, hpending', ?_⟩)
        rwa [← hrank]
      · exact .inr (.inr ⟨hpending', hrank'.trans hrank, hhelpful'.trans hhelpful⟩)

/-- Until the helpful action is taken nothing gets lost, and fairness takes it. -/
theorem Progress.lowers (h : Progress M actions goal pending rank helpful) (hfair : Fair p actions)
    {n : ℕ} (hn : pending (p.state n)) :
    (∃ j, n ≤ j ∧ goal (p.state j)) ∨
      ∃ j, n ≤ j ∧ pending (p.state j) ∧ rank (p.state j) < rank (p.state n) := by
  obtain ⟨m, hnm, hm⟩ := hfair (helpful (p.state n)) n
  rcases h.waits hn hnm with hgoal | hless | ⟨hpending, hrank, hhelpful⟩
  · exact .inl hgoal
  · exact .inr hless
  · rw [← hhelpful] at hm
    obtain ⟨e, he, haction⟩ := hm (h.possible _ hpending)
    obtain ⟨henabled, hnext⟩ := p.steps m e he
    have hhelps := h.helps _ e hpending henabled haction
    rw [← hnext] at hhelps
    rcases hhelps with hgoal | ⟨hpending', hless⟩
    · exact .inl ⟨m + 1, by omega, hgoal⟩
    · refine .inr ⟨m + 1, by omega, hpending', ?_⟩
      rwa [← hrank]

/-- What is pending in a fair run reaches its goal. -/
theorem Progress.reaches [WellFoundedLT α] (h : Progress M actions goal pending rank helpful)
    (hfair : Fair p actions) {n : ℕ} (hn : pending (p.state n)) :
    ∃ m, n ≤ m ∧ goal (p.state m) := by
  -- the induction is on the rank that is left
  induction hr : rank (p.state n) using WellFoundedLT.induction generalizing n with
  | _ r ih =>
    subst hr
    rcases h.lowers hfair hn with hgoal | ⟨j, hnj, hpending, hless⟩
    · exact hgoal
    · obtain ⟨m, hjm, hgoal⟩ := ih _ hless hpending rfl
      exact ⟨m, hnj.trans hjm, hgoal⟩

end Progress

section Loops

variable {s : σ} {es : List ε} {e : ε}

/-- The states of a trace after which one event is taken for ever. -/
def loopState (M : System σ ε) (s : σ) (es : List ε) (e : ε) (n : Nat) : σ :=
  (M.next · e)^[n - es.length] (runTrace M s (es.take n))

theorem loop_starts (hi : M.initial s) : M.initial (loopState M s es e 0) := by
  simpa [loopState, runTrace] using hi

theorem loop_steps (h : ValidTrace M s es)
    (hloop : ∀ n, M.enabled ((M.next · e)^[n] (runTrace M s es)) e) (n : Nat) (f : ε)
    (hf : some (es[n]?.getD e) = some f) :
    M.enabled (loopState M s es e n) f ∧
      loopState M s es e (n + 1) = M.next (loopState M s es e n) f := by
  obtain rfl : es[n]?.getD e = f := Option.some.inj hf
  rcases Nat.lt_or_ge n es.length with hn | hn
  · obtain ⟨henabled, hnext⟩ := trace_steps h (List.getElem?_eq_getElem hn)
    rw [loopState, loopState, List.getElem?_eq_getElem hn, Nat.sub_eq_zero_of_le hn.le,
      Nat.sub_eq_zero_of_le hn]
    exact ⟨henabled, hnext⟩
  · rw [loopState, loopState, List.getElem?_eq_none hn, List.take_of_length_le hn,
      List.take_of_length_le (by omega), Nat.succ_sub hn, Function.iterate_succ_apply']
    exact ⟨hloop _, rfl⟩

/-- A trace after which one event is taken for ever. -/
def loopPath (hi : M.initial s) (h : ValidTrace M s es)
    (hloop : ∀ n, M.enabled ((M.next · e)^[n] (runTrace M s es)) e) : Path M where
  state := loopState M s es e
  event n := some (es[n]?.getD e)
  starts := loop_starts hi
  pauses _ hn := absurd hn (Option.some_ne_none _)
  steps := loop_steps h hloop

/-- The loop is fair where each action either has its event or can never be taken in it. -/
theorem loop_fair {actions : ι → σ → ε → Prop} (hi : M.initial s) (h : ValidTrace M s es)
    (hloop : ∀ n, M.enabled ((M.next · e)^[n] (runTrace M s es)) e)
    (hrest : ∀ i n, CanTake M (actions i) ((M.next · e)^[n] (runTrace M s es)) →
      actions i ((M.next · e)^[n] (runTrace M s es)) e) :
    Fair (loopPath hi h hloop) actions := by
  intro i n
  have hlength : es.length ≤ max n es.length := Nat.le_max_right _ _
  refine ⟨max n es.length, Nat.le_max_left _ _, fun hcan => ⟨e, ?_, ?_⟩⟩
  · simp [loopPath]
  · simp only [loopPath, loopState, List.take_of_length_le hlength] at hcan ⊢
    exact hrest i _ hcan

end Loops

end FairActions
