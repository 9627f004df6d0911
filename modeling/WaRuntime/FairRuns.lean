import WaRuntime.TransitionRuns

/-! Infinite runs, and what they come to when some events are not put off for ever.
A run may pause at any instant, so one that has come to rest is an infinite run too. -/
namespace FairRuns

open TransitionRuns

variable {σ ε : Type*} {M : System σ ε} {ok goal : σ → ε → Prop} {urgent : ε → Prop}

/-- An infinite run; `none` is an instant at which nothing happens. -/
structure Path (M : System σ ε) where
  state : ℕ → σ
  event : ℕ → Option ε
  starts : M.initial (state 0)
  pauses : ∀ n, event n = none → state (n + 1) = state n
  steps : ∀ n e, event n = some e →
    M.enabled (state n) e ∧ state (n + 1) = M.next (state n) e

/-- No urgent event stays enabled for ever without being taken. -/
def Fair (p : Path M) (urgent : ε → Prop) : Prop :=
  ∀ e, urgent e → ∀ n, ∃ m, n ≤ m ∧ (M.enabled (p.state m) e → p.event m = some e)

def Meets (p : Path M) (ok : σ → ε → Prop) : Prop :=
  ∀ n e, p.event n = some e → ok (p.state n) e

theorem path_reachable {p : Path M} (hok : Meets p ok) (n : ℕ) :
    Reachable (restrict M ok) (p.state n) := by
  induction n with
  | zero => exact reachable_of_initial p.starts
  | succ n ih =>
    cases he : p.event n with
    | none =>
      rw [p.pauses n he]
      exact ih
    | some e =>
      obtain ⟨henabled, hnext⟩ := p.steps n e he
      rw [hnext]
      exact ih.restricted_step ⟨henabled, hok n e he⟩

/-- While something is pending, one urgent event is enabled that brings the goal nearer; every
other step reaches the goal, or leaves that event and the distance as they are or shortens it. -/
structure Progress (M : System σ ε) (ok goal : σ → ε → Prop) (urgent : ε → Prop)
    (pending : σ → Prop) (rank : σ → ℕ) (helpful : σ → ε) : Prop where
  urgent : ∀ s, pending s → urgent (helpful s)
  enabled : ∀ s, pending s → M.enabled s (helpful s)
  moves : ∀ s e, pending s → M.enabled s e → ok s e →
    goal s e ∨ (pending (M.next s e) ∧ (rank (M.next s e) < rank s ∨
      (e ≠ helpful s ∧ rank (M.next s e) = rank s ∧ helpful (M.next s e) = helpful s)))

section Progress

variable {pending : σ → Prop} {rank : σ → ℕ} {helpful : σ → ε}

/-- The goal is reached from `n` on. -/
def Reaches (p : Path M) (goal : σ → ε → Prop) (n : ℕ) : Prop :=
  ∃ m e, n ≤ m ∧ p.event m = some e ∧ goal (p.state m) e

theorem Reaches.earlier {p : Path M} {m n : ℕ} (hmn : m ≤ n) (h : Reaches p goal n) :
    Reaches p goal m := by
  obtain ⟨k, e, hk, he, hg⟩ := h
  exact ⟨k, e, Nat.le_trans hmn hk, he, hg⟩

/-- Until the helpful event is taken, the goal is reached, the distance gets shorter, or both the
event and the distance stay. -/
theorem Progress.waits (h : Progress M ok goal urgent pending rank helpful) {p : Path M}
    (hok : Meets p ok) {n : ℕ} (hn : pending (p.state n)) (k : ℕ) :
    Reaches p goal n ∨
      (∃ j, n ≤ j ∧ pending (p.state j) ∧ rank (p.state j) < rank (p.state n)) ∨
      (pending (p.state (n + k)) ∧ rank (p.state (n + k)) = rank (p.state n) ∧
        helpful (p.state (n + k)) = helpful (p.state n)) := by
  induction k with
  | zero => exact .inr (.inr ⟨hn, rfl, rfl⟩)
  | succ k ih =>
    rcases ih with hgoal | hless | ⟨hpending, hrank, hhelpful⟩
    · exact .inl hgoal
    · exact .inr (.inl hless)
    rw [show n + (k + 1) = n + k + 1 from rfl]
    cases he : p.event (n + k) with
    | none =>
      rw [p.pauses _ he]
      exact .inr (.inr ⟨hpending, hrank, hhelpful⟩)
    | some e =>
      obtain ⟨henabled, hnext⟩ := p.steps _ e he
      have hmoves := h.moves _ e hpending henabled (hok _ e he)
      rw [← hnext] at hmoves
      rcases hmoves with hgoal | ⟨hpending', hless | ⟨_, hrank', hhelpful'⟩⟩
      · exact .inl ⟨n + k, e, Nat.le_add_right n k, he, hgoal⟩
      · refine .inr (.inl ⟨n + k + 1, by omega, hpending', ?_⟩)
        rwa [← hrank]
      · exact .inr (.inr ⟨hpending', hrank'.trans hrank, hhelpful'.trans hhelpful⟩)

/-- What is pending in a fair run is reached. -/
theorem Progress.reaches (h : Progress M ok goal urgent pending rank helpful) {p : Path M}
    (hfair : Fair p urgent) (hok : Meets p ok) {n : ℕ} (hn : pending (p.state n)) :
    Reaches p goal n := by
  -- the induction is on the distance that is left
  induction hr : rank (p.state n) using Nat.strongRecOn generalizing n with
  | _ r ih =>
    obtain ⟨m, hnm, hm⟩ := hfair (helpful (p.state n)) (h.urgent _ hn) n
    obtain ⟨k, rfl⟩ := Nat.exists_eq_add_of_le hnm
    rcases h.waits hok hn k with hgoal | ⟨j, hj, hpending, hless⟩ | ⟨hpending, hrank, hhelpful⟩
    · exact hgoal
    · exact (ih _ (by omega) hpending rfl).earlier hj
    · have henabled := h.enabled _ hpending
      rw [hhelpful] at henabled
      have he := hm henabled
      obtain ⟨_, hnext⟩ := p.steps _ _ he
      have hmoves := h.moves _ _ hpending henabled (hok _ _ he)
      rw [← hnext] at hmoves
      rcases hmoves with hgoal | ⟨hpending', hless | ⟨hne, _⟩⟩
      · exact ⟨n + k, _, hnm, he, hgoal⟩
      · exact (ih _ (by omega) hpending' rfl).earlier (by omega)
      · exact absurd hhelpful.symm hne

end Progress

section Rest

variable {s : σ} {es : List ε}

theorem trace_steps (h : ValidTrace M s es) {n : ℕ} {e : ε} (he : es[n]? = some e) :
    M.enabled (runTrace M s (es.take n)) e ∧
      runTrace M s (es.take (n + 1)) = M.next (runTrace M s (es.take n)) e := by
  induction es generalizing s n with
  | nil => simp at he
  | cons a es ih =>
    cases n with
    | zero =>
      obtain rfl : a = e := by simpa using he
      exact ⟨h.1, rfl⟩
    | succ n => exact ih h.2 (by simpa using he)

/-- A trace after which nothing happens any more. -/
def Path.ofTrace (hi : M.initial s) (h : ValidTrace M s es) : Path M where
  state n := runTrace M s (es.take n)
  event n := es[n]?
  starts := hi
  pauses n he := by
    have hn : es.length ≤ n := List.getElem?_eq_none_iff.mp he
    rw [List.take_of_length_le hn, List.take_of_length_le (Nat.le_succ_of_le hn)]
  steps _ _ he := trace_steps h he

/-- The rest is fair where it leaves no urgent event enabled. -/
theorem ofTrace_fair (hi : M.initial s) (h : ValidTrace M s es)
    (hrest : ∀ e, urgent e → ¬ M.enabled (runTrace M s es) e) :
    Fair (Path.ofTrace hi h) urgent := by
  intro e he n
  refine ⟨max n es.length, Nat.le_max_left _ _, fun henabled => ?_⟩
  have hend : (Path.ofTrace hi h).state (max n es.length) = runTrace M s es :=
    congrArg (runTrace M s) (List.take_of_length_le (Nat.le_max_right _ _))
  rw [hend] at henabled
  exact absurd henabled (hrest e he)

theorem restricted_trace (h : ValidTrace (restrict M ok) s es) : ValidTrace M s es := by
  induction es generalizing s with
  | nil => trivial
  | cons e es ih => exact ⟨h.1.1, ih h.2⟩

theorem ofTrace_meets (hi : M.initial s) (h : ValidTrace (restrict M ok) s es) :
    Meets (Path.ofTrace hi (restricted_trace h)) ok := by
  intro n e he
  have hstep := (trace_steps h he).1.2
  rwa [runTrace_restrict] at hstep

end Rest

end FairRuns
