import Mathlib.Data.List.Basic

/-! Guarded transition systems and their runs.
A run keeps its events, oldest first, so that a statement may count them or look at one of them.
`restrict` is the same system with a condition on every step, for results about the runs whose
steps all meet it. -/
namespace TransitionRuns

variable {σ ε τ α : Type*}

structure System (σ ε : Type*) where
  initial : σ → Prop
  enabled : σ → ε → Prop
  next : σ → ε → σ

variable {M : System σ ε} {N : System τ α}

inductive Execution (M : System σ ε) (s : σ) : List ε → σ → Prop
  | refl : Execution M s [] s
  | step {es t e} : Execution M s es t → M.enabled t e → Execution M s (es ++ [e]) (M.next t e)

/-- A run that starts in an initial state. -/
def Run (M : System σ ε) (es : List ε) (s : σ) : Prop :=
  ∃ s₀, M.initial s₀ ∧ Execution M s₀ es s

def Reachable (M : System σ ε) (s : σ) : Prop := ∃ es, Run M es s

theorem Execution.cons {s u : σ} {e : ε} {es : List ε} (he : M.enabled s e)
    (h : Execution M (M.next s e) es u) : Execution M s (e :: es) u := by
  induction h with
  | refl => exact Execution.step Execution.refl he
  | step _ hf ih => exact Execution.step ih hf

theorem Execution.trans {s t u : σ} {es fs : List ε} (h : Execution M s es t)
    (k : Execution M t fs u) : Execution M s (es ++ fs) u := by
  induction k with
  | refl => simpa using h
  | step _ hf ih =>
    rw [← List.append_assoc]
    exact Execution.step ih hf

theorem Run.extend {s u : σ} {es fs : List ε} (h : Run M es s) (k : Execution M s fs u) :
    Run M (es ++ fs) u := by
  obtain ⟨s₀, h₀, h⟩ := h
  exact ⟨s₀, h₀, h.trans k⟩

theorem Reachable.extend {s u : σ} {fs : List ε} (h : Reachable M s) (k : Execution M s fs u) :
    Reachable M u := by
  obtain ⟨es, h⟩ := h
  exact ⟨es ++ fs, h.extend k⟩

theorem Reachable.step {s : σ} {e : ε} (h : Reachable M s) (he : M.enabled s e) :
    Reachable M (M.next s e) :=
  h.extend (Execution.step Execution.refl he)

theorem reachable_of_initial {s : σ} (h : M.initial s) : Reachable M s :=
  ⟨[], s, h, Execution.refl⟩

/-- The invariant rule for a predicate on the events so far and the state they lead to. -/
theorem run_invariant {I : List ε → σ → Prop} (h₀ : ∀ s, M.initial s → I [] s)
    (hs : ∀ es s e, Run M es s → I es s → M.enabled s e → I (es ++ [e]) (M.next s e))
    {es : List ε} {s : σ} (h : Run M es s) : I es s := by
  obtain ⟨s₀, hi, h⟩ := h
  induction h with
  | refl => exact h₀ s₀ hi
  | step h he ih => exact hs _ _ _ ⟨s₀, hi, h⟩ ih he

theorem reachable_invariant {I : σ → Prop} (h₀ : ∀ s, M.initial s → I s)
    (hs : ∀ s e, I s → M.enabled s e → I (M.next s e)) {s : σ} (h : Reachable M s) : I s := by
  obtain ⟨es, h⟩ := h
  exact run_invariant (I := fun _ => I) h₀ (fun _ s e _ hI he => hs s e hI he) h

/-- The same rule with an invariant already known of every reachable state. -/
theorem reachable_invariant_with {I J : σ → Prop} (hJ : ∀ s, Reachable M s → J s)
    (h₀ : ∀ s, M.initial s → I s)
    (hs : ∀ s e, J s → I s → M.enabled s e → I (M.next s e)) {s : σ} (h : Reachable M s) :
    I s := by
  obtain ⟨es, h⟩ := h
  exact run_invariant (I := fun _ => I) h₀
    (fun es s e hr hI he => hs s e (hJ s ⟨es, hr⟩) hI he) h

/-- What every step from a reachable state preserves holds at the end of each continuation. -/
theorem stable_along {P : σ → Prop}
    (hs : ∀ s e, Reachable M s → P s → M.enabled s e → P (M.next s e))
    {s u : σ} {es : List ε} (hr : Reachable M s) (h : Execution M s es u) (hp : P s) : P u := by
  induction h with
  | refl => exact hp
  | step h he ih => exact hs _ _ (hr.extend h) ih he

/-- A relation between two states of a run, when it is reflexive and extended by each step. -/
theorem related_along {R : σ → σ → Prop} (hrefl : ∀ s, R s s)
    (hs : ∀ s t e, Reachable M t → R s t → M.enabled t e → R s (M.next t e))
    {s u : σ} {es : List ε} (hr : Reachable M s) (h : Execution M s es u) : R s u := by
  induction h with
  | refl => exact hrefl s
  | step h he ih => exact hs _ _ _ (hr.extend h) ih he

/-- A guarded result: the branch of a step function that applies under `p`. -/
def guarded (p : Prop) [Decidable p] (x : σ) : Option σ := if p then some x else none

@[simp] theorem guarded_eq_some {p : Prop} [Decidable p] {x y : σ} :
    guarded p x = some y ↔ p ∧ x = y := by
  unfold guarded
  split <;> simp [*]

/-- The system of a step function: an event is enabled where the function gives a state. -/
def ofStep (initial : σ → Prop) (step : σ → ε → Option σ) : System σ ε where
  initial := initial
  enabled s e := (step s e).isSome
  next s e := (step s e).getD s

theorem ofStep_enabled {initial : σ → Prop} {step : σ → ε → Option σ} {s : σ} {e : ε}
    (h : (ofStep initial step).enabled s e) :
    step s e = some ((ofStep initial step).next s e) := by
  obtain ⟨u, hu⟩ := Option.isSome_iff_exists.mp h
  simp [ofStep, hu]

theorem ofStep_of_some (initial : σ → Prop) {step : σ → ε → Option σ} {s u : σ} {e : ε}
    (h : step s e = some u) :
    (ofStep initial step).enabled s e ∧ (ofStep initial step).next s e = u := by
  simp [ofStep, h]

instance (initial : σ → Prop) (step : σ → ε → Option σ) (s : σ) (e : ε) :
    Decidable ((ofStep initial step).enabled s e) :=
  inferInstanceAs (Decidable ((step s e).isSome = true))

/-- The runs of `M` whose steps all meet `ok`. -/
def restrict (M : System σ ε) (ok : σ → ε → Prop) : System σ ε :=
  { M with enabled := fun s e => M.enabled s e ∧ ok s e }

instance (ok : σ → ε → Prop) [∀ s e, Decidable (M.enabled s e)] [∀ s e, Decidable (ok s e)]
    (s : σ) (e : ε) : Decidable ((restrict M ok).enabled s e) :=
  inferInstanceAs (Decidable (M.enabled s e ∧ ok s e))

theorem Reachable.restricted_step {ok : σ → ε → Prop} {s : σ} {e : ε}
    (h : Reachable (restrict M ok) s) (he : (restrict M ok).enabled s e) :
    Reachable (restrict M ok) (M.next s e) :=
  h.step he

theorem Execution.restricted_step {ok : σ → ε → Prop} {s : σ} {e : ε}
    (he : (restrict M ok).enabled s e) : Execution (restrict M ok) s [e] (M.next s e) :=
  Execution.step Execution.refl he

theorem Execution.unrestrict {ok : σ → ε → Prop} {s u : σ} {es : List ε}
    (h : Execution (restrict M ok) s es u) : Execution M s es u := by
  induction h with
  | refl => exact Execution.refl
  | step _ he ih => exact Execution.step ih he.1

theorem Reachable.unrestrict {ok : σ → ε → Prop} {s : σ} (h : Reachable (restrict M ok) s) :
    Reachable M s := by
  obtain ⟨es, s₀, hi, h⟩ := h
  exact ⟨es, s₀, hi, h.unrestrict⟩

/-- A condition that is weaker on the states reached leaves more runs. -/
theorem Reachable.restrict_mono {ok ok' : σ → ε → Prop} {s : σ}
    (h : Reachable (restrict M ok) s) (hok : ∀ s, Reachable M s → ∀ e, ok s e → ok' s e) :
    Reachable (restrict M ok') s := by
  obtain ⟨es, s₀, hi, h⟩ := h
  refine ⟨es, s₀, hi, ?_⟩
  induction h with
  | refl => exact Execution.refl
  | step h he ih =>
    have hr : Reachable M _ := ⟨_, s₀, hi, h.unrestrict⟩
    exact Execution.step ih ⟨he.1, hok _ hr _ he.2⟩

/-- A condition that every step meets leaves all runs. -/
theorem Reachable.restrict_of {ok : σ → ε → Prop} (hok : ∀ s e, ok s e) {s : σ}
    (h : Reachable M s) : Reachable (restrict M ok) s := by
  obtain ⟨es, s₀, hi, h⟩ := h
  refine ⟨es, s₀, hi, ?_⟩
  induction h with
  | refl => exact Execution.refl
  | step _ he ih => exact Execution.step ih ⟨he, hok _ _⟩

/-- A projection of states under which each step of `M` is a run of `N`, possibly an empty one. -/
structure Projects (M : System σ ε) (N : System τ α) (f : σ → τ) : Prop where
  initial : ∀ s, M.initial s → N.initial (f s)
  step : ∀ s e, M.enabled s e → ∃ es, Execution N (f s) es (f (M.next s e))

theorem Projects.execution {f : σ → τ} (p : Projects M N f) {s u : σ} {es : List ε}
    (h : Execution M s es u) : ∃ fs, Execution N (f s) fs (f u) := by
  induction h with
  | refl => exact ⟨[], Execution.refl⟩
  | step _ he ih =>
    obtain ⟨fs, hf⟩ := ih
    obtain ⟨gs, hg⟩ := p.step _ _ he
    exact ⟨fs ++ gs, hf.trans hg⟩

theorem Projects.reachable {f : σ → τ} (p : Projects M N f) {s : σ} (h : Reachable M s) :
    Reachable N (f s) := by
  obtain ⟨es, s₀, hi, h⟩ := h
  obtain ⟨fs, hf⟩ := p.execution h
  exact ⟨fs, f s₀, p.initial s₀ hi, hf⟩

theorem ofStep_execution {initial : σ → Prop} {step : σ → ε → Option σ} {s u : σ} {e : ε}
    (h : step s e = some u) : Execution (ofStep initial step) s [e] u := by
  obtain ⟨he, hn⟩ := ofStep_of_some initial h
  have hx := Execution.step (Execution.refl (M := ofStep initial step) (s := s)) he
  rwa [hn] at hx

theorem projects_ofStep {initial : σ → Prop} {step : σ → ε → Option σ} {f : σ → τ}
    (h₀ : ∀ s, initial s → N.initial (f s))
    (hs : ∀ s e u, step s e = some u → ∃ es, Execution N (f s) es (f u)) :
    Projects (ofStep initial step) N f where
  initial := h₀
  step s e he := hs s e _ (ofStep_enabled he)

/-- The state after a list of events, with no look at their guards. -/
def runTrace (M : System σ ε) : σ → List ε → σ
  | s, [] => s
  | s, e :: es => runTrace M (M.next s e) es

def ValidTrace (M : System σ ε) : σ → List ε → Prop
  | _, [] => True
  | s, e :: es => M.enabled s e ∧ ValidTrace M (M.next s e) es

instance decidableValidTrace [∀ s e, Decidable (M.enabled s e)] :
    ∀ (s : σ) (es : List ε), Decidable (ValidTrace M s es)
  | _, [] => isTrue trivial
  | s, e :: es =>
    have := decidableValidTrace (M.next s e) es
    inferInstanceAs (Decidable (M.enabled s e ∧ ValidTrace M (M.next s e) es))

theorem valid_trace_append {s : σ} {es fs : List ε} :
    ValidTrace M s (es ++ fs) ↔ ValidTrace M s es ∧ ValidTrace M (runTrace M s es) fs := by
  induction es generalizing s with
  | nil => simp [ValidTrace, runTrace]
  | cons e es ih => simp [ValidTrace, runTrace, ih, and_assoc]

@[simp] theorem runTrace_append {s : σ} {es fs : List ε} :
    runTrace M s (es ++ fs) = runTrace M (runTrace M s es) fs := by
  induction es generalizing s with
  | nil => rfl
  | cons e es ih => exact ih

theorem valid_trace_execution {s : σ} {es : List ε} (h : ValidTrace M s es) :
    Execution M s es (runTrace M s es) := by
  induction es generalizing s with
  | nil => exact Execution.refl
  | cons e es ih => exact Execution.cons h.1 (ih h.2)

theorem valid_trace_run {s : σ} {es : List ε} (hi : M.initial s) (h : ValidTrace M s es) :
    Run M es (runTrace M s es) :=
  ⟨s, hi, valid_trace_execution h⟩

@[simp] theorem runTrace_restrict {ok : σ → ε → Prop} {s : σ} {es : List ε} :
    runTrace (restrict M ok) s es = runTrace M s es := by
  induction es generalizing s with
  | nil => rfl
  | cons e es ih => exact ih

/-- A concrete trace whose steps all meet the condition is a run under it. -/
theorem valid_trace_restricted_run {ok : σ → ε → Prop} {s : σ} {es : List ε} (hi : M.initial s)
    (h : ValidTrace (restrict M ok) s es) : Run (restrict M ok) es (runTrace M s es) := by
  have hrun : Run (restrict M ok) es (runTrace (restrict M ok) s es) := valid_trace_run hi h
  rwa [runTrace_restrict] at hrun

/-- Events that meet the condition in every state keep an execution under it. -/
theorem valid_trace_restricted_execution {ok : σ → ε → Prop} {s : σ} {es : List ε}
    (hok : ∀ e ∈ es, ∀ s, ok s e) (h : ValidTrace M s es) :
    Execution (restrict M ok) s es (runTrace M s es) := by
  induction es generalizing s with
  | nil => exact Execution.refl
  | cons e es ih =>
    have hrest := ih (fun e' he' => hok e' (List.mem_cons_of_mem e he')) h.2
    exact Execution.cons (M := restrict M ok) ⟨h.1, hok e List.mem_cons_self s⟩ hrest

end TransitionRuns
