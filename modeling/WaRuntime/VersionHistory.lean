import Mathlib.Order.Nat
import WaRuntime.TransitionRuns

/-! The versions of a value along an execution.
A value is observed under a version number, or not at all. When each step that changes the value
also raises the number, the number alone says which value was meant: `HadVersion` is then a
partial function of the version. -/
namespace VersionHistory

open TransitionRuns

variable {σ ε α : Type*} {M : System σ ε} {s s₀ t u : σ} {es fs gs : List ε}

/-- Some state of the execution of `es` from `s₀` showed the value `a` under the version `v`. -/
def HadVersion (M : System σ ε) (s₀ : σ) (es : List ε) (observe : σ → Option (ℕ × α)) (v : ℕ)
    (a : α) : Prop :=
  ∃ fs t, fs <+: es ∧ Execution M s₀ fs t ∧ observe t = some (v, a)

/-- The second value has a later version, or is the first one. -/
def Advances (p q : ℕ × α) : Prop := p.1 < q.1 ∨ p = q

theorem advances_trans {p q r : ℕ × α} (h : Advances p q) (k : Advances q r) : Advances p r := by
  rcases h with h | rfl
  · rcases k with k | rfl
    · exact .inl (h.trans k)
    · exact .inl h
  · exact k

theorem advances_same_version {v : ℕ} {a b : α} (h : Advances (v, a) (v, b)) : a = b := by
  rcases h with h | h
  · exact absurd h (lt_irrefl v)
  · exact (Prod.mk.inj h).2

/-- A step neither drops the value nor changes it under its version. -/
def Versioned (M : System σ ε) (observe : σ → Option (ℕ × α)) : Prop :=
  ∀ s e, Reachable M s → M.enabled s e → ∀ p, observe s = some p →
    ∃ q, observe (M.next s e) = some q ∧ Advances p q

variable {observe : σ → Option (ℕ × α)} {v w : ℕ} {a b : α}

theorem had_now (h : Execution M s₀ es s) (ho : observe s = some (v, a)) :
    HadVersion M s₀ es observe v a :=
  ⟨es, s, List.prefix_rfl, h, ho⟩

theorem had_later (h : HadVersion M s₀ es observe v a) (fs : List ε) :
    HadVersion M s₀ (es ++ fs) observe v a := by
  obtain ⟨gs, t, hgs, ht, ho⟩ := h
  exact ⟨gs, t, hgs.trans (List.prefix_append es fs), ht, ho⟩

theorem execution_state (h : Execution M s es t) : t = runTrace M s es := by
  induction h with
  | refl => rfl
  | step _ _ ih =>
    rw [runTrace_append, ← ih]
    rfl

/-- The states of an execution along its later events, from where its earlier ones lead. -/
theorem execution_rest (h : Execution M s (fs ++ gs) u) (k : Execution M s fs t) :
    Execution M t gs u := by
  generalize hes : fs ++ gs = es at h
  induction h generalizing gs with
  | refl =>
    obtain ⟨rfl, rfl⟩ := List.append_eq_nil_iff.mp hes
    rw [execution_state k]
    exact Execution.refl
  | @step es u e h he ih =>
    rcases List.eq_nil_or_concat gs with rfl | ⟨gs, f, rfl⟩
    · have hfs : fs = es ++ [e] := by simpa using hes
      subst hfs
      rw [execution_state k, execution_state (Execution.step h he)]
      exact Execution.refl
    · simp only [List.concat_eq_append, ← List.append_assoc] at hes ⊢
      obtain ⟨hl, hf⟩ := List.append_inj' hes rfl
      cases hf
      exact Execution.step (ih hl) he

/-- Along an execution the value only moves on. -/
theorem advances_along (hM : Versioned M observe) (hr : Reachable M s) (h : Execution M s es u)
    {p : ℕ × α} (hp : observe s = some p) : ∃ q, observe u = some q ∧ Advances p q := by
  induction h with
  | refl => exact ⟨p, hp, .inr rfl⟩
  | step h he ih =>
    obtain ⟨q, hq, hpq⟩ := ih
    obtain ⟨r, hnext, hqr⟩ := hM _ _ (hr.extend h) he q hq
    exact ⟨r, hnext, advances_trans hpq hqr⟩

/-- No version ever stood for two values. -/
theorem had_unique (hM : Versioned M observe) (hs₀ : Reachable M s₀)
    (ha : HadVersion M s₀ es observe v a) (hb : HadVersion M s₀ es observe v b) : a = b := by
  obtain ⟨fs, t, hfs, ht, ho⟩ := ha
  obtain ⟨gs, u, hgs, hu, hp⟩ := hb
  rcases List.prefix_or_prefix_of_prefix hfs hgs with ⟨rest, rfl⟩ | ⟨rest, rfl⟩
  · obtain ⟨q, hq, hadv⟩ := advances_along hM (hs₀.extend ht) (execution_rest hu ht) ho
    rw [hp] at hq
    cases hq
    exact advances_same_version hadv
  · obtain ⟨q, hq, hadv⟩ := advances_along hM (hs₀.extend hu) (execution_rest ht hu) hp
    rw [ho] at hq
    cases hq
    exact (advances_same_version hadv).symm

end VersionHistory
