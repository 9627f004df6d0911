import Mathlib.Data.Set.Function

/-! Row versions under READ COMMITTED.
A row has the last committed version and, while some transaction holds its lock, the version that
transaction would commit. Taking the lock without a change holds a copy of the committed version.
A statement of another transaction that needs the row waits, so it is enabled only once the row
is free, and it then reads the version committed at that time. -/
namespace RowVersions

structure Row (τ ρ : Type*) where
  committed : ρ
  held : Option (τ × ρ)
  deriving DecidableEq

namespace Row

variable {τ ρ : Type*} {t u : τ} {v w : ρ} {r : Row τ ρ}

def settled (v : ρ) : Row τ ρ := ⟨v, none⟩

def Free (r : Row τ ρ) : Prop := r.held = none

instance (r : Row τ ρ) : Decidable r.Free :=
  match h : r.held with
  | none => isTrue h
  | some _ => isFalse (by simp [Free, h])

/-- No transaction other than `t` holds the lock. -/
def FreeFor (t : τ) (r : Row τ ρ) : Prop :=
  match r.held with
  | none => True
  | some (u, _) => u = t

def write (t : τ) (v : ρ) (r : Row τ ρ) : Row τ ρ := { r with held := some (t, v) }

@[simp] theorem settled_committed : (settled v : Row τ ρ).committed = v := rfl

@[simp] theorem settled_held : (settled v : Row τ ρ).held = none := rfl

@[simp] theorem write_committed : (r.write t v).committed = r.committed := rfl

@[simp] theorem write_held : (r.write t v).held = some (t, v) := rfl

/-- A row that is free for `t` is unlocked or already held by `t`. -/
theorem free_for_cases (h : r.FreeFor t) : r.held = none ∨ ∃ v, r.held = some (t, v) := by
  unfold FreeFor at h
  cases hh : r.held with
  | none => exact .inl rfl
  | some p =>
    obtain ⟨u, v⟩ := p
    simp only [hh] at h
    exact .inr ⟨v, by rw [h]⟩

theorem not_held_of_free_for (h : r.FreeFor u) (htu : u ≠ t) : ∀ v, r.held ≠ some (t, v) := by
  intro v hv
  obtain hn | ⟨w, hw⟩ := free_for_cases h
  · rw [hn] at hv
    cases hv
  · rw [hw] at hv
    cases hv
    exact htu rfl

theorem not_held_of_held (h : r.held = some (u, w)) (htu : u ≠ t) :
    ∀ v, r.held ≠ some (t, v) := by
  intro v hv
  rw [h] at hv
  cases hv
  exact htu rfl

/-- Every version in a row, committed or held, was reached from the committed one by `R`. -/
def Follows (R : ρ → ρ → Prop) (r : Row τ ρ) : Prop :=
  ∀ t v, r.held = some (t, v) → R r.committed v

theorem follows_settled (R : ρ → ρ → Prop) : (settled v : Row τ ρ).Follows R := by
  intro t w h
  cases h

theorem follows_write {R : ρ → ρ → Prop} (h : R r.committed v) : (r.write t v).Follows R := by
  intro u w hw
  simp only [write_held, Option.some.injEq, Prod.mk.injEq] at hw
  obtain ⟨rfl, rfl⟩ := hw
  exact h

/-- The committed version and the held one, if there is one, both satisfy `P`. -/
def Each (P : ρ → Prop) (r : Row τ ρ) : Prop :=
  P r.committed ∧ ∀ t v, r.held = some (t, v) → P v

theorem each_settled {P : ρ → Prop} (h : P v) : (settled v : Row τ ρ).Each P :=
  ⟨h, fun _ _ hv => nomatch hv⟩

/-- A statement gives the new version of a row, or `none` where its WHERE clause fails.
Outside a transaction it waits only for a row that the committed version makes it want. -/
def Ready (f : ρ → Option ρ) (r : Row τ ρ) : Prop := r.Free ∨ f r.committed = none

instance (f : ρ → Option ρ) (r : Row τ ρ) : Decidable (r.Ready f) :=
  inferInstanceAs (Decidable (_ ∨ _))

/-- A statement of its own, committed at once. -/
def update (f : ρ → Option ρ) (r : Row τ ρ) : Row τ ρ :=
  match f r.committed with
  | none => r
  | some v => settled v

theorem update_cases {f : ρ → Option ρ} (h : r.Ready f) :
    r.update f = r ∨ ∃ v, r.Free ∧ f r.committed = some v ∧ r.update f = settled v := by
  unfold update
  split
  · exact .inl rfl
  · rename_i v hv
    exact .inr ⟨v, h.resolve_right (by simp [hv]), hv, rfl⟩

section Transactions

variable [DecidableEq τ]

instance (t : τ) (r : Row τ ρ) : Decidable (r.FreeFor t) :=
  match h : r.held with
  | none => isTrue (by simp [FreeFor, h])
  | some (u, _) => decidable_of_iff (u = t) (by simp [FreeFor, h])

/-- The version a statement of `t` sees. -/
def view (t : τ) (r : Row τ ρ) : ρ :=
  match r.held with
  | none => r.committed
  | some (u, v) => if u = t then v else r.committed

def commit (t : τ) (r : Row τ ρ) : Row τ ρ :=
  match r.held with
  | none => r
  | some (u, v) => if u = t then ⟨v, none⟩ else r

def abort (t : τ) (r : Row τ ρ) : Row τ ρ :=
  match r.held with
  | none => r
  | some (u, _) => if u = t then ⟨r.committed, none⟩ else r

theorem view_of_free (h : r.Free) : r.view t = r.committed := by
  simp only [Free] at h
  simp [view, h]

theorem view_of_held (h : r.held = some (t, v)) : r.view t = v := by
  simp [view, h]

@[simp] theorem view_write : (r.write t v).view t = v := view_of_held rfl

theorem view_of_not_held (h : ∀ v, r.held ≠ some (t, v)) : r.view t = r.committed := by
  unfold view
  split
  · rfl
  · rename_i u v hr
    split
    · rename_i hu
      subst hu
      exact absurd hr (h v)
    · rfl

theorem commit_of_held (h : r.held = some (t, v)) : r.commit t = ⟨v, none⟩ := by
  simp [commit, h]

theorem commit_committed : (r.commit t).committed = r.view t := by
  unfold commit view
  split
  · rfl
  · split <;> rfl

theorem commit_of_not_held (h : ∀ v, r.held ≠ some (t, v)) : r.commit t = r := by
  unfold commit
  split
  · rfl
  · rename_i u v hr
    split
    · rename_i hu
      subst hu
      exact absurd hr (h v)
    · rfl

theorem abort_of_held (h : r.held = some (t, v)) : r.abort t = ⟨r.committed, none⟩ := by
  simp [abort, h]

theorem abort_of_not_held (h : ∀ v, r.held ≠ some (t, v)) : r.abort t = r := by
  unfold abort
  split
  · rfl
  · rename_i u v hr
    split
    · rename_i hu
      subst hu
      exact absurd hr (h v)
    · rfl

@[simp] theorem abort_committed : (r.abort t).committed = r.committed := by
  unfold abort
  split
  · rfl
  · split <;> rfl

/-- A commit leaves a row of others as it is, and puts the held version of its own in place of
the committed one. -/
theorem commit_cases (t : τ) (r : Row τ ρ) :
    ((∀ v, r.held ≠ some (t, v)) ∧ r.commit t = r) ∨
      ∃ v, r.held = some (t, v) ∧ r.commit t = ⟨v, none⟩ := by
  by_cases h : ∃ v, r.held = some (t, v)
  · obtain ⟨v, hv⟩ := h
    exact .inr ⟨v, hv, commit_of_held hv⟩
  · have hn : ∀ v, r.held ≠ some (t, v) := fun v hv => h ⟨v, hv⟩
    exact .inl ⟨hn, commit_of_not_held hn⟩

theorem abort_cases (t : τ) (r : Row τ ρ) :
    ((∀ v, r.held ≠ some (t, v)) ∧ r.abort t = r) ∨
      ∃ v, r.held = some (t, v) ∧ r.abort t = ⟨r.committed, none⟩ := by
  by_cases h : ∃ v, r.held = some (t, v)
  · obtain ⟨v, hv⟩ := h
    exact .inr ⟨v, hv, abort_of_held hv⟩
  · have hn : ∀ v, r.held ≠ some (t, v) := fun v hv => h ⟨v, hv⟩
    exact .inl ⟨hn, abort_of_not_held hn⟩

theorem view_follows {R : ρ → ρ → Prop} (hrefl : ∀ v, R v v) (h : r.Follows R) :
    R r.committed (r.view t) := by
  unfold view
  split
  · exact hrefl _
  · rename_i u v hr
    split
    · exact h u v hr
    · exact hrefl _

theorem each_view {P : ρ → Prop} (h : r.Each P) : P (r.view t) := by
  unfold view
  split
  · exact h.1
  · rename_i u v hr
    split
    · exact h.2 u v hr
    · exact h.1

/-- The same test for a statement inside the transaction `t`. -/
def ReadyIn (t : τ) (f : ρ → Option ρ) (r : Row τ ρ) : Prop :=
  r.FreeFor t ∨ f (r.view t) = none

instance (t : τ) (f : ρ → Option ρ) (r : Row τ ρ) : Decidable (r.ReadyIn t f) :=
  inferInstanceAs (Decidable (_ ∨ _))

/-- A statement of the transaction `t`, which keeps the row locked. -/
def updateIn (t : τ) (f : ρ → Option ρ) (r : Row τ ρ) : Row τ ρ :=
  match f (r.view t) with
  | none => r
  | some v => r.write t v

theorem updateIn_cases {f : ρ → Option ρ} (h : r.ReadyIn t f) :
    r.updateIn t f = r ∨
      ∃ v, r.FreeFor t ∧ f (r.view t) = some v ∧ r.updateIn t f = r.write t v := by
  unfold updateIn
  split
  · exact .inl rfl
  · rename_i v hv
    exact .inr ⟨v, h.resolve_right (by simp [hv]), hv, rfl⟩

@[simp] theorem updateIn_committed {f : ρ → Option ρ} :
    (r.updateIn t f).committed = r.committed := by
  unfold updateIn
  split <;> rfl

theorem updateIn_of_held {f : ρ → Option ρ} (h : r.held = some (t, v)) (hf : f v = some w) :
    r.updateIn t f = r.write t w := by
  simp [updateIn, view_of_held h, hf]

end Transactions

end Row

/-- A table of rows, with one lock for each key. -/
abbrev Table (τ κ ρ : Type*) := κ → Row τ ρ

namespace Table

variable {τ κ ρ : Type*} {T : Table τ κ ρ} {t : τ} {k l : κ} {f : ρ → Option ρ}

section Transactions

variable [DecidableEq τ]

def commit (t : τ) (T : Table τ κ ρ) : Table τ κ ρ := fun k => (T k).commit t

def abort (t : τ) (T : Table τ κ ρ) : Table τ κ ρ := fun k => (T k).abort t

@[simp] theorem commit_apply : T.commit t k = (T k).commit t := rfl

@[simp] theorem abort_apply : T.abort t k = (T k).abort t := rfl

end Transactions

variable [DecidableEq κ]

def update (f : ρ → Option ρ) (k : κ) (T : Table τ κ ρ) : Table τ κ ρ :=
  Function.update T k ((T k).update f)

/-- One statement of its own on the rows whose keys are listed. -/
def updateAll (f : κ → ρ → Option ρ) (ks : List κ) (T : Table τ κ ρ) : Table τ κ ρ :=
  fun k => if k ∈ ks then (T k).update (f k) else T k

theorem update_apply : T.update f k l = if l = k then (T k).update f else T l := by
  simp [update, Function.update_apply]

@[simp] theorem update_same : T.update f k k = (T k).update f := by simp [update]

@[simp] theorem update_other (h : l ≠ k) : T.update f k l = T l := by simp [update, h]

/-- A row after a statement on row `k` is the row before or `k` with the new version. -/
theorem update_cases (h : (T k).Ready f) (l : κ) :
    T.update f k l = T l ∨
      ∃ v, l = k ∧ (T k).Free ∧ f (T k).committed = some v ∧ T.update f k l = Row.settled v := by
  by_cases hl : l = k
  · subst hl
    rw [update_same]
    obtain hu | ⟨v, hv⟩ := Row.update_cases h
    · exact .inl hu
    · exact .inr ⟨v, rfl, hv⟩
  · exact .inl (update_other hl)

section Transactions

variable [DecidableEq τ]

def updateIn (t : τ) (f : ρ → Option ρ) (k : κ) (T : Table τ κ ρ) : Table τ κ ρ :=
  Function.update T k ((T k).updateIn t f)

/-- One statement of `t` on the rows whose keys are listed. -/
def updateAllIn (t : τ) (f : κ → ρ → Option ρ) (ks : List κ) (T : Table τ κ ρ) :
    Table τ κ ρ :=
  fun k => if k ∈ ks then (T k).updateIn t (f k) else T k

@[simp] theorem updateIn_same : T.updateIn t f k k = (T k).updateIn t f := by simp [updateIn]

@[simp] theorem updateIn_other (h : l ≠ k) : T.updateIn t f k l = T l := by simp [updateIn, h]

@[simp] theorem updateIn_committed : (T.updateIn t f k l).committed = (T l).committed := by
  by_cases hl : l = k
  · subst hl
    simp
  · simp [hl]

@[simp] theorem updateAllIn_committed {g : κ → ρ → Option ρ} {ks : List κ} :
    (T.updateAllIn t g ks l).committed = (T l).committed := by
  unfold updateAllIn
  split
  · simp
  · rfl

end Transactions

end Table

/-- What one step does to a table: a statement of its own, a statement or the end of a
transaction, or nothing. -/
inductive Effect (τ κ ρ : Type*) where
  | none
  | update (f : ρ → Option ρ) (k : κ)
  | updateAll (f : κ → ρ → Option ρ) (ks : List κ)
  | updateIn (t : τ) (f : ρ → Option ρ) (k : κ)
  | updateAllIn (t : τ) (f : κ → ρ → Option ρ) (ks : List κ)
  | commit (t : τ)
  | abort (t : τ)

namespace Effect

variable {τ κ ρ : Type*} [DecidableEq τ]

/-- No row the step needs is locked by another transaction. -/
def Ready (T : Table τ κ ρ) : Effect τ κ ρ → Prop
  | .update f k => (T k).Ready f
  | .updateAll f ks => ∀ k ∈ ks, (T k).Ready (f k)
  | .updateIn t f k => (T k).ReadyIn t f
  | .updateAllIn t f ks => ∀ k ∈ ks, (T k).ReadyIn t (f k)
  | _ => True

instance (T : Table τ κ ρ) : (e : Effect τ κ ρ) → Decidable (e.Ready T)
  | .update f k => inferInstanceAs (Decidable ((T k).Ready f))
  | .updateAll f ks => inferInstanceAs (Decidable (∀ k ∈ ks, (T k).Ready (f k)))
  | .updateIn t f k => inferInstanceAs (Decidable ((T k).ReadyIn t f))
  | .updateAllIn t f ks => inferInstanceAs (Decidable (∀ k ∈ ks, (T k).ReadyIn t (f k)))
  | .none | .commit _ | .abort _ => isTrue trivial

/-- The transaction that the step belongs to. -/
def owner : Effect τ κ ρ → Option τ
  | .updateIn t _ _ | .updateAllIn t _ _ | .commit t | .abort t => some t
  | _ => Option.none

/-- Every new version the step writes is related by `R` to the version its statement read. -/
def WritesBy (R : ρ → ρ → Prop) (T : Table τ κ ρ) : Effect τ κ ρ → Prop
  | .update f k => ∀ w, f (T k).committed = some w → R (T k).committed w
  | .updateAll f ks => ∀ k ∈ ks, ∀ w, f k (T k).committed = some w → R (T k).committed w
  | .updateIn t f k => ∀ w, f ((T k).view t) = some w → R ((T k).view t) w
  | .updateAllIn t f ks => ∀ k ∈ ks, ∀ w, f k ((T k).view t) = some w → R ((T k).view t) w
  | _ => True

/-- Every new version the step writes is related by `R` to the committed version of its row. -/
def MovesBy (R : ρ → ρ → Prop) (T : Table τ κ ρ) : Effect τ κ ρ → Prop
  | .update f k => ∀ w, f (T k).committed = some w → R (T k).committed w
  | .updateAll f ks => ∀ k ∈ ks, ∀ w, f k (T k).committed = some w → R (T k).committed w
  | .updateIn t f k => ∀ w, f ((T k).view t) = some w → R (T k).committed w
  | .updateAllIn t f ks => ∀ k ∈ ks, ∀ w, f k ((T k).view t) = some w → R (T k).committed w
  | _ => True

variable {T : Table τ κ ρ} {t : τ} {k : κ} {v : ρ} {e : Effect τ κ ρ} {R S : ρ → ρ → Prop}

theorem WritesBy.mono (hRS : ∀ v w, R v w → S v w) (h : e.WritesBy R T) : e.WritesBy S T := by
  cases e with
  | update f k => exact fun w hw => hRS _ _ (h w hw)
  | updateAll f ks => exact fun k hk w hw => hRS _ _ (h k hk w hw)
  | updateIn t f k => exact fun w hw => hRS _ _ (h w hw)
  | updateAllIn t f ks => exact fun k hk w hw => hRS _ _ (h k hk w hw)
  | _ => trivial

/-- Statements that follow a transitive relation step by step follow it from the committed
version on, since every open transaction has followed it so far. -/
theorem WritesBy.moves (hrefl : ∀ v, R v v) (htrans : ∀ u v w, R u v → R v w → R u w)
    (hT : ∀ k, (T k).Follows R) (h : e.WritesBy R T) : e.MovesBy R T := by
  cases e with
  | update f k => exact h
  | updateAll f ks => exact h
  | updateIn t f k => exact fun w hw => htrans _ _ _ (Row.view_follows hrefl (hT k)) (h w hw)
  | updateAllIn t f ks =>
    exact fun k hk w hw => htrans _ _ _ (Row.view_follows hrefl (hT k)) (h k hk w hw)
  | _ => trivial

/-- The version of a row that a statement of the step reads. -/
def read (T : Table τ κ ρ) (e : Effect τ κ ρ) (k : κ) : ρ :=
  match e.owner with
  | Option.none => (T k).committed
  | some t => (T k).view t

theorem each_read {P : ρ → Prop} (hT : (T k).Each P) : P (e.read T k) := by
  unfold read
  split
  · exact hT.1
  · exact Row.each_view hT

variable [DecidableEq κ]

def apply (T : Table τ κ ρ) : Effect τ κ ρ → Table τ κ ρ
  | .none => T
  | .update f k => T.update f k
  | .updateAll f ks => T.updateAll f ks
  | .updateIn t f k => T.updateIn t f k
  | .updateAllIn t f ks => T.updateAllIn t f ks
  | .commit t => T.commit t
  | .abort t => T.abort t

/-- The statement that the step runs on the row under `k`. -/
def statement : Effect τ κ ρ → κ → Option (ρ → Option ρ)
  | .update f l, k | .updateIn _ f l, k => if k = l then some f else Option.none
  | .updateAll f ks, k | .updateAllIn _ f ks, k => if k ∈ ks then some (f k) else Option.none
  | _, _ => Option.none

/-- What every statement of the step does to every version, it does to the one it reads. -/
theorem writes_by_statements (h : ∀ k f v w, e.statement k = some f → f v = some w → R v w) :
    e.WritesBy R T := by
  cases e with
  | update f k => exact fun w hw => h k f _ w (by simp [statement]) hw
  | updateAll f ks => exact fun k hk w hw => h k (f k) _ w (by simp [statement, hk]) hw
  | updateIn t f k => exact fun w hw => h k f _ w (by simp [statement]) hw
  | updateAllIn t f ks => exact fun k hk w hw => h k (f k) _ w (by simp [statement, hk]) hw
  | _ => trivial

/-- What a step can do to the row under `k`. -/
inductive RowMove (T : Table τ κ ρ) (e : Effect τ κ ρ) (k : κ) : Row τ ρ → Prop where
  | same : (∀ u, e = .commit u ∨ e = .abort u → ∀ w, (T k).held ≠ some (u, w)) →
      RowMove T e k (T k)
  | own {f : ρ → Option ρ} {w : ρ} : e.statement k = some f → e.owner = Option.none → (T k).Free →
      f (T k).committed = some w → RowMove T e k (Row.settled w)
  | inside {u : τ} {f : ρ → Option ρ} {w : ρ} : e.statement k = some f → e.owner = some u → (T k).FreeFor u →
      f ((T k).view u) = some w → RowMove T e k ((T k).write u w)
  | commit {u : τ} {w : ρ} : e = .commit u → (T k).held = some (u, w) →
      RowMove T e k ⟨w, Option.none⟩
  | abort {u : τ} {w : ρ} : e = .abort u → (T k).held = some (u, w) →
      RowMove T e k ⟨(T k).committed, Option.none⟩

theorem row_moves (hr : e.Ready T) (k : κ) : RowMove T e k (e.apply T k) := by
  have hown : ∀ f, e.statement k = some f → e.owner = Option.none → (T k).Ready f →
      RowMove T e k ((T k).update f) := by
    intro f hs ho hf
    obtain h | ⟨w, hfree, hw, h⟩ := Row.update_cases hf
    · rw [h]
      refine .same ?_
      rintro u (rfl | rfl) <;> cases ho
    · rw [h]
      exact .own hs ho hfree hw
  have hin : ∀ t f, e.statement k = some f → e.owner = some t → (T k).ReadyIn t f →
      RowMove T e k ((T k).updateIn t f) := by
    intro t f hs ho hf
    obtain h | ⟨w, hfree, hw, h⟩ := Row.updateIn_cases hf
    · rw [h]
      refine .same ?_
      rintro u (rfl | rfl) <;> cases hs
    · rw [h]
      exact .inside hs ho hfree hw
  have hsame : ∀ u, e ≠ .commit u → e ≠ .abort u → e = .commit u ∨ e = .abort u →
      ∀ w, (T k).held ≠ some (u, w) := by
    rintro u hc ha (h | h)
    · exact absurd h hc
    · exact absurd h ha
  cases e with
  | none => exact .same fun u => hsame u (by simp) (by simp)
  | update f l =>
    by_cases hl : k = l
    · subst hl
      simpa [apply] using hown f (by simp [statement]) rfl hr
    · simpa [apply, hl] using RowMove.same fun u => hsame u (by simp) (by simp)
  | updateAll f ks =>
    simp only [apply, Table.updateAll]
    split
    · rename_i hk
      exact hown (f k) (by simp [statement, hk]) rfl (hr k hk)
    · exact .same fun u => hsame u (by simp) (by simp)
  | updateIn t f l =>
    by_cases hl : k = l
    · subst hl
      simpa [apply] using hin t f (by simp [statement]) rfl hr
    · simpa [apply, hl] using RowMove.same fun u => hsame u (by simp) (by simp)
  | updateAllIn t f ks =>
    simp only [apply, Table.updateAllIn]
    split
    · rename_i hk
      exact hin t (f k) (by simp [statement, hk]) rfl (hr k hk)
    · exact .same fun u => hsame u (by simp) (by simp)
  | commit t =>
    obtain ⟨hn, h⟩ | ⟨v, hv, h⟩ := Row.commit_cases t (T k)
    · simp only [apply, Table.commit_apply, h]
      refine .same ?_
      rintro u (hu | hu) <;> cases hu
      exact hn
    · simpa [apply, h] using RowMove.commit rfl hv
  | abort t =>
    obtain ⟨hn, h⟩ | ⟨v, hv, h⟩ := Row.abort_cases t (T k)
    · simp only [apply, Table.abort_apply, h]
      refine .same ?_
      rintro u (hu | hu) <;> cases hu
      exact hn
    · simpa [apply, h] using RowMove.abort rfl hv

/-- `R` relates every new version the step writes to the version its statement read. -/
theorem WritesBy.statement {f : ρ → Option ρ} {w : ρ} (h : e.WritesBy R T)
    (hs : e.statement k = some f) :
    (e.owner = Option.none → f (T k).committed = some w → R (T k).committed w) ∧
      ∀ t, e.owner = some t → f ((T k).view t) = some w → R ((T k).view t) w := by
  cases e <;> simp only [Effect.statement, Option.ite_none_right_eq_some, Option.some.injEq,
    reduceCtorEq] at hs
  case update g l =>
    obtain ⟨rfl, rfl⟩ := hs
    exact ⟨fun _ => h w, fun t ho => nomatch ho⟩
  case updateAll g ks =>
    obtain ⟨hk, rfl⟩ := hs
    exact ⟨fun _ => h k hk w, fun t ho => nomatch ho⟩
  case updateIn t g l =>
    obtain ⟨rfl, rfl⟩ := hs
    refine ⟨fun ho => (nomatch ho), fun u ho => ?_⟩
    cases ho
    exact h w
  case updateAllIn t g ks =>
    obtain ⟨hk, rfl⟩ := hs
    refine ⟨fun ho => (nomatch ho), fun u ho => ?_⟩
    cases ho
    exact h k hk w

/-- The same of the relation to the committed version. -/
theorem MovesBy.statement {f : ρ → Option ρ} {w : ρ} (h : e.MovesBy R T)
    (hs : e.statement k = some f) :
    (e.owner = Option.none → f (T k).committed = some w → R (T k).committed w) ∧
      ∀ t, e.owner = some t → f ((T k).view t) = some w → R (T k).committed w := by
  cases e <;> simp only [Effect.statement, Option.ite_none_right_eq_some, Option.some.injEq,
    reduceCtorEq] at hs
  case update g l =>
    obtain ⟨rfl, rfl⟩ := hs
    exact ⟨fun _ => h w, fun t ho => nomatch ho⟩
  case updateAll g ks =>
    obtain ⟨hk, rfl⟩ := hs
    exact ⟨fun _ => h k hk w, fun t ho => nomatch ho⟩
  case updateIn t g l =>
    obtain ⟨rfl, rfl⟩ := hs
    refine ⟨fun ho => (nomatch ho), fun u ho => ?_⟩
    cases ho
    exact h w
  case updateAllIn t g ks =>
    obtain ⟨hk, rfl⟩ := hs
    refine ⟨fun ho => (nomatch ho), fun u ho => ?_⟩
    cases ho
    exact h k hk w

/-- A lock keeps every other transaction, and every statement outside one, from the row. -/
theorem locked_row_unchanged (hr : e.Ready T) (ho : e.owner ≠ some t)
    (hk : (T k).held = some (t, v)) : e.apply T k = T k := by
  have hm := row_moves hr k
  generalize e.apply T k = row at hm ⊢
  cases hm with
  | same => rfl
  | own _ _ hfree _ =>
    rw [Row.Free, hk] at hfree
    cases hfree
  | inside _ hu hfree _ =>
    obtain h | ⟨w, h⟩ := Row.free_for_cases hfree
    · rw [hk] at h
      cases h
    · rw [hk] at h
      cases h
      exact absurd hu ho
  | commit he hh =>
    rw [hk] at hh
    cases hh
    exact absurd (by rw [he, owner]) ho
  | abort he hh =>
    rw [hk] at hh
    cases hh
    exact absurd (by rw [he, owner]) ho

/-- A step moves each committed version along a relation that its writes and the open
transactions respect. -/
theorem committed_moves (hrefl : ∀ v, R v v) (hT : ∀ k, (T k).Follows R) (hr : e.Ready T)
    (hm : e.MovesBy R T) (k : κ) : R (T k).committed (e.apply T k).committed := by
  have hrow := row_moves hr k
  generalize e.apply T k = row at hrow ⊢
  cases hrow with
  | same => exact hrefl _
  | own hs ho _ hw => exact (hm.statement hs).1 ho hw
  | inside => exact hrefl _
  | commit _ hh => exact hT k _ _ hh
  | abort => exact hrefl _

/-- After a step every held version still follows the committed one. -/
theorem follows_apply (hT : ∀ k, (T k).Follows R) (hr : e.Ready T) (hm : e.MovesBy R T) (k : κ) :
    (e.apply T k).Follows R := by
  have hrow := row_moves hr k
  generalize e.apply T k = row at hrow ⊢
  cases hrow with
  | same => exact hT k
  | own => exact Row.follows_settled R
  | inside hs ho _ hw => exact Row.follows_write ((hm.statement hs).2 _ ho hw)
  | commit => exact Row.follows_settled R
  | abort => exact Row.follows_settled R

/-- A preorder that the statements of transactions respect relates the committed version of each
row to the held one, whatever statements of their own do. -/
theorem follows_inside (hrefl : ∀ v, R v v) (htrans : ∀ u v w, R u v → R v w → R u w)
    (hT : ∀ k, (T k).Follows R) (hr : e.Ready T)
    (hs : ∀ t f w, e.owner = some t → e.statement k = some f → f ((T k).view t) = some w →
      R ((T k).view t) w) : (e.apply T k).Follows R := by
  have hrow := row_moves hr k
  generalize e.apply T k = row at hrow ⊢
  cases hrow with
  | same => exact hT k
  | own => exact Row.follows_settled R
  | inside hf ho _ hw =>
    exact Row.follows_write (htrans _ _ _ (Row.view_follows hrefl (hT k)) (hs _ _ _ ho hf hw))
  | commit => exact Row.follows_settled R
  | abort => exact Row.follows_settled R

/-- A step of another party changes what `t` sees of a row only where `t` sees what is committed. -/
theorem view_of_other (hr : e.Ready T) (ho : e.owner ≠ some t) (k : κ) :
    (e.apply T k).view t = (T k).view t ∨
      ((T k).view t = (T k).committed ∧ (e.apply T k).view t = (e.apply T k).committed) := by
  have hrow := row_moves hr k
  generalize e.apply T k = row at hrow ⊢
  cases hrow with
  | same => exact .inl rfl
  | own _ _ hfree _ => exact .inr ⟨Row.view_of_free hfree, rfl⟩
  | @inside u f w _ hu hfree _ =>
    have htu : u ≠ t := fun h => ho (by rw [hu, h])
    have hbefore := Row.view_of_not_held (Row.not_held_of_free_for hfree htu)
    have hheld : ((T k).write u w).held = some (u, w) := rfl
    exact .inr ⟨hbefore, Row.view_of_not_held (Row.not_held_of_held hheld htu)⟩
  | @commit u w he hh =>
    have htu : u ≠ t := fun h => ho (by rw [he, owner, h])
    exact .inr ⟨Row.view_of_not_held (Row.not_held_of_held hh htu), rfl⟩
  | @abort u w he hh =>
    have htu : u ≠ t := fun h => ho (by rw [he, owner, h])
    exact .inr ⟨Row.view_of_not_held (Row.not_held_of_held hh htu), rfl⟩

/-- A predicate on versions holds of every version in a row, if it holds of each version that the
step writes there. -/
theorem each_apply_read {P : ρ → Prop} (hT : (T k).Each P) (hr : e.Ready T)
    (hs : ∀ f w, e.statement k = some f → f (e.read T k) = some w → P w) :
    (e.apply T k).Each P := by
  have hrow := row_moves hr k
  generalize e.apply T k = row at hrow ⊢
  cases hrow with
  | same => exact hT
  | own hf ho _ hw => exact Row.each_settled (hs _ _ hf (by simpa [read, ho] using hw))
  | inside hf ho _ hw =>
    refine ⟨hT.1, fun t v hv => ?_⟩
    simp only [Row.write_held, Option.some.injEq, Prod.mk.injEq] at hv
    obtain ⟨_, rfl⟩ := hv
    exact hs _ _ hf (by simpa [read, ho] using hw)
  | commit _ hh => exact Row.each_settled (hT.2 _ _ hh)
  | abort => exact Row.each_settled hT.1

/-- A predicate on versions holds of every version in a row, if each write keeps it. -/
theorem each_apply {P : ρ → Prop} (hT : (T k).Each P) (hr : e.Ready T)
    (hs : ∀ f v w, e.statement k = some f → f v = some w → P v → P w) :
    (e.apply T k).Each P :=
  each_apply_read hT hr fun _ _ hf hw => hs _ _ _ hf hw (each_read hT)

/-- Each write that is related to the committed version of its row, for the version it reads. -/
theorem moves_by_read
    (h : ∀ k f w, e.statement k = some f → f (e.read T k) = some w → R (T k).committed w) :
    e.MovesBy R T := by
  cases e with
  | update f k => exact fun w hw => h k f w (by simp [statement]) hw
  | updateAll f ks => exact fun k hk w hw => h k (f k) w (by simp [statement, hk]) hw
  | updateIn t f k => exact fun w hw => h k f w (by simp [statement]) hw
  | updateAllIn t f ks => exact fun k hk w hw => h k (f k) w (by simp [statement, hk]) hw
  | _ => trivial

end Effect

end RowVersions
