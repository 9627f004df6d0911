import Mathlib.Data.List.AList
import Mathlib.Data.List.Nodup
import Mathlib.Data.Nat.Notation
import Mathlib.Logic.Function.Basic
import Mathlib.Order.Nat
import WaRuntime.TransitionRuns

/-! Requests that read a row, make a plan of what they have read, and then write under a guard.
A request that finds another row than the one it has read writes nothing; some requests then look at
the row once more for their answer. Beside them rows are inserted, and the world that the writes
look at goes on. -/
namespace OptimisticRequests

open TransitionRuns

/-- The keys and rows of a table, what no write changes of a row, and the plans, calls, answers and
the world of the service. -/
structure Domain where
  Key : Type
  Row : Type
  Origin : Type
  Plan : Type
  Call : Type
  Answer : Type
  World : Type
  keyEq : DecidableEq Key

instance (D : Domain) : DecidableEq D.Key := D.keyEq

/-- A table of rows under their keys. -/
abbrev Store (D : Domain) := AList fun _ : D.Key => D.Row

inductive Outcome (D : Domain) where
  | written (row : D.Row) (answer : D.Answer)
  | refused (answer : D.Answer)
  | missed

/-- `plan` is what a request makes of the row that it has read, and `again` what it answers after a
write that has missed. -/
structure Service (D : Domain) where
  key : D.Call → D.Key
  version : D.Row → ℕ
  origin : D.Row → D.Origin
  plan : D.Call → Option D.Row → Except D.Answer (D.Row × D.Plan)
  write : D.World → Store D → D.Call → D.Row → D.Plan → Outcome D
  again : D.Call → D.Row → Option D.Row → D.Answer

/-- A plan is for the row that was read; a write only changes that version of it, to a later one of
the same origin or not at all, and finds it where it is still there. -/
structure Service.Lawful {D : Domain} (S : Service D) : Prop where
  planned : ∀ call found current plan, S.plan call found = .ok (current, plan) →
    found = some current
  guarded : ∀ world store call current plan row answer,
    S.write world store call current plan = .written row answer →
      ∃ stored, store.lookup (S.key call) = some stored ∧ S.version stored = S.version current ∧
        S.origin row = S.origin stored ∧ (S.version stored < S.version row ∨ row = stored)
  found : ∀ world store call current plan, S.plan call (some current) = .ok (current, plan) →
    store.lookup (S.key call) = some current → S.write world store call current plan ≠ .missed

inductive Phase (D : Domain) where
  | reading
  | writing (current : D.Row) (plan : D.Plan)
  | missed (current : D.Row)
  | answered (answer : D.Answer)

/-- The row that an open request has read. -/
def Phase.current {D : Domain} : Phase D → Option D.Row
  | .writing current _ | .missed current => some current
  | .reading | .answered _ => none

structure State (D : Domain) where
  world : D.World
  store : Store D
  requests : ℕ → Option (D.Call × Phase D)

inductive Event (D : Domain) where
  | world (world : D.World)
  | insert (key : D.Key) (row : D.Row)
  | start (r : ℕ) (call : D.Call)
  | read (r : ℕ)
  | write (r : ℕ)
  | again (r : ℕ)

section Steps

variable {D : Domain} (S : Service D) (s : State D)

def State.answer (r : ℕ) (call : D.Call) (phase : Phase D) : State D :=
  { s with requests := Function.update s.requests r (some (call, phase)) }

/-- The request as it runs when nothing happens in between. -/
def alone (world : D.World) (store : Store D) (call : D.Call) :
    Store D × D.Answer :=
  match S.plan call (store.lookup (S.key call)) with
  | .error answer => (store, answer)
  | .ok (current, plan) =>
    match S.write world store call current plan with
    | .written row answer => (store.insert (S.key call) row, answer)
    | .refused answer => (store, answer)
    | .missed => (store, S.again call current (store.lookup (S.key call)))

def planned (call : D.Call) : Phase D :=
  match S.plan call (s.store.lookup (S.key call)) with
  | .error answer => .answered answer
  | .ok (current, plan) => .writing current plan

def written (r : ℕ) (call : D.Call) (current : D.Row) (plan : D.Plan) : State D :=
  match S.write s.world s.store call current plan with
  | .written row answer =>
    { s.answer r call (.answered answer) with
      store := s.store.insert (S.key call) row }
  | .refused answer => s.answer r call (.answered answer)
  | .missed => s.answer r call (.missed current)

def step : Event D → Option (State D)
  | .world world => some { s with world := world }
  | .insert key row =>
    match s.store.lookup key with
    | none => some { s with store := s.store.insert key row }
    | some _ => none
  | .start r call =>
    match s.requests r with
    | none => some (s.answer r call .reading)
    | some _ => none
  | .read r =>
    match s.requests r with
    | some (call, .reading) => some (s.answer r call (planned S s call))
    | _ => none
  | .write r =>
    match s.requests r with
    | some (call, .writing current plan) => some (written S s r call current plan)
    | _ => none
  | .again r =>
    match s.requests r with
    | some (call, .missed current) =>
      some (s.answer r call (.answered (S.again call current (s.store.lookup (S.key call)))))
    | _ => none

def system : System (State D) (Event D) := ofStep (fun s => ∀ r, s.requests r = none) (step S)

end Steps

section Versions

variable {D : Domain} {S : Service D} {s u : State D} {e : Event D} {r : ℕ} {call : D.Call}
  {current : D.Row} {plan : D.Plan} {answer : D.Answer} {phase : Phase D}

/-- The row is still there, in the same version as it was, or in a later one. -/
def Newer (S : Service D) (old : D.Row) (found : Option D.Row) : Prop :=
  ∃ stored, found = some stored ∧ S.origin stored = S.origin old ∧
    (S.version old < S.version stored ∨ stored = old)

/-- The row has a later version. -/
def Stale (S : Service D) (old : D.Row) (found : Option D.Row) : Prop :=
  ∃ stored, found = some stored ∧ S.origin stored = S.origin old ∧
    S.version old < S.version stored

theorem newer_trans {old mid : D.Row} {found : Option D.Row} (h : Newer S old (some mid))
    (k : Newer S mid found) : Newer S old found := by
  obtain ⟨_, hmid, ho, h⟩ := h
  cases hmid
  obtain ⟨stored, hfound, ko, k⟩ := k
  refine ⟨stored, hfound, ko.trans ho, ?_⟩
  rcases k with k | rfl
  · rcases h with h | rfl
    · exact .inl (h.trans k)
    · exact .inl k
  · exact h

theorem stale_newer {old mid : D.Row} {found : Option D.Row} (h : Stale S old (some mid))
    (k : Newer S mid found) : Stale S old found := by
  obtain ⟨_, hmid, ho, h⟩ := h
  cases hmid
  obtain ⟨stored, hfound, ko, k⟩ := k
  refine ⟨stored, hfound, ko.trans ho, ?_⟩
  rcases k with k | rfl
  · exact h.trans k
  · exact h

/-- What a write does, by what it finds. -/
inductive Wrote (S : Service D) (s : State D) (r : ℕ) (call : D.Call) (current : D.Row)
    (plan : D.Plan) : State D → Prop where
  | written (row stored : D.Row) (answer : D.Answer)
      (hw : S.write s.world s.store call current plan = .written row answer)
      (hs : s.store.lookup (S.key call) = some stored) (hv : S.version stored = S.version current)
      (ho : S.origin row = S.origin stored)
      (hn : S.version stored < S.version row ∨ row = stored) :
      Wrote S s r call current plan
        { s.answer r call (.answered answer) with
          store := s.store.insert (S.key call) row }
  | refused (answer : D.Answer)
      (hw : S.write s.world s.store call current plan = .refused answer) :
      Wrote S s r call current plan (s.answer r call (.answered answer))
  | missed (hw : S.write s.world s.store call current plan = .missed) :
      Wrote S s r call current plan (s.answer r call (.missed current))

theorem wrote_of_written (hS : S.Lawful) :
    Wrote S s r call current plan (written S s r call current plan) := by
  unfold OptimisticRequests.written
  cases hw : S.write s.world s.store call current plan with
  | written row answer =>
    obtain ⟨stored, hs, hv, ho, hn⟩ := hS.guarded _ _ _ _ _ _ _ hw
    exact .written row stored answer hw hs hv ho hn
  | refused answer => exact .refused answer hw
  | missed => exact .missed hw

/-- What one step does. -/
inductive Moves (S : Service D) (s : State D) : Event D → State D → Prop where
  | world (world : D.World) : Moves S s (.world world) { s with world := world }
  | insert (key : D.Key) (row : D.Row) (hn : s.store.lookup key = none) :
      Moves S s (.insert key row) { s with store := s.store.insert key row }
  | start (r : ℕ) (call : D.Call) (hn : s.requests r = none) :
      Moves S s (.start r call) (s.answer r call .reading)
  | read (r : ℕ) (call : D.Call) (hr : s.requests r = some (call, .reading)) :
      Moves S s (.read r) (s.answer r call (planned S s call))
  | write (r : ℕ) (call : D.Call) (current : D.Row) (plan : D.Plan)
      (hr : s.requests r = some (call, .writing current plan)) (u : State D)
      (hw : Wrote S s r call current plan u) : Moves S s (.write r) u
  | again (r : ℕ) (call : D.Call) (current : D.Row)
      (hr : s.requests r = some (call, .missed current)) :
      Moves S s (.again r)
        (s.answer r call (.answered (S.again call current (s.store.lookup (S.key call)))))

theorem moves_of_step (hS : S.Lawful) (h : step S s e = some u) : Moves S s e u := by
  cases e with
  | world world =>
    cases h
    exact .world world
  | insert key row =>
    simp only [step] at h
    split at h
    · rename_i hn
      cases h
      exact .insert key row hn
    · cases h
  | start r call =>
    simp only [step] at h
    split at h
    · rename_i hn
      cases h
      exact .start r call hn
    · cases h
  | read r =>
    simp only [step] at h
    split at h
    · rename_i call hr
      cases h
      exact .read r call hr
    · cases h
  | write r =>
    simp only [step] at h
    split at h
    · rename_i call current plan hr
      cases h
      exact .write r call current plan hr _ (wrote_of_written hS)
    · cases h
  | again r =>
    simp only [step] at h
    split at h
    · rename_i call current hr
      cases h
      exact .again r call current hr
    · cases h

/-- A row stays, and a step that changes it raises its version. -/
theorem rows_move_on (h : Moves S s e u) {key : D.Key} {row : D.Row}
    (hrow : s.store.lookup key = some row) : Newer S row (u.store.lookup key) := by
  have hsame : Newer S row (s.store.lookup key) := ⟨row, hrow, rfl, .inr rfl⟩
  cases h with
  | insert other new hn =>
    have hne : key ≠ other := by
      rintro rfl
      rw [hn] at hrow
      cases hrow
    simpa [AList.lookup_insert_ne hne] using hsame
  | write r call current plan hr u hw =>
    cases hw with
    | written new stored answer hw hs hv ho hn =>
      by_cases hkey : key = S.key call
      · subst hkey
        rw [hs] at hrow
        cases hrow
        exact ⟨new, by simp, ho, hn⟩
      · simpa [AList.lookup_insert_ne hkey] using hsame
    | _ => exact hsame
  | _ => exact hsame

/-- A request that is to write has read the row as it is or was, and one that has missed has read an
earlier version, under the same plan. -/
def Knows (S : Service D) (store : Store D) (call : D.Call) : Phase D → Prop
  | .writing current plan =>
    S.plan call (some current) = .ok (current, plan) ∧ Newer S current (store.lookup (S.key call))
  | .missed current =>
    (∃ plan, S.plan call (some current) = .ok (current, plan) ∧
      ∃ world store, S.write world store call current plan = .missed) ∧
      Stale S current (store.lookup (S.key call))
  | _ => True

def Inv (S : Service D) (s : State D) : Prop :=
  ∀ r call phase, s.requests r = some (call, phase) → Knows S s.store call phase

theorem knows_later (h : Moves S s e u) (hk : Knows S s.store call phase) :
    Knows S u.store call phase := by
  cases phase with
  | writing current plan =>
    obtain ⟨hplan, stored, hstored, hversion⟩ := hk
    exact ⟨hplan, newer_trans ⟨stored, rfl, hversion⟩ (rows_move_on h hstored)⟩
  | missed current =>
    obtain ⟨hplan, stored, hstored, hversion⟩ := hk
    exact ⟨hplan, stale_newer ⟨stored, rfl, hversion⟩ (rows_move_on h hstored)⟩
  | _ => trivial

theorem answer_requests {other : ℕ} : (s.answer r call phase).requests other =
    if other = r then some (call, phase) else s.requests other := by
  by_cases h : other = r <;> simp [State.answer, h]

/-- One request moves, and all others know what they have known. -/
theorem inv_answer (hI : Inv S s) (h : Moves S s e u)
    (hu : u.requests = (s.answer r call phase).requests) (hk : Knows S u.store call phase) :
    Inv S u := by
  intro other c p hother
  rw [hu, answer_requests] at hother
  split at hother
  · cases hother
    exact hk
  · exact knows_later h (hI other c p hother)

theorem knows_planned (hS : S.Lawful) : Knows S s.store call (planned S s call) := by
  unfold planned
  split
  · trivial
  · rename_i current plan hplan
    have hfound := hS.planned _ _ _ _ hplan
    rw [hfound] at hplan
    exact ⟨hplan, current, hfound, rfl, .inr rfl⟩

theorem inv_move (hS : S.Lawful) (hI : Inv S s) (h : Moves S s e u) : Inv S u := by
  have hall := h
  cases h with
  | world world => exact hI
  | insert key row hn => exact fun r call phase hr => knows_later hall (hI r call phase hr)
  | start r call hn => exact inv_answer hI hall rfl trivial
  | read r call hr => exact inv_answer hI hall rfl (knows_planned hS)
  | write r call current plan hr u hw =>
    cases hw with
    | written row stored answer hw hs hv ho hn =>
      exact inv_answer hI hall (show _ = (s.answer r call (.answered answer)).requests from rfl)
        trivial
    | refused answer hw => exact inv_answer hI hall rfl trivial
    | missed hw =>
      refine inv_answer hI hall rfl ?_
      -- had the row still been the one that was read, the write would have found it
      obtain ⟨hplan, stored, hstored, horigin, hlater | rfl⟩ := hI r call _ hr
      · exact ⟨⟨plan, hplan, s.world, s.store, hw⟩, stored, hstored, horigin, hlater⟩
      · exact absurd hw (hS.found _ _ _ _ _ hplan hstored)
  | again r call current hr => exact inv_answer hI hall rfl trivial

theorem reachable_inv (hS : S.Lawful) (h : Reachable (system S) s) : Inv S s := by
  refine reachable_invariant (fun s hs r call phase hr => ?_)
    (fun s e hI he => inv_move hS hI (moves_of_step hS (ofStep_enabled he))) h
  rw [hs r] at hr
  cases hr

end Versions

section Reads

variable {D : Domain} {S : Service D} {s₀ s u : State D} {e : Event D} {es : List (Event D)} {r : ℕ}
  {call : D.Call} {current : D.Row} {phase : Phase D}

/-- The request has read this row in the run, where the table had it. -/
def HasRead (S : Service D) (s₀ : State D) (es : List (Event D)) (r : ℕ) (call : D.Call)
    (current : D.Row) : Prop :=
  ∃ fs t, fs ++ [.read r] <+: es ∧ Execution (system S) s₀ fs t ∧
    t.requests r = some (call, .reading) ∧ t.store.lookup (S.key call) = some current

theorem has_read_later (h : HasRead S s₀ es r call current) (e : Event D) :
    HasRead S s₀ (es ++ [e]) r call current := by
  obtain ⟨fs, t, hfs, ht, hr, hrow⟩ := h
  exact ⟨fs, t, hfs.trans (List.prefix_append es [e]), ht, hr, hrow⟩

/-- What a step leaves a request with, it has had before, or it reads it now. -/
def Had (S : Service D) (s : State D) (e : Event D) (r : ℕ) (call : D.Call) (current : D.Row) :
    Prop :=
  (∃ before, s.requests r = some (call, before) ∧ before.current = some current) ∨
    e = .read r ∧ s.requests r = some (call, .reading) ∧
      s.store.lookup (S.key call) = some current

/-- The request that moves is given a phase, and all others keep theirs. -/
theorem had_answer {other : ℕ} {c : D.Call} {p : Phase D}
    (hr : (s.answer other c p).requests r = some (call, phase))
    (hc : phase.current = some current)
    (hp : p.current = some current → Had S s e other c current) : Had S s e r call current := by
  rw [answer_requests] at hr
  split at hr
  · rename_i heq
    subst heq
    cases hr
    exact hp hc
  · exact .inl ⟨phase, hr, hc⟩

theorem planned_current (hS : S.Lawful) (h : (planned S s call).current = some current) :
    s.store.lookup (S.key call) = some current := by
  unfold planned at h
  split at h
  · cases h
  · rename_i found made hplan
    cases h
    exact hS.planned _ _ _ _ hplan

theorem had_of_move (hS : S.Lawful) (h : Moves S s e u) (hr : u.requests r = some (call, phase))
    (hc : phase.current = some current) : Had S s e r call current := by
  cases h with
  | world world => exact .inl ⟨phase, hr, hc⟩
  | insert key row hn => exact .inl ⟨phase, hr, hc⟩
  | start other c hn => exact had_answer hr hc (fun h => by cases h)
  | read other c hread =>
    exact had_answer hr hc fun h => .inr ⟨rfl, hread, planned_current hS h⟩
  | write other c found made hwriting u hw =>
    cases hw with
    | written row stored answer hw hs hv ho hn =>
      exact had_answer (p := .answered answer) hr hc (fun h => by cases h)
    | refused answer hw => exact had_answer hr hc (fun h => by cases h)
    | missed hw => exact had_answer hr hc fun h => .inl ⟨_, hwriting, h⟩
  | again other c found hmissed => exact had_answer hr hc (fun h => by cases h)

/-- What an open request knows, it has read. -/
theorem has_read (hS : S.Lawful) (h₀ : (system S).initial s₀) (h : Execution (system S) s₀ es s)
    (hr : s.requests r = some (call, phase)) (hc : phase.current = some current) :
    HasRead S s₀ es r call current := by
  induction h generalizing phase with
  | refl =>
    rw [h₀ r] at hr
    cases hr
  | @step es t e hrun he ih =>
    obtain ⟨before, hbefore, hcurrent⟩ | ⟨rfl, hreading, hrow⟩ :=
      had_of_move hS (moves_of_step hS (ofStep_enabled he)) hr hc
    · exact has_read_later (ih hbefore hcurrent) e
    · exact ⟨es, t, List.prefix_rfl, hrun, hreading, hrow⟩

end Reads

section Serialized

variable {D : Domain} {S : Service D} {s u : State D} {e : Event D} {r : ℕ}
  {call : D.Call} {answer : D.Answer}

/-- What has an effect in a run: an insertion, or a request that runs alone. -/
inductive Op (D : Domain) where
  | insert (key : D.Key) (row : D.Row)
  | call (r : ℕ) (world : D.World) (call : D.Call) (answer : D.Answer)

def Op.request : Op D → Option ℕ
  | .insert _ _ => none
  | .call r _ _ _ => some r

def Op.inserted : Op D → Option (D.Key × D.Row)
  | .insert key row => some (key, row)
  | .call _ _ _ _ => none

def Event.inserted : Event D → Option (D.Key × D.Row)
  | .insert key row => some (key, row)
  | _ => none

/-- The operations lead from one store to the other, one after the other. -/
inductive Serial (S : Service D) (store : Store D) :
    List (Op D) → Store D → Prop where
  | none : Serial S store [] store
  | insert (ops : List (Op D)) (mid : Store D) (key : D.Key) (row : D.Row)
      (before : Serial S store ops mid) (hn : mid.lookup key = none) :
      Serial S store (ops ++ [.insert key row]) (mid.insert key row)
  | call (ops : List (Op D)) (mid : Store D) (r : ℕ) (world : D.World) (call : D.Call)
      (before : Serial S store ops mid) :
      Serial S store (ops ++ [.call r world call (alone S world mid call).2])
        (alone S world mid call).1

/-- The answer of a request that has read a version that is not the last one any more. -/
def Contended (S : Service D) (s : State D) (r : ℕ) (call : D.Call) (answer : D.Answer) : Prop :=
  ∃ current, Stale S current (s.store.lookup (S.key call)) ∧
    ((∃ plan, s.requests r = some (call, .writing current plan) ∧
        S.write s.world s.store call current plan = .refused answer) ∨
      s.requests r = some (call, .missed current) ∧
        S.again call current (s.store.lookup (S.key call)) = answer)

/-- A step inserts a row, or answers one request, or leaves the store and all answers as they are.
An answer is that of the request as it runs alone, or nothing is written and the row has changed since
the request read it. -/
inductive Effect (S : Service D) (s : State D) (e : Event D) (u : State D) : Prop where
  | inserted (key : D.Key) (row : D.Row) (he : e.inserted = some (key, row))
      (hn : s.store.lookup key = none) (hstore : u.store = s.store.insert key row)
      (hr : u.requests = s.requests)
  | answered (r : ℕ) (call : D.Call) (answer : D.Answer) (he : e.inserted = none)
      (hopen : ∀ call answer, s.requests r ≠ some (call, .answered answer))
      (hr : u.requests = (s.answer r call (.answered answer)).requests)
      (hanswer : (u.store, answer) = alone S s.world s.store call ∨
        u.store = s.store ∧ Contended S s r call answer)
  | silent (he : e.inserted = none) (hstore : u.store = s.store)
      (hr : ∀ r call answer, u.requests r = some (call, .answered answer) ↔
        s.requests r = some (call, .answered answer))

theorem silent_phase {phase : Phase D} (he : e.inserted = none)
    (hopen : ∀ c answer, s.requests r ≠ some (c, .answered answer))
    (hphase : ∀ answer, phase ≠ .answered answer) : Effect S s e (s.answer r call phase) := by
  refine .silent he rfl fun other c answer => ?_
  rw [answer_requests]
  split
  · rename_i heq
    subst heq
    constructor
    · intro h
      cases h
      exact absurd rfl (hphase answer)
    · exact fun h => absurd h (hopen c answer)
  · exact Iff.rfl

theorem effect_of_move (hI : Inv S s) (h : Moves S s e u) : Effect S s e u := by
  cases h with
  | world world => exact .silent rfl rfl fun _ _ _ => Iff.rfl
  | insert key row hn => exact .inserted key row rfl hn rfl rfl
  | start r call hn =>
    refine silent_phase rfl (fun c answer h => ?_) fun _ h => by cases h
    rw [hn] at h
    cases h
  | read r call hr =>
    have hopen : ∀ c answer, s.requests r ≠ some (c, .answered answer) := fun _ _ h => by
      rw [hr] at h
      cases h
    unfold planned
    cases hplan : S.plan call (s.store.lookup (S.key call)) with
    | error answer =>
      refine .answered r call answer rfl hopen rfl (.inl ?_)
      simp only [alone, hplan]
      rfl
    | ok planned => exact silent_phase rfl hopen fun _ h => by cases h
  | write r call current plan hr u hw =>
    have hopen : ∀ c answer, s.requests r ≠ some (c, .answered answer) := fun _ _ h => by
      rw [hr] at h
      cases h
    obtain ⟨hplan, stored, hstored, horigin, hversion⟩ := hI r call _ hr
    cases hw with
    | written row found answer hw hs hv ho hn =>
      rw [hs] at hstored
      cases hstored
      -- the guard has found the version that was read
      obtain rfl : stored = current := hversion.resolve_left (by omega)
      refine .answered r call answer rfl hopen rfl (.inl ?_)
      simp only [alone, hs, hplan, hw]
    | refused answer hw =>
      rcases hversion with hlater | rfl
      · exact .answered r call answer rfl hopen rfl
          (.inr ⟨rfl, current, ⟨stored, hstored, horigin, hlater⟩, .inl ⟨plan, hr, hw⟩⟩)
      · refine .answered r call answer rfl hopen rfl (.inl ?_)
        simp only [alone, hstored, hplan, hw]
        rfl
    | missed hw => exact silent_phase rfl hopen fun _ h => by cases h
  | again r call current hr =>
    have hopen : ∀ c answer, s.requests r ≠ some (c, .answered answer) := fun _ _ h => by
      rw [hr] at h
      cases h
    exact .answered r call _ rfl hopen rfl (.inr ⟨rfl, current, (hI r call _ hr).2, .inr ⟨hr, rfl⟩⟩)

/-- The request was answered under contention at some moment of the run. -/
def MetContention (S : Service D) (s₀ : State D) (es : List (Event D)) (r : ℕ) (call : D.Call)
    (answer : D.Answer) : Prop :=
  ∃ fs t, fs <+: es ∧ Execution (system S) s₀ fs t ∧ Contended S t r call answer

/-- What has happened so far is what the operations do one after the other, the insertions as they
came and each request where it was answered. -/
structure Serialized (S : Service D) (s₀ : State D) (es : List (Event D)) (s : State D)
    (ops : List (Op D)) : Prop where
  serial : Serial S s₀.store ops s.store
  once : (ops.filterMap Op.request).Nodup
  inserts : ops.filterMap Op.inserted = es.filterMap Event.inserted
  sound : ∀ r world call answer, Op.call r world call answer ∈ ops →
    s.requests r = some (call, .answered answer)
  complete : ∀ r call answer, s.requests r = some (call, .answered answer) →
    (∃ world, Op.call r world call answer ∈ ops) ∨ MetContention S s₀ es r call answer

theorem met_later {s₀ : State D} {es : List (Event D)} (h : MetContention S s₀ es r call answer)
    (e : Event D) : MetContention S s₀ (es ++ [e]) r call answer := by
  obtain ⟨fs, t, hfs, ht, hc⟩ := h
  exact ⟨fs, t, hfs.trans (List.prefix_append es [e]), ht, hc⟩

section Serializing

variable {s₀ t : State D} {es : List (Event D)} {ops : List (Op D)}

theorem complete_later (h : Serialized S s₀ es t ops) (e : Event D) (more : List (Op D))
    (hr : t.requests r = some (call, .answered answer)) :
    (∃ world, Op.call r world call answer ∈ ops ++ more) ∨
      MetContention S s₀ (es ++ [e]) r call answer := by
  rcases h.complete r call answer hr with ⟨world, hmem⟩ | hmet
  · exact .inl ⟨world, List.mem_append_left _ hmem⟩
  · exact .inr (met_later hmet e)

theorem inserts_later (h : Serialized S s₀ es t ops) (e : Event D) (op : Op D)
    (he : e.inserted = op.inserted) :
    (ops ++ [op]).filterMap Op.inserted = (es ++ [e]).filterMap Event.inserted := by
  simp only [List.filterMap_append, h.inserts, List.filterMap_cons, List.filterMap_nil, he]

theorem inserts_none (h : Serialized S s₀ es t ops) (e : Event D) (he : e.inserted = none) :
    ops.filterMap Op.inserted = (es ++ [e]).filterMap Event.inserted := by
  simp [List.filterMap_append, h.inserts, he]

theorem serialized_silent (h : Serialized S s₀ es t ops) (e : Event D) (he : e.inserted = none)
    (hstore : u.store = t.store)
    (hr : ∀ r call answer, u.requests r = some (call, .answered answer) ↔
      t.requests r = some (call, .answered answer)) : Serialized S s₀ (es ++ [e]) u ops := by
  refine ⟨by rw [hstore]; exact h.serial, h.once, inserts_none h e he,
    fun r world call answer hmem => (hr r call answer).mpr (h.sound r world call answer hmem),
    fun r call answer hu => ?_⟩
  have hlater := complete_later h e [] ((hr r call answer).mp hu)
  rwa [List.append_nil] at hlater

theorem serialized_insert (h : Serialized S s₀ es t ops) (e : Event D) {key : D.Key} {row : D.Row}
    (he : e.inserted = some (key, row)) (hn : t.store.lookup key = none)
    (hstore : u.store = t.store.insert key row)
    (hr : u.requests = t.requests) :
    Serialized S s₀ (es ++ [e]) u (ops ++ [.insert key row]) := by
  have hnone : [Op.insert (D := D) key row].filterMap Op.request = [] := rfl
  refine ⟨?_, ?_, inserts_later h e _ he, fun r world call answer hmem => ?_,
    fun r call answer hu => ?_⟩
  · rw [hstore]
    exact .insert ops _ key row h.serial hn
  · rw [List.filterMap_append, hnone, List.append_nil]
    exact h.once
  · rw [hr]
    refine h.sound r world call answer ?_
    simpa using hmem
  · rw [hr] at hu
    exact complete_later h e _ hu

/-- The answered request goes to the end of the operations where it has run alone. -/
theorem serialized_answer (hS₀ : Execution (system S) s₀ es t) (h : Serialized S s₀ es t ops)
    (e : Event D) (he : e.inserted = none)
    (hopen : ∀ call answer, t.requests r ≠ some (call, .answered answer))
    (hr : u.requests = (t.answer r call (.answered answer)).requests)
    (hanswer : (u.store, answer) = alone S t.world t.store call ∨
      u.store = t.store ∧ Contended S t r call answer) :
    ∃ ops, Serialized S s₀ (es ++ [e]) u ops := by
  have hother : ∀ other c a, u.requests other = some (c, .answered a) →
      other = r ∧ c = call ∧ a = answer ∨ t.requests other = some (c, .answered a) := by
    intro other c a hother
    rw [hr, answer_requests] at hother
    split at hother
    · rename_i heq
      cases hother
      exact .inl ⟨heq, rfl, rfl⟩
    · exact .inr hother
  have hkeeps : ∀ other c a, t.requests other = some (c, .answered a) →
      u.requests other = some (c, .answered a) := by
    intro other c a hold
    rw [hr, answer_requests, if_neg]
    · exact hold
    · rintro rfl
      exact hopen c a hold
  rcases hanswer with halone | ⟨hstore, hcontended⟩
  · have hstore : u.store = (alone S t.world t.store call).1 := (Prod.ext_iff.mp halone).1
    obtain rfl : answer = (alone S t.world t.store call).2 := (Prod.ext_iff.mp halone).2
    refine ⟨ops ++ [.call r t.world call (alone S t.world t.store call).2], ?_, ?_,
      inserts_later h e (.call r t.world call (alone S t.world t.store call).2) he,
      fun other world c a hmem => ?_, fun other c a hu => ?_⟩
    · rw [hstore]
      exact .call ops _ r t.world call h.serial
    · rw [List.filterMap_append]
      refine List.Nodup.append h.once (by simp [Op.request]) fun x hx hxr => ?_
      obtain ⟨op, hop, hrequest⟩ := List.mem_filterMap.mp hx
      obtain rfl : x = r := by simpa [Op.request] using hxr
      cases op with
      | insert key row => cases hrequest
      | call r' world c a =>
        cases hrequest
        exact hopen c a (h.sound _ world c a hop)
    · rcases List.mem_append.mp hmem with hmem | hmem
      · exact hkeeps other c a (h.sound other world c a hmem)
      · cases List.mem_singleton.mp hmem
        rw [hr, answer_requests, if_pos rfl]
    · rcases hother other c a hu with ⟨rfl, rfl, rfl⟩ | hold
      · exact .inl ⟨t.world, List.mem_append_right _ (List.mem_singleton_self _)⟩
      · exact complete_later h e _ hold
  · refine ⟨ops, by rw [hstore]; exact h.serial, h.once, inserts_none h e he,
      fun other world c a hmem =>
      hkeeps other c a (h.sound other world c a hmem), fun other c a hu => ?_⟩
    rcases hother other c a hu with ⟨rfl, rfl, rfl⟩ | hold
    · exact .inr ⟨es, t, List.prefix_append es [e], hS₀, hcontended⟩
    · have hlater := complete_later h e [] hold
      rwa [List.append_nil] at hlater

/-- The requests of a run are serializable in the order of their answers, but for those that met
contention, which have written nothing. -/
theorem requests_serialized (hS : S.Lawful) (h₀ : (system S).initial s₀)
    (h : Execution (system S) s₀ es s) : ∃ ops, Serialized S s₀ es s ops := by
  induction h with
  | refl =>
    refine ⟨[], .none, List.nodup_nil, rfl, (fun _ _ _ _ h => by cases h),
      fun r call answer hr => ?_⟩
    rw [h₀ r] at hr
    cases hr
  | @step es t e hrun he ih =>
    obtain ⟨ops, hops⟩ := ih
    have hI := reachable_inv hS ⟨es, s₀, h₀, hrun⟩
    have heffect : Effect S t e ((system S).next t e) :=
      effect_of_move hI (moves_of_step hS (ofStep_enabled he))
    cases heffect with
    | inserted key row hinserted hn hstore hr =>
      exact ⟨_, serialized_insert hops e hinserted hn hstore hr⟩
    | silent hinserted hstore hr => exact ⟨ops, serialized_silent hops e hinserted hstore hr⟩
    | answered r call answer hinserted hopen hr hanswer =>
      exact serialized_answer hrun hops e hinserted hopen hr hanswer

end Serializing

end Serialized

end OptimisticRequests
