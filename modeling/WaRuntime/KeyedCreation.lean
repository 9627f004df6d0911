import Mathlib.Data.Nat.Notation
import Mathlib.Logic.Function.Basic
import Mathlib.Order.Nat
import WaRuntime.TransitionRuns

/-! Creation under an idempotency key.
A request passes its checks one after the other, each on the world as it is at that moment, and
then inserts the record of its key or finds the one that is there. Requests interleave, and the
world and the retention of records go on beside them. -/
namespace KeyedCreation

open TransitionRuns

set_option linter.unusedSectionVars false

variable {Key Slot Body World Refusal Hash : Type}

/-- A check looks at the world. `slot` is what the key is unique under. Some endpoints look for the
record before they insert one. -/
structure Endpoint (Key Slot Body World Refusal Hash : Type) where
  checks : List (World → Key → Body → Option Refusal)
  slot : Key → Slot
  hash : Body → Hash
  looksFirst : Bool

inductive Answer (Refusal : Type) where
  | returned (id : ℕ) (created : Bool)
  | conflict
  | retired
  | refused (reason : Refusal)
  | lost
  deriving DecidableEq

inductive Phase (Refusal : Type) where
  | checking (n : ℕ)
  | looking
  | inserting
  | selecting
  | answered (answer : Answer Refusal)
  deriving DecidableEq

structure Request (Key Body Refusal : Type) where
  key : Key
  body : Body
  phase : Phase Refusal

/-- Only the hash is stored of the request that created a record; the key and the body themselves
are kept for the statements. -/
structure Record (Key Body Hash : Type) where
  id : ℕ
  hash : Hash
  retired : Bool
  key : Key
  body : Body

/-- `owed` is the record that an identical request had created before this one began, as long as it
is retained. -/
structure State (Key Slot Body World Refusal Hash : Type) where
  world : World
  records : Slot → Option (Record Key Body Hash)
  requests : ℕ → Option (Request Key Body Refusal)
  owed : ℕ → Option ℕ
  drawn : List ℕ
  removed : List ℕ

inductive Event (Key Slot Body World : Type) where
  | world (world : World)
  | retire (slot : Slot)
  | remove (slot : Slot)
  | start (r : ℕ) (key : Key) (body : Body)
  | check (r : ℕ)
  | look (r : ℕ)
  | insert (r id : ℕ)
  | select (r : ℕ)

section Steps

variable [DecidableEq Key] [DecidableEq Slot] [DecidableEq Body] [DecidableEq Hash]
  (E : Endpoint Key Slot Body World Refusal Hash) (s : State Key Slot Body World Refusal Hash)

def Endpoint.ready : Phase Refusal := if E.looksFirst then .looking else .inserting

/-- What a request hears about the record it has found. -/
def Endpoint.judge (body : Body) (record : Record Key Body Hash) : Answer Refusal :=
  if record.hash ≠ E.hash body then .conflict
  else if record.retired then .retired
  else .returned record.id false

def State.setPhase (r : ℕ) (phase : Phase Refusal) : State Key Slot Body World Refusal Hash :=
  { s with
    requests := Function.update s.requests r
      ((s.requests r).map fun request => { request with phase := phase }) }

/-- The retained record that the same key and body have created. -/
def original (key : Key) (body : Body) : Option ℕ :=
  (s.records (E.slot key)).bind fun record =>
    if record.retired = false ∧ record.key = key ∧ record.body = body then some record.id else none

/-- A record that goes is owed to no request any more. -/
def owedWithout (slot : Slot) (r : ℕ) : Option ℕ :=
  if (s.requests r).any (fun request => E.slot request.key = slot) then none else s.owed r

def afterCheck (request : Request Key Body Refusal) (n : ℕ) : Phase Refusal :=
  match E.checks[n]? with
  | none => E.ready
  | some check =>
    match check s.world request.key request.body with
    | some reason => .answered (.refused reason)
    | none => .checking (n + 1)

def step : Event Key Slot Body World → Option (State Key Slot Body World Refusal Hash)
  | .world world => some { s with world := world }
  | .retire slot => (s.records slot).map fun record =>
      { s with
        records := Function.update s.records slot (some { record with retired := true })
        owed := owedWithout E s slot }
  | .remove slot => (s.records slot).map fun record =>
      { s with
        records := Function.update s.records slot none
        owed := owedWithout E s slot
        removed := record.id :: s.removed }
  | .start r key body =>
    match s.requests r with
    | some _ => none
    | none =>
      some { s with
        requests := Function.update s.requests r (some ⟨key, body, .checking 0⟩)
        owed := Function.update s.owed r (original E s key body) }
  | .check r => (s.requests r).bind fun request =>
      match request.phase with
      | .checking n => some (s.setPhase r (afterCheck E s request n))
      | _ => none
  | .look r => (s.requests r).bind fun request =>
      match request.phase with
      | .looking =>
        match s.records (E.slot request.key) with
        | some record => some (s.setPhase r (.answered (E.judge request.body record)))
        | none => some (s.setPhase r .inserting)
      | _ => none
  | .insert r id => (s.requests r).bind fun request =>
      match request.phase with
      | .inserting =>
        if id ∈ s.drawn then none
        else
          match s.records (E.slot request.key) with
          | some _ => some (s.setPhase r .selecting)
          | none =>
            some { s.setPhase r (.answered (.returned id true)) with
              records := Function.update s.records (E.slot request.key)
                (some ⟨id, E.hash request.body, false, request.key, request.body⟩)
              drawn := id :: s.drawn }
      | _ => none
  | .select r => (s.requests r).bind fun request =>
      match request.phase with
      | .selecting =>
        match s.records (E.slot request.key) with
        | some record => some (s.setPhase r (.answered (E.judge request.body record)))
        | none => some (s.setPhase r (.answered .lost))
      | _ => none

/-- Nothing is stored and nobody asks for anything. -/
structure Start : Prop where
  records : ∀ slot, s.records slot = none
  requests : ∀ r, s.requests r = none
  owed : ∀ r, s.owed r = none

def system : System (State Key Slot Body World Refusal Hash) (Event Key Slot Body World) :=
  ofStep Start (step E)

instance (s : State Key Slot Body World Refusal Hash) (e : Event Key Slot Body World) :
    Decidable ((system E).enabled s e) :=
  inferInstanceAs (Decidable ((ofStep Start (step E)).enabled s e))

end Steps

section Phases

variable {E : Endpoint Key Slot Body World Refusal Hash}
  {s : State Key Slot Body World Refusal Hash} {request : Request Key Body Refusal} {r : ℕ}

@[simp] theorem setPhase_self {phase : Phase Refusal} (hr : s.requests r = some request) :
    (s.setPhase r phase).requests r = some { request with phase := phase } := by
  simp [State.setPhase, hr]

theorem setPhase_other {phase : Phase Refusal} {r' : ℕ} (h : r' ≠ r) :
    (s.setPhase r phase).requests r' = s.requests r' := by
  simp [State.setPhase, h]

/-- The first `n` checks have passed, each in a world of its own. -/
def Passed (E : Endpoint Key Slot Body World Refusal Hash) (n : ℕ) (key : Key) (body : Body) :
    Prop :=
  ∀ i < n, ∀ check, E.checks[i]? = some check → ∃ world, check world key body = none

def progress (E : Endpoint Key Slot Body World Refusal Hash) : Phase Refusal → ℕ
  | .checking n => n
  | .answered _ => 0
  | _ => E.checks.length

theorem passed_mono {n m : ℕ} {key : Key} {body : Body} (h : Passed E n key body) (hle : m ≤ n) :
    Passed E m key body :=
  fun i hi => h i (by omega)

end Phases

section Moves

variable [DecidableEq Key] [DecidableEq Slot] [DecidableEq Body] [DecidableEq Hash]
  {E : Endpoint Key Slot Body World Refusal Hash}
  {s u : State Key Slot Body World Refusal Hash} {e : Event Key Slot Body World}
  {request : Request Key Body Refusal} {record : Record Key Body Hash} {r : ℕ}

/-- A change of phase, with what the request has seen. -/
inductive PhaseMove (E : Endpoint Key Slot Body World Refusal Hash)
    (s : State Key Slot Body World Refusal Hash) (request : Request Key Body Refusal) :
    Phase Refusal → Prop
  | checked (n : ℕ) (hp : request.phase = .checking n) :
      PhaseMove E s request (afterCheck E s request n)
  | found (record : Record Key Body Hash)
      (hp : request.phase = .looking ∨ request.phase = .selecting)
      (hf : s.records (E.slot request.key) = some record) :
      PhaseMove E s request (.answered (E.judge request.body record))
  | missing (hp : request.phase = .looking) : PhaseMove E s request .inserting
  | taken (hp : request.phase = .inserting) : PhaseMove E s request .selecting
  | lost (hp : request.phase = .selecting) (hf : s.records (E.slot request.key) = none) :
      PhaseMove E s request (.answered .lost)

/-- What one step does. -/
inductive Moves (E : Endpoint Key Slot Body World Refusal Hash)
    (s : State Key Slot Body World Refusal Hash) :
    Event Key Slot Body World → State Key Slot Body World Refusal Hash → Prop
  | world (w : World) : Moves E s (.world w) { s with world := w }
  | retired (slot : Slot) (record : Record Key Body Hash) (hf : s.records slot = some record) :
      Moves E s (.retire slot)
        { s with
          records := Function.update s.records slot (some { record with retired := true })
          owed := owedWithout E s slot }
  | removed (slot : Slot) (record : Record Key Body Hash) (hf : s.records slot = some record) :
      Moves E s (.remove slot)
        { s with
          records := Function.update s.records slot none
          owed := owedWithout E s slot
          removed := record.id :: s.removed }
  | started (r : ℕ) (key : Key) (body : Body) (hn : s.requests r = none) :
      Moves E s (.start r key body)
        { s with
          requests := Function.update s.requests r (some ⟨key, body, .checking 0⟩)
          owed := Function.update s.owed r (original E s key body) }
  | phase (e : Event Key Slot Body World) (r : ℕ) (request : Request Key Body Refusal)
      (phase : Phase Refusal) (hr : s.requests r = some request)
      (hm : PhaseMove E s request phase)
      (he : ∀ n, request.phase = .checking n → e = .check r) :
      Moves E s e (s.setPhase r phase)
  | created (r id : ℕ) (request : Request Key Body Refusal) (hr : s.requests r = some request)
      (hp : request.phase = .inserting) (hn : s.records (E.slot request.key) = none)
      (hd : id ∉ s.drawn) :
      Moves E s (.insert r id)
        { s.setPhase r (.answered (.returned id true)) with
          records := Function.update s.records (E.slot request.key)
            (some ⟨id, E.hash request.body, false, request.key, request.body⟩)
          drawn := id :: s.drawn }

theorem moves_of_step (h : step E s e = some u) : Moves E s e u := by
  cases e with
  | world w =>
    cases h
    exact .world w
  | retire slot =>
    obtain ⟨record, hf, rfl⟩ := Option.map_eq_some_iff.mp h
    exact .retired slot record hf
  | remove slot =>
    obtain ⟨record, hf, rfl⟩ := Option.map_eq_some_iff.mp h
    exact .removed slot record hf
  | start r key body =>
    simp only [step] at h
    split at h
    · cases h
    · rename_i hn
      cases h
      exact .started r key body hn
  | check r =>
    obtain ⟨request, hr, h⟩ := Option.bind_eq_some_iff.mp h
    split at h
    · rename_i n hp
      cases h
      exact .phase _ r request _ hr (.checked n hp) fun _ _ => rfl
    · cases h
  | look r =>
    obtain ⟨request, hr, h⟩ := Option.bind_eq_some_iff.mp h
    split at h
    · rename_i hp
      split at h
      · rename_i record hf
        cases h
        exact .phase _ r request _ hr (.found record (.inl hp) hf) (by simp [hp])
      · cases h
        exact .phase _ r request _ hr (.missing hp) (by simp [hp])
    · cases h
  | insert r id =>
    obtain ⟨request, hr, h⟩ := Option.bind_eq_some_iff.mp h
    split at h
    · rename_i hp
      split at h
      · cases h
      · rename_i hd
        split at h
        · cases h
          exact .phase _ r request _ hr (.taken hp) (by simp [hp])
        · rename_i hn
          cases h
          exact .created r id request hr hp hn hd
    · cases h
  | select r =>
    obtain ⟨request, hr, h⟩ := Option.bind_eq_some_iff.mp h
    split at h
    · rename_i hp
      split at h
      · rename_i record hf
        cases h
        exact .phase _ r request _ hr (.found record (.inr hp) hf) (by simp [hp])
      · rename_i hn
        cases h
        exact .phase _ r request _ hr (.lost hp hn) (by simp [hp])
    · cases h

theorem moves_of_enabled (h : (system E).enabled s e) : Moves E s e ((system E).next s e) :=
  moves_of_step (ofStep_enabled h)

end Moves

section Invariants

variable [DecidableEq Key] [DecidableEq Slot] [DecidableEq Body] [DecidableEq Hash]
  {E : Endpoint Key Slot Body World Refusal Hash}
  {s u : State Key Slot Body World Refusal Hash} {e : Event Key Slot Body World}

/-- A record stands under the slot of its key, was admitted by every check, and is owed only to
requests that are identical with the one that created it; a request that has heard of a record can
still find it unless it has been removed. -/
structure Inv (E : Endpoint Key Slot Body World Refusal Hash)
    (s : State Key Slot Body World Refusal Hash) : Prop where
  requests : ∀ r request, s.requests r = some request →
    Passed E (progress E request.phase) request.key request.body
  records : ∀ slot record, s.records slot = some record →
    record.hash = E.hash record.body ∧ Passed E E.checks.length record.key record.body
  owed : ∀ r id, s.owed r = some id → ∃ request record, s.requests r = some request ∧
    s.records (E.slot request.key) = some record ∧ record.id = id ∧ record.retired = false ∧
      record.key = request.key ∧ record.body = request.body
  returned : ∀ r request id created, s.requests r = some request →
    request.phase = .answered (.returned id created) →
      (∃ record, s.records (E.slot request.key) = some record ∧ record.id = id) ∨ id ∈ s.removed

theorem passed_of_move {request : Request Key Body Refusal} {phase : Phase Refusal}
    (h : Passed E (progress E request.phase) request.key request.body)
    (hm : PhaseMove E s request phase) :
    Passed E (progress E phase) request.key request.body := by
  cases hm with
  | checked n hp =>
    rw [hp] at h
    unfold afterCheck
    cases hc : E.checks[n]? with
    | none =>
      have hle : E.checks.length ≤ n := List.getElem?_eq_none_iff.mp hc
      have hready : progress E (E.ready : Phase Refusal) = E.checks.length := by
        unfold Endpoint.ready
        split <;> rfl
      simp only [hready]
      exact passed_mono h hle
    | some check =>
      cases hcheck : check s.world request.key request.body with
      | some reason =>
        simp only [hcheck]
        exact fun i hi => absurd hi (Nat.not_lt_zero i)
      | none =>
        simp only [hcheck]
        intro i hi other hother
        by_cases heq : i = n
        · subst heq
          rw [hc] at hother
          cases hother
          exact ⟨s.world, hcheck⟩
        · have hi : i < n + 1 := hi
          exact h i (by show i < n; omega) other hother
  | found record hp hf => exact fun i hi => absurd hi (Nat.not_lt_zero i)
  | missing hp =>
    rw [hp] at h
    exact h
  | taken hp =>
    rw [hp] at h
    exact h
  | lost hp hf => exact fun i hi => absurd hi (Nat.not_lt_zero i)

theorem requests_step (h : Inv E s) (hm : Moves E s e u) : ∀ r request,
    u.requests r = some request →
      Passed E (progress E request.phase) request.key request.body := by
  intro r request hr
  cases hm with
  | world w => exact h.requests r request hr
  | retired slot record hf => exact h.requests r request hr
  | removed slot record hf => exact h.requests r request hr
  | started started key body hn =>
    by_cases heq : r = started
    · subst heq
      simp only [Function.update_self, Option.some.injEq] at hr
      subst hr
      exact fun i hi => absurd hi (Nat.not_lt_zero i)
    · exact h.requests r request (by simpa [heq] using hr)
  | phase e moved old phase ho hp he =>
    by_cases heq : r = moved
    · subst heq
      rw [setPhase_self ho, Option.some.injEq] at hr
      subst hr
      have hpassed := passed_of_move (h.requests r old ho) hp
      exact hpassed
    · rw [setPhase_other heq] at hr
      exact h.requests r request hr
  | created moved id old ho hp hn hd =>
    by_cases heq : r = moved
    · subst heq
      have hr := (setPhase_self (s := s) ho).symm.trans hr
      rw [Option.some.injEq] at hr
      subst hr
      exact fun i hi => absurd hi (Nat.not_lt_zero i)
    · exact h.requests r request ((setPhase_other (s := s) heq).symm.trans hr)

theorem records_step (h : Inv E s) (hm : Moves E s e u) : ∀ slot record,
    u.records slot = some record →
      record.hash = E.hash record.body ∧ Passed E E.checks.length record.key record.body := by
  intro slot record hr
  cases hm with
  | world w => exact h.records slot record hr
  | retired other old hf =>
    by_cases heq : slot = other
    · subst heq
      simp only [Function.update_self, Option.some.injEq] at hr
      subst hr
      exact h.records slot old hf
    · exact h.records slot record (by simpa [heq] using hr)
  | removed other old hf =>
    by_cases heq : slot = other
    · subst heq
      simp at hr
    · exact h.records slot record (by simpa [heq] using hr)
  | started r key body hn => exact h.records slot record hr
  | phase e r request phase ho hp he => exact h.records slot record hr
  | created r id request ho hp hn hd =>
    by_cases heq : slot = E.slot request.key
    · subst heq
      simp only [Function.update_self, Option.some.injEq] at hr
      subst hr
      have hpassed := h.requests r request ho
      rw [hp] at hpassed
      exact ⟨rfl, hpassed⟩
    · exact h.records slot record (by simpa [heq] using hr)

theorem original_some {key : Key} {body : Body} {id : ℕ} (h : original E s key body = some id) :
    ∃ record, s.records (E.slot key) = some record ∧ record.id = id ∧ record.retired = false ∧
      record.key = key ∧ record.body = body := by
  obtain ⟨record, hf, hif⟩ := Option.bind_eq_some_iff.mp h
  obtain ⟨⟨hretired, hkey, hbody⟩, hid⟩ := Option.ite_none_right_eq_some.mp hif
  exact ⟨record, hf, Option.some.inj hid, hretired, hkey, hbody⟩

theorem owed_without_some {slot : Slot} {r id : ℕ} (h : owedWithout E s slot r = some id) :
    s.owed r = some id ∧ ∀ request, s.requests r = some request → E.slot request.key ≠ slot := by
  unfold owedWithout at h
  split at h
  · cases h
  · rename_i hany
    refine ⟨h, fun request hr heq => hany ?_⟩
    simp [hr, heq]

theorem owed_step (h : Inv E s) (hm : Moves E s e u) : ∀ r id, u.owed r = some id →
    ∃ request record, u.requests r = some request ∧
      u.records (E.slot request.key) = some record ∧ record.id = id ∧ record.retired = false ∧
        record.key = request.key ∧ record.body = request.body := by
  intro r id hr
  cases hm with
  | world w => exact h.owed r id hr
  | retired slot old hf =>
    obtain ⟨howed, hslot⟩ := owed_without_some hr
    obtain ⟨request, record, hrequest, hrecord, hrest⟩ := h.owed r id howed
    refine ⟨request, record, hrequest, ?_, hrest⟩
    simpa [hslot request hrequest] using hrecord
  | removed slot old hf =>
    obtain ⟨howed, hslot⟩ := owed_without_some hr
    obtain ⟨request, record, hrequest, hrecord, hrest⟩ := h.owed r id howed
    refine ⟨request, record, hrequest, ?_, hrest⟩
    simpa [hslot request hrequest] using hrecord
  | started started key body hn =>
    by_cases heq : r = started
    · subst heq
      simp only [Function.update_self] at hr
      obtain ⟨record, hf, hrest⟩ := original_some hr
      exact ⟨⟨key, body, .checking 0⟩, record, by simp, hf, hrest⟩
    · simp only [Function.update_of_ne heq] at hr ⊢
      exact h.owed r id hr
  | phase e moved old phase ho hp he =>
    obtain ⟨request, record, hrequest, hrest⟩ := h.owed r id hr
    by_cases heq : r = moved
    · subst heq
      rw [ho] at hrequest
      cases hrequest
      exact ⟨_, record, setPhase_self ho, hrest⟩
    · exact ⟨request, record, by rw [setPhase_other heq]; exact hrequest, hrest⟩
  | created moved new old ho hp hn hd =>
    obtain ⟨request, record, hrequest, hrecord, hrest⟩ := h.owed r id hr
    have hslot : E.slot request.key ≠ E.slot old.key := by
      intro hslot
      rw [hslot, hn] at hrecord
      cases hrecord
    have hmoved : r ≠ moved := by
      rintro rfl
      rw [ho] at hrequest
      cases hrequest
      exact hslot rfl
    refine ⟨request, record, ?_, ?_, hrest⟩
    · exact (setPhase_other (s := s) hmoved).trans hrequest
    · simpa [hslot] using hrecord

theorem judge_returned {body : Body} {record : Record Key Body Hash} {id : ℕ} {created : Bool}
    (h : E.judge body record = .returned id created) : record.id = id := by
  unfold Endpoint.judge at h
  split at h
  · cases h
  · split at h
    · cases h
    · cases h
      rfl

/-- Only a record that was found, or just created, is returned. -/
theorem returned_by_move {request : Request Key Body Refusal} {phase : Phase Refusal} {id : ℕ}
    {created : Bool} (hm : PhaseMove E s request phase)
    (hp : phase = .answered (.returned id created)) :
    ∃ record, s.records (E.slot request.key) = some record ∧ record.id = id := by
  cases hm with
  | checked n hn =>
    unfold afterCheck at hp
    split at hp
    · unfold Endpoint.ready at hp
      split at hp <;> cases hp
    · split at hp <;> cases hp
  | found record hn hf => exact ⟨record, hf, judge_returned (Phase.answered.inj hp)⟩
  | missing hn => cases hp
  | taken hn => cases hp
  | lost hn hf => cases hp

theorem returned_step (h : Inv E s) (hm : Moves E s e u) : ∀ r request id created,
    u.requests r = some request → request.phase = .answered (.returned id created) →
      (∃ record, u.records (E.slot request.key) = some record ∧ record.id = id) ∨
        id ∈ u.removed := by
  intro r request id created hr hphase
  cases hm with
  | world w => exact h.returned r request id created hr hphase
  | retired slot old hf =>
    rcases h.returned r request id created hr hphase with ⟨record, hrecord, hid⟩ | hgone
    · by_cases heq : E.slot request.key = slot
      · subst heq
        rw [hf] at hrecord
        cases hrecord
        exact .inl ⟨{ old with retired := true }, by simp, hid⟩
      · exact .inl ⟨record, by simpa [heq] using hrecord, hid⟩
    · exact .inr hgone
  | removed slot old hf =>
    rcases h.returned r request id created hr hphase with ⟨record, hrecord, hid⟩ | hgone
    · by_cases heq : E.slot request.key = slot
      · subst heq
        rw [hf] at hrecord
        cases hrecord
        exact .inr (hid ▸ List.mem_cons_self)
      · exact .inl ⟨record, by simpa [heq] using hrecord, hid⟩
    · exact .inr (List.mem_cons_of_mem _ hgone)
  | started started key body hn =>
    by_cases heq : r = started
    · subst heq
      simp only [Function.update_self, Option.some.injEq] at hr
      subst hr
      cases hphase
    · exact h.returned r request id created (by simpa [heq] using hr) hphase
  | phase e moved old phase ho hp he =>
    by_cases heq : r = moved
    · subst heq
      rw [setPhase_self ho, Option.some.injEq] at hr
      subst hr
      have hfound := returned_by_move hp hphase
      exact .inl hfound
    · rw [setPhase_other heq] at hr
      exact h.returned r request id created hr hphase
  | created moved new old ho hp hn hd =>
    by_cases heq : r = moved
    · subst heq
      have hr := (setPhase_self (s := s) ho).symm.trans hr
      rw [Option.some.injEq] at hr
      subst hr
      cases hphase
      exact .inl ⟨⟨id, E.hash old.body, false, old.key, old.body⟩, by simp, rfl⟩
    · have hr := (setPhase_other (s := s) heq).symm.trans hr
      rcases h.returned r request id created hr hphase with ⟨record, hrecord, hid⟩ | hgone
      · have hslot : E.slot request.key ≠ E.slot old.key := by
          intro hslot
          rw [hslot, hn] at hrecord
          cases hrecord
        exact .inl ⟨record, by simpa [hslot] using hrecord, hid⟩
      · exact .inr hgone

theorem inv_of_reachable (hr : Reachable (system E) s) : Inv E s := by
  refine reachable_invariant (I := Inv E) (fun start hs => ?_) (fun s e h he => ?_) hr
  · constructor
    · intro r request h
      rw [hs.requests r] at h
      cases h
    · intro slot record h
      rw [hs.records slot] at h
      cases h
    · intro r id h
      rw [hs.owed r] at h
      cases h
    · intro r request id created h
      rw [hs.requests r] at h
      cases h
  · have hm := moves_of_enabled he
    exact ⟨requests_step h hm, records_step h hm, owed_step h hm, returned_step h hm⟩

/-- Two requests that hear of a resource of one key hear of the same, unless one of the records has
been removed. -/
def OneResource (E : Endpoint Key Slot Body World Refusal Hash)
    (s : State Key Slot Body World Refusal Hash) : Prop :=
  ∀ r r' request request' id id' created created', s.requests r = some request →
    s.requests r' = some request' → E.slot request.key = E.slot request'.key →
      request.phase = .answered (.returned id created) →
        request'.phase = .answered (.returned id' created') →
          id = id' ∨ id ∈ s.removed ∨ id' ∈ s.removed

theorem one_resource (hr : Reachable (system E) s) : OneResource E s := by
  have hinv := inv_of_reachable hr
  intro r r' request request' id id' created created' hq hq' hslot ha ha'
  rcases hinv.returned r request id created hq ha with ⟨record, hrecord, hid⟩ | hgone
  · rcases hinv.returned r' request' id' created' hq' ha' with ⟨record', hrecord', hid'⟩ | hgone
    · rw [hslot, hrecord'] at hrecord
      cases hrecord
      exact .inl (hid.symm.trans hid')
    · exact .inr (.inr hgone)
  · exact .inr (.inl hgone)

/-- A request that is owed a record hears of it, as one that existed. -/
def Replayed (s : State Key Slot Body World Refusal Hash) : Prop :=
  ∀ r request id answer, s.requests r = some request → s.owed r = some id →
    request.phase = .answered answer → answer = .returned id false

/-- A check of a request that is owed a record passes. -/
def Readmits (E : Endpoint Key Slot Body World Refusal Hash)
    (s : State Key Slot Body World Refusal Hash) : Event Key Slot Body World → Prop
  | .check r => ∀ request id n check, s.requests r = some request → s.owed r = some id →
      request.phase = .checking n → E.checks[n]? = some check →
        check s.world request.key request.body = none
  | _ => True

/-- The record that a request is owed is the one it would find. -/
theorem owed_judged (h : Inv E s) {r id : ℕ} {request : Request Key Body Refusal}
    {record : Record Key Body Hash} (ho : s.owed r = some id) (hr : s.requests r = some request)
    (hf : s.records (E.slot request.key) = some record) :
    E.judge request.body record = (.returned id false : Answer Refusal) := by
  obtain ⟨other, found, hother, hfound, hid, hretired, _, hbody⟩ := h.owed r id ho
  rw [hr] at hother
  cases hother
  rw [hf] at hfound
  cases hfound
  have hhash : record.hash = E.hash request.body := hbody ▸ (h.records _ record hf).1
  simp [Endpoint.judge, hhash, hretired, hid]

theorem owed_found (h : Inv E s) {r id : ℕ} {request : Request Key Body Refusal}
    (ho : s.owed r = some id) (hr : s.requests r = some request) :
    (s.records (E.slot request.key)).isSome := by
  obtain ⟨other, found, hother, hfound, _⟩ := h.owed r id ho
  rw [hr] at hother
  cases hother
  simp [hfound]

theorem answer_by_move (h : Inv E s) {r id : ℕ} {request : Request Key Body Refusal}
    {phase : Phase Refusal} {answer : Answer Refusal} (hr : s.requests r = some request)
    (ho : s.owed r = some id) (hm : PhaseMove E s request phase)
    (hp : phase = .answered answer) (hok : ∀ n check, request.phase = .checking n →
      E.checks[n]? = some check → check s.world request.key request.body = none) :
    answer = .returned id false := by
  cases hm with
  | checked n hn =>
    unfold afterCheck at hp
    split at hp
    · unfold Endpoint.ready at hp
      split at hp <;> cases hp
    · rename_i check hc
      simp only [hok n check hn hc] at hp
      cases hp
  | found record hn hf => exact (Phase.answered.inj hp).symm.trans (owed_judged h ho hr hf)
  | missing hn => cases hp
  | taken hn => cases hp
  | lost hn hf =>
    have hfound := owed_found h ho hr
    simp [hf] at hfound

theorem replayed_step (h : Inv E s) (hp : Replayed s) (hm : Moves E s e u)
    (hok : Readmits E s e) : Replayed u := by
  intro r request id answer hr ho hphase
  cases hm with
  | world w => exact hp r request id answer hr ho hphase
  | retired slot old hf => exact hp r request id answer hr (owed_without_some ho).1 hphase
  | removed slot old hf => exact hp r request id answer hr (owed_without_some ho).1 hphase
  | started started key body hn =>
    by_cases heq : r = started
    · subst heq
      simp only [Function.update_self, Option.some.injEq] at hr
      subst hr
      cases hphase
    · exact hp r request id answer (by simpa [heq] using hr) (by simpa [heq] using ho) hphase
  | phase e moved old phase hold hmove he =>
    by_cases heq : r = moved
    · subst heq
      rw [setPhase_self hold, Option.some.injEq] at hr
      subst hr
      refine answer_by_move h hold ho hmove hphase fun n check hn hc => ?_
      rw [he n hn] at hok
      exact hok old id n check hold ho hn hc
    · rw [setPhase_other heq] at hr
      exact hp r request id answer hr ho hphase
  | created moved new old hold hins hn hd =>
    by_cases heq : r = moved
    · subst heq
      have hfound := owed_found h ho hold
      simp [hn] at hfound
    · exact hp r request id answer ((setPhase_other (s := s) heq).symm.trans hr) ho hphase

/-- A check that refuses a request that is owed a record breaks the replay. -/
theorem readmits_of_replayed (hp : Replayed ((system E).next s e)) : Readmits E s e := by
  cases e with
  | check r =>
    intro request id n check hr ho hn hc
    by_contra hne
    obtain ⟨reason, hreason⟩ := Option.ne_none_iff_exists'.mp hne
    have hstep : step E s (.check r) = some (s.setPhase r (.answered (.refused reason))) := by
      simp [step, hr, hn, afterCheck, hc, hreason]
    have hnext : (system E).next s (.check r) = _ := (ofStep_of_some Start hstep).2
    rw [hnext] at hp
    have hanswer := hp r { request with phase := .answered (.refused reason) } id
      (.refused reason) (setPhase_self hr) ho rfl
    cases hanswer
  | _ => trivial

/-- Replays answer as the first request did, as long as the checks admit them again. -/
theorem replayed_of_reachable (hr : Reachable (restrict (system E) (Readmits E)) s) :
    Replayed s := by
  refine reachable_invariant_with (J := Inv E) (fun _ h => inv_of_reachable h.unrestrict)
    (fun start hs => ?_) (fun s e hi h he => ?_) hr
  · intro r request id answer h
    rw [hs.requests r] at h
    cases h
  · exact replayed_step hi h (moves_of_enabled he.1) he.2

theorem replayed_iff (hr : Reachable (restrict (system E) (Readmits E)) s)
    (he : (system E).enabled s e) : Replayed ((system E).next s e) ↔ Readmits E s e := by
  constructor
  · exact readmits_of_replayed
  · intro hok
    exact replayed_step (inv_of_reachable hr.unrestrict) (replayed_of_reachable hr)
      (moves_of_enabled he) hok

/-- The same with a condition that says on reachable states that the checks pass again. -/
theorem replays_under {ok : State Key Slot Body World Refusal Hash →
    Event Key Slot Body World → Prop}
    (hok : ∀ s, Reachable (system E) s → ∀ e, ok s e ↔ Readmits E s e)
    (hr : Reachable (restrict (system E) ok) s) :
    Replayed s ∧ OneResource E s ∧
      ∀ e, (system E).enabled s e → (Replayed ((system E).next s e) ↔ ok s e) := by
  have hsame : Reachable (restrict (system E) (Readmits E)) s :=
    hr.restrict_mono fun s h e => (hok s h e).mp
  refine ⟨replayed_of_reachable hsame, one_resource hr.unrestrict, fun e he => ?_⟩
  rw [hok s hr.unrestrict e]
  exact replayed_iff hsame he

/-- What the checks that a record has passed say of the request that is owed it. -/
theorem owed_passed (hr : Reachable (system E) s) {r id : ℕ} {request : Request Key Body Refusal}
    (hq : s.requests r = some request) (ho : s.owed r = some id) :
    Passed E E.checks.length request.key request.body := by
  have hinv := inv_of_reachable hr
  obtain ⟨other, record, hother, hrecord, _, _, hkey, hbody⟩ := hinv.owed r id ho
  rw [hq] at hother
  cases hother
  rw [← hkey, ← hbody]
  exact (hinv.records _ record hrecord).2

end Invariants

end KeyedCreation
