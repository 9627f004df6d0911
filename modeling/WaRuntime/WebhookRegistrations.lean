import WaRuntime.CanonicalOrders
import WaRuntime.TransitionRuns

/-! The registration of the runtime's callback with the gateway.
A pass of the tick goes through the allowed sessions, one call after the other. A call may be
refused, or be carried out without its answer coming back, and then the pass gives the session up.
Passes may overlap, and a process may die between two calls. The gateway gives every registration
an id of its own and answers 404 to an update or a deletion that finds none. -/
namespace WebhookRegistrations

open TransitionRuns CanonicalOrders

structure Registration where
  id : String
  url : String
  events : List String
  secret : String
  active : Bool
  retryCount : ℕ
  deriving DecidableEq, Repr

def runtimeOpenwaWebhookEvents : List String :=
  ["message.received", "message.sent", "message.ack", "message.failed", "session.status",
    "session.restriction", "group.join", "group.leave", "group.update"]

/-- The URL parser: a normalized URL stays as it is. -/
structure UrlParser where
  normalizeUrl : String → String
  normalized : ∀ value, normalizeUrl (normalizeUrl value) = normalizeUrl value

/-- `localeCompare` is the order of the ids; it is assumed that no two ids of the gateway compare as
equal, which a collation alone does not promise. -/
structure Options where
  enabled : Bool
  callbackUrl : Option String
  secret : String
  allowedSessionIds : List String
  urls : UrlParser
  localeCompare : TotalOrder String

def Options.normalizedCallbackUrl (o : Options) : String :=
  o.urls.normalizeUrl (o.callbackUrl.getD "")

def Managed (o : Options) (r : Registration) : Prop :=
  o.urls.normalizeUrl r.url = o.normalizedCallbackUrl

instance (o : Options) (r : Registration) : Decidable (Managed o r) :=
  inferInstanceAs (Decidable (_ = _))

def managed (o : Options) (registrations : List Registration) : List Registration :=
  o.localeCompare.sortBy Registration.id (registrations.filter fun r => Managed o r)

def foreign (o : Options) (registrations : List Registration) : List Registration :=
  registrations.filter fun r => ¬ Managed o r

/-- The call that `reconcileSession` makes next. -/
inductive Work where
  | listing
  | registering
  | updating (retained : String) (duplicates : List String)
  | deleting (retained duplicate : String) (rest : List String) (total : ℕ)
  deriving DecidableEq, Repr

structure ReconciliationCounts where
  created : ℕ
  updated : ℕ
  deleted : ℕ
  deriving DecidableEq, Repr

def ReconciliationCounts.add (a b : ReconciliationCounts) : ReconciliationCounts :=
  ⟨a.created + b.created, a.updated + b.updated, a.deleted + b.deleted⟩

/-- A pass, with the session that it is at and those that follow. -/
structure Pass where
  sessionId : String
  following : List String
  work : Work
  totals : ReconciliationCounts
  failed : ℕ
  deriving DecidableEq, Repr

/-- What `run` logs in the end; it throws after a failure. -/
structure Report where
  sessions : ℕ
  failed : ℕ
  totals : ReconciliationCounts
  deriving DecidableEq, Repr

structure State where
  registrations : String → List Registration
  issued : List String
  passes : ℕ → Option Pass
  reports : List Report

inductive Change where
  | add (registration : Registration)
  | remove (id : String)
  | change (registration : Registration)

/-- The id and the state of a new registration are the gateway's choice. -/
inductive Event where
  | start (p : ℕ)
  | call (p : ℕ) (answered : Bool) (id : String) (active : Bool)
  | refused (p : ℕ)
  | crash (p : ℕ)
  | operator (sessionId : String) (change : Change)

section Gateway

variable (o : Options)

def registered (id : String) (active : Bool) : Registration where
  id := id
  url := o.normalizedCallbackUrl
  events := runtimeOpenwaWebhookEvents
  secret := o.secret
  active := active
  retryCount := 3

def updated (r : Registration) : Registration := registered o r.id true

def updateWebhook (id : String) (rs : List Registration) : Option (List Registration) :=
  if id ∈ rs.map Registration.id then some (rs.map fun r => if r.id = id then updated o r else r)
  else none

def deleteWebhook (id : String) (rs : List Registration) : Option (List Registration) :=
  if id ∈ rs.map Registration.id then some (rs.filter fun r => r.id ≠ id) else none

/-- What a call makes of the registrations of its session; `none` is a 404. -/
def carryOut (id : String) (active : Bool) (rs : List Registration) :
    Work → Option (List Registration)
  | .listing => some rs
  | .registering => some (rs ++ [registered o id active])
  | .updating retained _ => updateWebhook o retained rs
  | .deleting _ duplicate _ _ => deleteWebhook duplicate rs

end Gateway

section Passes

variable (o : Options)

/-- The work on a session after an answer, or what it counts for when it is done. -/
def proceed (rs : List Registration) : Work → Work ⊕ ReconciliationCounts
  | .listing =>
    match (managed o rs).map Registration.id with
    | [] => .inl .registering
    | retained :: duplicates => .inl (.updating retained duplicates)
  | .registering => .inr ⟨1, 0, 0⟩
  | .updating _ [] => .inr ⟨0, 1, 0⟩
  | .updating retained (duplicate :: rest) =>
    .inl (.deleting retained duplicate rest (rest.length + 1))
  | .deleting _ _ [] total => .inr ⟨0, 1, total⟩
  | .deleting retained _ (duplicate :: rest) total => .inl (.deleting retained duplicate rest total)

/-- The ids that a pass has read and will write or delete. -/
def Work.touches : Work → List String
  | .listing | .registering => []
  | .updating retained duplicates => retained :: duplicates
  | .deleting _ duplicate rest _ => duplicate :: rest

def Work.duplicates : Work → List String
  | .listing | .registering => []
  | .updating _ duplicates => duplicates
  | .deleting _ duplicate rest _ => duplicate :: rest

def allowedReport (totals : ReconciliationCounts) (failed : ℕ) : Report :=
  ⟨o.allowedSessionIds.length, failed, totals⟩

/-- The pass goes on with the next session, or reports. -/
def advance (s : State) (p : ℕ) (totals : ReconciliationCounts) (failed : ℕ) :
    List String → State
  | [] =>
    { s with
      passes := Function.update s.passes p none
      reports := s.reports ++ [allowedReport o totals failed] }
  | sessionId :: following =>
    { s with
      passes := Function.update s.passes p (some ⟨sessionId, following, .listing, totals, failed⟩) }

def giveUp (s : State) (p : ℕ) (k : Pass) : State :=
  advance o s p k.totals (k.failed + 1) k.following

def goOn (s : State) (p : ℕ) (k : Pass) (rs : List Registration) : State :=
  match proceed o rs k.work with
  | .inl work => { s with passes := Function.update s.passes p (some { k with work := work }) }
  | .inr counts => advance o s p (k.totals.add counts) k.failed k.following

/-- `run` without a callback URL throws, and disabled it does nothing. -/
def begin (s : State) (p : ℕ) : Option State :=
  if o.enabled ∧ o.callbackUrl.isSome ∧ s.passes p = none then
    some (advance o s p ⟨0, 0, 0⟩ 0 o.allowedSessionIds)
  else none

def perform (s : State) (p : ℕ) (k : Pass) (answered : Bool) (id : String) (active : Bool) :
    Option State :=
  guarded (k.work = .registering → id ∉ s.issued)
    (match carryOut o id active (s.registrations k.sessionId) k.work with
    | none => giveUp o s p k
    | some rs =>
      let t : State :=
        { s with
          registrations := Function.update s.registrations k.sessionId rs
          issued := if k.work = .registering then id :: s.issued else s.issued }
      if answered then goOn o t p k rs else giveUp o t p k)

def operate (s : State) (sessionId : String) : Change → Option State
  | .add r =>
    guarded (r.id ∉ s.issued)
      { s with
        registrations := Function.update s.registrations sessionId
          (s.registrations sessionId ++ [r])
        issued := r.id :: s.issued }
  | .remove id =>
    some { s with
      registrations := Function.update s.registrations sessionId
        ((s.registrations sessionId).filter fun r => r.id ≠ id) }
  | .change r =>
    some { s with
      registrations := Function.update s.registrations sessionId
        ((s.registrations sessionId).map fun old => if old.id = r.id then r else old) }

def step (s : State) : Event → Option State
  | .start p => begin o s p
  | .call p answered id active => (s.passes p).bind fun k => perform o s p k answered id active
  | .refused p => (s.passes p).map fun k => giveUp o s p k
  | .crash p => some { s with passes := Function.update s.passes p none }
  | .operator sessionId change => operate s sessionId change

end Passes

/-- Before the first pass the gateway may have any registrations, each under an id of its own. -/
def Initial (s : State) : Prop :=
  (∀ sessionId, ((s.registrations sessionId).map Registration.id).Nodup ∧
    ∀ r ∈ s.registrations sessionId, r.id ∈ s.issued) ∧
    (∀ p, s.passes p = none) ∧ s.reports = []

def system (o : Options) : System State Event := ofStep Initial (step o)

/-- Operators keep away from the runtime's own registrations. -/
def Apart (o : Options) (s : State) : Event → Prop
  | .operator _ (.add r) => ¬ Managed o r
  | .operator sessionId (.remove id) =>
    ∀ r ∈ s.registrations sessionId, r.id = id → ¬ Managed o r
  | .operator sessionId (.change r) =>
    ¬ Managed o r ∧ ∀ old ∈ s.registrations sessionId, old.id = r.id → ¬ Managed o old
  | _ => True

section Keeps

variable {o : Options} {issued : List String} {rs rs' : List Registration} {id : String}

/-- `a` comes before `b` in the order of the ids. -/
def Before (o : Options) (a b : String) : Prop := o.localeCompare.le a b ∧ a ≠ b

theorem before_of_le {a b c : String} (hab : o.localeCompare.le a b) (hbc : Before o b c) :
    Before o a c := by
  refine ⟨o.localeCompare.trans _ _ _ hab hbc.1, ?_⟩
  rintro rfl
  exact hbc.2 (o.localeCompare.antisymm _ _ hbc.1 hab)

theorem managed_updated (r : Registration) : Managed o (updated o r) := o.urls.normalized _

theorem managed_registered (id : String) (active : Bool) : Managed o (registered o id active) :=
  o.urls.normalized _

/-- What the calls of all passes, and the operators, do to the registrations of a session: an id
means what it has meant, and a managed registration goes only where one before it stays. -/
structure Keeps (o : Options) (issued : List String) (rs rs' : List Registration) : Prop where
  nodup : (rs'.map Registration.id).Nodup
  same : ∀ r' ∈ rs', r'.id ∉ issued ∨ ∃ r ∈ rs, r.id = r'.id ∧ (Managed o r ↔ Managed o r')
  lower : ∀ r ∈ rs, Managed o r → ∃ r' ∈ rs', Managed o r' ∧ o.localeCompare.le r'.id r.id

theorem keeps_refl (hn : (rs.map Registration.id).Nodup) : Keeps o issued rs rs :=
  ⟨hn, fun r hr => .inr ⟨r, hr, rfl, Iff.rfl⟩,
    fun r hr hm => ⟨r, hr, hm, o.localeCompare.le_self _⟩⟩

theorem keeps_added {r : Registration} (hn : (rs.map Registration.id).Nodup)
    (hi : ∀ old ∈ rs, old.id ∈ issued) (hnew : r.id ∉ issued) : Keeps o issued rs (rs ++ [r]) := by
  refine ⟨?_, fun r' hr' => ?_, fun old hold hm => ?_⟩
  · rw [List.map_append, List.map_singleton, List.nodup_append]
    refine ⟨hn, List.nodup_singleton _, fun a ha b hb hab => ?_⟩
    obtain ⟨old, hold, rfl⟩ := List.mem_map.mp ha
    rw [List.mem_singleton.mp hb] at hab
    exact hnew (hab ▸ hi old hold)
  · rcases List.mem_append.mp hr' with hold | hlast
    · exact .inr ⟨r', hold, rfl, Iff.rfl⟩
    · exact .inl (List.mem_singleton.mp hlast ▸ hnew)
  · exact ⟨old, List.mem_append_left _ hold, hm, o.localeCompare.le_self _⟩

/-- A change of single registrations that leaves the ids and what is managed. -/
theorem keeps_mapped {f : Registration → Registration} (hn : (rs.map Registration.id).Nodup)
    (hid : ∀ r ∈ rs, (f r).id = r.id) (hm : ∀ r ∈ rs, Managed o r ↔ Managed o (f r)) :
    Keeps o issued rs (rs.map f) := by
  refine ⟨?_, fun r' hr' => ?_, fun r hr hman => ?_⟩
  · have hids : rs.map (Registration.id ∘ f) = rs.map Registration.id := List.map_congr_left hid
    rwa [List.map_map, hids]
  · obtain ⟨r, hr, rfl⟩ := List.mem_map.mp hr'
    exact .inr ⟨r, hr, (hid r hr).symm, hm r hr⟩
  · exact ⟨f r, List.mem_map_of_mem hr, (hm r hr).mp hman,
      (hid r hr).symm ▸ o.localeCompare.le_self _⟩

theorem keeps_removed (hn : (rs.map Registration.id).Nodup)
    (hlower : (∃ r ∈ rs, r.id = id ∧ Managed o r) →
      ∃ r ∈ rs, Managed o r ∧ Before o r.id id) :
    Keeps o issued rs (rs.filter fun r => r.id ≠ id) := by
  refine ⟨hn.sublist (List.filter_sublist.map _), fun r hr => ?_, fun r hr hm => ?_⟩
  · exact .inr ⟨r, List.mem_of_mem_filter hr, rfl, Iff.rfl⟩
  · by_cases hid : r.id = id
    · obtain ⟨lower, hl, hman, hle, hne⟩ := hlower ⟨r, hr, hid, hm⟩
      exact ⟨lower, by simp [hl, hne], hman, hid ▸ hle⟩
    · exact ⟨r, by simp [hr, hid], hm, o.localeCompare.le_self _⟩

theorem update_webhook_some (h : updateWebhook o id rs = some rs') :
    rs' = rs.map fun r => if r.id = id then updated o r else r := by
  unfold updateWebhook at h
  split at h
  · exact (Option.some.inj h).symm
  · cases h

theorem delete_webhook_some (h : deleteWebhook id rs = some rs') :
    rs' = rs.filter fun r => r.id ≠ id := by
  unfold deleteWebhook at h
  split at h
  · exact (Option.some.inj h).symm
  · cases h

theorem updated_id (r : Registration) : (if r.id = id then updated o r else r).id = r.id := by
  split <;> rfl

theorem updated_managed {r : Registration} (h : r.id = id → Managed o r) :
    Managed o r ↔ Managed o (if r.id = id then updated o r else r) := by
  split
  · rename_i hid
    exact iff_of_true (h hid) (managed_updated r)
  · exact Iff.rfl

/-- A call of a pass whose ids stand for managed registrations and whose duplicates have a managed
registration before them. -/
theorem keeps_carried {work : Work} {active : Bool} (hn : (rs.map Registration.id).Nodup)
    (hi : ∀ r ∈ rs, r.id ∈ issued) (hnew : work = .registering → id ∉ issued)
    (hown : ∀ i ∈ work.touches, ∀ r ∈ rs, r.id = i → Managed o r)
    (hbefore : ∀ i ∈ work.duplicates, ∃ r ∈ rs, Managed o r ∧ Before o r.id i)
    (h : carryOut o id active rs work = some rs') : Keeps o issued rs rs' := by
  cases work with
  | listing =>
    cases h
    exact keeps_refl hn
  | registering =>
    cases h
    exact keeps_added hn hi (hnew rfl)
  | updating retained duplicates =>
    obtain rfl := update_webhook_some h
    refine keeps_mapped hn (fun r _ => updated_id r) fun r hr => updated_managed ?_
    exact hown retained List.mem_cons_self r hr
  | deleting retained duplicate rest total =>
    obtain rfl := delete_webhook_some h
    exact keeps_removed hn fun _ => hbefore duplicate List.mem_cons_self

/-- No call makes up an id but the one that registers. -/
theorem carried_ids {work : Work} {active : Bool} (h : carryOut o id active rs work = some rs')
    {r : Registration} (hr : r ∈ rs') :
    (∃ old ∈ rs, old.id = r.id) ∨ (work = .registering ∧ r.id = id) := by
  cases work with
  | listing =>
    cases h
    exact .inl ⟨r, hr, rfl⟩
  | registering =>
    cases h
    rcases List.mem_append.mp hr with hold | hlast
    · exact .inl ⟨r, hold, rfl⟩
    · exact .inr ⟨rfl, congrArg Registration.id (List.mem_singleton.mp hlast)⟩
  | updating retained duplicates =>
    obtain rfl := update_webhook_some h
    obtain ⟨old, hold, rfl⟩ := List.mem_map.mp hr
    exact .inl ⟨old, hold, (updated_id old).symm⟩
  | deleting retained duplicate rest total =>
    obtain rfl := delete_webhook_some h
    exact .inl ⟨r, List.mem_of_mem_filter hr, rfl⟩

theorem foreign_mapped {f : Registration → Registration}
    (h : ∀ r ∈ rs, f r = r ∨ (Managed o r ∧ Managed o (f r))) :
    foreign o (rs.map f) = foreign o rs := by
  unfold foreign
  induction rs with
  | nil => rfl
  | cons r rs ih =>
    have hrest := ih fun r' hr' => h r' (List.mem_cons_of_mem _ hr')
    rw [List.map_cons, List.filter_cons, List.filter_cons, hrest]
    rcases h r List.mem_cons_self with hsame | ⟨hm, hm'⟩
    · rw [hsame]
    · simp [hm, hm']

/-- The registrations for other URLs stay as they are. -/
theorem foreign_carried {work : Work} {active : Bool}
    (hown : ∀ i ∈ work.touches, ∀ r ∈ rs, r.id = i → Managed o r)
    (h : carryOut o id active rs work = some rs') : foreign o rs' = foreign o rs := by
  cases work with
  | listing =>
    cases h
    rfl
  | registering =>
    cases h
    simp [foreign, managed_registered]
  | updating retained duplicates =>
    obtain rfl := update_webhook_some h
    refine foreign_mapped fun r hr => ?_
    split
    · rename_i hid
      exact .inr ⟨hown retained List.mem_cons_self r hr hid, managed_updated r⟩
    · exact .inl rfl
  | deleting retained duplicate rest total =>
    obtain rfl := delete_webhook_some h
    rw [foreign, List.filter_filter]
    refine List.filter_congr fun r hr => ?_
    by_cases hid : r.id = duplicate
    · simp [hid, hown duplicate List.mem_cons_self r hr hid]
    · simp [hid]

end Keeps

section Safety

variable {o : Options} {s u : State} {e : Event} {p q : ℕ} {k : Pass} {sessionId : String}

structure Inv (o : Options) (s : State) : Prop where
  nodup : ∀ sessionId, ((s.registrations sessionId).map Registration.id).Nodup
  issued : ∀ sessionId, ∀ r ∈ s.registrations sessionId, r.id ∈ s.issued
  owned : ∀ p k, s.passes p = some k → ∀ id ∈ k.work.touches, id ∈ s.issued ∧
    ∀ r ∈ s.registrations k.sessionId, r.id = id → Managed o r
  before : ∀ p k, s.passes p = some k → ∀ id ∈ k.work.duplicates,
    ∃ r ∈ s.registrations k.sessionId, Managed o r ∧ Before o r.id id

theorem inv_initial (h : Initial s) : Inv o s := by
  obtain ⟨hreg, hnone, hreports⟩ := h
  refine ⟨fun sessionId => (hreg sessionId).1, fun sessionId => (hreg sessionId).2, ?_, ?_⟩ <;>
    simp [hnone]

/-- What the ids of a pass come from: it keeps fewer of those it has, it has just listed its
session, or it has none. -/
inductive Derived (o : Options) (rs : List Registration) (old : Option Pass) (k : Pass) : Prop where
  | kept {k' : Pass} : old = some k' → k.sessionId = k'.sessionId →
      k.work.touches ⊆ k'.work.touches → k.work.duplicates ⊆ k'.work.duplicates → Derived o rs old k
  | listed {retained : String} {duplicates : List String} :
      (managed o rs).map Registration.id = retained :: duplicates →
      k.work = .updating retained duplicates → Derived o rs old k
  | fresh : k.work.touches = [] → k.work.duplicates = [] → Derived o rs old k

structure Moved (o : Options) (s u : State) : Prop where
  keeps : ∀ sessionId, Keeps o s.issued (s.registrations sessionId) (u.registrations sessionId)
  grows : ∀ id ∈ s.issued, id ∈ u.issued
  issued : ∀ sessionId, ∀ r ∈ u.registrations sessionId, r.id ∈ u.issued
  passes : ∀ p k, u.passes p = some k →
    Derived o (u.registrations k.sessionId) (s.passes p) k

section Listed

variable {rs : List Registration} {retained id : String} {duplicates : List String}

theorem mem_managed {r : Registration} : r ∈ managed o rs ↔ r ∈ rs ∧ Managed o r := by
  rw [managed, o.localeCompare.sortBy_perm.mem_iff]
  simp

theorem managed_ids (hn : (rs.map Registration.id).Nodup) :
    ((managed o rs).map Registration.id).Nodup := by
  have hperm := (o.localeCompare.sortBy_perm (f := Registration.id)
    (l := rs.filter fun r => Managed o r)).map Registration.id
  exact hperm.nodup_iff.mpr (hn.sublist (List.filter_sublist.map _))

theorem listed_owned (hn : (rs.map Registration.id).Nodup)
    (h : id ∈ (managed o rs).map Registration.id) {r : Registration} (hr : r ∈ rs)
    (hid : r.id = id) : Managed o r := by
  obtain ⟨r', hr', rfl⟩ := List.mem_map.mp h
  obtain ⟨hmem, hm⟩ := mem_managed.mp hr'
  rwa [List.inj_on_of_nodup_map hn hr hmem hid]

/-- The first of the sorted ids is the one that is retained. -/
theorem listed_before (hn : (rs.map Registration.id).Nodup)
    (h : (managed o rs).map Registration.id = retained :: duplicates) (hid : id ∈ duplicates) :
    ∃ r ∈ rs, Managed o r ∧ Before o r.id id := by
  have hsorted := (List.pairwise_map.mpr (o.localeCompare.sortBy_pairwise (f := Registration.id)
    (l := rs.filter fun r => Managed o r)) : ((managed o rs).map Registration.id).Pairwise _)
  have hnodup := managed_ids (o := o) hn
  rw [h, List.pairwise_cons] at hsorted
  rw [h, List.nodup_cons] at hnodup
  have hfirst : retained ∈ (managed o rs).map Registration.id := h ▸ List.mem_cons_self
  obtain ⟨r, hr, rfl⟩ := List.mem_map.mp hfirst
  obtain ⟨hmem, hm⟩ := mem_managed.mp hr
  refine ⟨r, hmem, hm, hsorted.1 id hid, ?_⟩
  rintro rfl
  exact hnodup.1 hid

end Listed

theorem moved_owned (hi : Inv o s) (hm : Moved o s u) (hk : u.passes p = some k) {id : String}
    (hid : id ∈ k.work.touches) : id ∈ u.issued ∧
      ∀ r ∈ u.registrations k.sessionId, r.id = id → Managed o r := by
  cases hm.passes p k hk with
  | @kept k' hold hsession htouches _ =>
    obtain ⟨hissued, hown⟩ := hi.owned p k' hold id (htouches hid)
    refine ⟨hm.grows id hissued, fun r hr hrid => ?_⟩
    rcases (hm.keeps k.sessionId).same r hr with hnew | ⟨r', hr', hsame, hiff⟩
    · exact absurd (hrid ▸ hissued) hnew
    · exact hiff.mp (hown r' (hsession ▸ hr') (hsame.trans hrid))
  | listed hlist hwork =>
    have hmem : id ∈ (managed o (u.registrations k.sessionId)).map Registration.id := by
      rw [hwork] at hid
      rwa [hlist]
    refine ⟨?_, fun r hr => listed_owned (hm.keeps k.sessionId).nodup hmem hr⟩
    obtain ⟨r, hr, rfl⟩ := List.mem_map.mp hmem
    exact hm.issued k.sessionId r (mem_managed.mp hr).1
  | fresh hnone _ =>
    rw [hnone] at hid
    cases hid

theorem moved_before (hi : Inv o s) (hm : Moved o s u) (hk : u.passes p = some k) {id : String}
    (hid : id ∈ k.work.duplicates) :
    ∃ r ∈ u.registrations k.sessionId, Managed o r ∧ Before o r.id id := by
  cases hm.passes p k hk with
  | @kept k' hold hsession _ hduplicates =>
    obtain ⟨r, hr, hman, hbefore⟩ := hi.before p k' hold id (hduplicates hid)
    obtain ⟨r', hr', hman', hle⟩ := (hm.keeps k.sessionId).lower r (hsession ▸ hr) hman
    exact ⟨r', hr', hman', before_of_le hle hbefore⟩
  | listed hlist hwork =>
    rw [hwork] at hid
    exact listed_before (hm.keeps k.sessionId).nodup hlist hid
  | fresh _ hnone =>
    rw [hnone] at hid
    cases hid

section Steps

theorem advance_registrations {totals : ReconciliationCounts} {failed : ℕ} {l : List String} :
    (advance o s p totals failed l).registrations = s.registrations ∧
      (advance o s p totals failed l).issued = s.issued := by
  cases l <;> exact ⟨rfl, rfl⟩

/-- The passes after one has gone on to its next session. -/
theorem advance_passes {totals : ReconciliationCounts} {failed : ℕ} {l : List String}
    (h : (advance o s p totals failed l).passes q = some k) :
    (q ≠ p ∧ s.passes q = some k) ∨ (q = p ∧ k.work = .listing ∧ k.totals = totals ∧
      k.failed = failed ∧ l = k.sessionId :: k.following) := by
  by_cases hq : q = p
  · subst hq
    cases l with
    | nil => simp [advance] at h
    | cons sessionId following =>
      simp only [advance, Function.update_self, Option.some.injEq] at h
      subst h
      exact .inr ⟨rfl, rfl, rfl, rfl, rfl⟩
  · refine .inl ⟨hq, ?_⟩
    cases l <;> simpa [advance, hq] using h

theorem derived_advance {totals : ReconciliationCounts} {failed : ℕ} {l : List String}
    {rs : List Registration} (h : (advance o s p totals failed l).passes q = some k) :
    Derived o rs (s.passes q) k := by
  rcases advance_passes h with ⟨_, hsame⟩ | ⟨_, hwork, _⟩
  · exact .kept hsame rfl (List.Subset.refl _) (List.Subset.refl _)
  · exact .fresh (by rw [hwork]; rfl) (by rw [hwork]; rfl)

theorem derived_proceed {rs : List Registration} {work : Work} (hold : s.passes p = some k)
    (h : proceed o rs k.work = .inl work) : Derived o rs (s.passes p) { k with work := work } := by
  cases hwork : k.work with
  | listing =>
    rw [hwork] at h
    simp only [proceed] at h
    split at h <;> cases h
    · exact .fresh rfl rfl
    · rename_i hlist
      exact .listed hlist rfl
  | registering =>
    rw [hwork] at h
    cases h
  | updating retained duplicates =>
    rw [hwork] at h
    cases duplicates with
    | nil => cases h
    | cons duplicate rest =>
      cases h
      exact .kept hold rfl (by simp [hwork, Work.touches]) (by simp [hwork, Work.duplicates])
  | deleting retained duplicate rest total =>
    rw [hwork] at h
    cases rest with
    | nil => cases h
    | cons next rest =>
      cases h
      exact .kept hold rfl (by simp [hwork, Work.touches]) (by simp [hwork, Work.duplicates])

theorem moved_of_registrations (hi : Inv o s) (hr : u.registrations = s.registrations)
    (hissued : u.issued = s.issued) (hp : ∀ p k, u.passes p = some k →
      Derived o (u.registrations k.sessionId) (s.passes p) k) : Moved o s u where
  keeps sessionId := by
    rw [hr]
    exact keeps_refl (hi.nodup sessionId)
  grows _ hid := by rwa [hissued]
  issued sessionId := by
    rw [hr, hissued]
    exact hi.issued sessionId
  passes := hp

/-- One session's registrations are rewritten. -/
theorem moved_of_update {rs : List Registration} (hi : Inv o s)
    (hr : u.registrations = Function.update s.registrations sessionId rs)
    (hk : Keeps o s.issued (s.registrations sessionId) rs) (hgrow : ∀ id ∈ s.issued, id ∈ u.issued)
    (hissued : ∀ r ∈ rs, r.id ∈ u.issued) (hp : ∀ p k, u.passes p = some k →
      Derived o (u.registrations k.sessionId) (s.passes p) k) : Moved o s u where
  keeps other := by
    rw [hr]
    by_cases hs : other = sessionId
    · subst hs
      rwa [Function.update_self]
    · rw [Function.update_of_ne hs]
      exact keeps_refl (hi.nodup other)
  grows := hgrow
  issued other r hmem := by
    rw [hr] at hmem
    by_cases hs : other = sessionId
    · subst hs
      rw [Function.update_self] at hmem
      exact hissued r hmem
    · rw [Function.update_of_ne hs] at hmem
      exact hgrow _ (hi.issued other r hmem)
  passes := hp

theorem go_on_registrations {rs : List Registration} :
    (goOn o s p k rs).registrations = s.registrations ∧ (goOn o s p k rs).issued = s.issued := by
  unfold goOn
  split
  · exact ⟨rfl, rfl⟩
  · exact advance_registrations

theorem derived_go_on {rs : List Registration} {k' : Pass} (hold : s.passes p = some k)
    (hrs : s.registrations k.sessionId = rs) (h : (goOn o s p k rs).passes q = some k') :
    Derived o (s.registrations k'.sessionId) (s.passes q) k' := by
  unfold goOn at h
  split at h
  · rename_i work hwork
    by_cases hq : q = p
    · subst hq
      simp only [Function.update_self, Option.some.injEq] at h
      subst h
      have hderived := derived_proceed hold hwork
      rwa [← hrs] at hderived
    · simp only [Function.update_of_ne hq] at h
      exact .kept h rfl (List.Subset.refl _) (List.Subset.refl _)
  · exact derived_advance h

/-- A call moves the registrations of its session, or none of them on a 404. -/
theorem perform_moved {answered active : Bool} {id : String} (hi : Inv o s)
    (hk : s.passes p = some k) (h : perform o s p k answered id active = some u) :
    Moved o s u ∧ ∀ sessionId,
      foreign o (u.registrations sessionId) = foreign o (s.registrations sessionId) := by
  obtain ⟨hnew, rfl⟩ := guarded_eq_some.mp h
  have hown : ∀ id ∈ k.work.touches, ∀ r ∈ s.registrations k.sessionId, r.id = id → Managed o r :=
    fun id hid => (hi.owned p k hk id hid).2
  cases hc : carryOut o id active (s.registrations k.sessionId) k.work with
  | none =>
    have hsame := @advance_registrations o s p k.totals (k.failed + 1) k.following
    refine ⟨moved_of_registrations hi hsame.1 hsame.2 fun q l hl => derived_advance hl,
      fun sessionId => ?_⟩
    exact congrArg (fun f => foreign o (f sessionId)) hsame.1
  | some rs =>
    have hkeeps := keeps_carried (hi.nodup k.sessionId) (hi.issued k.sessionId) hnew hown
      (hi.before p k hk) hc
    have hforeign := foreign_carried hown hc
    obtain ⟨t, ht⟩ : ∃ t : State, t = { s with
        registrations := Function.update s.registrations k.sessionId rs
        issued := if k.work = .registering then id :: s.issued else s.issued } := ⟨_, rfl⟩
    have hgrow : ∀ i ∈ s.issued, i ∈ t.issued := by
      intro i hmem
      rw [ht]
      simp only
      split
      · exact List.mem_cons_of_mem _ hmem
      · exact hmem
    have hissued : ∀ r ∈ rs, r.id ∈ t.issued := by
      intro r hr
      rcases carried_ids hc hr with ⟨old, hold, hid⟩ | ⟨hwork, hid⟩
      · exact hid ▸ hgrow _ (hi.issued k.sessionId old hold)
      · simp [ht, hwork, hid]
    have hregs : t.registrations = Function.update s.registrations k.sessionId rs := by rw [ht]
    have hat : t.registrations k.sessionId = rs := by rw [hregs, Function.update_self]
    have hpasses : t.passes = s.passes := by rw [ht]
    simp only [← ht]
    have hkept : ∀ v : State, v.registrations = t.registrations → v.issued = t.issued →
        (∀ q l, v.passes q = some l → Derived o (v.registrations l.sessionId) (s.passes q) l) →
        Moved o s v ∧ ∀ sessionId,
          foreign o (v.registrations sessionId) = foreign o (s.registrations sessionId) := by
      intro v hv hvi hvp
      refine ⟨moved_of_update hi (hv.trans hregs) hkeeps (hvi ▸ hgrow) (hvi ▸ hissued) hvp,
        fun sessionId => ?_⟩
      rw [hv, hregs]
      by_cases hs : sessionId = k.sessionId
      · rw [hs, Function.update_self, hforeign]
      · rw [Function.update_of_ne hs]
    split
    · refine hkept _ go_on_registrations.1 go_on_registrations.2 fun q l hl => ?_
      rw [go_on_registrations.1, ← hpasses]
      exact derived_go_on (hpasses ▸ hk) hat hl
    · refine hkept _ advance_registrations.1 advance_registrations.2 fun q l hl => ?_
      rw [← hpasses]
      exact derived_advance hl

theorem operate_moved {change : Change} (hi : Inv o s) (h : operate s sessionId change = some u)
    (hapart : Apart o s (.operator sessionId change)) : Moved o s u := by
  have hpasses : ∀ v : State, v.passes = s.passes → ∀ q l, v.passes q = some l →
      Derived o (v.registrations l.sessionId) (s.passes q) l := by
    intro v hv q l hl
    exact .kept (hv ▸ hl) rfl (List.Subset.refl _) (List.Subset.refl _)
  cases change with
  | add r =>
    obtain ⟨hnew, rfl⟩ := guarded_eq_some.mp h
    refine moved_of_update hi rfl (keeps_added (hi.nodup sessionId) (hi.issued sessionId) hnew)
      (fun id hid => List.mem_cons_of_mem _ hid) (fun r' hr' => ?_) (hpasses _ rfl)
    rcases List.mem_append.mp hr' with hold | hlast
    · exact List.mem_cons_of_mem _ (hi.issued sessionId r' hold)
    · rw [List.mem_singleton.mp hlast]
      exact List.mem_cons_self
  | remove id =>
    cases h
    refine moved_of_update hi rfl (keeps_removed (hi.nodup sessionId) ?_) (fun _ hid => hid)
      (fun r' hr' => hi.issued sessionId r' (List.mem_of_mem_filter hr')) (hpasses _ rfl)
    rintro ⟨r, hr, hid, hman⟩
    exact absurd hman (hapart r hr hid)
  | change r =>
    cases h
    obtain ⟨hr, holds⟩ := hapart
    refine moved_of_update hi rfl (keeps_mapped (hi.nodup sessionId) ?_ ?_) (fun _ hid => hid)
      (fun r' hr' => ?_) (hpasses _ rfl)
    · intro old _
      split
      · rename_i hid
        exact hid.symm
      · rfl
    · intro old hold
      split
      · rename_i hid
        exact iff_of_false (holds old hold hid) hr
      · exact Iff.rfl
    · obtain ⟨old, hold, rfl⟩ := List.mem_map.mp hr'
      split
      · rename_i hid
        exact hid ▸ hi.issued sessionId old hold
      · exact hi.issued sessionId old hold

theorem step_moved (hi : Inv o s) (h : step o s e = some u) (hapart : Apart o s e) :
    Moved o s u := by
  cases e with
  | start p =>
    simp only [step, begin, Option.ite_none_right_eq_some, Option.some.injEq] at h
    obtain ⟨_, rfl⟩ := h
    exact moved_of_registrations hi advance_registrations.1 advance_registrations.2
      fun q l hl => derived_advance hl
  | call p answered id active =>
    obtain ⟨k, hk, h⟩ := Option.bind_eq_some_iff.mp h
    exact (perform_moved hi hk h).1
  | refused p =>
    obtain ⟨k, hk, rfl⟩ := Option.map_eq_some_iff.mp h
    exact moved_of_registrations hi advance_registrations.1 advance_registrations.2
      fun q l hl => derived_advance hl
  | crash p =>
    cases h
    refine moved_of_registrations hi rfl rfl fun q l hl => ?_
    by_cases hq : q = p
    · simp [hq] at hl
    · simp only [Function.update_of_ne hq] at hl
      exact .kept hl rfl (List.Subset.refl _) (List.Subset.refl _)
  | operator sessionId change => exact operate_moved hi h hapart

end Steps

theorem inv_step (hi : Inv o s) (h : step o s e = some u) (hapart : Apart o s e) : Inv o u := by
  have hm := step_moved hi h hapart
  exact ⟨fun sessionId => (hm.keeps sessionId).nodup, hm.issued, fun p k hk _ => moved_owned hi hm hk,
    fun p k hk _ => moved_before hi hm hk⟩

theorem reachable_inv (h : Reachable (restrict (system o) (Apart o)) s) : Inv o s :=
  reachable_invariant (M := restrict (system o) (Apart o)) (fun _ hs => inv_initial hs)
    (fun _ _ hi he => inv_step hi (ofStep_enabled he.1) he.2) h

section Reports

/-- Each session that a pass has left has been created, updated or given up. -/
structure Tallied (o : Options) (s : State) : Prop where
  passes : ∀ p k, s.passes p = some k → k.totals.created + k.totals.updated + k.failed +
    (k.following.length + 1) = o.allowedSessionIds.length
  reports : ∀ r ∈ s.reports, r.sessions = o.allowedSessionIds.length ∧
    r.totals.created + r.totals.updated + r.failed = r.sessions

theorem tallied_advance {totals : ReconciliationCounts} {failed : ℕ} {l : List String}
    (ht : Tallied o s) (h : totals.created + totals.updated + failed + l.length =
      o.allowedSessionIds.length) : Tallied o (advance o s p totals failed l) := by
  constructor
  · intro q k hk
    rcases advance_passes hk with ⟨_, hold⟩ | ⟨_, _, rfl, rfl, rfl⟩
    · exact ht.passes q k hold
    · simpa using h
  · intro r hr
    cases l with
    | nil =>
      rcases List.mem_append.mp hr with hold | hnew
      · exact ht.reports r hold
      · rw [List.mem_singleton.mp hnew]
        exact ⟨rfl, h⟩
    | cons => exact ht.reports r hr

theorem tallied_give_up (ht : Tallied o s) (hk : s.passes p = some k) :
    Tallied o (giveUp o s p k) := by
  have hsum := ht.passes p k hk
  refine tallied_advance ht ?_
  omega

theorem proceed_counts {rs : List Registration} {work : Work} {counts : ReconciliationCounts}
    (h : proceed o rs work = .inr counts) : counts.created + counts.updated = 1 := by
  cases work with
  | listing =>
    simp only [proceed] at h
    split at h <;> cases h
  | registering =>
    cases h
    rfl
  | updating retained duplicates =>
    cases duplicates <;> cases h
    rfl
  | deleting retained duplicate rest total =>
    cases rest <;> cases h
    rfl

theorem tallied_go_on {rs : List Registration} (ht : Tallied o s) (hk : s.passes p = some k) :
    Tallied o (goOn o s p k rs) := by
  have hsum := ht.passes p k hk
  unfold goOn
  split
  · refine ⟨fun q l hl => ?_, ht.reports⟩
    by_cases hq : q = p
    · simp only [hq, Function.update_self, Option.some.injEq] at hl
      subst hl
      exact hsum
    · simp only [Function.update_of_ne hq] at hl
      exact ht.passes q l hl
  · rename_i counts hcounts
    have hone := proceed_counts hcounts
    refine tallied_advance ht ?_
    simp only [ReconciliationCounts.add]
    omega

theorem tallied_step (ht : Tallied o s) (h : step o s e = some u) : Tallied o u := by
  cases e with
  | start p =>
    simp only [step, begin, Option.ite_none_right_eq_some, Option.some.injEq] at h
    obtain ⟨_, rfl⟩ := h
    exact tallied_advance ht (by simp)
  | call p answered id active =>
    obtain ⟨k, hk, h⟩ := Option.bind_eq_some_iff.mp h
    obtain ⟨_, rfl⟩ := guarded_eq_some.mp h
    cases carryOut o id active (s.registrations k.sessionId) k.work with
    | none => exact tallied_give_up ht hk
    | some rs =>
      cases answered with
      | true => exact tallied_go_on ⟨ht.passes, ht.reports⟩ hk
      | false => exact tallied_give_up ⟨ht.passes, ht.reports⟩ hk
  | refused p =>
    obtain ⟨k, hk, rfl⟩ := Option.map_eq_some_iff.mp h
    exact tallied_give_up ht hk
  | crash p =>
    cases h
    refine ⟨fun q l hl => ?_, ht.reports⟩
    by_cases hq : q = p
    · simp [hq] at hl
    · simp only [Function.update_of_ne hq] at hl
      exact ht.passes q l hl
  | operator sessionId change =>
    cases change with
    | add r =>
      obtain ⟨_, rfl⟩ := guarded_eq_some.mp h
      exact ⟨ht.passes, ht.reports⟩
    | remove id =>
      cases h
      exact ⟨ht.passes, ht.reports⟩
    | change r =>
      cases h
      exact ⟨ht.passes, ht.reports⟩

theorem reachable_tallied (h : Reachable (system o) s) : Tallied o s := by
  refine reachable_invariant (I := Tallied o) ?_
    (fun _ _ ht he => tallied_step ht (ofStep_enabled he)) h
  rintro s ⟨_, hnone, hreports⟩
  constructor <;> simp [hnone, hreports]

end Reports

theorem foreign_step (hi : Inv o s) (h : step o s e = some u)
    (hpass : ∀ sessionId change, e ≠ .operator sessionId change) (sessionId : String) :
    foreign o (u.registrations sessionId) = foreign o (s.registrations sessionId) := by
  cases e with
  | start p =>
    simp only [step, begin, Option.ite_none_right_eq_some, Option.some.injEq] at h
    obtain ⟨_, rfl⟩ := h
    rw [advance_registrations.1]
  | call p answered id active =>
    obtain ⟨k, hk, h⟩ := Option.bind_eq_some_iff.mp h
    exact (perform_moved hi hk h).2 sessionId
  | refused p =>
    obtain ⟨k, hk, rfl⟩ := Option.map_eq_some_iff.mp h
    rw [giveUp, advance_registrations.1]
  | crash p =>
    cases h
    rfl
  | operator sessionId change => exact absurd rfl (hpass sessionId change)

/-- No step of a pass touches what is registered for another URL. As long as operators neither add,
change nor remove a registration for the callback, a session that has a managed registration has one
from then on. A report counts each allowed session once. -/
theorem registrations_guarded {es : List Event}
    (hs : Reachable (restrict (system o) (Apart o)) s)
    (h : Execution (restrict (system o) (Apart o)) s es u) :
    ((∀ sessionId change, .operator sessionId change ∉ es) → ∀ sessionId,
        foreign o (u.registrations sessionId) = foreign o (s.registrations sessionId)) ∧
      (∀ sessionId, managed o (s.registrations sessionId) ≠ [] →
        managed o (u.registrations sessionId) ≠ []) ∧
      ∀ r ∈ u.reports, r.sessions = o.allowedSessionIds.length ∧
        r.totals.created + r.totals.updated + r.failed = r.sessions := by
  refine ⟨fun hpasses sessionId => ?_, fun sessionId => ?_, fun r hr => ?_⟩
  · induction h with
    | refl => rfl
    | @step es t e _ he ih =>
      have ht := hs.extend ‹_›
      have hother : ∀ sessionId change, e ≠ .operator sessionId change := by
        rintro sessionId change rfl
        exact hpasses sessionId change (List.mem_append_right _ (List.mem_singleton_self _))
      refine (foreign_step (reachable_inv ht) (ofStep_enabled he.1) hother sessionId).trans ?_
      exact ih fun _ _ hmem => hpasses _ _ (List.mem_append_left _ hmem)
  · refine stable_along (M := restrict (system o) (Apart o))
      (P := fun t => managed o (t.registrations sessionId) ≠ []) (fun t e ht hne he => ?_) hs h
    have hm := step_moved (reachable_inv ht) (ofStep_enabled he.1) he.2
    obtain ⟨r, hr⟩ := List.exists_mem_of_ne_nil _ hne
    obtain ⟨hmem, hman⟩ := mem_managed.mp hr
    obtain ⟨r', hr', hman', _⟩ := (hm.keeps sessionId).lower r hmem hman
    exact List.ne_nil_of_mem (mem_managed.mpr ⟨hr', hman'⟩)
  · have ht := reachable_tallied (hs.extend h).unrestrict
    exact ht.reports r hr

end Safety

section Witness

instance (o : Options) (s : State) (e : Event) : Decidable ((system o).enabled s e) :=
  inferInstanceAs (Decidable ((step o s e).isSome = true))

instance (o : Options) (s : State) : (e : Event) → Decidable (Apart o s e)
  | .operator _ (.add r) => inferInstanceAs (Decidable (¬ Managed o r))
  | .operator sessionId (.remove id) =>
    inferInstanceAs (Decidable (∀ r ∈ s.registrations sessionId, r.id = id → ¬ Managed o r))
  | .operator sessionId (.change r) =>
    inferInstanceAs (Decidable (¬ Managed o r ∧
      ∀ old ∈ s.registrations sessionId, old.id = r.id → ¬ Managed o old))
  | .start _ | .call _ _ _ _ | .refused _ | .crash _ => isTrue trivial

def callback : String := "https://runtime.example.test/api/v1/webhooks/openwa"

def callbackOptions : Options where
  enabled := true
  callbackUrl := some callback
  secret := "test-secret-at-least-thirty-two-characters"
  allowedSessionIds := ["session-one"]
  urls := ⟨fun value => value, fun _ => rfl⟩
  localeCompare := TotalOrder.codePoints

def earlierRegistration (id url : String) : Registration :=
  ⟨id, url, ["message.received"], "", true, 3⟩

/-- Two registrations for the callback, and one for another URL. -/
def duplicated : State where
  registrations sessionId :=
    if sessionId = "session-one" then
      [earlierRegistration "managed-z" callback,
        earlierRegistration "foreign" "https://other.example.test/hook",
        earlierRegistration "managed-a" callback]
    else []
  issued := ["managed-z", "foreign", "managed-a"]
  passes _ := none
  reports := []

theorem duplicated_initial : Initial duplicated := by
  refine ⟨fun sessionId => ?_, fun _ => rfl, rfl⟩
  by_cases hs : sessionId = "session-one" <;> simp [duplicated, hs, earlierRegistration]

/-- One pass loses the answer to its update, the other one dies after its deletion. -/
def overlappingPasses : List Event :=
  [.start 0, .call 0 true "" true, .start 1, .call 1 true "" true, .call 0 false "" true,
    .call 1 true "" true, .call 1 false "" true, .crash 1]

theorem overlapping_passes_guarded :
    let u := runTrace (system callbackOptions) duplicated overlappingPasses
    foreign callbackOptions (u.registrations "session-one") =
        [earlierRegistration "foreign" "https://other.example.test/hook"] ∧
      managed callbackOptions (u.registrations "session-one") ≠ [] := by
  have hvalid : ValidTrace (restrict (system callbackOptions) (Apart callbackOptions)) duplicated
      overlappingPasses := by decide +kernel
  have hrun := valid_trace_execution hvalid
  rw [runTrace_restrict] at hrun
  have hguarded := registrations_guarded (reachable_of_initial duplicated_initial) hrun
  refine ⟨(hguarded.1 ?_ "session-one").trans (by decide +kernel),
    hguarded.2.1 "session-one" (by decide +kernel)⟩
  intro sessionId change hmem
  simp [overlappingPasses] at hmem

end Witness

end WebhookRegistrations
