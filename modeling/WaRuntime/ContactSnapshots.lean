import Mathlib.Data.Nat.Notation
import Mathlib.Order.Nat
import WaRuntime.TransitionRuns
import WaRuntime.ContactEvidence

/-! The life of the contact snapshots of a session, with snapshot staging enabled.
A transaction locks the row of `contact_sync_state` before it writes anything, or it writes a
generation that only the holder of one lease can write; so each is one step, taken when it commits,
with the `now()` of its beginning. A transaction that throws changes nothing and is no step. The
projection of the legacy contacts is left out. -/
namespace ContactSnapshots

open TransitionRuns ContactNormalization ContactEvidence

abbrev SessionId := String

structure Config where
  texts : Texts
  /-- The evidence writer is enabled. -/
  evidenceEnabled : Bool
  snapshotRetentionMs : ℕ

def leaseMs : ℕ := 600000

/-- A row of `contact_sync_state`. -/
structure ContactSyncState where
  syncGeneration : ℕ
  lastStartedAt : ℕ
  lastCompletedAt : Option ℕ
  lastSuccessfulRecordCount : Option ℕ
  lastErrorCode : Option String
  nextAttemptAt : ℕ
  attemptCount : ℕ
  leaseToken : Option ℕ
  leaseExpiresAt : Option ℕ
  deriving DecidableEq, Repr

inductive GenerationState where
  | receiving
  | published
  | failed
  deriving DecidableEq, Repr

/-- A row of `contact_snapshot_generations`. -/
structure SnapshotGeneration where
  generation : ℕ
  state : GenerationState
  leaseToken : ℕ
  upstreamRecordCount : Option ℕ
  stagedIdentityCount : ℕ
  publishedAt : Option ℕ
  failedAt : Option ℕ
  errorCode : Option String
  createdAt : ℕ
  deriving DecidableEq, Repr

structure SnapshotClaim where
  generation : ℕ
  leaseToken : ℕ
  deriving DecidableEq, Repr

/-- The rows of one session; `claims` are the ones that `begin` has returned, oldest first. -/
structure Snapshots where
  sync : Option ContactSyncState
  generations : List SnapshotGeneration
  staged : List (ℕ × SnapshotObservation)
  evidence : EvidenceTables
  claims : List SnapshotClaim

def Snapshots.empty : Snapshots := ⟨none, [], [], .empty, []⟩

/-- The row that the WHERE clauses on ownership select. -/
def Owns (claim : SnapshotClaim) (now : ℕ) (row : ContactSyncState) : Prop :=
  row.syncGeneration = claim.generation ∧ row.leaseToken = some claim.leaseToken ∧
    ∃ e ∈ row.leaseExpiresAt, now < e

instance (claim : SnapshotClaim) (now : ℕ) (row : ContactSyncState) :
    Decidable (Owns claim now row) :=
  inferInstanceAs (Decidable (_ ∧ _ ∧ (∃ e ∈ row.leaseExpiresAt, now < e)))

section Begin

/-- `claimSql`. -/
def claimSync (now token : ℕ) (force : Bool) : Option ContactSyncState → Option ContactSyncState
  | none => some ⟨1, now, none, none, none, now, 0, some token, some (now + leaseMs)⟩
  | some row =>
    if (row.leaseToken = none ∨ ∃ e ∈ row.leaseExpiresAt, e < now) ∧
        (force = true ∨ row.nextAttemptAt ≤ now) then
      some { row with
        syncGeneration := row.syncGeneration + 1
        lastStartedAt := now
        lastErrorCode := none
        attemptCount := row.attemptCount + 1
        leaseToken := some token
        leaseExpiresAt := some (now + leaseMs) }
    else none

/-- A generation that is still RECEIVING when a newer one begins. -/
def expireGeneration (now newer : ℕ) (row : SnapshotGeneration) : SnapshotGeneration :=
  if row.state = .receiving ∧ row.generation < newer then
    { row with state := .failed, failedAt := some now, errorCode := some "LEASE_EXPIRED" }
  else row

def latestPublished (generations : List SnapshotGeneration) : Option ℕ :=
  ((generations.filter (·.state = .published)).map SnapshotGeneration.generation).max?

/-- `resolved` is the generation of the resolution run that has completed last. -/
def outdated (retentionMs now : ℕ) (generations : List SnapshotGeneration) (resolved : Option ℕ)
    (row : SnapshotGeneration) : Bool :=
  row.state ∈ [.published, .failed] && row.createdAt + retentionMs < now &&
    latestPublished generations != some row.generation && resolved != some row.generation

def newGeneration (now generation token : ℕ) : SnapshotGeneration :=
  ⟨generation, .receiving, token, none, 0, none, none, none, now⟩

/-- What the foreign keys leave of the evidence when generations are deleted. -/
def withoutGenerations (gone : ℕ → Bool) (t : EvidenceTables) : EvidenceTables :=
  { t with
    observations := t.observations.filter fun o => !(o.sourceGeneration.any gone)
    links := t.links.filter fun l => !(l.sourceGeneration.any gone) }

/-- The generations that the DELETE of `begin` reaches. -/
def deletedGenerations (retentionMs now : ℕ) (generations : List SnapshotGeneration)
    (resolved : Option ℕ) (generation : ℕ) : Bool :=
  generations.any fun r =>
    r.generation == generation && outdated retentionMs now generations resolved r

def begin_ (c : Config) (now token : ℕ) (force : Bool) (resolved : Option ℕ) (s : Snapshots) :
    Option Snapshots :=
  match claimSync now token force s.sync with
  | none => none
  | some row =>
    let marked := s.generations.map (expireGeneration now row.syncGeneration)
    let gone := deletedGenerations c.snapshotRetentionMs now marked resolved
    guarded (row.syncGeneration ∉ s.generations.map SnapshotGeneration.generation)
      { sync := some row
        generations := (marked.filter fun r => !(gone r.generation)) ++
          [newGeneration now row.syncGeneration token]
        staged := s.staged.filter fun p => !(gone p.1)
        evidence := withoutGenerations gone s.evidence
        claims := s.claims ++ [⟨row.syncGeneration, token⟩] }

end Begin

section Ingest

def renew (now : ℕ) (row : ContactSyncState) : ContactSyncState :=
  { row with leaseExpiresAt := some (now + leaseMs) }

/-- The ownership UPDATE: `none` if it reaches no row. -/
def renewOwned (claim : SnapshotClaim) (now : ℕ) (s : Snapshots) : Option Snapshots :=
  match s.sync with
  | none => none
  | some row => guarded (Owns claim now row) { s with sync := some (renew now row) }

def typeText : ContactIdentityType → String
  | .lid => "LID"
  | .phoneJid => "PHONE_JID"
  | .phone => "PHONE"
  | .otherJid => "OTHER_JID"

def observationKey (texts : Texts) (generation : ℕ) (key : IdentityKey) : String :=
  "snapshot:" ++ toString generation ++ ":" ++ texts.md5 (typeText key.1 ++ ":" ++ key.2)

def pageRows (texts : Texts) (generation now : ℕ) (contacts : List OpenWAContact) :
    List SnapshotObservation :=
  contacts.map (contactRow texts now (observationKey texts generation))

/-- The staged rows of a generation. -/
def Snapshots.stagedOf (s : Snapshots) (generation : ℕ) : List SnapshotObservation :=
  (s.staged.filter (·.1 = generation)).map Prod.snd

/-- INSERT … ON CONFLICT DO NOTHING. -/
def stageRow (generation : ℕ) (staged : List (ℕ × SnapshotObservation))
    (row : SnapshotObservation) : List (ℕ × SnapshotObservation) :=
  if staged.any fun p => p.1 == generation && p.2.key == row.key then staged
  else staged ++ [(generation, row)]

/-- The staged row of the identity says what the page says. -/
def Agrees (staged row : SnapshotObservation) : Prop :=
  staged.key = row.key ∧ staged.phone = row.phone ∧ staged.contactName = row.contactName ∧
    staged.pushName = row.pushName

instance (staged row : SnapshotObservation) : Decidable (Agrees staged row) :=
  inferInstanceAs (Decidable (_ ∧ _ ∧ _ ∧ _))

def ingestObservedPage (c : Config) (claim : SnapshotClaim) (now : ℕ)
    (contacts : List OpenWAContact) (s : Snapshots) : Option Snapshots :=
  if contacts = [] then some s
  else match renewOwned claim now s with
  | none => none
  | some owned =>
    let rows := pageRows c.texts claim.generation now contacts
    let written := { owned with staged := rows.foldl (stageRow claim.generation) owned.staged }
    guarded (∀ row ∈ rows, ∃ staged ∈ written.stagedOf claim.generation, Agrees staged row) written

end Ingest

section End

/-- The UPDATE of the generation in `complete`; `staged` is the number of its staged rows. -/
def publishGeneration (claim : SnapshotClaim) (now records staged : ℕ) (row : SnapshotGeneration) :
    Option SnapshotGeneration :=
  if row.generation = claim.generation ∧ row.state = .receiving ∧
      row.leaseToken = claim.leaseToken then
    some { row with
      state := .published
      upstreamRecordCount := some records
      stagedIdentityCount := staged
      publishedAt := some now }
  else none

def completeSync (now records intervalMs : ℕ) (row : ContactSyncState) : ContactSyncState :=
  { row with
    lastCompletedAt := some now
    lastSuccessfulRecordCount := some records
    lastErrorCode := none
    attemptCount := 0
    nextAttemptAt := now + intervalMs
    leaseToken := none
    leaseExpiresAt := none }

def complete (c : Config) (draw : IdentityKey → IdentityId) (claim : SnapshotClaim)
    (now records intervalMs : ℕ) (s : Snapshots) : Option Snapshots :=
  match s.sync with
  | none => none
  | some row =>
    let staged := s.stagedOf claim.generation
    let publish := publishGeneration claim now records staged.length
    let evidence :=
      if c.evidenceEnabled then publishSnapshot draw now claim.generation staged s.evidence
      else some s.evidence
    match evidence with
    | none => none
    | some evidence =>
      guarded (Owns claim now row ∧ ∃ r ∈ s.generations, (publish r).isSome)
        { s with
          sync := some (completeSync now records intervalMs row)
          generations := s.generations.map fun r => (publish r).getD r
          evidence := evidence }

def failGeneration (claim : SnapshotClaim) (now : ℕ) (code : String) (row : SnapshotGeneration) :
    SnapshotGeneration :=
  if row.generation = claim.generation ∧ row.leaseToken = claim.leaseToken ∧
      row.state = .receiving then
    { row with state := .failed, failedAt := some now, errorCode := some code }
  else row

/-- LEAST(3600, 60 * 2 ^ LEAST(attempts, 6)) seconds. -/
def failureBackoffMs (attempts : ℕ) : ℕ := min 3600 (60 * 2 ^ min attempts 6) * 1000

def failSync (claim : SnapshotClaim) (now : ℕ) (code : String) (row : ContactSyncState) :
    ContactSyncState :=
  if row.syncGeneration = claim.generation ∧ row.leaseToken = some claim.leaseToken then
    { row with
      lastErrorCode := some code
      nextAttemptAt := now + failureBackoffMs row.attemptCount
      leaseToken := none
      leaseExpiresAt := none }
  else row

def fail (claim : SnapshotClaim) (now : ℕ) (code : String) (s : Snapshots) : Snapshots :=
  { s with
    sync := s.sync.map (failSync claim now code)
    generations := s.generations.map (failGeneration claim now code) }

end End

structure State where
  clock : ℕ
  sessions : SessionId → Snapshots

def initial : State := ⟨0, fun _ => .empty⟩

/-- A call for one session. -/
inductive Call where
  | begin_ (now token : ℕ) (force : Bool) (resolved : Option ℕ)
  | ingestObservedPage (claim : SnapshotClaim) (now : ℕ) (contacts : List OpenWAContact)
  | reconcileObservedIdentities (claim : SnapshotClaim) (now : ℕ)
  | complete (draw : IdentityKey → IdentityId) (claim : SnapshotClaim)
      (now records intervalMs : ℕ)
  | fail (claim : SnapshotClaim) (now : ℕ) (code : String)
  | observeGroupMembers (draw : IdentityKey → IdentityId) (now : ℕ) (groupId : String)
      (participants : List (String × Option String))
  | observeMessageSender (draw : IdentityKey → IdentityId) (now : ℕ) (rawIdentity : String)
      (rawPushName : Option String) (observedAt : ℕ) (observationKey : String)

inductive Event where
  | tick (clock : ℕ)
  | call (session : SessionId) (call : Call)

def Call.now : Call → ℕ
  | .begin_ now _ _ _ | .ingestObservedPage _ now _ | .reconcileObservedIdentities _ now
  | .complete _ _ now _ _ | .fail _ now _ | .observeGroupMembers _ now _ _
  | .observeMessageSender _ now _ _ _ _ => now

/-- Who calls with a claim got it from `begin`, tokens are drawn at random, and a worker begins
the completion after its pages. -/
def Allowed (s : Snapshots) : Call → Prop
  | .begin_ _ token _ _ => token ∉ s.claims.map SnapshotClaim.leaseToken
  | .complete _ claim now _ _ =>
    claim ∈ s.claims ∧ ∀ o ∈ s.stagedOf claim.generation, o.sourceObservedAt ≤ now
  | .ingestObservedPage claim _ _ | .reconcileObservedIdentities claim _ | .fail claim _ _ =>
    claim ∈ s.claims
  | .observeGroupMembers _ _ _ _ | .observeMessageSender _ _ _ _ _ _ => True

instance (s : Snapshots) : (call : Call) → Decidable (Allowed s call)
  | .begin_ _ _ _ _ => inferInstanceAs (Decidable (_ ∉ _))
  | .complete _ _ _ _ _ => inferInstanceAs (Decidable (_ ∧ _))
  | .ingestObservedPage _ _ _ | .reconcileObservedIdentities _ _ | .fail _ _ _ =>
    inferInstanceAs (Decidable (_ ∈ _))
  | .observeGroupMembers _ _ _ _ | .observeMessageSender _ _ _ _ _ _ => isTrue trivial

def withEvidence (s : Snapshots) (evidence : Option EvidenceTables) : Option Snapshots :=
  evidence.map fun t => { s with evidence := t }

/-- What a call leaves of the rows of its session. -/
def run (c : Config) (s : Snapshots) : Call → Option Snapshots
  | .begin_ now token force resolved => begin_ c now token force resolved s
  | .ingestObservedPage claim now contacts => ingestObservedPage c claim now contacts s
  | .reconcileObservedIdentities claim now => renewOwned claim now s
  | .complete draw claim now records intervalMs => complete c draw claim now records intervalMs s
  | .fail claim now code => some (fail claim now code s)
  | .observeGroupMembers draw now groupId participants =>
    if c.evidenceEnabled then
      withEvidence s (observeGroupMembers c.texts draw now groupId
        (participants.map fun p => participantInput c.texts p.1 p.2) s.evidence)
    else some s
  | .observeMessageSender draw now rawIdentity rawPushName observedAt key =>
    match senderInput c.texts rawIdentity rawPushName with
    | none => some s
    | some (input, pushName) =>
      if c.evidenceEnabled then
        withEvidence s
          (observeMessageSender c.texts draw now input pushName observedAt key s.evidence)
      else some s

def step (c : Config) (s : State) : Event → Option State
  | .tick clock => guarded (s.clock ≤ clock) { s with clock := clock }
  | .call session call =>
    match run c (s.sessions session) call with
    | none => none
    | some new =>
      guarded (call.now ≤ s.clock ∧ Allowed (s.sessions session) call)
        { s with sessions := Function.update s.sessions session new }

def system (c : Config) : System State Event := ofStep (· = initial) (step c)

instance (c : Config) (s : State) (e : Event) : Decidable ((system c).enabled s e) :=
  inferInstanceAs (Decidable ((step c s e).isSome = true))

/-- The generation that was begun last, or 0. -/
def Snapshots.lastGeneration (s : Snapshots) : ℕ :=
  (s.sync.map ContactSyncState.syncGeneration).getD 0

/-- What holds between the transactions: the lease in `contact_sync_state` is the one under which
the RECEIVING generation was begun, and evidence of a generation means that it was published. -/
structure Fenced (s : Snapshots) : Prop where
  distinct : (s.generations.map SnapshotGeneration.generation).Nodup
  bounded : ∀ r ∈ s.generations, r.generation ≤ s.lastGeneration
  receiving : ∀ r ∈ s.generations, r.state = .receiving → ∃ row, s.sync = some row ∧
    row.syncGeneration = r.generation ∧ row.leaseToken = some r.leaseToken
  held : ∀ row token, s.sync = some row → row.leaseToken = some token → ∃ r ∈ s.generations,
    r.generation = row.syncGeneration ∧ r.leaseToken = token ∧ r.state = .receiving
  issued : ∀ r ∈ s.generations, ⟨r.generation, r.leaseToken⟩ ∈ s.claims
  increasing : s.claims.Pairwise fun a b => a.generation < b.generation
  claimed : ∀ claim ∈ s.claims, claim.generation ≤ s.lastGeneration
  staged : ∀ p ∈ s.staged, (∃ r ∈ s.generations, r.generation = p.1) ∧
    PhoneFits p.2.identityType p.2.identityValue p.2.phone
  sound : Sound s.evidence
  observed : ∀ o ∈ s.evidence.observations, ∀ g, o.sourceGeneration = some g →
    ∃ r ∈ s.generations, r.generation = g ∧ r.state = .published
  linked : ∀ l ∈ s.evidence.links, ∀ g, l.sourceGeneration = some g →
    ∃ r ∈ s.generations, r.generation = g ∧ r.state = .published ∧
      ∃ at_, r.publishedAt = some at_ ∧ l.sourceObservedAt ≤ at_

section Rows

variable {c : Config} {s u : Snapshots} {claim : SnapshotClaim} {now : ℕ}

theorem fenced_empty : Fenced Snapshots.empty := by
  constructor
  · exact List.nodup_nil
  · exact fun _ hr => nomatch hr
  · exact fun _ hr => nomatch hr
  · exact fun _ _ hr => nomatch hr
  · exact fun _ hr => nomatch hr
  · exact List.Pairwise.nil
  · exact fun _ hr => nomatch hr
  · exact fun _ hr => nomatch hr
  · exact sound_empty
  · exact fun _ hr => nomatch hr
  · exact fun _ hr => nomatch hr

theorem generation_unique (h : Fenced s) {r r' : SnapshotGeneration} (hr : r ∈ s.generations)
    (hr' : r' ∈ s.generations) (hg : r.generation = r'.generation) : r = r' :=
  List.inj_on_of_nodup_map h.distinct hr hr' hg

theorem claim_unique (h : Fenced s) {a b : SnapshotClaim} (ha : a ∈ s.claims) (hb : b ∈ s.claims)
    (hg : a.generation = b.generation) : a = b := by
  have hdistinct : (s.claims.map SnapshotClaim.generation).Nodup := by
    rw [List.nodup_iff_pairwise_ne, List.pairwise_map]
    exact h.increasing.imp fun hlt => by omega
  exact List.inj_on_of_nodup_map hdistinct ha hb hg

theorem one_receiving (h : Fenced s) {r r' : SnapshotGeneration} (hr : r ∈ s.generations)
    (hr' : r' ∈ s.generations) (hs : r.state = .receiving) (hs' : r'.state = .receiving) :
    r = r' := by
  obtain ⟨row, hrow, hg, _⟩ := h.receiving r hr hs
  obtain ⟨row', hrow', hg', _⟩ := h.receiving r' hr' hs'
  rw [hrow] at hrow'
  cases hrow'
  exact generation_unique h hr hr' (hg.symm.trans hg')

theorem claimSync_some {token : ℕ} {force : Bool} {row : ContactSyncState}
    (h : claimSync now token force s.sync = some row) :
    row.syncGeneration = s.lastGeneration + 1 ∧ row.leaseToken = some token := by
  unfold Snapshots.lastGeneration
  cases hs : s.sync with
  | none =>
    rw [hs] at h
    cases h
    exact ⟨rfl, rfl⟩
  | some old =>
    rw [hs] at h
    unfold claimSync at h
    dsimp only at h
    split at h
    · cases h
      exact ⟨rfl, rfl⟩
    · cases h

theorem renewOwned_some (h : renewOwned claim now s = some u) :
    ∃ row, s.sync = some row ∧ Owns claim now row ∧ u = { s with sync := some (renew now row) } := by
  unfold renewOwned at h
  split at h
  · cases h
  · rename_i row hrow
    obtain ⟨howns, rfl⟩ := guarded_eq_some.mp h
    exact ⟨row, hrow, howns, rfl⟩

theorem renew_fenced (h : Fenced s) (hu : renewOwned claim now s = some u) : Fenced u := by
  obtain ⟨row, hrow, _, rfl⟩ := renewOwned_some hu
  have hlast : ({ s with sync := some (renew now row) } : Snapshots).lastGeneration =
      s.lastGeneration := by
    simp [Snapshots.lastGeneration, hrow, renew]
  refine ⟨h.distinct, ?_, ?_, ?_, h.issued, h.increasing, ?_, h.staged, h.sound, h.observed,
    h.linked⟩
  · rw [hlast]
    exact h.bounded
  · intro r hr hs
    obtain ⟨row', hrow', hg, ht⟩ := h.receiving r hr hs
    rw [hrow] at hrow'
    cases hrow'
    exact ⟨_, rfl, hg, ht⟩
  · intro row' token hrow' ht
    cases hrow'
    exact h.held row token hrow ht
  · rw [hlast]
    exact h.claimed

theorem mem_stageRows {generation : ℕ} {rows : List SnapshotObservation}
    {staged : List (ℕ × SnapshotObservation)} {p : ℕ × SnapshotObservation} :
    (p ∈ rows.foldl (stageRow generation) staged → p ∈ staged ∨ p.1 = generation ∧ p.2 ∈ rows) ∧
      (p ∈ staged → p ∈ rows.foldl (stageRow generation) staged) := by
  induction rows generalizing staged with
  | nil => exact ⟨.inl, id⟩
  | cons row rows ih =>
    have hone : (p ∈ stageRow generation staged row → p ∈ staged ∨ p = (generation, row)) ∧
        (p ∈ staged → p ∈ stageRow generation staged row) := by
      unfold stageRow
      split
      · exact ⟨.inl, id⟩
      · exact ⟨fun hp => (List.mem_append.mp hp).imp id List.mem_singleton.mp,
          List.mem_append_left _⟩
    constructor
    · intro hp
      rcases ih.1 hp with hp | ⟨hg, hp⟩
      · rcases hone.1 hp with hp | rfl
        · exact .inl hp
        · exact .inr ⟨rfl, List.mem_cons_self⟩
      · exact .inr ⟨hg, List.mem_cons_of_mem _ hp⟩
    · intro hp
      exact ih.2 (hone.2 hp)

/-- A page: nothing, or its rows are staged under the lease and agree with what is staged. -/
theorem ingest_some {contacts : List OpenWAContact}
    (h : ingestObservedPage c claim now contacts s = some u) :
    (contacts = [] ∧ u = s) ∨ ∃ owned, renewOwned claim now s = some owned ∧
      u = { owned with
        staged := (pageRows c.texts claim.generation now contacts).foldl
          (stageRow claim.generation) s.staged } ∧
      ∀ row ∈ pageRows c.texts claim.generation now contacts,
        ∃ o ∈ u.stagedOf claim.generation, Agrees o row := by
  unfold ingestObservedPage at h
  split at h
  · rename_i hempty
    cases h
    exact .inl ⟨hempty, rfl⟩
  · split at h
    · cases h
    · rename_i owned howned
      obtain ⟨hagree, rfl⟩ := guarded_eq_some.mp h
      obtain ⟨row, _, _, rfl⟩ := renewOwned_some howned
      exact .inr ⟨_, howned, rfl, hagree⟩

theorem mem_pageRows {texts : Texts} {generation : ℕ} {contacts : List OpenWAContact}
    {row : SnapshotObservation} (h : row ∈ pageRows texts generation now contacts) :
    PhoneFits row.identityType row.identityValue row.phone := by
  obtain ⟨contact, _, rfl⟩ := List.mem_map.mp h
  exact contactRow_fits _ contact

theorem ingest_fenced {contacts : List OpenWAContact} (h : Fenced s)
    (hu : ingestObservedPage c claim now contacts s = some u) : Fenced u := by
  rcases ingest_some hu with ⟨_, rfl⟩ | ⟨owned, howned, rfl, _⟩
  · exact h
  · have hrenewed := renew_fenced h howned
    obtain ⟨row, hrow, howns, rfl⟩ := renewOwned_some howned
    refine { hrenewed with staged := ?_ }
    intro p hp
    rcases mem_stageRows.1 hp with hp | ⟨hg, hp⟩
    · exact h.staged p hp
    · obtain ⟨r, hr, hrg, _⟩ := h.held row claim.leaseToken hrow howns.2.1
      exact ⟨⟨r, hr, hrg.trans (howns.1.trans hg.symm)⟩, mem_pageRows hp⟩

theorem begin_some {token : ℕ} {force : Bool} {resolved : Option ℕ}
    (h : begin_ c now token force resolved s = some u) :
    ∃ row gone, claimSync now token force s.sync = some row ∧
      u = { sync := some row
            generations := ((s.generations.map (expireGeneration now row.syncGeneration)).filter
              fun r => !(gone r.generation)) ++ [newGeneration now row.syncGeneration token]
            staged := s.staged.filter fun p => !(gone p.1)
            evidence := withoutGenerations gone s.evidence
            claims := s.claims ++ [⟨row.syncGeneration, token⟩] } := by
  unfold begin_ at h
  split at h
  · cases h
  · rename_i row hrow
    obtain ⟨_, rfl⟩ := guarded_eq_some.mp h
    exact ⟨row, deletedGenerations c.snapshotRetentionMs now
      (s.generations.map (expireGeneration now row.syncGeneration)) resolved, hrow, rfl⟩

theorem expire_generation (now newer : ℕ) (r : SnapshotGeneration) :
    (expireGeneration now newer r).generation = r.generation ∧
      (expireGeneration now newer r).leaseToken = r.leaseToken ∧
      (r.state ≠ .receiving → expireGeneration now newer r = r) ∧
      (r.generation < newer → (expireGeneration now newer r).state ≠ .receiving) := by
  unfold expireGeneration
  split
  · rename_i hreceiving
    exact ⟨rfl, rfl, fun hs => absurd hreceiving.1 hs, fun _ => by simp⟩
  · rename_i hkept
    exact ⟨rfl, rfl, fun _ => rfl, fun hlt hs => hkept ⟨hs, hlt⟩⟩

/-- The rows that `begin` keeps: each comes from a row before it, which is older. -/
theorem kept_generation {newer : ℕ} {gone : ℕ → Bool} {r : SnapshotGeneration}
    (h : r ∈ (s.generations.map (expireGeneration now newer)).filter fun r => !(gone r.generation)) :
    gone r.generation = false ∧ ∃ r₀ ∈ s.generations, r = expireGeneration now newer r₀ := by
  obtain ⟨hr, hkept⟩ := List.mem_filter.mp h
  obtain ⟨r₀, hr₀, rfl⟩ := List.mem_map.mp hr
  exact ⟨by simpa using hkept, r₀, hr₀, rfl⟩

theorem keeps_generation (now newer : ℕ) {gone : ℕ → Bool} {r : SnapshotGeneration}
    (hr : r ∈ s.generations) (hkept : gone r.generation = false) :
    expireGeneration now newer r ∈ (s.generations.map (expireGeneration now newer)).filter
      fun r => !(gone r.generation) := by
  refine List.mem_filter.mpr ⟨List.mem_map_of_mem hr, ?_⟩
  simp [(expire_generation now newer r).1, hkept]

theorem begin_fenced {token : ℕ} {force : Bool} {resolved : Option ℕ} (h : Fenced s)
    (hu : begin_ c now token force resolved s = some u) : Fenced u := by
  obtain ⟨row, gone, hrow, rfl⟩ := begin_some hu
  obtain ⟨hnext, htoken⟩ := claimSync_some hrow
  -- every earlier generation is older than the new one
  have holder : ∀ r ∈ (s.generations.map (expireGeneration now row.syncGeneration)).filter
      fun r => !(gone r.generation), r.generation < row.syncGeneration ∧ r.state ≠ .receiving ∧
        ⟨r.generation, r.leaseToken⟩ ∈ s.claims := by
    intro r hr
    obtain ⟨_, r₀, hr₀, rfl⟩ := kept_generation hr
    obtain ⟨hg, ht, _, hs⟩ := expire_generation now row.syncGeneration r₀
    have hbound := h.bounded r₀ hr₀
    refine ⟨by omega, hs (by omega), ?_⟩
    rw [hg, ht]
    exact h.issued r₀ hr₀
  have hpublished : ∀ r ∈ s.generations, gone r.generation = false → r.state = .published →
      r ∈ (s.generations.map (expireGeneration now row.syncGeneration)).filter
        fun r => !(gone r.generation) := by
    intro r hr hkept hs
    have hmem := keeps_generation now row.syncGeneration hr hkept
    rwa [(expire_generation now row.syncGeneration r).2.2.1 (by simp [hs])] at hmem
  constructor
  · rw [List.map_append, List.map_singleton]
    refine List.Nodup.append ?_ (List.nodup_singleton _) ?_
    · refine ((List.filter_sublist).map SnapshotGeneration.generation).nodup ?_
      rw [List.map_map]
      have hsame : SnapshotGeneration.generation ∘ expireGeneration now row.syncGeneration =
          SnapshotGeneration.generation := funext fun r => (expire_generation _ _ r).1
      rw [hsame]
      exact h.distinct
    · intro g hg hnew
      obtain ⟨r, hr, rfl⟩ := List.mem_map.mp hg
      have heq : r.generation = row.syncGeneration := List.mem_singleton.mp hnew
      have hlt := (holder r hr).1
      omega
  · intro r hr
    change r.generation ≤ row.syncGeneration
    rcases List.mem_append.mp hr with hr | hr
    · exact (holder r hr).1.le
    · rw [List.mem_singleton.mp hr]
      exact le_rfl
  · intro r hr hs
    rcases List.mem_append.mp hr with hr | hr
    · exact absurd hs (holder r hr).2.1
    · rw [List.mem_singleton.mp hr]
      exact ⟨row, rfl, rfl, htoken⟩
  · intro row' token' hrow' ht
    cases hrow'
    rw [htoken] at ht
    cases ht
    exact ⟨_, List.mem_append_right _ (List.mem_singleton_self _), rfl, rfl, rfl⟩
  · intro r hr
    rcases List.mem_append.mp hr with hr | hr
    · exact List.mem_append_left _ (holder r hr).2.2
    · rw [List.mem_singleton.mp hr]
      exact List.mem_append_right _ (List.mem_singleton_self _)
  · refine List.pairwise_append.mpr ⟨h.increasing, List.pairwise_singleton _ _, ?_⟩
    intro a ha b hb
    have hbound := h.claimed a ha
    rw [List.mem_singleton.mp hb]
    change a.generation < row.syncGeneration
    omega
  · intro claim hclaim
    change claim.generation ≤ row.syncGeneration
    rcases List.mem_append.mp hclaim with hclaim | hclaim
    · have hbound := h.claimed claim hclaim
      omega
    · rw [List.mem_singleton.mp hclaim]
  · intro p hp
    obtain ⟨hp, hkept⟩ := List.mem_filter.mp hp
    obtain ⟨⟨r, hr, hg⟩, hfits⟩ := h.staged p hp
    refine ⟨⟨_, List.mem_append_left _ (keeps_generation _ _ hr ?_),
      (expire_generation _ _ r).1.trans hg⟩, hfits⟩
    rw [hg]
    simpa using hkept
  · exact ⟨⟨h.sound.identified.ids, h.sound.identified.keys⟩, fun l hl =>
      h.sound.justified l (List.mem_filter.mp hl).1⟩
  · intro o ho g hg
    obtain ⟨ho, hkept⟩ := List.mem_filter.mp ho
    obtain ⟨r, hr, hrg, hs⟩ := h.observed o ho g hg
    refine ⟨r, List.mem_append_left _ (hpublished r hr ?_ hs), hrg, hs⟩
    rw [hrg]
    simpa [hg] using hkept
  · intro l hl g hg
    obtain ⟨hl, hkept⟩ := List.mem_filter.mp hl
    obtain ⟨r, hr, hrg, hs, hat⟩ := h.linked l hl g hg
    refine ⟨r, List.mem_append_left _ (hpublished r hr ?_ hs), hrg, hs, hat⟩
    rw [hrg]
    simpa [hg] using hkept

theorem complete_some {draw : IdentityKey → IdentityId} {records intervalMs : ℕ}
    (h : complete c draw claim now records intervalMs s = some u) :
    ∃ row evidence r, s.sync = some row ∧ Owns claim now row ∧ r ∈ s.generations ∧
      r.generation = claim.generation ∧ r.leaseToken = claim.leaseToken ∧ r.state = .receiving ∧
      (if c.evidenceEnabled then
        publishSnapshot draw now claim.generation (s.stagedOf claim.generation) s.evidence
      else some s.evidence) = some evidence ∧
      u = { s with
        sync := some (completeSync now records intervalMs row)
        generations := s.generations.map fun r => (publishGeneration claim now records
          (s.stagedOf claim.generation).length r).getD r
        evidence := evidence } := by
  unfold complete at h
  split at h
  · cases h
  · rename_i row hrow
    dsimp only at h
    split at h
    · cases h
    · rename_i evidence hevidence
      obtain ⟨⟨howns, r, hr, hpublish⟩, rfl⟩ := guarded_eq_some.mp h
      unfold publishGeneration at hpublish
      split at hpublish
      · rename_i hguard
        exact ⟨row, evidence, r, hrow, howns, hr, hguard.1, hguard.2.2, hguard.2.1, hevidence, rfl⟩
      · cases hpublish

/-- What the UPDATE of `complete` leaves of a generation. -/
theorem publish_generation (claim : SnapshotClaim) (now records staged : ℕ) (r : SnapshotGeneration) :
    ((publishGeneration claim now records staged r).getD r).generation = r.generation ∧
      ((publishGeneration claim now records staged r).getD r).leaseToken = r.leaseToken ∧
      ((r.generation = claim.generation ∧ r.state = .receiving ∧
          r.leaseToken = claim.leaseToken ∧
          ((publishGeneration claim now records staged r).getD r).state = .published ∧
          ((publishGeneration claim now records staged r).getD r).publishedAt = some now) ∨
        ¬ (r.generation = claim.generation ∧ r.state = .receiving ∧
          r.leaseToken = claim.leaseToken) ∧
          (publishGeneration claim now records staged r).getD r = r) := by
  unfold publishGeneration
  split
  · rename_i hguard
    exact ⟨rfl, rfl, .inl ⟨hguard.1, hguard.2.1, hguard.2.2, rfl, rfl⟩⟩
  · rename_i hguard
    exact ⟨rfl, rfl, .inr ⟨hguard, rfl⟩⟩

theorem mem_stagedOf {generation : ℕ} {o : SnapshotObservation} :
    o ∈ s.stagedOf generation ↔ (generation, o) ∈ s.staged := by
  unfold Snapshots.stagedOf
  simp only [List.mem_map, List.mem_filter, decide_eq_true_eq, Prod.exists]
  constructor
  · rintro ⟨g, _, ⟨hp, rfl⟩, rfl⟩
    exact hp
  · intro hp
    exact ⟨generation, o, ⟨hp, rfl⟩, rfl⟩

/-- The evidence after a completion: what there was, and rows of the published generation. -/
theorem complete_evidence {draw : IdentityKey → IdentityId} {evidence : EvidenceTables}
    (h : Fenced s)
    (he : (if c.evidenceEnabled then
      publishSnapshot draw now claim.generation (s.stagedOf claim.generation) s.evidence
    else some s.evidence) = some evidence) :
    Extends s.evidence evidence ∧ Sound evidence ∧ Adds (some claim.generation)
      (fun at_ => ∃ o ∈ s.stagedOf claim.generation, at_ = o.sourceObservedAt)
      s.evidence evidence := by
  split at he
  · refine publishSnapshot_spec he h.sound fun o ho => ?_
    exact (h.staged _ (mem_stagedOf.mp ho)).2
  · cases he
    exact ⟨extends_refl _, h.sound, ⟨fun _ ho => .inl ho, fun _ hl => .inl hl⟩⟩

theorem complete_fenced {draw : IdentityKey → IdentityId} {records intervalMs : ℕ} (h : Fenced s)
    (hstaged : ∀ o ∈ s.stagedOf claim.generation, o.sourceObservedAt ≤ now)
    (hu : complete c draw claim now records intervalMs s = some u) : Fenced u := by
  obtain ⟨row, evidence, r₁, hrow, howns, hr₁, hg₁, ht₁, hs₁, hevidence, rfl⟩ := complete_some hu
  obtain ⟨hext, hsound, hadds⟩ := complete_evidence h hevidence
  have hlast : ∀ generations evidence, ({ s with
      sync := some (completeSync now records intervalMs row)
      generations := generations
      evidence := evidence } : Snapshots).lastGeneration = s.lastGeneration := by
    intro generations evidence
    simp [Snapshots.lastGeneration, hrow, completeSync]
  have hpublish := publish_generation claim now records
    (s.stagedOf claim.generation).length
  have hpublished : ∀ r ∈ s.generations, r.state = .published →
      r ∈ s.generations.map fun r => (publishGeneration claim now records
        (s.stagedOf claim.generation).length r).getD r := by
    intro r hr hs
    refine List.mem_map.mpr ⟨r, hr, ?_⟩
    rcases (hpublish r).2.2 with ⟨_, hreceiving, _⟩ | ⟨_, hsame⟩
    · rw [hs] at hreceiving
      cases hreceiving
    · exact hsame
  -- the row of the claim is the one that is published
  have hnew : ∃ r ∈ s.generations.map fun r => (publishGeneration claim now records
      (s.stagedOf claim.generation).length r).getD r,
      r.generation = claim.generation ∧ r.state = .published ∧ r.publishedAt = some now := by
    refine ⟨_, List.mem_map_of_mem hr₁, (hpublish r₁).1.trans hg₁, ?_⟩
    rcases (hpublish r₁).2.2 with ⟨_, _, _, hs, hat⟩ | ⟨hno, _⟩
    · exact ⟨hs, hat⟩
    · exact absurd ⟨hg₁, hs₁, ht₁⟩ hno
  constructor
  · rw [List.map_map]
    have hsame : SnapshotGeneration.generation ∘ (fun r => (publishGeneration claim now records
        (s.stagedOf claim.generation).length r).getD r) = SnapshotGeneration.generation :=
      funext fun r => (hpublish r).1
    rw [hsame]
    exact h.distinct
  · intro r hr
    obtain ⟨r₀, hr₀, rfl⟩ := List.mem_map.mp hr
    rw [hlast, (hpublish r₀).1]
    exact h.bounded r₀ hr₀
  · intro r hr hs
    obtain ⟨r₀, hr₀, rfl⟩ := List.mem_map.mp hr
    rcases (hpublish r₀).2.2 with ⟨_, _, _, hs', _⟩ | ⟨hno, hsame⟩
    · rw [hs] at hs'
      cases hs'
    · rw [hsame] at hs
      obtain ⟨row', hrow', hg, ht⟩ := h.receiving r₀ hr₀ hs
      rw [hrow] at hrow'
      cases hrow'
      refine absurd ⟨hg.symm.trans howns.1, hs, ?_⟩ hno
      exact Option.some.inj (ht.symm.trans howns.2.1)
  · intro row' token hrow' ht
    cases hrow'
    cases ht
  · intro r hr
    obtain ⟨r₀, hr₀, rfl⟩ := List.mem_map.mp hr
    rw [(hpublish r₀).1, (hpublish r₀).2.1]
    exact h.issued r₀ hr₀
  · exact h.increasing
  · intro claim hclaim
    rw [hlast]
    exact h.claimed claim hclaim
  · intro p hp
    obtain ⟨⟨r, hr, hg⟩, hfits⟩ := h.staged p hp
    exact ⟨⟨_, List.mem_map_of_mem hr, (hpublish r).1.trans hg⟩, hfits⟩
  · exact hsound
  · intro o ho g hg
    rcases hadds.observations o ho with ho | ho
    · obtain ⟨r, hr, hrg, hs⟩ := h.observed o ho g hg
      exact ⟨r, hpublished r hr hs, hrg, hs⟩
    · obtain ⟨r, hr, hrg, hs, _⟩ := hnew
      rw [ho] at hg
      exact ⟨r, hr, hrg.trans (Option.some.inj hg), hs⟩
  · intro l hl g hg
    rcases hadds.links l hl with hl | ⟨hl, o, ho, hat⟩
    · obtain ⟨r, hr, hrg, hs, hat⟩ := h.linked l hl g hg
      exact ⟨r, hpublished r hr hs, hrg, hs, hat⟩
    · obtain ⟨r, hr, hrg, hs, hpub⟩ := hnew
      rw [hl] at hg
      exact ⟨r, hr, hrg.trans (Option.some.inj hg), hs, now, hpub, hat ▸ hstaged o ho⟩

/-- What the UPDATE of `fail` leaves of a generation. -/
theorem fail_generation (claim : SnapshotClaim) (now : ℕ) (code : String) (r : SnapshotGeneration) :
    (failGeneration claim now code r).generation = r.generation ∧
      (failGeneration claim now code r).leaseToken = r.leaseToken ∧
      ((r.generation = claim.generation ∧ r.leaseToken = claim.leaseToken ∧
          r.state = .receiving ∧ (failGeneration claim now code r).state = .failed) ∨
        ¬ (r.generation = claim.generation ∧ r.leaseToken = claim.leaseToken ∧
          r.state = .receiving) ∧ failGeneration claim now code r = r) := by
  unfold failGeneration
  split
  · rename_i hguard
    exact ⟨rfl, rfl, .inl ⟨hguard.1, hguard.2.1, hguard.2.2, rfl⟩⟩
  · rename_i hguard
    exact ⟨rfl, rfl, .inr ⟨hguard, rfl⟩⟩

theorem fail_fenced (h : Fenced s) (code : String) : Fenced (fail claim now code s) := by
  have hfail := fail_generation claim now code
  have hlast : (fail claim now code s).lastGeneration = s.lastGeneration := by
    unfold Snapshots.lastGeneration fail
    cases s.sync with
    | none => rfl
    | some row =>
      simp only [Option.map_some, Option.getD_some, failSync]
      split <;> rfl
  have hpublished : ∀ r ∈ s.generations, r.state = .published →
      r ∈ (fail claim now code s).generations := by
    intro r hr hs
    refine List.mem_map.mpr ⟨r, hr, ?_⟩
    rcases (hfail r).2.2 with ⟨_, _, hreceiving, _⟩ | ⟨_, hsame⟩
    · rw [hs] at hreceiving
      cases hreceiving
    · exact hsame
  constructor
  · change ((s.generations.map (failGeneration claim now code)).map _).Nodup
    rw [List.map_map]
    have hsame : SnapshotGeneration.generation ∘ failGeneration claim now code =
        SnapshotGeneration.generation := funext fun r => (hfail r).1
    rw [hsame]
    exact h.distinct
  · intro r hr
    obtain ⟨r₀, hr₀, rfl⟩ := List.mem_map.mp hr
    rw [hlast, (hfail r₀).1]
    exact h.bounded r₀ hr₀
  · intro r hr hs
    obtain ⟨r₀, hr₀, rfl⟩ := List.mem_map.mp hr
    rcases (hfail r₀).2.2 with ⟨_, _, _, hs'⟩ | ⟨hno, hsame⟩
    · rw [hs] at hs'
      cases hs'
    · rw [hsame] at hs ⊢
      obtain ⟨row, hrow, hg, ht⟩ := h.receiving r₀ hr₀ hs
      have hother : ¬ (row.syncGeneration = claim.generation ∧
          row.leaseToken = some claim.leaseToken) := by
        rintro ⟨hg', ht'⟩
        exact hno ⟨hg.symm.trans hg', Option.some.inj (ht.symm.trans ht'), hs⟩
      refine ⟨row, ?_, hg, ht⟩
      simp [fail, hrow, failSync, hother]
  · intro row token hrow ht
    obtain ⟨row₀, hrow₀, rfl⟩ := Option.map_eq_some_iff.mp hrow
    unfold failSync at ht ⊢
    split at ht
    · cases ht
    · rename_i hother
      obtain ⟨r, hr, hg, hrt, hs⟩ := h.held row₀ token hrow₀ ht
      rw [if_neg hother]
      refine ⟨r, List.mem_map.mpr ⟨r, hr, ?_⟩, hg, hrt, hs⟩
      rcases (hfail r).2.2 with ⟨hg', ht', _⟩ | ⟨_, hsame⟩
      · refine absurd ⟨hg.symm.trans hg', ?_⟩ hother
        rw [ht, ← hrt, ht']
      · exact hsame
  · intro r hr
    obtain ⟨r₀, hr₀, rfl⟩ := List.mem_map.mp hr
    rw [(hfail r₀).1, (hfail r₀).2.1]
    exact h.issued r₀ hr₀
  · exact h.increasing
  · intro claim hclaim
    rw [hlast]
    exact h.claimed claim hclaim
  · intro p hp
    obtain ⟨⟨r, hr, hg⟩, hfits⟩ := h.staged p hp
    exact ⟨⟨_, List.mem_map_of_mem hr, (hfail r).1.trans hg⟩, hfits⟩
  · exact h.sound
  · intro o ho g hg
    obtain ⟨r, hr, hrg, hs⟩ := h.observed o ho g hg
    exact ⟨r, hpublished r hr hs, hrg, hs⟩
  · intro l hl g hg
    obtain ⟨r, hr, hrg, hs, hat⟩ := h.linked l hl g hg
    exact ⟨r, hpublished r hr hs, hrg, hs, hat⟩

/-- Groups and messages add evidence that belongs to no generation. -/
theorem evidence_fenced {evidence : EvidenceTables} {times : ℕ → Prop} (h : Fenced s)
    (hsound : Sound evidence) (hadds : Adds none times s.evidence evidence) :
    Fenced { s with evidence := evidence } := by
  refine { h with sound := hsound, observed := ?_, linked := ?_ }
  · intro o ho g hg
    rcases hadds.observations o ho with ho | ho
    · exact h.observed o ho g hg
    · rw [ho] at hg
      cases hg
  · intro l hl g hg
    rcases hadds.links l hl with hl | ⟨hl, _⟩
    · exact h.linked l hl g hg
    · rw [hl] at hg
      cases hg

/-- A call that observes a group or a message writes nothing, or evidence of no generation. -/
theorem observe_some {call : Call} (h : Fenced s) (hu : run c s call = some u)
    (hcall : (∃ draw now groupId participants,
        call = .observeGroupMembers draw now groupId participants) ∨
      ∃ draw now rawIdentity rawPushName observedAt key,
        call = .observeMessageSender draw now rawIdentity rawPushName observedAt key) :
    ∃ evidence, u = { s with evidence := evidence } ∧ Extends s.evidence evidence ∧
      Sound evidence ∧ Adds none (fun _ => True) s.evidence evidence := by
  have hsame : Extends s.evidence s.evidence ∧ Sound s.evidence ∧
      Adds none (fun _ => True) s.evidence s.evidence :=
    ⟨extends_refl _, h.sound, ⟨fun _ ho => .inl ho, fun _ hl => .inl hl⟩⟩
  rcases hcall with ⟨draw, now, groupId, participants, rfl⟩ | ⟨draw, now, raw, push, at_, key, rfl⟩
  · simp only [run] at hu
    split at hu
    · obtain ⟨evidence, hevidence, rfl⟩ := Option.map_eq_some_iff.mp hu
      refine ⟨evidence, rfl, observeGroupMembers_spec hevidence h.sound ?_⟩
      intro input hinput
      obtain ⟨participant, _, rfl⟩ := List.mem_map.mp hinput
      exact normalized_fits participant.1
    · cases hu
      exact ⟨s.evidence, rfl, hsame⟩
  · simp only [run] at hu
    split at hu
    · cases hu
      exact ⟨s.evidence, rfl, hsame⟩
    · rename_i input pushName hinput
      split at hu
      · obtain ⟨evidence, hevidence, rfl⟩ := Option.map_eq_some_iff.mp hu
        refine ⟨evidence, rfl, observeMessageSender_spec hevidence h.sound ?_⟩
        unfold senderInput at hinput
        dsimp only at hinput
        split at hinput
        · cases hinput
        · obtain ⟨_, _, heq⟩ := Option.map_eq_some_iff.mp hinput
          cases heq
          exact normalized_fits raw
      · cases hu
        exact ⟨s.evidence, rfl, hsame⟩

theorem run_fenced {call : Call} (h : Fenced s) (ha : Allowed s call)
    (hu : run c s call = some u) : Fenced u := by
  cases call with
  | begin_ now token force resolved => exact begin_fenced h hu
  | ingestObservedPage claim now contacts => exact ingest_fenced h hu
  | reconcileObservedIdentities claim now => exact renew_fenced h hu
  | complete draw claim now records intervalMs => exact complete_fenced h ha.2 hu
  | fail claim now code =>
    cases hu
    exact fail_fenced h code
  | observeGroupMembers draw now groupId participants =>
    obtain ⟨evidence, rfl, _, hsound, hadds⟩ := observe_some h hu (.inl ⟨_, _, _, _, rfl⟩)
    exact evidence_fenced h hsound hadds
  | observeMessageSender draw now rawIdentity rawPushName observedAt key =>
    obtain ⟨evidence, rfl, _, hsound, hadds⟩ := observe_some h hu (.inr ⟨_, _, _, _, _, _, rfl⟩)
    exact evidence_fenced h hsound hadds

end Rows

section Runs

variable {c : Config} {s u : State} {e : Event} {session : SessionId}

/-- The calls for one session, oldest first. -/
def callsOf (session : SessionId) (es : List Event) : List Call :=
  es.filterMap fun e => match e with
    | .call k call => if k = session then some call else none
    | .tick _ => none

theorem callsOf_append (es fs : List Event) :
    callsOf session (es ++ fs) = callsOf session es ++ callsOf session fs :=
  List.filterMap_append ..

/-- A step leaves the rows of a session alone, or it is a call for that session. -/
theorem step_cases (session : SessionId) (h : step c s e = some u) :
    (u.sessions session = s.sessions session ∧ callsOf session [e] = []) ∨
      ∃ call, e = .call session call ∧ callsOf session [e] = [call] ∧
        Allowed (s.sessions session) call ∧
        run c (s.sessions session) call = some (u.sessions session) := by
  cases e with
  | tick clock =>
    obtain ⟨_, rfl⟩ := guarded_eq_some.mp h
    exact .inl ⟨rfl, rfl⟩
  | call k call =>
    simp only [step] at h
    split at h
    · cases h
    · rename_i new hnew
      obtain ⟨⟨_, ha⟩, rfl⟩ := guarded_eq_some.mp h
      by_cases hk : k = session
      · subst hk
        refine .inr ⟨call, rfl, by simp [callsOf], ha, ?_⟩
        simpa using hnew
      · refine .inl ⟨Function.update_of_ne (Ne.symm hk) _ _, ?_⟩
        simp [callsOf, hk]

theorem reachable_fenced (h : Reachable (system c) s) (session : SessionId) :
    Fenced (s.sessions session) := by
  refine reachable_invariant (M := system c) (I := fun s => Fenced (s.sessions session)) ?_
    (fun s e hI he => ?_) h
  · rintro _ rfl
    exact fenced_empty
  · unfold system
    rcases step_cases session (ofStep_enabled he) with ⟨hsame, _⟩ | ⟨call, _, _, ha, hrun⟩
    · rw [hsame]
      exact hI
    · exact run_fenced hI ha hrun

end Runs

end ContactSnapshots
