import WaRuntime.ContactResolution
import WaRuntime.ContactSnapshots

/-! The clusters that the resolver makes of the evidence of a generation.
Above the tables, evidence is a relation between the keys of identities; the resolver's answer is
a function of it, and the way in which the writers produce evidence makes the answer safe. -/
namespace ContactClusters

open TransitionRuns RecursiveQuery ContactNormalization ContactEvidence ContactSnapshots
open ContactResolution

/-- Which identities have been observed, and which are linked with which phones. -/
@[ext] structure Evidence where
  observed : IdentityKey → Prop
  link : IdentityKey → IdentityKey → EvidenceSource → Prop

section Abstract

variable (ev : Evidence)

/-- The evidence names two phones for an identity. -/
def Evidence.MultiplePhones (k : IdentityKey) : Prop :=
  ∃ p q source source', ev.link k p source ∧ ev.link k q source' ∧ p ≠ q

def Evidence.Claims (k p : IdentityKey) : Prop := ev.link k p .openwaContactPhone

/-- Two identities that are no phone JIDs claim a phone. -/
def Evidence.Shared (p : IdentityKey) : Prop :=
  ∃ k l, k ≠ l ∧ ev.Claims k p ∧ ev.Claims l p ∧ k.1 ≠ .phoneJid ∧ l.1 ≠ .phoneJid

def Evidence.Conflicted (k : IdentityKey) : Prop :=
  ev.MultiplePhones k ∨ ∃ p, ev.Claims k p ∧ ev.Shared p

def Evidence.Eligible (k p : IdentityKey) : Prop :=
  ∃ source, ev.link k p source ∧ (source = .phoneJidDerivation ∨ ¬ ev.Conflicted k)

def Evidence.Connected : IdentityKey → IdentityKey → Prop := Relation.EqvGen ev.Eligible

def Evidence.Assigned (k : IdentityKey) : Prop := ∃ root, ev.observed root ∧ ev.Connected root k

/-- The phone is the only one of the cluster. -/
def Evidence.HasPhone (k : IdentityKey) (phone : String) : Prop :=
  ¬ ev.Conflicted k ∧ ∀ value, ev.Connected k (.phone, value) ↔ value = phone

/-- What the writers make sure of. -/
structure Evidence.Written : Prop where
  right : ∀ k p source, ev.link k p source → p.1 = .phone
  derived : ∀ k p, ev.link k p .phoneJidDerivation → k.1 = .phoneJid ∧ k.2 = p.2 ++ "@c.us"
  claimed : ∀ k p, ev.Claims k p → k.1 = .lid ∧ ev.observed k

variable {ev}

theorem derived_unique {v w : String} (h : v ++ "@c.us" = w ++ "@c.us") : v = w := by
  have hlists := congrArg String.toList h
  rw [String.toList_append, String.toList_append] at hlists
  exact String.toList_injective (List.append_cancel_right hlists)

/-- A phone JID has the phone it carries, so only contacts can name two. -/
theorem conflicted_lid (h : ev.Written) {k : IdentityKey} (hk : ev.Conflicted k) :
    k.1 = .lid ∧ ev.observed k := by
  rcases hk with ⟨p, q, source, source', hp, hq, hne⟩ | ⟨p, hp, _⟩
  · cases source with
    | openwaContactPhone => exact h.claimed k p hp
    | phoneJidDerivation =>
      cases source' with
      | openwaContactPhone => exact h.claimed k q hq
      | phoneJidDerivation =>
        have hsame : p.2 = q.2 :=
          derived_unique ((h.derived k p hp).2.symm.trans (h.derived k q hq).2)
        have htype : p.1 = q.1 := (h.right k p _ hp).trans (h.right k q _ hq).symm
        exact absurd (Prod.ext htype hsame) hne
  · exact h.claimed k p hp

theorem eligible_stars (h : ev.Written) : Stars ev.Eligible := by
  constructor
  · rintro k p q ⟨source, hp, hsource⟩ ⟨source', hq, hsource'⟩
    by_contra hne
    have hconflicted : ev.Conflicted k := .inl ⟨p, q, source, source', hp, hq, hne⟩
    have hlid := (conflicted_lid h hconflicted).1
    rcases hsource with rfl | hnot
    · have hjid := (h.derived k p hp).1
      rw [hlid] at hjid
      cases hjid
    · exact hnot hconflicted
  · rintro k p q ⟨source, hp, _⟩ ⟨source', hq, _⟩
    have hphone := h.right k p source hp
    cases source' with
    | phoneJidDerivation =>
      have hjid := (h.derived p q hq).1
      rw [hphone] at hjid
      cases hjid
    | openwaContactPhone =>
      have hlid := (h.claimed p q hq).1
      rw [hphone] at hlid
      cases hlid

/-- A phone has no edge of its own. -/
theorem phone_final (h : ev.Written) {k p : IdentityKey} (hk : k.1 = .phone) :
    ¬ ev.Eligible k p := by
  rintro ⟨source, hlink, _⟩
  cases source with
  | phoneJidDerivation =>
    have hjid := (h.derived k p hlink).1
    rw [hk] at hjid
    cases hjid
  | openwaContactPhone =>
    have hlid := (h.claimed k p hlink).1
    rw [hk] at hlid
    cases hlid

theorem one_phone (h : ev.Written) {k l : IdentityKey} (hkl : ev.Connected k l)
    (hk : k.1 = .phone) (hl : l.1 = .phone) : k = l :=
  connected_ends (eligible_stars h) hkl (fun _ => phone_final h hk) (fun _ => phone_final h hl)

/-- Of the identities that are neither phones nor phone JIDs, at most one is not conflicted. -/
theorem one_alias (h : ev.Written) {k l : IdentityKey} (hkl : ev.Connected k l)
    (hk : k.1 ≠ .phone ∧ k.1 ≠ .phoneJid) (hl : l.1 ≠ .phone ∧ l.1 ≠ .phoneJid)
    (hck : ¬ ev.Conflicted k) : k = l := by
  have hclaim : ∀ k p, k.1 ≠ .phoneJid → ev.Eligible k p → ev.Claims k p := by
    rintro k p hjid ⟨source, hlink, _⟩
    cases source with
    | phoneJidDerivation => exact absurd (h.derived k p hlink).1 hjid
    | openwaContactPhone => exact hlink
  rcases connected_cases (eligible_stars h) hkl with heq | hedge | hedge | ⟨p, hkp, hlp⟩
  · exact heq
  · obtain ⟨source, hlink, _⟩ := hedge
    exact absurd (h.right k l source hlink) hl.1
  · obtain ⟨source, hlink, _⟩ := hedge
    exact absurd (h.right l k source hlink) hk.1
  · by_contra hne
    have hkp := hclaim k p hk.2 hkp
    have hlp := hclaim l p hl.2 hlp
    exact hck (.inr ⟨p, hkp, k, l, hne, hkp, hlp, hk.2, hl.2⟩)

end Abstract

section Reads

variable {c : Config} {s u : State} {session : SessionId} {run : ResolutionRun} {r : Reads}

/-- The generation of the run is published, and the cutoff is when. -/
def Published (s : Snapshots) (run : ResolutionRun) : Prop :=
  ∃ g ∈ s.generations, g.generation = run.sourceGeneration ∧ g.state = .published ∧
    g.publishedAt = some run.evidenceCutoffAt

/-- The statements of the run read what later and later states of the session have. -/
def ReadBy (c : Config) (session : SessionId) (run : ResolutionRun) (r : Reads) : Prop :=
  ∃ s₁ s₂ s₃ s₄ s₅ es₂ es₃ es₄ es₅, Reachable (system c) s₁ ∧
    Published (s₁.sessions session) run ∧ Execution (system c) s₁ es₂ s₂ ∧
    Execution (system c) s₂ es₃ s₃ ∧ Execution (system c) s₃ es₄ s₄ ∧
    Execution (system c) s₄ es₅ s₅ ∧
    r = ⟨(s₁.sessions session).evidence, (s₂.sessions session).evidence,
      (s₃.sessions session).evidence, (s₄.sessions session).evidence,
      (s₅.sessions session).evidence⟩

/-- What the reads of a run have to do with each other. -/
structure Consistent (run : ResolutionRun) (r : Reads) : Prop where
  candidates : Sound r.candidates
  components : Identified r.components
  clusters : Identified r.clusters
  conflicts_extend : Extends r.candidates r.conflicts
  conflicts : Identified r.conflicts
  components_extend : Extends r.candidates r.components
  clusters_extend : Extends r.components r.clusters
  conflicts_clusters : Extends r.conflicts r.clusters
  timely : ∀ l ∈ r.candidates.links, l.sourceGeneration = some run.sourceGeneration →
    l.sourceObservedAt ≤ run.evidenceCutoffAt

theorem run_extends {v w : Snapshots} {call : Call} (hf : Fenced v)
    (hu : ContactSnapshots.run c v call = some w) : Extends v.evidence w.evidence := by
  cases call with
  | begin_ now token force resolved =>
    obtain ⟨row, gone, _, rfl⟩ := begin_some hu
    exact fun i hi => ⟨i, hi, rfl, rfl, le_rfl⟩
  | ingestObservedPage claim now contacts =>
    rcases ingest_some hu with ⟨_, rfl⟩ | ⟨owned, howned, rfl, _⟩
    · exact extends_refl _
    · obtain ⟨row, _, _, rfl⟩ := renewOwned_some howned
      exact extends_refl _
  | reconcileObservedIdentities claim now =>
    obtain ⟨row, _, _, rfl⟩ := renewOwned_some hu
    exact extends_refl _
  | complete draw claim now records intervalMs =>
    obtain ⟨row, evidence, _, _, _, _, _, _, _, hevidence, rfl⟩ := complete_some hu
    exact (complete_evidence hf hevidence).1
  | fail claim now code =>
    cases hu
    exact extends_refl _
  | observeGroupMembers draw now groupId participants =>
    obtain ⟨evidence, rfl, hext, _⟩ := observe_some hf hu (.inl ⟨_, _, _, _, rfl⟩)
    exact hext
  | observeMessageSender draw now rawIdentity rawPushName observedAt key =>
    obtain ⟨evidence, rfl, hext, _⟩ := observe_some hf hu (.inr ⟨_, _, _, _, _, _, rfl⟩)
    exact hext

theorem evidence_extends (session : SessionId) {es : List Event} (h : Reachable (system c) s)
    (hx : Execution (system c) s es u) :
    Extends (s.sessions session).evidence (u.sessions session).evidence := by
  induction hx with
  | refl => exact extends_refl _
  | @step es v e hx he ih =>
    refine extends_trans ih ?_
    unfold system
    rcases step_cases session (ofStep_enabled he) with ⟨hsame, _⟩ | ⟨call, _, _, _, hrun⟩
    · rw [hsame]
      exact extends_refl _
    · exact run_extends (reachable_fenced (h.extend hx) session) hrun

theorem read_consistent (h : ReadBy c session run r) : Consistent run r := by
  obtain ⟨s₁, s₂, s₃, s₄, s₅, es₂, es₃, es₄, es₅, h₁, ⟨g, hg, hgen, hs, hat⟩, hx₂, hx₃, hx₄, hx₅,
    rfl⟩ := h
  have h₂ := h₁.extend hx₂
  have h₃ := h₂.extend hx₃
  have h₄ := h₃.extend hx₄
  have hext₂ := evidence_extends session h₁ hx₂
  have hext₃ := evidence_extends session h₂ hx₃
  have hext₄ := evidence_extends session h₃ hx₄
  have hf := reachable_fenced h₁ session
  refine ⟨hf.sound, (reachable_fenced h₃ session).sound.identified,
    (reachable_fenced h₄ session).sound.identified, hext₂,
    (reachable_fenced h₂ session).sound.identified, extends_trans hext₂ hext₃, hext₄,
    extends_trans hext₃ hext₄, ?_⟩
  intro l hl hlg
  obtain ⟨g', hg', hgen', _, at_, hat', hle⟩ := hf.linked l hl _ hlg
  obtain rfl : g' = g := generation_unique hf hg' hg (hgen'.trans hgen.symm)
  rw [hat] at hat'
  cases hat'
  exact hle

end Reads

section Refinement

variable {run : ResolutionRun} {r : Reads} {id : IdentityId} {k l p : IdentityKey}

/-- The identity with an id and a key. -/
def Names (t : EvidenceTables) (id : IdentityId) (k : IdentityKey) : Prop :=
  ∃ i ∈ t.identities, i.id = id ∧ i.key = k

/-- What a run reads, said of the keys of the identities. -/
def evidenceOf (run : ResolutionRun) (r : Reads) : Evidence where
  observed k := ∃ i ∈ r.components.identities,
    i.firstObservedAt ≤ run.evidenceCutoffAt ∧ i.key = k
  link k p source := ∃ l ∈ r.candidates.links, Candidate run l ∧ l.evidenceSource = source ∧
    Names r.candidates l.leftIdentityId k ∧ Names r.candidates l.rightIdentityId p

theorem names_extend {t u : EvidenceTables} (h : Extends t u) (hid : Names t id k) :
    Names u id k := by
  obtain ⟨i, hi, rfl, rfl⟩ := hid
  obtain ⟨j, hj, hji, hjk, _⟩ := h i hi
  exact ⟨j, hj, hji, hjk⟩

theorem names_key {t : EvidenceTables} (h : Identified t) (hk : Names t id k)
    (hl : Names t id l) : k = l := by
  obtain ⟨i, hi, hid, rfl⟩ := hk
  obtain ⟨j, hj, hjd, rfl⟩ := hl
  rw [identified_id h hi hj (hid.trans hjd.symm)]

theorem names_id {t : EvidenceTables} {id' : IdentityId} (h : Identified t) (hid : Names t id k)
    (hid' : Names t id' k) : id = id' := by
  obtain ⟨i, hi, rfl, hk⟩ := hid
  obtain ⟨j, hj, rfl, hk'⟩ := hid'
  rw [identified_key h hi hj (hk.trans hk'.symm)]

theorem evidence_written (h : Consistent run r) : (evidenceOf run r).Written := by
  have hreason : ∀ k p source, (evidenceOf run r).link k p source → p.1 = .phone ∧
      (source = .phoneJidDerivation → k.1 = .phoneJid ∧ k.2 = p.2 ++ "@c.us") ∧
      (source = .openwaContactPhone → k.1 = .lid ∧ (evidenceOf run r).observed k) := by
    rintro k p source ⟨l, hl, hcandidate, rfl, hk, hp⟩
    obtain ⟨i, hi, j, hj, hleft, hright, hphone, hsource⟩ := h.candidates.justified l hl
    have hik : i.key = k := names_key h.candidates.identified ⟨i, hi, hleft, rfl⟩ hk
    have hjp : j.key = p := names_key h.candidates.identified ⟨j, hj, hright, rfl⟩ hp
    subst hik
    subst hjp
    refine ⟨hphone, ?_⟩
    cases hcase : l.evidenceSource with
    | phoneJidDerivation =>
      simp only [hcase] at hsource
      exact ⟨fun _ => hsource, fun h => (by cases h)⟩
    | openwaContactPhone =>
      refine ⟨fun h => (by cases h), fun _ => ?_⟩
      simp only [hcase] at hsource
      obtain ⟨hlid, hgeneration, hfirst⟩ := hsource
      obtain ⟨i', hi', _, hkey, hearlier⟩ := h.components_extend i hi
      rcases hcandidate with hg | ⟨hg, _⟩
      · have hcut := h.timely l hl hg
        exact ⟨hlid, i', hi', hearlier.trans (hfirst.trans hcut), hkey⟩
      · exact absurd hg hgeneration
  constructor
  · exact fun k p source hlink => (hreason k p source hlink).1
  · exact fun k p hlink => (hreason k p _ hlink).2.1 rfl
  · exact fun k p hlink => (hreason k p _ hlink).2.2 rfl

/-- An edge candidate is a link of the evidence, whatever table the ids are looked up in. -/
theorem candidate_linked (h : Consistent run r) {candidate : EdgeCandidate}
    (hmem : candidate ∈ r.edges run) : ∃ k p, Names r.candidates candidate.left k ∧
      Names r.candidates candidate.right p ∧ (evidenceOf run r).link k p candidate.source := by
  obtain ⟨l, hl, hcandidate, rfl⟩ := mem_edgeCandidates.mp hmem
  obtain ⟨i, hi, j, hj, hleft, hright, _⟩ := h.candidates.justified l hl
  exact ⟨i.key, j.key, ⟨i, hi, hleft, rfl⟩, ⟨j, hj, hright, rfl⟩, l, hl, hcandidate, rfl,
    ⟨i, hi, hleft, rfl⟩, ⟨j, hj, hright, rfl⟩⟩

theorem linked_candidate {source : EvidenceSource} (hlink : (evidenceOf run r).link k p source) :
    ∃ candidate ∈ r.edges run, Names r.candidates candidate.left k ∧
      Names r.candidates candidate.right p ∧ candidate.source = source := by
  obtain ⟨l, hl, hcandidate, rfl, hk, hp⟩ := hlink
  exact ⟨_, mem_edgeCandidates.mpr ⟨l, hl, hcandidate, rfl⟩, hk, hp, rfl⟩

theorem candidates_extend (h : Consistent run r) : Extends r.candidates r.clusters :=
  extends_trans h.components_extend h.clusters_extend

theorem multiple_iff (h : Consistent run r) (hid : Names r.clusters id k) :
    (∃ a ∈ r.edges run, ∃ b ∈ r.edges run, a.left = id ∧ b.left = id ∧ a.right ≠ b.right) ↔
      (evidenceOf run r).MultiplePhones k := by
  have hext := candidates_extend h
  constructor
  · rintro ⟨a, ha, b, hb, rfl, hleft, hne⟩
    obtain ⟨k₁, p, hk₁, hp, hlink⟩ := candidate_linked h ha
    obtain ⟨k₂, q, hk₂, hq, hlink'⟩ := candidate_linked h hb
    obtain rfl := names_key h.clusters (names_extend hext hk₁) hid
    rw [hleft] at hk₂
    obtain rfl := names_key h.clusters (names_extend hext hk₂) hid
    refine ⟨p, q, _, _, hlink, hlink', ?_⟩
    rintro rfl
    exact hne (names_id h.candidates.identified hp hq)
  · rintro ⟨p, q, source, source', hp, hq, hne⟩
    obtain ⟨a, ha, hak, hap, _⟩ := linked_candidate hp
    obtain ⟨b, hb, hbk, hbq, _⟩ := linked_candidate hq
    refine ⟨a, ha, b, hb, names_id h.clusters (names_extend hext hak) hid,
      names_id h.clusters (names_extend hext hbk) hid, ?_⟩
    intro heq
    rw [heq] at hap
    exact hne (names_key h.candidates.identified hap hbq)

theorem shared_iff (h : Consistent run r) (hid : Names r.clusters id p) :
    sharedPhone r.conflicts (r.edges run) id ↔ (evidenceOf run r).Shared p := by
  have hext := candidates_extend h
  -- the join finds the type of a left identity
  have htype : ∀ {candidate k}, Names r.candidates candidate k →
      ((∃ i ∈ r.conflicts.identities, i.id = candidate ∧ i.type ≠ .phoneJid) ↔
        k.1 ≠ .phoneJid) := by
    intro candidate k hk
    obtain ⟨j, hj, hjd, hjk⟩ := names_extend h.conflicts_extend hk
    constructor
    · rintro ⟨i, hi, hi', hne⟩
      rw [identified_id h.conflicts hi hj (hi'.trans hjd.symm)] at hne
      rw [← hjk]
      exact hne
    · intro hne
      rw [← hjk] at hne
      exact ⟨j, hj, hjd, hne⟩
  rw [sharedPhone_iff]
  constructor
  · rintro ⟨a, ha, b, hb, rfl, hright, ⟨hsource, hjoin⟩, ⟨hsource', hjoin'⟩, hne⟩
    obtain ⟨k, q, hk, hq, hlink⟩ := candidate_linked h ha
    obtain ⟨l, q', hl, hq', hlink'⟩ := candidate_linked h hb
    obtain rfl := names_key h.clusters (names_extend hext hq) hid
    rw [hright] at hq'
    obtain rfl := names_key h.clusters (names_extend hext hq') hid
    rw [hsource] at hlink
    rw [hsource'] at hlink'
    refine ⟨k, l, ?_, hlink, hlink', (htype hk).mp hjoin, (htype hl).mp hjoin'⟩
    rintro rfl
    exact hne (names_id h.candidates.identified hk hl)
  · rintro ⟨k, l, hne, hlink, hlink', hk, hl⟩
    obtain ⟨a, ha, hak, hap, hsource⟩ := linked_candidate hlink
    obtain ⟨b, hb, hbl, hbp, hsource'⟩ := linked_candidate hlink'
    refine ⟨a, ha, b, hb, names_id h.clusters (names_extend hext hap) hid,
      names_id h.clusters (names_extend hext hbp) hid, ⟨hsource, (htype hak).mpr hk⟩,
      ⟨hsource', (htype hbl).mpr hl⟩, ?_⟩
    intro heq
    rw [heq] at hak
    exact hne (names_key h.candidates.identified hak hbl)

theorem conflicted_iff (h : Consistent run r) (hid : Names r.clusters id k) :
    IsConflicted (r.conflicted run) id ↔ (evidenceOf run r).Conflicted k := by
  have hext := candidates_extend h
  unfold Reads.conflicted
  rw [isConflicted_iff, multiple_iff h hid]
  refine or_congr Iff.rfl ?_
  constructor
  · rintro ⟨a, ha, rfl, hsource, hshared⟩
    obtain ⟨k', p, hk, hp, hlink⟩ := candidate_linked h ha
    obtain rfl := names_key h.clusters (names_extend hext hk) hid
    rw [hsource] at hlink
    exact ⟨p, hlink, (shared_iff h (names_extend hext hp)).mp hshared⟩
  · rintro ⟨p, hlink, hshared⟩
    obtain ⟨a, ha, hak, hap, hsource⟩ := linked_candidate hlink
    exact ⟨a, ha, names_id h.clusters (names_extend hext hak) hid, hsource,
      (shared_iff h (names_extend hext hap)).mpr hshared⟩

theorem eligible_linked (h : Consistent run r) {a b : IdentityId}
    (he : Edge (r.eligible run) a b) : ∃ k p, Names r.clusters a k ∧ Names r.clusters b p ∧
      (evidenceOf run r).Eligible k p := by
  have hext := candidates_extend h
  obtain ⟨candidate, hmem, rfl, rfl, heligible⟩ := edge_eligible.mp he
  obtain ⟨k, p, hk, hp, hlink⟩ := candidate_linked h hmem
  refine ⟨k, p, names_extend hext hk, names_extend hext hp, _, hlink, ?_⟩
  rw [← conflicted_iff h (names_extend hext hk)]
  exact heligible

theorem linked_eligible (h : Consistent run r) (he : (evidenceOf run r).Eligible k p) :
    ∃ a b, Names r.clusters a k ∧ Names r.clusters b p ∧ Edge (r.eligible run) a b := by
  have hext := candidates_extend h
  obtain ⟨source, hlink, heligible⟩ := he
  obtain ⟨candidate, hmem, hk, hp, rfl⟩ := linked_candidate hlink
  refine ⟨_, _, names_extend hext hk, names_extend hext hp,
    edge_eligible.mpr ⟨candidate, hmem, rfl, rfl, ?_⟩⟩
  rw [conflicted_iff h (names_extend hext hk)]
  exact heligible

/-- From an identity the edges lead to the identities that its key is connected with. -/
theorem connected_named (h : Consistent run r) {a b : IdentityId}
    (hab : Relation.EqvGen (Edge (r.eligible run)) a b) (ha : Names r.clusters a k) :
    ∃ l, Names r.clusters b l ∧ (evidenceOf run r).Connected k l := by
  have htransport := connected_transport (R := Names r.clusters)
    (fun _ _ _ => names_key h.clusters) (fun _ _ => eligible_linked h) hab
  exact htransport.1 k ha

theorem named_connected (h : Consistent run r) {a : IdentityId}
    (hkl : (evidenceOf run r).Connected k l) (ha : Names r.clusters a k) :
    ∃ b, Names r.clusters b l ∧ Relation.EqvGen (Edge (r.eligible run)) a b := by
  have htransport := connected_transport (R := fun k a => Names r.clusters a k)
    (fun _ _ _ => names_id h.clusters)
    (fun k p he => by
      obtain ⟨a, b, ha, hb, he⟩ := linked_eligible h he
      exact ⟨a, b, ha, hb, he⟩) hkl
  exact htransport.1 a ha

theorem connected_iff (h : Consistent run r) {a b : IdentityId} (ha : Names r.clusters a k)
    (hb : Names r.clusters b l) :
    Relation.EqvGen (Edge (r.eligible run)) a b ↔ (evidenceOf run r).Connected k l := by
  constructor
  · intro hab
    obtain ⟨l', hl', hkl⟩ := connected_named h hab ha
    rwa [names_key h.clusters hb hl']
  · intro hkl
    obtain ⟨b', hb', hab⟩ := named_connected h hkl ha
    rwa [names_id h.clusters hb hb']

theorem node_observed (h : Consistent run r) (hid : Names r.clusters id k) :
    id ∈ nodes run r.components ↔ (evidenceOf run r).observed k := by
  rw [mem_nodes]
  constructor
  · rintro ⟨i, hi, hfirst, rfl⟩
    refine ⟨i, hi, hfirst, ?_⟩
    exact names_key h.clusters (names_extend h.clusters_extend ⟨i, hi, rfl, rfl⟩) hid
  · rintro ⟨i, hi, hfirst, rfl⟩
    refine ⟨i, hi, hfirst, ?_⟩
    exact names_id h.clusters (names_extend h.clusters_extend ⟨i, hi, rfl, rfl⟩) hid

/-- A component is an identity whose key is assigned. -/
theorem clustered_iff (h : Consistent run r) :
    (∃ id cluster, Names r.clusters id k ∧ (id, cluster) ∈ r.clustered run) ↔
      (evidenceOf run r).Assigned k := by
  constructor
  · rintro ⟨id, cluster, hid, hcomponent⟩
    obtain ⟨hnode, hconnected, _⟩ := (mem_resolutionComponents h.components).mp hcomponent
    obtain ⟨i, hi, _, hic⟩ := mem_nodes.mp hnode
    have hcluster := names_extend h.clusters_extend ⟨i, hi, hic, rfl⟩
    exact ⟨i.key, (node_observed h hcluster).mp hnode, (connected_iff h hcluster hid).mp hconnected⟩
  · rintro ⟨root, ⟨i, hi, hfirst, rfl⟩, hconnected⟩
    have hroot := names_extend h.clusters_extend ⟨i, hi, rfl, rfl⟩
    obtain ⟨id, hid, hreached⟩ := named_connected h hconnected hroot
    obtain ⟨cluster, hcluster⟩ :=
      has_cluster h.components (mem_nodes.mpr ⟨i, hi, hfirst, rfl⟩) hreached
    exact ⟨id, cluster, hid, hcluster⟩

/-- Every component has an identity. -/
theorem clustered_named (h : Consistent run r) {cluster : ClusterId}
    (hcomponent : (id, cluster) ∈ r.clustered run) : ∃ k, Names r.clusters id k := by
  obtain ⟨hnode, hconnected, _⟩ := (mem_resolutionComponents h.components).mp hcomponent
  obtain ⟨i, hi, _, hic⟩ := mem_nodes.mp hnode
  obtain ⟨k, hk, _⟩ :=
    connected_named h hconnected (names_extend h.clusters_extend ⟨i, hi, hic, rfl⟩)
  exact ⟨k, hk⟩

theorem clusterPhone_some {identities : List ObservedIdentity} {phone : String} :
    clusterPhone identities = some phone ↔
      ∀ value, (∃ i ∈ identities, i.key = (.phone, value)) ↔ value = phone := by
  have hmem : ∀ value, value ∈ ((identities.filter (·.type = .phone)).map
      ObservedIdentity.value).dedup ↔ ∃ i ∈ identities, i.key = (.phone, value) := by
    intro value
    simp only [List.mem_dedup, List.mem_map, List.mem_filter, decide_eq_true_eq, and_assoc,
      ObservedIdentity.key, Prod.mk.injEq]
  have hsingle : clusterPhone identities = some phone ↔
      ((identities.filter (·.type = .phone)).map ObservedIdentity.value).dedup = [phone] := by
    unfold clusterPhone
    split
    · rename_i value hvalue
      rw [hvalue]
      simp
    · rename_i hmany
      simp only [reduceCtorEq, false_iff]
      exact hmany phone
  rw [hsingle, ← List.perm_singleton,
    List.perm_ext_iff_of_nodup (List.nodup_dedup _) (List.nodup_singleton _)]
  simp only [hmem, List.mem_singleton]

/-- The phone of the cluster of an identity is the only one its key is connected with. -/
theorem cluster_phone_iff (h : Consistent run r) {cluster : ClusterId} {phone : String}
    (hid : Names r.clusters id k) (hcomponent : (id, cluster) ∈ r.clustered run) :
    clusterPhone (clusterIdentities r.clusters (r.clustered run) cluster) = some phone ↔
      ∀ value, (evidenceOf run r).Connected k (.phone, value) ↔ value = phone := by
  rw [clusterPhone_some]
  refine forall_congr' fun value => iff_congr ?_ Iff.rfl
  constructor
  · rintro ⟨i, hi, hkey⟩
    obtain ⟨hi, hmember⟩ := List.mem_filter.mp hi
    have hmember : (i.id, cluster) ∈ r.clustered run := by simpa using hmember
    exact (connected_iff h hid ⟨i, hi, rfl, hkey⟩).mp
      ((same_cluster h.components hcomponent hmember).mp rfl)
  · intro hconnected
    obtain ⟨_, ⟨i, hi, rfl, hkey⟩, hreached⟩ := named_connected h hconnected hid
    obtain ⟨hnode, hroot, _⟩ := (mem_resolutionComponents h.components).mp hcomponent
    obtain ⟨cluster', hmember⟩ := has_cluster h.components hnode (hroot.trans _ _ _ hreached)
    obtain rfl := (same_cluster h.components hcomponent hmember).mpr hreached
    exact ⟨i, List.mem_filter.mpr ⟨hi, decide_eq_true hmember⟩, hkey⟩

end Refinement

section Outcome

variable {c : Config} {session : SessionId} {run : ResolutionRun} {r : Reads} {out : ResolvedTables}
  {after : String → String → Bool} {k l : IdentityKey}

/-- The results assign the identity of a key with a status and a phone. -/
def AssignedAs (run : ResolutionRun) (r : Reads) (out : ResolvedTables) (k : IdentityKey)
    (status : ResolutionStatus) (phone : Option String) : Prop :=
  ∃ a ∈ out.assignments, a.runId = run.id ∧ Names r.clusters a.identityId k ∧
    a.resolutionStatus = status ∧ a.resolvedPhoneNumber = phone

/-- The results put the identities of two keys in one cluster. -/
def Together (run : ResolutionRun) (r : Reads) (out : ResolvedTables) (k l : IdentityKey) : Prop :=
  ∃ a ∈ out.assignments, ∃ b ∈ out.assignments, a.runId = run.id ∧ b.runId = run.id ∧
    a.clusterId = b.clusterId ∧ Names r.clusters a.identityId k ∧ Names r.clusters b.identityId l

/-- Every component gets an assignment. -/
theorem component_assigned (after : String → String → Bool) (out : ResolvedTables)
    (h : Consistent run r) {id : IdentityId} {cluster : ClusterId}
    (hcomponent : (id, cluster) ∈ r.clustered run) :
    ∃ a ∈ (resolve after run r out).assignments, a.runId = run.id ∧ a.identityId = id ∧
      a.clusterId = cluster := by
  obtain ⟨k, i, hi, hid, _⟩ := clustered_named h hcomponent
  have hmember : i ∈ clusterIdentities r.clusters (r.clustered run) cluster :=
    List.mem_filter.mpr ⟨hi, decide_eq_true (hid ▸ hcomponent)⟩
  refine ⟨⟨run.id, id, cluster, assignmentStatus (r.conflicted run) id,
    if IsConflicted (r.conflicted run) id then none
    else clusterPhone (clusterIdentities r.clusters (r.clustered run) cluster)⟩, ?_, rfl, rfl, rfl⟩
  exact (mem_assignments.mpr ⟨hcomponent, rfl, List.ne_nil_of_mem hmember, rfl, rfl⟩).1

/-- What the results say of a key: its status and its phone are those of the evidence. -/
theorem assigned_as_iff (h : Consistent run r) {status : ResolutionStatus}
    {phone : Option String} :
    AssignedAs run r (resolve after run r out) k status phone ↔
      (evidenceOf run r).Assigned k ∧
        (status = .quarantined ↔ (evidenceOf run r).Conflicted k) ∧
        ∀ value, phone = some value ↔ (evidenceOf run r).HasPhone k value := by
  -- what an assignment of the run says is what the evidence says
  have hsays : ∀ a ∈ (resolve after run r out).assignments, a.runId = run.id →
      Names r.clusters a.identityId k →
        (a.resolutionStatus = .quarantined ↔ (evidenceOf run r).Conflicted k) ∧
        ∀ value, a.resolvedPhoneNumber = some value ↔ (evidenceOf run r).HasPhone k value := by
    intro a ha hrun hid
    obtain ⟨hcomponent, _, _, hstatus, hphone⟩ := mem_assignments.mp ⟨ha, hrun⟩
    have hconflicted := conflicted_iff h hid
    rw [hstatus, hphone]
    by_cases hc : IsConflicted (r.conflicted run) a.identityId
    · simp [assignmentStatus, hc, hconflicted.mp hc, Evidence.HasPhone]
    · have hnot : ¬ (evidenceOf run r).Conflicted k := fun hk => hc (hconflicted.mpr hk)
      simp [assignmentStatus, hc, hnot, Evidence.HasPhone, cluster_phone_iff h hid hcomponent]
  constructor
  · rintro ⟨a, ha, hrun, hid, rfl, rfl⟩
    obtain ⟨hcomponent, _⟩ := mem_assignments.mp ⟨ha, hrun⟩
    exact ⟨(clustered_iff h).mp ⟨_, _, hid, hcomponent⟩, hsays a ha hrun hid⟩
  · rintro ⟨hassigned, hstatus, hphone⟩
    obtain ⟨id, cluster, hid, hcomponent⟩ := (clustered_iff h).mpr hassigned
    obtain ⟨a, ha, hrun, rfl, _⟩ :=
      component_assigned after out h hcomponent
    obtain ⟨hstatus', hphone'⟩ := hsays a ha hrun hid
    refine ⟨a, ha, hrun, hid, ?_, ?_⟩
    · have hsame := hstatus'.trans hstatus.symm
      cases hs : a.resolutionStatus <;> cases hs' : status <;> simp_all
    · refine Option.ext fun value => ?_
      exact (hphone' value).trans (hphone value).symm

theorem together_iff (h : Consistent run r) :
    Together run r (resolve after run r out) k l ↔
      (evidenceOf run r).Assigned k ∧ (evidenceOf run r).Connected k l := by
  constructor
  · rintro ⟨a, ha, b, hb, hra, hrb, hcluster, hk, hl⟩
    obtain ⟨hcomponent, _⟩ := mem_assignments.mp ⟨ha, hra⟩
    obtain ⟨hcomponent', _⟩ := mem_assignments.mp ⟨hb, hrb⟩
    refine ⟨(clustered_iff h).mp ⟨_, _, hk, hcomponent⟩, ?_⟩
    exact (connected_iff h hk hl).mp ((same_cluster h.components hcomponent hcomponent').mp hcluster)
  · rintro ⟨hassigned, hconnected⟩
    obtain ⟨id, cluster, hk, hcomponent⟩ := (clustered_iff h).mpr hassigned
    obtain ⟨id', hl, hreached⟩ := named_connected h hconnected hk
    obtain ⟨hnode, hroot, _⟩ := (mem_resolutionComponents h.components).mp hcomponent
    obtain ⟨cluster', hcomponent'⟩ :=
      has_cluster h.components hnode (hroot.trans _ _ _ hreached)
    obtain rfl := (same_cluster h.components hcomponent hcomponent').mpr hreached
    obtain ⟨a, ha, hra, rfl, hca⟩ :=
      component_assigned after out h hcomponent
    obtain ⟨b, hb, hrb, rfl, hcb⟩ :=
      component_assigned after out h hcomponent'
    exact ⟨a, ha, b, hb, hra, hrb, hca.trans hcb.symm, hk, hl⟩

/-- The identity claims a phone that another identity claims too, which is no phone itself. -/
def ClaimsShared (ev : Evidence) (k : IdentityKey) : Prop :=
  ∃ p l, l ≠ k ∧ l.1 ≠ .phone ∧ ev.Claims k p ∧ ev.Claims l p

theorem shared_conflicted {ev : Evidence} (h : ev.Written) (hk : ClaimsShared ev k) :
    ev.Conflicted k := by
  obtain ⟨p, l, hne, _, hkp, hlp⟩ := hk
  have hjid : ∀ m, ev.Claims m p → m.1 ≠ .phoneJid := by
    intro m hm
    rw [(h.claimed m p hm).1]
    decide
  exact .inr ⟨p, hkp, k, l, Ne.symm hne, hkp, hlp, hjid k hkp, hjid l hlp⟩

/-- Of two assignments to one cluster, both of phones, or both resolved and of what is neither a
phone nor a phone JID, the identities are the same. -/
theorem cluster_safe (h : Consistent run r) {a b : IdentityAssignment}
    (ha : a ∈ (resolve after run r out).assignments) (hra : a.runId = run.id)
    (hb : b ∈ (resolve after run r out).assignments) (hrb : b.runId = run.id)
    (hcluster : a.clusterId = b.clusterId) (hk : Names r.clusters a.identityId k)
    (hl : Names r.clusters b.identityId l) :
    (k.1 = .phone → l.1 = .phone → a.identityId = b.identityId) ∧
      (k.1 ≠ .phone ∧ k.1 ≠ .phoneJid → l.1 ≠ .phone ∧ l.1 ≠ .phoneJid →
        a.resolutionStatus = .resolved → b.resolutionStatus = .resolved →
        a.identityId = b.identityId) := by
  have hwritten := evidence_written h
  have htogether : Together run r (resolve after run r out) k l :=
    ⟨a, ha, b, hb, hra, hrb, hcluster, hk, hl⟩
  have hassigned : AssignedAs run r (resolve after run r out) k a.resolutionStatus
      a.resolvedPhoneNumber := ⟨a, ha, hra, hk, rfl, rfl⟩
  have hconnected := ((together_iff h).mp htogether).2
  have hsame : k = l → a.identityId = b.identityId := by
    rintro rfl
    exact names_id h.clusters hk hl
  constructor
  · intro hkp hlp
    exact hsame (one_phone hwritten hconnected hkp hlp)
  · intro hkp hlp hresolved _
    refine hsame (one_alias hwritten hconnected hkp hlp fun hconflicted => ?_)
    have hstatus := ((assigned_as_iff h).mp hassigned).2.1
    rw [hstatus.mpr hconflicted] at hresolved
    cases hresolved

theorem conflict_quarantined (h : Consistent run r)
    (hk : (evidenceOf run r).MultiplePhones k ∨ ClaimsShared (evidenceOf run r) k) :
    AssignedAs run r (resolve after run r out) k .quarantined none ∧
      ∀ status phone, AssignedAs run r (resolve after run r out) k status phone →
        status = .quarantined ∧ phone = none := by
  have hwritten := evidence_written h
  have hconflicted : (evidenceOf run r).Conflicted k := by
    rcases hk with hk | hk
    · exact .inl hk
    · exact shared_conflicted hwritten hk
  have hnone : ∀ value, ¬ (evidenceOf run r).HasPhone k value := fun _ hv => hv.1 hconflicted
  constructor
  · refine (assigned_as_iff h).mpr ⟨?_, iff_of_true rfl hconflicted, fun value => ?_⟩
    · exact ⟨k, (conflicted_lid hwritten hconflicted).2, .refl k⟩
    · exact iff_of_false (fun hv => nomatch hv) (hnone value)
  · intro status phone hassigned
    obtain ⟨_, hstatus, hphone⟩ := (assigned_as_iff h).mp hassigned
    refine ⟨hstatus.mpr hconflicted, ?_⟩
    cases phone with
    | none => rfl
    | some value => exact absurd ((hphone value).mp rfl) (hnone value)

/-- For the evidence of a published generation, after any writes in any order: a cluster has one
phone at most, and one resolved identity that is neither a phone nor a phone JID; an identity with
two phones, or with a phone that is claimed by another one, is quarantined without a phone; and two
runs that read the same evidence have the same results, whatever results there were before. -/
theorem resolution_safe (h : ReadBy c session run r) (after : String → String → Bool)
    (out : ResolvedTables) :
    (∀ a ∈ (resolve after run r out).assignments, ∀ b ∈ (resolve after run r out).assignments,
      a.runId = run.id → b.runId = run.id → a.clusterId = b.clusterId →
      ∀ k l, Names r.clusters a.identityId k → Names r.clusters b.identityId l →
        (k.1 = .phone → l.1 = .phone → a.identityId = b.identityId) ∧
        (k.1 ≠ .phone ∧ k.1 ≠ .phoneJid → l.1 ≠ .phone ∧ l.1 ≠ .phoneJid →
          a.resolutionStatus = .resolved → b.resolutionStatus = .resolved →
          a.identityId = b.identityId)) ∧
    (∀ k, (evidenceOf run r).MultiplePhones k ∨ ClaimsShared (evidenceOf run r) k →
      AssignedAs run r (resolve after run r out) k .quarantined none ∧
      ∀ status phone, AssignedAs run r (resolve after run r out) k status phone →
        status = .quarantined ∧ phone = none) ∧
    ∀ c' session' run' r' after' out', ReadBy c' session' run' r' →
      evidenceOf run' r' = evidenceOf run r →
      (∀ k status phone, AssignedAs run' r' (resolve after' run' r' out') k status phone ↔
        AssignedAs run r (resolve after run r out) k status phone) ∧
      ∀ k l, Together run' r' (resolve after' run' r' out') k l ↔
        Together run r (resolve after run r out) k l := by
  have hr := read_consistent h
  refine ⟨?_, ?_, ?_⟩
  · intro a ha b hb hra hrb hcluster k l hk hl
    exact cluster_safe hr ha hra hb hrb hcluster hk hl
  · intro k hk
    exact conflict_quarantined hr hk
  · intro c' session' run' r' after' out' h' hsame
    have hr' := read_consistent h'
    constructor
    · intro k status phone
      rw [assigned_as_iff hr', assigned_as_iff hr, hsame]
    · intro k l
      rw [together_iff hr', together_iff hr, hsame]

/-- A page with two contacts that claim one phone, and one that claims the phone of a phone JID. -/
def sharedPhoneTrace : List Event :=
  [.tick 1000,
   .call "session" (.begin_ 1 7 false none),
   .call "session" (.ingestObservedPage ⟨1, 7⟩ 2
     [⟨"1@lid", "34", none, none⟩, ⟨"2@lid", "34", none, none⟩, ⟨"3@lid", "56", none, none⟩,
      ⟨"56@c.us", "56", none, none⟩]),
   .call "session" (.complete
     (fun key => (key.2.toList.headD 'a').toNat + if key.1 = .phone then 100 else 0)
     ⟨1, 7⟩ 3 4 60000)]

def sharedPhoneConfig : Config := ⟨⟨id, id⟩, true, 86400000⟩

def sharedPhoneState : State := runTrace (system sharedPhoneConfig) initial sharedPhoneTrace

def sharedPhoneReads : Reads :=
  let t := (sharedPhoneState.sessions "session").evidence
  ⟨t, t, t, t, t⟩

def sharedPhoneRun : ResolutionRun := ⟨0, 1, 3⟩

/-- The two contacts that share a phone are quarantined, the third one has its phone. -/
theorem shared_phone_resolved :
    (resolve (fun _ _ => false) sharedPhoneRun sharedPhoneReads ⟨[], [], []⟩).assignments.map
        (fun a => (a.identityId, a.resolutionStatus, a.resolvedPhoneNumber)) =
      [(49, .quarantined, none), (50, .quarantined, none), (151, .resolved, some "34"),
       (153, .resolved, some "56"), (53, .resolved, some "56"), (51, .resolved, some "56")] ∧
    ∀ k, (evidenceOf sharedPhoneRun sharedPhoneReads).MultiplePhones k ∨
        ClaimsShared (evidenceOf sharedPhoneRun sharedPhoneReads) k →
      AssignedAs sharedPhoneRun sharedPhoneReads
        (resolve (fun _ _ => false) sharedPhoneRun sharedPhoneReads ⟨[], [], []⟩) k
        .quarantined none := by
  have hreach : Reachable (system sharedPhoneConfig) sharedPhoneState :=
    ⟨_, valid_trace_run rfl (by decide +kernel)⟩
  have hread : ReadBy sharedPhoneConfig "session" sharedPhoneRun sharedPhoneReads := by
    refine ⟨_, _, _, _, _, [], [], [], [], hreach, ?_, .refl, .refl, .refl, .refl, rfl⟩
    unfold Published
    decide +kernel
  obtain ⟨_, hquarantined, _⟩ := resolution_safe hread (fun _ _ => false) ⟨[], [], []⟩
  exact ⟨by decide +kernel, fun k hk => (hquarantined k hk).1⟩

end Outcome

end ContactClusters
