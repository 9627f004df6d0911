import Mathlib.Data.List.Dedup
import Mathlib.Data.Finset.Dedup
import Mathlib.Data.Finset.Card
import WaRuntime.RecursiveQuery
import WaRuntime.ContactEvidence

/-! The resolver: from the evidence of a generation to clusters of identities.
`resolve` is one transaction, but each of its statements reads what has been committed when it
begins; the tables that they read are given one by one. -/
namespace ContactResolution

open ContactNormalization ContactEvidence RecursiveQuery

abbrev RunId := ℕ

abbrev ClusterId := IdentityId

inductive ConflictCode where
  | multiplePhoneTargets
  | phoneSharedByMultipleNonPhoneIdentities
  deriving DecidableEq, Repr

inductive ResolutionStatus where
  | resolved
  | quarantined
  deriving DecidableEq, Repr

/-- A row of `resolved_contact_clusters`. -/
structure ResolvedCluster where
  runId : RunId
  clusterId : ClusterId
  resolvedPhoneNumber : Option String
  contactDisplayName : Option String
  identityCount : ℕ
  deriving DecidableEq, Repr

/-- A row of `resolved_identity_assignments`. -/
structure IdentityAssignment where
  runId : RunId
  identityId : IdentityId
  clusterId : ClusterId
  resolutionStatus : ResolutionStatus
  resolvedPhoneNumber : Option String
  deriving DecidableEq, Repr

/-- A row of `contact_resolution_conflicts`. -/
structure ResolutionConflict where
  runId : RunId
  identityId : IdentityId
  conflictCode : ConflictCode
  deriving DecidableEq, Repr

/-- The results of all runs of a session. -/
structure ResolvedTables where
  clusters : List ResolvedCluster
  assignments : List IdentityAssignment
  conflicts : List ResolutionConflict
  deriving DecidableEq, Repr

/-- What a run says of its evidence. -/
structure ResolutionRun where
  id : RunId
  sourceGeneration : ℕ
  evidenceCutoffAt : ℕ
  deriving DecidableEq, Repr

structure EdgeCandidate where
  left : IdentityId
  right : IdentityId
  source : EvidenceSource
  deriving DecidableEq, Repr

section Candidates

/-- The evidence of the generation, and what belongs to none and was there at the cutoff. -/
def Candidate (run : ResolutionRun) (l : LinkEvidence) : Prop :=
  l.sourceGeneration = some run.sourceGeneration ∨
    (l.sourceGeneration = none ∧ l.createdAt ≤ run.evidenceCutoffAt)

instance (run : ResolutionRun) (l : LinkEvidence) : Decidable (Candidate run l) :=
  inferInstanceAs (Decidable (_ ∨ _))

/-- `resolution_edge_candidates`. -/
def edgeCandidates (run : ResolutionRun) (t : EvidenceTables) : List EdgeCandidate :=
  (t.links.filter fun l => Candidate run l).map fun l =>
    ⟨l.leftIdentityId, l.rightIdentityId, l.evidenceSource⟩

end Candidates

section Conflicts

variable (t : EvidenceTables) (candidates : List EdgeCandidate)

/-- The right identities of a left one. -/
def phoneTargets (left : IdentityId) : List IdentityId :=
  (candidates.filter (·.left = left)).map EdgeCandidate.right

def multipleTargets : List IdentityId :=
  (candidates.map EdgeCandidate.left).filter fun left =>
    1 < (phoneTargets candidates left).dedup.length

/-- The left identities that `shared_phone` counts for a right one. -/
def phoneClaimants (right : IdentityId) : List IdentityId :=
  (candidates.filter fun candidate =>
    candidate.right = right ∧ candidate.source = .openwaContactPhone ∧
      ∃ identity ∈ t.identities, identity.id = candidate.left ∧ identity.type ≠ .phoneJid).map
    EdgeCandidate.left

def sharedPhone (right : IdentityId) : Prop :=
  1 < (phoneClaimants t candidates right).dedup.length

instance (right : IdentityId) : Decidable (sharedPhone t candidates right) :=
  inferInstanceAs (Decidable (_ < _))

def sharedAliases : List IdentityId :=
  (candidates.filter fun candidate =>
    candidate.source = .openwaContactPhone ∧ sharedPhone t candidates candidate.right).map
    EdgeCandidate.left

/-- `resolution_conflicted_identities`. -/
def conflictedIdentities : List (IdentityId × ConflictCode) :=
  ((multipleTargets candidates).map (·, ConflictCode.multiplePhoneTargets) ++
    (sharedAliases t candidates).map
      (·, ConflictCode.phoneSharedByMultipleNonPhoneIdentities)).dedup

end Conflicts

section Components

def IsConflicted (conflicts : List (IdentityId × ConflictCode)) (id : IdentityId) : Prop :=
  ∃ conflict ∈ conflicts, conflict.1 = id

instance (conflicts : List (IdentityId × ConflictCode)) (id : IdentityId) :
    Decidable (IsConflicted conflicts id) :=
  inferInstanceAs (Decidable (∃ conflict ∈ conflicts, conflict.1 = id))

/-- `resolution_eligible_edges`. -/
def eligibleEdges (candidates : List EdgeCandidate)
    (conflicts : List (IdentityId × ConflictCode)) : List (IdentityId × IdentityId) :=
  ((candidates.filter fun candidate =>
    candidate.source = .phoneJidDerivation ∨ ¬ IsConflicted conflicts candidate.left).map
      fun candidate => (candidate.left, candidate.right)).dedup

/-- `undirected`, from one node. -/
def neighbours (edges : List (IdentityId × IdentityId)) (node : IdentityId) : List IdentityId :=
  (edges.filter (·.1 = node)).map Prod.snd ++ (edges.filter (·.2 = node)).map Prod.fst

def nodes (run : ResolutionRun) (t : EvidenceTables) : List IdentityId :=
  (t.identities.filter (·.firstObservedAt ≤ run.evidenceCutoffAt)).map ObservedIdentity.id

/-- Every node, and every end of an edge. -/
def vertices (run : ResolutionRun) (t : EvidenceTables)
    (edges : List (IdentityId × IdentityId)) : List IdentityId :=
  nodes run t ++ edges.map Prod.fst ++ edges.map Prod.snd

/-- `reach(root, node)`. -/
def reached (run : ResolutionRun) (t : EvidenceTables) (edges : List (IdentityId × IdentityId)) :
    List (IdentityId × IdentityId) :=
  reach (neighbours edges) ((vertices run t edges).length * (vertices run t edges).length)
    (nodes run t)

/-- `min(root)` of the rows of a node. -/
def clusterOf (found : List (IdentityId × IdentityId)) (node : IdentityId) : Option ClusterId :=
  ((found.filter (·.2 = node)).map Prod.fst).min?

/-- `resolution_components`. -/
def resolutionComponents (run : ResolutionRun) (t : EvidenceTables)
    (edges : List (IdentityId × IdentityId)) : List (IdentityId × ClusterId) :=
  ((reached run t edges).map Prod.snd).dedup.filterMap fun node =>
    (clusterOf (reached run t edges) node).map (node, ·)

end Components

section Output

variable (run : ResolutionRun)

/-- What the foreign keys leave when the clusters of a run are deleted. -/
def ResolvedTables.withoutRun (id : RunId) (out : ResolvedTables) : ResolvedTables :=
  { clusters := out.clusters.filter (·.runId ≠ id)
    assignments := out.assignments.filter (·.runId ≠ id)
    conflicts := out.conflicts.filter (·.runId ≠ id) }

/-- The phone of the identities of a cluster, if they have exactly one. -/
def clusterPhone (identities : List ObservedIdentity) : Option String :=
  match ((identities.filter (·.type = .phone)).map ObservedIdentity.value).dedup with
  | [value] => some value
  | _ => none

/-- The components of a cluster, joined with the identities. -/
def clusterIdentities (t : EvidenceTables) (components : List (IdentityId × ClusterId))
    (cluster : ClusterId) : List ObservedIdentity :=
  t.identities.filter fun identity => (identity.id, cluster) ∈ components

def newClusters (t : EvidenceTables) (components : List (IdentityId × ClusterId)) :
    List ResolvedCluster :=
  ((components.map Prod.snd).dedup.filter fun cluster =>
    clusterIdentities t components cluster ≠ []).map fun cluster =>
      ⟨run.id, cluster, clusterPhone (clusterIdentities t components cluster), none,
        (clusterIdentities t components cluster).length⟩

def assignmentStatus (conflicts : List (IdentityId × ConflictCode)) (id : IdentityId) :
    ResolutionStatus :=
  if IsConflicted conflicts id then .quarantined else .resolved

def newAssignments (clusters : List ResolvedCluster)
    (conflicts : List (IdentityId × ConflictCode)) (components : List (IdentityId × ClusterId)) :
    List IdentityAssignment :=
  components.flatMap fun component =>
    (clusters.filter fun cluster =>
      cluster.runId = run.id ∧ cluster.clusterId = component.2).map fun cluster =>
        ⟨run.id, component.1, component.2, assignmentStatus conflicts component.1,
          if IsConflicted conflicts component.1 then none else cluster.resolvedPhoneNumber⟩

def newConflicts (assignments : List IdentityAssignment)
    (conflicts : List (IdentityId × ConflictCode)) : List ResolutionConflict :=
  (conflicts.filter fun conflict =>
    ∃ assignment ∈ assignments,
      assignment.runId = run.id ∧ assignment.identityId = conflict.1).map fun conflict =>
      ⟨run.id, conflict.1, conflict.2⟩

/-- `eligible_observations`. -/
def eligibleNames (t : EvidenceTables) : List ContactObservation :=
  t.observations.filter fun o => o.observationSource = .openwaContactName ∧
    (o.sourceGeneration = some run.sourceGeneration ∨
      (o.sourceGeneration = none ∧ o.createdAt ≤ run.evidenceCutoffAt))

/-- DISTINCT ON with its ORDER BY; `after` is the order of the texts. -/
def preferredName (after : String → String → Bool) (a b : ContactObservation) :
    ContactObservation :=
  if a.sourceObservedAt < b.sourceObservedAt ∨ (a.sourceObservedAt = b.sourceObservedAt ∧
      after b.sourceObservationKey a.sourceObservationKey) then b else a

def clusterName (after : String → String → Bool) (t : EvidenceTables)
    (assignments : List IdentityAssignment) (cluster : ClusterId) : Option ContactObservation :=
  match (eligibleNames run t).filter fun o => ∃ assignment ∈ assignments,
      assignment.runId = run.id ∧ assignment.identityId = o.identityId ∧
        assignment.clusterId = cluster with
  | [] => none
  | o :: rest => some (rest.foldl (preferredName after) o)

def nameCluster (after : String → String → Bool) (t : EvidenceTables)
    (assignments : List IdentityAssignment) (row : ResolvedCluster) : ResolvedCluster :=
  if row.runId = run.id then
    match clusterName run after t assignments row.clusterId with
    | some o => { row with contactDisplayName := some o.nameValue }
    | none => row
  else row

end Output

/-- What each statement reads of the evidence tables, in the order of the statements. -/
structure Reads where
  candidates : EvidenceTables
  conflicts : EvidenceTables
  components : EvidenceTables
  clusters : EvidenceTables
  names : EvidenceTables

def Reads.edges (r : Reads) (run : ResolutionRun) : List EdgeCandidate :=
  edgeCandidates run r.candidates

def Reads.conflicted (r : Reads) (run : ResolutionRun) : List (IdentityId × ConflictCode) :=
  conflictedIdentities r.conflicts (r.edges run)

def Reads.eligible (r : Reads) (run : ResolutionRun) : List (IdentityId × IdentityId) :=
  eligibleEdges (r.edges run) (r.conflicted run)

def Reads.clustered (r : Reads) (run : ResolutionRun) : List (IdentityId × ClusterId) :=
  resolutionComponents run r.components (r.eligible run)

/-- What `resolve` leaves of the results, up to its completion. -/
def resolve (after : String → String → Bool) (run : ResolutionRun) (r : Reads)
    (out : ResolvedTables) : ResolvedTables :=
  let kept := out.withoutRun run.id
  let clusters := kept.clusters ++ newClusters run r.clusters (r.clustered run)
  let assignments := kept.assignments ++
    newAssignments run clusters (r.conflicted run) (r.clustered run)
  let conflicts := kept.conflicts ++ newConflicts run assignments (r.conflicted run)
  ⟨clusters.map (nameCluster run after r.names assignments), assignments, conflicts⟩

structure ContactResolutionResult where
  identities : ℕ
  clusters : ℕ
  linkedIdentities : ℕ
  conflictIdentities : ℕ
  deriving DecidableEq, Repr

/-- The counts that the completion returns. -/
def resolutionResult (r : Reads) (run : ResolutionRun) : ContactResolutionResult :=
  let components := r.clustered run
  let sizes := (components.map Prod.snd).dedup.map fun cluster =>
    (components.map Prod.snd).count cluster
  { identities := sizes.sum
    clusters := sizes.length
    linkedIdentities := (sizes.filter (1 < ·)).sum
    conflictIdentities := (((r.conflicted run).map Prod.fst).dedup.filter fun id =>
      ∃ component ∈ components, component.1 = id).length }

section Specifications

variable {run : ResolutionRun} {t : EvidenceTables} {candidates : List EdgeCandidate}
  {conflicts : List (IdentityId × ConflictCode)} {edges : List (IdentityId × IdentityId)}

theorem one_lt_dedup_length {α : Type*} [DecidableEq α] {ids : List α} :
    1 < ids.dedup.length ↔ ∃ a ∈ ids, ∃ b ∈ ids, a ≠ b := by
  rw [← List.card_toFinset, Finset.one_lt_card]
  simp only [List.mem_toFinset]

theorem mem_edgeCandidates {candidate : EdgeCandidate} :
    candidate ∈ edgeCandidates run t ↔ ∃ l ∈ t.links, Candidate run l ∧
      candidate = ⟨l.leftIdentityId, l.rightIdentityId, l.evidenceSource⟩ := by
  simp only [edgeCandidates, List.mem_map, List.mem_filter, decide_eq_true_eq]
  constructor
  · rintro ⟨l, ⟨hl, hcandidate⟩, rfl⟩
    exact ⟨l, hl, hcandidate, rfl⟩
  · rintro ⟨l, hl, hcandidate, rfl⟩
    exact ⟨l, ⟨hl, hcandidate⟩, rfl⟩

theorem mem_multipleTargets {left : IdentityId} :
    left ∈ multipleTargets candidates ↔ ∃ a ∈ candidates, ∃ b ∈ candidates,
      a.left = left ∧ b.left = left ∧ a.right ≠ b.right := by
  simp only [multipleTargets, List.mem_filter, decide_eq_true_eq]
  rw [one_lt_dedup_length]
  simp only [phoneTargets, List.mem_map, List.mem_filter, decide_eq_true_eq]
  constructor
  · rintro ⟨_, _, ⟨a, ⟨ha, hleft⟩, rfl⟩, _, ⟨b, ⟨hb, hleft'⟩, rfl⟩, hne⟩
    exact ⟨a, ha, b, hb, hleft, hleft', hne⟩
  · rintro ⟨a, ha, b, hb, hleft, hleft', hne⟩
    exact ⟨⟨a, ha, hleft⟩, _, ⟨a, ⟨ha, hleft⟩, rfl⟩, _, ⟨b, ⟨hb, hleft'⟩, rfl⟩, hne⟩

/-- The candidate is a claim of a contact on a phone, and its left identity is no phone JID. -/
def ClaimsPhone (t : EvidenceTables) (candidate : EdgeCandidate) : Prop :=
  candidate.source = .openwaContactPhone ∧
    ∃ identity ∈ t.identities, identity.id = candidate.left ∧ identity.type ≠ .phoneJid

theorem sharedPhone_iff {right : IdentityId} :
    sharedPhone t candidates right ↔ ∃ a ∈ candidates, ∃ b ∈ candidates, a.right = right ∧
      b.right = right ∧ ClaimsPhone t a ∧ ClaimsPhone t b ∧ a.left ≠ b.left := by
  simp only [sharedPhone, one_lt_dedup_length, phoneClaimants, List.mem_map, List.mem_filter,
    decide_eq_true_eq]
  constructor
  · rintro ⟨_, ⟨a, ⟨ha, hright, hclaim⟩, rfl⟩, _, ⟨b, ⟨hb, hright', hclaim'⟩, rfl⟩, hne⟩
    exact ⟨a, ha, b, hb, hright, hright', hclaim, hclaim', hne⟩
  · rintro ⟨a, ha, b, hb, hright, hright', hclaim, hclaim', hne⟩
    exact ⟨_, ⟨a, ⟨ha, hright, hclaim⟩, rfl⟩, _, ⟨b, ⟨hb, hright', hclaim'⟩, rfl⟩, hne⟩

theorem isConflicted_iff {id : IdentityId} :
    IsConflicted (conflictedIdentities t candidates) id ↔
      (∃ a ∈ candidates, ∃ b ∈ candidates, a.left = id ∧ b.left = id ∧ a.right ≠ b.right) ∨
      ∃ a ∈ candidates, a.left = id ∧ a.source = .openwaContactPhone ∧
        sharedPhone t candidates a.right := by
  rw [← mem_multipleTargets]
  simp only [IsConflicted, conflictedIdentities, List.mem_dedup, List.mem_append, List.mem_map,
    sharedAliases, List.mem_filter, decide_eq_true_eq]
  constructor
  · rintro ⟨_, ⟨left, hleft, rfl⟩ | ⟨_, ⟨a, ⟨ha, hsource, hshared⟩, rfl⟩, rfl⟩, rfl⟩
    · exact .inl hleft
    · exact .inr ⟨a, ha, rfl, hsource, hshared⟩
  · rintro (hleft | ⟨a, ha, rfl, hsource, hshared⟩)
    · exact ⟨_, .inl ⟨id, hleft, rfl⟩, rfl⟩
    · exact ⟨_, .inr ⟨a.left, ⟨a, ⟨ha, hsource, hshared⟩, rfl⟩, rfl⟩, rfl⟩

/-- An edge, read from its left end. -/
def Edge (edges : List (IdentityId × IdentityId)) (a b : IdentityId) : Prop := (a, b) ∈ edges

theorem edge_eligible {a b : IdentityId} :
    Edge (eligibleEdges candidates conflicts) a b ↔ ∃ candidate ∈ candidates,
      candidate.left = a ∧ candidate.right = b ∧
        (candidate.source = .phoneJidDerivation ∨ ¬ IsConflicted conflicts a) := by
  simp only [Edge, eligibleEdges, List.mem_dedup, List.mem_map, List.mem_filter,
    decide_eq_true_eq, Prod.ext_iff]
  constructor
  · rintro ⟨candidate, ⟨hmem, heligible⟩, rfl, rfl⟩
    exact ⟨candidate, hmem, rfl, rfl, heligible⟩
  · rintro ⟨candidate, hmem, rfl, rfl, heligible⟩
    exact ⟨candidate, ⟨hmem, heligible⟩, rfl, rfl⟩

theorem leads_neighbours : Leads (neighbours edges) = Relation.SymmGen (Edge edges) := by
  funext a b
  change Leads (neighbours edges) a b = (Edge edges a b ∨ Edge edges b a)
  simp only [Leads, neighbours, List.mem_append, List.mem_map, List.mem_filter,
    decide_eq_true_eq, Edge, eq_iff_iff]
  constructor
  · rintro (⟨e, ⟨he, rfl⟩, rfl⟩ | ⟨e, ⟨he, rfl⟩, rfl⟩)
    · exact .inl he
    · exact .inr he
  · rintro (he | he)
    · exact .inl ⟨(a, b), ⟨he, rfl⟩, rfl⟩
    · exact .inr ⟨(b, a), ⟨he, rfl⟩, rfl⟩

theorem mem_nodes {id : IdentityId} : id ∈ nodes run t ↔
    ∃ i ∈ t.identities, i.firstObservedAt ≤ run.evidenceCutoffAt ∧ i.id = id := by
  simp only [nodes, List.mem_map, List.mem_filter, decide_eq_true_eq, and_assoc]

theorem nodes_nodup (h : Identified t) : (nodes run t).Nodup :=
  (List.filter_sublist.map ObservedIdentity.id).nodup h.ids

theorem mem_reached {root node : IdentityId} (h : Identified t) :
    (root, node) ∈ reached run t edges ↔
      root ∈ nodes run t ∧ Relation.EqvGen (Edge edges) root node := by
  have hclosed : ∀ a ∈ vertices run t edges, ∀ b, Leads (neighbours edges) a b →
      b ∈ vertices run t edges := by
    intro a _ b hab
    rw [leads_neighbours] at hab
    rcases hab with hab | hab
    · exact List.mem_append_right _ (List.mem_map_of_mem (f := Prod.snd) hab)
    · exact List.mem_append_left _
        (List.mem_append_right _ (List.mem_map_of_mem (f := Prod.fst) hab))
  have hroots : nodes run t ⊆ vertices run t edges := by
    intro id hid
    exact List.mem_append_left _ (List.mem_append_left _ hid)
  unfold reached
  rw [mem_reach_iff (nodes_nodup h) hroots hclosed le_rfl, leads_neighbours,
    Relation.EqvGen.reflTransGen_symmGen]

/-- The cluster of a node is the least node that it is connected with. -/
theorem mem_resolutionComponents {node : IdentityId} {cluster : ClusterId} (h : Identified t) :
    (node, cluster) ∈ resolutionComponents run t edges ↔
      cluster ∈ nodes run t ∧ Relation.EqvGen (Edge edges) cluster node ∧
        ∀ root ∈ nodes run t, Relation.EqvGen (Edge edges) root node → cluster ≤ root := by
  have hroots : ∀ root, root ∈ ((reached run t edges).filter (·.2 = node)).map Prod.fst ↔
      root ∈ nodes run t ∧ Relation.EqvGen (Edge edges) root node := by
    intro root
    rw [← mem_reached h]
    simp only [List.mem_map, List.mem_filter, decide_eq_true_eq]
    constructor
    · rintro ⟨row, ⟨hrow, rfl⟩, rfl⟩
      exact hrow
    · intro hrow
      exact ⟨_, ⟨hrow, rfl⟩, rfl⟩
  have hleast : clusterOf (reached run t edges) node = some cluster ↔
      (cluster ∈ nodes run t ∧ Relation.EqvGen (Edge edges) cluster node) ∧
        ∀ root ∈ nodes run t, Relation.EqvGen (Edge edges) root node → cluster ≤ root := by
    unfold clusterOf
    rw [List.min?_eq_some_iff, hroots]
    refine and_congr Iff.rfl (forall_congr' fun root => ?_)
    rw [hroots]
    exact and_imp
  simp only [resolutionComponents, List.mem_filterMap, List.mem_dedup, List.mem_map,
    Option.map_eq_some_iff, Prod.ext_iff]
  rw [← and_assoc, ← hleast]
  constructor
  · rintro ⟨_, _, _, hcluster, rfl, rfl⟩
    exact hcluster
  · intro hcluster
    have hrow := (mem_reached h).mpr (hleast.mp hcluster).1
    exact ⟨node, ⟨_, hrow, rfl⟩, cluster, hcluster, rfl, rfl⟩

/-- Two nodes are in one cluster if they are connected. -/
theorem same_cluster {x y : IdentityId} {a b : ClusterId} (h : Identified t)
    (hx : (x, a) ∈ resolutionComponents run t edges)
    (hy : (y, b) ∈ resolutionComponents run t edges) :
    a = b ↔ Relation.EqvGen (Edge edges) x y := by
  obtain ⟨ha, hax, hleast⟩ := (mem_resolutionComponents h).mp hx
  obtain ⟨hb, hby, hleast'⟩ := (mem_resolutionComponents h).mp hy
  constructor
  · rintro rfl
    exact (hax.symm).trans _ _ _ hby
  · intro hxy
    have hab : a ≤ b := hleast b hb (hby.trans _ _ _ hxy.symm)
    have hba : b ≤ a := hleast' a ha (hax.trans _ _ _ hxy)
    exact le_antisymm hab hba

/-- Every node that can be reached from a node has a cluster. -/
theorem has_cluster {root node : IdentityId} (h : Identified t) (hroot : root ∈ nodes run t)
    (hnode : Relation.EqvGen (Edge edges) root node) :
    ∃ cluster, (node, cluster) ∈ resolutionComponents run t edges := by
  have hrow : (root, node) ∈ reached run t edges := (mem_reached h).mpr ⟨hroot, hnode⟩
  have hne : ((reached run t edges).filter (·.2 = node)).map Prod.fst ≠ [] := by
    have hmem : root ∈ ((reached run t edges).filter (·.2 = node)).map Prod.fst :=
      List.mem_map_of_mem (f := Prod.fst) (List.mem_filter.mpr ⟨hrow, by simp⟩)
    exact List.ne_nil_of_mem hmem
  obtain ⟨cluster, hcluster⟩ := Option.isSome_iff_exists.mp (List.isSome_min?_of_ne_nil hne)
  refine ⟨cluster, List.mem_filterMap.mpr ⟨node, ?_, ?_⟩⟩
  · exact List.mem_dedup.mpr (List.mem_map_of_mem (f := Prod.snd) hrow)
  · unfold clusterOf
    rw [hcluster]
    rfl

theorem mem_newClusters {components : List (IdentityId × ClusterId)} {row : ResolvedCluster} :
    row ∈ newClusters run t components ↔ ∃ cluster ∈ components.map Prod.snd,
      clusterIdentities t components cluster ≠ [] ∧
        row = ⟨run.id, cluster, clusterPhone (clusterIdentities t components cluster), none,
          (clusterIdentities t components cluster).length⟩ := by
  simp only [newClusters, List.mem_map, List.mem_filter, List.mem_dedup, decide_eq_true_eq]
  constructor
  · rintro ⟨cluster, ⟨hcluster, hne⟩, rfl⟩
    exact ⟨cluster, hcluster, hne, rfl⟩
  · rintro ⟨cluster, hcluster, hne, rfl⟩
    exact ⟨cluster, ⟨hcluster, hne⟩, rfl⟩

/-- The assignments of a run after it: its components, each with the phone of its cluster. -/
theorem mem_assignments {after : String → String → Bool} {r : Reads} {out : ResolvedTables}
    {a : IdentityAssignment} :
    (a ∈ (resolve after run r out).assignments ∧ a.runId = run.id) ↔
      (a.identityId, a.clusterId) ∈ r.clustered run ∧ a.runId = run.id ∧
        clusterIdentities r.clusters (r.clustered run) a.clusterId ≠ [] ∧
        a.resolutionStatus = assignmentStatus (r.conflicted run) a.identityId ∧
        a.resolvedPhoneNumber = if IsConflicted (r.conflicted run) a.identityId then none
          else clusterPhone (clusterIdentities r.clusters (r.clustered run) a.clusterId) := by
  simp only [resolve, List.mem_append, ResolvedTables.withoutRun, List.mem_filter,
    decide_eq_true_eq, newAssignments, List.mem_flatMap, List.mem_map, mem_newClusters]
  constructor
  · rintro ⟨⟨_, hother⟩ | ⟨component, hcomponent, row, ⟨hrow, hrun, hid⟩, rfl⟩, heq⟩
    · exact absurd heq hother
    · rcases hrow with ⟨_, hother⟩ | ⟨cluster, _, hne, rfl⟩
      · exact absurd hrun hother
      · obtain rfl : cluster = component.2 := hid
        exact ⟨hcomponent, rfl, hne, rfl, rfl⟩
  · rintro ⟨hcomponent, hrun, hne, hstatus, hphone⟩
    refine ⟨.inr ⟨_, hcomponent, _, ⟨.inr ⟨a.clusterId, ⟨_, hcomponent, rfl⟩, hne, rfl⟩, rfl, rfl⟩,
      ?_⟩, hrun⟩
    obtain ⟨runId, id, cluster, status, phone⟩ := a
    obtain rfl : runId = run.id := hrun
    simp only [IdentityAssignment.mk.injEq, true_and]
    exact ⟨hstatus.symm, hphone.symm⟩

theorem nameCluster_run {after : String → String → Bool} {assignments : List IdentityAssignment}
    (row : ResolvedCluster) :
    (nameCluster run after t assignments row).runId = row.runId ∧
      (row.runId ≠ run.id → nameCluster run after t assignments row = row) := by
  unfold nameCluster
  split
  · rename_i hrun
    refine ⟨?_, fun hother => absurd hrun hother⟩
    split <;> rfl
  · exact ⟨rfl, fun _ => rfl⟩

/-- The results of the other runs stay what they are. -/
theorem resolve_keeps_other_runs {after : String → String → Bool} {r : Reads}
    {out : ResolvedTables} :
    (∀ a, a.runId ≠ run.id →
      (a ∈ (resolve after run r out).assignments ↔ a ∈ out.assignments)) ∧
    (∀ row, row.runId ≠ run.id →
      (row ∈ (resolve after run r out).clusters ↔ row ∈ out.clusters)) ∧
    ∀ conflict, conflict.runId ≠ run.id →
      (conflict ∈ (resolve after run r out).conflicts ↔ conflict ∈ out.conflicts) := by
  refine ⟨fun a ha => ?_, fun row hrow => ?_, fun conflict hconflict => ?_⟩
  · simp only [resolve, List.mem_append, ResolvedTables.withoutRun, List.mem_filter,
      decide_eq_true_eq]
    constructor
    · rintro (⟨hkept, _⟩ | hnew)
      · exact hkept
      · obtain ⟨component, _, hnew⟩ := List.mem_flatMap.mp hnew
        obtain ⟨cluster, _, rfl⟩ := List.mem_map.mp hnew
        exact absurd rfl ha
    · intro hkept
      exact .inl ⟨hkept, ha⟩
  · simp only [resolve, List.mem_map, List.mem_append, ResolvedTables.withoutRun, List.mem_filter,
      decide_eq_true_eq, mem_newClusters]
    constructor
    · rintro ⟨row₀, hrow₀, rfl⟩
      rw [(nameCluster_run row₀).1] at hrow
      rw [(nameCluster_run row₀).2 hrow]
      rcases hrow₀ with ⟨hkept, _⟩ | ⟨cluster, _, _, rfl⟩
      · exact hkept
      · exact absurd rfl hrow
    · intro hkept
      exact ⟨row, .inl ⟨hkept, hrow⟩, (nameCluster_run row).2 hrow⟩
  · simp only [resolve, List.mem_append, ResolvedTables.withoutRun, List.mem_filter,
      decide_eq_true_eq]
    constructor
    · rintro (⟨hkept, _⟩ | hnew)
      · exact hkept
      · obtain ⟨_, _, rfl⟩ := List.mem_map.mp hnew
        exact absurd rfl hconflict
    · intro hkept
      exact .inl ⟨hkept, hconflict⟩

end Specifications

end ContactResolution
