import Mathlib.Algebra.BigOperators.Group.List.Lemmas
import WaRuntime.ContactClusters
import WaRuntime.ContactProjection

/-! The results of a resolution run, as every later query finds them: one assignment for each
component, one row for each cluster, and the counts that the completion reports. The tables are as
the statements of the application write them; the backfill in SQL, which also writes them, is left
out. -/
namespace ResolutionResults

open ContactNormalization ContactEvidence ContactProjection ContactClusters
open ContactResolution hiding clusterOf

/-- What the assignments of a run and its clusters have to do with each other. A cluster is called
after one of its identities, and an identity with a conflict is in a cluster by itself. -/
structure Clustered (out : ResolvedTables) (run : Option RunId) : Prop where
  distinct : ((assignmentsOf out run).map IdentityAssignment.identityId).Nodup
  counted : ∀ a ∈ assignmentsOf out run, ∃ row, clusterOf out run a.clusterId = some row ∧
    row.identityCount = ((assignmentsOf out run).filter (·.clusterId = a.clusterId)).length
  rooted : ∀ a ∈ assignmentsOf out run, ∃ b ∈ assignmentsOf out run,
    b.identityId = a.clusterId ∧ b.clusterId = a.clusterId
  alone : ∀ a ∈ assignmentsOf out run, a.resolutionStatus = .quarantined →
    ∀ b ∈ assignmentsOf out run, b.clusterId = a.clusterId → b.identityId = a.identityId

theorem mem_assignmentsOf {out : ResolvedTables} {run : Option RunId} {a : IdentityAssignment} :
    a ∈ assignmentsOf out run ↔ a ∈ out.assignments ∧ some a.runId = run := by
  simp only [assignmentsOf, List.mem_filter, decide_eq_true_eq]

/-- A run that is not there has no results. -/
theorem clustered_of_empty {out : ResolvedTables} {run : Option RunId}
    (h : assignmentsOf out run = []) : Clustered out run := by
  constructor <;> simp [h]

section Components

variable {run : ResolutionRun} {t : EvidenceTables} {edges : List (IdentityId × IdentityId)}
  {components : List (IdentityId × ClusterId)} {clusters : List ResolvedCluster}
  {conflicts : List (IdentityId × ConflictCode)}

theorem keyed_sublist (f : IdentityId → Option ClusterId) (ids : List IdentityId) :
    ((ids.filterMap fun id => (f id).map (id, ·)).map Prod.fst).Sublist ids := by
  induction ids with
  | nil => exact List.Sublist.slnil
  | cons id ids ih =>
    cases hf : f id with
    | none =>
      simp only [List.filterMap_cons, hf, Option.map_none]
      exact ih.cons id
    | some cluster =>
      simp only [List.filterMap_cons, hf, Option.map_some, List.map_cons]
      exact ih.cons_cons id

/-- A node has one component. -/
theorem components_nodup : ((resolutionComponents run t edges).map Prod.fst).Nodup :=
  (keyed_sublist _ _).nodup (List.nodup_dedup _)

theorem newClusters_ids :
    ((newClusters run t components).map ResolvedCluster.clusterId).Nodup := by
  unfold newClusters
  rw [List.map_map]
  have hsame : ResolvedCluster.clusterId ∘ (fun cluster : ClusterId =>
      (⟨run.id, cluster, clusterPhone (clusterIdentities t components cluster), none,
        (clusterIdentities t components cluster).length⟩ : ResolvedCluster)) = id := rfl
  rw [hsame, List.map_id]
  exact (List.nodup_dedup _).filter _

/-- Where no two rows share a key, at most one row has a given one. -/
theorem filter_key_length {α β : Type*} {f : α → β} {l : List α} {p : α → Bool} {key : β}
    (hnodup : (l.map f).Nodup) (hkey : ∀ x, p x = true → f x = key) : (l.filter p).length ≤ 1 := by
  have hsame : (l.filter p).map f = List.replicate (l.filter p).length key := by
    rw [List.eq_replicate_iff]
    refine ⟨List.length_map _, fun b hb => ?_⟩
    obtain ⟨x, hx, rfl⟩ := List.mem_map.mp hb
    exact hkey x (List.mem_filter.mp hx).2
  have hsub : ((l.filter p).map f).Nodup := (List.filter_sublist.map f).nodup hnodup
  rw [hsame, List.nodup_replicate] at hsub
  exact hsub

/-- Where a cluster has one row, a component has one assignment at most. -/
theorem newAssignments_sublist (hnodup : (clusters.map ResolvedCluster.clusterId).Nodup) :
    ((newAssignments run clusters conflicts components).map
      IdentityAssignment.identityId).Sublist (components.map Prod.fst) := by
  induction components with
  | nil => exact List.Sublist.slnil
  | cons component components ih =>
    unfold newAssignments at ih ⊢
    rw [List.flatMap_cons, List.map_append, List.map_map]
    have hone : (clusters.filter fun cluster =>
        cluster.runId = run.id ∧ cluster.clusterId = component.2).length ≤ 1 :=
      filter_key_length hnodup fun x hx => (of_decide_eq_true hx).2
    change List.Sublist _ ([component.1] ++ components.map Prod.fst)
    refine List.Sublist.append ?_ ih
    have hids : ∀ rows : List ResolvedCluster, rows.map (IdentityAssignment.identityId ∘
        fun cluster => (⟨run.id, component.1, component.2, assignmentStatus conflicts component.1,
          if IsConflicted conflicts component.1 then none else cluster.resolvedPhoneNumber⟩ :
            IdentityAssignment)) = List.replicate rows.length component.1 := by
      intro rows
      exact List.map_const' ..
    rw [hids]
    exact (List.replicate_sublist_replicate component.1).mpr hone

end Components

section Resolved

variable {run : ResolutionRun} {r : Reads} {out : ResolvedTables}
  {after : String → String → Bool} {id : IdentityId} {cluster : ClusterId}

theorem mem_resolved {a : IdentityAssignment} :
    a ∈ assignmentsOf (resolve after run r out) (some run.id) ↔
      a ∈ (resolve after run r out).assignments ∧ a.runId = run.id := by
  rw [mem_assignmentsOf, Option.some.injEq]

/-- The assignments of a run after it are its new ones. -/
theorem assignmentsOf_resolve : assignmentsOf (resolve after run r out) (some run.id) =
    newAssignments run (newClusters run r.clusters (r.clustered run)) (r.conflicted run)
      (r.clustered run) := by
  have hkept : ((out.withoutRun run.id).assignments.filter fun a => some a.runId = some run.id) =
      [] := by
    refine List.filter_eq_nil_iff.mpr fun a ha => ?_
    have hother := of_decide_eq_true (List.mem_filter.mp ha).2
    simpa using hother
  have hclusters : ∀ cluster : ClusterId, (((out.withoutRun run.id).clusters ++
      newClusters run r.clusters (r.clustered run)).filter fun row =>
        row.runId = run.id ∧ row.clusterId = cluster) =
      (newClusters run r.clusters (r.clustered run)).filter fun row =>
        row.runId = run.id ∧ row.clusterId = cluster := by
    intro cluster
    have hnone : ((out.withoutRun run.id).clusters.filter fun row =>
        row.runId = run.id ∧ row.clusterId = cluster) = [] := by
      refine List.filter_eq_nil_iff.mpr fun row hrow => ?_
      have hother := of_decide_eq_true (List.mem_filter.mp hrow).2
      simp only [decide_eq_true_eq, not_and]
      exact fun hrun => absurd hrun hother
    rw [List.filter_append, hnone, List.nil_append]
  have hnew : newAssignments run ((out.withoutRun run.id).clusters ++
        newClusters run r.clusters (r.clustered run)) (r.conflicted run) (r.clustered run) =
      newAssignments run (newClusters run r.clusters (r.clustered run)) (r.conflicted run)
        (r.clustered run) := by
    unfold newAssignments
    simp only [hclusters]
  unfold resolve assignmentsOf
  rw [List.filter_append, hkept, List.nil_append, hnew, List.filter_eq_self]
  intro a ha
  obtain ⟨component, _, ha⟩ := List.mem_flatMap.mp ha
  obtain ⟨row, _, rfl⟩ := List.mem_map.mp ha
  exact decide_eq_true rfl

theorem resolved_distinct : ((assignmentsOf (resolve after run r out) (some run.id)).map
    IdentityAssignment.identityId).Nodup := by
  rw [assignmentsOf_resolve]
  exact (newAssignments_sublist newClusters_ids).nodup components_nodup

/-- An assignment of the run is one of its components. -/
theorem resolved_component {a : IdentityAssignment}
    (ha : a ∈ assignmentsOf (resolve after run r out) (some run.id)) :
    (a.identityId, a.clusterId) ∈ r.clustered run :=
  (mem_assignments.mp (mem_resolved.mp ha)).1

theorem component_resolved (after : String → String → Bool) (out : ResolvedTables)
    (h : Consistent run r) (hc : (id, cluster) ∈ r.clustered run) :
    ∃ a ∈ assignmentsOf (resolve after run r out) (some run.id),
      a.identityId = id ∧ a.clusterId = cluster := by
  obtain ⟨a, ha, hrun, hid, hcluster⟩ := component_assigned after out h hc
  exact ⟨a, mem_resolved.mpr ⟨ha, hrun⟩, hid, hcluster⟩

/-- A cluster has the least of its identities for its name. -/
theorem component_rooted (h : Consistent run r) (hc : (id, cluster) ∈ r.clustered run) :
    (cluster, cluster) ∈ r.clustered run := by
  obtain ⟨hnode, hconnected, hleast⟩ := (mem_resolutionComponents h.components).mp hc
  refine (mem_resolutionComponents h.components).mpr ⟨hnode, .refl _, fun root hroot hrc => ?_⟩
  exact hleast root hroot (hrc.trans _ _ _ hconnected)

/-- As many identities are in a cluster as are assigned to it. -/
theorem cluster_size (after : String → String → Bool) (out : ResolvedTables)
    (h : Consistent run r) :
    ((assignmentsOf (resolve after run r out) (some run.id)).filter
        (·.clusterId = cluster)).length =
      (clusterIdentities r.clusters (r.clustered run) cluster).length := by
  have hperm : (((assignmentsOf (resolve after run r out) (some run.id)).filter
        (·.clusterId = cluster)).map IdentityAssignment.identityId).Perm
      ((clusterIdentities r.clusters (r.clustered run) cluster).map ObservedIdentity.id) := by
    refine (List.perm_ext_iff_of_nodup ?_ ?_).mpr fun id => ?_
    · exact (List.filter_sublist.map _).nodup resolved_distinct
    · exact (List.filter_sublist.map _).nodup h.clusters.ids
    · simp only [List.mem_map, List.mem_filter, decide_eq_true_eq, clusterIdentities]
      constructor
      · rintro ⟨a, ⟨ha, rfl⟩, rfl⟩
        have hc := resolved_component ha
        obtain ⟨k, i, hi, hid, _⟩ := clustered_named h hc
        exact ⟨i, ⟨hi, hid ▸ hc⟩, hid⟩
      · rintro ⟨i, ⟨_, hc⟩, rfl⟩
        obtain ⟨a, ha, hid, hcluster⟩ := component_resolved after out h hc
        exact ⟨a, ⟨ha, hcluster⟩, hid⟩
  have hlength := hperm.length_eq
  rwa [List.length_map, List.length_map] at hlength

theorem nameCluster_keeps (assignments : List IdentityAssignment) (row : ResolvedCluster) :
    (nameCluster run after r.names assignments row).clusterId = row.clusterId ∧
      (nameCluster run after r.names assignments row).identityCount = row.identityCount := by
  unfold nameCluster
  split
  · split <;> exact ⟨rfl, rfl⟩
  · exact ⟨rfl, rfl⟩

theorem resolve_clusters : (resolve after run r out).clusters =
    ((out.withoutRun run.id).clusters ++ newClusters run r.clusters (r.clustered run)).map
      (nameCluster run after r.names (resolve after run r out).assignments) := rfl

/-- The rows of the clusters of the run: as many identities as were found in each. -/
theorem resolved_row {row : ResolvedCluster} (hrow : row ∈ (resolve after run r out).clusters)
    (hrun : row.runId = run.id) : row.identityCount =
      (clusterIdentities r.clusters (r.clustered run) row.clusterId).length := by
  obtain ⟨row₀, hrow₀, rfl⟩ := List.mem_map.mp hrow
  rw [(nameCluster_run row₀).1] at hrun
  rw [(nameCluster_keeps _ row₀).1, (nameCluster_keeps _ row₀).2]
  rcases List.mem_append.mp hrow₀ with hkept | hnew
  · exact absurd hrun (of_decide_eq_true (List.mem_filter.mp hkept).2)
  · obtain ⟨cluster, _, _, rfl⟩ := mem_newClusters.mp hnew
    rfl

theorem component_row (after : String → String → Bool) (out : ResolvedTables)
    (h : Consistent run r) (hc : (id, cluster) ∈ r.clustered run) :
    ∃ row ∈ (resolve after run r out).clusters, row.runId = run.id ∧ row.clusterId = cluster := by
  obtain ⟨k, i, hi, hid, _⟩ := clustered_named h hc
  have hmember : i ∈ clusterIdentities r.clusters (r.clustered run) cluster :=
    List.mem_filter.mpr ⟨hi, decide_eq_true (hid ▸ hc)⟩
  have hnew := (@mem_newClusters run _ _ _).mpr
    ⟨cluster, List.mem_map_of_mem (f := Prod.snd) hc, List.ne_nil_of_mem hmember, rfl⟩
  refine ⟨_, List.mem_map_of_mem (List.mem_append_right _ hnew), ?_, (nameCluster_keeps _ _).1⟩
  exact (nameCluster_run _).1

/-- The query for a cluster finds it where a row is there. -/
theorem clusterOf_of_row {row : ResolvedCluster} (hrow : row ∈ out.clusters) :
    ∃ found, clusterOf out (some row.runId) row.clusterId = some found ∧
      found ∈ out.clusters ∧ found.runId = row.runId ∧ found.clusterId = row.clusterId := by
  have hsome : (clusterOf out (some row.runId) row.clusterId).isSome := by
    unfold clusterOf
    rw [List.find?_isSome]
    exact ⟨row, hrow, by simp⟩
  obtain ⟨found, hfound⟩ := Option.isSome_iff_exists.mp hsome
  have hwhere := List.find?_some hfound
  simp only [Option.some.injEq, decide_eq_true_eq] at hwhere
  exact ⟨found, hfound, List.mem_of_find?_eq_some hfound, hwhere.1, hwhere.2⟩

/-- An identity with a conflict has no edge left, so nothing is connected with it. -/
theorem conflicted_alone (h : Consistent run r) {other : IdentityId}
    (hid : (id, cluster) ∈ r.clustered run) (hother : (other, cluster) ∈ r.clustered run)
    (hconflicted : IsConflicted (r.conflicted run) id) : other = id := by
  have hwritten := evidence_written h
  obtain ⟨k, hk⟩ := clustered_named h hid
  obtain ⟨l, hl⟩ := clustered_named h hother
  have hck := (conflicted_iff h hk).mp hconflicted
  have hlid := (conflicted_lid hwritten hck).1
  have hfrom : ∀ p, ¬ (evidenceOf run r).Eligible k p := by
    rintro p ⟨source, hlink, heligible⟩
    rcases heligible with rfl | hnot
    · have hjid := (hwritten.derived k p hlink).1
      rw [hlid] at hjid
      cases hjid
    · exact hnot hck
  have hto : ∀ x, ¬ (evidenceOf run r).Eligible x k := by
    rintro x ⟨source, hlink, _⟩
    have hphone := hwritten.right x k source hlink
    rw [hlid] at hphone
    cases hphone
  have hconnected := (connected_iff h hk hl).mp ((same_cluster h.components hid hother).mp rfl)
  have hsame : k = l := by
    rcases RecursiveQuery.connected_cases (eligible_stars hwritten) hconnected with
      heq | hedge | hedge | ⟨p, hedge, _⟩
    · exact heq
    · exact absurd hedge (hfrom l)
    · exact absurd hedge (hto l)
    · exact absurd hedge (hfrom p)
  subst hsame
  exact names_id h.clusters hl hk

/-- What a run leaves is clustered, whatever results there were before. -/
theorem resolve_clustered (h : Consistent run r) (after : String → String → Bool)
    (out : ResolvedTables) : Clustered (resolve after run r out) (some run.id) := by
  refine ⟨resolved_distinct, fun a ha => ?_, fun a ha => ?_, fun a ha hstatus b hb hcluster => ?_⟩
  · obtain ⟨row, hrow, hrun, hid⟩ := component_row after out h
      (resolved_component ha)
    obtain ⟨found, hfound, hmem, hrun', hid'⟩ := clusterOf_of_row hrow
    rw [hrun, hid] at hfound
    refine ⟨found, hfound, ?_⟩
    rw [resolved_row hmem (hrun'.trans hrun), hid', hid, cluster_size after out h]
  · exact component_resolved after out h (component_rooted h (resolved_component ha))
  · have hconflicted : IsConflicted (r.conflicted run) a.identityId := by
      by_contra hnot
      obtain ⟨_, _, _, hresolved, _⟩ := mem_assignments.mp (mem_resolved.mp ha)
      rw [hresolved, assignmentStatus, if_neg hnot] at hstatus
      cases hstatus
    exact conflicted_alone h (resolved_component ha) (hcluster ▸ resolved_component hb) hconflicted

end Resolved

section History

variable {after : String → String → Bool} {run : ResolutionRun} {r : Reads} {out : ResolvedTables}
  {id : RunId}

/-- The results after the runs of a session, in the order in which they completed. -/
def resolveAll (after : String → String → Bool) (history : List (ResolutionRun × Reads)) :
    ResolvedTables :=
  history.foldl (fun out x => resolve after x.1 x.2 out) ⟨[], [], []⟩

theorem assignmentsOf_other (h : id ≠ run.id) :
    assignmentsOf (resolve after run r out) (some id) = assignmentsOf out (some id) := by
  have hnew : ((newAssignments run ((out.withoutRun run.id).clusters ++
      newClusters run r.clusters (r.clustered run)) (r.conflicted run) (r.clustered run)).filter
        fun a => some a.runId = some id) = [] := by
    refine List.filter_eq_nil_iff.mpr fun a ha => ?_
    obtain ⟨component, _, ha⟩ := List.mem_flatMap.mp ha
    obtain ⟨row, _, rfl⟩ := List.mem_map.mp ha
    simpa using h.symm
  unfold resolve assignmentsOf
  rw [List.filter_append, hnew, List.append_nil]
  unfold ResolvedTables.withoutRun
  rw [List.filter_filter]
  refine List.filter_congr fun a _ => ?_
  by_cases ha : a.runId = id
  · simp [ha, h]
  · simp [ha]

theorem clusterOf_other (h : id ≠ run.id) (cluster : ClusterId) :
    clusterOf (resolve after run r out) (some id) cluster = clusterOf out (some id) cluster := by
  have hnamed : (fun c : ResolvedCluster => decide (some c.runId = some id ∧ c.clusterId = cluster)) ∘
      nameCluster run after r.names (resolve after run r out).assignments =
      fun c => decide (some c.runId = some id ∧ c.clusterId = cluster) := by
    funext c
    simp only [Function.comp_apply, (nameCluster_run c).1, (nameCluster_keeps _ c).1]
  have hnew : (newClusters run r.clusters (r.clustered run)).find?
      (fun c => some c.runId = some id ∧ c.clusterId = cluster) = none := by
    refine List.find?_eq_none.mpr fun c hc => ?_
    obtain ⟨_, _, _, rfl⟩ := mem_newClusters.mp hc
    simp [h.symm]
  have hkept : (out.withoutRun run.id).clusters.find?
      (fun c => some c.runId = some id ∧ c.clusterId = cluster) = clusterOf out (some id) cluster := by
    unfold ResolvedTables.withoutRun clusterOf
    rw [List.find?_filter]
    congr 1
    funext c
    by_cases hc : c.runId = id
    · simp [hc, h]
    · simp [hc]
  have hfind : clusterOf (resolve after run r out) (some id) cluster =
      (clusterOf out (some id) cluster).map
        (nameCluster run after r.names (resolve after run r out).assignments) := by
    rw [← hkept, clusterOf, resolve_clusters, List.find?_map, List.find?_append, hnamed, hnew,
      Option.or_none]
  rw [hfind]
  cases hfound : clusterOf out (some id) cluster with
  | none => rfl
  | some c =>
    have hc := List.find?_some hfound
    simp only [Option.some.injEq, decide_eq_true_eq] at hc
    rw [Option.map_some, (nameCluster_run c).2 fun heq => h (hc.1.symm.trans heq)]

/-- A run leaves what the other runs have left. -/
theorem clustered_other (h : id ≠ run.id) (hclustered : Clustered out (some id)) :
    Clustered (resolve after run r out) (some id) := by
  obtain ⟨hdistinct, hcounted, hrooted, halone⟩ := hclustered
  constructor <;> rw [assignmentsOf_other h]
  · exact hdistinct
  · intro a ha
    rw [clusterOf_other h]
    exact hcounted a ha
  · exact hrooted
  · exact halone

/-- However many runs have completed, the results of each are clustered. -/
theorem history_clustered {history : List (ResolutionRun × Reads)}
    (hread : ∀ x ∈ history, Consistent x.1 x.2) (previous : Option RunId) :
    Clustered (resolveAll after history) previous := by
  cases previous with
  | none =>
    apply clustered_of_empty
    exact List.filter_eq_nil_iff.mpr fun a _ => by simp
  | some id =>
    unfold resolveAll
    induction history using List.reverseRecOn with
    | nil => exact clustered_of_empty rfl
    | append_singleton history x ih =>
      rw [List.foldl_append, List.foldl_cons, List.foldl_nil]
      have hx : Consistent x.1 x.2 := hread x (by simp)
      by_cases hid : id = x.1.id
      · rw [hid]
        exact resolve_clustered hx after _
      · exact clustered_other hid (ih fun y hy => hread y (by simp [hy]))

end History

section Report

variable {run : ResolutionRun} {r : Reads} {after : String → String → Bool} {out : ResolvedTables}

/-- An identity and its cluster, as a component has them. -/
def assigned (a : IdentityAssignment) : IdentityId × ClusterId := (a.identityId, a.clusterId)

/-- The assignments of a run are its components. -/
theorem assigned_perm (after : String → String → Bool) (out : ResolvedTables)
    (h : Consistent run r) :
    ((assignmentsOf (resolve after run r out) (some run.id)).map assigned).Perm
      (r.clustered run) := by
  have hfirst : Prod.fst ∘ assigned = IdentityAssignment.identityId := rfl
  refine (List.perm_ext_iff_of_nodup ?_ (components_nodup.of_map _)).mpr fun component => ?_
  · refine List.Nodup.of_map Prod.fst ?_
    rw [List.map_map, hfirst]
    exact resolved_distinct
  · rw [List.mem_map]
    constructor
    · rintro ⟨a, ha, rfl⟩
      exact resolved_component ha
    · intro hc
      obtain ⟨a, ha, hid, hcluster⟩ := component_resolved after out h hc
      exact ⟨a, ha, Prod.ext hid hcluster⟩

/-- How many components a cluster has is how many identities are assigned to it. -/
theorem cluster_count (after : String → String → Bool) (out : ResolvedTables)
    (h : Consistent run r) (cluster : ClusterId) :
    ((r.clustered run).map Prod.snd).count cluster =
      ((assignmentsOf (resolve after run r out) (some run.id)).filter
        (·.clusterId = cluster)).length := by
  have hperm := (assigned_perm after out h).map Prod.snd
  rw [← hperm.count_eq, List.map_map, List.count_eq_countP, List.countP_map,
    List.countP_eq_length_filter]
  refine congrArg List.length (List.filter_congr fun a _ => ?_)
  rw [Function.comp_apply, Function.comp_apply, beq_eq_decide]
  rfl

/-- The row of the cluster of an assignment counts more identities than one. -/
def Linked (out : ResolvedTables) (run : Option RunId) (a : IdentityAssignment) : Prop :=
  ∃ row ∈ clusterOf out run a.clusterId, 1 < row.identityCount

instance (out : ResolvedTables) (run : Option RunId) (a : IdentityAssignment) :
    Decidable (Linked out run a) :=
  inferInstanceAs (Decidable (∃ row ∈ clusterOf out run a.clusterId, 1 < row.identityCount))

theorem linked_iff (after : String → String → Bool) (out : ResolvedTables)
    (h : Consistent run r) {a : IdentityAssignment}
    (ha : a ∈ assignmentsOf (resolve after run r out) (some run.id)) :
    Linked (resolve after run r out) (some run.id) a ↔
      1 < ((r.clustered run).map Prod.snd).count a.clusterId := by
  obtain ⟨row, hrow, hcount⟩ := (resolve_clustered h after out).counted a ha
  rw [cluster_count after out h, ← hcount]
  constructor
  · rintro ⟨row', hrow', hlinked⟩
    rw [Option.mem_def, hrow] at hrow'
    cases hrow'
    exact hlinked
  · intro hlinked
    exact ⟨row, hrow, hlinked⟩

theorem reported_identities (after : String → String → Bool) (out : ResolvedTables)
    (h : Consistent run r) : (resolutionResult r run).identities =
    (assignmentsOf (resolve after run r out) (some run.id)).length := by
  have hperm := assigned_perm after out h
  calc (resolutionResult r run).identities
      = ((r.clustered run).map Prod.snd).length := List.sum_map_count_dedup_eq_length _
    _ = ((assignmentsOf (resolve after run r out) (some run.id)).map assigned).length := by
      rw [List.length_map, hperm.length_eq]
    _ = (assignmentsOf (resolve after run r out) (some run.id)).length := List.length_map _

theorem reported_clusters (after : String → String → Bool) (out : ResolvedTables)
    (h : Consistent run r) : (resolutionResult r run).clusters =
    ((resolve after run r out).clusters.filter (·.runId = run.id)).length := by
  have hfound : ((r.clustered run).map Prod.snd).dedup.filter (fun cluster =>
      clusterIdentities r.clusters (r.clustered run) cluster ≠ []) =
      ((r.clustered run).map Prod.snd).dedup := by
    rw [List.filter_eq_self]
    intro cluster hcluster
    obtain ⟨component, hc, rfl⟩ := List.mem_map.mp (List.mem_dedup.mp hcluster)
    obtain ⟨k, i, hi, hid, _⟩ := clustered_named h hc
    have hmember : i ∈ clusterIdentities r.clusters (r.clustered run) component.2 :=
      List.mem_filter.mpr ⟨hi, decide_eq_true (hid ▸ hc)⟩
    exact decide_eq_true (List.ne_nil_of_mem hmember)
  have hkept : ((out.withoutRun run.id).clusters.filter (·.runId = run.id)) = [] := by
    refine List.filter_eq_nil_iff.mpr fun row hrow => ?_
    have hother := of_decide_eq_true (List.mem_filter.mp hrow).2
    simpa using hother
  have hnew : (newClusters run r.clusters (r.clustered run)).filter (·.runId = run.id) =
      newClusters run r.clusters (r.clustered run) := by
    rw [List.filter_eq_self]
    intro row hrow
    obtain ⟨_, _, _, rfl⟩ := mem_newClusters.mp hrow
    exact decide_eq_true rfl
  have hnamed : (fun row : ResolvedCluster => decide (row.runId = run.id)) ∘
      nameCluster run after r.names (resolve after run r out).assignments =
      fun row => decide (row.runId = run.id) := by
    funext row
    simp only [Function.comp_apply, (nameCluster_run row).1]
  have hrows : ((resolve after run r out).clusters.filter (·.runId = run.id)).length =
      (newClusters run r.clusters (r.clustered run)).length := by
    rw [resolve_clusters, List.filter_map, List.length_map, hnamed, List.filter_append, hkept,
      List.nil_append, hnew]
  rw [hrows]
  unfold resolutionResult newClusters
  simp only [List.length_map, hfound]

theorem reported_linked (after : String → String → Bool) (out : ResolvedTables)
    (h : Consistent run r) :
    (resolutionResult r run).linkedIdentities =
      ((assignmentsOf (resolve after run r out) (some run.id)).filter
        (Linked (resolve after run r out) (some run.id))).length := by
  have hperm := (assigned_perm after out h).map Prod.snd
  calc (resolutionResult r run).linkedIdentities
      = ((r.clustered run).map Prod.snd).countP fun cluster =>
          1 < ((r.clustered run).map Prod.snd).count cluster := by
        rw [← List.sum_map_count_dedup_filter_eq_countP]
        unfold resolutionResult
        simp only [List.filter_map]
        rfl
    _ = (assignmentsOf (resolve after run r out) (some run.id)).countP fun a =>
          1 < ((r.clustered run).map Prod.snd).count a.clusterId := by
        rw [← hperm.countP_eq, List.map_map, List.countP_map]
        rfl
    _ = _ := by
        rw [List.countP_eq_length_filter]
        refine congrArg List.length (List.filter_congr fun a ha => ?_)
        exact decide_eq_decide.mpr (linked_iff after out h ha).symm

theorem reported_conflicts (after : String → String → Bool) (out : ResolvedTables)
    (h : Consistent run r) :
    (resolutionResult r run).conflictIdentities =
      ((assignmentsOf (resolve after run r out) (some run.id)).filter
        (·.resolutionStatus = .quarantined)).length := by
  have hquarantined : ∀ a ∈ assignmentsOf (resolve after run r out) (some run.id),
      a.resolutionStatus = .quarantined ↔ IsConflicted (r.conflicted run) a.identityId := by
    intro a ha
    obtain ⟨_, _, _, hstatus, _⟩ := mem_assignments.mp (mem_resolved.mp ha)
    rw [hstatus]
    unfold assignmentStatus
    split
    · rename_i hconflicted
      exact iff_of_true rfl hconflicted
    · rename_i hfree
      exact iff_of_false (by decide) hfree
  have hperm : (((r.conflicted run).map Prod.fst).dedup.filter fun id =>
        ∃ component ∈ r.clustered run, component.1 = id).Perm
      (((assignmentsOf (resolve after run r out) (some run.id)).filter
        (·.resolutionStatus = .quarantined)).map IdentityAssignment.identityId) := by
    refine (List.perm_ext_iff_of_nodup ((List.nodup_dedup _).filter _)
      ((List.filter_sublist.map _).nodup resolved_distinct)).mpr fun id => ?_
    simp only [List.mem_filter, List.mem_dedup, List.mem_map, decide_eq_true_eq]
    constructor
    · rintro ⟨hconflict, ⟨_, cluster⟩, hc, rfl⟩
      obtain ⟨a, ha, hid, _⟩ := component_resolved after out h hc
      exact ⟨a, ⟨ha, (hquarantined a ha).mpr (hid ▸ hconflict)⟩, hid⟩
    · rintro ⟨a, ⟨ha, hstatus⟩, rfl⟩
      exact ⟨(hquarantined a ha).mp hstatus, _, resolved_component ha, rfl⟩
  have hlength := hperm.length_eq
  rwa [List.length_map] at hlength

/-- What a run of a session reports is what it leaves: its assignments, its clusters, the assignments
to clusters of more than one identity, and the assignments in quarantine. -/
theorem report_is_stored {c : ContactSnapshots.Config} {session : ContactSnapshots.SessionId}
    (h : ReadBy c session run r) (after : String → String → Bool) (out : ResolvedTables) :
    resolutionResult r run =
      { identities := (assignmentsOf (resolve after run r out) (some run.id)).length
        clusters := ((resolve after run r out).clusters.filter (·.runId = run.id)).length
        linkedIdentities := ((assignmentsOf (resolve after run r out) (some run.id)).filter
          (Linked (resolve after run r out) (some run.id))).length
        conflictIdentities := ((assignmentsOf (resolve after run r out) (some run.id)).filter
          (·.resolutionStatus = .quarantined)).length } := by
  have hr := read_consistent h
  have hidentities := reported_identities after out hr
  have hclusters := reported_clusters after out hr
  have hlinked := reported_linked after out hr
  have hconflicts := reported_conflicts after out hr
  rw [← hidentities, ← hclusters, ← hlinked, ← hconflicts]

/-- A contact with a phone, beside the phone JID of that phone. -/
def linkedTrace : List ContactSnapshots.Event :=
  [.tick 1000,
   .call "session" (.begin_ 1 7 false none),
   .call "session" (.ingestObservedPage ⟨1, 7⟩ 2 [⟨"3@lid", "56", some "An", none⟩]),
   .call "session" (.complete
     (fun key => (key.2.toList.headD 'a').toNat + if key.1 = .phone then 100 else 0)
     ⟨1, 7⟩ 3 4 60000),
   .call "session" (.observeMessageSender
     (fun key => (key.2.toList.headD 'a').toNat + if key.1 = .phone then 100 else 0)
     3 "56@c.us" (some "Binh") 3 "m1")]

def linkedState : ContactSnapshots.State :=
  TransitionRuns.runTrace (ContactSnapshots.system sharedPhoneConfig) ContactSnapshots.initial
    linkedTrace

def linkedReads : Reads :=
  let t := (linkedState.sessions "session").evidence
  ⟨t, t, t, t, t⟩

theorem linked_read : ReadBy sharedPhoneConfig "session" sharedPhoneRun linkedReads := by
  have hreach : TransitionRuns.Reachable (ContactSnapshots.system sharedPhoneConfig) linkedState :=
    ⟨_, TransitionRuns.valid_trace_run rfl (by decide +kernel)⟩
  refine ⟨_, _, _, _, _, [], [], [], [], hreach, ?_, .refl, .refl, .refl, .refl, rfl⟩
  unfold Published
  decide +kernel

/-- The three identities of the contact are one cluster. -/
theorem linked_reported :
    resolutionResult linkedReads sharedPhoneRun = ⟨3, 1, 3, 0⟩ ∧
      ((assignmentsOf (resolve (fun _ _ => false) sharedPhoneRun linkedReads ⟨[], [], []⟩)
        (some sharedPhoneRun.id)).length = 3) := by
  have hreport : resolutionResult linkedReads sharedPhoneRun = ⟨3, 1, 3, 0⟩ := by decide +kernel
  have hstored := report_is_stored linked_read (fun _ _ => false) ⟨[], [], []⟩
  rw [hreport] at hstored
  exact ⟨hreport, (congrArg ContactResolutionResult.identities hstored).symm⟩

end Report

end ResolutionResults
