import WaRuntime.ResolutionResults

/-! Which projections a new run can change, and the works that its `resolve` requests for them.
A member shows what its identity is assigned, the name of the cluster and the names of the other
identities of the cluster; a difference in any of these is in the assignments or clusters that
differ between the two runs. The runs are those of the application, not of the backfill in SQL. -/
namespace ResolutionDirtySet

open CanonicalOrders ContactNormalization ContactEvidence ContactProjection ContactClusters
open ResolutionResults
open ContactResolution hiding clusterOf

section Queries

variable {out : ResolvedTables} {run : Option RunId} {id : IdentityId} {a : IdentityAssignment}
  {cluster : ClusterId}

theorem assignmentOf_mem (h : assignmentOf out run id = some a) :
    a ∈ assignmentsOf out run ∧ a.identityId = id :=
  ⟨List.mem_of_find?_eq_some h, by simpa using List.find?_some h⟩

theorem assignmentOf_of_mem (h : Clustered out run) (ha : a ∈ assignmentsOf out run) :
    assignmentOf out run a.identityId = some a := by
  have hsome : (assignmentOf out run a.identityId).isSome := by
    unfold assignmentOf
    rw [List.find?_isSome]
    exact ⟨a, ha, by simp⟩
  obtain ⟨b, hb⟩ := Option.isSome_iff_exists.mp hsome
  obtain ⟨hmem, hid⟩ := assignmentOf_mem hb
  rw [hb, List.inj_on_of_nodup_map h.distinct hmem ha hid]

theorem mem_resolvedAliases : id ∈ resolvedAliases out run cluster ↔
    ∃ a ∈ assignmentsOf out run, a.clusterId = cluster ∧ a.resolutionStatus = .resolved ∧
      a.identityId = id := by
  simp only [resolvedAliases, List.mem_map, List.mem_filter, decide_eq_true_eq, and_assoc]

theorem resolvedAssignment_some : resolvedAssignment out run id = some a ↔
    assignmentOf out run id = some a ∧ a.resolutionStatus = .resolved := by
  simp only [resolvedAssignment, Option.filter_eq_some_iff, decide_eq_true_eq]

/-- The identity after which a cluster is called is resolved with the rest of it. -/
theorem root_resolved (h : Clustered out run) (ha : a ∈ assignmentsOf out run)
    (hresolved : a.resolutionStatus = .resolved) :
    ∃ root, resolvedAssignment out run a.clusterId = some root ∧ root.clusterId = a.clusterId := by
  obtain ⟨root, hroot, hid, hcluster⟩ := h.rooted a ha
  refine ⟨root, resolvedAssignment_some.mpr ⟨hid ▸ assignmentOf_of_mem h hroot, ?_⟩, hcluster⟩
  by_contra hne
  have hquarantined : root.resolutionStatus = .quarantined := by
    cases hs : root.resolutionStatus with
    | resolved => exact absurd hs hne
    | quarantined => rfl
  -- in quarantine, the root would be alone in its cluster
  have hsame : a.identityId = root.identityId := h.alone root hroot hquarantined a ha hcluster.symm
  rw [List.inj_on_of_nodup_map h.distinct hroot ha hsame.symm, hresolved] at hquarantined
  cases hquarantined

/-- The work of an assigned identity's cluster concerns the identity. -/
theorem cluster_work (h : Clustered out run) (ha : assignmentOf out run id = some a) :
    id ∈ affectedIdentities out run (projectionIdentity out run a.clusterId) := by
  obtain ⟨hmem, hid⟩ := assignmentOf_mem ha
  cases hs : a.resolutionStatus with
  | resolved =>
    obtain ⟨root, hroot, hcluster⟩ := root_resolved h hmem hs
    have hwork : projectionIdentity out run a.clusterId = a.clusterId := by
      rw [projectionIdentity, hroot, Option.map_some, Option.getD_some, hcluster]
    rw [hwork]
    unfold affectedIdentities
    rw [List.mem_dedup, hroot]
    refine List.mem_cons_of_mem _ (List.mem_flatMap.mpr ⟨root, by simp, ?_⟩)
    exact mem_resolvedAliases.mpr ⟨a, hmem, hcluster.symm, hs, hid⟩
  | quarantined =>
    obtain ⟨root, hroot, hrid, hcluster⟩ := h.rooted a hmem
    have hself : a.clusterId = id := by
      rw [← hrid, h.alone a hmem hs root hroot hcluster, hid]
    have hwork : projectionIdentity out run id = id := by
      have hnone : resolvedAssignment out run id = none := by
        rw [resolvedAssignment, ha, Option.filter_some, if_neg (by simp [hs])]
      rw [projectionIdentity, hnone, Option.map_none, Option.getD_none]
    rw [hself, hwork]
    exact List.mem_dedup.mpr List.mem_cons_self

/-- The work of an identity that is not assigned concerns it. -/
theorem own_work (h : assignmentOf out run id = none) :
    id ∈ affectedIdentities out run (projectionIdentity out run id) := by
  have hwork : projectionIdentity out run id = id := by
    rw [projectionIdentity, resolvedAssignment, h, Option.filter_none, Option.map_none,
      Option.getD_none]
  rw [hwork]
  exact List.mem_dedup.mpr List.mem_cons_self

end Queries

section Projections

variable {out : ResolvedTables} {run run' : Option RunId} {collation : TotalOrder String}
  {evidence : EvidenceTables} {cutoffAt : ℕ} {identity : ObservedIdentity}

/-- What a member shows of a run: what its identity is assigned, the name of its cluster, and the
names of the other identities there. -/
theorem projection_congr (name : Option String)
    (hphone : (resolvedAssignment out run identity.id).map IdentityAssignment.resolvedPhoneNumber =
      (resolvedAssignment out run' identity.id).map IdentityAssignment.resolvedPhoneNumber)
    (hcontact : contactName ⟨evidence, out, run, cutoffAt⟩ identity.id =
      contactName ⟨evidence, out, run', cutoffAt⟩ identity.id)
    (halias : aliasName collation ⟨evidence, out, run, cutoffAt⟩ identity.id =
      aliasName collation ⟨evidence, out, run', cutoffAt⟩ identity.id) :
    projectMember collation ⟨evidence, out, run, cutoffAt⟩ identity name =
      projectMember collation ⟨evidence, out, run', cutoffAt⟩ identity name := by
  have hresolved : resolvedPhone ⟨evidence, out, run, cutoffAt⟩ identity =
      resolvedPhone ⟨evidence, out, run', cutoffAt⟩ identity := by
    unfold resolvedPhone
    cases hrun : resolvedAssignment out run identity.id with
    | none =>
      rw [hrun, Option.map_none, eq_comm, Option.map_eq_none_iff] at hphone
      rw [hphone]
    | some a =>
      rw [hrun, Option.map_some, eq_comm, Option.map_eq_some_iff] at hphone
      obtain ⟨b, hb, heq⟩ := hphone
      rw [hb]
      exact heq.symm
  have hexact : exactPush collation ⟨evidence, out, run, cutoffAt⟩ identity.id =
      exactPush collation ⟨evidence, out, run', cutoffAt⟩ identity.id := rfl
  unfold projectMember
  rw [hresolved, hcontact, halias, hexact]

theorem aliasPush_congr {cluster : ClusterId} (id : IdentityId)
    (h : ∀ x, x ∈ resolvedAliases out run cluster ↔ x ∈ resolvedAliases out run' cluster) :
    aliasPush collation ⟨evidence, out, run, cutoffAt⟩ id cluster =
      aliasPush collation ⟨evidence, out, run', cutoffAt⟩ id cluster := by
  unfold aliasPush
  simp only [h]

theorem display_name_congr {cluster : ClusterId}
    (h : (clusterOf out run cluster).map clusteredAs = (clusterOf out run' cluster).map clusteredAs) :
    (clusterOf out run cluster).bind ResolvedCluster.contactDisplayName =
      (clusterOf out run' cluster).bind ResolvedCluster.contactDisplayName := by
  have hthird : ∀ found : Option ResolvedCluster, found.bind ResolvedCluster.contactDisplayName =
      (found.map clusteredAs).bind fun shown => shown.2.2 := by
    intro found
    cases found <;> rfl
  rw [hthird, hthird, h]

end Projections

section Differences

variable {out : ResolvedTables} {previous : Option RunId} {current : RunId} {id : IdentityId}
  {a b : IdentityAssignment}

theorem changed_assignment (ha : assignmentOf out (some current) id = some a)
    (hne : (assignmentOf out previous id).map assignedAs ≠ some (assignedAs a)) :
    a.clusterId ∈ affectedByResolution out previous current := by
  obtain ⟨hmem, hid⟩ := assignmentOf_mem ha
  have hchanged : id ∈ changedAssignments out previous current := by
    refine List.mem_append_left _ (List.mem_map.mpr ⟨a, List.mem_filter.mpr ⟨hmem, ?_⟩, hid⟩)
    rw [hid]
    exact decide_eq_true hne
  refine List.mem_dedup.mpr (List.mem_append_left _ (List.mem_map.mpr ⟨id, hchanged, ?_⟩))
  rw [ha, Option.map_some, Option.getD_some]

theorem lost_assignment (ha : assignmentOf out (some current) id = none)
    (hb : assignmentOf out previous id = some b) :
    id ∈ affectedByResolution out previous current := by
  obtain ⟨hmem, hid⟩ := assignmentOf_mem hb
  have hchanged : id ∈ changedAssignments out previous current := by
    refine List.mem_append_right _ (List.mem_map.mpr ⟨b, List.mem_filter.mpr ⟨hmem, ?_⟩, hid⟩)
    rw [hid]
    exact decide_eq_true ha
  refine List.mem_dedup.mpr (List.mem_append_left _ (List.mem_map.mpr ⟨id, hchanged, ?_⟩))
  rw [ha, Option.map_none, Option.getD_none]

theorem changed_cluster {cluster : ClusterId} {row : ResolvedCluster}
    (hrow : clusterOf out (some current) cluster = some row)
    (hne : (clusterOf out previous cluster).map clusteredAs ≠ some (clusteredAs row)) :
    cluster ∈ affectedByResolution out previous current := by
  have hwhere := List.find?_some hrow
  simp only [Option.some.injEq, decide_eq_true_eq] at hwhere
  refine List.mem_dedup.mpr (List.mem_append_right _ (List.mem_map.mpr ⟨row, ?_, hwhere.2⟩))
  refine List.mem_filter.mpr ⟨List.mem_of_find?_eq_some hrow, decide_eq_true ⟨hwhere.1, ?_⟩⟩
  rw [hwhere.2]
  exact hne

/-- Where a cluster keeps its row, and the assignments that lead to it are the old ones, nobody has
left it either: it counts as many identities as before. -/
theorem same_aliases (hcurrent : Clustered out (some current)) (hprevious : Clustered out previous)
    (ha : assignmentOf out (some current) id = some a)
    (hb : assignmentOf out previous id = some b) (hsame : assignedAs b = assignedAs a)
    (hrow : (clusterOf out previous a.clusterId).map clusteredAs =
      (clusterOf out (some current) a.clusterId).map clusteredAs)
    (hkept : ∀ x ∈ assignmentsOf out (some current), x.clusterId = a.clusterId →
      (assignmentOf out previous x.identityId).map assignedAs = some (assignedAs x)) (y : IdentityId) :
    y ∈ resolvedAliases out (some current) a.clusterId ↔
      y ∈ resolvedAliases out previous a.clusterId := by
  obtain ⟨hamem, _⟩ := assignmentOf_mem ha
  obtain ⟨hbmem, _⟩ := assignmentOf_mem hb
  have hcluster : b.clusterId = a.clusterId := congrArg Prod.fst hsame
  have hold : ∀ x ∈ assignmentsOf out (some current), x.clusterId = a.clusterId →
      ∃ z ∈ assignmentsOf out previous, z.identityId = x.identityId ∧ z.clusterId = a.clusterId ∧
        z.resolutionStatus = x.resolutionStatus := by
    intro x hx hxc
    obtain ⟨z, hz, heq⟩ := Option.map_eq_some_iff.mp (hkept x hx hxc)
    obtain ⟨hzmem, hzid⟩ := assignmentOf_mem hz
    have hzc : z.clusterId = x.clusterId := congrArg Prod.fst heq
    exact ⟨z, hzmem, hzid, hzc.trans hxc, congrArg (fun shown => shown.2.1) heq⟩
  -- the two rows count the same, so that the lists of identities are equally long
  have hlength : ((assignmentsOf out previous).filter (·.clusterId = a.clusterId)).length =
      ((assignmentsOf out (some current)).filter (·.clusterId = a.clusterId)).length := by
    obtain ⟨row, hrow₁, hcount₁⟩ := hcurrent.counted a hamem
    obtain ⟨row', hrow₂, hcount₂⟩ := hprevious.counted b hbmem
    rw [hcluster] at hrow₂ hcount₂
    rw [hrow₁, hrow₂, Option.map_some, Option.map_some, Option.some.injEq] at hrow
    rw [← hcount₁, ← hcount₂]
    exact congrArg (fun shown => shown.2.1) hrow
  have hperm : (((assignmentsOf out (some current)).filter (·.clusterId = a.clusterId)).map
        IdentityAssignment.identityId).Perm
      (((assignmentsOf out previous).filter (·.clusterId = a.clusterId)).map
        IdentityAssignment.identityId) := by
    have hdistinct : (((assignmentsOf out (some current)).filter (·.clusterId = a.clusterId)).map
        IdentityAssignment.identityId).Nodup := (List.filter_sublist.map _).nodup hcurrent.distinct
    have hsub : ((assignmentsOf out (some current)).filter (·.clusterId = a.clusterId)).map
        IdentityAssignment.identityId ⊆
          ((assignmentsOf out previous).filter (·.clusterId = a.clusterId)).map
            IdentityAssignment.identityId := by
      intro x hx
      obtain ⟨z, hz, rfl⟩ := List.mem_map.mp hx
      obtain ⟨hz, hzc⟩ := List.mem_filter.mp hz
      obtain ⟨z', hz', hid, hzc', _⟩ := hold z hz (of_decide_eq_true hzc)
      exact List.mem_map.mpr ⟨z', List.mem_filter.mpr ⟨hz', decide_eq_true hzc'⟩, hid⟩
    refine (List.subperm_of_subset hdistinct hsub).perm_of_length_le ?_
    rw [List.length_map, List.length_map, hlength]
  rw [mem_resolvedAliases, mem_resolvedAliases]
  constructor
  · rintro ⟨x, hx, hxc, hxs, rfl⟩
    obtain ⟨z, hz, hid, hzc, hzs⟩ := hold x hx hxc
    exact ⟨z, hz, hzc, hzs.trans hxs, hid⟩
  · rintro ⟨z, hz, hzc, hzs, rfl⟩
    have hmem : z.identityId ∈ ((assignmentsOf out (some current)).filter
        (·.clusterId = a.clusterId)).map IdentityAssignment.identityId := by
      rw [hperm.mem_iff]
      exact List.mem_map_of_mem (List.mem_filter.mpr ⟨hz, decide_eq_true hzc⟩)
    obtain ⟨x, hx, hid⟩ := List.mem_map.mp hmem
    obtain ⟨hx, hxc⟩ := List.mem_filter.mp hx
    obtain ⟨z', hz', hid', _, hzs'⟩ := hold x hx (of_decide_eq_true hxc)
    have heq : z' = z := List.inj_on_of_nodup_map hprevious.distinct hz' hz (hid'.trans hid)
    refine ⟨x, hx, of_decide_eq_true hxc, ?_, hid⟩
    rw [← hzs', heq, hzs]

end Differences

section Requests

variable {out : ResolvedTables} {previous : Option RunId} {current : RunId}
  {collation : TotalOrder String} {evidence : EvidenceTables} {cutoffAt : ℕ}
  {identity : ObservedIdentity}

/-- The works that `resolve` requests when the run is complete. -/
def requestedWorks (out : ResolvedTables) (previous : Option RunId) (current : RunId) :
    List IdentityId :=
  ((affectedByResolution out previous current).map
    (projectionIdentity out (some current))).dedup

/-- The works that concern an identity. -/
def Concerns (out : ResolvedTables) (current : RunId) (id work : IdentityId) : Prop :=
  id ∈ affectedIdentities out (some current) work

theorem requested_of_affected {w id : IdentityId}
    (hw : w ∈ affectedByResolution out previous current)
    (hid : Concerns out current id (projectionIdentity out (some current) w)) :
    ∃ work ∈ requestedWorks out previous current, Concerns out current id work :=
  ⟨_, List.mem_dedup.mpr (List.mem_map_of_mem hw), hid⟩

theorem resolvedAssignment_quarantined {run : Option RunId} {id : IdentityId}
    {a : IdentityAssignment} (ha : assignmentOf out run id = some a)
    (hs : a.resolutionStatus = .quarantined) : resolvedAssignment out run id = none := by
  rw [resolvedAssignment, ha, Option.filter_some, if_neg (by simp [hs])]

/-- Where no requested work concerns the identity, its members show of the new run what they show
of the old one. -/
theorem unconcerned_unchanged (hcurrent : Clustered out (some current))
    (hprevious : Clustered out previous)
    (hnone : ¬ ∃ work ∈ requestedWorks out previous current,
      Concerns out current identity.id work) (name : Option String) :
    projectMember collation ⟨evidence, out, some current, cutoffAt⟩ identity name =
      projectMember collation ⟨evidence, out, previous, cutoffAt⟩ identity name := by
  cases ha : assignmentOf out (some current) identity.id with
  | none =>
    have hb : assignmentOf out previous identity.id = none := by
      by_contra hsome
      obtain ⟨b, hb⟩ := Option.ne_none_iff_exists'.mp hsome
      exact hnone (requested_of_affected (lost_assignment ha hb) (own_work ha))
    have hra : resolvedAssignment out (some current) identity.id = none := by
      rw [resolvedAssignment, ha, Option.filter_none]
    have hrb : resolvedAssignment out previous identity.id = none := by
      rw [resolvedAssignment, hb, Option.filter_none]
    apply projection_congr
    · rw [hra, hrb]
    · simp only [contactName, hra, hrb, Option.bind_none]
    · simp only [aliasName, hra, hrb, Option.bind_none]
  | some a =>
    have hfree : a.clusterId ∉ affectedByResolution out previous current :=
      fun hw => hnone (requested_of_affected hw (cluster_work hcurrent ha))
    have hsame : (assignmentOf out previous identity.id).map assignedAs = some (assignedAs a) := by
      by_contra hne
      exact hfree (changed_assignment ha hne)
    obtain ⟨b, hb, heq⟩ := Option.map_eq_some_iff.mp hsame
    have hbc : b.clusterId = a.clusterId := congrArg Prod.fst heq
    have hbs : b.resolutionStatus = a.resolutionStatus := congrArg (fun shown => shown.2.1) heq
    have hbp : b.resolvedPhoneNumber = a.resolvedPhoneNumber :=
      congrArg (fun shown => shown.2.2) heq
    cases hs : a.resolutionStatus with
    | quarantined =>
      have hra := resolvedAssignment_quarantined ha hs
      have hrb := resolvedAssignment_quarantined hb (hbs.trans hs)
      apply projection_congr
      · rw [hra, hrb]
      · simp only [contactName, hra, hrb, Option.bind_none]
      · simp only [aliasName, hra, hrb, Option.bind_none]
    | resolved =>
      have hra : resolvedAssignment out (some current) identity.id = some a :=
        resolvedAssignment_some.mpr ⟨ha, hs⟩
      have hrb : resolvedAssignment out previous identity.id = some b :=
        resolvedAssignment_some.mpr ⟨hb, hbs.trans hs⟩
      have hrow : (clusterOf out previous a.clusterId).map clusteredAs =
          (clusterOf out (some current) a.clusterId).map clusteredAs := by
        obtain ⟨row, hrow, _⟩ := hcurrent.counted a (assignmentOf_mem ha).1
        rw [hrow, Option.map_some]
        by_contra hne
        exact hfree (changed_cluster hrow hne)
      have hkept : ∀ x ∈ assignmentsOf out (some current), x.clusterId = a.clusterId →
          (assignmentOf out previous x.identityId).map assignedAs = some (assignedAs x) := by
        intro x hx hxc
        by_contra hne
        exact hfree (hxc ▸ changed_assignment (assignmentOf_of_mem hcurrent hx) hne)
      have haliases := same_aliases hcurrent hprevious ha hb heq hrow hkept
      apply projection_congr
      · rw [hra, hrb, Option.map_some, Option.map_some, hbp]
      · simp only [contactName, hra, hrb, Option.bind_some, hbc]
        exact display_name_congr hrow.symm
      · simp only [aliasName, hra, hrb, Option.bind_some, hbc]
        rw [aliasPush_congr identity.id haliases]

/-- After any runs of a session, each over the evidence of a published generation: where a member
shows something else of one run than of another, or of none, the comparison of the two requests a
work that concerns the member. -/
theorem changed_members_requested {c : ContactSnapshots.Config}
    {session : ContactSnapshots.SessionId} {history : List (ResolutionRun × Reads)}
    {after : String → String → Bool} (hread : ∀ x ∈ history, ReadBy c session x.1 x.2)
    (previous : Option RunId) (current : RunId) (evidence : EvidenceTables) (cutoffAt : ℕ)
    (identity : ObservedIdentity) (name : Option String)
    (hchanged : projectMember collation
        ⟨evidence, resolveAll after history, some current, cutoffAt⟩ identity name ≠
      projectMember collation ⟨evidence, resolveAll after history, previous, cutoffAt⟩
        identity name) :
    ∃ work ∈ requestedWorks (resolveAll after history) previous current,
      Concerns (resolveAll after history) current identity.id work := by
  have hconsistent : ∀ x ∈ history, Consistent x.1 x.2 :=
    fun x hx => read_consistent (hread x hx)
  by_contra hnone
  exact hchanged (unconcerned_unchanged (history_clustered hconsistent (some current))
    (history_clustered hconsistent previous) hnone name)

/-- A member that is known by its LID gets the phone and the push name of the phone JID, and the
first run of its session requests its cluster. -/
theorem first_run_requested :
    projectMember TotalOrder.codePoints
        ⟨linkedReads.names, resolveAll (fun _ _ => false) [(sharedPhoneRun, linkedReads)],
          some sharedPhoneRun.id, 9⟩ ⟨51, .lid, "3@lid", 2, 2⟩ none ≠
      projectMember TotalOrder.codePoints
        ⟨linkedReads.names, resolveAll (fun _ _ => false) [(sharedPhoneRun, linkedReads)],
          none, 9⟩ ⟨51, .lid, "3@lid", 2, 2⟩ none ∧
    ∃ work ∈ requestedWorks (resolveAll (fun _ _ => false) [(sharedPhoneRun, linkedReads)]) none
        sharedPhoneRun.id,
      Concerns (resolveAll (fun _ _ => false) [(sharedPhoneRun, linkedReads)]) sharedPhoneRun.id 51
        work := by
  have hread : ∀ x ∈ [(sharedPhoneRun, linkedReads)], ReadBy sharedPhoneConfig "session" x.1 x.2 := by
    intro x hx
    rw [List.mem_singleton.mp hx]
    exact linked_read
  have hchanged : projectMember TotalOrder.codePoints
        ⟨linkedReads.names, resolveAll (fun _ _ => false) [(sharedPhoneRun, linkedReads)],
          some sharedPhoneRun.id, 9⟩ ⟨51, .lid, "3@lid", 2, 2⟩ none ≠
      projectMember TotalOrder.codePoints
        ⟨linkedReads.names, resolveAll (fun _ _ => false) [(sharedPhoneRun, linkedReads)],
          none, 9⟩ ⟨51, .lid, "3@lid", 2, 2⟩ none := by decide +kernel
  exact ⟨hchanged, changed_members_requested hread none sharedPhoneRun.id linkedReads.names 9
    ⟨51, .lid, "3@lid", 2, 2⟩ none hchanged⟩

end Requests

end ResolutionDirtySet
