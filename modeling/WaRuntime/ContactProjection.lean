import WaRuntime.CanonicalOrders
import WaRuntime.ContactResolution

/-! What is projected on a group member, and which members a projection concerns.
The queries read the evidence and the results of one resolution run, `none` where there is no
run. Push names are ordered by their observation time and key, under the collation of the
database; the keys of one source are unique, so that the id of a row decides nothing. -/
namespace ContactProjection

open CanonicalOrders ContactNormalization ContactEvidence ContactResolution

section Runs

variable (out : ResolvedTables) (run : Option RunId)

/-- The assignments of the run. -/
def assignmentsOf : List IdentityAssignment :=
  out.assignments.filter fun a => some a.runId = run

def assignmentOf (id : IdentityId) : Option IdentityAssignment :=
  (assignmentsOf out run).find? (·.identityId = id)

def clusterOf (cluster : ClusterId) : Option ResolvedCluster :=
  out.clusters.find? fun c => some c.runId = run ∧ c.clusterId = cluster

/-- The assignment, if it is RESOLVED. -/
def resolvedAssignment (id : IdentityId) : Option IdentityAssignment :=
  (assignmentOf out run id).filter (·.resolutionStatus = .resolved)

/-- The identities that are RESOLVED and in the cluster. -/
def resolvedAliases (cluster : ClusterId) : List IdentityId :=
  ((assignmentsOf out run).filter fun a =>
    a.clusterId = cluster ∧ a.resolutionStatus = .resolved).map IdentityAssignment.identityId

/-- `affected_identities` of `project`, for the work of an identity. -/
def affectedIdentities (id : IdentityId) : List IdentityId :=
  (id :: ((resolvedAssignment out run id).toList.flatMap fun root =>
    resolvedAliases out run root.clusterId)).dedup

/-- `projection_identity_id` of `enqueueContactProjectionWork`. -/
def projectionIdentity (id : IdentityId) : IdentityId :=
  ((resolvedAssignment out run id).map IdentityAssignment.clusterId).getD id

end Runs

section Members

inductive NameSource where
  | openwaContactName
  | groupParticipantName
  | openwaPushName
  | resolvedAliasPushName
  deriving DecidableEq, Repr

structure MemberProjection where
  resolvedPhone : Option String
  effectiveName : Option (String × NameSource)
  deriving DecidableEq, Repr

/-- What `project` reads besides the member: the evidence, the results of the run of its pass, and
the observations that the cutoff lets through. -/
structure ProjectionInput where
  evidence : EvidenceTables
  out : ResolvedTables
  run : Option RunId
  cutoffAt : ℕ

variable (collation : TotalOrder String)

/-- ORDER BY `source_observed_at`, `source_observation_key`. -/
def observationOrder : TotalOrder (ℕ × String) := (TotalOrder.ascending ℕ).prod collation

def observationKey (o : ContactObservation) : ℕ × String :=
  (o.sourceObservedAt, o.sourceObservationKey)

def newestObservation (rows : List ContactObservation) : Option ContactObservation :=
  (observationOrder collation).greatestBy observationKey rows

/-- The push names that were written by the cutoff. -/
def pushNames (t : EvidenceTables) (cutoffAt : ℕ) : List ContactObservation :=
  t.observations.filter fun o => o.observationSource = .openwaPushName ∧ o.createdAt ≤ cutoffAt

/-- `exact_push`. -/
def exactPush (input : ProjectionInput) (id : IdentityId) : Option ContactObservation :=
  newestObservation collation
    ((pushNames input.evidence input.cutoffAt).filter (·.identityId = id))

/-- `alias_push`, for an identity that is RESOLVED. -/
def aliasPush (input : ProjectionInput) (id : IdentityId) (cluster : ClusterId) :
    Option ContactObservation :=
  newestObservation collation ((pushNames input.evidence input.cutoffAt).filter fun o =>
    o.identityId ∈ resolvedAliases input.out input.run cluster ∧ o.identityId ≠ id)

/-- The name of the cluster of an identity that is RESOLVED. -/
def contactName (input : ProjectionInput) (id : IdentityId) : Option String :=
  (resolvedAssignment input.out input.run id).bind fun a =>
    (clusterOf input.out input.run a.clusterId).bind ResolvedCluster.contactDisplayName

def aliasName (input : ProjectionInput) (id : IdentityId) : Option String :=
  (resolvedAssignment input.out input.run id).bind fun a =>
    (aliasPush collation input id a.clusterId).map ContactObservation.nameValue

def resolvedPhone (input : ProjectionInput) (identity : ObservedIdentity) : Option String :=
  match resolvedAssignment input.out input.run identity.id with
  | some a => a.resolvedPhoneNumber
  | none =>
    if identity.type = .phoneJid then
      some (String.ofList (replaceAtEnd [dotted "@c.us"] [] identity.value.toList))
    else none

/-- `projected`, for a member with its exact identity and its participant name. -/
def projectMember (input : ProjectionInput) (identity : ObservedIdentity)
    (participantName : Option String) : MemberProjection where
  resolvedPhone := resolvedPhone input identity
  effectiveName :=
    ((contactName input identity.id).map fun name => (name, .openwaContactName)).or
      ((participantName.map fun name => (name, .groupParticipantName)).or
        (((exactPush collation input identity.id).map fun o =>
            (o.nameValue, .openwaPushName)).or
          ((aliasName collation input identity.id).map fun name =>
            (name, .resolvedAliasPushName))))

end Members

section Dirty

variable (out : ResolvedTables) (previous : Option RunId) (current : RunId)

/-- What `changed_assignments` compares. -/
def assignedAs (a : IdentityAssignment) : ClusterId × ResolutionStatus × Option String :=
  (a.clusterId, a.resolutionStatus, a.resolvedPhoneNumber)

/-- What `changed_clusters` compares. -/
def clusteredAs (c : ResolvedCluster) : Option String × ℕ × Option String :=
  (c.resolvedPhoneNumber, c.identityCount, c.contactDisplayName)

def changedAssignments : List IdentityId :=
  ((assignmentsOf out (some current)).filter fun a =>
      (assignmentOf out previous a.identityId).map assignedAs ≠ some (assignedAs a)).map
    IdentityAssignment.identityId ++
  ((assignmentsOf out previous).filter fun a =>
      assignmentOf out (some current) a.identityId = none).map IdentityAssignment.identityId

def changedClusters : List ClusterId :=
  (out.clusters.filter fun c => c.runId = current ∧
    (clusterOf out previous c.clusterId).map clusteredAs ≠ some (clusteredAs c)).map
      ResolvedCluster.clusterId

/-- `affected` of `resolve`. -/
def affectedByResolution : List IdentityId :=
  (((changedAssignments out previous current).map fun id =>
      ((assignmentOf out (some current) id).map IdentityAssignment.clusterId).getD id) ++
    changedClusters out previous current).dedup

end Dirty

end ContactProjection
