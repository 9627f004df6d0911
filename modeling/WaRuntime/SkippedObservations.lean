import Mathlib.Data.List.Pairwise
import WaRuntime.ContactProjection
import WaRuntime.EvidenceBackfill

/-! Push names that are stored without a request for projection work.
The writer compares a new push name with the newest one of the same identity. A member may show the
newest name of the other identities of its cluster, where no such comparison is made. -/
namespace SkippedObservations

open CanonicalOrders ContactNormalization ContactEvidence ContactProjection EvidenceBackfill
open ContactResolution hiding clusterOf

/-- What `observeMessageSender` is called with, besides its session. -/
structure MessageObservation where
  input : ContactEvidenceIdentityInput
  pushName : String
  observedAt : ℕ
  observationKey : String
  deriving DecidableEq, Repr

section Writer

variable (collation : TotalOrder String) (now : ℕ) (m : MessageObservation)

/-- `inserted`, on the tables that hold the identity: nothing, where its key is taken. -/
def insertedObservation (t : EvidenceTables) : Option ContactObservation :=
  (messageObservation now m.pushName m.observedAt m.observationKey t m.input).filter fun row =>
    ¬ t.observations.any fun o => o.observationSource == row.observationSource &&
      o.sourceObservationKey == row.sourceObservationKey

/-- `previous`. -/
def previousPush (t : EvidenceTables) (id : IdentityId) : Option ContactObservation :=
  newestObservation collation
    (t.observations.filter fun o => o.identityId = id ∧ o.observationSource = .openwaPushName)

/-- The row comes after the other one. -/
def Newer (row o : ContactObservation) : Prop :=
  (observationOrder collation).Exceeds observationKey row o

instance (row o : ContactObservation) : Decidable (Newer collation row o) :=
  @instDecidableAnd _ _ ((observationOrder collation).decidable _ _) inferInstance

/-- The identity that the statement returns: the work that a projecting writer requests. -/
def requestedIdentity (t : EvidenceTables) : Option IdentityId :=
  (insertedObservation now m t).bind fun row =>
    match previousPush collation t row.identityId with
    | none => some row.identityId
    | some p =>
      if Newer collation row p ∧ row.nameValue ≠ p.nameValue then some row.identityId else none

end Writer

section Tables

/-- The key of `contact_observations`. -/
def Keyed (rows : List ContactObservation) : Prop :=
  rows.Pairwise fun o p =>
    o.observationSource = p.observationSource → o.sourceObservationKey ≠ p.sourceObservationKey

/-- The tables that the writers of a session can leave, in any order and as often as one likes; the
retention deletes some of the observations. -/
inductive Written (texts : Texts) : EvidenceTables → Prop where
  | empty : Written texts .empty
  | groupMembers {t u : EvidenceTables} (draw : IdentityKey → IdentityId) (now : ℕ) (groupId : String)
      (inputs : List ContactEvidenceIdentityInput) : Written texts t →
      observeGroupMembers texts draw now groupId inputs t = some u → Written texts u
  | messageSender {t u : EvidenceTables} (draw : IdentityKey → IdentityId) (now : ℕ)
      (m : MessageObservation) : Written texts t →
      observeMessageSender texts draw now m.input m.pushName m.observedAt m.observationKey t =
        some u → Written texts u
  | snapshot {t u : EvidenceTables} (draw : IdentityKey → IdentityId) (now generation : ℕ)
      (staged : List SnapshotObservation) : Written texts t →
      publishSnapshot draw now generation staged t = some u → Written texts u
  | backfill {t u : EvidenceTables} (draw : IdentityKey → IdentityId) (now : ℕ)
      (page : List PageRow) : Written texts t →
      materializeEvidenceBackfillPage texts draw now page t = some u → Written texts u
  | retention {t : EvidenceTables} (rows : List ContactObservation) : Written texts t →
      rows.Sublist t.observations → Written texts { t with observations := rows }

variable {texts : Texts} {t u w : EvidenceTables} {row : ContactObservation}

theorem insertObservation_eq : (t.insertObservation row).observations =
    if t.observations.any (fun o => o.observationSource == row.observationSource &&
      o.sourceObservationKey == row.sourceObservationKey) then t.observations
    else t.observations ++ [row] := by
  unfold EvidenceTables.insertObservation
  split <;> rfl

theorem keyed_append (h : Keyed t.observations)
    (hfree : ¬ t.observations.any (fun o => o.observationSource == row.observationSource &&
      o.sourceObservationKey == row.sourceObservationKey)) :
    Keyed (t.observations ++ [row]) := by
  refine List.pairwise_append.mpr ⟨h, List.pairwise_singleton _ _, fun o ho p hp => ?_⟩
  rw [List.mem_singleton.mp hp]
  intro hsource hkey
  apply hfree
  rw [List.any_eq_true]
  exact ⟨o, ho, by simp [hsource, hkey]⟩

theorem insertObservations_keyed (rows : List ContactObservation) (h : Keyed t.observations) :
    Keyed (t.insertObservations rows).observations := by
  unfold EvidenceTables.insertObservations
  induction rows generalizing t with
  | nil => exact h
  | cons row rows ih =>
    apply ih
    rw [insertObservation_eq]
    split
    · exact h
    · rename_i hfree
      exact keyed_append h hfree

theorem upsertIdentities_observations {draw : IdentityKey → IdentityId}
    {touch : ℕ → ObservedIdentity → ObservedIdentity} {rows : List (IdentityKey × ℕ)}
    (h : t.upsertIdentities draw touch rows = some u) : u.observations = t.observations := by
  induction rows generalizing t with
  | nil => exact congrArg EvidenceTables.observations (Option.some.inj h).symm
  | cons row rows ih =>
    unfold EvidenceTables.upsertIdentities at h
    split at h
    · cases h
    · rename_i v hv
      rw [ih h]
      rcases upsertIdentity_some hv with ⟨_, rfl⟩ | ⟨_, rfl⟩ <;> rfl

theorem insertLinks_observations (rows : List LinkEvidence) :
    (t.insertLinks rows).observations = t.observations := (insertLinks_spec rows t).2.1

/-- Every writer keeps the key of the observations. -/
theorem written_keyed (h : Written texts t) : Keyed t.observations := by
  induction h with
  | empty => exact List.Pairwise.nil
  | groupMembers draw now groupId inputs _ hstep ih =>
    obtain ⟨w, hw, rfl⟩ := Option.map_eq_some_iff.mp hstep
    unfold insertInputLinks
    rw [insertLinks_observations]
    apply insertObservations_keyed
    rw [upsertIdentities_observations hw]
    exact ih
  | messageSender draw now m _ hstep ih =>
    obtain ⟨w, hw, rfl⟩ := Option.map_eq_some_iff.mp hstep
    unfold insertInputLinks
    rw [insertLinks_observations]
    apply insertObservations_keyed
    rw [upsertIdentities_observations hw]
    exact ih
  | snapshot draw now generation staged _ hstep ih =>
    obtain ⟨w, hw, hstep⟩ := Option.bind_eq_some_iff.mp hstep
    obtain ⟨v, hv, rfl⟩ := Option.map_eq_some_iff.mp hstep
    rw [insertLinks_observations]
    apply insertObservations_keyed
    rw [upsertIdentities_observations hv, upsertIdentities_observations hw]
    exact ih
  | backfill draw now page _ hstep ih =>
    obtain ⟨w, hw, hstep⟩ := Option.bind_eq_some_iff.mp hstep
    obtain ⟨v, hv, rfl⟩ := Option.map_eq_some_iff.mp hstep
    rw [insertLinks_observations]
    apply insertObservations_keyed
    rw [upsertIdentities_observations hv, upsertIdentities_observations hw]
    exact ih
  | retention rows _ hsub ih => exact ih.sublist hsub

end Tables

section Newest

variable {collation : TotalOrder String} {rows : List ContactObservation}
  {row o g : ContactObservation}

/-- Among the rows, the newest comes after the row or has its name. -/
def Outdone (collation : TotalOrder String) (rows : List ContactObservation)
    (row : ContactObservation) : Prop :=
  ∃ g ∈ newestObservation collation rows, Newer collation g row ∨ g.nameValue = row.nameValue

instance (collation : TotalOrder String) (rows : List ContactObservation)
    (row : ContactObservation) : Decidable (Outdone collation rows row) :=
  inferInstanceAs (Decidable (∃ g ∈ newestObservation collation rows, _))

/-- The rows are push names with different keys. -/
def PushRows (rows : List ContactObservation) : Prop :=
  (∀ o ∈ rows, o.observationSource = .openwaPushName) ∧ Keyed rows

theorem push_keys (h : PushRows rows) :
    ∀ x ∈ rows, ∀ y ∈ rows, observationKey x = observationKey y → x = y := by
  intro x hx y hy heq
  by_contra hne
  have hsymm : Std.Symm fun o p : ContactObservation =>
      o.observationSource = p.observationSource → o.sourceObservationKey ≠ p.sourceObservationKey :=
    ⟨fun o p hop hsource hkey => hop hsource.symm hkey.symm⟩
  have hdiffer := List.Pairwise.forall h.2 hx hy hne
  exact hdiffer ((h.1 x hx).trans (h.1 y hy).symm) (congrArg Prod.snd heq)

theorem newest_none : newestObservation collation rows = none ↔ rows = [] :=
  TotalOrder.greatestBy_eq_none _

theorem newest_iff (h : PushRows rows) : newestObservation collation rows = some g ↔
    g ∈ rows ∧ ∀ o ∈ rows, (observationOrder collation).le (observationKey o) (observationKey g) :=
  TotalOrder.greatestBy_eq_some _ (push_keys h)

theorem push_front (h : PushRows (rows ++ [row])) : PushRows rows :=
  ⟨fun o ho => h.1 o (List.mem_append_left _ ho), h.2.sublist (List.sublist_append_left _ _)⟩

/-- Of two push names with different keys, one comes after the other. -/
theorem newer_or (h : PushRows (rows ++ [row])) (hg : g ∈ rows) :
    Newer collation row g ∨ Newer collation g row := by
  have hne : observationKey g ≠ observationKey row := by
    intro heq
    have hrow : row ∈ rows ++ [row] := List.mem_append_right _ List.mem_cons_self
    have hsame := push_keys h g (List.mem_append_left _ hg) row hrow heq
    have hlast := (List.pairwise_append.mp h.2).2.2 g hg row List.mem_cons_self
    exact hlast (by rw [hsame]) (by rw [hsame])
  rcases (observationOrder collation).total (observationKey g) (observationKey row) with hgr | hrg
  · exact .inl ⟨hgr, hne⟩
  · exact .inr ⟨hrg, hne.symm⟩

/-- One more row becomes the newest, unless it comes before the one that was. -/
theorem newest_append (h : PushRows (rows ++ [row])) :
    newestObservation collation (rows ++ [row]) =
      match newestObservation collation rows with
      | none => some row
      | some g => if Newer collation g row then some g else some row := by
  cases hg : newestObservation collation rows with
  | none =>
    have hnil : rows = [] := newest_none.mp hg
    subst hnil
    refine (newest_iff h).mpr ⟨List.mem_append_right _ List.mem_cons_self, fun o ho => ?_⟩
    rw [List.mem_singleton.mp ho]
    exact TotalOrder.le_self _ _
  | some g =>
    obtain ⟨hmem, hle⟩ := (newest_iff (push_front h)).mp hg
    dsimp only
    split
    · rename_i hnewer
      refine (newest_iff h).mpr ⟨List.mem_append_left _ hmem, fun o ho => ?_⟩
      rcases List.mem_append.mp ho with ho | ho
      · exact hle o ho
      · rw [List.mem_singleton.mp ho]
        exact hnewer.1
    · rename_i hnot
      have hrow : row ∈ rows ++ [row] := List.mem_append_right _ List.mem_cons_self
      have hlt := ((newer_or h hmem).resolve_right hnot).1
      refine (newest_iff h).mpr ⟨hrow, fun o ho => ?_⟩
      rcases List.mem_append.mp ho with ho | ho
      · exact TotalOrder.trans _ _ _ _ (hle o ho) hlt
      · rw [List.mem_singleton.mp ho]
        exact TotalOrder.le_self _ _

/-- One more row leaves the newest name what it is if it is outdone. -/
theorem newest_name_append (collation : TotalOrder String) (h : PushRows (rows ++ [row])) :
    (newestObservation collation (rows ++ [row])).map ContactObservation.nameValue =
        (newestObservation collation rows).map ContactObservation.nameValue ↔
      Outdone collation rows row := by
  rw [newest_append h]
  cases hg : newestObservation collation rows with
  | none => simp [Outdone, hg]
  | some g =>
    dsimp only
    split
    · rename_i hnewer
      simp [Outdone, hg, hnewer]
    · rename_i hnot
      simp [Outdone, hg, hnot, eq_comm]

end Newest

section Members

variable {collation : TotalOrder String} {input : ProjectionInput} {row : ContactObservation}
  {id : IdentityId} {cluster : ClusterId} {identity : ObservedIdentity}

/-- The visible push names of an identity. -/
def ownNames (input : ProjectionInput) (id : IdentityId) : List ContactObservation :=
  (pushNames input.evidence input.cutoffAt).filter (·.identityId = id)

/-- The visible push names of the other identities of its cluster. -/
def aliasNames (input : ProjectionInput) (id : IdentityId) (cluster : ClusterId) :
    List ContactObservation :=
  (pushNames input.evidence input.cutoffAt).filter fun o =>
    o.identityId ∈ resolvedAliases input.out input.run cluster ∧ o.identityId ≠ id

/-- The row is outdone among the push names that the name of the identity is taken from: its own,
or if it has none, those of its cluster. -/
structure Unnoticed (collation : TotalOrder String) (input : ProjectionInput)
    (row : ContactObservation) (id : IdentityId) : Prop where
  own : row.identityId = id → Outdone collation (ownNames input id) row
  others : ∀ a ∈ resolvedAssignment input.out input.run id, ownNames input id = [] →
    row.identityId ≠ id → row.identityId ∈ resolvedAliases input.out input.run a.clusterId →
      Outdone collation (aliasNames input id a.clusterId) row

/-- One observation more. -/
def observing (row : ContactObservation) (input : ProjectionInput) : ProjectionInput :=
  { input with
    evidence := { input.evidence with observations := input.evidence.observations ++ [row] } }

/-- The row is a new push name that the cutoff lets through. -/
structure Fresh (input : ProjectionInput) (row : ContactObservation) : Prop where
  push : row.observationSource = .openwaPushName
  keyed : Keyed (input.evidence.observations ++ [row])
  visible : row.createdAt ≤ input.cutoffAt

theorem pushNames_observing (h : Fresh input row) :
    pushNames (observing row input).evidence (observing row input).cutoffAt =
      pushNames input.evidence input.cutoffAt ++ [row] := by
  unfold pushNames observing
  rw [List.filter_append, List.filter_singleton]
  simp [h.push, h.visible]

theorem names_pushRows (h : Fresh input row) (p : ContactObservation → Bool) :
    PushRows ((pushNames input.evidence input.cutoffAt).filter p ++ [row]) := by
  constructor
  · intro o ho
    rcases List.mem_append.mp ho with ho | ho
    · exact (of_decide_eq_true (List.mem_filter.mp (List.mem_filter.mp ho).1).2).1
    · rw [List.mem_singleton.mp ho]
      exact h.push
  · refine h.keyed.sublist (List.Sublist.append ?_ (List.Sublist.refl _))
    exact List.filter_sublist.trans List.filter_sublist

theorem own_pushRows (h : Fresh input row) (id : IdentityId) : PushRows (ownNames input id ++ [row]) :=
  names_pushRows h _

theorem alias_pushRows (h : Fresh input row) (id : IdentityId) (cluster : ClusterId) :
    PushRows (aliasNames input id cluster ++ [row]) :=
  names_pushRows h _

theorem ownNames_observing (h : Fresh input row) : ownNames (observing row input) id =
    if row.identityId = id then ownNames input id ++ [row] else ownNames input id := by
  unfold ownNames
  rw [pushNames_observing h, List.filter_append, List.filter_singleton]
  split <;> simp_all

theorem aliasNames_observing (h : Fresh input row) : aliasNames (observing row input) id cluster =
    if row.identityId ∈ resolvedAliases input.out input.run cluster ∧ row.identityId ≠ id then
      aliasNames input id cluster ++ [row]
    else aliasNames input id cluster := by
  have hout : (observing row input).out = input.out := rfl
  have hrun : (observing row input).run = input.run := rfl
  unfold aliasNames
  rw [pushNames_observing h, List.filter_append, List.filter_singleton, hout, hrun]
  by_cases hp : row.identityId ∈ resolvedAliases input.out input.run cluster ∧ row.identityId ≠ id
  · rw [if_pos hp, decide_eq_true hp, cond_true]
  · rw [if_neg hp, decide_eq_false hp, cond_false, List.append_nil]

theorem exactPush_eq : exactPush collation input id =
    newestObservation collation (ownNames input id) := rfl

theorem aliasPush_eq : aliasPush collation input id cluster =
    newestObservation collation (aliasNames input id cluster) := rfl

/-- What the evidence adds to the name of a member: only its push names. -/
def pushName (collation : TotalOrder String) (input : ProjectionInput) (id : IdentityId) :
    Option (String × NameSource) :=
  ((exactPush collation input id).map fun o => (o.nameValue, .openwaPushName)).or
    ((aliasName collation input id).map fun name => (name, .resolvedAliasPushName))

theorem shown_iff (name : Option String) :
    projectMember collation (observing row input) identity name =
        projectMember collation input identity name ↔
      (contactName input identity.id = none → name = none →
        pushName collation (observing row input) identity.id =
          pushName collation input identity.id) := by
  have hcontact : contactName (observing row input) identity.id = contactName input identity.id :=
    rfl
  have hphone : resolvedPhone (observing row input) identity = resolvedPhone input identity := rfl
  unfold projectMember
  rw [MemberProjection.mk.injEq, hcontact, hphone]
  cases hname : contactName input identity.id with
  | some contact => simp
  | none =>
    cases name with
    | some participant => simp
    | none => simp [pushName]

/-- A row of the identity itself. -/
theorem own_unchanged_iff (h : Fresh input row) (hid : row.identityId = id) :
    pushName collation (observing row input) id = pushName collation input id ↔
      Outdone collation (ownNames input id) row := by
  have hnames := newest_name_append collation (own_pushRows h id)
  have hsome : ∃ g, newestObservation collation (ownNames input id ++ [row]) = some g := by
    refine Option.ne_none_iff_exists'.mp fun hnone => ?_
    have hnil := newest_none.mp hnone
    simp at hnil
  obtain ⟨g, hg⟩ := hsome
  unfold pushName
  rw [exactPush_eq, exactPush_eq, ownNames_observing h, if_pos hid, hg]
  rw [hg] at hnames
  cases hold : newestObservation collation (ownNames input id) with
  | none =>
    rw [hold] at hnames
    have hnot : ¬ Outdone collation (ownNames input id) row := by
      rw [← hnames]
      simp
    refine iff_of_false ?_ hnot
    cases aliasName collation input id <;> simp
  | some o =>
    rw [hold] at hnames
    simp only [Option.map_some, Option.some.injEq] at hnames
    simp [hnames]

/-- A row of another identity. -/
theorem others_unchanged_iff (h : Fresh input row) (hid : row.identityId ≠ id) :
    pushName collation (observing row input) id = pushName collation input id ↔
      ∀ a ∈ resolvedAssignment input.out input.run id, ownNames input id = [] →
        row.identityId ∈ resolvedAliases input.out input.run a.clusterId →
          Outdone collation (aliasNames input id a.clusterId) row := by
  unfold pushName
  rw [exactPush_eq, exactPush_eq, ownNames_observing h, if_neg hid]
  cases hold : newestObservation collation (ownNames input id) with
  | some o =>
    refine iff_of_true (by simp) fun a _ hnil => ?_
    rw [newest_none.mpr hnil] at hold
    cases hold
  | none =>
    have hnil : ownNames input id = [] := newest_none.mp hold
    have hassigned : resolvedAssignment (observing row input).out (observing row input).run id =
      resolvedAssignment input.out input.run id := rfl
    unfold aliasName
    rw [hassigned]
    cases ha : resolvedAssignment input.out input.run id with
    | none => simp
    | some a =>
      rw [Option.bind_some, Option.bind_some, aliasPush_eq, aliasPush_eq, aliasNames_observing h]
      by_cases halias : row.identityId ∈ resolvedAliases input.out input.run a.clusterId
      · rw [if_pos ⟨halias, hid⟩]
        have hnames := newest_name_append collation (alias_pushRows h id a.clusterId)
        have hshown : ∀ found found' : Option String,
            (Option.map (fun o : ContactObservation => (o.nameValue, NameSource.openwaPushName))
                none).or (found.map fun name => (name, .resolvedAliasPushName)) =
              (Option.map (fun o : ContactObservation => (o.nameValue, NameSource.openwaPushName))
                none).or (found'.map fun name => (name, .resolvedAliasPushName)) ↔
            found = found' := by
          intro found found'
          cases found <;> cases found' <;> simp
        rw [hshown, hnames]
        constructor
        · intro ho b hb _ _
          cases hb
          exact ho
        · intro ho
          exact ho a rfl hnil halias
      · rw [if_neg fun hp => halias hp.1]
        simp [halias]

/-- A visible push name leaves a member what it shows if and only if the member has a name that
comes first, or the row is outdone. -/
theorem unchanged_iff (h : Fresh input row) (name : Option String) :
    projectMember collation (observing row input) identity name =
        projectMember collation input identity name ↔
      (contactName input identity.id = none → name = none →
        Unnoticed collation input row identity.id) := by
  rw [shown_iff]
  refine forall₂_congr fun _ _ => ?_
  by_cases hid : row.identityId = identity.id
  · rw [own_unchanged_iff h hid]
    exact ⟨fun ho => ⟨fun _ => ho, fun _ _ _ hne => absurd hid hne⟩, fun hu => hu.own hid⟩
  · rw [others_unchanged_iff h hid]
    constructor
    · intro ho
      exact ⟨fun heq => absurd heq hid, fun a ha hnil _ halias => ho a ha hnil halias⟩
    · intro hu a ha hnil halias
      exact hu.others a ha hnil hid halias

end Members

section Skips

variable {collation : TotalOrder String} {texts : Texts} {draw : IdentityKey → IdentityId}
  {now cutoffAt : ℕ} {m : MessageObservation} {t u : EvidenceTables} {row : ContactObservation}
  {out : ResolvedTables} {run : Option RunId}

/-- The call stores the row and leaves `u`, and it requests no work. -/
def Skips (collation : TotalOrder String) (texts : Texts) (draw : IdentityKey → IdentityId)
    (now : ℕ) (m : MessageObservation) (t u : EvidenceTables) (row : ContactObservation) : Prop :=
  observeMessageSender texts draw now m.input m.pushName m.observedAt m.observationKey t = some u ∧
    ∃ w, upsertInputIdentities draw now [m.input] t = some w ∧
      insertedObservation now m w = some row ∧ requestedIdentity collation now m w = none

/-- The evidence without the new row. -/
def without (t u : EvidenceTables) : EvidenceTables := { u with observations := t.observations }

theorem inserted_some {w : EvidenceTables} (h : insertedObservation now m w = some row) :
    row.observationSource = .openwaPushName ∧ row.createdAt = now ∧
      messageObservation now m.pushName m.observedAt m.observationKey w m.input = some row ∧
      ¬ w.observations.any fun o => o.observationSource == row.observationSource &&
        o.sourceObservationKey == row.sourceObservationKey := by
  obtain ⟨hrow, hfree⟩ := Option.filter_eq_some_iff.mp h
  obtain ⟨identity, _, hmade⟩ := Option.map_eq_some_iff.mp hrow
  subst hmade
  exact ⟨rfl, rfl, hrow, of_decide_eq_true hfree⟩

/-- The row is all that the call adds to the observations. -/
theorem skips_observations (h : Skips collation texts draw now m t u row) :
    u.observations = t.observations ++ [row] := by
  obtain ⟨hcall, w, hw, hinserted, _⟩ := h
  obtain ⟨w', hw', rfl⟩ := Option.map_eq_some_iff.mp hcall
  rw [hw] at hw'
  cases hw'
  obtain ⟨_, _, hrow, hfree⟩ := inserted_some hinserted
  have hsingle : [m.input].filterMap
      (messageObservation now m.pushName m.observedAt m.observationKey w) = [row] := by
    rw [List.filterMap_cons, hrow, List.filterMap_nil]
  unfold insertInputLinks
  rw [insertLinks_observations, hsingle, ← upsertIdentities_observations hw]
  exact insertObservation_eq.trans (if_neg hfree)

theorem skips_fresh (hw : Written texts t) (h : Skips collation texts draw now m t u row)
    (out : ResolvedTables) (run : Option RunId) (hcutoff : now ≤ cutoffAt) :
    Fresh ⟨without t u, out, run, cutoffAt⟩ row := by
  have hu : Written texts u := .messageSender draw now m hw h.1
  have hobs := skips_observations h
  obtain ⟨_, w, _, hinserted, _⟩ := h
  obtain ⟨hpush, hcreated, _⟩ := inserted_some hinserted
  refine ⟨hpush, ?_, hcreated ▸ hcutoff⟩
  exact hobs ▸ written_keyed hu

/-- A newest name of the same identity was there, later than the row or under the same name. -/
theorem skips_previous (h : Skips collation texts draw now m t u row) :
    ∃ p, previousPush collation t row.identityId = some p ∧
      (¬ Newer collation row p ∨ row.nameValue = p.nameValue) := by
  obtain ⟨_, w, hw, hinserted, hrequested⟩ := h
  have hobs : w.observations = t.observations := upsertIdentities_observations hw
  have hsame : previousPush collation w row.identityId = previousPush collation t row.identityId := by
    unfold previousPush
    rw [hobs]
  unfold requestedIdentity at hrequested
  rw [hinserted, Option.bind_some, hsame] at hrequested
  cases hp : previousPush collation t row.identityId with
  | none => simp [hp] at hrequested
  | some p =>
    rw [hp] at hrequested
    refine ⟨p, rfl, ?_⟩
    by_contra hboth
    rw [not_or, not_not] at hboth
    simp [hboth.1, hboth.2] at hrequested

/-- Where the cutoff lets the previous name through, the new one changes nothing for the members
with the sender's own identity. -/
theorem previous_outdoes (hw : Written texts t) (h : Skips collation texts draw now m t u row)
    (hcutoff : now ≤ cutoffAt) {p : ContactObservation}
    (hp : previousPush collation t row.identityId = some p) (hvisible : p.createdAt ≤ cutoffAt) :
    Outdone collation (ownNames ⟨without t u, out, run, cutoffAt⟩ row.identityId) row := by
  have hfresh := skips_fresh hw h out run hcutoff
  have hrows := own_pushRows hfresh row.identityId
  have hall : PushRows
      (t.observations.filter fun o => o.identityId = row.identityId ∧
        o.observationSource = .openwaPushName) :=
    ⟨fun o ho => (of_decide_eq_true (List.mem_filter.mp ho).2).2,
      (written_keyed hw).sublist List.filter_sublist⟩
  obtain ⟨hmem, hle⟩ := (newest_iff hall).mp hp
  obtain ⟨hpt, hpid⟩ := List.mem_filter.mp hmem
  rw [decide_eq_true_eq] at hpid
  have hnames : ∀ o, o ∈ ownNames ⟨without t u, out, run, cutoffAt⟩ row.identityId ↔
      o ∈ t.observations ∧ (o.observationSource = .openwaPushName ∧ o.createdAt ≤ cutoffAt) ∧
        o.identityId = row.identityId := by
    intro o
    simp only [ownNames, pushNames, without, List.mem_filter, decide_eq_true_eq, and_assoc]
  have hpown := (hnames p).mpr ⟨hpt, ⟨hpid.2, hvisible⟩, hpid.1⟩
  have hnewest : newestObservation collation
      (ownNames ⟨without t u, out, run, cutoffAt⟩ row.identityId) = some p := by
    refine (newest_iff (push_front hrows)).mpr ⟨hpown, fun o ho => ?_⟩
    obtain ⟨hot, hpush, hid⟩ := (hnames o).mp ho
    exact hle o (List.mem_filter.mpr ⟨hot, decide_eq_true ⟨hid, hpush.1⟩⟩)
  obtain ⟨p', hp', hskip⟩ := skips_previous h
  rw [hp] at hp'
  cases hp'
  refine ⟨p, hnewest, hskip.imp (fun hnot => ?_) Eq.symm⟩
  exact (newer_or hrows hpown).resolve_left hnot

/-- For the members of the sender the previous name is enough; for the members of the other
identities of its cluster, a name must be there that outdoes the new one. -/
structure Covered (collation : TotalOrder String) (previous : Option ContactObservation)
    (input : ProjectionInput) (row : ContactObservation) (id : IdentityId) : Prop where
  own : row.identityId = id → (∃ p ∈ previous, p.createdAt ≤ input.cutoffAt) ∨
    Outdone collation (ownNames input id) row
  others : ∀ a ∈ resolvedAssignment input.out input.run id, ownNames input id = [] →
    row.identityId ≠ id → row.identityId ∈ resolvedAliases input.out input.run a.clusterId →
      Outdone collation (aliasNames input id a.clusterId) row

theorem covered_iff (hw : Written texts t) (h : Skips collation texts draw now m t u row)
    (hcutoff : now ≤ cutoffAt) (id : IdentityId) :
    Covered collation (previousPush collation t row.identityId)
        ⟨without t u, out, run, cutoffAt⟩ row id ↔
      Unnoticed collation ⟨without t u, out, run, cutoffAt⟩ row id := by
  constructor
  · intro hc
    refine ⟨fun hid => ?_, hc.others⟩
    rcases hc.own hid with ⟨p, hp, hvisible⟩ | ho
    · exact hid ▸ previous_outdoes hw h hcutoff hp hvisible
    · exact ho
  · intro hu
    exact ⟨fun hid => .inr (hu.own hid), hu.others⟩

/-- After any writes, whatever the resolution has found: a push name that is stored without a
request leaves a member what it shows under a cutoff from its creation on, if and only if a name of
the cluster's contact or of the participant comes first, or the new name is covered. -/
theorem skipped_unchanged_iff (hw : Written texts t) (h : Skips collation texts draw now m t u row)
    (out : ResolvedTables) (run : Option RunId) (hcutoff : now ≤ cutoffAt)
    (identity : ObservedIdentity) (name : Option String) :
    projectMember collation ⟨u, out, run, cutoffAt⟩ identity name =
        projectMember collation ⟨without t u, out, run, cutoffAt⟩ identity name ↔
      (contactName ⟨without t u, out, run, cutoffAt⟩ identity.id = none → name = none →
        Covered collation (previousPush collation t row.identityId)
          ⟨without t u, out, run, cutoffAt⟩ row identity.id) := by
  have hobserving : observing row ⟨without t u, out, run, cutoffAt⟩ = ⟨u, out, run, cutoffAt⟩ := by
    unfold observing without
    rw [← skips_observations h]
  rw [← hobserving, unchanged_iff (skips_fresh hw h out run hcutoff)]
  exact forall₂_congr fun _ _ => (covered_iff hw h hcutoff identity.id).symm

end Skips

section Overtaken

/-- Two phone JIDs of one phone and a contact that has it: the identities 1, 3 and 4. -/
def overtakenDraw (key : IdentityKey) : IdentityId :=
  if key.2 = "84:1@c.us" then 1 else if key.2 = "84" then 2 else if key.2 = "84@c.us" then 3 else 4

def backfilledPage : List PageRow :=
  [pageRow ⟨"g", "84:1@s.whatsapp.net", some .phoneJid, some "84", none, none, 1⟩]

def phoneName : MessageObservation := ⟨⟨.phoneJid, "84@c.us", some "84", none, none⟩, "Binh", 20, "m1"⟩

def lidName (observedAt : ℕ) (key : String) : MessageObservation :=
  ⟨⟨.lid, "7@lid", none, none, none⟩, "An", observedAt, key⟩

def callOn (now : ℕ) (m : MessageObservation) (t : EvidenceTables) : EvidenceTables :=
  (observeMessageSender ⟨id, id⟩ overtakenDraw now m.input m.pushName m.observedAt m.observationKey
    t).getD t

def backfilledTables : EvidenceTables :=
  (materializeEvidenceBackfillPage ⟨id, id⟩ overtakenDraw 1 backfilledPage .empty).getD .empty

def stagedContact : SnapshotObservation := ⟨.lid, "7@lid", some "84", none, none, 5, "s"⟩

def publishedTables : EvidenceTables :=
  (publishSnapshot overtakenDraw 22 1 [stagedContact]
    (callOn 20 phoneName backfilledTables)).getD .empty

/-- Before the message that is skipped: the phone JID is called Binh since 20, the contact An since
10. -/
def overtakenTables : EvidenceTables := callOn 23 (lidName 10 "m0") publishedTables

def overtakenRow : ContactObservation := ⟨4, .openwaPushName, none, "An", none, 30, "m2", 30⟩

def overtakenResults : ResolvedTables :=
  resolve (fun _ _ => false) ⟨0, 1, 25⟩
    ⟨overtakenTables, overtakenTables, overtakenTables, overtakenTables, overtakenTables⟩
    ⟨[], [], []⟩

def deviceMember : ObservedIdentity := ⟨1, .phoneJid, "84:1@c.us", 1, 1⟩

theorem overtaken_written : Written ⟨id, id⟩ overtakenTables := by
  have hbackfilled : Written ⟨id, id⟩ backfilledTables :=
    .backfill overtakenDraw 1 backfilledPage .empty (by decide +kernel)
  have hphone : Written ⟨id, id⟩ (callOn 20 phoneName backfilledTables) :=
    .messageSender overtakenDraw 20 phoneName hbackfilled (by decide +kernel)
  have hpublished : Written ⟨id, id⟩ publishedTables :=
    .snapshot overtakenDraw 22 1 [stagedContact] hphone (by decide +kernel)
  exact .messageSender overtakenDraw 23 (lidName 10 "m0") hpublished (by decide +kernel)

theorem overtaken_skips : Skips TotalOrder.codePoints ⟨id, id⟩ overtakenDraw 30 (lidName 30 "m2")
    overtakenTables (callOn 30 (lidName 30 "m2") overtakenTables) overtakenRow := by
  refine ⟨by decide +kernel, (upsertInputIdentities overtakenDraw 30 [(lidName 30 "m2").input]
    overtakenTables).getD overtakenTables, ?_, ?_, ?_⟩
  · decide +kernel
  · decide +kernel
  · decide +kernel

/-- A second An of the contact is skipped, and overtakes the Binh that a member with another
identity of the cluster shows. -/
theorem skipped_name_overtakes :
    (projectMember TotalOrder.codePoints
        ⟨without overtakenTables (callOn 30 (lidName 30 "m2") overtakenTables), overtakenResults,
          some 0, 40⟩ deviceMember none).effectiveName = some ("Binh", .resolvedAliasPushName) ∧
    (projectMember TotalOrder.codePoints
        ⟨callOn 30 (lidName 30 "m2") overtakenTables, overtakenResults, some 0, 40⟩ deviceMember
          none).effectiveName = some ("An", .resolvedAliasPushName) ∧
    ¬ Covered TotalOrder.codePoints (previousPush TotalOrder.codePoints overtakenTables 4)
      ⟨without overtakenTables (callOn 30 (lidName 30 "m2") overtakenTables), overtakenResults,
        some 0, 40⟩ overtakenRow 1 := by
  have hold : (projectMember TotalOrder.codePoints
      ⟨without overtakenTables (callOn 30 (lidName 30 "m2") overtakenTables), overtakenResults,
        some 0, 40⟩ deviceMember none).effectiveName = some ("Binh", .resolvedAliasPushName) := by
    decide +kernel
  have hnew : (projectMember TotalOrder.codePoints
      ⟨callOn 30 (lidName 30 "m2") overtakenTables, overtakenResults, some 0, 40⟩ deviceMember
        none).effectiveName = some ("An", .resolvedAliasPushName) := by
    decide +kernel
  refine ⟨hold, hnew, fun hcovered => ?_⟩
  have hsame := (skipped_unchanged_iff overtaken_written overtaken_skips overtakenResults (some 0)
    (by decide) deviceMember none).mpr fun _ _ => hcovered
  rw [hsame, hold] at hnew
  revert hnew
  decide

end Overtaken

end SkippedObservations
