import WaRuntime.ContactProjection
import WaRuntime.ContactProjectionWork
import WaRuntime.ContactResolutionRuns

/-! The retention of push names, and what the projection selects after it.
The tables are those of one session: a batch is limited over all sessions, so that of one session it
deletes what the limit leaves. -/
namespace RetainedObservations

open CanonicalOrders ContactEvidence ContactProjection
open ContactResolutionRuns (ResolutionRunRow)
open ContactProjectionWork (WorkRow)

abbrev ObservationId := ℕ

/-- A row of `contact_observations`, with its id. -/
structure StoredObservation where
  id : ObservationId
  row : ContactObservation
  deriving DecidableEq, Repr

/-- What the retention reads of a session. `named` are the observations that clusters refer to by
their `contact_name_observation_id`. -/
structure Tables where
  observations : List StoredObservation
  resolutions : List ResolutionRunRow
  works : List WorkRow
  named : List ObservationId

/-- One batch: its cutoff, its limit and the rows that other transactions have locked. -/
structure Batch where
  cutoff : ℕ
  limit : ℕ
  locked : List ObservationId

section Statement

variable (collation : TotalOrder String)

/-- `source_observed_at`, `source_observation_key`, `id`. -/
def rowOrder : TotalOrder ((ℕ × String) × ObservationId) :=
  (observationOrder collation).prod (TotalOrder.ascending ℕ)

def rowKey (o : StoredObservation) : (ℕ × String) × ObservationId := (observationKey o.row, o.id)

def Newer (newer o : StoredObservation) : Prop := (rowOrder collation).Exceeds rowKey newer o

instance (newer o : StoredObservation) : Decidable (Newer collation newer o) :=
  @instDecidableAnd _ _ ((rowOrder collation).decidable _ _) inferInstance

/-- A push name of a message. -/
def FromMessage (o : StoredObservation) : Prop :=
  o.row.sourceGeneration = none ∧ o.row.observationSource = .openwaPushName

instance (o : StoredObservation) : Decidable (FromMessage o) := inferInstanceAs (Decidable (_ ∧ _))

/-- The row that the first EXISTS finds. -/
def Supersedes (newer o : StoredObservation) : Prop :=
  newer.row.identityId = o.row.identityId ∧
    newer.row.observationSource = o.row.observationSource ∧ newer.row.sourceGeneration = none ∧
    Newer collation newer o

instance (newer o : StoredObservation) : Decidable (Supersedes collation newer o) :=
  inferInstanceAs (Decidable (_ ∧ _ ∧ _ ∧ _))

/-- No resolution run and no projection work of the session is in flight. -/
def Quiet (t : Tables) : Prop :=
  (∀ run ∈ t.resolutions, run.status ∉ [.pending, .running, .retry]) ∧
    ∀ work ∈ t.works, work.status ∉ [.pending, .running, .retry]

instance (t : Tables) : Decidable (Quiet t) := inferInstanceAs (Decidable (_ ∧ _))

/-- The WHERE clause of `candidates`. -/
def Redundant (cutoff : ℕ) (t : Tables) (o : StoredObservation) : Prop :=
  FromMessage o ∧ o.row.createdAt < cutoff ∧
    (∃ newer ∈ t.observations, Supersedes collation newer o) ∧ Quiet t ∧ o.id ∉ t.named

instance (cutoff : ℕ) (t : Tables) (o : StoredObservation) :
    Decidable (Redundant collation cutoff t o) :=
  inferInstanceAs (Decidable (_ ∧ _ ∧ (∃ newer ∈ t.observations, _) ∧ _ ∧ _))

def candidates (b : Batch) (t : Tables) : List StoredObservation :=
  (((TotalOrder.ascending ℕ).prod (TotalOrder.ascending ℕ)).sortBy
    (fun o : StoredObservation => (o.row.createdAt, o.id))
    (t.observations.filter fun o => Redundant collation b.cutoff t o ∧ o.id ∉ b.locked)).take
      b.limit

def deleteRedundantContactObservations (b : Batch) (t : Tables) : Tables :=
  { t with observations := t.observations.filter (· ∉ candidates collation b t) }

/-- The batches of a retention run. -/
def retain (batches : List Batch) (t : Tables) : Tables :=
  batches.foldl (fun t b => deleteRedundantContactObservations collation b t) t

end Statement

section Retention

variable {collation : TotalOrder String} {t u v : Tables} {b : Batch} {o n d : StoredObservation}

theorem candidate_redundant (h : o ∈ candidates collation b t) :
    Redundant collation b.cutoff t o := by
  have hmem := (TotalOrder.sortBy_perm _).mem_iff.mp (List.mem_of_mem_take h)
  have hwhere := (List.mem_filter.mp hmem).2
  rw [decide_eq_true_eq] at hwhere
  exact hwhere.1

theorem supersedes_trans (hn : Supersedes collation n o) (hd : Supersedes collation d n) :
    Supersedes collation d o :=
  ⟨hd.1.trans hn.1, hd.2.1.trans hn.2.1, hd.2.2.1, TotalOrder.exceeds_trans _ hd.2.2.2 hn.2.2.2⟩

/-- `u` has what is left of `t`: every row that is missing is a push name of a message, and one of
those that are left supersedes it. -/
structure Leaves (collation : TotalOrder String) (t u : Tables) : Prop where
  kept : ∀ o ∈ u.observations, o ∈ t.observations
  superseded : ∀ o ∈ t.observations, o ∉ u.observations →
    FromMessage o ∧ ∃ n ∈ u.observations, Supersedes collation n o
  named : u.named = t.named
  referenced : ∀ o ∈ t.observations, o.id ∈ t.named → o ∈ u.observations

theorem leaves_trans (htu : Leaves collation t u) (huv : Leaves collation u v) :
    Leaves collation t v := by
  refine ⟨fun o ho => htu.kept o (huv.kept o ho), fun o ho hgone => ?_, huv.named.trans htu.named,
    fun o ho hnamed => ?_⟩
  · by_cases hu : o ∈ u.observations
    · exact huv.superseded o hu hgone
    · obtain ⟨hmessage, n, hn, hsuper⟩ := htu.superseded o ho hu
      refine ⟨hmessage, ?_⟩
      by_cases hv : n ∈ v.observations
      · exact ⟨n, hv, hsuper⟩
      · obtain ⟨_, m, hm, hsuper'⟩ := huv.superseded n hn hv
        exact ⟨m, hm, supersedes_trans hsuper hsuper'⟩
  · exact huv.referenced o (htu.referenced o ho hnamed) (by rw [htu.named]; exact hnamed)

/-- Of the rows that supersede a row, the newest is no candidate. -/
theorem delete_leaves (b : Batch) (t : Tables) :
    Leaves collation t (deleteRedundantContactObservations collation b t) := by
  have hstays : ∀ {o}, o ∈ (deleteRedundantContactObservations collation b t).observations ↔
      o ∈ t.observations ∧ o ∉ candidates collation b t := by
    intro o
    simp only [deleteRedundantContactObservations, List.mem_filter, decide_eq_true_eq]
  refine ⟨fun o ho => (hstays.mp ho).1, fun o ho hgone => ?_, rfl, fun o ho hnamed => ?_⟩
  · have hcandidate : o ∈ candidates collation b t := by
      by_contra hnot
      exact hgone (hstays.mpr ⟨ho, hnot⟩)
    obtain ⟨hmessage, _, ⟨newer, hnewer, hsuper⟩, _⟩ := candidate_redundant hcandidate
    refine ⟨hmessage, ?_⟩
    generalize hrows : (t.observations.filter fun n => Supersedes collation n o) = rows
    have hmem : newer ∈ rows := by
      rw [← hrows]
      exact List.mem_filter.mpr ⟨hnewer, by simpa using hsuper⟩
    cases hgreatest : (rowOrder collation).greatestBy rowKey rows with
    | none =>
      rw [(rowOrder collation).greatestBy_eq_none.mp hgreatest] at hmem
      cases hmem
    | some n =>
      have hn := (rowOrder collation).greatestBy_mem hgreatest
      rw [← hrows, List.mem_filter, decide_eq_true_eq] at hn
      refine ⟨n, hstays.mpr ⟨hn.1, fun hdeleted => ?_⟩, hn.2⟩
      obtain ⟨_, _, ⟨m, hm, hsuper'⟩, _⟩ := candidate_redundant hdeleted
      have hmrows : m ∈ rows := by
        rw [← hrows]
        exact List.mem_filter.mpr ⟨hm, by simpa using supersedes_trans hn.2 hsuper'⟩
      have hle := (rowOrder collation).le_greatestBy hgreatest hmrows
      exact hsuper'.2.2.2.2 ((rowOrder collation).antisymm _ _ hsuper'.2.2.2.1 hle)
  · refine hstays.mpr ⟨ho, fun hdeleted => ?_⟩
    exact (candidate_redundant hdeleted).2.2.2.2 hnamed

theorem retain_leaves (batches : List Batch) (t : Tables) :
    Leaves collation t (retain collation batches t) := by
  induction batches generalizing t with
  | nil => exact ⟨fun o ho => ho, fun o ho hgone => absurd ho hgone, rfl, fun o ho _ => ho⟩
  | cons b batches ih => exact leaves_trans (delete_leaves b t) (ih _)

end Retention

section Later

variable {collation : TotalOrder String} {t : EvidenceTables} {o f : ContactObservation}

/-- The key of `contact_observations` besides the id. -/
def naturalKey (o : ContactObservation) : ObservationSource × String :=
  (o.observationSource, o.sourceObservationKey)

def Keyed (rows : List ContactObservation) : Prop :=
  ∀ o ∈ rows, ∀ p ∈ rows, naturalKey o = naturalKey p → o = p

/-- The row has the key of one that is gone, and is an observation of the same identity at the same
instant. -/
def Repeats (gone : List ContactObservation) (o : ContactObservation) : Prop :=
  ∃ d ∈ gone, naturalKey d = naturalKey o ∧ d.identityId = o.identityId ∧
    d.sourceObservedAt = o.sourceObservedAt

/-- Two tables of observations with the same later rows: one still has the rows that are gone from
the other one. -/
structure Alike (gone all left : List ContactObservation) : Prop where
  keyed : Keyed all
  keyed' : Keyed left
  had : ∀ d ∈ gone, d ∈ all
  missing : ∀ o ∈ all, o ∈ left ∨ o ∈ gone
  added : ∀ o ∈ left, o ∈ all ∨ Repeats gone o

theorem insertObservation_spec (t : EvidenceTables) (f : ContactObservation) :
    ((∃ o ∈ t.observations, naturalKey o = naturalKey f) ∧ t.insertObservation f = t) ∨
    ((∀ o ∈ t.observations, naturalKey o ≠ naturalKey f) ∧
      (t.insertObservation f).observations = t.observations ++ [f]) := by
  unfold EvidenceTables.insertObservation
  split
  · rename_i hfound
    refine .inl ⟨?_, rfl⟩
    simpa [naturalKey, Prod.ext_iff] using hfound
  · rename_i hfound
    refine .inr ⟨fun o ho heq => hfound ?_, rfl⟩
    obtain ⟨hsource, hkey⟩ := Prod.ext_iff.mp heq
    refine List.any_eq_true.mpr ⟨o, ho, ?_⟩
    rw [Bool.and_eq_true, beq_iff_eq, beq_iff_eq]
    exact ⟨hsource, hkey⟩

theorem keyed_insert (h : Keyed t.observations) (f : ContactObservation) :
    Keyed (t.insertObservation f).observations := by
  rcases insertObservation_spec t f with ⟨_, heq⟩ | ⟨hfresh, heq⟩
  · rw [heq]
    exact h
  · rw [heq]
    intro o ho p hp hkey
    rcases List.mem_append.mp ho with ho | ho <;> rcases List.mem_append.mp hp with hp | hp
    · exact h o ho p hp hkey
    · rw [List.mem_singleton.mp hp] at hkey
      exact absurd hkey (hfresh o ho)
    · rw [List.mem_singleton.mp ho] at hkey
      exact absurd hkey.symm (hfresh p hp)
    · rw [List.mem_singleton.mp ho, List.mem_singleton.mp hp]

theorem mem_insert_of_mem (f : ContactObservation) (ho : o ∈ t.observations) :
    o ∈ (t.insertObservation f).observations := by
  rcases insertObservation_spec t f with ⟨_, heq⟩ | ⟨_, heq⟩
  · rw [heq]
    exact ho
  · rw [heq]
    exact List.mem_append_left _ ho

/-- A row of the table afterwards was there, or it is the new one and its key was free. -/
theorem of_mem_insert (ho : o ∈ (t.insertObservation f).observations) :
    o ∈ t.observations ∨ (o = f ∧ ∀ p ∈ t.observations, naturalKey p ≠ naturalKey f) := by
  rcases insertObservation_spec t f with ⟨_, heq⟩ | ⟨hfresh, heq⟩
  · rw [heq] at ho
    exact .inl ho
  · rw [heq] at ho
    exact (List.mem_append.mp ho).imp id fun h => ⟨List.mem_singleton.mp h, hfresh⟩

/-- A row is in the table afterwards, unless its key was taken. -/
theorem inserted_or_taken (t : EvidenceTables) (f : ContactObservation) :
    f ∈ (t.insertObservation f).observations ∨
      ∃ p ∈ t.observations, naturalKey p = naturalKey f := by
  rcases insertObservation_spec t f with ⟨htaken, _⟩ | ⟨_, heq⟩
  · exact .inr htaken
  · rw [heq]
    exact .inl (List.mem_append_right _ (List.mem_singleton_self f))

/-- A later row goes into both tables or into none, unless it repeats a row that is gone. -/
theorem alike_insert {gone : List ContactObservation} {u : EvidenceTables}
    (h : Alike gone t.observations u.observations)
    (hf : ∀ d ∈ gone, naturalKey d = naturalKey f → Repeats gone f) :
    Alike gone (t.insertObservation f).observations (u.insertObservation f).observations := by
  refine ⟨keyed_insert h.keyed f, keyed_insert h.keyed' f, fun d hd => ?_, fun o ho => ?_,
    fun o ho => ?_⟩
  · exact mem_insert_of_mem f (h.had d hd)
  · rcases of_mem_insert ho with ho | ⟨rfl, hfresh⟩
    · exact (h.missing o ho).imp (mem_insert_of_mem f) id
    · left
      rcases inserted_or_taken u o with hin | ⟨p, hp, hkey⟩
      · exact hin
      · exfalso
        rcases h.added p hp with hall | ⟨d, hd, hsame, _⟩
        · exact hfresh p hall hkey
        · exact hfresh d (h.had d hd) (hsame.trans hkey)
  · rcases of_mem_insert ho with ho | ⟨rfl, hfresh⟩
    · exact (h.added o ho).imp (mem_insert_of_mem f) id
    · rcases inserted_or_taken t o with hin | ⟨p, hp, hkey⟩
      · exact .inl hin
      · -- the key is taken in one table only: by a row that is gone from the other
        rcases h.missing p hp with hleft | hgone
        · exact absurd hkey (hfresh p hleft)
        · exact .inr (hf p hgone hkey)

/-- Every later row that has the key of a row that is gone repeats that row. -/
def OnlyRepeats (gone later : List ContactObservation) : Prop :=
  ∀ f ∈ later, ∀ d ∈ gone, naturalKey d = naturalKey f →
    d.identityId = f.identityId ∧ d.sourceObservedAt = f.sourceObservedAt

theorem alike_inserts {gone : List ContactObservation} {u : EvidenceTables}
    (later : List ContactObservation) (h : Alike gone t.observations u.observations)
    (hlater : OnlyRepeats gone later) :
    Alike gone (t.insertObservations later).observations
      (u.insertObservations later).observations := by
  induction later generalizing t u with
  | nil => exact h
  | cons f later ih =>
    refine ih (alike_insert h fun d hd hkey => ?_) fun g hg => hlater g (List.mem_cons_of_mem _ hg)
    exact ⟨d, hd, hkey, hlater f List.mem_cons_self d hd hkey⟩

theorem mem_inserts_of_mem (later : List ContactObservation) (ho : o ∈ t.observations) :
    o ∈ (t.insertObservations later).observations := by
  induction later generalizing t with
  | nil => exact ho
  | cons f later ih => exact ih (mem_insert_of_mem f ho)

end Later

section Selection

variable {collation : TotalOrder String}

/-- Under one more condition on the identities, the newest push name is the same with and without
the rows that are gone. -/
theorem newest_alike {gone : List ContactObservation} {t u : EvidenceTables}
    (h : Alike gone t.observations u.observations) {cutoffAt : ℕ}
    (hnewer : ∀ d ∈ gone, d.observationSource = .openwaPushName ∧
      ∃ n ∈ t.observations, n ∈ u.observations ∧ n.identityId = d.identityId ∧
        n.observationSource = .openwaPushName ∧ n.createdAt ≤ cutoffAt ∧
        (observationOrder collation).Exceeds observationKey n d)
    (chosen : IdentityId → Bool) :
    newestObservation collation ((pushNames t cutoffAt).filter (chosen ·.identityId)) =
      newestObservation collation ((pushNames u cutoffAt).filter (chosen ·.identityId)) := by
  have hmem : ∀ (v : EvidenceTables) (o : ContactObservation),
      o ∈ (pushNames v cutoffAt).filter (chosen ·.identityId) ↔ o ∈ v.observations ∧
        o.observationSource = .openwaPushName ∧ o.createdAt ≤ cutoffAt ∧
          chosen o.identityId = true := by
    intro v o
    simp only [pushNames, List.mem_filter, decide_eq_true_eq, and_assoc]
  have hdistinct : ∀ v : EvidenceTables, Keyed v.observations →
      ∀ x ∈ (pushNames v cutoffAt).filter (chosen ·.identityId),
      ∀ y ∈ (pushNames v cutoffAt).filter (chosen ·.identityId),
        observationKey x = observationKey y → x = y := by
    intro v hv x hx y hy hkey
    obtain ⟨hx, hxs, _⟩ := (hmem v x).mp hx
    obtain ⟨hy, hys, _⟩ := (hmem v y).mp hy
    exact hv x hx y hy (Prod.ext (hxs.trans hys.symm) (Prod.ext_iff.mp hkey).2)
  refine TotalOrder.greatestBy_of_exceeded _ (hdistinct t h.keyed) (hdistinct u h.keyed')
    (fun o ho => ?_) fun o ho => ?_
  · obtain ⟨ho, hsource, hcreated, hchosen⟩ := (hmem t o).mp ho
    rcases h.missing o ho with hleft | hgone
    · exact .inl ((hmem u o).mpr ⟨hleft, hsource, hcreated, hchosen⟩)
    · obtain ⟨_, n, hnt, hnu, hid, hn, hcut, hexceeds⟩ := hnewer o hgone
      rw [← hid] at hchosen
      exact .inr ⟨n, (hmem t n).mpr ⟨hnt, hn, hcut, hchosen⟩,
        (hmem u n).mpr ⟨hnu, hn, hcut, hchosen⟩, hexceeds⟩
  · obtain ⟨ho, hsource, hcreated, hchosen⟩ := (hmem u o).mp ho
    rcases h.added o ho with hall | ⟨d, hd, hkey, hid, hat⟩
    · exact .inl ((hmem t o).mpr ⟨hall, hsource, hcreated, hchosen⟩)
    · obtain ⟨_, n, hnt, hnu, hnid, hn, hcut, hexceeds⟩ := hnewer d hd
      rw [← hid, ← hnid] at hchosen
      have hsame : observationKey d = observationKey o :=
        Prod.ext hat (Prod.ext_iff.mp hkey).2
      refine .inr ⟨n, (hmem t n).mpr ⟨hnt, hn, hcut, hchosen⟩,
        (hmem u n).mpr ⟨hnu, hn, hcut, hchosen⟩, ?_⟩
      unfold TotalOrder.Exceeds
      rw [← hsame]
      exact hexceeds

end Selection

section Result

/-- The observations of a session, as the projection reads them with some later ones. -/
def evidenceWith (evidence : EvidenceTables) (t : Tables) (later : List ContactObservation) :
    EvidenceTables :=
  EvidenceTables.insertObservations later
    { evidence with observations := t.observations.map StoredObservation.row }

/-- Both keys of `contact_observations`. -/
structure Stored (t : Tables) : Prop where
  ids : ∀ o ∈ t.observations, ∀ p ∈ t.observations, o.id = p.id → o = p
  keys : ∀ o ∈ t.observations, ∀ p ∈ t.observations, naturalKey o.row = naturalKey p.row → o = p

/-- The rows that a retention run deletes. -/
def deletedRows (collation : TotalOrder String) (batches : List Batch) (t : Tables) :
    List ContactObservation :=
  (t.observations.filter (· ∉ (retain collation batches t).observations)).map StoredObservation.row

variable {collation : TotalOrder String} {batches : List Batch} {t u : Tables}

theorem mem_deletedRows {d : ContactObservation} : d ∈ deletedRows collation batches t ↔
    ∃ o ∈ t.observations, o ∉ (retain collation batches t).observations ∧ o.row = d := by
  simp only [deletedRows, List.mem_map, List.mem_filter, decide_eq_true_eq, and_assoc]

theorem retained_alike (hstored : Stored t)
    (hleaves : Leaves collation t (retain collation batches t)) :
    Alike (deletedRows collation batches t) (t.observations.map StoredObservation.row)
      ((retain collation batches t).observations.map StoredObservation.row) := by
  have hkeyed : Keyed (t.observations.map StoredObservation.row) := by
    intro a ha b hb hkey
    obtain ⟨o, ho, rfl⟩ := List.mem_map.mp ha
    obtain ⟨p, hp, rfl⟩ := List.mem_map.mp hb
    rw [hstored.keys o ho p hp hkey]
  have hkept : ∀ o ∈ (retain collation batches t).observations.map StoredObservation.row,
      o ∈ t.observations.map StoredObservation.row := by
    intro a ha
    obtain ⟨o, ho, rfl⟩ := List.mem_map.mp ha
    exact List.mem_map_of_mem (hleaves.kept o ho)
  refine ⟨hkeyed, fun o ho p hp => hkeyed o (hkept o ho) p (hkept p hp), fun d hd => ?_,
    fun a ha => ?_, fun a ha => .inl (hkept a ha)⟩
  · obtain ⟨o, ho, _, rfl⟩ := mem_deletedRows.mp hd
    exact List.mem_map_of_mem ho
  · obtain ⟨o, ho, rfl⟩ := List.mem_map.mp ha
    by_cases hleft : o ∈ (retain collation batches t).observations
    · exact .inl (List.mem_map_of_mem hleft)
    · exact .inr (mem_deletedRows.mpr ⟨o, ho, hleft, rfl⟩)

/-- The id does not decide between two push names: their keys differ. -/
theorem newer_exceeds (hstored : Stored t) {n o : StoredObservation} (ho : o ∈ t.observations)
    (hn : n ∈ t.observations) (h : Supersedes collation n o) :
    (observationOrder collation).Exceeds observationKey n.row o.row := by
  obtain ⟨_, hsource, _, ⟨hle, _⟩, hne⟩ := h
  refine ⟨hle, fun heq => hne ?_⟩
  rw [hstored.keys o ho n hn (Prod.ext hsource.symm (Prod.ext_iff.mp heq).2)]

/-- A retention run changes no push name that a projection with a later cutoff selects, whatever is
observed in the meantime, where an observation with the key of a deleted one repeats it; and it
deletes no observation that a cluster refers to. -/
theorem retention_preserves_projection (collation : TotalOrder String) (batches : List Batch)
    (t : Tables) (now : ℕ) (evidence : EvidenceTables) (later : List ContactObservation)
    (hstored : Stored t) (hnow : ∀ o ∈ t.observations, o.row.createdAt ≤ now)
    (hlater : OnlyRepeats (deletedRows collation batches t) later) :
    (∀ out run cutoffAt, now ≤ cutoffAt →
      let all : ProjectionInput := ⟨evidenceWith evidence t later, out, run, cutoffAt⟩
      let left : ProjectionInput :=
        ⟨evidenceWith evidence (retain collation batches t) later, out, run, cutoffAt⟩
      (∀ id, exactPush collation left id = exactPush collation all id) ∧
        ∀ id cluster, aliasPush collation left id cluster = aliasPush collation all id cluster) ∧
    ∀ o ∈ t.observations, o.id ∈ t.named → o ∈ (retain collation batches t).observations := by
  have hleaves : Leaves collation t (retain collation batches t) := retain_leaves batches t
  refine ⟨fun out run cutoffAt hcutoff => ?_, hleaves.referenced⟩
  have halike : Alike (deletedRows collation batches t)
      (evidenceWith evidence t later).observations
      (evidenceWith evidence (retain collation batches t) later).observations :=
    alike_inserts later (retained_alike hstored hleaves) hlater
  have hnewer : ∀ d ∈ deletedRows collation batches t, d.observationSource = .openwaPushName ∧
      ∃ n ∈ (evidenceWith evidence t later).observations,
        n ∈ (evidenceWith evidence (retain collation batches t) later).observations ∧
        n.identityId = d.identityId ∧ n.observationSource = .openwaPushName ∧
        n.createdAt ≤ cutoffAt ∧ (observationOrder collation).Exceeds observationKey n d := by
    intro d hd
    obtain ⟨o, ho, hgone, rfl⟩ := mem_deletedRows.mp hd
    obtain ⟨hmessage, n, hn, hsuper⟩ := hleaves.superseded o ho hgone
    have hnt := hleaves.kept n hn
    refine ⟨hmessage.2, n.row, mem_inserts_of_mem later (List.mem_map_of_mem hnt),
      mem_inserts_of_mem later (List.mem_map_of_mem hn), hsuper.1,
      hsuper.2.1.trans hmessage.2, (hnow n hnt).trans hcutoff, ?_⟩
    exact newer_exceeds hstored ho hnt hsuper
  exact ⟨fun id => (newest_alike halike hnewer (· = id)).symm,
    fun id cluster => (newest_alike halike hnewer fun other =>
      other ∈ resolvedAliases out run cluster ∧ other ≠ id).symm⟩

/-- Two push names of a sender, the older one under a key that comes up again. -/
def renamedSender : Tables where
  observations := [⟨1, ⟨5, .openwaPushName, none, "Ana", none, 10, "key-1", 11⟩⟩,
    ⟨2, ⟨5, .openwaPushName, none, "Anna", none, 20, "key-2", 21⟩⟩]
  resolutions := []
  works := []
  named := []

def renamedBatches : List Batch := [⟨100, 10, []⟩]

theorem redelivered_name_ignored :
    exactPush .codePoints ⟨evidenceWith .empty (retain .codePoints renamedBatches renamedSender)
        [⟨5, .openwaPushName, none, "Ana", none, 10, "key-1", 210⟩], ⟨[], [], []⟩, none, 300⟩ 5 =
      exactPush .codePoints ⟨evidenceWith .empty renamedSender
        [⟨5, .openwaPushName, none, "Ana", none, 10, "key-1", 210⟩], ⟨[], [], []⟩, none, 300⟩ 5 := by
  have hstored : Stored renamedSender := ⟨by decide, by decide⟩
  have hpreserved := retention_preserves_projection .codePoints renamedBatches renamedSender 200
    .empty [⟨5, .openwaPushName, none, "Ana", none, 10, "key-1", 210⟩] hstored (by decide)
    (by unfold OnlyRepeats; decide +kernel)
  exact (hpreserved.1 ⟨[], [], []⟩ none 300 (by decide)).1 5

/-- A later observation that has the key of a deleted one and another instant is stored only because
of the deletion. -/
theorem reused_key_selected : Stored renamedSender ∧ Quiet renamedSender ∧
    (∀ o ∈ renamedSender.observations, o.row.createdAt ≤ 200) ∧
    exactPush .codePoints ⟨evidenceWith .empty (retain .codePoints renamedBatches renamedSender)
        [⟨5, .openwaPushName, none, "Ann", none, 30, "key-1", 210⟩], ⟨[], [], []⟩, none, 300⟩ 5 ≠
      exactPush .codePoints ⟨evidenceWith .empty renamedSender
        [⟨5, .openwaPushName, none, "Ann", none, 30, "key-1", 210⟩], ⟨[], [], []⟩, none, 300⟩ 5 :=
  ⟨⟨by decide, by decide⟩, by decide, by decide, by decide +kernel⟩

end Result

end RetainedObservations
