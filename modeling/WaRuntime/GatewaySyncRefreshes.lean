import WaRuntime.GatewaySyncEpochs

/-! What the transactions that refresh a sync run have counted and written. `refreshParent` counts
the items in a snapshot and writes the run afterwards, so of two transactions on different items the
later may write what it counted before the earlier committed. -/
namespace GatewaySyncRefreshes

open TransitionRuns GatewaySyncTransactions GatewaySyncFences GatewaySyncStages GatewaySyncCommits
  GatewaySyncEpochs
open GatewaySyncItemStatements (SyncItemRow)
open GatewayDiscovery (SessionId RunId GatewaySyncMode publishedRun)

variable {maxAttempts now : ℕ} {s u : State} {e : Event} {k k' : Tx} {n : ℕ} {r : RunId}
  {i : ItemId} {items : List (ItemId × SyncItemRow)}

section Aggregates

theorem refreshed_open {a : Aggregate} {row : RunRow} (h : 0 < a.remaining) :
    (refreshed now a row).run = { row.run with phase := .reconciling, completedAt := none } := by
  simp [refreshed, h, Nat.ne_of_gt h]

theorem refreshed_ended {a : Aggregate} {row : RunRow} (h : a.remaining = 0) :
    (refreshed now a row).run = { row.run with
      phase := .completed
      status := if 0 < a.failed then .failed else .completed
      error :=
        if 0 < a.failed then some (toString a.failed ++ " group reconciliations failed")
        else row.run.error
      completedAt := some now } := by
  simp [refreshed, h]

theorem open_iff (item : SyncItemRow) :
    decide (item.status ∈ [.pending, .running, .retry]) = !decide item.Terminal := by
  cases hs : item.status <;> simp [SyncItemRow.Terminal, hs]

/-- Counted and written in one go, this is the `refreshParent` of the discovery. -/
theorem refreshed_at_once {Hash : Type} {rows : List (GatewayDiscovery.Item Hash)} {row : RunRow} :
    (refreshed now (aggregate (rows.map GatewayDiscovery.Item.row)) row).run =
      GatewayDiscovery.refreshParent now rows row.run := by
  by_cases h : rows.any fun item => !decide item.row.Terminal
  · have hpos : 0 < (aggregate (rows.map GatewayDiscovery.Item.row)).remaining := by
      obtain ⟨item, hitem, ht⟩ := List.any_eq_true.mp h
      exact List.countP_pos_iff.mpr ⟨item.row, List.mem_map_of_mem hitem, by rw [open_iff, ht]⟩
    rw [refreshed_open hpos, GatewayDiscovery.refreshParent, if_pos h]
  · have hzero : (aggregate (rows.map GatewayDiscovery.Item.row)).remaining = 0 := by
      refine List.countP_eq_zero.mpr ?_
      intro item hitem
      obtain ⟨p, hp, rfl⟩ := List.mem_map.mp hitem
      rw [open_iff]
      exact fun ht => h (List.any_eq_true.mpr ⟨p, hp, ht⟩)
    have hfailed : (aggregate (rows.map GatewayDiscovery.Item.row)).failed =
        rows.countP fun item => item.row.status == .failed := by
      simp only [aggregate, List.countP_map]
      rfl
    rw [refreshed_ended hzero, GatewayDiscovery.refreshParent, if_neg h, hfailed]

/-- The run says what the counts of its items are. -/
def Accurate (items : List SyncItemRow) (row : RunRow) : Prop :=
  row.run.status = (if 0 < items.countP (·.status == .failed) then .failed else .completed) ∧
    row.groupsSynced = items.countP (·.status == .completed) ∧
    row.groupsFailed = items.countP (·.status == .failed) ∧
    row.groupsSkipped = items.countP (·.status == .skipped)

theorem remaining_zero {items : List SyncItemRow} (h : ∀ item ∈ items, item.Terminal) :
    (aggregate items).remaining = 0 := by
  refine List.countP_eq_zero.mpr ?_
  intro item hitem
  rw [open_iff]
  simp [h item hitem]

theorem refreshed_accurate {items : List SyncItemRow} {row : RunRow}
    (h : ∀ item ∈ items, item.Terminal) : Accurate items (refreshed now (aggregate items) row) := by
  have hz := remaining_zero h
  refine ⟨?_, rfl, rfl, rfl⟩
  simp only [refreshed, hz]
  rfl

end Aggregates

section Roles

/-- The transaction has yet to count the items of the run. -/
def Reads (r : RunId) : Tx → Prop
  | .recovering _ items => r ∈ items.map fun p => p.2.syncRunId
  | .settling _ _ _ waiting _ => r ∈ waiting
  | .refreshing _ _ _ _ _ waiting _ => r ∈ waiting
  | _ => False

instance (r : RunId) : (k : Tx) → Decidable (Reads r k)
  | .recovering _ items => inferInstanceAs (Decidable (r ∈ items.map fun p => p.2.syncRunId))
  | .settling _ _ _ waiting _ => inferInstanceAs (Decidable (r ∈ waiting))
  | .refreshing _ _ _ _ _ waiting _ => inferInstanceAs (Decidable (r ∈ waiting))
  | .closed | .fenced _ _ _ | .probed _ _ _ _ | .claimed _ _ | .fenceShared _ _ _ | .owned _ _ _
  | .noticed _ _ _ | .discovering _ _ _ | .published _ _ _ _ | .detailing _ | .detailed _ _
  | .peeked _ _ _ _ | .selected _ _ _ _ | .itemClaimed _ _ | .renewed _ _ => isFalse id

/-- What the transaction has counted and not yet written. -/
def counted (r : RunId) : Tx → Option Aggregate
  | .refreshing _ _ _ run aggregate _ _ => if run = r then some aggregate else none
  | _ => none

/-- What the transaction has written to the run. -/
def wrote (r : RunId) : Tx → Option RunRow
  | .settling _ _ _ _ done | .refreshing _ _ _ _ _ _ done => done.lookup r
  | _ => none

/-- The snapshot for the run is taken. -/
def Took (r : RunId) (k : Tx) : Prop := (counted r k).isSome ∨ (wrote r k).isSome

/-- Some item of the run is unfinished in every version. -/
def Unfinished (s : State) (r : RunId) : Prop :=
  ∃ i ∈ s.itemIds, (∃ item ∈ s.items i, item.syncRunId = r ∧ ¬ item.Terminal) ∧
    ∀ m < s.started, ∀ new ∈ (s.txs m).itemWrites.lookup i, ¬ new.Terminal

def Unread (s : State) (r : RunId) : Prop := ∃ m < s.started, Reads r (s.txs m)

instance (s : State) (r : RunId) : Decidable (Unfinished s r) :=
  inferInstanceAs (Decidable (∃ i ∈ s.itemIds, (∃ item ∈ s.items i, _) ∧
    ∀ m < s.started, ∀ new ∈ (s.txs m).itemWrites.lookup i, ¬ new.Terminal))

instance (s : State) (r : RunId) : Decidable (Unread s r) :=
  inferInstanceAs (Decidable (∃ m < s.started, Reads r (s.txs m)))

/-- No transaction that has refreshed a run commits while another one is between the snapshot and
the UPDATE of its own refresh of that run, unless an item is still unfinished, or a transaction has
yet to take its snapshot. -/
def InOrder (s : State) : Event → Prop
  | .tx n .commit => ∀ r ∈ (s.txs n).runWrites.map Prod.fst, (wrote r (s.txs n)).isSome →
      (∃ m < s.started, m ≠ n ∧ (counted r (s.txs m)).isSome) → Unfinished s r ∨ Unread s r
  | _ => True

instance (s : State) : (e : Event) → Decidable (InOrder s e)
  | .tx n .commit => inferInstanceAs (Decidable (∀ r ∈ (s.txs n).runWrites.map Prod.fst,
      (wrote r (s.txs n)).isSome → (∃ m < s.started, m ≠ n ∧ (counted r (s.txs m)).isSome) →
        Unfinished s r ∨ Unread s r))
  | .tick _ | .createRun _ _ _ | .recoverExpiredRun _ _ | .renewRun _ _ | .failAttempt _ _ _ _ _
  | .completeRun _ _ _ _ | .deleteRun _ | .opening _ => isTrue trivial
  | .tx _ .probe | .tx _ (.updateRun _) | .tx _ (.assertRun _) | .tx _ .lockRun
  | .tx _ (.publish _ _) | .tx _ .defer | .tx _ (.renewDetail _) | .tx _ .lockItem
  | .tx _ (.claimItem _) | .tx _ (.recoverItem _) | .tx _ .recovered | .tx _ .aggregate
  | .tx _ .writeParent | .tx _ .abort => isTrue trivial

/-- The stages whose own values tell what will become of their items. -/
def Tracks : Tx → Prop
  | .published _ _ new items =>
    (items.map Prod.fst).Nodup ∧ (new.run.phase = .discovering ∨ items ≠ [] ∨ Accurate [] new)
  | .detailed _ new | .itemClaimed _ new | .renewed _ new => ¬ new.Terminal
  | .settling _ _ items waiting done =>
    ∀ p ∈ items, p.2.syncRunId ∈ waiting ∨ (done.lookup p.2.syncRunId).isSome
  | .refreshing _ _ items run _ waiting done =>
    ∀ p ∈ items, p.2.syncRunId = run ∨ p.2.syncRunId ∈ waiting ∨
      (done.lookup p.2.syncRunId).isSome
  | _ => True

/-- The counts of the transaction are those of the items that would be there if it committed. -/
def Exact (s : State) (r : RunId) (k : Tx) : Prop :=
  (∀ a, counted r k = some a → a = aggregate (s.itemsSeen k r) ∧
    ∀ item ∈ s.itemsSeen k r, item.Terminal) ∧
  (counted r k = none → ∀ row, wrote r k = some row → Accurate (s.itemsSeen k r) row)

/-- How the completion of a run with items is still to come, or has come. -/
inductive Finishing (s : State) (r : RunId) : Prop where
  | unfinished : Unfinished s r → Finishing s r
  | unread : Unread s r → Finishing s r
  | several (m p : ℕ) : m ≠ p → Took r (s.txs m) → Took r (s.txs p) → Finishing s r
  | last (m : ℕ) : Took r (s.txs m) → (∀ p, p ≠ m → ¬ Took r (s.txs p)) → Exact s r (s.txs m) →
      Finishing s r
  | finished (row : RunRow) : (∀ m, ¬ Took r (s.txs m)) → s.runs r = some row →
      Accurate (s.itemsSeen .closed r) row → Finishing s r

/-- A leased run has counted nothing yet, and a run has left the discovery with its items in place,
or without any. -/
structure Begun (s : State) (r : RunId) (row : RunRow) : Prop where
  leased : row.run.leaseToken ≠ none ∨ row.run.leaseExpiresAt ≠ none →
    row.run.phase = .discovering ∧
      row.groupsSynced = 0 ∧ row.groupsFailed = 0 ∧ row.groupsSkipped = 0
  empty : row.run.phase ≠ .discovering → HasItems s r ∨ Accurate [] row

structure Completing (s : State) : Prop where
  tracks : ∀ n, Tracks (s.txs n)
  nodup : s.itemIds.Nodup
  begun : ∀ r row, s.runs r = some row → Begun s r row
  finishing : ∀ r, HasItems s r → Finishing s r

end Roles

section Versions

/-- The version of an item that the transaction sees. -/
def seen (s : State) (k : Tx) (i : ItemId) : Option SyncItemRow :=
  (k.itemWrites.lookup i).or (s.items i)

theorem itemsSeen_eq : s.itemsSeen k r =
    s.itemIds.filterMap fun i => (seen s k i).filter (·.syncRunId = r) := by
  unfold State.itemsSeen seen
  rw [List.filter_filterMap]

theorem itemsSeen_congr {l : List ItemId} (hids : u.itemIds = s.itemIds ++ l)
    (h : ∀ i ∈ s.itemIds, (seen u k' i).filter (·.syncRunId = r) =
      (seen s k i).filter (·.syncRunId = r))
    (hl : ∀ i ∈ l, (seen u k' i).filter (·.syncRunId = r) = none) :
    u.itemsSeen k' r = s.itemsSeen k r := by
  have hnil : l.filterMap (fun i => (seen u k' i).filter (·.syncRunId = r)) = [] :=
    List.filterMap_eq_nil_iff.mpr hl
  rw [itemsSeen_eq, itemsSeen_eq, hids, List.filterMap_append, hnil, List.append_nil]
  exact List.filterMap_congr h

theorem mem_itemsSeen {item : SyncItemRow} (h : item ∈ s.itemsSeen k r) :
    ∃ i, seen s k i = some item ∧ item.syncRunId = r := by
  rw [itemsSeen_eq] at h
  obtain ⟨i, _, hi⟩ := List.mem_filterMap.mp h
  obtain ⟨hs, hrun⟩ := Option.filter_eq_some_iff.mp hi
  exact ⟨i, hs, of_decide_eq_true hrun⟩

/-- A transaction counts the items of a run only where it has written one of them. -/
theorem reads_writes (h : Holds s k) (hr : Reads r k) : Writes k.itemWrites r := by
  cases k with
  | recovering now items => exact recovered_writes h.1 (List.mem_dedup.mpr hr)
  | settling now claim items waiting done => exact h.2.2.1 r hr
  | refreshing now claim items run a waiting done => exact h.2.2.1 r (List.mem_cons_of_mem _ hr)
  | _ => cases hr

theorem took_writes (h : Holds s k) (ht : Took r k) : Writes k.itemWrites r := by
  cases k with
  | settling now claim items waiting done =>
    obtain ht | ht := ht
    · cases ht
    · obtain ⟨row, hrow⟩ := Option.isSome_iff_exists.mp ht
      obtain ⟨_, _, _, _, _, hw, _⟩ := h.2.2.2 r row hrow
      exact hw
  | refreshing now claim items run a waiting done =>
    obtain ht | ht := ht
    · simp only [counted] at ht
      split at ht
      · rename_i heq
        exact h.2.2.1 r (by rw [heq]; exact List.mem_cons_self)
      · cases ht
    · obtain ⟨row, hrow⟩ := Option.isSome_iff_exists.mp ht
      obtain ⟨_, _, _, _, _, hw, _⟩ := h.2.2.2.1 r row hrow
      exact hw
  | _ =>
    obtain ht | ht := ht
    · cases ht
    · cases ht

/-- What becomes of an item that a transaction has written. -/
theorem tracked {new : SyncItemRow} (hH : Holds s k) (hT : Tracks k)
    (hl : k.itemWrites.lookup i = some new) :
    ¬ new.Terminal ∨ Reads new.syncRunId k ∨ Took new.syncRunId k := by
  have hmem := lookup_mem hl
  cases k with
  | published sessionId fence row items =>
    obtain ⟨⟨old, now, _, _, hnew⟩, _⟩ := hH
    obtain ⟨_, rfl⟩ | ⟨_, _, _, _, hitems⟩ := hnew
    · cases hl
    · have hs : new.status = .pending := (hitems _ hmem).2
      exact .inl (by simp [SyncItemRow.Terminal, hs])
  | detailed claim item =>
    obtain ⟨_, rfl⟩ := Prod.mk.inj (List.mem_singleton.mp hmem)
    exact .inl hT
  | itemClaimed claim item =>
    obtain ⟨_, rfl⟩ := Prod.mk.inj (List.mem_singleton.mp hmem)
    exact .inl hT
  | renewed claim item =>
    obtain ⟨_, rfl⟩ := Prod.mk.inj (List.mem_singleton.mp hmem)
    exact .inl hT
  | recovering now items => exact .inr (.inl (List.mem_map.mpr ⟨_, hmem, rfl⟩))
  | settling now claim items waiting done =>
    obtain h | h := hT _ hmem
    · exact .inr (.inl h)
    · exact .inr (.inr (.inr h))
  | refreshing now claim items run a waiting done =>
    obtain h | h | h := hT _ hmem
    · exact .inr (.inr (.inl (by simp [counted, ← h])))
    · exact .inr (.inl h)
    · exact .inr (.inr (.inr h))
  | _ => cases hl

/-- A written item replaces a committed one, unless its run has just been published. -/
theorem written_or_published {new : SyncItemRow} (hH : Holds s k)
    (hl : k.itemWrites.lookup i = some new) :
    Written s i new ∨ ∃ sessionId fence row items, k = .published sessionId fence row items ∧
      new.syncRunId = fence.syncRunId := by
  have hmem := lookup_mem hl
  cases k with
  | published sessionId fence row items =>
    obtain ⟨⟨old, now, _, _, hnew⟩, _⟩ := hH
    obtain ⟨_, rfl⟩ | ⟨_, _, _, _, hitems⟩ := hnew
    · cases hl
    · exact .inr ⟨sessionId, fence, row, items, rfl, (hitems _ hmem).1⟩
  | detailed claim item =>
    obtain ⟨rfl, rfl⟩ := Prod.mk.inj (List.mem_singleton.mp hmem)
    exact .inl hH.2
  | itemClaimed claim item =>
    obtain ⟨rfl, rfl⟩ := Prod.mk.inj (List.mem_singleton.mp hmem)
    exact .inl hH.2
  | renewed claim item =>
    obtain ⟨rfl, rfl⟩ := Prod.mk.inj (List.mem_singleton.mp hmem)
    exact .inl hH.2
  | recovering now items => exact .inl (hH.2 i new hl)
  | settling now claim items waiting done => exact .inl (hH.1 i new hl)
  | refreshing now claim items run a waiting done => exact .inl (hH.1 i new hl)
  | _ => cases hl

theorem publishing_no_items (hR : Rows s) {sessionId : SessionId}
    {fence : GatewayDiscovery.SyncWriteFence} {row : RunRow}
    (hH : Holds s (.published sessionId fence row items)) : ¬ HasItems s fence.syncRunId := by
  obtain ⟨⟨old, now, hold, hfenced, _⟩, _⟩ := hH
  exact leased_no_items hR hold (owned_held hfenced.2.1)

/-- A transaction that has written an item of a run with committed items replaces one of them. -/
theorem writes_written (hR : Rows s) (hr : HasItems s r) (hH : Holds s k)
    {new : SyncItemRow} (hl : k.itemWrites.lookup i = some new) (hrun : new.syncRunId = r) :
    Written s i new := by
  obtain h | ⟨sessionId, fence, row, items, rfl, heq⟩ := written_or_published hH hl
  · exact h
  · exact absurd (by rw [← heq, hrun]; exact hr) (publishing_no_items hR hH)

/-- Nobody else has written an item that a transaction has written. -/
theorem other_unwritten (hI : Inv s) {m : ℕ} (hm : m ≠ n) {new : SyncItemRow}
    (hl : (s.txs n).itemWrites.lookup i = some new) : (s.txs m).itemWrites.lookup i = none := by
  cases h : (s.txs m).itemWrites.lookup i with
  | none => rfl
  | some other =>
    have hlock := item_locked (lookup_mem h)
    exact absurd (item_locked (lookup_mem hl)) (hI.exclusive m n _ hm hlock).1

/-- An unfinished version of a committed item that only its transaction has written. -/
theorem unfinished_of_written (hI : Inv s) (hr : HasItems s r) {new : SyncItemRow}
    (hl : (s.txs n).itemWrites.lookup i = some new) (hrun : new.syncRunId = r)
    (hn : ¬ new.Terminal) : Unfinished s r := by
  obtain ⟨item, hitem, hterminal, heq⟩ := writes_written hI.rows hr (hI.holds n) hl hrun
  refine ⟨i, (hI.rows.inserted i item hitem).1, ⟨item, hitem, heq.symm.trans hrun, hterminal⟩, ?_⟩
  intro m _ other hother
  by_cases hm : m = n
  · subst hm
    rw [Option.mem_def, hl] at hother
    cases hother
    exact hn
  · rw [Option.mem_def, other_unwritten hI hm hl] at hother
    cases hother

theorem not_took (hc : counted r k = none) (hw : wrote r k = none) : ¬ Took r k := by
  rintro (h | h)
  · rw [hc] at h
    cases h
  · rw [hw] at h
    cases h

theorem not_took_closed : ¬ Took r .closed := not_took rfl rfl

theorem took_started (hI : Inv s) (h : Took r (s.txs n)) : n < s.started := by
  by_contra hge
  rw [hI.closed n (Nat.not_lt.mp hge)] at h
  exact not_took_closed h

/-- With the items of a run all finished in some version and every snapshot of the run taken, a
transaction that no other has overtaken counts finished items only. -/
theorem seen_terminal (hI : Inv s) (hT : ∀ n, Tracks (s.txs n)) (hr : HasItems s r)
    (hu : ¬ Unfinished s r) (hread : ¬ Unread s r) (hlast : ∀ p, p ≠ n → ¬ Took r (s.txs p)) :
    ∀ item ∈ s.itemsSeen (s.txs n) r, item.Terminal := by
  intro item hitem
  obtain ⟨i, hseen, hrun⟩ := mem_itemsSeen hitem
  by_contra hterminal
  unfold seen at hseen
  cases hl : (s.txs n).itemWrites.lookup i with
  | some new =>
    rw [hl] at hseen
    cases hseen
    exact hu (unfinished_of_written hI hr hl hrun hterminal)
  | none =>
    rw [hl, Option.none_or] at hseen
    refine hu ⟨i, (hI.rows.inserted i item hseen).1, ⟨item, hseen, hrun, hterminal⟩, ?_⟩
    intro m hm new hnew hnt
    have hmn : m ≠ n := by
      rintro rfl
      rw [Option.mem_def, hl] at hnew
      cases hnew
    obtain h | h := written_or_published (hI.holds m) hnew
    · obtain ⟨old, hold, _, heq⟩ := h
      rw [hseen] at hold
      cases hold
      obtain h | h | h := tracked (hI.holds m) (hT m) hnew
      · exact h hnt
      · exact hread ⟨m, hm, by rw [← heq.trans hrun]; exact h⟩
      · exact hlast m hmn (by rw [← heq.trans hrun]; exact h)
    · obtain ⟨_, _, _, items, hk, _⟩ := h
      have hH := hI.holds m
      rw [hk] at hH hnew
      exact (hH.2 _ (lookup_mem hnew)).2 (hI.rows.inserted i item hseen).1

end Versions

section Finishing

/-- A statement of a transaction that does not count the items of the run. -/
structure Quiet (s : State) (r : RunId) (k k' : Tx) : Prop where
  written : ∀ i new, k'.itemWrites.lookup i = some new → k.itemWrites.lookup i = some new ∨
    ¬ new.Terminal ∨ Reads new.syncRunId k'
  reads : Reads r k → Reads r k'
  took : Took r k' ↔ Took r k
  exact : Took r k → Exact s r k → Exact s r k'

theorem Unfinished.stage (hI : Inv s) {d t : ℕ} (hn : n < t) (hH : Holds { s with drawn := d } k')
    (hw : ∀ i new, k'.itemWrites.lookup i = some new → (s.txs n).itemWrites.lookup i = some new ∨
      ¬ new.Terminal ∨ Reads new.syncRunId k') (h : Unfinished s r) :
    Unfinished { s with drawn := d, started := t, txs := Function.update s.txs n k' } r ∨
      Unread { s with drawn := d, started := t, txs := Function.update s.txs n k' } r := by
  obtain ⟨i, hi, ⟨item, hitem, hrun, hterminal⟩, hversions⟩ := h
  have hold : ∀ m new, (s.txs m).itemWrites.lookup i = some new → ¬ new.Terminal := by
    intro m new hnew
    by_cases hm : m < s.started
    · exact hversions m hm new hnew
    · rw [hI.closed m (Nat.not_lt.mp hm)] at hnew
      cases hnew
  by_cases hx : ∃ new, k'.itemWrites.lookup i = some new ∧ new.Terminal
  · obtain ⟨new, hnew, hnt⟩ := hx
    refine .inr ⟨n, hn, ?_⟩
    obtain ⟨old, hold', _, heq⟩ : Written s i new := by
      obtain h | ⟨_, _, _, items, rfl, _⟩ := written_or_published hH hnew
      · exact h
      · exact absurd hi (hH.2 _ (lookup_mem hnew)).2
    have hitem' : s.items i = some item := hitem
    rw [hitem'] at hold'
    cases hold'
    obtain h | h | h := hw i new hnew
    · exact absurd hnt (hold n new h)
    · exact absurd hnt h
    · simp only [Function.update_self]
      rwa [heq, hrun] at h
  · refine .inl ⟨i, hi, ⟨item, hitem, hrun, hterminal⟩, ?_⟩
    intro m _ new hnew hnt
    by_cases hm : m = n
    · subst hm
      simp only [Function.update_self, Option.mem_def] at hnew
      exact hx ⟨new, hnew, hnt⟩
    · simp only [Function.update_of_ne hm, Option.mem_def] at hnew
      exact hold m new hnew hnt

theorem Unread.stage {d t : ℕ} (ht : s.started ≤ t)
    (hreads : Reads r (s.txs n) → Reads r k') (h : Unread s r) :
    Unread { s with drawn := d, started := t, txs := Function.update s.txs n k' } r := by
  obtain ⟨m, hm, h⟩ := h
  refine ⟨m, Nat.lt_of_lt_of_le hm ht, ?_⟩
  by_cases hmn : m = n
  · subst hmn
    simp only [Function.update_self]
    exact hreads h
  · simpa only [Function.update_of_ne hmn] using h

theorem Finishing.stage (hI : Inv s) {d t : ℕ} (hn : n < t) (ht : s.started ≤ t)
    (hH : Holds { s with drawn := d } k') (hq : Quiet s r (s.txs n) k') (h : Finishing s r) :
    Finishing { s with drawn := d, started := t, txs := Function.update s.txs n k' } r := by
  have htook : ∀ m, Took r (Function.update s.txs n k' m) ↔ Took r (s.txs m) := by
    intro m
    by_cases hm : m = n
    · subst hm
      simp only [Function.update_self]
      exact hq.took
    · simp only [Function.update_of_ne hm]
  cases h with
  | unfinished h =>
    obtain h | h := h.stage hI (d := d) hn hH hq.written
    · exact .unfinished h
    · exact .unread h
  | unread h => exact .unread (h.stage ht hq.reads)
  | several m p hmp hm hp => exact .several m p hmp ((htook m).mpr hm) ((htook p).mpr hp)
  | last m hm hothers hexact =>
    refine .last m ((htook m).mpr hm) (fun p hp h => hothers p hp ((htook p).mp h)) ?_
    by_cases hmn : m = n
    · subst hmn
      simp only [Function.update_self]
      exact hq.exact hm hexact
    · simp only [Function.update_of_ne hmn]
      exact hexact
  | finished row hnone hrow ha =>
    exact .finished row (fun m h => hnone m ((htook m).mp h)) hrow ha

theorem snapshot_tracks {now : ℕ} {claim : Option ClaimedGatewaySyncItem} {waiting : List RunId}
    {done : List (RunId × RunRow)} {a : Aggregate}
    (h : Tracks (.settling now claim items (r :: waiting) done)) :
    Tracks (.refreshing now claim items r a waiting done) := by
  intro p hp
  obtain hw | hd := h p hp
  · obtain heq | hw := List.mem_cons.mp hw
    · exact .inl heq
    · exact .inr (.inl hw)
  · exact .inr (.inr hd)

/-- The snapshot of `refreshParent`. -/
theorem Finishing.aggregate (hI : Inv s) (hT : ∀ n, Tracks (s.txs n)) (hr : HasItems s r)
    {now : ℕ} {claim : Option ClaimedGatewaySyncItem} {waiting : List RunId}
    {done : List (RunId × RunRow)} {v : State}
    (hk : s.txs n = .settling now claim items (r :: waiting) done)
    (hv : v = { s with
      txs := Function.update s.txs n (.refreshing now claim items r
        (aggregate (s.itemsSeen (s.txs n) r)) waiting done) }) : Finishing v r := by
  have hn : n < s.started := by
    by_contra hge
    rw [hI.closed n (Nat.not_lt.mp hge)] at hk
    cases hk
  have hself : v.txs n = .refreshing now claim items r (GatewaySyncTransactions.aggregate
      (s.itemsSeen (s.txs n) r)) waiting done := by
    rw [hv]
    simp
  have hother : ∀ m, m ≠ n → v.txs m = s.txs m := by
    intro m hm
    rw [hv]
    simp [hm]
  have htables : v.items = s.items ∧ v.itemIds = s.itemIds ∧ v.started = s.started := by
    rw [hv]
    exact ⟨rfl, rfl, rfl⟩
  obtain ⟨hitems, hids, hst⟩ := htables
  have htook : Took r (v.txs n) := by
    rw [hself]
    exact .inl (by simp [counted])
  by_cases hu : Unfinished v r
  · exact .unfinished hu
  by_cases hread : Unread v r
  · exact .unread hread
  by_cases hx : ∃ p, p ≠ n ∧ Took r (v.txs p)
  · obtain ⟨p, hp, h⟩ := hx
    exact .several n p hp.symm htook h
  refine .last n htook (fun p hp h => hx ⟨p, hp, h⟩) ?_
  have hsame : v.itemsSeen (v.txs n) r = s.itemsSeen (s.txs n) r := by
    unfold State.itemsSeen
    rw [hids, hitems, hself, hk]
    rfl
  have hI' : Inv v := by
    have hsnapshot : txNext 0 s n (s.txs n) .aggregate = some (.refreshing now claim items r
        (GatewaySyncTransactions.aggregate (s.itemsSeen (s.txs n) r)) waiting done) := by
      rw [hk]
      rfl
    have hmoved := txNext_stage hI hsnapshot
    rw [hv]
    exact inv_stage hI (Nat.le_refl _) (Nat.le_refl _) hn hmoved
  have hT' : ∀ m, Tracks (v.txs m) := by
    intro m
    by_cases hm : m = n
    · rw [hm, hself]
      have htracks := hT n
      rw [hk] at htracks
      exact snapshot_tracks htracks
    · rw [hother m hm]
      exact hT m
  have hr' : HasItems v r := by
    unfold HasItems
    rw [hitems]
    exact hr
  refine ⟨?_, ?_⟩
  · intro a ha
    rw [hself] at ha
    simp only [counted, if_true, Option.some.injEq] at ha
    refine ⟨by rw [hsame, ha], ?_⟩
    exact seen_terminal hI' hT' hr' hu hread (fun p hp h => hx ⟨p, hp, h⟩)
  · intro hnone
    rw [hself] at hnone
    simp [counted] at hnone

/-- The stages that have nothing to do with the counts of any run. -/
def Idle : Tx → Prop
  | .recovering _ _ | .settling _ _ _ _ _ | .refreshing _ _ _ _ _ _ _ => False
  | _ => True

theorem Idle.not_reads (h : Idle k) : ¬ Reads r k := by
  cases k with
  | recovering | settling | refreshing => exact absurd h id
  | _ => exact id

theorem Idle.not_took (h : Idle k) : ¬ Took r k := by
  cases k with
  | recovering | settling | refreshing => exact absurd h id
  | _ => exact GatewaySyncRefreshes.not_took rfl rfl

theorem Quiet.of_uncounted (hw : ∀ i new, k'.itemWrites.lookup i = some new → ¬ new.Terminal)
    (hr : ¬ Reads r k) (ht : ¬ Took r k) (ht' : ¬ Took r k') : Quiet s r k k' where
  written i new hl := .inr (.inl (hw i new hl))
  reads h := absurd h hr
  took := ⟨fun h => absurd h ht', fun h => absurd h ht⟩
  exact h := absurd h ht

theorem Quiet.of_idle (hk : Idle k) (hk' : Idle k')
    (hw : ∀ i new, k'.itemWrites.lookup i = some new → ¬ new.Terminal) : Quiet s r k k' :=
  .of_uncounted hw hk.not_reads hk.not_took hk'.not_took

/-- A stage with nothing written follows one that has counted nothing. -/
theorem idle_tracks (hk : Idle k) (hk' : Idle k') (hw : k'.itemWrites = [])
    (ht : Tracks k') : Tracks k' ∧ ∀ r, Quiet s r k k' := by
  refine ⟨ht, fun r => .of_idle hk hk' ?_⟩
  intro i new hl
  rw [hw] at hl
  cases hl

/-- So does one that has written an unfinished item. -/
theorem single_tracks {j : ItemId} {new : SyncItemRow} (hk : Idle k) (hk' : Idle k')
    (hw : k'.itemWrites = [(j, new)]) (hn : ¬ new.Terminal) (ht : Tracks k') :
    Tracks k' ∧ ∀ r, Quiet s r k k' := by
  refine ⟨ht, fun r => .of_idle hk hk' ?_⟩
  intro i row hl
  rw [hw] at hl
  obtain ⟨_, rfl⟩ := Prod.mk.inj (List.mem_singleton.mp (lookup_mem hl))
  exact hn

theorem startItem_tracks {claim : ClaimedGatewaySyncItem}
    {f : SyncItemRow → Option SyncItemRow}
    (h : startItem s claim now f (settled claim now) = some k) :
    Tracks k ∧ Quiet s r .closed k := by
  obtain ⟨item, new, _, _, _, _, rfl⟩ := startItem_some h
  have hnone : ¬ Took r (settled claim now new) := not_took rfl rfl
  refine ⟨?_, ?_, False.elim, iff_of_false hnone not_took_closed,
    fun h => absurd h not_took_closed⟩
  · intro p hp
    rw [List.mem_singleton.mp hp]
    exact .inl List.mem_cons_self
  · intro i row hl
    obtain ⟨_, rfl⟩ := Prod.mk.inj (List.mem_singleton.mp (lookup_mem hl))
    exact .inr (.inr List.mem_cons_self)

theorem renewLease_unfinished {token : ℕ} {item new : SyncItemRow}
    (h : GatewaySyncItemStatements.renewLease now token item = some new) : ¬ new.Terminal := by
  unfold GatewaySyncItemStatements.renewLease at h
  split at h
  · rename_i hc
    cases h
    exact running_unfinished hc.1
  · cases h

theorem renewAfterWrite_unfinished {token : ℕ} {item new : SyncItemRow}
    (h : GatewaySyncItemStatements.renewAfterWrite now token item = some new) :
    ¬ new.Terminal := by
  unfold GatewaySyncItemStatements.renewAfterWrite at h
  split at h
  · rename_i hc
    cases h
    exact running_unfinished hc.1
  · cases h

theorem claim_unfinished {token : ℕ} {item new : SyncItemRow}
    (h : GatewaySyncItemStatements.claim maxAttempts now token item = some new) :
    ¬ new.Terminal := by
  unfold GatewaySyncItemStatements.claim at h
  split at h
  · cases h
    exact running_unfinished rfl
  · cases h

theorem opened_tracks {first : Opening} (h : opened maxAttempts s first = some k) :
    Tracks k ∧ ∀ r, Quiet s r .closed k := by
  cases first with
  | claimRun id =>
    simp only [opened] at h
    split at h
    · obtain ⟨_, rfl⟩ := guarded_eq_some.mp h
      exact idle_tracks trivial trivial rfl trivial
    · cases h
  | assertFence table sessionId fence =>
    obtain ⟨_, rfl⟩ := guarded_eq_some.mp h
    exact idle_tracks trivial trivial rfl trivial
  | readDiscovery sessionId fence now =>
    obtain ⟨_, rfl⟩ := guarded_eq_some.mp h
    exact idle_tracks trivial trivial rfl trivial
  | assertItem claim now =>
    simp only [opened] at h
    split at h
    · obtain ⟨_, rfl⟩ := guarded_eq_some.mp h
      exact idle_tracks trivial trivial rfl trivial
    · cases h
  | peekItem id =>
    simp only [opened] at h
    split at h
    · split at h
      · split at h
        · obtain ⟨_, rfl⟩ := guarded_eq_some.mp h
          exact idle_tracks trivial trivial rfl trivial
        · cases h
      · cases h
    · cases h
  | renewItem claim now =>
    obtain ⟨item, new, _, hnew, _, _, rfl⟩ := startItem_some h
    have hn := renewLease_unfinished hnew
    exact single_tracks trivial trivial rfl hn hn
  | completeItem claim now members =>
    exact ⟨(startItem_tracks (r := 0) h).1, fun r => (startItem_tracks h).2⟩
  | skipItem claim now error =>
    exact ⟨(startItem_tracks (r := 0) h).1, fun r => (startItem_tracks h).2⟩
  | failItem claim now random error retryable =>
    exact ⟨(startItem_tracks (r := 0) h).1, fun r => (startItem_tracks h).2⟩
  | recoverItems now =>
    obtain ⟨_, rfl⟩ := guarded_eq_some.mp h
    refine ⟨trivial, fun r => .of_uncounted ?_ id not_took_closed (not_took rfl rfl)⟩
    intro i new hl
    cases hl

theorem insertedItems_nodup {drawn : ℕ} {present groups : List String} :
    ((insertedItems now r drawn present groups).map Prod.fst).Nodup := by
  unfold insertedItems
  rw [List.map_map]
  have hids : ((groups.dedup.filter (· ∉ present)).zipIdx drawn).map
      (Prod.fst ∘ fun (group, id) => (id, GatewaySyncItemStatements.insertItem now r group)) =
      ((groups.dedup.filter (· ∉ present)).zipIdx drawn).map Prod.snd := rfl
  rw [hids, List.zipIdx_map_snd]
  exact List.nodup_range'

/-- A publication of a run without items inserts one unless it has selected no group. -/
theorem publish_tracks (hR : Rows s) (hbegun : ∀ r row, s.runs r = some row → Begun s r row)
    {sessionId : SessionId} {fence : GatewayDiscovery.SyncWriteFence} {row : RunRow}
    {discovered : ℕ} {groups : List String} (hrow : s.runs fence.syncRunId = some row)
    (hfenced : FencedRun now sessionId fence row) :
    Tracks (.published sessionId fence (published now discovered groups.length row)
      (insertedItems now fence.syncRunId s.drawn (present s fence.syncRunId) groups)) := by
  have held := owned_held hfenced.2.1
  obtain ⟨_, hsynced, hfailed, hskipped⟩ := (hbegun _ row hrow).leased held
  refine ⟨insertedItems_nodup, ?_⟩
  have hpresent : present s fence.syncRunId = [] := by
    unfold present
    rw [List.map_eq_nil_iff, List.eq_nil_iff_forall_not_mem]
    intro item hitem
    obtain ⟨i, hseen, hrun⟩ := mem_itemsSeen hitem
    exact leased_no_items hR hrow held ⟨i, item, hseen, hrun⟩
  cases groups with
  | nil => exact .inr (.inr ⟨rfl, hsynced, hfailed, hskipped⟩)
  | cons g groups =>
    refine .inr (.inl ?_)
    intro hnil
    have hlen := congrArg List.length hnil
    simp only [insertedItems, hpresent, List.length_map, List.length_zipIdx, List.length_nil,
      List.not_mem_nil, not_false_eq_true, decide_true, List.filter_true,
      List.length_eq_zero_iff] at hlen
    have hmem : g ∈ (g :: groups).dedup := List.mem_dedup.mpr List.mem_cons_self
    rw [hlen] at hmem
    cases hmem

theorem wrote_cons {now : ℕ} {claim : Option ClaimedGatewaySyncItem} {waiting : List RunId}
    {run : RunId} {row : RunRow} {done : List (RunId × RunRow)} :
    wrote r (.settling now claim items waiting ((run, row) :: done)) =
      if run = r then some row else done.lookup r := by
  simp only [wrote, List.lookup_cons]
  by_cases h : r = run
  · simp [h]
  · simp [Ne.symm h, beq_eq_false_iff_ne.mpr h]

/-- The UPDATE of `refreshParent` turns what the transaction has counted into what it has
written. -/
theorem writeParent_quiet {claim : Option ClaimedGatewaySyncItem} {waiting : List RunId}
    {run : RunId} {a : Aggregate} {row : RunRow} {done : List (RunId × RunRow)} :
    Quiet s r (.refreshing now claim items run a waiting done)
      (.settling now claim items waiting ((run, refreshed now a row) :: done)) where
  written i new hl := .inl hl
  reads h := h
  took := by
    unfold Took
    rw [wrote_cons]
    by_cases h : run = r
    · simp [counted, h]
    · simp [counted, wrote, h]
  exact := by
    rintro _ ⟨hcounted, hwrote⟩
    refine ⟨?_, ?_⟩
    · intro b hb
      cases hb
    intro _ new hnew
    rw [wrote_cons] at hnew
    by_cases h : run = r
    · rw [if_pos h, Option.some.injEq] at hnew
      obtain ⟨ha, hterminal⟩ := hcounted a (by simp [counted, h])
      rw [← hnew, ha]
      exact refreshed_accurate hterminal
    · rw [if_neg h] at hnew
      exact hwrote (by simp [counted, h]) new hnew

theorem settling_run (hI : Inv s) {claim : Option ClaimedGatewaySyncItem} {waiting : List RunId}
    {run : RunId} {a : Aggregate} {done : List (RunId × RunRow)}
    (hH : Holds s (.refreshing now claim items run a waiting done)) : s.runs run ≠ none := by
  obtain ⟨i, item, hitem, rfl⟩ := writes_hasItems hH.1 (hH.2.2.1 run List.mem_cons_self)
  obtain ⟨_, row, hrow, _⟩ := hI.rows.inserted i item hitem
  rw [hrow]
  simp

/-- Each further statement but the snapshot itself is quiet. -/
theorem next_tracks (hI : Inv s) (hT : ∀ n, Tracks (s.txs n))
    (hbegun : ∀ r row, s.runs r = some row → Begun s r row)
    {event : TxEvent} (h : txNext maxAttempts s n (s.txs n) event = some k) :
    Tracks k ∧ ∀ r, Quiet s r (s.txs n) k ∨ ∃ now claim items waiting done,
      s.txs n = .settling now claim items (r :: waiting) done ∧
        k = .refreshing now claim items r (aggregate (s.itemsSeen (s.txs n) r)) waiting done := by
  have hholds := hI.holds n
  have htracks := hT n
  generalize hk : s.txs n = before at h hholds htracks ⊢
  have hquiet : ∀ k', (Tracks k' ∧ ∀ r, Quiet s r before k') → Tracks k' ∧ ∀ r,
      Quiet s r before k' ∨ ∃ now claim items waiting done,
        before = .settling now claim items (r :: waiting) done ∧
          k' = .refreshing now claim items r (aggregate (s.itemsSeen before r)) waiting done :=
    fun k' h => ⟨h.1, fun r => .inl (h.2 r)⟩
  unfold txNext at h
  split at h
  · cases h
    exact hquiet _ (idle_tracks trivial trivial rfl trivial)
  · split at h
    · obtain ⟨_, rfl⟩ := guarded_eq_some.mp h
      exact hquiet _ (idle_tracks trivial trivial rfl trivial)
    · cases h
  · split at h
    · obtain ⟨_, rfl⟩ := guarded_eq_some.mp h
      exact hquiet _ (idle_tracks trivial trivial rfl trivial)
    · cases h
  · split at h
    · obtain ⟨_, rfl⟩ := guarded_eq_some.mp h
      exact hquiet _ (idle_tracks trivial trivial rfl trivial)
    · cases h
  · obtain ⟨row, hrow, rfl⟩ := Option.map_eq_some_iff.mp h
    obtain ⟨found, hfound, hfenced⟩ := hholds
    rw [hrow] at hfound
    cases hfound
    refine hquiet _ ⟨publish_tracks hI.rows hbegun hrow hfenced,
      fun r => .of_idle trivial trivial ?_⟩
    intro i new hl
    have hs : new.status = .pending := (insertedItems_spec (lookup_mem hl)).2.2
    simp [SyncItemRow.Terminal, hs]
  · obtain ⟨row, hrow, rfl⟩ := Option.map_eq_some_iff.mp h
    obtain ⟨found, hfound, hfenced⟩ := hholds
    rw [hrow] at hfound
    cases hfound
    refine hquiet _ (idle_tracks trivial trivial rfl ?_)
    exact ⟨List.nodup_nil, .inl ((hbegun _ row hrow).leased (owned_held hfenced.2.1)).1⟩
  · split at h
    · rename_i new hnew
      obtain ⟨item, _, hf⟩ := Option.bind_eq_some_iff.mp hnew
      obtain ⟨_, rfl⟩ := guarded_eq_some.mp h
      have hn := renewAfterWrite_unfinished hf
      exact hquiet _ (single_tracks trivial trivial rfl hn hn)
    · cases h
  · obtain ⟨_, rfl⟩ := guarded_eq_some.mp h
    exact hquiet _ (idle_tracks trivial trivial rfl trivial)
  · split at h
    · rename_i new hnew
      obtain ⟨item, _, hf⟩ := Option.bind_eq_some_iff.mp hnew
      obtain ⟨_, rfl⟩ := guarded_eq_some.mp h
      have hn := claim_unfinished hf
      exact hquiet _ (single_tracks trivial trivial rfl hn hn)
    · cases h
  · rename_i now items id
    split at h
    · rename_i new hnew
      obtain ⟨_, rfl⟩ := guarded_eq_some.mp h
      refine ⟨trivial, fun r => .inl ⟨?_, ?_, ?_, ?_⟩⟩
      · intro i row hl
        simp only [Tx.itemWrites, List.lookup_append] at hl
        cases hi : items.lookup i with
        | some old =>
          rw [hi] at hl
          exact .inl (by rw [Tx.itemWrites, hi]; exact hl)
        | none =>
          rw [hi, Option.none_or] at hl
          obtain ⟨_, rfl⟩ := Prod.mk.inj (List.mem_singleton.mp (lookup_mem hl))
          exact .inr (.inr (by simp [Reads]))
      · intro hr
        simp only [Reads, List.map_append, List.mem_append]
        exact .inl hr
      · exact iff_of_false (not_took rfl rfl) (not_took rfl rfl)
      · exact fun ht => absurd ht (not_took rfl rfl)
    · cases h
  · rename_i now items
    cases h
    refine ⟨?_, fun r => .inl ⟨fun i new hl => .inl hl, List.mem_dedup.mpr, ?_, ?_⟩⟩
    · intro p hp
      exact .inl (List.mem_dedup.mpr (List.mem_map.mpr ⟨p, hp, rfl⟩))
    · exact iff_of_false (not_took rfl rfl) (not_took rfl rfl)
    · exact fun ht => absurd ht (not_took rfl rfl)
  · rename_i now claim items run waiting done
    cases h
    refine ⟨snapshot_tracks htracks, ?_⟩
    intro r
    by_cases hr : r = run
    · subst hr
      exact .inr ⟨now, claim, items, waiting, done, rfl, rfl⟩
    · refine .inl ⟨fun i new hl => .inl hl, ?_, ?_, ?_⟩
      · exact fun h => (List.mem_cons.mp h).resolve_left hr
      · simp [Took, counted, wrote, Ne.symm hr]
      · rintro _ ⟨_, hwrote⟩
        refine ⟨?_, fun _ => hwrote rfl⟩
        intro a ha
        simp [counted, Ne.symm hr] at ha
  · rename_i now claim items run a waiting done
    split at h
    · obtain ⟨_, rfl⟩ := guarded_eq_some.mp h
      refine ⟨?_, fun r => .inl writeParent_quiet⟩
      intro p hp
      rw [List.lookup_cons]
      obtain h | h | h := htracks p hp
      · exact .inr (by simp [h])
      · exact .inl h
      · refine .inr ?_
        split
        · rfl
        · exact h
    · rename_i hrow
      exact absurd hrow (settling_run hI hholds)
  · cases h

/-- Of two transactions that have both written a run, one is not there. -/
theorem wrote_exclusive (hI : Inv s) {m p : ℕ} (hmp : m ≠ p) (hm : (wrote r (s.txs m)).isSome)
    (hp : (wrote r (s.txs p)).isSome) : False := by
  have hlock : ∀ q, (wrote r (s.txs q)).isSome → Resource.run r ∈ (s.txs q).locks := by
    intro q hq
    obtain ⟨row, hrow⟩ := Option.isSome_iff_exists.mp hq
    refine run_locked (p := (r, row)) ?_
    cases hk : s.txs q with
    | settling now claim items waiting done =>
      rw [hk] at hrow
      exact lookup_mem hrow
    | refreshing now claim items run a waiting done =>
      rw [hk] at hrow
      exact lookup_mem hrow
    | _ =>
      rw [hk] at hrow
      cases hrow
  exact (hI.exclusive m p _ hmp (hlock m hm)).1 (hlock p hp)

theorem done_reads (hk : k.Done) : ¬ Reads r k := by
  cases k with
  | settling now claim items waiting done =>
    cases waiting with
    | nil => exact List.not_mem_nil
    | cons => exact absurd hk id
  | recovering => exact absurd hk id
  | refreshing => exact absurd hk id
  | _ => exact id

theorem done_counted (hk : k.Done) : counted r k = none := by
  cases k with
  | refreshing => exact absurd hk id
  | _ => rfl

/-- A run with committed items is written by a refresh or not at all. -/
theorem runWrites_wrote (hR : Rows s) (hH : Holds s k) (hk : k.Done) (hr : HasItems s r) :
    k.runWrites.lookup r = wrote r k := by
  have hfree : ∀ q row, s.runs q = some row → ¬ HasItems s q → r ≠ q := by
    rintro q row _ hno rfl
    exact hno hr
  cases k with
  | claimed claim new =>
    obtain ⟨_, _, _, row, now, hrow, _, hclaim⟩ := hH
    have hne : r ≠ claim.id := by
      refine hfree _ row hrow ?_
      rintro ⟨i, item, hitem, heq⟩
      obtain ⟨_, found, hfound, _, _, hp, _⟩ := hR.inserted i item hitem
      rw [heq, hrow] at hfound
      cases hfound
      exact hp (claim_some hclaim).1
    simp [Tx.runWrites, wrote, List.lookup_cons, beq_eq_false_iff_ne.mpr hne]
  | published sessionId fence new items =>
    have hno := publishing_no_items hR hH
    obtain ⟨⟨row, now, hrow, _⟩, _⟩ := hH
    have hne : r ≠ fence.syncRunId := hfree _ row hrow hno
    simp [Tx.runWrites, wrote, List.lookup_cons, beq_eq_false_iff_ne.mpr hne]
  | _ => rfl

/-- A run whose items a commit does not touch. -/
theorem seen_after (hI : Inv s) (hno : ¬ Unfinished s r) (hr : HasItems s r)
    (hT : ∀ n, Tracks (s.txs n)) (hk : (s.txs n).Done) (ht : ¬ Took r (s.txs n)) {l : List ItemId}
    {v : State} (hids : v.itemIds = s.itemIds ++ l)
    (hl : ∀ i ∈ l, ∃ new, (s.txs n).itemWrites.lookup i = some new)
    (hv : ∀ i, v.items i = seen s (s.txs n) i)
    (hk' : ∀ i new, (s.txs n).itemWrites.lookup i = some new → k.itemWrites.lookup i = none) :
    v.itemsSeen k r = s.itemsSeen k r := by
  have hother : ∀ i new, (s.txs n).itemWrites.lookup i = some new → new.syncRunId ≠ r := by
    intro i new hnew hrun
    obtain h | h | h := tracked (hI.holds n) (hT n) hnew
    · exact hno (unfinished_of_written hI hr hnew hrun h)
    · exact done_reads hk h
    · exact ht (by rw [← hrun]; exact h)
  refine itemsSeen_congr hids ?_ ?_
  · intro i hi
    unfold seen
    rw [hv, seen]
    cases hw : (s.txs n).itemWrites.lookup i with
    | none => rfl
    | some new =>
      rw [hk' i new hw, Option.none_or, Option.none_or, Option.some_or]
      have hne := hother i new hw
      obtain ⟨item, hitem, _, heq⟩ | ⟨_, _, _, items, hpub, _⟩ :=
        written_or_published (hI.holds n) hw
      · simp [Option.filter, hitem, hne, ← heq]
      · have hH := hI.holds n
        rw [hpub] at hH hw
        exact absurd hi (hH.2 _ (lookup_mem hw)).2
  · intro i hi
    obtain ⟨new, hw⟩ := hl i hi
    unfold seen
    rw [hv, seen, hk' i new hw, hw]
    simp [Option.filter, hother i new hw]

theorem committed_ids (k : Tx) : ∃ l, (committed s k).itemIds = s.itemIds ++ l ∧
    ∀ i ∈ l, ∃ new, k.itemWrites.lookup i = some new := by
  cases k with
  | published sessionId fence row items =>
    refine ⟨items.map Prod.fst, rfl, ?_⟩
    intro i hi
    obtain ⟨p, hp, rfl⟩ := List.mem_map.mp hi
    cases hl : items.lookup p.1 with
    | some new => exact ⟨new, hl⟩
    | none => exact absurd (List.lookup_eq_none_iff.mp hl p hp) (by simp)
  | _ => exact ⟨[], by simp [committed], fun i hi => absurd hi List.not_mem_nil⟩

/-- The commit of one transaction, in order. -/
theorem Finishing.commit (hI : Inv s) (hT : ∀ n, Tracks (s.txs n)) (hk : (s.txs n).Done)
    (hok : InOrder s (.tx n .commit)) (hr : HasItems s r) (h : Finishing s r) :
    Finishing { committed s (s.txs n) with txs := Function.update s.txs n .closed } r := by
  obtain ⟨l, hids, hl⟩ := committed_ids (s := s) (s.txs n)
  have hsame : ∀ m, m ≠ n → Function.update s.txs n Tx.closed m = s.txs m :=
    fun m hm => Function.update_of_ne hm _ _
  have htook : ∀ m, Took r (Function.update s.txs n Tx.closed m) → m ≠ n ∧ Took r (s.txs m) := by
    intro m hm
    by_cases hmn : m = n
    · rw [hmn, Function.update_self] at hm
      exact absurd hm not_took_closed
    · rw [hsame m hmn] at hm
      exact ⟨hmn, hm⟩
  have hunfinished : Unfinished s r →
      Unfinished { committed s (s.txs n) with txs := Function.update s.txs n .closed } r := by
    rintro ⟨i, hi, ⟨item, hitem, hrun, hterminal⟩, hversions⟩
    refine ⟨i, ?_, ?_, ?_⟩
    · simp only [hids]
      exact List.mem_append_left _ hi
    · show ∃ item ∈ seen s (s.txs n) i, _
      unfold seen
      cases hw : (s.txs n).itemWrites.lookup i with
      | none => exact ⟨item, hitem, hrun, hterminal⟩
      | some new =>
        have hwritten := writes_written hI.rows hr (hI.holds n) hw
        have hn : n < s.started := by
          by_contra hge
          rw [hI.closed n (Nat.not_lt.mp hge)] at hw
          cases hw
        refine ⟨new, rfl, ?_, hversions n hn new hw⟩
        obtain ⟨old, hold, _, heq⟩ | ⟨_, _, _, items, hpub, _⟩ :=
          written_or_published (hI.holds n) hw
        · have hitem' : s.items i = some item := hitem
          rw [hitem'] at hold
          cases hold
          exact heq.trans hrun
        · have hH := hI.holds n
          rw [hpub] at hH hw
          exact absurd hi (hH.2 _ (lookup_mem hw)).2
    · intro m hm new hnew
      by_cases hmn : m = n
      · rw [hmn] at hnew
        simp only [Function.update_self] at hnew
        cases hnew
      · simp only [hsame m hmn] at hnew
        exact hversions m hm new hnew
  by_cases hu : Unfinished s r
  · exact .unfinished (hunfinished hu)
  by_cases hread : Unread s r
  · obtain ⟨m, hm, hx⟩ := hread
    have hmn : m ≠ n := by
      rintro rfl
      exact done_reads hk hx
    exact .unread ⟨m, hm, by simpa only [hsame m hmn] using hx⟩
  have hseen : ¬ Took r (s.txs n) → ∀ m, m ≠ n →
      State.itemsSeen { committed s (s.txs n) with txs := Function.update s.txs n .closed }
        (s.txs m) r = s.itemsSeen (s.txs m) r := by
    intro ht m hm
    exact seen_after hI hu hr hT hk ht hids hl (fun _ => rfl)
      (fun i new hw => other_unwritten hI hm hw)
  cases h with
  | unfinished h => exact absurd h hu
  | unread h => exact absurd h hread
  | several m p hmp hm hp =>
    have hothers : ∀ q, q ≠ n → Took r (s.txs q) → ¬ Took r (s.txs n) := by
      intro q hq htq htn
      have hwn : (wrote r (s.txs n)).isSome := by
        obtain h | h := htn
        · rw [done_counted hk] at h
          cases h
        · exact h
      obtain hc | hw := htq
      · have hmem : r ∈ (s.txs n).runWrites.map Prod.fst := by
          obtain ⟨row, hrow⟩ := Option.isSome_iff_exists.mp hwn
          rw [← runWrites_wrote hI.rows (hI.holds n) hk hr] at hrow
          exact List.mem_map.mpr ⟨_, lookup_mem hrow, rfl⟩
        obtain h | h := hok r hmem hwn ⟨q, took_started hI (.inl hc), hq, hc⟩
        · exact hu h
        · exact hread h
      · exact wrote_exclusive hI hq hw hwn
    have hmn : m ≠ n := by
      rintro rfl
      exact hothers p hmp.symm hp hm
    have hpn : p ≠ n := by
      rintro rfl
      exact hothers m hmp hm hp
    exact .several m p hmp (by simpa only [hsame m hmn] using hm)
      (by simpa only [hsame p hpn] using hp)
  | last m hm hothers hexact =>
    by_cases hmn : m = n
    · subst hmn
      have hc := done_counted (r := r) hk
      obtain ⟨row, hrow⟩ : ∃ row, wrote r (s.txs m) = some row := by
        obtain h | h := hm
        · rw [hc] at h
          cases h
        · exact Option.isSome_iff_exists.mp h
      refine .finished row ?_ ?_ ?_
      · intro p hp
        obtain ⟨hpm, hp⟩ := htook p hp
        exact hothers p hpm hp
      · show ((s.txs m).runWrites.lookup r).or (s.runs r) = some row
        rw [runWrites_wrote hI.rows (hI.holds m) hk hr, hrow, Option.some_or]
      · have heq : State.itemsSeen { committed s (s.txs m) with
            txs := Function.update s.txs m .closed } .closed r = s.itemsSeen (s.txs m) r := by
          have hl' : ∀ i ∈ l, (seen (committed s (s.txs m)) .closed i).filter
              (·.syncRunId = r) = none := by
            intro i hi
            cases hk' : s.txs m with
            | settling =>
              rw [hk'] at hids
              have := List.append_cancel_left
                ((show s.itemIds ++ [] = s.itemIds ++ l from by simpa [committed] using hids))
              rw [← this] at hi
              cases hi
            | _ =>
              rw [hk'] at hrow hk
              first | exact absurd hk id | cases hrow
          exact itemsSeen_congr hids (fun i _ => rfl) hl'
        rw [heq]
        exact hexact.2 hc row hrow
    · refine .last m (by simpa only [hsame m hmn] using hm) ?_ ?_
      · intro p hp ht
        exact hothers p hp (htook p ht).2
      · have heq := hseen (hothers n (Ne.symm hmn)) m hmn
        simp only [hsame m hmn]
        unfold Exact
        rw [heq]
        exact hexact
  | finished row hnone hrow ha =>
    refine .finished row (fun p hp => hnone p (htook p hp).2) ?_ ?_
    · show ((s.txs n).runWrites.lookup r).or (s.runs r) = some row
      have hwn : wrote r (s.txs n) = none := by
        cases hw : wrote r (s.txs n) with
        | none => rfl
        | some new => exact absurd (.inr (by rw [hw]; rfl)) (hnone n)
      rw [runWrites_wrote hI.rows (hI.holds n) hk hr, hwn, Option.none_or, hrow]
    · have heq : State.itemsSeen { committed s (s.txs n) with
          txs := Function.update s.txs n .closed } .closed r = s.itemsSeen .closed r :=
        seen_after hI hu hr hT hk (hnone n) hids hl (fun _ => rfl) (fun _ _ _ => rfl)
      rw [heq]
      exact ha

end Finishing

end GatewaySyncRefreshes
