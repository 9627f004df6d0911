import WaRuntime.GatewaySyncRefreshes

/-! When a sync run ends with its last item: always, where the refreshes of a run that may be its
last follow one another; not where one of them commits between the snapshot and the UPDATE of
another. -/
namespace GatewaySyncCompletion

open TransitionRuns GatewaySyncTransactions GatewaySyncFences GatewaySyncStages GatewaySyncCommits
  GatewaySyncEpochs GatewaySyncRefreshes
open GatewaySyncItemStatements (SyncItemRow)
open GatewayDiscovery (SessionId RunId GatewaySyncMode recoverExpiredRun renewRun)

variable {maxAttempts now token : ℕ} {s u : State} {e : Event} {k : Tx} {n : ℕ} {r : RunId}
  {i : ItemId} {row new : RunRow}

section Runs

/-- A statement on a leased run leaves its phase, and its counts while the run is leased. -/
structure Uncounted (row new : RunRow) : Prop where
  phase : new.run.phase = row.run.phase
  counts : new.run.leaseToken = none ∧ new.run.leaseExpiresAt = none ∨
    new.groupsSynced = row.groupsSynced ∧ new.groupsFailed = row.groupsFailed ∧
      new.groupsSkipped = row.groupsSkipped

theorem recoverExpired_uncounted (h : onRun (recoverExpiredRun now) row = some new) :
    Uncounted row new := by
  obtain ⟨run, hrun, rfl⟩ := Option.map_eq_some_iff.mp h
  unfold recoverExpiredRun at hrun
  split at hrun
  · cases hrun
    exact ⟨rfl, .inl ⟨rfl, rfl⟩⟩
  · cases hrun

theorem renew_uncounted (h : onRun (renewRun now token) row = some new) : Uncounted row new := by
  obtain ⟨run, hrun, rfl⟩ := Option.map_eq_some_iff.mp h
  unfold renewRun at hrun
  split at hrun
  · cases hrun
    exact ⟨rfl, .inr ⟨rfl, rfl, rfl⟩⟩
  · cases hrun

theorem failAttempt_uncounted {groups members : ℕ} {error : String}
    (h : failAttempt now token groups members error row = some new) : Uncounted row new := by
  obtain ⟨run, hrun, rfl⟩ := Option.map_eq_some_iff.mp h
  unfold GatewayDiscovery.failAttempt at hrun
  split at hrun
  · cases hrun
    exact ⟨rfl, .inl ⟨rfl, rfl⟩⟩
  · cases hrun

theorem complete_uncounted {groups members : ℕ} (h : complete now token groups members row = some new) :
    Uncounted row new := by
  unfold complete at h
  split at h
  · cases h
    exact ⟨rfl, .inl ⟨rfl, rfl⟩⟩
  · cases h

theorem leased_begun (h : Begun s r row) (hl : Leased row new) (hu : Uncounted row new) :
    Begun u r new := by
  obtain ⟨hphase, hsynced, hfailed, hskipped⟩ := h.leased hl.held
  have hnew : new.run.phase = .discovering := hu.phase.trans hphase
  refine ⟨?_, fun hn => absurd hnew hn⟩
  intro held
  refine ⟨hnew, ?_⟩
  obtain ⟨htoken, hexpires⟩ | ⟨h₁, h₂, h₃⟩ := hu.counts
  · obtain h | h := held
    · exact absurd htoken h
    · exact absurd hexpires h
  · exact ⟨h₁.trans hsynced, h₂.trans hfailed, h₃.trans hskipped⟩

theorem kept_begun (hA : Advance s u) (hold : s.runs r = some row) (hnew : u.runs r = some row)
    (h : Begun s r row) : Begun u r row := by
  refine ⟨h.leased, ?_⟩
  intro hphase
  obtain hitems | ha := h.empty hphase
  · obtain hnone | ⟨hitems', _⟩ := hA.settled r row hold hitems
    · rw [hnew] at hnone
      cases hnone
    · exact .inl hitems'
  · exact .inr ha

theorem newRun_begun {sessionId : SessionId} {mode : GatewaySyncMode} :
    Begun u r (newRun now sessionId mode) where
  leased := by
    rintro (h | h)
    · exact absurd rfl h
    · exact absurd rfl h
  empty h := absurd rfl h

theorem claim_begun {epoch : ℕ} (h : claim now token epoch row = some new) : Begun u r new := by
  obtain ⟨run, hrun, rfl⟩ := Option.map_eq_some_iff.mp h
  unfold GatewayDiscovery.claimRun at hrun
  split at hrun
  · cases hrun
    exact ⟨fun _ => ⟨rfl, rfl, rfl, rfl⟩, fun h => absurd rfl h⟩
  · cases hrun

/-- A run without a lease has nothing to show but its items. -/
theorem unleased_begun (htoken : new.run.leaseToken = none) (hexpires : new.run.leaseExpiresAt = none)
    (h : new.run.phase ≠ .discovering → HasItems u r ∨ Accurate [] new) : Begun u r new where
  leased := by
    rintro (held | held)
    · exact absurd htoken held
    · exact absurd hexpires held
  empty := h

/-- Every run that a commit leaves. -/
theorem committed_begun (hI : Inv s) (hT : ∀ n, Tracks (s.txs n))
    (hbegun : ∀ r row, s.runs r = some row → Begun s r row) (hk : (s.txs n).Done)
    (hnew : (committed s (s.txs n)).runs r = some new) :
    Begun (committed s (s.txs n)) r new := by
  have hH := hI.holds n
  obtain ⟨_, hA⟩ := committed_rows hI.rows hk hH
  cases hw : (s.txs n).runWrites.lookup r with
  | none =>
    have hold : s.runs r = some new := by
      simpa [committed, hw] using hnew
    exact kept_begun hA hold hnew (hbegun r new hold)
  | some written =>
    have hwritten : written = new := by
      simpa [committed, hw] using hnew
    subst hwritten
    have hrefreshed : ∀ items : List (ItemId × SyncItemRow),
        (∀ i row, items.lookup i = some row → Written s i row) →
        Refreshed s items r written → Begun (committed s (s.txs n)) r written := by
      rintro items hitems ⟨row, now, a, hrow, rfl, hwrites, _⟩
      have hr := writes_hasItems hitems hwrites
      have hno : ¬ (row.run.leaseToken ≠ none ∨ row.run.leaseExpiresAt ≠ none) :=
        fun held => leased_no_items hI.rows hrow held hr
      rw [not_or, not_not, not_not] at hno
      refine unleased_begun hno.1 hno.2 (fun _ => .inl ?_)
      obtain hnone | ⟨hr', _⟩ := hA.settled r row hrow hr
      · rw [hnew] at hnone
        cases hnone
      · exact hr'
    have htracks := hT n
    generalize hc : s.txs n = k at *
    cases k with
    | claimed claim row =>
      obtain ⟨_, rfl⟩ := Prod.mk.inj (List.mem_singleton.mp (lookup_mem hw))
      obtain ⟨_, _, _, old, now, _, _, hclaim⟩ := hH
      exact claim_begun hclaim
    | published sessionId fence row items =>
      obtain ⟨rfl, rfl⟩ := Prod.mk.inj (List.mem_singleton.mp (lookup_mem hw))
      obtain ⟨⟨old, now, _, _, hfrom⟩, _⟩ := hH
      have hfree : written.run.leaseToken = none ∧ written.run.leaseExpiresAt = none := by
        obtain ⟨rfl, _⟩ | ⟨discovered, scheduled, rfl, _⟩ := hfrom
        · exact ⟨rfl, rfl⟩
        · exact ⟨rfl, rfl⟩
      refine unleased_begun hfree.1 hfree.2 ?_
      intro hphase
      obtain ⟨hnodup, h | h | h⟩ := htracks
      · exact absurd h hphase
      · refine .inl ?_
        obtain ⟨p, items', rfl⟩ := List.exists_cons_of_ne_nil h
        obtain ⟨_, hnil⟩ | ⟨_, _, _, _, hitems⟩ := hfrom
        · cases hnil
        · have hp := lookup_of_mem (a := p.1) (b := p.2) hnodup List.mem_cons_self
          exact ⟨p.1, p.2, by simp only [committed, Tx.itemWrites, hp, Option.some_or],
            (hitems p List.mem_cons_self).1⟩
      · exact .inr h
    | settling now claim items waiting done => exact hrefreshed items hH.1 (hH.2.2.2 r written hw)
    | refreshing => exact absurd hk id
    | _ => cases hw

end Runs

section Tables

/-- What only concerns other runs changes nothing for the items of this one. -/
structure Apart (s u : State) (r : RunId) : Prop where
  started : u.started = s.started
  txs : u.txs = s.txs
  itemIds : u.itemIds = s.itemIds
  items : ∀ i, (u.items i).filter (·.syncRunId = r) = (s.items i).filter (·.syncRunId = r)
  runs : u.runs r = s.runs r

theorem Apart.item (h : Apart s u r) {item : SyncItemRow} (hrun : item.syncRunId = r) :
    u.items i = some item ↔ s.items i = some item := by
  have hfilter := h.items i
  constructor
  · intro hi
    have hs : (s.items i).filter (·.syncRunId = r) = some item := by
      rw [← hfilter, hi]
      simp [Option.filter, hrun]
    exact (Option.filter_eq_some_iff.mp hs).1
  · intro hi
    have hs : (u.items i).filter (·.syncRunId = r) = some item := by
      rw [hfilter, hi]
      simp [Option.filter, hrun]
    exact (Option.filter_eq_some_iff.mp hs).1

theorem Apart.hasItems (h : Apart s u r) : HasItems u r ↔ HasItems s r := by
  constructor
  · rintro ⟨i, item, hitem, hrun⟩
    exact ⟨i, item, (h.item hrun).mp hitem, hrun⟩
  · rintro ⟨i, item, hitem, hrun⟩
    exact ⟨i, item, (h.item hrun).mpr hitem, hrun⟩

theorem Apart.itemsSeen (h : Apart s u r) : u.itemsSeen k r = s.itemsSeen k r := by
  refine itemsSeen_congr (l := []) (by rw [h.itemIds, List.append_nil]) ?_ ?_
  · intro i _
    unfold seen
    cases hl : k.itemWrites.lookup i with
    | some new => rfl
    | none =>
      rw [Option.none_or, Option.none_or]
      exact h.items i
  · intro i hi
    cases hi

theorem Apart.finishing (h : Apart s u r) (hf : Finishing s r) : Finishing u r := by
  cases hf with
  | unfinished hu =>
    obtain ⟨i, hi, ⟨item, hitem, hrun, hterminal⟩, hversions⟩ := hu
    refine .unfinished ⟨i, by rw [h.itemIds]; exact hi,
      ⟨item, (h.item hrun).mpr hitem, hrun, hterminal⟩, ?_⟩
    intro m hm
    rw [h.txs]
    exact hversions m (h.started ▸ hm)
  | unread hu =>
    obtain ⟨m, hm, hreads⟩ := hu
    exact .unread ⟨m, by rw [h.started]; exact hm, by rw [h.txs]; exact hreads⟩
  | several m p hmp hm hp =>
    exact .several m p hmp (by rw [h.txs]; exact hm) (by rw [h.txs]; exact hp)
  | last m hm hothers hexact =>
    refine .last m (by rw [h.txs]; exact hm) (by rw [h.txs]; exact hothers) ?_
    rw [h.txs]
    unfold Exact
    rw [h.itemsSeen]
    exact hexact
  | finished row hnone hrow ha =>
    exact .finished row (by rw [h.txs]; exact hnone) (by rw [h.runs, hrow])
      (by rw [h.itemsSeen]; exact ha)

/-- A statement outside the transactions: the runs it leaves are begun, and it stays away from the
runs with items. -/
theorem completing_apart (hC : Completing s) (htxs : u.txs = s.txs) (hids : u.itemIds = s.itemIds)
    (hbegun : ∀ r row, u.runs r = some row → Begun u r row)
    (h : ∀ r, HasItems u r → Apart s u r) : Completing u where
  tracks := by
    rw [htxs]
    exact hC.tracks
  nodup := by
    rw [hids]
    exact hC.nodup
  begun := hbegun
  finishing r hr := (h r hr).finishing (hC.finishing r ((h r hr).hasItems.mp hr))

theorem updated_completing (hI : Inv s) (hC : Completing s) {f : RunRow → Option RunRow}
    (hf : ∀ row new, f row = some new → Leased row new ∧ Uncounted row new)
    (h : updateRun s r now f = some u) : Completing u := by
  obtain ⟨row, new, hrow, hnew, _, rfl⟩ := updateRun_some h
  obtain ⟨hleased, hcounts⟩ := hf row new hnew
  obtain ⟨_, hA⟩ := leased_rows hI.rows hrow hleased
  refine completing_apart hC rfl rfl ?_ ?_
  · intro q found hfound
    by_cases hq : q = r
    · subst hq
      simp only [Function.update_self, Option.some.injEq] at hfound
      subst hfound
      exact leased_begun (hC.begun q row hrow) hleased hcounts
    · have hold : s.runs q = some found := by simpa [hq] using hfound
      exact kept_begun hA hold hfound (hC.begun q found hold)
  · intro q hitems
    have hq : q ≠ r := by
      rintro rfl
      exact leased_no_items hI.rows hrow hleased.held hitems
    exact ⟨rfl, rfl, rfl, fun _ => rfl, Function.update_of_ne hq _ _⟩

theorem created_completing (hI : Inv s) (hC : Completing s) {sessionId : SessionId}
    {mode : GatewaySyncMode} (hn : s.hasStatus sessionId [.pending, .running] = false) :
    Completing { s with
      drawn := s.drawn + 1
      runs := Function.update s.runs s.drawn (some (newRun now sessionId mode))
      runIds := s.drawn :: s.runIds } := by
  obtain ⟨_, hA⟩ := created_rows hI now mode hn rfl
  refine completing_apart hC rfl rfl ?_ ?_
  · intro q found hfound
    by_cases hq : q = s.drawn
    · subst hq
      simp only [Function.update_self, Option.some.injEq] at hfound
      subst hfound
      exact newRun_begun
    · have hold : s.runs q = some found := by simpa [hq] using hfound
      exact kept_begun hA hold hfound (hC.begun q found hold)
  · rintro q ⟨i, item, hitem, rfl⟩
    obtain ⟨_, row, hrow, _⟩ := hI.rows.inserted i item hitem
    have hq : item.syncRunId ≠ s.drawn := Nat.ne_of_lt (hI.rows.known _ row hrow).1
    exact ⟨rfl, rfl, rfl, fun _ => rfl, Function.update_of_ne hq _ _⟩

theorem deleted_completing (hI : Inv s) (hC : Completing s) {id : RunId} :
    Completing { s with
      runs := Function.update s.runs id none
      items := fun i => (s.items i).filter (·.syncRunId ≠ id) } := by
  obtain ⟨_, hA⟩ := deleted_rows hI.rows id rfl
  refine completing_apart hC rfl rfl ?_ ?_
  · intro q found hfound
    have hq : q ≠ id := by
      rintro rfl
      simp at hfound
    have hold : s.runs q = some found := by simpa [hq] using hfound
    exact kept_begun hA hold hfound (hC.begun q found hold)
  · rintro q ⟨i, item, hitem, rfl⟩
    have hq : item.syncRunId ≠ id := by
      simpa using (Option.filter_eq_some_iff.mp hitem).2
    refine ⟨rfl, rfl, rfl, ?_, Function.update_of_ne hq _ _⟩
    intro j
    show ((s.items j).filter (·.syncRunId ≠ id)).filter (·.syncRunId = item.syncRunId) =
      (s.items j).filter (·.syncRunId = item.syncRunId)
    rw [Option.filter_filter]
    refine congrArg (fun p => (s.items j).filter p) ?_
    funext other
    by_cases hx : other.syncRunId = item.syncRunId
    · simp [hx, hq]
    · simp [hx]

end Tables

section Stages

/-- A statement of a transaction, once it is known what becomes of the runs with items. -/
theorem stage_completing (hC : Completing s) {d t : ℕ} (htracks : Tracks k)
    (hfinishing : ∀ r, HasItems s r → Finishing s r →
      Finishing { s with drawn := d, started := t, txs := Function.update s.txs n k } r) :
    Completing { s with drawn := d, started := t, txs := Function.update s.txs n k } where
  tracks := by
    intro m
    by_cases hm : m = n
    · subst hm
      simpa using htracks
    · simpa [hm] using hC.tracks m
  nodup := hC.nodup
  begun r row hrow := ⟨(hC.begun r row hrow).leased, (hC.begun r row hrow).empty⟩
  finishing r hr := hfinishing r hr (hC.finishing r hr)

theorem opened_completing (hI : Inv s) (hC : Completing s) {first : Opening}
    (h : opened maxAttempts s first = some k) :
    Completing { s with
      started := s.started + 1
      txs := Function.update s.txs s.started k } := by
  obtain ⟨htracks, hquiet⟩ := opened_tracks h
  refine stage_completing hC htracks ?_
  intro r _ hf
  refine hf.stage hI (Nat.lt_succ_self _) (Nat.le_succ _) (opened_stage hI h).holds ?_
  rw [hI.closed _ (Nat.le_refl _)]
  exact hquiet r

theorem next_completing (hI : Inv s) (hC : Completing s) {event : TxEvent}
    (h : txNext maxAttempts s n (s.txs n) event = some k) :
    Completing { s with drawn := s.drawn + draws k, txs := Function.update s.txs n k } := by
  have hn : n < s.started := by
    by_contra hge
    rw [hI.closed n (Nat.not_lt.mp hge), txNext_closed] at h
    cases h
  obtain ⟨htracks, hquiet⟩ := next_tracks hI hC.tracks hC.begun h
  refine stage_completing hC htracks ?_
  intro r hr hf
  obtain hq | ⟨now, claim, items, waiting, done, hk, rfl⟩ := hquiet r
  · exact hf.stage hI hn (Nat.le_refl _) (txNext_stage hI h).holds hq
  · exact Finishing.aggregate hI hC.tracks hr hk rfl

/-- A transaction that ends without a commit leaves the items it has written unfinished. -/
theorem aborted_completing (hI : Inv s) (hC : Completing s) (hopen : s.txs n ≠ .closed) :
    Completing { s with txs := Function.update s.txs n .closed } := by
  have hn : n < s.started := by
    by_contra hge
    exact hopen (hI.closed n (Nat.not_lt.mp hge))
  refine stage_completing hC trivial ?_
  intro r hr hf
  by_cases hw : Writes (s.txs n).itemWrites r
  · obtain ⟨i, new, hl, hrun⟩ := hw
    obtain ⟨item, hitem, hterminal, heq⟩ := writes_written hI.rows hr (hI.holds n) hl hrun
    refine .unfinished ⟨i, (hI.rows.inserted i item hitem).1,
      ⟨item, hitem, heq.symm.trans hrun, hterminal⟩, ?_⟩
    intro m _ other hother
    by_cases hm : m = n
    · subst hm
      simp only [Function.update_self] at hother
      cases hother
    · simp only [Function.update_of_ne hm, Option.mem_def, other_unwritten hI hm hl] at hother
      cases hother
  · have hnt : ¬ Took r (s.txs n) := fun ht => hw (took_writes (hI.holds n) ht)
    refine hf.stage hI hn (Nat.le_refl _) trivial (.of_uncounted ?_ ?_ hnt not_took_closed)
    · intro i new hl
      cases hl
    · exact fun hreads => hw (reads_writes (hI.holds n) hreads)

end Stages

section Commits

/-- A run that the commit has just given its items has them all unfinished. -/
theorem published_unfinished (hI : Inv s) (hno : ¬ HasItems s r)
    (hr : HasItems (committed s (s.txs n)) r) :
    Unfinished { committed s (s.txs n) with txs := Function.update s.txs n .closed } r := by
  obtain ⟨i, item, hitem, hrun⟩ := hr
  cases hl : (s.txs n).itemWrites.lookup i with
  | none =>
    have hold : s.items i = some item := by simpa [committed, hl] using hitem
    exact absurd ⟨i, item, hold, hrun⟩ hno
  | some new =>
    have heq : new = item := by simpa [committed, hl] using hitem
    subst heq
    have hH := hI.holds n
    obtain ⟨old, hold, _, heq⟩ | ⟨sessionId, fence, row, items, hk, _⟩ :=
      written_or_published hH hl
    · exact absurd ⟨i, old, hold, heq.symm.trans hrun⟩ hno
    · have hids : i ∈ (committed s (s.txs n)).itemIds := by
        rw [hk] at hl ⊢
        exact List.mem_append_right _ (List.mem_map.mpr ⟨_, lookup_mem hl, rfl⟩)
      have hterminal : ¬ new.Terminal := by
        rw [hk] at hH hl
        obtain ⟨⟨_, _, _, _, hnew⟩, _⟩ := hH
        obtain ⟨_, rfl⟩ | ⟨_, _, _, _, hitems⟩ := hnew
        · cases hl
        · have hs : new.status = .pending := (hitems _ (lookup_mem hl)).2
          simp [SyncItemRow.Terminal, hs]
      refine ⟨i, hids, ⟨new, hitem, hrun, hterminal⟩, ?_⟩
      intro m _ other hother
      by_cases hm : m = n
      · subst hm
        simp only [Function.update_self] at hother
        cases hother
      · simp only [Function.update_of_ne hm, Option.mem_def, other_unwritten hI hm hl] at hother
        cases hother

theorem committed_completing (hI : Inv s) (hC : Completing s) (hk : (s.txs n).Done)
    (hok : InOrder s (.tx n .commit)) :
    Completing { committed s (s.txs n) with txs := Function.update s.txs n .closed } where
  tracks := by
    intro m
    by_cases hm : m = n
    · subst hm
      simp only [Function.update_self]
      trivial
    · simpa [hm] using hC.tracks m
  nodup := by
    have hH := hI.holds n
    have htracks := hC.tracks n
    cases hc : s.txs n with
    | published sessionId fence row items =>
      rw [hc] at hH htracks
      refine List.nodup_append.mpr ⟨hC.nodup, htracks.1, ?_⟩
      rintro i hi _ hp rfl
      obtain ⟨p, hmem, rfl⟩ := List.mem_map.mp hp
      exact (hH.2 p hmem).2 hi
    | _ => exact hC.nodup
  begun r row hrow :=
    have h := committed_begun hI hC.tracks hC.begun hk hrow
    ⟨h.leased, h.empty⟩
  finishing := by
    intro r hr
    by_cases hold : HasItems s r
    · exact (hC.finishing r hold).commit hI hC.tracks hk hok hold
    · exact .unfinished (published_unfinished hI hold hr)

end Commits

section Completion

theorem step_completing (hI : Inv s) (hC : Completing s) (hok : InOrder s e)
    (h : step maxAttempts s e = some u) : Completing u := by
  have hnext : ∀ n event, (txNext maxAttempts s n (s.txs n) event).map (fun k =>
      { s with drawn := s.drawn + draws k, txs := Function.update s.txs n k }) = some u →
      Completing u := by
    intro n event h
    obtain ⟨k, hk, rfl⟩ := Option.map_eq_some_iff.mp h
    exact next_completing hI hC hk
  cases e with
  | tick ms =>
    cases h
    refine completing_apart hC rfl rfl ?_ fun r _ => ⟨rfl, rfl, rfl, fun _ => rfl, rfl⟩
    exact fun r row hrow => ⟨(hC.begun r row hrow).leased, (hC.begun r row hrow).empty⟩
  | createRun sessionId mode now =>
    obtain ⟨⟨_, hn⟩, rfl⟩ := guarded_eq_some.mp h
    exact created_completing hI hC hn
  | recoverExpiredRun id now =>
    exact updated_completing hI hC
      (fun _ _ hf => ⟨recoverExpired_leased hf, recoverExpired_uncounted hf⟩) h
  | renewRun claim now =>
    obtain ⟨_, h⟩ := Option.ite_none_right_eq_some.mp h
    exact updated_completing hI hC (fun _ _ hf => ⟨(renew_leased hf).1, renew_uncounted hf⟩) h
  | failAttempt claim now groups members error =>
    obtain ⟨_, h⟩ := Option.ite_none_right_eq_some.mp h
    exact updated_completing hI hC
      (fun _ _ hf => ⟨(failAttempt_leased hf).1, failAttempt_uncounted hf⟩) h
  | completeRun claim now groups members =>
    obtain ⟨_, h⟩ := Option.ite_none_right_eq_some.mp h
    exact updated_completing hI hC (fun _ _ hf => ⟨(complete_leased hf).1, complete_uncounted hf⟩) h
  | deleteRun id =>
    simp only [step] at h
    split at h
    · obtain ⟨_, rfl⟩ := guarded_eq_some.mp h
      exact deleted_completing hI hC
    · cases h
  | opening first =>
    obtain ⟨k, hk, rfl⟩ := Option.map_eq_some_iff.mp h
    exact opened_completing hI hC hk
  | tx n event =>
    cases event with
    | commit =>
      obtain ⟨hk, rfl⟩ := guarded_eq_some.mp h
      exact committed_completing hI hC hk hok
    | abort =>
      obtain ⟨hopen, rfl⟩ := guarded_eq_some.mp h
      exact aborted_completing hI hC hopen
    | _ => exact hnext n _ h

theorem initial_completing : Completing initial where
  tracks _ := trivial
  nodup := List.nodup_nil
  begun r row h := by cases h
  finishing := by
    rintro r ⟨i, item, hitem, _⟩
    cases hitem

theorem reachable_completing (h : Reachable (restrict (system maxAttempts) InOrder) s) :
    Completing s := by
  refine reachable_invariant_with (I := Completing) (J := Inv) ?_ ?_ ?_ h
  · exact fun t ht => reachable_inv ht.unrestrict
  · rintro t rfl
    exact initial_completing
  · exact fun t e hI hC he => step_completing hI hC he.2 (ofStep_enabled he.1)

/-- Between transactions, a published run whose items are all finished has ended as they have, and
counts them. -/
theorem finished_items_complete_run (hs : Reachable (restrict (system maxAttempts) InOrder) s)
    (hquiet : ∀ n, s.txs n = .closed) (hrow : s.runs r = some row)
    (hpublished : row.run.phase ≠ .discovering)
    (hall : ∀ item ∈ s.itemsSeen .closed r, item.Terminal) :
    Accurate (s.itemsSeen .closed r) row := by
  have hI := reachable_inv hs.unrestrict
  have hC := reachable_completing hs
  have hnone : ∀ n, ¬ Took r (s.txs n) := by
    intro n
    rw [hquiet n]
    exact not_took_closed
  by_cases hr : HasItems s r
  · cases hC.finishing r hr with
    | unfinished h =>
      obtain ⟨i, hi, ⟨item, hitem, hrun, hterminal⟩, _⟩ := h
      refine absurd (hall item ?_) hterminal
      rw [itemsSeen_eq]
      refine List.mem_filterMap.mpr ⟨i, hi, ?_⟩
      have hseen : seen s .closed i = some item := hitem
      simp [hseen, Option.filter, hrun]
    | unread h =>
      obtain ⟨m, _, h⟩ := h
      rw [hquiet m] at h
      exact absurd h id
    | several m _ _ h => exact absurd h (hnone m)
    | last m h => exact absurd h (hnone m)
    | finished found _ hfound ha =>
      rw [hrow] at hfound
      cases hfound
      exact ha
  · have hnil : s.itemsSeen .closed r = [] := by
      refine List.eq_nil_iff_forall_not_mem.mpr ?_
      intro item hitem
      obtain ⟨i, hseen, hrun⟩ := mem_itemsSeen hitem
      exact hr ⟨i, item, hseen, hrun⟩
    rw [hnil]
    exact ((hC.begun r row hrow).empty hpublished).resolve_left hr

theorem all_closed (hs : Reachable (system maxAttempts) s)
    (h : ∀ n < s.started, s.txs n = .closed) : ∀ n, s.txs n = .closed := by
  intro n
  by_cases hn : n < s.started
  · exact h n hn
  · exact (reachable_inv hs).closed n (Nat.not_lt.mp hn)

/-- Two groups are reconciled, and the worker of the first one is gone when its lease expires. -/
def reconciling : List Event :=
  [.createRun "session" .full 0, .opening (.claimRun 0), .tx 0 .probe, .tx 0 (.updateRun 0),
    .tx 0 .commit, .opening (.readDiscovery "session" ⟨0, 1, 1⟩ 0), .tx 1 .lockRun,
    .tx 1 (.publish 2 ["a", "b"]), .tx 1 .commit, .opening (.peekItem 2), .tx 2 .lockItem,
    .tx 2 (.claimItem 0), .tx 2 .commit, .tick 120001, .opening (.peekItem 3), .tx 3 .lockItem,
    .tx 3 (.claimItem 120001), .tx 3 .commit, .opening (.recoverItems 120001),
    .tx 4 (.recoverItem 2), .tx 4 .recovered,
    .opening (.completeItem ⟨3, 0, "session", "b", 1, 5, 1⟩ 120001 5), .tx 5 .aggregate]

/-- The recovery of the first group takes its snapshot after the second one is committed. -/
def inTurn : List Event :=
  reconciling ++ [.tx 5 .writeParent, .tx 5 .commit, .tx 4 .aggregate, .tx 4 .writeParent,
    .tx 4 .commit]

theorem in_turn_completes_run :
    ∃ row, (runTrace (system 1) initial inTurn).runs 0 = some row ∧
      Accurate ((runTrace (system 1) initial inTurn).itemsSeen .closed 0) row := by
  have hvalid : ValidTrace (restrict (system 1) InOrder) initial inTurn := by decide +kernel
  have hreach : Reachable (restrict (system 1) InOrder) (runTrace (system 1) initial inTurn) :=
    ⟨_, valid_trace_restricted_run rfl hvalid⟩
  have hquiet : ∀ n, (runTrace (system 1) initial inTurn).txs n = .closed :=
    all_closed hreach.unrestrict (by decide +kernel)
  refine ⟨_, rfl, ?_⟩
  exact finished_items_complete_run hreach hquiet rfl (by decide +kernel) (by decide +kernel)

/-- Both take their snapshots before either commits. -/
def overlapped : List Event :=
  reconciling ++ [.tx 4 .aggregate, .tx 5 .writeParent, .tx 5 .commit, .tx 4 .writeParent,
    .tx 4 .commit]

theorem overlapping_refreshes_lose_completion :
    ∃ s row, Reachable (system 1) s ∧ (∀ n, s.txs n = .closed) ∧ s.runs 0 = some row ∧
      row.run.phase ≠ .discovering ∧ (∀ item ∈ s.itemsSeen .closed 0, item.Terminal) ∧
      row.run.status = .running ∧ ¬ Accurate (s.itemsSeen .closed 0) row := by
  have hvalid : ValidTrace (system 1) initial overlapped := by decide +kernel
  have hreach : Reachable (system 1) (runTrace (system 1) initial overlapped) :=
    ⟨_, valid_trace_run rfl hvalid⟩
  have hquiet : ∀ n, (runTrace (system 1) initial overlapped).txs n = .closed :=
    all_closed hreach (by decide +kernel)
  refine ⟨_, _, hreach, hquiet, rfl, by decide +kernel, by decide +kernel, by decide +kernel, ?_⟩
  rintro ⟨hstatus, _⟩
  exact absurd hstatus (by decide +kernel)

end Completion

end GatewaySyncCompletion
