import WaRuntime.GatewaySyncFences

/-! What each statement of a sync transaction leads to: the rows it has locked by then, and what it
may rely on from there. -/
namespace GatewaySyncStages

open TransitionRuns GatewaySyncTransactions GatewaySyncFences
open GatewaySyncItemStatements (SyncItemRow)
open GatewayDiscovery (SessionId GroupId RunId SyncWriteFence)

variable {maxAttempts now : ℕ} {s : State} {k : Tx} {n : ℕ} {r : RunId} {i : ItemId}

theorem lookup_of_mem {α β : Type*} [BEq α] [LawfulBEq α] {l : List (α × β)} {a : α} {b : β}
    (hl : (l.map Prod.fst).Nodup) (h : (a, b) ∈ l) : l.lookup a = some b := by
  induction l with
  | nil => cases h
  | cons p l ih =>
    obtain ⟨c, d⟩ := p
    simp only [List.map_cons, List.nodup_cons] at hl
    obtain heq | hmem := List.mem_cons.mp h
    · cases heq
      exact List.lookup_cons_self
    · have hne : a ≠ c := by
        rintro rfl
        exact hl.1 (List.mem_map.mpr ⟨(a, b), hmem, rfl⟩)
      rw [List.lookup_cons, beq_eq_false_iff_ne.mpr hne]
      exact ih hl.2 hmem

/-- Ids that no transaction has seen before. -/
def Fresh (s : State) : Resource → Prop
  | .item i => s.drawn ≤ i
  | _ => False

theorem startItem_some {claim : ClaimedGatewaySyncItem} {f : SyncItemRow → Option SyncItemRow}
    {next : SyncItemRow → Tx} (h : startItem s claim now f next = some k) :
    ∃ item new, s.items claim.id = some item ∧ f item = some new ∧ claim ∈ s.itemClaims ∧
      s.Free s.started (.item claim.id) ∧ k = next new := by
  unfold startItem at h
  split at h
  · rename_i new hnew
    obtain ⟨item, hitem, hf⟩ := Option.bind_eq_some_iff.mp hnew
    obtain ⟨⟨hclaim, _, hfree⟩, rfl⟩ := guarded_eq_some.mp h
    exact ⟨item, new, hitem, hf, hclaim, hfree, rfl⟩
  · cases h

theorem item_known (hI : Inv s) {item : SyncItemRow} (h : s.items i = some item) : i < s.drawn :=
  hI.inserted i (hI.rows.inserted i item h).1

theorem none_locked {P : Resource → Prop} {l : List Resource} (h : l = []) : ∀ r ∈ l, P r := by
  intro r hr
  rw [h] at hr
  cases hr

/-- What a transaction stands on after its first statement, and what it has locked. -/
structure Opened (s : State) (k : Tx) : Prop where
  holds : Holds s k
  locks : ∀ r ∈ k.locks, s.Free s.started r ∧ Known s r
  shares : ∀ r ∈ k.shares, s.Sharable s.started r ∧ Known s r

/-- A transaction that begins with an UPDATE of its item. -/
theorem startItem_opened (hI : Inv s) {claim : ClaimedGatewaySyncItem}
    {f : SyncItemRow → Option SyncItemRow} (next : SyncItemRow → Tx) (hf : WritesItem f)
    (hlocks : ∀ new, (next new).locks = [.item claim.id])
    (hshares : ∀ new, (next new).shares = [])
    (hnext : ∀ new, claim ∈ s.itemClaims → Written s claim.id new → Holds s (next new))
    (h : startItem s claim now f next = some k) : Opened s k := by
  obtain ⟨item, new, hitem, hnew, hclaim, hfree, rfl⟩ := startItem_some h
  have hwritten : Written s claim.id new := ⟨item, hitem, hf item new hnew⟩
  refine ⟨hnext new hclaim hwritten, ?_, ?_⟩
  · intro r hr
    rw [hlocks, List.mem_singleton] at hr
    rw [hr]
    exact ⟨hfree, item_known hI hitem⟩
  · intro r hr
    rw [hshares] at hr
    cases hr

theorem settled_holds {claim : ClaimedGatewaySyncItem} {new : SyncItemRow}
    (hclaim : claim ∈ s.itemClaims) (hw : Written s claim.id new) :
    Holds s (settled claim now new) := by
  refine ⟨?_, ?_, ?_, ?_⟩
  · intro i row hl
    obtain ⟨rfl, rfl⟩ := Prod.mk.inj (List.mem_singleton.mp (lookup_mem hl))
    exact hw
  · rintro c ⟨⟩
    exact ⟨hclaim, by simp⟩
  · intro r hr
    rw [List.mem_singleton] at hr
    exact ⟨claim.id, new, by simp, hr.symm⟩
  · intro r row hl
    cases hl

theorem opened_stage (hI : Inv s) {first : Opening} (h : opened maxAttempts s first = some k) :
    Opened s k := by
  cases first with
  | claimRun id =>
    simp only [opened] at h
    split at h
    · rename_i row hrow
      obtain ⟨hfree, rfl⟩ := guarded_eq_some.mp h
      refine ⟨⟨rfl, (hI.rows.known id row hrow).1, ?_⟩, ?_, ?_⟩
      · intro other hother
        rw [hrow] at hother
        cases hother
        rfl
      · intro r hr
        rw [List.mem_singleton.mp hr]
        exact ⟨hfree, trivial⟩
      · intro r hr
        cases hr
    · cases h
  | assertFence table sessionId fence =>
    obtain ⟨⟨hfence, hshare⟩, rfl⟩ := guarded_eq_some.mp h
    refine ⟨hfence, none_locked rfl, ?_⟩
    intro r hr
    rw [List.mem_singleton.mp hr]
    exact ⟨hshare, trivial⟩
  | readDiscovery sessionId fence now =>
    obtain ⟨_, rfl⟩ := guarded_eq_some.mp h
    exact ⟨trivial, none_locked rfl, none_locked rfl⟩
  | assertItem claim now =>
    simp only [opened] at h
    split at h
    · rename_i item row hitem hrow
      obtain ⟨⟨_, hfenced, hfence, hshares⟩, rfl⟩ := guarded_eq_some.mp h
      refine ⟨⟨hfence, item, hitem, hfenced.1⟩, none_locked rfl, ?_⟩
      intro r hr
      simp only [Tx.shares, List.mem_cons, List.not_mem_nil, or_false] at hr
      obtain rfl | rfl | rfl := hr
      · exact ⟨hshares.1, item_known hI hitem⟩
      · exact ⟨hshares.2.1, (hI.rows.known _ row hrow).1⟩
      · exact ⟨hshares.2.2, trivial⟩
    · cases h
  | peekItem id =>
    simp only [opened] at h
    split at h
    · rename_i item hitem
      split at h
      · rename_i row hrow
        split at h
        · rename_i epoch hepoch
          obtain ⟨_, rfl⟩ := guarded_eq_some.mp h
          refine ⟨⟨(hI.rows.inserted id item hitem).1, (hI.rows.known _ row hrow).1, ?_,
            .inr ⟨⟨id, item, hitem, rfl⟩, row, hrow, rfl, hepoch⟩⟩, none_locked rfl,
            none_locked rfl⟩
          intro other hother
          rw [hitem] at hother
          cases hother
          rfl
        · cases h
      · cases h
    · cases h
  | renewItem claim now =>
    exact startItem_opened hI (.renewed claim) renewLease_writes (fun _ => rfl)
      (fun _ => rfl) (fun new hclaim hw => ⟨hclaim, hw⟩) h
  | completeItem claim now members =>
    exact startItem_opened hI (settled claim now) complete_writes (fun _ => rfl) (fun _ => rfl)
      (fun new hclaim hw => settled_holds hclaim hw) h
  | skipItem claim now error =>
    exact startItem_opened hI (settled claim now) skip_writes (fun _ => rfl) (fun _ => rfl)
      (fun new hclaim hw => settled_holds hclaim hw) h
  | failItem claim now random error retryable =>
    exact startItem_opened hI (settled claim now) fail_writes (fun _ => rfl) (fun _ => rfl)
      (fun new hclaim hw => settled_holds hclaim hw) h
  | recoverItems now =>
    obtain ⟨_, rfl⟩ := guarded_eq_some.mp h
    refine ⟨⟨List.nodup_nil, ?_⟩, none_locked rfl, none_locked rfl⟩
    intro i new hl
    cases hl

/-- What a further statement of a transaction leads to; `d` is the number of ids drawn then. -/
structure Moved (s : State) (n d : ℕ) (k : Tx) : Prop where
  holds : Holds { s with drawn := d } k
  locks : ∀ r ∈ k.locks, r ∈ (s.txs n).locks ∨ s.Free n r ∧ Known s r ∨
    Fresh s r ∧ Known { s with drawn := d } r
  shares : ∀ r ∈ k.shares, r ∈ (s.txs n).shares ∨ s.Sharable n r ∧ Known s r

theorem claimed_moved (hI : Inv s) {id : RunId} {sessionId : SessionId} {epoch : ℕ}
    {running : Bool} {row new : RunRow} (hk : s.txs n = .probed id sessionId epoch running)
    (hrow : s.runs id = some row) (hnew : claim now s.drawn (epoch + 1) row = some new)
    (hfree : s.Free n (.run id)) :
    Moved s n (s.drawn + 1)
      (.claimed ⟨id, sessionId, s.drawn, new.run.attemptCount, epoch + 1⟩ new) := by
  have hholds := hI.holds n
  rw [hk] at hholds
  obtain ⟨hfence, _, hsession⟩ := hholds
  refine ⟨⟨Nat.lt_succ_self _, ?_, ?_, row, now, hrow, hsession row hrow, hnew⟩, ?_,
    none_locked rfl⟩
  · intro other hother _ heq
    have := (hI.rows.claimed other hother).1
    simp only at heq
    omega
  · rw [← hfence]
  · intro r hr
    simp only [Tx.locks, List.mem_cons, List.not_mem_nil, or_false] at hr
    obtain rfl | rfl := hr
    · exact .inl (by simp [hk, Tx.locks])
    · exact .inr (.inl ⟨hfree, (hI.rows.known id row hrow).1⟩)

theorem insertedItems_spec {drawn : ℕ} {present groups : List GroupId}
    {p : ItemId × SyncItemRow} (h : p ∈ insertedItems now r drawn present groups) :
    (drawn ≤ p.1 ∧ p.1 < drawn + (insertedItems now r drawn present groups).length) ∧
      p.2.syncRunId = r ∧ p.2.status = .pending := by
  obtain ⟨⟨group, id⟩, hmem, rfl⟩ := List.mem_map.mp h
  refine ⟨⟨List.le_snd_of_mem_zipIdx hmem, ?_⟩, rfl, rfl⟩
  have hlt := List.snd_lt_add_of_mem_zipIdx hmem
  simpa [insertedItems] using hlt

theorem published_moved (hI : Inv s) {sessionId : SessionId} {fence : SyncWriteFence}
    {row new : RunRow} {items : List (ItemId × SyncItemRow)}
    (hk : s.txs n = .discovering sessionId fence now) (hrow : s.runs fence.syncRunId = some row)
    (hnew : (new = deferred now row ∧ items = []) ∨ ∃ discovered scheduled,
      new = published now discovered scheduled row ∧ (scheduled = 0 → items = []) ∧
      ∀ p ∈ items, p.2.syncRunId = fence.syncRunId ∧ p.2.status = .pending)
    (hids : ∀ p ∈ items, s.drawn ≤ p.1 ∧ p.1 < s.drawn + items.length) :
    Moved s n (s.drawn + items.length) (.published sessionId fence new items) := by
  have hholds := hI.holds n
  rw [hk] at hholds
  obtain ⟨found, hfound, hfenced⟩ := hholds
  rw [hrow] at hfound
  cases hfound
  refine ⟨⟨⟨row, now, hrow, hfenced, hnew⟩, ?_⟩, ?_, none_locked rfl⟩
  · intro p hp
    refine ⟨(hids p hp).2, ?_⟩
    intro hmem
    exact absurd (hI.inserted p.1 hmem) (Nat.not_lt.mpr (hids p hp).1)
  · intro r hr
    simp only [Tx.locks, Tx.runWrites, Tx.itemWrites, List.map_cons, List.map_nil,
      List.singleton_append, List.mem_cons, List.mem_map] at hr
    obtain rfl | ⟨p, hp, rfl⟩ := hr
    · exact .inl (by simp [hk, Tx.locks])
    · exact .inr (.inr ⟨(hids p hp).1, (hids p hp).2⟩)

/-- With nothing remaining in the aggregate, the snapshot saw every item of the run finished. -/
theorem aggregate_finished (hR : Rows s) {items : List (ItemId × SyncItemRow)}
    (hi : k.itemWrites = items) (hw : ∀ i new, items.lookup i = some new → Written s i new)
    (hzero : (aggregate (s.itemsSeen k r)).remaining = 0) : Finished s items r := by
  intro i item hitem hrun
  have hseen : ∀ row, (items.lookup i).or (some item) = some row → row.syncRunId = r →
      row ∈ s.itemsSeen k r := by
    intro row hrow heq
    simp only [State.itemsSeen, List.mem_filter, List.mem_filterMap, decide_eq_true_eq]
    exact ⟨⟨i, (hR.inserted i item hitem).1, by rw [hi, hitem, hrow]⟩, heq⟩
  have hterminal : ∀ row ∈ s.itemsSeen k r, row.Terminal := by
    intro row hrow
    simp only [aggregate, List.countP_eq_zero] at hzero
    have := hzero row hrow
    unfold SyncItemRow.Terminal
    cases hs : row.status <;> simp [hs] at this ⊢
  cases hl : items.lookup i with
  | some new =>
    obtain ⟨old, hold, _, heq⟩ := hw i new hl
    rw [hitem] at hold
    cases hold
    exact hterminal new (hseen new (by simp [hl]) (heq.trans hrun))
  | none => exact hterminal item (hseen item (by simp [hl]) hrun)

theorem recovered_writes {items : List (ItemId × SyncItemRow)} (hn : (items.map Prod.fst).Nodup)
    (h : r ∈ (items.map fun p => p.2.syncRunId).dedup) : Writes items r := by
  obtain ⟨⟨i, new⟩, hp, rfl⟩ := List.mem_map.mp (List.mem_dedup.mp h)
  exact ⟨i, new, lookup_of_mem hn hp, rfl⟩

theorem recoverItem_holds {items : List (ItemId × SyncItemRow)} {item new : SyncItemRow}
    (h : Holds s (.recovering now items)) (hi : i ∉ items.map Prod.fst)
    (hitem : s.items i = some item) (hnew : ¬ item.Terminal ∧ new.syncRunId = item.syncRunId) :
    Holds s (.recovering now (items ++ [(i, new)])) := by
  refine ⟨?_, ?_⟩
  · simp only [List.map_append, List.map_cons, List.map_nil]
    exact List.nodup_append.mpr ⟨h.1, List.nodup_singleton i, by
      intro a ha b hb
      rw [List.mem_singleton.mp hb]
      rintro rfl
      exact hi ha⟩
  · intro j row hl
    rw [List.lookup_append] at hl
    cases hj : items.lookup j with
    | some old =>
      rw [hj] at hl
      cases hl
      exact h.2 j row hj
    | none =>
      rw [hj] at hl
      obtain ⟨rfl, rfl⟩ := Prod.mk.inj (List.mem_singleton.mp (lookup_mem hl))
      exact ⟨item, hitem, hnew⟩

theorem holds_draw {d : ℕ} (hd : s.drawn ≤ d) (h : Holds s k) : Holds { s with drawn := d } k :=
  holds_advance (Advance.later hd) (fun r _ => by cases r <;> rfl) h

/-- A statement that takes no new lock, or takes one on rows that nobody else has locked. -/
theorem Moved.of (hd : draws k = 0) (hholds : Holds s k)
    (hlocks : ∀ r ∈ k.locks, r ∈ (s.txs n).locks ∨ s.Free n r ∧ Known s r)
    (hshares : ∀ r ∈ k.shares, r ∈ (s.txs n).shares ∨ s.Sharable n r ∧ Known s r) :
    Moved s n (s.drawn + draws k) k := by
  rw [hd]
  exact ⟨hholds, fun r hr => (hlocks r hr).imp_right .inl, hshares⟩

theorem txNext_stage (hI : Inv s) {event : TxEvent}
    (h : txNext maxAttempts s n (s.txs n) event = some k) :
    Moved s n (s.drawn + draws k) k := by
  have hholds := hI.holds n
  generalize hk : s.txs n = before at h hholds
  unfold txNext at h
  split at h
  · cases h
    exact .of rfl hholds (fun r hr => .inl (by rw [hk]; exact hr)) (none_locked rfl)
  · split at h
    · rename_i new hnew
      obtain ⟨row, hrow, hclaim⟩ := Option.bind_eq_some_iff.mp hnew
      obtain ⟨⟨_, _, hfree⟩, rfl⟩ := guarded_eq_some.mp h
      exact claimed_moved hI hk hrow hclaim hfree
    · cases h
  · rename_i table sessionId fence now
    split at h
    · rename_i row hrow
      obtain ⟨⟨_, _, hshare⟩, rfl⟩ := guarded_eq_some.mp h
      refine .of rfl hholds (none_locked rfl) ?_
      intro r hr
      simp only [Tx.shares, List.mem_cons, List.not_mem_nil, or_false] at hr
      obtain rfl | rfl := hr
      · exact .inl (by simp [hk, Tx.shares])
      · exact .inr ⟨hshare, (hI.rows.known _ row hrow).1⟩
    · cases h
  · rename_i sessionId fence now
    split at h
    · rename_i row hrow
      obtain ⟨⟨hfenced, hfree⟩, rfl⟩ := guarded_eq_some.mp h
      refine .of rfl ⟨row, hrow, hfenced⟩ ?_ (none_locked rfl)
      intro r hr
      rw [List.mem_singleton.mp hr]
      exact .inr ⟨hfree, (hI.rows.known _ row hrow).1⟩
    · cases h
  · rename_i sessionId fence now discovered groups
    obtain ⟨row, hrow, rfl⟩ := Option.map_eq_some_iff.mp h
    refine published_moved hI hk hrow (.inr ⟨discovered, groups.length, rfl, ?_, ?_⟩) ?_
    · intro hz
      rw [List.length_eq_zero_iff.mp hz]
      rfl
    · exact fun p hp => (insertedItems_spec hp).2
    · exact fun p hp => (insertedItems_spec hp).1
  · obtain ⟨row, hrow, rfl⟩ := Option.map_eq_some_iff.mp h
    refine published_moved hI hk hrow (.inl ⟨rfl, rfl⟩) ?_
    intro p hp
    cases hp
  · rename_i claim time
    split at h
    · rename_i new hnew
      obtain ⟨item, hitem, hf⟩ := Option.bind_eq_some_iff.mp hnew
      obtain ⟨⟨_, hfree⟩, rfl⟩ := guarded_eq_some.mp h
      refine .of rfl ⟨hholds.1, item, hitem, renewAfterWrite_writes item new hf⟩ ?_ ?_
      · intro r hr
        rw [List.mem_singleton.mp hr]
        exact .inr ⟨hfree, item_known hI hitem⟩
      · exact fun r hr => .inl (by rw [hk]; exact hr)
    · cases h
  · rename_i id run sessionId epoch
    obtain ⟨⟨hsome, hfree⟩, rfl⟩ := guarded_eq_some.mp h
    obtain ⟨item, hitem⟩ := Option.isSome_iff_exists.mp hsome
    refine .of rfl hholds ?_ (none_locked rfl)
    intro r hr
    rw [List.mem_singleton.mp hr]
    exact .inr ⟨hfree, item_known hI hitem⟩
  · rename_i id run sessionId epoch now
    split at h
    · rename_i new hnew
      obtain ⟨item, hitem, hf⟩ := Option.bind_eq_some_iff.mp hnew
      obtain ⟨_, rfl⟩ := guarded_eq_some.mp h
      refine ⟨holds_draw (Nat.le_add_right _ _) ⟨hholds, item, hitem, claim_writes item new hf⟩, ?_,
        none_locked rfl⟩
      intro r hr
      rw [List.mem_singleton.mp hr]
      exact .inl (by simp [hk, Tx.locks])
    · cases h
  · rename_i now items id
    split at h
    · rename_i new hnew
      obtain ⟨item, hitem, hf⟩ := Option.bind_eq_some_iff.mp hnew
      obtain ⟨⟨hid, hfree⟩, rfl⟩ := guarded_eq_some.mp h
      refine .of rfl (recoverItem_holds hholds hid hitem (recoverExpired_writes item new hf)) ?_
        (none_locked rfl)
      intro r hr
      simp only [Tx.locks, Tx.runWrites, Tx.itemWrites, List.map_nil, List.nil_append,
        List.map_append, List.map_cons, List.mem_append, List.mem_singleton] at hr
      obtain hr | rfl := hr
      · exact .inl (by rw [hk]; exact hr)
      · exact .inr ⟨hfree, item_known hI hitem⟩
    · cases h
  · cases h
    refine .of rfl ⟨hholds.2, ?_, fun r hr => recovered_writes hholds.1 hr, ?_⟩ ?_
      (none_locked rfl)
    · intro c hc
      cases hc
    · intro r new hl
      cases hl
    · exact fun r hr => .inl (by rw [hk]; exact hr)
  · rename_i now claim items run waiting done
    cases h
    obtain ⟨hw, hclaim, hwaiting, hdone⟩ := hholds
    refine .of rfl ⟨hw, hclaim, hwaiting, hdone, fun hz => ?_⟩
      (fun r hr => .inl (by rw [hk]; exact hr)) (none_locked rfl)
    exact aggregate_finished hI.rows rfl hw hz
  · rename_i now claim items run aggregate waiting done
    obtain ⟨hw, hclaim, hwaiting, hdone, hfinished⟩ := hholds
    have hwaiting' : ∀ r ∈ waiting, Writes items r :=
      fun r hr => hwaiting r (List.mem_cons_of_mem run hr)
    split at h
    · rename_i row hrow
      obtain ⟨hfree, rfl⟩ := guarded_eq_some.mp h
      refine .of rfl ⟨hw, hclaim, hwaiting', ?_⟩ ?_ (none_locked rfl)
      · intro r new hl
        rw [List.lookup_cons] at hl
        split at hl
        · rename_i heq
          cases hl
          obtain rfl := beq_iff_eq.mp heq
          exact ⟨row, now, aggregate, hrow, rfl, hwaiting _ List.mem_cons_self, hfinished⟩
        · exact hdone r new hl
      · intro r hr
        simp only [Tx.locks, Tx.runWrites, Tx.itemWrites, List.map_cons, List.cons_append,
          List.mem_cons] at hr
        obtain rfl | hr := hr
        · exact .inr ⟨hfree, (hI.rows.known run row hrow).1⟩
        · exact .inl (by rw [hk]; exact hr)
    · cases h
      exact .of rfl ⟨hw, hclaim, hwaiting', hdone⟩ (fun r hr => .inl (by rw [hk]; exact hr))
        (none_locked rfl)
  · cases h

end GatewaySyncStages
