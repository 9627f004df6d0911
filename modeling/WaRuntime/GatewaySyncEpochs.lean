import WaRuntime.GatewaySyncCommits

/-! Epoch fencing: whatever an attempt commits, it commits while its epoch is the one of the fence,
and each claim of the session moves the fence on. -/
namespace GatewaySyncEpochs

open TransitionRuns GatewaySyncTransactions GatewaySyncFences GatewaySyncStages GatewaySyncCommits
open GatewaySyncItemStatements (SyncItemRow)
open GatewayDiscovery (SessionId RunId GatewaySyncMode RunOwned)

variable {maxAttempts now : ℕ} {s u : State} {e : Event} {k : Tx} {n : ℕ} {i : ItemId} {r : RunId}

section Steps

theorem known_mono {x : Resource} (hd : s.drawn ≤ u.drawn) (h : Known s x) : Known u x := by
  cases x with
  | fence => trivial
  | run => exact Nat.lt_of_lt_of_le h hd
  | item => exact Nat.lt_of_lt_of_le h hd

theorem known_not_fresh {x : Resource} (h : Known s x) : ¬ Fresh s x := by
  cases x with
  | fence => exact id
  | run => exact id
  | item => exact Nat.not_le.mpr h

theorem free_unlocked (hI : Inv s) {m : ℕ} {x : Resource} (hm : m ≠ n) (h : s.Free n x) :
    x ∉ (s.txs m).locks ∧ x ∉ (s.txs m).shares := by
  by_cases hlt : m < s.started
  · exact h m hlt hm
  · rw [hI.closed m (Nat.not_lt.mp hlt)]
    exact ⟨List.not_mem_nil, List.not_mem_nil⟩

theorem sharable_unlocked (hI : Inv s) {m : ℕ} {x : Resource} (hm : m ≠ n) (h : s.Sharable n x) :
    x ∉ (s.txs m).locks := by
  by_cases hlt : m < s.started
  · exact h m hlt hm
  · rw [hI.closed m (Nat.not_lt.mp hlt)]
    exact List.not_mem_nil

/-- What `n` has just locked, nobody else has. -/
theorem moved_exclusive (hI : Inv s) {m d : ℕ} {x : Resource} (hm : m ≠ n) (h : Moved s n d k)
    (hx : x ∈ k.locks) : x ∉ (s.txs m).locks ∧ x ∉ (s.txs m).shares := by
  obtain hold | ⟨hfree, _⟩ | ⟨hfresh, _⟩ := h.locks x hx
  · exact hI.exclusive n m x hm.symm hold
  · exact free_unlocked hI hm hfree
  · refine ⟨fun hl => ?_, fun hs => ?_⟩
    · exact known_not_fresh (hI.known m x (List.mem_append_left _ hl)) hfresh
    · exact known_not_fresh (hI.known m x (List.mem_append_right _ hs)) hfresh

theorem inv_stage (hI : Inv s) {d t : ℕ} (hd : s.drawn ≤ d) (ht : s.started ≤ t) (hn : n < t)
    (h : Moved s n d k) :
    Inv { s with drawn := d, started := t, txs := Function.update s.txs n k } where
  closed := by
    intro m hm
    have hne : m ≠ n := Nat.ne_of_gt (Nat.lt_of_lt_of_le hn hm)
    simp only [Function.update_of_ne hne]
    exact hI.closed m (Nat.le_trans ht hm)
  exclusive := by
    intro m p x hmp hx
    by_cases hm : m = n
    · subst hm
      simp only [Function.update_self] at hx
      simp only [Function.update_of_ne hmp.symm]
      exact moved_exclusive hI hmp.symm h hx
    · simp only [Function.update_of_ne hm] at hx
      by_cases hp : p = n
      · subst hp
        simp only [Function.update_self]
        refine ⟨fun hl => (moved_exclusive hI hm h hl).1 hx, fun hs => ?_⟩
        obtain hold | ⟨hshare, _⟩ := h.shares x hs
        · exact (hI.exclusive m p x hm hx).2 hold
        · exact sharable_unlocked hI hm hshare hx
      · simp only [Function.update_of_ne hp]
        exact hI.exclusive m p x hmp hx
  known := by
    intro m x hx
    by_cases hm : m = n
    · subst hm
      simp only [Function.update_self] at hx
      obtain hl | hs := List.mem_append.mp hx
      · obtain hold | ⟨_, hknown⟩ | ⟨_, hknown⟩ := h.locks x hl
        · exact known_mono hd (hI.known m x (List.mem_append_left _ hold))
        · exact known_mono hd hknown
        · cases x <;> exact hknown
      · obtain hold | ⟨_, hknown⟩ := h.shares x hs
        · exact known_mono hd (hI.known m x (List.mem_append_right _ hold))
        · exact known_mono hd hknown
    · simp only [Function.update_of_ne hm] at hx
      exact known_mono hd (hI.known m x hx)
  inserted i hi := Nat.lt_of_lt_of_le (hI.inserted i hi) hd
  rows := hI.rows.later hd
  holds := by
    intro m
    by_cases hm : m = n
    · subst hm
      simp only [Function.update_self]
      exact holds_advance (Advance.later (s := { s with drawn := d }) (Nat.le_refl d))
        (fun x _ => by cases x <;> rfl) h.holds
    · simp only [Function.update_of_ne hm]
      exact holds_advance (Advance.later hd) (fun x _ => by cases x <;> rfl) (hI.holds m)

/-- A step that changes committed rows, of which no transaction that stays open has locked any. -/
theorem inv_change (hI : Inv s) {v : State} (hR : Rows v) (hA : Advance s v)
    (hins : ∀ i ∈ v.itemIds, i < v.drawn) (hst : v.started = s.started)
    (htxs : ∀ m, v.txs m = .closed ∨ v.txs m = s.txs m ∧
      ∀ x ∈ (s.txs m).locks ++ (s.txs m).shares, Same s v x) : Inv v where
  closed := by
    intro m hm
    obtain h | ⟨h, _⟩ := htxs m
    · exact h
    · rw [h]
      exact hI.closed m (hst ▸ hm)
  exclusive := by
    intro m p x hmp hx
    obtain h | ⟨h, _⟩ := htxs m
    · rw [h] at hx
      cases hx
    · rw [h] at hx
      obtain h' | ⟨h', _⟩ := htxs p
      · rw [h']
        exact ⟨List.not_mem_nil, List.not_mem_nil⟩
      · rw [h']
        exact hI.exclusive m p x hmp hx
  known := by
    intro m x hx
    obtain h | ⟨h, _⟩ := htxs m
    · rw [h] at hx
      cases hx
    · rw [h] at hx
      exact known_mono hA.drawn (hI.known m x hx)
  inserted := hins
  rows := hR
  holds := by
    intro m
    obtain h | ⟨h, hsame⟩ := htxs m
    · rw [h]
      trivial
    · rw [h]
      exact holds_advance hA hsame (hI.holds m)

/-- A commit changes only rows that its transaction has locked. -/
theorem committed_same {x : Resource} (hx : x ∉ k.locks) : Same s (committed s k) x := by
  cases x with
  | fence sessionId =>
    cases k with
    | claimed claim row =>
      have hne : sessionId ≠ claim.sessionId := by
        rintro rfl
        exact hx (by simp [Tx.locks])
      exact Function.update_of_ne hne _ _
    | _ => rfl
  | run r =>
    show (k.runWrites.lookup r).or (s.runs r) = s.runs r
    cases hl : k.runWrites.lookup r with
    | some row => exact absurd (run_locked (lookup_mem hl)) hx
    | none => rfl
  | item i =>
    show (k.itemWrites.lookup i).or (s.items i) = s.items i
    cases hl : k.itemWrites.lookup i with
    | some row => exact absurd (item_locked (lookup_mem hl)) hx
    | none => rfl

theorem inv_commit (hI : Inv s) (hk : (s.txs n).Done) :
    Inv { committed s (s.txs n) with txs := Function.update s.txs n .closed } := by
  obtain ⟨hR, hA⟩ := committed_rows hI.rows hk (hI.holds n)
  refine inv_change hI (hR.later (Nat.le_refl _)) ⟨hA.drawn, hA.inserted, hA.insertedOnly, hA.item,
    hA.gone, hA.session, hA.settled, hA.runClaims, hA.itemClaims⟩ ?_ rfl ?_
  · intro i hi
    cases hc : s.txs n with
    | published sessionId fence row items =>
      rw [hc] at hi
      obtain hi | hi := List.mem_append.mp hi
      · exact hI.inserted i hi
      · obtain ⟨p, hp, rfl⟩ := List.mem_map.mp hi
        have hholds := hI.holds n
        rw [hc] at hholds
        exact (hholds.2 p hp).1
    | _ =>
      rw [hc] at hi
      exact hI.inserted i hi
  · intro m
    by_cases hm : m = n
    · exact .inl (by simp [hm])
    · refine .inr ⟨by simp [hm], ?_⟩
      intro x hx
      have hfree : x ∉ (s.txs n).locks := by
        intro hl
        obtain h | h := List.mem_append.mp hx
        · exact (hI.exclusive n m x (Ne.symm hm) hl).1 h
        · exact (hI.exclusive n m x (Ne.symm hm) hl).2 h
      have hsame := committed_same (s := s) hfree
      cases x <;> exact hsame

theorem updateRun_some {f : RunRow → Option RunRow} (h : updateRun s r now f = some u) :
    ∃ row new, s.runs r = some row ∧ f row = some new ∧ s.Free s.started (.run r) ∧
      u = { s with runs := Function.update s.runs r (some new) } := by
  unfold updateRun at h
  split at h
  · rename_i new hnew
    obtain ⟨row, hrow, hf⟩ := Option.bind_eq_some_iff.mp hnew
    obtain ⟨⟨_, hfree⟩, rfl⟩ := guarded_eq_some.mp h
    exact ⟨row, new, hrow, hf, hfree, rfl⟩
  · cases h

theorem inv_leased (hI : Inv s) {f : RunRow → Option RunRow}
    (hf : ∀ row new, f row = some new → Leased row new) (h : updateRun s r now f = some u) :
    Inv u := by
  obtain ⟨row, new, hrow, hnew, hfree, rfl⟩ := updateRun_some h
  obtain ⟨hR, hA⟩ := leased_rows hI.rows hrow (hf row new hnew)
  refine inv_change hI hR hA hI.inserted rfl ?_
  intro m
  refine .inr ⟨rfl, ?_⟩
  intro x hx
  cases x with
  | run q =>
    refine Function.update_of_ne ?_ _ _
    rintro rfl
    by_cases hm : m = s.started
    · rw [hm, hI.closed _ (Nat.le_refl _)] at hx
      cases hx
    · obtain hl | hs := List.mem_append.mp hx
      · exact (free_unlocked hI hm hfree).1 hl
      · exact (free_unlocked hI hm hfree).2 hs
  | _ => rfl

theorem inv_created (hI : Inv s) {sessionId : SessionId} {mode : GatewaySyncMode}
    (hn : s.hasStatus sessionId [.pending, .running] = false) :
    Inv { s with
      drawn := s.drawn + 1
      runs := Function.update s.runs s.drawn (some (newRun now sessionId mode))
      runIds := s.drawn :: s.runIds } := by
  obtain ⟨hR, hA⟩ := created_rows hI now mode hn rfl
  refine inv_change hI hR hA (fun i hi => Nat.lt_succ_of_lt (hI.inserted i hi)) rfl ?_
  intro m
  refine .inr ⟨rfl, ?_⟩
  intro x hx
  cases x with
  | run q =>
    refine Function.update_of_ne ?_ _ _
    exact Nat.ne_of_lt (hI.known m _ hx)
  | _ => rfl

theorem inv_deleted (hI : Inv s) {id : RunId} (hfree : s.Free s.started (.run id))
    (hitems : ∀ i ∈ s.itemIds, (s.items i).any (·.syncRunId = id) → s.Free s.started (.item i)) :
    Inv { s with
      runs := Function.update s.runs id none
      items := fun i => (s.items i).filter (·.syncRunId ≠ id) } := by
  obtain ⟨hR, hA⟩ := deleted_rows hI.rows id rfl
  refine inv_change hI hR hA hI.inserted rfl ?_
  intro m
  refine .inr ⟨rfl, ?_⟩
  have hheld : ∀ x ∈ (s.txs m).locks ++ (s.txs m).shares, ¬ s.Free s.started x := by
    intro x hx hf
    by_cases hm : m = s.started
    · rw [hm, hI.closed _ (Nat.le_refl _)] at hx
      cases hx
    · obtain hl | hs := List.mem_append.mp hx
      · exact (free_unlocked hI hm hf).1 hl
      · exact (free_unlocked hI hm hf).2 hs
  intro x hx
  cases x with
  | fence => rfl
  | run q =>
    refine Function.update_of_ne ?_ _ _
    rintro rfl
    exact hheld _ hx hfree
  | item i =>
    show (s.items i).filter (·.syncRunId ≠ id) = s.items i
    cases hi : s.items i with
    | none => rfl
    | some item =>
      by_cases hrun : item.syncRunId = id
      · exact absurd (hitems i (hI.rows.inserted i item hi).1 (by simp [hi, hrun])) (hheld _ hx)
      · simp [Option.filter, hrun]

theorem txNext_closed {event : TxEvent} : txNext maxAttempts s n .closed event = none := by
  cases event <;> rfl

theorem step_inv (hI : Inv s) {e : Event} (h : step maxAttempts s e = some u) : Inv u := by
  have hnext : ∀ n event, (txNext maxAttempts s n (s.txs n) event).map (fun k =>
      { s with drawn := s.drawn + draws k, txs := Function.update s.txs n k }) = some u → Inv u := by
    intro n event h
    obtain ⟨k, hk, rfl⟩ := Option.map_eq_some_iff.mp h
    have hn : n < s.started := by
      by_contra hge
      rw [hI.closed n (Nat.not_lt.mp hge), txNext_closed] at hk
      cases hk
    exact inv_stage hI (Nat.le_add_right _ _) (Nat.le_refl _) hn (txNext_stage hI hk)
  cases e with
  | tick ms =>
    cases h
    exact inv_change hI (hI.rows.later (Nat.le_refl _)) (Advance.later (Nat.le_refl _))
      hI.inserted rfl fun m => .inr ⟨rfl, fun x _ => by cases x <;> rfl⟩
  | createRun sessionId mode now =>
    obtain ⟨⟨_, hn⟩, rfl⟩ := guarded_eq_some.mp h
    exact inv_created hI hn
  | recoverExpiredRun id now => exact inv_leased hI (fun _ _ => recoverExpired_leased) h
  | renewRun claim now =>
    obtain ⟨_, h⟩ := Option.ite_none_right_eq_some.mp h
    exact inv_leased hI (fun _ _ hf => (renew_leased hf).1) h
  | failAttempt claim now groups members error =>
    obtain ⟨_, h⟩ := Option.ite_none_right_eq_some.mp h
    exact inv_leased hI (fun _ _ hf => (failAttempt_leased hf).1) h
  | completeRun claim now groups members =>
    obtain ⟨_, h⟩ := Option.ite_none_right_eq_some.mp h
    exact inv_leased hI (fun _ _ hf => (complete_leased hf).1) h
  | deleteRun id =>
    simp only [step] at h
    split at h
    · obtain ⟨⟨_, hfree, hitems⟩, rfl⟩ := guarded_eq_some.mp h
      exact inv_deleted hI hfree hitems
    · cases h
  | opening first =>
    obtain ⟨k, hk, rfl⟩ := Option.map_eq_some_iff.mp h
    obtain ⟨hholds, hlocks, hshares⟩ := opened_stage hI hk
    exact inv_stage hI (Nat.le_refl _) (Nat.le_succ _) (Nat.lt_succ_self _)
      ⟨hholds, fun x hx => .inr (.inl (hlocks x hx)), fun x hx => .inr (hshares x hx)⟩
  | tx n event =>
    cases event with
    | commit =>
      obtain ⟨hk, rfl⟩ := guarded_eq_some.mp h
      exact inv_commit hI hk
    | abort =>
      obtain ⟨_, rfl⟩ := guarded_eq_some.mp h
      refine inv_change hI (hI.rows.later (Nat.le_refl _)) (Advance.later (Nat.le_refl _))
        hI.inserted rfl ?_
      intro m
      by_cases hm : m = n
      · exact .inl (by simp [hm])
      · exact .inr ⟨by simp [hm], fun x _ => by cases x <;> rfl⟩
    | _ => exact hnext n _ h

theorem initial_inv : Inv initial where
  closed _ _ := rfl
  exclusive m n r _ hr := by cases hr
  known n r hr := by cases hr
  inserted i hi := by cases hi
  rows :=
    { known := fun r row h => by cases h
      active := fun r q row other h => by cases h
      current := fun r row h => by cases h
      leased := fun r row token h => by cases h
      claimed := fun c hc => by cases hc
      inserted := fun i item h => by cases h
      itemClaimed := fun c hc => by cases hc }
  holds _ := trivial

theorem reachable_inv (h : Reachable (system maxAttempts) s) : Inv s := by
  refine reachable_invariant (I := Inv) ?_ ?_ h
  · rintro t rfl
    exact initial_inv
  · exact fun t e hI he => step_inv hI (ofStep_enabled he)

end Steps

/-- The epoch of an unfinished item's run is the one of the fence. -/
theorem attached_current (hR : Rows s) {sessionId : SessionId} {epoch : ℕ} {new : SyncItemRow}
    (ha : Attached s i r sessionId epoch) (hw : Written s i new) : s.fences sessionId = epoch := by
  obtain ⟨item, hitem, hterminal, _⟩ := hw
  obtain ⟨_, row, hrow, _, _, _, hrunning⟩ := hR.inserted i item hitem
  rw [ha.item item hitem] at hrow
  obtain hnone | ⟨_, found, hfound, hsession, hepoch⟩ := ha.run
  · rw [hrow] at hnone
    cases hnone
  · rw [hrow] at hfound
    cases hfound
    have hcurrent := hR.current r row hrow (hrunning hterminal)
    rw [hepoch, hsession] at hcurrent
    exact (Option.some.inj hcurrent).symm

/-- So is the epoch under which a run's worker finds its lease. -/
theorem claimed_current (hR : Rows s) {claim : ClaimedSyncRun} {row : RunRow}
    (hclaim : claim ∈ s.runClaims) (hrow : s.runs claim.id = some row)
    (howned : RunOwned now claim.leaseToken row.run) :
    s.fences claim.sessionId = claim.syncEpoch := by
  obtain ⟨hsession, hepoch⟩ := (hR.claimed claim hclaim).2 row hrow howned.2.1
  have hcurrent := hR.current _ row hrow howned.1
  rw [hepoch, hsession] at hcurrent
  exact (Option.some.inj hcurrent).symm

theorem fenced_current (hR : Rows s) {sessionId : SessionId} {fence : GatewayDiscovery.SyncWriteFence}
    {row : RunRow} (hrow : s.runs fence.syncRunId = some row)
    (h : FencedRun now sessionId fence row) : s.fences sessionId = fence.syncEpoch := by
  obtain ⟨hsession, howned, hepoch⟩ := h
  have hcurrent := hR.current _ row hrow howned.1
  rw [hepoch, hsession] at hcurrent
  exact (Option.some.inj hcurrent).symm

/-- A commit on behalf of an attempt finds the fence at the attempt's epoch. -/
theorem commit_current (hI : Inv s) {n : ℕ} {table : WriteTable} {sessionId : SessionId} {epoch : ℕ}
    (hw : (table, sessionId, epoch) ∈ writes s (.tx n .commit)) : s.fences sessionId = epoch := by
  have hholds := hI.holds n
  simp only [writes] at hw
  split at hw
  · rename_i hk
    rw [hk] at hholds
    cases List.mem_singleton.mp hw
    exact hholds
  · rename_i hk
    rw [hk] at hholds
    obtain ⟨_, _, heq⟩ := List.mem_map.mp hw
    cases heq
    obtain ⟨⟨row, now, hrow, hfenced, _⟩, _⟩ := hholds
    exact fenced_current hI.rows hrow hfenced
  · rename_i hk
    rw [hk] at hholds
    obtain ⟨_, _, heq⟩ := List.mem_map.mp hw
    cases heq
    exact hholds.1
  · rename_i hk
    rw [hk] at hholds
    cases List.mem_singleton.mp hw
    exact attached_current hI.rows hholds.1 hholds.2
  · rename_i hk
    rw [hk] at hholds
    cases List.mem_singleton.mp hw
    exact attached_current hI.rows (hI.rows.itemClaimed _ hholds.1) hholds.2
  · rename_i claim items waiting done hk
    rw [hk] at hholds
    obtain ⟨_, _, heq⟩ := List.mem_map.mp hw
    cases heq
    obtain ⟨hwritten, hclaim, _⟩ := hholds
    obtain ⟨hmem, hsome⟩ := hclaim claim rfl
    obtain ⟨new, hl⟩ := Option.isSome_iff_exists.mp hsome
    exact attached_current hI.rows (hI.rows.itemClaimed claim hmem) (hwritten claim.id new hl)
  · cases hw

theorem write_current (hI : Inv s) (h : step maxAttempts s e = some u) {table : WriteTable}
    {sessionId : SessionId} {epoch : ℕ} (hw : (table, sessionId, epoch) ∈ writes s e) :
    s.fences sessionId = epoch := by
  cases e with
  | renewRun claim now =>
    cases List.mem_singleton.mp hw
    obtain ⟨hclaim, h⟩ := Option.ite_none_right_eq_some.mp h
    obtain ⟨row, new, hrow, hnew, _⟩ := updateRun_some h
    exact claimed_current hI.rows hclaim hrow (renew_leased hnew).2
  | failAttempt claim now groups members error =>
    cases List.mem_singleton.mp hw
    obtain ⟨hclaim, h⟩ := Option.ite_none_right_eq_some.mp h
    obtain ⟨row, new, hrow, hnew, _⟩ := updateRun_some h
    exact claimed_current hI.rows hclaim hrow (failAttempt_leased hnew).2
  | completeRun claim now groups members =>
    cases List.mem_singleton.mp hw
    obtain ⟨hclaim, h⟩ := Option.ite_none_right_eq_some.mp h
    obtain ⟨row, new, hrow, hnew, _⟩ := updateRun_some h
    exact claimed_current hI.rows hclaim hrow (complete_leased hnew).2
  | tx n event =>
    cases event with
    | commit => exact commit_current hI hw
    | _ => cases hw
  | _ => cases hw

theorem claims_commit {claim : ClaimedSyncRun} (h : claims s e = some claim) :
    ∃ n row, e = .tx n .commit ∧ s.txs n = .claimed claim row := by
  cases e with
  | tx n event =>
    cases event with
    | commit =>
      simp only [claims] at h
      split at h
      · rename_i hk
        cases h
        exact ⟨n, _, rfl, hk⟩
      · cases h
    | _ => cases h
  | _ => cases h

/-- A claim takes the next epoch, and leaves it in the fence. -/
theorem claim_epoch (hI : Inv s) (h : step maxAttempts s e = some u) {claim : ClaimedSyncRun}
    (hc : claims s e = some claim) :
    claim.syncEpoch = s.fences claim.sessionId + 1 ∧
      u.fences claim.sessionId = claim.syncEpoch := by
  obtain ⟨n, row, rfl, hk⟩ := claims_commit hc
  have hholds := hI.holds n
  rw [hk] at hholds
  obtain ⟨_, rfl⟩ := guarded_eq_some.mp h
  refine ⟨hholds.2.2.1, ?_⟩
  simp [committed, hk]

/-- No step moves a fence back. -/
theorem fences_step (hI : Inv s) (h : step maxAttempts s e = some u) (sessionId : SessionId) :
    s.fences sessionId ≤ u.fences sessionId := by
  cases hc : claims s e with
  | some claim =>
    obtain ⟨n, row, rfl, hk⟩ := claims_commit hc
    obtain ⟨hepoch, hnew⟩ := claim_epoch hI h hc
    by_cases hs : sessionId = claim.sessionId
    · rw [hs, hnew, hepoch]
      exact Nat.le_succ _
    · obtain ⟨_, rfl⟩ := guarded_eq_some.mp h
      simp [committed, hk, Function.update_of_ne hs]
  | none =>
    have hsame : u.fences = s.fences := by
      cases e with
      | tick ms =>
        cases h
        rfl
      | createRun sessionId mode now =>
        obtain ⟨_, rfl⟩ := guarded_eq_some.mp h
        rfl
      | recoverExpiredRun id now =>
        obtain ⟨_, _, _, _, _, rfl⟩ := updateRun_some h
        rfl
      | renewRun claim now =>
        obtain ⟨_, h⟩ := Option.ite_none_right_eq_some.mp h
        obtain ⟨_, _, _, _, _, rfl⟩ := updateRun_some h
        rfl
      | failAttempt claim now groups members error =>
        obtain ⟨_, h⟩ := Option.ite_none_right_eq_some.mp h
        obtain ⟨_, _, _, _, _, rfl⟩ := updateRun_some h
        rfl
      | completeRun claim now groups members =>
        obtain ⟨_, h⟩ := Option.ite_none_right_eq_some.mp h
        obtain ⟨_, _, _, _, _, rfl⟩ := updateRun_some h
        rfl
      | deleteRun id =>
        simp only [step] at h
        split at h
        · obtain ⟨_, rfl⟩ := guarded_eq_some.mp h
          rfl
        · cases h
      | opening first =>
        obtain ⟨k, _, rfl⟩ := Option.map_eq_some_iff.mp h
        rfl
      | tx n event =>
        cases event with
        | commit =>
          obtain ⟨_, rfl⟩ := guarded_eq_some.mp h
          simp only [claims] at hc
          cases hk : s.txs n with
          | claimed claim row =>
            rw [hk] at hc
            cases hc
          | _ => rfl
        | abort =>
          obtain ⟨_, rfl⟩ := guarded_eq_some.mp h
          rfl
        | _ =>
          obtain ⟨k, _, rfl⟩ := Option.map_eq_some_iff.mp h
          rfl
    rw [hsame]

theorem fences_along {es : List Event} (hs : Reachable (system maxAttempts) s)
    (h : Execution (system maxAttempts) s es u) (sessionId : SessionId) :
    s.fences sessionId ≤ u.fences sessionId :=
  related_along (R := fun s u => s.fences sessionId ≤ u.fences sessionId) (fun _ => Nat.le_refl _)
    (fun _ _ _ hr hle he =>
      Nat.le_trans hle (fences_step (reachable_inv hr) (ofStep_enabled he) sessionId)) hs h

/-- In every reachable state one run of a session is RUNNING at most. A claim that commits raises
the epoch of its session's fence, every later claim of the session gets a greater epoch, and nothing
is committed later on behalf of an attempt with an older one. -/
theorem older_attempts_write_nothing (hs : Reachable (system maxAttempts) s) :
    (∀ r q row other, s.runs r = some row → s.runs q = some other → row.run.status = .running →
      other.run.status = .running → row.run.sessionId = other.run.sessionId → r = q) ∧
    ∀ e claim, (system maxAttempts).enabled s e → claims s e = some claim →
      s.fences claim.sessionId < claim.syncEpoch ∧
      ((system maxAttempts).next s e).fences claim.sessionId = claim.syncEpoch ∧
      ∀ es u f, Execution (system maxAttempts) ((system maxAttempts).next s e) es u →
        (system maxAttempts).enabled u f →
        (∀ later, claims u f = some later → later.sessionId = claim.sessionId →
          claim.syncEpoch < later.syncEpoch) ∧
        ∀ table epoch, (table, claim.sessionId, epoch) ∈ writes u f → claim.syncEpoch ≤ epoch := by
  have hI := reachable_inv hs
  refine ⟨?_, ?_⟩
  · intro r q row other hrow hother hr hr' hsession
    exact hI.rows.active r q row other hrow hother (by simp [RunRow.Active, hr])
      (by simp [RunRow.Active, hr']) hsession
  intro e claim he hc
  obtain ⟨hepoch, hnew⟩ := claim_epoch hI (ofStep_enabled he) hc
  refine ⟨by omega, hnew, ?_⟩
  intro es u f hx hf
  have hnext := hs.step he
  have hle : claim.syncEpoch ≤ u.fences claim.sessionId := by
    rw [← hnew]
    exact fences_along hnext hx claim.sessionId
  have hI' := reachable_inv (hnext.extend hx)
  refine ⟨?_, ?_⟩
  · intro later hlater hsession
    have := (claim_epoch hI' (ofStep_enabled hf) hlater).1
    rw [hsession] at this
    omega
  · intro table epoch hw
    rw [← write_current hI' (ofStep_enabled hf) hw]
    exact hle

/-- A run that is claimed, left until its lease has expired, recovered and claimed again. -/
def claimedTwice : List Event :=
  [.createRun "session" .full 0, .opening (.claimRun 0), .tx 0 .probe, .tx 0 (.updateRun 0),
    .tx 0 .commit, .tick 120001, .recoverExpiredRun 0 120001, .opening (.claimRun 0), .tx 1 .probe,
    .tx 1 (.updateRun 120001)]

theorem takeover_raises_epoch :
    ∃ claim later,
      claims (runTrace (system 1) initial (claimedTwice.take 4)) (.tx 0 .commit) = some claim ∧
      claims (runTrace (system 1) initial claimedTwice) (.tx 1 .commit) = some later ∧
      claim.syncEpoch < later.syncEpoch := by
  have hvalid : ValidTrace (system 1) initial (claimedTwice.take 4 ++ .tx 0 .commit ::
      claimedTwice.drop 5 ++ [.tx 1 .commit]) := by decide +kernel
  obtain ⟨hfirst, hlast⟩ := valid_trace_append.mp hvalid
  obtain ⟨hfirst, hclaim, hrest⟩ := valid_trace_append.mp hfirst
  have hreach : Reachable (system 1) (runTrace (system 1) initial (claimedTwice.take 4)) :=
    ⟨_, valid_trace_run rfl hfirst⟩
  obtain ⟨claim, hc⟩ : ∃ claim,
      claims (runTrace (system 1) initial (claimedTwice.take 4)) (.tx 0 .commit) = some claim :=
    ⟨_, rfl⟩
  obtain ⟨later, hl⟩ : ∃ later,
      claims (runTrace (system 1) initial claimedTwice) (.tx 1 .commit) = some later := ⟨_, rfl⟩
  refine ⟨claim, later, hc, hl, ?_⟩
  have hsessions : later.sessionId = claim.sessionId := by
    cases hc
    cases hl
    rfl
  exact (((older_attempts_write_nothing hreach).2 _ claim hclaim hc).2.2 _ _ _
    (valid_trace_execution hrest) hlast.1).1 later hl hsessions

end GatewaySyncEpochs
