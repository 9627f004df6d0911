import WaRuntime.GatewaySyncTransactions

/-! The invariant of the sync transactions. Each transaction stands on rows that nobody else can
change until it ends, and a run that has items keeps its epoch for good; what a transaction relies
on survives every step that leaves its rows as they are. -/
namespace GatewaySyncFences

open TransitionRuns GatewaySyncTransactions
open GroupCapabilityStatements (Unexpired Expired)
open GatewaySyncItemStatements (SyncItemRow insertItem Owned)
open GatewayDiscovery (SessionId GroupId RunId GatewaySyncMode SyncRun SyncWriteFence RunOwned
  claimRun renewRun recoverExpiredRun endAttempt deferredRun publishedRun)

variable {maxAttempts now token : ℕ} {s u : State} {k : Tx} {n : ℕ} {r : RunId} {i : ItemId}

section Items

variable {item new : SyncItemRow}

/-- An UPDATE of an item finds it unfinished, and leaves it with its run. -/
def WritesItem (f : SyncItemRow → Option SyncItemRow) : Prop :=
  ∀ item new, f item = some new → ¬ item.Terminal ∧ new.syncRunId = item.syncRunId

theorem running_unfinished (h : item.status = .running) : ¬ item.Terminal := by
  simp [SyncItemRow.Terminal, h]

theorem claim_writes : WritesItem (GatewaySyncItemStatements.claim maxAttempts now token) := by
  intro item new h
  unfold GatewaySyncItemStatements.claim at h
  split at h
  · rename_i hc
    cases h
    refine ⟨?_, rfl⟩
    intro ht
    simp only [SyncItemRow.Terminal, List.mem_cons, List.not_mem_nil, or_false] at ht hc
    rcases ht with ht | ht | ht <;> simp [ht] at hc
  · cases h

theorem renewLease_writes : WritesItem (GatewaySyncItemStatements.renewLease now token) := by
  intro item new h
  unfold GatewaySyncItemStatements.renewLease at h
  split at h
  · rename_i hc
    cases h
    exact ⟨running_unfinished hc.1, rfl⟩
  · cases h

theorem renewAfterWrite_writes :
    WritesItem (GatewaySyncItemStatements.renewAfterWrite now token) := by
  intro item new h
  unfold GatewaySyncItemStatements.renewAfterWrite at h
  split at h
  · rename_i hc
    cases h
    exact ⟨running_unfinished hc.1, rfl⟩
  · cases h

theorem complete_writes {members : ℕ} :
    WritesItem (GatewaySyncItemStatements.complete now token members) := by
  intro item new h
  unfold GatewaySyncItemStatements.complete at h
  split at h
  · rename_i hc
    cases h
    exact ⟨running_unfinished hc.1, rfl⟩
  · cases h

theorem skip_writes {error : String} :
    WritesItem (GatewaySyncItemStatements.skip now token error) := by
  intro item new h
  unfold GatewaySyncItemStatements.skip at h
  split at h
  · rename_i hc
    cases h
    exact ⟨running_unfinished hc.1, rfl⟩
  · cases h

theorem fail_writes {random : ℕ} {error : String} {retryable : Bool} :
    WritesItem (GatewaySyncItemStatements.fail maxAttempts now token random error retryable) := by
  intro item new h
  unfold GatewaySyncItemStatements.fail at h
  split at h
  · rename_i hc
    cases h
    exact ⟨running_unfinished hc.1, rfl⟩
  · cases h

theorem recoverExpired_writes :
    WritesItem (GatewaySyncItemStatements.recoverExpired maxAttempts now) := by
  intro item new h
  unfold GatewaySyncItemStatements.recoverExpired at h
  split at h
  · rename_i hc
    cases h
    exact ⟨running_unfinished hc.1, rfl⟩
  · cases h

end Items

section Runs

variable {row new : RunRow}

/-- What the statements of a run's worker, and the recovery of its lease, do to a run: they need the
lease, and can only give it up. -/
structure Leased (row new : RunRow) : Prop where
  running : row.run.status = .running
  held : row.run.leaseToken ≠ none ∨ row.run.leaseExpiresAt ≠ none
  session : new.run.sessionId = row.run.sessionId
  epoch : new.run.status = .running → new.run.syncEpoch = row.run.syncEpoch
  token : ∀ token, new.run.leaseToken = some token →
    row.run.leaseToken = some token ∧ new.run.status = .running

theorem owned_held (h : RunOwned now token row.run) :
    row.run.leaseToken ≠ none ∨ row.run.leaseExpiresAt ≠ none := by
  left
  rw [h.2.1]
  simp

theorem endAttempt_leased {next : ℕ} {error : String} (hrow : row.run.status = .running)
    (held : row.run.leaseToken ≠ none ∨ row.run.leaseExpiresAt ≠ none)
    (hnew : new.run = endAttempt now next error row.run) : Leased row new where
  running := hrow
  held := held
  session := by rw [hnew]; rfl
  epoch := by
    intro hs
    rw [hnew] at hs
    simp only [endAttempt] at hs
    split at hs <;> cases hs
  token := by
    intro token ht
    rw [hnew] at ht
    cases ht

theorem recoverExpired_leased (h : onRun (recoverExpiredRun now) row = some new) :
    Leased row new := by
  obtain ⟨run, hrun, rfl⟩ := Option.map_eq_some_iff.mp h
  unfold recoverExpiredRun at hrun
  split at hrun
  · rename_i hc
    cases hrun
    obtain ⟨time, ht, _⟩ := hc.2
    exact endAttempt_leased hc.1 (.inr (by rw [ht]; simp)) rfl
  · cases hrun

theorem renew_leased (h : onRun (renewRun now token) row = some new) :
    Leased row new ∧ RunOwned now token row.run := by
  obtain ⟨run, hrun, rfl⟩ := Option.map_eq_some_iff.mp h
  unfold renewRun at hrun
  split at hrun
  · rename_i hc
    cases hrun
    refine ⟨⟨hc.1, owned_held hc, rfl, fun _ => rfl, ?_⟩, hc⟩
    intro token ht
    exact ⟨ht, hc.1⟩
  · cases hrun

theorem failAttempt_leased {groups members : ℕ} {error : String}
    (h : failAttempt now token groups members error row = some new) :
    Leased row new ∧ RunOwned now token row.run := by
  obtain ⟨run, hrun, rfl⟩ := Option.map_eq_some_iff.mp h
  unfold GatewayDiscovery.failAttempt at hrun
  split at hrun
  · rename_i hc
    cases hrun
    exact ⟨endAttempt_leased hc.1 (owned_held hc) rfl, hc⟩
  · cases hrun

theorem complete_leased {groups members : ℕ} (h : complete now token groups members row = some new) :
    Leased row new ∧ RunOwned now token row.run := by
  unfold complete at h
  split at h
  · rename_i hc
    cases h
    refine ⟨⟨hc.1, owned_held hc, rfl, ?_, ?_⟩, hc⟩
    · intro hs
      cases hs
    · intro token ht
      cases ht
  · cases h

theorem deferred_leased (h : RunOwned now token row.run) : Leased row (deferred now row) where
  running := h.1
  held := owned_held h
  session := rfl
  epoch := by
    intro hs
    cases hs
  token := by
    intro token ht
    cases ht

/-- A claim finds the run PENDING, and gives it an epoch and a lease. -/
theorem claim_some {epoch : ℕ} (h : claim now token epoch row = some new) :
    row.run.status = .pending ∧ new.run.status = .running ∧
      new.run.sessionId = row.run.sessionId ∧ new.run.syncEpoch = some epoch ∧
      new.run.leaseToken = some token := by
  obtain ⟨run, hrun, rfl⟩ := Option.map_eq_some_iff.mp h
  unfold claimRun at hrun
  split at hrun
  · rename_i hc
    cases hrun
    exact ⟨hc.1, rfl, rfl, rfl, rfl⟩
  · cases hrun

end Runs

section Invariant

def HasItems (s : State) (r : RunId) : Prop := ∃ i item, s.items i = some item ∧ item.syncRunId = r

/-- An item that was inserted belongs to its run, and the run to its session and epoch, for good. -/
structure Attached (s : State) (i : ItemId) (r : RunId) (sessionId : SessionId) (epoch : ℕ) :
    Prop where
  inserted : i ∈ s.itemIds
  known : r < s.drawn
  item : ∀ item, s.items i = some item → item.syncRunId = r
  run : s.runs r = none ∨ HasItems s r ∧ ∃ row, s.runs r = some row ∧
    row.run.sessionId = sessionId ∧ row.run.syncEpoch = some epoch

/-- The run of an item has published its items and given up its lease, and it runs while an item
is unfinished. -/
def Published (s : State) (item : SyncItemRow) : Prop :=
  ∃ row, s.runs item.syncRunId = some row ∧ row.run.leaseToken = none ∧
    row.run.leaseExpiresAt = none ∧ row.run.status ≠ .pending ∧
    (¬ item.Terminal → row.run.status = .running)

/-- What holds of the committed rows. -/
structure Rows (s : State) : Prop where
  known : ∀ r row, s.runs r = some row → r < s.drawn ∧ r ∈ s.runIds
  active : ∀ r q row other, s.runs r = some row → s.runs q = some other → row.Active →
    other.Active → row.run.sessionId = other.run.sessionId → r = q
  current : ∀ r row, s.runs r = some row → row.run.status = .running →
    row.run.syncEpoch = some (s.fences row.run.sessionId)
  leased : ∀ r row token, s.runs r = some row → row.run.leaseToken = some token →
    row.run.status = .running
  claimed : ∀ claim ∈ s.runClaims, claim.leaseToken < s.drawn ∧
    ∀ row, s.runs claim.id = some row → row.run.leaseToken = some claim.leaseToken →
      row.run.sessionId = claim.sessionId ∧ row.run.syncEpoch = some claim.syncEpoch
  inserted : ∀ i item, s.items i = some item → i ∈ s.itemIds ∧ Published s item
  itemClaimed : ∀ claim ∈ s.itemClaims,
    Attached s claim.id claim.syncRunId claim.sessionId claim.syncEpoch

/-- The committed version that a written item replaces. -/
def Written (s : State) (i : ItemId) (new : SyncItemRow) : Prop :=
  ∃ item, s.items i = some item ∧ ¬ item.Terminal ∧ new.syncRunId = item.syncRunId

/-- Every item of the run is finished, once the items that the transaction has written are. -/
def Finished (s : State) (items : List (ItemId × SyncItemRow)) (r : RunId) : Prop :=
  ∀ i item, s.items i = some item → item.syncRunId = r → ((items.lookup i).getD item).Terminal

def Writes (items : List (ItemId × SyncItemRow)) (r : RunId) : Prop :=
  ∃ i new, items.lookup i = some new ∧ new.syncRunId = r

/-- The version of a run that `refreshParent` has written. -/
def Refreshed (s : State) (items : List (ItemId × SyncItemRow)) (r : RunId) (new : RunRow) : Prop :=
  ∃ row now aggregate, s.runs r = some row ∧ new = refreshed now aggregate row ∧ Writes items r ∧
    (aggregate.remaining = 0 → Finished s items r)

/-- What a transaction relies on at each stage. -/
def Holds (s : State) : Tx → Prop
  | .closed | .noticed _ _ _ => True
  | .fenced id sessionId epoch | .probed id sessionId epoch _ =>
    s.fences sessionId = epoch ∧ id < s.drawn ∧
      ∀ row, s.runs id = some row → row.run.sessionId = sessionId
  | .claimed claim new =>
    claim.leaseToken < s.drawn ∧
      (∀ other ∈ s.runClaims, other.id = claim.id → other.leaseToken ≠ claim.leaseToken) ∧
      claim.syncEpoch = s.fences claim.sessionId + 1 ∧
      ∃ row now, s.runs claim.id = some row ∧ row.run.sessionId = claim.sessionId ∧
        GatewaySyncTransactions.claim now claim.leaseToken claim.syncEpoch row = some new
  | .fenceShared _ sessionId fence | .owned _ sessionId fence =>
    s.fences sessionId = fence.syncEpoch
  | .discovering sessionId fence now =>
    ∃ row, s.runs fence.syncRunId = some row ∧ FencedRun now sessionId fence row
  | .published sessionId fence new items =>
    (∃ row now, s.runs fence.syncRunId = some row ∧ FencedRun now sessionId fence row ∧
      ((new = deferred now row ∧ items = []) ∨
        ∃ discovered scheduled, new = published now discovered scheduled row ∧
          (scheduled = 0 → items = []) ∧
          ∀ p ∈ items, p.2.syncRunId = fence.syncRunId ∧ p.2.status = .pending)) ∧
      ∀ p ∈ items, p.1 < s.drawn ∧ p.1 ∉ s.itemIds
  | .detailing claim =>
    s.fences claim.sessionId = claim.syncEpoch ∧
      ∃ item, s.items claim.id = some item ∧ item.syncRunId = claim.syncRunId
  | .detailed claim new => s.fences claim.sessionId = claim.syncEpoch ∧ Written s claim.id new
  | .peeked id run sessionId epoch | .selected id run sessionId epoch =>
    Attached s id run sessionId epoch
  | .itemClaimed claim new =>
    Attached s claim.id claim.syncRunId claim.sessionId claim.syncEpoch ∧ Written s claim.id new
  | .renewed claim new => claim ∈ s.itemClaims ∧ Written s claim.id new
  | .recovering _ items =>
    (items.map Prod.fst).Nodup ∧ ∀ i new, items.lookup i = some new → Written s i new
  | .settling _ claim items waiting done =>
    (∀ i new, items.lookup i = some new → Written s i new) ∧
      (∀ c ∈ claim, c ∈ s.itemClaims ∧ (items.lookup c.id).isSome) ∧
      (∀ r ∈ waiting, Writes items r) ∧ ∀ r new, done.lookup r = some new → Refreshed s items r new
  | .refreshing _ claim items run aggregate waiting done =>
    (∀ i new, items.lookup i = some new → Written s i new) ∧
      (∀ c ∈ claim, c ∈ s.itemClaims ∧ (items.lookup c.id).isSome) ∧
      (∀ r ∈ run :: waiting, Writes items r) ∧
      (∀ r new, done.lookup r = some new → Refreshed s items r new) ∧
      (aggregate.remaining = 0 → Finished s items run)

/-- A resource that exists, or has existed. -/
def Known (s : State) : Resource → Prop
  | .fence _ => True
  | .run r => r < s.drawn
  | .item i => i < s.drawn

structure Inv (s : State) : Prop where
  closed : ∀ n, s.started ≤ n → s.txs n = .closed
  exclusive : ∀ m n r, m ≠ n → r ∈ (s.txs m).locks → r ∉ (s.txs n).locks ∧ r ∉ (s.txs n).shares
  known : ∀ n, ∀ r ∈ (s.txs n).locks ++ (s.txs n).shares, Known s r
  inserted : ∀ i ∈ s.itemIds, i < s.drawn
  rows : Rows s
  holds : ∀ n, Holds s (s.txs n)

end Invariant

section Advance

/-- What every step leaves standing of the committed rows. -/
structure Advance (s u : State) : Prop where
  drawn : s.drawn ≤ u.drawn
  inserted : ∀ i ∈ s.itemIds, i ∈ u.itemIds
  insertedOnly : ∀ i ∈ u.itemIds, i ∈ s.itemIds ∨ u.items i ≠ s.items i
  item : ∀ i new, u.items i = some new →
    (∃ item, s.items i = some item ∧ new.syncRunId = item.syncRunId ∧
      (item.Terminal → new.Terminal)) ∨ i ∉ s.itemIds ∧ ¬ HasItems s new.syncRunId
  gone : ∀ r < s.drawn, s.runs r = none → u.runs r = none
  session : ∀ r row new, s.runs r = some row → u.runs r = some new →
    new.run.sessionId = row.run.sessionId
  settled : ∀ r row, s.runs r = some row → HasItems s r → u.runs r = none ∨
    HasItems u r ∧ ∃ new, u.runs r = some new ∧ new.run.syncEpoch = row.run.syncEpoch
  runClaims : ∀ claim ∈ u.runClaims, claim ∈ s.runClaims ∨ u.runs claim.id ≠ s.runs claim.id
  itemClaims : ∀ claim ∈ s.itemClaims, claim ∈ u.itemClaims

/-- A step leaves the row as it is. -/
def Same (s u : State) : Resource → Prop
  | .fence sessionId => u.fences sessionId = s.fences sessionId
  | .run r => u.runs r = s.runs r
  | .item i => u.items i = s.items i

theorem lookup_mem {α β : Type*} [BEq α] [LawfulBEq α] {l : List (α × β)} {a : α} {b : β}
    (h : l.lookup a = some b) : (a, b) ∈ l := by
  obtain ⟨l₁, l₂, rfl, _⟩ := List.lookup_eq_some_iff.mp h
  simp

/-- What a transaction has written it has locked. -/
theorem item_locked {p : ItemId × SyncItemRow} (h : p ∈ k.itemWrites) : .item p.1 ∈ k.locks := by
  have hmem : Resource.item p.1 ∈ k.itemWrites.map fun p => Resource.item p.1 :=
    List.mem_map.mpr ⟨p, h, rfl⟩
  cases k <;> first | exact List.mem_append_right _ hmem | simp [Tx.itemWrites] at h

theorem run_locked {p : RunId × RunRow} (h : p ∈ k.runWrites) : .run p.1 ∈ k.locks := by
  have hmem : Resource.run p.1 ∈ k.runWrites.map fun p => Resource.run p.1 :=
    List.mem_map.mpr ⟨p, h, rfl⟩
  cases k with
  | claimed claim row =>
    simp only [Tx.runWrites, List.mem_singleton] at h
    simp [Tx.locks, h]
  | _ => exact List.mem_append_left _ hmem

theorem Attached.advance {sessionId : SessionId} {epoch : ℕ} (hA : Advance s u)
    (h : Attached s i r sessionId epoch) : Attached u i r sessionId epoch where
  inserted := hA.inserted i h.inserted
  known := Nat.lt_of_lt_of_le h.known hA.drawn
  item := by
    intro new hnew
    obtain ⟨item, hitem, hrun, _⟩ | ⟨hn, _⟩ := hA.item i new hnew
    · rw [hrun, h.item item hitem]
    · exact absurd h.inserted hn
  run := by
    obtain hnone | ⟨hitems, row, hrow, hsession, hepoch⟩ := h.run
    · exact .inl (hA.gone r h.known hnone)
    · obtain hnone | ⟨hitems', new, hnew, he⟩ := hA.settled r row hrow hitems
      · exact .inl hnone
      · refine .inr ⟨hitems', new, hnew, ?_, he.trans hepoch⟩
        rw [hA.session r row new hrow hnew, hsession]

theorem Written.same {new : SyncItemRow} (hs : Same s u (.item i)) (h : Written s i new) :
    Written u i new := by
  obtain ⟨item, hitem, h⟩ := h
  have hs' : u.items i = s.items i := hs
  exact ⟨item, by rw [hs', hitem], h⟩

theorem writes_hasItems {items : List (ItemId × SyncItemRow)}
    (hw : ∀ i new, items.lookup i = some new → Written s i new) (h : Writes items r) :
    HasItems s r := by
  obtain ⟨i, new, hnew, hrun⟩ := h
  obtain ⟨item, hitem, _, heq⟩ := hw i new hnew
  exact ⟨i, item, hitem, heq.symm.trans hrun⟩

theorem Finished.advance {items : List (ItemId × SyncItemRow)} (hA : Advance s u)
    (hs : ∀ i new, items.lookup i = some new → Same s u (.item i)) (hr : HasItems s r)
    (h : Finished s items r) : Finished u items r := by
  intro i new hnew hrun
  cases hl : items.lookup i with
  | some written =>
    have hsame : u.items i = s.items i := hs i written hl
    have := h i new (by rw [← hsame, hnew]) hrun
    rwa [hl] at this
  | none =>
    obtain ⟨item, hitem, heq, hterminal⟩ | ⟨_, hn⟩ := hA.item i new hnew
    · have := h i item hitem (heq.symm.trans hrun)
      rw [hl] at this
      exact hterminal this
    · exact absurd hr (by rw [← hrun]; exact hn)

theorem Refreshed.advance {items : List (ItemId × SyncItemRow)} {new : RunRow} (hA : Advance s u)
    (hs : ∀ i new, items.lookup i = some new → Same s u (.item i)) (hr : Same s u (.run r))
    (hw : ∀ i new, items.lookup i = some new → Written s i new) (h : Refreshed s items r new) :
    Refreshed u items r new := by
  obtain ⟨row, now, aggregate, hrow, hnew, hwrites, hfinished⟩ := h
  have hr' : u.runs r = s.runs r := hr
  refine ⟨row, now, aggregate, by rw [hr', hrow], hnew, hwrites, ?_⟩
  intro hzero
  exact (hfinished hzero).advance hA hs (writes_hasItems hw hwrites)

theorem session_advance {id : RunId} {sessionId : SessionId} (hA : Advance s u)
    (hid : id < s.drawn) (h : ∀ row, s.runs id = some row → row.run.sessionId = sessionId) :
    ∀ row, u.runs id = some row → row.run.sessionId = sessionId := by
  intro new hnew
  cases hrow : s.runs id with
  | none =>
    rw [hA.gone id hid hrow] at hnew
    cases hnew
  | some row => rw [hA.session id row new hrow hnew, h row hrow]

/-- What a transaction relies on survives every step that leaves its rows as they are. -/
theorem holds_advance (hA : Advance s u) (hsame : ∀ r ∈ k.locks ++ k.shares, Same s u r)
    (h : Holds s k) : Holds u k := by
  have hitem : ∀ i new, k.itemWrites.lookup i = some new → Same s u (.item i) :=
    fun i new hl => hsame _ (List.mem_append_left _ (item_locked (lookup_mem hl)))
  have hrun : ∀ r new, k.runWrites.lookup r = some new → Same s u (.run r) :=
    fun r new hl => hsame _ (List.mem_append_left _ (run_locked (lookup_mem hl)))
  cases k with
  | closed => trivial
  | noticed => trivial
  | fenced id sessionId epoch =>
    obtain ⟨hf, hid, hsession⟩ := h
    have hfence : u.fences sessionId = s.fences sessionId :=
      hsame (.fence sessionId) (by simp [Tx.locks])
    exact ⟨hfence.trans hf, Nat.lt_of_lt_of_le hid hA.drawn, session_advance hA hid hsession⟩
  | probed id sessionId epoch running =>
    obtain ⟨hf, hid, hsession⟩ := h
    have hfence : u.fences sessionId = s.fences sessionId :=
      hsame (.fence sessionId) (by simp [Tx.locks])
    exact ⟨hfence.trans hf, Nat.lt_of_lt_of_le hid hA.drawn, session_advance hA hid hsession⟩
  | claimed claim new =>
    obtain ⟨htoken, hfresh, hepoch, row, now, hrow, hclaim⟩ := h
    have hfence : u.fences claim.sessionId = s.fences claim.sessionId :=
      hsame (.fence claim.sessionId) (by simp [Tx.locks])
    have hrow' : u.runs claim.id = s.runs claim.id := hsame (.run claim.id) (by simp [Tx.locks])
    refine ⟨Nat.lt_of_lt_of_le htoken hA.drawn, ?_, by rw [hfence, hepoch], row, now,
      by rw [hrow', hrow], hclaim⟩
    intro other hother hid
    obtain hold | hchanged := hA.runClaims other hother
    · exact hfresh other hold hid
    · exact absurd hrow' (by rw [hid] at hchanged; exact hchanged)
  | fenceShared table sessionId fence =>
    have hfence : u.fences sessionId = s.fences sessionId :=
      hsame (.fence sessionId) (by simp [Tx.shares])
    exact hfence.trans h
  | owned table sessionId fence =>
    have hfence : u.fences sessionId = s.fences sessionId :=
      hsame (.fence sessionId) (by simp [Tx.shares])
    exact hfence.trans h
  | discovering sessionId fence now =>
    obtain ⟨row, hrow, h⟩ := h
    have hrow' : u.runs fence.syncRunId = s.runs fence.syncRunId :=
      hsame (.run fence.syncRunId) (by simp [Tx.locks])
    exact ⟨row, by rw [hrow', hrow], h⟩
  | published sessionId fence new items =>
    obtain ⟨⟨row, now, hrow, h⟩, hitems⟩ := h
    have hrow' : u.runs fence.syncRunId = s.runs fence.syncRunId :=
      hsame (.run fence.syncRunId) (by simp [Tx.locks, Tx.runWrites])
    refine ⟨⟨row, now, by rw [hrow', hrow], h⟩, ?_⟩
    intro p hp
    refine ⟨Nat.lt_of_lt_of_le (hitems p hp).1 hA.drawn, ?_⟩
    intro hmem
    obtain hold | hchanged := hA.insertedOnly p.1 hmem
    · exact (hitems p hp).2 hold
    · exact hchanged (hsame (.item p.1) (by
        simp only [Tx.locks, Tx.itemWrites, List.mem_append, List.mem_map]
        exact .inl (.inr ⟨p, hp, rfl⟩)))
  | detailing claim =>
    obtain ⟨hf, item, hitem', h⟩ := h
    have hfence : u.fences claim.sessionId = s.fences claim.sessionId :=
      hsame (.fence claim.sessionId) (by simp [Tx.shares])
    have hitem'' : u.items claim.id = s.items claim.id :=
      hsame (.item claim.id) (by simp [Tx.shares])
    exact ⟨hfence.trans hf, item, by rw [hitem'', hitem'], h⟩
  | detailed claim new =>
    have hfence : u.fences claim.sessionId = s.fences claim.sessionId :=
      hsame (.fence claim.sessionId) (by simp [Tx.shares])
    exact ⟨hfence.trans h.1, h.2.same (hitem claim.id new (by simp [Tx.itemWrites]))⟩
  | peeked => exact h.advance hA
  | selected => exact h.advance hA
  | itemClaimed claim new =>
    exact ⟨h.1.advance hA, h.2.same (hitem claim.id new (by simp [Tx.itemWrites]))⟩
  | renewed claim new =>
    exact ⟨hA.itemClaims claim h.1, h.2.same (hitem claim.id new (by simp [Tx.itemWrites]))⟩
  | recovering now items => exact ⟨h.1, fun i new hl => (h.2 i new hl).same (hitem i new hl)⟩
  | settling now claim items waiting done =>
    obtain ⟨hw, hclaim, hwaiting, hdone⟩ := h
    have hsame' : ∀ i new, items.lookup i = some new → Same s u (.item i) :=
      hitem
    refine ⟨fun i new hl => (hw i new hl).same (hsame' i new hl), ?_, hwaiting, ?_⟩
    · exact fun c hc => ⟨hA.itemClaims c (hclaim c hc).1, (hclaim c hc).2⟩
    · exact fun r new hl => (hdone r new hl).advance hA hsame' (hrun r new hl) hw
  | refreshing now claim items run aggregate waiting done =>
    obtain ⟨hw, hclaim, hwaiting, hdone, hfinished⟩ := h
    have hsame' : ∀ i new, items.lookup i = some new → Same s u (.item i) :=
      hitem
    refine ⟨fun i new hl => (hw i new hl).same (hsame' i new hl), ?_, hwaiting, ?_, ?_⟩
    · exact fun c hc => ⟨hA.itemClaims c (hclaim c hc).1, (hclaim c hc).2⟩
    · exact fun r new hl => (hdone r new hl).advance hA hsame' (hrun r new hl) hw
    · exact fun hzero => (hfinished hzero).advance hA hsame'
        (writes_hasItems hw (hwaiting run List.mem_cons_self))

/-- What is no committed row changes nothing that a transaction relies on. -/
theorem Advance.later {c d t : ℕ} {txs : ℕ → Tx} (hd : s.drawn ≤ d) :
    Advance s { s with clock := c, drawn := d, started := t, txs := txs } where
  drawn := hd
  inserted _ hi := hi
  insertedOnly _ hi := .inl hi
  item _ _ hitem := .inl ⟨_, hitem, rfl, id⟩
  gone _ _ hr := hr
  session r row new hrow hnew := by
    rw [hrow] at hnew
    cases hnew
    rfl
  settled _ row hrow hitems := .inr ⟨hitems, row, hrow, rfl⟩
  runClaims _ hc := .inl hc
  itemClaims _ hc := hc

theorem Rows.later {c d t : ℕ} {txs : ℕ → Tx} (hd : s.drawn ≤ d) (hR : Rows s) :
    Rows { s with clock := c, drawn := d, started := t, txs := txs } where
  known r row hr := ⟨Nat.lt_of_lt_of_le (hR.known r row hr).1 hd, (hR.known r row hr).2⟩
  active := hR.active
  current := hR.current
  leased := hR.leased
  claimed c hc := ⟨Nat.lt_of_lt_of_le (hR.claimed c hc).1 hd, (hR.claimed c hc).2⟩
  inserted := hR.inserted
  itemClaimed c hc := (hR.itemClaimed c hc).advance (Advance.later hd)

theorem Rows.grant {claim : ClaimedGatewaySyncItem} (hR : Rows s)
    (h : Attached s claim.id claim.syncRunId claim.sessionId claim.syncEpoch) :
    Rows { s with itemClaims := claim :: s.itemClaims } where
  known := hR.known
  active := hR.active
  current := hR.current
  leased := hR.leased
  claimed := hR.claimed
  inserted := hR.inserted
  itemClaimed := by
    intro other hother
    obtain rfl | hold := List.mem_cons.mp hother
    · exact ⟨h.inserted, h.known, h.item, h.run⟩
    · have := hR.itemClaimed other hold
      exact ⟨this.inserted, this.known, this.item, this.run⟩

theorem Advance.grant {v : State} {claim : ClaimedGatewaySyncItem} (hA : Advance s v) :
    Advance s { v with itemClaims := claim :: v.itemClaims } where
  drawn := hA.drawn
  inserted := hA.inserted
  insertedOnly := hA.insertedOnly
  item := hA.item
  gone := hA.gone
  session := hA.session
  settled := hA.settled
  runClaims := hA.runClaims
  itemClaims c hc := List.mem_cons_of_mem _ (hA.itemClaims c hc)

end Advance

end GatewaySyncFences
