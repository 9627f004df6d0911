import WaRuntime.GatewaySyncStages

/-! What a commit, a statement of its own, a creation and a deletion do to the committed runs and
items: their invariant holds on, and what others rely on stands. -/
namespace GatewaySyncCommits

open TransitionRuns GatewaySyncTransactions GatewaySyncFences GatewaySyncStages
open GatewaySyncItemStatements (SyncItemRow)
open GatewayDiscovery (SessionId RunId GatewaySyncMode SyncWriteFence publishedRun)

variable {now : ℕ} {s : State} {k : Tx} {n : ℕ} {r : RunId} {i : ItemId}

variable {row new : RunRow}

theorem leased_no_items (hR : Rows s) (hrow : s.runs r = some row)
    (held : row.run.leaseToken ≠ none ∨ row.run.leaseExpiresAt ≠ none) : ¬ HasItems s r := by
  rintro ⟨i, item, hitem, rfl⟩
  obtain ⟨_, found, hfound, htoken, hexpires, _⟩ := hR.inserted i item hitem
  rw [hrow] at hfound
  cases hfound
  obtain h | h := held
  · exact h htoken
  · exact h hexpires

/-- An UPDATE of a run that has no items. -/
theorem update_advance (hrow : s.runs r = some row) (hno : ¬ HasItems s r)
    (hsession : new.run.sessionId = row.run.sessionId) :
    Advance s { s with runs := Function.update s.runs r (some new) } where
  drawn := Nat.le_refl _
  inserted _ hi := hi
  insertedOnly _ hi := .inl hi
  item _ _ hitem := .inl ⟨_, hitem, rfl, id⟩
  gone q _ hq := by
    have hne : q ≠ r := by
      rintro rfl
      rw [hrow] at hq
      cases hq
    simp [hne, hq]
  session q old found hold hfound := by
    by_cases hne : q = r
    · subst hne
      rw [hrow] at hold
      cases hold
      simp only [Function.update_self, Option.some.injEq] at hfound
      rw [← hfound, hsession]
    · simp only [Function.update_of_ne hne] at hfound
      rw [hold] at hfound
      cases hfound
      rfl
  settled q old hold hitems := by
    have hne : q ≠ r := by
      rintro rfl
      exact hno hitems
    exact .inr ⟨hitems, old, by simp [hne, hold], rfl⟩
  runClaims _ hc := .inl hc
  itemClaims _ hc := hc

theorem published_update (new : RunRow) (hR : Rows s) (hno : ¬ HasItems s r) {item : SyncItemRow}
    (h : s.items i = some item) : Published { s with runs := Function.update s.runs r (some new) }
      item := by
  obtain ⟨_, found, hfound, h'⟩ := hR.inserted i item h
  have hne : item.syncRunId ≠ r := by
    rintro rfl
    exact hno ⟨i, item, h, rfl⟩
  exact ⟨found, by simp [hne, hfound], h'⟩

theorem leased_rows (hR : Rows s) (hrow : s.runs r = some row) (h : Leased row new) :
    Rows { s with runs := Function.update s.runs r (some new) } ∧
      Advance s { s with runs := Function.update s.runs r (some new) } := by
  have hno : ¬ HasItems s r := leased_no_items hR hrow h.held
  have hA := update_advance hrow hno h.session
  have hactive : row.Active := by simp [RunRow.Active, h.running]
  refine ⟨⟨?_, ?_, ?_, ?_, ?_, ?_, ?_⟩, hA⟩
  · intro q found hfound
    by_cases hq : q = r
    · rw [hq]
      exact hR.known r row hrow
    · simp only [Function.update_of_ne hq] at hfound
      exact hR.known q found hfound
  · have hback : ∀ q found, Function.update s.runs r (some new) q = some found → found.Active →
        ∃ old, s.runs q = some old ∧ old.Active ∧ old.run.sessionId = found.run.sessionId := by
      intro q found hfound hfa
      by_cases hq : q = r
      · subst hq
        simp only [Function.update_self, Option.some.injEq] at hfound
        exact ⟨row, hrow, hactive, by rw [← hfound, h.session]⟩
      · simp only [Function.update_of_ne hq] at hfound
        exact ⟨found, hfound, hfa, rfl⟩
    intro q p found other hfound hother hfa hoa hsession
    obtain ⟨old, hold, ha, hs⟩ := hback q found hfound hfa
    obtain ⟨old', hold', ha', hs'⟩ := hback p other hother hoa
    exact hR.active q p old old' hold hold' ha ha' (by rw [hs, hs', hsession])
  · intro q found hfound hrunning
    by_cases hq : q = r
    · subst hq
      simp only [Function.update_self, Option.some.injEq] at hfound
      subst hfound
      rw [h.epoch hrunning, h.session]
      exact hR.current q row hrow h.running
    · simp only [Function.update_of_ne hq] at hfound
      exact hR.current q found hfound hrunning
  · intro q found token hfound htoken
    by_cases hq : q = r
    · subst hq
      simp only [Function.update_self, Option.some.injEq] at hfound
      subst hfound
      exact (h.token token htoken).2
    · simp only [Function.update_of_ne hq] at hfound
      exact hR.leased q found token hfound htoken
  · intro claim hclaim
    obtain ⟨hdrawn, hrun⟩ := hR.claimed claim hclaim
    refine ⟨hdrawn, ?_⟩
    intro found hfound htoken
    by_cases hq : claim.id = r
    · simp only [hq, Function.update_self, Option.some.injEq] at hfound
      subst hfound
      obtain ⟨hold, hrunning⟩ := h.token _ htoken
      rw [h.session, h.epoch hrunning]
      exact hrun row (by rw [hq, hrow]) hold
    · simp only [Function.update_of_ne hq] at hfound
      exact hrun found hfound htoken
  · exact fun i item hitem =>
      ⟨(hR.inserted i item hitem).1, published_update new hR hno hitem⟩
  · exact fun claim hclaim => (hR.itemClaimed claim hclaim).advance hA

/-- The commit of a claim: no other run of the session is RUNNING, since the run was PENDING. -/
theorem claimed_rows (hR : Rows s) {claim : ClaimedSyncRun}
    (h : Holds s (.claimed claim new)) :
    Rows (committed s (.claimed claim new)) ∧ Advance s (committed s (.claimed claim new)) := by
  obtain ⟨htoken, hfresh, hepoch, row, now, hrow, hsession, hclaim⟩ := h
  obtain ⟨hpending, hrunning, hsession', hepoch', htoken'⟩ := claim_some hclaim
  have hno : ¬ HasItems s claim.id := by
    rintro ⟨i, item, hitem, heq⟩
    obtain ⟨_, found, hfound, _, _, hp, _⟩ := hR.inserted i item hitem
    rw [heq, hrow] at hfound
    cases hfound
    exact hp hpending
  have hactive : row.Active := by simp [RunRow.Active, hpending]
  have hruns : (committed s (.claimed claim new)).runs =
      Function.update s.runs claim.id (some new) := by
    funext q
    by_cases hq : q = claim.id
    · subst hq
      simp [committed, Tx.runWrites]
    · simp [committed, Tx.runWrites, List.lookup_cons, beq_eq_false_iff_ne.mpr hq, hq]
  have hitems : (committed s (.claimed claim new)).items = s.items := by
    funext i
    simp [committed, Tx.itemWrites]
  have hback : ∀ q found, (committed s (.claimed claim new)).runs q = some found →
      (q = claim.id ∧ found = new) ∨ q ≠ claim.id ∧ s.runs q = some found := by
    intro q found hfound
    rw [hruns] at hfound
    by_cases hq : q = claim.id
    · subst hq
      simp only [Function.update_self, Option.some.injEq] at hfound
      exact .inl ⟨rfl, hfound.symm⟩
    · simp only [Function.update_of_ne hq] at hfound
      exact .inr ⟨hq, hfound⟩
  have hA : Advance s (committed s (.claimed claim new)) := by
    have hbase := update_advance hrow hno hsession'
    refine ⟨Nat.le_refl _, fun _ hi => hi, fun _ hi => .inl hi, ?_, ?_, ?_, ?_, ?_,
      fun _ hc => hc⟩
    · intro i item hitem
      rw [hitems] at hitem
      exact .inl ⟨item, hitem, rfl, id⟩
    · rw [hruns]
      exact hbase.gone
    · rw [hruns]
      exact hbase.session
    · rw [hruns]
      intro q old hold hi
      obtain hn | ⟨_, found⟩ := hbase.settled q old hold hi
      · exact .inl hn
      · refine .inr ⟨?_, found⟩
        unfold HasItems
        rw [hitems]
        exact hi
    · intro other hother
      obtain rfl | hold := List.mem_cons.mp hother
      · refine .inr ?_
        rw [hruns, hrow, Function.update_self]
        intro heq
        cases heq
        rw [hpending] at hrunning
        cases hrunning
      · exact .inl hold
  have hlater : ∀ q found, q ≠ claim.id → s.runs q = some found → found.Active →
      found.run.sessionId ≠ claim.sessionId := by
    intro q found hq hfound hfa hs
    exact hq (hR.active q claim.id found row hfound hrow hfa hactive (hs.trans hsession.symm))
  refine ⟨⟨?_, ?_, ?_, ?_, ?_, ?_, ?_⟩, hA⟩
  · intro q found hfound
    obtain ⟨rfl, rfl⟩ | ⟨_, hold⟩ := hback q found hfound
    · exact hR.known _ row hrow
    · exact hR.known q found hold
  · intro q p found other hfound hother hfa hoa hs
    obtain ⟨rfl, rfl⟩ | ⟨hq, hold⟩ := hback q found hfound
    · obtain ⟨rfl, rfl⟩ | ⟨hp, hold'⟩ := hback p other hother
      · rfl
      · exact absurd (hs.symm.trans (hsession'.trans hsession)) (hlater p other hp hold' hoa)
    · obtain ⟨rfl, rfl⟩ | ⟨hp, hold'⟩ := hback p other hother
      · exact absurd (hs.trans (hsession'.trans hsession)) (hlater q found hq hold hfa)
      · exact hR.active q p found other hold hold' hfa hoa hs
  · intro q found hfound hr
    obtain ⟨rfl, rfl⟩ | ⟨hq, hold⟩ := hback q found hfound
    · rw [hepoch', hsession', hsession]
      simp [committed]
    · have hne := hlater q found hq hold (by simp [RunRow.Active, hr])
      simp only [committed, Function.update_of_ne hne]
      exact hR.current q found hold hr
  · intro q found token hfound ht
    obtain ⟨rfl, rfl⟩ | ⟨_, hold⟩ := hback q found hfound
    · exact hrunning
    · exact hR.leased q found token hold ht
  · intro other hother
    obtain rfl | hold := List.mem_cons.mp hother
    · refine ⟨htoken, ?_⟩
      intro found hfound _
      obtain ⟨_, rfl⟩ | ⟨hq, _⟩ := hback _ found hfound
      · exact ⟨hsession'.trans hsession, hepoch'⟩
      · exact absurd rfl hq
    · obtain ⟨hdrawn, hrun⟩ := hR.claimed other hold
      refine ⟨hdrawn, ?_⟩
      intro found hfound ht
      obtain ⟨hid, rfl⟩ | ⟨_, hold'⟩ := hback _ found hfound
      · rw [htoken'] at ht
        exact absurd (Option.some.inj ht).symm (hfresh other hold hid)
      · exact hrun found hold' ht
  · intro i item hitem
    rw [hitems] at hitem
    obtain ⟨hi, hp⟩ := hR.inserted i item hitem
    refine ⟨hi, ?_⟩
    obtain ⟨found, hfound, h'⟩ := published_update new hR hno hitem
    exact ⟨found, by rw [hruns]; exact hfound, h'⟩
  · exact fun other hother => (hR.itemClaimed other hother).advance hA

/-- The commit of a publication, which is the last thing its run's lease is good for. -/
theorem published_rows (hR : Rows s) {sessionId : SessionId} {fence : SyncWriteFence}
    {items : List (ItemId × SyncItemRow)} (h : Holds s (.published sessionId fence new items)) :
    Rows (committed s (.published sessionId fence new items)) ∧
      Advance s (committed s (.published sessionId fence new items)) := by
  obtain ⟨⟨row, now, hrow, ⟨hsession, howned, hepoch⟩, hnew⟩, hids⟩ := h
  have hno : ¬ HasItems s fence.syncRunId := leased_no_items hR hrow (owned_held howned)
  have hleased : Leased row new := by
    obtain ⟨rfl, rfl⟩ | ⟨discovered, scheduled, rfl, _, _⟩ := hnew
    · exact deferred_leased howned
    · refine ⟨howned.1, owned_held howned, rfl, fun _ => rfl, ?_⟩
      intro token ht
      cases ht
  have hitems : ∀ p ∈ items, p.2.syncRunId = fence.syncRunId ∧ new.run.leaseToken = none ∧
      new.run.leaseExpiresAt = none ∧ new.run.status = .running := by
    intro p hp
    obtain ⟨rfl, rfl⟩ | ⟨discovered, scheduled, rfl, hz, hitem⟩ := hnew
    · cases hp
    · refine ⟨(hitem p hp).1, rfl, rfl, ?_⟩
      have hne : scheduled ≠ 0 := by
        rintro hs
        rw [hz hs] at hp
        cases hp
      simp only [published, publishedRun, hne, if_false]
      exact howned.1
  obtain ⟨hR', hA⟩ := leased_rows hR hrow hleased
  have hruns : (committed s (.published sessionId fence new items)).runs =
      Function.update s.runs fence.syncRunId (some new) := by
    funext q
    by_cases hq : q = fence.syncRunId
    · subst hq
      simp [committed, Tx.runWrites]
    · simp [committed, Tx.runWrites, List.lookup_cons, beq_eq_false_iff_ne.mpr hq, hq]
  have hback : ∀ i item, (committed s (.published sessionId fence new items)).items i = some item →
      s.items i = some item ∨ (i, item) ∈ items := by
    intro i item hitem
    simp only [committed, Tx.itemWrites] at hitem
    cases hl : items.lookup i with
    | some found =>
      rw [hl] at hitem
      cases hitem
      exact .inr (lookup_mem hl)
    | none =>
      rw [hl] at hitem
      exact .inl hitem
  have hkept : ∀ i item, s.items i = some item →
      (committed s (.published sessionId fence new items)).items i = some item := by
    intro i item hitem
    simp only [committed, Tx.itemWrites]
    cases hl : items.lookup i with
    | some found => exact absurd (hR.inserted i item hitem).1 (hids _ (lookup_mem hl)).2
    | none => exact hitem
  have hA' : Advance s (committed s (.published sessionId fence new items)) := by
    refine ⟨Nat.le_refl _, fun i hi => List.mem_append_left _ hi, ?_, ?_, ?_, ?_, ?_,
      fun _ hc => .inl hc, fun _ hc => hc⟩
    · intro i hi
      obtain hi | hi := List.mem_append.mp hi
      · exact .inl hi
      · obtain ⟨p, hp, rfl⟩ := List.mem_map.mp hi
        by_cases hs : p.1 ∈ s.itemIds
        · exact .inl hs
        · refine .inr ?_
          have hnone : s.items p.1 = none := by
            cases hx : s.items p.1 with
            | none => rfl
            | some item => exact absurd (hR.inserted _ item hx).1 hs
          rw [hnone]
          simp only [committed, Tx.itemWrites, ne_eq, Option.or_eq_none_iff, not_and]
          intro hl
          exact absurd (List.lookup_eq_none_iff.mp hl p hp) (by simp)
    · intro i item hitem
      obtain hold | hmem := hback i item hitem
      · exact .inl ⟨item, hold, rfl, id⟩
      · exact .inr ⟨(hids _ hmem).2, by rw [(hitems _ hmem).1]; exact hno⟩
    · rw [hruns]
      exact hA.gone
    · rw [hruns]
      exact hA.session
    · rw [hruns]
      intro q old hold hi
      obtain hn | ⟨_, found⟩ := hA.settled q old hold hi
      · exact .inl hn
      · obtain ⟨i, item, hitem, heq⟩ := hi
        exact .inr ⟨⟨i, item, hkept i item hitem, heq⟩, found⟩
  refine ⟨⟨?_, ?_, ?_, ?_, ?_, ?_, ?_⟩, hA'⟩
  · rw [hruns]
    exact hR'.known
  · rw [hruns]
    exact hR'.active
  · rw [hruns]
    exact hR'.current
  · rw [hruns]
    exact hR'.leased
  · rw [hruns]
    exact hR'.claimed
  · intro i item hitem
    obtain hold | hmem := hback i item hitem
    · obtain ⟨hi, found, hfound, h'⟩ := hR'.inserted i item hold
      exact ⟨List.mem_append_left _ hi, found, by rw [hruns]; exact hfound, h'⟩
    · obtain ⟨hrun, htoken, hexpires, hstatus⟩ := hitems _ hmem
      refine ⟨List.mem_append_right _ (List.mem_map.mpr ⟨_, hmem, rfl⟩), new, ?_, htoken, hexpires,
        by rw [hstatus]; simp, fun _ => hstatus⟩
      simp only at hrun
      rw [hruns, hrun, Function.update_self]
  · exact fun claim hclaim => (hR.itemClaimed claim hclaim).advance hA'

theorem refreshed_run {aggregate : Aggregate} (h : new = refreshed now aggregate row) :
    new.run.sessionId = row.run.sessionId ∧ new.run.syncEpoch = row.run.syncEpoch ∧
      new.run.leaseToken = row.run.leaseToken ∧ new.run.leaseExpiresAt = row.run.leaseExpiresAt ∧
      (new.run.status = row.run.status ∨
        aggregate.remaining = 0 ∧ new.run.status ∈ [.completed, .failed]) := by
  rw [h]
  refine ⟨rfl, rfl, rfl, rfl, ?_⟩
  by_cases hz : 0 < aggregate.remaining
  · exact .inl (by simp [refreshed, hz])
  · refine .inr ⟨by omega, ?_⟩
    simp only [refreshed, hz, if_false]
    split <;> simp

section Settled

variable {items : List (ItemId × SyncItemRow)} {done : List (RunId × RunRow)}

/-- The commit of a transition of items, with the runs it has refreshed. -/
def settled (s : State) (items : List (ItemId × SyncItemRow)) (done : List (RunId × RunRow)) :
    State :=
  { s with
    runs := fun r => (done.lookup r).or (s.runs r)
    items := fun i => (items.lookup i).or (s.items i) }

/-- An item of the run was there before, and was not terminal if it is not terminal now. -/
theorem settled_item (hw : ∀ i new, items.lookup i = some new → Written s i new)
    {item : SyncItemRow} (hitem : (settled s items done).items i = some item) :
    ∃ old, s.items i = some old ∧ item.syncRunId = old.syncRunId ∧
      (¬ item.Terminal → ¬ old.Terminal) ∧ (old.Terminal → item.Terminal) ∧
      (items.lookup i).getD old = item := by
  simp only [settled] at hitem
  cases hl : items.lookup i with
  | some found =>
    rw [hl] at hitem
    cases hitem
    obtain ⟨old, hold, hterminal, heq⟩ := hw i item hl
    exact ⟨old, hold, heq, fun _ => hterminal, fun ht => absurd ht hterminal, rfl⟩
  | none =>
    rw [hl] at hitem
    exact ⟨item, hitem, rfl, id, id, rfl⟩

theorem settled_keeps_item (done : List (RunId × RunRow))
    (hw : ∀ i new, items.lookup i = some new → Written s i new)
    {item : SyncItemRow} (hitem : s.items i = some item) :
    ∃ new, (settled s items done).items i = some new ∧ new.syncRunId = item.syncRunId := by
  simp only [settled]
  cases hl : items.lookup i with
  | some found =>
    obtain ⟨old, hold, _, heq⟩ := hw i found hl
    rw [hitem] at hold
    cases hold
    exact ⟨found, rfl, heq⟩
  | none => exact ⟨item, by simp [hitem], rfl⟩

/-- A run keeps its session, epoch and lease, and ends only where all its items are terminal. -/
theorem settled_run (hw : ∀ i new, items.lookup i = some new → Written s i new)
    (hdone : ∀ r new, done.lookup r = some new → Refreshed s items r new)
    (hnew : (settled s items done).runs r = some new) :
    ∃ row, s.runs r = some row ∧
      new.run.sessionId = row.run.sessionId ∧ new.run.syncEpoch = row.run.syncEpoch ∧
      new.run.leaseToken = row.run.leaseToken ∧ new.run.leaseExpiresAt = row.run.leaseExpiresAt ∧
      (new.run.status = row.run.status ∨ new.run.status ∈ [.completed, .failed] ∧
        HasItems s r ∧ Finished s items r) := by
  simp only [settled] at hnew
  cases hl : done.lookup r with
  | some found =>
    rw [hl] at hnew
    cases hnew
    obtain ⟨row, now, aggregate, hrow, heq, hwrites, hfinished⟩ := hdone r new hl
    obtain ⟨h₁, h₂, h₃, h₄, h₅⟩ := refreshed_run heq
    refine ⟨row, hrow, h₁, h₂, h₃, h₄, h₅.imp_right ?_⟩
    exact fun ⟨hz, hs⟩ => ⟨hs, writes_hasItems hw hwrites, hfinished hz⟩
  | none =>
    rw [hl] at hnew
    exact ⟨new, hnew, rfl, rfl, rfl, rfl, .inl rfl⟩

theorem active_before (hs : new.run.status = row.run.status ∨
    new.run.status ∈ [.completed, .failed]) (ha : new.Active) : row.Active := by
  unfold RunRow.Active at ha ⊢
  obtain hs | hs := hs
  · rwa [← hs]
  · simp only [List.mem_cons, List.not_mem_nil, or_false] at hs ha
    obtain hs | hs := hs <;> rw [hs] at ha <;> simp at ha

theorem settled_advance (hw : ∀ i new, items.lookup i = some new → Written s i new)
    (hdone : ∀ r new, done.lookup r = some new → Refreshed s items r new) :
    Advance s (settled s items done) := by
  refine ⟨Nat.le_refl _, fun _ hi => hi, fun _ hi => .inl hi, ?_, ?_, ?_, ?_, fun _ hc => .inl hc,
    fun _ hc => hc⟩
  · intro i item hitem
    obtain ⟨old, hold, heq, _, hterminal, _⟩ := settled_item hw hitem
    exact .inl ⟨old, hold, heq, hterminal⟩
  · intro r _ hr
    cases hx : (settled s items done).runs r with
    | none => rfl
    | some new =>
      obtain ⟨row, hrow, _⟩ := settled_run hw hdone hx
      rw [hr] at hrow
      cases hrow
  · intro r row new hrow hnew
    obtain ⟨old, hold, hs, _⟩ := settled_run hw hdone hnew
    rw [hrow] at hold
    cases hold
    exact hs
  · intro r row hrow hi
    cases hx : (settled s items done).runs r with
    | none => exact .inl rfl
    | some new =>
      obtain ⟨old, hold, _, he, _⟩ := settled_run hw hdone hx
      rw [hrow] at hold
      cases hold
      obtain ⟨i, item, hitem, heq⟩ := hi
      obtain ⟨found, hfound, heq'⟩ := settled_keeps_item done hw hitem
      exact .inr ⟨⟨i, found, hfound, heq'.trans heq⟩, new, rfl, he⟩

/-- The run of an item is still there as the item has it, and RUNNING for an open item. -/
theorem settled_published (hR : Rows s)
    (hw : ∀ i new, items.lookup i = some new → Written s i new)
    (hdone : ∀ r new, done.lookup r = some new → Refreshed s items r new) {item : SyncItemRow}
    (hitem : (settled s items done).items i = some item) :
    i ∈ s.itemIds ∧ Published (settled s items done) item := by
  obtain ⟨old, hold, heq, hterminal, _, hgot⟩ := settled_item hw hitem
  obtain ⟨hi, row, hrow, htoken, hexpires, hp, hrunning⟩ := hR.inserted i old hold
  refine ⟨hi, ?_⟩
  unfold Published
  rw [heq]
  cases hx : (settled s items done).runs old.syncRunId with
  | none =>
    simp only [settled, Option.or_eq_none_iff] at hx
    rw [hrow] at hx
    cases hx.2
  | some new =>
    obtain ⟨row', hrow', _, _, h₃, h₄, hst⟩ := settled_run hw hdone hx
    rw [hrow] at hrow'
    cases hrow'
    refine ⟨new, rfl, by rw [h₃, htoken], by rw [h₄, hexpires], ?_, ?_⟩
    · obtain hst | ⟨hst, _⟩ := hst
      · rwa [hst]
      · intro hn
        rw [hn] at hst
        simp at hst
    · intro hnt
      obtain hst | ⟨_, _, hfinished⟩ := hst
      · rw [hst]
        exact hrunning (hterminal hnt)
      · -- a run that has ended has no open item
        have hended := hfinished i old hold rfl
        rw [hgot] at hended
        exact absurd hended hnt

theorem settled_rows (hR : Rows s) (items : List (ItemId × SyncItemRow))
    (done : List (RunId × RunRow)) (hw : ∀ i new, items.lookup i = some new → Written s i new)
    (hdone : ∀ r new, done.lookup r = some new → Refreshed s items r new) :
    Rows (settled s items done) ∧ Advance s (settled s items done) := by
  have hA := settled_advance hw hdone
  refine ⟨⟨?_, ?_, ?_, ?_, ?_, fun i item hitem => settled_published hR hw hdone hitem,
    fun claim hclaim => (hR.itemClaimed claim hclaim).advance hA⟩, hA⟩
  · intro r new hnew
    obtain ⟨row, hrow, _⟩ := settled_run hw hdone hnew
    exact hR.known r row hrow
  · intro r q new other hnew hother ha ha' hs
    obtain ⟨row, hrow, h₁, _, _, _, hst⟩ := settled_run hw hdone hnew
    obtain ⟨row', hrow', h₁', _, _, _, hst'⟩ := settled_run hw hdone hother
    exact hR.active r q row row' hrow hrow' (active_before (hst.imp_right And.left) ha)
      (active_before (hst'.imp_right And.left) ha') (by rw [← h₁, ← h₁', hs])
  · intro r new hnew hr
    obtain ⟨row, hrow, h₁, h₂, _, _, hst⟩ := settled_run hw hdone hnew
    obtain hst | ⟨hst, _⟩ := hst
    · rw [h₁, h₂]
      exact hR.current r row hrow (hst.symm.trans hr)
    · rw [hr] at hst
      simp at hst
  · intro r new token hnew ht
    obtain ⟨row, hrow, _, _, h₃, _, hst⟩ := settled_run hw hdone hnew
    obtain hst | ⟨_, hi, _⟩ := hst
    · rw [hst]
      exact hR.leased r row token hrow (h₃ ▸ ht)
    · exact absurd hi (leased_no_items hR hrow (.inl (by rw [← h₃, ht]; simp)))
  · intro claim hclaim
    obtain ⟨hdrawn, hclaimed⟩ := hR.claimed claim hclaim
    refine ⟨hdrawn, fun new hnew ht => ?_⟩
    obtain ⟨row, hrow, h₁, h₂, h₃, _⟩ := settled_run hw hdone hnew
    rw [h₁, h₂]
    exact hclaimed row hrow (h₃ ▸ ht)

end Settled

/-- What a commit does to the committed rows. -/
theorem committed_rows (hR : Rows s) (hk : k.Done) (h : Holds s k) :
    Rows (committed s k) ∧ Advance s (committed s k) := by
  cases k with
  | claimed claim new => exact claimed_rows hR h
  | owned table sessionId fence =>
    exact settled_rows hR [] [] (fun _ _ hl => by cases hl) fun _ _ hl => by cases hl
  | published sessionId fence new items => exact published_rows hR h
  | detailed claim new =>
    refine settled_rows hR [(claim.id, new)] [] ?_ fun _ _ hl => by cases hl
    intro i row hl
    obtain ⟨rfl, rfl⟩ := Prod.mk.inj (List.mem_singleton.mp (lookup_mem hl))
    exact h.2
  | itemClaimed claim new =>
    have hbase := settled_rows hR [(claim.id, new)] [] (by
      intro i row hl
      obtain ⟨rfl, rfl⟩ := Prod.mk.inj (List.mem_singleton.mp (lookup_mem hl))
      exact h.2) (fun _ _ hl => by cases hl)
    exact ⟨hbase.1.grant (h.1.advance hbase.2), hbase.2.grant⟩
  | renewed claim new =>
    refine settled_rows hR [(claim.id, new)] [] ?_ fun _ _ hl => by cases hl
    intro i row hl
    obtain ⟨rfl, rfl⟩ := Prod.mk.inj (List.mem_singleton.mp (lookup_mem hl))
    exact h.2
  | settling now claim items waiting done =>
    exact settled_rows hR items done h.1 h.2.2.2
  | _ => exact absurd hk (by simp [Tx.Done])

theorem hasStatus_false (hR : Rows s) {sessionId : SessionId}
    {statuses : List GatewayDiscovery.SyncRunStatus}
    (h : s.hasStatus sessionId statuses = false) {row : RunRow} (hrow : s.runs r = some row)
    (hs : row.run.sessionId = sessionId) : row.run.status ∉ statuses := by
  intro hmem
  have := List.any_eq_false.mp h r (hR.known r row hrow).2
  simp [hrow, hs, hmem] at this

theorem created_rows (hI : Inv s) (now : ℕ) {sessionId : SessionId} (mode : GatewaySyncMode)
    (hn : s.hasStatus sessionId [.pending, .running] = false) {v : State}
    (hv : v = { s with
      drawn := s.drawn + 1
      runs := Function.update s.runs s.drawn (some (newRun now sessionId mode))
      runIds := s.drawn :: s.runIds }) : Rows v ∧ Advance s v := by
  have hR := hI.rows
  have hback : ∀ r row, v.runs r = some row →
      (r = s.drawn ∧ row = newRun now sessionId mode) ∨ s.runs r = some row := by
    intro r row hrow
    rw [hv] at hrow
    by_cases hr : r = s.drawn
    · subst hr
      simp only [Function.update_self, Option.some.injEq] at hrow
      exact .inl ⟨rfl, hrow.symm⟩
    · simp only [Function.update_of_ne hr] at hrow
      exact .inr hrow
  have hkept : ∀ r row, s.runs r = some row → v.runs r = some row := by
    intro r row hrow
    have hne : r ≠ s.drawn := Nat.ne_of_lt (hR.known r row hrow).1
    rw [hv]
    simp [hne, hrow]
  have hfields : v.drawn = s.drawn + 1 ∧ v.fences = s.fences ∧ v.runIds = s.drawn :: s.runIds ∧
      v.items = s.items ∧ v.itemIds = s.itemIds ∧ v.runClaims = s.runClaims ∧
      v.itemClaims = s.itemClaims := by
    rw [hv]
    exact ⟨rfl, rfl, rfl, rfl, rfl, rfl, rfl⟩
  obtain ⟨hd, hf, hri, hit, hii, hrc, hic⟩ := hfields
  have hitems : ∀ r, HasItems s r → HasItems v r := by
    rintro r ⟨i, item, hitem, heq⟩
    exact ⟨i, item, by rw [hit, hitem], heq⟩
  have hA : Advance s v := by
    refine ⟨by omega, by rw [hii]; exact fun _ hi => hi, by rw [hii]; exact fun _ hi => .inl hi,
      by rw [hit]; exact fun i item hitem => .inl ⟨item, hitem, rfl, id⟩, ?_, ?_, ?_,
      by rw [hrc]; exact fun _ hc => .inl hc, by rw [hic]; exact fun _ hc => hc⟩
    · intro r hr hnone
      rw [hv]
      simp [Nat.ne_of_lt hr, hnone]
    · intro r row new hrow hnew
      rw [hkept r row hrow] at hnew
      cases hnew
      rfl
    · exact fun r row hrow hi => .inr ⟨hitems r hi, row, hkept r row hrow, rfl⟩
  refine ⟨⟨?_, ?_, ?_, ?_, ?_, ?_, ?_⟩, hA⟩
  · intro r row hrow
    rw [hd, hri]
    obtain ⟨rfl, _⟩ | hold := hback r row hrow
    · exact ⟨Nat.lt_succ_self _, List.mem_cons_self⟩
    · have := hR.known r row hold
      exact ⟨Nat.lt_succ_of_lt this.1, List.mem_cons_of_mem _ this.2⟩
  · have hfree : ∀ r row, s.runs r = some row → row.Active → row.run.sessionId ≠ sessionId :=
      fun r row hrow ha hs => hasStatus_false hR hn hrow hs ha
    intro r q row other hrow hother ha ha' hs
    obtain ⟨rfl, rfl⟩ | hold := hback r row hrow
    · obtain ⟨rfl, _⟩ | hold' := hback q other hother
      · rfl
      · exact absurd hs.symm (hfree q other hold' ha')
    · obtain ⟨rfl, rfl⟩ | hold' := hback q other hother
      · exact absurd hs (hfree r row hold ha)
      · exact hR.active r q row other hold hold' ha ha' hs
  · intro r row hrow hr
    obtain ⟨_, rfl⟩ | hold := hback r row hrow
    · cases hr
    · rw [hf]
      exact hR.current r row hold hr
  · intro r row token hrow ht
    obtain ⟨_, rfl⟩ | hold := hback r row hrow
    · cases ht
    · exact hR.leased r row token hold ht
  · rw [hrc, hd]
    intro claim hclaim
    obtain ⟨hdrawn, hclaimed⟩ := hR.claimed claim hclaim
    refine ⟨by omega, ?_⟩
    intro row hrow ht
    obtain ⟨_, rfl⟩ | hold := hback _ row hrow
    · cases ht
    · exact hclaimed row hold ht
  · rw [hit, hii]
    intro i item hitem
    obtain ⟨hi, row, hrow, h'⟩ := hR.inserted i item hitem
    exact ⟨hi, row, hkept _ row hrow, h'⟩
  · rw [hic]
    exact fun claim hclaim => (hR.itemClaimed claim hclaim).advance hA

theorem deleted_rows (hR : Rows s) (id : RunId) {v : State}
    (hv : v = { s with
      runs := Function.update s.runs id none
      items := fun i => (s.items i).filter (·.syncRunId ≠ id) }) : Rows v ∧ Advance s v := by
  have hback : ∀ r row, v.runs r = some row → r ≠ id ∧ s.runs r = some row := by
    intro r row hrow
    rw [hv] at hrow
    by_cases hr : r = id
    · simp [hr] at hrow
    · exact ⟨hr, by simpa [hr] using hrow⟩
  have hkept : ∀ r, r ≠ id → v.runs r = s.runs r := by
    intro r hr
    rw [hv]
    simp [hr]
  have hitem : ∀ i item, v.items i = some item ↔ s.items i = some item ∧ item.syncRunId ≠ id := by
    intro i item
    rw [hv]
    simp [Option.filter_eq_some_iff]
  have hfields : v.drawn = s.drawn ∧ v.fences = s.fences ∧ v.runIds = s.runIds ∧
      v.itemIds = s.itemIds ∧ v.runClaims = s.runClaims ∧ v.itemClaims = s.itemClaims := by
    rw [hv]
    exact ⟨rfl, rfl, rfl, rfl, rfl, rfl⟩
  obtain ⟨hd, hf, hri, hii, hrc, hic⟩ := hfields
  have hA : Advance s v := by
    refine ⟨by rw [hd], by rw [hii]; exact fun _ hi => hi, by rw [hii]; exact fun _ hi => .inl hi,
      fun i item h => .inl ⟨item, ((hitem i item).mp h).1, rfl, fun ht => ht⟩, ?_, ?_, ?_,
      by rw [hrc]; exact fun _ hc => .inl hc, by rw [hic]; exact fun _ hc => hc⟩
    · intro r _ hnone
      cases hx : v.runs r with
      | none => rfl
      | some row =>
        rw [(hback r row hx).2] at hnone
        cases hnone
    · intro r row new hrow hnew
      rw [(hback r new hnew).2] at hrow
      cases hrow
      rfl
    · intro r row hrow hi
      by_cases hr : r = id
      · rw [hv, hr]
        exact .inl (by simp)
      · obtain ⟨i, item, hi, heq⟩ := hi
        exact .inr ⟨⟨i, item, (hitem i item).mpr ⟨hi, by rw [heq]; exact hr⟩, heq⟩, row,
          by rw [hkept r hr, hrow], rfl⟩
  refine ⟨⟨?_, ?_, ?_, ?_, ?_, ?_, ?_⟩, hA⟩
  · intro r row hrow
    rw [hd, hri]
    exact hR.known r row (hback r row hrow).2
  · exact fun r q row other hrow hother =>
      hR.active r q row other (hback r row hrow).2 (hback q other hother).2
  · intro r row hrow
    rw [hf]
    exact hR.current r row (hback r row hrow).2
  · exact fun r row token hrow => hR.leased r row token (hback r row hrow).2
  · rw [hrc, hd]
    exact fun claim hclaim => ⟨(hR.claimed claim hclaim).1,
      fun row hrow => (hR.claimed claim hclaim).2 row (hback _ row hrow).2⟩
  · intro i item h
    obtain ⟨hold, hne⟩ := (hitem i item).mp h
    obtain ⟨hi, row, hrow, h'⟩ := hR.inserted i item hold
    exact ⟨by rw [hii]; exact hi, row, by rw [hkept _ hne, hrow], h'⟩
  · rw [hic]
    exact fun claim hclaim => (hR.itemClaimed claim hclaim).advance hA

end GatewaySyncCommits
