import WaRuntime.DataRetention

/-! Whole retention passes: turns of statements, with the other transactions in between. -/
namespace RetentionPasses

open CanonicalOrders ReferentialActions DataRetention

section Turns

/-- What the statements of a turn leave to the rest of the program. -/
structure WellFormed (db : Database) : Prop where
  nodup : db.rows.Nodup
  consistent : Consistent foreignKeys db.rows
  ids : DistinctIds db

/-- Statements one after the other, each on what the other transactions have left it. -/
inductive Ran (collation : TotalOrder String) (c : Plan) (turn : Turn) (counts : Statement → ℕ) :
    List Statement → Database → Database → Prop where
  | nil (db : Database) : Ran collation c turn counts [] db db
  | cons (statement : Statement) (rest : List Statement) (db mid db' : Database)
      (first : Removes collation c statement (turn.locked statement) (turn.others statement db) mid
        (counts statement))
      (others : Ran collation c turn counts rest mid db') :
      Ran collation c turn counts (statement :: rest) db db'

/-- Turns from the `i`th on, in each of which some batch was full; `deleted` are their counts. -/
inductive FullTurns (collation : TotalOrder String) (c : Plan) (turns : ℕ → Turn) :
    ℕ → Database → ℕ → Database → (Statement → ℕ) → Prop where
  | none (i : ℕ) (db : Database) : FullTurns collation c turns i db i db fun _ => 0
  | next (i j : ℕ) (db mid db' : Database) (counts deleted : Statement → ℕ)
      (ran : Ran collation c (turns i) counts Statement.all db mid)
      (full : ∃ statement, c.limit ≤ counts statement)
      (rest : FullTurns collation c turns (i + 1) mid j db' deleted) :
      FullTurns collation c turns i db j db' fun statement => counts statement + deleted statement

/-- How a pass ends: with a turn that fills no batch, or after full turns only, when the batches or
the time are used up. -/
inductive Ends (collation : TotalOrder String) (c : Plan) (turns : ℕ → Turn) (n : ℕ)
    (mid : Database) (deleted : Statement → ℕ) : Database → RetentionResult → Prop where
  | drained (db' : Database) (counts : Statement → ℕ) (hn : n < c.maxBatches)
      (htime : (turns n).clock < c.deadline)
      (ran : Ran collation c (turns n) counts Statement.all mid db')
      (short : ∀ statement, counts statement < c.limit) :
      Ends collation c turns n mid deleted db'
        ⟨fun statement => deleted statement + counts statement, n + 1, false⟩
  | exhausted (h : n = c.maxBatches ∨ n < c.maxBatches ∧ c.deadline ≤ (turns n).clock) :
      Ends collation c turns n mid deleted mid ⟨deleted, n, true⟩

variable {collation : TotalOrder String} {c : Plan} {turn : Turn} {turns : ℕ → Turn}
  {statements : List Statement} {statement : Statement} {db db' mid : Database}
  {locked : StoredRow → Bool} {counts deleted : Statement → ℕ} {count i j : ℕ}

theorem mem_all (statement : Statement) : statement ∈ Statement.all := by
  cases statement <;> decide

theorem removes_wellFormed (h : Removes collation c statement locked db db' count)
    (hdb : WellFormed db) : WellFormed db' := by
  have hsub := removes_subset h
  refine ⟨?_, h.consistent hdb.consistent, fun sessionId o ho p hp => ?_⟩
  · obtain ⟨gone, rfl, _⟩ := h.filtered
    exact hdb.nodup.filter _
  · exact hdb.ids sessionId o (mem_contacts.mpr (hsub (mem_contacts.mp ho))) p
      (mem_contacts.mpr (hsub (mem_contacts.mp hp)))

theorem ran_wellFormed (hothers : ∀ statement db, WellFormed db → WellFormed (turn.others statement db))
    (h : Ran collation c turn counts statements db db') (hdb : WellFormed db) : WellFormed db' := by
  induction h with
  | nil => exact hdb
  | cons statement rest db mid db' first _ ih =>
    exact ih (removes_wellFormed first (hothers statement db hdb))

variable (collation c turn) in
theorem runStatements_ran (hnodup : statements.Nodup) (db : Database) (current : Statement → ℕ) :
    ∃ db' counts, runStatements collation c turn statements db current = some (db', counts) ∧
      Ran collation c turn counts statements db db' ∧
      ∀ statement ∉ statements, counts statement = current statement := by
  induction statements generalizing db current with
  | nil => exact ⟨db, current, rfl, .nil db, fun _ _ => rfl⟩
  | cons statement rest ih =>
    obtain ⟨hnot, hrest⟩ := List.nodup_cons.mp hnodup
    obtain ⟨mid, count, hrun, hremoves⟩ := run_removes collation c
      (turn.others statement db) (turn.locked statement) statement
    obtain ⟨db', counts, hran, htrace, hother⟩ := ih hrest mid (Function.update current statement count)
    refine ⟨db', counts, ?_, .cons statement rest db mid db' ?_ htrace, fun other hother' => ?_⟩
    · rw [runStatements, hrun]
      exact hran
    · rwa [hother statement hnot, Function.update_self]
    · obtain ⟨hne, hnotin⟩ := List.ne_and_not_mem_of_not_mem_cons hother'
      rw [hother other hnotin, Function.update_of_ne hne]

variable (collation c turn) in
theorem transaction_ran (db : Database) : ∃ db' counts,
    transaction collation c turn db = some (db', counts) ∧
      Ran collation c turn counts Statement.all db db' := by
  obtain ⟨db', counts, hrun, hran, _⟩ := runStatements_ran collation c turn
    (by decide : Statement.all.Nodup) db fun _ => 0
  exact ⟨db', counts, hrun, hran⟩

theorem loop_turn {left : ℕ} {total : RetentionResult}
    (htime : ¬ c.deadline ≤ (turns total.batches).clock)
    (hrun : transaction collation c (turns total.batches) db = some (mid, counts)) :
    loop collation c turns (left + 1) db total =
      if ∀ statement ∈ Statement.all, counts statement < c.limit then
        some (mid,
          { total with
            deleted := fun statement => total.deleted statement + counts statement
            batches := total.batches + 1 }, true)
      else
        loop collation c turns left mid
          { total with
            deleted := fun statement => total.deleted statement + counts statement
            batches := total.batches + 1 } := by
  rw [loop, if_neg htime, hrun]
  rfl

variable (collation c turns) in
/-- The loop, from a turn on. -/
theorem loop_ends (left : ℕ) (db : Database) (total : RetentionResult)
    (hleft : total.batches + left = c.maxBatches) (hfresh : total.capacityExhausted = false) :
    ∃ n mid deleted db' result, FullTurns collation c turns total.batches db n mid deleted ∧
      Ends collation c turns n mid
        (fun statement => total.deleted statement + deleted statement) db' result ∧
      (loop collation c turns left db total).map (fun (db, total, drained) =>
        if drained = false ∧ total.batches = c.maxBatches then
          (db, { total with capacityExhausted := true })
        else (db, total)) = some (db', result) := by
  induction left generalizing db total with
  | zero =>
    have hall : total.batches = c.maxBatches := by omega
    refine ⟨total.batches, db, fun _ => 0, db, ⟨total.deleted, total.batches, true⟩, .none _ db,
      ?_, ?_⟩
    · exact .exhausted (.inl hall)
    · simp [loop, hall]
  | succ left ih =>
    have hmore : total.batches < c.maxBatches := by omega
    by_cases htime : c.deadline ≤ (turns total.batches).clock
    · refine ⟨total.batches, db, fun _ => 0, db, ⟨total.deleted, total.batches, true⟩, .none _ db,
        .exhausted (.inr ⟨hmore, htime⟩), ?_⟩
      simp [loop, htime]
    · obtain ⟨mid, counts, hrun, hran⟩ := transaction_ran collation c
        (turns total.batches) db
      by_cases hshort : ∀ statement ∈ Statement.all, counts statement < c.limit
      · refine ⟨total.batches, db, fun _ => 0, mid, _, .none _ db,
          .drained mid counts hmore (by omega) hran fun statement =>
            hshort statement (mem_all statement), ?_⟩
        rw [loop_turn htime hrun, if_pos hshort]
        simp [hfresh]
      · obtain ⟨n, last, deleted, db', result, hturns, hends, heq⟩ := ih mid
          { total with
            deleted := fun statement => total.deleted statement + counts statement
            batches := total.batches + 1 } (by simp only; omega) hfresh
        refine ⟨n, last, _, db', result, .next _ _ _ _ _ counts deleted hran ?_ hturns, ?_, ?_⟩
        · push Not at hshort
          obtain ⟨statement, _, hfull⟩ := hshort
          exact ⟨statement, hfull⟩
        · simpa only [Nat.add_assoc] using hends
        · rw [← heq]
          rw [loop_turn htime hrun, if_neg hshort]

theorem turns_wellFormed
    (hothers : ∀ n statement db, WellFormed db → WellFormed ((turns n).others statement db))
    (h : FullTurns collation c turns i db j db' deleted) (hdb : WellFormed db) : WellFormed db' := by
  induction h with
  | none => exact hdb
  | next i j db mid db' counts deleted ran _ _ ih => exact ih (ran_wellFormed (hothers i) ran hdb)

theorem ends_wellFormed {result : RetentionResult}
    (hothers : ∀ n statement db, WellFormed db → WellFormed ((turns n).others statement db))
    (h : Ends collation c turns i mid deleted db' result) (hmid : WellFormed mid) :
    WellFormed db' := by
  cases h with
  | drained _ counts _ _ ran _ => exact ran_wellFormed (hothers i) ran hmid
  | exhausted => exact hmid

theorem turns_mono (h : FullTurns collation c turns i db j db' deleted) : i ≤ j := by
  induction h with
  | none => exact Nat.le_refl _
  | next _ _ _ _ _ _ _ _ _ _ ih => omega

/-- What the statements of a pass that is alone do to the database. -/
structure Shrinks (collation : TotalOrder String) (c : Plan) (db db' : Database) : Prop where
  wellFormed : WellFormed db'
  subset : db'.rows ⊆ db.rows
  resolutions : db'.resolutions = db.resolutions
  works : db'.works = db.works
  named : db'.named = db.named
  outlived : ∀ row ∈ db.rows, row ∉ db'.rows → Outlived collation c db row
  contacts : ∀ sessionId, ∃ batches, db'.contacts sessionId =
    RetainedObservations.retain collation batches (db.contacts sessionId)

theorem shrinks_refl (hdb : WellFormed db) : Shrinks collation c db db :=
  ⟨hdb, List.Subset.refl _, rfl, rfl, rfl, fun _ hrow hnot => absurd hrow hnot,
    fun _ => ⟨[], rfl⟩⟩

theorem due_back {row : StoredRow} (h : Shrinks collation c db db')
    (hkept : ∀ delivery, StoredRow.campaignDelivery delivery ∈ db.rows →
      StoredRow.campaignDelivery delivery ∈ db'.rows)
    (hdue : Due collation c db' statement row) : Due collation c db statement row := by
  cases row with
  | messageJob job =>
    cases statement with
    | messageJobs =>
      obtain ⟨hstatus, hold, hnone⟩ := hdue
      refine ⟨hstatus, hold, fun delivery hdelivery => hnone delivery ?_⟩
      exact mem_table.mpr (hkept delivery (mem_table.mp hdelivery))
    | _ => exact hdue
  | contactObservation o =>
    cases statement with
    | contactObservations => exact redundant_back db h.subset h.resolutions h.works h.named hdue
    | _ => exact hdue
  | _ => cases statement <;> exact hdue

/-- What may go later might have gone with what has gone. -/
theorem outlived_back {row : StoredRow} (h : Shrinks collation c db db')
    (hrow : Outlived collation c db' row) : Outlived collation c db row := by
  have hdelivery : ∀ job : MessageJobRow, (∀ delivery, .campaignDelivery delivery ∈ db'.rows →
      delivery.messageJobId = some job.id → Outlived collation c db (.campaignDelivery delivery)) →
      ∀ delivery, .campaignDelivery delivery ∈ db.rows → delivery.messageJobId = some job.id →
        Outlived collation c db (.campaignDelivery delivery) := by
    intro job hleft delivery hin hjob
    by_cases hstays : StoredRow.campaignDelivery delivery ∈ db'.rows
    · exact hleft delivery hstays hjob
    · exact h.outlived _ hin hstays
  induction hrow with
  | due statement row hdue =>
    cases row with
    | messageJob job =>
      cases statement with
      | messageJobs =>
        obtain ⟨hstatus, hold, hnone⟩ := hdue
        exact .job job ⟨hstatus, hold⟩ (hdelivery job fun delivery hin hjob =>
          absurd hjob (hnone delivery (mem_table.mpr hin)))
      | _ => exact hdue.elim
    | contactObservation o =>
      cases statement with
      | contactObservations =>
        exact .due .contactObservations _
          (redundant_back db h.subset h.resolutions h.works h.named hdue)
      | _ => exact hdue.elim
    | _ => exact .due statement _ (by cases statement <;> exact hdue)
  | job job hfinished _ ih => exact .job job hfinished (hdelivery job ih)
  | goes child parent hin hgoes _ ih => exact .goes child parent (h.subset hin) hgoes ih
  | ofEvent child event hin hkeeps hold => exact .ofEvent child event (h.subset hin) hkeeps hold

theorem shrinks_trans (h : Shrinks collation c db mid) (k : Shrinks collation c mid db') :
    Shrinks collation c db db' := by
  refine ⟨k.wellFormed, fun row hrow => h.subset (k.subset hrow),
    k.resolutions.trans h.resolutions, k.works.trans h.works, k.named.trans h.named,
    fun row hrow hgone => ?_, fun sessionId => ?_⟩
  · by_cases hmid : row ∈ mid.rows
    · exact outlived_back h (k.outlived row hmid hgone)
    · exact h.outlived row hrow hmid
  · obtain ⟨first, hfirst⟩ := h.contacts sessionId
    obtain ⟨second, hsecond⟩ := k.contacts sessionId
    refine ⟨first ++ second, ?_⟩
    rw [hsecond, hfirst, RetainedObservations.retain, RetainedObservations.retain,
      RetainedObservations.retain, List.foldl_append]

theorem removes_shrinks (h : Removes collation c statement locked db db' count)
    (hdb : WellFormed db) : Shrinks collation c db db' := by
  have hsub := removes_subset h
  have hwell := removes_wellFormed h hdb
  refine ⟨hwell, hsub, ?_, ?_, ?_, h.outlived, fun sessionId => ?_⟩
  · obtain ⟨gone, rfl, _⟩ := h.filtered
    rfl
  · obtain ⟨gone, rfl, _⟩ := h.filtered
    rfl
  · obtain ⟨gone, rfl, _⟩ := h.filtered
    rfl
  · obtain ⟨b, hb⟩ := contacts_retained h hdb.ids sessionId
    exact ⟨[b], hb⟩

section Alone

variable (hquiet : ∀ n statement db, (turns n).others statement db = db)

include hquiet in
theorem ran_shrinks (h : Ran collation c (turns i) counts statements db db')
    (hdb : WellFormed db) : Shrinks collation c db db' := by
  induction h with
  | nil => exact shrinks_refl hdb
  | cons statement rest db mid db' first _ ih =>
    rw [hquiet] at first
    have hfirst := removes_shrinks first hdb
    exact shrinks_trans hfirst (ih hfirst.wellFormed)

include hquiet in
theorem turns_shrink (h : FullTurns collation c turns i db j db' deleted) (hdb : WellFormed db) :
    Shrinks collation c db db' := by
  induction h with
  | none => exact shrinks_refl hdb
  | next i j db mid db' counts deleted ran _ _ ih =>
    have hfirst := ran_shrinks hquiet ran hdb
    exact shrinks_trans hfirst (ih hfirst.wellFormed)

include hquiet in
/-- The statements after the first one leave the deliveries. -/
theorem ran_keeps_deliveries (h : Ran collation c (turns i) counts statements db db')
    (hnot : .campaignRuns ∉ statements) (delivery : CampaignDeliveryRow)
    (hin : .campaignDelivery delivery ∈ db.rows) : .campaignDelivery delivery ∈ db'.rows := by
  induction h with
  | nil => exact hin
  | cons statement rest db mid db' first _ ih =>
    rw [hquiet] at first
    obtain ⟨hne, hrest⟩ := List.ne_and_not_mem_of_not_mem_cons hnot
    refine ih hrest ?_
    by_contra hgone
    exact hne (first.deliveries delivery hin hgone).symm

include hquiet in
theorem ran_drained (h : Ran collation c (turns i) counts statements db db') (hdb : WellFormed db)
    (htail : .campaignRuns ∉ statements.tail) (hstatement : statement ∈ statements)
    (hshort : counts statement < c.limit) {row : StoredRow} (hrow : row ∈ db'.rows)
    (hdue : Due collation c db' statement row) : (turns i).locked statement row = true := by
  induction h with
  | nil => cases hstatement
  | cons head rest db mid db' first others ih =>
    rw [hquiet] at first
    have hmid := removes_wellFormed first hdb
    rcases List.mem_cons.mp hstatement with rfl | hrest
    · have hlater := ran_shrinks hquiet others hmid
      exact first.drained hshort row (hlater.subset hrow)
        (due_back hlater (ran_keeps_deliveries hquiet others htail) hdue)
    · exact ih hmid (fun hin => htail (List.mem_of_mem_tail hin)) hrest hrow hdue

include hquiet in
theorem ran_length (h : Ran collation c (turns i) counts statements db db') (hdb : WellFormed db)
    (hstatement : statement ∈ statements) : db'.rows.length + counts statement ≤ db.rows.length := by
  induction h with
  | nil => cases hstatement
  | cons head rest db mid db' first others ih =>
    rw [hquiet] at first
    have hmid := removes_wellFormed first hdb
    have hfirst := first.counted hdb.nodup
    rcases List.mem_cons.mp hstatement with rfl | hrest
    · have hlater := ran_shrinks hquiet others hmid
      have hle := ((ran_shrinks hquiet others hmid).wellFormed.nodup.subperm hlater.subset).length_le
      omega
    · have hlater := ih hmid hrest
      omega

include hquiet in
/-- Each full turn deletes as many rows as a batch has. -/
theorem turns_length (h : FullTurns collation c turns i db j db' deleted) (hdb : WellFormed db) :
    db'.rows.length + c.limit * (j - i) ≤ db.rows.length := by
  induction h with
  | none => simp
  | next i j db mid db' counts deleted ran full rest ih =>
    obtain ⟨statement, hfull⟩ := full
    have hfirst := ran_length hquiet ran hdb (mem_all statement)
    have hlater := ih (ran_shrinks hquiet ran hdb).wellFormed
    have hij := turns_mono rest
    have hsucc : c.limit * (j - i) = c.limit * (j - (i + 1)) + c.limit := by
      rw [show j - i = j - (i + 1) + 1 by omega, Nat.mul_succ]
    omega

end Alone

end Turns

section Results

/-- A campaign run with its delivery, whose job is as old, a message with its event, and a run that
is still going on. -/
def exampleRows : List StoredRow :=
  [.campaignRun ⟨1, "session", .completed, 5⟩, .campaignRunTarget ⟨1, "session", "group"⟩,
    .campaignDelivery ⟨1, 1, "group", some 7⟩, .messageJob ⟨7, .sent, 5⟩, .messageAttempt ⟨1, 7⟩,
    .runtimeEvent ⟨"event", 5⟩, .inboundMessage ⟨"session", "message", "event", 500⟩,
    .messageEvent ⟨"event"⟩, .observationIntent ⟨"event"⟩, .campaignRun ⟨2, "session", .running, 5⟩,
    .campaignRunTarget ⟨2, "session", "group"⟩, .campaignDelivery ⟨2, 2, "group", some 8⟩,
    .messageJob ⟨8, .sent, 5⟩]

def exampleDatabase : Database := ⟨exampleRows, fun _ => [], fun _ => [], fun _ => []⟩

def examplePlan : Plan := ⟨100, 100, 100, 100, 100, 10, 3, 1000⟩

def exampleTurns (_ : ℕ) : Turn := ⟨0, fun _ db => db, fun _ _ => false⟩

theorem example_wellFormed : WellFormed exampleDatabase :=
  ⟨by decide, by decide, fun sessionId o ho => by
    simp [exampleDatabase, exampleRows, Database.contacts, observationOf] at ho⟩

/-- A delivery keeps its job. -/
example : delete foreignKeys exampleRows [.messageJob ⟨8, .sent, 5⟩] = none := by decide

variable (collation : TotalOrder String) (c : Plan) (turns : ℕ → Turn)

/-- A pass never fails on a foreign key, whatever the other transactions do between its statements
and have locked. Each statement deletes a batch of rows that are due, and what goes with them, and
where the batch is not full it leaves no row that is due and free. The pass ends after the first
turn without a full batch and reports `capacityExhausted` exactly where it has run out of batches
or time before one. -/
theorem cleanup_accounted {db : Database} (hdb : WellFormed db)
    (hothers : ∀ n statement db, WellFormed db → WellFormed ((turns n).others statement db)) :
    ∃ n mid deleted db' result, cleanup collation c turns db = some (db', result) ∧
      FullTurns collation c turns 0 db n mid deleted ∧
      Ends collation c turns n mid deleted db' result ∧ WellFormed db' := by
  obtain ⟨n, mid, deleted, db', result, hturns, hends, heq⟩ := loop_ends collation c turns
    c.maxBatches db ⟨fun _ => 0, 0, false⟩ (Nat.zero_add _) rfl
  simp only [Nat.zero_add] at hends
  exact ⟨n, mid, deleted, db', result, heq, hturns, hends,
    ends_wellFormed hothers hends (turns_wellFormed hothers hturns hdb)⟩

theorem example_accounted : ∃ n mid deleted db' result,
    cleanup .codePoints examplePlan exampleTurns exampleDatabase = some (db', result) ∧
      FullTurns .codePoints examplePlan exampleTurns 0 exampleDatabase n mid deleted ∧
      Ends .codePoints examplePlan exampleTurns n mid deleted db' result ∧ WellFormed db' :=
  cleanup_accounted .codePoints examplePlan exampleTurns example_wellFormed fun _ _ _ h => h

/-- A pass that is alone deletes only rows that have outlived their retention when it begins, and of
each session's push names what the retention of push names deletes. It leaves nothing that is due
unless somebody has locked it or the capacity is exhausted, which takes as many rows as fit into its
batches or more time than it has. -/
theorem backlog_drained {db : Database} (hdb : WellFormed db)
    (hquiet : ∀ n statement db, (turns n).others statement db = db) :
    ∃ db' result, cleanup collation c turns db = some (db', result) ∧
      Shrinks collation c db db' ∧
      (result.capacityExhausted = false → ∀ statement, ∀ row ∈ db'.rows,
        Due collation c db' statement row →
          (turns (result.batches - 1)).locked statement row = true) ∧
      (db.rows.length < c.limit * c.maxBatches → (∀ n, (turns n).clock < c.deadline) →
        result.capacityExhausted = false) := by
  obtain ⟨n, mid, deleted, db', result, heq, hturns, hends, _⟩ := cleanup_accounted collation c turns
    hdb fun n statement db hdb => by rwa [hquiet]
  have hshrinks := turns_shrink hquiet hturns hdb
  refine ⟨db', result, heq, ?_⟩
  cases hends with
  | drained db' counts hn htime ran short =>
    refine ⟨shrinks_trans hshrinks (ran_shrinks hquiet ran hshrinks.wellFormed),
      fun _ statement row hrow hdue => ?_, fun _ _ => rfl⟩
    exact ran_drained hquiet ran hshrinks.wellFormed (by decide) (mem_all statement)
      (short statement) hrow hdue
  | exhausted h =>
    refine ⟨hshrinks, (fun hfalse => by cases hfalse), fun hroom htime => ?_⟩
    have hlength := turns_length hquiet hturns hdb
    rcases h with rfl | ⟨_, hlate⟩
    · rw [Nat.sub_zero] at hlength
      omega
    · exact absurd (htime n) (Nat.not_lt.mpr hlate)

theorem example_drained : ∃ db' result,
    cleanup .codePoints examplePlan exampleTurns exampleDatabase = some (db', result) ∧
      Shrinks .codePoints examplePlan exampleDatabase db' ∧ result.capacityExhausted = false := by
  obtain ⟨db', result, heq, hshrinks, _, hroom⟩ := backlog_drained .codePoints examplePlan
    exampleTurns example_wellFormed fun _ _ _ => rfl
  exact ⟨db', result, heq, hshrinks, hroom (by decide) fun _ => (by decide : 0 < 1000)⟩

/-- Only the run that is going on is left. -/
example : (cleanup .codePoints examplePlan exampleTurns exampleDatabase).map
    (fun (db, result) => (db.rows, Statement.all.map result.deleted, result.batches)) =
      some ([.campaignRun ⟨2, "session", .running, 5⟩, .campaignRunTarget ⟨2, "session", "group"⟩,
        .campaignDelivery ⟨2, 2, "group", some 8⟩, .messageJob ⟨8, .sent, 5⟩],
        [1, 1, 0, 1, 0, 0, 0], 1) := by decide +kernel

end Results

end RetentionPasses
