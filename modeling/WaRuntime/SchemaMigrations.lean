import Mathlib.Logic.Function.Basic
import WaRuntime.TransitionRuns
import WaRuntime.Utf16Order

/-! The migrations of the schema, by any number of runners at a time.
Each runner has a directory of its own, whose files may change while it runs, and may stop at any
statement. `apply` is what the contents of a file do to the schema, to all that nobody but the
migrations changes; it is `none` where they throw. Statements are steps of their own: that nothing
comes between a SELECT and the write that it decides is due to the advisory lock alone. -/
namespace SchemaMigrations

open CanonicalOrders TransitionRuns Utf16Order

structure Migration where
  name : String
  contents : String
  deriving DecidableEq, Repr

/-- A row of `schema_migrations`. -/
structure Record where
  name : String
  checksum : Option String
  deriving DecidableEq, Repr

/-- The rows of `schema_migrations` under their primary key. -/
structure Table where
  rows : List Record
  keyed : (rows.map Record.name).Nodup

structure MigrationRunResult where
  applied : List String
  checksumsBackfilled : List String
  deriving DecidableEq, Repr

inductive MigrationError where
  | missing (name : String)
  | mismatch (file : String)
  | foreign (message : String)
  deriving DecidableEq, Repr

def MigrationError.message : MigrationError → String
  | .missing name => "Applied migration file missing: " ++ name
  | .mismatch file => "Applied migration checksum mismatch: " ++ file
  | .foreign message => message

namespace Table

def empty : Table := ⟨[], List.nodup_nil⟩

def find (t : Table) (name : String) : Option Record := t.rows.find? (·.name = name)

/-- INSERT; `none` where the name is taken. -/
def insert (t : Table) (row : Record) : Option Table :=
  if h : row.name ∈ t.rows.map Record.name then none
  else some ⟨t.rows ++ [row], by
    rw [List.map_append, List.map_singleton]
    exact List.Nodup.append t.keyed (List.nodup_singleton _) (by simpa using h)⟩

/-- UPDATE of the checksum under a name. -/
def setChecksum (t : Table) (name checksum : String) : Table where
  rows := t.rows.map fun row => if row.name = name then { row with checksum := some checksum } else row
  keyed := by
    have hnames : (t.rows.map fun row =>
        if row.name = name then { row with checksum := some checksum } else row).map Record.name =
          t.rows.map Record.name := by
      rw [List.map_map]
      refine List.map_congr_left fun row _ => ?_
      simp only [Function.comp]
      split <;> rfl
    rw [hnames]
    exact t.keyed

end Table

/-- The database; `applied` records which runner has applied what. -/
structure Database (σ : Type*) where
  schema : σ
  table : Option Table
  applied : List (ℕ × Migration)

/-- `rest` are the files that the loop has yet to go through, `read` those it has gone through, with
the contents that were read. -/
structure Work where
  files : List String
  rest : List String
  read : List Migration
  result : MigrationRunResult
  deriving Repr

inductive Phase where
  | connected
  | locked
  | prepared
  | listed (files : List String)
  | next (w : Work)
  | opened (w : Work) (m : Migration)
  | looked (w : Work) (m : Migration) (existing : Option Record)
  | writing (w : Work) (m : Migration)
  | ending (outcome : Except MigrationError Work)
  | ended (outcome : Except MigrationError Work)
  | crashed

/-- The runner has the advisory lock. -/
def Phase.Holds : Phase → Bool
  | .connected | .ended _ | .crashed => false
  | _ => true

/-- What the holder of the lock may do. A `commit` may throw although it has committed. -/
inductive Action where
  | createTable
  | readDirectory (names : List String)
  | checkRecorded
  | readFile (contents : String)
  | finish
  | selectExisting
  | settle
  | commit (failure : Option String)
  | throw (message : String)
  deriving Repr

inductive Event where
  | start (r : ℕ)
  | lock (r : ℕ)
  | act (r : ℕ) (action : Action)
  | unlock (r : ℕ)
  | crash (r : ℕ) (committed : Bool)
  deriving Repr

structure State (σ : Type*) where
  database : Database σ
  lock : Option ℕ
  runners : ℕ → Option Phase

def sqlFile (name : String) : Bool := ".sql".toList.isSuffixOf name.toList

section System

variable {σ : Type*} (apply : String → σ → Option σ) (checksum : String → String)
  (collation : TotalOrder String)

def Database.rows (db : Database σ) : List Record := (db.table.map Table.rows).getD []

/-- One file, from BEGIN to COMMIT. -/
def migrate (r : ℕ) (m : Migration) (db : Database σ) : Option (Database σ) :=
  (apply m.contents db.schema).bind fun schema =>
    (db.table.bind fun t => t.insert ⟨m.name, some (checksum m.contents)⟩).map fun t =>
      ⟨schema, some t, db.applied ++ [(r, m)]⟩

def Work.through (w : Work) (m : Migration) : Work := { w with read := w.read ++ [m] }

def Work.backfilled (w : Work) (m : Migration) : Work :=
  { w.through m with
    result := { w.result with checksumsBackfilled := w.result.checksumsBackfilled ++ [m.name] } }

def Work.migrated (w : Work) (m : Migration) : Work :=
  { w.through m with result := { w.result with applied := w.result.applied ++ [m.name] } }

/-- The file of the first recorded name that is not available. -/
def missing (files : List String) (db : Database σ) : Option String :=
  (collation.sort ((db.rows.map Record.name).filter sqlFile)).find? (· ∉ files)

/-- What `settle` does for a file that is recorded. -/
def settleRecorded (w : Work) (m : Migration) (recorded : Option String) (db : Database σ) :
    Phase × Database σ :=
  match recorded with
  | none => (.next (w.backfilled m),
      { db with table := db.table.map fun t => t.setChecksum m.name (checksum m.contents) })
  | some recorded =>
    if recorded ≠ checksum m.contents then (.ending (.error (.mismatch m.name)), db)
    else (.next (w.through m), db)

def act (r : ℕ) (db : Database σ) : Phase → Action → Option (Phase × Database σ)
  | .locked, .createTable => some (.prepared, { db with table := some (db.table.getD .empty) })
  | .prepared, .readDirectory names => some (.listed (utf16.sort (names.filter sqlFile)), db)
  | .listed files, .checkRecorded =>
    match missing collation files db with
    | some name => some (.ending (.error (.missing name)), db)
    | none => some (.next ⟨files, files, [], ⟨[], []⟩⟩, db)
  | .next ⟨files, file :: rest, read, result⟩, .readFile contents =>
    some (.opened ⟨files, rest, read, result⟩ ⟨file, contents⟩, db)
  | .next ⟨files, [], read, result⟩, .finish => some (.ending (.ok ⟨files, [], read, result⟩), db)
  | .opened w m, .selectExisting => some (.looked w m (db.table.bind (·.find m.name)), db)
  | .looked w m none, .settle => some (.writing w m, db)
  | .looked w m (some row), .settle => some (settleRecorded checksum w m row.checksum db)
  | .writing w m, .commit failure =>
    (migrate apply checksum r m db).map fun db' =>
      (failure.elim (.next (w.migrated m)) fun message => .ending (.error (.foreign message)), db')
  | .connected, .throw message => some (.ended (.error (.foreign message)), db)
  | .locked, .throw message | .prepared, .throw message | .listed _, .throw message
  | .next _, .throw message | .opened _ _, .throw message | .looked _ _ _, .throw message
  | .writing _ _, .throw message => some (.ending (.error (.foreign message)), db)
  | _, _ => none

def State.at (s : State σ) (r : ℕ) (p : Phase) : State σ :=
  { s with runners := Function.update s.runners r (some p) }

/-- Releases the lock of a runner, if it is the one that has it. -/
def release (r : ℕ) (lock : Option ℕ) : Option ℕ := if lock = some r then none else lock

/-- What an interrupted transaction leaves. -/
def interrupted (r : ℕ) (committed : Bool) (p : Phase) (db : Database σ) : Database σ :=
  match committed, p with
  | true, .writing _ m => (migrate apply checksum r m db).getD db
  | _, _ => db

def step (s : State σ) : Event → Option (State σ)
  | .start r => guarded (s.runners r).isNone (s.at r .connected)
  | .lock r =>
    match s.runners r with
    | some .connected => guarded (s.lock = none) { s.at r .locked with lock := some r }
    | _ => none
  | .act r action =>
    (s.runners r).bind fun p => (act apply checksum collation r s.database p action).map fun next =>
      { s.at r next.1 with database := next.2 }
  | .unlock r =>
    match s.runners r with
    | some (.ending outcome) =>
      some { s.at r (.ended outcome) with lock := release r s.lock }
    | _ => none
  | .crash r committed =>
    (s.runners r).map fun p =>
      { s.at r .crashed with
        database := interrupted apply checksum r committed p s.database
        lock := release r s.lock }

/-- Some rows may be there from before the checksums. -/
def initial (schema : σ) (table : Option Table) : State σ := ⟨⟨schema, table, []⟩, none, fun _ => none⟩

def system (schema : σ) (table : Option Table) : System (State σ) Event :=
  ofStep (· = initial schema table) (step apply checksum collation)

end System

section Database

variable {σ : Type*} {apply : String → σ → Option σ} {checksum : String → String}
  {db db' : Database σ} {r : ℕ} {m : Migration} {row : Record} {schema₀ : σ} {table₀ : Option Table}

/-- The rows of a table that may not be there yet. -/
def rowsOf (table : Option Table) : List Record := (table.map Table.rows).getD []

theorem rows_keyed (db : Database σ) : (db.rows.map Record.name).Nodup := by
  unfold Database.rows
  cases db.table with
  | none => exact List.nodup_nil
  | some t => exact t.keyed

theorem find_eq (db : Database σ) (name : String) :
    db.table.bind (·.find name) = db.rows.find? (·.name = name) := by
  unfold Database.rows
  cases db.table <;> rfl

/-- What the migrations have made of the database that they found: the schema is what they make of it
in the order in which they were applied, the rows are those that were there and theirs, in that
order, and each of theirs bears the checksum of what was applied. -/
structure History (apply : String → σ → Option σ) (checksum : String → String) (schema₀ : σ)
    (table₀ : Option Table) (db : Database σ) : Prop where
  schema : db.applied.foldlM (fun schema e => apply e.2.contents schema) schema₀ = some db.schema
  names : db.rows.map Record.name =
    (rowsOf table₀).map Record.name ++ db.applied.map fun e => e.2.name
  sums : ∀ e ∈ db.applied, ⟨e.2.name, some (checksum e.2.contents)⟩ ∈ db.rows

/-- A runner only adds migrations of its own, and no checksum is lost. -/
structure Extends (r : ℕ) (db db' : Database σ) : Prop where
  rows : ∀ row ∈ db.rows, row.checksum ≠ none → row ∈ db'.rows
  applied : ∃ new, db'.applied = db.applied ++ new ∧ ∀ e ∈ new, e.1 = r

theorem extends_refl (r : ℕ) (db : Database σ) : Extends r db db :=
  ⟨fun _ h _ => h, [], by simp⟩

theorem extends_others {k : ℕ} (h : Extends r db db') (hne : k ≠ r) :
    (db'.applied.filter fun e => e.1 = k) = db.applied.filter fun e => e.1 = k := by
  obtain ⟨new, happlied, hown⟩ := h.applied
  have hnone : (new.filter fun e => e.1 = k) = [] := by
    rw [List.filter_eq_nil_iff]
    intro e he
    rw [decide_eq_true_eq, hown e he]
    exact fun heq => hne heq.symm
  rw [happlied, List.filter_append, hnone, List.append_nil]

/-- What a committed migration writes. -/
structure Migrates (apply : String → σ → Option σ) (checksum : String → String) (r : ℕ)
    (m : Migration) (db db' : Database σ) : Prop where
  schema : apply m.contents db.schema = some db'.schema
  rows : db'.rows = db.rows ++ [⟨m.name, some (checksum m.contents)⟩]
  applied : db'.applied = db.applied ++ [(r, m)]

theorem migrate_some (h : migrate apply checksum r m db = some db') :
    Migrates apply checksum r m db db' := by
  obtain ⟨schema, hschema, h⟩ := Option.bind_eq_some_iff.mp h
  obtain ⟨t', ht', rfl⟩ := Option.map_eq_some_iff.mp h
  obtain ⟨t, ht, hinsert⟩ := Option.bind_eq_some_iff.mp ht'
  unfold Table.insert at hinsert
  split at hinsert
  · cases hinsert
  · obtain rfl := Option.some.inj hinsert
    refine ⟨hschema, ?_, rfl⟩
    simp [Database.rows, ht]

theorem migrates_history (hm : Migrates apply checksum r m db db')
    (h : History apply checksum schema₀ table₀ db) : History apply checksum schema₀ table₀ db' := by
  refine ⟨?_, ?_, fun e he => ?_⟩
  · rw [hm.applied, List.foldlM_append, h.schema]
    simpa using hm.schema
  · rw [hm.rows, hm.applied, List.map_append, List.map_append, h.names, List.append_assoc]
    rfl
  · rw [hm.rows]
    rw [hm.applied] at he
    rcases List.mem_append.mp he with hold | hnew
    · exact List.mem_append_left _ (h.sums e hold)
    · rw [List.mem_singleton.mp hnew]
      exact List.mem_append_right _ List.mem_cons_self

theorem migrates_extends (hm : Migrates apply checksum r m db db') : Extends r db db' := by
  refine ⟨fun row hrow _ => ?_, [(r, m)], hm.applied, by simp⟩
  rw [hm.rows]
  exact List.mem_append_left _ hrow

/-- The database after the UPDATE of a checksum. -/
def backfill (checksum : String → String) (m : Migration) (db : Database σ) : Database σ :=
  { db with table := db.table.map fun t => t.setChecksum m.name (checksum m.contents) }

theorem backfill_rows : (backfill checksum m db).rows = db.rows.map fun row =>
    if row.name = m.name then { row with checksum := some (checksum m.contents) } else row := by
  unfold backfill Database.rows
  cases db.table <;> rfl

theorem backfill_names : (backfill checksum m db).rows.map Record.name = db.rows.map Record.name := by
  rw [backfill_rows, List.map_map]
  refine List.map_congr_left fun row _ => ?_
  simp only [Function.comp]
  split <;> rfl

/-- The row without a checksum is the only one under its name. -/
theorem backfill_keeps (hrow : row ∈ db.rows) (hname : row.name = m.name)
    (hnone : row.checksum = none) {other : Record} (hother : other ∈ db.rows)
    (hsome : other.checksum ≠ none) : other ∈ (backfill checksum m db).rows := by
  rw [backfill_rows]
  refine List.mem_map.mpr ⟨other, hother, if_neg fun heq => hsome ?_⟩
  rw [List.inj_on_of_nodup_map (rows_keyed db) hother hrow (heq.trans hname.symm)]
  exact hnone

theorem backfill_recorded (hrow : row ∈ db.rows) (hname : row.name = m.name) :
    ⟨m.name, some (checksum m.contents)⟩ ∈ (backfill checksum m db).rows := by
  rw [backfill_rows]
  refine List.mem_map.mpr ⟨row, hrow, ?_⟩
  rw [if_pos hname, ← hname]

theorem backfill_extends (hrow : row ∈ db.rows) (hname : row.name = m.name)
    (hnone : row.checksum = none) : Extends r db (backfill checksum m db) :=
  ⟨fun _ hother hsome => backfill_keeps hrow hname hnone hother hsome, [],
    (List.append_nil _).symm, by simp⟩

theorem backfill_history (h : History apply checksum schema₀ table₀ db) (hrow : row ∈ db.rows)
    (hname : row.name = m.name) (hnone : row.checksum = none) :
    History apply checksum schema₀ table₀ (backfill checksum m db) := by
  refine ⟨h.schema, backfill_names.trans h.names, fun e he => ?_⟩
  exact backfill_keeps hrow hname hnone (h.sums e he) (by simp)

end Database

section Runner

variable {σ : Type*} {apply : String → σ → Option σ} {checksum : String → String}
  {collation : TotalOrder String} {db db' : Database σ} {r k : ℕ} {p p' : Phase}
  {schema₀ : σ} {table₀ : Option Table}

/-- What one action may do, with what it has tested. -/
inductive Acts (apply : String → σ → Option σ) (checksum : String → String)
    (collation : TotalOrder String) (r : ℕ) (db : Database σ) : Phase → Phase → Database σ → Prop where
  | created : Acts apply checksum collation r db .locked .prepared
      { db with table := some (db.table.getD .empty) }
  | listed (names : List String) : Acts apply checksum collation r db .prepared
      (.listed (utf16.sort (names.filter sqlFile))) db
  | checked (files : List String) : missing collation files db = none →
      Acts apply checksum collation r db (.listed files) (.next ⟨files, files, [], ⟨[], []⟩⟩) db
  | opened (files rest : List String) (read : List Migration) (result : MigrationRunResult)
      (m : Migration) : Acts apply checksum collation r db (.next ⟨files, m.name :: rest, read, result⟩)
      (.opened ⟨files, rest, read, result⟩ m) db
  | finished (w : Work) : w.rest = [] →
      Acts apply checksum collation r db (.next w) (.ending (.ok w)) db
  | looked (w : Work) (m : Migration) : Acts apply checksum collation r db (.opened w m)
      (.looked w m (db.rows.find? (·.name = m.name))) db
  | began (w : Work) (m : Migration) :
      Acts apply checksum collation r db (.looked w m none) (.writing w m) db
  | backfilled (w : Work) (m : Migration) (row : Record) : row.checksum = none →
      Acts apply checksum collation r db (.looked w m (some row)) (.next (w.backfilled m))
        (backfill checksum m db)
  | matched (w : Work) (m : Migration) (row : Record) : row.checksum = some (checksum m.contents) →
      Acts apply checksum collation r db (.looked w m (some row)) (.next (w.through m)) db
  | migrated (w : Work) (m : Migration) (db' : Database σ) : Migrates apply checksum r m db db' →
      Acts apply checksum collation r db (.writing w m) (.next (w.migrated m)) db'
  | unacknowledged (w : Work) (m : Migration) (e : MigrationError) (db' : Database σ) :
      Migrates apply checksum r m db db' →
      Acts apply checksum collation r db (.writing w m) (.ending (.error e)) db'
  | failed (p : Phase) (e : MigrationError) : p.Holds →
      Acts apply checksum collation r db p (.ending (.error e)) db
  | unlocked (e : MigrationError) : Acts apply checksum collation r db .connected (.ended (.error e)) db

theorem act_acts {a : Action} (h : act apply checksum collation r db p a = some (p', db')) :
    Acts apply checksum collation r db p p' db' := by
  unfold act at h
  split at h
  · cases h
    exact .created
  · cases h
    exact .listed _
  · split at h <;> cases h
    · exact .failed _ _ rfl
    · rename_i hnone
      exact .checked _ hnone
  · rename_i files file rest read result contents
    cases h
    exact .opened files rest read result ⟨file, contents⟩
  · cases h
    exact .finished _ rfl
  · rename_i w m
    obtain ⟨rfl, rfl⟩ := Prod.mk.inj (Option.some.inj h)
    rw [find_eq]
    exact .looked w m
  · cases h
    exact .began _ _
  · rename_i w m row
    unfold settleRecorded at h
    split at h
    · rename_i hnone
      cases h
      exact .backfilled w m row hnone
    · rename_i recorded hsome
      split at h <;> cases h
      · exact .failed _ _ rfl
      · rename_i hsame
        refine .matched w m row ?_
        rw [hsome, not_not.mp hsame]
  · rename_i w m failure
    obtain ⟨db'', hm, heq⟩ := Option.map_eq_some_iff.mp h
    obtain ⟨rfl, rfl⟩ := Prod.mk.inj heq
    cases failure with
    | none => exact .migrated w m db'' (migrate_some hm)
    | some message => exact .unacknowledged w m _ db'' (migrate_some hm)
  · cases h
    exact .unlocked _
  all_goals first
    | cases h
      exact .failed _ _ rfl
    | cases h

/-- The loop of a runner: the files before the rest have been read and are recorded. -/
structure Loops (checksum : String → String) (r : ℕ) (db : Database σ) (w : Work)
    (pending : List String) : Prop where
  split : w.files = w.read.map Migration.name ++ pending ++ w.rest
  ascending : w.files.Pairwise utf16.le
  recorded : ∀ m ∈ w.read, ⟨m.name, some (checksum m.contents)⟩ ∈ db.rows
  own : w.result.applied = (db.applied.filter fun e => e.1 = r).map fun e => e.2.name

/-- Whatever is recorded is available. -/
def Known (db : Database σ) (files : List String) : Prop :=
  ∀ row ∈ db.rows, sqlFile row.name → row.name ∈ files

/-- The runner has not applied anything. -/
def Fresh (r : ℕ) (db : Database σ) : Prop := (db.applied.filter fun e => e.1 = r) = []

def PhaseInv (checksum : String → String) (r : ℕ) (db : Database σ) : Phase → Prop
  | .connected | .locked | .prepared => Fresh r db
  | .listed files => Fresh r db ∧ files.Pairwise utf16.le
  | .next w => Loops checksum r db w [] ∧ Known db w.files
  | .opened w m => Loops checksum r db w [m.name] ∧ Known db w.files
  | .looked w m existing => Loops checksum r db w [m.name] ∧ Known db w.files ∧
      existing = db.rows.find? (·.name = m.name)
  | .writing w m => Loops checksum r db w [m.name] ∧ Known db w.files
  | .ending (.ok w) => Loops checksum r db w [] ∧ Known db w.files ∧ w.rest = []
  | .ended (.ok w) => Loops checksum r db w [] ∧ w.rest = []
  | .ending (.error _) | .ended (.error _) | .crashed => True

theorem pending_file {w : Work} {m : Migration} (h : Loops checksum r db w [m.name]) :
    m.name ∈ w.files := by
  rw [h.split]
  exact List.mem_append_left _ (List.mem_append_right _ List.mem_cons_self)

/-- A file has been gone through. -/
theorem loops_through {w w' : Work} {m : Migration} (h : Loops checksum r db w [m.name])
    (hext : Extends r db db') (hfiles : w'.files = w.files) (hrest : w'.rest = w.rest)
    (hread : w'.read = w.read ++ [m]) (hrow : ⟨m.name, some (checksum m.contents)⟩ ∈ db'.rows)
    (hown : w'.result.applied = (db'.applied.filter fun e => e.1 = r).map fun e => e.2.name) :
    Loops checksum r db' w' [] := by
  refine ⟨?_, hfiles ▸ h.ascending, fun m' hm' => ?_, hown⟩
  · rw [hfiles, hrest, hread, h.split]
    simp
  · rw [hread] at hm'
    rcases List.mem_append.mp hm' with hold | hnew
    · exact hext.rows _ (h.recorded m' hold) (by simp)
    · rw [List.mem_singleton.mp hnew]
      exact hrow

theorem missing_none {files : List String} (h : missing collation files db = none) :
    Known db files := by
  intro row hrow hsql
  have hall := List.find?_eq_none.mp h row.name
    (collation.mem_sort.mpr (List.mem_filter.mpr ⟨List.mem_map_of_mem hrow, hsql⟩))
  simpa using hall

theorem through_own {w : Work} {m : Migration} (h : Loops checksum r db w [m.name])
    (hm : Migrates apply checksum r m db db') : (w.migrated m).result.applied =
      (db'.applied.filter fun e => e.1 = r).map fun e => e.2.name := by
  rw [hm.applied, List.filter_append, List.map_append, ← h.own]
  simp [Work.migrated]

theorem acts_sound (hh : History apply checksum schema₀ table₀ db)
    (hi : PhaseInv checksum r db p) (h : Acts apply checksum collation r db p p' db') :
    History apply checksum schema₀ table₀ db' ∧ PhaseInv checksum r db' p' ∧ Extends r db db' := by
  cases h with
  | created =>
    have hrows : ({ db with table := some (db.table.getD .empty) } : Database σ).rows = db.rows := by
      unfold Database.rows
      cases db.table <;> rfl
    refine ⟨⟨hh.schema, ?_, fun e he => ?_⟩, hi, fun row hrow _ => ?_, [],
      (List.append_nil _).symm, by simp⟩
    · rw [hrows]
      exact hh.names
    · rw [hrows]
      exact hh.sums e he
    · rwa [hrows]
  | listed names => exact ⟨hh, ⟨hi, utf16.sort_pairwise _⟩, extends_refl r db⟩
  | checked files hnone =>
    refine ⟨hh, ⟨⟨rfl, hi.2, by simp, ?_⟩, missing_none hnone⟩, extends_refl r db⟩
    rw [show (db.applied.filter fun e => e.1 = r) = [] from hi.1]
    rfl
  | opened files rest read result m =>
    obtain ⟨hloops, hknown⟩ := hi
    refine ⟨hh, ⟨⟨?_, hloops.ascending, hloops.recorded, hloops.own⟩, hknown⟩, extends_refl r db⟩
    simpa using hloops.split
  | finished w hrest => exact ⟨hh, ⟨hi.1, hi.2, hrest⟩, extends_refl r db⟩
  | looked w m => exact ⟨hh, ⟨hi.1, hi.2, rfl⟩, extends_refl r db⟩
  | began w m => exact ⟨hh, ⟨hi.1, hi.2.1⟩, extends_refl r db⟩
  | backfilled w m row hnone =>
    -- nobody else has written since the SELECT, so that its row is still the one under the name
    obtain ⟨hloops, hknown, hfind⟩ := hi
    have hrow := List.mem_of_find?_eq_some hfind.symm
    have hname : row.name = m.name := by simpa using List.find?_some hfind.symm
    have hext : Extends r db (backfill checksum m db) := backfill_extends hrow hname hnone
    refine ⟨backfill_history hh hrow hname hnone, ⟨?_, ?_⟩, hext⟩
    · exact loops_through hloops hext rfl rfl rfl (backfill_recorded hrow hname) hloops.own
    · intro other hother hsql
      have hnames : (backfill checksum m db).rows.map Record.name = db.rows.map Record.name :=
        backfill_names
      have hmem : other.name ∈ db.rows.map Record.name := hnames ▸ List.mem_map_of_mem hother
      obtain ⟨old, hold, heq⟩ := List.mem_map.mp hmem
      rw [← heq] at hsql ⊢
      exact hknown old hold hsql
  | matched w m row hsum =>
    obtain ⟨hloops, hknown, hfind⟩ := hi
    have hrow := List.mem_of_find?_eq_some hfind.symm
    have hname : row.name = m.name := by simpa using List.find?_some hfind.symm
    have hrecorded : ⟨m.name, some (checksum m.contents)⟩ ∈ db.rows := by
      rw [← hname, ← hsum]
      exact hrow
    exact ⟨hh, ⟨loops_through hloops (extends_refl r db) rfl rfl rfl hrecorded hloops.own, hknown⟩,
      extends_refl r db⟩
  | migrated w m _ hm =>
    obtain ⟨hloops, hknown⟩ := hi
    have hrecorded : ⟨m.name, some (checksum m.contents)⟩ ∈ db'.rows := by
      rw [hm.rows]
      exact List.mem_append_right _ List.mem_cons_self
    refine ⟨migrates_history hm hh, ⟨?_, fun row hrow hsql => ?_⟩, migrates_extends hm⟩
    · exact loops_through hloops (migrates_extends hm) rfl rfl rfl hrecorded (through_own hloops hm)
    · rw [hm.rows] at hrow
      rcases List.mem_append.mp hrow with hold | hnew
      · exact hknown row hold hsql
      · rw [List.mem_singleton.mp hnew]
        exact (pending_file hloops : m.name ∈ w.files)
  | unacknowledged w m e _ hm => exact ⟨migrates_history hm hh, trivial, migrates_extends hm⟩
  | failed p e => exact ⟨hh, trivial, extends_refl r db⟩
  | unlocked e => exact ⟨hh, trivial, extends_refl r db⟩

end Runner

section Runs

variable {σ : Type*} {apply : String → σ → Option σ} {checksum : String → String}
  {collation : TotalOrder String} {s u : State σ} {db db' : Database σ} {r k : ℕ} {p p' q : Phase}
  {schema₀ : σ} {table₀ : Option Table}

structure Inv (apply : String → σ → Option σ) (checksum : String → String) (schema₀ : σ)
    (table₀ : Option Table) (s : State σ) : Prop where
  history : History apply checksum schema₀ table₀ s.database
  exclusive : ∀ r p, s.runners r = some p → p.Holds → s.lock = some r
  phases : ∀ r p, s.runners r = some p → PhaseInv checksum r s.database p
  fresh : ∀ r, s.runners r = none → Fresh r s.database

/-- What a runner without the lock relies on is left by the one that has it. -/
theorem phase_frame (hi : PhaseInv checksum k db q) (hq : ¬ q.Holds) (hext : Extends r db db')
    (hne : k ≠ r) : PhaseInv checksum k db' q := by
  have hsame := extends_others hext hne
  cases q with
  | connected =>
    have hfresh : Fresh k db := hi
    exact hsame.trans hfresh
  | crashed => trivial
  | ended outcome =>
    cases outcome with
    | error e => trivial
    | ok w =>
      obtain ⟨hloops, hrest⟩ := hi
      refine ⟨⟨hloops.split, hloops.ascending, fun m hm => ?_, ?_⟩, hrest⟩
      · exact hext.rows _ (hloops.recorded m hm) (by simp)
      · rw [hsame]
        exact hloops.own
  | locked | prepared | listed | next | opened | looked | writing | ending => exact absurd rfl hq

theorem acts_holds (h : Acts apply checksum collation r db p p' db') (hp : p'.Holds) : p.Holds := by
  cases h with
  | failed _ _ hholds => exact hholds
  | unlocked => cases hp
  | _ => rfl

theorem acts_idle (h : Acts apply checksum collation r db p p' db') (hp : ¬ p.Holds) : db' = db := by
  cases h with
  | failed _ _ hholds => exact absurd hholds hp
  | unlocked => rfl
  | _ => exact absurd rfl hp

/-- One runner moves, under the lock if it writes; the others find what they rely on. -/
theorem inv_move {lock : Option ℕ} (hi : Inv apply checksum schema₀ table₀ s)
    (hp : s.runners r = some p) (hhistory : History apply checksum schema₀ table₀ db')
    (hext : Extends r s.database db') (hidle : ¬ p.Holds → db' = s.database)
    (hnew : PhaseInv checksum r db' p') (hown : p'.Holds → lock = some r)
    (hothers : ∀ k q, k ≠ r → s.runners k = some q → q.Holds → lock = some k) :
    Inv apply checksum schema₀ table₀ ⟨db', lock, (s.at r p').runners⟩ := by
  have hrunner : ∀ k q, (s.at r p').runners k = some q →
      (k = r ∧ q = p') ∨ (k ≠ r ∧ s.runners k = some q) := by
    intro k q hk
    by_cases hkr : k = r
    · subst hkr
      exact .inl ⟨rfl, by simpa [State.at] using hk.symm⟩
    · exact .inr ⟨hkr, by simpa [State.at, Function.update_of_ne hkr] using hk⟩
  constructor
  · exact hhistory
  · intro k q hk hholds
    rcases hrunner k q hk with ⟨rfl, rfl⟩ | ⟨hne, hk⟩
    · exact hown hholds
    · exact hothers k q hne hk hholds
  · intro k q hk
    rcases hrunner k q hk with ⟨rfl, rfl⟩ | ⟨hne, hk⟩
    · exact hnew
    · by_cases hph : p.Holds
      · refine phase_frame (hi.phases k q hk) (fun hq => hne ?_) hext hne
        exact Option.some.inj ((hi.exclusive k q hk hq).symm.trans (hi.exclusive r p hp hph))
      · rw [hidle hph]
        exact hi.phases k q hk
  · intro k hk
    have hne : k ≠ r := by
      rintro rfl
      simp [State.at] at hk
    have hnone : s.runners k = none := by simpa [State.at, Function.update_of_ne hne] using hk
    have hfresh : Fresh k s.database := hi.fresh k hnone
    exact (extends_others hext hne).trans hfresh

theorem interrupted_cases (r : ℕ) (committed : Bool) (p : Phase) (db : Database σ) :
    interrupted apply checksum r committed p db = db ∨
      (p.Holds ∧ ∃ m, Migrates apply checksum r m db
        (interrupted apply checksum r committed p db)) := by
  unfold interrupted
  split
  · rename_i w m
    cases hm : migrate apply checksum r m db with
    | none => exact .inl rfl
    | some db' => exact .inr ⟨rfl, m, migrate_some hm⟩
  · exact .inl rfl

theorem step_inv {e : Event} (hi : Inv apply checksum schema₀ table₀ s)
    (h : step apply checksum collation s e = some u) : Inv apply checksum schema₀ table₀ u := by
  have hkept : ∀ k q, s.runners k = some q → q.Holds → s.lock = some k := hi.exclusive
  cases e with
  | start r =>
    obtain ⟨hnone, rfl⟩ := guarded_eq_some.mp h
    have hfree : s.runners r = none := by simpa using hnone
    have hrunner : ∀ k q, (s.at r .connected).runners k = some q →
        (k = r ∧ q = .connected) ∨ s.runners k = some q := by
      intro k q hk
      by_cases hkr : k = r
      · subst hkr
        exact .inl ⟨rfl, by simpa [State.at] using hk.symm⟩
      · exact .inr (by simpa [State.at, Function.update_of_ne hkr] using hk)
    refine ⟨hi.history, fun k q hk hholds => ?_, fun k q hk => ?_, fun k hk => ?_⟩
    · rcases hrunner k q hk with ⟨_, rfl⟩ | hold
      · cases hholds
      · exact hi.exclusive k q hold hholds
    · rcases hrunner k q hk with ⟨rfl, rfl⟩ | hold
      · exact hi.fresh k hfree
      · exact hi.phases k q hold
    · have hne : k ≠ r := by
        rintro rfl
        simp [State.at] at hk
      exact hi.fresh k (by simpa [State.at, Function.update_of_ne hne] using hk)
  | lock r =>
    simp only [step] at h
    split at h
    · rename_i hp
      obtain ⟨hfree, rfl⟩ := guarded_eq_some.mp h
      have hfresh : Fresh r s.database := hi.phases r .connected hp
      refine inv_move hi hp hi.history (extends_refl r _) (fun _ => rfl) hfresh (fun _ => rfl)
        fun k q _ hk hq => ?_
      have hlocked := hkept k q hk hq
      rw [hfree] at hlocked
      cases hlocked
    · cases h
  | act r action =>
    obtain ⟨p, hp, h⟩ := Option.bind_eq_some_iff.mp h
    obtain ⟨⟨p', db'⟩, hact, rfl⟩ := Option.map_eq_some_iff.mp h
    have hacts := act_acts hact
    obtain ⟨hhistory, hphase, hext⟩ := acts_sound hi.history (hi.phases r p hp) hacts
    exact inv_move hi hp hhistory hext (acts_idle hacts) hphase
      (fun hp' => hkept r p hp (acts_holds hacts hp')) fun k q _ => hkept k q
  | unlock r =>
    simp only [step] at h
    split at h
    · rename_i outcome hp
      obtain rfl := Option.some.inj h
      refine inv_move hi hp hi.history (extends_refl r _) (fun _ => rfl) ?_ (fun hf => by cases hf) ?_
      · have hphase := hi.phases r _ hp
        cases outcome with
        | error e => trivial
        | ok w => exact ⟨hphase.1, hphase.2.2⟩
      · intro k q hne hk hq
        have heq : some k = some r := (hkept k q hk hq).symm.trans (hkept r _ hp rfl)
        exact absurd (Option.some.inj heq) hne
    · cases h
  | crash r committed =>
    obtain ⟨p, hp, rfl⟩ := Option.map_eq_some_iff.mp h
    have hothers : ∀ k q, k ≠ r → s.runners k = some q → q.Holds → release r s.lock = some k := by
      intro k q hne hk hq
      unfold release
      rw [hkept k q hk hq, if_neg fun heq => hne (Option.some.inj heq)]
    have hcases : interrupted apply checksum r committed p s.database = s.database ∨
        (p.Holds ∧ ∃ m, Migrates apply checksum r m s.database
          (interrupted apply checksum r committed p s.database)) :=
      interrupted_cases r committed p s.database
    rcases hcases with hsame | ⟨hholds, m, hm⟩
    · simp only [hsame]
      exact inv_move hi hp hi.history (extends_refl r _) (fun _ => rfl) trivial
        (fun hf => by cases hf) hothers
    · exact inv_move hi hp (migrates_history hm hi.history) (migrates_extends hm)
        (fun hnot => absurd hholds hnot) trivial (fun hf => by cases hf) hothers

theorem reachable_inv (h : Reachable (system apply checksum collation schema₀ table₀) s) :
    Inv apply checksum schema₀ table₀ s := by
  refine reachable_invariant (I := Inv apply checksum schema₀ table₀) ?_
    (fun s e hi he => step_inv hi (ofStep_enabled he)) h
  rintro _ rfl
  refine ⟨⟨rfl, ?_, ?_⟩, ?_, ?_, fun _ _ => rfl⟩
  · exact (List.append_nil _).symm
  all_goals simp [initial]

/-- The result of a runner that has returned. -/
structure Complete (checksum : String → String) (r : ℕ) (db : Database σ) (w : Work) : Prop where
  all : w.files = w.read.map Migration.name
  ascending : w.files.Pairwise utf16.le
  recorded : ∀ m ∈ w.read, ⟨m.name, some (checksum m.contents)⟩ ∈ db.rows
  applied : w.result.applied = (db.applied.filter fun e => e.1 = r).map fun e => e.2.name

/-- A runner that applies a file has all that is recorded, and no file before it is left out. -/
structure InOrder (checksum : String → String) (db : Database σ) (w : Work) (m : Migration) :
    Prop where
  known : ∀ row ∈ db.rows, sqlFile row.name → row.name ∈ w.files
  before : w.files = w.read.map Migration.name ++ m.name :: w.rest
  recorded : ∀ n ∈ w.read, ⟨n.name, some (checksum n.contents)⟩ ∈ db.rows

/-- `history` says what the rows of `schema_migrations` have to do with what was applied. -/
structure Migrated (apply : String → σ → Option σ) (checksum : String → String) (schema₀ : σ)
    (table₀ : Option Table) (s : State σ) : Prop where
  history : History apply checksum schema₀ table₀ s.database
  once : (s.database.rows.map Record.name).Nodup
  alone : ∀ r k p q, s.runners r = some p → s.runners k = some q → p.Holds → q.Holds → r = k
  inOrder : ∀ r w m, s.runners r = some (.writing w m) → InOrder checksum s.database w m
  exact : ∀ r w, s.runners r = some (.ending (.ok w)) → ∀ name, sqlFile name →
    (name ∈ s.database.rows.map Record.name ↔ name ∈ w.files)
  complete : ∀ r w, s.runners r = some (.ended (.ok w)) → Complete checksum r s.database w
  agree : ∀ r k w v, s.runners r = some (.ended (.ok w)) → s.runners k = some (.ended (.ok v)) →
    ∀ m ∈ w.read, ∀ n ∈ v.read, m.name = n.name → checksum m.contents = checksum n.contents

theorem ended_complete {w : Work} (hi : Inv apply checksum schema₀ table₀ s)
    (h : s.runners r = some (.ended (.ok w))) : Complete checksum r s.database w := by
  obtain ⟨hloops, hrest⟩ := hi.phases r _ h
  refine ⟨?_, hloops.ascending, hloops.recorded, hloops.own⟩
  simpa [hrest] using hloops.split

instance (s : State σ) (e : Event) :
    Decidable ((system apply checksum collation schema₀ table₀).enabled s e) :=
  inferInstanceAs (Decidable ((step apply checksum collation s e).isSome = true))

/-- Any number of runners, whatever their directories hold and wherever they stop, leave the schema
that the recorded migrations make, each applied once. -/
theorem migrations_applied_once
    (h : Reachable (system apply checksum collation schema₀ table₀) s) :
    Migrated apply checksum schema₀ table₀ s := by
  have hi := reachable_inv h
  refine ⟨hi.history, rows_keyed s.database, fun r k p q hp hq hholds hholds' => ?_,
    fun r w m hw => ?_, fun r w hw name hsql => ?_, fun r w => ended_complete hi,
    fun r k w v hw hv m hm n hn hname => ?_⟩
  · have hlock := (hi.exclusive r p hp hholds).symm.trans (hi.exclusive k q hq hholds')
    exact Option.some.inj hlock
  · obtain ⟨hloops, hknown⟩ := hi.phases r _ hw
    exact ⟨hknown, by simpa using hloops.split, hloops.recorded⟩
  · obtain ⟨hloops, hknown, hrest⟩ := hi.phases r _ hw
    constructor
    · intro hmem
      obtain ⟨row, hrow, rfl⟩ := List.mem_map.mp hmem
      exact hknown row hrow hsql
    · intro hmem
      have hread : name ∈ w.read.map Migration.name := by
        rw [hloops.split, hrest] at hmem
        simpa using hmem
      obtain ⟨m, hm, rfl⟩ := List.mem_map.mp hread
      exact List.mem_map_of_mem (hloops.recorded m hm)
  · have hrow := (ended_complete hi hw).recorded m hm
    have hrow' := (ended_complete hi hv).recorded n hn
    have hsame := List.inj_on_of_nodup_map (rows_keyed s.database) hrow hrow' hname
    exact Option.some.inj (congrArg Record.checksum hsame)

end Runs

section Example

def exampleApply (contents : String) (schema : List String) : Option (List String) :=
  if contents = "" then none else some (schema ++ [contents])

/-- The connection of the first runner is lost in its second file; the second runner, which has
waited, applies the rest. -/
def interruptedTrace : List Event :=
  [.start 0, .start 1, .lock 0, .act 0 .createTable,
    .act 0 (.readDirectory ["2.sql", "notes.md", "1.sql"]), .act 0 .checkRecorded,
    .act 0 (.readFile "create a"), .act 0 .selectExisting, .act 0 .settle, .act 0 (.commit none),
    .act 0 (.readFile "create b"), .act 0 .selectExisting, .act 0 .settle, .crash 0 false,
    .lock 1, .act 1 .createTable, .act 1 (.readDirectory ["1.sql", "2.sql"]), .act 1 .checkRecorded,
    .act 1 (.readFile "create a"), .act 1 .selectExisting, .act 1 .settle,
    .act 1 (.readFile "create b"), .act 1 .selectExisting, .act 1 .settle, .act 1 (.commit none),
    .act 1 .finish, .unlock 1]

def migratedState : State (List String) :=
  runTrace (system exampleApply id TotalOrder.codePoints [] none) (initial [] none) interruptedTrace

theorem interrupted_migrated : Migrated exampleApply id [] none migratedState :=
  @migrations_applied_once _ _ _ TotalOrder.codePoints _ _ _
    ⟨interruptedTrace, valid_trace_run rfl (by decide +kernel)⟩

example : migratedState.database.schema = ["create a", "create b"] := by decide +kernel

end Example

end SchemaMigrations
