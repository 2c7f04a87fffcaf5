import OtelSqlite.Lib.Writes
import OtelSqlite.Sqlite.WriterLoop
import OtelSqlite.Storage.LineAccounting

/-!
# The writer thread refines the writer of the pipeline

Turn by turn the writer makes the ledger calls that `Storage.execute` gives for the command.
A turn may remove rows of `log_event`, by retention or by the size quota in front of an insert,
and behind that it adds the rows its insert reports. So what the pipeline says of a command's
effect holds of the tables, and a row can have been removed only by a turn behind its own.
-/

namespace OtelSqlite.Sqlite

open OtelSqlite.Lib OtelSqlite.Lib.Fallible OtelSqlite.Model OtelSqlite.Core
open OtelSqlite.Storage (FailureClass Weather Effect)
open OtelSqlite.Core.Commit (Call)
open OtelSqlite.Runtime (CheckpointMode MaintenanceOperation)

variable {T α : Type} {libraries : Libraries} {rowIds : RowIds} {payload : T → LogRecord}
  {origins : List BatchOrigin} {db db' : Database} {w w' : Writer} {keepsAll k k' : Bool}
  {ended : Except FailureClass Unit × Writer} {outcome : Except FailureClass (Effect T)}
  {failure : FailureClass} {turn : Turn T}

theorem Consistent.mono {origins' : List BatchOrigin} (h : Consistent libraries origins db)
    (hsub : origins ⊆ origins') : Consistent libraries origins' db where
  index := h.index
  event hevent := by
    obtain ⟨hmem, hid, hrow⟩ := h.event hevent
    exact ⟨hsub hmem, hid, hrow⟩
  resource hrow := by
    obtain ⟨origin, hmem, hid, hcolumns⟩ := h.resource hrow
    exact ⟨origin, hsub hmem, hid, hcolumns⟩

section Rows

variable {added : List Event}

/-- The events of a database, without their ids. -/
def Database.events (db : Database) : List Event := db.logEvent.rows.map Prod.snd

/-- From `db` to `db'` some events were removed, none if they are all kept, and behind that
these were added. -/
def Stored (keepsAll : Bool) (added : List Event) (db db' : Database) : Prop :=
  ∃ kept removed, db.events.Perm (kept ++ removed) ∧ (keepsAll = true → removed = []) ∧
    (kept ++ added).Perm db'.events

theorem Stored.of_perm (h : (db.events ++ added).Perm db'.events) : Stored keepsAll added db db' :=
  ⟨db.events, [], by rw [List.append_nil], fun _ => rfl, h⟩

theorem Stored.of_events_eq (h : db'.events = db.events) : Stored keepsAll [] db db' :=
  .of_perm (by rw [h, List.append_nil])

/-- Behind something that added nothing. -/
theorem Stored.after {db₁ : Database} (h : Stored k [] db db₁) (h' : Stored k' added db₁ db') :
    Stored (k && k') added db db' := by
  obtain ⟨kept, removed, hperm, hnone, hkept⟩ := h
  obtain ⟨kept', removed', hperm', hnone', hadded⟩ := h'
  rw [List.append_nil] at hkept
  refine ⟨kept', removed' ++ removed, ?_, fun hboth => ?_, hadded⟩
  · rw [← List.append_assoc]
    exact hperm.trans ((hkept.trans hperm').append_right removed)
  · rw [Bool.and_eq_true] at hboth
    rw [hnone hboth.1, hnone' hboth.2, List.append_nil]

theorem Stored.writes (h : Stored keepsAll added db db') :
    Writes db.events [⟨keepsAll, added⟩] db'.events := by
  obtain ⟨kept, removed, hperm, hnone, hadded⟩ := h
  exact .write hperm hnone (.done hadded)

/-- Deletions and sweeps only remove. -/
theorem durable_stored (db : Database) : Durable (Stored false [] db) where
  deleteEvents db₁ p := by
    intro h
    have hdelete : Stored false [] db₁ (db₁.deleteEvents p) := by
      refine ⟨(db₁.logEvent.rows.filter fun row => !p row.1 row.2).map Prod.snd,
        (db₁.logEvent.rows.filter fun row => p row.1 row.2).map Prod.snd, ?_, nofun, ?_⟩
      · have hsplit := (List.filter_append_perm (fun row : Int × Event => !p row.1 row.2)
          db₁.logEvent.rows).map Prod.snd
        rw [List.map_append] at hsplit
        simp only [Bool.not_not] at hsplit
        exact hsplit.symm
      · rw [List.append_nil]
        rfl
    exact h.after hdelete
  collectOrphanDimensions db₁ h := by
    have hsame : db₁.collectOrphanDimensions.events = db₁.events := by
      rw [collectOrphanDimensions_eq]
      rfl
    have hsweep : Stored false [] db₁ db₁.collectOrphanDimensions := .of_events_eq hsame
    exact h.after hsweep

variable (libraries) in
def eventOf (origin : BatchOrigin) (record : LogRecord) : Event :=
  ⟨eventRow libraries origin record, origin⟩

theorem events_insertRecord (h : insertRecord libraries rowIds origin db record = some db') :
    db'.events = eventOf libraries origin record :: db.events := by
  obtain ⟨row, -, hevents, -, rfl⟩ := Database.insertEvent_eq_some_iff.mp h
  show (db.logEvent.insertNew _ _).rows.map Prod.snd = _
  rw [Table.insertNew, dif_neg hevents]
  rfl

theorem events_insertRecords {records : List LogRecord}
    (h : records.foldlM (insertRecord libraries rowIds origin) db = some db') :
    (db.events ++ records.map (eventOf libraries origin)).Perm db'.events := by
  induction records generalizing db with
  | nil =>
    obtain rfl := Option.some.inj h
    rw [List.map_nil, List.append_nil]
  | cons record records ih =>
    rw [List.foldlM_cons] at h
    obtain ⟨db₁, hfirst, hrest⟩ := Option.bind_eq_some_iff.mp h
    have hperm := ih hrest
    rw [events_insertRecord hfirst] at hperm
    exact List.perm_middle.trans hperm

variable (rowIds payload) in
/-- The statements of an insert of records, which put one row for each of them. -/
theorem Consistent.put (h : Consistent libraries origins db) (horigin : origin ∈ origins)
    (now : String) (records : List T) :
    Consistent libraries origins
        ((recordStatements libraries rowIds payload now).put origin db records) ∧
      Stored true (records.map fun record => eventOf libraries origin (payload record)) db
        ((recordStatements libraries rowIds payload now).put origin db records) := by
  obtain ⟨db', hdb', h'⟩ := h.writeRows rowIds horigin now (records.map payload)
  have hput : (recordStatements libraries rowIds payload now).put origin db records = db' := by
    rw [← put_of_writeRows hdb', Storage.Statements.put, Storage.Statements.put, List.foldl_map]
    rfl
  rw [hput]
  refine ⟨h', ?_⟩
  have hstored := events_insertRecords hdb'
  rw [List.map_map] at hstored
  exact .of_perm hstored

end Rows

section Upkeep

/-- Nothing was said to the ledger or to the starter, and `Q` holds of the tables. -/
structure Undisturbed (Q : Database → Prop) (w₀ w : Writer) : Prop where
  calls : w.calls = w₀.calls
  ready : w.ready = w₀.ready
  tables : Q w.conn.db

variable {Q : Database → Prop} {w₀ : Writer}

theorem preserves_guarded {I : Writer → Prop} {enter leave : Writer → Writer} {m : Writing α}
    (henter : ∀ w, I w → I (enter w)) (hm : Preserves I m) (hleave : ∀ w, I w → I (leave w)) :
    Preserves I (guarded enter leave m) :=
  fun w hw => hleave _ (hm _ (henter w hw))

theorem preserves_onConn {m : Upkeep α} (hm : Preserves (fun c : Conn => Q c.db) m) :
    Preserves (Undisturbed Q w₀) (onConn m) :=
  fun w hw => ⟨hw.calls, hw.ready, hm w.conn hw.tables⟩

theorem preserves_maintenanceGuard {m : Writing α} (hm : Preserves (Undisturbed Q w₀) m)
    (clock : Nat) : Preserves (Undisturbed Q w₀) (maintenanceGuard clock m) :=
  preserves_guarded (fun _ h => ⟨h.calls, h.ready, h.tables⟩) hm
    (fun _ h => ⟨h.calls, h.ready, h.tables⟩)

theorem preserves_markProgress (clock : Nat) :
    Preserves (Undisturbed Q w₀) (markProgress clock) :=
  fun _ h => ⟨h.calls, h.ready, h.tables⟩

theorem preserves_enforceQuota (hQ : Durable Q) (quota clock : Nat) :
    Preserves (Undisturbed Q w₀) (enforceQuota quota clock) := by
  refine (preserves_onConn keeps_db_databaseBytes.preserves).bind fun size => ?_
  split
  · exact .pure ()
  refine preserves_maintenanceGuard ?_ clock
  refine (preserves_onConn (hQ.enforceSizeQuota quota)).attempt.bind fun outcome => ?_
  cases outcome with
  | error failure => exact .pure ()
  | ok report =>
    refine Preserves.bind (fun _ h => ⟨h.calls, h.ready, h.tables⟩) fun _ => ?_
    exact preserves_markProgress clock

theorem keeps_db_checkpoint : Keeps Conn.db checkpoint := by
  rintro shown c rfl
  unfold checkpoint
  dsimp only
  split <;> rfl

theorem keeps_db_vacuum : Keeps Conn.db vacuum := by
  refine Keeps.bind (fun _ _ h => h) fun mode => ?_
  split
  · exact keeps_db_incrementalVacuum
  · rintro shown c rfl
    unfold convertToIncrementalVacuum
    dsimp only
    split <;> rfl

theorem keeps_db_analyze (answer : Option FailureClass) : Keeps Conn.db (analyze answer) := by
  rintro shown c rfl
  cases answer <;> rfl

/-- Retention is the one operation that removes events. -/
def removesEvents : MaintenanceOperation → Bool
  | .prune (some _) => true
  | _ => false

theorem preserves_runMaintenance (hrebuild : ∀ db, Q db → Q db.rebuildFts) (turn : Turn T)
    (operation : MaintenanceOperation)
    (hdurable : removesEvents operation = true → defers operation turn.backlog = false →
      Durable Q) :
    Preserves (Undisturbed Q w₀) (runMaintenance turn operation) := by
  unfold runMaintenance
  split
  · exact Preserves.bind (fun _ h => ⟨h.calls, h.ready, h.tables⟩) fun _ => .pure false
  next hruns =>
    cases operation with
    | analyze =>
      exact (preserves_onConn (keeps_db_analyze _).preserves).bind fun _ => .pure true
    | vacuum => exact (preserves_onConn keeps_db_vacuum.preserves).bind fun _ => .pure true
    | rebuildFts =>
      refine (preserves_onConn ?_).bind fun _ => .pure true
      exact preserves_transaction _ hrebuild
    | prune window =>
      cases window with
      | none => exact .pure false
      | some window =>
        have hQ := hdurable rfl (Bool.eq_false_iff.mpr hruns)
        exact (preserves_onConn (hQ.prune _ _)).bind fun _ => .pure true

end Upkeep

section Turns

/-- A failed command is rolled back. -/
def effectOf : Except FailureClass (Effect T) → Effect T
  | .ok effect => effect
  | .error _ => ⟨[], [], []⟩

namespace Turn

/-- What `Storage.execute` says of the command, for some answer to its maintenance. -/
def Answers (turn : Turn T) (outcome : Except FailureClass (Effect T)) : Prop :=
  ∃ upkeep, Storage.execute { turn.weather with upkeep := upkeep } turn.clock turn.command.kind =
    outcome

/-- The events of an effect. -/
def added (libraries : Libraries) (payload : T → LogRecord) (turn : Turn T)
    (effect : Effect T) : List Event :=
  match turn.command with
  | .insertLogs batch =>
    effect.inserted.map fun record => eventOf libraries batch.origin (payload record)
  | _ => []

/-- The size quota may evict events in front of the command. -/
def evicts (turn : Turn T) (quota : Option Nat) : Bool :=
  quota.isSome && Storage.recordCount turn.command.kind != 0

/-- The command is a retention run that is not deferred. -/
def prunes (turn : Turn T) : Bool :=
  match turn.command with
  | .maintenance operation => removesEvents operation && !defers operation turn.backlog
  | _ => false

def keepsRows (turn : Turn T) (quota : Option Nat) : Bool := !turn.evicts quota && !turn.prunes

def FromOrigins (turn : Turn T) (origins : List BatchOrigin) : Prop :=
  ∀ origin ∈ turn.command.origin?, origin ∈ origins

/-- The records the command inserts, each with the origin it is written under. -/
def rows (turn : Turn T) : List (BatchOrigin × T) :=
  match turn.command with
  | .insertLogs batch =>
    (effectOf (Storage.execute turn.weather turn.clock (.insertLogs batch))).inserted.map
      fun record => (batch.origin, record)
  | _ => []

theorem mem_rows {row : BatchOrigin × T} (h : row ∈ turn.rows) :
    ∃ batch effect, turn.command = .insertLogs batch ∧
      Storage.execute turn.weather turn.clock (.insertLogs batch) = .ok effect ∧
      row.1 = batch.origin ∧ row.2 ∈ effect.inserted := by
  cases hc : turn.command with
  | insertLogs batch =>
    rw [rows, hc] at h
    obtain ⟨record, hrecord, rfl⟩ := List.mem_map.mp h
    cases he : Storage.execute turn.weather turn.clock (.insertLogs batch) with
    | ok effect =>
      rw [he] at hrecord
      exact ⟨batch, effect, rfl, he, rfl, hrecord⟩
    | error failure =>
      rw [he] at hrecord
      cases hrecord
  | flush | checkpoint | maintenance =>
    rw [rows, hc] at h
    cases h

theorem rows_insertLogs {batch : LogWriteBatch BatchOrigin T}
    (hc : turn.command = .insertLogs batch) (h : turn.Answers outcome) :
    turn.rows = (effectOf outcome).inserted.map fun record => (batch.origin, record) := by
  obtain ⟨upkeep, rfl⟩ := h
  rw [rows, hc]
  -- an insert does not look at the answer to maintenance
  rfl

theorem Answers.map_snd_rows (h : turn.Answers outcome) :
    turn.rows.map Prod.snd = (effectOf outcome).inserted := by
  cases hc : turn.command with
  | insertLogs batch =>
    rw [rows_insertLogs hc h, List.map_map]
    exact List.map_id _
  | flush | checkpoint | maintenance =>
    rw [rows, hc]
    cases outcome with
    | ok effect =>
      obtain ⟨upkeep, h⟩ := h
      rw [hc] at h
      rw [effectOf, Storage.execute_other (fun _ hb => by cases hb) h]
      rfl
    | error failure => rfl

theorem Answers.added_eq (h : turn.Answers outcome) :
    turn.added libraries payload (effectOf outcome) =
      turn.rows.map fun row => eventOf libraries row.1 (payload row.2) := by
  cases hc : turn.command with
  | insertLogs batch =>
    rw [rows_insertLogs hc h, List.map_map, added, hc]
    rfl
  | flush | checkpoint | maintenance =>
    rw [rows, added, hc]
    rfl

end Turn

/-- How a turn ends: as `Storage.execute` says, and with the rows it says. -/
structure TurnEnds (libraries : Libraries) (payload : T → LogRecord) (origins : List BatchOrigin)
    (keepsAll : Bool) (turn : Turn T) (w : Writer) (ended : Except FailureClass Unit × Writer)
    (outcome : Except FailureClass (Effect T)) : Prop where
  answers : turn.Answers outcome
  result : ended.1 = outcome.map fun _ => ()
  consistent : Consistent libraries origins ended.2.conn.db
  ready : ended.2.ready = w.ready
  calls : ended.2.calls = w.calls ++ (effectOf outcome).calls
  stored : Stored keepsAll (turn.added libraries payload (effectOf outcome)) w.conn.db ended.2.conn.db

/-- The tables while maintenance runs. -/
def Tended (libraries : Libraries) (origins : List BatchOrigin) (keepsAll : Bool)
    (db₀ db : Database) : Prop :=
  Consistent libraries origins db ∧ Stored keepsAll [] db₀ db

theorem Tended.refl (h : Consistent libraries origins db) :
    Tended libraries origins keepsAll db db := ⟨h, .of_events_eq rfl⟩

theorem durable_tended (db₀ : Database) : Durable (Tended libraries origins false db₀) where
  deleteEvents db p h :=
    ⟨durable_consistent.deleteEvents db p h.1, (durable_stored db₀).deleteEvents db p h.2⟩
  collectOrphanDimensions db h :=
    ⟨durable_consistent.collectOrphanDimensions db h.1,
      (durable_stored db₀).collectOrphanDimensions db h.2⟩

theorem Tended.rebuildFts {db₀ : Database} (h : Tended libraries origins keepsAll db₀ db) :
    Tended libraries origins keepsAll db₀ db.rebuildFts := ⟨h.1.rebuildFts, h.2⟩

/-- Maintenance that leaves the ledger alone has the empty effect of its command. -/
theorem TurnEnds.of_undisturbed
    (hkind : turn.command.kind = .checkpoint ∨ turn.command.kind = .maintenance)
    (h : Undisturbed (Tended libraries origins keepsAll w.conn.db) w ended.2) :
    ∃ outcome, TurnEnds libraries payload origins keepsAll turn w ended outcome := by
  have hcalls : ended.2.calls = w.calls ++ [] := by rw [h.calls, List.append_nil]
  have hstored : Stored keepsAll (turn.added libraries payload ⟨[], [], []⟩) w.conn.db
      ended.2.conn.db := by
    have hadded : turn.added libraries payload ⟨[], [], []⟩ = [] := by
      unfold Turn.added
      split <;> rfl
    rw [hadded]
    exact h.tables.2
  cases hresult : ended.1 with
  | ok =>
    refine ⟨.ok ⟨[], [], []⟩, ⟨none, ?_⟩, hresult, h.tables.1, h.ready, hcalls, hstored⟩
    rcases hkind with hkind | hkind <;> rw [hkind] <;> rfl
  | error failure =>
    refine ⟨.error failure, ⟨some failure, ?_⟩, hresult, h.tables.1, h.ready, hcalls, hstored⟩
    rcases hkind with hkind | hkind <;> rw [hkind] <;> rfl

/-- A failed turn added nothing. -/
theorem TurnEnds.failed
    (h : TurnEnds libraries payload origins keepsAll turn w ended (.error failure)) :
    Stored keepsAll [] w.conn.db ended.2.conn.db := by
  have hstored := h.stored
  unfold Turn.added at hstored
  split at hstored <;> exact hstored

variable (libraries rowIds payload) in
theorem run_persistBatch (turn : Turn T) (batch : LogWriteBatch BatchOrigin T) (w : Writer) :
    (persistBatch libraries rowIds payload turn batch).run w =
      ((Storage.persistWithPolicy turn.weather batch).map Storage.Persisted.salvage,
        { w with
          conn.db := (recordStatements libraries rowIds payload turn.createdAt).putPersisted
            batch.origin w.conn.db (Storage.persistWithPolicy turn.weather batch) }) := by
  obtain ⟨s', hrun, hput⟩ := Storage.Sql.run_persistWithPolicy
    (recordStatements libraries rowIds payload turn.createdAt) turn.weather batch w.conn.db
  simp only [persistBatch, hrun, hput]

theorem turnEnds_insert (hcommand : turn.command = .insertLogs batch)
    (h : Consistent libraries origins w.conn.db) (horigin : batch.origin ∈ origins) :
    TurnEnds libraries payload origins true turn w
      ((executeCommand libraries rowIds payload turn).run w)
      (Storage.execute turn.weather turn.clock (.insertLogs batch)) := by
  have hanswers : turn.Answers (Storage.execute turn.weather turn.clock (.insertLogs batch)) := by
    refine ⟨turn.weather.upkeep, ?_⟩
    rw [hcommand]
    rfl
  have hadded : ∀ effect : Effect T, turn.added libraries payload effect =
      effect.inserted.map fun record => eventOf libraries batch.origin (payload record) := by
    intro effect
    rw [Turn.added, hcommand]
  simp only [executeCommand, hcommand]
  split
  · next hempty =>
    rw [Storage.execute, if_pos hempty] at hanswers ⊢
    refine ⟨hanswers, rfl, h, rfl, rfl, ?_⟩
    rw [hadded]
    exact .of_events_eq rfl
  · next hrecords =>
    have hcount : ∀ k : Unit → Writing Unit,
        ((update fun w => { w with batchesReceived := w.batchesReceived + 1 }) >>= k).run w =
          (k ()).run { w with batchesReceived := w.batchesReceived + 1 } := fun _ => rfl
    rw [hcount]
    have hrun := run_persistBatch libraries rowIds payload turn batch
      { w with batchesReceived := w.batchesReceived + 1 }
    rw [Storage.execute, if_neg hrecords] at hanswers ⊢
    cases hpolicy : Storage.persistWithPolicy turn.weather batch with
    | error failure =>
      rw [hpolicy] at hrun hanswers
      rw [run_bind_of_error hrun]
      refine ⟨hanswers, rfl, h, rfl, (List.append_nil _).symm, ?_⟩
      rw [hadded]
      exact .of_events_eq rfl
    | ok persisted =>
      rw [hpolicy] at hrun hanswers
      rw [run_bind_of_ok hrun]
      obtain ⟨hconsistent, hstored⟩ := h.put rowIds payload horigin turn.createdAt
        persisted.inserted
      refine ⟨hanswers, rfl, hconsistent, rfl, rfl, ?_⟩
      rw [hadded]
      exact hstored

variable (rowIds payload) in
/-- What a command other than an insert does keeps the tables as its maintenance does. -/
theorem turnEnds_execute (h : Consistent libraries origins w.conn.db)
    (horigin : turn.FromOrigins origins) :
    ∃ outcome, TurnEnds libraries payload origins (!turn.prunes) turn w
      ((executeCommand libraries rowIds payload turn).run w) outcome := by
  cases hcommand : turn.command with
  | insertLogs batch =>
    have hmem : batch.origin ∈ origins := horigin batch.origin (by rw [hcommand]; rfl)
    have hprunes : turn.prunes = false := by rw [Turn.prunes, hcommand]
    rw [hprunes]
    exact ⟨_, turnEnds_insert hcommand h hmem⟩
  | flush =>
    have hrun : (executeCommand libraries rowIds payload turn).run w = (.ok (), w) := by
      rw [executeCommand, hcommand]
      rfl
    rw [hrun]
    refine ⟨.ok ⟨[], [], []⟩, ⟨none, ?_⟩, rfl, h, rfl, (List.append_nil _).symm, ?_⟩
    · rw [hcommand]
      rfl
    · rw [Turn.added, hcommand]
      exact .of_events_eq rfl
  | checkpoint mode =>
    apply TurnEnds.of_undisturbed (.inl (by rw [hcommand]; rfl))
    rw [executeCommand, hcommand]
    refine preserves_maintenanceGuard ?_ turn.clock w ⟨rfl, rfl, .refl h⟩
    refine (preserves_onConn keeps_db_checkpoint.preserves).bind fun _ => ?_
    refine Preserves.bind (fun _ h => ⟨h.calls, h.ready, h.tables⟩) fun _ => ?_
    exact preserves_markProgress turn.clock
  | maintenance operation =>
    apply TurnEnds.of_undisturbed (.inr (by rw [hcommand]; rfl))
    have hprunes : turn.prunes = (removesEvents operation && !defers operation turn.backlog) := by
      rw [Turn.prunes, hcommand]
    rw [executeCommand, hcommand]
    refine preserves_maintenanceGuard ?_ turn.clock w ⟨rfl, rfl, .refl h⟩
    have hdurable : removesEvents operation = true → defers operation turn.backlog = false →
        Durable (Tended libraries origins (!turn.prunes) w.conn.db) := by
      intro hremoves hruns
      rw [hprunes, hremoves, hruns]
      exact durable_tended w.conn.db
    have hrebuild : ∀ db, Tended libraries origins (!turn.prunes) w.conn.db db →
        Tended libraries origins (!turn.prunes) w.conn.db db.rebuildFts :=
      fun _ h => h.rebuildFts
    refine (preserves_runMaintenance hrebuild turn operation hdurable).bind fun ran => ?_
    cases ran with
    | false => exact .pure ()
    | true =>
      refine Preserves.bind (fun _ h => ⟨h.calls, h.ready, h.tables⟩) fun _ => ?_
      exact preserves_markProgress turn.clock

/-- A turn behind maintenance that left the ledger alone. -/
theorem TurnEnds.after {w₁ : Writer}
    (h : TurnEnds libraries payload origins k' turn w₁ ended outcome)
    (hbefore : Undisturbed (Tended libraries origins k w.conn.db) w w₁) :
    TurnEnds libraries payload origins (k && k') turn w ended outcome where
  answers := h.answers
  result := h.result
  consistent := h.consistent
  ready := h.ready.trans hbefore.ready
  calls := hbefore.calls ▸ h.calls
  stored := hbefore.tables.2.after h.stored

/-- The enforcement in front of an insert never stops it. -/
theorem enforceQuota_ok (quota clock : Nat) (w : Writer) :
    ((enforceQuota quota clock).run w).1 = .ok () := by
  have hsize : ∃ size w₁, (onConn databaseBytes).run w = (.ok size, w₁) := ⟨_, _, rfl⟩
  obtain ⟨size, w₁, hsize⟩ := hsize
  rw [enforceQuota, run_bind_of_ok hsize]
  split
  · rfl
  · show ((attempt (onConn (enforceSizeQuota quota)) >>= _).run _).1 = _
    rw [run_bind_of_ok run_attempt]
    split <;> rfl

theorem run_quotaFirst (quota : Option Nat) (turn : Turn T)
    (h : Consistent libraries origins w.conn.db) :
    ∃ w₁, (quotaFirst quota turn).run w = (.ok (), w₁) ∧
      Undisturbed (Tended libraries origins (!turn.evicts quota) w.conn.db) w w₁ := by
  cases quota with
  | none => exact ⟨w, rfl, rfl, rfl, .refl h⟩
  | some limit =>
    by_cases hrecords : Storage.recordCount turn.command.kind ≠ 0
    · have hevicts : turn.evicts (some limit) = true := by simp [Turn.evicts, hrecords]
      rw [quotaFirst, if_pos hrecords, hevicts]
      refine ⟨_, Prod.ext (enforceQuota_ok limit turn.clock w) rfl, ?_⟩
      exact preserves_enforceQuota (durable_tended w.conn.db) limit turn.clock w
        ⟨rfl, rfl, .refl h⟩
    · rw [quotaFirst, if_neg hrecords]
      exact ⟨w, rfl, rfl, rfl, .refl h⟩

variable (rowIds payload) in
/-- One turn of the loop, with the quota in front of it. -/
theorem turnEnds_takeTurn (quota : Option Nat) (h : Consistent libraries origins w.conn.db)
    (horigin : turn.FromOrigins origins) :
    ∃ outcome, TurnEnds libraries payload origins (turn.keepsRows quota) turn w
      ((takeTurn libraries rowIds payload quota turn).run w) outcome := by
  obtain ⟨w₁, hrun, hbefore⟩ := run_quotaFirst quota turn
    (w := { w with stats := w.stats.beginCommand turn.backlog }) h
  obtain ⟨outcome, hends⟩ := turnEnds_execute rowIds payload hbefore.tables.1 horigin
  have hturn := hends.after hbefore
  have hbody := run_bind_of_ok (f := fun _ => executeCommand libraries rowIds payload turn) hrun
  rw [← hbody] at hturn
  -- The guard's own updates touch neither the ledger nor the tables.
  exact ⟨outcome, hturn.answers, hturn.result, hturn.consistent, hturn.ready, hturn.calls,
    hturn.stored⟩

end Turns

section Runs

/-- What a turn wrote that was executed with this effect. -/
def written (libraries : Libraries) (payload : T → LogRecord) (quota : Option Nat)
    (x : Turn T × Effect T) : Write Event :=
  ⟨x.1.keepsRows quota, x.1.added libraries payload x.2⟩

/-- What a turn wrote that was begun and failed. -/
def unfinished (quota : Option Nat) (turn : Turn T) : Write Event := ⟨turn.keepsRows quota, []⟩

/-- The turns of `log` were executed from `w` to `w'`, with their effects, and one more may
have been begun. -/
structure Executed (libraries : Libraries) (payload : T → LogRecord) (origins : List BatchOrigin)
    (quota : Option Nat) (w : Writer) (log : List (Turn T × Effect T)) (begun : Option (Turn T))
    (w' : Writer) : Prop where
  answers : ∀ x ∈ log, x.1.Answers (.ok x.2)
  consistent : Consistent libraries origins w'.conn.db
  ready : w'.ready = w.ready
  calls : w'.calls = w.calls ++ log.flatMap fun x => x.2.calls
  written : Writes w.conn.db.events
    (log.map (written libraries payload quota) ++ begun.toList.map (unfinished quota))
    w'.conn.db.events

variable {quota : Option Nat} {log : List (Turn T × Effect T)}

theorem Executed.none (h : Undisturbed (fun db => db = w.conn.db) w w')
    (hconsistent : Consistent libraries origins w.conn.db) :
    Executed libraries payload origins quota w [] none w' := by
  refine ⟨fun _ hx => absurd hx List.not_mem_nil, ?_, h.ready, ?_, .done ?_⟩
  · rw [h.tables]
    exact hconsistent
  · rw [h.calls, List.flatMap_nil, List.append_nil]
  · rw [h.tables]

theorem Executed.begun
    (h : TurnEnds libraries payload origins (turn.keepsRows quota) turn w ended (.error failure)) :
    Executed libraries payload origins quota w [] (some turn) ended.2 where
  answers _ hx := absurd hx List.not_mem_nil
  consistent := h.consistent
  ready := h.ready
  calls := h.calls
  written := h.failed.writes

theorem Executed.cons {begun : Option (Turn T)} {effect : Effect T}
    (hturn : TurnEnds libraries payload origins (turn.keepsRows quota) turn w ended (.ok effect))
    (h : Executed libraries payload origins quota ended.2 log begun w') :
    Executed libraries payload origins quota w ((turn, effect) :: log) begun w' where
  answers := List.forall_mem_cons.mpr ⟨hturn.answers, h.answers⟩
  consistent := h.consistent
  ready := h.ready.trans hturn.ready
  calls := by rw [h.calls, hturn.calls, List.flatMap_cons, List.append_assoc]; rfl
  written := hturn.stored.writes.append h.written

/-- Why the loop left commands in the queue: it could not execute the next one, or the fault
it was armed with ended it. -/
def Stopped (faultAfter : Option Nat) (processed : Nat) (rest : List (Turn T))
    (failure : FailureClass) : Prop :=
  (∃ turn rest', rest = turn :: rest' ∧ turn.Answers (.error failure)) ∨
    failure = .fatal ∧ ∃ limit, faultAfter = some limit ∧ limit ≤ processed

/-- How a run over the queue ends: a part of it from its front was executed, and commands are
left behind only if the run failed for one of the reasons `stops` lists. -/
structure QueueEnds (libraries : Libraries) (payload : T → LogRecord)
    (origins : List BatchOrigin) (quota : Option Nat)
    (stops : Nat → List (Turn T) → FailureClass → Prop) (turns : List (Turn T)) (w : Writer)
    (ended : Except FailureClass Unit × Writer) (log : List (Turn T × Effect T))
    (begun : Option (Turn T)) (rest : List (Turn T)) : Prop where
  split : turns = log.map Prod.fst ++ rest
  run : Executed libraries payload origins quota w log begun ended.2
  begun : ∀ turn ∈ begun, rest.head? = some turn ∧
    ∃ failure, ended.1 = .error failure ∧ turn.Answers (.error failure)
  left : rest ≠ [] → ∃ failure, ended.1 = .error failure ∧ stops log.length rest failure

theorem QueueEnds.whole {stops : Nat → List (Turn T) → FailureClass → Prop}
    {turns rest : List (Turn T)} {begun : Option (Turn T)}
    (h : QueueEnds libraries payload origins quota stops turns w ended log begun rest)
    (hok : ended.1 = .ok ()) : rest = [] := by
  by_contra hrest
  obtain ⟨failure, hfailed, -⟩ := h.left hrest
  cases hok.symm.trans hfailed

theorem run_faultExit (faultAfter : Option Nat) (processed : Nat) (w : Writer) :
    (faultExit faultAfter processed).run w = (.ok (), w) ∨
      (faultExit faultAfter processed).run w = (.error .fatal, w) ∧
        ∃ limit, faultAfter = some limit ∧ limit ≤ processed := by
  cases faultAfter with
  | none => exact .inl rfl
  | some limit =>
    rw [faultExit]
    split
    · next hlimit => exact .inr ⟨rfl, limit, rfl, hlimit⟩
    · exact .inl rfl

variable (rowIds payload) in
theorem commandLoop_ends (quota faultAfter : Option Nat) (processed : Nat)
    {turns : List (Turn T)} (h : Consistent libraries origins w.conn.db)
    (horigins : ∀ turn ∈ turns, turn.FromOrigins origins) :
    ∃ log begun rest, QueueEnds libraries payload origins quota
      (fun n => Stopped faultAfter (processed + n)) turns w
      ((commandLoop libraries rowIds payload quota faultAfter processed turns).run w)
      log begun rest := by
  -- over the queue; each turn hands consistent tables to the next
  induction turns generalizing processed w with
  | nil =>
    exact ⟨[], none, [], rfl, .none ⟨rfl, rfl, rfl⟩ h, fun _ hbegun => (by cases hbegun),
      fun hrest => absurd rfl hrest⟩
  | cons turn turns ih =>
    have hdepth : ∀ k : Unit → Writing Unit,
        ((update fun w => { w with stats.queueDepth := turn.depth }) >>= k).run w =
          (k ()).run { w with stats.queueDepth := turn.depth } := fun _ => rfl
    rw [commandLoop, hdepth]
    obtain ⟨outcome, hends⟩ := turnEnds_takeTurn rowIds payload quota
      (w := { w with stats.queueDepth := turn.depth }) h (horigins turn List.mem_cons_self)
    have hturn : TurnEnds libraries payload origins (turn.keepsRows quota) turn w _ outcome :=
      ⟨hends.answers, hends.result, hends.consistent, hends.ready, hends.calls, hends.stored⟩
    generalize hrun : (takeTurn libraries rowIds payload quota turn).run
      { w with stats.queueDepth := turn.depth } = ended at hturn
    obtain ⟨result, w₁⟩ := ended
    cases outcome with
    | ok effect =>
      obtain rfl : result = .ok () := hturn.result
      rw [run_bind_of_ok hrun]
      obtain hgoes | ⟨hfault, hlimit⟩ := run_faultExit faultAfter (processed + 1) w₁
      · rw [run_bind_of_ok hgoes]
        obtain ⟨log, begun, rest, hends⟩ := ih (processed + 1) hturn.consistent
          fun turn hmem => horigins turn (List.mem_cons_of_mem _ hmem)
        refine ⟨(turn, effect) :: log, begun, rest, ?_, .cons hturn hends.run, hends.begun,
          fun hrest => ?_⟩
        · rw [hends.split, List.map_cons, List.cons_append]
        · have hleft := hends.left hrest
          rwa [Nat.add_assoc, Nat.add_comm 1] at hleft
      · rw [run_bind_of_error hfault]
        have hexecuted := Executed.cons hturn (.none ⟨rfl, rfl, rfl⟩ hturn.consistent)
        exact ⟨[(turn, effect)], none, turns, rfl, hexecuted, fun _ hbegun => (by cases hbegun),
          fun _ => ⟨.fatal, rfl, .inr ⟨rfl, hlimit⟩⟩⟩
    | error failure =>
      obtain rfl : result = .error failure := hturn.result
      rw [run_bind_of_error hrun]
      refine ⟨[], some turn, turn :: turns, rfl, .begun hturn, fun _ hbegun => ?_,
        fun _ => ⟨failure, rfl, .inl ⟨turn, turns, rfl, hturn.answers⟩⟩⟩
      cases hbegun
      exact ⟨rfl, failure, rfl, hturn.answers⟩

theorem run_checkpoint (c : Conn) :
    (checkpoint.run c = (.ok (), c.afterCheckpoint)) ∨
      ∃ failure, c.answers.checkpoints 0 = .failed failure ∧
        checkpoint.run c = (.error failure, c.afterCheckpoint) := by
  unfold checkpoint
  cases hanswer : c.answers.checkpoints 0 with
  | completed | blocked => exact .inl (by simp only [hanswer])
  | failed failure => exact .inr ⟨failure, rfl, by simp only [hanswer]⟩

/-- Why the writer left commands in the queue. -/
def LeftBehind (faultAfter : Option Nat) (bootstrap : Option FailureClass) (w : Writer)
    (processed : Nat) (rest : List (Turn T)) (failure : FailureClass) : Prop :=
  bootstrap = some failure ∨ w.conn.answers.checkpoints 0 = .failed failure ∨
    Stopped faultAfter processed rest failure

variable (rowIds payload) in
theorem serve_ends (quota faultAfter : Option Nat) (clock : Nat)
    (h : Consistent libraries origins w.conn.db)
    (horigins : ∀ turn ∈ turns, turn.FromOrigins origins) :
    ∃ log begun rest, QueueEnds libraries payload origins quota (LeftBehind faultAfter none w)
      turns w ((serve libraries rowIds payload quota faultAfter clock turns).run w)
      log begun rest := by
  have hstart : (onConn (checkpointIn .truncate)).run w =
      ((checkpoint.run w.conn).1, { w with conn := (checkpoint.run w.conn).2 }) := rfl
  obtain hok | ⟨failure, hanswer, hfailed⟩ := run_checkpoint w.conn
  · rw [hok] at hstart
    have hmark : ∀ (w₁ : Writer) (k : Unit → Writing Unit), ((markProgress clock) >>= k).run w₁ =
        (k ()).run { w₁ with stats := w₁.stats.markProgress clock } := fun _ _ => rfl
    rw [serve, run_bind_of_ok hstart, hmark]
    obtain ⟨log, begun, rest, hends⟩ := commandLoop_ends rowIds payload quota faultAfter 0
      (w := { w with conn := w.conn.afterCheckpoint, stats := w.stats.markProgress clock })
      h horigins
    generalize hloop : (commandLoop libraries rowIds payload quota faultAfter 0 turns).run
      { w with conn := w.conn.afterCheckpoint, stats := w.stats.markProgress clock } = ended
      at hends
    have hexecuted := hends.run
    obtain ⟨⟨failure⟩ | ⟨⟨⟩⟩, w₁⟩ := ended
    · rw [run_bind_of_error hloop]
      refine ⟨log, begun, rest, hends.split, ⟨hexecuted.answers, hexecuted.consistent,
        hexecuted.ready, hexecuted.calls, hexecuted.written⟩, hends.begun, fun hrest => ?_⟩
      obtain ⟨failure', hfailed, hstopped⟩ := hends.left hrest
      rw [Nat.zero_add] at hstopped
      exact ⟨failure', hfailed, .inr (.inr hstopped)⟩
    · rw [run_bind_of_ok hloop]
      -- the last checkpoint and the last depth are not seen by the ledger or the tables
      have hkept : Preserves (Undisturbed (fun db => db = w₁.conn.db) w₁)
          ((update fun w => { w with stats.queueDepth := 0 }) >>= fun _ =>
            onConn (checkpointIn .truncate)) :=
        Preserves.bind (fun _ h => ⟨h.calls, h.ready, h.tables⟩) fun _ =>
          preserves_onConn (keeps_db_checkpoint w₁.conn.db)
      have hlast := hkept w₁ ⟨rfl, rfl, rfl⟩
      refine ⟨log, begun, rest, hends.split, ⟨hexecuted.answers,
        hlast.tables ▸ hexecuted.consistent, hlast.ready.trans hexecuted.ready,
        hlast.calls.trans hexecuted.calls, hlast.tables ▸ hexecuted.written⟩,
        fun turn hturn => ?_, fun hrest => absurd (hends.whole rfl) hrest⟩
      obtain ⟨-, failure, hfailed, -⟩ := hends.begun turn hturn
      cases hfailed
  · rw [hfailed] at hstart
    rw [serve, run_bind_of_error hstart]
    exact ⟨[], none, turns, rfl, .none ⟨rfl, rfl, rfl⟩ h, fun _ hbegun => (by cases hbegun),
      fun _ => ⟨failure, rfl, .inr (.inl hanswer)⟩⟩

/-- **The writer thread refines the writer of the pipeline.** However its run ends, a part of
the queue from its front was executed, with the effects the pipeline's model gives these
commands: the ledger has got their calls and then the close, and the starter one ready signal.
Each of these turns, and the one that failed if there is one, has removed rows of `log_event`
only if it evicts or prunes, and behind that has added the rows of its effect. Commands are left
behind only if the run failed for one of the listed reasons. -/
theorem writer_refines_pipeline (quota faultAfter : Option Nat) (bootstrap : Option FailureClass)
    (clock : Nat) {turns : List (Turn T)} (h : Consistent libraries origins w.conn.db)
    (horigins : ∀ turn ∈ turns, turn.FromOrigins origins) {result : Except FailureClass Unit}
    (hrun : (runWriter libraries rowIds payload quota faultAfter bootstrap clock turns).run w =
      (result, w')) :
    ∃ (log : List (Turn T × Effect T)) (begun : Option (Turn T)) (rest : List (Turn T)),
      turns = log.map Prod.fst ++ rest ∧
      (∀ x ∈ log, x.1.Answers (.ok x.2)) ∧
      (∀ turn ∈ begun, rest.head? = some turn ∧
        ∃ failure, result = .error failure ∧ turn.Answers (.error failure)) ∧
      w'.calls = w.calls ++ (log.flatMap fun x => x.2.calls) ++ [.close] ∧
      w'.ready = w.ready ++ [bootstrap] ∧
      Consistent libraries origins w'.conn.db ∧
      Writes w.conn.db.events
        (log.map (written libraries payload quota) ++ begun.toList.map (unfinished quota))
        w'.conn.db.events ∧
      (result = .ok () → rest = []) ∧
      (rest ≠ [] → ∃ failure, result = .error failure ∧
        LeftBehind faultAfter bootstrap w log.length rest failure) := by
  cases bootstrap with
  | some failure =>
    cases hrun
    refine ⟨[], none, turns, rfl, fun _ hx => (by cases hx), fun _ hbegun => (by cases hbegun), ?_,
      rfl, h, .done (.refl _), fun hok => (by cases hok), fun _ => ⟨failure, rfl, .inl rfl⟩⟩
    show w.calls ++ [Call.close] = _
    simp
  | none =>
    obtain ⟨rfl, rfl⟩ := Prod.mk.inj hrun
    obtain ⟨log, begun, rest, hends⟩ := serve_ends rowIds payload quota faultAfter clock
      (w := { w with stats.running := true, ready := w.ready ++ [none] }) h horigins
    refine ⟨log, begun, rest, hends.split, hends.run.answers, hends.begun, ?_, hends.run.ready,
      hends.run.consistent, hends.run.written, hends.whole, hends.left⟩
    exact congrArg (· ++ [Call.close]) hends.run.calls

end Runs

section Sample

/-- SQLite answers every pass like this. -/
def steadyWeather (attempt : Storage.Attempt LogRecord) : Weather LogRecord :=
  ⟨fun _ => attempt, attempt, none⟩

def sampleTurn (command : WriterCommand LogRecord) (backlog : Nat)
    (attempt : Storage.Attempt LogRecord) : Turn LogRecord where
  command := command
  depth := backlog + 1
  backlog := backlog
  weather := steadyWeather attempt
  analysis := none
  createdAt := "2026-01-01"
  unixNow := 10
  clock := 7

/-- A salvaged insert, a deferred prune, a checkpoint, an insert that meets a broken disk, and
a flush behind it. -/
def sampleTurns : List (Turn LogRecord) :=
  let batch := sampleBatch "a" [sampleRecord 1 "kept", sampleRecord 2 "poison"]
  [sampleTurn (.insertLogs { batch with commitSeqs := [4] }) 3 poisonedSecond,
    sampleTurn (.maintenance (.prune (some 5))) 1001 poisonedSecond,
    sampleTurn (.checkpoint .truncate) 2 poisonedSecond,
    sampleTurn (.insertLogs batch) 1 ⟨some .fatal, none, fun _ _ => none, none⟩,
    sampleTurn .flush 0 poisonedSecond]

def sampleWriter : Writer where
  conn := .start .migrated incrementalAutoVacuum allWell .inOrder
  stats := .new 0
  batchesReceived := 0
  maintenanceRuns := 0
  deferredRuns := 0
  quotaEnforcements := 0
  calls := []
  ready := []

def sampleRun : Except FailureClass Unit × Writer :=
  (runWriter lengthDigest nextRowId id none none none 0 sampleTurns).run sampleWriter

/-- Nothing is removed, so there is one row for each record of the effects. -/
theorem writer_refines_pipeline_sample :
    sampleRun.2.calls = [.noteDropped 4 1, .complete 4 7, .close] ∧
      sampleRun.2.conn.db.events.length = 1 ∧
      ∃ (log : List (Turn LogRecord × Effect LogRecord)) (rest : List (Turn LogRecord)),
        sampleTurns = log.map Prod.fst ++ rest ∧
        (∀ x ∈ log, x.1.Answers (.ok x.2)) ∧
        sampleRun.2.calls = (log.flatMap fun x => x.2.calls) ++ [.close] ∧
        (log.flatMap fun x => x.1.added lengthDigest id x.2).Perm sampleRun.2.conn.db.events := by
  have horigins : ∀ turn ∈ sampleTurns, turn.FromOrigins [⟨none, "a"⟩] := by
    simp [sampleTurns, sampleTurn, Turn.FromOrigins, WriterCommand.origin?, sampleBatch]
  have hkeeps : ∀ turn ∈ sampleTurns, turn.keepsRows none = true := by
    decide +kernel
  obtain ⟨log, begun, rest, hsplit, hexecutes, hbegun, hcalls, -, -, hwrites, -⟩ :=
    writer_refines_pipeline none none none 0 (w := sampleWriter) consistent_migrated horigins
      (Prod.ext rfl rfl : sampleRun = (sampleRun.1, sampleRun.2))
  refine ⟨by decide +kernel, by decide +kernel, log, rest, hsplit, hexecutes, hcalls, ?_⟩
  have hperm := hwrites.perm_of_keeps fun w hw => ?_
  · have hempty : sampleWriter.conn.db.events = [] := rfl
    have hnone : (begun.toList.flatMap fun _ => ([] : List Event)) = [] :=
      List.flatMap_eq_nil_iff.mpr fun _ _ => rfl
    simpa [hempty, hnone, written, unfinished, List.flatMap_map] using hperm
  · rcases List.mem_append.mp hw with hw | hw
    · obtain ⟨x, hx, rfl⟩ := List.mem_map.mp hw
      exact hkeeps x.1 (hsplit ▸ List.mem_append_left _ (List.mem_map_of_mem hx))
    · obtain ⟨turn, hturn, rfl⟩ := List.mem_map.mp hw
      refine hkeeps turn (hsplit ▸ List.mem_append_right _ ?_)
      exact List.mem_of_mem_head? (hbegun turn (Option.mem_toList.mp hturn)).1

end Sample

end OtelSqlite.Sqlite
