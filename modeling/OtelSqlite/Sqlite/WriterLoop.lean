import OtelSqlite.Runtime.Scheduler
import OtelSqlite.Sqlite.Consistency
import OtelSqlite.Storage.BatcherThread
import OtelSqlite.Storage.Stats

/-!
# The writer thread

`run` of the writer: bootstrap with its ready signal, a checkpoint, the command loop, a last
checkpoint, and the close of the ledger. A turn of the loop is a command with what the writer
meets while it executes it; the answers of SQLite and of the file system to maintenance are
those of the connection. A guard of the source is a pair of updates around a computation: the
second one is made however the computation ends.
-/

namespace OtelSqlite.Sqlite

open OtelSqlite.Lib OtelSqlite.Lib.Fallible OtelSqlite.Model OtelSqlite.Core
open OtelSqlite.Storage (FailureClass WriterStats Weather Effect SalvageOutcome)
open OtelSqlite.Core.Commit (Call)
open OtelSqlite.Runtime (CheckpointMode MaintenanceOperation)

variable {T α : Type}

/-- A command of the queue, with the arguments of its maintenance. -/
inductive WriterCommand (T : Type) where
  | insertLogs (batch : LogWriteBatch BatchOrigin T)
  | flush
  | checkpoint (mode : CheckpointMode)
  | maintenance (operation : MaintenanceOperation)

namespace WriterCommand

/-- The command as the pipeline sees it. -/
def kind : WriterCommand T → WriteCommand BatchOrigin T
  | .insertLogs batch => .insertLogs batch
  | .flush => .flush
  | .checkpoint _ => .checkpoint
  | .maintenance _ => .maintenance

def origin? : WriterCommand T → Option BatchOrigin
  | .insertLogs batch => some batch.origin
  | _ => none

end WriterCommand

structure Turn (T : Type) where
  command : WriterCommand T
  /-- The length of the queue at the top of the loop. -/
  depth : Nat
  /-- What is in the queue behind the command. -/
  backlog : Nat
  weather : Weather T
  /-- The answer to `ANALYZE`. -/
  analysis : Option FailureClass
  /-- The `created_at` of a new resource row. -/
  createdAt : String
  unixNow : Int
  clock : Nat

structure Writer where
  conn : Conn
  stats : WriterStats
  batchesReceived : Nat
  maintenanceRuns : Nat
  deferredRuns : Nat
  quotaEnforcements : Nat
  /-- The ledger calls made. -/
  calls : List Call
  /-- The ready signals sent; `none` is success. -/
  ready : List (Option FailureClass)

abbrev Writing := Fallible Writer FailureClass

section Primitives

def update (f : Writer → Writer) : Writing Unit := ⟨fun w => (.ok (), f w)⟩

def guarded (enter leave : Writer → Writer) (m : Writing α) : Writing α :=
  ⟨fun w => ((m.run (enter w)).1, leave (m.run (enter w)).2)⟩

def onConn (m : Upkeep α) : Writing α :=
  ⟨fun w => ((m.run w.conn).1, { w with conn := (m.run w.conn).2 })⟩

def markProgress (now : Nat) : Writing Unit :=
  update fun w => { w with stats := w.stats.markProgress now }

def callLedger (calls : List Call) : Writing Unit :=
  update fun w => { w with calls := w.calls ++ calls }

def runningGuard (m : Writing α) : Writing α :=
  guarded (fun w => { w with stats.running := true }) (fun w => { w with stats.running := false }) m

def inFlightGuard (backlog : Nat) (m : Writing α) : Writing α :=
  guarded (fun w => { w with stats := w.stats.beginCommand backlog })
    (fun w => { w with stats.inFlight := 0 }) m

def maintenanceGuard (now : Nat) (m : Writing α) : Writing α :=
  guarded
    (fun w => { w with stats.maintenanceStartedMs := now, stats.maintenanceInProgress := true })
    (fun w => { w with stats.maintenanceInProgress := false, stats.maintenanceStartedMs := 0 }) m

end Primitives

section Maintenance

def maintenancePressureSkipDepth : Nat := 1000

def heavyMaintenanceLabel : MaintenanceOperation → Option String
  | .vacuum => some "vacuum"
  | .rebuildFts => some "rebuild_fts"
  | .prune (some _) => some "prune"
  | .prune none | .analyze => none

/-- The four modes differ in the statement only. -/
def checkpointIn (_ : CheckpointMode) : Upkeep Unit := checkpoint

def analyze (answer : Option FailureClass) : Upkeep Unit := ⟨fun c =>
  match answer with
  | some failure => (.error failure, c)
  | none => (.ok (), c)⟩

def vacuum : Upkeep Unit := do
  let mode ← autoVacuumMode
  if mode = incrementalAutoVacuum then incrementalVacuum else convertToIncrementalVacuum

/-- Heavy maintenance waits for its next interval while ingestion waits behind it. -/
def defers (operation : MaintenanceOperation) (backlog : Nat) : Bool :=
  maintenancePressureSkipDepth < backlog && (heavyMaintenanceLabel operation).isSome

/-- Whether the operation has run. -/
def runMaintenance (turn : Turn T) (operation : MaintenanceOperation) : Writing Bool :=
  if defers operation turn.backlog then do
    update fun w => { w with deferredRuns := w.deferredRuns + 1 }
    return false
  else
    match operation with
    | .analyze => do
      onConn (analyze turn.analysis)
      return true
    | .vacuum => do
      onConn vacuum
      return true
    | .rebuildFts => do
      let _ ← onConn rebuildFts
      return true
    | .prune none => pure false
    | .prune (some window) => do
      let _ ← onConn (prune (some window) turn.unixNow)
      return true

/-- A failed enforcement does not stop the insert. -/
def enforceQuota (quota clock : Nat) : Writing Unit := do
  let size ← onConn databaseBytes
  if size ≤ quota then return ()
  else maintenanceGuard clock do
    match ← attempt (onConn (enforceSizeQuota quota)) with
    | .ok _ => do
      update fun w => { w with quotaEnforcements := w.quotaEnforcements + 1 }
      markProgress clock
    | .error _ => return ()

end Maintenance

section Loop

variable (libraries : Libraries) (rowIds : RowIds) (payload : T → LogRecord)

/-- The statements of an insert, for records that carry more than their row. -/
def recordStatements (now : String) : Storage.Statements Database BatchOrigin T where
  upsertResource := (insertStatements libraries rowIds now).upsertResource
  insertEvent db origin record :=
    (insertStatements libraries rowIds now).insertEvent db origin (payload record)

def persistBatch (turn : Turn T) (batch : LogWriteBatch BatchOrigin T) :
    Writing (Option SalvageOutcome) := ⟨fun w =>
  let r := (Storage.Sql.persistWithPolicy (recordStatements libraries rowIds payload turn.createdAt)
    turn.weather batch).run (.start w.conn.db)
  (r.1, { w with conn.db := r.2.database })⟩

def executeCommand (turn : Turn T) : Writing Unit :=
  match turn.command with
  | .insertLogs batch =>
    if batch.records = [] then
      callLedger (batch.commitSeqs.map fun seq => .void seq turn.clock)
    else do
      update fun w => { w with batchesReceived := w.batchesReceived + 1 }
      let salvage ← persistBatch libraries rowIds payload turn batch
      markProgress turn.clock
      callLedger (Storage.settleLogBatch batch salvage turn.clock)
  | .flush => pure ()
  | .checkpoint mode => maintenanceGuard turn.clock do
    onConn (checkpointIn mode)
    update fun w => { w with maintenanceRuns := w.maintenanceRuns + 1 }
    markProgress turn.clock
  | .maintenance operation => maintenanceGuard turn.clock do
    if ← runMaintenance turn operation then
      update fun w => { w with maintenanceRuns := w.maintenanceRuns + 1 }
      markProgress turn.clock

/-- The quota comes before an insert of records. -/
def quotaFirst (quota : Option Nat) (turn : Turn T) : Writing Unit :=
  match quota with
  | some quota =>
    if Storage.recordCount turn.command.kind ≠ 0 then enforceQuota quota turn.clock else pure ()
  | none => pure ()

def takeTurn (quota : Option Nat) (turn : Turn T) : Writing Unit :=
  inFlightGuard turn.backlog do
    quotaFirst quota turn
    executeCommand libraries rowIds payload turn

/-- The exit of `OTEL_SQLITE_FAULT_WRITER_AFTER_N`, which is never set in production. -/
def faultExit (faultAfter : Option Nat) (processed : Nat) : Writing Unit :=
  match faultAfter with
  | some limit => if limit ≤ processed then fail .fatal else pure ()
  | none => pure ()

/-- The commands in the order of the queue, up to its end or the first failure. -/
def commandLoop (quota faultAfter : Option Nat) : Nat → List (Turn T) → Writing Unit
  | _, [] => pure ()
  | processed, turn :: turns => do
    update fun w => { w with stats.queueDepth := turn.depth }
    takeTurn libraries rowIds payload quota turn
    faultExit faultAfter (processed + 1)
    commandLoop quota faultAfter (processed + 1) turns

/-- `run_inner` behind the bootstrap. -/
def serve (quota faultAfter : Option Nat) (clock : Nat) (turns : List (Turn T)) :
    Writing Unit := do
  onConn (checkpointIn .truncate)
  markProgress clock
  commandLoop libraries rowIds payload quota faultAfter 0 turns
  update fun w => { w with stats.queueDepth := 0 }
  onConn (checkpointIn .truncate)

/-- `run_inner`; `bootstrap` is the outcome of opening and migrating the database. -/
def runInner (quota faultAfter : Option Nat) (bootstrap : Option FailureClass) (clock : Nat)
    (turns : List (Turn T)) : Writing Unit :=
  runningGuard do
    update fun w => { w with ready := w.ready ++ [bootstrap] }
    match bootstrap with
    | some failure => fail failure
    | none => serve libraries rowIds payload quota faultAfter clock turns

/-- `run` of the writer: the ledger is closed however it ends. -/
def runWriter (quota faultAfter : Option Nat) (bootstrap : Option FailureClass) (clock : Nat)
    (turns : List (Turn T)) : Writing Unit :=
  guarded id (fun w => { w with calls := w.calls ++ [.close] })
    (runInner libraries rowIds payload quota faultAfter bootstrap clock turns)

end Loop

end OtelSqlite.Sqlite
