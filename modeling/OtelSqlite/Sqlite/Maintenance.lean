import Mathlib.Data.List.Sort
import OtelSqlite.Lib.Fallible
import OtelSqlite.Sqlite.Schema
import OtelSqlite.Storage.Persist

/-!
# Retention, size quota and index rebuild

Maintenance runs transaction by transaction. What SQLite and the file system answer is a
script: for each kind of call the outcome of its next uses (`Answers`). A transaction that
does not commit leaves the database as it was and ends the operation, so a script also
stops an operation at any of its transaction boundaries. `done` logs the checkpoints made
and the batches evicted.
-/

namespace OtelSqlite.Sqlite

open OtelSqlite.Lib OtelSqlite.Lib.Fallible OtelSqlite.Storage

/-- How `PRAGMA wal_checkpoint(TRUNCATE)` ends. A checkpoint that a reader blocks succeeds
as a statement; only its result row says so. -/
inductive CheckpointResult where
  | completed
  | blocked
  | failed (failure : FailureClass)
  deriving DecidableEq, Repr

structure Answers where
  transactions : Nat → Option FailureClass
  checkpoints : Nat → CheckpointResult
  vacuums : Nat → Option FailureClass
  conversions : Nat → Option FailureClass
  fileSizes : Nat → Nat
  walSizes : Nat → Nat

inductive Act where
  | checkpoint (result : CheckpointResult)
  | evicted (ids : List Int)
  deriving DecidableEq, Repr

structure Conn where
  db : Database
  /-- `PRAGMA auto_vacuum`, zero if the query fails. -/
  autoVacuum : Int
  answers : Answers
  scan : Scan (Int × Event)
  done : List Act

abbrev Upkeep := Fallible Conn FailureClass

namespace Conn

/-- The connection at the start of a call, with nothing logged. -/
def start (db : Database) (autoVacuum : Int) (answers : Answers)
    (scan : Scan (Int × Event)) : Conn :=
  { db, autoVacuum, answers, scan, done := [] }

/-- Each of these has used one answer. -/
def afterTransaction (c : Conn) : Conn :=
  { c with answers.transactions := fun i => c.answers.transactions (i + 1) }

def afterCheckpoint (c : Conn) : Conn :=
  { c with
    answers.checkpoints := fun i => c.answers.checkpoints (i + 1)
    done := c.done ++ [.checkpoint (c.answers.checkpoints 0)] }

def afterVacuum (c : Conn) : Conn :=
  { c with answers.vacuums := fun i => c.answers.vacuums (i + 1) }

def afterConversion (c : Conn) : Conn :=
  { c with answers.conversions := fun i => c.answers.conversions (i + 1) }

def afterFileSize (c : Conn) : Conn :=
  { c with answers.fileSizes := fun i => c.answers.fileSizes (i + 1) }

def afterWalSize (c : Conn) : Conn :=
  { c with answers.walSizes := fun i => c.answers.walSizes (i + 1) }

end Conn

section Calls

variable {α : Type} {statements : Database → Database × α}

/-- One transaction: its statements on the database, or nothing. -/
def transaction (statements : Database → Database × α) : Upkeep α := ⟨fun c =>
  match c.answers.transactions 0 with
  | some failure => (.error failure, c.afterTransaction)
  | none => (.ok (statements c.db).2, { c.afterTransaction with db := (statements c.db).1 })⟩

theorem run_transaction_of_none {c : Conn} (h : c.answers.transactions 0 = none) :
    (transaction statements).run c =
      (.ok (statements c.db).2, { c.afterTransaction with db := (statements c.db).1 }) := by
  simp only [transaction, h]

theorem run_transaction_of_some {c : Conn} {failure : FailureClass}
    (h : c.answers.transactions 0 = some failure) :
    (transaction statements).run c = (.error failure, c.afterTransaction) := by
  simp only [transaction, h]

/-- `checkpoint` with `CheckpointMode::Truncate`: `execute_batch` does not look at rows. -/
def checkpoint : Upkeep Unit := ⟨fun c =>
  match c.answers.checkpoints 0 with
  | .failed failure => (.error failure, c.afterCheckpoint)
  | _ => (.ok (), c.afterCheckpoint)⟩

def tryCheckpointTruncate : Upkeep Bool := do
  match ← attempt checkpoint with
  | .ok () => pure true
  | .error _ => pure false

def incrementalAutoVacuum : Int := 2

def autoVacuumMode : Upkeep Int := ⟨fun c => (.ok c.autoVacuum, c)⟩

def convertToIncrementalVacuum : Upkeep Unit := ⟨fun c =>
  match c.answers.conversions 0 with
  | some failure => (.error failure, c.afterConversion)
  | none => (.ok (), { c.afterConversion with autoVacuum := incrementalAutoVacuum })⟩

def incrementalVacuum : Upkeep Unit := ⟨fun c =>
  match c.answers.vacuums 0 with
  | some failure => (.error failure, c.afterVacuum)
  | none => (.ok (), c.afterVacuum)⟩

/-- The size of the main file. -/
def fileSize : Upkeep Nat := ⟨fun c => (.ok (c.answers.fileSizes 0), c.afterFileSize)⟩

def walSize : Upkeep Nat := ⟨fun c => (.ok (c.answers.walSizes 0), c.afterWalSize)⟩

def databaseBytes : Upkeep Nat := do
  let main ← fileSize
  let wal ← walSize
  return min (main + wal) (2 ^ 64 - 1)

end Calls

def pruneBatchRows : Nat := 5000

section Batches

variable (scan : Scan (Int × Event))

/-- `SELECT id … WHERE timestamp_ns < cutoff LIMIT 5000`. -/
def expiredBatch (cutoff : Int) (db : Database) : List Int :=
  (((scan.order db.logEvent.rows).filter fun row => row.2.row.timestampNs < cutoff).take
    pruneBatchRows).map Prod.fst

/-- `SELECT id … ORDER BY timestamp_ns ASC LIMIT 5000`. -/
def oldestBatch (db : Database) : List Int :=
  (((scan.order db.logEvent.rows).insertionSort fun a b =>
    a.2.row.timestampNs ≤ b.2.row.timestampNs).take pruneBatchRows).map Prod.fst

end Batches

/-- `DELETE FROM log_event WHERE id IN (…)`, with the number of rows it deletes. -/
def deleteIds (ids : List Int) (db : Database) : Database × Nat :=
  (db.deleteEvents fun id _ => decide (id ∈ ids),
    db.logEvent.rows.countP fun row => decide (row.1 ∈ ids))

theorem length_deleteIds (ids : List Int) (db : Database) :
    (deleteIds ids db).1.logEvent.rows.length + (deleteIds ids db).2 =
      db.logEvent.rows.length := by
  have hrows := List.length_eq_length_filter_add (fun row : Int × Event => decide (row.1 ∈ ids))
    (l := db.logEvent.rows)
  rw [hrows, Nat.add_comm, ← List.countP_eq_length_filter]
  rfl

/-- `collect_orphan_dimensions` with the number of rows it deletes. -/
def sweep (db : Database) : Database × Nat :=
  (db.collectOrphanDimensions, db.logResource.rows.countP fun row => !db.referenced row.1)

/-- The orphan sweep behind a number of deletions. -/
def sweepAfter (deleted : Nat) : Upkeep Nat := if 0 < deleted then transaction sweep else pure 0

section Retention

def i64Min : Int := -2 ^ 63

def i64Max : Int := 2 ^ 63 - 1

/-- The window is in nanoseconds. -/
def retentionCutoff (now : Int) (window : Nat) : Int :=
  max (now - min (window : Int) i64Max) i64Min

structure PruneReport where
  logEvents : Nat
  resources : Nat
  deriving DecidableEq, Repr

/-- One round of the loop of `prune`. -/
def pruneBatch (cutoff : Int) : Upkeep Nat := ⟨fun c =>
  (transaction fun db => deleteIds (expiredBatch c.scan cutoff db) db).run c⟩

theorem rows_pruneBatch_lt {cutoff : Int} {c c' : Conn} {deleted : Nat}
    (h : (pruneBatch cutoff).run c = (.ok deleted, c')) (hdeleted : pruneBatchRows ≤ deleted) :
    c'.db.logEvent.rows.length < c.db.logEvent.rows.length := by
  simp only [pruneBatch, transaction] at h
  split at h
  · cases h
  · cases h
    have hrows := length_deleteIds (expiredBatch c.scan cutoff c.db) c.db
    simp only [pruneBatchRows] at hdeleted ⊢
    omega

/-- The loop of `prune`, which ends with the first short batch. -/
def pruneLoop (cutoff : Int) (logEvents : Nat) (c : Conn) : Except FailureClass Nat × Conn :=
  match _h : (pruneBatch cutoff).run c with
  | (.error failure, c') => (.error failure, c')
  | (.ok deleted, c') =>
    if deleted < pruneBatchRows then (.ok (logEvents + deleted), c')
    else pruneLoop cutoff (logEvents + deleted) c'
termination_by c.db.logEvent.rows.length
decreasing_by exact rows_pruneBatch_lt _h (by omega)

section Loop

variable {cutoff : Int} {logEvents deleted : Nat} {c c' : Conn} {failure : FailureClass}

theorem pruneLoop_of_error (h : (pruneBatch cutoff).run c = (.error failure, c')) :
    pruneLoop cutoff logEvents c = (.error failure, c') := by
  rw [pruneLoop, h]

theorem pruneLoop_of_short (h : (pruneBatch cutoff).run c = (.ok deleted, c'))
    (hshort : deleted < pruneBatchRows) :
    pruneLoop cutoff logEvents c = (.ok (logEvents + deleted), c') := by
  rw [pruneLoop, h]
  simp only [hshort, if_true]

theorem pruneLoop_of_full (h : (pruneBatch cutoff).run c = (.ok deleted, c'))
    (hfull : ¬deleted < pruneBatchRows) :
    pruneLoop cutoff logEvents c = pruneLoop cutoff (logEvents + deleted) c' := by
  rw [pruneLoop, h]
  simp only [hfull, if_false]

end Loop

/-- The deletions of `prune`. -/
def pruneExpired (window : Option Nat) (now : Int) : Upkeep Nat :=
  match window with
  | some window => ⟨pruneLoop (retentionCutoff now window) 0⟩
  | none => pure 0

def prune (window : Option Nat) (now : Int) : Upkeep PruneReport := do
  let logEvents ← pruneExpired window now
  let resources ← sweepAfter logEvents
  return ⟨logEvents, resources⟩

end Retention

/-- `rebuild_fts`, with the number of rows it indexes. -/
def rebuildFts : Upkeep Nat := transaction fun db =>
  (db.rebuildFts, db.rebuildFts.logsFts.rows.length)

section Quota

structure QuotaReport where
  logEvents : Nat
  bytesBefore : Nat
  bytesAfter : Nat
  deriving DecidableEq, Repr

def maxQuotaRounds : Nat := 8

/-- One batch of the oldest events. -/
def pruneOldestBatch : Upkeep Nat := ⟨fun c =>
  let ids := oldestBatch c.scan c.db
  match (transaction fun db => deleteIds ids db).run c with
  | (.ok deleted, c') => (.ok deleted, { c' with done := c'.done ++ [.evicted ids] })
  | (.error failure, c') => (.error failure, c')⟩

/-- Fold the deletions of a round in, reclaim the freelist and fold that too; false stops
the loop. -/
def reclaim : Upkeep Bool := do
  let folded ← tryCheckpointTruncate
  if folded = false then pure false
  else do
    incrementalVacuum
    tryCheckpointTruncate

/-- The rounds that are left of the eviction loop, and what it has evicted. -/
def quotaRounds (quota : Nat) : Nat → Nat → Upkeep Nat
  | 0, evicted => pure evicted
  | rounds + 1, evicted => do
    let size ← fileSize
    if size ≤ quota then pure evicted
    else do
      let deleted ← pruneOldestBatch
      if deleted = 0 then pure (evicted + deleted)
      else do
        let folded ← reclaim
        if folded = false then pure (evicted + deleted)
        else quotaRounds quota rounds (evicted + deleted)

/-- Databases from before incremental auto-vacuum are converted once. -/
def ensureIncremental : Upkeep Unit := do
  let mode ← autoVacuumMode
  if mode = incrementalAutoVacuum then pure () else convertToIncrementalVacuum

/-- The sweep and the report behind the eviction loop. -/
def finishQuota (bytesBefore logEvents : Nat) : Upkeep QuotaReport := do
  let _ ← sweepAfter logEvents
  let bytesAfter ← databaseBytes
  return ⟨logEvents, bytesBefore, bytesAfter⟩

def enforceSizeQuota (quota : Nat) : Upkeep QuotaReport := do
  let bytesBefore ← databaseBytes
  let folded ← tryCheckpointTruncate
  if folded = false then do
    let bytesAfter ← databaseBytes
    return ⟨0, bytesBefore, bytesAfter⟩
  else do
    ensureIncremental
    let logEvents ← quotaRounds quota maxQuotaRounds 0
    finishQuota bytesBefore logEvents

end Quota

end OtelSqlite.Sqlite
