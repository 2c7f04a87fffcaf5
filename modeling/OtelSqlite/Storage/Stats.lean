import OtelSqlite.Core.Commit

/-!
# Progress evidence of the storage threads

The counters the watchdog reads: each thread's progress mark and liveness flag,
the backlog the writer publishes and the records the batcher observes. Times are
milliseconds of the process-wide monotonic clock. The diagnostic counters next to
them are left out.
-/

namespace OtelSqlite.Storage

open OtelSqlite.Core OtelSqlite.Core.Commit

/-- One observation of pipeline health evidence. -/
structure PipelineSample where
  writerRunning : Bool
  batcherRunning : Bool
  writerIdleMs : Nat
  batcherIdleMs : Nat
  queueDepth : Nat
  queueCapacity : Nat
  pendingRecords : Nat
  outstandingTickets : Nat
  watermarkIdleMs : Nat
  maintenanceInProgress : Bool
  maintenanceElapsedMs : Nat
  deriving DecidableEq, Repr

def PipelineSample.pendingWork (sample : PipelineSample) : Nat :=
  saturatingAdd sample.queueDepth sample.pendingRecords

structure WriterStats where
  queueDepth : Nat
  inFlight : Nat
  lastProgressMs : Nat
  maintenanceInProgress : Bool
  maintenanceStartedMs : Nat
  running : Bool
  deriving DecidableEq, Repr

namespace WriterStats

def markProgress (stats : WriterStats) (now : Nat) : WriterStats :=
  { stats with lastProgressMs := now }

/-- The counters of a thread that has started: the progress clock starts now. -/
def new (now : Nat) : WriterStats where
  queueDepth := 0
  inFlight := 0
  lastProgressMs := now
  maintenanceInProgress := false
  maintenanceStartedMs := 0
  running := true

def beginCommand (stats : WriterStats) (queuedAfterDequeue : Nat) : WriterStats :=
  { stats with queueDepth := queuedAfterDequeue, inFlight := 1 }

/-- The in-flight guard is dropped and the loop publishes the queue length again. -/
def endCommand (stats : WriterStats) (queued : Nat) : WriterStats :=
  { stats with queueDepth := queued, inFlight := 0 }

end WriterStats

structure BatcherStats where
  bufferedRecords : Nat
  lastProgressMs : Nat
  running : Bool
  deriving DecidableEq, Repr

namespace BatcherStats

def markProgress (stats : BatcherStats) (now : Nat) : BatcherStats :=
  { stats with lastProgressMs := now }

def new (now : Nat) : BatcherStats where
  bufferedRecords := 0
  lastProgressMs := now
  running := true

def observeBuffered (stats : BatcherStats) (buffered : Nat) : BatcherStats :=
  { stats with bufferedRecords := buffered }

end BatcherStats

structure StorageHealth where
  writer : WriterStats
  batcher : BatcherStats
  ledger : CommitLedger
  queueCapacity : Nat

/-- The fields as they are when one instant is sampled. -/
def StorageHealth.sample (health : StorageHealth) (now : Nat) : PipelineSample where
  writerRunning := health.writer.running
  batcherRunning := health.batcher.running
  writerIdleMs := now - health.writer.lastProgressMs
  batcherIdleMs := now - health.batcher.lastProgressMs
  queueDepth := saturatingAdd health.writer.queueDepth health.writer.inFlight
  queueCapacity := health.queueCapacity
  pendingRecords := health.batcher.bufferedRecords
  outstandingTickets := health.ledger.outstandingTickets
  watermarkIdleMs := now - health.ledger.inner.lastAdvanceMs
  maintenanceInProgress := health.writer.maintenanceInProgress
  maintenanceElapsedMs :=
    if health.writer.maintenanceStartedMs = 0 then 0
    else now - health.writer.maintenanceStartedMs

/-- The pipeline reports work exactly if one of the three counters shows some. -/
theorem StorageHealth.pendingWork_pos (health : StorageHealth) (now : Nat) :
    0 < (health.sample now).pendingWork ↔
      0 < health.writer.queueDepth ∨ 0 < health.writer.inFlight ∨
        0 < health.batcher.bufferedRecords := by
  have hdepth : 0 < (health.sample now).queueDepth ↔
      0 < health.writer.queueDepth + health.writer.inFlight := saturatingAdd_pos
  rw [PipelineSample.pendingWork, saturatingAdd_pos]
  show 0 < _ + health.batcher.bufferedRecords ↔ _
  omega

end OtelSqlite.Storage
