import OtelSqlite.Runtime.Scheduler
import OtelSqlite.Runtime.Watchdog

/-!
# The process: main, its threads and its tasks

The server's parties as `main` starts them: the watchdog thread, the maintenance thread, the task
that waits for a signal, the gRPC server, the storage threads, and `main` itself, which waits for
the server and then takes everything down. Each party is an automaton that sees the others only
through what they share; a move is one access to that. What a party learns from outside (a sample
of the pipeline, the answers of the command queue, how the server ended) comes with the event.
Where the code waits for one of two things, the events say which one it took.

The process starts once the storage is open and both threads are spawned; failures before that
end it without a server.
-/

namespace OtelSqlite.Runtime

open OtelSqlite.Storage (PipelineSample)
open OtelSqlite.Core.Batcher (saturatingDeadline)

/-- Times are nanoseconds; the thresholds of the watchdog are milliseconds, like its samples. -/
structure ProcessConfig where
  watchdog : WatchdogConfig
  tickInterval : Nat
  haltOnUnhealthy : Bool
  maintenance : MaintenanceConfig
  drainTimeout : Nat
  storageShutdownTimeout : Nat

/-- The floor under the sampling interval. -/
def minTickInterval : Nat := 10000000

def normalizedTickInterval (interval : Nat) : Nat := max interval minTickInterval

section Watchdog

/-- The loop of the watchdog, from its check for a shutdown on. -/
inductive WatchdogPlace where
  | top (previous : HealthState)
  | sampling (previous : HealthState)
  | recheck (evaluation : Evaluation)
  | sending (evaluation : Evaluation)
  | sent
  | waiting (previous : HealthState) (wake : Nat)
  | ended (panicked : Bool)

inductive WatchdogEvent where
  | step
  | sample (sample : PipelineSample)
  | timer
  | panic

/-- `stop` is that a shutdown was signalled, `received` that the halt has a receiver. -/
def WatchdogPlace.next (product : Nat → ℚ → Nat) (config : ProcessConfig) (clock : Nat)
    (stop received : Bool) : WatchdogPlace → WatchdogEvent → Option WatchdogPlace
  | .ended _, _ => none
  | _, .panic => some (.ended true)
  | .top previous, .step => some (if stop then .ended false else .sampling previous)
  | .sampling _, .sample sample =>
    let evaluation := evaluate product config.watchdog sample
    if evaluation.state = .unhealthy ∧ config.haltOnUnhealthy = true then
      some (.recheck evaluation)
    else some (.waiting evaluation.state (clock + normalizedTickInterval config.tickInterval))
  | .recheck evaluation, .step => some (if stop then .ended false else .sending evaluation)
  | .sending _, .step => some (if received then .sent else .ended false)
  | .sent, .step => some (.ended false)
  -- the two arms of the wait
  | .waiting _ _, .step => if stop then some (.ended false) else none
  | .waiting previous wake, .timer => if wake ≤ clock then some (.top previous) else none
  | _, _ => none

/-- A halt has just been sent. -/
def WatchdogPlace.sends : WatchdogPlace → Bool
  | .sent => true
  | _ => false

/-- Behind a sent halt, the flag is stored. -/
def WatchdogPlace.stores : WatchdogPlace → WatchdogPlace → Bool
  | .sent, .ended false => true
  | _, _ => false

end Watchdog

section Worker

/-- The loop of the maintenance worker. -/
inductive WorkerPlace where
  | top (scheduler : Scheduler)
  | ticking (scheduler : Scheduler)
  | sleeping (scheduler : Scheduler) (deadline : Nat)
  | idle
  | ended (panicked : Bool)

inductive WorkerEvent where
  | step
  | tick (answer : Operation → SendAnswer)
  | timer
  | panic

def WorkerPlace.next (clock : Nat) (stop : Bool) : WorkerPlace → WorkerEvent → Option WorkerPlace
  | .ended _, _ => none
  | _, .panic => some (.ended true)
  | .top scheduler, .step => some (if stop then .ended false else .ticking scheduler)
  | .ticking scheduler, .tick answer =>
    let (scheduler, ticked) := scheduler.tick ⟨clock, answer⟩
    if ticked.report.disconnected then some (.ended false)
    else
      match scheduler.nextDeadline with
      | some deadline => some (.sleeping scheduler deadline)
      | none => some .idle
  -- the shutdown arms of the two waits
  | .sleeping _ _, .step | .idle, .step => if stop then some (.ended false) else none
  | .sleeping scheduler deadline, .timer =>
    if deadline ≤ clock then some (.top scheduler) else none
  | _, _ => none

end Worker

section Server

/-- The task that waits for a signal of the system or for a halt, and passes it on. It is spawned
once the server is set up; if that fails, the receiver of the halt goes with it. -/
inductive SignalPlace where
  | unborn
  | waiting
  | resolved
  | signalled
  | done
  | never
  deriving DecidableEq, Repr

inductive SignalEvent where
  | os
  | step
  deriving DecidableEq, Repr

/-- `ready` is that `wait_for_halt` would return. -/
def SignalPlace.next (ready : Bool) : SignalPlace → SignalEvent → Option SignalPlace
  | .waiting, .os => some .resolved
  | .waiting, .step => if ready then some .resolved else none
  | .resolved, .step => some .signalled
  -- the receiver of the halt goes with the task
  | .signalled, .step => some .done
  | _, _ => none

/-- The signal has been passed on. -/
def SignalPlace.fired : SignalPlace → Bool
  | .signalled | .done => true
  | _ => false

/-- The receiver of the halt is there. -/
def SignalPlace.receives : SignalPlace → Bool
  | .done | .never => false
  | _ => true

inductive ServerPlace where
  | starting
  | serving
  | draining (deadline : Nat)
  | returned (result : Except String Unit)

inductive ServerEvent where
  | start (result : Except String Unit)
  | signal
  | ends (result : Except String Unit)
  | deadline

def ServerPlace.next (config : ProcessConfig) (clock : Nat) (fired : Bool) :
    ServerPlace → ServerEvent → Option ServerPlace
  | .starting, .start (.error message) => some (.returned (.error message))
  | .starting, .start (.ok ()) => some .serving
  | .serving, .signal => if fired then some (.draining (clock + config.drainTimeout)) else none
  -- without a signal the transport only ends with an error
  | .serving, .ends (.error message) => some (.returned (.error message))
  | .draining _, .ends result => some (.returned result)
  | .draining deadline, .deadline => if deadline ≤ clock then some (.returned (.ok ())) else none
  | _, _ => none

/-- The task is spawned behind the set-up of the server. -/
def ServerEvent.spawns : ServerEvent → SignalPlace → SignalPlace
  | .start (.ok ()), _ => .waiting
  | .start (.error _), _ => .never
  | _, place => place

end Server

section Main

inductive WriterEnd where
  | returned
  | failed (message : String)
  | panicked
  deriving DecidableEq, Repr

inductive StorageFailure where
  | batcherPanicked
  | writerPanicked
  | writerFailed (message : String)
  | shutdownTimeout
  deriving DecidableEq, Repr

/-- How joining the writer ends. -/
def WriterEnd.failure : WriterEnd → Option StorageFailure
  | .returned => none
  | .failed message => some (.writerFailed message)
  | .panicked => some .writerPanicked

/-- What `main` has collected. -/
structure Report where
  serve : Except String Unit
  haltRequested : Bool
  watchdogPanicked : Bool
  workerPanicked : Bool
  storage : Option StorageFailure

def Report.new (serve : Except String Unit) : Report := ⟨serve, false, false, false, none⟩

/-- The statements of `main` behind the call of the server. -/
inductive MainPlace where
  | serving
  | served (report : Report)
  | stoppingWatchdog (report : Report)
  | joiningWatchdog (report : Report)
  | stoppingWorker (report : Report)
  | joiningWorker (report : Report)
  | releasing (report : Report)
  | joiningBatcher (report : Report) (deadline : Nat)
  | joiningWriter (report : Report) (deadline : Nat)
  | finished (report : Report)

/-- The place in the order of the statements. -/
@[simp]
def MainPlace.stage : MainPlace → Nat
  | .serving => 0
  | .served _ => 1
  | .stoppingWatchdog _ => 2
  | .joiningWatchdog _ => 3
  | .stoppingWorker _ => 4
  | .joiningWorker _ => 5
  | .releasing _ => 6
  | .joiningBatcher _ _ => 7
  | .joiningWriter _ _ => 8
  | .finished _ => 9

/-- What `main` returns. -/
inductive ExitError where
  | ingress (message : String)
  | watchdog
  | maintenance
  | storage (failure : StorageFailure)
  deriving DecidableEq, Repr

def ExitError.context : ExitError → String
  | .ingress _ => "ingress server terminated unexpectedly"
  | .watchdog => "watchdog terminated with failure"
  | .maintenance => "maintenance worker terminated with failure"
  | .storage _ => "sqlite storage writer terminated with failure"

/-- The first failure in the order of the parties. -/
def Report.exit (report : Report) : Except ExitError Unit :=
  match report.serve with
  | .error message => .error (.ingress message)
  | .ok () =>
    if report.watchdogPanicked then .error .watchdog
    else if report.workerPanicked then .error .maintenance
    else
      match report.storage with
      | some failure => .error (.storage failure)
      | none => .ok ()

end Main

/-- The places, the flags of an interrupt, a sent and a stored halt, and how the storage threads
ended. -/
structure Process where
  clock : Nat
  watchdog : WatchdogPlace
  worker : WorkerPlace
  signal : SignalPlace
  server : ServerPlace
  main : MainPlace
  interrupted : Bool
  haltSent : Bool
  halted : Bool
  batcher : Option Bool
  writer : Option WriterEnd

inductive ProcessEvent where
  | tick (elapsed : Nat)
  | watchdog (e : WatchdogEvent)
  | worker (e : WorkerEvent)
  | signal (e : SignalEvent)
  | server (e : ServerEvent)
  | batcherEnds (panicked : Bool)
  | writerEnds (result : WriterEnd)
  | main

namespace Process

def new (config : ProcessConfig) (now : Nat) : Process where
  clock := now
  watchdog := .top .healthy
  worker := .top (Scheduler.new config.maintenance now)
  signal := .unborn
  server := .starting
  main := .serving
  interrupted := false
  haltSent := false
  halted := false
  batcher := none
  writer := none

/-- `main` has dropped its end of the watchdog's shutdown channel. -/
def stopsWatchdog (p : Process) : Bool := 3 ≤ p.main.stage

/-- And of the worker's. -/
def stopsWorker (p : Process) : Bool := 5 ≤ p.main.stage

/-- `wait_for_halt` on the halt of the watchdog returns: it was sent, or its sender is gone. -/
def haltReady (p : Process) : Bool :=
  p.haltSent || match p.watchdog with
    | .ended _ => true
    | _ => false

variable (product : Nat → ℚ → Nat) (config : ProcessConfig)

def mainNext (p : Process) : Option MainPlace :=
  match p.main with
  | .serving =>
    match p.server with
    | .returned result => some (.served (.new result))
    | _ => none
  | .served report => some (.stoppingWatchdog { report with haltRequested := p.halted })
  | .stoppingWatchdog report => some (.joiningWatchdog report)
  | .joiningWatchdog report =>
    match p.watchdog with
    | .ended panicked => some (.stoppingWorker { report with watchdogPanicked := panicked })
    | _ => none
  | .stoppingWorker report => some (.joiningWorker report)
  | .joiningWorker report =>
    match p.worker with
    | .ended panicked => some (.releasing { report with workerPanicked := panicked })
    | _ => none
  -- the handle of `Storage` on the command queue is released here
  | .releasing report =>
    some (.joiningBatcher report (saturatingDeadline p.clock config.storageShutdownTimeout))
  -- a handle is polled before the deadline
  | .joiningBatcher report deadline =>
    match p.batcher with
    | some true => some (.finished { report with storage := some .batcherPanicked })
    | some false => some (.joiningWriter report deadline)
    | none =>
      if deadline ≤ p.clock then some (.finished { report with storage := some .shutdownTimeout })
      else none
  | .joiningWriter report deadline =>
    match p.writer with
    | some result => some (.finished { report with storage := result.failure })
    | none =>
      if deadline ≤ p.clock then some (.finished { report with storage := some .shutdownTimeout })
      else none
  | .finished _ => none

def step (p : Process) : ProcessEvent → Option Process
  | .tick elapsed => some { p with clock := p.clock + elapsed }
  | .watchdog e =>
    (p.watchdog.next product config p.clock p.stopsWatchdog p.signal.receives e).map fun place =>
      { p with
        watchdog := place
        haltSent := p.haltSent || place.sends
        halted := p.halted || p.watchdog.stores place }
  | .worker e =>
    (p.worker.next p.clock p.stopsWorker e).map fun place => { p with worker := place }
  | .signal e =>
    (p.signal.next p.haltReady e).map fun place =>
      { p with signal := place, interrupted := p.interrupted || e = .os }
  | .server e =>
    (p.server.next config p.clock p.signal.fired e).map fun place =>
      { p with server := place, signal := e.spawns p.signal }
  | .batcherEnds panicked =>
    if p.batcher.isNone then some { p with batcher := some panicked } else none
  | .writerEnds result =>
    if p.writer.isNone then some { p with writer := some result } else none
  | .main => (p.mainNext config).map fun place => { p with main := place }

def run (p : Process) (events : List ProcessEvent) : Option Process :=
  events.foldlM (step product config) p

end Process

end OtelSqlite.Runtime
