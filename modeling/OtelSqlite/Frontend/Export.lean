import OtelSqlite.Ingress.EnqueueAccounting
import OtelSqlite.Lib.Permits
import OtelSqlite.Mapping.Accepted
import OtelSqlite.Pipeline.Tables

/-!
# The export handler in front of the pipeline

`LogsIngress::handle` as the future of a call together with its two tasks on the blocking pool.
The future waits for a permit of the stream limit, then in `MappingBudget::run` for a permit of
the mapping budget and for the mapping job, then for the enqueue task, and answers in `finish`.
It can be dropped at every await. The job owns its mapping permit and the enqueue task owns the
stream permit, so both are given back when the closure ends, whatever became of the future.

A call is an automaton that says what a step does with the permits and with the pipeline; the
front end carries that out. Neither semaphore is ever closed, so the two errors for that are
left out.
-/

namespace OtelSqlite.Frontend

open OtelSqlite.Lib (Use Permits)
open OtelSqlite.Model (Formats BatchOrigin LogRecord IngestMessage)
open OtelSqlite.Mapping (ResourceLogs IngressError StructSizes IngressConfig rejectIf count
  validateRequest mapChunks)
open OtelSqlite.Core.Batcher (InsertBatcherConfig)
open OtelSqlite.Ingress (QueueConfig EnqueueOutcome Status Answer ExportLogsServiceResponse
  partialSuccess mappingError tooManyChunks answerUnqueued)
open OtelSqlite.Pipeline (Setup ExportChunk Server Event Deployed DeployedEvent maxRecordsLimit)
open OtelSqlite.Sqlite (Libraries RowIds Writer)

inductive DurabilityMode where
  | commit
  | enqueue
  deriving DecidableEq, Repr

/-- The statuses of the pipeline and `Status::internal`. -/
inductive Failure where
  | status (status : Status)
  | internal (message : String)
  deriving DecidableEq, Repr

abbrev Response := Except Failure ExportLogsServiceResponse

def respond : Answer → Response
  | .ok response => .ok response
  | .error status => .error (.status status)

def mappingTimedOut : Response := .error (.status (.unavailable "log mapping timed out"))

def mappingTaskFailed (error : String) : Response :=
  .error (.internal s!"log mapping task failed: {error}")

def enqueueTaskFailed (error : String) : Response :=
  .error (.internal s!"enqueue task failed: {error}")

def invalidRequest : IngressError → Response
  | .mapping message => respond (mappingError message)

/-- `finish` in enqueue mode. -/
def finishQueued (outcome : EnqueueOutcome) : Answer :=
  match answerUnqueued outcome with
  | some answer => answer
  | none =>
    if 0 < outcome.rejected then
      .ok (partialSuccess outcome.rejected
        "ingress accepted part of the request; retry only the rejected records")
    else .ok ⟨none⟩

structure ExportConfig where
  formats : Formats
  sizes : StructSizes
  limits : IngressConfig
  maxRecordsPerRequest : Nat
  validated : maxRecordsPerRequest ≤ maxRecordsLimit
  maxConcurrentStreams : Nat
  mappingConcurrency : Nat
  mappingTimeout : Nat
  durabilityMode : DurabilityMode
  queue : QueueConfig
  batching : InsertBatcherConfig
  commandQueueCapacity : Nat
  requests : Nat → List ResourceLogs
  deadline : Nat → Option Nat

/-- The closure given to the mapping budget. -/
def mapRequest (config : ExportConfig) (resourceLogs : List ResourceLogs) :
    Except IngressError (List IngestMessage) := do
  let total := count resourceLogs
  let limit := config.maxRecordsPerRequest
  rejectIf (limit < total) s!"request contains {total} log records, limit is {limit}"
  validateRequest config.sizes config.limits resourceLogs
  mapChunks config.formats resourceLogs

/-- A message as the pipeline has it. -/
def exportChunk : IngestMessage → Option (ExportChunk BatchOrigin LogRecord)
  | .logs chunk =>
    if h : chunk.records ≠ [] then some ⟨chunk.origin, chunk.records, h⟩ else none
  | .flush => none

/-- The pipeline behind the handlers; a request that cannot be mapped does not get there. -/
def ExportConfig.setup (config : ExportConfig) : Setup BatchOrigin LogRecord where
  queue := config.queue
  batching := config.batching
  commandQueueCapacity := config.commandQueueCapacity
  maxRecordsPerRequest := config.maxRecordsPerRequest
  validated := config.validated
  requests i :=
    match mapRequest config (config.requests i) with
    | .ok messages => messages.filterMap exportChunk
    | .error _ => []
  deadline := config.deadline

section BlockingPool

/-- A task on the blocking pool. A closure that ends, by returning, by a panic or because the
runtime drops it unstarted, has dropped what it owns before its join handle is ready. -/
inductive Task (T : Type) where
  | absent
  | queued
  | running
  | ended (outcome : Except String T)
  | joinable (outcome : Except String T)

inductive TaskEvent where
  | start
  | return
  | panic (error : String)
  | discard (error : String)
  | join

variable {T : Type}

/-- The closure still has its permit. -/
def Task.holds : Task T → Bool
  | .queued | .running => true
  | _ => false

def TaskEvent.allowed (returned : Bool) : TaskEvent → Bool
  | .return => returned
  | .panic _ => false
  | .start | .discard _ | .join => true

/-- A step of the pool on a task that would return `result`. -/
def Task.step (result : T) : Task T → TaskEvent → Option (Task T × Use)
  | .queued, .start => some (.running, .keep)
  | .queued, .discard error => some (.ended (.error error), .give)
  | .running, .return => some (.ended (.ok result), .give)
  | .running, .panic error => some (.ended (.error error), .give)
  | .ended outcome, .join => some (.joinable outcome, .keep)
  | _, _ => none

end BlockingPool

/-- Where the future of a call stands. -/
inductive CallPhase where
  | idle
  /-- Waits for the stream limit. -/
  | limited
  /-- In `MappingBudget::run`, waits for a permit. -/
  | budgeted (deadline : Nat)
  /-- In `MappingBudget::run`, waits for the job. -/
  | mapping (deadline : Nat)
  /-- Waits for the enqueue task. -/
  | enqueueing
  | finishing
  | answered (response : Response)
  | dropped

/-- The future owns the stream permit. -/
def CallPhase.holds : CallPhase → Bool
  | .budgeted _ | .mapping _ => true
  | _ => false

structure ExportCall where
  phase : CallPhase
  job : Task (Except IngressError (List IngestMessage))
  task : Task Unit

def ExportCall.new : ExportCall := ⟨.idle, .absent, .absent⟩

inductive FutureEvent where
  | arrive
  | permitted (now : Nat)
  /-- Gets a mapping permit and spawns the job. -/
  | spawn
  | expire (now : Nat)
  /-- Polls the join handle of the job. -/
  | pollJob
  /-- Polls the join handle of the enqueue task. -/
  | pollTask
  | finish
  | drop

inductive CallEvent where
  | future (e : FutureEvent)
  | job (e : TaskEvent)
  | task (e : TaskEvent)
  /-- A step of `enqueue`, which is what the enqueue task runs. -/
  | enqueue (now : Nat)

/-- What a step makes of the call, of the two semaphores and of the pipeline. -/
structure Action where
  call : ExportCall
  streams : Use := .keep
  budget : Use := .keep
  pipeline : Option (Event LogRecord) := none

section Call

variable (config : ExportConfig) (i : Nat) (server : Server BatchOrigin LogRecord) (c : ExportCall)

/-- The answer ends the future, which drops the stream permit it owns. -/
def ExportCall.giveUp (phase : CallPhase) : Action :=
  { call := { c with phase := phase }, streams := .give }

/-- The value of the job: only a mapped request goes on to `enqueue`. -/
def pollJob : Option Action :=
  match c.job with
  | .joinable (.error error) => some (c.giveUp (.answered (mappingTaskFailed error)))
  | .joinable (.ok (.error error)) => some (c.giveUp (.answered (invalidRequest error)))
  | .joinable (.ok (.ok _)) =>
    -- the stream permit moves into the enqueue task
    some { call := { c with phase := .enqueueing, task := .queued }, pipeline := some (.handle i) }
  | _ => none

/-- The answer in enqueue mode, once `enqueue` has returned. -/
def queuedAnswer : Option Answer :=
  match server.ingress.calls i with
  | .refused => some (tooManyChunks (config.setup.work i).length config.queue.capacity)
  | .full outcome | .done outcome => some (finishQueued outcome)
  | _ => none

/-- The value of the enqueue task; in commit mode the pipeline's handler takes over. -/
def pollTask : Option Action :=
  match c.task, config.durabilityMode with
  | .joinable (.error error), _ =>
    some { call := { c with phase := .answered (enqueueTaskFailed error) } }
  | .joinable (.ok ()), .commit => some { call := { c with phase := .finishing } }
  | .joinable (.ok ()), .enqueue =>
    (queuedAnswer config i server).map fun answer =>
      { call := { c with phase := .answered (respond answer) } }
  | _, _ => none

def futureStep : FutureEvent → Option Action
  | .arrive =>
    match c.phase with
    | .idle => some { call := { c with phase := .limited } }
    | _ => none
  | .permitted now =>
    match c.phase with
    | .limited =>
      some { call := { c with phase := .budgeted (now + config.mappingTimeout) }, streams := .take }
    | _ => none
  | .spawn =>
    match c.phase with
    | .budgeted deadline =>
      some { call := { c with phase := .mapping deadline, job := .queued }, budget := .take }
    | _ => none
  | .expire now =>
    match c.phase, c.job with
    | .budgeted deadline, _ =>
      if deadline ≤ now then some (c.giveUp (.answered mappingTimedOut)) else none
    | .mapping _, .joinable _ => none
    | .mapping deadline, _ =>
      if deadline ≤ now then some (c.giveUp (.answered mappingTimedOut)) else none
    | _, _ => none
  | .pollJob =>
    match c.phase with
    | .mapping _ => pollJob i c
    | _ => none
  | .pollTask =>
    match c.phase with
    | .enqueueing => pollTask config i server c
    | _ => none
  | .finish =>
    match c.phase, server.handlers i with
    | .finishing, .answered answer =>
      some { call := { c with phase := .answered (respond answer) } }
    | .finishing, _ => some { call := c, pipeline := some (.handle i) }
    | _, _ => none
  | .drop =>
    match c.phase with
    | .limited | .enqueueing | .finishing => some { call := { c with phase := .dropped } }
    | .budgeted _ | .mapping _ => some (c.giveUp .dropped)
    | .idle | .answered _ | .dropped => none

def callStep : CallEvent → Option Action
  | .future e => futureStep config i server c e
  | .job e =>
    (c.job.step (mapRequest config (config.requests i)) e).map fun (job, use) =>
      { call := { c with job := job }, budget := use }
  | .task e =>
    -- the closure of the task returns when `enqueue` has, which does not panic
    if TaskEvent.allowed (server.ingress.calls i).returned e then
      (c.task.step () e).map fun (task, use) => { call := { c with task := task }, streams := use }
    else none
  | .enqueue now =>
    match c.task with
    | .running => some { call := c, pipeline := some (.enqueue i now) }
    | _ => none

end Call

structure Service where
  deployed : Deployed
  streams : Permits
  budget : Permits
  calls : Nat → ExportCall

inductive ServiceEvent where
  | call (i : Nat) (e : CallEvent)
  /-- A step of another thread. -/
  | inner (e : DeployedEvent)

/-- The steps of the handlers come from their calls. -/
def ofCalls : DeployedEvent → Bool
  | .step (.handle _) | .step (.enqueue _ _) => true
  | _ => false

namespace Service

def new (config : ExportConfig) (start : Nat) (writer : Writer) : Service where
  deployed := ⟨Server.new start, writer⟩
  streams := ⟨max config.maxConcurrentStreams 1⟩
  budget := ⟨max config.mappingConcurrency 1⟩
  calls := fun _ => .new

variable [BEq BatchOrigin] (libraries : Libraries) (rowIds : RowIds) (quota : Option Nat)
  (config : ExportConfig)

def advance (d : Deployed) : Option (Event LogRecord) → Option Deployed
  | none => some d
  | some e => d.step libraries rowIds quota config.setup (.step e)

/-- Carries out what a call does. -/
def perform (s : Service) (i : Nat) (action : Action) : Option Service := do
  let streams ← s.streams.apply action.streams
  let budget ← s.budget.apply action.budget
  let deployed ← advance libraries rowIds quota config s.deployed action.pipeline
  some { deployed, streams, budget, calls := Function.update s.calls i action.call }

def step (s : Service) : ServiceEvent → Option Service
  | .call i e => do
    let action ← callStep config i s.deployed.server (s.calls i) e
    s.perform libraries rowIds quota config i action
  | .inner e =>
    if ofCalls e then none
    else do
      let deployed ← s.deployed.step libraries rowIds quota config.setup e
      some { s with deployed := deployed }

def run (s : Service) (events : List ServiceEvent) : Option Service :=
  events.foldlM (step libraries rowIds quota config) s

end Service

end OtelSqlite.Frontend
