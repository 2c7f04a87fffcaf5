import OtelSqlite.Pipeline.System
import OtelSqlite.Runtime.Threads

/-!
# The pipeline and the evidence it publishes

The server of `OtelSqlite.Pipeline.System` on a clock, with the gauges its two threads
store. The server's steps are as they are there; here the stores stand between them, each
a step of its own, and so do the guards a thread drops when it ends. Time passes as it
likes: an event may come at any time that is not before the last one.

`hand` is the command the writer holds, from the dequeue until `execute` returns. A
maintenance guard is taken and dropped in one step each.
-/

namespace OtelSqlite.Runtime

open OtelSqlite.Core OtelSqlite.Core.Commit OtelSqlite.Core.Batcher
open OtelSqlite.Storage OtelSqlite.Ingress OtelSqlite.Pipeline

variable {O R : Type}

/-- Where the batcher stands between the server's steps. -/
inductive BatcherPoint where
  /-- At the top of the loop, before `observe_buffered`. -/
  | top
  | receiving
  | handling
  /-- Behind the loop, before the last `observe_buffered`. -/
  | ending
  | ended
  | unwinding
  /-- The liveness guard is dropped. -/
  | stopped
  deriving DecidableEq, Repr

/-- Where the writer stands between the server's steps. -/
inductive WriterPoint where
  /-- At the top of the loop, before the queue length is stored. -/
  | top
  | receiving
  /-- Has a command, before `begin_command` stores the backlog. -/
  | taken
  /-- Before `begin_command` stores the in-flight marker. -/
  | counted
  | flagged
  /-- In `enforce_size_quota`. -/
  | evicting
  | executing
  /-- `execute` has returned, the in-flight guard is not dropped yet. -/
  | finished
  /-- Returning with an error, the in-flight guard is not dropped yet. -/
  | failing
  | returning
  /-- The liveness guard is dropped. -/
  | halted
  | stopped
  deriving DecidableEq, Repr

/-- The in-flight guard is held. -/
def WriterPoint.inFlight : WriterPoint → Bool
  | .flagged | .evicting | .executing | .finished | .failing => true
  | _ => false

/-- Where the batcher is when a step of the server has left it in this phase. -/
def BatcherPoint.of : BatcherPhase O R → BatcherPoint
  | .waiting => .top
  | .submitting _ _ => .handling
  | .draining _ | .closing | .leaving => .ending
  | .unwinding => .unwinding
  | .gone => .stopped

structure Watched (O R : Type) where
  now : Nat
  server : Server O R
  batcherAt : BatcherPoint
  writerAt : WriterPoint
  hand : Option (WriteCommand O (Exported R))
  batcherStats : BatcherStats
  writerStats : WriterStats

/-- Steps of the handlers, the control senders and other users of the command queue. -/
inductive OutsideAct where
  | handle (i : Nat)
  | enqueue (i : Nat)
  | control (j : Nat)
  | publish (k : Nat)
  | upkeep (checkpoint : Bool)
  deriving DecidableEq, Repr

inductive BatcherAct where
  | observe
  | receive
  | timer
  | hangUp
  | submit
  | unwind
  /-- The buffers go first when the thread unwinds. -/
  | dropBuffers
  /-- Close the ledger. -/
  | close
  | observeEnd
  | quit
  /-- Drop the receiver. -/
  | leave
  deriving DecidableEq, Repr

inductive WriterAct (R : Type) where
  | measure
  | take
  | count
  | flag
  /-- The database is over quota. -/
  | evict
  | evicted (ok : Bool)
  | enter
  /-- `ran` says whether a maintenance operation was run. -/
  | persist (weather : Weather (Exported R)) (ran : Bool)
  | settle
  | clear
  /-- `recv` fails: every sender is gone. -/
  | stop
  /-- The injected fault behind a command. -/
  | fault
  | halt
  /-- Drop the receiver. -/
  | leave
  | exit

inductive Act (R : Type) where
  | outside (act : OutsideAct)
  | batcher (act : BatcherAct)
  | writer (act : WriterAct R)

/-- The call as it is made at `now`. -/
def Call.stamp (now : Nat) : Call → Call
  | .complete ticket _ => .complete ticket now
  | .void ticket _ => .void ticket now
  | call => call

/-- `maintenance_guard`. -/
def maintain (now : Nat) (stats : WriterStats) : WriterStats :=
  { stats with maintenanceInProgress := true, maintenanceStartedMs := now }

/-- The maintenance guard is dropped. -/
def maintained (stats : WriterStats) : WriterStats :=
  { stats with maintenanceInProgress := false, maintenanceStartedMs := 0 }

/-- The commands `execute` runs under a maintenance guard. -/
def upkeepCommand : WriteCommand O R → Bool
  | .checkpoint | .maintenance => true
  | _ => false

/-- `record_count` is not zero. -/
def carriesRecords : WriteCommand O R → Bool
  | .insertLogs batch => !batch.records.isEmpty
  | _ => false

namespace Watched

def new (start : Nat) : Watched O R where
  now := start
  server := .new start
  batcherAt := .top
  writerAt := .top
  hand := none
  batcherStats := .new start
  writerStats := .new start

/-- What the watchdog samples. -/
def health (setup : Setup O R) (s : Watched O R) : StorageHealth where
  writer := s.writerStats
  batcher := s.batcherStats
  ledger := s.server.ledger
  queueCapacity := setup.commandQueueCapacity

section Outside

variable [BEq O] (setup : Setup O R)

def OutsideAct.event (now : Nat) : OutsideAct → Pipeline.Event R
  | .handle i => .handle i
  | .enqueue i => .enqueue i now
  | .control j => .control j now
  | .publish k => .publish k
  | .upkeep checkpoint => .upkeep checkpoint

def outsideStep (s : Watched O R) (act : OutsideAct) : Option (Watched O R) := do
  let server ← s.server.step setup (OutsideAct.event s.now act)
  some { s with server }

end Outside

section Batcher

variable [BEq O] (setup : Setup O R)

/-- The next message is a chunk with records. -/
def receivesChunk (s : Watched O R) : Bool :=
  match s.server.ingress.queue with
  | .logs chunk :: _ => !chunk.records.isEmpty
  | _ => false

/-- The server's batcher has taken a step. -/
def batcherMoved (s : Watched O R) (marked : Bool) (server : Server O R) : Watched O R :=
  { s with
    server
    batcherAt := .of server.batcher
    batcherStats := if marked then s.batcherStats.markProgress s.now else s.batcherStats }

/-- The submission sends a batch. -/
def submitsBatch (s : Watched O R) : Bool :=
  s.server.writer.active && !s.server.batcher.outbox.isEmpty

def batcherStep (s : Watched O R) : BatcherAct → Option (Watched O R)
  | .observe =>
    match s.batcherAt with
    | .top => some
        { s with
          batcherAt := .receiving
          batcherStats := s.batcherStats.observeBuffered s.server.buffers.buffered }
    | _ => none
  | .receive =>
    match s.batcherAt with
    | .receiving =>
      (s.server.receiveStep setup (fun _ => s.now) s.now).map (s.batcherMoved s.receivesChunk)
    | _ => none
  | .timer =>
    match s.batcherAt, s.server.ingress.queue with
    | .receiving, [] =>
      if s.server.buffers.deadline.any (· ≤ s.now) = true then
        (s.server.timerStep s.now).map (s.batcherMoved false)
      else none
    | _, _ => none
  | .hangUp =>
    match s.batcherAt with
    | .top | .receiving => s.server.hangUpStep.map (s.batcherMoved false)
    | _ => none
  | .submit => (s.server.submitStep setup).map (s.batcherMoved s.submitsBatch)
  | .unwind =>
    if s.server.batcher.live then
      some { s with server.batcher := .unwinding, batcherAt := .unwinding }
    else none
  | .dropBuffers =>
    match s.batcherAt with
    | .unwinding => some { s with server.buffers := [] }
    | _ => none
  | .close =>
    match s.server.batcher with
    | .closing => s.server.batcherExit.map fun server => { s with server }
    | .unwinding =>
      if s.server.buffers = [] then s.server.batcherExit.map fun server => { s with server }
      else none
    | _ => none
  | .observeEnd =>
    match s.batcherAt, s.server.batcher with
    | .ending, .leaving =>
      some { s with batcherAt := .ended, batcherStats := s.batcherStats.observeBuffered 0 }
    | _, _ => none
  | .quit =>
    match s.batcherAt, s.server.batcher with
    | .ended, .leaving | .unwinding, .leaving =>
      some
        { s with
          batcherAt := .stopped
          server.buffers := []
          batcherStats.running := false }
    | _, _ => none
  | .leave =>
    match s.batcherAt, s.server.batcher with
    | .stopped, .leaving => s.server.batcherExit.map fun server => { s with server }
    | _, _ => none

end Batcher

section Writer

variable [BEq O] (setup : Setup O R)

/-- The server's next ledger call is made now. -/
def stampDue (s : Watched O R) : Server O R :=
  match s.server.writer with
  | .settling calls => { s.server with writer := .settling (calls.map (Call.stamp s.now)) }
  | _ => s.server

/-- `execute` on the command in hand. A failure drops the command, and the guards go. -/
def persist (weather : Weather (Exported R)) (ran : Bool) (s : Watched O R) :
    Option (Watched O R) :=
  match s.server.writer with
  | .executing command =>
    match execute weather s.now command with
    | .error _ =>
      some
        { s with
          writerAt := .failing
          hand := none
          writerStats := maintained s.writerStats }
    | .ok _ =>
      (s.server.persistStep weather s.now).map fun server =>
        { s with
          server
          writerStats := maintained
            (if executionMarks ran command then s.writerStats.markProgress s.now
              else s.writerStats) }
  | _ => none

/-- One ledger call, or the return from `execute`. -/
def settle (s : Watched O R) : Option (Watched O R) :=
  match s.server.writer with
  | .settling [] =>
    some { s with server.writer := .idle, writerAt := .finished, hand := none }
  | .settling _ => (s.stampDue.step setup .settle).map fun server => { s with server }
  | _ => none

def writerStep (s : Watched O R) : WriterAct R → Option (Watched O R)
  | .measure =>
    match s.writerAt with
    | .top =>
      some { s with writerAt := .receiving, writerStats.queueDepth := s.server.queue.length }
    | _ => none
  | .take =>
    match s.writerAt, s.server.queue with
    | .receiving, command :: _ =>
      (s.server.step setup .take).map fun server =>
        { s with server, writerAt := .taken, hand := some command }
    | _, _ => none
  | .count =>
    match s.writerAt with
    | .taken =>
      some { s with writerAt := .counted, writerStats.queueDepth := s.server.queue.length }
    | _ => none
  | .flag =>
    match s.writerAt with
    | .counted => some { s with writerAt := .flagged, writerStats.inFlight := 1 }
    | _ => none
  | .evict =>
    match s.writerAt with
    | .flagged =>
      if s.hand.any carriesRecords then
        some { s with writerAt := .evicting, writerStats := maintain s.now s.writerStats }
      else none
    | _ => none
  | .evicted ok =>
    match s.writerAt with
    | .evicting =>
      some
        { s with
          writerAt := .executing
          writerStats := maintained
            (if ok then s.writerStats.markProgress s.now else s.writerStats) }
    | _ => none
  | .enter =>
    match s.writerAt with
    | .flagged =>
      some
        { s with
          writerAt := .executing
          writerStats :=
            if s.hand.any upkeepCommand then maintain s.now s.writerStats else s.writerStats }
    | _ => none
  | .persist weather ran =>
    match s.writerAt with
    | .executing => s.persist weather ran
    | _ => none
  | .settle =>
    match s.writerAt with
    | .executing => s.settle setup
    | _ => none
  | .clear =>
    match s.writerAt with
    | .finished => some { s with writerAt := .top, writerStats.inFlight := 0 }
    | .failing => some { s with writerAt := .returning, writerStats.inFlight := 0 }
    | _ => none
  | .stop =>
    match s.writerAt, s.server.queue, s.server.batcher with
    | .receiving, [], .leaving | .receiving, [], .gone =>
      some { s with writerAt := .returning, writerStats.queueDepth := 0 }
    | _, _, _ => none
  | .fault =>
    match s.writerAt with
    | .finished => some { s with writerAt := .failing }
    | _ => none
  | .halt =>
    match s.writerAt with
    | .returning => some { s with writerAt := .halted, writerStats.running := false }
    | _ => none
  | .leave =>
    match s.writerAt with
    | .halted => some { s with writerAt := .stopped, server.writer := .leaving, server.queue := [] }
    | _ => none
  | .exit =>
    match s.writerAt with
    | .stopped => (s.server.step setup .writerExit).map fun server => { s with server }
    | _ => none

end Writer

section Step

variable [BEq O] (setup : Setup O R)

def act (s : Watched O R) : Act R → Option (Watched O R)
  | .outside act => s.outsideStep setup act
  | .batcher act => s.batcherStep setup act
  | .writer act => s.writerStep setup act

/-- An act at time `t`; `none` if it cannot be taken. -/
def step (s : Watched O R) (e : Nat × Act R) : Option (Watched O R) :=
  if s.now ≤ e.1 then { s with now := e.1 }.act setup e.2 else none

def run (s : Watched O R) (events : List (Nat × Act R)) : Option (Watched O R) :=
  events.foldlM (step setup) s

end Step

end Watched

end OtelSqlite.Runtime
