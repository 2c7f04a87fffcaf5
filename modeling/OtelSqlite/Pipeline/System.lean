import OtelSqlite.Ingress.AllOrNothing
import OtelSqlite.Ingress.Finish
import OtelSqlite.Storage.Line

/-!
# The ingestion pipeline in commit mode

Export handlers, the batcher thread and the writer thread as one transition system.
An event is one step of one thread: a handler reads one ticket, the batcher submits
one batch, the writer makes one ledger call. The batcher may unwind at any point of
its loop; its drop guard then closes the ledger in a step of its own.
-/

namespace OtelSqlite.Pipeline

open OtelSqlite.Core OtelSqlite.Core.Commit OtelSqlite.Core.Batcher
open OtelSqlite.Storage OtelSqlite.Ingress

/-- A mapped chunk; the mapping leaves out empty ones. -/
structure ExportChunk (O R : Type) where
  origin : O
  records : List R
  nonempty : records ≠ []

/-- A record with its place in the request it came with. -/
structure Exported (R : Type) where
  request : Nat
  chunk : Nat
  index : Nat
  payload : R
  deriving DecidableEq, Repr

variable {O R : Type}

def workOf (i : Nat) (chunks : List (ExportChunk O R)) : List (LogChunk O (Exported R)) :=
  chunks.mapIdx fun j c => ⟨c.origin, c.records.mapIdx fun k x => ⟨i, j, k, x⟩, 0⟩

/-- The upper end of the range the configuration check allows. -/
def maxRecordsLimit : Nat := 1000000

structure Setup (O R : Type) where
  queue : QueueConfig
  batching : InsertBatcherConfig
  commandQueueCapacity : Nat
  maxRecordsPerRequest : Nat
  validated : maxRecordsPerRequest ≤ maxRecordsLimit
  requests : Nat → List (ExportChunk O R)
  deadline : Nat → Option Nat

namespace Setup

def work (setup : Setup O R) (i : Nat) : List (LogChunk O (Exported R)) :=
  workOf i (setup.requests i)

def traffic (setup : Setup O R) : Traffic O (Exported R) := ⟨setup.work, setup.deadline⟩

def recordsOf (setup : Setup O R) (i : Nat) : List (Exported R) :=
  (setup.work i).flatMap LogChunk.records

def totalRecords (setup : Setup O R) (i : Nat) : Nat := recordsIn (setup.work i)

end Setup

inductive Handler where
  | received
  /-- `enqueue` runs on the blocking pool. -/
  | enqueueing
  /-- In `wait_watermark`. -/
  | waiting (outcome : EnqueueOutcome)
  /-- Between two ledger reads. -/
  | reading (left : List (Nat × Nat)) (count : Count) (outcome : EnqueueOutcome)
  | answered (answer : Answer)
  deriving DecidableEq

inductive BatcherPhase (O R : Type) where
  /-- At the top of the loop. -/
  | waiting
  /-- Handing over submissions, then the barrier if there is one. -/
  | submitting (out : List (LogWriteBatch O (Exported R))) (barrier : Bool)
  /-- The final flush after the loop. -/
  | draining (out : List (LogWriteBatch O (Exported R)))
  /-- The command queue is gone: about to close the ledger. -/
  | closing
  /-- A panic: the drop guard is about to close the ledger. -/
  | unwinding
  /-- About to drop the receiver. -/
  | leaving
  | gone

inductive WriterPhase (O R : Type) where
  | idle
  | executing (command : WriteCommand O (Exported R))
  /-- The transaction is committed, these ledger calls are still to be made. -/
  | settling (calls : List Call)
  /-- The receiver is dropped, the drop guard is about to close the ledger. -/
  | leaving
  | gone

def BatcherPhase.live : BatcherPhase O R → Bool
  | .waiting | .submitting _ _ | .draining _ => true
  | _ => false

def BatcherPhase.outbox : BatcherPhase O R → List (LogWriteBatch O (Exported R))
  | .submitting out _ | .draining out => out
  | _ => []

/-- The command queue still has its receiver. -/
def WriterPhase.active : WriterPhase O R → Bool
  | .idle | .executing _ | .settling _ => true
  | _ => false

def WriterPhase.inHand : WriterPhase O R → List (LogWriteBatch O (Exported R))
  | .executing (.insertLogs batch) => [batch]
  | _ => []

def WriterPhase.due : WriterPhase O R → List Call
  | .settling calls => calls
  | _ => []

structure Server (O R : Type) where
  ingress : Admission O (Exported R)
  buffers : OriginBuffers O (Exported R)
  batcher : BatcherPhase O R
  queue : List (WriteCommand O (Exported R))
  writer : WriterPhase O R
  /-- The rows of all committed transactions. -/
  table : List (Exported R)
  handlers : Nat → Handler

inductive Event (R : Type) where
  /-- The handler of a request. -/
  | handle (i : Nat)
  /-- Its `enqueue` call. -/
  | enqueue (i now : Nat)
  | control (j now : Nat)
  /-- The `send_replace` of a ledger call. -/
  | publish (k : Nat)
  /-- The batcher takes the next message. -/
  | receive (clock : Nat → Nat) (now : Nat)
  | timer (now : Nat)
  /-- The batcher leaves its loop with the command queue open. -/
  | hangUp
  /-- The batcher hands over the next submission. -/
  | submit
  | unwind
  | batcherExit
  /-- Another producer queues a checkpoint or a maintenance command. -/
  | upkeep (checkpoint : Bool)
  | take
  | persist (weather : Weather (Exported R)) (now : Nat)
  | settle
  /-- The writer leaves its loop between two commands. -/
  | stop
  | writerExit

namespace Server

def new (start : Nat) : Server O R where
  ingress := Admission.new start
  buffers := []
  batcher := .waiting
  queue := []
  writer := .idle
  table := []
  handlers := fun _ => .received

def call (p : Server O R) (c : Call) : Server O R :=
  { p with ingress := { p.ingress with shared := p.ingress.shared.call c } }

def ledger (p : Server O R) : CommitLedger := p.ingress.shared.ledger

def goto (p : Server O R) (i : Nat) (handler : Handler) : Server O R :=
  { p with handlers := Function.update p.handlers i handler }

/-- `finish`, up to the point where it waits. -/
def startFinish (p : Server O R) (i : Nat) (outcome : EnqueueOutcome) : Server O R :=
  match answerUnqueued outcome with
  | some answer => p.goto i (.answered answer)
  | none => p.goto i (.waiting outcome)

/-- `wait_watermark` returns on the published watermark. -/
def released (p : Server O R) (outcome : EnqueueOutcome) : Bool :=
  match outcome.lastTicket with
  | none => true
  | some ticket => ticket = 0 ∨ p.ingress.shared.watermark.Releases ticket

def handleStep (setup : Setup O R) (i : Nat) (p : Server O R) : Option (Server O R) :=
  match p.handlers i with
  | .received =>
    if setup.maxRecordsPerRequest < setup.totalRecords i then
      some (p.goto i (.answered (tooManyRecords (setup.totalRecords i) setup.maxRecordsPerRequest)))
    else some (p.goto i .enqueueing)
  | .enqueueing =>
    match p.ingress.calls i with
    | .refused =>
      some (p.goto i (.answered (tooManyChunks (setup.work i).length setup.queue.capacity)))
    | .full outcome => some (p.startFinish i outcome)
    | .done outcome => some (p.startFinish i outcome)
    | _ => none
  | .waiting outcome =>
    if p.released outcome then some (p.goto i (.reading outcome.tickets ⟨0, false⟩ outcome))
    else none
  | .reading ((ticket, records) :: left) count outcome =>
    some (p.goto i (.reading left (count.read records (p.ledger.state ticket)) outcome))
  | .reading [] count outcome => some (p.goto i (.answered (report outcome.totalRecords count)))
  | .answered _ => none

/-- The batcher sends a command; a full queue blocks it. -/
def offer (setup : Setup O R) (command : WriteCommand O (Exported R)) (next : BatcherPhase O R)
    (p : Server O R) : Option (Server O R) :=
  if p.writer.active = false then some { p with batcher := .closing }
  else if p.queue.length < setup.commandQueueCapacity then
    some { p with queue := p.queue ++ [command], batcher := next }
  else none

def submitStep (setup : Setup O R) (p : Server O R) : Option (Server O R) :=
  match p.batcher with
  | .submitting (batch :: out) barrier => p.offer setup (.insertLogs batch) (.submitting out barrier)
  | .submitting [] true => p.offer setup .flush .waiting
  | .submitting [] false => some { p with batcher := .waiting }
  | .draining (batch :: out) => p.offer setup (.insertLogs batch) (.draining out)
  | .draining [] => some { p with batcher := .leaving }
  | _ => none

def batcherExit (p : Server O R) : Option (Server O R) :=
  match p.batcher with
  | .closing => some { p.call .close with batcher := .leaving }
  | .unwinding => some { p.call .close with batcher := .leaving }
  | .leaving =>
    some
      { p with
        batcher := .gone
        ingress := { p.ingress with connected := false, queue := [] } }
  | _ => none

def persistStep (weather : Weather (Exported R)) (now : Nat) (p : Server O R) :
    Option (Server O R) :=
  match p.writer with
  | .executing command =>
    match execute weather now command with
    | .error _ => some { p with writer := .leaving }
    | .ok effect =>
      some { p with writer := .settling effect.calls, table := p.table ++ effect.inserted }
  | _ => none

section Step

variable [BEq O]

def receiveStep (setup : Setup O R) (clock : Nat → Nat) (now : Nat) (p : Server O R) :
    Option (Server O R) :=
  match p.batcher, p.ingress.queue with
  | .waiting, .logs chunk :: queue =>
    let p := { p with ingress := { p.ingress with queue } }
    if chunk.records = [] then some (p.call (.void chunk.commitSeq now))
    else do
      let (buffers, out) ←
        p.buffers.push setup.batching clock chunk.origin chunk.records chunk.commitSeq
      some { p with buffers, batcher := .submitting out false }
  | .waiting, .flush :: queue => do
    let (buffers, out) ← p.buffers.flushAll
    some { p with ingress := { p.ingress with queue }, buffers, batcher := .submitting out true }
  | _, _ => none

def timerStep (now : Nat) (p : Server O R) : Option (Server O R) :=
  match p.batcher with
  | .waiting => do
    let (buffers, out) ← p.buffers.flushExpired now
    some { p with buffers, batcher := .submitting out false }
  | _ => none

def hangUpStep (p : Server O R) : Option (Server O R) :=
  match p.batcher with
  | .waiting => do
    let (buffers, out) ← p.buffers.flushAll
    some { p with buffers, batcher := .draining out }
  | _ => none

/-- A step of the ingest side. -/
def ingressStep (setup : Setup O R) (e : Ingress.Event) (p : Server O R) : Option (Server O R) := do
  let ingress ← p.ingress.step setup.queue setup.traffic e
  some { p with ingress }

/-- One step of one thread; `none` if the thread cannot take it. -/
def step (setup : Setup O R) (p : Server O R) : Event R → Option (Server O R)
  | .handle i => p.handleStep setup i
  | .enqueue i now =>
    match p.handlers i with
    | .enqueueing => p.ingressStep setup (.request i now)
    | _ => none
  | .control j now => p.ingressStep setup (.control j now)
  | .publish k => p.ingressStep setup (.publish k)
  | .receive clock now => p.receiveStep setup clock now
  | .timer now => p.timerStep now
  | .hangUp => p.hangUpStep
  | .submit => p.submitStep setup
  | .unwind => if p.batcher.live then some { p with batcher := .unwinding } else none
  | .batcherExit => p.batcherExit
  | .upkeep checkpoint =>
    if p.writer.active ∧ p.queue.length < setup.commandQueueCapacity then
      some { p with queue := p.queue ++ [if checkpoint then .checkpoint else .maintenance] }
    else none
  | .take =>
    match p.writer, p.queue with
    | .idle, command :: queue => some { p with writer := .executing command, queue }
    | _, _ => none
  | .persist weather now => p.persistStep weather now
  | .settle =>
    match p.writer with
    | .settling (c :: calls) => some { p.call c with writer := .settling calls }
    | .settling [] => some { p with writer := .idle }
    | _ => none
  | .stop =>
    match p.writer with
    | .idle => some { p with writer := .leaving }
    | _ => none
  | .writerExit =>
    match p.writer with
    | .leaving => some { p.call .close with writer := .gone }
    | _ => none

def run (setup : Setup O R) (p : Server O R) (events : List (Event R)) : Option (Server O R) :=
  events.foldlM (step setup) p

end Step

/-- The committed records of a request. -/
def committedOf (p : Server O R) (i : Nat) : List (Exported R) :=
  p.table.filter fun r => r.request == i

end Server

end OtelSqlite.Pipeline
