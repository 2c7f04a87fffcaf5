import OtelSqlite.Lib.Run
import OtelSqlite.Storage.BatcherLoop
import OtelSqlite.Runtime.Watchdog

/-!
# Batcher and writer on a clock

The two loops with the evidence they publish, on one clock of milliseconds. A
step of a thread has a start, where its inputs are taken, and an end, where its
result is visible: handling an event, submitting a batch and executing a command
are steps. `Passes` says how long a state may last if the pipeline keeps up: no
thread waits while its queue has something for it, a step does not outlast its
end, and records do not stay in a buffer past their deadline.

Maintenance commands and the end of a thread are not part of these runs, and the
command queue always has room: a submission that waits for room is a longer step.
-/

namespace OtelSqlite.Runtime

open OtelSqlite.Core OtelSqlite.Core.Batcher OtelSqlite.Core.Commit OtelSqlite.Storage

variable {O R : Type}

inductive BatcherStage (O R : Type) where
  | waiting
  /-- In a step that ends at `ends`, by submitting `current` if there is one; the
  commands `rest` come after it. -/
  | busy (current : Option (WriteCommand O R)) (rest : List (WriteCommand O R)) (ends : Nat)

inductive WriterStage (O R : Type) where
  | waiting
  | executing (command : WriteCommand O R) (ends : Nat)

structure Threads (O R : Type) where
  now : Nat
  inbox : List (IngestMessage O R)
  buffers : OriginBuffers O R
  batcher : BatcherStage O R
  queue : List (WriteCommand O R)
  writer : WriterStage O R
  writerStats : WriterStats
  batcherStats : BatcherStats

/-- An event at time `t`; a step that starts with it ends at `ends`. -/
inductive ThreadEvent (O R : Type) where
  | arrive (t : Nat) (message : IngestMessage O R)
  /-- The batcher takes the next message. -/
  | receive (t ends : Nat)
  /-- The batcher's wait times out. -/
  | timer (t ends : Nat)
  /-- The batcher ends a step; the next submission, if any, starts. -/
  | proceed (t ends : Nat)
  /-- The writer takes the next command. -/
  | begin (t ends : Nat)
  /-- The writer ends its command. -/
  | finish (t : Nat)

/-- `submit_log_batch` marks progress, the submission of a barrier does not. -/
def submissionMarks : WriteCommand O R → Bool
  | .insertLogs _ => true
  | _ => false

/-- What marks the writer's progress when `execute` returns. A maintenance command marks it
only if the operation `ran`: a heavy one is deferred under a backlog, and a prune without a
window does nothing. -/
def executionMarks (ran : Bool) : WriteCommand O R → Bool
  | .insertLogs batch => !batch.records.isEmpty
  | .flush => false
  | .checkpoint => true
  | .maintenance => ran

namespace Threads

/-- Both threads have just started. -/
def new (now : Nat) : Threads O R where
  now
  inbox := []
  buffers := []
  batcher := .waiting
  queue := []
  writer := .waiting
  writerStats := .new now
  batcherStats := .new now

/-- What the watchdog samples, with any ledger and any queue capacity. -/
def health (s : Threads O R) (ledger : CommitLedger) (queueCapacity : Nat) : StorageHealth where
  writer := s.writerStats
  batcher := s.batcherStats
  ledger
  queueCapacity

def batcherAllows (s : Threads O R) (t : Nat) : Prop :=
  match s.batcher with
  | .waiting => s.inbox = []
  | .busy _ _ ends => t ≤ ends

def writerAllows (s : Threads O R) (t : Nat) : Prop :=
  match s.writer with
  | .waiting => s.queue = []
  | .executing _ ends => t ≤ ends

instance (s : Threads O R) (t : Nat) : Decidable (s.batcherAllows t) := by
  unfold batcherAllows
  split <;> infer_instance

instance (s : Threads O R) (t : Nat) : Decidable (s.writerAllows t) := by
  unfold writerAllows
  split <;> infer_instance

/-- The state may last until `t`. -/
def Passes (s : Threads O R) (t : Nat) : Prop :=
  s.now = t ∨ s.now < t ∧ s.batcherAllows t ∧ s.writerAllows t ∧
    ∀ e ∈ s.buffers, ∀ d ∈ e.2.batcher.deadline, t ≤ d

instance (s : Threads O R) (t : Nat) : Decidable (s.Passes t) :=
  inferInstanceAs (Decidable (_ ∨ _))

section Step

variable (limit : Nat)

/-- A step takes less than `limit`. -/
def Lasts (t ends : Nat) : Prop := t ≤ ends ∧ ends < t + limit

instance (t ends : Nat) : Decidable (Lasts limit t ends) := inferInstanceAs (Decidable (_ ∧ _))

variable [BEq O] (config : InsertBatcherConfig)

def receive (t ends : Nat) (s : Threads O R) : Option (Threads O R) :=
  match s.batcher, s.inbox with
  | .waiting, .logs chunk :: rest =>
    if chunk.records = [] then
      some
        { s with
          inbox := rest
          batcherStats := s.batcherStats.observeBuffered s.buffers.buffered }
    else if Lasts limit t ends then do
      let (buffers, out) ←
        s.buffers.push config (fun _ => t) chunk.origin chunk.records chunk.commitSeq
      some
        { s with
          inbox := rest
          buffers
          batcher := .busy none (out.map .insertLogs) ends
          batcherStats := s.batcherStats.markProgress t }
    else none
  | .waiting, .flush :: rest =>
    if Lasts limit t ends then do
      let (buffers, out) ← s.buffers.flushAll
      some { s with inbox := rest, buffers, batcher := .busy none (out.map .insertLogs ++ [.flush]) ends }
    else none
  | _, _ => none

def timer (t ends : Nat) (s : Threads O R) : Option (Threads O R) :=
  match s.batcher, s.inbox with
  | .waiting, [] =>
    if Lasts limit t ends ∧ s.buffers.deadline.any (· ≤ t) = true then do
      let (buffers, out) ← s.buffers.flushExpired t
      some { s with buffers, batcher := .busy none (out.map .insertLogs) ends }
    else none
  | _, _ => none

/-- The submission that ends with a step of the batcher. -/
def submit (t : Nat) (s : Threads O R) : Option (WriteCommand O R) → Threads O R
  | none => s
  | some command =>
    { s with
      queue := s.queue ++ [command]
      batcherStats :=
        if submissionMarks command then s.batcherStats.markProgress t else s.batcherStats }

def proceed (t ends : Nat) (s : Threads O R) : Option (Threads O R) :=
  match s.batcher with
  | .waiting => none
  | .busy current rest due =>
    if t = due then
      let s := s.submit t current
      match rest with
      | [] =>
        some
          { s with
            batcher := .waiting
            batcherStats := s.batcherStats.observeBuffered s.buffers.buffered }
      | command :: rest =>
        if Lasts limit t ends then some { s with batcher := .busy (some command) rest ends }
        else none
    else none

def begin (t ends : Nat) (s : Threads O R) : Option (Threads O R) :=
  match s.writer, s.queue with
  | .waiting, command :: rest =>
    if Lasts limit t ends then
      some
        { s with
          queue := rest
          writer := .executing command ends
          writerStats := s.writerStats.beginCommand rest.length }
    else none
  | _, _ => none

def finish (t : Nat) (s : Threads O R) : Option (Threads O R) :=
  match s.writer with
  | .waiting => none
  | .executing command due =>
    if t = due then
      let stats :=
        if executionMarks false command then s.writerStats.markProgress t else s.writerStats
      some { s with writer := .waiting, writerStats := stats.endCommand s.queue.length }
    else none

/-- One event; `none` if it is not possible or the pipeline would not have kept up. -/
def step (s : Threads O R) (e : ThreadEvent O R) : Option (Threads O R) :=
  match e with
  | .arrive t message =>
    if s.Passes t then some { s with now := t, inbox := s.inbox ++ [message] } else none
  | .receive t ends => if s.Passes t then receive limit config t ends { s with now := t } else none
  | .timer t ends => if s.Passes t then timer limit t ends { s with now := t } else none
  | .proceed t ends => if s.Passes t then proceed limit t ends { s with now := t } else none
  | .begin t ends => if s.Passes t then begin limit t ends { s with now := t } else none
  | .finish t => if s.Passes t then finish t { s with now := t } else none

def run (s : Threads O R) (events : List (ThreadEvent O R)) : Option (Threads O R) :=
  events.foldlM (step limit config) s

end Step

end Threads

end OtelSqlite.Runtime
