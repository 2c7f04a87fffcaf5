import OtelSqlite.Core.Command
import OtelSqlite.Core.CommitPublish

/-!
# The ingest queue and its admission gate

Export requests run `enqueue`, control senders run `send` or `send_timeout`, the
storage side receives. Each producer takes one step at a time: taking the gate,
the length check of `reserve`, `issue`, `try_send`, `void` and dropping the gate
are separate, so that other producers, the receiver and the ledger's other users
can come in between.
-/

namespace OtelSqlite.Ingress

open OtelSqlite.Core OtelSqlite.Core.Commit

def usizeMax : Nat := 2 ^ 64 - 1

/-- A bounded channel allocates its slots when it is made. -/
structure QueueConfig where
  capacity : Nat
  allocated : capacity < usizeMax

inductive SendFailure where
  | full
  | disconnected
  deriving DecidableEq, Repr

structure EnqueueOutcome where
  accepted : Nat
  rejected : Nat
  disconnected : Bool
  lastTicket : Option Nat
  totalRecords : Nat
  tickets : List (Nat × Nat)
  deriving DecidableEq, Repr

namespace EnqueueOutcome

def new (totalRecords : Nat) : EnqueueOutcome := ⟨0, 0, false, none, totalRecords, []⟩

def accept (o : EnqueueOutcome) (ticket records : Nat) : EnqueueOutcome :=
  { o with
    accepted := o.accepted + records
    lastTicket := some ticket
    tickets := o.tickets ++ [(ticket, records)] }

def stop (o : EnqueueOutcome) : SendFailure → EnqueueOutcome
  | .full => { o with rejected := o.totalRecords - o.accepted }
  | .disconnected => { o with rejected := o.totalRecords - o.accepted, disconnected := true }

end EnqueueOutcome

variable {O T : Type}

def recordsIn (chunks : List (LogChunk O T)) : Nat := (chunks.map fun c => c.records.length).sum

/-- Where an `enqueue` call stands. -/
inductive Phase (O T : Type) where
  | start
  /-- Returned the mapping error: more chunks than the queue has slots. -/
  | refused
  /-- In `reserve`, waiting for the gate. -/
  | waiting
  /-- In `reserve`, with the gate. -/
  | checking
  /-- Returned with `QueueFull`. -/
  | full (outcome : EnqueueOutcome)
  /-- At the head of the loop, with the guard. -/
  | sending (left : List (LogChunk O T)) (outcome : EnqueueOutcome)
  /-- The chunk has its ticket and is not sent yet. -/
  | stamped (chunk : LogChunk O T) (left : List (LogChunk O T)) (outcome : EnqueueOutcome)
  /-- The send failed, the ticket is not void yet. -/
  | stopping (ticket : Nat) (failure : SendFailure) (outcome : EnqueueOutcome)
  | releasing (outcome : EnqueueOutcome)
  | done (outcome : EnqueueOutcome)

/-- Where a `send` or `send_timeout` call stands. -/
inductive ControlPhase where
  | idle
  | locked
  /-- Found the queue full and dropped the gate. -/
  | pausing
  | sent
  | failed
  | timedOut
  deriving DecidableEq, Repr

inductive Producer where
  | request (i : Nat)
  | control (j : Nat)
  deriving DecidableEq, Repr

/-- A message that went into the queue, with its sender. -/
inductive Sent (O T : Type) where
  | chunk (i : Nat) (chunk : LogChunk O T)
  | barrier (j : Nat)
  deriving DecidableEq, Repr

def Sent.message : Sent O T → IngestMessage O T
  | .chunk _ c => .logs c
  | .barrier _ => .flush

/-- The calls of a run: the chunks of each `enqueue`, the deadline of each control
send (`none` for `send`). -/
structure Traffic (O T : Type) where
  work : Nat → List (LogChunk O T)
  deadline : Nat → Option Nat

structure Admission (O T : Type) where
  gate : Option Producer
  queue : List (IngestMessage O T)
  connected : Bool
  /-- Every message ever sent. -/
  sent : List (Sent O T)
  shared : Shared
  calls : Nat → Phase O T
  controls : Nat → ControlPhase

inductive Event where
  | request (i now : Nat)
  | control (j now : Nat)
  | receive
  | disconnect
  /-- A critical section of another user of the ledger. -/
  | ledger (c : Call)
  | publish (k : Nat)
  deriving DecidableEq, Repr

namespace Admission

def new (start : Nat) : Admission O T where
  gate := none
  queue := []
  connected := true
  sent := []
  shared := Shared.new start
  calls := fun _ => .start
  controls := fun _ => .idle

def goto (s : Admission O T) (i : Nat) (phase : Phase O T) : Admission O T :=
  { s with calls := Function.update s.calls i phase }

def gotoControl (s : Admission O T) (j : Nat) (phase : ControlPhase) : Admission O T :=
  { s with controls := Function.update s.controls j phase }

/-- `try_send` of the channel, which looks for the receiver first. -/
def trySend (config : QueueConfig) (s : Admission O T) (message : IngestMessage O T) :
    Except SendFailure (List (IngestMessage O T)) :=
  if s.connected = false then .error .disconnected
  else if s.queue.length < config.capacity then .ok (s.queue ++ [message])
  else .error .full

/-- The check of `reserve`, made under the gate. -/
def fits (config : QueueConfig) (s : Admission O T) (n : Nat) : Bool :=
  min (s.queue.length + n) usizeMax ≤ config.capacity

def requestStep (config : QueueConfig) (work : List (LogChunk O T)) (i now : Nat)
    (s : Admission O T) : Option (Admission O T) :=
  match s.calls i with
  | .start =>
    if config.capacity < work.length then some (s.goto i .refused) else some (s.goto i .waiting)
  | .waiting =>
    if s.gate = none then some { s.goto i .checking with gate := some (.request i) } else none
  | .checking =>
    let outcome := EnqueueOutcome.new (recordsIn work)
    if s.fits config work.length then some (s.goto i (.sending work outcome))
    else
      some { s.goto i (.full { outcome with rejected := outcome.totalRecords }) with gate := none }
  | .sending [] outcome => some { s.goto i (.done outcome) with gate := none }
  | .sending (chunk :: left) outcome =>
    let stamped := { chunk with commitSeq := s.shared.ledger.issue.2 }
    some { s.goto i (.stamped stamped left outcome) with shared := s.shared.call .issue }
  | .stamped chunk left outcome =>
    match s.trySend config (.logs chunk) with
    | .ok queue =>
      some
        { s.goto i (.sending left (outcome.accept chunk.commitSeq chunk.records.length)) with
          queue
          sent := s.sent ++ [.chunk i chunk] }
    | .error failure => some (s.goto i (.stopping chunk.commitSeq failure outcome))
  | .stopping ticket failure outcome =>
    some
      { s.goto i (.releasing (outcome.stop failure)) with shared := s.shared.call (.void ticket now) }
  | .releasing outcome => some { s.goto i (.done outcome) with gate := none }
  | .refused | .full _ | .done _ => none

def controlStep (config : QueueConfig) (deadline : Option Nat) (j now : Nat) (s : Admission O T) :
    Option (Admission O T) :=
  match s.controls j with
  | .idle =>
    if s.gate = none then some { s.gotoControl j .locked with gate := some (.control j) } else none
  | .locked =>
    match s.trySend config .flush with
    | .ok queue =>
      some
        { s.gotoControl j .sent with
          queue
          sent := s.sent ++ [.barrier j]
          gate := none }
    | .error .full => some { s.gotoControl j .pausing with gate := none }
    | .error .disconnected => some { s.gotoControl j .failed with gate := none }
  | .pausing =>
    if deadline.any fun d => decide (d ≤ now) then some (s.gotoControl j .timedOut)
    else some (s.gotoControl j .idle)
  | .sent | .failed | .timedOut => none

/-- One step of any party; `none` if it cannot be taken. Tickets are issued by
`enqueue` only. -/
def step (config : QueueConfig) (traffic : Traffic O T) (s : Admission O T) :
    Event → Option (Admission O T)
  | .request i now => s.requestStep config (traffic.work i) i now
  | .control j now => s.controlStep config (traffic.deadline j) j now
  | .receive =>
    match s.connected, s.queue with
    | true, _ :: queue => some { s with queue }
    | _, _ => none
  | .disconnect => some { s with connected := false, queue := [] }
  | .ledger c => if c = .issue then none else some { s with shared := s.shared.call c }
  | .publish k => some { s with shared := s.shared.step (.publish k) }

def run (config : QueueConfig) (traffic : Traffic O T) (s : Admission O T) (events : List Event) :
    Option (Admission O T) :=
  events.foldlM (step config traffic) s

end Admission

end OtelSqlite.Ingress
