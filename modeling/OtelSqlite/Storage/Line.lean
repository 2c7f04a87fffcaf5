import OtelSqlite.Storage.Accounting

/-!
# Batcher and writer as one line

Chunks with their tickets enter the ingest queue, the batcher turns them into
insert commands, the writer executes the commands one by one. An event is one
iteration of either loop, so every state of a run is a command boundary of the
writer. Records carry the ticket and the position they were sent with, which
nothing on the way looks at: they tell records apart in the table.
-/

namespace OtelSqlite.Storage

open OtelSqlite.Core OtelSqlite.Core.Commit OtelSqlite.Core.Batcher

structure Tagged (R : Type) where
  ticket : Nat
  index : Nat
  payload : R
  deriving DecidableEq, Repr

variable {O R T : Type}

def tag (ticket : Nat) (payloads : List R) : List (Tagged R) :=
  payloads.mapIdx fun index payload => ⟨ticket, index, payload⟩

/-- SQLite rejects the poisoned records and nothing else. -/
def served (poison : T → Bool) : Attempt T where
  begin := none
  resolve := none
  execute := fun _ record => if poison record then some .poison else none
  commit := none

def blocked (failure : FailureClass) : Attempt T where
  begin := some failure
  resolve := none
  execute := fun _ _ => none
  commit := none

/-- What the schedule decides about a command: it is served after `busy` busy
answers, which may exhaust the retries, or it stops the writer. -/
inductive Verdict where
  | serve (busy : Nat)
  | fatal
  deriving DecidableEq, Repr

def Verdict.weather (poison : T → Bool) : Verdict → Weather T
  | .serve busy =>
    { strict := fun k => if k < busy then blocked .retryable else served poison
      salvage := served poison
      upkeep := none }
  | .fatal =>
    { strict := fun _ => blocked .fatal
      salvage := blocked .fatal
      upkeep := some .fatal }

structure Line (O R : Type) where
  ledger : CommitLedger
  sent : List (LogChunk O (Tagged R))
  inbox : List (IngestMessage O (Tagged R))
  buffers : OriginBuffers O (Tagged R)
  queue : List (WriteCommand O (Tagged R))
  writerAlive : Bool
  /-- The rows of all committed transactions. -/
  table : List (Tagged R)
  quarantined : List (Tagged R)

inductive LineEvent (O R : Type) where
  /-- Ingress issues a ticket and enqueues a chunk. -/
  | send (origin : O) (payloads : List R)
  /-- Ingress issues a ticket and voids it, because the queue did not take the chunk. -/
  | reject (now : Nat)
  | barrier
  /-- The batcher handles the next message. -/
  | receive (clock : Nat → Nat) (now : Nat)
  | timer (now : Nat)
  /-- The scheduler hands the writer a maintenance command. -/
  | upkeep
  /-- The writer executes the next command. -/
  | execute (verdict : Verdict) (now : Nat)

def insertsOf (queue : List (WriteCommand O T)) : List (LogWriteBatch O T) :=
  queue.filterMap fun
    | .insertLogs batch => some batch
    | _ => none

theorem insertsOf_append (xs ys : List (WriteCommand O T)) :
    insertsOf (xs ++ ys) = insertsOf xs ++ insertsOf ys := List.filterMap_append

namespace Line

def new (start : Nat) : Line O R where
  ledger := CommitLedger.new start
  sent := []
  inbox := []
  buffers := []
  queue := []
  writerAlive := true
  table := []
  quarantined := []

def call (s : Line O R) (c : Call) : Line O R := { s with ledger := (s.ledger.locked c).1 }

section Step

variable [BEq O]

def receive (config : InsertBatcherConfig) (clock : Nat → Nat) (now : Nat) (s : Line O R) :
    Option (Line O R) :=
  match s.inbox with
  | [] => none
  | .logs chunk :: rest =>
    if chunk.records = [] then some ({ s with inbox := rest }.call (.void chunk.commitSeq now))
    else do
      let (buffers, out) ← s.buffers.push config clock chunk.origin chunk.records chunk.commitSeq
      some { s with inbox := rest, buffers, queue := s.queue ++ out.map .insertLogs }
  | .flush :: rest => do
    let (buffers, out) ← s.buffers.flushAll
    some { s with inbox := rest, buffers, queue := s.queue ++ out.map .insertLogs ++ [.flush] }

def executeNext (poison : Tagged R → Bool) (verdict : Verdict) (now : Nat) (s : Line O R) :
    Option (Line O R) :=
  match s.writerAlive, s.queue with
  | true, command :: rest =>
    match execute (verdict.weather poison) now command with
    | .error _ => some ({ s with queue := rest, writerAlive := false }.call .close)
    | .ok effect =>
      some
        { s with
          queue := rest
          table := s.table ++ effect.inserted
          quarantined := s.quarantined ++ effect.quarantined
          ledger := s.ledger.run effect.calls }
  | _, _ => none

/-- One event; `none` if it is not possible. A chunk is a vector, so its length is a `u64`. -/
def step (config : InsertBatcherConfig) (poison : Tagged R → Bool) (s : Line O R) :
    LineEvent O R → Option (Line O R)
  | .send origin payloads =>
    if payloads.length ≤ u64Max then
      let chunk : LogChunk O (Tagged R) :=
        ⟨origin, tag s.ledger.issue.2 payloads, s.ledger.issue.2⟩
      some
        { s with
          ledger := s.ledger.issue.1
          sent := s.sent ++ [chunk]
          inbox := s.inbox ++ [.logs chunk] }
    else none
  | .reject now => some ((s.call .issue).call (.void s.ledger.issue.2 now))
  | .barrier => some { s with inbox := s.inbox ++ [.flush] }
  | .receive clock now => s.receive config clock now
  | .timer now => do
    let (buffers, out) ← s.buffers.flushExpired now
    some { s with buffers, queue := s.queue ++ out.map .insertLogs }
  | .upkeep => some { s with queue := s.queue ++ [.maintenance] }
  | .execute verdict now => s.executeNext poison verdict now

def run (config : InsertBatcherConfig) (poison : Tagged R → Bool) (s : Line O R)
    (events : List (LineEvent O R)) : Option (Line O R) :=
  events.foldlM (step config poison) s

end Step

/-- The committed records that were sent under the ticket. -/
def committedOf (s : Line O R) (t : Nat) : List (Tagged R) :=
  s.table.filter fun r => r.ticket == t

def quarantinedOf (s : Line O R) (t : Nat) : List (Tagged R) :=
  s.quarantined.filter fun r => r.ticket == t

end Line

end OtelSqlite.Storage
