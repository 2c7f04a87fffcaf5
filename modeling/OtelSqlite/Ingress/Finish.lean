import OtelSqlite.Ingress.Admission

/-!
# From the enqueue outcome to the response

`LogsIngress::handle` checks the size of the request, `finish` answers it. In commit
mode `finish` waits for the watermark and then adds up what the ledger says of the
request's tickets.
-/

namespace OtelSqlite.Ingress

open OtelSqlite.Core OtelSqlite.Core.Commit

inductive Status where
  | unavailable (message : String)
  | invalidArgument (message : String)
  deriving DecidableEq, Repr

structure ExportLogsPartialSuccess where
  rejectedLogRecords : Nat
  errorMessage : String
  deriving DecidableEq, Repr

structure ExportLogsServiceResponse where
  partialSuccess : Option ExportLogsPartialSuccess
  deriving DecidableEq, Repr

abbrev Answer := Except Status ExportLogsServiceResponse

def i64Max : Nat := 2 ^ 63 - 1

def partialSuccess (rejected : Nat) (message : String) : ExportLogsServiceResponse :=
  ⟨some ⟨min rejected i64Max, message⟩⟩

/-- `IngressError::Mapping` as an answer. -/
def mappingError (reason : String) : Answer :=
  .error (.invalidArgument ("cannot map OTLP request: " ++ reason))

def tooManyRecords (total limit : Nat) : Answer :=
  mappingError s!"request contains {total} log records, limit is {limit}"

def tooManyChunks (chunks capacity : Nat) : Answer :=
  mappingError
    s!"request maps to {chunks} chunks, which exceeds the ingest queue capacity of {capacity}; split the request"

/-- The answer to a request of which nothing was queued. -/
def answerUnqueued (outcome : EnqueueOutcome) : Option Answer :=
  if outcome.accepted = 0 then
    if outcome.disconnected then some (.error (.unavailable "ingress queue is closed"))
    else if 0 < outcome.rejected then some (.error (.unavailable "ingress queue is full"))
    else some (.ok ⟨none⟩)
  else none

/-- The locals of the loop over the accepted tickets. -/
structure Count where
  committed : Nat
  anyFailed : Bool
  deriving DecidableEq, Repr

def Count.read (c : Count) (records : Nat) : TicketState → Count
  | .completed => { c with committed := c.committed + records }
  | .failed p => ⟨c.committed + p.committed, true⟩
  | .unsettled p => { c with committed := c.committed + p.committed }

/-- The answer once every ticket has been read. -/
def report (totalRecords : Nat) (c : Count) : Answer :=
  let rejected := totalRecords - c.committed
  if rejected = 0 then .ok ⟨none⟩
  else if c.anyFailed ∨ 0 < c.committed then
    .ok (partialSuccess rejected
      "storage accepted part of the request; retry only the rejected records")
  else .error (.unavailable "storage pipeline shut down before commit")

end OtelSqlite.Ingress
