import Mathlib.Algebra.Order.BigOperators.Group.List
import OtelSqlite.Runtime.Acts
import OtelSqlite.Runtime.StallRule

/-!
# The durability rule

`AckStall` concludes from an old watermark and empty gauges that a ticket is lost. The
gauges look at two of the six places a ticket's records can be in, and at those two only
while a thread has its gauge up to date (`Shows`). In the other places, and between a step
and the store behind it, a ticket is in transit. `Gauged` is what the gauges do guarantee.

The age of the watermark says nothing about the age of a ticket. The rule is right about
tickets that are issued while the watermark is young enough to outlive their travel.
-/

namespace OtelSqlite.Runtime

open OtelSqlite.Core OtelSqlite.Core.Commit OtelSqlite.Core.Batcher
open OtelSqlite.Storage OtelSqlite.Ingress OtelSqlite.Pipeline OtelSqlite.Lib

variable {O R : Type}

/-- The places the records of a ticket pass through. -/
inductive Place where
  | enqueueCall
  | ingestQueue
  | handledMessage
  | originBuffers
  | commandQueue
  | execution
  deriving DecidableEq, Repr

/-- The batch has records of the ticket. -/
def BatchHolds (batch : LogWriteBatch O R) (ticket : Nat) : Prop :=
  ∃ segment ∈ batch.segments, segment.commitSeq = ticket

def CommandHolds (command : WriteCommand O R) (ticket : Nat) : Prop :=
  match command with
  | .insertLogs batch => BatchHolds batch ticket
  | _ => False

namespace Watched

/-- Records of the ticket are in the place. -/
def At (s : Watched O R) (ticket : Nat) : Place → Prop
  | .enqueueCall =>
    ∃ i chunk left outcome, s.server.ingress.calls i = .stamped chunk left outcome ∧
      chunk.commitSeq = ticket
  | .ingestQueue => ∃ chunk, .logs chunk ∈ s.server.ingress.queue ∧ chunk.commitSeq = ticket
  | .handledMessage => ∃ batch ∈ s.server.batcher.outbox, BatchHolds batch ticket
  | .originBuffers => ∃ e ∈ s.server.buffers, ∃ segment ∈ e.2.segments, segment.1 = ticket
  | .commandQueue => ∃ command ∈ s.server.queue, CommandHolds command ticket
  | .execution => ∃ command ∈ s.hand, CommandHolds command ticket

/-- A gauge shows what is in the place. -/
def Shows (s : Watched O R) : Place → Prop
  | .originBuffers => s.batcherAt = .receiving
  | .execution => s.writerAt.inFlight = true
  | _ => False

/-- The ticket is issued and not settled. -/
def Outstanding (s : Watched O R) (ticket : Nat) : Prop :=
  1 ≤ ticket ∧ ticket ≤ s.server.ledger.nextTicket ∧ ¬s.server.ledger.inner.IsSettled ticket

/-- Records of the ticket are in a place that no gauge shows. -/
def InTransit (s : Watched O R) (ticket : Nat) : Prop :=
  ∃ place, s.At ticket place ∧ ¬s.Shows place

/-- An outstanding ticket whose records are nowhere. -/
def Lost (s : Watched O R) (ticket : Nat) : Prop :=
  s.Outstanding ticket ∧ ∀ place, ¬s.At ticket place

/-- What the gauges guarantee. -/
structure Gauged (config : InsertBatcherConfig) (s : Watched O R) : Prop where
  active : s.server.buffers.Active config
  observed : s.batcherAt = .receiving →
    s.batcherStats.bufferedRecords = s.server.buffers.buffered
  flagged : s.writerAt.inFlight = true → s.writerStats.inFlight = 1

variable {config : InsertBatcherConfig} {s s' : Watched O R} {start ticket : Nat}
  {events : List (Nat × Act R)} {e : Nat × Act R}

theorem gauged_new (start : Nat) : (new start : Watched O R).Gauged config where
  active := fun _ he => absurd he List.not_mem_nil
  observed h := by cases h
  flagged h := by cases h

section Steps

variable [BEq O] {setup : Setup O R}

theorem active_step {p p' : Server O R} {e : Pipeline.Event R}
    (h : p.buffers.Active setup.batching) (hs : p.step setup e = some p') :
    p'.buffers.Active setup.batching := by
  cases step_inv hs with
  | push hb hq hr hp => exact (h.push hp).1
  | flush hb hq hf | hangUp hb hf => exact h.flushWith InsertBatcher.flush_cases hf
  | timer hb hf => exact h.flushWith (InsertBatcher.flushIfExpired_cases _) hf
  | _ => exact h

theorem ServerMove.active {p' : Server O R} (hm : ServerMove setup s p')
    (h : s.server.buffers.Active setup.batching) : p'.buffers.Active setup.batching := by
  cases hm with
  | step he hs => exact active_step h hs
  | settle hs => exact active_step (by rw [buffers_stampDue]; exact h) hs
  | dropBuffers => exact fun _ he => absurd he List.not_mem_nil
  | keep | dropQueue => exact h

theorem Gauged.moves (h : s.Gauged setup.batching) (hm : Moves setup s s') :
    s'.Gauged setup.batching where
  active := hm.server.active h.active
  observed hat := by
    rcases hm.observed hat with hnew | ⟨hold, hbuffers, hstats⟩
    · exact hnew
    · rw [hstats, hbuffers]
      exact h.observed hold
  flagged hf := by
    rcases hm.flagged hf with hone | ⟨hold, hstats⟩
    · exact hone
    · rw [hstats]
      exact h.flagged hold

theorem gauged_step (h : s.Gauged setup.batching) (hs : s.step setup e = some s') :
    s'.Gauged setup.batching := by
  obtain ⟨-, hs⟩ := Option.ite_none_right_eq_some.mp hs
  have hlater : { s with now := e.1 }.Gauged setup.batching := ⟨h.active, h.observed, h.flagged⟩
  exact hlater.moves (moves_act hs)

theorem gauged_run (hrun : (new start).run setup events = some s) : s.Gauged setup.batching :=
  Run.invariant (P := fun s => s.Gauged setup.batching) (fun h hs => gauged_step h hs)
    (gauged_new start) hrun

end Steps

section Verdict

/-- What a gauge shows, it counts. -/
theorem Gauged.shown (h : s.Gauged config) {place : Place} (hat : s.At ticket place)
    (hshows : s.Shows place) : 0 < s.writerStats.inFlight ∨ 0 < s.batcherStats.bufferedRecords := by
  cases place with
  | originBuffers =>
    obtain ⟨e, he, -⟩ := hat
    have hlength : 0 < e.2.batcher.buffered := List.length_pos_iff.mpr (h.active.buffer_ne_nil he)
    have hsum : e.2.batcher.buffered ≤ s.server.buffers.buffered :=
      List.le_sum_of_mem (List.mem_map_of_mem he)
    rw [h.observed hshows]
    exact .inr (hlength.trans_le hsum)
  | execution =>
    rw [h.flagged hshows]
    exact .inl Nat.one_pos
  | _ => exact hshows.elim

end Verdict

section Issues

/-- When a ticket was issued, and when the watermark had last advanced before that. -/
structure Issue where
  issuedAt : Nat
  lastAdvance : Nat
  deriving DecidableEq, Repr

variable [BEq O] (setup : Setup O R)

/-- The tickets that a step issues. -/
def issues (s : Watched O R) (e : Nat × Act R) : List Issue :=
  match s.step setup e with
  | some s' =>
    List.replicate (s'.server.ledger.nextTicket - s.server.ledger.nextTicket)
      ⟨e.1, s.server.ledger.inner.lastAdvanceMs⟩
  | none => []

/-- Those of a run: the entry before position `n` is that of ticket `n`. -/
def issuesOf (start : Nat) (events : List (Nat × Act R)) : List Issue :=
  Run.gather (step setup) (issues setup) (new start) events

/-- All tickets are recorded, and the watermark has not gone back since. -/
structure Recorded (s : Watched O R) (log : List Issue) : Prop where
  punctual : s.Punctual
  complete : log.length = s.server.ledger.nextTicket
  advanced : ∀ issue ∈ log, issue.lastAdvance ≤ issue.issuedAt ∧
    issue.lastAdvance ≤ s.server.ledger.inner.lastAdvanceMs

variable {setup} {log : List Issue}

theorem recorded_step (h : s.Recorded log) (hs : s.step setup e = some s') :
    s'.Recorded (log ++ issues setup s e) := by
  obtain ⟨hlater, hmoves⟩ := moves_step h.punctual hs
  obtain ⟨-, hcalled⟩ := hmoves.server.issued hlater.issued
  have hnext : s.server.ledger.nextTicket ≤ s'.server.ledger.nextTicket := hcalled.nextTicket_le
  have hlast : s.server.ledger.inner.lastAdvanceMs ≤ s'.server.ledger.inner.lastAdvanceMs := by
    rw [hcalled.advances.last]
    split_ifs
    · exact le_rfl
    · exact hlater.advanced
  have hissues : issues setup s e =
      List.replicate (s'.server.ledger.nextTicket - s.server.ledger.nextTicket)
        ⟨e.1, s.server.ledger.inner.lastAdvanceMs⟩ := by
    rw [issues, hs]
  refine ⟨punctual_step h.punctual hs, ?_, fun issue hin => ?_⟩
  · rw [hissues, List.length_append, List.length_replicate, h.complete]
    omega
  · rcases List.mem_append.mp hin with hin | hin
    · exact ⟨(h.advanced issue hin).1, (h.advanced issue hin).2.trans hlast⟩
    · rw [hissues] at hin
      rw [List.eq_of_mem_replicate hin]
      exact ⟨hlater.advanced, hlast⟩

theorem recorded_run (hrun : (new start).run setup events = some s) :
    s.Recorded (issuesOf setup start events) :=
  Run.invariant_gather (fun h hs => recorded_step h hs)
    (⟨punctual_new start, rfl, nofun⟩ : (new start).Recorded []) hrun

omit [BEq O] in
theorem Recorded.exists_issue (h : s.Recorded log) (hopen : s.Outstanding ticket) :
    ∃ issue, log[ticket - 1]? = some issue := by
  have hlt : ticket - 1 < log.length := by
    have hissued := hopen.2.1
    have hpos := hopen.1
    rw [h.complete]
    omega
  exact ⟨log[ticket - 1], List.getElem?_eq_getElem hlt⟩

end Issues

end Watched

/-- An `AckStall` verdict means a lost ticket, if every ticket was issued while the
watermark was so young that it does not go stale within `travel`, and no open ticket has
been in transit for longer than that. -/
theorem ack_stall_sound [BEq O] (product : Nat → ℚ → Nat) (watch : WatchdogConfig)
    (setup : Setup O R) (start : Nat) (events : List (Nat × Act R)) (s : Watched O R)
    (hrun : (Watched.new start).run setup events = some s) (travel : Nat)
    (hissued : ∀ issue ∈ Watched.issuesOf setup start events,
      issue.issuedAt + travel < issue.lastAdvance + watch.ackStallAfter)
    (t : Nat)
    (hprompt : ∀ ticket issue, (Watched.issuesOf setup start events)[ticket - 1]? = some issue →
      s.Outstanding ticket → s.InTransit ticket → t ≤ issue.issuedAt + travel)
    (hverdict : ∃ tickets idle, evaluate product watch ((s.health setup).sample t) =
      ⟨.unhealthy, .ackStall tickets idle⟩) :
    ∃ ticket, s.Lost ticket := by
  have hgauged := Watched.gauged_run hrun
  have hrecorded := Watched.recorded_run hrun
  obtain ⟨-, -, -, htickets, hpending, hstale⟩ := (evaluate_ackStall_iff _ _ _).mp hverdict
  obtain ⟨ticket, hopen⟩ := (outstandingTickets_pos_iff hrecorded.punctual.wellFormed
    hrecorded.punctual.settled_le).mp htickets
  refine ⟨ticket, hopen, fun place hat => ?_⟩
  by_cases hshows : s.Shows place
  · -- what a gauge shows is pending work
    have hcounted := hgauged.shown hat hshows
    have hpos := ((s.health setup).pendingWork_pos t).mpr (.inr hcounted)
    omega
  · -- in transit, and so not for long: the watermark is not stale yet
    obtain ⟨issue, hissue⟩ := hrecorded.exists_issue hopen
    have hage := hprompt ticket issue hissue hopen ⟨place, hat, hshows⟩
    have hyoung := hissued issue (List.mem_of_getElem? hissue)
    obtain ⟨hbefore, hlast⟩ := hrecorded.advanced issue (List.mem_of_getElem? hissue)
    change watch.ackStallAfter ≤ t - s.server.ledger.inner.lastAdvanceMs at hstale
    omega

section Arrival

/-- One request of one record. -/
def singleRequest : Setup Nat Nat where
  queue := ⟨8, by decide⟩
  batching := pairs
  commandQueueCapacity := 16
  maxRecordsPerRequest := 1000
  validated := by decide
  requests _ := [⟨7, [1], by decide⟩]
  deadline _ := none

/-- Both threads wait for a minute; then the request is admitted. -/
def firstArrival : List (Nat × Act Nat) :=
  [(0, .batcher .observe), (0, .writer .measure), (60000, .outside (.handle 0)),
    (60000, .outside (.enqueue 0)), (60000, .outside (.enqueue 0)),
    (60000, .outside (.enqueue 0)), (60000, .outside (.enqueue 0)),
    (60000, .outside (.enqueue 0))]

def arrived : Watched Nat Nat :=
  ((Watched.new 0).run singleRequest firstArrival).get (by decide +kernel)

/-- A millisecond after its admission the request is taken for a lost ticket, and its
chunk is in the ingest queue. -/
theorem fresh_ticket_reported_lost :
    (∃ tickets idle, evaluate exactProduct defaultWatch ((arrived.health singleRequest).sample
        60001) = ⟨.unhealthy, .ackStall tickets idle⟩) ∧ ¬∃ ticket, arrived.Lost ticket := by
  refine ⟨⟨1, 60001, by decide +kernel⟩, ?_⟩
  rintro ⟨ticket, ⟨hlow, hhigh, -⟩, hnowhere⟩
  have hissued : arrived.server.ledger.nextTicket = 1 := by decide +kernel
  have hqueue : arrived.server.ingress.queue = [.logs ⟨7, [⟨0, 0, 0, 1⟩], 1⟩] := by
    decide +kernel
  apply hnowhere .ingestQueue
  refine ⟨⟨7, [⟨0, 0, 0, 1⟩], 1⟩, ?_, ?_⟩
  · rw [hqueue]
    exact List.mem_cons_self
  · show 1 = ticket
    omega

end Arrival

section Dropped

/-- No transaction begins. -/
def diskGone : Weather (Exported Nat) where
  strict _ := ⟨some .fatal, none, fun _ _ => none, none⟩
  salvage := ⟨some .fatal, none, fun _ _ => none, none⟩
  upkeep := none

/-- The request is admitted at once, buffered for a second and submitted. Its batch cannot
be written, and the writer is about to return. -/
def failedWrite : List (Nat × Act Nat) :=
  [(0, .batcher .observe), (0, .writer .measure), (0, .outside (.handle 0)),
    (0, .outside (.enqueue 0)), (0, .outside (.enqueue 0)), (0, .outside (.enqueue 0)),
    (0, .outside (.enqueue 0)), (0, .outside (.enqueue 0)), (1, .batcher .receive),
    (1, .batcher .submit), (1, .batcher .observe), (1001, .batcher .timer),
    (1001, .batcher .submit), (1001, .batcher .submit), (1001, .batcher .observe),
    (1001, .writer .take), (1001, .writer .count), (1001, .writer .flag), (1001, .writer .enter),
    (1001, .writer (.persist diskGone false)), (1001, .writer .clear)]

def dropped : Watched Nat Nat :=
  ((Watched.new 0).run singleRequest failedWrite).get (by decide +kernel)

theorem issued_dropped (i : Nat) : (dropped.server.ingress.calls i).issued = none := by
  cases i <;> with_unfolding_all rfl

theorem not_inTransit_dropped (ticket : Nat) : ¬dropped.InTransit ticket := by
  have hqueue : dropped.server.ingress.queue = [] := by decide +kernel
  have houtbox : dropped.server.batcher.outbox = [] := by decide +kernel
  have hbuffers : dropped.server.buffers.isEmpty = true := by decide +kernel
  have hcommands : dropped.server.queue = [] := by decide +kernel
  have hhand : dropped.hand = none := by decide +kernel
  rintro ⟨place, hat, -⟩
  cases place with
  | enqueueCall =>
    obtain ⟨i, chunk, left, outcome, hcall, -⟩ := hat
    have hissued := issued_dropped i
    rw [hcall] at hissued
    cases hissued
  | ingestQueue => simp [Watched.At, hqueue] at hat
  | handledMessage => simp [Watched.At, houtbox] at hat
  | originBuffers => simp [Watched.At, List.isEmpty_iff.mp hbuffers] at hat
  | commandQueue => simp [Watched.At, hcommands] at hat
  | execution => simp [Watched.At, hhand] at hat

/-- A minute later the ticket is reported, and it is lost. -/
theorem ack_stall_sound_dropped :
    (∃ tickets idle, evaluate exactProduct defaultWatch ((dropped.health singleRequest).sample
        60000) = ⟨.unhealthy, .ackStall tickets idle⟩) ∧ ∃ ticket, dropped.Lost ticket := by
  have hverdict : ∃ tickets idle, evaluate exactProduct defaultWatch
      ((dropped.health singleRequest).sample 60000) = ⟨.unhealthy, .ackStall tickets idle⟩ :=
    ⟨1, 60000, by decide +kernel⟩
  refine ⟨hverdict, ack_stall_sound exactProduct defaultWatch singleRequest 0 failedWrite dropped
    (Option.some_get _).symm 2000 (by decide +kernel) 60000 ?_ hverdict⟩
  exact fun ticket _ _ _ htransit => absurd htransit (not_inTransit_dropped ticket)

end Dropped

end OtelSqlite.Runtime
