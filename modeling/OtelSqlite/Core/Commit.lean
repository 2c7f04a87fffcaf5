import Mathlib.Algebra.Order.Ring.Nat
import Mathlib.Data.Finset.Basic
import Mathlib.Logic.Function.Basic
import OtelSqlite.Lib.Contiguous

/-!
# The commit-ticket ledger

`CommitLedger` as the ingress, the batcher and the writer share it. Every
mutating call is one critical section; `complete`, `void` and `close` also
compute the watermark they publish after the section, which `locked` returns.
Tickets are natural numbers: the counter would wrap only after 2^64 requests,
and no sum in the ledger depends on it. Record counts saturate as in the source.
-/

namespace OtelSqlite.Core

open OtelSqlite.Lib.Contiguous

def u64Max : Nat := 2 ^ 64 - 1

def saturatingAdd (a b : Nat) : Nat := min (a + b) u64Max

theorem saturatingAdd_pos {a b : Nat} : 0 < saturatingAdd a b ↔ 0 < a + b := by
  simp only [saturatingAdd, u64Max]
  omega

theorem saturatingAdd_eq {a b : Nat} (h : a + b ≤ u64Max) : saturatingAdd a b = a + b :=
  Nat.min_eq_left h

namespace Commit

/-- Published progress of the writer. -/
structure Watermark where
  committedThrough : Nat
  closed : Bool
  deriving DecidableEq, Repr

structure TicketProgress where
  committed : Nat := 0
  dropped : Nat := 0
  deriving DecidableEq, Repr

inductive TicketState where
  | unsettled (progress : TicketProgress)
  | completed
  | failed (progress : TicketProgress)
  deriving DecidableEq, Repr

structure Inner where
  settledAbove : Finset Nat
  committedThrough : Nat
  progress : Nat → Option TicketProgress
  failed : Finset Nat
  lastAdvanceMs : Nat
  closed : Bool

namespace Inner

def IsSettled (inner : Inner) (ticket : Nat) : Prop :=
  ticket ≤ inner.committedThrough ∨ ticket ∈ inner.settledAbove

instance (inner : Inner) (ticket : Nat) : Decidable (inner.IsSettled ticket) :=
  inferInstanceAs (Decidable (_ ∨ _))

def progressOf (inner : Inner) (ticket : Nat) : TicketProgress :=
  (inner.progress ticket).getD {}

def watermark (inner : Inner) : Watermark := ⟨inner.committedThrough, inner.closed⟩

/-- The entry of `ticket` in `progress`, created empty if absent and then changed. -/
def note (inner : Inner) (ticket records : Nat) (change : TicketProgress → TicketProgress) : Inner :=
  if ticket = 0 ∨ records = 0 then inner
  else if inner.IsSettled ticket then inner
  else
    { inner with
      progress := Function.update inner.progress ticket (some (change (inner.progressOf ticket))) }

def noteCommitted (inner : Inner) (ticket records : Nat) : Inner :=
  inner.note ticket records fun p => { p with committed := saturatingAdd p.committed records }

def noteDropped (inner : Inner) (ticket records : Nat) : Inner :=
  inner.note ticket records fun p => { p with dropped := saturatingAdd p.dropped records }

/-- The outcome of a settling ticket: a failed one keeps its progress. -/
def recordOutcome (inner : Inner) (ticket : Nat) (voided : Bool) : Inner :=
  let failed := !voided && decide (0 < (inner.progressOf ticket).dropped)
  { inner with
    failed := if failed then insert ticket inner.failed else inner.failed
    progress := if failed then inner.progress else Function.update inner.progress ticket none }

/-- Advance the contiguous watermark over `ticket` and all parked successors, or park it. -/
def advance (inner : Inner) (ticket now : Nat) : Inner :=
  if ticket = inner.committedThrough + 1 then
    { inner with
      settledAbove := (absorb inner.settledAbove ticket).1
      committedThrough := (absorb inner.settledAbove ticket).2
      lastAdvanceMs := now }
  else if inner.committedThrough < ticket then
    { inner with settledAbove := insert ticket inner.settledAbove }
  else inner

/-- `now` is the reading of `monotonic_millis` inside the critical section. -/
def settle (inner : Inner) (ticket : Nat) (voided : Bool) (now : Nat) : Inner × Option Watermark :=
  if ticket = 0 then (inner, none)
  else if inner.IsSettled ticket then (inner, none)
  else
    let settled := (inner.recordOutcome ticket voided).advance ticket now
    (settled, some settled.watermark)

def close (inner : Inner) : Inner × Option Watermark :=
  ({ inner with closed := true }, some ⟨inner.committedThrough, true⟩)

end Inner

structure CommitLedger where
  nextTicket : Nat
  inner : Inner

inductive Call where
  | issue
  | noteCommitted (ticket records : Nat)
  | noteDropped (ticket records : Nat)
  | complete (ticket now : Nat)
  | void (ticket now : Nat)
  | close
  deriving DecidableEq, Repr

namespace CommitLedger

def new (now : Nat) : CommitLedger where
  nextTicket := 0
  inner :=
    { settledAbove := ∅, committedThrough := 0, progress := fun _ => none, failed := ∅,
      lastAdvanceMs := now, closed := false }

/-- The ledger after the call and the ticket it hands out. -/
def issue (ledger : CommitLedger) : CommitLedger × Nat :=
  ({ ledger with nextTicket := ledger.nextTicket + 1 }, ledger.nextTicket + 1)

/-- The critical section of a call, with the watermark the call publishes afterwards. -/
def locked (ledger : CommitLedger) : Call → CommitLedger × Option Watermark
  | .issue => (ledger.issue.1, none)
  | .noteCommitted ticket records =>
    ({ ledger with inner := ledger.inner.noteCommitted ticket records }, none)
  | .noteDropped ticket records =>
    ({ ledger with inner := ledger.inner.noteDropped ticket records }, none)
  | .complete ticket now =>
    let r := ledger.inner.settle ticket false now
    ({ ledger with inner := r.1 }, r.2)
  | .void ticket now =>
    let r := ledger.inner.settle ticket true now
    ({ ledger with inner := r.1 }, r.2)
  | .close =>
    let r := ledger.inner.close
    ({ ledger with inner := r.1 }, r.2)

def run (ledger : CommitLedger) (calls : List Call) : CommitLedger :=
  calls.foldl (fun l c => (l.locked c).1) ledger

def state (ledger : CommitLedger) (ticket : Nat) : TicketState :=
  if ticket = 0 then .completed
  else if ticket ∈ ledger.inner.failed then .failed (ledger.inner.progressOf ticket)
  else if ledger.inner.IsSettled ticket then .completed
  else .unsettled (ledger.inner.progressOf ticket)

def outstandingTickets (ledger : CommitLedger) : Nat :=
  ledger.nextTicket - ledger.inner.committedThrough - ledger.inner.settledAbove.card

@[simp] theorem run_nil (ledger : CommitLedger) : ledger.run [] = ledger := rfl

@[simp] theorem run_cons (ledger : CommitLedger) (c : Call) (calls : List Call) :
    ledger.run (c :: calls) = (ledger.locked c).1.run calls := rfl

theorem run_append (ledger : CommitLedger) (xs ys : List Call) :
    ledger.run (xs ++ ys) = (ledger.run xs).run ys := List.foldl_append

end CommitLedger

end Commit

end OtelSqlite.Core
