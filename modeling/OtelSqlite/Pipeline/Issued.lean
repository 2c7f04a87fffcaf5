import OtelSqlite.Core.LedgerStates
import OtelSqlite.Pipeline.Quiet
import OtelSqlite.Storage.CarriedTickets

/-!
# Every ticket in the pipeline has been issued

A ticket passes from the call that issued it through the queues and buffers to the
ledger call that settles it. `TicketsUpTo` bounds the tickets in each of these places;
with the ledger's own counter for the bound every step of every thread keeps it, so
only issued tickets are ever settled. A step makes at most one ledger call, and
`Event.At` is the clock reading that call is made with.
-/

namespace OtelSqlite.Pipeline

open OtelSqlite.Core OtelSqlite.Core.Commit OtelSqlite.Core.Batcher
open OtelSqlite.Storage OtelSqlite.Ingress

variable {O R : Type} {now : Nat}

/-- No ticket above `n` on the ingest side or in the ledger. -/
structure IngressUpTo (n : Nat) (s : Admission O (Exported R)) : Prop where
  calls : ∀ i t, (s.calls i).issued = some t → t ≤ n
  queue : ∀ chunk, .logs chunk ∈ s.queue → chunk.commitSeq ≤ n
  settled : ∀ t, s.shared.ledger.inner.IsSettled t → t ≤ n

/-- No ticket above `n`, in any place. -/
structure Server.TicketsUpTo (n : Nat) (p : Server O R) : Prop where
  ingress : IngressUpTo n p.ingress
  buffers : p.buffers.Carries (· ≤ n)
  outbox : ∀ batch ∈ p.batcher.outbox, BatchCarries (· ≤ n) batch
  queue : ∀ command ∈ p.queue, CommandCarries (· ≤ n) command
  hand : ∀ batch ∈ p.writer.inHand, BatchCarries (· ≤ n) batch
  due : ∀ c ∈ p.writer.due, ∀ t, c.Settles t → t ≤ n

/-- A ledger call that the event makes reads the clock as `now`. -/
def Event.At (now : Nat) (p : Server O R) : Event R → Prop
  | .enqueue _ clock | .receive _ clock => clock = now
  | .settle => ∀ c ∈ p.writer.due, c.At now
  | _ => True

/-- The ledger is as it was, or one call has been made at `now`. -/
def CalledAt (now : Nat) (l l' : CommitLedger) : Prop :=
  l' = l ∨ ∃ c : Call, c.At now ∧ l' = (l.locked c).1

section Called

variable {now t : Nat} {l l' : CommitLedger}

theorem CalledAt.advances (h : CalledAt now l l') : Advances now l.inner l'.inner := by
  rcases h with rfl | ⟨c, hc, rfl⟩
  · exact .of_eq rfl rfl
  · exact advances_locked l hc

theorem CalledAt.wellFormed (h : CalledAt now l l') (hw : l.inner.WellFormed) :
    l'.inner.WellFormed := by
  rcases h with rfl | ⟨c, -, rfl⟩
  · exact hw
  · exact wellFormed_locked hw c

theorem CalledAt.isSettled (h : CalledAt now l l') (ht : l.inner.IsSettled t) :
    l'.inner.IsSettled t := by
  rcases h with rfl | ⟨c, -, rfl⟩
  · exact ht
  · exact isSettled_locked ht c

theorem CalledAt.nextTicket_le (h : CalledAt now l l') : l.nextTicket ≤ l'.nextTicket := by
  rcases h with rfl | ⟨c, -, rfl⟩
  · exact le_rfl
  · exact nextTicket_le_locked l c

end Called

section Ingress

variable {n : Nat} {s s' : Admission O (Exported R)} {config : QueueConfig}
  {work : List (LogChunk O (Exported R))}

section

variable (h : IngressUpTo n s)
include h

theorem IngressUpTo.call {c : Call} (hc : ∀ t, c.Settles t → t ≤ n) :
    IngressUpTo n { s with shared := s.shared.call c } :=
  { h with
    settled := fun t ht =>
      ((isSettled_locked_iff s.shared.ledger c t).mp ht).elim (h.settled t) (hc t) }

theorem IngressUpTo.disconnected : IngressUpTo n { s with connected := false, queue := [] } :=
  { h with queue := fun _ hm => absurd hm List.not_mem_nil }

theorem IngressUpTo.goto (i : Nat) (phase : Phase O (Exported R))
    (hp : ∀ t, phase.issued = some t → t ≤ n) : IngressUpTo n (s.goto i phase) :=
  { h with
    calls := by
      intro k t ht
      rcases eq_or_ne k i with rfl | hne
      · exact hp t (by simpa [Admission.goto] using ht)
      · exact h.calls k t (by simpa [Admission.goto, hne] using ht) }

theorem ingressUpTo_request {i : Nat} (hs : s.requestStep config work i now = some s')
    (hn : s'.shared.ledger.nextTicket ≤ n) : IngressUpTo n s' := by
  cases Admission.requestStep_inv hs with
  | refuse hp hlen => exact h.goto i .refused nofun
  | enter hp hlen => exact h.goto i .waiting nofun
  | lock hp hfree => exact { h.goto i .checking nofun with }
  | reserve hp hfit => exact h.goto i (.sending _ _) nofun
  | full hp hfit => exact { h.goto i (.full _) nofun with }
  | finish outcome hp | release outcome hp => exact { h.goto i (.done outcome) nofun with }
  | issue chunk left outcome hp =>
    -- the ticket is the ledger's counter after the call
    exact { h.goto i (.stamped _ left outcome) fun t ht => Option.some.inj ht ▸ hn with }
  | send chunk left outcome hp hc =>
    have hissued : chunk.commitSeq ≤ n := h.calls i _ (by rw [hp]; rfl)
    exact
      { h.goto i (.sending left _) nofun with
        queue := fun d hd => by
          rcases List.mem_append.mp hd with hd | hd
          · exact h.queue d hd
          · obtain rfl : d = chunk := by simpa using hd
            exact hissued }
  | fail chunk left outcome failure hp hsend =>
    exact h.goto i (.stopping _ failure outcome) fun t ht => h.calls i t (by rw [hp]; exact ht)
  | void ticket failure outcome hp =>
    have hissued : ticket ≤ n := h.calls i _ (by rw [hp]; rfl)
    exact (h.goto i (.releasing _) nofun).call fun t ht => (ht : ticket = t) ▸ hissued

theorem ingressUpTo_control {deadline : Option Nat} {j : Nat}
    (hs : s.controlStep config deadline j now = some s') : IngressUpTo n s' := by
  obtain ⟨-, hshared, hcalls, hqueue⟩ := Admission.controlStep_effect hs
  refine ⟨hcalls ▸ h.calls, fun chunk hc => ?_, hshared ▸ h.settled⟩
  rcases hqueue with ⟨hq, -⟩ | ⟨hq, -⟩
  · exact h.queue chunk (hq ▸ hc)
  · exact h.queue chunk (by simpa [hq] using hc)

end

theorem calledAt_request {i : Nat} (hs : s.requestStep config work i now = some s') :
    CalledAt now s.shared.ledger s'.shared.ledger := by
  cases (Admission.requestStep_effect hs).2 with
  | silent hq hsent hsh hp | send chunk hcon hpend hq hsent hsh hp =>
    exact .inl (congrArg Shared.ledger hsh)
  | issue hq hsent hsh hp => exact .inr ⟨.issue, trivial, congrArg Shared.ledger hsh⟩
  | void ticket hissued hrel hq hsent hsh hp =>
    exact .inr ⟨.void ticket now, rfl, congrArg Shared.ledger hsh⟩

end Ingress

section Server

variable {n m : Nat} {p p' : Server O R} {batcher : BatcherPhase O R}
  {command : WriteCommand O (Exported R)}

theorem ticketsUpTo_new (n start : Nat) : (Server.new start : Server O R).TicketsUpTo n where
  ingress :=
    { calls := nofun
      queue := nofun
      settled := fun t ht => by
        rcases ht with hle | hmem
        · exact hle.trans (Nat.zero_le n)
        · exact absurd hmem (Finset.notMem_empty t) }
  buffers := nofun
  outbox := nofun
  queue := nofun
  hand := nofun
  due := nofun

section

variable (h : p.TicketsUpTo n)
include h

theorem Server.TicketsUpTo.mono (hnm : n ≤ m) : p.TicketsUpTo m where
  ingress :=
    { calls := fun i t ht => (h.ingress.calls i t ht).trans hnm
      queue := fun chunk hc => (h.ingress.queue chunk hc).trans hnm
      settled := fun t ht => (h.ingress.settled t ht).trans hnm }
  buffers e he s hs := (h.buffers e he s hs).trans hnm
  outbox batch hb := (h.outbox batch hb).mono fun _ ht => ht.trans hnm
  queue command hc := (h.queue command hc).mono fun _ ht => ht.trans hnm
  hand batch hb := (h.hand batch hb).mono fun _ ht => ht.trans hnm
  due c hc t ht := (h.due c hc t ht).trans hnm

theorem Server.TicketsUpTo.call {c : Call} (hc : ∀ t, c.Settles t → t ≤ n) :
    (p.call c).TicketsUpTo n :=
  { h with ingress := h.ingress.call hc }

theorem Server.TicketsUpTo.close : (p.call .close).TicketsUpTo n :=
  h.call fun _ => False.elim

/-- The batcher moves on, with submissions to hand over or without. -/
theorem Server.TicketsUpTo.batched {buffers : OriginBuffers O (Exported R)}
    (hb : buffers.Carries (· ≤ n) ∧ ∀ batch ∈ batcher.outbox, BatchCarries (· ≤ n) batch) :
    { p with buffers, batcher }.TicketsUpTo n :=
  { h with buffers := hb.1, outbox := hb.2 }

/-- The batcher has nothing to hand over. -/
theorem Server.TicketsUpTo.handedOver (hb : batcher.outbox = []) :
    { p with batcher }.TicketsUpTo n :=
  h.batched ⟨h.buffers, fun _ hm => absurd (hb ▸ hm) List.not_mem_nil⟩

/-- The writer has nothing in hand and no call to make. -/
theorem Server.TicketsUpTo.released {writer : WriterPhase O R}
    (hw : writer.inHand = [] ∧ writer.due = []) : { p with writer }.TicketsUpTo n :=
  { h with
    hand := fun _ hm => absurd (hw.1 ▸ hm) List.not_mem_nil
    due := fun _ hm => absurd (hw.2 ▸ hm) List.not_mem_nil }

/-- The batcher has taken a message. -/
theorem Server.TicketsUpTo.received {message : IngestMessage O (Exported R)}
    {queue : List (IngestMessage O (Exported R))} (hq : p.ingress.queue = message :: queue) :
    { p with ingress := { p.ingress with queue } }.TicketsUpTo n :=
  { h with
    ingress :=
      { h.ingress with
        queue := fun d hd => h.ingress.queue d (by rw [hq]; exact .tail _ hd) } }

/-- The writer has the calls of a batch to make. -/
theorem Server.TicketsUpTo.settling {calls : List Call} {table : List (Exported R)}
    (hd : ∀ c ∈ calls, ∀ t, c.Settles t → t ≤ n) :
    { p with writer := .settling calls, table }.TicketsUpTo n :=
  { h with hand := fun _ hm => absurd hm List.not_mem_nil, due := hd }

end

theorem commandCarries_iff {P : Nat → Prop} :
    CommandCarries P command ↔ ∀ batch ∈ (WriterPhase.executing command).inHand,
      BatchCarries P batch := by
  cases command with
  | insertLogs batch =>
    exact (List.forall_mem_singleton : (∀ b ∈ [batch], BatchCarries P b) ↔ _).symm
  | flush | checkpoint | maintenance => exact iff_of_true trivial nofun

/-- A command is appended to the writer's queue. -/
theorem Server.TicketsUpTo.queued (h : p.TicketsUpTo n) (command : WriteCommand O (Exported R))
    (hc : CommandCarries (· ≤ n) command) :
    { p with queue := p.queue ++ [command] }.TicketsUpTo n :=
  { h with queue := List.forall_mem_append.mpr ⟨h.queue, List.forall_mem_singleton.mpr hc⟩ }

variable {setup : Setup O R}

theorem Server.TicketsUpTo.offer (h : p.TicketsUpTo n) {next : BatcherPhase O R}
    (ho : Offers p.batcher command next) :
    { p with queue := p.queue ++ [command], batcher := next }.TicketsUpTo n := by
  have hout := h.outbox
  generalize p.batcher = phase at ho hout
  cases ho with
  | submit batch out barrier | drain batch out =>
    obtain ⟨hbatch, hrest⟩ := List.forall_mem_cons.mp hout
    exact (h.queued (.insertLogs batch) hbatch).batched ⟨h.buffers, hrest⟩
  | barrier => exact (h.queued .flush trivial).handedOver rfl

/-- A step keeps the bound if the ledger's counter stays below it, and makes at most one
ledger call. -/
theorem ticketsUpTo_step [BEq O] {e : Event R} (h : p.TicketsUpTo n) (he : e.At now p)
    (hs : p.step setup e = some p') (hn : p'.ledger.nextTicket ≤ n) :
    p'.TicketsUpTo n ∧ CalledAt now p.ledger p'.ledger := by
  cases step_inv hs with
  | handle => exact ⟨{ h with }, .inl rfl⟩
  | enqueue hh hs' =>
    obtain rfl := he
    exact ⟨{ h with ingress := ingressUpTo_request h.ingress hs' hn }, calledAt_request hs'⟩
  | control hs' =>
    exact ⟨{ h with ingress := ingressUpTo_control h.ingress hs' },
      .inl (congrArg Shared.ledger (Admission.controlStep_effect hs').2.1)⟩
  | publish k => exact ⟨{ h with ingress := { h.ingress with } }, .inl rfl⟩
  | @void clock _ chunk queue hb hq hr =>
    obtain rfl := he
    have hchunk : chunk.commitSeq ≤ n := h.ingress.queue chunk (by rw [hq]; exact .head _)
    exact ⟨(h.received hq).call fun t ht => (ht : chunk.commitSeq = t) ▸ hchunk,
      .inr ⟨.void chunk.commitSeq _, rfl, rfl⟩⟩
  | @push clock _ chunk queue buffers out hb hq hr hp =>
    have hchunk : chunk.commitSeq ≤ n := h.ingress.queue chunk (by rw [hq]; exact .head _)
    exact ⟨(h.received hq).batched (h.buffers.push hchunk hp), .inl rfl⟩
  | flush hb hq hf => exact ⟨(h.received hq).batched (h.buffers.flushWith hf), .inl rfl⟩
  | timer hb hf | hangUp hb hf => exact ⟨h.batched (h.buffers.flushWith hf), .inl rfl⟩
  | offer ho hw hr => exact ⟨h.offer ho, .inl rfl⟩
  | refused | submitted | drained | unwind => exact ⟨h.handedOver rfl, .inl rfl⟩
  | close hb => exact ⟨h.close.handedOver rfl, .inr ⟨.close, trivial, rfl⟩⟩
  | leave hb =>
    exact ⟨{ h.handedOver rfl with ingress := h.ingress.disconnected }, .inl rfl⟩
  | @upkeep checkpoint hw hr =>
    refine ⟨h.queued _ ?_, .inl rfl⟩
    cases checkpoint <;> trivial
  | take hw hq =>
    have hall := h.queue
    rw [hq] at hall
    obtain ⟨hhead, htail⟩ := List.forall_mem_cons.mp hall
    exact ⟨{ h with
      queue := htail
      hand := commandCarries_iff.mp hhead
      due := fun _ hm => absurd hm List.not_mem_nil }, .inl rfl⟩
  | persist hw hok =>
    have hcommand := commandCarries_iff.mpr (hw ▸ h.hand)
    exact ⟨h.settling fun c hc t ht => carries_execute hcommand hok hc ht, .inl rfl⟩
  | @settle c calls hw =>
    have hdue := h.due
    rw [hw] at hdue
    obtain ⟨hc, hcalls⟩ := List.forall_mem_cons.mp hdue
    have hat : c.At now := he c (by rw [hw]; exact .head _)
    exact ⟨(h.call hc).settling hcalls, .inr ⟨c, hat, rfl⟩⟩
  | settled | fail | stop => exact ⟨h.released ⟨rfl, rfl⟩, .inl rfl⟩
  | exit hw => exact ⟨h.close.released ⟨rfl, rfl⟩, .inr ⟨.close, trivial, rfl⟩⟩

/-- Every ticket in the pipeline has been issued. -/
def Server.Issued (p : Server O R) : Prop := p.TicketsUpTo p.ledger.nextTicket

theorem issued_step [BEq O] {e : Event R} (h : p.Issued) (he : e.At now p)
    (hs : p.step setup e = some p') : p'.Issued ∧ CalledAt now p.ledger p'.ledger := by
  have hle : p.ledger.nextTicket ≤ p'.ledger.nextTicket := by
    rcases ledger_step hs with heq | ⟨c, heq, -⟩ <;> rw [heq]
    exact nextTicket_le_locked p.ledger c
  exact ticketsUpTo_step (h.mono hle) he hs le_rfl

end Server

end OtelSqlite.Pipeline
