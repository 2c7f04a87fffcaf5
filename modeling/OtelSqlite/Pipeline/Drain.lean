import Mathlib.Data.Prod.Lex
import OtelSqlite.Lib.Completion
import OtelSqlite.Pipeline.DurableAcks
import OtelSqlite.Storage.BatcherThread

/-!
# The shutdown drain

When ingress has dropped its senders and the other producers of commands have stopped, only
the two storage threads are left. A receiver reports a disconnection when its queue is empty,
not before: the batcher takes what is in the ingest queue, flushes its buffers and drops the
command queue, the writer takes what is in that queue and closes the ledger. The drain ends
whatever SQLite answers, and also if the batcher unwinds.
-/

namespace OtelSqlite.Pipeline

open OtelSqlite.Core OtelSqlite.Core.Commit OtelSqlite.Core.Batcher
open OtelSqlite.Storage OtelSqlite.Ingress OtelSqlite.Lib.Run

variable {O R : Type} {next : BatcherPhase O R} {command : WriteCommand O (Exported R)}
  {e : Event R}

/-- The events that are left once nobody sends to the two queues any more. The batcher's wait
does not time out: `recv_timeout` returns a message or the disconnection at once. -/
def Drains (p : Server O R) : Event R → Prop
  | .receive _ _ | .submit | .unwind | .batcherExit | .take | .persist _ _ | .settle
  | .writerExit => True
  | .hangUp => p.ingress.queue = []
  | .stop => p.queue = [] ∧ p.batcher = .gone
  | _ => False

instance (phase : BatcherPhase O R) : Decidable (phase = .gone) :=
  match phase with
  | .gone => isTrue rfl
  | .waiting | .submitting _ _ | .draining _ | .closing | .unwinding | .leaving =>
    isFalse fun h => by cases h

instance (phase : WriterPhase O R) : Decidable (phase = .gone) :=
  match phase with
  | .gone => isTrue rfl
  | .idle | .executing _ | .settling _ | .leaving => isFalse fun h => by cases h

instance (p : Server O R) (e : Event R) : Decidable (Drains p e) :=
  match e with
  | .receive _ _ | .submit | .unwind | .batcherExit | .take | .persist _ _ | .settle
  | .writerExit => isTrue trivial
  | .hangUp => decidable_of_iff (p.ingress.queue.isEmpty = true) List.isEmpty_iff
  | .stop => decidable_of_iff (p.queue.isEmpty = true ∧ p.batcher = .gone)
      (and_congr_left' List.isEmpty_iff)
  | .handle _ | .enqueue _ _ | .control _ _ | .publish _ | .timer _ | .upkeep _ => isFalse id

/-- Both threads have returned. -/
def Server.Ended (p : Server O R) : Prop := p.batcher = .gone ∧ p.writer = .gone

instance (p : Server O R) : Decidable p.Ended := inferInstanceAs (Decidable (_ ∧ _))

section Rank

variable {phase : BatcherPhase O R}

/-- How far the batcher is from its end. -/
def BatcherPhase.stage : BatcherPhase O R → Nat
  | .waiting | .submitting _ _ => 4
  | .draining _ => 3
  | .closing | .unwinding => 2
  | .leaving => 1
  | .gone => 0

/-- The steps until it looks at its input again. -/
def BatcherPhase.pending : BatcherPhase O R → Nat
  | .submitting out barrier => out.length + barrier.toNat + 1
  | .draining out => out.length
  | _ => 0

def WriterPhase.stage : WriterPhase O R → Nat
  | .executing _ => 4
  | .settling _ => 3
  | .idle => 2
  | .leaving => 1
  | .gone => 0

/-- The first three numbers are the batcher's, the other three the writer's: a step of the
batcher may put a command into the queue, but it has one less to put there. -/
def Server.rank (p : Server O R) : ℕ ×ₗ ℕ ×ₗ ℕ ×ₗ ℕ ×ₗ ℕ ×ₗ ℕ :=
  toLex (p.ingress.queue.length, toLex (p.batcher.stage, toLex (p.batcher.pending,
    toLex (p.queue.length, toLex (p.writer.stage, p.writer.due.length)))))

theorem Offers.stage_eq (h : Offers phase command next) : next.stage = phase.stage := by
  cases h <;> rfl

theorem Offers.pending_lt (h : Offers phase command next) : next.pending < phase.pending := by
  cases h <;> simp [BatcherPhase.pending]

theorem BatcherPhase.three_le_stage (h : phase.live = true) : 3 ≤ phase.stage := by
  revert h
  cases phase <;> simp [live, stage]

variable [BEq O] {setup : Setup O R} {p p' : Server O R}

theorem rank_lt (he : Drains p e) (hs : p.step setup e = some p') : p'.rank < p.rank := by
  simp only [Server.rank, Prod.Lex.toLex_lt_toLex]
  cases step_inv hs with
  | handle | enqueue | control | publish | timer | upkeep => exact he.elim
  | void hb hq | push hb hq | flush hb hq =>
    left
    rw [hq]
    exact Nat.lt_succ_self _
  | hangUp hb | drained hb =>
    refine Or.inr ⟨rfl, Or.inl ?_⟩
    simp [hb, BatcherPhase.stage]
  | offer ho => exact Or.inr ⟨rfl, Or.inr ⟨ho.stage_eq, Or.inl ho.pending_lt⟩⟩
  | refused ho => exact Or.inr ⟨rfl, Or.inl (BatcherPhase.three_le_stage ho.live.1)⟩
  | unwind hl => exact Or.inr ⟨rfl, Or.inl (BatcherPhase.three_le_stage hl)⟩
  | submitted hb =>
    refine Or.inr ⟨rfl, Or.inr ⟨?_, Or.inl ?_⟩⟩
    · simp [hb, BatcherPhase.stage]
    · simp [hb, BatcherPhase.pending]
  | close hb =>
    refine Or.inr ⟨rfl, Or.inl ?_⟩
    rcases hb with hb | hb <;> simp [hb, BatcherPhase.stage]
  | leave hb =>
    rcases Nat.eq_zero_or_pos p.ingress.queue.length with h0 | hpos
    · refine Or.inr ⟨h0.symm, Or.inl ?_⟩
      simp [hb, BatcherPhase.stage]
    · exact Or.inl hpos
  | take hw hq =>
    refine Or.inr ⟨rfl, Or.inr ⟨rfl, Or.inr ⟨rfl, Or.inl ?_⟩⟩⟩
    rw [hq]
    exact Nat.lt_succ_self _
  | fail hw | persist hw | settled hw | stop hw | exit hw =>
    refine Or.inr ⟨rfl, Or.inr ⟨rfl, Or.inr ⟨rfl, Or.inr ⟨rfl, Or.inl ?_⟩⟩⟩⟩
    simp [hw, WriterPhase.stage]
  | settle hw =>
    refine Or.inr ⟨rfl, Or.inr ⟨rfl, Or.inr ⟨rfl, Or.inr ⟨rfl, Or.inr ⟨?_, ?_⟩⟩⟩⟩⟩
    · simp [hw, WriterPhase.stage]
    · rw [hw]
      exact Nat.lt_succ_self _

end Rank

section Moves

variable {setup : Setup O R} {p : Server O R}

/-- A send does not wait if the queue has room or its receiver is gone. -/
theorem offer_isSome (h : p.writer.active = false ∨ p.queue.length < setup.commandQueueCapacity) :
    (p.offer setup command next).isSome = true := by
  unfold Server.offer
  split_ifs with hw hroom
  · rfl
  · rfl
  · exact absurd h (not_or.mpr ⟨hw, hroom⟩)

theorem submitStep_isSome {out : List (LogWriteBatch O (Exported R))} {barrier : Bool}
    (hphase : p.batcher = .submitting out barrier ∨ p.batcher = .draining out)
    (hroom : p.writer.active = false ∨ p.queue.length < setup.commandQueueCapacity) :
    (p.submitStep setup).isSome = true := by
  unfold Server.submitStep
  rcases hphase with hphase | hphase
  · cases out with
    | cons batch out => simp only [hphase, offer_isSome hroom]
    | nil => cases barrier <;> simp [hphase, offer_isSome hroom]
  · cases out with
    | cons batch out => simp only [hphase, offer_isSome hroom]
    | nil => simp [hphase]

variable [BEq O]

/-- What the buffers hold can be flushed and pushed to: the batcher does not panic. -/
theorem receiveStep_isSome (ha : p.buffers.Active setup.batching) (hphase : p.batcher = .waiting)
    {message : IngestMessage O (Exported R)} {queue : List (IngestMessage O (Exported R))}
    (hq : p.ingress.queue = message :: queue) (clock : Nat → Nat) (now : Nat) :
    (p.receiveStep setup clock now).isSome = true := by
  cases message with
  | logs chunk =>
    by_cases hr : chunk.records = []
    · simp [Server.receiveStep, hphase, hq, hr]
    · obtain ⟨buffers, out, hop, -⟩ := apply_applied ha
        (.push clock chunk.origin chunk.records chunk.commitSeq)
      have hpush : p.buffers.push setup.batching clock chunk.origin chunk.records
        chunk.commitSeq = some (buffers, out) := hop
      simp [Server.receiveStep, hphase, hq, hr, hpush]
  | flush =>
    obtain ⟨out, hf⟩ := flushAll_nil ha
    simp [Server.receiveStep, hphase, hq, hf]

/-- The batcher can go on until it is gone, if it does not have to wait for room. -/
theorem batcher_moves (ha : p.buffers.Active setup.batching) (hne : p.batcher ≠ .gone)
    (hroom : p.writer.active = false ∨ p.queue.length < setup.commandQueueCapacity) :
    ∃ e, Drains p e ∧ (p.step setup e).isSome = true := by
  cases hphase : p.batcher with
  | waiting =>
    cases hq : p.ingress.queue with
    | nil =>
      obtain ⟨out, hf⟩ := flushAll_nil ha
      exact ⟨.hangUp, hq, by simp [Server.step, Server.hangUpStep, hphase, hf]⟩
    | cons message queue =>
      exact ⟨.receive (fun _ => 0) 0, trivial, receiveStep_isSome ha hphase hq _ _⟩
  | submitting out barrier =>
    exact ⟨.submit, trivial, submitStep_isSome (Or.inl hphase) hroom⟩
  | draining out =>
    have hdraining : p.batcher = .submitting out false ∨ p.batcher = .draining out := .inr hphase
    exact ⟨.submit, trivial, submitStep_isSome hdraining hroom⟩
  | closing | unwinding | leaving =>
    exact ⟨.batcherExit, trivial, by simp [Server.step, Server.batcherExit, hphase]⟩
  | gone => exact absurd hphase hne

/-- **No deadlock**: until both threads are gone, one of them can go on. -/
theorem drain_moves (hcapacity : 0 < setup.commandQueueCapacity)
    (ha : p.buffers.Active setup.batching) (hnot : ¬p.Ended) :
    ∃ e, Drains p e ∧ (p.step setup e).isSome = true := by
  cases hphase : p.writer with
  | executing command =>
    refine ⟨.persist ((Verdict.serve 0).weather fun _ => false) 0, trivial, ?_⟩
    simp only [Server.step, Server.persistStep, hphase]
    split <;> rfl
  | settling calls =>
    refine ⟨.settle, trivial, ?_⟩
    cases calls <;> simp [Server.step, hphase]
  | leaving => exact ⟨.writerExit, trivial, by simp [Server.step, hphase]⟩
  | idle =>
    cases hq : p.queue with
    | cons command queue => exact ⟨.take, trivial, by simp [Server.step, hphase, hq]⟩
    | nil =>
      by_cases hgone : p.batcher = .gone
      · exact ⟨.stop, ⟨hq, hgone⟩, by simp [Server.step, hphase]⟩
      · exact batcher_moves ha hgone (Or.inr (by rw [hq]; exact hcapacity))
  | gone =>
    refine batcher_moves ha (fun hgone => hnot ⟨hgone, hphase⟩) (Or.inl ?_)
    rw [hphase]
    rfl

end Moves

section Completion

variable [BEq O] {setup : Setup O R} {p p' : Server O R}

/-- The invariant the drain needs; a writer that is gone has closed the ledger. -/
structure Server.Drainable (setup : Setup O R) (p : Server O R) : Prop where
  booked : ∃ done, p.Booked setup done
  closed : p.writer = .gone → p.ledger.inner.closed = true

theorem Server.Drainable.active (h : p.Drainable setup) : p.buffers.Active setup.batching := by
  obtain ⟨done, received, ops, emitted, rest, hinv⟩ := h.booked
  exact hinv.flow.active

theorem drainable_new (setup : Setup O R) (start : Nat) : (Server.new start).Drainable setup :=
  ⟨⟨_, booked_new setup start⟩, fun h => by cases h⟩

/-- A closed ledger stays closed. -/
theorem closed_step (hs : p.step setup e = some p') (hc : p.ledger.inner.closed = true) :
    p'.ledger.inner.closed = true := by
  rcases ledger_step hs with he | ⟨c, he, -⟩
  · rwa [he]
  · have hrun := (closed_run_iff p.ledger [c]).mpr (Or.inl hc)
    rw [he]
    exact hrun

theorem writer_gone_step (hs : p.step setup e = some p') (hgone : p'.writer = .gone) :
    p.writer = .gone ∨ e = .writerExit := by
  cases step_inv hs with
  | exit => exact Or.inr rfl
  | take | fail | persist | settle | settled | stop => cases hgone
  | _ => exact Or.inl hgone

theorem drainable_step (h : p.Drainable setup) (hs : p.step setup e = some p') :
    p'.Drainable setup := by
  obtain ⟨done, hb⟩ := h.booked
  refine ⟨?_, fun hgone => ?_⟩
  · rcases booked_step hb hs with hb' | ⟨x, -, hb'⟩
    · exact ⟨_, hb'⟩
    · exact ⟨_, hb'⟩
  · rcases writer_gone_step hs hgone with hold | rfl
    · exact closed_step hs (h.closed hold)
    · cases step_inv hs with
      | exit hw => rfl

theorem drainable_run {events : List (Event R)} (h : p.Drainable setup)
    (hrun : p.run setup events = some p') : p'.Drainable setup :=
  invariant (fun hs hstep => drainable_step hs hstep) h hrun

theorem drain_completion (hcapacity : 0 < setup.commandQueueCapacity) :
    Completes (Server.step setup) Drains (Server.Drainable setup) Server.Ended (· < ·)
      Server.rank where
  wellFounded := wellFounded_lt
  keeps h _ hs := drainable_step h hs
  falls _ he hs := rank_lt he hs
  moves h hnot := by
    obtain ⟨e, he, hsome⟩ := drain_moves hcapacity h.active hnot
    obtain ⟨p', hp'⟩ := Option.isSome_iff_exists.mp hsome
    exact ⟨e, p', he, hp'⟩

/-- **The drain completes.** From every state the server can be in, no schedule of the two
threads goes on forever, and none stops before both have returned and the ledger is closed. -/
theorem shutdown_drain_completes (setup : Setup O R) (hcapacity : 0 < setup.commandQueueCapacity)
    (start : Nat) (events : List (Event R)) (p : Server O R)
    (hrun : (Server.new start).run setup events = some p) :
    ¬Endless (Server.step setup) Drains p ∧
      (∀ more p', p.run setup more = some p' → Along (Server.step setup) Drains p more →
        Stuck (Server.step setup) Drains p' → p'.Ended ∧ p'.ledger.inner.closed = true) ∧
      ∃ more p', p.run setup more = some p' ∧ Along (Server.step setup) Drains p more ∧
        p'.Ended := by
  have hdrainable := drainable_run (drainable_new setup start) hrun
  have hc := drain_completion hcapacity
  refine ⟨hc.not_endless hdrainable, fun more p' hmore halong hstuck => ?_,
    hc.exists_run hdrainable⟩
  have hended := hc.final_of_stuck hdrainable halong hmore hstuck
  exact ⟨hended, (drainable_run hdrainable hmore).closed hended.2⟩

/-- The first chunk is with the batcher, the second still in the ingest queue. -/
def twoAccepted : List (Event Nat) :=
  [[.handle 0], .replicate 6 (.enqueue 0 0), [.handle 1], .replicate 6 (.enqueue 1 0),
    [.handle 0, .handle 1, .receive id 0]].flatten

theorem shutdown_drain_completes_two :
    ∃ p : Server Nat Nat, (Server.new 0).run twoRequests twoAccepted = some p ∧
      p.ingress.queue.length = 1 ∧ ¬Endless (Server.step twoRequests) Drains p :=
  ⟨((Server.new 0).run twoRequests twoAccepted).get (by decide +kernel),
    (Option.some_get _).symm, by decide +kernel,
    (shutdown_drain_completes twoRequests (by decide) 0 twoAccepted _
      (Option.some_get _).symm).1⟩

end Completion

end OtelSqlite.Pipeline
