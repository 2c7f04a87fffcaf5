import OtelSqlite.Pipeline.BatcherSteps
import OtelSqlite.Pipeline.IngressSteps

/-!
# Steps of the writer thread, and every step of the pipeline

Between the commit of a transaction and its last ledger call the ledger is behind
the table; the calls still due bring it up to date.
-/

namespace OtelSqlite.Pipeline

open OtelSqlite.Core OtelSqlite.Core.Commit OtelSqlite.Core.Batcher
open OtelSqlite.Storage OtelSqlite.Ingress OtelSqlite.Lib.Publication

variable {O R : Type} [BEq O] {setup : Setup O R} {p p' : Server O R}
  {received : List (LogChunk O (Exported R))} {ops : List (Op O (Exported R))}
  {emitted : List (LogWriteBatch O (Exported R))} {done : List (Done O (Exported R))}
  {rest : List (LogWriteBatch O (Exported R))}

section

variable (h : Inv setup p received ops emitted done rest)
include h

/-- The writer moves on without a transaction. -/
theorem Inv.writer_step (phase : WriterPhase O R) (queue : List (WriteCommand O (Exported R)))
    (hact : phase.active = true → p.writer.active = true) (hin : phase.active = true →
      phase.inHand ++ insertsOf queue = p.writer.inHand ++ insertsOf p.queue)
    (hdue : phase.due = p.writer.due) :
    Inv setup { p with writer := phase, queue } received ops emitted done rest :=
  { h with
    rest_eq := by
      intro ha
      obtain ⟨lost, hrest, hlost⟩ := h.rest_eq (hact ha)
      refine ⟨lost, ?_, hlost⟩
      rw [hrest, ← hin ha]
    due_issue := by
      rw [hdue]
      exact h.due_issue
    balanced := by
      intro t ht
      rw [hdue]
      exact h.balanced t ht
    closing := fun hb => Bool.eq_false_iff.mpr fun ha => by
      have hgone := h.closing hb
      rw [hact ha] at hgone
      cases hgone }

/-- The transaction of a batch commits: its settlement is due. -/
theorem Inv.persist {batch : LogWriteBatch O (Exported R)}
    (hw : p.writer = .executing (.insertLogs batch)) {q : Persisted (Exported R)}
    {judged : List (Judged (Exported R))} (hp : PersistedAs batch q judged) (now : Nat) :
    ∃ rest', Inv setup
      { p with
        writer := .settling (settleLogBatch batch q.salvage now)
        table := p.table ++ q.inserted }
      received ops emitted (done ++ [⟨batch, judged, hp.rows⟩]) rest' := by
  have hact : p.writer.active = true := by rw [hw]; rfl
  obtain ⟨lost, hrest, hlost⟩ := h.rest_eq hact
  rw [hw] at hrest
  have hem : emitted = batchesOf (done ++ [⟨batch, judged, hp.rows⟩]) ++
      (insertsOf p.queue ++ p.batcher.outbox ++ lost) := by
    rw [h.emitted_eq, hrest, batchesOf, batchesOf, List.map_append]
    simp [WriterPhase.inHand]
  refine ⟨_,
    { h with
      emitted_eq := hem
      rest_eq := fun _ => ⟨lost, rfl, hlost⟩
      table_eq := ?_
      due_issue := notMem_settleLogBatch batch q.salvage now
      balanced := ?_
      closing := fun hb => ?_ }⟩
  · rw [keptRows_concat, List.map_append, ← h.table_eq, hp.inserted]
  · intro t ht
    have hold := h.balanced t ht
    rw [hw] at hold
    obtain ⟨records, tail, hf, hb⟩ := h.flow.follows_some h.nodup
      (fun c hc => h.small (h.received_sent c hc)) t
    have hl := h.flow.labelled
    rw [hem] at hf hl
    have hl' : AllLabelled setup.batching (batchesOf (done ++ [⟨batch, judged, hp.rows⟩])) :=
      fun b hb => hl b (List.mem_append_left _ hb)
    exact Balanced.persist hold hl' hf.split hb hp (h.tracked_pos ht) now
  · have hgone := h.closing hb
    rw [hact] at hgone
    cases hgone

theorem Inv.inHand_emitted {batch : LogWriteBatch O (Exported R)}
    (hw : p.writer = .executing (.insertLogs batch)) : batch ∈ emitted := by
  obtain ⟨lost, hrest, -⟩ := h.rest_eq (by rw [hw]; rfl)
  rw [h.emitted_eq, hrest, hw]
  simp [WriterPhase.inHand]

/-- A command is executed: its batch joins `done`, or it wrote nothing. -/
theorem Inv.execute {weather : Weather (Exported R)} {now : Nat}
    {command : WriteCommand O (Exported R)} {effect : Effect (Exported R)}
    (hw : p.writer = .executing command) (he : execute weather now command = .ok effect) :
    let p' := { p with writer := .settling effect.calls, table := p.table ++ effect.inserted }
    (∃ rest', Inv setup p' received ops emitted done rest' ∧ p.writer.inHand = []) ∨
      ∃ x rest', p.writer = .executing (.insertLogs x.batch) ∧
        Inv setup p' received ops emitted (done ++ [x]) rest' := by
  intro p'
  have hact : p.writer.active = true := by rw [hw]; rfl
  by_cases hc : ∃ batch, command = .insertLogs batch
  · obtain ⟨batch, rfl⟩ := hc
    obtain ⟨origin, hl⟩ := h.flow.labelled batch (h.inHand_emitted hw)
    obtain ⟨q, judged, hp, rfl⟩ := execute_insert hl he
    obtain ⟨rest', h'⟩ := h.persist hw hp now
    exact Or.inr ⟨⟨batch, judged, hp.rows⟩, rest', hw, h'⟩
  · obtain rfl := execute_other (fun batch hb => hc ⟨batch, hb⟩) he
    have hhand : p.writer.inHand = [] := by
      rw [hw]
      cases command <;> first | rfl | exact absurd ⟨_, rfl⟩ hc
    simp only [p', List.append_nil]
    exact Or.inl ⟨_, h.writer_step (.settling []) p.queue (fun _ => hact)
      (fun _ => by rw [hhand]; rfl) (by rw [hw]; rfl), hhand⟩

/-- The writer makes the next due call. -/
theorem Inv.settle {c : Call} {calls : List Call} (hw : p.writer = .settling (c :: calls)) :
    Inv setup { p.call c with writer := .settling calls } received ops emitted done rest := by
  have hact : p.writer.active = true := by rw [hw]; rfl
  have hdue := h.due_issue
  rw [hw, WriterPhase.due, List.mem_cons, List.mem_cons, not_or, not_or] at hdue
  have hnext : (p.call c).ledger.nextTicket = p.ledger.nextTicket :=
    nextTicket_locked _ (Ne.symm hdue.1.1)
  exact
    { h with
      admission := h.admission.other_call hnext
      rest_eq := fun _ => by
        obtain ⟨lost, hrest, hlost⟩ := h.rest_eq hact
        rw [hw] at hrest
        exact ⟨lost, hrest, hlost⟩
      wellFormed := wellFormed_locked h.wellFormed c
      locked := rfl
      coherent := coherent_call h.locked h.coherent c
      due_issue := ⟨hdue.1.2, hdue.2.2⟩
      balanced := by
        intro t ht
        have ht' : p.Tracked t := by
          change (p.call c).ledger.nextTicket < t ∨ _ at ht
          rw [hnext] at ht
          exact ht
        have hold := h.balanced t ht'
        rw [hw] at hold
        exact Balanced.call hold h.wellFormed
      closing := fun hb => by
        have hgone := h.closing hb
        rw [hact] at hgone
        cases hgone }

end

/-- The invariant with its history hidden, apart from the executed batches. -/
def Server.Booked (setup : Setup O R) (p : Server O R) (done : List (Done O (Exported R))) : Prop :=
  ∃ received ops emitted rest, Inv setup p received ops emitted done rest

theorem Inv.booked (h : Inv setup p received ops emitted done rest) : p.Booked setup done :=
  ⟨_, _, _, _, h⟩

theorem Server.Booked.table_eq (hb : p.Booked setup done) :
    p.table = (keptRows (judgedAll done)).map Prod.snd := by
  obtain ⟨received, ops, emitted, rest, h⟩ := hb
  exact h.table_eq

theorem booked_new (setup : Setup O R) (start : Nat) : (Server.new start).Booked setup [] :=
  (inv_new setup start).booked

theorem booked_handle {i : Nat} (hb : p.Booked setup done) (hs : p.handleStep setup i = some p') :
    p'.Booked setup done := by
  obtain ⟨received, ops, emitted, rest, h⟩ := hb
  obtain ⟨handler, rfl, hl⟩ := handleStep_goto hs
  exact (h.handler hl).booked

/-- **Every step keeps the invariant**; a batch is executed by its transaction only. -/
theorem booked_step {e : Event R} (hb : p.Booked setup done) (hs : p.step setup e = some p') :
    p'.Booked setup done ∨
      ∃ x, p.writer = .executing (.insertLogs x.batch) ∧ p'.Booked setup (done ++ [x]) := by
  obtain ⟨received, ops, emitted, rest, h⟩ := hb
  cases step_inv hs with
  | handle hs' hl => exact .inl (h.handler hl).booked
  | enqueue hh hs' => exact .inl (inv_enqueue h hh hs').booked
  | control hs' => exact .inl (inv_control h hs').booked
  | publish k => exact .inl (inv_publish h k).booked
  | void hb hq hr => exact absurd hr (h.received_nonempty hb hq)
  | @push _ _ chunk queue buffers out hb hq hr hp =>
    refine .inl (h.emit hb (.submitting out false) rfl (h.flow.push hr hp) ?_ ?_).booked
    · rw [hq]
      simp [chunksOf]
    · rw [hq]
      exact Nat.le_succ _
  | @flush _ _ queue buffers out hb hq hf =>
    refine .inl (h.emit hb (.submitting out true) rfl (h.flow.flush .flushAll rfl hf) ?_ ?_).booked
    · rw [hq]
      rfl
    · rw [hq]
      exact Nat.le_succ _
  | @timer now buffers out hb hf =>
    exact .inl (h.emit hb (.submitting out false) rfl (h.flow.flush (.flushExpired now) rfl hf) rfl
      le_rfl).booked
  | @hangUp buffers out hb hf =>
    exact .inl (h.emit hb (.draining out) rfl (h.flow.flush .flushAll rfl hf) rfl le_rfl).booked
  | offer ho hw hr => exact .inl (h.offer ho).booked
  | refused ho hw => exact .inl (h.halt .closing rfl fun _ => hw).booked
  | submitted hb =>
    exact .inl (h.advance .waiting (fun _ => by rw [hb]; rfl) (fun _ => by rw [hb]; rfl)
      fun hc => by cases hc).booked
  | drained hb => exact .inl (h.halt .leaving rfl fun hc => by cases hc).booked
  | unwind hl => exact .inl (h.halt .unwinding rfl fun hc => by cases hc).booked
  | close hb => exact .inl (h.close.halt .leaving rfl fun hc => by cases hc).booked
  | leave hb => exact .inl h.leave.booked
  | @upkeep checkpoint hw hr =>
    refine .inl (h.writer_step p.writer _ id (fun _ => ?_) rfl).booked
    rw [insertsOf_append]
    cases checkpoint <;> simp [insertsOf]
  | @take command queue hw hq =>
    refine .inl (h.writer_step (.executing command) queue (fun _ => by rw [hw]; rfl) (fun _ => ?_)
      (by rw [hw]; rfl)).booked
    rw [hw, hq]
    cases command <;> rfl
  | fail hw he | stop hw =>
    exact .inl (h.writer_step .leaving p.queue (fun hl => by cases hl) (fun hl => by cases hl)
      (by rw [hw]; rfl)).booked
  | persist hw he =>
    rcases h.execute hw he with ⟨rest', h', -⟩ | ⟨x, rest', hw, h'⟩
    · exact .inl h'.booked
    · exact .inr ⟨x, hw, h'.booked⟩
  | settle hw => exact .inl (h.settle hw).booked
  | settled hw =>
    exact .inl (h.writer_step .idle p.queue (fun _ => by rw [hw]; rfl) (fun _ => by rw [hw]; rfl)
      (by rw [hw]; rfl)).booked
  | exit hw =>
    exact .inl (h.close.writer_step .gone p.queue (fun hl => by cases hl) (fun hl => by cases hl)
      (by rw [Server.call, hw]; rfl)).booked

end OtelSqlite.Pipeline
