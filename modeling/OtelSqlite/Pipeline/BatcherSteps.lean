import OtelSqlite.Pipeline.Invariant
import OtelSqlite.Pipeline.Steps

/-!
# Steps of the batcher thread keep the pipeline's invariant
-/

namespace OtelSqlite.Pipeline

open OtelSqlite.Core OtelSqlite.Core.Commit OtelSqlite.Core.Batcher
open OtelSqlite.Storage OtelSqlite.Ingress OtelSqlite.Lib.Publication

variable {O R : Type} {phase : BatcherPhase O R} {queue : List (IngestMessage O (Exported R))}

theorem BatcherPhase.outbox_eq_nil (h : phase.live = false) : phase.outbox = [] := by
  cases phase <;> first | rfl | cases h

theorem BatcherPhase.ne_closing (h : phase.live = true) : phase ≠ .closing := by
  rintro rfl
  cases h

variable [BEq O] {setup : Setup O R} {p p' : Server O R}
  {received : List (LogChunk O (Exported R))} {ops : List (Op O (Exported R))}
  {emitted : List (LogWriteBatch O (Exported R))} {done : List (Done O (Exported R))}
  {rest : List (LogWriteBatch O (Exported R))}

section

variable (h : Inv setup p received ops emitted done rest)
include h

/-- The batcher takes a message or the timer fires: `out` is to be submitted. -/
theorem Inv.emit (hw : p.batcher = .waiting) (phase : BatcherPhase O R)
    {received' : List (LogChunk O (Exported R))} {ops' : List (Op O (Exported R))}
    {buffers : OriginBuffers O (Exported R)} (hlive : phase.live = true)
    (hflow : Flow setup.batching received' ops' buffers (emitted ++ phase.outbox))
    (hsent : received' ++ chunksOf queue = received ++ chunksOf p.ingress.queue)
    (hlen : queue.length ≤ p.ingress.queue.length) :
    Inv setup { p with ingress := { p.ingress with queue }, buffers, batcher := phase }
      received' ops' (emitted ++ phase.outbox) done (rest ++ phase.outbox) := by
  have hold : p.batcher.live = true := by rw [hw]; rfl
  have hcon := h.connected hold
  exact
    { h with
      admission := h.admission.drain hlen p.ingress.connected
      connected := fun _ => hcon
      sent_eq := by
        obtain ⟨unread, hs, hunread⟩ := h.sent_eq
        exact ⟨chunksOf queue, by rw [hsent, hs, hunread hcon], fun _ => rfl⟩
      flow := hflow
      emitted_eq := by rw [h.emitted_eq, List.append_assoc]
      rest_eq := by
        intro ha
        obtain ⟨lost, hrest, hlost⟩ := h.rest_eq ha
        refine ⟨[], ?_, fun _ => rfl⟩
        rw [hrest, hlost hold, hw]
        simp [BatcherPhase.outbox]
      closing := fun hc => absurd hc (BatcherPhase.ne_closing hlive) }

/-- A chunk the batcher receives has records. -/
theorem Inv.received_nonempty (hw : p.batcher = .waiting) {chunk : LogChunk O (Exported R)}
    (hq : p.ingress.queue = .logs chunk :: queue) : chunk.records ≠ [] := by
  have hcon : p.ingress.connected = true := h.connected (by rw [hw]; rfl)
  have hm : chunk ∈ chunksSent p.ingress.sent := by
    obtain ⟨unread, hsent, hunread⟩ := h.sent_eq
    rw [hsent, hunread hcon, hq]
    exact List.mem_append_right _ List.mem_cons_self
  obtain ⟨i, hi⟩ := mem_chunksSent.mp hm
  obtain ⟨w, hwork, hrec⟩ := sentBy_work h.admission hi
  exact hrec ▸ (mem_work hwork).1

/-- The batcher moves on with the same submissions in hand, or with none and dead. -/
theorem Inv.advance (phase : BatcherPhase O R) (hlive : phase.live = true → p.batcher.live = true)
    (hout : phase.live = true → phase.outbox = p.batcher.outbox)
    (hclose : phase = .closing → p.writer.active = false) :
    Inv setup { p with batcher := phase } received ops emitted done rest :=
  { h with
    connected := fun hl => h.connected (hlive hl)
    rest_eq := by
      intro ha
      obtain ⟨lost, hrest, hlost⟩ := h.rest_eq ha
      by_cases hl : phase.live = true
      · exact ⟨lost, by rw [hrest, hout hl], fun _ => hlost (hlive hl)⟩
      · have hnil := BatcherPhase.outbox_eq_nil (Bool.eq_false_iff.mpr hl)
        refine ⟨p.batcher.outbox ++ lost, ?_, fun hl' => absurd hl' hl⟩
        rw [hrest, hnil]
        simp
    closing := hclose }

/-- The batcher gives up what it still has to hand over. -/
theorem Inv.halt (phase : BatcherPhase O R) (hdead : phase.live = false)
    (hclose : phase = .closing → p.writer.active = false) :
    Inv setup { p with batcher := phase } received ops emitted done rest := by
  have hnot : phase.live ≠ true := Bool.eq_false_iff.mp hdead
  exact h.advance phase (fun hl => absurd hl hnot) (fun hl => absurd hl hnot) hclose

/-- The batcher sends a command. -/
theorem Inv.offer {command : WriteCommand O (Exported R)} {next : BatcherPhase O R}
    (ho : Offers p.batcher command next) :
    Inv setup { p with queue := p.queue ++ [command], batcher := next }
      received ops emitted done rest := by
  have hcon := h.connected ho.live.1
  exact
    { h with
      connected := fun _ => hcon
      rest_eq := by
        intro hact
        obtain ⟨lost, hrest, hlost⟩ := h.rest_eq hact
        refine ⟨[], ?_, fun _ => rfl⟩
        rw [hrest, hlost ho.live.1, ← ho.outbox, insertsOf_append]
        simp
      closing := fun hc => absurd hc (BatcherPhase.ne_closing ho.live.2) }

theorem Inv.close : Inv setup (p.call .close) received ops emitted done rest :=
  h.call (by simp) fun t _ => ignores_close t

/-- The batcher drops its receiver, and with it what is still in the ingest queue. -/
theorem Inv.leave :
    Inv setup
      { p with
        batcher := .gone
        ingress := { p.ingress with connected := false, queue := [] } }
      received ops emitted done rest :=
  { h.halt .gone rfl (fun hc => by cases hc) with
    admission := h.admission.drain (Nat.zero_le _) false
    connected := fun hl => by cases hl
    sent_eq := by
      obtain ⟨unread, hsent, -⟩ := h.sent_eq
      exact ⟨unread, hsent, fun hc => by cases hc⟩ }

end

end OtelSqlite.Pipeline
