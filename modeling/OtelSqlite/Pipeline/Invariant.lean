import OtelSqlite.Ingress.Effects
import OtelSqlite.Pipeline.System
import OtelSqlite.Storage.LineAccounting

/-!
# The pipeline's invariant

`Inv` follows the records from the ingest queue to the table and the ledger calls
from the writer to the ledger, in every state of every interleaving.
-/

namespace OtelSqlite.Pipeline

open OtelSqlite.Core OtelSqlite.Core.Commit OtelSqlite.Core.Batcher
open OtelSqlite.Storage OtelSqlite.Ingress OtelSqlite.Lib.Publication

variable {O R : Type} {c : LogChunk O (Exported R)}

/-- The tickets whose state the executed batches decide: those not yet issued, those
about to be sent and those of a sent chunk. The others are void. -/
def Server.Tracked (p : Server O R) (t : Nat) : Prop :=
  p.ledger.nextTicket < t ∨ (∃ k, (p.ingress.calls k).pending = some t) ∨
    ∃ c ∈ chunksSent p.ingress.sent, c.commitSeq = t

structure Inv [BEq O] (setup : Setup O R) (p : Server O R)
    (received : List (LogChunk O (Exported R))) (ops : List (Op O (Exported R)))
    (emitted : List (LogWriteBatch O (Exported R))) (done : List (Done O (Exported R)))
    (rest : List (LogWriteBatch O (Exported R))) : Prop where
  admission : p.ingress.Inv setup.queue setup.traffic
  limited : ∀ i, p.handlers i = .enqueueing ∨ p.ingress.calls i ≠ .start →
    setup.totalRecords i ≤ setup.maxRecordsPerRequest
  connected : p.batcher.live = true → p.ingress.connected = true
  sent_eq : ∃ unread, chunksSent p.ingress.sent = received ++ unread ∧
    (p.ingress.connected = true → unread = chunksOf p.ingress.queue)
  flow : Flow setup.batching received ops p.buffers emitted
  emitted_eq : emitted = batchesOf done ++ rest
  rest_eq : p.writer.active = true → ∃ lost,
    rest = p.writer.inHand ++ insertsOf p.queue ++ p.batcher.outbox ++ lost ∧
      (p.batcher.live = true → lost = [])
  table_eq : p.table = (keptRows (judgedAll done)).map Prod.snd
  wellFormed : p.ledger.inner.WellFormed
  locked : p.ingress.shared.updates.current.value = p.ledger.inner.watermark
  coherent : Coherent p.ingress.shared.updates
  due_issue : .issue ∉ p.writer.due ∧ .close ∉ p.writer.due
  balanced : ∀ t, p.Tracked t → Storage.Balanced p.ledger p.writer.due done t
  closing : p.batcher = .closing → p.writer.active = false

section Facts

variable {setup : Setup O R} {i : Nat} {w : LogChunk O (Exported R)} {s : Admission O (Exported R)}

theorem mem_chunksSent {sent : List (Sent O (Exported R))} :
    c ∈ chunksSent sent ↔ ∃ i, c ∈ sentBy sent i := by
  simp only [chunksSent, sentBy, List.mem_filterMap, List.mem_filter]
  constructor
  · rintro ⟨x, hx, he⟩
    cases x with
    | chunk i d => exact ⟨i, .chunk i d, ⟨hx, by simp [byRequest]⟩, he⟩
    | barrier j => cases he
  · rintro ⟨i, x, ⟨hx, -⟩, he⟩
    exact ⟨x, hx, he⟩

theorem mem_work (h : w ∈ setup.work i) : w.records ≠ [] ∧ ∀ r ∈ w.records, r.request = i := by
  obtain ⟨j, hj, rfl⟩ := List.mem_mapIdx.mp h
  refine ⟨?_, fun r hr => ?_⟩
  · rw [Ne, List.mapIdx_eq_nil_iff]
    exact (setup.requests i)[j].nonempty
  · obtain ⟨k, hk, rfl⟩ := List.mem_mapIdx.mp hr
    rfl

/-- A sent chunk is one of its request's. -/
theorem sentBy_work (h : s.Inv setup.queue setup.traffic) (hc : c ∈ sentBy s.sent i) :
    ∃ w ∈ setup.work i, w.records = c.records := by
  obtain ⟨left, hleft⟩ := h.allOrNothing.in_order i
  have hm : body c ∈ (setup.traffic.work i).map body := by
    rw [← hleft]
    exact List.mem_map_of_mem (List.mem_append_left _ hc)
  obtain ⟨w, hw, he⟩ := List.mem_map.mp hm
  exact ⟨w, hw, congrArg Prod.snd he⟩

theorem sentBy_start (h : s.Inv setup.queue setup.traffic) (hc : c ∈ sentBy s.sent i) :
    s.calls i ≠ .start := by
  intro hs
  have hfits := h.fits_work i
  rw [hs] at hfits
  rw [show sentBy s.sent i = [] from hfits] at hc
  cases hc

theorem length_le_recordsIn {chunks : List (LogChunk O (Exported R))} (h : w ∈ chunks) :
    w.records.length ≤ recordsIn chunks := by
  obtain ⟨xs, ys, rfl⟩ := List.append_of_mem h
  simp only [recordsIn, List.map_append, List.map_cons, List.sum_append, List.sum_cons]
  omega

end Facts

section Preserve

variable [BEq O] {setup : Setup O R} {p p' : Server O R}
  {received : List (LogChunk O (Exported R))} {ops : List (Op O (Exported R))}
  {emitted : List (LogWriteBatch O (Exported R))} {done : List (Done O (Exported R))}
  {rest : List (LogWriteBatch O (Exported R))}

theorem inv_new (setup : Setup O R) (start : Nat) : Inv setup (Server.new start) [] [] [] [] [] where
  admission := Admission.inv_new start
  limited := by
    rintro i (hh | hc)
    · cases hh
    · exact absurd rfl hc
  connected := fun _ => rfl
  sent_eq := ⟨[], rfl, fun _ => rfl⟩
  flow := flow_nil
  emitted_eq := rfl
  rest_eq := fun _ => ⟨[], rfl, fun _ => rfl⟩
  table_eq := rfl
  wellFormed := wellFormed_new start
  locked := rfl
  coherent := coherent_new _
  due_issue := ⟨List.not_mem_nil, List.not_mem_nil⟩
  balanced := by
    intro t ht
    have h0 : t ≠ 0 := by
      rcases ht with hlt | ⟨k, hk⟩ | ⟨c, hc, -⟩
      · exact Nat.ne_of_gt hlt
      · cases hk
      · cases hc
    have hs : ¬ (CommitLedger.new start).inner.IsSettled t := by
      simp [CommitLedger.new, Inner.IsSettled, h0]
    exact CommitLedger.state_fresh (wellFormed_new start) h0 hs
  closing := fun hc => by cases hc

section

variable (h : Inv setup p received ops emitted done rest)
include h

theorem Inv.received_sent : ∀ c ∈ received, c ∈ chunksSent p.ingress.sent := by
  obtain ⟨unread, hsent, -⟩ := h.sent_eq
  intro c hc
  rw [hsent]
  exact List.mem_append_left _ hc

theorem Inv.nodup : (ticketsOf received).Nodup := by
  obtain ⟨unread, hsent, -⟩ := h.sent_eq
  have hinc := h.admission.increasing
  rw [hsent, List.map_append] at hinc
  exact (List.pairwise_append.mp hinc).1.imp fun hlt => Nat.ne_of_lt hlt

theorem Inv.small (hc : c ∈ chunksSent p.ingress.sent) : c.records.length ≤ u64Max := by
  obtain ⟨i, hi⟩ := mem_chunksSent.mp hc
  obtain ⟨w, hw, hr⟩ := sentBy_work h.admission hi
  have hle : w.records.length ≤ setup.totalRecords i := length_le_recordsIn hw
  have hmax := h.limited i (Or.inr (sentBy_start h.admission hi))
  have hval := setup.validated
  rw [hr] at hle
  unfold maxRecordsLimit at hval
  unfold u64Max
  omega

theorem Inv.tracked_pos {t : Nat} (ht : p.Tracked t) : t ≠ 0 := by
  rcases ht with hlt | ⟨k, hk⟩ | ⟨c, hc, rfl⟩
  · exact Nat.ne_of_gt (Nat.zero_lt_of_lt hlt)
  · have hissued : (p.ingress.calls k).issued = some t := by
      revert hk
      cases p.ingress.calls k <;> intro hk <;> first | exact hk | cases hk
    exact Nat.ne_of_gt (h.admission.fresh k t hissued).1
  · exact Nat.ne_of_gt (h.admission.issued c hc).1

/-- A ledger call that concerns no tracked ticket. -/
theorem Inv.call {c : Call} (hc : c ≠ .issue) (hi : ∀ t, p.Tracked t → Ignores t c) :
    Inv setup (p.call c) received ops emitted done rest := by
  have hnext : (p.call c).ledger.nextTicket = p.ledger.nextTicket := nextTicket_locked _ hc
  exact
    { h with
      admission := h.admission.other_call hnext
      wellFormed := wellFormed_locked h.wellFormed c
      locked := rfl
      coherent := coherent_call h.locked h.coherent c
      balanced := by
        intro t ht
        have ht' : p.Tracked t := by
          rw [Server.Tracked, hnext] at ht
          exact ht
        exact (h.balanced t ht').ignore h.wellFormed (hi t ht') }

theorem Inv.handler {i : Nat} {handler : Handler}
    (hl : handler = .enqueueing → setup.totalRecords i ≤ setup.maxRecordsPerRequest) :
    Inv setup (p.goto i handler) received ops emitted done rest :=
  { h with
    limited := by
      rintro k (hk | hk)
      · rcases eq_or_ne k i with rfl | hne
        · exact hl (by simpa [Server.goto] using hk)
        · exact h.limited k (Or.inl (by simpa [Server.goto, hne] using hk))
      · exact h.limited k (Or.inr hk) }

end

end Preserve

end OtelSqlite.Pipeline
