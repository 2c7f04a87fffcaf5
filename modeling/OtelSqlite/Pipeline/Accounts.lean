import OtelSqlite.Pipeline.WriterSteps

/-!
# What the ledger and the table say of a request

The committed records of a request are the kept rows of its tickets, ticket by
ticket. Once a ticket is settled, or no ledger call is due, the ledger's answer
about the ticket is the count of its kept rows.
-/

namespace OtelSqlite.Pipeline

open OtelSqlite.Core OtelSqlite.Core.Commit OtelSqlite.Core.Batcher
open OtelSqlite.Storage OtelSqlite.Ingress OtelSqlite.Lib.History

variable {O R T : Type}

/-- The committed records of a ticket. -/
def keptOf (done : List (Done O T)) (t : Nat) : List T :=
  ((keptRows (judgedAll done)).filter fun r => r.1.ticket == t).map Prod.snd

theorem length_keptOf (done : List (Done O T)) (t : Nat) :
    (keptOf done t).length = (tally t (judgedAll done)).1 := by
  rw [keptOf, List.length_map, ← List.countP_eq_length_filter]
  rfl

variable [BEq O] {setup : Setup O R} {p p' : Server O R} {done : List (Done O (Exported R))}
  {i : Nat} {c : LogChunk O (Exported R)}

theorem Inv.sent_inj {received : List (LogChunk O (Exported R))} {ops : List (Op O (Exported R))}
    {emitted rest : List (LogWriteBatch O (Exported R))}
    (h : Inv setup p received ops emitted done rest) {c' : LogChunk O (Exported R)}
    (hc : c ∈ chunksSent p.ingress.sent) (hc' : c' ∈ chunksSent p.ingress.sent)
    (he : c.commitSeq = c'.commitSeq) : c = c' :=
  List.inj_on_of_nodup_map (h.admission.increasing.imp fun hlt => Nat.ne_of_lt hlt) hc hc' he

section

variable (hb : p.Booked setup done)
include hb

/-- The executed rows of a sent chunk are its first rows. -/
theorem Server.Booked.follows (hc : c ∈ chunksSent p.ingress.sent) :
    ∃ tail, Follows c.commitSeq c.records (batchesOf done) tail := by
  obtain ⟨received, ops, emitted, rest, h⟩ := hb
  obtain ⟨i, hi⟩ := mem_chunksSent.mp hc
  obtain ⟨w, hw, hrec⟩ := sentBy_work h.admission hi
  have hne : c.records ≠ [] := hrec ▸ (mem_work hw).1
  by_cases hr : c ∈ received
  · have hf := h.flow.follows h.nodup hr hne
    rw [h.emitted_eq] at hf
    exact ⟨_, hf.split⟩
  · have hnone : c.commitSeq ∉ ticketsOf (filled received) := by
      intro ht
      obtain ⟨c', hc', he⟩ := List.mem_map.mp ht
      have hm := (List.mem_filter.mp hc').1
      exact hr (h.sent_inj (h.received_sent c' hm) hc he ▸ hm)
    have hf := h.flow.follows_none h.nodup hnone
    rw [h.emitted_eq] at hf
    have hnil : emittedRows (byTicket c.commitSeq) (batchesOf done) = [] := by
      have hs := hf.split
      rw [Follows] at hs
      exact (List.append_eq_nil_iff.mp hs).1
    exact ⟨chunkRows c.commitSeq c.records, by rw [Follows, hnil]; rfl⟩

theorem Server.Booked.labelled : AllLabelled setup.batching (batchesOf done) := by
  obtain ⟨received, ops, emitted, rest, h⟩ := hb
  have hl := h.flow.labelled
  rw [h.emitted_eq] at hl
  exact fun b hm => hl b (List.mem_append_left _ hm)

section

variable (hc : c ∈ chunksSent p.ingress.sent)
include hc

theorem Server.Booked.nonempty : c.records ≠ [] := by
  obtain ⟨received, ops, emitted, rest, h⟩ := hb
  obtain ⟨i, hi⟩ := mem_chunksSent.mp hc
  obtain ⟨w, hw, hrec⟩ := sentBy_work h.admission hi
  exact hrec ▸ (mem_work hw).1

theorem Server.Booked.keptOf_sublist : (keptOf done c.commitSeq).Sublist c.records := by
  obtain ⟨tail, hf⟩ := hb.follows hc
  exact hf.sublist (keptRows_sublist _)

/-- The ledger is up to date about a settled ticket, and about all when nothing is due. -/
theorem Server.Booked.state_eq
    (hx : IsSettledState (p.ledger.state c.commitSeq) ∨ p.writer.due = []) :
    p.ledger.state c.commitSeq = expectedState c.commitSeq done := by
  obtain ⟨received, ops, emitted, rest, h⟩ := hb
  have hbal := h.balanced c.commitSeq (Or.inr (Or.inr ⟨c, hc, rfl⟩))
  rw [Storage.Balanced] at hbal
  rcases hx with hs | hd
  · rwa [foldl_after_settled hs] at hbal
  · rwa [hd] at hbal

/-- Reading the ticket adds the number of its committed records. -/
theorem Server.Booked.read (hx : IsSettledState (p.ledger.state c.commitSeq) ∨ p.writer.due = [])
    (count : Count) :
    (count.read c.records.length (p.ledger.state c.commitSeq)).committed =
      count.committed + (keptOf done c.commitSeq).length := by
  obtain ⟨tail, hf⟩ := hb.follows hc
  rw [hb.state_eq hc hx, length_keptOf]
  rcases expectedState_cases hf hb.labelled (hb.nonempty hc) with ⟨hsum, hs⟩ | ⟨-, hs⟩
  · rw [hs]
    split_ifs with hd
    · rfl
    · simp only [Count.read]
      omega
  · rw [hs]
    rfl

end

/-- A row belongs to the request whose chunk carries its ticket. -/
theorem Server.Booked.row_owner {r : Row (Exported R)} (hr : r ∈ (judgedAll done).map Prod.fst)
    (i : Nat) :
    r.2.request = i ↔ r.1.ticket ∈ (sentBy p.ingress.sent i).map LogChunk.commitSeq := by
  obtain ⟨received, ops, emitted, rest, h⟩ := hb
  obtain ⟨b, hbm, hrb⟩ : ∃ b ∈ emitted, r ∈ rowsOf b := by
    rw [judgedAll, List.map_flatMap] at hr
    obtain ⟨x, hx, hrx⟩ := List.mem_flatMap.mp hr
    rw [x.rows_eq] at hrx
    refine ⟨x.batch, ?_, hrx⟩
    rw [h.emitted_eq]
    exact List.mem_append_left _ (List.mem_map_of_mem hx)
  obtain ⟨c, hcr, -, hct, hrc⟩ := h.flow.row_mem h.nodup hbm hrb
  have hc := h.received_sent c hcr
  have hown : ∀ k, c ∈ sentBy p.ingress.sent k → r.2.request = k := by
    intro k hk
    obtain ⟨w, hw, hrec⟩ := sentBy_work h.admission hk
    exact (mem_work hw).2 r.2 (hrec ▸ hrc)
  obtain ⟨k, hk⟩ := mem_chunksSent.mp hc
  constructor
  · intro he
    obtain rfl := (hown k hk).symm.trans he
    exact List.mem_map.mpr ⟨c, hk, hct⟩
  · intro hm
    obtain ⟨c', hc', he⟩ := List.mem_map.mp hm
    have hsame := h.sent_inj (mem_chunksSent.mpr ⟨i, hc'⟩) hc (he.trans hct.symm)
    exact hown i (hsame ▸ hc')

theorem Server.Booked.tickets_nodup (i : Nat) :
    ((sentBy p.ingress.sent i).map LogChunk.commitSeq).Nodup := by
  obtain ⟨received, ops, emitted, rest, h⟩ := hb
  have hsub : (sentBy p.ingress.sent i).Sublist (chunksSent p.ingress.sent) :=
    List.filter_sublist.filterMap _
  exact (h.admission.increasing.imp fun hlt => Nat.ne_of_lt hlt).sublist (hsub.map _)

/-- The committed records of a request, ticket by ticket. -/
theorem Server.Booked.committedOf_perm (i : Nat) :
    (p.committedOf i).Perm
      ((sentBy p.ingress.sent i).flatMap fun c => keptOf done c.commitSeq) := by
  have hrows : p.committedOf i = ((keptRows (judgedAll done)).filter fun r =>
      r.1.ticket ∈ (sentBy p.ingress.sent i).map LogChunk.commitSeq).map Prod.snd := by
    rw [Server.committedOf, hb.table_eq, List.filter_map]
    congr 1
    refine List.filter_congr fun r hr => ?_
    exact Bool.eq_iff_iff.mpr (by simpa using hb.row_owner ((keptRows_sublist _).subset hr) i)
  rw [hrows]
  have hperm := (filter_perm_flatMap (fun r : Row (Exported R) => r.1.ticket)
    (keptRows (judgedAll done)) (hb.tickets_nodup i)).map Prod.snd
  rw [List.map_flatMap, List.flatMap_map] at hperm
  refine hperm.trans (List.Perm.of_eq (List.flatMap_congr fun c _ => ?_))
  rw [keptOf]
  congr 1

theorem Server.Booked.length_committedOf (i : Nat) :
    (p.committedOf i).length =
      ((sentBy p.ingress.sent i).map fun c => (keptOf done c.commitSeq).length).sum := by
  rw [(hb.committedOf_perm i).length_eq, List.length_flatMap]

end

end OtelSqlite.Pipeline
