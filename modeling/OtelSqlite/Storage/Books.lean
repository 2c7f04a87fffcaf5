import OtelSqlite.Storage.Accounting

/-!
# Keeping the books

The two halves of the accounting invariant, independent of how the threads are
scheduled. `Flow` follows the records: the operations on the origin buffers are
the pushes of the received chunks with flushes between them. `Balanced` follows
the ledger: once the calls still due are made, a ticket's state is the one the
executed batches say.
-/

namespace OtelSqlite.Storage

open OtelSqlite.Core OtelSqlite.Core.Commit OtelSqlite.Core.Batcher

variable {O T : Type} {c : LogChunk O T}

def pushedChunks (ops : List (Op O T)) : List (LogChunk O T) :=
  ops.filterMap fun
    | .push _ origin records commitSeq => some ⟨origin, records, commitSeq⟩
    | _ => none

/-- The chunks that reach the buffers; an empty one is voided before. -/
def filled (chunks : List (LogChunk O T)) : List (LogChunk O T) :=
  chunks.filter fun c => !c.records.isEmpty

def ticketsOf (chunks : List (LogChunk O T)) : List Nat := chunks.map LogChunk.commitSeq

theorem tickets_eq (ops : List (Op O T)) : tickets ops = ticketsOf (pushedChunks ops) := by
  rw [tickets, ticketsOf, pushedChunks, List.map_filterMap]
  refine List.filterMap_congr fun op _ => ?_
  cases op <;> rfl

theorem mem_pushedChunks {ops : List (Op O T)} (h : c ∈ pushedChunks ops) :
    ∃ clock, .push clock c.origin c.records c.commitSeq ∈ ops := by
  obtain ⟨op, hop, he⟩ := List.mem_filterMap.mp h
  cases op with
  | push clock origin records commitSeq =>
    obtain rfl := Option.some.inj he
    exact ⟨clock, hop⟩
  | flushExpired now | flushAll => cases he

section Flow

variable [BEq O]

structure Flow (config : InsertBatcherConfig) (received : List (LogChunk O T))
    (ops : List (Op O T)) (buffers : OriginBuffers O T) (emitted : List (LogWriteBatch O T)) :
    Prop where
  run : exec config ops = some (buffers, emitted)
  pushes : pushedChunks ops = filled received

variable {config : InsertBatcherConfig} {received : List (LogChunk O T)} {ops : List (Op O T)}
  {buffers : OriginBuffers O T} {emitted : List (LogWriteBatch O T)} {buffers' : OriginBuffers O T}
  {out : List (LogWriteBatch O T)} {chunk : LogChunk O T}

theorem flow_nil : Flow config ([] : List (LogChunk O T)) [] [] [] := ⟨rfl, rfl⟩

section

variable (h : Flow config received ops buffers emitted)
include h

theorem Flow.apply {op : Op O T} {received' : List (LogChunk O T)}
    (hop : op.apply config buffers = some (buffers', out))
    (hr : pushedChunks [op] = filled received') :
    Flow config (received ++ received') (ops ++ [op]) buffers' (emitted ++ out) where
  run := by rw [exec_concat, h.run, Option.bind_some, hop, Option.bind_some]
  pushes := by
    rw [pushedChunks, List.filterMap_append, filled, List.filter_append]
    exact congrArg₂ _ h.pushes hr

theorem Flow.push {clock : Nat → Nat} (hne : chunk.records ≠ [])
    (hop : buffers.push config clock chunk.origin chunk.records chunk.commitSeq =
      some (buffers', out)) :
    Flow config (received ++ [chunk])
      (ops ++ [.push clock chunk.origin chunk.records chunk.commitSeq]) buffers' (emitted ++ out) :=
  h.apply hop (by simp [pushedChunks, filled, hne])

/-- A flush adds no chunk. -/
theorem Flow.flush (op : Op O T) (hr : pushedChunks [op] = [])
    (hop : op.apply config buffers = some (buffers', out)) :
    Flow config received (ops ++ [op]) buffers' (emitted ++ out) := by
  have hf : Flow config (received ++ []) (ops ++ [op]) buffers' (emitted ++ out) := h.apply hop hr
  rwa [List.append_nil] at hf

/-- An empty chunk changes nothing. -/
theorem Flow.skip (hne : chunk.records = []) :
    Flow config (received ++ [chunk]) ops buffers emitted :=
  ⟨h.run, by rw [h.pushes]; simp [filled, hne]⟩

theorem Flow.active : buffers.Active config :=
  (exec_labelled h.run).1

theorem Flow.labelled :
    AllLabelled config emitted := (exec_labelled h.run).2

section

variable (hd : (ticketsOf received).Nodup)
include hd

theorem Flow.ticketRows (t : Nat) : TicketRows ops buffers emitted t := by
  have hops : (tickets ops).Nodup := by
    rw [tickets_eq, h.pushes]
    exact hd.sublist (List.filter_sublist.map _)
  obtain ⟨buffers', emitted', he, -, hrows⟩ := exec_ticketRows config ops hops
  rw [h.run, Option.some.injEq, Prod.mk.injEq] at he
  rw [he.1, he.2]
  exact hrows t

/-- The rows of a received chunk appear in the emitted batches in order. -/
theorem Flow.follows (hc : c ∈ received) (hne : c.records ≠ []) :
    Follows c.commitSeq c.records emitted (bufferRows (byTicket c.commitSeq) buffers) := by
  have hops : (tickets ops).Nodup := by
    rw [tickets_eq, h.pushes]
    exact hd.sublist (List.filter_sublist.map _)
  have hmem : c ∈ pushedChunks ops := by
    rw [h.pushes]
    exact List.mem_filter.mpr ⟨hc, by simp [hne]⟩
  obtain ⟨clock, hop⟩ := mem_pushedChunks hmem
  rw [Follows, (h.ticketRows hd c.commitSeq).stream, rows_byTicket_pushed hops hop]

/-- An empty chunk has no rows to appear. -/
theorem Flow.follows_received (hc : c ∈ received) :
    Follows c.commitSeq c.records emitted (bufferRows (byTicket c.commitSeq) buffers) := by
  by_cases hne : c.records = []
  · have hfresh : c.commitSeq ∉ tickets ops := by
      rw [tickets_eq, h.pushes]
      intro hm
      obtain ⟨c', hc', he⟩ := List.mem_map.mp hm
      obtain ⟨hr, hfilled⟩ := List.mem_filter.mp hc'
      obtain rfl : c' = c := List.inj_on_of_nodup_map hd hr hc he
      simp [hne] at hfilled
    rw [Follows, (h.ticketRows hd c.commitSeq).stream, rows_byTicket_fresh hfresh, hne]
    rfl
  · exact h.follows hd hc hne

/-- A ticket that no received chunk carries has no rows. -/
theorem Flow.follows_none {t : Nat} (ht : t ∉ ticketsOf (filled received)) :
    Follows t [] emitted [] := by
  have hfresh : t ∉ tickets ops := by rwa [tickets_eq, h.pushes]
  have hs := (h.ticketRows hd t).stream
  rw [rows_byTicket_fresh hfresh, List.append_eq_nil_iff] at hs
  rw [Follows, hs.1]
  rfl

/-- Either way, the rows of a ticket are the beginning of some chunk's rows. -/
theorem Flow.follows_some {n : Nat} (hb : ∀ c ∈ received, c.records.length ≤ n) (t : Nat) :
    ∃ records tail, Follows t records emitted tail ∧ records.length ≤ n := by
  by_cases ht : t ∈ ticketsOf (filled received)
  · obtain ⟨c, hc, rfl⟩ := List.mem_map.mp ht
    obtain ⟨hm, hne⟩ := List.mem_filter.mp hc
    exact ⟨c.records, _, h.follows hd hm (by simpa using hne), hb c hm⟩
  · exact ⟨[], [], h.follows_none hd ht, Nat.zero_le n⟩

/-- A row is a row of the received chunk its label names. -/
theorem Flow.row_mem {b : LogWriteBatch O T} (hb : b ∈ emitted) {r : Row T} (hr : r ∈ rowsOf b) :
    ∃ c ∈ received, c.records ≠ [] ∧ c.commitSeq = r.1.ticket ∧ r.2 ∈ c.records := by
  have hm : r ∈ emittedRows (byTicket r.1.ticket) emitted :=
    List.mem_flatMap.mpr ⟨b, hb, List.mem_filter.mpr ⟨hr, by simp [byTicket]⟩⟩
  by_cases ht : r.1.ticket ∈ ticketsOf (filled received)
  · obtain ⟨c, hc, hct⟩ := List.mem_map.mp ht
    obtain ⟨hcr, hne⟩ := List.mem_filter.mp hc
    have hne' : c.records ≠ [] := by simpa using hne
    have hf := h.follows hd hcr hne'
    rw [hct, Follows] at hf
    have hchunk : r ∈ chunkRows r.1.ticket c.records := hf ▸ List.mem_append_left _ hm
    refine ⟨c, hcr, hne', hct, ?_⟩
    exact (List.of_mem_zip (a := r.1) (b := r.2) hchunk).2
  · have hf := h.follows_none hd ht
    have hnil : emittedRows (byTicket r.1.ticket) emitted = [] := by simpa [Follows, chunkRows] using hf
    rw [hnil] at hm
    cases hm

end

end

end Flow

/-- After the calls still due, the ticket's state is what the executed batches say. -/
def Balanced (ledger : CommitLedger) (due : List Call) (done : List (Done O T)) (t : Nat) : Prop :=
  due.foldl (TicketState.after t) (ledger.state t) = expectedState t done

section Balanced

variable {ledger : CommitLedger} {due : List Call} {done : List (Done O T)} {t : Nat}

theorem Balanced.call {c : Call} (h : Balanced ledger (c :: due) done t)
    (hw : ledger.inner.WellFormed) : Balanced (ledger.locked c).1 due done t := by
  rw [Balanced, state_locked hw]
  exact h

theorem Balanced.run (h : Balanced ledger due done t) (hw : ledger.inner.WellFormed) :
    Balanced (ledger.run due) [] done t := by
  rw [Balanced, state_run hw]
  exact h

/-- The call does not concern the ticket. -/
def Ignores (t : Nat) (c : Call) : Prop := ∀ s : TicketState, s.after t c = s

theorem Balanced.ignore {c : Call} (h : Balanced ledger due done t)
    (hw : ledger.inner.WellFormed) (hi : Ignores t c) :
    Balanced (ledger.locked c).1 due done t := by
  rw [Balanced, state_locked hw, hi]
  exact h

theorem ignores_issue (t : Nat) : Ignores t .issue := by
  intro s
  cases s <;> rfl

theorem ignores_close (t : Nat) : Ignores t .close := by
  intro s
  cases s <;> rfl

theorem ignores_void {u : Nat} (h : u ≠ t) (now : Nat) : Ignores t (.void u now) := by
  intro s
  cases s with
  | unsettled p => simp [TicketState.after, h]
  | completed | failed p => rfl

/-- Persisting a batch makes its settlement due. -/
theorem Balanced.persist {config : InsertBatcherConfig} {x : Done O T} {p : Persisted T}
    {records : List T} {tail : List (Row T)} (h : Balanced ledger [] done t)
    (hl : AllLabelled config (batchesOf (done ++ [x])))
    (hf : Follows t records (batchesOf (done ++ [x])) tail) (hb : records.length ≤ u64Max)
    (hp : PersistedAs x.batch p x.judged) (h0 : t ≠ 0) (now : Nat) :
    Balanced ledger (settleLogBatch x.batch p.salvage now) (done ++ [x]) t := by
  have hm : x.batch ∈ batchesOf (done ++ [x]) := by simp [batchesOf]
  obtain ⟨origin, hlab⟩ := hl x.batch hm
  rw [Balanced, foldl_settleLogBatch hlab hp h0 (hf.terminal hl hm) now,
    expectedState_concat hf hl hb]
  exact congrArg _ h

end Balanced

end OtelSqlite.Storage
