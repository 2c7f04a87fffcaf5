import OtelSqlite.Lib.Run
import OtelSqlite.Storage.Books
import OtelSqlite.Storage.Line

/-!
# Per-ticket accounting is exact

`LineInv` holds in every state a run of the line reaches. It keeps the flow of
records and the balance of the ledger for every ticket that carries records, and
the ledger's answer about such a ticket is then a count of its rows.
-/

namespace OtelSqlite.Storage

open OtelSqlite.Core OtelSqlite.Core.Commit OtelSqlite.Core.Batcher

variable {O R T : Type} {now : Nat} {effect : Effect T} {weather : Weather T}

theorem execute_insert {config : InsertBatcherConfig} {origin : O} {batch : LogWriteBatch O T}
    (hl : Labelled config origin batch) (he : execute weather now (.insertLogs batch) = .ok effect)
    :
    ∃ p judged, PersistedAs batch p judged ∧ effect = ⟨p.inserted, p.quarantined,
      settleLogBatch batch p.salvage now⟩ := by
  simp only [execute, if_neg hl.nonempty] at he
  split at he
  · cases he
  · rename_i p hp
    obtain rfl := Except.ok.inj he
    obtain ⟨a, ha⟩ := persistLoop_spec hl.length_eq hp
    exact ⟨p, _, ha, rfl⟩

theorem execute_other {command : WriteCommand O T} (hc : ∀ batch, command ≠ .insertLogs batch)
    (he : execute weather now command = .ok effect) : effect = ⟨[], [], []⟩ := by
  cases command with
  | insertLogs batch => exact absurd rfl (hc batch)
  | flush => exact (Except.ok.inj he).symm
  | checkpoint | maintenance =>
    simp only [execute] at he
    split at he
    · cases he
    · exact (Except.ok.inj he).symm

/-- The tickets whose state the executed batches decide: those not yet issued and
those of a sent chunk with records. The others are void. -/
def Line.Tracked (s : Line O R) (t : Nat) : Prop :=
  s.ledger.nextTicket < t ∨ ∃ c ∈ s.sent, c.records ≠ [] ∧ c.commitSeq = t

/-- The invariant, with the history it speaks about. -/
structure LineInv [BEq O] (config : InsertBatcherConfig) (s : Line O R)
    (received : List (LogChunk O (Tagged R))) (ops : List (Op O (Tagged R)))
    (emitted : List (LogWriteBatch O (Tagged R))) (done : List (Done O (Tagged R)))
    (rest : List (LogWriteBatch O (Tagged R))) : Prop where
  flow : Flow config received ops s.buffers emitted
  sent_eq : s.sent = received ++ chunksOf s.inbox
  emitted_eq : emitted = batchesOf done ++ rest
  rest_eq : s.writerAlive = true → rest = insertsOf s.queue
  table_eq : s.table = (keptRows (judgedAll done)).map Prod.snd
  quarantined_eq : s.quarantined = (droppedRows (judgedAll done)).map Prod.snd
  wellFormed : s.ledger.inner.WellFormed
  increasing : (ticketsOf s.sent).Pairwise (· < ·)
  issued : ∀ c ∈ s.sent, 0 < c.commitSeq ∧ c.commitSeq ≤ s.ledger.nextTicket
  stamped : ∀ c ∈ s.sent, c.records.length ≤ u64Max ∧ ∀ r ∈ c.records, r.ticket = c.commitSeq
  balanced : ∀ t, s.Tracked t → Balanced s.ledger [] done t

def Line.Good [BEq O] (config : InsertBatcherConfig) (s : Line O R) : Prop :=
  ∃ received ops emitted done rest, LineInv config s received ops emitted done rest

theorem good_new [BEq O] (config : InsertBatcherConfig) (start : Nat) :
    (Line.new start : Line O R).Good config := by
  refine ⟨[], [], [], [], [], flow_nil, rfl, rfl, fun _ => rfl, rfl, rfl, wellFormed_new start,
    List.Pairwise.nil, fun c hc => absurd hc List.not_mem_nil,
    fun c hc => absurd hc List.not_mem_nil, fun t ht => ?_⟩
  have h0 : t ≠ 0 := by
    rcases ht with ht | ⟨c, hc, -⟩
    · exact Nat.ne_of_gt ht
    · cases hc
  have hs : ¬ (CommitLedger.new start).inner.IsSettled t := by
    simp [CommitLedger.new, Inner.IsSettled, h0]
  exact CommitLedger.state_fresh (wellFormed_new start) h0 hs

section Step

variable [BEq O] {config : InsertBatcherConfig} {s s' : Line O R}
  {received : List (LogChunk O (Tagged R))} {ops : List (Op O (Tagged R))}
  {emitted : List (LogWriteBatch O (Tagged R))} {done : List (Done O (Tagged R))}
  {rest : List (LogWriteBatch O (Tagged R))} {batch : LogWriteBatch O (Tagged R)}
  {queue : List (WriteCommand O (Tagged R))} {buffers : OriginBuffers O (Tagged R)}
  {out : List (LogWriteBatch O (Tagged R))} {poison : Tagged R → Bool}

section

variable (h : LineInv config s received ops emitted done rest)
include h

theorem LineInv.received_sent :
    ∀ c ∈ received, c ∈ s.sent := fun _ hc => h.sent_eq ▸ List.mem_append_left _ hc

theorem LineInv.nodup : (ticketsOf received).Nodup := by
  have hsub : (ticketsOf received).Sublist (ticketsOf s.sent) := by
    rw [h.sent_eq, ticketsOf, ticketsOf, List.map_append]
    exact List.sublist_append_left _ _
  exact (h.increasing.imp fun hlt => Nat.ne_of_lt hlt).sublist hsub

theorem LineInv.tracked_pos {t : Nat} (ht : s.Tracked t) : t ≠ 0 := by
  rcases ht with hlt | ⟨c, hc, -, rfl⟩
  · exact Nat.ne_of_gt (Nat.zero_lt_of_lt hlt)
  · exact Nat.ne_of_gt (h.issued c hc).1

/-- Two sent chunks with the same ticket are one. -/
theorem LineInv.sent_inj {c c' : LogChunk O (Tagged R)} (hc : c ∈ s.sent) (hc' : c' ∈ s.sent)
    (he : c.commitSeq = c'.commitSeq) : c = c' := by
  have hinj := List.inj_on_of_nodup_map (h.increasing.imp fun hlt => Nat.ne_of_lt hlt)
  exact hinj hc hc' he

/-- The batch at the head of the queue is one the batcher made. -/
theorem LineInv.head_mem (ha : s.writerAlive = true) (hq : s.queue = .insertLogs batch :: queue) :
    batch ∈ emitted := by
  rw [h.emitted_eq, h.rest_eq ha, hq]
  exact List.mem_append_right _ List.mem_cons_self

theorem sent_step (origin : O) (payloads : List R) (hb : payloads.length ≤ u64Max) :
    LineInv config
      { s with
        ledger := s.ledger.issue.1
        sent := s.sent ++ [⟨origin, tag s.ledger.issue.2 payloads, s.ledger.issue.2⟩]
        inbox := s.inbox ++ [.logs ⟨origin, tag s.ledger.issue.2 payloads, s.ledger.issue.2⟩] }
      received ops emitted done rest :=
  { h with
    sent_eq := by
      simp only [h.sent_eq, chunksOf, List.filterMap_append, List.append_assoc]
      rfl
    increasing := by
      rw [ticketsOf, List.map_append, List.pairwise_append]
      refine ⟨h.increasing, List.pairwise_singleton _ _, fun x hx y hy => ?_⟩
      obtain ⟨c, hc, rfl⟩ := List.mem_map.mp hx
      rw [List.mem_singleton.mp hy]
      exact Nat.lt_succ_of_le (h.issued c hc).2
    issued := by
      intro c hc
      rcases List.mem_append.mp hc with hc | hc
      · exact ⟨(h.issued c hc).1, (h.issued c hc).2.trans (Nat.le_succ _)⟩
      · rw [List.mem_singleton.mp hc]
        exact ⟨Nat.succ_pos _, le_rfl⟩
    stamped := by
      intro c hc
      rcases List.mem_append.mp hc with hc | hc
      · exact h.stamped c hc
      · rw [List.mem_singleton.mp hc]
        refine ⟨by simpa [tag] using hb, fun r hr => ?_⟩
        obtain ⟨i, hi, rfl⟩ := List.mem_mapIdx.mp hr
        rfl
    balanced := by
      intro t ht
      refine Balanced.ignore (c := .issue) (h.balanced t ?_) h.wellFormed (ignores_issue t)
      rcases ht with hlt | ⟨c, hc, hne, rfl⟩
      · exact Or.inl (Nat.lt_of_succ_lt hlt)
      · rcases List.mem_append.mp hc with hc | hc
        · exact Or.inr ⟨c, hc, hne, rfl⟩
        · rw [List.mem_singleton.mp hc]
          exact Or.inl (Nat.lt_succ_self _) }

/-- A call that concerns no tracked ticket. -/
theorem call_step {c : Call} (hn : s.ledger.nextTicket ≤ (s.ledger.locked c).1.nextTicket)
    (hi : ∀ t, (s.call c).Tracked t → Ignores t c) :
    LineInv config (s.call c) received ops emitted done rest :=
  { h with
    wellFormed := wellFormed_locked h.wellFormed c
    issued := fun x hx => ⟨(h.issued x hx).1, (h.issued x hx).2.trans hn⟩
    balanced := by
      intro t ht
      refine (h.balanced t ?_).ignore h.wellFormed (hi t ht)
      exact ht.imp_left fun hlt => lt_of_le_of_lt hn hlt }

/-- The batcher's side of a step: new batches go to the end of the queue. -/
theorem emit_step {received' : List (LogChunk O (Tagged R))} {ops' : List (Op O (Tagged R))}
    (inbox : List (IngestMessage O (Tagged R))) (control : List (WriteCommand O (Tagged R)))
    (hflow : Flow config received' ops' buffers (emitted ++ out))
    (hsent : received' ++ chunksOf inbox = received ++ chunksOf s.inbox)
    (hcontrol : insertsOf control = []) :
    LineInv config
      { s with inbox, buffers, queue := s.queue ++ out.map .insertLogs ++ control }
      received' ops' (emitted ++ out) done (rest ++ out) :=
  { h with
    flow := hflow
    sent_eq := h.sent_eq.trans hsent.symm
    emitted_eq := by rw [h.emitted_eq, List.append_assoc]
    rest_eq := by
      intro ha
      have hout : insertsOf (out.map WriteCommand.insertLogs) = out := by
        rw [insertsOf, List.filterMap_map]
        exact List.filterMap_some
      rw [insertsOf] at hout hcontrol
      rw [h.rest_eq ha, insertsOf, insertsOf, List.filterMap_append, List.filterMap_append, hout,
        hcontrol, List.append_nil] }

theorem receive_step {clock : Nat → Nat} (hs : s.receive config clock now = some s') :
    s'.Good config := by
  unfold Line.receive at hs
  split at hs
  · cases hs
  · rename_i chunk inbox hin
    have hsent : s.sent = received ++ (chunk :: chunksOf inbox) := by
      rw [h.sent_eq, hin]
      rfl
    split_ifs at hs with hne
    · obtain rfl := Option.some.inj hs
      have hskip : LineInv config { s with inbox := inbox } (received ++ [chunk]) ops emitted done
          rest :=
        { h with
          flow := h.flow.skip hne
          sent_eq := by rw [hsent]; simp }
      refine ⟨_, _, _, _, _, call_step hskip le_rfl fun t ht => ?_⟩
      have hm : chunk ∈ s.sent := by rw [hsent]; simp
      refine ignores_void ?_ now
      rintro rfl
      rcases ht with hlt | ⟨c, hc, hcne, he⟩
      · exact absurd (h.issued chunk hm).2 (Nat.not_le_of_lt hlt)
      · exact hcne (h.sent_inj hc hm he ▸ hne)
    · obtain ⟨⟨buffers, out⟩, hp, hs⟩ := Option.bind_eq_some_iff.mp hs
      obtain rfl := Option.some.inj hs
      have hstep := emit_step h inbox [] (h.flow.push hne hp)
        (by rw [hin]; simp [chunksOf]) rfl
      simp only [List.append_nil] at hstep
      exact ⟨_, _, _, _, _, hstep⟩
  · rename_i inbox hin
    obtain ⟨⟨buffers, out⟩, hp, hs⟩ := Option.bind_eq_some_iff.mp hs
    obtain rfl := Option.some.inj hs
    have hflow := h.flow.flush .flushAll rfl hp
    exact ⟨_, _, _, _, _, emit_step h inbox [.flush] hflow (by rw [hin]; rfl) rfl⟩

theorem timer_step (hp : s.buffers.flushExpired now = some (buffers, out)) :
    Line.Good config { s with buffers, queue := s.queue ++ out.map .insertLogs } := by
  have hstep := emit_step h s.inbox [] (h.flow.flush (.flushExpired now) rfl hp) rfl rfl
  simp only [List.append_nil] at hstep
  exact ⟨_, _, _, _, _, hstep⟩

/-- The writer persists the first queued batch and settles it. -/
theorem insert_step (ha : s.writerAlive = true) (hq : s.queue = .insertLogs batch :: queue)
    {p : Persisted (Tagged R)} {judged : List (Judged (Tagged R))} (hp : PersistedAs batch p judged)
    (now : Nat) :
    LineInv config
      { s with
        queue
        table := s.table ++ p.inserted
        quarantined := s.quarantined ++ p.quarantined
        ledger := s.ledger.run (settleLogBatch batch p.salvage now) }
      received ops emitted (done ++ [⟨batch, judged, hp.rows⟩]) (insertsOf queue) := by
  have hem : emitted = batchesOf (done ++ [⟨batch, judged, hp.rows⟩]) ++ insertsOf queue := by
    rw [h.emitted_eq, h.rest_eq ha, hq, batchesOf, batchesOf, List.map_append, List.append_assoc]
    rfl
  have hnext := nextTicket_run s.ledger (notMem_settleLogBatch batch p.salvage now).1
  refine ⟨h.flow, h.sent_eq, hem, fun _ => rfl, ?_, ?_, wellFormed_run h.wellFormed _,
    h.increasing, fun c hc => ?_, h.stamped, fun t ht => ?_⟩
  · rw [keptRows_concat, List.map_append, ← h.table_eq, hp.inserted]
  · rw [droppedRows_concat, List.map_append, ← h.quarantined_eq, hp.quarantined]
  · rw [hnext]
    exact h.issued c hc
  · have htr : s.Tracked t := by
      rcases ht with hlt | hsent
      · exact Or.inl (hnext ▸ hlt)
      · exact Or.inr hsent
    obtain ⟨records, tail, hf, hb⟩ := h.flow.follows_some h.nodup
      (fun c hc => (h.stamped c (h.received_sent c hc)).1) t
    have hl := h.flow.labelled
    rw [hem] at hf hl
    have hl' : AllLabelled config (batchesOf (done ++ [⟨batch, judged, hp.rows⟩])) :=
      fun b hb => hl b (List.mem_append_left _ hb)
    exact ((h.balanced t htr).persist hl' hf.split hb hp (h.tracked_pos htr) now).run h.wellFormed

theorem executeNext_step {verdict : Verdict} (hs : s.executeNext poison verdict now = some s') :
    s'.Good config := by
  unfold Line.executeNext at hs
  split at hs
  · rename_i command queue ha hq
    split at hs
    · obtain rfl := Option.some.inj hs
      have hstop : LineInv config { s with queue := queue, writerAlive := false } received ops
          emitted done rest := { h with rest_eq := fun hf => absurd hf (by simp) }
      exact ⟨_, _, _, _, _, call_step hstop le_rfl fun t _ => ignores_close t⟩
    · rename_i effect he
      obtain rfl := Option.some.inj hs
      by_cases hc : ∃ batch, command = .insertLogs batch
      · obtain ⟨batch, rfl⟩ := hc
        obtain ⟨origin, hl⟩ := h.flow.labelled batch (h.head_mem ha hq)
        obtain ⟨p, judged, hp, rfl⟩ := execute_insert hl he
        exact ⟨_, _, _, _, _, insert_step h ha hq hp now⟩
      · obtain rfl := execute_other (fun batch hb => hc ⟨batch, hb⟩) he
        have hrest : rest = insertsOf queue := by
          rw [h.rest_eq ha, hq]
          cases command with
          | insertLogs batch => exact absurd ⟨batch, rfl⟩ hc
          | flush | checkpoint | maintenance => rfl
        simp only [List.append_nil]
        exact ⟨_, _, _, _, _, { h with rest_eq := fun _ => hrest }⟩
  · cases hs

end

/-- **Every event keeps the invariant.** -/
theorem good_step (hg : s.Good config) {e : LineEvent O R} (hs : s.step config poison e = some s') :
    s'.Good config := by
  obtain ⟨received, ops, emitted, done, rest, h⟩ := hg
  cases e with
  | send origin payloads =>
    simp only [Line.step] at hs
    split_ifs at hs with hb
    obtain rfl := Option.some.inj hs
    exact ⟨_, _, _, _, _, sent_step h origin payloads hb⟩
  | reject now =>
    obtain rfl := Option.some.inj hs
    have hissue := call_step (c := .issue) h (Nat.le_succ _) fun t _ => ignores_issue t
    refine ⟨_, _, _, _, _, call_step hissue le_rfl fun t ht => ignores_void ?_ now⟩
    rintro rfl
    rcases ht with hlt | ⟨c, hc, -, he⟩
    · exact absurd hlt (lt_irrefl _)
    · have := (h.issued c hc).2
      rw [he] at this
      exact absurd this (Nat.not_succ_le_self _)
  | barrier =>
    obtain rfl := Option.some.inj hs
    exact ⟨_, _, _, _, _, { h with sent_eq := by simpa [chunksOf] using h.sent_eq }⟩
  | receive clock now => exact receive_step h hs
  | timer now =>
    obtain ⟨⟨buffers, out⟩, hp, hs⟩ := Option.bind_eq_some_iff.mp hs
    obtain rfl := Option.some.inj hs
    exact timer_step h hp
  | upkeep =>
    obtain rfl := Option.some.inj hs
    exact ⟨_, _, _, _, _,
      { h with rest_eq := fun ha => by rw [h.rest_eq ha]; simp [insertsOf] }⟩
  | execute verdict now => exact executeNext_step h hs

theorem good_run (hg : s.Good config) {events : List (LineEvent O R)}
    (hs : s.run config poison events = some s') : s'.Good config :=
  Lib.Run.invariant (P := fun s => s.Good config) (fun hg hs => good_step hg hs) hg hs

end Step

end OtelSqlite.Storage
