import OtelSqlite.Storage.LineAccounting

/-!
# The ledger's answers count records, ticket by ticket

The state of a ticket is read off the table and the quarantine: `Exact`. What the
writer does with a served command depends on its records one by one.
-/

namespace OtelSqlite.Storage

open OtelSqlite.Core OtelSqlite.Core.Commit OtelSqlite.Core.Batcher

variable {O R T : Type}

/-- What the ledger says of a sent chunk, against what happened to its records. -/
structure Exact (s : Line O R) (chunk : LogChunk O (Tagged R)) : Prop where
  completed_iff : s.ledger.state chunk.commitSeq = .completed ↔
    s.committedOf chunk.commitSeq = chunk.records
  failed_iff : ∀ p : TicketProgress, s.ledger.state chunk.commitSeq = .failed p ↔
    p.committed + p.dropped = chunk.records.length ∧ 1 ≤ p.dropped ∧
      (s.committedOf chunk.commitSeq).length = p.committed ∧
      (s.quarantinedOf chunk.commitSeq).length = p.dropped
  unsettled_iff : ∀ p : TicketProgress, s.ledger.state chunk.commitSeq = .unsettled p ↔
    p.committed + p.dropped < chunk.records.length ∧
      (s.committedOf chunk.commitSeq).length = p.committed ∧
      (s.quarantinedOf chunk.commitSeq).length = p.dropped
  committed_sublist : (s.committedOf chunk.commitSeq).Sublist chunk.records
  quarantined_sublist : (s.quarantinedOf chunk.commitSeq).Sublist chunk.records

section Exactness

variable [BEq O] {config : InsertBatcherConfig} {s : Line O R}
  {received : List (LogChunk O (Tagged R))} {ops : List (Op O (Tagged R))}
  {emitted : List (LogWriteBatch O (Tagged R))} {done : List (Done O (Tagged R))}
  {rest : List (LogWriteBatch O (Tagged R))}

variable (h : LineInv config s received ops emitted done rest)
include h

theorem LineInv.row_ticket {b : LogWriteBatch O (Tagged R)} (hb : b ∈ emitted) {r : Row (Tagged R)}
    (hr : r ∈ rowsOf b) : r.2.ticket = r.1.ticket := by
  obtain ⟨c, hc, -, hct, hrc⟩ := h.flow.row_mem h.nodup hb hr
  rw [← hct]
  exact (h.stamped c (h.received_sent c hc)).2 r.2 hrc

theorem LineInv.judged_ticket {r : Row (Tagged R)} (hr : r ∈ (judgedAll done).map Prod.fst) :
    r.2.ticket = r.1.ticket := by
  rw [judgedAll, List.map_flatMap] at hr
  obtain ⟨x, hx, hrx⟩ := List.mem_flatMap.mp hr
  rw [x.rows_eq] at hrx
  refine h.row_ticket ?_ hrx
  rw [h.emitted_eq]
  exact List.mem_append_left _ (List.mem_map_of_mem hx)

/-- Records selected by their own ticket are the rows selected by their label. -/
theorem LineInv.filter_ticket {rows : List (Row (Tagged R))}
    (hs : rows.Sublist ((judgedAll done).map Prod.fst)) (t : Nat) :
    (rows.map Prod.snd).filter (fun r => r.ticket == t) =
      (rows.filter fun r => r.1.ticket == t).map Prod.snd := by
  rw [List.filter_map]
  congr 1
  refine List.filter_congr fun r hr => ?_
  rw [Function.comp_apply, h.judged_ticket (hs.subset hr)]

theorem LineInv.follows_sent {c : LogChunk O (Tagged R)} (hc : c ∈ s.sent) (hne : c.records ≠ []) :
    ∃ tail, Follows c.commitSeq c.records (batchesOf done) tail := by
  by_cases hr : c ∈ received
  · have hf := h.flow.follows h.nodup hr hne
    rw [h.emitted_eq] at hf
    exact ⟨_, hf.split⟩
  · have ht : c.commitSeq ∉ ticketsOf (filled received) := by
      intro hm
      obtain ⟨c', hc', he⟩ := List.mem_map.mp hm
      have hc'' := List.mem_of_mem_filter hc'
      exact hr (h.sent_inj (h.received_sent c' hc'') hc he ▸ hc'')
    have hf := h.flow.follows_none h.nodup ht
    rw [h.emitted_eq] at hf
    have hnil : emittedRows (byTicket c.commitSeq) (batchesOf done) = [] := by
      have := hf.split
      simp only [Follows, chunkRows, List.zip_nil_right, List.append_eq_nil_iff] at this
      exact this.1
    exact ⟨chunkRows c.commitSeq c.records, by rw [Follows, hnil, List.nil_append]⟩

theorem LineInv.exact {c : LogChunk O (Tagged R)} (hc : c ∈ s.sent) (hne : c.records ≠ []) :
    Exact s c := by
  obtain ⟨tail, hf⟩ := h.follows_sent hc hne
  have hl : AllLabelled config (batchesOf done) := fun b hb =>
    h.flow.labelled b (h.emitted_eq ▸ List.mem_append_left _ hb)
  have hbal : s.ledger.state c.commitSeq = expectedState c.commitSeq done :=
    h.balanced c.commitSeq (Or.inr ⟨c, hc, hne, rfl⟩)
  have hkept : s.committedOf c.commitSeq =
      ((keptRows (judgedAll done)).filter fun r => r.1.ticket == c.commitSeq).map Prod.snd := by
    rw [Line.committedOf, h.table_eq, h.filter_ticket (keptRows_sublist _)]
  have hdropped : s.quarantinedOf c.commitSeq =
      ((droppedRows (judgedAll done)).filter fun r => r.1.ticket == c.commitSeq).map Prod.snd := by
    rw [Line.quarantinedOf, h.quarantined_eq, h.filter_ticket (droppedRows_sublist _)]
  have hk : (s.committedOf c.commitSeq).length = (tally c.commitSeq (judgedAll done)).1 := by
    rw [hkept, List.length_map, ← List.countP_eq_length_filter, tally]
  have hd : (s.quarantinedOf c.commitSeq).length = (tally c.commitSeq (judgedAll done)).2 := by
    rw [hdropped, List.length_map, ← List.countP_eq_length_filter, tally]
  have hsub : (s.committedOf c.commitSeq).Sublist c.records :=
    hkept ▸ hf.sublist (keptRows_sublist _)
  have hall : s.committedOf c.commitSeq = c.records ↔
      (tally c.commitSeq (judgedAll done)).1 = c.records.length :=
    ⟨fun he => hk ▸ congrArg List.length he, fun he => hsub.eq_of_length (hk.trans he)⟩
  have hcases := expectedState_cases hf hl hne
  simp only [← hbal, ← hk, ← hd] at hall hcases
  refine ⟨?_, ?_, ?_, hsub, hdropped ▸ hf.sublist (droppedRows_sublist _)⟩
  · rcases hcases with ⟨hn, he⟩ | ⟨hn, he⟩
    · split_ifs at he <;> simp only [he, hall, reduceCtorEq, false_iff, true_iff] <;> omega
    · simp only [he, hall, reduceCtorEq, false_iff]
      omega
  · rintro ⟨committed, dropped⟩
    rcases hcases with ⟨hn, he⟩ | ⟨hn, he⟩
    · split_ifs at he <;> simp only [he, TicketState.failed.injEq, TicketProgress.mk.injEq,
        reduceCtorEq, false_iff] <;> omega
    · simp only [he, reduceCtorEq, false_iff]
      omega
  · rintro ⟨committed, dropped⟩
    rcases hcases with ⟨hn, he⟩ | ⟨hn, he⟩
    · split_ifs at he <;> simp only [he, reduceCtorEq, false_iff] <;> omega
    · simp only [he, TicketState.unsettled.injEq, TicketProgress.mk.injEq]
      omega

end Exactness

section Served

variable {config : InsertBatcherConfig} {origin : O} {batch : LogWriteBatch O T}

theorem insertLoop_served (poison : T → Bool) (tolerant : Bool) (i : Nat) (xs : List (T × Nat))
    (pass : Pass T) :
    (∃ pass', insertLoop (served poison) tolerant i xs pass = .ok pass') ∨
      tolerant = false ∧ insertLoop (served poison) tolerant i xs pass = .error .poison := by
  induction xs generalizing i pass with
  | nil => exact Or.inl ⟨pass, rfl⟩
  | cons x xs ih =>
    cases hp : poison x.1 with
    | true =>
      cases tolerant with
      | true =>
        simp only [insertLoop, served, hp, if_true, and_self]
        exact ih _ _
      | false =>
        refine Or.inr ⟨rfl, ?_⟩
        simp only [insertLoop, served, hp, if_true, Bool.false_eq_true, false_and, if_false]
    | false =>
      simp only [insertLoop, served, hp, Bool.false_eq_true, if_false]
      exact ih _ _

theorem transaction_served (poison : T → Bool) (batch : LogWriteBatch O T) (tolerant : Bool) :
    (∃ pass, transaction (served poison) batch tolerant = .ok pass) ∨
      tolerant = false ∧ transaction (served poison) batch tolerant = .error .poison := by
  have hinner : insertLogsInner (served poison) batch tolerant =
      insertLoop (served poison) tolerant 0
        (batch.records.zip (expand batch.segments ++ List.replicate batch.records.length 0))
        Pass.start := rfl
  unfold transaction
  rw [hinner]
  dsimp only [served]
  rcases insertLoop_served poison tolerant 0 (batch.records.zip
    (expand batch.segments ++ List.replicate batch.records.length 0)) Pass.start with
    ⟨pass, hok⟩ | ⟨htolerant, herr⟩
  · exact Or.inl ⟨pass, by rw [served] at hok; rw [hok]⟩
  · exact Or.inr ⟨htolerant, by rw [served] at herr; rw [herr]⟩

/-- A round that is served persists the batch, with the poisoned records as its drops. -/
theorem persistRound_served (hl : Labelled config origin batch) (poison : T → Bool)
    {weather : Weather T} (hw : weather.salvage = served poison)
    (retry : Except FailureClass (Persisted T)) :
    ∃ p, persistRound weather batch (served poison) retry = .ok p ∧
      PersistedAs batch p (judge (served poison) 0 (rowsOf batch)) := by
  unfold persistRound
  rcases transaction_served poison batch false with ⟨pass, hok⟩ | ⟨-, herr⟩
  · rw [hok]
    exact ⟨_, rfl, (transaction_tracks hl.length_eq hok).persistedAs⟩
  · obtain ⟨pass, hok⟩ := (transaction_served poison batch true).resolve_right (by simp)
    rw [herr, hw, hok]
    exact ⟨_, rfl, (transaction_tracks hl.length_eq hok).persistedAs⟩

theorem persistLoop_serve (hl : Labelled config origin batch) (poison : T → Bool) (busy : Nat)
    {retries : Nat} (hr : retries ≤ maxTransientRetries) :
    (maxTransientRetries < busy ∧
      persistLoop ((Verdict.serve busy).weather poison) batch retries = .error .retryable) ∨
    (busy ≤ maxTransientRetries ∧
      ∃ p, persistLoop ((Verdict.serve busy).weather poison) batch retries = .ok p ∧
        PersistedAs batch p (judge (served poison) 0 (rowsOf batch))) := by
  induction retries with
  | zero =>
    by_cases hb : maxTransientRetries < busy
    · refine Or.inl ⟨hb, ?_⟩
      simp only [persistLoop, Verdict.weather, if_pos hb]
      rfl
    · refine Or.inr ⟨Nat.le_of_not_lt hb, ?_⟩
      simp only [persistLoop, Verdict.weather, if_neg hb]
      exact persistRound_served hl poison rfl _
  | succ retries ih =>
    by_cases hb : maxTransientRetries - (retries + 1) < busy
    · have hloop : persistLoop ((Verdict.serve busy).weather poison) batch (retries + 1) =
          persistLoop ((Verdict.serve busy).weather poison) batch retries := by
        conv_lhs => simp only [persistLoop, Verdict.weather, if_pos hb]
        rfl
      rw [hloop]
      exact ih (Nat.le_of_succ_le hr)
    · refine Or.inr ⟨by omega, ?_⟩
      simp only [persistLoop, Verdict.weather, if_neg hb]
      exact persistRound_served hl poison rfl _

/-- Whether a command is served does not depend on the poison. -/
theorem execute_verdict (hl : Labelled config origin batch) (verdict : Verdict) (now : Nat) :
    (∀ poison : T → Bool, ∃ failure,
      execute (verdict.weather poison) now (.insertLogs batch) = .error failure) ∨
    (∀ poison : T → Bool, ∃ p, PersistedAs batch p (judge (served poison) 0 (rowsOf batch)) ∧
      execute (verdict.weather poison) now (.insertLogs batch) =
        .ok ⟨p.inserted, p.quarantined, settleLogBatch batch p.salvage now⟩) := by
  cases verdict with
  | fatal =>
    refine Or.inl fun poison => ⟨.fatal, ?_⟩
    simp only [execute, if_neg hl.nonempty]
    rfl
  | serve busy =>
    by_cases hb : busy ≤ maxTransientRetries
    · refine Or.inr fun poison => ?_
      rcases persistLoop_serve hl poison busy le_rfl with ⟨hlt, -⟩ | ⟨-, p, hp, has⟩
      · omega
      · refine ⟨p, has, ?_⟩
        simp only [execute, if_neg hl.nonempty, persistWithPolicy, hp]
    · refine Or.inl fun poison => ⟨.retryable, ?_⟩
      rcases persistLoop_serve hl poison busy le_rfl with ⟨-, hp⟩ | ⟨hle, -⟩
      · simp only [execute, if_neg hl.nonempty, persistWithPolicy, hp]
      · exact absurd hle hb

theorem tally_judge_congr {t : Nat} {poison poison' : T → Bool} {rows : List (Row T)}
    (h : ∀ r ∈ rows, r.1.ticket = t → poison r.2 = poison' r.2) (i : Nat) :
    tally t (judge (served poison) i rows) = tally t (judge (served poison') i rows) := by
  induction rows generalizing i with
  | nil => rfl
  | cons r rs ih =>
    have htail := ih (fun x hx => h x (List.mem_cons_of_mem _ hx)) (i + 1)
    have hsplit : ∀ q : T → Bool, judge (served q) i (r :: rs) =
        [(r, !q r.2)] ++ judge (served q) (i + 1) rs := by
      intro q
      cases hq : q r.2 <;> simp [judge, served, hq]
    rw [hsplit, hsplit, tally_append, tally_append, htail]
    by_cases hr : r.1.ticket = t
    · rw [h r List.mem_cons_self hr]
    · have hzero : ∀ b, tally t [(r, b)] = (0, 0) := by
        intro b
        cases b <;> simp [tally, keptRows, droppedRows, hr]
      rw [hzero, hzero]

end Served

end OtelSqlite.Storage
