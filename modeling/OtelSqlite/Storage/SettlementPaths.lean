import Mathlib.Algebra.BigOperators.Group.Finset.Basic
import OtelSqlite.Core.CommitHistory
import OtelSqlite.Core.LedgerStates
import OtelSqlite.Storage.Accounting

/-!
# Strict and tolerant settlement

The strict path walks the segments of a batch, the tolerant one walks its tickets with
the counts of `by_ticket`. For a batch in which nothing of a ticket follows its complete
segment the two settle alike, down to the stored ledger. Batches are of that kind if
every chunk has a ticket of its own.
-/

namespace OtelSqlite.Storage

open OtelSqlite.Core OtelSqlite.Core.Commit OtelSqlite.Core.Batcher

variable {O T : Type} {judged : List (Judged T)} {pass : Pass T}

/-- SQLite refuses the rows that `drops` selects by their position in the batch. -/
def poisoned (drops : Nat → Bool) : Attempt T where
  begin := none
  resolve := none
  execute := fun i _ => if drops i then some .poison else none
  commit := none

theorem insertLoop_poisoned (drops : Nat → Bool) (i : Nat) (rows : List (T × Nat))
    (pass : Pass T) : ∃ pass', insertLoop (poisoned drops) true i rows pass = .ok pass' := by
  induction rows generalizing i pass with
  | nil => exact ⟨pass, rfl⟩
  | cons r rows ih =>
    simp only [insertLoop, poisoned]
    cases drops i with
    | true | false => exact ih _ _

/-- The counts of a tolerant pass agree with the verdicts on the rows it has seen. -/
structure Pass.Counts (pass : Pass T) (judged : List (Judged T)) : Prop where
  kept : pass.outcome.kept = (keptRows judged).length
  dropped : pass.outcome.dropped = (droppedRows judged).length
  entries : ∀ t, (pass.outcome.byTicket t).isSome = true ↔ t ≠ 0 ∧ ∃ j ∈ judged, j.1.1.ticket = t

theorem Pass.counts_start : (Pass.start : Pass T).Counts [] :=
  ⟨rfl, rfl, fun t => by simp [Pass.start]⟩

/-- The entry of a row's ticket is there after the row, and no other one is new. -/
theorem entries_concat {byTicket byTicket' : Nat → Option (Nat × Nat)}
    (h : ∀ t, (byTicket t).isSome = true ↔ t ≠ 0 ∧ ∃ j ∈ judged, j.1.1.ticket = t) {label : Label}
    (record : T) (kept : Bool) {entry : Nat × Nat} (hentry : byTicket' = if label.ticket ≠ 0 then
      Function.update byTicket label.ticket (some entry) else byTicket) (t : Nat) :
    (byTicket' t).isSome = true ↔
      t ≠ 0 ∧ ∃ j ∈ judged ++ [((label, record), kept)], j.1.1.ticket = t := by
  have hmem : (∃ j ∈ judged ++ [((label, record), kept)], j.1.1.ticket = t) ↔
      (∃ j ∈ judged, j.1.1.ticket = t) ∨ label.ticket = t := by
    simp [or_and_right, exists_or]
  rw [hentry, hmem]
  split_ifs with h0
  · by_cases ht : t = label.ticket
    · subst ht
      simp [h0]
    · rw [Function.update_of_ne ht, h t]
      simp [Ne.symm ht]
  · rw [h t]
    rw [not_not] at h0
    constructor
    · exact fun ⟨h₁, h₂⟩ => ⟨h₁, .inl h₂⟩
    · exact fun ⟨h₁, h₂⟩ => ⟨h₁, h₂.resolve_right fun he => h₁ (he.symm.trans h0)⟩

theorem Pass.Counts.keep (h : pass.Counts judged) (label : Label) (record : T) :
    (pass.keep record true label.ticket).Counts (judged ++ [((label, record), true)]) where
  kept := by simp [Pass.keep, h.kept, keptRows]
  dropped := by simp [Pass.keep, h.dropped, droppedRows]
  entries := entries_concat h.entries record true (if_congr (by simp) rfl rfl)

theorem Pass.Counts.drop (h : pass.Counts judged) (label : Label) (record : T) :
    (pass.drop record label.ticket).Counts (judged ++ [((label, record), false)]) where
  kept := by simp [Pass.drop, h.kept, keptRows]
  dropped := by simp [Pass.drop, h.dropped, droppedRows]
  entries := entries_concat h.entries record false rfl

theorem insertLogsInner_counts {attempt : Attempt T} {batch : LogWriteBatch O T}
    (h : (labelsOf batch.segments).length = batch.records.length)
    (hok : insertLogsInner attempt batch true = .ok pass) :
    pass.Counts (judge attempt 0 (rowsOf batch)) :=
  insertLogsInner_invariant (P := fun pass judged => pass.Counts judged)
    (fun label record hc => hc.keep label record)
    (fun _ _ _ label record hc => hc.drop label record) h Pass.counts_start hok

/-- Rows counted ticket by ticket. -/
theorem sum_countP_ticket {seqs : List Nat} (hd : seqs.Nodup) {rows : List (Row T)}
    (h : ∀ r ∈ rows, r.1.ticket ∈ seqs) :
    (seqs.map fun t => rows.countP fun r => r.1.ticket == t).sum = rows.length := by
  have hcount : ∀ t, rows.countP (fun r => r.1.ticket == t) =
      Multiset.count t (rows.map fun r => r.1.ticket : Multiset Nat) := by
    intro t
    rw [Multiset.coe_count, List.count, List.countP_map]
    rfl
  rw [List.map_congr_left fun t _ => hcount t, ← List.sum_toFinset _ hd,
    Multiset.sum_count_eq_card, Multiset.coe_card, List.length_map]
  intro t ht
  obtain ⟨r, hr, rfl⟩ := List.mem_map.mp (Multiset.mem_coe.mp ht)
  exact List.mem_toFinset.mpr (h r hr)

/-- What the tolerant pass reports of a batch. -/
structure Reported (batch : LogWriteBatch O T) (judged : List (Judged T))
    (outcome : SalvageOutcome) : Prop where
  byTicket : ∀ t, outcome.byTicket t =
    if t ∈ batch.commitSeqs then some (tally t judged) else none
  kept : outcome.kept = (keptRows judged).length
  dropped : outcome.dropped = (droppedRows judged).length
  kept_sum : (batch.commitSeqs.map fun t => (outcome.ofTicket t).1).sum = outcome.kept
  dropped_sum : (batch.commitSeqs.map fun t => (outcome.ofTicket t).2).sum = outcome.dropped

section Batch

variable {config : InsertBatcherConfig} {origin : O} {batch : LogWriteBatch O T}
  {attempt : Attempt T} {pass : Pass T}

theorem mem_commitSeqs_iff_row (hl : Labelled config origin batch) (t : Nat) :
    t ∈ batch.commitSeqs ↔ ∃ r ∈ rowsOf batch, r.1.ticket = t := by
  have hrow : (∃ r ∈ rowsOf batch, r.1.ticket = t) ↔
      ∃ l ∈ labelsOf batch.segments, l.ticket = t := by
    rw [← hl.map_fst_rowsOf]
    simp
  rw [(commitSeqs_spec hl).2 t, hrow]
  constructor
  · rintro ⟨g, hg, rfl⟩
    exact ⟨_, List.mem_flatMap.mpr ⟨g, hg, complete_mem_labels (hl.segments_pos g hg)⟩, rfl⟩
  · rintro ⟨l, hm, rfl⟩
    obtain ⟨g, hg, hlg⟩ := List.mem_flatMap.mp hm
    exact ⟨g, hg, (RecordSegment.labels_ticket hlg).symm⟩

theorem reported_of_ok (hl : Labelled config origin batch) (h0 : 0 ∉ batch.commitSeqs)
    (hok : insertLogsInner attempt batch true = .ok pass) :
    Reported batch (judge attempt 0 (rowsOf batch)) pass.outcome := by
  have htracks := insertLogsInner_tracks hl.length_eq hok
  have hcounts := insertLogsInner_counts hl.length_eq hok
  obtain ⟨hd, -⟩ := commitSeqs_spec hl
  have hmem := mem_commitSeqs_iff_row hl
  generalize hjudged : judge attempt 0 (rowsOf batch) = judged at htracks hcounts
  have hrows : judged.map Prod.fst = rowsOf batch := by rw [← hjudged, judge_map_fst]
  have hjudge : ∀ t, (∃ j ∈ judged, j.1.1.ticket = t) ↔ t ∈ batch.commitSeqs := by
    intro t
    rw [hmem t, ← hrows]
    simp
  have hseq : ∀ t ∈ batch.commitSeqs, t ≠ 0 := fun t ht he => h0 (he ▸ ht)
  have hof : ∀ t ∈ batch.commitSeqs, pass.outcome.ofTicket t = tally t judged := fun t ht =>
    htracks.byTicket rfl t (hseq t ht)
  have hticket : ∀ r ∈ rowsOf batch, r.1.ticket ∈ batch.commitSeqs := fun r hr =>
    (hmem _).mpr ⟨r, hr, rfl⟩
  refine ⟨fun t => ?_, hcounts.kept, hcounts.dropped, ?_, ?_⟩
  · have hsome := hcounts.entries t
    rw [hjudge t] at hsome
    split_ifs with ht
    · obtain ⟨entry, he⟩ := Option.isSome_iff_exists.mp (hsome.mpr ⟨hseq t ht, ht⟩)
      rw [he, ← hof t ht, SalvageOutcome.ofTicket, he]
      rfl
    · exact Option.not_isSome_iff_eq_none.mp fun h => ht (hsome.mp h).2
  · rw [List.map_congr_left fun t ht => congrArg Prod.fst (hof t ht), hcounts.kept]
    exact sum_countP_ticket hd fun r hr => hticket r (hrows ▸ (keptRows_sublist judged).subset hr)
  · rw [List.map_congr_left fun t ht => congrArg Prod.snd (hof t ht), hcounts.dropped]
    exact sum_countP_ticket hd fun r hr => hticket r (hrows ▸ (droppedRows_sublist judged).subset hr)

end Batch

/-- All calls of a batch read the clock alike. -/
theorem at_settleLogBatch (batch : LogWriteBatch O T) (salvage : Option SalvageOutcome)
    (now : Nat) : ∀ c ∈ settleLogBatch batch salvage now, c.At now := by
  intro c hc
  cases batchCall_of_mem hc with
  | committed t n | dropped t n => trivial
  | unmapped hs ht | closed hg hlast => rfl

theorem bump_pos {a n : Nat} : 0 < bump a n ↔ 0 < a ∨ 0 < n := by
  unfold bump
  split_ifs with h0
  · omega
  · rw [saturatingAdd_pos]
    omega

section Settle

variable {config : InsertBatcherConfig} {origin : O} {batch : LogWriteBatch O T}
  {attempt : Attempt T} {pass : Pass T} {l : CommitLedger} {t : Nat}

variable (hl : Labelled config origin batch)
include hl

theorem state_settle_tolerant (hok : insertLogsInner attempt batch true = .ok pass)
    (hw : l.inner.WellFormed) (hterm : Terminal t batch.segments) (h0 : t ≠ 0) (now : Nat) :
    (l.run (settleLogBatch batch (some pass.outcome) now)).state t =
      afterBatch (tally t (judge attempt 0 (rowsOf batch))).1
        (tally t (judge attempt 0 (rowsOf batch))).2 (closes t batch.segments) (l.state t) := by
  have hp := (insertLogsInner_tracks hl.length_eq hok).persistedAs
  rw [state_run hw]
  exact foldl_settleLogBatch hl hp h0 hterm now _

theorem state_settle_strict (hw : l.inner.WellFormed) (hterm : Terminal t batch.segments)
    (now : Nat) :
    (l.run (settleLogBatch batch none now)).state t =
      afterBatch (sizeOfTicket t batch.segments) 0 (closes t batch.segments) (l.state t) := by
  rw [state_run hw, settleLogBatch, if_neg (segments_ne_nil hl)]
  exact foldl_strictCalls now hterm _

/-- Without a dropped row the counts of a ticket are the sizes of its segments. -/
theorem tolerant_settles_as_strict (hok : insertLogsInner attempt batch true = .ok pass)
    (hw : l.inner.WellFormed) (hc : l.inner.Compact) (hterm : ∀ t, Terminal t batch.segments)
    (hnone : pass.outcome.dropped = 0) (now : Nat) :
    l.run (settleLogBatch batch (some pass.outcome) now) =
      l.run (settleLogBatch batch none now) := by
  have hp := (insertLogsInner_tracks hl.length_eq hok).persistedAs
  have hdropped : droppedRows (judge attempt 0 (rowsOf batch)) = [] :=
    List.length_eq_zero_iff.mp ((insertLogsInner_counts hl.length_eq hok).dropped.symm.trans hnone)
  refine run_eq_of_states hw hc (at_settleLogBatch _ _ _) (at_settleLogBatch _ _ _)
    (notMem_settleLogBatch _ _ _) (notMem_settleLogBatch _ _ _) fun t => ?_
  by_cases h0 : t = 0
  · simp only [CommitLedger.state, h0, if_true]
  · have hsum := tally_add_eq hl hp t
    rw [tally_of_strict hdropped, Nat.add_zero] at hsum
    rw [state_settle_tolerant hl hok hw (hterm t) h0, state_settle_strict hl hw (hterm t),
      tally_of_strict hdropped, hsum]

theorem mem_failed_settle_iff (hok : insertLogsInner attempt batch true = .ok pass)
    (hw : l.inner.WellFormed) (hterm : Terminal t batch.segments) (hopen : ¬l.inner.IsSettled t)
    (now : Nat) :
    let settled := l.run (settleLogBatch batch (some pass.outcome) now)
    t ∈ settled.inner.failed ↔ settled.inner.IsSettled t ∧
      (0 < (tally t (judge attempt 0 (rowsOf batch))).2 ∨ 0 < (l.inner.progressOf t).dropped) := by
  intro settled
  have h0 : t ≠ 0 := fun h0 => hopen (.inl (h0 ▸ Nat.zero_le _))
  have hstate := state_settle_tolerant hl hok hw hterm h0 now
  rw [CommitLedger.state_fresh hw h0 hopen] at hstate
  rw [mem_failed_iff_state h0, isSettled_iff_state (wellFormed_run hw _), hstate]
  cases closes t batch.segments with
  | false => simp [afterBatch, TicketState.IsFinal]
  | true =>
    simp only [afterBatch, if_true]
    split_ifs with hd
    · rw [bump_pos] at hd
      simp [TicketState.IsFinal, hd.symm]
    · rw [bump_pos, not_or] at hd
      simp [hd.1, hd.2]

end Settle

/-- A batch of distinct tickets has nothing of a ticket behind its complete segment. -/
theorem exec_terminal [BEq O] {config : InsertBatcherConfig} {ops : List (Op O T)}
    {buffers : OriginBuffers O T} {emitted : List (Submission O T)} (hd : (tickets ops).Nodup)
    (h : exec config ops = some (buffers, emitted)) {batch : Submission O T} (hb : batch ∈ emitted)
    (t : Nat) : Terminal t batch.segments := by
  obtain ⟨buffers', emitted', he, -, hrows⟩ := exec_ticketRows config ops hd
  rw [h, Option.some.injEq, Prod.mk.injEq] at he
  obtain ⟨rfl, rfl⟩ := he
  have hlabelled : AllLabelled config emitted := (exec_labelled h).2
  have hstream := (hrows t).stream
  by_cases ht : t ∈ tickets ops
  · obtain ⟨clock, origin, records, hop⟩ := mem_tickets.mp ht
    rw [rows_byTicket_pushed hd hop] at hstream
    exact Follows.terminal hstream hlabelled hb
  · rw [rows_byTicket_fresh ht] at hstream
    have hnone : Follows t [] emitted (bufferRows (byTicket t) buffers) := hstream
    exact hnone.terminal hlabelled hb

/-- **Strict and tolerant settlement agree** if every chunk has a ticket of its own: for
every batch the origin buffers build and every ledger in which its tickets are open, an
outcome without drops settles the ledger as the strict success does; and whatever rows
are dropped, the outcome counts them by ticket, and the tickets that fail are those that
settle with a drop. -/
theorem strict_and_tolerant_settlement_agree [BEq O] (config : InsertBatcherConfig)
    (ops : List (Op O T)) (hd : (tickets ops).Nodup) :
    ∃ buffers emitted, exec config ops = some (buffers, emitted) ∧
      ∀ batch ∈ emitted, ∀ start calls now,
        let prior := (CommitLedger.new start).run calls
        (∀ t ∈ batch.commitSeqs, ¬prior.inner.IsSettled t) →
        (∀ drops, ∃ pass, insertLogsInner (poisoned drops) batch true = .ok pass) ∧
        ∀ attempt pass, insertLogsInner attempt batch true = .ok pass →
          let judged := judge attempt 0 (rowsOf batch)
          let settled := prior.run (settleLogBatch batch (some pass.outcome) now)
          Reported batch judged pass.outcome ∧
          (pass.outcome.dropped = 0 → settled = prior.run (settleLogBatch batch none now)) ∧
          ∀ t ∈ batch.commitSeqs, t ∈ settled.inner.failed ↔
            settled.inner.IsSettled t ∧ (0 < (tally t judged).2 ∨ 0 < droppedCount calls t) := by
  obtain ⟨buffers, emitted, he, -, -⟩ := exec_ticketRows config ops hd
  refine ⟨buffers, emitted, he, ?_⟩
  intro batch hb start calls now prior hopen
  refine ⟨fun drops => ?_, ?_⟩
  · exact insertLoop_poisoned drops 0 _ _
  · intro attempt pass hok judged settled
    obtain ⟨origin, hl⟩ := (exec_labelled he).2 batch hb
    have hterm := exec_terminal hd he hb
    have hw : prior.inner.WellFormed := wellFormed_run (wellFormed_new start) calls
    have hc : prior.inner.Compact := compact_run (compact_new start) calls
    have h0 : 0 ∉ batch.commitSeqs := fun hm => hopen 0 hm (.inl (Nat.zero_le _))
    refine ⟨reported_of_ok hl h0 hok, fun hnone => ?_, fun t ht => ?_⟩
    · exact tolerant_settles_as_strict hl hok hw hc hterm hnone now
    · have hne : t ≠ 0 := fun he => h0 (he ▸ ht)
      rw [← (records_run start calls).dropped_iff t hne (hopen t ht)]
      exact mem_failed_settle_iff hl hok hw (hterm t) (hopen t ht) now

/-- Two tickets in one batch. -/
def twoTickets : List (Op Nat Nat) :=
  [.push (fun _ => 0) 0 [10, 11] 1, .push (fun _ => 0) 0 [12] 2]

def twoTicketBatch : LogWriteBatch Nat Nat :=
  Submission.new 0 [10, 11, 12] [⟨1, 2, true⟩, ⟨2, 1, true⟩]

/-- The first record of ticket 1 is dropped, ticket 2 lost one before. -/
theorem strict_and_tolerant_settlement_agree_two :
    let prior := (CommitLedger.new 0).run [.issue, .issue, .noteDropped 2 1]
    let attempt : Attempt Nat := poisoned fun i => i = 0
    ∃ pass, insertLogsInner attempt twoTicketBatch true = .ok pass ∧
      pass.outcome.byTicket 1 = some (1, 1) ∧
      Reported twoTicketBatch (judge attempt 0 (rowsOf twoTicketBatch)) pass.outcome ∧
      2 ∈ (prior.run (settleLogBatch twoTicketBatch (some pass.outcome) 5)).inner.failed := by
  intro prior attempt
  obtain ⟨buffers, emitted, he, hbatch⟩ :=
    strict_and_tolerant_settlement_agree ⟨3, 10, by decide⟩ twoTickets (by decide)
  have hemitted : (exec ⟨3, 10, by decide⟩ twoTickets).map Prod.snd = some [twoTicketBatch] := by
    decide +kernel
  rw [he] at hemitted
  obtain rfl : emitted = [twoTicketBatch] := Option.some.inj hemitted
  have hspec := hbatch twoTicketBatch List.mem_cons_self 0 [.issue, .issue, .noteDropped 2 1] 5
    (by decide +kernel)
  obtain ⟨hreported, -, hfailed⟩ := hspec.2 attempt _ rfl
  exact ⟨_, rfl, (hreported.byTicket 1).trans (by decide +kernel), hreported,
    (hfailed 2 (by decide +kernel)).mpr ⟨by decide +kernel, .inr (by decide)⟩⟩

/-- One ticket pushed with two chunks, so that its first segment is complete. -/
def repeatedTicket : List (Op Nat Nat) :=
  [.push (fun _ => 0) 0 [10] 1, .push (fun _ => 0) 0 [11] 1]

def repeatedBatch : LogWriteBatch Nat Nat := Submission.new 0 [10, 11] [⟨1, 1, true⟩, ⟨1, 1, true⟩]

/-- The strict path settles a repeated ticket before it has seen all of its rows, which
shows if the ticket fails for an earlier drop and keeps its progress. -/
theorem repeated_ticket_settles_differently :
    let prior := (CommitLedger.new 0).run [.issue, .noteDropped 1 1]
    (exec ⟨2, 10, by decide⟩ repeatedTicket).map Prod.snd = some [repeatedBatch] ∧
      (∀ t ∈ repeatedBatch.commitSeqs, ¬prior.inner.IsSettled t) ∧
      ∃ pass, insertLogsInner (poisoned fun _ => false) repeatedBatch true = .ok pass ∧
        pass.outcome.dropped = 0 ∧
        prior.run (settleLogBatch repeatedBatch (some pass.outcome) 5) ≠
          prior.run (settleLogBatch repeatedBatch none 5) := by
  intro prior
  refine ⟨by decide +kernel, by decide +kernel, _, rfl, rfl, fun he => ?_⟩
  have hstate := congrArg (fun l => l.state 1) he
  revert hstate
  decide +kernel

end OtelSqlite.Storage
