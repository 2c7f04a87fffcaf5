import OtelSqlite.Core.CommitState
import OtelSqlite.Storage.Persist

/-!
# What settling a batch does to one ticket

The strict path notes each segment, the salvage path notes each ticket once from
the summed counts. For a single ticket both come to the same: its kept and its
dropped rows are added, and it settles if the batch carries its last row.
-/

namespace OtelSqlite.Storage

open OtelSqlite.Core OtelSqlite.Core.Commit

variable {O T : Type} {t : Nat} {g : RecordSegment} {outcome : SalvageOutcome} {s : TicketState}
  {gs : List RecordSegment} {commitSeqs : List Nat}

/-- A note of `n` records; a note of none is ignored. -/
def bump (a n : Nat) : Nat := if n = 0 then a else saturatingAdd a n

@[simp] theorem bump_zero (a : Nat) : bump a 0 = a := rfl

theorem bump_bump (a m n : Nat) : bump (bump a m) n = bump a (m + n) := by
  unfold bump
  rcases Nat.eq_zero_or_pos m with rfl | hm
  · simp
  · rcases Nat.eq_zero_or_pos n with rfl | hn
    · simp
    · rw [if_neg hm.ne', if_neg hn.ne', if_neg (by omega)]
      simp only [saturatingAdd]
      omega

theorem bump_eq {a n : Nat} (h : a + n ≤ u64Max) : bump a n = a + n := by
  unfold bump
  split_ifs with h0
  · rw [h0]
    rfl
  · exact saturatingAdd_eq h

/-- One batch as a ticket sees it: `kept` and `dropped` of its rows, and its last row or not. -/
def afterBatch (kept dropped : Nat) (last : Bool) : TicketState → TicketState
  | .unsettled p =>
    let p : TicketProgress := ⟨bump p.committed kept, bump p.dropped dropped⟩
    if last then (if 0 < p.dropped then .failed p else .completed) else .unsettled p
  | s => s

/-- The batch carries the segment that closes the ticket. -/
def closes (t : Nat) (segments : List RecordSegment) : Bool :=
  segments.any fun g => g.commitSeq == t && g.complete

/-- Nothing of the ticket follows its complete segment. -/
def Terminal (t : Nat) : List RecordSegment → Prop
  | [] => True
  | g :: gs => (g.commitSeq = t → g.complete = true → ∀ x ∈ gs, x.commitSeq ≠ t) ∧ Terminal t gs

def sizeOfTicket (t : Nat) (segments : List RecordSegment) : Nat :=
  ((segments.filter fun g => g.commitSeq == t).map RecordSegment.records).sum

def IsSettledState : TicketState → Prop
  | .unsettled _ => False
  | _ => True

theorem IsSettledState.ne_unsettled (h : IsSettledState s) (p : TicketProgress) :
    s ≠ .unsettled p := by
  rintro rfl
  exact h

theorem foldl_after_settled (h : IsSettledState s) (t : Nat) (calls : List Call) :
    calls.foldl (TicketState.after t) s = s :=
  TicketState.foldl_after_of_ne h.ne_unsettled t calls

theorem afterBatch_settled (h : IsSettledState s) (kept dropped : Nat) (last : Bool) :
    afterBatch kept dropped last s = s := by
  cases s with
  | unsettled p => exact h.elim
  | completed | failed p => rfl

theorem isSettledState_afterBatch (kept dropped : Nat) (p : TicketProgress) :
    IsSettledState (afterBatch kept dropped true (.unsettled p)) := by
  simp only [afterBatch, if_true]
  split_ifs <;> trivial

/-- The calls of the strict path. -/
def strictCalls (now : Nat) (segments : List RecordSegment) : List Call :=
  segments.flatMap fun g =>
    .noteCommitted g.commitSeq g.records ::
      if g.complete then [.complete g.commitSeq now] else []

theorem sizeOfTicket_cons (t : Nat) (g : RecordSegment) (gs : List RecordSegment) :
    sizeOfTicket t (g :: gs) = (if g.commitSeq = t then g.records else 0) + sizeOfTicket t gs := by
  simp only [sizeOfTicket, List.filter_cons, beq_iff_eq]
  split_ifs <;> simp

theorem closes_cons_own (h : g.commitSeq = t) (gs : List RecordSegment) :
    closes t (g :: gs) = (g.complete || closes t gs) := by
  simp [closes, h]

theorem closes_cons_other (h : g.commitSeq ≠ t) (gs : List RecordSegment) :
    closes t (g :: gs) = closes t gs := by
  simp [closes, h]

theorem sizeOfTicket_none (h : ∀ x ∈ gs, x.commitSeq ≠ t) : sizeOfTicket t gs = 0 := by
  rw [sizeOfTicket, List.filter_eq_nil_iff.mpr fun x hx => by simpa using h x hx]
  rfl

/-- The two calls of one segment on its own ticket. -/
theorem foldl_strictCalls_own (hg : g.commitSeq = t) (p : TicketProgress) (now : Nat) :
    (strictCalls now [g]).foldl (TicketState.after t) (.unsettled p) =
      afterBatch g.records 0 g.complete (.unsettled p) := by
  subst hg
  by_cases h0 : g.records = 0
  · cases hc : g.complete <;> simp [strictCalls, hc, h0, TicketState.after, afterBatch]
  · cases hc : g.complete <;> simp [strictCalls, hc, h0, TicketState.after, afterBatch, bump]

theorem foldl_strictCalls_other (hg : g.commitSeq ≠ t) (s : TicketState) (now : Nat) :
    (strictCalls now [g]).foldl (TicketState.after t) s = s := by
  cases s with
  | unsettled p => cases hc : g.complete <;> simp [strictCalls, hc, TicketState.after, hg]
  | completed => exact foldl_after_settled (s := .completed) trivial t _
  | failed q => exact foldl_after_settled (s := .failed q) trivial t _

theorem strictCalls_cons (now : Nat) (g : RecordSegment) (gs : List RecordSegment) :
    strictCalls now (g :: gs) = strictCalls now [g] ++ strictCalls now gs := by
  simp [strictCalls]

theorem foldl_strictCalls (now : Nat) (h : Terminal t gs) (s : TicketState) :
    (strictCalls now gs).foldl (TicketState.after t) s =
      afterBatch (sizeOfTicket t gs) 0 (closes t gs) s := by
  cases s with
  | completed => exact foldl_after_settled (s := .completed) trivial t _
  | failed q => exact foldl_after_settled (s := .failed q) trivial t _
  | unsettled p =>
    induction gs generalizing p with
    | nil => rfl
    | cons g gs ih =>
      rw [strictCalls_cons, List.foldl_append, sizeOfTicket_cons]
      by_cases hg : g.commitSeq = t
      · rw [foldl_strictCalls_own hg, if_pos hg, closes_cons_own hg]
        cases hc : g.complete with
        | true =>
          rw [foldl_after_settled (isSettledState_afterBatch _ _ p),
            sizeOfTicket_none (h.1 hg hc), Bool.true_or, Nat.add_zero]
        | false =>
          have hstep : afterBatch g.records 0 false (.unsettled p) =
              .unsettled ⟨bump p.committed g.records, p.dropped⟩ := rfl
          rw [hstep, ih h.2, Bool.false_or]
          simp only [afterBatch, bump_bump]
      · rw [foldl_strictCalls_other hg, if_neg hg, ih h.2, Nat.zero_add, closes_cons_other hg]

/-- The notes of the salvage path. -/
def salvageNotes (outcome : SalvageOutcome) (commitSeqs : List Nat) : List Call :=
  commitSeqs.flatMap fun seq =>
    (if 0 < (outcome.ofTicket seq).1 then [.noteCommitted seq (outcome.ofTicket seq).1] else []) ++
      if 0 < (outcome.ofTicket seq).2 then [.noteDropped seq (outcome.ofTicket seq).2] else []

def salvageCompletes (now : Nat) (segments : List RecordSegment) : List Call :=
  segments.flatMap fun g => if g.complete then [.complete g.commitSeq now] else []

theorem foldl_salvageNotes_other (h : t ∉ commitSeqs) (p : TicketProgress) :
    (salvageNotes outcome commitSeqs).foldl (TicketState.after t) (.unsettled p) = .unsettled p := by
  induction commitSeqs with
  | nil => rfl
  | cons seq seqs ih =>
    have hseq : seq ≠ t := fun he => h (he ▸ List.mem_cons_self)
    have htail := ih fun hm => h (List.mem_cons_of_mem _ hm)
    rw [salvageNotes] at htail
    rw [salvageNotes, List.flatMap_cons, List.foldl_append]
    rw [← htail]
    congr 1
    split_ifs <;> simp [TicketState.after, hseq, htail]

theorem foldl_salvageNotes (hd : commitSeqs.Nodup) (h : t ∈ commitSeqs) (p : TicketProgress) :
    (salvageNotes outcome commitSeqs).foldl (TicketState.after t) (.unsettled p) =
      .unsettled ⟨bump p.committed (outcome.ofTicket t).1, bump p.dropped (outcome.ofTicket t).2⟩ := by
  obtain ⟨xs, ys, rfl⟩ := List.append_of_mem h
  rw [List.nodup_append, List.nodup_cons] at hd
  have hx : t ∉ xs := fun hm => hd.2.2 t hm t List.mem_cons_self rfl
  have hsplit : salvageNotes outcome (xs ++ t :: ys) =
      salvageNotes outcome xs ++ (salvageNotes outcome [t] ++ salvageNotes outcome ys) := by
    simp [salvageNotes]
  rw [hsplit, List.foldl_append, List.foldl_append, foldl_salvageNotes_other hx]
  have hown : (salvageNotes outcome [t]).foldl (TicketState.after t) (.unsettled p) =
      .unsettled
        ⟨bump p.committed (outcome.ofTicket t).1, bump p.dropped (outcome.ofTicket t).2⟩ := by
    by_cases h1 : (outcome.ofTicket t).1 = 0 <;> by_cases h2 : (outcome.ofTicket t).2 = 0 <;>
      simp [salvageNotes, h1, h2, Nat.pos_iff_ne_zero, TicketState.after, bump]
  rw [hown, foldl_salvageNotes_other hd.2.1.1]

theorem foldl_salvageCompletes (now : Nat) (gs : List RecordSegment) (p : TicketProgress) :
    (salvageCompletes now gs).foldl (TicketState.after t) (.unsettled p) =
      afterBatch 0 0 (closes t gs) (.unsettled p) := by
  induction gs with
  | nil => rfl
  | cons g gs ih =>
    have hcons : salvageCompletes now (g :: gs) =
        (if g.complete then [.complete g.commitSeq now] else []) ++ salvageCompletes now gs := rfl
    rw [hcons, List.foldl_append]
    by_cases hg : g.commitSeq = t
    · rw [closes_cons_own hg]
      cases hc : g.complete with
      | false => rw [Bool.false_or]; exact ih
      | true =>
        have hstep : TicketState.after t (.unsettled p) (.complete g.commitSeq now) =
            afterBatch 0 0 true (.unsettled p) := by
          simp only [TicketState.after, if_pos hg]
          rfl
        rw [if_pos rfl, List.foldl_cons, List.foldl_nil, hstep,
          foldl_after_settled (isSettledState_afterBatch _ _ p), Bool.true_or]
    · rw [closes_cons_other hg]
      split_ifs
      · have hstep : TicketState.after t (.unsettled p) (.complete g.commitSeq now) =
            .unsettled p := by simp [TicketState.after, hg]
        rw [List.foldl_cons, List.foldl_nil, hstep, ih]
      · exact ih

/-- The calls that settling a batch makes. Without a ticket map every ticket the batch
names is completed, with one only the tickets that a segment closes. -/
inductive BatchCall (batch : LogWriteBatch O T) (now : Nat) : Call → Prop where
  | committed (t n : Nat) : BatchCall batch now (.noteCommitted t n)
  | dropped (t n : Nat) : BatchCall batch now (.noteDropped t n)
  | unmapped {t : Nat} (hs : batch.segments = []) (ht : t ∈ batch.commitSeqs) :
      BatchCall batch now (.complete t now)
  | closed {g : RecordSegment} (hg : g ∈ batch.segments) (hc : g.complete = true) :
      BatchCall batch now (.complete g.commitSeq now)

theorem batchCall_of_mem {batch : LogWriteBatch O T} {salvage : Option SalvageOutcome} {now : Nat}
    {c : Call} (hc : c ∈ settleLogBatch batch salvage now) : BatchCall batch now c := by
  unfold settleLogBatch at hc
  split_ifs at hc with hs
  · obtain ⟨seq, hseq, hc⟩ := List.mem_flatMap.mp hc
    rcases List.mem_append.mp hc with hc | hc
    · obtain ⟨-, hc⟩ := List.mem_ite_nil_right.mp hc
      exact List.mem_singleton.mp hc ▸ .dropped _ _
    · exact List.mem_singleton.mp hc ▸ .unmapped hs hseq
  · cases salvage with
    | none =>
      obtain ⟨g, hg, hc⟩ := List.mem_flatMap.mp hc
      rcases List.mem_cons.mp hc with rfl | hc
      · exact .committed _ _
      · obtain ⟨hlast, hc⟩ := List.mem_ite_nil_right.mp hc
        exact List.mem_singleton.mp hc ▸ .closed hg hlast
    | some outcome =>
      rcases List.mem_append.mp hc with hc | hc
      · obtain ⟨seq, -, hc⟩ := List.mem_flatMap.mp hc
        rcases List.mem_append.mp hc with hc | hc
        · obtain ⟨-, hc⟩ := List.mem_ite_nil_right.mp hc
          exact List.mem_singleton.mp hc ▸ .committed _ _
        · obtain ⟨-, hc⟩ := List.mem_ite_nil_right.mp hc
          exact List.mem_singleton.mp hc ▸ .dropped _ _
      · obtain ⟨g, hg, hc⟩ := List.mem_flatMap.mp hc
        obtain ⟨hlast, hc⟩ := List.mem_ite_nil_right.mp hc
        exact List.mem_singleton.mp hc ▸ .closed hg hlast

/-- Settling neither hands out tickets nor closes the ledger. -/
theorem notMem_settleLogBatch (batch : LogWriteBatch O T) (salvage : Option SalvageOutcome)
    (now : Nat) :
    .issue ∉ settleLogBatch batch salvage now ∧ .close ∉ settleLogBatch batch salvage now := by
  constructor <;> intro hm <;> cases batchCall_of_mem hm

theorem countP_labelsOf (t : Nat) (gs : List RecordSegment) :
    (labelsOf gs).countP (fun l => l.ticket == t) = sizeOfTicket t gs := by
  rw [List.countP_eq_length_filter, labelsOf_filter, length_labelsOf, sizeOfTicket]

theorem tally_add (t : Nat) (judged : List (Judged T)) :
    (tally t judged).1 + (tally t judged).2 =
      (judged.map Prod.fst).countP fun r => r.1.ticket == t := by
  induction judged with
  | nil => rfl
  | cons j js ih =>
    obtain ⟨r, kept⟩ := j
    cases kept <;> simp [tally, keptRows, droppedRows, List.countP_cons] at ih ⊢ <;> omega

theorem tally_of_strict {judged : List (Judged T)} (h : droppedRows judged = []) :
    (tally t judged).2 = 0 := by simp [tally, h]

section Batch

variable {config : Batcher.InsertBatcherConfig} {origin : O} {batch : LogWriteBatch O T}
  {p : Persisted T} {judged : List (Judged T)} {t : Nat}

variable (hl : Labelled config origin batch)
include hl

theorem tally_add_eq (hp : PersistedAs batch p judged) (t : Nat) :
    (tally t judged).1 + (tally t judged).2 = sizeOfTicket t batch.segments := by
  rw [tally_add, hp.rows, ← countP_labelsOf, ← hl.map_fst_rowsOf, List.countP_map]
  rfl

theorem segments_ne_nil : batch.segments ≠ [] := by
  intro hs
  have hlen := hl.length_eq
  rw [hs] at hlen
  exact hl.nonempty (List.length_eq_zero_iff.mp hlen.symm)

theorem commitSeqs_spec :
    batch.commitSeqs.Nodup ∧ ∀ t, t ∈ batch.commitSeqs ↔ ∃ g ∈ batch.segments, g.commitSeq = t := by
  obtain ⟨hsorted, hmem⟩ := commitSeqs_new origin batch.records batch.segments
  rw [← hl.made] at hsorted hmem
  exact ⟨hsorted.imp fun hlt => hlt.ne, hmem⟩

theorem foldl_salvage (hp : PersistedAs batch p judged) (hs : p.salvage = some outcome) (h0 : t ≠ 0)
    (now : Nat) (q : TicketProgress) :
    (salvageNotes outcome batch.commitSeqs ++ salvageCompletes now batch.segments).foldl
        (TicketState.after t) (.unsettled q) =
      afterBatch (tally t judged).1 (tally t judged).2 (closes t batch.segments) (.unsettled q) := by
  obtain ⟨hd, hmem⟩ := commitSeqs_spec hl
  have hout := hp.salvaged outcome hs t h0
  rw [List.foldl_append]
  by_cases hm : t ∈ batch.commitSeqs
  · rw [foldl_salvageNotes hd hm, foldl_salvageCompletes, hout]
    rfl
  · have hnone : ∀ g ∈ batch.segments, g.commitSeq ≠ t := fun g hg he =>
      hm ((hmem t).mpr ⟨g, hg, he⟩)
    have hsum := tally_add_eq hl hp t
    rw [sizeOfTicket_none hnone] at hsum
    obtain ⟨h1, h2⟩ : (tally t judged).1 = 0 ∧ (tally t judged).2 = 0 := by omega
    rw [foldl_salvageNotes_other hm, foldl_salvageCompletes, h1, h2]

/-- **Settling a persisted batch**, seen from one ticket, on either path. -/
theorem foldl_settleLogBatch (hp : PersistedAs batch p judged) (h0 : t ≠ 0)
    (hterm : Terminal t batch.segments) (now : Nat) (s : TicketState) :
    (settleLogBatch batch p.salvage now).foldl (TicketState.after t) s =
      afterBatch (tally t judged).1 (tally t judged).2 (closes t batch.segments) s := by
  unfold settleLogBatch
  rw [if_neg (segments_ne_nil hl)]
  cases hs : p.salvage with
  | none =>
    have hdrop := tally_of_strict (t := t) (hp.strict hs)
    have hsum := tally_add_eq hl hp t
    rw [hdrop, Nat.add_zero] at hsum
    rw [hdrop, hsum]
    exact foldl_strictCalls now hterm s
  | some outcome =>
    cases s with
    | unsettled q => exact foldl_salvage hl hp hs h0 now q
    | completed => exact foldl_after_settled (s := .completed) trivial t _
    | failed q => exact foldl_after_settled (s := .failed q) trivial t _

end Batch

end OtelSqlite.Storage
