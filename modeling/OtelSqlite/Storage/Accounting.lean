import OtelSqlite.Storage.Settle

/-!
# Ticket accounting over the executed batches

`Done` is a persisted batch with the verdict on each of its rows. From the
executed batches alone `expectedState` computes what the ledger should say of a
ticket. `Follows` is what the batching theorems give: the rows of a ticket in the
batches, in order, are the beginning of the rows of its chunk. Then the ticket is
closed exactly when all its rows have been executed.
-/

namespace OtelSqlite.Storage

open OtelSqlite.Core OtelSqlite.Core.Commit OtelSqlite.Core.Batcher

variable {O T : Type} {t : Nat} {gs : List RecordSegment} {records : List T} {tail : List (Row T)}

structure Done (O T : Type) where
  batch : LogWriteBatch O T
  judged : List (Judged T)
  rows_eq : judged.map Prod.fst = rowsOf batch

def judgedAll (done : List (Done O T)) : List (Judged T) := done.flatMap Done.judged

def closedIn (t : Nat) (done : List (Done O T)) : Bool :=
  done.any fun x => closes t x.batch.segments

def expectedState (t : Nat) (done : List (Done O T)) : TicketState :=
  let p : TicketProgress := ⟨(tally t (judgedAll done)).1, (tally t (judgedAll done)).2⟩
  if closedIn t done then (if 0 < p.dropped then .failed p else .completed) else .unsettled p

/-- The rows of the ticket in the batches, followed by `tail`, are its chunk. -/
def Follows (t : Nat) (records : List T) (batches : List (LogWriteBatch O T))
    (tail : List (Row T)) : Prop :=
  emittedRows (byTicket t) batches ++ tail = chunkRows t records

/-- A label marked last can only stand at the end. -/
def OnlyLast (labels : List Label) : Prop :=
  ∀ xs l ys, labels = xs ++ l :: ys → l.last = true → ys = []

theorem onlyLast_labels (t n : Nat) : OnlyLast (RecordSegment.labels ⟨t, n, true⟩) := by
  intro xs l ys h hl
  by_contra hne
  obtain ⟨y, ys', rfl⟩ := List.exists_cons_of_ne_nil hne
  cases n with
  | zero => simp [RecordSegment.labels] at h
  | succ n =>
    have hd := congrArg List.dropLast h
    simp only [RecordSegment.labels, List.dropLast_concat] at hd
    have hm : l ∈ List.replicate n (⟨t, false⟩ : Label) := by
      rw [hd, List.dropLast_append_cons]
      simp
    rw [(List.mem_replicate.mp hm).2] at hl
    cases hl

theorem OnlyLast.middle {labels xs ys zs : List Label} (h : OnlyLast labels)
    (he : labels = xs ++ (ys ++ zs)) : OnlyLast ys := by
  intro as l bs hy hl
  have hnil := h (xs ++ as) l (bs ++ zs) (by rw [he, hy]; simp) hl
  exact (List.append_eq_nil_iff.mp hnil).1

theorem labels_eq_concat {g : RecordSegment} (h : 0 < g.records) :
    g.labels = List.replicate (g.records - 1) ⟨g.commitSeq, false⟩ ++
      [⟨g.commitSeq, g.complete⟩] := by
  obtain ⟨n, hn⟩ : ∃ n, g.records = n + 1 := ⟨g.records - 1, by omega⟩
  simp [RecordSegment.labels, hn]

theorem filter_eq_nil_of_labels (hpos : ∀ g ∈ gs, 0 < g.records)
    (h : labelsOf (gs.filter fun g => g.commitSeq == t) = []) : ∀ g ∈ gs, g.commitSeq ≠ t := by
  intro g hg he
  have hm : (⟨g.commitSeq, g.complete⟩ : Label) ∈ labelsOf (gs.filter fun g => g.commitSeq == t) :=
    List.mem_flatMap.mpr ⟨g, List.mem_filter.mpr ⟨hg, by simp [he]⟩,
      complete_mem_labels (hpos g hg)⟩
  rw [h] at hm
  cases hm

theorem OnlyLast.terminal (hpos : ∀ g ∈ gs, 0 < g.records)
    (h : OnlyLast (labelsOf (gs.filter fun g => g.commitSeq == t))) : Terminal t gs := by
  induction gs with
  | nil => trivial
  | cons g gs ih =>
    have hrest : ∀ x ∈ gs, 0 < x.records := fun x hx => hpos x (List.mem_cons_of_mem _ hx)
    by_cases hg : g.commitSeq = t
    · rw [List.filter_cons_of_pos (by simp [hg]), labelsOf_cons] at h
      have htail := (List.append_nil (labelsOf (gs.filter fun g => g.commitSeq == t))).symm
      refine ⟨fun _ hc => ?_, ih hrest (h.middle (congrArg (g.labels ++ ·) htail))⟩
      have hnil := h (List.replicate (g.records - 1) ⟨g.commitSeq, false⟩) ⟨g.commitSeq, true⟩
        (labelsOf (gs.filter fun g => g.commitSeq == t))
        (by rw [labels_eq_concat (hpos g List.mem_cons_self), hc]; simp) rfl
      exact filter_eq_nil_of_labels hrest hnil
    · rw [List.filter_cons_of_neg (by simp [hg])] at h
      exact ⟨fun hg' => absurd hg' hg, ih hrest h⟩

theorem closes_iff (hpos : ∀ g ∈ gs, 0 < g.records) :
    closes t gs = true ↔ ∃ l ∈ labelsOf gs, l.ticket = t ∧ l.last = true := by
  simp only [closes, List.any_eq_true, Bool.and_eq_true, beq_iff_eq]
  constructor
  · rintro ⟨g, hg, ht, hc⟩
    exact ⟨_, List.mem_flatMap.mpr ⟨g, hg, complete_mem_labels (hpos g hg)⟩, ht, hc⟩
  · rintro ⟨l, hl, ht, hlast⟩
    obtain ⟨g, hg, hlg⟩ := List.mem_flatMap.mp hl
    refine ⟨g, hg, (RecordSegment.labels_ticket hlg).symm.trans ht, ?_⟩
    rw [labels_eq_concat (hpos g hg), List.mem_append, List.mem_replicate,
      List.mem_singleton] at hlg
    rcases hlg with ⟨-, rfl⟩ | rfl
    · cases hlast
    · exact hlast

section Batches

variable {config : InsertBatcherConfig} {batches : List (LogWriteBatch O T)} {b : LogWriteBatch O T}

/-- Every batch came from the origin buffers. -/
def AllLabelled (config : InsertBatcherConfig) (batches : List (LogWriteBatch O T)) : Prop :=
  ∀ b ∈ batches, ∃ origin, Labelled config origin b

theorem emittedRows_cons (q : O → Label → Bool) (b : LogWriteBatch O T)
    (bs : List (LogWriteBatch O T)) :
    emittedRows q (b :: bs) = emittedRows q [b] ++ emittedRows q bs :=
  emittedRows_append q [b] bs

theorem emittedRows_one_labels {origin : O} (h : Labelled config origin b) (t : Nat) :
    (emittedRows (byTicket t) [b]).map Prod.fst =
      labelsOf (b.segments.filter fun g => g.commitSeq == t) := by
  rw [← labelsOf_filter, ← h.map_fst_rowsOf, List.filter_map, emittedRows, List.flatMap_cons,
    List.flatMap_nil, List.append_nil]
  rfl

theorem map_fst_chunkRows (t : Nat) (records : List T) :
    (chunkRows t records).map Prod.fst = RecordSegment.labels ⟨t, records.length, true⟩ :=
  List.map_fst_zip (by simp)

theorem Follows.terminal (hf : Follows t records batches tail) (hl : AllLabelled config batches)
    (hb : b ∈ batches) : Terminal t b.segments := by
  obtain ⟨origin, hlab⟩ := hl b hb
  obtain ⟨xs, ys, rfl⟩ := List.append_of_mem hb
  have hfst := congrArg (List.map Prod.fst) hf
  rw [map_fst_chunkRows, emittedRows_append, emittedRows_cons, List.map_append, List.map_append,
    List.map_append, emittedRows_one_labels hlab, List.append_assoc, List.append_assoc] at hfst
  exact ((onlyLast_labels t records.length).middle hfst.symm).terminal hlab.segments_pos

theorem closes_of_mem {origin : O} (h : Labelled config origin b) : closes t b.segments = true ↔
      ∃ r ∈ emittedRows (byTicket t) [b], r.1.last = true := by
  have hrows : emittedRows (byTicket t) [b] = (rowsOf b).filter fun r => r.1.ticket == t := by
    rw [emittedRows, List.flatMap_cons, List.flatMap_nil, List.append_nil]
    rfl
  rw [closes_iff h.segments_pos, ← h.map_fst_rowsOf, hrows]
  simp only [List.mem_map, List.mem_filter, beq_iff_eq]
  constructor
  · rintro ⟨l, ⟨r, hr, rfl⟩, ht, hlast⟩
    exact ⟨r, ⟨hr, ht⟩, hlast⟩
  · rintro ⟨r, ⟨hr, ht⟩, hlast⟩
    exact ⟨r.1, ⟨r, hr, rfl⟩, ht, hlast⟩

/-- A closed ticket has all its rows in the batches up to the closing one. -/
theorem Follows.closed (hf : Follows t records batches tail) (hl : AllLabelled config batches)
    (hc : ∃ b ∈ batches, closes t b.segments = true) : tail = [] := by
  obtain ⟨b, hb, hclose⟩ := hc
  obtain ⟨origin, hlab⟩ := hl b hb
  obtain ⟨xs, ys, rfl⟩ := List.append_of_mem hb
  obtain ⟨r, hr, hlast⟩ := (closes_of_mem hlab).mp hclose
  obtain ⟨as, bs, hsplit⟩ := List.append_of_mem hr
  rw [Follows, emittedRows_append, emittedRows_cons, hsplit] at hf
  have hfst := congrArg (List.map Prod.fst) hf
  rw [map_fst_chunkRows] at hfst
  have hnil := onlyLast_labels t records.length
    (((emittedRows (byTicket t) xs) ++ as).map Prod.fst) r.1
    ((bs ++ emittedRows (byTicket t) ys ++ tail).map Prod.fst)
    (by rw [← hfst]; simp) hlast
  rw [List.map_eq_nil_iff, List.append_eq_nil_iff] at hnil
  exact hnil.2

theorem Follows.closed_iff (hf : Follows t records batches tail) (hl : AllLabelled config batches)
    (hne : records ≠ []) : (∃ b ∈ batches, closes t b.segments = true) ↔ tail = [] := by
  refine ⟨hf.closed hl, ?_⟩
  rintro rfl
  rw [Follows, List.append_nil] at hf
  have hmem : (⟨t, true⟩ : Label) ∈ (emittedRows (byTicket t) batches).map Prod.fst := by
    rw [hf, map_fst_chunkRows]
    exact complete_mem_labels (g := ⟨t, records.length, true⟩) (List.length_pos_of_ne_nil hne)
  obtain ⟨r, hr, hrt⟩ := List.mem_map.mp hmem
  obtain ⟨b, hb, hrb⟩ := List.mem_flatMap.mp hr
  obtain ⟨origin, hlab⟩ := hl b hb
  refine ⟨b, hb, (closes_of_mem hlab).mpr ⟨r, ?_, by rw [hrt]⟩⟩
  rw [emittedRows, List.flatMap_cons, List.flatMap_nil, List.append_nil]
  exact hrb

theorem Follows.split {xs ys : List (LogWriteBatch O T)} (hf : Follows t records (xs ++ ys) tail) :
    Follows t records xs (emittedRows (byTicket t) ys ++ tail) := by
  rw [Follows, emittedRows_append, List.append_assoc] at hf
  exact hf

end Batches

section Executed

variable {config : InsertBatcherConfig} {done : List (Done O T)}

def batchesOf (done : List (Done O T)) : List (LogWriteBatch O T) := done.map Done.batch

theorem judgedAll_append (xs ys : List (Done O T)) :
    judgedAll (xs ++ ys) = judgedAll xs ++ judgedAll ys := List.flatMap_append

theorem emittedRows_batchesOf (t : Nat) (done : List (Done O T)) :
    emittedRows (byTicket t) (batchesOf done) =
      ((judgedAll done).map Prod.fst).filter fun r => r.1.ticket == t := by
  rw [emittedRows, batchesOf, List.flatMap_map, judgedAll, List.map_flatMap, List.filter_flatMap]
  refine List.flatMap_congr fun x _ => ?_
  rw [x.rows_eq]
  rfl

theorem tally_judgedAll_add (t : Nat) (done : List (Done O T)) :
    (tally t (judgedAll done)).1 + (tally t (judgedAll done)).2 =
      (emittedRows (byTicket t) (batchesOf done)).length := by
  rw [tally_add, emittedRows_batchesOf, List.countP_eq_length_filter]

/-- The executed rows of a ticket are at most its chunk, and all of it exactly
when nothing follows. -/
theorem Follows.tally_add (hf : Follows t records (batchesOf done) tail) :
    (tally t (judgedAll done)).1 + (tally t (judgedAll done)).2 + tail.length = records.length := by
  have hlen := congrArg List.length hf
  rw [List.length_append, ← tally_judgedAll_add] at hlen
  rw [hlen, ← List.length_map (f := Prod.snd), map_snd_chunkRows]

theorem closedIn_iff :
    closedIn t done = true ↔ ∃ b ∈ batchesOf done, closes t b.segments = true := by
  simp [closedIn, batchesOf]

theorem judgedAll_singleton (x : Done O T) : judgedAll [x] = x.judged := by
  rw [judgedAll, List.flatMap_cons, List.flatMap_nil, List.append_nil]

theorem keptRows_concat (done : List (Done O T)) (x : Done O T) :
    keptRows (judgedAll (done ++ [x])) = keptRows (judgedAll done) ++ keptRows x.judged := by
  rw [judgedAll_append, judgedAll_singleton, keptRows_append]

theorem droppedRows_concat (done : List (Done O T)) (x : Done O T) :
    droppedRows (judgedAll (done ++ [x])) = droppedRows (judgedAll done) ++ droppedRows x.judged := by
  rw [judgedAll_append, judgedAll_singleton, droppedRows_append]

/-- A ticket with no row in a batch is not touched by it. -/
theorem untouched {x : Done O T} (hl : AllLabelled config [x.batch])
    (h : emittedRows (byTicket t) [x.batch] = []) :
    tally t x.judged = (0, 0) ∧ closes t x.batch.segments = false := by
  constructor
  · have hsum := tally_judgedAll_add t [x]
    rw [judgedAll_singleton] at hsum
    change _ = (emittedRows (byTicket t) [x.batch]).length at hsum
    rw [h, List.length_nil] at hsum
    exact Prod.ext (by omega) (by omega)
  · obtain ⟨origin, hlab⟩ := hl x.batch List.mem_cons_self
    refine Bool.eq_false_iff.mpr fun hc => ?_
    obtain ⟨r, hr, -⟩ := (closes_of_mem hlab).mp hc
    rw [h] at hr
    cases hr

/-- The expected state moves with each executed batch as the ledger does. -/
theorem expectedState_concat {x : Done O T} (hf : Follows t records (batchesOf (done ++ [x])) tail)
    (hl : AllLabelled config (batchesOf (done ++ [x]))) (hb : records.length ≤ u64Max) :
    expectedState t (done ++ [x]) =
      afterBatch (tally t x.judged).1 (tally t x.judged).2 (closes t x.batch.segments)
        (expectedState t done) := by
  have hsplit : batchesOf (done ++ [x]) = batchesOf done ++ [x.batch] := by simp [batchesOf]
  rw [hsplit] at hl
  have hold : AllLabelled config (batchesOf done) := fun b hb => hl b (List.mem_append_left _ hb)
  have hnew : AllLabelled config [x.batch] := fun b hb => hl b (List.mem_append_right _ hb)
  have hbound := hf.tally_add
  rw [hsplit] at hf
  have htally : tally t (judgedAll (done ++ [x])) =
      ((tally t (judgedAll done)).1 + (tally t x.judged).1,
        (tally t (judgedAll done)).2 + (tally t x.judged).2) := by
    rw [judgedAll_append, judgedAll_singleton, tally_append]
  have hclosed : closedIn t (done ++ [x]) = (closedIn t done || closes t x.batch.segments) := by
    simp [closedIn]
  rw [htally] at hbound
  cases hc : closedIn t done with
  | true =>
    have hnil := hf.split.closed hold (closedIn_iff.mp hc)
    obtain ⟨h0, hcl⟩ := untouched hnew (List.append_eq_nil_iff.mp hnil).1
    have hs : IsSettledState (expectedState t done) := by
      simp only [expectedState, hc, if_true]
      split_ifs <;> trivial
    rw [afterBatch_settled hs]
    simp only [expectedState, htally, hclosed, h0, hc, hcl, Bool.or_false, Nat.add_zero]
  | false =>
    have hk := bump_eq (a := (tally t (judgedAll done)).1) (n := (tally t x.judged).1) (by omega)
    have hd := bump_eq (a := (tally t (judgedAll done)).2) (n := (tally t x.judged).2) (by omega)
    have hopen : expectedState t done =
        .unsettled ⟨(tally t (judgedAll done)).1, (tally t (judgedAll done)).2⟩ := by
      simp only [expectedState, hc, Bool.false_eq_true, if_false]
    rw [hopen]
    simp only [expectedState, afterBatch, htally, hclosed, hc, Bool.false_or, hk, hd]

/-- The expected state of a non-empty chunk, by how many of its rows were executed. -/
theorem expectedState_cases (hf : Follows t records (batchesOf done) tail)
    (hl : AllLabelled config (batchesOf done)) (hne : records ≠ []) :
    let c := (tally t (judgedAll done)).1
    let d := (tally t (judgedAll done)).2
    (c + d = records.length ∧
      expectedState t done = if 0 < d then .failed ⟨c, d⟩ else .completed) ∨
    (c + d < records.length ∧ expectedState t done = .unsettled ⟨c, d⟩) := by
  intro c d
  have hsum := hf.tally_add
  have hiff := closedIn_iff.trans (hf.closed_iff hl hne)
  cases hc : closedIn t done with
  | true =>
    have htail := hiff.mp hc
    rw [htail, List.length_nil, Nat.add_zero] at hsum
    exact Or.inl ⟨hsum, by simp only [expectedState, hc, if_true]; rfl⟩
  | false =>
    have hpos : 0 < tail.length := by
      refine List.length_pos_of_ne_nil fun htail => ?_
      rw [hiff.mpr htail] at hc
      cases hc
    refine Or.inr ⟨by omega, ?_⟩
    simp only [expectedState, hc, Bool.false_eq_true, if_false]
    rfl

theorem keptRows_sublist (judged : List (Judged T)) :
    (keptRows judged).Sublist (judged.map Prod.fst) := List.filter_sublist.map _

theorem droppedRows_sublist (judged : List (Judged T)) :
    (droppedRows judged).Sublist (judged.map Prod.fst) := List.filter_sublist.map _

/-- Rows of the ticket among the executed ones are records of its chunk, in order. -/
theorem Follows.sublist (hf : Follows t records (batchesOf done) tail) {rows : List (Row T)}
    (hs : rows.Sublist ((judgedAll done).map Prod.fst)) :
    ((rows.filter fun r => r.1.ticket == t).map Prod.snd).Sublist records := by
  have hsub : (rows.filter fun r => r.1.ticket == t).Sublist (chunkRows t records) := by
    rw [← hf, emittedRows_batchesOf]
    exact (hs.filter _).trans (List.sublist_append_left _ _)
  have hmap := hsub.map Prod.snd
  rwa [map_snd_chunkRows] at hmap

end Executed

end OtelSqlite.Storage
