import OtelSqlite.Storage.BatchRuns

/-!
# Segments label the records with their tickets

When the pushed tickets are distinct, the rows of a ticket enter one buffer once
and leave it in order, whatever the origins compare like. Emitted and buffered
rows of a ticket are then the rows of its chunk, and the one row marked last is
the last record: the segment that ends with it is the only complete one.
-/

namespace OtelSqlite.Storage

open OtelSqlite.Core OtelSqlite.Core.Batcher

variable {O T : Type} {ops : List (Op O T)} {t : Nat} {records : List T} {origin known : O}
  {config : InsertBatcherConfig} {b b' : OriginBuffer T} {out emitted : List (Submission O T)}
  {buffers buffers' before after : OriginBuffers O T} {clock : Nat → Nat}

def byTicket (t : Nat) : O → Label → Bool := fun _ l => l.ticket == t

/-- The tickets of the pushes, in order. -/
def tickets (ops : List (Op O T)) : List Nat :=
  ops.filterMap fun
    | .push _ _ _ commitSeq => some commitSeq
    | _ => none

theorem tickets_append (xs ys : List (Op O T)) : tickets (xs ++ ys) = tickets xs ++ tickets ys :=
  List.filterMap_append

theorem mem_tickets :
    t ∈ tickets ops ↔ ∃ clock origin records, .push clock origin records t ∈ ops := by
  simp only [tickets, List.mem_filterMap]
  constructor
  · rintro ⟨op, hop, he⟩
    cases op with
    | push clock origin records commitSeq =>
      obtain rfl : commitSeq = t := Option.some.inj he
      exact ⟨clock, origin, records, hop⟩
    | flushExpired now | flushAll => cases he
  · rintro ⟨clock, origin, records, hop⟩
    exact ⟨_, hop, rfl⟩

theorem chunkRows_ticket {r : Row T} (h : r ∈ chunkRows t records) : r.1.ticket = t :=
  RecordSegment.labels_ticket (List.of_mem_zip (a := r.1) (b := r.2) h).1

theorem rows_byTicket_push (clock : Nat → Nat) (origin : O) (records : List T) (s t : Nat) :
    (Op.push clock origin records s).rows (byTicket t) =
      if s = t then chunkRows s records else [] := by
  simp only [Op.rows, byTicket]
  split_ifs with h
  · rw [List.filter_eq_self]
    intro r hr
    rw [chunkRows_ticket hr, h, beq_self_eq_true]
  · rw [List.filter_eq_nil_iff]
    intro r hr
    rw [chunkRows_ticket hr, beq_iff_eq]
    exact h

theorem rows_byTicket_fresh (h : t ∉ tickets ops) : ops.flatMap (Op.rows (byTicket t)) = [] := by
  rw [List.flatMap_eq_nil_iff]
  intro op hop
  cases op with
  | push clock origin records s =>
    rw [rows_byTicket_push, if_neg]
    rintro rfl
    exact h (mem_tickets.mpr ⟨clock, origin, records, hop⟩)
  | flushExpired now | flushAll => rfl

/-- A ticket pushed once contributes the rows of its chunk. -/
theorem rows_byTicket_pushed (hd : (tickets ops).Nodup) (h : .push clock origin records t ∈ ops) :
    ops.flatMap (Op.rows (byTicket t)) = chunkRows t records := by
  obtain ⟨xs, ys, rfl⟩ := List.append_of_mem h
  have hcons : tickets (Op.push clock origin records t :: ys) = t :: tickets ys := rfl
  rw [tickets_append, hcons, List.nodup_append, List.nodup_cons] at hd
  obtain ⟨-, ⟨hys, -⟩, hxs⟩ := hd
  have hx : t ∉ tickets xs := fun hm => hxs t hm t List.mem_cons_self rfl
  rw [List.flatMap_append, List.flatMap_cons, rows_byTicket_fresh hx, rows_byTicket_fresh hys,
    rows_byTicket_push, if_pos rfl, List.nil_append, List.append_nil]

section Solo

variable {q : O → Label → Bool}

theorem Emits.entryRows_nil {added : List (Row T)} (h : Emits config origin b b' added out)
    (hq : q known = q origin) (hb : entryRows q (known, b) = [])
    (ha : added.filter (fun r => q origin r.1) = []) : entryRows q (known, b') = [] := by
  have hf := h.filtered hq
  rw [hb, ha, List.append_nil, List.append_eq_nil_iff] at hf
  exact hf.2

theorem solo_retain {rest : OriginBuffers O T} (h : Solo q rest)
    (hb : entryRows q (origin, b) = [] ∨ bufferRows q rest = []) :
    Solo q (OriginBuffers.retain origin b rest) := by
  unfold OriginBuffers.retain
  split_ifs
  · exact h
  · refine List.pairwise_cons.mpr ⟨fun e he => ?_, h⟩
    exact hb.imp_right fun hr => bufferRows_eq_nil.mp hr e he

theorem Flushed.solo (h : Flushed config buffers buffers' out) (hs : Solo q buffers) :
    Solo q buffers' := by
  induction h with
  | nil => exact hs
  | @cons origin b b' rest rest' out more he hr ih =>
    obtain ⟨hhead, htail⟩ := List.pairwise_cons.mp hs
    refine solo_retain (ih htail) ?_
    by_cases hb : entryRows q (origin, b) = []
    · exact Or.inl (he.entryRows_nil rfl hb rfl)
    · have hnil : bufferRows q rest = [] :=
        bufferRows_eq_nil.mpr fun e hm => (hhead e hm).resolve_left hb
      have hc := hr.conserves htail
      rw [hnil, List.append_eq_nil_iff] at hc
      exact Or.inr hc.2

theorem Slot.solo_cases [BEq O] (h : Slot origin before known b after buffers) (hs : Solo q buffers)
    :
    entryRows q (known, b) = [] ∨ (bufferRows q before = [] ∧ bufferRows q after = []) := by
  cases h with
  | found hk =>
    rw [Solo, List.pairwise_append, List.pairwise_cons] at hs
    by_cases hb : entryRows q (known, b) = []
    · exact Or.inl hb
    · refine Or.inr ⟨bufferRows_eq_nil.mpr fun e he => ?_, bufferRows_eq_nil.mpr fun e he => ?_⟩
      · exact (hs.2.2 e he (known, b) List.mem_cons_self).resolve_right hb
      · exact (hs.2.1.1 e he).resolve_left hb
  | fresh hk hb ha =>
    subst hb
    exact Or.inl rfl

theorem Slot.solo_rest [BEq O] (h : Slot origin before known b after buffers) (hs : Solo q buffers)
    :
    Solo q (before ++ after) := by
  cases h with
  | found hk => exact List.Pairwise.sublist (by simp) hs
  | fresh hk hb ha =>
    subst ha
    simpa using hs

theorem solo_replace (hs : Solo q (before ++ after))
    (hc : entryRows q (known, b') = [] ∨ (bufferRows q before = [] ∧ bufferRows q after = [])) :
    Solo q (before ++ OriginBuffers.retain known b' after) := by
  obtain ⟨hbefore, hafter, hcross⟩ := List.pairwise_append.mp hs
  refine List.pairwise_append.mpr
    ⟨hbefore, solo_retain hafter (hc.imp_right And.right), fun e he x hx => ?_⟩
  unfold OriginBuffers.retain at hx
  split_ifs at hx
  · exact hcross e he x hx
  · rcases List.mem_cons.mp hx with rfl | hx
    · rcases hc with hb | hn
      · exact Or.inr hb
      · exact Or.inl (bufferRows_eq_nil.mp hn.1 e he)
    · exact hcross e he x hx

end Solo

/-- The rows of every ticket are in one entry and none of them is lost. -/
structure TicketRows (ops : List (Op O T)) (buffers : OriginBuffers O T)
    (emitted : List (Submission O T)) (t : Nat) : Prop where
  solo : Solo (byTicket t) buffers
  stream : emittedRows (byTicket t) emitted ++ bufferRows (byTicket t) buffers =
    ops.flatMap (Op.rows (byTicket t))

theorem TicketRows.flush (h : TicketRows ops buffers emitted t)
    (hf : Flushed config buffers buffers' out) {op : Op O T} (hop : op.rows (byTicket t) = []) :
    TicketRows (ops ++ [op]) buffers' (emitted ++ out) t where
  solo := hf.solo h.solo
  stream := by
    rw [emittedRows_append, List.append_assoc, hf.conserves h.solo, h.stream, List.flatMap_append]
    simp [hop]

section Run

variable [BEq O]

theorem TicketRows.push {s : Nat} (h : TicketRows ops buffers emitted t)
    (hslot : Slot origin before known b after buffers)
    (he : Emits config origin b b' (chunkRows s records) out) (hs : s ∉ tickets ops) :
    TicketRows (ops ++ [.push clock origin records s])
      (before ++ OriginBuffers.retain known b' after) (emitted ++ out) t := by
  have hadd := rows_byTicket_push clock origin records s t
  have hsep : (entryRows (byTicket t) (known, b) = [] ∧
      (Op.push clock origin records s).rows (byTicket t) = []) ∨
      (bufferRows (byTicket t) before = [] ∧ bufferRows (byTicket t) after = []) := by
    by_cases hst : s = t
    · subst hst
      have hnil := h.stream
      rw [rows_byTicket_fresh hs, List.append_eq_nil_iff, hslot.bufferRows_eq,
        List.append_eq_nil_iff, List.append_eq_nil_iff] at hnil
      exact Or.inr ⟨hnil.2.1, hnil.2.2.2⟩
    · rw [if_neg hst] at hadd
      exact (hslot.solo_cases h.solo).imp_left fun hb => ⟨hb, hadd⟩
  refine ⟨solo_replace (hslot.solo_rest h.solo) ?_, ?_⟩
  · exact hsep.imp_left fun hb => he.entryRows_nil rfl hb.1 hb.2
  · rw [emittedRows_append, List.append_assoc, push_conserves hslot he rfl hsep,
      ← List.append_assoc, h.stream, List.flatMap_append]
    simp [Op.rows]

theorem exec_ticketRows (config : InsertBatcherConfig) (ops : List (Op O T))
    (hd : (tickets ops).Nodup) :
    ∃ buffers emitted, exec config ops = some (buffers, emitted) ∧ buffers.Active config ∧
      ∀ t, TicketRows ops buffers emitted t := by
  obtain ⟨buffers, emitted, he, ha, hp⟩ := exec_induction config
    (fun ops buffers emitted => (tickets ops).Nodup → ∀ t, TicketRows ops buffers emitted t)
    (fun _ t => ⟨List.Pairwise.nil, rfl⟩) (fun ops buffers emitted op buffers' out ih _ happ hd t => by
      rw [tickets_append, List.nodup_append] at hd
      have hprev := ih hd.1 t
      cases happ with
      | push hs hb he =>
        exact hprev.push hs he fun hm => hd.2.2 _ hm _ List.mem_cons_self rfl
      | expired hf => exact hprev.flush hf rfl
      | all hf => exact hprev.flush hf rfl) ops
  exact ⟨buffers, emitted, he, ha, hp hd⟩

end Run

/-- The tickets a segment list gives to consecutive records. -/
def expand (segments : List RecordSegment) : List Nat :=
  segments.flatMap fun g => List.replicate g.records g.commitSeq

/-- The records that a segment list labels with the ticket. -/
def labelledWith (t : Nat) (segments : List RecordSegment) (records : List T) : List T :=
  (((expand segments).zip records).filter fun r => r.1 == t).map Prod.snd

def submittedWith (t : Nat) (emitted : List (Submission O T)) : List T :=
  emitted.flatMap fun s => labelledWith t s.segments s.records

def bufferedWith (t : Nat) (buffers : OriginBuffers O T) : List T :=
  buffers.flatMap fun e => labelledWith t (pending e.2.segments) e.2.batcher.buffer

/-- The number of records of the ticket that the segment queues still hold. -/
def remaining (t : Nat) (buffers : OriginBuffers O T) : Nat :=
  (buffers.map fun e => ((e.2.segments.filter fun s => s.1 == t).map Prod.snd).sum).sum

/-- The emitted segments of the ticket, in order, each with the records it covers. -/
def coversOf (t : Nat) (emitted : List (Submission O T)) : List (RecordSegment × List T) :=
  emitted.flatMap fun s => (covers s.segments s.records).filter fun c => c.1.commitSeq == t

theorem expand_eq (segments : List RecordSegment) :
    expand segments = (labelsOf segments).map Label.ticket := by
  rw [labelsOf, List.map_flatMap]
  exact List.flatMap_congr fun g _ => (RecordSegment.labels_map_ticket g).symm

theorem labelledWith_eq (t : Nat) (segments : List RecordSegment) (records : List T) :
    labelledWith t segments records =
      (((labelsOf segments).zip records).filter fun r => r.1.ticket == t).map Prod.snd := by
  rw [labelledWith, expand_eq, List.zip_map_left, List.filter_map, List.map_map]
  rfl

theorem map_snd_submittedWith (t : Nat) (emitted : List (Submission O T)) :
    (emittedRows (byTicket t) emitted).map Prod.snd = submittedWith t emitted := by
  rw [emittedRows, List.map_flatMap, submittedWith]
  exact List.flatMap_congr fun s _ => (labelledWith_eq t _ _).symm

theorem map_snd_bufferedWith (t : Nat) (buffers : OriginBuffers O T) :
    (bufferRows (byTicket t) buffers).map Prod.snd = bufferedWith t buffers := by
  rw [bufferRows, List.map_flatMap, bufferedWith]
  exact List.flatMap_congr fun e _ => (labelledWith_eq t _ _).symm

theorem length_bufferRows (h : buffers.Active config) (t : Nat) :
    (bufferRows (byTicket t) buffers).length = remaining t buffers := by
  rw [bufferRows, List.length_flatMap, remaining]
  congr 1
  refine List.map_congr_left fun e he => ?_
  have hlen := (h e he).1.length_eq
  have hfst : (entryRows (byTicket t) e).map Prod.fst =
      labelsOf ((pending e.2.segments).filter fun g => g.commitSeq == t) := by
    rw [← labelsOf_filter]
    conv_rhs => rw [← List.map_fst_zip hlen.le, List.filter_map]
    rfl
  rw [← List.length_map (f := Prod.fst), hfst, length_labelsOf, pending, List.filter_map,
    List.map_map]
  rfl

theorem filter_labels_zip (t : Nat) (c : RecordSegment × List T) :
    (c.1.labels.zip c.2).filter (fun r => r.1.ticket == t) =
      if c.1.commitSeq == t then c.1.labels.zip c.2 else [] := by
  have hticket : ∀ r ∈ c.1.labels.zip c.2, r.1.ticket = c.1.commitSeq := fun r hr =>
    RecordSegment.labels_ticket (List.of_mem_zip (a := r.1) (b := r.2) hr).1
  split_ifs with h
  · exact List.filter_eq_self.mpr fun r hr => by rw [hticket r hr, h]
  · exact List.filter_eq_nil_iff.mpr fun r hr => by rw [hticket r hr]; exact h

/-- The emitted rows of a ticket, segment by segment. -/
theorem emittedRows_covers (h : ∀ s ∈ emitted, ∃ origin, Labelled config origin s) (t : Nat) :
    emittedRows (byTicket t) emitted =
      (coversOf t emitted).flatMap fun c => c.1.labels.zip c.2 := by
  rw [emittedRows, coversOf, List.flatMap_assoc]
  refine List.flatMap_congr fun s hs => ?_
  obtain ⟨origin, hl⟩ := h s hs
  have hz := (zip_labelsOf s.segments s.records hl.length_eq).1
  simp only [rowsOf, byTicket, hz, List.filter_flatMap]
  generalize covers s.segments s.records = cs
  induction cs with
  | nil => rfl
  | cons c cs ih =>
    rw [List.flatMap_cons, ih, filter_labels_zip, List.filter_cons]
    split <;> simp

theorem mem_coversOf (h : ∀ s ∈ emitted, ∃ origin, Labelled config origin s)
    {c : RecordSegment × List T} (hc : c ∈ coversOf t emitted) :
    c.2.length = c.1.records ∧ 0 < c.1.records := by
  obtain ⟨s, hs, hc⟩ := List.mem_flatMap.mp hc
  obtain ⟨origin, hl⟩ := h s hs
  have hmem := (List.mem_filter.mp hc).1
  refine ⟨(zip_labelsOf s.segments s.records hl.length_eq).2 c hmem, hl.segments_pos c.1 ?_⟩
  have := List.mem_map_of_mem (f := Prod.fst) hmem
  rwa [covers_map_fst] at this

section Covers

variable {C : List (RecordSegment × List T)}

variable (h : ∀ c ∈ C, c.2.length = c.1.records ∧ 0 < c.1.records)
include h

theorem map_fst_flatMap_zip :
    (C.flatMap fun c => c.1.labels.zip c.2).map Prod.fst = labelsOf (C.map Prod.fst) := by
  rw [List.map_flatMap, labelsOf, List.flatMap_map]
  refine List.flatMap_congr fun c hc => List.map_fst_zip ?_
  rw [RecordSegment.length_labels, (h c hc).1]

theorem map_snd_flatMap_zip :
    (C.flatMap fun c => c.1.labels.zip c.2).map Prod.snd = C.flatMap Prod.snd := by
  rw [List.map_flatMap]
  refine List.flatMap_congr fun c hc => List.map_snd_zip ?_
  rw [RecordSegment.length_labels, (h c hc).1]

/-- Covers that spell out a chunk followed by `rest`: completeness is decided by
whether `rest` is empty. -/
theorem complete_covers {rest : List (Row T)}
    (he : (C.flatMap fun c => c.1.labels.zip c.2) ++ rest = chunkRows t records) :
    (records ≠ [] → rest = [] → ∃ init g run, C = init ++ [(g, run)] ∧ g.complete = true ∧
      run.getLast? = records.getLast? ∧ ∀ c ∈ init, c.1.complete = false) ∧
    (rest ≠ [] → ∀ c ∈ C, c.1.complete = false) := by
  have hfst := congrArg (List.map Prod.fst) he
  have hsnd := congrArg (List.map Prod.snd) he
  rw [List.map_append, map_fst_flatMap_zip h, chunkRows, List.map_fst_zip (by simp)] at hfst
  rw [List.map_append, map_snd_flatMap_zip h, map_snd_chunkRows] at hsnd
  have hpos : ∀ g ∈ C.map Prod.fst, 0 < g.records := by
    intro g hg
    obtain ⟨c, hc, rfl⟩ := List.mem_map.mp hg
    exact (h c hc).2
  constructor
  · rintro hne rfl
    rw [List.map_nil, List.append_nil] at hfst hsnd
    obtain ⟨init, g, hG, hg, hinit⟩ :=
      complete_of_labels_eq (List.length_pos_of_ne_nil hne).ne' hpos hfst
    obtain ⟨cs, c, hC, hcs, hcg⟩ : ∃ cs c, C = cs ++ [c] ∧ cs.map Prod.fst = init ∧ c.1 = g := by
      obtain ⟨xs, ys, hC, hxs, hys⟩ := List.map_eq_append_iff.mp hG
      obtain ⟨c, rfl, hc⟩ := List.map_eq_singleton_iff.mp hys
      exact ⟨xs, c, hC, hxs, hc⟩
    refine ⟨cs, g, c.2, by rw [hC, ← hcg], hg, ?_, fun x hx => hinit x.1 ?_⟩
    · have hrun := h c (by rw [hC]; simp)
      have hne' : c.2 ≠ [] := fun hnil => by
        rw [hnil, List.length_nil] at hrun
        omega
      rw [← hsnd, hC, List.flatMap_append, List.flatMap_cons, List.flatMap_nil, List.append_nil,
        List.getLast?_append_of_ne_nil _ hne']
    · rw [← hcs]
      exact List.mem_map_of_mem hx
  · intro hrest c hc
    obtain ⟨r, rs, rfl⟩ := List.exists_cons_of_ne_nil hrest
    rw [List.map_cons] at hfst
    exact not_complete_of_last hpos (last_of_labels_eq hfst) c.1 (List.mem_map_of_mem hc)

end Covers

theorem commitSeqs_new (origin : O) (records : List T) (segments : List RecordSegment) :
    (Submission.new origin records segments).commitSeqs.Pairwise (· < ·) ∧
      ∀ t, t ∈ (Submission.new origin records segments).commitSeqs ↔
        ∃ g ∈ segments, g.commitSeq = t := by
  constructor
  · have hsorted := (List.pairwise_insertionSort (· ≤ ·)
      (segments.map RecordSegment.commitSeq)).sublist (List.dedup_sublist _)
    exact hsorted.imp₂ (fun _ _ hle hne => lt_of_le_of_ne hle hne) (List.nodup_dedup _)
  · intro t
    simp [Submission.new, List.mem_dedup]

/-- **Segments label every record with the ticket of its chunk, and each chunk is
completed once, at its last record.** No run reaches the panic of `consume`. -/
theorem segments_label_and_close_tickets [BEq O] (config : InsertBatcherConfig)
    (ops : List (Op O T)) (hd : (tickets ops).Nodup) :
    ∃ buffers emitted, exec config ops = some (buffers, emitted) ∧
      (∀ s ∈ emitted, (expand s.segments).length = s.records.length ∧
        s.commitSeqs.Pairwise (· < ·) ∧
        ∀ t, t ∈ s.commitSeqs ↔ ∃ g ∈ s.segments, g.commitSeq = t) ∧
      ∀ clock origin records t, .push clock origin records t ∈ ops →
        submittedWith t emitted ++ bufferedWith t buffers = records ∧
        ((coversOf t emitted).map fun c => c.1.records).sum + remaining t buffers =
          records.length ∧
        (records ≠ [] → remaining t buffers = 0 → ∃ init g run,
          coversOf t emitted = init ++ [(g, run)] ∧ g.complete = true ∧
          run.getLast? = records.getLast? ∧ ∀ c ∈ init, c.1.complete = false) ∧
        (0 < remaining t buffers → ∀ c ∈ coversOf t emitted, c.1.complete = false) := by
  obtain ⟨buffers, emitted, he, ha, hrows⟩ := exec_ticketRows config ops hd
  have hl := (exec_labelled he).2
  refine ⟨buffers, emitted, he, fun s hs => ?_, fun clock origin records t hop => ?_⟩
  · obtain ⟨origin, h⟩ := hl s hs
    refine ⟨by rw [expand_eq, List.length_map, h.length_eq], ?_⟩
    rw [h.made]
    exact commitSeqs_new _ _ _
  · have hstream := (hrows t).stream
    rw [rows_byTicket_pushed hd hop] at hstream
    have hsnd := congrArg (List.map Prod.snd) hstream
    rw [List.map_append, map_snd_submittedWith, map_snd_bufferedWith, map_snd_chunkRows] at hsnd
    have hrem := length_bufferRows ha t
    rw [emittedRows_covers hl t] at hstream
    have hcov : ∀ c ∈ coversOf t emitted, c.2.length = c.1.records ∧ 0 < c.1.records :=
      fun c hc => mem_coversOf hl hc
    obtain ⟨hdone, hopen⟩ := complete_covers hcov hstream
    refine ⟨hsnd, ?_, fun hne hz => hdone hne ?_, fun hpos => hopen fun hnil => ?_⟩
    · have hlen := congrArg (fun l => (l.map Prod.snd).length) hstream
      simp only [List.map_append, map_snd_flatMap_zip hcov, map_snd_chunkRows, List.length_append,
        List.length_map, hrem, List.length_flatMap] at hlen
      rw [← hlen]
      congr 2
      exact List.map_congr_left fun c hc => (hcov c hc).1.symm
    · exact List.length_eq_zero_iff.mp (hrem.trans hz)
    · rw [hnil, List.length_nil] at hrem
      omega

/-- Three records of ticket 1 and one of ticket 2, cut into batches of two. -/
theorem segments_label_and_close_tickets_split :
    let ops : List (Op Nat Nat) :=
      [.push (fun _ => 0) 0 [10, 11, 12] 1, .push (fun _ => 0) 0 [13] 2, .flushAll]
    (tickets ops).Nodup ∧ ∃ buffers emitted, exec ⟨2, 10, by decide⟩ ops = some (buffers, emitted) ∧
      submittedWith 1 emitted ++ bufferedWith 1 buffers = [10, 11, 12] := by
  intro ops
  have hd : (tickets ops).Nodup := by decide
  obtain ⟨buffers, emitted, he, -, hops⟩ :=
    segments_label_and_close_tickets ⟨2, 10, by decide⟩ ops hd
  exact ⟨hd, buffers, emitted, he, (hops _ _ _ _ List.mem_cons_self).1⟩

end OtelSqlite.Storage
