import OtelSqlite.Storage.BatchRuns

/-!
# Batching conserves the records of each origin

Under an origin equality that is an equivalence, the buffers hold one entry per
origin, so the rows of an origin sit in one queue and leave it in order.
-/

namespace OtelSqlite.Storage

open OtelSqlite.Core OtelSqlite.Core.Batcher

variable {O T : Type}

theorem origins_retain (known : O) (b : OriginBuffer T) (rest : OriginBuffers O T) :
    ((OriginBuffers.retain known b rest).map Prod.fst).Sublist (known :: rest.map Prod.fst) := by
  unfold OriginBuffers.retain
  split_ifs
  · exact List.sublist_cons_self _ _
  · exact List.Sublist.refl _

section Origin

variable [BEq O] {config : InsertBatcherConfig} {buffers buffers' : OriginBuffers O T}
  {out : List (Submission O T)}

def byOrigin (o : O) : O → Label → Bool := fun origin _ => origin == o

def Op.pushedFor (o : O) : Op O T → List T
  | .push _ origin records _ => if origin == o then records else []
  | _ => []

def submittedFor (o : O) (emitted : List (Submission O T)) : List T :=
  (emitted.filter fun s => s.origin == o).flatMap LogWriteBatch.records

def bufferedFor (o : O) (buffers : OriginBuffers O T) : List T :=
  (buffers.filter fun e => e.1 == o).flatMap fun e => e.2.batcher.buffer

def DistinctOrigins (buffers : OriginBuffers O T) : Prop :=
  (buffers.map Prod.fst).Pairwise fun a b => (a == b) = false

theorem filter_byOrigin {o origin : O} (rows : List (Row T)) :
    rows.filter (fun r => byOrigin o origin r.1) = if origin == o then rows else [] := by
  cases h : origin == o <;> simp [byOrigin, h]

theorem map_snd_emittedRows (o : O) {emitted : List (Submission O T)}
    (h : ∀ s ∈ emitted, ∃ origin, Labelled config origin s) :
    (emittedRows (byOrigin o) emitted).map Prod.snd = submittedFor o emitted := by
  induction emitted with
  | nil => rfl
  | cons s emitted ih =>
    obtain ⟨origin, hs⟩ := h s List.mem_cons_self
    have htail := ih fun x hx => h x (List.mem_cons_of_mem _ hx)
    rw [emittedRows] at htail
    rw [emittedRows, List.flatMap_cons, List.map_append, htail, filter_byOrigin, submittedFor,
      submittedFor, List.filter_cons]
    split
    · rw [hs.map_snd_rowsOf, List.flatMap_cons]
    · rfl

theorem map_snd_bufferRows (o : O) (h : buffers.Active config) :
    (bufferRows (byOrigin o) buffers).map Prod.snd = bufferedFor o buffers := by
  induction buffers with
  | nil => rfl
  | cons e buffers ih =>
    have htail := ih fun x hx => h x (List.mem_cons_of_mem _ hx)
    rw [bufferRows_cons, List.map_append, htail, entryRows, filter_byOrigin, bufferedFor,
      bufferedFor, List.filter_cons]
    split
    · rw [(h e List.mem_cons_self).1.map_snd_rows, List.flatMap_cons]
    · rfl

theorem map_snd_opRows (o : O) (op : Op O T) :
    (op.rows (byOrigin o)).map Prod.snd = op.pushedFor o := by
  cases op with
  | push clock origin records commitSeq =>
    simp only [Op.rows, Op.pushedFor, filter_byOrigin]
    split
    · exact map_snd_chunkRows commitSeq records
    · rfl
  | flushExpired now | flushAll => rfl

theorem Applied.distinct {op : Op O T} (h : Applied config buffers op buffers' out)
    (hd : DistinctOrigins buffers) : DistinctOrigins buffers' := by
  cases h with
  | @push clock origin known records commitSeq before after b b' out hs hb he =>
    have hsub : ((before ++ OriginBuffers.retain known b' after).map Prod.fst).Sublist
        (before.map Prod.fst ++ known :: after.map Prod.fst) := by
      rw [List.map_append]
      exact (List.Sublist.refl _).append (origins_retain known b' after)
    refine List.Pairwise.sublist hsub ?_
    cases hs with
    | found hk => simpa [DistinctOrigins] using hd
    | fresh hk hnew hafter =>
      subst hk hafter
      rw [List.map_nil, List.pairwise_append]
      refine ⟨hd, List.pairwise_singleton _ _, fun x hx y hy => ?_⟩
      obtain ⟨e, hm, rfl⟩ := List.mem_map.mp hx
      rw [List.mem_singleton.mp hy]
      exact hb e hm
  | expired hf | all hf => exact List.Pairwise.sublist hf.origins hd

theorem entryRows_byOrigin {o : O} {e : O × OriginBuffer T} (h : (e.1 == o) = false) :
    entryRows (byOrigin o) e = [] := by
  rw [entryRows, filter_byOrigin, if_neg (by simp [h])]

variable [EquivBEq O]

theorem solo_byOrigin (h : DistinctOrigins buffers) (o : O) : Solo (byOrigin o) buffers := by
  refine (List.pairwise_map.mp h).imp fun {a b} hab => ?_
  by_cases ha : (a.1 == o) = true
  · refine Or.inr (entryRows_byOrigin (Bool.eq_false_iff.mpr fun hb => ?_))
    exact Bool.eq_false_iff.mp hab (BEq.trans ha (BEq.symm hb))
  · exact Or.inl (entryRows_byOrigin (Bool.eq_false_iff.mpr ha))

theorem Slot.separate {o origin known : O} {before after : OriginBuffers O T} {b : OriginBuffer T}
    (hs : Slot origin before known b after buffers) (hb : ∀ e ∈ before, (e.1 == origin) = false)
    (hd : DistinctOrigins buffers) (ho : (origin == o) = true) :
    bufferRows (byOrigin o) before = [] ∧ bufferRows (byOrigin o) after = [] := by
  refine ⟨bufferRows_eq_nil.mpr fun e he => entryRows_byOrigin ?_,
    bufferRows_eq_nil.mpr fun e he => entryRows_byOrigin ?_⟩
  · refine Bool.eq_false_iff.mpr fun hm => ?_
    exact Bool.eq_false_iff.mp (hb e he) (BEq.trans hm (BEq.symm ho))
  · cases hs with
    | found hk =>
      rw [DistinctOrigins, List.map_append, List.map_cons, List.pairwise_append,
        List.pairwise_cons] at hd
      have hne := hd.2.1.1 e.1 (List.mem_map_of_mem he)
      refine Bool.eq_false_iff.mpr fun hm => Bool.eq_false_iff.mp hne ?_
      exact BEq.trans (BEq.trans hk ho) (BEq.symm hm)
    | fresh hk hnew hafter =>
      subst hafter
      cases he

theorem Applied.conserves_origin {op : Op O T} (h : Applied config buffers op buffers' out)
    (hd : DistinctOrigins buffers) (o : O) :
    emittedRows (byOrigin o) out ++ bufferRows (byOrigin o) buffers' =
      bufferRows (byOrigin o) buffers ++ op.rows (byOrigin o) := by
  cases h with
  | @push clock origin known records commitSeq before after b b' out hs hb he =>
    have hk : (known == origin) = true := by
      cases hs with
      | found hk => exact hk
      | fresh hk => exact hk ▸ BEq.rfl
    have hq : byOrigin o known = byOrigin o origin :=
      funext fun _ => BEq.congr_left hk
    refine push_conserves hs he hq ?_
    by_cases ho : (origin == o) = true
    · exact Or.inr (hs.separate hb hd ho)
    · refine Or.inl ⟨?_, by rw [filter_byOrigin, if_neg ho]⟩
      rw [entryRows, hq, filter_byOrigin, if_neg ho]
  | expired hf | all hf => exact (hf.conserves (solo_byOrigin hd o)).trans (List.append_nil _).symm

theorem exec_conserves_origin (config : InsertBatcherConfig) (ops : List (Op O T)) :
    ∃ buffers emitted, exec config ops = some (buffers, emitted) ∧ buffers.Active config ∧
      DistinctOrigins buffers ∧ ∀ o,
        emittedRows (byOrigin o) emitted ++ bufferRows (byOrigin o) buffers =
          ops.flatMap (Op.rows (byOrigin o)) := by
  refine exec_induction config (fun ops buffers emitted => DistinctOrigins buffers ∧ ∀ o,
    emittedRows (byOrigin o) emitted ++ bufferRows (byOrigin o) buffers =
      ops.flatMap (Op.rows (byOrigin o))) ⟨List.Pairwise.nil, fun o => rfl⟩ ?_ ops
  rintro ops buffers emitted op buffers' out ⟨hd, hc⟩ - happ
  refine ⟨happ.distinct hd, fun o => ?_⟩
  rw [emittedRows_append, List.append_assoc, happ.conserves_origin hd o, ← List.append_assoc, hc o,
    List.flatMap_append]
  simp

/-- **Batching conserves the records of each origin.** -/
theorem batching_conserves_records (config : InsertBatcherConfig) (ops : List (Op O T)) :
    ∃ buffers emitted, exec config ops = some (buffers, emitted) ∧
      (∀ o, submittedFor o emitted ++ bufferedFor o buffers = ops.flatMap (Op.pushedFor o)) ∧
      (∀ s ∈ emitted, s.records ≠ [] ∧ s.records.length ≤ config.maxBatchRecords) ∧
      (∀ s ∈ emitted, ∀ r ∈ s.records, r ∈ ops.flatMap (Op.pushedFor s.origin)) ∧
      (buffers.Pairwise fun a b => (a.1 == b.1) = false) ∧
      ∀ e ∈ buffers, e.2.isEmpty = false ∧ e.2.batcher.buffer ≠ [] := by
  obtain ⟨buffers, emitted, he, ha, hd, hc⟩ := exec_conserves_origin config ops
  have hl := (exec_labelled he).2
  have hrecords : ∀ o, submittedFor o emitted ++ bufferedFor o buffers =
      ops.flatMap (Op.pushedFor o) := by
    intro o
    have hmap := congrArg (List.map Prod.snd) (hc o)
    rw [List.map_append, map_snd_emittedRows o hl, map_snd_bufferRows o ha, List.map_flatMap] at hmap
    rw [hmap]
    exact List.flatMap_congr fun op _ => map_snd_opRows o op
  refine ⟨buffers, emitted, he, hrecords, fun s hs => ?_, fun s hs r hr => ?_,
    List.pairwise_map.mp hd, fun e hm => ?_⟩
  · obtain ⟨origin, h⟩ := hl s hs
    exact ⟨h.nonempty, h.bounded⟩
  · rw [← hrecords s.origin]
    refine List.mem_append_left _ (List.mem_flatMap.mpr ⟨s, ?_, hr⟩)
    exact List.mem_filter.mpr ⟨hs, BEq.rfl⟩
  · obtain ⟨hal, hne⟩ := ha e hm
    refine ⟨hne, fun hb => ?_⟩
    rw [hal.isEmpty_iff.mpr hb] at hne
    cases hne

/-- Three records of one origin in batches of two. -/
theorem batching_conserves_records_pair :
    ∃ buffers emitted,
      exec ⟨2, 10, by decide⟩ ([.push (fun _ => 0) 7 [1, 2, 3] 1, .flushAll] : List (Op Nat Nat)) =
        some (buffers, emitted) ∧
      submittedFor 7 emitted ++ bufferedFor 7 buffers = [1, 2, 3] := by
  obtain ⟨buffers, emitted, he, hc, -⟩ := batching_conserves_records ⟨2, 10, by decide⟩
    ([.push (fun _ => 0) 7 [1, 2, 3] 1, .flushAll] : List (Op Nat Nat))
  exact ⟨buffers, emitted, he, hc 7⟩

end Origin

end OtelSqlite.Storage
