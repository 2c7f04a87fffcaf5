import OtelSqlite.Storage.OriginBuffers

/-!
# Origin buffers as queues of rows

`Emits` is what every operation does to one origin buffer: the emitted rows
followed by the rows kept are the rows it had followed by the rows added, and
each submission is labelled record by record. The list of buffers adds which
entry takes a chunk (`push_split`) and that a flush goes through all of them.
-/

namespace OtelSqlite.Storage

open OtelSqlite.Core OtelSqlite.Core.Batcher

variable {O T : Type} {config : InsertBatcherConfig} {origin : O} {b b' : OriginBuffer T}
  {out : List (Submission O T)} {flushOne : InsertBatcher T → InsertBatcher T × Option (List T)}
  {buffers rest buffers' : OriginBuffers O T} {s : Submission O T}

/-- A submission built by the driver: labelled one for one, not empty and not too large. -/
structure Labelled (config : InsertBatcherConfig) (origin : O) (s : Submission O T) : Prop where
  made : s = Submission.new origin s.records s.segments
  length_eq : (labelsOf s.segments).length = s.records.length
  segments_pos : ∀ g ∈ s.segments, 0 < g.records
  nonempty : s.records ≠ []
  bounded : s.records.length ≤ config.maxBatchRecords

theorem Labelled.origin_eq (h : Labelled config origin s) :
    s.origin = origin := congrArg LogWriteBatch.origin h.made

theorem Labelled.map_snd_rowsOf (h : Labelled config origin s) :
    (rowsOf s).map Prod.snd = s.records :=
  List.map_snd_zip h.length_eq.ge

theorem Labelled.map_fst_rowsOf (h : Labelled config origin s) :
    (rowsOf s).map Prod.fst = labelsOf s.segments :=
  List.map_fst_zip h.length_eq.le

namespace OriginBuffer

/-- The segment queue covers the record buffer exactly. -/
structure Aligned (config : InsertBatcherConfig) (b : OriginBuffer T) : Prop where
  valid : b.batcher.Valid config
  segments_pos : ∀ s ∈ b.segments, 0 < s.2
  length_eq : (labelsOf (pending b.segments)).length = b.batcher.buffer.length

theorem aligned_new (config : InsertBatcherConfig) : (new : OriginBuffer T).Aligned config :=
  ⟨InsertBatcher.valid_new config, by simp [new], rfl⟩

theorem rows_new : (new : OriginBuffer T).rows = [] := rfl

theorem Aligned.map_snd_rows (h : b.Aligned config) : b.rows.map Prod.snd = b.batcher.buffer :=
  List.map_snd_zip h.length_eq.ge

theorem Aligned.isEmpty_iff (h : b.Aligned config) : b.isEmpty = true ↔ b.batcher.buffer = [] := by
  simp only [isEmpty, Bool.and_eq_true, InsertBatcher.isEmpty_iff, List.isEmpty_iff]
  refine ⟨And.left, fun hb => ⟨hb, ?_⟩⟩
  have hlen := h.length_eq
  rw [hb, List.length_nil, List.length_eq_zero_iff] at hlen
  cases hs : b.segments with
  | nil => rfl
  | cons s ss =>
    have hpos := h.segments_pos s (by simp [hs])
    have hz : (RecordSegment.labels ⟨s.1, s.2, true⟩).length = 0 := by
      rw [hs] at hlen
      simp only [pending, List.map_cons, labelsOf_cons, List.append_eq_nil_iff] at hlen
      rw [hlen.1]
      rfl
    rw [RecordSegment.length_labels] at hz
    exact absurd hz hpos.ne'

theorem Aligned.rows_eq_nil (h : b.Aligned config) (he : b.isEmpty = true) : b.rows = [] := by
  rw [rows, h.isEmpty_iff.mp he, List.zip_nil_right]

end OriginBuffer

/-- One operation on one buffer, which adds the rows `added`. -/
structure Emits (config : InsertBatcherConfig) (origin : O) (b b' : OriginBuffer T)
    (added : List (Row T)) (out : List (Submission O T)) : Prop where
  aligned : b'.Aligned config
  stream : out.flatMap rowsOf ++ b'.rows = b.rows ++ added
  labelled : ∀ s ∈ out, Labelled config origin s

theorem submit_spec (config : InsertBatcherConfig) (origin : O) (batches : List (List T)) :
    ∀ segments : List (Nat × Nat), (∀ s ∈ segments, 0 < s.2) →
      batches.flatten.length ≤ (labelsOf (pending segments)).length →
      (∀ batch ∈ batches, batch ≠ [] ∧ batch.length ≤ config.maxBatchRecords) →
      ∃ out rest, OriginBuffer.submit origin segments batches = some (out, rest) ∧
        (∀ s ∈ rest, 0 < s.2) ∧ (∀ s ∈ out, Labelled config origin s) ∧
        batches.flatten.length + (labelsOf (pending rest)).length =
          (labelsOf (pending segments)).length ∧
        ∀ records, (labelsOf (pending rest)).length = records.length →
          out.flatMap rowsOf ++ (labelsOf (pending rest)).zip records =
            (labelsOf (pending segments)).zip (batches.flatten ++ records) := by
  induction batches with
  | nil =>
    intro segments hpos _ _
    exact ⟨[], segments, rfl, hpos, by simp, by simp, fun _ _ => rfl⟩
  | cons batch batches ih =>
    intro segments hpos hlen hb
    rw [List.flatten_cons, List.length_append] at hlen
    obtain ⟨segs, mid, hc, hsplit, hcount, hsegs, hmid⟩ :=
      consume_spec segments batch.length hpos (by omega)
    have hsum := congrArg List.length hsplit
    rw [List.length_append] at hsum
    obtain ⟨out, rest, hs, hrest, hout, htotal, hrows⟩ :=
      ih mid hmid (by omega) fun x hx => hb x (List.mem_cons_of_mem _ hx)
    have hfirst : Labelled config origin (Submission.new origin batch segs) :=
      ⟨rfl, hcount, hsegs, (hb batch List.mem_cons_self).1, (hb batch List.mem_cons_self).2⟩
    refine ⟨Submission.new origin batch segs :: out, rest, ?_, hrest, ?_, ?_, ?_⟩
    · simp only [OriginBuffer.submit, hc, hs, Option.bind_eq_bind, Option.bind_some]
    · intro s hm
      rcases List.mem_cons.mp hm with rfl | hm
      · exact hfirst
      · exact hout s hm
    · rw [List.flatten_cons, List.length_append]
      omega
    · intro records hr
      rw [List.flatMap_cons, List.append_assoc, hrows records hr, List.flatten_cons,
        List.append_assoc, ← hsplit, List.zip_append hcount]
      rfl

namespace OriginBuffer

theorem push_emits (clock : Nat → Nat) (origin : O) (records : List T) (commitSeq : Nat)
    (h : b.Aligned config) :
    ∃ b' out, b.push config clock origin records commitSeq = some (b', out) ∧
      Emits config origin b b' (chunkRows commitSeq records) out := by
  have hspec := InsertBatcher.push_spec config clock records h.valid
  set segments := if records.isEmpty then b.segments
    else b.segments ++ [(commitSeq, records.length)] with hsegments
  have hlabels : labelsOf (pending segments) =
      labelsOf (pending b.segments) ++ RecordSegment.labels ⟨commitSeq, records.length, true⟩ := by
    cases records with
    | nil => simp [hsegments, RecordSegment.labels]
    | cons r rs => simp [hsegments, pending]
  have hpos : ∀ s ∈ segments, 0 < s.2 := by
    cases records with
    | nil => simpa [hsegments] using h.segments_pos
    | cons r rs =>
      intro s hs
      simp only [hsegments, List.isEmpty_cons, Bool.false_eq_true, if_false, List.mem_append,
        List.mem_singleton] at hs
      rcases hs with hs | rfl
      · exact h.segments_pos s hs
      · simp
  have hlen : (labelsOf (pending segments)).length = b.batcher.buffer.length + records.length := by
    rw [hlabels, List.length_append, h.length_eq, RecordSegment.length_labels]
  have htotal := congrArg List.length hspec.stream
  simp only [List.length_append] at htotal
  obtain ⟨out, rest, hs, hrest, hout, hsum, hrows⟩ :=
    submit_spec config origin (b.batcher.push config clock records).2 segments hpos
      (by rw [hlen]; omega) (fun batch hb => by
        have hfull := hspec.full batch hb
        refine ⟨fun he => ?_, hfull.le⟩
        rw [he, List.length_nil] at hfull
        exact absurd hfull config.pos.ne)
  refine ⟨⟨rest, (b.batcher.push config clock records).1⟩, out, ?_, ⟨hspec.valid, hrest, ?_⟩, ?_,
    hout⟩
  · simp only [push, ← hsegments, hs, Option.bind_eq_bind, Option.bind_some]
  · change (labelsOf (pending rest)).length = (b.batcher.push config clock records).1.buffer.length
    omega
  · change out.flatMap rowsOf ++
      (labelsOf (pending rest)).zip (b.batcher.push config clock records).1.buffer = _
    rw [hrows _ (by omega), hspec.stream, hlabels, List.zip_append h.length_eq]
    rfl

theorem batcher_push {clock : Nat → Nat} {records : List T} {commitSeq : Nat}
    (h : b.push config clock origin records commitSeq = some (b', out)) :
    b'.batcher = (b.batcher.push config clock records).1 := by
  simp only [push, Option.bind_eq_bind, Option.bind_eq_some_iff, Option.some.injEq,
    Prod.mk.injEq] at h
  obtain ⟨_, _, rfl, _⟩ := h
  rfl

/-- What a flush may do to a batcher: nothing, or hand over the whole buffer. -/
def FlushesWhole (flushOne : InsertBatcher T → InsertBatcher T × Option (List T)) : Prop :=
  ∀ b, flushOne b = (b, none) ∨ flushOne b = (⟨[], none⟩, some b.buffer) ∧ b.buffer ≠ []

theorem flushWith_emits (hf : FlushesWhole flushOne) (origin : O) (h : b.Aligned config) :
    ∃ b' out, b.flushWith flushOne origin = some (b', out) ∧ Emits config origin b b' [] out := by
  rcases hf b.batcher with he | ⟨he, hne⟩
  · refine ⟨b, [], by simp only [flushWith, he], h, by simp, by simp⟩
  · obtain ⟨segs, rest, hc, hsplit, hcount, hsegs, hrest⟩ :=
      consume_spec b.segments b.batcher.buffer.length h.segments_pos h.length_eq.ge
    have hempty : labelsOf (pending rest) = [] := by
      have hsum := congrArg List.length hsplit
      rw [List.length_append, h.length_eq] at hsum
      exact List.length_eq_zero_iff.mp (by omega)
    refine ⟨⟨rest, ⟨[], none⟩⟩, [Submission.new origin b.batcher.buffer segs], ?_,
      ⟨InsertBatcher.valid_new config, hrest, by rw [hempty]; rfl⟩, ?_, ?_⟩
    · simp only [flushWith, he, hc, Option.bind_eq_bind, Option.bind_some]
    · rw [hempty, List.append_nil] at hsplit
      simp only [List.flatMap_cons, List.flatMap_nil, List.append_nil, rows, List.zip_nil_right]
      rw [← hsplit]
      rfl
    · intro s hs
      rw [List.mem_singleton.mp hs]
      exact ⟨rfl, hcount, hsegs, hne, h.valid.room.le⟩

end OriginBuffer

/-- Where a chunk goes: `(known, b)` between `before` and `after` takes it, as the
first match or as a new entry at the end. -/
inductive Slot [BEq O] (origin : O) (before : OriginBuffers O T) (known : O) (b : OriginBuffer T)
    (after : OriginBuffers O T) : OriginBuffers O T → Prop
  | found : (known == origin) = true →
      Slot origin before known b after (before ++ (known, b) :: after)
  | fresh : known = origin → b = OriginBuffer.new → after = [] →
      Slot origin before known b after before

def OriginBuffers.Active (config : InsertBatcherConfig) (buffers : OriginBuffers O T) : Prop :=
  ∀ e ∈ buffers, e.2.Aligned config ∧ e.2.isEmpty = false

theorem OriginBuffers.Active.buffer_ne_nil (h : buffers.Active config) {e : O × OriginBuffer T}
    (he : e ∈ buffers) : e.2.batcher.buffer ≠ [] := by
  obtain ⟨halign, hne⟩ := h e he
  intro hnil
  rw [halign.isEmpty_iff.mpr hnil] at hne
  exact absurd hne (by decide)

theorem active_retain (hb : b.Aligned config) (h : rest.Active config) :
    (OriginBuffers.retain origin b rest).Active config := by
  unfold OriginBuffers.retain
  split_ifs with he
  · exact h
  · intro e hm
    rcases List.mem_cons.mp hm with rfl | hm
    · exact ⟨hb, Bool.eq_false_iff.mpr he⟩
    · exact h e hm

theorem push_split [BEq O] (clock : Nat → Nat) (origin : O) (records : List T) (commitSeq : Nat)
    (h : buffers.Active config) :
    ∃ before known b after b' out,
      Slot origin before known b after buffers ∧ (∀ e ∈ before, (e.1 == origin) = false) ∧
      Emits config origin b b' (chunkRows commitSeq records) out ∧
      buffers.push config clock origin records commitSeq =
        some (before ++ OriginBuffers.retain known b' after, out) ∧
      b'.batcher = (b.batcher.push config clock records).1 := by
  induction buffers with
  | nil =>
    obtain ⟨b', out, hp, he⟩ :=
      OriginBuffer.push_emits clock origin records commitSeq (OriginBuffer.aligned_new config)
    refine ⟨[], origin, OriginBuffer.new, [], b', out, .fresh rfl rfl rfl, by simp, he, ?_,
      OriginBuffer.batcher_push hp⟩
    simp only [OriginBuffers.push, hp, Option.bind_eq_bind, Option.bind_some, List.nil_append]
  | cons e rest ih =>
    obtain ⟨known, b⟩ := e
    by_cases hk : (known == origin) = true
    · obtain ⟨b', out, hp, he⟩ :=
        OriginBuffer.push_emits clock origin records commitSeq (h (known, b) List.mem_cons_self).1
      refine ⟨[], known, b, rest, b', out, .found hk, by simp, he, ?_, OriginBuffer.batcher_push hp⟩
      simp only [OriginBuffers.push, if_pos hk, hp, Option.bind_eq_bind, Option.bind_some,
        List.nil_append]
    · obtain ⟨before, k, b₀, after, b', out, hslot, hbefore, he, hp, hbatcher⟩ :=
        ih fun e he => h e (List.mem_cons_of_mem _ he)
      refine ⟨(known, b) :: before, k, b₀, after, b', out, ?_, ?_, he, ?_, hbatcher⟩
      · cases hslot with
        | found hm => exact .found hm
        | fresh h1 h2 h3 => exact .fresh h1 h2 h3
      · intro e hm
        rcases List.mem_cons.mp hm with rfl | hm
        · exact Bool.eq_false_iff.mpr hk
        · exact hbefore e hm
      · simp only [OriginBuffers.push, if_neg hk, hp, Option.bind_eq_bind, Option.bind_some,
          List.cons_append]

/-- A flush goes through the buffers in order and drops the ones it drains. -/
inductive Flushed (config : InsertBatcherConfig) :
    OriginBuffers O T → OriginBuffers O T → List (Submission O T) → Prop
  | nil : Flushed config [] [] []
  | cons {origin : O} {b b' : OriginBuffer T} {rest rest' : OriginBuffers O T}
      {out more : List (Submission O T)} : Emits config origin b b' [] out →
      Flushed config rest rest' more →
      Flushed config ((origin, b) :: rest) (OriginBuffers.retain origin b' rest') (out ++ more)

theorem flushWith_flushed (hf : OriginBuffer.FlushesWhole flushOne) (h : buffers.Active config) :
    ∃ buffers' out, buffers.flushWith flushOne = some (buffers', out) ∧
      Flushed config buffers buffers' out := by
  induction buffers with
  | nil => exact ⟨[], [], rfl, .nil⟩
  | cons e rest ih =>
    obtain ⟨origin, b⟩ := e
    obtain ⟨b', out, hb, he⟩ :=
      OriginBuffer.flushWith_emits hf origin (h (origin, b) List.mem_cons_self).1
    obtain ⟨rest', more, hr, hm⟩ := ih fun e he => h e (List.mem_cons_of_mem _ he)
    refine ⟨_, _, ?_, .cons he hm⟩
    simp only [OriginBuffers.flushWith, hb, hr, Option.bind_eq_bind, Option.bind_some]

/-- A flush leaves exactly the entries whose buffer it did not take, unchanged. -/
theorem flushWith_filter (hf : OriginBuffer.FlushesWhole flushOne) (h : buffers.Active config) :
    ∃ out, buffers.flushWith flushOne =
      some (buffers.filter fun e => (flushOne e.2.batcher).2.isNone, out) := by
  induction buffers with
  | nil => exact ⟨[], rfl⟩
  | cons e rest ih =>
    obtain ⟨origin, b⟩ := e
    obtain ⟨halign, hne⟩ := h (origin, b) List.mem_cons_self
    obtain ⟨more, hr⟩ := ih fun e he => h e (List.mem_cons_of_mem _ he)
    obtain ⟨b', out, hb, he⟩ := OriginBuffer.flushWith_emits hf origin halign
    refine ⟨out ++ more, ?_⟩
    simp only [OriginBuffers.flushWith, hb, hr, Option.bind_eq_bind, Option.bind_some,
      List.filter_cons, OriginBuffers.retain]
    rcases hf b.batcher with hk | ⟨hk, -⟩
    · simp only [OriginBuffer.flushWith, hk, Option.some.injEq, Prod.mk.injEq] at hb
      simp [hk, ← hb.1, hne]
    · have hempty : b'.batcher.buffer = [] := by
        simp only [OriginBuffer.flushWith, hk, Option.bind_eq_bind, Option.bind_eq_some_iff,
          Option.some.injEq, Prod.mk.injEq] at hb
        obtain ⟨_, _, rfl, -⟩ := hb
        rfl
      simp [hk, he.aligned.isEmpty_iff.mpr hempty]

section

variable (h : Flushed config buffers buffers' out)
include h

theorem Flushed.active : buffers'.Active config := by
  induction h with
  | nil => intro e he; cases he
  | cons he _ ih => exact active_retain he.aligned ih

theorem Flushed.labelled : ∀ s ∈ out, ∃ origin, Labelled config origin s := by
  induction h with
  | nil => intro s hs; cases hs
  | cons he _ ih =>
    intro s hs
    rcases List.mem_append.mp hs with hs | hs
    · exact ⟨_, he.labelled s hs⟩
    · exact ih s hs

/-- The entries a flush leaves are entries it found, in the same order. -/
theorem Flushed.origins : (buffers'.map Prod.fst).Sublist (buffers.map Prod.fst) := by
  induction h with
  | nil => exact List.Sublist.refl _
  | cons he _ ih =>
    unfold OriginBuffers.retain
    split_ifs
    · exact ih.cons _
    · exact ih.cons_cons _

end

section Filtered

variable (q : O → Label → Bool)

/-- The rows of an entry that `q` selects by its origin and their labels. -/
def entryRows (e : O × OriginBuffer T) : List (Row T) := e.2.rows.filter fun r => q e.1 r.1

def bufferRows (buffers : OriginBuffers O T) : List (Row T) := buffers.flatMap (entryRows q)

def emittedRows (out : List (Submission O T)) : List (Row T) :=
  out.flatMap fun s => (rowsOf s).filter fun r => q s.origin r.1

/-- The selected rows sit in one entry, so their order is that entry's order. -/
def Solo (buffers : OriginBuffers O T) : Prop :=
  buffers.Pairwise fun a b => entryRows q a = [] ∨ entryRows q b = []

@[simp] theorem bufferRows_nil : bufferRows q ([] : OriginBuffers O T) = [] := rfl

@[simp] theorem bufferRows_cons (e : O × OriginBuffer T) (rest : OriginBuffers O T) :
    bufferRows q (e :: rest) = entryRows q e ++ bufferRows q rest := rfl

@[simp] theorem bufferRows_append (xs ys : OriginBuffers O T) :
    bufferRows q (xs ++ ys) = bufferRows q xs ++ bufferRows q ys := List.flatMap_append

@[simp] theorem emittedRows_append (xs ys : List (Submission O T)) :
    emittedRows q (xs ++ ys) = emittedRows q xs ++ emittedRows q ys := List.flatMap_append

variable {q} {known : O} {added : List (Row T)} {before after : OriginBuffers O T}

theorem bufferRows_eq_nil :
    bufferRows q buffers = [] ↔ ∀ e ∈ buffers, entryRows q e = [] := List.flatMap_eq_nil_iff

theorem bufferRows_retain (h : b.Aligned config) :
    bufferRows q (OriginBuffers.retain origin b rest) =
      entryRows q (origin, b) ++ bufferRows q rest := by
  unfold OriginBuffers.retain
  by_cases he : b.isEmpty = true
  · rw [if_pos he, entryRows, h.rows_eq_nil he]
    rfl
  · rw [if_neg he]
    rfl

/-- The row equation of one buffer, for the selected rows. -/
theorem Emits.filtered (h : Emits config origin b b' added out) (hq : q known = q origin) :
    emittedRows q out ++ entryRows q (known, b') =
      entryRows q (known, b) ++ added.filter fun r => q origin r.1 := by
  have hout : emittedRows q out = (out.flatMap rowsOf).filter fun r => q origin r.1 := by
    rw [List.filter_flatMap, emittedRows]
    refine List.flatMap_congr fun s hs => ?_
    rw [(h.labelled s hs).origin_eq]
  simp only [entryRows, hq, hout]
  rw [← List.filter_append, h.stream, List.filter_append]

theorem Slot.bufferRows_eq [BEq O] (h : Slot origin before known b after buffers) :
    bufferRows q buffers =
      bufferRows q before ++ (entryRows q (known, b) ++ bufferRows q after) := by
  cases h with
  | found => simp
  | fresh hk hb ha =>
    subst hb ha
    simp [entryRows, OriginBuffer.rows_new]

/-- A push keeps the stream of the selected rows, provided they are not spread
over the taking entry and another one. -/
theorem push_conserves [BEq O] (hslot : Slot origin before known b after buffers)
    (he : Emits config origin b b' added out) (hq : q known = q origin)
    (hsolo : (entryRows q (known, b) = [] ∧ added.filter (fun r => q origin r.1) = []) ∨
      (bufferRows q before = [] ∧ bufferRows q after = [])) :
    emittedRows q out ++ bufferRows q (before ++ OriginBuffers.retain known b' after) =
      bufferRows q buffers ++ added.filter fun r => q origin r.1 := by
  have hf := he.filtered hq
  rw [hslot.bufferRows_eq, bufferRows_append, bufferRows_retain he.aligned]
  rcases hsolo with ⟨hb, ha⟩ | ⟨hb, ha⟩
  · rw [hb, ha, List.append_nil, List.append_eq_nil_iff] at hf
    rw [hb, ha, hf.1, hf.2]
    simp
  · rw [hb, ha]
    simpa using hf

theorem Flushed.conserves (h : Flushed config buffers buffers' out) (hsolo : Solo q buffers) :
    emittedRows q out ++ bufferRows q buffers' = bufferRows q buffers := by
  induction h with
  | nil => rfl
  | @cons origin b b' rest rest' out more he hr ih =>
    obtain ⟨hhead, htail⟩ := List.pairwise_cons.mp hsolo
    have hf := he.filtered (q := q) rfl
    have hrest := ih htail
    rw [List.filter_nil, List.append_nil] at hf
    rw [emittedRows_append, bufferRows_retain he.aligned, bufferRows_cons]
    by_cases hb : entryRows q (origin, b) = []
    · rw [hb, List.append_eq_nil_iff] at hf
      rw [hf.1, hf.2, hb]
      simpa using hrest
    · have hnil : bufferRows q rest = [] :=
        bufferRows_eq_nil.mpr fun e hm => (hhead e hm).resolve_left hb
      rw [hnil, List.append_eq_nil_iff] at hrest
      rw [hrest.1, hrest.2, hnil]
      simpa using hf

end Filtered

end OtelSqlite.Storage
