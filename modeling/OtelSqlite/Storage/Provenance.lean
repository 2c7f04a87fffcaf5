import OtelSqlite.Storage.Books

/-!
# The origin a record is written under

A buffer keeps the origin of the chunk that opened it, and a batch has the origin of the
chunk that filled it. The derived equality of origins is symmetric and transitive, but it is
not reflexive: an attribute may be a NaN. So a batch's origin is the one of each record's
chunk, or one the buffers do not tell from it.
-/

namespace OtelSqlite.Storage

open OtelSqlite.Core OtelSqlite.Core.Batcher

variable {O T : Type} {config : InsertBatcherConfig} {out : List (Submission O T)}
  {ops : List (Op O T)} {buffers buffers' : OriginBuffers O T}

theorem mem_retain {known : O} {b : OriginBuffer T} {rest : OriginBuffers O T}
    {e : O × OriginBuffer T} (h : e ∈ OriginBuffers.retain known b rest) :
    e = (known, b) ∨ e ∈ rest := by
  unfold OriginBuffers.retain at h
  split_ifs at h
  · exact .inr h
  · exact List.mem_cons.mp h

/-- What one buffer emits and keeps was in it or is added. -/
theorem Emits.mem_or {origin : O} {b b' : OriginBuffer T} {added : List (Row T)}
    (h : Emits config origin b b' added out) {r : Row T}
    (hr : (∃ s ∈ out, r ∈ rowsOf s) ∨ r ∈ b'.rows) : r ∈ b.rows ∨ r ∈ added := by
  rw [← List.mem_append, ← h.stream, List.mem_append, List.mem_flatMap]
  exact hr

variable [BEq O]

/-- The origins are the same, or the buffers take them for the same. -/
def SameOrigin (o o' : O) : Prop := o = o' ∨ (o == o') = true

/-- A push with this record and an origin like `o` is among the operations. -/
def PushedAs (ops : List (Op O T)) (o : O) (record : T) : Prop :=
  ∃ clock origin records commitSeq, .push clock origin records commitSeq ∈ ops ∧
    record ∈ records ∧ SameOrigin origin o

theorem PushedAs.concat {o : O} {record : T} (h : PushedAs ops o record) (op : Op O T) :
    PushedAs (ops ++ [op]) o record := by
  obtain ⟨clock, origin, records, commitSeq, hop, hrecord, hsame⟩ := h
  exact ⟨clock, origin, records, commitSeq, List.mem_append_left _ hop, hrecord, hsame⟩

/-- Every row of an entry or a submission was pushed with its origin. -/
structure Provenance (ops : List (Op O T)) (buffers : OriginBuffers O T)
    (emitted : List (Submission O T)) : Prop where
  buffered : ∀ e ∈ buffers, ∀ r ∈ e.2.rows, PushedAs ops e.1 r.2
  emitted : ∀ s ∈ emitted, ∀ r ∈ rowsOf s, PushedAs ops s.origin r.2

theorem Flushed.provenance (h : Flushed config buffers buffers' out)
    (hold : ∀ e ∈ buffers, ∀ r ∈ e.2.rows, PushedAs ops e.1 r.2) : Provenance ops buffers' out := by
  induction h with
  | nil => exact ⟨fun e he => absurd he List.not_mem_nil, fun s hs => absurd hs List.not_mem_nil⟩
  | @cons origin b b' rest rest' out more hemits hflushed ih =>
    have hrest := ih fun e he => hold e (List.mem_cons_of_mem _ he)
    have hfrom : ∀ r, (∃ s ∈ out, r ∈ rowsOf s) ∨ r ∈ b'.rows → PushedAs ops origin r.2 := by
      intro r hr
      rcases hemits.mem_or hr with hr | hr
      · exact hold (origin, b) List.mem_cons_self r hr
      · cases hr
    refine ⟨fun e he r hr => ?_, fun s hs r hr => ?_⟩
    · rcases mem_retain he with rfl | he
      · exact hfrom r (.inr hr)
      · exact hrest.buffered e he r hr
    · rcases List.mem_append.mp hs with hs | hs
      · rw [(hemits.labelled s hs).origin_eq]
        exact hfrom r (.inl ⟨s, hs, hr⟩)
      · exact hrest.emitted s hs r hr

variable [PartialEquivBEq O]

omit [PartialEquivBEq O] in
theorem SameOrigin.refl (o : O) : SameOrigin o o := .inl rfl

theorem SameOrigin.symm {o o' : O} (h : SameOrigin o o') : SameOrigin o' o := by
  rcases h with rfl | h
  · exact .refl o
  · exact .inr (BEq.symm h)

theorem SameOrigin.trans {o o' o'' : O} (h : SameOrigin o o') (h' : SameOrigin o' o'') :
    SameOrigin o o'' := by
  rcases h with rfl | h
  · exact h'
  rcases h' with rfl | h'
  · exact .inr h
  · exact .inr (BEq.trans h h')

theorem PushedAs.same {o o' : O} {record : T} (h : PushedAs ops o record) (hsame : SameOrigin o o') :
    PushedAs ops o' record := by
  obtain ⟨clock, origin, records, commitSeq, hop, hrecord, horigin⟩ := h
  exact ⟨clock, origin, records, commitSeq, hop, hrecord, horigin.trans hsame⟩

theorem Applied.provenance {emitted : List (Submission O T)} {op : Op O T}
    (h : Applied config buffers op buffers' out) (hold : Provenance ops buffers emitted) :
    Provenance (ops ++ [op]) buffers' (emitted ++ out) := by
  have hkept : ∀ s ∈ emitted, ∀ r ∈ rowsOf s, PushedAs (ops ++ [op]) s.origin r.2 :=
    fun s hs r hr => (hold.emitted s hs r hr).concat op
  have hbuffered : ∀ e ∈ buffers, ∀ r ∈ e.2.rows, PushedAs (ops ++ [op]) e.1 r.2 :=
    fun e he r hr => (hold.buffered e he r hr).concat op
  -- it is enough to look at the new submissions and the new buffers
  suffices hnew : Provenance (ops ++ [op]) buffers' out by
    refine ⟨hnew.buffered, fun s hs => ?_⟩
    rcases List.mem_append.mp hs with hs | hs
    · exact hkept s hs
    · exact hnew.emitted s hs
  cases h with
  | expired hflushed | all hflushed => exact hflushed.provenance hbuffered
  | @push clock origin known records commitSeq before after b b' out hslot hbefore hemits =>
    have hknown : SameOrigin known origin := by
      cases hslot with
      | found hk => exact .inr hk
      | fresh hk => exact .inl hk
    have hother : ∀ e, e ∈ before ∨ e ∈ after → e ∈ buffers := by
      intro e he
      cases hslot with
      | found => simp only [List.mem_append, List.mem_cons]; tauto
      | fresh _ _ hafter =>
        subst hafter
        simpa using he
    have hrows : ∀ r ∈ b.rows, PushedAs (ops ++ [.push clock origin records commitSeq]) known r.2 := by
      intro r hr
      cases hslot with
      | found => exact hbuffered (known, b) (by simp) r hr
      | fresh _ hb =>
        subst hb
        cases hr
    have hfrom : ∀ r, (∃ s ∈ out, r ∈ rowsOf s) ∨ r ∈ b'.rows →
        PushedAs (ops ++ [.push clock origin records commitSeq]) known r.2 := by
      intro r hr
      rcases hemits.mem_or hr with hr | hr
      · exact hrows r hr
      · have hrecord : r.2 ∈ records := map_snd_chunkRows commitSeq records ▸ List.mem_map_of_mem hr
        exact ⟨clock, origin, records, commitSeq, by simp, hrecord, hknown.symm⟩
    refine ⟨fun e he r hr => ?_, fun s hs r hr => ?_⟩
    · rcases List.mem_append.mp he with he | he
      · exact hbuffered e (hother e (.inl he)) r hr
      rcases mem_retain he with rfl | he
      · exact hfrom r (.inr hr)
      · exact hbuffered e (hother e (.inr he)) r hr
    · rw [(hemits.labelled s hs).origin_eq]
      exact (hfrom r (.inl ⟨s, hs, hr⟩)).same hknown

/-- A row of an emitted batch was received in a chunk with the batch's origin. -/
theorem Flow.provenance {received : List (LogChunk O T)} {emitted : List (LogWriteBatch O T)}
    (h : Flow config received ops buffers emitted) {b : LogWriteBatch O T} (hb : b ∈ emitted)
    {r : Row T} (hr : r ∈ rowsOf b) :
    ∃ c ∈ received, r.2 ∈ c.records ∧ SameOrigin c.origin b.origin := by
  obtain ⟨buffers', emitted', hrun, -, hprovenance⟩ := exec_induction config Provenance
    ⟨fun e he => absurd he List.not_mem_nil, fun s hs => absurd hs List.not_mem_nil⟩
    (fun _ _ _ _ _ _ hold _ happlied => happlied.provenance hold) ops
  obtain ⟨rfl, rfl⟩ : buffers' = buffers ∧ emitted' = emitted := by
    simpa using hrun.symm.trans h.run
  obtain ⟨clock, origin, records, commitSeq, hop, hrecord, hsame⟩ :=
    hprovenance.emitted b hb r hr
  have hpushed : (⟨origin, records, commitSeq⟩ : LogChunk O T) ∈ pushedChunks ops :=
    List.mem_filterMap.mpr ⟨_, hop, rfl⟩
  rw [h.pushes] at hpushed
  exact ⟨_, (List.mem_filter.mp hpushed).1, hrecord, hsame⟩

end OtelSqlite.Storage
