import OtelSqlite.Core.CommitHistory
import OtelSqlite.Storage.Settle

/-!
# Where the tickets of a batch come from

The origin buffers and the writer pass tickets on and make none up. A property that
the pushed tickets have, the buffered segments have, the emitted batches, and the
tickets the writer settles.
-/

namespace OtelSqlite.Storage

open OtelSqlite.Core OtelSqlite.Core.Commit OtelSqlite.Core.Batcher

variable {O T : Type}

section Defs

variable (P : Nat → Prop)

def CarriedBy (segments : List (Nat × Nat)) : Prop := ∀ s ∈ segments, P s.1

/-- Every ticket the batch names has the property. -/
structure BatchCarries (batch : LogWriteBatch O T) : Prop where
  segments : ∀ g ∈ batch.segments, P g.commitSeq
  commitSeqs : ∀ t ∈ batch.commitSeqs, P t

def CommandCarries : WriteCommand O T → Prop
  | .insertLogs batch => BatchCarries P batch
  | .flush | .checkpoint | .maintenance => True

def OriginBuffers.Carries (buffers : OriginBuffers O T) : Prop :=
  ∀ e ∈ buffers, CarriedBy P e.2.segments

end Defs

variable {P Q : Nat → Prop} {command : WriteCommand O T} {segments rest : List (Nat × Nat)}
  {config : InsertBatcherConfig} {flushOne : InsertBatcher T → InsertBatcher T × Option (List T)}
  {clock : Nat → Nat} {records : List T}

theorem BatchCarries.mono {batch : LogWriteBatch O T} (h : BatchCarries P batch)
    (hpq : ∀ t, P t → Q t) : BatchCarries Q batch :=
  ⟨fun g hg => hpq _ (h.segments g hg), fun t ht => hpq _ (h.commitSeqs t ht)⟩

theorem CommandCarries.mono (h : CommandCarries P command) (hpq : ∀ t, P t → Q t) :
    CommandCarries Q command := by
  cases command with
  | insertLogs batch => exact BatchCarries.mono h hpq
  | flush | checkpoint | maintenance => trivial

theorem carries_new (origin : O) (records : List T) {segments : List RecordSegment}
    (h : ∀ g ∈ segments, P g.commitSeq) :
    BatchCarries P (Submission.new origin records segments) := by
  refine ⟨h, fun t ht => ?_⟩
  obtain ⟨g, hg, rfl⟩ := ((commitSeqs_new origin records segments).2 t).mp ht
  exact h g hg

theorem carries_consume {count : Nat} {out : List RecordSegment} (h : CarriedBy P segments)
    (hc : consume segments count = some (out, rest)) :
    (∀ g ∈ out, P g.commitSeq) ∧ CarriedBy P rest := by
  fun_induction consume segments count generalizing out rest with
  | case1 segments =>
    obtain ⟨rfl, rfl⟩ := Prod.mk.inj (Option.some.inj hc)
    exact ⟨fun g hg => absurd hg List.not_mem_nil, h⟩
  | case2 left => cases hc
  | case3 commitSeq remaining tail left hle ih =>
    obtain ⟨⟨out', rest'⟩, hrec, he⟩ := Option.bind_eq_some_iff.mp hc
    obtain ⟨rfl, rfl⟩ := Prod.mk.inj (Option.some.inj he)
    obtain ⟨hhead, htail⟩ := List.forall_mem_cons.mp h
    obtain ⟨hout, hrest⟩ := ih htail hrec
    exact ⟨List.forall_mem_cons.mpr ⟨hhead, hout⟩, hrest⟩
  | case4 commitSeq remaining tail left hlt =>
    obtain ⟨rfl, rfl⟩ := Prod.mk.inj (Option.some.inj hc)
    obtain ⟨hhead, htail⟩ := List.forall_mem_cons.mp h
    exact ⟨List.forall_mem_singleton.mpr hhead, List.forall_mem_cons.mpr ⟨hhead, htail⟩⟩

section Origin

variable {b b' : OriginBuffer T} {origin : O} {out : List (Submission O T)}

theorem carries_submit {batches : List (List T)} (h : CarriedBy P segments)
    (hs : OriginBuffer.submit origin segments batches = some (out, rest)) :
    (∀ batch ∈ out, BatchCarries P batch) ∧ CarriedBy P rest := by
  induction batches generalizing segments out with
  | nil =>
    obtain ⟨rfl, rfl⟩ := Prod.mk.inj (Option.some.inj hs)
    exact ⟨fun _ hb => absurd hb List.not_mem_nil, h⟩
  | cons batch batches ih =>
    obtain ⟨⟨taken, left⟩, hconsume, hs⟩ := Option.bind_eq_some_iff.mp hs
    obtain ⟨⟨more, left'⟩, hsubmit, he⟩ := Option.bind_eq_some_iff.mp hs
    obtain ⟨rfl, rfl⟩ := Prod.mk.inj (Option.some.inj he)
    obtain ⟨htaken, hleft⟩ := carries_consume h hconsume
    obtain ⟨hmore, hrest⟩ := ih hleft hsubmit
    exact ⟨List.forall_mem_cons.mpr ⟨carries_new origin batch htaken, hmore⟩, hrest⟩

theorem OriginBuffer.carries_push {commitSeq : Nat} (h : CarriedBy P b.segments) (hp : P commitSeq)
    (hs : b.push config clock origin records commitSeq = some (b', out)) :
    CarriedBy P b'.segments ∧ ∀ batch ∈ out, BatchCarries P batch := by
  obtain ⟨⟨emitted, segments⟩, hsubmit, he⟩ := Option.bind_eq_some_iff.mp hs
  obtain ⟨rfl, rfl⟩ := Prod.mk.inj (Option.some.inj he)
  refine (carries_submit ?_ hsubmit).symm
  split_ifs
  · exact h
  · exact List.forall_mem_append.mpr ⟨h, List.forall_mem_singleton.mpr hp⟩

theorem OriginBuffer.carries_flushWith (h : CarriedBy P b.segments)
    (hs : b.flushWith flushOne origin = some (b', out)) :
    CarriedBy P b'.segments ∧ ∀ batch ∈ out, BatchCarries P batch := by
  unfold OriginBuffer.flushWith at hs
  split at hs
  · obtain ⟨rfl, rfl⟩ := Prod.mk.inj (Option.some.inj hs)
    exact ⟨h, fun _ hb => absurd hb List.not_mem_nil⟩
  · obtain ⟨⟨taken, left⟩, hconsume, he⟩ := Option.bind_eq_some_iff.mp hs
    obtain ⟨rfl, rfl⟩ := Prod.mk.inj (Option.some.inj he)
    obtain ⟨htaken, hleft⟩ := carries_consume h hconsume
    exact ⟨hleft, List.forall_mem_singleton.mpr (carries_new origin _ htaken)⟩

end Origin

namespace OriginBuffers

variable {buffers buffers' rest : OriginBuffers O T} {out : List (Submission O T)}

theorem carries_retain {origin : O} {b : OriginBuffer T} (hb : CarriedBy P b.segments)
    (h : rest.Carries P) : (retain origin b rest).Carries P := by
  unfold retain
  split_ifs
  · exact h
  · exact List.forall_mem_cons.mpr ⟨hb, h⟩

theorem Carries.push [BEq O] {origin : O} {commitSeq : Nat} (h : buffers.Carries P)
    (hp : P commitSeq)
    (hs : buffers.push config clock origin records commitSeq = some (buffers', out)) :
    buffers'.Carries P ∧ ∀ batch ∈ out, BatchCarries P batch := by
  induction buffers generalizing buffers' with
  | nil =>
    obtain ⟨⟨b, emitted⟩, hpush, he⟩ := Option.bind_eq_some_iff.mp hs
    obtain ⟨rfl, rfl⟩ := Prod.mk.inj (Option.some.inj he)
    have hnew : CarriedBy P (OriginBuffer.new : OriginBuffer T).segments :=
      fun _ hm => absurd hm List.not_mem_nil
    obtain ⟨hb, hout⟩ := OriginBuffer.carries_push hnew hp hpush
    exact ⟨carries_retain hb h, hout⟩
  | cons e rest ih =>
    obtain ⟨known, b⟩ := e
    obtain ⟨hb, hrest⟩ := List.forall_mem_cons.mp h
    simp only [OriginBuffers.push] at hs
    split_ifs at hs
    · obtain ⟨⟨b', emitted⟩, hpush, he⟩ := Option.bind_eq_some_iff.mp hs
      obtain ⟨rfl, rfl⟩ := Prod.mk.inj (Option.some.inj he)
      obtain ⟨hb', hout⟩ := OriginBuffer.carries_push hb hp hpush
      exact ⟨carries_retain hb' hrest, hout⟩
    · obtain ⟨⟨rest', emitted⟩, hpush, he⟩ := Option.bind_eq_some_iff.mp hs
      obtain ⟨rfl, rfl⟩ := Prod.mk.inj (Option.some.inj he)
      obtain ⟨hrest', hout⟩ := ih hrest hpush
      exact ⟨List.forall_mem_cons.mpr ⟨hb, hrest'⟩, hout⟩

theorem Carries.flushWith (h : buffers.Carries P)
    (hs : buffers.flushWith flushOne = some (buffers', out)) :
    buffers'.Carries P ∧ ∀ batch ∈ out, BatchCarries P batch := by
  induction buffers generalizing buffers' out with
  | nil =>
    obtain ⟨rfl, rfl⟩ := Prod.mk.inj (Option.some.inj hs)
    exact ⟨h, fun _ hb => absurd hb List.not_mem_nil⟩
  | cons e rest ih =>
    obtain ⟨origin, b⟩ := e
    obtain ⟨hb, hrest⟩ := List.forall_mem_cons.mp h
    obtain ⟨⟨b', first⟩, hflush, hs⟩ := Option.bind_eq_some_iff.mp hs
    obtain ⟨⟨rest', more⟩, hmore, he⟩ := Option.bind_eq_some_iff.mp hs
    obtain ⟨rfl, rfl⟩ := Prod.mk.inj (Option.some.inj he)
    obtain ⟨hb', hfirst⟩ := OriginBuffer.carries_flushWith hb hflush
    obtain ⟨hrest', hout⟩ := ih hrest hmore
    exact ⟨carries_retain hb' hrest', List.forall_mem_append.mpr ⟨hfirst, hout⟩⟩

end OriginBuffers

/-- The writer settles only tickets that its command carries. -/
theorem carries_execute {weather : Weather T} {now : Nat} {effect : Effect T}
    (h : CommandCarries P command) (he : execute weather now command = .ok effect) {c : Call}
    (hc : c ∈ effect.calls) {t : Nat} (hs : c.Settles t) : P t := by
  cases command with
  | insertLogs batch =>
    simp only [execute] at he
    split_ifs at he
    · obtain rfl := Except.ok.inj he
      obtain ⟨seq, hseq, rfl⟩ := List.mem_map.mp hc
      exact (hs : seq = t) ▸ h.commitSeqs seq hseq
    · split at he
      · cases he
      · obtain rfl := Except.ok.inj he
        cases batchCall_of_mem hc with
        | committed u n | dropped u n => exact hs.elim
        | @unmapped u hnil hu => exact (hs : u = t) ▸ h.commitSeqs u hu
        | @closed g hg hlast => exact (hs : g.commitSeq = t) ▸ h.segments g hg
  | flush =>
    obtain rfl := Except.ok.inj he
    cases hc
  | checkpoint | maintenance =>
    simp only [execute] at he
    split at he
    · cases he
    · obtain rfl := Except.ok.inj he
      cases hc

end OtelSqlite.Storage
