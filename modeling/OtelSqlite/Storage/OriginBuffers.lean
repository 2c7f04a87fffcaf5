import OtelSqlite.Core.Batcher
import OtelSqlite.Core.Command

/-!
# Per-origin accumulation

One `InsertBatcher` per active origin, beside it the queue of `(ticket, records)`
segments of the records still buffered. The two structures are kept apart in the
source; `rows` joins them again: each buffered record with the label its segment
gives it. An origin buffer is then a queue of rows. A push appends the rows of
the chunk at the end, an emitted batch takes its rows from the front, and the
`expect` in `consume` is the failure this alignment rules out.
-/

namespace OtelSqlite.Storage

open OtelSqlite.Core OtelSqlite.Core.Batcher

variable {O T : Type}

/-- `Submission` has the fields of `LogWriteBatch`; the driver moves them over one by one. -/
abbrev Submission := LogWriteBatch

/-- The tickets are sorted first, so dropping consecutive repetitions drops all of them. -/
def Submission.new (origin : O) (records : List T) (segments : List RecordSegment) :
    Submission O T where
  origin
  records
  commitSeqs := ((segments.map RecordSegment.commitSeq).insertionSort (· ≤ ·)).dedup
  segments

structure OriginBuffer (T : Type) where
  segments : List (Nat × Nat)
  batcher : InsertBatcher T

/-- The first `count` buffered records mapped to their tickets; `none` is the
panic on an exhausted segment queue. A segment that keeps records has covered
everything that was left. -/
def consume : List (Nat × Nat) → Nat → Option (List RecordSegment × List (Nat × Nat))
  | segments, 0 => some ([], segments)
  | [], _ + 1 => none
  | (commitSeq, remaining) :: rest, left + 1 =>
    if remaining ≤ left + 1 then do
      let (out, rest) ← consume rest (left + 1 - remaining)
      some (⟨commitSeq, remaining, true⟩ :: out, rest)
    else some ([⟨commitSeq, left + 1, false⟩], (commitSeq, remaining - (left + 1)) :: rest)

namespace OriginBuffer

def new : OriginBuffer T := ⟨[], InsertBatcher.new⟩

def isEmpty (b : OriginBuffer T) : Bool := b.batcher.isEmpty && b.segments.isEmpty

/-- The submissions for the batches an `InsertBatcher` emitted, in order. -/
def submit (origin : O) : List (Nat × Nat) → List (List T) →
    Option (List (Submission O T) × List (Nat × Nat))
  | segments, [] => some ([], segments)
  | segments, batch :: batches => do
    let (out, rest) ← consume segments batch.length
    let (submissions, rest) ← submit origin rest batches
    some (Submission.new origin batch out :: submissions, rest)

def push (config : InsertBatcherConfig) (clock : Nat → Nat) (origin : O) (records : List T)
    (commitSeq : Nat) (b : OriginBuffer T) : Option (OriginBuffer T × List (Submission O T)) := do
  let segments := if records.isEmpty then b.segments
    else b.segments ++ [(commitSeq, records.length)]
  let (batcher, output) := b.batcher.push config clock records
  let (emitted, segments) ← submit origin segments output
  some (⟨segments, batcher⟩, emitted)

/-- One buffer's part of `flush_with`. -/
def flushWith (flushOne : InsertBatcher T → InsertBatcher T × Option (List T)) (origin : O)
    (b : OriginBuffer T) : Option (OriginBuffer T × List (Submission O T)) :=
  match flushOne b.batcher with
  | (batcher, none) => some ({ b with batcher }, [])
  | (batcher, some records) => do
    let (out, segments) ← consume b.segments records.length
    some (⟨segments, batcher⟩, [Submission.new origin records out])

end OriginBuffer

/-- The active origins in first-seen order. -/
abbrev OriginBuffers (O T : Type) := List (O × OriginBuffer T)

namespace OriginBuffers

def deadline (buffers : OriginBuffers O T) : Option Nat :=
  (buffers.filterMap fun e => e.2.batcher.deadline).min?

def buffered (buffers : OriginBuffers O T) : Nat :=
  (buffers.map fun e => e.2.batcher.buffered).sum

/-- Keep the entry only if it still holds something. -/
def retain (origin : O) (b : OriginBuffer T) (rest : OriginBuffers O T) : OriginBuffers O T :=
  if b.isEmpty then rest else (origin, b) :: rest

/-- The first entry whose origin equals the incoming one takes the chunk; without
one a new entry is made at the end. A drained entry is removed. -/
def push [BEq O] (config : InsertBatcherConfig) (clock : Nat → Nat) (origin : O)
    (records : List T) (commitSeq : Nat) :
    OriginBuffers O T → Option (OriginBuffers O T × List (Submission O T))
  | [] => do
    let (b, emitted) ← OriginBuffer.new.push config clock origin records commitSeq
    some (retain origin b [], emitted)
  | (known, b) :: rest =>
    if known == origin then do
      let (b, emitted) ← b.push config clock origin records commitSeq
      some (retain known b rest, emitted)
    else do
      let (rest, emitted) ← push config clock origin records commitSeq rest
      some ((known, b) :: rest, emitted)

def flushWith (flushOne : InsertBatcher T → InsertBatcher T × Option (List T)) :
    OriginBuffers O T → Option (OriginBuffers O T × List (Submission O T))
  | [] => some ([], [])
  | (origin, b) :: rest => do
    let (b, submissions) ← b.flushWith flushOne origin
    let (rest, more) ← flushWith flushOne rest
    some (retain origin b rest, submissions ++ more)

def flushExpired (now : Nat) (buffers : OriginBuffers O T) :
    Option (OriginBuffers O T × List (Submission O T)) :=
  buffers.flushWith (InsertBatcher.flushIfExpired now)

def flushAll (buffers : OriginBuffers O T) : Option (OriginBuffers O T × List (Submission O T)) :=
  buffers.flushWith InsertBatcher.flush

end OriginBuffers

/-- A record with its label. -/
abbrev Row (T : Type) := Label × T

/-- The segments still queued, read as the segments a final batch would carry. -/
def pending (segments : List (Nat × Nat)) : List RecordSegment :=
  segments.map fun s => ⟨s.1, s.2, true⟩

def rowsOf (s : Submission O T) : List (Row T) := (labelsOf s.segments).zip s.records

def OriginBuffer.rows (b : OriginBuffer T) : List (Row T) :=
  (labelsOf (pending b.segments)).zip b.batcher.buffer

/-- The rows of a chunk: only its final record is the last one. -/
def chunkRows (commitSeq : Nat) (records : List T) : List (Row T) :=
  (RecordSegment.labels ⟨commitSeq, records.length, true⟩).zip records

/-- `consume` splits the queued labels, and only its own shortage can fail it. -/
theorem consume_spec (segments : List (Nat × Nat)) (count : Nat) (hpos : ∀ s ∈ segments, 0 < s.2)
    (hc : count ≤ (labelsOf (pending segments)).length) :
    ∃ out rest, consume segments count = some (out, rest) ∧
      labelsOf out ++ labelsOf (pending rest) = labelsOf (pending segments) ∧
      (labelsOf out).length = count ∧ (∀ s ∈ out, 0 < s.records) ∧ ∀ s ∈ rest, 0 < s.2 := by
  fun_induction consume segments count with
  | case1 segments => exact ⟨[], segments, rfl, rfl, rfl, by simp, hpos⟩
  | case2 left => simp [pending] at hc
  | case3 commitSeq remaining rest left hle ih =>
    have hl : left + 1 - remaining ≤ (labelsOf (pending rest)).length := by
      simp [pending] at hc ⊢
      omega
    obtain ⟨out, rest', he, hs, hlen, ho, hr⟩ :=
      ih (fun s hs => hpos s (List.mem_cons_of_mem _ hs)) hl
    refine ⟨⟨commitSeq, remaining, true⟩ :: out, rest', by rw [he]; rfl, ?_, ?_, ?_, hr⟩
    · simp only [labelsOf_cons, List.append_assoc, hs]
      rfl
    · simp only [labelsOf_cons, List.length_append, RecordSegment.length_labels, hlen]
      omega
    · intro s hs
      rcases List.mem_cons.mp hs with rfl | hs
      · exact hpos _ List.mem_cons_self
      · exact ho s hs
  | case4 commitSeq remaining rest left hlt =>
    have hm : 0 < remaining - (left + 1) := by omega
    have hsplit := RecordSegment.labels_split commitSeq (left + 1) _ true hm
    rw [Nat.add_sub_cancel' (by omega : left + 1 ≤ remaining)] at hsplit
    refine ⟨_, _, rfl, ?_, by simp, by simp, ?_⟩
    · simp [pending, hsplit]
    · intro s hs
      rcases List.mem_cons.mp hs with rfl | hs
      · exact hm
      · exact hpos s (List.mem_cons_of_mem _ hs)

end OtelSqlite.Storage
