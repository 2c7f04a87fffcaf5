import Mathlib.Algebra.Order.Ring.Nat
import Mathlib.Data.List.Basic
import Mathlib.Data.List.Dedup
import Mathlib.Data.List.Sort

/-!
# Messages and commands of the ingestion pipeline

The types that travel between ingress, the batcher and the writer. Origins and
records stay abstract: the pipeline compares origins with their own equality and
never looks into a record. A segment list labels the records of a batch; the
labels say for each record which ticket it belongs to and whether it is the last
record of its chunk, which is what a `complete` segment asserts of its end.
-/

namespace OtelSqlite.Core

variable {G : List RecordSegment}

structure LogChunk (O T : Type) where
  origin : O
  records : List T
  commitSeq : Nat
  deriving DecidableEq, Repr

inductive IngestMessage (O T : Type) where
  | logs (chunk : LogChunk O T)
  | flush
  deriving DecidableEq, Repr

def chunksOf {O T : Type} (messages : List (IngestMessage O T)) : List (LogChunk O T) :=
  messages.filterMap fun
    | .logs chunk => some chunk
    | .flush => none

theorem chunksOf_append {O T : Type} (xs ys : List (IngestMessage O T)) :
    chunksOf (xs ++ ys) = chunksOf xs ++ chunksOf ys := List.filterMap_append

/-- One run of records of the same ticket. -/
structure RecordSegment where
  commitSeq : Nat
  records : Nat
  complete : Bool
  deriving DecidableEq, Repr

structure LogWriteBatch (O T : Type) where
  origin : O
  records : List T
  commitSeqs : List Nat
  segments : List RecordSegment
  deriving DecidableEq, Repr

inductive WriteCommand (O T : Type) where
  | insertLogs (batch : LogWriteBatch O T)
  | flush
  | checkpoint
  | maintenance
  deriving DecidableEq, Repr

/-- What a segment list says of one record. -/
structure Label where
  ticket : Nat
  last : Bool
  deriving DecidableEq, Repr

namespace RecordSegment

/-- The labels of the records a segment covers: the final one is the chunk's
last record exactly when the segment is complete. -/
def labels (s : RecordSegment) : List Label :=
  match s.records with
  | 0 => []
  | n + 1 => List.replicate n ⟨s.commitSeq, false⟩ ++ [⟨s.commitSeq, s.complete⟩]

@[simp] theorem length_labels (s : RecordSegment) : s.labels.length = s.records := by
  unfold labels
  split <;> simp [*]

theorem labels_ticket {s : RecordSegment} {l : Label} (h : l ∈ s.labels) :
    l.ticket = s.commitSeq := by
  unfold labels at h
  split at h
  · cases h
  · simp only [List.mem_append, List.mem_replicate, List.mem_singleton] at h
    rcases h with ⟨-, rfl⟩ | rfl <;> rfl

theorem labels_map_ticket (s : RecordSegment) :
    s.labels.map Label.ticket = List.replicate s.records s.commitSeq := by
  rw [List.eq_replicate_iff]
  refine ⟨by simp, fun t ht => ?_⟩
  obtain ⟨l, hl, rfl⟩ := List.mem_map.mp ht
  exact labels_ticket hl

/-- Cutting a run in two: the front part is not complete. -/
theorem labels_split (t n m : Nat) (complete : Bool) (hm : 0 < m) :
    labels ⟨t, n + m, complete⟩ = labels ⟨t, n, false⟩ ++ labels ⟨t, m, complete⟩ := by
  obtain ⟨k, rfl⟩ : ∃ k, m = k + 1 := ⟨m - 1, by omega⟩
  cases n with
  | zero => simp [labels]
  | succ n =>
    change List.replicate (n + 1 + k) _ ++ _ = (List.replicate n _ ++ _) ++ (List.replicate k _ ++ _)
    rw [List.replicate_add, List.replicate_succ', List.append_assoc]

end RecordSegment

/-- The labels of consecutive segments. -/
def labelsOf (segments : List RecordSegment) : List Label := segments.flatMap RecordSegment.labels

@[simp] theorem labelsOf_nil : labelsOf [] = [] := rfl

@[simp] theorem labelsOf_cons (s : RecordSegment) (ss : List RecordSegment) :
    labelsOf (s :: ss) = s.labels ++ labelsOf ss := rfl

@[simp] theorem labelsOf_append (ss rs : List RecordSegment) :
    labelsOf (ss ++ rs) = labelsOf ss ++ labelsOf rs := List.flatMap_append

theorem length_labelsOf (ss : List RecordSegment) :
    (labelsOf ss).length = (ss.map RecordSegment.records).sum := by
  induction ss with
  | nil => rfl
  | cons s ss ih => simp [ih]

theorem labelsOf_filter (ss : List RecordSegment) (t : Nat) :
    (labelsOf ss).filter (fun l => l.ticket == t) =
      labelsOf (ss.filter fun s => s.commitSeq == t) := by
  induction ss with
  | nil => rfl
  | cons s ss ih =>
    rw [labelsOf_cons, List.filter_append, ih, List.filter_cons]
    cases h : s.commitSeq == t with
    | true =>
      have hall : s.labels.filter (fun l => l.ticket == t) = s.labels :=
        List.filter_eq_self.mpr fun l hl => by rw [RecordSegment.labels_ticket hl, h]
      simp [hall]
    | false =>
      have hnone : s.labels.filter (fun l => l.ticket == t) = [] :=
        List.filter_eq_nil_iff.mpr fun l hl => by simp [RecordSegment.labels_ticket hl, h]
      simp [hnone]

/-- Once labels follow a prefix of a chunk, only the end of the whole chunk is last. -/
theorem last_of_labels_eq {t n : Nat} {l : Label} {L : List Label}
    (h : labelsOf G ++ l :: L = RecordSegment.labels ⟨t, n, true⟩) :
    ∀ x ∈ labelsOf G, x.last = false := by
  cases n with
  | zero => simp [RecordSegment.labels] at h
  | succ n =>
    have hd := congrArg List.dropLast h
    rw [List.dropLast_append_cons] at hd
    simp only [RecordSegment.labels, List.dropLast_concat] at hd
    intro x hx
    have hm : x ∈ List.replicate n (⟨t, false⟩ : Label) := hd ▸ List.mem_append_left _ hx
    rw [(List.mem_replicate.mp hm).2]

theorem complete_mem_labels {g : RecordSegment} (h : 0 < g.records) :
    (⟨g.commitSeq, g.complete⟩ : Label) ∈ g.labels := by
  obtain ⟨n, hn⟩ : ∃ n, g.records = n + 1 := ⟨g.records - 1, by omega⟩
  simp [RecordSegment.labels, hn]

theorem not_complete_of_last (hpos : ∀ g ∈ G, 0 < g.records) (h : ∀ x ∈ labelsOf G, x.last = false) :
    ∀ g ∈ G, g.complete = false := by
  intro g hg
  exact h _ (List.mem_flatMap.mpr ⟨g, hg, complete_mem_labels (hpos g hg)⟩)

/-- Segments that label a whole chunk end with the only complete one. -/
theorem complete_of_labels_eq {t n : Nat} (hn : n ≠ 0) (hpos : ∀ g ∈ G, 0 < g.records)
    (h : labelsOf G = RecordSegment.labels ⟨t, n, true⟩) :
    ∃ init g, G = init ++ [g] ∧ g.complete = true ∧ ∀ x ∈ init, x.complete = false := by
  obtain ⟨m, rfl⟩ : ∃ m, n = m + 1 := ⟨n - 1, by omega⟩
  rcases List.eq_nil_or_concat G with rfl | ⟨init, g, rfl⟩
  · simp [RecordSegment.labels] at h
  · obtain ⟨k, hk⟩ : ∃ k, g.records = k + 1 :=
      ⟨g.records - 1, by have := hpos g (by simp); omega⟩
    have hg : g.labels = List.replicate k ⟨g.commitSeq, false⟩ ++ [⟨g.commitSeq, g.complete⟩] := by
      simp only [RecordSegment.labels, hk]
    have hm : RecordSegment.labels ⟨t, m + 1, true⟩ = List.replicate m ⟨t, false⟩ ++ [⟨t, true⟩] :=
      rfl
    refine ⟨init, g, by simp, ?_, ?_⟩
    · rw [List.concat_eq_append, labelsOf_append, labelsOf_cons, labelsOf_nil, List.append_nil, hg,
        hm, ← List.append_assoc] at h
      have hlast := (List.append_inj' h rfl).2
      rw [List.singleton_inj, Label.mk.injEq] at hlast
      exact hlast.2
    · obtain ⟨l, L, hl⟩ : ∃ l L, g.labels = l :: L := by
        cases hgl : g.labels with
        | nil => simp [hgl] at hg
        | cons l L => exact ⟨l, L, rfl⟩
      rw [List.concat_eq_append, labelsOf_append, labelsOf_cons, labelsOf_nil, List.append_nil,
        hl] at h
      exact not_complete_of_last (fun x hx => hpos x (by simp [hx])) (last_of_labels_eq h)

/-- Each segment with the run of records it covers. -/
def covers {T : Type} : List RecordSegment → List T → List (RecordSegment × List T)
  | [], _ => []
  | g :: gs, records => (g, records.take g.records) :: covers gs (records.drop g.records)

theorem covers_map_fst {T : Type} (gs : List RecordSegment) (records : List T) :
    (covers gs records).map Prod.fst = gs := by
  induction gs generalizing records with
  | nil => rfl
  | cons g gs ih => simp [covers, ih]

/-- The rows of a batch, segment by segment. -/
theorem zip_labelsOf {T : Type} (gs : List RecordSegment) (records : List T)
    (h : (labelsOf gs).length = records.length) :
    (labelsOf gs).zip records = (covers gs records).flatMap (fun c => c.1.labels.zip c.2) ∧
      ∀ c ∈ covers gs records, c.2.length = c.1.records := by
  induction gs generalizing records with
  | nil =>
    refine ⟨rfl, fun c hc => absurd hc List.not_mem_nil⟩
  | cons g gs ih =>
    rw [labelsOf_cons, List.length_append, RecordSegment.length_labels] at h
    have htake : g.labels.length = (records.take g.records).length := by
      rw [List.length_take, RecordSegment.length_labels]
      omega
    obtain ⟨hz, hc⟩ := ih (records.drop g.records) (by rw [List.length_drop]; omega)
    constructor
    · rw [labelsOf_cons, covers, List.flatMap_cons, ← hz]
      conv_lhs => rw [← List.take_append_drop g.records records]
      exact List.zip_append htake
    · intro c hm
      rcases List.mem_cons.mp hm with rfl | hm
      · simp only [List.length_take]
        omega
      · exact hc c hm

end OtelSqlite.Core
