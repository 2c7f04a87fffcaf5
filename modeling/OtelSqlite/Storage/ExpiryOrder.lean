import Mathlib.Algebra.Order.BigOperators.Group.List
import Mathlib.Data.List.TakeWhile
import OtelSqlite.Lib.Run
import OtelSqlite.Storage.BatcherLoop

/-!
# The order of expired batches

A timer flush goes through the origins in first-seen order. That is the order of the
deadlines as long as no buffer gets a new deadline out of turn: a push that fills a batch and
leaves a remainder arms the buffer anew where it stands, in front of origins seen after it.
-/

namespace OtelSqlite.Storage

open OtelSqlite.Core OtelSqlite.Core.Batcher OtelSqlite.Lib.Run

variable {O T : Type} {b : OriginBuffer T}

/-- The deadlines of the buffers, in first-seen order. -/
def deadlines (buffers : OriginBuffers O T) : List Nat :=
  buffers.filterMap fun e => e.2.batcher.deadline

/-- The buffers whose deadline has come. -/
def expired (now : Nat) (buffers : OriginBuffers O T) : OriginBuffers O T :=
  buffers.filter fun e => e.2.batcher.deadline.any (· ≤ now)

/-- Whenever it is called, a timer flush sends the expired buffers, oldest deadline first. -/
def OldestFirst (buffers : OriginBuffers O T) : Prop :=
  ∀ now, ∃ rest out, buffers.flushExpired now = some (rest, out) ∧
    out.map (fun s => (s.origin, s.records)) =
      (expired now buffers).map (fun e => (e.1, e.2.batcher.buffer)) ∧
    (deadlines (expired now buffers)).Pairwise (· ≤ ·)

section Flush

variable {config : InsertBatcherConfig} {buffers : OriginBuffers O T}

/-- One buffer is sent as a whole if its deadline has come. -/
theorem flushWith_expired (origin : O) (now : Nat) (ha : b.Aligned config)
    (hne : b.batcher.buffer ≠ []) :
    ∃ b' out, b.flushWith (InsertBatcher.flushIfExpired now) origin = some (b', out) ∧
      out.map (fun s => (s.origin, s.records)) =
        if b.batcher.deadline.any (· ≤ now) then [(origin, b.batcher.buffer)] else [] := by
  obtain ⟨b', out, hrun, -⟩ :=
    OriginBuffer.flushWith_emits (InsertBatcher.flushIfExpired_cases now) origin ha
  refine ⟨b', out, hrun, ?_⟩
  by_cases hdue : b.batcher.deadline.any (· ≤ now) = true
  · obtain ⟨d, hd, hle⟩ : ∃ d, b.batcher.deadline = some d ∧ d ≤ now := by
      cases hdeadline : b.batcher.deadline with
      | none => simp [hdeadline] at hdue
      | some d => exact ⟨d, rfl, by simpa [hdeadline] using hdue⟩
    have hflush : b.batcher.flushIfExpired now = (⟨[], none⟩, some b.batcher.buffer) := by
      simp [InsertBatcher.flushIfExpired, hd, hle, InsertBatcher.flush, hne]
    simp only [OriginBuffer.flushWith, hflush, Option.bind_eq_bind, Option.bind_eq_some_iff,
      Option.some.injEq, Prod.mk.injEq] at hrun
    obtain ⟨segments, -, -, rfl⟩ := hrun
    rw [if_pos hdue]
    rfl
  · have hflush : b.batcher.flushIfExpired now = (b.batcher, none) := by
      cases hdeadline : b.batcher.deadline with
      | none => simp [InsertBatcher.flushIfExpired, hdeadline]
      | some d =>
        have hlt : ¬d ≤ now := by simpa [hdeadline] using hdue
        simp [InsertBatcher.flushIfExpired, hdeadline, hlt]
    simp only [OriginBuffer.flushWith, hflush, Option.some.injEq, Prod.mk.injEq] at hrun
    rw [← hrun.2, if_neg hdue]
    rfl

/-- A timer flush sends the expired buffers, in the order in which they are kept. -/
theorem flushExpired_sends (now : Nat) (h : buffers.Active config) :
    ∃ rest out, buffers.flushExpired now = some (rest, out) ∧
      out.map (fun s => (s.origin, s.records)) =
        (expired now buffers).map fun e => (e.1, e.2.batcher.buffer) := by
  induction buffers with
  | nil => exact ⟨[], [], rfl, rfl⟩
  | cons e more ih =>
    obtain ⟨origin, b⟩ := e
    obtain ⟨rest, out, hrest, hout⟩ := ih fun e he => h e (List.mem_cons_of_mem _ he)
    have hne := h.buffer_ne_nil (e := (origin, b)) List.mem_cons_self
    obtain ⟨b', sent, hrun, hsent⟩ := flushWith_expired origin now (h (origin, b) List.mem_cons_self).1 hne
    have hmore : OriginBuffers.flushWith (InsertBatcher.flushIfExpired now) more = some (rest, out) := hrest
    refine ⟨OriginBuffers.retain origin b' rest, sent ++ out, ?_, ?_⟩
    · simp only [OriginBuffers.flushExpired, OriginBuffers.flushWith, hrun, hmore,
        Option.bind_eq_bind, Option.bind_some]
    · rw [List.map_append, hsent, hout, expired, expired, List.filter_cons]
      split_ifs <;> rfl

/-- Late enough every buffer has expired, so the kept order is what counts. -/
theorem oldestFirst_iff (h : buffers.Active config) :
    OldestFirst buffers ↔ (deadlines buffers).Pairwise (· ≤ ·) := by
  constructor
  · intro hfirst
    obtain ⟨rest, out, -, -, hsorted⟩ := hfirst (deadlines buffers).sum
    have hall : expired (deadlines buffers).sum buffers = buffers := by
      refine List.filter_eq_self.mpr fun e he => ?_
      obtain ⟨halign, -⟩ := h e he
      obtain ⟨d, hd⟩ := Option.isSome_iff_exists.mp (halign.valid.armed.mpr (h.buffer_ne_nil he))
      have hmem : d ∈ deadlines buffers := List.mem_filterMap.mpr ⟨e, he, hd⟩
      simp [hd, List.single_le_sum (fun _ _ => Nat.zero_le _) d hmem]
    rwa [hall] at hsorted
  · intro hsorted now
    obtain ⟨rest, out, hrun, hout⟩ := flushExpired_sends now h
    refine ⟨rest, out, hrun, hout, hsorted.sublist ?_⟩
    exact List.filter_sublist.filterMap _

end Flush

section Push

variable [BEq O] {config : InsertBatcherConfig} {buffers : OriginBuffers O T} {origin : O}

/-- The entries seen before the origin's. -/
def OriginBuffers.before (origin : O) (buffers : OriginBuffers O T) : OriginBuffers O T :=
  buffers.takeWhile fun e => !(e.1 == origin)

/-- The entries seen after the origin's. -/
def OriginBuffers.behind (origin : O) (buffers : OriginBuffers O T) : OriginBuffers O T :=
  (buffers.dropWhile fun e => !(e.1 == origin)).tail

variable {known : O} {before after buffers' : OriginBuffers O T}

theorem Slot.before_eq (h : Slot origin before known b after buffers)
    (hbefore : ∀ e ∈ before, (e.1 == origin) = false) :
    buffers.before origin = before ∧ buffers.behind origin = after := by
  have hskip : ∀ e ∈ before, (!(e.1 == origin)) = true := fun e he => by simp [hbefore e he]
  cases h with
  | found hk =>
    rw [OriginBuffers.before, OriginBuffers.behind, List.takeWhile_append_of_pos hskip,
      List.dropWhile_append_of_pos hskip]
    simp [hk]
  | fresh hk hb ha =>
    subst ha
    rw [OriginBuffers.before, OriginBuffers.behind, List.takeWhile_eq_self_iff.mpr hskip,
      List.dropWhile_eq_nil_iff.mpr hskip]
    exact ⟨rfl, rfl⟩

/-- What a push needs to keep the order: if it leaves records in a buffer that was empty
before or on the way, the new deadline of that buffer fits where the buffer stands. -/
def KeepsOrder (config : InsertBatcherConfig) (buffers : OriginBuffers O T) : Op O T → Prop
  | .push clock origin records _ =>
    let total := (buffers.held origin).length + records.length
    let deadline :=
      saturatingDeadline (clock (total / config.maxBatchRecords)) config.maxBatchAge
    buffers.held origin = [] ∨ config.maxBatchRecords ≤ total →
      total % config.maxBatchRecords ≠ 0 →
      (∀ d ∈ deadlines (buffers.before origin), d ≤ deadline) ∧
        ∀ d ∈ deadlines (buffers.behind origin), deadline ≤ d
  | _ => True

omit [BEq O] in
theorem deadlines_retain (h : b.isEmpty = true → b.batcher.deadline = none) :
    deadlines (before ++ OriginBuffers.retain known b after) =
      deadlines before ++ (b.batcher.deadline.toList ++ deadlines after) := by
  rw [deadlines, List.filterMap_append, OriginBuffers.retain]
  split_ifs with hempty
  · rw [h hempty]
    rfl
  · cases hd : b.batcher.deadline <;> simp [deadlines, hd]

theorem deadlines_slot (h : Slot origin before known b after buffers) :
    deadlines buffers = deadlines before ++ (b.batcher.deadline.toList ++ deadlines after) := by
  cases h with
  | found hk => cases hd : b.batcher.deadline <;> simp [deadlines, hd]
  | fresh hk hb ha =>
    subst hb ha
    simp [deadlines, OriginBuffer.new, InsertBatcher.new]

/-- A new deadline between two parts that are in order together. -/
theorem pairwise_insert_iff {xs ys : List Nat} {d : Nat} (h : (xs ++ ys).Pairwise (· ≤ ·)) :
    (xs ++ d :: ys).Pairwise (· ≤ ·) ↔ (∀ x ∈ xs, x ≤ d) ∧ ∀ y ∈ ys, d ≤ y := by
  obtain ⟨hxs, hys, hcross⟩ := List.pairwise_append.mp h
  rw [List.pairwise_append, List.pairwise_cons]
  constructor
  · rintro ⟨-, ⟨hbehind, -⟩, hbefore⟩
    exact ⟨fun x hx => hbefore x hx d List.mem_cons_self, hbehind⟩
  · rintro ⟨hbefore, hbehind⟩
    refine ⟨hxs, ⟨hbehind, hys⟩, fun x hx y hy => ?_⟩
    rcases List.mem_cons.mp hy with rfl | hy
    · exact hbefore x hx
    · exact hcross x hx y hy

/-- A push keeps the deadlines in order iff the deadline it sets, if it sets one, fits. -/
theorem push_inOrder_iff {clock : Nat → Nat} {records : List T} {commitSeq : Nat}
    {out : List (Submission O T)} (h : buffers.Active config)
    (hsorted : (deadlines buffers).Pairwise (· ≤ ·))
    (hp : buffers.push config clock origin records commitSeq = some (buffers', out)) :
    (deadlines buffers').Pairwise (· ≤ ·) ↔
      KeepsOrder config buffers (.push clock origin records commitSeq) := by
  obtain ⟨before, known, b, after, b', out', hslot, hbefore, he, hpush, hb'⟩ :=
    push_split clock origin records commitSeq h
  obtain ⟨rfl, rfl⟩ := Prod.mk.inj (Option.some.inj (hpush.symm.trans hp))
  obtain ⟨hfront, hbehind⟩ := hslot.before_eq hbefore
  have hvalid : b.batcher.Valid config := by
    cases hslot with
    | found => exact (h (known, b) (by simp)).1.valid
    | fresh hk hb ha =>
      subst hb
      exact InsertBatcher.valid_new config
  have hempty : b'.isEmpty = true → b'.batcher.deadline = none := by
    intro hnil
    have hbuffer := he.aligned.isEmpty_iff.mp hnil
    exact Option.not_isSome_iff_eq_none.mp fun hsome => he.aligned.valid.armed.mp hsome hbuffer
  rw [deadlines_retain hempty]
  simp only [KeepsOrder, hslot.held_eq hbefore, hfront, hbehind]
  rw [deadlines_slot hslot] at hsorted
  have hothers : (deadlines before ++ deadlines after).Pairwise (· ≤ ·) :=
    hsorted.sublist ((List.Sublist.refl _).append (List.sublist_append_right _ _))
  have hdeadline := InsertBatcher.deadline_push_eq config clock records hvalid
  rw [← hb'] at hdeadline
  rw [hdeadline]
  split_ifs with hleft hnew
  · -- nothing is left in the buffer
    exact iff_of_true hothers fun _ hne => absurd hleft hne
  · -- the buffer is armed anew
    simp only [Option.toList_some, List.singleton_append, hleft, hnew, ne_eq,
      not_false_eq_true, forall_const]
    exact pairwise_insert_iff hothers
  · -- the old records are still there
    exact iff_of_true hsorted fun hcase => absurd hcase hnew

/-- One operation on the buffers; what it emits is not looked at. -/
def stepBuffers (config : InsertBatcherConfig) (buffers : OriginBuffers O T) (op : Op O T) :
    Option (OriginBuffers O T) :=
  (op.apply config buffers).map Prod.fst

theorem stepBuffers_iff {op : Op O T} (h : buffers.Active config) (hfirst : OldestFirst buffers)
    (hs : stepBuffers config buffers op = some buffers') :
    buffers'.Active config ∧ (OldestFirst buffers' ↔ KeepsOrder config buffers op) := by
  obtain ⟨⟨_, out⟩, hop, rfl⟩ := Option.map_eq_some_iff.mp hs
  have hsorted := (oldestFirst_iff h).mp hfirst
  obtain ⟨buffers', out', hrun, happlied⟩ := apply_applied h op
  obtain ⟨rfl, rfl⟩ := Prod.mk.inj (Option.some.inj (hrun.symm.trans hop))
  have hactive := happlied.active h
  refine ⟨hactive, ?_⟩
  rw [oldestFirst_iff hactive]
  -- a flush removes entries and leaves the others as they are
  have hflush : ∀ {flushOne : InsertBatcher T → InsertBatcher T × Option (List T)},
      OriginBuffer.FlushesWhole flushOne → buffers.flushWith flushOne = some (buffers', out') →
      (deadlines buffers').Pairwise (· ≤ ·) := by
    intro flushOne hwhole hflushed
    obtain ⟨_, hfilter⟩ := flushWith_filter hwhole h
    obtain ⟨rfl, -⟩ := Prod.mk.inj (Option.some.inj (hfilter.symm.trans hflushed))
    exact hsorted.sublist (List.filter_sublist.filterMap _)
  cases op with
  | push clock origin records commitSeq => exact push_inOrder_iff h hsorted hop
  | flushExpired now =>
    exact iff_of_true (hflush (InsertBatcher.flushIfExpired_cases now) hop) trivial
  | flushAll => exact iff_of_true (hflush InsertBatcher.flush_cases hop) trivial

end Push

/-- In every state of a run of pushes and flushes every timer flush sends the expired buffers
oldest deadline first iff every push of the run keeps the order. -/
theorem expired_oldest_first_iff [BEq O] (config : InsertBatcherConfig) (ops : List (Op O T)) :
    Throughout (stepBuffers config) OldestFirst ([] : OriginBuffers O T) ops ↔
      Along (stepBuffers config) (KeepsOrder config) ([] : OriginBuffers O T) ops := by
  have hactive : OriginBuffers.Active config ([] : OriginBuffers O T) :=
    fun e he => absurd he List.not_mem_nil
  refine throughout_iff_along stepBuffers_iff hactive ?_
  exact (oldestFirst_iff hactive).mpr List.Pairwise.nil

section Example

/-- Batches of two records, at most ten ticks old. -/
def twoRecords : InsertBatcherConfig := ⟨2, 10, Nat.zero_lt_two⟩

/-- Origin 1 is seen at 0 and origin 2 at 1; at 2 a chunk fills a batch of origin 1 and
leaves one record of it. -/
def rearmed : List (Op Nat Nat) :=
  [.push (fun _ => 0) 1 [100] 1, .push (fun _ => 1) 2 [200] 2, .push (fun _ => 2) 1 [101, 102] 3]

/-- The flush at 20 sends origin 1, due at 12, before origin 2, due at 11. -/
theorem rearmed_leaves_first :
    ∃ buffers emitted, exec twoRecords rearmed = some (buffers, emitted) ∧
      (buffers.flushExpired 20).map (fun r => r.2.map LogWriteBatch.origin) = some [1, 2] ∧
      deadlines (expired 20 buffers) = [12, 11] ∧ ¬OldestFirst buffers := by
  have hfacts : (exec twoRecords rearmed).map (fun s =>
      ((s.1.flushExpired 20).map (fun r => r.2.map LogWriteBatch.origin),
        deadlines (expired 20 s.1))) = some (some [1, 2], [12, 11]) := by decide +kernel
  obtain ⟨⟨buffers, emitted⟩, hrun, hfacts⟩ := Option.map_eq_some_iff.mp hfacts
  obtain ⟨horigins, hdeadlines⟩ := Prod.mk.inj hfacts
  refine ⟨buffers, emitted, hrun, horigins, hdeadlines, fun hfirst => ?_⟩
  obtain ⟨_, _, -, -, hsorted⟩ := hfirst 20
  have hdue : deadlines (expired 20 buffers) = [12, 11] := hdeadlines
  rw [hdue] at hsorted
  exact absurd hsorted (by decide)

end Example

end OtelSqlite.Storage
