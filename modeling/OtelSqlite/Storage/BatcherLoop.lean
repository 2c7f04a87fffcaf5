import Mathlib.Order.Monotone.Basic
import OtelSqlite.Storage.BatchRuns

/-!
# The batcher loop on a clock

One iteration of the loop takes the next message if there is one, and handles a
timer event only if the queue is empty and the nearest deadline has passed:
`recv_timeout` returns an available message even at a zero timeout. The command
queue takes every submission.

Records are dated with the instant they enter their buffer. The program keeps
only one such date per buffer, that of the oldest record, inside the deadline.
`Dated` says that the deadline is that date plus `max_batch_age`, and the queue
order of a buffer is the order of its dates.
-/

namespace OtelSqlite.Storage

open OtelSqlite.Core OtelSqlite.Core.Batcher

variable {O R T : Type} {config : InsertBatcherConfig} {clock : Nat → Nat}

structure Arrived (R : Type) where
  arrival : Nat
  payload : R
  deriving DecidableEq, Repr

/-- The clock while one event is handled: its readings in order, and the end. -/
structure Readings where
  read : Nat → Nat
  done : Nat
  mono : Monotone read
  le_done : ∀ i, read i ≤ done

/-- Every reading gives `now`. -/
def Readings.still (now done : Nat) (h : now ≤ done) : Readings where
  read := fun _ => now
  done
  mono := monotone_const
  le_done := fun _ => h

/-- The records held for the origin that takes a chunk of `origin`. -/
def OriginBuffers.held [BEq O] (origin : O) (buffers : OriginBuffers O T) : List T :=
  match buffers.find? fun e => e.1 == origin with
  | some e => e.2.batcher.buffer
  | none => []

/-- The entries a chunk of `origin` does not go to. -/
def OriginBuffers.others [BEq O] (origin : O) (buffers : OriginBuffers O T) : OriginBuffers O T :=
  buffers.eraseP fun e => e.1 == origin

/-- The records of a chunk, dated: a record enters the buffer with the reading
taken once the full batches before it are ready. -/
def stamp (config : InsertBatcherConfig) (clock : Nat → Nat) (held : Nat) (payloads : List R) :
    List (Arrived R) :=
  payloads.mapIdx fun i payload => ⟨clock ((held + i) / config.maxBatchRecords), payload⟩

structure BatcherLoop (O R : Type) where
  inbox : List (IngestMessage O R)
  buffers : OriginBuffers O (Arrived R)
  submitted : List (Submission O (Arrived R))
  /-- The end of the last event. -/
  time : Nat

inductive LoopEvent (O R : Type) where
  /-- Ingress sends a message. -/
  | arrive (message : IngestMessage O R)
  | message (readings : Readings)
  | timer (now done : Nat)

namespace BatcherLoop

def new : BatcherLoop O R := ⟨[], [], [], 0⟩

section Step

variable [BEq O]

def receive (config : InsertBatcherConfig) (readings : Readings) (s : BatcherLoop O R) :
    Option (BatcherLoop O R) :=
  match s.inbox with
  | [] => none
  | .logs chunk :: rest =>
    if chunk.records = [] then some { s with inbox := rest, time := readings.done }
    else do
      let records := stamp config readings.read (s.buffers.held chunk.origin).length chunk.records
      let (buffers, out) ←
        s.buffers.push config readings.read chunk.origin records chunk.commitSeq
      some ⟨rest, buffers, s.submitted ++ out, readings.done⟩
  | .flush :: rest => do
    let (buffers, out) ← s.buffers.flushAll
    some ⟨rest, buffers, s.submitted ++ out, readings.done⟩

/-- One event; `none` if it is not possible. -/
def step (config : InsertBatcherConfig) (s : BatcherLoop O R) :
    LoopEvent O R → Option (BatcherLoop O R)
  | .arrive message => some { s with inbox := s.inbox ++ [message] }
  | .message readings =>
    if s.time ≤ readings.read 0 then s.receive config readings else none
  | .timer now done =>
    if s.inbox = [] ∧ s.time ≤ now ∧ now ≤ done ∧ s.buffers.deadline.any (· ≤ now) = true then do
      let (buffers, out) ← s.buffers.flushExpired now
      some ⟨s.inbox, buffers, s.submitted ++ out, done⟩
    else none

def run (config : InsertBatcherConfig) (s : BatcherLoop O R) (events : List (LoopEvent O R)) :
    Option (BatcherLoop O R) :=
  events.foldlM (fun s e => s.step config e) s

end Step

end BatcherLoop

section Slots

variable [BEq O] {T : Type} {origin known : O} {before after buffers : OriginBuffers O T}
  {b : OriginBuffer T} {buffers' : OriginBuffers O T} {out : List (Submission O T)}
  {flushOne : InsertBatcher T → InsertBatcher T × Option (List T)} {records : List T}

theorem Slot.held_eq (h : Slot origin before known b after buffers)
    (hbefore : ∀ e ∈ before, (e.1 == origin) = false) :
    buffers.held origin = b.batcher.buffer := by
  have hnone : before.find? (fun e => e.1 == origin) = none :=
    List.find?_eq_none.mpr fun e he => by simp [hbefore e he]
  cases h with
  | found hk => simp [OriginBuffers.held, List.find?_append, hnone, hk]
  | fresh hk hb ha =>
    subst hb
    simp [OriginBuffers.held, hnone, OriginBuffer.new, InsertBatcher.new]

theorem Slot.others_eq (h : Slot origin before known b after buffers)
    (hbefore : ∀ e ∈ before, (e.1 == origin) = false) :
    buffers.others origin = before ++ after := by
  have hnone : ∀ e ∈ before, ¬(e.1 == origin) = true := fun e he => by simp [hbefore e he]
  cases h with
  | found hk =>
    rw [OriginBuffers.others, List.eraseP_append_right _ hnone]
    simp [hk]
  | fresh hk hb ha =>
    subst ha
    rw [OriginBuffers.others, List.eraseP_of_forall_not hnone, List.append_nil]

omit [BEq O] in
/-- A property of the buffers of all entries, after an entry was rewritten. -/
theorem forall_retain {P : InsertBatcher T → Prop} (hempty : b.isEmpty = true → P b.batcher) :
    (∀ e ∈ before ++ OriginBuffers.retain known b after, P e.2.batcher) ↔
      (∀ e ∈ before ++ after, P e.2.batcher) ∧ P b.batcher := by
  unfold OriginBuffers.retain
  split_ifs with he
  · exact (and_iff_left (hempty he)).symm
  · simp only [List.forall_mem_append, List.forall_mem_cons]
    tauto

theorem OriginBuffers.Active.push {commitSeq : Nat} (h : buffers.Active config)
    (hp : buffers.push config clock origin records commitSeq = some (buffers', out)) :
    buffers'.Active config ∧ ∀ s ∈ out, s.records ≠ [] := by
  obtain ⟨_, _, hop, happ⟩ := apply_applied h (.push clock origin records commitSeq)
  obtain ⟨rfl, rfl⟩ := Prod.mk.inj (Option.some.inj (hop.symm.trans hp))
  refine ⟨happ.active h, fun s hs => ?_⟩
  obtain ⟨_, hl⟩ := happ.labelled s hs
  exact hl.nonempty

/-- The deadlines after a push: old ones, and that of a buffer the chunk leaves
records in although it was empty, before or on the way. -/
theorem deadline_push {commitSeq : Nat} (h : buffers.Active config)
    (hp : buffers.push config clock origin records commitSeq = some (buffers', out)) :
    ∀ e ∈ buffers', ∀ d ∈ e.2.batcher.deadline,
      (∃ e ∈ buffers, d ∈ e.2.batcher.deadline) ∨
        (∃ i, d = saturatingDeadline (clock i) config.maxBatchAge) ∧
          ((buffers.held origin).length + records.length) % config.maxBatchRecords ≠ 0 ∧
          (buffers.held origin = [] ∨
            config.maxBatchRecords ≤ (buffers.held origin).length + records.length) := by
  obtain ⟨before, known, b, after, b', out', hslot, hbefore, he, hpush, hb'⟩ :=
    push_split clock origin records commitSeq h
  obtain ⟨rfl, rfl⟩ := Prod.mk.inj (Option.some.inj (hpush.symm.trans hp))
  rw [hslot.held_eq hbefore]
  intro e hm d hd
  have hcases : e ∈ before ++ after ∨ e = (known, b') := by
    simp only [OriginBuffers.retain] at hm
    split_ifs at hm
    · exact Or.inl hm
    · simp only [List.mem_append, List.mem_cons] at hm ⊢
      tauto
  rcases hcases with hm | rfl
  · rw [← hslot.others_eq hbefore] at hm
    exact Or.inl ⟨e, List.mem_of_mem_eraseP hm, hd⟩
  · change d ∈ b'.batcher.deadline at hd
    rw [hb'] at hd
    cases hslot with
    | found =>
      refine (InsertBatcher.deadline_push (h (known, b) (by simp)).1.valid hd).imp_left ?_
      exact fun hold => ⟨(known, b), by simp, hold⟩
    | fresh hk hb ha =>
      subst hb
      refine (InsertBatcher.deadline_push (InsertBatcher.valid_new config) hd).imp_left ?_
      exact fun hold => absurd hold (by simp [InsertBatcher.new])

omit [BEq O] in
/-- A flush leaves entries as it found them, and emits no empty batch. -/
theorem flushWith_subset (hf : OriginBuffer.FlushesWhole flushOne) (h : buffers.Active config)
    (hp : buffers.flushWith flushOne = some (buffers', out)) :
    (∀ e ∈ buffers', e ∈ buffers) ∧ ∀ s ∈ out, s.records ≠ [] := by
  obtain ⟨out', hfilter⟩ := flushWith_filter hf h
  obtain ⟨_, _, hop, hflushed⟩ := flushWith_flushed hf h
  obtain ⟨rfl, rfl⟩ := Prod.mk.inj (Option.some.inj (hop.symm.trans hp))
  obtain ⟨rfl, -⟩ := Prod.mk.inj (Option.some.inj (hfilter.symm.trans hp))
  refine ⟨fun e he => List.mem_of_mem_filter he, fun s hs => ?_⟩
  obtain ⟨_, hl⟩ := hflushed.labelled s hs
  exact hl.nonempty

omit [BEq O] in
theorem OriginBuffers.Active.flushWith (hf : OriginBuffer.FlushesWhole flushOne)
    (h : buffers.Active config) (hp : buffers.flushWith flushOne = some (buffers', out)) :
    buffers'.Active config :=
  fun e hmem => h e ((flushWith_subset hf h hp).1 e hmem)

end Slots

/-- No record of the buffer has reached its age deadline at `t`. -/
def OnTime (config : InsertBatcherConfig) (t : Nat) (b : InsertBatcher (Arrived R)) : Prop :=
  ∀ r ∈ b.buffer, t < r.arrival + config.maxBatchAge

instance (config : InsertBatcherConfig) (t : Nat) (b : InsertBatcher (Arrived R)) :
    Decidable (OnTime config t b) :=
  inferInstanceAs (Decidable (∀ r ∈ b.buffer, t < r.arrival + config.maxBatchAge))

/-- What the deadline means: the oldest record is the first one, and the deadline is its. -/
structure Dated (config : InsertBatcherConfig) (time : Nat) (b : InsertBatcher (Arrived R)) :
    Prop where
  armed : ∀ r ∈ b.buffer.head?,
    b.deadline = some (saturatingDeadline r.arrival config.maxBatchAge)
  sorted : b.buffer.Pairwise fun a c => a.arrival ≤ c.arrival
  past : ∀ r ∈ b.buffer, r.arrival ≤ time

theorem dated_new (config : InsertBatcherConfig) (time : Nat) :
    Dated config time (InsertBatcher.new : InsertBatcher (Arrived R)) :=
  ⟨by simp [InsertBatcher.new], by simp [InsertBatcher.new], by simp [InsertBatcher.new]⟩

namespace Dated

variable {config : InsertBatcherConfig} {time : Nat} {b : InsertBatcher (Arrived R)}

theorem mono {time' : Nat} (h : Dated config time b) (ht : time ≤ time') : Dated config time' b :=
  ⟨h.armed, h.sorted, fun r hr => (h.past r hr).trans ht⟩

theorem onTime_iff (h : Dated config time b) (t : Nat) :
    OnTime config t b ↔ ∀ r ∈ b.buffer.head?, t < r.arrival + config.maxBatchAge := by
  have hsorted := h.sorted
  unfold OnTime
  cases hb : b.buffer with
  | nil => simp
  | cons oldest younger =>
    rw [hb] at hsorted
    constructor
    · intro hall r hr
      cases hr
      exact hall oldest List.mem_cons_self
    · intro hhead r hr
      have holdest := hhead oldest rfl
      rcases List.mem_cons.mp hr with rfl | hr
      · exact holdest
      · have := (List.pairwise_cons.mp hsorted).1 r hr
        omega

end Dated

/-- The date of the oldest record left once `count` records are pushed onto `held`. -/
def keptSince (config : InsertBatcherConfig) (clock : Nat → Nat) (held : List (Arrived R))
    (count : Nat) : Nat :=
  if held.length + count < config.maxBatchRecords then
    (held.head?.map Arrived.arrival).getD (clock 0)
  else clock ((held.length + count) / config.maxBatchRecords)

theorem stamp_sorted (config : InsertBatcherConfig) (hmono : Monotone clock) (held : Nat)
    (payloads : List R) :
    (stamp config clock held payloads).Pairwise fun a c => a.arrival ≤ c.arrival := by
  rw [List.pairwise_iff_getElem]
  intro i j hi hj hij
  simp only [stamp, List.getElem_mapIdx]
  exact hmono (Nat.div_le_div_right (by omega))

theorem arrival_mem_stamp {held : Nat} {payloads : List R} {r : Arrived R}
    (h : r ∈ stamp config clock held payloads) : ∃ i, r.arrival = clock i := by
  obtain ⟨i, hi, rfl⟩ := List.mem_mapIdx.mp h
  exact ⟨_, rfl⟩

/-- The first record after the last full batch is the one `keptSince` dates. -/
theorem arrival_after_cut (config : InsertBatcherConfig) (clock : Nat → Nat)
    {held : List (Arrived R)} (hroom : held.length < config.maxBatchRecords) (payloads : List R)
    {r : Arrived R}
    (hr : (held ++ stamp config clock held.length payloads)[
      (held.length + payloads.length) / config.maxBatchRecords * config.maxBatchRecords]? =
        some r) :
    r.arrival = keptSince config clock held payloads.length := by
  unfold keptSince
  split_ifs with hlt
  · rw [Nat.div_eq_of_lt hlt, Nat.zero_mul] at hr
    cases held with
    | nil =>
      obtain ⟨p, -, rfl⟩ := Option.map_eq_some_iff.mp (List.getElem?_mapIdx.symm.trans hr)
      simp
    | cons oldest younger =>
      cases hr
      rfl
  · have hcut : config.maxBatchRecords ≤
        (held.length + payloads.length) / config.maxBatchRecords * config.maxBatchRecords :=
      Nat.le_mul_of_pos_left _ (Nat.div_pos (by omega) config.pos)
    rw [List.getElem?_append_right (by omega), stamp, List.getElem?_mapIdx] at hr
    obtain ⟨p, -, rfl⟩ := Option.map_eq_some_iff.mp hr
    show clock _ = _
    rw [Nat.add_sub_cancel' (by omega), Nat.mul_div_cancel _ config.pos]

end OtelSqlite.Storage
