import Mathlib.Algebra.Order.Ring.Nat
import Mathlib.Data.List.Basic

/-!
# The insert batcher

`InsertBatcher` cuts incoming record lists into storage-sized batches. The model
follows its loop: fill the buffer, emit it when it is full, go on with the tail.
Instants are nanoseconds of the monotonic clock, read anew whenever a record
enters an empty buffer.
-/

namespace OtelSqlite.Core.Batcher

/-- The farthest instant the clock represents: signed 64-bit seconds and nanoseconds. -/
def maxInstant : Nat := (2 ^ 63 - 1) * 10 ^ 9 + 999999999

/-- `now + after`, halving `after` until the sum is representable. -/
def saturatingDeadline (now after : Nat) : Nat :=
  if after = 0 ∨ now + after ≤ maxInstant then now + after
  else saturatingDeadline now (after / 2)
termination_by after
decreasing_by omega

theorem le_saturatingDeadline (now after : Nat) : now ≤ saturatingDeadline now after := by
  fun_induction saturatingDeadline now after with
  | case1 after h => omega
  | case2 after h ih => exact ih

theorem saturatingDeadline_le (now after : Nat) : saturatingDeadline now after ≤ now + after := by
  fun_induction saturatingDeadline now after with
  | case1 after h => exact Nat.le_refl _
  | case2 after h ih => omega

theorem saturatingDeadline_eq {now after : Nat} (h : now + after ≤ maxInstant) :
    saturatingDeadline now after = now + after := by
  unfold saturatingDeadline
  exact if_pos (Or.inr h)

/-- `InsertBatcher::new` asserts the capacity, so every batcher has a positive one. -/
structure InsertBatcherConfig where
  maxBatchRecords : Nat
  maxBatchAge : Nat
  pos : 0 < maxBatchRecords

structure InsertBatcher (T : Type) where
  buffer : List T
  deadline : Option Nat

namespace InsertBatcher

variable {T : Type} {config : InsertBatcherConfig} {b : InsertBatcher T} {records : List T}

def new : InsertBatcher T := ⟨[], none⟩

def buffered (b : InsertBatcher T) : Nat := b.buffer.length

def isEmpty (b : InsertBatcher T) : Bool := b.buffer.isEmpty

/-- Append, and arm the age clock if the buffer was empty. -/
def fill (config : InsertBatcherConfig) (b : InsertBatcher T) (records : List T) (now : Nat) :
    InsertBatcher T where
  buffer := b.buffer ++ records
  deadline :=
    if b.buffer.isEmpty then some (saturatingDeadline now config.maxBatchAge) else b.deadline

/-- The loop of `push`. `clock i` is the instant read once `i` batches are ready. -/
def pushLoop (config : InsertBatcherConfig) (clock : Nat → Nat) (b : InsertBatcher T)
    (incoming : List T) (ready : List (List T)) : InsertBatcher T × List (List T) :=
  if incoming = [] then (b, ready)
  else
    let space := config.maxBatchRecords - b.buffer.length
    if incoming.length < space then (b.fill config incoming (clock ready.length), ready)
    else
      let full := b.fill config (incoming.take space) (clock ready.length)
      pushLoop config clock ⟨[], none⟩ (incoming.drop space) (ready ++ [full.buffer])
termination_by incoming.length + b.buffer.length
decreasing_by
  have := config.pos
  have : 0 < incoming.length := List.length_pos_of_ne_nil ‹_›
  simp only [List.length_drop, List.length_nil]
  omega

def push (config : InsertBatcherConfig) (clock : Nat → Nat) (b : InsertBatcher T)
    (records : List T) : InsertBatcher T × List (List T) :=
  pushLoop config clock b records []

def flush (b : InsertBatcher T) : InsertBatcher T × Option (List T) :=
  if b.buffer = [] then (b, none) else (⟨[], none⟩, some b.buffer)

def flushIfExpired (now : Nat) (b : InsertBatcher T) : InsertBatcher T × Option (List T) :=
  match b.deadline with
  | some deadline => if deadline ≤ now then b.flush else (b, none)
  | none => (b, none)

/-- The documented invariant, with the room the buffer keeps between calls. -/
structure Valid (config : InsertBatcherConfig) (b : InsertBatcher T) : Prop where
  room : b.buffer.length < config.maxBatchRecords
  armed : b.deadline.isSome ↔ b.buffer ≠ []

theorem valid_new (config : InsertBatcherConfig) : (new : InsertBatcher T).Valid config :=
  ⟨config.pos, by simp [new]⟩

theorem isEmpty_iff (b : InsertBatcher T) : b.isEmpty = true ↔ b.buffer = [] :=
  List.isEmpty_iff

theorem armed_fill (h : b.Valid config) (hr : records ≠ []) (now : Nat) :
    (b.fill config records now).deadline.isSome ↔ (b.fill config records now).buffer ≠ [] := by
  have hb : (b.fill config records now).buffer ≠ [] := by simp [fill, hr]
  refine iff_of_true ?_ hb
  by_cases he : b.buffer = []
  · simp [fill, he]
  · simpa [fill, he] using h.armed.mpr he

/-- What `push` does: the stream of records goes on, every emitted batch is full
and the rest fits. -/
structure PushSpec (config : InsertBatcherConfig) (b b' : InsertBatcher T) (records : List T)
    (batches : List (List T)) : Prop where
  stream : batches.flatten ++ b'.buffer = b.buffer ++ records
  full : ∀ batch ∈ batches, batch.length = config.maxBatchRecords
  valid : b'.Valid config

theorem pushLoop_spec (config : InsertBatcherConfig) (clock : Nat → Nat) (b : InsertBatcher T)
    (incoming : List T) (ready : List (List T)) (h : b.Valid config) :
    ∃ batches, (pushLoop config clock b incoming ready).2 = ready ++ batches ∧
      PushSpec config b (pushLoop config clock b incoming ready).1 incoming batches := by
  fun_induction pushLoop config clock b incoming ready with
  | case1 b ready => exact ⟨[], by simp, by simp, by simp, h⟩
  | case2 b incoming ready hne space hlt =>
    refine ⟨[], by simp, by simp [fill], by simp, ?_, armed_fill h hne _⟩
    have := h.room
    simp only [fill, List.length_append]
    omega
  | case3 b incoming ready hne space hge full ih =>
    obtain ⟨batches, hb, hs⟩ := ih (valid_new config)
    refine ⟨full.buffer :: batches, by rw [hb, List.append_assoc]; rfl, ?_, ?_, hs.valid⟩
    · rw [List.flatten_cons, List.append_assoc, hs.stream]
      simp [full, fill]
    · intro batch hm
      rcases List.mem_cons.mp hm with rfl | hm
      · have := h.room
        simp only [full, fill, List.length_append, List.length_take]
        omega
      · exact hs.full batch hm

theorem push_spec (config : InsertBatcherConfig) (clock : Nat → Nat) (records : List T)
    (h : b.Valid config) :
    PushSpec config b (b.push config clock records).1 records (b.push config clock records).2 := by
  obtain ⟨batches, hb, hs⟩ := pushLoop_spec config clock b records [] h
  rw [List.nil_append] at hb
  rw [push, hb]
  exact hs

/-- Which reading arms the buffer a push leaves: none if the old records are still
there, else the one taken once the last full batch was ready. -/
theorem pushLoop_deadline (config : InsertBatcherConfig) (clock : Nat → Nat) (b : InsertBatcher T)
    (incoming : List T) (ready : List (List T)) (h : b.Valid config) :
    let p := pushLoop config clock b incoming ready
    (p.2 = ready → b.buffer ≠ [] → p.1.deadline = b.deadline) ∧
      (p.2 ≠ ready ∨ b.buffer = [] → p.1.buffer ≠ [] →
        p.1.deadline = some (saturatingDeadline (clock p.2.length) config.maxBatchAge)) := by
  fun_induction pushLoop config clock b incoming ready with
  | case1 b ready =>
    refine ⟨fun _ _ => rfl, fun hr hne => ?_⟩
    exact absurd (hr.resolve_left fun hr => hr rfl) hne
  | case2 b incoming ready hne space hlt =>
    refine ⟨fun _ hb => by simp [fill, hb], fun hr _ => ?_⟩
    simp [fill, hr.resolve_left fun hr => hr rfl]
  | case3 b incoming ready hne space hge full ih =>
    obtain ⟨batches, hb, -⟩ := pushLoop_spec config clock ⟨[], none⟩ (incoming.drop space)
      (ready ++ [full.buffer]) (valid_new config)
    refine ⟨fun hr => ?_, fun _ => (ih (valid_new config)).2 (Or.inr rfl)⟩
    have hlen := congrArg List.length (hb.symm.trans hr)
    simp only [List.length_append, List.length_singleton] at hlen
    omega

theorem push_deadline (config : InsertBatcherConfig) (clock : Nat → Nat) (records : List T)
    (h : b.Valid config) :
    ((b.push config clock records).2 = [] → b.buffer ≠ [] →
      (b.push config clock records).1.deadline = b.deadline) ∧
    ((b.push config clock records).2 ≠ [] ∨ b.buffer = [] →
      (b.push config clock records).1.buffer ≠ [] →
      (b.push config clock records).1.deadline =
        some (saturatingDeadline (clock (b.push config clock records).2.length)
          config.maxBatchAge)) :=
  pushLoop_deadline config clock b records [] h

/-- The emitted batches are the stream's first whole multiples of the batch size. -/
theorem PushSpec.cut {b' : InsertBatcher T} {batches : List (List T)}
    (h : PushSpec config b b' records batches) :
    batches.length = (b.buffer.length + records.length) / config.maxBatchRecords ∧
      b'.buffer = (b.buffer ++ records).drop (batches.length * config.maxBatchRecords) ∧
      b'.buffer.length = (b.buffer.length + records.length) % config.maxBatchRecords := by
  have hflat : batches.flatten.length = batches.length * config.maxBatchRecords := by
    rw [List.length_flatten, List.map_congr_left h.full, List.map_const', List.sum_replicate_nat]
  have htotal := congrArg List.length h.stream
  simp only [List.length_append, hflat] at htotal
  refine ⟨?_, ?_, ?_⟩
  · rw [← htotal, Nat.add_comm, Nat.add_mul_div_right _ _ config.pos,
      Nat.div_eq_of_lt h.valid.room, Nat.zero_add]
  · rw [← h.stream, ← hflat, List.drop_left]
  · rw [← htotal, Nat.mul_add_mod_self_right, Nat.mod_eq_of_lt h.valid.room]

/-- The deadline after a push: none if nothing is left, a new one if the buffer was empty
before or on the way, else the old one. -/
theorem deadline_push_eq (config : InsertBatcherConfig) (clock : Nat → Nat) (records : List T)
    (h : b.Valid config) :
    (b.push config clock records).1.deadline =
      if (b.buffer.length + records.length) % config.maxBatchRecords = 0 then none
      else if b.buffer = [] ∨ config.maxBatchRecords ≤ b.buffer.length + records.length then
        some (saturatingDeadline
          (clock ((b.buffer.length + records.length) / config.maxBatchRecords)) config.maxBatchAge)
      else b.deadline := by
  have hspec := push_spec config clock records h
  obtain ⟨hcount, -, hrest⟩ := hspec.cut
  obtain ⟨hkeep, hrearm⟩ := push_deadline config clock records h
  have hempty : (b.push config clock records).1.buffer = [] ↔
      (b.buffer.length + records.length) % config.maxBatchRecords = 0 := by
    rw [← List.length_eq_zero_iff, hrest]
  have hnone : (b.push config clock records).2 = [] ↔
      b.buffer.length + records.length < config.maxBatchRecords := by
    rw [← List.length_eq_zero_iff, hcount, Nat.div_eq_zero_iff_lt config.pos]
  split_ifs with hzero hnew
  · exact Option.not_isSome_iff_eq_none.mp fun hsome =>
      hspec.valid.armed.mp hsome (hempty.mpr hzero)
  · rw [hrearm (hnew.symm.imp_left fun hfull hnil => by have := hnone.mp hnil; omega)
      fun hnil => hzero (hempty.mp hnil), hcount]
  · rw [not_or, Nat.not_le] at hnew
    exact hkeep (hnone.mpr hnew.2) hnew.1

/-- A push leaves the old deadline, or arms the buffer for records it leaves in a
buffer that was empty before or on the way. -/
theorem deadline_push {clock : Nat → Nat} (h : b.Valid config) {d : Nat}
    (hd : d ∈ (b.push config clock records).1.deadline) :
    d ∈ b.deadline ∨
      (∃ i, d = saturatingDeadline (clock i) config.maxBatchAge) ∧
        (b.buffer.length + records.length) % config.maxBatchRecords ≠ 0 ∧
        (b.buffer = [] ∨ config.maxBatchRecords ≤ b.buffer.length + records.length) := by
  rw [deadline_push_eq config clock records h] at hd
  split_ifs at hd with hzero hnew
  · cases hd
  · exact Or.inr ⟨⟨_, (Option.some.inj hd).symm⟩, hzero, hnew⟩
  · exact Or.inl hd

/-- Either nothing is emitted and nothing changes, or the whole buffer goes. -/
theorem flush_cases (b : InsertBatcher T) :
    b.flush = (b, none) ∨ b.flush = (⟨[], none⟩, some b.buffer) ∧ b.buffer ≠ [] := by
  unfold flush
  by_cases h : b.buffer = []
  · exact Or.inl (if_pos h)
  · exact Or.inr ⟨if_neg h, h⟩

theorem flushIfExpired_cases (now : Nat) (b : InsertBatcher T) :
    b.flushIfExpired now = (b, none) ∨
      b.flushIfExpired now = (⟨[], none⟩, some b.buffer) ∧ b.buffer ≠ [] := by
  unfold flushIfExpired
  split
  · split_ifs
    · exact flush_cases b
    · exact Or.inl rfl
  · exact Or.inl rfl

end InsertBatcher

end OtelSqlite.Core.Batcher
