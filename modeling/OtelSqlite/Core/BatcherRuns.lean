import Mathlib.Data.List.Induction
import OtelSqlite.Core.Batcher

/-!
# Runs of the insert batcher

Any sequence of pushes and flushes, with any readings of the clock. The buffer is a queue
that is emptied as a whole, so its oldest record has been the first one since the push that
inserted it, and nothing was emitted since. The deadline is the one that push has set.
-/

namespace OtelSqlite.Core.Batcher

variable {T : Type}

inductive Call (T : Type) where
  /-- The clock is read whenever a record enters an empty buffer. -/
  | push (clock : Nat → Nat) (records : List T)
  | flush
  | flushIfExpired (now : Nat)

def Call.records : Call T → List T
  | .push _ records => records
  | _ => []

/-- The batcher after a call and the batches the call emits. -/
def Call.apply (config : InsertBatcherConfig) (b : InsertBatcher T) :
    Call T → InsertBatcher T × List (List T)
  | .push clock records => b.push config clock records
  | .flush => (b.flush.1, b.flush.2.toList)
  | .flushIfExpired now => ((b.flushIfExpired now).1, (b.flushIfExpired now).2.toList)

/-- The batcher after the calls and everything they emit. -/
def runCalls (config : InsertBatcherConfig) (b : InsertBatcher T) (calls : List (Call T)) :
    InsertBatcher T × List (List T) :=
  calls.foldl (fun s call =>
    ((call.apply config s.1).1, s.2 ++ (call.apply config s.1).2)) (b, [])

section Runs

variable {config : InsertBatcherConfig} {b b' : InsertBatcher T} {records younger : List T}

theorem runCalls_concat (b : InsertBatcher T) (calls : List (Call T)) (call : Call T) :
    runCalls config b (calls ++ [call]) =
      ((call.apply config (runCalls config b calls).1).1,
        (runCalls config b calls).2 ++ (call.apply config (runCalls config b calls).1).2) := by
  rw [runCalls, List.foldl_append]
  rfl

/-- A call appends its records, or it emits a batch and what stays was all in its records. -/
inductive StepTo (config : InsertBatcherConfig) (b : InsertBatcher T) :
    Call T → InsertBatcher T × List (List T) → Prop
  | appended {call : Call T} {b' : InsertBatcher T} :
      b'.buffer = b.buffer ++ call.records → (b.buffer ≠ [] → b'.deadline = b.deadline) →
      (b.buffer = [] → call.records = []) → StepTo config b call (b', [])
  | inserted {clock : Nat → Nat} {records front : List T} {b' : InsertBatcher T}
      {batches : List (List T)} :
      records = front ++ b'.buffer → b'.buffer ≠ [] →
      b'.deadline = some (saturatingDeadline (clock batches.length) config.maxBatchAge) →
      StepTo config b (.push clock records) (b', batches)
  | drained {call : Call T} {b' : InsertBatcher T} {batches : List (List T)} :
      b'.buffer = [] → StepTo config b call (b', batches)

/-- A push that emits something or finds no records keeps only records of its own. -/
theorem push_front (clock : Nat → Nat) (hv : b.Valid config)
    (h : (b.push config clock records).2 ≠ [] ∨ b.buffer = []) :
    ∃ front, records = front ++ (b.push config clock records).1.buffer := by
  have hspec := InsertBatcher.push_spec config clock records hv
  obtain ⟨-, hrest, -⟩ := hspec.cut
  set batches := (b.push config clock records).2
  have hcut : b.buffer.length ≤ batches.length * config.maxBatchRecords := by
    rcases h with hne | hnil
    · have hpos : 0 < batches.length := List.length_pos_iff.mpr hne
      have hroom := hv.room
      calc b.buffer.length ≤ config.maxBatchRecords := hroom.le
        _ ≤ batches.length * config.maxBatchRecords := Nat.le_mul_of_pos_left _ hpos
    · simp [hnil]
  rw [hrest, List.drop_append, List.drop_eq_nil_of_le hcut, List.nil_append]
  exact ⟨_, (List.take_append_drop _ _).symm⟩

theorem push_stepTo (clock : Nat → Nat) (records : List T) (hv : b.Valid config) :
    StepTo config b (.push clock records) (b.push config clock records) := by
  have hspec := InsertBatcher.push_spec config clock records hv
  obtain ⟨hkeep, hrearm⟩ := InsertBatcher.push_deadline config clock records hv
  by_cases hnew : (b.push config clock records).2 ≠ [] ∨ b.buffer = []
  · by_cases hempty : (b.push config clock records).1.buffer = []
    · exact .drained hempty
    · obtain ⟨front, hfront⟩ := push_front clock hv hnew
      exact .inserted hfront hempty (hrearm hnew hempty)
  · simp only [not_or, ne_eq, not_not] at hnew
    obtain ⟨hbatches, hold⟩ := hnew
    have hpair : b.push config clock records = ((b.push config clock records).1, []) :=
      Prod.ext rfl hbatches
    have hbuffer : (b.push config clock records).1.buffer = b.buffer ++ records := by
      rw [← hspec.stream, hbatches]
      rfl
    rw [hpair]
    exact .appended hbuffer (fun _ => hkeep hbatches hold) fun hnil => absurd hnil hold

/-- A flush that takes the whole buffer or nothing. -/
theorem flush_stepTo {call : Call T} {flushed : InsertBatcher T × Option (List T)}
    (hrecords : call.records = [])
    (h : flushed = (b, none) ∨ flushed = (⟨[], none⟩, some b.buffer) ∧ b.buffer ≠ []) :
    StepTo config b call (flushed.1, flushed.2.toList) := by
  rcases h with rfl | ⟨rfl, -⟩
  · exact .appended (by rw [hrecords, List.append_nil]) (fun _ => rfl) fun _ => hrecords
  · exact .drained rfl

theorem apply_stepTo (call : Call T) (hv : b.Valid config) :
    StepTo config b call (call.apply config b) := by
  cases call with
  | push clock records => exact push_stepTo clock records hv
  | flush => exact flush_stepTo rfl (InsertBatcher.flush_cases b)
  | flushIfExpired now => exact flush_stepTo rfl (InsertBatcher.flushIfExpired_cases now b)

theorem valid_apply (call : Call T) (hv : b.Valid config) : (call.apply config b).1.Valid config := by
  have hnew : (⟨[], none⟩ : InsertBatcher T).Valid config := InsertBatcher.valid_new config
  cases call with
  | push clock records => exact (InsertBatcher.push_spec config clock records hv).valid
  | flush =>
    rcases InsertBatcher.flush_cases b with h | ⟨h, -⟩ <;> simp only [Call.apply, h] <;> assumption
  | flushIfExpired now =>
    rcases InsertBatcher.flushIfExpired_cases now b with h | ⟨h, -⟩ <;>
      simp only [Call.apply, h] <;> assumption

theorem valid_runCalls (calls : List (Call T)) : (runCalls config .new calls).1.Valid config := by
  induction calls using List.reverseRecOn with
  | nil => exact InsertBatcher.valid_new config
  | append_singleton calls call ih =>
    rw [runCalls_concat]
    exact valid_apply call ih

/-- The push behind the calls `earlier` inserted `oldest`, which has been the oldest record
since: the calls `later` emitted nothing. -/
structure InsertedBy (config : InsertBatcherConfig) (calls : List (Call T)) (oldest : T)
    (younger : List T) (earlier : List (Call T)) (clock : Nat → Nat) (records : List T)
    (later : List (Call T)) : Prop where
  split : calls = earlier ++ .push clock records :: later
  first : ∃ front back, records = front ++ oldest :: back ∧
    ((runCalls config .new earlier).1.push config clock records).1.buffer = oldest :: back ∧
    younger = back ++ later.flatMap Call.records
  quiet : (runCalls config .new calls).2 =
    (runCalls config .new earlier).2 ++ ((runCalls config .new earlier).1.push config clock records).2
  /-- The reading is the one taken once the batches of the push were ready. -/
  deadline : (runCalls config .new calls).1.deadline = some (saturatingDeadline
    (clock ((runCalls config .new earlier).1.push config clock records).2.length)
    config.maxBatchAge)

/-- A call that appends leaves the oldest record where it is. -/
theorem InsertedBy.concat {calls earlier later : List (Call T)} {oldest : T} {clock : Nat → Nat}
    {call : Call T} (h : InsertedBy config calls oldest younger earlier clock records later)
    (hquiet : (call.apply config (runCalls config .new calls).1).2 = [])
    (hdeadline : (call.apply config (runCalls config .new calls).1).1.deadline =
      (runCalls config .new calls).1.deadline) :
    InsertedBy config (calls ++ [call]) oldest (younger ++ call.records) earlier clock records
      (later ++ [call]) where
  split := by rw [h.split, List.append_assoc, List.cons_append]
  first := by
    obtain ⟨front, back, hrecords, hbuffer, hyounger⟩ := h.first
    exact ⟨front, back, hrecords, hbuffer, by simp [hyounger]⟩
  quiet := by rw [runCalls_concat, hquiet, List.append_nil, h.quiet]
  deadline := by rw [runCalls_concat, hdeadline, h.deadline]

theorem exists_insertedBy (calls : List (Call T)) {oldest : T}
    (h : (runCalls config .new calls).1.buffer = oldest :: younger) :
    ∃ earlier clock records later,
      InsertedBy config calls oldest younger earlier clock records later := by
  -- from the right: the last call appended to the buffer, or inserted all that is in it
  induction calls using List.reverseRecOn generalizing younger with
  | nil => cases h
  | append_singleton calls call ih =>
    have hvalid : (runCalls config .new calls).1.Valid config := valid_runCalls calls
    have hstep := apply_stepTo call hvalid
    rw [runCalls_concat] at h
    generalize hafter : call.apply config (runCalls config .new calls).1 = after at hstep h
    cases hstep with
    | @appended _ b' hbuffer hdeadline hnil =>
      cases hold : (runCalls config .new calls).1.buffer with
      | nil =>
        rw [hold, hnil hold] at hbuffer
        exact absurd (h.symm.trans hbuffer) (by simp)
      | cons first rest =>
        rw [hold, List.cons_append] at hbuffer
        obtain ⟨rfl, rfl⟩ := List.cons.inj (h.symm.trans hbuffer)
        obtain ⟨earlier, clock, records, later, hinserted⟩ := ih hold
        refine ⟨earlier, clock, records, later ++ [call], hinserted.concat ?_ ?_⟩
        · rw [hafter]
        · rw [hafter]
          exact hdeadline (by simp [hold])
    | @inserted clock records front b' batches hrecords hne hdeadline =>
      refine ⟨calls, clock, records, [], rfl, ⟨front, younger, ?_, ?_, by simp⟩, ?_, ?_⟩
      · rw [hrecords, show b'.buffer = oldest :: younger from h]
      · have hpush : (runCalls config .new calls).1.push config clock records = (b', batches) := hafter
        rw [hpush]
        exact h
      · rw [runCalls_concat]
        rfl
      · have hpush : (runCalls config .new calls).1.push config clock records = (b', batches) := hafter
        rw [runCalls_concat, hpush]
        exact (congrArg (fun s => s.1.deadline) hafter).trans hdeadline
    | drained hempty => exact absurd (h.symm.trans hempty) (by simp)

/-- A push that moves the deadline has emitted the batch with the oldest record. -/
theorem push_keeps_deadline (clock : Nat → Nat) (records : List T) (hv : b.Valid config)
    (hne : b.buffer ≠ []) :
    (b.push config clock records).1.deadline = b.deadline ∨
      ∃ batch more, (b.push config clock records).2 = batch :: more ∧ b.buffer <+: batch := by
  have hspec := InsertBatcher.push_spec config clock records hv
  cases hbatches : (b.push config clock records).2 with
  | nil => exact .inl ((InsertBatcher.push_deadline config clock records hv).1 hbatches hne)
  | cons batch more =>
    refine .inr ⟨batch, more, rfl, ?_⟩
    have hfull := hspec.full batch (by simp [hbatches])
    have hstream := hspec.stream
    rw [hbatches, List.flatten_cons, List.append_assoc] at hstream
    refine List.prefix_of_prefix_length_le ⟨records, rfl⟩ ⟨_, hstream⟩ ?_
    rw [hfull]
    exact hv.room.le

end Runs

/-- The deadline belongs to the oldest buffered record: after every sequence of calls it is
set iff there are buffered records, it is the one that the push of the oldest of them has
set, a further push moves it only if it emits that record, and the buffer has room. -/
theorem deadline_of_oldest_record (config : InsertBatcherConfig) (calls : List (Call T)) :
    ((runCalls config .new calls).1.deadline.isSome ↔
        (runCalls config .new calls).1.buffer ≠ []) ∧
      (∀ oldest younger, (runCalls config .new calls).1.buffer = oldest :: younger →
        ∃ earlier clock records later,
          InsertedBy config calls oldest younger earlier clock records later) ∧
      (∀ clock records, (runCalls config .new calls).1.buffer ≠ [] →
        ((runCalls config .new calls).1.push config clock records).1.deadline =
            (runCalls config .new calls).1.deadline ∨
          ∃ batch more, ((runCalls config .new calls).1.push config clock records).2 =
            batch :: more ∧ (runCalls config .new calls).1.buffer <+: batch) ∧
      (runCalls config .new calls).1.buffer.length < config.maxBatchRecords := by
  have hvalid : (runCalls config .new calls).1.Valid config := valid_runCalls calls
  exact ⟨hvalid.armed, fun _ _ h => exists_insertedBy calls h,
    fun clock records hne => push_keeps_deadline clock records hvalid hne, hvalid.room⟩

end OtelSqlite.Core.Batcher
