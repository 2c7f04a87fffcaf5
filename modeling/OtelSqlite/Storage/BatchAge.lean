import OtelSqlite.Lib.Run
import OtelSqlite.Storage.BatcherLoop

/-!
# Batching latency

The latency bound fails because an expired buffer is flushed by a timer event
only, and a timer event waits for an empty queue. `Prompt` is what the loop needs
at each event, said before the event: whatever buffer the event does not flush
must not come due by the time the event is done. Timer events handled at one
instant and barriers always meet it.
-/

namespace OtelSqlite.Storage

open OtelSqlite.Core OtelSqlite.Core.Batcher OtelSqlite.Lib.Run

variable {O R : Type}

section Push

variable {config : InsertBatcherConfig} {time : Nat} {b : InsertBatcher (Arrived R)}

/-- The records of the buffer and of a chunk pushed on it, in the order of their dates. -/
theorem stream_dated (hd : Dated config time b) (c : Readings) (ht : time ≤ c.read 0)
    (payloads : List R) :
    (b.buffer ++ stamp config c.read b.buffer.length payloads).Pairwise
        (fun a c => a.arrival ≤ c.arrival) ∧
      ∀ r ∈ b.buffer ++ stamp config c.read b.buffer.length payloads, r.arrival ≤ c.done := by
  constructor
  · refine List.pairwise_append.mpr ⟨hd.sorted, stamp_sorted config c.mono _ _, ?_⟩
    intro r hr q hq
    obtain ⟨i, hi⟩ := arrival_mem_stamp hq
    have hpast := hd.past r hr
    have hmono := c.mono (Nat.zero_le i)
    omega
  · intro r hr
    rcases List.mem_append.mp hr with hr | hr
    · have hpast := hd.past r hr
      have hdone := c.le_done 0
      omega
    · obtain ⟨i, hi⟩ := arrival_mem_stamp hr
      rw [hi]
      exact c.le_done i

/-- The buffer a push leaves is armed for the record `keptSince` dates. -/
theorem push_armed (hv : b.Valid config) (hd : Dated config time b) (clock : Nat → Nat)
    (payloads : List R) :
    (b.push config clock (stamp config clock b.buffer.length payloads)).1.buffer ≠ [] →
    (b.push config clock (stamp config clock b.buffer.length payloads)).1.deadline =
      some (saturatingDeadline (keptSince config clock b.buffer payloads.length)
        config.maxBatchAge) := by
  intro hne
  set records := stamp config clock b.buffer.length payloads with hrecords
  have hlen : records.length = payloads.length := by simp [hrecords, stamp]
  have hcut := (InsertBatcher.push_spec config clock records hv).cut.1
  obtain ⟨hkeep, hrearm⟩ := InsertBatcher.push_deadline config clock records hv
  rw [hlen] at hcut
  by_cases hfull : b.buffer.length + payloads.length < config.maxBatchRecords
  · rw [Nat.div_eq_of_lt hfull] at hcut
    cases hb : b.buffer with
    | nil => rw [hrearm (Or.inr hb) hne, hcut, keptSince, if_pos (hb ▸ hfull)]; rfl
    | cons oldest younger =>
      rw [hkeep (List.length_eq_zero_iff.mp hcut) (by simp [hb]), hd.armed oldest (by simp [hb]),
        keptSince, if_pos (hb ▸ hfull)]
      rfl
  · have hpos : 0 < (b.push config clock records).2.length := by
      rw [hcut]
      exact Nat.div_pos (by omega) config.pos
    rw [hrearm (Or.inl (List.ne_nil_of_length_pos hpos)) hne, hcut, keptSince, if_neg hfull]

/-- A chunk pushed on a dated buffer leaves a dated buffer, late exactly if it is
not drained and its oldest record is late. -/
theorem push_dated (hv : b.Valid config) (hd : Dated config time b) (c : Readings)
    (ht : time ≤ c.read 0) (payloads : List R) :
    Dated config c.done (b.push config c.read (stamp config c.read b.buffer.length payloads)).1 ∧
      ∀ t, OnTime config t (b.push config c.read (stamp config c.read b.buffer.length payloads)).1 ↔
        (b.buffer.length + payloads.length) % config.maxBatchRecords = 0 ∨
          t < keptSince config c.read b.buffer payloads.length + config.maxBatchAge := by
  have harmed := push_armed hv hd c.read payloads
  obtain ⟨hsorted, hpast⟩ := stream_dated hd c ht payloads
  have hroom := hv.room
  set records := stamp config c.read b.buffer.length payloads with hrecords
  have hlen : records.length = payloads.length := by simp [hrecords, stamp]
  obtain ⟨hcount, hbuffer, hrest⟩ := (InsertBatcher.push_spec config c.read records hv).cut
  set b' := (b.push config c.read records).1
  rw [hcount, hlen] at hbuffer
  rw [hlen] at hrest
  have hhead : ∀ r ∈ b'.buffer.head?,
      r.arrival = keptSince config c.read b.buffer payloads.length := by
    intro r hr
    rw [hbuffer, List.head?_drop] at hr
    exact arrival_after_cut config c.read hroom payloads hr
  have hsub : b'.buffer.Sublist (b.buffer ++ records) := hbuffer ▸ List.drop_sublist _ _
  have hdated : Dated config c.done b' := by
    refine ⟨fun r hr => ?_, hsorted.sublist hsub, fun r hr => hpast r (hsub.subset hr)⟩
    rw [harmed (by rintro he; simp [he] at hr), hhead r hr]
  refine ⟨hdated, fun t => ?_⟩
  rw [hdated.onTime_iff, ← hrest, List.length_eq_zero_iff]
  cases hb : b'.buffer with
  | nil => simp
  | cons oldest younger =>
    have hold := hhead oldest (by simp [hb])
    simp [hold]

end Push

theorem push_step [BEq O] {config : InsertBatcherConfig} {time : Nat}
    {old : OriginBuffers O (Arrived R)} (ha : old.Active config)
    (hd : ∀ e ∈ old, Dated config time e.2.batcher) (c : Readings) (ht : time ≤ c.read 0)
    (chunk : LogChunk O R) {buffers : OriginBuffers O (Arrived R)}
    {out : List (Submission O (Arrived R))}
    (hp : old.push config c.read chunk.origin
      (stamp config c.read (old.held chunk.origin).length chunk.records) chunk.commitSeq =
        some (buffers, out)) :
    (buffers.Active config ∧ ∀ e ∈ buffers, Dated config c.done e.2.batcher) ∧
      ((∀ e ∈ buffers, OnTime config c.done e.2.batcher) ↔
        (∀ e ∈ old.others chunk.origin, OnTime config c.done e.2.batcher) ∧
          (((old.held chunk.origin).length + chunk.records.length) % config.maxBatchRecords = 0 ∨
            c.done < keptSince config c.read (old.held chunk.origin) chunk.records.length +
              config.maxBatchAge)) := by
  obtain ⟨before, known, b, after, b', out', hslot, hbefore, he, hpush, hb'⟩ :=
    push_split c.read chunk.origin
      (stamp config c.read (old.held chunk.origin).length chunk.records) chunk.commitSeq ha
  obtain ⟨rfl, rfl⟩ := Prod.mk.inj (Option.some.inj (hpush.symm.trans hp))
  have hheld := hslot.held_eq hbefore
  have hothers := hslot.others_eq hbefore
  have hrest : ∀ e ∈ before ++ after, Dated config c.done e.2.batcher := by
    rw [← hothers]
    exact fun e hm => (hd e (List.mem_of_mem_eraseP hm)).mono (ht.trans (c.le_done 0))
  have hown : b.batcher.Valid config ∧ Dated config time b.batcher := by
    cases hslot with
    | found => exact ⟨(ha (known, b) (by simp)).1.valid, hd (known, b) (by simp)⟩
    | fresh hk hb ha =>
      subst hb
      exact ⟨InsertBatcher.valid_new config, dated_new config time⟩
  obtain ⟨hdated, hiff⟩ := push_dated hown.1 hown.2 c ht chunk.records
  rw [← hheld, ← hb'] at hdated hiff
  refine ⟨⟨(ha.push hp).1, (forall_retain fun _ => hdated).mpr ⟨hrest, hdated⟩⟩, ?_⟩
  rw [forall_retain, hiff, hothers]
  intro hempty
  rw [he.aligned.isEmpty_iff] at hempty
  simp [OnTime, hempty]

/-- A timer event leaves the buffers whose deadline it has not reached. -/
theorem isNone_flushIfExpired {T : Type} {b : InsertBatcher T} (hne : b.buffer ≠ []) (now : Nat) :
    (b.flushIfExpired now).2.isNone = true ↔ ¬∃ d ∈ b.deadline, d ≤ now := by
  unfold InsertBatcher.flushIfExpired
  cases hb : b.deadline with
  | none => simp
  | some d => by_cases hd : d ≤ now <;> simp [hd, InsertBatcher.flush, hne]

namespace BatcherLoop

variable {config : InsertBatcherConfig} {s s' : BatcherLoop O R}

/-- After the last event, no buffer holds a record past its age deadline. -/
def OnTime (config : InsertBatcherConfig) (s : BatcherLoop O R) : Prop :=
  ∀ e ∈ s.buffers, Storage.OnTime config s.time e.2.batcher

instance : DecidablePred (OnTime config : BatcherLoop O R → Prop) :=
  fun s => inferInstanceAs (Decidable (∀ e ∈ s.buffers, Storage.OnTime config s.time e.2.batcher))

structure Inv (config : InsertBatcherConfig) (s : BatcherLoop O R) : Prop where
  active : s.buffers.Active config
  dated : ∀ e ∈ s.buffers, Dated config s.time e.2.batcher

section Step

variable [BEq O]

/-- What an event needs so that no buffer is late when it is done. A chunk leaves
the buffers of the other origins alone; its own origin's buffer may be drained,
keep its oldest record, or start anew within the chunk. -/
def Prompt (config : InsertBatcherConfig) (s : BatcherLoop O R) : LoopEvent O R → Prop
  | .arrive _ => True
  | .message readings =>
    match s.inbox with
    | .logs chunk :: _ =>
      if chunk.records = [] then ∀ e ∈ s.buffers, Storage.OnTime config readings.done e.2.batcher
      else
        let held := s.buffers.held chunk.origin
        (∀ e ∈ s.buffers.others chunk.origin, Storage.OnTime config readings.done e.2.batcher) ∧
          ((held.length + chunk.records.length) % config.maxBatchRecords = 0 ∨
            readings.done <
              keptSince config readings.read held chunk.records.length + config.maxBatchAge)
    | _ => True
  | .timer now done =>
    ∀ e ∈ s.buffers, (∃ d ∈ e.2.batcher.deadline, d ≤ now) ∨ Storage.OnTime config done e.2.batcher

/-- An event keeps the dates, and loses the bound exactly if it is not prompt. -/
theorem step_iff {e : LoopEvent O R} (h : s.Inv config) (ht : s.OnTime config)
    (hs : s.step config e = some s') : s'.Inv config ∧ (s'.OnTime config ↔ s.Prompt config e) := by
  obtain ⟨ha, hd⟩ := h
  have hne : ∀ e ∈ s.buffers, e.2.batcher.buffer ≠ [] := fun e hm => ha.buffer_ne_nil hm
  cases e with
  | arrive message =>
    obtain rfl := Option.some.inj hs
    exact ⟨⟨ha, hd⟩, iff_of_true ht trivial⟩
  | message c =>
    simp only [step] at hs
    split_ifs at hs with hc
    have hle : s.time ≤ c.done := hc.trans (c.le_done 0)
    unfold receive at hs
    unfold Prompt
    split at hs
    · cases hs
    · rename_i chunk rest hinbox
      simp only [hinbox]
      split_ifs at hs ⊢ with hempty
      · obtain rfl := Option.some.inj hs
        exact ⟨⟨ha, fun e hm => (hd e hm).mono hle⟩, Iff.rfl⟩
      · obtain ⟨⟨buffers, out⟩, hp, hs⟩ := Option.bind_eq_some_iff.mp hs
        obtain rfl := Option.some.inj hs
        obtain ⟨⟨hactive, hdated⟩, hiff⟩ := push_step ha hd c hc chunk hp
        exact ⟨⟨hactive, hdated⟩, hiff⟩
    · rename_i rest hinbox
      simp only [hinbox]
      obtain ⟨⟨buffers, out⟩, hp, hs⟩ := Option.bind_eq_some_iff.mp hs
      obtain rfl := Option.some.inj hs
      obtain ⟨out', hf⟩ := flushWith_filter InsertBatcher.flush_cases ha
      obtain ⟨rfl, -⟩ := Prod.mk.inj (Option.some.inj (hf.symm.trans hp))
      -- every buffer is non-empty, so the barrier leaves none
      have hnil : (s.buffers.filter fun e => e.2.batcher.flush.2.isNone) = [] :=
        List.filter_eq_nil_iff.mpr fun e hm => by simp [InsertBatcher.flush, hne e hm]
      rw [hnil]
      exact ⟨⟨fun e hm => absurd hm List.not_mem_nil, fun e hm => absurd hm List.not_mem_nil⟩,
        iff_of_true (fun e hm => absurd hm List.not_mem_nil) trivial⟩
  | timer now done =>
    simp only [step] at hs
    split_ifs at hs with hc
    obtain ⟨-, hnow, hdone, -⟩ := hc
    obtain ⟨⟨buffers, out⟩, hp, hs⟩ := Option.bind_eq_some_iff.mp hs
    obtain rfl := Option.some.inj hs
    obtain ⟨out', hf⟩ := flushWith_filter (InsertBatcher.flushIfExpired_cases now) ha
    obtain ⟨rfl, -⟩ := Prod.mk.inj (Option.some.inj (hf.symm.trans hp))
    refine ⟨⟨fun e hm => ha e (List.mem_of_mem_filter hm), fun e hm =>
      (hd e (List.mem_of_mem_filter hm)).mono (hnow.trans hdone)⟩, ?_⟩
    simp only [OnTime, Prompt, List.mem_filter, and_imp]
    refine forall₂_congr fun e hm => ?_
    rw [isNone_flushIfExpired (hne e hm)]
    exact or_iff_not_imp_left.symm

omit [BEq O] in
theorem inv_new : (new : BatcherLoop O R).Inv config :=
  ⟨fun _ hm => absurd hm List.not_mem_nil, fun _ hm => absurd hm List.not_mem_nil⟩

end Step

end BatcherLoop

/-- A run of the loop keeps the latency bound exactly as long as its events are prompt. -/
theorem batching_latency_exact [BEq O] (config : InsertBatcherConfig)
    (events : List (LoopEvent O R)) :
    Throughout (BatcherLoop.step config) (BatcherLoop.OnTime config) .new events ↔
      Along (BatcherLoop.step config) (BatcherLoop.Prompt config) .new events :=
  throughout_iff_along BatcherLoop.step_iff BatcherLoop.inv_new
    fun _ hm => absurd hm List.not_mem_nil

section Starvation

/-- Batches of eight records, at most ten ticks old. -/
def tenTicks : InsertBatcherConfig := ⟨8, 10, by decide⟩

/-- A record for origin 1 is buffered at 0. Behind it three chunks for origin 2 are
in the queue, and every message takes four ticks. -/
def burst : List (LoopEvent Nat Nat) :=
  [.arrive (.logs ⟨1, [100], 1⟩), .arrive (.logs ⟨2, [200], 2⟩), .arrive (.logs ⟨2, [201], 3⟩),
    .arrive (.logs ⟨2, [202], 4⟩), .message (.still 0 4 (by decide)),
    .message (.still 4 8 (by decide)), .message (.still 8 12 (by decide)),
    .message (.still 12 16 (by decide))]

/-- The last message is taken at 12, two ticks after the deadline of origin 1, whose
record is still held when it is done. -/
theorem burst_starves_timer :
    (BatcherLoop.run tenTicks .new burst).map
        (fun s => (s.time, (s.buffers.held 1).map Arrived.arrival)) = some (16, [0]) ∧
      ¬Throughout (BatcherLoop.step tenTicks) (BatcherLoop.OnTime tenTicks) .new burst := by
  decide +kernel

end Starvation

end OtelSqlite.Storage
