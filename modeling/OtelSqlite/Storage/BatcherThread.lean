import Mathlib.Algebra.Order.Group.Multiset
import Mathlib.Tactic.Abel
import OtelSqlite.Storage.Books
import OtelSqlite.Storage.Line

/-!
# The batcher thread and its command queue

`run` of the batcher, with a command queue that may lose its receiver between any two
sends. A failed send does not end the handling of an event: the submissions that are left
are still offered, and every one that is refused is counted. The thread remembers each send
with its verdict, the chunks it received and the ledger calls it made.
-/

namespace OtelSqlite.Storage

open OtelSqlite.Core OtelSqlite.Core.Commit OtelSqlite.Core.Batcher

variable {O T : Type} {out : List (Submission O T)} {buffers : OriginBuffers O T}

/-- Which sends the command queue takes. A receiver that is gone does not come back. -/
structure Channel where
  accepts : Nat → Bool
  stays : ∀ i, accepts i = false → accepts (i + 1) = false

/-- The writer takes every command. -/
def Channel.connected : Channel := ⟨fun _ => true, fun _ h => by cases h⟩

inductive BatcherEvent (O T : Type) where
  /-- `clock` and `now` are the clock readings while the message is handled. -/
  | message (clock : Nat → Nat) (now : Nat) (message : IngestMessage O T)
  | timer (now : Nat)

/-- The chunk an event brings. -/
def BatcherEvent.chunk : BatcherEvent O T → Option (LogChunk O T)
  | .message _ _ (.logs chunk) => some chunk
  | _ => none

def recordCount : WriteCommand O T → Nat
  | .insertLogs batch => batch.records.length
  | _ => 0

structure BatcherThread (O T : Type) where
  buffers : OriginBuffers O T
  alive : Bool
  droppedRecords : Nat
  sends : List (WriteCommand O T × Bool)
  received : List (LogChunk O T)
  calls : List Call

namespace BatcherThread

def new : BatcherThread O T := ⟨[], true, 0, [], [], []⟩

/-- The commands in the order they were offered to the queue. -/
def offered (s : BatcherThread O T) : List (WriteCommand O T) := s.sends.map Prod.fst

/-- The commands the queue took. -/
def sent (s : BatcherThread O T) : List (WriteCommand O T) :=
  (s.sends.filter fun x => x.2).map Prod.fst

/-- The commands it refused. -/
def refused (s : BatcherThread O T) : List (WriteCommand O T) :=
  (s.sends.filter fun x => !x.2).map Prod.fst

def submit (channel : Channel) (s : BatcherThread O T) (command : WriteCommand O T) :
    BatcherThread O T :=
  let accepted := channel.accepts s.sends.length
  { s with
    alive := s.alive && accepted
    droppedRecords := s.droppedRecords + if accepted then 0 else recordCount command
    sends := s.sends ++ [(command, accepted)] }

def submitLogBatch (channel : Channel) (s : BatcherThread O T) (submission : Submission O T) :
    BatcherThread O T := s.submit channel (.insertLogs submission)

/-- Every submission is offered, also behind a failed send. -/
def submitAll (channel : Channel) (s : BatcherThread O T) (out : List (Submission O T)) :
    BatcherThread O T := out.foldl (submitLogBatch channel) s

def flushBuffers (channel : Channel) (s : BatcherThread O T) : Option (BatcherThread O T) := do
  let (buffers, out) ← s.buffers.flushAll
  some ({ s with buffers }.submitAll channel out)

/-- The barrier follows the partial batches if the writer is still there. -/
def barrier (channel : Channel) (s : BatcherThread O T) : BatcherThread O T :=
  if s.alive then s.submit channel .flush else s

section Loop

variable [BEq O] (config : InsertBatcherConfig) (channel : Channel)

/-- One event of the loop; `none` is a panic. -/
def step (s : BatcherThread O T) : BatcherEvent O T → Option (BatcherThread O T)
  | .message clock now (.logs chunk) =>
    let s := { s with received := s.received ++ [chunk] }
    if chunk.records = [] then some { s with calls := s.calls ++ [.void chunk.commitSeq now] }
    else do
      let (buffers, out) ← s.buffers.push config clock chunk.origin chunk.records chunk.commitSeq
      some ({ s with buffers }.submitAll channel out)
  | .message _ _ .flush => do
    let s ← s.flushBuffers channel
    some (s.barrier channel)
  | .timer now => do
    let (buffers, out) ← s.buffers.flushExpired now
    some ({ s with buffers }.submitAll channel out)

/-- The loop takes events while the writer is there. -/
def loop : List (BatcherEvent O T) → BatcherThread O T → Option (BatcherThread O T)
  | [], s => some s
  | e :: events, s =>
    if s.alive then do
      let s ← s.step config channel e
      loop events s
    else some s

end Loop

/-- What is left behind when the writer is gone is dropped, and the ledger closed. -/
def abandon (s : BatcherThread O T) : BatcherThread O T :=
  { s with
    droppedRecords := s.droppedRecords + s.buffers.buffered
    calls := s.calls ++ [.close] }

/-- The end of `run`, behind the loop. -/
def finish (channel : Channel) (s : BatcherThread O T) : Option (BatcherThread O T) := do
  let s ← if s.alive then s.flushBuffers channel else some s
  some (if s.alive then s else s.abandon)

/-- `run`: the events up to the disconnection of the input, and the end. -/
def run [BEq O] (config : InsertBatcherConfig) (channel : Channel)
    (events : List (BatcherEvent O T)) : Option (BatcherThread O T) := do
  let s ← loop config channel events new
  s.finish channel

end BatcherThread

section Records

/-- The records of the submissions. -/
def submittedRecords (out : List (Submission O T)) : List T := out.flatMap LogWriteBatch.records

def bufferedRecords (buffers : OriginBuffers O T) : List T :=
  buffers.flatMap fun e => e.2.batcher.buffer

/-- The records an operation adds. -/
def Op.records : Op O T → List T
  | .push _ _ records _ => records
  | _ => []

theorem length_bufferedRecords (buffers : OriginBuffers O T) :
    (bufferedRecords buffers).length = buffers.buffered := by
  simp only [bufferedRecords, List.length_flatMap]
  rfl

variable {config : InsertBatcherConfig} {origin : O} {b b' : OriginBuffer T}
  {buffers' before after : OriginBuffers O T} {emitted : List (Submission O T)}
  {ops : List (Op O T)}

theorem map_snd_flatMap_rowsOf (h : ∀ s ∈ out, ∃ origin, Labelled config origin s) :
    (out.flatMap rowsOf).map Prod.snd = submittedRecords out := by
  rw [List.map_flatMap, submittedRecords]
  refine List.flatMap_congr fun s hs => ?_
  obtain ⟨origin, hlabelled⟩ := h s hs
  exact hlabelled.map_snd_rowsOf

theorem Emits.records {added : List (Row T)} (h : Emits config origin b b' added out)
    (hb : b.Aligned config) :
    submittedRecords out ++ b'.batcher.buffer = b.batcher.buffer ++ added.map Prod.snd := by
  have hstream := congrArg (List.map Prod.snd) h.stream
  rwa [List.map_append, List.map_append, h.aligned.map_snd_rows, hb.map_snd_rows,
    map_snd_flatMap_rowsOf fun s hs => ⟨origin, h.labelled s hs⟩] at hstream

theorem bufferedRecords_retain {rest : OriginBuffers O T} (h : b.Aligned config) :
    bufferedRecords (OriginBuffers.retain origin b rest) =
      b.batcher.buffer ++ bufferedRecords rest := by
  unfold OriginBuffers.retain
  split
  · next hempty =>
    rw [h.isEmpty_iff.mp hempty]
    rfl
  · rfl

/-- A flush moves records from the buffers to the submissions. -/
theorem Flushed.records_perm (h : Flushed config buffers buffers' out) (ha : buffers.Active config)
    :
    (submittedRecords out ++ bufferedRecords buffers').Perm (bufferedRecords buffers) := by
  induction h with
  | nil => exact .refl _
  | @cons origin b b' rest rest' out more he hr ih =>
    have hfirst := he.records (ha (origin, b) List.mem_cons_self).1
    rw [List.map_nil, List.append_nil] at hfirst
    have hrest := ih fun e hmem => ha e (List.mem_cons_of_mem _ hmem)
    have hout : submittedRecords (out ++ more) = submittedRecords out ++ submittedRecords more :=
      List.flatMap_append
    rw [hout, bufferedRecords_retain he.aligned]
    calc submittedRecords out ++ submittedRecords more ++
          (b'.batcher.buffer ++ bufferedRecords rest')
      _ = submittedRecords out ++ (submittedRecords more ++ b'.batcher.buffer) ++
          bufferedRecords rest' := by simp
      _ |>.Perm (submittedRecords out ++ (b'.batcher.buffer ++ submittedRecords more) ++
          bufferedRecords rest') := (List.perm_append_comm.append_left _).append_right _
      _ = submittedRecords out ++ b'.batcher.buffer ++
          (submittedRecords more ++ bufferedRecords rest') := by simp
      _ |>.Perm (b.batcher.buffer ++ bufferedRecords rest) := by
        rw [hfirst]
        exact hrest.append_left _

theorem Slot.bufferedRecords_eq [BEq O] {known : O} (h : Slot origin before known b after buffers) :
    bufferedRecords buffers =
      bufferedRecords before ++ (b.batcher.buffer ++ bufferedRecords after) := by
  cases h with
  | found => simp [bufferedRecords]
  | fresh hk hb ha =>
    subst hb ha
    simp [bufferedRecords, OriginBuffer.new, InsertBatcher.new]

theorem Slot.aligned [BEq O] {known : O} (h : Slot origin before known b after buffers)
    (ha : buffers.Active config) : b.Aligned config := by
  cases h with
  | found => exact (ha _ (List.mem_append_right _ List.mem_cons_self)).1
  | fresh hk hb hn => exact hb ▸ OriginBuffer.aligned_new config

/-- An operation loses no record and makes none up. -/
theorem Applied.records_perm [BEq O] {op : Op O T} (h : Applied config buffers op buffers' out)
    (ha : buffers.Active config) :
    (submittedRecords out ++ bufferedRecords buffers').Perm
      (bufferedRecords buffers ++ op.records) := by
  cases h with
  | @push clock origin known records commitSeq before after b b' out hs hb he =>
    have hone := he.records (hs.aligned ha)
    rw [map_snd_chunkRows] at hone
    have htaken : (submittedRecords out : Multiset T) + b'.batcher.buffer =
        b.batcher.buffer + records := by
      rw [Multiset.coe_add, Multiset.coe_add, hone]
    have hbefore : bufferedRecords (before ++ OriginBuffers.retain known b' after) =
        bufferedRecords before ++ bufferedRecords (OriginBuffers.retain known b' after) :=
      List.flatMap_append
    rw [hs.bufferedRecords_eq, hbefore, bufferedRecords_retain he.aligned]
    apply Multiset.coe_eq_coe.mp
    simp only [← Multiset.coe_add]
    calc (submittedRecords out : Multiset T) +
          (bufferedRecords before + (b'.batcher.buffer + bufferedRecords after))
      _ = bufferedRecords before + (submittedRecords out + b'.batcher.buffer) +
          bufferedRecords after := by abel
      _ = bufferedRecords before + (b.batcher.buffer + bufferedRecords after) + records := by
        rw [htaken]
        abel
  | expired hf | all hf => exact (hf.records_perm ha).trans (.of_eq (List.append_nil _).symm)

/-- A run of the buffers neither. -/
theorem exec_records_perm [BEq O] (h : exec config ops = some (buffers, emitted)) :
    (submittedRecords emitted ++ bufferedRecords buffers).Perm (ops.flatMap Op.records) := by
  obtain ⟨buffers', emitted', he, -, hperm⟩ := exec_induction config
    (fun ops buffers emitted =>
      (submittedRecords emitted ++ bufferedRecords buffers).Perm (ops.flatMap Op.records))
    (.refl _) (fun ops buffers emitted op buffers' out ih ha happ => by
      have hop := happ.records_perm ha
      have hout : submittedRecords (emitted ++ out) =
          submittedRecords emitted ++ submittedRecords out := List.flatMap_append
      rw [hout, List.append_assoc, List.flatMap_append, List.flatMap_singleton]
      have hstep := hop.append_left (submittedRecords emitted)
      rw [← List.append_assoc (submittedRecords emitted) (bufferedRecords buffers)] at hstep
      exact hstep.trans (ih.append_right _)) ops
  rw [h, Option.some.injEq, Prod.mk.injEq] at he
  rw [he.1, he.2]
  exact hperm

def chunkRecords (chunks : List (LogChunk O T)) : List T := chunks.flatMap LogChunk.records

/-- The records the events bring, in order. -/
def receivedRecords (events : List (BatcherEvent O T)) : List T :=
  chunkRecords (events.filterMap BatcherEvent.chunk)

theorem chunkRecords_append (xs ys : List (LogChunk O T)) :
    chunkRecords (xs ++ ys) = chunkRecords xs ++ chunkRecords ys := List.flatMap_append

theorem chunkRecords_pushedChunks (ops : List (Op O T)) :
    chunkRecords (pushedChunks ops) = ops.flatMap Op.records := by
  induction ops with
  | nil => rfl
  | cons op ops ih =>
    rw [List.flatMap_cons, ← ih]
    cases op <;> rfl

theorem chunkRecords_filled (chunks : List (LogChunk O T)) :
    chunkRecords (filled chunks) = chunkRecords chunks := by
  induction chunks with
  | nil => rfl
  | cons c chunks ih =>
    have hcons : chunkRecords (c :: chunks) = c.records ++ chunkRecords chunks :=
      List.flatMap_cons
    rw [hcons, ← ih]
    cases hr : c.records with
    | nil => simp [filled, hr]
    | cons x xs => simp [filled, chunkRecords, hr]

theorem Flow.records_perm [BEq O] {received : List (LogChunk O T)}
    (h : Flow config received ops buffers emitted) :
    (submittedRecords emitted ++ bufferedRecords buffers).Perm (chunkRecords received) := by
  rw [← chunkRecords_filled, ← h.pushes, chunkRecords_pushedChunks]
  exact exec_records_perm h.run

/-- A full flush leaves no buffer. -/
theorem flushAll_nil (ha : buffers.Active config) : ∃ out, buffers.flushAll = some ([], out) := by
  obtain ⟨out, hflush⟩ := flushWith_filter InsertBatcher.flush_cases ha
  refine ⟨out, hflush.trans ?_⟩
  have hnone : buffers.filter (fun e => (InsertBatcher.flush e.2.batcher).2.isNone) = [] := by
    apply List.filter_eq_nil_iff.mpr
    intro e he
    simp [InsertBatcher.flush, ha.buffer_ne_nil he]
  rw [hnone]

end Records

/-- The records of the insert commands, in order. -/
def insertedRecords (commands : List (WriteCommand O T)) : List T :=
  submittedRecords (insertsOf commands)

theorem insertedRecords_append (xs ys : List (WriteCommand O T)) :
    insertedRecords (xs ++ ys) = insertedRecords xs ++ insertedRecords ys := by
  rw [insertedRecords, insertsOf_append]
  exact List.flatMap_append

theorem insertsOf_map_insertLogs (out : List (LogWriteBatch O T)) :
    insertsOf (out.map .insertLogs) = out := by
  rw [insertsOf, List.filterMap_map]
  exact List.filterMap_some

namespace BatcherThread

variable {config : InsertBatcherConfig} {channel : Channel} {s s' : BatcherThread O T}
  {e : BatcherEvent O T}

section Sends

variable (channel s)

@[simp] theorem buffers_submitAll (out : List (Submission O T)) :
    (s.submitAll channel out).buffers = s.buffers := by
  induction out generalizing s with
  | nil => rfl
  | cons b out ih => exact (ih _).trans rfl

@[simp] theorem received_submitAll (out : List (Submission O T)) :
    (s.submitAll channel out).received = s.received := by
  induction out generalizing s with
  | nil => rfl
  | cons b out ih => exact (ih _).trans rfl

@[simp] theorem calls_submitAll (out : List (Submission O T)) :
    (s.submitAll channel out).calls = s.calls := by
  induction out generalizing s with
  | nil => rfl
  | cons b out ih => exact (ih _).trans rfl

@[simp] theorem offered_submit (command : WriteCommand O T) :
    (s.submit channel command).offered = s.offered ++ [command] := by
  simp [offered, submit]

theorem offered_submitAll (out : List (Submission O T)) :
    (s.submitAll channel out).offered = s.offered ++ out.map .insertLogs := by
  induction out generalizing s with
  | nil => simp [submitAll]
  | cons b out ih =>
    refine (ih (s.submitLogBatch channel b)).trans ?_
    simp [submitLogBatch]

theorem insertsOf_offered_submitAll (out : List (Submission O T)) :
    insertsOf (s.submitAll channel out).offered = insertsOf s.offered ++ out := by
  rw [offered_submitAll, insertsOf_append, insertsOf_map_insertLogs]

@[simp] theorem buffers_barrier : (s.barrier channel).buffers = s.buffers := by
  unfold barrier
  split <;> rfl

@[simp] theorem received_barrier : (s.barrier channel).received = s.received := by
  unfold barrier
  split <;> rfl

@[simp] theorem calls_barrier : (s.barrier channel).calls = s.calls := by
  unfold barrier
  split <;> rfl

/-- A barrier is no insert. -/
theorem insertsOf_offered_barrier :
    insertsOf (s.barrier channel).offered = insertsOf s.offered := by
  unfold barrier
  split
  · rw [offered_submit, insertsOf_append]
    exact List.append_nil _
  · rfl

end Sends

/-- What one event does. -/
inductive StepTo [BEq O] (config : InsertBatcherConfig) (channel : Channel)
    (s : BatcherThread O T) : BatcherEvent O T → BatcherThread O T → Prop
  | skip {clock : Nat → Nat} {now : Nat} {chunk : LogChunk O T} : chunk.records = [] →
      StepTo config channel s (.message clock now (.logs chunk))
        { s with
          received := s.received ++ [chunk]
          calls := s.calls ++ [.void chunk.commitSeq now] }
  | push {clock : Nat → Nat} {now : Nat} {chunk : LogChunk O T} {buffers : OriginBuffers O T}
      {out : List (Submission O T)} : chunk.records ≠ [] →
      Op.apply config s.buffers (.push clock chunk.origin chunk.records chunk.commitSeq) =
        some (buffers, out) →
      StepTo config channel s (.message clock now (.logs chunk))
        ({ s with received := s.received ++ [chunk], buffers }.submitAll channel out)
  | flush {clock : Nat → Nat} {now : Nat} {out : List (Submission O T)} :
      Op.apply config s.buffers .flushAll = some ([], out) →
      StepTo config channel s (.message clock now .flush)
        (({ s with buffers := [] }.submitAll channel out).barrier channel)
  | timer {now : Nat} {buffers : OriginBuffers O T} {out : List (Submission O T)} :
      Op.apply config s.buffers (.flushExpired now) = some (buffers, out) →
      StepTo config channel s (.timer now) ({ s with buffers }.submitAll channel out)

/-- An event adds its chunk to the received ones. -/
theorem StepTo.received [BEq O] (h : StepTo config channel s e s') :
    s'.received = s.received ++ [e].filterMap BatcherEvent.chunk := by
  cases h with
  | skip => rfl
  | push => exact received_submitAll _ _ _
  | flush =>
    rw [received_barrier, received_submitAll]
    exact (List.append_nil _).symm
  | timer => exact (received_submitAll _ _ _).trans (List.append_nil _).symm

theorem flushBuffers_eq [BEq O] (ha : s.buffers.Active config) :
    ∃ out, Op.apply config s.buffers .flushAll = some ([], out) ∧
      s.flushBuffers channel = some ({ s with buffers := [] }.submitAll channel out) := by
  obtain ⟨out, hout⟩ := flushAll_nil ha
  refine ⟨out, hout, ?_⟩
  rw [flushBuffers, hout]
  rfl

theorem step_stepTo [BEq O] (channel : Channel) (ha : s.buffers.Active config)
    (e : BatcherEvent O T) :
    ∃ s', s.step config channel e = some s' ∧ StepTo config channel s e s' := by
  cases e with
  | message clock now m =>
    cases m with
    | logs chunk =>
      by_cases hempty : chunk.records = []
      · exact ⟨_, if_pos hempty, .skip hempty⟩
      · obtain ⟨buffers, out, hop, -⟩ :=
          apply_applied ha (.push clock chunk.origin chunk.records chunk.commitSeq)
        refine ⟨_, ?_, .push hempty hop⟩
        have hpush : s.buffers.push config clock chunk.origin chunk.records chunk.commitSeq =
          some (buffers, out) := hop
        simp only [step, if_neg hempty, hpush, Option.bind_eq_bind, Option.bind_some]
    | flush =>
      obtain ⟨out, hout, hflush⟩ := @flushBuffers_eq _ _ _ channel _ _ ha
      refine ⟨_, ?_, .flush hout⟩
      simp only [step, hflush, Option.bind_eq_bind, Option.bind_some]
  | timer now =>
    obtain ⟨buffers, out, hop, -⟩ := apply_applied ha (.flushExpired now)
    refine ⟨_, ?_, .timer hop⟩
    have hexpired : s.buffers.flushExpired now = some (buffers, out) := hop
    simp only [step, hexpired, Option.bind_eq_bind, Option.bind_some]

section Runs

variable [BEq O]

/-- What the thread has offered and what it holds come from the chunks it received. -/
def Flowing (config : InsertBatcherConfig) (s : BatcherThread O T) : Prop :=
  ∃ ops, Flow config s.received ops s.buffers (insertsOf s.offered)

theorem Flowing.active (h : Flowing config s) : s.buffers.Active config := by
  obtain ⟨ops, hflow⟩ := h
  exact hflow.active

theorem Flowing.perm (h : Flowing config s) :
    (insertedRecords s.offered ++ bufferedRecords s.buffers).Perm (chunkRecords s.received) := by
  obtain ⟨ops, hflow⟩ := h
  exact hflow.records_perm

theorem flowing_new (config : InsertBatcherConfig) : Flowing config (new : BatcherThread O T) :=
  ⟨[], flow_nil⟩

theorem Flowing.flush (h : Flowing config s) {op : Op O T}
    (hop : op.apply config s.buffers = some (buffers, out)) (hp : pushedChunks [op] = []) :
    Flowing config ({ s with buffers }.submitAll channel out) := by
  obtain ⟨ops, hflow⟩ := h
  refine ⟨ops ++ [op], ?_⟩
  rw [insertsOf_offered_submitAll, buffers_submitAll, received_submitAll]
  exact hflow.flush op hp hop

theorem StepTo.flowing (h : StepTo config channel s e s') (hs : Flowing config s) :
    Flowing config s' := by
  cases h with
  | skip hempty =>
    obtain ⟨ops, hflow⟩ := hs
    exact ⟨ops, hflow.skip hempty⟩
  | @push clock now chunk buffers out hne hop =>
    obtain ⟨ops, hflow⟩ := hs
    refine ⟨ops ++ [.push clock chunk.origin chunk.records chunk.commitSeq], ?_⟩
    rw [insertsOf_offered_submitAll, buffers_submitAll, received_submitAll]
    exact hflow.push hne hop
  | flush hop =>
    obtain ⟨ops, hflow⟩ := @Flowing.flush _ _ _ _ _ channel _ _ hs _ hop rfl
    refine ⟨ops, ?_⟩
    rw [insertsOf_offered_barrier, buffers_barrier, received_barrier]
    exact hflow
  | timer hop => exact hs.flush hop rfl

theorem loop_cons (e : BatcherEvent O T) (events : List (BatcherEvent O T)) :
    s.loop config channel (e :: events) =
      if s.alive then (s.step config channel e).bind fun s' => s'.loop config channel events
      else some s := rfl

/-- The induction over the loop: it does not panic, and what every event keeps holds at its
end. Events are left over only if the writer is gone. -/
theorem loop_induction (config : InsertBatcherConfig) (channel : Channel)
    (P : List (BatcherEvent O T) → BatcherThread O T → Prop)
    (hstep : ∀ done s e s', P done s → s.alive = true → StepTo config channel s e s' →
      P (done ++ [e]) s') (events done : List (BatcherEvent O T)) (hs : Flowing config s)
    (hp : P done s) :
    ∃ taken s', s.loop config channel events = some s' ∧ Flowing config s' ∧
      P (done ++ taken) s' ∧ taken <+: events ∧ (s'.alive = true → taken = events) := by
  induction events generalizing done s with
  | nil => exact ⟨[], s, rfl, hs, by rwa [List.append_nil], List.nil_prefix, fun _ => rfl⟩
  | cons e events ih =>
    cases halive : s.alive with
    | false =>
      refine ⟨[], s, ?_, hs, by rwa [List.append_nil], List.nil_prefix, fun h => ?_⟩
      · simp [loop_cons, halive]
      · rw [halive] at h
        cases h
    | true =>
      obtain ⟨s₁, hrun, hto⟩ := step_stepTo channel hs.active e
      obtain ⟨taken, s', hloop, hflow, hend, hprefix, hall⟩ :=
        ih (done ++ [e]) (hto.flowing hs) (hstep done s e s₁ hp halive hto)
      refine ⟨e :: taken, s', ?_, hflow, ?_, (List.prefix_cons_inj e).mpr hprefix,
        fun h => by rw [hall h]⟩
      · simp [loop_cons, halive, hrun, hloop]
      · rwa [List.append_assoc] at hend

end Runs

end BatcherThread

end OtelSqlite.Storage
