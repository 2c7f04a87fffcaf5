import OtelSqlite.Storage.BatcherThread

/-!
# A flush is a barrier

While the writer takes every command, the thread's command stream is cut by its `Flush`
commands as the message stream is cut by the `Flush` messages. Between two of them stand
the same records, in full, timer and barrier batches of any cut.
-/

namespace OtelSqlite.Storage

open OtelSqlite.Core OtelSqlite.Core.Commit OtelSqlite.Core.Batcher

variable {O T : Type}

def BatcherEvent.isFlush : BatcherEvent O T → Bool
  | .message _ _ .flush => true
  | _ => false

def isFlushCommand : WriteCommand O T → Bool
  | .flush => true
  | _ => false

theorem countP_isFlushCommand_insertLogs (out : List (LogWriteBatch O T)) :
    (out.map .insertLogs).countP (isFlushCommand (O := O) (T := T)) = 0 := by
  rw [List.countP_map, List.countP_eq_zero]
  intro b _
  exact Bool.false_ne_true

namespace BatcherThread

variable {config : InsertBatcherConfig} {s s' : BatcherThread O T}

/-- From a state with empty buffers on, what is offered and held is what came since. -/
theorem Flowing.perm_since [BEq O] (h : Flowing config s) (h' : Flowing config s')
    (hempty : s.buffers = []) {more : List (WriteCommand O T)}
    (ho : s'.offered = s.offered ++ more) {chunks : List (LogChunk O T)}
    (hr : s'.received = s.received ++ chunks) :
    (insertedRecords more ++ bufferedRecords s'.buffers).Perm (chunkRecords chunks) := by
  have hbefore : (insertedRecords s.offered).Perm (chunkRecords s.received) := by
    have hperm := h.perm
    rwa [hempty, bufferedRecords, List.flatMap_nil, List.append_nil] at hperm
  have hafter := h'.perm
  rw [ho, hr, insertedRecords_append, chunkRecords_append, List.append_assoc] at hafter
  exact (List.perm_append_left_iff _).mp (hafter.trans (hbefore.symm.append_right _))

/-- The writer is there, and every command offered was taken. -/
structure Served (s : BatcherThread O T) : Prop where
  alive : s.alive = true
  sent_eq : s.sent = s.offered

theorem served_new : Served (new : BatcherThread O T) := ⟨rfl, rfl⟩

theorem Served.submit (h : Served s) (command : WriteCommand O T) :
    Served (s.submit .connected command) where
  alive := by
    rw [BatcherThread.submit, h.alive]
    rfl
  sent_eq := by
    rw [offered_submit, ← h.sent_eq]
    simp [sent, BatcherThread.submit, Channel.connected]

theorem Served.submitAll {out : List (Submission O T)} (h : Served s) :
    Served (s.submitAll .connected out) := by
  induction out generalizing s with
  | nil => exact h
  | cons b out ih => exact ih (h.submit (.insertLogs b))

theorem Served.barrier_eq (h : Served s) :
    s.barrier .connected = s.submit .connected .flush := if_pos h.alive

theorem Served.of_eq (h : Served s) (ha : s'.alive = s.alive) (hs : s'.sends = s.sends) :
    Served s' := by
  refine ⟨ha.trans h.alive, ?_⟩
  rw [sent, offered, hs]
  exact h.sent_eq

/-- What the events have done to a served thread since the state `s`. -/
structure Since (s : BatcherThread O T) (events : List (BatcherEvent O T))
    (s' : BatcherThread O T) : Prop where
  served : Served s'
  received : s'.received = s.received ++ events.filterMap BatcherEvent.chunk
  commands : ∃ more, s'.offered = s.offered ++ more ∧
    more.countP isFlushCommand = events.countP BatcherEvent.isFlush

theorem Served.since (h : Served s) : Since s [] s where
  served := h
  received := (List.append_nil _).symm
  commands := ⟨[], (List.append_nil _).symm, rfl⟩

section Steps

variable [BEq O] {e : BatcherEvent O T}

/-- The commands of one event: its batches, and the barrier behind them. -/
theorem StepTo.commands (h : StepTo config .connected s e s') (hs : Served s) :
    Served s' ∧ ∃ out : List (Submission O T), s'.offered = s.offered ++
      (out.map .insertLogs ++ if e.isFlush then [.flush] else []) := by
  cases h with
  | skip hempty => exact ⟨hs.of_eq rfl rfl, [], (List.append_nil _).symm⟩
  | @push clock now chunk buffers out hne hop | @timer now buffers out hop =>
    refine ⟨Served.submitAll (hs.of_eq rfl rfl), out, ?_⟩
    rw [offered_submitAll]
    exact congrArg _ (List.append_nil _).symm
  | @flush clock now out hop =>
    have hall : Served ({ s with buffers := [] }.submitAll .connected out) :=
      Served.submitAll (hs.of_eq rfl rfl)
    rw [hall.barrier_eq]
    refine ⟨hall.submit _, out, ?_⟩
    rw [offered_submit, offered_submitAll, List.append_assoc]
    rfl

theorem Since.step {s₀ : BatcherThread O T} {done : List (BatcherEvent O T)} (h : Since s₀ done s)
    (hto : StepTo config .connected s e s') : Since s₀ (done ++ [e]) s' := by
  obtain ⟨hserved, out, hoffered⟩ := hto.commands h.served
  obtain ⟨more, hmore, hcount⟩ := h.commands
  refine ⟨hserved, ?_, more ++ (out.map .insertLogs ++ if e.isFlush then [.flush] else []),
    ?_, ?_⟩
  · rw [hto.received, h.received, List.filterMap_append, List.append_assoc]
  · rw [hoffered, hmore, List.append_assoc]
  · rw [List.countP_append, List.countP_append, List.countP_append, hcount,
      countP_isFlushCommand_insertLogs, Nat.zero_add, List.countP_singleton]
    cases e.isFlush <;> rfl

/-- A served thread takes all events. -/
theorem loop_since (config : InsertBatcherConfig) (events : List (BatcherEvent O T))
    (hflow : Flowing config s) (hs : Served s) :
    ∃ s', s.loop config .connected events = some s' ∧ Flowing config s' ∧ Since s events s' := by
  obtain ⟨taken, s', hloop, hflow', hsince, -, hall⟩ := loop_induction config .connected (Since s)
    (fun _ _ _ _ hp _ hto => hp.step hto) events [] hflow hs.since
  rw [List.nil_append, hall hsince.served.alive] at hsince
  exact ⟨s', hloop, hflow', hsince⟩

theorem loop_append (channel : Channel) (xs ys : List (BatcherEvent O T)) :
    s.loop config channel (xs ++ ys) =
      (s.loop config channel xs).bind fun s' => s'.loop config channel ys := by
  induction xs generalizing s with
  | nil => rfl
  | cons e xs ih =>
    rw [List.cons_append, loop_cons, loop_cons]
    split
    · cases s.step config channel e with
      | none => rfl
      | some s₁ => exact ih
    · next halive =>
      cases ys with
      | nil => rfl
      | cons y ys => exact (if_neg halive).symm

/-- After a `Flush` message the buffers are empty and the `Flush` command is the last one. -/
theorem step_flush_served (clock : Nat → Nat) (now : Nat) (hflow : Flowing config s)
    (hs : Served s) :
    ∃ s' out, s.step config .connected (.message clock now .flush) = some s' ∧
      Flowing config s' ∧ Served s' ∧ s'.buffers = [] ∧ s'.received = s.received ∧
      s'.offered = s.offered ++ out ++ [.flush] ∧ out.countP isFlushCommand = 0 := by
  obtain ⟨s', hstep, hto⟩ := step_stepTo .connected hflow.active (.message clock now .flush)
  obtain ⟨hserved, out, hoffered⟩ := hto.commands hs
  refine ⟨s', out.map .insertLogs, hstep, hto.flowing hflow, hserved, ?_, ?_, ?_,
    countP_isFlushCommand_insertLogs out⟩
  · cases hto with
    | flush hop => rw [buffers_barrier, buffers_submitAll]
  · exact hto.received.trans (List.append_nil _)
  · rw [hoffered, List.append_assoc]
    rfl

/-- The end of a served run: the buffers are flushed, and nothing else happens. -/
theorem finish_served (hflow : Flowing config s) (hs : Served s) :
    ∃ s' rest, s.finish .connected = some s' ∧ Flowing config s' ∧ s'.buffers = [] ∧
      s'.received = s.received ∧ s'.sent = s.sent ++ rest ∧ s'.sent = s'.offered := by
  obtain ⟨out, hout, hflush⟩ := @flushBuffers_eq _ _ _ .connected _ _ hflow.active
  have hserved : Served ({ s with buffers := [] }.submitAll .connected out) :=
    Served.submitAll (hs.of_eq rfl rfl)
  refine ⟨_, out.map .insertLogs, ?_, hflow.flush hout rfl, buffers_submitAll _ _ _,
    received_submitAll _ _ _, ?_, hserved.sent_eq⟩
  · rw [finish, if_pos hs.alive, hflush]
    exact congrArg some (if_pos hserved.alive)
  · rw [hserved.sent_eq, offered_submitAll, hs.sent_eq]
    rfl

/-- For every stream of chunks, flushes and timer events that the thread handles while the
writer takes its commands: once the input is disconnected, each record it received has been
emitted exactly once, and each `Flush` message has its `Flush` command. The records emitted
before it are those received before the message, and the records received after it stand
behind it, or are still buffered. -/
theorem flush_is_barrier (config : InsertBatcherConfig) (events : List (BatcherEvent O T)) :
    ∃ s s' rest, new.loop config .connected events = some s ∧
      run config .connected events = some s' ∧ s'.sent = s.sent ++ rest ∧
      (insertedRecords s'.sent).Perm (receivedRecords events) ∧
      s.sent.countP isFlushCommand = events.countP BatcherEvent.isFlush ∧
      ∀ before clock now after, events = before ++ .message clock now .flush :: after →
        ∃ pre post, s.sent = pre ++ .flush :: post ∧
          pre.countP isFlushCommand = before.countP BatcherEvent.isFlush ∧
          (insertedRecords pre).Perm (receivedRecords before) ∧
          (insertedRecords post ++ bufferedRecords s.buffers).Perm (receivedRecords after) ∧
          (insertedRecords (post ++ rest)).Perm (receivedRecords after) := by
  have hstart : Flowing config (new : BatcherThread O T) := flowing_new config
  obtain ⟨s, hloop, hflow, hsince⟩ := loop_since config events hstart served_new
  obtain ⟨s', rest, hfinish, hflow', hempty, hreceived, hsent, hall⟩ :=
    finish_served hflow hsince.served
  refine ⟨s, s', rest, hloop, ?_, hsent, ?_, ?_, ?_⟩
  · simp only [run, hloop, hfinish, Option.bind_eq_bind, Option.bind_some]
  · have hperm := hflow'.perm
    rwa [hempty, hreceived, hsince.received, bufferedRecords, List.flatMap_nil, List.append_nil,
      ← hall] at hperm
  · obtain ⟨more, hmore, hcount⟩ := hsince.commands
    rw [hsince.served.sent_eq, hmore, ← hcount]
    rfl
  · rintro before clock now after rfl
    -- The three parts of the run: up to the message, the message, and behind it.
    obtain ⟨s₁, hloop₁, hflow₁, hsince₁⟩ := loop_since config before hstart served_new
    obtain ⟨s₂, out, hstep, hflow₂, hserved₂, hempty₂, hreceived₂, hoffered₂, hcount₂⟩ :=
      step_flush_served clock now hflow₁ hsince₁.served
    obtain ⟨s₃, hloop₃, hflow₃, hsince₃⟩ := loop_since config after hflow₂ hserved₂
    have hwhole : new.loop config .connected (before ++ .message clock now .flush :: after) =
        some s₃ := by
      rw [loop_append, hloop₁, Option.bind_some, loop_cons, if_pos hsince₁.served.alive, hstep]
      exact hloop₃
    obtain rfl : s = s₃ := Option.some.inj (hloop.symm.trans hwhole)
    obtain ⟨more, hmore, hcountMore⟩ := hsince₁.commands
    obtain ⟨post, hpost, -⟩ := hsince₃.commands
    have hpre : (insertedRecords (s₁.offered ++ out)).Perm (receivedRecords before) := by
      have hperm := hflow₂.perm
      have hnone : insertedRecords [(.flush : WriteCommand O T)] = [] := rfl
      rwa [hempty₂, hreceived₂, hoffered₂, hsince₁.received, insertedRecords_append, hnone,
        List.append_nil, bufferedRecords, List.flatMap_nil, List.append_nil] at hperm
    refine ⟨s₁.offered ++ out, post, ?_, ?_, hpre, ?_, ?_⟩
    · rw [hsince₃.served.sent_eq, hpost, hoffered₂, List.append_assoc]
      rfl
    · rw [List.countP_append, hcount₂, hmore, ← hcountMore]
      rfl
    · exact hflow₂.perm_since hflow₃ hempty₂ hpost hsince₃.received
    · have hend : s'.offered = s₂.offered ++ (post ++ rest) := by
        rw [← hall, hsent, hsince₃.served.sent_eq, hpost, List.append_assoc]
      have hperm := hflow₂.perm_since hflow' hempty₂ hend (hreceived.trans hsince₃.received)
      rwa [hempty, bufferedRecords, List.flatMap_nil, List.append_nil] at hperm

end Steps

end BatcherThread

end OtelSqlite.Storage
