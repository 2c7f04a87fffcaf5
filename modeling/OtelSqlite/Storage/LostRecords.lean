import OtelSqlite.Core.CommitHistory
import OtelSqlite.Storage.BatcherThread

/-!
# Records that outlive the writer

The command queue may lose its receiver between any two sends. What was taken before that
stands before what is refused after it, so the batches the writer got are the first ones of
the thread's stream. A ticket with a row among the refused or buffered ones is then not
closed by any batch the writer got: no call of the system settles it.
-/

namespace OtelSqlite.Storage

open OtelSqlite.Core OtelSqlite.Core.Commit OtelSqlite.Core.Batcher

variable {O T : Type} {c : Call} {config : InsertBatcherConfig}

theorem recordCount_eq (command : WriteCommand O T) :
    recordCount command = (insertedRecords [command]).length := by
  cases command <;> simp [recordCount, insertedRecords, insertsOf, submittedRecords]

namespace BatcherThread

variable {config : InsertBatcherConfig} {channel : Channel} {s s' : BatcherThread O T}
  {out : List (Submission O T)}

/-- The books of the sends. -/
structure Booked (channel : Channel) (s : BatcherThread O T) : Prop where
  /-- A command that was taken was not behind one that was refused. -/
  sorted : s.offered = s.sent ++ s.refused
  alive_iff : s.alive = true ↔ s.refused = []
  latched : s.alive = false → channel.accepts s.sends.length = false
  counted : s.droppedRecords = (insertedRecords s.refused).length

theorem booked_new (channel : Channel) : Booked channel (new : BatcherThread O T) where
  sorted := rfl
  alive_iff := ⟨fun _ => rfl, fun _ => rfl⟩
  latched := fun h => (by cases h)
  counted := rfl

theorem Booked.of_eq (h : Booked channel s) (ha : s'.alive = s.alive) (hs : s'.sends = s.sends)
    (hd : s'.droppedRecords = s.droppedRecords) : Booked channel s' where
  sorted := by
    rw [offered, sent, refused, hs]
    exact h.sorted
  alive_iff := by
    rw [refused, hs, ha]
    exact h.alive_iff
  latched := by
    rw [ha, hs]
    exact h.latched
  counted := by
    rw [refused, hs, hd]
    exact h.counted

theorem sent_submit (channel : Channel) (s : BatcherThread O T) (command : WriteCommand O T) :
    (s.submit channel command).sent =
      s.sent ++ if channel.accepts s.sends.length then [command] else [] := by
  cases h : channel.accepts s.sends.length <;> simp [sent, submit, h]

theorem refused_submit (channel : Channel) (s : BatcherThread O T)
    (command : WriteCommand O T) :
    (s.submit channel command).refused =
      s.refused ++ if channel.accepts s.sends.length then [] else [command] := by
  cases h : channel.accepts s.sends.length <;> simp [refused, submit, h]

theorem Booked.submit (h : Booked channel s) (command : WriteCommand O T) :
    Booked channel (s.submit channel command) := by
  cases haccepts : channel.accepts s.sends.length with
  | true =>
    -- The receiver is there, so nothing was refused before.
    have halive : s.alive = true := by
      cases ha : s.alive with
      | true => rfl
      | false => exact absurd haccepts (by rw [h.latched ha]; exact Bool.false_ne_true)
    have hnone := h.alive_iff.mp halive
    have hrefused : (s.submit channel command).refused = [] := by
      rw [refused_submit, hnone, haccepts]
      rfl
    refine ⟨?_, ⟨fun _ => hrefused, fun _ => ?_⟩, fun hdead => ?_, ?_⟩
    · rw [hrefused, offered_submit, sent_submit, h.sorted, hnone, haccepts]
      simp
    · rw [BatcherThread.submit, haccepts, halive]
      rfl
    · rw [BatcherThread.submit, haccepts, halive] at hdead
      cases hdead
    · rw [hrefused, BatcherThread.submit, haccepts, h.counted, hnone]
      rfl
  | false =>
    have hrefused : (s.submit channel command).refused = s.refused ++ [command] := by
      rw [refused_submit, haccepts]
      rfl
    refine ⟨?_, ⟨fun halive => ?_, fun hnil => ?_⟩, fun _ => ?_, ?_⟩
    · rw [hrefused, offered_submit, sent_submit, h.sorted, haccepts]
      simp
    · rw [BatcherThread.submit, haccepts, Bool.and_false] at halive
      cases halive
    · rw [hrefused] at hnil
      exact absurd hnil (List.append_ne_nil_of_right_ne_nil _ (List.cons_ne_nil _ _))
    · have hlength : (s.submit channel command).sends.length = s.sends.length + 1 := by
        simp [BatcherThread.submit]
      rw [hlength]
      exact channel.stays _ haccepts
    · rw [hrefused, insertedRecords_append, List.length_append, ← recordCount_eq, ← h.counted]
      simp [BatcherThread.submit, haccepts]

theorem Booked.submitAll (h : Booked channel s) : Booked channel (s.submitAll channel out) := by
  induction out generalizing s with
  | nil => exact h
  | cons b out ih => exact ih (h.submit (.insertLogs b))

theorem Booked.barrier (h : Booked channel s) : Booked channel (s.barrier channel) := by
  unfold BatcherThread.barrier
  split
  · exact h.submit .flush
  · exact h

/-- The loop's own ledger calls void the tickets of empty chunks. -/
def VoidsEmpty (s : BatcherThread O T) (c : Call) : Prop :=
  ∃ chunk ∈ s.received, chunk.records = [] ∧ ∃ now, c = .void chunk.commitSeq now

theorem VoidsEmpty.mono (h : VoidsEmpty s c) (hr : ∀ chunk ∈ s.received, chunk ∈ s'.received) :
    VoidsEmpty s' c := by
  obtain ⟨chunk, hm, hempty, now, rfl⟩ := h
  exact ⟨chunk, hr chunk hm, hempty, now, rfl⟩

/-- What every event keeps. -/
structure Kept (channel : Channel) (s : BatcherThread O T) : Prop where
  booked : Booked channel s
  calls : ∀ c ∈ s.calls, VoidsEmpty s c

theorem kept_new (channel : Channel) : Kept channel (new : BatcherThread O T) :=
  ⟨booked_new channel, fun _ h => absurd h List.not_mem_nil⟩

theorem Kept.of_eq (h : Kept channel s) (ha : s'.alive = s.alive) (hs : s'.sends = s.sends)
    (hd : s'.droppedRecords = s.droppedRecords) (hc : s'.calls = s.calls)
    (hr : ∀ chunk ∈ s.received, chunk ∈ s'.received) : Kept channel s' := by
  refine ⟨h.booked.of_eq ha hs hd, fun c hm => ?_⟩
  rw [hc] at hm
  exact (h.calls c hm).mono hr

theorem Kept.submitAll (h : Kept channel s) : Kept channel (s.submitAll channel out) := by
  refine ⟨h.booked.submitAll, fun c hc => ?_⟩
  rw [calls_submitAll] at hc
  exact (h.calls c hc).mono fun x hx => by rwa [received_submitAll]

theorem Kept.barrier (h : Kept channel s) : Kept channel (s.barrier channel) := by
  refine ⟨h.booked.barrier, fun c hc => ?_⟩
  rw [calls_barrier] at hc
  exact (h.calls c hc).mono fun x hx => by rwa [received_barrier]

/-- Emptied buffers do not show in the books. -/
theorem Kept.flush (h : Kept channel s) :
    Kept channel ({ s with buffers := [] }.submitAll channel out) :=
  Kept.submitAll (h.of_eq rfl rfl rfl rfl fun _ hx => hx)

theorem StepTo.kept [BEq O] {e : BatcherEvent O T} (h : StepTo config channel s e s')
    (hs : Kept channel s) : Kept channel s' := by
  cases h with
  | @skip clock now chunk hempty =>
    refine ⟨hs.booked.of_eq rfl rfl rfl, fun c hc => ?_⟩
    rcases List.mem_append.mp hc with hc | hc
    · exact (hs.calls c hc).mono fun x hx => List.mem_append_left _ hx
    · obtain rfl := List.mem_singleton.mp hc
      exact ⟨chunk, List.mem_append_right _ List.mem_cons_self, hempty, now, rfl⟩
  | push hne hop =>
    exact Kept.submitAll (hs.of_eq rfl rfl rfl rfl fun x hx => List.mem_append_left _ hx)
  | flush hop => exact hs.flush.barrier
  | timer hop => exact Kept.submitAll (hs.of_eq rfl rfl rfl rfl fun _ hx => hx)

/-- How `run` leaves the thread. -/
structure Ended [BEq O] (config : InsertBatcherConfig) (s : BatcherThread O T) : Prop where
  flowing : Flowing config s
  sorted : s.offered = s.sent ++ s.refused
  counted : s.droppedRecords =
    (insertedRecords s.refused).length + (bufferedRecords s.buffers).length
  closed : 0 < s.droppedRecords → .close ∈ s.calls
  calls : ∀ c ∈ s.calls, c = .close ∨ VoidsEmpty s c

section Runs

variable [BEq O]

theorem Kept.abandon (h : Kept channel s) (hflow : Flowing config s) :
    Ended config s.abandon where
  flowing := hflow
  sorted := h.booked.sorted
  counted := by
    rw [BatcherThread.abandon, ← length_bufferedRecords, h.booked.counted]
    rfl
  closed := fun _ => List.mem_append_right _ List.mem_cons_self
  calls := by
    intro c hc
    rcases List.mem_append.mp hc with hc | hc
    · exact Or.inr (h.calls c hc)
    · exact Or.inl (List.mem_singleton.mp hc)

/-- A thread that ends with the writer still there has lost nothing. -/
theorem Kept.drained (h : Kept channel s) (hflow : Flowing config s) (ha : s.alive = true)
    (hempty : s.buffers = []) : Ended config s where
  flowing := hflow
  sorted := h.booked.sorted
  counted := by
    rw [hempty, h.booked.counted]
    rfl
  closed := by
    rw [h.booked.counted, h.booked.alive_iff.mp ha]
    exact fun hpos => absurd hpos (Nat.lt_irrefl 0)
  calls := fun c hc => Or.inr (h.calls c hc)

theorem finish_ended (h : Kept channel s) (hflow : Flowing config s) :
    ∃ s', s.finish channel = some s' ∧ Ended config s' ∧ s'.received = s.received ∧
      (s'.refused = [] → s.alive = true) := by
  cases ha : s.alive with
  | false =>
    refine ⟨s.abandon, ?_, h.abandon hflow, rfl, fun hnil => ?_⟩
    · simp [finish, ha]
    · rw [h.booked.alive_iff.mpr hnil] at ha
      cases ha
  | true =>
    obtain ⟨out, hout, hflush⟩ := @flushBuffers_eq _ _ _ channel _ _ hflow.active
    set s₁ := ({ s with buffers := [] } : BatcherThread O T).submitAll channel out with hs₁
    have hkept : Kept channel s₁ := h.flush
    have hflow₁ : Flowing config s₁ := hflow.flush hout rfl
    cases ha₁ : s₁.alive with
    | false =>
      refine ⟨s₁.abandon, ?_, hkept.abandon hflow₁, received_submitAll _ _ _, fun _ => rfl⟩
      simp [finish, ha, hflush, ha₁]
    | true =>
      refine ⟨s₁, ?_, hkept.drained hflow₁ ha₁ (buffers_submitAll _ _ _),
        received_submitAll _ _ _, fun _ => rfl⟩
      simp [finish, ha, hflush, ha₁]

/-- `run` always returns, and leaves events behind only if the queue refused a command. -/
theorem run_ended (config : InsertBatcherConfig) (channel : Channel)
    (events : List (BatcherEvent O T)) :
    ∃ s taken, run config channel events = some s ∧ Ended config s ∧ taken <+: events ∧
      s.received = taken.filterMap BatcherEvent.chunk ∧ (s.refused = [] → taken = events) := by
  have hstart : Flowing config (new : BatcherThread O T) := flowing_new config
  obtain ⟨taken, s, hloop, hflow, ⟨hkept, hreceived⟩, hprefix, hall⟩ := loop_induction config channel
    (fun done s => Kept channel s ∧ s.received = done.filterMap BatcherEvent.chunk)
    (fun done s e s' hp _ hto => ⟨hto.kept hp.1, by
      rw [hto.received, hp.2, List.filterMap_append]⟩) events [] hstart
    ⟨kept_new channel, rfl⟩
  obtain ⟨s', hfinish, hended, hsame, halive⟩ := finish_ended hkept hflow
  refine ⟨s', taken, ?_, hended, hprefix, hsame.trans hreceived, fun hnil => hall (halive hnil)⟩
  simp only [run, hloop, hfinish, Option.bind_eq_bind, Option.bind_some]

end Runs

/-- The dropped records of the ticket: those in refused commands and those left buffered. -/
def lostWith (t : Nat) (s : BatcherThread O T) : List T :=
  submittedWith t (insertsOf s.refused) ++ bufferedWith t s.buffers

/-- A ledger call that some party makes around the run: ingress hands out tickets, and voids
those it could not send; the writer settles the commands it got; any party may close. -/
inductive Permitted (s : BatcherThread O T) : Call → Prop
  | issue : Permitted s .issue
  | close : Permitted s .close
  | batcher {c : Call} : c ∈ s.calls → Permitted s c
  | writer {weather : Weather T} {now : Nat} {command : WriteCommand O T} {effect : Effect T}
      {c : Call} : command ∈ s.sent → execute weather now command = .ok effect →
      c ∈ effect.calls → Permitted s c
  | ingress {t now : Nat} : t ∉ ticketsOf s.received → Permitted s (.void t now)

end BatcherThread

/-- A batch from the origin buffers settles only tickets it closes. -/
theorem closes_of_settles {origin : O} {b : LogWriteBatch O T} (h : Labelled config origin b)
    {salvage : Option SalvageOutcome} {now t : Nat} (hc : c ∈ settleLogBatch b salvage now)
    (hs : c.Settles t) : closes t b.segments = true := by
  cases batchCall_of_mem hc with
  | committed u n | dropped u n => exact hs.elim
  | unmapped hnil ht => exact absurd hnil (segments_ne_nil h)
  | closed hg hlast =>
    simp only [closes, List.any_eq_true, Bool.and_eq_true, beq_iff_eq]
    exact ⟨_, hg, hs, hlast⟩

/-- So does the writer's execution of a command. -/
theorem closes_of_execute {weather : Weather T} {now t : Nat} {command : WriteCommand O T}
    {effect : Effect T} (hl : AllLabelled config (insertsOf [command]))
    (he : execute weather now command = .ok effect) (hc : c ∈ effect.calls) (hs : c.Settles t) :
    ∃ b ∈ insertsOf [command], closes t b.segments = true := by
  cases command with
  | insertLogs b =>
    obtain ⟨origin, hlab⟩ := hl b List.mem_cons_self
    rw [execute, if_neg hlab.nonempty] at he
    cases hp : persistWithPolicy weather b with
    | error failure =>
      rw [hp] at he
      cases he
    | ok persisted =>
      rw [hp] at he
      obtain rfl := Except.ok.inj he
      exact ⟨b, List.mem_cons_self, closes_of_settles hlab hc hs⟩
  | flush =>
    obtain rfl := Except.ok.inj he
    cases hc
  | checkpoint | maintenance =>
    rw [execute] at he
    split at he
    · cases he
    · obtain rfl := Except.ok.inj he
      cases hc

namespace BatcherThread

section Tickets

variable [BEq O] {config : InsertBatcherConfig} {s : BatcherThread O T} {chunk : LogChunk O T}

/-- The rows of a received chunk: those the writer got, and behind them those that are lost. -/
theorem Ended.follows (h : Ended config s) (hd : (ticketsOf s.received).Nodup)
    (hc : chunk ∈ s.received) :
    Follows chunk.commitSeq chunk.records (insertsOf s.sent)
      (emittedRows (byTicket chunk.commitSeq) (insertsOf s.refused) ++
        bufferRows (byTicket chunk.commitSeq) s.buffers) := by
  obtain ⟨ops, hflow⟩ := h.flowing
  rw [h.sorted, insertsOf_append] at hflow
  exact (hflow.follows_received hd hc).split

theorem Ended.labelled (h : Ended config s) : AllLabelled config (insertsOf s.sent) := by
  obtain ⟨ops, hflow⟩ := h.flowing
  rw [h.sorted, insertsOf_append] at hflow
  exact fun b hb => hflow.labelled b (List.mem_append_left _ hb)

theorem Ended.records_eq (h : Ended config s) (hd : (ticketsOf s.received).Nodup)
    (hc : chunk ∈ s.received) :
    chunk.records =
      submittedWith chunk.commitSeq (insertsOf s.sent) ++ lostWith chunk.commitSeq s := by
  have hrows := congrArg (List.map Prod.snd) (h.follows hd hc)
  rw [List.map_append, List.map_append, map_snd_submittedWith, map_snd_submittedWith,
    map_snd_bufferedWith, map_snd_chunkRows] at hrows
  exact hrows.symm

/-- No call around the run settles a ticket with a lost record. -/
theorem Ended.not_settles (h : Ended config s) (hd : (ticketsOf s.received).Nodup)
    (hchunk : chunk ∈ s.received) (hlost : lostWith chunk.commitSeq s ≠ []) (hc : Permitted s c) :
    ¬ c.Settles chunk.commitSeq := by
  intro hs
  cases hc with
  | issue | close => exact hs
  | batcher hmem =>
    rcases h.calls c hmem with rfl | ⟨chunk', hr, hempty, now, rfl⟩
    · exact hs
    · -- The voided chunk is the one with the ticket, and it had no record to lose.
      obtain rfl : chunk' = chunk := List.inj_on_of_nodup_map hd hr hchunk hs
      have hrecords := h.records_eq hd hchunk
      rw [hempty] at hrecords
      exact hlost (List.append_eq_nil_iff.mp hrecords.symm).2
  | @writer weather now command effect _ hsent he hmem =>
    have hsub : ∀ b ∈ insertsOf [command], b ∈ insertsOf s.sent := by
      intro b hb
      obtain ⟨x, hx, hbx⟩ := List.mem_filterMap.mp hb
      obtain rfl := List.mem_singleton.mp hx
      exact List.mem_filterMap.mpr ⟨x, hsent, hbx⟩
    obtain ⟨b, hb, hcloses⟩ :=
      closes_of_execute (fun b hb => h.labelled b (hsub b hb)) he hmem hs
    have htail := (h.follows hd hchunk).closed h.labelled ⟨b, hsub b hb, hcloses⟩
    have hnone := congrArg (List.map Prod.snd) htail
    rw [List.map_append, map_snd_submittedWith, map_snd_bufferedWith] at hnone
    exact hlost hnone
  | ingress ht =>
    refine ht (List.mem_map.mpr ⟨chunk, hchunk, ?_⟩)
    exact hs.symm

/-- For every stream of events and every point at which the command queue loses its receiver:
`run` returns. It has received the chunks of a first part of the events, of all of them unless
a command was refused. Their records are those in the commands the queue took and those it
counted as dropped, which are the records of the refused commands and of the buffers left
behind. If there are any, the thread has closed the ledger. A received chunk's records are
those the writer got followed by the lost ones, and if some are lost, no interleaving of
ledger calls around the run makes its ticket completed. -/
theorem lost_records_counted (config : InsertBatcherConfig) (channel : Channel)
    (events : List (BatcherEvent O T)) :
    ∃ s taken, run config channel events = some s ∧ taken <+: events ∧
      s.received = taken.filterMap BatcherEvent.chunk ∧ (s.refused = [] → taken = events) ∧
      (receivedRecords taken).length = (insertedRecords s.sent).length + s.droppedRecords ∧
      s.droppedRecords =
        (insertedRecords s.refused).length + (bufferedRecords s.buffers).length ∧
      ∀ (start : Nat) (history : List Call),
        ((∀ c ∈ s.calls, c ∈ history) → 0 < s.droppedRecords →
          ((CommitLedger.new start).run history).inner.closed = true) ∧
        ((∀ c ∈ history, Permitted s c) → (ticketsOf s.received).Nodup →
          ∀ chunk ∈ s.received, chunk.commitSeq ≠ 0 →
            chunk.records = submittedWith chunk.commitSeq (insertsOf s.sent) ++
              lostWith chunk.commitSeq s ∧
            (lostWith chunk.commitSeq s ≠ [] →
              ((CommitLedger.new start).run history).state chunk.commitSeq ≠ .completed)) := by
  obtain ⟨s, taken, hrun, hended, hprefix, hreceived, hall⟩ := run_ended config channel events
  have hperm := hended.flowing.perm.length_eq
  rw [hended.sorted, insertedRecords_append, List.length_append, List.length_append,
    hreceived] at hperm
  have hcounted := hended.counted
  refine ⟨s, taken, hrun, hprefix, hreceived, hall, ?_, hcounted,
    fun start history => ⟨fun hcalls hpos => ?_, ?_⟩⟩
  · rw [receivedRecords]
    omega
  · exact (closed_run_iff _ _).mpr (Or.inr (hcalls _ (hended.closed hpos)))
  · intro hpermitted hd chunk hchunk h0
    refine ⟨hended.records_eq hd hchunk, fun hlost hcompleted => ?_⟩
    have hrecords := records_run start history
    obtain ⟨-, c, hc, hsettles⟩ :=
      (hrecords.settled_iff chunk.commitSeq).mp ⟨Nat.pos_of_ne_zero h0, by
        by_contra hopen
        rw [CommitLedger.state_fresh hrecords.wellFormed h0 hopen] at hcompleted
        cases hcompleted⟩
    exact hended.not_settles hd hchunk hlost (hpermitted c hc) hsettles

end Tickets

/-- The queue takes one batch and is gone when the second one comes. -/
def oneSend : Channel := ⟨fun i => i == 0, by simp⟩

/-- A chunk of five records under ticket 1, and a timer event behind it. -/
def fiveRecords : List (BatcherEvent Nat Nat) :=
  [.message (fun _ => 0) 0 (.logs ⟨0, [10, 11, 12, 13, 14], 1⟩), .timer 20]

def cutShort : BatcherThread Nat Nat :=
  (run ⟨2, 10, Nat.two_pos⟩ oneSend fiveRecords).get (by decide +kernel)

/-- Two of the records were sent and committed, two were refused and one was left in its
buffer. The ticket has made progress, and is not completed. -/
theorem lost_records_counted_cut :
    insertedRecords cutShort.sent = [10, 11] ∧ lostWith 1 cutShort = [12, 13, 14] ∧
      cutShort.droppedRecords = 3 ∧ cutShort.received = [⟨0, [10, 11, 12, 13, 14], 1⟩] ∧
      ((CommitLedger.new 0).run [.issue, .noteCommitted 1 2, .close]).inner.closed = true ∧
      ((CommitLedger.new 0).run [.issue, .noteCommitted 1 2, .close]).state 1 ≠ .completed := by
  obtain ⟨s, taken, hrun, -, -, -, -, -, hledger⟩ :=
    lost_records_counted ⟨2, 10, Nat.two_pos⟩ oneSend fiveRecords
  obtain rfl : cutShort = s := Option.some.inj ((Option.some_get _).trans hrun)
  obtain ⟨hclosed, hopen⟩ := hledger 0 [.issue, .noteCommitted 1 2, .close]
  have hpermitted : ∀ c ∈ [Call.issue, .noteCommitted 1 2, .close], Permitted cutShort c := by
    simp only [List.forall_mem_cons, List.not_mem_nil, false_imp_iff, implies_true, and_true]
    refine ⟨.issue, ?_, .close⟩
    -- the call of the writer for the batch it got
    have hsent : cutShort.sent = [.insertLogs ⟨0, [10, 11], [1], [⟨1, 2, false⟩]⟩] := by
      decide +kernel
    let fair : Weather Nat :=
      ⟨fun _ => ⟨none, none, fun _ _ => none, none⟩, ⟨none, none, fun _ _ => none, none⟩, none⟩
    exact @Permitted.writer _ _ _ fair 0 _ _ _ (hsent ▸ List.mem_cons_self) rfl (by decide)
  have hlost := (hopen hpermitted (by decide +kernel) ⟨0, [10, 11, 12, 13, 14], 1⟩
    (by decide +kernel) (by decide)).2
  exact ⟨by decide +kernel, by decide +kernel, by decide +kernel, by decide +kernel,
    hclosed (by decide +kernel) (by decide +kernel), hlost (by decide +kernel)⟩

end BatcherThread

end OtelSqlite.Storage
