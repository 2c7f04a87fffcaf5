import OtelSqlite.Pipeline.DurableAcks
import OtelSqlite.Sqlite.WriterRefinement
import OtelSqlite.Storage.Provenance

/-!
# The pipeline on its tables

The pipeline with the writer thread as it is: a command is executed by a turn of the writer on
its connection, with the quota in front of it, and the rows are those of `log_event`. The
operation of a maintenance command is chosen when it is executed. Every run is one of the
pipeline, whose table becomes the rows of the executed turns, and turn by turn these rows are
added to `log_event`; so an acknowledgement is about rows of `log_event`.
-/

namespace OtelSqlite.Pipeline

open OtelSqlite.Core OtelSqlite.Core.Commit OtelSqlite.Core.Batcher
open OtelSqlite.Storage OtelSqlite.Ingress OtelSqlite.Model
open OtelSqlite.Lib (Write Writes)
open OtelSqlite.Lib.Fallible (run_cases)
open OtelSqlite.Sqlite (Writer Turn WriterCommand Libraries RowIds Consistent eventOf)
open OtelSqlite.Runtime (CheckpointMode MaintenanceOperation)

variable {origins : List BatchOrigin}

section Deployed

/-- What surrounds the execution of a command, apart from the answers to its inserts. -/
structure Surroundings where
  mode : CheckpointMode
  operation : MaintenanceOperation
  depth : Nat
  backlog : Nat
  analysis : Option FailureClass
  createdAt : String
  unixNow : Int

def Surroundings.turn (around : Surroundings)
    (command : WriteCommand BatchOrigin (Exported LogRecord))
    (weather : Weather (Exported LogRecord)) (now : Nat) : Turn (Exported LogRecord) where
  command :=
    match command with
    | .insertLogs batch => .insertLogs batch
    | .flush => .flush
    | .checkpoint => .checkpoint around.mode
    | .maintenance => .maintenance around.operation
  depth := around.depth
  backlog := around.backlog
  weather := weather
  analysis := around.analysis
  createdAt := around.createdAt
  unixNow := around.unixNow
  clock := now

theorem Surroundings.kind_turn (around : Surroundings)
    (command : WriteCommand BatchOrigin (Exported LogRecord))
    (weather : Weather (Exported LogRecord)) (now : Nat) :
    (around.turn command weather now).command.kind = command := by
  cases command <;> rfl

/-- The server without a table of its own, and its writer. -/
structure Deployed where
  server : Server BatchOrigin LogRecord
  writer : Writer

inductive DeployedEvent where
  /-- A step that does not execute a command. -/
  | step (e : Event LogRecord)
  | execute (weather : Weather (Exported LogRecord)) (now : Nat) (around : Surroundings)

variable [BEq BatchOrigin] (libraries : Libraries) (rowIds : RowIds) (quota : Option Nat)
  (setup : Setup BatchOrigin LogRecord)

namespace Deployed

def executeStep (weather : Weather (Exported LogRecord)) (now : Nat) (around : Surroundings)
    (d : Deployed) : Option Deployed :=
  match d.server.writer with
  | .executing command =>
    match (Sqlite.takeTurn libraries rowIds Exported.payload quota
        (around.turn command weather now)).run d.writer with
    | (.error _, writer) => some ⟨{ d.server with writer := .leaving }, writer⟩
    | (.ok (), writer) =>
      let calls := writer.calls.drop d.writer.calls.length
      some ⟨{ d.server with writer := .settling calls }, writer⟩
  | _ => none

def step (d : Deployed) : DeployedEvent → Option Deployed
  | .step (.persist _ _) => none
  | .step e => (d.server.step setup e).map fun server => { d with server := server }
  | .execute weather now around => d.executeStep libraries rowIds quota weather now around

def run (d : Deployed) (events : List DeployedEvent) : Option Deployed :=
  events.foldlM (step libraries rowIds quota setup) d

/-- The turn the writer takes in a step. -/
def turnOf (d : Deployed) : DeployedEvent → List (Turn (Exported LogRecord))
  | .step _ => []
  | .execute weather now around =>
    match d.server.writer with
    | .executing command => [around.turn command weather now]
    | _ => []

/-- The turns the writer takes in a run. -/
def turns (d : Deployed) (events : List DeployedEvent) : List (Turn (Exported LogRecord)) :=
  Lib.Run.gather (step libraries rowIds quota setup) turnOf d events

end Deployed

end Deployed

section OtherSteps

variable {O R : Type} {setup : Setup O R} {p p' : Server O R}

def Server.over (p : Server O R) (table : List (Exported R)) : Server O R :=
  { p with table := table }

section Over

variable (table : List (Exported R))

@[simp] theorem over_ingress : (p.over table).ingress = p.ingress := rfl

@[simp] theorem over_batcher : (p.over table).batcher = p.batcher := rfl

@[simp] theorem over_buffers : (p.over table).buffers = p.buffers := rfl

@[simp] theorem over_queue : (p.over table).queue = p.queue := rfl

@[simp] theorem over_writer : (p.over table).writer = p.writer := rfl

@[simp] theorem over_handlers : (p.over table).handlers = p.handlers := rfl

@[simp] theorem over_ledger : (p.over table).ledger = p.ledger := rfl

@[simp] theorem over_goto (i : Nat) (handler : Handler) :
    (p.over table).goto i handler = (p.goto i handler).over table := rfl

@[simp] theorem over_startFinish (i : Nat) (outcome : EnqueueOutcome) :
    (p.over table).startFinish i outcome = (p.startFinish i outcome).over table := by
  unfold Server.startFinish
  split <;> rfl

end Over

theorem handleStep_over {i : Nat} (h : p.handleStep setup i = some p')
    (table : List (Exported R)) : (p.over table).handleStep setup i = some (p'.over table) := by
  have hmap : ∀ {q : Option (Server O R)}, q = some p' →
      q.map (·.over table) = some (p'.over table) := fun hq => congrArg _ hq
  cases hh : p.handlers i with
  | received =>
    simp only [Server.handleStep, over_handlers, hh, over_goto] at h ⊢
    split_ifs at h ⊢ with hlimit
    · exact hmap h
    · exact hmap h
  | enqueueing =>
    simp only [Server.handleStep, over_handlers, hh, over_ingress, over_goto,
      over_startFinish] at h ⊢
    cases hcall : p.ingress.calls i with
    | refused | full outcome | done outcome =>
      rw [hcall] at h
      exact hmap h
    | _ =>
      rw [hcall] at h
      cases h
  | waiting outcome =>
    have hover : (p.over table).released outcome = p.released outcome := rfl
    simp only [Server.handleStep, over_handlers, hh, hover, over_goto] at h ⊢
    by_cases hreleased : p.released outcome = true
    · rw [if_pos hreleased] at h ⊢
      exact hmap h
    · rw [if_neg hreleased] at h
      cases h
  | reading left count outcome =>
    simp only [Server.handleStep, over_handlers, hh] at h ⊢
    cases left with
    | nil | cons ticket left => exact hmap h
  | answered answer =>
    simp only [Server.handleStep, hh] at h
    cases h

variable [BEq O]

/-- Only the execution of a command looks at the table. -/
theorem step_over {e : Event R} (he : ∀ weather now, e ≠ .persist weather now)
    (h : p.step setup e = some p') (table : List (Exported R)) :
    (p.over table).step setup e = some (p'.over table) := by
  cases step_inv h with
  | handle hs hl => exact handleStep_over hs table
  | enqueue hh hs =>
    simp only [Server.step, over_handlers, hh, Server.ingressStep, over_ingress]
    exact congrArg (Option.bind · _) hs
  | control hs => exact congrArg (Option.bind · _) hs
  | publish k => rfl
  | void hb hq hr => simp [Server.step, Server.receiveStep, hb, hq, hr]; rfl
  | push hb hq hr hp =>
    simp [Server.step, Server.receiveStep, hb, hq, hr, hp, Server.over]
  | flush hb hq hf =>
    simp [Server.step, Server.receiveStep, hb, hq, hf, Server.over]
  | timer hb hf => simp [Server.step, Server.timerStep, hb, hf, Server.over]
  | hangUp hb hf => simp [Server.step, Server.hangUpStep, hb, hf, Server.over]
  | @offer command next ho hw hr =>
    have hsend : (p.over table).offer setup command next =
        some (Server.over { p with queue := p.queue ++ [command], batcher := next } table) := by
      simp [Server.offer, hw, hr, Server.over]
    rw [← hsend]
    cases hb : p.batcher <;> rw [hb] at ho <;> cases ho <;>
      simp [Server.step, Server.submitStep, hb]
  | @refused command next ho hw =>
    have hsend : (p.over table).offer setup command next =
        some (Server.over { p with batcher := .closing } table) := by
      simp [Server.offer, hw, Server.over]
    rw [← hsend]
    cases hb : p.batcher <;> rw [hb] at ho <;> cases ho <;>
      simp [Server.step, Server.submitStep, hb]
  | submitted hb | drained hb => simp [Server.step, Server.submitStep, hb, Server.over]
  | unwind hl => simp [Server.step, hl, Server.over]
  | close hb =>
    rcases hb with hb | hb <;> simp [Server.step, Server.batcherExit, hb] <;> rfl
  | leave hb => simp [Server.step, Server.batcherExit, hb, Server.over]
  | upkeep hw hr => simp [Server.step, hw, hr, Server.over]
  | take hw hq => simp [Server.step, hw, hq, Server.over]
  | fail hw hx | persist hw hx => exact absurd rfl (he _ _)
  | settle hw | exit hw => simp [Server.step, hw]; rfl
  | settled hw | stop hw => simp [Server.step, hw, Server.over]

end OtherSteps

section Simulation

variable (libraries : Libraries) in
/-- The row of `log_event` of a record that was written under an origin. -/
def rowEvent (row : BatchOrigin × Exported LogRecord) : Sqlite.Event :=
  eventOf libraries row.1 row.2.payload

def writtenRows (turns : List (Turn (Exported LogRecord))) :
    List (BatchOrigin × Exported LogRecord) :=
  turns.flatMap Turn.rows

theorem writtenRows_append (turns turns' : List (Turn (Exported LogRecord))) :
    writtenRows (turns ++ turns') = writtenRows turns ++ writtenRows turns' := List.flatMap_append

theorem writtenRows_singleton (turn : Turn (Exported LogRecord)) :
    writtenRows [turn] = turn.rows := List.flatMap_singleton ..

/-- What a turn does to `log_event`. -/
def turnWrite (libraries : Libraries) (quota : Option Nat) (turn : Turn (Exported LogRecord)) :
    Write Sqlite.Event :=
  ⟨turn.keepsRows quota, turn.rows.map (rowEvent libraries)⟩

variable [BEq BatchOrigin] {libraries : Libraries} {rowIds : RowIds} {quota : Option Nat}
  {setup : Setup BatchOrigin LogRecord} {d d' : Deployed} {p p' : Server BatchOrigin LogRecord}
  {done : List (Done BatchOrigin (Exported LogRecord))}

/-- The state of the pipeline that a state on tables stands for. -/
structure Simulates (libraries : Libraries) (setup : Setup BatchOrigin LogRecord)
    (d : Deployed) (p : Server BatchOrigin LogRecord) : Prop where
  server : d.server.over p.table = p
  booked : ∃ done, p.Booked setup done
  consistent : ∃ origins, Consistent libraries origins d.writer.conn.db

/-- The record is of a chunk of its request, and under the origin of that chunk. -/
def FromChunk (setup : Setup BatchOrigin LogRecord) (row : BatchOrigin × Exported LogRecord) :
    Prop :=
  ∃ chunk ∈ setup.work row.2.request, row.2 ∈ chunk.records ∧ SameOrigin chunk.origin row.1

/-- What the turns wrote: their rows are new in the table of the pipeline, and turn by turn they
were added to `log_event`. -/
structure Wrote (libraries : Libraries) (quota : Option Nat) (setup : Setup BatchOrigin LogRecord)
    (turns : List (Turn (Exported LogRecord))) (d d' : Deployed)
    (p p' : Server BatchOrigin LogRecord) : Prop where
  table : p'.table = p.table ++ (writtenRows turns).map Prod.snd
  origin : PartialEquivBEq BatchOrigin → ∀ row ∈ writtenRows turns, FromChunk setup row
  events : Writes d.writer.conn.db.events (turns.map (turnWrite libraries quota))
    d'.writer.conn.db.events

theorem Wrote.nothing (htable : p'.table = p.table) (hwriter : d'.writer = d.writer) :
    Wrote libraries quota setup [] d d' p p' where
  table := by rw [htable]; exact (List.append_nil _).symm
  origin _ row hrow := by cases hrow
  events := .done (by rw [hwriter])

theorem Wrote.trans {turns turns' : List (Turn (Exported LogRecord))} {d'' : Deployed}
    {p'' : Server BatchOrigin LogRecord} (h : Wrote libraries quota setup turns d d' p p')
    (h' : Wrote libraries quota setup turns' d' d'' p' p'') :
    Wrote libraries quota setup (turns ++ turns') d d'' p p'' where
  table := by
    rw [h'.table, h.table, writtenRows_append, List.map_append, List.append_assoc]
  origin hequiv row hrow := by
    rw [writtenRows_append] at hrow
    exact (List.mem_append.mp hrow).elim (h.origin hequiv row) (h'.origin hequiv row)
  events := by
    rw [List.map_append]
    exact h.events.append h'.events

variable (setup) in
theorem step_persist_ok {command : WriteCommand BatchOrigin (Exported LogRecord)}
    {weather : Weather (Exported LogRecord)} {now : Nat} {effect : Effect (Exported LogRecord)}
    (hw : p.writer = .executing command) (he : execute weather now command = .ok effect) :
    p.step setup (.persist weather now) = some
      { p with writer := .settling effect.calls, table := p.table ++ effect.inserted } := by
  simp only [Server.step, Server.persistStep, hw, he]

variable (setup) in
theorem step_persist_error {failure : FailureClass} (hw : p.writer = .executing command)
    (he : execute weather now command = .error failure) :
    p.step setup (.persist weather now) = some { p with writer := .leaving } := by
  simp only [Server.step, Server.persistStep, hw, he]

theorem booked_exists_step {e : Event LogRecord} (h : ∃ done, p.Booked setup done)
    (hs : p.step setup e = some p') : ∃ done, p'.Booked setup done := by
  obtain ⟨done, hb⟩ := h
  rcases booked_step hb hs with hb' | ⟨x, -, hb'⟩
  · exact ⟨_, hb'⟩
  · exact ⟨_, hb'⟩

theorem simulates_other {e : Event LogRecord} (h : Simulates libraries setup d p)
    (he : ∀ weather now, e ≠ .persist weather now) {server : Server BatchOrigin LogRecord}
    (hs : d.server.step setup e = some server) :
    ∃ p', p.step setup e = some p' ∧
      Simulates libraries setup { d with server := server } p' ∧ p'.table = p.table := by
  have hstep := step_over he hs p.table
  rw [h.server] at hstep
  exact ⟨_, hstep, ⟨rfl, booked_exists_step h.booked hstep, h.consistent⟩, rfl⟩

/-- A record of a batch that is executed is of a chunk of its request. -/
theorem inserted_fromChunk [PartialEquivBEq BatchOrigin] (hb : p.Booked setup done)
    {batch : LogWriteBatch BatchOrigin (Exported LogRecord)}
    (hw : p.writer = .executing (.insertLogs batch))
    (he : execute weather now (.insertLogs batch) = .ok effect) {record : Exported LogRecord}
    (hrecord : record ∈ effect.inserted) : FromChunk setup (batch.origin, record) := by
  obtain ⟨received, ops, emitted, rest, h⟩ := hb
  have hemitted := h.inHand_emitted hw
  obtain ⟨origin, hlabelled⟩ := h.flow.labelled batch hemitted
  obtain ⟨persisted, judged, hpersisted, rfl⟩ := execute_insert hlabelled he
  rw [hpersisted.inserted] at hrecord
  obtain ⟨row, hkept, rfl⟩ := List.mem_map.mp hrecord
  have hrow : row ∈ rowsOf batch := by
    rw [← hpersisted.rows]
    exact (keptRows_sublist judged).subset hkept
  obtain ⟨c, hc, hmem, hsame⟩ := h.flow.provenance hemitted hrow
  obtain ⟨k, hk⟩ := mem_chunksSent.mp (h.received_sent c hc)
  obtain ⟨left, hleft⟩ := h.admission.allOrNothing.in_order k
  have hbody : body c ∈ (setup.work k).map body := by
    have hsent : body c ∈ (setup.traffic.work k).map body := by
      rw [← hleft]
      exact List.mem_map_of_mem (List.mem_append_left _ hk)
    exact hsent
  obtain ⟨chunk, hchunk, hsplit⟩ := List.mem_map.mp hbody
  obtain ⟨horigin, hrecords⟩ := Prod.mk.inj hsplit
  rw [← hrecords] at hmem
  rw [← horigin] at hsame
  have hrequest := (mem_work hchunk).2 row.2 hmem
  exact ⟨chunk, by rw [hrequest]; exact hchunk, hmem, hsame⟩

theorem rows_fromChunk [PartialEquivBEq BatchOrigin] (hb : p.Booked setup done)
    {around : Surroundings} (hw : p.writer = .executing command) :
    ∀ row ∈ (around.turn command weather now).rows, FromChunk setup row := by
  intro row hrow
  obtain ⟨batch, effect, hc, he, horigin, hrecord⟩ := Turn.mem_rows hrow
  have hkind := Surroundings.kind_turn around command weather now
  rw [hc] at hkind
  have hchunk := inserted_fromChunk hb (hw.trans (congrArg _ hkind.symm)) he hrecord
  rw [← horigin] at hchunk
  exact hchunk

/-- The turn of a command, seen from the pipeline: the same answer, with an answer to its
maintenance that it can have had. -/
theorem simulates_execute {around : Surroundings} (h : Simulates libraries setup d p)
    (hs : d.executeStep libraries rowIds quota weather now around = some d') :
    ∃ upkeep p', p.step setup (.persist { weather with upkeep := upkeep } now) = some p' ∧
      Simulates libraries setup d' p' ∧
      Wrote libraries quota setup (d.turnOf (.execute weather now around)) d d' p p' := by
  unfold Deployed.executeStep at hs
  unfold Deployed.turnOf
  cases hw : d.server.writer with
  | executing command =>
    rw [hw] at hs
    dsimp only at hs ⊢
    have hpw : p.writer = .executing command := by rw [← h.server]; exact hw
    obtain ⟨origins, hconsistent⟩ := h.consistent
    obtain ⟨done, hb⟩ := h.booked
    have horigin : PartialEquivBEq BatchOrigin → ∀ row ∈
        writtenRows [around.turn command weather now], FromChunk setup row := by
      intro _ row hrow
      rw [writtenRows_singleton] at hrow
      exact rows_fromChunk hb hpw row hrow
    obtain ⟨outcome, hends⟩ := Sqlite.turnEnds_takeTurn rowIds Exported.payload quota
      (hconsistent.mono (List.subset_append_right
        (around.turn command weather now).command.origin?.toList origins))
      (fun origin horigin => List.mem_append_left _ (Option.mem_toList.mpr horigin))
    generalize (Sqlite.takeTurn libraries rowIds Exported.payload quota
      (around.turn command weather now)).run d.writer = ended at hs hends
    obtain ⟨result, w⟩ := ended
    have hrows := hends.answers.map_snd_rows
    have hstored := hends.stored.writes
    rw [hends.answers.added_eq] at hstored
    rw [← writtenRows_singleton] at hrows
    obtain ⟨upkeep, hexecute⟩ := hends.answers
    rw [Surroundings.kind_turn] at hexecute
    cases outcome with
    | ok effect =>
      obtain rfl : result = .ok () := hends.result
      obtain rfl := Option.some.inj hs
      have hstep := step_persist_ok setup hpw hexecute
      refine ⟨upkeep, _, hstep, ⟨?_, booked_exists_step h.booked hstep, ⟨_, hends.consistent⟩⟩,
        ⟨by rw [hrows]; rfl, horigin, hstored⟩⟩
      have hdue : w.calls.drop d.writer.calls.length = effect.calls := by
        rw [hends.calls, List.drop_left]
        rfl
      show Server.over { d.server with writer := .settling _ } _ = _
      rw [hdue]
      conv_rhs => rw [← h.server]
      rfl
    | error failure =>
      obtain rfl : result = .error failure := hends.result
      obtain rfl := Option.some.inj hs
      have hstep := step_persist_error setup hpw hexecute
      refine ⟨upkeep, _, hstep, ⟨?_, booked_exists_step h.booked hstep, ⟨_, hends.consistent⟩⟩,
        ⟨by rw [hrows]; exact (List.append_nil _).symm, horigin, hstored⟩⟩
      conv_rhs => rw [← h.server]
      rfl
  | _ =>
    rw [hw] at hs
    cases hs

/-- One event of the pipeline for each event on tables. -/
theorem simulates_step {e : DeployedEvent} (h : Simulates libraries setup d p)
    (hs : d.step libraries rowIds quota setup e = some d') :
    ∃ e' p', p.step setup e' = some p' ∧ Simulates libraries setup d' p' ∧
      Wrote libraries quota setup (d.turnOf e) d d' p p' ∧ (e' = .unwind → e = .step .unwind) := by
  cases e with
  | execute weather now around =>
    obtain ⟨upkeep, p', hstep, hsim, hwrote⟩ := simulates_execute h hs
    exact ⟨_, p', hstep, hsim, hwrote, fun he => by cases he⟩
  | step e =>
    have hnot : ∀ weather now, e ≠ .persist weather now := by
      rintro weather now rfl
      cases hs
    have hserver : (d.server.step setup e).map (fun server => { d with server := server }) =
        some d' := by
      cases e <;> first | exact hs | cases hs
    obtain ⟨server, hstep, rfl⟩ := Option.map_eq_some_iff.mp hserver
    obtain ⟨p', hstep', hsim, htable⟩ := simulates_other h hnot hstep
    exact ⟨e, p', hstep', hsim, .nothing htable rfl, fun he => by rw [he]⟩

/-- **Every run on tables is a run of the pipeline**, without a panic if it has none. -/
theorem simulates_run {events : List DeployedEvent} (h : Simulates libraries setup d p)
    (hs : d.run libraries rowIds quota setup events = some d') :
    ∃ events' p', p.run setup events' = some p' ∧ Simulates libraries setup d' p' ∧
      Wrote libraries quota setup (d.turns libraries rowIds quota setup events) d d' p p' ∧
      (.unwind ∈ events' → .step .unwind ∈ events) := by
  induction events generalizing d p with
  | nil =>
    obtain rfl := Option.some.inj hs
    exact ⟨[], p, rfl, h, .nothing rfl rfl, fun hmem => by cases hmem⟩
  | cons e events ih =>
    obtain ⟨d₁, h₁, hrest⟩ := Option.bind_eq_some_iff.mp hs
    obtain ⟨e', p₁, hstep, hsim, hwrote, hunwind⟩ := simulates_step h h₁
    obtain ⟨events', p', hrun, hsim', hwrote', hunwind'⟩ := ih hsim hrest
    rw [Deployed.turns, Lib.Run.gather_cons h₁]
    refine ⟨e' :: events', p', ?_, hsim', hwrote.trans hwrote', fun hmem => ?_⟩
    · rw [Server.run, List.foldlM_cons, hstep]
      exact hrun
    · rcases List.mem_cons.mp hmem with he | hmem
      · rw [hunwind he.symm]
        exact List.mem_cons_self
      · exact List.mem_cons_of_mem _ (hunwind' hmem)

theorem simulates_new {writer : Writer} (h : Consistent libraries origins writer.conn.db)
    (start : Nat) : Simulates libraries setup ⟨Server.new start, writer⟩ (Server.new start) :=
  ⟨rfl, ⟨[], booked_new setup start⟩, ⟨origins, h⟩⟩

end Simulation

section Acknowledged

variable [BEq BatchOrigin] {libraries : Libraries} {rowIds : RowIds} {quota : Option Nat}
  {setup : Setup BatchOrigin LogRecord} {i : Nat}

/-- The rows that the turns of two runs wrote, one run after the other, are accounted for by a
state of the pipeline in which every answer given after the first run is exact. -/
structure RowsExact (libraries : Libraries) (quota : Option Nat)
    (setup : Setup BatchOrigin LogRecord) (db₀ : Sqlite.Database)
    (turns : List (Turn (Exported LogRecord))) (d d' : Deployed)
    (q : Server BatchOrigin LogRecord) : Prop where
  table : (writtenRows turns).map Prod.snd = q.table
  ingress : q.ingress = d'.server.ingress
  admission : q.ingress.Inv setup.queue setup.traffic
  unsent : ∀ i, sentBy q.ingress.sent i = [] → q.committedOf i = []
  origin : ∀ row ∈ writtenRows turns, FromChunk setup row
  stored : Writes db₀.events (turns.map (turnWrite libraries quota)) d'.writer.conn.db.events
  answers : ∀ i answer, d.server.handlers i = .answered answer →
    d'.server.handlers i = .answered answer ∧ AckExact setup q i answer

theorem rows_exact [hequiv : PartialEquivBEq BatchOrigin] {start : Nat} {writer : Writer}
    (hw : Consistent libraries origins writer.conn.db) {before after : List DeployedEvent}
    {d d' : Deployed}
    (hd : Deployed.run libraries rowIds quota setup ⟨Server.new start, writer⟩ before = some d)
    (hd' : d.run libraries rowIds quota setup after = some d')
    (hbatcher : .step .unwind ∉ before ++ after) :
    ∃ q, RowsExact libraries quota setup writer.conn.db
      (Deployed.turns libraries rowIds quota setup ⟨Server.new start, writer⟩ (before ++ after))
      d d' q := by
  obtain ⟨events, p, hrun, hsim, hwrote, hunwind⟩ := simulates_run (simulates_new hw start) hd
  obtain ⟨events', q, hrun', hsim', hwrote', hunwind'⟩ := simulates_run hsim hd'
  have hclean : ∀ e ∈ events ++ events', e ≠ .unwind := by
    rintro e he rfl
    rcases List.mem_append.mp he with he | he
    · exact hbatcher (List.mem_append_left _ (hunwind he))
    · exact hbatcher (List.mem_append_right _ (hunwind' he))
  obtain ⟨-, hacks⟩ := answers_exact hrun hrun'
    (closesQuietly_of_no_unwind (by simp [Server.new]) hclean)
  obtain ⟨done, hb⟩ := hsim'.booked
  have hall := hwrote.trans hwrote'
  rw [Deployed.turns, Lib.Run.gather_append hd]
  refine ⟨q, hall.table.symm, ?_, hb.admission, fun i hi => hb.committedOf_nil hi,
    hall.origin hequiv, hall.events, fun i answer ha => ?_⟩
  · rw [← hsim'.server]
    rfl
  · have hp : p.handlers i = .answered answer := by rw [← hsim.server]; exact ha
    obtain ⟨hq, hexact⟩ := hacks i answer hp
    rw [← hsim'.server] at hq
    exact ⟨hq, hexact⟩

/-- The rows written for a request. -/
def requestRows (rows : List (BatchOrigin × Exported LogRecord)) (i : Nat) :
    List (BatchOrigin × Exported LogRecord) :=
  rows.filter fun row => row.2.request == i

theorem RowsExact.committedOf {db₀ : Sqlite.Database}
    {turns : List (Turn (Exported LogRecord))} {d d' : Deployed} {q : Server BatchOrigin LogRecord}
    (h : RowsExact libraries quota setup db₀ turns d d' q) (i : Nat) :
    (requestRows (writtenRows turns) i).map Prod.snd = q.committedOf i := by
  rw [Server.committedOf, ← h.table, List.filter_map]
  rfl

/-- **An acknowledged record is a row of `log_event`.** If a request was answered in full, and the
batcher had not panicked before that, then the turns executed until the answer have written one
row for each of its records, with the column values the insert binds and under the origin of its
chunk. Of what a turn has written, nothing is missing later if every turn behind it keeps the
rows; and a turn does so unless it is a retention that runs or there is a size quota in front of
its insert. -/
theorem acknowledged_rows_stored [PartialEquivBEq BatchOrigin] (start : Nat) (writer : Writer)
    {origins : List BatchOrigin} (hw : Consistent libraries origins writer.conn.db)
    (before after : List DeployedEvent) (d d' : Deployed)
    (hd : Deployed.run libraries rowIds quota setup ⟨Server.new start, writer⟩ before = some d)
    (hd' : d.run libraries rowIds quota setup after = some d')
    (hbatcher : .step .unwind ∉ before) (ha : d.server.handlers i = .answered (.ok ⟨none⟩)) :
    let first := Deployed.turns libraries rowIds quota setup ⟨Server.new start, writer⟩ before
    let later := d.turns libraries rowIds quota setup after
    let rows := requestRows (writtenRows first) i
    (rows.map Prod.snd).Perm (setup.recordsOf i) ∧
      (∀ row ∈ rows, ∃ chunk ∈ setup.work i, row.2 ∈ chunk.records ∧
        SameOrigin chunk.origin row.1) ∧
      Writes writer.conn.db.events (first.map (turnWrite libraries quota))
        d.writer.conn.db.events ∧
      Writes d.writer.conn.db.events (later.map (turnWrite libraries quota))
        d'.writer.conn.db.events ∧
      ∀ earlier turn behind, first ++ later = earlier ++ turn :: behind →
        (∀ turn' ∈ behind, turn'.keepsRows quota = true) →
        ((writtenRows (turn :: behind)).map (rowEvent libraries)).Subperm
          d'.writer.conn.db.events := by
  intro first later rows
  -- the answer is exact in the state in which it is given
  have hstays : d.run libraries rowIds quota setup [] = some d := rfl
  obtain ⟨q, h⟩ := rows_exact hw hd hstays (by rwa [List.append_nil])
  rw [List.append_nil] at h
  obtain ⟨_, p, _, hsim, -⟩ := simulates_run (simulates_new hw start) hd
  obtain ⟨_, _, _, _, hwrote, -⟩ := simulates_run hsim hd'
  refine ⟨?_, fun row hrow => ?_, h.stored, hwrote.events, fun earlier turn behind hsplit hkeeps => ?_⟩
  · rw [h.committedOf i]
    exact (h.answers i _ ha).2
  · obtain ⟨hmem, hrequest⟩ := List.mem_filter.mp hrow
    rw [← beq_iff_eq.mp hrequest]
    exact h.origin row hmem
  · have hwrites := h.stored.append hwrote.events
    rw [← List.map_append, hsplit, List.map_append, List.map_cons] at hwrites
    have hadded := hwrites.added_subperm fun w hw => ?_
    · rw [← List.map_cons, List.flatMap_map] at hadded
      rw [writtenRows, List.map_flatMap]
      exact hadded
    · obtain ⟨turn', hturn', rfl⟩ := List.mem_map.mp hw
      exact hkeeps turn' hturn'

end Acknowledged

section Sample

/-- Origins compared by their schema URL. -/
@[reducible] def bySchemaUrl : BEq BatchOrigin := ⟨fun a b => a.schemaUrl == b.schemaUrl⟩

attribute [local instance] bySchemaUrl

theorem partialEquivBEq_bySchemaUrl : PartialEquivBEq BatchOrigin where
  symm h := by
    unfold bySchemaUrl at h ⊢
    exact BEq.symm (α := String) h
  trans h h' := by
    unfold bySchemaUrl at h h' ⊢
    exact BEq.trans (α := String) h h'

def oneRequest : Setup BatchOrigin LogRecord where
  queue := ⟨3, by decide⟩
  batching := ⟨2, 10, Nat.two_pos⟩
  commandQueueCapacity := 4
  maxRecordsPerRequest := 10
  validated := by decide
  requests := fun
    | 0 => [⟨⟨none, "a"⟩, [Sqlite.sampleRecord 1 "first", Sqlite.sampleRecord 9 "second"],
        List.cons_ne_nil _ _⟩]
    | _ => []
  deadline := fun _ => none

def fairWeather : Weather (Exported LogRecord) :=
  ⟨fun _ => ⟨none, none, fun _ _ => none, none⟩, ⟨none, none, fun _ _ => none, none⟩, none⟩

/-- No retention: the maintenance is an analysis. -/
def analyzing : Surroundings := ⟨.truncate, .analyze, 0, 0, none, "2026-01-01", 10⟩

/-- The request is queued, written and acknowledged. -/
def oneAcknowledged : List DeployedEvent :=
  [[.step (.handle 0)], .replicate 6 (.step (.enqueue 0 0)),
    [.step (.handle 0), .step (.receive id 0), .step .submit, .step .submit, .step .take,
      .execute fairWeather 1 analyzing, .step .settle, .step .settle, .step .settle,
      .step (.publish 0), .step (.handle 0), .step (.handle 0), .step (.handle 0)]].flatten

/-- Then the tables are analyzed, and the batcher panics. -/
def thenAnalyzed : List DeployedEvent :=
  [.step (.upkeep false), .step .take, .execute fairWeather 2 analyzing, .step .unwind]

def beforeRequest : Deployed := ⟨Server.new 0, Sqlite.sampleWriter⟩

def answeredState : Option Deployed :=
  beforeRequest.run Sqlite.lengthDigest Sqlite.nextRowId none oneRequest oneAcknowledged

def analyzedState : Option Deployed :=
  answeredState.bind
    (Deployed.run Sqlite.lengthDigest Sqlite.nextRowId none oneRequest · thenAnalyzed)

/-- The turns of the first run. -/
def answeringTurns : List (Turn (Exported LogRecord)) :=
  beforeRequest.turns Sqlite.lengthDigest Sqlite.nextRowId none oneRequest oneAcknowledged

theorem acknowledged_rows_stored_analyzed :
    ∃ d d', answeredState = some d ∧ analyzedState = some d' ∧
      d'.writer.conn.db.events.length = 2 ∧
      ((requestRows (writtenRows answeringTurns) 0).map Prod.snd).Perm (oneRequest.recordsOf 0) ∧
      ((requestRows (writtenRows answeringTurns) 0).map (rowEvent Sqlite.lengthDigest)).Subperm
        d'.writer.conn.db.events := by
  have hseen : answeredState.map (fun d => (d.server.handlers 0, (d.turns Sqlite.lengthDigest
      Sqlite.nextRowId none oneRequest thenAnalyzed).all fun turn => turn.keepsRows none)) =
      some (.answered (.ok ⟨none⟩), true) := by
    decide +kernel
  have hlength : analyzedState.map (·.writer.conn.db.events.length) = some 2 := by decide +kernel
  obtain ⟨d, hd, hseen⟩ := Option.map_eq_some_iff.mp hseen
  obtain ⟨hanswer, hkeeps⟩ := Prod.mk.inj hseen
  obtain ⟨d', hd', hlength⟩ := Option.map_eq_some_iff.mp hlength
  have hafter : d.run Sqlite.lengthDigest Sqlite.nextRowId none oneRequest thenAnalyzed =
      some d' := by
    rw [← hd', analyzedState, hd, Option.bind_some]
  have hempty : Consistent Sqlite.lengthDigest [] Sqlite.sampleWriter.conn.db :=
    Sqlite.consistent_migrated
  have := partialEquivBEq_bySchemaUrl
  obtain ⟨hrows, -, -, -, hstored⟩ := acknowledged_rows_stored 0 Sqlite.sampleWriter hempty
    oneAcknowledged thenAnalyzed d d' hd hafter (by simp [oneAcknowledged])
    hanswer
  refine ⟨d, d', hd, hd', hlength, hrows, ?_⟩
  obtain ⟨turn, hturn⟩ := List.length_eq_one_iff.mp
    (by decide +kernel : answeringTurns.length = 1)
  have hthere := hstored [] turn _ (congrArg (· ++ _) hturn)
    (List.all_eq_true.mp hkeeps)
  rw [hturn, writtenRows_singleton]
  refine List.Subperm.trans (List.Sublist.subperm ?_) hthere
  exact (List.filter_sublist.trans (List.sublist_append_left _ _)).map _

end Sample

end OtelSqlite.Pipeline
