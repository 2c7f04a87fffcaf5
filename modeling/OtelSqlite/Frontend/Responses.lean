import OtelSqlite.Frontend.Requests

/-!
# What a response says of the records of its request

In commit mode a response counts rows of `log_event`, in enqueue mode what went into the ingest
queue; a request that failed before its enqueue task was spawned leaves nothing behind. All of
it holds from the response on, along every run, with clients that go away and jobs that panic.
-/

namespace OtelSqlite.Frontend

open OtelSqlite.Core (LogChunk)
open OtelSqlite.Model (BatchOrigin LogRecord IngestMessage)
open OtelSqlite.Mapping (ResourceLogs count chunkOf recordOf)
open OtelSqlite.Ingress (Answer EnqueueOutcome recordsIn sentBy answerUnqueued)
open OtelSqlite.Pipeline (Setup Exported Server Event Deployed DeployedEvent RowsExact rows_exact
  rowEvent requestRows writtenRows turnWrite AckExact Ended)
open OtelSqlite.Storage (SameOrigin)
open OtelSqlite.Sqlite (Libraries RowIds Writer Consistent Turn)
open OtelSqlite.Lib (Writes)

variable {events before after : List ServiceEvent} {server : Server BatchOrigin LogRecord}
  {messages : List IngestMessage}

section Runs

variable [BEq BatchOrigin] {libraries : Libraries} {rowIds : RowIds} {quota : Option Nat}
  {config : ExportConfig} {s s' : Service} {i : Nat}

omit [BEq BatchOrigin] in
theorem linked_new (config : ExportConfig) (start : Nat) (writer : Writer) (i : Nat) :
    Linked config (Service.new config start writer).deployed.server i
      ((Service.new config start writer).calls i) where
  job result h := by rcases h with h | h <;> cases h
  valid h := absurd rfl h
  task := ⟨rfl, rfl⟩
  phase := trivial

/-- What holds in every reachable state. -/
structure Service.Sound (config : ExportConfig) (s : Service) : Prop where
  balanced : s.Balanced config
  linked : ∀ i, Linked config s.deployed.server i (s.calls i)

omit [BEq BatchOrigin] in
theorem sound_new (config : ExportConfig) (start : Nat) (writer : Writer) :
    (Service.new config start writer).Sound config :=
  ⟨balanced_new config start writer, linked_new config start writer⟩

theorem sound_run (h : s.Sound config) (hs : s.run libraries rowIds quota config events = some s') :
    s'.Sound config := by
  refine Lib.Run.invariant (P := fun s => s.Sound config) (fun h hs => ?_) h hs
  exact ⟨balanced_step h.balanced hs, linked_step h.balanced h.linked hs⟩

theorem service_run_append {s₀ : Service}
    (hs : s₀.run libraries rowIds quota config before = some s)
    (hs' : s.run libraries rowIds quota config after = some s') :
    s₀.run libraries rowIds quota config (before ++ after) = some s' := by
  rw [Service.run, List.foldlM_append]
  exact Option.bind_eq_some_iff.mpr ⟨s, hs, hs'⟩

/-- The turn the writer takes in a step. -/
def Service.turnOf (s : Service) : ServiceEvent → List (Turn (Exported LogRecord))
  | .call _ _ => []
  | .inner e => s.deployed.turnOf e

variable (libraries rowIds quota config) in
/-- The turns the writer takes in a run. -/
def Service.turns (s : Service) (events : List ServiceEvent) : List (Turn (Exported LogRecord)) :=
  Lib.Run.gather (Service.step libraries rowIds quota config) Service.turnOf s events

/-- Every run of the service is a run of the pipeline on its tables, with the same turns: the
steps of the other threads and those of the handlers. -/
theorem deployed_run (hs : s.run libraries rowIds quota config events = some s') :
    ∃ inner, s.deployed.run libraries rowIds quota config.setup inner = some s'.deployed ∧
      s.deployed.turns libraries rowIds quota config.setup inner =
        s.turns libraries rowIds quota config events ∧
      ∀ e ∈ inner, .inner e ∈ events ∨ ofCalls e = true := by
  induction events generalizing s with
  | nil =>
    obtain rfl := Option.some.inj hs
    exact ⟨[], rfl, rfl, fun e he => by cases he⟩
  | cons e events ih =>
    obtain ⟨s₁, h₁, hrest⟩ := Option.bind_eq_some_iff.mp hs
    obtain ⟨inner, hrun, hturns, hinner⟩ := ih hrest
    rw [Service.turns, Lib.Run.gather_cons h₁]
    have hlater : ∀ de ∈ inner, ServiceEvent.inner de ∈ e :: events ∨ ofCalls de = true :=
      fun de hde => (hinner de hde).imp_left (List.mem_cons_of_mem _)
    have hcons : ∀ {de}, s.deployed.step libraries rowIds quota config.setup de = some s₁.deployed →
        s.deployed.turnOf de = s.turnOf e → (ServiceEvent.inner de = e ∨ ofCalls de = true) →
        ∃ inner, s.deployed.run libraries rowIds quota config.setup inner = some s'.deployed ∧
          s.deployed.turns libraries rowIds quota config.setup inner =
            s.turnOf e ++ s₁.turns libraries rowIds quota config events ∧
          ∀ de ∈ inner, ServiceEvent.inner de ∈ e :: events ∨ ofCalls de = true := by
      intro de hde hturn hfrom
      refine ⟨de :: inner, ?_, ?_, fun x hx => ?_⟩
      · rw [Deployed.run, List.foldlM_cons, hde]
        exact hrun
      · rw [Deployed.turns, Lib.Run.gather_cons hde, hturn, ← hturns]
        rfl
      · rcases List.mem_cons.mp hx with rfl | hx
        · rcases hfrom with rfl | hof
          · exact Or.inl List.mem_cons_self
          · exact Or.inr hof
        · exact hlater x hx
    rcases service_step_cases h₁ with ⟨i, ce, action, rfl, hp⟩ | ⟨de, rfl, -, deployed, hd, rfl⟩
    · have hpipe := hp.pipeline
      cases hop : action.pipeline with
      | none =>
        rw [hop] at hpipe
        rw [Option.some.inj hpipe]
        exact ⟨inner, hrun, hturns, hlater⟩
      | some pe =>
        rw [hop] at hpipe
        have hacts := hp.acts
        refine hcons hpipe ?_ (Or.inr ?_)
        · cases hacts <;> cases hop <;> rfl
        · cases hacts <;> cases hop <;> rfl
    · exact hcons hd rfl (Or.inl rfl)

/-- The future has ended. -/
def CallPhase.over : CallPhase → Bool
  | .answered _ | .dropped => true
  | _ => false

/-- Nothing happens to the task any more. -/
def Task.still {T : Type} : Task T → Bool
  | .absent | .joinable _ => true
  | _ => false

omit [BEq BatchOrigin] in
theorem Task.step_of_still {T : Type} {result : T} {task : Task T} (h : task.still = true)
    (e : TaskEvent) : task.step result e = none := by
  cases task with
  | absent | joinable => cases e <;> rfl
  | _ => cases h

omit [BEq BatchOrigin] in
theorem holds_of_over {phase : CallPhase} (h : phase.over = true) : phase.holds = false := by
  cases phase <;> first | rfl | cases h

omit [BEq BatchOrigin] in
/-- Only tasks are left of a call whose future has ended. -/
theorem Acts.over {c : ExportCall} {e : CallEvent} {action : Action}
    (h : Acts config i server c e action) (hp : c.phase.over = true) :
    action.call.phase = c.phase ∧ (c.task.still = true → action.call.task = c.task) := by
  have hnot : ∀ {phase : CallPhase}, c.phase = phase → phase.over = false → False := by
    intro phase he hover
    rw [he, hover] at hp
    cases hp
  have hheld : c.phase.holds = true → False := by
    intro hholds
    cases hholds.symm.trans (holds_of_over hp)
  cases h with
  | arrive he | permitted he | spawn he | taskFailed he | queued he | acknowledged he | handle he
  | answer he => exact (hnot he rfl).elim
  | expire he | jobFailed he | invalid he | mapped he | dropHolding he => exact (hheld he).elim
  | drop he => rcases he with he | he | he <;> exact (hnot he rfl).elim
  | job | enqueue => exact ⟨rfl, fun _ => rfl⟩
  | @task e task use ha hs =>
    refine ⟨rfl, fun hstill => ?_⟩
    rw [Task.step_of_still hstill] at hs
    cases hs

theorem over_run (hp : (s.calls i).phase.over = true)
    (hs : s.run libraries rowIds quota config events = some s') :
    (s'.calls i).phase = (s.calls i).phase ∧
      ((s.calls i).task.still = true → (s'.calls i).task = (s.calls i).task) := by
  refine Lib.Run.invariant
    (P := fun s' => (s'.calls i).phase = (s.calls i).phase ∧
      ((s.calls i).task.still = true → (s'.calls i).task = (s.calls i).task))
    (fun {s₁ e s₂} h hstep => ?_) ⟨rfl, fun _ => rfl⟩ hs
  rcases service_step_cases hstep with ⟨j, ce, action, -, hperf⟩ | ⟨de, -, -, deployed, -, rfl⟩
  · rw [hperf.calls]
    by_cases hj : i = j
    · subst hj
      rw [Function.update_self]
      obtain ⟨hphase, htask⟩ := hperf.acts.over (h.1 ▸ hp)
      refine ⟨hphase.trans h.1, fun hstill => ?_⟩
      have hsame := h.2 hstill
      exact (htask (hsame ▸ hstill)).trans hsame
    · rw [Function.update_of_ne hj]
      exact h
  · exact h

end Runs

section Traces

variable [BEq BatchOrigin] {libraries : Libraries} {rowIds : RowIds} {quota : Option Nat}
  {config : ExportConfig} {s s' : Service} {i : Nat}

/-- The gate of the ingest queue keeps its invariant behind the front end. -/
theorem admission_run {start : Nat} {writer : Writer} {origins : List BatchOrigin}
    (hw : Consistent libraries origins writer.conn.db)
    (hs : (Service.new config start writer).run libraries rowIds quota config events = some s) :
    s.deployed.server.ingress.Inv config.setup.queue config.setup.traffic := by
  obtain ⟨inner, hrun, -⟩ := deployed_run hs
  obtain ⟨events', p, -, hsim, -⟩ := Pipeline.simulates_run (Pipeline.simulates_new hw start) hrun
  obtain ⟨done, hb⟩ := hsim.booked
  have hadmission := hb.admission
  rw [← hsim.server] at hadmission
  exact hadmission

omit [BEq BatchOrigin] in
/-- A call that has not started `enqueue` has sent nothing. -/
theorem sentBy_nil_of_start (h : server.ingress.Inv config.setup.queue config.setup.traffic)
    (hstart : server.ingress.calls i = .start) : sentBy server.ingress.sent i = [] := by
  have hfits := h.fits_work i
  rw [hstart] at hfits
  exact hfits

/-- **A call that ends early leaves nothing behind.** If the future ended, by an answer or because
the client went away, before the enqueue task was spawned, then in every later state the call has
no ticket, has sent nothing and has not reached the pipeline's handler, even if its mapping job
still runs. -/
theorem early_end_leaves_no_trace (start : Nat) (writer : Writer) {origins : List BatchOrigin}
    (hw : Consistent libraries origins writer.conn.db) (before after : List ServiceEvent)
    (s s' : Service)
    (hs : (Service.new config start writer).run libraries rowIds quota config before = some s)
    (hs' : s.run libraries rowIds quota config after = some s') (i : Nat)
    (hover : (s.calls i).phase.over = true) (htask : (s.calls i).task = .absent) :
    (s'.calls i).phase = (s.calls i).phase ∧ s'.deployed.server.handlers i = .received ∧
      s'.deployed.server.ingress.calls i = .start ∧
      sentBy s'.deployed.server.ingress.sent i = [] := by
  obtain ⟨hphase, hstays⟩ := over_run hover hs'
  have hrun := service_run_append hs hs'
  have hlink := ((sound_run (sound_new config start writer) hrun).linked i).task
  rw [hstays (by rw [htask]; rfl), htask] at hlink
  exact ⟨hphase, hlink.1, hlink.2, sentBy_nil_of_start (admission_run hw hrun) hlink.2⟩

end Traces

section TracesSample

attribute [local instance] Pipeline.bySchemaUrl

/-- The service of the samples, after the given events. -/
def sampleService (mode : DurabilityMode) (events : List ServiceEvent) : Option Service :=
  Service.run Sqlite.lengthDigest Sqlite.nextRowId none (sampleExports mode)
    (Service.new (sampleExports mode) 0 Sqlite.sampleWriter) events

theorem sampleService_append {mode : DurabilityMode} {s s' : Service}
    (hs : sampleService mode before = some s) (hs' : sampleService mode (before ++ after) = some s')
    :
    s.run Sqlite.lengthDigest Sqlite.nextRowId none (sampleExports mode) after = some s' := by
  rw [sampleService, Service.run, List.foldlM_append] at hs'
  obtain ⟨s₁, h₁, hrest⟩ := Option.bind_eq_some_iff.mp hs'
  obtain rfl : s₁ = s := Option.some.inj (h₁.symm.trans hs)
  exact hrest

theorem sample_consistent :
    Consistent Sqlite.lengthDigest [] Sqlite.sampleWriter.conn.db := Sqlite.consistent_migrated

/-- The job of the first caller, who went away, runs to its end. -/
def jobRunsOn : List ServiceEvent := [.call 0 (.job .start), .call 0 (.job .return)]

theorem early_end_leaves_no_trace_gone :
    ∃ s', sampleService .commit (bothGone ++ jobRunsOn) = some s' ∧
      s'.deployed.server.ingress.calls 0 = .start ∧
      sentBy s'.deployed.server.ingress.sent 0 = [] := by
  have hsome : (sampleService .commit (bothGone ++ jobRunsOn)).isSome = true := by decide +kernel
  obtain ⟨s', hs'⟩ := Option.isSome_iff_exists.mp hsome
  have hgone : (sampleService .commit bothGone).map (fun s =>
      ((s.calls 0).phase.over, (s.calls 0).task matches .absent)) = some (true, true) := by
    decide +kernel
  obtain ⟨s, hs, hgone⟩ := Option.map_eq_some_iff.mp hgone
  obtain ⟨hover, habsent⟩ := Prod.mk.inj hgone
  have htask : (s.calls 0).task = .absent := by
    cases ht : (s.calls 0).task <;> rw [ht] at habsent <;> first | rfl | cases habsent
  obtain ⟨-, -, hcalls, hsent⟩ := early_end_leaves_no_trace 0 Sqlite.sampleWriter
    sample_consistent bothGone jobRunsOn s s' hs (sampleService_append hs hs') 0 hover htask
  exact ⟨s', hs', hcalls, hsent⟩

end TracesSample

section EnqueueMode

variable [BEq BatchOrigin] {libraries : Libraries} {rowIds : RowIds} {quota : Option Nat}
  {config : ExportConfig} {s s' : Service} {i : Nat}

/-- What a response in enqueue mode says of the chunks that were sent. -/
def QueuedExact (config : ExportConfig) (i : Nat)
    (sent : List (LogChunk BatchOrigin (Exported LogRecord))) : Response → Prop
  | .ok ⟨none⟩ =>
    (sent.flatMap LogChunk.records).map Exported.payload = recordsAsked config (config.requests i)
  | .ok ⟨some rejection⟩ =>
    recordsIn sent + rejection.rejectedLogRecords = count (config.requests i) ∧
      (sent.flatMap LogChunk.records).map Exported.payload <+:
        recordsAsked config (config.requests i)
  | .error _ => sent = []

omit [BEq BatchOrigin] in
/-- The sent records are the first ones of the request. -/
theorem sent_payloads_first (h : server.ingress.Inv config.setup.queue config.setup.traffic)
    (hmap : mapRequest config (config.requests i) = .ok messages) :
    ((sentBy server.ingress.sent i).flatMap LogChunk.records).map Exported.payload <+:
      recordsAsked config (config.requests i) := by
  obtain ⟨left, hleft⟩ := h.allOrNothing.in_order i
  rw [← payloads_recordsOf hmap]
  have hrecords : (sentBy server.ingress.sent i ++ left).flatMap LogChunk.records =
      config.setup.recordsOf i := Pipeline.flatMap_records_body hleft
  rw [← hrecords, List.flatMap_append, List.map_append]
  exact List.prefix_append _ _

omit [BEq BatchOrigin] in
theorem length_sent_payloads (sent : List (LogChunk BatchOrigin (Exported LogRecord))) :
    ((sent.flatMap LogChunk.records).map Exported.payload).length = recordsIn sent := by
  rw [List.length_map, List.length_flatMap]
  rfl

omit [BEq BatchOrigin] in
theorem sent_nil_of_no_records (h : server.ingress.Inv config.setup.queue config.setup.traffic)
    (hnone : recordsIn (sentBy server.ingress.sent i) = 0) : sentBy server.ingress.sent i = [] := by
  refine List.eq_nil_iff_forall_not_mem.mpr fun c hc => ?_
  obtain ⟨w, hw, hrecords⟩ := Pipeline.sentBy_work h hc
  have hle := Pipeline.length_le_recordsIn hc
  have hpos := List.length_pos_of_ne_nil (hrecords ▸ (Pipeline.mem_work hw).1)
  omega

omit [BEq BatchOrigin] in
/-- `finish` in enqueue mode reports what `enqueue` did. -/
theorem finishQueued_exact (h : server.ingress.Inv config.setup.queue config.setup.traffic)
    (hmap : mapRequest config (config.requests i) = .ok messages) {outcome : EnqueueOutcome}
    (hended : Ended server i outcome) :
    QueuedExact config i (sentBy server.ingress.sent i) (respond (finishQueued outcome)) := by
  have ho := hended.outcomeOf h
  have hbalance : outcome.accepted + outcome.rejected = outcome.totalRecords := by
    have hreturned : (server.ingress.calls i).outcome = some outcome := by
      rcases hended with he | he <;> rw [he] <;> rfl
    exact (h.accounted hreturned).balance
  have htotal : outcome.totalRecords = count (config.requests i) :=
    ho.total.trans (totalRecords_eq hmap)
  have hall : outcome.rejected = 0 →
      ((sentBy server.ingress.sent i).flatMap LogChunk.records).map Exported.payload =
        recordsAsked config (config.requests i) := by
    intro hrejected
    refine (sent_payloads_first h hmap).eq_of_length ?_
    rw [length_sent_payloads, length_recordsAsked, ← ho.accepted, ← htotal]
    omega
  unfold finishQueued answerUnqueued
  by_cases haccepted : outcome.accepted = 0
  · have hnil := sent_nil_of_no_records h (ho.accepted.symm.trans haccepted)
    rw [if_pos haccepted]
    by_cases hdisconnected : outcome.disconnected = true
    · rw [if_pos hdisconnected]
      exact hnil
    · rw [if_neg hdisconnected]
      split_ifs with hrejected
      · exact hnil
      · exact hall (by omega)
  · rw [if_neg haccepted]
    by_cases hrejected : 0 < outcome.rejected
    · have hsmall : outcome.rejected ≤ Ingress.i64Max := by
        have hcount := (mapRequest_ok hmap).1
        have hlimit := config.validated
        have : Pipeline.maxRecordsLimit ≤ Ingress.i64Max := by decide
        omega
      show QueuedExact config i _ (respond (if 0 < outcome.rejected then _ else _))
      rw [if_pos hrejected]
      refine ⟨?_, sent_payloads_first h hmap⟩
      show recordsIn _ + min outcome.rejected Ingress.i64Max = _
      rw [Nat.min_eq_left hsmall, ← ho.accepted, ← htotal]
      exact hbalance
    · show QueuedExact config i _ (respond (if 0 < outcome.rejected then _ else _))
      rw [if_neg hrejected]
      exact hall (by omega)

omit [BEq BatchOrigin] in
theorem queuedAnswer_exact (h : server.ingress.Inv config.setup.queue config.setup.traffic)
    (hmap : mapRequest config (config.requests i) = .ok messages) {answer : Answer}
    (ha : queuedAnswer config i server = some answer) :
    QueuedExact config i (sentBy server.ingress.sent i) (respond answer) := by
  cases hcall : server.ingress.calls i with
  | refused =>
    rw [queuedAnswer, hcall] at ha
    obtain rfl := Option.some.inj ha
    have hfits := h.fits_work i
    rw [hcall] at hfits
    exact hfits
  | full outcome =>
    rw [queuedAnswer, hcall] at ha
    obtain rfl := Option.some.inj ha
    exact finishQueued_exact h hmap (Or.inl hcall)
  | done outcome =>
    rw [queuedAnswer, hcall] at ha
    obtain rfl := Option.some.inj ha
    exact finishQueued_exact h hmap (Or.inr hcall)
  | _ =>
    rw [queuedAnswer, hcall] at ha
    cases ha

/-- **Responses of enqueue mode are exact.** A full acknowledgement means that all records of the
request went into the ingest queue, in their order; a partial one names exactly the number that
did not, the others being the first ones; any error means that none did. This stays so. -/
theorem queued_responses_exact (hmode : config.durabilityMode = .enqueue) (start : Nat)
    (writer : Writer) {origins : List BatchOrigin}
    (hw : Consistent libraries origins writer.conn.db) (before after : List ServiceEvent)
    (s s' : Service)
    (hs : (Service.new config start writer).run libraries rowIds quota config before = some s)
    (hs' : s.run libraries rowIds quota config after = some s') (i : Nat) (response : Response)
    (ha : (s.calls i).phase = .answered response) :
    QueuedExact config i (sentBy s'.deployed.server.ingress.sent i) response := by
  have hrun := service_run_append hs hs'
  have hover : (s.calls i).phase.over = true := by rw [ha]; rfl
  have hadmission := admission_run hw hrun
  have hlink := (sound_run (sound_new config start writer) hrun).linked i
  have hphase := hlink.phase
  rw [(over_run hover hs').1, ha] at hphase
  have htask := hlink.task
  have hvalid := hlink.valid
  generalize (s'.calls i).task = task at hphase htask hvalid
  cases hphase with
  | unqueued failure => exact sentBy_nil_of_start hadmission htask.2
  | discarded error failure => exact sentBy_nil_of_start hadmission htask
  | committed hm => cases hm.symm.trans hmode
  | acknowledged hm hanswer =>
    obtain ⟨messages, hmap⟩ := hvalid fun hn => by cases hn
    exact queuedAnswer_exact hadmission hmap hanswer

end EnqueueMode

section EnqueueSample

attribute [local instance] Pipeline.bySchemaUrl

/-- A call up to the point where it looks at what its enqueue task returned. -/
def queuedCall : List ServiceEvent :=
  [[.call 0 (.future .arrive), .call 0 (.future (.permitted 0)), .call 0 (.future .spawn),
    .call 0 (.job .start), .call 0 (.job .return), .call 0 (.job .join),
    .call 0 (.future .pollJob), .call 0 (.task .start)], .replicate 8 (.call 0 (.enqueue 0)),
    [.call 0 (.task .return), .call 0 (.task .join), .call 0 (.future .pollTask)]].flatten

/-- The answer of a sample, if it is a full acknowledgement. -/
def acknowledgedCall (s : Service) : Bool :=
  match (s.calls 0).phase with
  | .answered (.ok ⟨none⟩) => true
  | _ => false

theorem answered_of_acknowledgedCall {s : Service} (h : acknowledgedCall s = true) :
    (s.calls 0).phase = .answered (.ok ⟨none⟩) := by
  unfold acknowledgedCall at h
  split at h
  · assumption
  · cases h

theorem queued_responses_exact_all :
    ∃ s, sampleService .enqueue queuedCall = some s ∧
      ((sentBy s.deployed.server.ingress.sent 0).flatMap LogChunk.records).map Exported.payload =
        recordsAsked (sampleExports .enqueue) Mapping.sampleRequest := by
  have hanswer : (sampleService .enqueue queuedCall).map acknowledgedCall = some true := by
    decide +kernel
  obtain ⟨s, hs, hanswer⟩ := Option.map_eq_some_iff.mp hanswer
  exact ⟨s, hs, queued_responses_exact rfl 0 Sqlite.sampleWriter sample_consistent queuedCall []
    s s hs rfl 0 _ (answered_of_acknowledgedCall hanswer)⟩

end EnqueueSample

section CommitMode

/-- What a response in commit mode says of the rows of its request. -/
def ResponseExact (config : ExportConfig) (rows : List (BatchOrigin × Exported LogRecord))
    (i : Nat) : Response → Prop
  | .ok ⟨none⟩ =>
    ((requestRows rows i).map fun row => row.2.payload).Perm
      (recordsAsked config (config.requests i))
  | .ok ⟨some rejection⟩ =>
    (requestRows rows i).length + rejection.rejectedLogRecords = count (config.requests i)
  | .error _ => requestRows rows i = []

variable [BEq BatchOrigin] {libraries : Libraries} {rowIds : RowIds} {quota : Option Nat}
  {config : ExportConfig} {s s' : Service} {i : Nat}

omit [BEq BatchOrigin] in
/-- The pipeline's account of the answered requests, read back as an account of the rows. -/
theorem responseExact_of_ack {q : Server BatchOrigin LogRecord} {answer : Answer}
    {rows : List (BatchOrigin × Exported LogRecord)}
    (hcommitted : (requestRows rows i).map Prod.snd = q.committedOf i)
    (hmap : mapRequest config (config.requests i) = .ok messages)
    (h : AckExact config.setup q i answer) : ResponseExact config rows i (respond answer) := by
  cases answer with
  | error status =>
    have hnil : (requestRows rows i).map Prod.snd = [] := hcommitted.trans h
    exact List.map_eq_nil_iff.mp hnil
  | ok response =>
    obtain ⟨partialSuccess⟩ := response
    cases partialSuccess with
    | none =>
      have hperm : (q.committedOf i).Perm (config.setup.recordsOf i) := h
      show List.Perm _ _
      have hpayloads : (requestRows rows i).map (fun row => row.2.payload) =
          (q.committedOf i).map Exported.payload := by
        rw [← hcommitted, List.map_map]
        rfl
      rw [hpayloads, ← payloads_recordsOf hmap]
      exact hperm.map _
    | some rejection =>
      have hcount : (q.committedOf i).length + rejection.rejectedLogRecords =
          config.setup.totalRecords i := h
      rw [totalRecords_eq hmap, ← hcommitted, List.length_map] at hcount
      exact hcount

/-- **From the wire to the row.** Along every run of handlers, jobs, batcher and writer without a
panic of the batcher, turn by turn the writer adds the rows of its executed inserts to `log_event`,
and removes rows only in a turn that evicts or prunes. Each row is one record of its request,
converted, under the origin of its group. A full acknowledgement means that a row was written for
every record of the request, a partial one names exactly the number without a row, an error means
that there is none; and this stays so after the response. -/
theorem responses_exact [PartialEquivBEq BatchOrigin] (hmode : config.durabilityMode = .commit)
    (start : Nat) (writer : Writer) {origins : List BatchOrigin}
    (hw : Consistent libraries origins writer.conn.db) (before after : List ServiceEvent)
    (s s' : Service)
    (hs : (Service.new config start writer).run libraries rowIds quota config before = some s)
    (hs' : s.run libraries rowIds quota config after = some s')
    (hbatcher : .inner (.step .unwind) ∉ before ++ after) :
    let turns := (Service.new config start writer).turns libraries rowIds quota config
      (before ++ after)
    Writes writer.conn.db.events (turns.map (turnWrite libraries quota))
        s'.deployed.writer.conn.db.events ∧
      (∀ row ∈ writtenRows turns, ∃ group ∈ config.requests row.2.request,
        ∃ member ∈ group.members, SameOrigin (chunkOf config.formats group).origin row.1 ∧
          row.2.payload = recordOf config.formats member) ∧
      ∀ i response, (s.calls i).phase = .answered response →
        ResponseExact config (writtenRows turns) i response := by
  intro turns
  obtain ⟨inner, hd, hturns, hinner⟩ := deployed_run hs
  obtain ⟨inner', hd', hturns', hinner'⟩ := deployed_run hs'
  have hunwind : .step .unwind ∉ inner ++ inner' := by
    intro hmem
    rcases List.mem_append.mp hmem with hmem | hmem
    · exact (hinner _ hmem).elim (fun h => hbatcher (List.mem_append_left _ h))
        fun hof => by cases hof
    · exact (hinner' _ hmem).elim (fun h => hbatcher (List.mem_append_right _ h))
        fun hof => by cases hof
  obtain ⟨q, hrows⟩ := rows_exact hw hd hd' hunwind
  have hall : Deployed.turns libraries rowIds quota config.setup ⟨Server.new start, writer⟩
      (inner ++ inner') = turns :=
    calc
      _ = _ ++ _ := Lib.Run.gather_append hd
      _ = _ ++ _ := congrArg₂ (· ++ ·) hturns hturns'
      _ = turns := (Lib.Run.gather_append hs).symm
  rw [hall] at hrows
  refine ⟨hrows.stored, fun row hrow => ?_, fun i response ha => ?_⟩
  · obtain ⟨chunk, hchunk, hr, hsame⟩ := hrows.origin row hrow
    obtain ⟨group, hgroup, member, hmember, horigin, hpayload⟩ := work_source hchunk hr
    exact ⟨group, hgroup, member, hmember, horigin ▸ hsame, hpayload⟩
  · have hover : (s.calls i).phase.over = true := by rw [ha]; rfl
    have hsound := sound_run (sound_new config start writer) hs
    have hlink := hsound.linked i
    have hphase := hlink.phase
    rw [ha] at hphase
    -- a request without an enqueue call has no rows
    have hnone : s'.deployed.server.ingress.calls i = .start →
        requestRows (writtenRows turns) i = [] := by
      intro hstart
      rw [← hrows.ingress] at hstart
      have hsent := hrows.unsent i (sentBy_nil_of_start hrows.admission hstart)
      rw [← hrows.committedOf i, List.map_eq_nil_iff] at hsent
      exact hsent
    have hvalid := hlink.valid
    have hstays := (over_run hover hs').2
    have htask := ((sound_run hsound hs').linked i).task
    generalize (s.calls i).task = task at hphase hvalid hstays
    cases hphase with
    | unqueued =>
      rw [hstays rfl] at htask
      exact hnone htask.2
    | discarded =>
      rw [hstays rfl] at htask
      exact hnone htask
    | committed hm hanswer =>
      obtain ⟨messages, hmap⟩ := hvalid fun hn => by cases hn
      exact responseExact_of_ack (hrows.committedOf i) hmap (hrows.answers i _ hanswer).2
    | acknowledged hm => cases hm.symm.trans hmode

end CommitMode

section CommitSample

attribute [local instance] Pipeline.bySchemaUrl

/-- The two chunks of the sample are batched by age, written, settled and acknowledged. -/
def storedCall : List ServiceEvent :=
  let write : ServiceEvent := .inner (.execute Pipeline.fairWeather 1 Pipeline.analyzing)
  [queuedCall, [.receive id 0, .submit, .receive id 0, .submit, .timer 100, .submit, .submit,
      .submit, .take].map (.inner ∘ .step),
    write :: [.settle, .settle, .settle, .take].map (.inner ∘ .step),
    write :: [.settle, .settle, .settle, .publish 0, .publish 0].map (.inner ∘ .step),
    .replicate 6 (.call 0 (.future .finish))].flatten

/-- The turns of the sample. -/
def storingTurns : List (Turn (Exported LogRecord)) :=
  (Service.new (sampleExports .commit) 0 Sqlite.sampleWriter).turns Sqlite.lengthDigest
    Sqlite.nextRowId none (sampleExports .commit) storedCall

theorem responses_exact_stored :
    ∃ s, sampleService .commit storedCall = some s ∧
      ((requestRows (writtenRows storingTurns) 0).map fun row => row.2.payload).Perm
        (recordsAsked (sampleExports .commit) Mapping.sampleRequest) ∧
      ((writtenRows storingTurns).map (rowEvent Sqlite.lengthDigest)).Perm
        s.deployed.writer.conn.db.events := by
  have hanswer : (sampleService .commit storedCall).map acknowledgedCall = some true := by
    decide +kernel
  obtain ⟨s, hs, hanswer⟩ := Option.map_eq_some_iff.mp hanswer
  have := Pipeline.partialEquivBEq_bySchemaUrl
  obtain ⟨hwrites, -, hexact⟩ := responses_exact rfl 0 Sqlite.sampleWriter sample_consistent
    storedCall [] s s hs rfl (by simp [storedCall, queuedCall])
  rw [List.append_nil] at hwrites hexact
  refine ⟨s, hs, hexact 0 _ (answered_of_acknowledgedCall hanswer), ?_⟩
  have hkeeps : storingTurns.all (fun turn => turn.keepsRows none) = true := by decide +kernel
  have hperm := hwrites.perm_of_keeps fun w hw => ?_
  · rw [List.flatMap_map] at hperm
    rw [writtenRows, List.map_flatMap]
    exact hperm
  · obtain ⟨turn, hturn, rfl⟩ := List.mem_map.mp hw
    exact List.all_eq_true.mp hkeeps turn hturn

end CommitSample

end OtelSqlite.Frontend
