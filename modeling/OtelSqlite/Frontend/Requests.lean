import OtelSqlite.Frontend.Budgets

/-!
# From a request to the pipeline's work

What the mapping job returns is the work of the pipeline: one chunk per group with records, the
records in the order of the request. `Linked` ties a call to its request and to the pipeline;
every run of the service is one of the pipeline on its tables.
-/

namespace OtelSqlite.Frontend

open OtelSqlite.Core (LogChunk)
open OtelSqlite.Lib (then_ok_iff)
open OtelSqlite.Model (BatchOrigin LogRecord IngestMessage)
open OtelSqlite.Mapping (ResourceLogs IngressError StructSizes count validateRequest mapChunks
  chunkOf recordOf rejectIf_ok_iff mapChunks_of_validateRequest flatMap_members_filter
  length_flatMap_members)
open OtelSqlite.Ingress (Answer recordsIn)
open OtelSqlite.Pipeline (Setup ExportChunk Exported Server Event Handler Deployed DeployedEvent
  workOf handleStep_goto step_inv handler_step)
open OtelSqlite.Sqlite (Libraries RowIds Writer)

section Mapped

variable {config : ExportConfig} {resourceLogs : List ResourceLogs} {messages : List IngestMessage}
  {i : Nat}

/-- The groups that give a chunk. -/
def filledGroups (resourceLogs : List ResourceLogs) : List ResourceLogs :=
  resourceLogs.filter fun group => !group.members.isEmpty

/-- The records a request asks to store, converted. -/
def recordsAsked (config : ExportConfig) (resourceLogs : List ResourceLogs) : List LogRecord :=
  (resourceLogs.flatMap ResourceLogs.members).map (recordOf config.formats)

theorem length_recordsAsked (config : ExportConfig) (resourceLogs : List ResourceLogs) :
    (recordsAsked config resourceLogs).length = count resourceLogs := by
  rw [recordsAsked, List.length_map, length_flatMap_members]

/-- A request is mapped if it is small enough and valid, and then in full. -/
theorem mapRequest_ok (h : mapRequest config resourceLogs = .ok messages) :
    count resourceLogs ≤ config.maxRecordsPerRequest ∧
      messages = ((filledGroups resourceLogs).map (chunkOf config.formats)).map .logs := by
  obtain ⟨hcount, h⟩ := then_ok_iff.mp h
  obtain ⟨hvalid, h⟩ := then_ok_iff.mp h
  rw [mapChunks_of_validateRequest config.formats hvalid] at h
  exact ⟨Nat.le_of_not_lt (rejectIf_ok_iff.mp hcount), (Except.ok.inj h).symm⟩

/-- Origin and records of a chunk, without what the pipeline adds. -/
def contents (chunk : LogChunk BatchOrigin (Exported LogRecord)) : BatchOrigin × List LogRecord :=
  (chunk.origin, chunk.records.map Exported.payload)

theorem map_mapIdx_of_forget {α β γ : Type} {number : Nat → α → β} {forget : β → γ} {plain : α → γ}
    (h : ∀ k a, forget (number k a) = plain a) (l : List α) :
    (l.mapIdx number).map forget = l.map plain := by
  refine List.ext_getElem (by simp) fun k _ _ => ?_
  rw [List.getElem_map, List.getElem_mapIdx, List.getElem_map, h]

theorem contents_workOf (i : Nat) (chunks : List (ExportChunk BatchOrigin LogRecord)) :
    (workOf i chunks).map contents = chunks.map fun c => (c.origin, c.records) := by
  refine map_mapIdx_of_forget (fun j c => ?_) chunks
  have hpayload : ∀ (k : Nat) (x : LogRecord),
      Exported.payload (⟨i, j, k, x⟩ : Exported LogRecord) = id x := fun _ _ => rfl
  rw [contents, map_mapIdx_of_forget hpayload, List.map_id]

theorem exportChunk_logs {chunk : Model.LogChunk} (h : chunk.records ≠ []) :
    exportChunk (.logs chunk) = some ⟨chunk.origin, chunk.records, h⟩ := dif_pos h

section

variable (h : mapRequest config (config.requests i) = .ok messages)
include h

/-- The pipeline gets the groups of a mapped request. -/
theorem contents_work :
    (config.setup.work i).map contents = (filledGroups (config.requests i)).map fun group =>
      ((chunkOf config.formats group).origin, group.members.map (recordOf config.formats)) := by
  have hrequests : config.setup.requests i = messages.filterMap exportChunk := by
    simp only [ExportConfig.setup, h]
  obtain ⟨-, rfl⟩ := mapRequest_ok h
  rw [Setup.work, contents_workOf, hrequests, List.filterMap_map, List.filterMap_map,
    List.map_filterMap]
  rw [List.filterMap_eq_map_iff_forall_eq_some.mpr]
  intro group hgroup
  have hfilled : (chunkOf config.formats group).records ≠ [] := by
    have hmembers := (List.mem_filter.mp hgroup).2
    simpa [chunkOf] using hmembers
  show (exportChunk (.logs (chunkOf config.formats group))).map _ = some _
  rw [exportChunk_logs hfilled]
  rfl

theorem payloads_recordsOf :
    (config.setup.recordsOf i).map Exported.payload = recordsAsked config (config.requests i) := by
  have hflat : (config.setup.recordsOf i).map Exported.payload =
      ((config.setup.work i).map contents).flatMap Prod.snd := by
    rw [Setup.recordsOf, List.map_flatMap, List.flatMap_map]
    rfl
  rw [hflat, contents_work h, List.flatMap_map, recordsAsked, ← flatMap_members_filter,
    List.map_flatMap]
  rfl

theorem totalRecords_eq : config.setup.totalRecords i = count (config.requests i) := by
  rw [← length_recordsAsked config, ← payloads_recordsOf h, List.length_map,
    Pipeline.length_recordsOf]

end

/-- Every record of the work is one of the request, under the origin of its group. -/
theorem work_source {chunk : LogChunk BatchOrigin (Exported LogRecord)}
    (hchunk : chunk ∈ config.setup.work i) {r : Exported LogRecord} (hr : r ∈ chunk.records) :
    ∃ group ∈ config.requests i, ∃ member ∈ group.members,
      chunk.origin = (chunkOf config.formats group).origin ∧
        r.payload = recordOf config.formats member := by
  cases h : mapRequest config (config.requests i) with
  | error error =>
    have hnone : config.setup.work i = [] := by
      simp only [Setup.work, ExportConfig.setup, h, workOf, List.mapIdx_nil]
    rw [hnone] at hchunk
    cases hchunk
  | ok messages =>
    have hmem := List.mem_map_of_mem (f := contents) hchunk
    rw [contents_work h] at hmem
    obtain ⟨group, hgroup, he⟩ := List.mem_map.mp hmem
    obtain ⟨horigin, hrecords⟩ := Prod.mk.inj he
    have hpayload : r.payload ∈ group.members.map (recordOf config.formats) := by
      rw [hrecords]
      exact List.mem_map_of_mem hr
    obtain ⟨member, hmember, hp⟩ := List.mem_map.mp hpayload
    exact ⟨group, (List.mem_filter.mp hgroup).1, member, hmember, horigin.symm, hp.symm⟩

end Mapped

section Frame

variable [BEq BatchOrigin] {libraries : Libraries} {rowIds : RowIds} {quota : Option Nat}
  {setup : Setup BatchOrigin LogRecord} {server server' : Server BatchOrigin LogRecord}
  {d d' : Deployed} {i : Nat}

/-- The pipeline has the call where it was. -/
structure SameCall (i : Nat) (server server' : Server BatchOrigin LogRecord) : Prop where
  handlers : server'.handlers i = server.handlers i
  calls : server'.ingress.calls i = server.ingress.calls i

theorem sameCall_step {e : Event LogRecord} (hs : server.step setup e = some server')
    (hhandle : e ≠ .handle i) (henqueue : ∀ now, e ≠ .enqueue i now) :
    SameCall i server server' := by
  refine ⟨handler_step hs hhandle, ?_⟩
  rcases Pipeline.ingress_step hs with he | ⟨k, rfl⟩ | ⟨ingress, rfl, hcases⟩
  · exact congrFun (Pipeline.aside_step he hs).calls i
  · obtain ⟨handler, rfl, -⟩ := handleStep_goto hs
    rfl
  · rcases hcases with ⟨k, now, rfl, -, hr⟩ | ⟨j, now, hc⟩ | ⟨k, rfl⟩
    · have hne : i ≠ k := fun hik => henqueue now (by rw [hik])
      exact (Ingress.Admission.requestStep_cases hr).1 i hne
    · obtain ⟨-, -, hcalls, -⟩ := Ingress.Admission.controlStep_effect hc
      exact congrFun hcalls i
    · rfl

/-- A step on tables is a step of the server, or the execution of a command. -/
theorem deployed_step_cases {e : DeployedEvent}
    (h : d.step libraries rowIds quota setup e = some d') :
    (∃ pe server', e = .step pe ∧ d.server.step setup pe = some server' ∧
      d' = { d with server := server' }) ∨
    (∃ weather now around, e = .execute weather now around) ∧
      ∃ writer conn, d' = ⟨{ d.server with writer := writer }, conn⟩ := by
  cases e with
  | step pe =>
    have hserver : (d.server.step setup pe).map (fun server => { d with server := server }) =
        some d' := by
      cases pe <;> first | exact h | cases h
    obtain ⟨server', hs, rfl⟩ := Option.map_eq_some_iff.mp hserver
    exact Or.inl ⟨pe, server', rfl, hs, rfl⟩
  | execute weather now around =>
    refine Or.inr ⟨⟨weather, now, around, rfl⟩, ?_⟩
    rw [Deployed.step, Deployed.executeStep] at h
    split at h
    · split at h <;> obtain rfl := Option.some.inj h <;> exact ⟨_, _, rfl⟩
    · cases h

theorem sameCall_deployed {e : DeployedEvent}
    (h : d.step libraries rowIds quota setup e = some d') (hhandle : e ≠ .step (.handle i))
    (henqueue : ∀ now, e ≠ .step (.enqueue i now)) : SameCall i d.server d'.server := by
  rcases deployed_step_cases h with ⟨pe, server', rfl, hs, rfl⟩ | ⟨-, writer, conn, rfl⟩
  · exact sameCall_step hs (fun he => hhandle (by rw [he])) fun now he => henqueue now (by rw [he])
  · exact ⟨rfl, rfl⟩

end Frame

section Links

variable {config : ExportConfig} {i : Nat} {server server' : Server BatchOrigin LogRecord}
  {c : ExportCall} {task : Task Unit} {phase : CallPhase}

/-- Where the pipeline has a call with this enqueue task. -/
def TaskLinked (server : Server BatchOrigin LogRecord) (i : Nat) : Task Unit → Prop
  | .absent => server.handlers i = .received ∧ server.ingress.calls i = .start
  | .queued => server.handlers i = .enqueueing ∧ server.ingress.calls i = .start
  | .running => server.handlers i = .enqueueing
  | .ended (.error _) | .joinable (.error _) => server.ingress.calls i = .start
  | .ended (.ok ()) | .joinable (.ok ()) => (server.ingress.calls i).returned = true

/-- Where an answer comes from. -/
inductive Answered (config : ExportConfig) (server : Server BatchOrigin LogRecord) (i : Nat) :
    Task Unit → Response → Prop where
  | unqueued (failure : Failure) : Answered config server i .absent (.error failure)
  | discarded (error : String) (failure : Failure) :
      Answered config server i (.joinable (.error error)) (.error failure)
  | committed {answer : Answer} (hm : config.durabilityMode = .commit)
      (ha : server.handlers i = .answered answer) :
      Answered config server i (.joinable (.ok ())) (respond answer)
  | acknowledged {answer : Answer} (hm : config.durabilityMode = .enqueue)
      (ha : queuedAnswer config i server = some answer) :
      Answered config server i (.joinable (.ok ())) (respond answer)

def PhaseLinked (config : ExportConfig) (server : Server BatchOrigin LogRecord) (i : Nat)
    (task : Task Unit) : CallPhase → Prop
  | .finishing => config.durabilityMode = .commit ∧ task = .joinable (.ok ())
  | .answered response => Answered config server i task response
  | _ => True

structure Linked (config : ExportConfig) (server : Server BatchOrigin LogRecord) (i : Nat)
    (c : ExportCall) : Prop where
  job : ∀ result, c.job = .ended (.ok result) ∨ c.job = .joinable (.ok result) →
    result = mapRequest config (config.requests i)
  valid : c.task ≠ .absent → ∃ messages, mapRequest config (config.requests i) = .ok messages
  task : TaskLinked server i c.task
  phase : PhaseLinked config server i c.task c.phase

theorem Answered.frame {response : Response} (h : Answered config server i task response)
    (hsame : SameCall i server server') : Answered config server' i task response := by
  cases h with
  | unqueued failure => exact .unqueued failure
  | discarded error failure => exact .discarded error failure
  | committed hm ha => exact .committed hm (hsame.handlers.trans ha)
  | acknowledged hm ha =>
    refine .acknowledged hm ?_
    rw [queuedAnswer, hsame.calls]
    exact ha

theorem PhaseLinked.frame (h : PhaseLinked config server i task phase)
    (hsame : SameCall i server server') : PhaseLinked config server' i task phase := by
  cases phase with
  | answered response => exact Answered.frame h hsame
  | _ => exact h

theorem Linked.frame (h : Linked config server i c) (hsame : SameCall i server server') :
    Linked config server' i c := by
  refine ⟨h.job, h.valid, ?_, h.phase.frame hsame⟩
  have htask := h.task
  unfold TaskLinked at htask ⊢
  rw [hsame.handlers, hsame.calls]
  exact htask

theorem Linked.rephase (h : Linked config server i c)
    (hphase : PhaseLinked config server i c.task phase) :
    Linked config server i { c with phase := phase } := ⟨h.job, h.valid, h.task, hphase⟩

/-- A job returns what the request maps to. -/
theorem Linked.job_step (h : Linked config server i c) {e : TaskEvent}
    {job : Task (Except IngressError (List IngestMessage))} {use : Lib.Use}
    (hs : c.job.step (mapRequest config (config.requests i)) e = some (job, use)) :
    Linked config server i { c with job := job } := by
  refine ⟨fun result hresult => ?_, h.valid, h.task, h.phase⟩
  cases hj : c.job with
  | absent | joinable =>
    rw [hj] at hs
    cases e <;> cases hs
  | queued =>
    rw [hj] at hs
    cases e <;> cases hs <;> rcases hresult with hr | hr <;> cases hr
  | running =>
    rw [hj] at hs
    cases e <;> cases hs <;> rcases hresult with hr | hr <;> cases hr
    rfl
  | ended outcome =>
    rw [hj] at hs
    cases e <;> cases hs
    rcases hresult with hr | hr
    · cases hr
    · cases hr
      exact h.job result (Or.inl hj)

/-- A task that is still due to do something has a call that waits for it or is dropped. -/
theorem PhaseLinked.retask {task' : Task Unit} (h : PhaseLinked config server i task phase)
    (habsent : task ≠ .absent) (hjoinable : ∀ outcome, task ≠ .joinable outcome) :
    PhaseLinked config server' i task' phase := by
  cases phase with
  | finishing => exact absurd h.2 (hjoinable _)
  | answered response =>
    cases h with
    | unqueued => exact absurd rfl habsent
    | discarded | committed | acknowledged => exact absurd rfl (hjoinable _)
  | _ => trivial

/-- The task can only return once `enqueue` has. -/
theorem Linked.task_step (h : Linked config server i c) {e : TaskEvent} {use : Lib.Use}
    (ha : e.allowed (server.ingress.calls i).returned = true)
    (hs : c.task.step () e = some (task, use)) :
    Linked config server i { c with task := task } := by
  have hpresent := (Task.step_fits hs).1
  have hphase : PhaseLinked config server i task c.phase :=
    h.phase.retask hpresent fun outcome ht => by rw [ht] at hs; cases e <;> cases hs
  refine ⟨h.job, fun _ => h.valid hpresent, ?_, hphase⟩
  have hlink := h.task
  cases ht : c.task with
  | absent | joinable =>
    rw [ht] at hs
    cases e <;> cases hs
  | queued =>
    rw [ht] at hs hlink
    cases e <;> cases hs
    · exact hlink.1
    · exact hlink.2
  | running =>
    rw [ht] at hs
    cases e <;> cases hs
    · exact ha
    · cases ha
  | ended outcome =>
    rw [ht] at hs hlink
    cases e <;> cases hs
    cases outcome <;> exact hlink

end Links

section Calls

variable [BEq BatchOrigin] {libraries : Libraries} {rowIds : RowIds} {quota : Option Nat}
  {config : ExportConfig} {s s' : Service} {i : Nat}

/-- What a call does to the pipeline is a step of the server. -/
theorem advance_some {d d' : Deployed} {e : Event LogRecord}
    (h : Service.advance libraries rowIds quota config d (some e) = some d') :
    ∃ server', d.server.step config.setup e = some server' ∧ d' = { d with server := server' } := by
  have hstep : d.step libraries rowIds quota config.setup (.step e) = some d' := h
  rcases deployed_step_cases hstep with ⟨pe, server', he, hs, rfl⟩ | ⟨⟨w, n, a, he⟩, -⟩
  · cases he
    exact ⟨server', hs, rfl⟩
  · cases he

theorem advance_handle {d d' : Deployed}
    (h : Service.advance libraries rowIds quota config d (some (.handle i)) = some d') :
    ∃ handler, d'.server = d.server.goto i handler ∧
      d.server.handleStep config.setup i = some (d.server.goto i handler) := by
  obtain ⟨server', hs, rfl⟩ := advance_some h
  obtain ⟨handler, rfl, -⟩ := handleStep_goto hs
  exact ⟨handler, rfl, hs⟩

omit [BEq BatchOrigin] in
/-- The handler of a mapped request finds it small enough and goes on to `enqueue`. -/
theorem handleStep_mapped {server : Server BatchOrigin LogRecord} {handler : Handler}
    {messages : List IngestMessage} (hmap : mapRequest config (config.requests i) = .ok messages)
    (hr : server.handlers i = .received)
    (hs : server.handleStep config.setup i = some (server.goto i handler)) :
    handler = .enqueueing := by
  have hsmall : ¬config.setup.maxRecordsPerRequest < config.setup.totalRecords i := by
    rw [totalRecords_eq hmap]
    exact Nat.not_lt.mpr (mapRequest_ok hmap).1
  simp only [Server.handleStep, hr, if_neg hsmall] at hs
  have hhandlers := congrArg (fun p => p.handlers i) (Option.some.inj hs)
  simpa [Server.goto] using hhandlers.symm

/-- The link is kept by the call's own steps. -/
theorem linked_performed {e : CallEvent} {action : Action}
    (hp : Performed libraries rowIds quota config s i e action s') (hc : (s.calls i).Ordered)
    (h : Linked config s.deployed.server i (s.calls i)) :
    Linked config s'.deployed.server i action.call := by
  obtain ⟨acts, -, -, hpipe, -⟩ := hp
  have hstill : ∀ {call : ExportCall},
      Service.advance libraries rowIds quota config s.deployed none = some s'.deployed →
      Linked config s.deployed.server i call → Linked config s'.deployed.server i call := by
    intro call hnone hcall
    rwa [← Option.some.inj hnone]
  have hgiveUp : ∀ {failure : Failure}, (s.calls i).phase.holds = true →
      PhaseLinked config s.deployed.server i (s.calls i).task (.answered (.error failure)) := by
    intro failure hholds
    rw [hc.task (unqueued_of_holds hholds)]
    exact .unqueued failure
  cases acts with
  | arrive | permitted | drop | dropHolding => exact hstill hpipe (h.rephase trivial)
  | spawn hp =>
    refine hstill hpipe ⟨fun result hr => ?_, h.valid, h.task, trivial⟩
    rcases hr with hr | hr <;> cases hr
  | expire hholds | jobFailed hholds => exact hstill hpipe (h.rephase (hgiveUp hholds))
  | @invalid error hholds =>
    obtain ⟨message⟩ := error
    exact hstill hpipe (h.rephase (hgiveUp hholds))
  | mapped hholds hj =>
    obtain ⟨handler, hserver, hs⟩ := advance_handle hpipe
    have hmap := (h.job _ (Or.inr hj)).symm
    have htask := h.task
    rw [hc.task (unqueued_of_holds hholds)] at htask
    obtain rfl := handleStep_mapped hmap htask.1 hs
    refine ⟨h.job, fun _ => ⟨_, hmap⟩, ?_, trivial⟩
    rw [hserver]
    exact ⟨Function.update_self .., htask.2⟩
  | taskFailed hp ht =>
    refine hstill hpipe (h.rephase ?_)
    rw [ht]
    exact Answered.discarded ..
  | queued hp ht hm => exact hstill hpipe (h.rephase ⟨hm, ht⟩)
  | acknowledged hp ht hm ha =>
    refine hstill hpipe (h.rephase ?_)
    rw [ht]
    exact .acknowledged hm ha
  | handle hp =>
    obtain ⟨handler, hserver, hs⟩ := advance_handle hpipe
    have hphase := h.phase
    rw [hp] at hphase
    obtain ⟨hm, ht⟩ := hphase
    refine ⟨h.job, h.valid, ?_, ?_⟩
    · have htask := h.task
      rw [ht] at htask ⊢
      rw [hserver]
      exact htask
    · rw [hp]
      exact ⟨hm, ht⟩
  | answer hp ha =>
    have hphase := h.phase
    rw [hp] at hphase
    refine hstill hpipe (h.rephase ?_)
    rw [hphase.2]
    exact .committed hphase.1 ha
  | job hs => exact hstill hpipe (h.job_step hs)
  | task hallowed hs => exact hstill hpipe (h.task_step hallowed hs)
  | enqueue ht =>
    have htask := h.task
    rw [ht] at htask
    refine ⟨h.job, h.valid, ?_, h.phase.retask ?_ ?_⟩
    · obtain ⟨server', hs, hd⟩ := advance_some hpipe
      rw [ht, hd]
      exact (handler_step hs (fun hn => by cases hn)).trans htask
    · rw [ht]
      exact fun hn => by cases hn
    · rw [ht]
      exact fun outcome hn => by cases hn

/-- Every call is linked, in every reachable state. -/
theorem linked_step {e : ServiceEvent} (hb : s.Balanced config)
    (h : ∀ i, Linked config s.deployed.server i (s.calls i))
    (hs : s.step libraries rowIds quota config e = some s') (j : Nat) :
    Linked config s'.deployed.server j (s'.calls j) := by
  rcases service_step_cases hs with ⟨i, ce, action, -, hp⟩ | ⟨de, -, hde, deployed, hd, rfl⟩
  · rw [hp.calls]
    by_cases hj : j = i
    · subst hj
      rw [Function.update_self]
      exact linked_performed hp (hb.ordered j) (h j)
    · rw [Function.update_of_ne hj]
      refine (h j).frame ?_
      have hpipe := hp.pipeline
      cases hop : action.pipeline with
      | none =>
        rw [hop] at hpipe
        rw [← Option.some.inj hpipe]
        exact ⟨rfl, rfl⟩
      | some pe =>
        rw [hop] at hpipe
        have hown : pe = .handle i ∨ ∃ now, pe = .enqueue i now := by
          have hacts := hp.acts
          cases hacts <;> cases hop
          · exact Or.inl rfl
          · exact Or.inl rfl
          · exact Or.inr ⟨_, rfl⟩
        obtain ⟨server', hstep, hd⟩ := advance_some hpipe
        rw [hd]
        refine sameCall_step hstep (fun he => ?_) fun now he => ?_
        all_goals
          rcases hown with rfl | ⟨now, rfl⟩ <;> cases he
          exact hj rfl
  · refine (h j).frame (sameCall_deployed hd (fun he => ?_) fun now he => ?_)
    · rw [he] at hde
      cases hde
    · rw [he] at hde
      cases hde

end Calls

end OtelSqlite.Frontend
