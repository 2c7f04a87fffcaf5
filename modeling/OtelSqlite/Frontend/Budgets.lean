import OtelSqlite.Frontend.Export
import OtelSqlite.Lib.Run

/-!
# The stream limit and the mapping budget over all interleavings

`Acts` says what a step of a call can do. From it: a call holds at most one stream permit, its
own or that of its enqueue task, and one mapping permit, that of its job. So both semaphores
always add up, whatever is dropped, times out or panics.
-/

namespace OtelSqlite.Frontend

open OtelSqlite.Lib (Use Permits)
open OtelSqlite.Model (BatchOrigin LogRecord IngestMessage)
open OtelSqlite.Mapping (IngressError)
open OtelSqlite.Ingress (Answer)
open OtelSqlite.Pipeline (Server Event Deployed DeployedEvent)
open OtelSqlite.Sqlite (Libraries RowIds Writer)

variable {action : Action}

section Inversion

variable {config : ExportConfig} {i : Nat} {server : Server BatchOrigin LogRecord} {c : ExportCall}

/-- What a step of a call can do. -/
inductive Acts (config : ExportConfig) (i : Nat) (server : Server BatchOrigin LogRecord)
    (c : ExportCall) : CallEvent → Action → Prop where
  | arrive (hp : c.phase = .idle) :
      Acts config i server c (.future .arrive) { call := { c with phase := .limited } }
  | permitted {now : Nat} (hp : c.phase = .limited) :
      Acts config i server c (.future (.permitted now))
        { call := { c with phase := .budgeted (now + config.mappingTimeout) }, streams := .take }
  | spawn {deadline : Nat} (hp : c.phase = .budgeted deadline) :
      Acts config i server c (.future .spawn)
        { call := { c with phase := .mapping deadline, job := .queued }, budget := .take }
  | expire {now : Nat} (hp : c.phase.holds = true) :
      Acts config i server c (.future (.expire now)) (c.giveUp (.answered mappingTimedOut))
  | jobFailed {error : String} (hp : c.phase.holds = true) (hj : c.job = .joinable (.error error)) :
      Acts config i server c (.future .pollJob) (c.giveUp (.answered (mappingTaskFailed error)))
  | invalid {error : IngressError} (hp : c.phase.holds = true)
      (hj : c.job = .joinable (.ok (.error error))) :
      Acts config i server c (.future .pollJob) (c.giveUp (.answered (invalidRequest error)))
  | mapped {messages : List IngestMessage} (hp : c.phase.holds = true)
      (hj : c.job = .joinable (.ok (.ok messages))) :
      Acts config i server c (.future .pollJob)
        { call := { c with phase := .enqueueing, task := .queued }, pipeline := some (.handle i) }
  | taskFailed {error : String} (hp : c.phase = .enqueueing)
      (ht : c.task = .joinable (.error error)) :
      Acts config i server c (.future .pollTask)
        { call := { c with phase := .answered (enqueueTaskFailed error) } }
  | queued (hp : c.phase = .enqueueing) (ht : c.task = .joinable (.ok ()))
      (hm : config.durabilityMode = .commit) :
      Acts config i server c (.future .pollTask) { call := { c with phase := .finishing } }
  | acknowledged {answer : Answer} (hp : c.phase = .enqueueing) (ht : c.task = .joinable (.ok ()))
      (hm : config.durabilityMode = .enqueue) (ha : queuedAnswer config i server = some answer) :
      Acts config i server c (.future .pollTask)
        { call := { c with phase := .answered (respond answer) } }
  | handle (hp : c.phase = .finishing) :
      Acts config i server c (.future .finish) { call := c, pipeline := some (.handle i) }
  | answer {answer : Answer} (hp : c.phase = .finishing)
      (ha : server.handlers i = .answered answer) :
      Acts config i server c (.future .finish)
        { call := { c with phase := .answered (respond answer) } }
  | drop (hp : c.phase = .limited ∨ c.phase = .enqueueing ∨ c.phase = .finishing) :
      Acts config i server c (.future .drop) { call := { c with phase := .dropped } }
  | dropHolding (hp : c.phase.holds = true) :
      Acts config i server c (.future .drop) (c.giveUp .dropped)
  | job {e : TaskEvent} {job : Task (Except IngressError (List IngestMessage))} {use : Use}
      (hs : c.job.step (mapRequest config (config.requests i)) e = some (job, use)) :
      Acts config i server c (.job e) { call := { c with job := job }, budget := use }
  | task {e : TaskEvent} {task : Task Unit} {use : Use}
      (ha : e.allowed (server.ingress.calls i).returned = true)
      (hs : c.task.step () e = some (task, use)) :
      Acts config i server c (.task e) { call := { c with task := task }, streams := use }
  | enqueue {now : Nat} (ht : c.task = .running) :
      Acts config i server c (.enqueue now) { call := c, pipeline := some (.enqueue i now) }

theorem pollJob_inv (hp : c.phase.holds = true) (h : pollJob i c = some action) :
    Acts config i server c (.future .pollJob) action := by
  unfold pollJob at h
  split at h <;> cases h
  · exact .jobFailed hp ‹_›
  · exact .invalid hp ‹_›
  · exact .mapped hp ‹_›

theorem pollTask_inv (hp : c.phase = .enqueueing) (h : pollTask config i server c = some action) :
    Acts config i server c (.future .pollTask) action := by
  unfold pollTask at h
  split at h
  · next ht =>
    obtain rfl := Option.some.inj h
    exact .taskFailed hp ht
  · next ht hm =>
    obtain rfl := Option.some.inj h
    exact .queued hp ht hm
  · next ht hm =>
    obtain ⟨answer, ha, rfl⟩ := Option.map_eq_some_iff.mp h
    exact .acknowledged hp ht hm ha
  · cases h

theorem expire_inv {now : Nat} (h : futureStep config i server c (.expire now) = some action) :
    Acts config i server c (.future (.expire now)) action := by
  have hexpire : ∀ {deadline : Nat}, c.phase.holds = true →
      (if deadline ≤ now then some (c.giveUp (.answered mappingTimedOut)) else none) =
        some action → Acts config i server c (.future (.expire now)) action := by
    intro deadline hp hd
    split at hd <;> cases hd
    exact .expire hp
  cases hp : c.phase with
  | budgeted deadline =>
    rw [futureStep, hp] at h
    exact hexpire (by rw [hp]; rfl) h
  | mapping deadline =>
    cases hj : c.job with
    | joinable outcome =>
      rw [futureStep, hp, hj] at h
      cases h
    | _ =>
      rw [futureStep, hp, hj] at h
      exact hexpire (by rw [hp]; rfl) h
  | _ =>
    rw [futureStep, hp] at h
    cases h

theorem futureStep_inv {e : FutureEvent} (h : futureStep config i server c e = some action) :
    Acts config i server c (.future e) action := by
  cases e with
  | arrive =>
    cases hp : c.phase <;> rw [futureStep, hp] at h <;> cases h
    exact .arrive hp
  | permitted now =>
    cases hp : c.phase <;> rw [futureStep, hp] at h <;> cases h
    exact .permitted hp
  | spawn =>
    cases hp : c.phase <;> rw [futureStep, hp] at h <;> cases h
    exact .spawn hp
  | expire now => exact expire_inv h
  | pollJob =>
    cases hp : c.phase <;> rw [futureStep, hp] at h <;> try cases h
    exact pollJob_inv (by rw [hp]; rfl) h
  | pollTask =>
    cases hp : c.phase <;> rw [futureStep, hp] at h <;> try cases h
    exact pollTask_inv hp h
  | finish =>
    cases hp : c.phase <;> rw [futureStep, hp] at h <;> try cases h
    cases ha : server.handlers i with
    | answered answer =>
      rw [ha] at h
      cases h
      exact .answer hp ha
    | _ =>
      rw [ha] at h
      cases h
      exact .handle hp
  | drop =>
    cases hp : c.phase <;> rw [futureStep, hp] at h <;> cases h
    · exact .drop (Or.inl hp)
    · exact .dropHolding (by rw [hp]; rfl)
    · exact .dropHolding (by rw [hp]; rfl)
    · exact .drop (Or.inr (Or.inl hp))
    · exact .drop (Or.inr (Or.inr hp))

theorem callStep_inv {e : CallEvent} (h : callStep config i server c e = some action) :
    Acts config i server c e action := by
  cases e with
  | future e => exact futureStep_inv h
  | job e =>
    obtain ⟨⟨job, use⟩, hs, rfl⟩ := Option.map_eq_some_iff.mp h
    exact .job hs
  | task e =>
    rw [callStep] at h
    split at h
    · next ha =>
      obtain ⟨⟨task, use⟩, hs, rfl⟩ := Option.map_eq_some_iff.mp h
      exact .task ha hs
    · cases h
  | enqueue now =>
    rw [callStep] at h
    split at h <;> cases h
    exact .enqueue ‹_›

end Inversion

section Holders

variable {config : ExportConfig} {i : Nat} {server : Server BatchOrigin LogRecord} {c : ExportCall}
  {e : CallEvent} {action : Action} {phase : CallPhase}

/-- The stream permit belongs to the future or, later, to the enqueue task. -/
def ExportCall.holdsStream (c : ExportCall) : Prop := c.phase.holds = true ∨ c.task.holds = true

/-- A queued or running mapping job. -/
def ExportCall.holdsBudget (c : ExportCall) : Prop := c.job.holds = true

/-- The enqueue task is not spawned yet. -/
def CallPhase.unqueued : CallPhase → Bool
  | .idle | .limited | .budgeted _ | .mapping _ => true
  | _ => false

/-- Nor is the job. -/
def CallPhase.unmapped : CallPhase → Bool
  | .idle | .limited | .budgeted _ => true
  | _ => false

/-- The job and the enqueue task come in their order. -/
structure ExportCall.Ordered (c : ExportCall) : Prop where
  job : c.phase.unmapped = true → c.job = .absent
  task : c.phase.unqueued = true → c.task = .absent

theorem unqueued_of_holds (h : phase.holds = true) : phase.unqueued = true := by
  cases phase <;> first | rfl | cases h

theorem unqueued_of_unmapped (h : phase.unmapped = true) : phase.unqueued = true := by
  cases phase <;> first | rfl | cases h

theorem ordered_new : ExportCall.new.Ordered := ⟨fun _ => rfl, fun _ => rfl⟩

theorem Task.step_fits {T : Type} {result : T} {task next : Task T} {e : TaskEvent} {use : Use}
    (h : task.step result e = some (next, use)) :
    task ≠ .absent ∧ next ≠ .absent ∧ use.Fits (task.holds = true) (next.holds = true) := by
  unfold Task.step at h
  split at h <;> cases h <;> simp [Use.Fits, Task.holds]

section

variable (h : Acts config i server c e action)
include h

theorem Acts.ordered (hc : c.Ordered) : action.call.Ordered := by
  have hlate : ∀ {phase : CallPhase}, phase.unqueued = false →
      ({ c with phase := phase } : ExportCall).Ordered := by
    intro phase hphase
    refine ⟨fun hp => ?_, fun hp => ?_⟩
    · cases hphase.symm.trans (unqueued_of_unmapped hp)
    · cases hphase.symm.trans hp
  cases h with
  | arrive hp | permitted hp =>
    exact ⟨fun _ => hc.job (by rw [hp]; rfl), fun _ => hc.task (by rw [hp]; rfl)⟩
  | spawn hp => exact ⟨fun hn => (by cases hn), fun _ => hc.task (by rw [hp]; rfl)⟩
  | expire | jobFailed | invalid | taskFailed | queued | acknowledged | answer | drop
  | dropHolding => exact hlate rfl
  | mapped => exact ⟨fun hn => (by cases hn), fun hn => (by cases hn)⟩
  | handle | enqueue => exact hc
  | job hs => exact ⟨fun hp => absurd (hc.job hp) (Task.step_fits hs).1, hc.task⟩
  | task ha hs => exact ⟨hc.job, fun hp => absurd (hc.task hp) (Task.step_fits hs).1⟩

theorem Acts.streams_fit (hc : c.Ordered) :
    action.streams.Fits c.holdsStream action.call.holdsStream := by
  have hgive : ∀ {phase : CallPhase}, c.phase.holds = true → phase.holds = false →
      (c.giveUp phase).streams.Fits c.holdsStream (c.giveUp phase).call.holdsStream := by
    intro phase hp hphase
    refine ⟨Or.inl hp, fun hn => ?_⟩
    rcases hn with hn | hn
    · cases hphase.symm.trans hn
    · have htask : c.task = .absent := hc.task (unqueued_of_holds hp)
      have hholds : c.task.holds = true := hn
      rw [htask] at hholds
      cases hholds
  have hkeep : ∀ {phase : CallPhase}, c.phase.holds = false → phase.holds = false →
      Use.keep.Fits c.holdsStream ({ c with phase := phase } : ExportCall).holdsStream := by
    intro phase hp hphase
    show (_ ∨ _) ↔ (_ ∨ _)
    rw [hp, hphase]
  cases h with
  | arrive hp | taskFailed hp | queued hp | acknowledged hp | answer hp =>
    exact hkeep (by rw [hp]; rfl) rfl
  | permitted hp =>
    refine ⟨fun hn => ?_, Or.inl rfl⟩
    rcases hn with hn | hn
    · rw [hp] at hn
      cases hn
    · rw [hc.task (by rw [hp]; rfl)] at hn
      cases hn
  | spawn hp => exact iff_of_true (Or.inl (by rw [hp]; rfl)) (Or.inl rfl)
  | expire hp | jobFailed hp | invalid hp | dropHolding hp => exact hgive hp rfl
  | mapped hp => exact iff_of_true (Or.inl hp) (Or.inr rfl)
  | handle | enqueue | job => exact Iff.rfl
  | drop hp => rcases hp with hp | hp | hp <;> exact hkeep (by rw [hp]; rfl) rfl
  | @task e task use ha hs =>
    -- the future gave the permit away when it spawned the task
    obtain ⟨hpresent, -, hfits⟩ := Task.step_fits hs
    have hphase : c.phase.holds = false := by
      refine Bool.eq_false_iff.mpr fun hp => ?_
      exact hpresent (hc.task (unqueued_of_holds hp))
    have hbefore : c.holdsStream ↔ c.task.holds = true := by
      show (_ ∨ _) ↔ _
      rw [hphase]
      simp
    have hafter : ({ c with task := task } : ExportCall).holdsStream ↔ task.holds = true := by
      show (c.phase.holds = true ∨ _) ↔ _
      rw [hphase]
      simp
    show use.Fits _ _
    rw [hbefore, hafter]
    exact hfits

theorem Acts.budget_fit (hc : c.Ordered) :
    action.budget.Fits c.holdsBudget action.call.holdsBudget := by
  cases h with
  | spawn hp =>
    refine ⟨fun hn => ?_, rfl⟩
    rw [ExportCall.holdsBudget, hc.job (by rw [hp]; rfl)] at hn
    cases hn
  | job hs => exact (Task.step_fits hs).2.2
  | _ => exact Iff.rfl

end

end Holders

section System

variable [BEq BatchOrigin] {libraries : Libraries} {rowIds : RowIds} {quota : Option Nat}
  {config : ExportConfig} {s s' : Service} {e : ServiceEvent}

/-- A step of a call, carried out. -/
structure Performed (libraries : Libraries) (rowIds : RowIds) (quota : Option Nat)
    (config : ExportConfig) (s : Service) (i : Nat) (e : CallEvent) (action : Action)
    (s' : Service) : Prop where
  acts : Acts config i s.deployed.server (s.calls i) e action
  streams : s.streams.apply action.streams = some s'.streams
  budget : s.budget.apply action.budget = some s'.budget
  pipeline : Service.advance libraries rowIds quota config s.deployed action.pipeline =
    some s'.deployed
  calls : s'.calls = Function.update s.calls i action.call

theorem perform_iff {i : Nat} :
    s.perform libraries rowIds quota config i action = some s' ↔
      s.streams.apply action.streams = some s'.streams ∧
      s.budget.apply action.budget = some s'.budget ∧
      Service.advance libraries rowIds quota config s.deployed action.pipeline =
        some s'.deployed ∧
      s'.calls = Function.update s.calls i action.call := by
  unfold Service.perform
  constructor
  · intro h
    obtain ⟨streams, hs, h⟩ := Option.bind_eq_some_iff.mp h
    obtain ⟨budget, hb, h⟩ := Option.bind_eq_some_iff.mp h
    obtain ⟨deployed, hd, h⟩ := Option.bind_eq_some_iff.mp h
    obtain rfl := Option.some.inj h
    exact ⟨hs, hb, hd, rfl⟩
  · rintro ⟨hs, hb, hd, hc⟩
    rw [hs, hb, hd]
    cases s'
    exact congrArg _ (congrArg _ hc.symm)

/-- A step is one of a call or one of another thread, which leaves calls and permits alone. -/
theorem service_step_cases (h : s.step libraries rowIds quota config e = some s') :
    (∃ i ce action, e = .call i ce ∧
      Performed libraries rowIds quota config s i ce action s') ∨
    ∃ de, e = .inner de ∧ ofCalls de = false ∧
      ∃ deployed, s.deployed.step libraries rowIds quota config.setup de = some deployed ∧
        s' = { s with deployed := deployed } := by
  cases e with
  | call i ce =>
    obtain ⟨action, ha, hp⟩ := Option.bind_eq_some_iff.mp h
    obtain ⟨hs, hb, hd, hc⟩ := perform_iff.mp hp
    exact Or.inl ⟨i, ce, action, rfl, callStep_inv ha, hs, hb, hd, hc⟩
  | inner de =>
    rw [Service.step] at h
    split at h
    · cases h
    · next hof =>
      obtain ⟨deployed, hd, h⟩ := Option.bind_eq_some_iff.mp h
      exact Or.inr ⟨de, rfl, Bool.eq_false_iff.mpr hof, deployed, hd, (Option.some.inj h).symm⟩

/-- Both semaphores are lent to exactly the calls that hold a permit of them. -/
structure Service.Balanced (config : ExportConfig) (s : Service) : Prop where
  ordered : ∀ i, (s.calls i).Ordered
  streams : s.streams.Lent (max config.maxConcurrentStreams 1) fun i => (s.calls i).holdsStream
  budget : s.budget.Lent (max config.mappingConcurrency 1) fun i => (s.calls i).holdsBudget

omit [BEq BatchOrigin] in
theorem balanced_new (config : ExportConfig) (start : Nat) (writer : Writer) :
    (Service.new config start writer).Balanced config where
  ordered _ := ordered_new
  streams := Permits.lent_new fun _ h => by rcases h with h | h <;> cases h
  budget := Permits.lent_new fun _ h => by cases h

theorem balanced_step (hb : s.Balanced config)
    (h : s.step libraries rowIds quota config e = some s') : s'.Balanced config := by
  rcases service_step_cases h with ⟨i, ce, action, -, hp⟩ | ⟨de, -, -, deployed, -, rfl⟩
  · have hi := hb.ordered i
    refine ⟨fun j => ?_, ?_, ?_⟩
    · rw [hp.calls]
      by_cases hj : j = i
      · subst hj
        rw [Function.update_self]
        exact hp.acts.ordered hi
      · rw [Function.update_of_ne hj]
        exact hb.ordered j
    · rw [hp.calls]
      exact hb.streams.apply (hp.acts.streams_fit hi) hp.streams
    · rw [hp.calls]
      exact hb.budget.apply (hp.acts.budget_fit hi) hp.budget
  · exact ⟨hb.ordered, hb.streams, hb.budget⟩

theorem balanced_run {events : List ServiceEvent} (hb : s.Balanced config)
    (h : s.run libraries rowIds quota config events = some s') : s'.Balanced config :=
  Lib.Run.invariant balanced_step hb h

/-- A call that waits for a permit gets it when there is one. -/
theorem permitted_iff (libraries : Libraries) (rowIds : RowIds) (quota : Option Nat) {i : Nat}
    (hp : (s.calls i).phase = .limited) (now : Nat) :
    (s.step libraries rowIds quota config (.call i (.future (.permitted now)))).isSome ↔
      0 < s.streams.available := by
  have hstep : callStep config i s.deployed.server (s.calls i) (.future (.permitted now)) =
      some { call := { s.calls i with phase := .budgeted (now + config.mappingTimeout) }
             streams := .take } := by
    rw [callStep, futureStep, hp]
  simp only [Service.step, hstep, Service.perform, Permits.apply, Service.advance]
  by_cases hpos : 0 < s.streams.available
  · simp [hpos]
  · simp [hpos]

theorem spawn_iff (libraries : Libraries) (rowIds : RowIds) (quota : Option Nat) {i deadline : Nat}
    (hp : (s.calls i).phase = .budgeted deadline) :
    (s.step libraries rowIds quota config (.call i (.future .spawn))).isSome ↔
      0 < s.budget.available := by
  have hstep : callStep config i s.deployed.server (s.calls i) (.future .spawn) =
      some { call := { s.calls i with phase := .mapping deadline, job := .queued }
             budget := .take } := by
    rw [callStep, futureStep, hp]
  simp only [Service.step, hstep, Service.perform, Permits.apply, Service.advance]
  by_cases hpos : 0 < s.budget.available
  · simp [hpos]
  · simp [hpos]

/-- **No permit is lost and none is made up.** In every reachable state the free stream permits
and the calls in flight add up to the limit, the free mapping permits and the queued or running
jobs to the budget; and a call that waits for a permit gets one unless all are out. -/
theorem permits_conserved (start : Nat) (writer : Writer) (events : List ServiceEvent)
    (s : Service)
    (hrun : (Service.new config start writer).run libraries rowIds quota config events = some s) :
    ∃ streams jobs : Finset Nat,
      (∀ i, i ∈ streams ↔ (s.calls i).holdsStream) ∧
      s.streams.available + streams.card = max config.maxConcurrentStreams 1 ∧
      (∀ i, i ∈ jobs ↔ (s.calls i).holdsBudget) ∧
      s.budget.available + jobs.card = max config.mappingConcurrency 1 ∧
      (∀ i now, (s.calls i).phase = .limited →
        ((s.step libraries rowIds quota config (.call i (.future (.permitted now)))).isSome ↔
          streams.card < max config.maxConcurrentStreams 1)) ∧
      ∀ i deadline, (s.calls i).phase = .budgeted deadline →
        ((s.step libraries rowIds quota config (.call i (.future .spawn))).isSome ↔
          jobs.card < max config.mappingConcurrency 1) := by
  have hb := balanced_run (balanced_new config start writer) hrun
  obtain ⟨streams, hstreams, hcard⟩ := hb.streams
  obtain ⟨jobs, hjobs, hjobcard⟩ := hb.budget
  refine ⟨streams, jobs, hstreams, hcard, hjobs, hjobcard, fun i now hp => ?_,
    fun i deadline hp => ?_⟩
  · rw [permitted_iff libraries rowIds quota hp]
    omega
  · rw [spawn_iff libraries rowIds quota hp]
    omega

end System

section Sample

/-- Two streams and, as zero is clamped, one mapping job; every request is the same. -/
def sampleExports (mode : DurabilityMode) : ExportConfig where
  formats := Mapping.sampleFormats
  sizes := Mapping.sampleSizes
  limits := {}
  maxRecordsPerRequest := 20
  validated := by decide
  maxConcurrentStreams := 2
  mappingConcurrency := 0
  mappingTimeout := 30
  durabilityMode := mode
  queue := ⟨5, by decide⟩
  batching := ⟨3, 10, Nat.succ_pos 2⟩
  commandQueueCapacity := 4
  requests _ := Mapping.sampleRequest
  deadline _ := none

/-- The first caller goes away while its job is queued, the second times out on the budget. -/
def bothGone : List ServiceEvent :=
  [.call 0 (.future .arrive), .call 1 (.future .arrive), .call 0 (.future (.permitted 0)),
    .call 1 (.future (.permitted 0)), .call 0 (.future .spawn), .call 0 (.future .drop),
    .call 1 (.future (.expire 30))]

def goneState : Option Service :=
  @Service.run Pipeline.bySchemaUrl Sqlite.lengthDigest Sqlite.nextRowId none
    (sampleExports .commit) (Service.new (sampleExports .commit) 0 Sqlite.sampleWriter) bothGone

theorem permits_conserved_gone :
    ∃ s, goneState = some s ∧ s.streams.available = 2 ∧ s.budget.available = 0 ∧
      ∃ jobs : Finset Nat, (∀ i, i ∈ jobs ↔ (s.calls i).holdsBudget) ∧ jobs.card = 1 := by
  have hfree : goneState.map (fun s => (s.streams.available, s.budget.available)) =
      some (2, 0) := by decide +kernel
  obtain ⟨s, hs, hfree⟩ := Option.map_eq_some_iff.mp hfree
  obtain ⟨hstreams, hbudget⟩ := Prod.mk.inj hfree
  obtain ⟨streams, jobs, -, -, hjobs, hcard, -⟩ :=
    @permits_conserved Pipeline.bySchemaUrl _ _ _ _ 0 Sqlite.sampleWriter bothGone s hs
  refine ⟨s, hs, hstreams, hbudget, jobs, hjobs, ?_⟩
  rw [hbudget] at hcard
  exact (Nat.zero_add _).symm.trans hcard

end Sample

end OtelSqlite.Frontend
