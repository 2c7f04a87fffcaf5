import Mathlib.Data.List.Nodup
import Mathlib.Data.List.Pairwise
import OtelSqlite.Core.Batcher
import OtelSqlite.Lib.Trace

/-!
# The maintenance scheduler

One task per periodic operation, and a tick that offers every due one to the command queue.
The queue's answer to each offer is the environment's choice. A tick is followed for one
operation at a time: `Handled` lists what it can do to the operation's task.
-/

namespace OtelSqlite.Runtime

open OtelSqlite.Core.Batcher OtelSqlite.Lib.Trace

inductive Operation where
  | purge
  | checkpoint
  | optimize
  | vacuum
  | rebuildFts
  deriving DecidableEq, Repr

inductive CheckpointMode where
  | passive
  | full
  | restart
  | truncate
  deriving DecidableEq, Repr

inductive MaintenanceOperation where
  | analyze
  | vacuum
  | rebuildFts
  | prune (window : Option Nat)
  deriving DecidableEq, Repr

/-- The two kinds of writer command the scheduler makes. -/
inductive MaintenanceCommand where
  | maintenance (operation : MaintenanceOperation)
  | checkpoint (mode : CheckpointMode)
  deriving DecidableEq, Repr

/-- Durations are in nanoseconds. -/
structure MaintenanceConfig where
  retention : Option Nat
  purgeInterval : Option Nat
  checkpointInterval : Option Nat
  checkpointMode : CheckpointMode
  optimizeInterval : Option Nat
  vacuumInterval : Option Nat
  rebuildFtsInterval : Option Nat
  retryDelay : Nat

def minRetryDelay : Nat := 10 * 10 ^ 6

namespace Operation

def build (config : MaintenanceConfig) : Operation → MaintenanceCommand
  | .purge => .maintenance (.prune config.retention)
  | .checkpoint => .checkpoint config.checkpointMode
  | .optimize => .maintenance .analyze
  | .vacuum => .maintenance .vacuum
  | .rebuildFts => .maintenance .rebuildFts

/-- The interval the configuration gives the operation. -/
def interval (config : MaintenanceConfig) : Operation → Option Nat
  | .purge => config.purgeInterval
  | .checkpoint => config.checkpointInterval
  | .optimize => config.optimizeInterval
  | .vacuum => config.vacuumInterval
  | .rebuildFts => config.rebuildFtsInterval

end Operation

/-- A task's interval is never zero: it would be due forever. -/
structure Task where
  operation : Operation
  interval : Option Nat
  nextDue : Option Nat
  deferred : Bool
  interval_pos : ∀ d ∈ interval, 0 < d

namespace Task

def new (operation : Operation) (interval : Option Nat) (now : Nat) : Task where
  operation := operation
  interval := interval.filter fun d => d != 0
  nextDue := (interval.filter fun d => d != 0).map (saturatingDeadline now)
  deferred := false
  interval_pos := by
    intro d hd
    have hne := (Option.mem_filter_iff.mp hd).2
    exact Nat.pos_of_ne_zero (by simpa using hne)

def due (task : Task) (now : Nat) : Bool := task.nextDue.any fun due => due ≤ now

def reschedule (task : Task) (now : Nat) : Task :=
  { task with
    deferred := false
    nextDue :=
      match task.interval with
      | some interval => some (saturatingDeadline now interval)
      | none => task.nextDue }

def defer (task : Task) (now retryDelay : Nat) : Task :=
  { task with deferred := true, nextDue := some (saturatingDeadline now retryDelay) }

theorem nextDue_reschedule {task : Task} {d : Nat} (h : task.interval = some d) (now : Nat) :
    (task.reschedule now).nextDue = some (saturatingDeadline now d) := by
  simp only [reschedule, h]

theorem nextDue_defer (task : Task) (now retryDelay : Nat) :
    (task.defer now retryDelay).nextDue = some (saturatingDeadline now retryDelay) := rfl

end Task

/-- What `try_send` answers. -/
inductive SendAnswer where
  | ok
  | full
  | disconnected
  deriving DecidableEq, Repr

structure TickReport where
  scheduled : Nat
  deferred : Nat
  disconnected : Bool
  deriving DecidableEq, Repr

structure Offer where
  operation : Operation
  command : MaintenanceCommand
  answer : SendAnswer
  deriving DecidableEq, Repr

/-- A tick's time, and what the queue answers to each operation if it is offered. -/
structure Tick where
  now : Nat
  answer : Operation → SendAnswer

/-- What one tick did, and the next deadline after it. -/
structure Ticked where
  now : Nat
  report : TickReport
  offers : List Offer
  nextDeadline : Option Nat

/-- The tasks behind the loop of `tick`, its report and the offers it made. -/
structure TickOutcome where
  tasks : List Task
  report : TickReport
  offers : List Offer

/-- The outcome with the task handled before. -/
def TickOutcome.behind (o : TickOutcome) (task : Task) (offers : List Offer) : TickOutcome :=
  ⟨task :: o.tasks, o.report, offers ++ o.offers⟩

/-- The loop of `tick`. A disconnected queue leaves it. -/
def tickTasks (config : MaintenanceConfig) (tick : Tick) :
    List Task → TickReport → TickOutcome
  | [], report => ⟨[], report, []⟩
  | task :: rest, report =>
    if task.due tick.now then
      let command := task.operation.build config
      match tick.answer task.operation with
      | .ok =>
        (tickTasks config tick rest { report with scheduled := report.scheduled + 1 }).behind
          (task.reschedule tick.now) [⟨task.operation, command, .ok⟩]
      | .full =>
        (tickTasks config tick rest { report with deferred := report.deferred + 1 }).behind
          (task.defer tick.now config.retryDelay) [⟨task.operation, command, .full⟩]
      | .disconnected =>
        ⟨task :: rest, { report with disconnected := true },
          [⟨task.operation, command, .disconnected⟩]⟩
    else (tickTasks config tick rest report).behind task []

theorem tickTasks_operations (config : MaintenanceConfig) (tick : Tick) (tasks : List Task)
    (report : TickReport) :
    (tickTasks config tick tasks report).tasks.map Task.operation =
      tasks.map Task.operation := by
  fun_induction tickTasks config tick tasks report with
  | case1 report | case4 task rest report hdue command hanswer => rfl
  | case2 task rest report hdue command hanswer ih
  | case3 task rest report hdue command hanswer ih | case5 task rest report hdue ih =>
    exact congrArg (task.operation :: ·) ih

def allOperations : List Operation := [.purge, .checkpoint, .optimize, .vacuum, .rebuildFts]

/-- There is one task for each operation. -/
structure Scheduler where
  tasks : List Task
  config : MaintenanceConfig
  operations_eq : tasks.map Task.operation = allOperations

/-- Without a retention window there is no purge. -/
def purgeInterval (config : MaintenanceConfig) : Option Nat :=
  config.retention.bind fun _ => config.purgeInterval

namespace Scheduler

def new (config : MaintenanceConfig) (now : Nat) : Scheduler where
  tasks :=
    [Task.new .purge (Runtime.purgeInterval config) now,
      Task.new .checkpoint config.checkpointInterval now,
      Task.new .optimize config.optimizeInterval now,
      Task.new .vacuum config.vacuumInterval now,
      Task.new .rebuildFts config.rebuildFtsInterval now]
  config := { config with retryDelay := max config.retryDelay minRetryDelay }
  operations_eq := rfl

def nextDeadline (s : Scheduler) : Option Nat := (s.tasks.filterMap Task.nextDue).min?

def tick (s : Scheduler) (tick : Tick) : Scheduler × Ticked :=
  let r := tickTasks s.config tick s.tasks ⟨0, 0, false⟩
  let s' : Scheduler :=
    { s with
      tasks := r.tasks
      operations_eq := (tickTasks_operations _ _ _ _).trans s.operations_eq }
  (s', ⟨tick.now, r.report, r.offers, s'.nextDeadline⟩)

end Scheduler

/-- The answers the operation got. -/
def answersTo (operation : Operation) (offers : List Offer) : List SendAnswer :=
  (offers.filter fun o => o.operation == operation).map Offer.answer

/-- What a tick can do to a task, by the answers its operation got. `cut` says that the tick
ended at a disconnection. -/
inductive Handled (retryDelay now : Nat) (task : Task) (cut : Bool) :
    List SendAnswer → Task → Prop
  | idle : task.due now = false → Handled retryDelay now task cut [] task
  | behind : cut = true → Handled retryDelay now task cut [] task
  | sent : task.due now = true → Handled retryDelay now task cut [.ok] (task.reschedule now)
  | deferred : task.due now = true →
      Handled retryDelay now task cut [.full] (task.defer now retryDelay)
  | refused : task.due now = true → cut = true →
      Handled retryDelay now task cut [.disconnected] task

section Ticks

variable {config : MaintenanceConfig} {tick : Tick} {offers : List Offer} {operation : Operation}
  {tasks : List Task}

theorem answersTo_append (operation : Operation) (xs ys : List Offer) :
    answersTo operation (xs ++ ys) = answersTo operation xs ++ answersTo operation ys := by
  simp [answersTo]

theorem answersTo_of_ne (h : ∀ o ∈ offers, o.operation ≠ operation) :
    answersTo operation offers = [] := by
  rw [answersTo, List.filter_eq_nil_iff.mpr]
  · rfl
  · intro o ho
    simpa using h o ho

theorem mem_operations_of_offer {report : TickReport} {o : Offer}
    (h : o ∈ (tickTasks config tick tasks report).offers) :
    o.operation ∈ tasks.map Task.operation := by
  fun_induction tickTasks config tick tasks report with
  | case1 report => cases h
  | case2 task rest report hdue command hanswer ih
  | case3 task rest report hdue command hanswer ih =>
    rcases List.mem_cons.mp h with rfl | h
    · exact List.mem_cons_self
    · exact List.mem_cons_of_mem _ (ih h)
  | case4 task rest report hdue command hanswer =>
    obtain rfl := List.mem_singleton.mp h
    exact List.mem_cons_self
  | case5 task rest report hdue ih => exact List.mem_cons_of_mem _ (ih h)

/-- A tick makes no offer for an operation without a task. -/
theorem answersTo_of_notMem (h : operation ∉ tasks.map Task.operation) (report : TickReport) :
    answersTo operation (tickTasks config tick tasks report).offers = [] := by
  apply answersTo_of_ne
  intro o ho he
  refine h ?_
  rw [← he]
  exact mem_operations_of_offer ho

/-- What the loop does to a task, if no other one has its operation. -/
def HandledIn (config : MaintenanceConfig) (tick : Tick) (task : Task) (o : TickOutcome) : Prop :=
  ∃ task' ∈ o.tasks, task'.operation = task.operation ∧
    Handled config.retryDelay tick.now task o.report.disconnected
      (answersTo task.operation o.offers) task'

/-- The handling of other tasks does not show. -/
theorem HandledIn.behind {task other : Task} {o : TickOutcome} (h : HandledIn config tick task o)
    (hoffers : ∀ x ∈ offers, x.operation ≠ task.operation) :
    HandledIn config tick task (o.behind other offers) := by
  obtain ⟨task', hm, hop, hh⟩ := h
  refine ⟨task', List.mem_cons_of_mem _ hm, hop, ?_⟩
  rw [TickOutcome.behind, answersTo_append, answersTo_of_ne hoffers]
  exact hh

/-- The task's own handling, if it is not handled again. -/
theorem handledIn_head {task task' : Task} {o : TickOutcome}
    (hop : task'.operation = task.operation) (hnone : answersTo task.operation o.offers = [])
    (h : Handled config.retryDelay tick.now task o.report.disconnected
      (answersTo task.operation offers) task') :
    HandledIn config tick task (o.behind task' offers) := by
  refine ⟨task', List.mem_cons_self, hop, ?_⟩
  rw [TickOutcome.behind, answersTo_append, hnone, List.append_nil]
  exact h

theorem answersTo_own (operation : Operation) (command : MaintenanceCommand)
    (answer : SendAnswer) : answersTo operation [⟨operation, command, answer⟩] = [answer] := by
  simp [answersTo]

theorem tickTasks_handled (hd : (tasks.map Task.operation).Nodup) {task : Task} (hm : task ∈ tasks)
    (report : TickReport) : HandledIn config tick task (tickTasks config tick tasks report) := by
  have hother : ∀ {first : Task} {rest : List Task},
      ((first :: rest).map Task.operation).Nodup → task ∈ rest →
      first.operation ≠ task.operation := by
    intro first rest hnodup hrest he
    rw [List.map_cons, List.nodup_cons] at hnodup
    exact hnodup.1 (he ▸ List.mem_map_of_mem hrest)
  have hnone : ∀ {rest : List Task} {report : TickReport},
      ((task :: rest).map Task.operation).Nodup →
      answersTo task.operation (tickTasks config tick rest report).offers = [] := by
    intro rest report hnodup
    rw [List.map_cons, List.nodup_cons] at hnodup
    exact answersTo_of_notMem hnodup.1 report
  fun_induction tickTasks config tick tasks report with
  | case1 report => cases hm
  | case2 first rest report hdue command hanswer ih =>
    rcases List.mem_cons.mp hm with rfl | hrest
    · refine handledIn_head rfl (hnone hd) ?_
      rw [answersTo_own]
      exact .sent hdue
    · refine (ih (List.nodup_cons.mp hd).2 hrest).behind ?_
      simpa using hother hd hrest
  | case3 first rest report hdue command hanswer ih =>
    rcases List.mem_cons.mp hm with rfl | hrest
    · refine handledIn_head rfl (hnone hd) ?_
      rw [answersTo_own]
      exact .deferred hdue
    · refine (ih (List.nodup_cons.mp hd).2 hrest).behind ?_
      simpa using hother hd hrest
  | case4 first rest report hdue command hanswer =>
    rcases List.mem_cons.mp hm with rfl | hrest
    · refine ⟨task, List.mem_cons_self, rfl, ?_⟩
      rw [answersTo_own]
      exact .refused hdue rfl
    · refine ⟨task, List.mem_cons_of_mem _ hrest, rfl, ?_⟩
      rw [answersTo_of_ne (by simpa using hother hd hrest)]
      exact .behind rfl
  | case5 first rest report hdue ih =>
    rcases List.mem_cons.mp hm with rfl | hrest
    · exact handledIn_head rfl (hnone hd) (.idle (Bool.eq_false_iff.mpr hdue))
    · exact (ih (List.nodup_cons.mp hd).2 hrest).behind fun x hx => absurd hx List.not_mem_nil

end Ticks

theorem Scheduler.nodup_operations (s : Scheduler) : (s.tasks.map Task.operation).Nodup := by
  rw [s.operations_eq]
  decide

/-- What a tick does to a task of the scheduler. -/
theorem Scheduler.tick_handled (s : Scheduler) (tick : Tick) {task : Task}
    (hm : task ∈ s.tasks) :
    ∃ task' ∈ (s.tick tick).1.tasks, task'.operation = task.operation ∧
      Handled s.config.retryDelay tick.now task (s.tick tick).2.report.disconnected
        (answersTo task.operation (s.tick tick).2.offers) task' :=
  tickTasks_handled s.nodup_operations hm ⟨0, 0, false⟩

section Timing

variable {retryDelay now : Nat} {task task' : Task} {cut : Bool} {answers : List SendAnswer}

theorem Task.due_iff : task.due now = true ↔ ∃ due ∈ task.nextDue, due ≤ now := by
  simp [Task.due, Option.any_eq_true]

theorem Task.due_of_eq {due : Nat} (h : task.nextDue = some due) :
    task.due now = true ↔ due ≤ now := by
  rw [Task.due_iff, h]
  simp

section

variable (h : Handled retryDelay now task cut answers task')
include h

/-- A task that is not due is left alone. -/
theorem Handled.early (hdue : task.due now = false) : answers = [] ∧ task' = task := by
  cases h with
  | idle _ | behind _ => exact ⟨rfl, rfl⟩
  | sent ht | deferred ht | refused ht _ => exact absurd ht (by rw [hdue]; exact Bool.false_ne_true)

/-- A due one is offered, unless the tick is cut before it. -/
theorem Handled.late (hdue : task.due now = true) : answers ≠ [] ∨ cut = true := by
  cases h with
  | idle ht => exact absurd hdue (by rw [ht]; exact Bool.false_ne_true)
  | behind hcut => exact Or.inr hcut
  | sent _ | deferred _ | refused _ _ => exact Or.inl (List.cons_ne_nil _ _)

theorem Handled.of_full (hfull : .full ∈ answers) : task' = task.defer now retryDelay := by
  cases h with
  | deferred _ => rfl
  | idle _ | behind _ => cases hfull
  | sent _ | refused _ _ => simp at hfull

end

/-- The times of the successful enqueues. -/
def enqueuedAt (now : Nat) (answers : List SendAnswer) : List Nat :=
  (answers.filter fun a => a == .ok).map fun _ => now

/-- A tick enqueues an operation at most once. -/
theorem Handled.pairwise_enqueuedAt (h : Handled retryDelay now task cut answers task')
    (r : Nat → Nat → Prop) : (enqueuedAt now answers).Pairwise r := by
  cases h with
  | idle _ | behind _ | deferred _ | refused _ _ => exact List.Pairwise.nil
  | sent _ => exact List.pairwise_singleton _ _

/-- The schedule of an operation with the given interval: it is due an interval after each
of the times, or never. -/
structure Task.OnTime (interval : Option Nat) (times : List Nat) (task : Task) : Prop where
  interval_eq : task.interval = interval
  armed : task.nextDue.isSome = interval.isSome
  spaced : ∀ d ∈ interval, ∀ due ∈ task.nextDue, ∀ t ∈ times, t + d ≤ due

theorem Task.onTime_new (operation : Operation) (interval : Option Nat) (start : Nat)
    (hfits : ∀ d ∈ interval.filter fun d => d != 0, start + d ≤ maxInstant) :
    (Task.new operation interval start).OnTime (interval.filter fun d => d != 0) [start] where
  interval_eq := rfl
  armed := Option.isSome_map
  spaced := by
    intro d hd due hdue t ht
    obtain rfl := List.mem_singleton.mp ht
    have hnext : (Task.new operation interval t).nextDue = some (saturatingDeadline t d) :=
      congrArg (Option.map (saturatingDeadline t)) hd
    rw [hnext, saturatingDeadline_eq (hfits d hd)] at hdue
    obtain rfl := Option.some.inj hdue
    exact Nat.le_refl _

variable {interval : Option Nat} {times : List Nat}

section

variable (h : task.OnTime interval times)
include h

theorem Task.OnTime.reschedule (hdue : task.due now = true)
    (hfits : ∀ d ∈ interval, now + d ≤ maxInstant) :
    (task.reschedule now).OnTime interval (times ++ [now]) := by
  obtain ⟨due, hnext, hle⟩ := Task.due_iff.mp hdue
  have harmed := h.armed
  rw [Option.mem_def.mp hnext] at harmed
  obtain ⟨d, hd⟩ := Option.isSome_iff_exists.mp harmed.symm
  have hnew : (task.reschedule now).nextDue = some (now + d) := by
    rw [Task.nextDue_reschedule (h.interval_eq.trans hd), saturatingDeadline_eq (hfits d hd)]
  refine ⟨h.interval_eq, by rw [hnew, hd]; rfl, fun d' hd' due' hdue' t ht => ?_⟩
  obtain rfl : d = d' := Option.some.inj (hd.symm.trans hd')
  obtain rfl : now + d = due' := Option.some.inj (hnew.symm.trans hdue')
  rcases List.mem_append.mp ht with ht | ht
  · have hold := h.spaced d hd due hnext t ht
    omega
  · obtain rfl := List.mem_singleton.mp ht
    exact Nat.le_refl _

/-- A deferral happens when the task is due, and does not make it due earlier. -/
theorem Task.OnTime.defer (hdue : task.due now = true) (retryDelay : Nat) :
    (task.defer now retryDelay).OnTime interval times := by
  obtain ⟨due, hnext, hle⟩ := Task.due_iff.mp hdue
  have harmed := h.armed
  rw [Option.mem_def.mp hnext] at harmed
  refine ⟨h.interval_eq, harmed, fun d hd due' hdue' t ht => ?_⟩
  obtain rfl := Option.some.inj hdue'
  have hold := h.spaced d hd due hnext t ht
  have hlater := le_saturatingDeadline now retryDelay
  omega

/-- One tick keeps the schedule, and an enqueue it makes is an interval behind the others. -/
theorem Task.OnTime.handled (hh : Handled retryDelay now task cut answers task')
    (hfits : .ok ∈ answers → ∀ d ∈ interval, now + d ≤ maxInstant) :
    task'.OnTime interval (times ++ enqueuedAt now answers) ∧
      (∀ d ∈ interval, ∀ t ∈ times, ∀ u ∈ enqueuedAt now answers, t + d ≤ u) ∧
      (interval = none → answers = []) := by
  have hdisabled : interval = none → answers = [] := by
    intro hnone
    have harmed := h.armed
    rw [hnone] at harmed
    refine (hh.early ?_).1
    rw [Task.due, Option.isSome_eq_false_iff.mp harmed |> Option.isNone_iff_eq_none.mp]
    rfl
  refine ⟨?_, ?_, hdisabled⟩
  · cases hh with
    | idle _ | behind _ => rwa [enqueuedAt, List.filter_nil, List.map_nil, List.append_nil]
    | sent hdue => exact h.reschedule hdue (hfits List.mem_cons_self)
    | deferred hdue =>
      have hkept := h.defer hdue retryDelay
      rwa [← List.append_nil times] at hkept
    | refused hdue _ => rwa [← List.append_nil times] at h
  · intro d hd t ht u hu
    obtain ⟨a, ha, rfl⟩ := List.mem_map.mp hu
    have hne : answers ≠ [] := List.ne_nil_of_mem (List.mem_of_mem_filter ha)
    have hdue : task.due now = true := by
      by_contra hnot
      exact hne (hh.early (Bool.eq_false_iff.mpr hnot)).1
    obtain ⟨due, hnext, hle⟩ := Task.due_iff.mp hdue
    exact (h.spaced d hd due hnext t ht).trans hle

/-- After a tick that was not cut, the task is due later than the tick. -/
theorem Task.OnTime.ahead (hh : Handled retryDelay now task false answers task')
    (hpos : 0 < retryDelay) (hok : .ok ∈ answers → ∀ d ∈ interval, now + d ≤ maxInstant)
    (hfull : .full ∈ answers → now + retryDelay ≤ maxInstant) :
    ∀ due ∈ task'.nextDue, now < due := by
  intro due hdue
  cases hh with
  | idle ht =>
    by_contra hle
    rw [Task.due_iff.mpr ⟨due, hdue, Nat.not_lt.mp hle⟩] at ht
    cases ht
  | behind hcut | refused ht hcut => cases hcut
  | sent ht =>
    cases hi : task.interval with
    | none =>
      obtain ⟨due₀, hnext, -⟩ := Task.due_iff.mp ht
      have harmed := h.armed
      rw [← h.interval_eq, hi, Option.mem_def.mp hnext] at harmed
      cases harmed
    | some d =>
      have hd : d ∈ interval := by
        rw [← h.interval_eq, hi]
        rfl
      rw [Task.nextDue_reschedule hi, saturatingDeadline_eq (hok List.mem_cons_self d hd)] at hdue
      obtain rfl := Option.some.inj hdue
      have hd0 := task.interval_pos d hi
      omega
  | deferred ht =>
    rw [Task.nextDue_defer, saturatingDeadline_eq (hfull List.mem_cons_self)] at hdue
    obtain rfl := Option.some.inj hdue
    omega

end

end Timing

end OtelSqlite.Runtime
