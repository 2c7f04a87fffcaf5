import OtelSqlite.Runtime.Scheduler

/-!
# Maintenance respects its intervals

Over any sequence of ticks and any answers of the command queue, while no deadline
saturates. The invariant of a run says of each operation when it was enqueued and that its
task is due an interval after that; a deferral moves the due time, but only forward.
-/

namespace OtelSqlite.Runtime

open OtelSqlite.Core.Batcher OtelSqlite.Lib.Trace

/-- The interval under which the operation is scheduled, if it is. -/
def Operation.enabledInterval (config : MaintenanceConfig) (operation : Operation) : Option Nat :=
  (if operation = .purge ∧ config.retention = none then none
    else operation.interval config).filter fun d => d != 0

/-- The delay before a deferred operation is offered again. -/
def MaintenanceConfig.effectiveRetryDelay (config : MaintenanceConfig) : Nat :=
  max config.retryDelay minRetryDelay

/-- The times at which the operation was enqueued. -/
def enqueued (operation : Operation) (trace : List Ticked) : List Nat :=
  trace.flatMap fun x => enqueuedAt x.now (answersTo operation x.offers)

/-- No deadline that the run computes is beyond the last instant. -/
structure Unsaturated (config : MaintenanceConfig) (start : Nat) (trace : List Ticked) : Prop where
  first : ∀ operation, ∀ d ∈ Operation.enabledInterval config operation, start + d ≤ maxInstant
  next : ∀ x ∈ trace, ∀ operation, .ok ∈ answersTo operation x.offers →
    ∀ d ∈ operation.enabledInterval config, x.now + d ≤ maxInstant
  retry : ∀ x ∈ trace, ∀ operation, .full ∈ answersTo operation x.offers →
    x.now + config.effectiveRetryDelay ≤ maxInstant

theorem Unsaturated.of_append {config : MaintenanceConfig} {start : Nat} {xs ys : List Ticked}
    (h : Unsaturated config start (xs ++ ys)) : Unsaturated config start xs where
  first := h.first
  next := fun x hx => h.next x (List.mem_append_left _ hx)
  retry := fun x hx => h.retry x (List.mem_append_left _ hx)

/-- The rules of the schedule, over a whole run. -/
structure RespectsIntervals (config : MaintenanceConfig) (start : Nat) (trace : List Ticked) :
    Prop where
  /-- An interval lies before the first enqueue and between any two. -/
  spaced : ∀ operation d, Operation.interval config operation = some d →
    (start :: enqueued operation trace).Pairwise fun a b => a + d ≤ b
  never : ∀ operation, Operation.interval config operation = none ∨
    operation.interval config = some 0 ∨ operation = .purge ∧ config.retention = none →
      enqueued operation trace = []
  /-- A tick that was not cut leaves the next deadline ahead. -/
  ahead : (∃ operation d, Operation.interval config operation = some d ∧ d ≠ 0 ∧
      (operation = .purge → config.retention ≠ none)) →
    ∀ x ∈ trace, x.report.disconnected = false →
      ∃ deadline, x.nextDeadline = some deadline ∧ x.now < deadline
  /-- What was deferred is offered at the first tick behind the retry delay, and at none
  before. -/
  retried : ∀ operation xs x ys y zs, trace = xs ++ x :: (ys ++ y :: zs) →
    .full ∈ answersTo operation x.offers →
    (∀ z ∈ ys, z.now < x.now + config.effectiveRetryDelay) →
      (answersTo operation y.offers ≠ [] → x.now + config.effectiveRetryDelay ≤ y.now) ∧
      (x.now + config.effectiveRetryDelay ≤ y.now →
        answersTo operation y.offers ≠ [] ∨ y.report.disconnected = true)

section Enabled

variable {config : MaintenanceConfig} {operation : Operation}

theorem enabledInterval_eq_some_iff {d : Nat} :
    operation.enabledInterval config = some d ↔ operation.interval config = some d ∧ d ≠ 0 ∧
      (operation = .purge → config.retention ≠ none) := by
  unfold Operation.enabledInterval
  split_ifs with h
  · simp only [Option.filter_none, reduceCtorEq, false_iff]
    rintro ⟨-, -, hkept⟩
    exact hkept h.1 h.2
  · rw [Option.filter_eq_some_iff, bne_iff_ne]
    have hkept : operation = .purge → config.retention ≠ none := fun hp hr => h ⟨hp, hr⟩
    tauto

theorem enabledInterval_eq_none (h : operation.interval config = none ∨
    operation.interval config = some 0 ∨ operation = .purge ∧ config.retention = none) :
    operation.enabledInterval config = none := by
  apply Option.eq_none_iff_forall_ne_some.mpr
  intro d hd
  obtain ⟨hi, hd0, hr⟩ := enabledInterval_eq_some_iff.mp hd
  rcases h with h | h | h
  · rw [h] at hi
    cases hi
  · rw [h] at hi
    exact hd0 (Option.some.inj hi).symm
  · exact hr h.1 h.2

/-- The five tasks of a new scheduler. -/
theorem exists_task_new (config : MaintenanceConfig) (start : Nat) (operation : Operation) :
    ∃ interval, Task.new operation interval start ∈ (Scheduler.new config start).tasks ∧
      (interval.filter fun d => d != 0) = operation.enabledInterval config := by
  cases operation with
  | purge =>
    refine ⟨Runtime.purgeInterval config, by simp [Scheduler.new], ?_⟩
    cases hr : config.retention <;>
      simp [Runtime.purgeInterval, Operation.enabledInterval, Operation.interval, hr]
  | checkpoint => exact ⟨config.checkpointInterval, by simp [Scheduler.new], rfl⟩
  | optimize => exact ⟨config.optimizeInterval, by simp [Scheduler.new], rfl⟩
  | vacuum => exact ⟨config.vacuumInterval, by simp [Scheduler.new], rfl⟩
  | rebuildFts => exact ⟨config.rebuildFtsInterval, by simp [Scheduler.new], rfl⟩

end Enabled

theorem enqueued_append (operation : Operation) (xs ys : List Ticked) :
    enqueued operation (xs ++ ys) = enqueued operation xs ++ enqueued operation ys :=
  List.flatMap_append

theorem enqueued_singleton (operation : Operation) (x : Ticked) :
    enqueued operation [x] = enqueuedAt x.now (answersTo operation x.offers) := by
  rw [enqueued, List.flatMap_cons, List.flatMap_nil, List.append_nil]

/-- The invariant: what each operation has done so far, and when its task is due. -/
structure Keeps (config : MaintenanceConfig) (start : Nat) (s : Scheduler) (done : List Ticked) :
    Prop where
  retryDelay_eq : s.config.retryDelay = config.effectiveRetryDelay
  spaced : ∀ operation, ∀ d ∈ Operation.enabledInterval config operation,
    (start :: enqueued operation done).Pairwise fun a b => a + d ≤ b
  never : ∀ operation, Operation.enabledInterval config operation = none →
    enqueued operation done = []
  onTime : ∀ operation, ∃ task ∈ s.tasks, task.operation = operation ∧
    task.OnTime (operation.enabledInterval config) (start :: enqueued operation done)

section Runs

variable {config : MaintenanceConfig} {start : Nat} {s : Scheduler} {done : List Ticked}
  {task : Task}

theorem keeps_new (h : Unsaturated config start []) :
    Keeps config start (Scheduler.new config start) [] where
  retryDelay_eq := rfl
  spaced := fun _ _ _ => List.pairwise_singleton _ _
  never := fun _ _ => rfl
  onTime := by
    intro operation
    obtain ⟨interval, hm, hi⟩ := exists_task_new config start operation
    refine ⟨_, hm, rfl, ?_⟩
    rw [← hi]
    exact Task.onTime_new operation interval start (hi ▸ h.first operation)

theorem Keeps.tick (h : Keeps config start s done) (tick : Tick)
    (hfits : ∀ operation, .ok ∈ answersTo operation (s.tick tick).2.offers →
      ∀ d ∈ operation.enabledInterval config, tick.now + d ≤ maxInstant) :
    Keeps config start (s.tick tick).1 (done ++ [(s.tick tick).2]) := by
  refine ⟨h.retryDelay_eq, fun operation d hd => ?_, fun operation hnone => ?_,
    fun operation => ?_⟩
  all_goals
    obtain ⟨task, hm, rfl, hon⟩ := h.onTime operation
    obtain ⟨task', hm', hop, hh⟩ := s.tick_handled tick hm
    obtain ⟨hon', hbehind, hempty⟩ := hon.handled hh (hfits task.operation)
    rw [enqueued_append, enqueued_singleton]
  · rw [← List.cons_append, List.pairwise_append]
    exact ⟨h.spaced task.operation d hd, hh.pairwise_enqueuedAt _, hbehind d hd⟩
  · rw [h.never task.operation hnone, hempty hnone]
    rfl
  · exact ⟨task', hm', hop, hon'⟩

/-- After a tick that was not cut, every enabled task is due later than the tick. -/
theorem Keeps.ahead (h : Keeps config start s done) (tick : Tick)
    (hok : ∀ operation, .ok ∈ answersTo operation (s.tick tick).2.offers →
      ∀ d ∈ operation.enabledInterval config, tick.now + d ≤ maxInstant)
    (hfull : ∀ operation, .full ∈ answersTo operation (s.tick tick).2.offers →
      tick.now + config.effectiveRetryDelay ≤ maxInstant)
    (hcut : (s.tick tick).2.report.disconnected = false) (hm : task ∈ (s.tick tick).1.tasks) :
    ∀ due ∈ task.nextDue, tick.now < due := by
  obtain ⟨before, hbefore, hsame, hon⟩ := h.onTime task.operation
  obtain ⟨task', hm', hop, hh⟩ := s.tick_handled tick hbefore
  obtain rfl : task' = task :=
    List.inj_on_of_nodup_map (s.tick tick).1.nodup_operations hm' hm (hop.trans hsame)
  rw [hcut, h.retryDelay_eq, hsame] at hh
  refine hon.ahead hh ?_ (hok _) (hfull _)
  exact Nat.lt_of_lt_of_le (by decide) (Nat.le_max_right config.retryDelay minRetryDelay)

theorem Scheduler.nextDeadline_of_ahead {now : Nat} (hm : task ∈ s.tasks)
    (harmed : task.nextDue.isSome = true) (h : ∀ task ∈ s.tasks, ∀ due ∈ task.nextDue, now < due) :
    ∃ deadline, s.nextDeadline = some deadline ∧ now < deadline := by
  obtain ⟨due, hdue⟩ := Option.isSome_iff_exists.mp harmed
  have hmem : due ∈ s.tasks.filterMap Task.nextDue := List.mem_filterMap.mpr ⟨task, hm, hdue⟩
  cases hmin : s.nextDeadline with
  | none =>
    rw [List.min?_eq_none_iff.mp hmin] at hmem
    cases hmem
  | some deadline =>
    obtain ⟨task', hm', hdue'⟩ := List.mem_filterMap.mp (List.min?_mem hmin)
    exact ⟨deadline, rfl, h task' hm' deadline hdue'⟩

/-- A task that is due at a known time waits for it, whatever the ticks before it do. -/
theorem waits {operation : Operation} {due : Nat} {ticks : List Tick} {ys zs : List Ticked}
    {y : Ticked} (hm : task ∈ s.tasks) (hop : task.operation = operation)
    (hdue : task.nextDue = some due) (htrace : trace Scheduler.tick s ticks = ys ++ y :: zs)
    (hearly : ∀ z ∈ ys, z.now < due) :
    (answersTo operation y.offers ≠ [] → due ≤ y.now) ∧
      (due ≤ y.now → answersTo operation y.offers ≠ [] ∨ y.report.disconnected = true) := by
  induction ys generalizing s task ticks with
  | nil =>
    cases ticks with
    | nil => cases htrace
    | cons tick ticks =>
      obtain ⟨rfl, -⟩ := List.cons.inj htrace
      obtain ⟨task', -, -, hh⟩ := s.tick_handled tick hm
      rw [hop] at hh
      constructor
      · intro hoffered
        by_contra hlate
        refine hoffered (hh.early (Bool.eq_false_iff.mpr fun ht => hlate ?_)).1
        exact (Task.due_of_eq hdue).mp ht
      · exact fun hlate => hh.late ((Task.due_of_eq hdue).mpr hlate)
  | cons z ys ih =>
    cases ticks with
    | nil => cases htrace
    | cons tick ticks =>
      obtain ⟨rfl, hrest⟩ := List.cons.inj htrace
      obtain ⟨task', hm', hop', hh⟩ := s.tick_handled tick hm
      have hnot : task.due tick.now = false := by
        have hlt : tick.now < due := hearly _ List.mem_cons_self
        refine Bool.eq_false_iff.mpr fun ht => ?_
        exact Nat.not_le.mpr hlt ((Task.due_of_eq hdue).mp ht)
      obtain rfl := (hh.early hnot).2
      exact ih hm' hop hdue hrest fun z hz => hearly z (List.mem_cons_of_mem _ hz)

/-- What a run keeps, as long as it does not saturate. -/
theorem keeps_step (tick : Tick) (h : Unsaturated config start done → Keeps config start s done)
    (hfits : Unsaturated config start (done ++ [(s.tick tick).2])) :
    Keeps config start (s.tick tick).1 (done ++ [(s.tick tick).2]) :=
  (h hfits.of_append).tick tick (hfits.next _ (by simp))

variable {ticks : List Tick}

theorem keeps_end
    (h : Unsaturated config start (trace Scheduler.tick (Scheduler.new config start) ticks)) :
    ∃ s, Keeps config start s (trace Scheduler.tick (Scheduler.new config start) ticks) := by
  obtain ⟨s, hs⟩ := invariant_end
    (P := fun s done => Unsaturated config start done → Keeps config start s done)
    keeps_step keeps_new ticks
  exact ⟨s, hs h⟩

theorem keeps_at {xs rest : List Ticked} {x : Ticked}
    (htrace : trace Scheduler.tick (Scheduler.new config start) ticks = xs ++ x :: rest)
    (h : Unsaturated config start (xs ++ x :: rest)) :
    ∃ s tick more, Keeps config start s xs ∧ x = (s.tick tick).2 ∧
      rest = trace Scheduler.tick (s.tick tick).1 more := by
  obtain ⟨s, tick, more, hs, hx, hrest⟩ := invariant_at
    (P := fun s done => Unsaturated config start done → Keeps config start s done)
    keeps_step keeps_new htrace
  exact ⟨s, tick, more, hs h.of_append, hx, hrest⟩

end Runs

/-- For every configuration and every sequence of ticks against any queue, while no deadline
saturates: the enqueues of an operation are at least its interval apart, and the first is an
interval after the start; what is not enabled is never enqueued; a tick that was not cut by a
disconnection leaves the next deadline ahead; and a deferred operation is offered again at
the first tick behind the retry delay, unless a disconnection cuts that tick, and not
before. -/
theorem maintenance_respects_intervals (config : MaintenanceConfig) (start : Nat)
    (ticks : List Tick)
    (h : Unsaturated config start (trace Scheduler.tick (Scheduler.new config start) ticks)) :
    RespectsIntervals config start
      (trace Scheduler.tick (Scheduler.new config start) ticks) := by
  obtain ⟨last, hend⟩ := keeps_end h
  refine ⟨fun operation d hd => ?_, fun operation hnone => ?_, fun henabled x hx hcut => ?_, ?_⟩
  · cases hi : operation.enabledInterval config with
    | none =>
      rw [hend.never operation hi]
      exact List.pairwise_singleton _ _
    | some d' =>
      obtain ⟨hd', -⟩ := enabledInterval_eq_some_iff.mp hi
      obtain rfl : d = d' := Option.some.inj (hd.symm.trans hd')
      exact hend.spaced operation d hi
  · exact hend.never operation (enabledInterval_eq_none hnone)
  · obtain ⟨operation, d, hi, hd0, hr⟩ := henabled
    obtain ⟨xs, rest, htrace⟩ := List.append_of_mem hx
    rw [htrace] at h
    obtain ⟨s, tick, more, hkeeps, rfl, -⟩ := keeps_at htrace h
    have hmem : (s.tick tick).2 ∈ xs ++ (s.tick tick).2 :: rest :=
      List.mem_append_right _ List.mem_cons_self
    obtain ⟨task, hm, hop, hon⟩ := (hkeeps.tick tick (h.next _ hmem)).onTime operation
    have harmed := hon.armed
    rw [enabledInterval_eq_some_iff.mpr ⟨hi, hd0, hr⟩] at harmed
    exact Scheduler.nextDeadline_of_ahead hm harmed fun task hm =>
      hkeeps.ahead tick (h.next _ hmem) (h.retry _ hmem) hcut hm
  · intro operation xs x ys y zs htrace hfull hearly
    rw [htrace] at h
    obtain ⟨s, tick, more, hkeeps, rfl, hrest⟩ := keeps_at htrace h
    obtain ⟨task, hm, rfl, -⟩ := hkeeps.onTime operation
    obtain ⟨task', hm', hop, hh⟩ := s.tick_handled tick hm
    have hfits : tick.now + config.effectiveRetryDelay ≤ maxInstant :=
      h.retry _ (List.mem_append_right _ List.mem_cons_self) _ hfull
    have hdue : task'.nextDue = some (tick.now + config.effectiveRetryDelay) := by
      rw [hh.of_full hfull, Task.nextDue_defer, hkeeps.retryDelay_eq, saturatingDeadline_eq hfits]
    exact waits hm' hop hdue hrest.symm hearly

section Sample

instance decidableForallOperation (p : Operation → Prop) [DecidablePred p] :
    Decidable (∀ operation, p operation) :=
  decidable_of_iff (∀ operation ∈ allOperations, p operation)
    ⟨fun h operation => h operation (by cases operation <;> decide),
      fun h operation _ => h operation⟩

/-- A purge every second and a checkpoint every two, with no delay for retries configured. -/
def twoTasks : MaintenanceConfig where
  retention := some (60 * 10 ^ 9)
  purgeInterval := some (10 ^ 9)
  checkpointInterval := some (2 * 10 ^ 9)
  checkpointMode := .passive
  optimizeInterval := none
  vacuumInterval := some 0
  rebuildFtsInterval := none
  retryDelay := 0

/-- The queue is full at the first tick, and later it is not. -/
def fullThenOpen : List Tick :=
  [⟨10 ^ 9, fun _ => .full⟩, ⟨10 ^ 9 + 5 * 10 ^ 6, fun _ => .ok⟩,
    ⟨10 ^ 9 + 10 * 10 ^ 6, fun _ => .ok⟩, ⟨2 * 10 ^ 9 + 10 * 10 ^ 6, fun _ => .ok⟩]

theorem maintenance_respects_intervals_full_queue :
    let run := trace Scheduler.tick (Scheduler.new twoTasks 0) fullThenOpen
    enqueued .purge run = [10 ^ 9 + 10 * 10 ^ 6, 2 * 10 ^ 9 + 10 * 10 ^ 6] ∧
      Unsaturated twoTasks 0 run ∧ RespectsIntervals twoTasks 0 run := by
  intro run
  have hfits : Unsaturated twoTasks 0 run :=
    ⟨by decide +kernel, by decide +kernel, by decide +kernel⟩
  exact ⟨by decide +kernel, hfits, maintenance_respects_intervals twoTasks 0 fullThenOpen hfits⟩

end Sample

end OtelSqlite.Runtime
