import Mathlib.Algebra.Order.Field.Rat
import OtelSqlite.Storage.Stats

/-!
# The watchdog's verdicts

`evaluate` maps one sample to a verdict. Thresholds are whole milliseconds, like
the ages they are compared with. The single-precision product in the saturation
threshold is a parameter: no verdict before the saturation rule depends on it.
-/

namespace OtelSqlite.Runtime

open OtelSqlite.Core OtelSqlite.Storage

inductive HealthState where
  | healthy
  | degraded
  | unhealthy
  deriving DecidableEq, Repr

inductive Reason where
  | writerNotRunning
  | batcherNotRunning
  | maintenanceRunning (elapsedMs pending : Nat)
  | maintenanceStalled (elapsedMs limitMs : Nat)
  | maintenanceAckStall (elapsedMs tickets watermarkIdleMs : Nat)
  | maintenanceSaturated (elapsedMs depth capacity : Nat)
  | ackStall (tickets watermarkIdleMs : Nat)
  | idle
  | stalled (pending writerIdleMs batcherIdleMs : Nat)
  | draining (pending ageMs : Nat)
  | saturated (depth capacity : Nat)
  | progressing (pending : Nat)
  deriving DecidableEq, Repr

structure Evaluation where
  state : HealthState
  reason : Reason
  deriving DecidableEq, Repr

/-- `queuePressureRatio` is `none` if the single-precision value is not finite. -/
structure WatchdogConfig where
  degradedAfter : Nat
  unhealthyAfter : Nat
  ackStallAfter : Nat
  maintenanceStallAfter : Nat
  queuePressureRatio : Option ℚ

inductive WatchdogConfigError where
  | zeroDuration (field : String)
  | degradedNotBeforeUnhealthy (degraded unhealthy : Nat)
  | maintenanceStallBeforeUnhealthy (maintenance unhealthy : Nat)
  | invalidQueuePressureRatio (ratio : Option ℚ)
  deriving DecidableEq, Repr

/-- The check `Watchdog::new` makes before any sample is evaluated. -/
def WatchdogConfig.validate (config : WatchdogConfig) : Except WatchdogConfigError Unit :=
  let durations := [("degraded_after", config.degradedAfter),
    ("unhealthy_after", config.unhealthyAfter), ("ack_stall_after", config.ackStallAfter),
    ("maintenance_stall_after", config.maintenanceStallAfter)]
  match durations.find? fun d => d.2 = 0 with
  | some (name, _) => .error (.zeroDuration name)
  | none =>
    if config.unhealthyAfter ≤ config.degradedAfter then
      .error (.degradedNotBeforeUnhealthy config.degradedAfter config.unhealthyAfter)
    else if config.maintenanceStallAfter < config.unhealthyAfter then
      .error (.maintenanceStallBeforeUnhealthy config.maintenanceStallAfter config.unhealthyAfter)
    else
      match config.queuePressureRatio with
      | none => .error (.invalidQueuePressureRatio none)
      | some ratio =>
        if ratio ≤ 0 ∨ 1 < ratio then .error (.invalidQueuePressureRatio (some ratio)) else .ok ()

theorem WatchdogConfig.degraded_lt_unhealthy {config : WatchdogConfig}
    (h : config.validate = .ok ()) : config.degradedAfter < config.unhealthyAfter := by
  by_contra hle
  rw [Nat.not_lt] at hle
  simp only [validate, if_pos hle] at h
  split at h <;> cases h

section Evaluate

variable (product : Nat → ℚ → Nat)

/-- `product capacity ratio` is `(capacity as f32 * ratio) as usize`. -/
def queuePressureThreshold (capacity : Nat) (ratio : Option ℚ) : Nat :=
  if capacity = 0 then u64Max
  else
    let ratio := match ratio with
      | some ratio => max 0 (min ratio 1)
      | none => 1
    max (product capacity ratio) 1

def evaluate (config : WatchdogConfig) (sample : PipelineSample) : Evaluation :=
  if !sample.writerRunning then ⟨.unhealthy, .writerNotRunning⟩
  else if !sample.batcherRunning then ⟨.unhealthy, .batcherNotRunning⟩
  else
    let threshold := queuePressureThreshold product sample.queueCapacity config.queuePressureRatio
    let pending := sample.pendingWork
    if sample.maintenanceInProgress then
      if config.maintenanceStallAfter ≤ sample.maintenanceElapsedMs then
        ⟨.unhealthy,
          .maintenanceStalled sample.maintenanceElapsedMs config.maintenanceStallAfter⟩
      else if 0 < sample.outstandingTickets ∧ config.ackStallAfter ≤ sample.watermarkIdleMs then
        ⟨.degraded, .maintenanceAckStall sample.maintenanceElapsedMs sample.outstandingTickets
          sample.watermarkIdleMs⟩
      else if threshold ≤ sample.queueDepth then
        ⟨.degraded, .maintenanceSaturated sample.maintenanceElapsedMs sample.queueDepth
          sample.queueCapacity⟩
      else ⟨.healthy, .maintenanceRunning sample.maintenanceElapsedMs pending⟩
    else if 0 < sample.outstandingTickets ∧ pending = 0 ∧
        config.ackStallAfter ≤ sample.watermarkIdleMs then
      ⟨.unhealthy, .ackStall sample.outstandingTickets sample.watermarkIdleMs⟩
    else if pending = 0 then ⟨.healthy, .idle⟩
    else if config.unhealthyAfter ≤ sample.writerIdleMs ∨
        config.unhealthyAfter ≤ sample.batcherIdleMs then
      ⟨.unhealthy, .stalled pending sample.writerIdleMs sample.batcherIdleMs⟩
    else if config.degradedAfter ≤ sample.writerIdleMs ∨
        config.degradedAfter ≤ sample.batcherIdleMs then
      ⟨.degraded, .draining pending (max sample.writerIdleMs sample.batcherIdleMs)⟩
    else if threshold ≤ sample.queueDepth then
      ⟨.degraded, .saturated sample.queueDepth sample.queueCapacity⟩
    else ⟨.healthy, .progressing pending⟩

/-- When the stall rule fires: there is work, and one of the two marks is too old. -/
theorem evaluate_stalled_iff (config : WatchdogConfig) (sample : PipelineSample) :
    (∃ pending writerIdle batcherIdle,
        evaluate product config sample =
          ⟨.unhealthy, .stalled pending writerIdle batcherIdle⟩) ↔
      sample.writerRunning = true ∧ sample.batcherRunning = true ∧
        sample.maintenanceInProgress = false ∧ 0 < sample.pendingWork ∧
        (config.unhealthyAfter ≤ sample.writerIdleMs ∨
          config.unhealthyAfter ≤ sample.batcherIdleMs) := by
  constructor
  · rintro ⟨pending, writerIdle, batcherIdle, h⟩
    revert h
    fun_cases evaluate product config sample
    case case9 hw hb _ hm _ hpending hstale =>
      intro
      simp only [Bool.not_eq_true', Bool.not_eq_false] at hw hb
      exact ⟨hw, hb, Bool.eq_false_iff.mpr hm, Nat.pos_of_ne_zero hpending, hstale⟩
    -- every other branch gives another reason
    all_goals exact nofun
  · rintro ⟨hw, hb, hm, hpending, hstale⟩
    refine ⟨sample.pendingWork, sample.writerIdleMs, sample.batcherIdleMs, ?_⟩
    simp [evaluate, hw, hb, hm, hpending.ne', hstale]

/-- When the durability rule fires: tickets are outstanding, no counter shows work, and
the watermark is too old. -/
theorem evaluate_ackStall_iff (config : WatchdogConfig) (sample : PipelineSample) :
    (∃ tickets idle, evaluate product config sample = ⟨.unhealthy, .ackStall tickets idle⟩) ↔
      sample.writerRunning = true ∧ sample.batcherRunning = true ∧
        sample.maintenanceInProgress = false ∧ 0 < sample.outstandingTickets ∧
        sample.pendingWork = 0 ∧ config.ackStallAfter ≤ sample.watermarkIdleMs := by
  constructor
  · rintro ⟨tickets, idle, h⟩
    revert h
    fun_cases evaluate product config sample
    case case7 hw hb _ hm hstall =>
      intro
      simp only [Bool.not_eq_true', Bool.not_eq_false] at hw hb
      exact ⟨hw, hb, Bool.eq_false_iff.mpr hm, hstall⟩
    all_goals exact nofun
  · rintro ⟨hw, hb, hm, hstall⟩
    refine ⟨sample.outstandingTickets, sample.watermarkIdleMs, ?_⟩
    simp [evaluate, hw, hb, hm, hstall]

end Evaluate

end OtelSqlite.Runtime
