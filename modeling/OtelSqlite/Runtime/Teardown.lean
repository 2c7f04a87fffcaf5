import OtelSqlite.Lib.Completion
import OtelSqlite.Runtime.Process

/-!
# How main takes the process down

Once the server has returned, `main` stops the watchdog, the maintenance worker and the storage,
in this order and each only when the one before has ended. So when it waits for the storage, the
batcher is the last to hold the command queue open. The wait ends whatever the threads do: a
stopped thread has a few moves left, and the storage gets its timeout. A clean exit means that
every party ended well.
-/

namespace OtelSqlite.Runtime

open OtelSqlite.Core.Batcher (saturatingDeadline_le)
open OtelSqlite.Lib.Run (Waits awaited)

variable {product : Nat → ℚ → Nat} {config : ProcessConfig} {p p' : Process} {e : ProcessEvent}
  {place : MainPlace}

section Threads

variable {clock : Nat} {stop received : Bool} {e : WatchdogEvent}

@[simp]
theorem WatchdogPlace.next_ended {panicked : Bool} :
    (WatchdogPlace.ended panicked).next product config clock stop received e = none := by
  cases e <;> rfl

@[simp]
theorem WorkerPlace.next_ended {panicked : Bool} {e : WorkerEvent} :
    (WorkerPlace.ended panicked).next clock stop e = none := by
  cases e <;> rfl

/-- The moves a stopped watchdog has left. -/
@[simp]
def WatchdogPlace.left : WatchdogPlace → Nat
  | .sampling _ => 3
  | .sending _ | .waiting _ _ => 2
  | .top _ | .recheck _ | .sent => 1
  | .ended _ => 0

/-- The moves a stopped worker has left. -/
@[simp]
def WorkerPlace.left : WorkerPlace → Nat
  | .ticking _ => 3
  | .sleeping _ _ => 2
  | .top _ | .idle => 1
  | .ended _ => 0

theorem WatchdogPlace.left_le (place : WatchdogPlace) : place.left ≤ 3 := by
  cases place <;> simp

theorem WorkerPlace.left_le (place : WorkerPlace) : place.left ≤ 3 := by
  cases place <;> simp

/-- A stopped watchdog comes closer to its end with every move. -/
theorem WatchdogPlace.next_left {place next : WatchdogPlace}
    (h : place.next product config clock true received e = some next) : next.left < place.left := by
  cases place with
  | ended => simp at h
  | top | recheck | sent =>
    cases e <;> cases h <;> simp
  | sampling =>
    cases e with
    | sample =>
      simp only [WatchdogPlace.next] at h
      split at h <;> cases h <;> simp
    | panic =>
      cases h
      simp
    | _ => cases h
  | sending =>
    cases e <;> cases h
    · cases received <;> simp
    · simp
  | waiting =>
    cases e with
    | timer =>
      simp only [WatchdogPlace.next] at h
      split at h <;> cases h
      simp
    | step | panic =>
      cases h
      simp
    | _ => cases h

/-- So does a stopped worker. -/
theorem WorkerPlace.next_left {place next : WorkerPlace} {e : WorkerEvent}
    (h : place.next clock true e = some next) : next.left < place.left := by
  cases place with
  | ended => simp at h
  | top | idle => cases e <;> cases h <;> simp
  | ticking =>
    cases e with
    | tick =>
      simp only [WorkerPlace.next] at h
      split at h
      · cases h
        simp
      · split at h <;> cases h <;> simp
    | panic =>
      cases h
      simp
    | _ => cases h
  | sleeping =>
    cases e with
    | timer =>
      simp only [WorkerPlace.next] at h
      split at h <;> cases h
      simp
    | step | panic =>
      cases h
      simp
    | _ => cases h

def WatchdogEvent.panics : WatchdogEvent → Bool
  | .panic => true
  | _ => false

def WorkerEvent.panics : WorkerEvent → Bool
  | .panic => true
  | _ => false

/-- A stopped watchdog has ended or can move on, without a panic. -/
theorem WatchdogPlace.possible (place : WatchdogPlace) :
    (∃ panicked, place = .ended panicked) ∨ ∃ e : WatchdogEvent, e.panics = false ∧
      (place.next product config clock true received e).isSome = true := by
  cases place with
  | ended panicked => exact .inl ⟨panicked, rfl⟩
  | sampling previous =>
    -- any sample would do
    refine .inr ⟨.sample ⟨true, true, 0, 0, 0, 0, 0, 0, 0, false, 0⟩, rfl, ?_⟩
    simp only [WatchdogPlace.next]
    split <;> rfl
  | _ => exact .inr ⟨.step, rfl, rfl⟩

/-- So has a stopped worker. -/
theorem WorkerPlace.possible (place : WorkerPlace) :
    (∃ panicked, place = .ended panicked) ∨ ∃ e : WorkerEvent, e.panics = false ∧
      (place.next clock true e).isSome = true := by
  cases place with
  | ended panicked => exact .inl ⟨panicked, rfl⟩
  | ticking scheduler =>
    refine .inr ⟨.tick fun _ => .ok, rfl, ?_⟩
    simp only [WorkerPlace.next]
    split
    · rfl
    · split <;> rfl
  | _ => exact .inr ⟨.step, rfl, rfl⟩

end Threads

section Waiting

/-- The deadline of a wait for a storage thread. -/
@[simp]
def MainPlace.deadline : MainPlace → Option Nat
  | .joiningBatcher _ deadline | .joiningWriter _ deadline => some deadline
  | _ => none

/-- The events that `main` waits for once the server has returned: its own next statement, the
moves of the thread it joins, or the end of a storage thread and the time until the deadline. -/
def Process.awaits (p : Process) : ProcessEvent → Bool
  | .main => true
  | .watchdog e => p.main.stage = 3 && !e.panics
  | .worker e => p.main.stage = 5 && !e.panics
  | .batcherEnds _ => p.main.stage = 7
  | .writerEnds _ => p.main.stage = 8
  | .tick elapsed => 0 < elapsed && p.main.deadline.any fun deadline => p.clock < deadline
  | .signal _ | .server _ => false

/-- What is left to do, at most. -/
def Process.remaining (config : ProcessConfig) (p : Process) : Nat :=
  let timeout := config.storageShutdownTimeout
  match p.main with
  | .serving => timeout + 17
  | .served _ => timeout + 16
  | .stoppingWatchdog _ => timeout + 15
  | .joiningWatchdog _ => timeout + 11 + p.watchdog.left
  | .stoppingWorker _ => timeout + 10
  | .joiningWorker _ => timeout + 6 + p.worker.left
  | .releasing _ => timeout + 5
  | .joiningBatcher _ deadline => (deadline - p.clock) + 3 + p.batcher.isNone.toNat
  | .joiningWriter _ deadline => (deadline - p.clock) + 1 + p.writer.isNone.toNat
  | .finished _ => 0

/-- A statement of `main` brings it closer to the end. -/
theorem remaining_main (h : p.mainNext config = some place) :
    ({ p with main := place } : Process).remaining config < p.remaining config := by
  cases hp : p.main <;> simp only [Process.mainNext, hp] at h
  case serving =>
    split at h <;> cases h
    simp [Process.remaining, hp]
  case served | stoppingWorker =>
    cases h
    have := p.worker.left_le
    simp only [Process.remaining, hp]
    omega
  case stoppingWatchdog =>
    cases h
    have := p.watchdog.left_le
    simp only [Process.remaining, hp]
    omega
  case joiningWatchdog | joiningWorker =>
    split at h <;> cases h
    simp only [Process.remaining, hp]
    omega
  case releasing =>
    cases h
    have hdeadline := saturatingDeadline_le p.clock config.storageShutdownTimeout
    have := Bool.toNat_le p.batcher.isNone
    simp only [Process.remaining, hp]
    omega
  case joiningBatcher =>
    have := Bool.toNat_le p.writer.isNone
    split at h
    · cases h
      simp [Process.remaining, hp]
    · cases h
      simp only [Process.remaining, hp]
      omega
    · split at h <;> cases h
      simp [Process.remaining, hp]
  case joiningWriter =>
    split at h
    · cases h
      simp [Process.remaining, hp]
    · split at h <;> cases h
      simp [Process.remaining, hp]
  case finished => cases h

/-- Every step brings `main` on if it was awaited, and does not hold it up otherwise. -/
theorem remaining_step (hs : p.step product config e = some p') :
    p'.remaining config ≤ p.remaining config ∧
      (p.awaits e = true → p'.remaining config < p.remaining config) := by
  cases e with
  | main =>
    obtain ⟨place, hnext, rfl⟩ := Option.map_eq_some_iff.mp hs
    have hlt := remaining_main hnext
    exact ⟨hlt.le, fun _ => hlt⟩
  | watchdog e =>
    obtain ⟨place, hnext, rfl⟩ := Option.map_eq_some_iff.mp hs
    cases hp : p.main <;> simp only [Process.remaining, Process.awaits, hp, MainPlace.stage]
    case joiningWatchdog =>
      simp only [Process.stopsWatchdog, hp] at hnext
      have hlt := WatchdogPlace.next_left hnext
      exact ⟨by omega, fun _ => by omega⟩
    all_goals simp
  | worker e =>
    obtain ⟨place, hnext, rfl⟩ := Option.map_eq_some_iff.mp hs
    cases hp : p.main <;> simp only [Process.remaining, Process.awaits, hp, MainPlace.stage]
    case joiningWorker =>
      simp only [Process.stopsWorker, hp] at hnext
      have hlt := WorkerPlace.next_left hnext
      exact ⟨by omega, fun _ => by omega⟩
    all_goals simp
  | signal e | server e =>
    obtain ⟨place, -, rfl⟩ := Option.map_eq_some_iff.mp hs
    exact ⟨le_rfl, by rintro ⟨⟩⟩
  | tick elapsed =>
    cases hs
    cases hp : p.main <;> simp [Process.remaining, Process.awaits, hp] <;> omega
  | batcherEnds panicked | writerEnds result =>
    simp only [Process.step] at hs
    split at hs <;> cases hs
    next hnone =>
      cases hp : p.main <;> simp [Process.remaining, Process.awaits, hp, hnone]

/-- Until it has finished, what `main` waits for is possible. -/
theorem awaited_possible (hserver : ∃ result, p.server = .returned result)
    (hnot : ¬∃ report, p.main = .finished report) :
    ∃ e, p.awaits e = true ∧ (p.step product config e).isSome = true := by
  obtain ⟨result, hserver⟩ := hserver
  have hmain : (p.mainNext config).isSome = true →
      ∃ e, p.awaits e = true ∧ (p.step product config e).isSome = true := by
    intro hsome
    exact ⟨.main, rfl, by rw [Process.step, Option.isSome_map]; exact hsome⟩
  cases hp : p.main with
  | serving => exact hmain (by simp [Process.mainNext, hp, hserver])
  | served | stoppingWatchdog | stoppingWorker | releasing =>
    exact hmain (by simp [Process.mainNext, hp])
  | joiningWatchdog report =>
    rcases p.watchdog.possible with ⟨panicked, hw⟩ | ⟨e, hregular, hsome⟩
    · exact hmain (by simp [Process.mainNext, hp, hw])
    · refine ⟨.watchdog e, by simp [Process.awaits, hp, hregular], ?_⟩
      rw [Process.step, Option.isSome_map, Process.stopsWatchdog, hp]
      exact hsome
  | joiningWorker report =>
    rcases p.worker.possible with ⟨panicked, hw⟩ | ⟨e, hregular, hsome⟩
    · exact hmain (by simp [Process.mainNext, hp, hw])
    · refine ⟨.worker e, by simp [Process.awaits, hp, hregular], ?_⟩
      rw [Process.step, Option.isSome_map, Process.stopsWorker, hp]
      exact hsome
  | joiningBatcher report deadline =>
    by_cases hd : deadline ≤ p.clock
    · rcases hb : p.batcher with _ | _ | _ <;>
        exact hmain (by simp [Process.mainNext, hp, hb, hd])
    · exact ⟨.tick 1, by simp [Process.awaits, hp, not_le.mp hd], rfl⟩
  | joiningWriter report deadline =>
    by_cases hd : deadline ≤ p.clock
    · cases hw : p.writer <;> exact hmain (by simp [Process.mainNext, hp, hw, hd])
    · exact ⟨.tick 1, by simp [Process.awaits, hp, not_le.mp hd], rfl⟩
  | finished report => exact absurd ⟨report, hp⟩ hnot

end Waiting

section Others

/-- What the other parties leave alone, whatever they do. -/
structure Kept (p p' : Process) : Prop where
  main : p'.main = p.main := by rfl
  server : ∀ result, p.server = .returned result → p'.server = .returned result := by
    exact fun _ h => h
  halted : p.halted = true → p'.halted = true := by exact fun h => h
  watchdog : ∀ panicked, p.watchdog = .ended panicked → p'.watchdog = .ended panicked := by
    exact fun _ h => h
  worker : ∀ panicked, p.worker = .ended panicked → p'.worker = .ended panicked := by
    exact fun _ h => h
  batcher : ∀ panicked, p.batcher = some panicked → p'.batcher = some panicked := by
    exact fun _ h => h
  writer : ∀ result, p.writer = some result → p'.writer = some result := by exact fun _ h => h

theorem Process.kept (hs : p.step product config e = some p') (he : e ≠ .main) : Kept p p' := by
  cases e with
  | main => exact absurd rfl he
  | tick elapsed =>
    cases hs
    exact {}
  | watchdog e =>
    obtain ⟨place, hnext, rfl⟩ := Option.map_eq_some_iff.mp hs
    refine { halted := fun hh => ?_, watchdog := fun panicked hw => ?_ }
    · simp [hh]
    · simp [hw] at hnext
  | worker e =>
    obtain ⟨place, hnext, rfl⟩ := Option.map_eq_some_iff.mp hs
    refine { worker := fun panicked hw => ?_ }
    simp [hw] at hnext
  | signal e =>
    obtain ⟨place, -, rfl⟩ := Option.map_eq_some_iff.mp hs
    exact {}
  | server e =>
    obtain ⟨place, hnext, rfl⟩ := Option.map_eq_some_iff.mp hs
    refine { server := fun result hr => ?_ }
    rw [hr] at hnext
    cases e <;> cases hnext
  | batcherEnds panicked =>
    simp only [Process.step] at hs
    split at hs <;> cases hs
    next hnone => exact { batcher := fun _ hb => by simp [hb] at hnone }
  | writerEnds result =>
    simp only [Process.step] at hs
    split at hs <;> cases hs
    next hnone => exact { writer := fun _ hw => by simp [hw] at hnone }

end Others

section Order

@[simp]
def MainPlace.report : MainPlace → Option Report
  | .serving => none
  | .served report | .stoppingWatchdog report | .joiningWatchdog report | .stoppingWorker report
  | .joiningWorker report | .releasing report | .joiningBatcher report _ | .joiningWriter report _
  | .finished report => some report

/-- The storage ended as `main` reports it. A thread that missed the deadline may have ended
since. -/
def Process.StorageEnded (p : Process) : Option StorageFailure → Prop
  | none => p.batcher = some false ∧ p.writer = some .returned
  | some .batcherPanicked => p.batcher = some true
  | some .writerPanicked => p.batcher = some false ∧ p.writer = some .panicked
  | some (.writerFailed message) => p.batcher = some false ∧ p.writer = some (.failed message)
  | some .shutdownTimeout => True

theorem Process.StorageEnded.kept {failure : Option StorageFailure} (h : p.StorageEnded failure)
    (hk : Kept p p') : p'.StorageEnded failure := by
  match failure, h with
  | none, ⟨hb, hw⟩ => exact ⟨hk.batcher _ hb, hk.writer _ hw⟩
  | some .batcherPanicked, hb => exact hk.batcher _ hb
  | some .writerPanicked, ⟨hb, hw⟩ => exact ⟨hk.batcher _ hb, hk.writer _ hw⟩
  | some (.writerFailed _), ⟨hb, hw⟩ => exact ⟨hk.batcher _ hb, hk.writer _ hw⟩
  | some .shutdownTimeout, _ => trivial

/-- What `main` has brought about, and what it has written down. -/
structure Ordered (p : Process) : Prop where
  served : ∀ report ∈ p.main.report, p.server = .returned report.serve
  halt : ∀ report ∈ p.main.report, report.haltRequested = true → p.halted = true
  watchdog : 4 ≤ p.main.stage → ∀ report ∈ p.main.report,
    p.watchdog = .ended report.watchdogPanicked
  worker : 6 ≤ p.main.stage → ∀ report ∈ p.main.report, p.worker = .ended report.workerPanicked
  batcher : ∀ report deadline, p.main = .joiningWriter report deadline → p.batcher = some false
  storage : ∀ report, p.main = .finished report → p.StorageEnded report.storage

theorem ordered_new (now : Nat) : Ordered (Process.new config now) := by
  constructor <;> simp [Process.new]

theorem Ordered.kept (h : Ordered p) (hk : Kept p p') : Ordered p' := by
  constructor
  · intro report hr
    exact hk.server _ (h.served report (hk.main ▸ hr))
  · intro report hr hreq
    exact hk.halted (h.halt report (hk.main ▸ hr) hreq)
  · intro hstage report hr
    exact hk.watchdog _ (h.watchdog (hk.main ▸ hstage) report (hk.main ▸ hr))
  · intro hstage report hr
    exact hk.worker _ (h.worker (hk.main ▸ hstage) report (hk.main ▸ hr))
  · intro report deadline hp
    exact hk.batcher _ (h.batcher report deadline (hk.main ▸ hp))
  · intro report hp
    exact (h.storage report (hk.main ▸ hp)).kept hk

/-- What has to be known at a place of `main`. -/
theorem ordered_at {report : Report} (hreport : place.report = some report)
    (hserved : p.server = .returned report.serve)
    (hhalt : report.haltRequested = true → p.halted = true)
    (hwatchdog : 4 ≤ place.stage → p.watchdog = .ended report.watchdogPanicked)
    (hworker : 6 ≤ place.stage → p.worker = .ended report.workerPanicked)
    (hbatcher : place.stage = 8 → p.batcher = some false)
    (hstorage : place.stage = 9 → p.StorageEnded report.storage) :
    Ordered { p with main := place } := by
  have honly : ∀ report' ∈ place.report, report' = report := by
    intro report' hr
    rw [hreport, Option.mem_some] at hr
    exact hr.symm
  constructor
  · intro report' hr
    rw [honly report' hr]
    exact hserved
  · intro report' hr
    rw [honly report' hr]
    exact hhalt
  · intro hs report' hr
    rw [honly report' hr]
    exact hwatchdog hs
  · intro hs report' hr
    rw [honly report' hr]
    exact hworker hs
  · rintro report' deadline rfl
    exact hbatcher rfl
  · rintro report' rfl
    rw [honly report' rfl]
    exact hstorage rfl

/-- Behind the end of the worker, only the part of the storage is written. -/
theorem Ordered.withStorage (h : Ordered p) {report : Report} {storage : Option StorageFailure}
    (hp : p.main.report = some report) (hstage : 6 ≤ p.main.stage)
    (hreport : place.report = some { report with storage })
    (hbatcher : place.stage = 8 → p.batcher = some false)
    (hstorage : place.stage = 9 → p.StorageEnded storage) : Ordered { p with main := place } :=
  ordered_at hreport (h.served report hp) (h.halt report hp)
    (fun _ => h.watchdog (by omega) report hp) (fun _ => h.worker hstage report hp)
    hbatcher hstorage

/-- A statement of `main` leaves the next one what it needs. -/
theorem Ordered.main (h : Ordered p) (hnext : p.mainNext config = some place) :
    Ordered { p with main := place } := by
  have ⟨hserved, hhalt, hwatchdog, _, hbatcher, _⟩ := h
  cases hp : p.main <;> simp only [Process.mainNext, hp] at hnext <;>
    simp only [hp, MainPlace.report, MainPlace.stage, Option.mem_some]
      at hserved hhalt hwatchdog
  case serving =>
    split at hnext <;> cases hnext
    exact ordered_at rfl ‹_› (by rintro ⟨⟩) (by simp) (by simp) (by simp) (by simp)
  case served report =>
    cases hnext
    exact ordered_at rfl (hserved report rfl) id (by simp) (by simp) (by simp) (by simp)
  case stoppingWatchdog report =>
    cases hnext
    exact ordered_at rfl (hserved report rfl) (hhalt report rfl) (by simp) (by simp) (by simp)
      (by simp)
  case joiningWatchdog report =>
    split at hnext <;> cases hnext
    next hw =>
      exact ordered_at rfl (hserved report rfl) (hhalt report rfl) (fun _ => hw) (by simp)
        (by simp) (by simp)
  case stoppingWorker report =>
    cases hnext
    exact ordered_at rfl (hserved report rfl) (hhalt report rfl)
      (fun _ => hwatchdog (by decide) report rfl) (by simp) (by simp) (by simp)
  case joiningWorker report =>
    split at hnext <;> cases hnext
    next hw =>
      exact ordered_at rfl (hserved report rfl) (hhalt report rfl)
        (fun _ => hwatchdog (by decide) report rfl) (fun _ => hw) (by simp) (by simp)
  case releasing report =>
    cases hnext
    exact h.withStorage (by rw [hp]; rfl) (by simp [hp]) rfl (by simp) (by simp)
  case joiningBatcher report deadline =>
    have hreport : p.main.report = some report := by rw [hp]; rfl
    have hstage : 6 ≤ p.main.stage := by simp [hp]
    split at hnext
    · next hb =>
      cases hnext
      exact h.withStorage hreport hstage rfl (by simp) fun _ => hb
    · next hb =>
      cases hnext
      exact h.withStorage hreport hstage rfl (fun _ => hb) (by simp)
    · split at hnext <;> cases hnext
      exact h.withStorage hreport hstage rfl (by simp) fun _ => trivial
  case joiningWriter report deadline =>
    have hreport : p.main.report = some report := by rw [hp]; rfl
    have hstage : 6 ≤ p.main.stage := by simp [hp]
    have hb := hbatcher report deadline hp
    split at hnext
    · next result hw =>
      cases hnext
      cases result <;> exact h.withStorage hreport hstage rfl (by simp) fun _ => ⟨hb, hw⟩
    · split at hnext <;> cases hnext
      exact h.withStorage hreport hstage rfl (by simp) fun _ => trivial
  case finished => cases hnext

theorem Ordered.step (h : Ordered p) (hs : p.step product config e = some p') : Ordered p' := by
  by_cases he : e = .main
  · subst he
    obtain ⟨place, hnext, rfl⟩ := Option.map_eq_some_iff.mp hs
    exact h.main hnext
  · exact h.kept (Process.kept hs he)

theorem Ordered.run (h : Ordered p) {events : List ProcessEvent}
    (hrun : p.run product config events = some p') : Ordered p' :=
  Lib.Run.invariant (fun hp hstep => Ordered.step hp hstep) h hrun

/-- What a result of `main` says about the parties. -/
def Process.ExitsWith (p : Process) : Except ExitError Unit → Prop
  | .ok () => p.server = .returned (.ok ()) ∧ p.watchdog = .ended false ∧ p.worker = .ended false ∧
      p.StorageEnded none
  | .error (.ingress message) => p.server = .returned (.error message)
  | .error .watchdog => p.server = .returned (.ok ()) ∧ p.watchdog = .ended true
  | .error .maintenance => p.server = .returned (.ok ()) ∧ p.watchdog = .ended false ∧
      p.worker = .ended true
  | .error (.storage failure) => p.server = .returned (.ok ()) ∧ p.watchdog = .ended false ∧
      p.worker = .ended false ∧ p.StorageEnded (some failure)

theorem Ordered.exits (h : Ordered p) {report : Report} (hp : p.main = .finished report) :
    p.ExitsWith report.exit := by
  have hserved := h.served report (by simp [hp])
  have hwatchdog := h.watchdog (by simp [hp]) report (by simp [hp])
  have hworker := h.worker (by simp [hp]) report (by simp [hp])
  have hstorage := h.storage report hp
  obtain ⟨serve, requested, watchdogPanicked, workerPanicked, storage⟩ := report
  -- the failures in the order in which `main` looks at them
  cases serve with
  | error message => exact hserved
  | ok =>
    cases watchdogPanicked with
    | true => exact ⟨hserved, hwatchdog⟩
    | false =>
      cases workerPanicked with
      | true => exact ⟨hserved, hwatchdog, hworker⟩
      | false => cases storage <;> exact ⟨hserved, hwatchdog, hworker, hstorage⟩

end Order

section Results

variable {now : Nat} {events more : List ProcessEvent}

theorem waits_main (product : Nat → ℚ → Nat) (config : ProcessConfig) :
    Waits (Process.step product config) Process.awaits
      (fun p => ∃ result, p.server = .returned result)
      (fun p => ∃ report, p.main = .finished report) (Process.remaining config) where
  keeps := by
    rintro p e p' ⟨result, hserver⟩ hs
    by_cases he : e = .main
    · subst he
      obtain ⟨place, -, rfl⟩ := Option.map_eq_some_iff.mp hs
      exact ⟨result, hserver⟩
    · exact ⟨result, (Process.kept hs he).server result hserver⟩
  rests _ hs := (remaining_step hs).1
  falls _ hawaits hs := (remaining_step hs).2 hawaits
  moves := by
    intro p hserver hnot
    obtain ⟨e, hawaits, hsome⟩ := awaited_possible hserver hnot
    obtain ⟨p', hs⟩ := Option.isSome_iff_exists.mp hsome
    exact ⟨e, p', hawaits, hs⟩

/-- Once the server has returned, `main` comes to its end whatever the parties do, panics and
wedged storage threads included: a bounded number of awaited events is enough, and until then one
of them is possible. -/
theorem teardown_completes {result : Except String Unit} (hmain : p.main = .serving)
    (hserver : p.server = .returned result) (hmore : p.run product config more = some p') :
    awaited (Process.step product config) Process.awaits p more ≤
        config.storageShutdownTimeout + 17 ∧
      ((∃ report, p'.main = .finished report) ∨
        awaited (Process.step product config) Process.awaits p more <
            config.storageShutdownTimeout + 17 ∧
          ∃ e p'', p'.awaits e = true ∧ p'.step product config e = some p'') := by
  have hwaits := waits_main product config
  have hrank : p.remaining config = config.storageShutdownTimeout + 17 := by
    simp only [Process.remaining, hmain]
  have hle := hwaits.awaited_le ⟨result, hserver⟩ hmore
  rw [← hrank]
  exact ⟨by omega, hwaits.final_or_moves ⟨result, hserver⟩ hmore⟩

/-- A server with the watchdog on and no maintenance; the storage gets five nanoseconds. -/
def briefConfig : ProcessConfig where
  watchdog := ⟨10000, 30000, 60000, 300000, none⟩
  tickInterval := 0
  haltOnUnhealthy := true
  maintenance := ⟨none, none, none, .passive, none, none, none, 0⟩
  drainTimeout := 0
  storageShutdownTimeout := 5

/-- A signal of the system, up to the return of the server. -/
def signalledRun : List ProcessEvent :=
  [.server (.start (.ok ())), .signal .os, .signal .step, .server .signal, .server (.ends (.ok ()))]

/-- All three threads panic while `main` takes them down. -/
def panickedRun : List ProcessEvent :=
  [.main, .main, .main, .watchdog .panic, .main, .main, .worker .panic, .main, .main,
    .batcherEnds true, .main]

/-- It still comes to its end. -/
theorem teardown_completes_panicked : ∃ p p' : Process,
    (Process.new briefConfig 0).run (fun _ _ => 0) briefConfig signalledRun = some p ∧
    p.run (fun _ _ => 0) briefConfig panickedRun = some p' ∧
    awaited (Process.step (fun _ _ => 0) briefConfig) Process.awaits p panickedRun ≤ 5 + 17 ∧
    p'.main = .finished ⟨.ok (), false, true, true, some .batcherPanicked⟩ := by
  obtain ⟨p, hrun, hmain, hserver, p', hmore, hfinished⟩ :
      ∃ p, (Process.new briefConfig 0).run (fun _ _ => 0) briefConfig signalledRun = some p ∧
        p.main = .serving ∧ p.server = .returned (.ok ()) ∧
        ∃ p', p.run (fun _ _ => 0) briefConfig panickedRun = some p' ∧
          p'.main = .finished ⟨.ok (), false, true, true, some .batcherPanicked⟩ := by
    refine ⟨_, rfl, rfl, rfl, ?_⟩
    exact ⟨_, rfl, rfl⟩
  exact ⟨p, p', hrun, hmore, (teardown_completes hmain hserver hmore).1, hfinished⟩

/-- In every interleaving, `main` waits for the storage only when the server has returned and both
threads have ended, so that the batcher is the last to hold the command queue open; and the result
it returns is true of the parties. -/
theorem teardown_in_order (hrun : (Process.new config now).run product config events = some p) :
    (7 ≤ p.main.stage → (∃ result, p.server = .returned result) ∧
      (∃ panicked, p.watchdog = .ended panicked) ∧ ∃ panicked, p.worker = .ended panicked) ∧
    ∀ report, p.main = .finished report →
      p.ExitsWith report.exit ∧ (report.haltRequested = true → p.halted = true) := by
  have ho : Ordered p := (ordered_new now).run hrun
  refine ⟨fun hstage => ?_, fun report hp => ⟨ho.exits hp, ho.halt report (by simp [hp])⟩⟩
  obtain ⟨report, hreport⟩ : ∃ report, p.main.report = some report := by
    cases hp : p.main with
    | serving => simp [hp] at hstage
    | _ => exact ⟨_, rfl⟩
  exact ⟨⟨_, ho.served report hreport⟩, ⟨_, ho.watchdog (by omega) report hreport⟩,
    ⟨_, ho.worker (by omega) report hreport⟩⟩

/-- The writer fails behind a good server: `main` says so. -/
theorem teardown_in_order_failed : ∃ (p : Process) (report : Report), p.main = .finished report ∧
    report.exit = .error (.storage (.writerFailed "disk full")) ∧ p.worker = .ended false ∧
    p.writer = some (.failed "disk full") := by
  let report : Report := ⟨.ok (), false, false, false, some (.writerFailed "disk full")⟩
  obtain ⟨p, hrun, hfinished⟩ :
      ∃ p, (Process.new briefConfig 0).run (fun _ _ => 0) briefConfig (signalledRun ++
          [.main, .main, .main, .watchdog .step, .main, .main, .worker .step, .main, .main,
            .batcherEnds false, .main, .writerEnds (.failed "disk full"), .main]) = some p ∧
        p.main = .finished report :=
    ⟨_, rfl, rfl⟩
  obtain ⟨-, -, hworker, hstorage⟩ := ((teardown_in_order hrun).2 report hfinished).1
  exact ⟨p, report, hfinished, rfl, hworker, hstorage.2⟩

end Results

end OtelSqlite.Runtime
