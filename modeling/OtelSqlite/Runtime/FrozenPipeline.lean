import OtelSqlite.Runtime.AckStall

/-!
# A frozen pipeline is reported

Two rules look for a pipeline that stands still, one where a gauge shows work and one
where none does. Whatever the gauges show, one of the two looks at evidence that has not
moved: the progress marks, or the time of the watermark's last advance. None of them is
ever dated later than the clock, so evidence that has not moved for the length of the
window is at least that old.
-/

namespace OtelSqlite.Runtime

open OtelSqlite.Core OtelSqlite.Core.Commit OtelSqlite.Core.Batcher
open OtelSqlite.Storage OtelSqlite.Ingress OtelSqlite.Pipeline OtelSqlite.Lib

variable {O R : Type}

namespace Watched

/-- No progress mark is made and no ticket is settled on the way. -/
structure Still (s s' : Watched O R) : Prop where
  batcher : s'.batcherStats.lastProgressMs = s.batcherStats.lastProgressMs
  writer : s'.writerStats.lastProgressMs = s.writerStats.lastProgressMs
  settled : ∀ t, s'.server.ledger.inner.IsSettled t → s.server.ledger.inner.IsSettled t

/-- The evidence of `s` is that of `s₀`. -/
structure Unmoved (s₀ s : Watched O R) : Prop where
  batcher : s.batcherStats.lastProgressMs = s₀.batcherStats.lastProgressMs
  writer : s.writerStats.lastProgressMs = s₀.writerStats.lastProgressMs
  advanced : s.server.ledger.inner.lastAdvanceMs = s₀.server.ledger.inner.lastAdvanceMs

section Runs

variable [BEq O] {setup : Setup O R} {s₀ s s' : Watched O R}

theorem unmoved_step {e : Nat × Act R} (h : s.Punctual) (hu : Unmoved s₀ s) (hq : Still s s')
    (hs : s.step setup e = some s') : Unmoved s₀ s' := by
  obtain ⟨-, hmoves⟩ := moves_step h hs
  obtain ⟨-, hcalled⟩ := hmoves.server.issued h.issued
  have hsettled : s'.server.ledger.inner.settled = s.server.ledger.inner.settled :=
    Set.ext fun t => and_congr_right fun _ => ⟨hq.settled t, hcalled.isSettled⟩
  refine ⟨hq.batcher.trans hu.batcher, hq.writer.trans hu.writer, ?_⟩
  have hlast := hcalled.advances.last_of_settled h.wellFormed (hcalled.wellFormed h.wellFormed)
    hsettled
  exact hlast.trans hu.advanced

/-- Every step of the run is still. -/
def StillAlong (setup : Setup O R) (s : Watched O R) (events : List (Nat × Act R)) : Prop :=
  Run.Along (step setup) (fun s e => ∀ s', s.step setup e = some s' → s.Still s') s events

theorem unmoved_run {events : List (Nat × Act R)} (h : s₀.Punctual)
    (hstill : StillAlong setup s₀ events) (hrun : s₀.run setup events = some s) :
    s.Punctual ∧ Unmoved s₀ s :=
  Run.invariant_along (P := fun s => s.Punctual ∧ Unmoved s₀ s)
    (fun ⟨hp, hu⟩ hq hs => ⟨punctual_step hp hs, unmoved_step hp hu (hq _ hs) hs⟩)
    ⟨h, rfl, rfl, rfl⟩ hstill hrun

end Runs

/-- The evidence with other gauges than those the two threads have stored. -/
def healthWith (setup : Setup O R) (s : Watched O R)
    (queueDepth inFlight bufferedRecords : Nat) : StorageHealth :=
  { s.health setup with
    writer := { s.writerStats with queueDepth, inFlight }
    batcher := { s.batcherStats with bufferedRecords } }

end Watched

/-- **A frozen pipeline with an open ticket is unhealthy**, whatever its gauges show. If
they show work the stall rule finds the progress marks too old, if not the durability
rule finds the watermark too old. -/
theorem frozen_pipeline_unhealthy [BEq O] (product : Nat → ℚ → Nat) (watch : WatchdogConfig)
    (setup : Setup O R) (start t : Nat) (before during : List (Nat × Act R))
    (s₀ s : Watched O R) (hbefore : (Watched.new start).run setup before = some s₀)
    (hduring : s₀.run setup during = some s)
    (hwindow : s₀.now + max watch.unhealthyAfter watch.ackStallAfter ≤ t)
    (hstill : s₀.StillAlong setup during) (ticket : Nat) (hopen : s.Outstanding ticket)
    (hwriter : s.writerStats.running = true) (hbatcher : s.batcherStats.running = true)
    (hmaintenance : s.writerStats.maintenanceInProgress = false)
    (queueDepth inFlight bufferedRecords : Nat) :
    (evaluate product watch
      ((s.healthWith setup queueDepth inFlight bufferedRecords).sample t)).state = .unhealthy := by
  have hstart := Watched.punctual_run hbefore
  obtain ⟨hpunctual, hunmoved⟩ := Watched.unmoved_run hstart hstill hduring
  set sample := (s.healthWith setup queueDepth inFlight bufferedRecords).sample t
  rcases Nat.eq_zero_or_pos sample.pendingWork with hnone | hwork
  · have htickets : 0 < sample.outstandingTickets :=
      (outstandingTickets_pos_iff hpunctual.wellFormed hpunctual.settled_le).mpr ⟨ticket, hopen⟩
    have hidle : watch.ackStallAfter ≤ sample.watermarkIdleMs := by
      show _ ≤ t - s.server.ledger.inner.lastAdvanceMs
      have hadvanced := hstart.advanced
      rw [hunmoved.advanced]
      omega
    obtain ⟨tickets, idle, hverdict⟩ := (evaluate_ackStall_iff product watch sample).mpr
      ⟨hwriter, hbatcher, hmaintenance, htickets, hnone, hidle⟩
    rw [hverdict]
  · have hidle : watch.unhealthyAfter ≤ sample.writerIdleMs := by
      show _ ≤ t - s.writerStats.lastProgressMs
      have hmark := hstart.writer
      rw [hunmoved.writer]
      omega
    obtain ⟨pending, writerIdle, batcherIdle, hverdict⟩ :=
      (evaluate_stalled_iff product watch sample).mpr
        ⟨hwriter, hbatcher, hmaintenance, hwork, .inl hidle⟩
    rw [hverdict]

section Arrival

theorem still_handle [BEq O] {setup : Setup O R} {s s' : Watched O R} {t i : Nat}
    (hs : s.step setup (t, .outside (.handle i)) = some s') : s.Still s' := by
  obtain ⟨-, hs⟩ := Option.ite_none_right_eq_some.mp hs
  obtain ⟨server, hstep, he⟩ := Option.bind_eq_some_iff.mp hs
  obtain rfl := Option.some.inj he
  obtain ⟨handler, rfl, -⟩ := handleStep_goto hstep
  exact ⟨rfl, rfl, fun _ => id⟩

/-- Nobody takes up the first request; meanwhile a second one arrives. -/
def secondArrival : List (Nat × Act Nat) := [(70000, .outside (.handle 1))]

def notTakenUp : Watched Nat Nat :=
  (arrived.run singleRequest secondArrival).get (by decide +kernel)

/-- Two minutes after its admission the first request is reported, with gauges that show
no work as with others. -/
theorem frozen_pipeline_unhealthy_arrival :
    notTakenUp.Outstanding 1 ∧
      (evaluate exactProduct defaultWatch
        ((notTakenUp.healthWith singleRequest 0 0 0).sample 180000)).state = .unhealthy ∧
      (evaluate exactProduct defaultWatch
        ((notTakenUp.healthWith singleRequest 3 1 40).sample 180000)).state = .unhealthy := by
  have hopen : notTakenUp.Outstanding 1 := ⟨le_rfl, by decide +kernel, by decide +kernel⟩
  have hstill : arrived.StillAlong singleRequest secondArrival := by
    unfold Watched.StillAlong secondArrival Run.Along
    split
    · exact ⟨fun _ hs => still_handle hs, trivial⟩
    · trivial
  have hverdict := frozen_pipeline_unhealthy exactProduct defaultWatch singleRequest 0 180000
    firstArrival secondArrival arrived notTakenUp (Option.some_get _).symm (Option.some_get _).symm
    (by decide +kernel) hstill 1 hopen (by decide +kernel) (by decide +kernel) (by decide +kernel)
  exact ⟨hopen, hverdict 0 0 0, hverdict 3 1 40⟩

end Arrival

end OtelSqlite.Runtime
