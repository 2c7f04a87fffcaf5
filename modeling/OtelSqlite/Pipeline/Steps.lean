import OtelSqlite.Pipeline.System

/-!
# What a step of the pipeline can do

`Steps` lists, for each event, the ways a thread can take it: what it has found and what
it leaves behind. Every invariant of the pipeline goes through this list.
-/

namespace OtelSqlite.Pipeline

open OtelSqlite.Core OtelSqlite.Core.Commit OtelSqlite.Core.Batcher
open OtelSqlite.Storage OtelSqlite.Ingress

variable {O R : Type} {phase next : BatcherPhase O R} {command : WriteCommand O (Exported R)}

/-- The command the batcher sends next, and the phase it goes on in. -/
inductive Offers : BatcherPhase O R → WriteCommand O (Exported R) → BatcherPhase O R → Prop where
  | submit (batch : LogWriteBatch O (Exported R)) (out : List (LogWriteBatch O (Exported R)))
      (barrier : Bool) :
      Offers (.submitting (batch :: out) barrier) (.insertLogs batch) (.submitting out barrier)
  | barrier : Offers (.submitting [] true) .flush .waiting
  | drain (batch : LogWriteBatch O (Exported R)) (out : List (LogWriteBatch O (Exported R))) :
      Offers (.draining (batch :: out)) (.insertLogs batch) (.draining out)

theorem Offers.live (h : Offers phase command next) : phase.live = true ∧ next.live = true := by
  cases h <;> exact ⟨rfl, rfl⟩

theorem Offers.outbox (h : Offers phase command next) :
    insertsOf [command] ++ next.outbox = phase.outbox := by
  cases h <;> rfl

inductive Steps [BEq O] (setup : Setup O R) (p : Server O R) : Event R → Server O R → Prop where
  | handle {i : Nat} {handler : Handler} (hs : p.handleStep setup i = some (p.goto i handler))
      (hl : handler = .enqueueing → setup.totalRecords i ≤ setup.maxRecordsPerRequest) :
      Steps setup p (.handle i) (p.goto i handler)
  | enqueue {i now : Nat} {ingress : Admission O (Exported R)} (hh : p.handlers i = .enqueueing)
      (hs : p.ingress.requestStep setup.queue (setup.work i) i now = some ingress) :
      Steps setup p (.enqueue i now) { p with ingress }
  | control {j now : Nat} {ingress : Admission O (Exported R)}
      (hs : p.ingress.controlStep setup.queue (setup.deadline j) j now = some ingress) :
      Steps setup p (.control j now) { p with ingress }
  | publish (k : Nat) :
      Steps setup p (.publish k)
        { p with ingress := { p.ingress with shared := p.ingress.shared.step (.publish k) } }
  | void {clock : Nat → Nat} {now : Nat} {chunk : LogChunk O (Exported R)}
      {queue : List (IngestMessage O (Exported R))} (hb : p.batcher = .waiting)
      (hq : p.ingress.queue = .logs chunk :: queue) (hr : chunk.records = []) :
      Steps setup p (.receive clock now)
        (Server.call { p with ingress := { p.ingress with queue } } (.void chunk.commitSeq now))
  | push {clock : Nat → Nat} {now : Nat} {chunk : LogChunk O (Exported R)}
      {queue : List (IngestMessage O (Exported R))} {buffers : OriginBuffers O (Exported R)}
      {out : List (LogWriteBatch O (Exported R))} (hb : p.batcher = .waiting)
      (hq : p.ingress.queue = .logs chunk :: queue) (hr : chunk.records ≠ [])
      (hp : p.buffers.push setup.batching clock chunk.origin chunk.records chunk.commitSeq =
        some (buffers, out)) :
      Steps setup p (.receive clock now)
        { p with ingress := { p.ingress with queue }, buffers, batcher := .submitting out false }
  | flush {clock : Nat → Nat} {now : Nat} {queue : List (IngestMessage O (Exported R))}
      {buffers : OriginBuffers O (Exported R)} {out : List (LogWriteBatch O (Exported R))}
      (hb : p.batcher = .waiting) (hq : p.ingress.queue = .flush :: queue)
      (hf : p.buffers.flushAll = some (buffers, out)) :
      Steps setup p (.receive clock now)
        { p with ingress := { p.ingress with queue }, buffers, batcher := .submitting out true }
  | timer {now : Nat} {buffers : OriginBuffers O (Exported R)}
      {out : List (LogWriteBatch O (Exported R))} (hb : p.batcher = .waiting)
      (hf : p.buffers.flushExpired now = some (buffers, out)) :
      Steps setup p (.timer now) { p with buffers, batcher := .submitting out false }
  | hangUp {buffers : OriginBuffers O (Exported R)} {out : List (LogWriteBatch O (Exported R))}
      (hb : p.batcher = .waiting) (hf : p.buffers.flushAll = some (buffers, out)) :
      Steps setup p .hangUp { p with buffers, batcher := .draining out }
  | offer {command : WriteCommand O (Exported R)} {next : BatcherPhase O R}
      (ho : Offers p.batcher command next) (hw : p.writer.active = true)
      (hr : p.queue.length < setup.commandQueueCapacity) :
      Steps setup p .submit { p with queue := p.queue ++ [command], batcher := next }
  | refused {command : WriteCommand O (Exported R)} {next : BatcherPhase O R}
      (ho : Offers p.batcher command next) (hw : p.writer.active = false) :
      Steps setup p .submit { p with batcher := .closing }
  | submitted (hb : p.batcher = .submitting [] false) :
      Steps setup p .submit { p with batcher := .waiting }
  | drained (hb : p.batcher = .draining []) :
      Steps setup p .submit { p with batcher := .leaving }
  | unwind (hl : p.batcher.live = true) : Steps setup p .unwind { p with batcher := .unwinding }
  | close (hb : p.batcher = .closing ∨ p.batcher = .unwinding) :
      Steps setup p .batcherExit { p.call .close with batcher := .leaving }
  | leave (hb : p.batcher = .leaving) :
      Steps setup p .batcherExit
        { p with
          batcher := .gone
          ingress := { p.ingress with connected := false, queue := [] } }
  | upkeep {checkpoint : Bool} (hw : p.writer.active = true)
      (hr : p.queue.length < setup.commandQueueCapacity) :
      Steps setup p (.upkeep checkpoint)
        { p with queue := p.queue ++ [if checkpoint then .checkpoint else .maintenance] }
  | take {command : WriteCommand O (Exported R)} {queue : List (WriteCommand O (Exported R))}
      (hw : p.writer = .idle) (hq : p.queue = command :: queue) :
      Steps setup p .take { p with writer := .executing command, queue }
  | fail {weather : Weather (Exported R)} {now : Nat} {command : WriteCommand O (Exported R)}
      {failure : FailureClass} (hw : p.writer = .executing command)
      (he : execute weather now command = .error failure) :
      Steps setup p (.persist weather now) { p with writer := .leaving }
  | persist {weather : Weather (Exported R)} {now : Nat} {command : WriteCommand O (Exported R)}
      {effect : Effect (Exported R)} (hw : p.writer = .executing command)
      (he : execute weather now command = .ok effect) :
      Steps setup p (.persist weather now)
        { p with writer := .settling effect.calls, table := p.table ++ effect.inserted }
  | settle {c : Call} {calls : List Call} (hw : p.writer = .settling (c :: calls)) :
      Steps setup p .settle { p.call c with writer := .settling calls }
  | settled (hw : p.writer = .settling []) : Steps setup p .settle { p with writer := .idle }
  | stop (hw : p.writer = .idle) : Steps setup p .stop { p with writer := .leaving }
  | exit (hw : p.writer = .leaving) :
      Steps setup p .writerExit { p.call .close with writer := .gone }

variable {setup : Setup O R} {p p' : Server O R}

theorem handleStep_goto {i : Nat} (hs : p.handleStep setup i = some p') :
    ∃ handler, p' = p.goto i handler ∧
      (handler = .enqueueing → setup.totalRecords i ≤ setup.maxRecordsPerRequest) := by
  have hstart : ∀ outcome, ∃ handler, p.startFinish i outcome = p.goto i handler ∧
      (handler = .enqueueing → setup.totalRecords i ≤ setup.maxRecordsPerRequest) := by
    intro outcome
    unfold Server.startFinish
    split
    · exact ⟨_, rfl, fun he => by cases he⟩
    · exact ⟨_, rfl, fun he => by cases he⟩
  unfold Server.handleStep at hs
  split at hs
  · split_ifs at hs with hbig <;> obtain rfl := Option.some.inj hs
    · exact ⟨_, rfl, fun he => by cases he⟩
    · exact ⟨_, rfl, fun _ => Nat.le_of_not_lt hbig⟩
  · split at hs <;> cases hs
    · exact ⟨_, rfl, fun he => by cases he⟩
    · exact hstart _
    · exact hstart _
  · split_ifs at hs
    obtain rfl := Option.some.inj hs
    exact ⟨_, rfl, fun he => by cases he⟩
  · obtain rfl := Option.some.inj hs
    exact ⟨_, rfl, fun he => by cases he⟩
  · obtain rfl := Option.some.inj hs
    exact ⟨_, rfl, fun he => by cases he⟩
  · cases hs

variable [BEq O]

theorem receiveStep_inv {clock : Nat → Nat} {now : Nat}
    (hs : p.receiveStep setup clock now = some p') :
    Steps setup p (.receive clock now) p' := by
  unfold Server.receiveStep at hs
  split at hs
  · rename_i chunk queue hb hq
    dsimp only at hs
    split_ifs at hs with hr
    · obtain rfl := Option.some.inj hs
      exact .void hb hq hr
    · obtain ⟨⟨buffers, out⟩, hp, he⟩ := Option.bind_eq_some_iff.mp hs
      obtain rfl := Option.some.inj he
      exact .push hb hq hr hp
  · rename_i queue hb hq
    obtain ⟨⟨buffers, out⟩, hf, he⟩ := Option.bind_eq_some_iff.mp hs
    obtain rfl := Option.some.inj he
    exact .flush hb hq hf
  · cases hs

theorem offer_inv (ho : Offers p.batcher command next) (hs : p.offer setup command next = some p') :
    Steps setup p .submit p' := by
  unfold Server.offer at hs
  split_ifs at hs with hw hr <;> obtain rfl := Option.some.inj hs
  · exact .refused ho hw
  · exact .offer ho (Bool.eq_true_of_not_eq_false hw) hr

theorem submitStep_inv (hs : p.submitStep setup = some p') : Steps setup p .submit p' := by
  unfold Server.submitStep at hs
  split at hs
  · rename_i batch out barrier hb
    exact offer_inv (hb ▸ .submit batch out barrier) hs
  · rename_i hb
    exact offer_inv (hb ▸ .barrier) hs
  · rename_i hb
    obtain rfl := Option.some.inj hs
    exact .submitted hb
  · rename_i batch out hb
    exact offer_inv (hb ▸ .drain batch out) hs
  · rename_i hb
    obtain rfl := Option.some.inj hs
    exact .drained hb
  · cases hs

theorem persistStep_inv {weather : Weather (Exported R)} {now : Nat}
    (hs : p.persistStep weather now = some p') : Steps setup p (.persist weather now) p' := by
  unfold Server.persistStep at hs
  split at hs
  · rename_i command hw
    split at hs <;> obtain rfl := Option.some.inj hs
    · rename_i failure he
      exact .fail hw he
    · rename_i effect he
      exact .persist hw he
  · cases hs

theorem step_inv {e : Event R} (hs : p.step setup e = some p') : Steps setup p e p' := by
  cases e with
  | handle i =>
    obtain ⟨handler, rfl, hl⟩ := handleStep_goto hs
    exact .handle hs hl
  | enqueue i now =>
    simp only [Server.step] at hs
    split at hs
    · rename_i hh
      obtain ⟨ingress, hs', he⟩ := Option.bind_eq_some_iff.mp hs
      obtain rfl := Option.some.inj he
      exact .enqueue hh hs'
    · cases hs
  | control j now =>
    obtain ⟨ingress, hs', he⟩ := Option.bind_eq_some_iff.mp hs
    obtain rfl := Option.some.inj he
    exact .control hs'
  | publish k =>
    obtain rfl := Option.some.inj hs
    exact .publish k
  | receive clock now => exact receiveStep_inv hs
  | timer now =>
    simp only [Server.step, Server.timerStep] at hs
    split at hs
    · rename_i hb
      obtain ⟨⟨buffers, out⟩, hf, he⟩ := Option.bind_eq_some_iff.mp hs
      obtain rfl := Option.some.inj he
      exact .timer hb hf
    · cases hs
  | hangUp =>
    simp only [Server.step, Server.hangUpStep] at hs
    split at hs
    · rename_i hb
      obtain ⟨⟨buffers, out⟩, hf, he⟩ := Option.bind_eq_some_iff.mp hs
      obtain rfl := Option.some.inj he
      exact .hangUp hb hf
    · cases hs
  | submit => exact submitStep_inv hs
  | unwind =>
    obtain ⟨hl, hs⟩ := Option.ite_none_right_eq_some.mp hs
    obtain rfl := Option.some.inj hs
    exact .unwind hl
  | batcherExit =>
    simp only [Server.step, Server.batcherExit] at hs
    split at hs
    · rename_i hb
      obtain rfl := Option.some.inj hs
      exact .close (.inl hb)
    · rename_i hb
      obtain rfl := Option.some.inj hs
      exact .close (.inr hb)
    · rename_i hb
      obtain rfl := Option.some.inj hs
      exact .leave hb
    · cases hs
  | upkeep checkpoint =>
    obtain ⟨⟨hw, hr⟩, hs⟩ := Option.ite_none_right_eq_some.mp hs
    obtain rfl := Option.some.inj hs
    exact .upkeep hw hr
  | take =>
    simp only [Server.step] at hs
    split at hs
    · rename_i command queue hw hq
      obtain rfl := Option.some.inj hs
      exact .take hw hq
    · cases hs
  | persist weather now => exact persistStep_inv hs
  | settle =>
    simp only [Server.step] at hs
    split at hs
    · rename_i c calls hw
      obtain rfl := Option.some.inj hs
      exact .settle hw
    · rename_i hw
      obtain rfl := Option.some.inj hs
      exact .settled hw
    · cases hs
  | stop =>
    simp only [Server.step] at hs
    split at hs
    · rename_i hw
      obtain rfl := Option.some.inj hs
      exact .stop hw
    · cases hs
  | writerExit =>
    simp only [Server.step] at hs
    split at hs
    · rename_i hw
      obtain rfl := Option.some.inj hs
      exact .exit hw
    · cases hs

end OtelSqlite.Pipeline
