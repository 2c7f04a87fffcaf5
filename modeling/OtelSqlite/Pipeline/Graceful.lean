import OtelSqlite.Pipeline.Accounts
import OtelSqlite.Pipeline.Drain

/-!
# A graceful drain leaves nothing behind

If neither thread fails on the way, every accepted record stays in a queue, in a buffer or in
a thread's hands until it is executed. When both threads have returned all of them are, every
ticket that was sent is settled, and the ledger says of each how many of its records are in
the table.
-/

namespace OtelSqlite.Pipeline

open OtelSqlite.Core OtelSqlite.Core.Commit OtelSqlite.Core.Batcher
open OtelSqlite.Storage OtelSqlite.Ingress OtelSqlite.Lib.Run

variable {O R : Type} {e : Event R} {phase : BatcherPhase O R}
  {command : WriteCommand O (Exported R)}

/-- What SQLite answers does not stop the writer. -/
def Server.survives (p : Server O R) (weather : Weather (Exported R)) (now : Nat) : Bool :=
  match p.writer with
  | .executing command => (execute weather now command).toBool
  | _ => true

/-- A drain in which neither thread fails. -/
def Graceful (p : Server O R) : Event R → Prop
  | .unwind => False
  | .persist weather now => p.survives weather now = true
  | e => Drains p e

/-- Nothing panics, and no command fails. -/
def Server.gentle (p : Server O R) : Event R → Bool
  | .unwind => false
  | .persist weather now => p.survives weather now
  | _ => true

theorem graceful_iff {p : Server O R} : Graceful p e ↔ Drains p e ∧ p.gentle e = true := by
  cases e <;> simp [Graceful, Drains, Server.gentle]

instance (p : Server O R) (e : Event R) : Decidable (Graceful p e) :=
  decidable_of_iff (Drains p e ∧ p.gentle e = true) graceful_iff.symm

theorem Graceful.drains {p : Server O R} (h : Graceful p e) : Drains p e :=
  (graceful_iff.mp h).1

/-- The batcher is in its loop. -/
def BatcherPhase.looping : BatcherPhase O R → Bool
  | .waiting | .submitting _ _ => true
  | _ => false

/-- Both loops run. -/
def Server.Serving (p : Server O R) : Prop := p.batcher.looping = true ∧ p.writer.active = true

instance (p : Server O R) : Decidable p.Serving := inferInstanceAs (Decidable (_ ∧ _))

/-- Nothing is in the buffers any more. -/
def BatcherPhase.flushed : BatcherPhase O R → Bool
  | .draining _ | .leaving | .gone => true
  | _ => false

theorem BatcherPhase.live_of_looping (h : phase.looping = true) :
    phase.live = true ∧ phase.flushed = false := by
  revert h
  cases phase <;> simp [looping, live, flushed]

theorem Offers.flushed_eq {next : BatcherPhase O R} (h : Offers phase command next) :
    next.flushed = phase.flushed := by
  cases h <;> rfl

variable [BEq O] {setup : Setup O R} {p p' : Server O R}
  {received : List (LogChunk O (Exported R))} {ops : List (Op O (Exported R))}
  {emitted : List (LogWriteBatch O (Exported R))} {done : List (Done O (Exported R))}
  {rest : List (LogWriteBatch O (Exported R))}

/-- Every accepted record is in a queue, in a buffer, in a thread's hands or executed. -/
structure Intact (setup : Setup O R) (p : Server O R)
    (received : List (LogChunk O (Exported R))) (ops : List (Op O (Exported R)))
    (emitted : List (LogWriteBatch O (Exported R))) (done : List (Done O (Exported R)))
    (rest : List (LogWriteBatch O (Exported R))) : Prop where
  inv : Inv setup p received ops emitted done rest
  orderly : p.batcher.live = true ∨ p.batcher.flushed = true
  held : p.writer.active = true → rest = p.writer.inHand ++ insertsOf p.queue ++ p.batcher.outbox
  finished : p.writer.active = false → p.batcher = .gone ∧ rest = []
  flushed : p.batcher.flushed = true →
    p.buffers = [] ∧ received = chunksSent p.ingress.sent

/-- Nothing that was accepted has been left behind. -/
def Server.Whole (setup : Setup O R) (p : Server O R) : Prop :=
  ∃ received ops emitted done rest, Intact setup p received ops emitted done rest

theorem Intact.whole (h : Intact setup p received ops emitted done rest) : p.Whole setup :=
  ⟨_, _, _, _, _, h⟩

/-- The four conditions while the writer runs. -/
theorem Intact.running (hinv : Inv setup p received ops emitted done rest)
    (horderly : p.batcher.live = true ∨ p.batcher.flushed = true) (hw : p.writer.active = true)
    (hheld : rest = p.writer.inHand ++ insertsOf p.queue ++ p.batcher.outbox)
    (hflushed : p.batcher.flushed = true →
      p.buffers = [] ∧ received = chunksSent p.ingress.sent) :
    Intact setup p received ops emitted done rest := by
  refine ⟨hinv, horderly, fun _ => hheld, fun hgone => ?_, hflushed⟩
  rw [hw] at hgone
  cases hgone

theorem Server.Serving.intact (hs : p.Serving) (h : Inv setup p received ops emitted done rest) :
    Intact setup p received ops emitted done rest := by
  obtain ⟨hbatcher, hwriter⟩ := hs
  obtain ⟨hlive, hunflushed⟩ := BatcherPhase.live_of_looping hbatcher
  refine .running h (Or.inl hlive) hwriter ?_ fun hf => ?_
  · obtain ⟨lost, hrest, hlost⟩ := h.rest_eq hwriter
    rw [hrest, hlost hlive, List.append_nil]
  · rw [hunflushed] at hf
    cases hf

section Step

variable (h : Intact setup p received ops emitted done rest)
include h

/-- The batcher cannot find the writer gone. -/
theorem Intact.active (hl : p.batcher ≠ .gone) : p.writer.active = true := by
  by_contra hw
  exact hl (h.finished (Bool.eq_false_iff.mpr hw)).1

theorem Intact.batcher_waiting (hb : p.batcher = .waiting) : p.writer.active = true ∧
      rest = p.writer.inHand ++ insertsOf p.queue := by
  have hw := h.active (by rw [hb]; simp)
  refine ⟨hw, ?_⟩
  have hrest := h.held hw
  rw [hb] at hrest
  exact hrest.trans (List.append_nil _)

/-- A message or the end of the input: `out` is to be submitted. -/
theorem Intact.emit (hb : p.batcher = .waiting) (phase : BatcherPhase O R)
    {received' : List (LogChunk O (Exported R))} {ops' : List (Op O (Exported R))}
    {buffers : OriginBuffers O (Exported R)} {queue : List (IngestMessage O (Exported R))}
    (hinv : Inv setup { p with ingress := { p.ingress with queue }, buffers, batcher := phase }
      received' ops' (emitted ++ phase.outbox) done (rest ++ phase.outbox))
    (hlive : phase.live = true)
    (hflushed : phase.flushed = true → buffers = [] ∧ received' = chunksSent p.ingress.sent) :
    Intact setup { p with ingress := { p.ingress with queue }, buffers, batcher := phase }
      received' ops' (emitted ++ phase.outbox) done (rest ++ phase.outbox) := by
  obtain ⟨hw, hrest⟩ := h.batcher_waiting hb
  refine .running hinv (Or.inl hlive) hw ?_ hflushed
  rw [hrest]

/-- Behind the last message everything sent has been received. -/
theorem Intact.received_eq (hb : p.batcher = .waiting) (hq : p.ingress.queue = []) :
    received = chunksSent p.ingress.sent := by
  have hcon : p.ingress.connected = true := h.inv.connected (by rw [hb]; rfl)
  obtain ⟨unread, hsent, hunread⟩ := h.inv.sent_eq
  rw [hsent, hunread hcon, hq]
  exact (List.append_nil _).symm

/-- The writer moves on, with the batches it leaves as they are. -/
theorem Intact.writer (hinv : Inv setup p' received ops emitted done rest)
    (hactive : p'.writer.active = true) (hbatcher : p'.batcher = p.batcher)
    (hbuffers : p'.buffers = p.buffers) (hsent : p'.ingress.sent = p.ingress.sent)
    (hheld : rest = p'.writer.inHand ++ insertsOf p'.queue ++ p.batcher.outbox) :
    Intact setup p' received ops emitted done rest := by
  refine .running hinv (by rw [hbatcher]; exact h.orderly) hactive ?_ fun hf => ?_
  · rw [hbatcher]
    exact hheld
  · rw [hbuffers, hsent]
    exact h.flushed (hbatcher ▸ hf)

/-- The writer leaves its loop: the queue is empty and nobody fills it. -/
theorem Intact.writer_leaves (hinv : Inv setup p' received ops emitted done rest)
    (hgone : p.batcher = .gone) (hrest : rest = []) (hactive : p'.writer.active = false)
    (hbatcher : p'.batcher = p.batcher) (hbuffers : p'.buffers = p.buffers)
    (hsent : p'.ingress.sent = p.ingress.sent) :
    Intact setup p' received ops emitted done rest := by
  refine ⟨hinv, by rw [hbatcher]; exact h.orderly, fun hw => ?_, fun _ => ?_, fun hf => ?_⟩
  · rw [hactive] at hw
    cases hw
  · exact ⟨hbatcher.trans hgone, hrest⟩
  · rw [hbuffers, hsent]
    exact h.flushed (hbatcher ▸ hf)

/-- A command is executed; a batch was the next one. -/
theorem Intact.execute {weather : Weather (Exported R)} {now : Nat} {effect : Effect (Exported R)}
    (hw : p.writer = .executing command) (he : execute weather now command = .ok effect) :
    Server.Whole setup
      { p with writer := .settling effect.calls, table := p.table ++ effect.inserted } := by
  have hrest := h.held (by rw [hw]; rfl)
  obtain ⟨rest', hinv, hhand⟩ | ⟨x, rest', hx, hinv⟩ := h.inv.execute hw he
  · obtain rfl : rest' = rest :=
      List.append_cancel_left (hinv.emitted_eq.symm.trans h.inv.emitted_eq)
    refine (Intact.running hinv h.orderly rfl ?_ h.flushed).whole
    rw [hrest, hhand]
    rfl
  · have heq := hinv.emitted_eq.symm.trans h.inv.emitted_eq
    rw [batchesOf, List.map_append, List.append_assoc] at heq
    have hsplit := (List.append_cancel_left heq).trans hrest
    rw [hx] at hsplit
    exact (Intact.running hinv h.orderly rfl (List.cons.inj hsplit).2 h.flushed).whole

/-- **A graceful step leaves nothing behind.** -/
theorem intact_step (he : Graceful p e) (hs : p.step setup e = some p') : p'.Whole setup := by
  cases step_inv hs with
  | handle | enqueue | control | publish | timer | upkeep | unwind => exact he.elim
  | void hb hq hr => exact absurd hr (h.inv.received_nonempty hb hq)
  | @push _ _ chunk queue buffers out hb hq hr hp =>
    refine (h.emit hb (.submitting out false) (h.inv.emit hb (.submitting out false) rfl
      (h.inv.flow.push hr hp) ?_ ?_) rfl (fun hf => by cases hf)).whole
    · rw [hq]
      simp [chunksOf]
    · rw [hq]
      exact Nat.le_succ _
  | @flush _ _ queue buffers out hb hq hf =>
    refine (h.emit hb (.submitting out true) (h.inv.emit hb (.submitting out true) rfl
      (h.inv.flow.flush .flushAll rfl hf) ?_ ?_) rfl (fun hf => by cases hf)).whole
    · rw [hq]
      rfl
    · rw [hq]
      exact Nat.le_succ _
  | @hangUp buffers out hb hf =>
    have hnil : buffers = [] := by
      obtain ⟨out', hf'⟩ := flushAll_nil h.inv.flow.active
      exact (Prod.mk.inj (Option.some.inj (hf.symm.trans hf'))).1
    exact (h.emit hb (.draining out) (h.inv.emit hb (.draining out) rfl
      (h.inv.flow.flush .flushAll rfl hf) rfl le_rfl) rfl fun _ =>
        ⟨hnil, h.received_eq hb he⟩).whole
  | @offer command next ho hw hr =>
    refine (Intact.running (h.inv.offer ho) (Or.inl ho.live.2) hw ?_ fun hf => ?_).whole
    · rw [h.held hw, ← ho.outbox, insertsOf_append]
      simp
    · exact h.flushed (ho.flushed_eq.symm.trans hf)
  | refused ho hw =>
    have hgone := (h.finished hw).1
    have hlive := ho.live.1
    rw [hgone] at hlive
    cases hlive
  | submitted hb =>
    have hinv := h.inv.advance .waiting (fun _ => by rw [hb]; rfl) (fun _ => by rw [hb]; rfl)
      fun hc => by cases hc
    have hw := h.active (by rw [hb]; simp)
    refine (Intact.running hinv (Or.inl rfl) hw ?_ fun hf => by cases hf).whole
    rw [h.held hw, hb]
    rfl
  | drained hb =>
    have hinv := h.inv.halt .leaving rfl fun hc => by cases hc
    have hw := h.active (by rw [hb]; simp)
    refine (Intact.running hinv (Or.inr rfl) hw ?_ fun _ => h.flushed (by rw [hb]; rfl)).whole
    rw [h.held hw, hb]
    rfl
  | close hb =>
    rcases h.orderly with ho | ho <;> rcases hb with hb | hb <;> rw [hb] at ho <;> cases ho
  | leave hb =>
    have hw := h.active (by rw [hb]; simp)
    refine (Intact.running h.inv.leave (Or.inr rfl) hw ?_
      fun _ => h.flushed (by rw [hb]; rfl)).whole
    rw [h.held hw, hb]
    rfl
  | @take command queue hw hq =>
    have hin : (WriterPhase.executing command).inHand ++ insertsOf queue =
        p.writer.inHand ++ insertsOf p.queue := by
      rw [hw, hq]
      cases command <;> rfl
    have hinv := h.inv.writer_step (.executing command) queue (fun _ => by rw [hw]; rfl)
      (fun _ => hin) (by rw [hw]; rfl)
    refine (h.writer hinv rfl rfl rfl rfl ?_).whole
    rw [h.held (by rw [hw]; rfl), ← hin]
  | fail hw hf =>
    simp only [Graceful, Server.survives, hw, hf] at he
    cases he
  | persist hw hok => exact h.execute hw hok
  | settle hw =>
    refine (h.writer (h.inv.settle hw) rfl rfl rfl rfl ?_).whole
    rw [h.held (by rw [hw]; rfl), hw]
    rfl
  | settled hw =>
    have hinv := h.inv.writer_step .idle p.queue (fun _ => by rw [hw]; rfl)
      (fun _ => by rw [hw]; rfl) (by rw [hw]; rfl)
    refine (h.writer hinv rfl rfl rfl rfl ?_).whole
    rw [h.held (by rw [hw]; rfl), hw]
    rfl
  | stop hw =>
    obtain ⟨hq, hgone⟩ := he
    have hinv := h.inv.writer_step .leaving p.queue (fun hl => by cases hl) (fun hl => by cases hl)
      (by rw [hw]; rfl)
    refine (h.writer_leaves hinv hgone ?_ rfl rfl rfl rfl).whole
    rw [h.held (by rw [hw]; rfl), hw, hq, hgone]
    rfl
  | exit hw =>
    obtain ⟨hgone, hrest⟩ := h.finished (by rw [hw]; rfl)
    have hinv := h.inv.close.writer_step .gone p.queue (fun hl => by cases hl)
      (fun hl => by cases hl) (by rw [Server.call, hw]; rfl)
    exact (h.writer_leaves hinv hgone hrest rfl rfl rfl rfl).whole

end Step

section Result

variable {c : LogChunk O (Exported R)}

/-- What the ledger counts as durable of a chunk. -/
def durableRecords (p : Server O R) (chunk : LogChunk O (Exported R)) : Nat :=
  match p.ledger.state chunk.commitSeq with
  | .completed => chunk.records.length
  | .failed progress => progress.committed
  | .unsettled progress => progress.committed

/-- The ticket of the chunk is settled, and each of its records was committed or quarantined. -/
def Accounted (p : Server O R) (chunk : LogChunk O (Exported R)) : Prop :=
  p.ledger.state chunk.commitSeq = .completed ∨
    ∃ committed dropped, p.ledger.state chunk.commitSeq = .failed ⟨committed, dropped⟩ ∧
      0 < dropped ∧ committed + dropped = chunk.records.length

/-- All that was sent has been executed. -/
theorem Intact.tally (h : Intact setup p received ops emitted done rest) (hend : p.Ended)
    (hc : c ∈ chunksSent p.ingress.sent) :
    (tally c.commitSeq (judgedAll done)).1 + (tally c.commitSeq (judgedAll done)).2 =
        c.records.length ∧
      p.ledger.state c.commitSeq =
        if 0 < (tally c.commitSeq (judgedAll done)).2 then
          .failed ⟨(tally c.commitSeq (judgedAll done)).1, (tally c.commitSeq (judgedAll done)).2⟩
        else .completed := by
  obtain ⟨hbatcher, hwriter⟩ := hend
  obtain ⟨-, hrest⟩ := h.finished (by rw [hwriter]; rfl)
  obtain ⟨hbuffers, hreceived⟩ := h.flushed (by rw [hbatcher]; rfl)
  have hb := h.inv.booked
  have hne := hb.nonempty hc
  have hf := h.inv.flow.follows h.inv.nodup (hreceived ▸ hc) hne
  rw [h.inv.emitted_eq, hrest, List.append_nil, hbuffers] at hf
  rw [hb.state_eq hc (Or.inr (by rw [hwriter]; rfl))]
  have hsum := hf.tally_add
  rcases expectedState_cases hf hb.labelled hne with ⟨hall, hstate⟩ | ⟨hlt, -⟩
  · exact ⟨hall, hstate⟩
  · rw [show bufferRows (byTicket c.commitSeq) ([] : OriginBuffers O (Exported R)) = [] from rfl,
      List.length_nil] at hsum
    omega

theorem Intact.accounted (h : Intact setup p received ops emitted done rest) (hend : p.Ended)
    (hc : c ∈ chunksSent p.ingress.sent) :
    Accounted p c ∧ (keptOf done c.commitSeq).length = durableRecords p c := by
  obtain ⟨hall, hstate⟩ := h.tally hend hc
  rw [length_keptOf]
  unfold Accounted durableRecords
  split_ifs at hstate with hdropped
  · rw [hstate]
    exact ⟨Or.inr ⟨_, _, rfl, hdropped, hall⟩, rfl⟩
  · rw [hstate]
    refine ⟨Or.inl rfl, ?_⟩
    show _ = c.records.length
    omega

/-- The drain sends nothing. -/
theorem sent_graceful (he : Graceful p e) (hs : p.step setup e = some p') :
    p'.ingress.sent = p.ingress.sent := by
  refine (aside_step ?_ hs).sent
  have hd := he.drains
  cases e <;> first | rfl | exact hd.elim

theorem graceful_run {events : List (Event R)} (h : Intact setup p received ops emitted done rest)
    (halong : Along (Server.step setup) Graceful p events)
    (hrun : p.run setup events = some p') :
    p'.ingress.sent = p.ingress.sent ∧ p'.Whole setup :=
  invariant_along (P := fun q => q.ingress.sent = p.ingress.sent ∧ q.Whole setup)
    (by
      rintro q e q' ⟨hsent, received, ops, emitted, done, rest, hq⟩ he hs
      exact ⟨(sent_graceful he hs).trans hsent, intact_step hq he hs⟩)
    ⟨rfl, h.whole⟩ halong hrun

/-- **A graceful shutdown loses nothing.** When both threads have returned, every ticket that
was sent is settled, each of its records was committed or quarantined, and exactly as many records
of each request were committed as the ledger counts as durable. -/
theorem graceful_shutdown_loses_nothing (setup : Setup O R) (start : Nat)
    (events drain : List (Event R)) (p p' : Server O R)
    (hrun : (Server.new start).run setup events = some p) (hserving : p.Serving)
    (hdrain : p.run setup drain = some p')
    (hgraceful : Along (Server.step setup) Graceful p drain) (hend : p'.Ended) :
    p'.ledger.inner.closed = true ∧
      (∀ c ∈ chunksSent p.ingress.sent, Accounted p' c) ∧
      ∀ i, (p'.committedOf i).length =
          ((sentBy p.ingress.sent i).map (durableRecords p')).sum ∧
        ((∀ c ∈ sentBy p.ingress.sent i, p'.ledger.state c.commitSeq = .completed) →
          (p'.committedOf i).Perm ((sentBy p.ingress.sent i).flatMap LogChunk.records)) := by
  have hdrainable := drainable_run (drainable_new setup start) hrun
  obtain ⟨done₀, received₀, ops₀, emitted₀, rest₀, hinv⟩ := hdrainable.booked
  obtain ⟨hsent, received, ops, emitted, done, rest, h⟩ :=
    graceful_run (hserving.intact hinv) hgraceful hdrain
  have hb := h.inv.booked
  rw [← hsent]
  refine ⟨(drainable_run hdrainable hdrain).closed hend.2, fun c hc => (h.accounted hend hc).1,
    fun i => ⟨?_, fun hcompleted => ?_⟩⟩
  · rw [hb.length_committedOf]
    refine congrArg List.sum (List.map_congr_left fun c hc => ?_)
    exact (h.accounted hend (mem_chunksSent.mpr ⟨i, hc⟩)).2
  · refine (hb.committedOf_perm i).trans (List.Perm.of_eq (List.flatMap_congr fun c hc => ?_))
    have hm := mem_chunksSent.mpr ⟨i, hc⟩
    refine (hb.keptOf_sublist hm).eq_of_length ?_
    rw [(h.accounted hend hm).2, durableRecords, hcompleted c hc]

/-- The rest of the two requests is received, flushed and written; record 5 is poisoned. -/
def twoDrained : List (Event Nat) :=
  [[.submit, .take, .submit, .receive id 0, .submit, .persist (refusing [5]) 1, .submit, .hangUp],
    [.settle, .settle, .submit, .submit, .batcherExit],
    [.take, .persist (refusing [5]) 2, .settle, .settle, .settle, .settle],
    [.take, .persist (refusing [5]) 3, .settle, .settle, .settle],
    [.stop, .writerExit]].flatten

/-- The poisoned record is the one that was not committed. -/
theorem graceful_shutdown_loses_nothing_two :
    ∃ p p' : Server Nat Nat, (Server.new 0).run twoRequests twoAccepted = some p ∧
      p.run twoRequests twoDrained = some p' ∧ p'.ledger.inner.closed = true ∧
      p'.table.map Exported.payload = [1, 2, 3, 4] ∧
      p'.ledger.state 2 = .failed ⟨1, 1⟩ ∧
      (p'.committedOf 0).Perm ((sentBy p.ingress.sent 0).flatMap LogChunk.records) := by
  have h := graceful_shutdown_loses_nothing twoRequests 0 twoAccepted twoDrained
    (((Server.new 0).run twoRequests twoAccepted).get (by decide +kernel))
    ((Server.run twoRequests (((Server.new 0).run twoRequests twoAccepted).get (by decide +kernel))
      twoDrained).get (by decide +kernel))
    (Option.some_get _).symm
    (by decide +kernel) (Option.some_get _).symm (by decide +kernel) (by decide +kernel)
  exact ⟨_, _, (Option.some_get _).symm, (Option.some_get _).symm, h.1, by decide +kernel,
    by decide +kernel, (h.2.2 0).2 (by decide +kernel)⟩

end Result

end OtelSqlite.Pipeline
