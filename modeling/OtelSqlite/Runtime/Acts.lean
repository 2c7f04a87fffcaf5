import OtelSqlite.Pipeline.Issued
import OtelSqlite.Runtime.Evidence

/-!
# What an act of the watched pipeline can do

`Moves` says of every act what it does to the server and to the evidence beside it: a
progress mark is made at the time of the act, the batcher's gauge is right when the batcher
begins to wait, and the in-flight marker is up from where its guard is taken. So no
evidence is ever dated later than the clock (`Punctual`).
-/

namespace OtelSqlite.Runtime

open OtelSqlite.Core OtelSqlite.Core.Commit OtelSqlite.Core.Batcher
open OtelSqlite.Storage OtelSqlite.Ingress OtelSqlite.Pipeline OtelSqlite.Lib

variable {O R : Type}

theorem BatcherPoint.of_ne_receiving (phase : BatcherPhase O R) :
    BatcherPoint.of phase ≠ .receiving := by
  cases phase <;> simp [BatcherPoint.of]

/-- A server step that is not the batcher's work at the top of its loop. -/
def sparesBuffers : Pipeline.Event R → Bool
  | .receive _ _ | .timer _ | .hangUp => false
  | _ => true

theorem buffers_step [BEq O] {setup : Setup O R} {p p' : Server O R} {e : Pipeline.Event R}
    (hs : p.step setup e = some p') (he : sparesBuffers e = true) : p'.buffers = p.buffers := by
  cases step_inv hs with
  | void | push | flush | timer | hangUp => cases he
  | _ => rfl

namespace Watched

section Defs

variable [BEq O] (setup : Setup O R)

/-- What an act can do to the server. -/
inductive ServerMove (s : Watched O R) : Server O R → Prop where
  | keep : ServerMove s s.server
  | step {e : Pipeline.Event R} {p' : Server O R} (he : e.At s.now s.server)
      (hs : s.server.step setup e = some p') : ServerMove s p'
  | settle {p' : Server O R} (hs : s.stampDue.step setup .settle = some p') : ServerMove s p'
  | dropBuffers : ServerMove s { s.server with buffers := [] }
  | dropQueue : ServerMove s { s.server with writer := .leaving, queue := [] }

structure Moves (s s' : Watched O R) : Prop where
  now : s'.now = s.now
  server : ServerMove setup s s'.server
  batcher : s'.batcherStats.lastProgressMs = s.batcherStats.lastProgressMs ∨
    s'.batcherStats.lastProgressMs = s.now
  writer : s'.writerStats.lastProgressMs = s.writerStats.lastProgressMs ∨
    s'.writerStats.lastProgressMs = s.now
  observed : s'.batcherAt = .receiving →
    s'.batcherStats.bufferedRecords = s'.server.buffers.buffered ∨
      s.batcherAt = .receiving ∧ s'.server.buffers = s.server.buffers ∧
        s'.batcherStats.bufferedRecords = s.batcherStats.bufferedRecords
  flagged : s'.writerAt.inFlight = true →
    s'.writerStats.inFlight = 1 ∨
      s.writerAt.inFlight = true ∧ s'.writerStats.inFlight = s.writerStats.inFlight

end Defs

variable [BEq O] {setup : Setup O R} {s s' : Watched O R} {server : Server O R}

section

variable (h : ServerMove setup s server)
include h

/-- The evidence is not touched. -/
theorem ServerMove.aside (hb : server.buffers = s.server.buffers) :
    Moves setup s { s with server } where
  now := rfl
  server := h
  batcher := .inl rfl
  writer := .inl rfl
  observed hat := .inr ⟨hat, hb, rfl⟩
  flagged hf := .inr ⟨hf, rfl⟩

/-- The batcher goes somewhere else than to its `recv`. -/
theorem ServerMove.batcher {at' : BatcherPoint} {stats : BatcherStats} (hat : at' ≠ .receiving)
    (hmark : stats.lastProgressMs = s.batcherStats.lastProgressMs ∨
      stats.lastProgressMs = s.now) :
    Moves setup s { s with server, batcherAt := at', batcherStats := stats } where
  now := rfl
  server := h
  batcher := hmark
  writer := .inl rfl
  observed heq := absurd heq hat
  flagged hf := .inr ⟨hf, rfl⟩

theorem ServerMove.batcherMoved (marked : Bool) : Moves setup s (s.batcherMoved marked server) := by
  refine h.batcher (BatcherPoint.of_ne_receiving server.batcher) ?_
  cases marked with
  | false => exact .inl rfl
  | true => exact .inr rfl

/-- The writer moves on; while it has the guard the marker is up or stays up. -/
theorem ServerMove.writer {at' : WriterPoint} {hand : Option (WriteCommand O (Exported R))}
    {stats : WriterStats} (hb : server.buffers = s.server.buffers)
    (hmark : stats.lastProgressMs = s.writerStats.lastProgressMs ∨ stats.lastProgressMs = s.now)
    (hflag : at'.inFlight = true →
      stats.inFlight = 1 ∨ s.writerAt.inFlight = true ∧ stats.inFlight = s.writerStats.inFlight) :
    Moves setup s { s with server, writerAt := at', hand, writerStats := stats } where
  now := rfl
  server := h
  batcher := .inl rfl
  writer := hmark
  observed hat := .inr ⟨hat, hb, rfl⟩
  flagged := hflag

end

theorem moves_outside {act : OutsideAct} (hs : s.outsideStep setup act = some s') :
    Moves setup s s' := by
  obtain ⟨server, hstep, he⟩ := Option.bind_eq_some_iff.mp hs
  obtain rfl := Option.some.inj he
  refine (ServerMove.step ?_ hstep).aside (buffers_step hstep ?_)
  · cases act <;> first | rfl | trivial
  · cases act <;> rfl

theorem moves_batcherExit (hs : s.server.batcherExit.map (fun server => { s with server }) = some s') :
    Moves setup s s' := by
  obtain ⟨server, hserver, rfl⟩ := Option.map_eq_some_iff.mp hs
  have hstep : s.server.step setup .batcherExit = some server := hserver
  exact (ServerMove.step (e := .batcherExit) trivial hstep).aside (buffers_step hstep rfl)

theorem moves_hangUp (hs : s.server.hangUpStep.map (s.batcherMoved false) = some s') :
    Moves setup s s' := by
  obtain ⟨server, hserver, rfl⟩ := Option.map_eq_some_iff.mp hs
  exact ServerMove.batcherMoved (.step (e := .hangUp) trivial hserver) false

theorem moves_batcher {act : BatcherAct} (hs : s.batcherStep setup act = some s') :
    Moves setup s s' := by
  cases act <;> simp only [batcherStep] at hs
  case observe =>
    split at hs
    · obtain rfl := Option.some.inj hs
      exact ⟨rfl, .keep, .inl rfl, .inl rfl, fun _ => .inl rfl, fun hf => .inr ⟨hf, rfl⟩⟩
    · cases hs
  case receive =>
    split at hs
    · obtain ⟨server, hserver, rfl⟩ := Option.map_eq_some_iff.mp hs
      exact ServerMove.batcherMoved (.step (e := .receive _ s.now) rfl hserver) _
    · cases hs
  case timer =>
    split at hs
    · obtain ⟨-, hs⟩ := Option.ite_none_right_eq_some.mp hs
      obtain ⟨server, hserver, rfl⟩ := Option.map_eq_some_iff.mp hs
      exact ServerMove.batcherMoved (.step (e := .timer s.now) trivial hserver) _
    · cases hs
  case hangUp =>
    split at hs
    · exact moves_hangUp hs
    · exact moves_hangUp hs
    · cases hs
  case submit =>
    obtain ⟨server, hserver, rfl⟩ := Option.map_eq_some_iff.mp hs
    exact ServerMove.batcherMoved (.step (e := .submit) trivial hserver) _
  case unwind =>
    obtain ⟨hlive, hs⟩ := Option.ite_none_right_eq_some.mp hs
    obtain rfl := Option.some.inj hs
    exact ServerMove.batcher (.step (e := .unwind) trivial (if_pos hlive)) (by simp) (.inl rfl)
  case dropBuffers =>
    split at hs
    · rename_i hat
      obtain rfl := Option.some.inj hs
      exact ServerMove.batcher .dropBuffers (by simp [hat]) (.inl rfl)
    · cases hs
  case close =>
    split at hs
    · exact moves_batcherExit hs
    · obtain ⟨-, hs⟩ := Option.ite_none_right_eq_some.mp hs
      exact moves_batcherExit hs
    · cases hs
  case observeEnd =>
    split at hs
    · obtain rfl := Option.some.inj hs
      exact ServerMove.batcher .keep (by simp) (.inl rfl)
    · cases hs
  case quit =>
    split at hs <;> cases hs
    all_goals exact ServerMove.batcher .dropBuffers (by simp) (.inl rfl)
  case leave =>
    split at hs
    · exact moves_batcherExit hs
    · cases hs

/-- What the writer's stores do to its mark. -/
theorem lastProgressMs_marked (now : Nat) (stats : WriterStats) (marks : Bool) :
    (maintained (if marks then stats.markProgress now else stats)).lastProgressMs =
        stats.lastProgressMs ∨
      (maintained (if marks then stats.markProgress now else stats)).lastProgressMs = now := by
  cases marks with
  | false => exact .inl rfl
  | true => exact .inr rfl

theorem inFlight_marked (now : Nat) (stats : WriterStats) (marks : Bool) :
    (maintained (if marks then stats.markProgress now else stats)).inFlight = stats.inFlight := by
  cases marks <;> rfl

theorem moves_persist (hat : s.writerAt = .executing) {weather : Weather (Exported R)} {ran : Bool}
    (hs : s.persist weather ran = some s') : Moves setup s s' := by
  have hheld : s.writerAt.inFlight = true := by rw [hat]; rfl
  unfold Watched.persist at hs
  split at hs
  · split at hs
    · obtain rfl := Option.some.inj hs
      exact ServerMove.writer .keep rfl (.inl rfl) fun _ => .inr ⟨hheld, rfl⟩
    · obtain ⟨server, hserver, rfl⟩ := Option.map_eq_some_iff.mp hs
      have hstep : s.server.step setup (.persist weather s.now) = some server := hserver
      exact (ServerMove.step (e := .persist weather s.now) trivial hstep).writer
        (buffers_step hstep rfl) (lastProgressMs_marked s.now _ _)
        fun _ => .inr ⟨hheld, inFlight_marked s.now _ _⟩
  · cases hs

omit [BEq O] in
theorem buffers_stampDue : s.stampDue.buffers = s.server.buffers := by
  unfold stampDue
  split <;> rfl

theorem moves_settle (hat : s.writerAt = .executing) (hs : s.settle setup = some s') :
    Moves setup s s' := by
  unfold Watched.settle at hs
  split at hs
  · rename_i hw
    obtain rfl := Option.some.inj hs
    refine ServerMove.writer (.settle ?_) rfl (.inl rfl) fun _ => .inr ⟨by rw [hat]; rfl, rfl⟩
    simp only [stampDue, hw, Server.step, List.map_nil]
  · obtain ⟨server, hserver, rfl⟩ := Option.map_eq_some_iff.mp hs
    exact (ServerMove.settle hserver).aside ((buffers_step hserver rfl).trans buffers_stampDue)
  · cases hs

theorem moves_writer {act : WriterAct R} (hs : s.writerStep setup act = some s') :
    Moves setup s s' := by
  cases act <;> simp only [writerStep] at hs
  case measure | count | halt =>
    split at hs
    · obtain rfl := Option.some.inj hs
      exact ServerMove.writer .keep rfl (.inl rfl) fun hf => by cases hf
    · cases hs
  case take =>
    split at hs
    · obtain ⟨server, hserver, rfl⟩ := Option.map_eq_some_iff.mp hs
      exact (ServerMove.step (e := .take) trivial hserver).writer (buffers_step hserver rfl)
        (.inl rfl) fun hf => by cases hf
    · cases hs
  case flag =>
    split at hs
    · obtain rfl := Option.some.inj hs
      exact ServerMove.writer .keep rfl (.inl rfl) fun _ => .inl rfl
    · cases hs
  case evict =>
    split at hs
    · rename_i hat
      obtain ⟨-, hs⟩ := Option.ite_none_right_eq_some.mp hs
      obtain rfl := Option.some.inj hs
      exact ServerMove.writer .keep rfl (.inl rfl) fun _ => .inr ⟨by rw [hat]; rfl, rfl⟩
    · cases hs
  case evicted ok =>
    split at hs
    · rename_i hat
      obtain rfl := Option.some.inj hs
      exact ServerMove.writer .keep rfl (lastProgressMs_marked s.now _ ok) fun _ =>
        .inr ⟨by rw [hat]; rfl, inFlight_marked s.now _ ok⟩
    · cases hs
  case enter =>
    split at hs
    · rename_i hat
      obtain rfl := Option.some.inj hs
      refine ServerMove.writer .keep rfl (.inl ?_) fun _ => .inr ⟨by rw [hat]; rfl, ?_⟩
      · split_ifs <;> rfl
      · split_ifs <;> rfl
    · cases hs
  case persist weather ran =>
    split at hs
    · next hat => exact moves_persist hat hs
    · cases hs
  case settle =>
    split at hs
    · next hat => exact moves_settle hat hs
    · cases hs
  case clear | stop =>
    split at hs <;> cases hs
    all_goals exact ServerMove.writer .keep rfl (.inl rfl) fun hf => by cases hf
  case fault =>
    split at hs
    · rename_i hat
      obtain rfl := Option.some.inj hs
      exact ServerMove.writer .keep rfl (.inl rfl) fun _ => .inr ⟨by rw [hat]; rfl, rfl⟩
    · cases hs
  case leave =>
    split at hs
    · obtain rfl := Option.some.inj hs
      exact ServerMove.writer .dropQueue rfl (.inl rfl) fun hf => by cases hf
    · cases hs
  case exit =>
    split at hs
    · obtain ⟨server, hserver, rfl⟩ := Option.map_eq_some_iff.mp hs
      exact (ServerMove.step (e := .writerExit) trivial hserver).aside (buffers_step hserver rfl)
    · cases hs

theorem moves_act {act : Act R} (hs : s.act setup act = some s') : Moves setup s s' := by
  cases act with
  | outside act => exact moves_outside hs
  | batcher act => exact moves_batcher hs
  | writer act => exact moves_writer hs

section Punctual

/-- No evidence is dated later than the clock, and only issued tickets are settled. -/
structure Punctual (s : Watched O R) : Prop where
  batcher : s.batcherStats.lastProgressMs ≤ s.now
  writer : s.writerStats.lastProgressMs ≤ s.now
  advanced : s.server.ledger.inner.lastAdvanceMs ≤ s.now
  wellFormed : s.server.ledger.inner.WellFormed
  issued : s.server.Issued

omit [BEq O] in
theorem Punctual.settled_le (h : s.Punctual) :
    ∀ t ∈ s.server.ledger.inner.settled, t ≤ s.server.ledger.nextTicket :=
  fun t ht => h.issued.ingress.settled t ht.2

omit [BEq O] in
theorem at_stamp (now : Nat) (c : Call) : (Call.stamp now c).At now := by
  cases c <;> first | rfl | trivial

omit [BEq O] in
theorem settles_stamp (now : Nat) (c : Call) (t : Nat) :
    (Call.stamp now c).Settles t ↔ c.Settles t := by
  cases c <;> rfl

omit [BEq O] in
theorem issued_stampDue (h : s.server.Issued) : s.stampDue.Issued := by
  unfold stampDue
  split
  · rename_i calls hw
    refine Server.TicketsUpTo.settling h fun c hc t ht => ?_
    obtain ⟨c', hc', rfl⟩ := List.mem_map.mp hc
    exact h.due c' (by rw [hw]; exact hc') t ((settles_stamp s.now c' t).mp ht)
  · exact h

omit [BEq O] in
theorem at_stampDue : ∀ c ∈ s.stampDue.writer.due, c.At s.now := by
  unfold stampDue
  split
  · intro c hc
    obtain ⟨c', -, rfl⟩ := List.mem_map.mp hc
    exact at_stamp s.now c'
  · rename_i hw
    intro c hc
    cases hp : s.server.writer with
    | settling calls => exact absurd hp (hw calls)
    | _ =>
      rw [hp] at hc
      cases hc

omit [BEq O] in
theorem ledger_stampDue : s.stampDue.ledger = s.server.ledger := by
  unfold stampDue
  split <;> rfl

omit [BEq O] in
theorem punctual_new (start : Nat) : (new start : Watched O R).Punctual where
  batcher := le_rfl
  writer := le_rfl
  advanced := le_rfl
  wellFormed := wellFormed_new start
  issued := ticketsUpTo_new _ start

theorem ServerMove.issued {p' : Server O R} (hm : ServerMove setup s p') (h : s.server.Issued) :
    p'.Issued ∧ CalledAt s.now s.server.ledger p'.ledger := by
  cases hm with
  | keep => exact ⟨h, .inl rfl⟩
  | step he hs => exact issued_step h he hs
  | settle hs =>
    rw [← ledger_stampDue]
    exact issued_step (e := .settle) (issued_stampDue h) at_stampDue hs
  | dropBuffers => exact ⟨{ h with buffers := nofun }, .inl rfl⟩
  | dropQueue => exact ⟨{ h.released ⟨rfl, rfl⟩ with queue := nofun }, .inl rfl⟩

theorem Moves.punctual (hm : Moves setup s s') (h : s.Punctual) : s'.Punctual := by
  obtain ⟨hissued, hcalled⟩ := hm.server.issued h.issued
  have hadvances := hcalled.advances
  refine ⟨?_, ?_, ?_, hcalled.wellFormed h.wellFormed, hissued⟩ <;> rw [hm.now]
  · rcases hm.batcher with he | he <;> rw [he]
    exact h.batcher
  · rcases hm.writer with he | he <;> rw [he]
    exact h.writer
  · rw [hadvances.last]
    split_ifs
    · exact h.advanced
    · exact le_rfl

/-- One step, as an act at the time of the event. -/
theorem moves_step {e : Nat × Act R} (h : s.Punctual) (hs : s.step setup e = some s') :
    { s with now := e.1 }.Punctual ∧ Moves setup { s with now := e.1 } s' := by
  obtain ⟨hle, hs⟩ := Option.ite_none_right_eq_some.mp hs
  exact ⟨⟨h.batcher.trans hle, h.writer.trans hle, h.advanced.trans hle, h.wellFormed, h.issued⟩,
    moves_act hs⟩

theorem punctual_step {e : Nat × Act R} (h : s.Punctual) (hs : s.step setup e = some s') :
    s'.Punctual := by
  obtain ⟨hlater, hmoves⟩ := moves_step h hs
  exact hmoves.punctual hlater

theorem punctual_run {start : Nat} {events : List (Nat × Act R)}
    (hrun : (new start).run setup events = some s) : s.Punctual :=
  Run.invariant punctual_step (punctual_new start) hrun

end Punctual

end Watched

end OtelSqlite.Runtime
