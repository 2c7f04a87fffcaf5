import OtelSqlite.Pipeline.WriterSteps

/-!
# A quiet pipeline stays quiet, and a closed ledger means quiet

The pipeline is quiet when nothing can commit any more and the ledger knows of all
that did. The writer closes the ledger after it has left its loop, the batcher after
it has found the writer gone. An unwinding batcher closes it whatever the writer
still has to do: that close is quiet only if it happens to find the pipeline so.
-/

namespace OtelSqlite.Pipeline

open OtelSqlite.Core OtelSqlite.Core.Commit OtelSqlite.Core.Batcher
open OtelSqlite.Storage OtelSqlite.Ingress

variable {O R : Type}

/-- Nothing can commit any more, and no ledger call is due. -/
def Server.Quiet (p : Server O R) : Prop :=
  p.writer.active = false ∨
    p.batcher.live = false ∧ p.writer.inHand = [] ∧ insertsOf p.queue = [] ∧ p.writer.due = []

instance (p : Server O R) : Decidable p.Quiet := inferInstanceAs (Decidable (_ ∨ _))

/-- If the event is the close by the drop guard of an unwinding batcher, it finds the
pipeline quiet. -/
def GuardQuiet (p : Server O R) (e : Event R) : Prop :=
  match e, p.batcher with
  | .batcherExit, .unwinding => p.Quiet
  | _, _ => True

instance (p : Server O R) (e : Event R) : Decidable (GuardQuiet p e) := by
  unfold GuardQuiet
  split <;> infer_instance

section Facts

variable {p p' : Server O R}

variable (h : p.Quiet)
include h

theorem Server.Quiet.due : p.writer.due = [] := by
  rcases h with hw | ⟨-, -, -, hd⟩
  · revert hw
    cases p.writer <;> intro hw <;> first | rfl | cases hw
  · exact hd

theorem Server.Quiet.no_insert (batch : LogWriteBatch O (Exported R)) :
    p.writer ≠ .executing (.insertLogs batch) := by
  intro he
  rcases h with hw | ⟨-, hh, -⟩
  · rw [he] at hw
    cases hw
  · rw [he] at hh
    cases hh

/-- While the batcher runs, a quiet pipeline is one without a writer. -/
theorem Server.Quiet.writer_gone (hl : p.batcher.live = true) : p.writer.active = false := by
  rcases h with hw | ⟨hb, -⟩
  · exact hw
  · rw [hl] at hb
    cases hb

/-- A step of the batcher that is not its death. -/
theorem Server.Quiet.batcher_step (hl : p.batcher.live = true) (hw : p'.writer = p.writer) :
    p'.Quiet :=
  Or.inl (by rw [hw]; exact h.writer_gone hl)

/-- The batcher dies or goes on dying. -/
theorem Server.Quiet.batcher_dead (hb : p'.batcher.live = false) (hw : p'.writer = p.writer)
    (hq : p'.queue = p.queue) : p'.Quiet := by
  rcases h with hgone | ⟨-, hh, hi, hd⟩
  · exact Or.inl (by rw [hw]; exact hgone)
  · exact Or.inr ⟨hb, by rw [hw]; exact hh, by rw [hq]; exact hi, by rw [hw]; exact hd⟩

/-- The writer moves on without a batch. -/
theorem Server.Quiet.writer_step (hb : p'.batcher = p.batcher) (hact : p.writer.active = true)
    (hin : p'.writer.inHand ++ insertsOf p'.queue = p.writer.inHand ++ insertsOf p.queue)
    (hd : p'.writer.due = []) : p'.Quiet := by
  rcases h with hgone | ⟨hl, hh, hi, -⟩
  · rw [hact] at hgone
    cases hgone
  · rw [hh, hi, List.append_nil, List.append_eq_nil_iff] at hin
    exact Or.inr ⟨by rw [hb]; exact hl, hin.1, hin.2, hd⟩

/-- A command that is executed has nothing to insert. -/
theorem Server.Quiet.executed {weather : Weather (Exported R)} {now : Nat}
    {command : WriteCommand O (Exported R)} {effect : Effect (Exported R)}
    (hw : p.writer = .executing command) (he : execute weather now command = .ok effect) :
    { p with writer := .settling effect.calls, table := p.table ++ effect.inserted }.Quiet := by
  have hc : ∀ batch, command ≠ .insertLogs batch := fun batch hb =>
    h.no_insert batch (by rw [hw, hb])
  obtain rfl := execute_other hc he
  have hhand : p.writer.inHand = [] := by
    rw [hw]
    cases command <;> first | rfl | exact absurd rfl (hc _)
  exact h.writer_step rfl (by rw [hw]; rfl) (by rw [hhand]; rfl) rfl

end Facts

section Step

variable [BEq O] {setup : Setup O R} {p p' : Server O R} {e : Event R}

theorem quiet_step (h : p.Quiet) (hs : p.step setup e = some p') : p'.Quiet := by
  cases step_inv hs with
  | handle | enqueue | control | publish => exact h
  | void hb | push hb | flush hb | timer hb | hangUp hb | submitted hb =>
    exact h.batcher_step (by rw [hb]; rfl) rfl
  | offer ho hw hr =>
    have hgone := h.writer_gone ho.live.1
    rw [hw] at hgone
    cases hgone
  | refused | drained | unwind | close | leave => exact h.batcher_dead rfl rfl rfl
  | @upkeep checkpoint hw hr =>
    refine h.writer_step rfl hw ?_ h.due
    rw [insertsOf_append]
    cases checkpoint <;> simp [insertsOf]
  | @take command queue hw hq =>
    refine h.writer_step rfl (by rw [hw]; rfl) ?_ rfl
    rw [hw, hq]
    cases command <;> rfl
  | persist hw he => exact h.executed hw he
  | settle hw =>
    have hd := h.due
    rw [hw] at hd
    cases hd
  | settled hw => exact h.writer_step rfl (by rw [hw]; rfl) (by rw [hw]; rfl) rfl
  | fail | stop | exit => exact Or.inl rfl

/-- The ledger after a step: as it was, or after one call. Only the two exits and
the settlement of a batch can be a `close`. -/
def LedgerStep (p p' : Server O R) (e : Event R) : Prop :=
  p'.ledger = p.ledger ∨ ∃ c, p'.ledger = (p.ledger.locked c).1 ∧
    (c = .close → c ∈ p.writer.due ∨ e = .writerExit ∨ e = .batcherExit)

/-- What a step of the storage side leaves alone. -/
structure Aside (p p' : Server O R) (e : Event R) : Prop where
  handlers : p'.handlers = p.handlers
  calls : p'.ingress.calls = p.ingress.calls
  sent : p'.ingress.sent = p.ingress.sent
  ledger : LedgerStep p p' e

def Event.ofStorage : Event R → Bool
  | .handle _ | .enqueue _ _ | .control _ _ | .publish _ => false
  | _ => true

theorem aside_step (he : e.ofStorage = true) (hs : p.step setup e = some p') : Aside p p' e := by
  cases step_inv hs with
  | handle | enqueue | control | publish => cases he
  | void hb hq hr => exact ⟨rfl, rfl, rfl, Or.inr ⟨_, rfl, fun hc => by cases hc⟩⟩
  | close hb => exact ⟨rfl, rfl, rfl, Or.inr ⟨.close, rfl, fun _ => Or.inr (Or.inr rfl)⟩⟩
  | @settle c calls hw =>
    refine ⟨rfl, rfl, rfl, Or.inr ⟨c, rfl, fun _ => Or.inl ?_⟩⟩
    rw [hw]
    exact List.mem_cons_self
  | exit hw => exact ⟨rfl, rfl, rfl, Or.inr ⟨.close, rfl, fun _ => Or.inr (Or.inl rfl)⟩⟩
  | _ => exact ⟨rfl, rfl, rfl, Or.inl rfl⟩

/-- A step of the ingest side changes the ingest side. -/
theorem ingress_step (hs : p.step setup e = some p') :
    e.ofStorage = true ∨ (∃ i, e = .handle i) ∨
      ∃ s', p' = { p with ingress := s' } ∧
        ((∃ i now, e = .enqueue i now ∧ p.handlers i = .enqueueing ∧
            p.ingress.requestStep setup.queue (setup.work i) i now = some s') ∨
          (∃ j now, p.ingress.controlStep setup.queue (setup.deadline j) j now = some s') ∨
          ∃ k, s' = { p.ingress with shared := p.ingress.shared.step (.publish k) }) := by
  cases step_inv hs with
  | @handle i => exact Or.inr (Or.inl ⟨i, rfl⟩)
  | enqueue hh hs' => exact Or.inr (Or.inr ⟨_, rfl, Or.inl ⟨_, _, rfl, hh, hs'⟩⟩)
  | control hs' => exact Or.inr (Or.inr ⟨_, rfl, Or.inr (Or.inl ⟨_, _, hs'⟩)⟩)
  | publish k => exact Or.inr (Or.inr ⟨_, rfl, Or.inr (Or.inr ⟨k, rfl⟩)⟩)
  | _ => exact Or.inl rfl

theorem ledger_step (hs : p.step setup e = some p') : LedgerStep p p' e := by
  rcases ingress_step hs with he | ⟨i, rfl⟩ | ⟨s', rfl, hcases⟩
  · exact (aside_step he hs).ledger
  · obtain ⟨handler, rfl, -⟩ := handleStep_goto hs
    exact Or.inl rfl
  · rcases hcases with ⟨i, now, -, -, hr⟩ | ⟨j, now, hc⟩ | ⟨k, rfl⟩
    · cases (Admission.requestStep_effect hr).2 with
      | silent hq hsent hsh hp | send chunk hcon hpend hq hsent hsh hp =>
        exact Or.inl (congrArg Shared.ledger hsh)
      | issue hq hsent hsh hp =>
        exact Or.inr ⟨.issue, congrArg Shared.ledger hsh, fun hc => by cases hc⟩
      | void ticket hissued hrel hq hsent hsh hp =>
        exact Or.inr ⟨.void ticket now, congrArg Shared.ledger hsh, fun hc => by cases hc⟩
    · exact Or.inl (congrArg Shared.ledger (Admission.controlStep_effect hc).2.1)
    · exact Or.inl rfl

/-- A settled ticket stays settled. -/
theorem settled_step (hw : p.ledger.inner.WellFormed) (hs : p.step setup e = some p') {t : Nat}
    (ht : IsSettledState (p.ledger.state t)) : IsSettledState (p'.ledger.state t) := by
  rcases ledger_step hs with he | ⟨c, he, -⟩
  · rwa [he]
  · rwa [he, state_locked hw, TicketState.after_of_ne ht.ne_unsettled]

/-- A call that is not running does not change, nor what it has sent. -/
theorem request_step (hs : p.step setup e = some p') {i : Nat} (hh : p.handlers i ≠ .enqueueing) :
    p'.ingress.calls i = p.ingress.calls i ∧
      sentBy p'.ingress.sent i = sentBy p.ingress.sent i := by
  rcases ingress_step hs with he | ⟨k, rfl⟩ | ⟨s', rfl, hcases⟩
  · have ha := aside_step he hs
    exact ⟨congrFun ha.calls i, by rw [ha.sent]⟩
  · obtain ⟨handler, rfl, -⟩ := handleStep_goto hs
    exact ⟨rfl, rfl⟩
  · rcases hcases with ⟨k, now, -, hk, hr⟩ | ⟨j, now, hc⟩ | ⟨k, rfl⟩
    · have hne : i ≠ k := fun he => hh (he ▸ hk)
      refine ⟨(Admission.requestStep_cases hr).1 i hne, ?_⟩
      cases (Admission.requestStep_effect hr).2 with
      | silent hq hsent hsh hp | issue hq hsent hsh hp | void ticket hissued hrel hq hsent hsh hp =>
        exact congrArg (sentBy · i) hsent
      | send chunk hcon hpend hq hsent hsh hp =>
        refine (congrArg (sentBy · i) hsent).trans (Admission.sentBy_other _ ?_)
        simpa [byRequest] using Ne.symm hne
    · obtain ⟨-, -, hcalls, hsent⟩ := Admission.controlStep_effect hc
      refine ⟨congrFun hcalls i, ?_⟩
      rcases hsent with ⟨-, hsent⟩ | ⟨-, hsent⟩
      · exact congrArg (sentBy · i) hsent
      · exact (congrArg (sentBy · i) hsent).trans (Admission.sentBy_other _ rfl)
    · exact ⟨rfl, rfl⟩

theorem handler_step (hs : p.step setup e = some p') {i : Nat} (he : e ≠ .handle i) :
    p'.handlers i = p.handlers i := by
  rcases ingress_step hs with hst | ⟨k, rfl⟩ | ⟨s', rfl, -⟩
  · exact congrFun (aside_step hst hs).handlers i
  · obtain ⟨handler, rfl, -⟩ := handleStep_goto hs
    have hne : i ≠ k := fun hik => he (by rw [hik])
    exact Function.update_of_ne hne _ _
  · rfl

/-- **A closed ledger means a quiet pipeline**, if an unwinding batcher closes quietly. -/
theorem closed_quiet_step {done : List (Done O (Exported R))} (hb : p.Booked setup done)
    (hq : p.ledger.inner.closed = true → p.Quiet) (hclean : GuardQuiet p e)
    (hs : p.step setup e = some p') (hc : p'.ledger.inner.closed = true) : p'.Quiet := by
  obtain ⟨received, ops, emitted, rest, h⟩ := hb
  rcases ledger_step hs with he | ⟨c, he, hclose⟩
  · exact quiet_step (hq (he ▸ hc)) hs
  · by_cases hcc : c = .close
    · rcases hclose hcc with hdue | rfl | rfl
      · exact absurd (hcc ▸ hdue) h.due_issue.2
      · cases step_inv hs with
        | exit hw => exact Or.inl rfl
      · cases step_inv hs with
        | close hb =>
          rcases hb with hb | hb
          · exact quiet_step (Or.inl (h.closing hb)) hs
          · simp only [GuardQuiet, hb] at hclean
            exact quiet_step hclean hs
        | leave hb => exact quiet_step (hq hc) hs
    · rw [he, closed_locked _ hcc] at hc
      exact quiet_step (hq hc) hs

end Step

end OtelSqlite.Pipeline
