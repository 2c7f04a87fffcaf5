import Mathlib.Order.BooleanAlgebra.Basic
import OtelSqlite.Core.CommitState
import OtelSqlite.Lib.Publication

/-!
# The ledger's watch channel under concurrent calls

`complete`, `void` and `close` compute their watermark inside the critical
section and hand it to `send_replace` after leaving it. `Shared` keeps both
halves: the locked ledger and the watermarks that have been computed but not yet
sent. Any thread may take its next half at any time. The channel is faithful
exactly in the runs that send in the order of the critical sections, up to
watermarks that are equal.
-/

namespace OtelSqlite.Core.Commit

open OtelSqlite.Lib.Publication

variable {s : Shared}

instance : PartialOrder Watermark :=
  PartialOrder.lift (fun w => (w.committedThrough, w.closed)) fun a b h => by
    cases a
    cases b
    simpa using h

theorem Watermark.le_iff {a b : Watermark} :
    a ≤ b ↔ a.committedThrough ≤ b.committedThrough ∧ (a.closed = true → b.closed = true) :=
  Iff.rfl

/-- A waiter of `wait_watermark` for `ticket` returns when it sees `w`. -/
def Watermark.Releases (w : Watermark) (ticket : Nat) : Prop :=
  ticket ≤ w.committedThrough ∨ w.closed = true

instance (w : Watermark) (ticket : Nat) : Decidable (w.Releases ticket) :=
  inferInstanceAs (Decidable (_ ∨ _))

/-- The ledger with its watch channel. `updates` stamps each watermark with the
number of changes the lock had seen when it was computed. -/
structure Shared where
  ledger : CommitLedger
  updates : Register Watermark

inductive Step where
  /-- The critical section of a call. -/
  | call (c : Call)
  /-- The `send_replace` of the `i`-th call that has left its critical section. -/
  | publish (i : Nat)
  deriving DecidableEq, Repr

namespace Shared

def new (start : Nat) : Shared :=
  ⟨CommitLedger.new start, Register.new (CommitLedger.new start).inner.watermark⟩

def call (s : Shared) (c : Call) : Shared :=
  ⟨(s.ledger.locked c).1,
    s.updates.update (s.ledger.locked c).1.inner.watermark (s.ledger.locked c).2⟩

def step (s : Shared) : Step → Shared
  | .call c => s.call c
  | .publish i => { s with updates := s.updates.publish i }

def watermark (s : Shared) : Watermark := s.updates.published.value

end Shared

theorem locked_announces {l : CommitLedger} {c : Call} {w : Watermark}
    (h : w ∈ (l.locked c).2) : w = (l.locked c).1.inner.watermark := by
  have hsettle : ∀ t voided now, w ∈ (l.inner.settle t voided now).2 →
      w = (l.inner.settle t voided now).1.watermark := by
    intro t voided now hw
    by_cases hn : t = 0 ∨ l.inner.IsSettled t
    · rw [Inner.settle_noop voided now hn] at hw
      cases hw
    · rw [not_or] at hn
      simp only [Inner.settle, if_neg hn.1, if_neg hn.2, Option.mem_def,
        Option.some.injEq] at hw ⊢
      exact hw.symm
  cases c with
  | issue | noteCommitted t n | noteDropped t n => cases h
  | complete t now => exact hsettle t false now h
  | void t now => exact hsettle t true now h
  | close =>
    simp only [CommitLedger.locked, Inner.close, Option.mem_def, Option.some.injEq] at h
    exact h.symm

/-- The locked watermark only grows, and a call that changes it announces it. -/
theorem watermark_locked (l : CommitLedger) (c : Call) :
    l.inner.watermark ≤ (l.locked c).1.inner.watermark ∧
      ((l.locked c).1.inner.watermark = l.inner.watermark ∨ (l.locked c).2.isSome) := by
  have hsettle : ∀ t voided now,
      l.inner.watermark ≤ (l.inner.settle t voided now).1.watermark ∧
        ((l.inner.settle t voided now).1.watermark = l.inner.watermark ∨
          (l.inner.settle t voided now).2.isSome) := by
    intro t voided now
    by_cases hn : t = 0 ∨ l.inner.IsSettled t
    · rw [Inner.settle_noop voided now hn]
      exact ⟨le_rfl, Or.inl rfl⟩
    · rw [not_or] at hn
      refine ⟨?_, Or.inr ?_⟩
      · rw [Inner.settle_fresh voided now hn.1 hn.2, Watermark.le_iff]
        refine ⟨Inner.le_advance (l.inner.recordOutcome t voided) t now, fun hc => ?_⟩
        change ((l.inner.recordOutcome t voided).advance t now).closed = true
        rw [Inner.advance_closed]
        exact hc
      · simp only [Inner.settle, if_neg hn.1, if_neg hn.2, Option.isSome_some]
  cases c with
  | issue => exact ⟨le_rfl, Or.inl rfl⟩
  | noteCommitted t n =>
    have he : (l.inner.noteCommitted t n).watermark = l.inner.watermark :=
      Inner.watermark_note _ _ _ _
    exact ⟨he.ge, Or.inl he⟩
  | noteDropped t n =>
    have he : (l.inner.noteDropped t n).watermark = l.inner.watermark :=
      Inner.watermark_note _ _ _ _
    exact ⟨he.ge, Or.inl he⟩
  | complete t now => exact hsettle t false now
  | void t now => exact hsettle t true now
  | close => exact ⟨⟨le_rfl, fun _ => rfl⟩, Or.inr rfl⟩

/-- What the published watermark promises over one step: neither part goes back,
and it is the locked one whenever no call is between its two halves. -/
structure FaithfulStep (s s' : Shared) : Prop where
  through_mono : s.watermark.committedThrough ≤ s'.watermark.committedThrough
  closed_mono : s.watermark.closed = true → s'.watermark.closed = true
  quiescent : s'.updates.inFlight = [] → s'.watermark = s'.ledger.inner.watermark

/-- Every step of the run keeps the promise. -/
def Faithful : Shared → List Step → Prop
  | _, [] => True
  | s, x :: xs => FaithfulStep s (s.step x) ∧ Faithful (s.step x) xs

/-- No watermark is sent after one that a later change of the lock computed. -/
def InLockOrder : Shared → List Step → Prop
  | _, [] => True
  | s, .call c :: xs => InLockOrder (s.call c) xs
  | s, .publish i :: xs => s.updates.InOrder i ∧ InLockOrder (s.step (.publish i)) xs

structure Shared.Consistent (s : Shared) : Prop where
  locked : s.updates.current.value = s.ledger.inner.watermark
  coherent : Coherent s.updates
  latest : Latest s.updates

theorem consistent_new (start : Nat) : (Shared.new start).Consistent :=
  ⟨rfl, coherent_new _, latest_new _⟩

theorem coherent_call (hl : s.updates.current.value = s.ledger.inner.watermark)
    (h : Coherent s.updates) (c : Call) : Coherent (s.call c).updates := by
  refine coherent_update h ?_ fun w hw => locked_announces hw
  rw [hl]
  exact (watermark_locked s.ledger c).1

section

variable (h : s.Consistent)
include h

theorem consistent_call (c : Call) : (s.call c).Consistent := by
  obtain ⟨-, hchange⟩ := watermark_locked s.ledger c
  rw [← h.locked] at hchange
  exact ⟨rfl, coherent_call h.locked h.coherent c, latest_update h.latest _ _ hchange⟩

theorem consistent_publish {i : Nat} (ho : s.updates.InOrder i) :
    (s.step (.publish i)).Consistent := by
  refine ⟨?_, coherent_publish h.coherent i, latest_publish h.coherent h.latest ho⟩
  change (s.updates.publish i).current.value = s.ledger.inner.watermark
  rw [publish_current]
  exact h.locked

theorem Shared.Consistent.quiescent (hq : s.updates.inFlight = []) :
    s.watermark = s.ledger.inner.watermark :=
  (published_eq_current h.coherent h.latest hq).trans h.locked

theorem faithfulStep_call (c : Call) : FaithfulStep s (s.step (.call c)) :=
  ⟨le_rfl, id, (consistent_call h c).quiescent⟩

theorem faithfulStep_publish_iff (i : Nat) :
    FaithfulStep s (s.step (.publish i)) ↔ s.updates.InOrder i := by
  rw [← publish_le_iff h.coherent i]
  constructor
  · intro hf
    exact ⟨hf.through_mono, hf.closed_mono⟩
  · intro hle
    have ho := (publish_le_iff h.coherent i).mp hle
    exact ⟨hle.1, hle.2, (consistent_publish h ho).quiescent⟩

theorem faithful_iff (steps : List Step) : Faithful s steps ↔ InLockOrder s steps := by
  induction steps generalizing s with
  | nil => exact Iff.rfl
  | cons x xs ih =>
    cases x with
    | call c =>
      simp only [Faithful, InLockOrder, faithfulStep_call h c, true_and]
      exact ih (consistent_call h c)
    | publish i =>
      simp only [Faithful, InLockOrder, faithfulStep_publish_iff h i]
      exact and_congr_right fun ho => ih (consistent_publish h ho)

end

/-- **The watch channel is faithful exactly along the runs that send in lock order.** -/
theorem published_watermark_faithful_iff (start : Nat) (steps : List Step) :
    Faithful (Shared.new start) steps ↔ InLockOrder (Shared.new start) steps :=
  faithful_iff (consistent_new start) steps

/-- The writer completes ticket 1 and is overtaken by the close of a dying
batcher: the late `send_replace` reopens the published ledger. -/
theorem published_watermark_reopens :
    ¬ ∀ start steps, Faithful (Shared.new start) steps := by
  intro h
  have hf := h 0 [.call .issue, .call (.complete 1 0), .call .close, .publish 1, .publish 0]
  have hstep := hf.2.2.2.2.1.closed_mono
  revert hstep
  decide +kernel

end OtelSqlite.Core.Commit
