import OtelSqlite.Core.CommitOrder

/-!
# The states of the tickets determine the ledger

No entry of `progress` is empty, so a ticket's state says all that is stored about it.
The watermark is a function of the settled tickets, and the time of its last advance
follows from the watermark if the calls read the clock once. Calls that end in the same
states therefore end in the same ledger.
-/

namespace OtelSqlite.Core.Commit

variable {l : CommitLedger} {now : Nat}

/-- What is stored about a ticket in the state. -/
def TicketState.slot : TicketState → Slot
  | .unsettled p => ⟨false, false, if p = {} then none else some p⟩
  | .completed => ⟨true, false, none⟩
  | .failed p => ⟨true, true, if p = {} then none else some p⟩

namespace Inner

variable {inner : Inner}

/-- An entry is there because something was noted. -/
def Compact (inner : Inner) : Prop := ∀ t p, inner.progress t = some p → t ≠ 0 ∧ p ≠ {}

theorem compact_note (h : inner.Compact) (t n : Nat) {f : TicketProgress → TicketProgress}
    (hf : n ≠ 0 → ∀ p, f p ≠ {}) : (inner.note t n f).Compact := by
  unfold note
  split_ifs with hnone hs
  · exact h
  · exact h
  · obtain ⟨h0, hn⟩ := not_or.mp hnone
    intro u p hp
    simp only [Function.update_apply] at hp
    split_ifs at hp with hu
    · obtain rfl := Option.some.inj hp
      exact ⟨hu ▸ h0, hf hn _⟩
    · exact h u p hp

theorem compact_settle (h : inner.Compact) (t : Nat) (voided : Bool) (now : Nat) :
    (inner.settle t voided now).1.Compact := by
  by_cases hn : t = 0 ∨ inner.IsSettled t
  · rw [settle_noop voided now hn]
    exact h
  · obtain ⟨h0, hs⟩ := not_or.mp hn
    intro u p hp
    rw [progress_settle_fresh voided now h0 hs] at hp
    split_ifs at hp
    exact h u p hp

theorem progress_eq_of_compact (h : inner.Compact) (t : Nat) :
    inner.progress t = if inner.progressOf t = {} then none else some (inner.progressOf t) := by
  unfold progressOf
  cases hp : inner.progress t with
  | none => rfl
  | some p => exact (if_neg (h t p hp).2).symm

end Inner

theorem compact_new (start : Nat) : (CommitLedger.new start).inner.Compact := fun t p hp => by
  cases hp

theorem compact_locked (h : l.inner.Compact) (c : Call) : (l.locked c).1.inner.Compact := by
  have hpos : ∀ {a n : Nat}, n ≠ 0 → saturatingAdd a n ≠ 0 := fun hn =>
    (saturatingAdd_pos.mpr (by omega)).ne'
  cases c with
  | issue | close => exact h
  | noteCommitted t n =>
    exact Inner.compact_note h t n fun hn p he => hpos hn (congrArg TicketProgress.committed he)
  | noteDropped t n =>
    exact Inner.compact_note h t n fun hn p he => hpos hn (congrArg TicketProgress.dropped he)
  | complete t now => exact Inner.compact_settle h t false now
  | void t now => exact Inner.compact_settle h t true now

theorem compact_run (h : l.inner.Compact) (calls : List Call) : (l.run calls).inner.Compact := by
  induction calls generalizing l with
  | nil => exact h
  | cons c calls ih => exact ih (compact_locked h c)

theorem mem_failed_iff_state {t : Nat} (h0 : t ≠ 0) :
    t ∈ l.inner.failed ↔ ∃ p, l.state t = .failed p := by
  unfold CommitLedger.state
  rw [if_neg h0]
  split_ifs with hf <;> simp [hf]

theorem isSettled_iff_state (hw : l.inner.WellFormed) (t : Nat) :
    l.inner.IsSettled t ↔ (l.state t).IsFinal := by
  unfold CommitLedger.state
  split_ifs with h0 hf hs
  · exact iff_of_true (.inl (h0 ▸ Nat.zero_le _)) trivial
  · exact iff_of_true (hw.failed_settled t hf).2 trivial
  · exact iff_of_true hs trivial
  · exact iff_of_false hs id

theorem slot_eq_state (hw : l.inner.WellFormed) (hc : l.inner.Compact) (t : Nat) :
    l.inner.slot t = (l.state t).slot := by
  have hprogress := Inner.progress_eq_of_compact hc t
  unfold CommitLedger.state
  split_ifs with h0 hf hs
  · -- ticket zero has no entries and is behind every watermark
    subst h0
    have hnone : l.inner.progress 0 = none :=
      Option.eq_none_iff_forall_ne_some.mpr fun p hp => (hc 0 p hp).1 rfl
    have hopen : 0 ∉ l.inner.failed := fun hf => (hw.failed_settled 0 hf).1.false
    simp [Inner.slot, TicketState.slot, hnone, hopen, Inner.IsSettled]
  · simp [Inner.slot, TicketState.slot, hf, (hw.failed_settled t hf).2, hprogress]
  · have hnone : l.inner.progress t = none := by
      by_contra hp
      exact (hw.progress_live t hp).elim (fun h => h ⟨Nat.pos_of_ne_zero h0, hs⟩) hf
    simp [Inner.slot, TicketState.slot, hf, hs, hnone]
  · simp [Inner.slot, TicketState.slot, hf, hs, hprogress]

/-- A call that settles reads the clock as `now`. -/
def Call.At (now : Nat) : Call → Prop
  | .complete _ clock | .void _ clock => clock = now
  | .issue | .noteCommitted _ _ | .noteDropped _ _ | .close => True

/-- The watermark does not fall, and the clock is read when it rises. -/
structure Advances (now : Nat) (a b : Inner) : Prop where
  through_le : a.committedThrough ≤ b.committedThrough
  last : b.lastAdvanceMs =
    if b.committedThrough = a.committedThrough then a.lastAdvanceMs else now

theorem Advances.of_eq {a b : Inner} (ht : b.committedThrough = a.committedThrough)
    (hl : b.lastAdvanceMs = a.lastAdvanceMs) : Advances now a b :=
  ⟨ht.ge, by rw [if_pos ht, hl]⟩

theorem Advances.trans {a b c : Inner} (hab : Advances now a b) (hbc : Advances now b c) :
    Advances now a c := by
  refine ⟨hab.through_le.trans hbc.through_le, ?_⟩
  have h₁ := hab.through_le
  have h₂ := hbc.through_le
  rw [hbc.last, hab.last]
  split_ifs <;> first | rfl | omega

/-- If no ticket was settled, the watermark has not moved and the clock was not read. -/
theorem Advances.last_of_settled {a b : Inner} (h : Advances now a b) (ha : a.WellFormed)
    (hb : b.WellFormed) (hs : b.settled = a.settled) : b.lastAdvanceMs = a.lastAdvanceMs := by
  have hgreatest := hb.tracks.isGreatest
  rw [hs] at hgreatest
  rw [h.last, if_pos (hgreatest.unique ha.tracks.isGreatest)]

theorem advances_advance (inner : Inner) (t now : Nat) :
    Advances now inner (inner.advance t now) := by
  unfold Inner.advance
  split_ifs with hn hlt
  · have hle := Lib.Contiguous.le_absorb inner.settledAbove t
    have hlt : inner.committedThrough < (Lib.Contiguous.absorb inner.settledAbove t).2 := by omega
    exact ⟨hlt.le, (if_neg hlt.ne').symm⟩
  · exact .of_eq rfl rfl
  · exact .of_eq rfl rfl

theorem advances_settle (inner : Inner) (t : Nat) (voided : Bool) (now : Nat) :
    Advances now inner (inner.settle t voided now).1 := by
  by_cases hn : t = 0 ∨ inner.IsSettled t
  · rw [Inner.settle_noop voided now hn]
    exact .of_eq rfl rfl
  · obtain ⟨h0, hs⟩ := not_or.mp hn
    rw [Inner.settle_fresh voided now h0 hs]
    have hrecorded : Advances now inner (inner.recordOutcome t voided) := .of_eq rfl rfl
    exact hrecorded.trans (advances_advance _ t now)

theorem advances_note (inner : Inner) (now t n : Nat) (f : TicketProgress → TicketProgress) :
    Advances now inner (inner.note t n f) := by
  unfold Inner.note
  split_ifs <;> exact .of_eq rfl rfl

theorem advances_locked (l : CommitLedger) {c : Call} (h : c.At now) :
    Advances now l.inner (l.locked c).1.inner := by
  cases c with
  | issue | close => exact .of_eq rfl rfl
  | noteCommitted t n =>
    exact (advances_note l.inner now t n _ : Advances now _ (l.inner.noteCommitted t n))
  | noteDropped t n =>
    exact (advances_note l.inner now t n _ : Advances now _ (l.inner.noteDropped t n))
  | complete t clock => exact h ▸ advances_settle l.inner t false clock
  | void t clock => exact h ▸ advances_settle l.inner t true clock

theorem advances_run (l : CommitLedger) {calls : List Call} (h : ∀ c ∈ calls, c.At now) :
    Advances now l.inner (l.run calls).inner := by
  induction calls generalizing l with
  | nil => exact .of_eq rfl rfl
  | cons c calls ih =>
    have hrest := ih (l.locked c).1 fun x hx => h x (List.mem_cons_of_mem _ hx)
    exact (advances_locked l (h c List.mem_cons_self)).trans hrest

/-- Calls at one clock reading that neither issue nor close: the states they end in
determine the ledger. -/
theorem run_eq_of_states (hw : l.inner.WellFormed) (hc : l.inner.Compact) {xs ys : List Call}
    (hx : ∀ c ∈ xs, c.At now) (hy : ∀ c ∈ ys, c.At now) (hxi : .issue ∉ xs ∧ .close ∉ xs)
    (hyi : .issue ∉ ys ∧ .close ∉ ys) (h : ∀ t, (l.run xs).state t = (l.run ys).state t) :
    l.run xs = l.run ys := by
  have hwx := wellFormed_run hw xs
  have hwy := wellFormed_run hw ys
  have hslot : ∀ t, (l.run xs).inner.slot t = (l.run ys).inner.slot t := fun t => by
    rw [slot_eq_state hwx (compact_run hc xs), slot_eq_state hwy (compact_run hc ys), h t]
  obtain ⟨hthrough, hparked⟩ := stored_congr hwx hwy hslot
  have hfailed := failed_congr hslot
  have hprogress := progress_congr hslot
  have hlast : (l.run xs).inner.lastAdvanceMs = (l.run ys).inner.lastAdvanceMs := by
    rw [(advances_run l hx).last, (advances_run l hy).last, hthrough]
  have hclosed : (l.run xs).inner.closed = (l.run ys).inner.closed :=
    (closed_run_of_not_mem l hxi.2).trans (closed_run_of_not_mem l hyi.2).symm
  have hnext : (l.run xs).nextTicket = (l.run ys).nextTicket :=
    (nextTicket_run l hxi.1).trans (nextTicket_run l hyi.1).symm
  generalize l.run xs = a at *
  generalize l.run ys = b at *
  obtain ⟨n, above, through, progress, failed, last, closed⟩ := a
  obtain ⟨n', above', through', progress', failed', last', closed'⟩ := b
  simp only at hthrough hparked hfailed hprogress hlast hclosed hnext
  subst hthrough hparked hfailed hprogress hlast hclosed hnext
  rfl

end OtelSqlite.Core.Commit
