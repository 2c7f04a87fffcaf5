import OtelSqlite.Core.CommitState

/-!
# Order of calls and finality of states

A ticket's entries in the ledger form its `Slot`. A call changes the slot of its own
ticket and no other one, by a function of that slot alone. So the order of the calls of
different tickets does not matter: the slots are the same, and the stored watermark and
parked set are determined by which tickets are settled. The states of settled tickets are
absorbing in the per-ticket machine `TicketState.after`, hence final.
-/

namespace OtelSqlite.Core.Commit

open OtelSqlite.Lib.Contiguous

/-- A call on one ticket. -/
inductive TicketOp where
  | noteCommitted (records : Nat)
  | noteDropped (records : Nat)
  | complete
  | void
  deriving DecidableEq, Repr

/-- A call as it was made: its ticket and the clock reading in its critical section. -/
structure Made where
  ticket : Nat
  op : TicketOp
  now : Nat
  deriving DecidableEq, Repr

def Made.call (made : Made) : Call :=
  match made.op with
  | .noteCommitted records => .noteCommitted made.ticket records
  | .noteDropped records => .noteDropped made.ticket records
  | .complete => .complete made.ticket made.now
  | .void => .void made.ticket made.now

/-- The calls are an interleaving of the sequences, one for each ticket. -/
def Interleaves (sequences : Nat → List TicketOp) (made : List Made) : Prop :=
  ∀ t, (made.filter fun m => m.ticket = t).map Made.op = sequences t

/-- What the ledger stores about one ticket. -/
structure Slot where
  settled : Bool
  failed : Bool
  progress : Option TicketProgress
  deriving DecidableEq, Repr

namespace Slot

def dropped (slot : Slot) : Nat := (slot.progress.getD {}).dropped

def note (slot : Slot) (records : Nat) (change : TicketProgress → TicketProgress) : Slot :=
  if records = 0 then slot else { slot with progress := some (change (slot.progress.getD {})) }

/-- A settled slot does not change. -/
def after (slot : Slot) (op : TicketOp) : Slot :=
  if slot.settled then slot
  else
    match op with
    | .noteCommitted n => slot.note n fun p => { p with committed := saturatingAdd p.committed n }
    | .noteDropped n => slot.note n fun p => { p with dropped := saturatingAdd p.dropped n }
    | .complete =>
      if 0 < slot.dropped then { slot with settled := true, failed := true }
      else { slot with settled := true, progress := none }
    | .void => { slot with settled := true, progress := none }

theorem after_settled {slot : Slot} (h : slot.settled = true) (op : TicketOp) :
    slot.after op = slot := if_pos h

end Slot

namespace Inner

variable (inner : Inner)

def slot (t : Nat) : Slot where
  settled := inner.IsSettled t
  failed := t ∈ inner.failed
  progress := inner.progress t

theorem slot_note (u n t : Nat) (f : TicketProgress → TicketProgress) :
    (inner.note u n f).slot t =
      if u = t ∧ ¬inner.IsSettled t then (inner.slot t).note n f else inner.slot t := by
  by_cases hown : u = t ∧ ¬inner.IsSettled t
  · obtain ⟨rfl, hopen⟩ := hown
    -- an open ticket is above the watermark, so it is not ticket zero
    have h0 : u ≠ 0 := fun h0 => hopen (Or.inl (h0 ▸ Nat.zero_le _))
    rw [if_pos ⟨rfl, hopen⟩]
    unfold note Slot.note
    by_cases hn : n = 0
    · rw [if_pos (Or.inr hn), if_pos hn]
    · rw [if_neg (not_or.mpr ⟨h0, hn⟩), if_neg hopen, if_neg hn]
      exact congrArg (Slot.mk _ _) (Function.update_self u _ inner.progress)
  · rw [if_neg hown]
    unfold note
    by_cases hn : u = 0 ∨ n = 0
    · rw [if_pos hn]
    · rw [if_neg hn]
      by_cases hs : inner.IsSettled u
      · rw [if_pos hs]
      · have hne : t ≠ u := fun he => hown ⟨he.symm, he ▸ hs⟩
        rw [if_neg hs]
        exact congrArg (Slot.mk _ _) (Function.update_of_ne hne _ inner.progress)

theorem slot_settle (u t now : Nat) (voided : Bool) :
    (inner.settle u voided now).1.slot t =
      if u = t then (inner.slot t).after (if voided then .void else .complete)
      else inner.slot t := by
  by_cases hn : u = 0 ∨ inner.IsSettled u
  · have hs : inner.IsSettled u := hn.elim (fun h0 => Or.inl (h0 ▸ Nat.zero_le _)) id
    rw [settle_noop voided now hn]
    by_cases hu : u = t
    · subst hu
      rw [if_pos rfl, Slot.after_settled (decide_eq_true hs)]
    · rw [if_neg hu]
  · rw [not_or] at hn
    have hsettled : (inner.settle u voided now).1.IsSettled t ↔ inner.IsSettled t ∨ t = u := by
      rw [settle_fresh voided now hn.1 hn.2]
      exact isSettled_advance _ u now t
    have hfailed := failed_settle_fresh voided now hn.1 hn.2 t
    have hprogress := progress_settle_fresh voided now hn.1 hn.2 t
    by_cases hu : u = t
    · subst hu
      have hopen : (inner.slot u).settled = false := decide_eq_false hn.2
      rw [if_pos rfl]
      unfold Slot.after
      rw [hopen]
      simp only [slot, hsettled, hfailed, hprogress, Slot.dropped, progressOf]
      cases voided <;> by_cases hd : 0 < ((inner.progress u).getD {}).dropped <;> simp [hd]
    · rw [if_neg hu]
      have hne : t ≠ u := Ne.symm hu
      simp only [slot, hsettled, hfailed, hprogress, hne, false_and, or_false, if_false]

end Inner

theorem slot_locked (l : CommitLedger) (made : Made) (t : Nat) :
    (l.locked made.call).1.inner.slot t =
      if made.ticket = t then (l.inner.slot t).after made.op else l.inner.slot t := by
  obtain ⟨u, op, now⟩ := made
  have hnote : ∀ n f, (l.inner.note u n f).slot t =
      if u = t then (if (l.inner.slot t).settled then l.inner.slot t else
        (l.inner.slot t).note n f) else l.inner.slot t := by
    intro n f
    rw [Inner.slot_note]
    by_cases hu : u = t
    · by_cases hs : l.inner.IsSettled t <;> simp [hu, hs, Inner.slot]
    · simp [hu]
  cases op with
  | noteCommitted n | noteDropped n => exact hnote n _
  | complete => exact Inner.slot_settle l.inner u t now false
  | void => exact Inner.slot_settle l.inner u t now true

/-- The slot of a ticket is what its own calls made of it. -/
theorem slot_run (l : CommitLedger) (made : List Made) (t : Nat) :
    (l.run (made.map Made.call)).inner.slot t =
      ((made.filter fun m => m.ticket = t).map Made.op).foldl Slot.after (l.inner.slot t) := by
  induction made generalizing l with
  | nil => rfl
  | cons m made ih =>
    rw [List.map_cons, CommitLedger.run_cons, ih, slot_locked]
    by_cases hm : m.ticket = t
    · rw [if_pos hm, List.filter_cons_of_pos (by simpa using hm)]
      rfl
    · rw [if_neg hm, List.filter_cons_of_neg (by simpa using hm)]

/-- Only `close` closes. -/
theorem closed_run (l : CommitLedger) (made : List Made) :
    (l.run (made.map Made.call)).inner.closed = l.inner.closed := by
  have hclose : Call.close ∉ made.map Made.call := by
    intro hmem
    obtain ⟨⟨t, op, now⟩, -, hm⟩ := List.mem_map.mp hmem
    cases op <;> cases hm
  exact closed_run_of_not_mem l hclose

section Agreement

variable {a b : Inner}

theorem isSettled_congr (h : ∀ t, a.slot t = b.slot t) (t : Nat) :
    a.IsSettled t ↔ b.IsSettled t := by
  simpa [Inner.slot] using congrArg Slot.settled (h t)

/-- The watermark and the parked tickets store the set of settled tickets. -/
theorem stored_congr (ha : a.WellFormed) (hb : b.WellFormed) (h : ∀ t, a.slot t = b.slot t) :
    a.committedThrough = b.committedThrough ∧ a.settledAbove = b.settledAbove := by
  have hset : a.settled = b.settled := by
    ext t
    exact and_congr_right fun _ => isSettled_congr h t
  have hthrough : a.committedThrough = b.committedThrough := by
    refine ha.tracks.isGreatest.unique ?_
    rw [hset]
    exact hb.tracks.isGreatest
  refine ⟨hthrough, Finset.ext fun t => ?_⟩
  rw [ha.tracks.parked_iff, hb.tracks.parked_iff, hset, hthrough]

theorem failed_congr (h : ∀ t, a.slot t = b.slot t) : a.failed = b.failed := by
  ext t
  simpa [Inner.slot] using congrArg Slot.failed (h t)

theorem progress_congr (h : ∀ t, a.slot t = b.slot t) : a.progress = b.progress :=
  funext fun t => congrArg Slot.progress (h t)

end Agreement

/-- The outcome of calls on tickets does not depend on the order of the calls of
different tickets, whatever was called before. -/
theorem ledger_order_independent (start : Nat) (prior : List Call)
    (sequences : Nat → List TicketOp) (xs ys : List Made) (hx : Interleaves sequences xs)
    (hy : Interleaves sequences ys) :
    let l := ((CommitLedger.new start).run prior).run (xs.map Made.call)
    let l' := ((CommitLedger.new start).run prior).run (ys.map Made.call)
    l.inner.watermark = l'.inner.watermark ∧ l.inner.settledAbove = l'.inner.settledAbove ∧
      (∀ t, l.inner.IsSettled t ↔ l'.inner.IsSettled t) ∧ l.inner.failed = l'.inner.failed ∧
      l.inner.progress = l'.inner.progress ∧ ∀ t, l.state t = l'.state t := by
  intro l l'
  have hprior := wellFormed_run (wellFormed_new start) prior
  have hslot : ∀ t, l.inner.slot t = l'.inner.slot t := by
    intro t
    show (CommitLedger.run _ _).inner.slot t = (CommitLedger.run _ _).inner.slot t
    rw [slot_run, slot_run, hx t, hy t]
  obtain ⟨hthrough, hparked⟩ := stored_congr (wellFormed_run hprior _) (wellFormed_run hprior _)
    hslot
  have hsettled := isSettled_congr hslot
  have hfailed := failed_congr hslot
  have hprogress := progress_congr hslot
  have hclosed : l.inner.closed = l'.inner.closed :=
    (closed_run _ xs).trans (closed_run _ ys).symm
  refine ⟨?_, hparked, hsettled, hfailed, hprogress, fun t => ?_⟩
  · show Watermark.mk l.inner.committedThrough l.inner.closed = _
    rw [hthrough, hclosed]
    rfl
  · simp only [CommitLedger.state, Inner.progressOf, hfailed, hprogress, hsettled t]

/-- Ticket 2 settles before ticket 1 in one order and behind it in the other. -/
theorem ledger_order_independent_pair :
    let xs : List Made := [⟨2, .noteDropped 3, 5⟩, ⟨2, .complete, 6⟩, ⟨1, .complete, 7⟩]
    let ys : List Made := [⟨1, .complete, 5⟩, ⟨2, .noteDropped 3, 6⟩, ⟨2, .complete, 7⟩]
    (((CommitLedger.new 0).run [.issue, .issue]).run (xs.map Made.call)).state 2 =
        .failed ⟨0, 3⟩ ∧
      (((CommitLedger.new 0).run [.issue, .issue]).run (xs.map Made.call)).inner.watermark =
        (((CommitLedger.new 0).run [.issue, .issue]).run (ys.map Made.call)).inner.watermark := by
  intro xs ys
  have hinterleaves : Interleaves (fun t => (xs.filter fun m => m.ticket = t).map Made.op) ys := by
    intro t
    by_cases h1 : 1 = t
    · subst h1
      decide
    · by_cases h2 : 2 = t
      · subst h2
        decide
      · simp [xs, ys, h1, h2]
  exact ⟨by decide +kernel, (ledger_order_independent 0 [.issue, .issue] _ xs ys (fun _ => rfl)
    hinterleaves).1⟩

section Finality

variable {state : TicketState} {p q : TicketProgress}

/-- Completed or failed. -/
def TicketState.IsFinal : TicketState → Prop
  | .unsettled _ => False
  | _ => True

theorem TicketState.IsFinal.ne_unsettled (h : state.IsFinal) (p : TicketProgress) :
    state ≠ .unsettled p := by
  rintro rfl
  exact h

/-- Counts are 64 bits wide; an open ticket has both within their range. -/
def TicketState.Bounded : TicketState → Prop
  | .unsettled p => p.committed ≤ u64Max ∧ p.dropped ≤ u64Max
  | _ => True

theorem TicketState.bounded_after (h : state.Bounded) (t : Nat) (c : Call) :
    (state.after t c).Bounded := by
  have hsat : ∀ a n, saturatingAdd a n ≤ u64Max := fun _ _ => Nat.min_le_right _ _
  cases state with
  | completed | failed p => cases c <;> trivial
  | unsettled p =>
    cases c with
    | noteCommitted u n =>
      show TicketState.Bounded (.unsettled (if _ then _ else p))
      split
      · exact ⟨hsat _ _, h.2⟩
      · exact h
    | noteDropped u n =>
      show TicketState.Bounded (.unsettled (if _ then _ else p))
      split
      · exact ⟨h.1, hsat _ _⟩
      · exact h
    | complete u now =>
      simp only [after]
      split_ifs
      · trivial
      · trivial
      · exact h
    | void u now =>
      simp only [after]
      split_ifs
      · trivial
      · exact h
    | issue | close => exact h

theorem TicketState.bounded_foldl (h : state.Bounded) (t : Nat) (calls : List Call) :
    (calls.foldl (TicketState.after t) state).Bounded := by
  induction calls generalizing state with
  | nil => exact h
  | cons c calls ih => exact ih (state.bounded_after h t c)

/-- Neither count of the first progress exceeds that of the second. -/
def TicketProgress.Within (p q : TicketProgress) : Prop :=
  p.committed ≤ q.committed ∧ p.dropped ≤ q.dropped

theorem le_saturatingAdd {a : Nat} (n : Nat) (h : a ≤ u64Max) : a ≤ saturatingAdd a n :=
  Nat.le_min.mpr ⟨Nat.le_add_right _ _, h⟩

/-- A call leaves an open ticket settled, or open with no less progress. -/
theorem TicketState.after_unsettled {t : Nat} {c : Call} (hp : (TicketState.unsettled p).Bounded)
    (h : (TicketState.unsettled p).after t c = .unsettled q) : p.Within q := by
  have hrefl : p.Within p := ⟨le_rfl, le_rfl⟩
  cases c with
  | noteCommitted u n =>
    obtain rfl := TicketState.unsettled.inj h
    split
    · exact ⟨le_saturatingAdd n hp.1, le_rfl⟩
    · exact hrefl
  | noteDropped u n =>
    obtain rfl := TicketState.unsettled.inj h
    split
    · exact ⟨le_rfl, le_saturatingAdd n hp.2⟩
    · exact hrefl
  | complete u now | void u now =>
    simp only [after] at h
    split_ifs at h
    obtain rfl := TicketState.unsettled.inj h
    exact hrefl
  | issue | close =>
    obtain rfl := TicketState.unsettled.inj h
    exact hrefl

theorem TicketState.foldl_unsettled {t : Nat} {calls : List Call}
    (hp : (TicketState.unsettled p).Bounded)
    (h : calls.foldl (TicketState.after t) (.unsettled p) = .unsettled q) : p.Within q := by
  induction calls generalizing p with
  | nil =>
    obtain rfl := TicketState.unsettled.inj h
    exact ⟨le_rfl, le_rfl⟩
  | cons c calls ih =>
    rw [List.foldl_cons] at h
    have hnext := (TicketState.unsettled p).bounded_after hp t c
    cases hc : (TicketState.unsettled p).after t c with
    | unsettled r =>
      rw [hc] at h hnext
      have hstep := TicketState.after_unsettled hp hc
      have hrest := ih hnext h
      exact ⟨hstep.1.trans hrest.1, hstep.2.trans hrest.2⟩
    | completed | failed r =>
      rw [hc, TicketState.foldl_after_of_ne (fun _ => TicketState.noConfusion)] at h
      cases h

end Finality

/-- A settled state never changes, open progress never shrinks, and `close` changes no
state. -/
theorem settled_states_final (start : Nat) (calls more : List Call) (t : Nat) :
    let l := (CommitLedger.new start).run calls
    ((l.state t).IsFinal → (l.run more).state t = l.state t) ∧
      (∀ p q, l.state t = .unsettled p → (l.run more).state t = .unsettled q → p.Within q) ∧
      (l.locked .close).1.state t = l.state t := by
  intro l
  have hw : l.inner.WellFormed := wellFormed_run (wellFormed_new start) calls
  have hstart : ((CommitLedger.new start).state t).Bounded := by
    unfold CommitLedger.state
    split_ifs
    · trivial
    · trivial
    · trivial
    · exact ⟨Nat.zero_le _, Nat.zero_le _⟩
  have hbounded : (l.state t).Bounded := by
    show (CommitLedger.run _ _).state t |>.Bounded
    rw [state_run (wellFormed_new start)]
    exact TicketState.bounded_foldl hstart t calls
  refine ⟨fun hfinal => ?_, fun p q hp hq => ?_, ?_⟩
  · rw [state_run hw]
    exact TicketState.foldl_after_of_ne hfinal.ne_unsettled t more
  · rw [state_run hw, hp] at hq
    rw [hp] at hbounded
    exact TicketState.foldl_unsettled hbounded hq
  · rfl

end OtelSqlite.Core.Commit
