import Mathlib.Data.Set.Insert
import OtelSqlite.Core.Commit

/-!
# What each ledger call does to one ticket

`Inner.WellFormed` is the representation invariant of the ledger: the settled
tickets are stored as a contiguous part and a parked part, and only unsettled or
failed tickets keep progress. `TicketState.after` is the abstract ledger, a
state machine for a single ticket. `state_locked` says that the stored maps and
sets refine it, whatever the other tickets do.
-/

namespace OtelSqlite.Core.Commit

open OtelSqlite.Lib.Contiguous

variable {t : Nat} {l : CommitLedger} {calls : List Call}

namespace Inner

variable {inner : Inner}

/-- The tickets a `complete` or `void` call has settled. -/
def settled (inner : Inner) : Set Nat := {t | 0 < t ∧ inner.IsSettled t}

structure WellFormed (inner : Inner) : Prop where
  tracks : Tracks inner.settled inner.committedThrough inner.settledAbove
  failed_settled : ∀ t ∈ inner.failed, t ∈ inner.settled
  progress_live : ∀ t, inner.progress t ≠ none → t ∉ inner.settled ∨ t ∈ inner.failed

theorem settle_noop (voided : Bool) (now : Nat) (h : t = 0 ∨ inner.IsSettled t) :
    inner.settle t voided now = (inner, none) := by
  unfold settle
  by_cases h0 : t = 0
  · rw [if_pos h0]
  · rw [if_neg h0, if_pos (h.resolve_left h0)]

theorem settle_fresh (voided : Bool) (now : Nat) (h0 : t ≠ 0) (h : ¬ inner.IsSettled t) :
    (inner.settle t voided now).1 = (inner.recordOutcome t voided).advance t now := by
  simp only [settle, if_neg h0, if_neg h]

theorem isSettled_advance (inner : Inner) (t now u : Nat) :
    (inner.advance t now).IsSettled u ↔ inner.IsSettled u ∨ u = t := by
  unfold advance IsSettled
  split_ifs with hn hlt
  · have hle : u ≤ t ↔ u ≤ inner.committedThrough ∨ u = t := by omega
    simp only [mem_absorb_iff, hle]
    tauto
  · simp only [Finset.mem_insert]
    tauto
  · have hle : u = t → u ≤ inner.committedThrough := by omega
    tauto

@[simp] theorem advance_failed (inner : Inner) (t now : Nat) :
    (inner.advance t now).failed = inner.failed := by
  unfold advance
  split_ifs <;> rfl

@[simp] theorem advance_progress (inner : Inner) (t now : Nat) :
    (inner.advance t now).progress = inner.progress := by
  unfold advance
  split_ifs <;> rfl

@[simp] theorem advance_closed (inner : Inner) (t now : Nat) :
    (inner.advance t now).closed = inner.closed := by
  unfold advance
  split_ifs <;> rfl

theorem le_advance (inner : Inner) (t now : Nat) :
    inner.committedThrough ≤ (inner.advance t now).committedThrough := by
  unfold advance
  split_ifs with hn hlt
  · have := le_absorb inner.settledAbove t
    change inner.committedThrough ≤ (absorb inner.settledAbove t).2
    omega
  · exact le_rfl
  · exact le_rfl

theorem settled_settle_fresh (voided : Bool) (now : Nat) (h0 : t ≠ 0) (h : ¬ inner.IsSettled t) :
    (inner.settle t voided now).1.settled = insert t inner.settled := by
  rw [settle_fresh voided now h0 h]
  ext u
  change 0 < u ∧ ((inner.recordOutcome t voided).advance t now).IsSettled u ↔
    u = t ∨ 0 < u ∧ inner.IsSettled u
  have hr : (inner.recordOutcome t voided).IsSettled u ↔ inner.IsSettled u := Iff.rfl
  have hu : u = t → 0 < u := by omega
  rw [isSettled_advance, hr]
  tauto

theorem failed_settle_fresh (voided : Bool) (now : Nat) (h0 : t ≠ 0) (h : ¬ inner.IsSettled t)
    (u : Nat) :
    u ∈ (inner.settle t voided now).1.failed ↔
      u ∈ inner.failed ∨ u = t ∧ voided = false ∧ 0 < (inner.progressOf t).dropped := by
  rw [settle_fresh voided now h0 h, advance_failed]
  simp only [recordOutcome]
  split
  · rename_i hf
    simp only [Bool.and_eq_true, Bool.not_eq_true', decide_eq_true_eq] at hf
    rw [Finset.mem_insert]
    tauto
  · rename_i hf
    simp only [Bool.and_eq_true, Bool.not_eq_true', decide_eq_true_eq] at hf
    tauto

theorem progress_settle_fresh (voided : Bool) (now : Nat) (h0 : t ≠ 0) (h : ¬ inner.IsSettled t)
    (u : Nat) :
    (inner.settle t voided now).1.progress u =
      if u = t ∧ ¬ (voided = false ∧ 0 < (inner.progressOf t).dropped) then none
      else inner.progress u := by
  rw [settle_fresh voided now h0 h, advance_progress]
  cases voided <;> by_cases hd : 0 < (inner.progressOf t).dropped <;>
    simp [recordOutcome, hd, Function.update_apply]

theorem progressOf_settle_fresh (voided : Bool) (now : Nat) (h0 : t ≠ 0) (h : ¬ inner.IsSettled t)
    (u : Nat) :
    (inner.settle t voided now).1.progressOf u =
      if u = t ∧ ¬ (voided = false ∧ 0 < (inner.progressOf t).dropped) then {}
      else inner.progressOf u := by
  have hp := progress_settle_fresh voided now h0 h u
  split_ifs at hp ⊢ with hc
  · rw [progressOf, hp]
    rfl
  · rw [progressOf, hp]
    rfl

theorem note_failed (inner : Inner) (t n : Nat) (f : TicketProgress → TicketProgress) :
    (inner.note t n f).failed = inner.failed := by
  unfold note
  split_ifs <;> rfl

theorem isSettled_note (inner : Inner) (t n : Nat) (f : TicketProgress → TicketProgress) (u : Nat) :
    (inner.note t n f).IsSettled u ↔ inner.IsSettled u := by
  unfold note
  split_ifs <;> exact Iff.rfl

theorem watermark_note (inner : Inner) (t n : Nat) (f : TicketProgress → TicketProgress) :
    (inner.note t n f).watermark = inner.watermark := by
  unfold note
  split_ifs <;> rfl

theorem progressOf_note (inner : Inner) (t n : Nat) (f : TicketProgress → TicketProgress) (u : Nat) :
    (inner.note t n f).progressOf u =
      if u = t ∧ t ≠ 0 ∧ n ≠ 0 ∧ ¬ inner.IsSettled t then f (inner.progressOf u)
      else inner.progressOf u := by
  unfold note
  by_cases h0 : t = 0 ∨ n = 0
  · rw [if_pos h0, if_neg (by tauto)]
  · rw [if_neg h0]
    by_cases hs : inner.IsSettled t
    · rw [if_pos hs, if_neg (by tauto)]
    · rw [if_neg hs]
      by_cases hu : u = t
      · subst hu
        rw [if_pos (by tauto)]
        simp [progressOf]
      · rw [if_neg (by tauto)]
        simp [progressOf, hu]

theorem isSettled_settle (inner : Inner) (t : Nat) (voided : Bool) (now u : Nat) :
    (inner.settle t voided now).1.IsSettled u ↔ inner.IsSettled u ∨ u = t := by
  by_cases h : t = 0 ∨ inner.IsSettled t
  · have ht : inner.IsSettled t := h.elim (fun h0 => .inl (h0 ▸ Nat.zero_le _)) id
    rw [settle_noop voided now h]
    exact ⟨.inl, fun hu => hu.elim id fun he => he ▸ ht⟩
  · obtain ⟨h0, hs⟩ := not_or.mp h
    rw [settle_fresh voided now h0 hs]
    exact isSettled_advance _ t now u

theorem wellFormed_note (h : inner.WellFormed) (t n : Nat) (f : TicketProgress → TicketProgress) :
    (inner.note t n f).WellFormed := by
  unfold note
  split_ifs with h0 hs
  · exact h
  · exact h
  · refine ⟨h.tracks, h.failed_settled, fun u hu => ?_⟩
    by_cases he : u = t
    · subst he
      exact Or.inl fun hm => hs hm.2
    · refine h.progress_live u ?_
      simpa [he] using hu

theorem tracks_settle_fresh (h : inner.WellFormed) (voided : Bool) (now : Nat) (h0 : t ≠ 0)
    (hs : ¬ inner.IsSettled t) :
    Tracks (insert t inner.settled) (inner.settle t voided now).1.committedThrough
      (inner.settle t voided now).1.settledAbove := by
  rw [settle_fresh voided now h0 hs]
  have hlt : inner.committedThrough < t := by
    by_contra hle
    exact hs (Or.inl (by omega))
  unfold advance
  split_ifs with hn hgt
  · have ht : t = inner.committedThrough + 1 := hn
    subst ht
    exact h.tracks.advance
  · exact h.tracks.park (lt_of_le_of_ne hlt (Ne.symm hn))
  · exact absurd hlt hgt

theorem wellFormed_settle (h : inner.WellFormed) (t : Nat) (voided : Bool) (now : Nat) :
    (inner.settle t voided now).1.WellFormed := by
  by_cases hn : t = 0 ∨ inner.IsSettled t
  · rw [settle_noop voided now hn]
    exact h
  · rw [not_or] at hn
    have hset := settled_settle_fresh voided now hn.1 hn.2
    refine ⟨?_, ?_, ?_⟩
    · rw [hset]
      exact tracks_settle_fresh h voided now hn.1 hn.2
    · intro u hu
      rw [hset]
      rcases (failed_settle_fresh voided now hn.1 hn.2 u).mp hu with hf | ⟨rfl, -⟩
      · exact Or.inr (h.failed_settled u hf)
      · exact Or.inl rfl
    · intro u hu
      rw [hset, failed_settle_fresh voided now hn.1 hn.2]
      rw [progress_settle_fresh voided now hn.1 hn.2] at hu
      by_cases he : u = t
      · subst he
        by_contra hcon
        exact hu (if_pos ⟨rfl, fun hf => hcon (Or.inr (Or.inr ⟨rfl, hf⟩))⟩)
      · rw [if_neg fun hc => he hc.1] at hu
        rcases h.progress_live u hu with hl | hf
        · exact Or.inl fun hm => hm.elim he hl
        · exact Or.inr (Or.inl hf)

theorem wellFormed_close (h : inner.WellFormed) : inner.close.1.WellFormed :=
  ⟨h.tracks, h.failed_settled, h.progress_live⟩

end Inner

theorem wellFormed_new (now : Nat) : (CommitLedger.new now).inner.WellFormed := by
  have hs : (CommitLedger.new now).inner.settled = ∅ := by
    ext u
    simp only [Inner.settled, Inner.IsSettled, CommitLedger.new, Finset.notMem_empty, or_false,
      Set.mem_empty_iff_false, iff_false]
    exact fun hu => absurd hu.2 (by have := hu.1; omega)
  refine ⟨?_, fun t ht => absurd ht (Finset.notMem_empty t), fun t ht => absurd rfl ht⟩
  rw [hs]
  exact tracks_empty

theorem wellFormed_locked (h : l.inner.WellFormed) (c : Call) :
    (l.locked c).1.inner.WellFormed := by
  cases c with
  | issue => exact h
  | noteCommitted t n => exact (Inner.wellFormed_note h t n _ : (l.inner.noteCommitted t n).WellFormed)
  | noteDropped t n => exact (Inner.wellFormed_note h t n _ : (l.inner.noteDropped t n).WellFormed)
  | complete t now => exact Inner.wellFormed_settle h t false now
  | void t now => exact Inner.wellFormed_settle h t true now
  | close => exact Inner.wellFormed_close h

theorem wellFormed_run (h : l.inner.WellFormed) (calls : List Call) :
    (l.run calls).inner.WellFormed := by
  induction calls generalizing l with
  | nil => exact h
  | cons c calls ih => exact ih (wellFormed_locked h c)

/-- A settled ticket stays settled. -/
theorem isSettled_locked (h : l.inner.IsSettled t) (c : Call) :
    (l.locked c).1.inner.IsSettled t := by
  cases c with
  | issue | close => exact h
  | noteCommitted u n | noteDropped u n => exact (Inner.isSettled_note l.inner u n _ t).mpr h
  | complete u now => exact (Inner.isSettled_settle l.inner u false now t).mpr (.inl h)
  | void u now => exact (Inner.isSettled_settle l.inner u true now t).mpr (.inl h)

theorem isSettled_void (l : CommitLedger) (t now : Nat) :
    (l.locked (.void t now)).1.inner.IsSettled t :=
  (Inner.isSettled_settle l.inner t true now t).mpr (.inr rfl)

theorem nextTicket_locked (l : CommitLedger) {c : Call} (hc : c ≠ .issue) :
    (l.locked c).1.nextTicket = l.nextTicket := by
  cases c <;> first | exact absurd rfl hc | rfl

theorem nextTicket_le_locked (l : CommitLedger) (c : Call) :
    l.nextTicket ≤ (l.locked c).1.nextTicket := by
  cases c with
  | issue => exact Nat.le_succ _
  | _ => exact le_rfl

/-- Only `close` closes. -/
theorem closed_locked (l : CommitLedger) {c : Call} (hc : c ≠ .close) :
    (l.locked c).1.inner.closed = l.inner.closed := by
  have hsettle : ∀ t voided now, (l.inner.settle t voided now).1.closed = l.inner.closed := by
    intro t voided now
    unfold Inner.settle
    split_ifs
    · rfl
    · rfl
    · exact Inner.advance_closed _ _ _
  cases c with
  | issue => rfl
  | noteCommitted t n | noteDropped t n =>
    exact congrArg Watermark.closed (Inner.watermark_note l.inner t n _)
  | complete t now => exact hsettle t false now
  | void t now => exact hsettle t true now
  | close => exact absurd rfl hc

theorem nextTicket_run (l : CommitLedger) (h : .issue ∉ calls) :
    (l.run calls).nextTicket = l.nextTicket := by
  induction calls generalizing l with
  | nil => rfl
  | cons c calls ih =>
    rw [List.mem_cons, not_or] at h
    rw [CommitLedger.run_cons, ih _ h.2, nextTicket_locked l (Ne.symm h.1)]

theorem closed_run_iff (l : CommitLedger) (calls : List Call) :
    (l.run calls).inner.closed = true ↔ l.inner.closed = true ∨ .close ∈ calls := by
  induction calls generalizing l with
  | nil => simp
  | cons c calls ih =>
    rw [CommitLedger.run_cons, ih, List.mem_cons]
    by_cases hc : c = .close
    · subst hc
      exact ⟨fun _ => Or.inr (Or.inl rfl), fun _ => Or.inl rfl⟩
    · rw [closed_locked l hc]
      simp [Ne.symm hc]

theorem closed_run_of_not_mem (l : CommitLedger) (h : .close ∉ calls) :
    (l.run calls).inner.closed = l.inner.closed := by
  rw [Bool.eq_iff_iff, closed_run_iff]
  exact or_iff_left h

/-- The abstract ledger: one call as ticket `t` sees it. Settled states absorb. -/
def TicketState.after (t : Nat) : TicketState → Call → TicketState
  | .unsettled p, .noteCommitted u n =>
    .unsettled (if u = t ∧ n ≠ 0 then { p with committed := saturatingAdd p.committed n } else p)
  | .unsettled p, .noteDropped u n =>
    .unsettled (if u = t ∧ n ≠ 0 then { p with dropped := saturatingAdd p.dropped n } else p)
  | .unsettled p, .complete u _ =>
    if u = t then (if 0 < p.dropped then .failed p else .completed) else .unsettled p
  | .unsettled p, .void u _ => if u = t then .completed else .unsettled p
  | s, _ => s

section Absorption

variable {s : TicketState}

theorem TicketState.after_of_ne (h : ∀ p, s ≠ .unsettled p) (t : Nat) (c : Call) :
    s.after t c = s := by
  cases s with
  | unsettled p => exact absurd rfl (h p)
  | completed | failed p => cases c <;> rfl

theorem TicketState.foldl_after_of_ne (h : ∀ p, s ≠ .unsettled p) (t : Nat) (calls : List Call) :
    calls.foldl (TicketState.after t) s = s := by
  induction calls with
  | nil => rfl
  | cons c calls ih => rw [List.foldl_cons, TicketState.after_of_ne h, ih]

end Absorption

namespace CommitLedger

variable {u n now : Nat} {f : TicketProgress → TicketProgress}

theorem state_settled (h0 : t ≠ 0) (h : l.inner.IsSettled t) :
    l.state t = if t ∈ l.inner.failed then .failed (l.inner.progressOf t) else .completed := by
  simp only [state, if_neg h0, if_pos h]

theorem state_fresh (hw : l.inner.WellFormed) (h0 : t ≠ 0) (h : ¬ l.inner.IsSettled t) :
    l.state t = .unsettled (l.inner.progressOf t) := by
  have hf : t ∉ l.inner.failed := fun hf => h (hw.failed_settled t hf).2
  simp only [state, if_neg h0, if_neg hf, if_neg h]

theorem state_note_settled (h0 : t ≠ 0) (h : l.inner.IsSettled t) :
    ({ l with inner := l.inner.note u n f } : CommitLedger).state t = l.state t := by
  rw [state_settled h0 h, state_settled h0 ((l.inner.isSettled_note u n f t).mpr h),
    Inner.note_failed, Inner.progressOf_note]
  have hc : ¬ (t = u ∧ u ≠ 0 ∧ n ≠ 0 ∧ ¬ l.inner.IsSettled u) := by
    rintro ⟨rfl, -, -, hn⟩
    exact hn h
  rw [if_neg hc]

theorem state_note_fresh (hw : l.inner.WellFormed) (h0 : t ≠ 0) (h : ¬ l.inner.IsSettled t) :
    ({ l with inner := l.inner.note u n f } : CommitLedger).state t =
      .unsettled (if u = t ∧ n ≠ 0 then f (l.inner.progressOf t) else l.inner.progressOf t) := by
  rw [state_fresh (Inner.wellFormed_note hw u n f) h0 fun hs =>
    h ((l.inner.isSettled_note u n f t).mp hs)]
  rw [Inner.progressOf_note]
  congr 1
  by_cases hc : u = t ∧ n ≠ 0
  · obtain ⟨rfl, hn⟩ := hc
    rw [if_pos ⟨rfl, h0, hn, h⟩, if_pos ⟨rfl, hn⟩]
  · rw [if_neg hc, if_neg fun hu => hc ⟨hu.1.symm, hu.2.2.1⟩]

theorem state_settle_settled {voided : Bool} (h0 : t ≠ 0) (h : l.inner.IsSettled t) :
    ({ l with inner := (l.inner.settle u voided now).1 } : CommitLedger).state t = l.state t := by
  by_cases hn : u = 0 ∨ l.inner.IsSettled u
  · rw [Inner.settle_noop voided now hn]
  · rw [not_or] at hn
    have hne : t ≠ u := fun he => hn.2 (he ▸ h)
    have hs : (l.inner.settle u voided now).1.IsSettled t := by
      rw [Inner.settle_fresh voided now hn.1 hn.2]
      exact (Inner.isSettled_advance _ _ _ _).mpr (Or.inl h)
    rw [state_settled h0 h, state_settled h0 hs]
    simp only [Inner.failed_settle_fresh voided now hn.1 hn.2,
      Inner.progressOf_settle_fresh voided now hn.1 hn.2, hne, false_and, or_false, if_false]

theorem state_settle_fresh (hw : l.inner.WellFormed) {voided : Bool} (h0 : t ≠ 0)
    (h : ¬ l.inner.IsSettled t) :
    ({ l with inner := (l.inner.settle u voided now).1 } : CommitLedger).state t =
      if u = t then
        (if voided = false ∧ 0 < (l.inner.progressOf t).dropped then
          .failed (l.inner.progressOf t) else .completed)
      else .unsettled (l.inner.progressOf t) := by
  by_cases hu : u = t
  · subst hu
    have hs : (l.inner.settle u voided now).1.IsSettled u := by
      rw [Inner.settle_fresh voided now h0 h]
      exact (Inner.isSettled_advance _ _ _ _).mpr (Or.inr rfl)
    have hf : u ∉ l.inner.failed := fun hf => h (hw.failed_settled u hf).2
    rw [if_pos rfl, state_settled h0 hs]
    simp only [Inner.failed_settle_fresh voided now h0 h, hf, false_or, true_and,
      Inner.progressOf_settle_fresh voided now h0 h]
    by_cases hc : voided = false ∧ 0 < (l.inner.progressOf u).dropped
    · rw [if_pos hc, if_neg (not_not_intro hc), if_pos hc]
    · rw [if_neg hc, if_neg hc]
  · rw [if_neg hu]
    by_cases hn : u = 0 ∨ l.inner.IsSettled u
    · rw [Inner.settle_noop voided now hn]
      exact state_fresh hw h0 h
    · rw [not_or] at hn
      have hs : ¬ (l.inner.settle u voided now).1.IsSettled t := by
        rw [Inner.settle_fresh voided now hn.1 hn.2, Inner.isSettled_advance]
        rintro (hs | he)
        · exact h hs
        · exact hu he.symm
      rw [state_fresh (Inner.wellFormed_settle hw u voided now) h0 hs]
      have hc : ¬ (t = u ∧ ¬ (voided = false ∧ 0 < (l.inner.progressOf u).dropped)) :=
        fun hc => hu hc.1.symm
      rw [Inner.progressOf_settle_fresh voided now hn.1 hn.2, if_neg hc]

end CommitLedger

/-- The ledger refines the per-ticket machine: a call changes the state of a
ticket as `TicketState.after` says and of no other ticket. -/
theorem state_locked (hw : l.inner.WellFormed) (c : Call) (t : Nat) :
    (l.locked c).1.state t = (l.state t).after t c := by
  by_cases h0 : t = 0
  · subst h0
    cases c <;> rfl
  by_cases hs : l.inner.IsSettled t
  · have hafter : (l.state t).after t c = l.state t := by
      rw [CommitLedger.state_settled h0 hs]
      split_ifs <;> cases c <;> rfl
    rw [hafter]
    cases c with
    | issue | close => rfl
    | noteCommitted u n | noteDropped u n => exact CommitLedger.state_note_settled h0 hs
    | complete u now | void u now => exact CommitLedger.state_settle_settled h0 hs
  · have hstate := CommitLedger.state_fresh hw h0 hs
    rw [hstate]
    cases c with
    | issue | close => exact hstate
    | noteCommitted u n | noteDropped u n => exact CommitLedger.state_note_fresh hw h0 hs
    | complete u now =>
      refine (CommitLedger.state_settle_fresh hw h0 hs).trans ?_
      simp only [TicketState.after, true_and]
    | void u now =>
      refine (CommitLedger.state_settle_fresh hw h0 hs).trans ?_
      simp only [TicketState.after, Bool.true_eq_false, false_and, if_false]

theorem state_run (hw : l.inner.WellFormed) (calls : List Call) (t : Nat) :
    (l.run calls).state t = calls.foldl (TicketState.after t) (l.state t) := by
  induction calls generalizing l with
  | nil => rfl
  | cons c calls ih =>
    rw [CommitLedger.run_cons, ih (wellFormed_locked hw c), state_locked hw]
    rfl

end OtelSqlite.Core.Commit
