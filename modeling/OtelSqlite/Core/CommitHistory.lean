import Mathlib.Data.Set.Card
import Mathlib.Data.List.Infix
import OtelSqlite.Core.CommitState

/-!
# The ledger as a function of its call history

What the stored sets mean is read off the calls alone: which tickets a `complete`
or `void` settled, which were settled by a `complete` with quarantined records,
and which were handed out. `Records` ties a ledger to such a history; one call
preserves it, so every ledger a sequence of calls builds satisfies it.
-/

namespace OtelSqlite.Core.Commit

open OtelSqlite.Lib.Contiguous

variable {calls : List Call} {c : Call} {t u : Nat} {inner : Inner} {l : CommitLedger}

def Call.Settles (t : Nat) : Call → Prop
  | .complete u _ => u = t
  | .void u _ => u = t
  | _ => False

def Call.droppedOf (t : Nat) : Call → Nat
  | .noteDropped u n => if u = t then n else 0
  | _ => 0

/-- Some `complete` or `void` call settled the ticket; ticket zero never is. -/
def SettledIn (calls : List Call) (t : Nat) : Prop := 0 < t ∧ ∃ c ∈ calls, c.Settles t

/-- The quarantined records the calls report for the ticket, without saturation. -/
def droppedCount (calls : List Call) (t : Nat) : Nat := (calls.map (Call.droppedOf t)).sum

/-- The call that settled the ticket was a `complete`, made after some of its
records had been reported as dropped. -/
def FailedIn (calls : List Call) (t : Nat) : Prop :=
  0 < t ∧ ∃ before now, before ++ [.complete t now] <+: calls ∧ ¬ SettledIn before t ∧
    0 < droppedCount before t

/-- One of the `issue` calls returned the ticket. -/
def IssuedIn (start : Nat) (calls : List Call) (t : Nat) : Prop :=
  ∃ before, before ++ [.issue] <+: calls ∧ t = ((CommitLedger.new start).run before).issue.2

theorem settledIn_concat :
    SettledIn (calls ++ [c]) t ↔ SettledIn calls t ∨ 0 < t ∧ c.Settles t := by
  simp only [SettledIn, List.mem_append, List.mem_singleton, or_and_right, exists_or,
    exists_eq_left, and_or_left]

theorem droppedCount_concat (calls : List Call) (c : Call) (t : Nat) :
    droppedCount (calls ++ [c]) t = droppedCount calls t + c.droppedOf t := by
  simp [droppedCount]

theorem failedIn_concat :
    FailedIn (calls ++ [c]) t ↔ FailedIn calls t ∨
      0 < t ∧ (∃ now, c = .complete t now) ∧ ¬ SettledIn calls t ∧ 0 < droppedCount calls t := by
  constructor
  · rintro ⟨ht, before, now, hp, hs, hd⟩
    rcases List.prefix_concat_iff.mp hp with he | hp
    · obtain ⟨rfl, hc⟩ := List.append_inj' he rfl
      exact Or.inr ⟨ht, ⟨now, (List.singleton_inj.mp hc).symm⟩, hs, hd⟩
    · exact Or.inl ⟨ht, before, now, hp, hs, hd⟩
  · rintro (⟨ht, before, now, hp, hs, hd⟩ | ⟨ht, ⟨now, rfl⟩, hs, hd⟩)
    · exact ⟨ht, before, now, hp.trans (List.prefix_append _ _), hs, hd⟩
    · exact ⟨ht, calls, now, List.prefix_rfl, hs, hd⟩

theorem issuedIn_concat {start : Nat} :
    IssuedIn start (calls ++ [c]) t ↔ IssuedIn start calls t ∨
      c = .issue ∧ t = ((CommitLedger.new start).run calls).issue.2 := by
  constructor
  · rintro ⟨before, hp, ht⟩
    rcases List.prefix_concat_iff.mp hp with he | hp
    · obtain ⟨rfl, hc⟩ := List.append_inj' he rfl
      exact Or.inr ⟨(List.singleton_inj.mp hc).symm, ht⟩
    · exact Or.inl ⟨before, hp, ht⟩
  · rintro (⟨before, hp, ht⟩ | ⟨rfl, ht⟩)
    · exact ⟨before, hp.trans (List.prefix_append _ _), ht⟩
    · exact ⟨calls, List.prefix_rfl, ht⟩

/-- The inner state holds what the calls say. -/
structure Records (calls : List Call) (inner : Inner) : Prop where
  wellFormed : inner.WellFormed
  settled_iff : ∀ t, t ∈ inner.settled ↔ SettledIn calls t
  failed_iff : ∀ t, t ∈ inner.failed ↔ FailedIn calls t
  dropped_iff : ∀ t, t ≠ 0 → ¬ inner.IsSettled t →
    (0 < (inner.progressOf t).dropped ↔ 0 < droppedCount calls t)

theorem records_new (start : Nat) : Records [] (CommitLedger.new start).inner where
  wellFormed := wellFormed_new start
  settled_iff := by
    intro t
    simp only [Inner.settled, Inner.IsSettled, CommitLedger.new, SettledIn, List.not_mem_nil,
      false_and, exists_false, and_false, iff_false]
    rintro ⟨h1, h2 | h2⟩
    · exact absurd h1 h2.not_gt
    · exact absurd h2 (Finset.notMem_empty t)
  failed_iff := by
    intro t
    simp [CommitLedger.new, FailedIn]
  dropped_iff := by
    intro t _ _
    simp [CommitLedger.new, Inner.progressOf, droppedCount]

/-- A call that settles nothing and only adds to the notes of open tickets. -/
theorem Records.note (h : Records calls inner) {n : Nat} {f : TicketProgress → TicketProgress}
    (hc : ∀ t, ¬ c.Settles t) (hf : ∀ p, 0 < (f p).dropped ↔ 0 < p.dropped + c.droppedOf u)
    (hn : n = 0 → c.droppedOf u = 0) (hu : ∀ t, t ≠ u → c.droppedOf t = 0) :
    Records (calls ++ [c]) (inner.note u n f) where
  wellFormed := Inner.wellFormed_note h.wellFormed u n f
  settled_iff := by
    intro t
    rw [settledIn_concat, ← h.settled_iff t]
    simp only [Inner.settled, hc, and_false, or_false]
    exact and_congr_right fun _ => Inner.isSettled_note inner u n f t
  failed_iff := by
    intro t
    have hne : ¬ ∃ now, c = .complete t now := by
      rintro ⟨now, rfl⟩
      exact hc t rfl
    rw [failedIn_concat, ← h.failed_iff t, Inner.note_failed]
    tauto
  dropped_iff := by
    intro t h0 hs
    rw [Inner.isSettled_note] at hs
    have hd := h.dropped_iff t h0 hs
    rw [Inner.progressOf_note, droppedCount_concat]
    split_ifs with hcase
    · obtain ⟨rfl, -⟩ := hcase
      rw [hf]
      omega
    · by_cases he : t = u
      · subst he
        have hzero : n = 0 := by
          by_contra hpos
          exact hcase ⟨rfl, h0, hpos, hs⟩
        rw [hn hzero, Nat.add_zero]
        exact hd
      · rw [hu t he, Nat.add_zero]
        exact hd

theorem Records.settle (h : Records calls inner) {now : Nat} {voided : Bool}
    (hc : ∀ t, c.Settles t ↔ u = t)
    (hv : ∀ t, (∃ at', c = .complete t at') ↔ u = t ∧ voided = false) (hd : ∀ t, c.droppedOf t = 0)
    :
    Records (calls ++ [c]) (inner.settle u voided now).1 where
  wellFormed := Inner.wellFormed_settle h.wellFormed u voided now
  settled_iff := by
    intro t
    rw [settledIn_concat, ← h.settled_iff t, hc]
    by_cases hn : u = 0 ∨ inner.IsSettled u
    · rw [Inner.settle_noop voided now hn]
      refine ⟨Or.inl, ?_⟩
      rintro (ht | ⟨ht, rfl⟩)
      · exact ht
      · exact ⟨ht, hn.resolve_left ht.ne'⟩
    · rw [not_or] at hn
      rw [Inner.settled_settle_fresh voided now hn.1 hn.2, Set.mem_insert_iff]
      have hpos : u = t → 0 < t := by
        rintro rfl
        exact Nat.pos_of_ne_zero hn.1
      tauto
  failed_iff := by
    intro t
    rw [failedIn_concat, ← h.failed_iff t, ← h.settled_iff t, hv]
    by_cases hn : u = 0 ∨ inner.IsSettled u
    · rw [Inner.settle_noop voided now hn]
      refine ⟨Or.inl, ?_⟩
      rintro (ht | ⟨ht, ⟨rfl, -⟩, hs, -⟩)
      · exact ht
      · exact absurd ⟨ht, hn.resolve_left ht.ne'⟩ hs
    · rw [not_or] at hn
      rw [Inner.failed_settle_fresh voided now hn.1 hn.2, h.dropped_iff u hn.1 hn.2]
      have hs : u ∉ inner.settled := fun hm => hn.2 hm.2
      have hpos := Nat.pos_of_ne_zero hn.1
      constructor
      · rintro (hf | ⟨rfl, hrest⟩)
        · exact Or.inl hf
        · exact Or.inr ⟨hpos, ⟨rfl, hrest.1⟩, hs, hrest.2⟩
      · rintro (hf | ⟨-, ⟨rfl, hvo⟩, -, hdr⟩)
        · exact Or.inl hf
        · exact Or.inr ⟨rfl, hvo, hdr⟩
  dropped_iff := by
    intro t h0 hs
    rw [droppedCount_concat, hd, Nat.add_zero]
    by_cases hn : u = 0 ∨ inner.IsSettled u
    · rw [Inner.settle_noop voided now hn] at hs ⊢
      exact h.dropped_iff t h0 hs
    · rw [not_or] at hn
      rw [Inner.settle_fresh voided now hn.1 hn.2, Inner.isSettled_advance, not_or] at hs
      have hne : ¬ (t = u ∧ ¬ (voided = false ∧ 0 < (inner.progressOf u).dropped)) :=
        fun he => hs.2 he.1
      rw [Inner.progressOf_settle_fresh voided now hn.1 hn.2, if_neg hne]
      exact h.dropped_iff t h0 hs.1

/-- A call that touches neither the settled tickets nor the notes. -/
theorem Records.other {inner' : Inner} (h : Records calls inner) (hc : ∀ t, ¬ c.Settles t)
    (hd : ∀ t, c.droppedOf t = 0) (he : inner' = { inner with closed := inner'.closed }) :
    Records (calls ++ [c]) inner' := by
  rw [he]
  refine ⟨⟨h.wellFormed.tracks, h.wellFormed.failed_settled, h.wellFormed.progress_live⟩,
    fun t => ?_, fun t => ?_, fun t h0 hs => ?_⟩
  · rw [settledIn_concat, ← h.settled_iff t]
    simp only [hc, and_false, or_false]
    exact Iff.rfl
  · have hne : ¬ ∃ now, c = .complete t now := by
      rintro ⟨now, rfl⟩
      exact hc t rfl
    rw [failedIn_concat, ← h.failed_iff t]
    tauto
  · rw [droppedCount_concat, hd, Nat.add_zero]
    exact h.dropped_iff t h0 hs

theorem records_locked (h : Records calls l.inner) (c : Call) :
    Records (calls ++ [c]) (l.locked c).1.inner := by
  cases c with
  | issue | close => exact h.other (fun _ => id) (fun _ => rfl) rfl
  | noteCommitted u n =>
    change Records (calls ++ [.noteCommitted u n]) (l.inner.noteCommitted u n)
    unfold Inner.noteCommitted
    exact h.note (fun _ => id) (fun _ => Iff.rfl) (fun _ => rfl) (fun _ _ => rfl)
  | noteDropped u n =>
    change Records (calls ++ [.noteDropped u n]) (l.inner.noteDropped u n)
    unfold Inner.noteDropped
    refine h.note (fun _ => id) (fun p => ?_) (fun hn => ?_) (fun t ht => if_neg ht.symm)
    · simp only [Call.droppedOf, if_pos, saturatingAdd_pos]
    · simp only [Call.droppedOf, if_pos, hn]
  | complete u now =>
    refine h.settle (fun _ => Iff.rfl) (fun t => ?_) (fun _ => rfl)
    simp only [Call.complete.injEq, exists_and_left, exists_eq', and_true]
  | void u now =>
    refine h.settle (fun _ => Iff.rfl) (fun t => ?_) (fun _ => rfl)
    simp only [reduceCtorEq, exists_false, Bool.true_eq_false, and_false]

theorem records_run (start : Nat) (calls : List Call) :
    Records calls ((CommitLedger.new start).run calls).inner := by
  induction calls using List.reverseRecOn with
  | nil => exact records_new start
  | append_singleton calls c ih =>
    rw [CommitLedger.run_append]
    exact records_locked ih c

theorem issuedIn_iff (start : Nat) (calls : List Call) (t : Nat) :
    IssuedIn start calls t ↔ 1 ≤ t ∧ t ≤ ((CommitLedger.new start).run calls).nextTicket := by
  induction calls using List.reverseRecOn with
  | nil =>
    simp only [IssuedIn, List.prefix_nil, List.append_eq_nil_iff, List.cons_ne_nil, and_false,
      false_and, exists_false, CommitLedger.run_nil, CommitLedger.new, false_iff]
    omega
  | append_singleton calls c ih =>
    rw [issuedIn_concat, ih, CommitLedger.run_append]
    cases c with
    | issue =>
      simp only [CommitLedger.run_cons, CommitLedger.run_nil, CommitLedger.locked,
        CommitLedger.issue, true_and]
      omega
    | _ => simp only [CommitLedger.run_cons, CommitLedger.run_nil, CommitLedger.locked,
        reduceCtorEq, false_and, or_false]

/-- The saturating subtractions of `outstanding_tickets` count the open tickets, as long
as only issued ones are settled. -/
theorem outstandingTickets_eq_ncard (hw : l.inner.WellFormed)
    (h : ∀ t ∈ l.inner.settled, t ≤ l.nextTicket) :
    l.outstandingTickets = {t | (1 ≤ t ∧ t ≤ l.nextTicket) ∧ t ∉ l.inner.settled}.ncard := by
  classical
  have hcard := hw.tracks.card_eq fun t ht => ⟨ht.1, h t ht⟩
  have hset : {t | (1 ≤ t ∧ t ≤ l.nextTicket) ∧ t ∉ l.inner.settled} =
      ((Finset.Icc 1 l.nextTicket).filter (· ∉ l.inner.settled) : Set Nat) := by
    ext t
    simp only [Set.mem_ofPred_eq, Finset.coe_filter, Finset.mem_Icc]
  have hsplit := Finset.card_filter_add_card_filter_not (s := Finset.Icc 1 l.nextTicket)
    (· ∈ l.inner.settled)
  rw [Nat.card_Icc, Nat.add_sub_cancel, hcard] at hsplit
  rw [hset, Set.ncard_coe_finset, CommitLedger.outstandingTickets]
  omega

theorem outstandingTickets_pos_iff (hw : l.inner.WellFormed)
    (h : ∀ t ∈ l.inner.settled, t ≤ l.nextTicket) :
    0 < l.outstandingTickets ↔ ∃ t, 1 ≤ t ∧ t ≤ l.nextTicket ∧ ¬ l.inner.IsSettled t := by
  have hfinite : {t | (1 ≤ t ∧ t ≤ l.nextTicket) ∧ t ∉ l.inner.settled}.Finite :=
    (Set.finite_Icc 1 l.nextTicket).subset fun _ hu => hu.1
  rw [outstandingTickets_eq_ncard hw h, Set.ncard_pos hfinite]
  constructor
  · rintro ⟨t, ⟨h1, hn⟩, hs⟩
    exact ⟨t, h1, hn, fun hm => hs ⟨h1, hm⟩⟩
  · rintro ⟨t, h1, hn, hs⟩
    exact ⟨t, ⟨h1, hn⟩, fun hm => hs hm.2⟩

theorem outstandingTickets_eq (start : Nat) (calls : List Call)
    (h : ∀ t, SettledIn calls t → IssuedIn start calls t) :
    ((CommitLedger.new start).run calls).outstandingTickets =
      {t | IssuedIn start calls t ∧ ¬ SettledIn calls t}.ncard := by
  have hr := records_run start calls
  rw [outstandingTickets_eq_ncard hr.wellFormed fun t ht =>
    ((issuedIn_iff start calls t).mp (h t ((hr.settled_iff t).mp ht))).2]
  simp only [issuedIn_iff, ← hr.settled_iff]

/-- A call settles its ticket and no other. -/
theorem isSettled_locked_iff (l : CommitLedger) (c : Call) (t : Nat) :
    (l.locked c).1.inner.IsSettled t ↔ l.inner.IsSettled t ∨ c.Settles t := by
  cases c with
  | issue | close => exact (or_iff_left id).symm
  | noteCommitted u n | noteDropped u n =>
    exact (Inner.isSettled_note l.inner u n _ t).trans (or_iff_left id).symm
  | complete u now =>
    exact (Inner.isSettled_settle l.inner u false now t).trans (or_congr_right eq_comm)
  | void u now =>
    exact (Inner.isSettled_settle l.inner u true now t).trans (or_congr_right eq_comm)

/-- **The ledger's representation invariant**, for any calls with any tickets,
counts and clock readings. -/
theorem ledger_representation (start : Nat) (calls : List Call) :
    let l := (CommitLedger.new start).run calls
    IsGreatest {n | ∀ t, 1 ≤ t → t ≤ n → SettledIn calls t} l.inner.committedThrough ∧
    (∀ t, t ∈ l.inner.settledAbove ↔ SettledIn calls t ∧ l.inner.committedThrough < t) ∧
    l.inner.committedThrough + 1 ∉ l.inner.settledAbove ∧
    (∀ t, t ∈ l.inner.failed ↔ FailedIn calls t) ∧
    (∀ t, l.inner.progress t ≠ none → ¬ SettledIn calls t ∨ FailedIn calls t) ∧
    ((∀ t, SettledIn calls t → IssuedIn start calls t) →
      l.outstandingTickets = {t | IssuedIn start calls t ∧ ¬ SettledIn calls t}.ncard) := by
  intro l
  have hr := records_run start calls
  have hset : l.inner.settled = {t | SettledIn calls t} := Set.ext hr.settled_iff
  have ht := hr.wellFormed.tracks
  refine ⟨?_, ?_, ht.gap, hr.failed_iff, ?_, outstandingTickets_eq start calls⟩
  · have hg := ht.isGreatest
    rw [hset] at hg
    exact hg
  · intro t
    rw [ht.parked_iff t, hset]
    exact Iff.rfl
  · intro t hp
    rcases hr.wellFormed.progress_live t hp with hn | hf
    · exact Or.inl fun hs => hn ((hr.settled_iff t).mpr hs)
    · exact Or.inr ((hr.failed_iff t).mp hf)

/-- Ticket 2 settles before ticket 1: one issued ticket stays open. -/
theorem ledger_representation_parked :
    let calls : List Call := [.issue, .issue, .noteDropped 2 3, .complete 2 7]
    (∀ t, SettledIn calls t → IssuedIn 0 calls t) ∧
    1 = {t | IssuedIn 0 calls t ∧ ¬ SettledIn calls t}.ncard := by
  intro calls
  have hissued : ∀ t, SettledIn calls t → IssuedIn 0 calls t := by
    rintro t ⟨-, c, hc, hs⟩
    rw [issuedIn_iff]
    simp only [calls, List.mem_cons, List.not_mem_nil, or_false] at hc
    rcases hc with rfl | rfl | rfl | rfl
    · exact hs.elim
    · exact hs.elim
    · exact hs.elim
    · obtain rfl : 2 = t := hs
      decide +kernel
  refine ⟨hissued, Eq.trans ?_ ((ledger_representation 0 calls).2.2.2.2.2 hissued)⟩
  decide +kernel

end OtelSqlite.Core.Commit
