import Mathlib.Data.Finset.Card
import Mathlib.Order.Bounds.Basic
import Mathlib.Order.Interval.Finset.Nat

/-!
# Contiguous prefixes of a growing set of numbers

A set of positive numbers is stored as a contiguous part `1..through` and the
finite set of members parked above it. `Tracks` says that such a pair
represents a set exactly; `absorb` is the sweep that moves parked numbers into
the contiguous part once their predecessor has arrived.
-/

namespace OtelSqlite.Lib.Contiguous

/-- Every number from one to `n` is a member. -/
def Covered (s : Set Nat) (n : Nat) : Prop := ∀ t, 1 ≤ t → t ≤ n → t ∈ s

theorem isGreatest_covered {s : Set Nat} {n : Nat} (hc : Covered s n) (hn : n + 1 ∉ s) :
    IsGreatest {m | Covered s m} n := by
  refine ⟨hc, fun m hm => ?_⟩
  by_contra hlt
  exact hn (hm (n + 1) (by omega) (by omega))

/-- Take parked successors into the contiguous part for as long as there are any. -/
def absorb (parked : Finset Nat) (through : Nat) : Finset Nat × Nat :=
  if h : through + 1 ∈ parked then absorb (parked.erase (through + 1)) (through + 1)
  else (parked, through)
termination_by parked.card
decreasing_by exact Finset.card_erase_lt_of_mem h

/-- The pair stores exactly the set `s`, and its contiguous part cannot grow. -/
structure Tracks (s : Set Nat) (through : Nat) (parked : Finset Nat) : Prop where
  covered : Covered s through
  parked_iff : ∀ t, t ∈ parked ↔ t ∈ s ∧ through < t
  gap : through + 1 ∉ parked

theorem tracks_empty : Tracks ∅ 0 ∅ where
  covered := fun t h1 ht => by omega
  parked_iff := by simp
  gap := by simp

theorem tracks_absorb {s : Set Nat} (parked : Finset Nat) (through : Nat)
    (hc : Covered s through) (hp : ∀ t, t ∈ parked ↔ t ∈ s ∧ through < t) :
    Tracks s (absorb parked through).2 (absorb parked through).1 := by
  fun_induction absorb parked through with
  | case1 parked through hin ih =>
    have hs := ((hp (through + 1)).mp hin).1
    apply ih
    · intro t h1 ht
      by_cases he : t = through + 1
      · exact he ▸ hs
      · exact hc t h1 (by omega)
    · intro t
      rw [Finset.mem_erase, hp t]
      constructor
      · rintro ⟨hne, ht, hlt⟩
        exact ⟨ht, by omega⟩
      · rintro ⟨ht, hlt⟩
        exact ⟨by omega, ht, by omega⟩
  | case2 parked through hout => exact ⟨hc, hp, hout⟩

theorem le_absorb (parked : Finset Nat) (through : Nat) : through ≤ (absorb parked through).2 := by
  fun_induction absorb parked through with
  | case1 parked through hin ih => exact (Nat.le_succ _).trans ih
  | case2 parked through hout => exact le_rfl

/-- The sweep moves numbers between the two parts and loses none. -/
theorem mem_absorb_iff (parked : Finset Nat) (through t : Nat) :
    t ≤ (absorb parked through).2 ∨ t ∈ (absorb parked through).1 ↔ t ≤ through ∨ t ∈ parked := by
  fun_induction absorb parked through with
  | case1 parked through hin ih =>
    rw [ih, Finset.mem_erase]
    by_cases he : t = through + 1
    · subst he
      simp [hin]
    · have hle : t ≤ through + 1 ↔ t ≤ through := by omega
      simp [hle, he]
  | case2 parked through hout => exact Iff.rfl

namespace Tracks

variable {s : Set Nat} {through : Nat} {parked : Finset Nat}

section

variable (h : Tracks s through parked)
include h

theorem mem_iff {t : Nat} (ht : 0 < t) : t ∈ s ↔ t ≤ through ∨ t ∈ parked := by
  constructor
  · intro hs
    by_cases hle : t ≤ through
    · exact Or.inl hle
    · exact Or.inr ((h.parked_iff t).mpr ⟨hs, by omega⟩)
  · rintro (hle | hp)
    · exact h.covered t ht hle
    · exact ((h.parked_iff t).mp hp).1

theorem next_notMem : through + 1 ∉ s :=
  fun hs => h.gap ((h.parked_iff _).mpr ⟨hs, Nat.lt_succ_self _⟩)

theorem isGreatest : IsGreatest {m | Covered s m} through :=
  isGreatest_covered h.covered h.next_notMem

/-- Parking a number above the successor of the contiguous part. -/
theorem park {t : Nat} (ht : through + 1 < t) : Tracks (insert t s) through (insert t parked) where
  covered := fun u h1 hu => Or.inr (h.covered u h1 hu)
  parked_iff := by
    intro u
    rw [Finset.mem_insert, Set.mem_insert_iff, h.parked_iff u]
    constructor
    · rintro (rfl | ⟨hu, hlt⟩)
      · exact ⟨Or.inl rfl, by omega⟩
      · exact ⟨Or.inr hu, hlt⟩
    · rintro ⟨rfl | hu, hlt⟩
      · exact Or.inl rfl
      · exact Or.inr ⟨hu, hlt⟩
  gap := by
    rw [Finset.mem_insert, not_or]
    exact ⟨by omega, h.gap⟩

/-- The successor of the contiguous part arrives: it and everything parked
directly above it join the contiguous part. -/
theorem advance :
    Tracks (insert (through + 1) s) (absorb parked (through + 1)).2
      (absorb parked (through + 1)).1 := by
  apply tracks_absorb
  · intro t h1 ht
    by_cases he : t = through + 1
    · exact Or.inl he
    · exact Or.inr (h.covered t h1 (by omega))
  · intro t
    rw [Set.mem_insert_iff, h.parked_iff t]
    constructor
    · rintro ⟨hs, hlt⟩
      have hne : t ≠ through + 1 := fun he => h.next_notMem (he ▸ hs)
      exact ⟨Or.inr hs, by omega⟩
    · rintro ⟨he | hs, hlt⟩
      · omega
      · exact ⟨hs, by omega⟩

/-- The members of a bounded set are counted by the two parts of the pair. -/
theorem card_eq {m : Nat} (hs : ∀ t ∈ s, 0 < t ∧ t ≤ m) [DecidablePred (· ∈ s)] :
    ((Finset.Icc 1 m).filter (· ∈ s)).card = through + parked.card := by
  have hle : through ≤ m := by
    rcases Nat.eq_zero_or_pos through with h0 | hpos
    · omega
    · exact (hs through (h.covered through hpos le_rfl)).2
  have hsplit : (Finset.Icc 1 m).filter (· ∈ s) = Finset.Icc 1 through ∪ parked := by
    ext t
    simp only [Finset.mem_filter, Finset.mem_Icc, Finset.mem_union]
    constructor
    · rintro ⟨⟨h1, hm⟩, ht⟩
      rcases (h.mem_iff h1).mp ht with hle | hp
      · exact Or.inl ⟨h1, hle⟩
      · exact Or.inr hp
    · rintro (⟨h1, hle'⟩ | hp)
      · exact ⟨⟨h1, hle'.trans hle⟩, h.covered t h1 hle'⟩
      · have ht := ((h.parked_iff t).mp hp).1
        exact ⟨hs t ht, ht⟩
  have hdis : Disjoint (Finset.Icc 1 through) parked := by
    rw [Finset.disjoint_left]
    intro t ht hp
    have hlt := ((h.parked_iff t).mp hp).2
    have := (Finset.mem_Icc.mp ht).2
    omega
  rw [hsplit, Finset.card_union_of_disjoint hdis, Nat.card_Icc, Nat.add_sub_cancel]

end

end Tracks

end OtelSqlite.Lib.Contiguous
