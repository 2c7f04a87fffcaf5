import Mathlib.Data.Finset.Card
import Mathlib.Logic.Function.Basic

/-!
# Permits of a semaphore and who holds them

A semaphore is a number of free permits. Parties are automata whose state says whether they
hold a permit; a step of one party says what it does with the permits (`Use`). If every step
says the truth, the free permits and the holders always add up to the capacity.
-/

namespace OtelSqlite.Lib

structure Permits where
  available : Nat
  deriving DecidableEq, Repr

/-- What a step does with the permits. -/
inductive Use where
  | keep
  | take
  | give
  deriving DecidableEq, Repr

namespace Permits

/-- `none` if there is no permit to take. -/
def apply (p : Permits) : Use → Option Permits
  | .keep => some p
  | .take => if 0 < p.available then some ⟨p.available - 1⟩ else none
  | .give => some ⟨p.available + 1⟩

variable {ι σ : Type} {capacity : Nat} {p p' : Permits}

/-- The parties that hold one of the permits are those with `held`. -/
def Lent (capacity : Nat) (held : ι → Prop) (p : Permits) : Prop :=
  ∃ holders : Finset ι, (∀ i, i ∈ holders ↔ held i) ∧ p.available + holders.card = capacity

/-- Nobody holds a permit at the start. -/
theorem lent_new {held : ι → Prop} (h : ∀ i, ¬held i) : Lent capacity held ⟨capacity⟩ :=
  ⟨∅, fun i => iff_of_false (Finset.notMem_empty i) (h i), by simp⟩

end Permits

/-- The use is what happens to a party that holds a permit before or after its step. -/
def Use.Fits (before after : Prop) : Use → Prop
  | .keep => before ↔ after
  | .take => ¬before ∧ after
  | .give => before ∧ ¬after

namespace Permits

variable {ι σ : Type} [DecidableEq ι] {capacity : Nat} {p p' : Permits} {held : σ → Prop}
  {parties : ι → σ}

theorem Lent.apply (h : p.Lent capacity fun j => held (parties j)) {i : ι} {next : σ} {use : Use}
    (hfits : use.Fits (held (parties i)) (held next)) (hp : p.apply use = some p') :
    p'.Lent capacity fun j => held (Function.update parties i next j) := by
  obtain ⟨holders, hiff, hcard⟩ := h
  have hother : ∀ {j}, j ≠ i → (held (Function.update parties i next j) ↔ held (parties j)) := by
    intro j hj
    rw [Function.update_of_ne hj]
  have hself : held (Function.update parties i next i) ↔ held next := by
    rw [Function.update_self]
  cases use with
  | keep =>
    obtain rfl := Option.some.inj hp
    refine ⟨holders, fun j => ?_, hcard⟩
    by_cases hj : j = i
    · subst hj
      exact (hiff j).trans (Iff.trans hfits hself.symm)
    · exact (hiff j).trans (hother hj).symm
  | take =>
    have hi : i ∉ holders := fun hmem => hfits.1 ((hiff i).mp hmem)
    simp only [Permits.apply] at hp
    split at hp
    · next hpos =>
      obtain rfl := Option.some.inj hp
      refine ⟨insert i holders, fun j => ?_, ?_⟩
      · rw [Finset.mem_insert]
        by_cases hj : j = i
        · subst hj
          exact iff_of_true (Or.inl rfl) (hself.mpr hfits.2)
        · exact ((or_iff_right hj).trans (hiff j)).trans (hother hj).symm
      · rw [Finset.card_insert_of_notMem hi]
        show p.available - 1 + (holders.card + 1) = capacity
        omega
    · cases hp
  | give =>
    have hi : i ∈ holders := (hiff i).mpr hfits.1
    obtain rfl := Option.some.inj hp
    refine ⟨holders.erase i, fun j => ?_, ?_⟩
    · rw [Finset.mem_erase]
      by_cases hj : j = i
      · subst hj
        exact iff_of_false (fun hne => hne.1 rfl) fun hn => hfits.2 (hself.mp hn)
      · exact ((and_iff_right hj).trans (hiff j)).trans (hother hj).symm
    · rw [Finset.card_erase_of_mem hi]
      have := Finset.card_pos.mpr ⟨i, hi⟩
      show p.available + 1 + (holders.card - 1) = capacity
      omega

section One

variable {ι : Type} {held : ι → Prop} {p : Permits}

/-- A single permit has one holder. -/
theorem Lent.holder_unique (h : p.Lent 1 held) {i j : ι} (hi : held i) (hj : held j) : i = j := by
  obtain ⟨holders, hiff, hcard⟩ := h
  have hle : holders.card ≤ 1 := by omega
  exact Finset.card_le_one.mp hle i ((hiff i).mpr hi) j ((hiff j).mpr hj)

/-- It is gone exactly while somebody holds it. -/
theorem Lent.taken_iff (h : p.Lent 1 held) : p.available = 0 ↔ ∃ i, held i := by
  obtain ⟨holders, hiff, hcard⟩ := h
  constructor
  · intro hnone
    have hpos : 0 < holders.card := by omega
    obtain ⟨i, hi⟩ := Finset.card_pos.mp hpos
    exact ⟨i, (hiff i).mp hi⟩
  · rintro ⟨i, hi⟩
    have hpos := Finset.card_pos.mpr ⟨i, (hiff i).mpr hi⟩
    omega

end One

end Permits

end OtelSqlite.Lib
