import Mathlib.Data.List.Basic

/-!
# Sequences of checks and conversions that may fail

Loops in `Except`: a sequence of checks passes exactly when every check passes, and a
conversion of a list that cannot fail on its members is the map of what they become.
-/

namespace OtelSqlite.Lib

variable {α β ε : Type} {f : α → Except ε β}

theorem bind_ok_iff {m : Except ε α} {b : β} :
    (m >>= f) = .ok b ↔ ∃ a, m = .ok a ∧ f a = .ok b := by
  cases m with
  | error e => exact iff_of_false (fun h => by cases h) (fun ⟨_, h, _⟩ => by cases h)
  | ok a =>
    show f a = .ok b ↔ _
    simp

theorem then_ok_iff {m : Except ε Unit} {n : Except ε β} {b : β} :
    (do m; n) = .ok b ↔ m = .ok () ∧ n = .ok b := by
  rw [bind_ok_iff]
  exact ⟨fun ⟨(), hm, hn⟩ => ⟨hm, hn⟩, fun ⟨hm, hn⟩ => ⟨(), hm, hn⟩⟩

theorem forM_ok_iff {f : α → Except ε Unit} {l : List α} :
    l.forM f = .ok () ↔ ∀ a ∈ l, f a = .ok () := by
  induction l with
  | nil => exact iff_of_true rfl (by simp)
  | cons a l ih =>
    show (do f a; l.forM f) = .ok () ↔ _
    rw [then_ok_iff, ih, List.forall_mem_cons]

theorem mapM_ok_of_forall {g : α → β} {l : List α} (h : ∀ a ∈ l, f a = .ok (g a)) :
    l.mapM f = .ok (l.map g) := by
  induction l with
  | nil => rfl
  | cons a l ih =>
    rw [List.forall_mem_cons] at h
    rw [List.mapM_cons, h.1, ih h.2]
    rfl

end OtelSqlite.Lib
