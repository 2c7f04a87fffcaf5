import Mathlib.Data.List.Perm.Basic

/-!
# Entries that come and go

A write adds entries to a bag; if it does not keep all, it first removes some of those that
are there. A sequence of writes therefore says of each entry which writes can have removed
it: those behind the one that added it that do not keep all.
-/

namespace OtelSqlite.Lib

structure Write (α : Type) where
  keeps : Bool
  added : List α

/-- The bag `before` becomes the bag `after` by these writes. -/
inductive Writes {α : Type} : List α → List (Write α) → List α → Prop where
  | done {before after : List α} (h : before.Perm after) : Writes before [] after
  | write {before kept removed after : List α} {w : Write α} {ws : List (Write α)}
      (hbefore : before.Perm (kept ++ removed)) (hkeeps : w.keeps = true → removed = [])
      (hrest : Writes (kept ++ w.added) ws after) : Writes before (w :: ws) after

namespace Writes

variable {α : Type} {before between after : List α} {ws ws' : List (Write α)}

theorem of_perm (hperm : before.Perm between) (h : Writes between ws after) :
    Writes before ws after := by
  cases h with
  | done hdone => exact .done (hperm.trans hdone)
  | write hbefore hkeeps hrest => exact .write (hperm.trans hbefore) hkeeps hrest

theorem append (h : Writes before ws between) (h' : Writes between ws' after) :
    Writes before (ws ++ ws') after := by
  induction h with
  | done hperm => exact h'.of_perm hperm
  | write hbefore hkeeps _ ih => exact .write hbefore hkeeps (ih h')

/-- If all entries are kept, those of all writes are there. -/
theorem perm_of_keeps (h : Writes before ws after) (hkeeps : ∀ w ∈ ws, w.keeps = true) :
    (before ++ ws.flatMap Write.added).Perm after := by
  induction h with
  | done hperm => simpa using hperm
  | @write _ kept removed _ w ws hbefore hnone _ ih =>
    rw [List.forall_mem_cons] at hkeeps
    rw [hnone hkeeps.1, List.append_nil] at hbefore
    refine List.Perm.trans ?_ (ih hkeeps.2)
    rw [List.flatMap_cons, ← List.append_assoc]
    exact (hbefore.append_right _).append_right _

/-- What is added from a write on is there if the writes behind it keep all. -/
theorem added_subperm {w : Write α} (h : Writes before (ws ++ w :: ws') after)
    (hkeeps : ∀ w' ∈ ws', w'.keeps = true) :
    ((w :: ws').flatMap Write.added).Subperm after := by
  induction ws generalizing before with
  | nil =>
    cases h with
    | @write _ kept _ _ _ _ _ _ hrest =>
      have hperm := hrest.perm_of_keeps hkeeps
      rw [List.append_assoc] at hperm
      exact (List.sublist_append_right kept _).subperm.trans hperm.subperm
  | cons _ ws ih =>
    cases h with
    | write _ _ hrest => exact ih hrest

end Writes

end OtelSqlite.Lib
