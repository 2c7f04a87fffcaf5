import Mathlib.Data.List.Perm.Basic

/-!
# Consecutive entries of a history

A history is a list that only grows at its end. The entries with a property `p`
are consecutive if they form one block; the block can still grow while it is the
end of the history. Entries selected by a list of keys group by key.
-/

namespace OtelSqlite.Lib.History

variable {α : Type*} {p : α → Bool} {l : List α}

def Consecutive (p : α → Bool) (l : List α) : Prop :=
  ∃ before after, l = before ++ l.filter p ++ after ∧ (∀ x ∈ before, p x = false) ∧
    ∀ x ∈ after, p x = false

/-- The block of `p` is the end of the history. -/
def Trailing (p : α → Bool) (l : List α) : Prop :=
  ∃ before, l = before ++ l.filter p ∧ ∀ x ∈ before, p x = false

theorem trailing_of_none (h : ∀ x ∈ l, p x = false) : Trailing p l := by
  have hnil : l.filter p = [] := List.filter_eq_nil_iff.mpr fun x hx => by simp [h x hx]
  exact ⟨l, by rw [hnil, List.append_nil], h⟩

theorem Trailing.consecutive (h : Trailing p l) : Consecutive p l := by
  obtain ⟨before, hl, hb⟩ := h
  exact ⟨before, [], by rw [List.append_nil]; exact hl, hb, fun x hx => absurd hx List.not_mem_nil⟩

theorem Trailing.concat (h : Trailing p l) {x : α} (hx : p x = true) : Trailing p (l ++ [x]) := by
  obtain ⟨before, hl, hb⟩ := h
  refine ⟨before, ?_, hb⟩
  rw [List.filter_append, List.filter_cons_of_pos hx, List.filter_nil, ← List.append_assoc, ← hl]

theorem Consecutive.concat (h : Consecutive p l) {x : α} (hx : p x = false) :
    Consecutive p (l ++ [x]) := by
  obtain ⟨before, after, hl, hb, ha⟩ := h
  refine ⟨before, after ++ [x], ?_, hb, ?_⟩
  · rw [List.filter_append, List.filter_cons_of_neg (by simp [hx]), List.filter_nil,
      List.append_nil, ← List.append_assoc, ← hl]
  · intro y hy
    rcases List.mem_append.mp hy with hy | hy
    · exact ha y hy
    · rw [List.mem_singleton.mp hy]
      exact hx

theorem filter_perm_flatMap {κ : Type*} [DecidableEq κ] (key : α → κ) (l : List α) {ks : List κ}
    (hk : ks.Nodup) :
    (l.filter fun a => key a ∈ ks).Perm (ks.flatMap fun k => l.filter fun a => key a = k) := by
  induction ks with
  | nil => simp
  | cons k ks ih =>
    obtain ⟨hnot, hrest⟩ := List.nodup_cons.mp hk
    have hsplit := List.filter_append_perm (fun a => decide (key a = k))
      (l.filter fun a => key a ∈ k :: ks)
    rw [List.filter_filter, List.filter_filter] at hsplit
    refine hsplit.symm.trans
      (List.Perm.append (List.Perm.of_eq ?_) ((List.Perm.of_eq ?_).trans (ih hrest)))
    · refine List.filter_congr fun a _ => ?_
      by_cases h : key a = k <;> simp [h]
    · refine List.filter_congr fun a _ => ?_
      by_cases h : key a = k
      · simp [h, hnot]
      · simp [h]

end OtelSqlite.Lib.History
