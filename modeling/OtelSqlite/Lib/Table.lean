import Mathlib.Data.List.Basic
import Mathlib.Data.List.Nodup
import Mathlib.Data.List.Perm.Subperm

/-!
# Tables with a primary key

A table is a list of rows with distinct keys. The order of the rows is the order they
were inserted in and means nothing to a query: `find?` is what a table holds. A query
without an order reads the rows in an order of its own (`Scan`).
-/

namespace OtelSqlite.Lib

structure Table (κ ρ : Type) where
  rows : List (κ × ρ)
  nodup : (rows.map Prod.fst).Nodup

namespace Table

variable {κ ρ σ : Type}

def empty : Table κ ρ := ⟨[], List.nodup_nil⟩

def keys (t : Table κ ρ) : List κ := t.rows.map Prod.fst

/-- The rows that pass. -/
def filter (t : Table κ ρ) (p : κ → ρ → Bool) : Table κ ρ where
  rows := t.rows.filter fun row => p row.1 row.2
  nodup := (List.filter_sublist.map Prod.fst).nodup t.nodup

theorem sublist_filterMap (f : κ → ρ → Option σ) (rows : List (κ × ρ)) :
    ((rows.filterMap fun row => (f row.1 row.2).map (row.1, ·)).map Prod.fst).Sublist
      (rows.map Prod.fst) := by
  induction rows with
  | nil => simp
  | cons row rows ih =>
    rw [List.filterMap_cons]
    cases f row.1 row.2 with
    | none => exact ih.cons _
    | some s => exact ih.cons_cons _

/-- The rows a query computes from each row of the table. -/
def filterMap (t : Table κ ρ) (f : κ → ρ → Option σ) : Table κ σ where
  rows := t.rows.filterMap fun row => (f row.1 row.2).map (row.1, ·)
  nodup := (sublist_filterMap f t.rows).nodup t.nodup

variable [DecidableEq κ]

def find? (t : Table κ ρ) (k : κ) : Option ρ := (t.rows.find? fun row => row.1 = k).map Prod.snd

/-- Insert a row unless its key is taken. -/
def insertNew (t : Table κ ρ) (k : κ) (r : ρ) : Table κ ρ :=
  if h : k ∈ t.keys then t else ⟨(k, r) :: t.rows, List.nodup_cons.mpr ⟨h, t.nodup⟩⟩

variable {t : Table κ ρ} {k k' : κ} {r : ρ} {p : κ → ρ → Bool}

theorem find?_eq_some_iff : t.find? k = some r ↔ (k, r) ∈ t.rows := by
  constructor
  · intro h
    obtain ⟨⟨k', r'⟩, hfind, rfl⟩ := Option.map_eq_some_iff.mp h
    have hkey : k' = k := by simpa using List.find?_some hfind
    exact hkey ▸ List.mem_of_find?_eq_some hfind
  · intro h
    have hsome : (t.rows.find? fun row => row.1 = k).isSome :=
      List.find?_isSome.mpr ⟨(k, r), h, by simp⟩
    obtain ⟨⟨k', r'⟩, hfind⟩ := Option.isSome_iff_exists.mp hsome
    have hkey : k' = k := by simpa using List.find?_some hfind
    have hsame := List.inj_on_of_nodup_map t.nodup (List.mem_of_find?_eq_some hfind) h hkey
    rw [find?, hfind, hsame]
    rfl

theorem mem_keys_iff : k ∈ t.keys ↔ ∃ r, t.find? k = some r := by
  simp only [find?_eq_some_iff, keys, List.mem_map]
  exact ⟨fun ⟨⟨_, r⟩, h, hk⟩ => ⟨r, hk ▸ h⟩, fun ⟨r, h⟩ => ⟨(k, r), h, rfl⟩⟩

theorem find?_eq_none_iff : t.find? k = none ↔ k ∉ t.keys := by
  rw [mem_keys_iff, Option.eq_none_iff_forall_ne_some, not_exists]

theorem mem_keys_insertNew : k' ∈ (t.insertNew k r).keys ↔ k' = k ∨ k' ∈ t.keys := by
  unfold insertNew
  split
  · next h =>
    refine ⟨Or.inr, fun hk => ?_⟩
    rcases hk with rfl | hk
    · exact h
    · exact hk
  · exact List.mem_cons

theorem find?_insertNew_of_notMem (h : k ∉ t.keys) :
    (t.insertNew k r).find? k' = if k' = k then some r else t.find? k' := by
  rw [insertNew, dif_neg h, find?, List.find?_cons]
  by_cases hk : k = k'
  · simp [hk]
  · rw [if_neg (Ne.symm hk)]
    simp [hk, find?]

theorem find?_insertNew_of_ne (h : k' ≠ k) : (t.insertNew k r).find? k' = t.find? k' := by
  by_cases hk : k ∈ t.keys
  · rw [insertNew, dif_pos hk]
  · rw [find?_insertNew_of_notMem hk, if_neg h]

/-- After the insertion the key has the row it had, or the new one. -/
theorem find?_insertNew_self : (t.insertNew k r).find? k = some ((t.find? k).getD r) := by
  by_cases hk : k ∈ t.keys
  · rw [insertNew, dif_pos hk]
    obtain ⟨r', hr'⟩ := mem_keys_iff.mp hk
    rw [hr', Option.getD_some]
  · rw [find?_insertNew_of_notMem hk, if_pos rfl, find?_eq_none_iff.mpr hk, Option.getD_none]

theorem find?_filter_eq_some_iff :
    (t.filter p).find? k = some r ↔ t.find? k = some r ∧ p k r = true := by
  rw [find?_eq_some_iff, find?_eq_some_iff]
  exact List.mem_filter

theorem filter_eq_self (h : ∀ k r, t.find? k = some r → p k r = true) : t.filter p = t := by
  have hrows : (t.rows.filter fun row => p row.1 row.2) = t.rows :=
    List.filter_eq_self.mpr fun row hrow => h row.1 row.2 (find?_eq_some_iff.mpr hrow)
  cases t
  simp only [filter, mk.injEq]
  exact hrows

theorem find?_filterMap {f : κ → ρ → Option σ} :
    (t.filterMap f).find? k = (t.find? k).bind (f k) := by
  ext s
  rw [find?_eq_some_iff, Option.bind_eq_some_iff]
  simp only [find?_eq_some_iff, filterMap, List.mem_filterMap, Option.map_eq_some_iff,
    Prod.mk.injEq]
  constructor
  · rintro ⟨⟨k', r⟩, hmem, s', hf, rfl, rfl⟩
    exact ⟨r, hmem, hf⟩
  · rintro ⟨r, hmem, hf⟩
    exact ⟨(k, r), hmem, s, hf, rfl, rfl⟩

/-- Selecting by key the rows that were picked selects as many. -/
theorem countP_picked {picked : List (κ × ρ)} (h : picked.Subperm t.rows) :
    (t.rows.countP fun row => decide (row.1 ∈ picked.map Prod.fst)) = picked.length := by
  have hrows : t.rows.Nodup := List.Nodup.of_map _ t.nodup
  have hpicked : picked.Nodup := by
    obtain ⟨l, hperm, hsublist⟩ := h
    exact hperm.nodup_iff.mp (hsublist.nodup hrows)
  rw [List.countP_eq_length_filter]
  apply List.Perm.length_eq
  rw [List.perm_ext_iff_of_nodup (hrows.filter _) hpicked]
  intro row
  rw [List.mem_filter, decide_eq_true_eq]
  constructor
  · rintro ⟨hrow, hkey⟩
    obtain ⟨row', hrow', hsame⟩ := List.mem_map.mp hkey
    rwa [← List.inj_on_of_nodup_map t.nodup (h.subset hrow') hrow hsame]
  · intro hrow
    exact ⟨h.subset hrow, List.mem_map_of_mem hrow⟩

end Table

/-- The order in which a query without an order reads rows. -/
structure Scan (α : Type) where
  order : List α → List α
  perm : ∀ rows, (order rows).Perm rows

def Scan.inOrder {α : Type} : Scan α := ⟨id, List.Perm.refl⟩

end OtelSqlite.Lib
