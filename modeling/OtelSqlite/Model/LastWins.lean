import Mathlib.Data.List.Induction
import OtelSqlite.Model.Attribute

/-!
# Sorted keys, last value of each

The walk over the sorted indices of a list of entries keeps, of the entries with one key,
the one inserted last, and its keys ascend by their bytes. Only neighbours are compared, so
that equal keys stand together in the sorted order is what the argument rests on.
-/

namespace OtelSqlite.Model

variable {β γ : Type} {entries : List (String × β)} {i j : Nat} {e : String × β}
  {indices : List Nat}

/-- The key at an index. -/
def nameAt (entries : List (String × β)) (i : Nat) : Option String := entries[i]?.map Prod.fst

theorem nameAt_of_getElem? (h : entries[i]? = some e) : nameAt entries i = some e.1 := by
  rw [nameAt, h]
  rfl

theorem keyAt_of_nameAt {name : String} (h : nameAt entries i = some name) :
    keyAt entries i = utf8 name := by
  obtain ⟨e, he, rfl⟩ := Option.map_eq_some_iff.mp h
  rw [keyAt, he]
  rfl

theorem exists_nameAt (h : i < entries.length) : ∃ name, nameAt entries i = some name :=
  ⟨(entries[i]).1, by rw [nameAt, List.getElem?_eq_getElem h]; rfl⟩

theorem nameAt_eq_of_keyAt_eq (hi : i < entries.length) (hj : j < entries.length)
    (h : keyAt entries i = keyAt entries j) : nameAt entries i = nameAt entries j := by
  obtain ⟨a, ha⟩ := exists_nameAt hi
  obtain ⟨b, hb⟩ := exists_nameAt hj
  rw [keyAt_of_nameAt ha, keyAt_of_nameAt hb] at h
  rw [ha, hb, utf8_injective h]

theorem keyAt_eq_of_nameAt (entries : List (String × β)) (i : Nat) :
    keyAt entries i = ((nameAt entries i).map utf8).getD [] := by
  rw [nameAt, Option.map_map]
  rfl

theorem keyAt_eq_of_nameAt_eq (h : nameAt entries i = nameAt entries j) :
    keyAt entries i = keyAt entries j := by
  rw [keyAt_eq_of_nameAt, keyAt_eq_of_nameAt, h]

instance (entries : List (String × β)) : Std.Total (InKeyOrder entries) where
  total i j := by
    rcases Std.lt_trichotomy (keyAt entries i) (keyAt entries j) with h | h | h
    · exact Or.inl (Or.inl h)
    · rcases Nat.le_total i j with hij | hij
      · exact Or.inl (Or.inr ⟨h, hij⟩)
      · exact Or.inr (Or.inr ⟨h.symm, hij⟩)
    · exact Or.inr (Or.inl h)

instance (entries : List (String × β)) : IsTrans Nat (InKeyOrder entries) where
  trans i j k := by
    rintro (hij | ⟨hij, hle⟩) (hjk | ⟨hjk, hle'⟩)
    · exact Or.inl (List.lt_trans hij hjk)
    · exact Or.inl (hjk ▸ hij)
    · exact Or.inl (hij ▸ hjk)
    · exact Or.inr ⟨hij.trans hjk, hle.trans hle'⟩

/-- Between two equal keys all keys are equal. -/
theorem nameAt_between {k : Nat} (hi : i < entries.length) (hj : j < entries.length)
    (hij : InKeyOrder entries i j) (hjk : InKeyOrder entries j k)
    (h : nameAt entries k = nameAt entries i) : nameAt entries j = nameAt entries i := by
  have hkey := keyAt_eq_of_nameAt_eq h
  refine nameAt_eq_of_keyAt_eq hj hi ?_
  rcases hij with hij | ⟨hij, -⟩
  · rcases hjk with hjk | ⟨hjk, -⟩
    · rw [hkey] at hjk
      exact absurd hij (List.lt_asymm hjk)
    · rw [← hkey, hjk]
  · exact hij.symm

/-- Among equal keys the order is that of insertion. -/
theorem le_of_inKeyOrder (h : InKeyOrder entries i j) (hname : nameAt entries j = nameAt entries i) :
    i ≤ j := by
  rcases h with h | ⟨-, h⟩
  · rw [keyAt_eq_of_nameAt_eq hname] at h
    exact absurd h (List.lt_irrefl _)
  · exact h

/-- Behind a different key the first one does not come again. -/
theorem nameAt_ne_behind {rest : List Nat} (hs : (i :: j :: rest).Pairwise (InKeyOrder entries))
    (hb : ∀ k ∈ i :: j :: rest, k < entries.length) (hdiff : nameAt entries j ≠ nameAt entries i) :
    ∀ k ∈ j :: rest, nameAt entries k ≠ nameAt entries i := by
  obtain ⟨hi, hrest⟩ := List.pairwise_cons.mp hs
  obtain ⟨hbi, hb'⟩ := List.forall_mem_cons.mp hb
  intro k hk hname
  rcases List.mem_cons.mp hk with rfl | hk
  · exact hdiff hname
  · refine hdiff (nameAt_between hbi (hb' j List.mem_cons_self) (hi j List.mem_cons_self) ?_ hname)
    exact (List.pairwise_cons.mp hrest).1 k hk

theorem lastOfEachKey_cons_cons (entries : List (String × β)) (i j : Nat) (rest : List Nat) :
    lastOfEachKey entries (i :: j :: rest) =
      if nameAt entries j = nameAt entries i then lastOfEachKey entries (j :: rest)
      else entries[i]?.toList ++ lastOfEachKey entries (j :: rest) := by
  rw [lastOfEachKey]
  rfl

/-- The entry at the greatest of the given indices with its key. -/
def LastAmong (entries : List (String × β)) (indices : List Nat) (e : String × β) : Prop :=
  ∃ i ∈ indices, entries[i]? = some e ∧
    ∀ j ∈ indices, nameAt entries j = nameAt entries i → j ≤ i

/-- The walk keeps the last entry of each key. -/
theorem mem_lastOfEachKey_iff (hs : indices.Pairwise (InKeyOrder entries))
    (hb : ∀ i ∈ indices, i < entries.length) (e : String × β) :
    e ∈ lastOfEachKey entries indices ↔ LastAmong entries indices e := by
  fun_induction lastOfEachKey entries indices with
  | case1 => simp [LastAmong]
  | case2 i => simp [LastAmong, Option.mem_toList]
  | case3 i j rest hsame ih =>
    obtain ⟨hi, hrest⟩ := List.pairwise_cons.mp hs
    have hij : i ≤ j := le_of_inKeyOrder (hi j List.mem_cons_self) hsame
    rw [ih hrest fun k hk => hb k (List.mem_cons_of_mem _ hk)]
    constructor
    · rintro ⟨k, hk, he, hlast⟩
      refine ⟨k, List.mem_cons_of_mem _ hk, he, List.forall_mem_cons.mpr ⟨fun hname => ?_, hlast⟩⟩
      exact hij.trans (hlast j List.mem_cons_self (Eq.trans hsame hname))
    · rintro ⟨k, hk, he, hlast⟩
      obtain ⟨-, hlast'⟩ := List.forall_mem_cons.mp hlast
      rcases List.mem_cons.mp hk with rfl | hk
      · obtain rfl : k = j := Nat.le_antisymm hij (hlast' j List.mem_cons_self hsame)
        exact ⟨k, List.mem_cons_self, he, hlast'⟩
      · exact ⟨k, hk, he, hlast'⟩
  | case4 i j rest hdiff ih =>
    obtain ⟨hi, hrest⟩ := List.pairwise_cons.mp hs
    obtain ⟨hbi, hb'⟩ := List.forall_mem_cons.mp hb
    have hnot := nameAt_ne_behind hs hb hdiff
    rw [List.mem_append, ih hrest hb', Option.mem_toList]
    constructor
    · rintro (he | ⟨k, hk, he, hlast⟩)
      · refine ⟨i, List.mem_cons_self, he, List.forall_mem_cons.mpr ⟨fun _ => Nat.le_refl i, ?_⟩⟩
        exact fun k hk hname => absurd hname (hnot k hk)
      · refine ⟨k, List.mem_cons_of_mem _ hk, he, List.forall_mem_cons.mpr ⟨?_, hlast⟩⟩
        exact fun hname => absurd hname.symm (hnot k hk)
    · rintro ⟨k, hk, he, hlast⟩
      rcases List.mem_cons.mp hk with rfl | hk
      · exact Or.inl he
      · exact Or.inr ⟨k, hk, he, (List.forall_mem_cons.mp hlast).2⟩

/-- The keys it keeps ascend. -/
theorem pairwise_lastOfEachKey (hs : indices.Pairwise (InKeyOrder entries))
    (hb : ∀ i ∈ indices, i < entries.length) :
    ((lastOfEachKey entries indices).map Prod.fst).Pairwise fun a b => utf8 a < utf8 b := by
  fun_induction lastOfEachKey entries indices with
  | case1 => exact List.Pairwise.nil
  | case2 i =>
    rw [List.getElem?_eq_getElem (hb i List.mem_cons_self)]
    exact List.pairwise_singleton _ _
  | case3 i j rest hsame ih =>
    exact ih (List.pairwise_cons.mp hs).2 fun k hk => hb k (List.mem_cons_of_mem _ hk)
  | case4 i j rest hdiff ih =>
    obtain ⟨hi, hrest⟩ := List.pairwise_cons.mp hs
    obtain ⟨hbi, hb'⟩ := List.forall_mem_cons.mp hb
    have hei : entries[i]? = some entries[i] := List.getElem?_eq_getElem hbi
    rw [hei, Option.toList_some, List.singleton_append, List.map_cons, List.pairwise_cons]
    refine ⟨fun name hname => ?_, ih hrest hb'⟩
    obtain ⟨e, he, rfl⟩ := List.mem_map.mp hname
    obtain ⟨k, hk, hek, -⟩ := (mem_lastOfEachKey_iff hrest hb' e).mp he
    rw [← keyAt_of_nameAt (nameAt_of_getElem? hei), ← keyAt_of_nameAt (nameAt_of_getElem? hek)]
    rcases hi k hk with hlt | ⟨heq, -⟩
    · exact hlt
    · refine absurd ?_ (nameAt_ne_behind hs hb hdiff k hk)
      exact nameAt_eq_of_keyAt_eq (hb' k hk) hbi heq.symm

section Objects

/-- The value the key was given last. -/
def lastValue (entries : List (String × β)) (key : String) : Option β :=
  entries.reverse.lookup key

theorem lastValue_concat (entries : List (String × β)) (e : String × β) (key : String) :
    lastValue (entries ++ [e]) key = if key = e.1 then some e.2 else lastValue entries key := by
  obtain ⟨name, value⟩ := e
  rw [lastValue, List.reverse_concat, List.lookup_cons]
  by_cases h : key = name
  · simp [h]
  · have hne : (key == name) = false := by simpa using h
    rw [hne, if_neg h]
    rfl

/-- A new last entry is the last of its key, and of no other. -/
theorem lastAmong_concat_iff {x : String × β} :
    LastAmong (entries ++ [e]) (List.range (entries ++ [e]).length) x ↔
      if x.1 = e.1 then x = e else LastAmong entries (List.range entries.length) x := by
  have hlength : (entries ++ [e]).length = entries.length + 1 := by simp
  have hnew : (entries ++ [e])[entries.length]? = some e := List.getElem?_concat_length
  have hold : ∀ {i}, i < entries.length → (entries ++ [e])[i]? = entries[i]? :=
    List.getElem?_append_left
  have hname : ∀ {i}, i < entries.length → nameAt (entries ++ [e]) i = nameAt entries i :=
    fun hi => congrArg (Option.map Prod.fst) (hold hi)
  simp only [LastAmong, List.mem_range, hlength]
  split_ifs with hkey
  · constructor
    · rintro ⟨i, hi, hx, hlast⟩
      have hsame : nameAt (entries ++ [e]) entries.length = nameAt (entries ++ [e]) i := by
        rw [nameAt_of_getElem? hnew, nameAt_of_getElem? hx, hkey]
      obtain rfl : i = entries.length := by
        have hle := hlast entries.length (Nat.lt_succ_self _) hsame
        omega
      exact Option.some.inj (hx.symm.trans hnew)
    · rintro rfl
      exact ⟨entries.length, Nat.lt_succ_self _, hnew, fun j hj _ => Nat.le_of_lt_succ hj⟩
  · constructor
    · rintro ⟨i, hi, hx, hlast⟩
      have hlt : i < entries.length := by
        refine Nat.lt_of_le_of_ne (Nat.le_of_lt_succ hi) ?_
        rintro rfl
        exact hkey (congrArg Prod.fst (Option.some.inj (hx.symm.trans hnew)))
      refine ⟨i, hlt, (hold hlt).symm.trans hx, fun j hj hsame => hlast j (by omega) ?_⟩
      rw [hname hj, hname hlt, hsame]
    · rintro ⟨i, hi, hx, hlast⟩
      refine ⟨i, by omega, (hold hi).trans hx, fun j hj hsame => ?_⟩
      rcases Nat.lt_succ_iff_lt_or_eq.mp hj with hj | rfl
      · rw [hname hj, hname hi] at hsame
        exact hlast j hj hsame
      · rw [nameAt_of_getElem? hnew, hname hi, nameAt_of_getElem? hx] at hsame
        exact absurd (Option.some.inj hsame).symm hkey

theorem lastValue_eq_some_iff {key : String} {value : β} :
    lastValue entries key = some value ↔
      LastAmong entries (List.range entries.length) (key, value) := by
  induction entries using List.reverseRecOn with
  | nil => simp [lastValue, LastAmong]
  | append_singleton entries e ih =>
    rw [lastValue_concat, lastAmong_concat_iff]
    split_ifs with hkey
    · subst hkey
      simp [Prod.ext_iff, eq_comm]
    · exact ih

theorem sorted_indices (entries : List (String × β)) (count : Nat) :
    ((List.range count).insertionSort (InKeyOrder entries)).Pairwise (InKeyOrder entries) :=
  List.pairwise_insertionSort _ _

theorem mem_sorted_indices (entries : List (String × β)) (count i : Nat) :
    i ∈ (List.range count).insertionSort (InKeyOrder entries) ↔ i ∈ List.range count :=
  (List.perm_insertionSort _ _).mem_iff

/-- The keys of an object ascend. -/
theorem pairwise_objectEntries (entries : List (String × β)) :
    ((objectEntries entries.length entries).map Prod.fst).Pairwise
      fun a b => utf8 a < utf8 b := by
  refine pairwise_lastOfEachKey (sorted_indices _ _) fun i hi => ?_
  exact List.mem_range.mp ((mem_sorted_indices _ _ i).mp hi)

/-- And each has its last value. -/
theorem mem_objectEntries_iff {key : String} {value : β} :
    (key, value) ∈ objectEntries entries.length entries ↔ lastValue entries key = some value := by
  rw [objectEntries, mem_lastOfEachKey_iff (sorted_indices _ _), lastValue_eq_some_iff]
  · simp only [LastAmong, mem_sorted_indices]
  · exact fun i hi => List.mem_range.mp ((mem_sorted_indices _ _ i).mp hi)

theorem mem_of_mem_objectEntries (h : e ∈ objectEntries entries.length entries) : e ∈ entries := by
  have hlast := lastValue_eq_some_iff.mp (mem_objectEntries_iff.mp h)
  obtain ⟨i, -, he, -⟩ := hlast
  exact List.mem_of_getElem? he

section Maps

variable (f : β → γ)

theorem nameAt_map (i : Nat) :
    nameAt (entries.map fun e => (e.1, f e.2)) i = nameAt entries i := by
  simp [nameAt, Function.comp_def]

theorem inKeyOrder_map :
    InKeyOrder (entries.map fun e => (e.1, f e.2)) = InKeyOrder entries := by
  funext i j
  simp only [InKeyOrder, keyAt_eq_of_nameAt, nameAt_map]

theorem toList_getElem?_map (i : Nat) :
    (entries.map fun e => (e.1, f e.2))[i]?.toList =
      entries[i]?.toList.map fun e => (e.1, f e.2) := by
  rw [List.getElem?_map]
  cases entries[i]? <;> rfl

theorem lastOfEachKey_map (indices : List Nat) :
    lastOfEachKey (entries.map fun e => (e.1, f e.2)) indices =
      (lastOfEachKey entries indices).map fun e => (e.1, f e.2) := by
  fun_induction lastOfEachKey entries indices with
  | case1 => rfl
  | case2 i => exact toList_getElem?_map f i
  | case3 i j rest hsame ih =>
    rw [lastOfEachKey_cons_cons, nameAt_map, nameAt_map]
    exact (if_pos hsame).trans ih
  | case4 i j rest hdiff ih =>
    rw [lastOfEachKey_cons_cons, nameAt_map, nameAt_map, List.map_append, toList_getElem?_map, ih]
    exact if_neg hdiff

/-- The encoders look at the keys only. -/
theorem objectEntries_map (count : Nat) (entries : List (String × β)) :
    objectEntries count (entries.map fun e => (e.1, f e.2)) =
      (objectEntries count entries).map fun e => (e.1, f e.2) := by
  rw [objectEntries, objectEntries, lastOfEachKey_map]
  congr! 3
  exact inKeyOrder_map f

end Maps

end Objects

end OtelSqlite.Model
