import Mathlib.Data.List.Basic

/-!
# Compact JSON

Documents over any scalars and keys, and their compact rendering: no blanks, items
separated by commas. If scalars can be read off a text up to a delimiter, and keys up to
their colon, then a document can be read off its rendering (`render_inj`).

A document lists the entries of its objects in some order. `Value` forgets the order; if all
keys ascend, the value determines the document (`value_inj`).
-/

namespace OtelSqlite.Lib.Json

inductive Document (A K : Type) where
  | scalar (a : A)
  | array (items : List (Document A K))
  | object (entries : List (K × Document A K))

variable {A K : Type} {d d' : Document A K}

theorem sizeOf_entry_lt {e : K × Document A K} {entries : List (K × Document A K)}
    (h : e ∈ entries) : sizeOf e.2 < sizeOf (Document.object entries) := by
  have hmem := List.sizeOf_lt_of_mem h
  have hvalue : sizeOf e.2 < sizeOf e := by
    cases e
    simp
  simp only [Document.object.sizeOf_spec]
  omega

/-- Induction with the hypothesis for every item and every entry. -/
@[elab_as_elim]
theorem Document.induction {P : Document A K → Prop} (hscalar : ∀ a, P (.scalar a))
    (harray : ∀ items, (∀ x ∈ items, P x) → P (.array items))
    (hobject : ∀ entries : List (K × Document A K), (∀ e ∈ entries, P e.2) → P (.object entries))
    (d : Document A K) : P d :=
  @Document.rec A K P (fun items => ∀ x ∈ items, P x) (fun entries => ∀ e ∈ entries, P e.2)
    (fun e => P e.2) hscalar harray hobject (fun _ h => absurd h List.not_mem_nil)
    (fun _ _ hx hxs => List.forall_mem_cons.mpr ⟨hx, hxs⟩) (fun _ h => absurd h List.not_mem_nil)
    (fun _ _ he hes => List.forall_mem_cons.mpr ⟨he, hes⟩) (fun _ _ h => h) d

section Render

/-- How scalars and keys are written. -/
structure Tokens (A K : Type) where
  scalar : A → List Char
  key : K → List Char

def openBrace : Char := Char.ofNat 0x7B

def closeBrace : Char := Char.ofNat 0x7D

def render (tokens : Tokens A K) : Document A K → List Char
  | .scalar a => tokens.scalar a
  | .array items => '[' :: (List.intercalate [','] (items.map (render tokens)) ++ [']'])
  | .object entries =>
    openBrace :: (List.intercalate [',']
      (entries.map fun e => tokens.key e.1 ++ ':' :: render tokens e.2) ++ [closeBrace])
termination_by d => sizeOf d
decreasing_by
  · decreasing_tactic
  · exact sizeOf_entry_lt ‹_›

/-- What may follow a value: the end, a comma or a closing bracket. -/
def Delimited : List Char → Prop
  | [] => True
  | c :: _ => c = ',' ∨ c = ']' ∨ c = closeBrace

/-- The text of `x` can be told from that of any other item, whatever follows. -/
def Decodes {α : Type} (f : α → List Char) (x : α) : Prop :=
  ∀ y r r', Delimited r → Delimited r' → f x ++ r = f y ++ r' → x = y ∧ r = r'

/-- Scalars and keys can be read off a text, and are not taken for brackets. -/
structure Tokens.Readable (tokens : Tokens A K) : Prop where
  scalar_decodes : ∀ a, Decodes tokens.scalar a
  scalar_head : ∀ a, ∃ c rest, tokens.scalar a = c :: rest ∧
    c ≠ '[' ∧ c ≠ ']' ∧ c ≠ openBrace
  key_decodes : ∀ k k' r r', tokens.key k ++ ':' :: r = tokens.key k' ++ ':' :: r' →
    k = k' ∧ r = r'
  key_head : ∀ k, ∃ c rest, tokens.key k = c :: rest ∧ c ≠ closeBrace

section Lists

variable {α : Type} {f : α → List Char} {close : Char}

/-- Items with commas between them, up to a closing bracket. -/
def listed (f : α → List Char) (close : Char) (xs : List α) (r : List Char) : List Char :=
  List.intercalate [','] (xs.map f) ++ close :: r

/-- What follows an item of the list. -/
def following (f : α → List Char) (close : Char) : List α → List Char → List Char
  | [], r => close :: r
  | x :: xs, r => ',' :: listed f close (x :: xs) r

theorem listed_cons (x : α) (xs : List α) (r : List Char) :
    listed f close (x :: xs) r = f x ++ following f close xs r := by
  cases xs with
  | nil => simp [listed, following]
  | cons y ys =>
    rw [listed, List.map_cons, List.map_cons, List.intercalate_cons_cons]
    simp [following, listed]

theorem delimited_following (hclose : close = ']' ∨ close = closeBrace) (xs : List α)
    (r : List Char) : Delimited (following f close xs r) := by
  cases xs with
  | nil => exact Or.inr hclose
  | cons x xs => exact Or.inl rfl

theorem comma_ne_close (hclose : close = ']' ∨ close = closeBrace) : close ≠ ',' := by
  rcases hclose with rfl | rfl <;> decide

/-- A list can be read off its rendering, if its items can. -/
theorem listed_inj (hclose : close = ']' ∨ close = closeBrace)
    (hhead : ∀ x, ∃ c rest, f x = c :: rest ∧ c ≠ close) {xs ys : List α} {r r' : List Char}
    (hdecodes : ∀ x ∈ xs, Decodes f x)
    (h : listed f close xs r = listed f close ys r') : xs = ys ∧ r = r' := by
  have hempty : ∀ {y : α} {ys : List α} {r r' : List Char},
      close :: r ≠ listed f close (y :: ys) r' := by
    intro y ys r r' he
    obtain ⟨c, rest, hy, hc⟩ := hhead y
    rw [listed_cons, hy] at he
    exact hc (List.cons.inj he).1.symm
  induction xs generalizing ys with
  | nil =>
    cases ys with
    | nil => exact ⟨rfl, (List.cons.inj h).2⟩
    | cons y ys => exact absurd h hempty
  | cons x xs ih =>
    cases ys with
    | nil => exact absurd h.symm hempty
    | cons y ys =>
      rw [listed_cons, listed_cons] at h
      obtain ⟨rfl, hrest⟩ := hdecodes x List.mem_cons_self y _ _
        (delimited_following hclose xs r) (delimited_following hclose ys r') h
      -- The separator behind the first item tells whether there is a second one.
      cases xs with
      | nil =>
        cases ys with
        | nil => exact ⟨rfl, (List.cons.inj hrest).2⟩
        | cons y ys => exact absurd (List.cons.inj hrest).1 (comma_ne_close hclose)
      | cons x' xs =>
        cases ys with
        | nil => exact absurd (List.cons.inj hrest).1.symm (comma_ne_close hclose)
        | cons y' ys =>
          have htail := ih (fun z hz => hdecodes z (List.mem_cons_of_mem _ hz))
            (List.cons.inj hrest).2
          exact ⟨congrArg _ htail.1, htail.2⟩

end Lists

variable {tokens : Tokens A K}

/-- The text of an object's entry. -/
def entry (tokens : Tokens A K) (e : K × Document A K) : List Char :=
  tokens.key e.1 ++ ':' :: render tokens e.2

theorem render_array_append (items : List (Document A K)) (r : List Char) :
    render tokens (.array items) ++ r = '[' :: listed (render tokens) ']' items r := by
  simp [render, listed]

theorem render_object_append (entries : List (K × Document A K)) (r : List Char) :
    render tokens (.object entries) ++ r =
      openBrace :: listed (entry tokens) closeBrace entries r := by
  simp [render, listed]
  rfl

/-- What the first character of a document tells. -/
inductive Shape where
  | scalar
  | array
  | object

def Document.shape : Document A K → Shape
  | .scalar _ => .scalar
  | .array _ => .array
  | .object _ => .object

def shapeOf (c : Char) : Shape :=
  if c = '[' then .array else if c = openBrace then .object else .scalar

section

variable (h : tokens.Readable)
include h

theorem render_head (d : Document A K) :
    ∃ c rest, render tokens d = c :: rest ∧ c ≠ ']' ∧ shapeOf c = d.shape := by
  cases d with
  | scalar a =>
    obtain ⟨c, rest, hc, hopen, hne, hbrace⟩ := h.scalar_head a
    exact ⟨c, rest, by rw [render, hc], hne, by rw [shapeOf, if_neg hopen, if_neg hbrace]; rfl⟩
  | array items => exact ⟨'[', _, by rw [render], by decide, rfl⟩
  | object entries => exact ⟨openBrace, _, by rw [render], by decide, rfl⟩

theorem shape_eq {r r' : List Char} (he : render tokens d ++ r = render tokens d' ++ r') :
    d.shape = d'.shape := by
  obtain ⟨c, rest, hc, -, hshape⟩ := render_head h d
  obtain ⟨c', rest', hc', -, hshape'⟩ := render_head h d'
  rw [hc, hc'] at he
  rw [← hshape, ← hshape', (List.cons.inj he).1]

theorem entry_head (e : K × Document A K) :
    ∃ c rest, entry tokens e = c :: rest ∧ c ≠ closeBrace := by
  obtain ⟨c, rest, hc, hne⟩ := h.key_head e.1
  exact ⟨c, _, by rw [entry, hc]; rfl, hne⟩

/-- A document can be read off a text that goes on behind it. -/
theorem render_decodes (d : Document A K) : Decodes (render tokens) d := by
  induction d using Document.induction with
  | hscalar a =>
    intro d' r r' hr hr' he
    cases d' with
    | scalar b =>
      rw [render, render] at he
      obtain ⟨rfl, hrest⟩ := h.scalar_decodes a b r r' hr hr' he
      exact ⟨rfl, hrest⟩
    | _ => cases shape_eq h he
  | harray items ih =>
    intro d' r r' hr hr' he
    cases d' with
    | array items' =>
      have hhead : ∀ x, ∃ c rest, render tokens x = c :: rest ∧ c ≠ ']' := by
        intro x
        obtain ⟨c, rest, hc, hne, -⟩ := render_head h x
        exact ⟨c, rest, hc, hne⟩
      rw [render_array_append, render_array_append] at he
      obtain ⟨rfl, hrest⟩ := listed_inj (Or.inl rfl) hhead ih (List.cons.inj he).2
      exact ⟨rfl, hrest⟩
    | _ => cases shape_eq h he
  | hobject entries ih =>
    intro d' r r' hr hr' he
    cases d' with
    | object entries' =>
      have hentry : ∀ e ∈ entries, Decodes (entry tokens) e := by
        intro e hm e' s s' hs hs' hee
        rw [entry, entry, List.append_assoc, List.append_assoc] at hee
        obtain ⟨hkey, hvalue⟩ := h.key_decodes e.1 e'.1 _ _ hee
        obtain ⟨hd, hrest⟩ := ih e hm e'.2 s s' hs hs' hvalue
        exact ⟨Prod.ext hkey hd, hrest⟩
      rw [render_object_append, render_object_append] at he
      obtain ⟨rfl, hrest⟩ := listed_inj (Or.inr rfl) (entry_head h) hentry (List.cons.inj he).2
      exact ⟨rfl, hrest⟩
    | _ => cases shape_eq h he

/-- The compact rendering loses nothing. -/
theorem render_inj : render tokens d = render tokens d' ↔ d = d' := by
  refine ⟨fun he => ?_, congrArg _⟩
  exact (render_decodes h d d' [] [] trivial trivial (by rw [he])).1

end

end Render

section Value

/-- A document up to the order of its objects' entries: an object is a map. -/
inductive Value (A K : Type) where
  | scalar (a : A)
  | array (items : List (Value A K))
  | object (lookup : K → Option (Value A K))

def Document.value [BEq K] : Document A K → Value A K
  | .scalar a => .scalar a
  | .array items => .array (items.map value)
  | .object entries => .object fun k => (entries.map fun e => (e.1, e.2.value)).lookup k
termination_by d => sizeOf d
decreasing_by
  · decreasing_tactic
  · exact sizeOf_entry_lt ‹_›

/-- The keys of every object ascend. -/
inductive KeysAscending (lt : K → K → Prop) : Document A K → Prop
  | scalar (a : A) : KeysAscending lt (.scalar a)
  | array {items : List (Document A K)} : (∀ x ∈ items, KeysAscending lt x) →
      KeysAscending lt (.array items)
  | object {entries : List (K × Document A K)} : (entries.map Prod.fst).Pairwise lt →
      (∀ e ∈ entries, KeysAscending lt e.2) → KeysAscending lt (.object entries)

theorem eq_of_map_eq {α γ : Type} {f : α → γ} {xs ys : List α}
    (hinj : ∀ x ∈ xs, ∀ y ∈ ys, f x = f y → x = y) (h : xs.map f = ys.map f) : xs = ys := by
  induction xs generalizing ys with
  | nil => exact (List.map_eq_nil_iff.mp h.symm).symm
  | cons x xs ih =>
    cases ys with
    | nil => cases h
    | cons y ys =>
      obtain ⟨hhead, htail⟩ := List.cons.inj h
      rw [hinj x List.mem_cons_self y List.mem_cons_self hhead,
        ih (fun a ha b hb => hinj a (List.mem_cons_of_mem _ ha) b (List.mem_cons_of_mem _ hb)) htail]

section Ascending

variable {β : Type} {lt : K → K → Prop} [Std.Asymm lt] {xs ys : List (K × β)}

/-- In ascending entries a lookup finds every entry. -/
theorem lookup_eq_some_iff_mem [BEq K] [LawfulBEq K] {entries : List (K × β)}
    (h : (entries.map Prod.fst).Pairwise lt) {k : K} {v : β} :
    entries.lookup k = some v ↔ (k, v) ∈ entries := by
  induction entries with
  | nil => simp
  | cons e entries ih =>
    obtain ⟨k₀, v₀⟩ := e
    rw [List.map_cons, List.pairwise_cons] at h
    rw [List.lookup_cons, List.mem_cons]
    by_cases hk : k = k₀
    · subst hk
      have hfresh : (k, v) ∉ entries := by
        intro hm
        have hlt := h.1 k (List.mem_map.mpr ⟨(k, v), hm, rfl⟩)
        exact Std.Asymm.asymm k k hlt hlt
      simp [hfresh, eq_comm]
    · have hne : (k == k₀) = false := by simpa using hk
      rw [hne, ih h.2]
      simp [hk]

/-- Ascending lists with the same members are equal. -/
theorem eq_of_mem_iff (hx : (xs.map Prod.fst).Pairwise lt) (hy : (ys.map Prod.fst).Pairwise lt)
    (h : ∀ e, e ∈ xs ↔ e ∈ ys) : xs = ys := by
  have hasymm : ∀ {a b : K × β}, lt a.1 b.1 → ¬ lt b.1 a.1 := Std.Asymm.asymm _ _
  have hnodup : ∀ {zs : List (K × β)}, (zs.Pairwise fun a b => lt a.1 b.1) → zs.Nodup := by
    intro zs hz
    refine hz.imp ?_
    rintro a _ hlt rfl
    exact hasymm hlt hlt
  have hxs := List.pairwise_map.mp hx
  have hys := List.pairwise_map.mp hy
  have hperm : xs.Perm ys := (List.perm_ext_iff_of_nodup (hnodup hxs) (hnodup hys)).mpr h
  exact hperm.eq_of_pairwise (fun a b _ _ hab hba => absurd hba (hasymm hab)) hxs hys

theorem eq_of_lookup_eq [BEq K] [LawfulBEq K] (hx : (xs.map Prod.fst).Pairwise lt)
    (hy : (ys.map Prod.fst).Pairwise lt) (h : ∀ k, xs.lookup k = ys.lookup k) : xs = ys := by
  apply eq_of_mem_iff hx hy
  intro e
  rw [← lookup_eq_some_iff_mem hx, ← lookup_eq_some_iff_mem hy, h]

/-- Ascending documents are determined by their value. -/
theorem value_inj [BEq K] [LawfulBEq K] (h : KeysAscending lt d) (h' : KeysAscending lt d') :
    d.value = d'.value ↔ d = d' := by
  refine ⟨fun he => ?_, congrArg _⟩
  induction d using Document.induction generalizing d' with
  | hscalar a =>
    cases d' with
    | scalar b =>
      rw [Document.value, Document.value, Value.scalar.injEq] at he
      rw [he]
    | _ => simp [Document.value] at he
  | harray items ih =>
    cases d' with
    | array items' =>
      rw [Document.value, Document.value, Value.array.injEq] at he
      cases h with | array hitems =>
      cases h' with | array hitems' =>
      rw [eq_of_map_eq (fun x hx y hy => ih x hx (hitems x hx) (hitems' y hy)) he]
    | _ => simp [Document.value] at he
  | hobject entries ih =>
    cases d' with
    | object entries' =>
      rw [Document.value, Document.value, Value.object.injEq] at he
      cases h with | object hkeys hvalues =>
      cases h' with | object hkeys' hvalues' =>
      have hsame := eq_of_lookup_eq (by rwa [List.map_map]) (by rwa [List.map_map]) (congrFun he)
      refine congrArg _ (eq_of_map_eq (fun e hm e' hm' hee => ?_) hsame)
      obtain ⟨hkey, hvalue⟩ := Prod.mk.inj hee
      exact Prod.ext hkey (ih e hm (hvalues e hm) (hvalues' e' hm') hvalue)
    | _ => simp [Document.value] at he

end Ascending

end Value

end OtelSqlite.Lib.Json
