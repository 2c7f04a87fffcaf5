import Mathlib
import OtelSqlite.Lib.Json
import OtelSqlite.Model.Attribute

/-!
# Reading JSON scalars

The texts of scalars can be told apart by their first character, except for numbers, which
end where a delimiter follows. Strings end at the first quotation mark that is not escaped.
Of the library's rendering of doubles only `RendersNumbers` is used.
-/

namespace OtelSqlite.Model

open OtelSqlite.Lib.Json

variable {c : Char} {r r' xs ys : Text}

/-- The values that are no arrays or objects. A double among them is finite. -/
inductive Scalar where
  | null
  | bool (value : Bool)
  | int (value : Int64)
  | double (value : { d : F64 // d.isFinite = true })
  | string (value : String)

def Scalar.text (formats : Formats) : Scalar → Text
  | .null => jsonNull
  | .bool value => jsonBool value
  | .int value => (toString value.toInt).toList
  | .double value => (formats.jsonDouble value.1).toList
  | .string value => jsonString value.toList

/-- The compact rendering of `serde_json`. -/
def jsonTokens (formats : Formats) : Tokens Scalar String where
  scalar := Scalar.text formats
  key := fun key => jsonString key.toList

section Escapes

/-- The characters that are not written as themselves inside a string. -/
def specials : List Nat := List.range 0x20 ++ [0x22, 0x5C]

theorem escapeChar_plain (h : c.toNat ∉ specials) : escapeChar c = [c] := by
  simp only [specials, List.mem_append, List.mem_range, List.mem_cons, List.not_mem_nil,
    or_false, not_or] at h
  unfold escapeChar
  split
  case h_8 => exact if_neg h.1
  all_goals omega

/-- No escape begins another one. -/
theorem escapeChar_special_inj : ∀ m ∈ specials, ∀ n ∈ specials,
    escapeChar (Char.ofNat m) <+: escapeChar (Char.ofNat n) → m = n := by decide +kernel

theorem head?_escapeChar_special : ∀ n ∈ specials,
    (escapeChar (Char.ofNat n)).head? = some '\\' := by decide +kernel

theorem head?_escapeChar (h : c.toNat ∈ specials) : (escapeChar c).head? = some '\\' := by
  have hhead := head?_escapeChar_special c.toNat h
  rwa [Char.ofNat_toNat] at hhead

theorem escapeChar_head (c : Char) : ∃ x rest, escapeChar c = x :: rest ∧ x ≠ quote := by
  by_cases h : c.toNat ∈ specials
  · obtain ⟨rest, hrest⟩ := List.head?_eq_some_iff.mp (head?_escapeChar h)
    exact ⟨_, rest, hrest, by decide⟩
  · refine ⟨c, [], escapeChar_plain h, ?_⟩
    rintro rfl
    exact h (by decide)

theorem escapeChar_decodes {d : Char} (h : escapeChar c ++ r = escapeChar d ++ r') :
    c = d ∧ r = r' := by
  have hmixed : ∀ {c d : Char} {r r' : Text}, c.toNat ∈ specials → d.toNat ∉ specials →
      escapeChar c ++ r ≠ escapeChar d ++ r' := by
    intro c d r r' hc hd he
    obtain ⟨rest, hrest⟩ := List.head?_eq_some_iff.mp (head?_escapeChar hc)
    rw [hrest, escapeChar_plain hd] at he
    rw [← (List.cons.inj he).1] at hd
    exact hd (by decide)
  by_cases hc : c.toNat ∈ specials
  · by_cases hd : d.toNat ∈ specials
    · have hnat : c.toNat = d.toNat := by
        have hbegins := List.prefix_or_prefix_of_prefix
          (List.prefix_append (escapeChar c) r) (h ▸ List.prefix_append (escapeChar d) r')
        rw [← Char.ofNat_toNat c, ← Char.ofNat_toNat d] at hbegins
        rcases hbegins with hbegins | hbegins
        · exact escapeChar_special_inj _ hc _ hd hbegins
        · exact (escapeChar_special_inj _ hd _ hc hbegins).symm
      obtain rfl : c = d := by rw [← Char.ofNat_toNat c, hnat, Char.ofNat_toNat]
      exact ⟨rfl, List.append_cancel_left h⟩
    · exact absurd h (hmixed hc hd)
  · by_cases hd : d.toNat ∈ specials
    · exact absurd h.symm (hmixed hd hc)
    · rw [escapeChar_plain hc, escapeChar_plain hd] at h
      exact List.cons.inj h

theorem escaped_decodes
    (h : xs.flatMap escapeChar ++ quote :: r = ys.flatMap escapeChar ++ quote :: r') :
    xs = ys ∧ r = r' := by
  have hend : ∀ {c : Char} {cs r r' : Text},
      quote :: r ≠ (c :: cs).flatMap escapeChar ++ quote :: r' := by
    intro c cs r r' he
    obtain ⟨x, rest, hx, hne⟩ := escapeChar_head c
    rw [List.flatMap_cons, hx] at he
    exact hne (List.cons.inj he).1.symm
  induction xs generalizing ys with
  | nil =>
    cases ys with
    | nil => exact ⟨rfl, (List.cons.inj h).2⟩
    | cons y ys => exact absurd h hend
  | cons x xs ih =>
    cases ys with
    | nil => exact absurd h.symm hend
    | cons y ys =>
      rw [List.flatMap_cons, List.flatMap_cons, List.append_assoc, List.append_assoc] at h
      obtain ⟨rfl, hrest⟩ := escapeChar_decodes h
      obtain ⟨rfl, hr⟩ := ih hrest
      exact ⟨rfl, hr⟩

theorem jsonString_append (xs r : Text) :
    jsonString xs ++ r = quote :: (xs.flatMap escapeChar ++ quote :: r) := by
  simp [jsonString]

/-- The escaping of `serde_json` is injective, whatever follows the string. -/
theorem jsonString_decodes (h : jsonString xs ++ r = jsonString ys ++ r') : xs = ys ∧ r = r' := by
  rw [jsonString_append, jsonString_append] at h
  exact escaped_decodes (List.cons.inj h).2

end Escapes

section Numbers

def isNumberChar (c : Char) : Bool :=
  c.isDigit || c == '-' || c == '+' || c == '.' || c == 'e' || c == 'E'

/-- A text that may be a JSON number. -/
structure IsNumberText (text : Text) : Prop where
  nonempty : text ≠ []
  chars : ∀ c ∈ text, isNumberChar c = true

/-- What is assumed of the rendering of finite doubles: it gives JSON numbers, different ones
for different doubles, and none that is the rendering of an integer. -/
structure Formats.RendersNumbers (formats : Formats) : Prop where
  number : ∀ d : F64, d.isFinite = true → IsNumberText (formats.jsonDouble d).toList
  injective : ∀ d d' : F64, d.isFinite = true → d'.isFinite = true →
    formats.jsonDouble d = formats.jsonDouble d' → d = d'
  not_int : ∀ (d : F64) (i : Int64), d.isFinite = true →
    formats.jsonDouble d ≠ toString i.toInt

theorem isDigit_of_mem_repr {n : Nat} (h : c ∈ n.repr.toList) : c.isDigit = true := by
  rw [Nat.repr_eq_ofList_toDigits, String.toList_ofList] at h
  exact Nat.isDigit_of_mem_toDigits (by decide) (by decide) h

theorem repr_ne_nil (n : Nat) : n.repr.toList ≠ [] := by
  rw [Nat.repr_eq_ofList_toDigits, String.toList_ofList]
  exact Nat.toDigits_ne_nil

theorem toString_negSucc (n : Nat) :
    (toString (Int.negSucc n)).toList = '-' :: (n + 1).repr.toList :=
  String.toList_append

/-- An integer is written with digits behind a sign. -/
theorem mem_toString_int {i : Int} (h : c ∈ (toString i).toList) : c.isDigit = true ∨ c = '-' := by
  cases i with
  | ofNat n => exact Or.inl (isDigit_of_mem_repr h)
  | negSucc n =>
    rw [toString_negSucc] at h
    rcases List.mem_cons.mp h with rfl | h
    · exact Or.inr rfl
    · exact Or.inl (isDigit_of_mem_repr h)

theorem isNumberText_int (i : Int) : IsNumberText (toString i).toList where
  nonempty := by
    cases i with
    | ofNat n => exact repr_ne_nil n
    | negSucc n =>
      rw [toString_negSucc]
      exact List.cons_ne_nil _ _
  chars := by
    intro c hc
    rcases mem_toString_int hc with hdigit | rfl
    · simp [isNumberChar, hdigit]
    · decide

theorem takeWhile_of_delimited (h : Delimited r) : r.takeWhile isNumberChar = [] := by
  cases r with
  | nil => rfl
  | cons c rest =>
    have hc : isNumberChar c = false := by
      rcases h with rfl | rfl | rfl <;> decide
    simp [hc]

/-- A number ends where a delimiter follows. -/
theorem IsNumberText.decodes (hx : IsNumberText xs) (hy : IsNumberText ys) (hr : Delimited r)
    (hr' : Delimited r') (h : xs ++ r = ys ++ r') : xs = ys ∧ r = r' := by
  have htake := congrArg (List.takeWhile isNumberChar) h
  rw [List.takeWhile_append_of_pos hx.chars, List.takeWhile_append_of_pos hy.chars,
    takeWhile_of_delimited hr, takeWhile_of_delimited hr', List.append_nil, List.append_nil] at htake
  subst htake
  exact ⟨rfl, List.append_cancel_left h⟩

end Numbers

section Tokens

variable {formats : Formats}

/-- The kinds of scalar that a first character tells apart. -/
inductive ScalarKind where
  | null
  | bool (value : Bool)
  | number
  | string

def Scalar.kind : Scalar → ScalarKind
  | .null => .null
  | .bool value => .bool value
  | .int _ => .number
  | .double _ => .number
  | .string _ => .string

def kindOf (c : Char) : Option ScalarKind :=
  if isNumberChar c then some .number
  else if c = 'n' then some .null
  else if c = 't' then some (.bool true)
  else if c = 'f' then some (.bool false)
  else if c = quote then some .string
  else none

theorem IsNumberText.head {text : Text} (h : IsNumberText text) :
    ∃ c rest, text = c :: rest ∧ kindOf c = some .number := by
  obtain ⟨c, rest, rfl⟩ := List.exists_cons_of_ne_nil h.nonempty
  exact ⟨c, rest, rfl, if_pos (h.chars c List.mem_cons_self)⟩

section

variable (h : formats.RendersNumbers)
include h

theorem Scalar.text_head (a : Scalar) :
    ∃ c rest, a.text formats = c :: rest ∧ kindOf c = some a.kind := by
  cases a with
  | null => exact ⟨'n', "ull".toList, rfl, rfl⟩
  | bool value =>
    cases value with
    | true => exact ⟨'t', "rue".toList, rfl, rfl⟩
    | false => exact ⟨'f', "alse".toList, rfl, rfl⟩
  | int value => exact (isNumberText_int value.toInt).head
  | double value => exact (h.number value.1 value.2).head
  | string value => exact ⟨quote, _, rfl, rfl⟩

/-- Texts that go on alike begin with the same kind of scalar. -/
theorem Scalar.kind_eq {a b : Scalar} (he : a.text formats ++ r = b.text formats ++ r') :
    a.kind = b.kind := by
  obtain ⟨c, rest, hc, hkind⟩ := a.text_head h
  obtain ⟨c', rest', hc', hkind'⟩ := b.text_head h
  rw [hc, hc'] at he
  rw [← (List.cons.inj he).1] at hkind'
  exact Option.some.inj (hkind.symm.trans hkind')

theorem Scalar.text_decodes (a : Scalar) : Decodes (Scalar.text formats) a := by
  intro b r r' hr hr' he
  have hkind := Scalar.kind_eq h he
  cases a with
  | null =>
    cases b with
    | null => exact ⟨rfl, List.append_cancel_left he⟩
    | _ => cases hkind
  | bool value =>
    cases b with
    | bool value' =>
      cases hkind
      exact ⟨rfl, List.append_cancel_left he⟩
    | _ => cases hkind
  | int value =>
    cases b with
    | int value' =>
      obtain ⟨hsame, hrest⟩ :=
        (isNumberText_int value.toInt).decodes (isNumberText_int value'.toInt) hr hr' he
      rw [Int64.toInt_inj.mp (Int.repr_injective (String.toList_inj.mp hsame))]
      exact ⟨rfl, hrest⟩
    | double value' =>
      obtain ⟨hsame, -⟩ :=
        (isNumberText_int value.toInt).decodes (h.number value'.1 value'.2) hr hr' he
      exact absurd (String.toList_inj.mp hsame).symm (h.not_int _ _ value'.2)
    | _ => cases hkind
  | double value =>
    cases b with
    | double value' =>
      obtain ⟨hsame, hrest⟩ :=
        (h.number value.1 value.2).decodes (h.number value'.1 value'.2) hr hr' he
      rw [Subtype.ext (h.injective _ _ value.2 value'.2 (String.toList_inj.mp hsame))]
      exact ⟨rfl, hrest⟩
    | int value' =>
      obtain ⟨hsame, -⟩ :=
        (h.number value.1 value.2).decodes (isNumberText_int value'.toInt) hr hr' he
      exact absurd (String.toList_inj.mp hsame) (h.not_int _ _ value.2)
    | _ => cases hkind
  | string value =>
    cases b with
    | string value' =>
      obtain ⟨hsame, hrest⟩ := jsonString_decodes he
      rw [String.toList_inj.mp hsame]
      exact ⟨rfl, hrest⟩
    | _ => cases hkind

/-- So scalars and keys can be read off a document. -/
theorem jsonTokens_readable : (jsonTokens formats).Readable where
  scalar_decodes := Scalar.text_decodes h
  scalar_head := by
    intro a
    obtain ⟨c, rest, hc, hkind⟩ := a.text_head h
    refine ⟨c, rest, hc, ?_, ?_, ?_⟩
    all_goals
      rintro rfl
      cases hkind
  key_decodes := by
    intro k k' r r' he
    obtain ⟨hkey, hrest⟩ := jsonString_decodes he
    exact ⟨String.toList_inj.mp hkey, (List.cons.inj hrest).2⟩
  key_head := fun k => ⟨quote, _, rfl, by decide⟩

end

end Tokens

end OtelSqlite.Model
