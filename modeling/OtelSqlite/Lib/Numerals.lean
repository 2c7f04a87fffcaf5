import Mathlib.Algebra.Order.Ring.Nat
import Mathlib.Data.List.Basic

/-!
# Numerals of fixed width

A text is told apart from what follows by its characters. Texts of equal length compare part by
part, and numbers with leading zeros up to one width
compare as their texts do. A text of ASCII characters compares as its bytes do.
-/

namespace OtelSqlite.Lib

section Parts

variable {α : Type}

/-- A text ends where the first character without `p` follows. -/
theorem append_inj_of_delimited {p : α → Bool} {a b c d : List α} (ha : ∀ x ∈ a, p x = true)
    (hb : ∀ x ∈ b, p x = true) (hc : c.takeWhile p = []) (hd : d.takeWhile p = [])
    (h : a ++ c = b ++ d) : a = b ∧ c = d := by
  have htake := congrArg (List.takeWhile p) h
  rw [List.takeWhile_append_of_pos ha, List.takeWhile_append_of_pos hb, hc, hd, List.append_nil,
    List.append_nil] at htake
  subst htake
  exact ⟨rfl, List.append_cancel_left h⟩

variable [LT α]

/-- Of two texts the first parts decide, if they have the same length and differ. -/
theorem append_lt_append_iff {a b c d : List α} (h : a.length = b.length) :
    a ++ c < b ++ d ↔ a < b ∨ a = b ∧ c < d := by
  induction a generalizing b with
  | nil =>
    rw [List.eq_nil_of_length_eq_zero h.symm]
    simp
  | cons x a ih =>
    cases b with
    | nil => cases h
    | cons y b =>
      rw [List.cons_append, List.cons_append, List.cons_lt_cons_iff, List.cons_lt_cons_iff,
        ih (Nat.succ.inj h), List.cons.injEq]
      tauto

end Parts

section Decimal

variable {a b width n : Nat}

/-- The last digits of a number, as many as the width says. -/
def decimal : Nat → Nat → List Char
  | 0, _ => []
  | width + 1, n => decimal width (n / 10) ++ [Nat.digitChar (n % 10)]

theorem length_decimal (width n : Nat) : (decimal width n).length = width := by
  induction width generalizing n with
  | zero => rfl
  | succ width ih => rw [decimal, List.length_append, ih, List.length_singleton]

theorem decimal_zero (width : Nat) : decimal width 0 = List.replicate width '0' := by
  induction width with
  | zero => rfl
  | succ width ih =>
    rw [decimal, Nat.zero_div, ih, List.replicate_succ']
    rfl

theorem digitChar_lt_iff (ha : a < 10) (hb : b < 10) :
    Nat.digitChar a < Nat.digitChar b ↔ a < b := by
  have hall : ∀ a b : Fin 10, Nat.digitChar a < Nat.digitChar b ↔ a < b := by decide
  exact hall ⟨a, ha⟩ ⟨b, hb⟩

theorem digitChar_inj (ha : a < 10) (hb : b < 10) : Nat.digitChar a = Nat.digitChar b ↔ a = b := by
  refine ⟨fun h => ?_, congrArg _⟩
  have hchars := congrArg Char.toNat h
  rw [Nat.toNat_digitChar_of_lt_ten ha, Nat.toNat_digitChar_of_lt_ten hb] at hchars
  exact Nat.add_left_cancel hchars

theorem decimal_inj (ha : a < 10 ^ width) (hb : b < 10 ^ width) :
    decimal width a = decimal width b ↔ a = b := by
  refine ⟨fun h => ?_, congrArg _⟩
  induction width generalizing a b with
  | zero => omega
  | succ width ih =>
    rw [decimal, decimal] at h
    obtain ⟨hfront, hlast⟩ := List.append_inj' h rfl
    have hdiv : a / 10 = b / 10 := ih (by omega) (by omega) hfront
    have hmod : a % 10 = b % 10 :=
      (digitChar_inj (Nat.mod_lt _ (by decide)) (Nat.mod_lt _ (by decide))).mp
        (List.singleton_inj.mp hlast)
    omega

/-- Within the width, numbers compare as their numerals do. -/
theorem decimal_lt_iff (ha : a < 10 ^ width) (hb : b < 10 ^ width) :
    decimal width a < decimal width b ↔ a < b := by
  induction width generalizing a b with
  | zero => simp [decimal]; omega
  | succ width ih =>
    have ha' : a / 10 < 10 ^ width := by omega
    have hb' : b / 10 < 10 ^ width := by omega
    have hlast : ∀ x y : Char, [x] < [y] ↔ x < y := by simp [List.cons_lt_cons_iff]
    rw [decimal, decimal, append_lt_append_iff (by rw [length_decimal, length_decimal]), ih ha' hb',
      decimal_inj ha' hb', hlast, digitChar_lt_iff (Nat.mod_lt _ (by decide))
        (Nat.mod_lt _ (by decide))]
    omega

theorem decimal_append_lt_iff {c d : List Char} (ha : a < 10 ^ width) (hb : b < 10 ^ width) :
    decimal width a ++ c < decimal width b ++ d ↔ a < b ∨ a = b ∧ c < d := by
  rw [append_lt_append_iff (by rw [length_decimal, length_decimal]), decimal_lt_iff ha hb,
    decimal_inj ha hb]

/-- A number padded with zeros. -/
theorem replicate_append_toDigits (h : n < 10 ^ (width + 1)) :
    List.replicate (width + 1 - (Nat.toDigits 10 n).length) '0' ++ Nat.toDigits 10 n =
      decimal (width + 1) n := by
  induction width generalizing n with
  | zero =>
    have hn : n < 10 := h
    rw [Nat.toDigits_of_lt_base hn, decimal, Nat.mod_eq_of_lt hn]
    rfl
  | succ width ih =>
    rw [decimal]
    by_cases hn : n < 10
    · rw [Nat.toDigits_of_lt_base hn, Nat.mod_eq_of_lt hn, Nat.div_eq_of_lt hn, decimal_zero]
      rfl
    · rw [Nat.toDigits_of_base_le (by decide) (Nat.le_of_not_lt hn), List.length_append,
        List.length_singleton, Nat.add_sub_add_right, ← List.append_assoc, ih]
      omega

theorem ascii_of_mem_decimal {c : Char} (h : c ∈ decimal width n) : c.toNat < 128 := by
  induction width generalizing n with
  | zero => cases h
  | succ width ih =>
    rcases List.mem_append.mp h with hfront | hlast
    · exact ih hfront
    · have hdigit : n % 10 < 10 := Nat.mod_lt _ (by decide)
      rw [List.mem_singleton.mp hlast, Nat.toNat_digitChar_of_lt_ten hdigit]
      omega

end Decimal

section Ascii

variable {c d : Char} {a b text : List Char}

/-- The byte of an ASCII character. -/
def asciiByte (c : Char) : UInt8 := c.val.toUInt8

theorem toNat_asciiByte (h : c.toNat < 128) : (asciiByte c).toNat = c.toNat := by
  rw [asciiByte, UInt32.toNat_toUInt8]
  exact Nat.mod_eq_of_lt (Nat.lt_trans h (by decide))

theorem utf8EncodeChar_of_ascii (h : c.toNat < 128) : String.utf8EncodeChar c = [asciiByte c] := by
  apply String.utf8EncodeChar_eq_singleton
  rw [Char.utf8Size_eq_one_iff, UInt32.le_iff_toNat_le]
  exact Nat.le_of_lt_succ h

/-- One byte for each character. -/
theorem bytes_ofList_of_ascii (h : ∀ c ∈ text, c.toNat < 128) :
    (String.ofList text).toUTF8.data.toList = text.map asciiByte := by
  rw [String.toUTF8_eq_toByteArray, String.toByteArray_ofList]
  induction text with
  | nil => rfl
  | cons c text ih =>
    rw [List.utf8Encode_cons, List.utf8Encode_singleton,
      utf8EncodeChar_of_ascii (h c List.mem_cons_self), ByteArray.data_append,
      Array.toList_append, ih fun d hd => h d (List.mem_cons_of_mem _ hd)]
    simp

theorem asciiByte_lt_iff (hc : c.toNat < 128) (hd : d.toNat < 128) :
    asciiByte c < asciiByte d ↔ c < d := by
  rw [UInt8.lt_iff_toNat_lt, toNat_asciiByte hc, toNat_asciiByte hd]
  rfl

theorem asciiByte_inj (hc : c.toNat < 128) (hd : d.toNat < 128) :
    asciiByte c = asciiByte d ↔ c = d := by
  rw [← UInt8.toNat_inj, toNat_asciiByte hc, toNat_asciiByte hd, Char.toNat_inj]

/-- The bytes compare as the characters do. -/
theorem map_asciiByte_lt_iff (ha : ∀ c ∈ a, c.toNat < 128) (hb : ∀ c ∈ b, c.toNat < 128) :
    a.map asciiByte < b.map asciiByte ↔ a < b := by
  induction a generalizing b with
  | nil =>
    cases b with
    | nil | cons d b => simp
  | cons c a ih =>
    cases b with
    | nil => simp
    | cons d b =>
      obtain ⟨hc, ha⟩ := List.forall_mem_cons.mp ha
      obtain ⟨hd, hb⟩ := List.forall_mem_cons.mp hb
      rw [List.map_cons, List.map_cons, List.cons_lt_cons_iff, List.cons_lt_cons_iff,
        asciiByte_lt_iff hc hd, asciiByte_inj hc hd, ih ha hb]

end Ascii

end OtelSqlite.Lib
