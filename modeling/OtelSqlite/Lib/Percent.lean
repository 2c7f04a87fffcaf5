import Mathlib.Data.List.Basic

/-!
# Percent encoding

Bytes are kept or written as `%` and two hexadecimal digits; which ones are kept is a
parameter. Decoding takes a `%` that two digits do not follow as it stands.
-/

namespace OtelSqlite.Lib

section Digits

def upperHex (n : Nat) : UInt8 := if n < 10 then .ofNat (0x30 + n) else .ofNat (0x37 + n)

def hexValue (b : UInt8) : Option Nat :=
  if 0x30 ≤ b ∧ b ≤ 0x39 then some (b.toNat - 0x30)
  else if 0x41 ≤ b ∧ b ≤ 0x46 then some (b.toNat - 0x37)
  else if 0x61 ≤ b ∧ b ≤ 0x66 then some (b.toNat - 0x57)
  else none

theorem hexValue_upperHex {n : Nat} (h : n < 16) : hexValue (upperHex n) = some n := by
  have hall : ∀ n : Fin 16, hexValue (upperHex n) = some n.1 := by decide
  exact hall ⟨n, h⟩

end Digits

variable (literal : UInt8 → Bool)

/-- One byte: as it is or as `%XX`. -/
def encodeByte (b : UInt8) : List UInt8 :=
  if literal b then [b] else [0x25, upperHex (b.toNat / 16), upperHex (b.toNat % 16)]

def percentEncode (bytes : List UInt8) : List UInt8 := bytes.flatMap (encodeByte literal)

def percentDecode : List UInt8 → List UInt8
  | a :: h :: l :: rest =>
    if a = 0x25 then
      match hexValue h, hexValue l with
      | some high, some low => .ofNat (16 * high + low) :: percentDecode rest
      | _, _ => a :: percentDecode (h :: l :: rest)
    else a :: percentDecode (h :: l :: rest)
  | [a, b] => [a, b]
  | [a] => [a]
  | [] => []

theorem percentDecode_cons_of_ne {a : UInt8} (h : a ≠ 0x25) (rest : List UInt8) :
    percentDecode (a :: rest) = a :: percentDecode rest := by
  match rest with
  | [] => rfl
  | [_] => rfl
  | _ :: _ :: _ => rw [percentDecode, if_neg h]

/-- What has no escape in it stands in front unchanged. -/
theorem percentDecode_append_of_notMem {front : List UInt8} (h : 0x25 ∉ front)
    (rest : List UInt8) : percentDecode (front ++ rest) = front ++ percentDecode rest := by
  induction front with
  | nil => rfl
  | cons a front ih =>
    obtain ⟨ha, hfront⟩ := not_or.mp (mt List.mem_cons.mpr h)
    rw [List.cons_append, percentDecode_cons_of_ne (Ne.symm ha), ih hfront, List.cons_append]

variable {literal}

theorem percentDecode_encodeByte (hliteral : literal 0x25 = false) (b : UInt8)
    (rest : List UInt8) :
    percentDecode (encodeByte literal b ++ rest) = b :: percentDecode rest := by
  rw [encodeByte]
  split
  · next h =>
    refine percentDecode_cons_of_ne ?_ rest
    rintro rfl
    rw [hliteral] at h
    cases h
  · have hlt := b.toNat_lt
    have hvalue : 16 * (b.toNat / 16) + b.toNat % 16 = b.toNat := Nat.div_add_mod _ _
    rw [List.cons_append, List.cons_append, List.cons_append, List.nil_append, percentDecode,
      if_pos rfl, hexValue_upperHex (by omega), hexValue_upperHex (Nat.mod_lt _ (by decide))]
    dsimp only
    rw [hvalue, UInt8.ofNat_toNat]

/-- Decoding gives back what was encoded. -/
theorem percentDecode_percentEncode (hliteral : literal 0x25 = false) (bytes : List UInt8) :
    percentDecode (percentEncode literal bytes) = bytes := by
  induction bytes with
  | nil => rfl
  | cons b bytes ih =>
    rw [percentEncode, List.flatMap_cons, percentDecode_encodeByte hliteral, ← percentEncode, ih]

/-- An encoded text has literal bytes, `%` and digits in it, and nothing else. -/
theorem mem_percentEncode {bytes : List UInt8} {c : UInt8} (h : c ∈ percentEncode literal bytes) :
    literal c = true ∨ c = 0x25 ∨ ∃ n < 16, c = upperHex n := by
  obtain ⟨b, -, hc⟩ := List.mem_flatMap.mp h
  have hlt := b.toNat_lt
  rw [encodeByte] at hc
  split at hc
  · next hb =>
    rw [List.mem_singleton.mp hc]
    exact .inl hb
  · simp only [List.mem_cons, List.not_mem_nil, or_false] at hc
    rcases hc with rfl | rfl | rfl
    · exact .inr (.inl rfl)
    · exact .inr (.inr ⟨b.toNat / 16, by omega, rfl⟩)
    · exact .inr (.inr ⟨b.toNat % 16, Nat.mod_lt _ (by decide), rfl⟩)

end OtelSqlite.Lib
