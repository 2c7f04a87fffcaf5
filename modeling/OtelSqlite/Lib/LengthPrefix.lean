import Mathlib.Algebra.Order.Ring.Nat
import Mathlib.Data.List.Basic

/-!
# Length-prefixed concatenation

Byte strings behind their lengths, each length in eight little-endian bytes. As long as
the lengths fit, different lists of byte strings have different concatenations.
-/

namespace OtelSqlite.Lib

/-- The `width` low bytes of a number, lowest first. -/
def toLeBytes : Nat → Nat → List UInt8
  | 0, _ => []
  | width + 1, n => UInt8.ofNat n :: toLeBytes width (n / 256)

@[simp] theorem length_toLeBytes (width n : Nat) : (toLeBytes width n).length = width := by
  induction width generalizing n with
  | zero => rfl
  | succ width ih => rw [toLeBytes, List.length_cons, ih]

theorem toLeBytes_inj {width a b : Nat} (ha : a < 256 ^ width) (hb : b < 256 ^ width)
    (h : toLeBytes width a = toLeBytes width b) : a = b := by
  induction width generalizing a b with
  | zero =>
    rw [Nat.pow_zero] at ha hb
    omega
  | succ width ih =>
    obtain ⟨hlow, hhigh⟩ := List.cons.inj h
    have hmod : a % 256 = b % 256 := by simpa using congrArg UInt8.toNat hlow
    have hdiv : a / 256 = b / 256 := by
      apply ih _ _ hhigh
      · exact Nat.div_lt_of_lt_mul (by rwa [Nat.pow_succ, Nat.mul_comm] at ha)
      · exact Nat.div_lt_of_lt_mul (by rwa [Nat.pow_succ, Nat.mul_comm] at hb)
    omega

/-- The part behind its length. -/
def lengthPrefixed (part : List UInt8) : List UInt8 := toLeBytes 8 part.length ++ part

def framed (parts : List (List UInt8)) : List UInt8 := parts.flatMap lengthPrefixed

theorem lengthPrefixed_append_inj {a b as bs : List UInt8} (ha : a.length < 2 ^ 64)
    (hb : b.length < 2 ^ 64) (h : lengthPrefixed a ++ as = lengthPrefixed b ++ bs) :
    a = b ∧ as = bs := by
  simp only [lengthPrefixed, List.append_assoc] at h
  obtain ⟨hlength, hrest⟩ := List.append_inj h (by simp)
  exact List.append_inj hrest (toLeBytes_inj (by omega) (by omega) hlength)

theorem framed_cons_ne_nil (part : List UInt8) (parts : List (List UInt8)) :
    framed (part :: parts) ≠ [] := by
  simp [framed, lengthPrefixed, toLeBytes]

theorem framed_inj {parts parts' : List (List UInt8)} (h : ∀ p ∈ parts, p.length < 2 ^ 64)
    (h' : ∀ p ∈ parts', p.length < 2 ^ 64) (heq : framed parts = framed parts') :
    parts = parts' := by
  induction parts generalizing parts' with
  | nil =>
    cases parts' with
    | nil => rfl
    | cons p rest => exact absurd heq.symm (framed_cons_ne_nil p rest)
  | cons p parts ih =>
    cases parts' with
    | nil => exact absurd heq (framed_cons_ne_nil p parts)
    | cons p' parts' =>
      rw [List.forall_mem_cons] at h h'
      obtain ⟨hp, hrest⟩ := lengthPrefixed_append_inj h.1 h'.1 heq
      rw [hp, ih h.2 h'.2 hrest]

end OtelSqlite.Lib
