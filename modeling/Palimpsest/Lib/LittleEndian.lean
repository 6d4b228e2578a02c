import Mathlib.Data.List.Basic
import Mathlib.Data.UInt

/-!
# Numbers in little-endian order

A number on a fixed count of bytes, the lowest first (`LittleEndian.bytes`), and the number that
bytes spell (`LittleEndian.value`). A number that fits is read back from its bytes
(`LittleEndian.value_bytes`), and bytes are written back for the number they spell
(`LittleEndian.bytes_value`).
-/

namespace LittleEndian

/-- A number on so many bytes, the lowest first. -/
def bytes : ℕ → ℕ → List UInt8
  | 0, _ => []
  | k + 1, n => UInt8.ofNat n :: bytes k (n / 256)

/-- The number that bytes spell, the lowest first. -/
def value : List UInt8 → ℕ
  | [] => 0
  | b :: l => b.toNat + 256 * value l

theorem length_bytes (k n : ℕ) : (bytes k n).length = k := by
  induction k generalizing n with
  | zero => rfl
  | succ k ih => rw [bytes, List.length_cons, ih]

/-- **A number that fits is read back from its bytes.** -/
theorem value_bytes {k n : ℕ} (h : n < 256 ^ k) : value (bytes k n) = n := by
  induction k generalizing n with
  | zero => exact (Nat.lt_one_iff.mp h).symm
  | succ k ih =>
    have hrest : n / 256 < 256 ^ k := by
      rw [Nat.div_lt_iff_lt_mul (by decide), ← Nat.pow_succ]
      exact h
    rw [bytes, value, ih hrest, UInt8.toNat_ofNat']
    omega

/-- Bytes are written back for the number they spell. -/
theorem bytes_value (l : List UInt8) : bytes l.length (value l) = l := by
  induction l with
  | nil => rfl
  | cons b l ih =>
    have hb := b.toNat_lt
    have hfirst : UInt8.ofNat (b.toNat + 256 * value l) = b := by
      apply UInt8.toNat_inj.mp
      rw [UInt8.toNat_ofNat']
      omega
    have hrest : (b.toNat + 256 * value l) / 256 = value l := by omega
    rw [List.length_cons, value, bytes, hfirst, hrest, ih]

/-- The number of bytes that are put together. -/
theorem value_append (s t : List UInt8) : value (s ++ t) = value s + 256 ^ s.length * value t := by
  induction s with
  | nil => rw [List.nil_append, value, List.length_nil, Nat.pow_zero, Nat.one_mul, Nat.zero_add]
  | cons b s ih =>
    rw [List.cons_append, value, value, ih, List.length_cons, Nat.pow_succ, Nat.mul_add,
      Nat.add_assoc, ← Nat.mul_assoc, Nat.mul_comm 256 (256 ^ s.length)]

end LittleEndian
