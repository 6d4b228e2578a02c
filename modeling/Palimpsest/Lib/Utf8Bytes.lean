import Mathlib.Data.UInt
import Palimpsest.Lib.Utf8

/-!
# The bytes of a character by its code

How many bytes a character takes and what they are depends on its code alone (`Utf8.bytesOf`).
-/

namespace Utf8

/-- The bytes of the character with this code. -/
def bytesOf (v : ℕ) : List UInt8 :=
  if v ≤ 0x7f then [.ofNat v]
  else if v ≤ 0x7ff then [.ofNat (v / 64 % 0x20 + 0xc0), .ofNat (v % 0x40 + 0x80)]
  else if v ≤ 0xffff then
    [.ofNat (v / 4096 % 0x10 + 0xe0), .ofNat (v / 64 % 0x40 + 0x80), .ofNat (v % 0x40 + 0x80)]
  else
    [.ofNat (v / 262144 % 0x08 + 0xf0), .ofNat (v / 4096 % 0x40 + 0x80),
      .ofNat (v / 64 % 0x40 + 0x80), .ofNat (v % 0x40 + 0x80)]

theorem utf8EncodeChar_eq (c : Char) : String.utf8EncodeChar c = bytesOf c.toNat := rfl

theorem exists_char {n : ℕ} (h : n.isValidChar) : ∃ c : Char, c.toNat = n :=
  ⟨Char.ofNatAux n h, rfl⟩

/-- The bytes of a code that is one are those of its character. -/
theorem exists_eq_bytesOf {v : ℕ} (h : v.isValidChar) :
    ∃ c : Char, c.toNat = v ∧ String.utf8EncodeChar c = bytesOf v := by
  obtain ⟨c, rfl⟩ := exists_char h
  exact ⟨c, rfl, utf8EncodeChar_eq c⟩

theorem eq_ofNat {b : UInt8} {n : ℕ} (h : b.toNat = n % 256) : b = UInt8.ofNat n := by
  rw [← UInt8.toNat_inj, UInt8.toNat_ofNat', h]

theorem encode_singleton {c : Char} (hc : c.toNat < 0x80) : encode [c] = [asciiByte c] := by
  rw [encode_cons, utf8EncodeChar_of_ascii hc, encode_nil, List.append_nil]

theorem asciiByte_injective {c d : Char} (hc : c.toNat < 0x80) (hd : d.toNat < 0x80)
    (h : asciiByte c = asciiByte d) : c = d := by
  have hnat : c.toNat = d.toNat := by rw [← toNat_asciiByte hc, h, toNat_asciiByte hd]
  rw [← Char.ofNat_toNat c, hnat, Char.ofNat_toNat]

end Utf8
