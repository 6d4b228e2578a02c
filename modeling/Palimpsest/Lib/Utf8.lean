import Mathlib.Data.List.Basic
import Mathlib.Data.String.Basic

/-!
# Texts and their UTF-8 bytes

The bytes of an ASCII character are one byte, which occurs in the bytes of no other character
(`Utf8.mem_bytes`). So a text can be searched for an ASCII character, and cut at it, on its
bytes (`Utf8.mem_encode`, `Utf8.splitOn_encode`).
-/

namespace Utf8

/-- The bytes of a text. -/
def encode (t : List Char) : List UInt8 := t.flatMap String.utf8EncodeChar

variable {c d : Char} {t u : List Char}

theorem encode_nil : encode [] = [] := rfl

theorem encode_cons (c : Char) (t : List Char) :
    encode (c :: t) = String.utf8EncodeChar c ++ encode t := rfl

theorem encode_append (t u : List Char) : encode (t ++ u) = encode t ++ encode u :=
  List.flatMap_append

/-- These are the bytes of the string. -/
theorem toByteArray_ofList (t : List Char) :
    (String.ofList t).toByteArray.data.toList = encode t := by
  rw [String.toByteArray_ofList, List.utf8Encode, List.toList_data_toByteArray, encode]

/-- The byte of an ASCII character. -/
def asciiByte (c : Char) : UInt8 := UInt8.ofNat c.toNat

theorem toNat_asciiByte (hc : c.toNat < 0x80) : (asciiByte c).toNat = c.toNat := by
  rw [asciiByte, UInt8.toNat_ofNat', Nat.mod_eq_of_lt (by omega)]

theorem utf8EncodeChar_of_ascii (hc : c.toNat < 0x80) :
    String.utf8EncodeChar c = [asciiByte c] := by
  have hle : c.val.toNat ≤ 0x7f := Nat.le_of_lt_succ hc
  rw [String.utf8EncodeChar, if_pos hle]
  rfl

/-- The bytes of a character beyond ASCII are beyond it as well. -/
theorem le_of_mem_utf8EncodeChar (hd : 0x80 ≤ d.toNat) {b : UInt8}
    (h : b ∈ String.utf8EncodeChar d) : 0x80 ≤ b.toNat := by
  have hnot : ¬d.val.toNat ≤ 0x7f := Nat.not_le.mpr hd
  rw [String.utf8EncodeChar, if_neg hnot] at h
  split_ifs at h <;>
    simp only [List.mem_cons, List.not_mem_nil, or_false] at h <;>
    rcases h with rfl | rfl | h <;> (try rcases h with rfl | rfl) <;>
    rw [UInt8.toNat_ofNat'] <;> omega

/-- The byte of an ASCII character is in the bytes of no other character. -/
theorem mem_bytes (hc : c.toNat < 0x80) : asciiByte c ∈ String.utf8EncodeChar d ↔ d = c := by
  constructor
  · intro h
    by_cases hd : d.toNat < 0x80
    · rw [utf8EncodeChar_of_ascii hd, List.mem_singleton] at h
      have hnat : c.toNat = d.toNat := by rw [← toNat_asciiByte hc, h, toNat_asciiByte hd]
      rw [← Char.ofNat_toNat d, ← hnat, Char.ofNat_toNat]
    · have hle := le_of_mem_utf8EncodeChar (Nat.not_lt.mp hd) h
      rw [toNat_asciiByte hc] at hle
      omega
  · rintro rfl
    rw [utf8EncodeChar_of_ascii hc]
    exact List.mem_singleton_self _

theorem mem_encode (hc : c.toNat < 0x80) : asciiByte c ∈ encode t ↔ c ∈ t := by
  rw [encode, List.mem_flatMap]
  constructor
  · rintro ⟨d, hd, hmem⟩
    exact (mem_bytes hc).mp hmem ▸ hd
  · intro h
    exact ⟨c, h, (mem_bytes hc).mpr rfl⟩

theorem encode_eq_nil : encode t = [] ↔ t = [] := by
  constructor
  · intro h
    cases t with
    | nil => rfl
    | cons c t => exact absurd (List.append_eq_nil_iff.mp h).1 String.utf8EncodeChar_ne_nil
  · rintro rfl
    rfl

/-- A character takes a byte or more. -/
theorem length_le_encode (t : List Char) : t.length ≤ (encode t).length := by
  induction t with
  | nil => exact Nat.le_refl 0
  | cons c t ih =>
    have hpos : 0 < (String.utf8EncodeChar c).length :=
      List.length_pos_iff.mpr String.utf8EncodeChar_ne_nil
    rw [encode_cons, List.length_append, List.length_cons]
    omega

/-- A text is determined by its bytes. -/
theorem encode_injective : Function.Injective encode := by
  intro t u h
  have hbytes : (String.ofList t).toByteArray = (String.ofList u).toByteArray := by
    apply ByteArray.ext
    rw [← Array.toList_inj, toByteArray_ofList, toByteArray_ofList, h]
  rw [← String.toList_ofList (l := t), String.toByteArray_inj.mp hbytes, String.toList_ofList]

/-- Cut at an ASCII character, a text and its bytes have the same pieces. -/
theorem splitOn_encode (hc : c.toNat < 0x80) (t : List Char) :
    (encode t).splitOn (asciiByte c) = (t.splitOn c).map encode := by
  induction hn : t.length using Nat.strongRecOn generalizing t with
  | ind n ih =>
    by_cases hmem : c ∈ t
    · obtain ⟨first, rest, rfl, hfirst⟩ := List.eq_append_cons_of_mem hmem
      have hbyte : asciiByte c ∉ encode first := fun h => hfirst ((mem_encode hc).mp h)
      have hlen : rest.length < n := by
        rw [← hn, List.length_append, List.length_cons]
        omega
      rw [encode_append, encode_cons, utf8EncodeChar_of_ascii hc, List.singleton_append,
        List.splitOn_append_cons_self_of_not_mem hbyte,
        List.splitOn_append_cons_self_of_not_mem hfirst, List.map_cons,
        ih rest.length hlen rest rfl]
    · have hbyte : asciiByte c ∉ encode t := fun h => hmem ((mem_encode hc).mp h)
      rw [List.splitOn_eq_singleton hbyte, List.splitOn_eq_singleton hmem, List.map_singleton]

end Utf8
