import Palimpsest.Account.AccountTexts
import Palimpsest.Guest.KernelCmdline
import Palimpsest.Lib.ByteParser
import Palimpsest.Lib.JsonWidth

/-!
# The tokens of the guest's parser

The first process of the guest reads the plan with a parser that knows one spelling of every
value: strings with the escapes that `json.dumps` writes and no other, numbers without leading
zeros, no blanks. Each function is here as the source has it, and is followed by what it takes:
a string is taken if and only if it is the text of some characters without a NUL
(`Palimpsest.Stage1.Init.jsonString_eq_some`).
-/

namespace Palimpsest.Stage1.Init

open Json ByteParser
open Utf8 (asciiByte encode)

variable {l r raw : List UInt8} {n : ℕ}

/-! ### Characters -/

/-- `(b & 0xc0) == 0x80` -/
def continues (b : UInt8) : Bool := b.toNat / 64 = 2

/-- `utf8_advance`: the width of the character in front, unless it is a control character. What `&`
keeps of a byte is a remainder, and `|` adds disjoint bits. -/
def utf8Advance : List UInt8 → Option ℕ
  | [] => none
  | p :: l =>
    if p.toNat < 0x80 then if 0x20 ≤ p.toNat then some 1 else none
    else if 0xc2 ≤ p.toNat ∧ p.toNat ≤ 0xdf then
      match l with
      | p₁ :: _ => if continues p₁ then some 2 else none
      | [] => none
    else if 0xe0 ≤ p.toNat ∧ p.toNat ≤ 0xef then
      match l with
      | p₁ :: p₂ :: _ =>
        if continues p₁ ∧ continues p₂ then
          let cp := p.toNat % 16 * 4096 + p₁.toNat % 64 * 64 + p₂.toNat % 64
          if cp < 0x800 ∨ (0xd800 ≤ cp ∧ cp ≤ 0xdfff) then none else some 3
        else none
      | _ => none
    else if 0xf0 ≤ p.toNat ∧ p.toNat ≤ 0xf4 then
      match l with
      | p₁ :: p₂ :: p₃ :: _ =>
        if continues p₁ ∧ continues p₂ ∧ continues p₃ then
          let cp := p.toNat % 8 * 262144 + p₁.toNat % 64 * 4096 + p₂.toNat % 64 * 64 + p₃.toNat % 64
          if cp < 0x10000 ∨ 0x10ffff < cp then none else some 4
        else none
      | _ => none
    else none

theorem exists_of_bytes {v : ℕ} {b : List UInt8} (hv : v.isValidChar) (hblank : 0x20 ≤ v)
    (hb : b = Utf8.bytesOf v) (r : List UInt8) : ∃ c u, 0x20 ≤ c.toNat ∧
      b ++ r = String.utf8EncodeChar c ++ u ∧ b.length = (String.utf8EncodeChar c).length := by
  obtain ⟨c, rfl, hc⟩ := Utf8.exists_eq_bytesOf hv
  exact ⟨c, r, hblank, by rw [hb, hc], by rw [hb, hc]⟩

theorem utf8Advance_sound (h : utf8Advance l = some n) : ∃ c u, 0x20 ≤ c.toNat ∧
    l = String.utf8EncodeChar c ++ u ∧ n = (String.utf8EncodeChar c).length := by
  unfold utf8Advance at h
  split at h
  · cases h
  · next p l =>
    -- By the number of bytes that the first one announces.
    split_ifs at h with hascii hblank htwo hthree hfour
    · obtain rfl := Option.some.inj h
      refine exists_of_bytes (v := p.toNat) (b := [p]) (Or.inl (by omega)) hblank ?_ l
      rw [Utf8.bytesOf, if_pos (by omega), UInt8.ofNat_toNat]
    · split at h
      · next p₁ l =>
        split_ifs at h with hcont
        obtain rfl := Option.some.inj h
        simp only [continues, decide_eq_true_eq] at hcont
        have hv : 0x80 ≤ p.toNat % 32 * 64 + p₁.toNat % 64 ∧
            p.toNat % 32 * 64 + p₁.toNat % 64 ≤ 0x7ff := by omega
        refine exists_of_bytes (v := p.toNat % 32 * 64 + p₁.toNat % 64) (b := [p, p₁])
          (Or.inl (by omega)) (by omega) ?_ l
        rw [Utf8.bytesOf, if_neg (by omega), if_pos hv.2, List.cons.injEq, List.cons.injEq]
        exact ⟨Utf8.eq_ofNat (by omega), Utf8.eq_ofNat (by omega), rfl⟩
      · cases h
    · split at h
      · next p₁ p₂ l =>
        dsimp only at h
        split_ifs at h with hcont hcp
        obtain rfl := Option.some.inj h
        simp only [continues, decide_eq_true_eq] at hcont
        refine exists_of_bytes (b := [p, p₁, p₂])
          (v := p.toNat % 16 * 4096 + p₁.toNat % 64 * 64 + p₂.toNat % 64)
          (by rw [Nat.isValidChar]; omega) (by omega) ?_ l
        rw [Utf8.bytesOf, if_neg (by omega), if_neg (by omega), if_pos (by omega)]
        simp only [List.cons.injEq]
        exact ⟨Utf8.eq_ofNat (by omega), Utf8.eq_ofNat (by omega), Utf8.eq_ofNat (by omega),
          trivial⟩
      · cases h
    · split at h
      · next p₁ p₂ p₃ l =>
        dsimp only at h
        split_ifs at h with hcont hcp
        obtain rfl := Option.some.inj h
        simp only [continues, decide_eq_true_eq] at hcont
        refine exists_of_bytes (b := [p, p₁, p₂, p₃])
          (v := p.toNat % 8 * 262144 + p₁.toNat % 64 * 4096 + p₂.toNat % 64 * 64 + p₃.toNat % 64)
          (by rw [Nat.isValidChar]; omega) (by omega) ?_ l
        rw [Utf8.bytesOf, if_neg (by omega), if_neg (by omega), if_neg (by omega)]
        simp only [List.cons.injEq]
        exact ⟨Utf8.eq_ofNat (by omega), Utf8.eq_ofNat (by omega), Utf8.eq_ofNat (by omega),
          Utf8.eq_ofNat (by omega), trivial⟩
      · cases h

theorem utf8Advance_complete {c : Char} (hblank : 0x20 ≤ c.toNat) (r : List UInt8) :
    utf8Advance (String.utf8EncodeChar c ++ r) = some (String.utf8EncodeChar c).length := by
  have hvalid : c.toNat.isValidChar := c.valid
  rw [Nat.isValidChar] at hvalid
  rw [Utf8.utf8EncodeChar_eq]
  generalize c.toNat = v at *
  rw [Utf8.bytesOf]
  -- one case for each width, which the first byte shows
  split_ifs with hone htwo hthree <;>
    simp only [List.cons_append, List.nil_append, utf8Advance, continues, UInt8.toNat_ofNat',
      decide_eq_true_eq, List.length_cons, List.length_nil]
  · rw [if_pos (by omega), if_pos (by omega)]
  · rw [if_neg (by omega), if_pos (by omega), if_pos (by omega)]
  · rw [if_neg (by omega), if_neg (by omega), if_pos (by omega), if_pos (by omega),
      if_neg (by omega)]
  · rw [if_neg (by omega), if_neg (by omega), if_neg (by omega), if_pos (by omega),
      if_pos (by omega), if_neg (by omega)]

/-! ### Strings -/

/-- The value of a hexadecimal digit. -/
def hexValue (b : UInt8) : ℕ :=
  if b ≤ asciiByte '9' then b.toNat - '0'.toNat else b.toNat - 'a'.toNat + 10

/-- The letters of the escapes that stand for one character. -/
def shortEscapes : List UInt8 := ['"', '\\', 'b', 'f', 'n', 'r', 't'].map asciiByte

/-- Whether a code has an escape of its own, or needs none, or is not wanted. -/
def refusedCode (allowNul : Bool) (value : ℕ) : Bool :=
  0x20 ≤ value || value ∈ [8, 9, 10, 12, 13] || (!allowNul && value = 0)

/-- The digits of a code, after the `u` of its escape. -/
def scanCode (allowNul : Bool) : ByteParser (List UInt8)
  | z :: z' :: x :: y :: l =>
    if z ≠ asciiByte '0' ∨ z' ≠ asciiByte '0' ∨ !Guest.isHex x ∨ !Guest.isHex y then none
    else if refusedCode allowNul (hexValue x * 16 + hexValue y) then none
    else some ([z, z', x, y], l)
  | _ => none

/-- What follows the backslash of an escape. -/
def scanEscape (allowNul : Bool) : ByteParser (List UInt8)
  | [] => none
  | e :: l =>
    if e ∈ shortEscapes then some ([e], l)
    else if e = asciiByte 'u' then (scanCode allowNul l).map fun p => (e :: p.1, p.2)
    else none

/-- One turn of the loop of `json_string`: what is read, and how many bytes it stands for. -/
def scanChar (allowNul : Bool) : ByteParser (List UInt8 × ℕ)
  | [] => none
  | b :: l =>
    if b = asciiByte '\\' then (scanEscape allowNul l).map fun p => ((b :: p.1, 1), p.2)
    else (utf8Advance (b :: l)).bind fun width =>
      if !allowNul && b = 0 then none
      else some (((b :: l).take width, width), (b :: l).drop width)

/-- The loop of `json_string`, with the quote that ends it. -/
def scanBody (allowNul : Bool) : ℕ → ByteParser (List UInt8 × ℕ)
  | 0, _ | _, [] => none
  | fuel + 1, b :: l =>
    if b = asciiByte '"' then some (([], 0), l)
    else (do
      let c ← scanChar allowNul
      let s ← scanBody allowNul fuel
      return (c.1 ++ s.1, c.2 + s.2)) (b :: l)

/-- `json_string`: the bytes between the quotes, and how many bytes they stand for. -/
def jsonString (allowNul : Bool) : ByteParser (List UInt8 × ℕ) := do
  expect '"'
  fun l => scanBody allowNul l.length l

/-- The text of some characters in quotes. -/
def quoted (s : Text) : Text := '"' :: (escape s ++ ['"'])

theorem quote_ofList (s : Text) : quote (String.ofList s) = quoted s := by
  rw [quote, String.toList_ofList, quoted]

/-- A string does not look like the end of a list. -/
theorem quoted_head (x : Text) : ∃ c t, quoted x = c :: t ∧ c.toNat < 0x80 ∧ c ≠ ']' :=
  ⟨'"', _, rfl, by decide, by decide⟩

theorem asciiByte_hexDigit {b : UInt8} (h : Guest.isHex b = true) :
    hexValue b < 16 ∧ asciiByte (hexDigit (hexValue b)) = b := by
  have hall : ∀ m : Fin 256, Guest.isHex (.ofNat m) = true →
      hexValue (.ofNat m) < 16 ∧ asciiByte (hexDigit (hexValue (.ofNat m))) = .ofNat m := by
    decide +kernel
  have hb := hall ⟨b.toNat, b.toNat_lt⟩
  rw [UInt8.ofNat_toNat] at hb
  exact hb h

theorem isHex_asciiByte_hexDigit {k : ℕ} (h : k < 16) :
    (hexDigit k).toNat < 0x80 ∧ Guest.isHex (asciiByte (hexDigit k)) = true ∧
      hexValue (asciiByte (hexDigit k)) = k := by
  have hall : ∀ m : Fin 16, (hexDigit m).toNat < 0x80 ∧
      Guest.isHex (asciiByte (hexDigit m)) = true ∧ hexValue (asciiByte (hexDigit m)) = m := by
    decide
  exact hall ⟨k, h⟩

/-- The characters that have a short escape. -/
def hasShortEscape (c : Char) : Prop :=
  c = '"' ∨ c = '\\' ∨ c = '\n' ∨ c = '\r' ∨ c = '\t' ∨ c = '\x0c' ∨ c = '\x08'

theorem escapeChar_of_plain {c : Char} (hblank : 0x20 ≤ c.toNat) (hquote : c ≠ '"')
    (hbackslash : c ≠ '\\') : escapeChar c = [c] := by
  have hne : ∀ d : Char, d.toNat < 0x20 → c ≠ d := by
    rintro d hd rfl
    omega
  rw [escapeChar, if_neg hquote, if_neg hbackslash, if_neg (hne _ (by decide)),
    if_neg (hne _ (by decide)), if_neg (hne _ (by decide)), if_neg (hne _ (by decide)),
    if_neg (hne _ (by decide)), if_neg (by omega)]

theorem lt_of_refusedCode {v : ℕ} (h : refusedCode false v = false) : v < 0x20 := by
  by_contra hnot
  rw [refusedCode, decide_eq_true (Nat.not_lt.mp hnot), Bool.true_or, Bool.true_or] at h
  cases h

theorem escapeChar_of_control {c : Char} (hcode : refusedCode false c.toNat = false) :
    escapeChar c =
      ['\\', 'u', '0', '0', hexDigit (c.toNat / 16), hexDigit (c.toNat % 16)] := by
  have hne : ∀ d : Char, refusedCode false d.toNat = true → c ≠ d := by
    rintro d hd rfl
    rw [hd] at hcode
    cases hcode
  have hcontrol := lt_of_refusedCode hcode
  rw [escapeChar, if_neg (hne _ (by decide)), if_neg (hne _ (by decide)),
    if_neg (hne _ (by decide)), if_neg (hne _ (by decide)), if_neg (hne _ (by decide)),
    if_neg (hne _ (by decide)), if_neg (hne _ (by decide)), if_pos hcontrol]

/-- Every character but NUL has a short escape, or is a control character, or is plain. -/
theorem escape_cases {c : Char} (hc : c ≠ '\x00') : hasShortEscape c ∨
    refusedCode false c.toNat = false ∨ 0x20 ≤ c.toNat ∧ c ≠ '"' ∧ c ≠ '\\' := by
  by_cases hshort : hasShortEscape c
  · exact Or.inl hshort
  simp only [hasShortEscape, not_or] at hshort
  obtain ⟨hquote, hbackslash, hn, hr, ht, hf, hb⟩ := hshort
  by_cases hblank : 0x20 ≤ c.toNat
  · exact Or.inr (Or.inr ⟨hblank, hquote, hbackslash⟩)
  have hne : ∀ d : Char, c ≠ d → c.toNat ≠ d.toNat := fun d hd h => hd (Char.toNat_inj.mp h)
  have hcode : c.toNat ∉ [8, 9, 10, 12, 13] := by
    simp only [List.mem_cons, List.not_mem_nil, or_false, not_or]
    exact ⟨hne _ hb, hne _ ht, hne _ hn, hne _ hf, hne _ hr⟩
  right
  left
  have hnul : c.toNat ≠ 0 := hne _ hc
  rw [refusedCode, decide_eq_false hblank, decide_eq_false hcode, decide_eq_false hnul]
  rfl

theorem encode_ascii {t : Text} (h : ∀ c ∈ t, c.toNat < 0x80) : encode t = t.map asciiByte := by
  induction t with
  | nil => rfl
  | cons c t ih =>
    obtain ⟨hc, ht⟩ := List.forall_mem_cons.mp h
    rw [Utf8.encode_cons, Utf8.utf8EncodeChar_of_ascii hc, ih ht]
    rfl

theorem encode_control {m k : ℕ} (hm : m < 16) (hk : k < 16) :
    encode ['\\', 'u', '0', '0', hexDigit m, hexDigit k] = [asciiByte '\\', asciiByte 'u',
      asciiByte '0', asciiByte '0', asciiByte (hexDigit m), asciiByte (hexDigit k)] := by
  rw [encode_ascii]
  · rfl
  · have hm' := (isHex_asciiByte_hexDigit hm).1
    have hk' := (isHex_asciiByte_hexDigit hk).1
    simp only [List.forall_mem_cons]
    exact ⟨by decide, by decide, by decide, by decide, hm', hk', List.forall_mem_nil _⟩

theorem exists_control {x y : UInt8} (hx : Guest.isHex x = true) (hy : Guest.isHex y = true)
    (hcode : refusedCode false (hexValue x * 16 + hexValue y) = false) : ∃ c : Char, c ≠ '\x00' ∧
      [asciiByte '\\', asciiByte 'u', asciiByte '0', asciiByte '0', x, y] =
        encode (escapeChar c) ∧ 1 = (String.utf8EncodeChar c).length := by
  obtain ⟨hlt_x, hdigit_x⟩ := asciiByte_hexDigit hx
  obtain ⟨hlt_y, hdigit_y⟩ := asciiByte_hexDigit hy
  obtain ⟨c, hc⟩ := Utf8.exists_char (n := hexValue x * 16 + hexValue y) (Or.inl (by omega))
  have hhigh : c.toNat / 16 = hexValue x := by omega
  have hlow : c.toNat % 16 = hexValue y := by omega
  rw [← hc] at hcode
  refine ⟨c, ?_, ?_, ?_⟩
  · rintro rfl
    exact absurd hcode (by decide)
  · rw [escapeChar_of_control hcode, hhigh, hlow, encode_control hlt_x hlt_y, hdigit_x, hdigit_y]
  · rw [Utf8.utf8EncodeChar_of_ascii ((lt_of_refusedCode hcode).trans (by decide))]
    rfl

theorem scanEscape_sound (h : scanEscape false l = some (raw, r)) : ∃ c : Char, c ≠ '\x00' ∧
    asciiByte '\\' :: raw = encode (escapeChar c) ∧ 1 = (String.utf8EncodeChar c).length ∧
      l = raw ++ r := by
  cases l with
  | nil => cases h
  | cons e l =>
    rw [scanEscape] at h
    split_ifs at h with hshort hu
    · obtain ⟨rfl, rfl⟩ := Prod.mk.inj (Option.some.inj h)
      simp only [shortEscapes, List.map_cons, List.map_nil, List.mem_cons, List.not_mem_nil,
        or_false] at hshort
      -- The seven short escapes; the rest are two hexadecimal digits of a control character.
      rcases hshort with rfl | rfl | rfl | rfl | rfl | rfl | rfl
      · exact ⟨'"', by decide, by decide, by decide, rfl⟩
      · exact ⟨'\\', by decide, by decide, by decide, rfl⟩
      · exact ⟨'\x08', by decide, by decide, by decide, rfl⟩
      · exact ⟨'\x0c', by decide, by decide, by decide, rfl⟩
      · exact ⟨'\n', by decide, by decide, by decide, rfl⟩
      · exact ⟨'\r', by decide, by decide, by decide, rfl⟩
      · exact ⟨'\t', by decide, by decide, by decide, rfl⟩
    · subst hu
      obtain ⟨⟨raw', r'⟩, hcode, heq⟩ := Option.map_eq_some_iff.mp h
      obtain ⟨rfl, rfl⟩ := Prod.mk.inj heq
      unfold scanCode at hcode
      split at hcode
      · split_ifs at hcode with hdigits hrefused
        simp only [not_or, not_not, Bool.not_eq_true, Bool.not_eq_false'] at hdigits
        obtain ⟨rfl, rfl, hx, hy⟩ := hdigits
        obtain ⟨rfl, rfl⟩ := Prod.mk.inj (Option.some.inj hcode)
        obtain ⟨c, hc, hraw, hlen⟩ := exists_control hx hy (Bool.eq_false_iff.mpr hrefused)
        exact ⟨c, hc, hraw, hlen, rfl⟩
      · cases hcode

theorem scanChar_sound (hquote : l.head? ≠ some (asciiByte '"'))
    (h : scanChar false l = some ((raw, n), r)) : ∃ c : Char, c ≠ '\x00' ∧
      raw = encode (escapeChar c) ∧ n = (String.utf8EncodeChar c).length ∧ l = raw ++ r := by
  cases l with
  | nil => cases h
  | cons b l =>
    rw [scanChar] at h
    by_cases hb : b = asciiByte '\\'
    · rw [if_pos hb] at h
      obtain ⟨⟨raw', r'⟩, hescape, heq⟩ := Option.map_eq_some_iff.mp h
      simp only [Prod.mk.injEq] at heq
      obtain ⟨⟨rfl, rfl⟩, rfl⟩ := heq
      obtain ⟨c, hc, hraw, hlen, rfl⟩ := scanEscape_sound hescape
      exact ⟨c, hc, hb ▸ hraw, hlen, rfl⟩
    · rw [if_neg hb] at h
      obtain ⟨width, hwidth, h⟩ := Option.bind_eq_some_iff.mp h
      split_ifs at h with hnul
      obtain ⟨heq, rfl⟩ := Prod.mk.inj (Option.some.inj h)
      obtain ⟨rfl, rfl⟩ := Prod.mk.inj heq
      obtain ⟨c, u, hblank, hl, rfl⟩ := utf8Advance_sound hwidth
      -- the first byte is neither the quote nor the backslash
      have hne : ∀ d : Char, d.toNat < 0x80 → b ≠ asciiByte d → c ≠ d := by
        rintro d hd hbyte rfl
        rw [Utf8.utf8EncodeChar_of_ascii hd] at hl
        exact hbyte (List.cons.inj hl).1
      have hraw : escapeChar c = [c] :=
        escapeChar_of_plain hblank
          (hne _ (by decide) fun hbyte => hquote (by rw [hbyte, List.head?_cons]))
          (hne _ (by decide) hb)
      rw [hl, List.take_left, List.drop_left]
      refine ⟨c, ?_, ?_, rfl, rfl⟩
      · rintro rfl
        exact absurd hblank (by decide)
      · rw [hraw, Utf8.encode_cons, Utf8.encode_nil, List.append_nil]

theorem scanChar_complete {c : Char} (hc : c ≠ '\x00') (r : List UInt8) :
    scanChar false (encode (escapeChar c) ++ r) =
      some ((encode (escapeChar c), (String.utf8EncodeChar c).length), r) := by
  rcases escape_cases hc with hshort | hcode | ⟨hblank, hquote, hbackslash⟩
  · rcases hshort with rfl | rfl | rfl | rfl | rfl | rfl | rfl <;> rfl
  · have hlt := lt_of_refusedCode hcode
    have hhigh : c.toNat / 16 < 16 := by omega
    have hlow : c.toNat % 16 < 16 := by omega
    obtain ⟨-, hhex_high, hvalue_high⟩ := isHex_asciiByte_hexDigit hhigh
    obtain ⟨-, hhex_low, hvalue_low⟩ := isHex_asciiByte_hexDigit hlow
    have hvalue : hexValue (asciiByte (hexDigit (c.toNat / 16))) * 16 +
        hexValue (asciiByte (hexDigit (c.toNat % 16))) = c.toNat := by
      rw [hvalue_high, hvalue_low]
      omega
    rw [escapeChar_of_control hcode, encode_control hhigh hlow,
      Utf8.utf8EncodeChar_of_ascii (hlt.trans (by decide))]
    have hscan : scanCode false (asciiByte '0' :: asciiByte '0' ::
        asciiByte (hexDigit (c.toNat / 16)) :: asciiByte (hexDigit (c.toNat % 16)) :: r) =
          some ([asciiByte '0', asciiByte '0', asciiByte (hexDigit (c.toNat / 16)),
            asciiByte (hexDigit (c.toNat % 16))], r) := by
      rw [scanCode, if_neg, if_neg]
      · rw [hvalue, hcode]
        exact Bool.false_ne_true
      · rw [hhex_high, hhex_low]
        decide
    simp only [List.cons_append, List.nil_append]
    rw [scanChar, if_pos rfl, scanEscape, if_neg (by decide), if_pos rfl, hscan]
    rfl
  · rw [escapeChar_of_plain hblank hquote hbackslash, Utf8.encode_cons, Utf8.encode_nil,
      List.append_nil]
    obtain ⟨b, t, ht⟩ := List.exists_cons_of_ne_nil (String.utf8EncodeChar_ne_nil (c := c))
    have hbyte : ∀ d : Char, d.toNat < 0x80 → c ≠ d → b ≠ asciiByte d := by
      rintro d hd hne rfl
      exact hne ((Utf8.mem_bytes hd).mp (ht ▸ List.mem_cons_self))
    have hwidth := utf8Advance_complete hblank r
    rw [ht, List.cons_append] at hwidth ⊢
    rw [scanChar, if_neg (hbyte _ (by decide) hbackslash), hwidth, Option.bind_some]
    have hnul : b ≠ 0 := hbyte '\x00' (by decide) hc
    have hsplit : b :: (t ++ r) = (b :: t) ++ r := rfl
    rw [hsplit]
    simp only [Bool.not_false, Bool.true_and, decide_eq_true_eq, if_neg hnul, List.take_left,
      List.drop_left]

/-! ### Whole strings -/

theorem head?_escapeChar_ne {c : Char} (hc : c ≠ '\x00') (r : List UInt8) :
    (encode (escapeChar c) ++ r).head? ≠ some (asciiByte '"') := by
  rcases escape_cases hc with hshort | hcode | ⟨hblank, hquote, hbackslash⟩
  · rcases hshort with rfl | rfl | rfl | rfl | rfl | rfl | rfl <;> rintro ⟨⟩
  · rw [escapeChar_of_control hcode]
    exact head?_encode_ne (by decide) (by decide) (by decide) r
  · rw [escapeChar_of_plain hblank hquote hbackslash, Utf8.encode_cons, List.append_assoc]
    obtain ⟨b, t, ht⟩ := List.exists_cons_of_ne_nil (String.utf8EncodeChar_ne_nil (c := c))
    rw [ht]
    intro h
    obtain rfl : b = asciiByte '"' := Option.some.inj h
    exact hquote ((Utf8.mem_bytes (by decide)).mp (ht ▸ List.mem_cons_self))

theorem scanBody_sound {fuel : ℕ} (h : scanBody false fuel l = some ((raw, n), r)) :
    ∃ s : Text, '\x00' ∉ s ∧ raw = encode (escape s) ∧ n = (encode s).length ∧
      l = raw ++ asciiByte '"' :: r := by
  induction fuel generalizing l raw n with
  | zero => rw [scanBody] at h; cases h
  | succ fuel ih =>
    cases l with
    | nil => cases h
    | cons b l =>
      rw [scanBody] at h
      split_ifs at h with hb
      · obtain ⟨heq, rfl⟩ := Prod.mk.inj (Option.some.inj h)
        obtain ⟨rfl, rfl⟩ := Prod.mk.inj heq
        exact ⟨[], List.not_mem_nil, rfl, rfl, by rw [hb]; rfl⟩
      · simp only [bind_eq_some, pure_eq_some, Prod.mk.injEq] at h
        obtain ⟨⟨raw₁, n₁⟩, m, hchar, ⟨raw₂, n₂⟩, m', hbody, ⟨rfl, rfl⟩, rfl⟩ := h
        obtain ⟨c, hc, rfl, rfl, hl⟩ :=
          scanChar_sound (by rw [List.head?_cons]; exact fun heq => hb (Option.some.inj heq)) hchar
        obtain ⟨s, hs, rfl, rfl, rfl⟩ := ih hbody
        refine ⟨c :: s, ?_, ?_, ?_, ?_⟩
        · rw [List.mem_cons, not_or]
          exact ⟨Ne.symm hc, hs⟩
        · exact (Utf8.encode_append (escapeChar c) (escape s)).symm
        · exact List.length_append.symm
        · rw [hl, List.append_assoc]

theorem scanBody_complete {s : Text} (hs : '\x00' ∉ s) {fuel : ℕ} (hfuel : s.length < fuel)
    (r : List UInt8) : scanBody false fuel (encode (escape s) ++ asciiByte '"' :: r) =
      some ((encode (escape s), (encode s).length), r) := by
  induction s generalizing fuel with
  | nil =>
    obtain ⟨fuel, rfl⟩ := Nat.exists_eq_add_of_lt hfuel
    exact if_pos rfl
  | cons c s ih =>
    rw [List.mem_cons, not_or] at hs
    obtain ⟨hc, hs⟩ := hs
    obtain ⟨fuel, rfl⟩ := Nat.exists_eq_add_of_lt (Nat.zero_lt_of_lt hfuel)
    have hraw : escape (c :: s) = escapeChar c ++ escape s := rfl
    have hhead := head?_escapeChar_ne (Ne.symm hc) (encode (escape s) ++ asciiByte '"' :: r)
    have hchar := scanChar_complete (Ne.symm hc) (encode (escape s) ++ asciiByte '"' :: r)
    have hlen : s.length < fuel := by simpa using hfuel
    have hbody := ih hs hlen
    rw [hraw, Utf8.encode_append, List.append_assoc, Utf8.encode_cons, List.length_append]
    cases hl : encode (escapeChar c) ++ (encode (escape s) ++ asciiByte '"' :: r) with
    | nil => rw [hl] at hchar; cases hchar
    | cons b l =>
      rw [hl] at hhead hchar
      have hb : b ≠ asciiByte '"' := fun heq => hhead (congrArg some heq)
      rw [Nat.zero_add, scanBody, if_neg hb]
      simp only [bind_eq_some, pure_eq_some]
      exact ⟨_, _, hchar, _, _, hbody, rfl, rfl⟩

theorem length_le_encode_escape (s : Text) : s.length ≤ (encode (escape s)).length := by
  refine le_trans ?_ (Utf8.length_le_encode (escape s))
  induction s with
  | nil => exact Nat.le_refl 0
  | cons c s ih =>
    have hpos : 0 < (escapeChar c).length := by
      unfold escapeChar
      split_ifs <;> exact Nat.succ_pos _
    have hraw : escape (c :: s) = escapeChar c ++ escape s := rfl
    rw [hraw, List.length_append, List.length_cons]
    omega

/-- **A string is the text of some characters without a NUL.** -/
theorem jsonString_eq_some : jsonString false l = some ((raw, n), r) ↔ ∃ s : Text, '\x00' ∉ s ∧
    raw = encode (escape s) ∧ n = (encode s).length ∧ l = encode (quoted s) ++ r := by
  simp only [jsonString, bind_eq_some, expect_eq_some (show '"'.toNat < 0x80 by decide)]
  have hquoted (s : Text) : encode (quoted s) ++ r =
      encode ['"'] ++ (encode (escape s) ++ asciiByte '"' :: r) := by
    rw [quoted, ← List.singleton_append, Utf8.encode_append, Utf8.encode_append,
      Utf8.encode_singleton (c := '"') (by decide)]
    simp
  constructor
  · rintro ⟨_, m, rfl, hbody⟩
    obtain ⟨s, hs, rfl, rfl, rfl⟩ := scanBody_sound hbody
    exact ⟨s, hs, rfl, rfl, (hquoted s).symm⟩
  · rintro ⟨s, hs, rfl, rfl, rfl⟩
    refine ⟨(), _, hquoted s, scanBody_complete hs ?_ r⟩
    have hle := length_le_encode_escape s
    rw [List.length_append, List.length_cons]
    omega

/-! ### Strings that are what they look like -/

/-- `key` -/
def key (expected : String) : ByteParser Unit := do
  let s ← jsonString false
  check (s.1 = Guest.ascii expected)
  expect ':'

/-- `exact_string` -/
def exactString (expected : String) : ByteParser Unit := do
  let s ← jsonString false
  check (s.1 = Guest.ascii expected)

/-- `plain_string`: a string without escapes, in ASCII. -/
def plainString : ByteParser (List UInt8 × ℕ) := do
  let s ← jsonString false
  check (s.1.all fun b => b ≠ asciiByte '\\' && b < 0x80)
  return s

/-- A character that stands for itself. -/
def isSpanChar (c : Char) : Bool :=
  0x20 ≤ c.toNat && c.toNat < 0x80 && c ≠ '"' && c ≠ '\\'

/-- A text of characters that stand for themselves. -/
def IsSpan (s : Text) : Prop := ∀ c ∈ s, isSpanChar c = true

instance (s : Text) : Decidable (IsSpan s) :=
  decidable_of_iff (s.all isSpanChar = true) List.all_eq_true

theorem isSpanChar_iff {c : Char} :
    isSpanChar c = true ↔ 0x20 ≤ c.toNat ∧ c.toNat < 0x80 ∧ c ≠ '"' ∧ c ≠ '\\' := by
  simp only [isSpanChar, Bool.and_eq_true, decide_eq_true_eq, and_assoc]

variable {s : Text}

theorem IsSpan.ascii (h : IsSpan s) : ∀ c ∈ s, c.toNat < 0x80 :=
  fun c hc => (isSpanChar_iff.mp (h c hc)).2.1

theorem IsSpan.nul_notMem (h : IsSpan s) : '\x00' ∉ s :=
  fun hc => absurd (h _ hc) (by decide)

theorem IsSpan.escape_eq (h : IsSpan s) : escape s = s := by
  induction s with
  | nil => rfl
  | cons c s ih =>
    obtain ⟨hc, hs⟩ := List.forall_mem_cons.mp h
    obtain ⟨hblank, -, hquote, hbackslash⟩ := isSpanChar_iff.mp hc
    have hraw : escape (c :: s) = escapeChar c ++ escape s := rfl
    rw [hraw, escapeChar_of_plain hblank hquote hbackslash, ih hs, List.singleton_append]

theorem IsSpan.length_encode (h : IsSpan s) : (encode s).length = s.length := by
  rw [encode_ascii h.ascii, List.length_map]

/-- A text whose escaped bytes are ASCII without a backslash is written as it is. -/
theorem isSpan_of_bytes (hs : '\x00' ∉ s)
    (h : ∀ b ∈ encode (escape s), b ≠ asciiByte '\\' ∧ b < 0x80) : IsSpan s := by
  intro c hc
  have hbytes : ∀ b ∈ encode (escapeChar c), b ≠ asciiByte '\\' ∧ b < 0x80 := by
    intro b hb
    obtain ⟨d, hd, hmem⟩ := List.mem_flatMap.mp hb
    exact h b (List.mem_flatMap.mpr ⟨d, List.mem_flatMap.mpr ⟨c, hc, hd⟩, hmem⟩)
  have hescape : '\\' ∉ escapeChar c :=
    fun hmem => (hbytes _ ((Utf8.mem_encode (by decide)).mpr hmem)).1 rfl
  rcases escape_cases (fun heq => hs (heq ▸ hc)) with hshort | hcode | ⟨hblank, hquote, hbackslash⟩
  · refine absurd ?_ hescape
    rcases hshort with rfl | rfl | rfl | rfl | rfl | rfl | rfl <;> decide
  · rw [escapeChar_of_control hcode] at hescape
    exact absurd List.mem_cons_self hescape
  · refine isSpanChar_iff.mpr ⟨hblank, ?_, hquote, hbackslash⟩
    by_contra hbeyond
    obtain ⟨b, t, ht⟩ := List.exists_cons_of_ne_nil (String.utf8EncodeChar_ne_nil (c := c))
    have hmem : b ∈ String.utf8EncodeChar c := ht ▸ List.mem_cons_self
    have hle := Utf8.le_of_mem_utf8EncodeChar (Nat.not_lt.mp hbeyond) hmem
    rw [escapeChar_of_plain hblank hquote hbackslash, Utf8.encode_cons, Utf8.encode_nil,
      List.append_nil] at hbytes
    exact absurd (UInt8.lt_iff_toNat_lt.mp (hbytes b hmem).2) (Nat.not_lt.mpr hle)

theorem plainString_eq_some : plainString l = some ((raw, n), r) ↔ ∃ s : Text, IsSpan s ∧
    raw = encode s ∧ n = s.length ∧ l = encode (quoted s) ++ r := by
  simp only [plainString, bind_eq_some, check_eq_some, pure_eq_some, List.all_eq_true,
    Bool.and_eq_true, decide_eq_true_eq]
  constructor
  · rintro ⟨⟨raw', n'⟩, m, hstring, _, m', ⟨hbytes, rfl⟩, heq, rfl⟩
    obtain ⟨rfl, rfl⟩ := Prod.mk.inj heq
    obtain ⟨s, hs, rfl, rfl, rfl⟩ := jsonString_eq_some.mp hstring
    have hspan := isSpan_of_bytes hs hbytes
    exact ⟨s, hspan, by rw [hspan.escape_eq], hspan.length_encode, rfl⟩
  · rintro ⟨s, hspan, rfl, rfl, rfl⟩
    refine ⟨(encode s, s.length), r, jsonString_eq_some.mpr ⟨s, hspan.nul_notMem, ?_, ?_, rfl⟩, (),
      r, ⟨?_, rfl⟩, rfl, rfl⟩
    · rw [hspan.escape_eq]
    · rw [hspan.length_encode]
    · intro b hb
      rw [encode_ascii hspan.ascii] at hb
      obtain ⟨c, hc, rfl⟩ := List.mem_map.mp hb
      obtain ⟨-, hascii, -, hbackslash⟩ := isSpanChar_iff.mp (hspan c hc)
      refine ⟨fun heq => hbackslash (Utf8.asciiByte_injective hascii (by decide) heq), ?_⟩
      rw [UInt8.lt_iff_toNat_lt, Utf8.toNat_asciiByte hascii]
      exact hascii

/-- A fixed text in quotes. -/
theorem exactString_eq_some {expected : String} (h : IsSpan expected.toList) {u : Unit} :
    exactString expected l = some (u, r) ↔ l = encode (quote expected) ++ r := by
  have hascii : Guest.ascii expected = encode expected.toList := (encode_ascii h.ascii).symm
  simp only [exactString, bind_eq_some, check_eq_some, decide_eq_true_eq]
  constructor
  · rintro ⟨⟨raw', n'⟩, m, hstring, hraw, rfl⟩
    obtain ⟨s, -, rfl, -, rfl⟩ := jsonString_eq_some.mp hstring
    have heq : escape s = expected.toList := Utf8.encode_injective (hraw.trans hascii)
    rw [quoted, heq, quote, h.escape_eq]
  · rintro rfl
    refine ⟨(encode expected.toList, (encode expected.toList).length), r,
      jsonString_eq_some.mpr ⟨expected.toList, h.nul_notMem, ?_, rfl, rfl⟩, hascii.symm, rfl⟩
    rw [h.escape_eq]

theorem key_eq_exactString (expected : String) :
    key expected = (do exactString expected; expect ':') := by
  rw [key, exactString, bind_assoc]

theorem key_eq_some {expected : String} (h : IsSpan expected.toList) {u : Unit} :
    key expected l = some (u, r) ↔ l = encode (quote expected) ++ (encode [':'] ++ r) := by
  rw [key_eq_exactString, bind_eq_some]
  simp only [exactString_eq_some h, expect_eq_some (show ':'.toNat < 0x80 by decide)]
  constructor
  · rintro ⟨_, m, rfl, rfl⟩
    rfl
  · rintro rfl
    exact ⟨(), _, rfl, rfl⟩

/-- `take_char(j, c) && key(j, expected)` and the value after it. -/
def field {α : Type} (c : Char) (expected : String) (value : ByteParser α) : ByteParser α := do
  expect c
  key expected
  value

theorem field_eq_some {α : Type} {c : Char} (hc : c.toNat < 0x80) {expected : String}
    (h : IsSpan expected.toList) {value : ByteParser α} {a : α} :
    field c expected value l = some (a, r) ↔
      ∃ m, l = fieldStart c expected m ∧ value m = some (a, r) := by
  simp only [field, bind_eq_some, expect_eq_some hc, key_eq_some h]
  constructor
  · rintro ⟨_, _, rfl, _, m, rfl, hvalue⟩
    exact ⟨m, rfl, hvalue⟩
  · rintro ⟨m, rfl, hvalue⟩
    exact ⟨(), _, rfl, (), m, rfl, hvalue⟩

/-! ### Literals -/

/-- `exact_literal` -/
def exactLiteral (expected : String) : ByteParser Bool := fun l =>
  if Guest.ascii expected <+: l then some (true, l.drop (Guest.ascii expected).length)
  else some (false, l)

theorem ascii_eq_encode {s : String} (h : ∀ c ∈ s.toList, c.toNat < 0x80) :
    Guest.ascii s = encode s.toList := (encode_ascii h).symm

theorem exactLiteral_eq_true {expected : String} (h : IsSpan expected.toList) :
    exactLiteral expected l = some (true, r) ↔ l = encode expected.toList ++ r := by
  rw [exactLiteral, ascii_eq_encode h.ascii]
  split_ifs with hprefix
  · obtain ⟨rest, rfl⟩ := hprefix
    rw [Option.some.injEq, Prod.mk.injEq, and_iff_right rfl, List.drop_left,
      List.append_cancel_left_eq]
  · refine iff_of_false (by rintro ⟨⟩) ?_
    rintro rfl
    exact hprefix (List.prefix_append _ _)

theorem exactLiteral_eq_false {expected : String} (h : IsSpan expected.toList) :
    exactLiteral expected l = some (false, r) ↔ ¬encode expected.toList <+: l ∧ l = r := by
  rw [exactLiteral, ascii_eq_encode h.ascii]
  split_ifs with hprefix
  · exact iff_of_false (by rintro ⟨⟩) fun hnot => hnot.1 hprefix
  · rw [Option.some.injEq, Prod.mk.injEq, and_iff_right rfl, and_iff_right hprefix]

/-! ### Numbers -/

/-- `*p >= '0' && *p <= '9'` -/
def isDigit (b : UInt8) : Bool := asciiByte '0' ≤ b && b ≤ asciiByte '9'

/-- The loop of `uint_value`, which leaves room for the next digit below `2^64`. -/
def uintLoop (v : ℕ) : ByteParser ℕ
  | [] => some (v, [])
  | b :: l =>
    if isDigit b then
      let d := b.toNat - '0'.toNat
      if (2 ^ 64 - 1 - d) / 10 < v then none else uintLoop (v * 10 + d) l
    else some (v, b :: l)

/-- `uint_value` -/
def uintValue : ByteParser ℕ
  | [] => none
  | b :: l =>
    if !isDigit b then none
    else if b = asciiByte '0' ∧ l.head?.any isDigit then none
    else uintLoop 0 (b :: l)

def generationDigitsMax : ℕ := 4096

/-- `positive_decimal` -/
def positiveDecimal : ByteParser Unit
  | [] => none
  | b :: l =>
    if b < asciiByte '1' ∨ asciiByte '9' < b then none
    else if generationDigitsMax < ((b :: l).takeWhile isDigit).length then none
    else some ((), (b :: l).dropWhile isDigit)

/-- What follows is no digit. -/
def NoDigit (r : List UInt8) : Prop := r.head?.any isDigit = false

theorem isDigit_asciiByte {c : Char} (h : c.toNat < 0x80) : isDigit (asciiByte c) = c.isDigit := by
  rw [Bool.eq_iff_iff, Account.isDigit_iff h, not_or, UInt8.not_lt, UInt8.not_lt, isDigit,
    Bool.and_eq_true, decide_eq_true_eq, decide_eq_true_eq]
  rfl

theorem lt_of_isDigit {c : Char} (h : c.isDigit) : c.toNat < 0x80 := by
  obtain ⟨_, hd⟩ := Decimal.toNat_of_isDigit h
  have hzero : '0'.toNat = 48 := rfl
  omega

theorem exists_of_isDigit {b : UInt8} (h : isDigit b = true) :
    ∃ c : Char, c.isDigit ∧ asciiByte c = b := by
  have hbyte : asciiByte (Char.ofUInt8 b) = b := Account.asciiByte_ofUInt8 b
  have hascii : (Char.ofUInt8 b).toNat < 0x80 := by
    rw [Account.toNat_ofUInt8]
    rw [isDigit, Bool.and_eq_true, decide_eq_true_eq, decide_eq_true_eq,
      UInt8.le_iff_toNat_le, UInt8.le_iff_toNat_le] at h
    have hnine : (asciiByte '9').toNat = 57 := rfl
    omega
  refine ⟨Char.ofUInt8 b, ?_, hbyte⟩
  rwa [← isDigit_asciiByte hascii, hbyte]

theorem encode_digit_cons {c : Char} (h : c.isDigit) (t : Text) :
    encode (c :: t) = asciiByte c :: encode t := by
  rw [Utf8.encode_cons, Utf8.utf8EncodeChar_of_ascii (lt_of_isDigit h), List.singleton_append]

/-- A digit in front is one of the digits. -/
theorem cons_eq_encode_append {c : Char} (hc : c.isDigit) {t : Text} (ht : ∀ c ∈ t, c.isDigit)
    (hr : NoDigit r) : asciiByte c :: l = encode t ++ r ↔ ∃ u, t = c :: u ∧ l = encode u ++ r := by
  cases t with
  | nil =>
    refine iff_of_false ?_ (by rintro ⟨u, hu, -⟩; cases hu)
    rintro rfl
    rw [NoDigit, List.head?_cons, Option.any_some, isDigit_asciiByte (lt_of_isDigit hc), hc] at hr
    cases hr
  | cons d t =>
    have hd := ht d List.mem_cons_self
    rw [encode_digit_cons hd, List.cons_append, List.cons.injEq]
    constructor
    · rintro ⟨hbyte, rfl⟩
      obtain rfl := Utf8.asciiByte_injective (lt_of_isDigit hc) (lt_of_isDigit hd) hbyte
      exact ⟨t, rfl, rfl⟩
    · rintro ⟨u, heq, rfl⟩
      obtain ⟨rfl, rfl⟩ := List.cons.inj heq
      exact ⟨rfl, rfl⟩

theorem uintLoop_eq_some {v : ℕ} (hv : v < 2 ^ 64) : uintLoop v l = some (n, r) ↔
    ∃ t : Text, (∀ c ∈ t, c.isDigit) ∧ n = Nat.ofDigitChars 10 t v ∧ n < 2 ^ 64 ∧
      l = encode t ++ r ∧ NoDigit r := by
  induction l generalizing v with
  | nil =>
    rw [uintLoop, Option.some.injEq, Prod.mk.injEq]
    constructor
    · rintro ⟨rfl, rfl⟩
      exact ⟨[], List.forall_mem_nil _, rfl, hv, rfl, rfl⟩
    · rintro ⟨t, -, rfl, -, hl, -⟩
      obtain ⟨ht, rfl⟩ := List.append_eq_nil_iff.mp hl.symm
      rw [Utf8.encode_eq_nil.mp ht]
      exact ⟨rfl, rfl⟩
  | cons b l ih =>
    rw [uintLoop]
    by_cases hb : isDigit b = true
    · rw [if_pos hb]
      obtain ⟨c, hc, rfl⟩ := exists_of_isDigit hb
      obtain ⟨_, hd⟩ := Decimal.toNat_of_isDigit hc
      rw [Utf8.toNat_asciiByte (lt_of_isDigit hc)]
      dsimp only
      split_ifs with hroom
      · -- the number with this digit is too large, and the digits after it only make it larger
        refine iff_of_false (by rintro ⟨⟩) ?_
        rintro ⟨t, ht, rfl, hlt, hl, hr⟩
        obtain ⟨u, rfl, -⟩ := (cons_eq_encode_append hc ht hr).mp hl
        rw [Nat.ofDigitChars_cons] at hlt
        have hle := Account.le_ofDigitChars u (10 * v + (c.toNat - '0'.toNat))
        omega
      · rw [ih (by omega)]
        constructor
        · rintro ⟨t, ht, rfl, hlt, rfl, hr⟩
          refine ⟨c :: t, List.forall_mem_cons.mpr ⟨hc, ht⟩, ?_, hlt, ?_, hr⟩
          · rw [Nat.ofDigitChars_cons, Nat.mul_comm]
          · rw [encode_digit_cons hc, List.cons_append]
        · rintro ⟨t, ht, rfl, hlt, hl, hr⟩
          obtain ⟨u, rfl, rfl⟩ := (cons_eq_encode_append hc ht hr).mp hl
          refine ⟨u, (List.forall_mem_cons.mp ht).2, ?_, hlt, rfl, hr⟩
          rw [Nat.ofDigitChars_cons, Nat.mul_comm v]
    · rw [if_neg hb, Option.some.injEq, Prod.mk.injEq]
      constructor
      · rintro ⟨rfl, rfl⟩
        exact ⟨[], List.forall_mem_nil _, rfl, hv, rfl, Bool.eq_false_iff.mpr hb⟩
      · rintro ⟨t, ht, rfl, -, hl, hr⟩
        cases t with
        | nil => exact ⟨rfl, hl⟩
        | cons c t =>
          have hc := ht c List.mem_cons_self
          rw [encode_digit_cons hc, List.cons_append] at hl
          refine absurd ?_ hb
          rw [(List.cons.inj hl).1, isDigit_asciiByte (lt_of_isDigit hc), hc]

theorem isDigit_of_mem {m : ℕ} : ∀ c ∈ natText m, c.isDigit :=
  fun _ => Decimal.isDigit_of_mem_natText

/-- Digits are a number without a leading zero. -/
theorem digits_canonical {c : Char} {t : Text} (h : ∀ d ∈ c :: t, d.isDigit)
    (hzero : ¬(c = '0' ∧ t ≠ [])) : natText (Nat.ofDigitChars 10 (c :: t) 0) = c :: t := by
  rw [← Decimal.intValue_of_isDigit h]
  refine Decimal.natText_intValue (List.cons_ne_nil c t) h fun hlen hhead => hzero ⟨?_, ?_⟩
  · exact Option.some.inj hhead
  · rintro rfl
    exact absurd hlen (Nat.lt_irrefl 1)

theorem head?_any_encode {t : Text} (ht : ∀ c ∈ t, c.isDigit) (hr : NoDigit r) :
    (encode t ++ r).head?.any isDigit = true ↔ t ≠ [] := by
  cases t with
  | nil => exact iff_of_false (Bool.eq_false_iff.mp hr) (not_not_intro rfl)
  | cons c t =>
    have hc := ht c List.mem_cons_self
    rw [encode_digit_cons hc, List.cons_append, List.head?_cons, Option.any_some,
      isDigit_asciiByte (lt_of_isDigit hc)]
    exact iff_of_true hc (List.cons_ne_nil c t)

/-- **A number is its decimal text**, up to the first character that is no digit. -/
theorem uintValue_eq_some : uintValue l = some (n, r) ↔
    n < 2 ^ 64 ∧ l = encode (natText n) ++ r ∧ NoDigit r := by
  constructor
  · intro h
    cases l with
    | nil => cases h
    | cons b l =>
      rw [uintValue] at h
      split_ifs at h with hdigit hzero
      obtain ⟨t, ht, rfl, hlt, hl, hr⟩ := (uintLoop_eq_some (by decide)).mp h
      rw [Bool.not_eq_true, Bool.not_eq_false'] at hdigit
      obtain ⟨c, hc, rfl⟩ := exists_of_isDigit hdigit
      obtain ⟨u, rfl, rfl⟩ := (cons_eq_encode_append hc ht hr).mp hl
      rw [head?_any_encode (List.forall_mem_cons.mp ht).2 hr] at hzero
      -- A zero in front of other digits was refused, so the digits are those of their number.
      have hcanonical : ¬(c = '0' ∧ u ≠ []) := fun hbad => hzero ⟨congrArg asciiByte hbad.1, hbad.2⟩
      refine ⟨hlt, ?_, hr⟩
      rw [digits_canonical ht hcanonical, hl]
  · rintro ⟨hlt, rfl, hr⟩
    cases ht : natText n with
    | nil => exact absurd ht (Decimal.natText_ne_nil n)
    | cons c t =>
      have hdigits := isDigit_of_mem (m := n)
      rw [ht] at hdigits
      obtain ⟨hc, htail⟩ := List.forall_mem_cons.mp hdigits
      have hvalue : n = Nat.ofDigitChars 10 (c :: t) 0 := by
        rw [← Decimal.intValue_of_isDigit hdigits, ← ht, Decimal.intValue_natText]
      rw [encode_digit_cons hc, List.cons_append, uintValue, if_neg, if_neg]
      · exact (uintLoop_eq_some (by decide)).mpr ⟨c :: t, hdigits, hvalue, hlt, by
          rw [encode_digit_cons hc, List.cons_append], hr⟩
      · rw [head?_any_encode htail hr]
        rintro ⟨hbyte, hne⟩
        obtain rfl := Utf8.asciiByte_injective (lt_of_isDigit hc) (by decide) hbyte
        refine Account.head?_natText (n := n) ?_ (by rw [ht, List.head?_cons])
        rw [ht, List.length_cons]
        exact Nat.succ_lt_succ (List.length_pos_iff.mpr hne)
      · rw [isDigit_asciiByte (lt_of_isDigit hc), hc]
        decide

/-- The digits in front, and what follows them. -/
theorem span_digits (l : List UInt8) : ∃ t : Text, (∀ c ∈ t, c.isDigit) ∧
    l.takeWhile isDigit = encode t ∧ NoDigit (l.dropWhile isDigit) := by
  induction l with
  | nil => exact ⟨[], List.forall_mem_nil _, rfl, rfl⟩
  | cons b l ih =>
    by_cases hb : isDigit b = true
    · obtain ⟨c, hc, rfl⟩ := exists_of_isDigit hb
      obtain ⟨t, ht, htake, hdrop⟩ := ih
      refine ⟨c :: t, List.forall_mem_cons.mpr ⟨hc, ht⟩, ?_, ?_⟩
      · rw [List.takeWhile_cons_of_pos hb, htake, encode_digit_cons hc]
      · rwa [List.dropWhile_cons_of_pos hb]
    · refine ⟨[], List.forall_mem_nil _, List.takeWhile_cons_of_neg hb, ?_⟩
      rw [List.dropWhile_cons_of_neg hb]
      exact Bool.eq_false_iff.mpr hb

theorem takeWhile_digits {t : Text} (ht : ∀ c ∈ t, c.isDigit) (hr : NoDigit r) :
    (encode t ++ r).takeWhile isDigit = encode t ∧ (encode t ++ r).dropWhile isDigit = r := by
  induction t with
  | nil =>
    rw [Utf8.encode_nil, List.nil_append]
    cases r with
    | nil => exact ⟨rfl, rfl⟩
    | cons b r =>
      have hb : ¬isDigit b = true := Bool.eq_false_iff.mp hr
      exact ⟨List.takeWhile_cons_of_neg hb, List.dropWhile_cons_of_neg hb⟩
  | cons c t ih =>
    obtain ⟨hc, ht⟩ := List.forall_mem_cons.mp ht
    have hb : isDigit (asciiByte c) = true := by rw [isDigit_asciiByte (lt_of_isDigit hc), hc]
    rw [encode_digit_cons hc, List.cons_append, List.takeWhile_cons_of_pos hb,
      List.dropWhile_cons_of_pos hb, (ih ht).1, (ih ht).2]
    exact ⟨rfl, rfl⟩

/-- The first digit of a positive number. -/
theorem first_digit_iff {c : Char} (hc : c.isDigit) :
    ¬(asciiByte c < asciiByte '1' ∨ asciiByte '9' < asciiByte c) ↔ c ≠ '0' := by
  obtain ⟨hlow, hd⟩ := Decimal.toNat_of_isDigit hc
  have hzero : '0'.toNat = 48 := rfl
  have hone : '1'.toNat = 49 := rfl
  have hnine : '9'.toNat = 57 := rfl
  rw [Ne, ← Char.toNat_inj, UInt8.lt_iff_toNat_lt, UInt8.lt_iff_toNat_lt,
    Utf8.toNat_asciiByte (lt_of_isDigit hc), Utf8.toNat_asciiByte (by decide),
    Utf8.toNat_asciiByte (by decide)]
  omega

/-- **A positive number of so many digits.** -/
theorem positiveDecimal_eq_some {u : Unit} : positiveDecimal l = some (u, r) ↔
    ∃ m, 1 ≤ m ∧ (natText m).length ≤ generationDigitsMax ∧ l = encode (natText m) ++ r ∧
      NoDigit r := by
  constructor
  · intro h
    cases l with
    | nil => cases h
    | cons b l =>
      rw [positiveDecimal] at h
      split_ifs at h with hfirst hlong
      obtain rfl := (Prod.mk.inj (Option.some.inj h)).2
      obtain ⟨t, ht, htake, hdrop⟩ := span_digits (b :: l)
      have hl := List.takeWhile_append_dropWhile (p := isDigit) (l := b :: l)
      rw [htake] at hlong hl
      -- The first byte is from `1` to `9`, so the digits are those of their number.
      have hb : isDigit b = true := by
        rw [not_or, UInt8.not_lt, UInt8.not_lt] at hfirst
        rw [isDigit, Bool.and_eq_true, decide_eq_true_eq, decide_eq_true_eq]
        have hdigits : asciiByte '0' ≤ asciiByte '1' := by decide
        exact ⟨UInt8.le_trans hdigits hfirst.1, hfirst.2⟩
      obtain ⟨c, hc, rfl⟩ := exists_of_isDigit hb
      obtain ⟨u, rfl, -⟩ := (cons_eq_encode_append hc ht hdrop).mp hl.symm
      have hne := (first_digit_iff hc).mp hfirst
      have hcanonical := digits_canonical ht fun hbad => hne hbad.1
      refine ⟨Nat.ofDigitChars 10 (c :: u) 0, ?_, ?_, ?_, hdrop⟩
      · rw [Nat.ofDigitChars_cons]
        have hpos : '0'.toNat ≠ c.toNat := fun heq => hne (Char.toNat_inj.mp heq.symm)
        have hle := Account.le_ofDigitChars u (10 * 0 + (c.toNat - '0'.toNat))
        have hlow := (Decimal.toNat_of_isDigit hc).1
        omega
      · rw [hcanonical]
        exact le_trans (Utf8.length_le_encode _) (Nat.not_lt.mp hlong)
      · rw [hcanonical, hl]
  · rintro ⟨m, hm, hlen, rfl, hr⟩
    obtain ⟨c, t, ht, hne⟩ := natText_eq_cons hm
    have hdigits := isDigit_of_mem (m := m)
    obtain ⟨htake, hdrop⟩ := takeWhile_digits hdigits hr
    rw [ht] at hdigits hlen htake hdrop ⊢
    have hc := hdigits c List.mem_cons_self
    rw [encode_digit_cons hc, List.cons_append] at htake hdrop ⊢
    have hascii : (asciiByte c :: encode t).length = (c :: t).length := by
      rw [← encode_digit_cons hc, encode_ascii fun d hd => lt_of_isDigit (hdigits d hd),
        List.length_map]
    rw [positiveDecimal, if_neg ((first_digit_iff hc).mpr hne), htake, hdrop, hascii,
      if_neg (Nat.not_lt.mpr hlen)]

end Palimpsest.Stage1.Init
