import Palimpsest.Stage1.Spans

/-!
# Addresses in the guest

The guest takes an IPv4 address as it is written with four numbers, none of which has a zero in
front of it (`Palimpsest.Stage1.Init.parseIpv4Span_eq_some`), and a MAC address as six pairs of
digits (`Palimpsest.Stage1.Init.parseMacSpan_eq_some`).
-/

namespace Palimpsest.Stage1

open Json

/-- An IPv4 address. -/
structure Ipv4 where
  a : UInt8
  b : UInt8
  c : UInt8
  d : UInt8
  deriving DecidableEq

/-- The text of an address. -/
def Ipv4.text (x : Ipv4) : Text :=
  natText x.a.toNat ++ '.' :: (natText x.b.toNat ++ '.' :: (natText x.c.toNat ++
    '.' :: natText x.d.toNat))

/-- The address in a word, in the order of the network. -/
def Ipv4.word (x : Ipv4) : UInt32 :=
  x.a.toUInt32 ||| (x.b.toUInt32 <<< 8) ||| (x.c.toUInt32 <<< 16) ||| (x.d.toUInt32 <<< 24)

/-- A MAC address. -/
structure Mac where
  bytes : List UInt8
  length_eq : bytes.length = 6
  deriving DecidableEq

/-- Pairs of digits with colons between them. -/
def pairsText : List UInt8 → Text
  | [] => []
  | [b] => Control.hexText [b]
  | b :: l => Control.hexText [b] ++ ':' :: pairsText l

/-- The text of a MAC address. -/
def Mac.text (m : Mac) : Text := pairsText m.bytes

namespace Init

open ByteParser
open Utf8 (asciiByte encode)

variable {l r s : List UInt8} {n k k' v : ℕ}

/-! ### Octets -/

/-- The loop over the digits of an octet, with how many of them there were. -/
def octetLoop (value count : ℕ) : List UInt8 → Option (ℕ × ℕ × List UInt8)
  | [] => some (value, count, [])
  | b :: s =>
    if isDigit b then
      let value := value * 10 + (b.toNat - '0'.toNat)
      if 255 < value ∨ 3 ≤ count then none else octetLoop value (count + 1) s
    else some (value, count, b :: s)

/-- An octet in front, and what follows it. -/
def parseOctet (s : List UInt8) : Option (ℕ × List UInt8) := do
  let p ← octetLoop 0 0 s
  if p.2.1 = 0 ∨ 1 < p.2.1 ∧ s.head? = some (asciiByte '0') then none else return (p.1, p.2.2)

/-- The digits of an octet, up to the first character that is no digit. -/
theorem octetLoop_eq_some (hv : v ≤ 255) (hk : k ≤ 3) :
    octetLoop v k l = some (n, k', r) ↔ ∃ t : Text, (∀ c ∈ t, c.isDigit) ∧
      n = Nat.ofDigitChars 10 t v ∧ n ≤ 255 ∧ k' = k + t.length ∧ k' ≤ 3 ∧ l = encode t ++ r ∧
        NoDigit r := by
  induction l generalizing v k with
  | nil =>
    rw [octetLoop, Option.some.injEq, Prod.mk.injEq, Prod.mk.injEq]
    constructor
    · rintro ⟨rfl, rfl, rfl⟩
      exact ⟨[], List.forall_mem_nil _, rfl, hv, rfl, hk, rfl, rfl⟩
    · rintro ⟨t, -, rfl, -, rfl, -, hl, -⟩
      obtain ⟨ht, rfl⟩ := List.append_eq_nil_iff.mp hl.symm
      rw [Utf8.encode_eq_nil.mp ht]
      exact ⟨rfl, rfl, rfl⟩
  | cons b l ih =>
    rw [octetLoop]
    by_cases hb : isDigit b = true
    · rw [if_pos hb]
      obtain ⟨c, hc, rfl⟩ := exists_of_isDigit hb
      obtain ⟨_, hd⟩ := Decimal.toNat_of_isDigit hc
      rw [Utf8.toNat_asciiByte (lt_of_isDigit hc)]
      dsimp only
      split_ifs with hroom
      · -- the octet with this digit is too large or too long, and stays so with more digits
        refine iff_of_false (by rintro ⟨⟩) ?_
        rintro ⟨t, ht, rfl, hle, rfl, hcount, hl, hr⟩
        obtain ⟨u, rfl, -⟩ := (cons_eq_encode_append hc ht hr).mp hl
        rw [Nat.ofDigitChars_cons] at hle
        rw [List.length_cons] at hcount
        have hmore := Account.le_ofDigitChars u (10 * v + (c.toNat - '0'.toNat))
        omega
      · rw [not_or, Nat.not_lt, Nat.not_le] at hroom
        rw [ih hroom.1 hroom.2]
        constructor
        · rintro ⟨t, ht, rfl, hle, rfl, hcount, rfl, hr⟩
          refine ⟨c :: t, List.forall_mem_cons.mpr ⟨hc, ht⟩, ?_, hle, ?_, hcount, ?_, hr⟩
          · rw [Nat.ofDigitChars_cons, Nat.mul_comm]
          · rw [List.length_cons]
            omega
          · rw [encode_digit_cons hc, List.cons_append]
        · rintro ⟨t, ht, rfl, hle, rfl, hcount, hl, hr⟩
          obtain ⟨u, rfl, rfl⟩ := (cons_eq_encode_append hc ht hr).mp hl
          rw [List.length_cons] at hcount ⊢
          refine ⟨u, (List.forall_mem_cons.mp ht).2, ?_, hle, by omega, by omega, rfl, hr⟩
          rw [Nat.ofDigitChars_cons, Nat.mul_comm v]
    · rw [if_neg hb, Option.some.injEq, Prod.mk.injEq, Prod.mk.injEq]
      constructor
      · rintro ⟨rfl, rfl, rfl⟩
        exact ⟨[], List.forall_mem_nil _, rfl, hv, rfl, hk, rfl, Bool.eq_false_iff.mpr hb⟩
      · rintro ⟨t, ht, rfl, -, rfl, -, hl, hr⟩
        cases t with
        | nil => exact ⟨rfl, rfl, hl⟩
        | cons c t =>
          have hc := ht c List.mem_cons_self
          rw [encode_digit_cons hc, List.cons_append] at hl
          refine absurd ?_ hb
          rw [(List.cons.inj hl).1, isDigit_asciiByte (lt_of_isDigit hc), hc]

/-- **An octet is the decimal text of a byte**, up to the first character that is no digit. -/
theorem parseOctet_eq_some : parseOctet l = some (n, r) ↔
    n ≤ 255 ∧ l = encode (natText n) ++ r ∧ NoDigit r := by
  simp only [parseOctet, Option.bind_eq_bind, Option.bind_eq_some_iff, Prod.exists,
    octetLoop_eq_some (Nat.zero_le 255) (Nat.zero_le 3), Option.ite_none_left_eq_some,
    Option.pure_def, Option.some.injEq, Prod.mk.injEq]
  constructor
  · rintro ⟨_, _, _, ⟨t, ht, rfl, hle, rfl, -, rfl, hr⟩, hshape, rfl, rfl⟩
    rw [not_or, not_and] at hshape
    cases t with
    | nil => exact absurd rfl hshape.1
    | cons c t =>
      refine ⟨hle, ?_, hr⟩
      rw [digits_canonical ht]
      rintro ⟨rfl, hne⟩
      refine hshape.2 ?_ (by rw [encode_digit_cons (ht _ List.mem_cons_self)]; rfl)
      rw [List.length_cons]
      have := List.length_pos_iff.mpr hne
      omega
  · rintro ⟨hle, rfl, hr⟩
    have hlen : (natText n).length ≤ 3 := length_natText_le (by decide) (by omega)
    have hne := Decimal.natText_ne_nil n
    have hpos := List.length_pos_iff.mpr hne
    have hvalue : n = Nat.ofDigitChars 10 (natText n) 0 := by
      rw [← Decimal.intValue_of_isDigit isDigit_of_mem, Decimal.intValue_natText]
    refine ⟨n, 0 + (natText n).length, r, ⟨natText n, isDigit_of_mem, hvalue, hle, rfl, by omega,
      rfl, hr⟩, ?_, rfl, rfl⟩
    rw [not_or, not_and]
    refine ⟨by omega, fun hlong hzero => ?_⟩
    cases ht : natText n with
    | nil => exact hne ht
    | cons c t =>
      have hc : c.isDigit := isDigit_of_mem (m := n) c (ht ▸ List.mem_cons_self)
      rw [ht, encode_digit_cons hc, List.cons_append, List.head?_cons] at hzero
      obtain rfl := Utf8.asciiByte_injective (lt_of_isDigit hc) (by decide) (Option.some.inj hzero)
      exact Account.head?_natText (n := n) (by omega) (by rw [ht, List.head?_cons])

/-! ### IPv4 addresses -/

/-- A dot in front. -/
def takeDot : List UInt8 → Option (List UInt8)
  | [] => none
  | b :: s => if b = asciiByte '.' then some s else none

/-- `parse_ipv4_span` -/
def parseIpv4Span (s : List UInt8) : Option UInt32 :=
  if s = [] ∨ 15 < s.length then none
  else do
    let a ← parseOctet s
    let s ← takeDot a.2
    let b ← parseOctet s
    let s ← takeDot b.2
    let c ← parseOctet s
    let s ← takeDot c.2
    let d ← parseOctet s
    if d.2 ≠ [] then none
    else return UInt32.ofNat a.1 ||| (UInt32.ofNat b.1 <<< 8) ||| (UInt32.ofNat c.1 <<< 16) |||
      (UInt32.ofNat d.1 <<< 24)

theorem takeDot_eq_some : takeDot l = some r ↔ l = encode ['.'] ++ r := by
  rw [Utf8.encode_singleton (by decide), List.singleton_append]
  cases l with
  | nil => exact iff_of_false (by rintro ⟨⟩) (by rintro ⟨⟩)
  | cons b l =>
    rw [takeDot, List.cons.injEq]
    split_ifs with hb
    · rw [Option.some.injEq, and_iff_right hb]
    · exact iff_of_false (by rintro ⟨⟩) fun h => hb h.1

/-- The text of an address, from the front. -/
theorem encode_ipv4Text (x : Ipv4) : encode x.text = encode (natText x.a.toNat) ++ (encode ['.'] ++
    (encode (natText x.b.toNat) ++ (encode ['.'] ++ (encode (natText x.c.toNat) ++ (encode ['.'] ++
      encode (natText x.d.toNat)))))) := by
  simp only [← Utf8.encode_append]
  rfl

theorem length_octet (b : UInt8) : 1 ≤ (encode (natText b.toNat)).length ∧
    (encode (natText b.toNat)).length ≤ 3 := by
  have hascii : IsAscii (natText b.toNat) := fun c hc => lt_of_isDigit (isDigit_of_mem c hc)
  have hlt := b.toNat_lt
  rw [hascii.length_encode]
  exact ⟨List.length_pos_iff.mpr (Decimal.natText_ne_nil _),
    length_natText_le (by decide) (by omega)⟩

/-- A text that begins with a dot does not begin with a digit. -/
theorem noDigit_dot (r : List UInt8) : NoDigit (encode ['.'] ++ r) := rfl

/-- An octet is a byte. -/
theorem parseOctet_byte : parseOctet l = some (n, r) ↔
    ∃ b : UInt8, n = b.toNat ∧ l = encode (natText b.toNat) ++ r ∧ NoDigit r := by
  rw [parseOctet_eq_some]
  constructor
  · rintro ⟨hle, rfl, hr⟩
    have hbyte : n = (UInt8.ofNat n).toNat := by
      rw [UInt8.toNat_ofNat']
      omega
    exact ⟨UInt8.ofNat n, hbyte, by rw [← hbyte], hr⟩
  · rintro ⟨b, rfl, rfl, hr⟩
    exact ⟨Nat.le_of_lt_succ b.toNat_lt, rfl, hr⟩

/-- **The IPv4 addresses that are taken.** -/
theorem parseIpv4Span_eq_some {w : UInt32} :
    parseIpv4Span s = some w ↔ ∃ x : Ipv4, w = x.word ∧ s = encode x.text := by
  simp only [parseIpv4Span, Option.ite_none_left_eq_some, Option.bind_eq_bind,
    Option.bind_eq_some_iff, Prod.exists, parseOctet_byte, takeDot_eq_some, Option.pure_def,
    Option.some.injEq, encode_ipv4Text, ite_not, Option.ite_none_right_eq_some]
  constructor
  · rintro ⟨-, _, _, ⟨a, rfl, rfl, -⟩, _, rfl, _, _, ⟨b, rfl, rfl, -⟩, _, rfl, _, _, ⟨c, rfl, rfl,
      -⟩, _, rfl, _, _, ⟨d, rfl, rfl, -⟩, rfl, rfl⟩
    refine ⟨⟨a, b, c, d⟩, ?_, by rw [List.append_nil]⟩
    rw [Ipv4.word, UInt32.ofNat_uInt8ToNat, UInt32.ofNat_uInt8ToNat, UInt32.ofNat_uInt8ToNat,
      UInt32.ofNat_uInt8ToNat]
  · rintro ⟨⟨a, b, c, d⟩, rfl, rfl⟩
    have ha := length_octet a
    have hb := length_octet b
    have hc := length_octet c
    have hd := length_octet d
    have hdot : (encode ['.']).length = 1 := rfl
    refine ⟨?_, _, _, ⟨a, rfl, rfl, noDigit_dot _⟩, _, rfl, _, _, ⟨b, rfl, rfl, noDigit_dot _⟩, _,
      rfl, _, _, ⟨c, rfl, rfl, noDigit_dot _⟩, _, rfl, _, _, ⟨d, rfl, (List.append_nil _).symm,
      rfl⟩, rfl, ?_⟩
    · rw [← List.length_eq_zero_iff]
      simp only [List.length_append]
      omega
    · rw [Ipv4.word, UInt32.ofNat_uInt8ToNat, UInt32.ofNat_uInt8ToNat, UInt32.ofNat_uInt8ToNat,
        UInt32.ofNat_uInt8ToNat]

/-! ### MAC addresses -/

/-- The loop over the pairs. -/
def macLoop : List UInt8 → Option (List UInt8)
  | [x, y] => if Guest.isHex x && Guest.isHex y then some [pairByte x y] else none
  | x :: y :: z :: s =>
    if Guest.isHex x && Guest.isHex y && z = asciiByte ':' then
      (macLoop s).map (pairByte x y :: ·)
    else none
  | _ => none

/-- `parse_mac_span` -/
def parseMacSpan (s : List UInt8) : Option (List UInt8) := if s.length ≠ 17 then none else macLoop s

/-- The two digits of a byte. -/
theorem encode_hexText_singleton (b : UInt8) : encode (Control.hexText [b]) =
    [asciiByte (hexDigit (b.toNat / 16)), asciiByte (hexDigit (b.toNat % 16))] :=
  encode_ascii (isAscii_hexText [b])

theorem pairByte_iff {x y b : UInt8} :
    ((Guest.isHex x = true ∧ Guest.isHex y = true) ∧ pairByte x y = b) ↔
      [x, y] = encode (Control.hexText [b]) := by
  rw [encode_hexText_singleton]
  constructor
  · rintro ⟨⟨hx, hy⟩, rfl⟩
    obtain ⟨hx_lt, hx_eq⟩ := asciiByte_hexDigit hx
    obtain ⟨hy_lt, hy_eq⟩ := asciiByte_hexDigit hy
    have hbyte : (pairByte x y).toNat = 16 * hexValue x + hexValue y := by
      rw [pairByte, UInt8.toNat_ofNat']
      omega
    have hhigh : (16 * hexValue x + hexValue y) / 16 = hexValue x := by omega
    have hlow : (16 * hexValue x + hexValue y) % 16 = hexValue y := by omega
    rw [hbyte, hhigh, hlow, hx_eq, hy_eq]
  · intro h
    obtain ⟨rfl, hrest⟩ := List.cons.inj h
    obtain ⟨rfl, -⟩ := List.cons.inj hrest
    have hlt := b.toNat_lt
    obtain ⟨-, hx, hx_value⟩ := isHex_asciiByte_hexDigit (show b.toNat / 16 < 16 by omega)
    obtain ⟨-, hy, hy_value⟩ := isHex_asciiByte_hexDigit (show b.toNat % 16 < 16 by omega)
    refine ⟨⟨hx, hy⟩, ?_⟩
    rw [pairByte, hx_value, hy_value, Nat.div_add_mod, UInt8.ofNat_toNat]

/-- The text of one more pair. -/
theorem encode_pairsText_cons (b : UInt8) {l : List UInt8} (hl : l ≠ []) :
    encode (pairsText (b :: l)) =
      encode (Control.hexText [b]) ++ asciiByte ':' :: encode (pairsText l) := by
  cases l with
  | nil => exact absurd rfl hl
  | cons d l =>
    have hcolon : ':' :: pairsText (d :: l) = [':'] ++ pairsText (d :: l) := rfl
    rw [pairsText, hcolon, Utf8.encode_append, Utf8.encode_append,
      Utf8.encode_singleton (by decide), List.singleton_append]
    exact List.cons_ne_nil d l

theorem length_encode_pair (b : UInt8) : (encode (Control.hexText [b])).length = 2 := by
  rw [encode_hexText_singleton]
  rfl

theorem macLoop_eq_some {m : List UInt8} :
    macLoop s = some m ↔ m ≠ [] ∧ s = encode (pairsText m) := by
  induction m generalizing s with
  | nil =>
    refine iff_of_false (fun h => ?_) fun h => h.1 rfl
    unfold macLoop at h
    split at h
    · split_ifs at h
      cases h
    · split_ifs at h
      obtain ⟨l, -, hcons⟩ := Option.map_eq_some_iff.mp h
      cases hcons
    · cases h
  | cons b m ih =>
    rw [and_iff_right (List.cons_ne_nil b m)]
    -- The last pair ends the text; after any other a colon stands.
    by_cases hm : m = []
    · subst hm
      have hpair : encode (pairsText [b]) = encode (Control.hexText [b]) := rfl
      rw [hpair]
      unfold macLoop
      split
      · rw [← pairByte_iff, Option.ite_none_right_eq_some, Bool.and_eq_true, Option.some.injEq,
          List.singleton_inj]
      · next x y z s =>
        refine iff_of_false (fun h => ?_) fun h => ?_
        · obtain ⟨-, h⟩ := Option.ite_none_right_eq_some.mp h
          obtain ⟨l, hl, hcons⟩ := Option.map_eq_some_iff.mp h
          obtain ⟨-, rfl⟩ := List.cons.inj hcons
          exact (ih.mp hl).1 rfl
        · have hlen := congrArg List.length h
          rw [length_encode_pair] at hlen
          simp only [List.length_cons] at hlen
          omega
      · next hshort _ =>
        refine iff_of_false (by rintro ⟨⟩) fun h => ?_
        rw [encode_hexText_singleton] at h
        exact hshort _ _ h
    · rw [encode_pairsText_cons b hm]
      unfold macLoop
      split
      · refine iff_of_false (fun h => ?_) fun h => ?_
        · obtain ⟨-, h⟩ := Option.ite_none_right_eq_some.mp h
          obtain ⟨-, hnil⟩ := List.cons.inj (Option.some.inj h)
          exact hm hnil.symm
        · have hlen := congrArg List.length h
          rw [List.length_append, length_encode_pair] at hlen
          simp only [List.length_cons, List.length_nil] at hlen
          omega
      · next x y z s =>
        rw [Option.ite_none_right_eq_some, Option.map_eq_some_iff, Bool.and_eq_true,
          Bool.and_eq_true, decide_eq_true_eq]
        constructor
        · rintro ⟨⟨hdigits, rfl⟩, l, hl, hcons⟩
          obtain ⟨hbyte, rfl⟩ := List.cons.inj hcons
          rw [← pairByte_iff.mp ⟨hdigits, hbyte⟩, (ih.mp hl).2]
          rfl
        · intro h
          rw [encode_hexText_singleton] at h
          obtain ⟨hx, hrest⟩ := List.cons.inj h
          obtain ⟨hy, hrest⟩ := List.cons.inj hrest
          obtain ⟨hz, htail⟩ := List.cons.inj hrest
          obtain ⟨hdigits, hbyte⟩ := pairByte_iff.mpr
            (show [x, y] = encode (Control.hexText [b]) by rw [hx, hy, encode_hexText_singleton])
          exact ⟨⟨hdigits, hz⟩, m, ih.mpr ⟨hm, htail⟩, by rw [hbyte]⟩
      · next hlong =>
        refine iff_of_false (by rintro ⟨⟩) fun h => ?_
        rw [encode_hexText_singleton] at h
        exact hlong _ _ _ _ h

theorem length_encode_pairsText {m : List UInt8} (hm : m ≠ []) :
    (encode (pairsText m)).length + 1 = 3 * m.length := by
  induction m with
  | nil => exact absurd rfl hm
  | cons b m ih =>
    by_cases hne : m = []
    · subst hne
      have hpair : encode (pairsText [b]) = encode (Control.hexText [b]) := rfl
      rw [hpair, length_encode_pair]
      rfl
    · have hrest := ih hne
      rw [encode_pairsText_cons b hne, List.length_append, length_encode_pair, List.length_cons,
        List.length_cons]
      omega

/-- **The MAC addresses that are taken.** -/
theorem parseMacSpan_eq_some {m : List UInt8} :
    parseMacSpan s = some m ↔ ∃ x : Mac, m = x.bytes ∧ s = encode x.text := by
  rw [parseMacSpan, ite_not, Option.ite_none_right_eq_some, macLoop_eq_some]
  constructor
  · rintro ⟨hlen, hm, rfl⟩
    have hcount := length_encode_pairsText hm
    exact ⟨⟨m, by omega⟩, rfl, rfl⟩
  · rintro ⟨⟨m, hlen⟩, rfl, rfl⟩
    have hm : m ≠ [] := by
      rintro rfl
      cases hlen
    have hcount := length_encode_pairsText hm
    refine ⟨?_, hm, rfl⟩
    rw [Mac.text]
    dsimp only
    omega

end Init

end Palimpsest.Stage1
