import Mathlib.Data.List.Enum
import Palimpsest.Guest.CmdlineAgreement
import Palimpsest.Stage1.Cursor
import Palimpsest.Stage1.Plan

/-!
# The grammars of the guest's parser

What the first process of the guest checks of the characters of a string: digests, identifiers,
serials, names and paths. Each check is over bytes, and on the bytes of a text it says what the
host checks of its characters.
-/

namespace Palimpsest.Stage1

theorem encodeUtf8_eq (t : Text) : Control.encodeUtf8 t = Utf8.encode t := by
  rw [Control.encodeUtf8, Utf8.toByteArray_ofList]

namespace Init

open Json
open Utf8 (asciiByte encode)

variable {t : Text}

/-- A text of ASCII characters. -/
def IsAscii (t : Text) : Prop := ∀ c ∈ t, c.toNat < 0x80

instance (t : Text) : Decidable (IsAscii t) :=
  decidable_of_iff (t.all (·.toNat < 0x80) = true) (by
    rw [List.all_eq_true]
    exact forall₂_congr fun c _ => decide_eq_true_iff)

theorem IsSpan.isAscii (h : IsSpan t) : IsAscii t := h.ascii

theorem IsAscii.all_encode (h : IsAscii t) {p : UInt8 → Bool} {q : Char → Bool}
    (hpq : ∀ c : Char, c.toNat < 0x80 → p (asciiByte c) = q c) : (encode t).all p = t.all q := by
  rw [encode_ascii h, List.all_map, Bool.eq_iff_iff, List.all_eq_true, List.all_eq_true]
  exact forall₂_congr fun c hc => by rw [Function.comp_apply, hpq c (h c hc)]

theorem IsAscii.length_encode (h : IsAscii t) : (encode t).length = t.length := by
  rw [encode_ascii h, List.length_map]

theorem IsAscii.drop (h : IsAscii t) (n : ℕ) : IsAscii (t.drop n) :=
  fun c hc => h c (List.mem_of_mem_drop hc)

theorem IsAscii.take (h : IsAscii t) (n : ℕ) : IsAscii (t.take n) :=
  fun c hc => h c (List.mem_of_mem_take hc)

theorem IsAscii.encode_drop (h : IsAscii t) (n : ℕ) : (encode t).drop n = encode (t.drop n) := by
  rw [encode_ascii h, encode_ascii (h.drop n), List.map_drop]

theorem IsAscii.encode_take (h : IsAscii t) (n : ℕ) : (encode t).take n = encode (t.take n) := by
  rw [encode_ascii h, encode_ascii (h.take n), List.map_take]

theorem encode_inj {t u : Text} : encode t = encode u ↔ t = u := Utf8.encode_injective.eq_iff

/-! ### Classes of characters -/

/-- `c >= 'a' && c <= 'z'` -/
def isLowerByte (b : UInt8) : Bool := asciiByte 'a' ≤ b && b ≤ asciiByte 'z'

/-- `c >= 'A' && c <= 'Z'` -/
def isUpperByte (b : UInt8) : Bool := asciiByte 'A' ≤ b && b ≤ asciiByte 'Z'

section

variable {c : Char}

theorem asciiByte_le_iff (hc : c.toNat < 0x80) {d : Char} (hd : d.toNat < 0x80) :
    asciiByte c ≤ asciiByte d ↔ c ≤ d := Account.asciiByte_le hc hd

theorem asciiByte_eq_iff (hc : c.toNat < 0x80) {d : Char} (hd : d.toNat < 0x80) :
    asciiByte c = asciiByte d ↔ c = d := Account.asciiByte_inj hc hd

theorem isLowerByte_asciiByte (hc : c.toNat < 0x80) : isLowerByte (asciiByte c) = c.isLower := by
  rw [isLowerByte, Bool.eq_iff_iff, Bool.and_eq_true, decide_eq_true_eq, decide_eq_true_eq,
    asciiByte_le_iff (by decide) hc, asciiByte_le_iff hc (by decide)]
  unfold Char.isLower
  rw [Bool.and_eq_true, decide_eq_true_eq, decide_eq_true_eq]
  exact Iff.rfl

theorem isUpperByte_asciiByte (hc : c.toNat < 0x80) : isUpperByte (asciiByte c) = c.isUpper := by
  rw [isUpperByte, Bool.eq_iff_iff, Bool.and_eq_true, decide_eq_true_eq, decide_eq_true_eq,
    asciiByte_le_iff (by decide) hc, asciiByte_le_iff hc (by decide)]
  unfold Char.isUpper
  rw [decide_eq_true_eq]
  exact Iff.rfl

theorem isHex_asciiByte (hc : c.toNat < 0x80) : Guest.isHex (asciiByte c) = Control.isHex c := by
  have hbyte : Guest.isHex (asciiByte c) = ((asciiByte '0' ≤ asciiByte c &&
      asciiByte c ≤ asciiByte '9') || (asciiByte 'a' ≤ asciiByte c &&
        asciiByte c ≤ asciiByte 'f')) := rfl
  rw [hbyte, Control.isHex]
  simp only [asciiByte_le_iff hc (show '9'.toNat < 0x80 by decide),
    asciiByte_le_iff hc (show 'f'.toNat < 0x80 by decide),
    asciiByte_le_iff (show '0'.toNat < 0x80 by decide) hc,
    asciiByte_le_iff (show 'a'.toNat < 0x80 by decide) hc]

theorem eq_asciiByte (hc : c.toNat < 0x80) {d : Char} (hd : d.toNat < 0x80) :
    decide (asciiByte c = asciiByte d) = decide (c = d) :=
  decide_eq_decide.mpr (asciiByte_eq_iff hc hd)

end

/-! ### Digests, identifiers and serials -/

theorem validDigest_encode (h : IsAscii t) :
    Guest.Init.validDigest (encode t) = Control.isDigest (String.ofList t) := by
  have hprefix : Guest.ascii "sha256:" = encode "sha256:".toList :=
    ascii_eq_encode (show IsAscii _ by decide)
  rw [Guest.Init.validDigest, h.length_encode, h.encode_take, h.encode_drop,
    (h.drop 7).all_encode fun c hc => isHex_asciiByte hc, hprefix, Control.isDigest,
    Bool.eq_iff_iff]
  simp only [Bool.and_eq_true, decide_eq_true_eq, encode_inj, List.length_drop,
    String.toList_ofList]
  constructor
  · rintro ⟨⟨hlen, htake⟩, hall⟩
    exact ⟨⟨htake, by omega⟩, hall⟩
  · rintro ⟨⟨htake, hlen⟩, hall⟩
    exact ⟨⟨by omega, htake⟩, hall⟩

theorem isSerial_encode (h : IsAscii t) :
    Guest.isSerial (encode t) = isSerial (String.ofList t) := by
  rw [Guest.isSerial, isSerial, String.toList_ofList, h.length_encode,
    h.all_encode fun c hc => isHex_asciiByte hc]

/-- `valid_uuid_span` -/
def validUuidSpan (s : List UInt8) : Bool :=
  s.length = 36 && s.zipIdx.all fun (b, i) =>
    if i = 8 ∨ i = 13 ∨ i = 18 ∨ i = 23 then b = asciiByte '-' else Guest.isHex b

theorem validUuidSpan_encode (h : IsAscii t) :
    validUuidSpan (encode t) = Control.isUuid (String.ofList t) := by
  rw [validUuidSpan, Control.isUuid, String.toList_ofList, h.length_encode, encode_ascii h,
    List.zipIdx_map, List.all_map]
  congr 1
  rw [Bool.eq_iff_iff, List.all_eq_true, List.all_eq_true]
  refine forall₂_congr fun p hp => ?_
  obtain ⟨c, i⟩ := p
  have hc : c.toNat < 0x80 := h c (List.fst_mem_of_mem_zipIdx hp)
  have hdash := eq_asciiByte hc (show '-'.toNat < 0x80 by decide)
  have hhex := isHex_asciiByte hc
  simp only [Function.comp_apply, Prod.map_apply, id_eq, hdash, hhex]

/-! ### Bytes in hexadecimal -/

/-- `(hex_value(a) << 4) | hex_value(b)`, of two digits. -/
def pairByte (a b : UInt8) : UInt8 := UInt8.ofNat (16 * hexValue a + hexValue b)

/-- Digits read two by two. -/
def pairBytes : List UInt8 → List UInt8
  | a :: b :: s => pairByte a b :: pairBytes s
  | _ => []

/-- `digest_bytes` -/
def digestBytes (s : List UInt8) : Option (List UInt8) :=
  if Guest.Init.validDigest s then some (pairBytes (s.drop 7)) else none

/-- The loop of `uuid_bytes`. -/
def uuidLoop : List UInt8 → List UInt8
  | a :: b :: s => if a = asciiByte '-' then uuidLoop (b :: s) else pairByte a b :: uuidLoop s
  | _ => []

/-- `uuid_bytes` -/
def uuidBytes (s : List UInt8) : Option (List UInt8) :=
  if validUuidSpan s ∧ (uuidLoop s).length = 16 then some (uuidLoop s) else none

theorem hexValue_asciiByte {c : Char} (hc : c.toNat < 0x80) :
    hexValue (asciiByte c) = Control.hexValue c := by
  rw [hexValue, Control.hexValue, Utf8.toNat_asciiByte hc]
  exact if_congr (asciiByte_le_iff hc (by decide)) rfl rfl

theorem pairBytes_encode (h : IsAscii t) : pairBytes (encode t) = Control.fromHex t := by
  rw [encode_ascii h]
  induction t using Control.fromHex.induct with
  | case1 a b l ih =>
    have ha : a.toNat < 0x80 := h a List.mem_cons_self
    have hb : b.toNat < 0x80 := h b (List.mem_cons_of_mem a List.mem_cons_self)
    have hl : IsAscii l := fun c hc => h c (List.mem_cons_of_mem a (List.mem_cons_of_mem b hc))
    rw [List.map_cons, List.map_cons, pairBytes, ih hl, Control.fromHex, pairByte,
      hexValue_asciiByte ha, hexValue_asciiByte hb]
  | case2 l hl =>
    rw [Control.fromHex.eq_2 l hl]
    cases l with
    | nil => rfl
    | cons a l =>
      cases l with
      | nil => rfl
      | cons b l => exact absurd rfl (hl a b l)

theorem digestBytes_encode (h : IsAscii t) {b : List UInt8} : digestBytes (encode t) = some b ↔
    Control.isDigest (String.ofList t) = true ∧ b = Control.fromHex (t.drop 7) := by
  rw [digestBytes, validDigest_encode h, h.encode_drop, pairBytes_encode (h.drop 7)]
  split_ifs with hdigest
  · rw [and_iff_right hdigest, Option.some.injEq]
    exact eq_comm
  · exact iff_of_false (by rintro ⟨⟩) fun hvalid => hdigest hvalid.1

theorem pairBytes_append {l m : List UInt8} (h : l.length % 2 = 0) :
    pairBytes (l ++ m) = pairBytes l ++ pairBytes m := by
  induction l using pairBytes.induct with
  | case1 a b s ih =>
    rw [List.length_cons, List.length_cons] at h
    rw [List.cons_append, List.cons_append, pairBytes, pairBytes, ih (by omega), List.cons_append]
  | case2 l hl =>
    cases l with
    | nil => rfl
    | cons a l =>
      cases l with
      | nil => cases h
      | cons b l => exact absurd rfl (hl a b l)

theorem length_pairBytes (l : List UInt8) : (pairBytes l).length = l.length / 2 := by
  induction l using pairBytes.induct with
  | case1 a b s ih =>
    rw [pairBytes, List.length_cons, ih, List.length_cons, List.length_cons]
    omega
  | case2 l hl =>
    cases l with
    | nil => rfl
    | cons a l =>
      cases l with
      | nil => simp [pairBytes]
      | cons b l => exact absurd rfl (hl a b l)

theorem uuidLoop_dash (s : List UInt8) : uuidLoop (asciiByte '-' :: s) = uuidLoop s := by
  cases s with
  | nil => rfl
  | cons b s => rw [uuidLoop, if_pos rfl]

/-- A group of digits is read two by two, whatever follows it. -/
theorem uuidLoop_append {l : List UInt8} (h : ∀ b ∈ l, Guest.isHex b = true)
    (hlen : l.length % 2 = 0) (s : List UInt8) : uuidLoop (l ++ s) = pairBytes l ++ uuidLoop s := by
  induction l using pairBytes.induct with
  | case1 a b l ih =>
    rw [List.length_cons, List.length_cons] at hlen
    obtain ⟨ha, -, hl⟩ := by simpa only [List.forall_mem_cons] using h
    have hdash : a ≠ asciiByte '-' := by
      rintro rfl
      exact absurd ha (by decide)
    rw [List.cons_append, List.cons_append, uuidLoop, if_neg hdash, ih hl (by omega), pairBytes,
      List.cons_append]
  | case2 l hl =>
    cases l with
    | nil => rfl
    | cons a l =>
      cases l with
      | nil => cases hlen
      | cons b l => exact absurd rfl (hl a b l)

/-- Groups of digits, with a dash after each. -/
def dashed (groups : List (List UInt8)) : List UInt8 := groups.flatMap (· ++ [asciiByte '-'])

/-- Groups with an even number of digits each. -/
def Groups (groups : List (List UInt8)) : Prop :=
  ∀ g ∈ groups, (∀ b ∈ g, Guest.isHex b = true) ∧ g.length % 2 = 0

theorem uuidLoop_dashed {groups : List (List UInt8)} (h : Groups groups) (s : List UInt8) :
    uuidLoop (dashed groups ++ s) = pairBytes groups.flatten ++ uuidLoop s := by
  induction groups with
  | nil => rfl
  | cons g groups ih =>
    obtain ⟨⟨hhex, hlen⟩, hgroups⟩ := List.forall_mem_cons.mp h
    rw [dashed, List.flatMap_cons, List.append_assoc, List.append_assoc, List.singleton_append,
      uuidLoop_append hhex hlen, uuidLoop_dash, List.flatten_cons, pairBytes_append hlen,
      List.append_assoc, ← ih hgroups, dashed]

theorem filter_dashed {groups : List (List UInt8)} (h : Groups groups) :
    (dashed groups).filter (· ≠ asciiByte '-') = groups.flatten := by
  induction groups with
  | nil => rfl
  | cons g groups ih =>
    obtain ⟨⟨hhex, -⟩, hgroups⟩ := List.forall_mem_cons.mp h
    have hself : g.filter (· ≠ asciiByte '-') = g := by
      rw [List.filter_eq_self]
      intro b hb
      rw [decide_eq_true_eq]
      rintro rfl
      exact absurd (hhex _ hb) (by decide)
    have hdash : [asciiByte '-'].filter (· ≠ asciiByte '-') = [] := by decide
    rw [dashed, List.flatMap_cons, List.filter_append, List.filter_append, hself, hdash,
      List.append_nil, List.flatten_cons, ← ih hgroups, dashed]

/-- An identifier is four groups of digits with a dash after each, and a last group. -/
theorem exists_groups {s : List UInt8} (h : validUuidSpan s = true) : ∃ groups last,
    s = dashed groups ++ last ∧ Groups groups ∧ Groups [last] ∧
      groups.flatten.length + last.length = 32 := by
  rw [validUuidSpan, Bool.and_eq_true, decide_eq_true_eq, List.all_eq_true] at h
  obtain ⟨hlen, hall⟩ := h
  -- What stands at each place.
  have hat : ∀ i (hi : i < s.length), if i = 8 ∨ i = 13 ∨ i = 18 ∨ i = 23 then s[i] = asciiByte '-'
      else Guest.isHex s[i] = true := by
    intro i hi
    have hmem : (s[i], i) ∈ s.zipIdx := List.mem_zipIdx_iff_getElem?.mpr
      (List.getElem?_eq_getElem hi)
    have hcheck := hall _ hmem
    dsimp only at hcheck
    split_ifs at hcheck ⊢ with hdash
    · exact of_decide_eq_true hcheck
    · exact hcheck
  have hgroup : ∀ i n, n % 2 = 0 → i + n ≤ 36 →
      (∀ j, i ≤ j → j < i + n → ¬(j = 8 ∨ j = 13 ∨ j = 18 ∨ j = 23)) →
        (∀ b ∈ (s.drop i).take n, Guest.isHex b = true) ∧ ((s.drop i).take n).length % 2 = 0 := by
    intro i n hn hle hdash
    constructor
    · intro b hb
      obtain ⟨j, hj, rfl⟩ := List.mem_iff_getElem.mp hb
      rw [List.length_take, List.length_drop] at hj
      rw [List.getElem_take, List.getElem_drop]
      have hcheck := hat (i + j) (by omega)
      rwa [if_neg (hdash (i + j) (by omega) (by omega))] at hcheck
    · rw [List.length_take, List.length_drop]
      omega
  -- The text is cut at its four dashes, one after the other.
  have hcut : ∀ i n j, j = i + n + 1 → i + n < s.length → (i + n = 8 ∨ i + n = 13 ∨ i + n = 18 ∨
      i + n = 23) → s.drop i = (s.drop i).take n ++ [asciiByte '-'] ++ s.drop j := by
    rintro i n j rfl hlt hdash
    have hbyte := hat (i + n) hlt
    rw [if_pos hdash] at hbyte
    have hrest : (s.drop i).drop n = s[i + n] :: s.drop (i + n + 1) := by
      rw [List.drop_drop, List.drop_eq_getElem_cons hlt]
    conv_lhs => rw [← List.take_append_drop n (s.drop i), hrest, hbyte]
    rw [List.append_assoc, List.singleton_append]
  refine ⟨[(s.drop 0).take 8, (s.drop 9).take 4, (s.drop 14).take 4, (s.drop 19).take 4],
    (s.drop 24).take 12, ?_, ?_, ?_, ?_⟩
  · have hlast : (s.drop 24).take 12 = s.drop 24 := by
      rw [List.take_of_length_le]
      rw [List.length_drop]
      omega
    rw [hlast]
    conv_lhs => rw [← List.drop_zero (l := s), hcut 0 8 9 rfl (by omega) (by omega),
      hcut 9 4 14 rfl (by omega) (by omega), hcut 14 4 19 rfl (by omega) (by omega),
      hcut 19 4 24 rfl (by omega) (by omega)]
    simp only [dashed, List.flatMap_cons, List.flatMap_nil, List.append_assoc, List.append_nil]
  · simp only [Groups, List.forall_mem_cons]
    exact ⟨hgroup 0 8 rfl (by omega) (by omega), hgroup 9 4 rfl (by omega) (by omega),
      hgroup 14 4 rfl (by omega) (by omega), hgroup 19 4 rfl (by omega) (by omega),
      List.forall_mem_nil _⟩
  · simp only [Groups, List.forall_mem_cons]
    exact ⟨hgroup 24 12 rfl (by omega) (by omega), List.forall_mem_nil _⟩
  · simp only [List.flatten_cons, List.flatten_nil, List.length_append, List.length_take,
      List.length_drop, List.length_nil]
    omega

/-- **The bytes of an identifier** are those of its digits. -/
theorem uuidLoop_eq {s : List UInt8} (h : validUuidSpan s = true) :
    uuidLoop s = pairBytes (s.filter (· ≠ asciiByte '-')) ∧ (uuidLoop s).length = 16 := by
  obtain ⟨groups, last, rfl, hgroups, hlast, hlen⟩ := exists_groups h
  have hlast_even := (hlast last (List.mem_singleton_self last)).2
  have heven : groups.flatten.length % 2 = 0 := by omega
  have hloop : uuidLoop (dashed groups ++ last) = pairBytes groups.flatten ++ pairBytes last := by
    have hend := uuidLoop_append (hlast last (List.mem_singleton_self last)).1 hlast_even []
    rw [List.append_nil, show uuidLoop [] = [] from rfl, List.append_nil] at hend
    rw [uuidLoop_dashed hgroups, hend]
  constructor
  · have hself : last.filter (· ≠ asciiByte '-') = last := by
      rw [List.filter_eq_self]
      intro b hb
      rw [decide_eq_true_eq]
      rintro rfl
      exact absurd ((hlast last (List.mem_singleton_self last)).1 _ hb) (by decide)
    rw [hloop, List.filter_append, filter_dashed hgroups, hself, pairBytes_append heven]
  · rw [hloop, List.length_append, length_pairBytes, length_pairBytes]
    omega

theorem uuidBytes_encode (h : IsAscii t) {b : List UInt8} : uuidBytes (encode t) = some b ↔
    Control.isUuid (String.ofList t) = true ∧ b = Control.fromHex (t.filter (· ≠ '-')) := by
  have hfilter : (encode t).filter (· ≠ asciiByte '-') = encode (t.filter (· ≠ '-')) := by
    have hascii : IsAscii (t.filter (· ≠ '-')) := fun c hc => h c (List.mem_of_mem_filter hc)
    rw [encode_ascii h, encode_ascii hascii, List.filter_map]
    congr 1
    refine List.filter_congr fun c hc => ?_
    rw [Function.comp_apply, decide_not, decide_not,
      eq_asciiByte (h c hc) (show '-'.toNat < 0x80 by decide)]
  rw [uuidBytes, ← validUuidSpan_encode h]
  by_cases hvalid : validUuidSpan (encode t) = true
  · obtain ⟨hloop, hlen⟩ := uuidLoop_eq hvalid
    have hascii : IsAscii (t.filter (· ≠ '-')) := fun c hc => h c (List.mem_of_mem_filter hc)
    rw [if_pos ⟨hvalid, hlen⟩, Option.some.injEq, hloop, hfilter, pairBytes_encode hascii,
      and_iff_right hvalid]
    exact eq_comm
  · rw [if_neg fun hboth => hvalid hboth.1]
    exact iff_of_false (by rintro ⟨⟩) fun hboth => hvalid hboth.1

/-! ### Serials and labels -/

/-- `derived_serial_matches` -/
def derivedSerialMatches (nameSpace : List UInt8) (identity serial : List UInt8) : Bool :=
  ((Sha256.digest (Guest.ascii "palimpsest-oci-root-" ++ nameSpace ++ Guest.ascii "-v1" ++
    0 :: identity)).take 10).flatMap Guest.hexPair = serial

/-- `root_label` -/
def rootLabel (volumeId : List UInt8) : List UInt8 :=
  Guest.ascii "pali-root-" ++ ((Sha256.digest (Guest.ascii "palimpsest-oci-root-volume-v1" ++
    0 :: volumeId)).take 3).flatMap Guest.hexPair

theorem isAscii_hexText (l : List UInt8) : IsAscii (Control.hexText l) := by
  intro c hc
  have hplain := Control.isPlain_of_isHex (Control.isHex_of_mem_hexText hc)
  simp only [isPlain, Bool.and_eq_true, decide_eq_true_eq] at hplain
  omega

theorem encode_hexText (l : List UInt8) : encode (Control.hexText l) = l.flatMap Guest.hexPair := by
  have hpair : ∀ m : Fin 256, [asciiByte (hexDigit (m.val / 16)),
      asciiByte (hexDigit (m.val % 16))] = Guest.hexPair (.ofNat m) := by
    decide +kernel
  rw [encode_ascii (isAscii_hexText l)]
  induction l with
  | nil => rfl
  | cons x l ih =>
    have hx := hpair ⟨x.toNat, x.toNat_lt⟩
    rw [UInt8.ofNat_toNat] at hx
    rw [Control.hexText_cons, List.map_cons, List.map_cons, ih, List.flatMap_cons, ← hx]
    rfl

/-- The prefix of a serial that is derived for this part of the root. -/
theorem derivedSerialMatches_encode (name identity t : Text) :
    derivedSerialMatches (encode name) (encode identity) (encode t) =
      (String.ofList t = deviceSerial (String.ofList name) (String.ofList identity) : Bool) := by
  have htext : Guest.ascii "palimpsest-oci-root-" ++ encode name ++ Guest.ascii "-v1" ++
      0 :: encode identity = Control.encodeUtf8 ("palimpsest-oci-root-".toList ++
        (String.ofList name).toList ++ "-v1\x00".toList ++ (String.ofList identity).toList) := by
    have hnul : encode ['\x00'] = [0] := rfl
    have hcut : "-v1\x00".toList = "-v1".toList ++ ['\x00'] := rfl
    rw [Control.encodeUtf8, Utf8.toByteArray_ofList, String.toList_ofList, String.toList_ofList,
      hcut, Utf8.encode_append, Utf8.encode_append, Utf8.encode_append, Utf8.encode_append, hnul,
      ascii_eq_encode (show IsAscii _ by decide), ascii_eq_encode (show IsAscii _ by decide)]
    simp
  rw [derivedSerialMatches, htext, ← Guest.Init.take_flatMap_hexPair, ← encode_hexText,
    (isAscii_hexText _).encode_take, deviceSerial]
  refine decide_eq_decide.mpr ?_
  rw [encode_inj, String.ofList_inj]
  exact eq_comm

/-! ### Names and paths -/

/-- What `valid_run_name` allows. -/
def isRunByte (b : UInt8) : Bool := isLowerByte b || isDigit b || b = asciiByte '-'

/-- `valid_run_name` -/
def validRunName : List UInt8 → Bool
  | [] => false
  | b :: s => (b :: s).length ≤ 63 && (isLowerByte b || isDigit b) && (b :: s).all isRunByte

theorem validRunName_encode (h : IsAscii t) :
    validRunName (encode t) = isRunName (String.ofList t) := by
  cases t with
  | nil => rfl
  | cons c t =>
    have hc : c.toNat < 0x80 := h c List.mem_cons_self
    have hall := h.all_encode (p := isRunByte) (q := fun d => d.isLower || d.isDigit || d = '-')
      fun d hd => by
        rw [isRunByte, isLowerByte_asciiByte hd, isDigit_asciiByte hd,
          eq_asciiByte hd (show '-'.toNat < 0x80 by decide)]
    have hlen := h.length_encode
    rw [encode_ascii h, List.map_cons] at hall hlen ⊢
    rw [validRunName, isRunName, hall, hlen, isLowerByte_asciiByte hc, isDigit_asciiByte hc,
      String.toList_ofList, List.all_cons, Bool.eq_iff_iff]
    simp only [Bool.and_eq_true, Bool.or_eq_true, decide_eq_true_eq]
    constructor
    · rintro ⟨⟨hmost, hfirst⟩, -, hrest⟩
      exact ⟨hmost, hfirst, hrest⟩
    · rintro ⟨hmost, hfirst, hrest⟩
      exact ⟨⟨hmost, hfirst⟩, Or.inl hfirst, hrest⟩

/-- What `valid_probe_path` allows after the slash. -/
def isProbeByte (b : UInt8) : Bool :=
  isUpperByte b || isLowerByte b || isDigit b || b ∈ ['.', '_', '-'].map asciiByte

/-- `valid_probe_path` -/
def validProbePath (s : List UInt8) : Bool :=
  2 ≤ s.length && s.length ≤ 255 && s.head? = some (asciiByte '/') &&
    s.getLast? ≠ some (asciiByte '/') && (s.drop 1).all isProbeByte &&
      !(s.drop 1 = encode ['.'] || s.drop 1 = encode ['.', '.'])

theorem isProbeByte_asciiByte {c : Char} (hc : c.toNat < 0x80) :
    isProbeByte (asciiByte c) = isProbeChar c := by
  rw [isProbeByte, isProbeChar, isUpperByte_asciiByte hc, isLowerByte_asciiByte hc,
    isDigit_asciiByte hc]
  congr 1
  refine decide_eq_decide.mpr ?_
  simp only [List.map_cons, List.map_nil, List.mem_cons, List.not_mem_nil, or_false,
    asciiByte_eq_iff hc (show '.'.toNat < 0x80 by decide),
    asciiByte_eq_iff hc (show '_'.toNat < 0x80 by decide),
    asciiByte_eq_iff hc (show '-'.toNat < 0x80 by decide)]

theorem validProbePath_encode (h : IsAscii t) :
    validProbePath (encode t) = isProbePath (String.ofList t) := by
  have hslash : isProbeChar '/' = false := by decide
  cases t with
  | nil => rfl
  | cons c t =>
    have hc : c.toNat < 0x80 := h c List.mem_cons_self
    have ht : IsAscii t := h.drop 1
    have hall := ht.all_encode fun c hc => isProbeByte_asciiByte hc
    have hlen := h.length_encode
    have hdrop : (encode (c :: t)).drop 1 = encode t := h.encode_drop 1
    have hhead : (encode (c :: t)).head? = some (asciiByte c) := by
      rw [encode_ascii h, List.map_cons, List.head?_cons]
    rw [validProbePath, isProbePath, hdrop, hall, hlen, hhead, String.toList_ofList,
      Bool.eq_iff_iff]
    simp only [Bool.and_eq_true, decide_eq_true_eq, Bool.not_eq_true', Bool.or_eq_false_iff,
      decide_eq_false_iff_not, List.mem_cons, List.not_mem_nil, or_false, not_or, encode_inj,
      Option.some.injEq, asciiByte_eq_iff hc (show '/'.toNat < 0x80 by decide), List.length_cons]
    constructor
    · rintro ⟨⟨⟨⟨⟨htwo, hmost⟩, rfl⟩, -⟩, hchars⟩, hdot, hdots⟩
      refine ⟨⟨hmost, ?_, ?_⟩, ?_⟩
      · exact fun heq => hdot (List.cons.inj (String.ofList_inj.mp heq)).2
      · exact fun heq => hdots (List.cons.inj (String.ofList_inj.mp heq)).2
      · simp only [Bool.and_eq_true, decide_eq_true_eq]
        refine ⟨?_, hchars⟩
        rintro rfl
        exact absurd htwo (by decide)
    · rintro ⟨⟨hmost, hdot, hdots⟩, hmatch⟩
      split at hmatch
      · next u heq =>
        obtain ⟨rfl, rfl⟩ := List.cons.inj heq
        simp only [Bool.and_eq_true, decide_eq_true_eq] at hmatch
        obtain ⟨hne, hchars⟩ := hmatch
        refine ⟨⟨⟨⟨⟨?_, hmost⟩, rfl⟩, ?_⟩, hchars⟩, ?_, ?_⟩
        · have hpos := List.length_pos_iff.mpr hne
          omega
        · rw [encode_ascii h, List.getLast?_map, List.getLast?_cons_of_ne_nil hne]
          intro hlast
          obtain ⟨d, hd, hbyte⟩ := Option.map_eq_some_iff.mp hlast
          have hmem := List.mem_of_getLast? hd
          obtain rfl := (asciiByte_eq_iff (ht d hmem) (by decide)).mp hbyte
          have hfalse := List.all_eq_true.mp hchars _ hmem
          rw [hslash] at hfalse
          exact absurd hfalse Bool.false_ne_true
        · rintro rfl
          exact hdot rfl
        · rintro rfl
          exact hdots rfl
      · cases hmatch

/-- What `valid_env_name` allows after the first byte. -/
def isEnvByte (b : UInt8) : Bool := Account.isLetterByte b || isDigit b || b = asciiByte '_'

theorem isEnvByte_asciiByte {c : Char} (hc : c.toNat < 0x80) :
    isEnvByte (asciiByte c) = Process.isEnvChar c := by
  have hletter : Account.isLetterByte (asciiByte c) = Account.isAsciiLetter c :=
    Account.isLetterByte_asciiByte hc
  have hdigit : isDigit (asciiByte c) = ('0' ≤ c && c ≤ '9' : Bool) := by
    rw [isDigit]
    simp only [asciiByte_le_iff hc (show '9'.toNat < 0x80 by decide),
      asciiByte_le_iff (show '0'.toNat < 0x80 by decide) hc]
  rw [isEnvByte, hletter, hdigit, eq_asciiByte hc (show '_'.toNat < 0x80 by decide),
    Process.isEnvChar, Bool.or_assoc, Bool.or_assoc, Bool.or_comm (decide (c = '_'))]

/-- `valid_env_name` -/
def validEnvName : List UInt8 → Bool
  | [] => false
  | b :: s => (Account.isLetterByte b || b = asciiByte '_') && s.all isEnvByte

theorem validEnvName_encode (h : IsAscii t) : validEnvName (encode t) = Process.isEnvName t := by
  cases t with
  | nil => rfl
  | cons c t =>
    have hc : c.toNat < 0x80 := h c List.mem_cons_self
    have ht : IsAscii t := h.drop 1
    have hall := ht.all_encode fun d hd => isEnvByte_asciiByte hd
    have hletter : Account.isLetterByte (asciiByte c) = Account.isAsciiLetter c :=
      Account.isLetterByte_asciiByte hc
    have hcons : encode (c :: t) = asciiByte c :: encode t := by
      rw [Utf8.encode_cons, Utf8.utf8EncodeChar_of_ascii hc, List.singleton_append]
    rw [hcons, validEnvName, Process.isEnvName, hall, hletter,
      eq_asciiByte hc (show '_'.toNat < 0x80 by decide)]

end Init

end Palimpsest.Stage1
