import Palimpsest.Stage1.PlanText

/-!
# The fields of a plan in the guest

How `parse_plan` reads one field: a fixed string, the mount options, a string of some grammar, a
number. What is read is the text that the host writes for the field, and for a string of a grammar
it is a string that the host accepts there.
-/

namespace Palimpsest.Stage1.Init

open Json ByteParser
open Control (isUuid isDigest)
open Utf8 (asciiByte encode)

variable {l r : List UInt8} {c : Char} {u : Unit}

/-! ### Fixed strings -/

/-- A field with a fixed string. -/
def fixedField (c : Char) (name value : String) : ByteParser Unit :=
  field c name (exactString value)

/-- `exact_string_array3`, with the two options that are the same everywhere. -/
def exactStringArray3 (first second third : String) : ByteParser Unit := do
  expect '['
  exactString first
  expect ','
  exactString second
  expect ','
  exactString third
  expect ']'

theorem fixedField_eq_some (hc : c.toNat < 0x80) {name value : String} (hname : IsSpan name.toList)
    (hvalue : IsSpan value.toList) :
    fixedField c name value l = some (u, r) ↔
      l = fieldStart c name (encode (quote value) ++ r) := by
  rw [fixedField, field_eq_some hc hname]
  simp only [exactString_eq_some hvalue]
  constructor
  · rintro ⟨m, rfl, rfl⟩
    rfl
  · rintro rfl
    exact ⟨_, rfl, rfl⟩

/-- A field with mount options. -/
def optionsField (first : String) : ByteParser Unit :=
  field ',' "mount_options" (exactStringArray3 first "nodev" "nosuid")

theorem exactStringArray3_eq_some {first second third : String} (hfirst : IsSpan first.toList)
    (hsecond : IsSpan second.toList) (hthird : IsSpan third.toList) :
    exactStringArray3 first second third l = some (u, r) ↔
      l = encode (listText ([first, second, third].map quote)) ++ r := by
  have htext : encode (listText ([first, second, third].map quote)) ++ r = encode ['['] ++
      (encode (quote first) ++ (encode [','] ++ (encode (quote second) ++ (encode [','] ++
        (encode (quote third) ++ (encode [']'] ++ r)))))) := by
    simp only [← Utf8.encode_append, ← List.append_assoc]
    simp [listText, commaJoin]
  rw [htext]
  simp only [exactStringArray3, bind_eq_some, exactString_eq_some hfirst,
    exactString_eq_some hsecond, exactString_eq_some hthird,
    expect_eq_some (show '['.toNat < 0x80 by decide),
    expect_eq_some comma_ascii,
    expect_eq_some (show ']'.toNat < 0x80 by decide)]
  constructor
  · rintro ⟨_, _, rfl, _, _, rfl, _, _, rfl, _, _, rfl, _, _, rfl, _, _, rfl, rfl⟩
    rfl
  · rintro rfl
    exact ⟨(), _, rfl, (), _, rfl, (), _, rfl, (), _, rfl, (), _, rfl, (), _, rfl, rfl⟩

theorem optionsField_eq_some {first : String} (hfirst : IsSpan first.toList) :
    optionsField first l = some (u, r) ↔
      l = fieldStart ',' "mount_options" (encode (optionsText first) ++ r) := by
  rw [optionsField, field_eq_some (by decide) (by decide)]
  simp only [exactStringArray3_eq_some hfirst (show IsSpan "nodev".toList by decide)
    (show IsSpan "nosuid".toList by decide)]
  constructor
  · rintro ⟨m, rfl, rfl⟩
    rfl
  · rintro rfl
    exact ⟨_, rfl, rfl⟩

/-! ### Strings of a grammar -/

/-- A field with a string of this grammar: what stands between its quotes. -/
def spanField (c : Char) (name : String) (ok : List UInt8 → Bool) : ByteParser (List UInt8) := do
  let s ← field c name plainString
  check (ok s.1)
  return s.1

/-- A grammar of the guest is one of the host. -/
structure SameGrammar (ok : List UInt8 → Bool) (p : String → Bool) : Prop where
  encode_eq : ∀ {t : Text}, IsAscii t → ok (encode t) = p (String.ofList t)
  isSpan : ∀ {s : String}, p s = true → IsSpan s.toList

theorem spanField_eq_some (hc : c.toNat < 0x80) {name : String} (hname : IsSpan name.toList)
    {ok : List UInt8 → Bool} {p : String → Bool} (h : SameGrammar ok p) {raw : List UInt8} :
    spanField c name ok l = some (raw, r) ↔ ∃ s : String, p s = true ∧ raw = encode s.toList ∧
      l = fieldStart c name (encode (quote s) ++ r) := by
  simp only [spanField, bind_eq_some, check_eq_some, pure_eq_some, field_eq_some hc hname]
  constructor
  · rintro ⟨⟨raw, n⟩, _, ⟨_, rfl, hplain⟩, _, _, ⟨hok, rfl⟩, rfl, rfl⟩
    obtain ⟨t, ht, rfl, -, rfl⟩ := plainString_eq_some.mp hplain
    rw [h.encode_eq ht.isAscii] at hok
    exact ⟨String.ofList t, hok, by rw [String.toList_ofList], by rw [quote_ofList]⟩
  · rintro ⟨s, hs, rfl, rfl⟩
    have hspan := h.isSpan hs
    refine ⟨_, r, ⟨_, rfl, plainString_eq_some.mpr ⟨s.toList, hspan, rfl, rfl, rfl⟩⟩, (), r,
      ⟨?_, rfl⟩, rfl, rfl⟩
    rw [h.encode_eq hspan.isAscii, String.ofList_toList, hs]

/-- Letters, digits and a few marks stand for themselves. -/
theorem isSpanChar_of_word {c : Char} (h : c.isUpper = true ∨ c.isLower = true ∨ c.isDigit = true ∨
    c ∈ ['-', '.', '_', '/', ':']) : isSpanChar c = true := by
  have hplain : ∀ {a b : Char}, a ≤ c ∧ c ≤ b → (0x20 ≤ a.toNat ∧ b.toNat < 127 ∧
      ('"' < a ∨ b < '"') ∧ ('\\' < a ∨ b < '\\')) → isSpanChar c = true := fun hc hab =>
    isSpanChar_of_isPlain (isPlain_of_le hc.1 hc.2 hab)
  rcases h with h | h | h | h
  · unfold Char.isUpper at h
    simp only [decide_eq_true_eq] at h
    exact hplain (a := 'A') (b := 'Z') h (by decide)
  · unfold Char.isLower at h
    simp only [Bool.and_eq_true, decide_eq_true_eq] at h
    exact hplain (a := 'a') (b := 'z') h (by decide)
  · unfold Char.isDigit at h
    simp only [Bool.and_eq_true, decide_eq_true_eq] at h
    exact hplain (a := '0') (b := '9') h (by decide)
  · have hall : ['-', '.', '_', '/', ':'].all isSpanChar = true := by decide
    exact List.all_eq_true.mp hall c h

theorem isSpanChar_of_isHex {c : Char} (h : Control.isHex c = true) : isSpanChar c = true :=
  isSpanChar_of_isPlain (Control.isPlain_of_isHex h)

theorem sameGrammar_digest : SameGrammar Guest.Init.validDigest isDigest where
  encode_eq := validDigest_encode
  isSpan := by
    intro s hs
    rw [isDigest, Bool.and_eq_true, Bool.and_eq_true, decide_eq_true_eq] at hs
    rw [← List.take_append_drop 7 s.toList, hs.1.1]
    refine isSpan_append (by decide) fun c hc => isSpanChar_of_isHex ?_
    exact List.all_eq_true.mp hs.2 c hc

theorem sameGrammar_serial : SameGrammar Guest.isSerial isSerial where
  encode_eq := isSerial_encode
  isSpan := by
    intro s hs c hc
    rw [isSerial, Bool.and_eq_true] at hs
    exact isSpanChar_of_isHex (List.all_eq_true.mp hs.2 c hc)

theorem sameGrammar_uuid : SameGrammar validUuidSpan isUuid where
  encode_eq := validUuidSpan_encode
  isSpan := by
    intro s hs c hc
    rw [isUuid, Bool.and_eq_true] at hs
    obtain ⟨i, hi, heq⟩ := List.getElem_of_mem hc
    have hmem : (c, i) ∈ s.toList.zipIdx := by
      rw [List.mem_zipIdx_iff_getElem?, ← heq]
      exact List.getElem?_eq_getElem hi
    have hchar := List.all_eq_true.mp hs.2 _ hmem
    dsimp only at hchar
    split_ifs at hchar
    · rw [of_decide_eq_true hchar]
      decide
    · exact isSpanChar_of_isHex hchar

theorem sameGrammar_runName : SameGrammar validRunName isRunName where
  encode_eq := validRunName_encode
  isSpan := by
    intro s hs c hc
    rw [isRunName, Bool.and_eq_true] at hs
    cases ht : s.toList with
    | nil => rw [ht] at hc; cases hc
    | cons d t =>
      rw [ht] at hs hc
      simp only [Bool.and_eq_true, Bool.or_eq_true, List.all_eq_true, decide_eq_true_eq] at hs
      rcases List.mem_cons.mp hc with rfl | hc
      · exact isSpanChar_of_word (hs.2.1.elim (fun h => Or.inr (Or.inl h))
          fun h => Or.inr (Or.inr (Or.inl h)))
      · rcases hs.2.2 c hc with (h | h) | rfl
        · exact isSpanChar_of_word (Or.inr (Or.inl h))
        · exact isSpanChar_of_word (Or.inr (Or.inr (Or.inl h)))
        · decide

theorem sameGrammar_probePath : SameGrammar validProbePath isProbePath where
  encode_eq := validProbePath_encode
  isSpan := by
    intro s hs
    rw [isProbePath, Bool.and_eq_true] at hs
    have hmatch := hs.2
    split at hmatch
    · next t heq =>
      rw [heq]
      rw [Bool.and_eq_true, List.all_eq_true] at hmatch
      refine isSpan_cons (by decide) fun c hc => isSpanChar_of_word ?_
      have hchar := hmatch.2 c hc
      simp only [isProbeChar, Bool.or_eq_true, decide_eq_true_eq] at hchar
      rcases hchar with ((h | h) | h) | h
      · exact Or.inl h
      · exact Or.inr (Or.inl h)
      · exact Or.inr (Or.inr (Or.inl h))
      · have hmarks : ['.', '_', '-'] ⊆ ['-', '.', '_', '/', ':'] := by decide
        exact Or.inr (Or.inr (Or.inr (hmarks h)))
    · cases hmatch

/-! ### Digests and numbers -/

/-- A field with a digest: its bytes. -/
def digestField (c : Char) (name : String) : ByteParser (List UInt8) := do
  let s ← field c name plainString
  ofOption (digestBytes s.1)

/-- The bytes that a digest spells. -/
def digestOf (s : String) : List UInt8 := Control.fromHex (s.toList.drop 7)

theorem digestField_eq_some (hc : c.toNat < 0x80) {name : String} (hname : IsSpan name.toList)
    {b : List UInt8} : digestField c name l = some (b, r) ↔ ∃ s : String, isDigest s = true ∧
      b = digestOf s ∧ l = fieldStart c name (encode (quote s) ++ r) := by
  simp only [digestField, bind_eq_some, ofOption_eq_some, field_eq_some hc hname]
  constructor
  · rintro ⟨⟨raw, n⟩, _, ⟨_, rfl, hplain⟩, hdigest, rfl⟩
    obtain ⟨t, ht, rfl, -, rfl⟩ := plainString_eq_some.mp hplain
    obtain ⟨hvalid, rfl⟩ := (digestBytes_encode ht.isAscii).mp hdigest
    refine ⟨String.ofList t, hvalid, ?_, by rw [quote_ofList]⟩
    rw [digestOf, String.toList_ofList]
  · rintro ⟨s, hs, rfl, rfl⟩
    have hspan := sameGrammar_digest.isSpan hs
    refine ⟨_, r, ⟨_, rfl, plainString_eq_some.mpr ⟨s.toList, hspan, rfl, rfl, rfl⟩⟩, ?_, rfl⟩
    rw [digestBytes_encode hspan.isAscii, String.ofList_toList]
    exact ⟨hs, rfl⟩

/-- A field with a number. -/
def uintField (name : String) (ok : ℕ → Bool) : ByteParser ℕ := do
  let number ← field ',' name uintValue
  check (ok number)
  return number

theorem uintField_eq_some {name : String} (hname : IsSpan name.toList) {ok : ℕ → Bool} {n : ℕ} :
    uintField name ok l = some (n, r) ↔ (n < 2 ^ 64 ∧ ok n = true) ∧
      l = fieldStart ',' name (encode (natText n) ++ r) ∧ NoDigit r := by
  simp only [uintField, bind_eq_some, check_eq_some, pure_eq_some,
    field_eq_some comma_ascii hname, uintValue_eq_some]
  constructor
  · rintro ⟨_, _, ⟨_, rfl, hlt, rfl, hr⟩, _, _, ⟨hok, rfl⟩, rfl, rfl⟩
    exact ⟨⟨hlt, hok⟩, rfl, hr⟩
  · rintro ⟨⟨hlt, hok⟩, rfl, hr⟩
    exact ⟨n, r, ⟨_, rfl, hlt, rfl, hr⟩, (), r, ⟨hok, rfl⟩, rfl, rfl⟩

theorem noDigit_fieldStart (name : String) (m : List UInt8) : NoDigit (fieldStart ',' name m) := rfl

theorem noDigit_brace (m : List UInt8) : NoDigit (encode ['}'] ++ m) := rfl

end Palimpsest.Stage1.Init
