import Palimpsest.Stage1.WorkingDirectory

/-!
# The strings of the process in the guest

`parse_process` copies the strings of the plan into an arena of its own, without their escapes
(`Palimpsest.Stage1.Init.decodeProcessString_eq_some`). Arguments and variables are taken one
after the other, and whether one more fits depends on those before it. A list of them is taken if
all of them together fit (`Palimpsest.Stage1.Init.chain_argument`,
`Palimpsest.Stage1.Init.chain_environmentEntry`).
-/

namespace Palimpsest.Stage1.Init

open Json ByteParser
open Utf8 (asciiByte encode)

variable {l r raw out : List UInt8} {used used' : ℕ}

def argMaxLocal : ℕ := 4096
def envMaxLocal : ℕ := 4096
def stringMaxLocal : ℕ := 32 * 1024
def processMaxLocal : ℕ := 256 * 1024

/-! ### Decoding -/

/-- The byte of a short escape. -/
def shortEscape (e : UInt8) : Option UInt8 :=
  if e = asciiByte '"' ∨ e = asciiByte '\\' then some e
  else if e = asciiByte 'b' then some 8
  else if e = asciiByte 'f' then some 12
  else if e = asciiByte 'n' then some 10
  else if e = asciiByte 'r' then some 13
  else if e = asciiByte 't' then some 9
  else none

/-- The byte of an escape, after its backslash. -/
def unescape : ByteParser UInt8
  | [] => none
  | e :: s =>
    match shortEscape e with
    | some value => some (value, s)
    | none =>
      if e ≠ asciiByte 'u' then none
      else match s with
        | z :: z' :: x :: y :: s =>
          if z ≠ asciiByte '0' ∨ z' ≠ asciiByte '0' ∨ !Guest.isHex x ∨ !Guest.isHex y then none
          else some (UInt8.ofNat (hexValue x * 16 + hexValue y), s)
        | _ => none

/-- The byte in front, unescaped. -/
def decodeByte : ByteParser UInt8
  | [] => none
  | b :: s => if b = asciiByte '\\' then unescape s else some (b, s)

/-- The loop of `decode_process_string`: what is copied into the arena, and how much of the arena
is used then. -/
def decodeLoop : ℕ → ℕ → List UInt8 → Option (List UInt8 × ℕ)
  | _, used, [] => some ([], used)
  | 0, _, _ :: _ => none
  | fuel + 1, used, b :: s => do
    let p ← decodeByte (b :: s)
    if p.1 = 0 ∨ processMaxLocal ≤ used then none
    else
      let q ← decodeLoop fuel (used + 1) p.2
      return (p.1 :: q.1, q.2)

/-- `decode_process_string` -/
def decodeProcessString (used : ℕ) (raw : List UInt8) : Option (List UInt8 × ℕ) :=
  if processMaxLocal < used then none
  else do
    let p ← decodeLoop raw.length used raw
    if processMaxLocal + 1 ≤ p.2 then none else return (p.1, p.2 + 1)

/-- A byte that stands for itself. -/
theorem decodeByte_plain {b : UInt8} (hb : b ≠ asciiByte '\\') (s : List UInt8) :
    decodeByte (b :: s) = some (b, s) := if_neg hb

theorem decodeByte_escapeChar {c : Char} (hc : c.toNat < 0x80) (hnul : c ≠ '\x00')
    (s : List UInt8) : decodeByte (encode (escapeChar c) ++ s) = some (asciiByte c, s) := by
  rcases escape_cases hnul with hshort | hcode | ⟨hblank, hquote, hbackslash⟩
  · rcases hshort with rfl | rfl | rfl | rfl | rfl | rfl | rfl <;> rfl
  · have hlt := lt_of_refusedCode hcode
    have hhigh : c.toNat / 16 < 16 := by omega
    have hlow : c.toNat % 16 < 16 := by omega
    obtain ⟨-, hhex_high, hvalue_high⟩ := isHex_asciiByte_hexDigit hhigh
    obtain ⟨-, hhex_low, hvalue_low⟩ := isHex_asciiByte_hexDigit hlow
    have hvalue : hexValue (asciiByte (hexDigit (c.toNat / 16))) * 16 +
        hexValue (asciiByte (hexDigit (c.toNat % 16))) = c.toNat := by
      rw [hvalue_high, hvalue_low]
      omega
    rw [escapeChar_of_control hcode, encode_control hhigh hlow]
    have hdigits : ¬(asciiByte '0' ≠ asciiByte '0' ∨ asciiByte '0' ≠ asciiByte '0' ∨
        (!Guest.isHex (asciiByte (hexDigit (c.toNat / 16)))) = true ∨
          (!Guest.isHex (asciiByte (hexDigit (c.toNat % 16)))) = true) := by
      rw [hhex_high, hhex_low]
      decide
    have hu : shortEscape (asciiByte 'u') = none := by decide
    simp only [List.cons_append, List.nil_append]
    rw [decodeByte, if_pos rfl, unescape, hu]
    dsimp only
    rw [if_neg (not_not_intro rfl), if_neg hdigits, hvalue]
    rfl
  · rw [escapeChar_of_plain hblank hquote hbackslash, Utf8.encode_singleton hc,
      List.singleton_append]
    exact decodeByte_plain (fun h => hbackslash (Utf8.asciiByte_injective hc (by decide) h)) s

/-- Bytes that stand for themselves are copied, as long as there is room. -/
theorem decodeLoop_append {bs : List UInt8} (hbs : ∀ b ∈ bs, b ≠ asciiByte '\\' ∧ b ≠ 0)
    (hne : bs ≠ []) {fuel : ℕ} (hfuel : bs.length ≤ fuel) (s : List UInt8) :
    decodeLoop fuel used (bs ++ s) = if processMaxLocal < used + bs.length then none
      else (decodeLoop (fuel - bs.length) (used + bs.length) s).map fun q => (bs ++ q.1, q.2) := by
  induction bs generalizing fuel used with
  | nil => exact absurd rfl hne
  | cons b bs ih =>
    obtain ⟨⟨hplain, hnul⟩, hbs⟩ := List.forall_mem_cons.mp hbs
    rw [List.length_cons] at hfuel ⊢
    obtain ⟨fuel, rfl⟩ : ∃ n, fuel = n + 1 := ⟨fuel - 1, by omega⟩
    rw [List.cons_append, decodeLoop, decodeByte_plain hplain, Option.bind_eq_bind,
      Option.bind_some]
    dsimp only
    by_cases hfull : processMaxLocal ≤ used
    · rw [if_pos (Or.inr hfull), if_pos (by omega)]
    · rw [if_neg (not_or.mpr ⟨hnul, hfull⟩)]
      by_cases hrest : bs = []
      · subst hrest
        rw [List.nil_append, List.length_nil, if_neg (by omega), Nat.zero_add, Nat.add_sub_cancel]
        cases decodeLoop fuel (used + 1) s <;> rfl
      · rw [ih hbs hrest (by omega), Nat.add_right_comm, Nat.add_assoc,
          Nat.add_sub_add_right]
        split_ifs with hlong
        · rfl
        · cases decodeLoop (fuel - bs.length) (used + (bs.length + 1)) s <;> rfl

/-- A character is decoded to its bytes, as long as there is room. -/
theorem decodeLoop_escapeChar (used : ℕ) {c : Char} (hc : c ≠ '\x00') {fuel : ℕ} {s : List UInt8}
    (hfuel : (encode (escapeChar c) ++ s).length ≤ fuel) : ∃ fuel', s.length ≤ fuel' ∧
      decodeLoop fuel used (encode (escapeChar c) ++ s) =
        if processMaxLocal < used + (String.utf8EncodeChar c).length then none
        else (decodeLoop fuel' (used + (String.utf8EncodeChar c).length) s).map
          fun q => (String.utf8EncodeChar c ++ q.1, q.2) := by
  have hne : encode (escapeChar c) ≠ [] := fun hnil =>
    escapeChar_ne_nil c (Utf8.encode_eq_nil.mp hnil)
  rw [List.length_append] at hfuel
  have hpos := List.length_pos_iff.mpr hne
  -- A character of one byte may be escaped; any other stands for itself.
  by_cases hascii : c.toNat < 0x80
  · have hbyte := decodeByte_escapeChar hascii hc s
    obtain ⟨fuel, rfl⟩ : ∃ n, fuel = n + 1 := ⟨fuel - 1, by omega⟩
    refine ⟨fuel, by omega, ?_⟩
    rw [Utf8.utf8EncodeChar_of_ascii hascii]
    cases hl : encode (escapeChar c) ++ s with
    | nil => exact absurd (List.append_eq_nil_iff.mp hl).1 hne
    | cons b l =>
      rw [hl] at hbyte
      have hnul : asciiByte c ≠ 0 := fun h =>
        hc (Utf8.asciiByte_injective hascii (by decide) h)
      rw [decodeLoop, hbyte, Option.bind_eq_bind, Option.bind_some]
      dsimp only
      rw [List.length_singleton]
      by_cases hfull : processMaxLocal ≤ used
      · rw [if_pos (Or.inr hfull), if_pos (by omega)]
      · rw [if_neg (not_or.mpr ⟨hnul, hfull⟩), if_neg (by omega)]
        cases decodeLoop fuel (used + 1) s <;> rfl
  · have hplain : escapeChar c = [c] := by
      refine escapeChar_of_plain (by omega) ?_ ?_
      · rintro rfl
        exact hascii (by decide)
      · rintro rfl
        exact hascii (by decide)
    rw [hplain, Utf8.encode_cons, Utf8.encode_nil, List.append_nil] at hfuel hne ⊢
    refine ⟨fuel - (String.utf8EncodeChar c).length, by omega, ?_⟩
    refine decodeLoop_append (fun b hb => ?_) hne (by omega) s
    have hle := Utf8.le_of_mem_utf8EncodeChar (Nat.not_lt.mp hascii) hb
    constructor
    · rintro rfl
      exact absurd hle (by decide)
    · rintro rfl
      exact absurd hle (by decide)

/-- What a string with its escapes is decoded to, as long as there is room. -/
theorem decodeLoop_encode_escape {s : Text} (hs : '\x00' ∉ s) {fuel : ℕ}
    (hfuel : (encode (escape s)).length ≤ fuel) : decodeLoop fuel used (encode (escape s)) =
      if s = [] ∨ used + (encode s).length ≤ processMaxLocal
        then some (encode s, used + (encode s).length) else none := by
  induction s generalizing fuel used with
  | nil =>
    rw [if_pos (Or.inl rfl)]
    exact decodeLoop.eq_1 _ _
  | cons c s ih =>
    rw [List.mem_cons, not_or] at hs
    obtain ⟨hc, hs⟩ := hs
    rw [escape_cons, Utf8.encode_append] at hfuel ⊢
    obtain ⟨fuel', hfuel', heq⟩ := decodeLoop_escapeChar used (Ne.symm hc) hfuel
    rw [heq, ih hs hfuel', Utf8.encode_cons, List.length_append]
    simp only [or_iff_right (List.cons_ne_nil c s)]
    by_cases hroom : processMaxLocal < used + (String.utf8EncodeChar c).length
    · rw [if_pos hroom, if_neg (by omega)]
    · rw [if_neg hroom]
      have hiff : (s = [] ∨ used + (String.utf8EncodeChar c).length + (encode s).length ≤
          processMaxLocal) ↔ used + ((String.utf8EncodeChar c).length + (encode s).length) ≤
            processMaxLocal := by
        rw [← Nat.add_assoc]
        refine ⟨fun h => h.elim ?_ id, Or.inr⟩
        rintro rfl
        rw [Utf8.encode_nil, List.length_nil]
        omega
      simp only [hiff]
      split_ifs
      · rw [Option.map_some, Nat.add_assoc]
      · rfl

/-- **A string is decoded** to its bytes and a NUL, as long as there is room. -/
theorem decodeProcessString_eq_some {s : Text} (hs : '\x00' ∉ s) :
    decodeProcessString used (encode (escape s)) = some (out, used') ↔
      out = encode s ∧ used' = used + (encode s).length + 1 ∧
        used + (encode s).length ≤ processMaxLocal := by
  rw [decodeProcessString, decodeLoop_encode_escape hs (Nat.le_refl _)]
  by_cases hroom : used + (encode s).length ≤ processMaxLocal
  · rw [if_neg (by omega), if_pos (Or.inr hroom), Option.bind_eq_bind, Option.bind_some]
    dsimp only
    rw [if_neg (by omega), and_iff_left hroom]
    rw [Option.pure_def, Option.some.injEq, Prod.mk.injEq]
    exact and_congr eq_comm eq_comm
  · refine iff_of_false (fun h => ?_) fun h => hroom h.2.2
    split_ifs at h with hfull hnil
    · rcases hnil with rfl | hle
      · rw [Utf8.encode_nil, List.length_nil] at hroom
        omega
      · exact hroom hle
    · cases h

/-! ### Arguments -/

/-- What the loop over `argv` has counted. -/
structure ArgvState where
  argc : ℕ
  used : ℕ
  processBytes : ℕ

/-- One turn of the loop over `argv`. -/
def argument (st : ArgvState) : ByteParser (List UInt8 × ArgvState) := do
  let s ← jsonString false
  check (s.2 ≤ stringMaxLocal && !(st.argc = 0 && s.2 = 0))
  let p ← ofOption (decodeProcessString st.used s.1)
  return (p.1, ⟨st.argc + 1, p.2, st.processBytes + s.2 + 1⟩)

/-- A string of the process. -/
def IsPlain (x : Text) : Prop := '\x00' ∉ x ∧ (encode x).length ≤ stringMaxLocal

/-- An argument that is taken after those before it. -/
structure ArgumentOk (st : ArgvState) (x : Text) : Prop where
  plain : IsPlain x
  first : ¬(st.argc = 0 ∧ x = [])
  room : st.used + (encode x).length ≤ processMaxLocal

/-- What the loop has counted after an argument. -/
def nextArgument (st : ArgvState) (x : Text) : ArgvState :=
  ⟨st.argc + 1, st.used + (encode x).length + 1, st.processBytes + (encode x).length + 1⟩

theorem length_encode_eq_zero {x : Text} : (encode x).length = 0 ↔ x = [] := by
  rw [List.length_eq_zero_iff, Utf8.encode_eq_nil]

theorem reads_argument : Reads argument ArgumentOk nextArgument encode quoted where
  eq_some := by
    intro st l a st' r
    simp only [argument, bind_eq_some, check_eq_some, ofOption_eq_some, pure_eq_some,
      Bool.and_eq_true, decide_eq_true_eq, Bool.not_eq_true', Bool.and_eq_false_iff,
      decide_eq_false_iff_not]
    constructor
    · rintro ⟨⟨raw, n⟩, m, hstring, _, _, ⟨⟨hlen, hfirst⟩, rfl⟩, ⟨out, used'⟩, _, ⟨hdecode, rfl⟩,
        heq, rfl⟩
      obtain ⟨x, hnul, rfl, rfl, rfl⟩ := jsonString_eq_some.mp hstring
      obtain ⟨rfl, rfl, hroom⟩ := (decodeProcessString_eq_some hnul).mp hdecode
      obtain ⟨rfl, rfl⟩ := Prod.mk.inj heq
      refine ⟨x, ⟨⟨hnul, hlen⟩, ?_, hroom⟩, rfl, rfl, rfl⟩
      rintro ⟨hargc, rfl⟩
      exact hfirst.elim (fun h => h hargc) fun h => h rfl
    · rintro ⟨x, ⟨⟨hnul, hlen⟩, hfirst, hroom⟩, rfl, rfl, rfl⟩
      refine ⟨_, r, jsonString_eq_some.mpr ⟨x, hnul, rfl, rfl, rfl⟩, (), r, ⟨⟨hlen, ?_⟩, rfl⟩,
        _, r, ⟨(decodeProcessString_eq_some hnul).mpr ⟨rfl, rfl, hroom⟩, rfl⟩, rfl, rfl⟩
      rw [← not_and_or]
      exact fun h => hfirst ⟨h.1, length_encode_eq_zero.mp h.2⟩
  head_ne := fun _ => quoted_head _

/-- The bytes that strings take, each with a byte after it. -/
def withNuls (xs : List Text) : ℕ := (xs.map fun x => (encode x).length + 1).sum

theorem foldl_nextArgument (st : ArgvState) (xs : List Text) : xs.foldl nextArgument st =
    ⟨st.argc + xs.length, st.used + withNuls xs, st.processBytes + withNuls xs⟩ := by
  induction xs generalizing st with
  | nil => rfl
  | cons x xs ih =>
    rw [List.foldl_cons, ih, nextArgument, withNuls, withNuls, List.map_cons, List.sum_cons,
      List.length_cons]
    congr 1 <;> dsimp only <;> omega

/-- Arguments are taken if they fit all together. -/
theorem chain_argument {st : ArgvState} {xs : List Text} :
    Chain ArgumentOk nextArgument st xs ↔ (∀ x ∈ xs, IsPlain x) ∧
      ¬(st.argc = 0 ∧ xs.head? = some []) ∧
        (xs = [] ∨ st.used + withNuls xs ≤ processMaxLocal + 1) := by
  induction xs generalizing st with
  | nil =>
    refine iff_of_true trivial ⟨List.forall_mem_nil _, ?_, Or.inl rfl⟩
    rintro ⟨-, ⟨⟩⟩
  | cons x xs ih =>
    have hsum : withNuls (x :: xs) = (encode x).length + 1 + withNuls xs := List.sum_cons
    rw [Chain, ih, List.forall_mem_cons, List.head?_cons, Option.some.injEq,
      or_iff_right (List.cons_ne_nil x xs), hsum]
    have hlater : ¬((nextArgument st x).argc = 0 ∧ xs.head? = some []) := fun h => by
      cases h.1
    constructor
    · rintro ⟨⟨hplain, hfirst, hroom⟩, hxs, -, hfit⟩
      refine ⟨⟨hplain, hxs⟩, hfirst, ?_⟩
      rcases hfit with rfl | hfit
      · have hzero : withNuls [] = 0 := rfl
        omega
      · rw [nextArgument] at hfit
        dsimp only at hfit
        omega
    · rintro ⟨⟨hplain, hxs⟩, hfirst, hfit⟩
      refine ⟨⟨hplain, hfirst, by omega⟩, hxs, hlater, Or.inr ?_⟩
      rw [nextArgument]
      dsimp only
      omega

/-! ### The environment -/

/-- The loop that copies the name into the arena. -/
def appendLoop : ℕ → List UInt8 → Option ℕ
  | used, [] => some used
  | used, _ :: s => if processMaxLocal ≤ used then none else appendLoop (used + 1) s

/-- `append_environment` -/
def appendEnvironment (used : ℕ) (name value : List UInt8) : Option (List UInt8 × ℕ) := do
  let used ← appendLoop used name
  let used ← appendLoop used [asciiByte '=']
  let p ← decodeProcessString used value
  return (name ++ asciiByte '=' :: p.1, p.2)

theorem appendLoop_eq_some {s : List UInt8} : appendLoop used s = some used' ↔
    used' = used + s.length ∧ (s = [] ∨ used + s.length ≤ processMaxLocal) := by
  induction s generalizing used with
  | nil =>
    rw [appendLoop, Option.some.injEq]
    exact ⟨fun h => ⟨h.symm, Or.inl rfl⟩, fun h => h.1.symm⟩
  | cons b s ih =>
    rw [appendLoop, or_iff_right (List.cons_ne_nil b s), List.length_cons]
    by_cases hfull : processMaxLocal ≤ used
    · rw [if_pos hfull]
      refine iff_of_false (by rintro ⟨⟩) ?_
      rintro ⟨-, hle⟩
      omega
    · rw [if_neg hfull, ih]
      constructor
      · rintro ⟨rfl, hfit⟩
        refine ⟨by omega, ?_⟩
        rcases hfit with rfl | hfit
        · rw [List.length_nil]
          omega
        · omega
      · rintro ⟨rfl, hfit⟩
        exact ⟨by omega, Or.inr (by omega)⟩

theorem appendEnvironment_eq_some {name : List UInt8} {value : Text} (hvalue : '\x00' ∉ value) :
    appendEnvironment used name (encode (escape value)) = some (out, used') ↔
      out = name ++ asciiByte '=' :: encode value ∧
        used' = used + (name.length + (encode value).length + 2) ∧
          used + (name.length + (encode value).length + 1) ≤ processMaxLocal := by
  simp only [appendEnvironment, Option.bind_eq_bind, Option.bind_eq_some_iff, appendLoop_eq_some,
    Option.pure_def, Option.some.injEq, Prod.mk.injEq, List.length_singleton]
  constructor
  · rintro ⟨_, ⟨rfl, -⟩, _, ⟨rfl, -⟩, ⟨out', used''⟩, hdecode, rfl, rfl⟩
    obtain ⟨rfl, rfl, hroom⟩ := (decodeProcessString_eq_some hvalue).mp hdecode
    exact ⟨rfl, by dsimp only; omega, by omega⟩
  · rintro ⟨rfl, rfl, hroom⟩
    refine ⟨_, ⟨rfl, Or.inr (by omega)⟩, _, ⟨rfl, Or.inr (by omega)⟩, (encode value, _),
      (decodeProcessString_eq_some hvalue).mpr ⟨rfl, rfl, by omega⟩, rfl, ?_⟩
    dsimp only
    omega

/-- What the loop over the environment has seen and counted. -/
structure EnvState where
  names : List (List UInt8)
  used : ℕ
  processBytes : ℕ

/-- One turn of the loop over the environment. -/
def environmentEntry (st : EnvState) : ByteParser (List UInt8 × EnvState) := do
  let name ← field '{' "name" plainString
  check (validEnvName name.1)
  let value ← field ',' "value" (jsonString false)
  check (value.2 ≤ stringMaxLocal)
  expect '}'
  check (st.names.all (· ≠ name.1))
  let p ← ofOption (appendEnvironment st.used name.1 value.1)
  return (p.1, ⟨name.1 :: st.names, p.2, st.processBytes + name.2 + value.2 + 2⟩)

/-- The text of an entry. -/
def entryText (e : Text × Text) : Text := objText [("name", quoted e.1), ("value", quoted e.2)]

/-- The variable as the workload sees it. -/
def entryBytes (e : Text × Text) : List UInt8 := encode e.1 ++ asciiByte '=' :: encode e.2

/-- How many bytes a variable takes in the arena. -/
def entrySize (e : Text × Text) : ℕ := (encode e.1).length + (encode e.2).length + 2

/-- An entry that is taken after those before it. -/
structure EntryOk (st : EnvState) (e : Text × Text) : Prop where
  name : Process.isEnvName e.1 = true
  value : IsPlain e.2
  fresh : encode e.1 ∉ st.names
  room : st.used + entrySize e ≤ processMaxLocal + 1

/-- What the loop has seen and counted after an entry. -/
def nextEntry (st : EnvState) (e : Text × Text) : EnvState :=
  ⟨encode e.1 :: st.names, st.used + entrySize e, st.processBytes + entrySize e⟩

theorem isSpan_of_isEnvName {x : Text} (h : Process.isEnvName x = true) : IsSpan x := by
  intro c hc
  have hchar := Process.isEnvChar_of_mem h hc
  simp only [Process.isEnvChar, Account.isAsciiLetter, Bool.or_eq_true, Bool.and_eq_true,
    decide_eq_true_eq] at hchar
  have hbounds : ∀ a b : Char, a ≤ c ∧ c ≤ b → a.toNat ≤ c.toNat ∧ c.toNat ≤ b.toNat :=
    fun a b h => h
  have hrange : (65 ≤ c.toNat ∧ c.toNat ≤ 90) ∨ (97 ≤ c.toNat ∧ c.toNat ≤ 122) ∨ c.toNat = 95 ∨
      (48 ≤ c.toNat ∧ c.toNat ≤ 57) := by
    rcases hchar with ((hupper | hlower) | rfl) | hdigit
    · exact Or.inl (hbounds 'A' 'Z' hupper)
    · exact Or.inr (Or.inl (hbounds 'a' 'z' hlower))
    · exact Or.inr (Or.inr (Or.inl rfl))
    · exact Or.inr (Or.inr (Or.inr (hbounds '0' '9' hdigit)))
  refine isSpanChar_iff.mpr ⟨by omega, by omega, ?_, ?_⟩
  · rintro rfl
    revert hrange
    decide
  · rintro rfl
    revert hrange
    decide

/-- The text of an entry, from the front. -/
theorem encode_entryText (e : Text × Text) (r : List UInt8) : encode (entryText e) ++ r =
    fieldStart '{' "name" (encode (quoted e.1) ++ fieldStart ',' "value" (encode (quoted e.2) ++
      (encode ['}'] ++ r))) := encode_objText _ _ _ _

theorem all_ne_iff {names : List (List UInt8)} {name : List UInt8} :
    (names.all fun n => decide (n ≠ name)) = true ↔ name ∉ names := by
  rw [List.all_eq_true]
  constructor
  · intro h hmem
    exact of_decide_eq_true (h name hmem) rfl
  · rintro h n hn
    exact decide_eq_true fun heq => h (heq ▸ hn)

theorem reads_environmentEntry :
    Reads environmentEntry EntryOk nextEntry entryBytes entryText where
  eq_some := by
    intro st l a st' r
    simp only [environmentEntry, bind_eq_some, check_eq_some, ofOption_eq_some, pure_eq_some,
      expect_eq_some closing_ascii,
      field_eq_some brace_ascii (show IsSpan "name".toList by decide),
      field_eq_some comma_ascii (show IsSpan "value".toList by decide),
      decide_eq_true_eq, encode_entryText, all_ne_iff]
    constructor
    · rintro ⟨⟨rawName, nameLen⟩, _, ⟨_, rfl, hname⟩, _, _, ⟨hgrammar, rfl⟩, ⟨rawValue, valueLen⟩,
        _, ⟨_, rfl, hvalue⟩, _, _, ⟨hlen, rfl⟩, _, _, rfl, _, _, ⟨hfresh, rfl⟩, ⟨out, used'⟩, _,
        ⟨happend, rfl⟩, heq, rfl⟩
      obtain ⟨name, hspan, rfl, rfl, rfl⟩ := plainString_eq_some.mp hname
      obtain ⟨value, hnul, rfl, rfl, rfl⟩ := jsonString_eq_some.mp hvalue
      obtain ⟨rfl, rfl, hroom⟩ := (appendEnvironment_eq_some hnul).mp happend
      obtain ⟨rfl, rfl⟩ := Prod.mk.inj heq
      rw [validEnvName_encode hspan.isAscii] at hgrammar
      dsimp only at hroom
      refine ⟨(name, value), ⟨hgrammar, ⟨hnul, hlen⟩, hfresh, ?_⟩, rfl, ?_, rfl⟩
      · rw [entrySize]
        dsimp only
        omega
      · rw [nextEntry, entrySize, hspan.length_encode]
        congr 1
        dsimp only
        omega
    · rintro ⟨⟨name, value⟩, ⟨hgrammar, ⟨hnul, hlen⟩, hfresh, hroom⟩, rfl, rfl, rfl⟩
      have hspan := isSpan_of_isEnvName hgrammar
      rw [entrySize] at hroom
      dsimp only at hgrammar hnul hlen hfresh hroom hspan
      refine ⟨_, _, ⟨_, rfl, plainString_eq_some.mpr ⟨name, hspan, rfl, rfl, rfl⟩⟩, (), _, ⟨?_,
        rfl⟩, _, _, ⟨_, rfl, jsonString_eq_some.mpr ⟨value, hnul, rfl, rfl, rfl⟩⟩, (), _, ⟨hlen,
        rfl⟩, (), _, rfl, (), _, ⟨hfresh, rfl⟩, _, _,
        ⟨(appendEnvironment_eq_some hnul).mpr ⟨rfl, rfl, by dsimp only; omega⟩, rfl⟩, ?_, rfl⟩
      · rw [validEnvName_encode hspan.isAscii, hgrammar]
      · rw [nextEntry, entrySize, entryBytes, hspan.length_encode]
        congr 2
        dsimp only
        omega
  head_ne := fun _ => ⟨'{', _, rfl, by decide, by decide⟩

/-- The bytes that variables take. -/
def entrySizes (es : List (Text × Text)) : ℕ := (es.map entrySize).sum

theorem foldl_nextEntry (st : EnvState) (es : List (Text × Text)) : es.foldl nextEntry st =
    ⟨(es.map fun e => encode e.1).reverse ++ st.names, st.used + entrySizes es,
      st.processBytes + entrySizes es⟩ := by
  induction es generalizing st with
  | nil => rfl
  | cons e es ih =>
    have hsum : entrySizes (e :: es) = entrySize e + entrySizes es := List.sum_cons
    rw [List.foldl_cons, ih, nextEntry, hsum, List.map_cons, List.reverse_cons, List.append_assoc,
      List.singleton_append]
    congr 1 <;> dsimp only <;> omega

/-- Variables are taken if their names differ and they fit all together. -/
theorem chain_environmentEntry {st : EnvState} {es : List (Text × Text)} :
    Chain EntryOk nextEntry st es ↔
      (∀ e ∈ es, Process.isEnvName e.1 = true ∧ IsPlain e.2) ∧ (es.map Prod.fst).Nodup ∧
        (∀ e ∈ es, encode e.1 ∉ st.names) ∧
          (es = [] ∨ st.used + entrySizes es ≤ processMaxLocal + 1) := by
  induction es generalizing st with
  | nil =>
    exact iff_of_true trivial ⟨List.forall_mem_nil _, List.nodup_nil, List.forall_mem_nil _,
      Or.inl rfl⟩
  | cons e es ih =>
    have hsum : entrySizes (e :: es) = entrySize e + entrySizes es := List.sum_cons
    -- The names that were read are those in front, so they all differ.
    have hnames : (∀ d ∈ es, encode d.1 ∉ (nextEntry st e).names) ↔
        e.1 ∉ es.map Prod.fst ∧ ∀ d ∈ es, encode d.1 ∉ st.names := by
      simp only [nextEntry, List.mem_cons, not_or, encode_inj, List.mem_map, not_exists, not_and]
      exact ⟨fun h => ⟨fun d hd => (h d hd).1, fun d hd => (h d hd).2⟩,
        fun h d hd => ⟨h.1 d hd, h.2 d hd⟩⟩
    rw [Chain, ih, List.forall_mem_cons, List.forall_mem_cons, hnames, List.map_cons,
      List.nodup_cons, or_iff_right (List.cons_ne_nil e es), hsum]
    constructor
    · rintro ⟨⟨hname, hvalue, hfresh, hroom⟩, hes, hnodup, ⟨hnew, hrest⟩, hfit⟩
      refine ⟨⟨⟨hname, hvalue⟩, hes⟩, ⟨hnew, hnodup⟩, ⟨hfresh, hrest⟩, ?_⟩
      rcases hfit with rfl | hfit
      · have hzero : entrySizes [] = 0 := rfl
        omega
      · rw [nextEntry] at hfit
        dsimp only at hfit
        omega
    · rintro ⟨⟨⟨hname, hvalue⟩, hes⟩, ⟨hnew, hnodup⟩, ⟨hfresh, hrest⟩, hfit⟩
      refine ⟨⟨hname, hvalue, hfresh, by omega⟩, hes, hnodup, ⟨hnew, hrest⟩, Or.inr ?_⟩
      rw [nextEntry]
      dsimp only
      omega

end Palimpsest.Stage1.Init
