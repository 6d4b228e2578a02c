import Palimpsest.Layer.Headers
import Palimpsest.Layer.Spellings
import Palimpsest.Lib.Partition

/-!
# What is accepted as a number and as records

Two grammars of the tar format and how the scanner's readers keep to them.

* A number of a header (`Palimpsest.Layer.TarNumeric`) is octal digits between NULs and
  blanks, or a big-endian number under a set first bit. `_tar_number` hands the octal text
  to `int`, so it accepts the texts of this grammar and the loose spellings of `int`
  besides (`Palimpsest.Layer.numberExact_iff`).
* The payload of a PAX header (`Palimpsest.Layer.PaxRecords`) is records, each led by its
  own length in decimal digits. `_parse_pax` reads the length with `int`, which takes loose
  spellings too and refuses more than 4300 digits (`Palimpsest.Layer.recordsExact_iff`).

`Palimpsest.Layer.layerGrammars_iff` puts the two together.
-/

namespace Palimpsest.Layer

open Control (decodeUtf8)
open Results

/-! ### The grammars -/

/-- NULs and blanks. -/
def IsPadding (b : Bytes) : Prop := ∀ c ∈ b, c = 0 ∨ c = 32

/-- The numbers of tar headers. -/
inductive TarNumeric : Bytes → ℕ → Prop
  /-- Octal digits, possibly none, between NULs and blanks. -/
  | octal {before digits after : Bytes} (hbefore : IsPadding before) (hdigits : IsDigits 8 digits)
    (hafter : IsPadding after) :
    TarNumeric (before ++ digits ++ after) (digitsValue 8 digits)
  /-- A number in base 256: the first bit marks it, the second one is its sign. -/
  | base256 {first : UInt8} {rest : Bytes} (hmark : first &&& 0x80 ≠ 0)
      (hsign : first &&& 0x40 = 0) :
    TarNumeric (first :: rest) (fromBytesBig ((first &&& 0x7F) :: rest))

/-- The bytes of a record's key. -/
def PaxKey (keyRaw : Bytes) (key : Text) : Prop :=
  keyRaw ≠ [] ∧ 0 ∉ keyRaw ∧ 61 ∉ keyRaw ∧ decodeUtf8 keyRaw = some key

/-- The bytes of a record's value: text, or the raw bytes of a file capability. -/
def PaxValue (key : Text) (valueRaw : Bytes) (value : Text) : Prop :=
  if key = capabilityKey then value = decodeLatin1 valueRaw
  else 0 ∉ valueRaw ∧ decodeUtf8 valueRaw = some value

/-- The payloads of PAX headers, with the texts of the lengths and the records: each record
is its length, a blank, a key, `=`, a value and a newline. -/
inductive PaxRecords (IsLength : Bytes → ℕ → Prop) : Bytes → List Bytes → Pax → Prop
  | nil : PaxRecords IsLength [] [] []
  | cons {length keyRaw valueRaw rest : Bytes} {key value : Text} {lengths : List Bytes} {rs : Pax}
    (hlength : IsLength length (length ++ 32 :: (keyRaw ++ 61 :: (valueRaw ++ [10]))).length)
    (hkey : PaxKey keyRaw key) (hvalue : PaxValue key valueRaw value)
    (hrest : PaxRecords IsLength rest lengths rs) :
    PaxRecords IsLength (length ++ 32 :: (keyRaw ++ 61 :: (valueRaw ++ [10])) ++ rest)
      (length :: lengths) ((key, value) :: rs)

/-- A length in plain decimal digits. -/
def PlainLength (text : Bytes) (n : ℕ) : Prop :=
  text ≠ [] ∧ IsDigits 10 text ∧ digitsValue 10 text = n

/-- A length as `int` reads it. -/
def IntLength (text : Bytes) (n : ℕ) : Prop :=
  32 ∉ text ∧ ∃ s : Spelling 10 text, s.value = n ∧ (digitsOf s.body).length ≤ maxStrDigits

/-! ### Keeping to them -/

/-- `_tar_number` keeps to the grammar at a field. -/
def NumberExact (field : Bytes) : Prop :=
  ∀ label v, tarNumber field label = .ok v ↔ TarNumeric field v

/-- `_parse_pax` keeps to the grammar at a payload, and returns the last value of each key. -/
def RecordsExact (payload : Bytes) : Prop :=
  ((∃ pax, parsePax payload = .ok pax) ↔ ∃ lengths rs, PaxRecords PlainLength payload lengths rs) ∧
    ∀ pax lengths rs, parsePax payload = .ok pax → PaxRecords PlainLength payload lengths rs →
      ∀ key, pax.lookup key = rs.reverse.lookup key

/-- A field without the mark of base 256, whose text between the NULs and blanks is a loose
spelling of a number that is not negative. -/
def LooseNumber (field : Bytes) : Prop :=
  (∀ c ∈ field.head?, c &&& 0x80 = 0) ∧
    ∃ s : Spelling 8 (strip [0, 32] field), s.IsLoose ∧ 0 ≤ s.value

/-- A payload of records whose lengths `int` reads, one of them in a loose spelling. -/
def LooseRecords (payload : Bytes) : Prop :=
  ∃ lengths rs, PaxRecords IntLength payload lengths rs ∧
    ∃ text ∈ lengths, ∃ s : Spelling 10 text, s.IsLoose

/-- A payload of records with plain lengths, one of them of too many digits for `int`. -/
def LongRecords (payload : Bytes) : Prop :=
  ∃ lengths rs, PaxRecords PlainLength payload lengths rs ∧
    ∃ text ∈ lengths, maxStrDigits < text.length

/-! ### Numbers -/

theorem mem_padding {c : UInt8} : c ∈ ([0, 32] : Bytes) ↔ c = 0 ∨ c = 32 := by
  simp only [List.mem_cons, List.not_mem_nil, or_false]

theorem not_padding_of_isDigit {base : ℕ} {c : UInt8} (h : IsDigit base c) :
    c ∉ ([0, 32] : Bytes) := by
  rw [mem_padding]
  rintro (rfl | rfl)
  · exact absurd h.toNat.1 (by decide)
  · exact absurd h.toNat.1 (by decide)

/-- What is stripped off the end. -/
theorem rdropWhile_append_of_pos {α : Type} {p : α → Bool} {l after : List α}
    (h : ∀ a ∈ after, p a) : (l ++ after).rdropWhile p = l.rdropWhile p := by
  rw [List.rdropWhile, List.reverse_append,
    List.dropWhile_append_of_pos fun a ha => h a (List.mem_reverse.mp ha), List.rdropWhile]

/-- Digits are what stripping leaves of them. -/
theorem strip_padded {before digits after : Bytes} (hbefore : IsPadding before)
    (hdigits : IsDigits 8 digits) (hafter : IsPadding after) :
    strip [0, 32] (before ++ digits ++ after) = digits := by
  have hpad : ∀ b : Bytes, IsPadding b → ∀ c ∈ b, decide (c ∈ ([0, 32] : Bytes)) = true :=
    fun b hb c hc => decide_eq_true (mem_padding.mpr (hb c hc))
  have hdigit : ∀ c ∈ digits, decide (c ∈ ([0, 32] : Bytes)) = false :=
    fun c hc => decide_eq_false (not_padding_of_isDigit (hdigits c hc))
  rw [strip, List.append_assoc, List.dropWhile_append_of_pos (hpad before hbefore)]
  cases digits with
  | nil =>
    rw [List.nil_append, List.dropWhile_eq_nil_iff.mpr (hpad after hafter)]
    rfl
  | cons c digits =>
    have hfirst : (c :: digits ++ after).dropWhile (fun a => decide (a ∈ ([0, 32] : Bytes))) =
        c :: digits ++ after := by
      rw [List.cons_append, List.dropWhile_cons, hdigit c List.mem_cons_self,
        if_neg Bool.false_ne_true]
    rw [hfirst, rdropWhile_append_of_pos (hpad after hafter), List.rdropWhile_eq_self_iff]
    intro hne
    rw [hdigit _ (List.getLast_mem hne)]
    exact Bool.false_ne_true

/-- A field is what stripping leaves of it, between NULs and blanks. -/
theorem exists_padded (field : Bytes) : ∃ before after, IsPadding before ∧ IsPadding after ∧
    field = before ++ strip [0, 32] field ++ after := by
  refine ⟨field.takeWhile (· ∈ ([0, 32] : Bytes)),
    (field.dropWhile (· ∈ ([0, 32] : Bytes))).rtakeWhile (· ∈ ([0, 32] : Bytes)), ?_, ?_, ?_⟩
  · exact fun c hc => mem_padding.mp (by simpa using List.mem_takeWhile_imp hc)
  · exact fun c hc => mem_padding.mp (by simpa using List.mem_rtakeWhile_imp hc)
  · rw [strip, List.append_assoc, List.rdropWhile_append_rtakeWhile,
      List.takeWhile_append_dropWhile]

/-- Octal text has no mark of base 256. -/
theorem unmarked_of_padded {before digits after : Bytes} (hbefore : IsPadding before)
    (hdigits : IsDigits 8 digits) (hafter : IsPadding after) :
    ∀ c ∈ before ++ digits ++ after, c &&& 0x80 = 0 := by
  have hpad : ∀ c : UInt8, c = 0 ∨ c = 32 → c &&& 0x80 = 0 := by
    rintro c (rfl | rfl) <;> decide
  have hall : ∀ n < 58, UInt8.ofNat n &&& 0x80 = 0 := by decide
  intro c hc
  simp only [List.mem_append] at hc
  rcases hc with (hc | hc) | hc
  · exact hpad c (hbefore c hc)
  · have hlow := hall c.toNat ((hdigits c hc).toNat_lt (by decide))
    rwa [UInt8.ofNat_toNat] at hlow
  · exact hpad c (hafter c hc)

/-- The octal numbers of the grammar, by what stripping leaves. -/
theorem tarNumeric_iff_of_unmarked {field : Bytes} (hfield : ∀ c ∈ field.head?, c &&& 0x80 = 0)
    {v : ℕ} : TarNumeric field v ↔
      IsDigits 8 (strip [0, 32] field) ∧ v = digitsValue 8 (strip [0, 32] field) := by
  constructor
  · intro h
    cases h with
    | octal hbefore hdigits hafter =>
      rw [strip_padded hbefore hdigits hafter]
      exact ⟨hdigits, rfl⟩
    | base256 hmark _ => exact absurd (hfield _ rfl) hmark
  · rintro ⟨hdigits, rfl⟩
    obtain ⟨before, after, hbefore, hafter, heq⟩ := exists_padded field
    have h := TarNumeric.octal hbefore hdigits hafter
    rwa [← heq] at h

/-- `_tar_number` on a field without the mark of base 256. -/
theorem tarNumber_eq_ok_of_unmarked {field : Bytes} (hfield : ∀ c ∈ field.head?, c &&& 0x80 = 0)
    {label : String} {v : ℕ} : tarNumber field label = .ok v ↔
      strip [0, 32] field = [] ∧ v = 0 ∨ ∃ s : Spelling 8 (strip [0, 32] field), s.value = v := by
  have hnil : pyInt 8 [48] = some 0 := by decide
  cases field with
  | nil =>
    constructor
    · intro h
      exact .inl ⟨rfl, (Except.ok.inj h).symm⟩
    · rintro (⟨-, rfl⟩ | ⟨s, -⟩)
      · rfl
      · exact absurd rfl s.ne_nil
  | cons first rest =>
    rw [tarNumber, if_neg (not_not.mpr (hfield first rfl))]
    dsimp only
    -- A field of padding alone is read as zero.
    by_cases hraw : strip [0, 32] (first :: rest) = []
    · rw [if_pos hraw, hnil, hraw]
      constructor
      · intro h
        exact .inl ⟨rfl, (Except.ok.inj h).symm⟩
      · rintro (⟨-, rfl⟩ | ⟨s, -⟩)
        · rfl
        · exact absurd rfl s.ne_nil
    · rw [if_neg hraw]
      cases hint : pyInt 8 (strip [0, 32] (first :: rest)) with
      | none =>
        constructor
        · nofun
        · rintro (⟨h, -⟩ | ⟨s, -⟩)
          · exact absurd h hraw
          · rw [s.pyInt_eq_some (by decide) nofun] at hint
            cases hint
      | some value =>
        obtain ⟨s, hs, -⟩ := exists_spelling (by decide) hint
        dsimp only
        constructor
        · intro h
          obtain ⟨hsign, h⟩ := of_guard h
          refine .inr ⟨s, ?_⟩
          rw [hs, ← Except.ok.inj h, Int.toNat_of_nonneg (not_lt.mp hsign)]
        · rintro (⟨h, -⟩ | ⟨s', hs'⟩)
          · exact absurd h hraw
          · rw [s'.pyInt_eq_some (by decide) nofun, hs'] at hint
            obtain rfl := Option.some.inj hint
            rw [if_neg (not_lt.mpr (Int.natCast_nonneg v)), Int.toNat_natCast]

/-- A field with the mark of base 256 is read by the grammar. -/
theorem numberExact_of_marked {first : UInt8} {rest : Bytes} (hmark : first &&& 0x80 ≠ 0) :
    NumberExact (first :: rest) := by
  intro label v
  rw [tarNumber, if_pos hmark]
  constructor
  · intro h
    obtain ⟨hsign, h⟩ := of_guard h
    rw [← Except.ok.inj h]
    exact .base256 hmark (not_not.mp hsign)
  · intro h
    generalize hfield : first :: rest = field at h
    cases h with
    | octal hbefore hdigits hafter =>
      -- The first byte of octal text is a NUL, a blank or a digit, and has no such mark.
      have hall := unmarked_of_padded hbefore hdigits hafter
      rw [← hfield] at hall
      exact absurd (hall first List.mem_cons_self) hmark
    | base256 _ hsign =>
      obtain ⟨rfl, rfl⟩ := List.cons.inj hfield
      rw [if_neg (not_not.mpr hsign)]

/-- **A number is read by the grammar except where it is spelled loosely.** -/
theorem numberExact_iff (field : Bytes) : NumberExact field ↔ ¬LooseNumber field := by
  by_cases hfield : ∀ c ∈ field.head?, c &&& 0x80 = 0
  · constructor
    · rintro hexact ⟨-, s, hloose, hvalue⟩
      have hread : tarNumber field "" = .ok s.value.toNat :=
        (tarNumber_eq_ok_of_unmarked hfield).mpr (.inr ⟨s, (Int.toNat_of_nonneg hvalue).symm⟩)
      have hdigits := ((tarNumeric_iff_of_unmarked hfield).mp ((hexact _ _).mp hread)).1
      exact (s.isLoose_iff (by decide)).mp hloose hdigits
    · intro hloose label v
      rw [tarNumber_eq_ok_of_unmarked hfield, tarNumeric_iff_of_unmarked hfield]
      constructor
      -- A spelling that is not loose is the digits themselves.
      · rintro (⟨hnil, rfl⟩ | ⟨s, hs⟩)
        · rw [hnil]
          exact ⟨List.forall_mem_nil _, rfl⟩
        · have hdigits : IsDigits 8 (strip [0, 32] field) := by
            by_contra hnot
            refine hloose ⟨hfield, s, (s.isLoose_iff (by decide)).mpr hnot, ?_⟩
            rw [hs]
            exact Int.natCast_nonneg v
          refine ⟨hdigits, ?_⟩
          exact Int.natCast_inj.mp (hs.symm.trans (s.value_of_isDigits (by decide) hdigits).2)
      · rintro ⟨hdigits, rfl⟩
        by_cases hnil : strip [0, 32] field = []
        · rw [hnil]
          exact .inl ⟨rfl, rfl⟩
        · have s := hdigits.spelling hnil
          exact .inr ⟨s, (s.value_of_isDigits (by decide) hdigits).2⟩
  · refine iff_of_true ?_ fun hloose => hfield hloose.1
    cases field with
    | nil => exact absurd (by rintro _ ⟨⟩) hfield
    | cons first rest =>
      refine numberExact_of_marked fun hmark => hfield fun c hc => ?_
      rwa [← Option.some.inj hc]

/-! ### Records -/

theorem lookup_cons_ite (r : Text × Text) (pax : Pax) (key : Text) :
    List.lookup key (r :: pax) = if key = r.1 then some r.2 else pax.lookup key := by
  rw [List.lookup_cons]
  by_cases hk : key = r.1
  · rw [if_pos hk, hk, beq_self_eq_true]
  · rw [if_neg hk, beq_false_of_ne hk]

theorem Pax.lookup_set (pax : Pax) (key value k : Text) :
    (pax.set key value).lookup k = if k = key then some value else pax.lookup k := by
  induction pax with
  | nil => rw [Pax.set, lookup_cons_ite]
  | cons r pax ih =>
    rw [Pax.set]
    by_cases hr : r.1 = key
    · rw [if_pos hr, lookup_cons_ite, lookup_cons_ite, hr]
      split_ifs <;> rfl
    · rw [if_neg hr, lookup_cons_ite, lookup_cons_ite, ih]
      by_cases hk : k = r.1
      · rw [if_pos hk, if_pos hk, if_neg fun h => hr (hk.symm.trans h)]
      · rw [if_neg hk, if_neg hk]

/-- **A dictionary filled in order holds the last value of each key.** -/
theorem Pax.lookup_update (rs : Pax) (key : Text) :
    (Pax.update [] rs).lookup key = rs.reverse.lookup key := by
  induction rs using List.reverseRecOn with
  | nil => rfl
  | append_singleton rs r ih =>
    rw [Pax.update, List.foldl_concat, Pax.lookup_set, List.reverse_concat, lookup_cons_ite, ← ih]
    rfl

/-- A record is read by its grammar. -/
theorem readRecord_eq_ok {record : Bytes} {r : Text × Text} :
    readRecord record = .ok r ↔ ∃ keyRaw valueRaw, record = keyRaw ++ 61 :: valueRaw ∧
      PaxKey keyRaw r.1 ∧ PaxValue r.1 valueRaw r.2 := by
  constructor
  · intro h
    obtain ⟨hmalformed, h⟩ := of_guard h
    simp only [not_or, not_not] at hmalformed
    obtain ⟨hmem, hne, hnul⟩ := hmalformed
    refine ⟨_, _, Partition.eq_of_mem hmem, ?_⟩
    cases hkey : decodeUtf8 (record.takeWhile (· ≠ 61)) with
    | none =>
      rw [hkey] at h
      cases h
    | some key =>
      rw [hkey] at h
      dsimp only at h
      have hpaxKey : PaxKey (record.takeWhile (· ≠ 61)) key :=
        ⟨hne, hnul, Partition.notMem_takeWhile, hkey⟩
      -- The value of a capability is taken as it is; any other is a text.
      by_cases hcapability : key = capabilityKey
      · rw [if_pos hcapability] at h
        obtain rfl := Except.ok.inj h
        exact ⟨hpaxKey, by rw [PaxValue, if_pos hcapability]⟩
      · rw [if_neg hcapability] at h
        obtain ⟨hvalueNul, h⟩ := of_guard h
        cases hvalue : decodeUtf8 ((record.dropWhile (· ≠ 61)).drop 1) with
        | none =>
          rw [hvalue] at h
          cases h
        | some value =>
          rw [hvalue] at h
          obtain rfl := Except.ok.inj h
          exact ⟨hpaxKey, by rw [PaxValue, if_neg hcapability]; exact ⟨hvalueNul, hvalue⟩⟩
  · rintro ⟨keyRaw, valueRaw, rfl, ⟨hne, hnul, hkeyMem, hkey⟩, hvalue⟩
    have hmalformed : ¬(61 ∉ keyRaw ++ 61 :: valueRaw ∨ keyRaw = [] ∨ 0 ∈ keyRaw) := by
      simp [hne, hnul]
    rw [readRecord]
    rw [Partition.takeWhile_append hkeyMem, Partition.dropWhile_append hkeyMem, if_neg hmalformed,
      hkey, List.drop_one, List.tail_cons]
    rw [PaxValue] at hvalue
    by_cases hcapability : r.1 = capabilityKey
    · rw [if_pos hcapability] at hvalue
      dsimp only
      rw [if_pos hcapability, ← hvalue]
    · rw [if_neg hcapability] at hvalue
      dsimp only
      rw [if_neg hcapability, if_neg hvalue.1, hvalue.2]

/-- A record in front of the rest of a payload, cut by its length. -/
theorem cut_record (text record rest : Bytes) :
    (text ++ 32 :: (record ++ [10]) ++ rest)[(text ++ 32 :: (record ++ [10])).length - 1]? =
        some 10 ∧
      ((text ++ 32 :: (record ++ [10]) ++ rest).take
        ((text ++ 32 :: (record ++ [10])).length - 1)).drop (text.length + 1) = record ∧
      (text ++ 32 :: (record ++ [10]) ++ rest).drop (text ++ 32 :: (record ++ [10])).length =
        rest := by
  have hlength : (text ++ 32 :: (record ++ [10])).length - 1 = (text ++ 32 :: record).length := by
    simp
  have heq : text ++ 32 :: (record ++ [10]) ++ rest = text ++ 32 :: record ++ 10 :: rest := by simp
  refine ⟨?_, ?_, List.drop_left⟩
  · rw [hlength, heq, List.getElem?_append_right le_rfl, Nat.sub_self]
    rfl
  · rw [hlength, heq, List.take_left, List.drop_append, List.drop_of_length_le (by omega),
      Nat.add_sub_cancel_left]
    rfl

/-- A payload cut by the length of its first record. -/
theorem uncut_record {text tail : Bytes} {stop : ℕ} (hlong : text.length + 2 < stop)
    (hroom : stop ≤ (text ++ 32 :: tail).length)
    (hnewline : (text ++ 32 :: tail)[stop - 1]? = some 10)
    {record : Bytes}
    (hrecord : ((text ++ 32 :: tail).take (stop - 1)).drop (text.length + 1) = record) :
    (text ++ 32 :: (record ++ [10])).length = stop ∧
      text ++ 32 :: tail = text ++ 32 :: (record ++ [10]) ++ (text ++ 32 :: tail).drop stop := by
  obtain ⟨k, rfl⟩ : ∃ k, stop = text.length + (k + 1) + 1 := ⟨stop - text.length - 2, by omega⟩
  rw [Nat.add_sub_cancel, List.getElem?_append_right (by omega), Nat.add_sub_cancel_left,
    List.getElem?_cons_succ] at hnewline
  rw [Nat.add_sub_cancel, List.take_length_add_append, List.take_succ_cons, List.drop_append,
    List.drop_of_length_le (by omega), Nat.add_sub_cancel_left, List.drop_succ_cons, List.drop_zero,
    List.nil_append] at hrecord
  obtain ⟨hk, htail⟩ := List.getElem?_eq_some_iff.mp hnewline
  have hsplit : tail = tail.take k ++ 10 :: tail.drop (k + 1) := by
    conv_lhs => rw [← List.take_append_drop k tail, List.drop_eq_getElem_cons hk, htail]
  have hdrop : (text ++ 32 :: tail).drop (text.length + (k + 1) + 1) = tail.drop (k + 1) := by
    rw [Nat.add_assoc, List.drop_length_add_append, List.drop_succ_cons]
  subst hrecord
  refine ⟨?_, ?_⟩
  · simp only [List.length_append, List.length_cons, List.length_take, List.length_nil]
    omega
  · rw [hdrop]
    conv_lhs => rw [hsplit]
    simp

/-- The loop over the records of a payload. -/
theorem parsePaxFrom_eq_ok {n : ℕ} {rest : Bytes} {records pax : Pax} (hn : rest.length < n) :
    parsePaxFrom n rest records = .ok pax ↔
      ∃ lengths rs, PaxRecords IntLength rest lengths rs ∧ pax = records.update rs := by
  induction n generalizing rest records with
  | zero => exact absurd hn (Nat.not_lt_zero _)
  | succ n ih =>
    constructor
    · intro h
      rw [parsePaxFrom] at h
      by_cases hnil : rest = []
      · rw [if_pos hnil] at h
        subst hnil
        exact ⟨[], [], .nil, (Except.ok.inj h).symm⟩
      · rw [if_neg hnil] at h
        obtain ⟨hspace, h⟩ := of_guard h
        obtain ⟨hmem, -⟩ := not_or.mp hspace
        -- The payload is cut at its first blank, before which the length stands.
        have hcut := Partition.eq_of_mem (not_not.mp hmem)
        have hblank : 32 ∉ rest.takeWhile (· ≠ 32) := Partition.notMem_takeWhile
        obtain ⟨text, htext⟩ : ∃ text, rest.takeWhile (· ≠ 32) = text := ⟨_, rfl⟩
        obtain ⟨tail, htail⟩ : ∃ tail, (rest.dropWhile (· ≠ 32)).drop 1 = tail := ⟨_, rfl⟩
        rw [htext] at hcut hblank h
        rw [htail] at hcut
        have htake : rest.take text.length = text := by rw [hcut, List.take_left]
        rw [htake] at h
        cases hint : pyInt 10 text with
        | none =>
          rw [hint] at h
          cases h
        | some length =>
          rw [hint] at h
          obtain ⟨hframing, h⟩ := of_guard h
          simp only [not_or, not_le, not_lt, not_not] at hframing
          obtain ⟨hlong, hroom, hnewline⟩ := hframing
          obtain ⟨⟨key, value⟩, hrecord, h⟩ := bind_eq_ok.mp h
          obtain ⟨keyRaw, valueRaw, hraw, hkey, hvalue⟩ := readRecord_eq_ok.mp hrecord
          obtain ⟨s, hs, hshort⟩ := exists_spelling (by decide) hint
          rw [hcut] at hraw hnewline hroom h
          -- A length that fits is that of the record, so what follows is the next one.
          obtain ⟨hstop, hrest⟩ := uncut_record (by omega) hroom hnewline hraw
          have hrecord : keyRaw ++ 61 :: valueRaw ++ [10] = keyRaw ++ 61 :: (valueRaw ++ [10]) := by
            rw [List.append_assoc, List.cons_append]
          rw [hrecord] at hstop hrest
          obtain ⟨lengths, rs, hrecords, rfl⟩ := (ih (by
            rw [hcut] at hn
            rw [List.length_drop]
            omega)).mp h
          refine ⟨text :: lengths, (key, value) :: rs, ?_, rfl⟩
          rw [hcut, hrest]
          refine .cons ⟨hblank, s, ?_, hshort rfl⟩ hkey hvalue hrecords
          rw [hs, hstop]
          omega
    · rintro ⟨lengths, rs, hrecords, rfl⟩
      cases hrecords with
      | nil => rfl
      -- The converse: a record that is written so is cut out as it was put in.
      | @cons text keyRaw valueRaw rest key value lengths rs hlength hkey hvalue hrest =>
        obtain ⟨hblank, s, hs, hshort⟩ := hlength
        obtain ⟨record, hrecord⟩ : ∃ record, keyRaw ++ 61 :: valueRaw = record := ⟨_, rfl⟩
        have hrecord' : keyRaw ++ 61 :: (valueRaw ++ [10]) = record ++ [10] := by
          rw [← hrecord, List.append_assoc, List.cons_append]
        have hread : readRecord record = .ok (key, value) :=
          readRecord_eq_ok.mpr ⟨keyRaw, valueRaw, hrecord.symm, hkey, hvalue⟩
        rw [hrecord'] at hs hn ⊢
        obtain ⟨hnewline, hcut, hdrop⟩ := cut_record text record rest
        obtain ⟨stop, hstop⟩ : ∃ stop, (text ++ 32 :: (record ++ [10])).length = stop := ⟨_, rfl⟩
        obtain ⟨whole, hwhole⟩ : ∃ whole, text ++ 32 :: (record ++ [10]) ++ rest = whole := ⟨_, rfl⟩
        have hspace : whole.takeWhile (· ≠ 32) = text := by
          rw [← hwhole, List.append_assoc, List.cons_append, Partition.takeWhile_append hblank]
        have htake : whole.take text.length = text := by
          rw [← hwhole, List.append_assoc, List.take_left]
        have hmem : 32 ∈ whole := by simp [← hwhole]
        have hlong : text.length + 2 < stop := by
          have hrecordLength := congrArg List.length hrecord
          simp only [List.length_append, List.length_cons] at hrecordLength
          simp only [← hstop, List.length_append, List.length_cons, List.length_nil]
          omega
        have hroom : stop ≤ whole.length := by
          have hle := (List.sublist_append_left (text ++ 32 :: (record ++ [10])) rest).length_le
          rwa [hwhole, hstop] at hle
        rw [hwhole, hstop] at hnewline hcut hdrop
        rw [hwhole] at hn ⊢
        rw [hstop] at hs
        have hspaced : ¬(32 ∉ whole ∨ text.length = 0) := by
          rw [not_or, not_not]
          exact ⟨hmem, fun h => s.ne_nil (List.length_eq_zero_iff.mp h)⟩
        have hframed : ¬((s.value ≤ text.length + 2) ∨ whole.length < s.value.toNat ∨
            whole[s.value.toNat - 1]? ≠ some 10) := by
          rw [hs, Int.toNat_natCast]
          simp only [not_or, not_not]
          exact ⟨by omega, not_lt.mpr hroom, hnewline⟩
        rw [parsePaxFrom, if_neg (List.ne_nil_of_mem hmem)]
        dsimp only
        rw [hspace, if_neg hspaced, htake, s.pyInt_eq_some (by decide) fun _ => hshort]
        dsimp only
        rw [if_neg hframed, hs, Int.toNat_natCast, hcut, hread, hdrop]
        exact (ih (by
          rw [← hdrop, List.length_drop]
          omega)).mpr ⟨lengths, rs, hrest, rfl⟩

theorem parsePax_eq_ok {payload : Bytes} {pax : Pax} :
    parsePax payload = .ok pax ↔
      ∃ lengths rs, PaxRecords IntLength payload lengths rs ∧ pax = Pax.update [] rs :=
  parsePaxFrom_eq_ok (Nat.lt_succ_self _)

namespace PaxRecords

variable {P Q : Bytes → ℕ → Prop} {payload : Bytes} {lengths lengths' : List Bytes} {rs rs' : Pax}

/-- A payload has one reading. -/
theorem unique (hP : ∀ text n, P text n → 32 ∉ text) (hQ : ∀ text n, Q text n → 32 ∉ text)
    (hPQ : ∀ text n m, P text n → Q text m → n = m) (h : PaxRecords P payload lengths rs)
    (h' : PaxRecords Q payload lengths' rs') : lengths = lengths' ∧ rs = rs' := by
  induction h generalizing lengths' rs' with
  | nil =>
    generalize hpayload : ([] : Bytes) = payload at h'
    cases h' with
    | nil => exact ⟨rfl, rfl⟩
    | cons => simp at hpayload
  | @cons text keyRaw valueRaw rest key value lengths rs hlength hkey hvalue _ ih =>
    generalize hpayload : text ++ 32 :: (keyRaw ++ 61 :: (valueRaw ++ [10])) ++ rest = payload at h'
    cases h' with
    | nil => simp at hpayload
    | @cons text' keyRaw' valueRaw' rest' key' value' lengths' rs' hlength' hkey' hvalue' hrest' =>
      -- The lengths stand before the first blank, and the records are as long as they say.
      have hsame := hpayload
      rw [List.append_assoc, List.append_assoc, List.cons_append, List.cons_append] at hsame
      obtain ⟨rfl, -⟩ := Partition.append_inj (hP _ _ hlength) (hQ _ _ hlength') hsame
      obtain ⟨hrecord, rfl⟩ := List.append_inj hpayload (hPQ _ _ _ hlength hlength')
      obtain ⟨rfl, rfl⟩ := ih hrest'
      have hbody := (List.cons.inj (List.append_cancel_left hrecord)).2
      obtain ⟨rfl, hvalueRaw⟩ := Partition.append_inj hkey.2.2.1 hkey'.2.2.1 hbody
      obtain rfl := List.append_cancel_right hvalueRaw
      obtain rfl : key = key' := Option.some.inj (hkey.2.2.2.symm.trans hkey'.2.2.2)
      refine ⟨rfl, congrArg (fun v => (key, v) :: rs) ?_⟩
      rw [PaxValue] at hvalue hvalue'
      split_ifs at hvalue hvalue'
      · exact hvalue.trans hvalue'.symm
      · exact Option.some.inj (hvalue.2.symm.trans hvalue'.2)

/-- Every length is one of the grammar. -/
theorem exists_isLength (h : PaxRecords P payload lengths rs) :
    ∀ text ∈ lengths, ∃ n, P text n := by
  induction h with
  | nil => nofun
  | cons hlength _ _ _ ih =>
    intro text htext
    rcases List.mem_cons.mp htext with rfl | htext
    · exact ⟨_, hlength⟩
    · exact ih text htext

/-- The records of a payload under another grammar of lengths. -/
theorem imp (h : PaxRecords P payload lengths rs)
    (hPQ : ∀ text ∈ lengths, ∀ n, P text n → Q text n) : PaxRecords Q payload lengths rs := by
  induction h with
  | nil => exact .nil
  | cons hlength hkey hvalue _ ih =>
    exact .cons (hPQ _ List.mem_cons_self _ hlength) hkey hvalue
      (ih fun text htext => hPQ text (List.mem_cons_of_mem _ htext))

end PaxRecords

theorem PlainLength.blank_notMem {text : Bytes} {n : ℕ} (h : PlainLength text n) : 32 ∉ text :=
  fun hmem => absurd (h.2.1 32 hmem).toNat.1 (by decide)

/-- A plain length is read by `int` unless it has too many digits. -/
theorem PlainLength.intLength {text : Bytes} {n : ℕ} (h : PlainLength text n)
    (hshort : text.length ≤ maxStrDigits) : IntLength text n := by
  obtain ⟨hne, hdigits, rfl⟩ := h
  have s := hdigits.spelling hne
  obtain ⟨hbody, hvalue⟩ := s.value_of_isDigits (by decide) hdigits
  refine ⟨PlainLength.blank_notMem ⟨hne, hdigits, rfl⟩, s, hvalue, ?_⟩
  rw [hbody, digitsOf_eq_self (by decide) hdigits]
  exact hshort

/-- What `int` reads of digits alone. -/
theorem IntLength.plainLength {text : Bytes} {n : ℕ} (h : IntLength text n)
    (hdigits : IsDigits 10 text) : PlainLength text n ∧ text.length ≤ maxStrDigits := by
  obtain ⟨-, s, hvalue, hshort⟩ := h
  obtain ⟨hbody, hsvalue⟩ := s.value_of_isDigits (by decide) hdigits
  obtain ⟨c, b, hcons, -⟩ := s.underscored.exists_cons
  refine ⟨⟨?_, hdigits, Int.natCast_inj.mp (hsvalue.symm.trans hvalue)⟩, ?_⟩
  · rw [← hbody, hcons]
    exact List.cons_ne_nil c b
  · rwa [hbody, digitsOf_eq_self (by decide) hdigits] at hshort

/-- The two grammars of lengths read a payload alike. -/
theorem PaxRecords.unique_int_plain {payload : Bytes} {lengths lengths' : List Bytes} {rs rs' : Pax}
    (h : PaxRecords IntLength payload lengths rs)
    (h' : PaxRecords PlainLength payload lengths' rs') : lengths = lengths' ∧ rs = rs' := by
  refine h.unique (fun _ _ h => h.1) (fun _ _ h => h.blank_notMem) ?_ h'
  intro text n m hint hplain
  exact (hint.plainLength hplain.2.1).1.2.2.symm.trans hplain.2.2

/-- **Records are read by the grammar except where a length is spelled loosely, or in too many
digits.** -/
theorem recordsExact_iff (payload : Bytes) :
    RecordsExact payload ↔ ¬LooseRecords payload ∧ ¬LongRecords payload := by
  constructor
  · rintro ⟨haccepts, -⟩
    constructor
    · rintro ⟨lengths, rs, hint, text, htext, s, hloose⟩
      obtain ⟨lengths', rs', hplain⟩ := haccepts.mp ⟨_, parsePax_eq_ok.mpr ⟨lengths, rs, hint, rfl⟩⟩
      obtain ⟨rfl, -⟩ := hint.unique_int_plain hplain
      obtain ⟨n, -, hdigits, -⟩ := hplain.exists_isLength text htext
      exact (s.isLoose_iff (by decide)).mp hloose hdigits
    · rintro ⟨lengths, rs, hplain, text, htext, hlong⟩
      obtain ⟨pax, hpax⟩ := haccepts.mpr ⟨lengths, rs, hplain⟩
      obtain ⟨lengths', rs', hint, -⟩ := parsePax_eq_ok.mp hpax
      obtain ⟨rfl, -⟩ := hint.unique_int_plain hplain
      obtain ⟨n, -, hdigits, -⟩ := hplain.exists_isLength text htext
      obtain ⟨m, hlength⟩ := hint.exists_isLength text htext
      exact absurd hlong (not_lt.mpr (hlength.plainLength hdigits).2)
  · rintro ⟨hloose, hlong⟩
    refine ⟨⟨?_, ?_⟩, ?_⟩
    · rintro ⟨pax, hpax⟩
      obtain ⟨lengths, rs, hint, -⟩ := parsePax_eq_ok.mp hpax
      refine ⟨lengths, rs, hint.imp fun text htext n h => ?_⟩
      by_cases hdigits : IsDigits 10 text
      · exact (h.plainLength hdigits).1
      · obtain ⟨-, s, -⟩ := h
        exact absurd ⟨lengths, rs, hint, text, htext, s, (s.isLoose_iff (by decide)).mpr hdigits⟩
          hloose
    · rintro ⟨lengths, rs, hplain⟩
      refine ⟨_, parsePax_eq_ok.mpr ⟨lengths, rs, hplain.imp fun text htext n h => ?_, rfl⟩⟩
      exact h.intLength (not_lt.mp fun hlt => hlong ⟨lengths, rs, hplain, text, htext, hlt⟩)
    · intro pax lengths rs hpax hplain key
      obtain ⟨lengths', rs', hint, rfl⟩ := parsePax_eq_ok.mp hpax
      obtain ⟨-, rfl⟩ := hint.unique_int_plain hplain
      exact Pax.lookup_update _ key

/-- **The readers of the scanner keep to the grammars of tar numbers and PAX records at every
field and payload that has no loose spelling and no length of more than 4300 digits, and at no
other.** -/
theorem layerGrammars_iff (field payload : Bytes) :
    (NumberExact field ↔ ¬LooseNumber field) ∧
      (RecordsExact payload ↔ ¬LooseRecords payload ∧ ¬LongRecords payload) :=
  ⟨numberExact_iff field, recordsExact_iff payload⟩

/-- The field `0o17` is read as fifteen, and no octal digits spell it so. -/
theorem layerGrammars_loose :
    ¬((∀ field, NumberExact field) ∧ ∀ payload, RecordsExact payload) := by
  rintro ⟨hnumbers, -⟩
  refine (numberExact_iff [48, 111, 49, 55]).mp (hnumbers _) ⟨?_, ?_⟩
  · rintro _ ⟨⟩
    decide
  exact ⟨⟨[], [], [48, 111], [49, 55], [], by decide, List.forall_mem_nil _, by decide, by decide,
    .cons (by decide) (.digit (by decide)), List.forall_mem_nil _⟩,
    .inr (.inr (.inl (List.cons_ne_nil _ _))),
    by decide⟩

end Palimpsest.Layer
