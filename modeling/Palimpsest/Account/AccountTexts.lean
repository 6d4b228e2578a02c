import Palimpsest.Account.GuestIdentity
import Palimpsest.Account.HostUser

/-!
# Texts on both sides

The host reads characters and the guest bytes. On ASCII texts the two tell the same characters
apart (`asciiByte_inj`), so they accept the same names (`validAccountName_asciiBytes`) and the
same numbers (`numericAccount_asciiBytes`), cut a file into the same entries
(`accountLines_toOption`) and an entry into the same fields (`accountField_asciiBytes`).
-/

namespace Palimpsest.Account

open Json Decimal

/-! ### What is accepted -/

section

variable {ε α β : Type}

theorem ok_bind (a : α) (f : α → Except ε β) : (Except.ok a >>= f) = f a := rfl

theorem toOption_bind (x : Except ε α) (f : α → Except ε β) :
    (x >>= f).toOption = x.toOption.bind fun a => (f a).toOption := by
  cases x with
  | error e => rfl
  | ok a => rfl

theorem toOption_eq_some {x : Except ε α} {a : α} : x.toOption = some a ↔ x = .ok a := by
  cases x with
  | error e => exact iff_of_false nofun nofun
  | ok b => exact ⟨fun h => congrArg Except.ok (Option.some.inj h), fun h => h ▸ rfl⟩

/-- All are accepted if each is. -/
theorem toOption_mapM (f : α → Except ε β) (l : List α) :
    (l.mapM f).toOption = l.mapM fun a => (f a).toOption := by
  induction l with
  | nil => rfl
  | cons a l ih =>
    rw [List.mapM_cons, List.mapM_cons, toOption_bind]
    refine Option.bind_congr fun b _ => ?_
    rw [toOption_bind, ih]
    rfl

end

/-! ### Characters and bytes -/

/-- The characters are ASCII. -/
def Ascii (t : Text) : Prop := ∀ c ∈ t, c.toNat < 0x80

/-- The bytes of an ASCII text. -/
def asciiBytes (t : Text) : List UInt8 := t.map asciiByte

theorem toNat_asciiByte {c : Char} (h : c.toNat < 0x80) : (asciiByte c).toNat = c.toNat := by
  rw [asciiByte, UInt8.toNat_ofNat', Nat.mod_eq_of_lt (by omega)]

theorem asciiByte_inj {c d : Char} (hc : c.toNat < 0x80) (hd : d.toNat < 0x80) :
    asciiByte c = asciiByte d ↔ c = d := by
  rw [← UInt8.toNat_inj, toNat_asciiByte hc, toNat_asciiByte hd, Char.toNat_inj]

theorem asciiByte_le {c d : Char} (hc : c.toNat < 0x80) (hd : d.toNat < 0x80) :
    asciiByte c ≤ asciiByte d ↔ c ≤ d := by
  rw [UInt8.le_iff_toNat_le, toNat_asciiByte hc, toNat_asciiByte hd]
  rfl

theorem Ascii.tail {c : Char} {t : Text} (h : Ascii (c :: t)) : Ascii t :=
  fun d hd => h d (List.mem_cons_of_mem c hd)

theorem Ascii.head {c : Char} {t : Text} (h : Ascii (c :: t)) : c.toNat < 0x80 :=
  h c List.mem_cons_self

/-- ASCII texts are told apart by their bytes. -/
theorem asciiBytes_inj {t u : Text} (ht : Ascii t) (hu : Ascii u) :
    asciiBytes t = asciiBytes u ↔ t = u := by
  refine ⟨fun h => ?_, congrArg asciiBytes⟩
  induction t generalizing u with
  | nil => exact (List.map_eq_nil_iff.mp h.symm).symm
  | cons c t ih =>
    cases u with
    | nil => cases h
    | cons d u =>
      obtain ⟨hhead, htail⟩ := List.cons.inj h
      rw [(asciiByte_inj ht.head hu.head).mp hhead, ih ht.tail hu.tail htail]

theorem toNat_ofUInt8 (b : UInt8) : (Char.ofUInt8 b).toNat = b.toNat := rfl

theorem asciiByte_ofUInt8 (b : UInt8) : asciiByte (Char.ofUInt8 b) = b := by
  rw [asciiByte, toNat_ofUInt8, UInt8.ofNat_toNat]

theorem asciiBytes_ofUInt8 (payload : List UInt8) :
    asciiBytes (payload.map Char.ofUInt8) = payload := by
  rw [asciiBytes, List.map_map]
  exact List.map_id'' asciiByte_ofUInt8 payload

theorem ascii_ofUInt8 {payload : List UInt8} (h : ∀ b ∈ payload, b < 0x80) :
    Ascii (payload.map Char.ofUInt8) := by
  intro c hc
  obtain ⟨b, hb, rfl⟩ := List.mem_map.mp hc
  exact UInt8.lt_iff_toNat_lt.mp (h b hb)

theorem lt_of_mem_asciiBytes {t : Text} (ht : Ascii t) {b : UInt8} (hb : b ∈ asciiBytes t) :
    b < 0x80 := by
  obtain ⟨c, hc, rfl⟩ := List.mem_map.mp hb
  rw [UInt8.lt_iff_toNat_lt, toNat_asciiByte (ht c hc)]
  exact ht c hc

/-- What decodes is an ASCII text with these bytes. -/
theorem decodeAscii_eq_some {payload : List UInt8} {t : Text} :
    decodeAscii payload = some t ↔ Ascii t ∧ asciiBytes t = payload := by
  unfold decodeAscii
  split_ifs with hall
  · have hbytes : ∀ b ∈ payload, b < 0x80 := by simpa using hall
    constructor
    · rintro ⟨⟩
      exact ⟨ascii_ofUInt8 hbytes, asciiBytes_ofUInt8 payload⟩
    · rintro ⟨ht, h⟩
      rw [Option.some.injEq, ← asciiBytes_inj (ascii_ofUInt8 hbytes) ht, h]
      exact asciiBytes_ofUInt8 payload
  · refine iff_of_false nofun ?_
    rintro ⟨ht, rfl⟩
    exact hall (by simpa using fun b => lt_of_mem_asciiBytes ht)

/-! ### Names -/

theorem isLetterByte_asciiByte {c : Char} (h : c.toNat < 0x80) :
    isLetterByte (asciiByte c) = isAsciiLetter c := by
  simp only [isLetterByte, isAsciiLetter, asciiByte_le h (d := 'Z') (by decide),
    asciiByte_le h (d := 'z') (by decide), asciiByte_le (c := 'A') (by decide) h,
    asciiByte_le (c := 'a') (by decide) h]

theorem isNameByte_asciiByte {c : Char} (h : c.toNat < 0x80) :
    isNameByte (asciiByte c) = isNameChar c := by
  have heq : ∀ d : Char, d.toNat < 0x80 → decide (asciiByte c = asciiByte d) = decide (c = d) :=
    fun d hd => decide_eq_decide.mpr (asciiByte_inj h hd)
  simp only [isNameByte, isNameChar, isLetterByte_asciiByte h,
    asciiByte_le h (d := '9') (by decide), asciiByte_le (c := '0') (by decide) h,
    heq '_' (by decide), heq '.' (by decide), heq '-' (by decide)]

/-- **Both sides accept the same names.** -/
theorem validAccountName_asciiBytes {t : Text} (h : Ascii t) :
    validAccountName (asciiBytes t) = isAccountName t := by
  cases t with
  | nil => rfl
  | cons c t =>
    have hall : (asciiBytes t).all isNameByte = t.all isNameChar := by
      rw [asciiBytes, List.all_map, Bool.eq_iff_iff, List.all_eq_true, List.all_eq_true]
      exact forall₂_congr fun d hd => by
        rw [Function.comp_apply, isNameByte_asciiByte (h.tail d hd)]
    have hunderscore : decide (asciiByte c = asciiByte '_') = decide (c = '_') :=
      decide_eq_decide.mpr (asciiByte_inj h.head (by decide))
    have hlength : decide ((asciiByte c :: asciiBytes t).length ≤ 32) = decide (t.length ≤ 31) := by
      refine decide_eq_decide.mpr ?_
      rw [List.length_cons, asciiBytes, List.length_map]
      omega
    show validAccountName (asciiByte c :: asciiBytes t) = _
    rw [validAccountName, isAccountName, hall, hunderscore, hlength, isLetterByte_asciiByte h.head,
      Bool.and_comm (decide (t.length ≤ 31))]

theorem isAsciiLetter_lt {c : Char} (h : isAsciiLetter c = true) : c.toNat < 0x80 := by
  have hle : c ≤ 'Z' ∨ c ≤ 'z' := by
    simp only [isAsciiLetter, Bool.or_eq_true, Bool.and_eq_true, decide_eq_true_eq] at h
    exact h.imp And.right And.right
  rcases hle with hle | hle
  · exact lt_of_le_of_lt hle (by decide)
  · exact lt_of_le_of_lt hle (by decide)

theorem isNameChar_lt {c : Char} (h : isNameChar c = true) : c.toNat < 0x80 := by
  simp only [isNameChar, Bool.or_eq_true, Bool.and_eq_true, decide_eq_true_eq] at h
  rcases h with (((hletter | ⟨_, hnine⟩) | rfl) | rfl) | rfl
  · exact isAsciiLetter_lt hletter
  · exact lt_of_le_of_lt (show c.toNat ≤ '9'.toNat from hnine) (by decide)
  all_goals decide

theorem ascii_of_isAccountName {t : Text} (h : isAccountName t = true) : Ascii t := by
  cases t with
  | nil => cases h
  | cons c t =>
    simp only [isAccountName, Bool.and_eq_true, Bool.or_eq_true, decide_eq_true_eq] at h
    obtain ⟨⟨hc, _⟩, ht⟩ := h
    rintro d (_ | ⟨_, hd⟩)
    · exact hc.elim isAsciiLetter_lt fun h => h ▸ by decide
    · exact isNameChar_lt (List.all_eq_true.mp ht d hd)

/-! ### Numbers -/

theorem isDigit_iff {c : Char} (h : c.toNat < 0x80) :
    c.isDigit ↔ ¬(asciiByte c < asciiByte '0' ∨ asciiByte '9' < asciiByte c) := by
  rw [not_or, UInt8.not_lt, UInt8.not_lt, asciiByte_le (by decide) h, asciiByte_le h (by decide)]
  simp [Char.isDigit, Char.le_def]

theorem toNat_sub_zero {c : Char} (h : c.toNat < 0x80) (hc : c.isDigit) :
    (asciiByte c - asciiByte '0').toNat = c.toNat - '0'.toNat := by
  have hle : asciiByte '0' ≤ asciiByte c := by
    have := (isDigit_iff h).mp hc
    rw [not_or, UInt8.not_lt] at this
    exact this.1
  rw [UInt8.toNat_sub_of_le _ _ hle, toNat_asciiByte h, toNat_asciiByte (by decide)]

theorem ascii_natText (n : ℕ) : Ascii (natText n) := by
  intro c hc
  obtain ⟨_, hd⟩ := toNat_of_isDigit (isDigit_of_mem_natText hc)
  have : '0'.toNat = 48 := rfl
  omega

/-- The digits only make a number larger. -/
theorem le_ofDigitChars (t : Text) (value : ℕ) : value ≤ Nat.ofDigitChars 10 t value := by
  induction t generalizing value with
  | nil => exact Nat.le_refl _
  | cons c t ih =>
    rw [Nat.ofDigitChars_cons]
    exact Nat.le_trans (by omega) (ih _)

/-- The loop keeps the number below the bound, and so finds it exactly if it is. -/
theorem numericAccountLoop_asciiBytes {t : Text} (h : Ascii t) {value n : ℕ}
    (hvalue : value ≤ maxAccount) :
    numericAccountLoop (asciiBytes t) value = some n ↔
      (∀ c ∈ t, c.isDigit) ∧ Nat.ofDigitChars 10 t value = n ∧ n ≤ maxAccount := by
  induction t generalizing value with
  | nil =>
    show some value = some n ↔ _
    rw [Option.some.injEq, Nat.ofDigitChars_nil]
    constructor
    · rintro rfl
      exact ⟨nofun, rfl, hvalue⟩
    · exact fun h => h.2.1
  | cons c t ih =>
    show numericAccountLoop (asciiByte c :: asciiBytes t) value = some n ↔ _
    rw [numericAccountLoop, Nat.ofDigitChars_cons, List.forall_mem_cons]
    by_cases hc : c.isDigit
    · have hmax : maxAccount = 4294967294 := rfl
      obtain ⟨_, hd⟩ := toNat_of_isDigit hc
      rw [if_neg ((isDigit_iff h.head).mp hc), toNat_sub_zero h.head hc]
      split_ifs with hroom
      · refine iff_of_false nofun ?_
        rintro ⟨_, rfl, hn⟩
        have hle := le_ofDigitChars t (10 * value + (c.toNat - '0'.toNat))
        omega
      · rw [Nat.mul_comm value, ih h.tail (by omega)]
        exact and_congr_left fun _ => (and_iff_right hc).symm
    · rw [if_pos (not_not.mp fun hbytes => hc ((isDigit_iff h.head).mpr hbytes))]
      exact iff_of_false nofun fun h => hc h.1.1

theorem natText_le_maxAccount {n : ℕ} (h : n ≤ maxAccount) : (natText n).length ≤ 10 :=
  length_natText_le (by decide) (Nat.lt_of_le_of_lt h (by decide))

/-- A number of more than one digit does not start with a zero. -/
theorem head?_natText {n : ℕ} (h : 1 < (natText n).length) : (natText n).head? ≠ some '0' := by
  have hn : 0 < n := by
    by_contra hn
    obtain rfl : n = 0 := by omega
    exact absurd h (by decide)
  obtain ⟨c, t, ht, hc⟩ := natText_eq_cons hn
  rw [ht]
  simpa using hc

theorem head?_asciiBytes {t : Text} (h : Ascii t) :
    (asciiBytes t).head? = some (asciiByte '0') ↔ t.head? = some '0' := by
  cases t with
  | nil => exact iff_of_false nofun nofun
  | cons c t =>
    show some (asciiByte c) = _ ↔ some c = _
    rw [Option.some.injEq, Option.some.injEq, asciiByte_inj h.head (by decide)]

/-- **The numbers that the guest accepts.** -/
theorem numericAccount_asciiBytes {t : Text} (h : Ascii t) {n : ℕ} :
    numericAccount (asciiBytes t) = some n ↔ t = natText n ∧ n ≤ maxAccount := by
  have hlength : (asciiBytes t).length = t.length := List.length_map _
  simp only [numericAccount, head?_asciiBytes h, hlength]
  split_ifs with hshape
  · refine iff_of_false nofun ?_
    rintro ⟨rfl, hn⟩
    rcases hshape with hnil | hlong | ⟨hlong, hzero⟩
    · exact natText_ne_nil n (List.map_eq_nil_iff.mp hnil)
    · exact absurd (natText_le_maxAccount hn) (by omega)
    · exact head?_natText hlong hzero
  · rw [not_or, not_or, not_and] at hshape
    obtain ⟨hne, _, hzero⟩ := hshape
    rw [numericAccountLoop_asciiBytes h (Nat.zero_le _)]
    constructor
    · rintro ⟨hdigits, rfl, hn⟩
      rw [← intValue_of_isDigit hdigits] at hn ⊢
      exact ⟨(natText_intValue (fun ht => hne (by rw [ht]; rfl)) hdigits hzero).symm, hn⟩
    · rintro ⟨rfl, hn⟩
      exact ⟨fun _ => isDigit_of_mem_natText, Nat.ofDigitChars_ten_toDigits, hn⟩

/-- A decimal text that the host accepts is the text of its number. -/
theorem account_eq_ok_of_isDecimal {t : Text} {fieldName : String} (h : isDecimal t = true) :
    account t fieldName = .ok t ↔ ∃ n ≤ maxAccount, t = natText n := by
  rw [account, if_pos h]
  constructor
  · intro hok
    split_ifs at hok with hlength hcanonical
    rw [not_or, not_not] at hcanonical
    exact ⟨intValue t, Nat.not_lt.mp hcanonical.1, hcanonical.2.symm⟩
  · rintro ⟨n, hn, rfl⟩
    have hlength := natText_le_maxAccount hn
    have hdigits : ¬maxStrDigits < (natText n).length := by
      have : maxStrDigits = 4300 := rfl
      omega
    rw [if_neg hdigits, intValue_natText, if_neg (by simpa using hn)]

/-- Any other text that it accepts is a name. -/
theorem account_eq_ok_of_not_isDecimal {t : Text} {fieldName : String} (h : isDecimal t = false) :
    account t fieldName = .ok t ↔ isAccountName t = true := by
  rw [account, if_neg (by rw [h]; exact Bool.false_ne_true)]
  split_ifs with hname
  · exact iff_of_true rfl hname
  · exact iff_of_false nofun hname

/-- **The numbers that the host accepts.** -/
theorem accountNumber_eq_ok {t : Text} {fieldName : String} {n : ℕ} :
    accountNumber t fieldName = .ok n ↔ t = natText n ∧ n ≤ maxAccount := by
  rw [accountNumber]
  constructor
  · intro h
    cases haccount : account t fieldName with
    | error e =>
      rw [haccount] at h
      cases h
    | ok u =>
      obtain rfl := eq_of_account_eq_ok haccount
      rw [haccount, ok_bind] at h
      split_ifs at h with hdecimal
      obtain ⟨m, hm, rfl⟩ := (account_eq_ok_of_isDecimal hdecimal).mp haccount
      rw [intValue_natText] at h
      exact ⟨congrArg natText (Except.ok.inj h), Except.ok.inj h ▸ hm⟩
  · rintro ⟨rfl, hn⟩
    rw [(account_eq_ok_of_isDecimal (isDecimal_natText n)).mpr ⟨n, hn, rfl⟩, ok_bind,
      if_pos (isDecimal_natText n), intValue_natText]
    rfl

/-- **Both sides accept the same numbers.** -/
theorem accountNumber_toOption {t : Text} (h : Ascii t) (fieldName : String) :
    (accountNumber t fieldName).toOption = numericAccount (asciiBytes t) := by
  ext n
  rw [toOption_eq_some, accountNumber_eq_ok, numericAccount_asciiBytes h]

/-! ### The texts of a user -/

/-! ### Fields -/

theorem splitOn_asciiBytes {t : Text} (h : Ascii t) {sep : Char} (hsep : sep.toNat < 0x80) :
    (asciiBytes t).splitOn (asciiByte sep) = (t.splitOn sep).map asciiBytes :=
  Lines.splitOn_map fun c hc => asciiByte_inj (h c hc) hsep

theorem accountFieldLoop_eq {index field : ℕ} (hfield : field ≤ index) (line current : List UInt8) :
    accountFieldLoop index line current field =
      (List.splitOnPPrepend (· == asciiByte ':') line current)[index - field]? := by
  induction line generalizing current field with
  | nil =>
    rw [accountFieldLoop, List.splitOnPPrepend_nil]
    split_ifs with h
    · rw [h, Nat.sub_self, List.getElem?_cons_zero]
    · exact (List.getElem?_eq_none (by simp only [List.length_singleton]; omega)).symm
  | cons b line ih =>
    rw [accountFieldLoop]
    by_cases hb : b = asciiByte ':'
    · rw [if_neg (not_not.mpr hb), List.splitOnPPrepend_cons_pos (by rw [hb, beq_self_eq_true])]
      split_ifs with h
      · rw [h, Nat.sub_self, List.getElem?_cons_zero]
      · obtain ⟨k, hk⟩ : ∃ k, index - field = k + 1 := ⟨index - field - 1, by omega⟩
        rw [ih (by omega), hk, List.getElem?_cons_succ, List.splitOnPPrepend_nil_right]
        congr 1
        omega
    · rw [if_pos hb, List.splitOnPPrepend_cons_neg (by simpa using hb), ih hfield]

/-- The field that the guest finds is one of the pieces between the colons. -/
theorem accountField_eq (line : List UInt8) (index : ℕ) :
    accountField line index = (line.splitOn (asciiByte ':'))[index]? := by
  rw [accountField, accountFieldLoop_eq (Nat.zero_le index), Nat.sub_zero,
    List.splitOnPPrepend_nil_right, List.splitOn_eq_splitOnP]

theorem accountLineFields_eq (line : List UInt8) (expected : ℕ) :
    accountLineFields line expected ↔ (line.splitOn (asciiByte ':')).length = expected := by
  rw [Lines.length_splitOn, accountLineFields, decide_eq_true_eq, Nat.add_comm]

/-! ### Lines -/

/-- The entries of an account file. -/
def entries (text : Text) : List Text :=
  (Lines.lines '\n' text).filter fun line => line ≠ [] ∧ line.head? ≠ some '#'

theorem ascii_of_mem_entries {text line : Text} (h : Ascii text) (hline : line ∈ entries text) :
    Ascii line :=
  fun c hc => h c (Lines.subset_of_mem_lines (List.mem_of_mem_filter hline) hc)

theorem skipsLine_asciiBytes {line : Text} (h : Ascii line) :
    skipsLine (asciiBytes line) = true ↔ ¬(line ≠ [] ∧ line.head? ≠ some '#') := by
  cases line with
  | nil => exact iff_of_true rfl fun h => h.1 rfl
  | cons c line =>
    have hhash : (asciiBytes (c :: line)).head? = some (asciiByte '#') ↔ c = '#' := by
      show some (asciiByte c) = _ ↔ _
      rw [Option.some.injEq, asciiByte_inj h.head (by decide)]
    have hne : (asciiBytes (c :: line)).isEmpty = false := rfl
    rw [skipsLine, hne, Bool.false_or, decide_eq_true_eq, hhash]
    simp

/-- What the loop over an account file finds depends on the entries only. -/
theorem scanDatabase_asciiBytes {text : Text} (h : Ascii text) (hterm : Lines.Terminated '\n' text)
    (entry : List UInt8 → Found → Option Found) (s : Found) :
    scanDatabase entry (asciiBytes text) s =
      (entries text).foldlM (fun s line => entry (asciiBytes line) s) s := by
  have hbytes : Lines.Terminated (asciiByte '\n') (asciiBytes text) := by
    refine hterm.imp (congrArg asciiBytes) fun hlast => ?_
    rw [asciiBytes, List.getLast?_map, hlast]
    rfl
  have hlines : Lines.lines (asciiByte '\n') (asciiBytes text) =
      (Lines.lines '\n' text).map asciiBytes :=
    Lines.lines_map fun c hc => asciiByte_inj (h c hc) (by decide)
  rw [scanDatabase, Lines.scan_eq_foldlM hbytes, hlines, List.foldlM_map, entries,
    List.foldlM_filter]
  refine Lines.foldlM_congr (fun s line hline => ?_) s
  have hascii : Ascii line := fun c hc => h c (Lines.subset_of_mem_lines hline hc)
  by_cases hkeep : line ≠ [] ∧ line.head? ≠ some '#'
  · have hskip : ¬skipsLine (asciiBytes line) = true :=
      fun hskip => (skipsLine_asciiBytes hascii).mp hskip hkeep
    rw [if_neg hskip, decide_eq_true hkeep, if_pos rfl]
  · have hskip : skipsLine (asciiBytes line) = true := (skipsLine_asciiBytes hascii).mpr hkeep
    rw [if_pos hskip, decide_eq_false hkeep, if_neg Bool.false_ne_true]
    rfl

/-- The files that both sides read: small, of ASCII characters, every line terminated. -/
def Readable (payload : List UInt8) : Prop :=
  payload.length ≤ maxAccountDatabaseBytes ∧ (∀ b ∈ payload, b ≠ 0 ∧ b < 0x80) ∧
    Lines.Terminated (asciiByte '\n') payload

theorem readAccountDatabase_of_readable {payload : List UInt8} (h : Readable payload)
    (required : Bool) : readAccountDatabase (some payload) required = .read payload := by
  obtain ⟨hsize, hbytes, hterm⟩ := h
  have hlast : ¬(payload ≠ [] ∧ payload.getLast? ≠ some (asciiByte '\n')) :=
    fun h => h.2 (hterm.resolve_left h.1)
  have hany : ¬(payload.any fun b => b = 0 ∨ 0x80 ≤ b) = true := by
    rw [List.any_eq_true]
    rintro ⟨b, hb, hbad⟩
    rcases of_decide_eq_true hbad with hzero | hlarge
    · exact (hbytes b hb).1 hzero
    · exact UInt8.not_le.mpr (hbytes b hb).2 hlarge
  have hsmall : ¬accountDatabaseMaxLocal < payload.length := Nat.not_lt.mpr hsize
  show (if accountDatabaseMaxLocal < payload.length then _ else _) = _
  rw [if_neg hsmall, if_neg hlast, if_neg hany]

theorem readAccountDatabase_of_not_readable {payload : List UInt8} (h : ¬Readable payload)
    (required : Bool) : readAccountDatabase (some payload) required = .rejected := by
  show (if accountDatabaseMaxLocal < payload.length then _ else _) = _
  split_ifs with hsize hlast hany
  · rfl
  · rfl
  · rfl
  · refine absurd ⟨Nat.not_lt.mp hsize, fun b hb => ?_, ?_⟩ h
    · have hb := List.any_eq_false.mp (Bool.not_eq_true _ ▸ hany) b hb
      rw [decide_eq_true_eq, not_or, UInt8.not_le] at hb
      exact hb
    · exact or_iff_not_imp_left.mpr fun hne => not_not.mp fun hend => hlast ⟨hne, hend⟩

theorem terminated_asciiBytes {text : Text} (h : Ascii text) :
    Lines.Terminated (asciiByte '\n') (asciiBytes text) ↔ Lines.Terminated '\n' text := by
  refine or_congr List.map_eq_nil_iff ?_
  rw [asciiBytes, List.getLast?_map]
  cases hlast : text.getLast? with
  | none => exact iff_of_false nofun nofun
  | some c =>
    rw [Option.map_some, Option.some.injEq, Option.some.injEq]
    exact asciiByte_inj (h c (List.mem_of_getLast? hlast)) (by decide)

theorem ofUInt8_asciiBytes {text : Text} (h : Ascii text) :
    (asciiBytes text).map Char.ofUInt8 = text := by
  rw [← asciiBytes_inj (ascii_ofUInt8 fun b => lt_of_mem_asciiBytes h) h, asciiBytes_ofUInt8]

/-- The host on a file of ASCII characters that is not too large. -/
theorem accountLines_asciiBytes {text : Text} (h : Ascii text) (fieldName : String)
    (hsmall : ¬(maxAccountDatabaseBytes < (asciiBytes text).length ∨ 0 ∈ asciiBytes text)) :
    accountLines (asciiBytes text) fieldName =
      if text ≠ [] ∧ text.getLast? ≠ some '\n' then
        .error (.invalid ("image-root " ++ fieldName ++ " database is unterminated"))
      else .ok (entries text) := by
  rw [accountLines, if_neg hsmall, decodeAscii_eq_some.mpr ⟨h, rfl⟩]
  rfl

/-- **The host accepts what is readable, and keeps the entries.** -/
theorem accountLines_eq_ok {payload : List UInt8} {fieldName : String} {lines : List Text} :
    accountLines payload fieldName = .ok lines ↔
      Readable payload ∧ lines = entries (payload.map Char.ofUInt8) := by
  by_cases hbad : maxAccountDatabaseBytes < payload.length ∨ 0 ∈ payload
  · rw [accountLines, if_pos hbad]
    refine iff_of_false nofun ?_
    rintro ⟨⟨hsize, hbytes, _⟩, _⟩
    rcases hbad with hlarge | hzero
    · exact Nat.not_lt.mpr hsize hlarge
    · exact (hbytes 0 hzero).1 rfl
  cases hdecode : decodeAscii payload with
  | none =>
    rw [accountLines, if_neg hbad, hdecode]
    refine iff_of_false nofun ?_
    rintro ⟨⟨_, hbytes, _⟩, _⟩
    have hsome := decodeAscii_eq_some.mpr
      ⟨ascii_ofUInt8 fun b hb => (hbytes b hb).2, asciiBytes_ofUInt8 payload⟩
    rw [hdecode] at hsome
    cases hsome
  | some text =>
    obtain ⟨hascii, rfl⟩ := decodeAscii_eq_some.mp hdecode
    have hsmall := not_or.mp hbad
    have hreadable : Readable (asciiBytes text) ↔ Lines.Terminated '\n' text := by
      rw [← terminated_asciiBytes hascii]
      refine ⟨fun h => h.2.2, fun h => ⟨Nat.not_lt.mp hsmall.1, fun b hb => ?_, h⟩⟩
      exact ⟨fun hzero => hsmall.2 (hzero ▸ hb), lt_of_mem_asciiBytes hascii hb⟩
    rw [hreadable, ofUInt8_asciiBytes hascii, accountLines_asciiBytes hascii fieldName hbad]
    -- The last line must end.
    by_cases hopen : text ≠ [] ∧ text.getLast? ≠ some '\n'
    · rw [if_pos hopen]
      exact iff_of_false nofun fun h => hopen.2 (h.1.resolve_left hopen.1)
    · have hterm : Lines.Terminated '\n' text :=
        or_iff_not_imp_left.mpr fun hne => not_not.mp fun hend => hopen ⟨hne, hend⟩
      rw [if_neg hopen, Except.ok.injEq, eq_comm, and_iff_right hterm]

theorem accountLines_of_not_readable {payload : List UInt8} (h : ¬Readable payload)
    (fieldName : String) : (accountLines payload fieldName).toOption = none := by
  rw [Option.eq_none_iff_forall_ne_some]
  exact fun lines hlines => h (accountLines_eq_ok.mp (toOption_eq_some.mp hlines)).1

end Palimpsest.Account
