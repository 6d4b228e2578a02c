import Palimpsest.Lib.JsonLoads

/-!
# Decimal texts

What Python takes for a decimal text: `str.isdecimal` accepts the digits of every script
(`Decimal.isDecimal`), and `int` reads them all (`Decimal.intValue`). The text `str` writes for
the number is made of the ASCII digits only and has no leading zero, and every such text is the
text of its value (`Decimal.natText_intValue`).
-/

namespace Decimal

open Json

/-- The characters that stand for the digit zero, in Unicode 14. The nine digits after each
follow it. -/
def decimalZeros : List ℕ :=
  [0x30, 0x660, 0x6f0, 0x7c0, 0x966, 0x9e6, 0xa66, 0xae6, 0xb66, 0xbe6, 0xc66, 0xce6, 0xd66,
    0xde6, 0xe50, 0xed0, 0xf20, 0x1040, 0x1090, 0x17e0, 0x1810, 0x1946, 0x19d0, 0x1a80, 0x1a90,
    0x1b50, 0x1bb0, 0x1c40, 0x1c50, 0xa620, 0xa8d0, 0xa900, 0xa9d0, 0xa9f0, 0xaa50, 0xabf0,
    0xff10, 0x104a0, 0x10d30, 0x11066, 0x110f0, 0x11136, 0x111d0, 0x112f0, 0x11450, 0x114d0,
    0x11650, 0x116c0, 0x11730, 0x118e0, 0x11950, 0x11c50, 0x11d50, 0x11da0, 0x16a60, 0x16ac0,
    0x16b50, 0x1d7ce, 0x1d7d8, 0x1d7e2, 0x1d7ec, 0x1d7f6, 0x1e140, 0x1e2f0, 0x1e950, 0x1fbf0]

/-- The value of a digit of some script. -/
def digit? (c : Char) : Option ℕ :=
  (decimalZeros.find? fun first => first ≤ c.toNat && c.toNat < first + 10).map (c.toNat - ·)

/-- `str.isdecimal`. -/
def isDecimal (t : Text) : Bool := !t.isEmpty && t.all fun c => (digit? c).isSome

/-- What `int` makes of a decimal text. -/
def intValue (t : Text) : ℕ := t.foldl (fun n c => 10 * n + (digit? c).getD 0) 0

theorem toNat_of_isDigit {c : Char} (h : c.isDigit) :
    '0'.toNat ≤ c.toNat ∧ c.toNat - '0'.toNat < 10 := by
  have hle : '0'.val ≤ c.val ∧ c.val ≤ '9'.val := by simpa [Char.isDigit] using h
  have hlow : 48 ≤ c.toNat := hle.1
  have hhigh : c.toNat ≤ 57 := hle.2
  exact ⟨hlow, by show c.toNat - 48 < 10; omega⟩

/-- An ASCII digit counts as what it is. -/
theorem digit?_of_isDigit {c : Char} (h : c.isDigit) : digit? c = some (c.toNat - '0'.toNat) := by
  obtain ⟨hlow, hd⟩ := toNat_of_isDigit h
  have hfound : (0x30 ≤ c.toNat && c.toNat < 0x30 + 10) = true := by
    have hvalue : '0'.toNat = 0x30 := rfl
    simp only [Bool.and_eq_true, decide_eq_true_eq]
    omega
  simp only [digit?, decimalZeros, List.find?_cons, hfound, Option.map_some]
  rfl

theorem isDigit_of_mem_natText {n : ℕ} {c : Char} (h : c ∈ natText n) : c.isDigit :=
  Nat.isDigit_of_mem_toDigits (by decide) (by decide) h

theorem natText_ne_nil (n : ℕ) : natText n ≠ [] := Nat.toDigits_ne_nil

theorem isDecimal_of_isDigit {t : Text} (hne : t ≠ []) (h : ∀ c ∈ t, c.isDigit) :
    isDecimal t = true := by
  rw [isDecimal, Bool.and_eq_true]
  refine ⟨by simpa using hne, List.all_eq_true.mpr fun c hc => ?_⟩
  rw [digit?_of_isDigit (h c hc)]
  rfl

theorem isDecimal_natText (n : ℕ) : isDecimal (natText n) = true :=
  isDecimal_of_isDigit (natText_ne_nil n) fun _ => isDigit_of_mem_natText

theorem intValue_of_isDigit {t : Text} (h : ∀ c ∈ t, c.isDigit) :
    intValue t = Nat.ofDigitChars 10 t 0 := by
  rw [intValue, Nat.ofDigitChars_eq_foldl]
  refine List.foldl_ext _ _ _ fun n c hc => ?_
  rw [digit?_of_isDigit (h c hc)]
  rfl

@[simp]
theorem intValue_natText (n : ℕ) : intValue (natText n) = n := by
  rw [intValue_of_isDigit fun _ => isDigit_of_mem_natText]
  exact Nat.ofDigitChars_ten_toDigits

/-! ### Canonical texts -/

theorem digitChar_toNat_sub {c : Char} (h : c.isDigit) :
    Nat.digitChar (c.toNat - '0'.toNat) = c := by
  obtain ⟨hlow, hd⟩ := toNat_of_isDigit h
  have hall : ∀ n < 10, (Nat.digitChar n).toNat = '0'.toNat + n := by decide
  apply Char.toNat_inj.mp
  rw [hall _ hd]
  omega

/-- A digit written after a positive number. -/
theorem natText_ten_mul_add {n d : ℕ} (hn : 0 < n) (hd : d < 10) :
    natText (10 * n + d) = natText n ++ [Nat.digitChar d] := by
  have hdiv : (10 * n + d) / 10 = n := by omega
  have hmod : (10 * n + d) % 10 = d := by omega
  rw [natText, Nat.toDigits_of_base_le (by decide) (by omega), hdiv, hmod]
  rfl

/-- Digits written after a positive number. -/
theorem natText_ofDigitChars {t : Text} (h : ∀ c ∈ t, c.isDigit) {n : ℕ} (hn : 0 < n) :
    natText (Nat.ofDigitChars 10 t n) = natText n ++ t := by
  induction t generalizing n with
  | nil => rw [Nat.ofDigitChars_nil, List.append_nil]
  | cons c t ih =>
    have hc : c.isDigit := h c List.mem_cons_self
    obtain ⟨hlow, hd⟩ := toNat_of_isDigit hc
    rw [Nat.ofDigitChars_cons, ih (fun d hd => h d (List.mem_cons_of_mem c hd)) (by omega),
      natText_ten_mul_add hn hd, digitChar_toNat_sub hc, List.append_assoc, List.singleton_append]

/-- **Digits without a leading zero are the text of their value.** -/
theorem natText_intValue {t : Text} (hne : t ≠ []) (h : ∀ c ∈ t, c.isDigit)
    (hzero : 1 < t.length → t.head? ≠ some '0') : natText (intValue t) = t := by
  rw [intValue_of_isDigit h]
  cases t with
  | nil => exact absurd rfl hne
  | cons c t =>
    have hc : c.isDigit := h c List.mem_cons_self
    obtain ⟨hlow, hd⟩ := toNat_of_isDigit hc
    have hone : natText (c.toNat - '0'.toNat) = [c] := by
      rw [natText, Nat.toDigits_of_lt_base hd, digitChar_toNat_sub hc]
    rw [Nat.ofDigitChars_cons, Nat.mul_zero, Nat.zero_add]
    cases t with
    | nil => rw [Nat.ofDigitChars_nil, hone]
    | cons d t =>
      -- With a second digit, the first one is no zero, so the value so far is positive.
      have hpos : 0 < c.toNat - '0'.toNat := by
        have hne : c ≠ '0' := fun hc => hzero (by simp) (congrArg some hc)
        have : c.toNat ≠ '0'.toNat := fun hc => hne (Char.toNat_inj.mp hc)
        omega
      rw [natText_ofDigitChars (fun d hd => h d (List.mem_cons_of_mem c hd)) hpos, hone,
        List.singleton_append]

end Decimal
