import Mathlib.Data.Bool.AllAny
import Mathlib.Data.List.Basic
import Mathlib.Algebra.Order.Group.Nat

/-!
# Hexadecimal fields

A number written with lowercase hexadecimal digits, with zeros in front up to a width
(`HexField.text`), and the value of such a text (`HexField.value`). A number that fits the
width is written in as many digits as the width says (`HexField.length_text`), all of them
hexadecimal digits (`HexField.isHexDigit_of_mem_text`), and it is read back
(`HexField.value_text`).
-/

namespace HexField

/-- A lowercase hexadecimal digit. -/
def isHexDigit (c : Char) : Bool := c ∈ "0123456789abcdef".toList

/-- What a digit counts. -/
def digitValue (c : Char) : ℕ := if c ≤ '9' then c.toNat - '0'.toNat else c.toNat - 'a'.toNat + 10

/-- The number that digits stand for. -/
def value (t : List Char) : ℕ := t.foldl (fun n c => 16 * n + digitValue c) 0

/-- The digits of a number, with zeros in front. -/
def text (width n : ℕ) : List Char := (Nat.toDigits 16 n).leftpad width '0'

theorem isHexDigit_digitChar {d : ℕ} (h : d < 16) : isHexDigit (Nat.digitChar d) = true := by
  have hall : ∀ d < 16, isHexDigit (Nat.digitChar d) = true := by decide
  exact hall d h

theorem digitValue_digitChar {d : ℕ} (h : d < 16) : digitValue (Nat.digitChar d) = d := by
  have hall : ∀ d < 16, digitValue (Nat.digitChar d) = d := by decide
  exact hall d h

/-- The characters of a hexadecimal digit are ASCII. -/
theorem toNat_lt_of_isHexDigit {c : Char} (h : isHexDigit c = true) : c.toNat < 0x80 := by
  have hall : ∀ c ∈ "0123456789abcdef".toList, c.toNat < 0x80 := by
    rw [← List.all_iff_forall_prop]
    decide
  exact hall c (of_decide_eq_true h)

/-- Induction over the digits of a number. -/
theorem toDigits_induction {motive : ℕ → List Char → Prop}
    (digit : ∀ d < 16, motive d [Nat.digitChar d])
    (step : ∀ n d t, d < 16 → motive n t → motive (16 * n + d) (t ++ [Nat.digitChar d])) (n : ℕ) :
    motive n (Nat.toDigits 16 n) := by
  induction n using Nat.strongRecOn with
  | ind n ih =>
    rw [Nat.toDigits_eq_if (by decide)]
    split_ifs with hn
    · exact digit n hn
    · have hlt : n / 16 < n := by omega
      have hstep := step (n / 16) (n % 16) _ (Nat.mod_lt n (by decide)) (ih (n / 16) hlt)
      rwa [Nat.div_add_mod] at hstep

theorem value_append (t : List Char) (c : Char) :
    value (t ++ [c]) = 16 * value t + digitValue c := by
  rw [value, List.foldl_concat, value]

theorem value_toDigits (n : ℕ) : value (Nat.toDigits 16 n) = n := by
  refine toDigits_induction (motive := fun n t => value t = n) ?_ ?_ n
  · intro d hd
    rw [value, List.foldl_cons, List.foldl_nil, digitValue_digitChar hd]
    omega
  · intro n d t hd ht
    rw [value_append, ht, digitValue_digitChar hd]

theorem isHexDigit_of_mem_toDigits {n : ℕ} {c : Char} (h : c ∈ Nat.toDigits 16 n) :
    isHexDigit c = true := by
  revert h
  refine toDigits_induction (motive := fun _ t => c ∈ t → isHexDigit c = true) ?_ ?_ n
  · intro d hd hc
    rw [List.mem_singleton.mp hc]
    exact isHexDigit_digitChar hd
  · intro _ d t hd ih hc
    rcases List.mem_append.mp hc with hc | hc
    · exact ih hc
    · rw [List.mem_singleton.mp hc]
      exact isHexDigit_digitChar hd

theorem isHexDigit_of_mem_text {width n : ℕ} {c : Char} (h : c ∈ text width n) :
    isHexDigit c = true := by
  rcases List.mem_append.mp h with h | h
  · rw [List.eq_of_mem_replicate h]
    decide
  · exact isHexDigit_of_mem_toDigits h

/-- **A number is read back from its text.** -/
theorem value_text (width n : ℕ) : value (text width n) = n := by
  have hzeros : ∀ k, (List.replicate k '0').foldl (fun n c => 16 * n + digitValue c) 0 = 0 := by
    intro k
    induction k with
    | zero => rfl
    | succ k ih =>
      rw [List.replicate_succ, List.foldl_cons]
      exact ih
  rw [value, text, List.leftpad, List.foldl_append, hzeros]
  exact value_toDigits n

/-- A number that fits is as long as the width. -/
theorem length_text {width n : ℕ} (hwidth : 0 < width) (h : n < 16 ^ width) :
    (text width n).length = width := by
  have hle := (Nat.length_toDigits_le_iff (by decide) hwidth).mpr h
  rw [text, List.leftpad, List.length_append, List.length_replicate]
  omega

end HexField
