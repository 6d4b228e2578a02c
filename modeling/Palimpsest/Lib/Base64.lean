import Mathlib.Data.List.DropRight

/-!
# Base64 in addresses

Bytes are written six bits a character, in the alphabet that addresses may hold
(`Base64.encode`), and padded to blocks of four characters. What `binascii.a2b_base64` reads is
more: it takes both alphabets, steps over what is in neither, and leaves off at a padding that
fills a block (`Base64.decode`). The bytes are read back (`Base64.decode_encode`), and the
padding can be told from the rest (`Base64.rdropWhile_encode`).
-/

namespace Base64

/-- The characters, by their six bits. -/
def alphabet : List Char :=
  "ABCDEFGHIJKLMNOPQRSTUVWXYZabcdefghijklmnopqrstuvwxyz0123456789-_".toList

def digit (n : ℕ) : Char := alphabet.getD n '='

/-- The six bits of a character of either alphabet. -/
def value (c : Char) : Option ℕ :=
  if c = '+' then some 62 else if c = '/' then some 63 else alphabet.idxOf? c

/-- The characters of some bytes. -/
def digits : List UInt8 → List Char
  | [] => []
  | [a] => [digit (a.toNat / 4), digit (a.toNat % 4 * 16)]
  | [a, b] =>
    [digit (a.toNat / 4), digit (a.toNat % 4 * 16 + b.toNat / 16), digit (b.toNat % 16 * 4)]
  | a :: b :: c :: t =>
    digit (a.toNat / 4) :: digit (a.toNat % 4 * 16 + b.toNat / 16) ::
      digit (b.toNat % 16 * 4 + c.toNat / 64) :: digit (c.toNat % 64) :: digits t

/-- What fills the last block of four. -/
def padding (t : List Char) : List Char := List.replicate ((4 - t.length % 4) % 4) '='

/-- `base64.urlsafe_b64encode` -/
def encode (b : List UInt8) : List Char := digits b ++ padding (digits b)

/-- What is read at a place of a block of four, with the bits left over from the character before
and the number of paddings before. -/
def decodeFrom : ℕ → ℕ → ℕ → List Char → Option (List UInt8)
  | place, _, _, [] => if place = 0 then some [] else none
  | place, left, pads, c :: t =>
    if c = '=' then
      if 2 ≤ place then
        -- a block that is filled up is the last one
        if 4 ≤ place + (pads + 1) then some [] else decodeFrom place left (pads + 1) t
      else decodeFrom place left pads t
    else
      match value c with
      | none => decodeFrom place left pads t
      | some v =>
        match place with
        | 0 => decodeFrom 1 v 0 t
        | 1 => (decodeFrom 2 (v % 16) 0 t).map (UInt8.ofNat (left * 4 + v / 16) :: ·)
        | 2 => (decodeFrom 3 (v % 4) 0 t).map (UInt8.ofNat (left * 16 + v / 4) :: ·)
        | _ => (decodeFrom 0 0 0 t).map (UInt8.ofNat (left * 64 + v) :: ·)

/-- `base64.urlsafe_b64decode`, which takes ASCII texts only. -/
def decode (t : List Char) : Option (List UInt8) :=
  if t.all fun c => c.toNat < 0x80 then decodeFrom 0 0 0 t else none

theorem digit_spec :
    ∀ n < 64, value (digit n) = some n ∧ digit n ≠ '=' ∧ (digit n).toNat < 0x80 := by
  decide +kernel

theorem ofNat_eq {n : ℕ} {a : UInt8} (h : n = a.toNat) : UInt8.ofNat n = a := by
  rw [h, UInt8.ofNat_toNat]

section Places

variable {n left pads : ℕ} {t : List Char}

theorem decodeFrom_zero (h : n < 64) :
    decodeFrom 0 left pads (digit n :: t) = decodeFrom 1 n 0 t := by
  rw [decodeFrom, if_neg (digit_spec n h).2.1, (digit_spec n h).1]
  rfl

theorem decodeFrom_one (h : n < 64) : decodeFrom 1 left pads (digit n :: t) =
    (decodeFrom 2 (n % 16) 0 t).map (UInt8.ofNat (left * 4 + n / 16) :: ·) := by
  rw [decodeFrom, if_neg (digit_spec n h).2.1, (digit_spec n h).1]
  rfl

theorem decodeFrom_two (h : n < 64) : decodeFrom 2 left pads (digit n :: t) =
    (decodeFrom 3 (n % 4) 0 t).map (UInt8.ofNat (left * 16 + n / 4) :: ·) := by
  rw [decodeFrom, if_neg (digit_spec n h).2.1, (digit_spec n h).1]
  rfl

theorem decodeFrom_three (h : n < 64) : decodeFrom 3 left pads (digit n :: t) =
    (decodeFrom 0 0 0 t).map (UInt8.ofNat (left * 64 + n) :: ·) := by
  rw [decodeFrom, if_neg (digit_spec n h).2.1, (digit_spec n h).1]
  rfl

end Places

/-- One byte is written in two characters and two paddings. -/
theorem decodeFrom_one_byte (a : UInt8) : decodeFrom 0 0 0
    [digit (a.toNat / 4), digit (a.toNat % 4 * 16), '=', '='] = some [a] := by
  have ha := a.toNat_lt
  have hfirst : UInt8.ofNat (a.toNat / 4 * 4 + a.toNat % 4 * 16 / 16) = a := ofNat_eq (by omega)
  rw [decodeFrom_zero (by omega), decodeFrom_one (by omega), hfirst]
  rfl

/-- Two bytes are written in three characters and a padding. -/
theorem decodeFrom_two_bytes (a b : UInt8) : decodeFrom 0 0 0
    [digit (a.toNat / 4), digit (a.toNat % 4 * 16 + b.toNat / 16), digit (b.toNat % 16 * 4), '='] =
      some [a, b] := by
  have ha := a.toNat_lt
  have hb := b.toNat_lt
  have hfirst : UInt8.ofNat (a.toNat / 4 * 4 + (a.toNat % 4 * 16 + b.toNat / 16) / 16) = a :=
    ofNat_eq (by omega)
  have hsecond : UInt8.ofNat ((a.toNat % 4 * 16 + b.toNat / 16) % 16 * 16 +
      b.toNat % 16 * 4 / 4) = b := ofNat_eq (by omega)
  rw [decodeFrom_zero (by omega), decodeFrom_one (by omega), decodeFrom_two (by omega), hfirst,
    hsecond]
  rfl

/-- Three bytes are written in four characters. -/
theorem decodeFrom_three_bytes (a b c : UInt8) (t : List Char) : decodeFrom 0 0 0
    (digit (a.toNat / 4) :: digit (a.toNat % 4 * 16 + b.toNat / 16) ::
      digit (b.toNat % 16 * 4 + c.toNat / 64) :: digit (c.toNat % 64) :: t) =
        (decodeFrom 0 0 0 t).map fun l => a :: b :: c :: l := by
  have ha := a.toNat_lt
  have hb := b.toNat_lt
  have hc := c.toNat_lt
  have hfirst : UInt8.ofNat (a.toNat / 4 * 4 + (a.toNat % 4 * 16 + b.toNat / 16) / 16) = a :=
    ofNat_eq (by omega)
  have hsecond : UInt8.ofNat ((a.toNat % 4 * 16 + b.toNat / 16) % 16 * 16 +
      (b.toNat % 16 * 4 + c.toNat / 64) / 4) = b := ofNat_eq (by omega)
  have hthird : UInt8.ofNat ((b.toNat % 16 * 4 + c.toNat / 64) % 4 * 64 + c.toNat % 64) = c :=
    ofNat_eq (by omega)
  rw [decodeFrom_zero (by omega), decodeFrom_one (by omega), decodeFrom_two (by omega),
    decodeFrom_three (by omega), hfirst, hsecond, hthird, Option.map_map, Option.map_map]
  rfl

theorem padding_block (x y z w : Char) (t : List Char) :
    padding (x :: y :: z :: w :: t) = padding t := by
  rw [padding, padding]
  simp only [List.length_cons]
  congr 2
  omega

/-- The characters are of the alphabet. -/
theorem exists_digit : ∀ (b : List UInt8), ∀ c ∈ digits b, ∃ n < 64, c = digit n
  | [] => by simp [digits]
  | [a] => by
    have ha := a.toNat_lt
    rw [digits, List.forall_mem_cons, List.forall_mem_singleton]
    exact ⟨⟨_, by omega, rfl⟩, _, by omega, rfl⟩
  | [a, b] => by
    have ha := a.toNat_lt
    have hb := b.toNat_lt
    rw [digits, List.forall_mem_cons, List.forall_mem_cons, List.forall_mem_singleton]
    exact ⟨⟨_, by omega, rfl⟩, ⟨_, by omega, rfl⟩, _, by omega, rfl⟩
  | a :: b :: c :: t => by
    have ha := a.toNat_lt
    have hb := b.toNat_lt
    have hc := c.toNat_lt
    rw [digits, List.forall_mem_cons, List.forall_mem_cons, List.forall_mem_cons,
      List.forall_mem_cons]
    exact ⟨⟨_, by omega, rfl⟩, ⟨_, by omega, rfl⟩, ⟨_, by omega, rfl⟩, ⟨_, by omega, rfl⟩,
      exists_digit t⟩

theorem decodeFrom_encode : ∀ b : List UInt8, decodeFrom 0 0 0 (encode b) = some b
  | [] => rfl
  | [a] => decodeFrom_one_byte a
  | [a, b] => decodeFrom_two_bytes a b
  | a :: b :: c :: t => by
    have ih := decodeFrom_encode t
    rw [encode] at ih ⊢
    rw [digits, padding_block, List.cons_append, List.cons_append, List.cons_append,
      List.cons_append, decodeFrom_three_bytes, ih]
    rfl

/-- **Bytes are read back.** -/
theorem decode_encode (b : List UInt8) : decode (encode b) = some b := by
  have hascii : (encode b).all fun c => c.toNat < 0x80 := by
    rw [List.all_eq_true]
    intro c hc
    rcases List.mem_append.mp hc with hc | hc
    · obtain ⟨n, hn, rfl⟩ := exists_digit b c hc
      exact decide_eq_true (digit_spec n hn).2.2
    · rw [List.eq_of_mem_replicate hc]
      decide
  rw [decode, if_pos hascii, decodeFrom_encode]

/-- **Without their padding the characters are left**, from which it can be told. -/
theorem rdropWhile_encode (b : List UInt8) : (encode b).rdropWhile (· = '=') = digits b := by
  have hpadding : ∀ c ∈ (padding (digits b)).reverse, decide (c = '=') = true := fun c hc =>
    decide_eq_true (List.eq_of_mem_replicate (List.mem_reverse.mp hc))
  rw [List.rdropWhile, encode, List.reverse_append, List.dropWhile_append_of_pos hpadding]
  have hdigits : ∀ c ∈ (digits b).reverse, decide (c = '=') = false := fun c hc => by
    obtain ⟨n, hn, rfl⟩ := exists_digit b c (List.mem_reverse.mp hc)
    exact decide_eq_false (digit_spec n hn).2.1
  rw [← List.reverse_reverse (digits b)]
  generalize (digits b).reverse = l at hdigits
  cases l with
  | nil => rfl
  | cons c l => rw [List.reverse_reverse, List.dropWhile_cons_of_neg (by simp [hdigits c])]

theorem eq_nil_of_digits {b : List UInt8} (h : digits b = []) : b = [] := by
  cases b with
  | nil => rfl
  | cons a b =>
    cases b with
    | nil => cases h
    | cons b t =>
      cases t with
      | nil => cases h
      | cons c t => cases h

theorem length_digits : ∀ b : List UInt8, 3 * (digits b).length ≤ 4 * b.length + 2
  | [] => by simp [digits]
  | [a] => by simp [digits]
  | [a, b] => by simp [digits]
  | a :: b :: c :: t => by
    have ih := length_digits t
    simp only [digits, List.length_cons]
    omega

end Base64
