import Palimpsest.Lib.Json

/-!
# Reading JSON texts

What `json.loads` makes of a text when a hook refuses dictionaries with a key twice
(`Json.loads`): blanks between the tokens are skipped, strings may not hold characters
below the blank, integers of too many digits are refused, and `NaN` and the infinities
are read. The text that `Json.dumps` writes is read back as the value it was written for,
with its fields in order (`Json.loads_dumps`).
-/

namespace Json

/-- Why a text is not read. -/
inductive LoadError
  | invalid
  | duplicateKey
  deriving DecidableEq

/-! ### Strings -/

/-- Blanks between tokens. -/
def isBlank (c : Char) : Bool := c = ' ' || c = '\t' || c = '\n' || c = '\r'

def skipBlanks (t : Text) : Text := t.dropWhile isBlank

/-- The value of a hexadecimal digit of either case. -/
def hexDigitValue (c : Char) : Option ℕ :=
  if '0' ≤ c ∧ c ≤ '9' then some (c.toNat - '0'.toNat)
  else if 'a' ≤ c ∧ c ≤ 'f' then some (c.toNat - 'a'.toNat + 10)
  else if 'A' ≤ c ∧ c ≤ 'F' then some (c.toNat - 'A'.toNat + 10)
  else none

/-- The code of four hexadecimal digits. -/
def codeUnit (a b c d : Char) : Option ℕ := do
  return 4096 * (← hexDigitValue a) + 256 * (← hexDigitValue b) + 16 * (← hexDigitValue c) +
    (← hexDigitValue d)

/-- What a backslash and this character stand for. -/
def simpleEscape : Char → Option Char
  | '"' => some '"'
  | '\\' => some '\\'
  | '/' => some '/'
  | 'b' => some '\x08'
  | 'f' => some '\x0c'
  | 'n' => some '\n'
  | 'r' => some '\r'
  | 't' => some '\t'
  | _ => none

/-- The codes of a string up to its closing quote, and what follows it. -/
def scanString : Text → Option (List ℕ × Text)
  | [] => none
  | '"' :: t => some ([], t)
  | '\\' :: 'u' :: a :: b :: c :: d :: t =>
    (codeUnit a b c d).bind fun n => (scanString t).map fun p => (n :: p.1, p.2)
  | '\\' :: e :: t =>
    (simpleEscape e).bind fun c => (scanString t).map fun p => (c.toNat :: p.1, p.2)
  | '\\' :: [] => none
  | c :: t =>
    if c.toNat < 0x20 then none else (scanString t).map fun p => (c.toNat :: p.1, p.2)

/-- The first half of a character beyond the basic plane. -/
def isHighSurrogate (n : ℕ) : Bool := 0xd800 ≤ n && n < 0xdc00

/-- The second half of a character beyond the basic plane. -/
def isLowSurrogate (n : ℕ) : Bool := 0xdc00 ≤ n && n < 0xe000

/-- The characters that codes spell. A half without the other one has no UTF-8 form. -/
def joinSurrogates : List ℕ → Option Text
  | [] => some []
  | [n] => if isHighSurrogate n || isLowSurrogate n then none else some [Char.ofNat n]
  | n :: m :: l =>
    if isHighSurrogate n then
      if isLowSurrogate m then
        (joinSurrogates l).map (Char.ofNat (0x10000 + (n - 0xd800) * 0x400 + (m - 0xdc00)) :: ·)
      else none
    else if isLowSurrogate n then none
    else (joinSurrogates (m :: l)).map (Char.ofNat n :: ·)

/-- A string after its opening quote. -/
def scanText (t : Text) : Option (String × Text) := do
  let (codes, rest) ← scanString t
  return (String.ofList (← joinSurrogates codes), rest)

/-! ### Values -/

/-- A number. -/
def scanNumber (t : Text) : Option (Value × Text) := do
  let (k, rest) ← takeNumber t
  if k.isFloat then
    return (match k.toFloat with
      | some x => .float x
      | none => .nonfinite, rest)
  else if k.whole.length ≤ maxStrDigits then
    let n := digitsValue k.whole
    return (.int (if k.negative then -n else n), rest)
  else none

mutual

/-- The value a text begins with, and what follows it. -/
def scanValue : ℕ → Text → Except LoadError (Value × Text)
  | 0, _ => .error .invalid
  | fuel + 1, t =>
    match t with
    | '"' :: t =>
      match scanText t with
      | some (s, rest) => .ok (.str s, rest)
      | none => .error .invalid
    | '{' :: t =>
      match skipBlanks t with
      | '}' :: rest => .ok (.dict [], rest)
      | t => do
        let (fields, rest) ← scanFields fuel t
        if (fields.map Prod.fst).Nodup then .ok (.dict fields, rest) else .error .duplicateKey
    | '[' :: t =>
      match skipBlanks t with
      | ']' :: rest => .ok (.list [], rest)
      | t => do
        let (items, rest) ← scanItems fuel t
        .ok (.list items, rest)
    | 'n' :: 'u' :: 'l' :: 'l' :: rest => .ok (.null, rest)
    | 't' :: 'r' :: 'u' :: 'e' :: rest => .ok (.bool true, rest)
    | 'f' :: 'a' :: 'l' :: 's' :: 'e' :: rest => .ok (.bool false, rest)
    | 'N' :: 'a' :: 'N' :: rest => .ok (.nonfinite, rest)
    | 'I' :: 'n' :: 'f' :: 'i' :: 'n' :: 'i' :: 't' :: 'y' :: rest => .ok (.nonfinite, rest)
    | '-' :: 'I' :: 'n' :: 'f' :: 'i' :: 'n' :: 'i' :: 't' :: 'y' :: rest => .ok (.nonfinite, rest)
    | t =>
      match scanNumber t with
      | some p => .ok p
      | none => .error .invalid

/-- The items of a list that is not empty, and what follows it. -/
def scanItems : ℕ → Text → Except LoadError (List Value × Text)
  | 0, _ => .error .invalid
  | fuel + 1, t => do
    let (v, t) ← scanValue fuel t
    match skipBlanks t with
    | ']' :: rest => .ok ([v], rest)
    | ',' :: t => do
      let (l, rest) ← scanItems fuel (skipBlanks t)
      .ok (v :: l, rest)
    | _ => .error .invalid

/-- The fields of a dictionary that is not empty, and what follows it. -/
def scanFields : ℕ → Text → Except LoadError (List (String × Value) × Text)
  | 0, _ => .error .invalid
  | fuel + 1, t =>
    match t with
    | '"' :: t =>
      match scanText t with
      | none => .error .invalid
      | some (k, t) =>
        match skipBlanks t with
        | ':' :: t => do
          let (v, t) ← scanValue fuel (skipBlanks t)
          match skipBlanks t with
          | '}' :: rest => .ok ([(k, v)], rest)
          | ',' :: t => do
            let (d, rest) ← scanFields fuel (skipBlanks t)
            .ok ((k, v) :: d, rest)
          | _ => .error .invalid
        | _ => .error .invalid
    | _ => .error .invalid

end

/-- `json.loads`, with a hook that refuses dictionaries with a key twice. -/
def loads (t : Text) : Except LoadError Value := do
  -- a list takes two steps for each of its items, which have a character and a comma
  let (v, rest) ← scanValue (2 * t.length + 1) (skipBlanks t)
  if skipBlanks rest = [] then .ok v else .error .invalid

/-! ### Strings are read back -/

theorem scanString_escapeChar (c : Char) (t : Text) :
    scanString (escapeChar c ++ t) = (scanString t).map fun p => (c.toNat :: p.1, p.2) := by
  unfold escapeChar
  split
  · subst c; simp [scanString, simpleEscape]
  split
  · subst c; simp [scanString, simpleEscape]
  split
  · subst c; simp [scanString, simpleEscape]
  split
  · subst c; simp [scanString, simpleEscape]
  split
  · subst c; simp [scanString, simpleEscape]
  split
  · subst c; simp [scanString, simpleEscape]
  split
  · subst c; simp [scanString, simpleEscape]
  split
  case isTrue h =>
    -- the two hexadecimal digits of the code
    have hcode : codeUnit '0' '0' (hexDigit (c.toNat / 16)) (hexDigit (c.toNat % 16)) =
        some c.toNat := by
      have hall : ∀ n < 0x20, codeUnit '0' '0' (hexDigit (n / 16)) (hexDigit (n % 16)) =
          some n := by
        decide
      exact hall _ h
    simp [scanString, hcode]
  case isFalse _ hbackslash _ _ _ _ _ hblank =>
    simp [scanString, hblank, hbackslash]

theorem scanString_escape (l rest : Text) :
    scanString (escape l ++ '"' :: rest) = some (l.map Char.toNat, rest) := by
  induction l with
  | nil => simp [escape, scanString]
  | cons c l ih =>
    have hcons : escape (c :: l) ++ '"' :: rest = escapeChar c ++ (escape l ++ '"' :: rest) := by
      simp [escape]
    rw [hcons, scanString_escapeChar, ih]
    rfl

/-- The code of a character is no half of another one. -/
theorem not_surrogate (c : Char) :
    isHighSurrogate c.toNat = false ∧ isLowSurrogate c.toNat = false := by
  have hvalid : c.toNat < 0xd800 ∨ 0xdfff < c.toNat ∧ c.toNat < 0x110000 := c.valid
  simp only [isHighSurrogate, isLowSurrogate, Bool.and_eq_false_iff, decide_eq_false_iff_not]
  omega

theorem joinSurrogates_map_toNat (l : Text) : joinSurrogates (l.map Char.toNat) = some l := by
  induction l with
  | nil => rfl
  | cons c l ih =>
    obtain ⟨hhigh, hlow⟩ := not_surrogate c
    cases l with
    | nil => simp [joinSurrogates, hhigh, hlow]
    | cons d l =>
      rw [List.map_cons] at ih
      simp [joinSurrogates, hhigh, hlow, ih]

/-- **A string is read back** from its text. -/
theorem scanText_escape (s : String) (rest : Text) :
    scanText (escape s.toList ++ '"' :: rest) = some (s, rest) := by
  simp [scanText, scanString_escape, joinSurrogates_map_toNat]

/-! ### Numbers are read back -/

/-- What follows a number does not continue it. -/
def EndsNumber (rest : Text) : Prop :=
  ∀ c ∈ rest.head?, c.isDigit = false ∧ c ∉ ['.', 'e', 'E', '+', '-']

theorem endsNumber_nil : EndsNumber [] := fun _ h => by cases h

theorem spanDigits_append (t : Text) {rest : Text} (h : EndsNumber rest) :
    spanDigits (t ++ rest) = ((spanDigits t).1, (spanDigits t).2 ++ rest) := by
  have hrest : rest.takeWhile Char.isDigit = [] ∧ rest.dropWhile Char.isDigit = rest := by
    cases rest with
    | nil => exact ⟨rfl, rfl⟩
    | cons c rest =>
      have hc := (h c rfl).1
      exact ⟨List.takeWhile_cons_of_neg (by simp [hc]), List.dropWhile_cons_of_neg (by simp [hc])⟩
  simp only [spanDigits, Prod.mk.injEq]
  induction t with
  | nil => exact hrest
  | cons c t ih =>
    by_cases hc : c.isDigit
    · simp [hc, ih]
    · simp [hc]

theorem takeFraction_append (t : Text) {rest : Text} (h : EndsNumber rest) :
    takeFraction (t ++ rest) = ((takeFraction t).1, (takeFraction t).2 ++ rest) := by
  match t with
  | [] =>
    cases rest with
    | nil => rfl
    | cons c rest =>
      have hc := (h c rfl).2
      unfold takeFraction
      split
      case h_1 heq => cases heq; simp at hc
      case h_2 => rfl
  | c :: t =>
    by_cases hc : c = '.'
    · subst hc
      simp only [List.cons_append, takeFraction, spanDigits_append t h]
      cases spanDigits t with
      | mk d r => cases d <;> rfl
    · have hnot : ∀ u : Text, takeFraction (c :: u) = (none, c :: u) := fun u => by
        unfold takeFraction
        split
        case h_1 heq => exact absurd (List.cons.inj heq).1 hc
        case h_2 => rfl
      rw [List.cons_append, hnot, hnot]
      rfl

theorem takeSign_append (t : Text) {rest : Text} (h : EndsNumber rest) :
    takeSign (t ++ rest) = ((takeSign t).1, (takeSign t).2 ++ rest) := by
  match t with
  | [] =>
    cases rest with
    | nil => rfl
    | cons c rest =>
      have hc := (h c rfl).2
      unfold takeSign
      split
      case h_1 heq => cases heq; simp at hc
      case h_2 heq => cases heq; simp at hc
      case h_3 => rfl
  | c :: t =>
    by_cases hminus : c = '-'
    · subst hminus; rfl
    by_cases hplus : c = '+'
    · subst hplus; rfl
    have hnot : ∀ u : Text, takeSign (c :: u) = (false, c :: u) := fun u => by
      unfold takeSign
      split
      case h_1 heq => exact absurd (List.cons.inj heq).1 hminus
      case h_2 heq => exact absurd (List.cons.inj heq).1 hplus
      case h_3 => rfl
    rw [List.cons_append, hnot, hnot]
    rfl

theorem takeExponent_append (t : Text) {rest : Text} (h : EndsNumber rest) :
    takeExponent (t ++ rest) = ((takeExponent t).1, (takeExponent t).2 ++ rest) := by
  match t with
  | [] =>
    cases rest with
    | nil => rfl
    | cons c rest =>
      have hc := (h c rfl).2
      have : ¬(c = 'e' ∨ c = 'E') := by rintro (rfl | rfl) <;> simp at hc
      simp [takeExponent, this]
  | c :: t =>
    simp only [List.cons_append, takeExponent, takeSign_append t h, spanDigits_append _ h]
    split
    · cases spanDigits (takeSign t).2 with
      | mk d r => cases d <;> rfl
    · rfl

/-- Digits that do not begin with a zero are taken as they are. -/
theorem takeWhole_cons {c : Char} (hc : c ≠ '0') (u : Text) :
    takeWhole (c :: u) = match spanDigits (c :: u) with
      | ([], _) => none
      | p => some p := by
  unfold takeWhole
  split
  case h_1 heq => exact absurd (List.cons.inj heq).1 hc
  case h_2 => rfl

theorem takeWhole_append {t w r : Text} (ht : takeWhole t = some (w, r)) {rest : Text}
    (h : EndsNumber rest) : takeWhole (t ++ rest) = some (w, r ++ rest) := by
  cases t with
  | nil => cases ht
  | cons c t =>
    by_cases hc : c = '0'
    · subst hc
      obtain ⟨rfl, rfl⟩ := Prod.mk.inj (Option.some.inj ht)
      rfl
    · rw [List.cons_append, takeWhole_cons hc, ← List.cons_append, spanDigits_append _ h]
      rw [takeWhole_cons hc] at ht
      cases hs : spanDigits (c :: t) with
      | mk d r' =>
        rw [hs] at ht
        cases d with
        | nil => cases ht
        | cons d ds =>
          obtain ⟨rfl, rfl⟩ := Prod.mk.inj (Option.some.inj ht)
          rfl

theorem takeMinus_append (t : Text) {rest : Text} (h : EndsNumber rest) :
    takeMinus (t ++ rest) = ((takeMinus t).1, (takeMinus t).2 ++ rest) := by
  match t with
  | [] =>
    cases rest with
    | nil => rfl
    | cons c rest =>
      have hc := (h c rfl).2
      unfold takeMinus
      split
      case h_1 heq => cases heq; simp at hc
      case h_2 => rfl
  | c :: t =>
    by_cases hminus : c = '-'
    · subst hminus; rfl
    have hnot : ∀ u : Text, takeMinus (c :: u) = (false, c :: u) := fun u => by
      unfold takeMinus
      split
      case h_1 heq => exact absurd (List.cons.inj heq).1 hminus
      case h_2 => rfl
    rw [List.cons_append, hnot, hnot]
    rfl

/-- A number is read up to what ends it. -/
theorem takeNumber_append {t r : Text} {k : NumberToken} (ht : takeNumber t = some (k, r))
    {rest : Text} (h : EndsNumber rest) : takeNumber (t ++ rest) = some (k, r ++ rest) := by
  obtain ⟨⟨w, u⟩, hw, hk⟩ := Option.map_eq_some_iff.mp ht
  obtain ⟨rfl, rfl⟩ := Prod.mk.inj hk
  simp only [takeNumber, takeMinus_append t h, takeWhole_append hw h, takeFraction_append u h,
    takeExponent_append _ h, Option.map_some]

/-! ### Numbers are read back -/

/-- The first digit of a positive number is no zero. -/
theorem natText_eq_cons {n : ℕ} (h : 0 < n) : ∃ c t, natText n = c :: t ∧ c ≠ '0' := by
  induction n using Nat.strongRecOn with
  | ind n ih =>
    by_cases hn : n < 10
    · refine ⟨Nat.digitChar n, [], Nat.toDigits_of_lt_base hn, ?_⟩
      have hall : ∀ n < 10, 0 < n → Nat.digitChar n ≠ '0' := by decide
      exact hall n hn h
    · obtain ⟨c, t, ht, hc⟩ := ih (n / 10) (by omega) (by omega)
      refine ⟨c, t ++ [Nat.digitChar (n % 10)], ?_, hc⟩
      rw [natText, Nat.toDigits_of_base_le (by decide) (by omega)]
      rw [natText] at ht
      rw [ht, List.cons_append]

theorem spanDigits_natText (n : ℕ) : spanDigits (natText n) = (natText n, []) := by
  have hall : ∀ c ∈ natText n, c.isDigit := fun c hc =>
    Nat.isDigit_of_mem_toDigits (by decide) (by decide) hc
  rw [spanDigits, List.takeWhile_eq_self_iff.mpr hall, List.dropWhile_eq_nil_iff.mpr hall]

theorem takeWhole_natText (n : ℕ) : takeWhole (natText n) = some (natText n, []) := by
  rcases Nat.eq_zero_or_pos n with rfl | hn
  · rfl
  · have hspan := spanDigits_natText n
    obtain ⟨c, t, ht, hc⟩ := natText_eq_cons hn
    rw [ht] at hspan ⊢
    unfold takeWhole
    split
    case h_1 heq => exact absurd (List.cons.inj heq).1 hc
    case h_2 => rw [hspan]

theorem takeMinus_intText (z : ℤ) : takeMinus (intText z) = (decide (z < 0), natText z.natAbs) := by
  unfold intText
  split
  · simp [takeMinus, ‹z < 0›]
  · have hne : ∀ t, natText z.natAbs ≠ '-' :: t := fun t ht => by
      have := Nat.isDigit_of_mem_toDigits (by decide) (by decide)
        (show '-' ∈ natText z.natAbs by rw [ht]; exact List.mem_cons_self)
      simp at this
    unfold takeMinus
    split
    case h_1 heq => exact absurd heq (hne _)
    case h_2 => simp [‹¬z < 0›]

theorem takeNumber_intText (z : ℤ) :
    takeNumber (intText z) = some (⟨decide (z < 0), natText z.natAbs, none, none⟩, []) := by
  rw [takeNumber, takeMinus_intText, takeWhole_natText]
  rfl

/-- **An integer is read back.** -/
theorem scanNumber_intText {z : ℤ} (hz : (natText z.natAbs).length ≤ maxStrDigits) {rest : Text}
    (h : EndsNumber rest) : scanNumber (intText z ++ rest) = some (.int z, rest) := by
  have hvalue : digitsValue (natText z.natAbs) = z.natAbs := Nat.ofDigitChars_ten_toDigits
  rw [scanNumber, takeNumber_append (takeNumber_intText z) h]
  rcases Int.lt_or_le z 0 with hneg | hpos
  · have hsign : -(z.natAbs : ℤ) = z := by omega
    rw [← hvalue] at hsign
    simp [NumberToken.isFloat, hz, hneg, hsign]
  · have hsign : (z.natAbs : ℤ) = z := by omega
    rw [← hvalue] at hsign
    simp [NumberToken.isFloat, hz, Int.not_lt.mpr hpos, hsign]

/-- **A float is read back.** -/
theorem scanNumber_floatRepr (x : FloatRepr) {rest : Text} (h : EndsNumber rest) :
    scanNumber (x.1 ++ rest) = some (.float x, rest) := by
  obtain ⟨t, ht⟩ := x
  have hrepr := ht
  unfold isFloatRepr at hrepr
  split at hrepr
  case h_2 => cases hrepr
  case h_1 k hk =>
    simp only [Bool.and_eq_true, decide_eq_true_eq] at hrepr
    have hfloat : k.toFloat = some ⟨t, ht⟩ := by
      rw [NumberToken.toFloat, hrepr.2]
      exact dif_pos ht
    simp [scanNumber, takeNumber_append hk h, hrepr.1, hfloat]

/-- A number begins with a sign or a digit. -/
theorem exists_cons_of_takeNumber {t : Text} {p : NumberToken × Text}
    (h : takeNumber t = some p) : ∃ c u, t = c :: u ∧ (c = '-' ∨ c.isDigit) := by
  obtain ⟨⟨w, r⟩, hw, -⟩ := Option.map_eq_some_iff.mp h
  match t with
  | [] => cases hw
  | c :: u =>
    refine ⟨c, u, rfl, ?_⟩
    by_contra hc
    obtain ⟨hminus, hdigit⟩ := not_or.mp hc
    have hsign : takeMinus (c :: u) = (false, c :: u) := by
      unfold takeMinus
      split
      case h_1 heq => exact absurd (List.cons.inj heq).1 hminus
      case h_2 => rfl
    rw [hsign] at hw
    unfold takeWhole at hw
    split at hw
    case h_1 heq =>
      rw [(List.cons.inj heq).1] at hdigit
      exact hdigit (by decide)
    case h_2 => simp [spanDigits, hdigit] at hw

/-! ### Values are read back -/

/-- A value that begins like a number is read as one. -/
theorem scanValue_of_scanNumber {t : Text} {p : Value × Text} (h : scanNumber t = some p)
    (fuel : ℕ) : scanValue (fuel + 1) t = .ok p := by
  have hne : ∀ c u, t = c :: u → c = '-' ∨ c.isDigit := by
    obtain ⟨q, hq, -⟩ := Option.bind_eq_some_iff.mp h
    obtain ⟨c, u, rfl, hc⟩ := exists_cons_of_takeNumber hq
    rintro _ _ ⟨⟩
    exact hc
  unfold scanValue
  split
  case h_10 => rw [h]
  case h_9 =>
    -- a sign and no digit
    simp [scanNumber, takeNumber, takeMinus, takeWhole, spanDigits] at h
  all_goals
    have := hne _ _ rfl
    simp at this

/-- The text of a value is read back as the value, with its fields in order. -/
def Reads (v : Value) : Prop :=
  ∀ ⦃t rest : Text⦄ ⦃fuel : ℕ⦄, dumps v = some t → EndsNumber rest → 2 * t.length + 1 ≤ fuel →
    scanValue fuel (t ++ rest) = .ok (v.sorted, rest)

/-- The text of a value begins with no blank, and closes no bracket. -/
theorem exists_cons_of_dumps {v : Value} {t : Text} (h : dumps v = some t) :
    ∃ c u, t = c :: u ∧ isBlank c = false ∧ c ≠ ']' := by
  have hnumber : ∀ {p}, takeNumber t = some p →
      ∃ c u, t = c :: u ∧ isBlank c = false ∧ c ≠ ']' := by
    intro p hp
    obtain ⟨c, u, rfl, hc⟩ := exists_cons_of_takeNumber hp
    refine ⟨c, u, rfl, ?_, ?_⟩
    · rcases hc with rfl | hc
      · decide
      · simp only [isBlank, Bool.or_eq_false_iff, decide_eq_false_iff_not]
        refine ⟨⟨⟨?_, ?_⟩, ?_⟩, ?_⟩ <;> (rintro rfl; simp at hc)
    · rintro rfl
      simp at hc
  cases v with
  | null => obtain rfl := Option.some.inj h; exact ⟨_, _, rfl, by decide, by decide⟩
  | bool b => cases b <;> (obtain rfl := Option.some.inj h; exact ⟨_, _, rfl, by decide, by decide⟩)
  | int z =>
    simp only [dumps] at h
    split at h
    · obtain rfl := Option.some.inj h
      exact hnumber (takeNumber_intText z)
    · cases h
  | float x =>
    obtain rfl := Option.some.inj h
    have hx := x.2
    unfold isFloatRepr at hx
    split at hx
    case h_1 k hk => exact hnumber hk
    case h_2 => cases hx
  | nonfinite => cases h
  | str s => obtain rfl := Option.some.inj h; exact ⟨_, _, rfl, by decide, by decide⟩
  | list items =>
    obtain ⟨l, -, rfl⟩ := Option.map_eq_some_iff.mp h
    exact ⟨_, _, rfl, by decide, by decide⟩
  | dict fields =>
    obtain ⟨l, -, rfl⟩ := Option.map_eq_some_iff.mp h
    exact ⟨_, _, rfl, by decide, by decide⟩

theorem skipBlanks_cons {c : Char} (h : isBlank c = false) (t : Text) :
    skipBlanks (c :: t) = c :: t := List.dropWhile_cons_of_neg (by simp [h])

theorem endsNumber_cons {c : Char} (h : c.isDigit = false ∧ c ∉ ['.', 'e', 'E', '+', '-'])
    (t : Text) : EndsNumber (c :: t) := fun d hd => by
  obtain rfl : c = d := by simpa using hd
  exact h

theorem skipBlanks_commaJoin {v : Value} {t : Text} (h : dumps v = some t) (l : List Text)
    (rest : Text) : skipBlanks (commaJoin (t :: l) ++ rest) = commaJoin (t :: l) ++ rest := by
  obtain ⟨c, u, rfl, hc, -⟩ := exists_cons_of_dumps h
  cases l with
  | nil => exact skipBlanks_cons hc _
  | cons t' l => exact skipBlanks_cons hc _

theorem scanItems_commaJoin {items : List Value} (hne : items ≠ []) (hreads : ∀ v ∈ items, Reads v)
    {l : List Text} (hl : dumpsItems items = some l) (rest : Text) (fuel : ℕ)
    (hfuel : 2 * (commaJoin l).length + 2 ≤ fuel) :
    scanItems fuel (commaJoin l ++ ']' :: rest) = .ok (Value.sortedItems items, rest) := by
  induction items generalizing l fuel with
  | nil => exact absurd rfl hne
  | cons v items ih =>
    obtain ⟨t, ht, hmap⟩ := Option.bind_eq_some_iff.mp hl
    obtain ⟨l, hitems, rfl⟩ := Option.map_eq_some_iff.mp hmap
    obtain ⟨hv, hreads⟩ := List.forall_mem_cons.mp hreads
    obtain ⟨fuel, rfl⟩ : ∃ n, fuel = n + 1 := ⟨fuel - 1, by omega⟩
    cases items with
    | nil =>
      obtain rfl := Option.some.inj hitems
      simp only [commaJoin] at hfuel ⊢
      rw [scanItems, hv ht (endsNumber_cons (by decide) _) (by omega)]
      rfl
    | cons w items =>
      obtain ⟨t', ht', hmap'⟩ := Option.bind_eq_some_iff.mp hitems
      obtain ⟨l', -, rfl⟩ := Option.map_eq_some_iff.mp hmap'
      simp only [commaJoin, List.length_append, List.length_cons] at hfuel
      have hrec := ih (by simp) hreads hitems fuel (by omega)
      have hsplit : commaJoin (t :: t' :: l') ++ ']' :: rest =
          t ++ ',' :: (commaJoin (t' :: l') ++ ']' :: rest) := by simp [commaJoin]
      rw [hsplit, scanItems, hv ht (endsNumber_cons (by decide) _) (by omega)]
      simp only [bind, Except.bind, skipBlanks_cons (by decide : isBlank ',' = false),
        skipBlanks_commaJoin ht', hrec]
      rfl

theorem scanFields_commaJoin {z : List (String × Value × Text)} (hne : z ≠ [])
    (hreads : ∀ p ∈ z, Reads p.2.1) (hdumps : ∀ p ∈ z, dumps p.2.1 = some p.2.2) (rest : Text)
    (fuel : ℕ) (hfuel : 2 * (commaJoin (z.map fun p => fieldText (p.1, p.2.2))).length + 2 ≤ fuel) :
    scanFields fuel (commaJoin (z.map fun p => fieldText (p.1, p.2.2)) ++ '}' :: rest) =
      .ok (z.map fun p => (p.1, p.2.1.sorted), rest) := by
  induction z generalizing fuel with
  | nil => exact absurd rfl hne
  | cons p z ih =>
    obtain ⟨k, v, t⟩ := p
    obtain ⟨hv, hreads⟩ := List.forall_mem_cons.mp hreads
    obtain ⟨ht, hdumps⟩ := List.forall_mem_cons.mp hdumps
    dsimp only at hv ht
    obtain ⟨fuel, rfl⟩ : ∃ n, fuel = n + 1 := ⟨fuel - 1, by omega⟩
    have hfield : ∀ u : Text,
        fieldText (k, t) ++ u = '"' :: (escape k.toList ++ '"' :: ':' :: (t ++ u)) := by
      simp [fieldText, quote]
    obtain ⟨c, u, hcons, hc, -⟩ := exists_cons_of_dumps ht
    have hskip : ∀ u, skipBlanks (t ++ u) = t ++ u := fun u => by
      rw [hcons, List.cons_append, skipBlanks_cons hc]
    cases z with
    | nil =>
      simp only [List.map_cons, List.map_nil, commaJoin, fieldText, List.length_append,
        List.length_cons] at hfuel
      simp only [List.map_cons, List.map_nil, commaJoin, hfield, scanFields, scanText_escape,
        skipBlanks_cons (by decide : isBlank ':' = false), hskip,
        hv ht (endsNumber_cons (c := '}') (by decide) _) (show 2 * t.length + 1 ≤ fuel by omega)]
      rfl
    | cons q z =>
      simp only [List.map_cons, commaJoin, fieldText, List.length_append, List.length_cons] at hfuel
      have hrec := ih (by simp) hreads hdumps fuel (by
        simp only [List.map_cons, fieldText]; omega)
      have hsplit :
          commaJoin (((k, v, t) :: q :: z).map fun p => fieldText (p.1, p.2.2)) ++ '}' :: rest =
            fieldText (k, t) ++ ',' ::
              (commaJoin ((q :: z).map fun p => fieldText (p.1, p.2.2)) ++ '}' :: rest) := by
        simp [commaJoin]
      have hblank :
          skipBlanks (commaJoin ((q :: z).map fun p => fieldText (p.1, p.2.2)) ++ '}' :: rest) =
            commaJoin ((q :: z).map fun p => fieldText (p.1, p.2.2)) ++ '}' :: rest := by
        cases z with
        | nil => exact skipBlanks_cons (by decide) _
        | cons q' z => exact skipBlanks_cons (by decide) _
      rw [hsplit, hfield, scanFields]
      simp only [scanText_escape, skipBlanks_cons (by decide : isBlank ':' = false), hskip,
        hv ht (endsNumber_cons (c := ',') (by decide) _) (show 2 * t.length + 1 ≤ fuel by omega),
        bind, Except.bind, skipBlanks_cons (by decide : isBlank ',' = false), hblank, hrec]
      rfl

theorem reads_list {items : List Value} (hreads : ∀ v ∈ items, Reads v) : Reads (.list items) := by
  intro t rest fuel ht hrest hfuel
  obtain ⟨l, hl, rfl⟩ := Option.map_eq_some_iff.mp ht
  obtain ⟨fuel, rfl⟩ : ∃ n, fuel = n + 1 := ⟨fuel - 1, by omega⟩
  cases items with
  | nil =>
    obtain rfl := Option.some.inj hl
    rfl
  | cons v items =>
    obtain ⟨t, hv, hmap⟩ := Option.bind_eq_some_iff.mp hl
    obtain ⟨l, -, rfl⟩ := Option.map_eq_some_iff.mp hmap
    simp only [List.length_cons, List.length_append] at hfuel
    have hitems := scanItems_commaJoin (by simp) hreads hl rest fuel (by omega)
    obtain ⟨c, u, hcons, hc, hclose⟩ : ∃ c u, commaJoin (t :: l) ++ ']' :: rest = c :: u ∧
        isBlank c = false ∧ c ≠ ']' := by
      obtain ⟨c, u, rfl, hc⟩ := exists_cons_of_dumps hv
      cases l with
      | nil => exact ⟨c, _, rfl, hc⟩
      | cons t' l => exact ⟨c, _, rfl, hc⟩
    have hsplit : '[' :: (commaJoin (t :: l) ++ [']']) ++ rest = '[' :: c :: u := by
      rw [← hcons]; simp
    rw [hsplit, scanValue]
    rw [hcons] at hitems
    rw [skipBlanks_cons hc]
    split
    case h_1 heq => exact absurd (List.cons.inj heq).1 hclose
    case h_2 =>
      rw [hitems]
      rfl

theorem reads_dict {fields : List (String × Value)} (hreads : ∀ f ∈ fields, Reads f.2)
    (hkeys : (fields.map Prod.fst).Nodup) : Reads (.dict fields) := by
  intro t rest fuel ht hrest hfuel
  obtain ⟨l, hl, rfl⟩ := Option.map_eq_some_iff.mp ht
  obtain ⟨fuel, rfl⟩ : ∃ n, fuel = n + 1 := ⟨fuel - 1, by omega⟩
  obtain ⟨z, rfl, rfl, hz⟩ := dumpsFields_eq_some.mp hl
  -- the fields with their texts, in the order of the keys
  let y := z.insertionSort fun p q => p.1 ≤ q.1
  have htexts : (sortFields (z.map fun p => (p.1, p.2.2))).map fieldText =
      y.map fun p => fieldText (p.1, p.2.2) := by
    rw [sortFields_map (fun p : String × Value × Text => (p.1, p.2.2)) Prod.fst fun _ => rfl,
      List.map_map]
    rfl
  have hsorted : sortFields (Value.sortedFields (z.map fun p => (p.1, p.2.1))) =
      y.map fun p => (p.1, p.2.1.sorted) := by
    rw [Value.sortedFields_eq_map, List.map_map]
    exact sortFields_map (fun p : String × Value × Text => (p.1, p.2.1.sorted)) Prod.fst
      (fun _ => rfl) z
  have hmem : ∀ p ∈ y, p ∈ z := fun p hp => (List.mem_insertionSort _).mp hp
  have hnodup : ((y.map fun p => (p.1, p.2.1.sorted)).map Prod.fst).Nodup := by
    have hperm : (y.map Prod.fst).Perm (z.map Prod.fst) := (List.perm_insertionSort _ z).map _
    simp only [List.map_map, Function.comp_def] at hkeys ⊢
    exact hperm.nodup_iff.mpr hkeys
  rw [htexts] at hfuel ⊢
  rw [Value.sorted, hsorted]
  cases hy : y with
  | nil => rfl
  | cons p y' =>
    rw [hy] at hfuel hmem hnodup
    simp only [List.length_cons, List.length_append] at hfuel
    have hfields := scanFields_commaJoin (z := p :: y') (by simp)
      (fun q hq => hreads (q.1, q.2.1) (List.mem_map_of_mem (hmem q hq)))
      (fun q hq => hz q (hmem q hq)) rest fuel (by omega)
    obtain ⟨u, hcons⟩ : ∃ u,
        commaJoin ((p :: y').map fun q => fieldText (q.1, q.2.2)) ++ '}' :: rest = '"' :: u := by
      cases y' with
      | nil => exact ⟨_, rfl⟩
      | cons q y' => exact ⟨_, rfl⟩
    have hsplit :
        '{' :: (commaJoin ((p :: y').map fun q => fieldText (q.1, q.2.2)) ++ ['}']) ++ rest =
          '{' :: '"' :: u := by
      rw [← hcons]; simp
    rw [hsplit, scanValue]
    rw [hcons] at hfields
    rw [skipBlanks_cons (by decide : isBlank '"' = false)]
    split
    case h_1 heq => cases heq
    case h_2 => simp only [hfields, bind, Except.bind, if_pos hnodup]

mutual

theorem reads_of_distinct : ∀ {v : Value}, v.Distinct → Reads v
  | .list _, h => reads_list (reads_of_distinctItems h)
  | .dict _, h => reads_dict (reads_of_distinctFields h.2) h.1
  | .null, _ | .bool true, _ | .bool false, _ => by
    intro t rest fuel ht hrest hfuel
    obtain rfl := Option.some.inj ht
    obtain ⟨fuel, rfl⟩ : ∃ n, fuel = n + 1 := ⟨fuel - 1, by omega⟩
    rfl
  | .int z, _ => by
    intro t rest fuel ht hrest hfuel
    obtain ⟨fuel, rfl⟩ : ∃ n, fuel = n + 1 := ⟨fuel - 1, by omega⟩
    rw [dumps] at ht
    split at ht
    case isTrue hz =>
      obtain rfl := Option.some.inj ht
      exact scanValue_of_scanNumber (scanNumber_intText hz hrest) fuel
    case isFalse => cases ht
  | .float x, _ => by
    intro t rest fuel ht hrest hfuel
    obtain ⟨fuel, rfl⟩ : ∃ n, fuel = n + 1 := ⟨fuel - 1, by omega⟩
    obtain rfl := Option.some.inj ht
    exact scanValue_of_scanNumber (scanNumber_floatRepr x hrest) fuel
  | .nonfinite, _ => fun _ _ _ ht => (nomatch ht)
  | .str s, _ => by
    intro t rest fuel ht hrest hfuel
    obtain ⟨fuel, rfl⟩ : ∃ n, fuel = n + 1 := ⟨fuel - 1, by omega⟩
    obtain rfl := Option.some.inj ht
    have hsplit : quote s ++ rest = '"' :: (escape s.toList ++ '"' :: rest) := by simp [quote]
    rw [hsplit, scanValue, scanText_escape]
    rfl

theorem reads_of_distinctItems : ∀ {items : List Value}, Value.DistinctItems items →
    ∀ v ∈ items, Reads v
  | [], _ => fun _ hv => absurd hv List.not_mem_nil
  | _ :: _, h => List.forall_mem_cons.mpr ⟨reads_of_distinct h.1, reads_of_distinctItems h.2⟩

theorem reads_of_distinctFields : ∀ {fields : List (String × Value)},
    Value.DistinctFields fields → ∀ f ∈ fields, Reads f.2
  | [], _ => fun _ hf => absurd hf List.not_mem_nil
  | (_, _) :: _, h => List.forall_mem_cons.mpr ⟨reads_of_distinct h.1, reads_of_distinctFields h.2⟩

end

/-- A value is read back from its text with blanks after it. -/
theorem loads_dumps_append {v : Value} (hv : v.Distinct) {t rest : Text} (ht : dumps v = some t)
    (hends : EndsNumber rest) (hblank : skipBlanks rest = []) :
    loads (t ++ rest) = .ok v.sorted := by
  obtain ⟨c, u, hcons, hc, -⟩ := exists_cons_of_dumps ht
  have hskip : skipBlanks (t ++ rest) = t ++ rest := by
    rw [hcons, List.cons_append, skipBlanks_cons hc]
  have hfuel : 2 * t.length + 1 ≤ 2 * (t ++ rest).length + 1 := by
    rw [List.length_append]
    omega
  have hread := reads_of_distinct hv ht hends hfuel
  rw [loads, hskip, hread]
  exact if_pos hblank

/-- **A value is read back from its text**, with its fields in order. -/
theorem loads_dumps {v : Value} (hv : v.Distinct) {t : Text} (ht : dumps v = some t) :
    loads t = .ok v.sorted := by
  have hread := loads_dumps_append hv ht endsNumber_nil rfl
  rwa [List.append_nil] at hread

end Json
