import Mathlib.Algebra.BigOperators.Group.List.Basic
import Mathlib.Algebra.GroupWithZero.Nat
import Palimpsest.Lib.Json

/-!
# How long the text of a JSON value is

A bound on the bytes of the compact text of a value, read off the value
(`Json.Value.width`): a string takes the bytes of its quoted form, and every item and every
field is followed by a comma or a bracket. A string of plain characters is quoted as it is, and
the sizes of the strings alone give a coarser bound (`Json.Value.room`).
-/

namespace Json

/-- How many bytes a text takes in UTF-8. -/
def byteLength (t : Text) : ℕ := (t.map Char.utf8Size).sum

@[simp]
theorem byteLength_nil : byteLength [] = 0 := rfl

@[simp]
theorem byteLength_cons (c : Char) (t : Text) :
    byteLength (c :: t) = c.utf8Size + byteLength t := by
  simp [byteLength]

@[simp]
theorem byteLength_append (t u : Text) : byteLength (t ++ u) = byteLength t + byteLength u := by
  simp [byteLength]

theorem utf8Size_of_lt {c : Char} (h : c.toNat < 128) : c.utf8Size = 1 := by
  rw [Char.utf8Size, if_pos]
  exact UInt32.le_iff_toNat_le.mpr (Nat.le_of_lt_succ h)

/-- A text of ASCII characters. -/
theorem byteLength_of_ascii {t : Text} (h : ∀ c ∈ t, c.toNat < 128) : byteLength t = t.length := by
  induction t with
  | nil => rfl
  | cons c t ih =>
    obtain ⟨hc, ht⟩ := List.forall_mem_cons.mp h
    rw [byteLength_cons, utf8Size_of_lt hc, ih ht, List.length_cons, Nat.add_comm]

/-- An ASCII character that stands for itself in a string. -/
def isPlain (c : Char) : Bool := 0x20 ≤ c.toNat && c.toNat < 127 && c ≠ '"' && c ≠ '\\'

/-- Digits and letters, and what stands between them, are plain. -/
theorem isPlain_of_le {a b c : Char} (ha : a ≤ c) (hb : c ≤ b)
    (hab : 0x20 ≤ a.toNat ∧ b.toNat < 127 ∧ ('"' < a ∨ b < '"') ∧ ('\\' < a ∨ b < '\\')) :
    isPlain c := by
  have hlow : a.toNat ≤ c.toNat := UInt32.le_iff_toNat_le.mp ha
  have hhigh : c.toNat ≤ b.toNat := UInt32.le_iff_toNat_le.mp hb
  have hne : ∀ e : Char, e < a ∨ b < e → c ≠ e := by
    rintro e (he | he) rfl
    · exact absurd he (Char.not_lt.mpr ha)
    · exact absurd he (Char.not_lt.mpr hb)
  simp only [isPlain, Bool.and_eq_true, decide_eq_true_eq]
  exact ⟨⟨⟨by omega, by omega⟩, hne _ hab.2.2.1⟩, hne _ hab.2.2.2⟩

theorem escape_of_plain {l : Text} (h : ∀ c ∈ l, isPlain c) : escape l = l := by
  induction l with
  | nil => rfl
  | cons c l ih =>
    obtain ⟨hc, hl⟩ := List.forall_mem_cons.mp h
    simp only [isPlain, Bool.and_eq_true, decide_eq_true_eq] at hc
    have hself : escapeChar c = [c] := by
      have hother : ∀ e : Char, e.toNat < 0x20 → c ≠ e := by
        rintro e he rfl
        omega
      rw [escapeChar, if_neg hc.1.2, if_neg hc.2, if_neg (hother _ (by decide)),
        if_neg (hother _ (by decide)), if_neg (hother _ (by decide)),
        if_neg (hother _ (by decide)), if_neg (hother _ (by decide)), if_neg (by omega)]
    rw [escape, List.flatMap_cons, hself]
    exact congrArg (c :: ·) (ih hl)

/-- A string of plain characters between its quotes. -/
theorem byteLength_quote_of_plain {s : String} (h : ∀ c ∈ s.toList, isPlain c) :
    byteLength (quote s) = s.toList.length + 2 := by
  have hascii : byteLength s.toList = s.toList.length := byteLength_of_ascii fun c hc => by
    have := h c hc
    simp only [isPlain, Bool.and_eq_true, decide_eq_true_eq] at this
    omega
  rw [quote, escape_of_plain h, byteLength_cons, byteLength_append, hascii]
  simp only [byteLength_cons, byteLength_nil, show '"'.utf8Size = 1 from rfl]
  omega

/-! ### The width of a value -/

mutual

/-- A bound on the bytes of the text of a value. -/
def Value.width : Value → ℕ
  | .null => 4
  | .bool _ => 5
  | .int z => (natText z.natAbs).length + 1
  | .float x => byteLength x.1
  | .nonfinite => 0
  | .str s => byteLength (quote s)
  | .list items => widthItems items + 2
  | .dict fields => widthFields fields + 2

def Value.widthItems : List Value → ℕ
  | [] => 0
  | v :: l => v.width + 1 + widthItems l

def Value.widthFields : List (String × Value) → ℕ
  | [] => 0
  | (k, v) :: l => byteLength (quote k) + 1 + v.width + 1 + widthFields l

end

theorem byteLength_intText (z : ℤ) : byteLength (intText z) ≤ (natText z.natAbs).length + 1 := by
  have hdigits : byteLength (natText z.natAbs) = (natText z.natAbs).length := by
    refine byteLength_of_ascii fun c hc => ?_
    have hdigit := Nat.isDigit_of_mem_toDigits (by decide) (by decide) hc
    simp only [Char.isDigit, Bool.and_eq_true, decide_eq_true_eq] at hdigit
    have := UInt32.le_iff_toNat_le.mp hdigit.2
    exact Nat.lt_of_le_of_lt this (by decide)
  rw [intText]
  split
  · rw [byteLength_cons, hdigits, show '-'.utf8Size = 1 from rfl]
    omega
  · omega

theorem byteLength_commaJoin_le (l : List Text) :
    byteLength (commaJoin l) ≤ (l.map fun t => byteLength t + 1).sum := by
  induction l with
  | nil => rfl
  | cons t l ih =>
    cases l with
    | nil => simp [commaJoin]
    | cons u l =>
      simp only [commaJoin, byteLength_append, byteLength_cons, List.map_cons, List.sum_cons,
        show ','.utf8Size = 1 from rfl] at ih ⊢
      omega

/-- The order of fields does not change how long their texts are. -/
theorem sum_sortFields (l : List (String × Text)) :
    ((sortFields l).map fun f => byteLength (fieldText f) + 1).sum =
      (l.map fun f => byteLength (fieldText f) + 1).sum :=
  ((List.perm_insertionSort _ l).map _).sum_eq

mutual

/-- **The text of a value takes no more bytes than its width.** -/
theorem byteLength_dumps_le : ∀ {v : Value} {t : Text}, dumps v = some t → byteLength t ≤ v.width
  | .null, t, h => by
    obtain rfl := Option.some.inj h
    exact Nat.le_refl 4
  | .bool b, t, h => by
    cases b with
    | true =>
      obtain rfl := Option.some.inj h
      exact Nat.le_succ 4
    | false =>
      obtain rfl := Option.some.inj h
      exact Nat.le_refl 5
  | .int z, t, h => by
    rw [dumps] at h
    split at h
    · obtain rfl := Option.some.inj h
      exact byteLength_intText z
    · cases h
  | .float x, t, h => by
    obtain rfl := Option.some.inj h
    exact Nat.le_refl _
  | .nonfinite, t, h => by cases h
  | .str s, t, h => by
    obtain rfl := Option.some.inj h
    exact Nat.le_refl _
  | .list items, t, h => by
    obtain ⟨l, hl, rfl⟩ := Option.map_eq_some_iff.mp h
    have hjoin := byteLength_commaJoin_le l
    have hitems := byteLength_dumpsItems_le hl
    simp only [byteLength_cons, byteLength_append, byteLength_nil, Value.width,
      show '['.utf8Size = 1 from rfl, show ']'.utf8Size = 1 from rfl]
    omega
  | .dict fields, t, h => by
    obtain ⟨l, hl, rfl⟩ := Option.map_eq_some_iff.mp h
    have hjoin := byteLength_commaJoin_le ((sortFields l).map fieldText)
    have hfields := byteLength_dumpsFields_le hl
    rw [List.map_map] at hjoin
    have hsort := sum_sortFields l
    simp only [byteLength_cons, byteLength_append, byteLength_nil, Value.width,
      show '\x7b'.utf8Size = 1 from rfl, show '\x7d'.utf8Size = 1 from rfl]
    simp only [Function.comp_def] at hjoin
    omega

theorem byteLength_dumpsItems_le : ∀ {items : List Value} {l : List Text},
    dumpsItems items = some l → (l.map fun t => byteLength t + 1).sum ≤ Value.widthItems items
  | [], l, h => by
    obtain rfl := Option.some.inj h
    exact Nat.le_refl 0
  | v :: items, l, h => by
    obtain ⟨t, ht, h⟩ := Option.bind_eq_some_iff.mp h
    obtain ⟨l, hl, rfl⟩ := Option.map_eq_some_iff.mp h
    have hv := byteLength_dumps_le ht
    have hitems := byteLength_dumpsItems_le hl
    rw [List.map_cons, List.sum_cons, Value.widthItems]
    omega

theorem byteLength_dumpsFields_le : ∀ {fields : List (String × Value)}
    {l : List (String × Text)}, dumpsFields fields = some l →
      (l.map fun f => byteLength (fieldText f) + 1).sum ≤ Value.widthFields fields
  | [], l, h => by
    obtain rfl := Option.some.inj h
    exact Nat.le_refl 0
  | (k, v) :: fields, l, h => by
    obtain ⟨t, ht, h⟩ := Option.bind_eq_some_iff.mp h
    obtain ⟨l, hl, rfl⟩ := Option.map_eq_some_iff.mp h
    have hv := byteLength_dumps_le ht
    have hfields := byteLength_dumpsFields_le hl
    rw [List.map_cons, List.sum_cons, Value.widthFields, fieldText, byteLength_append,
      byteLength_cons, show ':'.utf8Size = 1 from rfl]
    dsimp only
    omega

end

/-- The fields of a dictionary whose keys take so many bytes and whose values have no more
than a width. -/
theorem Value.widthFields_le {d : List (String × Value)} {l : List String} {m n : ℕ}
    (hkeys : keys d = l) (hn : (l.map fun k => byteLength (quote k)).sum ≤ n)
    (h : ∀ f ∈ d, f.2.width ≤ m) : widthFields d ≤ n + l.length * (m + 2) := by
  subst hkeys
  refine Nat.le_trans ?_ (Nat.add_le_add_right hn _)
  clear hn
  induction d with
  | nil => simp [widthFields]
  | cons f d ih =>
    obtain ⟨hf, hd⟩ := List.forall_mem_cons.mp h
    have hrest := ih hd
    rw [keys] at hrest ⊢
    rw [List.map_cons, List.map_cons, List.sum_cons, widthFields, List.length_cons, Nat.succ_mul]
    omega

/-! ### A bound by the sizes of the strings -/

theorem byteLength_toList (s : String) : byteLength s.toList = s.utf8ByteSize := by
  induction s using String.push_induction with
  | empty => rfl
  | push s c ih => simp [ih]

/-- An escape takes at most six bytes. -/
theorem byteLength_escapeChar_le (c : Char) : byteLength (escapeChar c) ≤ 6 * c.utf8Size := by
  have hpos := c.utf8Size_pos
  have hcontrol : ∀ n < 0x20,
      byteLength ['\\', 'u', '0', '0', hexDigit (n / 16), hexDigit (n % 16)] ≤ 6 := by decide
  have hself : byteLength [c] ≤ 6 * c.utf8Size := by
    rw [byteLength_cons, byteLength_nil]
    omega
  have hpair : ∀ e : Char, e.utf8Size = 1 → byteLength ['\\', e] ≤ 6 * c.utf8Size := by
    intro e he
    rw [byteLength_cons, byteLength_cons, byteLength_nil, he, show '\\'.utf8Size = 1 from rfl]
    omega
  unfold escapeChar
  split_ifs with _ _ _ _ _ _ _ hlow
  any_goals exact hpair _ rfl
  · exact (hcontrol _ hlow).trans (by omega)
  · exact hself

theorem byteLength_quote_le (s : String) : byteLength (quote s) ≤ 6 * s.utf8ByteSize + 2 := by
  have hescape : ∀ t : Text, byteLength (escape t) ≤ 6 * byteLength t := by
    intro t
    induction t with
    | nil => exact Nat.le_refl 0
    | cons c t ih =>
      have hc := byteLength_escapeChar_le c
      rw [escape, List.flatMap_cons, byteLength_append, byteLength_cons]
      exact (Nat.add_le_add hc ih).trans (by omega)
  have hs := hescape s.toList
  rw [byteLength_toList] at hs
  simp only [quote, byteLength_cons, byteLength_append, byteLength_nil,
    show '"'.utf8Size = 1 from rfl]
  omega

mutual

/-- A bound that does not look at the characters of a string. -/
def Value.room : Value → ℕ
  | .str s => 6 * s.utf8ByteSize + 2
  | .list items => roomItems items + 2
  | .dict fields => roomFields fields + 2
  | v => v.width

def Value.roomItems : List Value → ℕ
  | [] => 0
  | v :: l => v.room + 1 + roomItems l

def Value.roomFields : List (String × Value) → ℕ
  | [] => 0
  | (k, v) :: l => 6 * k.utf8ByteSize + 2 + 1 + v.room + 1 + roomFields l

end

mutual

theorem Value.width_le_room : ∀ v : Value, v.width ≤ v.room
  | .null | .bool _ | .int _ | .float _ | .nonfinite => Nat.le_refl _
  | .str s => byteLength_quote_le s
  | .list items => Nat.add_le_add_right (Value.widthItems_le_room items) 2
  | .dict fields => Nat.add_le_add_right (Value.widthFields_le_room fields) 2

theorem Value.widthItems_le_room : ∀ l : List Value, widthItems l ≤ roomItems l
  | [] => Nat.le_refl 0
  | v :: l => by
    have hv := v.width_le_room
    have hl := Value.widthItems_le_room l
    rw [widthItems, roomItems]
    omega

theorem Value.widthFields_le_room : ∀ l : List (String × Value), widthFields l ≤ roomFields l
  | [] => Nat.le_refl 0
  | (k, v) :: l => by
    have hk := byteLength_quote_le k
    have hv := v.width_le_room
    have hl := Value.widthFields_le_room l
    rw [widthFields, roomFields]
    omega

end

end Json
