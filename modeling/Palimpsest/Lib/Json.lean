import Mathlib.Data.List.Sort
import Mathlib.Data.String.Basic
import Palimpsest.Lib.FloatRepr

/-!
# JSON values and their compact text

The values a JSON text denotes in Python, and the compact text `json.dumps` writes
for them with its keys sorted, with no blank between the tokens, with every character
from the blank on left as it is, and with floats that are not finite refused
(`Json.dumps`). A dictionary keeps its fields in the order of insertion;
`Json.Value.sorted` is the value with the fields of every dictionary in the order of
their keys, which has the same text (`Json.dumps_sorted`).
-/

namespace Json

/-- A value as `json.loads` builds it. -/
inductive Value
  | null
  | bool (b : Bool)
  | int (z : ℤ)
  | float (x : FloatRepr)
  /-- `NaN` or an infinity. -/
  | nonfinite
  | str (s : String)
  | list (items : List Value)
  | dict (fields : List (String × Value))

/-! ### Equality of values -/

mutual

/-- Equality of values can be decided. -/
def Value.decEq (v w : Value) : Decidable (v = w) :=
  if h : v.ctorIdx = w.ctorIdx then
    match v, w, h with
    | .null, .null, _ => isTrue rfl
    | .bool b, .bool c, _ => decidable_of_iff (b = c) (by simp)
    | .int z, .int y, _ => decidable_of_iff (z = y) (by simp)
    | .float r, .float q, _ => decidable_of_iff (r = q) (by simp)
    | .nonfinite, .nonfinite, _ => isTrue rfl
    | .str s, .str t, _ => decidable_of_iff (s = t) (by simp)
    | .list l, .list k, _ => @decidable_of_iff _ (l = k) (by simp) (Value.decEqItems l k)
    | .dict d, .dict e, _ => @decidable_of_iff _ (d = e) (by simp) (Value.decEqFields d e)
  else isFalse fun e => h (congrArg _ e)

/-- Equality of lists of values can be decided. -/
def Value.decEqItems : (l k : List Value) → Decidable (l = k)
  | [], [] => isTrue rfl
  | v :: l, w :: k =>
    have := Value.decEq v w
    have := Value.decEqItems l k
    decidable_of_iff (v = w ∧ l = k) (by simp)
  | [], _ :: _ | _ :: _, [] => isFalse (by simp)

/-- Equality of lists of fields can be decided. -/
def Value.decEqFields : (d e : List (String × Value)) → Decidable (d = e)
  | [], [] => isTrue rfl
  | (n, v) :: d, (m, w) :: e =>
    have := Value.decEq v w
    have := Value.decEqFields d e
    decidable_of_iff (n = m ∧ v = w ∧ d = e) (by simp [and_assoc])
  | [], _ :: _ | _ :: _, [] => isFalse (by simp)

end

instance : DecidableEq Value := Value.decEq

/-! ### The tokens -/

/-- The most digits an integer is written with or read from. -/
def maxStrDigits : ℕ := 4300

/-- A natural number in decimal. -/
def natText (n : ℕ) : Text := Nat.toDigits 10 n

/-- An integer in decimal. -/
def intText (z : ℤ) : Text := if z < 0 then '-' :: natText z.natAbs else natText z.natAbs

/-- A lowercase hexadecimal digit. -/
def hexDigit (n : ℕ) : Char := Nat.digitChar n

/-- A character inside a string. -/
def escapeChar (c : Char) : Text :=
  if c = '"' then ['\\', '"']
  else if c = '\\' then ['\\', '\\']
  else if c = '\n' then ['\\', 'n']
  else if c = '\r' then ['\\', 'r']
  else if c = '\t' then ['\\', 't']
  else if c = '\x0c' then ['\\', 'f']
  else if c = '\x08' then ['\\', 'b']
  else if c.toNat < 0x20 then
    ['\\', 'u', '0', '0', hexDigit (c.toNat / 16), hexDigit (c.toNat % 16)]
  else [c]

/-- The characters of a string, escaped. -/
def escape (l : Text) : Text := l.flatMap escapeChar

/-- A string in its quotes. -/
def quote (s : String) : Text := '"' :: (escape s.toList ++ ['"'])

/-- Texts one after the other, with a comma between any two. -/
def commaJoin : List Text → Text
  | [] => []
  | [t] => t
  | t :: u :: l => t ++ ',' :: commaJoin (u :: l)

/-- Fields in the order of their keys. -/
def sortFields {α : Type} (fields : List (String × α)) : List (String × α) :=
  fields.insertionSort fun f g => f.1 ≤ g.1

/-- A field: its key, a colon and the text of its value. -/
def fieldText (f : String × Text) : Text := quote f.1 ++ ':' :: f.2

/-! ### The text of a value -/

mutual

/-- The text `json.dumps` writes, or nothing where it raises. -/
def dumps : Value → Option Text
  | .null => some "null".toList
  | .bool true => some "true".toList
  | .bool false => some "false".toList
  | .int z => if (natText z.natAbs).length ≤ maxStrDigits then some (intText z) else none
  | .float x => some x.1
  | .nonfinite => none
  | .str s => some (quote s)
  | .list items => (dumpsItems items).map fun l => '[' :: (commaJoin l ++ [']'])
  | .dict fields =>
    (dumpsFields fields).map fun l => '{' :: (commaJoin ((sortFields l).map fieldText) ++ ['}'])

/-- The texts of the items of a list. -/
def dumpsItems : List Value → Option (List Text)
  | [] => some []
  | v :: l => (dumps v).bind fun t => (dumpsItems l).map (t :: ·)

/-- The keys of a dictionary with the texts of their values. -/
def dumpsFields : List (String × Value) → Option (List (String × Text))
  | [] => some []
  | (k, v) :: l => (dumps v).bind fun t => (dumpsFields l).map ((k, t) :: ·)

end

/-! ### The order of fields -/

mutual

/-- The value with the fields of every dictionary in the order of their keys. -/
def Value.sorted : Value → Value
  | .list items => .list (sortedItems items)
  | .dict fields => .dict (sortFields (sortedFields fields))
  | v => v

/-- The items of a list, each with its fields in order. -/
def Value.sortedItems : List Value → List Value
  | [] => []
  | v :: l => v.sorted :: sortedItems l

/-- The fields of a dictionary, their values with their fields in order. -/
def Value.sortedFields : List (String × Value) → List (String × Value)
  | [] => []
  | (k, v) :: l => (k, v.sorted) :: sortedFields l

end

mutual

/-- No dictionary in the value has a key twice, as no dictionary of Python has. -/
def Value.Distinct : Value → Prop
  | .list items => DistinctItems items
  | .dict fields => (fields.map Prod.fst).Nodup ∧ DistinctFields fields
  | _ => True

/-- No dictionary in the items has a key twice. -/
def Value.DistinctItems : List Value → Prop
  | [] => True
  | v :: l => v.Distinct ∧ DistinctItems l

/-- No dictionary in the values of the fields has a key twice. -/
def Value.DistinctFields : List (String × Value) → Prop
  | [] => True
  | (_, v) :: l => v.Distinct ∧ DistinctFields l

end

theorem Value.sortedItems_eq_map (l : List Value) : sortedItems l = l.map sorted := by
  induction l with
  | nil => rfl
  | cons v l ih => rw [sortedItems, ih, List.map_cons]

theorem Value.sortedFields_eq_map (d : List (String × Value)) :
    sortedFields d = d.map fun f => (f.1, f.2.sorted) := by
  induction d with
  | nil => rfl
  | cons f d ih => rw [sortedFields, ih, List.map_cons]

/-- Sorting fields commutes with what keeps their keys. -/
theorem sortFields_map {α β : Type} (g : α → String × β) (key : α → String)
    (h : ∀ a, (g a).1 = key a) (l : List α) :
    sortFields (l.map g) = (l.insertionSort fun a b => key a ≤ key b).map g := by
  rw [sortFields, List.map_insertionSort (fun a b => key a ≤ key b) (fun f f' => f.1 ≤ f'.1) g l]
  intro a _ b _
  rw [h, h]

theorem mem_sortFields {α : Type} {f : String × α} {d : List (String × α)} :
    f ∈ sortFields d ↔ f ∈ d := List.mem_insertionSort _

/-- Sorted fields are sorted. -/
theorem sortFields_sortFields {α : Type} (d : List (String × α)) :
    sortFields (sortFields d) = sortFields d := by
  have htotal : Std.Total fun f g : String × α => f.1 ≤ g.1 := ⟨fun f g => le_total f.1 g.1⟩
  have htrans : IsTrans (String × α) fun f g => f.1 ≤ g.1 := ⟨fun _ _ _ => le_trans⟩
  exact List.Pairwise.insertionSort_eq (List.pairwise_insertionSort _ _)

/-! ### Texts that exist -/

/-- A number of at most `k` digits has at most `k` characters. -/
theorem length_natText_le {n k : ℕ} (hk : 0 < k) (h : n < 10 ^ k) : (natText n).length ≤ k :=
  (Nat.length_toDigits_le_iff (by decide) hk).mpr h

theorem intText_natCast (n : ℕ) : intText n = natText n := by
  rw [intText, if_neg (by omega), Int.natAbs_natCast]

/-- A number of at most twenty digits is written in decimal. -/
theorem dumps_natCast {n : ℕ} (h : n < 10 ^ 20) : dumps (.int n) = some (natText n) := by
  have hlen := length_natText_le (by decide) h
  rw [dumps, Int.natAbs_natCast, if_pos (hlen.trans (by decide)), intText_natCast]

/-- A list has a text when its items have. -/
theorem isSome_dumpsItems {l : List Value} :
    (dumpsItems l).isSome ↔ ∀ v ∈ l, (dumps v).isSome := by
  induction l with
  | nil => simp [dumpsItems]
  | cons v l ih =>
    cases h : dumps v with
    | none => simp [dumpsItems, h]
    | some t => simp [dumpsItems, h, ih]

/-- The fields of a dictionary have texts when its values have. -/
theorem isSome_dumpsFields {d : List (String × Value)} :
    (dumpsFields d).isSome ↔ ∀ f ∈ d, (dumps f.2).isSome := by
  induction d with
  | nil => simp [dumpsFields]
  | cons f d ih =>
    cases h : dumps f.2 with
    | none => simp [dumpsFields, h]
    | some t => simp [dumpsFields, h, ih]

@[simp]
theorem isSome_dumps_list {l : List Value} :
    (dumps (.list l)).isSome ↔ ∀ v ∈ l, (dumps v).isSome := by
  rw [dumps, Option.isSome_map, isSome_dumpsItems]

@[simp]
theorem isSome_dumps_dict {d : List (String × Value)} :
    (dumps (.dict d)).isSome ↔ ∀ f ∈ d, (dumps f.2).isSome := by
  rw [dumps, Option.isSome_map, isSome_dumpsFields]

@[simp]
theorem isSome_dumps_str (s : String) : (dumps (.str s)).isSome := rfl

@[simp]
theorem isSome_dumps_null : (dumps .null).isSome := rfl

theorem isSome_dumps_natCast {n : ℕ} (h : n < 10 ^ 20) : (dumps (.int n)).isSome := by
  rw [dumps_natCast h]; rfl

/-! ### The text does not depend on the order of fields -/

/-- The texts of fields, with the fields they belong to. -/
theorem dumpsFields_eq_some {d : List (String × Value)} {l : List (String × Text)} :
    dumpsFields d = some l ↔ ∃ z : List (String × Value × Text),
      d = z.map (fun p => (p.1, p.2.1)) ∧ l = z.map (fun p => (p.1, p.2.2)) ∧
        ∀ p ∈ z, dumps p.2.1 = some p.2.2 := by
  induction d generalizing l with
  | nil =>
    simp only [dumpsFields, Option.some.injEq]
    constructor
    · rintro rfl
      exact ⟨[], rfl, rfl, fun _ h => absurd h List.not_mem_nil⟩
    · rintro ⟨z, hz, rfl, -⟩
      rw [List.map_eq_nil_iff.mp hz.symm]
      rfl
  | cons f d ih =>
    obtain ⟨k, v⟩ := f
    simp only [dumpsFields, Option.bind_eq_some_iff, Option.map_eq_some_iff]
    constructor
    · rintro ⟨t, ht, l', hl', rfl⟩
      obtain ⟨z, rfl, rfl, hz⟩ := ih.mp hl'
      exact ⟨(k, v, t) :: z, rfl, rfl, List.forall_mem_cons.mpr ⟨ht, hz⟩⟩
    · rintro ⟨z, hz, rfl, hdumps⟩
      obtain ⟨⟨k', v', t⟩, z, rfl⟩ : ∃ p z', z = p :: z' :=
        List.exists_cons_of_ne_nil (by rintro rfl; cases hz)
      simp only [List.map_cons, List.cons.injEq, Prod.mk.injEq] at hz
      obtain ⟨⟨rfl, rfl⟩, rfl⟩ := hz
      obtain ⟨ht, hz⟩ := List.forall_mem_cons.mp hdumps
      exact ⟨t, ht, _, ih.mpr ⟨z, rfl, rfl, hz⟩, rfl⟩

theorem dumpsFields_sortFields {d : List (String × Value)} {l : List (String × Text)}
    (h : dumpsFields d = some l) : dumpsFields (sortFields d) = some (sortFields l) := by
  obtain ⟨z, rfl, rfl, hz⟩ := dumpsFields_eq_some.mp h
  rw [sortFields_map (fun p : String × Value × Text => (p.1, p.2.1)) Prod.fst fun _ => rfl,
    sortFields_map (fun p : String × Value × Text => (p.1, p.2.2)) Prod.fst fun _ => rfl]
  exact dumpsFields_eq_some.mpr ⟨_, rfl, rfl, fun p hp => hz p ((List.mem_insertionSort _).mp hp)⟩

mutual

theorem dumps_sorted_of_eq_some : ∀ {v : Value} {t : Text}, dumps v = some t →
    dumps v.sorted = some t
  | .list items, t, h => by
    obtain ⟨l, hl, rfl⟩ := Option.map_eq_some_iff.mp h
    simp only [Value.sorted, dumps, dumpsItems_sortedItems hl, Option.map_some]
  | .dict fields, t, h => by
    obtain ⟨l, hl, rfl⟩ := Option.map_eq_some_iff.mp h
    simp only [Value.sorted, dumps, dumpsFields_sortFields (dumpsFields_sortedFields hl),
      Option.map_some, sortFields_sortFields]
  | .null, _, h | .bool _, _, h | .int _, _, h | .float _, _, h | .nonfinite, _, h
  | .str _, _, h => h

theorem dumpsItems_sortedItems : ∀ {items : List Value} {l : List Text},
    dumpsItems items = some l → dumpsItems (Value.sortedItems items) = some l
  | [], _, h => h
  | v :: items, l, h => by
    obtain ⟨t, ht, h⟩ := Option.bind_eq_some_iff.mp h
    obtain ⟨l, hl, rfl⟩ := Option.map_eq_some_iff.mp h
    simp only [Value.sortedItems, dumpsItems, dumps_sorted_of_eq_some ht,
      dumpsItems_sortedItems hl, Option.bind_some, Option.map_some]

theorem dumpsFields_sortedFields : ∀ {fields : List (String × Value)} {l : List (String × Text)},
    dumpsFields fields = some l → dumpsFields (Value.sortedFields fields) = some l
  | [], _, h => h
  | (k, v) :: fields, l, h => by
    obtain ⟨t, ht, h⟩ := Option.bind_eq_some_iff.mp h
    obtain ⟨l, hl, rfl⟩ := Option.map_eq_some_iff.mp h
    simp only [Value.sortedFields, dumpsFields, dumps_sorted_of_eq_some ht,
      dumpsFields_sortedFields hl, Option.bind_some, Option.map_some]

end

mutual

theorem isSome_dumps_of_sorted : ∀ {v : Value}, (dumps v.sorted).isSome → (dumps v).isSome
  | .list _, h => isSome_dumps_list.mpr fun v hv =>
    isSome_dumps_of_sortedItems (isSome_dumps_list.mp h) v hv
  | .dict _, h => isSome_dumps_dict.mpr fun f hf =>
    isSome_dumps_of_sortedFields
      (fun g hg => isSome_dumps_dict.mp h g (mem_sortFields.mpr hg)) f hf
  | .null, h | .bool _, h | .int _, h | .float _, h | .nonfinite, h | .str _, h => h

theorem isSome_dumps_of_sortedItems : ∀ {items : List Value},
    (∀ v ∈ Value.sortedItems items, (dumps v).isSome) → ∀ v ∈ items, (dumps v).isSome
  | [], _ => fun v hv => absurd hv List.not_mem_nil
  | w :: items, h => by
    obtain ⟨hw, h⟩ := List.forall_mem_cons.mp h
    exact List.forall_mem_cons.mpr ⟨isSome_dumps_of_sorted hw, isSome_dumps_of_sortedItems h⟩

theorem isSome_dumps_of_sortedFields : ∀ {fields : List (String × Value)},
    (∀ f ∈ Value.sortedFields fields, (dumps f.2).isSome) → ∀ f ∈ fields, (dumps f.2).isSome
  | [], _ => fun f hf => absurd hf List.not_mem_nil
  | (k, w) :: fields, h => by
    obtain ⟨hw, h⟩ := List.forall_mem_cons.mp h
    exact List.forall_mem_cons.mpr ⟨isSome_dumps_of_sorted hw, isSome_dumps_of_sortedFields h⟩

end

/-- **The text of a value does not depend on the order of its fields.** -/
theorem dumps_sorted (v : Value) : dumps v.sorted = dumps v := by
  cases h : dumps v with
  | some t => exact dumps_sorted_of_eq_some h
  | none =>
    cases hs : dumps v.sorted with
    | none => rfl
    | some t =>
      have := isSome_dumps_of_sorted (v := v) (by rw [hs]; rfl)
      rw [h] at this
      cases this

/-! ### Dictionaries -/

/-- The value of a key. -/
def lookup (k : String) (fields : List (String × Value)) : Option Value :=
  (fields.find? fun f => f.1 = k).map Prod.snd

/-- The keys of a dictionary. -/
def keys (fields : List (String × Value)) : List String := fields.map Prod.fst

end Json
