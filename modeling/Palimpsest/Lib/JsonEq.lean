import Palimpsest.Lib.JsonLoads

/-!
# Equality of JSON values in Python

What `==` says of two values that `json.loads` built (`Json.Value.pyEq`): the order of the
fields of a dictionary is no part of it, and numbers are compared by what they denote, so that
`1`, `1.0` and `True` are the same. A value is equal to the value read back from its text
(`Json.pyEq_sorted_self`).
-/

namespace Json

/-! ### Looking up fields -/

theorem lookup_of_mem {d : List (String × Value)} (hd : (keys d).Nodup) {k : String} {v : Value}
    (h : (k, v) ∈ d) : lookup k d = some v := by
  induction d with
  | nil => cases h
  | cons f d ih =>
    obtain ⟨hnot, hd⟩ := List.nodup_cons.mp hd
    rw [lookup, List.find?_cons]
    rcases List.mem_cons.mp h with rfl | h
    · simp
    · have hne : f.1 ≠ k := fun heq => hnot (heq ▸ List.mem_map_of_mem (f := Prod.fst) h)
      rw [decide_eq_false hne]
      exact ih hd h

theorem mem_of_lookup {d : List (String × Value)} {k : String} {v : Value}
    (h : lookup k d = some v) : (k, v) ∈ d := by
  obtain ⟨f, hf, rfl⟩ := Option.map_eq_some_iff.mp h
  have hk := List.find?_some hf
  have hmem := List.mem_of_find?_eq_some hf
  obtain rfl : f.1 = k := of_decide_eq_true hk
  exact hmem

theorem lookup_eq_none_iff {d : List (String × Value)} {k : String} :
    lookup k d = none ↔ k ∉ keys d := by
  rw [lookup, Option.map_eq_none_iff, List.find?_eq_none]
  simp only [keys, List.mem_map, not_exists, not_and, decide_eq_true_eq]

theorem mem_sortedFields {d : List (String × Value)} {f : String × Value} :
    f ∈ Value.sortedFields d ↔ ∃ v, (f.1, v) ∈ d ∧ v.sorted = f.2 := by
  rw [Value.sortedFields_eq_map, List.mem_map]
  constructor
  · rintro ⟨g, hg, rfl⟩
    exact ⟨g.2, hg, rfl⟩
  · rintro ⟨v, hv, heq⟩
    exact ⟨(f.1, v), hv, by rw [heq]⟩

theorem perm_keys_sorted (d : List (String × Value)) :
    (keys (sortFields (Value.sortedFields d))).Perm (keys d) := by
  have hperm := (List.perm_insertionSort (fun f g : String × Value => f.1 ≤ g.1)
    (Value.sortedFields d)).map Prod.fst
  refine hperm.trans (List.Perm.of_eq ?_)
  rw [Value.sortedFields_eq_map, List.map_map]
  rfl

/-- **A field is looked up in a dictionary with its fields in order.** -/
theorem lookup_sorted {d : List (String × Value)} (hd : (keys d).Nodup) (k : String) :
    lookup k (sortFields (Value.sortedFields d)) = (lookup k d).map Value.sorted := by
  have hsorted : (keys (sortFields (Value.sortedFields d))).Nodup :=
    (perm_keys_sorted d).nodup_iff.mpr hd
  cases h : lookup k d with
  | none =>
    rw [Option.map_none, lookup_eq_none_iff, (perm_keys_sorted d).mem_iff]
    exact lookup_eq_none_iff.mp h
  | some v =>
    refine lookup_of_mem hsorted (mem_sortFields.mpr (mem_sortedFields.mpr ⟨v, ?_, rfl⟩))
    exact mem_of_lookup h

/-- `set(d) == names` -/
def hasKeys (d : List (String × Value)) (names : List String) : Bool :=
  (keys d).all (· ∈ names) && names.all (· ∈ keys d)

theorem hasKeys_sorted (d : List (String × Value)) (names : List String) :
    hasKeys (sortFields (Value.sortedFields d)) names = hasKeys d names := by
  have hmem := fun k => (perm_keys_sorted d).mem_iff (a := k)
  rw [Bool.eq_iff_iff]
  simp only [hasKeys, Bool.and_eq_true, List.all_eq_true, decide_eq_true_eq, hmem]

/-! ### Numbers -/

/-- The float is the integer. -/
def FloatRepr.eqInt (x : FloatRepr) (z : ℤ) : Bool :=
  match takeNumber x.1 with
  | none => false
  | some (k, _) =>
    let fraction := k.fraction.getD []
    let exponent : ℤ := match k.exponent with
      | none => 0
      | some (true, e) => -(digitsValue e : ℤ)
      | some (false, e) => digitsValue e
    let digits := digitsValue (k.whole ++ fraction)
    if digits = 0 then z = 0
    else
      match nearestDecimal digits (exponent - fraction.length) with
      | none => false
      | some x =>
        let (a, b) := scale 2 x.1 1 x.2
        z * b = if k.negative then -(a : ℤ) else a

/-- A value that is a number: an integer or a float. -/
def Value.number : Value → Option (ℤ ⊕ FloatRepr)
  | .bool b => some (.inl (if b then 1 else 0))
  | .int z => some (.inl z)
  | .float x => some (.inr x)
  | _ => none

/-- Numbers are compared by what they denote. -/
def numberEq : ℤ ⊕ FloatRepr → ℤ ⊕ FloatRepr → Bool
  | .inl a, .inl b => a = b
  | .inl a, .inr y => y.eqInt a
  | .inr x, .inl b => x.eqInt b
  | .inr x, .inr y => x = y || x.eqInt 0 && y.eqInt 0

/-! ### Equality -/

mutual

/-- `v == w` -/
def Value.pyEq : Value → Value → Bool
  | .null, .null => true
  | .str s, .str t => s = t
  | .list l, .list k => pyEqItems l k
  | .dict d, .dict e => d.length = e.length && pyEqFields d e
  | v, w =>
    match v.number, w.number with
    | some a, some b => numberEq a b
    | _, _ => false

def Value.pyEqItems : List Value → List Value → Bool
  | [], [] => true
  | v :: l, w :: k => v.pyEq w && pyEqItems l k
  | _, _ => false

/-- Every field of the first dictionary is one of the second. -/
def Value.pyEqFields : List (String × Value) → List (String × Value) → Bool
  | [], _ => true
  | (k, v) :: d, e =>
    (match lookup k e with
      | some w => v.pyEq w
      | none => false) && pyEqFields d e

end

theorem pyEqFields_iff {d e : List (String × Value)} :
    Value.pyEqFields d e ↔ ∀ f ∈ d, ∃ w, lookup f.1 e = some w ∧ f.2.pyEq w := by
  induction d with
  | nil => simp [Value.pyEqFields]
  | cons f d ih =>
    rw [Value.pyEqFields, Bool.and_eq_true, ih, List.forall_mem_cons]
    refine and_congr_left fun _ => ?_
    cases lookup f.1 e <;> simp

mutual

/-- **A value is equal to itself with its fields in order**, if it has a text and no
dictionary in it has a key twice. -/
theorem pyEq_sorted_self : ∀ {v : Value}, v.Distinct → (dumps v).isSome → v.sorted.pyEq v
  | .null, _, _ => rfl
  | .bool b, _, _ => by cases b <;> rfl
  | .int z, _, _ => by simp [Value.sorted, Value.pyEq, Value.number, numberEq]
  | .float x, _, _ => by simp [Value.sorted, Value.pyEq, Value.number, numberEq]
  | .nonfinite, _, ht => by cases ht
  | .str s, _, _ => by simp [Value.sorted, Value.pyEq]
  | .list items, hv, ht => pyEqItems_sorted_self hv (isSome_dumps_list.mp ht)
  | .dict fields, hv, ht => by
    have hfields := pyEq_sorted_fields hv.2 (isSome_dumps_dict.mp ht)
    have hlength : (sortFields (Value.sortedFields fields)).length = fields.length := by
      simpa [keys] using (perm_keys_sorted fields).length_eq
    simp only [Value.sorted, Value.pyEq, hlength, decide_true, Bool.true_and]
    refine pyEqFields_iff.mpr fun f hf => ?_
    obtain ⟨v, hv', heq⟩ := mem_sortedFields.mp (mem_sortFields.mp hf)
    exact ⟨v, lookup_of_mem hv.1 hv', heq ▸ hfields _ hv'⟩

theorem pyEqItems_sorted_self : ∀ {items : List Value}, Value.DistinctItems items →
    (∀ v ∈ items, (dumps v).isSome) → Value.pyEqItems (Value.sortedItems items) items
  | [], _, _ => rfl
  | v :: l, hv, ht => by
    obtain ⟨ht, hrest⟩ := List.forall_mem_cons.mp ht
    simp only [Value.sortedItems, Value.pyEqItems, Bool.and_eq_true]
    exact ⟨pyEq_sorted_self hv.1 ht, pyEqItems_sorted_self hv.2 hrest⟩

theorem pyEq_sorted_fields : ∀ {fields : List (String × Value)}, Value.DistinctFields fields →
    (∀ f ∈ fields, (dumps f.2).isSome) → ∀ f ∈ fields, f.2.sorted.pyEq f.2
  | [], _, _ => fun _ hf => absurd hf List.not_mem_nil
  | (_, _) :: _, hv, ht => by
    obtain ⟨ht, hrest⟩ := List.forall_mem_cons.mp ht
    exact List.forall_mem_cons.mpr ⟨pyEq_sorted_self hv.1 ht, pyEq_sorted_fields hv.2 hrest⟩

end

end Json
