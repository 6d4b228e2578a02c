import Palimpsest.Lib.JsonWidth

/-!
# When one JSON text is no longer than another

`Json.NoLonger v w`: where `w` can be written so can `v`, and its text takes no more bytes. A
dictionary is no longer than another one whose fields are no longer one by one
(`Json.FieldsNoLonger`), in whatever order they stand; leaving a field out makes it no longer.
-/

namespace Json

/-- The text of `v` takes no more bytes than that of `w`. -/
def NoLonger (v w : Value) : Prop :=
  ∀ t, dumps w = some t → ∃ u, dumps v = some u ∧ byteLength u ≤ byteLength t

/-- The bytes of the fields of a dictionary, each with a comma. -/
def fieldsLength (l : List (String × Text)) : ℕ :=
  (l.map fun f => byteLength (fieldText f) + 1).sum

/-- The fields `d` together take no more bytes than the fields `e`. -/
def FieldsNoLonger (d e : List (String × Value)) : Prop :=
  ∀ l, dumpsFields e = some l → ∃ k, dumpsFields d = some k ∧ fieldsLength k ≤ fieldsLength l

variable {v w : Value} {d e d' e' : List (String × Value)} {f g : String × Value} {k : String}

theorem NoLonger.refl (v : Value) : NoLonger v v := fun t ht => ⟨t, ht, Nat.le_refl _⟩

theorem noLonger_str {s s' : String} (h : byteLength (quote s) ≤ byteLength (quote s')) :
    NoLonger (.str s) (.str s') := fun t ht => by
  obtain rfl := Option.some.inj ht
  exact ⟨quote s, rfl, h⟩

theorem fieldsLength_cons (f : String × Text) (l : List (String × Text)) :
    fieldsLength (f :: l) = byteLength (fieldText f) + 1 + fieldsLength l := by
  simp [fieldsLength]

theorem fieldsLength_perm {l l' : List (String × Text)} (h : l.Perm l') :
    fieldsLength l = fieldsLength l' :=
  (h.map _).sum_eq

theorem FieldsNoLonger.refl (d : List (String × Value)) : FieldsNoLonger d d :=
  fun l hl => ⟨l, hl, Nat.le_refl _⟩

theorem FieldsNoLonger.trans (h : FieldsNoLonger d e) (h' : FieldsNoLonger e e') :
    FieldsNoLonger d e' := fun l hl => by
  obtain ⟨m, hm, hle⟩ := h' l hl
  obtain ⟨k, hk, hle'⟩ := h m hm
  exact ⟨k, hk, Nat.le_trans hle' hle⟩

/-- A field after the other. -/
theorem fieldsNoLonger_cons (hv : NoLonger v w) (h : FieldsNoLonger d e) :
    FieldsNoLonger ((k, v) :: d) ((k, w) :: e) := fun l' hl' => by
  obtain ⟨t, ht, hrest⟩ := Option.bind_eq_some_iff.mp hl'
  obtain ⟨l, hl, rfl⟩ := Option.map_eq_some_iff.mp hrest
  obtain ⟨u, hu, hle⟩ := hv t ht
  obtain ⟨m, hm, hle'⟩ := h l hl
  refine ⟨(k, u) :: m, by rw [dumpsFields, hu, Option.bind_some, hm, Option.map_some], ?_⟩
  simp only [fieldsLength_cons, fieldText, byteLength_append, byteLength_cons]
  omega

/-- A field is left out. -/
theorem fieldsNoLonger_tail : FieldsNoLonger d (f :: d) := fun l' hl' => by
  obtain ⟨t, -, hrest⟩ := Option.bind_eq_some_iff.mp hl'
  obtain ⟨l, hl, rfl⟩ := Option.map_eq_some_iff.mp hrest
  refine ⟨l, hl, ?_⟩
  rw [fieldsLength_cons]
  omega

theorem fieldsNoLonger_swap : FieldsNoLonger (g :: f :: d) (f :: g :: d) := fun l' hl' => by
  obtain ⟨t, ht, hfirst⟩ := Option.bind_eq_some_iff.mp hl'
  obtain ⟨m, hm, rfl⟩ := Option.map_eq_some_iff.mp hfirst
  obtain ⟨u, hu, hsecond⟩ := Option.bind_eq_some_iff.mp hm
  obtain ⟨l, hl, rfl⟩ := Option.map_eq_some_iff.mp hsecond
  refine ⟨(g.1, u) :: (f.1, t) :: l, ?_, ?_⟩
  · rw [dumpsFields, hu, Option.bind_some, dumpsFields, ht, Option.bind_some, hl, Option.map_some,
      Option.map_some]
  · exact Nat.le_of_eq (fieldsLength_perm (List.Perm.swap ..))

theorem fieldsNoLonger_perm (h : d.Perm e) : FieldsNoLonger d e := by
  induction h with
  | nil => exact .refl _
  | cons f _ ih => exact fieldsNoLonger_cons (.refl _) ih
  | swap => exact fieldsNoLonger_swap
  | trans _ _ ih ih' => exact ih.trans ih'

theorem byteLength_commaJoin (l : List Text) :
    byteLength (commaJoin l) = (l.map fun t => byteLength t + 1).sum - 1 := by
  induction l with
  | nil => rfl
  | cons t l ih =>
    cases l with
    | nil => simp [commaJoin]
    | cons u l =>
      simp only [commaJoin, byteLength_append, byteLength_cons, List.map_cons, List.sum_cons,
        show ','.utf8Size = 1 from rfl] at ih ⊢
      omega

theorem byteLength_commaJoin_fields (l : List (String × Text)) :
    byteLength (commaJoin ((sortFields l).map fieldText)) = fieldsLength l - 1 := by
  rw [byteLength_commaJoin, List.map_map, fieldsLength, ← sum_sortFields l]
  rfl

/-- **A dictionary is no longer than another one whose fields are no longer.** -/
theorem noLonger_dict (h : FieldsNoLonger d e) : NoLonger (.dict d) (.dict e) := fun t ht => by
  obtain ⟨l, hl, rfl⟩ := Option.map_eq_some_iff.mp ht
  obtain ⟨m, hm, hle⟩ := h l hl
  refine ⟨_, by rw [dumps, hm, Option.map_some], ?_⟩
  simp only [byteLength_cons, byteLength_append, byteLength_commaJoin_fields]
  omega

/-- Nothing is no longer than a dictionary that has a field. -/
theorem noLonger_null_dict : NoLonger .null (.dict (f :: d)) := fun t ht => by
  obtain ⟨l', hl', rfl⟩ := Option.map_eq_some_iff.mp ht
  obtain ⟨t, -, hrest⟩ := Option.bind_eq_some_iff.mp hl'
  obtain ⟨l, -, rfl⟩ := Option.map_eq_some_iff.mp hrest
  refine ⟨"null".toList, rfl, ?_⟩
  simp only [byteLength_cons, byteLength_append, byteLength_commaJoin_fields, fieldsLength_cons,
    fieldText, quote, show byteLength "null".toList = 4 from rfl, show '"'.utf8Size = 1 from rfl,
    show ':'.utf8Size = 1 from rfl, show '\x7b'.utf8Size = 1 from rfl,
    show '\x7d'.utf8Size = 1 from rfl]
  omega

end Json
