import Palimpsest.Lib.JsonEq
import Palimpsest.Lib.JsonWidth

/-!
# Values that are their own canonical form

A value whose dictionaries have their fields in order, each key once, and the compact text of it
(`Json.Spells`). The text of a list and of a dictionary is put together from the texts of what is
in them (`Json.listText`, `Json.objText`), and is read back as the value it was written for
(`Json.Spells.loads_eq`).
-/

namespace Json

/-- The text of a list whose items have these texts. -/
def listText (l : List Text) : Text := '[' :: (commaJoin l ++ [']'])

/-- The text of a dictionary whose fields have these keys and texts. -/
def objText (l : List (String × Text)) : Text := '{' :: (commaJoin (l.map fieldText) ++ ['}'])

/-- The value has its fields in order, and this is its text. -/
structure Spells (v : Value) (t : Text) : Prop where
  sorted : v.sorted = v
  distinct : v.Distinct
  dumps_eq : dumps v = some t

variable {v : Value} {t : Text}

theorem spells_null : Spells .null "null".toList := ⟨rfl, trivial, rfl⟩

theorem spells_str (s : String) : Spells (.str s) (quote s) := ⟨rfl, trivial, rfl⟩

/-- A number that is not too long. -/
theorem spells_natCast {n : ℕ} (h : (natText n).length ≤ maxStrDigits) :
    Spells (.int n) (natText n) := by
  refine ⟨rfl, trivial, ?_⟩
  rw [dumps, Int.natAbs_natCast, if_pos h, intText_natCast]

theorem spells_items {vs : List Value} {ts : List Text} (h : List.Forall₂ Spells vs ts) :
    Value.sortedItems vs = vs ∧ Value.DistinctItems vs ∧ dumpsItems vs = some ts := by
  induction h with
  | nil => exact ⟨rfl, trivial, rfl⟩
  | cons hv _ ih =>
    obtain ⟨hsorted, hdistinct, hdumps⟩ := ih
    refine ⟨?_, ⟨hv.distinct, hdistinct⟩, ?_⟩
    · rw [Value.sortedItems, hv.sorted, hsorted]
    · rw [dumpsItems, hv.dumps_eq, hdumps]
      rfl

theorem spells_list {vs : List Value} {ts : List Text} (h : List.Forall₂ Spells vs ts) :
    Spells (.list vs) (listText ts) := by
  obtain ⟨hsorted, hdistinct, hdumps⟩ := spells_items h
  refine ⟨?_, hdistinct, ?_⟩
  · rw [Value.sorted, hsorted]
  · rw [dumps, hdumps]
    rfl

/-- Items that are written one by one. -/
theorem spells_map {α : Type} {f : α → Value} {g : α → Text} {l : List α}
    (h : ∀ a ∈ l, Spells (f a) (g a)) : Spells (.list (l.map f)) (listText (l.map g)) := by
  refine spells_list ?_
  rw [List.forall₂_map_left_iff, List.forall₂_map_right_iff, List.forall₂_same]
  exact h

/-- Strings that are written one by one. -/
theorem spells_strings (l : List String) :
    Spells (.list (l.map .str)) (listText (l.map quote)) :=
  spells_map fun s _ => spells_str s

/-- The key of a field, and a value with its text. -/
def SpellsField (f : String × Value) (g : String × Text) : Prop := f.1 = g.1 ∧ Spells f.2 g.2

theorem spells_fields {d : List (String × Value)} {l : List (String × Text)}
    (h : List.Forall₂ SpellsField d l) :
    Value.sortedFields d = d ∧ Value.DistinctFields d ∧ dumpsFields d = some l ∧
      keys d = l.map Prod.fst := by
  induction h with
  | nil => exact ⟨rfl, trivial, rfl, rfl⟩
  | @cons f g d l hf _ ih =>
    obtain ⟨k, v⟩ := f
    obtain ⟨k', t⟩ := g
    obtain ⟨rfl, hv⟩ := hf
    obtain ⟨hsorted, hdistinct, hdumps, hkeys⟩ := ih
    refine ⟨?_, ⟨hv.distinct, hdistinct⟩, ?_, ?_⟩
    · rw [Value.sortedFields, hv.sorted, hsorted]
    · rw [dumpsFields, hv.dumps_eq, hdumps]
      rfl
    · rw [keys, List.map_cons, List.map_cons, ← hkeys, keys]

/-- Fields in the order of their keys stay where they are. -/
theorem sortFields_of_pairwise {α : Type} {d : List (String × α)}
    (h : (d.map Prod.fst).Pairwise (· < ·)) : sortFields d = d :=
  List.Pairwise.insertionSort_eq ((List.pairwise_map.mp h).imp le_of_lt)

/-- **A dictionary with its keys in order** has the text of its fields. -/
theorem spells_dict {d : List (String × Value)} {l : List (String × Text)}
    (hkeys : (keys d).Pairwise (· < ·)) (h : List.Forall₂ SpellsField d l) :
    Spells (.dict d) (objText l) := by
  obtain ⟨hsorted, hdistinct, hdumps, heq⟩ := spells_fields h
  refine ⟨?_, ⟨hkeys.imp fun hlt heq => (heq ▸ hlt).ne rfl, hdistinct⟩, ?_⟩
  · rw [Value.sorted, hsorted, sortFields_of_pairwise hkeys]
  · rw [dumps, hdumps, Option.map_some, sortFields_of_pairwise (heq ▸ hkeys)]
    rfl

/-- **The value is read back from its text.** -/
theorem Spells.loads_eq (h : Spells v t) : loads t = .ok v := by
  rw [loads_dumps h.distinct h.dumps_eq, h.sorted]

theorem Spells.pyEq_self (h : Spells v t) : v.pyEq v = true := by
  have heq := pyEq_sorted_self h.distinct (by rw [h.dumps_eq]; rfl)
  rwa [h.sorted] at heq

/-! ### Fields in any order -/

/-- The text of a value, which has each of its keys once. -/
structure Writes (v : Value) (t : Text) : Prop where
  distinct : v.Distinct
  dumps_eq : dumps v = some t

theorem Spells.writes (h : Spells v t) : Writes v t := ⟨h.distinct, h.dumps_eq⟩

/-- The key of a field, and a value with its text. -/
def WritesField (f : String × Value) (g : String × Text) : Prop := f.1 = g.1 ∧ Writes f.2 g.2

theorem writes_fields {d : List (String × Value)} {l : List (String × Text)}
    (h : List.Forall₂ WritesField d l) :
    Value.DistinctFields d ∧ dumpsFields d = some l ∧ keys d = l.map Prod.fst := by
  induction h with
  | nil => exact ⟨trivial, rfl, rfl⟩
  | @cons f g d l hf _ ih =>
    obtain ⟨k, v⟩ := f
    obtain ⟨k', t⟩ := g
    obtain ⟨rfl, hv⟩ := hf
    obtain ⟨hdistinct, hdumps, hkeys⟩ := ih
    refine ⟨⟨hv.distinct, hdistinct⟩, ?_, ?_⟩
    · rw [dumpsFields, hv.dumps_eq, hdumps]
      rfl
    · rw [keys, List.map_cons, List.map_cons, ← hkeys, keys]

/-- A list in another order: where its items come from. -/
theorem perm_of_places {α : Type} {l m : List α} {n : ℕ} (places : List ℕ) (hn : l.length = n)
    (h : (List.range n).Perm places) (hm : places.filterMap (l[·]?) = m) : l.Perm m := by
  subst hn
  have hself : (List.range l.length).filterMap (l[·]?) = l := by
    clear h hm
    induction l with
    | nil => rfl
    | cons x l ih =>
      rw [List.length_cons, List.range_succ_eq_map, List.filterMap_cons, List.filterMap_map]
      exact congrArg (x :: ·) ih
  have hperm := h.filterMap (l[·]?)
  rwa [hself, hm] at hperm

/-- Fields in another order have the same texts, in that order. -/
theorem exists_dumpsFields_of_perm {d d' : List (String × Value)} (h : d.Perm d')
    {l : List (String × Text)} (hl : dumpsFields d' = some l) :
    ∃ m, dumpsFields d = some m ∧ m.Perm l := by
  obtain ⟨z, rfl, rfl, hz⟩ := dumpsFields_eq_some.mp hl
  obtain ⟨y, hy, rfl⟩ : ∃ y : List (String × Value × Text), y.Perm z ∧
      d = y.map fun p => (p.1, p.2.1) := by
    clear hl hz
    induction z generalizing d with
    | nil =>
      obtain rfl := List.perm_nil.mp h
      exact ⟨[], List.Perm.refl _, rfl⟩
    | cons p z ih =>
      have hmem := h.mem_iff.mpr List.mem_cons_self
      obtain ⟨a, b, rfl⟩ := List.append_of_mem hmem
      have hrest := List.perm_cons _ |>.mp (List.perm_middle.symm.trans h)
      obtain ⟨y, hy, heq⟩ := ih hrest
      obtain ⟨y₁, y₂, rfl, ha, hb⟩ := List.append_eq_map_iff.mp heq
      refine ⟨y₁ ++ p :: y₂, List.perm_middle.trans (hy.cons p), ?_⟩
      rw [List.map_append, List.map_cons, ha, hb]
  exact ⟨_, dumpsFields_eq_some.mpr ⟨y, rfl, rfl, fun p hp => hz p (hy.mem_iff.mp hp)⟩,
    hy.map _⟩

theorem sortFields_of_perm {α : Type} {l m : List (String × α)} (h : m.Perm l)
    (hl : (l.map Prod.fst).Pairwise (· < ·)) : sortFields m = l := by
  have hsorted : (sortFields m).Pairwise fun f g => f.1 ≤ g.1 :=
    List.pairwise_insertionSort _ m
  have hperm : (sortFields m).Perm l := (List.perm_insertionSort _ m).trans h
  have hle : l.Pairwise fun f g => f.1 ≤ g.1 := (List.pairwise_map.mp hl).imp le_of_lt
  refine hperm.eq_of_pairwise ?_ hsorted hle
  intro f g hf hg hfg hgf
  exact List.inj_on_of_nodup_map (hl.imp fun hlt => hlt.ne) (hperm.mem_iff.mp hf) hg
    (le_antisymm hfg hgf)

/-- **A dictionary with its fields in any order** has the text of its fields in order. -/
theorem writes_dict {d d' : List (String × Value)} {l : List (String × Text)}
    (hd' : List.Forall₂ WritesField d' l) (hkeys : (keys d').Pairwise (· < ·)) (h : d.Perm d') :
    Writes (.dict d) (objText l) := by
  obtain ⟨hdistinct, hdumps, heq⟩ := writes_fields hd'
  obtain ⟨m, hm, hperm⟩ := exists_dumpsFields_of_perm h hdumps
  have hnodup : (keys d).Nodup := (h.map Prod.fst).nodup_iff.mpr (hkeys.imp fun hlt => hlt.ne)
  have hvalues : ∀ {e : List (String × Value)},
      Value.DistinctFields e ↔ ∀ f ∈ e, Value.Distinct f.2 := by
    intro e
    induction e with
    | nil => exact iff_of_true trivial (List.forall_mem_nil _)
    | cons f e ih => rw [List.forall_mem_cons, ← ih, Value.DistinctFields]
  refine ⟨⟨hnodup, hvalues.mpr fun f hf => hvalues.mp hdistinct f (h.mem_iff.mp hf)⟩, ?_⟩
  rw [dumps, hm, Option.map_some, sortFields_of_perm hperm (heq ▸ hkeys)]
  rfl

theorem writes_field {k : String} {v : Value} {t : Text} {d : List (String × Value)}
    {l : List (String × Text)} (h : Writes v t) (hd : List.Forall₂ WritesField d l) :
    List.Forall₂ WritesField ((k, v) :: d) ((k, t) :: l) := .cons ⟨rfl, h⟩ hd

/-- A field with a string. -/
theorem writes_string {k : String} {d : List (String × Value)} {l : List (String × Text)}
    (s : String) (hd : List.Forall₂ WritesField d l) :
    List.Forall₂ WritesField ((k, .str s) :: d) ((k, quote s) :: l) :=
  writes_field (spells_str s).writes hd

/-! ### How long the texts are -/

/-- The bytes of a dictionary: those of its keys, of the texts of its values, and two more for each
field. -/
theorem byteLength_objText_le {l : List (String × Text)} (ks : List String) {n m : ℕ}
    (hkeys : l.map Prod.fst = ks) (hn : (ks.map fun k => byteLength (quote k)).sum ≤ n)
    (hm : (l.map fun f => byteLength f.2).sum ≤ m) :
    byteLength (objText l) ≤ n + m + 2 * ks.length + 2 := by
  have hjoin := byteLength_commaJoin_le (l.map fieldText)
  have hsum : ((l.map fieldText).map fun t => byteLength t + 1).sum =
      (l.map fun f => byteLength (quote f.1)).sum + (l.map fun f => byteLength f.2).sum +
        2 * l.length := by
    clear hjoin hkeys hm
    induction l with
    | nil => rfl
    | cons f l ih =>
      simp only [List.map_cons, List.sum_cons, ih, fieldText, byteLength_append, byteLength_cons,
        show ':'.utf8Size = 1 from rfl, List.length_cons]
      omega
  have hquotes : (l.map fun f => byteLength (quote f.1)).sum ≤ n := by
    rw [← hkeys, List.map_map] at hn
    exact hn
  have hlength : ks.length = l.length := by rw [← hkeys, List.length_map]
  simp only [objText, byteLength_cons, byteLength_append, byteLength_nil,
    show '\x7b'.utf8Size = 1 from rfl, show '\x7d'.utf8Size = 1 from rfl]
  omega

end Json
