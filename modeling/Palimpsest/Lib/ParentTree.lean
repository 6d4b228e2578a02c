import Mathlib.Data.List.Basic
import Mathlib.Data.Nat.Init
import Mathlib.Order.Basic
import Mathlib.Logic.Relation

/-!
# Rooted trees given by a parent map

A tree whose nodes know their parent and nothing else: one node, the root, has
no parent, and every walk upwards gets there. This is all that a table keyed by
file-system paths needs of its keys, so the file speaks of an arbitrary type of
nodes.

The walk itself is `ParentTree.walk`: the strict ancestors of a node, nearest
first, without the root. What the rest of a development uses of it is
`ParentTree.mem_walk`, which says that it lists exactly the nodes strictly above
(`ParentTree.Above`), and `ParentTree.walk_eq_cons`, along which an induction on
the walk goes.
-/

/-- A rooted tree, given by its parent map. The depth is only there to say that
every walk upwards ends. -/
class ParentTree (P : Type*) where
  /-- The one node without a parent. -/
  root : P
  /-- The node directly above, if there is one. -/
  parent : P → Option P
  /-- A bound on the length of the walk up to the root. -/
  depth : P → ℕ
  parent_root : parent root = none
  exists_parent : ∀ p, p ≠ root → ∃ q, parent p = some q
  depth_lt : ∀ p q, parent p = some q → depth q < depth p

namespace ParentTree

variable {P : Type*} [ParentTree P] {a b c p q : P}

attribute [simp] parent_root

/-! ### Being above -/

/-- `a` lies strictly above `p`: some walk upwards from `p` meets it. -/
def Above (a p : P) : Prop := Relation.TransGen (fun x y => parent y = some x) a p

/-- `a` lies above `p` or is `p`. -/
def AtOrAbove (a p : P) : Prop := a = p ∨ Above a p

theorem AtOrAbove.refl (p : P) : AtOrAbove p p := Or.inl rfl

theorem Above.atOrAbove (h : Above a p) : AtOrAbove a p := Or.inr h

theorem above_of_parent (h : parent p = some a) : Above a p := Relation.TransGen.single h

theorem Above.trans (h : Above a b) (h' : Above b c) : Above a c := Relation.TransGen.trans h h'

theorem AtOrAbove.trans_above (h : AtOrAbove a b) (h' : Above b c) : Above a c := by
  rcases h with rfl | h
  · exact h'
  · exact h.trans h'

theorem Above.trans_atOrAbove (h : Above a b) (h' : AtOrAbove b c) : Above a c := by
  rcases h' with rfl | h'
  · exact h
  · exact h.trans h'

theorem AtOrAbove.trans (h : AtOrAbove a b) (h' : AtOrAbove b c) : AtOrAbove a c := by
  rcases h with rfl | h
  · exact h'
  · exact (h.trans_atOrAbove h').atOrAbove

/-- **What is above a node is its parent or above its parent.** -/
theorem above_iff (h : parent p = some q) : Above a p ↔ AtOrAbove a q := by
  rw [Above, Relation.TransGen.tail'_iff]
  constructor
  · rintro ⟨r, har, hr⟩
    obtain rfl : r = q := by simpa [h] using hr.symm
    rcases Relation.reflTransGen_iff_eq_or_transGen.mp har with rfl | har
    · exact AtOrAbove.refl _
    · exact Or.inr har
  · rintro (rfl | haq)
    · exact ⟨a, Relation.ReflTransGen.refl, h⟩
    · exact ⟨q, Relation.TransGen.to_reflTransGen haq, h⟩

theorem not_above_root (a : P) : ¬Above a (root : P) := by
  intro h
  obtain ⟨q, -, hq⟩ := Relation.TransGen.tail'_iff.mp h
  simp at hq

theorem depth_lt_of_above (h : Above a p) : depth a < depth p := by
  induction h with
  | single h => exact depth_lt _ _ h
  | tail _ h ih => exact Nat.lt_trans ih (depth_lt _ _ h)

theorem Above.ne (h : Above a p) : a ≠ p := by
  rintro rfl
  exact Nat.lt_irrefl _ (depth_lt_of_above h)

theorem not_above_self (p : P) : ¬Above p p := fun h => h.ne rfl

theorem Above.not_atOrAbove (h : Above a p) : ¬AtOrAbove p a := by
  rintro (rfl | h')
  · exact not_above_self _ h
  · exact not_above_self _ (h.trans h')

/-- An induction that walks upwards from a node to the root. -/
theorem walk_induction {motive : P → Prop} (root : motive root)
    (step : ∀ p q, parent p = some q → motive q → motive p) (p : P) : motive p := by
  induction h : depth p using Nat.strongRecOn generalizing p with
  | ind n ih =>
    by_cases hp : p = ParentTree.root
    · rw [hp]
      exact root
    · obtain ⟨q, hq⟩ := exists_parent p hp
      exact step p q hq (ih _ (h ▸ depth_lt p q hq) q rfl)

/-- The root is above everything else. -/
theorem above_root (h : p ≠ root) : Above (root : P) p := by
  revert h
  induction p using walk_induction with
  | root => exact fun h => absurd rfl h
  | step p q hq ih =>
    intro _
    by_cases hqr : q = root
    · exact (above_iff hq).mpr (Or.inl hqr.symm)
    · exact (above_iff hq).mpr (ih hqr).atOrAbove

theorem atOrAbove_root (p : P) : AtOrAbove (root : P) p := by
  by_cases h : p = root
  · exact Or.inl h.symm
  · exact (above_root h).atOrAbove

theorem ne_root_of_above (h : Above a p) : p ≠ root := by
  rintro rfl
  exact not_above_root a h

/-- Two nodes above a third are comparable. -/
theorem AtOrAbove.total (ha : AtOrAbove a p) (hb : AtOrAbove b p) :
    AtOrAbove a b ∨ Above b a := by
  induction p using walk_induction with
  | root =>
    have hroot : ∀ {x : P}, AtOrAbove x root → x = root := fun h =>
      h.resolve_right (not_above_root _)
    exact Or.inl (Or.inl ((hroot ha).trans (hroot hb).symm))
  | step p q hq ih =>
    rcases ha with rfl | ha
    · rcases hb with rfl | hb
      · exact Or.inl (AtOrAbove.refl _)
      · exact Or.inr hb
    · rcases hb with rfl | hb
      · exact Or.inl ha.atOrAbove
      · exact ih ((above_iff hq).mp ha) ((above_iff hq).mp hb)

/-! ### The walk upwards -/

variable [DecidableEq P]

/-- The walk upwards from an optional node, stopping at the root. -/
def walkFrom : ℕ → Option P → List P
  | 0, _ => []
  | _ + 1, none => []
  | n + 1, some q => if q = root then [] else q :: walkFrom n (parent q)

/-- The strict ancestors of a node, nearest first, without the root. -/
def walk (p : P) : List P := walkFrom (depth p) (parent p)

/-- Enough fuel is enough. -/
theorem walkFrom_congr {n m : ℕ} {o : Option P} (hn : ∀ q, o = some q → depth q < n)
    (hm : ∀ q, o = some q → depth q < m) : walkFrom n o = walkFrom m o := by
  induction n generalizing m o with
  | zero =>
    rcases o with _ | q
    · cases m <;> rfl
    · exact absurd (hn q rfl) (by omega)
  | succ n ih =>
    rcases o with _ | q
    · cases m <;> rfl
    · obtain ⟨k, rfl⟩ : ∃ k, m = k + 1 := ⟨m - 1, by have := hm q rfl; omega⟩
      have hqn := hn q rfl
      have hqk := hm q rfl
      rw [walkFrom, walkFrom]
      refine if_congr Iff.rfl rfl (congrArg _ (ih ?_ ?_))
      · exact fun r hr => by have := depth_lt q r hr; omega
      · exact fun r hr => by have := depth_lt q r hr; omega

theorem walk_root : walk (root : P) = [] := by
  rw [walk, parent_root]
  cases depth (root : P) <;> rfl

theorem walk_eq_nil (h : parent p = some root) : walk p = [] := by
  rw [walk, h]
  cases depth p
  · rfl
  · exact if_pos rfl

theorem walk_eq_cons (h : parent p = some q) (hq : q ≠ root) : walk p = q :: walk q := by
  have hlt := depth_lt p q h
  obtain ⟨n, hn⟩ : ∃ n, depth p = n + 1 := ⟨depth p - 1, by omega⟩
  rw [walk, h, hn, walkFrom, if_neg hq]
  refine congrArg _ (walkFrom_congr ?_ ?_)
  · exact fun r hr => by have := depth_lt q r hr; omega
  · exact fun r hr => depth_lt q r hr

/-- **The walk lists exactly the nodes strictly above, the root left out.** -/
theorem mem_walk : a ∈ walk p ↔ a ≠ root ∧ Above a p := by
  induction p using walk_induction with
  | root => simp [walk_root, not_above_root]
  | step p q hq ih =>
    rw [above_iff hq]
    by_cases hqr : q = root
    · rw [hqr] at hq
      rw [walk_eq_nil hq, hqr, AtOrAbove]
      simp only [List.not_mem_nil, false_iff, not_and, not_or]
      exact fun ha => ⟨ha, not_above_root a⟩
    · rw [walk_eq_cons hq hqr, List.mem_cons, ih, AtOrAbove]
      constructor
      · rintro (rfl | ⟨ha, hab⟩)
        · exact ⟨hqr, Or.inl rfl⟩
        · exact ⟨ha, Or.inr hab⟩
      · rintro ⟨ha, rfl | hab⟩
        · exact Or.inl rfl
        · exact Or.inr ⟨ha, hab⟩

/-- Being above is decided by the walk. -/
instance : DecidableRel (Above : P → P → Prop) := fun a p =>
  decidable_of_iff (a ∈ walk p ∨ a = root ∧ p ≠ root) (by
    rw [mem_walk]
    constructor
    · rintro (⟨-, h⟩ | ⟨rfl, h⟩)
      · exact h
      · exact above_root h
    · intro h
      by_cases ha : a = root
      · exact Or.inr ⟨ha, ne_root_of_above h⟩
      · exact Or.inl ⟨ha, h⟩)

instance : DecidableRel (AtOrAbove : P → P → Prop) := fun a p =>
  inferInstanceAs (Decidable (a = p ∨ Above a p))

end ParentTree
