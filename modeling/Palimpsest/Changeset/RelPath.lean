import Mathlib.Data.Char
import Mathlib.Data.List.Lex
import Mathlib.Order.Lattice
import Palimpsest.Lib.ParentTree
import Palimpsest.Lib.PosixPath

/-!
# The keys of a changeset table

The reducer keys its table by archive paths and moves between them with
`_parent` only. The walk `while parent not in {None, "."}` ends for a relative
path and runs forever for an absolute one
(`Palimpsest.parentText_isAbs`), so the keys that a table can ever hold are the
nonempty relative paths: the type `Palimpsest.RelPath`, on which `_parent` is the
parent map of a tree rooted at `"."`.
-/

namespace Palimpsest

open PosixPath

/-- A nonempty relative path: a key that a changeset table can hold. -/
structure RelPath where
  /-- The path as the archive spells it. -/
  text : Text
  ne_nil : text ≠ []
  rel : isAbs text = false
  deriving DecidableEq

namespace RelPath

theorem ext_text {p q : RelPath} (h : p.text = q.text) : p = q := by
  cases p
  cases q
  congr

/-- The archive root, `"."`. -/
def dot : RelPath := ⟨['.'], by decide, by decide⟩

/-- Reads a text as a table key; absolute and empty texts are none. -/
def ofText? (t : Text) : Option RelPath :=
  if h : t ≠ [] ∧ isAbs t = false then some ⟨t, h.1, h.2⟩ else none

theorem text_of_ofText? {t : Text} {p : RelPath} (h : ofText? t = some p) : p.text = t := by
  rw [ofText?] at h
  split at h
  · simp only [Option.some.injEq] at h
    rw [← h]
  · cases h

/-- `os.path.dirname(path) or "."`, as a table key. -/
def dirnameOrDot (p : RelPath) : RelPath :=
  if h : dirname p.text ≠ [] then ⟨dirname p.text, h, isAbs_dirname_eq_false p.rel⟩ else dot

/-- `_parent`: the directory a path lies in, none for the archive root. -/
def parent (p : RelPath) : Option RelPath := if p = dot then none else some p.dirnameOrDot

theorem length_pos (p : RelPath) : 0 < p.text.length := List.length_pos_of_ne_nil p.ne_nil

instance : ParentTree RelPath where
  root := dot
  parent := parent
  depth p := if p = dot then 0 else p.text.length
  parent_root := if_pos rfl
  exists_parent p h := ⟨_, if_neg h⟩
  depth_lt p q h := by
    rw [parent] at h
    split at h
    · cases h
    · rename_i hp
      simp only [Option.some.injEq] at h
      rw [if_neg hp]
      split
      · exact p.length_pos
      · rename_i hq
        rw [← h, dirnameOrDot] at hq ⊢
        split
        · exact length_dirname_lt p.ne_nil p.rel
        · rename_i hd
          exact absurd (dif_neg hd) hq

theorem root_eq : (ParentTree.root : RelPath) = dot := rfl

theorem parent_eq (p : RelPath) : ParentTree.parent p = parent p := rfl

theorem not_above_dot (p : RelPath) : ¬ParentTree.Above p dot := ParentTree.not_above_root p

theorem dot_not_mem_walk (p : RelPath) : dot ∉ ParentTree.walk p := fun h =>
  (ParentTree.mem_walk.mp h).1 rfl

/-- Paths are sorted as Python sorts strings: by their code points. -/
instance : LinearOrder RelPath := LinearOrder.lift' text fun _ _ => ext_text

/-- A text sorts before its proper extensions. -/
theorem lt_append_of_ne_nil (l : Text) {r : Text} (hr : r ≠ []) : l < l ++ r := by
  induction l with
  | nil =>
    obtain ⟨c, r, rfl⟩ := List.exists_cons_of_ne_nil hr
    exact List.nil_lt_cons c r
  | cons c l ih => exact List.cons_lt_cons_iff.mpr (Or.inr ⟨rfl, ih⟩)

/-- A path sorts after the directory it lies in, the archive root apart. -/
theorem lt_of_parent {p q : RelPath} (h : parent p = some q) (hq : q ≠ dot) : q < p := by
  rw [parent] at h
  split at h
  · cases h
  · simp only [Option.some.injEq] at h
    rw [dirnameOrDot] at h
    split at h
    · subst h
      have hlen := length_dirname_lt p.ne_nil p.rel
      obtain ⟨r, hr⟩ := dirname_isPrefix p.text
      have hr' : r ≠ [] := by
        rintro rfl
        rw [List.append_nil] at hr
        exact absurd hlen (by rw [hr]; exact Nat.lt_irrefl _)
      have hlt := lt_append_of_ne_nil (dirname p.text) hr'
      rw [hr] at hlt
      exact hlt
    · exact absurd h.symm hq

end RelPath

end Palimpsest
