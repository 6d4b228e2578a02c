import Mathlib.Data.List.Basic
import Mathlib.Data.Nat.Basic

/-!
# Segments that tile an interval

A file that is read from front to back splits into segments that follow one another.
`Tiles a l b` says that the segments of `l` fill the interval from `a` to `b` without gap or
overlap. What is said of one segment at a time then holds of the file: every position lies
in exactly one segment (`Palimpsest.Tiles.existsUnique`), and segments picked in order stay
in order (`Palimpsest.Tiles.pairwise`).
-/

namespace Palimpsest

/-- Some bytes in a row. -/
structure Segment where
  start : ℕ
  length : ℕ
  deriving DecidableEq

namespace Segment

/-- The position after the last one. -/
def stop (s : Segment) : ℕ := s.start + s.length

/-- Whether a position lies in the segment. -/
def Holds (s : Segment) (i : ℕ) : Prop := s.start ≤ i ∧ i < s.stop

/-- Whether a segment lies in another one. -/
def Within (s t : Segment) : Prop := t.start ≤ s.start ∧ s.stop ≤ t.stop

/-- Whether a segment ends before another one starts. -/
def Before (s t : Segment) : Prop := s.stop ≤ t.start

theorem Before.within {s s' t t' : Segment} (h : s.Before t) (hs : s'.Within s)
    (ht : t'.Within t) : s'.Before t' := le_trans hs.2 (le_trans h ht.1)

end Segment

/-- The segments fill the interval from `a` to `b`, in this order. -/
def Tiles : ℕ → List Segment → ℕ → Prop
  | a, [], b => a = b
  | a, s :: l, b => s.start = a ∧ Tiles s.stop l b

variable {a b c : ℕ} {l m : List Segment} {s : Segment}

theorem Tiles.append (h : Tiles a l b) (h' : Tiles b m c) : Tiles a (l ++ m) c := by
  induction l generalizing a with
  | nil =>
    obtain rfl : a = b := h
    exact h'
  | cons s l ih => exact ⟨h.1, ih h.2⟩

theorem Tiles.concat (h : Tiles a l b) (hs : s.start = b) : Tiles a (l ++ [s]) s.stop :=
  h.append ⟨hs, rfl⟩

theorem Tiles.le (h : Tiles a l b) : a ≤ b := by
  induction l generalizing a with
  | nil => exact le_of_eq h
  | cons s l ih =>
    have hrest := ih h.2
    have hstart := h.1
    unfold Segment.stop at hrest
    omega

theorem Tiles.bounds (h : Tiles a l b) (hs : s ∈ l) : a ≤ s.start ∧ s.stop ≤ b := by
  induction l generalizing a with
  | nil => cases hs
  | cons t l ih =>
    have hstart := h.1
    have hrest := h.2.le
    rcases List.mem_cons.mp hs with rfl | hmem
    · exact ⟨le_of_eq hstart.symm, hrest⟩
    · obtain ⟨hle, hge⟩ := ih h.2 hmem
      refine ⟨?_, hge⟩
      unfold Segment.stop at hle
      omega

/-- **Tiles stand in order**: each ends before the later ones start. -/
theorem Tiles.pairwise (h : Tiles a l b) : l.Pairwise Segment.Before := by
  induction l generalizing a with
  | nil => exact List.Pairwise.nil
  | cons s l ih => exact List.Pairwise.cons (fun t ht => (h.2.bounds ht).1) (ih h.2)

/-- **Tiles leave no gap and no overlap**: every position of the interval lies in exactly
one place of the list. -/
theorem Tiles.existsUnique (h : Tiles a l b) {i : ℕ} (hi : a ≤ i ∧ i < b) :
    ∃! k : ℕ, ∃ s : Segment, l[k]? = some s ∧ s.Holds i := by
  induction l generalizing a with
  | nil =>
    obtain rfl : a = b := h
    omega
  | cons s l ih =>
    by_cases hs : i < s.stop
    · refine ⟨0, ⟨s, rfl, le_trans (le_of_eq h.1) hi.1, hs⟩, fun k hk => ?_⟩
      obtain ⟨t, hget, hholds⟩ := hk
      cases k with
      | zero => rfl
      | succ k =>
        -- a later tile starts where this one has ended
        have hle := (h.2.bounds (List.mem_of_getElem? hget)).1
        exact absurd (le_trans hle hholds.1) (not_le.mpr hs)
    · obtain ⟨k, ⟨t, hget, hholds⟩, hunique⟩ := ih h.2 ⟨not_lt.mp hs, hi.2⟩
      refine ⟨k + 1, ⟨t, hget, hholds⟩, fun k' hk' => ?_⟩
      obtain ⟨t', hget', hholds'⟩ := hk'
      cases k' with
      | zero =>
        obtain rfl : s = t' := Option.some.inj hget'
        exact absurd hholds'.2 hs
      | succ k' => exact congrArg (· + 1) (hunique k' ⟨t', hget', hholds'⟩)

end Palimpsest
