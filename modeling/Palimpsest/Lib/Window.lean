import Mathlib.Data.List.Range
import Mathlib.Logic.Function.Basic

/-!
# Windows on an array

A queue kept in a fixed array: what is stored is the part of the array between an offset
and a fill mark. Bytes leave at the offset, bytes come in at the mark, and the stored part
is moved to the front when room is needed.

The three operations are stated by what they do to the stored list, so that nothing else
need look at the array: `Window.contents_advance` (taking from the front),
`Window.contents_compact` (moving to the front, by the ascending copy loop that is safe
although source and target overlap) and `Window.contents_grow_fill` (appending).
-/

namespace Palimpsest

variable {α : Type}

/-! ### Slices of an array -/

/-- The `length` entries of an array from `start` on. -/
def slice (bytes : ℕ → α) (start length : ℕ) : List α :=
  (List.range length).map fun i => bytes (start + i)

@[simp]
theorem length_slice (bytes : ℕ → α) (start length : ℕ) :
    (slice bytes start length).length = length := by
  simp [slice]

@[simp]
theorem slice_zero (bytes : ℕ → α) (start : ℕ) : slice bytes start 0 = [] := rfl

theorem slice_add (bytes : ℕ → α) (start m n : ℕ) :
    slice bytes start (m + n) = slice bytes start m ++ slice bytes (start + m) n := by
  simp [slice, List.range_add, Nat.add_assoc, Function.comp_def]

/-- A slice depends on the entries it covers only. -/
theorem slice_congr {bytes other : ℕ → α} {start start' length : ℕ}
    (h : ∀ i < length, bytes (start + i) = other (start' + i)) :
    slice bytes start length = slice other start' length :=
  List.map_congr_left fun i hi => h i (List.mem_range.mp hi)

theorem slice_take (bytes : ℕ → α) (start : ℕ) {m n : ℕ} (h : m ≤ n) :
    (slice bytes start n).take m = slice bytes start m := by
  obtain ⟨k, rfl⟩ := Nat.exists_eq_add_of_le h
  rw [slice_add, List.take_left' (length_slice ..)]

/-! ### Moving down -/

/-- The copy loop: entry `i` becomes entry `offset + i`, for `i` from `0` up to `count`. -/
def copyDown (bytes : ℕ → α) (offset : ℕ) : ℕ → ℕ → α
  | 0 => bytes
  | count + 1 =>
    let moved := copyDown bytes offset count
    Function.update moved count (moved (offset + count))

/-- The loop leaves alone what it has not reached yet, so what it still has to read is
untouched. -/
theorem copyDown_of_le (bytes : ℕ → α) (offset : ℕ) {count j : ℕ} (h : count ≤ j) :
    copyDown bytes offset count j = bytes j := by
  induction count with
  | zero => rfl
  | succ count ih =>
    rw [copyDown, Function.update_of_ne (by omega)]
    exact ih (by omega)

theorem copyDown_of_lt (bytes : ℕ → α) (offset : ℕ) {count j : ℕ} (h : j < count) :
    copyDown bytes offset count j = bytes (offset + j) := by
  induction count with
  | zero => exact absurd h (Nat.not_lt_zero j)
  | succ count ih =>
    rw [copyDown]
    rcases Nat.lt_succ_iff_lt_or_eq.mp h with hlt | rfl
    · rw [Function.update_of_ne (by omega)]
      exact ih hlt
    · -- the entry read lies at or above the one written, so no earlier step changed it
      rw [Function.update_self, copyDown_of_le bytes offset (by omega)]

/-! ### The window -/

/-- The part of an array between an offset and a fill mark. -/
structure Window (α : Type) where
  bytes : ℕ → α
  offset : ℕ
  used : ℕ

namespace Window

/-- What is stored. -/
def contents (w : Window α) : List α := slice w.bytes w.offset (w.used - w.offset)

@[simp]
theorem length_contents (w : Window α) : w.contents.length = w.used - w.offset :=
  length_slice ..

theorem contents_eq_nil_iff (w : Window α) : w.contents = [] ↔ w.used ≤ w.offset := by
  rw [← List.length_eq_zero_iff, length_contents, Nat.sub_eq_zero_iff_le]

/-- Take `count` entries from the front; an empty window goes back to the start of the
array. -/
def advance (w : Window α) (count : ℕ) : Window α :=
  if w.offset + count = w.used then { w with offset := 0, used := 0 }
  else { w with offset := w.offset + count }

theorem contents_advance (w : Window α) {count : ℕ} (h : w.offset + count ≤ w.used) :
    slice w.bytes w.offset count ++ (w.advance count).contents = w.contents := by
  have hsplit : w.used - w.offset = count + (w.used - (w.offset + count)) := by omega
  rw [contents, contents, hsplit, slice_add, advance]
  split
  · next heq => simp [heq]
  · rfl

theorem advance_le (w : Window α) {count : ℕ} (h : w.offset + count ≤ w.used) :
    (w.advance count).offset ≤ (w.advance count).used ∧ (w.advance count).used ≤ w.used := by
  rw [advance]
  split
  · exact ⟨le_rfl, Nat.zero_le _⟩
  · exact ⟨h, le_rfl⟩

/-- Move what is stored to the start of the array. -/
def compact (w : Window α) : Window α :=
  if w.offset = 0 then w
  else
    let remaining := w.used - w.offset
    { bytes := copyDown w.bytes w.offset remaining, offset := 0, used := remaining }

@[simp]
theorem compact_offset (w : Window α) : w.compact.offset = 0 := by
  rw [compact]
  split
  · assumption
  · rfl

theorem compact_used (w : Window α) : w.compact.used = w.used - w.offset := by
  rw [compact]
  split
  · next h => rw [h, Nat.sub_zero]
  · rfl

@[simp]
theorem contents_compact (w : Window α) : w.compact.contents = w.contents := by
  rw [contents, compact_offset, compact_used, contents, Nat.sub_zero]
  refine slice_congr fun i hi => ?_
  rw [compact, Nat.zero_add]
  split
  · next h => rw [h, Nat.zero_add]
  · exact copyDown_of_lt w.bytes w.offset hi

/-- The array after a callback was given `capacity` entries from the fill mark on to write
into. -/
def fill (w : Window α) (capacity : ℕ) (image : ℕ → α) : Window α :=
  { w with
    bytes := fun j => if w.used ≤ j ∧ j < w.used + capacity then image (j - w.used) else w.bytes j }

@[simp]
theorem fill_offset (w : Window α) (capacity : ℕ) (image : ℕ → α) :
    (w.fill capacity image).offset = w.offset := rfl

@[simp]
theorem fill_used (w : Window α) (capacity : ℕ) (image : ℕ → α) :
    (w.fill capacity image).used = w.used := rfl

/-- Nothing stored is above the fill mark. -/
@[simp]
theorem contents_fill (w : Window α) (capacity : ℕ) (image : ℕ → α) :
    (w.fill capacity image).contents = w.contents := by
  refine slice_congr fun i hi => ?_
  simp only [fill] at hi ⊢
  rw [if_neg (by omega)]

/-- Raise the fill mark over `count` entries. -/
def grow (w : Window α) (count : ℕ) : Window α := { w with used := w.used + count }

/-- Entries that a callback wrote and the mark was raised over are stored last. -/
theorem contents_grow_fill (w : Window α) {capacity count : ℕ} (image : ℕ → α)
    (hle : w.offset ≤ w.used) (h : count ≤ capacity) :
    ((w.fill capacity image).grow count).contents = w.contents ++ slice image 0 count := by
  have hsplit : w.used + count - w.offset = (w.used - w.offset) + count := by omega
  have hmark : w.offset + (w.used - w.offset) = w.used := by omega
  have hnew : slice (w.fill capacity image).bytes w.used count = slice image 0 count := by
    refine slice_congr fun i hi => ?_
    simp only [fill]
    rw [if_pos (by omega), Nat.add_sub_cancel_left, Nat.zero_add]
  calc ((w.fill capacity image).grow count).contents
      = slice (w.fill capacity image).bytes w.offset (w.used - w.offset + count) := by
        rw [← hsplit]
        rfl
    _ = (w.fill capacity image).contents ++ slice (w.fill capacity image).bytes w.used count := by
        rw [slice_add, hmark]
        rfl
    _ = w.contents ++ slice image 0 count := by rw [contents_fill, hnew]

end Window

end Palimpsest
