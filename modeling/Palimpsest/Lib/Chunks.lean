import Mathlib.Data.List.Basic

/-!
# Reading in chunks

A reader that asks for a piece at a time, each time from where the last piece ended, puts
together an initial part of what it reads (`Palimpsest.flatten_isPrefix_of_consecutive`), also
when that grows in the meantime.
-/

namespace Palimpsest

variable {α : Type*}

/-- Reads, each with its offset, that follow one another from `start` on. -/
def Consecutive : ℕ → List (ℕ × List α) → Prop
  | _, [] => True
  | start, r :: rs => r.1 = start ∧ Consecutive (start + r.2.length) rs

theorem drop_isPrefix_drop {l m : List α} (h : l <+: m) (n : ℕ) : l.drop n <+: m.drop n := by
  obtain ⟨tail, rfl⟩ := h
  rw [List.drop_append]
  exact List.prefix_append ..

/-- One more piece follows where the others end. -/
theorem consecutive_concat {start : ℕ} {reads : List (ℕ × List α)} {r : ℕ × List α} :
    Consecutive start (reads ++ [r]) ↔ Consecutive start reads ∧
      r.1 = start + ((reads.map Prod.snd).flatten).length := by
  induction reads generalizing start with
  | nil => simp [Consecutive]
  | cons a reads ih =>
    rw [List.cons_append, Consecutive, ih, Consecutive, and_assoc, List.map_cons,
      List.flatten_cons, List.length_append, Nat.add_assoc]

/-- **Pieces read one after the other make up an initial part.** -/
theorem flatten_isPrefix_of_consecutive (data : List α) {start : ℕ} {reads : List (ℕ × List α)}
    (h : Consecutive start reads) (hreads : ∀ r ∈ reads, r.2 <+: data.drop r.1) :
    (reads.map Prod.snd).flatten <+: data.drop start := by
  induction reads generalizing start with
  | nil => exact List.nil_prefix
  | cons r reads ih =>
    obtain ⟨rfl, hrest⟩ := h
    obtain ⟨tail, htail⟩ := hreads r List.mem_cons_self
    have hnext := ih hrest fun d hd => hreads d (List.mem_cons_of_mem _ hd)
    have hdrop : data.drop (r.1 + r.2.length) = tail := by
      rw [← List.drop_drop, ← htail, List.drop_left]
    rw [hdrop] at hnext
    rw [List.map_cons, List.flatten_cons, ← htail]
    exact List.prefix_append_right_inj _ |>.mpr hnext

end Palimpsest
