import Mathlib.Data.List.TakeWhile

/-!
# The first separator

A list is cut at the first occurrence of a separator: `takeWhile` gives what stands before it
and `dropWhile` gives the rest. The cut undoes putting a separator between two lists, when the
first of them has none (`Partition.takeWhile_append`, `Partition.dropWhile_append`), and every
list that has a separator is of this form (`Partition.eq_of_mem`).

A separator may also have several elements (`Partition.cut`), and a list may be split at its
first few separators (`Partition.splitMax`).
-/

namespace Partition

variable {α : Type*} [DecidableEq α] {sep : α} {l l' r r' : List α}

theorem takeWhile_append (h : sep ∉ l) : (l ++ sep :: r).takeWhile (· ≠ sep) = l := by
  have hall : ∀ a ∈ l, decide (a ≠ sep) = true := by
    intro a ha
    rw [decide_eq_true_eq]
    rintro rfl
    exact h ha
  rw [List.takeWhile_append_of_pos hall, List.takeWhile_cons_of_neg (by simp), List.append_nil]

theorem dropWhile_append (h : sep ∉ l) : (l ++ sep :: r).dropWhile (· ≠ sep) = sep :: r := by
  have hall : ∀ a ∈ l, decide (a ≠ sep) = true := by
    intro a ha
    rw [decide_eq_true_eq]
    rintro rfl
    exact h ha
  rw [List.dropWhile_append_of_pos hall, List.dropWhile_cons_of_neg (by simp)]

theorem notMem_takeWhile : sep ∉ l.takeWhile (· ≠ sep) := by
  intro h
  simpa using List.mem_takeWhile_imp h

/-- A list with a separator, cut at the first one. -/
theorem eq_of_mem (h : sep ∈ l) :
    l = l.takeWhile (· ≠ sep) ++ sep :: (l.dropWhile (· ≠ sep)).drop 1 := by
  induction l with
  | nil => exact absurd h List.not_mem_nil
  | cons a l ih =>
    by_cases ha : a = sep
    · subst ha
      rw [List.takeWhile_cons_of_neg (by simp), List.dropWhile_cons_of_neg (by simp)]
      rfl
    · rw [List.takeWhile_cons_of_pos (by simpa using ha),
        List.dropWhile_cons_of_pos (by simpa using ha), List.cons_append]
      exact congrArg (a :: ·) (ih ((List.mem_cons.mp h).resolve_left (Ne.symm ha)))

/-- The cut is the only one whose first part has no separator. -/
theorem append_inj (h : sep ∉ l) (h' : sep ∉ l') (heq : l ++ sep :: r = l' ++ sep :: r') :
    l = l' ∧ r = r' := by
  have htake := takeWhile_append (r := r) h
  have hdrop := dropWhile_append (r := r) h
  rw [heq, takeWhile_append h'] at htake
  rw [heq, dropWhile_append h'] at hdrop
  exact ⟨htake.symm, (List.cons.inj hdrop).2.symm⟩

/-- A separator that a list has once is found where it stands. -/
theorem left_eq (hl : sep ∉ l) (hr : sep ∉ r) (h : l ++ sep :: r = l' ++ sep :: r') : l = l' := by
  have hcount := congrArg (List.count sep) h
  rw [List.count_append, List.count_append, List.count_cons_self, List.count_cons_self,
    List.count_eq_zero.mpr hl, List.count_eq_zero.mpr hr] at hcount
  have hl' : sep ∉ l' := List.count_eq_zero.mp (by omega)
  exact (append_inj hl hl' h).1

/-! ### Separators of several elements -/

/-- What stands before the first separator and what stands after it. -/
def cut (sep : List α) : List α → Option (List α × List α)
  | [] => none
  | a :: l =>
    if sep.isPrefixOf (a :: l) then some ([], (a :: l).drop sep.length)
    else (cut sep l).map fun parts => (a :: parts.1, parts.2)

/-- The parts between the separators, of which at most so many count. -/
def splitMax (sep : List α) : ℕ → List α → List (List α)
  | 0, l => [l]
  | n + 1, l => match cut sep l with
    | none => [l]
    | some (first, rest) => first :: splitMax sep n rest

/-- A separator is found where its first element stands for the first time. -/
theorem cut_append {sep' : List α} (h : sep ∉ l) :
    cut (sep :: sep') (l ++ (sep :: sep' ++ r)) = some (l, r) := by
  induction l with
  | nil =>
    have hfirst : (sep :: sep').isPrefixOf (sep :: (sep' ++ r)) = true :=
      List.isPrefixOf_iff_prefix.mpr (List.prefix_append (sep :: sep') r)
    rw [List.nil_append, List.cons_append, cut, if_pos hfirst]
    simp
  | cons a l ih =>
    obtain ⟨hne, hl⟩ := List.ne_and_not_mem_of_not_mem_cons h
    have hfirst : ¬(sep :: sep').isPrefixOf (a :: (l ++ (sep :: sep' ++ r))) = true := by
      simp [hne]
    rw [List.cons_append, cut, if_neg hfirst, ih hl]
    rfl

/-- A part without the first element of the separator is split off. -/
theorem splitMax_append {sep' : List α} (h : sep ∉ l) (n : ℕ) :
    splitMax (sep :: sep') (n + 1) (l ++ (sep :: sep' ++ r)) =
      l :: splitMax (sep :: sep') n r := by
  rw [splitMax, cut_append h]

end Partition
