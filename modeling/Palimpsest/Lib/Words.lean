import Mathlib.Data.List.TakeWhile

/-!
# Words of a list

A list cut into its words: the stretches without separators that are not empty
(`Palimpsest.words`). A scanner that skips separators and takes a word at a time finds the
same words (`Palimpsest.words_eq_match`).

Cutting at more separators cuts the words further (`Palimpsest.words_or`). Of the words with
some property, those without one of the additional separators are found either way
(`Palimpsest.sublist_words_or`), so that a word more or less is all that can tell the two
readings apart (`Palimpsest.words_or_eq_of_length`).
-/

namespace Palimpsest

variable {α : Type} (p q : α → Bool)

/-- The words of a list between the separators `p`. -/
def words (l : List α) : List (List α) := (l.splitOnP p).filter (· ≠ [])

variable {p q}

theorem ne_nil_of_mem_words {l w : List α} (h : w ∈ words p l) : w ≠ [] := by
  simpa using (List.mem_filter.mp h).2

/-- The words hold what is no separator, in order. -/
theorem flatten_words (l : List α) : (words p l).flatten = l.filter (!p ·) := by
  rw [words, List.flatten_filter_ne_nil]
  induction l with
  | nil => rfl
  | cons x l ih =>
    rw [List.splitOnP_cons_eq_if_modifyHead]
    by_cases hx : p x
    · simp [hx, ih]
    · obtain ⟨first, pieces, hp⟩ := List.exists_cons_of_ne_nil (List.splitOnP_ne_nil p l)
      rw [hp] at ih ⊢
      simp [hx, ← ih]

/-- What holds of the separators holds of the list when it holds in every word. -/
theorem forall_mem_words {P : α → Prop} (hsep : ∀ a, p a = true → P a) {l : List α} :
    (∀ w ∈ words p l, ∀ a ∈ w, P a) ↔ ∀ a ∈ l, P a := by
  have hmem : ∀ a, (∃ w ∈ words p l, a ∈ w) ↔ a ∈ l ∧ p a = false := by
    intro a
    rw [← List.mem_flatten, flatten_words, List.mem_filter, Bool.not_eq_true']
  constructor
  · intro h a ha
    by_cases hp : p a
    · exact hsep a hp
    · obtain ⟨w, hw, haw⟩ := (hmem a).mpr ⟨ha, Bool.eq_false_iff.mpr hp⟩
      exact h w hw a haw
  · intro h w hw a ha
    exact h a ((hmem a).mp ⟨w, hw, ha⟩).1

/-- A list without separators is a word, unless it is empty. -/
theorem words_eq_singleton {w : List α} (hw : w ≠ []) (h : ∀ a ∈ w, p a = false) :
    words p w = [w] := by
  simp [words, List.splitOnP_eq_singleton h, hw]

@[simp]
theorem words_nil : words p ([] : List α) = [] := by simp [words]

theorem words_cons_of_sep {x : α} (hx : p x = true) (l : List α) :
    words p (x :: l) = words p l := by
  simp [words, List.splitOnP_cons_eq_if_modifyHead, hx]

/-- Separators at the front are skipped. -/
theorem words_dropWhile (l : List α) : words p (l.dropWhile p) = words p l := by
  induction l with
  | nil => rfl
  | cons x l ih =>
    rw [List.dropWhile_cons]
    split
    · next hx => rw [ih, words_cons_of_sep hx]
    · rfl

/-- A word at the front is taken up to its separator. -/
theorem words_append {w l : List α} (hw : w ≠ []) (h : ∀ a ∈ w, p a = false)
    (hl : ∀ a ∈ l.head?, p a = true) : words p (w ++ l) = w :: words p l := by
  cases l with
  | nil => rw [List.append_nil, words_eq_singleton hw h, words_nil]
  | cons a l =>
    have ha : p a = true := hl a rfl
    rw [words, List.splitOnP_append_cons_of_forall_mem h a ha, words_cons_of_sep ha]
    exact List.filter_cons_of_pos (by simpa using hw)

/-- **The words are those that a scanner finds.** -/
theorem words_eq_match (l : List α) :
    words p l = match l.dropWhile p with
      | [] => []
      | x :: l' => (x :: l').takeWhile (!p ·) :: words p ((x :: l').dropWhile (!p ·)) := by
  rw [← words_dropWhile]
  cases hl : l.dropWhile p with
  | nil => rfl
  | cons x l' =>
    have hx : p x = false := by
      have hhead := List.head_dropWhile_not p (l := l) (by simp [hl])
      simpa [hl] using hhead
    have hword := words_append (p := p) (w := (x :: l').takeWhile (!p ·))
      (l := (x :: l').dropWhile (!p ·)) ?_ ?_ ?_
    · rwa [List.takeWhile_append_dropWhile] at hword
    · simp [hx]
    · intro a ha
      simpa using List.mem_takeWhile_imp ha
    · intro a ha
      have hhead := List.head?_dropWhile_not (!p ·) (x :: l')
      rw [Option.mem_def.mp ha] at hhead
      simpa using hhead

/-! ### More separators -/

/-- The words depend on the separators that the list has. -/
theorem words_congr {l : List α} (h : ∀ a ∈ l, p a = q a) : words p l = words q l := by
  have hsplit : l.splitOnP p = l.splitOnP q := by
    induction l with
    | nil => rfl
    | cons x l ih =>
      obtain ⟨hx, hl⟩ := List.forall_mem_cons.mp h
      rw [List.splitOnP_cons_eq_if_modifyHead, List.splitOnP_cons_eq_if_modifyHead, hx, ih hl]
  rw [words, hsplit, words]

theorem splitOnP_or (l : List α) :
    l.splitOnP (fun a => p a || q a) = (l.splitOnP p).flatMap (List.splitOnP q) := by
  induction l with
  | nil => rfl
  | cons x l ih =>
    obtain ⟨first, pieces, hp⟩ := List.exists_cons_of_ne_nil (List.splitOnP_ne_nil p l)
    rw [List.splitOnP_cons_eq_if_modifyHead, List.splitOnP_cons_eq_if_modifyHead, ih, hp]
    by_cases hpx : p x
    · simp [hpx]
    · by_cases hqx : q x
      · simp [hpx, hqx, List.splitOnP_cons_eq_if_modifyHead]
      · obtain ⟨first', pieces', hq⟩ := List.exists_cons_of_ne_nil (List.splitOnP_ne_nil q first)
        simp [hpx, hqx, List.splitOnP_cons_eq_if_modifyHead, hq]

/-- **Cutting at more separators cuts the words further.** -/
theorem words_or (l : List α) : words (fun a => p a || q a) l = (words p l).flatMap (words q) := by
  have hskip : ∀ ls : List (List α),
      (ls.filter (· ≠ [])).flatMap (words q) = ls.flatMap (words q) := by
    intro ls
    induction ls with
    | nil => rfl
    | cons w ls ih =>
      by_cases hw : w = []
      · simpa [hw] using ih
      · rw [List.filter_cons, if_pos (decide_eq_true hw), List.flatMap_cons, List.flatMap_cons, ih]
  rw [words, splitOnP_or, words, hskip, List.filter_flatMap]
  rfl

variable {P : List α → Bool}

/-- Words with a property that are found either way. -/
theorem sublist_words_or {l : List α}
    (h : ∀ w ∈ words p l, P w = true → ∀ a ∈ w, q a = false) :
    (words p l).filter P |>.Sublist ((words (fun a => p a || q a) l).filter P) := by
  rw [words_or, List.filter_flatMap]
  have hne : ∀ w ∈ words p l, w ≠ [] := fun w hw => ne_nil_of_mem_words hw
  generalize words p l = ls at h hne
  induction ls with
  | nil => exact List.Sublist.refl _
  | cons w ls ih =>
    obtain ⟨hw, hls⟩ := List.forall_mem_cons.mp h
    obtain ⟨hwne, hlsne⟩ := List.forall_mem_cons.mp hne
    rw [List.flatMap_cons]
    by_cases hP : P w
    · rw [List.filter_cons_of_pos hP, words_eq_singleton hwne (hw hP),
        List.filter_cons_of_pos hP]
      exact (ih hls hlsne).cons_cons w
    · rw [List.filter_cons_of_neg hP]
      exact (ih hls hlsne).trans (List.sublist_append_right ..)

/-- Without one word more or less the two readings have the same words. -/
theorem words_or_eq_of_length {l : List α}
    (h : ∀ w ∈ words p l, P w = true → ∀ a ∈ w, q a = false)
    (hlength : ((words p l).filter P).length =
      ((words (fun a => p a || q a) l).filter P).length) :
    (words p l).filter P = (words (fun a => p a || q a) l).filter P :=
  (sublist_words_or h).eq_of_length hlength

end Palimpsest
