import Mathlib.Data.List.Basic

/-!
# Lines

A text in which every line ends with a separator is read line by line: a scan hands each line
to a function that carries a state along (`Lines.scan`). On a terminated text it goes through
the pieces between the separators (`Lines.scan_eq_foldlM`), and where the function reads a line
on its own and then updates the state, the scan reads all the lines first
(`Lines.foldlM_eq_mapM`).
-/

namespace Lines

variable {α β σ ρ : Type*} [DecidableEq α] [DecidableEq β]

/-- Whether the text is empty or ends with the separator. -/
def Terminated (sep : α) (l : List α) : Prop := l = [] ∨ l.getLast? = some sep

/-- The lines of a terminated text. -/
def lines (sep : α) (l : List α) : List (List α) := if l = [] then [] else l.dropLast.splitOn sep

/-- The scan of a text, line by line. -/
def scan (sep : α) (f : List α → σ → Option σ) : List α → σ → Option σ
  | [], s => some s
  | a :: l, s =>
    let line := (a :: l).takeWhile (· ≠ sep)
    (f line s).bind (scan sep f ((a :: l).drop (line.length + 1)))
  termination_by l => l.length
  decreasing_by simp only [List.length_drop, List.length_cons]; omega

/-- A terminated text has a first line, and the rest is terminated. -/
theorem exists_line {sep : α} {l : List α} (h : Terminated sep l) (hne : l ≠ []) :
    ∃ line rest, l = line ++ sep :: rest ∧ sep ∉ line ∧ Terminated sep rest := by
  induction l with
  | nil => exact absurd rfl hne
  | cons a l ih =>
    have hlast : (a :: l).getLast? = some sep := h.resolve_left hne
    by_cases ha : a = sep
    · refine ⟨[], l, by rw [ha, List.nil_append], List.not_mem_nil, ?_⟩
      cases l with
      | nil => exact .inl rfl
      | cons b l => exact .inr (by rwa [List.getLast?_cons_cons] at hlast)
    · cases l with
      | nil => exact absurd (Option.some.inj hlast) ha
      | cons b l =>
        obtain ⟨line, rest, heq, hline, hrest⟩ :=
          ih (.inr (by rwa [List.getLast?_cons_cons] at hlast)) (List.cons_ne_nil b l)
        refine ⟨a :: line, rest, by rw [heq, List.cons_append], ?_, hrest⟩
        rintro (_ | ⟨_, hmem⟩)
        · exact ha rfl
        · exact hline hmem

/-- Induction over the lines of a terminated text. -/
theorem terminated_induction {sep : α} {motive : List α → Prop} (nil : motive [])
    (line : ∀ line rest, sep ∉ line → Terminated sep rest → motive rest →
      motive (line ++ sep :: rest)) {l : List α} (h : Terminated sep l) : motive l := by
  induction hn : l.length using Nat.strongRecOn generalizing l with
  | ind n ih =>
    by_cases hne : l = []
    · exact hne ▸ nil
    · obtain ⟨first, rest, rfl, hfirst, hrest⟩ := exists_line h hne
      refine line first rest hfirst hrest (ih rest.length ?_ hrest rfl)
      rw [← hn, List.length_append, List.length_cons]
      omega

theorem lines_append {sep : α} {line rest : List α} (hline : sep ∉ line) :
    lines sep (line ++ sep :: rest) = line :: lines sep rest := by
  have hne : line ++ sep :: rest ≠ [] := List.append_ne_nil_of_right_ne_nil _ (List.cons_ne_nil _ _)
  rw [lines, if_neg hne, List.dropLast_append_cons]
  cases rest with
  | nil => rw [List.dropLast_singleton, List.append_nil, List.splitOn_eq_singleton hline, lines,
      if_pos rfl]
  | cons b rest =>
    rw [List.dropLast_cons_cons, List.splitOn_append_cons_self_of_not_mem hline, lines,
      if_neg (List.cons_ne_nil b rest)]

theorem scan_append {sep : α} {f : List α → σ → Option σ} {line rest : List α}
    (hline : sep ∉ line) (s : σ) :
    scan sep f (line ++ sep :: rest) s = (f line s).bind (scan sep f rest) := by
  have hall : ∀ a ∈ line, decide (a ≠ sep) = true := by
    intro a ha
    rw [decide_eq_true_eq]
    rintro rfl
    exact hline ha
  have htake : (line ++ sep :: rest).takeWhile (· ≠ sep) = line := by
    rw [List.takeWhile_append_of_pos hall, List.takeWhile_cons_of_neg (by simp), List.append_nil]
  have hdrop : (line ++ sep :: rest).drop (line.length + 1) = rest := by
    rw [List.drop_append, List.drop_of_length_le (by omega), Nat.add_sub_cancel_left]
    rfl
  obtain ⟨a, l, hl⟩ := List.exists_cons_of_ne_nil
    (List.append_ne_nil_of_right_ne_nil line (List.cons_ne_nil sep rest))
  rw [hl] at htake hdrop ⊢
  rw [scan, htake, hdrop]

/-- **A scan goes through the lines.** -/
theorem scan_eq_foldlM {sep : α} {f : List α → σ → Option σ} {l : List α}
    (h : Terminated sep l) (s : σ) :
    scan sep f l s = (lines sep l).foldlM (fun s line => f line s) s := by
  revert s
  refine terminated_induction (motive := fun l => ∀ s,
    scan sep f l s = (lines sep l).foldlM (fun s line => f line s) s) ?_ ?_ h
  · intro s
    rw [scan, lines, if_pos rfl]
    rfl
  · intro line rest hline _ ih s
    rw [scan_append hline, lines_append hline, List.foldlM_cons]
    exact Option.bind_congr fun s' _ => ih s'

omit [DecidableEq α] in
/-- A fold that reads each element on its own reads them all first. -/
theorem foldlM_eq_mapM {f : σ → α → Option σ} {read : α → Option ρ} {update : σ → ρ → σ}
    {l : List α} (h : ∀ s, ∀ a ∈ l, f s a = (read a).map (update s)) (s : σ) :
    l.foldlM f s = (l.mapM read).map (List.foldl update s) := by
  induction l generalizing s with
  | nil => rfl
  | cons a l ih =>
    rw [List.foldlM_cons, List.mapM_cons, h s a List.mem_cons_self]
    have ih := ih fun s b hb => h s b (List.mem_cons_of_mem a hb)
    cases read a with
    | none => rfl
    | some r =>
      show l.foldlM f (update s r) = _
      rw [ih]
      cases l.mapM read with
      | none => rfl
      | some rs => rfl

omit [DecidableEq α] in
/-- Two functions that agree on the elements fold alike. -/
theorem foldlM_congr {f g : σ → α → Option σ} {l : List α} (h : ∀ s, ∀ a ∈ l, f s a = g s a)
    (s : σ) : l.foldlM f s = l.foldlM g s := by
  induction l generalizing s with
  | nil => rfl
  | cons a l ih =>
    rw [List.foldlM_cons, List.foldlM_cons, h s a List.mem_cons_self]
    exact Option.bind_congr fun s' _ => ih (fun s b hb => h s b (List.mem_cons_of_mem a hb)) s'

/-! ### Pieces -/

theorem length_splitOn (sep : α) (l : List α) : (l.splitOn sep).length = l.count sep + 1 := by
  induction l with
  | nil => rfl
  | cons a l ih =>
    rw [List.splitOn_cons_eq_if_modifyHead, List.count_cons]
    by_cases ha : a == sep
    · rw [if_pos ha, if_pos ha, List.length_cons, ih]
    · rw [if_neg ha, if_neg ha, List.length_modifyHead, ih, Nat.add_zero]

/-- The pieces are made of what was cut. -/
theorem subset_of_mem_splitOn {sep : α} {l piece : List α} (h : piece ∈ l.splitOn sep) :
    piece ⊆ l := by
  induction l generalizing piece with
  | nil => rw [List.splitOn_nil, List.mem_singleton] at h; exact h ▸ List.Subset.refl _
  | cons a l ih =>
    rw [List.splitOn_cons_eq_if_modifyHead] at h
    split_ifs at h with ha
    · rcases List.mem_cons.mp h with rfl | h
      · exact List.nil_subset _
      · exact List.subset_cons_of_subset a (ih h)
    · obtain ⟨first, pieces, hp⟩ := List.exists_cons_of_ne_nil (List.splitOn_ne_nil sep l)
      rw [hp, List.modifyHead_cons] at h
      rcases List.mem_cons.mp h with rfl | h
      · exact List.cons_subset_cons a (ih (hp ▸ List.mem_cons_self))
      · exact List.subset_cons_of_subset a (ih (hp ▸ List.mem_cons_of_mem first h))

/-- Whatever is not the separator is in some piece. -/
theorem mem_of_mem_splitOn (sep : α) {l : List α} {a : α} (h : a ∈ l) :
    a = sep ∨ ∃ piece ∈ l.splitOn sep, a ∈ piece := by
  induction l with
  | nil => cases h
  | cons b l ih =>
    obtain ⟨first, pieces, hp⟩ := List.exists_cons_of_ne_nil (List.splitOn_ne_nil sep l)
    rw [List.splitOn_cons_eq_if_modifyHead]
    rw [hp] at ih ⊢
    by_cases hb : b == sep
    · rw [if_pos hb]
      rcases List.mem_cons.mp h with rfl | h
      · exact Or.inl (eq_of_beq hb)
      · exact (ih h).imp_right fun ⟨piece, hpiece, ha⟩ =>
          ⟨piece, List.mem_cons_of_mem [] hpiece, ha⟩
    · rw [if_neg hb, List.modifyHead_cons]
      rcases List.mem_cons.mp h with rfl | h
      · exact Or.inr ⟨a :: first, List.mem_cons_self, List.mem_cons_self⟩
      · rcases ih h with ha | ⟨piece, hpiece, ha⟩
        · exact Or.inl ha
        · rcases List.mem_cons.mp hpiece with rfl | hpiece
          · exact Or.inr ⟨b :: piece, List.mem_cons_self, List.mem_cons_of_mem b ha⟩
          · exact Or.inr ⟨piece, List.mem_cons_of_mem (b :: first) hpiece, ha⟩

theorem subset_of_mem_lines {sep : α} {l line : List α} (h : line ∈ lines sep l) : line ⊆ l := by
  unfold lines at h
  split_ifs at h
  · cases h
  · exact List.Subset.trans (subset_of_mem_splitOn h) (List.dropLast_subset l)

/-! ### Other spellings of a text -/

/-- A function that tells the separator from every other element keeps the pieces apart. -/
theorem splitOn_map {sep : α} {g : α → β} {l : List α} (h : ∀ a ∈ l, g a = g sep ↔ a = sep) :
    (l.map g).splitOn (g sep) = (l.splitOn sep).map (List.map g) := by
  induction l with
  | nil => rfl
  | cons a l ih =>
    have hrest := ih fun b hb => h b (List.mem_cons_of_mem a hb)
    rw [List.map_cons, List.splitOn_cons_eq_if_modifyHead, List.splitOn_cons_eq_if_modifyHead,
      hrest]
    by_cases ha : a = sep
    · rw [if_pos (by simpa using congrArg g ha), if_pos (by simpa using ha)]
      rfl
    · have hg : ¬g a = g sep := fun hg => ha ((h a List.mem_cons_self).mp hg)
      rw [if_neg (by simpa using hg), if_neg (by simpa using ha)]
      obtain ⟨piece, pieces, hp⟩ := List.exists_cons_of_ne_nil (List.splitOn_ne_nil sep l)
      rw [hp]
      rfl

theorem lines_map {sep : α} {g : α → β} {l : List α} (h : ∀ a ∈ l, g a = g sep ↔ a = sep) :
    lines (g sep) (l.map g) = (lines sep l).map (List.map g) := by
  by_cases hl : l = []
  · rw [hl]
    rfl
  · have hmap : l.map g ≠ [] := fun hnil => hl (List.map_eq_nil_iff.mp hnil)
    rw [lines, if_neg hmap, lines, if_neg hl, ← List.map_dropLast,
      splitOn_map fun a ha => h a (List.dropLast_subset l ha)]

end Lines
