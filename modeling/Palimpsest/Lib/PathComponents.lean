import Palimpsest.Lib.PosixPath

/-!
# Absolute paths in normal form

An absolute path with one leading slash is what `os.path.normpath` makes of it if and only if
nothing between its slashes is empty, `.` or `..` (`PosixPath.normpath_eq_self_iff`).
-/

namespace PosixPath

variable {p rest : Text} {comp : Text}

/-- What stands between two slashes of a path in normal form. -/
def IsComponent (comp : Text) : Prop := comp ≠ [] ∧ comp ≠ ['.'] ∧ comp ≠ ['.', '.']

/-- The components of what follows the leading slash, of which the root has none. -/
def Normal (rest : Text) : Prop := rest = [] ∨ ∀ comp ∈ rest.splitOn '/', IsComponent comp

theorem splitOn_slash_cons (b : Text) : ('/' :: b).splitOn '/' = [] :: b.splitOn '/' := by
  have hsplit : ([] ++ '/' :: b).splitOn '/' = [] :: b.splitOn '/' :=
    List.splitOn_append_cons_self_of_not_mem List.not_mem_nil b
  exact hsplit

theorem slash_notMem_of_mem_splitOn (h : comp ∈ p.splitOn '/') : '/' ∉ comp := by
  induction hn : p.length using Nat.strongRecOn generalizing p with
  | ind n ih =>
    by_cases hmem : '/' ∈ p
    · obtain ⟨first, rest, rfl, hfirst⟩ := List.eq_append_cons_of_mem hmem
      rw [List.splitOn_append_cons_self_of_not_mem hfirst] at h
      rcases List.mem_cons.mp h with rfl | h
      · exact hfirst
      · refine ih rest.length ?_ h rfl
        rw [← hn, List.length_append, List.length_cons]
        omega
    · rw [List.splitOn_eq_singleton hmem] at h
      rwa [List.mem_singleton.mp h]

/-- Components that are kept by `normpath` of an absolute path. -/
def Kept (kept : List Text) : Prop := ∀ comp ∈ kept, IsComponent comp ∧ '/' ∉ comp

theorem kept_normStep {kept : List Text} (h : Kept kept) (hslash : '/' ∉ comp) :
    Kept (normStep 1 kept comp) := by
  rw [normStep]
  split_ifs with hskip hkeep
  · exact h
  · refine List.forall_mem_cons.mpr
      ⟨⟨⟨fun hnil => hskip (Or.inl hnil), fun hdot => hskip (Or.inr hdot), ?_⟩, hslash⟩, h⟩
    rcases hkeep with hname | ⟨hzero, -⟩ | hhead
    · exact hname
    · cases hzero
    · -- what is kept never begins with two dots
      exact absurd rfl (h _ (List.mem_of_head? hhead)).1.2.2
  · exact fun comp hcomp => h comp (List.mem_of_mem_tail hcomp)

theorem kept_foldl {comps kept : List Text} (h : Kept kept) (hcomps : ∀ comp ∈ comps, '/' ∉ comp) :
    Kept (comps.foldl (normStep 1) kept) := by
  induction comps generalizing kept with
  | nil => exact h
  | cons comp comps ih =>
    obtain ⟨hcomp, hcomps⟩ := List.forall_mem_cons.mp hcomps
    exact ih (kept_normStep h hcomp) hcomps

/-- Components in normal form are all kept. -/
theorem foldl_normStep {comps kept : List Text} (h : ∀ comp ∈ comps, IsComponent comp) :
    comps.foldl (normStep 1) kept = comps.reverse ++ kept := by
  induction comps generalizing kept with
  | nil => rfl
  | cons comp comps ih =>
    obtain ⟨⟨hnil, hdot, hdots⟩, hcomps⟩ := List.forall_mem_cons.mp h
    have hskip : ¬(comp = [] ∨ comp = ['.']) := not_or.mpr ⟨hnil, hdot⟩
    rw [List.foldl_cons, normStep, if_neg hskip, if_pos (Or.inl hdots), ih hcomps,
      List.reverse_cons, List.append_assoc, List.singleton_append]

/-- What `normpath` makes of a path with one leading slash. -/
theorem normpath_cons (h : rest.head? ≠ some '/') : normpath ('/' :: rest) = '/' ::
    ['/'].intercalate ((rest.splitOn '/').foldl (normStep 1) []).reverse := by
  have hleading : ('/' :: rest).takeWhile (· = '/') = ['/'] := by
    rw [List.takeWhile_cons_of_pos (by decide)]
    cases rest with
    | nil => rfl
    | cons c rest =>
      have hc : ¬decide (c = '/') = true := by
        rw [decide_eq_true_eq]
        rintro rfl
        exact h rfl
      exact congrArg _ (List.takeWhile_cons_of_neg hc)
  rw [normpath, if_neg (List.cons_ne_nil _ _)]
  dsimp only
  rw [hleading, splitOn_slash_cons]
  rfl

theorem head?_ne_of_not_isInfix (h : ¬['/', '/'] <:+: '/' :: rest) : rest.head? ≠ some '/' := by
  intro hhead
  obtain ⟨c, rfl⟩ : ∃ u, rest = '/' :: u := by
    cases rest with
    | nil => cases hhead
    | cons d u => exact ⟨u, by rw [List.head?_cons] at hhead; rw [Option.some.inj hhead]⟩
  exact h ⟨[], c, rfl⟩

/-- **A path that is its own normal form** has names between its slashes. -/
theorem normpath_eq_self_iff : normpath ('/' :: rest) = '/' :: rest ∧ ¬['/', '/'] <:+: '/' :: rest ↔
    Normal rest := by
  constructor
  · rintro ⟨hnorm, hslashes⟩
    rw [normpath_cons (head?_ne_of_not_isInfix hslashes), List.cons.injEq, and_iff_right rfl]
      at hnorm
    have hkept : Kept ((rest.splitOn '/').foldl (normStep 1) []) :=
      kept_foldl (List.forall_mem_nil _) fun comp hcomp => slash_notMem_of_mem_splitOn hcomp
    generalize (rest.splitOn '/').foldl (normStep 1) [] = kept at hnorm hkept
    by_cases hne : kept.reverse = []
    · rw [hne] at hnorm
      exact Or.inl hnorm.symm
    · right
      rw [← hnorm, List.splitOn_intercalate '/' ?_ hne]
      · exact fun comp hcomp => (hkept comp (List.mem_reverse.mp hcomp)).1
      · exact fun comp hcomp => (hkept comp (List.mem_reverse.mp hcomp)).2
  · intro h
    have hslashes : ¬['/', '/'] <:+: '/' :: rest := by
      rintro ⟨a, b, hab⟩
      rw [List.append_assoc] at hab
      -- Two slashes in a row would leave an empty name between them.
      have hmem : rest ≠ [] ∧ [] ∈ rest.splitOn '/' := by
        cases a with
        | nil =>
          obtain rfl : '/' :: b = rest := (List.cons.inj hab).2
          refine ⟨List.cons_ne_nil _ _, ?_⟩
          rw [splitOn_slash_cons]
          exact List.mem_cons_self
        | cons c a =>
          obtain rfl : a ++ (['/', '/'] ++ b) = rest := (List.cons.inj hab).2
          refine ⟨List.append_ne_nil_of_right_ne_nil _ (List.cons_ne_nil _ _), ?_⟩
          have hcut : a ++ (['/', '/'] ++ b) = a ++ '/' :: '/' :: b := rfl
          rw [hcut, List.splitOn_append_cons_self, splitOn_slash_cons]
          exact List.mem_append_right _ List.mem_cons_self
      rcases h with rfl | h
      · exact hmem.1 rfl
      · exact (h _ hmem.2).1 rfl
    refine ⟨?_, hslashes⟩
    rw [normpath_cons (head?_ne_of_not_isInfix hslashes)]
    rcases h with rfl | h
    · rfl
    · rw [foldl_normStep h, List.append_nil, List.reverse_reverse, List.intercalate_splitOn]

end PosixPath
