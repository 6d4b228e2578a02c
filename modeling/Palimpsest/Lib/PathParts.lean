import Palimpsest.Lib.PathComponents

/-!
# Relative paths by their names

A relative path without `..` is told by the names between its slashes, the empty ones and the dots
left out (`PosixPath.parts`): `os.path.normpath` writes just these
(`PosixPath.normpath_eq_ofParts`). The directory part of such a path is that of the names but the
last, and its last component is the last name.
-/

namespace PosixPath

variable {p comp : Text} {l : List Text}

/-- A component that is neither empty nor a dot. -/
def isPart (comp : Text) : Bool := comp ≠ [] ∧ comp ≠ ['.']

/-- The names in a path, without empty components and dots. -/
def parts (p : Text) : List Text := (p.splitOn '/').filter isPart

/-- The path that has these names, a dot if there are none. -/
def ofParts (l : List Text) : Text := if l = [] then ['.'] else ['/'].intercalate l

/-- What stands between two slashes and is not left out. -/
def IsName (comp : Text) : Prop := (comp ≠ [] ∧ comp ≠ ['.']) ∧ '/' ∉ comp

theorem isName_of_mem_parts (h : comp ∈ parts p) : IsName comp := by
  obtain ⟨hmem, hkept⟩ := List.mem_filter.mp h
  exact ⟨of_decide_eq_true hkept, slash_notMem_of_mem_splitOn hmem⟩

theorem ofParts_singleton (comp : Text) : ofParts [comp] = comp := by
  rw [ofParts, if_neg (List.cons_ne_nil _ _), List.intercalate_singleton]

theorem ofParts_concat (h : l ≠ []) (comp : Text) :
    ofParts (l ++ [comp]) = ofParts l ++ '/' :: comp := by
  have hne : l ++ [comp] ≠ [] := List.append_ne_nil_of_right_ne_nil _ (List.cons_ne_nil _ _)
  rw [ofParts, ofParts, if_neg h, if_neg hne]
  induction l with
  | nil => exact absurd rfl h
  | cons c l ih =>
    cases l with
    | nil =>
      rw [List.singleton_append, List.intercalate_cons_cons, List.intercalate_singleton,
        List.intercalate_singleton, List.append_assoc, List.singleton_append]
    | cons d l =>
      have ih := ih (List.cons_ne_nil _ _) (List.cons_ne_nil _ _)
      rw [List.cons_append, List.cons_append, List.intercalate_cons_cons, ← List.cons_append, ih,
        List.intercalate_cons_cons, List.append_assoc (c ++ ['/'])]

theorem ofParts_ne_nil (h : ∀ comp ∈ l, IsName comp) : ofParts l ≠ [] := by
  induction l using List.reverseRecOn with
  | nil => exact List.cons_ne_nil _ _
  | append_singleton l comp _ =>
    by_cases hl : l = []
    · rw [hl, List.nil_append, ofParts_singleton]
      exact (h comp (List.mem_append_right _ List.mem_cons_self)).1.1
    · rw [ofParts_concat hl]
      exact List.append_ne_nil_of_right_ne_nil _ (List.cons_ne_nil _ _)

/-- The names are read back. -/
theorem splitOn_ofParts (h : ∀ comp ∈ l, IsName comp) (hne : l ≠ []) :
    (ofParts l).splitOn '/' = l := by
  rw [ofParts, if_neg hne, List.splitOn_intercalate '/' (fun comp hcomp => (h comp hcomp).2) hne]

theorem parts_ofParts (h : ∀ comp ∈ l, IsName comp) : parts (ofParts l) = l := by
  by_cases hne : l = []
  · subst hne
    decide
  · rw [parts, splitOn_ofParts h hne, List.filter_eq_self]
    exact fun comp hcomp => decide_eq_true (h comp hcomp).1

/-- Components other than `..` are kept by `normpath` of a relative path, but for empty ones and
dots. -/
theorem foldl_normStep_zero {comps kept : List Text} (h : ['.', '.'] ∉ comps) :
    comps.foldl (normStep 0) kept =
      (comps.filter isPart).reverse ++ kept := by
  induction comps generalizing kept with
  | nil => rfl
  | cons comp comps ih =>
    rw [List.mem_cons, not_or] at h
    rw [List.foldl_cons, ih h.2, normStep]
    by_cases hskip : comp = [] ∨ comp = ['.']
    · have hdrop : ¬isPart comp = true := fun hcon =>
        hskip.elim (of_decide_eq_true hcon).1 (of_decide_eq_true hcon).2
      rw [if_pos hskip, List.filter_cons_of_neg hdrop]
    · have hkeep : isPart comp = true := decide_eq_true (not_or.mp hskip)
      rw [if_neg hskip, if_pos (Or.inl (Ne.symm h.1)), List.filter_cons_of_pos hkeep,
        List.reverse_cons, List.append_assoc, List.singleton_append]

/-- **The normal form of a relative path without `..`** has its names and nothing else. -/
theorem normpath_eq_ofParts (hrel : isAbs p = false) (hdots : ['.', '.'] ∉ p.splitOn '/') :
    normpath p = ofParts (parts p) := by
  rw [normpath]
  by_cases hp : p = []
  · subst hp
    decide
  · have hleading : p.takeWhile (· = '/') = [] := by
      cases p with
      | nil => exact absurd rfl hp
      | cons c p =>
        have hc : ¬decide (c = '/') = true := by
          rw [decide_eq_true_eq]
          rintro rfl
          cases hrel
        exact List.takeWhile_cons_of_neg hc
    -- The path is relative, so no slash is put in front.
    have hzero : (if (p.takeWhile (· = '/')).length = 2 then 2 else
        min (p.takeWhile (· = '/')).length 1) = 0 := by
      rw [hleading]
      decide
    rw [if_neg hp]
    dsimp only
    rw [hzero, foldl_normStep_zero hdots, List.append_nil, List.reverse_reverse,
      List.replicate_zero, List.nil_append, ofParts, ← parts]
    by_cases hparts : parts p = []
    · rw [hparts]
      rfl
    · have hne : ['/'].intercalate (parts p) ≠ [] := by
        have h := ofParts_ne_nil fun comp hcomp => isName_of_mem_parts (p := p) hcomp
        rwa [ofParts, if_neg hparts] at h
      rw [if_neg hne, if_neg hparts]

/-- The normal form of an absolute path is absolute. -/
theorem isAbs_normpath (h : isAbs p = true) : isAbs (normpath p) = true := by
  cases p with
  | nil => cases h
  | cons c p =>
    obtain rfl : c = '/' := Option.some.inj (of_decide_eq_true h)
    obtain ⟨n, hn⟩ : ∃ n, (if (('/' :: p).takeWhile (· = '/')).length = 2 then 2 else
        min (('/' :: p).takeWhile (· = '/')).length 1) = n + 1 := by
      rw [List.takeWhile_cons_of_pos (by decide), List.length_cons]
      split_ifs
      · exact ⟨1, rfl⟩
      · exact ⟨0, by omega⟩
    rw [normpath, if_neg (List.cons_ne_nil _ _)]
    dsimp only
    rw [hn, List.replicate_succ, List.cons_append, if_neg (List.cons_ne_nil _ _)]
    rfl

/-! ### The last name -/

theorem isAbs_ofParts (h : ∀ comp ∈ l, IsName comp) : isAbs (ofParts l) = false := by
  induction l using List.reverseRecOn with
  | nil => decide
  | append_singleton l comp ih =>
    obtain ⟨⟨hnil, -⟩, hslash⟩ := h comp (List.mem_append_right _ List.mem_cons_self)
    by_cases hl : l = []
    · rw [hl, List.nil_append, ofParts_singleton]
      cases comp with
      | nil => exact absurd rfl hnil
      | cons c comp =>
        exact decide_eq_false fun hc => hslash (Option.some.inj hc ▸ List.mem_cons_self)
    · have hl' : ∀ comp ∈ l, IsName comp := fun c hc => h c (List.mem_append_left _ hc)
      rw [ofParts_concat hl, ← ih hl']
      exact (isAbs_of_isPrefix (List.prefix_append _ _) (ofParts_ne_nil hl')).symm

theorem basename_ofParts (h : IsName comp) : basename (ofParts (l ++ [comp])) = comp := by
  by_cases hl : l = []
  · rw [hl, List.nil_append, ofParts_singleton, basename_of_not_mem h.2]
  · rw [ofParts_concat hl]
    have hsplit := headPart_append_basename (ofParts l ++ '/' :: comp)
    rw [headPart_append h.2, List.append_assoc, List.singleton_append] at hsplit
    exact (List.cons.inj (List.append_cancel_left hsplit)).2

/-- A path of names does not end in a slash. -/
theorem getLast?_ofParts (h : ∀ comp ∈ l, IsName comp) : (ofParts l).getLast? ≠ some '/' := by
  induction l using List.reverseRecOn with
  | nil => decide
  | append_singleton l comp _ =>
    obtain ⟨⟨hnil, -⟩, hslash⟩ := h comp (List.mem_append_right _ List.mem_cons_self)
    have hlast : comp.getLast? ≠ some '/' := fun hcon => hslash (List.mem_of_getLast? hcon)
    by_cases hl : l = []
    · rwa [hl, List.nil_append, ofParts_singleton]
    · obtain ⟨c, rest, rfl⟩ := List.exists_cons_of_ne_nil hnil
      rwa [ofParts_concat hl, List.getLast?_append, List.getLast?_cons_cons,
        List.getLast?_eq_some_getLast (List.cons_ne_nil _ _), Option.some_or,
        ← List.getLast?_eq_some_getLast (List.cons_ne_nil _ _)]

/-- The directory part of a path of two names or more. -/
theorem dirname_ofParts (h : ∀ comp ∈ l, IsName comp) (hne : l ≠ []) (hcomp : IsName comp) :
    dirname (ofParts (l ++ [comp])) = ofParts l := by
  rw [ofParts_concat hne]
  exact dirname_append hcomp.2 (ofParts_ne_nil h) (getLast?_ofParts h)

theorem dirname_ofParts_singleton (hcomp : IsName comp) : dirname (ofParts [comp]) = [] := by
  rw [ofParts_singleton, dirname_of_not_mem hcomp.2]

end PosixPath
