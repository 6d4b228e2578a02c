import Mathlib.Data.List.DropRight

/-!
# Splitting and joining POSIX paths

The functions of `os.path` that a program handling archive paths uses, on texts read as
lists of characters: `PosixPath.basename`, `PosixPath.dirname`, `PosixPath.join` and
`PosixPath.normpath`. A path splits at its last slash; the directory part loses its
trailing slashes unless it consists of slashes only.
-/

/-- A string, as the list of its characters. -/
abbrev Text := List Char

/-- Texts are equal where they are compared as equal. -/
instance lawfulBEq_text : LawfulBEq (List Char) := inferInstance

namespace PosixPath

/-- Whether a path starts at the file-system root. -/
def isAbs (p : Text) : Bool := p.head? = some '/'

/-- Everything up to the last slash, the slash included. -/
def headPart (p : Text) : Text := p.rdropWhile (· ≠ '/')

/-- The last component: everything after the last slash. -/
def basename (p : Text) : Text := p.rtakeWhile (· ≠ '/')

/-- The directory part, without its trailing slashes unless it is nothing else. -/
def dirname (p : Text) : Text :=
  if (headPart p).all (· = '/') then headPart p else (headPart p).rdropWhile (· = '/')

/-- Two paths joined by one slash; an absolute second path wins. -/
def join (a b : Text) : Text :=
  if isAbs b then b
  else if a = [] ∨ a.getLast? = some '/' then a ++ b
  else a ++ '/' :: b

/-- One component read by `normpath`, after those that are kept, the last one first. -/
def normStep (slashes : ℕ) (kept : List Text) (comp : Text) : List Text :=
  if comp = [] ∨ comp = ['.'] then kept
  else if comp ≠ ['.', '.'] ∨ slashes = 0 ∧ kept = [] ∨ kept.head? = some ['.', '.'] then
    comp :: kept
  else kept.tail

/-- A path without empty and dot components, and with `..` resolved where that can be done.
Two leading slashes are kept, more become one. -/
def normpath (p : Text) : Text :=
  if p = [] then ['.']
  else
    let leading := (p.takeWhile (· = '/')).length
    let slashes := if leading = 2 then 2 else min leading 1
    let kept := ((p.splitOn '/').foldl (normStep slashes) []).reverse
    let path := List.replicate slashes '/' ++ ['/'].intercalate kept
    if path = [] then ['.'] else path

theorem headPart_append_basename (p : Text) : headPart p ++ basename p = p :=
  List.rdropWhile_append_rtakeWhile ..

theorem slash_not_mem_basename (p : Text) : '/' ∉ basename p := fun h => by
  simpa using List.mem_rtakeWhile_imp h

/-- Splitting off a name without slashes. -/
theorem headPart_append {d n : Text} (hn : '/' ∉ n) : headPart (d ++ '/' :: n) = d ++ ['/'] := by
  induction n using List.reverseRecOn with
  | nil => simp [headPart]
  | append_singleton n c ih =>
    have hc : c ≠ '/' := fun h => hn (by simp [h])
    have hn' : '/' ∉ n := fun h => hn (by simp [h])
    have : d ++ '/' :: (n ++ [c]) = (d ++ '/' :: n) ++ [c] := by simp
    rw [this, headPart, List.rdropWhile_concat_pos _ _ _ (by simpa using hc)]
    exact ih hn'

theorem headPart_eq_nil {n : Text} (hn : '/' ∉ n) : headPart n = [] := by
  rw [headPart, List.rdropWhile_eq_nil_iff]
  intro c hc
  simpa using fun h : c = '/' => hn (h ▸ hc)

theorem basename_of_not_mem {n : Text} (hn : '/' ∉ n) : basename n = n := by
  have h := headPart_append_basename n
  rwa [headPart_eq_nil hn, List.nil_append] at h

theorem dirname_of_not_mem {n : Text} (hn : '/' ∉ n) : dirname n = [] := by
  simp [dirname, headPart_eq_nil hn]

/-- **The directory part of an entry of a directory**, for a directory path that
is not empty and does not end in a slash. -/
theorem dirname_append {d n : Text} (hn : '/' ∉ n) (hd : d ≠ []) (hlast : d.getLast? ≠ some '/') :
    dirname (d ++ '/' :: n) = d := by
  obtain ⟨e, c, rfl⟩ : ∃ e c, d = e ++ [c] := ⟨_, _, (List.dropLast_append_getLast hd).symm⟩
  have hc : c ≠ '/' := fun h => hlast (by simp [h])
  have hall : ¬((e ++ [c] ++ ['/']).all (· = '/')) = true := by
    simp only [List.all_append, List.all_cons, List.all_nil, Bool.and_true, Bool.and_eq_true,
      decide_eq_true_eq]
    exact fun h => hc h.1.2
  rw [dirname, headPart_append hn, if_neg hall, List.rdropWhile_concat_pos _ _ _ (by simp),
    List.rdropWhile_concat_neg _ _ _ (by simpa using hc)]

theorem headPart_isPrefix (p : Text) : headPart p <+: p := List.rdropWhile_prefix ..

theorem dirname_isPrefix (p : Text) : dirname p <+: p := by
  rw [dirname]
  split
  · exact headPart_isPrefix p
  · exact ( List.rdropWhile_prefix ..).trans (headPart_isPrefix p)

/-- A nonempty prefix of a path is absolute exactly when the path is. -/
theorem isAbs_of_isPrefix {p q : Text} (h : q <+: p) (hq : q ≠ []) : isAbs q = isAbs p := by
  obtain ⟨r, rfl⟩ := h
  cases q with
  | nil => exact absurd rfl hq
  | cons c q => rfl

/-- The directory part of a relative path is relative. -/
theorem isAbs_dirname_eq_false {p : Text} (h : isAbs p = false) : isAbs (dirname p) = false := by
  by_cases hd : dirname p = []
  · rw [hd]
    rfl
  · rw [isAbs_of_isPrefix (dirname_isPrefix p) hd, h]

/-- Only the head part of an absolute path consists of slashes. -/
theorem not_all_headPart {p : Text} (h : isAbs p = false) (hh : headPart p ≠ []) :
    ¬(headPart p).all (· = '/') = true := by
  have habs : isAbs (headPart p) = false := by rw [isAbs_of_isPrefix (headPart_isPrefix p) hh, h]
  obtain ⟨c, q, hq⟩ := List.exists_cons_of_ne_nil hh
  rw [hq] at habs ⊢
  simp only [isAbs, List.head?_cons, Option.some.injEq, decide_eq_false_iff_not] at habs
  simp [habs]

/-- The directory part of a relative path does not end in a slash. -/
theorem getLast?_dirname {p : Text} (h : isAbs p = false) : (dirname p).getLast? ≠ some '/' := by
  by_cases hh : headPart p = []
  · have : dirname p = [] := by simp [dirname, hh]
    simp [this]
  · rw [dirname, if_neg (not_all_headPart h hh)]
    by_cases hnil : (headPart p).rdropWhile (· = '/') = []
    · simp [hnil]
    · rw [List.getLast?_eq_getLast_of_ne_nil hnil]
      simpa using List.rdropWhile_last_not _ _ hnil

/-- Walking up from a relative path shortens it. -/
theorem length_dirname_lt {p : Text} (hp : p ≠ []) (h : isAbs p = false) :
    (dirname p).length < p.length := by
  by_cases hh : headPart p = []
  · have : dirname p = [] := by simp [dirname, hh]
    rw [this]
    exact List.length_pos_of_ne_nil hp
  · have hall := not_all_headPart h hh
    obtain ⟨e, he⟩ : ∃ e, headPart p = e ++ ['/'] := by
      refine ⟨_, ((List.dropLast_append_getLast hh).symm).trans (congrArg _ ?_)⟩
      have hlast := List.rdropWhile_last_not _ p hh
      simpa [headPart] using hlast
    have hle := (headPart_isPrefix p).length_le
    rw [dirname, if_neg hall]
    rw [he, List.length_append, List.length_singleton] at hle
    rw [he, List.rdropWhile_concat_pos _ _ _ (by simp)]
    have := ( List.rdropWhile_prefix (· = '/') e).length_le
    omega

end PosixPath
