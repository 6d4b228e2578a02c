import Palimpsest.Changeset.Present
import Palimpsest.Lib.Partition

/-!
# Reserved names

A layer may have nothing at or below `.palimpsest`, and no name that starts like the name of a
whiteout marker (`isReserved`). What an archive brings to `.palimpsest` is seen at the paths of
its members, and at the paths that its whiteout markers name (`subject_cases`). What a member is
about can lie below a directory with a marker's name all the same, as the name of the marker
itself is all that the reducer looks at.
-/

namespace Palimpsest

open ParentTree PosixPath

variable {π : Type}

/-- The name of the reserved tree. -/
def palimpsestName : Text := ".palimpsest".toList

/-- The path is the reserved tree, or in it. -/
def isPalimpsest (path : Text) : Bool :=
  path = palimpsestName || (palimpsestName ++ ['/']).isPrefixOf path

/-- Some component of the path starts like the name of a whiteout marker. -/
def hasMarker (path : Text) : Bool := (path.splitOn '/').any whiteoutStart.isPrefixOf

def isReserved (path : Text) : Bool := isPalimpsest path || hasMarker path

/-! ### The first component of a path -/

/-- The first component of a path. -/
def first (path : Text) : Text := path.takeWhile (· ≠ '/')

theorem first_append (d r : Text) : first (d ++ '/' :: r) = first d := by
  induction d with
  | nil => rfl
  | cons c d ih =>
    by_cases hc : c = '/'
    · simp [first, hc]
    · simpa [first, hc] using ih

theorem first_of_not_mem {d : Text} (h : '/' ∉ d) : first d = d :=
  List.takeWhile_eq_self_iff.mpr fun c hc => by simpa using fun hcon : c = '/' => h (hcon ▸ hc)

/-- **A path is in the reserved tree if that is its first component.** -/
theorem isPalimpsest_iff {path : Text} :
    isPalimpsest path = true ↔ first path = palimpsestName := by
  have hname : '/' ∉ palimpsestName := by decide
  rw [isPalimpsest, Bool.or_eq_true, decide_eq_true_eq, List.isPrefixOf_iff_prefix]
  constructor
  · rintro (rfl | ⟨r, rfl⟩)
    · exact first_of_not_mem hname
    · rw [List.append_assoc, List.singleton_append, first_append]
      exact first_of_not_mem hname
  · intro hfirst
    by_cases hslash : '/' ∈ path
    · right
      have hsplit := Partition.eq_of_mem hslash
      rw [← first, hfirst] at hsplit
      exact ⟨_, by rw [List.append_assoc, List.singleton_append]; exact hsplit.symm⟩
    · exact Or.inl (first_of_not_mem hslash ▸ hfirst)

/-- What is in a directory has the text of the directory and a slash in front. -/
theorem dirname_split {p : Text} (hrel : isAbs p = false) (hne : dirname p ≠ []) :
    ∃ r, p = dirname p ++ '/' :: r := by
  have hhead : headPart p ≠ [] := by
    intro h
    rw [dirname, h] at hne
    exact hne rfl
  have hdirname : dirname p = (headPart p).rdropWhile (· = '/') :=
    if_neg (not_all_headPart hrel hhead)
  have hlast : (headPart p).getLast hhead = '/' := by
    simpa [headPart] using List.rdropWhile_last_not _ p hhead
  obtain ⟨s, hs⟩ : ∃ s, (headPart p).rtakeWhile (· = '/') = '/' :: s := by
    have hslashes : ∀ c ∈ (headPart p).rtakeWhile (· = '/'), c = '/' := fun c hc => by
      simpa using List.mem_rtakeWhile_imp hc
    cases htake : (headPart p).rtakeWhile (· = '/') with
    | nil => exact absurd hlast (by simpa using (List.rtakeWhile_eq_nil_iff.mp htake) hhead)
    | cons c s =>
      rw [htake] at hslashes
      exact ⟨s, by rw [hslashes c List.mem_cons_self]⟩
  have hsplit : (headPart p).rdropWhile (· = '/') ++ (headPart p).rtakeWhile (· = '/') =
      headPart p := List.rdropWhile_append_rtakeWhile
  have hpath := headPart_append_basename p
  rw [← hdirname, hs] at hsplit
  rw [← hsplit, List.append_assoc] at hpath
  exact ⟨_, hpath.symm⟩

theorem first_dirname {p : Text} (hrel : isAbs p = false) (hne : dirname p ≠ []) :
    first (dirname p) = first p := by
  obtain ⟨r, hr⟩ := dirname_split hrel hne
  conv_rhs => rw [hr]
  rw [first_append]

/-- What is below a directory has the text of the directory and a slash in front. -/
theorem text_of_above {d p : RelPath} (h : Above d p) (hd : d ≠ RelPath.dot) :
    ∃ r, p.text = d.text ++ '/' :: r := by
  induction p using walk_induction with
  | root => exact absurd h (not_above_root d)
  | step p q hq ih =>
    have hne : q ≠ RelPath.dot → q.text = dirname p.text ∧ dirname p.text ≠ [] := by
      intro hne
      rw [RelPath.parent_eq, RelPath.parent] at hq
      split at hq
      · cases hq
      · obtain rfl := Option.some.inj hq
        rw [RelPath.dirnameOrDot] at hne ⊢
        split
        · next hdir => exact ⟨rfl, hdir⟩
        · next hdir => rw [dif_neg hdir] at hne; exact absurd rfl hne
    rcases (above_iff hq).mp h with rfl | habove
    · obtain ⟨htext, hdir⟩ := hne hd
      rw [htext]
      exact dirname_split p.rel hdir
    · obtain ⟨htext, hdir⟩ := hne (ne_root_of_above habove)
      obtain ⟨r, hr⟩ := ih habove
      obtain ⟨s, hs⟩ := dirname_split p.rel hdir
      rw [← htext, hr, List.append_assoc] at hs
      exact ⟨_, hs⟩

theorem isPalimpsest_of_atOrAbove {q p : RelPath} (h : AtOrAbove q p)
    (hq : isPalimpsest q.text = true) : isPalimpsest p.text = true := by
  rcases h with rfl | h
  · exact hq
  · have hdot : q ≠ RelPath.dot := by
      rintro rfl
      exact absurd hq (by decide)
    obtain ⟨r, hr⟩ := text_of_above h hdot
    rw [isPalimpsest_iff] at hq ⊢
    rw [hr, first_append, hq]

/-! ### What a member is about -/

/-- **What is in the reserved tree comes from a path in it**, or from a whiteout of the tree. -/
theorem subject_cases {m : ChangesetMember π} {a : Action} (hrel : isAbs m.path = false)
    (ha : classify m = .ok a) (h : isPalimpsest a.subject.text = true) :
    isPalimpsest m.path = true ∨ ∃ t, a = .whiteout t ∧ t.text = palimpsestName := by
  have hparent : ∀ {d : Text}, d = parentText m.path → isPalimpsest d = true →
      isPalimpsest m.path = true := by
    rintro d rfl hd
    rw [parentText] at hd
    split_ifs at hd with hnil
    · exact absurd hd (by decide)
    · rw [isPalimpsest_iff] at hd ⊢
      rw [← first_dirname hrel hnil, hd]
  rcases classify_cases ha with ⟨d, rfl, hd, -⟩ | ⟨t, rfl, ht, -⟩ | ⟨p, rfl, hp⟩
  · exact Or.inl (hparent hd h)
  · have hname : '/' ∉ (basename m.path).drop whiteoutStart.length := fun hmem =>
      slash_not_mem_basename m.path (List.mem_of_mem_drop hmem)
    rw [Action.subject, isPalimpsest_iff, ht, whiteoutTargetText] at h
    rw [whiteoutTargetText] at ht
    split_ifs at h ht with hdot
    · rw [first_of_not_mem hname] at h
      exact Or.inr ⟨t, rfl, ht.trans h⟩
    · -- the directory of the marker is in the tree
      refine Or.inl (hparent rfl ?_)
      have habs : isAbs ((basename m.path).drop whiteoutStart.length) = false := by
        cases hcons : (basename m.path).drop whiteoutStart.length with
        | nil => rfl
        | cons c name =>
          rw [hcons] at hname
          exact decide_eq_false fun hc => hname (Option.some.inj hc ▸ List.mem_cons_self)
      have hopen : ¬(parentText m.path = [] ∨ (parentText m.path).getLast? = some '/') := by
        rw [parentText] at hdot ⊢
        split_ifs at hdot ⊢ with hnil
        · exact absurd rfl hdot
        · exact fun hcon => hcon.elim hnil (getLast?_dirname hrel)
      rw [isPalimpsest_iff]
      rwa [join, habs, if_neg Bool.false_ne_true, if_neg hopen, first_append] at h
  · rw [Action.subject, hp] at h
    exact Or.inl h

/-! ### What reaches the changeset -/

section Changeset

variable {ms : List (ChangesetMember π)} {out : List (NormalizedEntry π)}

theorem ne_dot_of_reserved {q : RelPath} (h : isReserved q.text = true) : q ≠ RelPath.dot := by
  rintro rfl
  exact absurd h (by decide)

/-- A path in the reserved tree that members leave is the tree itself, and a whiteout of it is
among them. -/
theorem exists_whiteout {q : RelPath} (hrel : ∀ m ∈ ms, isAbs m.path = false)
    (hpath : ∀ m ∈ ms, isPalimpsest m.path = false) (hleaves : LeavesEntry ms q)
    (hq : isPalimpsest q.text = true) :
    q.text = palimpsestName ∧ ∃ m ∈ ms, ∃ t, classify m = .ok (.whiteout t) ∧
      t.text = palimpsestName := by
  obtain ⟨e, he, a, ha, habove⟩ := Since.exists_mem hleaves
  have hmem := mem_of_mem_history he
  have hsubject := isPalimpsest_of_atOrAbove habove hq
  rcases subject_cases (hrel _ hmem) ha hsubject with hcon | ⟨t, rfl, ht⟩
  · rw [hpath _ hmem] at hcon
    cases hcon
  · refine ⟨?_, e.2, hmem, t, ha, ht⟩
    rcases habove with rfl | habove
    · exact ht
    · -- the tree itself has no directory above it but the root
      have hdot : q ≠ RelPath.dot := ne_dot_of_reserved (by rw [isReserved, hq, Bool.true_or])
      obtain ⟨r, hr⟩ := text_of_above habove hdot
      have hslash : '/' ∈ palimpsestName := by
        rw [← ht]
        exact hr ▸ List.mem_append_right _ List.mem_cons_self
      exact absurd hslash (by decide)

/-- **When no reserved name reaches the changeset** of members whose paths are not in the reserved
tree. -/
theorem unreserved_iff (hout : normalizeChangeset ms = .ok out)
    (hrel : ∀ m ∈ ms, isAbs m.path = false) (hpath : ∀ m ∈ ms, isPalimpsest m.path = false) :
    (∀ e ∈ out, isReserved e.path.text = false) ↔
      ∀ q : RelPath, hasMarker q.text = true ∨ q.text = palimpsestName → ¬LeavesEntry ms q := by
  constructor
  · intro h q hq hleaves
    have hreserved : isReserved q.text = true := by
      rw [isReserved, Bool.or_eq_true]
      rcases hq with hmarker | hname
      · exact Or.inr hmarker
      · exact Or.inl (by rw [hname]; decide)
    obtain ⟨e, he, rfl⟩ :=
      (Reduction.exists_entry_iff hout (ne_dot_of_reserved hreserved)).mpr hleaves
    rw [h e he] at hreserved
    cases hreserved
  · intro h e he
    by_contra hcon
    have hreserved : isReserved e.path.text = true := by simpa using hcon
    have hleaves :=
      (Reduction.exists_entry_iff hout (ne_dot_of_reserved hreserved)).mp ⟨e, he, rfl⟩
    rw [isReserved, Bool.or_eq_true] at hreserved
    rcases hreserved with htree | hmarker
    · exact h e.path (Or.inr (exists_whiteout hrel hpath hleaves htree).1) hleaves
    · exact h e.path (Or.inl hmarker) hleaves

end Changeset

end Palimpsest
