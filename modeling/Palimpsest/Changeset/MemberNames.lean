import Palimpsest.Changeset.ReservedNames
import Palimpsest.Lib.PathParts

/-!
# The names of an archive

What a layer gets of an archive can be read off the names of its members, spelled as lists of
components, and of whether each is a directory's (`Palimpsest.MemberName`). A directory that a
name goes through stays unless a later member removes it (`Palimpsest.Stays`): a whiteout or a
member that is no directory, at a directory above it, or an opaque marker of the root before
anything names the root. So reserved names reach a layer by directories with a marker's name,
and by whiteouts of the reserved tree (`Palimpsest.unreserved_iff_names`).
-/

namespace Palimpsest

open ParentTree PosixPath

variable {π : Type}

/-- Something in the directory, or below it. -/
def Inside (d l : List Text) : Prop := d <+: l ∧ d ≠ l

instance (d l : List Text) : Decidable (Inside d l) := inferInstanceAs (Decidable (_ ∧ _))

theorem inside_concat_iff {d l : List Text} {c : Text} : Inside d (l ++ [c]) ↔ d <+: l := by
  rw [Inside, List.prefix_concat_iff]
  constructor
  · rintro ⟨rfl | h, hne⟩
    · exact absurd rfl hne
    · exact h
  · refine fun h => ⟨Or.inr h, ?_⟩
    rintro rfl
    have hle := h.length_le
    rw [List.length_append, List.length_singleton] at hle
    omega

/-! ### Keys of names -/

section Keys

variable {l k : List Text} {p q : RelPath}

theorem parent_of_concat {c : Text} (hl : ∀ comp ∈ l ++ [c], IsName comp)
    (hp : p.text = ofParts (l ++ [c])) : ∃ q : RelPath, p.parent = some q ∧ q.text = ofParts l := by
  have hd : ∀ comp ∈ l, IsName comp := fun comp hcomp => hl comp (List.mem_append_left _ hcomp)
  have hc : IsName c := hl c (List.mem_append_right _ List.mem_cons_self)
  have hdot : p ≠ RelPath.dot := by
    rintro rfl
    have hparts := congrArg parts hp
    rw [parts_ofParts hl] at hparts
    exact List.append_ne_nil_of_right_ne_nil _ (List.cons_ne_nil _ _) hparts.symm
  refine ⟨p.dirnameOrDot, if_neg hdot, ?_⟩
  rw [RelPath.dirnameOrDot]
  by_cases hnil : l = []
  · subst hnil
    rw [List.nil_append] at hp
    rw [dif_neg (not_not_intro (by rw [hp, dirname_ofParts_singleton hc]))]
    rfl
  · have hdir : dirname p.text = ofParts l := by rw [hp, dirname_ofParts hd hnil hc]
    rw [dif_pos (by rw [hdir]; exact ofParts_ne_nil hd)]
    exact hdir

/-- **At or above a path of names** are the paths of the names in front. -/
theorem atOrAbove_iff_parts (hl : ∀ comp ∈ l, IsName comp) (hp : p.text = ofParts l) :
    AtOrAbove q p ↔ ∃ k, k <+: l ∧ q.text = ofParts k := by
  induction l using List.reverseRecOn generalizing p with
  | nil =>
    obtain rfl : p = RelPath.dot := RelPath.ext_text hp
    constructor
    · rintro (rfl | h)
      · exact ⟨[], List.nil_prefix, rfl⟩
      · exact absurd h (RelPath.not_above_dot q)
    · rintro ⟨k, hk, hq⟩
      rw [List.prefix_nil.mp hk] at hq
      exact Or.inl (RelPath.ext_text hq)
  | append_singleton l c ih =>
    obtain ⟨d, hd, htext⟩ := parent_of_concat hl hp
    have ih := ih (fun comp hcomp => hl comp (List.mem_append_left _ hcomp)) htext
    rw [AtOrAbove, above_iff hd, ih]
    constructor
    · rintro (rfl | ⟨k, hk, hq⟩)
      · exact ⟨_, List.prefix_rfl, hp⟩
      · exact ⟨k, List.prefix_concat_iff.mpr (Or.inr hk), hq⟩
    · rintro ⟨k, hk, hq⟩
      rcases List.prefix_concat_iff.mp hk with rfl | hk
      · exact Or.inl (RelPath.ext_text (hq.trans hp.symm))
      · exact Or.inr ⟨k, hk, hq⟩

theorem atOrAbove_iff_front (hl : ∀ comp ∈ l, IsName comp) (hp : p.text = ofParts l)
    (hk : ∀ comp ∈ k, IsName comp) (hq : q.text = ofParts k) : AtOrAbove q p ↔ k <+: l := by
  rw [atOrAbove_iff_parts hl hp]
  constructor
  · rintro ⟨k', hk', hq'⟩
    have hnames : ∀ comp ∈ k', IsName comp := fun comp hcomp => hl comp (hk'.subset hcomp)
    have hparts := congrArg parts (hq.symm.trans hq')
    rw [parts_ofParts hk, parts_ofParts hnames] at hparts
    rwa [hparts]
  · exact fun h => ⟨k, h, hq⟩

theorem above_iff_inside (hl : ∀ comp ∈ l, IsName comp) (hp : p.text = ofParts l)
    (hk : ∀ comp ∈ k, IsName comp) (hq : q.text = ofParts k) : Above q p ↔ Inside k l := by
  rw [Inside, ← atOrAbove_iff_front hl hp hk hq]
  constructor
  · refine fun h => ⟨h.atOrAbove, ?_⟩
    rintro rfl
    exact h.ne (RelPath.ext_text (hq.trans hp.symm))
  · rintro ⟨rfl | h, hne⟩
    · have hparts := congrArg parts (hq.symm.trans hp)
      rw [parts_ofParts hk, parts_ofParts hl] at hparts
      exact absurd hparts hne
    · exact h

end Keys

/-! ### Members by their names -/

/-- What the name of a member says: its components, and whether it is that of a directory. -/
structure MemberName where
  parts : List Text
  isDirectory : Bool
  deriving DecidableEq

/-- The name of a member of a changeset. -/
def ChangesetMember.name (m : ChangesetMember π) : MemberName :=
  ⟨PosixPath.parts m.path, m.kind = .directory⟩

/-- The member takes away what is in some directory above `q`. `rootNamed` says whether the archive
has named the root before. -/
def MemberName.Removes (rootNamed : Bool) (q : List Text) (n : MemberName) : Prop :=
  n.parts = [opaqueName] ∧ rootNamed = false ∨
    (∃ d x, n.parts = d ++ [whiteoutStart ++ x] ∧ whiteoutStart ++ x ≠ opaqueName ∧
      Inside (d ++ [x]) q) ∨
    n.isDirectory = false ∧ (∀ d x, n.parts ≠ d ++ [whiteoutStart ++ x]) ∧ Inside n.parts q

/-- Some of the names are the root's, or that of its opaque marker. -/
def rootNamed (names : List MemberName) : Bool :=
  names.any fun n => n.parts = [] ∨ n.parts = [opaqueName]

/-- Some member is one of these, and no later one takes away what is in a directory above `q`. -/
def Stays (P : MemberName → Prop) (q : List Text) (names : List MemberName) : Prop :=
  ∃ earlier n later, names = earlier ++ n :: later ∧ P n ∧
    ∀ between m rest, later = between ++ m :: rest →
      ¬m.Removes (rootNamed (earlier ++ n :: between)) q

/-- A directory stays that members name on the way, and whose name starts like that of a marker. -/
def MarkedDirectoryStays (names : List MemberName) : Prop :=
  ∃ d x, Stays (fun n => Inside (d ++ [whiteoutStart ++ x]) n.parts) (d ++ [whiteoutStart ++ x])
    names

/-- The whiteout of the reserved tree stays. -/
def ReservedWhiteoutStays (names : List MemberName) : Prop :=
  Stays (fun n => n.parts = [whiteoutStart ++ palimpsestName]) [palimpsestName] names

theorem not_stays_nil {P : MemberName → Prop} {q : List Text} : ¬Stays P q [] := by
  rintro ⟨earlier, n, later, h, -⟩
  exact List.append_ne_nil_of_right_ne_nil _ (List.cons_ne_nil _ _) h.symm

/-- **What stays after one more member.** -/
theorem stays_concat {P : MemberName → Prop} {q : List Text} {names : List MemberName}
    {n : MemberName} :
    Stays P q (names ++ [n]) ↔ P n ∨ Stays P q names ∧ ¬n.Removes (rootNamed names) q := by
  constructor
  · rintro ⟨earlier, m, later, h, hm, hlater⟩
    rcases List.eq_nil_or_concat later with rfl | ⟨later, c, rfl⟩
    · obtain ⟨-, hnm⟩ := List.append_inj' h rfl
      obtain rfl := List.singleton_inj.mp hnm
      exact Or.inl hm
    · rw [List.concat_eq_append] at h hlater
      rw [← List.cons_append, ← List.append_assoc] at h
      obtain ⟨rfl, hnc⟩ := List.append_inj' h rfl
      obtain rfl := List.singleton_inj.mp hnc
      refine Or.inr ⟨⟨earlier, m, later, rfl, hm, ?_⟩, hlater later n [] rfl⟩
      rintro between m' rest rfl
      exact hlater between m' (rest ++ [n]) (by rw [List.append_assoc]; rfl)
  · rintro (hn | ⟨⟨earlier, m, later, rfl, hm, hlater⟩, hn⟩)
    · refine ⟨names, n, [], rfl, hn, ?_⟩
      intro between m rest h
      exact absurd h.symm (List.append_ne_nil_of_right_ne_nil _ (List.cons_ne_nil _ _))
    · refine ⟨earlier, m, later ++ [n], by rw [List.append_assoc]; rfl, hm, ?_⟩
      intro between m' rest h
      rcases List.eq_nil_or_concat rest with rfl | ⟨rest, c, rfl⟩
      · obtain ⟨rfl, hnm⟩ := List.append_inj' h rfl
        obtain rfl := List.singleton_inj.mp hnm
        exact hn
      · rw [List.concat_eq_append, ← List.cons_append, ← List.append_assoc] at h
        obtain ⟨rfl, -⟩ := List.append_inj' h rfl
        exact hlater between m' rest rfl

/-! ### What a name asks for -/

/-- The markers' names are taken apart. -/
theorem marker_concat {d d' : List Text} {x y : Text}
    (h : d ++ [whiteoutStart ++ x] = d' ++ [whiteoutStart ++ y]) : d = d' ∧ x = y := by
  obtain ⟨rfl, hlast⟩ := List.append_inj' h rfl
  exact ⟨rfl, List.append_cancel_left (List.singleton_inj.mp hlast)⟩

theorem opaqueName_eq : opaqueName = whiteoutStart ++ ".wh..opq".toList := by decide

section Asked

variable {m : ChangesetMember π} {a : Action} {l : List Text}

/-- The directory of a member. -/
theorem parentText_of_concat {d : List Text} {c : Text}
    (hl : ∀ comp ∈ d ++ [c], IsName comp) (hpath : m.path = ofParts (d ++ [c])) :
    parentText m.path = ofParts d := by
  have hd : ∀ comp ∈ d, IsName comp := fun comp hcomp => hl comp (List.mem_append_left _ hcomp)
  have hc : IsName c := hl c (List.mem_append_right _ List.mem_cons_self)
  rw [parentText, hpath]
  by_cases hnil : d = []
  · subst hnil
    rw [List.nil_append, dirname_ofParts_singleton hc, if_pos rfl]
    rfl
  · rw [dirname_ofParts hd hnil hc, if_neg (ofParts_ne_nil hd)]

/-- What a whiteout marker names lies beside the marker. -/
theorem whiteoutTargetText_of_concat {d : List Text} {x : Text}
    (hl : ∀ comp ∈ d ++ [whiteoutStart ++ x], IsName comp) (hx : IsName x)
    (hpath : m.path = ofParts (d ++ [whiteoutStart ++ x])) :
    whiteoutTargetText m.path = ofParts (d ++ [x]) := by
  have hd : ∀ comp ∈ d, IsName comp := fun comp hcomp => hl comp (List.mem_append_left _ hcomp)
  have hbase : (basename m.path).drop whiteoutStart.length = x := by
    rw [hpath, basename_ofParts (hl _ (List.mem_append_right _ List.mem_cons_self)),
      List.drop_left]
  rw [whiteoutTargetText, hbase, parentText_of_concat hl hpath]
  by_cases hnil : d = []
  · subst hnil
    rw [List.nil_append, ofParts_singleton]
    exact if_pos rfl
  · have hdot : ofParts d ≠ ['.'] := by
      intro h
      have hparts := congrArg parts h
      rw [parts_ofParts hd] at hparts
      exact hnil hparts
    have habs : isAbs x = false := by
      have h := isAbs_ofParts (l := [x]) (List.forall_mem_singleton.mpr hx)
      rwa [ofParts_singleton] at h
    have hopen : ¬(ofParts d = [] ∨ (ofParts d).getLast? = some '/') :=
      not_or.mpr ⟨ofParts_ne_nil hd, getLast?_ofParts hd⟩
    rw [if_neg hdot, join, habs, if_neg Bool.false_ne_true, if_neg hopen, ofParts_concat hnil]

/-- **What a member asks for, by its name.** -/
theorem classify_names (h : classify m = .ok a) (hl : ∀ comp ∈ l, IsName comp)
    (hpath : m.path = ofParts l) :
    (∃ d p, l = d ++ [opaqueName] ∧ a = .opq p ∧ p.text = ofParts d) ∨
      (∃ d x p, l = d ++ [whiteoutStart ++ x] ∧ whiteoutStart ++ x ≠ opaqueName ∧ IsName x ∧
        ¬whiteoutStart <+: x ∧ a = .whiteout p ∧ p.text = ofParts (d ++ [x])) ∨
      (∀ d x, l ≠ d ++ [whiteoutStart ++ x]) ∧ ∃ p, a = .place p ∧ p.text = ofParts l := by
  rw [classify] at h
  dsimp only at h
  rcases List.eq_nil_or_concat l with rfl | ⟨d, c, rfl⟩
  · -- the root is no marker
    have hpath : m.path = ['.'] := hpath
    have hbase : basename m.path = ['.'] := by
      rw [hpath]
      decide
    rw [hbase, if_neg (by decide), if_neg (by decide)] at h
    obtain ⟨p, hp, rfl⟩ := bind_keyOf h
    refine Or.inr (Or.inr ⟨fun d x hnil => ?_, p, rfl, hp.trans hpath⟩)
    exact List.append_ne_nil_of_right_ne_nil _ (List.cons_ne_nil _ _) hnil.symm
  · rw [List.concat_eq_append] at hl hpath ⊢
    have hc : IsName c := hl c (List.mem_append_right _ List.mem_cons_self)
    have hbase : basename m.path = c := by rw [hpath, basename_ofParts hc]
    rw [hbase] at h
    -- The last part of the name decides: the opaque name, another marker, or none.
    split at h
    · next hmark =>
      split at h
      · cases h
      · obtain ⟨p, hp, rfl⟩ := bind_keyOf h
        rw [parentText_of_concat hl hpath] at hp
        exact Or.inl ⟨d, p, by rw [hmark], rfl, hp⟩
    · next hmark =>
      split at h
      · next hstart =>
        obtain ⟨x, rfl⟩ := List.isPrefixOf_iff_prefix.mp hstart
        rw [List.drop_left] at h
        split at h
        · cases h
        · next htarget =>
          split at h
          · cases h
          -- The target is a name of its own, and no marker again.
          · simp only [not_or] at htarget
            obtain ⟨hnil, hdot, -, hmarker⟩ := htarget
            have hx : IsName x := ⟨⟨hnil, hdot⟩, fun hmem =>
              hc.2 (List.mem_append_right _ hmem)⟩
            obtain ⟨p, hp, rfl⟩ := bind_keyOf h
            rw [whiteoutTargetText_of_concat hl hx hpath] at hp
            refine Or.inr (Or.inl ⟨d, x, p, rfl, hmark, hx, fun hcon => ?_, rfl, hp⟩)
            exact hmarker (List.isPrefixOf_iff_prefix.mpr hcon)
      · next hstart =>
        obtain ⟨p, hp, rfl⟩ := bind_keyOf h
        refine Or.inr (Or.inr ⟨fun d' x hconcat => hstart ?_, p, rfl, hp.trans hpath⟩)
        obtain ⟨-, hlast⟩ := List.append_inj' hconcat rfl
        rw [List.singleton_inj.mp hlast, List.isPrefixOf_iff_prefix]
        exact List.prefix_append _ _

/-- A member is about a directory with a marker's name, or about what is below one, when its name
goes through that directory. -/
theorem reaches_marked_iff {d : List Text} {x : Text} {q : RelPath} (h : classify m = .ok a)
    (hl : ∀ comp ∈ l, IsName comp) (hpath : m.path = ofParts l)
    (hq : q.text = ofParts (d ++ [whiteoutStart ++ x]))
    (hnames : ∀ comp ∈ d ++ [whiteoutStart ++ x], IsName comp) :
    AtOrAbove q a.subject ↔ Inside (d ++ [whiteoutStart ++ x]) l := by
  rcases classify_names h hl hpath with ⟨d', p, rfl, rfl, hp⟩ | ⟨d', y, p, rfl, -, hy, hstart, rfl,
    hp⟩ | ⟨hplace, p, rfl, hp⟩
  · have hd' : ∀ comp ∈ d', IsName comp := fun comp hcomp => hl comp (List.mem_append_left _ hcomp)
    rw [Action.subject, atOrAbove_iff_front hd' hp hnames hq, inside_concat_iff]
  · have hd' : ∀ comp ∈ d' ++ [y], IsName comp := by
      intro comp hcomp
      rcases List.mem_append.mp hcomp with hcomp | hcomp
      · exact hl comp (List.mem_append_left _ hcomp)
      · exact List.mem_singleton.mp hcomp ▸ hy
    rw [Action.subject, atOrAbove_iff_front hd' hp hnames hq, inside_concat_iff,
      List.prefix_concat_iff, or_iff_right]
    intro heq
    obtain ⟨-, hlast⟩ := List.append_inj' heq rfl
    exact hstart ⟨x, List.singleton_inj.mp hlast⟩
  · rw [Action.subject, atOrAbove_iff_front hl hp hnames hq, Inside, and_iff_left]
    exact fun heq => hplace d x heq.symm

/-- What a member takes away is told by its name. -/
theorem buries_iff_removes (listed : Bool) {k : List Text} {q : RelPath} (h : classify m = .ok a)
    (hl : ∀ comp ∈ l, IsName comp) (hpath : m.path = ofParts l) (hq : q.text = ofParts k)
    (hk : ∀ comp ∈ k, IsName comp) :
    a.Buries m.kind listed q ↔ (⟨l, m.kind = .directory⟩ : MemberName).Removes listed k := by
  rcases classify_names h hl hpath with ⟨d', p, rfl, rfl, hp⟩ | ⟨d', y, p, rfl, hmark, hy, -, rfl,
    hp⟩ | ⟨hplace, p, rfl, hp⟩
  · have hd' : ∀ comp ∈ d', IsName comp := fun comp hcomp => hl comp (List.mem_append_left _ hcomp)
    have hdot : p = RelPath.dot ↔ d' ++ [opaqueName] = [opaqueName] := by
      rw [List.append_left_eq_self]
      constructor
      · rintro rfl
        have hparts := congrArg parts hp
        rw [parts_ofParts hd'] at hparts
        exact hparts.symm
      · rintro rfl
        exact RelPath.ext_text hp
    -- An opaque marker buries the tree only at a root that no member lists.
    rw [Action.Buries, MemberName.Removes, hdot]
    constructor
    · exact Or.inl
    · rintro (h | ⟨d, x, heq, hne, -⟩ | ⟨-, hmarker, -⟩)
      · exact h
      · obtain ⟨-, hlast⟩ := List.append_inj' heq rfl
        exact absurd (List.singleton_inj.mp hlast).symm hne
      · exact absurd (by rw [← opaqueName_eq]) (hmarker d' _)
  · have hd' : ∀ comp ∈ d' ++ [y], IsName comp := by
      intro comp hcomp
      rcases List.mem_append.mp hcomp with hcomp | hcomp
      · exact hl comp (List.mem_append_left _ hcomp)
      · exact List.mem_singleton.mp hcomp ▸ hy
    rw [Action.Buries, MemberName.Removes, above_iff_inside hk hq hd' hp]
    constructor
    · exact fun h => Or.inr (Or.inl ⟨d', y, rfl, hmark, h⟩)
    · rintro (⟨heq, -⟩ | ⟨d, x, heq, -, h⟩ | ⟨-, hmarker, -⟩)
      · rw [← List.nil_append [opaqueName]] at heq
        obtain ⟨-, hlast⟩ := List.append_inj' heq rfl
        exact absurd (List.singleton_inj.mp hlast) hmark
      · obtain ⟨rfl, rfl⟩ := marker_concat heq
        exact h
      · exact absurd rfl (hmarker d' y)
  · rw [Action.Buries, MemberName.Removes, above_iff_inside hk hq hl hp]
    constructor
    · rintro ⟨hkind, h⟩
      exact Or.inr (Or.inr ⟨decide_eq_false hkind, hplace, h⟩)
    · rintro (⟨heq, -⟩ | ⟨d, x, heq, -⟩ | ⟨hkind, -, h⟩)
      · exact absurd (by rw [List.nil_append, ← opaqueName_eq]; exact heq) (hplace [] _)
      · exact absurd heq (hplace d x)
      · exact ⟨of_decide_eq_false hkind, h⟩

end Asked

/-! ### What an archive leaves -/

/-- A member as both intakes hand it to the reducer: its path is in normal form and not in the
reserved tree, and only a directory is at the root. -/
structure ChangesetMember.Plain (m : ChangesetMember π) : Prop where
  normal : m.path = ofParts (parts m.path)
  root : parts m.path = [] → m.kind = .directory
  unreserved : isPalimpsest m.path = false

theorem isName_of_mem_name {m : ChangesetMember π} : ∀ comp ∈ m.name.parts, IsName comp :=
  fun _ hcomp => isName_of_mem_parts hcomp

section Archive

variable {ms : List (ChangesetMember π)} {out : List (NormalizedEntry π)} {m : ChangesetMember π}
  {q r : RelPath}

/-- Every member of an archive that is reduced has an action. -/
theorem exists_classify (h : normalizeChangeset ms = .ok out) :
    ∀ m ∈ ms, ∃ a, classify m = .ok a := by
  obtain ⟨st, -, hrun, -⟩ := normalizeChangeset_eq_ok h
  refine Reduction.run_induction (motive := fun ms _ => ∀ m ∈ ms, ∃ a, classify m = .ok a)
    (List.forall_mem_nil _) ?_ hrun
  intro ms m st st' _ _ hstep ih m' hm'
  rcases List.mem_append.mp hm' with hm' | hm'
  · exact ih m' hm'
  · obtain ⟨a, ha, -⟩ := Reduction.step_eq_ok.mp hstep
    exact ⟨a, List.mem_singleton.mp hm' ▸ ha⟩

/-- What is below something that stays keeps it there. -/
theorem LeavesEntry.above (h : LeavesEntry ms q) (hr : AtOrAbove r q) : LeavesEntry ms r := by
  obtain ⟨before, e, after, hsplit, ⟨a, ha, hreach⟩, hkeep⟩ := h
  refine ⟨before, e, after, hsplit, ⟨a, ha, hr.trans hreach⟩, fun e' he' ⟨b, hb, hburies⟩ => ?_⟩
  refine hkeep e' he' ⟨b, hb, ?_⟩
  cases b with
  | opq d => exact hburies
  | whiteout t => exact hburies.trans_atOrAbove hr
  | place p => exact ⟨hburies.1, hburies.2.trans_atOrAbove hr⟩

/-- The root is listed once the archive has named it, or its opaque marker. -/
theorem listsRoot_eq {a : Action} {listed : Bool} (ha : classify m = .ok a) (hm : m.Plain) :
    listsRoot listed m =
      (listed || decide (m.name.parts = [] ∨ m.name.parts = [opaqueName])) := by
  have hroot : ∀ {d : List Text} {p : RelPath}, (∀ comp ∈ d, IsName comp) → p.text = ofParts d →
      (p = RelPath.dot ↔ d = []) := by
    intro d p hd hp
    constructor
    · rintro rfl
      have hparts := congrArg parts hp
      rw [parts_ofParts hd] at hparts
      exact hparts.symm
    · rintro rfl
      exact RelPath.ext_text hp
  have hl := isName_of_mem_name (m := m)
  rw [listsRoot, ha]
  rcases classify_names ha hl hm.normal with ⟨d, p, hparts, rfl, hp⟩ | ⟨d, x, p, hparts, hmark, -,
    -, rfl, -⟩ | ⟨hplace, p, rfl, hp⟩
  · rw [hparts] at hl ⊢
    have hd := hroot (fun comp hcomp => hl comp (List.mem_append_left _ hcomp)) hp
    simp only [hd, List.append_eq_nil_iff, List.cons_ne_nil, and_false, false_or,
      List.append_left_eq_self, Bool.or_comm]
  · have hne : ¬(m.name.parts = [] ∨ m.name.parts = [opaqueName]) := by
      rw [hparts]
      rintro (h | h)
      · exact List.append_ne_nil_of_right_ne_nil _ (List.cons_ne_nil _ _) h
      · rw [← List.nil_append [opaqueName]] at h
        obtain ⟨-, hlast⟩ := List.append_inj' h rfl
        exact hmark (List.singleton_inj.mp hlast)
    rw [decide_eq_false hne, Bool.or_false]
  · have hmarker : m.name.parts ≠ [opaqueName] := by
      rw [opaqueName_eq]
      exact hplace [] _
    simp only [hroot hl hp, hmarker, or_false]
    by_cases hnil : m.name.parts = []
    · simp only [hnil, if_true, hm.root hnil, decide_true, Bool.or_true]
    · simp only [hnil, if_false, decide_false, Bool.or_false]

theorem rootListed_eq (hclassify : ∀ m ∈ ms, ∃ a, classify m = .ok a) (hplain : ∀ m ∈ ms, m.Plain) :
    rootListed ms = rootNamed (ms.map ChangesetMember.name) := by
  induction ms using List.reverseRecOn with
  | nil => rfl
  | append_singleton ms m ih =>
    rw [List.forall_mem_append, List.forall_mem_singleton] at hclassify hplain
    obtain ⟨a, ha⟩ := hclassify.2
    have ih := ih hclassify.1 hplain.1
    rw [rootListed] at ih
    rw [rootListed, List.foldl_append, List.foldl_cons, List.foldl_nil, listsRoot_eq ha hplain.2,
      ih, rootNamed, rootNamed, List.map_append, List.any_append, List.map_singleton, List.any_cons,
      List.any_nil, Bool.or_false]

/-- **What the members leave is told by their names.** -/
theorem leavesEntry_iff_stays {P : MemberName → Prop} {k : List Text}
    (hclassify : ∀ m ∈ ms, ∃ a, classify m = .ok a) (hplain : ∀ m ∈ ms, m.Plain)
    (hq : q.text = ofParts k) (hk : ∀ comp ∈ k, IsName comp)
    (hreach : ∀ m ∈ ms, ∀ a, classify m = .ok a → (AtOrAbove q a.subject ↔ P m.name)) :
    LeavesEntry ms q ↔ Stays P k (ms.map ChangesetMember.name) := by
  induction ms using List.reverseRecOn with
  | nil => exact iff_of_false not_since_nil not_stays_nil
  | append_singleton ms m ih =>
    rw [List.forall_mem_append, List.forall_mem_singleton] at hclassify hplain hreach
    obtain ⟨a, ha⟩ := hclassify.2
    have hreaches : Reaches q (rootListed ms, m) ↔ P m.name := by
      rw [← hreach.2 a ha, Reaches]
      constructor
      · rintro ⟨b, hb, h⟩
        rwa [Except.ok.inj (ha.symm.trans hb)]
      · exact fun h => ⟨a, ha, h⟩
    have hburies : Buries q (rootListed ms, m) ↔
        m.name.Removes (rootNamed (ms.map ChangesetMember.name)) k := by
      have hremoves := buries_iff_removes (rootListed ms) ha isName_of_mem_name
        hplain.2.normal hq hk
      rw [← rootListed_eq hclassify.1 hplain.1]
      refine Iff.trans ?_ hremoves
      constructor
      · rintro ⟨b, hb, h⟩
        rwa [Except.ok.inj (ha.symm.trans hb)]
      · exact fun h => ⟨a, ha, h⟩
    rw [LeavesEntry, history_concat, since_concat, List.map_append, List.map_singleton,
      stays_concat, hreaches, hburies, ← ih hclassify.1 hplain.1 hreach.1]
    rfl

/-- A name with a marker in it goes through a directory with a marker's name. -/
theorem exists_marked_of_leaves (hplain : ∀ m ∈ ms, m.Plain) (h : LeavesEntry ms q)
    (hq : hasMarker q.text = true) : ∃ (d : List Text) (x : Text) (r : RelPath),
      r.text = ofParts (d ++ [whiteoutStart ++ x]) ∧
        (∀ comp ∈ d ++ [whiteoutStart ++ x], IsName comp) ∧ LeavesEntry ms r := by
  have hdot : q ≠ RelPath.dot := ne_dot_of_reserved (by rw [isReserved, hq, Bool.or_true])
  obtain ⟨e, he, a, ha, habove⟩ := Since.exists_mem h
  have hmem := mem_of_mem_history he
  -- what the member is about is a path of names, and so is everything above it
  obtain ⟨l, hl, hp⟩ : ∃ l, (∀ comp ∈ l, IsName comp) ∧ a.subject.text = ofParts l := by
    have hl := isName_of_mem_name (m := e.2)
    rcases classify_names ha hl (hplain _ hmem).normal with ⟨d, p, hparts, rfl, hp⟩ | ⟨d, x, p,
      hparts, -, hx, -, rfl, hp⟩ | ⟨-, p, rfl, hp⟩
    · rw [hparts] at hl
      exact ⟨d, fun comp hcomp => hl comp (List.mem_append_left _ hcomp), hp⟩
    · rw [hparts] at hl
      refine ⟨d ++ [x], fun comp hcomp => ?_, hp⟩
      rcases List.mem_append.mp hcomp with hcomp | hcomp
      · exact hl comp (List.mem_append_left _ hcomp)
      · exact List.mem_singleton.mp hcomp ▸ hx
    · exact ⟨_, hl, hp⟩
  obtain ⟨k, hinit, hk⟩ := (atOrAbove_iff_parts hl hp).mp habove
  have hnames : ∀ comp ∈ k, IsName comp := fun comp hcomp => hl comp (hinit.subset hcomp)
  have hne : k ≠ [] := by
    rintro rfl
    exact hdot (RelPath.ext_text hk)
  rw [hasMarker, hk, splitOn_ofParts hnames hne, List.any_eq_true] at hq
  obtain ⟨comp, hcomp, hstart⟩ := hq
  obtain ⟨x, rfl⟩ := List.isPrefixOf_iff_prefix.mp hstart
  obtain ⟨d, rest, rfl⟩ := List.append_of_mem hcomp
  have hfront : d ++ [whiteoutStart ++ x] <+: d ++ (whiteoutStart ++ x) :: rest :=
    ⟨rest, by rw [List.append_assoc, List.singleton_append]⟩
  have hnames' : ∀ comp ∈ d ++ [whiteoutStart ++ x], IsName comp :=
    fun comp hcomp => hnames comp (hfront.subset hcomp)
  let r : RelPath := ⟨_, ofParts_ne_nil hnames', isAbs_ofParts hnames'⟩
  refine ⟨d, x, r, rfl, hnames', h.above ?_⟩
  exact (atOrAbove_iff_front (q := r) hnames hk hnames' rfl).mpr hfront

/-- A path with a marker's name stays if and only if a directory with one does. -/
theorem marked_iff (hclassify : ∀ m ∈ ms, ∃ a, classify m = .ok a) (hplain : ∀ m ∈ ms, m.Plain) :
    (∃ q : RelPath, hasMarker q.text = true ∧ LeavesEntry ms q) ↔
      MarkedDirectoryStays (ms.map ChangesetMember.name) := by
  have hstays : ∀ {d : List Text} {x : Text} {r : RelPath},
      r.text = ofParts (d ++ [whiteoutStart ++ x]) →
      (∀ comp ∈ d ++ [whiteoutStart ++ x], IsName comp) →
      (LeavesEntry ms r ↔ Stays (fun n => Inside (d ++ [whiteoutStart ++ x]) n.parts)
        (d ++ [whiteoutStart ++ x]) (ms.map ChangesetMember.name)) := fun hr hnames =>
    leavesEntry_iff_stays hclassify hplain hr hnames fun m hm a ha =>
      reaches_marked_iff ha isName_of_mem_name (hplain m hm).normal hr hnames
  constructor
  · rintro ⟨q, hq, hleaves⟩
    obtain ⟨d, x, r, hr, hnames, hleaves⟩ := exists_marked_of_leaves hplain hleaves hq
    exact ⟨d, x, (hstays hr hnames).mp hleaves⟩
  · rintro ⟨d, x, hmarked⟩
    obtain ⟨earlier, n, later, hsplit, hinside, -⟩ := id hmarked
    have hn : n ∈ ms.map ChangesetMember.name := by
      rw [hsplit]
      exact List.mem_append_right _ List.mem_cons_self
    obtain ⟨m, -, rfl⟩ := List.mem_map.mp hn
    have hnames : ∀ comp ∈ d ++ [whiteoutStart ++ x], IsName comp :=
      fun comp hcomp => isName_of_mem_name comp (hinside.1.subset hcomp)
    -- The directory itself is such a path.
    let r : RelPath := ⟨_, ofParts_ne_nil hnames, isAbs_ofParts hnames⟩
    refine ⟨r, ?_, (hstays rfl hnames).mpr hmarked⟩
    have hne : d ++ [whiteoutStart ++ x] ≠ [] :=
      List.append_ne_nil_of_right_ne_nil _ (List.cons_ne_nil _ _)
    have hsplitOn : r.text.splitOn '/' = d ++ [whiteoutStart ++ x] := splitOn_ofParts hnames hne
    rw [hasMarker, hsplitOn, List.any_eq_true]
    exact ⟨_, List.mem_append_right _ List.mem_cons_self,
      List.isPrefixOf_iff_prefix.mpr (List.prefix_append _ _)⟩

/-- A member outside the reserved tree is about it only as a whiteout of it. -/
theorem reaches_palimpsest_iff {a : Action} (ha : classify m = .ok a) (hm : m.Plain)
    (hq : q.text = palimpsestName) :
    AtOrAbove q a.subject ↔ m.name.parts = [whiteoutStart ++ palimpsestName] := by
  have hk : ∀ comp ∈ [palimpsestName], IsName comp :=
    List.forall_mem_singleton.mpr ⟨by decide, by decide⟩
  have hq' : q.text = ofParts [palimpsestName] := by rw [hq, ofParts_singleton]
  have hl := isName_of_mem_name (m := m)
  -- The intake refuses the reserved tree itself.
  have hout : ¬[palimpsestName] <+: m.name.parts := by
    intro hinit
    let p : RelPath := ⟨_, ofParts_ne_nil hl, isAbs_ofParts hl⟩
    have habove : AtOrAbove q p := (atOrAbove_iff_front hl rfl hk hq').mpr hinit
    have hpal : isPalimpsest p.text = true :=
      isPalimpsest_of_atOrAbove habove (by rw [hq]; decide)
    have htext : p.text = m.path := hm.normal.symm
    rw [htext, hm.unreserved] at hpal
    cases hpal
  rcases classify_names ha hl hm.normal with ⟨d, p, hparts, rfl, hp⟩ | ⟨d, x, p, hparts, -, hx, -,
    rfl, hp⟩ | ⟨hplace, p, rfl, hp⟩
  · rw [hparts] at hl hout ⊢
    have hd : ∀ comp ∈ d, IsName comp := fun comp hcomp => hl comp (List.mem_append_left _ hcomp)
    rw [Action.subject, atOrAbove_iff_front hd hp hk hq']
    refine iff_of_false (fun h => hout (h.trans (List.prefix_append _ _))) fun h => ?_
    rw [← List.nil_append [whiteoutStart ++ palimpsestName]] at h
    obtain ⟨-, hlast⟩ := List.append_inj' h rfl
    exact absurd (List.singleton_inj.mp hlast) (by decide)
  · rw [hparts] at hl hout ⊢
    have hd : ∀ comp ∈ d ++ [x], IsName comp := by
      intro comp hcomp
      rcases List.mem_append.mp hcomp with hcomp | hcomp
      · exact hl comp (List.mem_append_left _ hcomp)
      · exact List.mem_singleton.mp hcomp ▸ hx
    rw [Action.subject, atOrAbove_iff_front hd hp hk hq', List.prefix_concat_iff]
    constructor
    · rintro (h | h)
      · rw [← List.nil_append [palimpsestName]] at h
        obtain ⟨rfl, hlast⟩ := List.append_inj' h rfl
        rw [List.singleton_inj.mp hlast, List.nil_append]
      · exact absurd (h.trans (List.prefix_append _ _)) hout
    · intro h
      rw [← List.nil_append [whiteoutStart ++ palimpsestName]] at h
      obtain ⟨rfl, rfl⟩ := marker_concat h
      exact Or.inl rfl
  · rw [Action.subject, atOrAbove_iff_front hl hp hk hq']
    exact iff_of_false hout (hplace [] palimpsestName)

theorem reservedWhiteout_iff (hclassify : ∀ m ∈ ms, ∃ a, classify m = .ok a)
    (hplain : ∀ m ∈ ms, m.Plain) :
    (∃ q : RelPath, q.text = palimpsestName ∧ LeavesEntry ms q) ↔
      ReservedWhiteoutStays (ms.map ChangesetMember.name) := by
  have hk : ∀ comp ∈ [palimpsestName], IsName comp :=
    List.forall_mem_singleton.mpr ⟨by decide, by decide⟩
  have hstays : ∀ {q : RelPath}, q.text = palimpsestName →
      (LeavesEntry ms q ↔ ReservedWhiteoutStays (ms.map ChangesetMember.name)) := fun hq =>
    leavesEntry_iff_stays hclassify hplain (by rw [hq, ofParts_singleton]) hk fun m hm a ha =>
      reaches_palimpsest_iff ha (hplain m hm) hq
  constructor
  · rintro ⟨q, hq, h⟩
    exact (hstays hq).mp h
  · intro h
    let q : RelPath := ⟨palimpsestName, by decide, by decide⟩
    exact ⟨q, rfl, (hstays (q := q) rfl).mpr h⟩

theorem rel_of_plain (hplain : ∀ m ∈ ms, m.Plain) : ∀ m ∈ ms, isAbs m.path = false := by
  intro m hm
  rw [(hplain m hm).normal]
  exact isAbs_ofParts isName_of_mem_name

/-- **When no reserved name reaches the changeset**, by the names of the members. -/
theorem unreserved_iff_names (hout : normalizeChangeset ms = .ok out)
    (hplain : ∀ m ∈ ms, m.Plain) :
    (∀ e ∈ out, isReserved e.path.text = false) ↔
      ¬MarkedDirectoryStays (ms.map ChangesetMember.name) ∧
        ¬ReservedWhiteoutStays (ms.map ChangesetMember.name) := by
  have hclassify := exists_classify hout
  rw [unreserved_iff hout (rel_of_plain hplain) fun m hm => (hplain m hm).unreserved,
    ← marked_iff hclassify hplain, ← reservedWhiteout_iff hclassify hplain]
  constructor
  · intro h
    exact ⟨fun ⟨q, hq, hleaves⟩ => h q (Or.inl hq) hleaves,
      fun ⟨q, hq, hleaves⟩ => h q (Or.inr hq) hleaves⟩
  · rintro ⟨hmarked, hwhiteout⟩ q (hq | hq) hleaves
    · exact hmarked ⟨q, hq, hleaves⟩
    · exact hwhiteout ⟨q, hq, hleaves⟩

/-- Where no whiteout names the reserved tree, the directories decide. -/
theorem unreserved_iff_directories (hout : normalizeChangeset ms = .ok out)
    (hplain : ∀ m ∈ ms, m.Plain)
    (hwhiteout : ∀ m ∈ ms, ∀ t, classify m = .ok (.whiteout t) → t.text ≠ palimpsestName) :
    (∀ e ∈ out, isReserved e.path.text = false) ↔
      ¬MarkedDirectoryStays (ms.map ChangesetMember.name) := by
  have hclassify := exists_classify hout
  rw [unreserved_iff_names hout hplain, and_iff_left]
  rw [← reservedWhiteout_iff hclassify hplain]
  rintro ⟨q, hq, hleaves⟩
  have htree : isPalimpsest q.text = true := by
    rw [hq]
    decide
  obtain ⟨-, m, hm, t, ha, ht⟩ := exists_whiteout (rel_of_plain hplain)
    (fun m hm => (hplain m hm).unreserved) hleaves htree
  exact hwhiteout m hm t ha ht

end Archive

end Palimpsest
