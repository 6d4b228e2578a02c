import Palimpsest.Changeset.Effects

/-!
# The layout of a layer

What a layer says about a path, as far as an overlay file system is concerned: what
kind of entry lies there, and whether it is an opaque directory. A
`Palimpsest.Layout` is such a map, and `Palimpsest.Layout.act` says what a member
does to it, with no table, index or waiting set in sight. The table of the reducer
refines it (`Palimpsest.Reduction.layout_step`).
-/

namespace Palimpsest

open ParentTree

/-- What a layer has at a path. -/
structure Shape where
  kind : EntryKind
  isOpaque : Bool
  deriving DecidableEq

/-- What a layer has at each path. -/
abbrev Layout := RelPath → Option Shape

namespace Layout

variable (L : Layout)

/-- The path is an opaque directory. -/
def opaqueAt (p : RelPath) : Bool := (L p).any (·.isOpaque)

/-- The path is a directory. -/
def dirAt (p : RelPath) : Bool := (L p).any (·.kind = .directory)

/-- The path is something else than a directory. -/
def leafAt (p : RelPath) : Bool := (L p).any (·.kind ≠ .directory)

/-- Every strict ancestor but the root is made a directory. -/
def withParents (p : RelPath) : Layout := fun q =>
  if q ∈ walk p then some ⟨.directory, L.opaqueAt q⟩ else L q

/-- What a member of kind `kind` does to a layout. -/
def act (kind : EntryKind) : Action → Layout
  | .opq d => fun q =>
    if q = d then some ⟨.directory, true⟩
    else if d = RelPath.dot ∧ ¬L.dirAt d then none
    else L.withParents d q
  | .whiteout t => fun q =>
    if q = t then some ⟨.whiteout, false⟩
    else if Above t q then none
    else L.withParents t q
  | .place p => fun q =>
    if q = p then some ⟨kind, kind = .directory && L.opaqueAt p⟩
    else if kind ≠ .directory ∧ Above p q then none
    else L.withParents p q

end Layout

namespace Reduction

variable {π : Type} {st st' : Reduction π} {m : ChangesetMember π} {n : Node π} {p q d : RelPath}
  {refresh : Bool}

/-- What the table has at each path. -/
def layout (st : Reduction π) : Layout := fun q =>
  (st.node? q).map fun n => ⟨n.kind, n.isOpaque⟩

theorem layout_of_node? (h : st.node? p = some n) : st.layout p = some ⟨n.kind, n.isOpaque⟩ := by
  rw [layout, h, Option.map_some]

theorem layout_congr (h : st'.node? p = st.node? q) : st'.layout p = st.layout q := by
  rw [layout, h, layout]

theorem layout_eq_none (h : st.node? p = none) : st.layout p = none := by
  rw [layout, h, Option.map_none]

theorem dirAt_layout : st.layout.dirAt p = true ↔ st.IsDir p := by
  rw [Layout.dirAt, IsDir, layout]
  cases st.node? p <;> simp

/-- An ancestor that becomes a directory keeps the opaque state it has. -/
theorem layout_ensuredNode (h : st.Treelike) :
    (⟨(ensuredNode m refresh q (st.node? q)).kind, (ensuredNode m refresh q (st.node? q)).isOpaque⟩
      : Shape) = ⟨.directory, st.layout.opaqueAt q⟩ := by
  rw [kind_ensuredNode, Layout.opaqueAt, layout]
  unfold ensuredNode
  cases hn : st.node? q with
  | none => rfl
  | some n =>
    by_cases hk : n.kind = .directory
    · simp only [hk, if_true, isOpaque_refreshNode, Option.map_some, Option.any_some]
    · have hopq : n.isOpaque = false := by
        by_contra hcon
        exact hk ((h.ok q n hn).opq (by simpa using hcon))
      simp only [hk, if_false, impliedNode, Option.map_some, Option.any_some, hopq]

theorem layout_opaqueMarker (h : st.WellFormed) :
    (st.opaqueMarker d m).layout = st.layout.act m.kind (.opq d) := by
  funext q
  rw [Layout.act]
  dsimp only
  by_cases hd : d = RelPath.dot
  · subst hd
    have hspec := (opaqueMarker_dot_spec (m := m) h).2.2 q
    have hwalk : st.layout.withParents RelPath.dot q = st.layout q := by
      rw [Layout.withParents]
      exact if_neg (by rw [show walk RelPath.dot = [] from walk_root]; exact List.not_mem_nil)
    rw [hwalk]
    split at hspec
    · rename_i hq
      rw [if_pos hq, layout_of_node? hspec, kind_opaqueNode, isOpaque_opaqueNode]
    · rename_i hq
      rw [if_neg hq]
      split at hspec
      · rename_i hdir
        rw [if_neg fun hcon => hcon.2 (dirAt_layout.mpr hdir)]
        exact layout_congr hspec
      · rename_i hdir
        rw [if_pos ⟨rfl, fun hcon => hdir (dirAt_layout.mp hcon)⟩]
        exact layout_eq_none hspec
  · have hspec := (opaqueMarker_spec (m := m) h hd).2.2 q
    rw [if_neg (show ¬(d = RelPath.dot ∧ ¬st.layout.dirAt d = true) from fun hcon => hd hcon.1),
      Layout.withParents]
    split at hspec
    · rename_i hq
      rw [if_pos hq, layout_of_node? hspec, kind_opaqueNode, isOpaque_opaqueNode]
    · rename_i hq
      rw [if_neg hq]
      split at hspec
      · rename_i hw
        rw [if_pos hw, layout_of_node? hspec, layout_ensuredNode h.toTreelike]
      · rename_i hw
        rw [if_neg hw]
        exact layout_congr hspec

theorem layout_whiteoutMarker (h : st.WellFormed) :
    (st.whiteoutMarker p m).layout = st.layout.act m.kind (.whiteout p) := by
  funext q
  have hspec := (whiteoutMarker_spec (p := p) (m := m) h).2.2 q
  rw [Layout.act]
  dsimp only
  rw [Layout.withParents]
  split at hspec
  · rename_i hq
    rw [if_pos hq, layout_of_node? hspec]
    rfl
  · rename_i hq
    rw [if_neg hq]
    split at hspec
    · rename_i hb
      rw [if_pos hb]
      exact layout_eq_none hspec
    · rename_i hb
      rw [if_neg hb]
      split at hspec
      · rename_i hw
        rw [if_pos hw, layout_of_node? hspec, layout_ensuredNode h.toTreelike]
      · rename_i hw
        rw [if_neg hw]
        exact layout_congr hspec

/-- Taking its place, a member changes the shape of no other path. -/
theorem layout_place (h : st.WellFormed) (hok : st.placeMember p m = .ok st') :
    ∀ q, st'.layout q =
      if q = p then some ⟨m.kind, (st.clearPlace p m).preserveOpaque p m⟩
      else (st.clearPlace p m).layout q := by
  intro q
  obtain ⟨h1, -, -⟩ := clearPlace_spec (p := p) (m := m) h
  have hpar : ∀ e, p.parent = some e → e ≠ RelPath.dot → (st.clearPlace p m).IsDir e :=
    fun e he hne => clearPlace_isDir h he hne
  have hbelow : m.kind ≠ .directory → ∀ r, Above p r → (st.clearPlace p m).node? r = none :=
    fun hk r hr => clearPlace_below h hk hr
  have hpres : m.kind ≠ .directory → (st.clearPlace p m).preserveOpaque p m = false := by
    intro hk
    by_contra hcon
    exact hk (isDir_of_preserveOpaque (by simpa using hcon))
  -- A file, a hard link, or anything else.
  rcases placeMember_cases hok with ⟨hk, rfl⟩ | ⟨hk, hlink⟩ | ⟨hf, hl, rfl⟩
  · have hspec := (placeFile_spec (m := m) h1 hpar (hbelow (by simp [hk]))).2.2.2 q
    rw [hpres (by simp [hk]), hk]
    split at hspec
    · rename_i hq
      rw [if_pos hq, layout_of_node? hspec]
      rfl
    · rename_i hq
      rw [if_neg hq, layout, hspec, layout]
      split
      · cases (st.clearPlace p m).node? q <;> rfl
      · rfl
  · rw [hpres (by simp [hk]), hk]
    rcases (placeHardlink_cases hlink).2 with ⟨target, ht, hfile, rfl⟩ | ⟨-, rfl⟩
    · rw [layout, node?_setNode]
      split
      · rfl
      · rfl
    · rw [layout, (putForward_spec h1 hpar (hbelow (by simp [hk]))).2.2.2]
      split
      · rfl
      · rfl
  · rw [layout, (placeOther_spec h1 hf hl hpar hbelow).2.2]
    split
    · rfl
    · rfl

theorem preserveOpaque_clearPlace (h : st.WellFormed) :
    (st.clearPlace p m).preserveOpaque p m =
      (decide (m.kind = .directory) && st.layout.opaqueAt p) := by
  rw [preserveOpaque, node?_clearPlace_self h, Layout.opaqueAt, layout]
  cases hn : st.node? p with
  | none => simp
  | some n =>
    have hok := (h.ok p n hn).opq
    cases hopq : n.isOpaque with
    | false => simp [hopq]
    | true => simp [hopq, hok hopq]

theorem layout_clearPlace (h : st.WellFormed) :
    (st.clearPlace p m).layout q =
      if m.kind ≠ .directory ∧ Above p q then none else st.layout.withParents p q := by
  have hspec := (clearPlace_spec (p := p) (m := m) h).2.2 q
  rw [Layout.withParents]
  split at hspec
  · rename_i hb
    rw [if_pos hb]
    exact layout_eq_none hspec
  · rename_i hb
    rw [if_neg hb]
    split at hspec
    · rename_i hw
      rw [if_pos hw, layout_of_node? hspec, layout_ensuredNode h.toTreelike]
    · rename_i hw
      rw [if_neg hw]
      exact layout_congr hspec

/-- **The table refines the layout**: what a round does to the shapes of the paths is
a function of these shapes. -/
theorem layout_step (h : st.WellFormed) (hok : st.step m = .ok st') :
    ∃ a, classify m = .ok a ∧ st'.layout = st.layout.act m.kind a := by
  obtain ⟨a, ha, hact⟩ := step_eq_ok.mp hok
  refine ⟨a, ha, ?_⟩
  cases a with
  | opq d =>
    obtain rfl : st.opaqueMarker d m = st' := Except.ok.inj hact
    exact layout_opaqueMarker h
  | whiteout t =>
    obtain rfl : st.whiteoutMarker t m = st' := Except.ok.inj hact
    exact layout_whiteoutMarker h
  | place p =>
    funext q
    rw [layout_place h hact, preserveOpaque_clearPlace h, layout_clearPlace h]
    rfl

end Reduction

end Palimpsest
