import Mathlib.Algebra.Order.BigOperators.Group.List
import Mathlib.Algebra.Order.Group.Nat
import Palimpsest.Changeset.Events
import Palimpsest.Changeset.LayerTree

/-!
# When hiding is lost

An overlay file system reads the entries of a layer over a lower tree: an entry
that is no directory hides what the lower tree has at and below its path, an opaque
directory what it has below. A layer should hide everything below a path that one
of its members deleted, replaced or made opaque. The reducer keeps that promise
for opaque directories, which stay opaque when they are listed again, but not for
deleted and replaced paths: once such a path is a directory again, nothing remembers
that it was deleted. `Palimpsest.hidingKept_iff` says exactly when that matters.
-/

namespace Palimpsest

open ParentTree

variable {π : Type}

/-- The paths of a directory tree under a layer. -/
structure LowerTree where
  paths : Set RelPath
  closed : ∀ q d, q ∈ paths → q.parent = some d → d ∈ paths

/-- An overlay file system hides the lower path `q` because of an entry. -/
def NormalizedEntry.Hides (e : NormalizedEntry π) (q : RelPath) : Prop :=
  e.kind ≠ .directory ∧ AtOrAbove e.path q ∨
    e.kind = .directory ∧ e.isOpaque = true ∧ Above e.path q

instance (e : NormalizedEntry π) (q : RelPath) : Decidable (e.Hides q) :=
  inferInstanceAs (Decidable (_ ∨ _))

/-- The lower path `q` is visible in the merged view. -/
def Visible (out : List (NormalizedEntry π)) (lower : LowerTree) (q : RelPath) : Prop :=
  q ∈ lower.paths ∧ ∀ e ∈ out, ¬e.Hides q

/-- Nothing of a lower tree is visible below a path that a member deleted, replaced
or made opaque. -/
def HidingKept (ms : List (ChangesetMember π)) (out : List (NormalizedEntry π)) : Prop :=
  ∀ (lower : LowerTree) (p : RelPath), (∃ m ∈ ms, Clears m p ∨ Marks m p) →
    ∀ q, Above p q → ¬Visible out lower q

/-- A path that something can lie in was deleted or replaced, and created again as a
directory later, with nothing at or above it deleted, replaced or made opaque in the
meantime or since, and nothing above it hiding it at the end. -/
def Resurrected (ms : List (ChangesetMember π)) (b : RelPath) : Prop :=
  (∃ q : RelPath, q.parent = some b) ∧ (∀ a, Above a b → ¬StaysHidden ms a) ∧
    ∃ earlier m later, ms = earlier ++ m :: later ∧ Clears m b ∧
      (∃ m' ∈ later, Recreates m' b) ∧
      ∀ m' ∈ later, ∀ c, AtOrAbove c b → ¬Clears m' c ∧ ¬Marks m' c

/-! ### Paths -/

namespace RelPath

/-- Something lies on the way from a path to any path below it. -/
theorem exists_child {b q : RelPath} (h : Above b q) : ∃ c : RelPath, c.parent = some b := by
  obtain ⟨c, hc, -⟩ := Relation.TransGen.head'_iff.mp h
  exact ⟨c, hc⟩

/-- A directory that has something in it has room for entries of any length. -/
theorem exists_child_of_length {b q : RelPath} (h : q.parent = some b) (n : ℕ) :
    ∃ c : RelPath, c.parent = some b ∧ n + 2 ≤ c.text.length := by
  have hname : '/' ∉ List.replicate (n + 2) 'a' := by simp [List.mem_replicate]
  have hdot : ∀ {c : RelPath}, n + 2 ≤ c.text.length → c ≠ dot := by
    rintro c hc rfl
    simp [dot] at hc
  rw [parent] at h
  split at h
  · cases h
  · simp only [Option.some.injEq] at h
    subst h
    by_cases hd : PosixPath.dirname q.text = []
    · refine ⟨⟨List.replicate (n + 2) 'a', by simp, ?_⟩, ?_, by simp⟩
      · simp [PosixPath.isAbs, List.replicate_succ]
      · rw [parent, if_neg (hdot (by simp)), dirnameOrDot, dirnameOrDot,
          dif_neg (not_not.mpr hd), dif_neg (not_not.mpr (PosixPath.dirname_of_not_mem hname))]
    · have hjoin := PosixPath.dirname_append hname hd (PosixPath.getLast?_dirname q.rel)
      have hlen : n + 2 ≤
          (PosixPath.dirname q.text ++ '/' :: List.replicate (n + 2) 'a').length := by
        simp only [List.length_append, List.length_cons, List.length_replicate]
        omega
      refine ⟨⟨PosixPath.dirname q.text ++ '/' :: List.replicate (n + 2) 'a', by simp, ?_⟩, ?_,
        hlen⟩
      · rw [← PosixPath.isAbs_of_isPrefix (List.prefix_append _ _) hd]
        exact PosixPath.isAbs_dirname_eq_false q.rel
      · rw [parent, if_neg (hdot hlen), dirnameOrDot, dirnameOrDot, dif_pos hd,
          dif_pos (by simp only [hjoin]; exact hd)]
        simp only [hjoin]

/-- A directory that has something in it has an entry outside of any list. -/
theorem exists_fresh_child {b q : RelPath} (h : q.parent = some b) (l : List RelPath) :
    ∃ c : RelPath, c.parent = some b ∧ c ∉ l := by
  obtain ⟨c, hc, hlen⟩ := exists_child_of_length h (l.map (·.text.length)).sum
  refine ⟨c, hc, fun hmem => ?_⟩
  have hle : c.text.length ≤ (l.map (·.text.length)).sum :=
    List.le_sum_of_mem (List.mem_map_of_mem hmem)
  omega

end RelPath

/-! ### The entries and the layout -/

namespace Reduction

variable {st : Reduction π} {out : List (NormalizedEntry π)} {ms : List (ChangesetMember π)}
  {p q : RelPath} {N : ℕ}

/-- The layout hides the lower path. -/
def HiddenBy (L : Layout) (q : RelPath) : Prop :=
  ∃ c, AtOrAbove c q ∧ L.leafAt c = true ∨ Above c q ∧ L.opaqueAt c = true

theorem leafAt_addRoot : (st.addRoot N).layout.leafAt p = st.layout.leafAt p := by
  rw [Layout.leafAt, Layout.leafAt, layout, layout, node?_addRoot]
  split
  · rename_i h
    rw [h.1, h.2]
    rfl
  · rfl

theorem opaqueAt_addRoot : (st.addRoot N).layout.opaqueAt p = st.layout.opaqueAt p := by
  rw [Layout.opaqueAt, Layout.opaqueAt, layout, layout, node?_addRoot]
  split
  · rename_i h
    rw [h.1, h.2]
    rfl
  · rfl

/-- **What the entries hide is what the layout hides.** -/
theorem hides_iff (hset : st.Settled)
    (h : Deferral.loop emissionReady (st.sortedEntries N).length []
      (st.sortedEntries N) = .ok out) :
    (∃ e ∈ out, e.Hides q) ↔ HiddenBy st.layout q := by
  have hnode : ∀ c n, st.node? c = some n →
      ((st.entryOf N c n).Hides q ↔ n.kind ≠ .directory ∧ AtOrAbove c q ∨
        n.isOpaque = true ∧ Above c q) := by
    intro c n hn
    rw [NormalizedEntry.Hides, ne_eq, kind_entryOf_eq_directory hset hn, isOpaque_entryOf hset hn,
      path_entryOf]
    refine or_congr Iff.rfl ⟨fun hc => hc.2, fun hc => ⟨(hset.ok c n hn).opq hc.1, hc⟩⟩
  constructor
  · rintro ⟨e, he, hq⟩
    obtain ⟨n, hn, heq⟩ := (mem_out h).mp he
    rw [heq] at hq
    refine ⟨e.path, ((hnode _ n hn).mp hq).imp (fun hc => ⟨hc.2, ?_⟩) fun hc => ⟨hc.2, ?_⟩⟩
    · exact (Layout.leafAt_of_some (layout_of_node? hn)).mpr hc.1
    · exact (Layout.opaqueAt_of_some (layout_of_node? hn)).trans hc.1
  · rintro ⟨c, hc⟩
    cases hn : st.node? c with
    | none =>
      have hnone := layout_eq_none hn
      rw [Layout.leafAt_of_none hnone, Layout.opaqueAt_of_none hnone] at hc
      simp at hc
    | some n =>
      refine ⟨_, entryOf_mem_out h hn, (hnode c n hn).mpr ?_⟩
      refine hc.imp (fun hc => ⟨?_, hc.1⟩) fun hc => ⟨?_, hc.1⟩
      · exact (Layout.leafAt_of_some (layout_of_node? hn)).mp hc.2
      · exact (Layout.opaqueAt_of_some (layout_of_node? hn)).symm.trans hc.2

theorem hiddenBy_addRoot : HiddenBy (st.addRoot N).layout q ↔ HiddenBy st.layout q := by
  simp only [HiddenBy, leafAt_addRoot, opaqueAt_addRoot]

/-- A path that stays hidden hides everything below it. -/
theorem hiddenBy_of_staysHidden (hok : empty.run ms = .ok st) (hp : StaysHidden ms p)
    (hpq : Above p q) : HiddenBy st.layout q := by
  have hroot : st.layout.opaqueAt RelPath.dot = true → HiddenBy st.layout q := fun h =>
    ⟨RelPath.dot, Or.inr ⟨above_root (ne_root_of_above hpq), h⟩⟩
  rcases hp with hp | hp
  · rcases leafAt_of_staysCleared hok p hp with h | h
    · exact ⟨p, Or.inl ⟨hpq.atOrAbove, h⟩⟩
    · exact hroot h
  · rcases opaqueAt_of_staysOpaque hok p hp with h | h
    · exact ⟨p, Or.inr ⟨hpq, h⟩⟩
    · exact hroot h

/-- What is hidden is a leaf itself, or lies below a path that stays hidden. -/
theorem staysHidden_of_hiddenBy (hok : empty.run ms = .ok st) (hq : HiddenBy st.layout q) :
    st.layout.leafAt q = true ∨ ∃ p, Above p q ∧ StaysHidden ms p := by
  obtain ⟨p, ⟨rfl | hpq, h⟩ | ⟨hpq, h⟩⟩ := hq
  · exact Or.inl h
  · exact Or.inr ⟨p, hpq, Or.inl (staysCleared_of_leafAt hok p h)⟩
  · exact Or.inr ⟨p, hpq, Or.inr (staysOpaque_of_opaqueAt hok p h)⟩

end Reduction

/-! ### When hiding is kept -/

section

open Reduction

variable {ms : List (ChangesetMember π)} {out : List (NormalizedEntry π)} {b q : RelPath}

/-- The lower tree that consists of one path and what it lies in. -/
def LowerTree.ofPath (q : RelPath) : LowerTree where
  paths := { p | AtOrAbove p q }
  closed _ _ hp hd := ((above_of_parent hd).trans_atOrAbove hp).atOrAbove

theorem not_marks_of_clears {m : ChangesetMember π} {c : RelPath} (h : Clears m b) :
    ¬Marks m c := by
  obtain ⟨a, ha, hclear⟩ := h
  rw [marks_iff ha]
  cases a with
  | opq d => exact fun _ => hclear
  | whiteout t => exact id
  | place p => exact id

/-- A resurrected path is not hidden by what the members say of it: a clearing or
marking that lasts would be the clearing that does not last, or come before it, or
after it. -/
theorem not_staysHidden_of_resurrected (h : Resurrected ms b) : ¬StaysHidden ms b := by
  obtain ⟨-, -, earlier, m, later, rfl, hclear, ⟨m', hm', hrec⟩, hlater⟩ := h
  rintro (⟨xs, k, ys, hsplit, hk, hys⟩ | ⟨xs, k, ys, hsplit, hk, hys⟩)
  · rcases events_compare hsplit with ⟨-, rfl⟩ | hafter | hbefore
    · exact hys m' hm' (Or.inl hrec)
    · exact (hlater k hafter b (AtOrAbove.refl b)).1 hk
    · exact hys m hbefore (Or.inr (Or.inr ⟨b, AtOrAbove.refl b, hclear⟩))
  · rcases events_compare hsplit with ⟨rfl, -⟩ | hafter | hbefore
    · exact not_marks_of_clears hclear hk
    · exact (hlater k hafter b (AtOrAbove.refl b)).2 hk
    · exact hys m hbefore ⟨b, AtOrAbove.refl b, hclear⟩

/-- **When hiding is kept.** -/
theorem hidingKept_iff (h : normalizeChangeset ms = .ok out) :
    HidingKept ms out ↔ ¬∃ b, Resurrected ms b := by
  obtain ⟨st, hc, hrun, hw, hloop⟩ := normalizeChangeset_eq_ok h
  have hset : (st.addRoot ms.length).Settled := settled_addRoot hrun hw
  have hhides : ∀ q, (∃ e ∈ out, e.Hides q) ↔ HiddenBy st.layout q := fun q =>
    (hides_iff hset hloop).trans hiddenBy_addRoot
  constructor
  · rintro hkept ⟨b, hb⟩
    obtain ⟨⟨q, hq⟩, habove, earlier, m, later, hms, hclear, -⟩ := id hb
    -- A lower entry with a new name below the directory shows through, as no entry is there.
    obtain ⟨c, hcb, hfresh⟩ := RelPath.exists_fresh_child hq st.table.keys
    refine hkept (LowerTree.ofPath c) b ⟨m, ?_, Or.inl hclear⟩ c (above_of_parent hcb)
      ⟨AtOrAbove.refl c, ?_⟩
    · rw [hms]
      exact List.mem_append_right _ List.mem_cons_self
    · intro e he hhide
      rcases staysHidden_of_hiddenBy hrun ((hhides c).mp ⟨e, he, hhide⟩) with hleaf | ⟨p, hp, hstay⟩
      · have hnone : st.node? c = none := AList.lookup_eq_none.mpr hfresh
        rw [Layout.leafAt_of_none (layout_eq_none hnone)] at hleaf
        cases hleaf
      · rcases (above_iff hcb).mp hp with rfl | hpb
        · exact not_staysHidden_of_resurrected hb hstay
        · exact habove p hpb hstay
  · rintro hnot lower p hp q hpq ⟨-, hvis⟩
    have hstay : ∀ a, Above a q → ¬StaysHidden ms a := by
      intro a ha hstay
      obtain ⟨e, he, hhide⟩ := (hhides q).mpr (hiddenBy_of_staysHidden hrun hstay ha)
      exact hvis e he hhide
    have hsome : ∃ m ∈ ms, ∃ b, Above b q ∧ (Clears m b ∨ Marks m b) := by
      obtain ⟨m, hm, hp⟩ := hp
      exact ⟨m, hm, p, hpq, hp⟩
    -- The last member that hid the path from above; what came after it made the directory anew.
    obtain ⟨earlier, m, later, hms, ⟨b, hbq, hb⟩, hlater⟩ := since_self_iff.mpr hsome
    have hnone : ∀ m' ∈ later, ∀ c, AtOrAbove c b → ¬Clears m' c ∧ ¬Marks m' c := by
      intro m' hm' c hcb
      rw [← not_or]
      exact fun hcon => hlater m' hm' ⟨c, hcb.trans_above hbq, hcon⟩
    have hclear : Clears m b := by
      refine hb.resolve_right fun hmark => hstay b hbq (Or.inr ?_)
      exact ⟨earlier, m, later, hms, hmark, fun m' hm' ⟨c, hcb, hc'⟩ => (hnone m' hm' c hcb).1 hc'⟩
    have hrec : ∃ m' ∈ later, Recreates m' b := by
      by_contra hcon
      refine hstay b hbq (Or.inl ⟨earlier, m, later, hms, hclear, fun m' hm' => ?_⟩)
      rintro (hr | hmark | ⟨c, hcb, hc'⟩)
      · exact hcon ⟨m', hm', hr⟩
      · exact (hnone m' hm' b (AtOrAbove.refl b)).2 hmark
      · exact (hnone m' hm' c hcb).1 hc'
    exact hnot ⟨b, RelPath.exists_child hbq, fun a ha => hstay a (ha.trans hbq), earlier, m, later,
      hms, hclear, hrec, hnone⟩

/-- The theorem at an archive that deletes a directory and keeps it deleted. -/
theorem hidingKept_iff_deleted :
    ∃ out, normalizeChangeset [bareMember 0 "d/.wh.e" .file "", bareMember 1 "d" .directory ""] =
      .ok out ∧
      (HidingKept [bareMember 0 "d/.wh.e" .file "", bareMember 1 "d" .directory ""] out ↔
        ¬∃ b, Resurrected [bareMember 0 "d/.wh.e" .file "", bareMember 1 "d" .directory ""] b) := by
  obtain ⟨out, h⟩ := exists_of_isOk (x := normalizeChangeset
    [bareMember 0 "d/.wh.e" .file "", bareMember 1 "d" .directory ""]) (by decide)
  exact ⟨out, h, hidingKept_iff h⟩

/-- **Hiding is lost** when a directory is deleted and listed again: what a lower
layer has in it comes back. -/
theorem hiding_lost :
    ∃ out, normalizeChangeset [bareMember 0 ".wh.d" .file "", bareMember 1 "d" .directory ""] =
      .ok out ∧
      ¬HidingKept [bareMember 0 ".wh.d" .file "", bareMember 1 "d" .directory ""] out := by
  refine ⟨_, rfl, fun h => ?_⟩
  refine h (LowerTree.ofPath ⟨"d/x".toList, by decide, by decide⟩)
    ⟨"d".toList, by decide, by decide⟩
    ⟨_, List.mem_cons_self, Or.inl ⟨_, rfl, rfl⟩⟩ ⟨"d/x".toList, by decide, by decide⟩
    (by decide) ⟨AtOrAbove.refl _, by decide⟩

end

end Palimpsest
