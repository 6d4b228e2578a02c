import Palimpsest.Changeset.Purge

/-!
# The invariant of the table, and what each helper does under it

`Palimpsest.Reduction.WellFormed` is what every state of the reducer satisfies: the
index of children is exact, everything but the root's own entries lies in a
directory of the table, nodes are consistent, and the waiting sets hold forward
links only. Under it the helpers have simple descriptions, because nothing lies
below a path that is no directory: `ensure_parents` never purges anything
(`Palimpsest.Reduction.ensureParents_spec`), and only a whiteout, a member that is no
directory, and an opaque marker at a root that has no node of its own remove
entries.
-/

namespace Palimpsest

open ParentTree

variable {π : Type}

/-- What a single node satisfies. -/
structure Node.Ok (n : Node π) : Prop where
  pending : n.pendingTarget ≠ none → n.kind = .hardlink ∧ n.groupId = none
  grouped : n.groupId ≠ none → n.kind = .file ∨ n.kind = .hardlink
  file : n.kind = .file → n.groupId = some n.member.ordinal
  link : n.kind = .hardlink → n.pendingTarget ≠ none ∨ n.groupId ≠ none
  opq : n.isOpaque = true → n.kind = .directory

theorem Node.Ok.pending_of_kind {n : Node π} (h : n.Ok) (hk : n.kind ≠ .hardlink) :
    n.pendingTarget = none := by
  by_contra hcon
  exact hk (h.pending hcon).1

namespace Reduction

variable {st st' st'' : Reduction π} {m : ChangesetMember π} {n : Node π} {p q d : RelPath}
    {t : Text}
  {refresh : Bool}

/-- What the table and the index of children satisfy. -/
structure Treelike (st : Reduction π) : Prop where
  /-- The index of children is exact. -/
  listed : ∀ d q, q ∈ st.childrenOf d ↔ q.parent = some d ∧ (st.node? q).isSome
  /-- What does not lie in the root directory lies in a directory of the table. -/
  parent_isDir : ∀ d q, q.parent = some d → (st.node? q).isSome → d ≠ RelPath.dot → st.IsDir d
  /-- Every node is consistent. -/
  ok : ∀ q n, st.node? q = some n → n.Ok

/-- The invariant of the reducer's state. -/
structure WellFormed (st : Reduction π) : Prop extends Treelike st where
  /-- The waiting sets hold forward links that wait. -/
  waiting : ∀ t q, q ∈ st.waitingFor t → st.pendingAt q = some t

theorem wellFormed_empty : WellFormed (empty : Reduction π) where
  listed d q := by simp [empty, childrenOf, node?, AList.lookup_empty]
  parent_isDir d q _ h := by simp [empty, node?, AList.lookup_empty] at h
  waiting t q h := by simp [empty, waitingFor, AList.lookup_empty] at h
  ok q n h := by simp [empty, node?, AList.lookup_empty] at h

theorem IsDir.isSome (h : st.IsDir p) : (st.node? p).isSome := by
  obtain ⟨n, hn, -⟩ := h
  rw [hn]
  rfl

theorem isDir_congr (h : st'.node? p = st.node? p) : st'.IsDir p ↔ st.IsDir p := by
  rw [IsDir, IsDir, h]

/-- Every strict ancestor of an entry is a directory of the table, the root
apart. -/
theorem Treelike.isDir_of_above (h : st.Treelike) (hd : d ≠ RelPath.dot) :
    ∀ q, (st.node? q).isSome → Above d q → st.IsDir d := by
  intro q
  induction q using walk_induction with
  | root => exact fun _ hq => absurd hq (not_above_root d)
  | step q e he ih =>
    intro hq hdq
    rcases (above_iff he).mp hdq with rfl | hde
    · exact h.parent_isDir d q he hq hd
    · exact ih (h.parent_isDir e q he hq (ne_root_of_above hde)).isSome hde

/-- **Nothing lies below a path that is no directory.** -/
theorem Treelike.node?_eq_none (h : st.Treelike) (hd : d ≠ RelPath.dot) (hdir : ¬st.IsDir d)
    (hq : Above d q) : st.node? q = none := by
  by_contra hcon
  exact hdir (h.isDir_of_above hd q (Option.isSome_iff_ne_none.mpr hcon) hq)

/-! ### Steps that only remove nodes or replace them by nodes that wait for nothing -/

/-- Between two states, nodes were removed or replaced by nodes that are no
forward links, and the waiting sets followed. -/
structure Trims (st st' : Reduction π) : Prop where
  groups : st'.groups = st.groups
  pending : ∀ q t, st'.pendingAt q = some t → st'.node? q = st.node? q
  waits : ∀ t q, q ∈ st'.waitingFor t ↔ q ∈ st.waitingFor t ∧ st'.pendingAt q = some t

theorem Trims.refl (h : st.WellFormed) : Trims st st :=
  ⟨rfl, fun _ _ _ => rfl, fun t q => ⟨fun hq => ⟨hq, h.waiting t q hq⟩, And.left⟩⟩

theorem Trims.trans (h : Trims st st') (h' : Trims st' st'') : Trims st st'' where
  groups := h'.groups.trans h.groups
  pending q t hq := by
    have heq := h'.pending q t hq
    rw [pendingAt_congr heq] at hq
    exact heq.trans (h.pending q t hq)
  waits t q := by
    rw [h'.waits, h.waits]
    refine ⟨fun hq => ⟨hq.1.1, hq.2⟩, fun hq => ⟨⟨hq.1, ?_⟩, hq.2⟩⟩
    rw [← pendingAt_congr (h'.pending q t hq.2)]
    exact hq.2

theorem Trims.waiting (h : Trims st st') (t : Text) (q : RelPath) (hq : q ∈ st'.waitingFor t) :
    st'.pendingAt q = some t := ((h.waits t q).mp hq).2

/-! ### `purge_subtree` -/

theorem WellFormed.purging (h : st.WellFormed) (p : RelPath) : Purging st p (st.childrenOf p) where
  listed d q hq := (h.listed d q).mp hq
  reach d q hd hq := Or.inl ((h.listed d q).mpr ⟨hd, hq⟩)
  top _ hq := hq
  below q hq := above_of_parent ((h.listed p q).mp hq).1
  closed d q hd hq hpq := by
    rcases (above_iff hd).mp hpq with rfl | hpd
    · exact Or.inl rfl
    · exact Or.inr (Or.inl (h.parent_isDir d q hd hq (ne_root_of_above hpd)).isSome)
  waiting := h.waiting

theorem purgeSubtree_false_spec (h : st.WellFormed) (p : RelPath) :
    (st.purgeSubtree p false).WellFormed ∧ Trims st (st.purgeSubtree p false) ∧
      ∀ q, (st.purgeSubtree p false).node? q = if Above p q then none else st.node? q := by
  obtain ⟨h1, h2, h3, h4⟩ := purgeLoop_spec (h.purging p) (le_refl _)
  rw [← purgeFuel_eq] at h1 h2 h3 h4
  set loop := purgeLoop (st.purgeFuel p) (st.childrenOf p) st with hloop
  have hst : st.purgeSubtree p false = { loop with children := loop.children.erase p } := rfl
  -- The loop takes everything below `p`, and `p` itself only loses its list of children.
  have hnode : ∀ q, (st.purgeSubtree p false).node? q = if Above p q then none else st.node? q := by
    intro q
    rw [hst]
    change loop.node? q = _
    split
    · rename_i hq
      exact h1.node?_eq_none q hq
    · rename_i hq
      exact h2 q hq
  have hwait : ∀ t q, q ∈ (st.purgeSubtree p false).waitingFor t →
      (st.purgeSubtree p false).pendingAt q = some t := h1.waiting
  refine ⟨⟨⟨fun d q => ?_, fun d q hd hq hne => ?_, fun q n hn => ?_⟩, hwait⟩, ⟨h4, ?_, ?_⟩, hnode⟩
  · rw [hst, childrenOf_erase]
    change _ ↔ _ ∧ (loop.node? q).isSome
    split
    · rename_i hdp
      subst hdp
      refine ⟨fun hq => absurd hq List.not_mem_nil, fun hq => ?_⟩
      rw [h1.node?_eq_none q (above_of_parent hq.1)] at hq
      exact absurd hq.2 (by simp)
    · exact ⟨h1.listed d q, fun hq => (h1.reach d q hq.1 hq.2).resolve_right List.not_mem_nil⟩
  · rw [hnode] at hq
    split at hq
    · cases hq
    · rename_i hpq
      have hpd : ¬Above p d := fun hcon => hpq (hcon.trans (above_of_parent hd))
      exact (isDir_congr (by rw [hnode, if_neg hpd])).mpr (h.parent_isDir d q hd hq hne)
  · rw [hnode] at hn
    split at hn
    · cases hn
    · exact h.ok q n hn
  · intro q t hq
    rw [hnode]
    split
    · rename_i hpq
      rw [pendingAt, hnode, if_pos hpq] at hq
      cases hq
    · rfl
  · intro t q
    have := h3 t q
    refine ⟨fun hq => ⟨(this.mp hq).1, hwait t q hq⟩, fun hq => this.mpr ⟨hq.1, ?_⟩⟩
    exact isSome_of_pendingAt hq.2

theorem purgeSubtree_true_spec (h : st.WellFormed) (p : RelPath) :
    (st.purgeSubtree p true).WellFormed ∧ Trims st (st.purgeSubtree p true) ∧
      ∀ q, (st.purgeSubtree p true).node? q = if AtOrAbove p q then none else st.node? q := by
  obtain ⟨hw, htr, hnode⟩ := purgeSubtree_false_spec h p
  -- What is below goes first, and then the node itself, which has no children any more.
  set mid := st.purgeSubtree p false with hmid
  have hst : st.purgeSubtree p true = mid.removeExact p false := rfl
  have hnode' : ∀ q, (st.purgeSubtree p true).node? q =
      if AtOrAbove p q then none else st.node? q := by
    intro q
    rw [hst, node?_removeExact]
    by_cases hqp : q = p
    · rw [if_pos hqp, if_pos (show AtOrAbove p q from Or.inl hqp.symm)]
    · rw [if_neg hqp, hnode]
      refine if_congr ⟨Or.inr, fun hpq => hpq.resolve_left (Ne.symm hqp)⟩ rfl rfl
  have hwait : ∀ t q, q ∈ (st.purgeSubtree p true).waitingFor t →
      (st.purgeSubtree p true).pendingAt q = some t := by
    rw [hst]
    exact waiting_removeExact hw.waiting
  have htr' : Trims mid (st.purgeSubtree p true) := by
    refine ⟨by rw [hst, groups_removeExact], fun q t hq => ?_, fun t q => ?_⟩
    · rw [hst, node?_removeExact]
      split
      · rename_i hqp
        rw [pendingAt, hst, node?_removeExact, if_pos hqp] at hq
        cases hq
      · rfl
    · have hmem : q ∈ (st.purgeSubtree p true).waitingFor t ↔ q ∈ mid.waitingFor t ∧ q ≠ p := by
        rw [hst]
        exact mem_waitingFor_removeExact hw.waiting
      refine ⟨fun hq => ⟨(hmem.mp hq).1, hwait t q hq⟩, fun hq => hmem.mpr ⟨hq.1, ?_⟩⟩
      rintro rfl
      have hsome := isSome_of_pendingAt hq.2
      rw [hnode', if_pos (AtOrAbove.refl q)] at hsome
      cases hsome
  refine ⟨⟨⟨fun d q => ?_, fun d q hd hq hne => ?_, fun q n hn => ?_⟩, hwait⟩, htr.trans htr',
    hnode'⟩
  · rw [hst, childrenOf_removeExact, node?_removeExact]
    by_cases hdp : d = p
    · subst hdp
      rw [if_pos rfl]
      refine ⟨fun hq => absurd hq List.not_mem_nil, fun hq => ?_⟩
      obtain ⟨hd, hq⟩ := hq
      rw [if_neg (above_of_parent hd).ne.symm, hnode, if_pos (above_of_parent hd)] at hq
      cases hq
    · rw [if_neg hdp]
      have := hw.listed d q
      by_cases hqp : q = p
      · subst hqp
        rw [if_pos rfl]
        simp only [Option.isSome_none, Bool.false_eq_true, and_false, iff_false]
        split
        · simp
        · rename_i hd
          exact fun hcon => hd (this.mp hcon).1
      · rw [if_neg hqp]
        split
        · simp only [ne_eq, decide_not, List.mem_filter, Bool.not_eq_eq_eq_not, Bool.not_true,
            decide_eq_false_iff_not]
          exact ⟨fun hq => this.mp hq.1, fun hq => ⟨this.mpr hq, hqp⟩⟩
        · exact this
  · rw [hnode'] at hq
    split at hq
    · cases hq
    · rename_i hpq
      have hpd : ¬AtOrAbove p d := fun hcon => hpq (hcon.trans_above (above_of_parent hd)).atOrAbove
      exact (isDir_congr (by rw [hnode', if_neg hpd])).mpr (h.parent_isDir d q hd hq hne)
  · rw [hnode'] at hn
    split at hn
    · cases hn
    · exact h.ok q n hn

end Reduction

end Palimpsest
