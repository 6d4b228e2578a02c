import Palimpsest.Changeset.WellFormed

/-!
# What a member does to the table

The description of one round of the main loop, as a case analysis on the action
the member asks for. Each case says what the table holds afterwards, path by path
(`Palimpsest.Reduction.opaqueMarker_spec`, `Palimpsest.Reduction.whiteoutMarker_spec`,
`Palimpsest.Reduction.clearPlace_spec` and the lemmas on placing after it); the
development uses nothing else about the helpers from here on.
-/

namespace Palimpsest

open ParentTree

namespace Reduction

variable {π : Type} {st st' st'' : Reduction π} {m : ChangesetMember π} {n : Node π}
  {p q d : RelPath} {t : Text} {refresh keep : Bool}

/-! ### `set_node` -/

theorem setNode_treelike (h : st.Treelike) (hn : n.Ok)
    (hpar : ∀ d, p.parent = some d → d ≠ RelPath.dot → st.IsDir d)
    (hkeep : keep = true ∧ n.kind = .directory ∨ ∀ q, Above p q → st.node? q = none) :
    (st.setNode p n keep).Treelike where
  listed d q := by
    have hl := h.listed d q
    rw [node?_setNode]
    by_cases hqp : q = p
    · subst hqp
      rw [if_pos rfl, Option.isSome_some]
      simp only [and_true]
      cases keep with
      | true =>
        rw [childrenOf_setNode_keep]
        split
        · rename_i hd
          simp [hd]
        · rename_i hd
          simp only [hd, iff_false]
          exact fun hcon => hd (hl.mp hcon).1
      | false =>
        rw [mem_childrenOf_setNode]
        constructor
        · rintro (hc | hc | hc)
          · exact hc.1
          · exact absurd rfl hc.2.1
          · exact (hl.mp hc.2.2.2).1
        · exact fun hd => Or.inl ⟨hd, rfl⟩
    · rw [if_neg hqp, ← hl]
      cases keep with
      | true =>
        rw [childrenOf_setNode_keep]
        split
        · simp [hqp]
        · rfl
      -- Without its children the node loses what was listed below it, but nothing was there.
      | false =>
        rw [mem_childrenOf_setNode]
        constructor
        · rintro (hc | hc | hc)
          · exact absurd hc.2 hqp
          · exact hc.2.2
          · exact absurd hc.2.1 hqp
        · intro hq
          refine Or.inr (Or.inl ⟨?_, hqp, hq⟩)
          rintro rfl
          obtain ⟨hd, hsome⟩ := hl.mp hq
          rcases hkeep with hkeep | hkeep
          · exact absurd hkeep.1 (by simp)
          · rw [hkeep q (above_of_parent hd)] at hsome
            cases hsome
  parent_isDir d q hd hq hne := by
    rw [IsDir, node?_setNode]
    rw [node?_setNode] at hq
    -- A child of the new node: a directory keeps its children, and anything else has none.
    by_cases hdp : d = p
    · subst hdp
      have hqd : q ≠ d := fun hcon => parent_ne_self q (hcon ▸ hd)
      rw [if_neg hqd] at hq
      rcases hkeep with hkeep | hkeep
      · exact ⟨n, if_pos rfl, hkeep.2⟩
      · rw [hkeep q (above_of_parent hd)] at hq
        cases hq
    · rw [if_neg hdp]
      by_cases hqp : q = p
      · exact hpar d (hqp ▸ hd) hne
      · rw [if_neg hqp] at hq
        exact h.parent_isDir d q hd hq hne
  ok q k hk := by
    rw [node?_setNode] at hk
    split at hk
    · simp only [Option.some.injEq] at hk
      rw [← hk]
      exact hn
    · exact h.ok q k hk

/-- Setting a node that waits for nothing. -/
theorem setNode_trims (h : st.WellFormed) (hn : n.pendingTarget = none) :
    Trims st (st.setNode p n keep) := by
  have hnode : ∀ q t, (st.setNode p n keep).pendingAt q = some t →
      (st.setNode p n keep).node? q = st.node? q := by
    intro q t hq
    rw [node?_setNode]
    split
    · rename_i hqp
      rw [pendingAt, node?_setNode, if_pos hqp] at hq
      simp [hn] at hq
    · rfl
  refine ⟨groups_setNode, hnode, fun t q => ?_⟩
  have hmem : q ∈ (st.setNode p n keep).waitingFor t ↔ q ∈ st.waitingFor t ∧ q ≠ p := by
    rw [waitingFor_setNode, ← @waitingFor_removeExact π st p t keep]
    exact mem_waitingFor_removeExact h.waiting
  rw [hmem]
  refine and_congr_right fun hq => ⟨fun hqp => ?_, fun hpend => ?_⟩
  · rw [pendingAt, node?_setNode, if_neg hqp]
    exact h.waiting t q hq
  · rintro rfl
    rw [pendingAt, node?_setNode, if_pos rfl] at hpend
    simp [hn] at hpend

/-! ### `ensure_parents` -/

/-- What `ensure_parents` leaves at an ancestor that held `o`. -/
def ensuredNode (m : ChangesetMember π) (refresh : Bool) (d : RelPath) (o : Option (Node π)) :
    Node π :=
  match o with
  | some n => if n.kind = .directory then refreshNode m refresh d n else impliedNode m d
  | none => impliedNode m d

@[simp] theorem kind_refreshNode : (refreshNode m refresh d n).kind = n.kind := by
  rw [refreshNode]
  split <;> rfl

@[simp] theorem groupId_refreshNode : (refreshNode m refresh d n).groupId = n.groupId := by
  rw [refreshNode]
  split <;> rfl

@[simp] theorem pendingTarget_refreshNode :
    (refreshNode m refresh d n).pendingTarget = n.pendingTarget := by
  rw [refreshNode]
  split <;> rfl

@[simp] theorem isOpaque_refreshNode : (refreshNode m refresh d n).isOpaque = n.isOpaque := by
  rw [refreshNode]
  split <;> rfl

theorem kind_ensuredNode {o : Option (Node π)} : (ensuredNode m refresh d o).kind = .directory := by
  unfold ensuredNode
  split
  · split
    · rename_i h
      rw [kind_refreshNode, h]
    · rfl
  · rfl

theorem impliedNode_ok : (impliedNode m d).Ok := by
  constructor <;> simp [impliedNode]

theorem refreshNode_ok (h : n.Ok) (hd : n.kind = .directory) : (refreshNode m refresh d n).Ok where
  pending := by simpa using h.pending
  grouped := by simpa using h.grouped
  file := by simp [hd]
  link := by simp [hd]
  opq := by simpa using h.opq

/-- Writing a directory over a directory. -/
theorem insert_directory_spec (h : st.WellFormed) (hdir : st.IsDir d) (hn : n.Ok)
    (hk : n.kind = .directory) :
    WellFormed { st with table := st.table.insert d n } ∧
      Trims st { st with table := st.table.insert d n } := by
  obtain ⟨o, ho, hok⟩ := hdir
  set st' : Reduction π := { st with table := st.table.insert d n } with hst'
  have hnode : ∀ q, st'.node? q = if q = d then some n else st.node? q := fun q =>
    node?_insert d q n
  have hsome : ∀ q, (st'.node? q).isSome ↔ (st.node? q).isSome := by
    intro q
    rw [hnode]
    split
    · rename_i hqd
      rw [hqd, ho]
      simp
    · rfl
  -- No directory waits for a target, so nothing waits at the path before or after.
  have hpend : ∀ q, st'.pendingAt q = st.pendingAt q := by
    intro q
    rw [pendingAt, pendingAt, hnode]
    split
    · rename_i hqd
      rw [hqd, ho]
      exact (hn.pending_of_kind (by simp [hk])).trans
        ((h.ok d o ho).pending_of_kind (by simp [hok])).symm
    · rfl
  have hwait : ∀ t q, q ∈ st'.waitingFor t → st'.pendingAt q = some t := fun t q hq =>
    (hpend q).trans (h.waiting t q hq)
  refine ⟨⟨⟨fun e q => ?_, fun e q he hq hne => ?_, fun q k hq => ?_⟩, hwait⟩,
    rfl, fun q t hq => ?_, fun t q => ⟨fun hq => ⟨hq, hwait t q hq⟩, And.left⟩⟩
  · rw [hsome]
    exact h.listed e q
  · obtain ⟨k, hk1, hk2⟩ := h.parent_isDir e q he ((hsome q).mp hq) hne
    rw [IsDir, hnode]
    split
    · exact ⟨n, rfl, hk⟩
    · exact ⟨k, hk1, hk2⟩
  · rw [hnode] at hq
    split at hq
    · simp only [Option.some.injEq] at hq
      rw [← hq]
      exact hn
    · exact h.ok q k hq
  · rw [hnode]
    refine if_neg ?_
    rintro rfl
    rw [pendingAt, hnode, if_pos rfl, Option.bind_some,
      hn.pending_of_kind (by simp [hk])] at hq
    cases hq

/-- Putting a directory where there is none: there is nothing below to lose, the
root apart. -/
theorem purge_setNode_directory_spec (h : st.WellFormed)
    (hpar : ∀ e, d.parent = some e → e ≠ RelPath.dot → st.IsDir e) (hn : n.Ok)
    (hk : n.kind = .directory) :
    ((st.purgeSubtree d true).setNode d n true).WellFormed ∧
      Trims st ((st.purgeSubtree d true).setNode d n true) ∧
      ∀ q, ((st.purgeSubtree d true).setNode d n true).node? q =
        if q = d then some n else if Above d q then none else st.node? q := by
  obtain ⟨h1, h2, h3⟩ := purgeSubtree_true_spec h d
  have hpar' : ∀ e, d.parent = some e → e ≠ RelPath.dot → (st.purgeSubtree d true).IsDir e := by
    intro e he hne
    refine (isDir_congr ?_).mpr (hpar e he hne)
    rw [h3, if_neg (above_of_parent he).not_atOrAbove]
  have htree := setNode_treelike h1.toTreelike hn hpar' (Or.inl ⟨rfl, hk⟩)
  have htrim : Trims _ ((st.purgeSubtree d true).setNode d n true) :=
    setNode_trims h1 (hn.pending_of_kind (by simp [hk]))
  refine ⟨⟨htree, htrim.waiting⟩, h2.trans htrim, fun q => ?_⟩
  rw [node?_setNode]
  split
  · rfl
  · rename_i hq
    rw [h3]
    exact if_congr ⟨fun hdq => hdq.resolve_left (Ne.symm hq), Above.atOrAbove⟩ rfl rfl

theorem ensureDirectory_spec (h : st.WellFormed) (m : ChangesetMember π) (refresh : Bool)
    (hpar : ∀ e, d.parent = some e → e ≠ RelPath.dot → st.IsDir e) (hd : d ≠ RelPath.dot) :
    (ensureDirectory m refresh st d).WellFormed ∧ Trims st (ensureDirectory m refresh st d) ∧
      ∀ q, (ensureDirectory m refresh st d).node? q =
        if q = d then some (ensuredNode m refresh d (st.node? d)) else st.node? q := by
  -- A directory is refreshed; anything else is purged and gives way to a new one.
  by_cases hdir : st.IsDir d
  · obtain ⟨n, hn, hk⟩ := hdir
    have hst : ensureDirectory m refresh st d =
        { st with table := st.table.insert d (refreshNode m refresh d n) } := by
      rw [ensureDirectory, hn]
      exact if_pos hk
    have hens : ensuredNode m refresh d (st.node? d) = refreshNode m refresh d n := by
      rw [hn]
      exact if_pos hk
    obtain ⟨h1, h2⟩ := insert_directory_spec h ⟨n, hn, hk⟩ (refreshNode_ok (h.ok d n hn) hk)
      (kind_refreshNode.trans hk)
    rw [hst, hens]
    exact ⟨h1, h2, fun q => node?_insert d q _⟩
  · have hst : ensureDirectory m refresh st d =
        (st.purgeSubtree d true).setNode d (impliedNode m d) true := by
      rw [ensureDirectory]
      split
      · rename_i n hn
        exact if_neg fun hk => hdir ⟨n, hn, hk⟩
      · rfl
    have hens : ensuredNode m refresh d (st.node? d) = impliedNode m d := by
      unfold ensuredNode
      split
      · rename_i n hn
        exact if_neg fun hk => hdir ⟨n, hn, hk⟩
      · rfl
    obtain ⟨h1, h2, h3⟩ :=
      purge_setNode_directory_spec h hpar (impliedNode_ok (m := m) (d := d)) rfl
    rw [hst, hens]
    refine ⟨h1, h2, fun q => ?_⟩
    rw [h3]
    refine if_congr Iff.rfl rfl ?_
    split
    · rename_i hdq
      exact (h.node?_eq_none hd hdir hdq).symm
    · rfl

theorem ensureParents_of_parent {r : RelPath} (hd : r.parent = some d) (hne : d ≠ RelPath.dot) :
    st.ensureParents r m refresh =
      ensureDirectory m refresh (st.ensureParents d m refresh) d := by
  rw [ensureParents, walk_eq_cons hd hne, List.reverse_cons, List.foldl_append]
  rfl

theorem ensureParents_of_walk_eq_nil (h : walk p = []) : st.ensureParents p m refresh = st := by
  rw [ensureParents, h]
  rfl

/-- **What `ensure_parents` does**: every strict ancestor but the root becomes a
directory, and everything else stays what it was. -/
theorem ensureParents_spec (h : st.WellFormed) (m : ChangesetMember π) (refresh : Bool) :
    ∀ p, (st.ensureParents p m refresh).WellFormed ∧ Trims st (st.ensureParents p m refresh) ∧
      ∀ q, (st.ensureParents p m refresh).node? q =
        if q ∈ walk p then some (ensuredNode m refresh q (st.node? q)) else st.node? q := by
  intro p
  induction p using walk_induction with
  | root =>
    rw [ensureParents_of_walk_eq_nil walk_root]
    exact ⟨h, Trims.refl h, fun q => by rw [walk_root, if_neg List.not_mem_nil]⟩
  -- The parents of the parent come first, so it is put under a directory.
  | step p d hd ih =>
    by_cases hne : d = RelPath.dot
    · have hnil : walk p = [] := walk_eq_nil (hd.trans (congrArg some hne))
      rw [ensureParents_of_walk_eq_nil hnil]
      exact ⟨h, Trims.refl h, fun q => by rw [hnil, if_neg List.not_mem_nil]⟩
    · obtain ⟨h1, h2, h3⟩ := ih
      rw [ensureParents_of_parent hd hne]
      have hpar : ∀ e, d.parent = some e → e ≠ RelPath.dot →
          (st.ensureParents d m refresh).IsDir e := by
        intro e he hene
        have hmem : e ∈ walk d := mem_walk.mpr ⟨hene, above_of_parent he⟩
        exact ⟨_, by rw [h3, if_pos hmem], kind_ensuredNode⟩
      obtain ⟨k1, k2, k3⟩ := ensureDirectory_spec h1 m refresh hpar hne
      refine ⟨k1, h2.trans k2, fun q => ?_⟩
      rw [k3, h3, h3, walk_eq_cons hd hne]
      by_cases hqd : q = d
      · subst hqd
        have hself : q ∉ walk q := fun hq => not_above_self q (mem_walk.mp hq).2
        rw [if_pos rfl, if_neg hself, if_pos List.mem_cons_self]
      · rw [if_neg hqd]
        refine if_congr ⟨List.mem_cons_of_mem d, fun hq => ?_⟩ rfl rfl
        exact (List.mem_cons.mp hq).resolve_left hqd

theorem ensureParents_isDir (h : st.WellFormed) (m : ChangesetMember π) (refresh : Bool)
    {e : RelPath} (he : p.parent = some e)
    (hne : e ≠ RelPath.dot) : (st.ensureParents p m refresh).IsDir e := by
  have hmem : e ∈ walk p := mem_walk.mpr ⟨hne, above_of_parent he⟩
  exact ⟨_, by rw [(ensureParents_spec h m refresh p).2.2, if_pos hmem], kind_ensuredNode⟩

/-! ### Markers -/

theorem placeholderNode_ok : (placeholderNode m d).Ok := by
  constructor <;> simp [placeholderNode]

/-- The node that an opaque marker leaves at a directory that held `o`. -/
def opaqueNode (m : ChangesetMember π) (d : RelPath) (o : Option (Node π)) : Node π :=
  match o with
  | some n =>
    if n.kind = .directory then { n with isOpaque := true }
    else { placeholderNode m d with isOpaque := true }
  | none => { placeholderNode m d with isOpaque := true }

theorem opaqueNode_of_isDir (hn : st.node? d = some n) (hk : n.kind = .directory) :
    opaqueNode m d (st.node? d) = { n with isOpaque := true } := by
  rw [hn]
  exact if_pos hk

theorem opaqueNode_of_not_isDir (h : ¬st.IsDir d) :
    opaqueNode m d (st.node? d) = { placeholderNode m d with isOpaque := true } := by
  unfold opaqueNode
  split
  · rename_i n hn
    exact if_neg fun hk => h ⟨n, hn, hk⟩
  · rfl

@[simp] theorem isOpaque_opaqueNode {o : Option (Node π)} : (opaqueNode m d o).isOpaque = true := by
  unfold opaqueNode
  split
  · split <;> rfl
  · rfl

theorem kind_opaqueNode {o : Option (Node π)} : (opaqueNode m d o).kind = .directory := by
  unfold opaqueNode
  split
  · split
    · assumption
    · rfl
  · rfl

/-- The node that an opaque marker leaves is as good as the one it found. -/
theorem opaqueNode_ok (h : st.Treelike) : (opaqueNode m d (st.node? d)).Ok := by
  by_cases hdir : st.IsDir d
  · obtain ⟨n, hn, hk⟩ := hdir
    rw [opaqueNode_of_isDir hn hk]
    have hok := h.ok d n hn
    exact ⟨hok.pending, hok.grouped, hok.file, hok.link, fun _ => hk⟩
  · rw [opaqueNode_of_not_isDir hdir]
    constructor <;> simp [placeholderNode]

theorem markOpaque_spec (h : st.WellFormed)
    (hpar : ∀ e, d.parent = some e → e ≠ RelPath.dot → st.IsDir e) :
    (st.markOpaque d m).WellFormed ∧ Trims st (st.markOpaque d m) ∧
      ∀ q, (st.markOpaque d m).node? q =
        if q = d then some (opaqueNode m d (st.node? d))
        else if Above d q ∧ ¬st.IsDir d then none
        else st.node? q := by
  have hok : (opaqueNode m d (st.node? d)).Ok := opaqueNode_ok h.toTreelike
  -- A directory keeps what is in it; anything else is purged before it is marked.
  by_cases hdir : st.IsDir d
  · have hst : st.markOpaque d m =
        { st with table := st.table.insert d (opaqueNode m d (st.node? d)) } := by
      obtain ⟨n, hn, hk⟩ := hdir
      rw [opaqueNode_of_isDir hn hk, markOpaque, opaqueDirectory, hn]
      simp only [hk, if_true]
    obtain ⟨h1, h2⟩ := insert_directory_spec h hdir hok kind_opaqueNode
    rw [hst]
    refine ⟨h1, h2, fun q => ?_⟩
    rw [node?_insert, if_neg (show ¬(Above d q ∧ ¬st.IsDir d) from fun hcon => hcon.2 hdir)]
  · obtain ⟨h1, h2, h3⟩ :=
      purge_setNode_directory_spec h hpar (placeholderNode_ok (m := m) (d := d)) rfl
    have hst : st.opaqueDirectory d m =
        ((st.purgeSubtree d true).setNode d (placeholderNode m d) true, placeholderNode m d) := by
      rw [opaqueDirectory]
      split
      · rename_i n hn
        exact if_neg fun hk => hdir ⟨n, hn, hk⟩
      · rfl
    set mid := (st.purgeSubtree d true).setNode d (placeholderNode m d) true with hmid
    have hst' : st.markOpaque d m =
        { mid with table := mid.table.insert d (opaqueNode m d (st.node? d)) } := by
      rw [opaqueNode_of_not_isDir hdir, markOpaque, hst]
    obtain ⟨k1, k2⟩ := insert_directory_spec h1 ⟨placeholderNode m d, by rw [h3, if_pos rfl], rfl⟩
      hok kind_opaqueNode
    rw [hst']
    refine ⟨k1, h2.trans k2, fun q => ?_⟩
    rw [node?_insert]
    refine ite_congr rfl (fun _ => rfl) fun hq => ?_
    rw [h3, if_neg hq]
    exact if_congr (iff_self_and.mpr fun _ => hdir) rfl rfl

/-- **What an opaque marker does**, below the root: the ancestors of its directory
and the directory become directories, the last one opaque, and everything else
stays what it was. -/
theorem opaqueMarker_spec (h : st.WellFormed) (hd : d ≠ RelPath.dot) :
    (st.opaqueMarker d m).WellFormed ∧ Trims st (st.opaqueMarker d m) ∧
      ∀ q, (st.opaqueMarker d m).node? q =
        if q = d then some (opaqueNode m d (st.node? d))
        else if q ∈ walk d then some (ensuredNode m false q (st.node? q))
        else st.node? q := by
  obtain ⟨h1, h2, h3⟩ := ensureParents_spec h m false d
  obtain ⟨k1, k2, k3⟩ := markOpaque_spec (m := m) h1 fun e he hne =>
    ensureParents_isDir h m false he hne
  have hst : st.opaqueMarker d m = (st.ensureParents d m false).markOpaque d m := by
    rw [opaqueMarker, if_pos hd]
  have hself : d ∉ walk d := fun hcon => not_above_self d (mem_walk.mp hcon).2
  have hsame : (st.ensureParents d m false).node? d = st.node? d := by rw [h3, if_neg hself]
  rw [hst]
  refine ⟨k1, h2.trans k2, fun q => ?_⟩
  rw [k3, hsame]
  refine ite_congr rfl (fun _ => rfl) fun _ => ?_
  simp only [isDir_congr hsame]
  split
  · rename_i hq
    have hnone := h.node?_eq_none hd hq.2 hq.1
    rw [if_neg fun hcon => hq.1.not_atOrAbove (mem_walk.mp hcon).2.atOrAbove, hnone]
  · exact h3 q

/-- What an opaque marker does at the root. -/
theorem opaqueMarker_dot_spec (h : st.WellFormed) :
    (st.opaqueMarker RelPath.dot m).WellFormed ∧ Trims st (st.opaqueMarker RelPath.dot m) ∧
      ∀ q, (st.opaqueMarker RelPath.dot m).node? q =
        if q = RelPath.dot then some (opaqueNode m RelPath.dot (st.node? RelPath.dot))
        else if st.IsDir RelPath.dot then st.node? q
        else none := by
  obtain ⟨k1, k2, k3⟩ := markOpaque_spec (m := m) (d := RelPath.dot) h (fun e he => by cases he)
  have hst : st.opaqueMarker RelPath.dot m = st.markOpaque RelPath.dot m := by
    rw [opaqueMarker, if_neg (by simp)]
  rw [hst]
  refine ⟨k1, k2, fun q => ?_⟩
  rw [k3]
  by_cases hq : q = RelPath.dot
  · rw [if_pos hq, if_pos hq]
  · rw [if_neg hq, if_neg hq]
    by_cases hdir : st.IsDir RelPath.dot
    · rw [if_neg fun hcon => hcon.2 hdir, if_pos hdir]
    · rw [if_pos ⟨above_root hq, hdir⟩, if_neg hdir]

/-- The node that an ordinary whiteout leaves. -/
def whiteoutNode (m : ChangesetMember π) (target : RelPath) : Node π where
  member := whiteoutMember m target
  kind := .whiteout

theorem whiteoutNode_ok : (whiteoutNode m p).Ok := by
  constructor <;> simp [whiteoutNode]

/-- Setting a node, childless or a directory, where its parent is a directory. -/
theorem setNode_spec (keep : Bool) (h : st.WellFormed) (hn : n.Ok) (hpend : n.pendingTarget = none)
    (hpar : ∀ e, p.parent = some e → e ≠ RelPath.dot → st.IsDir e)
    (hkeep : keep = true ∧ n.kind = .directory ∨ ∀ q, Above p q → st.node? q = none) :
    (st.setNode p n keep).WellFormed ∧ Trims st (st.setNode p n keep) :=
  have htrim := setNode_trims h hpend
  ⟨⟨setNode_treelike h.toTreelike hn hpar hkeep, htrim.waiting⟩, htrim⟩

/-- **What an ordinary whiteout does**: nothing is left below its target. -/
theorem whiteoutMarker_spec (h : st.WellFormed) :
    (st.whiteoutMarker p m).WellFormed ∧ Trims st (st.whiteoutMarker p m) ∧
      ∀ q, (st.whiteoutMarker p m).node? q =
        if q = p then some (whiteoutNode m p)
        else if Above p q then none
        else if q ∈ walk p then some (ensuredNode m false q (st.node? q))
        else st.node? q := by
  obtain ⟨h1, h2, h3⟩ := ensureParents_spec h m false p
  obtain ⟨k1, k2, k3⟩ := purgeSubtree_true_spec h1 p
  have hpar : ∀ e, p.parent = some e → e ≠ RelPath.dot →
      ((st.ensureParents p m false).purgeSubtree p true).IsDir e := by
    intro e he hne
    refine (isDir_congr ?_).mpr (ensureParents_isDir h m false he hne)
    rw [k3, if_neg (above_of_parent he).not_atOrAbove]
  obtain ⟨l1, l2⟩ := setNode_spec false k1 whiteoutNode_ok rfl hpar
    (Or.inr fun q hq => by rw [k3, if_pos hq.atOrAbove])
  refine ⟨l1, (h2.trans k2).trans l2, fun q => ?_⟩
  change ((Reduction.setNode _ p (whiteoutNode m p) false).node? q) = _
  rw [node?_setNode]
  refine ite_congr rfl (fun _ => rfl) fun hq => ?_
  rw [k3, ← h3]
  exact if_congr ⟨fun hpq => hpq.resolve_left (Ne.symm hq), Above.atOrAbove⟩ rfl rfl

/-! ### Members that are no markers -/

theorem clearPlace_eq : st.clearPlace p m =
    if m.kind ≠ .directory then (st.ensureParents p m true).purgeSubtree p false
    else st.ensureParents p m true := by
  have hens : (if p ≠ RelPath.dot then st.ensureParents p m true else st) =
      st.ensureParents p m true := by
    by_cases hp : p = RelPath.dot
    · rw [if_neg (not_not.mpr hp), hp]
      exact (ensureParents_of_walk_eq_nil walk_root).symm
    · exact if_pos hp
  rw [clearPlace, hens]

/-- **What a member finds at its place.** -/
theorem clearPlace_spec (h : st.WellFormed) :
    (st.clearPlace p m).WellFormed ∧ Trims st (st.clearPlace p m) ∧
      ∀ q, (st.clearPlace p m).node? q =
        if m.kind ≠ .directory ∧ Above p q then none
        else if q ∈ walk p then some (ensuredNode m true q (st.node? q))
        else st.node? q := by
  obtain ⟨h1, h2, h3⟩ := ensureParents_spec h m true p
  rw [clearPlace_eq]
  by_cases hk : m.kind ≠ .directory
  · obtain ⟨k1, k2, k3⟩ := purgeSubtree_false_spec h1 p
    rw [if_pos hk]
    refine ⟨k1, h2.trans k2, fun q => ?_⟩
    rw [k3, h3]
    exact if_congr (iff_and_self.mpr fun _ => hk) rfl rfl
  · rw [if_neg hk]
    refine ⟨h1, h2, fun q => ?_⟩
    rw [h3, if_neg (show ¬(m.kind ≠ .directory ∧ Above p q) from fun hcon => hk hcon.1)]

/-- The place itself is left as it is. -/
theorem node?_clearPlace_self (h : st.WellFormed) : (st.clearPlace p m).node? p = st.node? p := by
  rw [(clearPlace_spec h).2.2, if_neg fun hcon => not_above_self p hcon.2,
    if_neg fun hcon => not_above_self p (mem_walk.mp hcon).2]

theorem clearPlace_isDir (h : st.WellFormed) {e : RelPath} (he : p.parent = some e)
    (hne : e ≠ RelPath.dot) : (st.clearPlace p m).IsDir e := by
  have hmem : e ∈ walk p := mem_walk.mpr ⟨hne, above_of_parent he⟩
  refine ⟨ensuredNode m true e (st.node? e), ?_, kind_ensuredNode⟩
  rw [(clearPlace_spec h).2.2, if_pos hmem,
    if_neg fun hcon => (above_of_parent he).not_atOrAbove hcon.2.atOrAbove]

/-- Nothing lies below the place of a member that is no directory. -/
theorem clearPlace_below (h : st.WellFormed) (hk : m.kind ≠ .directory) (hq : Above p q) :
    (st.clearPlace p m).node? q = none := by
  rw [(clearPlace_spec h).2.2, if_pos ⟨hk, hq⟩]

/-- The node that a member other than a file or a hardlink leaves. -/
def otherNode (m : ChangesetMember π) (isOpaque : Bool) : Node π where
  member := m
  kind := m.kind
  isOpaque := isOpaque

theorem isDir_of_preserveOpaque (h : st.preserveOpaque p m = true) : m.kind = .directory := by
  unfold preserveOpaque at h
  split at h
  · simp only [Bool.and_eq_true, decide_eq_true_eq] at h
    exact h.1.1
  · cases h

theorem otherNode_ok (hf : m.kind ≠ .file) (hl : m.kind ≠ .hardlink) :
    (otherNode m (st.preserveOpaque p m)).Ok where
  pending := by simp [otherNode]
  grouped := by simp [otherNode]
  file h := absurd h hf
  link h := absurd h hl
  opq := isDir_of_preserveOpaque

theorem placeOther_spec (h : st.WellFormed) (hf : m.kind ≠ .file) (hl : m.kind ≠ .hardlink)
    (hpar : ∀ e, p.parent = some e → e ≠ RelPath.dot → st.IsDir e)
    (hbelow : m.kind ≠ .directory → ∀ q, Above p q → st.node? q = none) :
    (st.placeOther p m).WellFormed ∧ Trims st (st.placeOther p m) ∧
      ∀ q, (st.placeOther p m).node? q =
        if q = p then some (otherNode m (st.preserveOpaque p m)) else st.node? q := by
  have hkeep : decide (m.kind = .directory) = true ∧ m.kind = .directory ∨
      ∀ q, Above p q → st.node? q = none := by
    by_cases hk : m.kind = .directory
    · exact Or.inl ⟨decide_eq_true hk, hk⟩
    · exact Or.inr (hbelow hk)
  obtain ⟨h1, h2⟩ := setNode_spec _ h (otherNode_ok hf hl) rfl hpar hkeep
  exact ⟨h1, h2, fun q => node?_setNode⟩

/-! ### Files, and the links that wait for them -/

/-- A forward link once its file has come. -/
def boundNode (group : ℕ) (n : Node π) : Node π :=
  { n with pendingTarget := none, groupId := some group }

theorem resolveLink_eq {g : ℕ} {link : RelPath} :
    resolveLink t g st link =
      { st with table := (resolveLink t g st link).table } := by
  unfold resolveLink
  split
  · rfl
  · split <;> rfl

theorem node?_resolveLink {g : ℕ} {link : RelPath} :
    (resolveLink t g st link).node? q =
      if q = link ∧ st.pendingAt q = some t then (st.node? q).map (boundNode g)
      else st.node? q := by
  unfold resolveLink
  split
  · rename_i hl
    refine (if_neg ?_).symm
    rintro ⟨rfl, hq⟩
    rw [pendingAt, hl] at hq
    cases hq
  · rename_i n hl
    have hpend : st.pendingAt link = n.pendingTarget := by rw [pendingAt, hl, Option.bind_some]
    split
    · rename_i hn
      rw [node?_insert]
      by_cases hq : q = link
      · subst hq
        rw [if_pos rfl, if_pos ⟨rfl, hpend.trans hn⟩, hl]
        rfl
      · rw [if_neg hq, if_neg fun hcon => hq hcon.1]
    · rename_i hn
      refine (if_neg ?_).symm
      rintro ⟨rfl, hq⟩
      exact hn (hpend.symm.trans hq)

theorem foldl_resolveLink_eq {g : ℕ} (l : List RelPath) (st : Reduction π) :
    l.foldl (resolveLink t g) st =
      { st with table := (l.foldl (resolveLink t g) st).table } := by
  induction l generalizing st with
  | nil => rfl
  | cons link l ih =>
    rw [List.foldl_cons, ih, resolveLink_eq]

theorem node?_foldl_resolveLink {g : ℕ} (l : List RelPath) (st : Reduction π) :
    (l.foldl (resolveLink t g) st).node? q =
      if q ∈ l ∧ st.pendingAt q = some t then (st.node? q).map (boundNode g)
      else st.node? q := by
  induction l generalizing st with
  | nil => rw [List.foldl_nil, if_neg fun hcon => List.not_mem_nil hcon.1]
  | cons link l ih =>
    rw [List.foldl_cons, ih]
    by_cases hlink : q = link ∧ st.pendingAt q = some t
    · have hnode : (resolveLink t g st link).node? q = (st.node? q).map (boundNode g) := by
        rw [node?_resolveLink, if_pos hlink]
      have hpend : (resolveLink t g st link).pendingAt q ≠ some t := by
        rw [pendingAt, hnode]
        cases st.node? q <;> simp [boundNode]
      rw [if_neg fun hcon => hpend hcon.2, hnode,
        if_pos ⟨hlink.1 ▸ List.mem_cons_self, hlink.2⟩]
    · have hnode : (resolveLink t g st link).node? q = st.node? q := by
        rw [node?_resolveLink, if_neg hlink]
      rw [hnode, pendingAt_congr hnode]
      refine if_congr ⟨fun hq => ⟨List.mem_cons_of_mem _ hq.1, hq.2⟩, fun hq => ⟨?_, hq.2⟩⟩ rfl rfl
      exact (List.mem_cons.mp hq.1).resolve_left fun hcon => hlink ⟨hcon, hq.2⟩

/-- **What `resolve_forward` does**: exactly the links that wait for the target are
bound, and nothing waits for it any more. -/
theorem resolveForward_spec (h : st.WellFormed) (g : ℕ) :
    (st.resolveForward t g).WellFormed ∧ (st.resolveForward t g).groups = st.groups ∧
      (∀ s, (st.resolveForward t g).waitingFor s = if s = t then [] else st.waitingFor s) ∧
      ∀ q, (st.resolveForward t g).node? q =
        if q ∈ st.waitingFor t then (st.node? q).map (boundNode g) else st.node? q := by
  set mid : Reduction π := { st with pendingByTarget := st.pendingByTarget.erase t } with hmid
  set links := (st.waitingFor t).insertionSort (· ≤ ·) with hlinks
  have hst : st.resolveForward t g = links.foldl (resolveLink t g) mid := rfl
  have hnode : ∀ q, (st.resolveForward t g).node? q =
      if q ∈ st.waitingFor t then (st.node? q).map (boundNode g) else st.node? q := by
    intro q
    rw [hst, node?_foldl_resolveLink]
    refine if_congr ⟨fun hq => ?_, fun hq => ⟨?_, h.waiting t q hq⟩⟩ rfl rfl
    · exact (List.mem_insertionSort _).mp hq.1
    · exact (List.mem_insertionSort _).mpr hq
  have hwait : ∀ s, (st.resolveForward t g).waitingFor s =
      if s = t then [] else st.waitingFor s := by
    intro s
    rw [hst, foldl_resolveLink_eq]
    exact waitingFor_erase t s
  have hsome : ∀ q, ((st.resolveForward t g).node? q).isSome ↔ (st.node? q).isSome := by
    intro q
    rw [hnode]
    split
    · rw [Option.isSome_map]
    · rfl
  -- A link that is bound keeps its kind, so directories stay directories.
  have hkind : ∀ q n, st.node? q = some n →
      ∃ k, (st.resolveForward t g).node? q = some k ∧ k.kind = n.kind := by
    intro q n hn
    rw [hnode, hn]
    split
    · exact ⟨_, rfl, rfl⟩
    · exact ⟨_, rfl, rfl⟩
  refine ⟨⟨⟨fun d q => ?_, fun d q hd hq hne => ?_, fun q n hn => ?_⟩, fun s q hq => ?_⟩,
    by rw [hst, foldl_resolveLink_eq], hwait, hnode⟩
  · rw [hsome, hst, foldl_resolveLink_eq]
    exact h.listed d q
  · obtain ⟨k, hk1, hk2⟩ := h.parent_isDir d q hd ((hsome q).mp hq) hne
    obtain ⟨l, hl1, hl2⟩ := hkind d k hk1
    exact ⟨l, hl1, hl2.trans hk2⟩
  · rw [hnode] at hn
    split at hn
    · rename_i hq
      obtain ⟨k, hk, rfl⟩ := Option.map_eq_some_iff.mp hn
      have hok := h.ok q k hk
      have hpend := h.waiting t q hq
      rw [pendingAt, hk, Option.bind_some] at hpend
      have hlink : k.kind = .hardlink := (hok.pending (by simp [hpend])).1
      exact ⟨by simp [boundNode], fun _ => Or.inr hlink, by simp [boundNode, hlink],
        by simp [boundNode], hok.opq⟩
    · exact h.ok q n hn
  · rw [hwait] at hq
    split at hq
    · exact absurd hq List.not_mem_nil
    · rename_i hst'
      have hpend := h.waiting s q hq
      refine (pendingAt_congr ?_).trans hpend
      rw [hnode]
      refine if_neg fun hcon => hst' ?_
      exact Option.some_inj.mp (hpend.symm.trans (h.waiting t q hcon))

/-- The node that a regular file leaves. -/
def fileNode (m : ChangesetMember π) : Node π where
  member := m
  kind := .file
  groupId := some m.ordinal

theorem fileNode_ok : (fileNode m).Ok := by
  constructor <;> simp [fileNode]

/-- The state a regular file leaves before the links that wait for it are bound. -/
def putFile (st : Reduction π) (p : RelPath) (m : ChangesetMember π) : Reduction π :=
  setNode { st with groups := st.groups.insert m.ordinal m } p (fileNode m) false

theorem putFile_spec (h : st.WellFormed)
    (hpar : ∀ e, p.parent = some e → e ≠ RelPath.dot → st.IsDir e)
    (hbelow : ∀ q, Above p q → st.node? q = none) :
    (st.putFile p m).WellFormed ∧ (st.putFile p m).groups = st.groups.insert m.ordinal m ∧
      (∀ t q, q ∈ (st.putFile p m).waitingFor t ↔ q ∈ st.waitingFor t ∧ q ≠ p) ∧
      ∀ q, (st.putFile p m).node? q = if q = p then some (fileNode m) else st.node? q := by
  have h' : WellFormed { st with groups := st.groups.insert m.ordinal m } :=
    ⟨⟨h.listed, h.parent_isDir, h.ok⟩, h.waiting⟩
  obtain ⟨h1, h2⟩ := @setNode_spec _ _ (fileNode m) p false h' fileNode_ok rfl hpar
    (Or.inr hbelow)
  refine ⟨h1, h2.groups, fun t q => ?_, fun q => node?_setNode⟩
  have hmem := @mem_waitingFor_removeExact π _ p q t false h'.waiting
  rw [waitingFor_removeExact] at hmem
  rw [putFile, waitingFor_setNode]
  exact hmem

/-- **What a regular file does** to a place that was cleared for it. -/
theorem placeFile_spec (h : st.WellFormed)
    (hpar : ∀ e, p.parent = some e → e ≠ RelPath.dot → st.IsDir e)
    (hbelow : ∀ q, Above p q → st.node? q = none) :
    (st.placeFile p m).WellFormed ∧ (st.placeFile p m).groups = st.groups.insert m.ordinal m ∧
      (∀ t q, q ∈ (st.placeFile p m).waitingFor t ↔
        q ∈ st.waitingFor t ∧ q ≠ p ∧ t ≠ p.text) ∧
      ∀ q, (st.placeFile p m).node? q =
        if q = p then some (fileNode m)
        else if q ∈ st.waitingFor p.text then (st.node? q).map (boundNode m.ordinal)
        else st.node? q := by
  obtain ⟨h1, h2, h3, h4⟩ := putFile_spec (m := m) h hpar hbelow
  obtain ⟨k1, k2, k3, k4⟩ := resolveForward_spec (t := p.text) h1 m.ordinal
  have hst : st.placeFile p m = (st.putFile p m).resolveForward p.text m.ordinal := rfl
  rw [hst]
  refine ⟨k1, k2.trans h2, fun t q => ?_, fun q => ?_⟩
  · rw [k3]
    split
    · rename_i ht
      simp [ht]
    · rename_i ht
      rw [h3]
      simp [ht]
  · rw [k4, h4]
    by_cases hq : q = p
    · rw [if_pos hq, if_pos hq, if_neg fun hcon => ((h3 _ q).mp hcon).2 hq]
    · rw [if_neg hq, if_neg hq]
      exact if_congr ((h3 _ q).trans (and_iff_left hq)) rfl rfl

/-! ### Hardlinks -/

/-- The node that a backward link leaves. -/
def backwardNode (m : ChangesetMember π) (target : Node π) : Node π where
  member := m
  kind := .hardlink
  groupId := target.groupId

/-- The node that a forward link leaves. -/
def forwardNode (m : ChangesetMember π) : Node π where
  member := m
  kind := .hardlink
  pendingTarget := some m.linkTarget

theorem backwardNode_ok {target : Node π} (h : target.Ok) (hk : target.kind = .file) :
    (backwardNode m target).Ok := by
  constructor <;> simp [backwardNode, h.file hk]

theorem forwardNode_ok : (forwardNode m).Ok := by
  constructor <;> simp [forwardNode]

/-- The state a forward link leaves. -/
def putForward (st : Reduction π) (p : RelPath) (m : ChangesetMember π) : Reduction π :=
  setNode { st with
    pendingByTarget := st.pendingByTarget.insert m.linkTarget
      ((st.waitingFor m.linkTarget).insert p) } p (forwardNode m) false

/-- **What a forward link does.** It waits for its target, unless a link that waited
for the same target was at its place. -/
theorem putForward_spec (h : st.WellFormed)
    (hpar : ∀ e, p.parent = some e → e ≠ RelPath.dot → st.IsDir e)
    (hbelow : ∀ q, Above p q → st.node? q = none) :
    (st.putForward p m).WellFormed ∧ (st.putForward p m).groups = st.groups ∧
      (∀ t q, q ∈ (st.putForward p m).waitingFor t ↔
        q ∈ st.waitingFor t ∧ q ≠ p ∨
          q = p ∧ t = m.linkTarget ∧ st.pendingAt p ≠ some m.linkTarget) ∧
      ∀ q, (st.putForward p m).node? q = if q = p then some (forwardNode m) else st.node? q := by
  set mid : Reduction π := { st with
    pendingByTarget := st.pendingByTarget.insert m.linkTarget
      ((st.waitingFor m.linkTarget).insert p) } with hmid
  have hst : st.putForward p m = mid.setNode p (forwardNode m) false := rfl
  have htree : mid.Treelike := ⟨h.listed, h.parent_isDir, h.ok⟩
  have hnode : ∀ q, (st.putForward p m).node? q =
      if q = p then some (forwardNode m) else st.node? q := fun q => node?_setNode
  have hmidwait : ∀ t q, q ∈ mid.waitingFor t ↔
      q ∈ st.waitingFor t ∨ q = p ∧ t = m.linkTarget := by
    intro t q
    rw [hmid, waitingFor_insert]
    split
    · rename_i ht
      rw [List.mem_insert_iff, ht]
      tauto
    · rename_i ht
      simp [ht]
  have hwait : ∀ t q, q ∈ (st.putForward p m).waitingFor t ↔
      q ∈ st.waitingFor t ∧ q ≠ p ∨
        q = p ∧ t = m.linkTarget ∧ st.pendingAt p ≠ some m.linkTarget := by
    intro t q
    rw [hst, waitingFor_setNode, show mid.pendingAt p = st.pendingAt p from rfl]
    -- The node that was here waited for the same target, and its entry goes with it.
    split
    · rename_i hp
      simp only [ne_eq, decide_not, List.mem_filter, Bool.not_eq_eq_eq_not, Bool.not_true,
        decide_eq_false_iff_not, hmidwait]
      rw [hp]
      constructor
      · rintro ⟨hq | hq, hqp⟩
        · exact Or.inl ⟨hq, hqp⟩
        · exact absurd hq.1 hqp
      · rintro (hq | ⟨-, ht, hcon⟩)
        · exact ⟨Or.inl hq.1, hq.2⟩
        · exact absurd (congrArg some ht) hcon
    · rename_i hp
      rw [hmidwait]
      constructor
      · rintro (hq | ⟨hq, ht⟩)
        · refine Or.inl ⟨hq, ?_⟩
          rintro rfl
          exact hp (h.waiting t q hq)
        · exact Or.inr ⟨hq, ht, ht ▸ hp⟩
      · rintro (hq | ⟨hq, ht, -⟩)
        · exact Or.inl hq.1
        · exact Or.inr ⟨hq, ht⟩
  refine ⟨⟨setNode_treelike htree forwardNode_ok hpar (Or.inr hbelow), fun t q hq => ?_⟩,
    groups_setNode, hwait, hnode⟩
  rw [pendingAt, hnode]
  rcases (hwait t q).mp hq with ⟨hq, hqp⟩ | ⟨hqp, ht, -⟩
  · rw [if_neg hqp]
    exact h.waiting t q hq
  · rw [if_pos hqp, ht]
    rfl

theorem placeHardlink_cases (h : st.placeHardlink p m = .ok st') :
    m.linkTarget ≠ p.text ∧
      ((∃ target, st.nodeAt? m.linkTarget = some target ∧ target.kind = .file ∧
          st' = st.setNode p (backwardNode m target) false) ∨
        (∀ target, st.nodeAt? m.linkTarget = some target →
          target.kind ≠ .file ∧ target.kind ≠ .hardlink) ∧ st' = st.putForward p m) := by
  unfold placeHardlink at h
  split at h
  · cases h
  · rename_i hself
    refine ⟨hself, ?_⟩
    dsimp only at h
    split at h
    · rename_i target htarget
      split at h
      · rename_i hfile
        exact Or.inl ⟨target, htarget, hfile, (Except.ok.inj h).symm⟩
      · rename_i hfile
        split at h
        · cases h
        · rename_i hlink
          refine Or.inr ⟨fun other hother => ?_, (Except.ok.inj h).symm⟩
          obtain rfl : target = other := Option.some_inj.mp (htarget.symm.trans hother)
          exact ⟨hfile, hlink⟩
    · rename_i hnone
      refine Or.inr ⟨fun other hother => ?_, (Except.ok.inj h).symm⟩
      rw [hnone] at hother
      cases hother

theorem nodeAt?_ok (h : st.Treelike) (ht : st.nodeAt? t = some n) : n.Ok := by
  rw [nodeAt?] at ht
  obtain ⟨q, -, hq⟩ := Option.bind_eq_some_iff.mp ht
  exact h.ok q n hq

/-- A backward link is bound at once. -/
theorem putBackward_spec {target : Node π} (h : st.WellFormed) (htarget : target.Ok)
    (hfile : target.kind = .file)
    (hpar : ∀ e, p.parent = some e → e ≠ RelPath.dot → st.IsDir e)
    (hbelow : ∀ q, Above p q → st.node? q = none) :
    (st.setNode p (backwardNode m target) false).WellFormed ∧
      Trims st (st.setNode p (backwardNode m target) false) :=
  setNode_spec _ h (backwardNode_ok htarget hfile) rfl hpar (Or.inr hbelow)

/-! ### The round as a whole -/

/-- The three ways in which a member that is no marker takes its place. -/
theorem placeMember_cases (h : st.placeMember p m = .ok st') :
    m.kind = .file ∧ st' = (st.clearPlace p m).placeFile p m ∨
      m.kind = .hardlink ∧ (st.clearPlace p m).placeHardlink p m = .ok st' ∨
      m.kind ≠ .file ∧ m.kind ≠ .hardlink ∧ st' = (st.clearPlace p m).placeOther p m := by
  unfold placeMember at h
  dsimp only at h
  split at h
  · rename_i hk
    exact Or.inl ⟨hk, (Except.ok.inj h).symm⟩
  · rename_i hk
    exact Or.inr (Or.inl ⟨hk, h⟩)
  · rename_i hf hl
    exact Or.inr (Or.inr ⟨hf, hl, (Except.ok.inj h).symm⟩)

theorem placeMember_wellFormed (h : st.WellFormed) (hok : st.placeMember p m = .ok st') :
    st'.WellFormed := by
  obtain ⟨h1, -, -⟩ := clearPlace_spec (p := p) (m := m) h
  have hpar : ∀ e, p.parent = some e → e ≠ RelPath.dot → (st.clearPlace p m).IsDir e :=
    fun e he hne => clearPlace_isDir h he hne
  have hbelow : m.kind ≠ .directory → ∀ q, Above p q → (st.clearPlace p m).node? q = none :=
    fun hk q hq => clearPlace_below h hk hq
  rcases placeMember_cases hok with ⟨hk, rfl⟩ | ⟨hk, hlink⟩ | ⟨hf, hl, rfl⟩
  · exact (placeFile_spec h1 hpar (hbelow (by simp [hk]))).1
  · have hbelow' := hbelow (by simp [hk])
    rcases (placeHardlink_cases hlink).2 with ⟨target, ht, hfile, rfl⟩ | ⟨-, rfl⟩
    · exact (putBackward_spec h1 (nodeAt?_ok h1.toTreelike ht) hfile hpar hbelow').1
    · exact (putForward_spec h1 hpar hbelow').1
  · exact (placeOther_spec h1 hf hl hpar hbelow).1

theorem opaqueMarker_wellFormed (h : st.WellFormed) : (st.opaqueMarker d m).WellFormed := by
  by_cases hd : d = RelPath.dot
  · rw [hd]
    exact (opaqueMarker_dot_spec h).1
  · exact (opaqueMarker_spec h hd).1

/-- A round either fails or does what the classified member asks for. -/
theorem step_eq_ok : st.step m = .ok st' ↔ ∃ a, classify m = .ok a ∧ st.act m a = .ok st' := by
  rw [step]
  cases classify m with
  | error e => simp [bind, Except.bind]
  | ok a => simp [bind, Except.bind]

theorem act_wellFormed {a : Action} (h : st.WellFormed) (hok : st.act m a = .ok st') :
    st'.WellFormed := by
  cases a with
  | opq d =>
    obtain rfl : st.opaqueMarker d m = st' := Except.ok.inj hok
    exact opaqueMarker_wellFormed h
  | whiteout t =>
    obtain rfl : st.whiteoutMarker t m = st' := Except.ok.inj hok
    exact (whiteoutMarker_spec h).1
  | place p => exact placeMember_wellFormed h hok

/-- **A round keeps the invariant.** -/
theorem step_wellFormed (h : st.WellFormed) (hok : st.step m = .ok st') : st'.WellFormed := by
  obtain ⟨a, -, ha⟩ := step_eq_ok.mp hok
  exact act_wellFormed h ha

theorem run_cons {ms : List (ChangesetMember π)} :
    st.run (m :: ms) = .ok st'' ↔ ∃ st', st.step m = .ok st' ∧ st'.run ms = .ok st'' := by
  rw [run, List.foldlM_cons]
  cases st.step m with
  | error e => simp [bind, Except.bind]
  | ok s => simp [bind, Except.bind, run]

theorem run_append {ms ms' : List (ChangesetMember π)} :
    st.run (ms ++ ms') = .ok st'' ↔ ∃ st', st.run ms = .ok st' ∧ st'.run ms' = .ok st'' := by
  rw [run, run, List.foldlM_append]
  cases ms.foldlM step st with
  | error e => simp [bind, Except.bind]
  | ok s => simp [bind, Except.bind, run]

/-- The main loop, one member at the end. -/
theorem run_concat {ms : List (ChangesetMember π)} :
    st.run (ms ++ [m]) = .ok st'' ↔ ∃ st', st.run ms = .ok st' ∧ st'.step m = .ok st'' := by
  rw [run_append]
  refine exists_congr fun s => and_congr_right fun _ => ?_
  rw [run_cons]
  constructor
  · rintro ⟨s', hs, hnil⟩
    obtain rfl : s' = st'' := Except.ok.inj hnil
    exact hs
  · exact fun hs => ⟨st'', hs, rfl⟩

/-- **The main loop keeps the invariant.** -/
theorem run_wellFormed {ms : List (ChangesetMember π)} (h : st.WellFormed)
    (hok : st.run ms = .ok st') : st'.WellFormed := by
  induction ms generalizing st with
  | nil =>
    obtain rfl : st = st' := Except.ok.inj hok
    exact h
  | cons m ms ih =>
    obtain ⟨s, hs, hrest⟩ := run_cons.mp hok
    exact ih (step_wellFormed h hs) hrest

/-- A property that every round keeps holds after the main loop, which starts with
an empty table: the induction is on the members, the last one taken off. -/
theorem run_induction {motive : List (ChangesetMember π) → Reduction π → Prop}
    (nil : motive [] empty)
    (concat : ∀ ms m st st', empty.run ms = .ok st → st.WellFormed → st.step m = .ok st' →
      motive ms st → motive (ms ++ [m]) st')
    {ms : List (ChangesetMember π)} (hok : empty.run ms = .ok st) : motive ms st := by
  induction ms using List.reverseRecOn generalizing st with
  | nil =>
    obtain rfl : empty = st := Except.ok.inj hok
    exact nil
  | append_singleton ms m ih =>
    obtain ⟨s, hs, hstep⟩ := run_concat.mp hok
    exact concat ms m s st hs (run_wellFormed wellFormed_empty hs) hstep (ih hs)

end Reduction

end Palimpsest
