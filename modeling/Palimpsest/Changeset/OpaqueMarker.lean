import Palimpsest.Changeset.Layout
import Palimpsest.Changeset.Normalize

/-!
# Opaque markers and the layer's own content

An opaque marker hides what lower layers have in a directory. Whether it also spares
what its own layer has there depends on one thing. Every directory below the root
has a node in the table as soon as something lies in it, but the root has one only
if a member lists it, or if it was made opaque before. Where the root has none, its
marker purges everything the layer has so far
(`Palimpsest.Reduction.opaqueMarker_spares_iff`).
-/

namespace Palimpsest

open ParentTree

variable {π : Type}

/-- Whether the archive root is listed as a directory, or opaque, after one more
member. -/
def listsRoot (listed : Bool) (m : ChangesetMember π) : Bool :=
  match classify m with
  | .ok (.opq d) => d = RelPath.dot || listed
  | .ok (.place p) => if p = RelPath.dot then m.kind = .directory else listed
  | _ => listed

/-- Whether a list of members leaves the archive root listed as a directory, or
opaque: the last member that says something of the root itself decides. -/
def rootListed (ms : List (ChangesetMember π)) : Bool := ms.foldl listsRoot false

namespace Reduction

variable {st st' : Reduction π} {m : ChangesetMember π} {n : Node π} {p q d : RelPath}
  {ms : List (ChangesetMember π)}

/-! ### The node of the root -/

theorem dirAt_dot_step (h : st.WellFormed) (hok : st.step m = .ok st') :
    st'.layout.dirAt RelPath.dot = listsRoot (st.layout.dirAt RelPath.dot) m := by
  obtain ⟨a, ha, hlayout⟩ := layout_step h hok
  have hwith : ∀ p, (st.layout.withParents p) RelPath.dot = st.layout RelPath.dot := by
    intro p
    rw [Layout.withParents, if_neg (RelPath.dot_not_mem_walk p)]
  rw [hlayout, listsRoot, ha, Layout.dirAt]
  cases a with
  | opq d =>
    simp only [Layout.act]
    by_cases hd : RelPath.dot = d
    · rw [if_pos hd]
      simp [← hd]
    · rw [if_neg hd, if_neg fun hcon => hd hcon.1.symm, hwith d]
      simp [Ne.symm hd, Layout.dirAt]
  | whiteout t =>
    simp only [Layout.act]
    rw [if_neg (whiteout_ne_dot ha).symm, if_neg (RelPath.not_above_dot t), hwith t, Layout.dirAt]
  | place p =>
    simp only [Layout.act]
    by_cases hp : RelPath.dot = p
    · rw [if_pos hp, if_pos hp.symm]
      rfl
    · rw [if_neg hp, if_neg fun hcon => RelPath.not_above_dot p hcon.2, if_neg (Ne.symm hp),
        hwith p, Layout.dirAt]

/-- **The root has a directory node exactly if the archive so far says so.** -/
theorem isDir_dot_run (hok : empty.run ms = .ok st) :
    st.IsDir RelPath.dot ↔ rootListed ms = true := by
  rw [← dirAt_layout]
  refine Bool.eq_iff_iff.mp ?_
  refine run_induction (motive := fun ms st => st.layout.dirAt RelPath.dot = rootListed ms)
    rfl ?_ hok
  intro ms m st st' _ hwf hstep ih
  rw [dirAt_dot_step hwf hstep, ih, rootListed, rootListed, List.foldl_append]
  rfl

/-! ### What a marker spares -/

/-- The node is still there, with the same kind and payload group. -/
def Spared (st' : Reduction π) (q : RelPath) (n : Node π) : Prop :=
  ∃ n', st'.node? q = some n' ∧ n'.kind = n.kind ∧ n'.groupId = n.groupId

theorem opaqueMarker_spares (h : st.WellFormed) (hd : d ≠ RelPath.dot ∨ st.IsDir RelPath.dot)
    (hq : Above d q) (hn : st.node? q = some n) : Spared (st.opaqueMarker d m) q n := by
  refine ⟨n, ?_, rfl, rfl⟩
  by_cases hdot : d = RelPath.dot
  · subst hdot
    rw [(opaqueMarker_dot_spec h).2.2, if_neg hq.ne.symm,
      if_pos (hd.resolve_left fun hne => hne rfl)]
    exact hn
  · rw [(opaqueMarker_spec h hdot).2.2, if_neg hq.ne.symm,
      if_neg fun hcon => hq.not_atOrAbove (mem_walk.mp hcon).2.atOrAbove]
    exact hn

theorem opaqueMarker_dot_purges (h : st.WellFormed) (hdir : ¬st.IsDir RelPath.dot)
    (hq : Above RelPath.dot q) : (st.opaqueMarker RelPath.dot m).node? q = none := by
  rw [(opaqueMarker_dot_spec h).2.2, if_neg hq.ne.symm, if_neg hdir]

/-- **When an opaque marker spares its own layer.** Where the layer has something
below the directory of a marker, all of it is still there after the marker if and
only if the directory is not the root, or the archive so far lists the root. -/
theorem opaqueMarker_spares_iff (hrun : empty.run ms = .ok st) (hm : classify m = .ok (.opq d))
    (hstep : st.step m = .ok st') (hbelow : ∃ q, Above d q ∧ (st.node? q).isSome) :
    (∀ q n, Above d q → st.node? q = some n → Spared st' q n) ↔
      d ≠ RelPath.dot ∨ rootListed ms = true := by
  have hwf : st.WellFormed := run_wellFormed wellFormed_empty hrun
  obtain ⟨a, ha, hact⟩ := step_eq_ok.mp hstep
  obtain rfl : Action.opq d = a := Except.ok.inj (hm.symm.trans ha)
  obtain rfl : st.opaqueMarker d m = st' := Except.ok.inj hact
  rw [← isDir_dot_run hrun]
  constructor
  · intro hall
    by_contra hcon
    rw [not_or, not_not] at hcon
    obtain ⟨rfl, hdir⟩ := hcon
    obtain ⟨q, hq, hsome⟩ := hbelow
    obtain ⟨n, hn⟩ := Option.isSome_iff_exists.mp hsome
    obtain ⟨n', hn', -⟩ := hall q n hq hn
    rw [opaqueMarker_dot_purges hwf hdir hq] at hn'
    cases hn'
  · exact fun hd q n hq hn => opaqueMarker_spares hwf hd hq hn

/-- A file spared by the marker of its directory, which no member lists. -/
theorem opaqueMarker_spares_iff_implied :
    ∃ st st', empty.run [bareMember 0 "d/a" .file ""] = .ok st ∧
      st.step (bareMember 1 "d/.wh..wh..opq" .file "") = .ok st' ∧
      ((∀ q n, Above ⟨"d".toList, by decide, by decide⟩ q → st.node? q = some n →
        Spared st' q n) ↔
          (⟨"d".toList, by decide, by decide⟩ : RelPath) ≠ RelPath.dot ∨
            rootListed [bareMember 0 "d/a" .file ""] = true) :=
  ⟨_, _, rfl, rfl,
    opaqueMarker_spares_iff (m := bareMember 1 "d/.wh..wh..opq" .file "") rfl rfl rfl
      ⟨⟨"d/a".toList, by decide, by decide⟩, by decide, rfl⟩⟩

/-- **The marker of an unlisted root loses its own layer.** The archive holds a
regular file and then the marker of the root; it is accepted, and the file is in
the table before the marker and not after it. -/
theorem opaqueMarker_loses_layer :
    (normalizeChangeset [bareMember 0 "a" .file "", bareMember 1 ".wh..wh..opq" .file ""]).isOk ∧
      classify (bareMember 1 ".wh..wh..opq" .file "") = .ok (.opq RelPath.dot) ∧
      ∃ st st', empty.run [bareMember 0 "a" .file ""] = .ok st ∧
        st.step (bareMember 1 ".wh..wh..opq" .file "") = .ok st' ∧
        ¬∀ q n, Above RelPath.dot q → st.node? q = some n → Spared st' q n := by
  refine ⟨by decide, rfl, _, _, rfl, rfl, fun h => ?_⟩
  obtain ⟨n', hn', -⟩ := h ⟨"a".toList, by decide, by decide⟩ _ (above_root (by decide)) rfl
  cases hn'

end Reduction

end Palimpsest
