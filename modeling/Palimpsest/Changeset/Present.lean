import Palimpsest.Changeset.Events
import Palimpsest.Changeset.LayerTree
import Palimpsest.Changeset.OpaqueMarker

/-!
# What has an entry

Below the root a path has an entry in the normalized changeset as long as no member buried it
since some member was about it or about something below it
(`Palimpsest.Reduction.exists_entry_iff`): a path is buried by what removes a directory above it,
and by the opaque marker of a root that is not listed at that place of the archive.
-/

namespace Palimpsest

open ParentTree

variable {π : Type}

/-- The action of a member of kind `kind` removes what is below some directory above a path.
`listed` says whether the root is a directory of the layer. -/
def Action.Buries (kind : EntryKind) (listed : Bool) (q : RelPath) : Action → Prop
  | .opq d => d = RelPath.dot ∧ listed = false
  | .whiteout t => Above t q
  | .place p => kind ≠ .directory ∧ Above p q

/-- The members of an archive, each with whether the members before it list the root. -/
def historyFrom : Bool → List (ChangesetMember π) → List (Bool × ChangesetMember π)
  | _, [] => []
  | listed, m :: ms => (listed, m) :: historyFrom (listsRoot listed m) ms

def history (ms : List (ChangesetMember π)) : List (Bool × ChangesetMember π) :=
  historyFrom false ms

theorem historyFrom_concat (listed : Bool) (ms : List (ChangesetMember π))
    (m : ChangesetMember π) : historyFrom listed (ms ++ [m]) =
      historyFrom listed ms ++ [(ms.foldl listsRoot listed, m)] := by
  induction ms generalizing listed with
  | nil => rfl
  | cons x ms ih =>
    rw [List.cons_append, historyFrom, ih, historyFrom, List.foldl_cons]
    rfl

theorem history_concat (ms : List (ChangesetMember π)) (m : ChangesetMember π) :
    history (ms ++ [m]) = history ms ++ [(rootListed ms, m)] :=
  historyFrom_concat false ms m

theorem mem_of_mem_history {ms : List (ChangesetMember π)} {e : Bool × ChangesetMember π}
    (h : e ∈ history ms) : e.2 ∈ ms := by
  induction ms using List.reverseRecOn with
  | nil => cases h
  | append_singleton ms m ih =>
    rw [history_concat, List.mem_append, List.mem_singleton] at h
    rcases h with h | rfl
    · exact List.mem_append_left _ (ih h)
    · exact List.mem_append_right _ List.mem_cons_self

/-- A member is about a path, or about something below it. -/
def Reaches (q : RelPath) (e : Bool × ChangesetMember π) : Prop :=
  ∃ a, classify e.2 = .ok a ∧ AtOrAbove q a.subject

/-- A member buries a path. -/
def Buries (q : RelPath) (e : Bool × ChangesetMember π) : Prop :=
  ∃ a, classify e.2 = .ok a ∧ a.Buries e.2.kind e.1 q

/-- Some member is about the path or about something below it, and no later one buries it. -/
def LeavesEntry (ms : List (ChangesetMember π)) (q : RelPath) : Prop :=
  Since (Reaches q) (Buries q) (history ms)

/-- **What has an entry after one more member.** -/
theorem Layout.isSome_act (L : Layout) {kind : EntryKind} {a : Action} {q : RelPath}
    (hq : q ≠ RelPath.dot) : (L.act kind a q).isSome ↔
      AtOrAbove q a.subject ∨ (L q).isSome ∧ ¬a.Buries kind (L.dirAt RelPath.dot) q := by
  -- Directories are made above a member where there are none.
  have hwith : ∀ p, (L.withParents p q).isSome ↔ Above q p ∨ (L q).isSome := by
    intro p
    rw [Layout.withParents]
    by_cases hw : q ∈ walk p
    · simp [if_pos hw, (mem_walk.mp hw).2]
    · have hnot : ¬Above q p := fun h => hw (mem_walk.mpr ⟨hq, h⟩)
      simp [if_neg hw, hnot]
  cases a with
  | opq d =>
    simp only [Layout.act, Action.subject, Action.Buries]
    by_cases hd : q = d
    · simp [hd, AtOrAbove.refl]
    · by_cases hroot : d = RelPath.dot ∧ ¬L.dirAt d = true
      · obtain ⟨rfl, hdir⟩ := hroot
        have hnot : ¬AtOrAbove q RelPath.dot := fun h =>
          h.elim hq (RelPath.not_above_dot q)
        simp [hd, hdir, hnot]
      · rw [if_neg hd, if_neg hroot, hwith]
        have hkeep : ¬(d = RelPath.dot ∧ L.dirAt RelPath.dot = false) := by
          rintro ⟨rfl, hdir⟩
          exact hroot ⟨rfl, by simp [hdir]⟩
        simp [AtOrAbove, hd, hkeep]
  | whiteout t =>
    simp only [Layout.act, Action.subject, Action.Buries]
    by_cases ht : q = t
    · simp [ht, AtOrAbove.refl]
    · by_cases hbelow : Above t q
      · have hnot : ¬AtOrAbove q t := hbelow.not_atOrAbove
        simp [ht, hbelow, hnot]
      · rw [if_neg ht, if_neg hbelow, hwith]
        simp [AtOrAbove, ht, hbelow]
  | place p =>
    simp only [Layout.act, Action.subject, Action.Buries]
    by_cases hp : q = p
    · simp [hp, AtOrAbove.refl]
    · by_cases hbelow : kind ≠ .directory ∧ Above p q
      · have hnot : ¬AtOrAbove q p := hbelow.2.not_atOrAbove
        simp [hp, hbelow.1, hbelow.2, hnot]
      · rw [if_neg hp, if_neg hbelow, hwith]
        simp [AtOrAbove, hp, hbelow]

namespace Reduction

variable {st : Reduction π} {ms : List (ChangesetMember π)} {q : RelPath}

/-- Below the root the table has the paths that members leave. -/
theorem isSome_layout_run (hok : empty.run ms = .ok st) (hq : q ≠ RelPath.dot) :
    (st.layout q).isSome ↔ LeavesEntry ms q := by
  suffices h : (st.layout.dirAt RelPath.dot = rootListed ms) ∧
      ((st.layout q).isSome ↔ LeavesEntry ms q) from h.2
  refine run_induction (motive := fun ms st => st.layout.dirAt RelPath.dot = rootListed ms ∧
    ((st.layout q).isSome ↔ LeavesEntry ms q)) ⟨rfl, ?_⟩ ?_ hok
  · exact iff_of_false (by simp [layout, node?, empty]) not_since_nil
  · rintro ms m st st' - hwf hstep ⟨hroot, ih⟩
    obtain ⟨a, ha, hlayout⟩ := layout_step hwf hstep
    refine ⟨?_, ?_⟩
    · rw [dirAt_dot_step hwf hstep, hroot, rootListed, rootListed, List.foldl_append]
      rfl
    · have hreaches : Reaches q (rootListed ms, m) ↔ AtOrAbove q a.subject := by
        simp [Reaches, ha]
      have hburies : Buries q (rootListed ms, m) ↔ a.Buries m.kind (rootListed ms) q := by
        simp [Buries, ha]
      rw [hlayout, Layout.isSome_act st.layout hq, hroot, ih, LeavesEntry, LeavesEntry,
        history_concat, since_concat, hreaches, hburies]

/-- **Below the root the entries are at the paths that members leave.** -/
theorem exists_entry_iff {out : List (NormalizedEntry π)} (h : normalizeChangeset ms = .ok out)
    (hq : q ≠ RelPath.dot) : (∃ e ∈ out, e.path = q) ↔ LeavesEntry ms q := by
  obtain ⟨st, -, hrun, -, hloop⟩ := normalizeChangeset_eq_ok h
  rw [← isSome_layout_run hrun hq, layout, Option.isSome_map]
  constructor
  · rintro ⟨e, he, rfl⟩
    obtain ⟨n, hn, -⟩ := (mem_out hloop).mp he
    rw [node?_addRoot_of_ne hq] at hn
    exact Option.isSome_of_eq_some hn
  · intro hsome
    obtain ⟨n, hn⟩ := Option.isSome_iff_exists.mp hsome
    exact ⟨_, entryOf_mem_out hloop (node?_addRoot_of_eq hn), path_entryOf⟩

end Reduction

end Palimpsest
