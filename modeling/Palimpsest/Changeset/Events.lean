import Palimpsest.Changeset.Layout
import Palimpsest.Lib.Since

/-!
# What hides, and what takes the hiding away

Three things that a member can do to a path, read off the member alone: it clears
the path, makes it opaque, or creates it again as a directory. A path has something
else than a directory as long as nothing was created there since it was last
cleared (`Palimpsest.Reduction.staysCleared_of_leafAt`), and is opaque as long as it
was not cleared since it was last made so
(`Palimpsest.Reduction.staysOpaque_of_opaqueAt`). The converses hold up to an opaque
root, whose marker may have purged the table.
-/

namespace Palimpsest

open ParentTree

variable {π : Type}

namespace Action

/-- The path an action is about. -/
def subject : Action → RelPath
  | .opq d => d
  | .whiteout t => t
  | .place p => p

/-- An action of a member of kind `kind` clears a path: whatever lower layers have
there is gone. -/
def Clears (kind : EntryKind) (c : RelPath) : Action → Prop
  | .opq _ => False
  | .whiteout t => c = t
  | .place p => c = p ∧ kind ≠ .directory

/-- An action makes a directory opaque. -/
def Marks (c : RelPath) : Action → Prop
  | .opq d => c = d
  | _ => False

/-- An action creates a directory at a path, or something below it. -/
def Recreates (kind : EntryKind) (c : RelPath) (a : Action) : Prop :=
  a = .place c ∧ kind = .directory ∨ c ≠ RelPath.dot ∧ Above c a.subject

end Action

/-- The member is a whiteout of the path, or puts something else than a directory
there. -/
def Clears (m : ChangesetMember π) (c : RelPath) : Prop :=
  ∃ a, classify m = .ok a ∧ a.Clears m.kind c

/-- The member is the opaque marker of the path. -/
def Marks (m : ChangesetMember π) (c : RelPath) : Prop := ∃ a, classify m = .ok a ∧ a.Marks c

/-- The member lists the path as a directory, or is about something below it. -/
def Recreates (m : ChangesetMember π) (c : RelPath) : Prop :=
  ∃ a, classify m = .ok a ∧ a.Recreates m.kind c

/-! ### One round, on the layout -/

namespace Layout

variable {L : Layout} {kind : EntryKind} {a : Action} {p q : RelPath}

theorem leafAt_withParents :
    (L.withParents p).leafAt q = true ↔ L.leafAt q = true ∧ ¬(q ≠ RelPath.dot ∧ Above q p) := by
  rw [leafAt, withParents, leafAt]
  by_cases hw : q ∈ walk p
  · rw [if_pos hw]
    simp [mem_walk.mp hw, RelPath.root_eq ▸ (mem_walk.mp hw).1]
  · rw [if_neg hw]
    refine (and_iff_left fun hcon => hw (mem_walk.mpr ?_)).symm
    exact hcon

theorem opaqueAt_withParents : (L.withParents p).opaqueAt q = L.opaqueAt q := by
  rw [opaqueAt, withParents]
  split
  · rfl
  · rfl

theorem leafAt_congr {L' : Layout} (h : L q = L' q) : L.leafAt q = L'.leafAt q := by
  rw [leafAt, h, leafAt]

theorem opaqueAt_congr {L' : Layout} (h : L q = L' q) : L.opaqueAt q = L'.opaqueAt q := by
  rw [opaqueAt, h, opaqueAt]

theorem leafAt_of_some {s : Shape} (h : L q = some s) :
    L.leafAt q = true ↔ s.kind ≠ .directory := by
  rw [leafAt, h]
  simp

theorem leafAt_of_none (h : L q = none) : L.leafAt q = false := by
  rw [leafAt, h]
  rfl

theorem opaqueAt_of_some {s : Shape} (h : L q = some s) : L.opaqueAt q = s.isOpaque := by
  rw [opaqueAt, h]
  rfl

theorem opaqueAt_of_none (h : L q = none) : L.opaqueAt q = false := by
  rw [opaqueAt, h]
  rfl

/-- **When a path is something else than a directory after a round.** -/
theorem leafAt_act : (L.act kind a).leafAt q = true ↔
    a.Clears kind q ∨ L.leafAt q = true ∧ ¬a.Recreates kind q ∧ ¬a.Marks q ∧
      (∀ c, Above c q → ¬a.Clears kind c) ∧ ¬(a.Marks RelPath.dot ∧ ¬L.dirAt RelPath.dot) := by
  cases a with
  | opq d =>
    simp only [Action.Clears, Action.Recreates, Action.Marks, Action.subject, reduceCtorEq,
      false_and, false_or, not_false_eq_true, implies_true, true_and]
    -- An opaque marker makes its directory, keeps what is there, and without a root loses the tree.
    by_cases hq : q = d
    · have h : L.act kind (.opq d) q = some ⟨.directory, true⟩ := if_pos hq
      rw [leafAt_of_some h]
      simp [hq]
    · by_cases hdot : d = RelPath.dot ∧ ¬L.dirAt d
      · have h : L.act kind (.opq d) q = none := (if_neg hq).trans (if_pos hdot)
        rw [leafAt_of_none h]
        simp [hdot.1, hdot.1 ▸ hdot.2]
      · have h : L.act kind (.opq d) q = L.withParents d q := (if_neg hq).trans (if_neg hdot)
        have hdot' : ¬(RelPath.dot = d ∧ ¬L.dirAt RelPath.dot) := fun hcon =>
          hdot ⟨hcon.1.symm, hcon.1 ▸ hcon.2⟩
        rw [leafAt_congr h, leafAt_withParents]
        simp only [hq, not_false_eq_true, hdot', and_true]
  | whiteout t =>
    simp only [Action.Clears, Action.Recreates, Action.Marks, Action.subject, reduceCtorEq,
      false_and, false_or, not_false_eq_true, and_true, true_and]
    -- A whiteout takes its place and all that is below it.
    by_cases hq : q = t
    · have h : L.act kind (.whiteout t) q = some ⟨.whiteout, false⟩ := if_pos hq
      rw [leafAt_of_some h]
      simp [hq]
    · by_cases habove : Above t q
      · have h : L.act kind (.whiteout t) q = none := (if_neg hq).trans (if_pos habove)
        rw [leafAt_of_none h]
        simp [hq, habove]
      · have h : L.act kind (.whiteout t) q = L.withParents t q :=
          (if_neg hq).trans (if_neg habove)
        rw [leafAt_congr h, leafAt_withParents]
        simp only [hq, false_or]
        refine and_congr_right fun _ => (and_iff_left ?_).symm
        rintro c hc rfl
        exact habove hc
  | place p =>
    simp only [Action.Clears, Action.Recreates, Action.Marks, Action.subject, false_and,
      not_false_eq_true, and_true, true_and, Action.place.injEq, not_or, not_and, not_not]
    -- A member takes its place, and unless it is a directory all that is below it.
    by_cases hq : q = p
    · have h : L.act kind (.place p) q =
          some ⟨kind, decide (kind = .directory) && L.opaqueAt p⟩ := if_pos hq
      subst hq
      rw [leafAt_of_some h]
      constructor
      · exact fun hk => Or.inl ⟨rfl, hk⟩
      · rintro (hk | ⟨-, hk, -⟩)
        · exact hk.2
        · exact hk.1 rfl
    · by_cases habove : kind ≠ .directory ∧ Above p q
      · have h : L.act kind (.place p) q = none := (if_neg hq).trans (if_pos habove)
        rw [leafAt_of_none h]
        simp only [Bool.false_eq_true, hq, false_and, false_or, false_iff]
        rintro ⟨-, -, hc⟩
        exact habove.1 (hc p habove.2 rfl)
      · have h : L.act kind (.place p) q = L.withParents p q :=
          (if_neg hq).trans (if_neg habove)
        rw [leafAt_congr h, leafAt_withParents]
        simp only [hq, false_and, false_or]
        constructor
        · rintro ⟨hl, hw⟩
          refine ⟨hl, ⟨fun hp => absurd hp.symm hq, fun hd hc => hw ⟨hd, hc⟩⟩, ?_⟩
          rintro c hc rfl
          exact by_contra fun hk => habove ⟨hk, hc⟩
        · rintro ⟨hl, hw, -⟩
          exact ⟨hl, fun hc => hw.2 hc.1 hc.2⟩

/-- **When a path is an opaque directory after a round.** -/
theorem opaqueAt_act : (L.act kind a).opaqueAt q = true ↔
    a.Marks q ∨ L.opaqueAt q = true ∧ (∀ c, AtOrAbove c q → ¬a.Clears kind c) ∧
      ¬(a.Marks RelPath.dot ∧ ¬L.dirAt RelPath.dot) := by
  cases a with
  | opq d =>
    simp only [Action.Clears, Action.Marks, not_false_eq_true, implies_true, true_and]
    -- The marked path, then one elsewhere, which loses its mark only if the root is made anew.
    by_cases hq : q = d
    · have h : L.act kind (.opq d) q = some ⟨.directory, true⟩ := if_pos hq
      rw [opaqueAt_of_some h]
      simp [hq]
    · by_cases hdot : d = RelPath.dot ∧ ¬L.dirAt d
      · have h : L.act kind (.opq d) q = none := (if_neg hq).trans (if_pos hdot)
        rw [opaqueAt_of_none h]
        simp [hdot.1, hdot.1 ▸ hdot.2, hdot.1 ▸ hq]
      · have h : L.act kind (.opq d) q = L.withParents d q := (if_neg hq).trans (if_neg hdot)
        have hdot' : ¬(RelPath.dot = d ∧ ¬L.dirAt RelPath.dot) := fun hcon =>
          hdot ⟨hcon.1.symm, hcon.1 ▸ hcon.2⟩
        rw [opaqueAt_congr h, opaqueAt_withParents]
        simp only [hq, false_or, hdot', not_false_eq_true, and_true]
  | whiteout t =>
    simp only [Action.Clears, Action.Marks, false_and, false_or, not_false_eq_true, and_true]
    by_cases hq : AtOrAbove t q
    · have h : (L.act kind (.whiteout t)).opaqueAt q = false := by
        by_cases heq : q = t
        · have ht : L.act kind (.whiteout t) q = some ⟨.whiteout, false⟩ := if_pos heq
          exact opaqueAt_of_some ht
        · refine opaqueAt_of_none ((if_neg heq).trans (if_pos ?_))
          exact hq.resolve_left (Ne.symm heq)
      rw [h]
      simp only [Bool.false_eq_true, false_iff]
      exact fun hcon => hcon.2 t hq rfl
    · have h : L.act kind (.whiteout t) q = L.withParents t q :=
        (if_neg fun heq => hq (Or.inl heq.symm)).trans (if_neg fun ha => hq ha.atOrAbove)
      rw [opaqueAt_congr h, opaqueAt_withParents]
      refine (and_iff_left ?_).symm
      rintro c hc rfl
      exact hq hc
  | place p =>
    simp only [Action.Clears, Action.Marks, false_and, false_or, not_false_eq_true, and_true]
    -- A directory keeps the mark at its place; anything else clears what is at or below it.
    by_cases hk : kind = .directory
    · have h : (L.act kind (.place p)).opaqueAt q = L.opaqueAt q := by
        by_cases hq : q = p
        · have hp : L.act kind (.place p) q =
              some ⟨kind, decide (kind = .directory) && L.opaqueAt p⟩ := if_pos hq
          rw [opaqueAt_of_some hp, hq]
          simp [hk]
        · have hp : L.act kind (.place p) q = L.withParents p q :=
            (if_neg hq).trans (if_neg fun hcon => hcon.1 hk)
          rw [opaqueAt_congr hp, opaqueAt_withParents]
      rw [h]
      simp [hk]
    · by_cases hq : AtOrAbove p q
      · have h : (L.act kind (.place p)).opaqueAt q = false := by
          by_cases heq : q = p
          · have hp : L.act kind (.place p) q =
                some ⟨kind, decide (kind = .directory) && L.opaqueAt p⟩ := if_pos heq
            rw [opaqueAt_of_some hp]
            simp [hk]
          · refine opaqueAt_of_none ((if_neg heq).trans (if_pos ⟨hk, ?_⟩))
            exact hq.resolve_left (Ne.symm heq)
        rw [h]
        simp only [Bool.false_eq_true, false_iff]
        exact fun hcon => hcon.2 p hq ⟨rfl, hk⟩
      · have h : L.act kind (.place p) q = L.withParents p q :=
          (if_neg fun heq => hq (Or.inl heq.symm)).trans
            (if_neg fun hcon => hq hcon.2.atOrAbove)
        rw [opaqueAt_congr h, opaqueAt_withParents]
        refine (and_iff_left ?_).symm
        rintro c hc ⟨rfl, -⟩
        exact hq hc

end Layout

/-! ### Along a run -/

/-- The path was cleared, and nothing was created at or below it since, nor was
anything at or above it cleared. -/
def StaysCleared (ms : List (ChangesetMember π)) (p : RelPath) : Prop :=
  Since (Clears · p)
    (fun m => Recreates m p ∨ Marks m p ∨ ∃ c, AtOrAbove c p ∧ Clears m c) ms

/-- The path was made opaque, and nothing at or above it was cleared since. -/
def StaysOpaque (ms : List (ChangesetMember π)) (p : RelPath) : Prop :=
  Since (Marks · p) (fun m => ∃ c, AtOrAbove c p ∧ Clears m c) ms

/-- Lower layers are hidden below the path by what the members say of it. -/
def StaysHidden (ms : List (ChangesetMember π)) (p : RelPath) : Prop :=
  StaysCleared ms p ∨ StaysOpaque ms p

section

variable {m : ChangesetMember π} {a : Action} {p : RelPath}

theorem clears_iff (h : classify m = .ok a) : Clears m p ↔ a.Clears m.kind p := by
  simp [Clears, h]

theorem marks_iff (h : classify m = .ok a) : Marks m p ↔ a.Marks p := by
  simp [Marks, h]

theorem recreates_iff (h : classify m = .ok a) : Recreates m p ↔ a.Recreates m.kind p := by
  simp [Recreates, h]

end

namespace Reduction

variable {st st' : Reduction π} {m : ChangesetMember π} {p : RelPath}
  {ms : List (ChangesetMember π)}

theorem leafAt_step (h : st.WellFormed) (hok : st.step m = .ok st') :
    st'.layout.leafAt p = true ↔ Clears m p ∨ st.layout.leafAt p = true ∧ ¬Recreates m p ∧
      ¬Marks m p ∧ (∀ c, Above c p → ¬Clears m c) ∧
        ¬(Marks m RelPath.dot ∧ ¬st.layout.dirAt RelPath.dot) := by
  obtain ⟨a, ha, hlayout⟩ := layout_step h hok
  rw [hlayout, Layout.leafAt_act, clears_iff ha, recreates_iff ha, marks_iff ha, marks_iff ha]
  simp only [clears_iff ha]

theorem opaqueAt_step (h : st.WellFormed) (hok : st.step m = .ok st') :
    st'.layout.opaqueAt p = true ↔ Marks m p ∨ st.layout.opaqueAt p = true ∧
      (∀ c, AtOrAbove c p → ¬Clears m c) ∧
        ¬(Marks m RelPath.dot ∧ ¬st.layout.dirAt RelPath.dot) := by
  obtain ⟨a, ha, hlayout⟩ := layout_step h hok
  rw [hlayout, Layout.opaqueAt_act, marks_iff ha, marks_iff ha]
  simp only [clears_iff ha]

/-- **Leaves of the table are paths that stay cleared.** -/
theorem staysCleared_of_leafAt (hok : empty.run ms = .ok st) :
    ∀ p, st.layout.leafAt p = true → StaysCleared ms p := by
  refine run_induction (motive := fun ms st => ∀ p, st.layout.leafAt p = true →
    StaysCleared ms p) (fun p hp => by cases hp) ?_ hok
  intro ms m st st' _ hwf hstep ih p hp
  rw [StaysCleared, since_concat]
  rcases (leafAt_step hwf hstep).mp hp with hc | ⟨hleaf, hr, hm, hc, -⟩
  · exact Or.inl hc
  · by_cases hself : Clears m p
    · exact Or.inl hself
    · refine Or.inr ⟨ih p hleaf, ?_⟩
      rintro (hr' | hm' | ⟨c, rfl | hcp, hc'⟩)
      · exact hr hr'
      · exact hm hm'
      · exact hself hc'
      · exact hc c hcp hc'

/-- **Opaque directories of the table are paths that stay opaque.** -/
theorem staysOpaque_of_opaqueAt (hok : empty.run ms = .ok st) :
    ∀ p, st.layout.opaqueAt p = true → StaysOpaque ms p := by
  refine run_induction (motive := fun ms st => ∀ p, st.layout.opaqueAt p = true →
    StaysOpaque ms p) (fun p hp => by cases hp) ?_ hok
  intro ms m st st' _ hwf hstep ih p hp
  rw [StaysOpaque, since_concat]
  rcases (opaqueAt_step hwf hstep).mp hp with hm | ⟨hopq, hc, -⟩
  · exact Or.inl hm
  · exact Or.inr ⟨ih p hopq, fun ⟨c, hcp, hc'⟩ => hc c hcp hc'⟩

/-- An opaque root outlives a round that clears nothing at it. -/
theorem opaqueAt_dot_step (h : st.WellFormed) (hok : st.step m = .ok st')
    (hclear : ∀ c, AtOrAbove c p → ¬Clears m c)
    (hroot : Marks m RelPath.dot ∨ st.layout.opaqueAt RelPath.dot = true) :
    st'.layout.opaqueAt RelPath.dot = true := by
  rw [opaqueAt_step h hok]
  by_cases hm : Marks m RelPath.dot
  · exact Or.inl hm
  · refine Or.inr ⟨hroot.resolve_left hm, fun c hc => hclear c ?_, fun hcon => hm hcon.1⟩
    exact hc.trans (atOrAbove_root p)

/-- A path that stays cleared is a leaf of the table, unless the root is opaque. -/
theorem leafAt_of_staysCleared (hok : empty.run ms = .ok st) :
    ∀ p, StaysCleared ms p →
      st.layout.leafAt p = true ∨ st.layout.opaqueAt RelPath.dot = true := by
  refine run_induction (motive := fun ms st => ∀ p, StaysCleared ms p →
    st.layout.leafAt p = true ∨ st.layout.opaqueAt RelPath.dot = true)
    (fun p hp => absurd hp not_since_nil) ?_ hok
  intro ms m st st' _ hwf hstep ih p hp
  rw [StaysCleared, since_concat] at hp
  rcases hp with hc | ⟨hp, hnot⟩
  · exact Or.inl ((leafAt_step hwf hstep).mpr (Or.inl hc))
  · rw [not_or, not_or] at hnot
    obtain ⟨hr, hm, hc⟩ := hnot
    have hclear : ∀ c, AtOrAbove c p → ¬Clears m c := fun c hcp hc' => hc ⟨c, hcp, hc'⟩
    by_cases hroot : Marks m RelPath.dot
    · exact Or.inr (opaqueAt_dot_step hwf hstep hclear (Or.inl hroot))
    · rcases ih p hp with hleaf | hopq
      · refine Or.inl ((leafAt_step hwf hstep).mpr (Or.inr ⟨hleaf, hr, hm, fun c hcp => ?_, ?_⟩))
        · exact hclear c hcp.atOrAbove
        · exact fun hcon => hroot hcon.1
      · exact Or.inr (opaqueAt_dot_step hwf hstep hclear (Or.inr hopq))

/-- A path that stays opaque is an opaque directory of the table, unless the root
is. -/
theorem opaqueAt_of_staysOpaque (hok : empty.run ms = .ok st) :
    ∀ p, StaysOpaque ms p →
      st.layout.opaqueAt p = true ∨ st.layout.opaqueAt RelPath.dot = true := by
  refine run_induction (motive := fun ms st => ∀ p, StaysOpaque ms p →
    st.layout.opaqueAt p = true ∨ st.layout.opaqueAt RelPath.dot = true)
    (fun p hp => absurd hp not_since_nil) ?_ hok
  intro ms m st st' _ hwf hstep ih p hp
  rw [StaysOpaque, since_concat] at hp
  rcases hp with hm | ⟨hp, hc⟩
  · exact Or.inl ((opaqueAt_step hwf hstep).mpr (Or.inl hm))
  · have hclear : ∀ c, AtOrAbove c p → ¬Clears m c := fun c hcp hc' => hc ⟨c, hcp, hc'⟩
    by_cases hroot : Marks m RelPath.dot
    · exact Or.inr (opaqueAt_dot_step hwf hstep hclear (Or.inl hroot))
    · rcases ih p hp with hopq | hopq
      · refine Or.inl ((opaqueAt_step hwf hstep).mpr (Or.inr ⟨hopq, hclear, ?_⟩))
        exact fun hcon => hroot hcon.1
      · exact Or.inr (opaqueAt_dot_step hwf hstep hclear (Or.inr hopq))

end Reduction

end Palimpsest
