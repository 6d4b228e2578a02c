import Mathlib.Data.List.Dedup
import Palimpsest.Hub.PackageTags

/-!
# What a commit makes of the rows of a package

A commit moves at most the tag of its request, and only from the root that it expects
(`Palimpsest.Hub.Tags.Moved`); it leaves the type of the package and the versions alone
(`Palimpsest.Hub.Tags.StoreStep`). Every state is complete: a tag names a version, and all that
belongs to a version is referenced (`Palimpsest.Hub.Tags.Store.Complete`).
-/

namespace Palimpsest.Hub.Tags

variable {r : CommitRequest} {s s' s'' : Store}

/-! ### Complete states -/

/-- The tags name versions, what belongs to a version is referenced, and there is nothing of a
package that does not exist. -/
structure Store.Complete (s : Store) : Prop where
  tag : ∀ tag row, s.tag tag = some row → ∃ v, s.version row.rootDigest = some v
  version : ∀ root v, s.version root = some v →
    ∀ digest, digest = v.archiveDigest ∨ digest ∈ v.graph.map Prod.fst → s.reference root digest
  package : s.package = none → ∀ tag, s.tag tag = none

theorem complete_empty : Store.empty.Complete where
  tag := nofun
  version := nofun
  package := fun _ _ => rfl

/-- The tag of the request has its root. -/
def Same (r : CommitRequest) (s : Store) : Prop :=
  (s.tag r.tag).map (·.rootDigest) = some r.validated.rootDigest

/-- It has another root than the one that is expected, or none where one is. -/
def Differs (r : CommitRequest) (s : Store) : Prop :=
  (s.tag r.tag).map (·.rootDigest) ≠ r.expectedTagDigest

theorem isSame_iff : isSame r (s.tag r.tag) = true ↔ Same r s := by
  rw [isSame, Same, decide_eq_true_eq]

theorem Store.Complete.exists_version (h : s.Complete) (hsame : Same r s) :
    ∃ v, s.version r.validated.rootDigest = some v := by
  obtain ⟨row, hrow, hroot⟩ := Option.map_eq_some_iff.mp hsame
  exact hroot ▸ h.tag r.tag row hrow

theorem Store.Complete.not_same (h : s.Complete) (hnone : s.package = none) : ¬Same r s := by
  intro hsame
  rw [Same, h.package hnone] at hsame
  cases hsame

/-! ### Steps -/

/-- What no commit takes away. -/
structure Keeps (s s' : Store) : Prop where
  package : ∀ p, s.package = some p →
    ∃ p', s'.package = some p' ∧ p'.id = p.id ∧ p'.packageType = p.packageType
  version : ∀ root v, s.version root = some v → s'.version root = some v
  reference : ∀ root digest, s.reference root digest → s'.reference root digest

theorem Keeps.refl (s : Store) : Keeps s s :=
  ⟨fun p hp => ⟨p, hp, rfl, rfl⟩, fun _ _ h => h, fun _ _ h => h⟩

theorem Keeps.trans (h : Keeps s s') (h' : Keeps s' s'') : Keeps s s'' := by
  refine ⟨fun p hp => ?_, fun root v hv => h'.version root v (h.version root v hv),
    fun root digest hd => h'.reference root digest (h.reference root digest hd)⟩
  obtain ⟨p', hp', hid, htype⟩ := h.package p hp
  obtain ⟨p'', hp'', hid', htype'⟩ := h'.package p' hp'
  exact ⟨p'', hp'', hid'.trans hid, htype'.trans htype⟩

/-- The tag of the request goes from the root that is expected to that of the request, and its
revision to the next one. -/
structure Moved (r : CommitRequest) (s s' : Store) : Prop where
  expected : (s.tag r.tag).map (·.rootDigest) = r.expectedTagDigest
  changed : r.expectedTagDigest ≠ some r.validated.rootDigest
  row : ∃ row, s'.tag r.tag = some row ∧ row.rootDigest = r.validated.rootDigest ∧
    row.revision = (s.tag r.tag).elim 1 (·.revision + 1) ∧ row.updatedBy = r.userId

theorem Moved.not_same (h : Moved r s s') : ¬Same r s := by
  rw [Same, h.expected]
  exact h.changed

theorem Moved.same (h : Moved r s s') : Same r s' := by
  obtain ⟨row, hrow, hroot, -⟩ := h.row
  rw [Same, hrow, Option.map_some, hroot]

/-- What a commit makes of the rows. -/
structure StoreStep (r : CommitRequest) (s s' : Store) : Prop where
  keeps : Keeps s s'
  other : ∀ tag, tag ≠ r.tag → s'.tag tag = s.tag tag
  tag : s'.tag r.tag = s.tag r.tag ∨ Moved r s s'
  complete : s'.Complete

/-- A commit changes a tag only as `Moved` says. -/
theorem StoreStep.moved_of_ne (h : StoreStep r s s') {tag : String} (hne : s'.tag tag ≠ s.tag tag) :
    tag = r.tag ∧ Moved r s s' := by
  by_cases htag : tag = r.tag
  · subst htag
    exact ⟨rfl, h.tag.resolve_left hne⟩
  · exact absurd (h.other tag htag) hne

/-! ### Rows that are written -/

/-- What a transaction has come to before it moves a tag. -/
structure Drafted (row : RegistryPackage) (s s' : Store) : Prop where
  keeps : Keeps s s'
  tag : s'.tag = s.tag
  complete : s'.Complete
  package : ∃ p, s'.package = some p ∧ p.packageType = row.packageType

variable {row : RegistryPackage}

/-- The row of the package was there. -/
theorem drafted_self (hs : s.Complete) (hrow : s.package = some row) : Drafted row s s :=
  ⟨.refl s, rfl, hs, row, hrow, rfl⟩

/-- A new row for the package. -/
theorem drafted_package (hs : s.Complete) (hnone : s.package = none) :
    Drafted row s (s.write (.package row)) := by
  refine ⟨⟨fun p hp => ?_, fun _ _ h => h, fun _ _ h => h⟩, rfl,
    ⟨hs.tag, hs.version, fun _ => hs.package hnone⟩, row, rfl, rfl⟩
  rw [hnone] at hp
  cases hp

theorem mem_referencedBlobs {digest : String} :
    digest ∈ referencedBlobs r ↔
      digest = r.archiveDigest ∨ digest ∈ r.validated.graph.map Prod.fst := by
  rw [referencedBlobs, List.mem_insertionSort, List.mem_dedup, List.mem_cons]

/-- A new version, with its references. -/
theorem Drafted.version (h : Drafted row s s') (hnone : s.version r.validated.rootDigest = none)
    (pushedAt : ℕ) :
    Drafted row s ((s'.write (.version (newVersion r pushedAt))).write
      (.references r.validated.rootDigest (referencedBlobs r))) := by
  set v := newVersion r pushedAt
  have hversion : ∀ root, root ≠ r.validated.rootDigest →
      Function.update s'.version v.rootDigest (some v) root = s'.version root :=
    fun root hne => Function.update_of_ne hne _ _
  -- References are only added.
  have hreference : ∀ root digest, s'.reference root digest →
      Function.update s'.reference r.validated.rootDigest
        (fun digest => s'.reference r.validated.rootDigest digest ||
          (referencedBlobs r).contains digest) root digest := by
    intro root digest hd
    by_cases hroot : root = r.validated.rootDigest
    · subst hroot
      rw [Function.update_self, hd, Bool.true_or]
    · rwa [Function.update_of_ne hroot]
  refine ⟨⟨h.keeps.package, fun root w hw => ?_, fun root digest hd => hreference root digest
    (h.keeps.reference root digest hd)⟩, h.tag, ⟨fun tag row hrow => ?_, fun root w hw => ?_,
    h.complete.package⟩, h.package⟩
  · have hne : root ≠ r.validated.rootDigest := by
      rintro rfl
      rw [hnone] at hw
      cases hw
    exact (hversion root hne).trans (h.keeps.version root w hw)
  -- The tags have their versions, and the new version has the blobs that it refers to.
  · obtain ⟨w, hw⟩ := h.complete.tag tag row hrow
    by_cases hroot : row.rootDigest = r.validated.rootDigest
    · refine ⟨v, ?_⟩
      rw [hroot]
      exact Function.update_self _ _ _
    · exact ⟨w, (hversion _ hroot).trans hw⟩
  · by_cases hroot : root = r.validated.rootDigest
    · subst hroot
      have hself : Function.update s'.version v.rootDigest (some v) v.rootDigest = some w := hw
      rw [Function.update_self] at hself
      obtain rfl := Option.some.inj hself
      intro digest hd
      change Function.update s'.reference _ _ _ digest = true
      rw [Function.update_self, List.contains_iff_mem.mpr (mem_referencedBlobs.mpr hd),
        Bool.or_true]
    · intro digest hd
      exact hreference root digest
        (h.complete.version root w ((hversion root hroot).symm.trans hw) digest hd)

/-- A transaction that moves no tag. -/
theorem Drafted.step (h : Drafted row s s') : StoreStep r s s' :=
  ⟨h.keeps, fun tag _ => congrFun h.tag tag, Or.inl (congrFun h.tag r.tag), h.complete⟩

/-- The tag is written, and then the row of the package. -/
theorem moved_write (hexpected : (s.tag r.tag).map (·.rootDigest) = r.expectedTagDigest)
    (hchanged : r.expectedTagDigest ≠ some r.validated.rootDigest) {new : PackageTag}
    (hroot : new.rootDigest = r.validated.rootDigest)
    (hrevision : new.revision = (s.tag r.tag).elim 1 (·.revision + 1))
    (hby : new.updatedBy = r.userId) (s' : Store) (updatedAt : ℕ) :
    Moved r s ((s'.write (.tag r.tag new)).write (.touch updatedAt)) :=
  ⟨hexpected, hchanged, new, Function.update_self _ _ _, hroot, hrevision, hby⟩

/-- A transaction that moves its tag. -/
theorem Drafted.moved (h : Drafted row s s')
    (hversion : ∃ v, s'.version r.validated.rootDigest = some v)
    (hexpected : (s.tag r.tag).map (·.rootDigest) = r.expectedTagDigest)
    (hchanged : r.expectedTagDigest ≠ some r.validated.rootDigest) {new : PackageTag}
    (hroot : new.rootDigest = r.validated.rootDigest)
    (hrevision : new.revision = (s.tag r.tag).elim 1 (·.revision + 1))
    (hby : new.updatedBy = r.userId) (updatedAt : ℕ) :
    StoreStep r s ((s'.write (.tag r.tag new)).write (.touch updatedAt)) ∧
      Moved r s ((s'.write (.tag r.tag new)).write (.touch updatedAt)) := by
  have hself : ((s'.write (.tag r.tag new)).write (.touch updatedAt)).tag r.tag = some new :=
    Function.update_self _ _ _
  have hother : ∀ tag, tag ≠ r.tag →
      ((s'.write (.tag r.tag new)).write (.touch updatedAt)).tag tag = s'.tag tag :=
    fun tag hne => Function.update_of_ne hne _ _
  obtain ⟨p, hp, htype⟩ := h.package
  have hpackage : ((s'.write (.tag r.tag new)).write (.touch updatedAt)).package =
      some { p with updatedAt := updatedAt } := by
    change s'.package.map _ = _
    rw [hp]
    rfl
  -- Of what the transaction writes last only the tag and the time of the package are new.
  have hmoved := moved_write hexpected hchanged hroot hrevision hby s' updatedAt
  refine ⟨⟨⟨fun q hq => ?_, h.keeps.version, h.keeps.reference⟩, fun tag hne => ?_,
    Or.inr hmoved, ⟨fun tag row hrow => ?_, h.complete.version, fun hnone => ?_⟩⟩, hmoved⟩
  · obtain ⟨q', hq', hid, htype'⟩ := h.keeps.package q hq
    obtain rfl := Option.some.inj (hp.symm.trans hq')
    exact ⟨_, hpackage, hid, htype'⟩
  · rw [hother tag hne, h.tag]
  · by_cases htag : tag = r.tag
    · subst htag
      rw [hself] at hrow
      obtain rfl := Option.some.inj hrow
      rw [hroot]
      exact hversion
    · rw [hother tag htag] at hrow
      exact h.complete.tag tag row hrow
  · rw [hpackage] at hnone
    cases hnone

end Palimpsest.Hub.Tags
