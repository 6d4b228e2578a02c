import Palimpsest.Changeset.Entries
import Palimpsest.Changeset.Layout

/-!
# The entries form a layer tree

`normalize_changeset` returns a tree in an order in which it can be written out:
`Palimpsest.normalizeChangeset_layerTree`. The root is the exception, twice. Both
converters turn down an archive that lists the root as anything but a directory
(`Palimpsest.RootsAreDirectories`), and the reducer does not check it again. And as
paths are sorted as strings, the root `"."` comes after every path that starts with
a smaller character (`Palimpsest.not_root_first`).
-/

namespace Palimpsest

open ParentTree

variable {π : Type}

/-- What the converters make sure of before they call `normalize_changeset`: the
archive root is listed as a directory. -/
def RootsAreDirectories (ms : List (ChangesetMember π)) : Prop :=
  ∀ m ∈ ms, m.path = RelPath.dot.text → m.kind = .directory

/-- A list of entries that can be written out in order. -/
structure LayerTree (out : List (NormalizedEntry π)) : Prop where
  nodup : (out.map (·.path)).Nodup
  root : ∃ e ∈ out, e.path = RelPath.dot
  /-- The root comes before every path that sorts after it. -/
  root_before : ∀ r ∈ out, r.path = RelPath.dot → r.kind ≠ .hardlink →
    ∀ e ∈ out, RelPath.dot < e.path → [r, e].Sublist out
  /-- What does not lie in the root lies in a directory, and comes after it. -/
  parent : ∀ e ∈ out, ∀ d, e.path.parent = some d → d ≠ RelPath.dot →
    ∃ e', e'.path = d ∧ e'.kind = .directory ∧ [e', e].Sublist out
  /-- A hardlink comes after the regular file it points at. -/
  after_target : ∀ e ∈ out, e.kind = .hardlink →
    ∃ e', e'.path.text = e.linkTarget ∧ e'.kind = .file ∧ [e', e].Sublist out

/-- The surviving paths of a payload group are one regular file, which carries the
payload, and hardlinks to it. -/
def CarriesGroup (st : Reduction π) (f : ChangesetMember π) (out : List (NormalizedEntry π)) :
    Prop :=
  ∃ c, Reduction.carrierEntry c f ∈ out ∧
    (∃ k, st.node? c = some k ∧ k.groupId = some f.ordinal) ∧
    ∀ q k, st.node? q = some k → k.groupId = some f.ordinal → q ≠ c →
      ∃ e ∈ out, e.path = q ∧ e.kind = .hardlink ∧ e.linkTarget = c.text

namespace Reduction

variable {st st' : Reduction π} {m : ChangesetMember π} {out : List (NormalizedEntry π)}
  {ms : List (ChangesetMember π)} {N : ℕ}

/-! ### The root -/

/-- A round whose member does not list the root as something else leaves no leaf
there. -/
theorem leafAt_dot_step (h : st.WellFormed) (hok : st.step m = .ok st')
    (hm : m.path = RelPath.dot.text → m.kind = .directory)
    (hroot : st.layout.leafAt RelPath.dot = false) : st'.layout.leafAt RelPath.dot = false := by
  obtain ⟨a, ha, hlayout⟩ := layout_step h hok
  have hwith : ∀ p, (st.layout.withParents p).leafAt RelPath.dot = false := by
    intro p
    rw [Layout.leafAt, Layout.withParents, if_neg (RelPath.dot_not_mem_walk p)]
    exact hroot
  rw [hlayout]
  -- Only a member at the root itself could be a leaf there.
  cases a with
  | opq d =>
    rw [Layout.leafAt, Layout.act]
    dsimp only
    split
    · rfl
    · split
      · rfl
      · exact hwith d
  | whiteout t =>
    rw [Layout.leafAt, Layout.act]
    dsimp only
    rw [if_neg (whiteout_ne_dot ha).symm, if_neg (RelPath.not_above_dot t)]
    exact hwith t
  | place p =>
    rw [Layout.leafAt, Layout.act]
    dsimp only
    split
    · rename_i hp
      have hk : m.kind = .directory := hm (by rw [← path_of_place ha, ← hp])
      simp [hk]
    · rw [if_neg fun hcon => RelPath.not_above_dot p hcon.2]
      exact hwith p

/-- **The root stays a directory** when no member lists it as something else. -/
theorem leafAt_dot_run (hroot : RootsAreDirectories ms) (hok : empty.run ms = .ok st) :
    st.layout.leafAt RelPath.dot = false := by
  revert hroot
  refine run_induction (motive := fun ms st => RootsAreDirectories ms →
    st.layout.leafAt RelPath.dot = false) ?_ ?_ hok
  · intro _
    rfl
  · intro ms m st st' _ hwf hstep ih hroot
    refine leafAt_dot_step hwf hstep (hroot m (by simp)) (ih fun k hk => hroot k ?_)
    exact List.mem_append_left _ hk

theorem isDir_dot_addRoot (hroot : RootsAreDirectories ms) (hok : empty.run ms = .ok st) :
    (st.addRoot N).IsDir RelPath.dot := by
  obtain ⟨n, hn⟩ := Option.isSome_iff_exists.mp (isSome_addRoot st N)
  refine ⟨n, hn, ?_⟩
  rcases node?_of_addRoot hn with hold | ⟨-, -, rfl⟩
  · have hleaf := leafAt_dot_run hroot hok
    rw [Layout.leafAt, layout_of_node? hold] at hleaf
    simpa using hleaf
  · rfl

/-! ### The emitted list -/

theorem perm_of_loop (h : Deferral.loop emissionReady (st.sortedEntries N).length []
    (st.sortedEntries N) = .ok out) : out.Perm (st.sortedEntries N) := by
  obtain ⟨new, rfl, hperm⟩ := Deferral.loop_spec h
  exact hperm

theorem mem_out (h : Deferral.loop emissionReady (st.sortedEntries N).length []
    (st.sortedEntries N) = .ok out) {e : NormalizedEntry π} :
    e ∈ out ↔ ∃ n, st.node? e.path = some n ∧ e = st.entryOf N e.path n :=
  (perm_of_loop h).mem_iff.trans mem_sortedEntries

theorem entryOf_mem_out (h : Deferral.loop emissionReady (st.sortedEntries N).length []
    (st.sortedEntries N) = .ok out) {p : RelPath} {n : Node π} (hn : st.node? p = some n) :
    st.entryOf N p n ∈ out :=
  (perm_of_loop h).mem_iff.mpr (entryOf_mem hn)

/-- Of two entries, the one with the smaller path comes first before the emission. -/
theorem sublist_sortedEntries {a b : NormalizedEntry π} (ha : a ∈ st.sortedEntries N)
    (hb : b ∈ st.sortedEntries N) (hlt : a.path < b.path) :
    [a, b].Sublist (st.sortedEntries N) := by
  obtain ⟨l, r, hsplit⟩ := List.append_of_mem ha
  have hsort : (st.sortedEntries N).Pairwise PathLe := pairwise_sortedEntries
  rw [hsplit] at hsort hb ⊢
  rcases List.mem_append.mp hb with hb | hb
  · have hle : b.path ≤ a.path :=
      (List.pairwise_append.mp hsort).2.2 b hb a List.mem_cons_self
    exact absurd hlt (not_lt_of_ge hle)
  · rcases List.mem_cons.mp hb with rfl | hb
    · exact absurd hlt (lt_irrefl _)
    · exact (List.Sublist.cons_cons a (List.singleton_sublist.mpr hb)).trans
        (List.sublist_append_right l _)

/-- **The emitted entries of a settled table form a layer tree.** -/
theorem layerTree_of_loop (hset : st.Settled)
    (h : Deferral.loop emissionReady (st.sortedEntries N).length []
      (st.sortedEntries N) = .ok out) : LayerTree out where
  nodup := ((perm_of_loop h).map (·.path)).nodup_iff.mpr nodup_sortedEntries
  root := by
    obtain ⟨n, hn⟩ := Option.isSome_iff_exists.mp hset.root
    exact ⟨_, entryOf_mem_out h hn, path_entryOf⟩
  -- Only hard links are put off, so the root stays before what it was sorted before.
  root_before r hr hdot hkind e he hlt := by
    refine Deferral.sublist_of_loop (fun l => emissionReady_of_kind hkind) ?_ h
    refine sublist_sortedEntries ((perm_of_loop h).mem_iff.mp hr)
      ((perm_of_loop h).mem_iff.mp he) ?_
    rwa [hdot]
  parent e he d hd hne := by
    obtain ⟨n, hn, heq⟩ := (mem_out h).mp he
    obtain ⟨k, hk, hkind⟩ := hset.parent_isDir d e.path hd (by rw [hn]; rfl) hne
    have hdir := (kind_entryOf_eq_directory (N := N) hset hk).mpr hkind
    refine ⟨_, path_entryOf, hdir, Deferral.sublist_of_loop (a := st.entryOf N d k) ?_ ?_ h⟩
    · exact fun l => emissionReady_of_kind (by rw [hdir]; simp)
    · refine sublist_sortedEntries (entryOf_mem hk) ((perm_of_loop h).mem_iff.mp he) ?_
      rw [path_entryOf]
      exact RelPath.lt_of_parent hd hne
  after_target e he hkind := by
    obtain ⟨n, hn, heq⟩ := (mem_out h).mp he
    obtain ⟨c, k, hc, hfile, htarget⟩ := target_of_link (N := N) hset hn (heq ▸ hkind)
    obtain ⟨l, r, hsplit⟩ := List.append_of_mem he
    have hready := Deferral.ready_of_loop Deferral.allReady_nil h l e r hsplit
    rw [emissionReady, Bool.or_eq_true, List.contains_iff_mem] at hready
    obtain ⟨e', he', htext⟩ := List.mem_map.mp (hready.resolve_left (by simp [hkind]))
    have hpath : e'.path = c := by
      refine RelPath.ext_text ?_
      rw [htext, heq, htarget]
    have hmem : e' ∈ out := by rw [hsplit]; exact List.mem_append_left _ he'
    obtain ⟨k', hk', heq'⟩ := (mem_out h).mp hmem
    obtain rfl : k' = k := Option.some_inj.mp (hk'.symm.trans (hpath ▸ hc))
    refine ⟨e', htext, by rw [heq', hpath]; exact hfile, ?_⟩
    rw [hsplit]
    exact (List.singleton_sublist.mpr he').append
      (List.Sublist.cons_cons e (List.nil_sublist r))

/-- **Every payload group with a surviving path has one carrier**, and hardlinks to
it. -/
theorem carriesGroup_of_loop (hc : Contiguous ms) (hok : empty.run ms = .ok st)
    (h : Deferral.loop emissionReady ((st.addRoot N).sortedEntries N).length []
      ((st.addRoot N).sortedEntries N) = .ok out) {q : RelPath} {n : Node π} {g : ℕ}
    (hn : st.node? q = some n) (hg : n.groupId = some g) :
    ∃ f ∈ ms, f.ordinal = g ∧ (∃ p, PutsFile f p) ∧ CarriesGroup st f out := by
  obtain ⟨f, hf⟩ := Option.isSome_iff_exists.mp (run_source hok q n g hn hg)
  obtain ⟨hmem, hord, hfile⟩ := (lookup_groups hc hok f).mp hf
  have hf' : (st.addRoot N).groups.lookup g = some f := by
    rw [groups_addRoot]
    exact hf
  obtain ⟨c, hcar, hcmem⟩ := exists_carrier (node?_addRoot_of_eq (N := N) hn) hg
  obtain ⟨k, hk, hkg⟩ := mem_groupPaths.mp hcmem
  refine ⟨f, hmem, hord, hfile, c, ?_, ⟨k, ?_, hord ▸ hkg⟩, fun r l hl hlg hne => ?_⟩
  · rw [← entryOf_of_carrier hkg hf' hcar]
    exact entryOf_mem_out h hk
  · rcases node?_of_addRoot hk with hold | ⟨-, -, rfl⟩
    · exact hold
    · cases hkg
  · have hl' := node?_addRoot_of_eq (N := N) hl
    have hlink := entryOf_of_link (N := N) (hlg.trans (congrArg some hord)) hf' hcar hne.symm
    refine ⟨_, entryOf_mem_out h hl', path_entryOf, ?_, ?_⟩
    · rw [hlink]
      rfl
    · rw [hlink]
      rfl

/-! ### The faults of the main loop -/

/-- The errors that a member can raise when its turn comes. -/
def MemberFault : Fault → Prop
  | .diverges => True
  | .raised (.whiteoutMarker _) => True
  | .raised .whiteoutTarget => True
  | .raised .hardlinkSelf => True
  | .raised .hardlinkChain => True
  | _ => False

theorem memberFault_of_keyOf {t : Text} {f : RelPath → Action} {e : Fault}
    (h : (keyOf t >>= fun p => Except.ok (f p)) = .error e) : MemberFault e := by
  rw [keyOf] at h
  split at h
  · cases h
  · obtain rfl : Fault.diverges = e := Except.error.inj h
    trivial

theorem memberFault_of_classify {e : Fault} (h : classify m = .error e) : MemberFault e := by
  rw [classify] at h
  dsimp only at h
  split at h
  · split at h
    · rw [← Except.error.inj h]
      trivial
    · exact memberFault_of_keyOf h
  · split at h
    · split at h
      · rw [← Except.error.inj h]
        trivial
      · split at h
        · rw [← Except.error.inj h]
          trivial
        · exact memberFault_of_keyOf h
    · exact memberFault_of_keyOf h

theorem memberFault_of_placeHardlink {p : RelPath} {e : Fault}
    (h : st.placeHardlink p m = .error e) : MemberFault e := by
  unfold placeHardlink at h
  split at h
  · rw [← Except.error.inj h]
    trivial
  · dsimp only at h
    split at h
    · split at h
      · cases h
      · split at h
        · rw [← Except.error.inj h]
          trivial
        · cases h
    · cases h

theorem memberFault_of_step {e : Fault} (h : st.step m = .error e) : MemberFault e := by
  rw [step] at h
  cases hc : classify m with
  | error e' =>
    rw [hc] at h
    obtain rfl : e' = e := Except.error.inj h
    exact memberFault_of_classify hc
  | ok a =>
    rw [hc] at h
    change st.act m a = .error e at h
    cases a with
    | opq d => cases h
    | whiteout t => cases h
    | place p =>
      change st.placeMember p m = .error e at h
      rw [placeMember] at h
      split at h
      · cases h
      · exact memberFault_of_placeHardlink h
      · cases h

theorem memberFault_of_run {e : Fault} (h : st.run ms = .error e) : MemberFault e := by
  induction ms generalizing st with
  | nil => cases h
  | cons m ms ih =>
    rw [run, List.foldlM_cons] at h
    cases hs : st.step m with
    | error e' =>
      rw [hs] at h
      obtain rfl : e' = e := Except.error.inj h
      exact memberFault_of_step hs
    | ok s =>
      rw [hs] at h
      exact ih h

end Reduction

open Reduction

/-- **The ways in which `normalize_changeset` fails**: bad ordinals, a member that
is turned down when its turn comes, or a forward link that is left waiting. -/
theorem normalizeChangeset_error {ms : List (ChangesetMember π)} {e : Fault}
    (h : normalizeChangeset ms = .error e) :
    e = .raised .changesetInput ∨ MemberFault e ∨ e = .raised .hardlinkTarget := by
  rw [normalizeChangeset] at h
  split at h
  · exact Or.inl (Except.error.inj h).symm
  · cases hrun : empty.run ms with
    | error e' =>
      rw [hrun] at h
      obtain rfl : e' = e := Except.error.inj h
      exact Or.inr (Or.inl (memberFault_of_run hrun))
    | ok st =>
      rw [hrun] at h
      change st.finish ms.length = .error e at h
      by_cases hw : st.Waits
      · rw [finish_of_waits hw] at h
        exact Or.inr (Or.inr (Except.error.inj h).symm)
      · obtain ⟨out, hout, -⟩ := finish_eq (N := ms.length) hrun hw
        rw [hout] at h
        cases h

/-- **What `normalize_changeset` returns is a layer tree in emission order**, in which
every payload group has one carrier, and whose root is a directory if the archive
lists it as nothing else. When the main loop is over and no forward link waits,
every path of the table is emitted, and no archive ends in an error of the
emission. -/
theorem normalizeChangeset_layerTree (ms : List (ChangesetMember π)) :
    (∀ out, normalizeChangeset ms = .ok out →
      LayerTree out ∧
      (RootsAreDirectories ms → ∃ e ∈ out, e.path = RelPath.dot ∧ e.kind = .directory) ∧
      ∃ st, empty.run ms = .ok st ∧
        ∀ q n g, st.node? q = some n → n.groupId = some g →
          ∃ f ∈ ms, f.ordinal = g ∧ (∃ p, PutsFile f p) ∧ CarriesGroup st f out) ∧
      (∀ st, Contiguous ms → empty.run ms = .ok st → ¬st.Waits →
        ∃ out, normalizeChangeset ms = .ok out ∧
          (out.map (·.path)).Perm (st.addRoot ms.length).table.keys) ∧
      normalizeChangeset ms ≠ .error (.raised .hardlinkOrder) ∧
      normalizeChangeset ms ≠ .error (.raised .hardlinkGroup) ∧
      normalizeChangeset ms ≠ .error (.raised .opaqueState) := by
  refine ⟨fun out hout => ?_, fun st hc hrun hw => ?_, fun h => ?_, fun h => ?_, fun h => ?_⟩
  · obtain ⟨st, hc, hrun, hw, hloop⟩ := normalizeChangeset_eq_ok hout
    have hset : (st.addRoot ms.length).Settled := settled_addRoot hrun hw
    refine ⟨layerTree_of_loop hset hloop, fun hroot => ?_, st, hrun, fun q n g hn hg =>
      carriesGroup_of_loop hc hrun hloop hn hg⟩
    obtain ⟨n, hn, hk⟩ := isDir_dot_addRoot (N := ms.length) hroot hrun
    exact ⟨_, entryOf_mem_out hloop hn, path_entryOf, (kind_entryOf_eq_directory hset hn).mpr hk⟩
  · obtain ⟨out, hout, hloop⟩ := finish_eq (N := ms.length) hrun hw
    refine ⟨out, ?_, ((perm_of_loop hloop).map (·.path)).trans paths_sortedEntries⟩
    rw [normalizeChangeset_eq hc, hrun]
    exact hout
  all_goals
    rcases normalizeChangeset_error h with he | he | he
    · cases he
    · exact he
    · cases he

/-- The root is not always emitted first, and is no directory if the archive says
so. -/
theorem not_root_first :
    (∃ e e', normalizeChangeset [bareMember 0 "-x" .directory ""] = .ok [e, e'] ∧
      e.path.parent = some e'.path ∧ ¬[e', e].Sublist [e, e']) ∧
    ∃ e e', normalizeChangeset [bareMember 0 "." .file "", bareMember 1 "a" .file ""] =
        .ok [e, e'] ∧
      e'.path.parent = some e.path ∧ e.kind ≠ .directory := by
  refine ⟨⟨_, _, rfl, rfl, fun h => ?_⟩, ⟨_, _, rfl, rfl, by decide⟩⟩
  have heq := congrArg (·.map (·.path.text)) (h.eq_of_length rfl)
  exact absurd heq (by decide)

/-- An archive with a forward link is accepted. -/
theorem normalizeChangeset_layerTree_forward :
    (normalizeChangeset [bareMember 0 "d/l" .hardlink "f", bareMember 1 "f" .file ""]).isOk ∧
      ∀ out, normalizeChangeset [bareMember 0 "d/l" .hardlink "f", bareMember 1 "f" .file ""] =
        .ok out → LayerTree out :=
  ⟨by decide, fun out h => ((normalizeChangeset_layerTree _).1 out h).1⟩

end Palimpsest
