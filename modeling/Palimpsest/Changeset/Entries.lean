import Palimpsest.Changeset.Groups
import Palimpsest.Changeset.Normalize

/-!
# The entries of a final table

What `Palimpsest.Reduction.finish` makes of the table that the main loop leaves.
Unless a forward link is left waiting, every check passes and every path of the
table gets its entry (`Palimpsest.Reduction.finish_eq`); the emission then succeeds
in two passes, as every hardlink entry points at the carrier of its group, which is
emitted in the first one (`Palimpsest.Reduction.emit_isOk`).
-/

namespace Palimpsest

open ParentTree

variable {π : Type}

/-! ### Lists, dictionaries and sorting -/

theorem mapM_eq_ok {α β ε : Type} {f : α → Except ε β} {g : α → β} {l : List α}
    (h : ∀ a ∈ l, f a = .ok (g a)) : l.mapM f = .ok (l.map g) := by
  induction l with
  | nil => rfl
  | cons a l ih =>
    rw [List.mapM_cons, h a List.mem_cons_self, ih fun b hb => h b (List.mem_cons_of_mem a hb)]
    rfl

theorem exists_of_isOk {α ε : Type} {x : Except ε α} (h : x.isOk = true) : ∃ a, x = .ok a := by
  cases x with
  | error e => cases h
  | ok a => exact ⟨a, rfl⟩

/-- Entries are sorted by their paths. -/
abbrev PathLe (a b : NormalizedEntry π) : Prop := a.path ≤ b.path

instance : IsTrans (NormalizedEntry π) PathLe := ⟨fun _ _ _ => le_trans⟩

instance : Std.Total (α := NormalizedEntry π) PathLe := ⟨fun a b => le_total a.path b.path⟩

namespace Reduction

variable {st st' : Reduction π} {n : Node π} {p q : RelPath} {g N : ℕ}

theorem mem_entries : ⟨p, n⟩ ∈ st.table.entries ↔ st.node? p = some n :=
  AList.mem_lookup_iff.symm

/-! ### The root -/

/-- The node that stands for an archive root that no member lists. -/
def rootNode (N : ℕ) : Node π where
  member := syntheticDirectory RelPath.dot 0 N
  kind := .directory
  synthetic := true

theorem node?_addRoot :
    (st.addRoot N).node? q =
      if q = RelPath.dot ∧ st.node? RelPath.dot = none then some (rootNode N)
      else st.node? q := by
  rw [addRoot]
  split
  · rename_i n hn
    rw [hn, if_neg fun hcon => by cases hcon.2]
  · rename_i hn
    dsimp only
    rw [node?_insert]
    exact if_congr (iff_self_and.mpr fun _ => hn) rfl rfl

theorem groups_addRoot : (st.addRoot N).groups = st.groups := by
  rw [addRoot]
  split <;> rfl

theorem node?_addRoot_of_ne (hq : q ≠ RelPath.dot) :
    (st.addRoot N).node? q = st.node? q := by
  rw [node?_addRoot, if_neg fun hcon => hq hcon.1]

theorem isSome_addRoot (st : Reduction π) (N : ℕ) :
    ((st.addRoot N).node? RelPath.dot).isSome := by
  rw [node?_addRoot]
  split
  · rfl
  · rename_i h
    exact Option.isSome_iff_ne_none.mpr fun hcon => h ⟨rfl, hcon⟩

/-- What the root adds to the table is a plain directory. -/
theorem node?_of_addRoot (hn : (st.addRoot N).node? q = some n) :
    st.node? q = some n ∨ q = RelPath.dot ∧ st.node? RelPath.dot = none ∧ n = rootNode N := by
  rw [node?_addRoot] at hn
  split at hn
  · rename_i h
    exact Or.inr ⟨h.1, h.2, (Option.some.inj hn).symm⟩
  · exact Or.inl hn

theorem node?_addRoot_of_eq (hn : st.node? q = some n) :
    (st.addRoot N).node? q = some n := by
  rw [node?_addRoot, if_neg]
  · exact hn
  · rintro ⟨rfl, hnone⟩
    rw [hnone] at hn
    cases hn

/-! ### Tables that the main loop can leave -/

/-- What a table satisfies when the main loop is over, the root is there and no
forward link waits. -/
structure Settled (st : Reduction π) : Prop where
  ok : ∀ q n, st.node? q = some n → n.Ok
  parent_isDir : ∀ d q, q.parent = some d → (st.node? q).isSome → d ≠ RelPath.dot → st.IsDir d
  source : ∀ q n g, st.node? q = some n → n.groupId = some g → (st.groups.lookup g).isSome
  root : (st.node? RelPath.dot).isSome
  bound : ∀ q n, st.node? q = some n → n.pendingTarget = none

/-- Some forward link of the table still waits. -/
def Waits (st : Reduction π) : Prop := ∃ q n, st.node? q = some n ∧ n.pendingTarget ≠ none

theorem settled_addRoot {ms : List (ChangesetMember π)} (hok : empty.run ms = .ok st)
    (hw : ¬st.Waits) : (st.addRoot N).Settled := by
  have hwf : st.WellFormed := run_wellFormed wellFormed_empty hok
  refine ⟨fun q n hn => ?_, fun d q hd hq hne => ?_, fun q n g hn hg => ?_, isSome_addRoot st N,
    fun q n hn => ?_⟩
  · rcases node?_of_addRoot hn with hold | ⟨-, -, rfl⟩
    · exact hwf.ok q n hold
    · constructor <;> simp [rootNode]
  · have hqne : q ≠ RelPath.dot := by
      rintro rfl
      cases hd
    rw [node?_addRoot_of_ne hqne] at hq
    obtain ⟨k, hk1, hk2⟩ := hwf.parent_isDir d q hd hq hne
    exact ⟨k, node?_addRoot_of_eq hk1, hk2⟩
  · rw [groups_addRoot]
    rcases node?_of_addRoot hn with hold | ⟨-, -, rfl⟩
    · exact run_source hok q n g hold hg
    · cases hg
  · rcases node?_of_addRoot hn with hold | ⟨-, -, rfl⟩
    · by_contra hcon
      exact hw ⟨q, n, hold, hcon⟩
    · rfl

/-! ### Carriers -/

theorem mem_groupPaths : p ∈ st.groupPaths g ↔ ∃ n, st.node? p = some n ∧ n.groupId = some g := by
  rw [groupPaths, List.mem_map]
  constructor
  · rintro ⟨⟨q, n⟩, hmem, rfl⟩
    rw [List.mem_filter] at hmem
    exact ⟨n, mem_entries.mp hmem.1, by simpa using hmem.2⟩
  · rintro ⟨n, hn, hg⟩
    exact ⟨⟨p, n⟩, List.mem_filter.mpr ⟨mem_entries.mpr hn, by simpa using hg⟩, rfl⟩

/-- **A group with a path has a carrier, one of its paths.** -/
theorem exists_carrier (hn : st.node? p = some n) (hg : n.groupId = some g) :
    ∃ c, st.carrier g = some c ∧ c ∈ st.groupPaths g := by
  have hp : p ∈ st.groupPaths g := mem_groupPaths.mpr ⟨n, hn, hg⟩
  unfold carrier
  split
  · rename_i c l hl
    refine ⟨c, rfl, ?_⟩
    have hc : c ∈ (st.regularPaths g).insertionSort (· ≤ ·) := by rw [hl]; exact List.mem_cons_self
    exact (List.mem_filter.mp ((List.mem_insertionSort _).mp hc)).1
  · cases hsort : (st.groupPaths g).insertionSort (· ≤ ·) with
    | nil =>
      have : p ∈ (st.groupPaths g).insertionSort (· ≤ ·) := (List.mem_insertionSort _).mpr hp
      rw [hsort] at this
      cases this
    | cons c l =>
      refine ⟨c, rfl, ?_⟩
      refine (List.mem_insertionSort (· ≤ ·)).mp ?_
      rw [hsort]
      exact List.mem_cons_self

/-! ### The entry of a path -/

/-- The entry of a path where every check passes. -/
def entryOf (st : Reduction π) (N : ℕ) (p : RelPath) (n : Node π) : NormalizedEntry π :=
  match n.groupId.bind st.groups.lookup with
  | none => plainEntry p n N
  | some source =>
    if n.groupId.bind st.carrier = some p then carrierEntry p source
    else linkEntry p n.member ((n.groupId.bind st.carrier).elim [] (·.text))

theorem normalizedEntry_eq (h : st.Settled) (hn : st.node? p = some n) :
    st.normalizedEntry N p n = .ok (st.entryOf N p n) := by
  have hopq : ¬(n.isOpaque = true ∧ n.kind ≠ .directory) := fun hcon =>
    hcon.2 ((h.ok p n hn).opq hcon.1)
  rw [normalizedEntry, if_neg hopq, entryOf]
  cases hg : n.groupId with
  | none => rfl
  | some g =>
    obtain ⟨source, hs⟩ := Option.isSome_iff_exists.mp (h.source p n g hn hg)
    simp only [Option.bind_some, hs]
    split <;> rfl

theorem entryOf_of_none (hg : n.groupId = none) :
    st.entryOf N p n = plainEntry p n N := by
  rw [entryOf, hg]
  rfl

theorem entryOf_of_carrier {source : ChangesetMember π} (hg : n.groupId = some g)
    (hs : st.groups.lookup g = some source) (hc : st.carrier g = some p) :
    st.entryOf N p n = carrierEntry p source := by
  rw [entryOf, hg]
  simp only [Option.bind_some, hs, hc, if_true]

theorem entryOf_of_link {source : ChangesetMember π} {c : RelPath} (hg : n.groupId = some g)
    (hs : st.groups.lookup g = some source) (hc : st.carrier g = some c) (hne : c ≠ p) :
    st.entryOf N p n = linkEntry p n.member c.text := by
  rw [entryOf, hg]
  simp only [Option.bind_some, hs, hc, Option.some.injEq, hne, if_false, Option.elim_some]

@[simp] theorem path_entryOf : (st.entryOf N p n).path = p := by
  unfold entryOf
  split
  · rfl
  · split <;> rfl

/-- Grouped paths are no directories, before and after. -/
theorem kind_entryOf_eq_directory (h : st.Settled) (hn : st.node? p = some n) :
    (st.entryOf N p n).kind = .directory ↔ n.kind = .directory := by
  cases hg : n.groupId with
  | none => rw [entryOf_of_none hg]; rfl
  | some g =>
    have hnot : n.kind ≠ .directory := by
      intro hk
      rcases (h.ok p n hn).grouped (by simp [hg]) with hk' | hk' <;> simp [hk] at hk'
    refine iff_of_false ?_ hnot
    unfold entryOf
    split
    · exact hnot
    · split <;> simp [carrierEntry, linkEntry]

theorem isOpaque_entryOf (h : st.Settled) (hn : st.node? p = some n) :
    (st.entryOf N p n).isOpaque = n.isOpaque := by
  cases hg : n.groupId with
  | none => rw [entryOf_of_none hg]; rfl
  | some g =>
    have hopq : n.isOpaque = false := by
      by_contra hcon
      have hk := (h.ok p n hn).opq (by simpa using hcon)
      rcases (h.ok p n hn).grouped (by simp [hg]) with hk' | hk' <;> simp [hk] at hk'
    unfold entryOf
    rw [hopq]
    split
    · exact hopq
    · split <;> rfl

/-- **A hardlink entry points at the carrier of its group**, which is the entry of a
regular file. -/
theorem target_of_link (h : st.Settled) (hn : st.node? p = some n)
    (hk : (st.entryOf N p n).kind = .hardlink) :
    ∃ c k, st.node? c = some k ∧ (st.entryOf N c k).kind = .file ∧
      (st.entryOf N p n).linkTarget = c.text := by
  have hok := h.ok p n hn
  cases hg : n.groupId with
  | none =>
    rw [entryOf_of_none hg] at hk
    rcases hok.link hk with hp | hp
    · exact absurd (h.bound p n hn) hp
    · exact absurd hg hp
  | some g =>
    obtain ⟨source, hs⟩ := Option.isSome_iff_exists.mp (h.source p n g hn hg)
    obtain ⟨c, hc, hmem⟩ := exists_carrier hn hg
    obtain ⟨k, hk1, hk2⟩ := mem_groupPaths.mp hmem
    by_cases hcp : c = p
    · rw [entryOf_of_carrier hg hs (hcp ▸ hc)] at hk
      cases hk
    · refine ⟨c, k, hk1, ?_, ?_⟩
      · rw [entryOf_of_carrier hk2 hs hc]
        rfl
      · rw [entryOf_of_link hg hs hc hcp]
        rfl

/-! ### The list of entries -/

/-- The entries in the order of their paths. -/
def sortedEntries (st : Reduction π) (N : ℕ) : List (NormalizedEntry π) :=
  (st.table.entries.map fun e => st.entryOf N e.1 e.2).insertionSort PathLe

theorem mem_sortedEntries {e : NormalizedEntry π} :
    e ∈ st.sortedEntries N ↔
      ∃ n, st.node? e.path = some n ∧ e = st.entryOf N e.path n := by
  rw [sortedEntries, List.mem_insertionSort, List.mem_map]
  constructor
  · rintro ⟨⟨p, n⟩, hmem, rfl⟩
    rw [path_entryOf]
    exact ⟨n, mem_entries.mp hmem, rfl⟩
  · rintro ⟨n, hn, he⟩
    exact ⟨⟨e.path, n⟩, mem_entries.mpr hn, he.symm⟩

theorem entryOf_mem (hn : st.node? p = some n) :
    st.entryOf N p n ∈ st.sortedEntries N :=
  mem_sortedEntries.mpr ⟨n, by rw [path_entryOf]; exact hn, by rw [path_entryOf]⟩

theorem paths_sortedEntries : ((st.sortedEntries N).map (·.path)).Perm st.table.keys := by
  have hperm := (List.perm_insertionSort PathLe
    (st.table.entries.map fun e => st.entryOf N e.1 e.2)).map (·.path)
  refine hperm.trans (List.Perm.of_eq ?_)
  rw [List.map_map]
  exact List.map_congr_left fun e _ => path_entryOf

theorem nodup_sortedEntries : ((st.sortedEntries N).map (·.path)).Nodup :=
  paths_sortedEntries.nodup_iff.mpr st.table.keys_nodup

theorem pairwise_sortedEntries : (st.sortedEntries N).Pairwise PathLe :=
  List.pairwise_insertionSort PathLe _

/-- A hardlink waits for the lower rank. -/
def emissionRank (e : NormalizedEntry π) : ℕ := if e.kind = .hardlink then 1 else 0

theorem emissionReady_of_kind {emitted : List (NormalizedEntry π)} {e : NormalizedEntry π}
    (h : e.kind ≠ .hardlink) : emissionReady emitted e = true := by
  simp [emissionReady, h]

/-- **The emission succeeds** on the entries of a settled table. -/
theorem emit_isOk (h : st.Settled) :
    ∃ out, Deferral.loop emissionReady (st.sortedEntries N).length []
      (st.sortedEntries N) = .ok out := by
  refine Deferral.loop_isOk emissionRank ?_ (List.Perm.refl _) (le_refl _)
  intro e he l hl
  by_cases hk : e.kind = .hardlink
  · obtain ⟨n, hn, heq⟩ := mem_sortedEntries.mp he
    obtain ⟨c, k, hc, hfile, htarget⟩ := target_of_link (N := N) h hn (heq ▸ hk)
    have hmem := hl _ (entryOf_mem hc) (by simp [emissionRank, hk, hfile])
    rw [emissionReady, Bool.or_eq_true, List.contains_iff_mem]
    refine Or.inr (List.mem_map.mpr ⟨_, hmem, ?_⟩)
    rw [path_entryOf, ← htarget, ← heq]
  · exact emissionReady_of_kind hk

/-! ### The second half of the reducer -/

theorem any_pending : (st.table.entries.any fun e => e.2.pendingTarget ≠ none) = true ↔
    st.Waits := by
  rw [List.any_eq_true]
  constructor
  · rintro ⟨⟨q, n⟩, hmem, hn⟩
    exact ⟨q, n, mem_entries.mp hmem, by simpa using hn⟩
  · rintro ⟨q, n, hn, hp⟩
    exact ⟨⟨q, n⟩, mem_entries.mpr hn, by simpa using hp⟩

theorem waits_addRoot : (st.addRoot N).Waits ↔ st.Waits := by
  constructor
  · rintro ⟨q, n, hn, hp⟩
    rcases node?_of_addRoot hn with hold | ⟨-, -, rfl⟩
    · exact ⟨q, n, hold, hp⟩
    · exact absurd rfl hp
  · rintro ⟨q, n, hn, hp⟩
    exact ⟨q, n, node?_addRoot_of_eq hn, hp⟩

theorem finish_of_waits (h : st.Waits) : st.finish N = .error (.raised .hardlinkTarget) := by
  rw [finish, if_pos (any_pending.mpr (waits_addRoot.mpr h))]

/-- **The second half emits the entries of every path of the table** when no forward
link waits. -/
theorem finish_eq {ms : List (ChangesetMember π)} (hok : empty.run ms = .ok st)
    (hw : ¬st.Waits) :
    ∃ out, st.finish N = .ok out ∧
      Deferral.loop emissionReady ((st.addRoot N).sortedEntries N).length []
        ((st.addRoot N).sortedEntries N) = .ok out := by
  have hset : (st.addRoot N).Settled := settled_addRoot hok hw
  obtain ⟨out, hout⟩ := emit_isOk (N := N) hset
  refine ⟨out, ?_, hout⟩
  have hmap := @mapM_eq_ok _ _ _
    (fun e : Sigma fun _ : RelPath => Node π => (st.addRoot N).normalizedEntry N e.1 e.2)
    (fun e => (st.addRoot N).entryOf N e.1 e.2) (st.addRoot N).table.entries
    fun e he => normalizedEntry_eq hset (mem_entries.mp he)
  rw [finish, if_neg fun hcon => hw (waits_addRoot.mp (any_pending.mp hcon)), hmap]
  change emit ((st.addRoot N).sortedEntries N) = _
  rw [emit, hout]

end Reduction

/-- What `normalize_changeset` checks of the ordinals. -/
theorem contiguous_iff {ms : List (ChangesetMember π)} :
    (ms.zipIdx.any fun e => e.1.ordinal ≠ e.2) = false ↔ Reduction.Contiguous ms := by
  rw [List.any_eq_false]
  constructor
  · intro h i m hi
    have := h (m, i) (List.mem_zipIdx_iff_getElem?.mpr hi)
    simpa using this
  · rintro h ⟨m, i⟩ hmem
    simpa using h i m (List.mem_zipIdx_iff_getElem?.mp hmem)

/-- **`normalize_changeset` as a whole**: past the main loop it either reports a
forward link that waits, or emits every path of the table. -/
theorem normalizeChangeset_eq {ms : List (ChangesetMember π)} (hc : Reduction.Contiguous ms) :
    normalizeChangeset ms = Reduction.empty.run ms >>= fun st => st.finish ms.length := by
  rw [normalizeChangeset, if_neg (by rw [contiguous_iff.mpr hc]; simp)]

theorem contiguous_of_ok {ms : List (ChangesetMember π)} {out : List (NormalizedEntry π)}
    (h : normalizeChangeset ms = .ok out) : Reduction.Contiguous ms := by
  rw [normalizeChangeset] at h
  split at h
  · cases h
  · rename_i hany
    exact contiguous_iff.mp (by simpa using hany)

/-- **What an accepted archive goes through.** -/
theorem normalizeChangeset_eq_ok {ms : List (ChangesetMember π)} {out : List (NormalizedEntry π)}
    (h : normalizeChangeset ms = .ok out) :
    ∃ st, Reduction.Contiguous ms ∧ Reduction.empty.run ms = .ok st ∧ ¬st.Waits ∧
      Deferral.loop emissionReady ((st.addRoot ms.length).sortedEntries ms.length).length []
        ((st.addRoot ms.length).sortedEntries ms.length) = .ok out := by
  have hc := contiguous_of_ok h
  rw [normalizeChangeset_eq hc] at h
  cases hrun : Reduction.empty.run ms with
  | error e => rw [hrun] at h; cases h
  | ok st =>
    rw [hrun] at h
    change st.finish ms.length = .ok out at h
    by_cases hw : st.Waits
    · rw [Reduction.finish_of_waits hw] at h
      cases h
    · obtain ⟨out', hout', hloop⟩ := Reduction.finish_eq (N := ms.length) hrun hw
      obtain rfl : out' = out := Except.ok.inj (hout'.symm.trans h)
      exact ⟨st, hc, rfl, hw, hloop⟩

end Palimpsest
