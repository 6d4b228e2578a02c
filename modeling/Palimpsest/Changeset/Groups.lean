import Palimpsest.Changeset.Effects

/-!
# Payload groups along a run

Where the regular files and the hardlinks of a table come from. Nothing but a
regular file or a hardlink leaves a node that belongs to a payload group, so
every other round keeps the nodes of both kinds as they were or removes them
(`Palimpsest.Reduction.step_payload`). As the ordinals of an archive are its
positions, the dictionary of groups holds exactly the regular files seen so far
(`Palimpsest.Reduction.lookup_groups`).
-/

namespace Palimpsest

open ParentTree

variable {π : Type}

/-- The node shares a payload: a regular file or a hardlink. -/
def Node.SharesPayload (n : Node π) : Prop := n.kind = .file ∨ n.kind = .hardlink

/-- A regular file that is put at `p`. -/
def PutsFile (m : ChangesetMember π) (p : RelPath) : Prop :=
  classify m = .ok (.place p) ∧ m.kind = .file

/-- A hardlink that is put at `p`. -/
def PutsLink (m : ChangesetMember π) (p : RelPath) : Prop :=
  classify m = .ok (.place p) ∧ m.kind = .hardlink

theorem not_sharesPayload_of_directory {n : Node π} (h : n.kind = .directory) :
    ¬n.SharesPayload := by
  rintro (hk | hk) <;> simp [h] at hk

namespace Reduction

variable {st st' : Reduction π} {m : ChangesetMember π} {n : Node π} {p q d : RelPath} {g : ℕ}

/-! ### Where the nodes come from -/

theorem opaqueMarker_payload (h : st.WellFormed) (hn : (st.opaqueMarker d m).node? q = some n)
    (hs : n.SharesPayload) : st.node? q = some n := by
  have hopq : ∀ o, some (opaqueNode m d o) ≠ some n := by
    rintro o hcon
    simp only [Option.some.injEq] at hcon
    exact not_sharesPayload_of_directory (hcon ▸ kind_opaqueNode) hs
  by_cases hd : d = RelPath.dot
  · subst hd
    rw [(opaqueMarker_dot_spec h).2.2] at hn
    split at hn
    · exact absurd hn (hopq _)
    · split at hn
      · exact hn
      · cases hn
  · rw [(opaqueMarker_spec h hd).2.2] at hn
    split at hn
    · exact absurd hn (hopq _)
    · split at hn
      · simp only [Option.some.injEq] at hn
        exact absurd hs (not_sharesPayload_of_directory (hn ▸ kind_ensuredNode))
      · exact hn

theorem whiteoutMarker_payload (h : st.WellFormed)
    (hn : (st.whiteoutMarker p m).node? q = some n) (hs : n.SharesPayload) :
    st.node? q = some n := by
  rw [(whiteoutMarker_spec h).2.2] at hn
  split at hn
  · simp only [Option.some.injEq] at hn
    subst hn
    rcases hs with hs | hs <;> cases hs
  · split at hn
    · cases hn
    · split at hn
      · simp only [Option.some.injEq] at hn
        exact absurd hs (not_sharesPayload_of_directory (hn ▸ kind_ensuredNode))
      · exact hn

theorem clearPlace_payload (h : st.WellFormed) (hn : (st.clearPlace p m).node? q = some n)
    (hs : n.SharesPayload) : st.node? q = some n := by
  rw [(clearPlace_spec h).2.2] at hn
  split at hn
  · cases hn
  · split at hn
    · simp only [Option.some.injEq] at hn
      exact absurd hs (not_sharesPayload_of_directory (hn ▸ kind_ensuredNode))
    · exact hn

/-- Where a file or a hardlink at `q` after a round comes from. -/
inductive PayloadStep (st : Reduction π) (m : ChangesetMember π) (q : RelPath) : Node π → Prop
  | kept (n : Node π) (hn : st.node? q = some n) (hplace : classify m ≠ .ok (.place q))
    (hwait : ∀ p, PutsFile m p → q ∉ st.waitingFor p.text) : PayloadStep st m q n
  | file (h : PutsFile m q) : PayloadStep st m q (fileNode m)
  | resolved (p : RelPath) (h : PutsFile m p) (hqp : q ≠ p) (n : Node π) (hn : st.node? q = some n)
    (hq : q ∈ st.waitingFor p.text) : PayloadStep st m q (boundNode m.ordinal n)
  | backward (h : PutsLink m q) (target : Node π)
    (ht : (st.clearPlace q m).nodeAt? m.linkTarget = some target) (hk : target.kind = .file) :
    PayloadStep st m q (backwardNode m target)
  | forward (h : PutsLink m q)
    (ht : ∀ target, (st.clearPlace q m).nodeAt? m.linkTarget = some target →
      target.kind ≠ .file ∧ target.kind ≠ .hardlink) : PayloadStep st m q (forwardNode m)

theorem not_putsFile_of_action {a : Action} (ha : classify m = .ok a) (hne : ∀ p, a ≠ .place p) :
    ¬PutsFile m p := fun h => hne p (Except.ok.inj (ha.symm.trans h.1))

theorem eq_of_putsFile (ha : classify m = .ok (.place p)) (h : PutsFile m q) : q = p := by
  have := Except.ok.inj (h.1.symm.trans ha)
  simpa using this

/-- **Where the files and hardlinks after a round come from.** -/
theorem step_payload (h : st.WellFormed) (hok : st.step m = .ok st')
    (hn : st'.node? q = some n) (hs : n.SharesPayload) : PayloadStep st m q n := by
  obtain ⟨a, ha, hact⟩ := step_eq_ok.mp hok
  cases a with
  | opq d =>
    obtain rfl : st.opaqueMarker d m = st' := Except.ok.inj hact
    exact .kept n (opaqueMarker_payload h hn hs) (by simp [ha]) fun p hp =>
      absurd hp (not_putsFile_of_action ha (by simp))
  | whiteout t =>
    obtain rfl : st.whiteoutMarker t m = st' := Except.ok.inj hact
    exact .kept n (whiteoutMarker_payload h hn hs) (by simp [ha]) fun p hp =>
      absurd hp (not_putsFile_of_action ha (by simp))
  | place p =>
    obtain ⟨h1, h2, -⟩ := clearPlace_spec (p := p) (m := m) h
    have hpar : ∀ e, p.parent = some e → e ≠ RelPath.dot → (st.clearPlace p m).IsDir e :=
      fun e he hne => clearPlace_isDir h he hne
    have hbelow : m.kind ≠ .directory → ∀ r, Above p r → (st.clearPlace p m).node? r = none :=
      fun hk r hr => clearPlace_below h hk hr
    -- away from the place, everything that is no file leaves the node it finds
    have hkept : q ≠ p → m.kind ≠ .file → (st.clearPlace p m).node? q = some n →
        PayloadStep st m q n := fun hq hk hn =>
      .kept n (clearPlace_payload h hn hs) (by simp [ha, Ne.symm hq]) fun _ hp => absurd hp.2 hk
    rcases placeMember_cases hact with ⟨hk, rfl⟩ | ⟨hk, hlink⟩ | ⟨hf, hl, rfl⟩
    · rw [(placeFile_spec h1 hpar (hbelow (by simp [hk]))).2.2.2] at hn
      split at hn
      · rename_i hq
        simp only [Option.some.injEq] at hn
        rw [← hn, hq]
        exact .file ⟨ha, hk⟩
      · rename_i hq
        split at hn
        · rename_i hw
          obtain ⟨k, hk', rfl⟩ := Option.map_eq_some_iff.mp hn
          exact .resolved p ⟨ha, hk⟩ hq k (clearPlace_payload h hk' hs) ((h2.waits _ _).mp hw).1
        · rename_i hw
          have hold := clearPlace_payload h hn hs
          refine .kept n hold (by simp [ha, Ne.symm hq]) fun r hr hwait => hw ?_
          rw [eq_of_putsFile ha hr] at hwait
          refine (h2.waits _ _).mpr ⟨hwait, ?_⟩
          rw [pendingAt_congr (hn.trans hold.symm)]
          exact h.waiting _ _ hwait
    · rcases (placeHardlink_cases hlink).2 with ⟨target, ht, hfile, rfl⟩ | ⟨ht, rfl⟩
      · rw [node?_setNode] at hn
        split at hn
        · rename_i hq
          simp only [Option.some.injEq] at hn
          subst hq
          rw [← hn]
          exact .backward ⟨ha, hk⟩ target ht hfile
        · rename_i hq
          exact hkept hq (by simp [hk]) hn
      · rw [(putForward_spec h1 hpar (hbelow (by simp [hk]))).2.2.2] at hn
        split at hn
        · rename_i hq
          simp only [Option.some.injEq] at hn
          subst hq
          rw [← hn]
          exact .forward ⟨ha, hk⟩ ht
        · rename_i hq
          exact hkept hq (by simp [hk]) hn
    · rw [(placeOther_spec h1 hf hl hpar hbelow).2.2] at hn
      split at hn
      · simp only [Option.some.injEq] at hn
        subst hn
        exact absurd hs (by rintro (hs | hs); exacts [hf hs, hl hs])
      · rename_i hq
        exact hkept hq hf hn

/-- A round adds the member to the groups if it is a regular file at its place. -/
theorem step_groups (h : st.WellFormed) (hok : st.step m = .ok st') :
    (∃ p, PutsFile m p) ∧ st'.groups = st.groups.insert m.ordinal m ∨
      (¬∃ p, PutsFile m p) ∧ st'.groups = st.groups := by
  obtain ⟨a, ha, hact⟩ := step_eq_ok.mp hok
  have hmark : (∀ p, a ≠ .place p) → ¬∃ p, PutsFile m p := fun hne ⟨_, hp⟩ =>
    not_putsFile_of_action ha hne hp
  cases a with
  | opq d =>
    obtain rfl : st.opaqueMarker d m = st' := Except.ok.inj hact
    refine Or.inr ⟨hmark (by simp), ?_⟩
    by_cases hd : d = RelPath.dot
    · rw [hd]
      exact (opaqueMarker_dot_spec h).2.1.groups
    · exact (opaqueMarker_spec h hd).2.1.groups
  | whiteout t =>
    obtain rfl : st.whiteoutMarker t m = st' := Except.ok.inj hact
    exact Or.inr ⟨hmark (by simp), (whiteoutMarker_spec h).2.1.groups⟩
  -- Making room for a member leaves the groups; only a file is then added.
  | place p =>
    obtain ⟨h1, h2, -⟩ := clearPlace_spec (p := p) (m := m) h
    have hpar : ∀ e, p.parent = some e → e ≠ RelPath.dot → (st.clearPlace p m).IsDir e :=
      fun e he hne => clearPlace_isDir h he hne
    have hbelow : m.kind ≠ .directory → ∀ r, Above p r → (st.clearPlace p m).node? r = none :=
      fun hk r hr => clearPlace_below h hk hr
    have hnot : m.kind ≠ .file → ¬∃ p, PutsFile m p := fun hk ⟨_, hp⟩ => hk hp.2
    rcases placeMember_cases hact with ⟨hk, rfl⟩ | ⟨hk, hlink⟩ | ⟨hf, hl, rfl⟩
    · refine Or.inl ⟨⟨p, ha, hk⟩, ?_⟩
      rw [(placeFile_spec h1 hpar (hbelow (by simp [hk]))).2.1, h2.groups]
    · refine Or.inr ⟨hnot (by simp [hk]), ?_⟩
      rcases (placeHardlink_cases hlink).2 with ⟨target, ht, hfile, rfl⟩ | ⟨ht, rfl⟩
      · rw [groups_setNode, h2.groups]
      · rw [(putForward_spec h1 hpar (hbelow (by simp [hk]))).2.1, h2.groups]
    · refine Or.inr ⟨hnot hf, ?_⟩
      rw [(placeOther_spec h1 hf hl hpar hbelow).2.1.groups, h2.groups]

/-! ### What the groups hold -/

/-- The ordinals are the positions: what `normalize_changeset` checks first. -/
def Contiguous (ms : List (ChangesetMember π)) : Prop :=
  ∀ (i : ℕ) (m : ChangesetMember π), ms[i]? = some m → m.ordinal = i

theorem Contiguous.of_append {ms ms' : List (ChangesetMember π)} (h : Contiguous (ms ++ ms')) :
    Contiguous ms := by
  intro i m hi
  refine h i m ?_
  rw [List.getElem?_append_left (List.getElem?_eq_some_iff.mp hi).1]
  exact hi

theorem Contiguous.ordinal_middle {ms ms' : List (ChangesetMember π)}
    (h : Contiguous (ms ++ m :: ms')) : m.ordinal = ms.length :=
  h ms.length m (by simp)

/-- Members of one ordinal are one member. -/
theorem Contiguous.eq_of_ordinal {ms : List (ChangesetMember π)} (h : Contiguous ms)
    {m m' : ChangesetMember π} (hm : m ∈ ms) (hm' : m' ∈ ms) (ho : m.ordinal = m'.ordinal) :
    m = m' := by
  obtain ⟨i, hi⟩ := List.mem_iff_getElem?.mp hm
  obtain ⟨j, hj⟩ := List.mem_iff_getElem?.mp hm'
  have hij : i = j := by rw [← h i m hi, ← h j m' hj, ho]
  subst hij
  exact Option.some_inj.mp (hi.symm.trans hj)

theorem Contiguous.lt_length {ms : List (ChangesetMember π)} (h : Contiguous ms) (hm : m ∈ ms) :
    m.ordinal < ms.length := by
  obtain ⟨i, hi⟩ := List.mem_iff_getElem?.mp hm
  rw [h i m hi]
  exact (List.getElem?_eq_some_iff.mp hi).1

/-- **The dictionary of groups holds exactly the regular files seen so far**, by
their ordinals. -/
theorem lookup_groups {ms : List (ChangesetMember π)} (hc : Contiguous ms)
    (hok : empty.run ms = .ok st) (f : ChangesetMember π) :
    st.groups.lookup g = some f ↔ f ∈ ms ∧ f.ordinal = g ∧ ∃ p, PutsFile f p := by
  revert hc
  refine run_induction (motive := fun ms st => Contiguous ms →
    (st.groups.lookup g = some f ↔ f ∈ ms ∧ f.ordinal = g ∧ ∃ p, PutsFile f p)) ?_ ?_ hok
  · intro _
    simp [empty, AList.lookup_empty]
  · intro ms m st st' _ hwf hstep ih hc
    have hord : m.ordinal = ms.length := hc.ordinal_middle
    have hold := ih hc.of_append
    have hmem : f ∈ ms ++ [m] ↔ f ∈ ms ∨ f = m := by simp
    rw [hmem]
    rcases step_groups hwf hstep with ⟨hfile, hgroups⟩ | ⟨hfile, hgroups⟩
    · rw [hgroups]
      -- The ordinals are the positions, so the new file replaces no other.
      by_cases hg : g = m.ordinal
      · rw [hg, AList.lookup_insert, Option.some.injEq]
        constructor
        · rintro rfl
          exact ⟨Or.inr rfl, rfl, hfile⟩
        · rintro ⟨hf | hf, ho, -⟩
          · exact absurd (hc.of_append.lt_length hf) (by omega)
          · exact hf.symm
      · rw [AList.lookup_insert_ne hg, hold]
        constructor
        · rintro ⟨hf, ho, hp⟩
          exact ⟨Or.inl hf, ho, hp⟩
        · rintro ⟨hf | rfl, ho, hp⟩
          · exact ⟨hf, ho, hp⟩
          · exact absurd ho.symm hg
    · rw [hgroups, hold]
      constructor
      · rintro ⟨hf, ho, hp⟩
        exact ⟨Or.inl hf, ho, hp⟩
      · rintro ⟨hf | rfl, ho, hp⟩
        · exact ⟨hf, ho, hp⟩
        · exact absurd hp hfile

/-- **A regular file of the table is the node of a member of the archive**, put at
its own path. -/
theorem run_file {ms : List (ChangesetMember π)} (hok : empty.run ms = .ok st) :
    ∀ q n, st.node? q = some n → n.kind = .file →
      n = fileNode n.member ∧ n.member ∈ ms ∧ PutsFile n.member q := by
  refine run_induction (motive := fun ms st => ∀ q n, st.node? q = some n → n.kind = .file →
    n = fileNode n.member ∧ n.member ∈ ms ∧ PutsFile n.member q) ?_ ?_ hok
  · intro q n hn
    simp [empty, node?, AList.lookup_empty] at hn
  · intro ms m st st' _ hwf hstep ih q n hn hk
    cases step_payload hwf hstep hn (Or.inl hk) with
    | kept n hold =>
      obtain ⟨h1, h2, h3⟩ := ih q n hold hk
      exact ⟨h1, List.mem_append_left _ h2, h3⟩
    | file h => exact ⟨rfl, List.mem_append_right _ (List.mem_singleton_self m), h⟩
    | resolved p h hqp k hk' hq =>
      have hpend := hwf.waiting _ _ hq
      rw [pendingAt, hk', Option.bind_some] at hpend
      have hlink : k.kind = .hardlink := ((hwf.ok q k hk').pending (by simp [hpend])).1
      exact absurd (hlink.symm.trans hk) (by simp)
    | backward h target ht hk' => cases hk
    | forward h ht => cases hk

/-- What a link finds at its target is what the table held there. -/
theorem nodeAt?_clearPlace {t : Text} (h : st.WellFormed)
    (ht : (st.clearPlace p m).nodeAt? t = some n) (hs : n.SharesPayload) :
    ∃ r, r.text = t ∧ st.node? r = some n := by
  rw [nodeAt?] at ht
  obtain ⟨r, hr, hn⟩ := Option.bind_eq_some_iff.mp ht
  exact ⟨r, RelPath.text_of_ofText? hr, clearPlace_payload h hn hs⟩

/-- A round keeps the groups that have a source. -/
theorem source_of_step (h : st.WellFormed) (hok : st.step m = .ok st')
    (hg : (st.groups.lookup g).isSome) : (st'.groups.lookup g).isSome := by
  rcases step_groups h hok with ⟨-, hgroups⟩ | ⟨-, hgroups⟩
  · rw [hgroups]
    by_cases hgm : g = m.ordinal
    · rw [hgm, AList.lookup_insert]
      rfl
    · rw [AList.lookup_insert_ne hgm]
      exact hg
  · rw [hgroups]
    exact hg

/-- **Every payload group of the table has its regular file.** -/
theorem run_source {ms : List (ChangesetMember π)} (hok : empty.run ms = .ok st) :
    ∀ q n g, st.node? q = some n → n.groupId = some g → (st.groups.lookup g).isSome := by
  refine run_induction (motive := fun _ st => ∀ q n g, st.node? q = some n →
    n.groupId = some g → (st.groups.lookup g).isSome) ?_ ?_ hok
  · intro q n g hn
    simp [empty, node?, AList.lookup_empty] at hn
  · intro ms m st st' _ hwf hstep ih q n g hn hg
    have hs : n.SharesPayload := ((step_wellFormed hwf hstep).ok q n hn).grouped (by simp [hg])
    have hnew : ∀ p, PutsFile m p → (st'.groups.lookup m.ordinal).isSome := by
      intro p hfile
      rcases step_groups hwf hstep with ⟨-, hgroups⟩ | ⟨hnot, -⟩
      · rw [hgroups, AList.lookup_insert]
        rfl
      · exact absurd ⟨p, hfile⟩ hnot
    cases step_payload hwf hstep hn hs with
    | kept n hold => exact source_of_step hwf hstep (ih q n g hold hg)
    | file h =>
      obtain rfl : m.ordinal = g := Option.some_inj.mp hg
      exact hnew q h
    | resolved p h hqp k hk hq =>
      obtain rfl : m.ordinal = g := Option.some_inj.mp hg
      exact hnew p h
    | backward h target ht hk =>
      obtain ⟨r, -, hr⟩ := nodeAt?_clearPlace hwf ht (Or.inl hk)
      exact source_of_step hwf hstep (ih r target g hr hg)
    | forward h ht => cases hg

end Reduction

end Palimpsest
