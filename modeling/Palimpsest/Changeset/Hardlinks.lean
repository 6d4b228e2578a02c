import Palimpsest.Changeset.LayerTree

/-!
# Hardlink resolution

A hardlink is entitled to one regular file of the archive: the one at its target at
its own position, or else the first later one there
(`Palimpsest.Reduction.entitled`). A link that finds no file waits in the set of its
target, and is bound when the file comes. The one way to lose the place in that set
is to be declared over a link that waits for the same target: the new link joins the
set, and the removal of the old one takes it out again
(`Palimpsest.Reduction.LinkState.lost`). Up to that, resolution is exact:
`Palimpsest.resolvesExactly_iff`.
-/

namespace Palimpsest

open ParentTree

variable {π : Type}

/-- The member is a regular file put at the path `t`. -/
def isFileAt (t : Text) (m : ChangesetMember π) : Bool :=
  match classify m with
  | .ok (.place p) => p.text = t && m.kind = .file
  | _ => false

theorem isFileAt_iff {t : Text} {m : ChangesetMember π} :
    isFileAt t m = true ↔ ∃ p, PutsFile m p ∧ p.text = t := by
  rw [isFileAt]
  constructor
  · intro h
    split at h
    · rename_i p hp
      rw [Bool.and_eq_true, decide_eq_true_eq, decide_eq_true_eq] at h
      exact ⟨p, ⟨hp, h.2⟩, h.1⟩
    · cases h
  · rintro ⟨p, ⟨hp, hk⟩, ht⟩
    rw [hp]
    simp [hk, ht]

namespace Reduction

variable {st st' before after : Reduction π} {m m' : ChangesetMember π} {n : Node π}
  {p q : RelPath} {t : Text} {ms later : List (ChangesetMember π)}

/-- A regular file lies at the target of a link. -/
def VisibleFile (after : Reduction π) (m : ChangesetMember π) : Prop :=
  ∃ f, after.nodeAt? m.linkTarget = some f ∧ f.kind = .file

/-- The regular file that a link is entitled to: the one at its target right after
the link took its place, or else the first later one put there. -/
def entitled (after : Reduction π) (m : ChangesetMember π) (later : List (ChangesetMember π)) :
    Option (ChangesetMember π) :=
  match after.nodeAt? m.linkTarget with
  | some f => if f.kind = .file then some f.member else later.find? (isFileAt m.linkTarget)
  | none => later.find? (isFileAt m.linkTarget)

theorem entitled_of_visible {f : Node π} (hf : after.nodeAt? m.linkTarget = some f)
    (hk : f.kind = .file) : entitled after m later = some f.member := by
  rw [entitled, hf]
  exact if_pos hk

theorem entitled_of_not_visible (h : ¬VisibleFile after m) :
    entitled after m later = later.find? (isFileAt m.linkTarget) := by
  rw [entitled]
  cases hf : after.nodeAt? m.linkTarget with
  | none => rfl
  | some f => exact if_neg fun hk => h ⟨f, hf, hk⟩

/-! ### The position of a link -/

theorem nodeAt?_congr (h : ∀ r : RelPath, r.text = t → st'.node? r = st.node? r) :
    st'.nodeAt? t = st.nodeAt? t := by
  rw [nodeAt?, nodeAt?]
  cases hr : RelPath.ofText? t with
  | none => rfl
  | some r => exact h r (RelPath.text_of_ofText? hr)

/-- **What a link finds and leaves at its position.** -/
theorem link_position (hok : st.step m = .ok st') (hl : PutsLink m q) :
    (∃ f, st'.nodeAt? m.linkTarget = some f ∧ f.kind = .file ∧
        st'.node? q = some (backwardNode m f)) ∨
      ¬VisibleFile st' m ∧ st'.node? q = some (forwardNode m) := by
  obtain ⟨a, ha, hact⟩ := step_eq_ok.mp hok
  obtain rfl : Action.place q = a := Except.ok.inj (hl.1.symm.trans ha)
  rcases placeMember_cases hact with ⟨hk, -⟩ | ⟨-, hlink⟩ | ⟨-, hk, -⟩
  · exact absurd (hk.symm.trans hl.2) (by simp)
  · obtain ⟨hself, hcase⟩ := placeHardlink_cases hlink
    have hne : ∀ r : RelPath, r.text = m.linkTarget → r ≠ q := by
      rintro r hr rfl
      exact hself hr.symm
    rcases hcase with ⟨f, hf, hk, rfl⟩ | ⟨hf, rfl⟩
    · refine Or.inl ⟨f, ?_, hk, by rw [node?_setNode, if_pos rfl]⟩
      rw [← hf]
      exact nodeAt?_congr fun r hr => by rw [node?_setNode, if_neg (hne r hr)]
    · refine Or.inr ⟨?_, by rw [putForward, node?_setNode, if_pos rfl]⟩
      rintro ⟨f, hvis, hk⟩
      refine (hf f ?_).1 hk
      rw [← hvis]
      refine (nodeAt?_congr fun r hr => ?_).symm
      rw [putForward, node?_setNode, if_neg (hne r hr)]
      rfl
  · exact absurd hl.2 hk

theorem pendingAt_placeFile (h : st.WellFormed)
    (hpar : ∀ e, p.parent = some e → e ≠ RelPath.dot → st.IsDir e)
    (hbelow : ∀ q, Above p q → st.node? q = none) :
    (st.placeFile p m).pendingAt q =
      if q = p ∨ q ∈ st.waitingFor p.text then none else st.pendingAt q := by
  have hnode := (placeFile_spec (m := m) h hpar hbelow).2.2.2 q
  by_cases hq : q = p
  · rw [if_pos hq] at hnode
    rw [pendingAt, hnode, if_pos (Or.inl hq)]
    rfl
  · rw [if_neg hq] at hnode
    by_cases hw : q ∈ st.waitingFor p.text
    · rw [if_pos hw] at hnode
      rw [pendingAt, hnode, if_pos (Or.inr hw)]
      cases st.node? q <;> rfl
    · rw [if_neg hw] at hnode
      rw [if_neg (not_or.mpr ⟨hq, hw⟩)]
      exact pendingAt_congr hnode

/-- A regular file leaves the other links waiting. -/
theorem waitingFor_placeFile (h : st.WellFormed)
    (hpar : ∀ e, p.parent = some e → e ≠ RelPath.dot → st.IsDir e)
    (hbelow : ∀ q, Above p q → st.node? q = none) :
    q ∈ (st.placeFile p m).waitingFor t ↔
      (st.placeFile p m).pendingAt q = some t ∧ q ∈ st.waitingFor t := by
  rw [(placeFile_spec (m := m) h hpar hbelow).2.2.1, pendingAt_placeFile h hpar hbelow]
  constructor
  · rintro ⟨hw, hq, ht⟩
    have hpend := h.waiting t q hw
    refine ⟨?_, hw⟩
    rw [if_neg]
    · exact hpend
    · rintro (hq' | hw')
      · exact hq hq'
      · exact ht (Option.some_inj.mp (hpend.symm.trans (h.waiting _ q hw')))
  · rintro ⟨hpend, hw⟩
    split at hpend
    · cases hpend
    · rename_i hnot
      rw [not_or] at hnot
      refine ⟨hw, hnot.1, ?_⟩
      rintro rfl
      exact hnot.2 hw

/-- **Who waits after a round**: those who waited before and still do, and the link
that was put there unless it replaced one that waited for the same target. -/
theorem step_waiting (h : st.WellFormed) (hok : st.step m = .ok st') :
    q ∈ st'.waitingFor t ↔ st'.pendingAt q = some t ∧
      (¬PutsLink m q ∧ q ∈ st.waitingFor t ∨
        PutsLink m q ∧ st.pendingAt q ≠ some m.linkTarget) := by
  obtain ⟨a, ha, hact⟩ := step_eq_ok.mp hok
  -- everything but a forward link leaves those waiting who still want to
  have hother : (q ∈ st'.waitingFor t ↔ st'.pendingAt q = some t ∧ q ∈ st.waitingFor t) →
      (PutsLink m q → st'.pendingAt q = none) → (q ∈ st'.waitingFor t ↔ st'.pendingAt q = some t ∧
        (¬PutsLink m q ∧ q ∈ st.waitingFor t ∨
          PutsLink m q ∧ st.pendingAt q ≠ some m.linkTarget)) := by
    intro hw hl
    rw [hw]
    by_cases hlink : PutsLink m q
    · simp [hlink, hl hlink]
    · simp [hlink]
  have htrims : Trims st st' → (PutsLink m q → st'.pendingAt q = none) → (q ∈ st'.waitingFor t ↔
      st'.pendingAt q = some t ∧ (¬PutsLink m q ∧ q ∈ st.waitingFor t ∨
        PutsLink m q ∧ st.pendingAt q ≠ some m.linkTarget)) := fun htr =>
    hother ((htr.waits t q).trans and_comm)
  have hmark : (∀ p, a ≠ .place p) → ¬PutsLink m q := fun hne hl =>
    hne q (Except.ok.inj (ha.symm.trans hl.1))
  cases a with
  | opq d =>
    obtain rfl : st.opaqueMarker d m = st' := Except.ok.inj hact
    refine htrims ?_ fun hl => absurd hl (hmark (by simp))
    by_cases hd : d = RelPath.dot
    · rw [hd]
      exact (opaqueMarker_dot_spec h).2.1
    · exact (opaqueMarker_spec h hd).2.1
  | whiteout s =>
    obtain rfl : st.whiteoutMarker s m = st' := Except.ok.inj hact
    exact htrims (whiteoutMarker_spec h).2.1 fun hl => absurd hl (hmark (by simp))
  | place p =>
    obtain ⟨h1, h2, -⟩ := clearPlace_spec (p := p) (m := m) h
    have hpar : ∀ e, p.parent = some e → e ≠ RelPath.dot → (st.clearPlace p m).IsDir e :=
      fun e he hne => clearPlace_isDir h he hne
    have hbelow : m.kind ≠ .directory → ∀ r, Above p r → (st.clearPlace p m).node? r = none :=
      fun hk r hr => clearPlace_below h hk hr
    have hputs : PutsLink m q → q = p := fun hl => by
      simpa using Except.ok.inj (hl.1.symm.trans ha)
    rcases placeMember_cases hact with ⟨hk, rfl⟩ | ⟨hk, hlink⟩ | ⟨hf, hl, rfl⟩
    · refine hother ?_ fun hl => absurd (hk.symm.trans hl.2) (by simp)
      rw [waitingFor_placeFile h1 hpar (hbelow (by simp [hk])), h2.waits]
      refine and_congr_right fun hpend => and_iff_left_of_imp fun hw => ?_
      rw [pendingAt_placeFile h1 hpar (hbelow (by simp [hk]))] at hpend
      split at hpend
      · cases hpend
      · exact hpend
    · rcases (placeHardlink_cases hlink).2 with ⟨target, ht, hfile, rfl⟩ | ⟨ht, rfl⟩
      · refine htrims (h2.trans (putBackward_spec h1 (nodeAt?_ok h1.toTreelike ht) hfile hpar
          (hbelow (by simp [hk]))).2) fun hl => ?_
        rw [hputs hl, pendingAt, node?_setNode, if_pos rfl]
        rfl
      · obtain ⟨-, -, hw, hn⟩ := putForward_spec h1 hpar (hbelow (by simp [hk]))
        have hself : (st.clearPlace p m).pendingAt p = st.pendingAt p :=
          pendingAt_congr (node?_clearPlace_self h)
        rw [hw, hself, h2.waits]
        by_cases hq : q = p
        · subst hq
          have hpend : ((st.clearPlace q m).putForward q m).pendingAt q = some m.linkTarget := by
            rw [pendingAt, hn, if_pos rfl]
            rfl
          have hl : PutsLink m q := ⟨ha, hk⟩
          rw [hpend]
          simp [hl, eq_comm]
        · have hpend : ((st.clearPlace p m).putForward p m).pendingAt q =
              (st.clearPlace p m).pendingAt q := pendingAt_congr (by rw [hn, if_neg hq])
          have hl : ¬PutsLink m q := fun hl => hq (hputs hl)
          rw [hpend]
          simp only [hl, ne_eq, not_false_eq_true, true_and, false_and, or_false, hq, and_true]
          exact and_comm
    · exact htrims (h2.trans (placeOther_spec h1 hf hl hpar hbelow).2.1) fun hl' =>
        absurd hl'.2 hl

/-! ### Along a run -/

/-- What the table has for a link at `q` that was declared by `m` between `before` and
`after`, when the members `later` have come since. -/
inductive LinkState (st before after : Reduction π) (q : RelPath) (m : ChangesetMember π)
    (later : List (ChangesetMember π)) : Node π → Prop
  /-- The link found its file. -/
  | backward (f : Node π) (hf : after.nodeAt? m.linkTarget = some f) (hk : f.kind = .file) :
    LinkState st before after q m later (backwardNode m f)
  /-- The link found no file, and no file has come since. -/
  | waiting (hv : ¬VisibleFile after m) (hp : before.pendingAt q ≠ some m.linkTarget)
    (hfind : later.find? (isFileAt m.linkTarget) = none)
    (hw : q ∈ st.waitingFor m.linkTarget) :
    LinkState st before after q m later (forwardNode m)
  /-- The link found no file, and is bound to the first one that came. -/
  | resolved (hv : ¬VisibleFile after m) (hp : before.pendingAt q ≠ some m.linkTarget)
    (f : ChangesetMember π) (hfind : later.find? (isFileAt m.linkTarget) = some f) :
    LinkState st before after q m later (boundNode f.ordinal (forwardNode m))
  /-- The link found no file, and a link that waited for the same target. -/
  | lost (hv : ¬VisibleFile after m) (hp : before.pendingAt q = some m.linkTarget)
    (hw : q ∉ st.waitingFor m.linkTarget) :
    LinkState st before after q m later (forwardNode m)

/-- The position of a link in an archive. -/
structure DeclaredAt (ms : List (ChangesetMember π)) (q : RelPath) (before : Reduction π)
    (m : ChangesetMember π) (after : Reduction π) (later : List (ChangesetMember π)) : Prop where
  split : ∃ earlier, ms = earlier ++ m :: later ∧ empty.run earlier = .ok before
  step : before.step m = .ok after
  puts : PutsLink m q

theorem DeclaredAt.concat (h : DeclaredAt ms q before m after later) (m' : ChangesetMember π) :
    DeclaredAt (ms ++ [m']) q before m after (later ++ [m']) where
  split := by
    obtain ⟨earlier, rfl, hrun⟩ := h.split
    exact ⟨earlier, by rw [List.append_assoc]; rfl, hrun⟩
  step := h.step
  puts := h.puts

/-- A link that was just declared. -/
theorem linkState_of_putsLink (h : st.WellFormed) (hok : st.step m = .ok st')
    (hl : PutsLink m q) (hn : st'.node? q = some n) : LinkState st' st st' q m [] n := by
  rcases link_position hok hl with ⟨f, hf, hk, hnode⟩ | ⟨hv, hnode⟩
  · obtain rfl : backwardNode m f = n := Option.some_inj.mp (hnode.symm.trans hn)
    exact .backward f hf hk
  · obtain rfl : forwardNode m = n := Option.some_inj.mp (hnode.symm.trans hn)
    have hpend : st'.pendingAt q = some m.linkTarget := by
      rw [pendingAt, hnode]
      rfl
    by_cases hp : st.pendingAt q = some m.linkTarget
    · refine .lost hv hp fun hw => ?_
      rcases ((step_waiting h hok).mp hw).2 with ⟨hnot, -⟩ | ⟨-, hne⟩
      · exact hnot hl
      · exact hne hp
    · exact .waiting hv hp rfl ((step_waiting h hok).mpr ⟨hpend, Or.inr ⟨hl, hp⟩⟩)

/-- **One more round keeps what is known of a link** that is still there after it. -/
theorem LinkState.concat {k : Node π} (h : st.WellFormed) (hok : st.step m' = .ok st')
    (hs : LinkState st before after q m later k) (hk : st.node? q = some k)
    (hnot : classify m' ≠ .ok (.place q)) (hcase : k = n ∧ (∀ p, PutsFile m' p →
      q ∉ st.waitingFor p.text) ∨ ∃ p, PutsFile m' p ∧ q ∈ st.waitingFor p.text ∧
        n = boundNode m'.ordinal k) (hn : st'.node? q = some n) :
    LinkState st' before after q m (later ++ [m']) n := by
  have hl : ¬PutsLink m' q := fun hl => hnot hl.1
  cases hs with
  | backward f hf hfile =>
    rcases hcase with ⟨rfl, -⟩ | ⟨p, -, hw, -⟩
    · exact .backward f hf hfile
    · have hpend := h.waiting _ _ hw
      rw [pendingAt, hk] at hpend
      cases hpend
  | resolved hv hp f hfind =>
    rcases hcase with ⟨rfl, -⟩ | ⟨p, -, hw, -⟩
    · exact .resolved hv hp f (by rw [List.find?_append, hfind]; rfl)
    · have hpend := h.waiting _ _ hw
      rw [pendingAt, hk] at hpend
      cases hpend
  -- A link that waits goes on waiting, or this member is the file that it waits for.
  | waiting hv hp hfind hw =>
    rcases hcase with ⟨rfl, hfile⟩ | ⟨p, hp', hw', rfl⟩
    · have hfalse : isFileAt m.linkTarget m' = false := by
        by_contra hcon
        obtain ⟨p, hputs, ht⟩ := isFileAt_iff.mp (by simpa using hcon)
        exact hfile p hputs (ht ▸ hw)
      refine .waiting hv hp (by rw [List.find?_append, hfind]; simp [hfalse]) ?_
      refine (step_waiting h hok).mpr ⟨?_, Or.inl ⟨hl, hw⟩⟩
      rw [pendingAt, hn]
      rfl
    · have ht : p.text = m.linkTarget := by
        have := (h.waiting _ _ hw').symm.trans (h.waiting _ _ hw)
        exact Option.some_inj.mp this
      have htrue : isFileAt m.linkTarget m' = true := isFileAt_iff.mpr ⟨p, hp', ht⟩
      exact .resolved hv hp m' (by rw [List.find?_append, hfind]; simp [htrue])
  -- A cancelled link is in no list, so no later member binds it.
  | lost hv hp hw =>
    rcases hcase with ⟨rfl, -⟩ | ⟨p, -, hw', -⟩
    · refine .lost hv hp fun hcon => ?_
      rcases ((step_waiting h hok).mp hcon).2 with ⟨-, hw'⟩ | ⟨hl', -⟩
      · exact hw hw'
      · exact hl hl'
    · have hpend := h.waiting _ _ hw'
      rw [pendingAt, hk, Option.bind_some] at hpend
      obtain ht : m.linkTarget = p.text := Option.some_inj.mp hpend
      exact absurd (ht ▸ hw') hw

/-- **Every hardlink of the table has a position, and a state that fits it.** -/
theorem run_link (hok : empty.run ms = .ok st) :
    ∀ q n, st.node? q = some n → n.kind = .hardlink →
      ∃ before m after later, DeclaredAt ms q before m after later ∧ n.member = m ∧
        LinkState st before after q m later n := by
  refine run_induction (motive := fun ms st => ∀ q n, st.node? q = some n →
    n.kind = .hardlink → ∃ before m after later, DeclaredAt ms q before m after later ∧
      n.member = m ∧ LinkState st before after q m later n) ?_ ?_ hok
  · intro q n hn
    simp [empty, node?, AList.lookup_empty] at hn
  · intro ms m' st st' hrun hwf hstep ih q n hn hk
    by_cases hl : PutsLink m' q
    · refine ⟨st, m', st', [], ⟨⟨ms, rfl, hrun⟩, hstep, hl⟩, ?_,
        linkState_of_putsLink hwf hstep hl hn⟩
      cases linkState_of_putsLink hwf hstep hl hn <;> rfl
    · cases step_payload hwf hstep hn (Or.inr hk) with
      | kept n hold hplace hwait =>
        obtain ⟨before, m, after, later, hat, hmem, hs⟩ := ih q n hold hk
        exact ⟨before, m, after, later ++ [m'], hat.concat m', hmem,
          hs.concat hwf hstep hold hplace (Or.inl ⟨rfl, hwait⟩) hn⟩
      | file h => cases hk
      | resolved p h hqp k hold hw =>
        obtain ⟨before, m, after, later, hat, hmem, hs⟩ := ih q k hold hk
        refine ⟨before, m, after, later ++ [m'], hat.concat m', hmem,
          hs.concat hwf hstep hold ?_ (Or.inr ⟨p, h, hw, rfl⟩) hn⟩
        intro hplace
        have := Except.ok.inj (h.1.symm.trans hplace)
        exact hqp (by simpa using this.symm)
      | backward h => exact absurd h hl
      | forward h => exact absurd h hl

/-- A link that is still in the final table: nothing replaced or removed it. -/
structure SurvivingLink (ms : List (ChangesetMember π)) (q : RelPath) (before : Reduction π)
    (m : ChangesetMember π) (after : Reduction π) (later : List (ChangesetMember π)) : Prop
    extends DeclaredAt ms q before m after later where
  survives : ∃ st n, empty.run ms = .ok st ∧ st.node? q = some n ∧ n.kind = .hardlink ∧ n.member = m

theorem DeclaredAt.mem (h : DeclaredAt ms q before m after later) : m ∈ ms := by
  obtain ⟨earlier, rfl, -⟩ := h.split
  exact List.mem_append_right _ List.mem_cons_self

/-- A member has one position. -/
theorem DeclaredAt.unique {before' after' : Reduction π} {later' : List (ChangesetMember π)}
    (hc : Contiguous ms) (h : DeclaredAt ms q before m after later)
    (h' : DeclaredAt ms q before' m after' later') :
    before = before' ∧ after = after' ∧ later = later' := by
  obtain ⟨earlier, hms, hrun⟩ := h.split
  obtain ⟨earlier', hms', hrun'⟩ := h'.split
  have hlen : earlier.length = earlier'.length := by
    have h₁ : Contiguous (earlier ++ m :: later) := hms ▸ hc
    have h₂ : Contiguous (earlier' ++ m :: later') := hms' ▸ hc
    rw [← h₁.ordinal_middle, ← h₂.ordinal_middle]
  obtain ⟨rfl, htail⟩ := List.append_inj (hms.symm.trans hms') hlen
  obtain rfl : before = before' := Except.ok.inj (hrun.symm.trans hrun')
  exact ⟨rfl, Except.ok.inj (h.step.symm.trans h'.step), (List.cons.inj htail).2⟩

/-- **A surviving link is in the state that fits its position.** -/
theorem SurvivingLink.linkState (hc : Contiguous ms) (hok : empty.run ms = .ok st)
    (h : SurvivingLink ms q before m after later) :
    ∃ n, st.node? q = some n ∧ LinkState st before after q m later n := by
  obtain ⟨st', n, hrun, hn, hk, rfl⟩ := h.survives
  obtain rfl : st = st' := Except.ok.inj (hok.symm.trans hrun)
  obtain ⟨before', m', after', later', hat, rfl, hs⟩ := run_link hok q n hn hk
  obtain ⟨rfl, rfl, rfl⟩ := hat.unique hc h.toDeclaredAt
  exact ⟨n, hn, hs⟩

/-- The file a link is entitled to is a regular file of the archive. -/
theorem entitled_mem {f : ChangesetMember π} (h : DeclaredAt ms q before m after later)
    (hf : entitled after m later = some f) : f ∈ ms := by
  obtain ⟨earlier, rfl, hrun⟩ := h.split
  have hlater : later.find? (isFileAt m.linkTarget) = some f → f ∈ earlier ++ m :: later :=
    fun hfind => List.mem_append_right _ (List.mem_cons_of_mem m (List.mem_of_find?_eq_some hfind))
  by_cases hv : VisibleFile after m
  · obtain ⟨k, hk, hfile⟩ := hv
    obtain rfl : k.member = f := Option.some_inj.mp ((entitled_of_visible hk hfile).symm.trans hf)
    have hafter : empty.run (earlier ++ [m]) = .ok after := run_concat.mpr ⟨before, hrun, h.step⟩
    rw [nodeAt?] at hk
    obtain ⟨r, -, hr⟩ := Option.bind_eq_some_iff.mp hk
    have hmem := (run_file hafter r k hr hfile).2.1
    rw [List.append_cons]
    exact List.mem_append_left later hmem
  · exact hlater ((entitled_of_not_visible hv).symm.trans hf)

/-- **What a link that does not wait is bound to.** -/
theorem LinkState.groupId (hok : empty.run ms = .ok st)
    (h : DeclaredAt ms q before m after later) (hs : LinkState st before after q m later n)
    (hp : n.pendingTarget = none) :
    ∃ f, entitled after m later = some f ∧ n.groupId = some f.ordinal := by
  cases hs with
  | backward f hf hk =>
    obtain ⟨earlier, rfl, hrun⟩ := h.split
    have hwf : after.WellFormed :=
      step_wellFormed (run_wellFormed wellFormed_empty hrun) h.step
    exact ⟨f.member, entitled_of_visible hf hk, (nodeAt?_ok hwf.toTreelike hf).file hk⟩
  | waiting => cases hp
  | resolved hv hne f hfind => exact ⟨f, (entitled_of_not_visible hv).trans hfind, rfl⟩
  | lost => cases hp

end Reduction

open Reduction

/-- The entry of a path carries the payload of a regular file of the archive, or
links to the entry that does. -/
def BoundTo (out : List (NormalizedEntry π)) (q : RelPath) (f : ChangesetMember π) : Prop :=
  carrierEntry q f ∈ out ∨
    ∃ c, carrierEntry c f ∈ out ∧ ∃ e ∈ out, e.path = q ∧ e.kind = .hardlink ∧ e.linkTarget = c.text

/-- Some surviving link is entitled to no file. -/
def Unresolvable (ms : List (ChangesetMember π)) : Prop :=
  ∃ q before m after later, SurvivingLink ms q before m after later ∧ entitled after m later = none

/-- Links are resolved exactly: an archive is turned down for a link just when a
surviving link is entitled to no file, and otherwise every surviving link is bound
to the file it is entitled to. -/
def ResolvesExactly (ms : List (ChangesetMember π)) : Prop :=
  (normalizeChangeset ms = .error (.raised .hardlinkTarget) ↔ Unresolvable ms) ∧
    (¬Unresolvable ms → ∃ out, normalizeChangeset ms = .ok out ∧
      ∀ q before m after later, SurvivingLink ms q before m after later →
        ∀ f, entitled after m later = some f → BoundTo out q f)

/-- Some surviving link found no file at its position, and at its own path a link
that was waiting for the same target. -/
def DeclaredOverWaiting (ms : List (ChangesetMember π)) : Prop :=
  ∃ q before m after later, SurvivingLink ms q before m after later ∧
    ¬VisibleFile after m ∧ before.pendingAt q = some m.linkTarget

section

variable {ms : List (ChangesetMember π)} {st : Reduction π}

theorem error_iff_waits (hc : Contiguous ms) (hrun : empty.run ms = .ok st) :
    normalizeChangeset ms = .error (.raised .hardlinkTarget) ↔ st.Waits := by
  rw [normalizeChangeset_eq hc, hrun]
  change st.finish ms.length = _ ↔ _
  constructor
  · intro herr
    by_contra hw
    obtain ⟨out, hout, -⟩ := finish_eq (N := ms.length) hrun hw
    rw [hout] at herr
    cases herr
  · exact finish_of_waits

/-- A link that is entitled to no file waits at the end. -/
theorem waits_of_unresolvable (hc : Contiguous ms) (hrun : empty.run ms = .ok st)
    (h : Unresolvable ms) : st.Waits := by
  obtain ⟨q, before, m, after, later, hlink, hnone⟩ := h
  obtain ⟨n, hn, hs⟩ := hlink.linkState hc hrun
  refine ⟨q, n, hn, fun hp => ?_⟩
  obtain ⟨f, hf, -⟩ := hs.groupId hrun hlink.toDeclaredAt hp
  rw [hnone] at hf
  cases hf

/-- What waits at the end is entitled to no file, or was declared over a link that
waited. -/
theorem unresolvable_of_waits (hrun : empty.run ms = .ok st) (h : st.Waits) :
    Unresolvable ms ∨ DeclaredOverWaiting ms := by
  obtain ⟨q, n, hn, hp⟩ := h
  have hwf : st.WellFormed := run_wellFormed wellFormed_empty hrun
  have hk : n.kind = .hardlink := ((hwf.ok q n hn).pending hp).1
  obtain ⟨before, m, after, later, hat, hmem, hs⟩ := run_link hrun q n hn hk
  have hlink : SurvivingLink ms q before m after later := ⟨hat, st, n, hrun, hn, hk, hmem⟩
  cases hs with
  | backward => exact absurd rfl hp
  | waiting hv hne hfind hw =>
    exact Or.inl ⟨q, before, m, after, later, hlink, (entitled_of_not_visible hv).trans hfind⟩
  | resolved => exact absurd rfl hp
  | lost hv hpend hw => exact Or.inr ⟨q, before, m, after, later, hlink, hv, hpend⟩

/-- A link declared over one that waits is left waiting. -/
theorem waits_of_declaredOverWaiting (hc : Contiguous ms) (hrun : empty.run ms = .ok st)
    (h : DeclaredOverWaiting ms) : st.Waits := by
  obtain ⟨q, before, m, after, later, hlink, hv, hpend⟩ := h
  obtain ⟨n, hn, hs⟩ := hlink.linkState hc hrun
  refine ⟨q, n, hn, ?_⟩
  cases hs with
  | backward f hf hk => exact absurd ⟨f, hf, hk⟩ hv
  | waiting hv' hne => exact absurd hpend hne
  | resolved hv' hne => exact absurd hpend hne
  | lost => simp [forwardNode]

/-- **When hardlinks are resolved exactly**: no surviving link without a file at its
position was declared over a link that waited for the same target, unless the
archive has a link that no file resolves anyway. -/
theorem resolvesExactly_iff (hc : Contiguous ms) (hrun : empty.run ms = .ok st) :
    ResolvesExactly ms ↔ Unresolvable ms ∨ ¬DeclaredOverWaiting ms := by
  rw [ResolvesExactly, error_iff_waits hc hrun]
  constructor
  · rintro ⟨hiff, -⟩
    by_contra hcon
    rw [not_or, not_not] at hcon
    exact hcon.1 (hiff.mp (waits_of_declaredOverWaiting hc hrun hcon.2))
  · rintro hcase
    refine ⟨⟨fun hw => ?_, waits_of_unresolvable hc hrun⟩, fun hres => ?_⟩
    · rcases unresolvable_of_waits hrun hw with h | h
      · exact h
      · exact hcase.resolve_right fun hnot => hnot h
    · have hnot : ¬DeclaredOverWaiting ms := hcase.resolve_left hres
      have hw : ¬st.Waits := fun hw => (unresolvable_of_waits hrun hw).elim hres hnot
      obtain ⟨out, hout, hloop⟩ := finish_eq (N := ms.length) hrun hw
      refine ⟨out, by rw [normalizeChangeset_eq hc, hrun]; exact hout, ?_⟩
      intro q before m after later hlink f hf
      obtain ⟨n, hn, hs⟩ := hlink.linkState hc hrun
      have hp : n.pendingTarget = none := by
        by_contra hp
        exact hw ⟨q, n, hn, hp⟩
      obtain ⟨f', hf', hg⟩ := hs.groupId hrun hlink.toDeclaredAt hp
      obtain rfl : f' = f := Option.some_inj.mp (hf'.symm.trans hf)
      obtain ⟨k, hk, hord, -, c, hcar, -, hrest⟩ := carriesGroup_of_loop hc hrun hloop hn hg
      obtain rfl : k = f' := hc.eq_of_ordinal hk (entitled_mem hlink.toDeclaredAt hf) hord
      by_cases hqc : q = c
      · rw [hqc]
        exact Or.inl hcar
      · obtain ⟨e, he, hpath, hkind, htarget⟩ := hrest q n hn hg hqc
        exact Or.inr ⟨c, hcar, e, he, hpath, hkind, htarget⟩

/-- The theorem at a link and its file. -/
theorem resolvesExactly_iff_forward :
    ∃ st, empty.run [bareMember 0 "l" .hardlink "f", bareMember 1 "f" .file ""] = .ok st ∧
      (ResolvesExactly [bareMember 0 "l" .hardlink "f", bareMember 1 "f" .file ""] ↔
        Unresolvable [bareMember 0 "l" .hardlink "f", bareMember 1 "f" .file ""] ∨
          ¬DeclaredOverWaiting [bareMember 0 "l" .hardlink "f", bareMember 1 "f" .file ""]) := by
  obtain ⟨st, h⟩ := exists_of_isOk (x := empty.run
    [bareMember 0 "l" .hardlink "f", bareMember 1 "f" .file ""]) (by decide)
  exact ⟨st, h, resolvesExactly_iff (contiguous_iff.mp (by decide)) h⟩

/-- **A link declared twice before its file is lost.** The archive is turned down,
although the file that both links name comes after them. -/
theorem link_declared_twice :
    ¬ResolvesExactly [bareMember 0 "l" .hardlink "f", bareMember 1 "l" .hardlink "f",
      bareMember 2 "f" .file ""] := by
  rintro ⟨hiff, -⟩
  obtain ⟨q, before, m, after, later, hlink, hnone⟩ := hiff.mp rfl
  obtain ⟨earlier, hms, -⟩ := hlink.split
  have hc : Contiguous (earlier ++ m :: later) := hms ▸ contiguous_iff.mp (by decide)
  have hfind : later.find? (isFileAt m.linkTarget) = none := by
    unfold entitled at hnone
    split at hnone
    · split at hnone
      · cases hnone
      · exact hnone
    · exact hnone
  -- whichever of the two links survives, the file comes after it
  have hm : m = bareMember 0 "l" .hardlink "f" ∨ m = bareMember 1 "l" .hardlink "f" := by
    have hmem := hlink.toDeclaredAt.mem
    simp only [List.mem_cons, List.not_mem_nil, or_false] at hmem
    rcases hmem with rfl | rfl | rfl
    · exact Or.inl rfl
    · exact Or.inr rfl
    · exact absurd hlink.puts.2 (by decide)
  have hord : m.ordinal ≤ 1 := by rcases hm with rfl | rfl <;> decide
  have hfile : bareMember 2 "f" .file "" ∈ earlier ++ m :: later := by
    rw [← hms]
    simp
  rcases List.mem_append.mp hfile with hmem | hmem
  · have hlt := hc.of_append.lt_length hmem
    rw [← hc.ordinal_middle] at hlt
    exact absurd (Nat.lt_of_lt_of_le hlt hord) (by decide)
  · rcases List.mem_cons.mp hmem with heq | hmem
    · exact absurd (heq ▸ hord) (by decide)
    · refine List.find?_eq_none.mp hfind _ hmem ?_
      rcases hm with rfl | rfl <;> decide

end

end Palimpsest
