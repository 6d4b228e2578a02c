import Palimpsest.Access.TraversalRuns

/-!
# A run that is kept from going on

While the intent of a run is pending no other run can go on, not even one that the registry
already lists and that only has to take note of it (`Palimpsest.Access.exists_blocked`).
-/

namespace Palimpsest.Access

open Control Monitor Calls Calls.Program

/-- Calls that succeed take an attempt from one program to another. -/
inductive Comes (a : Attempt) : Op SharedTraversalMembership → World →
    Op SharedTraversalMembership → World → Prop
  | refl (p : Op SharedTraversalMembership) (w : World) : Comes a p w p w
  | call {q : Request} {next : Option Unit → Op SharedTraversalMembership} {w w' : World}
    {p' : Op SharedTraversalMembership}
    (h : Comes a (next (w.answer a q).1) (w.answer a q).2 p' w') : Comes a (.call q next) w p' w'

variable {a : Attempt} {w w' w'' : World} {m : SharedTraversalMembership}
  {p p' p'' : Op SharedTraversalMembership} {α : Type}

theorem Comes.trans (h : Comes a p w p' w') (h' : Comes a p' w' p'' w'') :
    Comes a p w p'' w'' := by
  induction h with
  | refl => exact h'
  | call _ ih => exact .call (ih h')

theorem comes_bind {p : Op α} {f : α → Op SharedTraversalMembership} {x : α}
    (h : p.run (fun q w => w.answer a q) w = (some x, w')) : Comes a (p >>= f) w (f x) w' := by
  induction p generalizing w with
  | done y =>
    obtain ⟨hy, rfl⟩ := Prod.mk.inj h
    obtain rfl := Option.some.inj hy
    exact .refl ..
  | raise => cases h
  | call q next ih => exact .call (ih _ h)

theorem run_call {q : Request} (h : w.isAsExpected a q) :
    (ask q : Op Unit).run (fun q w => w.answer a q) w = (some (), w.apply a q) := by
  simp [ask, Program.run, World.answer, h]

theorem run_verify {saved : Option SharedTraversalMembership} (h : w.saved a.runId = saved) :
    (ask (.verify w.registry saved w.acls) : Op Unit).run (fun q w => w.answer a q) w =
      (some (), w) :=
  run_call (by simp [World.isAsExpected, h])

/-- Other runs do not notice. -/
theorem Comes.others (h : Comes a p w p' w') {other : Uuid} (hother : other ≠ a.runId) :
    w'.saved other = w.saved other ∧ w'.unfinished other = w.unfinished other := by
  induction h with
  | refl => exact ⟨rfl, rfl⟩
  | @call q next w w' p' _ ih =>
    have hanswer : (w.answer a q).2.saved other = w.saved other ∧
        (w.answer a q).2.unfinished other = w.unfinished other := by
      rw [World.answer]
      split
      · cases q with
        | authority | verify => exact ⟨rfl, rfl⟩
        | writeRegistry | writeAcl => exact ⟨rfl, Function.update_of_ne hother ..⟩
        | writeMember =>
          exact ⟨Function.update_of_ne hother .., Function.update_of_ne hother ..⟩
      · exact ⟨rfl, rfl⟩
    exact ⟨ih.1.trans hanswer.1, ih.2.trans hanswer.2⟩

/-- The attempt is about to make a call. -/
def IsCall (p : Op SharedTraversalMembership) : Prop := ∃ q next, p = .call q next

/-- The events of an attempt that is killed on its way. -/
theorem Comes.events (h : Comes a p w p' w') (hcall : IsCall p') :
    ∃ n, ((List.replicate n Event.next ++ [Event.kill]).foldl State.step (State.goOn w a p)) =
      ⟨w', none⟩ := by
  induction h with
  | refl =>
    obtain ⟨q, next, rfl⟩ := hcall
    exact ⟨0, rfl⟩
  | call _ ih =>
    obtain ⟨n, hn⟩ := ih hcall
    exact ⟨n + 1, hn⟩

/-- A call of the join of a run that is not in the namespace. -/
structure Attempt.IsNew (a : Attempt) (w : World) (m : SharedTraversalMembership) : Prop where
  kind : a.kind = .join
  idle : Idle w a.runId
  pending : w.registry.pending = none
  member : newMember a.call w.registry = some m
  suits : a.Suits m
  room : w.registry.HasRoom m

namespace Attempt.IsNew

theorem joiner (h : a.IsNew w m) : Access.joiner a.call (w.view a.runId) = some m := by
  rw [Access.joiner, World.view, h.idle.saved, Option.none_or, h.pending, Option.none_or]
  exact h.member

/-- The checks before the first write. -/
theorem comes_joinAs (h : a.IsNew w m) (hinv : Inv w) :
    Comes a (join a.call (w.view a.runId)) w (joinAs (w.view a.runId) m) w := by
  have hauthority : m.authority = (w.view a.runId).registry.authority :=
    joiner_authority hinv h.joiner
  have haccess := h.suits.phase
  rw [h.kind] at haccess
  have hphase := (of_newMember h.member).2.2
  rw [join]
  refine (comes_bind (run_require ?_ w)).trans ?_
  · simp [haccess, h.suits.accessBinding]
  refine (comes_bind (run_call rfl)).trans ?_
  refine (comes_bind (run_require ?_ w)).trans ?_
  · simp [← hauthority, h.suits.qemuUid, h.suits.qemuGid]
  refine (comes_bind (run_take h.joiner w)).trans ?_
  refine (comes_bind (run_require ?_ w)).trans ?_
  · simp [h.suits.binding, h.suits.accessId, hauthority, hphase]
  refine (comes_bind (run_require (decide_eq_true hinv.allowed) w)).trans ?_
  exact comes_bind (run_verify rfl)

/-- The intent of the run is made known. -/
theorem comes_intended (h : a.IsNew w m) (hinv : Inv w) :
    ∃ w', Here a w' m .joinIntended ∧ w'.registry = w.registry.intend m ∧ w'.acls = w.acls ∧
      Comes a (join a.call (w.view a.runId)) w (do
        recordJoining (w.view a.runId) w'.registry m
        let acls ← openParents w'.registry m w.acls
        completeJoin w'.registry m acls) w' := by
  obtain ⟨hauthority, hepoch, hphase⟩ := of_newMember h.member
  have hintend : Keeps a True (intendJoin (w.view a.runId) m) (fun r w' =>
      r = w'.registry ∧ Here a w' m .joinIntended ∧ w'.registry = w.registry.intend m ∧
        w'.acls = w.acls) w :=
    keeps_intendJoin hinv h.idle h.pending h.suits h.kind hphase hauthority hepoch
      (fun _ => h.room) fun w' h' hregistry hacls => ⟨rfl, h', hregistry, hacls⟩
  obtain ⟨r, w', hrun, rfl, h', hregistry, hacls⟩ := hintend.returns trivial
  refine ⟨w', h', hregistry, hacls, (h.comes_joinAs hinv).trans ?_⟩
  have hactive : m.phase ≠ .active := by
    rw [hphase]
    decide
  have hrecorded : (w.view a.runId).registry.recorded m = none :=
    h.idle.recorded m h.suits.runId_eq
  rw [joinAs, if_neg hactive, hrecorded]
  exact comes_bind hrun

/-- The run is listed, and does not know of it. -/
theorem comes_published (h : a.IsNew w m) (hinv : Inv w) :
    ∃ w' p', Here a w' m .joinPublished ∧
      w'.registry = (w.registry.intend m).list (m.withPhase .active) ∧
      Comes a (join a.call (w.view a.runId)) w p' w' ∧ IsCall p' := by
  obtain ⟨w₁, h₁, hregistry₁, hacls₁, hcomes₁⟩ := h.comes_intended hinv
  have hjoining : m.withPhase .joining = m := by
    rw [← (of_newMember h.member).2.2]
    rfl
  have hsaved : (w.view a.runId).saved = none := h.idle.saved
  -- The membership is written, the parents are opened, and the registry lists the run.
  have h₂ : Here a (w₁.apply a (.writeMember (m.withPhase .joining))) m .joinRecorded :=
    h₁.writeMember rfl rfl rfl rfl
  rw [hjoining] at h₂
  have hopen : Keeps a True
      (openParents (w₁.apply a (.writeMember m)).registry (m.withPhase .joining)
        (w₁.apply a (.writeMember m)).acls)
      (fun acls w' => acls = w'.acls ∧ Here a w' m .joinRecorded ∧ w'.registry = w₁.registry ∧
        w'.acls = w₁.registry.authority.granted) (w₁.apply a (.writeMember m)) :=
    keeps_openParents h₂ fun w' h' hregistry hacls => ⟨rfl, h', hregistry, hacls⟩
  rw [hjoining] at hopen
  obtain ⟨acls, w₃, hrun₃, rfl, h₃, hregistry₃, hacls₃⟩ := hopen.returns trivial
  rw [← hregistry₃] at hacls₃
  have hpublished := h₃.publish hacls₃
  have hrecord : (recordJoining (w.view a.runId) w₁.registry m).run (fun q w => w.answer a q) w₁ =
      (some (), w₁.apply a (.writeMember m)) := by
    rw [recordJoining, hsaved, World.view, ← hacls₁]
    exact (run_bind (run_verify h₁.saved)).trans (run_call rfl)
  have hcomplete : Comes a (completeJoin w₃.registry m w₃.acls) w₃ (do
      ask (.verify (w₃.registry.list (m.withPhase .active)) (some m) w₃.acls)
      ask (.writeMember (m.withPhase .active))
      ask (.verify (w₃.registry.list (m.withPhase .active)) (some (m.withPhase .active)) w₃.acls)
      pure (m.withPhase .active))
      (w₃.apply a (.writeRegistry (w₃.registry.list (m.withPhase .active)))) := by
    refine (comes_bind (run_verify (hjoining ▸ h₃.saved))).trans (comes_bind (x := ()) ?_)
    exact (run_bind (run_require (decide_eq_true hpublished.inv.storable) w₃)).trans
      (run_call rfl)
  rw [← hacls₁] at hcomes₁
  have hrest := (hcomes₁.trans (comes_bind hrecord)).trans (comes_bind hrun₃)
  rw [← hregistry₃] at hrest
  refine ⟨_, _, hpublished, ?_, hrest.trans hcomplete, _, _, rfl⟩
  rw [← hregistry₁, ← hregistry₃]
  rfl

end Attempt.IsNew

/-- A call of a join that the checks of the namespace admit. -/
structure Attempt.Fits (a : Attempt) (authority : Authority) : Prop where
  kind : a.kind = .join
  granted : a.call.access.phase = .granted
  binding : a.call.access.binding = a.call.binding
  owner : a.call.binding.ownerUid = authority.owner
  qemuUid : authority.qemuUid = a.call.access.qemuUid
  qemuGid : authority.qemuGid = a.call.access.qemuGid

/-- A run that is not in the namespace may join, if there are not too many members. -/
theorem Attempt.Fits.isNew (h : a.Fits w.registry.authority) (hinv : Inv w) (hidle : Idle w a.runId)
    (hpending : w.registry.pending = none) (hsized : w.registry.authority.Sized)
    (hepoch : w.registry.epoch + 1 < 10 ^ 20) (hlength : w.registry.members.entries.length < 50) :
    ∃ m, a.IsNew w m := by
  have hpos : 1 ≤ w.registry.epoch + if w.registry.active.isEmpty then 1 else 0 := by
    split
    · exact Nat.le_add_left 1 _
    · next hne =>
      -- the epoch of a member is at least one
      obtain ⟨x, hx⟩ := List.exists_mem_of_ne_nil _ (mt List.isEmpty_iff.mpr hne)
      have hle := (hinv.storable.1.authority x
        (List.mem_append_left _ (List.mem_filter.mp hx).1)).2
      exact Nat.le_trans x.epoch_pos hle
  have hnew : ∃ m, newMember a.call w.registry = some m ∧ m.binding = a.call.binding ∧
      m.accessId = a.call.access.accessId :=
    ⟨_, dif_pos ⟨hpos, h.owner⟩, rfl, rfl⟩
  obtain ⟨m, hmember, hbinding, hid⟩ := hnew
  have hle := epoch_le_of_newMember hmember
  obtain ⟨hauthority, hepoch', hphase⟩ := of_newMember hmember
  have hsuits : a.Suits m := ⟨hbinding, hid, h.binding, by rw [hauthority, h.qemuUid],
    by rw [hauthority, h.qemuGid], by rw [h.kind]; exact h.granted⟩
  refine ⟨m, h.kind, hidle, hpending, hmember, hsuits, ?_⟩
  refine Registry.hasRoom_of_length_le hinv.storable.1 hsized (Nat.lt_of_le_of_lt hle hepoch)
    hepoch'
    hlength hauthority hphase fun x hx => hidle.recorded x (hx.trans hsuits.runId_eq)

/-- **A listed run cannot go on while the intent of another run is pending.** -/
theorem not_completes_of_pending {p : SharedTraversalMembership} (h : Inv w)
    (hkind : a.kind = .join) (hstands : Stands w m .joinPublished) (hrun : m.runId = a.runId)
    (hp : w.registry.pending = some p) : ¬Completes a w := by
  have hnever : Keeps a False (join a.call (w.view a.runId)) (fun _ _ => False) w := by
    refine keeps_join_of h hkind False.elim fun x hx hsuits _ => ?_
    rw [joiner, World.view, ← hrun, hstands.saved] at hx
    obtain rfl := Option.some.inj hx
    have hrecorded : (w.view a.runId).registry.recorded (m.withPhase .joining) =
      some (m.withPhase .active) := hstands.recorded
    have hpending : (w.view a.runId).registry.pending = some p := hp
    rw [joinAs, if_neg (joining_ne_active _), hrecorded]
    refine meets_bind (meets_require h False.elim fun hnone => ?_)
    rw [hpending] at hnone
    simp at hnone
  rintro ⟨x, w', hcompletes, -⟩
  rw [Attempt.program, hkind] at hcompletes
  exact hnever.safe.of_run (fun q w => effect_answer a w q) hcompletes

/-- An attempt that is called and killed on its way. -/
theorem Comes.run {s : State} (h : Comes a (a.program (s.world.view a.runId)) s.world p' w')
    (hcall : IsCall p') (hrunning : s.running = none) : ∃ events, s.run events = ⟨w', none⟩ := by
  obtain ⟨n, hn⟩ := h.events hcall
  refine ⟨.call a :: (List.replicate n .next ++ [.kill]), ?_⟩
  rw [State.run, List.foldl_cons, State.step, hrunning]
  exact hn

/-- **Of two runs that join one after the other one can have to wait**: it is listed, it was
killed before it knew, and it cannot go on before the other one has. -/
theorem exists_blocked (e : Enrollment) (hsized : e.authority.Sized) {a b : Attempt}
    (ha : a.Fits e.authority) (hb : b.Fits e.authority) (hne : b.runId ≠ a.runId) :
    ∃ events, (e.state.run events).running = none ∧
      (e.state.run events).world.unfinished a.runId = some a ∧
      ¬Completes a (e.state.run events).world := by
  have hidle : ∀ runId, Idle (World.enrolled e.authority) runId :=
    fun _ => ⟨rfl, fun _ _ => rfl, rfl, rfl⟩
  obtain ⟨m, hm⟩ : ∃ m, a.IsNew (World.enrolled e.authority) m :=
    ha.isNew (inv_enrolled e) (hidle _) rfl hsized (show 0 + 1 < 10 ^ 20 by decide)
      (show 0 < 50 by decide)
  obtain ⟨w₁, p₁, h₁, hregistry₁, hcomes₁, hcall₁⟩ := hm.comes_published (inv_enrolled e)
  have hrun := h₁.suits.runId_eq
  -- the other run has nothing to do with the namespace yet
  have hidle₁ : Idle w₁ b.runId := {
    pending := Registry.pendingOf_of_none (by rw [hregistry₁]; rfl) _
    recorded := fun x hx => by
      rw [hregistry₁, Registry.recorded_list_of_ne]
      · rfl
      · rw [hx, SharedTraversalMembership.runId_withPhase, hrun]
        exact hne
    saved := (hcomes₁.others hne).1
    unfinished := (hcomes₁.others hne).2 }
  have hb₁ : b.Fits w₁.registry.authority := by
    rw [hregistry₁]
    exact hb
  obtain ⟨x, hx⟩ : ∃ x, b.IsNew w₁ x := by
    refine hb₁.isNew h₁.inv hidle₁ ?_ ?_ ?_ ?_
    · rw [hregistry₁]
      rfl
    · rw [hregistry₁]
      exact hsized
    · have hepoch : m.epoch ≤ 0 + 1 := epoch_le_of_newMember hm.member
      rw [hregistry₁]
      exact Nat.lt_of_le_of_lt (Nat.succ_le_succ hepoch) (by decide)
    · rw [hregistry₁]
      exact (by decide : 1 < 50)
  obtain ⟨w₂, h₂, hregistry₂, -, hcomes₂⟩ := hx.comes_intended h₁.inv
  have hothers := fun other (hother : other ≠ b.runId) => hcomes₂.others hother
  have hpending₂ : w₂.registry.pending = some x := by
    rw [hregistry₂]
    rfl
  have hframe : Frame b.runId w₁ w₂ := {
    authority := by rw [hregistry₂]; rfl
    epoch := by rw [hregistry₂]; exact (of_newMember hx.member).2.1
    recorded := fun _ _ => by rw [hregistry₂]; rfl
    pending := .inr fun other hother =>
      ⟨Registry.pendingOf_of_none hx.pending _,
        Registry.pendingOf_of_ne hpending₂ (hx.suits.runId_eq.trans_ne hother.symm)⟩
    saved := fun other hother => (hothers other hother).1
    unfinished := fun other hother => (hothers other hother).2 }
  have hstands : Stands w₂ m .joinPublished := hframe.stands (hrun.trans_ne hne.symm) h₁.stands
  have hsaved : (w₁.view b.runId).saved = none := hidle₁.saved
  rw [recordJoining, hsaved] at hcomes₂
  obtain ⟨events₁, hevents₁⟩ := Comes.run (s := e.state)
    (by rw [Attempt.program, ha.kind]; exact hcomes₁) hcall₁ rfl
  obtain ⟨events₂, hevents₂⟩ := Comes.run (s := ⟨w₁, none⟩)
    (by rw [Attempt.program, hb.kind]; exact hcomes₂) ⟨_, _, rfl⟩ rfl
  refine ⟨events₁ ++ events₂, ?_⟩
  rw [State.run, List.foldl_append, ← State.run, ← State.run, hevents₁, hevents₂]
  refine ⟨rfl, ?_, not_completes_of_pending h₂.inv ha.kind hstands hrun hpending₂⟩
  rcases hstands.unfinished with ⟨c, hc, hkind, hsuits⟩ | ⟨hend, -⟩
  · rw [← hrun, hc, hsuits.eq h₁.suits (hkind.trans h₁.kind.symm)]
  · cases hend

/-! ### Two runs -/

def sampleTarget (inode : ℕ) : RuntimeAccessTarget where
  device := 64768
  inode := inode
  uid := 1000
  gid := 1000
  nlink := 2
  directory := true
  baseline := baselineAcl
  granted := traversalAcl 64055

def sampleAuthority : Authority where
  namespaceId := ⟨"5f0c1c1e-0000-4000-8000-000000000000", by decide⟩
  owner := 1000
  targets := ⟨sampleTarget 1, sampleTarget 2, sampleTarget 3⟩
  qemuUid := 64055
  qemuGid := 64055
  uid_range := by decide
  gid_range := by decide
  uid_ne_owner := by decide
  shared := by
    intro role
    cases role <;> exact ⟨by decide, rfl, by decide, rfl, rfl, rfl⟩
  distinct := by decide

theorem sampleAuthority_sized : sampleAuthority.Sized := by
  intro role
  cases role <;> exact ⟨by decide, by decide, by decide, by decide⟩

def sampleEnrollment : Enrollment where
  authority := sampleAuthority
  storable := by
    refine Registry.storable_of_length_le ⟨?_, ?_, ?_, List.nodup_nil⟩ sampleAuthority_sized
      (show 0 < 10 ^ 20 by decide) (Nat.zero_le 50)
    · exact fun e he => absurd he List.not_mem_nil
    · exact fun p hp => absurd hp (Option.not_mem_none p)
    · exact fun m hm => absurd hm List.not_mem_nil

def sampleDigest : Digest :=
  ⟨"sha256:00000000000000000000000000000000000000000000000000000000000000aa", by decide⟩

/-- A run of the owner joins. -/
def sampleJoin (name : RunName) (runId : Uuid) : Attempt where
  kind := .join
  call :=
    let binding : MonitorPreActivationBinding :=
      { name, runId, ownerUid := 1000, planDigest := sampleDigest,
        expectedDefinitionProjectionDigest := sampleDigest, stage1ArtifactDigest := sampleDigest,
        domainUuid := runId, bootAttemptId := runId }
    ⟨binding, ⟨runId, .granted, binding, 64055, 64055⟩⟩

theorem sampleJoin_fits (name : RunName) (runId : Uuid) :
    (sampleJoin name runId).Fits sampleAuthority :=
  ⟨rfl, rfl, rfl, rfl, rfl, rfl⟩

/-- An interrupted attempt does not always return when it is made again. -/
theorem interrupted_blocked :
    ¬∀ (e : Enrollment) (events : List Event), (e.state.run events).running = none →
      ∀ a, (e.state.run events).world.unfinished a.runId = some a →
        Completes a (e.state.run events).world := by
  intro h
  have hne : (sampleJoin ⟨"b", by decide⟩
      ⟨"5f0c1c1e-0000-4000-8000-00000000000b", by decide⟩).runId ≠
      (sampleJoin ⟨"a", by decide⟩ ⟨"5f0c1c1e-0000-4000-8000-00000000000a", by decide⟩).runId := by
    decide
  obtain ⟨events, hrunning, hunfinished, hblocked⟩ := exists_blocked sampleEnrollment
    sampleAuthority_sized (sampleJoin_fits _ _) (sampleJoin_fits _ _) hne
  exact hblocked (h _ _ hrunning _ hunfinished)

end Palimpsest.Access
