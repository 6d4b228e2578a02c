import Palimpsest.Access.TraversalSafety

/-!
# Joining and leaving again
-/

namespace Palimpsest.Access

open Control Monitor Calls Calls.Program

variable {a : Attempt} {sure : Prop} {w : World} {m : SharedTraversalMembership}
  {point : Point} {r : Registry}

/-! ### The lists of the directories -/

theorem keeps_setAcls {target acls : PerRole ACLStructure} {roles : List Role}
    {registry : Registry} {member : SharedTraversalMembership}
    {Q : PerRole ACLStructure → World → Prop} (h : Here a w m point)
    (hregistry : w.registry = registry) (hsaved : w.saved a.runId = some member)
    (hacls : w.acls = acls)
    (hpath : ∀ k ≤ roles.length, setAll target (roles.take k) acls ∈ registry.allowed)
    (hQ : ∀ w', Here a w' m point → w'.registry = registry → w'.saved a.runId = some member →
      w'.acls = setAll target roles acls → Q (setAll target roles acls) w') :
    Keeps a sure (setAcls registry member target roles acls) Q w := by
  induction roles generalizing w acls with
  | nil => exact meets_pure (hQ w h hregistry hsaved hacls)
  | cons role roles ih =>
    have hrest : ∀ k ≤ roles.length,
        setAll target (roles.take k) (acls.set role (target.get role)) ∈ registry.allowed :=
      fun k hk => hpath (k + 1) (Nat.succ_le_succ hk)
    subst hregistry hacls
    rw [setAcls]
    refine meets_bind (keeps_verify h.inv hsaved ?_)
    split
    · next hget =>
      -- the list is as it should be, and writing it would change nothing
      rw [PerRole.set_of_get_eq hget] at hrest
      refine ih h rfl hsaved rfl hrest fun w' h' hregistry' hsaved' hacls' => ?_
      have hset : setAll target (role :: roles) w.acls = setAll target roles w.acls := by
        rw [setAll, List.foldl_cons, PerRole.set_of_get_eq hget]
        rfl
      rw [hset] at hQ
      exact hQ w' h' hregistry' hsaved' hacls'
    · have hwritten : Here a (w.apply a (.writeAcl role (target.get role))) m point :=
        h.writeAcl (hpath 1 (Nat.le_add_left 1 _))
      refine meets_bind (keeps_ask h.inv rfl hwritten.inv ?_)
      refine meets_bind (keeps_verify (w := w.apply a (.writeAcl role (target.get role)))
        hwritten.inv hsaved ?_)
      exact ih hwritten rfl hsaved rfl hrest hQ

/-! ### Joining -/

/-- A run whose intent is pending. -/
theorem Stands.pending_eq (h : Stands w m point) {phase : Phase}
    (hphase : point.pending = some phase) : w.registry.pending = some (m.withPhase phase) := by
  have hpending := h.pending
  rw [hphase] at hpending
  exact (Registry.pendingOf_eq_some.mp hpending).1

theorem Stands.isFreeFor (h : Stands w m point) (hphase : point.pending.isSome) :
    w.registry.IsFreeFor m.runId := by
  obtain ⟨phase, hphase⟩ := Option.isSome_iff_exists.mp hphase
  intro p hp
  rw [h.pending_eq hphase] at hp
  obtain rfl := Option.some.inj hp
  rfl

theorem keeps_openParents {Q : PerRole ACLStructure → World → Prop}
    (h : Here a w m .joinRecorded)
    (hQ : ∀ w', Here a w' m .joinRecorded → w'.registry = w.registry →
      w'.acls = w.registry.authority.granted → Q w'.acls w') :
    Keeps a sure (openParents w.registry (m.withPhase .joining) w.acls) Q w := by
  have hpending := h.stands.pending_eq rfl
  have hauthority : (m.withPhase .joining).authority = w.registry.authority := h.stands.authority
  rw [openParents]
  -- The first member opens the parents, from wherever an interrupted call has left them.
  split
  · next hactive =>
    have hopening : w.registry.IsOpening :=
      ⟨_, hpending, .inl ⟨rfl, List.isEmpty_iff.mp hactive⟩⟩
    obtain ⟨n, hn, hacls⟩ := (Registry.mem_allowed_of_isOpening hopening).mp h.inv.allowed
    have hpath : ∀ k ≤ 3, setAll w.registry.authority.granted
        ([.rootVolumes, .runs, .state].take k) w.acls = opened w.registry.authority (max n k) := by
      intro k hk
      rw [hacls, setAll_granted hn hk]
    rw [hauthority]
    refine keeps_setAcls h rfl h.saved rfl (fun k hk => ?_) fun w' h' hregistry _ hacls' => ?_
    · rw [hpath k hk]
      exact (Registry.mem_allowed_of_isOpening hopening).mpr ⟨max n k, Nat.max_le.mpr ⟨hn, hk⟩, rfl⟩
    · have hall := hpath 3 (Nat.le_refl 3)
      rw [Nat.max_eq_right hn] at hall
      rw [← hacls']
      exact hQ w' h' hregistry (hacls'.trans hall)
  · next hactive =>
    have hnot : ¬w.registry.IsOpening := by
      rintro ⟨p, hp, ⟨-, hnil⟩ | ⟨hphase, -⟩⟩
      · exact hactive (List.isEmpty_iff.mpr hnil)
      · rw [hpending] at hp
        obtain rfl := Option.some.inj hp
        cases hphase
    have hacls := (Registry.mem_allowed_of_not_isOpening hnot).mp h.inv.allowed
    rw [if_neg hactive] at hacls
    exact meets_pure (hQ w h rfl hacls)

/-- The member is listed. -/
theorem Here.publish (h : Here a w m .joinRecorded)
    (hacls : w.acls = w.registry.authority.granted) :
    Here a (w.apply a (.writeRegistry (w.registry.list (m.withPhase .active)))) m
      .joinPublished := by
  have hstands : Stands (w.apply a (.writeRegistry (w.registry.list (m.withPhase .active)))) m
      .joinPublished := {
    authority := h.stands.authority
    epoch := h.stands.epoch
    pending := Registry.pendingOf_of_none rfl _
    recorded := Registry.recorded_list ..
    saved := h.stands.saved
    room := nofun
    unfinished := .inl (begun_unfinished h.suits h.kind) }
  refine ⟨?_, hstands, h.suits, h.kind⟩
  refine inv_writeRegistry h.inv h.suits rfl (Nat.le_refl _)
    (fun x hx => Registry.recorded_list_of_ne hx) (h.stands.isFreeFor rfl)
    (fun p hp => absurd hp (Option.not_mem_none p)) (h.stands.room rfl) ?_ hstands
  rw [Registry.mem_allowed_of_not_isOpening (Registry.not_isOpening_of_none rfl),
    Registry.active_list rfl]
  exact hacls

theorem keeps_completeJoin {Q : SharedTraversalMembership → World → Prop}
    (h : Here a w m .joinRecorded) (hacls : w.acls = w.registry.authority.granted)
    (hQ : ∀ w', Here a w' m .joined → Q (m.withPhase .active) w') :
    Keeps a sure (completeJoin w.registry (m.withPhase .joining) w.acls) Q w := by
  have hpublished := h.publish hacls
  have hjoined : Here a (World.apply _ a (.writeMember (m.withPhase .active))) m .joined :=
    hpublished.writeMember rfl rfl rfl rfl
  refine meets_bind (keeps_verify h.inv h.saved ?_)
  refine meets_bind (keeps_writeRegistry h.inv (fun _ => h.stands.room rfl) fun _ =>
    ⟨hpublished.inv, ?_⟩)
  refine meets_bind (keeps_verify (w := w.apply a _) hpublished.inv hpublished.saved ?_)
  refine meets_bind (keeps_ask hpublished.inv rfl hjoined.inv ?_)
  refine meets_bind (keeps_verify (w := (w.apply a _).apply a _) hjoined.inv hjoined.saved ?_)
  exact meets_pure (hQ _ hjoined)

/-- An intent is made known. -/
theorem Registry.mem_allowed_of_intent {s : Registry} {acls : PerRole ACLStructure}
    (hnone : r.pending = none) (hauthority : s.authority = r.authority)
    (hactive : s.active = r.active) (h : acls ∈ r.allowed) : acls ∈ s.allowed := by
  have hacls := (mem_allowed_of_not_isOpening (not_isOpening_of_none hnone)).mp h
  by_cases hopening : s.IsOpening
  · refine (mem_allowed_of_isOpening hopening).mpr ?_
    rw [hacls, hauthority]
    split
    · exact ⟨0, Nat.zero_le 3, rfl⟩
    · exact ⟨3, Nat.le_refl 3, rfl⟩
  · rw [mem_allowed_of_not_isOpening hopening, hauthority, hactive]
    exact hacls

theorem Registry.isFreeFor_of_none {runId : Uuid} (h : r.pending = none) :
    r.IsFreeFor runId := by
  intro p hp
  rw [h] at hp
  exact absurd hp (Option.not_mem_none p)

/-- A run that has nothing to do with the namespace makes its intent known, if there is room. -/
theorem keeps_intendJoin {Q : Registry → World → Prop} (h : Inv w) (hidle : Idle w a.runId)
    (hpending : w.registry.pending = none) (hsuits : a.Suits m) (hkind : a.kind = .join)
    (hphase : m.phase = .joining) (hauthority : m.authority = w.registry.authority)
    (hepoch : w.registry.epoch ≤ m.epoch) (hroom : sure → w.registry.HasRoom m)
    (hQ : ∀ w', Here a w' m .joinIntended → w'.registry = w.registry.intend m →
      w'.acls = w.acls → Q w'.registry w') :
    Keeps a sure (intendJoin (w.view a.runId) m) Q w := by
  have hjoining : m.withPhase .joining = m := by
    rw [← hphase]
    rfl
  have hview : (w.view a.runId).registry.pending = none := hpending
  rw [intendJoin, hview]
  refine meets_bind (meets_require h (fun hs => decide_eq_true (hroom hs).member) fun hmember => ?_)
  refine meets_bind (meets_take h (fun hs => ?_) fun largest hlargest => ?_)
  · rw [Option.isSome_iff_ne_none, Registry.largest, Ne, List.argmax_eq_none,
      Registry.active_list rfl]
    exact List.cons_ne_nil _ _
  refine meets_bind (meets_require h (fun hs => ?_) fun _ => ?_)
  · exact decide_eq_true ((hroom hs).leaving largest (List.argmax_mem hlargest))
  refine meets_bind (keeps_verify h rfl ?_)
  refine meets_bind (keeps_writeRegistry h (fun hs => (hroom hs).intent) fun hstorable => ?_)
  -- The intent is all that has been written: no membership is saved for this run yet.
  have hstands : Stands (w.apply a (.writeRegistry (w.registry.intend m))) m .joinIntended := {
    authority := hauthority
    epoch := Nat.le_refl _
    pending := by
      rw [Point.pending, Option.map_some, hjoining]
      exact Registry.pendingOf_of_some rfl
    recorded := hidle.recorded m hsuits.runId_eq
    saved := by
      rw [hsuits.runId_eq]
      exact hidle.saved
    room := fun _ => of_decide_eq_true hmember
    unfinished := .inl (begun_unfinished hsuits hkind) }
  have hinv : Inv (w.apply a (.writeRegistry (w.registry.intend m))) :=
    inv_writeRegistry h hsuits rfl hepoch (fun _ _ => rfl) (Registry.isFreeFor_of_none hpending)
      (fun p hp => by
        obtain rfl := Option.some.inj hp
        rfl)
      hstorable (Registry.mem_allowed_of_intent hpending rfl rfl h.allowed) hstands
  exact ⟨hinv, meets_pure (hQ _ ⟨hinv, hstands, hsuits, hkind⟩ rfl rfl)⟩

/-- An attempt that wrote something and has not returned, and that no intent of another run keeps
from going on. -/
def Sure (a : Attempt) (w : World) : Prop :=
  w.unfinished a.runId = some a ∧ w.registry.IsFreeFor a.runId

/-- What holds where an attempt returns. -/
structure Returns (a : Attempt) (m : SharedTraversalMembership) (w : World) : Prop where
  inv : Inv (w.finished a)
  saved : w.saved a.runId = some m
  phase : m.phase = a.kind.final
  pending : w.registry.pendingOf a.runId = none

/-- The attempt is at its end. -/
theorem Here.returns (h : Here a w m point) (hend : point.isEnd)
    (hsaved : point.saved = some a.kind.final) : Returns a (m.withPhase a.kind.final) w := by
  have hpending : point.pending = none := by
    cases point <;> first | rfl | cases hend
  have hstands : Stands (w.finished a) m point := { h.stands with
    unfinished := .inr ⟨hend, by
      rw [h.suits.runId_eq]
      exact Function.update_self ..⟩ }
  refine ⟨h.inv.update ?_ h.inv.storable h.inv.allowed hstands, ?_, rfl, ?_⟩
  · exact {
      authority := rfl
      epoch := Nat.le_refl _
      recorded := fun _ _ => rfl
      pending := .inl rfl
      saved := fun _ _ => rfl
      unfinished := fun other hother => by
        rw [h.suits.runId_eq] at hother
        exact Function.update_of_ne hother .. }
  · rw [h.saved, hsaved]
    rfl
  · rw [← h.suits.runId_eq, h.stands.pending, hpending]
    rfl

/-- An attempt that has not returned is where its last write took its run. -/
theorem Sure.here (hsure : Sure a w) (h : Inv w) : ∃ m point, Here a w m point := by
  rcases h.runs a.runId with hidle | ⟨m, point, hrun, hstands⟩
  · have hunfinished := hidle.unfinished
    rw [hsure.1] at hunfinished
    cases hunfinished
  · have hunfinished := hstands.unfinished
    rw [hrun, hsure.1] at hunfinished
    rcases hunfinished with ⟨b, hb, hkind, hsuits⟩ | ⟨-, hnone⟩
    · obtain rfl := Option.some.inj hb
      exact ⟨m, point, h, hstands, hsuits, hkind⟩
    · cases hnone

/-- From the intent on nothing keeps the run from joining. -/
theorem keeps_joinRest {v : View} (h : Here a w m .joinIntended ∧ v.saved = none ∨
      Here a w m .joinRecorded ∧ v.saved = some (m.withPhase .joining))
    (hacls : v.acls = w.acls) (hkind : a.kind = .join) :
    Keeps a sure (do
      recordJoining v w.registry (m.withPhase .joining)
      let acls ← openParents w.registry (m.withPhase .joining) v.acls
      completeJoin w.registry (m.withPhase .joining) acls) (Returns a) w := by
  obtain ⟨registry, saved, acls⟩ := v
  obtain rfl : acls = w.acls := hacls
  have hrest : ∀ w', Here a w' m .joinRecorded → w'.registry = w.registry → w'.acls = w.acls →
      Keeps a sure (do
        let acls ← openParents w.registry (m.withPhase .joining) w.acls
        completeJoin w.registry (m.withPhase .joining) acls) (Returns a) w' := by
    intro w' h' hregistry hacls'
    rw [← hregistry, ← hacls']
    refine meets_bind (keeps_openParents h' fun w'' h'' hregistry' hacls'' => ?_)
    rw [← hregistry'] at hacls'' ⊢
    refine keeps_completeJoin h'' hacls'' fun x hx => ?_
    have hreturns := hx.returns rfl (by rw [hkind]; rfl)
    rwa [hkind] at hreturns
  rcases h with ⟨h, hsaved⟩ | ⟨h, hsaved⟩
  · obtain rfl : saved = none := hsaved
    have hrecorded : Here a (w.apply a (.writeMember (m.withPhase .joining))) m .joinRecorded :=
      h.writeMember rfl rfl rfl rfl
    refine meets_bind (meets_bind (keeps_verify h.inv h.saved ?_))
    exact keeps_ask h.inv rfl hrecorded.inv (hrest _ hrecorded rfl rfl)
  · obtain rfl : saved = some _ := hsaved
    exact meets_bind (meets_pure (hrest w h rfl rfl))

theorem of_newMember {c : Call} (h : newMember c r = some m) :
    m.authority = r.authority ∧ r.epoch ≤ m.epoch ∧ m.phase = .joining := by
  obtain ⟨_, hnew⟩ := Option.dite_none_right_eq_some.mp h
  obtain rfl := Option.some.inj hnew
  exact ⟨rfl, Nat.le_add_right .., rfl⟩

theorem epoch_le_of_newMember {c : Call} (h : newMember c r = some m) : m.epoch ≤ r.epoch + 1 := by
  obtain ⟨_, hnew⟩ := Option.dite_none_right_eq_some.mp h
  obtain rfl := Option.some.inj hnew
  refine Nat.add_le_add_left ?_ _
  split
  · exact Nat.le_refl 1
  · exact Nat.zero_le 1

theorem Attempt.Suits.of_withPhase {phase : Phase} (h : a.Suits (m.withPhase phase)) : a.Suits m :=
  ⟨h.binding, h.accessId, h.accessBinding, h.qemuUid, h.qemuGid, h.phase⟩

/-- An attempt that is sure to return finds its run in the middle of the operation, or at the end
of it. -/
theorem Sure.last_eq (hsure : Sure a w) (hstands : Stands w m point) (hrun : m.runId = a.runId) :
    point.last = a.kind := by
  have hunfinished := hstands.unfinished
  rw [hrun, hsure.1] at hunfinished
  rcases hunfinished with ⟨b, hb, hkind, -⟩ | ⟨-, hnone⟩
  · obtain rfl := Option.some.inj hb
    exact hkind.symm
  · cases hnone

/-- No intent is pending, if none of the run is and none of another one. -/
theorem Sure.pending_eq_none (hsure : Sure a w) (hstands : Stands w m point)
    (hrun : m.runId = a.runId) (hpoint : point.pending = none) : w.registry.pending = none := by
  cases hp : w.registry.pending with
  | none => rfl
  | some p =>
    have hown : p.runId = m.runId := (hsure.2 p hp).trans hrun.symm
    have hpending := hstands.pending
    rw [← hown, Registry.pendingOf_of_some hp, hpoint] at hpending
    cases hpending

/-- A run without a membership joins. -/
theorem keeps_joinAs_of_idle (h : Inv w) (hkind : a.kind = .join)
    (hmember : joiner a.call (w.view a.runId) = some m) (hsuits : a.Suits m)
    (hidle : Idle w a.runId) (hroom : sure → w.registry.HasRoom m) :
    Keeps a sure (joinAs (w.view a.runId) m) (Returns a) w := by
  have hpending : w.registry.pending = none := by
    cases hp : w.registry.pending with
    | none => rfl
    | some p =>
      -- the membership would be that of another run
      have hjoiner : joiner a.call (w.view a.runId) = some p := by
        rw [joiner, World.view, hidle.saved, Option.none_or, hp, Option.some_or]
      obtain rfl := Option.some.inj (hjoiner.symm.trans hmember)
      have hnone := hidle.pending
      rw [← hsuits.runId_eq, Registry.pendingOf_of_some hp] at hnone
      cases hnone
  rw [joiner, World.view, hidle.saved, Option.none_or, hpending, Option.none_or] at hmember
  obtain ⟨hauthority, hepoch, hphase⟩ := of_newMember hmember
  have hjoining : m.withPhase .joining = m := by
    rw [← hphase]
    rfl
  have hactive : m.phase ≠ .active := by
    rw [hphase]
    decide
  have hrecorded : (w.view a.runId).registry.recorded m = none :=
    hidle.recorded m hsuits.runId_eq
  rw [joinAs, if_neg hactive, hrecorded]
  refine meets_bind (keeps_intendJoin h hidle hpending hsuits hkind hphase hauthority hepoch hroom
    fun w' h' _ hacls => ?_)
  have hopen : Here a w' m .joinIntended ∧ (w.view a.runId).saved = none := ⟨h', hidle.saved⟩
  rw [← hjoining]
  exact keeps_joinRest (.inl hopen) hacls.symm hkind

theorem joining_ne_active (m : SharedTraversalMembership) :
    (m.withPhase .joining).phase ≠ .active := by
  rw [SharedTraversalMembership.withPhase_phase]
  decide

/-- A run whose intent is pending goes on. -/
theorem keeps_joinAs_of_pending (hkind : a.kind = .join)
    (h : Here a w m .joinIntended ∨ Here a w m .joinRecorded) :
    Keeps a sure (joinAs (w.view a.runId) (m.withPhase .joining)) (Returns a) w := by
  have hpending : (w.view a.runId).registry.pending = some (m.withPhase .joining) := by
    rcases h with h | h <;> exact h.stands.pending_eq rfl
  have hrecorded : (w.view a.runId).registry.recorded (m.withPhase .joining) = none := by
    rcases h with h | h <;> exact h.stands.recorded
  have hinv : Inv w := by
    rcases h with h | h <;> exact h.inv
  rw [joinAs, if_neg (joining_ne_active _), hrecorded]
  refine meets_bind ?_
  rw [intendJoin, hpending]
  refine meets_bind (meets_require hinv (fun _ => decide_eq_true rfl) fun _ => ?_)
  refine meets_pure (keeps_joinRest ?_ rfl hkind)
  exact h.imp (fun h => ⟨h, h.saved⟩) fun h => ⟨h, h.saved⟩

/-- **The run joins with its membership.** -/
theorem keeps_joinAs (h : Inv w) (hkind : a.kind = .join)
    (hmember : joiner a.call (w.view a.runId) = some m) (hsuits : a.Suits m)
    (hphase : m.phase = .joining ∨ m.phase = .active) :
    Keeps a (Sure a w) (joinAs (w.view a.runId) m) (Returns a) w := by
  rcases h.runs a.runId with hidle | ⟨x, point, hrun, hstands⟩
  · refine keeps_joinAs_of_idle h hkind hmember hsuits hidle fun hsure => ?_
    have hunfinished := hsure.1
    rw [hidle.unfinished] at hunfinished
    cases hunfinished
  have hsaved : w.saved a.runId = point.saved.map x.withPhase := hrun ▸ hstands.saved
  rw [joiner, World.view, hsaved] at hmember
  cases point with
  | joinIntended =>
    rw [show w.registry.pending = some (x.withPhase .joining) from hstands.pending_eq rfl]
      at hmember
    obtain rfl := Option.some.inj hmember
    exact keeps_joinAs_of_pending hkind (.inl ⟨h, hstands, hsuits.of_withPhase, hkind⟩)
  | joinRecorded =>
    obtain rfl := Option.some.inj hmember
    exact keeps_joinAs_of_pending hkind (.inr ⟨h, hstands, hsuits.of_withPhase, hkind⟩)
  | joinPublished =>
    obtain rfl := Option.some.inj hmember
    have hhere : Here a w x .joinPublished := ⟨h, hstands, hsuits.of_withPhase, hkind⟩
    have hjoined : Here a (w.apply a (.writeMember (x.withPhase .active))) x .joined :=
      hhere.writeMember rfl rfl rfl rfl
    have hrecorded : (w.view a.runId).registry.recorded (x.withPhase .joining) =
      some (x.withPhase .active) := hstands.recorded
    rw [joinAs, if_neg (joining_ne_active _), hrecorded]
    refine meets_bind (meets_require h (fun hsure => ?_) fun _ => ?_)
    · have hnone : (w.view a.runId).registry.pending = none :=
        hsure.pending_eq_none hstands hrun rfl
      simp [hnone]
    refine meets_bind (keeps_ask h rfl hjoined.inv ?_)
    refine meets_bind (keeps_verify (w := w.apply a _) hjoined.inv hjoined.saved ?_)
    have hreturns := hjoined.returns rfl (by rw [hkind]; rfl)
    rw [hkind] at hreturns
    exact meets_pure hreturns
  | joined =>
    obtain rfl := Option.some.inj hmember
    have hjoined : Here a w x .joined := ⟨h, hstands, hsuits.of_withPhase, hkind⟩
    have hrecorded : (w.view a.runId).registry.recorded (x.withPhase .active) =
      some (x.withPhase .active) := hstands.recorded
    rw [joinAs, if_pos (x.withPhase_phase .active)]
    refine meets_bind (meets_require h (fun hsure => ?_) fun _ => ?_)
    · have hnone : (w.view a.runId).registry.pending = none :=
        hsure.pending_eq_none hstands hrun rfl
      simp [hnone, hrecorded]
    have hreturns := hjoined.returns rfl (by rw [hkind]; rfl)
    rw [hkind] at hreturns
    exact meets_pure hreturns
  | leaveIntended =>
    -- an intent to leave is pending
    obtain rfl := Option.some.inj hmember
    have hpending : (w.view a.runId).registry.pending = some (x.withPhase .leaving) :=
      hstands.pending_eq rfl
    rw [joinAs, if_pos (x.withPhase_phase .active)]
    refine meets_bind (meets_require h (fun hsure => ?_) fun hnone => ?_)
    · have hlast := hsure.last_eq hstands hrun
      rw [hkind] at hlast
      cases hlast
    · rw [hpending] at hnone
      simp at hnone
  | leaveRecorded | leavePublished | left | compacted =>
    obtain rfl := Option.some.inj hmember
    rcases hphase with hphase | hphase <;> cases hphase

/-- The membership with which an unfinished attempt goes on. -/
theorem joiner_of_here (h : Here a w m point) (hkind : a.kind = .join) :
    ∃ phase, (phase = .joining ∨ phase = .active) ∧
      joiner a.call (w.view a.runId) = some (m.withPhase phase) := by
  have hsaved := h.saved
  have hlast := h.kind
  rw [hkind] at hlast
  rw [joiner, World.view, hsaved]
  cases point with
  | joinIntended =>
    refine ⟨.joining, .inl rfl, ?_⟩
    rw [show w.registry.pending = some (m.withPhase .joining) from h.stands.pending_eq rfl]
    rfl
  | joinRecorded | joinPublished => exact ⟨.joining, .inl rfl, rfl⟩
  | joined => exact ⟨.active, .inr rfl, rfl⟩
  | leaveIntended | leaveRecorded | leavePublished | left | compacted => cases hlast

/-- Whatever a run joins with is of the namespace. -/
theorem joiner_authority (h : Inv w) (hmember : joiner a.call (w.view a.runId) = some m) :
    m.authority = w.registry.authority := by
  rw [joiner, World.view] at hmember
  rcases Option.or_eq_some_iff.mp hmember with hsaved | ⟨-, hmember⟩
  · rcases h.runs a.runId with hidle | ⟨x, point, hrun, hstands⟩
    · rw [hidle.saved] at hsaved
      cases hsaved
    · rw [← hrun, hstands.saved] at hsaved
      obtain ⟨phase, -, rfl⟩ := Option.map_eq_some_iff.mp hsaved
      exact hstands.authority
  · rcases Option.or_eq_some_iff.mp hmember with hpending | ⟨-, hnew⟩
    · refine (h.storable.1.authority m (List.mem_append_right _ ?_)).1
      rw [show w.registry.pending = some m from hpending]
      exact List.mem_singleton_self m
    · exact (of_newMember hnew).1

/-- What is checked before a run joins with its membership. -/
theorem keeps_join_of {Q : SharedTraversalMembership → World → Prop} (h : Inv w)
    (hkind : a.kind = .join)
    (hsure : sure → ∃ m, joiner a.call (w.view a.runId) = some m ∧ a.Suits m ∧
      (m.phase = .joining ∨ m.phase = .active))
    (hrest : ∀ m, joiner a.call (w.view a.runId) = some m → a.Suits m →
      (m.phase = .joining ∨ m.phase = .active) → Keeps a sure (joinAs (w.view a.runId) m) Q w) :
    Keeps a sure (join a.call (w.view a.runId)) Q w := by
  rw [join]
  refine meets_bind (meets_require h (fun hs => ?_) fun haccess => ?_)
  · obtain ⟨m, -, hsuits, -⟩ := hsure hs
    have hphase := hsuits.phase
    rw [hkind] at hphase
    simp [hphase, hsuits.accessBinding]
  refine meets_bind (keeps_authority h ?_)
  refine meets_bind (meets_require h (fun hs => ?_) fun hprincipal => ?_)
  · obtain ⟨m, hjoiner, hsuits, -⟩ := hsure hs
    have hauthority : m.authority = (w.view a.runId).registry.authority :=
      joiner_authority h hjoiner
    simp [← hauthority, hsuits.qemuUid, hsuits.qemuGid]
  refine meets_bind (meets_take h (fun hs => ?_) fun m hmember => ?_)
  · obtain ⟨m, hjoiner, -⟩ := hsure hs
    rw [hjoiner]
    rfl
  have hauthority : m.authority = (w.view a.runId).registry.authority := joiner_authority h hmember
  refine meets_bind (meets_require h (fun hs => ?_) fun hbound => ?_)
  · obtain ⟨x, hjoiner, hsuits, hphase⟩ := hsure hs
    obtain rfl := Option.some.inj (hjoiner.symm.trans hmember)
    rcases hphase with hphase | hphase <;>
      simp [hsuits.binding, hsuits.accessId, hauthority, hphase]
  refine meets_bind (meets_require h (fun _ => decide_eq_true h.allowed) fun _ => ?_)
  refine meets_bind (keeps_verify h rfl ?_)
  simp only [Bool.and_eq_true, Bool.or_eq_true, decide_eq_true_eq] at haccess hprincipal hbound
  -- What has been checked is that the membership is that of the caller.
  refine hrest m hmember ⟨hbound.1.1.1, hbound.1.1.2, haccess.2, ?_, ?_, ?_⟩ hbound.2
  · rw [hauthority]
    exact hprincipal.1
  · rw [hauthority]
    exact hprincipal.2
  · rw [hkind]
    exact haccess.1

/-- **Joining keeps the invariant, and goes on where it was interrupted.** -/
theorem keeps_join (h : Inv w) (hkind : a.kind = .join) :
    Keeps a (Sure a w) (join a.call (w.view a.runId)) (Returns a) w := by
  refine keeps_join_of h hkind (fun hsure => ?_) fun m hmember hsuits hphase =>
    keeps_joinAs h hkind hmember hsuits hphase
  obtain ⟨m, point, hhere⟩ := hsure.here h
  obtain ⟨phase, hphase, hjoiner⟩ := joiner_of_here hhere hkind
  have hsuits := hhere.suits
  exact ⟨_, hjoiner, ⟨hsuits.binding, hsuits.accessId, hsuits.accessBinding, hsuits.qemuUid,
    hsuits.qemuGid, hsuits.phase⟩, hphase⟩

/-! ### Leaving -/

theorem keeps_recordLeft (h : Here a w m .leavePublished) (hkind : a.kind = .leave)
    (hnone : w.registry.pending = none) :
    Keeps a sure (recordLeft w.registry (m.withPhase .leaving) w.acls) (Returns a) w := by
  have hleft : Here a (w.apply a (.writeMember (m.withPhase .left))) m .left :=
    h.writeMember rfl rfl rfl rfl
  have hrecorded : w.registry.recorded (m.withPhase .leaving) =
    some ((m.withPhase .leaving).withPhase .left) := h.stands.recorded
  have hstorable := Registry.storable_compact h.inv.storable hrecorded
  have hstands : Stands ((w.apply a (.writeMember (m.withPhase .left))).apply a
      (.writeRegistry (w.registry.compact (m.withPhase .leaving)))) m .compacted := {
    authority := h.stands.authority
    epoch := h.stands.epoch
    pending := Registry.pendingOf_of_none hnone _
    recorded := Registry.recorded_compact ..
    saved := hleft.stands.saved
    room := nofun
    unfinished := .inl (begun_unfinished h.suits h.kind) }
  -- The run is no longer active, so without it the same structures are allowed.
  have hallowed : w.acls ∈ (w.registry.compact (m.withPhase .leaving)).allowed := by
    have hacls := (Registry.mem_allowed_of_not_isOpening
      (Registry.not_isOpening_of_none hnone)).mp h.inv.allowed
    have hactive := (Registry.active_perm_of_ne hrecorded (by simp)).isEmpty_eq
    have hnone' : (w.registry.compact (m.withPhase .leaving)).pending = none := hnone
    refine (Registry.mem_allowed_of_not_isOpening (Registry.not_isOpening_of_none hnone')).mpr ?_
    rw [hacls, hactive]
    rfl
  have hinv : Inv ((w.apply a (.writeMember (m.withPhase .left))).apply a
      (.writeRegistry (w.registry.compact (m.withPhase .leaving)))) :=
    inv_writeRegistry hleft.inv h.suits rfl (Nat.le_refl _)
      (fun x hx => Registry.recorded_compact_of_ne hx) (Registry.isFreeFor_of_none hnone)
      (Registry.isFreeFor_of_none hnone) hstorable hallowed hstands
  have hcompacted : Here a _ m .compacted := ⟨hinv, hstands, h.suits, h.kind⟩
  refine meets_bind (keeps_ask h.inv rfl hleft.inv ?_)
  refine meets_bind (keeps_verify (w := w.apply a _) hleft.inv hleft.saved ?_)
  refine meets_bind (keeps_writeRegistry hleft.inv (fun _ => hstorable) fun _ => ⟨hinv, ?_⟩)
  refine meets_bind (keeps_verify (w := (w.apply a _).apply a _) hinv hcompacted.saved ?_)
  have hreturns := hcompacted.returns rfl (by rw [hkind]; rfl)
  rw [hkind] at hreturns
  exact meets_pure hreturns

/-- The lists that the directories have without a member. -/
def aclsWithout (r : Registry) (m : SharedTraversalMembership) : PerRole ACLStructure :=
  if (r.compact m).active.isEmpty then r.authority.baseline else r.authority.granted

theorem keeps_closeParents {Q : PerRole ACLStructure → World → Prop}
    (h : Here a w m .leaveRecorded)
    (hQ : ∀ w', Here a w' m .leaveRecorded → w'.registry = w.registry →
      w'.acls = aclsWithout w.registry m → Q w'.acls w') :
    Keeps a sure (closeParents w.registry (m.withPhase .leaving) w.acls) Q w := by
  have hpending := h.stands.pending_eq rfl
  have hauthority : (m.withPhase .leaving).authority = w.registry.authority := h.stands.authority
  have hrecorded : w.registry.recorded m = some (m.withPhase .active) := h.stands.recorded
  have hlength := (Registry.active_perm hrecorded rfl).length_eq
  rw [List.length_cons] at hlength
  rw [closeParents, aclsWithout] at *
  -- The last member closes the parents one after the other.
  split
  · next hactive =>
    have hopening : w.registry.IsOpening := ⟨_, hpending, .inr ⟨rfl, hactive⟩⟩
    obtain ⟨n, hn, hacls⟩ := (Registry.mem_allowed_of_isOpening hopening).mp h.inv.allowed
    have hpath : ∀ k ≤ 3, setAll w.registry.authority.baseline
        ([.state, .runs, .rootVolumes].take k) w.acls =
          opened w.registry.authority (min n (3 - k)) := by
      intro k hk
      rw [hacls, setAll_baseline hn hk]
    have hempty : (w.registry.compact m).active = [] := List.length_eq_zero_iff.mp (by omega)
    rw [hauthority]
    refine keeps_setAcls h rfl h.saved rfl (fun k hk => ?_) fun w' h' hregistry _ hacls' => ?_
    · rw [hpath k hk]
      exact (Registry.mem_allowed_of_isOpening hopening).mpr
        ⟨min n (3 - k), Nat.le_trans (Nat.min_le_left ..) hn, rfl⟩
    · have hall := hpath 3 (Nat.le_refl 3)
      rw [Nat.sub_self, Nat.min_zero] at hall
      rw [← hacls']
      refine hQ w' h' hregistry ?_
      rw [hempty]
      exact hacls'.trans hall
  -- Others are still inside, and the parents stay open.
  · next hactive =>
    have hnot : ¬w.registry.IsOpening := by
      rintro ⟨p, hp, ⟨hphase, -⟩ | ⟨-, hone⟩⟩
      · rw [hpending] at hp
        obtain rfl := Option.some.inj hp
        cases hphase
      · exact hactive hone
    have hacls := (Registry.mem_allowed_of_not_isOpening hnot).mp h.inv.allowed
    have hne : ∀ l : List SharedTraversalMembership, l.length ≠ 0 → ¬l.isEmpty := by
      intro l hl hempty
      exact hl (List.length_eq_zero_iff.mpr (List.isEmpty_iff.mp hempty))
    rw [if_neg (hne _ (by omega))] at hacls
    refine meets_pure (hQ w h rfl ?_)
    rw [if_neg (hne _ (by omega))]
    exact hacls

theorem keeps_completeLeave (h : Here a w m .leaveRecorded) (hkind : a.kind = .leave)
    (hacls : w.acls = aclsWithout w.registry m) :
    Keeps a sure (completeLeave w.registry (m.withPhase .leaving) w.acls) (Returns a) w := by
  have hstorable : (w.registry.list (m.withPhase .left)).Storable :=
    Registry.storable_list_left (x := m.withPhase .leaving) h.inv.storable
      (h.stands.pending_eq rfl) rfl
  have hstands : Stands (w.apply a (.writeRegistry (w.registry.list (m.withPhase .left)))) m
      .leavePublished := {
    authority := h.stands.authority
    epoch := h.stands.epoch
    pending := Registry.pendingOf_of_none rfl _
    recorded := Registry.recorded_list ..
    saved := h.stands.saved
    room := nofun
    unfinished := .inl (begun_unfinished h.suits h.kind) }
  have hinv : Inv (w.apply a (.writeRegistry (w.registry.list (m.withPhase .left)))) :=
    inv_writeRegistry h.inv h.suits rfl (Nat.le_refl _)
      (fun x hx => Registry.recorded_list_of_ne hx) (h.stands.isFreeFor rfl)
      (fun p hp => absurd hp (Option.not_mem_none p)) hstorable
      (by
        rw [Registry.mem_allowed_of_not_isOpening (Registry.not_isOpening_of_none rfl),
          Registry.active_list_of_ne (by simp)]
        exact hacls) hstands
  have hpublished : Here a _ m .leavePublished := ⟨hinv, hstands, h.suits, h.kind⟩
  refine meets_bind (keeps_verify h.inv h.saved ?_)
  refine meets_bind (keeps_writeRegistry h.inv (fun _ => hstorable) fun _ => ⟨hinv, ?_⟩)
  refine meets_bind (keeps_verify (w := w.apply a _) hinv hpublished.saved ?_)
  exact keeps_recordLeft (w := w.apply a _) hpublished hkind rfl

/-- From the intent on nothing keeps the run from leaving. -/
theorem keeps_leaveRest {phase : Phase} {v : View}
    (h : Here a w m .leaveIntended ∧ phase = .active ∨
      Here a w m .leaveRecorded ∧ phase = .leaving)
    (hacls : v.acls = w.acls) (hkind : a.kind = .leave) :
    Keeps a sure (do
      recordLeaving v w.registry (m.withPhase phase)
      let acls ← closeParents w.registry (m.withPhase .leaving) v.acls
      completeLeave w.registry (m.withPhase .leaving) acls) (Returns a) w := by
  obtain ⟨registry, saved, acls⟩ := v
  obtain rfl : acls = w.acls := hacls
  have hrest : ∀ w', Here a w' m .leaveRecorded → w'.registry = w.registry → w'.acls = w.acls →
      Keeps a sure (do
        let acls ← closeParents w.registry (m.withPhase .leaving) w.acls
        completeLeave w.registry (m.withPhase .leaving) acls) (Returns a) w' := by
    intro w' h' hregistry hacls'
    rw [← hregistry, ← hacls']
    refine meets_bind (keeps_closeParents h' fun w'' h'' hregistry' hacls'' => ?_)
    rw [← hregistry'] at hacls'' ⊢
    exact keeps_completeLeave h'' hkind hacls''
  rcases h with ⟨h, rfl⟩ | ⟨h, rfl⟩
  · have hrecorded : Here a (w.apply a (.writeMember (m.withPhase .leaving))) m .leaveRecorded :=
      h.writeMember rfl rfl rfl rfl
    rw [recordLeaving, if_pos (m.withPhase_phase .active)]
    refine meets_bind (meets_bind (keeps_verify h.inv h.saved ?_))
    exact keeps_ask h.inv rfl hrecorded.inv (hrest _ hrecorded rfl rfl)
  · rw [recordLeaving, if_neg (by simp)]
    exact meets_bind (meets_pure (hrest w h rfl rfl))

/-- A member makes its intent to leave known. -/
theorem keeps_intendLeave {Q : Registry → World → Prop} (h : Inv w) (hstands : Stands w m .joined)
    (hsuits : a.Suits m) (hkind : a.kind = .leave) (hsure : ¬sure)
    (hQ : ∀ w', Here a w' m .leaveIntended → w'.acls = w.acls → Q w'.registry w') :
    Keeps a sure (intendLeave (w.view a.runId) (m.withPhase .active)) Q w := by
  have hsaved : w.saved a.runId = some (m.withPhase .active) := hsuits.runId_eq ▸ hstands.saved
  cases hpending : w.registry.pending with
  | none =>
    have hview : (w.view a.runId).registry.pending = none := hpending
    rw [intendLeave, hview]
    refine meets_bind (keeps_verify h hsaved ?_)
    refine meets_bind (keeps_writeRegistry h (fun hs => absurd hs hsure) fun hstorable => ?_)
    have hleaving : Stands (w.apply a (.writeRegistry { w.registry with
        pending := some (m.withPhase .leaving) })) m .leaveIntended := {
      authority := hstands.authority
      epoch := hstands.epoch
      pending := Registry.pendingOf_of_some (m := m.withPhase .leaving) rfl
      recorded := hstands.recorded
      saved := hstands.saved
      room := nofun
      unfinished := .inl (begun_unfinished hsuits hkind) }
    have hinv : Inv (w.apply a (.writeRegistry { w.registry with
        pending := some (m.withPhase .leaving) })) :=
      inv_writeRegistry h hsuits rfl (Nat.le_refl _) (fun _ _ => rfl)
        (Registry.isFreeFor_of_none hpending)
        (fun p hp => by
          obtain rfl := Option.some.inj hp
          rfl)
        hstorable (Registry.mem_allowed_of_intent hpending rfl rfl h.allowed) hleaving
    exact ⟨hinv, meets_pure (hQ _ ⟨hinv, hleaving, hsuits, hkind⟩ rfl)⟩
  | some p =>
    have hview : (w.view a.runId).registry.pending = some p := hpending
    rw [intendLeave, hview]
    refine meets_bind (meets_require h (fun hs => absurd hs hsure) fun hp => ?_)
    -- the pending intent would be one of the run
    obtain rfl := of_decide_eq_true hp
    have hown := Registry.pendingOf_of_some hpending
    have hnone : some _ = none := hown.symm.trans hstands.pending
    cases hnone

/-- A run whose intent is pending goes on. -/
theorem keeps_leaveAs_of_pending {phase : Phase} (hkind : a.kind = .leave)
    (h : Here a w m .leaveIntended ∧ phase = .active ∨
      Here a w m .leaveRecorded ∧ phase = .leaving) :
    Keeps a sure (leaveAs (w.view a.runId) (m.withPhase phase)) (Returns a) w := by
  have hpending : (w.view a.runId).registry.pending = some (m.withPhase .leaving) := by
    rcases h with ⟨h, -⟩ | ⟨h, -⟩ <;> exact h.stands.pending_eq rfl
  have hrecorded : (w.view a.runId).registry.recorded (m.withPhase phase) =
      some (m.withPhase .active) := by
    rcases h with ⟨h, -⟩ | ⟨h, -⟩ <;> exact h.stands.recorded
  have hinv : Inv w := by
    rcases h with ⟨h, -⟩ | ⟨h, -⟩ <;> exact h.inv
  have hphase : (m.withPhase phase).phase ≠ .left := by
    rcases h with ⟨-, rfl⟩ | ⟨-, rfl⟩ <;> simp
  rw [leaveAs, if_neg hphase, hpending, hrecorded, if_neg (by simp)]
  refine meets_bind (meets_require hinv (fun _ => decide_eq_true rfl) fun _ => ?_)
  refine meets_bind ?_
  rw [intendLeave, hpending]
  refine meets_bind (meets_require hinv (fun _ => decide_eq_true rfl) fun _ => ?_)
  exact meets_pure (keeps_leaveRest h rfl hkind)

/-- A run that left has nothing to do any more. -/
theorem keeps_leaveAs_of_left (hkind : a.kind = .leave)
    (h : Here a w m .left ∨ Here a w m .compacted) :
    Keeps a sure (leaveAs (w.view a.runId) (m.withPhase .left)) (Returns a) w := by
  have hrecorded : ((w.view a.runId).registry.recorded (m.withPhase .left)).all
      (· = m.withPhase .left) = true := by
    rcases h with h | h
    · rw [show (w.view a.runId).registry.recorded (m.withPhase .left) =
        some (m.withPhase .left) from h.stands.recorded]
      simp
    · rw [show (w.view a.runId).registry.recorded (m.withPhase .left) = none from h.stands.recorded]
      rfl
  have hauthority : (m.withPhase .left).authority = (w.view a.runId).registry.authority := by
    rcases h with h | h <;> exact h.stands.authority
  have hepoch : (m.withPhase .left).epoch ≤ (w.view a.runId).registry.epoch := by
    rcases h with h | h <;> exact h.stands.epoch
  have hinv : Inv w := by
    rcases h with h | h <;> exact h.inv
  have hreturns : Returns a (m.withPhase a.kind.final) w := by
    rcases h with h | h <;> exact h.returns rfl (by rw [hkind]; rfl)
  rw [leaveAs, if_pos (m.withPhase_phase .left)]
  refine meets_bind (meets_require hinv ?_ fun _ => ?_)
  · intro _
    rw [hrecorded, hauthority]
    simp only [decide_true, Bool.and_self, Bool.true_and]
    exact decide_eq_true hepoch
  · rw [hkind] at hreturns
    exact meets_pure hreturns

/-- **The run leaves with its membership.** -/
theorem keeps_leaveAs (h : Inv w) (hkind : a.kind = .leave)
    (hmember : w.saved a.runId = some m) (hsuits : a.Suits m)
    (hphase : m.phase ≠ .joining) :
    Keeps a (Sure a w) (leaveAs (w.view a.runId) m) (Returns a) w := by
  rcases h.runs a.runId with hidle | ⟨x, point, hrun, hstands⟩
  · rw [hidle.saved] at hmember
    cases hmember
  rw [← hrun, hstands.saved] at hmember
  cases point with
  | joinIntended => cases hmember
  | joinRecorded | joinPublished =>
    obtain rfl := Option.some.inj hmember
    exact absurd rfl hphase
  | joined =>
    obtain rfl := Option.some.inj hmember
    have hsure : ¬Sure a w := fun hsure => by
      have hlast := hsure.last_eq hstands hrun
      rw [hkind] at hlast
      cases hlast
    have hrecorded : (w.view a.runId).registry.recorded (x.withPhase .active) =
      some (x.withPhase .active) := hstands.recorded
    rw [leaveAs, if_neg (by simp), hrecorded, if_neg (by simp)]
    refine meets_bind (meets_require h (fun _ => decide_eq_true rfl) fun _ => ?_)
    refine meets_bind (keeps_intendLeave h hstands hsuits.of_withPhase hkind hsure
      fun w' h' hacls => ?_)
    exact keeps_leaveRest (.inl ⟨h', rfl⟩) hacls.symm hkind
  | leaveIntended =>
    obtain rfl := Option.some.inj hmember
    exact keeps_leaveAs_of_pending hkind (.inl ⟨⟨h, hstands, hsuits.of_withPhase, hkind⟩, rfl⟩)
  | leaveRecorded =>
    obtain rfl := Option.some.inj hmember
    exact keeps_leaveAs_of_pending hkind (.inr ⟨⟨h, hstands, hsuits.of_withPhase, hkind⟩, rfl⟩)
  | leavePublished =>
    obtain rfl := Option.some.inj hmember
    have hhere : Here a w x .leavePublished := ⟨h, hstands, hsuits.of_withPhase, hkind⟩
    have hrecorded : (w.view a.runId).registry.recorded (x.withPhase .leaving) =
      some (x.withPhase .left) := hstands.recorded
    rw [leaveAs, if_neg (by simp), hrecorded]
    split
    · next hnone => exact keeps_recordLeft hhere hkind hnone.2
    · next hpending =>
      -- the intent of another run is pending
      refine meets_bind (meets_require h (fun hsure => ?_) fun hactive => ?_)
      · exact absurd ⟨rfl, hsure.pending_eq_none hstands hrun rfl⟩ hpending
      · simp at hactive
  | left =>
    obtain rfl := Option.some.inj hmember
    exact keeps_leaveAs_of_left hkind (.inl ⟨h, hstands, hsuits.of_withPhase, hkind⟩)
  | compacted =>
    obtain rfl := Option.some.inj hmember
    exact keeps_leaveAs_of_left hkind (.inr ⟨h, hstands, hsuits.of_withPhase, hkind⟩)

/-- **Leaving keeps the invariant, and goes on where it was interrupted.** -/
theorem keeps_leave (h : Inv w) (hkind : a.kind = .leave) :
    Keeps a (Sure a w) (leave a.call (w.view a.runId)) (Returns a) w := by
  -- Where it was interrupted, the saved membership is on its way out or still active.
  have hsaved_of_sure : Sure a w → ∃ m point phase, Here a w m point ∧
      w.saved a.runId = some (m.withPhase phase) ∧ phase ≠ .joining := by
    intro hsure
    obtain ⟨m, point, hhere⟩ := hsure.here h
    have hlast := hhere.kind
    rw [hkind] at hlast
    have hsaved := hhere.saved
    cases point with
    | joinIntended | joinRecorded | joinPublished | joined => cases hlast
    | leaveIntended => exact ⟨m, _, .active, hhere, hsaved, by decide⟩
    | leaveRecorded | leavePublished => exact ⟨m, _, .leaving, hhere, hsaved, by decide⟩
    | left | compacted => exact ⟨m, _, .left, hhere, hsaved, by decide⟩
  rw [leave]
  refine meets_bind (meets_take h (fun hsure => ?_) fun m hmember => ?_)
  · obtain ⟨m, point, phase, -, hsaved, -⟩ := hsaved_of_sure hsure
    exact Option.isSome_iff_exists.mpr ⟨_, hsaved⟩
  have hauthority : m.authority = w.registry.authority := by
    refine joiner_authority (a := a) h ?_
    rw [joiner, show (w.view a.runId).saved = some m from hmember, Option.some_or]
  have hview : m.authority = (w.view a.runId).registry.authority := hauthority
  refine meets_bind (meets_require h (fun hsure => ?_) fun hbound => ?_)
  · obtain ⟨x, point, phase, hhere, hsaved, hphase⟩ := hsaved_of_sure hsure
    obtain rfl := Option.some.inj (hsaved.symm.trans hmember)
    -- A membership of this very call passes every check.
    have hbinding : (x.withPhase phase).binding = a.call.binding := hhere.suits.binding
    have hid : (x.withPhase phase).accessId = a.call.access.accessId := hhere.suits.accessId
    have huid : (w.view a.runId).registry.authority.qemuUid = a.call.access.qemuUid :=
      hview ▸ hhere.suits.qemuUid
    have hgid : (w.view a.runId).registry.authority.qemuGid = a.call.access.qemuGid :=
      hview ▸ hhere.suits.qemuGid
    have haccess := hhere.suits.phase
    rw [hkind] at haccess
    simp only [hview, hbinding, hid, huid, hgid, haccess, hhere.suits.accessBinding,
      SharedTraversalMembership.withPhase_phase]
    cases phase with
    | joining => exact absurd rfl hphase
    | active | leaving | left => rfl
  refine meets_bind (keeps_authority h ?_)
  refine meets_bind (meets_require h (fun _ => decide_eq_true h.allowed) fun _ => ?_)
  refine meets_bind (keeps_verify h rfl ?_)
  simp only [Bool.and_eq_true, Bool.or_eq_true, decide_eq_true_eq] at hbound
  obtain ⟨⟨⟨⟨⟨⟨⟨⟨hbinding, hphase⟩, haccess⟩, hrevoked⟩, hid⟩, huid⟩, hgid⟩, -⟩, -⟩ := hbound
  refine keeps_leaveAs h hkind hmember ⟨hbinding, hid, haccess, huid, hgid, ?_⟩ ?_
  · rw [hkind]
    exact hrevoked
  · rintro hjoining
    rw [hjoining] at hphase
    rcases hphase with (hphase | hphase) | hphase <;> cases hphase

/-- An operation keeps the invariant, and goes on where it was interrupted. -/
theorem keeps_program (a : Attempt) (h : Inv w) :
    Keeps a (Sure a w) (a.program (w.view a.runId)) (Returns a) w := by
  rw [Attempt.program]
  cases hkind : a.kind with
  | join => exact keeps_join h hkind
  | leave => exact keeps_leave h hkind

end Palimpsest.Access
