import Palimpsest.Access.TraversalResume

/-!
# Runs of the namespace

From its enrollment on, the registry of a namespace is consistent and its directories have one of
the lists that the registry allows, in every state that calls, failures and kills lead to
(`Palimpsest.Access.sharedTraversal_safe`). An attempt that wrote something and has not returned
can be made again and returns, except while the intent of another run is pending; and the run
whose intent is pending can make its attempt again in every state.
-/

namespace Palimpsest.Access

open Control Monitor Calls Calls.Program

/-- What the first write of the registry makes sure of. -/
structure Enrollment where
  authority : Authority
  storable : (World.enrolled authority).registry.Storable

def Enrollment.state (e : Enrollment) : State := .enrolled e.authority

/-! ### The invariant along a run -/

/-- The invariant of the namespace, and of the attempt that holds the lock. -/
structure State.Ok (s : State) : Prop where
  world : Inv s.world
  running : ∀ a p, s.running = some (a, p) →
    p.Safe (fun _ => Inv) (Effect a) Inv (Returns a) s.world

variable {a : Attempt} {w : World} {s : State}

theorem ok_idle (h : Inv w) : State.Ok ⟨w, none⟩ := ⟨h, nofun⟩

/-- The attempt goes on, or gives the lock back. -/
theorem ok_goOn {p : Op SharedTraversalMembership}
    (h : p.Safe (fun _ => Inv) (Effect a) Inv (Returns a) w) : (State.goOn w a p).Ok := by
  cases p with
  | done m => exact ok_idle h.inv
  | raise => exact ok_idle h
  | call q next =>
    refine ⟨h.1, fun b p hp => ?_⟩
    obtain ⟨rfl, rfl⟩ := Prod.mk.inj (Option.some.inj hp)
    exact h

theorem effect_answer (a : Attempt) (w : World) (q : Request) :
    Effect a q (w.answer a q).1 w (w.answer a q).2 := by
  rw [World.answer]
  split
  · next hexpected => exact ⟨hexpected, rfl⟩
  · exact .inl rfl

/-- **Every event keeps the invariant.** -/
theorem ok_step (h : s.Ok) (event : Event) : (s.step event).Ok := by
  obtain ⟨w, running⟩ := s
  cases event with
  | call b =>
    cases running with
    | none => exact ok_goOn (keeps_program b h.world).safe
    | some r => exact h
  | next =>
    match running, h with
    | none, h => exact h
    | some (b, .done m), h => exact h
    | some (b, .raise), h => exact h
    | some (b, .call q next), h =>
      exact ok_goOn ((h.running b _ rfl).2 _ _ (effect_answer b w q))
  | fail isDone =>
    match running, h with
    | none, h => exact h
    | some (b, .done m), h => exact h
    | some (b, .raise), h => exact h
    | some (b, .call q next), h =>
      refine ok_goOn ((h.running b _ rfl).2 none _ ?_)
      cases isDone with
      | false => exact .inl rfl
      | true => exact .inr rfl
  | kill => exact ok_idle h.world

theorem inv_enrolled (e : Enrollment) : Inv (.enrolled e.authority) where
  storable := e.storable
  allowed := by
    rw [Registry.mem_allowed_of_not_isOpening (Registry.not_isOpening_of_none rfl)]
    rfl
  runs := fun _ => .inl ⟨rfl, fun _ _ => rfl, rfl, rfl⟩

theorem ok_run (e : Enrollment) (events : List Event) : (e.state.run events).Ok := by
  induction events using List.reverseRecOn with
  | nil => exact ok_idle (inv_enrolled e)
  | append_singleton events event ih =>
    rw [State.run, List.foldl_concat]
    exact ok_step ih event

/-! ### What the invariant says -/

/-- With a member that is not about to leave the directories are open. -/
theorem Inv.granted (h : Inv w) {m : SharedTraversalMembership} (hm : m ∈ w.registry.active)
    (hpending : ∀ p ∈ w.registry.pending, p.phase = .leaving → p.key ≠ m.key) :
    w.acls = w.registry.authority.granted := by
  have hne : ¬w.registry.active.isEmpty := by
    intro hempty
    rw [List.isEmpty_iff.mp hempty] at hm
    exact List.not_mem_nil hm
  have hnot : ¬w.registry.IsOpening := by
    rintro ⟨p, hp, ⟨-, hnil⟩ | ⟨hphase, hone⟩⟩
    · exact hne (List.isEmpty_iff.mpr hnil)
    · -- the only member would be the one that is about to leave
      rcases h.storable.1.pending p hp with ⟨hjoining, -⟩ | ⟨-, hactive⟩
      · rw [hphase] at hjoining
        cases hjoining
      · have hperm := Registry.active_perm hactive rfl
        have hnil : (w.registry.compact p).active = [] := by
          have hlength := hperm.length_eq
          rw [hone, List.length_cons] at hlength
          exact List.length_eq_zero_iff.mp (by omega)
        rw [hnil] at hperm
        obtain rfl := List.mem_singleton.mp (hperm.mem_iff.mp hm)
        exact hpending p hp hphase rfl
  have hacls := (Registry.mem_allowed_of_not_isOpening hnot).mp h.allowed
  rwa [if_neg hne] at hacls

/-- Without a member, and with no intent, they are closed. -/
theorem Inv.baseline (h : Inv w) (hactive : w.registry.active = [])
    (hpending : w.registry.pending = none) : w.acls = w.registry.authority.baseline := by
  have hacls := (Registry.mem_allowed_of_not_isOpening
    (Registry.not_isOpening_of_none hpending)).mp h.allowed
  rwa [hactive] at hacls

/-- Made again, the attempt returns where nothing fails: its run keeps its membership in the phase
it wanted, and has no intent pending. -/
def Completes (a : Attempt) (w : World) : Prop :=
  ∃ m w', (a.program (w.view a.runId)).run (fun q w => w.answer a q) w = (some m, w') ∧
    w'.saved a.runId = some m ∧ m.phase = a.kind.final ∧ w'.registry.pendingOf a.runId = none

theorem Sure.completes (hsure : Sure a w) (h : Inv w) : Completes a w := by
  obtain ⟨m, w', hrun, hreturns⟩ := (keeps_program a h).returns hsure
  exact ⟨m, w', hrun, hreturns.saved, hreturns.phase, hreturns.pending⟩

theorem Inv.runId_eq (h : Inv w) {runId : Uuid} (ha : w.unfinished runId = some a) :
    a.runId = runId := by
  rcases h.runs runId with hidle | ⟨m, point, rfl, hstands⟩
  · rw [hidle.unfinished] at ha
    cases ha
  · rcases hstands.unfinished with ⟨b, hb, -, hsuits⟩ | ⟨-, hnone⟩
    · obtain rfl := Option.some.inj (ha.symm.trans hb)
      exact hsuits.runId_eq.symm
    · rw [ha] at hnone
      cases hnone

/-- The run whose intent is pending is in the middle of an attempt. -/
theorem Inv.sure_of_pending (h : Inv w) {p : SharedTraversalMembership}
    (hp : w.registry.pending = some p) : ∃ a, w.unfinished p.runId = some a ∧ Sure a w := by
  have hpending := Registry.pendingOf_of_some hp
  rcases h.runs p.runId with hidle | ⟨m, point, hrun, hstands⟩
  · rw [hidle.pending] at hpending
    cases hpending
  · rw [← hrun, hstands.pending] at hpending
    have hend : point.isEnd = false := by
      cases point <;> first | rfl | cases hpending
    rcases hstands.unfinished with ⟨a, ha, -, hsuits⟩ | ⟨htrue, -⟩
    · refine ⟨a, hrun ▸ ha, hsuits.runId_eq ▸ ha, fun p' hp' => ?_⟩
      obtain rfl := Option.some.inj (hp.symm.trans hp')
      exact hrun.symm.trans hsuits.runId_eq
    · rw [hend] at htrue
      cases htrue

/-- **Shared traversal is safe, and can be resumed** unless the intent of another run is pending,
whose attempt then can be. -/
theorem sharedTraversal_safe (e : Enrollment) (events : List Event) :
    let w := (e.state.run events).world
    w.registry.Valid ∧ w.acls ∈ w.registry.allowed ∧
      (∀ m ∈ w.registry.active, (∀ p ∈ w.registry.pending, p.phase = .leaving → p.key ≠ m.key) →
        w.acls = w.registry.authority.granted) ∧
      (w.registry.active = [] → w.registry.pending = none →
        w.acls = w.registry.authority.baseline) ∧
      (∀ runId a, w.unfinished runId = some a →
        a.runId = runId ∧ ((∀ p ∈ w.registry.pending, p.runId = runId) → Completes a w)) ∧
      ∀ p ∈ w.registry.pending, ∃ a, w.unfinished p.runId = some a ∧ Completes a w := by
  have h := (ok_run e events).world
  refine ⟨h.storable.1, h.allowed, fun m hm => h.granted hm, h.baseline, ?_, ?_⟩
  · intro runId a ha
    obtain rfl := h.runId_eq ha
    exact ⟨rfl, fun hfree => Sure.completes ⟨ha, hfree⟩ h⟩
  · intro p hp
    obtain ⟨a, ha, hsure⟩ := h.sure_of_pending hp
    exact ⟨a, ha, hsure.completes h⟩

end Palimpsest.Access
