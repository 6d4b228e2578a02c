import Palimpsest.Runtime.UpSafety

/-!
# What a failed `project up` leaves

Where the body of `up_project` raises, the runs that it created are stopped and removed. All of
them but the last one are recorded, and the identity that is recorded is the one that is expected
to be removed. So one that is left is one that is recorded, and what is erased from the ledger is
gone (`Invocation.RollingBack`).

The last one may be a run that was being started. Nothing is expected of it when it is removed, and
this is the only removal of the kind. If it leaves the run that the start created, and the ledger
that the invocation started from does not have it, the run is stranded (`Invocation.Strands`).
-/

namespace Palimpsest.Runtime

open Calls Calls.Program

variable {project : Project} {s s' : State} {E : State → Prop} {name : String}
  {expected : Option RuntimeIdentity} {u : Invocation} {v : Progress} {plan : ServicePlan}

theorem holds_caught {c : Call} {Q : Option (Answer c) → State → Prop}
    (h : ∀ a s', Effect project c a s s' → Q a s') : Holds project (call c).caught Q E s :=
  safe_caught (holds_call (h none) fun a s' => h (some a) s')

/-! ### The rollback -/

/-- The service of a plan is no longer in the variables. -/
def Progress.drop (v : Progress) (plan : ServicePlan) : Progress :=
  { v with
    services := v.services.erase plan.service
    order := v.order.erase plan.service }

/-- The variables after one run was stopped and removed, or not. -/
def Progress.rolled (v : Progress) (plan : ServicePlan) (isGone : Bool) : Progress :=
  if isGone then v.drop plan else v

/-- What is left of a ledger that records a run when the ledger is what the variables were. -/
theorem isRecorded_eq {record : ProjectState} (h : SameLedger (ledgerOf project s) record)
    {identity : RuntimeIdentity} :
    s.isRecorded name identity = records record.services record.order name identity := by
  rw [← h.services, ← h.order, ledgerOf, State.isRecorded]
  cases s.stored with
  | none => rfl
  | some stored => rfl

namespace Invocation

variable (u : Invocation)

/-- The removal that expects no identity left the run that the last start created, and the ledger
did not have it before. -/
def Strands (s : State) : Prop :=
  ∃ name identity, (name, some identity) ∈ s.unbound ∧ s.launched = some identity.runId ∧
    records u.ledger.services u.ledger.order name identity = false

/-- What the variables say about the state while these runs are still to be removed. -/
structure RollingBack (left : List ServicePlan) (v : Progress) (s : State) : Prop where
  consistent : Consistent v.services v.order
  named : Named u.project v.services
  saved : s.isUnwritten = false → SameLedger (ledgerOf u.project s) v.current
  bound : ∀ plan ∈ left, u.Bound v plan
  names : ∀ plan ∈ left, plan.runName = u.project.runName plan.service
  distinct : (left.map ServicePlan.service).Nodup
  recorded : ¬u.Strands s → ∀ name identity, s.identity name = some identity →
    u.fresh ≤ identity.runId → records v.services v.order name identity = true
  stranded : u.Strands s → ∃ name identity, s.identity name = some identity ∧
    u.fresh ≤ identity.runId ∧ records v.services v.order name identity = false
  single : s.unbound.length ≤ 1
  touched : ∀ id ∈ s.touched, u.fresh ≤ id ∨ u.Replaces id
  accepted : u.Accepted s → ∀ volume ∈ s.receipts, v.volumes.lookup volume.name = some volume
  rejected : ¬u.Accepted s → v.volumes = u.ledger.volumes

end Invocation

theorem Invocation.strands_congr (hunbound : s'.unbound = s.unbound)
    (hlaunched : s'.launched = s.launched) : u.Strands s' ↔ u.Strands s := by
  rw [Invocation.Strands, Invocation.Strands, hunbound, hlaunched]

/-- Two states in which the same volumes were prepared. -/
theorem OnlyRuns.accepted (h : OnlyRuns s s') : u.Accepted s' ↔ u.Accepted s := by
  rw [Invocation.Accepted, Invocation.Accepted, h.preparedFor, h.receipts]

theorem OnlyRuns.trans {s'' : State} (h : OnlyRuns s s') (h' : OnlyRuns s' s'') :
    OnlyRuns s s'' :=
  ⟨h'.stored.trans h.stored, h'.receipts.trans h.receipts, h'.preparedFor.trans h.preparedFor,
    h'.isUnwritten.trans h.isUnwritten⟩

theorem OnlyRuns.ledgerOf (h : OnlyRuns s s') : ledgerOf project s' = ledgerOf project s := by
  rw [Runtime.ledgerOf, h.stored]
  rfl

/-- The variables without a service still have the runs of the others. -/
theorem Invocation.Bound.rolled {q : ServicePlan} (h : u.Bound v q)
    (hq : q.service ≠ plan.service) (isGone : Bool) : u.Bound (v.rolled plan isGone) q := by
  cases isGone with
  | false => exact h
  | true =>
    obtain ⟨identity, managed, hidentity, hfresh, hmanaged, hsame⟩ := h
    exact ⟨identity, managed, hidentity, hfresh, (Finmap.lookup_erase_ne hq).trans hmanaged, hsame⟩

theorem consistent_rolled (h : Consistent v.services v.order) (isGone : Bool) :
    Consistent (v.rolled plan isGone).services (v.rolled plan isGone).order := by
  cases isGone with
  | false => exact h
  | true => exact h.erase plan.service

theorem named_rolled (h : Named project v.services) (isGone : Bool) :
    Named project (v.rolled plan isGone).services := by
  cases isGone with
  | false => exact h
  | true => exact h.erase plan.service

theorem volumes_rolled (isGone : Bool) : (v.rolled plan isGone).volumes = v.volumes := by
  cases isGone with
  | false => rfl
  | true => rfl

theorem current_rolled (isGone : Bool) : (v.rolled plan isGone).current = v.current := by
  cases isGone with
  | false => rfl
  | true => rfl

/-- What the variables record after one run was removed, they recorded before. -/
theorem records_of_rolled (h : Consistent v.services v.order) {isGone : Bool}
    {identity : RuntimeIdentity}
    (hrecords : records (v.rolled plan isGone).services (v.rolled plan isGone).order name identity =
      true) : records v.services v.order name identity = true := by
  cases isGone with
  | false => exact hrecords
  | true => exact records_of_erase h hrecords

/-- A run that stands where another one was removed, or not, is recorded as before. -/
theorem records_rolled (h : Consistent v.services v.order) (hnamed : Named project v.services)
    (hplan : plan.runName = project.runName plan.service) {isGone : Bool}
    {identity : RuntimeIdentity} (hname : isGone = true → name ≠ plan.runName)
    (hrecords : records v.services v.order name identity = true) :
    records (v.rolled plan isGone).services (v.rolled plan isGone).order name identity = true := by
  cases isGone with
  | false => exact hrecords
  | true => exact records_erase h hnamed (hplan ▸ hname rfl) hrecords

/-- A run that is removed under no identity is one of this invocation. -/
theorem Invocation.Tracked.rolled {loose : ServicePlan} {s₁ s₂ : State} {isGone isRemoved : Bool}
    (h : u.Tracked (some loose) v s) (hstop : Stopped loose.runName none s s₁)
    (hremove : Removed loose.runName none isRemoved s₁ s₂)
    (hgone : isGone = true → isRemoved = true) :
    ∃ left, v.created.reverse = loose :: left ∧ u.RollingBack left (v.rolled loose isGone) s₂ := by
  obtain ⟨older, hcreated, hbound⟩ := h.created
  rw [Option.toList_some] at hcreated
  have hloose : loose ∈ v.created := by
    rw [hcreated]
    exact List.mem_append_right _ List.mem_cons_self
  have hdistinct := h.distinct
  rw [hcreated, List.map_append, List.map_singleton, List.nodup_append] at hdistinct
  have hother : ∀ plan ∈ older, plan.service ≠ loose.service := fun plan hplan =>
    hdistinct.2.2 _ (List.mem_map_of_mem hplan) _ (List.mem_singleton_self _)
  have honly : OnlyRuns s s₂ := hstop.toOnlyRuns.trans hremove.toOnlyRuns
  have hidentity : ∀ {name : String} {identity : RuntimeIdentity},
      s₂.identity name = some identity → s.identity name = some identity := fun hid =>
    (hstop.identity _).symm.trans (hremove.identity hid)
  have hnew : ∀ identity, s.identity loose.runName = some identity → u.fresh ≤ identity.runId :=
    h.clean loose hloose
  have hunbound : s₂.unbound = [(loose.runName, s₂.identity loose.runName)] := by
    rw [hremove.unbound, hstop.unbound, h.noUnbound]
    rfl
  have hlaunched : s₂.launched = s.launched := hremove.launched.trans hstop.launched
  -- the variables have the run that was created exactly if the ledger does
  have hstrands : u.Strands s₂ ↔ ∃ identity, s₂.identity loose.runName = some identity ∧
      s.launched = some identity.runId ∧
        records v.services v.order loose.runName identity = false := by
    constructor
    · rintro ⟨name, identity, hmem, hid, hnot⟩
      rw [hunbound, List.mem_singleton, Prod.mk.injEq] at hmem
      obtain ⟨rfl, hleft⟩ := hmem
      rw [hlaunched] at hid
      exact ⟨identity, hleft.symm, hid, (h.agrees loose rfl identity hid).trans hnot⟩
    · rintro ⟨identity, hleft, hid, hnot⟩
      refine ⟨loose.runName, identity, ?_, hlaunched.trans hid,
        (h.agrees loose rfl identity hid).symm.trans hnot⟩
      rw [hunbound, hleft]
      exact List.mem_singleton_self _
  have hnamed := h.names loose hloose
  refine ⟨older.reverse, by rw [hcreated, List.reverse_append]; rfl, ?_⟩
  exact
    { consistent := consistent_rolled h.consistent isGone
      named := named_rolled h.named isGone
      saved := fun hwritten => by
        rw [honly.isUnwritten] at hwritten
        rw [honly.ledgerOf, current_rolled]
        exact h.saved hwritten
      bound := fun plan hplan => by
        rw [List.mem_reverse] at hplan
        exact (hbound plan hplan).rolled (hother plan hplan) isGone
      names := fun plan hplan => by
        rw [List.mem_reverse] at hplan
        exact h.names plan (hcreated ▸ List.mem_append_left _ hplan)
      distinct := by
        rw [List.map_reverse, List.nodup_reverse]
        exact hdistinct.1
      recorded := fun hstranded name identity hid hfresh => by
        have hrecorded : records v.services v.order name identity = true := by
          rcases h.recorded name identity (hidentity hid) hfresh with
            hrecorded | ⟨hcreated, plan, hplan, rfl⟩
          · exact hrecorded
          · obtain rfl := Option.some.inj hplan
            by_contra hnot
            exact hstranded (hstrands.mpr ⟨identity, hid, hcreated, Bool.eq_false_iff.mpr hnot⟩)
        refine records_rolled h.consistent h.named hnamed (fun hisGone heq => ?_) hrecorded
        rw [heq, hremove.gone (hgone hisGone)] at hid
        cases hid
      stranded := fun hstranded => by
        obtain ⟨identity, hid, -, hnot⟩ := hstrands.mp hstranded
        exact ⟨loose.runName, identity, hid, hnew identity (hidentity hid),
          Bool.eq_false_iff.mpr fun hrecorded =>
            Bool.false_ne_true (hnot.symm.trans (records_of_rolled h.consistent hrecorded))⟩
      single := by
        rw [hunbound]
        exact Nat.le_refl 1
      touched := fun id hid => by
        rcases hremove.touched id hid with hid | ⟨identity, hwas, rfl, -⟩
        · rcases hstop.touched id hid with hid | ⟨identity, hwas, rfl, -⟩
          · exact h.touched id hid
          · exact .inl (hnew identity hwas)
        · exact .inl (hnew identity ((hstop.identity _).symm.trans hwas))
      accepted := fun haccepted => by
        rw [honly.receipts, volumes_rolled]
        exact h.accepted (honly.accepted.mp haccepted)
      rejected := fun hrejected => by
        rw [volumes_rolled]
        exact h.rejected fun haccepted => hrejected (honly.accepted.mpr haccepted) }

/-- A run that is recorded is removed, or stays recorded. -/
theorem Invocation.RollingBack.next {left : List ServicePlan} {s₁ s₂ : State}
    {isGone isRemoved : Bool} (h : u.RollingBack (plan :: left) v s) {identity : RuntimeIdentity}
    (hexpected : v.createdIdentities.lookup plan.service = some identity)
    (hstop : Stopped plan.runName (some identity) s s₁)
    (hremove : Removed plan.runName (some identity) isRemoved s₁ s₂)
    (hgone : isGone = true → isRemoved = true) : u.RollingBack left (v.rolled plan isGone) s₂ := by
  obtain ⟨hplan, hbound⟩ := List.forall_mem_cons.mp h.bound
  obtain ⟨hname, hnames⟩ := List.forall_mem_cons.mp h.names
  obtain ⟨same, managed, hsame, hfresh, hmanaged, hidentityOf⟩ := hplan
  obtain rfl := Option.some.inj (hexpected.symm.trans hsame)
  have hdistinct := h.distinct
  rw [List.map_cons, List.nodup_cons] at hdistinct
  have honly : OnlyRuns s s₂ := hstop.toOnlyRuns.trans hremove.toOnlyRuns
  have hidentity : ∀ {name : String} {identity : RuntimeIdentity},
      s₂.identity name = some identity → s.identity name = some identity := fun hid =>
    (hstop.identity _).symm.trans (hremove.identity hid)
  -- The removal expects the recorded run, so it leaves the stranded one alone.
  have hrecorded : records v.services v.order plan.runName identity = true := by
    refine (records_iff h.consistent).mpr ⟨plan.service, managed, hmanaged, ?_, hidentityOf⟩
    rw [(h.named _ managed hmanaged).2, hname]
  have hunbound : s₂.unbound = s.unbound := hremove.unbound.trans hstop.unbound
  have hstrands : u.Strands s₂ ↔ u.Strands s :=
    Invocation.strands_congr hunbound (hremove.launched.trans hstop.launched)
  exact
    { consistent := consistent_rolled h.consistent isGone
      named := named_rolled h.named isGone
      saved := fun hwritten => by
        rw [honly.isUnwritten] at hwritten
        rw [honly.ledgerOf, current_rolled]
        exact h.saved hwritten
      bound := fun q hq => by
        refine (hbound q hq).rolled (fun heq => hdistinct.1 ?_) isGone
        exact heq ▸ List.mem_map_of_mem hq
      names := hnames
      distinct := hdistinct.2
      recorded := fun hstranded name other hid hnew => by
        refine records_rolled h.consistent h.named hname (fun hisGone heq => ?_)
          (h.recorded (fun hold => hstranded (hstrands.mpr hold)) name other (hidentity hid) hnew)
        rw [heq, hremove.gone (hgone hisGone)] at hid
        cases hid
      stranded := fun hstranded => by
        obtain ⟨name, other, hid, hnew, hnot⟩ := h.stranded (hstrands.mp hstranded)
        refine ⟨name, other, ?_, hnew, Bool.eq_false_iff.mpr fun hrecords =>
          Bool.false_ne_true (hnot.symm.trans (records_of_rolled h.consistent hrecords))⟩
        rw [← hstop.identity] at hid
        by_cases hsameName : name = plan.runName
        · subst hsameName
          rcases hremove.same with hkept | ⟨-, hwas⟩
          · rw [hkept, hid]
          · rw [hwas other hid identity rfl, hrecorded] at hnot
            cases hnot
        · rw [hremove.other name hsameName, hid]
      single := hunbound ▸ h.single
      touched := fun id hid => by
        rcases hremove.touched id hid with hid | ⟨other, -, rfl, hwas⟩
        · rcases hstop.touched id hid with hid | ⟨other, -, rfl, hwas⟩
          · exact h.touched id hid
          · exact .inl (hwas identity rfl ▸ hfresh)
        · exact .inl (hwas identity rfl ▸ hfresh)
      accepted := fun haccepted => by
        rw [honly.receipts, volumes_rolled]
        exact h.accepted (honly.accepted.mp haccepted)
      rejected := fun hrejected => by
        rw [volumes_rolled]
        exact h.rejected fun haccepted => hrejected (honly.accepted.mpr haccepted) }

/-- Where nothing is being started, all runs that were created are recorded. -/
theorem Invocation.Tracked.rollingBack (h : u.Tracked none v s) :
    u.RollingBack v.created.reverse v s := by
  obtain ⟨older, hcreated, hbound⟩ := h.created
  rw [Option.toList_none, List.append_nil] at hcreated
  exact
    { consistent := h.consistent
      named := h.named
      saved := h.saved
      bound := fun plan hplan => hbound plan (hcreated ▸ List.mem_reverse.mp hplan)
      names := fun plan hplan => h.names plan (List.mem_reverse.mp hplan)
      distinct := by
        rw [List.map_reverse, List.nodup_reverse]
        exact h.distinct
      recorded := fun _ name identity hid hnew => by
        rcases h.recorded name identity hid hnew with hrecorded | ⟨-, plan, hplan, -⟩
        · exact hrecorded
        · cases hplan
      stranded := fun ⟨_, _, hmem, _⟩ => by
        rw [h.noUnbound] at hmem
        cases hmem
      single := by
        rw [h.noUnbound]
        exact Nat.zero_le 1
      touched := h.touched
      accepted := h.accepted
      rejected := h.rejected }

/-- One run is stopped and removed, or not. -/
theorem rollback_cons (left : List ServicePlan) (v : Progress) :
    rollback (plan :: left) v = (do
      let stopped ← (call (.stop plan.runName (v.createdIdentities.lookup plan.service))).caught
      let removed ← (call (.remove plan.runName (v.createdIdentities.lookup plan.service))).caught
      rollback left (v.rolled plan (stopped.isSome && removed.isSome))) := by
  rw [rollback]
  refine congrArg _ (funext fun stopped => congrArg _ (funext fun removed => ?_))
  cases stopped.isSome && removed.isSome with
  | false => rfl
  | true => rfl

theorem holds_rollback_bound {left : List ServicePlan} (h : u.RollingBack left v s) :
    Holds u.project (rollback left v) (fun v s => u.RollingBack [] v s) E s := by
  induction left generalizing v s with
  | nil => exact h
  | cons plan left ih =>
    obtain ⟨identity, -, hexpected, -⟩ := h.bound plan List.mem_cons_self
    rw [rollback_cons, hexpected]
    refine safe_bind (holds_caught fun stopped s₁ hstop => ?_)
    refine safe_bind (holds_caught fun removed s₂ hremove => ih ?_)
    exact h.next hexpected hstop.stop hremove.remove fun hboth => (Bool.and_eq_true _ _ ▸ hboth).2

/-- **The rollback** leaves the runs of this invocation recorded, or one of them stranded. -/
theorem holds_rollback (h : u.Failed v s) :
    Holds u.project (rollback v.created.reverse v) (fun v s => u.RollingBack [] v s) E s := by
  obtain ⟨loose | loose, h⟩ := h
  · exact holds_rollback_bound h.rollingBack
  · obtain ⟨left, hleft⟩ : ∃ left, v.created.reverse = loose :: left := by
      obtain ⟨older, hcreated, -⟩ := h.created
      exact ⟨older.reverse, by rw [hcreated, List.reverse_append]; rfl⟩
    rw [hleft, rollback_cons, (h.unbound loose rfl).1]
    refine safe_bind (holds_caught fun stopped s₁ hstop => ?_)
    refine safe_bind (holds_caught fun removed s₂ hremove => holds_rollback_bound ?_)
    have hgone : (stopped.isSome && removed.isSome) = true → removed.isSome = true :=
      fun hboth => (Bool.and_eq_true _ _ ▸ hboth).2
    obtain ⟨left', hleft', hrolling⟩ := h.rolled hstop.stop hremove.remove hgone
    obtain ⟨-, rfl⟩ := List.cons.inj (hleft.symm.trans hleft')
    exact hrolling

end Palimpsest.Runtime
