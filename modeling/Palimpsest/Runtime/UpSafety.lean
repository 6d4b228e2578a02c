import Palimpsest.Runtime.BackendRules
import Palimpsest.Runtime.ProjectLedger

/-!
# What a project that comes up keeps track of

While `up_project` goes on, every run that it created is in its variables, except for the one
that it is starting (`Tracked`). What it has written is what its variables were at the end of
the last service, if no write raised.

The names of runs that it creates were free, or taken by the run that it has just removed, so
that what stands there later is its own; and a run under an expected identity is not another one.
The run that it is starting is in its variables only if it was in the ledger already
(`Tracked.records_launched`).
-/

namespace Palimpsest.Runtime

open Calls Calls.Program

variable {project : Project} {s s' : State} {E : State → Prop} {name : String}
  {expected : Option RuntimeIdentity}

/-! ### What is tracked -/

/-- What an invocation of `up_project` starts from. -/
structure Invocation where
  project : Project
  ledger : ProjectState
  /-- The run IDs from here on were not used before. -/
  fresh : RunId
  plans : List ServicePlan

/-- Two ledgers that differ in their digest at most. -/
structure SameLedger (a b : ProjectState) : Prop where
  services : a.services = b.services
  order : a.order = b.order
  volumes : a.volumes = b.volumes

namespace Invocation

variable (u : Invocation)

/-- What stands under a name is a run of this invocation. -/
def IsNew (name : String) (s : State) : Prop :=
  ∀ identity, s.identity name = some identity → u.fresh ≤ identity.runId

/-- The plan is to recreate an owned run. -/
def Replaces (id : RunId) : Prop :=
  ∃ plan ∈ u.plans, plan.action = .recreate ∧
    ∃ managed, u.ledger.services.lookup plan.service = some managed ∧ managed.runId = id

/-- The volumes that were prepared pass the checks. -/
def Accepted (s : State) : Prop :=
  (mergePreparedVolumes u.project s.preparedFor u.ledger.volumes s.receipts).isSome

/-- The run of a plan is in the variables. -/
def Bound (v : Progress) (plan : ServicePlan) : Prop :=
  ∃ identity managed, v.createdIdentities.lookup plan.service = some identity ∧
    u.fresh ≤ identity.runId ∧ v.services.lookup plan.service = some managed ∧
      managed.identity = identity

/-- What the variables say about the state, where perhaps one run is being started. -/
structure Tracked (loose : Option ServicePlan) (v : Progress) (s : State) : Prop where
  consistent : Consistent v.services v.order
  named : Named u.project v.services
  saved : s.isUnwritten = false → SameLedger (ledgerOf u.project s) v.current
  fresh : u.fresh ≤ s.fresh
  created : ∃ older, v.created = older ++ loose.toList ∧ ∀ plan ∈ older, u.Bound v plan
  names : ∀ plan ∈ v.created, plan.runName = u.project.runName plan.service
  distinct : (v.created.map ServicePlan.service).Nodup
  identities : ∀ name ∈ v.createdIdentities, ∃ plan ∈ v.created, plan.service = name
  clean : ∀ plan ∈ v.created, u.IsNew plan.runName s
  unbound : ∀ plan ∈ loose, v.createdIdentities.lookup plan.service = none ∧
    v.services = v.current.services ∧ v.order = v.current.order
  recorded : ∀ name identity, s.identity name = some identity → u.fresh ≤ identity.runId →
    records v.services v.order name identity = true ∨
      s.launched = some identity.runId ∧ ∃ plan ∈ loose, plan.runName = name
  touched : ∀ id ∈ s.touched, u.fresh ≤ id ∨ u.Replaces id
  noUnbound : s.unbound = []
  ledger : Consistent u.ledger.services u.ledger.order
  below : ∀ name identity, s.identity name = some identity → identity.runId < s.fresh
  origin : ∀ name managed, v.services.lookup name = some managed →
    u.ledger.services.lookup name = some managed ∨ managed.runId < s.fresh
  kept : ∀ name managed, u.ledger.services.lookup name = some managed →
    v.services.lookup name = some managed ∨ managed.runId < u.fresh ∨
      ∃ identity, s.identity managed.runName = some identity ∧ u.fresh ≤ identity.runId
  agrees : ∀ plan ∈ loose, ∀ identity, s.launched = some identity.runId →
    records v.services v.order plan.runName identity =
      records u.ledger.services u.ledger.order plan.runName identity
  accepted : u.Accepted s → ∀ volume ∈ s.receipts, v.volumes.lookup volume.name = some volume
  rejected : ¬u.Accepted s → v.volumes = u.ledger.volumes

/-- What holds where the body of `up_project` raises. -/
def Failed (v : Progress) (s : State) : Prop := ∃ loose, u.Tracked loose v s

/-- What holds between two services. -/
structure Going (v : Progress) (s : State) : Prop where
  tracked : u.Tracked none v s
  services : v.services = v.current.services
  order : v.order = v.current.order
  volumes : v.volumes = v.current.volumes
  accepted : u.Accepted s

/-- What holds of a plan that is still to be carried out. -/
structure Planned (plan : ServicePlan) (v : Progress) (s : State) : Prop where
  mem : plan ∈ u.plans
  name : plan.runName = u.project.runName plan.service
  isNew : plan.action = .create → u.IsNew plan.runName s
  managed : plan.action = .start ∨ plan.action = .recreate →
    plan.previousStatus.isSome ∧ ∃ managed,
      u.ledger.services.lookup plan.service = some managed ∧ managed.runId < u.fresh
  same : v.services.lookup plan.service = u.ledger.services.lookup plan.service
  other : ∀ created ∈ v.created, created.service ≠ plan.service

end Invocation

variable {u : Invocation} {v : Progress} {loose : Option ServicePlan} {plan : ServicePlan}

/-- Runs go as they should, and those of this invocation stay. -/
theorem Invocation.Tracked.runs (h : u.Tracked none v s) (honly : OnlyRuns s s')
    (hfresh : s.fresh ≤ s'.fresh) (hunbound : s'.unbound = s.unbound)
    (hidentity : ∀ name identity, s'.identity name = some identity →
      s.identity name = some identity)
    (hstays : ∀ name identity, s.identity name = some identity → u.fresh ≤ identity.runId →
      s'.identity name = some identity)
    (htouched : ∀ id ∈ s'.touched, id ∈ s.touched ∨ u.fresh ≤ id ∨ u.Replaces id) :
    u.Tracked none v s' where
  consistent := h.consistent
  named := h.named
  saved := fun hwritten => by
    rw [honly.isUnwritten] at hwritten
    rw [ledgerOf, honly.stored]
    exact h.saved hwritten
  fresh := Nat.le_trans h.fresh hfresh
  created := h.created
  names := h.names
  distinct := h.distinct
  identities := h.identities
  -- A run that is there now was there before.
  clean := fun plan hplan identity hid => h.clean plan hplan identity (hidentity _ identity hid)
  unbound := nofun
  recorded := fun name identity hid hnew => by
    rcases h.recorded name identity (hidentity name identity hid) hnew with hrecords | ⟨-, q, hq, -⟩
    · exact .inl hrecords
    · cases hq
  touched := fun id hid => (htouched id hid).elim (h.touched id) fun hid => hid
  noUnbound := hunbound.trans h.noUnbound
  ledger := h.ledger
  below := fun name identity hid =>
    Nat.lt_of_lt_of_le (h.below name identity (hidentity name identity hid)) hfresh
  origin := fun name managed hm =>
    (h.origin name managed hm).imp_right fun hlt => Nat.lt_of_lt_of_le hlt hfresh
  kept := fun name managed hm => (h.kept name managed hm).imp_right fun hkept =>
    hkept.imp_right fun ⟨identity, hid, hnew⟩ => ⟨identity, hstays _ identity hid hnew, hnew⟩
  agrees := nofun
  accepted := fun haccepted => by
    rw [Invocation.Accepted, honly.preparedFor, honly.receipts] at haccepted
    rw [honly.receipts]
    exact h.accepted haccepted
  rejected := fun hrejected => by
    rw [Invocation.Accepted, honly.preparedFor, honly.receipts] at hrejected
    exact h.rejected hrejected

/-! ### One service -/

/-- Names under which only runs of this invocation stand keep only such. -/
structure Invocation.Newer (u : Invocation) (s s' : State) : Prop where
  isNew : ∀ name, u.IsNew name s → u.IsNew name s'
  accepted : u.Accepted s → u.Accepted s'

theorem Invocation.Newer.refl (s : State) : u.Newer s s := ⟨fun _ h => h, fun h => h⟩

theorem Invocation.Newer.trans {s'' : State} (h : u.Newer s s') (h' : u.Newer s' s'') :
    u.Newer s s'' :=
  ⟨fun name hname => h'.isNew name (h.isNew name hname), fun ha => h'.accepted (h.accepted ha)⟩

theorem Invocation.Newer.of_identity (honly : OnlyRuns s s')
    (h : ∀ name identity, s'.identity name = some identity →
      s.identity name = some identity ∨ u.fresh ≤ identity.runId) : u.Newer s s' where
  isNew := fun name hname identity hid =>
    (h name identity hid).elim (hname identity) fun hnew => hnew
  accepted := fun haccepted => by
    rw [Invocation.Accepted, honly.preparedFor, honly.receipts]
    exact haccepted

/-- The run that the plan is to create, if it is. -/
def ServicePlan.launched (plan : ServicePlan) : Option ServicePlan :=
  if plan.creates then some plan else none

theorem keeps_checkManaged {prior : Option ManagedService} {Q : Unit → Progress → State → Prop}
    (h : u.Tracked none v s)
    (hQ : (∀ managed, prior = some managed → plan.previousStatus.isSome →
      s.identity plan.runName = some managed.identity) → Q () v s) :
    Keeps u.project (checkManaged plan prior) Q u.Failed v s := by
  cases prior with
  | none => exact Tried.keeps_pure (hQ nofun)
  | some managed =>
    rw [checkManaged]
    cases hstatus : plan.previousStatus with
    | none =>
      refine Tried.keeps_pure (hQ fun _ _ hsome => ?_)
      rw [hstatus] at hsome
      cases hsome
    | some status =>
      refine Tried.keeps_bind (Tried.keeps_lift (holds_inspect ⟨none, h⟩ ?_))
      refine Tried.keeps_require ⟨none, h⟩ fun hsame => hQ fun other hother _ => ?_
      obtain rfl := Option.some.inj hother
      obtain ⟨run, hrun, hidentity⟩ := (Option.any_eq_true _ _).mp hsame
      rw [State.identity, hrun, Option.map_some, of_decide_eq_true hidentity]

theorem Invocation.Tracked.stopped {owned : ManagedService} (h : u.Tracked none v s)
    (hstop : Stopped name (some owned.identity) s s') (hreplaces : u.Replaces owned.runId) :
    u.Tracked none v s' := by
  refine h.runs hstop.toOnlyRuns (Nat.le_of_eq hstop.fresh.symm) hstop.unbound
    (fun other identity hid => hstop.identity other ▸ hid)
    (fun other identity hid _ => (hstop.identity other).trans hid) fun id hid => ?_
  rcases hstop.touched id hid with hid | ⟨identity, -, rfl, hexpected⟩
  · exact .inl hid
  · obtain rfl := hexpected _ rfl
    exact .inr (.inr hreplaces)

theorem Removed.identity {isDone : Bool} (hremove : Removed name expected isDone s s')
    {other : String} {identity : RuntimeIdentity} (hid : s'.identity other = some identity) :
    s.identity other = some identity := by
  by_cases hother : other = name
  · subst hother
    rcases hremove.same with hsame | ⟨hnone, -⟩
    · exact hsame ▸ hid
    · cases hnone.symm.trans hid
  · exact hremove.other other hother ▸ hid

/-- A run that is owned was there before this invocation, so none of its own is removed for it. -/
theorem Invocation.Tracked.removed {owned : ManagedService} (h : u.Tracked none v s) {isDone : Bool}
    (hremove : Removed name (some owned.identity) isDone s s') (hreplaces : u.Replaces owned.runId)
    (hold : owned.runId < u.fresh) : u.Tracked none v s' := by
  refine h.runs hremove.toOnlyRuns (Nat.le_of_eq hremove.fresh.symm) hremove.unbound
    (fun other identity hid => hremove.identity hid) (fun other identity hid hnew => ?_)
    fun id hid => ?_
  · by_cases hother : other = name
    · subst hother
      rcases hremove.same with hsame | ⟨-, hwas⟩
      · exact hsame.trans hid
      · obtain rfl := hwas identity hid _ rfl
        exact absurd hnew (Nat.not_le.mpr hold)
    · exact (hremove.other other hother).trans hid
  · rcases hremove.touched id hid with hid | ⟨identity, -, rfl, hexpected⟩
    · exact .inl hid
    · obtain rfl := hexpected _ rfl
      exact .inr (.inr hreplaces)

theorem keeps_removeOwned {owned : ManagedService} {Q : Unit → Progress → State → Prop}
    (h : u.Tracked none v s) (hreplaces : u.Replaces owned.runId) (hold : owned.runId < u.fresh)
    (hQ : ∀ s', u.Tracked none v s' → u.Newer s s' → s'.identity name = none → Q () v s') :
    Keeps u.project (Tried.lift (call (.remove name (some owned.identity)))) Q u.Failed v s := by
  refine Tried.keeps_lift (holds_call (fun s' heffect => ?_) fun _ s' heffect => ?_)
  · exact ⟨none, h.removed heffect.remove hreplaces hold⟩
  · have hremove := heffect.remove
    exact hQ s' (h.removed hremove hreplaces hold)
      (.of_identity hremove.toOnlyRuns fun _ _ hid => .inl (hremove.identity hid))
      (hremove.gone rfl)

/-- A run that is owned is stopped and removed only where the plan says so. -/
theorem keeps_removePrevious {managed : Option ManagedService} {Q : Unit → Progress → State → Prop}
    (h : u.Tracked none v s) (hplan : u.Planned plan v s)
    (hprior : v.services.lookup plan.service = managed)
    (hQ : ∀ s', u.Tracked none v s' → u.Newer s s' → (plan.creates → u.IsNew plan.runName s') →
      (plan.action = .start → s' = s) → Q () v s') :
    Keeps u.project (removePrevious plan (managed.map ManagedService.identity)) Q u.Failed v s := by
  rw [removePrevious]
  by_cases haction : plan.action = .recreate
  · rw [if_pos haction]
    obtain ⟨-, owned, howned, hold⟩ := hplan.managed (.inr haction)
    obtain rfl : managed = some owned := hprior.symm.trans (hplan.same.trans howned)
    have hreplaces : u.Replaces owned.runId := ⟨plan, hplan.mem, haction, owned, howned, rfl⟩
    have hnotStart : plan.action ≠ .start := by
      rw [haction]
      exact nofun
    -- A run that has stopped is removed at once, any other is stopped first.
    split_ifs
    · refine keeps_removeOwned h hreplaces hold fun s' h' hnewer hnone => ?_
      exact hQ s' h' hnewer (fun _ identity hid => by cases hnone.symm.trans hid)
        fun hstart => absurd hstart hnotStart
    · refine Tried.keeps_bind (Tried.keeps_lift (holds_call (fun s' heffect => ?_)
        fun _ s₁ heffect => ?_))
      · exact ⟨none, h.stopped heffect.stop hreplaces⟩
      · have hstop := heffect.stop
        refine keeps_removeOwned (h.stopped hstop hreplaces) hreplaces hold
          fun s' h' hnewer hnone => ?_
        have hnewer₁ : u.Newer s s₁ := .of_identity hstop.toOnlyRuns fun other _ hid =>
          .inl (hstop.identity other ▸ hid)
        exact hQ s' h' (hnewer₁.trans hnewer) (fun _ identity hid => by cases hnone.symm.trans hid)
          fun hstart => absurd hstart hnotStart
  · rw [if_neg haction]
    refine Tried.keeps_pure (hQ s h (.refl s) (fun hcreates => ?_) fun _ => rfl)
    rw [ServicePlan.creates, Bool.or_eq_true, decide_eq_true_eq, decide_eq_true_eq] at hcreates
    exact hplan.isNew (hcreates.resolve_right haction)

/-- What stands after a start stood before, or is the run that it created. -/
theorem Started.identity (hstart : Started plan s s') {other : String} {identity : RuntimeIdentity}
    (hid : s'.identity other = some identity) : s.identity other = some identity ∨
      other = plan.runName ∧ plan.action ≠ .start ∧ s'.launched = some identity.runId ∧
        identity.runId = s.fresh ∧ s.fresh < s'.fresh := by
  by_cases hother : other = plan.runName
  · subst hother
    rcases hstart.same with ⟨-, hsame⟩ | ⟨hlaunched, hlt, haction, -, backend, hnew⟩
    · exact .inl (hsame ▸ hid)
    · obtain rfl := Option.some.inj (hnew.symm.trans hid)
      exact .inr ⟨rfl, haction, hlaunched, rfl, hlt⟩
  · exact .inl (hstart.other other hother ▸ hid)

theorem Started.stays (hstart : Started plan s s') {other : String} {identity : RuntimeIdentity}
    (hid : s.identity other = some identity) : s'.identity other = some identity := by
  by_cases hother : other = plan.runName
  · subst hother
    rcases hstart.same with ⟨-, hsame⟩ | ⟨-, -, -, hnone, -⟩
    · exact hsame.trans hid
    · cases hnone.symm.trans hid
  · exact (hstart.other other hother).trans hid

theorem Started.newer (hstart : Started plan s s') (hfresh : u.fresh ≤ s.fresh) : u.Newer s s' :=
  .of_identity hstart.toOnlyRuns fun _ _ hid =>
    (hstart.identity hid).imp_right fun ⟨_, _, _, heq, _⟩ => heq ▸ hfresh

/-- **The variables have a run that is created under a free name exactly if the ledger does.** What
the ledger says of such a name stays, and all else in the variables is of runs that stood before. -/
theorem Invocation.Tracked.records_launched (h : u.Tracked none v s)
    (hnone : s.identity name = none) {identity : RuntimeIdentity}
    (hid : identity.runId = s.fresh) : records v.services v.order name identity =
      records u.ledger.services u.ledger.order name identity := by
  rw [Bool.eq_iff_iff, records_iff h.consistent, records_iff h.ledger]
  constructor
  · rintro ⟨service, managed, hm, hname, rfl⟩
    rcases h.origin service managed hm with hledger | hlt
    · exact ⟨service, managed, hledger, hname, rfl⟩
    · exact absurd hid (Nat.ne_of_lt hlt)
  · rintro ⟨service, managed, hm, rfl, rfl⟩
    rcases h.kept service managed hm with hsame | hlt | ⟨identity, hstands, -⟩
    · exact ⟨service, managed, hsame, rfl, rfl⟩
    · exact absurd (hid ▸ hlt) (Nat.not_lt.mpr h.fresh)
    · cases hnone.symm.trans hstands

/-- The run that is being started goes to the variables. -/
theorem Invocation.Tracked.launch (h : u.Tracked none v s) (hplan : u.Planned plan v s)
    (hsaved : v.services = v.current.services ∧ v.order = v.current.order)
    (hnew : u.IsNew plan.runName s) (hstart : Started plan s s') :
    u.Tracked (some plan) { v with created := v.created ++ [plan] } s' where
  consistent := h.consistent
  named := h.named
  saved := fun hwritten => by
    rw [hstart.isUnwritten] at hwritten
    rw [ledgerOf, hstart.stored]
    exact h.saved hwritten
  fresh := Nat.le_trans h.fresh hstart.fresh
  created := by
    obtain ⟨older, hcreated, hbound⟩ := h.created
    rw [Option.toList_none, List.append_nil] at hcreated
    exact ⟨v.created, rfl, hcreated ▸ hbound⟩
  names := by
    intro q hq
    rcases List.mem_append.mp hq with hq | hq
    · exact h.names q hq
    · obtain rfl := List.mem_singleton.mp hq
      exact hplan.name
  distinct := by
    rw [List.map_append, List.map_singleton, List.nodup_append]
    refine ⟨h.distinct, List.nodup_singleton _, fun name hname other hother => ?_⟩
    obtain ⟨q, hq, rfl⟩ := List.mem_map.mp hname
    exact List.mem_singleton.mp hother ▸ hplan.other q hq
  identities := fun name hname => by
    obtain ⟨q, hq, hname⟩ := h.identities name hname
    exact ⟨q, List.mem_append_left _ hq, hname⟩
  clean := by
    intro q hq
    refine (hstart.newer h.fresh).isNew _ ?_
    rcases List.mem_append.mp hq with hq | hq
    · exact h.clean q hq
    · exact List.mem_singleton.mp hq ▸ hnew
  unbound := by
    intro q hq
    obtain rfl := Option.some.inj hq
    refine ⟨Finmap.lookup_eq_none.mpr fun hmem => ?_, hsaved⟩
    obtain ⟨q, hq, hname⟩ := h.identities plan.service hmem
    exact hplan.other q hq hname
  -- The new run is in no record yet: it is the one that is being started.
  recorded := fun name identity hid hfresh => by
    rcases hstart.identity hid with hold | ⟨rfl, -, hlaunched, -⟩
    · rcases h.recorded name identity hold hfresh with hrecords | ⟨-, q, hq, -⟩
      · exact .inl hrecords
      · cases hq
    · exact .inr ⟨hlaunched, plan, rfl, rfl⟩
  touched := hstart.touched ▸ h.touched
  noUnbound := hstart.unbound.trans h.noUnbound
  ledger := h.ledger
  below := fun name identity hid => by
    rcases hstart.identity hid with hold | ⟨-, -, -, heq, hlt⟩
    · exact Nat.lt_of_lt_of_le (h.below name identity hold) hstart.fresh
    · exact heq ▸ hlt
  origin := fun name managed hm =>
    (h.origin name managed hm).imp_right fun hlt => Nat.lt_of_lt_of_le hlt hstart.fresh
  kept := fun name managed hm => (h.kept name managed hm).imp_right fun hkept =>
    hkept.imp_right fun ⟨identity, hid, hnew⟩ => ⟨identity, hstart.stays hid, hnew⟩
  agrees := by
    intro q hq identity hid
    obtain rfl := Option.some.inj hq
    rcases hstart.same with ⟨hnone, -⟩ | ⟨hlaunched, -, -, hfree, -⟩
    · cases hnone.symm.trans hid
    · exact h.records_launched hfree (Option.some.inj (hid.symm.trans hlaunched))
  accepted := fun haccepted => by
    rw [Invocation.Accepted, hstart.preparedFor, hstart.receipts] at haccepted
    rw [hstart.receipts]
    exact h.accepted haccepted
  rejected := fun hrejected => by
    rw [Invocation.Accepted, hstart.preparedFor, hstart.receipts] at hrejected
    exact h.rejected hrejected

/-- An existing run that is started is who it was. -/
theorem Invocation.Tracked.started (h : u.Tracked none v s) (hstart : Started plan s s')
    (haction : plan.action = .start) : u.Tracked none v s' :=
  h.runs hstart.toOnlyRuns hstart.fresh hstart.unbound
    (fun _ _ hid => (hstart.identity hid).resolve_right fun hnew => hnew.2.1 haction)
    (fun _ _ hid _ => hstart.stays hid) fun _ hid => .inl (hstart.touched ▸ hid)

/-- The variables once the run of a plan is being started. -/
def Progress.launch (v : Progress) (plan : ServicePlan) : Progress :=
  { v with created := v.created ++ plan.launched.toList }

/-- The run is started and found running, or nothing but it is lost track of. -/
theorem keeps_startLaunched {Q : RuntimeIdentity → Progress → State → Prop}
    (hfresh : u.fresh ≤ s.fresh) (h : ∀ s', Started plan s s' → u.Tracked loose v s')
    (hQ : ∀ identity s', u.Tracked loose v s' → u.Newer s s' →
      s'.identity plan.runName = some identity → Q identity v s') :
    Keeps u.project (do
      Tried.lift (call (.start plan expected))
      match ← Tried.lift (call (.inspect plan.runName)) with
      | some run => do
        Tried.require (run.status = .running)
        return run.identity
      | none => Tried.raise) Q u.Failed v s := by
  refine Tried.keeps_bind (Tried.keeps_lift (holds_call
    (fun s' heffect => ⟨loose, h s' heffect.start⟩) fun _ s₁ heffect => ?_))
  have h₁ := h s₁ heffect.start
  refine Tried.keeps_bind (Tried.keeps_lift (holds_inspect ⟨loose, h₁⟩ ?_))
  cases hrun : s₁.runs plan.runName with
  | none => exact Tried.keeps_raise ⟨loose, h₁⟩
  | some run =>
    refine Tried.keeps_bind (Tried.keeps_require ⟨loose, h₁⟩ fun _ => Tried.keeps_pure ?_)
    refine hQ run.identity s₁ h₁ (heffect.start.newer hfresh) ?_
    rw [State.identity, hrun, Option.map_some]

/-- What is neither left alone nor created is started. -/
theorem ServicePlan.eq_start (hcreates : plan.creates = false) (hnoop : plan.action ≠ .noop) :
    plan.action = .start := by
  rw [ServicePlan.creates, Bool.or_eq_false_iff, decide_eq_false_iff_not,
    decide_eq_false_iff_not] at hcreates
  cases haction : plan.action with
  | noop => exact absurd haction hnoop
  | create => exact absurd haction hcreates.1
  | start => rfl
  | recreate => exact absurd haction hcreates.2

theorem keeps_startRun {Q : RuntimeIdentity → Progress → State → Prop} (h : u.Tracked none v s)
    (hplan : u.Planned plan v s) (hnoop : plan.action ≠ .noop)
    (hsaved : v.services = v.current.services ∧ v.order = v.current.order)
    (hnew : plan.creates → u.IsNew plan.runName s)
    (hQ : ∀ identity s', u.Tracked plan.launched (v.launch plan) s' → u.Newer s s' →
      s'.identity plan.runName = some identity → Q identity (v.launch plan) s') :
    Keeps u.project (startRun plan expected) Q u.Failed v s := by
  rw [startRun]
  cases hcreates : plan.creates with
  | true =>
    have hlaunched : plan.launched = some plan := if_pos hcreates
    have hlaunch : v.launch plan = { v with created := v.created ++ [plan] } := by
      rw [Progress.launch, hlaunched]
      rfl
    rw [hlaunched, hlaunch] at hQ
    rw [if_pos rfl]
    exact Tried.keeps_bind (Tried.keeps_modify (keeps_startLaunched h.fresh
      (fun _ hstart => h.launch hplan hsaved (hnew hcreates) hstart) hQ))
  | false =>
    have hlaunched : plan.launched = none := if_neg (by rw [hcreates]; exact nofun)
    have hlaunch : v.launch plan = v := by
      rw [Progress.launch, hlaunched, Option.toList_none, List.append_nil]
    have haction : plan.action = .start := ServicePlan.eq_start hcreates hnoop
    rw [hlaunched, hlaunch] at hQ
    rw [if_neg Bool.false_ne_true]
    exact keeps_startLaunched h.fresh (fun _ hstart => h.started hstart haction) hQ

/-! ### The variables and the ledger after a service -/

/-- The service that was started goes to the variables. -/
theorem Invocation.Tracked.record (h : u.Tracked plan.launched v s) (options : Options)
    {identity : RuntimeIdentity} (hname : plan.runName = u.project.runName plan.service)
    (hid : s.identity plan.runName = some identity)
    (hother : plan.launched = none → ∀ created ∈ v.created, created.service ≠ plan.service)
    (hprior : ∀ managed, u.ledger.services.lookup plan.service = some managed →
      managed.runName = plan.runName ∧ (plan.launched = none → managed.runId < u.fresh)) :
    u.Tracked none (recordService options plan identity v) s := by
  set managed : ManagedService := ⟨plan.service, plan.runName,
    appliedDigest options plan (v.services.lookup plan.service), identity.runId, identity.backend⟩
    with hmanaged
  have hconsistent : Consistent (v.services.insert plan.service managed)
      (if plan.service ∈ v.order then v.order else v.order ++ [plan.service]) :=
    h.consistent.insert plan.service managed
  obtain ⟨older, hcreated, hbound⟩ := h.created
  -- A plan creates its run or starts the one that is there; only the first is undone.
  have hcases : plan.launched = none ∧ plan.creates = false ∨
      plan.launched = some plan ∧ plan.creates = true := by
    rw [ServicePlan.launched]
    cases plan.creates with
    | false => exact .inl ⟨rfl, rfl⟩
    | true => exact .inr ⟨rfl, rfl⟩
  have holder : ∀ q ∈ older, q.service ≠ plan.service := by
    intro q hq
    rcases hcases with ⟨hnone, -⟩ | ⟨hsome, -⟩
    · exact hother hnone q (hcreated ▸ List.mem_append_left _ hq)
    · have hdistinct := h.distinct
      rw [hcreated, hsome, Option.toList_some, List.map_append, List.map_singleton,
        List.nodup_append] at hdistinct
      exact hdistinct.2.2 _ (List.mem_map_of_mem hq) _ (List.mem_singleton_self _)
  have hlaunched : ∀ q ∈ plan.launched, q = plan := by
    intro q hq
    rcases hcases with ⟨hnone, -⟩ | ⟨hsome, -⟩
    · rw [hnone] at hq
      cases hq
    · exact (Option.some.inj (hsome.symm.trans hq)).symm
  -- The records of the other services stay.
  have hlookup : ∀ name, name ≠ plan.service →
      (v.services.insert plan.service managed).lookup name = v.services.lookup name :=
    fun name hname => Finmap.lookup_insert_of_ne _ hname
  have hidentities : ∀ name, name ≠ plan.service →
      (recordService options plan identity v).createdIdentities.lookup name =
        v.createdIdentities.lookup name := by
    intro name hname
    show (if plan.creates then v.createdIdentities.insert plan.service identity
      else v.createdIdentities).lookup name = _
    split_ifs
    · exact Finmap.lookup_insert_of_ne _ hname
    · rfl
  refine
    { consistent := hconsistent
      named := fun name m hm => ?_
      saved := h.saved
      fresh := h.fresh
      created := ⟨v.created, (List.append_nil _).symm, fun q hq => ?_⟩
      names := h.names
      distinct := h.distinct
      identities := fun name hmem => ?_
      clean := h.clean
      unbound := nofun
      recorded := fun name identity' hid' hfresh => .inl ?_
      touched := h.touched
      noUnbound := h.noUnbound
      ledger := h.ledger
      below := h.below
      origin := fun name m hm => ?_
      kept := fun name m hm => ?_
      agrees := nofun
      accepted := h.accepted
      rejected := h.rejected }
  · change (v.services.insert plan.service managed).lookup name = some m at hm
    by_cases hservice : name = plan.service
    · rw [hservice, Finmap.lookup_insert] at hm
      obtain rfl := Option.some.inj hm
      exact ⟨hservice.symm, hservice ▸ hname⟩
    · rw [hlookup name hservice] at hm
      exact h.named name m hm
  · rw [hcreated] at hq
    rcases List.mem_append.mp hq with hold | hnew
    · obtain ⟨e, m, he, hfresh, hm, hme⟩ := hbound q hold
      refine ⟨e, m, (hidentities _ (holder q hold)).trans he, hfresh, ?_, hme⟩
      exact (hlookup _ (holder q hold)).trans hm
    · have hsome : q ∈ plan.launched := Option.mem_toList.mp hnew
      obtain rfl := hlaunched q hsome
      have hcreates : q.creates = true := by
        rcases hcases with ⟨hnone, -⟩ | ⟨-, hcreates⟩
        · rw [hnone] at hsome
          cases hsome
        · exact hcreates
      refine ⟨identity, managed, ?_, h.clean q (hcreated ▸ hq) identity hid,
        Finmap.lookup_insert _, rfl⟩
      show (if q.creates then v.createdIdentities.insert q.service identity
        else v.createdIdentities).lookup q.service = _
      rw [if_pos hcreates, Finmap.lookup_insert]
  · change name ∈ (if plan.creates then v.createdIdentities.insert plan.service identity
      else v.createdIdentities) at hmem
    split_ifs at hmem with hcreates
    · rcases Finmap.mem_insert.mp hmem with rfl | hmem
      · refine ⟨plan, ?_, rfl⟩
        show plan ∈ v.created
        rw [hcreated, ServicePlan.launched, if_pos hcreates]
        exact List.mem_append_right _ (List.mem_singleton_self _)
      · exact h.identities name hmem
    · exact h.identities name hmem
  · refine (records_iff hconsistent).mpr ?_
    by_cases hrun : name = plan.runName
    · subst hrun
      obtain rfl := Option.some.inj (hid.symm.trans hid')
      exact ⟨plan.service, managed, Finmap.lookup_insert _, rfl, rfl⟩
    · rcases h.recorded name identity' hid' hfresh with hrecords | ⟨-, q, hq, hqname⟩
      · obtain ⟨service, m, hm, hmname, hmid⟩ := (records_iff h.consistent).mp hrecords
        refine ⟨service, m, (hlookup service fun hservice => hrun ?_).trans hm, hmname, hmid⟩
        rw [← hmname, (h.named service m hm).2, hservice, hname]
      · exact absurd (hlaunched q hq ▸ hqname.symm) hrun
  · change (v.services.insert plan.service managed).lookup name = some m at hm
    by_cases hservice : name = plan.service
    · rw [hservice, Finmap.lookup_insert] at hm
      obtain rfl := Option.some.inj hm
      exact .inr (h.below plan.runName identity hid)
    · exact h.origin name m ((hlookup name hservice).symm.trans hm)
  · change (v.services.insert plan.service managed).lookup name = some m ∨ _
    by_cases hservice : name = plan.service
    · subst hservice
      obtain ⟨hrunName, hold⟩ := hprior m hm
      rcases hcases with ⟨hnone, -⟩ | ⟨hsome, -⟩
      · exact .inr (.inl (hold hnone))
      · have hmem : plan ∈ v.created := by
          rw [hcreated, hsome]
          exact List.mem_append_right _ List.mem_cons_self
        exact .inr (.inr ⟨identity, hrunName ▸ hid, h.clean plan hmem identity hid⟩)
    · rw [hlookup name hservice]
      exact h.kept name m hm

/-- The ledger is written as the variables are. -/
theorem keeps_saveProgress {Q : Unit → Progress → State → Prop} (h : u.Tracked none v s)
    (haccepted : u.Accepted s)
    (hQ : ∀ record s', u.Going { v with current := record } s' → s'.runs = s.runs →
      Q () { v with current := record } s') :
    Keeps u.project (saveProgress u.project) Q u.Failed v s := by
  refine Tried.keeps_bind (Tried.keeps_modify (Tried.keeps_bind (Tried.keeps_get
    (Tried.keeps_lift (holds_writeState (fun stored => ⟨none, ?_⟩) (hQ _ _ ?_ rfl))))))
  · exact { h with saved := nofun, unbound := nofun }
  · exact ⟨{ h with saved := fun _ => ⟨rfl, rfl, rfl⟩, unbound := nofun }, rfl, rfl, rfl, haccepted⟩

/-- The volumes of a service agree with those that were prepared. -/
theorem keeps_bindVolumes {backend : Backend} {names : List String}
    {Q : Unit → Progress → State → Prop} (h : u.Tracked none v s) (haccepted : u.Accepted s)
    (hQ : ∀ volumes, u.Tracked none { v with volumes := volumes } s →
      Q () { v with volumes := volumes } s) :
    Keeps u.project (bindVolumes u.project backend names) Q u.Failed v s := by
  induction names generalizing v with
  | nil => exact Tried.keeps_pure (hQ v.volumes h)
  | cons name names ih =>
    refine Tried.keeps_bind (Tried.keeps_get ?_)
    cases hspec : u.project.volume name with
    | none => exact Tried.keeps_raise ⟨none, h⟩
    | some spec =>
      refine Tried.keeps_bind (Tried.keeps_require ⟨none, h⟩ fun hagrees => ?_)
      refine Tried.keeps_bind (Tried.keeps_modify (ih ?_ hQ))
      refine { h with
        unbound := nofun
        accepted := fun _ volume hvolume => ?_
        rejected := fun hrejected => absurd haccepted hrejected }
      have hlookup := h.accepted haccepted volume hvolume
      show (v.volumes.insert name _).lookup volume.name = some volume
      by_cases hname : volume.name = name
      · subst hname
        rw [hlookup, Option.all_some, Bool.and_eq_true, decide_eq_true_eq,
          decide_eq_true_eq] at hagrees
        have hvolume : (⟨volume.name, backend, spec.sizeMib * mib⟩ : ManagedVolume) = volume := by
          rw [show backend = volume.backend from hagrees.1.symm,
            show spec.sizeMib * mib = volume.sizeBytes from hagrees.2.symm]
        rw [Finmap.lookup_insert, hvolume]
      · rw [Finmap.lookup_insert_of_ne _ hname, hlookup]

/-- The volumes that were prepared are recorded, unless they do not pass the checks. -/
theorem keeps_recordVolumes {prepared : List ServicePlan} {supplied : List ManagedVolume}
    {Q : Unit → Progress → State → Prop} (h : u.Going v s) (hvolumes : v.volumes = u.ledger.volumes)
    (hQ : ∀ v' s', u.Going v' s' → s'.runs = s.runs → v'.services = v.services →
      v'.created = v.created → Q () v' s') :
    Keeps u.project (recordVolumes u.project prepared supplied) Q u.Failed v
      { s with receipts := supplied, preparedFor := prepared } := by
  refine Tried.keeps_bind (Tried.keeps_get ?_)
  -- With one bad receipt nothing is merged, and nothing of it is recorded.
  cases hmerge : mergePreparedVolumes u.project prepared v.volumes supplied with
  | none =>
    have hrejected : ¬u.Accepted { s with receipts := supplied, preparedFor := prepared } := by
      show ¬(mergePreparedVolumes u.project prepared u.ledger.volumes supplied).isSome
      rw [← hvolumes, hmerge]
      exact Bool.false_ne_true
    exact Tried.keeps_raise ⟨none, { h.tracked with
      accepted := fun haccepted => absurd haccepted hrejected
      rejected := fun _ => hvolumes
      unbound := nofun }⟩
  | some merged =>
    have haccepted : u.Accepted { s with receipts := supplied, preparedFor := prepared } := by
      show (mergePreparedVolumes u.project prepared u.ledger.volumes supplied).isSome
      rw [← hvolumes, hmerge]
      rfl
    obtain ⟨expected, -, hmerged⟩ := Option.bind_eq_some_iff.mp hmerge
    have htracked : u.Tracked none { v with volumes := merged }
        { s with receipts := supplied, preparedFor := prepared } :=
      { h.tracked with
        accepted := fun _ => (mergeVolumes_lookup hmerged).1
        rejected := fun hrejected => absurd haccepted hrejected
        unbound := nofun }
    refine Tried.keeps_bind (Tried.keeps_modify ?_)
    split_ifs with hsame
    · exact Tried.keeps_pure (hQ _ _ ⟨htracked, h.services, h.order, hsame, haccepted⟩ rfl rfl rfl)
    · exact keeps_saveProgress htracked haccepted fun record s' hgoing hruns =>
        hQ _ s' hgoing hruns rfl rfl

/-- The volumes are prepared. -/
theorem keeps_prepareVolumes {prepared : List ServicePlan} {Q : Unit → Progress → State → Prop}
    (h : u.Going v s) (hvolumes : v.volumes = u.ledger.volumes) (hreceipts : s.receipts = [])
    (hprepared : s.preparedFor = [])
    (hQ : ∀ v' s', u.Going v' s' → s'.runs = s.runs → v'.services = v.services →
      v'.created = v.created → Q () v' s') :
    Keeps u.project (prepareVolumes u.project prepared) Q u.Failed v s := by
  have hdone : ∀ current (receipts : Receipts), Keeps u.project (do
      recordVolumes u.project current receipts.volumes
      Tried.require receipts.isComplete) Q u.Failed v
      { s with receipts := receipts.volumes, preparedFor := current } := fun current receipts =>
    Tried.keeps_bind (keeps_recordVolumes h hvolumes fun v' s' hgoing hruns hservices hcreated =>
      Tried.keeps_require ⟨none, hgoing.tracked⟩ fun _ => hQ v' s' hgoing hruns hservices hcreated)
  rw [prepareVolumes]
  split
  · have hs : ({ s with receipts := [], preparedFor := [] } : State) = s := by
      rw [← hreceipts, ← hprepared]
    exact hs ▸ keeps_recordVolumes h hvolumes hQ
  · refine Tried.keeps_bind (Tried.keeps_lift (holds_prepare ⟨none, h.tracked⟩ ⟨none, ?_⟩
      fun receipts => hdone _ receipts))
    exact { h.tracked with accepted := nofun, rejected := fun _ => hvolumes, unbound := nofun }

/-- What the plans that are left rely on stays when one of them is carried out. -/
theorem Invocation.Planned.next {q : ServicePlan} {v' : Progress} (h : u.Planned q v s)
    (hq : q.service ≠ plan.service) (hnewer : u.Newer s s')
    (hservices : ∀ name, name ≠ plan.service → v'.services.lookup name = v.services.lookup name)
    (hcreated : ∀ created ∈ v'.created, created ∈ v.created ∨ created = plan) :
    u.Planned q v' s' where
  mem := h.mem
  name := h.name
  isNew := fun haction => hnewer.isNew _ (h.isNew haction)
  managed := h.managed
  same := (hservices _ hq).trans h.same
  other := fun created hc => by
    rcases hcreated created hc with hc | rfl
    · exact h.other created hc
    · exact fun heq => hq heq.symm

/-- **A service is created, started or recreated**, and recorded. -/
theorem keeps_applyPlan {options : Options} {Q : Unit → Progress → State → Prop} (h : u.Going v s)
    (hplan : u.Planned plan v s) (hnoop : plan.action ≠ .noop)
    (hQ : ∀ v' s', u.Going v' s' → u.Newer s s' →
      (∀ name, name ≠ plan.service → v'.services.lookup name = v.services.lookup name) →
      (∀ created ∈ v'.created, created ∈ v.created ∨ created = plan) → Q () v' s') :
    Keeps u.project (applyPlan u.project options plan) Q u.Failed v s := by
  refine Tried.keeps_bind (Tried.keeps_get ?_)
  refine Tried.keeps_bind (keeps_checkManaged h.tracked fun hmanaged => ?_)
  refine Tried.keeps_bind (keeps_removePrevious h.tracked hplan rfl
    fun s₁ h₁ hnewer₁ hnew₁ hsame₁ => ?_)
  have hplan₁ : u.Planned plan v s₁ :=
    { hplan with isNew := fun hc => hnewer₁.isNew _ (hplan.isNew hc) }
  refine Tried.keeps_bind (keeps_startRun h₁ hplan₁ hnoop ⟨h.services, h.order⟩ hnew₁
    fun identity s₂ h₂ hnewer₂ hid₂ => ?_)
  refine Tried.keeps_bind (Tried.keeps_require ⟨_, h₂⟩ fun _ => ?_)
  -- The run stands, and goes to the record before anything else is tried.
  have h₃ : u.Tracked none (recordService options plan identity (v.launch plan)) s₂ := by
    refine h₂.record options hplan.name hid₂ (fun hnone created hcreated =>
      hplan.other created ?_) fun managed hmanaged => ⟨?_, fun hnone => ?_⟩
    · change created ∈ v.created ++ plan.launched.toList at hcreated
      rwa [hnone, Option.toList_none, List.append_nil] at hcreated
    · rw [(h.tracked.named _ managed (hplan.same.trans hmanaged)).2, hplan.name]
    · have hcreates : plan.creates = false := by
        rw [ServicePlan.launched] at hnone
        split_ifs at hnone with hcreates
        exact Bool.eq_false_iff.mpr hcreates
      obtain ⟨-, owned, howned, hold⟩ := hplan.managed (.inl (ServicePlan.eq_start hcreates hnoop))
      exact Option.some.inj (howned.symm.trans hmanaged) ▸ hold
  have haccepted : u.Accepted s₂ := hnewer₂.accepted (hnewer₁.accepted h.accepted)
  have hlaunched : ∀ created ∈ (v.launch plan).created, created ∈ v.created ∨ created = plan := by
    intro created hcreated
    rcases List.mem_append.mp hcreated with hold | hnew
    · exact .inl hold
    · rw [ServicePlan.launched] at hnew
      split_ifs at hnew
      · exact .inr (List.mem_singleton.mp hnew)
      · cases hnew
  have hsaved : ∀ volumes, u.Tracked none
      { recordService options plan identity (v.launch plan) with volumes := volumes } s₂ →
      Keeps u.project (saveProgress u.project) Q u.Failed
        { recordService options plan identity (v.launch plan) with volumes := volumes } s₂ :=
    fun volumes h₄ => keeps_saveProgress h₄ haccepted fun record s' hgoing hruns => by
      have hnewer₃ : u.Newer s₂ s' := ⟨fun name hname => by
        rwa [Invocation.IsNew, State.identity, hruns], fun _ => hgoing.accepted⟩
      exact hQ _ s' hgoing ((hnewer₁.trans hnewer₂).trans hnewer₃)
        (fun name hname => Finmap.lookup_insert_of_ne _ hname) hlaunched
  refine Tried.keeps_bind (Tried.keeps_modify ?_)
  split_ifs
  · exact hsaved _ h₃
  · cases hnames : referencedManagedVolumes u.project [plan.service] with
    | none => exact Tried.keeps_raise ⟨none, h₃⟩
    | some names =>
      exact Tried.keeps_bind (keeps_bindVolumes h₃ haccepted fun volumes h₄ => hsaved volumes h₄)

/-- **The services one by one.** -/
theorem keeps_applyPlans {options : Options} {plans : List ServicePlan}
    {Q : Unit → Progress → State → Prop} (h : u.Going v s)
    (hplans : ∀ plan ∈ plans, u.Planned plan v s) (hnodup : (plans.map ServicePlan.service).Nodup)
    (hQ : ∀ v' s', u.Going v' s' → Q () v' s') :
    Keeps u.project (applyPlans u.project options plans) Q u.Failed v s := by
  induction plans generalizing v s with
  | nil => exact Tried.keeps_pure (hQ v s h)
  | cons plan plans ih =>
    obtain ⟨hplan, hrest⟩ := List.forall_mem_cons.mp hplans
    rw [List.map_cons, List.nodup_cons] at hnodup
    rw [applyPlans]
    split_ifs with hnoop
    · exact ih h hrest hnodup.2
    · refine Tried.keeps_bind (keeps_applyPlan h hplan hnoop
        fun v' s' hgoing hnewer hservices hcreated => ih hgoing (fun q hq => ?_) hnodup.2)
      refine (hrest q hq).next (fun heq => hnodup.1 ?_) hnewer hservices hcreated
      exact heq ▸ List.mem_map_of_mem hq

/-- The order of the ledger is refreshed. -/
theorem keeps_refreshOrder {Q : Unit → Progress → State → Prop} (h : u.Going v s)
    (hQ : ∀ v' s', Q () v' s') : Keeps u.project (refreshOrder u.project) Q u.Failed v s := by
  refine Tried.keeps_bind (Tried.keeps_get ?_)
  cases horder : successfulServiceOrder u.project v.services v.order with
  | none => exact Tried.keeps_raise ⟨none, h.tracked⟩
  | some order =>
    dsimp only
    split_ifs
    · exact Tried.keeps_pure (hQ v s)
    · have hconsistent := successfulServiceOrder_consistent horder h.tracked.consistent.1
      refine Tried.keeps_bind (Tried.keeps_modify (keeps_saveProgress
        { h.tracked with
          consistent := hconsistent
          unbound := nofun
          agrees := nofun
          recorded := fun name identity hid hnew => ?_ } h.accepted fun _ s' _ _ => hQ _ s'))
      rw [records_congr h.tracked.consistent hconsistent]
      exact h.tracked.recorded name identity hid hnew

/-- **What `up_project` tries is tracked** wherever it raises. -/
theorem keeps_upBody {options : Options} {plans prepared : List ServicePlan}
    (h : u.Going v s) (hvolumes : v.volumes = u.ledger.volumes) (hreceipts : s.receipts = [])
    (hprepared : s.preparedFor = []) (hplans : ∀ plan ∈ plans, u.Planned plan v s)
    (hnodup : (plans.map ServicePlan.service).Nodup) :
    Keeps u.project (upBody u.project options plans prepared) (fun _ _ _ => True) u.Failed v s := by
  refine Tried.keeps_bind (keeps_prepareVolumes h hvolumes hreceipts hprepared
    fun v₁ s₁ hgoing₁ hruns₁ hservices₁ hcreated₁ => ?_)
  refine Tried.keeps_bind (keeps_applyPlans hgoing₁ (fun plan hplan => ?_) hnodup
    fun v₂ s₂ hgoing₂ => keeps_refreshOrder hgoing₂ fun _ _ => trivial)
  have hold := hplans plan hplan
  refine ⟨hold.mem, hold.name, fun haction => ?_, hold.managed, ?_, ?_⟩
  · rw [Invocation.IsNew, State.identity, hruns₁]
    exact hold.isNew haction
  · rw [hservices₁]
    exact hold.same
  · rw [hcreated₁]
    exact hold.other

end Palimpsest.Runtime
