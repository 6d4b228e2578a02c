import Palimpsest.Runtime.UpPlan

/-!
# What a `project up` that succeeds leaves

While the services are applied one by one, those that are done are recorded with the digests they
should have, and run as they are recorded (`IsUp`, `Underway`). Applying one of them (`Applied`)
changes its own record and the run under its name only; and no two of them share a name, since a
name that is taken can neither be planned for twice nor be started anew (`Underway.apart`).
-/

namespace Palimpsest.Runtime

open Calls Calls.Program

variable {project : Project} {s s' : State} {name : String} {expected : Option RuntimeIdentity}
  {D : String → String → Prop} {options : Options} {ledger : ProjectState} {plan : ServicePlan}
  {v : Progress}

/-- Where the part returns, variables and states are as `Q` says. -/
abbrev Succeeds {α : Type} (project : Project) (m : Body α) (Q : α → Progress → State → Prop)
    (v : Progress) (s : State) : Prop :=
  Keeps project m Q (fun _ _ => True) v s

/-! ### Which run a call can change -/

/-- The name whose run a call can change. -/
def Call.runName : Call → Option String
  | .start plan _ => some plan.runName
  | .stop name _ => some name
  | .remove name _ => some name
  | _ => none

theorem runs_setRun (run : Option Run) {other : String} (h : other ≠ name) :
    (s.setRun name run).runs other = s.runs other :=
  Function.update_of_ne h _ _

theorem Effect.runs_eq {c : Call} {a : Option (Answer c)} (h : Effect project c a s s')
    (hname : c.runName ≠ some name) : s'.runs name = s.runs name := by
  by_cases hquiet : c.isQuiet
  · rw [h.quiet hquiet]
  -- A call that is not quiet changes the run that it names, and no other.
  · obtain ⟨o, h⟩ := h
    cases c with
    | readState => exact absurd rfl hquiet
    | inspect other => exact absurd rfl hquiet
    | desiredDigest service => exact absurd rfl hquiet
    | resolve service => exact absurd rfl hquiet
    | portAvailable port replacing => exact absurd rfl hquiet
    | preflight plans => exact absurd rfl hquiet
    | preflightDown targets volumes => exact absurd rfl hquiet
    | removeVolume volume => exact absurd rfl hquiet
    | writeState record => cases o <;> exact (Prod.mk.inj h).2 ▸ rfl
    | prepare plans =>
      have hcases : ∀ b, finish o (⟨[], true⟩ : Receipts) s
          { s with receipts := [], preparedFor := plans } = (b, s') →
          s'.runs name = s.runs name := by
        intro b hfinish
        rcases finish_cases hfinish with ⟨rfl, -⟩ | ⟨rfl, -⟩ <;> rfl
      cases o with
      | prepared receipts => exact (Prod.mk.inj h).2 ▸ rfl
      | _ => exact hcases _ h
    | start plan expected =>
      have hother : name ≠ plan.runName := fun heq => hname (heq ▸ rfl)
      rw [respond, respondStart] at h
      split at h
      · split_ifs at h
        · rcases finish_cases h with ⟨rfl, -⟩ | ⟨rfl, -⟩
          · rfl
          · exact runs_setRun _ hother
        · exact (Prod.mk.inj h).2 ▸ rfl
      · exact (Prod.mk.inj h).2 ▸ rfl
      · exact (Prod.mk.inj h).2 ▸ rfl
      · rcases finish_cases h with ⟨rfl, -⟩ | ⟨rfl, -⟩
        · rfl
        · exact runs_setRun _ hother
    | stop other expected =>
      have hother : name ≠ other := fun heq => hname (heq ▸ rfl)
      rw [respond, respondStop] at h
      split at h
      · split_ifs at h
        · rcases finish_cases h with ⟨rfl, -⟩ | ⟨rfl, -⟩
          · rfl
          · exact runs_setRun _ hother
        · exact (Prod.mk.inj h).2 ▸ rfl
      · exact (Prod.mk.inj h).2 ▸ rfl
    | remove other expected =>
      have hother : name ≠ other := fun heq => hname (heq ▸ rfl)
      rw [respond, respondRemove] at h
      split at h
      · split_ifs at h
        · rcases finish_cases h with ⟨rfl, -⟩ | ⟨rfl, -⟩
          · rw [State.noteRemoval_runs]
          · rw [State.noteRemoval_runs]
            exact runs_setRun _ hother
        · exact (Prod.mk.inj h).2 ▸ rfl
      · rw [finish_same h, State.noteRemoval_runs]

/-- A new run is started under a name that is free. -/
theorem Effect.start_free (h : Effect project (.start plan expected) (some ()) s s')
    (haction : plan.action ≠ .start) : s.runs plan.runName = none := by
  obtain ⟨o, h⟩ := h
  rw [respond, respondStart] at h
  split at h
  · next hstart _ => exact absurd hstart haction
  · next hstart _ => exact absurd hstart haction
  · cases (Prod.mk.inj h).1
  · next hnone _ => exact hnone

/-! ### One service -/

/-- What applying a plan does. -/
structure Applied (project : Project) (plan : ServicePlan) (v : Progress) (s : State)
    (v' : Progress) (s' : State) : Prop where
  other : ∀ name, name ≠ plan.runName → s'.runs name = s.runs name
  isFree : plan.action = .create → s.runs plan.runName = none
  run : ∃ run, s'.runs plan.runName = some run ∧ run.status = .running ∧
    v'.services = v.services.insert plan.service
      ⟨plan.service, plan.runName, plan.configDigest, run.runId, run.backend⟩
  order : v'.order = if plan.service ∈ v.order then v.order else v.order ++ [plan.service]
  current : v'.current = ⟨project.configDigest, v'.services, v'.order, v'.volumes⟩
  stored : s'.stored = some v'.current

theorem succeeds_saveProgress {Q : Unit → Progress → State → Prop}
    (hQ : ∀ record : ProjectState, record = ⟨project.configDigest, v.services, v.order, v.volumes⟩ →
      Q () { v with current := record } { s with stored := some record }) :
    Succeeds project (saveProgress project) Q v s := by
  refine Tried.keeps_bind (Tried.keeps_modify (Tried.keeps_bind (Tried.keeps_get ?_)))
  exact Tried.keeps_lift (holds_writeState (fun _ => trivial) (hQ _ rfl))

theorem succeeds_checkManaged {prior : Option ManagedService} {Q : Unit → Progress → State → Prop}
    (hQ : Q () v s) : Succeeds project (checkManaged plan prior) Q v s := by
  cases prior with
  | none => exact Tried.keeps_pure hQ
  | some managed =>
    rw [checkManaged]
    split
    · exact Tried.keeps_bind (Tried.keeps_lift (holds_inspect trivial
        (Tried.keeps_require trivial fun _ => hQ)))
    · exact Tried.keeps_pure hQ

theorem succeeds_removePrevious {Q : Unit → Progress → State → Prop}
    (hQ : ∀ s', (∀ name, name ≠ plan.runName → s'.runs name = s.runs name) →
      (plan.action = .create → s' = s) → Q () v s') :
    Succeeds project (removePrevious plan expected) Q v s := by
  rw [removePrevious]
  have hne : ∀ {name}, name ≠ plan.runName → some plan.runName ≠ some name :=
    fun hname heq => hname (Option.some.inj heq).symm
  by_cases haction : plan.action = .recreate
  · have hcreate : ∀ {s' : State}, plan.action = .create → s' = s := by
      intro s' hc
      rw [haction] at hc
      cases hc
    rw [if_pos haction]
    split_ifs
    · exact Tried.keeps_lift (holds_call (fun _ _ => trivial) fun _ s' heffect =>
        hQ s' (fun _ hname => heffect.runs_eq (hne hname)) hcreate)
    · refine Tried.keeps_bind (Tried.keeps_lift (holds_call (fun _ _ => trivial)
        fun _ s₁ hstop => ?_))
      refine Tried.keeps_lift (holds_call (fun _ _ => trivial) fun _ s' hremove =>
        hQ s' (fun name hname => ?_) hcreate)
      exact (hremove.runs_eq (hne hname)).trans (hstop.runs_eq (hne hname))
  · rw [if_neg haction]
    exact Tried.keeps_pure (hQ s (fun _ _ => rfl) fun _ => rfl)

/-- The start of a run, and the look at it. -/
theorem succeeds_started {Q : RuntimeIdentity → Progress → State → Prop}
    (hQ : ∀ created run s', (∀ name, name ≠ plan.runName → s'.runs name = s.runs name) →
      (plan.action ≠ .start → s.runs plan.runName = none) →
      s'.runs plan.runName = some run → run.status = .running →
      Q run.identity { v with created := created } s') (created : List ServicePlan)
    (expected : Option RuntimeIdentity) :
    Succeeds project (do
      Tried.lift (call (.start plan expected))
      match ← Tried.lift (call (.inspect plan.runName)) with
      | some run => do
        Tried.require (run.status = .running)
        return run.identity
      | none => Tried.raise) Q { v with created := created } s := by
  refine Tried.keeps_bind (Tried.keeps_lift (holds_call (fun _ _ => trivial)
    fun _ s' heffect => ?_))
  refine Tried.keeps_bind (Tried.keeps_lift (holds_inspect trivial ?_))
  cases hrun : s'.runs plan.runName with
  | none => exact Tried.keeps_raise trivial
  | some run =>
    refine Tried.keeps_bind (Tried.keeps_require trivial fun hstatus => Tried.keeps_pure ?_)
    exact hQ created run s' (fun _ hname => heffect.runs_eq fun heq =>
      hname (Option.some.inj heq).symm) heffect.start_free hrun (of_decide_eq_true hstatus)

theorem succeeds_startRun {Q : RuntimeIdentity → Progress → State → Prop}
    (hQ : ∀ created run s', (∀ name, name ≠ plan.runName → s'.runs name = s.runs name) →
      (plan.action ≠ .start → s.runs plan.runName = none) →
      s'.runs plan.runName = some run → run.status = .running →
      Q run.identity { v with created := created } s') :
    Succeeds project (startRun plan expected) Q v s := by
  rw [startRun]
  by_cases hcreates : plan.creates
  · rw [if_pos hcreates]
    exact Tried.keeps_bind (Tried.keeps_modify (succeeds_started hQ _ _))
  · rw [if_neg hcreates]
    exact succeeds_started hQ v.created _

theorem succeeds_bindVolumes {backend : Backend} {names : List String}
    {Q : Unit → Progress → State → Prop} (hQ : ∀ volumes, Q () { v with volumes := volumes } s) :
    Succeeds project (bindVolumes project backend names) Q v s := by
  induction names generalizing v with
  | nil => exact hQ v.volumes
  | cons name names ih =>
    refine Tried.keeps_bind (Tried.keeps_get ?_)
    cases project.volume name with
    | none => exact Tried.keeps_raise trivial
    | some spec =>
      exact Tried.keeps_bind (Tried.keeps_require trivial fun _ =>
        Tried.keeps_bind (Tried.keeps_modify (ih fun volumes => hQ volumes)))

/-- **A plan is applied.** -/
theorem succeeds_applyPlan {Q : Unit → Progress → State → Prop} (hno : options.noRecreate = false)
    (hQ : ∀ v' s', Applied project plan v s v' s' → Q () v' s') :
    Succeeds project (applyPlan project options plan) Q v s := by
  refine Tried.keeps_bind (Tried.keeps_get (Tried.keeps_bind (succeeds_checkManaged ?_)))
  refine Tried.keeps_bind (succeeds_removePrevious fun s₁ hother₁ hsame₁ => ?_)
  refine Tried.keeps_bind (succeeds_startRun fun created run s₂ hother₂ hfree hrun hstatus => ?_)
  refine Tried.keeps_bind (Tried.keeps_require trivial fun _ => Tried.keeps_bind
    (Tried.keeps_modify ?_))
  have hdigest : ∀ prior, appliedDigest options plan prior = plan.configDigest := by
    intro prior
    cases prior with
    | none => rfl
    | some previous => rw [appliedDigest, hno, Bool.false_and, if_neg Bool.false_ne_true]
  -- Both branches end with the same progress, but for the volumes of the service.
  have hsaved : ∀ volumes, Succeeds project (saveProgress project) Q
      { recordService options plan run.identity { v with created := created } with
        volumes := volumes } s₂ := by
    intro volumes
    refine succeeds_saveProgress fun record hrecord => hQ _ _
      { other := fun name hname => (hother₂ name hname).trans (hother₁ name hname)
        isFree := fun hcreate => ?_
        run := ⟨run, hrun, hstatus, ?_⟩
        order := rfl
        current := hrecord
        stored := rfl }
    · rw [← hsame₁ hcreate]
      exact hfree (by rw [hcreate]; exact nofun)
    · rw [recordService, hdigest]
      rfl
  split_ifs
  · exact hsaved v.volumes
  · cases referencedManagedVolumes project [plan.service] with
    | none => exact Tried.keeps_raise trivial
    | some names => exact Tried.keeps_bind (succeeds_bindVolumes hsaved)

/-! ### All services -/

/-- A service is recorded with a digest it should have, and its run is the recorded one, and
running. -/
def IsUp (D : String → String → Prop) (options : Options) (project : Project) (services : Services)
    (runs : String → Option Run) (name : String) : Prop :=
  ∃ managed run, services.lookup name = some managed ∧
    Wanted D options project name managed.configDigest ∧
    runs (project.runName name) = some run ∧ run.status = .running ∧ run.identity = managed.identity

/-- What holds while some of the plans are left. -/
structure Underway (D : String → String → Prop) (options : Options) (project : Project)
    (ledger : ProjectState) (plans left : List ServicePlan) (v : Progress) (s : State) : Prop where
  consistent : Consistent v.services v.order
  named : Named project v.services
  members : ∀ name, name ∈ v.services ↔
    name ∈ ledger.services ∨ ∃ plan ∈ plans, plan ∉ left ∧ plan.service = name
  up : ∀ plan ∈ plans, plan ∉ left → IsUp D options project v.services s.runs plan.service
  apart : ∀ p ∈ plans, p ∉ left → ∀ q ∈ plans, q ∉ left → p.runName = q.runName → p = q

/-- The ledger is what the variables are. -/
structure Saved (project : Project) (v : Progress) (s : State) : Prop where
  current : v.current = ⟨project.configDigest, v.services, v.order, v.volumes⟩
  stored : s.stored = some v.current

section

variable {plans left : List ServicePlan} {s₀ : State}

/-- What is left alone is owned and has not drifted, and runs. -/
theorem upAction_noop {isManaged isDrifted : Bool} {status : Option Status}
    (hno : options.noRecreate = false) (hforce : options.forceRecreate = false)
    (h : upAction options isManaged isDrifted status = some .noop) :
    isManaged = true ∧ isDrifted = false ∧ status = some .running := by
  cases status with
  | none => cases h
  | some status =>
    simp only [upAction, hno, hforce, Bool.and_false, Bool.false_eq_true, if_false] at h
    cases isManaged with
    | false => cases h
    | true =>
      cases isDrifted with
      | true => cases h
      | false =>
        refine ⟨rfl, rfl, ?_⟩
        cases status with
        | running => rfl
        | _ => cases h

theorem PlannedFrom.noop (h : PlannedFrom D project options ledger s plan)
    (hno : options.noRecreate = false) (hforce : options.forceRecreate = false)
    (haction : plan.action = .noop) :
    IsUp D options project ledger.services s.runs plan.service := by
  rcases h.decided with ⟨htrue, -⟩ | ⟨-, hwanted, hdecided⟩
  · rw [hno] at htrue
    cases htrue
  · rw [haction] at hdecided
    obtain ⟨-, hdrifted, hstatus⟩ := upAction_noop hno hforce hdecided
    rw [h.status] at hstatus
    obtain ⟨run, hrun, hrunning⟩ := Option.map_eq_some_iff.mp hstatus
    obtain ⟨managed, hmanaged, hidentity⟩ := h.owned run hrun
    have hmanaged : ledger.services.lookup plan.service = some managed := hmanaged
    rw [hmanaged, Option.any_some, decide_eq_false_iff_not, not_not] at hdrifted
    exact ⟨managed, run, hmanaged, hdrifted ▸ hwanted, h.name ▸ hrun, hrunning, hidentity⟩

/-- At first only what is left alone is done. -/
theorem underway_start (h : Planning D options project ledger plans s₀)
    (hno : options.noRecreate = false) (hforce : options.forceRecreate = false)
    (hservices : v.services = ledger.services) (horder : v.order = ledger.order)
    (hruns : s.runs = s₀.runs) :
    Underway D options project ledger plans (plans.filter fun plan => plan.action ≠ .noop) v s := by
  have hnoop : ∀ plan ∈ plans, plan ∉ (plans.filter fun plan => plan.action ≠ .noop) →
      IsUp D options project ledger.services s₀.runs plan.service := by
    intro plan hplan hnot
    refine (h.planned plan hplan).noop hno hforce (not_not.mp fun haction => hnot ?_)
    exact List.mem_filter.mpr ⟨hplan, decide_eq_true haction⟩
  refine ⟨?_, ?_, fun name => ?_, fun plan hplan hnot => ?_, fun p hp _ q hq hnotq heq => ?_⟩
  · rw [hservices, horder]
    exact h.consistent
  · rw [hservices]
    exact h.named
  · rw [hservices]
    refine ⟨.inl, ?_⟩
    rintro (hmem | ⟨plan, hplan, hnot, rfl⟩)
    · exact hmem
    · obtain ⟨managed, -, hmanaged, -⟩ := hnoop plan hplan hnot
      exact Finmap.mem_of_lookup_eq_some hmanaged
  · rw [hservices, hruns]
    exact hnoop plan hplan hnot
  · obtain ⟨-, run, -, -, hrun, -⟩ := hnoop q hq hnotq
    exact h.eq_of_run hp hq heq ((h.planned q hq).name ▸ hrun)

/-- A plan that is done has another run than the one that is applied. -/
theorem Applied.runName_ne {v' : Progress} (happlied : Applied project plan v s v' s')
    (hplanning : Planning D options project ledger plans s₀)
    (h : Underway D options project ledger plans (plan :: left) v s) (hplan : plan ∈ plans)
    (hnoop : plan.action ≠ .noop) {p : ServicePlan} (hp : p ∈ plans) (hdone : p ∉ plan :: left) :
    p.runName ≠ plan.runName := by
  intro heq
  have hsame : p ≠ plan := fun hsame => hdone (hsame ▸ List.mem_cons_self)
  by_cases hcreate : plan.action = .create
  · -- The name was free for the new run, but the plan that is done has its run there.
    obtain ⟨-, run, -, -, hrun, -⟩ := h.up p hp hdone
    rw [← (hplanning.planned p hp).name, heq, happlied.isFree hcreate] at hrun
    cases hrun
  · have haction : plan.action = .start ∨ plan.action = .recreate := by
      cases hcases : plan.action with
      | noop => exact absurd hcases hnoop
      | create => exact absurd hcases hcreate
      | start => exact .inl rfl
      | recreate => exact .inr rfl
    obtain ⟨run, hrun⟩ := (hplanning.planned plan hplan).isSome haction
    exact hsame (hplanning.eq_of_run hp hplan heq hrun)

/-- **One more service is up** once its plan is applied. -/
theorem Underway.apply {v' : Progress}
    (h : Underway D options project ledger plans (plan :: left) v s)
    (hplanning : Planning D options project ledger plans s₀)
    (hno : options.noRecreate = false) (hplan : plan ∈ plans) (hleft : plan ∉ left)
    (hnoop : plan.action ≠ .noop) (happlied : Applied project plan v s v' s') :
    Underway D options project ledger plans left v' s' := by
  obtain ⟨run, hrun, hrunning, hservices⟩ := happlied.run
  have hplanned := hplanning.planned plan hplan
  -- What is done now is this plan, or was done before.
  have hdone : ∀ p, p ∉ left → p = plan ∨ p ∉ plan :: left := by
    intro p hp
    by_cases hsame : p = plan
    · exact .inl hsame
    · exact .inr fun hmem => (List.mem_cons.mp hmem).elim hsame hp
  have hne := fun p hp hdone => happlied.runName_ne hplanning h hplan hnoop (p := p) hp hdone
  refine ⟨?_, ?_, fun name => ?_, fun p hp hnot => ?_, fun p hp hnotp q hq hnotq heq => ?_⟩
  · rw [hservices, happlied.order]
    exact h.consistent.insert _ _
  · intro name managed hlookup
    rw [hservices] at hlookup
    by_cases hname : name = plan.service
    · rw [hname, Finmap.lookup_insert] at hlookup
      obtain rfl := Option.some.inj hlookup
      exact ⟨hname.symm, hname ▸ hplanned.name⟩
    · rw [Finmap.lookup_insert_of_ne _ hname] at hlookup
      exact h.named name managed hlookup
  · rw [hservices, Finmap.mem_insert, h.members]
    constructor
    · rintro (rfl | hmem | ⟨p, hp, hnot, rfl⟩)
      · exact .inr ⟨plan, hplan, hleft, rfl⟩
      · exact .inl hmem
      · exact .inr ⟨p, hp, fun hmem => hnot (List.mem_cons_of_mem _ hmem), rfl⟩
    · rintro (hmem | ⟨p, hp, hnot, rfl⟩)
      · exact .inr (.inl hmem)
      · rcases hdone p hnot with rfl | hnot
        · exact .inl rfl
        · exact .inr (.inr ⟨p, hp, hnot, rfl⟩)
  -- The run of this plan is the recorded one; those of the others are as they were.
  · rcases hdone p hnot with rfl | hnot
    · rcases hplanned.decided with ⟨htrue, -⟩ | ⟨-, hwanted, -⟩
      · rw [hno] at htrue
        cases htrue
      · refine ⟨⟨p.service, p.runName, p.configDigest, run.runId, run.backend⟩, run, ?_, hwanted,
          hplanned.name ▸ hrun, hrunning, rfl⟩
        rw [hservices, Finmap.lookup_insert]
    · obtain ⟨managed, other, hlookup, hwanted, hother, hup⟩ := h.up p hp hnot
      refine ⟨managed, other, ?_, hwanted, ?_, hup⟩
      · rw [hservices, Finmap.lookup_insert_of_ne _ fun hname => ?_]
        · exact hlookup
        · exact hnot (hplanning.eq_of_service hp hplan hname ▸ List.mem_cons_self)
      · rw [happlied.other]
        · exact hother
        · rw [← (hplanning.planned p hp).name]
          exact hne p hp hnot
  · rcases hdone p hnotp with rfl | hnotp
    · rcases hdone q hnotq with rfl | hnotq
      · rfl
      · exact absurd heq.symm (hne q hq hnotq)
    · rcases hdone q hnotq with rfl | hnotq
      · exact absurd heq (hne p hp hnotp)
      · exact h.apart p hp hnotp q hq hnotq heq

/-- **All services are up** once all plans are applied. -/
theorem succeeds_applyPlans {rest : List ServicePlan} {Q : Unit → Progress → State → Prop}
    (hplanning : Planning D options project ledger plans s₀) (hno : options.noRecreate = false)
    (hrest : ∀ plan ∈ rest, plan ∈ plans) (hnodup : rest.Nodup)
    (h : Underway D options project ledger plans (rest.filter fun plan => plan.action ≠ .noop) v s)
    (hsaved : Saved project v s ∨ ∃ plan ∈ rest, plan.action ≠ .noop)
    (hQ : ∀ v' s', Underway D options project ledger plans [] v' s' → Saved project v' s' →
      Q () v' s') :
    Succeeds project (applyPlans project options rest) Q v s := by
  induction rest generalizing v s with
  | nil =>
    rcases hsaved with hsaved | ⟨plan, hnone, -⟩
    · exact hQ v s h hsaved
    · cases hnone
  | cons plan rest ih =>
    obtain ⟨hplan, hrest⟩ := List.forall_mem_cons.mp hrest
    rw [List.nodup_cons] at hnodup
    rw [applyPlans]
    -- A plan that does nothing is not one of those that are under way.
    by_cases hnoop : plan.action = .noop
    · rw [if_pos hnoop]
      have hfilter : (plan :: rest).filter (fun plan => plan.action ≠ .noop) =
          rest.filter fun plan => plan.action ≠ .noop :=
        List.filter_cons_of_neg fun hpos => of_decide_eq_true hpos hnoop
      rw [hfilter] at h
      refine ih hrest hnodup.2 h ?_
      rcases hsaved with hsaved | ⟨q, hq, haction⟩
      · exact .inl hsaved
      · rcases List.mem_cons.mp hq with rfl | hq
        · exact absurd hnoop haction
        · exact .inr ⟨q, hq, haction⟩
    · rw [if_neg hnoop]
      have hfilter : (plan :: rest).filter (fun plan => plan.action ≠ .noop) =
          plan :: rest.filter fun plan => plan.action ≠ .noop :=
        List.filter_cons_of_pos (decide_eq_true hnoop)
      rw [hfilter] at h
      refine Tried.keeps_bind (succeeds_applyPlan hno fun v' s' happlied => ?_)
      refine ih hrest hnodup.2 (h.apply hplanning hno hplan (fun hmem => ?_) hnoop happlied)
        (.inl ⟨happlied.current, happlied.stored⟩)
      exact hnodup.1 (List.mem_of_mem_filter hmem)

/-! ### Before and after the services -/

theorem succeeds_recordVolumes {prepared : List ServicePlan} {supplied : List ManagedVolume}
    {Q : Unit → Progress → State → Prop}
    (hQ : ∀ v' s', v'.services = v.services → v'.order = v.order → s'.runs = s.runs → Q () v' s') :
    Succeeds project (recordVolumes project prepared supplied) Q v s := by
  refine Tried.keeps_bind (Tried.keeps_get ?_)
  cases mergePreparedVolumes project prepared v.volumes supplied with
  | none => exact Tried.keeps_raise trivial
  | some merged =>
    refine Tried.keeps_bind (Tried.keeps_modify ?_)
    split_ifs
    · exact hQ _ s rfl rfl rfl
    · exact succeeds_saveProgress fun _ _ => hQ _ _ rfl rfl rfl

/-- Preparing volumes changes no service and no run. -/
theorem succeeds_prepareVolumes {prepared : List ServicePlan} {Q : Unit → Progress → State → Prop}
    (hQ : ∀ v' s', v'.services = v.services → v'.order = v.order → s'.runs = s.runs → Q () v' s') :
    Succeeds project (prepareVolumes project prepared) Q v s := by
  rw [prepareVolumes]
  split
  · exact succeeds_recordVolumes hQ
  · refine Tried.keeps_bind (Tried.keeps_lift (holds_prepare trivial trivial fun receipts => ?_))
    exact Tried.keeps_bind (succeeds_recordVolumes fun v' s' hservices horder hruns =>
      Tried.keeps_require trivial fun _ => hQ v' s' hservices horder hruns)

/-- What an invocation that succeeds leaves. -/
structure Settled (D : String → String → Prop) (options : Options) (project : Project)
    (ledger : ProjectState) (order : List String) (s : State) : Prop where
  consistent : Consistent (ledgerOf project s).services (ledgerOf project s).order
  named : Named project (ledgerOf project s).services
  members : ∀ name, name ∈ (ledgerOf project s).services ↔ name ∈ ledger.services ∨ name ∈ order
  up : ∀ name ∈ order, IsUp D options project (ledgerOf project s).services s.runs name
  apart : ∀ a ∈ order, ∀ b ∈ order, project.runName a = project.runName b → a = b
  injective : ∀ a ∈ ledger.services, ∀ b ∈ ledger.services,
    project.runName a = project.runName b → a = b
  refreshed : successfulServiceOrder project (ledgerOf project s).services
    (ledgerOf project s).order = some (ledgerOf project s).order

theorem Underway.settled (h : Underway D options project ledger plans [] v s) {order : List String}
    (hplanning : Planning D options project ledger plans s₀)
    (hservices : plans.map ServicePlan.service = order)
    (hledger : (ledgerOf project s).services = v.services)
    (hrefreshed : ∃ previous, successfulServiceOrder project v.services previous =
      some (ledgerOf project s).order ∧ previous.Nodup) :
    Settled D options project ledger order s := by
  obtain ⟨previous, hrefreshed, hnodup⟩ := hrefreshed
  have hmem : ∀ name, name ∈ order ↔ ∃ plan ∈ plans, plan.service = name := fun name => by
    rw [← hservices, List.mem_map]
  refine ⟨?_, ?_, fun name => ?_, fun name hname => ?_, fun a ha b hb heq => ?_,
    hplanning.injective, ?_⟩
  · rw [hledger]
    exact successfulServiceOrder_consistent hrefreshed hnodup
  · rw [hledger]
    exact h.named
  · rw [hledger, h.members, hmem]
    simp only [List.not_mem_nil, not_false_eq_true, true_and]
  · obtain ⟨plan, hplan, rfl⟩ := (hmem name).mp hname
    rw [hledger]
    exact h.up plan hplan List.not_mem_nil
  · obtain ⟨p, hp, rfl⟩ := (hmem a).mp ha
    obtain ⟨q, hq, rfl⟩ := (hmem b).mp hb
    rw [← (hplanning.planned p hp).name, ← (hplanning.planned q hq).name] at heq
    rw [h.apart p hp List.not_mem_nil q hq List.not_mem_nil heq]
  · rw [hledger]
    exact successfulServiceOrder_idem hrefreshed

theorem succeeds_refreshOrder {Q : Unit → Progress → State → Prop} {order : List String}
    (hplanning : Planning D options project ledger plans s₀)
    (hservices : plans.map ServicePlan.service = order)
    (h : Underway D options project ledger plans [] v s) (hsaved : Saved project v s)
    (hQ : ∀ v' s', Settled D options project ledger order s' → Q () v' s') :
    Succeeds project (refreshOrder project) Q v s := by
  refine Tried.keeps_bind (Tried.keeps_get ?_)
  cases hrefreshed : successfulServiceOrder project v.services v.order with
  | none => exact Tried.keeps_raise trivial
  | some refreshed =>
    dsimp only
    split_ifs with hsame
    · have hledger : ledgerOf project s = v.current := by
        rw [ledgerOf, hsaved.stored, Option.getD_some]
      refine hQ _ s (h.settled hplanning hservices ?_ ⟨v.order, ?_, h.consistent.1⟩)
      · rw [hledger, hsaved.current]
      · rw [hledger, ← hsame, hrefreshed]
    · refine Tried.keeps_bind (Tried.keeps_modify (succeeds_saveProgress fun record hrecord => ?_))
      have hunderway :
          Underway D options project ledger plans [] v { s with stored := some record } :=
        { h with up := h.up }
      refine hQ _ _ (hunderway.settled hplanning hservices ?_ ⟨v.order, ?_, h.consistent.1⟩)
      · rw [ledgerOf, Option.getD_some, hrecord]
      · rw [ledgerOf, Option.getD_some, hrecord, hrefreshed]

/-- **What `up_project` leaves where it succeeds.** -/
theorem holds_upProject (hno : options.noRecreate = false)
    (hforce : options.forceRecreate = false) :
    HoldsIn D project (upProject project options)
      (fun _ s' => ∃ order, project.serviceStartOrder options.selected = some order ∧
        Settled D options project (ledgerOf project s) order s') (fun _ => True) s := by
  refine safe_bind (holds_upPlan trivial fun order plans hvalid horder hservices hplans => ?_)
  have hplanning : Planning D options project (ledgerOf project s) plans s :=
    planning_of_isValid hvalid horder hservices hplans
  refine safe_bind (Holds.within (holds_prepareActions trivial ?_))
  have hstart : ∀ {v : Progress} {s' : State}, v.services = (ledgerOf project s).services →
      v.order = (ledgerOf project s).order → s'.runs = s.runs →
      Underway D options project (ledgerOf project s) plans
        (plans.filter fun plan => plan.action ≠ .noop) v s' := underway_start hplanning hno hforce
  split
  · next hnone =>
    rw [hnone] at hstart
    -- Nothing is applied, but the order may be refreshed.
    refine safe_bind (safe_take trivial fun refreshed hrefreshed => ?_)
    have hunderway := @hstart (Progress.start (ledgerOf project s)) s rfl rfl rfl
    split_ifs with hsame
    · exact ⟨order, horder, hunderway.settled hplanning hservices rfl
        ⟨_, hsame ▸ hrefreshed, hplanning.consistent.1⟩⟩
    · refine Holds.within (safe_bind (holds_writeState (fun _ => trivial) ⟨order, horder, ?_⟩))
      have hwritten : ∀ record : ProjectState,
          Underway D options project (ledgerOf project s) plans []
            (Progress.start (ledgerOf project s)) { s with stored := some record } :=
        fun _ => { hunderway with up := hunderway.up }
      exact (hwritten _).settled hplanning hservices rfl
        ⟨_, hrefreshed, hplanning.consistent.1⟩
  · next hsome =>
    have hexists : ∃ plan ∈ plans, plan.action ≠ .noop := by
      by_contra hnone
      refine hsome (List.filter_eq_nil_iff.mpr fun plan hplan hnoop => hnone ⟨plan, hplan, ?_⟩)
      exact of_decide_eq_true hnoop
    have hbody : ∀ prepared, Succeeds project (upBody project options plans prepared)
        (fun _ _ s' => ∃ order, project.serviceStartOrder options.selected = some order ∧
          Settled D options project (ledgerOf project s) order s')
        (Progress.start (ledgerOf project s)) s := by
      intro prepared
      refine Tried.keeps_bind (succeeds_prepareVolumes fun v' s' hservices' horder' hruns => ?_)
      refine Tried.keeps_bind (succeeds_applyPlans hplanning hno (fun _ hplan => hplan)
        (List.Nodup.of_map _ hplanning.distinct) (hstart hservices' horder' hruns) (.inr hexists)
        fun v'' s'' hunderway hsaved => ?_)
      exact succeeds_refreshOrder hplanning hservices hunderway hsaved
        fun _ _ hsettled => ⟨order, horder, hsettled⟩
    refine Holds.within (Tried.Keeps.safe_bind ((hbody _).imp (fun _ _ _ hsettled => hsettled)
      fun v s' _ => ?_))
    -- Where the body raises, the rollback raises in the end.
    exact safe_bind ((safe_trivial _ _).imp fun _ _ _ => safe_bind ((safe_trivial _ _).imp
      fun _ _ _ => trivial))

end

end Palimpsest.Runtime
