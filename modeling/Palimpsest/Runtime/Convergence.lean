import Palimpsest.Project.RunNames
import Palimpsest.Runtime.UpSuccess

/-!
# A project that comes up again

Where the digest that a service should have depends on the service only, an invocation of
`up_project` that succeeds leaves a ledger from which the next one plans nothing, and reads only
(`Converged`), provided that the ledger can be read.

It cannot where it has two services under one name. Reading refuses such a ledger but nothing
keeps `up_project` from writing it, when the service that has the name already is recorded, not
selected, and its run is gone (`upProject_converges_iff`). The names of two services of one
project can be the same, since eight hash digits tell them apart (`namesakes_runName`).
-/

namespace Palimpsest.Runtime

open Calls Calls.Program

variable {desired : String → String} {project : Project} {options : Options} {s : State}
  {ledger : ProjectState} {order : List String} {v : Progress} {plan : ServicePlan}

/-- How the calls are answered where the digest that a service should have depends on the service
only. -/
def answerSteady (desired : String → String) (project : Project) :
    (c : Call) → World → Option (Answer c) × World
  | .desiredDigest service, w => (some (desired service), ⟨w.state, w.outcomes.tail⟩)
  | c, w => answer project c w

/-- The calls that read. -/
def Call.isRead : Call → Bool
  | .readState | .inspect _ | .desiredDigest _ => true
  | _ => false

/-- The one digest of a service. -/
def Fixed (desired : String → String) (service digest : String) : Prop := digest = desired service

/-- The services are up, and an invocation of which all calls succeed plans to leave them alone, and
only reads. -/
structure Converged (desired : String → String) (options : Options) (project : Project)
    (order : List String) (s : State) : Prop where
  up : ∀ name ∈ order,
    IsUp (Fixed desired) options project (ledgerOf project s).services s.runs name
  plans : ∃ plans, (upPlan project options).run (answerSteady desired project) ⟨s, []⟩ =
      (some (ledgerOf project s, plans), ⟨s, []⟩) ∧
    plans.map ServicePlan.service = order ∧ ∀ plan ∈ plans, plan.action = .noop
  result : (upProject project options).run (answerSteady desired project) ⟨s, []⟩ =
    (some [], ⟨s, []⟩)
  calls : ∀ c ∈ (upProject project options).calls (answerSteady desired project) ⟨s, []⟩, c.isRead

theorem effectIn_answerSteady (c : Call) (w : World) :
    EffectIn (Fixed desired) project c (answerSteady desired project c w).1 w.state
      (answerSteady desired project c w).2.state := by
  cases c with
  | desiredDigest service =>
    exact ⟨⟨.digest (desired service), rfl⟩, fun digest hdigest => (Option.some.inj hdigest).symm⟩
  | _ => exact ⟨⟨w.outcomes.headD .done, rfl⟩, trivial⟩

/-! ### The second invocation -/

/-- The program returns where all calls succeed, and only reads. -/
abbrev Reads {α : Type} (desired : String → String) (project : Project) (p : Op α) (s : State)
    (a : α) : Prop :=
  p.Returns (answerSteady desired project) (fun c => c.isRead = true) ⟨s, []⟩ a ⟨s, []⟩

theorem reads_readState (hvalid : (s.stored.all fun record => record.isValid project) = true) :
    Reads desired project (call .readState) s s.stored := by
  have hrespond : respond .done project s .readState = (some s.stored, s) := by
    rw [respond, if_pos hvalid]
    rfl
  refine returns_ask rfl ?_
  show ((respond .done project s .readState).1,
    World.mk (respond .done project s .readState).2 []) = _
  rw [hrespond]

theorem reads_inspect {name : String} :
    Reads desired project (call (.inspect name)) s (s.runs name) :=
  returns_ask rfl rfl

theorem reads_desiredDigest {service digest : String}
    (h : Wanted (Fixed desired) options project service digest) :
    Reads desired project (desiredDigest project options service) s digest := by
  rw [Wanted] at h
  rw [desiredDigest]
  split_ifs at h ⊢ with hasDigest
  · rw [h]
    exact returns_ask rfl rfl
  · rw [h]
    exact returns_pure _ _

theorem reads_planService {service : String} (hno : options.noRecreate = false)
    (hforce : options.forceRecreate = false) (hnamed : Named project ledger.services)
    (h : IsUp (Fixed desired) options project ledger.services s.runs service) :
    ∃ plan : ServicePlan, plan.service = service ∧ plan.action = .noop ∧
      Reads desired project (planService project ledger options service) s plan := by
  obtain ⟨managed, run, hlookup, hwanted, hrun, hrunning, hidentity⟩ := h
  refine ⟨⟨service, project.runName service, .noop, managed.configDigest, some .running, false⟩,
    rfl, rfl, ?_⟩
  simp only [planService, hlookup, hno]
  refine (returns_require ?_ _).bind (reads_inspect.bind ?_)
  · rw [Option.all_some, (hnamed service managed hlookup).2]
    exact decide_eq_true rfl
  simp only [hrun, Option.map_some, hrunning, Option.isSome_some, Bool.true_or, Option.all_some,
    hidentity, decide_true, Option.any_some, Status.isTransitional, Bool.not_false]
  refine (returns_require rfl _).bind
    ((returns_require rfl _).bind ((returns_require rfl _).bind ?_))
  refine (reads_desiredDigest hwanted).bind ?_
  simp only [ne_eq, not_true_eq_false, decide_false]
  refine (returns_take ?_ _).bind (returns_pure _ _)
  simp only [upAction, hforce, Bool.not_true, Bool.false_eq_true, if_false, Bool.false_and,
    reduceCtorEq, decide_false, Bool.or_self]

theorem reads_planServices {services : List String} (hno : options.noRecreate = false)
    (hforce : options.forceRecreate = false) (hnamed : Named project ledger.services)
    (h : ∀ name ∈ services, IsUp (Fixed desired) options project ledger.services s.runs name) :
    ∃ plans : List ServicePlan, plans.map ServicePlan.service = services ∧
      (∀ plan ∈ plans, plan.action = .noop) ∧
      Reads desired project (planServices project ledger options services) s plans := by
  induction services with
  | nil => exact ⟨[], rfl, nofun, returns_pure _ _⟩
  | cons service services ih =>
    obtain ⟨hservice, hservices⟩ := List.forall_mem_cons.mp h
    obtain ⟨plan, hplan, hnoop, hreads⟩ := reads_planService hno hforce hnamed hservice
    obtain ⟨plans, hplans, hnoops, hall⟩ := ih hservices
    refine ⟨plan :: plans, ?_, List.forall_mem_cons.mpr ⟨hnoop, hnoops⟩,
      hreads.bind (hall.bind (returns_pure _ _))⟩
    rw [List.map_cons, hplan, hplans]

theorem reads_upPlan (hno : options.noRecreate = false) (hforce : options.forceRecreate = false)
    (hvalid : (s.stored.all fun record => record.isValid project) = true)
    (horder : project.serviceStartOrder options.selected = some order)
    (h : Settled (Fixed desired) options project ledger order s) :
    ∃ plans : List ServicePlan, plans.map ServicePlan.service = order ∧
      (∀ plan ∈ plans, plan.action = .noop) ∧
      Reads desired project (upPlan project options) s (ledgerOf project s, plans) := by
  obtain ⟨plans, hplans, hnoops, hreads⟩ := reads_planServices hno hforce h.named h.up
  refine ⟨plans, hplans, hnoops, ?_⟩
  refine (reads_readState hvalid).bind (Returns.bind ?_ (returns_pure _ _))
  refine (returns_require ?_ _).bind ((returns_take horder _).bind hreads)
  rw [hno, Bool.false_and, Bool.not_false]

/-- **The next invocation changes nothing.** -/
theorem Settled.converged (hno : options.noRecreate = false)
    (hforce : options.forceRecreate = false)
    (hvalid : (s.stored.all fun record => record.isValid project) = true)
    (horder : project.serviceStartOrder options.selected = some order)
    (h : Settled (Fixed desired) options project ledger order s) :
    Converged desired options project order s := by
  obtain ⟨plans, hplans, hnoops, hreads⟩ := reads_upPlan hno hforce hvalid horder h
  have hnone : plans.filter (fun plan => plan.action ≠ .noop) = [] :=
    List.filter_eq_nil_iff.mpr fun plan hplan hpos => of_decide_eq_true hpos (hnoops plan hplan)
  have hup : Reads desired project (upProject project options) s [] := by
    have hprepared : Reads desired project (prepareActions project plans) s [] := by
      rw [prepareActions, hnone]
      exact returns_pure _ _
    refine hreads.bind (hprepared.bind ((returns_take h.refreshed _).bind ?_))
    rw [if_pos rfl]
    exact returns_pure _ _
  exact ⟨h.up, ⟨plans, hreads.run, hplans, hnoops⟩, hup.run, hup.calls⟩

/-! ### When the ledger can be read -/

/-- What is written can be read again where no service that is left out has the name of one that is
not. -/
theorem Settled.isValid_iff {D : String → String → Prop}
    (h : Settled D options project ledger order s) :
    (s.stored.all fun record => record.isValid project) = true ↔
      ∀ service ∈ ledger.services, service ∉ order → ∀ name ∈ order,
        project.runName service ≠ project.runName name := by
  cases hstored : s.stored with
  | none =>
    refine iff_of_true rfl fun service hservice => ?_
    have hmem := (h.members service).mpr (.inl hservice)
    rw [ledgerOf, hstored, Option.getD_none] at hmem
    exact absurd hmem Finmap.notMem_empty
  | some record =>
    have hledger : ledgerOf project s = record := by rw [ledgerOf, hstored, Option.getD_some]
    have hconsistent := h.consistent
    have hnamed := h.named
    have hmembers := h.members
    rw [hledger] at hconsistent hnamed hmembers
    have hmem : ∀ name, name ∈ record.order ↔ name ∈ ledger.services ∨ name ∈ order := fun name =>
      (hconsistent.2 name).trans (hmembers name)
    rw [Option.all_some, Runtime.isValid_iff]
    constructor
    · rintro ⟨-, -, hnodup⟩ service hservice hnot name hname heq
      have hsame := List.inj_on_of_nodup_map hnodup ((hmem service).mpr (.inl hservice))
        ((hmem name).mpr (.inr hname)) heq
      exact hnot (hsame ▸ hname)
    · intro hapart
      refine ⟨hconsistent, hnamed, hconsistent.1.map_on fun a ha b hb heq => ?_⟩
      rw [hmem] at ha hb
      -- Of two recorded services both are in the order, both are left out, or one of each.
      by_cases haorder : a ∈ order
      · by_cases hborder : b ∈ order
        · exact h.apart a haorder b hborder heq
        · exact absurd heq.symm (hapart b (hb.resolve_right hborder) hborder a haorder)
      · by_cases hborder : b ∈ order
        · exact absurd heq (hapart a (ha.resolve_right haorder) haorder b hborder)
        · exact h.injective a (ha.resolve_right haorder) b (hb.resolve_right hborder) heq

/-- What an invocation that succeeds has planned and leaves. -/
theorem settled_of_run {w w' : World} {created : List String} (hno : options.noRecreate = false)
    (hforce : options.forceRecreate = false)
    (h : (upProject project options).run (answerSteady desired project) w = (some created, w')) :
    ∃ order, project.serviceStartOrder options.selected = some order ∧
      Settled (Fixed desired) options project (ledgerOf project w.state) order w'.state :=
  ((holds_upProject hno hforce).runs World.state effectIn_answerSteady).1 created w' h

/-- **A project that came up stays up**, exactly if no service that is recorded but not selected has
the name of one that is. -/
theorem upProject_converges_iff {w w' : World} {created : List String}
    (hno : options.noRecreate = false) (hforce : options.forceRecreate = false)
    (h : (upProject project options).run (answerSteady desired project) w = (some created, w')) :
    ∃ order, project.serviceStartOrder options.selected = some order ∧
      (Converged desired options project order w'.state ↔
        ∀ service ∈ (ledgerOf project w.state).services, service ∉ order → ∀ name ∈ order,
          project.runName service ≠ project.runName name) := by
  obtain ⟨order, horder, hsettled⟩ := settled_of_run hno hforce h
  refine ⟨order, horder, fun hconverged => ?_, fun hapart => ?_⟩
  · obtain ⟨plans, hrun, -⟩ := hconverged.plans
    have hplan : HoldsIn (Fixed desired) project (upPlan project options)
        (fun _ s => (w'.state.stored.all fun record => record.isValid project) = true)
        (fun _ => True) w'.state := holds_upPlan trivial fun _ _ hvalid _ _ _ => hvalid
    exact hsettled.isValid_iff.mp
      ((hplan.runs (w := ⟨w'.state, []⟩) World.state effectIn_answerSteady).1 _ _ hrun)
  · exact hsettled.converged hno hforce (hsettled.isValid_iff.mpr hapart) horder

/-! ### One service that is created -/

theorem run_prepareVolumes (hservice : project.service plan.service = some ⟨[], [], []⟩)
    (hp : plan.preserveConfig = false) (hv : v.current.volumes = v.volumes) :
    (prepareVolumes project [plan] v).run (answerSteady desired project) ⟨s, []⟩ =
      (some (some (), v), ⟨{ s with receipts := [], preparedFor := [plan] }, []⟩) := by
  simp [hp, hv, hservice, prepareVolumes, recordVolumes, mergePreparedVolumes,
    referencedManagedVolumes, mergeVolumes, Bind.bind, Tried.bind, Program.bind, pure, Tried.lift,
    Tried.get, Tried.modify, Tried.require, caught, call, ask, run, answerSteady, answer, respond,
    finish]

theorem run_applyPlan (hservice : project.service plan.service = some ⟨[], [], []⟩)
    (hp : plan.preserveConfig = false) (haction : plan.action = .create)
    (hlookup : v.services.lookup plan.service = none) (hrun : s.runs plan.runName = none) :
    ∃ v' s', (applyPlan project options plan v).run (answerSteady desired project) ⟨s, []⟩ =
      (some (some (), v'), ⟨s', []⟩) ∧ v'.created = v.created ++ [plan] := by
  simp [hservice, hp, haction, hlookup, hrun, applyPlan, checkManaged, removePrevious, startRun,
    ServicePlan.creates, recordService, referencedManagedVolumes, bindVolumes, saveProgress,
    Bind.bind, Tried.bind, Program.bind, pure, Tried.lift, Tried.get, Tried.modify, Tried.require,
    caught, call, ask, run, answerSteady, answer, respond, respondStart, startedRun, State.setRun,
    finish]

theorem run_refreshOrder {all : List String} (hall : project.serviceStartOrder none = some all) :
    ∃ v' s', (refreshOrder project v).run (answerSteady desired project) ⟨s, []⟩ =
      (some (some (), v'), ⟨s', []⟩) ∧ v'.created = v.created := by
  obtain ⟨order, horder⟩ : ∃ order,
      successfulServiceOrder project v.services v.order = some order := by
    rw [successfulServiceOrder, hall]
    exact ⟨_, rfl⟩
  by_cases hsame : order = v.current.order
  · simp [horder, hsame, refreshOrder, Bind.bind, Tried.bind, Program.bind, pure, Tried.get, run]
  · simp [horder, hsame, refreshOrder, saveProgress, Bind.bind, Tried.bind, Program.bind, pure,
      Tried.get, Tried.modify, Tried.lift, caught, call, ask, run, answerSteady, answer, respond]

theorem reads_upPlan_create {name : String} (hno : options.noRecreate = false)
    (hdigest : options.hasDesiredDigest = false)
    (hvalid : (s.stored.all fun record => record.isValid project) = true)
    (horder : project.serviceStartOrder options.selected = some [name])
    (hlookup : (ledgerOf project s).services.lookup name = none)
    (hrun : s.runs (project.runName name) = none) :
    Reads desired project (upPlan project options) s (ledgerOf project s,
      [⟨name, project.runName name, .create, project.serviceDigest name, none, false⟩]) := by
  have hone : Reads desired project (planService project (ledgerOf project s) options name) s
      ⟨name, project.runName name, .create, project.serviceDigest name, none, false⟩ := by
    simp only [planService, hlookup, hno, desiredDigest, hdigest]
    refine (returns_require rfl _).bind (reads_inspect.bind ?_)
    rw [hrun]
    exact returns_pure _ _
  refine (reads_readState hvalid).bind (Returns.bind ?_ (returns_pure _ _))
  refine (returns_require (by rw [hno]; rfl) _).bind ((returns_take horder _).bind ?_)
  exact hone.bind ((returns_pure _ _).bind (returns_pure _ _))

theorem run_prepareActions (hservice : project.service plan.service = some ⟨[], [], []⟩)
    (hp : plan.preserveConfig = false) (haction : plan.action = .create) :
    (prepareActions project [plan]).run (answerSteady desired project) ⟨s, []⟩ =
      (some [plan], ⟨s, []⟩) := by
  have hports : publishedPorts project [plan] = [] := by
    simp [publishedPorts, hservice]
  simp [prepareActions, hp, haction, resolveServices, hports, checkPorts, call, ask, run,
    answerSteady, answer, respond, finish, Bind.bind, Program.bind, pure]

/-- A service that needs nothing is created where there is none. -/
theorem run_upProject_creates {name : String} {all : List String}
    (hno : options.noRecreate = false) (hdigest : options.hasDesiredDigest = false)
    (hvalid : (s.stored.all fun record => record.isValid project) = true)
    (horder : project.serviceStartOrder options.selected = some [name])
    (hall : project.serviceStartOrder none = some all)
    (hservice : project.service name = some ⟨[], [], []⟩)
    (hlookup : (ledgerOf project s).services.lookup name = none)
    (hrun : s.runs (project.runName name) = none) :
    ∃ s', (upProject project options).run (answerSteady desired project) ⟨s, []⟩ =
      (some [name], ⟨s', []⟩) := by
  have hplanned : Reads desired project (upPlan project options) s (ledgerOf project s,
      [⟨name, project.runName name, .create, project.serviceDigest name, none, false⟩]) :=
    reads_upPlan_create hno hdigest hvalid horder hlookup hrun
  obtain ⟨plan, hplan⟩ : ∃ plan : ServicePlan, plan =
    ⟨name, project.runName name, .create, project.serviceDigest name, none, false⟩ := ⟨_, rfl⟩
  -- The plan is opaque from here on, and only these fields of it are used.
  rw [← hplan] at hplanned
  have hname : plan.service = name := by rw [hplan]
  have hrunName : plan.runName = project.runName name := by rw [hplan]
  have haction : plan.action = .create := by rw [hplan]
  have hp : plan.preserveConfig = false := by rw [hplan]
  rw [← hname] at hservice hlookup
  rw [← hrunName] at hrun
  obtain ⟨v₁, s₁, happly, hcreated₁⟩ : ∃ v' s', (applyPlan project options plan
      (Progress.start (ledgerOf project s))).run (answerSteady desired project)
        ⟨{ s with receipts := [], preparedFor := [plan] }, []⟩ = (some (some (), v'), ⟨s', []⟩) ∧
          v'.created = [plan] := run_applyPlan hservice hp haction hlookup hrun
  obtain ⟨v₂, s₂, hrefresh, hcreated₂⟩ : ∃ v' s', (refreshOrder project v₁).run
      (answerSteady desired project) ⟨s₁, []⟩ = (some (some (), v'), ⟨s', []⟩) ∧
        v'.created = v₁.created := run_refreshOrder hall
  have hplans : (applyPlans project options [plan] (Progress.start (ledgerOf project s))).run
      (answerSteady desired project) ⟨{ s with receipts := [], preparedFor := [plan] }, []⟩ =
        (some (some (), v₁), ⟨s₁, []⟩) := by
    rw [applyPlans, if_neg (by rw [haction]; rintro ⟨⟩)]
    exact (Tried.run_bind happly).trans rfl
  have hbody : (upBody project options [plan] [plan] (Progress.start (ledgerOf project s))).run
      (answerSteady desired project) ⟨s, []⟩ = (some (some (), v₂), ⟨s₂, []⟩) :=
    (Tried.run_bind (run_prepareVolumes hservice hp rfl)).trans
      ((Tried.run_bind hplans).trans hrefresh)
  -- The parts of `up_project` in their order: the plans, their preparation and the body.
  refine ⟨s₂, (run_bind hplanned.run).trans
    ((run_bind (run_prepareActions hservice hp haction)).trans ((run_bind hbody).trans ?_))⟩
  show (some (v₂.created.map ServicePlan.service), _) = _
  rw [hcreated₂, hcreated₁, List.map_singleton, hname]

/-! ### Services that share a name -/

def firstNamesake : String := "a.a.a_a.a_a_a_a_a.a_a.a.a.a.a_a"

def secondNamesake : String := "a.a_a.a_a_a.a_a_a.a_a.a.a.a_a.a"

/-- A project `p` with two services that need nothing. -/
def namesakes : Project where
  services := [(secondNamesake, ⟨[], [], []⟩), (firstNamesake, ⟨[], [], []⟩)]
  volumes := []
  runName service := String.ofList
    ((Project.deterministicServiceName "p".toList service.toList 1).getD [])
  configDigest := ""
  serviceDigest _ := ""

/-- Both are slugged to one text, and the hash digits are the same. -/
theorem namesakes_runName : namesakes.runName firstNamesake = namesakes.runName secondNamesake := by
  decide +kernel

/-- The first one is brought up. -/
def upFirst : Options where
  selected := some [firstNamesake]
  noRecreate := false
  forceRecreate := false
  hasDesiredDigest := false

/-- There are no runs, and this is the ledger. -/
def withoutRuns (stored : Option ProjectState) : State where
  runs _ := none
  fresh := 1
  stored := stored
  touched := []
  receipts := []
  preparedFor := []
  isUnwritten := false
  launched := none
  unbound := []

theorem namesakes_service_first : namesakes.service firstNamesake = some ⟨[], [], []⟩ := by
  decide

theorem namesakes_startOrder_first :
    namesakes.serviceStartOrder (some [firstNamesake]) = some [firstNamesake] := by
  have hclosure : [firstNamesake].foldlM (namesakes.closure 3) [] = some [firstNamesake] := by
    simp [Project.closure, namesakes_service_first]
  have hguard : ([firstNamesake].all fun name => (namesakes.service name).isSome) = true := by
    rw [List.all_cons, namesakes_service_first]
    rfl
  refine (serviceStartOrder_eq (fun name hname => ?_) hclosure).trans ?_
  · rw [List.mem_singleton.mp hname, ← service_isSome, namesakes_service_first]
    rfl
  · simp [Project.layers, Project.isReady, namesakes_service_first]

theorem namesakes_startOrder :
    namesakes.serviceStartOrder none = some [firstNamesake, secondNamesake] := by
  have hsecond : namesakes.service secondNamesake = some ⟨[], [], []⟩ := by decide
  have hsorted : [firstNamesake, secondNamesake].mergeSort = [firstNamesake, secondNamesake] :=
    List.mergeSort_of_pairwise (by decide)
  have hne : firstNamesake ≠ secondNamesake := by decide
  have hclosure : [secondNamesake, firstNamesake].foldlM (namesakes.closure 3) [] =
      some [firstNamesake, secondNamesake] := by
    simp [Project.closure, namesakes_service_first, hsecond, hne]
  have hrequested : ∀ name ∈ namesakes.requested none, name ∈ namesakes.names :=
    fun _ hname => hname
  refine (serviceStartOrder_eq hrequested hclosure).trans ?_
  simp [Project.layers, Project.isReady, namesakes_service_first, hsecond, hsorted]

/-- The first one comes up where no ledger has it. -/
theorem namesakes_run {stored : Option ProjectState}
    (hvalid : (stored.all fun record => record.isValid namesakes) = true)
    (hlookup : (ledgerOf namesakes (withoutRuns stored)).services.lookup firstNamesake = none) :
    ∃ s', (upProject namesakes upFirst).run (answerSteady id namesakes) ⟨withoutRuns stored, []⟩ =
      (some [firstNamesake], ⟨s', []⟩) :=
  run_upProject_creates rfl rfl hvalid namesakes_startOrder_first namesakes_startOrder
    namesakes_service_first hlookup rfl

/-- Without a ledger the first one comes up and stays up. -/
theorem upProject_converges_iff_namesakes : ∃ s',
    (upProject namesakes upFirst).run (answerSteady id namesakes) ⟨withoutRuns none, []⟩ =
      (some [firstNamesake], ⟨s', []⟩) ∧
    ∃ order, Converged id upFirst namesakes order s' := by
  obtain ⟨s', hrun⟩ := @namesakes_run none rfl (Finmap.lookup_empty _)
  obtain ⟨order, -, hiff⟩ := upProject_converges_iff rfl rfl hrun
  exact ⟨s', hrun, order, hiff.mpr fun _ hmem => absurd hmem Finmap.notMem_empty⟩

/-- The second one is recorded. -/
def secondRecorded : ProjectState where
  configDigest := ""
  services := Finmap.singleton secondNamesake
    ⟨secondNamesake, namesakes.runName secondNamesake, "", 0, .kvm⟩
  order := [secondNamesake]
  volumes := ∅

theorem secondRecorded_isValid : secondRecorded.isValid namesakes = true := by
  refine Runtime.isValid_iff.mpr
    ⟨⟨List.nodup_singleton _, fun name => ?_⟩, fun name managed hlookup => ?_,
    List.nodup_singleton _⟩
  · rw [secondRecorded, List.mem_singleton, Finmap.mem_singleton]
  · have hname := (Finmap.mem_singleton _ _ _).mp (Finmap.mem_of_lookup_eq_some hlookup)
    subst hname
    rw [secondRecorded, Finmap.lookup_singleton_eq] at hlookup
    obtain rfl := Option.some.inj hlookup
    exact ⟨rfl, rfl⟩

/-- **A project that came up does not come up again**: with the second service recorded and its run
gone, the first one comes up under the same name, and the ledger is refused from then on. -/
theorem upProject_not_converging : secondRecorded.isValid namesakes = true ∧ ∃ s',
    (upProject namesakes upFirst).run (answerSteady id namesakes)
      ⟨withoutRuns (some secondRecorded), []⟩ = (some [firstNamesake], ⟨s', []⟩) ∧
    ((upProject namesakes upFirst).run (answerSteady id namesakes) ⟨s', []⟩).1 = none := by
  have hne : firstNamesake ≠ secondNamesake := by decide
  have hvalid : ((some secondRecorded).all fun record => record.isValid namesakes) = true := by
    rw [Option.all_some, secondRecorded_isValid]
  have hlookup : secondRecorded.services.lookup firstNamesake = none :=
    Finmap.lookup_eq_none.mpr fun hmem => hne ((Finmap.mem_singleton _ _ _).mp hmem)
  obtain ⟨s', hrun⟩ := namesakes_run hvalid hlookup
  refine ⟨secondRecorded_isValid, s', hrun, ?_⟩
  obtain ⟨order, horder, hsettled⟩ := settled_of_run rfl rfl hrun
  obtain rfl := Option.some.inj (namesakes_startOrder_first.symm.trans horder)
  rw [Option.eq_none_iff_forall_not_mem]
  intro created hcreated
  have hup : HoldsIn (Fixed id) namesakes (upProject namesakes upFirst)
      (fun _ _ => (s'.stored.all fun record => record.isValid namesakes) = true)
      (fun _ => True) s' :=
    safe_bind (holds_upPlan trivial fun _ _ hvalid _ _ _ =>
      (safe_trivial _ _).imp fun _ _ _ => hvalid)
  have hvalid := (hup.runs (w := ⟨s', []⟩) World.state effectIn_answerSteady).1 created _
    (Prod.ext hcreated rfl)
  refine hsettled.isValid_iff.mp hvalid secondNamesake ((Finmap.mem_singleton _ _ _).mpr rfl) ?_
    firstNamesake List.mem_cons_self namesakes_runName.symm
  exact fun hmem => hne (List.mem_singleton.mp hmem).symm

end Palimpsest.Runtime
