import Palimpsest.Runtime.BackendRules
import Palimpsest.Runtime.ProjectLedger

/-!
# What is planned for a project

The plan of `up_project` is made of what the ledger and the backend show, which planning does not
change (`holds_upPlan`): a service without a run is created, one that runs as it should is left
alone, and a run that the ledger does not own is never planned for (`PlannedFrom`).

Which digest a service should have is asked for. The rules are about answers of some kind
(`EffectIn`), so that they serve where nothing is known of it and where it depends on the service
only.
-/

namespace Palimpsest.Runtime

open Calls Calls.Program

variable {project : Project} {s s' : State} {E : State → Prop} {D : String → String → Prop}
  {options : Options} {ledger : ProjectState}

/-- The answer is a digest of a service. -/
def Admits (D : String → String → Prop) : (c : Call) → Option (Answer c) → Prop
  | .desiredDigest service, a => ∀ digest ∈ a, D service digest
  | _, _ => True

/-- How a call can be answered where services should have digests of some kind. -/
def EffectIn (D : String → String → Prop) (project : Project) (c : Call) (a : Option (Answer c))
    (s s' : State) : Prop :=
  Effect project c a s s' ∧ Admits D c a

/-- The program returns in the states of `Q` and raises in those of `E`, where services should have
digests of some kind. -/
abbrev HoldsIn {α : Type} (D : String → String → Prop) (project : Project) (p : Op α)
    (Q : α → State → Prop) (E : State → Prop) (s : State) : Prop :=
  p.Safe (fun _ _ => True) (EffectIn D project) E Q s

theorem Holds.within {α : Type} {p : Op α} {Q : α → State → Prop} (h : Holds project p Q E s) :
    HoldsIn D project p Q E s :=
  Safe.of_effect (fun _ _ _ _ heffect => heffect.1) h

theorem holdsIn_digest {service : String} {Q : String → State → Prop} (hE : E s)
    (h : ∀ digest, D service digest → Q digest s) :
    HoldsIn D project (call (.desiredDigest service)) Q E s :=
  safe_ask trivial (fun _ heffect => heffect.1.quiet rfl ▸ hE)
    fun a _ heffect => heffect.1.quiet rfl ▸ h a (heffect.2 a rfl)

theorem holds_readState {Q : Option ProjectState → State → Prop} (hE : E s)
    (h : (s.stored.all fun record => record.isValid project) = true → Q s.stored s) :
    Holds project (call .readState) Q E s := by
  refine holds_call (fun _ heffect => heffect.quiet rfl ▸ hE) fun a s' ⟨o, heffect⟩ => ?_
  rw [respond] at heffect
  split_ifs at heffect with hvalid
  · rcases finish_cases heffect with ⟨-, hnone⟩ | ⟨rfl, hsome⟩
    · cases hnone
    · exact hsome a rfl ▸ h hvalid
  · cases (Prod.mk.inj heffect).1

/-! ### The plan of a service -/

/-- The digests that a service should have. -/
def Wanted (D : String → String → Prop) (options : Options) (project : Project)
    (service digest : String) : Prop :=
  if options.hasDesiredDigest then D service digest else digest = project.serviceDigest service

theorem holds_desiredDigest {service : String} {Q : String → State → Prop} (hE : E s)
    (h : ∀ digest, Wanted D options project service digest → Q digest s) :
    HoldsIn D project (desiredDigest project options service) Q E s := by
  rw [desiredDigest]
  split_ifs with hasDigest
  · exact holdsIn_digest hE fun digest hdigest => h digest (by rwa [Wanted, if_pos hasDigest])
  · exact h _ (by rw [Wanted, if_neg hasDigest])

/-- What a plan is made of. -/
structure PlannedFrom (D : String → String → Prop) (project : Project) (options : Options)
    (ledger : ProjectState) (s : State) (plan : ServicePlan) : Prop where
  name : plan.runName = project.runName plan.service
  status : plan.previousStatus = (s.runs plan.runName).map Run.status
  named : ∀ managed ∈ ledger.services.lookup plan.service, managed.runName = plan.runName
  owned : ∀ run ∈ s.runs plan.runName,
    ∃ managed ∈ ledger.services.lookup plan.service, run.identity = managed.identity
  decided : options.noRecreate = true ∧ plan.action = .noop ∨
    plan.preserveConfig = false ∧ Wanted D options project plan.service plan.configDigest ∧
      upAction options (ledger.services.lookup plan.service).isSome
        ((ledger.services.lookup plan.service).any fun managed =>
          managed.configDigest ≠ plan.configDigest) plan.previousStatus = some plan.action

theorem holds_planService {service : String} {Q : ServicePlan → State → Prop} (hE : E s)
    (h : ∀ plan, plan.service = service → PlannedFrom D project options ledger s plan → Q plan s) :
    HoldsIn D project (planService project ledger options service) Q E s := by
  refine safe_bind (safe_require hE fun hnamed => safe_bind (Holds.within (holds_inspect hE ?_)))
  refine safe_bind (safe_require hE fun hmanaged => safe_bind (safe_require hE fun hsame =>
    safe_bind (safe_require hE fun _ => ?_)))
  have hname : ∀ managed ∈ ledger.services.lookup service,
      managed.runName = project.runName service := fun managed hlookup => by
    rw [hlookup, Option.all_some, decide_eq_true_eq] at hnamed
    exact hnamed
  have howned : ∀ run ∈ s.runs (project.runName service),
      ∃ managed ∈ ledger.services.lookup service, run.identity = managed.identity := by
    intro run hrun
    rw [hrun] at hmanaged hsame
    rw [Option.map_some, Option.isNone_some, Bool.or_false] at hmanaged
    obtain ⟨managed, hlookup⟩ := Option.isSome_iff_exists.mp hmanaged
    rw [hlookup, Option.all_some, Option.all_some, decide_eq_true_eq] at hsame
    exact ⟨managed, hlookup, hsame⟩
  -- Without `no_recreate` the plan depends on the digest that the service should have.
  have hdecided : HoldsIn D project (do
      let digest ← desiredDigest project options service
      let isDrifted := (ledger.services.lookup service).any fun managed =>
        managed.configDigest ≠ digest
      let action ← take (upAction options (ledger.services.lookup service).isSome isDrifted
        ((s.runs (project.runName service)).map Run.status))
      return ⟨service, project.runName service, action, digest,
        (s.runs (project.runName service)).map Run.status, false⟩) Q E s :=
    safe_bind (holds_desiredDigest hE fun digest hdigest => safe_bind (safe_take hE
      fun action haction => h _ rfl ⟨rfl, rfl, hname, howned, .inr ⟨rfl, hdigest, haction⟩⟩))
  split
  · next hno hlookup =>
    exact safe_bind (safe_require hE fun _ => h _ rfl ⟨rfl, rfl, hname, howned, .inl ⟨hno, rfl⟩⟩)
  · exact hdecided

theorem holds_planServices {services : List String} {Q : List ServicePlan → State → Prop} (hE : E s)
    (h : ∀ plans, plans.map ServicePlan.service = services →
      (∀ plan ∈ plans, PlannedFrom D project options ledger s plan) → Q plans s) :
    HoldsIn D project (planServices project ledger options services) Q E s := by
  induction services generalizing Q with
  | nil => exact h [] rfl nofun
  | cons service services ih =>
    refine safe_bind (holds_planService hE fun plan hservice hplan => safe_bind (ih
      fun plans hservices hplans =>
        h (plan :: plans) ?_ (List.forall_mem_cons.mpr ⟨hplan, hplans⟩)))
    rw [List.map_cons, hservice, hservices]

/-- **What is planned** is made of the ledger that is read and of the runs there are. -/
theorem holds_upPlan {Q : ProjectState × List ServicePlan → State → Prop} (hE : E s)
    (h : ∀ order plans, (s.stored.all fun record => record.isValid project) = true →
      project.serviceStartOrder options.selected = some order →
      plans.map ServicePlan.service = order →
      (∀ plan ∈ plans,
        PlannedFrom D project options (s.stored.getD (newState project)) s plan) →
      Q (s.stored.getD (newState project), plans) s) :
    HoldsIn D project (upPlan project options) Q E s := by
  refine safe_bind (Holds.within (holds_readState hE fun hvalid => ?_))
  refine safe_bind (safe_bind (safe_require hE fun _ => safe_bind (safe_take hE
    fun order horder => ?_)))
  exact holds_planServices hE fun plans hservices hplans =>
    h order plans hvalid horder hservices hplans

/-! ### What is decided -/

/-- An owned run that is there is not created. -/
theorem upAction_owned {isDrifted : Bool} {status : Status} :
    upAction options true isDrifted (some status) ≠ some .create := by
  intro h
  simp only [upAction, Bool.not_true, Bool.false_eq_true, if_false] at h
  split at h
  · cases h
  · split at h
    · cases status <;> cases h
    · split at h
      · cases h
      · cases status <;> cases h

/-- A run is created where there is none. -/
theorem PlannedFrom.create {plan : ServicePlan} (h : PlannedFrom D project options ledger s plan)
    (haction : plan.action = .create) : s.runs plan.runName = none := by
  cases hrun : s.runs plan.runName with
  | none => rfl
  | some run =>
    obtain ⟨managed, hmanaged, -⟩ := h.owned run hrun
    have hlookup : ledger.services.lookup plan.service = some managed := hmanaged
    have hstatus := h.status
    rw [hrun, Option.map_some] at hstatus
    rcases h.decided with ⟨-, hnoop⟩ | ⟨-, -, hdecided⟩
    · rw [haction] at hnoop
      cases hnoop
    · rw [hlookup, hstatus, haction, Option.isSome_some] at hdecided
      exact absurd hdecided upAction_owned

/-- What is not created was there, and is owned. -/
theorem PlannedFrom.isSome {plan : ServicePlan} (h : PlannedFrom D project options ledger s plan)
    (haction : plan.action = .start ∨ plan.action = .recreate) :
    ∃ run, s.runs plan.runName = some run := by
  cases hrun : s.runs plan.runName with
  | some run => exact ⟨run, rfl⟩
  | none =>
    have hstatus := h.status
    rw [hrun, Option.map_none] at hstatus
    rcases h.decided with ⟨-, hnoop⟩ | ⟨-, -, hdecided⟩
    · rw [hnoop] at haction
      rcases haction with haction | haction <;> cases haction
    · rw [hstatus, upAction] at hdecided
      rw [← Option.some.inj hdecided] at haction
      rcases haction with haction | haction <;> cases haction

/-! ### All plans -/

/-- What the plans are made from. -/
structure Planning (D : String → String → Prop) (options : Options) (project : Project)
    (ledger : ProjectState) (plans : List ServicePlan) (s : State) : Prop where
  planned : ∀ plan ∈ plans, PlannedFrom D project options ledger s plan
  distinct : (plans.map ServicePlan.service).Nodup
  consistent : Consistent ledger.services ledger.order
  named : Named project ledger.services
  injective : ∀ a ∈ ledger.services, ∀ b ∈ ledger.services,
    project.runName a = project.runName b → a = b

section

variable {plans : List ServicePlan} {s₀ : State}

/-- A ledger that is accepted has each run once. -/
theorem planning_of_isValid {order : List String}
    (hvalid : (s₀.stored.all fun record => record.isValid project) = true)
    (horder : project.serviceStartOrder options.selected = some order)
    (hservices : plans.map ServicePlan.service = order)
    (hplans : ∀ plan ∈ plans, PlannedFrom D project options (ledgerOf project s₀) s₀ plan) :
    Planning D options project (ledgerOf project s₀) plans s₀ := by
  have hdistinct : (plans.map ServicePlan.service).Nodup :=
    hservices ▸ (serviceStartOrder_spec horder).1
  cases hstored : s₀.stored with
  | none =>
    have hledger : ledgerOf project s₀ = newState project := by
      rw [ledgerOf, hstored, Option.getD_none]
    rw [hledger] at hplans ⊢
    exact ⟨hplans, hdistinct, consistent_newState, named_newState,
      fun _ ha => absurd ha Finmap.notMem_empty⟩
  | some record =>
    have hledger : ledgerOf project s₀ = record := by rw [ledgerOf, hstored, Option.getD_some]
    rw [hledger] at hplans ⊢
    rw [hstored, Option.all_some, isValid_iff] at hvalid
    obtain ⟨hconsistent, hnamed, hnodup⟩ := hvalid
    exact ⟨hplans, hdistinct, hconsistent, hnamed, fun a ha b hb heq =>
      List.inj_on_of_nodup_map hnodup ((hconsistent.2 a).mpr ha) ((hconsistent.2 b).mpr hb) heq⟩

theorem Planning.eq_of_service (h : Planning D options project ledger plans s₀) {p q : ServicePlan}
    (hp : p ∈ plans) (hq : q ∈ plans) (heq : p.service = q.service) : p = q :=
  List.inj_on_of_nodup_map h.distinct hp hq heq

/-- Only one plan is for a run that there is. -/
theorem Planning.eq_of_run (h : Planning D options project ledger plans s₀) {p q : ServicePlan}
    (hp : p ∈ plans) (hq : q ∈ plans) (heq : p.runName = q.runName) {run : Run}
    (hrun : s₀.runs q.runName = some run) : p = q := by
  obtain ⟨managed, hmanaged, -⟩ := (h.planned p hp).owned run (heq ▸ hrun)
  obtain ⟨other, hother, -⟩ := (h.planned q hq).owned run hrun
  refine h.eq_of_service hp hq (h.injective _ (Finmap.mem_of_lookup_eq_some hmanaged) _
    (Finmap.mem_of_lookup_eq_some hother) ?_)
  rw [← (h.planned p hp).name, ← (h.planned q hq).name, heq]

end

/-! ### Preparing -/

theorem holds_resolveServices {plans : List ServicePlan} {Q : Unit → State → Prop} (hE : E s)
    (h : Q () s) : Holds project (resolveServices plans) Q E s := by
  induction plans with
  | nil => exact h
  | cons plan plans ih => exact safe_bind (holds_quiet rfl hE fun _ => ih)

theorem holds_checkPorts {ports : List (PublishedPort × ServicePlan)} {Q : Unit → State → Prop}
    (hE : E s) (h : Q () s) : Holds project (checkPorts ports) Q E s := by
  induction ports with
  | nil => exact h
  | cons port ports ih =>
    exact safe_bind (holds_quiet rfl hE fun _ => safe_bind (safe_require hE fun _ => ih))

/-- What is not left alone is prepared. -/
theorem holds_prepareActions {plans : List ServicePlan} {Q : List ServicePlan → State → Prop}
    (hE : E s) (h : Q (plans.filter fun plan => plan.action ≠ .noop) s) :
    Holds project (prepareActions project plans) Q E s := by
  refine safe_bind (holds_resolveServices hE ?_)
  split
  · next hnone => exact hnone ▸ h
  · exact safe_bind (holds_checkPorts hE (safe_bind (holds_quiet rfl hE fun _ => h)))

end Palimpsest.Runtime
