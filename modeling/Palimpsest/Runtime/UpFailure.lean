import Palimpsest.Runtime.UpPlan
import Palimpsest.Runtime.UpRollback

/-!
# A `project up` that fails

An invocation of `up_project` starts from a state in which nothing was done yet
(`State.IsInitial`). Where it raises before its body, it has changed nothing; where it raises in
it, the rollback has been through (`holds_rollback`) and the ledger is written once more. Either
way its runs are recorded, unless one is stranded (`Invocation.RolledBack`).
-/

namespace Palimpsest.Runtime

open Calls Calls.Program

variable {project : Project} {options : Options} {s s' : State} {u : Invocation} {v : Progress}
  {w w' : World}

/-- The run IDs from here on are new, and nothing was done yet. -/
structure State.IsInitial (s : State) : Prop where
  runs : ∀ name identity, s.identity name = some identity → identity.runId < s.fresh
  touched : s.touched = []
  receipts : s.receipts = []
  preparedFor : s.preparedFor = []
  isUnwritten : s.isUnwritten = false
  unbound : s.unbound = []

/-- What an invocation that raises leaves. -/
structure Invocation.RolledBack (u : Invocation) (s : State) : Prop where
  touched : ∀ id ∈ s.touched, u.fresh ≤ id ∨ u.Replaces id
  recorded : s.isUnwritten = false → ¬u.Strands s → ∀ name identity,
    s.identity name = some identity → u.fresh ≤ identity.runId →
      s.isRecorded name identity = true
  stranded : s.isUnwritten = false → u.Strands s → ∃ name identity,
    s.identity name = some identity ∧ u.fresh ≤ identity.runId ∧ s.isRecorded name identity = false
  single : s.unbound.length ≤ 1
  accepted : s.isUnwritten = false → u.Accepted s →
    ∀ volume ∈ s.receipts, (ledgerOf u.project s).volumes.lookup volume.name = some volume
  rejected : s.isUnwritten = false → ¬u.Accepted s →
    (ledgerOf u.project s).volumes = u.ledger.volumes

/-- The variables are what the ledger is. -/
theorem Invocation.RollingBack.rolledBack (h : u.RollingBack [] v s)
    (hsame : s'.isUnwritten = false → s.isUnwritten = false ∧
      SameLedger (ledgerOf u.project s') { v.current with
        services := v.services
        order := v.order
        volumes := v.volumes })
    (hidentity : s'.runs = s.runs) (htouched : s'.touched = s.touched)
    (hlaunched : s'.launched = s.launched) (hunbound : s'.unbound = s.unbound)
    (hreceipts : s'.receipts = s.receipts) (hprepared : s'.preparedFor = s.preparedFor) :
    u.RolledBack s' := by
  have hid : ∀ name, s'.identity name = s.identity name := fun name => by
    rw [State.identity, State.identity, hidentity]
  have haccepted : u.Accepted s' ↔ u.Accepted s := by
    rw [Invocation.Accepted, Invocation.Accepted, hprepared, hreceipts]
  -- The ledger on disk records what the variables do.
  have hrecorded : s'.isUnwritten = false → ∀ name identity,
      s'.isRecorded name identity = records v.services v.order name identity := fun hwritten _ _ =>
    isRecorded_eq (hsame hwritten).2
  have hstrands : u.Strands s' ↔ u.Strands s := Invocation.strands_congr hunbound hlaunched
  constructor
  · rw [htouched]
    exact h.touched
  · intro hwritten hnot name identity hname hnew
    rw [hid] at hname
    rw [hrecorded hwritten]
    exact h.recorded (fun hold => hnot (hstrands.mpr hold)) name identity hname hnew
  · intro hwritten hstranded
    obtain ⟨name, identity, hname, hnew, hnot⟩ := h.stranded (hstrands.mp hstranded)
    refine ⟨name, identity, hid name ▸ hname, hnew, ?_⟩
    rw [hrecorded hwritten]
    exact hnot
  · rw [hunbound]
    exact h.single
  · intro hwritten ha
    rw [hreceipts, (hsame hwritten).2.volumes]
    exact h.accepted (haccepted.mp ha)
  · intro hwritten hrejected
    rw [(hsame hwritten).2.volumes]
    exact h.rejected fun ha => hrejected (haccepted.mpr ha)

/-- **The last write** makes the ledger what the variables are, or raises. -/
theorem holds_writeRolledBack {Q : Unit → State → Prop} (h : u.RollingBack [] v s)
    (hQ : ∀ s', u.RolledBack s' → Q () s') :
    Holds u.project (writeRolledBack v) Q (fun _ => False) s := by
  rw [writeRolledBack]
  by_cases hsame : (decide (v.current.services = v.services) &&
      decide (v.current.order = v.order) && decide (v.current.volumes = v.volumes)) = true
  · rw [if_pos hsame]
    rw [Bool.and_eq_true, Bool.and_eq_true, decide_eq_true_eq, decide_eq_true_eq,
      decide_eq_true_eq] at hsame
    obtain ⟨⟨hservices, horder⟩, hvolumes⟩ := hsame
    refine hQ s (h.rolledBack (fun hwritten => ⟨hwritten, ?_⟩) rfl rfl rfl rfl rfl rfl)
    have hsaved := h.saved hwritten
    exact ⟨hsaved.services.trans hservices, hsaved.order.trans horder,
      hsaved.volumes.trans hvolumes⟩
  · rw [if_neg hsame]
    refine safe_bind (safe_caught (holds_writeState (fun stored => ?_) ?_))
    · exact hQ _ (h.rolledBack nofun rfl rfl rfl rfl rfl rfl)
    · exact hQ _ (h.rolledBack (fun hwritten => ⟨hwritten, ⟨rfl, rfl, rfl⟩⟩) rfl rfl rfl rfl rfl
        rfl)

/-! ### The start -/

/-- Nothing was done yet. -/
theorem State.IsInitial.rolledBack (h : s.IsInitial) (hledger : u.ledger = ledgerOf u.project s)
    (hfresh : u.fresh = s.fresh) (stored : Option ProjectState) (isUnwritten : Bool)
    (hwritten : isUnwritten = false → stored = s.stored ∨
      ∃ record, stored = some record ∧ record.services = u.ledger.services ∧
        record.volumes = u.ledger.volumes) :
    u.RolledBack { s with stored := stored, isUnwritten := isUnwritten } := by
  have hnone : ∀ name identity, s.identity name = some identity → ¬u.fresh ≤ identity.runId := by
    intro name identity hid
    rw [hfresh]
    exact Nat.not_le.mpr (h.runs name identity hid)
  refine ⟨fun id hid => ?_, fun _ _ name identity hid hnew => ?_, fun _ ⟨_, _, hmem, _⟩ => ?_, ?_,
    fun _ _ volume hvolume => ?_, fun hnot _ => ?_⟩
  · rw [h.touched] at hid
    cases hid
  · exact absurd hnew (hnone name identity hid)
  · rw [h.unbound] at hmem
    cases hmem
  · rw [h.unbound]
    exact Nat.zero_le 1
  · rw [h.receipts] at hvolume
    cases hvolume
  · rcases hwritten hnot with rfl | ⟨record, rfl, -, hvolumes⟩
    · rw [hledger]
      rfl
    · exact hvolumes

theorem State.IsInitial.going (h : s.IsInitial) (hledger : u.ledger = ledgerOf u.project s)
    (hfresh : u.fresh = s.fresh) (hconsistent : Consistent u.ledger.services u.ledger.order)
    (hnamed : Named u.project u.ledger.services) : u.Going (Progress.start u.ledger) s := by
  -- What runs at the start is older than anything that this invocation creates.
  have hold : ∀ name identity, s.identity name = some identity → ¬u.fresh ≤ identity.runId := by
    intro name identity hid
    rw [hfresh]
    exact Nat.not_le.mpr (h.runs name identity hid)
  exact
    { tracked :=
        { consistent := hconsistent
          named := hnamed
          saved := fun _ => by
            rw [← hledger]
            exact ⟨rfl, rfl, rfl⟩
          fresh := Nat.le_of_eq hfresh
          created := ⟨[], rfl, nofun⟩
          names := nofun
          distinct := List.nodup_nil
          identities := fun name hname => absurd hname Finmap.notMem_empty
          clean := nofun
          unbound := nofun
          recorded := fun name identity hid hnew => absurd hnew (hold name identity hid)
          touched := fun id hid => by
            rw [h.touched] at hid
            cases hid
          noUnbound := h.unbound
          ledger := hconsistent
          below := h.runs
          origin := fun name managed hm => .inl hm
          kept := fun name managed hm => .inl hm
          agrees := nofun
          accepted := fun _ volume hvolume => by
            rw [h.receipts] at hvolume
            cases hvolume
          rejected := fun _ => rfl }
      services := rfl
      order := rfl
      volumes := rfl
      accepted := by
        rw [Invocation.Accepted, h.receipts, h.preparedFor]
        rfl }

/-- A plan can be carried out from the start. -/
theorem PlannedFrom.planned {D : String → String → Prop} {plan : ServicePlan} (hinit : s.IsInitial)
    (hfresh : u.fresh = s.fresh) (h : PlannedFrom D u.project options u.ledger s plan)
    (hmem : plan ∈ u.plans) :
    u.Planned plan (Progress.start u.ledger) s where
  mem := hmem
  name := h.name
  isNew := fun haction identity hid => by
    rw [State.identity, h.create haction] at hid
    cases hid
  managed := fun haction => by
    obtain ⟨run, hrun⟩ := h.isSome haction
    obtain ⟨managed, hmanaged, hsame⟩ := h.owned run hrun
    have hidentity : s.identity plan.runName = some managed.identity := by
      rw [State.identity, hrun, Option.map_some, hsame]
    refine ⟨?_, managed, hmanaged, hfresh ▸ hinit.runs plan.runName managed.identity hidentity⟩
    rw [h.status, hrun]
    rfl
  same := rfl
  other := nofun

/-! ### All of it -/

/-- **What is left where the second part raises.** -/
theorem holds_upBody_rolledBack {prepared : List ServicePlan} (h : s.IsInitial)
    (hledger : u.ledger = ledgerOf u.project s) (hfresh : u.fresh = s.fresh)
    (hconsistent : Consistent u.ledger.services u.ledger.order)
    (hnamed : Named u.project u.ledger.services)
    (hplans : ∀ plan ∈ u.plans, u.Planned plan (Progress.start u.ledger) s)
    (hnodup : (u.plans.map ServicePlan.service).Nodup) :
    Holds u.project (do
      let (finished, v) ← upBody u.project options u.plans prepared (Progress.start u.ledger)
      match finished with
      | some _ => return v.created.map ServicePlan.service
      | none => do
        let v ← rollback v.created.reverse v
        writeRolledBack v
        raise) (fun _ _ => True) u.RolledBack s := by
  have hgoing := h.going hledger hfresh hconsistent hnamed
  refine Tried.Keeps.safe_bind ((keeps_upBody hgoing rfl h.receipts h.preparedFor hplans
    hnodup).imp (fun _ _ _ _ => trivial) fun v s hfailed => ?_)
  refine safe_bind ((holds_rollback hfailed).imp fun v' s' hrolling => safe_bind ?_)
  exact (holds_writeRolledBack hrolling fun s' hrolled => hrolled).of_raised fun _ => False.elim

theorem effect_answer (c : Call) (w : World) :
    Effect project c (answer project c w).1 w.state (answer project c w).2.state :=
  ⟨_, rfl⟩

/-- All digests. -/
def AnyDigest (_ _ : String) : Prop := True

theorem effectIn_answer (c : Call) (w : World) :
    EffectIn AnyDigest project c (answer project c w).1 w.state (answer project c w).2.state := by
  refine ⟨effect_answer c w, ?_⟩
  cases c with
  | desiredDigest service => exact fun _ _ => trivial
  | _ => trivial

theorem holds_afterPlan (h : s.IsInitial) (hledger : u.ledger = ledgerOf u.project s)
    (hfresh : u.fresh = s.fresh)
    (hplanning : Planning AnyDigest options u.project u.ledger u.plans s) :
    Holds u.project (do
      match ← prepareActions u.project u.plans with
      | [] => do
        let order ← take (successfulServiceOrder u.project u.ledger.services u.ledger.order)
        if order = u.ledger.order then return []
        else do
          call (.writeState
            { u.ledger with configDigest := u.project.configDigest, order := order })
          return []
      | prepared => do
        let (finished, v) ← upBody u.project options u.plans prepared (Progress.start u.ledger)
        match finished with
        | some _ => return v.created.map ServicePlan.service
        | none => do
          let v ← rollback v.created.reverse v
          writeRolledBack v
          raise : Op (List String)) (fun _ _ => True) u.RolledBack s := by
  have hsame : u.RolledBack s :=
    h.rolledBack hledger hfresh s.stored s.isUnwritten fun _ => .inl rfl
  refine safe_bind (holds_prepareActions hsame ?_)
  split
  · refine safe_bind (safe_take hsame fun order _ => ?_)
    split_ifs
    · trivial
    · exact safe_bind (holds_writeState
        (fun stored => h.rolledBack hledger hfresh stored true nofun) trivial)
  · exact holds_upBody_rolledBack h hledger hfresh hplanning.consistent hplanning.named
      (fun plan hplan => (hplanning.planned plan hplan).planned h hfresh hplan) hplanning.distinct

/-- **What an invocation that raises leaves**, whatever raises. -/
theorem rolledBack_of_run (hinit : w.state.IsInitial)
    (h : (upProject project options).run (answer project) w = (none, w')) :
    ∃ u : Invocation, u.project = project ∧ u.ledger = ledgerOf project w.state ∧
      u.fresh = w.state.fresh ∧ u.RolledBack w'.state ∧
        (u.plans = [] ∨ ∃ w₁, (upPlan project options).run (answer project) w =
          (some (u.ledger, u.plans), w₁)) := by
  have hplan := (holds_upPlan (D := AnyDigest) (E := (· = w.state))
    (Q := fun r s => s = w.state ∧ r.1 = ledgerOf project w.state ∧
      Planning AnyDigest options project r.1 r.2 w.state) rfl
    fun order plans hvalid horder hservices hplans =>
      ⟨rfl, rfl, planning_of_isValid hvalid horder hservices hplans⟩).runs World.state
      effectIn_answer
  rcases run_bind_raised h with hraised | ⟨⟨ledger, plans⟩, w₁, hplanned, hraised⟩
  · refine ⟨⟨project, ledgerOf project w.state, w.state.fresh, []⟩, rfl, rfl, rfl, ?_, .inl rfl⟩
    rw [hplan.2 w' hraised]
    exact hinit.rolledBack rfl rfl w.state.stored w.state.isUnwritten fun _ => .inl rfl
  · obtain ⟨hstate, rfl, hplanning⟩ := hplan.1 _ _ hplanned
    obtain ⟨u, rfl, hledger, hfresh, rfl⟩ : ∃ u : Invocation, u.project = project ∧
        u.ledger = ledgerOf project w.state ∧ u.fresh = w.state.fresh ∧ u.plans = plans :=
      ⟨⟨project, ledgerOf project w.state, w.state.fresh, plans⟩, rfl, rfl, rfl, rfl⟩
    rw [← hledger] at hplanning hplanned hraised
    have hafter := @holds_afterPlan options _ _ hinit hledger hfresh hplanning
    rw [← hstate] at hafter
    exact ⟨u, rfl, hledger, hfresh, (hafter.runs World.state effect_answer).2 w' hraised,
      .inr ⟨w₁, hplanned⟩⟩

end Palimpsest.Runtime
