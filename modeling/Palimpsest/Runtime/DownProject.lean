import Palimpsest.Runtime.UpFailure

/-!
# Bringing a project down

Where all calls succeed, `down_project` removes the runs of the ledger, or refuses at once: it
refuses a ledger that is not accepted, and one that has another run under a name than the backend
(`run_downProject`).
-/

namespace Palimpsest.Runtime

open Calls Calls.Program

variable {project : Project} {s s' : State} {E : State → Prop} {name : String}
  {ledger current : ProjectState}

/-- The program returns in the states of `Q` and raises in those of `E`, where all calls succeed. -/
abbrev HoldsDone {α : Type} (project : Project) (p : Op α) (Q : α → State → Prop)
    (E : State → Prop) (s : State) : Prop :=
  p.Safe (fun _ _ => True) (fun c a s s' => respond .done project s c = (a, s')) E Q s

theorem holdsDone_call {c : Call} {Q : Answer c → State → Prop} {a : Answer c}
    (hrespond : respond .done project s c = (some a, s')) (h : Q a s') :
    HoldsDone project (call c) Q E s := by
  refine safe_ask trivial (fun _ heffect => ?_) fun b _ heffect => ?_
  · cases (Prod.mk.inj (hrespond.symm.trans heffect)).1
  · obtain ⟨ha, rfl⟩ := Prod.mk.inj (hrespond.symm.trans heffect)
    exact Option.some.inj ha ▸ h

/-- A service of the ledger with its run, which has not changed since its status was seen. -/
structure Targeted (current : ProjectState) (target : DownTarget) (s : State) : Prop where
  managed : ∃ managed, current.services.lookup target.service = some managed ∧
    target.runName = managed.runName ∧
    ∀ run, s.runs target.runName = some run → run.identity = managed.identity
  status : target.status = (s.runs target.runName).map Run.status

/-- The services are looked at, and refused where another run has the name of one. -/
theorem holds_downTargets {services : List String} {Q : List DownTarget → State → Prop}
    (hknown : ∀ service ∈ services, service ∈ ledger.services)
    (hE : ∀ service ∈ services, ∀ managed, ledger.services.lookup service = some managed →
      ∀ run, s.runs managed.runName = some run → run.identity ≠ managed.identity → E s)
    (hQ : ∀ targets, targets.map DownTarget.service = services →
      (∀ target ∈ targets, Targeted ledger target s) → Q targets s) :
    HoldsDone project (downTargets ledger services) Q E s := by
  induction services generalizing Q with
  | nil => exact hQ [] rfl nofun
  | cons service services ih =>
    obtain ⟨hservice, hservices⟩ := List.forall_mem_cons.mp hknown
    obtain ⟨managed, hmanaged⟩ := Finmap.mem_iff.mp hservice
    rw [downTargets, hmanaged]
    refine safe_bind (safe_bind (holdsDone_call rfl ?_))
    by_cases hall : ∀ run, s.runs managed.runName = some run → run.identity = managed.identity
    · have hrequire : ((s.runs managed.runName).all fun run => run.identity = managed.identity) =
          true := (Option.all_eq_true _ _).mpr fun run hrun => decide_eq_true (hall run hrun)
      refine safe_bind (safe_require_of hrequire (safe_bind (ih hservices
        (fun other hother => hE other (List.mem_cons_of_mem _ hother))
        fun targets hmap htargets => ?_)))
      refine hQ (⟨service, managed.runName, (s.runs managed.runName).map Run.status⟩ :: targets)
        (congrArg (service :: ·) hmap) (List.forall_mem_cons.mpr ⟨⟨?_, rfl⟩, htargets⟩)
      exact ⟨managed, hmanaged, rfl, hall⟩
    · obtain ⟨run, hall⟩ := not_forall.mp hall
      obtain ⟨hrun, hne⟩ := Classical.not_imp.mp hall
      rw [hrun, Option.all_some, decide_eq_false hne]
      exact hE service List.mem_cons_self managed hmanaged run hrun hne

theorem respond_stop {run : Run} {e : RuntimeIdentity} (hrun : s.runs name = some run)
    (hsame : run.identity = e) : respond .done project s (.stop name (some e)) =
      (some (), { s.setRun name (some { run with status := .stopped }) with
        touched := run.runId :: s.touched }) := by
  rw [respond, respondStop, hrun]
  exact if_pos (decide_eq_true hsame)

/-- The run of one service is gone, and the ledger without it is written. -/
theorem holds_removeService {target : DownTarget} {managed : ManagedService}
    {Q : ProjectState → State → Prop}
    (hsame : ∀ run, s.runs target.runName = some run → run.identity = managed.identity)
    (hQ : ∀ s', s'.runs = Function.update s.runs target.runName none →
      Q { current with
        services := current.services.erase target.service
        order := current.order.erase target.service } s') :
    HoldsDone project (downService.removeService current target managed) Q E s := by
  have hrequire : ((s.runs target.runName).all fun run => run.identity = managed.identity) = true :=
    (Option.all_eq_true _ _).mpr fun run hrun => decide_eq_true (hsame run hrun)
  refine safe_bind (holdsDone_call rfl (safe_bind (safe_require_of hrequire (safe_bind ?_))))
  cases hrun : s.runs target.runName with
  | none =>
    have hremove : respond .done project s (.remove target.runName (some managed.identity)) =
        (some (), s) := by
      rw [respond, respondRemove, hrun]
      rfl
    refine holdsDone_call hremove (safe_bind (holdsDone_call rfl (hQ _ ?_)))
    exact (Function.update_eq_self_iff.mpr hrun.symm).symm
  | some run =>
    have hremove : respond .done project s (.remove target.runName (some managed.identity)) =
        (some (), { s.setRun target.runName none with touched := run.runId :: s.touched }) := by
      rw [respond, respondRemove, hrun]
      exact if_pos (decide_eq_true (hsame run hrun))
    exact holdsDone_call hremove (safe_bind (holdsDone_call rfl (hQ _ rfl)))

theorem holds_downService {target : DownTarget} {Q : ProjectState → State → Prop}
    (h : Targeted current target s)
    (hQ : ∀ s', s'.runs = Function.update s.runs target.runName none →
      Q { current with
        services := current.services.erase target.service
        order := current.order.erase target.service } s') :
    HoldsDone project (downService current target) Q E s := by
  obtain ⟨managed, hmanaged, -, hsame⟩ := h.managed
  rw [downService, hmanaged]
  have hrequire : ((s.runs target.runName).all fun run => run.identity = managed.identity) = true :=
    (Option.all_eq_true _ _).mpr fun run hrun => decide_eq_true (hsame run hrun)
  refine safe_bind (safe_bind (holdsDone_call rfl (safe_bind (safe_require_of hrequire ?_))))
  -- A run that is gone needs no stop; any other is stopped and then removed.
  split_ifs with hgone
  · exact holds_removeService hsame hQ
  · cases hrun : s.runs target.runName with
    | none =>
      rw [h.status, hrun] at hgone
      exact absurd rfl hgone
    | some run =>
      refine safe_bind (holdsDone_call (respond_stop hrun (hsame run hrun)) ?_)
      have hstopped : ∀ other, { s.setRun target.runName (some { run with status := .stopped }) with
          touched := run.runId :: s.touched }.runs target.runName = some other →
            other.identity = managed.identity := by
        intro other hother
        change Function.update s.runs target.runName _ target.runName = _ at hother
        rw [Function.update_self] at hother
        rw [← Option.some.inj hother]
        exact hsame run hrun
      refine holds_removeService hstopped fun s' hruns => hQ s' (hruns.trans ?_)
      exact Function.update_idem _ _ _

/-- The services one by one: their runs are gone, the others are there. -/
theorem holds_downServices {targets : List DownTarget} {Q : ProjectState → State → Prop}
    (hservices : (targets.map DownTarget.service).Nodup)
    (hruns : (targets.map DownTarget.runName).Nodup)
    (h : ∀ target ∈ targets, Targeted current target s)
    (hQ : ∀ current s', (∀ name, name ∈ targets.map DownTarget.runName → s'.runs name = none) →
      (∀ name, name ∉ targets.map DownTarget.runName → s'.runs name = s.runs name) → Q current s') :
    HoldsDone project (downServices current targets) Q E s := by
  induction targets generalizing current s with
  | nil => exact hQ current s nofun fun _ _ => rfl
  | cons target targets ih =>
    rw [List.map_cons, List.nodup_cons] at hservices hruns
    obtain ⟨htarget, htargets⟩ := List.forall_mem_cons.mp h
    refine safe_bind (holds_downService htarget fun s₁ hs₁ => ih hservices.2 hruns.2
      (fun other hother => ?_) fun current s' hgone hkept => hQ current s' ?_ ?_)
    · -- Another service is as it was.
      have hservice : other.service ≠ target.service := fun heq =>
        hservices.1 (heq ▸ List.mem_map_of_mem hother)
      have hname : other.runName ≠ target.runName := fun heq =>
        hruns.1 (heq ▸ List.mem_map_of_mem hother)
      have hrun : s₁.runs other.runName = s.runs other.runName := by
        rw [hs₁, Function.update_of_ne hname]
      obtain ⟨⟨managed, hmanaged, hrunName, hsame⟩, hstatus⟩ := htargets other hother
      refine ⟨⟨managed, (Finmap.lookup_erase_ne hservice).trans hmanaged, hrunName, ?_⟩, ?_⟩
      · rw [hrun]
        exact hsame
      · rw [hrun, hstatus]
    · intro name hname
      -- It is one of those that are still to come, or the one that has just gone.
      by_cases hlater : name ∈ targets.map DownTarget.runName
      · exact hgone name hlater
      · rcases List.mem_cons.mp hname with rfl | hname
        · rw [hkept _ hlater, hs₁, Function.update_self]
        · exact absurd hname hlater
    · intro name hname
      rw [List.map_cons, List.mem_cons, not_or] at hname
      rw [hkept name hname.2, hs₁, Function.update_of_ne hname.1]

/-- The ledger is accepted, and what stands under the names of its runs are these runs. -/
def Agrees (project : Project) (s : State) : Prop :=
  ∃ record, s.stored = some record ∧ record.isValid project = true ∧
    ∀ service managed, record.services.lookup service = some managed →
      ∀ run, s.runs managed.runName = some run → run.identity = managed.identity

/-- The ledger has a run of this name. -/
def State.IsOwned (s : State) (name : String) : Prop :=
  ∃ record, s.stored = some record ∧ ∃ service managed,
    record.services.lookup service = some managed ∧ managed.runName = name

/-- What `down_project` does where all calls succeed. -/
theorem holds_downProject : HoldsDone project (downProject false)
    (fun _ s' => (∀ name, s.IsOwned name → s'.runs name = none) ∧
      (∀ name, ¬s.IsOwned name → s'.runs name = s.runs name) ∧ (s.stored = none ∨ Agrees project s))
    (fun s' => s'.runs = s.runs ∧ ¬Agrees project s) s := by
  cases hstored : s.stored with
  | none =>
    have hread : respond .done project s .readState = (some none, s) := by
      rw [respond, hstored]
      rfl
    refine safe_bind (holdsDone_call hread ⟨?_, fun _ _ => rfl, .inl rfl⟩)
    rintro name ⟨record, hsome, -⟩
    cases hstored.symm.trans hsome
  | some record =>
    by_cases hvalid : record.isValid project = true
    · have hread : respond .done project s .readState = (some (some record), s) := by
        rw [respond, hstored]
        exact if_pos hvalid
      obtain ⟨hconsistent, hnamed, hnodup⟩ := isValid_iff.mp hvalid
      refine safe_bind (holdsDone_call hread (safe_bind (holds_downTargets (fun service hservice =>
        (hconsistent.2 service).mp (List.mem_reverse.mp hservice)) ?_
        fun targets hmap htargets => ?_)))
      -- A run that is not the recorded one: `down` stops before it has touched anything.
      · rintro service - managed hmanaged run hrun hne
        refine ⟨rfl, ?_⟩
        rintro ⟨other, hother, -, hagrees⟩
        obtain rfl := Option.some.inj (hstored.symm.trans hother)
        exact hne (hagrees service managed hmanaged run hrun)
      · have hservices : (targets.map DownTarget.service).Nodup := by
          rw [hmap, List.nodup_reverse]
          exact hconsistent.1
        have hrunName : ∀ target ∈ targets, target.runName = project.runName target.service := by
          intro target htarget
          obtain ⟨managed, hmanaged, hname, -⟩ := (htargets target htarget).managed
          rw [hname, (hnamed _ managed hmanaged).2]
        have hruns : (targets.map DownTarget.runName).Nodup := by
          have heq : targets.map DownTarget.runName =
              (record.order.map project.runName).reverse := by
            rw [← List.map_reverse, ← hmap, List.map_map]
            exact List.map_congr_left hrunName
          rw [heq, List.nodup_reverse]
          exact hnodup
        have htarget : ∀ service ∈ record.services, ∃ target ∈ targets,
            target.service = service := by
          intro service hservice
          rw [← List.mem_map, hmap, List.mem_reverse]
          exact (hconsistent.2 service).mpr hservice
        -- The targets are what the ledger records, each under a name of its own.
        have howned : ∀ name, s.IsOwned name ↔ name ∈ targets.map DownTarget.runName := by
          intro name
          rw [List.mem_map]
          constructor
          · rintro ⟨other, hother, service, managed, hmanaged, rfl⟩
            obtain rfl := Option.some.inj (hstored.symm.trans hother)
            obtain ⟨target, hmem, rfl⟩ := htarget service (Finmap.mem_of_lookup_eq_some hmanaged)
            exact ⟨target, hmem, (hrunName target hmem).trans (hnamed _ managed hmanaged).2.symm⟩
          · rintro ⟨target, hmem, rfl⟩
            obtain ⟨managed, hmanaged, hname, -⟩ := (htargets target hmem).managed
            exact ⟨record, hstored, target.service, managed, hmanaged, hname.symm⟩
        have hagrees : Agrees project s := by
          refine ⟨record, hstored, hvalid, fun service managed hmanaged run hrun => ?_⟩
          obtain ⟨target, hmem, rfl⟩ := htarget service (Finmap.mem_of_lookup_eq_some hmanaged)
          obtain ⟨other, hother, hname, hsame⟩ := (htargets target hmem).managed
          obtain rfl := Option.some.inj (hmanaged.symm.trans hother)
          exact hsame run (hname ▸ hrun)
        refine safe_bind (holdsDone_call rfl (safe_bind (holds_downServices hservices hruns htargets
          fun current s' hgone hkept => ?_)))
        exact ⟨fun name hname => hgone name ((howned name).mp hname),
          fun name hname => hkept name fun hmem => hname ((howned name).mpr hmem), .inr hagrees⟩
    · have hread : respond .done project s .readState = (none, s) := by
        rw [respond, hstored]
        exact if_neg hvalid
      refine safe_bind (safe_ask trivial (fun s' heffect => ?_) fun a s' heffect => ?_)
      · obtain ⟨-, rfl⟩ := Prod.mk.inj (hread.symm.trans heffect)
        refine ⟨rfl, ?_⟩
        rintro ⟨other, hother, hok, -⟩
        obtain rfl := Option.some.inj (hstored.symm.trans hother)
        exact hvalid hok
      · cases (Prod.mk.inj (hread.symm.trans heffect)).1

/-- The state after a `down_project` of which all calls succeed. -/
def State.broughtDown (project : Project) (s : State) : State :=
  ((downProject false).run (answer project) ⟨s, []⟩).2.state

/-- **Bringing down** removes all runs that are owned, or none. -/
theorem broughtDown_cases :
    (s.stored = none ∨ Agrees project s) ∧
      (∀ name, s.IsOwned name → (s.broughtDown project).runs name = none) ∧
      (∀ name, ¬s.IsOwned name → (s.broughtDown project).runs name = s.runs name) ∨
    ¬Agrees project s ∧ (s.broughtDown project).runs = s.runs := by
  have hanswer : ∀ (c : Call) (w : World), w.outcomes = [] →
      respond .done project w.state c = ((answer project c w).1, (answer project c w).2.state) ∧
        (answer project c w).2.outcomes = [] := by
    rintro c ⟨state, outcomes⟩ rfl
    exact ⟨rfl, rfl⟩
  have hdown := holds_downProject.runs_of (w := ⟨s, []⟩) World.state (fun w => w.outcomes = [])
    hanswer rfl
  cases hrun : (downProject false).run (answer project) ⟨s, []⟩ with
  | mk result w' =>
    have hstate : s.broughtDown project = w'.state := by rw [State.broughtDown, hrun]
    rw [hstate]
    cases result with
    | some removed =>
      obtain ⟨howned, hother, hcases⟩ := hdown.1 removed w' hrun
      exact .inl ⟨hcases, howned, hother⟩
    | none =>
      obtain ⟨hruns, hnot⟩ := hdown.2 w' hrun
      exact .inr ⟨hnot, hruns⟩

/-! ### After a failed `project up` -/

/-- The runs of an invocation that are left are in the ledger, and the volumes that were
prepared. -/
structure Accounted (project : Project) (fresh : RunId) (s : State) : Prop where
  runs : ∀ name identity, s.identity name = some identity → fresh ≤ identity.runId →
    s.isRecorded name identity = true
  volumes : ∀ volume ∈ s.receipts, (ledgerOf project s).volumes.lookup volume.name = some volume

/-- No run of an invocation is left. -/
def NoneLeft (fresh : RunId) (s : State) : Prop :=
  ∀ name identity, s.identity name = some identity → identity.runId < fresh

/-- The plan says to recreate this owned run. -/
def Recreates (project : Project) (options : Options) (w : World) (id : RunId) : Prop :=
  ∃ ledger plans w₁, (upPlan project options).run (answer project) w = (some (ledger, plans), w₁) ∧
    ∃ plan ∈ plans, plan.action = .recreate ∧
      ∃ managed, ledger.services.lookup plan.service = some managed ∧ managed.runId = id

/-- The volumes that were prepared are taken over, or were in the ledger before. -/
def Taken (project : Project) (s s' : State) : Prop :=
  (mergePreparedVolumes project s'.preparedFor (ledgerOf project s).volumes s'.receipts).isSome ∨
    ∀ volume ∈ s'.receipts, (ledgerOf project s).volumes.lookup volume.name = some volume

/-- The removal that expects no identity left the run that the last start created, and the ledger
of `s` does not have it. -/
def Strands (s s' : State) : Prop :=
  ∃ name identity, (name, some identity) ∈ s'.unbound ∧ s'.launched = some identity.runId ∧
    s.isRecorded name identity = false

theorem strands_iff {u : Invocation} (hledger : u.ledger = ledgerOf u.project s) :
    Strands s s' ↔ u.Strands s' := by
  have hsame : SameLedger (ledgerOf u.project s) u.ledger := by
    rw [hledger]
    exact ⟨rfl, rfl, rfl⟩
  simp only [Strands, Invocation.Strands, isRecorded_eq hsame]

theorem isOwned_of_isRecorded {name : String} {identity : RuntimeIdentity}
    (h : s.isRecorded name identity = true) : s.IsOwned name := by
  obtain ⟨record, hstored, hrecords⟩ := (Option.any_eq_true _ _).mp h
  obtain ⟨service, -, hany⟩ := List.any_eq_true.mp hrecords
  obtain ⟨managed, hmanaged, hboth⟩ := (Option.any_eq_true _ _).mp hany
  rw [Bool.and_eq_true, decide_eq_true_eq] at hboth
  exact ⟨record, hstored, service, managed, hmanaged, hboth.1⟩

/-- Where the ledger agrees with the backend, what stands under one of its names is recorded. -/
theorem isRecorded_of_isOwned {name : String} {identity : RuntimeIdentity} (h : Agrees project s)
    (howned : s.IsOwned name) (hid : s.identity name = some identity) :
    s.isRecorded name identity = true := by
  obtain ⟨record, hstored, hvalid, hagrees⟩ := h
  obtain ⟨other, hother, service, managed, hmanaged, rfl⟩ := howned
  obtain rfl := Option.some.inj (hstored.symm.trans hother)
  obtain ⟨run, hrun, rfl⟩ := Option.map_eq_some_iff.mp hid
  have hconsistent := (isValid_iff.mp hvalid).1
  rw [State.isRecorded, hstored, Option.any_some, records_iff hconsistent]
  exact ⟨service, managed, hmanaged, rfl, (hagrees service managed hmanaged run hrun).symm⟩

theorem Invocation.RolledBack.accounted_iff {u : Invocation} (h : u.RolledBack s')
    (hledger : u.ledger = ledgerOf u.project s) (hwritten : s'.isUnwritten = false) :
    Accounted u.project u.fresh s' ↔ ¬u.Strands s' ∧ Taken u.project s s' := by
  have haccepted : u.Accepted s' ↔ (mergePreparedVolumes u.project s'.preparedFor
      (ledgerOf u.project s).volumes s'.receipts).isSome := by rw [Invocation.Accepted, hledger]
  constructor
  · intro haccounted
    refine ⟨fun hstranded => ?_, ?_⟩
    · obtain ⟨name, identity, hid, hnew, hnot⟩ := h.stranded hwritten hstranded
      exact Bool.false_ne_true (hnot.symm.trans (haccounted.runs name identity hid hnew))
    · by_cases ha : u.Accepted s'
      · exact .inl (haccepted.mp ha)
      · refine .inr ?_
        rw [← hledger, ← h.rejected hwritten ha]
        exact haccounted.volumes
  · rintro ⟨hstranded, htaken⟩
    refine ⟨h.recorded hwritten hstranded, ?_⟩
    by_cases ha : u.Accepted s'
    · exact h.accepted hwritten ha
    · rw [h.rejected hwritten ha, hledger]
      exact htaken.resolve_left fun hsome => ha (haccepted.mpr hsome)

theorem Invocation.RolledBack.noneLeft_iff {u : Invocation} (h : u.RolledBack s)
    (hwritten : s.isUnwritten = false) :
    NoneLeft u.fresh (s.broughtDown u.project) ↔
      NoneLeft u.fresh s ∨ ¬u.Strands s ∧ Agrees u.project s := by
  have hidentity : ∀ {name : String} {s' : State}, s'.runs name = s.runs name →
      s'.identity name = s.identity name := fun hruns => by
    rw [State.identity, State.identity, hruns]
  rcases @broughtDown_cases u.project s with ⟨hcases, howned, hother⟩ | ⟨hnot, hsame⟩
  · constructor
    · intro hnone
      by_contra hneither
      rw [not_or] at hneither
      obtain ⟨hleft, hneither⟩ := hneither
      rcases hcases with hstored | hagrees
      · -- Without a ledger nothing is removed.
        refine hleft fun name identity hid => hnone name identity ?_
        rw [hidentity (hother name ?_), hid]
        rintro ⟨record, hsome, -⟩
        cases hstored.symm.trans hsome
      -- With the ledger in agreement only a stranded run can be left, and it is in no record.
      · have hstranded : u.Strands s := by
          by_contra hnot
          exact hneither ⟨hnot, hagrees⟩
        obtain ⟨name, identity, hid, hnew, hunrecorded⟩ := h.stranded hwritten hstranded
        have hnotOwned : ¬s.IsOwned name := fun hname => Bool.false_ne_true
          (hunrecorded.symm.trans (isRecorded_of_isOwned hagrees hname hid))
        have hlate := hnone name identity (by rw [hidentity (hother name hnotOwned), hid])
        exact absurd hnew (Nat.not_le.mpr hlate)
    · rintro (hnone | ⟨hstranded, -⟩) name identity hid
      · by_cases hname : s.IsOwned name
        · rw [State.identity, howned name hname] at hid
          cases hid
        · exact hnone name identity (by rw [← hidentity (hother name hname), hid])
      · by_cases hname : s.IsOwned name
        · rw [State.identity, howned name hname] at hid
          cases hid
        · rw [hidentity (hother name hname)] at hid
          by_contra hnew
          exact hname (isOwned_of_isRecorded
            (h.recorded hwritten hstranded name identity hid (Nat.not_lt.mp hnew)))
  · constructor
    · intro hnone
      refine .inl fun name identity hid => hnone name identity ?_
      rw [hidentity (congrFun hsame name), hid]
    · rintro (hnone | ⟨-, hagrees⟩)
      · intro name identity hid
        rw [hidentity (congrFun hsame name)] at hid
        exact hnone name identity hid
      · exact absurd hagrees hnot

/-- **What a failed `project up` leaves.** It touches its own runs and those that it recreates only,
and at most one of its removals expects no identity. If it could write the ledger, this has its runs
and volumes exactly if that removal strands no run and the volumes are taken over, and bringing the
project down leaves none of its runs exactly if there is none, or none is stranded and the ledger
agrees with the backend. -/
theorem upProject_failed_iff {options : Options} {w w' : World} (hinit : w.state.IsInitial)
    (h : (upProject project options).run (answer project) w = (none, w')) :
    (∀ id ∈ w'.state.touched, w.state.fresh ≤ id ∨ Recreates project options w id) ∧
    w'.state.unbound.length ≤ 1 ∧
    (w'.state.isUnwritten = false →
      (Accounted project w.state.fresh w'.state ↔
        ¬Strands w.state w'.state ∧ Taken project w.state w'.state) ∧
      (NoneLeft w.state.fresh (w'.state.broughtDown project) ↔
        NoneLeft w.state.fresh w'.state ∨
          ¬Strands w.state w'.state ∧ Agrees project w'.state)) := by
  obtain ⟨u, rfl, hledger, hfresh, hrolled, hplans⟩ := rolledBack_of_run hinit h
  rw [← hfresh, strands_iff hledger]
  refine ⟨fun id hid => (hrolled.touched id hid).imp_right ?_, hrolled.single, fun hwritten =>
    ⟨hrolled.accounted_iff hledger hwritten, hrolled.noneLeft_iff hwritten⟩⟩
  rintro ⟨plan, hplan, haction, hmanaged⟩
  rcases hplans with hnone | ⟨w₁, hrun⟩
  · rw [hnone] at hplan
    cases hplan
  · exact ⟨u.ledger, u.plans, w₁, hrun, plan, hplan, haction, hmanaged⟩

/-- A project with one service that needs nothing. -/
def solo : Project where
  services := [("web", ⟨[], [], []⟩)]
  volumes := []
  runName service := "p-" ++ service ++ "-1"
  configDigest := ""
  serviceDigest _ := ""

/-- All services are brought up. -/
def upAll : Options where
  selected := none
  noRecreate := false
  forceRecreate := false
  hasDesiredDigest := false

/-- There is nothing yet. -/
def untouched : State where
  runs _ := none
  fresh := 0
  stored := none
  touched := []
  receipts := []
  preparedFor := []
  isUnwritten := false
  launched := none
  unbound := []

theorem solo_service : solo.service "web" = some ⟨[], [], []⟩ := by decide

theorem solo_startOrder : solo.serviceStartOrder none = some ["web"] := by
  have hclosure : ["web"].foldlM (solo.closure 2) [] = some ["web"] := by
    simp [Project.closure, solo_service]
  have hrequested : ∀ name ∈ solo.requested none, name ∈ solo.names := fun _ hname => hname
  refine (serviceStartOrder_eq hrequested hclosure).trans ?_
  simp [Project.layers, Project.isReady, solo_service]

/-- The plan to create it. -/
def soloPlan : ServicePlan := ⟨"web", "p-web-1", .create, "", none, false⟩

/-- Its run is there. -/
def soloStarted : State := { untouched with
  runs := Function.update (fun _ => none) "p-web-1" (some ⟨0, .kvm, .running⟩)
  fresh := 1
  preparedFor := [soloPlan]
  launched := some 0 }

/-- The run is being started. -/
def soloCreated : Progress := { Progress.start (newState solo) with created := [soloPlan] }

/-- The start creates the run and raises, the stop raises, and this is how the removal goes. -/
def startRaises (r : Outcome) : List Outcome := [.started .kvm .running true, .raised false, r]

/-- Five calls succeed before that. -/
def soloWorld (r : Outcome) : World :=
  ⟨untouched, .done :: .done :: .done :: .done :: .done :: startRaises r⟩

theorem solo_run (r : Outcome) : (upProject solo upAll).run (answer solo) (soloWorld r) =
    (none, ⟨(respond r solo soloStarted (.remove "p-web-1" none)).2, []⟩) := by
  have hplan : (upPlan solo upAll).run (answer solo) (soloWorld r) =
      (some (newState solo, [soloPlan]),
        ⟨untouched, .done :: .done :: .done :: startRaises r⟩) := by
    have horder : solo.serviceStartOrder upAll.selected = some ["web"] := solo_startOrder
    simp only [upPlan, buildUpPlan, horder]
    rfl
  have hports : publishedPorts solo [soloPlan] = [] := by
    simp [publishedPorts, soloPlan, solo_service]
  have hprepare : (prepareActions solo [soloPlan]).run (answer solo)
      ⟨untouched, .done :: .done :: .done :: startRaises r⟩ =
        (some [soloPlan], ⟨untouched, .done :: startRaises r⟩) := by
    have hcurrent : [soloPlan].filter (fun plan => !plan.preserveConfig) = [soloPlan] := rfl
    have hprep : [soloPlan].filter (fun plan => plan.action ≠ .noop) = [soloPlan] := rfl
    rw [prepareActions, hprep, hcurrent, hports]
    rfl
  have hvolumes : (prepareVolumes solo [soloPlan] (Progress.start (newState solo))).run
      (answer solo) ⟨untouched, .done :: startRaises r⟩ =
        (some (some (), Progress.start (newState solo)),
          ⟨{ untouched with preparedFor := [soloPlan] }, startRaises r⟩) := by
    simp [solo_service, prepareVolumes, recordVolumes, mergePreparedVolumes, soloPlan,
      Progress.start, referencedManagedVolumes, mergeVolumes, Bind.bind, Tried.bind, Program.bind,
      pure, Tried.lift, Tried.get, Tried.modify, Tried.require, caught, call, ask, run, answer,
      respond, finish, untouched]
  have happly : (applyPlan solo upAll soloPlan (Progress.start (newState solo))).run (answer solo)
      ⟨{ untouched with preparedFor := [soloPlan] }, startRaises r⟩ =
        (some (none, soloCreated), ⟨soloStarted, [.raised false, r]⟩) := rfl
  have hbody : (upBody solo upAll [soloPlan] [soloPlan] (Progress.start (newState solo))).run
      (answer solo) ⟨untouched, .done :: startRaises r⟩ =
        (some (none, soloCreated), ⟨soloStarted, [.raised false, r]⟩) :=
    (Tried.run_bind hvolumes).trans (Tried.run_bind_raised (Tried.run_bind_raised happly))
  have hrollback : (rollback [soloPlan] soloCreated).run (answer solo)
      ⟨soloStarted, [.raised false, r]⟩ =
        (some soloCreated, ⟨(respond r solo soloStarted (.remove "p-web-1" none)).2, []⟩) := by
    rw [rollback_cons]
    exact (run_bind (run_caught_ask _ _)).trans (run_bind (run_caught_ask _ _))
  have hwrite : writeRolledBack soloCreated = pure () := by
    simp [writeRolledBack, soloCreated, Progress.start]
  rw [upProject, run_bind hplan]
  refine (run_bind hprepare).trans ((run_bind hbody).trans ((run_bind hrollback).trans ?_))
  rw [hwrite]
  rfl

theorem untouched_isInitial : untouched.IsInitial := ⟨nofun, rfl, rfl, rfl, rfl, rfl⟩

/-- The run that was being started is removed, and nothing is left. -/
theorem upProject_failed_iff_removed : ∃ w',
    (upProject solo upAll).run (answer solo) (soloWorld .done) = (none, w') ∧
      Accounted solo 0 w'.state := by
  refine ⟨_, solo_run .done, ?_⟩
  have hfailed := (upProject_failed_iff untouched_isInitial (solo_run .done)).2.2 rfl
  refine hfailed.1.mpr ⟨?_, .inr nofun⟩
  rintro ⟨name, identity, hmem, -⟩
  cases (Prod.mk.inj (List.mem_singleton.mp hmem)).2

/-- **A run that is stranded**: its removal fails as its start did. No ledger has it, and bringing
the project down leaves it. -/
theorem upProject_strands : ∃ w',
    (upProject solo upAll).run (answer solo) (soloWorld (.raised false)) = (none, w') ∧
      untouched.identity "p-web-1" = none ∧ w'.state.isUnwritten = false ∧
      w'.state.identity "p-web-1" = some ⟨0, .kvm⟩ ∧
      w'.state.isRecorded "p-web-1" ⟨0, .kvm⟩ = false ∧
      (w'.state.broughtDown solo).identity "p-web-1" = some ⟨0, .kvm⟩ := by
  refine ⟨_, solo_run (.raised false), rfl, rfl, rfl, rfl, rfl⟩

end Palimpsest.Runtime
