import Mathlib.Data.Finmap
import Mathlib.Data.Finset.Sort
import Mathlib.Data.String.Basic
import Palimpsest.Lib.Calls

/-!
# Bringing a project up and down

A project has services, each of which runs as one VM. `upProject` plans what to do with the
selected services, prepares their volumes, and then creates, starts or recreates their VMs one
by one; it writes a ledger of what it owns after each of them. Where something fails it stops
and removes the VMs that it created itself. `downProject` stops and removes all VMs of the
ledger.

What the backend does is behind callbacks, which are calls of the programs here, as are the
reading and writing of the ledger. Every one of them can fail.
-/

namespace Palimpsest.Runtime

open Calls Calls.Program

/-- `run_id`, a number in the order in which they are drawn. -/
abbrev RunId := ℕ

/-- `_KNOWN_BACKENDS`. -/
inductive Backend
  | kvm
  | limaVz
  | libvirtHvf
  deriving DecidableEq

/-- `_KNOWN_RUNTIME_STATUSES`. -/
inductive Status
  | creating
  | defined
  | starting
  | running
  | stopping
  | stopped
  | removed
  | failed
  deriving DecidableEq

/-! ### The project -/

structure PortSpec where
  hostIp : String
  hostPort : ℕ
  guestPort : ℕ
  protocol : String
  deriving DecidableEq

/-- A service: the services it depends on, its ports, and the sources of its volume mounts. -/
structure ServiceSpec where
  dependsOn : List String
  ports : List PortSpec
  volumes : List String
  deriving DecidableEq

structure VolumeSpec where
  sizeMib : ℕ
  external : Bool
  deriving DecidableEq

/-- A project, with its digest and those of its services. -/
structure Project where
  services : List (String × ServiceSpec)
  volumes : List (String × VolumeSpec)
  /-- `service_run_name`. -/
  runName : String → String
  /-- `project_config_digest`. -/
  configDigest : String
  /-- `service_config_digest`. -/
  serviceDigest : String → String

namespace Project

variable (project : Project)

def service (name : String) : Option ServiceSpec := project.services.lookup name

def volume (name : String) : Option VolumeSpec := project.volumes.lookup name

/-- `include` of `service_start_order`: a service and what it depends on. -/
def closure : ℕ → List String → String → Option (List String)
  | 0, _, _ => none
  | depth + 1, found, name =>
    if name ∈ found then some found
    else do
      let service ← project.service name
      let found ← service.dependsOn.foldlM (closure depth) found
      return found.insert name

/-- Whether a service waits for none but these. -/
def isReady (emitted : List String) (name : String) : Bool :=
  match project.service name with
  | some service => service.dependsOn.all fun dependency => dependency ∈ emitted
  | none => false

/-- The services in layers: each after what it depends on. -/
def layers (closure : List String) : ℕ → List String → Option (List String)
  | 0, emitted => if emitted.length < closure.length then none else some emitted
  | fuel + 1, emitted =>
    if emitted.length < closure.length then
      match (closure.filter fun name =>
          name ∉ emitted && project.isReady emitted name).mergeSort with
      | [] => none
      | ready => layers closure fuel (emitted ++ ready)
    else some emitted

/-- `service_start_order`. -/
def serviceStartOrder (selected : Option (List String)) : Option (List String) := do
  let requested := selected.getD (project.services.map Prod.fst)
  guard (requested.all fun name => (project.service name).isSome)
  let closure ← requested.foldlM (project.closure (project.services.length + 1)) []
  project.layers closure closure.length []

end Project

/-! ### The ledger -/

structure RuntimeIdentity where
  runId : RunId
  backend : Backend
  deriving DecidableEq

structure ManagedService where
  service : String
  runName : String
  configDigest : String
  runId : RunId
  backend : Backend
  deriving DecidableEq

structure ManagedVolume where
  name : String
  backend : Backend
  sizeBytes : ℕ
  deriving DecidableEq

/-- `_expected_mutation_identity`. -/
def ManagedService.identity (managed : ManagedService) : RuntimeIdentity :=
  ⟨managed.runId, managed.backend⟩

abbrev Services := Finmap fun _ : String => ManagedService

abbrev Volumes := Finmap fun _ : String => ManagedVolume

structure ProjectState where
  configDigest : String
  services : Services
  order : List String
  volumes : Volumes

/-- `_new_state`. -/
def newState (project : Project) : ProjectState := ⟨project.configDigest, ∅, [], ∅⟩

/-- What `_decode_state` asks of a ledger. -/
def ProjectState.isValid (project : Project) (record : ProjectState) : Bool :=
  decide record.order.Nodup &&
    decide (record.order.toFinset = record.services.keys) &&
    (record.order.all fun name =>
      (record.services.lookup name).all fun managed =>
        managed.service = name && managed.runName = project.runName name) &&
    decide (record.order.map project.runName).Nodup

/-! ### Calls -/

/-- A run as the backend shows it. -/
structure Run where
  runId : RunId
  backend : Backend
  status : Status
  deriving DecidableEq

/-- `runtime_identity`. -/
def Run.identity (run : Run) : RuntimeIdentity := ⟨run.runId, run.backend⟩

inductive UpAction
  | noop
  | create
  | start
  | recreate
  deriving DecidableEq

structure ServicePlan where
  service : String
  runName : String
  action : UpAction
  configDigest : String
  previousStatus : Option Status
  preserveConfig : Bool
  deriving DecidableEq

structure PublishedPort where
  service : String
  runName : String
  port : PortSpec
  deriving DecidableEq

structure DownTarget where
  service : String
  runName : String
  status : Option Status
  deriving DecidableEq

/-- The volumes that were prepared, and whether all of them were
(`ProjectPrepareError` otherwise). -/
structure Receipts where
  volumes : List ManagedVolume
  isComplete : Bool

inductive Call
  | readState
  | writeState (record : ProjectState)
  | inspect (name : String)
  | desiredDigest (service : String)
  | resolve (service : String)
  | portAvailable (port : PublishedPort) (replacing : Option String)
  | preflight (plans : List ServicePlan)
  | prepare (plans : List ServicePlan)
  | start (plan : ServicePlan) (expected : Option RuntimeIdentity)
  | stop (name : String) (expected : Option RuntimeIdentity)
  | remove (name : String) (expected : Option RuntimeIdentity)
  | preflightDown (targets : List DownTarget) (volumes : List ManagedVolume)
  | removeVolume (volume : ManagedVolume)

@[reducible]
def Answer : Call → Type
  | .readState => Option ProjectState
  | .inspect _ => Option Run
  | .desiredDigest _ => String
  | .portAvailable _ _ => Bool
  | .prepare _ => Receipts
  | _ => Unit

abbrev Op := Program Call Answer

/-- A call whose exception is not handled here. -/
abbrev call (c : Call) : Op (Answer c) := ask c

/-- How a project is brought up. -/
structure Options where
  selected : Option (List String)
  noRecreate : Bool
  forceRecreate : Bool
  /-- Whether there is a callback for the desired digest. -/
  hasDesiredDigest : Bool

/-! ### The plan -/

def Status.isTransitional : Status → Bool
  | .creating | .starting | .stopping => true
  | _ => false

/-- What to do with a service whose run has this status. -/
def upAction (options : Options) (isManaged isDrifted : Bool) : Option Status → Option UpAction
  | none => some .create
  | some status =>
    if !isManaged then some .create
    else if options.forceRecreate then some .recreate
    else if isDrifted && options.noRecreate then
      match status with
      | .running => some .noop
      | .stopped => some .start
      | _ => none
    else if isDrifted || status = .defined || status = .failed || status = .removed then
      some .recreate
    else
      match status with
      | .running => some .noop
      | .stopped => some .start
      | _ => none

/-- The digest that a service should have. -/
def desiredDigest (project : Project) (options : Options) (service : String) : Op String :=
  if options.hasDesiredDigest then call (.desiredDigest service)
  else return project.serviceDigest service

/-- `_build_up_plan`, for one service. -/
def planService (project : Project) (ledger : ProjectState) (options : Options) (service : String) :
    Op ServicePlan := do
  let runName := project.runName service
  let managed := ledger.services.lookup service
  require (managed.all fun managed => managed.runName = runName)
  let inspected ← call (.inspect runName)
  let status := inspected.map Run.status
  require (managed.isSome || status.isNone)
  require (managed.all fun managed => inspected.all fun run => run.identity = managed.identity)
  require (!status.any Status.isTransitional)
  match options.noRecreate, managed with
  | true, some managed => do
    require (status = some .running)
    return ⟨service, runName, .noop, managed.configDigest, status, true⟩
  | _, _ => do
    let digest ← desiredDigest project options service
    let isDrifted := managed.any fun managed => managed.configDigest ≠ digest
    let action ← take (upAction options managed.isSome isDrifted status)
    return ⟨service, runName, action, digest, status, false⟩

/-- `_build_up_plan`, for these services. -/
def planServices (project : Project) (ledger : ProjectState) (options : Options) :
    List String → Op (List ServicePlan)
  | [] => return []
  | service :: services => do
    let plan ← planService project ledger options service
    let plans ← planServices project ledger options services
    return plan :: plans

/-- `_build_up_plan`. -/
def buildUpPlan (project : Project) (ledger : ProjectState) (options : Options) :
    Op (List ServicePlan) := do
  require (!(options.noRecreate && options.forceRecreate))
  let order ← take (project.serviceStartOrder options.selected)
  planServices project ledger options order

/-- The ledger, and what is planned from it. -/
def upPlan (project : Project) (options : Options) : Op (ProjectState × List ServicePlan) := do
  let ledger := (← call .readState).getD (newState project)
  let plans ← buildUpPlan project ledger options
  return (ledger, plans)

/-- The order of published ports. -/
def PublishedPort.le (p q : PublishedPort) : Bool :=
  if p.port.hostIp ≠ q.port.hostIp then p.port.hostIp < q.port.hostIp
  else if p.port.hostPort ≠ q.port.hostPort then p.port.hostPort < q.port.hostPort
  else if p.port.protocol ≠ q.port.protocol then p.port.protocol < q.port.protocol
  else p.service ≤ q.service

/-- `published_ports` of the services of these plans, each with its plan. -/
def publishedPorts (project : Project) (plans : List ServicePlan) :
    List (PublishedPort × ServicePlan) :=
  (plans.flatMap fun plan =>
    ((project.service plan.service).elim [] ServiceSpec.ports).map fun port =>
      (⟨plan.service, project.runName plan.service, port⟩, plan)).mergeSort
    fun p q => p.1.le q.1

/-- The inputs of the services are resolved. -/
def resolveServices : List ServicePlan → Op Unit
  | [] => return ()
  | plan :: plans => do
    call (.resolve plan.service)
    resolveServices plans

/-- The run whose ports a plan takes over. -/
def replacing (port : PublishedPort) (plan : ServicePlan) : Option String :=
  if plan.action = .recreate &&
      (plan.previousStatus = some .running || plan.previousStatus = some .starting ||
        plan.previousStatus = some .creating) then
    some port.runName
  else none

/-- The ports are checked. -/
def checkPorts : List (PublishedPort × ServicePlan) → Op Unit
  | [] => return ()
  | (port, plan) :: ports => do
    require (← call (.portAvailable port (replacing port plan)))
    checkPorts ports

/-- `_prepare_actions`. -/
def prepareActions (project : Project) (plans : List ServicePlan) : Op (List ServicePlan) :=
  let prepared := plans.filter fun plan => plan.action ≠ .noop
  let current := prepared.filter fun plan => !plan.preserveConfig
  do
    resolveServices current
    match prepared with
    | [] => return []
    | _ => do
      checkPorts (publishedPorts project current)
      call (.preflight prepared)
      return prepared

/-! ### Bringing up -/

/-- The variables of `up_project`. -/
structure Progress where
  services : Services
  order : List String
  volumes : Volumes
  current : ProjectState
  created : List ServicePlan
  createdIdentities : Finmap fun _ : String => RuntimeIdentity

/-- The variables at first. -/
def Progress.start (ledger : ProjectState) : Progress :=
  ⟨ledger.services, ledger.order, ledger.volumes, ledger, [], ∅⟩

/-- A part of `up_project` that its exception handler follows. -/
abbrev Body := Tried Call Answer Progress

def mib : ℕ := 1048576

/-- `_referenced_managed_volumes`; none where a service or a volume is missing. -/
def referencedManagedVolumes (project : Project) (services : List String) :
    Option (List String) := do
  let mounts ← services.mapM fun name => (project.service name).map ServiceSpec.volumes
  let volumes ← mounts.flatten.mapM fun name => (project.volume name).map fun spec => (name, spec)
  return ((volumes.filter fun volume => !volume.2.external).map Prod.fst).dedup

/-- The records of prepared volumes are taken over one by one. -/
def mergeVolumes (project : Project) (expected : List String) :
    List String → Volumes → List ManagedVolume → Option Volumes
  | _, merged, [] => some merged
  | seen, merged, volume :: supplied => do
    guard (volume.name ∉ seen)
    guard (volume.name ∈ expected)
    let spec ← project.volume volume.name
    guard (volume.sizeBytes = spec.sizeMib * mib)
    guard ((merged.lookup volume.name).all fun prior => prior = volume)
    mergeVolumes project expected (volume.name :: seen) (merged.insert volume.name volume) supplied

/-- `_merge_prepared_volumes`. -/
def mergePreparedVolumes (project : Project) (prepared : List ServicePlan) (existing : Volumes)
    (supplied : List ManagedVolume) : Option Volumes := do
  let expected ← referencedManagedVolumes project (prepared.map ServicePlan.service)
  mergeVolumes project expected [] existing supplied

/-- The ledger is replaced by these variables, and written. -/
def saveProgress (project : Project) : Body Unit := do
  Tried.modify fun v =>
    { v with current := ⟨project.configDigest, v.services, v.order, v.volumes⟩ }
  let v ← Tried.get
  Tried.lift (call (.writeState v.current))

/-- The volumes that were prepared go to the ledger. -/
def recordVolumes (project : Project) (prepared : List ServicePlan)
    (supplied : List ManagedVolume) : Body Unit := do
  let v ← Tried.get
  match mergePreparedVolumes project prepared v.volumes supplied with
  | none => Tried.raise
  | some merged => do
    Tried.modify fun v => { v with volumes := merged }
    if merged = v.current.volumes then return ()
    else saveProgress project

/-- The volumes are prepared. -/
def prepareVolumes (project : Project) (prepared : List ServicePlan) : Body Unit :=
  let current := prepared.filter fun plan => !plan.preserveConfig
  match current with
  | [] => recordVolumes project [] []
  | _ => do
    let receipts ← Tried.lift (call (.prepare current))
    recordVolumes project current receipts.volumes
    Tried.require receipts.isComplete

/-- A run that is owned is still there, and still the same. -/
def checkManaged (plan : ServicePlan) : Option ManagedService → Body Unit
  | some managed =>
    match plan.previousStatus with
    | some _ => do
      let inspected ← Tried.lift (call (.inspect plan.runName))
      Tried.require (inspected.any fun run => run.identity = managed.identity)
    | none => return ()
  | none => return ()

/-- The run that is recreated is stopped and removed. -/
def removePrevious (plan : ServicePlan) (expected : Option RuntimeIdentity) : Body Unit :=
  if plan.action = .recreate then do
    if plan.previousStatus = none || plan.previousStatus = some .removed then
      Tried.lift (call (.remove plan.runName expected))
    else do
      Tried.lift (call (.stop plan.runName expected))
      Tried.lift (call (.remove plan.runName expected))
  else return ()

/-- Whether the plan is to create a run. -/
def ServicePlan.creates (plan : ServicePlan) : Bool :=
  plan.action = .create || plan.action = .recreate

/-- The run is started, and found running. -/
def startRun (plan : ServicePlan) (expected : Option RuntimeIdentity) : Body RuntimeIdentity := do
  if plan.creates then Tried.modify fun v => { v with created := v.created ++ [plan] }
  Tried.lift (call (.start plan (if plan.action = .start then expected else none)))
  match ← Tried.lift (call (.inspect plan.runName)) with
  | some run => do
    Tried.require (run.status = .running)
    return run.identity
  | none => Tried.raise

/-- The digest that is recorded for a service. -/
def appliedDigest (options : Options) (plan : ServicePlan) : Option ManagedService → String
  | some previous =>
    if options.noRecreate && previous.configDigest ≠ plan.configDigest then previous.configDigest
    else plan.configDigest
  | none => plan.configDigest

/-- The service goes to the variables. -/
def recordService (options : Options) (plan : ServicePlan) (identity : RuntimeIdentity)
    (v : Progress) : Progress :=
  { v with
    services := v.services.insert plan.service ⟨plan.service, plan.runName,
      appliedDigest options plan (v.services.lookup plan.service), identity.runId, identity.backend⟩
    createdIdentities := if plan.creates then v.createdIdentities.insert plan.service identity
      else v.createdIdentities
    order := if plan.service ∈ v.order then v.order else v.order ++ [plan.service] }

/-- The volumes of a service go to the variables. -/
def bindVolumes (project : Project) (backend : Backend) : List String → Body Unit
  | [] => return ()
  | name :: names => do
    let v ← Tried.get
    match project.volume name with
    | none => Tried.raise
    | some spec => do
      let volume : ManagedVolume := ⟨name, backend, spec.sizeMib * mib⟩
      Tried.require ((v.volumes.lookup name).all fun existing =>
        existing.backend = volume.backend && existing.sizeBytes = volume.sizeBytes)
      Tried.modify fun v => { v with volumes := v.volumes.insert name volume }
      bindVolumes project backend names

/-- One service is created, started or recreated. -/
def applyPlan (project : Project) (options : Options) (plan : ServicePlan) : Body Unit := do
  let v ← Tried.get
  let prior := v.services.lookup plan.service
  let expected := prior.map ManagedService.identity
  checkManaged plan prior
  removePrevious plan expected
  let identity ← startRun plan expected
  Tried.require (plan.action ≠ .start || prior.all fun managed => managed.identity = identity)
  Tried.modify (recordService options plan identity)
  if plan.preserveConfig then saveProgress project
  else
    match referencedManagedVolumes project [plan.service] with
    | none => Tried.raise
    | some names => do
      bindVolumes project identity.backend names
      saveProgress project

/-- The services one by one. -/
def applyPlans (project : Project) (options : Options) : List ServicePlan → Body Unit
  | [] => return ()
  | plan :: plans =>
    if plan.action = .noop then applyPlans project options plans
    else do
      applyPlan project options plan
      applyPlans project options plans

/-- `_successful_service_order`; none where the project has none. -/
def successfulServiceOrder (project : Project) (services : Services) (previous : List String) :
    Option (List String) := do
  let order ← project.serviceStartOrder none
  let current := order.filter fun name => name ∈ services
  let orphans := previous.filter fun name => name ∈ services && (project.service name).isNone
  let rest := (services.keys.filter fun name => name ∉ current ++ orphans).sort
  return current ++ orphans ++ rest

/-- The order of the ledger is refreshed. -/
def refreshOrder (project : Project) : Body Unit := do
  let v ← Tried.get
  match successfulServiceOrder project v.services v.order with
  | none => Tried.raise
  | some order =>
    if order = v.current.order then return ()
    else do
      Tried.modify fun v => { v with order := order }
      saveProgress project

/-- What an exception in it rolls back. -/
def upBody (project : Project) (options : Options) (plans prepared : List ServicePlan) :
    Body Unit := do
  prepareVolumes project prepared
  applyPlans project options plans
  refreshOrder project

/-- The runs that were created are stopped and removed, the last one first. -/
def rollback : List ServicePlan → Progress → Op Progress
  | [], v => return v
  | plan :: plans, v => do
    let expected := v.createdIdentities.lookup plan.service
    let stopped ← (call (.stop plan.runName expected)).caught
    let removed ← (call (.remove plan.runName expected)).caught
    if stopped.isSome && removed.isSome then
      rollback plans { v with
        services := v.services.erase plan.service
        order := v.order.erase plan.service }
    else rollback plans v

/-- The ledger is written after a rollback, if it changed. -/
def writeRolledBack (v : Progress) : Op Unit :=
  if v.current.services = v.services && v.current.order = v.order &&
      v.current.volumes = v.volumes then
    return ()
  else do
    let _ ← (call (.writeState { v.current with
      services := v.services
      order := v.order
      volumes := v.volumes })).caught
    return ()

/-- `up_project`: the services that were created. -/
def upProject (project : Project) (options : Options) : Op (List String) := do
  let (ledger, plans) ← upPlan project options
  match ← prepareActions project plans with
  | [] => do
    let order ← take (successfulServiceOrder project ledger.services ledger.order)
    if order = ledger.order then return []
    else do
      call (.writeState { ledger with configDigest := project.configDigest, order := order })
      return []
  | prepared => do
    let (finished, v) ← upBody project options plans prepared (Progress.start ledger)
    match finished with
    | some _ => return v.created.map ServicePlan.service
    | none => do
      let v ← rollback v.created.reverse v
      writeRolledBack v
      raise

/-! ### Bringing down -/

/-- The services of the ledger, with their statuses. -/
def downTargets (ledger : ProjectState) : List String → Op (List DownTarget)
  | [] => return []
  | service :: services => do
    let managed ← take (ledger.services.lookup service)
    let inspected ← call (.inspect managed.runName)
    require (inspected.all fun run => run.identity = managed.identity)
    let targets ← downTargets ledger services
    return ⟨service, managed.runName, inspected.map Run.status⟩ :: targets

/-- The run of a service is stopped and removed, if it is still the same. -/
def downService (current : ProjectState) (target : DownTarget) : Op ProjectState := do
  let managed ← take (current.services.lookup target.service)
  let beforeMutation ← call (.inspect target.runName)
  require (beforeMutation.all fun run => run.identity = managed.identity)
  if target.status = none || target.status = some .removed then
    removeService managed
  else do
    call (.stop target.runName (some managed.identity))
    removeService managed
where
  /-- The second half. -/
  removeService (managed : ManagedService) : Op ProjectState := do
    let beforeRemove ← call (.inspect target.runName)
    require (beforeRemove.all fun run => run.identity = managed.identity)
    call (.remove target.runName (some managed.identity))
    let record := { current with
      services := current.services.erase target.service
      order := current.order.erase target.service }
    call (.writeState record)
    return record

/-- The services one by one. -/
def downServices : ProjectState → List DownTarget → Op ProjectState
  | current, [] => return current
  | current, target :: targets => do
    let current ← downService current target
    downServices current targets

/-- The volumes one by one. -/
def downVolumes : ProjectState → List ManagedVolume → Op Unit
  | _, [] => return ()
  | current, volume :: volumes => do
    call (.removeVolume volume)
    let record := { current with volumes := current.volumes.erase volume.name }
    call (.writeState record)
    downVolumes record volumes

/-- The volumes of a ledger, by name. -/
def ProjectState.volumeList (record : ProjectState) : List ManagedVolume :=
  record.volumes.keys.sort.filterMap record.volumes.lookup

/-- `down_project`: the services that were removed. -/
def downProject (volumes : Bool) : Op (List String) := do
  match ← call .readState with
  | none => return []
  | some ledger => do
    let targets ← downTargets ledger ledger.order.reverse
    let volumeTargets := if volumes then ledger.volumeList else []
    call (.preflightDown targets volumeTargets)
    let current ← downServices ledger targets
    downVolumes current volumeTargets
    return targets.map DownTarget.service

end Palimpsest.Runtime
