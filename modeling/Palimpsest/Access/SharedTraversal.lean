import Palimpsest.Access.Registry
import Palimpsest.Lib.Calls

/-!
# Joining and leaving the shared directories

A run joins before its machine is launched and leaves after its machine is gone
(`Palimpsest.Access.join`, `Palimpsest.Access.leave`). Each is a program that checks, writes the
registry, the access control lists and the membership that the run keeps in its own state, and
checks again after every write. The lock of the namespace lets one of them go on at a time; it
may raise at any call, with the write done or not, and it may be killed between any two
(`Palimpsest.Access.State.step`).

What the programs check of the run itself and of its machine, and not of the namespace, is one
call here (`Palimpsest.Access.Request.authority`), which may raise.
-/

namespace Palimpsest.Access

open Control Monitor Calls Calls.Program

inductive AccessPhase
  | intent | granted | revoking | revoked
  deriving DecidableEq

/-- `RuntimeAccessReceipt`: the access that the run has on its own. -/
structure RuntimeAccessReceipt where
  accessId : Uuid
  phase : AccessPhase
  binding : MonitorPreActivationBinding
  qemuUid : ℕ
  qemuGid : ℕ
  deriving DecidableEq

/-- What an operation is called with, and the access in the state of the run. -/
structure Call where
  binding : MonitorPreActivationBinding
  access : RuntimeAccessReceipt
  deriving DecidableEq

/-- What an operation reads first, with the lock held. -/
structure View where
  registry : Registry
  saved : Option SharedTraversalMembership
  acls : PerRole ACLStructure

inductive Request
  | authority
  /-- `verify()` -/
  | verify (registry : Registry) (saved : Option SharedTraversalMembership)
      (acls : PerRole ACLStructure)
  | writeRegistry (registry : Registry)
  | writeAcl (role : Role) (acl : ACLStructure)
  | writeMember (member : SharedTraversalMembership)

/-- A program of an operation. -/
abbrev Op := Program Request fun _ => Unit

/-- `_Namespace.write` -/
def writeRegistry (registry : Registry) : Op Unit := do
  require (decide registry.Storable)
  ask (.writeRegistry registry)

/-- The directories one after the other get the lists that they should have. -/
def setAcls (registry : Registry) (member : SharedTraversalMembership)
    (target : PerRole ACLStructure) : List Role → PerRole ACLStructure → Op (PerRole ACLStructure)
  | [], acls => pure acls
  | role :: roles, acls => do
    ask (.verify registry (some member) acls)
    if acls.get role = target.get role then
      setAcls registry member target roles acls
    else
      ask (.writeAcl role (target.get role))
      ask (.verify registry (some member) (acls.set role (target.get role)))
      setAcls registry member target roles (acls.set role (target.get role))

/-! ### Joining -/

/-- A membership of a run that has none yet. -/
def newMember (c : Call) (registry : Registry) : Option SharedTraversalMembership :=
  let epoch := registry.epoch + if registry.active.isEmpty then 1 else 0
  if h : 1 ≤ epoch ∧ c.binding.ownerUid = registry.authority.owner then
    some ⟨registry.authority, epoch, c.access.accessId, c.binding, .joining, h.1, h.2⟩
  else none

/-- The membership that a run joins with. -/
def joiner (c : Call) (v : View) : Option SharedTraversalMembership :=
  v.saved.or (v.registry.pending.or (newMember c v.registry))

/-- The intent to join is in the registry. It is written only if the membership, and later the
intent of any member to leave, will have room. -/
def intendJoin (v : View) (member : SharedTraversalMembership) : Op Registry :=
  match v.registry.pending with
  | none => do
    let new := { v.registry with epoch := member.epoch, pending := some member }
    let prospective := new.list (member.withPhase .active)
    require (decide prospective.Storable)
    let largest ← take prospective.largest
    require (decide { prospective with pending := some (largest.withPhase .leaving) }.Storable)
    ask (.verify v.registry v.saved v.acls)
    writeRegistry new
    pure new
  | some p => do
    require (decide (p = member))
    pure v.registry

/-- The run keeps its membership. -/
def recordJoining (v : View) (registry : Registry) (member : SharedTraversalMembership) :
    Op Unit :=
  match v.saved with
  | none => do
    ask (.verify registry none v.acls)
    ask (.writeMember member)
  | some _ => pure ()

/-- The directories are opened, if the member is the first one. -/
def openParents (registry : Registry) (member : SharedTraversalMembership)
    (acls : PerRole ACLStructure) : Op (PerRole ACLStructure) :=
  if registry.active.isEmpty then
    setAcls registry member member.authority.granted [.rootVolumes, .runs, .state] acls
  else pure acls

/-- The member is listed as active, and knows it. -/
def completeJoin (registry : Registry) (member : SharedTraversalMembership)
    (acls : PerRole ACLStructure) : Op SharedTraversalMembership := do
  let completed := member.withPhase .active
  let new := registry.list completed
  ask (.verify registry (some member) acls)
  writeRegistry new
  ask (.verify new (some member) acls)
  ask (.writeMember completed)
  ask (.verify new (some completed) acls)
  pure completed

/-- The run joins with the membership. -/
def joinAs (v : View) (member : SharedTraversalMembership) : Op SharedTraversalMembership :=
  if member.phase = .active then do
    require (v.registry.recorded member = some member && v.registry.pending.isNone)
    pure member
  else
    match v.registry.recorded member with
    | some recorded => do
      -- killed after the registry was written and before the run knew of it
      let completed := member.withPhase .active
      require (recorded = completed && v.registry.pending.isNone)
      ask (.writeMember completed)
      ask (.verify v.registry (some completed) v.acls)
      pure completed
    | none => do
      let registry ← intendJoin v member
      recordJoining v registry member
      let acls ← openParents registry member v.acls
      completeJoin registry member acls

/-- `join_oci_shared_traversal` -/
def join (c : Call) (v : View) : Op SharedTraversalMembership := do
  let authority := v.registry.authority
  require (c.access.phase = .granted && c.access.binding = c.binding)
  ask .authority
  require (authority.qemuUid = c.access.qemuUid && authority.qemuGid = c.access.qemuGid)
  let member ← take (joiner c v)
  require (member.binding = c.binding && member.accessId = c.access.accessId &&
    member.authority.namespaceId = authority.namespaceId &&
    (member.phase = .joining || member.phase = .active))
  require (decide (v.acls ∈ v.registry.allowed))
  ask (.verify v.registry v.saved v.acls)
  joinAs v member

/-! ### Leaving -/

/-- The intent to leave is in the registry. -/
def intendLeave (v : View) (member : SharedTraversalMembership) : Op Registry :=
  let pending := member.withPhase .leaving
  match v.registry.pending with
  | none => do
    let new := { v.registry with pending := some pending }
    ask (.verify v.registry (some member) v.acls)
    writeRegistry new
    pure new
  | some p => do
    require (decide (p = pending))
    pure v.registry

/-- The run keeps its intent. -/
def recordLeaving (v : View) (registry : Registry) (member : SharedTraversalMembership) :
    Op Unit :=
  if member.phase = .active then do
    ask (.verify registry (some member) v.acls)
    ask (.writeMember (member.withPhase .leaving))
  else pure ()

/-- The directories are closed, if the member is the last one. -/
def closeParents (registry : Registry) (member : SharedTraversalMembership)
    (acls : PerRole ACLStructure) : Op (PerRole ACLStructure) :=
  if registry.active.length = 1 then
    setAcls registry member member.authority.baseline [.state, .runs, .rootVolumes] acls
  else pure acls

/-- The run knows that it left, and the registry forgets it. -/
def recordLeft (registry : Registry) (member : SharedTraversalMembership)
    (acls : PerRole ACLStructure) : Op SharedTraversalMembership := do
  let completed := member.withPhase .left
  ask (.writeMember completed)
  ask (.verify registry (some completed) acls)
  writeRegistry (registry.compact member)
  ask (.verify (registry.compact member) (some completed) acls)
  pure completed

/-- The member is listed as one that left. -/
def completeLeave (registry : Registry) (member : SharedTraversalMembership)
    (acls : PerRole ACLStructure) : Op SharedTraversalMembership := do
  let new := registry.list (member.withPhase .left)
  ask (.verify registry (some member) acls)
  writeRegistry new
  ask (.verify new (some member) acls)
  recordLeft new member acls

/-- The run leaves with the membership. -/
def leaveAs (v : View) (member : SharedTraversalMembership) : Op SharedTraversalMembership :=
  let authority := v.registry.authority
  if member.phase = .left then do
    require ((v.registry.recorded member).all (· = member) &&
      member.authority.namespaceId = authority.namespaceId &&
      member.authority.targets = authority.targets && member.epoch ≤ v.registry.epoch)
    pure member
  else if v.registry.recorded member = some (member.withPhase .left) ∧
      v.registry.pending = none then
    -- killed after the registry was written and before the run knew of it
    recordLeft v.registry member v.acls
  else do
    require (decide (v.registry.recorded member = some (member.withPhase .active)))
    let registry ← intendLeave v member
    recordLeaving v registry member
    let acls ← closeParents registry (member.withPhase .leaving) v.acls
    completeLeave registry (member.withPhase .leaving) acls

/-- `leave_oci_shared_traversal` -/
def leave (c : Call) (v : View) : Op SharedTraversalMembership := do
  let authority := v.registry.authority
  let member ← take v.saved
  require (member.binding = c.binding &&
    (member.phase = .active || member.phase = .leaving || member.phase = .left) &&
    c.access.binding = c.binding && c.access.phase = .revoked &&
    member.accessId = c.access.accessId &&
    member.authority.qemuUid = c.access.qemuUid && member.authority.qemuGid = c.access.qemuGid &&
    member.authority.qemuUid = authority.qemuUid && member.authority.qemuGid = authority.qemuGid)
  ask .authority
  require (decide (v.acls ∈ v.registry.allowed))
  ask (.verify v.registry v.saved v.acls)
  leaveAs v member

/-! ### The namespace and its runs -/

inductive Kind
  | join | leave
  deriving DecidableEq

/-- The phase in which an operation returns the membership. -/
def Kind.final : Kind → Phase
  | join => .active
  | leave => .left

/-- A call of one of the two operations. -/
structure Attempt where
  kind : Kind
  call : Call
  deriving DecidableEq

def Attempt.runId (a : Attempt) : Uuid := a.call.binding.runId

def Attempt.program (a : Attempt) : View → Op SharedTraversalMembership :=
  match a.kind with
  | .join => join a.call
  | .leave => leave a.call

/-- What is durable. The unfinished attempts are recorded for the statements only: no operation
reads them. -/
structure World where
  registry : Registry
  acls : PerRole ACLStructure
  saved : Uuid → Option SharedTraversalMembership
  unfinished : Uuid → Option Attempt

namespace World

variable (w : World)

/-- A namespace that was just enrolled. -/
def enrolled (authority : Authority) : World where
  registry := ⟨authority, 0, ∅, none⟩
  acls := authority.baseline
  saved := fun _ => none
  unfinished := fun _ => none

def view (runId : Uuid) : View := ⟨w.registry, w.saved runId, w.acls⟩

/-- The attempt wrote something and has not returned. -/
def begun (a : Attempt) : World :=
  { w with unfinished := Function.update w.unfinished a.runId (some a) }

/-- The attempt returns. -/
def finished (a : Attempt) : World :=
  { w with unfinished := Function.update w.unfinished a.runId none }

/-- What a call of an attempt writes. -/
def apply (a : Attempt) : Request → World
  | .authority | .verify .. => w
  | .writeRegistry registry => { w.begun a with registry := registry }
  | .writeAcl role acl => { w.begun a with acls := w.acls.set role acl }
  | .writeMember member =>
    { w.begun a with saved := Function.update w.saved a.runId (some member) }

/-- Whether a check of an attempt succeeds. -/
def isAsExpected (a : Attempt) : Request → Bool
  | .verify registry saved acls =>
    w.registry = registry && w.saved a.runId = saved && w.acls = acls
  | _ => true

/-- What surroundings do in which nothing fails. -/
def answer (a : Attempt) (q : Request) : Option Unit × World :=
  if w.isAsExpected a q then (some (), w.apply a q) else (none, w)

end World

structure State where
  world : World
  /-- The attempt that holds the lock, and the rest of it. -/
  running : Option (Attempt × Op SharedTraversalMembership)

inductive Event
  /-- An operation is called and gets the lock. -/
  | call (a : Attempt)
  /-- The operation goes on. -/
  | next
  /-- The next call of the operation raises, and a write is done or not. -/
  | fail (isDone : Bool)
  | kill

namespace State

def enrolled (authority : Authority) : State := ⟨.enrolled authority, none⟩

/-- The operation gives the lock back where it returns or raises. -/
def goOn (w : World) (a : Attempt) : Op SharedTraversalMembership → State
  | .done _ => ⟨w.finished a, none⟩
  | .raise => ⟨w, none⟩
  | p => ⟨w, some (a, p)⟩

def step (s : State) : Event → State
  | .call a =>
    match s.running with
    | none => goOn s.world a (a.program (s.world.view a.runId))
    | some _ => s
  | .next =>
    match s.running with
    | some (a, .call q next) =>
      let (o, w) := s.world.answer a q
      goOn w a (next o)
    | _ => s
  | .fail isDone =>
    match s.running with
    | some (a, .call q next) =>
      goOn (if isDone then s.world.apply a q else s.world) a (next none)
    | _ => s
  | .kill => ⟨s.world, none⟩

def run (s : State) (events : List Event) : State := events.foldl step s

end State

end Palimpsest.Access
