import Mathlib.Data.List.AList
import Mathlib.Data.List.MinMax
import Palimpsest.Lib.JsonWidth
import Palimpsest.Monitor.Preactivation

/-!
# The registry of shared traversal

All virtual machines of an owner go through the same three directories, and one registry says
which runs currently may. The directories, their access control lists and the account that the
lists grant the traversal to are fixed when the namespace is enrolled
(`Palimpsest.Access.Authority`); they are the same in every membership and in the registry, and
carry the facts that the constructors check.

A registry is stored as its canonical text, of a bounded length, and only if it is consistent
(`Palimpsest.Access.Registry.Storable`).
-/

namespace Palimpsest.Access

open Json Control Monitor

/-! ### Access control lists -/

structure ACLStructure where
  user : String
  namedUsers : List (ℕ × String)
  group : String
  mask : Option String
  other : String
  deriving DecidableEq

/-- `baseline_acl(directory=True)` -/
def baselineAcl : ACLStructure := ⟨"rwx", [], "---", none, "---"⟩

/-- `traversal_acl` -/
def traversalAcl (uid : ℕ) : ACLStructure := ⟨"rwx", [(uid, "--x")], "---", some "--x", "---"⟩

/-- `to_dict` -/
def ACLStructure.toValue (acl : ACLStructure) : Value :=
  .dict [("user", .str acl.user),
    ("named_users", .list (acl.namedUsers.map fun e => .list [.int e.1, .str e.2])),
    ("group", .str acl.group), ("mask", orNull .str acl.mask), ("other", .str acl.other)]

/-! ### The directories -/

inductive Role
  | state | runs | rootVolumes
  deriving DecidableEq

/-- A value for each of the three directories. -/
structure PerRole (α : Type) where
  state : α
  runs : α
  rootVolumes : α
  deriving DecidableEq

namespace PerRole

variable {α β : Type}

def get (p : PerRole α) : Role → α
  | .state => p.state
  | .runs => p.runs
  | .rootVolumes => p.rootVolumes

def set (p : PerRole α) (role : Role) (a : α) : PerRole α :=
  match role with
  | .state => { p with state := a }
  | .runs => { p with runs := a }
  | .rootVolumes => { p with rootVolumes := a }

def map (f : α → β) (p : PerRole α) : PerRole β := ⟨f p.state, f p.runs, f p.rootVolumes⟩

end PerRole

/-- A directory, with the lists it has without and with the grant. -/
structure RuntimeAccessTarget where
  device : ℕ
  inode : ℕ
  uid : ℕ
  gid : ℕ
  nlink : ℕ
  directory : Bool
  baseline : ACLStructure
  granted : ACLStructure
  deriving DecidableEq

namespace RuntimeAccessTarget

/-- `to_dict` -/
def toValue (t : RuntimeAccessTarget) : Value :=
  .dict [("device", .int t.device), ("inode", .int t.inode), ("uid", .int t.uid),
    ("gid", .int t.gid), ("nlink", .int t.nlink), ("directory", .bool t.directory),
    ("baseline", t.baseline.toValue), ("granted", t.granted.toValue)]

/-- What is checked of a shared directory: it is one, it is the owner's, and its lists are the
private one and the one that lets the account through. -/
structure IsShared (owner qemuUid : ℕ) (t : RuntimeAccessTarget) : Prop where
  inode : 0 < t.inode
  directory : t.directory
  nlink : 2 ≤ t.nlink
  uid : t.uid = owner
  baseline : t.baseline = baselineAcl
  granted : t.granted = traversalAcl qemuUid

end RuntimeAccessTarget

/-- What is the same in the registry and in every membership. -/
structure Authority where
  namespaceId : Uuid
  owner : UInt32
  targets : PerRole RuntimeAccessTarget
  qemuUid : ℕ
  qemuGid : ℕ
  uid_range : 0 < qemuUid ∧ qemuUid < 2 ^ 32 - 1
  gid_range : 0 < qemuGid ∧ qemuGid < 2 ^ 32 - 1
  uid_ne_owner : qemuUid ≠ owner.toNat
  shared : ∀ role, (targets.get role).IsShared owner.toNat qemuUid
  distinct : [(targets.state.device, targets.state.inode),
    (targets.runs.device, targets.runs.inode),
    (targets.rootVolumes.device, targets.rootVolumes.inode)].Nodup
  deriving DecidableEq

namespace Authority

variable (authority : Authority)

def baseline : PerRole ACLStructure := authority.targets.map (·.baseline)

def granted : PerRole ACLStructure := authority.targets.map (·.granted)

end Authority

/-! ### Memberships -/

inductive Phase
  | joining | active | leaving | left
  deriving DecidableEq

def Phase.text : Phase → String
  | joining => "joining"
  | active => "active"
  | leaving => "leaving"
  | left => "left"

/-- A run in the namespace. -/
@[ext]
structure SharedTraversalMembership where
  authority : Authority
  epoch : ℕ
  accessId : Uuid
  binding : MonitorPreActivationBinding
  phase : Phase
  epoch_pos : 1 ≤ epoch
  owner_eq : binding.ownerUid = authority.owner

instance : DecidableEq SharedTraversalMembership := fun _ _ =>
  decidable_of_iff' _ SharedTraversalMembership.ext_iff

namespace SharedTraversalMembership

variable (m : SharedTraversalMembership)

def runId : Uuid := m.binding.runId

/-- `replace(member, phase=…)` -/
def withPhase (phase : Phase) : SharedTraversalMembership := { m with phase := phase }

/-- `_key` -/
def key : String := m.runId.1 ++ ":" ++ m.accessId.1

/-- `to_dict` -/
def toValue : Value :=
  .dict [("schema", .str "palimpsest.oci-shared-traversal-member.v2"),
    ("namespace_id", .str m.authority.namespaceId.1), ("epoch", .int m.epoch),
    ("access_id", .str m.accessId.1), ("binding", m.binding.toValue),
    ("state", m.authority.targets.state.toValue), ("runs", m.authority.targets.runs.toValue),
    ("root_volumes", m.authority.targets.rootVolumes.toValue),
    ("qemu_uid", .int m.authority.qemuUid), ("qemu_gid", .int m.authority.qemuGid),
    ("phase", .str m.phase.text)]

@[simp]
theorem withPhase_phase (phase : Phase) : (m.withPhase phase).phase = phase := rfl

@[simp]
theorem withPhase_withPhase (phase phase' : Phase) :
    (m.withPhase phase).withPhase phase' = m.withPhase phase' := rfl

@[simp]
theorem withPhase_self : m.withPhase m.phase = m := rfl

@[simp]
theorem withPhase_inj {phase phase' : Phase} :
    m.withPhase phase = m.withPhase phase' ↔ phase = phase' :=
  ⟨congrArg SharedTraversalMembership.phase, congrArg m.withPhase⟩

@[simp]
theorem runId_withPhase (phase : Phase) : (m.withPhase phase).runId = m.runId := rfl

@[simp]
theorem key_withPhase (phase : Phase) : (m.withPhase phase).key = m.key := rfl

variable {m} {m' : SharedTraversalMembership}

theorem runId_eq_of_key_eq (h : m.key = m'.key) : m.runId = m'.runId := by
  have hlist := congrArg String.toList h
  simp only [key, String.toList_append, List.append_assoc] at hlist
  have hlength : m.runId.1.toList.length = m'.runId.1.toList.length :=
    (length_uuid _).trans (length_uuid _).symm
  exact Subtype.ext (String.toList_injective (List.append_inj_left hlist hlength))

end SharedTraversalMembership

/-! ### The registry -/

/-- The members, by their keys. -/
abbrev Members := AList fun _ : String => SharedTraversalMembership

instance : DecidableEq Members := fun l l' =>
  decidable_of_iff (l.entries = l'.entries) AList.ext_iff.symm

structure Registry where
  authority : Authority
  epoch : ℕ
  members : Members
  pending : Option SharedTraversalMembership
  deriving DecidableEq

namespace Registry

variable (r : Registry)

/-- All memberships that the registry lists. -/
def listed : List SharedTraversalMembership := r.members.entries.map (·.2)

/-- `_active` -/
def active : List SharedTraversalMembership := r.listed.filter (·.phase = .active)

/-- What the registry lists under the key of a membership. -/
def recorded (m : SharedTraversalMembership) : Option SharedTraversalMembership :=
  r.members.lookup m.key

/-- `_validate_registry` -/
structure Valid : Prop where
  keys : ∀ e ∈ r.members.entries, e.1 = e.2.key ∧ (e.2.phase = .active ∨ e.2.phase = .left)
  pending : ∀ p ∈ r.pending,
    p.phase = .joining ∧ r.recorded p = none ∨
      p.phase = .leaving ∧ r.recorded p = some (p.withPhase .active)
  authority : ∀ m ∈ r.listed ++ r.pending.toList, m.authority = r.authority ∧ m.epoch ≤ r.epoch
  runs : (r.active.map (·.runId)).Nodup

instance : Decidable r.Valid :=
  decidable_of_iff
    ((∀ e ∈ r.members.entries, e.1 = e.2.key ∧ (e.2.phase = .active ∨ e.2.phase = .left)) ∧
      (∀ p ∈ r.pending, p.phase = .joining ∧ r.recorded p = none ∨
        p.phase = .leaving ∧ r.recorded p = some (p.withPhase .active)) ∧
      (∀ m ∈ r.listed ++ r.pending.toList, m.authority = r.authority ∧ m.epoch ≤ r.epoch) ∧
      (r.active.map (·.runId)).Nodup)
    ⟨fun ⟨hkeys, hpending, hauthority, hruns⟩ => ⟨hkeys, hpending, hauthority, hruns⟩,
      fun h => ⟨h.keys, h.pending, h.authority, h.runs⟩⟩

def toValue : Value :=
  .dict [("schema", .str "palimpsest.oci-shared-traversal.v2"),
    ("namespace_id", .str r.authority.namespaceId.1), ("epoch", .int r.epoch),
    ("qemu_uid", .int r.authority.qemuUid), ("qemu_gid", .int r.authority.qemuGid),
    ("state", r.authority.targets.state.toValue), ("runs", r.authority.targets.runs.toValue),
    ("root_volumes", r.authority.targets.rootVolumes.toValue),
    ("members", .dict (r.members.entries.map fun e => (e.1, e.2.toValue))),
    ("pending", orNull SharedTraversalMembership.toValue r.pending)]

/-- `_MAX_REGISTRY_BYTES` -/
def maxRegistryBytes : ℕ := 1024 * 1024

/-- The registry is consistent, and its text is not too long. -/
def Storable : Prop := r.Valid ∧ (dumps r.toValue).any (byteLength · ≤ maxRegistryBytes)

instance : Decidable r.Storable := inferInstanceAs (Decidable (_ ∧ _))

/-- The registry with the membership listed and nothing pending. -/
def list (m : SharedTraversalMembership) : Registry :=
  { r with members := r.members.insert m.key m, pending := none }

/-- The registry without the membership. -/
def compact (m : SharedTraversalMembership) : Registry :=
  { r with members := r.members.erase m.key }

/-- An active member whose intent to leave takes the longest text. -/
def largest : Option SharedTraversalMembership :=
  r.active.argmax fun m => (dumps m.toValue).elim 0 byteLength

/-- `_allowed` -/
def allowed : List (PerRole ACLStructure) :=
  let baseline := r.authority.baseline
  let granted := r.authority.granted
  let isOpening := r.pending.any fun p =>
    p.phase = .joining && r.active.isEmpty || p.phase = .leaving && r.active.length = 1
  if isOpening then
    [baseline, baseline.set .rootVolumes granted.rootVolumes, granted.set .state baseline.state,
      granted]
  else [if r.active.isEmpty then baseline else granted]

end Registry

end Palimpsest.Access
