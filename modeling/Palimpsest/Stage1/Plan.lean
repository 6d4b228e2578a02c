import Palimpsest.Lib.JsonEq
import Palimpsest.Network.OciNetwork
import Palimpsest.Process.ProcessSpec

/-!
# The stage-1 plan

What the first process of the guest is told: which block devices to assemble into a root, and
which process to run on it. A plan is made of values that are checked one after the other
(`OCIStage1Plan.make`), and a plan that exists carries the proof that it has passed the checks
(`Fields.Accepted`). Of the keys of a dictionary nothing but their set is checked, so what is kept
of a dictionary are the values that are not fixed.

The ordinal of a layer is compared with `!=`, so it is kept as the value it is: `False` passes
for `0`.

A text that `uuid.UUID` refuses and one that is no canonical form are told apart in the source by
the text of the error only. Here they are not.
-/

namespace Palimpsest.Stage1

open Json
open Control (encodeUtf8 hexText isHex isUuid isDigest digestOf canonicalJsonBytes)
open Network (Mode OCINetworkConfig guestMacAddress)
open Process (OCIProcessSpec)

/-- What is raised. -/
inductive Raised
  /-- `StateError`, with its text. -/
  | state (message : String)
  /-- `ArtifactValidationError`, with its text. -/
  | artifactValidation (message : String)
  | typeError
  deriving DecidableEq

/-- A check that raises. -/
def require (ok : Bool) (e : Raised) : Except Raised Unit := if ok then .ok () else .error e

/-! ### Constants -/

def planSchema : String := "palimpsest.oci-stage1-plan.v16"
def protocol : String := "palimpsest.guest-stage1.v16"
def handoff : String := "first-party-pid1-supervisor.v9"
def devicePolicy : String := "virtio-serial-sysfs.v1"
def rootLayout : String := "overlay-upper-work.v1"
def processPolicy : String := "image-root-account-path-capabilityless-isolated-user-group.v3"
def workloadIsolation : String := "palimpsest.workload-lifecycle-authority-isolation.v3"
def phase : String := "stage1-contract"

/-- `MAX_OCI_ROOT_LAYER_DISKS`: the disk letters from `b` to `z`, without one. -/
def maxLayers : ℕ := 24

def maxProbes : ℕ := 8
def maxProbeBytes : ℕ := 64 * 1024
def maxGenerationDigits : ℕ := 4096

/-- `MAX_OCI_ROOT_VOLUME_GENERATION` -/
def maxGeneration : ℕ := 10 ^ maxGenerationDigits - 1

def minVolumeBytes : ℕ := 16 * 1024 ^ 2
def maxVolumeBytes : ℕ := 16 * 1024 ^ 4

/-- `SQUASHFS_BLOCK_DEVICE_ALIGNMENT` -/
def blockAlignment : ℕ := 512

/-- `MAX_OCI_STORE_IMAGE_BYTES` -/
def maxImageBytes : ℕ := 32 * 1024 ^ 3

/-- `MAX_STAGE1_FILESYSTEM_VERIFY_BYTES` -/
def maxVerifyBytes : ℕ := 32 * 1024 ^ 3

/-! ### Grammars -/

/-- `_RUN_NAME_RE`: `^[a-z0-9][a-z0-9-]{0,62}$`. -/
def isRunName (s : String) : Bool :=
  s.toList.length ≤ 63 &&
    match s.toList with
    | [] => false
    | c :: t => (c.isLower || c.isDigit) && t.all fun c => c.isLower || c.isDigit || c = '-'

/-- `_SERIAL_RE`: `^[0-9a-f]{20}$`. -/
def isSerial (s : String) : Bool := s.toList.length = 20 && s.toList.all isHex

/-- `[A-Za-z0-9._-]` -/
def isProbeChar (c : Char) : Bool := c.isUpper || c.isLower || c.isDigit || c ∈ ['.', '_', '-']

/-- `_PROBE_PATH_RE`: `^/[A-Za-z0-9._-]+$`, with the checks beside it. -/
def isProbePath (s : String) : Bool :=
  s.toList.length ≤ 255 && s ∉ ["/.", "/.."] &&
    match s.toList with
    | '/' :: t => t ≠ [] && t.all isProbeChar
    | _ => false

/-- `oci_stage1_device_serial`, of an identity that is not empty. -/
def deviceSerial (name identity : String) : String :=
  String.ofList ((hexText (Sha256.digest (encodeUtf8
    ("palimpsest-oci-root-".toList ++ name.toList ++ "-v1\x00".toList ++
      identity.toList)))).take 20)

/-! ### Values -/

/-- A list of strings. -/
def strings (l : List String) : Value := .list (l.map .str)

/-- The value of a key, where there is one. -/
def get (d : List (String × Value)) (k : String) : Value := (lookup k d).getD .null

/-- A string with this property. -/
def isStr (p : String → Bool) : Value → Bool
  | .str s => p s
  | _ => false

/-- A value whose type is `int`, with this property. -/
def isInt (p : ℤ → Bool) : Value → Bool
  | .int z => p z
  | _ => false

/-- The string that a value is. -/
def strOf : Value → String
  | .str s => s
  | _ => ""

/-- The number that a value is, when it is not negative. -/
def natOf : Value → ℕ
  | .int z => z.toNat
  | _ => 0

/-- `not value` -/
def isFalsy : Value → Bool
  | .null => true
  | .bool b => !b
  | .int z => z = 0
  | .float x => x.eqInt 0
  | .nonfinite => false
  | .str s => s = ""
  | .list l => l.isEmpty
  | .dict d => d.isEmpty

/-- The options every part of the root is mounted with. -/
def mountOptions (first : String) : Value := strings [first, "nodev", "nosuid"]

/-! ### The root -/

/-- What is kept of the contract of the root volume. -/
structure Root where
  filesystemUuid : String
  generation : ℕ
  serial : String
  sizeBytes : ℕ
  volumeId : String
  deriving DecidableEq

namespace Root

/-- What a root has to be. -/
def policyOk (r : Root) : Bool :=
  isUuid r.volumeId && isUuid r.filesystemUuid &&
    (1 ≤ r.generation && r.generation ≤ maxGeneration) &&
    (minVolumeBytes ≤ r.sizeBytes && r.sizeBytes ≤ maxVolumeBytes) &&
    r.sizeBytes % (1024 * 1024) = 0 && isSerial r.serial &&
      r.serial = deviceSerial "root" r.volumeId

/-- The contract. -/
def toDict (r : Root) : Value :=
  .dict [("filesystem", .str "ext4"), ("filesystem_uuid", .str r.filesystemUuid),
    ("generation", .int r.generation), ("mount_options", mountOptions "rw"),
    ("serial", .str r.serial), ("size_bytes", .int r.sizeBytes), ("volume_id", .str r.volumeId)]

def fieldNames : List String :=
  ["filesystem", "filesystem_uuid", "generation", "mount_options", "serial", "size_bytes",
    "volume_id"]

/-- The checks of the root. -/
def ofValue : Value → Except Raised Root
  | .dict d => do
    require (hasKeys d fieldNames) (.state "stage-1 root contract fields are invalid")
    require (isStr isUuid (get d "volume_id") && isStr isUuid (get d "filesystem_uuid"))
      (.state "stage-1 root identity is invalid")
    require (get d "filesystem" = .str "ext4" && get d "mount_options" = mountOptions "rw" &&
      isInt (1 ≤ ·) (get d "generation") && isInt (0 ≤ ·) (get d "size_bytes") &&
      isStr isSerial (get d "serial")) (.state "stage-1 root mount policy is invalid")
    let r : Root := ⟨strOf (get d "filesystem_uuid"), natOf (get d "generation"),
      strOf (get d "serial"), natOf (get d "size_bytes"), strOf (get d "volume_id")⟩
    require r.policyOk (.state "stage-1 root mount policy is invalid")
    return r
  | _ => .error (.state "stage-1 root contract fields are invalid")

end Root

/-! ### The layers -/

/-- What is kept of the contract of a layer. -/
structure Layer where
  imageDigest : String
  occurrenceDigest : String
  ordinal : Value
  serial : String
  sizeBytes : ℕ
  deriving DecidableEq

namespace Layer

/-- What the layer at this place has to be, after layers with these serials. -/
def policyOk (ordinal : ℕ) (serials : List String) (l : Layer) : Bool :=
  l.ordinal.pyEq (.int ordinal) && isSerial l.serial && l.serial ∉ serials &&
    isDigest l.imageDigest && isDigest l.occurrenceDigest &&
    (blockAlignment ≤ l.sizeBytes && l.sizeBytes ≤ maxImageBytes) &&
    l.sizeBytes % blockAlignment = 0 && l.serial = deviceSerial "lower" l.occurrenceDigest

/-- The contract. -/
def toDict (l : Layer) : Value :=
  .dict [("filesystem", .str "squashfs"), ("image_digest", .str l.imageDigest),
    ("mount_options", mountOptions "ro"), ("occurrence_digest", .str l.occurrenceDigest),
    ("ordinal", l.ordinal), ("serial", .str l.serial), ("size_bytes", .int l.sizeBytes)]

def fieldNames : List String :=
  ["filesystem", "image_digest", "mount_options", "occurrence_digest", "ordinal", "serial",
    "size_bytes"]

/-- The checks of the layer at this place, after layers with these serials. -/
def ofValue (ordinal : ℕ) (serials : List String) : Value → Except Raised Layer
  | .dict d => do
    require (hasKeys d fieldNames) (.state "stage-1 lower fields are invalid")
    require (get d "filesystem" = .str "squashfs" && get d "mount_options" = mountOptions "ro" &&
      isStr isSerial (get d "serial") && isStr isDigest (get d "image_digest") &&
      isStr isDigest (get d "occurrence_digest") && isInt (0 ≤ ·) (get d "size_bytes"))
      (.state "stage-1 lower mount policy is invalid")
    let l : Layer := ⟨strOf (get d "image_digest"), strOf (get d "occurrence_digest"),
      get d "ordinal", strOf (get d "serial"), natOf (get d "size_bytes")⟩
    require (l.policyOk ordinal serials) (.state "stage-1 lower mount policy is invalid")
    return l
  | _ => .error (.state "stage-1 lower fields are invalid")

end Layer

/-- The loop over the layers, from this place on, after layers with these serials and so many
bytes. -/
def layersOf (ordinal : ℕ) (serials : List String) (verificationBytes : ℕ) :
    List Value → Except Raised (List Layer)
  | [] => .ok []
  | value :: values => do
    let layer ← Layer.ofValue ordinal serials value
    require (verificationBytes + layer.sizeBytes ≤ maxVerifyBytes)
      (.state "stage-1 lower verification byte budget is exceeded")
    let layers ← layersOf (ordinal + 1) (layer.serial :: serials)
      (verificationBytes + layer.sizeBytes) values
    return layer :: layers

/-- What the loop over the layers lets through. -/
def layersOk (ordinal : ℕ) (serials : List String) (verificationBytes : ℕ) : List Layer → Bool
  | [] => true
  | layer :: layers =>
    layer.policyOk ordinal serials && verificationBytes + layer.sizeBytes ≤ maxVerifyBytes &&
      layersOk (ordinal + 1) (layer.serial :: serials) (verificationBytes + layer.sizeBytes) layers

/-! ### The assembly probes -/

/-- What is kept of an assembly probe. -/
structure Probe where
  digest : String
  path : String
  sizeBytes : ℕ
  topOrdinal : ℕ
  deriving DecidableEq

namespace Probe

/-- What a probe has to be, of a plan with so many layers, after probes at these paths. -/
def policyOk (layerCount : ℕ) (paths : List String) (p : Probe) : Bool :=
  isDigest p.digest && isProbePath p.path && p.path ∉ paths &&
    (1 ≤ p.sizeBytes && p.sizeBytes ≤ maxProbeBytes) && p.topOrdinal = layerCount - 1

/-- The probe. -/
def toDict (p : Probe) : Value :=
  .dict [("digest", .str p.digest), ("path", .str p.path), ("size_bytes", .int p.sizeBytes),
    ("top_ordinal", .int p.topOrdinal)]

def fieldNames : List String := ["digest", "path", "size_bytes", "top_ordinal"]

/-- The checks of a probe, of a plan with so many layers, after probes at these paths. -/
def ofValue (layerCount : ℕ) (paths : List String) : Value → Except Raised Probe
  | .dict d => do
    let refused : Raised := .state "stage-1 assembly probe policy is invalid"
    require (hasKeys d fieldNames && isStr isDigest (get d "digest") &&
      isStr isProbePath (get d "path") && isInt (1 ≤ ·) (get d "size_bytes") &&
      isInt (0 ≤ ·) (get d "top_ordinal")) refused
    let p : Probe := ⟨strOf (get d "digest"), strOf (get d "path"), natOf (get d "size_bytes"),
      natOf (get d "top_ordinal")⟩
    require (p.policyOk layerCount paths) refused
    return p
  | _ => .error (.state "stage-1 assembly probe policy is invalid")

end Probe

/-- The loop over the probes, after probes at these paths. -/
def probesOf (layerCount : ℕ) (paths : List String) : List Value → Except Raised (List Probe)
  | [] => .ok []
  | value :: values => do
    let probe ← Probe.ofValue layerCount paths value
    let probes ← probesOf layerCount (probe.path :: paths) values
    return probe :: probes

/-- What the loop over the probes lets through. -/
def probesOk (layerCount : ℕ) (paths : List String) : List Probe → Bool
  | [] => true
  | probe :: probes =>
    probe.policyOk layerCount paths && probesOk layerCount (probe.path :: paths) probes

/-! ### Plans -/

/-- The fields of a plan, but for the network. -/
structure Contents where
  runId : String
  runName : String
  bootPlanDigest : String
  domainCoreDigest : String
  root : Root
  layers : List Layer
  process : OCIProcessSpec
  assemblyProbes : List Probe

/-- The fields of a plan. -/
structure Fields extends Contents where
  network : OCINetworkConfig

/-- What the constructor has found out about the fields. -/
structure Contents.Accepted (f : Contents) : Prop where
  runId : isUuid f.runId = true
  runName : isRunName f.runName = true
  bootPlanDigest : isDigest f.bootPlanDigest = true
  domainCoreDigest : isDigest f.domainCoreDigest = true
  root : f.root.policyOk = true
  layerCount : 1 ≤ f.layers.length ∧ f.layers.length ≤ maxLayers
  layers : layersOk 0 [f.root.serial] 0 f.layers = true
  bootable : f.process.bootable = true
  probeCount : f.assemblyProbes.length ≤ maxProbes
  probes : probesOk f.layers.length [] f.assemblyProbes = true

/-- `OCIStage1Plan`: fields that the constructor accepts. -/
structure OCIStage1Plan extends Fields where
  accepted : toContents.Accepted

/-- The values a plan is made of. -/
structure RawPlan where
  runId : Value
  runName : Value
  bootPlanDigest : Value
  domainCoreDigest : Value
  root : Value
  layers : List Value
  process : OCIProcessSpec
  assemblyProbes : List Value
  network : OCINetworkConfig

/-- `OCIStage1Plan.__post_init__` -/
def postInit (p : RawPlan) : Except Raised Fields := do
  require (isStr (fun _ => true) p.runId) (.state "stage-1 run ID is invalid")
  require (isStr (fun _ => true) p.runName || isFalsy p.runName || !isStr isUuid p.runId) .typeError
  require (isStr isUuid p.runId && isStr isRunName p.runName)
    (.state "stage-1 run identity is invalid")
  require (isStr isDigest p.bootPlanDigest && isStr isDigest p.domainCoreDigest)
    (.state "stage-1 plan digest is invalid")
  let root ← Root.ofValue p.root
  require (1 ≤ p.layers.length && p.layers.length ≤ maxLayers)
    (.state "stage-1 lower contract is invalid")
  let layers ← layersOf 0 [root.serial] 0 p.layers
  require p.process.bootable (.state "stage-1 process is not bootable")
  require (p.assemblyProbes.length ≤ maxProbes) (.state "stage-1 assembly probes are invalid")
  let probes ← probesOf layers.length [] p.assemblyProbes
  return ⟨⟨strOf p.runId, strOf p.runName, strOf p.bootPlanDigest, strOf p.domainCoreDigest, root,
    layers, p.process, probes⟩, p.network⟩

/-! ### The dictionary of a plan -/

/-- `OCIProcessSpec.to_dict` -/
def processToDict (p : OCIProcessSpec) : Value :=
  .dict [("argv", strings (p.argv.map String.ofList)), ("cwd", .str (String.ofList p.cwd)),
    ("environment", .list (p.environment.map fun e =>
      .dict [("name", .str (String.ofList e.1)), ("value", .str (String.ofList e.2))])),
    ("stop_signal", .int p.stopSignal),
    ("user", .dict [("group", match p.user.group with
        | none => .null
        | some g => .str (String.ofList g)),
      ("user", .str (String.ofList p.user.user))])]

/-- What a guest is told of its network interface. -/
structure NetworkContract where
  address : String
  gateway : String
  interface : String
  mac : String
  mode : String
  nameservers : List String
  netmask : String
  deriving DecidableEq

/-- The contract. -/
def NetworkContract.toDict (n : NetworkContract) : Value :=
  .dict [("address", .str n.address), ("gateway", .str n.gateway), ("interface", .str n.interface),
    ("mac", .str n.mac), ("mode", .str n.mode), ("nameservers", strings n.nameservers),
    ("netmask", .str n.netmask)]

/-- The text of a mode. -/
def modeText : Mode → String
  | .none => "none"
  | .nat => "nat"
  | .hostOnly => "host-only"

/-- `guest_contract`, for a run ID from which a MAC address is derived. -/
def guestContract (c : OCINetworkConfig) (runId : String) : Except Network.Raised NetworkContract :=
  if c.enabled then do
    let mac ← guestMacAddress runId.toList
    return ⟨"10.0.2.15", "10.0.2.2", "eth0", String.ofList mac, modeText c.1.mode,
      if c.egress then ["10.0.2.3"] else [], "255.255.255.0"⟩
  else .ok ⟨"", "", "eth0", "", modeText c.1.mode, [], ""⟩

/-- `list(reversed(range(n)))` -/
def reversedRange (n : ℕ) : Value :=
  .list ((List.range n).reverse.map fun i : ℕ => .int (i : ℤ))

/-- `to_dict`, with this network contract. -/
def Contents.toDictWith (f : Contents) (network : NetworkContract) : Value :=
  .dict [
    ("assembly", .dict [
      ("device_policy", .str devicePolicy),
      ("layers", .list (f.layers.map Layer.toDict)),
      ("lowerdir_ordinals", reversedRange f.layers.length),
      ("overlay_mount_options", mountOptions "rw"),
      ("probes", .list (f.assemblyProbes.map Probe.toDict)),
      ("root", f.root.toDict),
      ("root_layout", .str rootLayout)]),
    ("boot_plan_digest", .str f.bootPlanDigest),
    ("domain_core_digest", .str f.domainCoreDigest),
    ("handoff", .str handoff),
    ("isolation", .str workloadIsolation),
    ("network", network.toDict),
    ("phase", .str phase),
    ("process", processToDict f.process),
    ("process_policy", .str processPolicy),
    ("protocol", .str protocol),
    ("run", .dict [("name", .str f.runName), ("run_id", .str f.runId)]),
    ("schema", .str planSchema)]

end Palimpsest.Stage1
