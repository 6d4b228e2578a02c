import Mathlib.Data.Prod.Lex
import Palimpsest.Lib.Canonical
import Palimpsest.Policy.PolicyJson

/-!
# Sandbox policies

A request says what a run is to be allowed (`SandboxPolicyRequest`), capabilities say what can be
enforced (`SandboxPolicyCapabilities`), and a result says what of a request cannot be
(`PolicyPreflightResult`).

Five parts of a policy have a mode (`Part`, `Mode`), and three of them list items, which are pairs
of identifiers (`Listing`, `Item`). What the constructors check and put in order is part of the
types: a value that does not pass the checks cannot be written down.
-/

namespace Palimpsest.Policy

open Json Canonical Results

/-! ### Modes -/

/-- The parts of a policy that have a mode. -/
inductive Part
  | egress | secretDelivery | deviceAccess | audit | binaryPolicy
  deriving DecidableEq

/-- The two modes of a part: the closed one grants nothing that is not granted anyway. -/
inductive Mode
  | closed | opened
  deriving DecidableEq

namespace Part

/-- The text of a mode. -/
def text : Part → Mode → String
  | egress, .closed => "deny"
  | egress, .opened => "allow_all"
  | secretDelivery, .closed => "none"
  | secretDelivery, .opened => "references"
  | deviceAccess, .closed => "deny"
  | deviceAccess, .opened => "allowlist"
  | audit, .closed => "required"
  | audit, .opened => "disabled"
  | binaryPolicy, .closed => "no_hooks"
  | binaryPolicy, .opened => "evaluate"

/-- The field of a part. -/
def name : Part → String
  | egress => "egress"
  | secretDelivery => "secret_delivery"
  | deviceAccess => "device_access"
  | audit => "audit"
  | binaryPolicy => "binary_policy"

/-- The modes as the message about a wrong mode lists them. -/
def modeMessage : Part → String
  | egress => "egress.mode must be 'deny' or 'allow_all'"
  | secretDelivery => "secret_delivery.mode must be 'none' or 'references'"
  | deviceAccess => "device_access.mode must be 'deny' or 'allowlist'"
  | audit => "audit.mode must be 'required' or 'disabled'"
  | binaryPolicy => "binary_policy.mode must be 'no_hooks' or 'evaluate'"

/-- The mode a value stands for. -/
def mode? (p : Part) (v : Value) : Option Mode :=
  [Mode.closed, .opened].find? fun m => v = .str (p.text m)

/-- The check of a `mode`. -/
def mode (p : Part) (v : Value) : Except ValidationError Mode :=
  match p.mode? v with
  | some m => .ok m
  | none => .error ⟨p.modeMessage⟩

end Part

/-- `EgressPolicy.to_dict` and `AuditPolicy.to_dict`. -/
def modeDict (p : Part) (m : Mode) : Value := .dict [("mode", .str (p.text m))]

/-- `EgressPolicy.from_dict` and `AuditPolicy.from_dict`. -/
def modeOfDict (p : Part) (v : Value) : Except ValidationError Mode := do
  let value ← exactFields v ["mode"] p.name
  p.mode (field value "mode")

/-- The modes that are offered for a part. -/
structure ModeSet (p : Part) where
  modes : List Mode
  nonempty : modes ≠ []
  canonical : IsCanonical p.text modes

theorem Part.text_injective (p : Part) : Function.Injective p.text := by
  intro m m' h
  revert h
  cases p <;> cases m <;> cases m' <;> decide

/-- The check of a field of modes. -/
def ModeSet.make (p : Part) (raw : List Value) : Except ValidationError (ModeSet p) :=
  match raw.mapM p.mode? with
  | some modes =>
    if h : modes = [] then .error ⟨p.name ++ "_modes contains unsupported capability modes"⟩
    else .ok ⟨Canonical.canonical p.text modes, fun hnil => h (canonical_eq_nil.mp hnil),
      isCanonical_canonical p.text_injective modes⟩
  | none => .error ⟨p.name ++ "_modes contains unsupported capability modes"⟩

/-! ### Items -/

/-- The items that a policy lists. -/
inductive Listing
  | secretReference | deviceRequest | binaryPolicyHook
  deriving DecidableEq

namespace Listing

/-- The part that lists the items. -/
def part : Listing → Part
  | secretReference => .secretDelivery
  | deviceRequest => .deviceAccess
  | binaryPolicyHook => .binaryPolicy

/-- The field of a part with its items. -/
def itemsName : Listing → String
  | secretReference => "references"
  | deviceRequest => "devices"
  | binaryPolicyHook => "hooks"

/-- The first field of an item. -/
def firstName : Listing → String
  | secretReference => "provider"
  | deviceRequest => "device_class"
  | binaryPolicyHook => "policy_id"

/-- The second field of an item. -/
def secondName : Listing → String
  | secretReference => "reference_id"
  | deviceRequest => "allocation_id"
  | binaryPolicyHook => "policy_digest"

/-- `__post_init__`, of the fields of an item. -/
def check : Listing → Value → Value → Except ValidationError (String × String)
  | secretReference, first, second => do
    let provider ← safeId first "secret reference provider"
    let referenceId ← safeId second "secret reference id"
    return (provider, referenceId)
  | deviceRequest, first, second => do
    let deviceClass ← safeId first "device class"
    let allocationId ← safeId second "device allocation id"
    return (deviceClass, allocationId)
  | binaryPolicyHook, first, second => do
    let policyId ← safeId first "binary policy id"
    let policyDigest ← sha256 second "binary policy digest"
    return (policyId, policyDigest)

end Listing

/-- `SecretReference`, `DeviceRequest` and `BinaryPolicyHook`. -/
structure Item (k : Listing) where
  first : String
  second : String
  valid : k.check (.str first) (.str second) = .ok (first, second)
  deriving DecidableEq

abbrev SecretReference := Item .secretReference
abbrev DeviceRequest := Item .deviceRequest
abbrev BinaryPolicyHook := Item .binaryPolicyHook

namespace Item

variable {k : Listing}

/-- Items are compared by their fields in order. -/
def key (i : Item k) : String ×ₗ String := toLex (i.first, i.second)

theorem key_injective : Function.Injective (key (k := k)) := by
  intro i j h
  obtain ⟨hfirst, hsecond⟩ := Prod.mk.inj (toLex.injective h)
  cases i
  cases j
  simp_all

/-- `to_dict`. -/
def toDict (i : Item k) : Value :=
  match k with
  | .secretReference => .dict [("provider", .str i.first), ("reference_id", .str i.second)]
  | .deviceRequest => .dict [("allocation_id", .str i.second), ("device_class", .str i.first)]
  | .binaryPolicyHook => .dict [("policy_digest", .str i.second), ("policy_id", .str i.first)]

/-- What identifies an item, if something less than both of its fields does. -/
def identity (i : Item k) : Option String :=
  match k with
  | .secretReference => none
  | .deviceRequest => some i.second
  | .binaryPolicyHook => some i.first

end Item

theorem Listing.check_eq_ok {k : Listing} {v w : Value} {s t : String}
    (h : k.check v w = .ok (s, t)) : v = .str s ∧ w = .str t := by
  cases k
  all_goals
    obtain ⟨x, hx, h⟩ := bind_eq_ok.mp h
    obtain ⟨y, hy, h⟩ := bind_eq_ok.mp h
    obtain ⟨rfl, rfl⟩ := Prod.mk.inj (Except.ok.inj h)
  · exact ⟨(safeId_eq_ok.mp hx).1, (safeId_eq_ok.mp hy).1⟩
  · exact ⟨(safeId_eq_ok.mp hx).1, (safeId_eq_ok.mp hy).1⟩
  · exact ⟨(safeId_eq_ok.mp hx).1, (sha256_eq_ok.mp hy).1⟩

/-- The constructor of an item. -/
def Item.make (k : Listing) (first second : Value) : Except ValidationError (Item k) :=
  match h : k.check first second with
  | .ok (s, t) => .ok ⟨s, t, by
      obtain ⟨rfl, rfl⟩ := Listing.check_eq_ok h
      exact h⟩
  | .error e => .error e

/-- `from_dict`, of an item of a list that is called so. -/
def Item.fromDict (k : Listing) (name : String) (v : Value) (index : ℕ) :
    Except ValidationError (Item k) := do
  let value ← exactFields v [k.firstName, k.secondName]
    (name ++ "[" ++ String.ofList (natText index) ++ "]")
  Item.make k (field value k.firstName) (field value k.secondName)

/-- The items of a list, from this index on. -/
def itemsFrom {α : Type} (read : Value → ℕ → Except ValidationError α) :
    List Value → ℕ → Except ValidationError (List α)
  | [], _ => .ok []
  | v :: raw, index => do
    let item ← read v index
    let items ← itemsFrom read raw (index + 1)
    return item :: items

/-! ### Lists of items -/

/-- No two items have the same identity. -/
def Unambiguous {k : Listing} (items : List (Item k)) : Prop :=
  ∀ i ∈ items, ∀ j ∈ items, i.identity ≠ none → i.identity = j.identity → i = j

/-- The field that identifies an item. -/
def Listing.identityName : Listing → String
  | .secretReference => ""
  | .deviceRequest => "allocation_id"
  | .binaryPolicyHook => "policy_id"

/-- The loop of `_reject_ambiguous_identity`, after these items. -/
def rejectAmbiguousIdentity {k : Listing} (name : String) :
    List (Item k) → List (Item k) → Except ValidationError Unit
  | _, [] => .ok ()
  | seen, item :: items => do
    let previous := seen.find? fun other => other.identity = item.identity
    require (item.identity = none || previous.all (· = item))
      (name ++ " has an ambiguous " ++ k.identityName)
    rejectAmbiguousIdentity name (item :: seen) items

/-- The items of a policy or of capabilities, in order. -/
structure ItemSet (k : Listing) where
  items : List (Item k)
  canonical : IsCanonical Item.key items
  unambiguous : Unambiguous items

theorem unambiguous_nil {k : Listing} : Unambiguous ([] : List (Item k)) :=
  fun _ hi => absurd hi List.not_mem_nil

theorem Unambiguous.subset {k : Listing} {items items' : List (Item k)} (h : Unambiguous items')
    (hsub : ∀ i ∈ items, i ∈ items') : Unambiguous items :=
  fun i hi j hj => h i (hsub i hi) j (hsub j hj)

/-- One more item is the one that was seen with its identity before. -/
theorem Unambiguous.cons_iff {k : Listing} {seen : List (Item k)} {item : Item k}
    (hseen : Unambiguous seen) : Unambiguous (item :: seen) ↔
      (item.identity = none || (seen.find? fun other =>
        other.identity = item.identity).all (· = item)) = true := by
  rw [Bool.or_eq_true, decide_eq_true_eq, Option.all_eq_true]
  constructor
  · intro h
    by_cases hnone : item.identity = none
    · exact .inl hnone
    · refine .inr fun previous hprevious => decide_eq_true ?_
      have hmem := List.mem_of_find?_eq_some hprevious
      have hidentity : previous.identity = item.identity :=
        of_decide_eq_true (List.find?_some hprevious :)
      exact h previous (List.mem_cons_of_mem item hmem) item List.mem_cons_self
        (hidentity ▸ hnone) hidentity
  · intro h
    -- All that were seen with this identity are the first that was found.
    have hnew : ∀ j ∈ seen, item.identity ≠ none → j.identity = item.identity → j = item := by
      intro j hj hnone hidentity
      have hsome :
          (seen.find? fun other => decide (other.identity = item.identity)).isSome = true :=
        List.find?_isSome.mpr ⟨j, hj, decide_eq_true hidentity⟩
      obtain ⟨previous, hprevious⟩ := Option.isSome_iff_exists.mp hsome
      have hsame : previous.identity = item.identity :=
        of_decide_eq_true (List.find?_some hprevious :)
      have hitem : previous = item :=
        of_decide_eq_true ((h.resolve_left hnone) previous hprevious)
      rw [← hitem]
      exact hseen j hj previous (List.mem_of_find?_eq_some hprevious)
        (by rwa [hidentity]) (hidentity.trans hsame.symm)
    intro i hi j hj hnone hidentity
    rcases List.mem_cons.mp hi with hi | hi <;> rcases List.mem_cons.mp hj with hj | hj
    · rw [hi, hj]
    · rw [hi] at hnone hidentity ⊢
      exact (hnew j hj hnone hidentity.symm).symm
    · rw [hj] at hidentity ⊢
      exact hnew i hi (hidentity ▸ hnone) hidentity
    · exact hseen i hi j hj hnone hidentity

theorem rejectAmbiguousIdentity_eq_ok {k : Listing} {name : String} {seen items : List (Item k)}
    (hseen : Unambiguous seen) :
    rejectAmbiguousIdentity name seen items = .ok () ↔ Unambiguous (seen ++ items) := by
  induction items generalizing seen with
  | nil =>
    rw [List.append_nil]
    exact iff_of_true rfl hseen
  | cons item items ih =>
    have hmem : ∀ i, i ∈ seen ++ item :: items ↔ i ∈ item :: seen ++ items := by
      intro i
      simp only [List.mem_append, List.mem_cons, or_assoc, or_left_comm]
    rw [rejectAmbiguousIdentity, require_bind_eq_ok, ← hseen.cons_iff]
    constructor
    · rintro ⟨hitem, hrest⟩
      exact ((ih hitem).mp hrest).subset fun i hi => (hmem i).mp hi
    · intro hall
      have hall' : Unambiguous (item :: seen ++ items) := hall.subset fun i hi => (hmem i).mpr hi
      have hitem : Unambiguous (item :: seen) :=
        hall'.subset fun i hi => List.mem_append_left items hi
      exact ⟨hitem, (ih hitem).mpr hall'⟩

/-- `_reject_ambiguous_identity`, and the items in order. -/
def ItemSet.make {k : Listing} (name : String) (items : List (Item k)) :
    Except ValidationError (ItemSet k) :=
  match h : rejectAmbiguousIdentity name [] items with
  | .ok () => .ok ⟨Canonical.canonical Item.key items,
      isCanonical_canonical Item.key_injective items,
      ((rejectAmbiguousIdentity_eq_ok unambiguous_nil).mp h).subset fun _ hi => mem_canonical.mp hi⟩
  | .error e => .error e

/-! ### Policies -/

/-- `SecretDeliveryPolicy`, `DeviceAccessPolicy` and `BinaryPolicy`. -/
structure ListingPolicy (k : Listing) where
  mode : Mode
  listed : ItemSet k
  agree : mode = .closed ↔ listed.items = []

namespace ListingPolicy

variable {k : Listing}

/-- What is said of a mode that does not go with the items. -/
def contradictMessage (k : Listing) : String :=
  k.part.name ++ " mode and " ++ k.itemsName ++ " contradict"

/-- `__post_init__`. -/
def make (k : Listing) (mode : Value) (items : List (Item k)) :
    Except ValidationError (ListingPolicy k) := do
  let mode ← k.part.mode mode
  let listed ← ItemSet.make (k.part.name ++ "." ++ k.itemsName) items
  if h : mode = .closed ↔ listed.items = [] then return ⟨mode, listed, h⟩
  else .error ⟨contradictMessage k⟩

/-- `to_dict`. -/
def toDict (p : ListingPolicy k) : Value :=
  let mode : String × Value := ("mode", .str (k.part.text p.mode))
  let items : String × Value := (k.itemsName, .list (p.listed.items.map Item.toDict))
  match k with
  | .secretReference => .dict [mode, items]
  | .deviceRequest | .binaryPolicyHook => .dict [items, mode]

/-- `from_dict`. -/
def fromDict (k : Listing) (v : Value) : Except ValidationError (ListingPolicy k) := do
  let name := k.part.name ++ "." ++ k.itemsName
  let value ← exactFields v ["mode", k.itemsName] k.part.name
  let raw ← array (field value k.itemsName) name
  make k (field value "mode") (← itemsFrom (Item.fromDict k name) raw 0)

end ListingPolicy

abbrev SecretDeliveryPolicy := ListingPolicy .secretReference
abbrev DeviceAccessPolicy := ListingPolicy .deviceRequest
abbrev BinaryPolicy := ListingPolicy .binaryPolicyHook

structure SnapshotScrubPolicy where
  enabled : Bool
  scrubRequired : Bool
  scrubbed : enabled = true → scrubRequired = true

namespace SnapshotScrubPolicy

/-- `__post_init__`. -/
def make (enabled scrubRequired : Value) : Except ValidationError SnapshotScrubPolicy :=
  match enabled, scrubRequired with
  | .bool enabled, .bool scrubRequired =>
    if h : enabled = true → scrubRequired = true then .ok ⟨enabled, scrubRequired, h⟩
    else .error ⟨"enabled snapshots require scrubbing"⟩
  | _, _ => .error ⟨"snapshot_scrub fields must be exact booleans"⟩

/-- `to_dict`. -/
def toDict (p : SnapshotScrubPolicy) : Value :=
  .dict [("enabled", .bool p.enabled), ("scrub_required", .bool p.scrubRequired)]

/-- `from_dict`. -/
def fromDict (v : Value) : Except ValidationError SnapshotScrubPolicy := do
  let value ← exactFields v ["enabled", "scrub_required"] "snapshot_scrub"
  make (field value "enabled") (field value "scrub_required")

end SnapshotScrubPolicy

/-! ### Requests -/

/-- The check of a `schema_version`, which is 1 for every document. -/
def schemaVersion (v : Value) (message : String) : Except ValidationError Unit :=
  require (v = .int 1) message

structure SandboxPolicyRequest where
  egress : Mode
  secretDelivery : SecretDeliveryPolicy
  deviceAccess : DeviceAccessPolicy
  audit : Mode
  snapshotScrub : SnapshotScrubPolicy
  binaryPolicy : BinaryPolicy

namespace SandboxPolicyRequest

/-- `to_dict`. -/
def toDict (r : SandboxPolicyRequest) : Value :=
  .dict [("audit", modeDict .audit r.audit), ("binary_policy", r.binaryPolicy.toDict),
    ("device_access", r.deviceAccess.toDict), ("egress", modeDict .egress r.egress),
    ("schema_version", .int 1), ("secret_delivery", r.secretDelivery.toDict),
    ("snapshot_scrub", r.snapshotScrub.toDict)]

/-- `from_dict`. -/
def fromDict (v : Value) : Except ValidationError SandboxPolicyRequest := do
  rejectSensitiveMaterial v
  let value ← exactFields v ["audit", "binary_policy", "device_access", "egress", "schema_version",
    "secret_delivery", "snapshot_scrub"] "sandbox policy"
  let egress ← modeOfDict .egress (field value "egress")
  let secretDelivery ← ListingPolicy.fromDict .secretReference (field value "secret_delivery")
  let deviceAccess ← ListingPolicy.fromDict .deviceRequest (field value "device_access")
  let audit ← modeOfDict .audit (field value "audit")
  let snapshotScrub ← SnapshotScrubPolicy.fromDict (field value "snapshot_scrub")
  let binaryPolicy ← ListingPolicy.fromDict .binaryPolicyHook (field value "binary_policy")
  schemaVersion (field value "schema_version") "unsupported sandbox policy schema_version"
  return ⟨egress, secretDelivery, deviceAccess, audit, snapshotScrub, binaryPolicy⟩

end SandboxPolicyRequest

/-! ### Capabilities -/

structure SandboxPolicyCapabilities where
  egressModes : ModeSet .egress
  secretDeliveryModes : ModeSet .secretDelivery
  secretReferences : ItemSet .secretReference
  deviceAccessModes : ModeSet .deviceAccess
  deviceRequests : ItemSet .deviceRequest
  auditModes : ModeSet .audit
  snapshotsEnabled : Bool
  snapshotScrubRequired : Bool
  binaryPolicyModes : ModeSet .binaryPolicy
  binaryPolicyHooks : ItemSet .binaryPolicyHook
  secretsAgree : .opened ∈ secretDeliveryModes.modes ↔ secretReferences.items ≠ []
  devicesAgree : .opened ∈ deviceAccessModes.modes ↔ deviceRequests.items ≠ []
  hooksAgree : .opened ∈ binaryPolicyModes.modes ↔ binaryPolicyHooks.items ≠ []
  scrubRequired : snapshotScrubRequired = true

/-- The list of some modes. -/
def ModeSet.toValue {p : Part} (s : ModeSet p) : Value :=
  .list (s.modes.map fun m => .str (p.text m))

/-- The list of some items. -/
def ItemSet.toValue {k : Listing} (s : ItemSet k) : Value := .list (s.items.map Item.toDict)

namespace SandboxPolicyCapabilities

/-- `__post_init__`. -/
def make (version : Value) (egressModes secretDeliveryModes : List Value)
    (secretReferences : List SecretReference) (deviceAccessModes : List Value)
    (deviceRequests : List DeviceRequest) (auditModes : List Value)
    (snapshotsEnabled snapshotScrubRequired : Value) (binaryPolicyModes : List Value)
    (binaryPolicyHooks : List BinaryPolicyHook) :
    Except ValidationError SandboxPolicyCapabilities := do
  schemaVersion version "capability schema_version is unsupported"
  let egress ← ModeSet.make .egress egressModes
  let secretDelivery ← ModeSet.make .secretDelivery secretDeliveryModes
  let deviceAccess ← ModeSet.make .deviceAccess deviceAccessModes
  let audit ← ModeSet.make .audit auditModes
  let binaryPolicy ← ModeSet.make .binaryPolicy binaryPolicyModes
  let secrets ← ItemSet.make "secret_references" secretReferences
  let devices ← ItemSet.make "device_requests" deviceRequests
  let hooks ← ItemSet.make "binary_policy_hooks" binaryPolicyHooks
  if hsecrets : .opened ∈ secretDelivery.modes ↔ secrets.items ≠ [] then
    if hdevices : .opened ∈ deviceAccess.modes ↔ devices.items ≠ [] then
      if hhooks : .opened ∈ binaryPolicy.modes ↔ hooks.items ≠ [] then
        match snapshotsEnabled, snapshotScrubRequired with
        | .bool enabled, .bool scrubRequired =>
          if hscrub : scrubRequired = true then
            return ⟨egress, secretDelivery, secrets, deviceAccess, devices, audit, enabled,
              scrubRequired, binaryPolicy, hooks, hsecrets, hdevices, hhooks, hscrub⟩
          else .error ⟨"snapshot capabilities must require scrubbing"⟩
        | _, _ => .error ⟨"snapshot capabilities must be exact booleans"⟩
      else .error ⟨"binary capability mode and hooks contradict"⟩
    else .error ⟨"device capability mode and requests contradict"⟩
  else .error ⟨"secret capability mode and references contradict"⟩

/-- `to_dict`. -/
def toDict (c : SandboxPolicyCapabilities) : Value :=
  .dict [("audit_modes", c.auditModes.toValue),
    ("binary_policy_hooks", c.binaryPolicyHooks.toValue),
    ("binary_policy_modes", c.binaryPolicyModes.toValue),
    ("device_access_modes", c.deviceAccessModes.toValue),
    ("device_requests", c.deviceRequests.toValue), ("egress_modes", c.egressModes.toValue),
    ("schema_version", .int 1), ("secret_delivery_modes", c.secretDeliveryModes.toValue),
    ("secret_references", c.secretReferences.toValue),
    ("snapshot_scrub_required", .bool c.snapshotScrubRequired),
    ("snapshots_enabled", .bool c.snapshotsEnabled)]

/-- `from_dict`. -/
def fromDict (v : Value) : Except ValidationError SandboxPolicyCapabilities := do
  rejectSensitiveMaterial v
  let value ← exactFields v ["audit_modes", "binary_policy_hooks", "binary_policy_modes",
    "device_access_modes", "device_requests", "egress_modes", "schema_version",
    "secret_delivery_modes", "secret_references", "snapshot_scrub_required", "snapshots_enabled"]
    "sandbox policy capabilities"
  let items (name : String) := array (field value name) ("capabilities." ++ name)
  let rawSecrets ← items "secret_references"
  let rawDevices ← items "device_requests"
  let rawHooks ← items "binary_policy_hooks"
  let egressModes ← items "egress_modes"
  let secretDeliveryModes ← items "secret_delivery_modes"
  let secrets ← itemsFrom (Item.fromDict .secretReference "secret_delivery.references") rawSecrets 0
  let deviceAccessModes ← items "device_access_modes"
  let devices ← itemsFrom (Item.fromDict .deviceRequest "device_access.devices") rawDevices 0
  let auditModes ← items "audit_modes"
  let binaryPolicyModes ← items "binary_policy_modes"
  let hooks ← itemsFrom (Item.fromDict .binaryPolicyHook "binary_policy.hooks") rawHooks 0
  make (field value "schema_version") egressModes secretDeliveryModes secrets deviceAccessModes
    devices auditModes (field value "snapshots_enabled") (field value "snapshot_scrub_required")
    binaryPolicyModes hooks

end SandboxPolicyCapabilities

/-! ### Results -/

/-- `PolicyPreflightCode`. -/
inductive PolicyPreflightCode
  | unsupportedEgress | unsupportedSecretDelivery | unsupportedDeviceAccess | unsupportedAudit
  | unsupportedSnapshot | unsafeSnapshotScrub | unsupportedBinaryPolicy
  deriving DecidableEq

namespace PolicyPreflightCode

/-- The codes in the order of the source. -/
def all : List PolicyPreflightCode :=
  [unsupportedEgress, unsupportedSecretDelivery, unsupportedDeviceAccess, unsupportedAudit,
    unsupportedSnapshot, unsafeSnapshotScrub, unsupportedBinaryPolicy]

def text : PolicyPreflightCode → String
  | unsupportedEgress => "unsupported_egress"
  | unsupportedSecretDelivery => "unsupported_secret_delivery"
  | unsupportedDeviceAccess => "unsupported_device_access"
  | unsupportedAudit => "unsupported_audit"
  | unsupportedSnapshot => "unsupported_snapshot"
  | unsafeSnapshotScrub => "unsafe_snapshot_scrub"
  | unsupportedBinaryPolicy => "unsupported_binary_policy"

/-- `_PREFLIGHT_CODE_FIELDS`. -/
def field : PolicyPreflightCode → String
  | unsupportedEgress => "egress"
  | unsupportedSecretDelivery => "secret_delivery"
  | unsupportedDeviceAccess => "device_access"
  | unsupportedAudit => "audit"
  | unsupportedSnapshot => "snapshot_scrub"
  | unsafeSnapshotScrub => "snapshot_scrub"
  | unsupportedBinaryPolicy => "binary_policy"

end PolicyPreflightCode

structure PolicyPreflightIssue where
  code : PolicyPreflightCode
  field : String
  agree : field = code.field
  deriving DecidableEq

namespace PolicyPreflightIssue

/-- `__post_init__`. -/
def make (code : PolicyPreflightCode) (name : Value) :
    Except ValidationError PolicyPreflightIssue := do
  let name ← safeId name "preflight issue field"
  if h : name = code.field then return ⟨code, name, h⟩
  else .error ⟨"preflight issue code and field contradict"⟩

/-- `to_dict`. -/
def toDict (i : PolicyPreflightIssue) : Value :=
  .dict [("code", .str i.code.text), ("field", .str i.field)]

/-- `from_dict`. -/
def fromDict (v : Value) (index : ℕ) : Except ValidationError PolicyPreflightIssue := do
  let value ← exactFields v ["code", "field"]
    ("preflight issues[" ++ String.ofList (natText index) ++ "]")
  match Policy.field value "code" with
  | .str s =>
    match PolicyPreflightCode.all.find? fun code => code.text = s with
    | some code => make code (Policy.field value "field")
    | none => .error ⟨"preflight issue code is unsupported"⟩
  | _ => .error ⟨"preflight issue code must be an exact string"⟩

/-- Issues are put in the order of their codes. -/
def key (i : PolicyPreflightIssue) : ℕ ×ₗ String :=
  toLex (PolicyPreflightCode.all.idxOf i.code, i.field)

theorem key_injective : Function.Injective key := by
  intro i j h
  obtain ⟨hcode, hfield⟩ := Prod.mk.inj (toLex.injective h)
  have hall : ∀ code : PolicyPreflightCode, code ∈ PolicyPreflightCode.all := by
    intro code
    cases code <;> decide
  have hcodes : i.code = j.code := (List.idxOf_inj (hall i.code)).mp hcode
  cases i
  cases j
  simp_all

end PolicyPreflightIssue

structure PolicyPreflightResult where
  supported : Bool
  issues : List PolicyPreflightIssue
  canonical : IsCanonical PolicyPreflightIssue.key issues
  agree : supported = true ↔ issues = []

namespace PolicyPreflightResult

/-- `__post_init__`. -/
def make (version supported : Value) (issues : List PolicyPreflightIssue) :
    Except ValidationError PolicyPreflightResult := do
  schemaVersion version "preflight result schema_version is unsupported"
  match supported with
  | .bool supported =>
    let issues' := Canonical.canonical PolicyPreflightIssue.key issues
    if h : supported = true ↔ issues' = [] then
      return ⟨supported, issues', isCanonical_canonical PolicyPreflightIssue.key_injective issues,
        h⟩
    else .error ⟨"preflight result supported flag contradicts issues"⟩
  | _ => .error ⟨"preflight result supported must be an exact boolean"⟩

/-- `to_dict`. -/
def toDict (r : PolicyPreflightResult) : Value :=
  .dict [("issues", .list (r.issues.map PolicyPreflightIssue.toDict)), ("schema_version", .int 1),
    ("supported", .bool r.supported)]

/-- `from_dict`. -/
def fromDict (v : Value) : Except ValidationError PolicyPreflightResult := do
  rejectSensitiveMaterial v
  let value ← exactFields v ["issues", "schema_version", "supported"] "preflight result"
  let raw ← array (field value "issues") "preflight result issues"
  let issues ← itemsFrom PolicyPreflightIssue.fromDict raw 0
  make (field value "schema_version") (field value "supported") issues

end PolicyPreflightResult

/-! ### Documents -/

/-- A kind of documents. -/
class Document (α : Type) where
  toDict : α → Value
  fromDict : Value → Except ValidationError α
  /-- What is said of bytes that are not canonical. -/
  canonicalMessage : String

instance : Document SandboxPolicyRequest where
  toDict := SandboxPolicyRequest.toDict
  fromDict := SandboxPolicyRequest.fromDict
  canonicalMessage := "policy JSON must use canonical UTF-8 encoding"

instance : Document SandboxPolicyCapabilities where
  toDict := SandboxPolicyCapabilities.toDict
  fromDict := SandboxPolicyCapabilities.fromDict
  canonicalMessage := "capability JSON must use canonical UTF-8 encoding"

instance : Document PolicyPreflightResult where
  toDict := PolicyPreflightResult.toDict
  fromDict := PolicyPreflightResult.fromDict
  canonicalMessage := "preflight result JSON must use canonical UTF-8 encoding"

/-- `to_json_bytes`. -/
def toJsonBytes {α : Type} [Document α] (x : α) : Except ValidationError (List UInt8) :=
  canonicalPolicyJsonBytes (Document.toDict x)

/-- `from_json_bytes`. -/
def fromJsonBytes (α : Type) [Document α] (payload : List UInt8) : Except ValidationError α := do
  let x : α ← Document.fromDict (← loadJson payload)
  let bytes ← toJsonBytes x
  require (payload = bytes) (Document.canonicalMessage α)
  return x

/-! ### Preflight -/

/-- What is wrong with a request, in the order in which it is looked at. -/
def preflightIssues (r : SandboxPolicyRequest) (c : SandboxPolicyCapabilities) :
    List (Bool × PolicyPreflightCode × String) :=
  let listed {k : Listing} (p : ListingPolicy k) (modes : List Mode) (items : List (Item k)) :
      Bool :=
    p.mode ∉ modes || !p.listed.items.all (· ∈ items)
  [(r.egress ∉ c.egressModes.modes, .unsupportedEgress, "egress"),
    (listed r.secretDelivery c.secretDeliveryModes.modes c.secretReferences.items,
      .unsupportedSecretDelivery, "secret_delivery"),
    (listed r.deviceAccess c.deviceAccessModes.modes c.deviceRequests.items,
      .unsupportedDeviceAccess, "device_access"),
    (r.audit ∉ c.auditModes.modes, .unsupportedAudit, "audit"),
    (r.snapshotScrub.enabled && !c.snapshotsEnabled, .unsupportedSnapshot, "snapshot_scrub"),
    (c.snapshotScrubRequired && !r.snapshotScrub.scrubRequired, .unsafeSnapshotScrub,
      "snapshot_scrub"),
    (listed r.binaryPolicy c.binaryPolicyModes.modes c.binaryPolicyHooks.items,
      .unsupportedBinaryPolicy, "binary_policy")]

/-- `preflight_sandbox_policy`. -/
def preflightSandboxPolicy (r : SandboxPolicyRequest) (c : SandboxPolicyCapabilities) :
    Except ValidationError PolicyPreflightResult := do
  let issues ← ((preflightIssues r c).filter (·.1)).mapM fun issue =>
    PolicyPreflightIssue.make issue.2.1 (.str issue.2.2)
  PolicyPreflightResult.make (.int 1) (.bool issues.isEmpty) issues

end Palimpsest.Policy
