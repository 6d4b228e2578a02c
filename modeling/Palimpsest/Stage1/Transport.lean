import Palimpsest.Lib.JsonHook
import Palimpsest.Lib.LittleEndian
import Palimpsest.Network.QemuArguments
import Palimpsest.Stage1.Plan

/-!
# The transport of the stage-1 plan

A plan travels to the guest on a block device of its own: a header of sixty-four bytes, the
canonical JSON of the plan, and zeros up to the next block (`buildArtifactBytes`). The host checks
what it is about to attach against a receipt and the plan it expects (`verifyStage1Transport`).
-/

namespace Palimpsest.Stage1

open Json LittleEndian
open Control (encodeUtf8 decodeUtf8 isUuid isDigest digestOf)
open Process (OCIProcessSpec)

/-! ### The dictionary and the bytes of a plan -/

theorem exists_guestContract (c : Network.OCINetworkConfig) {runId : String}
    (h : isUuid runId = true) : ∃ n, guestContract c runId = .ok n := by
  rw [guestContract]
  split
  · have hrun : isUuid (String.ofList runId.toList) = true := by rwa [String.ofList_toList]
    obtain ⟨mac, hmac⟩ := Network.exists_guestMacAddress hrun
    exact ⟨_, by rw [hmac]; rfl⟩
  · exact ⟨_, rfl⟩

namespace OCIStage1Plan

/-- The network contract of a plan. Its run ID is one from which an address is derived. -/
def networkContract (p : OCIStage1Plan) : NetworkContract :=
  match h : guestContract p.network p.runId with
  | .ok n => n
  | .error _ => absurd (h ▸ exists_guestContract p.network p.accepted.runId) (by rintro ⟨_, ⟨⟩⟩)

theorem guestContract_eq (p : OCIStage1Plan) :
    guestContract p.network p.runId = .ok p.networkContract := by
  unfold networkContract
  split
  · assumption
  · next h => exact absurd (h ▸ exists_guestContract p.network p.accepted.runId) (by rintro ⟨_, ⟨⟩⟩)

/-- `to_dict` -/
def toDict (p : OCIStage1Plan) : Value := p.toContents.toDictWith p.networkContract

end OCIStage1Plan

/-- `canonical_json_bytes` -/
def canonicalJsonBytes (value : Value) : Except Raised (List UInt8) :=
  match dumps value with
  | some t => .ok (encodeUtf8 t)
  | none => .error (.artifactValidation "value is not canonical JSON data")

/-! ### The envelope -/

def maxPayloadBytes : ℕ := 2 * 1024 * 1024
def maxTransportBytes : ℕ := maxPayloadBytes + 4096
def version : ℕ := 1
def alignment : ℕ := 4096

/-- `_MAGIC`: `PALIMPSEST-S1` and three zeros. -/
def magic : List UInt8 := [80, 65, 76, 73, 77, 80, 83, 69, 83, 84, 45, 83, 49, 0, 0, 0]

/-- `_HEADER.size` -/
def headerSize : ℕ := 64

/-- `_aligned` -/
def aligned (size : ℕ) : ℕ := (size + alignment - 1) / alignment * alignment

/-- The fields of a header. -/
structure Header where
  magic : List UInt8
  version : ℕ
  headerSize : ℕ
  payloadSize : ℕ
  payloadHash : List UInt8

namespace Header

/-- `_HEADER.pack`, in the format `<16sIIQ32s`. -/
def pack (h : Header) : List UInt8 :=
  h.magic ++ bytes 4 h.version ++ bytes 4 h.headerSize ++ bytes 8 h.payloadSize ++ h.payloadHash

/-- `_HEADER.unpack_from`, of sixty-four bytes or more. -/
def unpackFrom (artifact : List UInt8) : Header where
  magic := artifact.take 16
  version := value ((artifact.drop 16).take 4)
  headerSize := value ((artifact.drop 20).take 4)
  payloadSize := value ((artifact.drop 24).take 8)
  payloadHash := (artifact.drop 32).take 32

end Header

/-- The header in front of a payload. -/
def headerOf (payload : List UInt8) : Header :=
  ⟨magic, version, headerSize, payload.length, Sha256.digest payload⟩

/-- The header, the payload and the padding. -/
def envelope (payload : List UInt8) : List UInt8 :=
  let header := (headerOf payload).pack
  let size := aligned (header.length + payload.length)
  header ++ payload ++ List.replicate (size - header.length - payload.length) 0

/-- `_build_artifact_bytes` -/
def buildArtifactBytes (payload : List UInt8) : Except Raised (List UInt8) := do
  require (1 ≤ payload.length && payload.length ≤ maxPayloadBytes)
    (.artifactValidation "stage-1 transport payload bytes are invalid")
  let artifact := envelope payload
  require (artifact.length ≤ maxTransportBytes)
    (.artifactValidation "stage-1 transport artifact is too large")
  return artifact

/-! ### Receipts -/

/-- The fields of a receipt. -/
structure Receipt where
  artifactDigest : String
  artifactSizeBytes : ℕ
  payloadDigest : String
  payloadSizeBytes : ℕ
  deriving DecidableEq

/-- `OCIStage1TransportReceipt.__post_init__` -/
def Receipt.postInit (r : Receipt) : Except Raised Unit := do
  require (isDigest r.artifactDigest)
    (.artifactValidation "stage-1 transport artifact digest is invalid")
  require (isDigest r.payloadDigest)
    (.artifactValidation "stage-1 transport payload digest is invalid")
  require ((1 ≤ r.payloadSizeBytes && r.payloadSizeBytes ≤ maxPayloadBytes) &&
    r.artifactSizeBytes = aligned (headerSize + r.payloadSizeBytes) &&
    r.artifactSizeBytes ≤ maxTransportBytes)
    (.artifactValidation "stage-1 transport size is invalid")

/-- `OCIStage1TransportReceipt`: a receipt that passed its checks. -/
abbrev OCIStage1TransportReceipt := {r : Receipt // r.postInit = .ok ()}

/-- The constructor. -/
def OCIStage1TransportReceipt.make (r : Receipt) : Except Raised OCIStage1TransportReceipt :=
  match h : r.postInit with
  | .ok () => .ok ⟨r, h⟩
  | .error e => .error e

/-- `_receipt` -/
def receiptOf (artifact : List UInt8) (plan : OCIStage1Plan) :
    Except Raised OCIStage1TransportReceipt := do
  let payload ← canonicalJsonBytes plan.toDict
  OCIStage1TransportReceipt.make
    ⟨digestOf artifact, artifact.length, digestOf payload, payload.length⟩

/-- `BuiltOCIStage1Transport` -/
structure BuiltOCIStage1Transport where
  artifact : List UInt8
  receipt : OCIStage1TransportReceipt
  stage1Plan : OCIStage1Plan

/-- `BuiltOCIStage1Transport.__post_init__` -/
def BuiltOCIStage1Transport.postInit (b : BuiltOCIStage1Transport) : Except Raised Unit := do
  let payload ← canonicalJsonBytes b.stage1Plan.toDict
  let expected ← buildArtifactBytes payload
  let receipt ← receiptOf b.artifact b.stage1Plan
  require (b.artifact = expected && b.receipt = receipt)
    (.artifactValidation "built stage-1 transport binding is invalid")

/-- `build_stage1_transport` -/
def buildStage1Transport (plan : OCIStage1Plan) : Except Raised BuiltOCIStage1Transport := do
  let payload ← canonicalJsonBytes plan.toDict
  let artifact ← buildArtifactBytes payload
  let receipt ← receiptOf artifact plan
  let built : BuiltOCIStage1Transport := ⟨artifact, receipt, plan⟩
  built.postInit
  return built

/-! ### The verifier of the host -/

/-- The checks of the fields of a header, in front of so many bytes in all. -/
def headerPolicyOk (h : Header) (length : ℕ) : Bool :=
  h.magic = magic && h.version = version && h.headerSize = headerSize &&
    (1 ≤ h.payloadSize && h.payloadSize ≤ maxPayloadBytes) &&
    aligned (h.headerSize + h.payloadSize) = length

/-- The payload behind a header. -/
def payloadBehind (h : Header) (artifact : List UInt8) : List UInt8 :=
  (artifact.drop h.headerSize).take h.payloadSize

/-- The bytes behind the payload. -/
def paddingBehind (h : Header) (artifact : List UInt8) : List UInt8 :=
  artifact.drop (h.headerSize + h.payloadSize)

/-- `payload.decode("utf-8")` and `json.loads`, where none of them raises. -/
def loadPayload (payload : List UInt8) : Except Raised Value :=
  match decodeUtf8 payload with
  | none => .error (.artifactValidation "stage-1 transport payload JSON is invalid")
  | some decoded =>
    match loadsLast decoded with
    | .error _ => .error (.artifactValidation "stage-1 transport payload JSON is invalid")
    | .ok value => .ok value

/-- `canonical_json_bytes`, with the text of the error raised in its place. -/
def canonicalPayload (value : Value) : Except Raised (List UInt8) :=
  match canonicalJsonBytes value with
  | .ok canonical => .ok canonical
  | .error _ => .error (.artifactValidation "stage-1 transport payload JSON is invalid")

/-- `verify_stage1_transport` -/
def verifyStage1Transport (artifact : List UInt8) (receipt : OCIStage1TransportReceipt)
    (expected : OCIStage1Plan) : Except Raised OCIStage1Plan := do
  require ((headerSize < artifact.length && artifact.length ≤ maxTransportBytes) &&
    artifact.length % alignment = 0)
    (.artifactValidation "stage-1 transport artifact bytes are invalid")
  require (digestOf artifact = receipt.1.artifactDigest &&
    artifact.length = receipt.1.artifactSizeBytes)
    (.artifactValidation "stage-1 transport artifact does not match its receipt")
  let header := Header.unpackFrom artifact
  require (headerPolicyOk header artifact.length)
    (.artifactValidation "stage-1 transport header policy is invalid")
  let payload := payloadBehind header artifact
  let padding := paddingBehind header artifact
  require (Sha256.digest payload = header.payloadHash &&
    digestOf payload = receipt.1.payloadDigest && payload.length = receipt.1.payloadSizeBytes &&
    padding = List.replicate padding.length 0)
    (.artifactValidation "stage-1 transport payload binding is invalid")
  let value ← loadPayload payload
  let canonical ← canonicalPayload value
  require (canonical = payload)
    (.artifactValidation "stage-1 transport payload JSON is not canonical")
  require (value.pyEq expected.toDict)
    (.artifactValidation "stage-1 transport plan binding is invalid")
  let expectedPayload ← canonicalJsonBytes expected.toDict
  require (digestOf expectedPayload = receipt.1.payloadDigest)
    (.artifactValidation "stage-1 transport plan digest is invalid")
  return expected

end Palimpsest.Stage1
