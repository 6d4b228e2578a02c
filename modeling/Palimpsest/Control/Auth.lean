import Palimpsest.Control.Message

/-!
# Authentication of messages

A message as a dictionary, the envelope it travels in, and the code that
authenticates it: a key of its own for every direction and carrier is derived from
the boot key, and authenticates the canonical text of the body. What a key signs, the
same key verifies (`Palimpsest.Control.verifyMessageAuthentication_of_signMessage`).
-/

namespace Palimpsest.Control

open Json

def ociControlProtocolV2 : Text := "palimpsest.oci-lifecycle-control.v2".toList

/-! ### Messages as dictionaries -/

/-- The payload of a message. -/
def Content.payload : Content → List (String × Value)
  | .hello _ | .keyAck .. => []
  | .bootstrap _ _ key => [("boot_key", .str key.1)]
  | .reconnect _ _ digest boundaryId =>
    [("boundary_ack_digest", .str digest.1), ("boundary_id", .str boundaryId.1)]
  | .boundaryAck _ _ b =>
    [("boundary_id", .str b.boundaryId.1),
      ("discarded_header_bytes", .int b.discardedHeaderBytes),
      ("discarded_payload_bytes", .int b.discardedPayloadBytes),
      ("discarded_payload_expected", .int b.discardedPayloadExpected),
      ("last_accepted_h2g_wire_sequence", .int b.lastAcceptedH2gWireSequence),
      ("last_attempted_g2h_wire_sequence", .int b.lastAttemptedG2hWireSequence),
      ("lifecycle_state", .dict (b.lifecycleState.fields TerminalResult.toValue)),
      ("previous_epoch", .int b.previousEpoch), ("state_digest", .str b.stateDigest.1)]
  | .ready _ _ none => []
  | .ready _ _ (some i) => [("root_identity", i.toValue)]
  | .snapshot _ _ s => s.fields Terminal.toValue
  | .stop _ _ signal => [("signal", signal.toValue)]
  | .exec _ _ argv timeout =>
    [("argv", .list (argv.1.map .str)), ("timeout_ms", .int timeout.1)]
  | .execOutput _ _ o =>
    [("stream", .str o.stream.text), ("offset", .int o.offset), ("data_hex", .str o.dataHex)]
  | .execExit _ _ x =>
    [("terminal", match x.terminal with
        | none => .null
        | some t => t.toValue),
      ("stdout_bytes", .int x.stdoutBytes), ("stderr_bytes", .int x.stderrBytes),
      ("reason", .str x.reason.text)]
  | .terminal _ _ t => [("terminal", t.toValue)]

/-- A string, or none. -/
def stringValue : Option String → Value
  | none => .null
  | some s => .str s

/-- `OCIControlV2Message.to_dict` -/
def OCIControlV2Message.toDict (m : OCIControlV2Message) : List (String × Value) :=
  [("boot_attempt_id", .str m.bootAttemptId.1),
    ("domain_core_digest", .str m.binding.domainCoreDigest.1), ("epoch", .int m.epoch.1),
    ("host_nonce", .str m.hostNonce.1), ("kind", .str m.content.kind.text),
    ("payload", .dict m.content.payload), ("run_id", .str m.binding.runId.1),
    ("schema", .str (String.ofList ociControlProtocolV2)),
    ("stage1_artifact_digest", .str m.binding.stage1ArtifactDigest.1),
    ("wire_sequence", .int m.wireSequence.1)] ++
  (if m.content.kind.hasRequest then [("request_id", counterValue m.content.requestId)] else []) ++
  (if m.content.kind = .hello then []
    else [("boot_generation", stringValue (m.content.bootGeneration.map Subtype.val)),
      ("reply_to", counterValue m.content.replyTo)])

/-! ### Envelopes -/

/-- The key identifier and the tag of a signed message. -/
structure Mac where
  keyId : Digest
  tag : Hex32
  deriving DecidableEq

/-- A message, signed unless it is a HELLO. -/
structure OCIControlV2Envelope where
  body : OCIControlV2Message
  mac : Option Mac
  mac_ok : mac = none ↔ body.content.kind = .hello
  deriving DecidableEq

theorem unsigned_ok {body : OCIControlV2Message} (h : body.content.kind = .hello) :
    (none : Option Mac) = none ↔ body.content.kind = .hello :=
  ⟨fun _ => h, fun _ => rfl⟩

/-- `OCIControlV2Envelope.to_dict` -/
def OCIControlV2Envelope.toDict (e : OCIControlV2Envelope) : List (String × Value) :=
  [("body", .dict e.body.toDict),
    ("mac", match e.mac with
      | none => .null
      | some mac => .dict [("key_id", .str mac.keyId.1), ("tag", .str mac.tag.1)])]

/-! ### Signing -/

/-- What carries a message. -/
inductive Carrier
  | channel | console
  deriving DecidableEq

def Carrier.text : Carrier → String
  | channel => "channel-frame"
  | console => "console-line"

/-- `struct.pack(">I", n)` -/
def packU32 (n : ℕ) : List UInt8 :=
  [UInt8.ofNat (n >>> 24), UInt8.ofNat (n >>> 16), UInt8.ofNat (n >>> 8), UInt8.ofNat n]

/-- `key_identifier` -/
def keyIdentifier (key : Key) : Digest :=
  digestOf (encodeUtf8 (ociControlProtocolV2 ++ "\x00key-id\x00".toList) ++ key.1)

/-- `_validate_carrier_kind` -/
def validateCarrierKind (m : OCIControlV2Message) : Carrier → Except Raised Unit
  | .console =>
    if m.content.kind = .boundaryAck then .ok ()
    else .error (.protocol "console carrier requires BOUNDARY_ACK")
  | .channel =>
    if m.content.kind = .boundaryAck then
      .error (.protocol "BOUNDARY_ACK requires console carrier")
    else .ok ()

/-- What a key is derived for. -/
def keyBinding (m : OCIControlV2Message) : Value :=
  .dict [("boot_attempt_id", .str m.bootAttemptId.1),
    ("boot_generation", stringValue (m.content.bootGeneration.map Subtype.val)),
    ("domain_core_digest", .str m.binding.domainCoreDigest.1),
    ("run_id", .str m.binding.runId.1),
    ("stage1_artifact_digest", .str m.binding.stage1ArtifactDigest.1)]

/-- `_hkdf_subkey` -/
def hkdfSubkey (key : Key) (m : OCIControlV2Message) (c : Carrier) :
    Except Raised (List UInt8) := do
  validateCarrierKind m c
  let salt := Sha256.digest (encodeUtf8 (ociControlProtocolV2 ++ "\x00hkdf-salt\x00".toList))
  let prk := Sha256.hmac salt key.1
  let binding ← canonicalJsonBytes (keyBinding m)
  let info := encodeUtf8 (ociControlProtocolV2 ++ "\x00subkey\x00".toList ++ m.direction.toList ++
    "\x00".toList ++ c.text.toList ++ "\x00".toList) ++ binding
  return Sha256.hmac prk (info ++ [1])

/-- `_mac_input` -/
def macInput (m : OCIControlV2Message) (c : Carrier) : Except Raised (List UInt8) := do
  let body ← canonicalJsonBytes (.dict m.toDict)
  return encodeUtf8 (ociControlProtocolV2 ++ "\x00frame\x00".toList ++ m.direction.toList ++
    "\x00".toList ++ c.text.toList ++ "\x00".toList) ++ packU32 body.length ++ body

/-- The tag of a message under a key. -/
def frameTag (m : OCIControlV2Message) (key : Key) (c : Carrier) : Except Raised Hex32 := do
  let subkey ← hkdfSubkey key m c
  let input ← macInput m c
  return hex32 (Sha256.hmac subkey input) (Sha256.length_hmac ..)

/-- `sign_message` -/
def signMessage (m : OCIControlV2Message) (key : Key) (c : Carrier) :
    Except Raised OCIControlV2Envelope :=
  if h : m.content.kind = .hello then .error (.protocol "initial HELLO cannot be signed")
  else do
    validateCarrierKind m c
    let tag ← frameTag m key c
    return ⟨m, some ⟨keyIdentifier key, tag⟩, by simpa using h⟩

/-- `verify_message_authentication` -/
def verifyMessageAuthentication (e : OCIControlV2Envelope) (key : Key) (c : Carrier) :
    Except Raised Unit :=
  match e.mac with
  | none => .error (.protocol "initial HELLO has no authentication tag")
  | some mac => do
    validateCarrierKind e.body c
    if mac.keyId ≠ keyIdentifier key then
      .error (.protocol "lifecycle key ID is invalid")
    let tag ← frameTag e.body key c
    if mac.tag ≠ tag then
      .error (.protocol "lifecycle authentication tag is invalid")

/-! ### The console line -/

def ociControlBoundaryPrefix : Text := "palimpsest guest stage1: lifecycle boundary ack ".toList

/-- `encode_boundary_line` -/
def encodeBoundaryLine (e : OCIControlV2Envelope) : Except Raised (List UInt8) := do
  validateCarrierKind e.body .console
  let payload ← canonicalJsonBytes (.dict e.toDict)
  return encodeUtf8 ociControlBoundaryPrefix ++ payload ++ encodeUtf8 ['\n']

/-! ### What is signed verifies -/

theorem signMessage_eq_ok {m : OCIControlV2Message} {key : Key} {c : Carrier}
    {e : OCIControlV2Envelope} (h : signMessage m key c = .ok e) :
    validateCarrierKind m c = .ok () ∧ ∃ tag, frameTag m key c = .ok tag ∧
      e.body = m ∧ e.mac = some ⟨keyIdentifier key, tag⟩ := by
  unfold signMessage at h
  split at h
  · cases h
  · cases hc : validateCarrierKind m c with
    | error r => rw [hc] at h; cases h
    | ok u =>
      rw [hc] at h
      cases ht : frameTag m key c with
      | error r => rw [ht] at h; cases h
      | ok tag =>
        rw [ht] at h
        obtain rfl := Except.ok.inj h
        exact ⟨rfl, tag, rfl, rfl, rfl⟩

/-- **What a key signs, it verifies**, on the same carrier. -/
theorem verifyMessageAuthentication_of_signMessage {m : OCIControlV2Message} {key : Key}
    {c : Carrier} {e : OCIControlV2Envelope} (h : signMessage m key c = .ok e) :
    verifyMessageAuthentication e key c = .ok () := by
  obtain ⟨hc, tag, ht, rfl, hmac⟩ := signMessage_eq_ok h
  simp [verifyMessageAuthentication, hmac, hc, ht, bind, Except.bind, pure, Except.pure]

end Palimpsest.Control
