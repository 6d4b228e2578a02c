import Palimpsest.Control.HostSession
import Palimpsest.Lib.JsonEq

/-!
# Decoding of messages

How a payload of bytes becomes an envelope: JSON without a key twice, an object of exactly
`body` and `mac`, a body whose fields are those of its kind, and in the end the demand that
the payload is the canonical text of what was read (`Palimpsest.Control.decodePayload`).

The checks stand in the order of `OCIControlV2Message.__post_init__`, and each returns its
value in the type that carries what was checked. A body is read back from its canonical text
when its content is (`Palimpsest.Control.fromDict_toDict`), and so is an unsigned HELLO as a
whole (`Palimpsest.Control.decodePayload_hello`).
-/

namespace Palimpsest.Control

open Json

/-! ### Single fields -/

namespace Field

/-- `text.replace(word, "")`, with the number of characters still to skip. -/
def erase (word : Text) : ℕ → Text → Text
  | _, [] => []
  | skip + 1, _ :: t => erase word skip t
  | 0, c :: t => if word <+: c :: t then erase word (word.length - 1) t else c :: erase word 0 t

def isSpace (c : Char) : Bool :=
  c = ' ' || ('\t' ≤ c && c ≤ '\r') || ('\x1c' ≤ c && c ≤ '\x1f')

/-- `text.strip(characters)` -/
def strip (p : Char → Bool) (t : Text) : Text :=
  ((t.dropWhile p).reverse.dropWhile p).reverse

/-- `int(text, 16)` reads the text: a sign, `0x`, and digits of either case with single
underscores between them. -/
def isHexInt (t : Text) : Bool :=
  let t := strip isSpace t
  let t := match t with
    | '+' :: t => t
    | t => t
  let t := match t with
    | '0' :: 'x' :: '_' :: t | '0' :: 'X' :: '_' :: t | '0' :: 'x' :: t | '0' :: 'X' :: t => t
    | t => t
  (t.splitOn '_').all fun group => group ≠ [] && group.all fun c => (hexDigitValue c).isSome

/-- `uuid.UUID(text)` reads the text: hexadecimal digits, once a URN prefix, braces and
hyphens are taken off. -/
def isUuidText (t : Text) : Bool :=
  let hex := erase "uuid:".toList 0 (erase "urn:".toList 0 t)
  let hex := (strip (fun c => c = '{' || c = '}') hex).filter (· ≠ '-')
  hex.length = 32 && isHexInt hex

/-- `_uuid` -/
def uuid (v : Value) (label : String) : Except Raised Uuid :=
  match v with
  | .str s =>
    if h : isUuid s then .ok ⟨s, h⟩
    else if isUuidText s.toList then .error (.protocol (label ++ " is not canonical"))
    else .error (.protocol (label ++ " is invalid"))
  | _ => .error (.protocol (label ++ " is invalid"))

/-- `_counter` -/
def counter (v : Value) (label : String) : Except Raised Counter :=
  match v with
  | .int z => Control.counter z.toNat label
  | _ => .error (.protocol (label ++ " is invalid"))

/-- `_hex32` -/
def hex32 (v : Value) (label : String) : Except Raised Hex32 :=
  match v with
  | .str s => if h : isHex32 s then .ok ⟨s, h⟩ else .error (.protocol (label ++ " is invalid"))
  | _ => .error (.protocol (label ++ " is invalid"))

/-- `_digest` -/
def digest (v : Value) (label : String) : Except Raised Digest :=
  match v with
  | .str s => if h : isDigest s then .ok ⟨s, h⟩ else .error (.protocol (label ++ " is invalid"))
  | _ => .error (.protocol (label ++ " is invalid"))

/-- An integer from `low` to `high`. -/
def int (v : Value) (low high : ℕ) (message : String) :
    Except Raised {n : ℕ // low ≤ n ∧ n ≤ high} :=
  match v with
  | .int z =>
    if h : (low : ℤ) ≤ z ∧ z ≤ high then .ok ⟨z.toNat, by omega⟩ else .error (.protocol message)
  | _ => .error (.protocol message)

/-- A counter that may be missing. -/
def optional (v : Value) (label : String) : Except Raised (Option Counter) :=
  if v = .null then .ok none else some <$> counter v label

end Field

/-! ### Payloads -/

/-- `validate_root_identity` -/
def validateRootIdentity (v : Value) : Except Raised RootIdentity := do
  let d ← exact v ["schema", "pid", "filesystem", "device", "inode"] "root identity"
  require (field d "schema" = .str "palimpsest.oci-root-identity.v1")
    "root identity schema is invalid"
  require (field d "pid" = .int 1) "root identity PID is invalid"
  require (field d "filesystem" = .str "overlayfs") "root identity filesystem is invalid"
  let device ← Field.int (field d "device") 0 maxU64 "root identity device is invalid"
  let inode ← Field.int (field d "inode") 1 maxU64 "root identity inode is invalid"
  return ⟨device.1, inode.1, device.2.2, inode.2.1, inode.2.2⟩

/-- `_terminal(dict(terminal))` -/
def terminalOfDict (v : Value) : Except Raised TerminalResult :=
  match v with
  | .dict d => TerminalResult.mapping <$> Control.terminal (.dict d)
  | .list items =>
    match h : terminalOfItems items with
    | .ok t => .ok (.pairs items t h)
    | .error e => .error e
  -- the characters of a string are no pairs, and an empty string has none
  | .str s =>
    if s = "" then .error (.protocol "terminal fields are invalid") else .error .valueError
  | _ => .error .typeError

/-- The state that `lifecycle_state_digest` accepts. -/
def lifecycleState (v : List (String × Value)) : Except Raised (LifecycleState TerminalResult) := do
  let stopRequestId := field v "stop_request_id"
  let terminal := field v "terminal"
  if field v "state" = .str "ready" ∧ stopRequestId = .null ∧ terminal = .null then
    return .ready
  else if field v "state" = .str "stopping" ∧ terminal = .null then
    return .stopping (← Field.counter stopRequestId "state STOP request ID")
  else if field v "state" = .str "terminal" then do
    let stopRequestId ← Field.optional stopRequestId "state STOP request ID"
    require (terminal ≠ .null) "terminal lifecycle state is invalid"
    return .terminal stopRequestId (← terminalOfDict terminal)
  else .error (.protocol "lifecycle state is invalid")

/-- The payload of a BOUNDARY_ACK. -/
def boundaryAck (payload : List (String × Value)) : Except Raised BoundaryAck := do
  let b ← exact (.dict payload)
    ["boundary_id", "discarded_header_bytes", "discarded_payload_bytes",
      "discarded_payload_expected", "last_accepted_h2g_wire_sequence",
      "last_attempted_g2h_wire_sequence", "lifecycle_state", "previous_epoch", "state_digest"]
    "BOUNDARY_ACK payload"
  let count (name : String) :=
    Field.int (field b name) 0 maxCounter "BOUNDARY_ACK counter is invalid"
  let size (name : String) :=
    Field.int (field b name) 0 maxPayloadBytes "BOUNDARY_ACK parser state is invalid"
  let header ← count "discarded_header_bytes"
  let accepted ← count "last_accepted_h2g_wire_sequence"
  let attempted ← count "last_attempted_g2h_wire_sequence"
  let previous ← count "previous_epoch"
  let payloadBytes ← size "discarded_payload_bytes"
  let expected ← size "discarded_payload_expected"
  require (header.1 ≤ 3) "BOUNDARY_ACK header state is invalid"
  if hparser : ParserState header.1 payloadBytes.1 expected.1 then do
    let boundaryId ← Field.uuid (field b "boundary_id") "boundary ID"
    let state ← exact (field b "lifecycle_state") ["state", "stop_request_id", "terminal"]
      "BOUNDARY_ACK lifecycle state"
    let state ← lifecycleState state
    let ack : BoundaryAck := ⟨boundaryId, header.1, payloadBytes.1, expected.1, accepted.1,
      attempted.1, state, previous.1, hparser, accepted.2.2, attempted.2.2, previous.2.2⟩
    let stateDigest ← Field.digest (field b "state_digest") "lifecycle state digest"
    require (stateDigest = ack.stateDigest) "BOUNDARY_ACK lifecycle state digest is invalid"
    return ack
  else .error (.protocol "BOUNDARY_ACK payload state is invalid")

/-- The payload of a SNAPSHOT. -/
def snapshot (payload : List (String × Value)) : Except Raised (LifecycleState Terminal) := do
  let d ← exact (.dict payload) ["state", "stop_request_id", "terminal"] "SNAPSHOT payload"
  let stopId := field d "stop_request_id"
  if field d "state" = .str "ready" ∧ stopId = .null ∧ field d "terminal" = .null then
    return .ready
  else if field d "state" = .str "stopping" ∧ field d "terminal" = .null then
    return .stopping (← Field.counter stopId "snapshot STOP request ID")
  else if field d "state" = .str "terminal" then do
    let result ← Control.terminal (field d "terminal")
    return .terminal (← Field.optional stopId "snapshot STOP request ID") result
  else .error (.protocol "SNAPSHOT state is invalid")

/-- `validate_exec_argv`, for a value. -/
def execArgv (v : Value) : Except Raised {l : List String // ExecArgv l} :=
  match v with
  | .list items =>
    match items.mapM fun item => match item with
      | .str s => some s
      | _ => none with
    | some argv => validateExecArgv argv
    | none => .error (.protocol "exec argv is invalid")
  | _ => .error (.protocol "exec argv is invalid")

/-- `validate_exec_timeout`, for a value. -/
def execTimeout (v : Value) : Except Raised {n : ℕ // 1 ≤ n ∧ n ≤ maxOCIExecTimeoutMs} :=
  match v with
  | .int z => validateExecTimeout z
  | _ => .error (.protocol "exec timeout is invalid")

def Stream.ofValue (v : Value) : Except Raised Stream :=
  if v = .str "stdout" then .ok .stdout
  else if v = .str "stderr" then .ok .stderr
  else .error (.protocol "exec output stream is invalid")

/-- The payload of an EXEC_OUTPUT. -/
def execOutput (payload : List (String × Value)) : Except Raised ExecOutput := do
  let d ← exact (.dict payload) ["stream", "offset", "data_hex"] "EXEC_OUTPUT payload"
  let stream ← Stream.ofValue (field d "stream")
  let offset ← Field.int (field d "offset") 0 (maxOCIExecOutputBytes - 1)
    "exec output offset is invalid"
  match field d "data_hex" with
  | .str data =>
    if hdata : isDataHex data then
      if hend : offset.1 + data.toList.length / 2 ≤ maxOCIExecOutputBytes then
        return ⟨stream, offset.1, data, by
          have hoffset := offset.2.2
          simp only [maxOCIExecOutputBytes] at hoffset ⊢
          omega, hdata, hend⟩
      else .error (.protocol "exec output exceeds its byte limit")
    else .error (.protocol "exec output encoding is invalid")
  | _ => .error (.protocol "exec output encoding is invalid")

def ExecReason.ofValue (v : Value) : Except Raised ExecReason :=
  match [ExecReason.completed, .timeout, .outputLimit, .cancelled].find? (v = .str ·.text) with
  | some reason => .ok reason
  | none => .error (.protocol "exec completion reason is invalid")

/-- The payload of an EXEC_EXIT. -/
def execExit (payload : List (String × Value)) : Except Raised ExecExit := do
  let d ← exact (.dict payload) ["terminal", "stdout_bytes", "stderr_bytes", "reason"]
    "EXEC_EXIT payload"
  let terminal ← if field d "terminal" = .null then pure none
    else some <$> Control.terminal (field d "terminal")
  let reason ← ExecReason.ofValue (field d "reason")
  let count (name : String) :=
    Field.int (field d name) 0 maxOCIExecOutputBytes "exec output count is invalid"
  let stdout ← count "stdout_bytes"
  let stderr ← count "stderr_bytes"
  if htotal : stdout.1 + stderr.1 ≤ maxOCIExecOutputBytes then
    if hnone : terminal = none → reason = .cancelled ∧ stdout.1 = 0 ∧ stderr.1 = 0 then
      return ⟨terminal, stdout.1, stderr.1, reason, htotal, hnone⟩
    else .error (.protocol "unstarted exec cancellation must have no output or invented exit")
  else .error (.protocol "exec combined output exceeds its byte limit")

/-- The signal of a STOP: what equals 15. -/
def stopSignal (v : Value) : Except Raised StopSignal :=
  if v = StopSignal.int.toValue then .ok .int
  else if v = StopSignal.float.toValue then .ok .float
  else .error (.protocol "STOP signal must be SIGTERM")

/-! ### Messages -/

/-- The identifiers of a body beyond those every message has. -/
structure Identifiers where
  requestId : Value
  bootGeneration : Value
  replyTo : Value

/-- The kinds that a request opens. -/
def Kind.isRequest : Kind → Bool
  | .reconnect | .stop | .exec => true
  | _ => false

/-- The request identifier of a kind with a boot generation, and that it has no other
identifier. -/
def requestOf (kind : Kind) (i : Identifiers) : Except Raised (Option Counter) := do
  if kind.isRequest then
    let request ← Field.counter i.requestId "request ID"
    require (i.replyTo = .null) (kind.text ++ " fields are invalid")
    return some request
  else
    require (i.requestId = .null) (kind.text ++ " fields are invalid")
    return none

/-- A check that raises, and that what it checked holds. -/
def checked (p : Prop) [Decidable p] (message : String) : Except Raised (PLift p) :=
  if h : p then .ok ⟨h⟩ else .error (.protocol message)

/-- The content of a message of a kind, by the checks of its constructor. -/
def contentOf (kind : Kind) (payload : List (String × Value)) (i : Identifiers) (epoch : ℕ) :
    Except Raised {c : Content // c.EpochOk epoch} := do
  if kind = .hello then
    let _ ← exact (.dict payload) [] "HELLO payload"
    let request ← Field.counter i.requestId "request ID"
    let ⟨h⟩ ← checked (epoch = 1 ∧ i.bootGeneration = .null ∧ i.replyTo = .null)
      "HELLO fields are invalid"
    return ⟨.hello request, h.1⟩
  else
    let generation ← Field.uuid i.bootGeneration "boot generation"
    let request ← requestOf kind i
    match kind, request with
    | .bootstrap, _ => do
      let d ← exact (.dict payload) ["boot_key"] "BOOTSTRAP payload"
      let key ← Field.hex32 (field d "boot_key") "boot key"
      let reply ← Field.counter i.replyTo "reply-to request ID"
      let ⟨h⟩ ← checked (epoch = 1) "BOOTSTRAP epoch is invalid"
      return ⟨.bootstrap generation reply key, h⟩
    | .keyAck, _ => do
      let _ ← exact (.dict payload) [] "KEY_ACK payload"
      let reply ← Field.counter i.replyTo "reply-to guest wire sequence"
      let ⟨h⟩ ← checked (epoch = 1) "KEY_ACK epoch is invalid"
      return ⟨.keyAck generation reply, h⟩
    | .reconnect, some request => do
      let d ← exact (.dict payload) ["boundary_ack_digest", "boundary_id"] "RECONNECT payload"
      let digest ← Field.digest (field d "boundary_ack_digest") "boundary acknowledgement digest"
      let boundaryId ← Field.uuid (field d "boundary_id") "boundary ID"
      let ⟨h⟩ ← checked (1 < epoch) "RECONNECT epoch is invalid"
      return ⟨.reconnect generation request digest boundaryId, h⟩
    | .boundaryAck, _ => do
      let boundary ← boundaryAck payload
      let reply ← Field.counter i.replyTo "reply-to connection opener request ID"
      let ⟨h⟩ ← checked (1 < epoch) "BOUNDARY_ACK fields are invalid"
      return ⟨.boundaryAck generation reply boundary, h⟩
    | .ready, _ => do
      let identity ← if payload = [] then pure none else do
        let d ← exact (.dict payload) ["root_identity"] "READY payload"
        some <$> validateRootIdentity (field d "root_identity")
      let reply ← Field.counter i.replyTo "reply-to host wire sequence"
      return ⟨.ready generation reply identity, trivial⟩
    | .snapshot, _ => do
      let reply ← Field.counter i.replyTo "reply-to request ID"
      return ⟨.snapshot generation reply (← snapshot payload), trivial⟩
    | .exec, some request => do
      let d ← exact (.dict payload) ["argv", "timeout_ms"] "EXEC payload"
      let argv ← execArgv (field d "argv")
      return ⟨.exec generation request argv (← execTimeout (field d "timeout_ms")), trivial⟩
    | .execOutput, _ => do
      let reply ← Field.counter i.replyTo "exec reply request ID"
      return ⟨.execOutput generation reply (← execOutput payload), trivial⟩
    | .execExit, _ => do
      let reply ← Field.counter i.replyTo "exec reply request ID"
      return ⟨.execExit generation reply (← execExit payload), trivial⟩
    | .terminal, _ => do
      let d ← exact (.dict payload) ["terminal"] "TERMINAL payload"
      let result ← Control.terminal (field d "terminal")
      return ⟨.terminal generation (← Field.optional i.replyTo "reply-to request ID") result,
        trivial⟩
    | .stop, some request => do
      let d ← exact (.dict payload) ["signal"] "STOP payload"
      return ⟨.stop generation request (← stopSignal (field d "signal")), trivial⟩
    -- the kinds left are the HELLO and requests without an identifier, both dealt with above
    | _, _ => .error (.protocol (kind.text ++ " fields are invalid"))

/-- `OCIControlV2Message.from_dict`: the fields of a body of a kind. -/
def bodyFields (kind : Kind) : List String :=
  ["boot_attempt_id", "domain_core_digest", "epoch", "host_nonce", "kind", "payload", "run_id",
    "schema", "stage1_artifact_digest", "wire_sequence"] ++
  (if kind.hasRequest then ["request_id"] else []) ++
  (if kind = .hello then [] else ["boot_generation", "reply_to"])

/-- The kind a body names. A list or an object cannot be looked up among the kinds. -/
def kindOf (v : Value) : Except Raised Kind :=
  match v with
  | .dict d =>
    match field d "kind" with
    | .str s =>
      match Kind.all.find? (·.text = s) with
      | some kind => .ok kind
      | none => .error (.protocol "lifecycle message kind is invalid")
    | .list _ | .dict _ => .error .typeError
    | _ => .error (.protocol "lifecycle message kind is invalid")
  | _ => .error (.protocol "lifecycle message kind is invalid")

/-- `OCIControlV2Message.from_dict` -/
def OCIControlV2Message.fromDict (v : Value) : Except Raised OCIControlV2Message := do
  let kind ← kindOf v
  let d ← exact v (bodyFields kind) "lifecycle message body"
  require (field d "schema" = .str (String.ofList ociControlProtocolV2))
    "lifecycle protocol schema is unsupported"
  let runId ← Field.uuid (field d "run_id") "run ID"
  let domainCoreDigest ← Field.digest (field d "domain_core_digest") "domain-core digest"
  let stage1ArtifactDigest ← Field.digest (field d "stage1_artifact_digest") "stage-1 digest"
  let bootAttemptId ← Field.uuid (field d "boot_attempt_id") "boot attempt ID"
  let hostNonce ← Field.hex32 (field d "host_nonce") "host nonce"
  let epoch ← Field.counter (field d "epoch") "epoch"
  let wireSequence ← Field.counter (field d "wire_sequence") "wire sequence"
  match field d "payload" with
  | .dict payload => do
    let content ← contentOf kind payload
      ⟨field d "request_id", field d "boot_generation", field d "reply_to"⟩ epoch.1
    return ⟨⟨runId, domainCoreDigest, stage1ArtifactDigest⟩, bootAttemptId, hostNonce, epoch,
      wireSequence, content.1, content.2⟩
  | _ => .error (.protocol "lifecycle payload is invalid")

/-! ### Envelopes of bytes -/

/-- `json.loads(payload.decode("utf-8"), object_pairs_hook=_reject_pairs)` -/
def loadPayload (payload : List UInt8) : Except Raised Value :=
  match decodeUtf8 payload with
  | none => .error (.protocol "lifecycle payload JSON is invalid")
  | some t =>
    match loads t with
    | .ok v => .ok v
    | .error .duplicateKey => .error (.protocol "lifecycle message contains a duplicate key")
    | .error .invalid => .error (.protocol "lifecycle payload JSON is invalid")

/-- The envelope of a body and what stands in its field `mac`. -/
def envelopeOf (body : OCIControlV2Message) (mac : Value) : Except Raised OCIControlV2Envelope :=
  if h : body.content.kind = .hello then
    if mac = .null then .ok ⟨body, none, unsigned_ok h⟩
    else .error (.protocol "initial HELLO envelope must be unsigned")
  else do
    let d ← exact mac ["key_id", "tag"] "lifecycle MAC"
    let keyId ← Field.digest (field d "key_id") "key ID"
    let tag ← Field.hex32 (field d "tag") "authentication tag"
    return ⟨body, some ⟨keyId, tag⟩, by simp [h]⟩

/-- `decode_payload` -/
def decodePayload (payload : List UInt8) : Except Raised OCIControlV2Envelope := do
  require (payload ≠ [] ∧ payload.length ≤ maxPayloadBytes) "lifecycle payload size is invalid"
  let value ← loadPayload payload
  let outer ← exact value ["body", "mac"] "lifecycle envelope"
  let body ← OCIControlV2Message.fromDict (field outer "body")
  let envelope ← envelopeOf body (field outer "mac")
  let canonical ← canonicalJsonBytes (.dict envelope.toDict)
  require (canonical = payload) "lifecycle payload must be canonical UTF-8 JSON"
  return envelope

/-! ### What is written is read back -/

theorem field_sorted {d : List (String × Value)} (hd : (keys d).Nodup) (k : String) :
    field (sortFields (Value.sortedFields d)) k = (field d k).sorted := by
  rw [field, lookup_sorted hd, field]
  cases lookup k d <;> rfl

theorem exact_sorted {d : List (String × Value)} {fields : List String} (label : String)
    (h : hasKeys d fields) :
    exact (.dict (sortFields (Value.sortedFields d))) fields label =
      .ok (sortFields (Value.sortedFields d)) := by
  rw [← hasKeys_sorted] at h
  simp only [hasKeys, Bool.and_eq_true, List.all_eq_true, decide_eq_true_eq] at h
  exact if_pos h

theorem Field.uuid_str (u : Uuid) (label : String) : Field.uuid (.str u.1) label = .ok u :=
  dif_pos u.2

theorem Field.digest_str (d : Digest) (label : String) : Field.digest (.str d.1) label = .ok d :=
  dif_pos d.2

theorem Field.hex32_str (x : Hex32) (label : String) : Field.hex32 (.str x.1) label = .ok x :=
  dif_pos x.2

theorem Field.counter_int (n : Counter) (label : String) :
    Field.counter (.int n.1) label = .ok n := dif_pos n.2

theorem keys_toDict (m : OCIControlV2Message) : keys m.toDict = bodyFields m.content.kind := by
  simp only [keys, OCIControlV2Message.toDict, bodyFields]
  split <;> split <;> rfl

theorem nodup_bodyFields (kind : Kind) : (bodyFields kind).Nodup := by
  cases kind <;> decide

theorem nodup_keys (m : OCIControlV2Message) : (keys m.toDict).Nodup :=
  (keys_toDict m).symm ▸ nodup_bodyFields _

theorem hasKeys_toDict (m : OCIControlV2Message) :
    hasKeys m.toDict (bodyFields m.content.kind) := by
  rw [hasKeys, keys_toDict]
  simp

/-- The identifiers of a body, missing ones being null. -/
theorem identifiers_toDict (m : OCIControlV2Message) :
    field m.toDict "request_id" = counterValue m.content.requestId ∧
      field m.toDict "boot_generation" = stringValue (m.content.bootGeneration.map Subtype.val) ∧
      field m.toDict "reply_to" = counterValue m.content.replyTo := by
  obtain ⟨binding, attempt, nonce, epoch, wire, content, hepoch⟩ := m
  cases content <;> exact ⟨rfl, rfl, rfl⟩

/-- A body is read back, when its content is. -/
theorem fromDict_toDict {m : OCIControlV2Message}
    (h : contentOf m.content.kind (sortFields (Value.sortedFields m.content.payload))
      ⟨counterValue m.content.requestId, stringValue (m.content.bootGeneration.map Subtype.val),
        counterValue m.content.replyTo⟩ m.epoch.1 = .ok ⟨m.content, m.epoch_ok⟩) :
    OCIControlV2Message.fromDict (Value.sorted (.dict m.toDict)) = .ok m := by
  have hfield := field_sorted (nodup_keys m)
  have hexact := exact_sorted "lifecycle message body" (hasKeys_toDict m)
  have hkind : kindOf (Value.sorted (.dict m.toDict)) = .ok m.content.kind := by
    rw [Value.sorted, kindOf, hfield]
    have hname : field m.toDict "kind" = .str m.content.kind.text := rfl
    rw [hname]
    cases m.content.kind <;> rfl
  obtain ⟨hrequest, hgeneration, hreply⟩ := identifiers_toDict m
  -- The field checks, each on the value that was written.
  have hcounter : ∀ c : Option Counter, (counterValue c).sorted = counterValue c := by
    intro c
    cases c <;> rfl
  have hstring : ∀ s : Option String, (stringValue s).sorted = stringValue s := by
    intro s
    cases s <;> rfl
  have hschema : require ((field m.toDict "schema").sorted =
      .str (String.ofList ociControlProtocolV2)) "lifecycle protocol schema is unsupported" =
      .ok () := if_pos rfl
  have hrun : Field.uuid (field m.toDict "run_id").sorted "run ID" = .ok m.binding.runId :=
    Field.uuid_str ..
  have hdomain : Field.digest (field m.toDict "domain_core_digest").sorted "domain-core digest" =
      .ok m.binding.domainCoreDigest := Field.digest_str ..
  have hstage : Field.digest (field m.toDict "stage1_artifact_digest").sorted "stage-1 digest" =
      .ok m.binding.stage1ArtifactDigest := Field.digest_str ..
  have hattempt : Field.uuid (field m.toDict "boot_attempt_id").sorted "boot attempt ID" =
      .ok m.bootAttemptId := Field.uuid_str ..
  have hnonce : Field.hex32 (field m.toDict "host_nonce").sorted "host nonce" = .ok m.hostNonce :=
    Field.hex32_str ..
  have hepoch : Field.counter (field m.toDict "epoch").sorted "epoch" = .ok m.epoch :=
    Field.counter_int ..
  have hwire : Field.counter (field m.toDict "wire_sequence").sorted "wire sequence" =
      .ok m.wireSequence := Field.counter_int ..
  have hpayload : (field m.toDict "payload").sorted =
      .dict (sortFields (Value.sortedFields m.content.payload)) := rfl
  rw [Value.sorted] at hkind ⊢
  rw [OCIControlV2Message.fromDict, hkind]
  simp only [hexact, hfield, bind, Except.bind, hschema, hrun, hdomain, hstage, hattempt, hnonce,
    hepoch, hwire, hpayload, hrequest, hgeneration, hreply, hcounter, hstring, h]
  rfl

theorem contentOf_hello (n : Counter) {epoch : ℕ} (h : (Content.hello n).EpochOk epoch) :
    contentOf .hello [] ⟨.int n.1, .null, .null⟩ epoch = .ok ⟨.hello n, h⟩ := by
  obtain rfl : epoch = 1 := h
  simp only [contentOf, if_pos, Field.counter_int, bind, Except.bind]
  rfl

theorem loadPayload_encodeUtf8 {v : Value} (hv : v.Distinct) {t : Text} (ht : dumps v = some t) :
    loadPayload (encodeUtf8 t) = .ok v.sorted := by
  rw [loadPayload, decodeUtf8_encodeUtf8]
  simp only [loads_dumps hv ht]

theorem size_ok {v : Value} {t : Text} (ht : dumps v = some t)
    (hsize : byteLength t ≤ maxPayloadBytes) :
    encodeUtf8 t ≠ [] ∧ (encodeUtf8 t).length ≤ maxPayloadBytes := by
  rw [← List.length_pos_iff, length_encodeUtf8]
  obtain ⟨c, u, rfl, -, -⟩ := exists_cons_of_dumps ht
  have hpos := c.utf8Size_pos
  rw [byteLength_cons] at hsize ⊢
  omega

theorem distinct_hello {m : OCIControlV2Message} {n : Counter} (h : m.content = .hello n) :
    (Value.dict m.toDict).Distinct := by
  refine ⟨nodup_keys m, ?_⟩
  obtain ⟨binding, attempt, nonce, epoch, wire, content, hepoch⟩ := m
  obtain rfl : content = .hello n := h
  simp [OCIControlV2Message.toDict, Content.kind, Content.payload, Content.requestId,
    Kind.hasRequest, Value.DistinctFields, Value.Distinct, counterValue]

/-- An unsigned HELLO is read back from its canonical text. -/
theorem decodePayload_hello {e : OCIControlV2Envelope} {n : Counter}
    (he : e.body.content = .hello n) {t : Text} (ht : dumps (.dict e.toDict) = some t)
    (hsize : byteLength t ≤ maxPayloadBytes) : decodePayload (encodeUtf8 t) = .ok e := by
  have hkind : e.body.content.kind = .hello := congrArg Content.kind he
  have hmac : e.mac = none := e.mac_ok.mpr hkind
  have hkeys : keys e.toDict = ["body", "mac"] := rfl
  have hnodup : (keys e.toDict).Nodup := hkeys ▸ by decide
  have hmacValue : field e.toDict "mac" = .null := by
    rw [OCIControlV2Envelope.toDict, hmac]
    rfl
  have hdistinct : (Value.dict e.toDict).Distinct := by
    refine ⟨hnodup, distinct_hello he, ?_, trivial⟩
    rw [hmac]
    trivial
  have hload := loadPayload_encodeUtf8 hdistinct ht
  have hexact : exact (Value.sorted (.dict e.toDict)) ["body", "mac"] "lifecycle envelope" =
      .ok (sortFields (Value.sortedFields e.toDict)) :=
    exact_sorted _ (by rw [hasKeys, hkeys]; decide)
  have hbody : OCIControlV2Message.fromDict (Value.sorted (.dict e.body.toDict)) = .ok e.body := by
    refine fromDict_toDict ?_
    obtain ⟨⟨binding, attempt, nonce, epoch, wire, content, hepoch⟩, mac, hmac⟩ := e
    obtain rfl : content = .hello n := he
    exact contentOf_hello n hepoch
  have hbodyField : field (sortFields (Value.sortedFields e.toDict)) "body" =
      Value.sorted (.dict e.body.toDict) := field_sorted hnodup "body"
  have hmacField : field (sortFields (Value.sortedFields e.toDict)) "mac" = .null := by
    rw [field_sorted hnodup, hmacValue]
    rfl
  have henvelope : envelopeOf e.body .null = .ok e := by
    rw [envelopeOf, dif_pos hkind, if_pos rfl]
    simp only [← hmac]
  have hcanonical : canonicalJsonBytes (.dict e.toDict) = .ok (encodeUtf8 t) := by
    rw [canonicalJsonBytes, ht]
  have hsizeOk := size_ok ht hsize
  simp only [decodePayload, require, if_pos hsizeOk, bind, Except.bind, hload, hexact, hbodyField,
    hbody, hmacField, henvelope, hcanonical, if_true]
  rfl

end Palimpsest.Control
