import Mathlib.Data.Finset.Insert
import Mathlib.Data.Finset.Lattice.Fold
import Mathlib.Order.Lattice.Nat
import Palimpsest.Control.Auth

/-!
# The session of the host

The state machine `HostOCIControlV2Session`: its fields, and its operations one after
the other. An operation returns what it raises or returns together with the session it
leaves behind, since some of them write fields before they raise. Where every check of
an operation comes before its first write, the session after it is computed by a
function of its own (`HostOCIControlV2Session.accepted`), and an operation that raises
leaves the session as it was.
-/

namespace Palimpsest.Control

open Json

/-- A check that raises. -/
def require (p : Prop) [Decidable p] (message : String) : Except Raised Unit :=
  if p then .ok () else .error (.protocol message)

/-- `_counter` -/
def counter (n : ℕ) (label : String) : Except Raised Counter :=
  if h : 1 ≤ n ∧ n ≤ maxCounter then .ok ⟨n, h⟩
  else .error (.protocol (label ++ " is invalid"))

inductive HostState
  | new | helloSent | bootstrapReceived | keyAckSent | ready | stopSent | terminal | reconnectSent
  deriving DecidableEq

/-- `HostOCIControlV2Session` -/
structure HostOCIControlV2Session where
  binding : OCIControlV2Binding
  bootAttemptId : Uuid
  usedNonces : Finset Hex32
  usedBoundaryIds : Finset Uuid
  nonce : Option Hex32
  key : Option Key
  keyId : Option Digest
  bootGeneration : Option Uuid
  hostWire : ℕ
  acceptedHostWire : ℕ
  acceptedHostWireCandidates : Option (Finset ℕ)
  guestWire : ℕ
  request : ℕ
  pendingRequest : Option ℕ
  stopRequest : Option ℕ
  terminal : Option TerminalResult
  terminalStopRequest : Option ℕ
  epoch : ℕ
  boundary : Option (Uuid × Digest)
  boundaryState : Option (LifecycleState TerminalResult)
  reconnectExpectedState : Option (LifecycleState TerminalResult)
  connectionOpenerRequest : Option ℕ
  acceptedConnectionOpenerRequest : Option ℕ
  acceptedNonce : Option Hex32
  pendingHostWire : Option ℕ
  stopWire : Option ℕ
  stopWireCandidates : Finset ℕ
  retryReconnectRequest : Option ℕ
  reconnectFrom : Option HostState
  execRequest : Option ℕ
  execWire : Option ℕ
  execCounts : Stream → ℕ
  state : HostState

/-- The identifier of the STOP a lifecycle state names. -/
def LifecycleState.stopId {R : Type} (s : LifecycleState R) : Option ℕ :=
  s.stopRequestId.map Subtype.val

namespace HostOCIControlV2Session

/-- What an operation returns or raises, and the session it leaves. -/
abbrev Outcome (α : Type) := Except Raised α × HostOCIControlV2Session

/-- `__init__` -/
def init (binding : OCIControlV2Binding) (bootAttemptId : Uuid) : HostOCIControlV2Session where
  binding := binding
  bootAttemptId := bootAttemptId
  usedNonces := ∅
  usedBoundaryIds := ∅
  nonce := none
  key := none
  keyId := none
  bootGeneration := none
  hostWire := 0
  acceptedHostWire := 0
  acceptedHostWireCandidates := none
  guestWire := 0
  request := 0
  pendingRequest := none
  stopRequest := none
  terminal := none
  terminalStopRequest := none
  epoch := 1
  boundary := none
  boundaryState := none
  reconnectExpectedState := none
  connectionOpenerRequest := none
  acceptedConnectionOpenerRequest := none
  acceptedNonce := none
  pendingHostWire := none
  stopWire := none
  stopWireCandidates := ∅
  retryReconnectRequest := none
  reconnectFrom := none
  execRequest := none
  execWire := none
  execCounts := fun _ => 0
  state := .new

variable (s : HostOCIControlV2Session)

/-- `_fresh_nonce`, with what the factory returned; `none` stands for anything that is
no nonce in canonical form. -/
def freshNonce (candidate : Option Hex32) : Except Raised Hex32 := do
  require (s.usedNonces.card < maxOCIControlConnections) "lifecycle connection limit was exhausted"
  match candidate with
  | some nonce =>
    if nonce ∈ s.usedNonces then
      .error (.protocol "nonce factory did not produce a fresh canonical nonce")
    else .ok nonce
  | none => .error (.protocol "nonce factory did not produce a fresh canonical nonce")

/-- What the constructor of a message says about an epoch its kind cannot have. -/
def epochError : Kind → String
  | .bootstrap => "BOOTSTRAP epoch is invalid"
  | .keyAck => "KEY_ACK epoch is invalid"
  | .reconnect => "RECONNECT epoch is invalid"
  | .hello => "HELLO fields are invalid"
  | _ => "BOUNDARY_ACK fields are invalid"

/-- The constructor of a message, for the messages a session sends. -/
def message (epoch wire : ℕ) (content : Except Raised Content) :
    Except Raised OCIControlV2Message := do
  let nonce ← match s.nonce with
    | some nonce => .ok nonce
    | none => .error (.protocol "host nonce is invalid")
  let epoch ← counter epoch "epoch"
  let wire ← counter wire "wire sequence"
  let content ← content
  if h : content.EpochOk epoch.1 then
    return ⟨s.binding, s.bootAttemptId, nonce, epoch, wire, content, h⟩
  else .error (.protocol (epochError content.kind))

/-! ### Sending -/

/-- The session after the writes of `hello`. -/
def afterHello (nonce : Hex32) : HostOCIControlV2Session :=
  { s with
    usedNonces := insert nonce s.usedNonces
    nonce := some nonce
    request := s.request + 1
    hostWire := s.hostWire + 1
    pendingRequest := some (s.request + 1)
    pendingHostWire := some (s.hostWire + 1)
    state := .helloSent
    connectionOpenerRequest := some (s.request + 1) }

/-- The envelope of a HELLO. -/
def helloEnvelope (s : HostOCIControlV2Session) : Except Raised OCIControlV2Envelope := do
  let m ← s.message 1 s.hostWire ((counter s.request "request ID").map .hello)
  if h : m.content.kind = .hello then return ⟨m, none, unsigned_ok h⟩
  else .error (.protocol "HELLO fields are invalid")

/-- `hello` -/
def hello (candidate : Option Hex32) : Outcome OCIControlV2Envelope :=
  if s.state ≠ .new then (.error (.protocol "session HELLO was already sent"), s)
  else match s.freshNonce candidate with
    | .error r => (.error r, s)
    | .ok nonce => ((s.afterHello nonce).helloEnvelope, s.afterHello nonce)

/-- The session after the first writes of `key_ack`. -/
def afterKeyAck : HostOCIControlV2Session :=
  { s with hostWire := s.hostWire + 1, pendingHostWire := some (s.hostWire + 1) }

/-- The envelope of a KEY_ACK. -/
def keyAckEnvelope (s : HostOCIControlV2Session) (generation : Uuid) (key : Key) :
    Except Raised OCIControlV2Envelope := do
  let m ← s.message 1 s.hostWire
    ((counter s.guestWire "reply-to guest wire sequence").map (.keyAck generation))
  signMessage m key .channel

/-- `key_ack` -/
def keyAck : Outcome OCIControlV2Envelope :=
  match s.state, s.key, s.bootGeneration with
  | .bootstrapReceived, some key, some generation =>
    match s.afterKeyAck.keyAckEnvelope generation key with
    | .error r => (.error r, s.afterKeyAck)
    | .ok e => (.ok e, { s.afterKeyAck with state := .keyAckSent })
  | _, _, _ => (.error (.protocol "KEY_ACK requires authenticated BOOTSTRAP"), s)

/-- The session after the writes of `reconnect`. -/
def afterReconnect (nonce : Hex32) : HostOCIControlV2Session :=
  let request := s.retryReconnectRequest.getD (s.request + 1)
  { s with
    usedNonces := insert nonce s.usedNonces
    nonce := some nonce
    request := if s.retryReconnectRequest = none then s.request + 1 else s.request
    retryReconnectRequest := none
    hostWire := s.hostWire + 1
    pendingRequest := some request
    pendingHostWire := some (s.hostWire + 1)
    boundary := none
    reconnectExpectedState := s.boundaryState
    boundaryState := none
    state := .reconnectSent
    connectionOpenerRequest := some request
    reconnectFrom := some s.state }

/-- The envelope of a RECONNECT. -/
def reconnectEnvelope (s : HostOCIControlV2Session) (generation : Uuid) (key : Key)
    (boundaryId : Uuid) (digest : Digest) : Except Raised OCIControlV2Envelope := do
  let m ← s.message s.epoch s.hostWire
    ((counter (s.pendingRequest.getD 0) "request ID").map
      (.reconnect generation · digest boundaryId))
  signMessage m key .channel

/-- `reconnect` -/
def reconnect (candidate : Option Hex32) : Outcome OCIControlV2Envelope :=
  if s.execRequest ≠ none then (.error (.protocol "exec reconnect is unsupported"), s)
  else match s.key, s.bootGeneration, s.boundary with
    | some key, some generation, some (boundaryId, digest) =>
      if s.state ≠ .ready ∧ s.state ≠ .stopSent ∧ s.state ≠ .terminal then
        (.error (.protocol "session is not reconnectable"), s)
      else match s.freshNonce candidate with
        -- `_reconnect_from` is written before the nonce is drawn
        | .error r => (.error r, { s with reconnectFrom := some s.state })
        | .ok nonce =>
          ((s.afterReconnect nonce).reconnectEnvelope generation key boundaryId digest,
            s.afterReconnect nonce)
    | _, _, _ => (.error (.protocol "RECONNECT requires authenticated BOUNDARY_ACK"), s)

/-- The session after a command was sent. -/
def afterExec : HostOCIControlV2Session :=
  { s with
    request := s.request + 1
    hostWire := s.hostWire + 1
    execRequest := some (s.request + 1)
    execWire := some (s.hostWire + 1)
    execCounts := fun _ => 0 }

/-- The envelope of an EXEC, once its arguments are known to be valid. -/
def execEnvelope (generation : Uuid) (key : Key) (argv : {l : List String // ExecArgv l})
    (timeoutMs : {n : ℕ // 1 ≤ n ∧ n ≤ maxOCIExecTimeoutMs}) :
    Except Raised OCIControlV2Envelope := do
  require (s.request < maxCounter ∧ s.hostWire < maxCounter) "exec sequence is exhausted"
  let m ← s.message s.epoch (s.hostWire + 1)
    ((counter (s.request + 1) "request ID").map (.exec generation · argv timeoutMs))
  signMessage m key .channel

/-- `exec` -/
def exec (argv : List String) (timeoutMs : ℤ) : Outcome OCIControlV2Envelope :=
  match validateExecArgv argv, validateExecTimeout timeoutMs with
  | .error r, _ | .ok _, .error r => (.error r, s)
  | .ok argv, .ok timeoutMs =>
    match s.state, s.key, s.bootGeneration, s.execRequest with
    | .ready, some key, some generation, none =>
      match s.execEnvelope generation key argv timeoutMs with
      | .error r => (.error r, s)
      | .ok e => (.ok e, s.afterExec)
    | _, _, _, _ =>
      (.error (.protocol "exec requires ready state and no outstanding command"), s)

/-- The session after a STOP was given its wire, and the first one its request. -/
def afterStop : HostOCIControlV2Session :=
  { s with
    hostWire := s.hostWire + 1
    stopWire := some (s.hostWire + 1)
    stopWireCandidates := insert (s.hostWire + 1) s.stopWireCandidates
    request := if s.stopRequest = none then s.request + 1 else s.request
    stopRequest := some (s.stopRequest.getD (s.request + 1)) }

/-- The envelope of a STOP. -/
def stopEnvelope (s : HostOCIControlV2Session) (generation : Uuid) (key : Key) :
    Except Raised OCIControlV2Envelope := do
  let m ← s.message s.epoch s.hostWire
    ((counter (s.stopRequest.getD 0) "request ID").map (.stop generation · .int))
  signMessage m key .channel

/-- `stop` -/
def stop : Outcome OCIControlV2Envelope :=
  match s.state, s.key, s.bootGeneration with
  | .ready, some key, some generation =>
    match s.afterStop.stopEnvelope generation key with
    | .error r => (.error r, s.afterStop)
    | .ok e => (.ok e, { s.afterStop with state := .stopSent })
  | _, _, _ => (.error (.protocol "STOP requires a current ready snapshot"), s)

/-- `retry_stop` -/
def retryStop : Outcome OCIControlV2Envelope :=
  match s.state, s.key, s.bootGeneration, s.stopRequest with
  | .stopSent, some key, some generation, some _ =>
    (s.afterStop.stopEnvelope generation key, s.afterStop)
  | _, _, _, _ => (.error (.protocol "STOP retry requires an outstanding logical STOP"), s)

/-! ### Boundary acknowledgements -/

/-- The lifecycle states a boundary may commit in the state the session is in. -/
def AllowsState (b : LifecycleState TerminalResult) : Prop :=
  match s.state with
  | .reconnectSent =>
    match s.reconnectExpectedState with
    | none => False
    | some .ready => b = .ready ∨ b.name = "terminal" ∧ b.stopId = none
    | some (.stopping n) =>
      b = .stopping n ∨ b.name = "terminal" ∧ (b.stopId = none ∨ b.stopId = some n.1)
    | some (.terminal n r) => b = .terminal n r
  | .keyAckSent | .ready => b = .ready ∨ b.name = "terminal" ∧ b.stopId = none
  | .stopSent =>
    b = .ready ∨ b.name = "stopping" ∧ b.stopId = s.stopRequest ∨
      b.name = "terminal" ∧ (b.stopId = none ∨ b.stopId = s.stopRequest)
  | _ =>
    match b with
    | .terminal n r => n.map Subtype.val = s.terminalStopRequest ∧ s.terminal = some r
    | _ => False

instance (b : LifecycleState TerminalResult) : Decidable (s.AllowsState b) := by
  unfold AllowsState
  cases s.state <;> try infer_instance
  · cases b <;> infer_instance
  · cases b <;> infer_instance
  · cases b <;> infer_instance
  · cases b <;> infer_instance
  · cases s.reconnectExpectedState with
    | none => infer_instance
    | some e => cases e <;> infer_instance

/-- The lifecycle state is the one the session asked for with its STOP. -/
def NamesStop (b : LifecycleState TerminalResult) : Prop :=
  b.stopId ≠ none ∧ b.stopId = s.stopRequest

instance (b : LifecycleState TerminalResult) : Decidable (s.NamesStop b) :=
  inferInstanceAs (Decidable (_ ∧ _))

/-- Every STOP wire the session keeps is older than this wire. -/
def PastStops (wire : ℕ) : Prop :=
  s.stopWireCandidates.Nonempty ∧ s.stopWireCandidates.sup id < wire

instance (wire : ℕ) : Decidable (s.PastStops wire) := inferInstanceAs (Decidable (_ ∧ _))

/-- The host wires a boundary may commit. -/
def expectedHostWires (b : LifecycleState TerminalResult) (reconnectWasAccepted : Bool) :
    Finset ℕ :=
  match s.state with
  | .reconnectSent =>
    if reconnectWasAccepted then {s.pendingHostWire.getD 0} else {s.acceptedHostWire}
  | .keyAckSent => {s.pendingHostWire.getD 0}
  | .ready => {s.acceptedHostWire}
  | .stopSent =>
    if s.NamesStop b then
      if s.PastStops s.acceptedHostWire then insert s.acceptedHostWire s.stopWireCandidates
      else s.stopWireCandidates
    else if b.name = "terminal" ∧ b.stopId = none then
      insert (s.stopWire.getD 0) (insert s.acceptedHostWire s.stopWireCandidates)
    else insert s.acceptedHostWire s.stopWireCandidates
  | _ =>
    match s.acceptedHostWireCandidates with
    | some c => if c = ∅ then {s.acceptedHostWire} else c
    | none => {s.acceptedHostWire}

/-- The boundary names the connection opened last, and what the session sent on it. -/
def AcceptedIdentity (m : OCIControlV2Message) (b : BoundaryAck) : Prop :=
  some m.hostNonce = s.nonce ∧ m.content.replyTo.map Subtype.val = s.connectionOpenerRequest ∧
    some b.lastAcceptedH2gWireSequence = s.pendingHostWire

/-- The boundary names the connection the guest is known to have accepted. -/
def UnacceptedIdentity (m : OCIControlV2Message) (b : BoundaryAck) : Prop :=
  some m.hostNonce = s.acceptedNonce ∧
    m.content.replyTo.map Subtype.val = s.acceptedConnectionOpenerRequest ∧
    b.lastAcceptedH2gWireSequence = s.acceptedHostWire

instance (m : OCIControlV2Message) (b : BoundaryAck) : Decidable (s.AcceptedIdentity m b) :=
  inferInstanceAs (Decidable (_ ∧ _))

instance (m : OCIControlV2Message) (b : BoundaryAck) : Decidable (s.UnacceptedIdentity m b) :=
  inferInstanceAs (Decidable (_ ∧ _))

/-- The checks of `admit_boundary` that need no cryptography. What is returned says
whether the guest had accepted the RECONNECT, where one was sent. -/
def checkBoundary (m : OCIControlV2Message) (b : BoundaryAck) : Except Raised Bool := do
  require (m.binding = s.binding) "BOUNDARY_ACK binding is invalid"
  require (m.bootAttemptId = s.bootAttemptId ∧ m.content.bootGeneration = s.bootGeneration)
    "BOUNDARY_ACK boot identity is stale"
  require (m.epoch.1 = s.epoch + 1) "BOUNDARY_ACK epoch is stale"
  require (s.guestWire < m.wireSequence.1) "BOUNDARY_ACK ordering is stale"
  require (b.lastAttemptedG2hWireSequence = m.wireSequence.1) "BOUNDARY_ACK guest sequence is stale"
  require (b.previousEpoch = s.epoch) "BOUNDARY_ACK previous epoch is stale"
  require (s.state = .keyAckSent ∨ s.state = .ready ∨ s.state = .stopSent ∨ s.state = .terminal ∨
    s.state = .reconnectSent) "BOUNDARY_ACK transition is invalid"
  let reconnectWasAccepted := decide (s.state = .reconnectSent ∧ s.AcceptedIdentity m b)
  if s.state = .reconnectSent then
    require (¬(s.UnacceptedIdentity m b ↔ s.AcceptedIdentity m b))
      "BOUNDARY_ACK reconnect commitment is stale"
  else
    require (some m.hostNonce = s.acceptedNonce ∧
        m.content.replyTo.map Subtype.val = s.acceptedConnectionOpenerRequest)
      "BOUNDARY_ACK connection opener is stale"
  require (s.AllowsState b.lifecycleState) "BOUNDARY_ACK lifecycle state is stale"
  require (b.lastAcceptedH2gWireSequence ∈
      s.expectedHostWires b.lifecycleState reconnectWasAccepted)
    "BOUNDARY_ACK host sequence is stale"
  return reconnectWasAccepted

/-- What the checks of `admit_boundary` have found. -/
structure Admission where
  epoch : ℕ
  wireSequence : ℕ
  boundary : BoundaryAck
  digest : Digest
  reconnectWasAccepted : Bool

/-- The checks of `admit_boundary`. -/
def admission (e : OCIControlV2Envelope) (encodedLine : List UInt8) : Except Raised Admission := do
  require (s.execRequest = none) "exec reconnect is unsupported; command outcome is uncertain"
  match s.key, s.bootGeneration with
  | some key, some _ => do
    verifyMessageAuthentication e key .console
    match e.body.content with
    | .boundaryAck _ _ b => do
      let reconnectWasAccepted ← s.checkBoundary e.body b
      let canonicalLine ← encodeBoundaryLine e
      require (encodedLine = canonicalLine) "BOUNDARY_ACK console encoding is invalid"
      require (b.boundaryId ∉ s.usedBoundaryIds) "BOUNDARY_ACK boundary ID was reused"
      let canonicalEnvelope ← canonicalJsonBytes (.dict e.toDict)
      return ⟨e.body.epoch.1, e.body.wireSequence.1, b, digestOf canonicalEnvelope,
        reconnectWasAccepted⟩
    | _ => .error (.protocol "BOUNDARY_ACK binding is invalid")
  | _, _ => .error (.protocol "BOUNDARY_ACK arrived before BOOTSTRAP")

/-- The STOP wire a boundary names was not kept, although it can be none of a later
RECONNECT. -/
def StaleStopWire (a : Admission) : Prop :=
  s.NamesStop a.boundary.lifecycleState ∧
    a.boundary.lastAcceptedH2gWireSequence ∉ s.stopWireCandidates ∧
    ¬s.PastStops a.boundary.lastAcceptedH2gWireSequence

instance (a : Admission) : Decidable (s.StaleStopWire a) :=
  inferInstanceAs (Decidable (_ ∧ _ ∧ _))

/-- The first writes of `admit_boundary`: those it makes before its last check. -/
def beginCommit (a : Admission) : HostOCIControlV2Session :=
  { s with
    usedBoundaryIds := insert a.boundary.boundaryId s.usedBoundaryIds
    epoch := a.epoch
    guestWire := a.wireSequence
    acceptedHostWire := a.boundary.lastAcceptedH2gWireSequence
    acceptedHostWireCandidates := none }

/-- The STOP wires that are kept when a boundary is committed. -/
def committedStopWires (a : Admission) : Finset ℕ :=
  if s.NamesStop a.boundary.lifecycleState then
    if a.boundary.lastAcceptedH2gWireSequence ∈ s.stopWireCandidates then
      {a.boundary.lastAcceptedH2gWireSequence}
    -- a RECONNECT accepted later does not replace the wire that carried the STOP
    else s.stopWireCandidates
  else ∅

/-- The state of a session that resumes in a lifecycle state. -/
def stateOf {R : Type} : LifecycleState R → HostState
  | .ready => .ready
  | .stopping _ => .stopSent
  | .terminal _ _ => .terminal

/-- A terminal result, and the STOP it answers, taken over from a lifecycle state that
has them. -/
def adoptTerminal (t : HostOCIControlV2Session) (b : LifecycleState TerminalResult) :
    HostOCIControlV2Session :=
  { t with
    terminal := match b with
      | .terminal _ r => some r
      | _ => t.terminal
    terminalStopRequest := match b with
      | .terminal n _ => n.map Subtype.val
      | _ => t.terminalStopRequest }

/-- The writes of `admit_boundary` after its last check. -/
def finishCommit (a : Admission) : HostOCIControlV2Session :=
  let b := a.boundary.lifecycleState
  let t := { s.beginCommit a with
    stopWireCandidates := s.committedStopWires a
    acceptedNonce := if a.reconnectWasAccepted then s.nonce else s.acceptedNonce
    acceptedConnectionOpenerRequest :=
      if a.reconnectWasAccepted then s.connectionOpenerRequest
      else s.acceptedConnectionOpenerRequest
    boundary := some (a.boundary.boundaryId, a.digest)
    boundaryState := some b }
  match s.state with
  | .keyAckSent =>
    { adoptTerminal t b with
      state := stateOf b
      pendingRequest := none
      pendingHostWire := none }
  | .reconnectSent =>
    { adoptTerminal t b with
      state := stateOf b
      retryReconnectRequest := if a.reconnectWasAccepted then none else s.pendingRequest
      pendingRequest := none
      pendingHostWire := none
      reconnectFrom := none
      reconnectExpectedState := none }
  | _ => t

/-- `admit_boundary` -/
def admitBoundary (e : OCIControlV2Envelope) (encodedLine : List UInt8) : Outcome Unit :=
  match s.admission e encodedLine with
  | .error r => (.error r, s)
  | .ok a =>
    if s.StaleStopWire a then
      (.error (.protocol "BOUNDARY_ACK STOP wire commitment is stale"), s.beginCommit a)
    else (.ok (), s.finishCommit a)

/-! ### Messages of the guest -/

/-- The session after a BOOTSTRAP. -/
def afterBootstrap (generation : Uuid) (key : Key) (keyId : Option Digest) (wire : ℕ) :
    HostOCIControlV2Session :=
  { s with
    key := some key
    keyId := keyId
    bootGeneration := some generation
    guestWire := wire
    acceptedHostWire := s.pendingHostWire.getD 0
    acceptedNonce := s.nonce
    acceptedConnectionOpenerRequest := s.connectionOpenerRequest
    pendingHostWire := none
    state := .bootstrapReceived }

/-- The output of a command that was reported so far. -/
def execTotal : ℕ := s.execCounts .stdout + s.execCounts .stderr

/-- The session after a message about a command. -/
def afterExecReply (wire : ℕ) : HostOCIControlV2Session :=
  { s with
    guestWire := wire
    acceptedHostWire := max s.acceptedHostWire (s.execWire.getD 0) }

/-- The session after output of a command. -/
def acceptedExecOutput (wire replyTo : ℕ) (o : ExecOutput) :
    Except Raised HostOCIControlV2Session := do
  require ((s.state = .ready ∨ s.state = .stopSent) ∧ s.execRequest = some replyTo)
    "guest exec request identity is stale"
  require (o.offset = s.execCounts o.stream) "guest exec output offset is not contiguous"
  require (s.execTotal + o.count ≤ maxOCIExecOutputBytes)
    "guest exec combined output exceeds limit"
  return { s.afterExecReply wire with
    execCounts := fun stream => s.execCounts stream + if stream = o.stream then o.count else 0 }

/-- The session after a command has completed. -/
def acceptedExecExit (wire replyTo : ℕ) (x : ExecExit) : Except Raised HostOCIControlV2Session := do
  require ((s.state = .ready ∨ s.state = .stopSent) ∧ s.execRequest = some replyTo)
    "guest exec request identity is stale"
  require (x.stdoutBytes = s.execCounts .stdout ∧ x.stderrBytes = s.execCounts .stderr)
    "guest exec completion output counts differ"
  return { s.afterExecReply wire with execRequest := none }

/-- The common writes of `accept` after a READY, a SNAPSHOT or a TERMINAL. -/
def afterLifecycle (wire : ℕ) (next : HostState) (acceptedHostWire : ℕ)
    (candidates : Option (Finset ℕ)) : HostOCIControlV2Session :=
  { s with
    guestWire := wire
    acceptedHostWire := acceptedHostWire
    acceptedHostWireCandidates := candidates
    pendingRequest := none
    pendingHostWire := none
    reconnectFrom := none
    reconnectExpectedState := none
    state := next }

/-- The connection a READY or a SNAPSHOT is accepted on. -/
def afterSnapshot (wire : ℕ) (b : LifecycleState TerminalResult) (acceptedHostWire : ℕ) :
    HostOCIControlV2Session :=
  let t := adoptTerminal s b
  { t.afterLifecycle wire (stateOf b) acceptedHostWire none with
    acceptedNonce := s.nonce
    acceptedConnectionOpenerRequest := s.connectionOpenerRequest
    stopWireCandidates := if b = .ready then ∅ else s.stopWireCandidates }

/-- The checks of a SNAPSHOT that answers a RECONNECT. -/
def checkSnapshot (b : LifecycleState TerminalResult) : Except Raised Unit := do
  require (s.reconnectExpectedState = some b) "reconnect SNAPSHOT differs from BOUNDARY_ACK state"
  match b with
  | .ready =>
    require (s.reconnectFrom = some .ready ∨ s.reconnectFrom = some .stopSent)
      "reconnect lifecycle state regressed"
  | .stopping n =>
    require (s.reconnectFrom = some .stopSent ∧ s.stopRequest = some n.1)
      "reconnect STOP identity is invalid"
  | .terminal n r =>
    require (¬(s.reconnectFrom = some .ready ∧ n ≠ none))
      "natural terminal snapshot has STOP identity"
    require (¬(s.reconnectFrom = some .stopSent ∧ n ≠ none ∧ n.map Subtype.val ≠ s.stopRequest))
      "terminal snapshot STOP identity is invalid"
    require (¬(s.reconnectFrom = some .terminal ∧
      (some r ≠ s.terminal ∨ n.map Subtype.val ≠ s.terminalStopRequest)))
      "terminal snapshot changed"

/-- The session after a TERMINAL. -/
def afterTerminal (wire : ℕ) (replyTo : Option ℕ) (r : Terminal) (acceptedHostWire : ℕ)
    (candidates : Option (Finset ℕ)) : HostOCIControlV2Session :=
  { s.afterLifecycle wire .terminal acceptedHostWire candidates with
    terminal := some (.mapping r)
    terminalStopRequest := replyTo }

/-- The session after a lifecycle message: a READY, a SNAPSHOT or a TERMINAL. -/
def acceptedLifecycle (wire : ℕ) (c : Content) : Except Raised HostOCIControlV2Session :=
  match s.state, c with
  | .keyAckSent, .ready _ replyTo _ =>
    if replyTo.1 = s.hostWire then .ok (s.afterSnapshot wire .ready s.hostWire)
    else .error (.protocol "guest lifecycle transition is invalid")
  | .reconnectSent, .snapshot _ replyTo state =>
    if some replyTo.1 = s.pendingRequest then do
      s.checkSnapshot (state.map .mapping)
      return s.afterSnapshot wire (state.map .mapping) (s.pendingHostWire.getD 0)
    else .error (.protocol "guest lifecycle transition is invalid")
  | .ready, .terminal _ none r => .ok (s.afterTerminal wire none r s.acceptedHostWire none)
  | .stopSent, .terminal _ none r =>
    .ok (s.afterTerminal wire none r s.acceptedHostWire
      (some {s.acceptedHostWire, s.stopWire.getD 0}))
  | .stopSent, .terminal _ (some n) r =>
    if some n.1 = s.stopRequest then
      -- a RECONNECT accepted after the STOP is the newest host wire
      if s.PastStops s.acceptedHostWire then
        .ok (s.afterTerminal wire (some n.1) r s.acceptedHostWire (some {s.acceptedHostWire}))
      else
        .ok (s.afterTerminal wire (some n.1) r (s.stopWire.getD 0) (some s.stopWireCandidates))
    else .error (.protocol "guest lifecycle transition is invalid")
  | _, _ => .error (.protocol "guest lifecycle transition is invalid")

/-- The session after a message that is authentic: the part of `accept` that needs no
cryptography. -/
def acceptedMessage (m : OCIControlV2Message) : Except Raised HostOCIControlV2Session := do
  require (m.bootAttemptId = s.bootAttemptId ∧ m.content.bootGeneration = s.bootGeneration)
    "guest lifecycle boot identity is stale"
  require (some m.hostNonce = s.nonce ∧ m.epoch.1 = s.epoch)
    "guest lifecycle nonce or epoch is stale"
  require (s.guestWire < m.wireSequence.1) "guest lifecycle wire ordering is stale"
  match m.content with
  | .execOutput _ replyTo o => s.acceptedExecOutput m.wireSequence.1 replyTo.1 o
  | .execExit _ replyTo x => s.acceptedExecExit m.wireSequence.1 replyTo.1 x
  | c =>
    require (¬(c.kind = .terminal ∧ s.execRequest ≠ none))
      "VM terminal preceded exec completion; command outcome uncertain"
    s.acceptedLifecycle m.wireSequence.1 c

/-- The session after a BOOTSTRAP, which is verified with the key it carries. -/
def acceptedBootstrap (e : OCIControlV2Envelope) (generation : Uuid) (replyTo : Counter)
    (bootKey : Hex32) : Except Raised HostOCIControlV2Session := do
  require (s.state = .helloSent ∧ some replyTo.1 = s.pendingRequest)
    "BOOTSTRAP transition is invalid"
  require (e.body.bootAttemptId = s.bootAttemptId ∧ some e.body.hostNonce = s.nonce)
    "BOOTSTRAP identity is stale"
  verifyMessageAuthentication e bootKey.toKey .channel
  require (e.body.epoch.1 = 1 ∧ e.body.wireSequence.1 = 1) "BOOTSTRAP ordering is stale"
  return s.afterBootstrap generation bootKey.toKey (e.mac.map Mac.keyId) e.body.wireSequence.1

/-- The session after an accepted message. -/
def accepted (e : OCIControlV2Envelope) : Except Raised HostOCIControlV2Session := do
  require (e.body.binding = s.binding) "guest lifecycle binding is invalid"
  match e.body.content with
  | .bootstrap generation replyTo bootKey => s.acceptedBootstrap e generation replyTo bootKey
  | _ =>
    match s.key, s.bootGeneration with
    | some key, some _ => do
      verifyMessageAuthentication e key .channel
      s.acceptedMessage e.body
    | _, _ => .error (.protocol "guest message arrived before BOOTSTRAP")

/-- `accept`: every check comes before the first write. -/
def accept (e : OCIControlV2Envelope) : Outcome Unit :=
  match s.accepted e with
  | .error r => (.error r, s)
  | .ok t => (.ok (), t)

end HostOCIControlV2Session

end Palimpsest.Control
