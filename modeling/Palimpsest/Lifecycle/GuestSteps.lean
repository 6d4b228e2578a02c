import Palimpsest.Lifecycle.SignedFrames

/-!
# The steps of the guest

What the guest does with a frame of the host, and everything else that changes its session: a
connection that is lost, the end of the workload, what it sends, and whatever becomes of a command.

The frames that it takes are exactly the messages of the host that are due
(`Palimpsest.Lifecycle.step_some_iff`), and everything else leaves what the session knows of the
host as it was (`Palimpsest.Lifecycle.Step.quiet`).
-/

namespace Palimpsest.Lifecycle

open Json
open Control (Uuid Digest Hex32 Counter OCIControlV2Envelope OCIControlV2Binding Content
  maxCounter counter_one encodeUtf8 signMessage zeroHello zeroKey zeroUuid)

namespace LifecycleSession

/-! ### Frames -/

/-- What becomes of a STOP: the values that `parse_stop` returns. -/
inductive StopOutcome
  | dispatched | duplicate | late
  deriving DecidableEq

/-- What `parse_stop` does with a STOP that was read. -/
def takeStop (s : LifecycleSession) (requestId wire : ℕ) :
    Option (LifecycleSession × StopOutcome) :=
  if s.stopRequestId ≠ 0 then
    if requestId ≠ s.stopRequestId ∨ s.state ≠ .stopping then none
    else some ({ s with lastAcceptedHostWire := wire }, .duplicate)
  else if s.state = .terminal ∨ s.naturalTerminalFrozen then
    -- the STOP lost the race with the end of the workload
    if !s.naturalLateStopAllowed ∨ s.requestSeen requestId ∨
        lifecycleRequestLedgerMax ≤ s.seenRequestIds.length then none
    else some ({ s with
      naturalLateStopAllowed := false
      seenRequestIds := s.seenRequestIds ++ [requestId]
      lastAcceptedHostWire := wire }, .late)
  else if s.state ≠ .ready ∨ s.requestSeen requestId ∨
      lifecycleRequestLedgerMax ≤ s.seenRequestIds.length then none
  else some ({ s with
    seenRequestIds := s.seenRequestIds ++ [requestId]
    stopRequestId := requestId
    lastAcceptedHostWire := wire
    state := .stopping
    stopDeliveredCount := s.stopDeliveredCount + 1 }, .dispatched)

/-- `parse_stop` -/
def parseStop (s : LifecycleSession) (payload : List UInt8) :
    Option (LifecycleSession × StopOutcome) := do
  let p ← s.parseSignedHost .stop payload
  p.1.takeStop p.2.requestId p.2.wire

/-- The session once a command is taken. -/
def afterExec (s : LifecycleSession) (h : SignedHost) : LifecycleSession :=
  { s with
    lastExecRequestId := h.requestId
    lastAcceptedHostWire := h.wire
    remoteExec := { s.remoteExec with pending := true } }

/-- `parse_exec` -/
def parseExec (s : LifecycleSession) (payload : List UInt8) : Option LifecycleSession := do
  let p ← s.parseSignedHost .exec payload
  return p.1.afterExec p.2

/-- The session once the KEY_ACK is taken. -/
def afterKeyAck (s : LifecycleSession) (h : SignedHost) : LifecycleSession :=
  { s with
    lastAcceptedHostWire := h.wire
    keyAckWireSequence := h.wire }

/-- What `authenticate_lifecycle_bootstrap` does with the frame that answers the BOOTSTRAP. -/
def parseKeyAck (s : LifecycleSession) (payload : List UInt8) : Option LifecycleSession := do
  let p ← s.parseSignedHost .keyAck payload
  return p.1.afterKeyAck p.2

/-- What `lifecycle_pump` does with a complete frame. -/
def pumpFrame (s : LifecycleSession) (payload : List UInt8) : Option LifecycleSession :=
  if s.outboundFailed then none
  else if !s.connectionHasHello then
    if s.keyAckWireSequence ≠ 0 then (s.parseSignedHost .reconnect payload).map Prod.fst
    else s.parseHello payload
  else match s.parseStop payload with
    | some p => some p.1
    | none => s.parseExec payload

/-! ### A lost connection -/

/-- What `send_boundary_ack` comes to: nothing was drawn, or an identifier was, and the line with
this digest was queued or not. -/
inductive BoundaryOutcome
  | unsent
  | drawn (boundaryId : Uuid) (digest : Digest) (queued : Bool)

/-- What `send_boundary_ack` does to the session, with the poison that a failure leaves. -/
def sendBoundaryAck (s : LifecycleSession) : BoundaryOutcome → LifecycleSession
  | .unsent => { s with nextSequence := s.nextSequence + 1, poisoned := true }
  | .drawn boundaryId digest queued =>
    -- the source draws until the identifier is new, so the second test only bars the others
    if lifecycleConnectionMax ≤ s.usedBoundaryIds.length ∨ boundaryId ∈ s.usedBoundaryIds then
      { s with nextSequence := s.nextSequence + 1, poisoned := true }
    else { s with
      nextSequence := s.nextSequence + 1
      usedBoundaryIds := s.usedBoundaryIds ++ [boundaryId]
      boundaryId := some boundaryId
      boundaryDigest := some digest
      poisoned := s.poisoned || !queued }

/-- `lifecycle_connection_lost` -/
def connectionLost (s : LifecycleSession) (outcome : BoundaryOutcome) : LifecycleSession :=
  let t := { s with
    connected := false
    connectionHasHello := false
    naturalLateStopAllowed := false
    outboundFailed := false }
  if s.connected ∧ s.keyAckWireSequence ≠ 0 then
    { t with epoch := s.epoch + 1 }.sendBoundaryAck outcome
  else t

/-! ### The rest of a boot -/

theorem zeroStatus_ok : 0 % 128 ≤ 64 := by decide

/-- The session when the first process starts: `memset`, and the first number to be sent. -/
def init (binding : OCIControlV2Binding) (workload : Stage1.Init.GuestProcess) (job : RemoteExec) :
    LifecycleSession where
  binding := binding
  workload := workload
  remoteExec := job
  poisoned := false
  connected := false
  connectionHasHello := false
  state := .new
  naturalTerminalFrozen := false
  naturalLateStopAllowed := false
  usedNonces := []
  seenRequestIds := []
  usedBoundaryIds := []
  outboundFailed := false
  stopDeliveredCount := 0
  terminalStatus := ⟨0, zeroStatus_ok⟩
  nextSequence := 1
  lastHelloRequestId := 0
  helloRequestId := 0
  stopRequestId := 0
  lastExecRequestId := 0
  epoch := 0
  lastAcceptedHostWire := 0
  connectionOpenerRequestId := 0
  bootstrapWireSequence := 0
  keyAckWireSequence := 0
  hostNonce := none
  bootAttemptId := none
  secret := none
  boundaryId := none
  boundaryDigest := none

/-- What the session is after `generate_boot_secret` and `send_bootstrap`. -/
def bootstrapped (s : LifecycleSession) (secret : BootSecret) (failed : Bool) : LifecycleSession :=
  { s with
    secret := some secret
    bootstrapWireSequence := s.nextSequence
    nextSequence := s.nextSequence + 1
    outboundFailed := failed }

/-- What the session is after a message to the host, whether it got through or not. -/
def answered (s : LifecycleSession) (failed : Bool) : LifecycleSession :=
  { s with nextSequence := s.nextSequence + 1, outboundFailed := failed }

/-- What the session is when the workload has ended by itself. -/
def naturalEnd (s : LifecycleSession) (status : WaitStatus) : LifecycleSession :=
  { s with
    naturalTerminalFrozen := true
    naturalLateStopAllowed := s.connectionHasHello
    terminalStatus := status }

/-- What the session is when nothing of the workload is left. -/
def ended (s : LifecycleSession) (status : WaitStatus) : LifecycleSession :=
  { s with state := .terminal, terminalStatus := status }

end LifecycleSession

open LifecycleSession

/-- One thing that happens to the session, with the frame that is taken. The order of the first
four is the one of the source; what becomes of a command is left open, since nothing but its record
and the numbers it is sent under depends on it. -/
inductive Step : LifecycleSession → Option (List UInt8) → LifecycleSession → Prop
  | hello {s t : LifecycleSession} {payload : List UInt8} (h : s.parseHello payload = some t) :
    Step s (some payload) t
  | bootstrap {s : LifecycleSession} (secret : BootSecret) (failed : Bool) (hnone : s.secret = none)
    (hhello : s.connectionHasHello = true) : Step s none (s.bootstrapped secret failed)
  | keyAck {s t : LifecycleSession} {payload : List UInt8} (hfirst : s.keyAckWireSequence = 0)
    (h : s.parseKeyAck payload = some t) : Step s (some payload) t
  | ready {s : LifecycleSession} (hnew : s.state = .new) (hack : s.keyAckWireSequence ≠ 0) :
    Step s none { s with state := .ready }
  | frame {s t : LifecycleSession} {payload : List UInt8} (h : s.pumpFrame payload = some t) :
    Step s (some payload) t
  -- what is refused may leave a part of a command behind
  | refused {s : LifecycleSession} (job : RemoteExec) :
    Step s none { s with remoteExec := job, poisoned := true }
  | arrived {s : LifecycleSession} : Step s none { s with connected := true }
  | lost {s : LifecycleSession} (outcome : BoundaryOutcome) : Step s none (s.connectionLost outcome)
  | answered {s : LifecycleSession} (failed : Bool) (hstate : s.state ≠ .new) :
    Step s none (s.answered failed)
  | command {s : LifecycleSession} (job : RemoteExec) (sent : ℕ) (hstate : s.state ≠ .new) :
    Step s none { s with remoteExec := job, nextSequence := s.nextSequence + sent }
  | naturalEnd {s : LifecycleSession} (status : WaitStatus) (hstop : s.stopRequestId = 0)
    (hstate : s.state ≠ .new) : Step s none (s.naturalEnd status)
  | ended {s : LifecycleSession} (status : WaitStatus) (hstate : s.state ≠ .new) :
    Step s none (s.ended status)

/-! ### What a frame can do -/

/-- A nonce and a request that the ledgers do not know and have room for. -/
def LifecycleSession.Fresh (s : LifecycleSession) (nonce : Hex32) (requestId : ℕ) : Prop :=
  (s.usedNonces.length < lifecycleConnectionMax ∧
    s.seenRequestIds.length < lifecycleRequestLedgerMax) ∧
    nonce ∉ s.usedNonces ∧ s.lastExecRequestId < requestId ∧ requestId ∉ s.seenRequestIds

/-- The session with a nonce and a request in its ledgers. -/
def LifecycleSession.remembered (s : LifecycleSession) (nonce : Hex32) (requestId : ℕ) :
    LifecycleSession :=
  { s with
    usedNonces := s.usedNonces ++ [nonce]
    seenRequestIds := s.seenRequestIds ++ [requestId] }

/-- The session with a command that is to be started. -/
def LifecycleSession.commanded (s : LifecycleSession) (h : SignedHost) : LifecycleSession :=
  { s with remoteExec := { s.remoteExec with
      process := { s.workload with argv := h.argv }
      requestId := h.requestId
      timeoutMs := h.timeoutMs } }

/-- What is read of a signed message. -/
def viewOf (e : OCIControlV2Envelope) (p : HostPayload) (n : Counter) : SignedHost :=
  hostView e.body.hostNonce p n.1 e.body.wireSequence.1

/-- A message that the session is waiting for, newer than all those before it. -/
structure Due (s : LifecycleSession) (p : HostPayload) (n : Counter) (e : OCIControlV2Envelope) :
    Prop where
  addressed : ∃ i, s.identity = some i ∧ s.Addressed i p n e
  newer : s.lastAcceptedHostWire < e.body.wireSequence.1

/-- What a session becomes when it takes a message, one case for each kind. -/
inductive Taken (s : LifecycleSession) (e : OCIControlV2Envelope) : LifecycleSession → Prop
  | hello {n : Counter} (hgreets : Greets s.binding e n)
    (hfirst : s.connectionHasHello = false ∧ s.lastHelloRequestId = 0)
    (hfresh : s.Fresh e.body.hostNonce n.1) :
    Taken s e ((s.remembered e.body.hostNonce n.1).afterHello (helloOf e.body n))
  | keyAck {n : Counter} (hdue : Due s .keyAck n e)
    (hopen : s.connectionHasHello = true ∧ s.keyAckWireSequence = 0)
    (hnext : s.epoch = 1 ∧ e.body.wireSequence.1 = s.lastAcceptedHostWire + 1) :
    Taken s e (s.afterKeyAck (viewOf e .keyAck n))
  | reconnect {n : Counter} {digest : Digest} {boundaryId : Uuid}
    (hdue : Due s (.reconnect digest boundaryId) n e)
    (hclosed : s.connectionHasHello = false ∧ s.keyAckWireSequence ≠ 0)
    (hsent : s.outboundFailed = false) (hfresh : s.Fresh e.body.hostNonce n.1) :
    Taken s e ((s.remembered e.body.hostNonce n.1).afterReconnect
      (viewOf e (.reconnect digest boundaryId) n))
  | stop {n : Counter} {t : LifecycleSession} {outcome : StopOutcome} (hdue : Due s .stop n e)
    (hopen : s.connectionHasHello = true) (hsent : s.outboundFailed = false)
    (htake : s.takeStop n.1 e.body.wireSequence.1 = some (t, outcome)) : Taken s e t
  | exec {n : Counter} {argv timeoutMs} (hdue : Due s (.exec argv timeoutMs) n e)
    (hopen : s.connectionHasHello = true) (hsent : s.outboundFailed = false)
    (hseen : s.lastExecRequestId < n.1 ∧ n.1 ∉ s.seenRequestIds) :
    Taken s e ((s.commanded (viewOf e (.exec argv timeoutMs) n)).afterExec
      (viewOf e (.exec argv timeoutMs) n))

/-- What holds of the session throughout a boot. -/
structure Steady (s : LifecycleSession) : Prop where
  hello : s.lastHelloRequestId = 0 → s.lastAcceptedHostWire = 0 ∧ s.secret = none
  epoch : s.lastHelloRequestId ≠ 0 → 1 ≤ s.epoch
  opened : s.connectionHasHello = true → s.connected = true ∧ s.lastHelloRequestId ≠ 0
  secret : s.secret = none → s.nextSequence = 1 ∧ s.keyAckWireSequence = 0 ∧ s.state = .new
  bootstrap : s.secret ≠ none → s.bootstrapWireSequence = 1
  reconnect : s.keyAckWireSequence ≠ 0 → s.connectionHasHello = true ∨ 1 < s.epoch
  stop : s.stopDeliveredCount = if s.stopRequestId = 0 then 0 else 1

variable {s t u : LifecycleSession} {payload : List UInt8}

theorem exists_identity {kind : HostKind} {x : LifecycleSession × SignedHost}
    (h : s.parseSignedHost kind payload = some x) : ∃ i, s.identity = some i := by
  rw [parseSignedHost] at h
  cases hidentity : s.identity with
  | none =>
    rw [hidentity] at h
    cases h
  | some i => exact ⟨i, rfl⟩

/-- A guest that has drawn its key has been greeted. -/
theorem Steady.hello_ne_zero (hs : Steady s) (hsecret : s.secret ≠ none) :
    s.lastHelloRequestId ≠ 0 :=
  fun h => hsecret (hs.hello h).2

theorem Steady.awaits (hs : Steady s) (hepoch : s.epoch ≤ maxCounter) {i : BootIdentity}
    (hidentity : s.identity = some i) {kind : HostKind}
    (hkind : kind = .reconnect → s.connectionHasHello = false ∧ s.keyAckWireSequence ≠ 0) :
    s.Awaits kind := by
  have hsecret : s.secret ≠ none := by
    rw [(identity_eq_some.mp hidentity).2.2]
    exact Option.some_ne_none _
  have hhello := hs.hello_ne_zero hsecret
  refine ⟨⟨hs.epoch hhello, hepoch⟩, fun h => ?_, fun _ => ?_⟩
  · obtain ⟨hclosed, hack⟩ := hkind h
    exact (hs.reconnect hack).resolve_left (by rw [hclosed]; exact Bool.false_ne_true)
  · rw [hs.bootstrap hsecret]
    exact ⟨Nat.le_refl 1, by decide⟩

/-- What is read as a signed message is one, and it is newer than those before it. -/
theorem exists_due (hs : Steady s) (hepoch : s.epoch ≤ maxCounter) {kind : HostKind}
    {h : SignedHost} (hparse : s.parseSignedHost kind payload = some (t, h))
    (hkind : kind = .reconnect → s.connectionHasHello = false ∧ s.keyAckWireSequence ≠ 0) :
    (kind = .reconnect ∨ s.connectionHasHello = true) ∧ ∃ e p n, p.kind = kind ∧ Due s p n e ∧
      payload = encodeUtf8 e.text ∧ h = viewOf e p n ∧ s.takeSigned kind h = some t := by
  obtain ⟨i, hidentity⟩ := exists_identity hparse
  obtain ⟨hopen, e, p, n, hp, haddressed, hpayload, hview, htake⟩ :=
    (parseSignedHost_eq_some hidentity (hs.awaits hepoch hidentity hkind)).mp hparse
  -- the order of the numbers is checked for every kind
  have hwire : ¬h.wire ≤ s.lastAcceptedHostWire := fun hle => by
    unfold takeSigned at htake
    rw [if_pos hle] at htake
    cases htake
  rw [hview] at hwire
  exact ⟨hopen, e, p, n, hp, ⟨⟨i, hidentity, haddressed⟩, Nat.lt_of_not_le hwire⟩, hpayload, hview,
    htake⟩

section
variable {e : OCIControlV2Envelope} {p : HostPayload} {n : Counter}

/-- A message that is due is read. -/
theorem Due.parse (hs : Steady s) (hepoch : s.epoch ≤ maxCounter) (hdue : Due s p n e)
    (hopen : p.kind = .reconnect ∨ s.connectionHasHello = true)
    (hkind : p.kind = .reconnect → s.connectionHasHello = false ∧ s.keyAckWireSequence ≠ 0)
    (htake : s.takeSigned p.kind (viewOf e p n) = some t) :
    s.parseSignedHost p.kind (encodeUtf8 e.text) = some (t, viewOf e p n) := by
  obtain ⟨i, hidentity, haddressed⟩ := hdue.addressed
  exact (parseSignedHost_eq_some hidentity (hs.awaits hepoch hidentity hkind)).mpr
    ⟨hopen, e, p, n, rfl, haddressed, rfl, rfl, htake⟩

theorem takeSigned_keyAck_eq_some (hdue : Due s .keyAck n e) :
    s.takeSigned .keyAck (viewOf e .keyAck n) = some t ↔
      (s.epoch = 1 ∧ e.body.wireSequence.1 = s.lastAcceptedHostWire + 1) ∧ t = s := by
  have hwire : (viewOf e .keyAck n).wire = e.body.wireSequence.1 := rfl
  have hlast : s.lastAcceptedHostWire ≠ 0x7fffffffffffffff := fun hlast => by
    have hbound : e.body.wireSequence.1 ≤ 0x7fffffffffffffff := e.body.wireSequence.2.2
    have hnewer := hdue.newer
    omega
  rw [takeSigned, hwire, if_neg (Nat.not_le_of_lt hdue.newer),
    Option.ite_none_left_eq_some, not_or, not_or, not_not, not_not, and_iff_right hlast,
    Option.some.injEq, eq_comm (a := s)]

theorem takeSigned_reconnect_eq_some {digest : Digest} {boundaryId : Uuid}
    (hdue : Due s (.reconnect digest boundaryId) n e) :
    s.takeSigned .reconnect (viewOf e (.reconnect digest boundaryId) n) = some t ↔
      s.Fresh e.body.hostNonce n.1 ∧ t = (s.remembered e.body.hostNonce n.1).afterReconnect
        (viewOf e (.reconnect digest boundaryId) n) := by
  have hrequest : (viewOf e (.reconnect digest boundaryId) n).requestId = n.1 := rfl
  have hnonce : (viewOf e (.reconnect digest boundaryId) n).nonce = e.body.hostNonce := rfl
  have hwire : (viewOf e (.reconnect digest boundaryId) n).wire = e.body.wireSequence.1 := rfl
  rw [takeSigned, hwire, if_neg (Nat.not_le_of_lt hdue.newer), hrequest, hnonce,
    Option.ite_none_left_eq_some, Bool.not_eq_true, requestSeen_eq_false n.2.1,
    Option.map_eq_some_iff]
  simp only [rememberNonceRequest_eq_some n.2.1]
  constructor
  · rintro ⟨-, _, ⟨hfresh, rfl⟩, rfl⟩
    exact ⟨hfresh, rfl⟩
  · rintro ⟨hfresh, rfl⟩
    exact ⟨hfresh.2.2, _, ⟨hfresh, rfl⟩, rfl⟩

theorem takeSigned_stop_eq_some (hdue : Due s .stop n e) :
    s.takeSigned .stop (viewOf e .stop n) = some t ↔ t = s := by
  have hwire : (viewOf e .stop n).wire = e.body.wireSequence.1 := rfl
  rw [takeSigned, hwire, if_neg (Nat.not_le_of_lt hdue.newer)]
  exact Option.some_inj.trans eq_comm

theorem takeSigned_exec_eq_some {argv timeoutMs} (hdue : Due s (.exec argv timeoutMs) n e) :
    s.takeSigned .exec (viewOf e (.exec argv timeoutMs) n) = some t ↔
      (s.lastExecRequestId < n.1 ∧ n.1 ∉ s.seenRequestIds) ∧
        t = s.commanded (viewOf e (.exec argv timeoutMs) n) := by
  have hrequest : (viewOf e (.exec argv timeoutMs) n).requestId = n.1 := rfl
  have hwire : (viewOf e (.exec argv timeoutMs) n).wire = e.body.wireSequence.1 := rfl
  rw [takeSigned, hwire, if_neg (Nat.not_le_of_lt hdue.newer)]
  dsimp only
  rw [hrequest, Option.ite_none_left_eq_some, Bool.not_eq_true, requestSeen_eq_false n.2.1,
    Option.some.injEq]
  exact and_congr_right' eq_comm

theorem takeHello_eq_some {h : Hello} (hpos : 1 ≤ h.requestId) : s.takeHello h = some t ↔
    (s.connectionHasHello = false ∧ s.lastHelloRequestId = 0) ∧ s.Fresh h.nonce h.requestId ∧
      t = (s.remembered h.nonce h.requestId).afterHello h := by
  rw [takeHello]
  split_ifs with hused
  · refine iff_of_false (by rintro ⟨⟩) ?_
    rintro ⟨⟨hclosed, hfirst⟩, -⟩
    rcases hused with hopen | hagain
    · rw [hclosed] at hopen
      cases hopen
    · exact hagain hfirst
  · rw [not_or, Bool.not_eq_true, not_not] at hused
    rw [and_iff_right hused, Option.bind_eq_bind, Option.bind_eq_some_iff]
    simp only [rememberNonceRequest_eq_some hpos, Option.pure_def, Option.some.injEq]
    constructor
    · rintro ⟨_, ⟨hfresh, rfl⟩, rfl⟩
      exact ⟨hfresh, rfl⟩
    · rintro ⟨hfresh, rfl⟩
      exact ⟨_, ⟨hfresh, rfl⟩, rfl⟩

end

theorem taken_hello (h : s.parseHello payload = some t) :
    ∃ e, payload = encodeUtf8 e.text ∧ Taken s e t := by
  obtain ⟨e, n, hgreets, hpayload, htake⟩ := parseHello_eq_some.mp h
  obtain ⟨hfirst, hfresh, rfl⟩ := (takeHello_eq_some n.2.1).mp htake
  exact ⟨e, hpayload, .hello hgreets hfirst hfresh⟩

/-- What a frame can do that the guest takes: it is a message of the host, and the session becomes
what the case of its kind says. -/
theorem Step.taken (hs : Steady s) (hepoch : s.epoch ≤ maxCounter)
    (h : Step s (some payload) t) : ∃ e, payload = encodeUtf8 e.text ∧ Taken s e t := by
  cases h with
  | hello h => exact taken_hello h
  | keyAck hfirst h =>
    obtain ⟨⟨t', view⟩, hparse, heq⟩ := Option.bind_eq_some_iff.mp h
    obtain rfl := Option.some.inj heq
    obtain ⟨hopen, e, p, n, hp, hdue, hpayload, rfl, htake⟩ :=
      exists_due hs hepoch hparse (by rintro ⟨⟩)
    cases p with
    | keyAck =>
      obtain ⟨hnext, rfl⟩ := (takeSigned_keyAck_eq_some hdue).mp htake
      exact ⟨e, hpayload, .keyAck hdue ⟨hopen.resolve_left (by rintro ⟨⟩), hfirst⟩ hnext⟩
    | _ => cases hp
  | frame h =>
    rw [pumpFrame] at h
    split_ifs at h with hfailed hclosed hack
    · obtain ⟨⟨t', view⟩, hparse, rfl⟩ := Option.map_eq_some_iff.mp h
      rw [Bool.not_eq_true'] at hclosed
      obtain ⟨-, e, p, n, hp, hdue, hpayload, rfl, htake⟩ :=
        exists_due hs hepoch hparse fun _ => ⟨hclosed, hack⟩
      cases p with
      | reconnect digest boundaryId =>
        obtain ⟨hfresh, rfl⟩ := (takeSigned_reconnect_eq_some hdue).mp htake
        exact ⟨e, hpayload, .reconnect hdue ⟨hclosed, hack⟩ (Bool.not_eq_true _ ▸ hfailed) hfresh⟩
      | _ => cases hp
    · exact taken_hello h
    · rw [Bool.not_eq_true', Bool.not_eq_false] at hclosed
      -- a STOP is tried first, and a command where the frame is none
      split at h
      · next p hstop =>
        obtain rfl := Option.some.inj h
        obtain ⟨⟨t', view⟩, hparse, htake⟩ := Option.bind_eq_some_iff.mp hstop
        obtain ⟨-, e, p', n, hp, hdue, hpayload, rfl, hsigned⟩ :=
          exists_due hs hepoch hparse (by rintro ⟨⟩)
        cases p' with
        | stop =>
          obtain rfl := (takeSigned_stop_eq_some hdue).mp hsigned
          exact ⟨e, hpayload, .stop hdue hclosed (Bool.not_eq_true _ ▸ hfailed) htake⟩
        | _ => cases hp
      · obtain ⟨⟨t', view⟩, hparse, heq⟩ := Option.bind_eq_some_iff.mp h
        obtain rfl := Option.some.inj heq
        obtain ⟨-, e, p', n, hp, hdue, hpayload, rfl, hsigned⟩ :=
          exists_due hs hepoch hparse (by rintro ⟨⟩)
        cases p' with
        | exec argv timeoutMs =>
          obtain ⟨hseen, rfl⟩ := (takeSigned_exec_eq_some hdue).mp hsigned
          exact ⟨e, hpayload, .exec hdue hclosed (Bool.not_eq_true _ ▸ hfailed) hseen⟩
        | _ => cases hp

theorem Due.content {p : HostPayload} {n : Counter} {e : OCIControlV2Envelope} (h : Due s p n e) :
    ∃ generation, e.body.content = p.content generation n := by
  obtain ⟨i, -, haddressed⟩ := h.addressed
  exact ⟨_, haddressed.content⟩

/-- What is due is read back from its text by the decoder of the host. -/
theorem Due.decode {p : HostPayload} {n : Counter} {e : OCIControlV2Envelope} (h : Due s p n e) :
    Control.decodePayload (encodeUtf8 e.text) = .ok e := by
  obtain ⟨generation, hcontent⟩ := h.content
  refine Control.decodePayload_text ?_
  rw [hcontent]
  cases p <;> exact trivial

/-- A command is not taken for a STOP, since no text is the text of two messages. -/
theorem parseStop_exec (hs : Steady s) (hepoch : s.epoch ≤ maxCounter) {n : Counter}
    {argv timeoutMs} {e : OCIControlV2Envelope} (hdue : Due s (.exec argv timeoutMs) n e) :
    s.parseStop (encodeUtf8 e.text) = none := by
  rw [Option.eq_none_iff_forall_ne_some]
  intro x hstop
  obtain ⟨⟨t', view⟩, hparse, -⟩ := Option.bind_eq_some_iff.mp hstop
  obtain ⟨-, e', p', n', hp, hdue', htext, -, -⟩ := exists_due hs hepoch hparse (by rintro ⟨⟩)
  have hsame : e = e' := by
    have hdecode := hdue'.decode
    rw [← htext, hdue.decode] at hdecode
    exact Except.ok.inj hdecode
  subst hsame
  obtain ⟨generation, hcontent⟩ := hdue.content
  obtain ⟨generation', hcontent'⟩ := hdue'.content
  rw [hcontent] at hcontent'
  cases p' with
  | stop => cases hcontent'
  | _ => cases hp

/-- Conversely, the guest takes such a message. -/
theorem Taken.step (hs : Steady s) (hepoch : s.epoch ≤ maxCounter) {e : OCIControlV2Envelope}
    (h : Taken s e t) : Step s (some (encodeUtf8 e.text)) t := by
  cases h with
  | hello hgreets hfirst hfresh =>
    rename_i n
    exact .hello (parseHello_eq_some.mpr ⟨e, n, hgreets, rfl,
      (takeHello_eq_some n.2.1).mpr ⟨hfirst, hfresh, rfl⟩⟩)
  | keyAck hdue hopen hnext =>
    have hparse := hdue.parse hs hepoch (.inr hopen.1) (by rintro ⟨⟩)
      ((takeSigned_keyAck_eq_some hdue).mpr ⟨hnext, rfl⟩)
    exact .keyAck hopen.2 (Option.bind_eq_some_iff.mpr ⟨_, hparse, rfl⟩)
  | reconnect hdue hclosed hsent hfresh =>
    have hparse := hdue.parse hs hepoch (.inl rfl) (fun _ => hclosed)
      ((takeSigned_reconnect_eq_some hdue).mpr ⟨hfresh, rfl⟩)
    refine .frame ?_
    rw [pumpFrame, hsent, hclosed.1, if_neg Bool.false_ne_true, if_pos (by decide),
      if_pos hclosed.2]
    exact congrArg (Option.map Prod.fst) hparse
  | stop hdue hopen hsent htake =>
    have hparse := hdue.parse hs hepoch (.inr hopen) (by rintro ⟨⟩)
      ((takeSigned_stop_eq_some hdue).mpr rfl)
    have hstop : s.parseStop (encodeUtf8 e.text) = some (t, _) :=
      Option.bind_eq_some_iff.mpr ⟨_, hparse, htake⟩
    refine .frame ?_
    rw [pumpFrame, hsent, hopen, if_neg Bool.false_ne_true, if_neg (by decide), hstop]
  | exec hdue hopen hsent hseen =>
    have hparse := hdue.parse hs hepoch (.inr hopen) (by rintro ⟨⟩)
      ((takeSigned_exec_eq_some hdue).mpr ⟨hseen, rfl⟩)
    refine .frame ?_
    rw [pumpFrame, hsent, hopen, if_neg Bool.false_ne_true, if_neg (by decide),
      parseStop_exec hs hepoch hdue]
    exact Option.bind_eq_some_iff.mpr ⟨_, hparse, rfl⟩

/-! ### What stays as it is -/

theorem steady_init (binding : OCIControlV2Binding) (workload : Stage1.Init.GuestProcess)
    (job : RemoteExec) : Steady (init binding workload job) where
  hello _ := ⟨rfl, rfl⟩
  epoch h := absurd rfl h
  opened h := absurd h Bool.false_ne_true
  secret _ := ⟨rfl, rfl, rfl⟩
  bootstrap h := absurd rfl h
  reconnect h := absurd rfl h
  stop := rfl

theorem Due.secret_ne_none {p : HostPayload} {n : Counter} {e : OCIControlV2Envelope}
    (h : Due s p n e) : s.secret ≠ none := by
  obtain ⟨i, hidentity, -⟩ := h.addressed
  rw [(identity_eq_some.mp hidentity).2.2]
  exact Option.some_ne_none _

/-- What a STOP leaves alone, and what it counts. -/
structure StopSpec (s : LifecycleSession) (n wire : ℕ) (t : LifecycleSession) : Prop where
  binding : t.binding = s.binding
  attempt : t.bootAttemptId = s.bootAttemptId
  secret : t.secret = s.secret
  sequences : t.nextSequence = s.nextSequence ∧ t.bootstrapWireSequence = s.bootstrapWireSequence ∧
    t.keyAckWireSequence = s.keyAckWireSequence
  opened : t.connected = s.connected ∧ t.connectionHasHello = s.connectionHasHello
  hello : t.lastHelloRequestId = s.lastHelloRequestId
  epoch : t.epoch = s.epoch
  wire : t.lastAcceptedHostWire = wire
  nonces : t.usedNonces = s.usedNonces
  requests : s.seenRequestIds ⊆ t.seenRequestIds ∧ t.lastExecRequestId = s.lastExecRequestId
  count : s.stopDeliveredCount = (if s.stopRequestId = 0 then 0 else 1) →
    t.stopDeliveredCount = if t.stopRequestId = 0 then 0 else 1

theorem takeStop_spec {n wire : ℕ} (hpos : 1 ≤ n) {outcome : StopOutcome}
    (h : s.takeStop n wire = some (t, outcome)) : StopSpec s n wire t := by
  rw [takeStop] at h
  split_ifs at h with hstopped hagain hended hlate hready
  · obtain ⟨rfl, -⟩ := Prod.mk.inj (Option.some.inj h)
    exact ⟨rfl, rfl, rfl, ⟨rfl, rfl, rfl⟩, ⟨rfl, rfl⟩, rfl, rfl, rfl, rfl,
      ⟨List.Subset.refl _, rfl⟩, id⟩
  · obtain ⟨rfl, -⟩ := Prod.mk.inj (Option.some.inj h)
    exact ⟨rfl, rfl, rfl, ⟨rfl, rfl, rfl⟩, ⟨rfl, rfl⟩, rfl, rfl, rfl, rfl,
      ⟨List.subset_append_left _ _, rfl⟩, id⟩
  · obtain ⟨rfl, -⟩ := Prod.mk.inj (Option.some.inj h)
    refine ⟨rfl, rfl, rfl, ⟨rfl, rfl, rfl⟩, ⟨rfl, rfl⟩, rfl, rfl, rfl, rfl,
      ⟨List.subset_append_left _ _, rfl⟩, fun hcount => ?_⟩
    -- the first STOP: none has been carried out before
    rw [not_not] at hstopped
    rw [if_pos hstopped] at hcount
    have hne : n ≠ 0 := by omega
    dsimp only
    rw [hcount, if_neg hne]

theorem Taken.steady {e : OCIControlV2Envelope} (hs : Steady s) (h : Taken s e t) : Steady t := by
  cases h with
  | hello hgreets hfirst hfresh =>
    rename_i n
    -- before its HELLO a guest has no key, and what is said of the key holds trivially
    have hne : n.1 ≠ 0 := by
      have hpos := n.2.1
      omega
    have hsecret := (hs.hello hfirst.2).2
    exact ⟨fun h => absurd h hne, fun _ => Nat.le_refl 1, fun _ => ⟨rfl, hne⟩,
      fun _ => hs.secret hsecret, fun h => absurd hsecret h, fun _ => Or.inl rfl, hs.stop⟩
  | keyAck hdue hopen hnext =>
    have hsecret := hdue.secret_ne_none
    have hhello := hs.hello_ne_zero hsecret
    exact ⟨fun h => absurd h hhello, hs.epoch, hs.opened, fun h => absurd h hsecret, hs.bootstrap,
      fun _ => Or.inl hopen.1, hs.stop⟩
  | reconnect hdue hclosed hsent hfresh =>
    have hsecret := hdue.secret_ne_none
    have hhello := hs.hello_ne_zero hsecret
    exact ⟨fun h => absurd h hhello, hs.epoch, fun _ => ⟨rfl, hhello⟩, fun h => absurd h hsecret,
      hs.bootstrap, fun _ => Or.inl rfl, hs.stop⟩
  | stop hdue hopen hsent htake =>
    rename_i n outcome
    have hsecret := hdue.secret_ne_none
    have hhello := hs.hello_ne_zero hsecret
    have hspec := takeStop_spec n.2.1 htake
    refine ⟨fun h => ?_, fun h => ?_, fun h => ?_, fun h => ?_, fun h => ?_, fun h => ?_,
      hspec.count hs.stop⟩
    · rw [hspec.hello] at h
      exact absurd h hhello
    · rw [hspec.epoch]
      exact hs.epoch hhello
    · rw [hspec.opened.2] at h
      rw [hspec.opened.1, hspec.hello]
      exact hs.opened h
    · rw [hspec.secret] at h
      exact absurd h hsecret
    · rw [hspec.sequences.2.1]
      exact hs.bootstrap hsecret
    · rw [hspec.sequences.2.2] at h
      rw [hspec.opened.2, hspec.epoch]
      exact hs.reconnect h
  | exec hdue hopen hsent hseen =>
    have hsecret := hdue.secret_ne_none
    have hhello := hs.hello_ne_zero hsecret
    exact ⟨fun h => absurd h hhello, hs.epoch, hs.opened, fun h => absurd h hsecret, hs.bootstrap,
      hs.reconnect, hs.stop⟩

/-- What no step changes but one that takes a message. -/
structure Quiet (s t : LifecycleSession) : Prop where
  binding : t.binding = s.binding
  identity : ∀ i, s.identity = some i → t.identity = some i
  wire : t.lastAcceptedHostWire = s.lastAcceptedHostWire
  nonces : t.usedNonces = s.usedNonces
  requests : t.seenRequestIds = s.seenRequestIds ∧ t.lastExecRequestId = s.lastExecRequestId

/-- What the attempt to acknowledge a boundary leaves alone. -/
theorem sendBoundaryAck_spec (s : LifecycleSession) (outcome : BoundaryOutcome) :
    ∃ used boundaryId boundaryDigest poisoned, s.sendBoundaryAck outcome = { s with
      nextSequence := s.nextSequence + 1
      usedBoundaryIds := used
      boundaryId := boundaryId
      boundaryDigest := boundaryDigest
      poisoned := poisoned } := by
  cases outcome with
  | unsent => exact ⟨_, _, _, _, rfl⟩
  | drawn boundaryId digest queued =>
    rw [sendBoundaryAck]
    split_ifs
    · exact ⟨_, _, _, _, rfl⟩
    · exact ⟨_, _, _, _, rfl⟩

/-- **A step that takes no message** leaves what the session knows of the host. -/
theorem Step.quiet (hs : Steady s) (h : Step s none t) : Steady t ∧ Quiet s t := by
  have hsecret (hstate : s.state ≠ .new) : s.secret ≠ none := fun h => hstate (hs.secret h).2.2
  cases h with
  | bootstrap secret failed hnone hhello =>
    -- nothing has been sent before, so the BOOTSTRAP goes out under the first number
    obtain ⟨hnext, hack, hnew⟩ := hs.secret hnone
    have hopened := hs.opened hhello
    refine ⟨⟨fun h => absurd h hopened.2, hs.epoch, hs.opened, ?_, fun _ => hnext, hs.reconnect,
      hs.stop⟩, rfl, fun i hi => ?_, rfl, rfl, rfl, rfl⟩
    · rintro ⟨⟩
    · rw [(identity_eq_some.mp hi).2.2] at hnone
      cases hnone
  | ready hnew hack =>
    refine ⟨⟨hs.hello, hs.epoch, hs.opened, fun h => absurd (hs.secret h).2.1 hack, hs.bootstrap,
      hs.reconnect, hs.stop⟩, rfl, fun i hi => hi, rfl, rfl, rfl, rfl⟩
  | refused job =>
    exact ⟨⟨hs.hello, hs.epoch, hs.opened, hs.secret, hs.bootstrap, hs.reconnect, hs.stop⟩,
      rfl, fun i hi => hi, rfl, rfl, rfl, rfl⟩
  | arrived =>
    exact ⟨⟨hs.hello, hs.epoch, fun h => ⟨rfl, (hs.opened h).2⟩, hs.secret, hs.bootstrap,
      hs.reconnect, hs.stop⟩, rfl, fun i hi => hi, rfl, rfl, rfl, rfl⟩
  | lost outcome =>
    rw [connectionLost]
    split_ifs with hadmitted
    · have hack := hadmitted.2
      have hhello : s.lastHelloRequestId ≠ 0 := fun h => hack (hs.secret (hs.hello h).2).2.1
      have hepoch := hs.epoch hhello
      obtain ⟨used, boundaryId, digest, poisoned, heq⟩ := sendBoundaryAck_spec
        { s with
          connected := false
          connectionHasHello := false
          naturalLateStopAllowed := false
          outboundFailed := false
          epoch := s.epoch + 1 } outcome
      rw [heq]
      exact ⟨⟨fun h => absurd h hhello, fun _ => Nat.le_add_left 1 _,
        fun h => absurd h Bool.false_ne_true, fun h => absurd (hs.secret h).2.1 hack, hs.bootstrap,
        fun _ => Or.inr (Nat.lt_succ_of_le hepoch), hs.stop⟩, rfl, fun i hi => hi, rfl, rfl, rfl,
        rfl⟩
    · refine ⟨⟨hs.hello, hs.epoch, fun h => absurd h Bool.false_ne_true, hs.secret, hs.bootstrap,
        fun h => ?_, hs.stop⟩, rfl, fun i hi => hi, rfl, rfl, rfl, rfl⟩
      -- a connection that was opened is a connection
      refine Or.inr ((hs.reconnect h).resolve_left fun hopen => hadmitted ⟨(hs.opened hopen).1, h⟩)
  | answered failed hstate =>
    exact ⟨⟨hs.hello, hs.epoch, hs.opened, fun h => absurd h (hsecret hstate), hs.bootstrap,
      hs.reconnect, hs.stop⟩, rfl, fun i hi => hi, rfl, rfl, rfl, rfl⟩
  | command job sent hstate =>
    exact ⟨⟨hs.hello, hs.epoch, hs.opened, fun h => absurd h (hsecret hstate), hs.bootstrap,
      hs.reconnect, hs.stop⟩, rfl, fun i hi => hi, rfl, rfl, rfl, rfl⟩
  | naturalEnd status hstop hstate =>
    exact ⟨⟨hs.hello, hs.epoch, hs.opened, hs.secret, hs.bootstrap, hs.reconnect, hs.stop⟩,
      rfl, fun i hi => hi, rfl, rfl, rfl, rfl⟩
  | ended status hstate =>
    exact ⟨⟨hs.hello, hs.epoch, hs.opened, fun h => absurd h (hsecret hstate), hs.bootstrap,
      hs.reconnect, hs.stop⟩, rfl, fun i hi => hi, rfl, rfl, rfl, rfl⟩

/-- **What a frame can do.** The guest takes the messages of the host that are due, and no other
frames. -/
theorem step_some_iff (hs : Steady s) (hepoch : s.epoch ≤ maxCounter) :
    Step s (some payload) t ↔ ∃ e, payload = encodeUtf8 e.text ∧ Taken s e t := by
  refine ⟨Step.taken hs hepoch, ?_⟩
  rintro ⟨e, rfl, h⟩
  exact h.step hs hepoch

def sampleWorkload : Stage1.Init.GuestProcess :=
  ⟨[encodeUtf8 "/bin/sh".toList], [], encodeUtf8 "/".toList, ⟨[], [], 0, 0, true, false, false⟩, 15⟩

/-- No command has been started. -/
def idle (p : Stage1.Init.GuestProcess) : RemoteExec where
  process := p
  requestId := 0
  timeoutMs := 0
  pending := false
  active := false
  phase := .isolating
  started := false
  reaped := false
  status := ⟨0, zeroStatus_ok⟩
  reason := .completed
  killed := false
  outputOpen _ := false
  bytes _ := 0
  wire := []
  wireSent := 0

/-- The session of a guest that has just been started. -/
def sampleSession : LifecycleSession :=
  init zeroHello.body.binding sampleWorkload (idle sampleWorkload)

/-- The session once the HELLO whose identifiers are zeros is taken. -/
def greeted : LifecycleSession :=
  (sampleSession.remembered zeroHello.body.hostNonce 1).afterHello
    (helloOf zeroHello.body ⟨1, counter_one⟩)

theorem taken_zeroHello : Taken sampleSession zeroHello greeted :=
  Taken.hello (n := ⟨1, counter_one⟩) ⟨rfl, rfl, rfl⟩ ⟨rfl, rfl⟩
    ⟨⟨by decide, by decide⟩, List.not_mem_nil, Nat.zero_lt_one, List.not_mem_nil⟩

/-! ### What the host can sign -/

/-- The host can sign what the session admits, and what it signs is due if its number is new. -/
theorem LifecycleSession.Awaits.exists_due {i : BootIdentity} (hidentity : s.identity = some i)
    {p : HostPayload} (n wire : Counter) {nonce : Hex32} (hawaits : s.Awaits p.kind)
    (hack : p.kind = .keyAck → s.epoch = 1) (hadmits : s.Admits nonce p n.1 wire.1)
    (hwire : s.lastAcceptedHostWire < wire.1) :
    ∃ e : OCIControlV2Envelope, e.body.content = p.content i.bootGeneration n ∧
      e.body.hostNonce = nonce ∧ e.body.wireSequence = wire ∧ Due s p n e := by
  have hok : (p.content i.bootGeneration n).EpochOk s.epoch :=
    HostPayload.content_epochOk hack hawaits.reconnect
  obtain ⟨-, hboundary, hhello⟩ := p.content_host i.bootGeneration n
  obtain ⟨⟨body, mac, hmac⟩, hsigned⟩ := Control.exists_signMessage i.bootKey (c := .channel)
    (m := ⟨i.binding, i.bootAttemptId, nonce, ⟨s.epoch, hawaits.epoch⟩, wire,
      p.content i.bootGeneration n, hok⟩)
    hhello (Control.validateCarrierKind_channel hboundary)
    (Control.Content.encodable_of_kind hboundary)
  obtain ⟨-, tag, -, rfl, -⟩ := Control.signMessage_eq_ok hsigned
  have hdue : Due s p n ⟨_, mac, hmac⟩ :=
    ⟨⟨i, hidentity, rfl, rfl, rfl, rfl, hadmits, hsigned⟩, hwire⟩
  exact ⟨_, rfl, rfl, rfl, hdue⟩

/-- What the guest draws. -/
def sampleSecret : BootSecret := ⟨zeroKey, zeroUuid⟩

/-- The session that has sent its BOOTSTRAP. -/
def awaiting : LifecycleSession := greeted.bootstrapped sampleSecret false

theorem steady_awaiting : Steady awaiting :=
  ((Step.bootstrap sampleSecret false rfl rfl).quiet (taken_zeroHello.steady (steady_init _ _ _))).1

/-- The KEY_ACK that answers it. -/
theorem exists_keyAck : ∃ e : OCIControlV2Envelope,
    e.body.content = .keyAck zeroUuid ⟨1, counter_one⟩ ∧
      e.body.wireSequence = ⟨2, by decide⟩ ∧ Due awaiting .keyAck ⟨1, counter_one⟩ e := by
  have hawaits : awaiting.Awaits .keyAck := steady_awaiting.awaits (by decide)
    (i := ⟨zeroHello.body.binding, zeroUuid, zeroUuid, zeroKey⟩) rfl (by rintro ⟨⟩)
  have hadmits : awaiting.Admits zeroHello.body.hostNonce .keyAck 1 2 :=
    ⟨by decide, by decide, trivial, ⟨by decide, rfl⟩, by decide⟩
  obtain ⟨e, hcontent, -, hwire, hdue⟩ := Awaits.exists_due rfl ⟨1, counter_one⟩ ⟨2, by decide⟩
    hawaits (fun _ => rfl) hadmits Nat.one_lt_two
  exact ⟨e, hcontent, hwire, hdue⟩

/-- The guest takes the KEY_ACK that the host signs with the key of the BOOTSTRAP. -/
theorem step_keyAck : ∃ e : OCIControlV2Envelope,
    e.body.content = .keyAck zeroUuid ⟨1, counter_one⟩ ∧
      Step awaiting (some (encodeUtf8 e.text))
        (awaiting.afterKeyAck (viewOf e .keyAck ⟨1, counter_one⟩)) := by
  obtain ⟨e, hcontent, hwire, hdue⟩ := exists_keyAck
  exact ⟨e, hcontent, (step_some_iff steady_awaiting (by decide)).mpr
    ⟨e, rfl, .keyAck hdue ⟨rfl, rfl⟩ ⟨rfl, by rw [hwire]; rfl⟩⟩⟩

end Palimpsest.Lifecycle
