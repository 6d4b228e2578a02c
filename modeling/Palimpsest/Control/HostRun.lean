import Palimpsest.Control.HostSession

/-!
# Runs of the host session

The public operations of `HostOCIControlV2Session` as one type, and the sessions that
any sequence of them reaches. What an accepted message can do to a session is said
once, as `Palimpsest.Control.HostOCIControlV2Session.Acceptance`, and what the checks
of a boundary have established as `Palimpsest.Control.HostOCIControlV2Session.Admitted`.
-/

namespace Palimpsest.Control

open Json

/-! ### Checks -/

theorem bind_eq_ok {α β : Type} {x : Except Raised α} {f : α → Except Raised β} {y : β} :
    (x >>= f) = .ok y ↔ ∃ a, x = .ok a ∧ f a = .ok y := by
  cases x with
  | error r => exact ⟨fun h => (nomatch h), fun ⟨_, h, _⟩ => nomatch h⟩
  | ok a => exact ⟨fun h => ⟨a, rfl, h⟩, fun ⟨_, h, h'⟩ => by cases h; exact h'⟩

theorem require_eq_ok {p : Prop} [Decidable p] {message : String} {u : Unit} :
    require p message = .ok u ↔ p := by
  unfold require
  split
  · exact ⟨fun _ => ‹p›, fun _ => rfl⟩
  · exact ⟨fun h => (nomatch h), fun h => absurd h ‹¬p›⟩

/-- What follows a check is reached when the check passes. -/
theorem require_bind_eq_ok {α : Type} {p : Prop} [Decidable p] {message : String}
    {f : Unit → Except Raised α} {y : α} :
    (require p message >>= f) = .ok y ↔ p ∧ f () = .ok y := by
  rw [bind_eq_ok]
  exact ⟨fun ⟨_, h, h'⟩ => ⟨require_eq_ok.mp h, h'⟩, fun ⟨h, h'⟩ => ⟨(), require_eq_ok.mpr h, h'⟩⟩

namespace HostOCIControlV2Session

variable {s t : HostOCIControlV2Session} {e : OCIControlV2Envelope} {line : List UInt8}

/-! ### Operations -/

/-- A public operation, with its arguments and with what the nonce factory returns. -/
inductive Operation
  | hello (candidate : Option Hex32)
  | keyAck
  | reconnect (candidate : Option Hex32)
  | exec (argv : List String) (timeoutMs : ℤ)
  | stop
  | retryStop
  | accept (e : OCIControlV2Envelope)
  | admitBoundary (e : OCIControlV2Envelope) (encodedLine : List UInt8)

/-- The session an operation leaves, whether it raises or not. -/
def perform (s : HostOCIControlV2Session) : Operation → HostOCIControlV2Session
  | .hello candidate => (s.hello candidate).2
  | .keyAck => s.keyAck.2
  | .reconnect candidate => (s.reconnect candidate).2
  | .exec argv timeoutMs => (s.exec argv timeoutMs).2
  | .stop => s.stop.2
  | .retryStop => s.retryStop.2
  | .accept e => (s.accept e).2
  | .admitBoundary e line => (s.admitBoundary e line).2

/-- The session after a sequence of operations. -/
def run (binding : OCIControlV2Binding) (bootAttemptId : Uuid) (ops : List Operation) :
    HostOCIControlV2Session :=
  ops.foldl perform (init binding bootAttemptId)

theorem run_concat (binding : OCIControlV2Binding) (bootAttemptId : Uuid) (ops : List Operation)
    (op : Operation) :
    run binding bootAttemptId (ops ++ [op]) = (run binding bootAttemptId ops).perform op := by
  rw [run, List.foldl_append]; rfl

/-- The sessions that operations reach. -/
def Reachable (s : HostOCIControlV2Session) : Prop :=
  ∃ binding bootAttemptId ops, s = run binding bootAttemptId ops

theorem Reachable.perform (h : Reachable s) (op : Operation) : Reachable (s.perform op) := by
  obtain ⟨binding, bootAttemptId, ops, rfl⟩ := h
  exact ⟨binding, bootAttemptId, ops ++ [op], (run_concat ..).symm⟩

theorem reachable_init (binding : OCIControlV2Binding) (bootAttemptId : Uuid) :
    Reachable (init binding bootAttemptId) := ⟨binding, bootAttemptId, [], rfl⟩

theorem Reachable.accept (h : Reachable s) (ht : s.accept e = (.ok (), t)) : Reachable t := by
  have := h.perform (.accept e)
  rwa [HostOCIControlV2Session.perform, ht] at this

theorem Reachable.admitBoundary (h : Reachable s) (ht : s.admitBoundary e line = (.ok (), t)) :
    Reachable t := by
  have := h.perform (.admitBoundary e line)
  rwa [HostOCIControlV2Session.perform, ht] at this

/-! ### What sending does -/

/-- The sessions that an operation which sends a message leads to: those after a failed
attempt are among them. -/
inductive Sends (s : HostOCIControlV2Session) : HostOCIControlV2Session → Prop
  | unchanged : Sends s s
  | hello (nonce : Hex32) (hstate : s.state = .new) : Sends s (s.afterHello nonce)
  | keyAckFailed (hstate : s.state = .bootstrapReceived) : Sends s s.afterKeyAck
  | keyAck (hstate : s.state = .bootstrapReceived) :
      Sends s { s.afterKeyAck with state := .keyAckSent }
  | reconnectFailed (hstate : s.state = .ready ∨ s.state = .stopSent ∨ s.state = .terminal) :
      Sends s { s with reconnectFrom := some s.state }
  | reconnect (nonce : Hex32) (hexec : s.execRequest = none) (hboundary : s.boundary ≠ none)
      (hstate : s.state = .ready ∨ s.state = .stopSent ∨ s.state = .terminal)
      (hnonce : nonce ∉ s.usedNonces) : Sends s (s.afterReconnect nonce)
  | exec (hstate : s.state = .ready) (hexec : s.execRequest = none) : Sends s s.afterExec
  | stopFailed (hstate : s.state = .ready) : Sends s s.afterStop
  | stop (hstate : s.state = .ready) : Sends s { s.afterStop with state := .stopSent }
  | retryStop (hstate : s.state = .stopSent) (hstop : s.stopRequest ≠ none) : Sends s s.afterStop

theorem not_mem_of_freshNonce {candidate : Option Hex32} {nonce : Hex32}
    (h : s.freshNonce candidate = .ok nonce) : nonce ∉ s.usedNonces := by
  unfold freshNonce at h
  obtain ⟨-, h⟩ := require_bind_eq_ok.mp h
  cases candidate with
  | none => cases h
  | some n =>
    dsimp only at h
    split at h
    · cases h
    · obtain rfl := Except.ok.inj h
      assumption

theorem sends_hello (candidate : Option Hex32) : Sends s (s.hello candidate).2 := by
  unfold hello
  split
  · exact .unchanged
  · split
    · exact .unchanged
    · exact .hello _ (not_not.mp ‹_›)

theorem sends_keyAck : Sends s s.keyAck.2 := by
  unfold keyAck
  split
  · split
    · exact .keyAckFailed ‹_›
    · exact .keyAck ‹_›
  · exact .unchanged

theorem sends_reconnect (candidate : Option Hex32) : Sends s (s.reconnect candidate).2 := by
  unfold reconnect
  split
  · exact .unchanged
  case isFalse hexec =>
    split
    case h_1 key generation boundaryId digest hkey hgen hboundary =>
      split
      · exact .unchanged
      case isFalse hnot =>
        have hstate : s.state = .ready ∨ s.state = .stopSent ∨ s.state = .terminal := by tauto
        split
        · exact .reconnectFailed hstate
        case h_2 nonce hnonce =>
          exact .reconnect nonce (not_not.mp hexec) (by simp [hboundary]) hstate
            (not_mem_of_freshNonce hnonce)
    case h_2 => exact .unchanged

theorem sends_exec (argv : List String) (timeoutMs : ℤ) : Sends s (s.exec argv timeoutMs).2 := by
  unfold exec
  split
  · exact .unchanged
  · exact .unchanged
  · split
    · split
      · exact .unchanged
      · exact .exec ‹_› ‹_›
    · exact .unchanged

theorem sends_stop : Sends s s.stop.2 := by
  unfold stop
  split
  · split
    · exact .stopFailed ‹_›
    · exact .stop ‹_›
  · exact .unchanged

theorem sends_retryStop : Sends s s.retryStop.2 := by
  unfold retryStop
  split
  case h_1 hstate _ _ hstop => exact .retryStop hstate (by simp [hstop])
  case h_2 => exact .unchanged

/-! ### What an accepted message does -/

/-- The message belongs to the connection the session has open. -/
structure Current (s : HostOCIControlV2Session) (m : OCIControlV2Message) : Prop where
  bootAttempt : m.bootAttemptId = s.bootAttemptId
  bootGeneration : m.content.bootGeneration = s.bootGeneration
  nonce : some m.hostNonce = s.nonce
  epoch : m.epoch.1 = s.epoch
  wire : s.guestWire < m.wireSequence.1

/-- The sessions that accepting a message of the open connection leads to. -/
inductive Acceptance (s : HostOCIControlV2Session) (m : OCIControlV2Message) :
    HostOCIControlV2Session → Prop
  | execOutput {g n o} (hc : m.content = .execOutput g n o)
      (hstate : s.state = .ready ∨ s.state = .stopSent) (hreq : s.execRequest = some n.1)
      (hoffset : o.offset = s.execCounts o.stream)
      (htotal : s.execTotal + o.count ≤ maxOCIExecOutputBytes) :
      Acceptance s m { s.afterExecReply m.wireSequence.1 with
        execCounts := fun stream =>
          s.execCounts stream + if stream = o.stream then o.count else 0 }
  | execExit {g n x} (hc : m.content = .execExit g n x)
      (hstate : s.state = .ready ∨ s.state = .stopSent) (hreq : s.execRequest = some n.1)
      (hcounts : x.stdoutBytes = s.execCounts .stdout ∧ x.stderrBytes = s.execCounts .stderr) :
      Acceptance s m { s.afterExecReply m.wireSequence.1 with execRequest := none }
  | ready {g n i} (hc : m.content = .ready g n i) (hstate : s.state = .keyAckSent)
      (hreply : n.1 = s.hostWire) :
      Acceptance s m (s.afterSnapshot m.wireSequence.1 .ready s.hostWire)
  | snapshot {g n b} (hc : m.content = .snapshot g n b) (hstate : s.state = .reconnectSent)
      (hreply : some n.1 = s.pendingRequest) (hb : s.checkSnapshot (b.map .mapping) = .ok ()) :
      Acceptance s m
        (s.afterSnapshot m.wireSequence.1 (b.map .mapping) (s.pendingHostWire.getD 0))
  | natural {g r} (hc : m.content = .terminal g none r) (hexec : s.execRequest = none)
      (hstate : s.state = .ready) :
      Acceptance s m (s.afterTerminal m.wireSequence.1 none r s.acceptedHostWire none)
  | naturalStop {g r} (hc : m.content = .terminal g none r) (hexec : s.execRequest = none)
      (hstate : s.state = .stopSent) :
      Acceptance s m (s.afterTerminal m.wireSequence.1 none r s.acceptedHostWire
        (some {s.acceptedHostWire, s.stopWire.getD 0}))
  | stoppedPast {g n r} (hc : m.content = .terminal g (some n) r) (hexec : s.execRequest = none)
      (hstate : s.state = .stopSent) (hn : some n.1 = s.stopRequest)
      (hpast : s.PastStops s.acceptedHostWire) :
      Acceptance s m (s.afterTerminal m.wireSequence.1 (some n.1) r s.acceptedHostWire
        (some {s.acceptedHostWire}))
  | stopped {g n r} (hc : m.content = .terminal g (some n) r) (hexec : s.execRequest = none)
      (hstate : s.state = .stopSent) (hn : some n.1 = s.stopRequest)
      (hpast : ¬s.PastStops s.acceptedHostWire) :
      Acceptance s m (s.afterTerminal m.wireSequence.1 (some n.1) r (s.stopWire.getD 0)
        (some s.stopWireCandidates))

theorem Acceptance.kind {m : OCIControlV2Message} (h : Acceptance s m t) :
    m.content.kind ≠ .hello ∧ m.content.kind ≠ .boundaryAck ∧ m.content.kind ≠ .bootstrap := by
  cases h with
  | execOutput hc | execExit hc | ready hc | snapshot hc | natural hc | naturalStop hc
  | stoppedPast hc | stopped hc =>
    rw [hc]
    exact ⟨nofun, nofun, nofun⟩

theorem acceptance_of_acceptedLifecycle {m : OCIControlV2Message}
    (h : s.acceptedLifecycle m.wireSequence.1 m.content = .ok t)
    (hexec : ¬(m.content.kind = .terminal ∧ s.execRequest ≠ none)) : Acceptance s m t := by
  have hnone : m.content.kind = .terminal → s.execRequest = none := fun hk =>
    Classical.byContradiction fun hx => hexec ⟨hk, hx⟩
  unfold acceptedLifecycle at h
  split at h
  case h_1 g n i hstate hc =>
    split at h
    · obtain rfl := Except.ok.inj h
      exact .ready hc hstate ‹_›
    · cases h
  case h_2 g n b hstate hc =>
    split at h
    · obtain ⟨_, hb, h⟩ := bind_eq_ok.mp h
      obtain rfl := Except.ok.inj h
      exact .snapshot hc hstate ‹_› hb
    · cases h
  case h_3 g r hstate hc =>
    obtain rfl := Except.ok.inj h
    exact .natural hc (hnone (by rw [hc]; rfl)) hstate
  case h_4 g r hstate hc =>
    obtain rfl := Except.ok.inj h
    exact .naturalStop hc (hnone (by rw [hc]; rfl)) hstate
  case h_5 g n r hstate hc =>
    split at h
    · split at h
      · obtain rfl := Except.ok.inj h
        exact .stoppedPast hc (hnone (by rw [hc]; rfl)) hstate ‹_› ‹_›
      · obtain rfl := Except.ok.inj h
        exact .stopped hc (hnone (by rw [hc]; rfl)) hstate ‹_› ‹_›
    · cases h
  case h_6 => cases h

/-- **What an accepted message does** to the session. -/
theorem acceptedMessage_eq_ok {m : OCIControlV2Message} :
    s.acceptedMessage m = .ok t ↔ Current s m ∧ Acceptance s m t := by
  constructor
  · intro h
    unfold acceptedMessage at h
    simp only [bind_eq_ok, require_eq_ok, exists_const] at h
    obtain ⟨⟨hattempt, hgen⟩, ⟨hnonce, hepoch⟩, hwire, h⟩ := h
    refine ⟨⟨hattempt, hgen, hnonce, hepoch, hwire⟩, ?_⟩
    -- By the kind of the message: output of a command, its end, and the states of the lifecycle.
    split at h
    case h_1 g n o hc =>
      simp only [acceptedExecOutput, bind_eq_ok, require_eq_ok, exists_const] at h
      obtain ⟨⟨hstate, hreq⟩, hoffset, htotal, h⟩ := h
      obtain rfl := Except.ok.inj h
      exact .execOutput hc hstate hreq hoffset htotal
    case h_2 g n x hc =>
      simp only [acceptedExecExit, bind_eq_ok, require_eq_ok, exists_const] at h
      obtain ⟨⟨hstate, hreq⟩, hcounts, h⟩ := h
      obtain rfl := Except.ok.inj h
      exact .execExit hc hstate hreq hcounts
    case h_3 =>
      obtain ⟨hexec, h⟩ := require_bind_eq_ok.mp h
      exact acceptance_of_acceptedLifecycle h hexec
  · rintro ⟨⟨hattempt, hgen, hnonce, hepoch, hwire⟩, h⟩
    unfold acceptedMessage
    simp only [bind_eq_ok, require_eq_ok, exists_const]
    refine ⟨⟨hattempt, hgen⟩, ⟨hnonce, hepoch⟩, hwire, ?_⟩
    cases h with
    | execOutput hc hstate hreq hoffset htotal =>
      simp only [hc, acceptedExecOutput, bind_eq_ok, require_eq_ok, exists_const]
      exact ⟨⟨hstate, hreq⟩, hoffset, htotal, rfl⟩
    | execExit hc hstate hreq hcounts =>
      simp only [hc, acceptedExecExit, bind_eq_ok, require_eq_ok, exists_const]
      exact ⟨⟨hstate, hreq⟩, hcounts, rfl⟩
    | ready hc hstate hreply =>
      simp only [hc, bind_eq_ok, require_eq_ok, exists_const, acceptedLifecycle, hstate,
        if_pos hreply]
      exact ⟨fun hk => (nomatch hk.1), trivial⟩
    | snapshot hc hstate hreply hb =>
      simp only [hc, bind_eq_ok, require_eq_ok, exists_const, acceptedLifecycle, hstate,
        if_pos hreply]
      exact ⟨fun hk => (nomatch hk.1), (), hb, rfl⟩
    | natural hc hexec hstate =>
      simp only [hc, bind_eq_ok, require_eq_ok, exists_const, acceptedLifecycle, hstate]
      exact ⟨fun hk => hk.2 hexec, trivial⟩
    | naturalStop hc hexec hstate =>
      simp only [hc, bind_eq_ok, require_eq_ok, exists_const, acceptedLifecycle, hstate]
      exact ⟨fun hk => hk.2 hexec, trivial⟩
    | stoppedPast hc hexec hstate hn hpast =>
      simp only [hc, bind_eq_ok, require_eq_ok, exists_const, acceptedLifecycle, hstate,
        if_pos hn, if_pos hpast]
      exact ⟨fun hk => hk.2 hexec, trivial⟩
    | stopped hc hexec hstate hn hpast =>
      simp only [hc, bind_eq_ok, require_eq_ok, exists_const, acceptedLifecycle, hstate,
        if_pos hn, if_neg hpast]
      exact ⟨fun hk => hk.2 hexec, trivial⟩

/-- The facts a BOOTSTRAP is accepted on. -/
structure Bootstraps (s : HostOCIControlV2Session) (e : OCIControlV2Envelope) (n : Counter)
    (k : Hex32) : Prop where
  state : s.state = .helloSent
  reply : some n.1 = s.pendingRequest
  bootAttempt : e.body.bootAttemptId = s.bootAttemptId
  nonce : some e.body.hostNonce = s.nonce
  authentic : verifyMessageAuthentication e k.toKey .channel = .ok ()
  epoch : e.body.epoch.1 = 1
  wire : e.body.wireSequence.1 = 1

/-- **What accepting does**: it takes over the key of a BOOTSTRAP, or it takes a message
that the key of the session authenticates. -/
theorem accepted_eq_ok :
    s.accepted e = .ok t ↔ e.body.binding = s.binding ∧
      ((∃ g n k, e.body.content = .bootstrap g n k ∧ Bootstraps s e n k ∧
          t = s.afterBootstrap g k.toKey (e.mac.map Mac.keyId) e.body.wireSequence.1) ∨
        e.body.content.kind ≠ .bootstrap ∧ ∃ key, s.key = some key ∧ s.bootGeneration ≠ none ∧
          verifyMessageAuthentication e key .channel = .ok () ∧ Current s e.body ∧
          Acceptance s e.body t) := by
  unfold accepted
  rw [require_bind_eq_ok]
  refine and_congr_right fun _ => ?_
  -- A BOOTSTRAP brings its key; any other message needs the key that the session has.
  split
  case h_1 g n k hc =>
    simp only [acceptedBootstrap, bind_eq_ok, require_eq_ok, exists_const, hc]
    constructor
    · rintro ⟨⟨hstate, hreply⟩, ⟨hattempt, hnonce⟩, _, hv, ⟨hepoch, hwire⟩, h⟩
      exact .inl ⟨g, n, k, rfl, ⟨hstate, hreply, hattempt, hnonce, hv, hepoch, hwire⟩,
        (Except.ok.inj h).symm⟩
    · rintro (⟨g, n, k, h, hb, rfl⟩ | ⟨hk, -⟩)
      · obtain ⟨rfl, rfl, rfl⟩ : _ ∧ _ ∧ _ := by simpa using h
        exact ⟨⟨hb.state, hb.reply⟩, ⟨hb.bootAttempt, hb.nonce⟩, (), hb.authentic,
          ⟨hb.epoch, hb.wire⟩, rfl⟩
      · exact absurd rfl hk
  case h_2 hnot =>
    have hk : e.body.content.kind ≠ .bootstrap := by
      cases hc : e.body.content with
      | bootstrap g n k => exact absurd hc (hnot g n k)
      | _ => exact fun h => nomatch h
    split
    case h_1 key generation hkey hgen =>
      simp only [bind_eq_ok, acceptedMessage_eq_ok]
      constructor
      · rintro ⟨_, hv, h⟩
        exact .inr ⟨hk, key, hkey, by simp [hgen], hv, h⟩
      · rintro (⟨g, n, k, h, -⟩ | ⟨-, key', hkey', -, hv, h⟩)
        · exact absurd h (hnot g n k)
        · rw [hkey] at hkey'
          obtain rfl := Option.some.inj hkey'
          exact ⟨(), hv, h⟩
    case h_2 hno =>
      constructor
      · intro h; cases h
      · rintro (⟨g, n, k, h, -⟩ | ⟨-, key, hkey, hgen, -⟩)
        · exact absurd h (hnot g n k)
        · obtain ⟨generation, hgen⟩ := Option.ne_none_iff_exists'.mp hgen
          exact absurd hgen (hno key generation hkey)

/-- **What `accept` does**: it refuses and changes nothing, or it accepts. -/
theorem accept_cases (s : HostOCIControlV2Session) (e : OCIControlV2Envelope) :
    (∃ r, s.accepted e = .error r ∧ s.accept e = (.error r, s)) ∨
      ∃ t, s.accepted e = .ok t ∧ s.accept e = (.ok (), t) := by
  unfold accept
  cases s.accepted e with
  | error r => exact .inl ⟨r, rfl, rfl⟩
  | ok t => exact .inr ⟨t, rfl, rfl⟩

/-! ### What the checks of a boundary establish -/

/-- The connection a boundary must name. -/
def NamesConnection (s : HostOCIControlV2Session) (m : OCIControlV2Message) (b : BoundaryAck) :
    Prop :=
  if s.state = .reconnectSent then ¬(s.UnacceptedIdentity m b ↔ s.AcceptedIdentity m b)
  else some m.hostNonce = s.acceptedNonce ∧
    m.content.replyTo.map Subtype.val = s.acceptedConnectionOpenerRequest

/-- The facts that the checks of `admit_boundary` establish without cryptography. -/
structure Checked (s : HostOCIControlV2Session) (m : OCIControlV2Message) (b : BoundaryAck)
    (accepted : Bool) : Prop where
  binding : m.binding = s.binding
  bootAttempt : m.bootAttemptId = s.bootAttemptId
  bootGeneration : m.content.bootGeneration = s.bootGeneration
  epoch : m.epoch.1 = s.epoch + 1
  wire : s.guestWire < m.wireSequence.1
  attempted : b.lastAttemptedG2hWireSequence = m.wireSequence.1
  previous : b.previousEpoch = s.epoch
  state : s.state = .keyAckSent ∨ s.state = .ready ∨ s.state = .stopSent ∨ s.state = .terminal ∨
    s.state = .reconnectSent
  connection : s.NamesConnection m b
  allows : s.AllowsState b.lifecycleState
  hostWire : b.lastAcceptedH2gWireSequence ∈ s.expectedHostWires b.lifecycleState accepted
  accepted_iff : accepted = true ↔ s.state = .reconnectSent ∧ s.AcceptedIdentity m b

theorem checkBoundary_eq_ok {m : OCIControlV2Message} {b : BoundaryAck} {accepted : Bool} :
    s.checkBoundary m b = .ok accepted ↔ Checked s m b accepted := by
  have hdecide : ∀ {p : Prop} [Decidable p], decide p = accepted ↔ (accepted = true ↔ p) := by
    intro p _
    cases accepted <;> simp
  unfold checkBoundary
  simp only [bind_eq_ok, require_eq_ok, exists_const]
  constructor
  · rintro ⟨hbinding, ⟨hattempt, hgen⟩, hepoch, hwire, hattempted, hprevious, hstate, h⟩
    -- The check of the connection is one of two, by what the boundary says.
    have hrest : s.NamesConnection m b ∧ s.AllowsState b.lifecycleState ∧
        b.lastAcceptedH2gWireSequence ∈ s.expectedHostWires b.lifecycleState accepted ∧
          (accepted = true ↔ s.state = .reconnectSent ∧ s.AcceptedIdentity m b) := by
      unfold NamesConnection
      split at h
      all_goals
        simp only [bind_eq_ok, require_eq_ok, exists_const] at h
        obtain ⟨hconnection, hallows, hexpected, h⟩ := h
        obtain rfl := Except.ok.inj h
        refine ⟨?_, hallows, hexpected, hdecide.mp rfl⟩
      · rwa [if_pos ‹_›]
      · rwa [if_neg ‹_›]
    exact ⟨hbinding, hattempt, hgen, hepoch, hwire, hattempted, hprevious, hstate, hrest.1,
      hrest.2.1, hrest.2.2.1, hrest.2.2.2⟩
  · intro h
    refine ⟨h.binding, ⟨h.bootAttempt, h.bootGeneration⟩, h.epoch, h.wire, h.attempted,
      h.previous, h.state, ?_⟩
    have hconnection := h.connection
    have hhost := h.hostWire
    obtain rfl := hdecide.mpr h.accepted_iff
    unfold NamesConnection at hconnection
    split
    · rw [if_pos ‹_›] at hconnection
      simp only [bind_eq_ok, require_eq_ok, exists_const]
      exact ⟨hconnection, h.allows, hhost, rfl⟩
    · rw [if_neg ‹_›] at hconnection
      simp only [bind_eq_ok, require_eq_ok, exists_const]
      exact ⟨hconnection, h.allows, hhost, rfl⟩

/-- **What a boundary is admitted on.** -/
theorem admission_eq_ok {a : Admission} :
    s.admission e line = .ok a ↔ s.execRequest = none ∧ ∃ key g n b accepted canonical,
      s.key = some key ∧ s.bootGeneration ≠ none ∧
      verifyMessageAuthentication e key .console = .ok () ∧
      e.body.content = .boundaryAck g n b ∧ Checked s e.body b accepted ∧
      encodeBoundaryLine e = .ok line ∧ b.boundaryId ∉ s.usedBoundaryIds ∧
      canonicalJsonBytes (.dict e.toDict) = .ok canonical ∧
      a = ⟨e.body.epoch.1, e.body.wireSequence.1, b, digestOf canonical, accepted⟩ := by
  unfold admission
  rw [require_bind_eq_ok]
  refine and_congr_right fun _ => ?_
  constructor
  · intro h
    split at h
    case h_2 => cases h
    rename_i key g' hkey hgen
    obtain ⟨_, hv, h⟩ := bind_eq_ok.mp h
    split at h
    case h_2 => cases h
    rename_i g n b hc
    simp only [bind_eq_ok, require_eq_ok, exists_const] at h
    obtain ⟨accepted, hcheck, line', hline, rfl, hunused, canonical, hcanonical, h⟩ := h
    exact ⟨key, g, n, b, accepted, canonical, hkey, by simp [hgen], hv, hc,
      checkBoundary_eq_ok.mp hcheck, hline, hunused, hcanonical, (Except.ok.inj h).symm⟩
  · rintro ⟨key, g, n, b, accepted, canonical, hkey, hgen, hv, hc, hcheck, hline, hunused,
      hcanonical, rfl⟩
    obtain ⟨g', hgen⟩ := Option.ne_none_iff_exists'.mp hgen
    simp only [hkey, hgen, hv, hc, bind_eq_ok, require_eq_ok, exists_const]
    exact ⟨trivial, accepted, checkBoundary_eq_ok.mpr hcheck, line, hline, rfl, hunused,
      canonical, hcanonical, rfl⟩

/-! ### The session that has committed a boundary -/

@[simp]
theorem finishCommit_boundary (s : HostOCIControlV2Session) (a : Admission) :
    (s.finishCommit a).boundary = some (a.boundary.boundaryId, a.digest) := by
  unfold finishCommit
  cases s.state <;> rfl

@[simp]
theorem finishCommit_boundaryState (s : HostOCIControlV2Session) (a : Admission) :
    (s.finishCommit a).boundaryState = some a.boundary.lifecycleState := by
  unfold finishCommit
  cases s.state <;> rfl

@[simp]
theorem finishCommit_stopRequest (s : HostOCIControlV2Session) (a : Admission) :
    (s.finishCommit a).stopRequest = s.stopRequest := by
  unfold finishCommit
  cases s.state <;> rfl

@[simp]
theorem finishCommit_state (s : HostOCIControlV2Session) (a : Admission) :
    (s.finishCommit a).state = if s.state = .keyAckSent ∨ s.state = .reconnectSent then
      stateOf a.boundary.lifecycleState else s.state := by
  unfold finishCommit
  cases h : s.state <;> simp [beginCommit, h]

/-- **What `admit_boundary` does**: it refuses and changes nothing, or it begins to
commit and then refuses, or it commits. -/
theorem admitBoundary_cases (s : HostOCIControlV2Session) (e : OCIControlV2Envelope)
    (line : List UInt8) :
    (∃ r, s.admission e line = .error r ∧ s.admitBoundary e line = (.error r, s)) ∨
      (∃ a, s.admission e line = .ok a ∧ s.StaleStopWire a ∧ s.admitBoundary e line =
        (.error (.protocol "BOUNDARY_ACK STOP wire commitment is stale"), s.beginCommit a)) ∨
      ∃ a, s.admission e line = .ok a ∧ ¬s.StaleStopWire a ∧
        s.admitBoundary e line = (.ok (), s.finishCommit a) := by
  unfold admitBoundary
  cases h : s.admission e line with
  | error r => exact .inl ⟨r, rfl, rfl⟩
  | ok a =>
    by_cases hstale : s.StaleStopWire a
    · exact .inr (.inl ⟨a, rfl, hstale, by simp only [if_pos hstale]⟩)
    · exact .inr (.inr ⟨a, rfl, hstale, by simp only [if_neg hstale]⟩)

end HostOCIControlV2Session

end Palimpsest.Control
