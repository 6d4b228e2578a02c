import Palimpsest.Control.Sending

/-!
# What a rejected message leaves behind

The session promises that rejected input never changes its state. It keeps the promise
for every message, and for every boundary acknowledgement but one kind: one that passes
all the checks `admit_boundary` makes before its first write and then turns out to name
the STOP of the session with a wire that the session no longer keeps
(`Palimpsest.Control.HostOCIControlV2Session.rejectionKeeps_iff`). That can happen in a
session that has accepted the end of the workload, or that waits for the answer to its
RECONNECT (`Palimpsest.Control.HostOCIControlV2Session.state_of_lateRejection`), and a
session gets there: a boundary that commits the state `ready` clears the STOP wires of a
session that has sent a STOP, and leaves it ready to accept the answer to that STOP.
-/

namespace Palimpsest.Control

namespace HostOCIControlV2Session

variable {s : HostOCIControlV2Session}

/-- What can arrive at a session. -/
inductive Incoming
  | message (e : OCIControlV2Envelope)
  | boundary (e : OCIControlV2Envelope) (encodedLine : List UInt8)

/-- Handing it to the session. -/
def Incoming.handle (s : HostOCIControlV2Session) : Incoming → Outcome Unit
  | message e => s.accept e
  | boundary e line => s.admitBoundary e line

/-- If the session rejects it, every field of the session is what it was. -/
def RejectionKeeps (s : HostOCIControlV2Session) (i : Incoming) : Prop :=
  ∀ text, (i.handle s).1 = .error (.protocol text) → (i.handle s).2 = s

/-- It is a boundary that passes the checks made before the first write, and names the
STOP with a wire that the session does not keep and that is no newer than those it
keeps. -/
def LateRejection (s : HostOCIControlV2Session) : Incoming → Prop
  | .message _ => False
  | .boundary e line => ∃ a, s.admission e line = .ok a ∧ s.StaleStopWire a

/-- Beginning to commit a boundary changes the epoch. -/
theorem beginCommit_ne {e : OCIControlV2Envelope} {line : List UInt8} {a : Admission}
    (h : s.admission e line = .ok a) : s.beginCommit a ≠ s := by
  obtain ⟨-, key, g, n, b, accepted, canonical, -, -, -, -, hchecked, -, -, -, rfl⟩ :=
    admission_eq_ok.mp h
  intro heq
  have hepoch : e.body.epoch.1 = s.epoch := congrArg HostOCIControlV2Session.epoch heq
  have := hchecked.epoch
  omega

/-- What is rejected late changes the session. -/
theorem LateRejection.changes {i : Incoming} (h : LateRejection s i) : ¬RejectionKeeps s i := by
  cases i with
  | message e => exact absurd h not_false
  | boundary e line =>
    obtain ⟨a, ha, hstale⟩ := h
    have hcase : s.admitBoundary e line =
        (.error (.protocol "BOUNDARY_ACK STOP wire commitment is stale"), s.beginCommit a) := by
      simp only [admitBoundary, ha, if_pos hstale]
    intro hkeeps
    have := hkeeps "BOUNDARY_ACK STOP wire commitment is stale" (congrArg Prod.fst hcase)
    exact beginCommit_ne ha ((congrArg Prod.snd hcase).symm.trans this)

/-- **Rejected input changes nothing exactly when it is not rejected late**, in whatever
state the session is. -/
theorem rejectionKeeps_iff (s : HostOCIControlV2Session) (i : Incoming) :
    RejectionKeeps s i ↔ ¬LateRejection s i := by
  refine ⟨fun h hlate => hlate.changes h, fun h text hraise => ?_⟩
  cases i with
  | message e =>
    change (s.accept e).1 = _ at hraise
    show (s.accept e).2 = s
    rcases s.accept_cases e with ⟨r, -, hcase⟩ | ⟨t, -, hcase⟩
    · rw [hcase]
    · rw [hcase] at hraise
      cases hraise
  | boundary e line =>
    change (s.admitBoundary e line).1 = _ at hraise
    show (s.admitBoundary e line).2 = s
    rcases s.admitBoundary_cases e line with ⟨r, -, hcase⟩ | ⟨a, ha, hstale, -⟩ |
      ⟨a, -, -, hcase⟩
    · rw [hcase]
    · exact absurd ⟨a, ha, hstale⟩ h
    · rw [hcase] at hraise
      cases hraise

/-- A late rejection happens only to a session in the state `terminal` or
`reconnect-sent`. -/
theorem state_of_lateRejection {i : Incoming} (h : LateRejection s i) :
    s.state = .terminal ∨ s.state = .reconnectSent := by
  cases i with
  | message e => exact absurd h not_false
  | boundary e line =>
    obtain ⟨a, ha, hnames, hnot, hpast⟩ := h
    obtain ⟨-, key, g, n, b, accepted, canonical, -, -, -, -, hchecked, -, -, -, rfl⟩ :=
      admission_eq_ok.mp ha
    have hallows := hchecked.allows
    have hhost := hchecked.hostWire
    rcases hchecked.state with hs | hs | hs | hs | hs
    -- no STOP was sent yet, and none is named
    · simp only [AllowsState, hs] at hallows
      rcases hallows with hb | ⟨-, hb⟩
      · exact absurd (by rw [hb]; rfl) hnames.1
      · exact absurd hb hnames.1
    · simp only [AllowsState, hs] at hallows
      rcases hallows with hb | ⟨-, hb⟩
      · exact absurd (by rw [hb]; rfl) hnames.1
      · exact absurd hb hnames.1
    -- the wire is one that is kept, or a newer one
    · simp only [expectedHostWires, hs, if_pos hnames] at hhost
      split at hhost
      case isTrue hp =>
        rcases Finset.mem_insert.mp hhost with hw | hw
        · exact absurd (by rw [hw]; exact hp) hpast
        · exact absurd hw hnot
      case isFalse => exact absurd hhost hnot
    · exact .inl hs
    · exact .inr hs

/-! ### A session that is changed by what it rejects -/

namespace Sample

def binding : OCIControlV2Binding where
  runId := ⟨"f6f546e2-e734-4920-9eff-1762b348a249", by decide⟩
  domainCoreDigest :=
    ⟨"sha256:aaaaaaaaaaaaaaaaaaaaaaaaaaaaaaaaaaaaaaaaaaaaaaaaaaaaaaaaaaaaaaaa", by decide⟩
  stage1ArtifactDigest :=
    ⟨"sha256:bbbbbbbbbbbbbbbbbbbbbbbbbbbbbbbbbbbbbbbbbbbbbbbbbbbbbbbbbbbbbbbb", by decide⟩

def bootAttempt : Uuid := ⟨"aca88126-d991-4de8-b66b-90dc07904dff", by decide⟩

def generation : Uuid := ⟨"b22b1c81-dfa4-478a-b352-27b5b35fe5b7", by decide⟩

def nonce : Hex32 :=
  ⟨"1111111111111111111111111111111111111111111111111111111111111111", by decide⟩

def key : Key := ⟨List.replicate 32 7, rfl⟩

def boundaryId : Fin 2 → Uuid
  | 0 => ⟨"00000000-0000-4000-8000-000000000000", by decide⟩
  | 1 => ⟨"00000000-0000-4000-8000-000000000001", by decide⟩

/-- The session that has sent its HELLO. -/
def helloSent : HostOCIControlV2Session := (init binding bootAttempt).afterHello nonce

/-- The session that has accepted a BOOTSTRAP. -/
def bootstrapped : HostOCIControlV2Session :=
  helloSent.afterBootstrap generation key (some (keyIdentifier key)) 1

/-- The session that has sent its KEY_ACK. -/
def keyAckSent : HostOCIControlV2Session := { bootstrapped.afterKeyAck with state := .keyAckSent }

/-- The session that has accepted its first READY. -/
def ready : HostOCIControlV2Session := keyAckSent.afterSnapshot 2 .ready 2

/-- The session that has sent a STOP after that, on wire 3. -/
def stopSent : HostOCIControlV2Session := { ready.afterStop with state := .stopSent }

theorem perform_helloSent : (init binding bootAttempt).perform (.hello (some nonce)) = helloSent :=
  perform_hello rfl nonce (by decide) (Finset.notMem_empty _)

theorem exists_bootstrapped : ∃ e, e.body.content.kind = .bootstrap ∧
    helloSent.accept e = (.ok (), bootstrapped) := by
  obtain ⟨e, hc, he⟩ := exists_bootstrap (s := helloSent) rfl rfl (n := ⟨1, by decide⟩) rfl
    generation key
  exact ⟨e, by rw [hc]; rfl, he⟩

theorem perform_keyAckSent : bootstrapped.perform .keyAck = keyAckSent :=
  perform_keyAck (s := bootstrapped) rfl nofun nofun nofun (by decide) (by decide)

theorem exists_ready : ∃ e, e.body.content.kind = .ready ∧
    keyAckSent.accept e = (.ok (), ready) := by
  obtain ⟨e, he, ht⟩ := exists_accept (s := keyAckSent) (t := ready)
    (m := ⟨binding, bootAttempt, nonce, ⟨1, by decide⟩, ⟨2, by decide⟩,
      .ready generation ⟨2, by decide⟩ none, trivial⟩)
    (.ready rfl rfl rfl) ⟨rfl, rfl, rfl, rfl, by decide⟩ rfl nofun nofun
  exact ⟨e, by rw [he]; rfl, ht⟩

theorem perform_stopSent : ready.perform .stop = stopSent :=
  perform_stop (s := ready) rfl nofun nofun nofun (by decide) (by decide) (by decide)

theorem reachable_stopSent : Reachable stopSent := by
  have hhello := (reachable_init binding bootAttempt).perform (.hello (some nonce))
  rw [perform_helloSent] at hhello
  obtain ⟨e, -, he⟩ := exists_bootstrapped
  have hack := (hhello.accept he).perform .keyAck
  rw [perform_keyAckSent] at hack
  obtain ⟨e, -, he⟩ := exists_ready
  have hstop := (hack.accept he).perform .stop
  rwa [perform_stopSent] at hstop

/-- A boundary after the first READY, that commits a state. -/
def boundaryAck (i : Fin 2) (accepted attempted previous : Counter)
    (state : LifecycleState TerminalResult) : BoundaryAck where
  boundaryId := boundaryId i
  discardedHeaderBytes := 0
  discardedPayloadBytes := 0
  discardedPayloadExpected := 0
  lastAcceptedH2gWireSequence := accepted.1
  lastAttemptedG2hWireSequence := attempted.1
  lifecycleState := state
  previousEpoch := previous.1
  parser_ok := .inl ⟨rfl, rfl, rfl⟩
  accepted_le := accepted.2.2
  attempted_le := attempted.2.2
  previous_le := previous.2.2

/-- The message that carries it. -/
def boundaryMessage (b : BoundaryAck) (epoch wire : Counter) (h : 1 < epoch.1) :
    OCIControlV2Message :=
  ⟨binding, bootAttempt, nonce, epoch, wire, .boundaryAck generation ⟨1, counter_one⟩ b, h⟩

/-- How the workload ends. -/
def result : Terminal := .exitCode 0 (by decide)

theorem counter_two : 1 ≤ 2 ∧ 2 ≤ maxCounter := by decide

theorem counter_three : 1 ≤ 3 ∧ 3 ≤ maxCounter := by decide

/-- A boundary that commits `ready`, after the STOP. -/
def readyBoundary : BoundaryAck :=
  boundaryAck ⟨0, Nat.zero_lt_two⟩ ⟨2, counter_two⟩ ⟨3, counter_three⟩ ⟨1, counter_one⟩ .ready

/-- The session that has admitted it: it has sent a STOP, but keeps no STOP wire. -/
def stopForgotten (digest : Digest) : HostOCIControlV2Session :=
  stopSent.finishCommit ⟨2, 3, readyBoundary, digest, false⟩

/-- The session that has accepted the answer to the STOP after that. -/
def ended (digest : Digest) : HostOCIControlV2Session :=
  (stopForgotten digest).afterTerminal 4 (some 2) result ((stopForgotten digest).stopWire.getD 0)
    (some (stopForgotten digest).stopWireCandidates)

/-- A boundary that commits the end of the workload, in answer to the STOP. -/
def endedBoundary : BoundaryAck :=
  boundaryAck ⟨1, Nat.one_lt_two⟩ ⟨3, counter_three⟩ ⟨5, by decide⟩ ⟨2, counter_two⟩
    (.terminal (some ⟨2, counter_two⟩) (.mapping result))

theorem exists_stopForgotten :
    ∃ e line digest, stopSent.admitBoundary e line = (.ok (), stopForgotten digest) := by
  have hchecked : Checked stopSent
      (boundaryMessage readyBoundary ⟨2, by decide⟩ ⟨3, by decide⟩ (by decide))
      readyBoundary false :=
    ⟨rfl, rfl, rfl, rfl, (by decide : 2 < 3), rfl, rfl, .inr (.inr (.inl rfl)), ⟨rfl, rfl⟩,
      .inl rfl, (by decide : 2 ∈ ({2, 3} : Finset ℕ)), nofun, fun hr => (nomatch hr.1)⟩
  obtain ⟨e, line, digest, -, he⟩ := exists_admitBoundary hchecked nofun nofun rfl rfl trivial
    (Finset.notMem_empty _) fun _ hs => hs.1.1 rfl
  exact ⟨e, line, digest, he⟩

theorem exists_ended (digest : Digest) :
    ∃ e, (stopForgotten digest).accept e = (.ok (), ended digest) := by
  have hstopped : Acceptance (stopForgotten digest)
      ⟨binding, bootAttempt, nonce, ⟨2, by decide⟩, ⟨4, by decide⟩,
        .terminal generation (some ⟨2, by decide⟩) result, trivial⟩ (ended digest) :=
    .stopped (g := generation) (n := ⟨2, by decide⟩) rfl rfl rfl rfl
      fun hp => Finset.not_nonempty_empty hp.1
  obtain ⟨e, -, he⟩ := exists_accept hstopped
    ⟨rfl, rfl, rfl, rfl, (by decide : 3 < 4)⟩ rfl nofun nofun
  exact ⟨e, he⟩

end Sample

/-- A session that has sent a STOP on wire 3 admits a boundary that commits `ready`,
which clears the STOP wires, and accepts the TERMINAL that answers the STOP. The
boundary that commits this end of the workload on wire 3 is then rejected, but the
session is in the epoch it announces. -/
theorem rejection_changes_session :
    ¬∀ s, Reachable s → ∀ i, RejectionKeeps s i := by
  intro h
  obtain ⟨e, line, digest, he⟩ := Sample.exists_stopForgotten
  obtain ⟨e', he'⟩ := Sample.exists_ended digest
  have hended := (Sample.reachable_stopSent.admitBoundary he).accept he'
  have hchecked : Checked (Sample.ended digest)
      (Sample.boundaryMessage Sample.endedBoundary ⟨3, by decide⟩ ⟨5, by decide⟩ (by decide))
      Sample.endedBoundary false :=
    ⟨rfl, rfl, rfl, rfl, (by decide : 4 < 5), rfl, rfl, .inr (.inr (.inr (.inl rfl))),
      ⟨rfl, rfl⟩, ⟨rfl, rfl⟩, (by decide : 3 ∈ ({3} : Finset ℕ)), nofun, fun hr => (nomatch hr.1)⟩
  obtain ⟨e, line, d, -, ha⟩ := exists_admission hchecked nofun nofun rfl rfl trivial
    (by decide : Sample.boundaryId 1 ∉ insert (Sample.boundaryId 0) (∅ : Finset Uuid))
  refine LateRejection.changes (i := .boundary e line) ⟨_, ha, ?_⟩ (h _ hended _)
  exact ⟨⟨nofun, rfl⟩, Finset.notMem_empty 3, fun hp => Finset.not_nonempty_empty hp.1⟩

end HostOCIControlV2Session

end Palimpsest.Control
