import Palimpsest.Monitor.CrashAtomic
import Palimpsest.Monitor.Preactivation

/-!
# Leases of a preactivation journal

Processes take the lock of a ledger, by creating a journal or by adopting that of a stale
writer, and move the journal from phase to phase while they hold it
(`Palimpsest.Monitor.Preactivation.step`). The lock is exclusive: a process that does not hold it
changes nothing while another one does, so the operations of different processes follow one another.
A process may be killed at any step of an operation, also while it publishes.

What a process knows about the rest of the world comes with the operation: which process it is,
whether the writer it wants to adopt from is alive, and whether the socket of an abandoned
journal is still there.
-/

namespace Palimpsest.Monitor.Preactivation

open Control

/-- A process with numbers of the size a kernel gives them. -/
abbrev Process := {p : MonitorProcessIdentity // p.Sized}

/-- `ProcessLiveness` -/
inductive ProcessLiveness
  | live | stale | unknown
  deriving DecidableEq

section

variable {binding : MonitorPreActivationBinding}

/-! ### Candidates -/

/-- `_has_activation_evidence` -/
def hasActivationEvidence (s : MonitorPreactivationJournalSnapshot binding) : Bool :=
  s.phase.isActivation || s.activeBinding.isSome

/-- The snapshot, if its constructor accepts it. -/
def candidate (generation : Uuid) (nonceDigest : Digest) (phase : PreactivationPhase)
    (revision : ℕ) (writer : MonitorProcessIdentity) (socket : Option (ℕ × ℕ))
    (activeBinding : Option MonitorBinding) :
    Option (MonitorPreactivationJournalSnapshot binding) :=
  if h : 1 ≤ revision ∧ revision ≤ maxRevision ∧
      Admissible binding phase socket activeBinding then
    some ⟨generation, nonceDigest, phase, revision, writer, socket, activeBinding, h.1, h.2.1,
      h.2.2⟩
  else none

variable (binding) in
/-- The snapshots of a run, with their texts. -/
abbrev Loaded := MonitorPreactivationJournalSnapshot binding × List UInt8

/-- `create`: what it publishes over what is there, if it goes that far. -/
def createCandidate (loaded : Option (Loaded binding)) (generation : Uuid) (nonceDigest : Digest)
    (writer : Process) (socketIsThere : Bool) :
    Option (MonitorPreactivationJournalSnapshot binding) :=
  let revision := match loaded with
    | none => 1
    | some (previous, _) => previous.revision + 1
  match candidate generation nonceDigest .claiming revision writer.1 none none, loaded with
  | none, _ => none
  | some s, none => some s
  | some s, some (previous, _) =>
    if previous.phase != .abandoned || hasActivationEvidence previous || socketIsThere then none
    else some s

/-- `adopt_stale` and `_take_over`: what they publish over the journal that is there, if they
go that far. -/
def adoptCandidate (process : Process) (generation : Uuid) (loaded expected : Loaded binding)
    (writer : Process) (liveness : ProcessLiveness) :
    Option (MonitorPreactivationJournalSnapshot binding) :=
  let s := expected.1
  if loaded ≠ expected then none
  else if hasActivationEvidence s || s.phase = .controlLost then none
  else if liveness ≠ .stale then none
  else if process ≠ writer || s.phase = .abandoned || s.phase = .controlLost ||
      hasActivationEvidence s then none
  else candidate generation s.nonceDigest .adopting (s.revision + 1) writer.1 s.socket none

end

/-- The operations that move the journal of a lease to another phase. -/
inductive Transition
  | markPrepared (device inode : UInt64)
  | markCommitted | markActivating
  | promoteActive (b : MonitorBinding)
  | markReady | markTerminal | markAborting | markAbandoned | markControlLost

namespace Transition

/-- The phase a transition goes to. -/
def phase : Transition → PreactivationPhase
  | markPrepared .. => .prepared
  | markCommitted => .committed
  | markActivating => .activating
  | promoteActive _ => .active
  | markReady => .ready
  | markTerminal => .terminal
  | markAborting => .aborting
  | markAbandoned => .abandoned
  | markControlLost => .controlLost

/-- The phases it may come from. -/
def allowed : Transition → PreactivationPhase → Bool
  | markPrepared .., p => p = .claiming
  | markCommitted, p => p = .prepared
  | markActivating, p => p = .committed
  | promoteActive _, p => p = .activating
  | markReady, p => p = .active
  | markTerminal, p => p = .ready
  | markAborting, p => p = .claiming || p = .prepared || p = .committed
  | markAbandoned, p => p = .aborting || p = .adopting
  | markControlLost, p => p = .aborting || p = .adopting || p.isActivation

/-- The socket of the new journal. -/
def socket : Transition → Option (ℕ × ℕ) → Option (ℕ × ℕ)
  | markPrepared device inode, _ => some (device.toNat, inode.toNat)
  | _, o => o

/-- What is checked before the journal is read. -/
def isValid (binding : MonitorPreActivationBinding) : Transition → Bool
  | promoteActive b => validateActiveBinding b binding
  | _ => true

/-- The binding of the domain in the new journal. -/
def activeBinding : Transition → Option MonitorBinding → Option MonitorBinding
  | promoteActive b, _ => some b
  | _, o => o

end Transition

section

variable {binding : MonitorPreActivationBinding}

/-- `_transition`: what it publishes. The writer of a journal does not change. -/
def transitionCandidate (generation : Uuid) (s : MonitorPreactivationJournalSnapshot binding)
    (t : Transition) : Option (MonitorPreactivationJournalSnapshot binding) :=
  if t.allowed s.phase then
    candidate generation s.nonceDigest t.phase (s.revision + 1) s.writer (t.socket s.socket)
      (t.activeBinding s.activeBinding)
  else none

end

/-! ### Leases -/

section

variable (binding : MonitorPreActivationBinding)

/-- A lease that is open: the process that has it, the generation it is for, and the journal as
it knows it, unless it is poisoned. -/
structure PreactivationJournalLease where
  process : Process
  generation : Uuid
  snapshot : Option (Loaded binding)

/-- A ledger with the lease that holds its lock, if there is one. -/
structure LedgerState where
  directory : Directory
  lease : Option (PreactivationJournalLease binding)

/-- What a process calls. -/
inductive Operation
  | create (generation : Uuid) (nonceDigest : Digest) (writer : Process) (socketIsThere : Bool)
  | adoptStale (generation : Uuid) (expected : Loaded binding) (writer : Process)
    (liveness : ProcessLiveness)
  | transition (t : Transition)
  /-- The lease is closed, by the process or because the process is killed. -/
  | close

/-- A call by a process, with the random part of its temporary name and what its `write` calls
answer, and after how many steps of the publication it is killed, if it is. -/
structure Event where
  process : Process
  operation : Operation binding
  token : String
  counts : List ℕ
  kill : Option ℕ

variable {binding}

abbrev euid (binding : MonitorPreActivationBinding) : ℕ := binding.ownerUid.toNat

/-- The journal as the file says, whatever its attributes are. -/
def visible (d : Directory) : Option (MonitorPreactivationJournalSnapshot binding) :=
  (d.look journalName).bind fun f => decodePreactivationSnapshot binding f.2.1.content

variable (binding) in
/-- The directory when a process has opened the lock and makes no further change. -/
def opened (d : Directory) (kill : Option ℕ) : Directory :=
  killed (openLock (euid binding) d (Attempt.lock d))
    (kill.getD (openLock (euid binding) d (Attempt.lock d)).length) d

variable (e : Event binding)

/-- The publication of a snapshot. -/
def Event.attempt (s : MonitorPreactivationJournalSnapshot binding) :
    Attempt (MonitorPreactivationJournalSnapshot binding) :=
  ⟨s, e.token, e.counts, e.kill⟩

/-- A snapshot is published; the lease is what is left of the process that publishes, if it
came to the end of the publication and if it raised. -/
def publish (d : Directory) (s : MonitorPreactivationJournalSnapshot binding) (generation : Uuid)
    (raised : Option (PreactivationJournalLease binding)) : LedgerState binding where
  directory := (e.attempt s).leaves (preactivationLedger binding) (euid binding) d
  lease :=
    if e.kill.isSome then none
    else if (exec ((e.attempt s).steps (preactivationLedger binding) (euid binding) d) d).2.isNone
    then some ⟨e.process, generation, (s.encode).map fun content => (s, content)⟩
    else raised

/-- `_require_authority`, for the journal that the lease knows. -/
def hasAuthority (d : Directory) (loaded : Loaded binding) : Bool :=
  (match d.find lockName with
    | some i => lockIsValid (euid binding) i d
    | none => false) &&
  (preactivationLedger binding).read (euid binding) (some loaded.1.generation) false d =
    .ok (some loaded) &&
  e.process.1 = loaded.1.writer

/-- One event. -/
def step (st : LedgerState binding) : LedgerState binding :=
  match st.lease, e.operation with
  | some _, .create .. | some _, .adoptStale .. => st
  | none, .transition _ | none, .close => st
  | none, .create generation nonceDigest writer socketIsThere =>
    match (preactivationLedger binding).read (euid binding) none true st.directory with
    | .error _ => ⟨opened binding st.directory e.kill, none⟩
    | .ok loaded =>
      match createCandidate loaded generation nonceDigest writer socketIsThere with
      | none => ⟨opened binding st.directory e.kill, none⟩
      | some s => publish e st.directory s generation none
  | none, .adoptStale generation expected writer liveness =>
    match (preactivationLedger binding).read (euid binding) (some generation) false
        st.directory with
    | .error _ | .ok none => ⟨opened binding st.directory e.kill, none⟩
    | .ok (some loaded) =>
      match adoptCandidate e.process generation loaded expected writer liveness with
      | none => ⟨opened binding st.directory e.kill, none⟩
      | some s => publish e st.directory s generation none
  | some lease, .close =>
    if e.process = lease.process then ⟨st.directory, none⟩ else st
  | some lease, .transition t =>
    if e.process ≠ lease.process || !t.isValid binding then st
    else match lease.snapshot with
      | none => st
      | some loaded =>
        let poisoned : PreactivationJournalLease binding := { lease with snapshot := none }
        if hasAuthority e st.directory loaded then
          match transitionCandidate lease.generation loaded.1 t with
          | none => st
          | some s => publish e st.directory s lease.generation (some poisoned)
        else ⟨st.directory, some poisoned⟩

/-- The state after a run. -/
def run (st : LedgerState binding) (events : List (Event binding)) : LedgerState binding :=
  events.foldl (fun st e => step e st) st

/-- The journal an event publishes, if it publishes one. -/
def published (st : LedgerState binding) : Option (MonitorPreactivationJournalSnapshot binding) :=
  if (visible (step e st).directory : Option (MonitorPreactivationJournalSnapshot binding)) =
      visible st.directory then none
  else visible (step e st).directory

/-- The journals that a run publishes. -/
def journals (st : LedgerState binding) :
    List (Event binding) → List (MonitorPreactivationJournalSnapshot binding)
  | [] => []
  | e :: events => (published e st).toList ++ journals (step e st) events

end

end Palimpsest.Monitor.Preactivation
