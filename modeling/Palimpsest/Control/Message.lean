import Palimpsest.Control.Grammar

/-!
# Lifecycle messages

The twelve kinds of messages of the control protocol, each with the fields that
`OCIControlV2Message` accepts for it and with the facts its constructor checks. The
lifecycle digest of a boundary acknowledgement is a function of the other fields and
is not stored.

The constructor reads the terminal result of a boundary acknowledgement through
`dict(terminal)`, so that a list of pairs is accepted where every other message wants
a mapping, and is kept as it came; `Palimpsest.Control.TerminalResult` has both forms.
-/

namespace Palimpsest.Control

open Json

/-! ### Terminal results -/

/-- How the workload ended. -/
inductive Terminal
  | exitCode (code : ℕ) (h : code ≤ 255)
  | signal (number : ℕ) (h : 1 ≤ number ∧ number ≤ 64)
  deriving DecidableEq

/-- `dict(terminal)` as a field of a message. -/
def Terminal.toValue : Terminal → Value
  | exitCode code _ => .dict [("exit_code", .int code), ("signal", .null)]
  | signal number _ => .dict [("exit_code", .null), ("signal", .int number)]

/-- `_exact`, for a value that is to be a mapping with these keys. -/
def exact (v : Value) (fields : List String) (label : String) :
    Except Raised (List (String × Value)) :=
  match v with
  | .dict d =>
    if (∀ k ∈ keys d, k ∈ fields) ∧ ∀ k ∈ fields, k ∈ keys d then .ok d
    else .error (.protocol (label ++ " fields are invalid"))
  | _ => .error (.protocol (label ++ " fields are invalid"))

/-- The value of a key that is there. -/
def field (d : List (String × Value)) (k : String) : Value := (lookup k d).getD .null

/-- `_terminal` -/
def terminal (v : Value) : Except Raised Terminal := do
  let d ← exact v ["exit_code", "signal"] "terminal"
  match field d "exit_code", field d "signal" with
  | .null, .null => .error (.protocol "terminal status must contain exactly one result")
  | .int code, .null =>
    if h : 0 ≤ code ∧ code ≤ 255 then .ok (.exitCode code.toNat (by omega))
    else .error (.protocol "terminal exit code is invalid")
  | _, .null => .error (.protocol "terminal exit code is invalid")
  | .null, .int number =>
    if h : 1 ≤ number ∧ number ≤ 64 then .ok (.signal number.toNat (by omega))
    else .error (.protocol "terminal signal is invalid")
  | .null, _ => .error (.protocol "terminal signal is invalid")
  | _, _ => .error (.protocol "terminal status must contain exactly one result")

/-- What `dict` takes one of its items for: a key and a value. -/
def pairOf : Value → Except Raised (Value × Value)
  | .list [.list _, _] | .list [.dict _, _] => .error .typeError
  | .list [k, v] => .ok (k, v)
  | .str s =>
    match s.toList with
    | [a, b] => .ok (.str (String.singleton a), .str (String.singleton b))
    | _ => .error .valueError
  | .dict [(k, _), (l, _)] => .ok (.str k, .str l)
  | .list _ | .dict _ => .error .valueError
  | _ => .error .typeError

/-- A dictionary with a pair added: the last value of a key is kept. -/
def insertPair (d : List (Value × Value)) (p : Value × Value) : List (Value × Value) :=
  d.filter (fun q => q.1 ≠ p.1) ++ [p]

/-- The fields of a dictionary whose keys are strings. -/
def stringFields (d : List (Value × Value)) : Option (List (String × Value)) :=
  d.mapM fun (k, v) => match k with
    | .str s => some (s, v)
    | _ => none

/-- `_terminal(dict(terminal))`, for a list. -/
def terminalOfItems (items : List Value) : Except Raised Terminal := do
  let pairs ← items.mapM pairOf
  match stringFields (pairs.foldl insertPair []) with
  | some d => terminal (.dict d)
  | none => .error (.protocol "terminal fields are invalid")

/-- The terminal result of a boundary acknowledgement. -/
inductive TerminalResult
  | mapping (t : Terminal)
  /-- A list that `dict` turns into a mapping. -/
  | pairs (items : List Value) (t : Terminal) (h : terminalOfItems items = .ok t)

/-- The result a boundary acknowledgement names. -/
def TerminalResult.result : TerminalResult → Terminal
  | mapping t => t
  | pairs _ t _ => t

/-- The result as a field of a message. -/
def TerminalResult.toValue : TerminalResult → Value
  | mapping t => t.toValue
  | pairs items _ _ => .list items

/-- Equality of terminal results, a list and a mapping being different. -/
instance : DecidableEq TerminalResult := fun r r' =>
  match r, r' with
  | .mapping t, .mapping t' => decidable_of_iff (t = t') (by simp)
  | .pairs l t h, .pairs l' t' h' => decidable_of_iff (l = l') (by
      constructor
      · rintro rfl
        rw [TerminalResult.pairs.injEq]
        exact ⟨rfl, by rw [h] at h'; exact Except.ok.inj h'⟩
      · intro e
        rw [TerminalResult.pairs.injEq] at e
        exact e.1)
  | .mapping _, .pairs _ _ _ | .pairs _ _ _, .mapping _ => isFalse (by simp)

/-! ### Lifecycle states -/

/-- The public state of a workload. -/
inductive LifecycleState (R : Type)
  | ready
  | stopping (stopRequestId : Counter)
  | terminal (stopRequestId : Option Counter) (result : R)
  deriving DecidableEq

namespace LifecycleState

variable {R S : Type}

/-- The state with its terminal result in another form. -/
def map (f : R → S) : LifecycleState R → LifecycleState S
  | ready => .ready
  | stopping n => .stopping n
  | terminal n r => .terminal n (f r)

/-- The name of a state. -/
def name : LifecycleState R → String
  | ready => "ready"
  | stopping _ => "stopping"
  | terminal _ _ => "terminal"

/-- The request that asked for the stop. -/
def stopRequestId : LifecycleState R → Option Counter
  | ready => none
  | stopping n => some n
  | terminal n _ => n

end LifecycleState

/-- A counter, or none. -/
def counterValue : Option Counter → Value
  | none => .null
  | some n => .int n.1

/-- The three fields of a lifecycle state. -/
def LifecycleState.fields {R : Type} (f : R → Value) (s : LifecycleState R) :
    List (String × Value) :=
  [("state", .str s.name), ("stop_request_id", counterValue s.stopRequestId),
    ("terminal", match s with
      | terminal _ r => f r
      | _ => .null)]

/-- `lifecycle_state_digest`: what it hashes. -/
def publicState (s : LifecycleState Terminal) : Value :=
  .dict (("schema", .str "palimpsest.oci-lifecycle-public-state.v1") :: s.fields Terminal.toValue)

theorem Terminal.isSome_dumps (t : Terminal) : (dumps t.toValue).isSome := by
  cases t with
  | exitCode code h => simp [toValue, isSome_dumps_natCast (n := code) (by omega)]
  | signal number h => simp [toValue, isSome_dumps_natCast (n := number) (by omega)]

theorem isSome_dumps_counterValue (n : Option Counter) : (dumps (counterValue n)).isSome := by
  cases n with
  | none => rfl
  | some n => exact isSome_dumps_natCast (lt_of_le_of_lt n.2.2 (by decide))

theorem isSome_dumps_publicState (s : LifecycleState Terminal) :
    (dumps (publicState s)).isSome := by
  have hn := isSome_dumps_counterValue s.stopRequestId
  cases s with
  | ready => simpa [publicState, LifecycleState.fields] using hn
  | stopping n => simpa [publicState, LifecycleState.fields] using hn
  | terminal n t =>
    simpa [publicState, LifecycleState.fields] using ⟨hn, t.isSome_dumps⟩

/-- `lifecycle_state_digest` -/
def lifecycleStateDigest (s : LifecycleState Terminal) : Digest :=
  digestOf (encodeUtf8 ((dumps (publicState s)).get (isSome_dumps_publicState s)))

/-! ### The kinds of messages -/

inductive Kind
  | hello | bootstrap | keyAck | reconnect | boundaryAck | ready | snapshot | stop | terminal
  | exec | execOutput | execExit
  deriving DecidableEq

/-- The name of a kind. -/
def Kind.text : Kind → String
  | hello => "HELLO"
  | bootstrap => "BOOTSTRAP"
  | keyAck => "KEY_ACK"
  | reconnect => "RECONNECT"
  | boundaryAck => "BOUNDARY_ACK"
  | ready => "READY"
  | snapshot => "SNAPSHOT"
  | stop => "STOP"
  | terminal => "TERMINAL"
  | exec => "EXEC"
  | execOutput => "EXEC_OUTPUT"
  | execExit => "EXEC_EXIT"

/-- `_KINDS` -/
def Kind.all : List Kind :=
  [hello, bootstrap, keyAck, reconnect, boundaryAck, ready, snapshot, stop, terminal, exec,
    execOutput, execExit]

/-- `_HOST_KINDS` -/
def Kind.isHost : Kind → Bool
  | hello | keyAck | reconnect | stop | exec => true
  | _ => false

/-- The kinds whose body has a request identifier. -/
def Kind.hasRequest : Kind → Bool
  | hello | reconnect | stop | exec => true
  | _ => false

/-! ### Payloads -/

/-- The identity of the root directory that `validate_root_identity` accepts. -/
structure RootIdentity where
  device : ℕ
  inode : ℕ
  device_le : device ≤ maxU64
  inode_pos : 1 ≤ inode
  inode_le : inode ≤ maxU64
  deriving DecidableEq

def RootIdentity.toValue (i : RootIdentity) : Value :=
  .dict [("schema", .str "palimpsest.oci-root-identity.v1"), ("pid", .int 1),
    ("filesystem", .str "overlayfs"), ("device", .int i.device), ("inode", .int i.inode)]

/-- What the parser of the guest had read of a frame when the connection was lost: no
byte, some of the header, or some of the payload. -/
def ParserState (header payload expected : ℕ) : Prop :=
  header = 0 ∧ payload = 0 ∧ expected = 0 ∨
    1 ≤ header ∧ header ≤ 3 ∧ payload = 0 ∧ expected = 0 ∨
    header = 0 ∧ 1 ≤ expected ∧ expected ≤ maxPayloadBytes ∧ payload < expected

instance (header payload expected : ℕ) : Decidable (ParserState header payload expected) :=
  inferInstanceAs (Decidable (_ ∨ _))

/-- The payload of a boundary acknowledgement. -/
structure BoundaryAck where
  boundaryId : Uuid
  discardedHeaderBytes : ℕ
  discardedPayloadBytes : ℕ
  discardedPayloadExpected : ℕ
  lastAcceptedH2gWireSequence : ℕ
  lastAttemptedG2hWireSequence : ℕ
  lifecycleState : LifecycleState TerminalResult
  previousEpoch : ℕ
  parser_ok : ParserState discardedHeaderBytes discardedPayloadBytes discardedPayloadExpected
  accepted_le : lastAcceptedH2gWireSequence ≤ maxCounter
  attempted_le : lastAttemptedG2hWireSequence ≤ maxCounter
  previous_le : previousEpoch ≤ maxCounter
  deriving DecidableEq

/-- The digest of the state a boundary acknowledgement commits. -/
def BoundaryAck.stateDigest (b : BoundaryAck) : Digest :=
  lifecycleStateDigest (b.lifecycleState.map TerminalResult.result)

/-- The signal of a STOP: the integer 15, or the float that equals it. -/
inductive StopSignal
  | int | float
  deriving DecidableEq

def StopSignal.toValue : StopSignal → Value
  | int => .int 15
  | float => .float ⟨"15.0".toList, by decide⟩

/-- What `validate_exec_argv` demands of a list of strings. -/
def ExecArgv (argv : List String) : Prop :=
  (1 ≤ argv.length ∧ argv.length ≤ maxOCIExecArgs) ∧
    ((∀ a ∈ argv, '\x00' ∉ a.toList) ∧ argv.head? ≠ some "") ∧
    ∃ b, canonicalJsonBytes (.list (argv.map .str)) = .ok b ∧ b.length ≤ maxOCIExecArgvBytes

/-- `validate_exec_argv` -/
def validateExecArgv (argv : List String) : Except Raised {l : List String // ExecArgv l} :=
  if hn : 1 ≤ argv.length ∧ argv.length ≤ maxOCIExecArgs then
    if hs : (∀ a ∈ argv, '\x00' ∉ a.toList) ∧ argv.head? ≠ some "" then
      match hb : canonicalJsonBytes (.list (argv.map .str)) with
      | .error _ => .error (.protocol "exec argv encoding is invalid")
      | .ok b =>
        if hl : b.length ≤ maxOCIExecArgvBytes then .ok ⟨argv, hn, hs, b, hb, hl⟩
        else .error (.protocol "exec argv exceeds its byte limit")
    else .error (.protocol "exec argv is invalid")
  else .error (.protocol "exec argv is invalid")

/-- `validate_exec_timeout` -/
def validateExecTimeout (timeoutMs : ℤ) :
    Except Raised {n : ℕ // 1 ≤ n ∧ n ≤ maxOCIExecTimeoutMs} :=
  if h : 1 ≤ timeoutMs ∧ timeoutMs ≤ maxOCIExecTimeoutMs then .ok ⟨timeoutMs.toNat, by omega⟩
  else .error (.protocol "exec timeout is invalid")

inductive Stream
  | stdout | stderr
  deriving DecidableEq

def Stream.text : Stream → String
  | stdout => "stdout"
  | stderr => "stderr"

/-- `(?:[0-9a-f]{2}){1,1024}` -/
def isDataHex (s : String) : Bool :=
  s.toList.length % 2 = 0 && 2 ≤ s.toList.length && s.toList.length ≤ 2048 && s.toList.all isHex

/-- The payload of an EXEC_OUTPUT. -/
structure ExecOutput where
  stream : Stream
  offset : ℕ
  dataHex : String
  offset_lt : offset < maxOCIExecOutputBytes
  data_ok : isDataHex dataHex
  end_le : offset + dataHex.toList.length / 2 ≤ maxOCIExecOutputBytes
  deriving DecidableEq

/-- The number of bytes an EXEC_OUTPUT carries. -/
def ExecOutput.count (o : ExecOutput) : ℕ := o.dataHex.toList.length / 2

inductive ExecReason
  | completed | timeout | outputLimit | cancelled
  deriving DecidableEq

def ExecReason.text : ExecReason → String
  | completed => "completed"
  | timeout => "timeout"
  | outputLimit => "output-limit"
  | cancelled => "cancelled"

/-- The payload of an EXEC_EXIT. -/
structure ExecExit where
  terminal : Option Terminal
  stdoutBytes : ℕ
  stderrBytes : ℕ
  reason : ExecReason
  total_le : stdoutBytes + stderrBytes ≤ maxOCIExecOutputBytes
  unstarted : terminal = none → reason = .cancelled ∧ stdoutBytes = 0 ∧ stderrBytes = 0
  deriving DecidableEq

/-- What a message of each kind carries beyond the common fields: its identifiers and
its payload. -/
inductive Content
  | hello (requestId : Counter)
  | bootstrap (bootGeneration : Uuid) (replyTo : Counter) (bootKey : Hex32)
  | keyAck (bootGeneration : Uuid) (replyTo : Counter)
  | reconnect (bootGeneration : Uuid) (requestId : Counter) (boundaryAckDigest : Digest)
      (boundaryId : Uuid)
  | boundaryAck (bootGeneration : Uuid) (replyTo : Counter) (boundary : BoundaryAck)
  | ready (bootGeneration : Uuid) (replyTo : Counter) (rootIdentity : Option RootIdentity)
  | snapshot (bootGeneration : Uuid) (replyTo : Counter) (state : LifecycleState Terminal)
  | stop (bootGeneration : Uuid) (requestId : Counter) (signal : StopSignal)
  | exec (bootGeneration : Uuid) (requestId : Counter) (argv : {l : List String // ExecArgv l})
      (timeoutMs : {n : ℕ // 1 ≤ n ∧ n ≤ maxOCIExecTimeoutMs})
  | execOutput (bootGeneration : Uuid) (replyTo : Counter) (output : ExecOutput)
  | execExit (bootGeneration : Uuid) (replyTo : Counter) (exit : ExecExit)
  | terminal (bootGeneration : Uuid) (replyTo : Option Counter) (result : Terminal)
  deriving DecidableEq

namespace Content

def kind : Content → Kind
  | hello .. => .hello
  | bootstrap .. => .bootstrap
  | keyAck .. => .keyAck
  | reconnect .. => .reconnect
  | boundaryAck .. => .boundaryAck
  | ready .. => .ready
  | snapshot .. => .snapshot
  | stop .. => .stop
  | exec .. => .exec
  | execOutput .. => .execOutput
  | execExit .. => .execExit
  | terminal .. => .terminal

def bootGeneration : Content → Option Uuid
  | hello _ => none
  | bootstrap g .. | keyAck g .. | reconnect g .. | boundaryAck g .. | ready g .. | snapshot g ..
  | stop g .. | exec g .. | execOutput g .. | execExit g .. | terminal g .. => some g

def requestId : Content → Option Counter
  | hello n | reconnect _ n .. | stop _ n _ | exec _ n .. => some n
  | _ => none

def replyTo : Content → Option Counter
  | bootstrap _ n _ | keyAck _ n | boundaryAck _ n _ | ready _ n _ | snapshot _ n _
  | execOutput _ n _ | execExit _ n _ => some n
  | terminal _ n _ => n
  | _ => none

/-- The epochs a kind of message may have. -/
def EpochOk (c : Content) (epoch : ℕ) : Prop :=
  match c.kind with
  | .hello | .bootstrap | .keyAck => epoch = 1
  | .reconnect | .boundaryAck => 1 < epoch
  | _ => True

instance (c : Content) (epoch : ℕ) : Decidable (c.EpochOk epoch) := by
  unfold EpochOk; cases c.kind <;> infer_instance

end Content

/-! ### Messages -/

structure OCIControlV2Binding where
  runId : Uuid
  domainCoreDigest : Digest
  stage1ArtifactDigest : Digest
  deriving DecidableEq

structure OCIControlV2Message where
  binding : OCIControlV2Binding
  bootAttemptId : Uuid
  hostNonce : Hex32
  epoch : Counter
  wireSequence : Counter
  content : Content
  epoch_ok : content.EpochOk epoch.1
  deriving DecidableEq

namespace OCIControlV2Message

/-- `direction` -/
def direction (m : OCIControlV2Message) : String :=
  if m.content.kind.isHost then "host-to-guest" else "guest-to-host"

end OCIControlV2Message

end Palimpsest.Control
