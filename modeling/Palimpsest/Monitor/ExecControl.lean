import Palimpsest.Control.Message
import Palimpsest.Lib.Throughout

/-!
# The mailbox of the lifecycle worker

`MonitorExecControl` holds at most one command at a time. Clients submit it, poll its output
and acknowledge its result; the worker takes it, appends output and completes it. Every method
runs under one lock, so that a run of any number of clients and of the worker is a list of
operations, and its record (`Palimpsest.Monitor.Entry`) says for each the mailbox before and
after and what was answered.

What an operation can do is said once, as `Palimpsest.Monitor.Effect`; the main result is
`Palimpsest.Monitor.exec_exactly_once`.
-/

namespace Palimpsest.Monitor

open Control Json

def maxExecOutput : ℕ := 65536

def maxExecChunk : ℕ := 1024

def maxExecSequence : ℤ := 2 ^ 63 - 1

/-! ### The mailbox -/

structure MonitorExecJob where
  sequence : ℤ
  token : String
  argv : List String
  timeoutMs : ℤ
  deriving DecidableEq

inductive ExecState
  | notReady | ready | stopping | terminal | controlLost
  deriving DecidableEq

inductive JobState
  | queued | running | completed | controlLost
  deriving DecidableEq

structure MonitorExecControl where
  state : ExecState
  next : ℤ
  job : Option MonitorExecJob
  jobState : Option JobState
  stdout : List UInt8
  stderr : List UInt8
  terminal : Option (List (String × Value))
  reason : Option String
  lastAck : Option (ℤ × String)

structure MonitorExecStatus where
  state : ExecState
  nextSequence : ℤ
  occupied : Bool

structure MonitorExecPoll where
  sequence : ℤ
  token : String
  state : Option JobState
  stdoutOffset : ℤ
  stderrOffset : ℤ
  stdoutHex : Text
  stderrHex : Text
  stdoutSize : ℕ
  stderrSize : ℕ
  terminal : Option (List (String × Value))
  reason : Option String

/-- `_identity` -/
def identity (sequence : ℤ) (token : String) : Except String Unit :=
  if 1 ≤ sequence ∧ sequence ≤ maxExecSequence ∧ isUuid token then .ok ()
  else .error "invalid-request"

/-- `validate_exec_request` -/
def validateExecRequest (argv : List String) (timeoutMs : ℤ) : Except String (List String) :=
  match validateExecArgv argv, validateExecTimeout timeoutMs with
  | .ok result, .ok _ => .ok result.1
  | _, _ => .error "invalid-request"

/-- `terminal` is a mapping with the two keys, one of them naming a result. -/
def isResult (d : List (String × Value)) : Bool :=
  (keys d).all (fun k => k = "exit_code" ∨ k = "signal") && "exit_code" ∈ keys d &&
    "signal" ∈ keys d &&
    match field d "exit_code", field d "signal" with
    | .int exited, .null => 0 ≤ exited && exited ≤ 255
    | .null, .int signaled => 1 ≤ signaled && signaled ≤ 64
    | _, _ => false

namespace MonitorExecControl

/-- `MonitorExecControl()` -/
def init : MonitorExecControl where
  state := .notReady
  next := 1
  job := none
  jobState := none
  stdout := []
  stderr := []
  terminal := none
  reason := none
  lastAck := none

variable (c : MonitorExecControl)

def output : Stream → List UInt8
  | .stdout => c.stdout
  | .stderr => c.stderr

def status : MonitorExecStatus :=
  { state := c.state, nextSequence := c.next, occupied := c.job.isSome }

def markReady : MonitorExecControl :=
  if c.state = .notReady then { c with state := .ready } else c

/-- The state a mailbox is closed to. -/
def closeReason : String → Option ExecState
  | "stopping" => some .stopping
  | "terminal" => some .terminal
  | "control-lost" => some .controlLost
  | _ => none

def closeToExec (reason : String) : Except String Unit × MonitorExecControl :=
  match closeReason reason with
  | none => (.error "invalid-state", c)
  | some reason =>
    let closed := if c.state ≠ .terminal ∧ c.state ≠ .controlLost then { c with state := reason }
      else c
    if (reason = .terminal ∨ reason = .controlLost) ∧
        (c.jobState = some .queued ∨ c.jobState = some .running) then
      (.ok (), { closed with jobState := some .controlLost, reason := some "control-lost" })
    else (.ok (), closed)

/-- What a poll of the job answers when the offsets are in range. -/
def pollOf (job : MonitorExecJob) (stdoutOffset stderrOffset : ℤ) : MonitorExecPoll where
  sequence := job.sequence
  token := job.token
  state := c.jobState
  stdoutOffset := stdoutOffset
  stderrOffset := stderrOffset
  stdoutHex := hexText ((c.stdout.drop stdoutOffset.toNat).take maxExecChunk)
  stderrHex := hexText ((c.stderr.drop stderrOffset.toNat).take maxExecChunk)
  stdoutSize := c.stdout.length
  stderrSize := c.stderr.length
  terminal := c.terminal
  reason := c.reason

/-- `_poll` -/
def pollJob (job : MonitorExecJob) (stdoutOffset stderrOffset : ℤ) :
    Except String MonitorExecPoll :=
  if (0 ≤ stdoutOffset ∧ stdoutOffset ≤ c.stdout.length) ∧
      (0 ≤ stderrOffset ∧ stderrOffset ≤ c.stderr.length) then
    .ok (c.pollOf job stdoutOffset stderrOffset)
  else .error "invalid-offset"

def submit (sequence : ℤ) (token : String) (argv : List String) (timeoutMs : ℤ) :
    Except String MonitorExecPoll × MonitorExecControl :=
  match identity sequence token, validateExecRequest argv timeoutMs with
  | .error category, _ | .ok (), .error category => (.error category, c)
  | .ok (), .ok argv =>
    let candidate : MonitorExecJob := ⟨sequence, token, argv, timeoutMs⟩
    if sequence ≠ c.next then (.error "stale-sequence", c)
    else
      match c.job with
      | some job => if job ≠ candidate then (.error "busy", c) else (c.pollJob job 0 0, c)
      | none =>
        if c.state ≠ .ready ∨ c.next = maxExecSequence then (.error "not-ready", c)
        else
          let started := { c with job := some candidate, jobState := some .queued }
          (started.pollJob candidate 0 0, started)

/-- `_require` -/
def require (sequence : ℤ) (token : String) : Except String MonitorExecJob :=
  match c.job with
  | some job => if (job.sequence, job.token) = (sequence, token) then .ok job
    else .error "unknown-job"
  | none => .error "unknown-job"

def poll (sequence : ℤ) (token : String) (stdoutOffset stderrOffset : ℤ) :
    Except String MonitorExecPoll := do
  identity sequence token
  let job ← c.require sequence token
  c.pollJob job stdoutOffset stderrOffset

def acknowledge (sequence : ℤ) (token : String) :
    Except String MonitorExecStatus × MonitorExecControl :=
  match identity sequence token with
  | .error category => (.error category, c)
  | .ok () =>
    if c.lastAck = some (sequence, token) then (.ok c.status, c)
    else
      match c.require sequence token with
      | .error category => (.error category, c)
      | .ok _ =>
        if c.jobState ≠ some .completed then (.error "not-completed", c)
        else
          let acknowledged := { c with
            lastAck := some (sequence, token), next := c.next + 1, job := none, jobState := none
            terminal := none, reason := none, stdout := [], stderr := [] }
          (.ok acknowledged.status, acknowledged)

def takeExec : Option MonitorExecJob × MonitorExecControl :=
  if c.state ≠ .ready ∨ c.jobState ≠ some .queued then (none, c)
  else (c.job, { c with jobState := some .running })

/-- The stream a name stands for. -/
def streamOf (name : String) : Option Stream :=
  if name = Stream.stdout.text then some .stdout
  else if name = Stream.stderr.text then some .stderr
  else none

/-- The mailbox with bytes added to one of its outputs. -/
def extend (data : List UInt8) : Stream → MonitorExecControl
  | .stdout => { c with stdout := c.stdout ++ data }
  | .stderr => { c with stderr := c.stderr ++ data }

def appendOutput (job : MonitorExecJob) (stream : String) (offset : ℤ) (data : List UInt8) :
    Except String Unit × MonitorExecControl :=
  match streamOf stream with
  | none => (.error "invalid-output", c)
  | some stream =>
    if c.job ≠ some job ∨ c.jobState ≠ some .running then (.error "invalid-output", c)
    else if offset ≠ (c.output stream).length ∨ ¬(1 ≤ data.length ∧ data.length ≤ maxExecChunk) ∨
        c.stdout.length + c.stderr.length + data.length > maxExecOutput then
      (.error "invalid-output", c)
    else (.ok (), c.extend data stream)

/-- What `complete` checks before it takes the lock. -/
def ResultOk (terminal : Option Value) (stdoutBytes stderrBytes : ℤ) (reason : String) : Bool :=
  (reason = "completed" || reason = "timeout" || reason = "output-limit" || reason = "cancelled") &&
    match terminal with
    | none => reason = "cancelled" && stdoutBytes = 0 && stderrBytes = 0
    | some (.dict d) => isResult d
    | some _ => false

/-- `dict(terminal)` -/
def resultOf : Option Value → Option (List (String × Value))
  | some (.dict d) => some d
  | _ => none

def complete (job : MonitorExecJob) (terminal : Option Value) (stdoutBytes stderrBytes : ℤ)
    (reason : String) : Except String Unit × MonitorExecControl :=
  if ¬ResultOk terminal stdoutBytes stderrBytes reason then (.error "invalid-result", c)
  else if c.job ≠ some job ∨ c.jobState ≠ some .running ∨ stdoutBytes ≠ c.stdout.length ∨
      stderrBytes ≠ c.stderr.length then
    (.error "invalid-result", c)
  else
    (.ok (), { c with
      terminal := resultOf terminal, reason := some reason, jobState := some .completed })

end MonitorExecControl

/-! ### Runs -/

/-- A call of a method, by a client or by the worker. -/
inductive Operation
  | status
  | markReady
  | closeToExec (reason : String)
  | submit (sequence : ℤ) (token : String) (argv : List String) (timeoutMs : ℤ)
  | poll (sequence : ℤ) (token : String) (stdoutOffset stderrOffset : ℤ)
  | acknowledge (sequence : ℤ) (token : String)
  | takeExec
  | appendOutput (job : MonitorExecJob) (stream : String) (offset : ℤ) (data : List UInt8)
  | complete (job : MonitorExecJob) (terminal : Option Value) (stdoutBytes stderrBytes : ℤ)
    (reason : String)

/-- What a method returns or raises. -/
inductive Answer
  | nothing
  | status (s : MonitorExecStatus)
  | poll (p : MonitorExecPoll)
  | job (j : Option MonitorExecJob)
  | raised (category : String)

/-- The answer of a method that may raise. -/
def answer {α : Type} (f : α → Answer) : Except String α → Answer
  | .ok a => f a
  | .error category => .raised category

def MonitorExecControl.perform (c : MonitorExecControl) :
    Operation → Answer × MonitorExecControl
  | .status => (.status c.status, c)
  | .markReady => (.nothing, c.markReady)
  | .closeToExec reason =>
    let r := c.closeToExec reason
    (answer (fun _ => .nothing) r.1, r.2)
  | .submit sequence token argv timeoutMs =>
    let r := c.submit sequence token argv timeoutMs
    (answer .poll r.1, r.2)
  | .poll sequence token stdoutOffset stderrOffset =>
    (answer .poll (c.poll sequence token stdoutOffset stderrOffset), c)
  | .acknowledge sequence token =>
    let r := c.acknowledge sequence token
    (answer .status r.1, r.2)
  | .takeExec =>
    let r := c.takeExec
    (.job r.1, r.2)
  | .appendOutput job stream offset data =>
    let r := c.appendOutput job stream offset data
    (answer (fun _ => .nothing) r.1, r.2)
  | .complete job terminal stdoutBytes stderrBytes reason =>
    let r := c.complete job terminal stdoutBytes stderrBytes reason
    (answer (fun _ => .nothing) r.1, r.2)

/-- An operation with the mailbox before and after it and with its answer. -/
structure Entry where
  before : MonitorExecControl
  operation : Operation
  answer : Answer
  after : MonitorExecControl

/-- A mailbox with the record of the operations on it. -/
structure Mailbox where
  control : MonitorExecControl
  log : List Entry

def Mailbox.step (b : Mailbox) (op : Operation) : Mailbox :=
  let r := b.control.perform op
  { control := r.2, log := b.log ++ [⟨b.control, op, r.1, r.2⟩] }

/-- A mailbox from its creation through any operations. -/
def mailbox (ops : List Operation) : Mailbox :=
  ops.foldl Mailbox.step { control := .init, log := [] }

end Palimpsest.Monitor
