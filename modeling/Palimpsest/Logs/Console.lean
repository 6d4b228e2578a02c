import Mathlib.Data.List.Basic
import Palimpsest.Lib.Loop

/-!
# Log streams of retained consoles

A stream reads the console of a run through a descriptor that it pinned when it was opened, and
looks after the end of the file whether the run is over (`round`). While it does, the console
grows, the ledger of the run is replaced by one with another status, and the run is removed: its
directory is moved out of the directory of the runs first, and its files are unlinked after that
(`Drift`). The system calls of the stream (`Call`) are answered at the moments at which they are
made.
-/

namespace Palimpsest.Logs

open Calls

/-! ### Runs and events -/

inductive RuntimeKind
  | cloudImage
  | ociRoot
  deriving DecidableEq

inductive RunStatus
  | creating
  | defined
  | fetching
  | converting
  | rootMounted
  | starting
  | running
  | stopping
  | stopped
  | exited
  | removing
  | removed
  | failed
  deriving DecidableEq

/-- `ALLOWED_RUNTIME_STATUSES`. -/
def allowedRuntimeStatuses : RuntimeKind → List RunStatus
  | .cloudImage =>
    [.creating, .defined, .starting, .running, .stopping, .stopped, .removed, .failed]
  | .ociRoot =>
    [.creating, .defined, .fetching, .converting, .rootMounted, .starting, .running, .stopping,
      .stopped, .exited, .removing, .removed, .failed]

/-- `_TERMINAL_STATUSES`. -/
def terminalStatuses : List RunStatus := [.stopped, .removed, .failed, .exited]

/-- `LogMode`. -/
inductive LogMode
  | snapshot
  | follow
  deriving DecidableEq

/-- `LogErrorCategory`, of those a stream ends with. -/
inductive LogErrorCategory
  | consoleChanged
  | runChanged
  | readFailed
  deriving DecidableEq

/-- `LogTerminalOutcome`. -/
inductive Outcome
  | cancelled
  | error (category : LogErrorCategory)
  | snapshotComplete
  | runTerminal (status : RunStatus)
  deriving DecidableEq

/-- `LogDataEvent` and `LogTerminalEvent`, with the positions of their cursors. -/
inductive LogEvent
  | data (cursor sequence : ℕ) (content : List UInt8)
  | terminal (cursor : ℕ) (outcome : Outcome)
  deriving DecidableEq

/-- The bytes of a data event. -/
def LogEvent.content : LogEvent → List UInt8
  | .data _ _ content => content
  | .terminal _ _ => []

/-- The bytes that were delivered. -/
def dataOf (events : List LogEvent) : List UInt8 := events.flatMap LogEvent.content

/-! ### System calls -/

/-- A file of the ledger. -/
inductive LedgerFile
  | owner
  | state
  deriving DecidableEq

/-- A ledger file as it was written, which is not written to any more: its inode, and the status
in a `state.json`. -/
structure LedgerEntry where
  inode : ℕ
  status : Option RunStatus
  deriving DecidableEq

/-- What a name refers to: nothing, or what was pinned (by kind, owner, mode and identity), or
something else. -/
inductive Entry
  | missing
  | pinned
  | other
  deriving DecidableEq

/-- What `fstat` says of the console: whether it still is the regular private file that was
pinned, its links and its size. -/
structure ConsoleStat where
  pinned : Bool
  links : ℕ
  size : ℕ

/-- The calls of a stream, to the system and to its consumer. -/
inductive Call
  | fstatConsole
  | statConsole
  | pread (count offset : ℕ)
  | statRuns
  | statRun
  /-- The inode of a ledger file before it is opened. -/
  | statLedger (file : LedgerFile)
  /-- A ledger file is opened and read. -/
  | openLedger (file : LedgerFile)
  /-- Whether the name still refers to the file that was read, and this has not changed. -/
  | recheckLedger (file : LedgerFile) (inode : ℕ)
  | isCancelled
  /-- The pause between two looks at a run that goes on. -/
  | wait
  /-- An event is handed to the consumer. -/
  | deliver (event : LogEvent)

/-- The answers. -/
@[reducible]
def Call.Ans : Call → Type
  | fstatConsole => ConsoleStat
  | statConsole => Entry
  | pread _ _ => List UInt8
  | statRuns => Entry
  | statRun => Entry
  | statLedger _ => Option ℕ
  | openLedger _ => LedgerEntry
  | recheckLedger _ _ => Bool
  | isCancelled => Bool
  | wait => Bool
  | deliver _ => Unit

/-! ### The stream -/

abbrev Io := Program Call Call.Ans

/-- A program that may fail with an error of the stream. -/
def Source (α : Type) : Type := Io (Except LogErrorCategory α)

namespace Source

/-- `_fail`. -/
def fail {α : Type} (category : LogErrorCategory) : Source α := Program.done (.error category)

def bind {α β : Type} (p : Source α) (f : α → Source β) : Source β :=
  Program.bind p fun
    | .ok a => f a
    | .error category => fail category

instance : Monad Source where
  pure := fun a => Program.done (.ok a)
  bind := bind

/-- A call, and `None` where it raises. -/
def safely (c : Call) : Source (Option c.Ans) := Program.call c fun o => Program.done (.ok o)

end Source

open Source

/-- `PinnedRunConsole`: the kind of the run, and the size of the console when it was pinned. -/
structure PinnedRunConsole where
  kind : RuntimeKind
  initialSize : ℕ

/-- The variables of a stream: the position in the console, and the numbers of the last cursor
and of the last data event. -/
structure Reader where
  position : ℕ
  cursorPosition : ℕ
  streamSequence : ℕ

/-- `_opened_console_size`. -/
def openedConsoleSize (source : PinnedRunConsole) (r : Reader) (allowUnlinked : Bool) :
    Source ℕ := do
  match ← safely .fstatConsole with
  | none => fail .consoleChanged
  | some opened =>
    if opened.pinned = false ∨ opened.links ∉ (if allowUnlinked then [0, 1] else [1]) ∨
        opened.size < source.initialSize ∨ opened.size < r.position then
      fail .consoleChanged
    else pure opened.size

/-- `_console_size`. -/
def consoleSize (source : PinnedRunConsole) (r : Reader) (allowUnlinked : Bool) : Source ℕ := do
  let size ← openedConsoleSize source r allowUnlinked
  let current := (← safely .statConsole).getD .missing
  if current = .missing ∧ allowUnlinked then pure size
  else if current ≠ .pinned then fail .consoleChanged
  else pure size

/-- `PinnedRunConsole.read`. -/
def read (source : PinnedRunConsole) (r : Reader) (maximum : ℕ) (snapshot : Bool) :
    Source (List UInt8) := do
  let size ← consoleSize source r (!snapshot)
  let boundary := if snapshot then min size source.initialSize else size
  if boundary ≤ r.position then pure []
  else
    match ← safely (.pread (min maximum (boundary - r.position)) r.position) with
    | none => fail .readFailed
    | some content => if content = [] then fail .consoleChanged else pure content

/-- `_read_pinned_json_object`, where a `StateError` becomes the error of the stream. -/
def readPinnedJsonObject (file : LedgerFile) : Source LedgerEntry := do
  match (← safely (.statLedger file)).getD none with
  | none => fail .runChanged
  | some preOpen =>
    match ← safely (.openLedger file) with
    | none => fail .runChanged
    | some entry =>
      if entry.inode ≠ preOpen then fail .runChanged
      else if (← safely (.recheckLedger file entry.inode)) ≠ some true then fail .runChanged
      else pure entry

/-- `PinnedRunConsole.current_status`. -/
def currentStatus (source : PinnedRunConsole) (r : Reader) : Source RunStatus := do
  if (← safely .statRuns) ≠ some .pinned then fail .runChanged
  else
    match ← safely .statRun with
    | none => fail .runChanged
    | some .missing => do
      let _ ← openedConsoleSize source r true
      pure .removed
    | some .other => fail .runChanged
    | some .pinned => do
      let _ ← consoleSize source r false
      let _ ← readPinnedJsonObject .owner
      let rawState ← readPinnedJsonObject .state
      match rawState.status with
      | none => fail .runChanged
      | some status =>
        if status ∉ allowedRuntimeStatuses source.kind then fail .runChanged else pure status

/-- `_CHUNK_SIZE`. -/
def chunkSize : ℕ := 64 * 1024

/-- How a round ends: the variables for the next one, or the end of the stream. -/
abbrev Next := Reader ⊕ Unit

/-- A call whose answer is never missing. -/
def ask (c : Call) (default : c.Ans) : Io c.Ans := Program.call c fun o => .done (o.getD default)

/-- The terminal event. -/
def terminal (r : Reader) (outcome : Outcome) : Io Next := do
  ask (.deliver (.terminal (r.cursorPosition + 1) outcome)) ()
  return .inr ()

/-- A data event. -/
def deliverData (r : Reader) (content : List UInt8) : Io Next := do
  let next : Reader :=
    ⟨r.position + content.length, r.cursorPosition + 1, r.streamSequence + 1⟩
  ask (.deliver (.data next.cursorPosition next.streamSequence content)) ()
  if ← ask .isCancelled false then terminal next .cancelled else return .inl next

/-- The source is asked; an error ends the stream. -/
def orTerminal {α : Type} (p : Source α) (r : Reader) (f : α → Io Next) : Io Next :=
  Program.bind p fun
    | .ok a => f a
    | .error category => terminal r (.error category)

/-- What `_iterate` does before its loop. -/
def begin (r : Reader) : Io Next := do
  if ← ask .isCancelled false then terminal r .cancelled else return .inl r

/-- The body of the loop of `_iterate`. -/
def round (source : PinnedRunConsole) (mode : LogMode) (r : Reader) : Io Next :=
  orTerminal (read source r chunkSize (mode = .snapshot)) r fun content =>
    if content ≠ [] then deliverData r content
    else if mode = .snapshot then
      orTerminal (currentStatus source r) r fun _ => terminal r .snapshotComplete
    else
      orTerminal (currentStatus source r) r fun status =>
        if status ∈ terminalStatuses then
          -- What was appended between the end of the file and the status is read first.
          orTerminal (read source r chunkSize false) r fun content =>
            if content ≠ [] then deliverData r content else terminal r (.runTerminal status)
        else do
          if ← ask .wait false then terminal r .cancelled else return .inl r

/-! ### What happens meanwhile -/

/-- The files of a run that a stream looks at, and the stream as its consumer sees it. -/
structure World where
  /-- The bytes of the pinned console. -/
  content : List UInt8
  /-- The console is not unlinked. -/
  linked : Bool
  /-- The console is found under its name in the directory of the run. -/
  named : Bool
  /-- The directory is found under the name of the run. -/
  runNamed : Bool
  owner : Option LedgerEntry
  state : Option LedgerEntry
  /-- A terminal status was published, or the run was removed: nothing is appended any more. -/
  sealed : Bool
  cancelled : Bool
  /-- The ledger has been replaced or the removal has gone on since the last look at the run
  began. -/
  disturbed : Bool
  delivered : List LogEvent
  deriving DecidableEq

def World.ledger (w : World) : LedgerFile → Option LedgerEntry
  | .owner => w.owner
  | .state => w.state

/-- What happens besides the calls of the stream. -/
inductive Drift
  | append (bytes : List UInt8)
  /-- `state.json` is replaced by one with this status. -/
  | setStatus (status : RunStatus)
  /-- The directory is moved out of the directory of the runs. -/
  | detach
  /-- In a directory that was moved away, the name of the console is changed. -/
  | hideConsole
  | unlinkConsole
  | unlinkLedger (file : LedgerFile)
  | cancel
  deriving DecidableEq

/-- What becomes of the files. What cannot happen changes nothing. -/
def drift (kind : RuntimeKind) (d : Drift) (w : World) : World :=
  match d with
  | .append bytes => if w.sealed then w else { w with content := w.content ++ bytes }
  | .setStatus status =>
    match w.state with
    | some entry =>
      if w.runNamed ∧ status ∈ allowedRuntimeStatuses kind then
        { w with
          state := some ⟨entry.inode + 1, some status⟩
          sealed := w.sealed || status ∈ terminalStatuses
          disturbed := true }
      else w
    | none => w
  | .detach => { w with runNamed := false, sealed := true, disturbed := true }
  | .hideConsole => if w.runNamed then w else { w with named := false, disturbed := true }
  | .unlinkConsole =>
    if w.runNamed then w else { w with linked := false, named := false, disturbed := true }
  | .unlinkLedger .owner => if w.runNamed then w else { w with owner := none, disturbed := true }
  | .unlinkLedger .state => if w.runNamed then w else { w with state := none, disturbed := true }
  | .cancel => { w with cancelled := true }

/-- How a call is answered. A read returns so many of the bytes, and at least one if there is
one. -/
def answer (n : ℕ) (c : Call) (w : World) : Option c.Ans × World :=
  match c with
  | .fstatConsole => (some ⟨true, if w.linked then 1 else 0, w.content.length⟩, w)
  | .statConsole => (some (if w.named then .pinned else .missing), w)
  | .pread count offset => (some ((w.content.drop offset).take (min count (n + 1))), w)
  | .statRuns => (some .pinned, { w with disturbed := false })
  | .statRun => (some (if w.runNamed then .pinned else .missing), w)
  | .statLedger file => (some ((w.ledger file).map LedgerEntry.inode), w)
  | .openLedger file => (w.ledger file, w)
  | .recheckLedger file inode =>
    (some (decide ((w.ledger file).map LedgerEntry.inode = some inode)), w)
  | .isCancelled => (some w.cancelled, w)
  | .wait => (some w.cancelled, w)
  | .deliver event => (some (), { w with delivered := w.delivered ++ [event] })

/-- The files when the console was pinned. -/
def pinnedWorld (content : List UInt8) (status : RunStatus) : World where
  content := content
  linked := true
  named := true
  runNamed := true
  owner := some ⟨0, none⟩
  state := some ⟨0, some status⟩
  sealed := status ∈ terminalStatuses
  cancelled := false
  disturbed := false
  delivered := []

/-- A stream that was just opened. -/
def opened (content : List UInt8) (status : RunStatus) : Loop Call Call.Ans World Reader Unit :=
  ⟨pinnedWorld content status, begin ⟨0, 0, 0⟩⟩

/-- What a stream has come to after a sequence of events. -/
def streamed (kind : RuntimeKind) (mode : LogMode) (content : List UInt8) (status : RunStatus)
    (events : List (LoopEvent ℕ Drift)) : World :=
  ((opened content status).run answer (drift kind) (round ⟨kind, content.length⟩ mode)
    events).world

end Palimpsest.Logs
