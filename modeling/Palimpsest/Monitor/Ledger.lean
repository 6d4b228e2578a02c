import Palimpsest.Lib.Directory
import Palimpsest.Lib.Steps

/-!
# The journal of a monitor ledger

A ledger is a private directory with a lock file and one journal. The journal is never
written in place: a new one is written under a temporary name and then given the name of the
journal, by a link where there is no journal yet and by a rename where there is one.

There are two kinds of ledgers, with the same file names and the same steps; they differ in
what the journal says, which is what `Palimpsest.Monitor.Ledger` has as its fields. The
publication is a list of steps (`Palimpsest.Monitor.Attempt.steps`), so that a process killed
between two of them is a list cut short.
-/

namespace Palimpsest.Monitor

/-- The categories of errors. -/
inductive Category
  | invalidIdentity | invalidFrame | invalidJournal | journalIo | journalBusy | invalidTransition
  | adoptionForbidden | writerLive | writerUnknown | processMismatch | unauthorizedPeer
  | socketChanged | notCommitted | controlLost | closed | poisoned
  deriving DecidableEq

def journalName : String := "oci-monitor-owner-v1.json"

def lockName : String := "oci-monitor-owner-v1.lock"

def maxJournalBytes : ℕ := 16 * 1024

/-- The mode of a file that only its owner reads and writes. -/
def privateMode : ℕ := 0o600

/-- What a kind of ledger keeps: snapshots with the text of a journal, and what of a snapshot
a reader may insist on. A text that is written is read back. -/
structure Ledger (S K : Type) where
  /-- What stands before and after the random part of a temporary name. -/
  temporaryPrefix : String
  encode : S → Option (List UInt8)
  decode : List UInt8 → Option S
  key : S → K
  /-- The new journal is read back under a lock that is checked once more. -/
  confirmsLock : Bool
  decode_encode : ∀ s b, encode s = some b → decode b = some s

/-- A temporary name. -/
def Ledger.temporary {S K : Type} (L : Ledger S K) (token : String) : String :=
  L.temporaryPrefix ++ token ++ ".tmp"

abbrev Step := Directory → Except Category Directory

/-- A system call that may fail. -/
def call (op : Directory → Option Directory) (category : Category) : Step := fun d =>
  match op d with
  | some d' => .ok d'
  | none => .error category

/-- A check of what is there. -/
def check (p : Directory → Bool) (category : Category) : Step := fun d =>
  if p d then .ok d else .error category

/-- A call that changes nothing a living process sees. -/
def sync : Step := fun d => .ok d

section

variable {S K : Type} [DecidableEq S] [DecidableEq K] (L : Ledger S K) (euid : ℕ)

/-- A file of the owner with one name. -/
def isPrivate (f : Inode) (links : ℕ) : Bool :=
  f.regular && f.uid = euid && links = 1 && f.mode = privateMode

/-- `_validate_lock`, for the lock file that was opened. -/
def lockIsValid (lock : ℕ) (d : Directory) : Bool :=
  match d.look lockName with
  | some (i, f, links) => i = lock && isPrivate euid f links
  | none => false

namespace Ledger

/-- The read path: `none` where there is no journal and none is asked for. -/
def read (expected : Option K) (missingOk : Bool) (d : Directory) :
    Except Category (Option (S × List UInt8)) :=
  match d.look journalName with
  | none => if missingOk then .ok none else .error .invalidJournal
  | some (_, f, links) =>
    if isPrivate euid f links ∧ 0 < f.content.length ∧ f.content.length ≤ maxJournalBytes then
      match L.decode f.content with
      | some s =>
        if ∀ k ∈ expected, L.key s = k then .ok (some (s, f.content)) else .error .invalidJournal
      | none => .error .invalidJournal
    else .error .invalidJournal

/-- The loop that writes the content, with the counts the system answers; it takes what is
left when there is no further count. -/
def writeAll (i : ℕ) : List ℕ → List UInt8 → List Step
  | [], content =>
    if content = [] then [] else [call (fun d => some (d.append i content)) .journalIo]
  | count :: counts, content =>
    if content = [] then []
    else if count = 0 then [fun _ => .error .journalIo]
    else
      call (fun d => some (d.append i (content.take count))) .journalIo ::
        writeAll i counts (content.drop count)

/-- The temporary file `i` is as it was made and holds so many bytes. -/
def temporaryIsValid (temporary : String) (i : ℕ) (d : Directory) : Bool :=
  match d.look temporary with
  | some (j, f, links) => j = i && isPrivate euid f links
  | none => false

/-- Up to the temporary file being written. -/
def prepare (temporary : String) (lock i : ℕ) (content : List UInt8) (counts : List ℕ) :
    List Step :=
  [call (fun d => d.create temporary privateMode euid) .invalidJournal,
    call (fun d => some (d.chmod i privateMode)) .journalIo,
    check (temporaryIsValid euid temporary i) .journalIo] ++
  writeAll i counts content ++
  [sync, check (fun d => (d.inodes i).content.length = content.length) .journalIo,
    check (lockIsValid euid lock) .invalidJournal]

/-- Up to the call that names the journal, over the journal that the lease knows; `i` is the
number the temporary file gets. -/
def ready (temporary : String) (lock i : ℕ) (previous : Option (S × List UInt8)) (s : S)
    (counts : List ℕ) : List Step :=
  check (lockIsValid euid lock) .invalidJournal ::
  ((match previous with
    | none => []
    | some (r, bytes) =>
      [check (lockIsValid euid lock) .invalidJournal,
        check (fun d => L.read euid (some (L.key r)) false d = .ok (some (r, bytes)))
        .invalidJournal]) ++
  match L.encode s with
  | none => [fun _ => .error .invalidFrame]
  | some content => prepare euid temporary lock i content counts)

/-- The calls that name the journal: a link, and the temporary name is taken away, or a
rename. -/
def naming (temporary : String) (first : Bool) : List Step :=
  if first then
    [call (fun d => d.link temporary journalName) .invalidJournal,
      call (fun d => d.unlink temporary) .journalIo]
  else [call (fun d => d.replace temporary journalName) .journalIo]

/-- After the new journal is there. -/
def confirm (lock : ℕ) (s : S) : List Step :=
  sync :: ((if L.confirmsLock then [check (lockIsValid euid lock) .invalidJournal] else []) ++
    [check (fun d => L.read euid (some (L.key s)) false d =
      .ok ((L.encode s).map fun content => (s, content))) .invalidJournal])

/-- What is left of a publication that raised: its temporary file is taken away. -/
def cleanup (temporary : String) (i : ℕ) (d : Directory) : Directory :=
  match d.look temporary with
  | some (j, f, _) => if j = i ∧ f.regular then (d.unlink temporary).getD d else d
  | none => d

end Ledger

/-! ### Processes that publish -/

/-- A process that is to publish a snapshot over the journal that is there: the random part of
its temporary name, what its `write` calls answer, and after how many steps it is killed, if it
is. -/
structure Attempt (S : Type) where
  snapshot : S
  token : String
  counts : List ℕ
  kill : Option ℕ

/-- `_open_lock`: the steps up to the lock file, of the given number, being held. A new file has
mode 0600 before `fchmod` too, whatever the umask of the process: this is taken to leave the bits
of the owner. -/
def openLock (d : Directory) (lock : ℕ) : List Step :=
  (if (d.find lockName).isSome then []
  else
    [call (fun d => d.create lockName privateMode euid) .invalidJournal,
      call (fun d => some (d.chmod lock privateMode)) .invalidJournal]) ++
  [check (lockIsValid euid lock) .invalidJournal, sync]

namespace Attempt

variable (a : Attempt S) (d : Directory)

/-- The number of the lock file that is opened: of the one there, or of a new one. -/
def lock (d : Directory) : ℕ := (d.find lockName).getD d.next

/-- The number the temporary file gets. -/
def file (d : Directory) : ℕ := if (d.find lockName).isSome then d.next else d.next + 1

/-- The journal under the lock, where the read path finds one. -/
def previous : Option (S × List UInt8) :=
  match L.read euid none true d with
  | .ok o => o
  | .error _ => none

/-- Up to the call that names the journal. -/
def before : List Step :=
  openLock euid d (lock d) ++
  check (fun e => lockIsValid euid (lock d) e ∧ (L.read euid none true e).isOk) .invalidJournal ::
  L.ready euid (L.temporary a.token) (lock d) (file d) (previous L euid d) a.snapshot a.counts

/-- All the steps: the journal is created where there is none. -/
def steps : List Step :=
  before L euid a d ++
  (Ledger.naming (L.temporary a.token) (previous L euid d).isNone ++
    L.confirm euid (lock d) a.snapshot)

/-- The directory the attempt leaves. If it raised, the temporary file is taken away, unless
the process was killed. -/
def leaves : Directory :=
  match a.kill with
  | some k => killed (steps L euid a d) k d
  | none =>
    match exec (steps L euid a d) d with
    | (t, none) => t
    | (t, some _) => Ledger.cleanup (L.temporary a.token) (file d) t

/-- The attempt came to its end: the snapshot was published. -/
def published : Prop := a.kill = none ∧ (exec (steps L euid a d) d).2 = none

end Attempt

/-- The directory that attempts leave, one after the other. -/
def leavesAll (d : Directory) (attempts : List (Attempt S)) : Directory :=
  attempts.foldl (fun d a => a.leaves L euid d) d

end

end Palimpsest.Monitor
