import Mathlib.Data.List.Nodup

/-!
# Image export jobs

The table of the export jobs of all projects, with the requesters that enqueue and delete jobs
and the workers that claim and run them (`Palimpsest.Hub.Export.step`). A statement of a
transaction that locks rows holds them until the end of the transaction: nobody else writes a
locked row in the meantime, a claim passes it over, and everything else waits. Rows that are not
there yet cannot be locked; that a project has one row for an artifact is what the table itself
insists on, and the requester that finds it so goes on with a second transaction.

`Palimpsest.Hub.Export.Change` says what a transaction did to a row. The changes are recorded, for
the statements about whole runs only: no transaction reads them.
-/

namespace Palimpsest.Hub.Export

/-- A point in time. -/
abbrev Time := ℕ

inductive Status
  | queued | downloading | converting | finalizing | complete | error
  deriving DecidableEq

/-- `status in (STATUS_COMPLETE, STATUS_ERROR)` -/
def Status.isTerminal : Status → Bool
  | complete | error => true
  | _ => false

/-- The image a job exports, as it was when the job was enqueued. -/
structure ImageSource where
  imageId : String
  name : String
  diskFormat : String
  sizeBytes : ℕ
  virtualSizeBytes : Option ℕ
  checksum : Option String
  hashAlgo : Option String
  hashValue : Option String
  updatedAt : Option String
  deriving DecidableEq

/-- `PalimpsestImageExport` -/
structure ExportRow where
  id : String
  projectId : String
  createdBy : Option String
  source : ImageSource
  sourceFingerprint : String
  artifactKey : String
  targetDiskFormat : String
  resultBlobDigest : Option String
  resultSizeBytes : Option ℕ
  status : Status
  progressPct : ℕ
  errorCode : Option String
  errorMessage : Option String
  attempts : ℕ
  nextAt : Time
  leaseOwner : Option String
  leaseExpiresAt : Option Time
  createdAt : Time
  updatedAt : Time
  startedAt : Option Time
  completedAt : Option Time
  deletedAt : Option Time
  deriving DecidableEq

/-- What a requester asks for. -/
structure Request where
  projectId : String
  userId : Option String
  source : ImageSource
  sourceFingerprint : String
  artifactKey : String
  targetDiskFormat : String
  deriving DecidableEq

namespace ExportRow

variable (row : ExportRow)

/-- The job is not deleted and not at its end. -/
def isActive : Bool := row.deletedAt.isNone && !row.status.isTerminal

/-- The job of a request. -/
def isFor (q : Request) : Bool := row.projectId = q.projectId && row.artifactKey = q.artifactKey

/-- The job is complete and not deleted, with the result whose blob the requester looked for. -/
def isKept (digest : Option String) (isPresent : Bool) : Bool :=
  row.status = .complete && row.deletedAt.isNone && row.resultBlobDigest = digest && isPresent

/-- The job goes back into the queue, for the image as it is now. -/
def requeue (q : Request) (now : Time) : ExportRow :=
  { row with
    status := .queued, progressPct := 0, errorCode := none, errorMessage := none, attempts := 0,
    nextAt := now, leaseOwner := none, leaseExpiresAt := none, startedAt := none,
    completedAt := none, resultBlobDigest := none, resultSizeBytes := none, deletedAt := none,
    createdBy := q.userId, source := q.source, updatedAt := now }

/-- A new job in the queue. -/
def queued (q : Request) (id : String) (now : Time) : ExportRow where
  id := id
  projectId := q.projectId
  createdBy := q.userId
  source := q.source
  sourceFingerprint := q.sourceFingerprint
  artifactKey := q.artifactKey
  targetDiskFormat := q.targetDiskFormat
  resultBlobDigest := none
  resultSizeBytes := none
  status := .queued
  progressPct := 0
  errorCode := none
  errorMessage := none
  attempts := 0
  nextAt := now
  leaseOwner := none
  leaseExpiresAt := none
  createdAt := now
  updatedAt := now
  startedAt := none
  completedAt := none
  deletedAt := none

/-- A new job that is complete from the start, with the artifact of another project. -/
def reused (q : Request) (id : String) (digest : String) (size : ℕ) (now : Time) : ExportRow :=
  { queued q id now with
    resultBlobDigest := some digest, resultSizeBytes := some size, status := .complete,
    progressPct := 100, startedAt := some now, completedAt := some now }

/-- How long a lease lasts, in microseconds. -/
def leaseTtl : Time := 120000000

/-- A worker takes the job. -/
def claimed (owner : String) (now : Time) : ExportRow :=
  { row with
    attempts := row.attempts + 1, leaseOwner := some owner, leaseExpiresAt := some (now + leaseTtl),
    nextAt := now + leaseTtl, updatedAt := now, startedAt := row.startedAt.or (some now),
    status := .downloading, progressPct := 10 }

/-- The job was taken too often. -/
def exhausted (now : Time) : ExportRow :=
  { row with
    status := .error, errorCode := some "attempts_exhausted",
    errorMessage := some "Export job exceeded maximum retry attempts", leaseOwner := none,
    leaseExpiresAt := none, completedAt := some now, updatedAt := now }

/-- `claim_next_image_export`: the job is in the queue and due, or its lease has expired. -/
def isDue (now : Time) : Bool :=
  row.deletedAt.isNone &&
    (row.status = .queued && row.nextAt ≤ now ||
      !row.status.isTerminal && row.leaseExpiresAt.any (· ≤ now))

/-- The order in which due jobs are taken. -/
def dueBefore (other : ExportRow) : Bool :=
  row.nextAt < other.nextAt || row.nextAt = other.nextAt && row.createdAt ≤ other.createdAt

/-- `soft_delete_project_export`: the job is at its end, or nobody has it. -/
def isDeletable (now : Time) : Bool :=
  row.status.isTerminal || row.status = .queued && row.leaseOwner.isNone ||
    row.leaseExpiresAt.any (· ≤ now)

def softDeleted (now : Time) : ExportRow := { row with deletedAt := some now, updatedAt := now }

end ExportRow

/-- What an update of a worker sets, besides its lease. -/
structure Values where
  status : Option Status
  progressPct : Option ℕ
  errorCode : Option String
  errorMessage : Option String
  resultBlobDigest : Option String
  resultSizeBytes : Option ℕ
  completedAt : Option Time
  clearLease : Bool

namespace Values

/-- An update that sets nothing. -/
def empty : Values := ⟨none, none, none, none, none, none, none, false⟩

/-- An update that begins a stage of the work. -/
def stage (status : Status) (progressPct : ℕ) : Values :=
  { empty with status := some status, progressPct := some progressPct }

/-- The update that completes a job. -/
def complete (digest : String) (size : ℕ) (now : Time) : Values where
  status := some .complete
  progressPct := some 100
  errorCode := none
  errorMessage := none
  resultBlobDigest := some digest
  resultSizeBytes := some size
  completedAt := some now
  clearLease := true

/-- The update of a job that failed. -/
def failed (code message : String) : Values :=
  { empty with
    status := some .error, errorCode := some code, errorMessage := some message,
    clearLease := true }

/-- `_update_job_cas`: what it makes of a row. -/
def apply (v : Values) (now : Time) (row : ExportRow) : ExportRow :=
  { row with
    updatedAt := now
    status := v.status.getD row.status
    progressPct := v.progressPct.getD row.progressPct
    errorCode := v.errorCode.or row.errorCode
    errorMessage := v.errorMessage.or row.errorMessage
    resultBlobDigest := v.resultBlobDigest.or row.resultBlobDigest
    resultSizeBytes := v.resultSizeBytes.or row.resultSizeBytes
    completedAt := v.completedAt.or row.completedAt
    leaseOwner := if v.clearLease then none else row.leaseOwner
    leaseExpiresAt := if v.clearLease then none else some (now + ExportRow.leaseTtl)
    nextAt := if v.clearLease then row.nextAt else now + ExportRow.leaseTtl }

end Values

/-! ### The state -/

/-- What a requester read before its transaction: the digests that it may reuse, and whether
their blobs are there. -/
structure Preflight where
  request : Request
  validSameDigest : Option String
  validGlobalDigest : Option String
  globalResultSize : ℕ
  isPresent : Bool

/-- A requester in the middle of `enqueue_image_export`. -/
inductive Requester
  | idle
  | prepared (p : Preflight)
  /-- The transaction is open and has locked these rows. -/
  | writing (p : Preflight) (locked : List String)
  /-- The table refused the insertion. -/
  | raced (q : Request)
  | recovering (q : Request) (raceDigest : Option String) (racePresent : Bool)

/-- A worker in the middle of `process_one_image_export`. -/
structure Task where
  job : String
  isChecked : Bool
  published : Option (String × ℕ)

/-- What a transaction did to the job `id`. -/
inductive Change
  | inserted (id : String)
  | reused (id artifactKey digest : String)
  | requeued (id : String)
  | claimed (owner id : String)
  | exhausted (id : String)
  | updated (owner id : String)
  | published (owner id digest : String)
  | completed (owner id artifactKey digest : String)
  | failed (owner id : String)
  | deleted (id : String)
  deriving DecidableEq

structure State where
  rows : List ExportRow
  requesters : ℕ → Requester
  /-- The requesters with the rows that they have locked. -/
  locks : List (ℕ × String)
  tasks : String → Option Task
  log : List Change

/-- Nothing is there and nobody does anything. -/
def State.init : State := ⟨[], fun _ => .idle, [], fun _ => none, []⟩

namespace State

variable (s : State)

/-- The row of a job. -/
def row (id : String) : Option ExportRow := s.rows.find? (·.id = id)

def isLocked (id : String) : Bool := s.locks.any (·.2 = id)

/-- A row is replaced, and the change is recorded. -/
def modify (id : String) (f : ExportRow → ExportRow) (c : Change) : State :=
  { s with rows := s.rows.map fun row => if row.id = id then f row else row, log := s.log ++ [c] }

/-- A row is added, and the change is recorded. -/
def insert (row : ExportRow) (c : Change) : State :=
  { s with rows := s.rows ++ [row], log := s.log ++ [c] }

def setRequester (r : ℕ) (x : Requester) : State :=
  { s with requesters := Function.update s.requesters r x }

def setTask (owner : String) (t : Option Task) : State :=
  { s with tasks := Function.update s.tasks owner t }

/-- The transaction of a requester is over. -/
def release (r : ℕ) : State := { s with locks := s.locks.filter (·.1 ≠ r) }

end State

/-! ### Requesters -/

/-- What the transaction of a requester does. -/
inductive Decision
  /-- `active_export_exists` -/
  | conflict
  | keep
  | requeue (id : String)
  | reuse (digest : String) (size : ℕ)
  | insert
  deriving DecidableEq

/-- `_write_transaction`, from the rows of the project that it sees. -/
def writeTransaction (p : Preflight) (seen : List ExportRow) : Decision :=
  if seen.any (·.isActive) then .conflict
  else
    match seen.find? (·.isFor p.request) with
    | some same =>
      if same.isKept p.validSameDigest (p.validSameDigest.isSome && p.isPresent) then .keep
      else .requeue same.id
    | none =>
      match p.validGlobalDigest with
      | some digest => if p.isPresent then .reuse digest p.globalResultSize else .insert
      | none => .insert

/-- The transaction that follows an insertion that the table refused. -/
def recoverTransaction (raceDigest : Option String) (racePresent : Bool) (target : ExportRow) :
    Decision :=
  if target.isKept raceDigest racePresent then .keep
  else if target.isActive then .keep
  else .requeue target.id

/-- `enqueue_image_export`, up to its transaction. Of the complete jobs of other projects for the
same artifact the database returns one. -/
def preflight (rows : List ExportRow) (q : Request) (pick : ℕ) (isPresent : Bool) (size : ℕ) :
    Preflight :=
  match rows.find? (·.isFor q) with
  | some same =>
    let valid :=
      if same.status = .complete && same.deletedAt.isNone then same.resultBlobDigest else none
    ⟨q, valid, none, size, isPresent⟩
  | none =>
    let complete := rows.filter fun row =>
      row.artifactKey = q.artifactKey && row.deletedAt.isNone && row.status = .complete &&
        row.resultBlobDigest.isSome
    let digest := complete[pick % complete.length]?.bind (·.resultBlobDigest)
    ⟨q, none, digest, size, isPresent⟩

/-! ### Steps -/

inductive Event
  /-- A requester reads, and looks whether the blob that it may reuse is there. -/
  | preflight (r : ℕ) (q : Request) (pick : ℕ) (isPresent : Bool) (size : ℕ)
  /-- A transaction locks the rows of the project and reads them. -/
  | begin (r : ℕ)
  | commit (r : ℕ) (id : String) (now : Time)
  /-- A deadlock: the transaction will be tried again. -/
  | rollback (r : ℕ)
  | raceRead (r : ℕ) (isPresent : Bool)
  | recover (r : ℕ) (now : Time)
  /-- The requester gives up or is killed. -/
  | abandon (r : ℕ)
  | softDelete (projectId id : String) (now : Time)
  | claim (owner id : String) (now : Time)
  | heartbeat (owner : String) (now : Time)
  | converting (owner : String) (now : Time)
  | finalizing (owner : String) (now : Time)
  /-- The worker looks whether it still has the lease. -/
  | check (owner : String) (now : Time)
  | publish (owner digest : String) (size : ℕ)
  | complete (owner : String) (now : Time)
  | fail (owner code message : String) (now : Time)
  /-- The task is over, or the worker is killed. -/
  | finish (owner : String)

namespace State

variable (s : State)

/-- The jobs of the project that a transaction has locked. -/
def seen (p : Preflight) (locked : List String) : List ExportRow :=
  s.rows.filter fun row => row.projectId = p.request.projectId && row.id ∈ locked

/-- A transaction of a requester commits. -/
def commit (r : ℕ) (p : Preflight) (locked : List String) (id : String) (now : Time) : State :=
  let s' := (s.release r).setRequester r .idle
  let isTaken := s.rows.any fun row => row.id = id || row.isFor p.request
  match writeTransaction p (s.seen p locked) with
  | .conflict | .keep => s'
  | .requeue j => s'.modify j (·.requeue p.request now) (.requeued j)
  | .reuse digest size =>
    if isTaken then (s.release r).setRequester r (.raced p.request)
    else s'.insert (.reused p.request id digest size now) (.reused id p.request.artifactKey digest)
  | .insert =>
    if isTaken then (s.release r).setRequester r (.raced p.request)
    else s'.insert (.queued p.request id now) (.inserted id)

/-- `_update_job_cas` of a worker: the row is updated if the worker has it and it is not deleted. -/
def update (owner : String) (now : Time) (v : Values) (c : Task → ExportRow → Change) : State :=
  match s.tasks owner with
  | none => s
  | some task =>
    match s.row task.job with
    | none => s
    | some row =>
      if row.leaseOwner = some owner && row.deletedAt.isNone && !s.isLocked task.job then
        s.modify task.job (v.apply now) (c task row)
      else s

/-- One event. -/
def step : Event → State
  | .preflight r q pick isPresent size =>
    match s.requesters r with
    | .idle => s.setRequester r (.prepared (Export.preflight s.rows q pick isPresent size))
    | _ => s
  -- `SELECT ... FOR UPDATE` over the rows of the project: the transaction waits for their locks.
  | .begin r =>
    match s.requesters r with
    | .prepared p =>
      let ids := (s.rows.filter (·.projectId = p.request.projectId)).map (·.id)
      if ids.any s.isLocked then s
      else { s.setRequester r (.writing p ids) with locks := s.locks ++ ids.map (r, ·) }
    | _ => s
  | .commit r id now =>
    match s.requesters r with
    | .writing p locked => s.commit r p locked id now
    | _ => s
  | .rollback r =>
    match s.requesters r with
    | .writing p _ => (s.release r).setRequester r (.prepared p)
    | _ => s
  | .raceRead r isPresent =>
    match s.requesters r with
    | .raced q =>
      match s.rows.find? (·.isFor q) with
      | none => s.setRequester r .idle
      | some same =>
        let digest := if same.status = .complete then same.resultBlobDigest else none
        s.setRequester r (.recovering q digest (digest.isSome && isPresent))
    | _ => s
  -- The table has refused the insertion, and the row that stands there is read again.
  | .recover r now =>
    match s.requesters r with
    | .recovering q raceDigest racePresent =>
      match s.rows.find? (·.isFor q) with
      | none => s.setRequester r .idle
      | some target =>
        if s.isLocked target.id then s
        else
          match recoverTransaction raceDigest racePresent target with
          | .requeue j => (s.setRequester r .idle).modify j (·.requeue q now) (.requeued j)
          | _ => s.setRequester r .idle
    | _ => s
  | .abandon r => (s.release r).setRequester r .idle
  | .softDelete projectId id now =>
    match s.row id with
    | none => s
    | some row =>
      if row.projectId = projectId && row.deletedAt.isNone && row.isDeletable now &&
          !s.isLocked id then
        s.modify id (·.softDeleted now) (.deleted id)
      else s
  | .claim owner id now =>
    match s.tasks owner, s.row id with
    | none, some row =>
      -- `SKIP LOCKED`, in the order in which the jobs are due.
      let free := s.rows.filter fun row => row.isDue now && !s.isLocked row.id
      if row.isDue now && !s.isLocked id && free.all row.dueBefore then
        if 3 ≤ row.attempts then s.modify id (·.exhausted now) (.exhausted id)
        else
          (s.modify id (·.claimed owner now) (.claimed owner id)).setTask owner
            (some ⟨id, false, none⟩)
      else s
    | _, _ => s
  | .heartbeat owner now => s.update owner now .empty fun task _ => .updated owner task.job
  | .converting owner now =>
    s.update owner now (.stage .converting 50) fun task _ => .updated owner task.job
  | .finalizing owner now =>
    s.update owner now (.stage .finalizing 90) fun task _ => .updated owner task.job
  | .check owner now =>
    match s.tasks owner with
    | none => s
    | some task =>
      let held := (s.row task.job).any fun row =>
        row.leaseOwner = some owner && row.leaseExpiresAt.any (now < ·) && row.deletedAt.isNone
      if held then s.setTask owner (some { task with isChecked := true }) else s
  | .publish owner digest size =>
    match s.tasks owner with
    | none => s
    | some task =>
      if task.isChecked then
        { s.setTask owner (some { task with published := some (digest, size) }) with
          log := s.log ++ [.published owner task.job digest] }
      else s
  | .complete owner now =>
    match (s.tasks owner).bind (·.published) with
    | none => s
    | some (digest, size) =>
      s.update owner now (.complete digest size now) fun task row =>
        .completed owner task.job row.artifactKey digest
  | .fail owner code message now =>
    s.update owner now (.failed code message) fun task _ => .failed owner task.job
  | .finish owner => s.setTask owner none

/-- The state after a run. -/
def run (events : List Event) : State := events.foldl step s

end State

end Palimpsest.Hub.Export
