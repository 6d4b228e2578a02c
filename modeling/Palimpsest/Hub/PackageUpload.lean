import Mathlib.Data.List.Range
import Palimpsest.Lib.Chunks
import Palimpsest.Lib.Pool

/-!
# Resumable package uploads

A package archive is uploaded in pieces. What was received is in two places: a row of the
database says how many bytes, and a staging file holds them. The requests of a session are
serialized by a file lock, the start of sessions by a lock of the project; between any two calls
a request can be cut off, and every call can fail before or after it takes effect.

The requests are programs (`startUpload`, `appendUpload`, `uploadStatus`, `abortUpload`,
`finalizeUpload`) with calls to the database, to the store, to the locks and to the clock, and
`surroundings` says how those are answered. A request that ends or is killed gives back its
locks, and what its database session did not commit is gone.
-/

namespace Palimpsest.Hub.Upload

open Calls Calls.Program

abbrev Bytes := List UInt8

/-- The name of a session, a number in the order in which they are drawn. -/
abbrev UploadId := ℕ

/-- A request that is being served. -/
abbrev Caller := ℕ

/-- A point in time, in microseconds. -/
abbrev Time := ℕ

/-- A digest of contents, by which contents are told apart. -/
structure ContentHash where
  digest : Bytes → String
  injective : Function.Injective digest

/-! ### Rows -/

inductive Status
  | uploading
  | validating
  | complete
  | aborted
  | failed
  deriving DecidableEq

/-- `_ACTIVE`. -/
def Status.isActive : Status → Bool
  | .uploading | .validating => true
  | _ => false

/-- Whom a session belongs to: what `owned_upload` compares. -/
structure Owner where
  projectId : String
  package : String
  keyId : String
  userId : String
  resource : String
  deriving DecidableEq

/-- What an archive is for. -/
inductive Target
  /-- A version of the package, by the digest of its root. -/
  | version (rootDigest : String)
  /-- A partition of the cache of the package, and a key in it. -/
  | cache (buildKey cacheScope platform builderFingerprint : String)
  deriving DecidableEq

/-- Whether `commit_package` commits it, and not `commit_cache`. -/
def Target.isVersion : Target → Bool
  | .version _ => true
  | .cache _ _ _ _ => false

/-- The request of a session, as far as the archive and the rows that refer to it go. -/
structure UploadRequest where
  archiveSizeBytes : ℕ
  archiveDigest : String
  target : Target
  deriving DecidableEq

/-- A row of the table of sessions. -/
structure PackageUpload where
  owner : Owner
  request : UploadRequest
  receivedBytes : ℕ
  status : Status
  result : Option String
  expiresAt : Time
  deriving DecidableEq

/-- A row of the table of versions or of the table of cached archives. -/
structure Reference where
  projectId : String
  package : String
  target : Target
  archiveDigest : String
  /-- `pushed_by`, `created_by`. -/
  userId : String
  /-- The session whose commit inserted the row. -/
  upload : UploadId
  deriving DecidableEq

/-- The row that the commit of a session inserts. -/
def PackageUpload.reference (row : PackageUpload) (id : UploadId) : Reference where
  projectId := row.owner.projectId
  package := row.owner.package
  target := row.request.target
  archiveDigest := row.request.archiveDigest
  userId := row.owner.userId
  upload := id

/-- What a row is looked up by: a version by its root, a cached archive also by its digest and by
who pushed it. -/
def Reference.key (r : Reference) : String × String × Target × Option (String × String) :=
  (r.projectId, r.package, r.target,
    if r.target.isVersion then none else some (r.archiveDigest, r.userId))

/-- `_IDLE`, 24 hours. -/
def idleTime : Time := 86400000000

/-- How many sessions of a project may be active. -/
def maxActiveUploads : ℕ := 4

/-! ### Calls -/

inductive Lock
  | upload (id : UploadId)
  | project (id : String)
  | package (name : String)
  | blob (digest : String)
  deriving DecidableEq

/-- A commit that sets the status of a row, and perhaps when it expires. -/
structure Change where
  status : Status
  expiresAt : Option Time
  deriving DecidableEq

/-- The calls of a request. -/
inductive Call
  /-- The client has been told this session. -/
  | known (id : UploadId)
  /-- The authority of the client is checked, or a piece of the body is awaited. -/
  | external
  | acquire (lock : Lock)
  | release (lock : Lock)
  | now
  | newId
  | row (id : UploadId)
  /-- `session.refresh`, in a transaction that has already read the row. -/
  | refresh (id : UploadId) (seen : PackageUpload)
  /-- The active sessions of the project that have expired. -/
  | stale (project : String)
  /-- `expired.status = "failed"`, not committed yet. -/
  | mark (id : UploadId)
  | commitMarks
  /-- The active sessions of the project, and the legacy ones. -/
  | countActive (project : String)
  | insert (id : UploadId) (row : PackageUpload)
  | update (id : UploadId) (change : Change)
  /-- The commit of an append, of these chunks. -/
  | commitAppend (id : UploadId) (chunks : List Bytes) (total : ℕ) (expiresAt : Time)
  /-- The commit of a publication, with the row that is to be inserted, if any. -/
  | complete (id : UploadId) (result : String) (isNew : Bool)
  /-- The client is told the session. -/
  | announce (id : UploadId)
  | startFile (id : UploadId)
  | reconcile (id : UploadId) (expectedSize : ℕ)
  | appendFile (id : UploadId) (chunk : Bytes)
  | sync (id : UploadId)
  | unlink (id : UploadId)
  | inspect (id : UploadId) (maxBytes : ℕ)
  | validate (id : UploadId)
  | publish (id : UploadId) (digest : String) (size : ℕ)
  /-- `commit_package` or `commit_cache`, before the commit of the session: the receipt, and
  whether there is no such row yet. -/
  | commitPackage (id : UploadId)
  | rollbackCreated (digest : String)
  deriving DecidableEq

/-- What a call returns. A store error is a value where the program handles it. -/
@[reducible]
def Answer : Call → Type
  | .now => Time
  | .newId => UploadId
  | .row _ => Option PackageUpload
  | .refresh _ _ => PackageUpload
  | .stale _ => List (UploadId × PackageUpload)
  | .countActive _ => ℕ
  | .reconcile _ _ | .sync _ | .validate _ | .publish _ _ _ => Bool
  | .appendFile _ _ => Option ℕ
  | .inspect _ _ => Option (String × ℕ)
  | .commitPackage _ => String × Bool
  | _ => Unit

/-- A request, or a part of one. -/
abbrev Op := Program Call Answer

/-- A call whose exception is not handled here. -/
abbrev call (c : Call) : Op (Answer c) := ask c

/-! ### Requests -/

/-- `owned_upload`. -/
def ownedUpload (id : UploadId) (owner : Owner) : Op PackageUpload := do
  let row ← take (← call (.row id))
  require (row.owner = owner)
  return row

/-- `resumable`. -/
def resumable (row : PackageUpload) : Op Unit := do
  let now ← call .now
  require (row.status = .uploading && now < row.expiresAt)

/-- `fail_upload`. -/
def failUpload (id : UploadId) : Op Unit := do
  match ← call (.row id) with
  | some row =>
    if row.status = .complete then return ()
    else do
      call (.update id ⟨.failed, none⟩)
      call (.unlink id)
  | none => return ()

/-- The sessions of `start_upload` that have expired, each under its lock. -/
def expireUploads : List (UploadId × PackageUpload) → Op Unit
  | [] => return ()
  | (id, seen) :: stale => do
    call (.acquire (.upload id))
    let expired ← call (.refresh id seen)
    let now ← call .now
    if expired.status.isActive && expired.expiresAt ≤ now then do
      call (.mark id)
      call (.unlink id)
      call (.release (.upload id))
      expireUploads stale
    else do
      call (.release (.upload id))
      expireUploads stale

/-- A row for a session that starts. -/
def newUpload (owner : Owner) (request : UploadRequest) (now : Time) : PackageUpload where
  owner := owner
  request := request
  receivedBytes := 0
  status := .uploading
  result := none
  expiresAt := now + idleTime

/-- `start_upload`. -/
def startUpload (owner : Owner) (request : UploadRequest) (maxBlobBytes : ℕ) : Op Unit := do
  call .external
  require (request.archiveSizeBytes ≤ maxBlobBytes)
  call (.acquire (.project owner.projectId))
  call .external
  expireUploads (← call (.stale owner.projectId))
  call .commitMarks
  let active ← call (.countActive owner.projectId)
  require (active < maxActiveUploads)
  call .external
  let id ← call .newId
  let now ← call .now
  call (.startFile id)
  match ← (call (.insert id (newUpload owner request now))).caught with
  | some _ => call (.announce id)
  | none => do
    call (.unlink id)
    raise

/-- `upload_status`: the row, with the status that is shown. -/
def uploadStatus (owner : Owner) (id : UploadId) : Op (PackageUpload × Status) := do
  call (.known id)
  call .external
  let row ← ownedUpload id owner
  let now ← call .now
  return (row, if row.status.isActive && row.expiresAt ≤ now then .failed else row.status)

/-- The chunks of the body are written one by one; none where the store refuses one, or where
they are more than was declared. -/
def appendChunks (id : UploadId) (maximum : ℕ) : List Bytes → ℕ → Op (Option ℕ)
  | [], total => return some total
  | chunk :: chunks, total => do
    call .external
    if chunk = [] then appendChunks id maximum chunks total
    else if maximum < total + chunk.length then return none
    else
      match ← call (.appendFile id chunk) with
      | some total => appendChunks id maximum chunks total
      | none => return none

/-- The part of `append_upload` whose store errors fail the session. -/
def appendBody (owner : Owner) (id : UploadId) (already maximum : ℕ) (chunks : List Bytes) :
    Op (Option ℕ) := do
  if ← call (.reconcile id already) then
    match ← appendChunks id maximum chunks already with
    | none => return none
    | some total =>
      if ← call (.sync id) then do
        call .external
        let _ ← ownedUpload id owner
        let now ← call .now
        call (.commitAppend id chunks total (now + idleTime))
        return some total
      else return none
  else return none

/-- `append_upload`. -/
def appendUpload (owner : Owner) (id : UploadId) (offset : ℕ) (chunks : List Bytes) : Op ℕ := do
  call (.known id)
  call .external
  call (.acquire (.upload id))
  let row ← ownedUpload id owner
  resumable row
  require (offset = row.receivedBytes)
  match ← appendBody owner id row.receivedBytes row.request.archiveSizeBytes chunks with
  | some total => return total
  | none => do
    failUpload id
    raise

/-- `abort_upload`. -/
def abortUpload (owner : Owner) (id : UploadId) : Op Unit := do
  call (.known id)
  call .external
  call (.acquire (.upload id))
  call .external
  let row ← ownedUpload id owner
  if row.status = .complete then call (.unlink id)
  else do
    call (.update id ⟨.aborted, none⟩)
    call (.unlink id)

/-- The publication of `finalize_upload`, under the locks of the package and of the blob: none
where the store refuses it. -/
def publication (owner : Owner) (id : UploadId) (digest : String) (size : ℕ) :
    Op (Option String) := do
  call .external
  if ← call (.publish id digest size) then do
    call .external
    let upload ← ownedUpload id owner
    let now ← call .now
    require (now < upload.expiresAt)
    let (result, isNew) ← call (.commitPackage id)
    call (.complete id result isNew)
    -- A second push of a root may have brought another archive for it.
    call (.rollbackCreated digest)
    return some result
  else return none

/-- The part of `finalize_upload` whose content errors fail the session. -/
def validation (owner : Owner) (id : UploadId) (data : UploadRequest) (maxBlobBytes : ℕ) :
    Op (Option String) := do
  if ← call (.reconcile id data.archiveSizeBytes) then
    match ← call (.inspect id maxBlobBytes) with
    | none => return none
    | some archive => do
      require (archive.1 = data.archiveDigest && archive.2 = data.archiveSizeBytes)
      if ← call (.validate id) then do
        call (.acquire (.package (owner.projectId ++ "/" ++ owner.package)))
        call (.acquire (.blob archive.1))
        match ← (publication owner id archive.1 archive.2).caught with
        | some (some result) => return some result
        | some none => do
          call (.rollbackCreated archive.1)
          return none
        | none => do
          call (.rollbackCreated archive.1)
          raise
      else return none
  else return none

/-- `finalize_upload`. -/
def finalizeUpload (owner : Owner) (id : UploadId) (maxBlobBytes : ℕ) : Op String := do
  call (.known id)
  call .external
  call (.acquire (.upload id))
  call .external
  let row ← ownedUpload id owner
  if row.status = .complete then take row.result
  else do
    -- Nobody else is validating while the lock is held.
    resumable (if row.status = .validating then { row with status := .uploading } else row)
    require (row.receivedBytes = row.request.archiveSizeBytes)
    let now ← call .now
    call (.update id ⟨.validating, some (now + idleTime)⟩)
    match ← (validation owner id row.request maxBlobBytes).caught with
    | some (some result) => do
      let _ ← (call (.unlink id)).caught
      return result
    | some none => do
      failUpload id
      raise
    | none =>
      match ← call (.row id) with
      | some upload =>
        if upload.status = .validating then do
          call (.update id ⟨.uploading, none⟩)
          raise
        else raise
      | none => raise

/-- The requests. -/
inductive Request
  | start (owner : Owner) (request : UploadRequest) (maxBlobBytes : ℕ)
  | status (owner : Owner) (id : UploadId)
  | append (owner : Owner) (id : UploadId) (offset : ℕ) (chunks : List Bytes)
  | abort (owner : Owner) (id : UploadId)
  | finalize (owner : Owner) (id : UploadId) (maxBlobBytes : ℕ)

/-- What serves a request. -/
def Request.program : Request → Op Unit
  | .start owner request maxBlobBytes => startUpload owner request maxBlobBytes
  | .status owner id => do
    let _ ← uploadStatus owner id
    return ()
  | .append owner id offset chunks => do
    let _ ← appendUpload owner id offset chunks
    return ()
  | .abort owner id => abortUpload owner id
  | .finalize owner id maxBlobBytes => do
    let _ ← finalizeUpload owner id maxBlobBytes
    return ()

end Palimpsest.Hub.Upload
