import Palimpsest.Hub.PackageUpload

/-!
# The surroundings of the uploads

The database, the staging files, the content store, the locks and the clock (`World`), and how
they answer the calls of the requests (`surroundings`). Every call can raise, before it takes
effect or after; the store can refuse; a write can stop in the middle; and a row that is read
again in the same transaction can be what it was when the transaction began
(`Outcome.snapshot`).

What refers to an archive is a row that the commit of a session inserted (`World.references`), or
something else that is not followed here: a graph that contains it, a layer, an export
(`World.others`). A blob that nothing refers to can be removed or changed by anybody; what the
first sort of rows refers to is left alone, since whoever writes a blob verifies the content, and
whoever removes one looks at these rows under its lock.

What is committed and published is kept along with the state: the chunks of each append whose
commit took effect (`World.committed`) and the content that the store had under the digest of
the archive when a session became complete (`World.published`).
-/

namespace Palimpsest.Hub.Upload

open Calls

/-- The state of the hub. -/
structure World where
  /-- The sessions below were drawn. -/
  issued : UploadId
  row : UploadId → Option PackageUpload
  file : UploadId → Option Bytes
  blob : String → Option Bytes
  /-- The versions and the cached archives. -/
  references : List Reference
  /-- Whether something else refers to the digest. -/
  others : String → Bool
  /-- The blobs that a request has created. -/
  created : Caller → List String
  now : Time
  locks : Lock → Option Caller
  /-- The sessions that a request has set to failed and not committed yet. -/
  marked : Caller → List UploadId
  /-- The request that is starting the session. -/
  creating : UploadId → Option Caller
  /-- The sessions that clients were told. -/
  announced : UploadId → Bool
  /-- The appends that were committed, with their offsets. -/
  committed : UploadId → List (ℕ × Bytes)
  /-- What a complete session published. -/
  published : UploadId → Option Bytes

/-- A hub without sessions. -/
def World.initial : World where
  issued := 0
  row := fun _ => none
  file := fun _ => none
  blob := fun _ => none
  references := []
  others := fun _ => false
  created := fun _ => []
  now := 0
  locks := fun _ => none
  marked := fun _ => []
  creating := fun _ => none
  announced := fun _ => false
  committed := fun _ => []
  published := fun _ => none

/-- How a call goes. -/
inductive Outcome
  | done
  /-- It raises, after it took effect or before. -/
  | raised (isDone : Bool)
  /-- The store, or the validation, refuses. -/
  | refused
  /-- It raises when so many bytes are written, or before it is known that a blob was created. -/
  | partly (written : ℕ)
  /-- The row is read as it was before in the same transaction. -/
  | snapshot
  /-- There are so many legacy sessions. -/
  | legacy (sessions : ℕ)
  /-- What is published gets this receipt. -/
  | receipt (result : String)
  deriving DecidableEq

/-- What happens besides: time passes, and others change the content store and refer to it. -/
inductive Drift
  | tick (duration : Time)
  | setBlob (digest : String) (content : Option Bytes)
  | setOthers (digest : String) (isReferenced : Bool)

namespace World

variable (w : World)

/-- A row as `_ACTIVE` and the project select it. -/
def isActiveIn (project : String) (id : UploadId) : Bool :=
  match w.row id with
  | some row => row.owner.projectId = project && row.status.isActive
  | none => false

/-- The active sessions of a project. -/
def activeIn (project : String) : List UploadId :=
  (List.range w.issued).filter fun id => w.isActiveIn project id

/-- The active sessions of a project that have expired. -/
def stale (project : String) : List (UploadId × PackageUpload) :=
  (w.activeIn project).filterMap fun id =>
    (w.row id).bind fun row => if row.expiresAt ≤ w.now then some (id, row) else none

def setRow (id : UploadId) (f : PackageUpload → PackageUpload) : World :=
  { w with row := Function.update w.row id ((w.row id).map f) }

def setFile (id : UploadId) (content : Option Bytes) : World :=
  { w with file := Function.update w.file id content }

/-- Whether a version or a cached archive refers to the digest. -/
def isArchive (digest : String) : Bool := w.references.any fun r => r.archiveDigest = digest

/-- `blob_referenced`. -/
def isReferenced (digest : String) : Bool := w.isArchive digest || w.others digest

/-- Whether there is a row already of the kind that the commit of a session inserts. -/
def hasKey (r : Reference) : Bool := w.references.any fun r' => r'.key = r.key

end World

def Change.apply (change : Change) (row : PackageUpload) : PackageUpload :=
  { row with
    status := change.status
    expiresAt := change.expiresAt.getD row.expiresAt }

variable (h : ContentHash) (i : Caller)

/-- `inspect_file`. -/
def inspected (file : Option Bytes) (maxBytes : ℕ) : Option (String × ℕ) :=
  file.bind fun content =>
    if content.length ≤ maxBytes then some (h.digest content, content.length) else none

/-- Whether the content is what the inspection found. -/
def matchesInspection (digest : String) (size : ℕ) (content : Option Bytes) : Bool :=
  match content with
  | some content => h.digest content = digest && content.length = size
  | none => false

/-- What a call does to the state. -/
def effect (w : World) : Call → World
  | .acquire lock => { w with locks := Function.update w.locks lock (some i) }
  | .release lock => { w with locks := Function.update w.locks lock none }
  | .newId =>
    { w with issued := w.issued + 1, creating := Function.update w.creating w.issued (some i) }
  | .mark id => { w with marked := Function.update w.marked i (id :: w.marked i) }
  | .commitMarks =>
    { w with
      row := fun id =>
        if id ∈ w.marked i then (w.row id).map (Change.apply ⟨.failed, none⟩) else w.row id
      marked := Function.update w.marked i [] }
  | .insert id row => { w with row := Function.update w.row id (some row) }
  | .update id change => w.setRow id change.apply
  | .commitAppend id chunks total expiresAt =>
    match w.row id with
    | some row =>
      { w.setRow id fun row => { row with receivedBytes := total, expiresAt := expiresAt } with
        committed := Function.update w.committed id
          (w.committed id ++ [(row.receivedBytes, chunks.flatten)]) }
    | none => w
  | .complete id result isNew =>
    match w.row id with
    | some row =>
      { w.setRow id fun row => { row with status := .complete, result := some result } with
        published := Function.update w.published id (w.blob row.request.archiveDigest)
        references := if isNew then w.references ++ [row.reference id] else w.references }
    | none => w
  | .announce id =>
    { w with
      announced := Function.update w.announced id true
      creating := Function.update w.creating id none }
  | .startFile id => w.setFile id (some [])
  | .reconcile id size =>
    match w.file id with
    | some content => if size ≤ content.length then w.setFile id (some (content.take size)) else w
    | none => w
  | .appendFile id chunk =>
    match w.file id with
    | some content => w.setFile id (some (content ++ chunk))
    | none => w
  | .unlink id => w.setFile id none
  | .publish id digest size =>
    if matchesInspection h digest size (w.blob digest) then w
    else if matchesInspection h digest size (w.file id) then
      { w with
        blob := Function.update w.blob digest (w.file id)
        -- A blob that is there already is repaired, not created.
        created := if (w.blob digest).isSome then w.created
          else Function.update w.created i (digest :: w.created i) }
    else w
  | .rollbackCreated digest =>
    if digest ∈ w.created i && !w.isReferenced digest then
      { w with blob := Function.update w.blob digest none }
    else w
  | _ => w

/-- What a call returns, where it does not raise. -/
def reply (o : Outcome) (w : World) : (c : Call) → Option (Answer c)
  | .known id => if w.announced id then some () else none
  | .external => some ()
  | .acquire _ | .release _ => some ()
  | .now => some w.now
  | .newId => some w.issued
  | .row id => some (w.row id)
  | .refresh id seen =>
    if o = .snapshot then some seen else w.row id
  | .stale project => some (w.stale project)
  | .mark _ | .commitMarks => some ()
  | .countActive project =>
    match o with
    | .legacy sessions => some ((w.activeIn project).length + sessions)
    | _ => some (w.activeIn project).length
  | .insert id _ => if w.row id = none then some () else none
  | .update _ _ | .commitAppend _ _ _ _ | .announce _ => some ()
  | .complete id _ isNew =>
    -- The root is part of the primary key of a version.
    match w.row id with
    | some row =>
      if isNew && row.request.target.isVersion && w.hasKey (row.reference id) then none
      else some ()
    | none => some ()
  | .startFile id => if w.file id = none then some () else none
  | .reconcile id size =>
    match w.file id with
    | some content => some (size ≤ content.length && o ≠ .refused)
    | none => some false
  | .appendFile id chunk =>
    match w.file id with
    | some content => some (if o = .refused then none else some (content ++ chunk).length)
    | none => some none
  | .sync id => some ((w.file id).isSome && o ≠ .refused)
  | .unlink _ => some ()
  | .inspect id maxBytes =>
    some (if o = .refused then none else inspected h (w.file id) maxBytes)
  | .validate _ => some (o ≠ .refused)
  | .publish id digest size =>
    some (o ≠ .refused && (matchesInspection h digest size (w.blob digest) ||
      matchesInspection h digest size (w.file id)))
  | .commitPackage id =>
    match o with
    | .receipt result =>
      (w.row id).map fun row => (result, !w.hasKey (row.reference id))
    | _ => none
  | .rollbackCreated _ => some ()

/-- Whether the call can be refused. -/
def canRefuse : Call → Bool
  | .reconcile _ _ | .appendFile _ _ | .sync _ | .inspect _ _ | .validate _ | .publish _ _ _
  | .rollbackCreated _ => true
  | _ => false

/-- The state after a call that goes so. -/
def outcome (o : Outcome) (c : Call) (w : World) : World :=
  match o with
  | .raised false => w
  | .partly n =>
    match c with
    | .appendFile id chunk => effect h i w (.appendFile id (chunk.take n))
    | .publish id digest size =>
      { effect h i w (.publish id digest size) with created := w.created }
    | _ => w
  | .refused => if canRefuse c then w else effect h i w c
  | _ => effect h i w c

/-- Whether a call that goes so raises. -/
def Outcome.raises : Outcome → Bool
  | .raised _ | .partly _ => true
  | _ => false

/-- How a call is answered. A call that cannot be answered raises and changes nothing. -/
def answer (o : Outcome) (c : Call) (w : World) : Option (Answer c) × World :=
  match reply h o w c with
  | none => (none, w)
  | some a => (if o.raises then none else some a, outcome h i o c w)

/-- A request that ends gives back its locks, and its transaction is undone. -/
def leave (w : World) : World where
  __ := w
  locks := fun lock => if w.locks lock = some i then none else w.locks lock
  marked := Function.update w.marked i []
  created := Function.update w.created i []
  creating := fun id => if w.creating id = some i then none else w.creating id

/-- Whether a lock is free. -/
def ready (c : Call) (w : World) : Bool :=
  match c with
  | .acquire lock => (w.locks lock).isNone
  | _ => true

/-- What happens besides. A content whose digest is locked is left alone, and so is the archive of
a version. -/
def drift (d : Drift) (w : World) : World :=
  match d with
  | .tick duration => { w with now := w.now + duration }
  | .setBlob digest content =>
    if (w.locks (.blob digest)).isSome || w.isArchive digest then w
    else { w with blob := Function.update w.blob digest content }
  | .setOthers digest isReferenced =>
    { w with others := Function.update w.others digest isReferenced }

/-- How the requests are answered. -/
def surroundings : Surroundings Caller Outcome Call Answer Drift World where
  ready := fun _ c w => ready c w
  answer := answer h
  leave := leave
  drift := drift

end Palimpsest.Hub.Upload
