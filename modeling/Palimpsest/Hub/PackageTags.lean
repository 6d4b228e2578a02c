import Mathlib.Data.List.Sort
import Palimpsest.Lib.History
import Palimpsest.Lib.Pool

/-!
# Package tags

`commit_package` and the transaction of `finalize_upload` that it is part of, as a program that
calls the database, and the database, as far as the rows of one package go. Many such programs run
at the same time. A row that is read without a lock can be what it was at any moment since the
transaction began, as long as the transaction does not go back in time; what is locked, inserted
or updated is up to date.

The file lock under which `finalize_upload` commits is left out: what is proved holds without it.
So are the check of the actor and the row of the upload, which are in the same transaction, and
of the receipt what is the same for all commits to a package: its names, its visibility and the
origin of its URL. The foreign keys say no more than what is proved of every state
(`Palimpsest.Hub.Tags.Store.Complete`).
-/

namespace Palimpsest.Hub.Tags

open Calls Calls.Program

/-- A transaction. -/
abbrev Caller := ℕ

/-! ### Rows -/

structure Descriptor where
  mediaType : String
  sizeBytes : ℕ
  deriving DecidableEq

/-- `RegistryPackage` -/
structure RegistryPackage where
  id : String
  packageType : String
  createdAt : ℕ
  updatedAt : ℕ
  deriving DecidableEq

/-- `PackageVersion` -/
structure PackageVersion where
  rootDigest : String
  rootMediaType : String
  graph : List (String × Descriptor)
  platforms : List (List (String × String))
  archiveDigest : String
  archiveSizeBytes : ℕ
  totalBytes : ℕ
  provenance : List (String × String)
  pushedBy : String
  pushedKeyId : String
  pushedAt : ℕ
  deriving DecidableEq

/-- `PackageTag` -/
structure PackageTag where
  rootDigest : String
  updatedAt : ℕ
  updatedBy : String
  revision : ℕ
  deriving DecidableEq

/-- The rows of a package: its versions by their root digests, its tags by their names, and for a
root digest and the digest of a blob whether there is a `PackageBlobReference`. -/
structure Store where
  package : Option RegistryPackage
  version : String → Option PackageVersion
  tag : String → Option PackageTag
  reference : String → String → Bool

/-- The package does not exist. -/
def Store.empty : Store := ⟨none, fun _ => none, fun _ => none, fun _ _ => false⟩

/-! ### Requests -/

/-- `ValidatedPackage` -/
structure ValidatedPackage where
  rootDigest : String
  rootMediaType : String
  graph : List (String × Descriptor)
  platforms : List (List (String × String))
  totalBytes : ℕ

/-- What is committed: the actor, the request of the upload and the archive as validated. -/
structure CommitRequest where
  userId : String
  keyId : String
  packageType : String
  tag : String
  archiveDigest : String
  archiveSizeBytes : ℕ
  expectedTagDigest : Option String
  provenance : List (String × Option String)
  validated : ValidatedPackage

/-- `RegistryError` -/
structure RegistryError where
  status : ℕ
  code : String
  message : String
  deriving DecidableEq

def packageTypeConflict : RegistryError :=
  ⟨409, "PACKAGE_TYPE_CONFLICT", "package type is immutable"⟩

def tagConflict : RegistryError := ⟨412, "TAG_CONFLICT", "tag changed since preflight"⟩

/-- How a commit is refused: by an error for the client, or by a unique key. -/
inductive CommitError
  | registry (e : RegistryError)
  | integrity
  deriving DecidableEq

/-- What `commit_package` returns of a package. -/
structure Receipt where
  tag : String
  digest : String
  packageType : String
  platforms : List (List (String × String))
  alreadyPublished : Bool
  pushedBy : String
  pushedKeyId : String
  deriving DecidableEq

/-- The receipt, and whether the tag was changed. -/
abbrev Response := Except CommitError (Receipt × Bool)

/-! ### Calls -/

/-- The calls of a transaction. -/
inductive Call
  | begin
  /-- `select(RegistryPackage).with_for_update()` -/
  | lockPackage
  | newId
  | now
  | insertPackage (row : RegistryPackage)
  | getTag (tag : String)
  | getVersion (rootDigest : String)
  | insertVersion (version : PackageVersion)
  | insertReferences (rootDigest : String) (blobDigests : List String)
  | insertTag (tag : String) (row : PackageTag)
  /-- `update(PackageTag)` where the root digest and the revision are these -/
  | updateTag (tag : String) (expected : Option String) (revision : ℕ) (row : PackageTag)
  /-- `row.updated_at = now()` -/
  | touchPackage (updatedAt : ℕ)
  | commit
  /-- The client is answered. -/
  | respond (response : Response)

/-- What a call answers unless it raises: an insertion, whether the key was free; an update, how
many rows there were. -/
abbrev Answer : Call → Type
  | .lockPackage => Option RegistryPackage
  | .newId => String
  | .now => ℕ
  | .getTag _ => Option PackageTag
  | .getVersion _ => Option PackageVersion
  | .insertPackage _ | .insertVersion _ | .insertTag _ _ => Bool
  | .updateTag _ _ _ _ => ℕ
  | _ => Unit

abbrev SqlProgram := Program Call Answer

abbrev call (c : Call) : SqlProgram (Answer c) := ask c

/-! ### The commit of a package -/

/-- Whether the tag has the root already. -/
def isSame (r : CommitRequest) (tag : Option PackageTag) : Bool :=
  tag.map (·.rootDigest) = some r.validated.rootDigest

/-- A row for a version. -/
def newVersion (r : CommitRequest) (pushedAt : ℕ) : PackageVersion where
  rootDigest := r.validated.rootDigest
  rootMediaType := r.validated.rootMediaType
  graph := r.validated.graph
  platforms := r.validated.platforms
  archiveDigest := r.archiveDigest
  archiveSizeBytes := r.archiveSizeBytes
  totalBytes := r.validated.totalBytes
  provenance := r.provenance.filterMap fun e => e.2.map fun value => (e.1, value)
  pushedBy := r.userId
  pushedKeyId := r.keyId
  pushedAt := pushedAt

/-- `sorted(set(validated.graph) | {data["archive_digest"]})` -/
def referencedBlobs (r : CommitRequest) : List String :=
  (r.archiveDigest :: r.validated.graph.map Prod.fst).dedup.insertionSort (· ≤ ·)

def receipt (r : CommitRequest) (row : RegistryPackage) (same : Bool) : Receipt where
  tag := r.tag
  digest := r.validated.rootDigest
  packageType := row.packageType
  platforms := r.validated.platforms
  alreadyPublished := same
  pushedBy := r.userId
  pushedKeyId := r.keyId

/-- The tag gets the root, unless it has it already. -/
def moveTag (r : CommitRequest) (row : RegistryPackage) (tag : Option PackageTag) :
    SqlProgram Response := do
  if isSame r tag then return .ok (receipt r row true, false)
  else
    match tag with
    | none =>
      let updatedAt : ℕ ← call .now
      -- the unique key is the comparison where the tag is expected to be absent
      let inserted : Bool ←
        call (.insertTag r.tag ⟨r.validated.rootDigest, updatedAt, r.userId, 1⟩)
      if inserted then
        let touchedAt : ℕ ← call .now
        let _ ← call (.touchPackage touchedAt)
        return .ok (receipt r row false, true)
      else return .error (.registry tagConflict)
    | some seen =>
      let updatedAt : ℕ ← call .now
      let rowcount : ℕ ← call (.updateTag r.tag r.expectedTagDigest seen.revision
        ⟨r.validated.rootDigest, updatedAt, r.userId, seen.revision + 1⟩)
      if rowcount = 1 then
        let touchedAt : ℕ ← call .now
        let _ ← call (.touchPackage touchedAt)
        return .ok (receipt r row false, true)
      else return .error (.registry tagConflict)

/-- The part of `commit_package` after the row of the package. -/
def commitVersion (r : CommitRequest) (row : RegistryPackage) : SqlProgram Response := do
  let tag : Option PackageTag ← call (.getTag r.tag)
  if !isSame r tag && tag.map (·.rootDigest) ≠ r.expectedTagDigest then
    return .error (.registry tagConflict)
  else
    let version : Option PackageVersion ← call (.getVersion r.validated.rootDigest)
    match version with
    | some _ => moveTag r row tag
    | none =>
      let pushedAt : ℕ ← call .now
      let inserted : Bool ← call (.insertVersion (newVersion r pushedAt))
      if inserted then
        let _ ← call (.insertReferences r.validated.rootDigest (referencedBlobs r))
        moveTag r row tag
      else return .error .integrity

/-- `commit_package` -/
def commitPackage (r : CommitRequest) : SqlProgram Response := do
  let found : Option RegistryPackage ← call .lockPackage
  match found with
  | none =>
    let id : String ← call .newId
    let createdAt : ℕ ← call .now
    let updatedAt : ℕ ← call .now
    let row : RegistryPackage := ⟨id, r.packageType, createdAt, updatedAt⟩
    let inserted : Bool ← call (.insertPackage row)
    if inserted then commitVersion r row else return .error .integrity
  | some row =>
    if row.packageType ≠ r.packageType then return .error (.registry packageTypeConflict)
    else commitVersion r row

/-- The transaction of `finalize_upload`. -/
def finalizeCommit (r : CommitRequest) : SqlProgram Unit := do
  let _ ← call .begin
  let response ← commitPackage r
  match response with
  | .ok _ =>
    let _ ← call .commit
  | .error _ => pure ()
  call (.respond response)

/-! ### The database -/

/-- A row that a transaction has written. -/
inductive Write
  | package (row : RegistryPackage)
  | touch (updatedAt : ℕ)
  | version (version : PackageVersion)
  | references (rootDigest : String) (blobDigests : List String)
  | tag (tag : String) (row : PackageTag)

def Store.write (s : Store) : Write → Store
  | .package row => { s with package := some row }
  | .touch updatedAt =>
    { s with package := s.package.map fun row => { row with updatedAt := updatedAt } }
  | .version version =>
    { s with version := Function.update s.version version.rootDigest (some version) }
  | .references rootDigest blobDigests =>
    { s with
      reference := Function.update s.reference rootDigest fun digest =>
        s.reference rootDigest digest || blobDigests.contains digest }
  | .tag tag row => { s with tag := Function.update s.tag tag (some row) }

/-- A transaction that took effect. -/
structure Commit where
  caller : Caller
  store : Store

/-- A client that was answered, and the moments at which its transaction began and ended: how many
transactions had taken effect. -/
structure Answered where
  caller : Caller
  started : ℕ
  ended : ℕ
  response : Response

/-- The database, and the answers. -/
structure World where
  history : List Commit
  /-- Who holds the lock of the row of the package. -/
  holder : Option Caller
  /-- What a transaction has written. -/
  pending : Caller → List Write
  started : Caller → ℕ
  /-- The moment of the last read of a transaction. -/
  since : Caller → ℕ
  answers : List Answered

/-- A database without the package. -/
def World.initial : World := ⟨[], none, fun _ => [], fun _ => 0, fun _ => 0, []⟩

namespace World

variable (w : World) (i : Caller)

/-- The rows at a moment. -/
def storeAt (k : ℕ) : Store := History.stateAt .empty Commit.store w.history k

/-- The rows as they are. -/
def store : Store := w.storeAt w.history.length

/-- The rows as they will be if the transaction commits. -/
def draft : Store := (w.pending i).foldl Store.write w.store

/-- The transaction writes rows. -/
def wrote (write : Write) : World :=
  { w with pending := Function.update w.pending i (w.pending i ++ [write]) }

/-- The transaction reads the rows of a moment. -/
def readAt (k : ℕ) : World := { w with since := Function.update w.since i k }

/-- The lock, unless another transaction has it. -/
def isFree : Bool := w.holder.isNone || w.holder = some i

end World

/-- How a call comes out. -/
structure Outcome where
  /-- The call raises before it takes effect. -/
  fails : Bool := false
  /-- The call raises after it took effect. -/
  lost : Bool := false
  /-- The moment that a read sees. -/
  moment : ℕ := 0
  drawn : String := ""
  time : ℕ := 0
  deriving DecidableEq

/-- A moment that the transaction can see: not before its last read. -/
def World.visible (w : World) (i : Caller) (o : Outcome) : ℕ :=
  max (w.since i) (min o.moment w.history.length)

/-- A call that takes effect. -/
def effect (i : Caller) (o : Outcome) (w : World) : (c : Call) → Answer c × World
  | .begin =>
    ((), { w with
      pending := Function.update w.pending i []
      started := Function.update w.started i w.history.length
      since := Function.update w.since i w.history.length })
  | .lockPackage =>
    match w.store.package with
    | some row => (some row, { w with holder := some i })
    | none => (none, w)
  | .newId => (o.drawn, w)
  | .now => (o.time, w)
  | .insertPackage row =>
    if w.store.package.isSome then (false, w)
    else (true, { w.wrote i (.package row) with holder := some i })
  | .getTag tag => ((w.storeAt (w.visible i o)).tag tag, w.readAt i (w.visible i o))
  | .getVersion rootDigest =>
    ((w.storeAt (w.visible i o)).version rootDigest, w.readAt i (w.visible i o))
  | .insertVersion version =>
    if (w.store.version version.rootDigest).isSome then (false, w)
    else (true, w.wrote i (.version version))
  | .insertReferences rootDigest blobDigests =>
    ((), w.wrote i (.references rootDigest blobDigests))
  | .insertTag tag row =>
    if (w.store.tag tag).isSome then (false, w) else (true, w.wrote i (.tag tag row))
  | .updateTag tag expected revision row =>
    if (w.store.tag tag).any fun current =>
      some current.rootDigest = expected && current.revision = revision
    then (1, w.wrote i (.tag tag row))
    else (0, w)
  | .touchPackage updatedAt => ((), w.wrote i (.touch updatedAt))
  | .commit =>
    ((), { w with
      history := w.history ++ [⟨i, w.draft i⟩]
      holder := if w.holder = some i then none else w.holder
      pending := Function.update w.pending i [] })
  | .respond response =>
    ((), { w with answers := w.answers ++ [⟨i, w.started i, w.history.length, response⟩] })

/-- How a call is answered. -/
def answer (i : Caller) (o : Outcome) (c : Call) (w : World) : Option (Answer c) × World :=
  if o.fails then (none, w)
  else
    let (a, w') := effect i o w c
    (if o.lost then none else some a, w')

/-- Whether a call goes on, or waits for another transaction. All other rows of a package are
written by the transaction that has the lock of its row. -/
def ready (i : Caller) (c : Call) (w : World) : Bool :=
  match c with
  | .lockPackage => w.store.package.isNone || w.isFree i
  | .insertPackage _ => w.isFree i
  | _ => true

/-- A transaction that ends without a commit is undone. -/
def leave (i : Caller) (w : World) : World :=
  { w with
    holder := if w.holder = some i then none else w.holder
    pending := Function.update w.pending i [] }

/-- How the transactions are answered. -/
def surroundings : Surroundings Caller Outcome Call Answer Empty World where
  ready := ready
  answer := answer
  leave := leave
  drift := fun d => nomatch d

/-- Transactions that run at the same time: each of them commits what it is asked to. -/
abbrev Transactions := Pool Caller Call Answer World Unit

/-- What has become of a database without the package. -/
def outcome (requests : Caller → CommitRequest) (events : List (Event Caller Outcome Empty Unit)) :
    World :=
  ((Pool.idle .initial : Transactions).run surroundings (fun i _ => finalizeCommit (requests i))
    events).world

end Palimpsest.Hub.Tags
