import Palimpsest.Layer.Pax
import Palimpsest.Lib.Calls
import Palimpsest.Lib.Directory
import Palimpsest.Lib.JsonEq
import Palimpsest.Lib.Sha256

/-!
# KVM volumes

`ensure_kvm_volume` and `delete_kvm_volume` of `project_volumes`, as programs that call the
operating system and the tools `qemu-img` and `mkfs.ext4`. A volume is formatted under a name of
`mkstemp` and gets its own name by a hard link; it is deleted under a name that is drawn for it.

`ensure_kvm_volume` does not pass the arguments `creation_temp_path`, `filesystem_uuid` and
`parent_validator` of `_ensure_ext4_raw_file_locked`, nor `delete_kvm_volume` those of
`_delete_ext4_raw_file_locked` that another module uses; what they are for is left out, as are
the lock, which keeps out other calls for the volume, the checks on the directory itself and the
texts of the errors.
-/

namespace Palimpsest.Volumes

open Calls Calls.Program Control

/-! ### Calls -/

/-- A tool that is run: with `--version` or `-V`, as `qemu-img info`, or as `mkfs.ext4 -F -q -L`. -/
inductive Command
  | version (tool : String)
  | info (file : String)
  | format (label : Text) (file : String)
  deriving DecidableEq

/-- `CompletedProcess`. The report is what `json.loads` makes of the output, if that is an
object. -/
structure CompletedProcess where
  returncode : ℤ
  report : Option (List (String × Json.Value))

/-- The calls that the programs make. A file is given by its name in the directory of the
project, or by its number where it is open. -/
inductive FileCall
  /-- `path.exists() or path.is_symlink()` -/
  | lexists (name : String)
  | stat (name : String)
  | read (name : String)
  | run (command : Command)
  /-- `mkdir` and `chmod` of the directory -/
  | makeParent
  /-- `tempfile.mkstemp` -/
  | mkstemp (start suffix : String)
  | fchmod (i mode : ℕ)
  | ftruncate (i size : ℕ)
  | fsync (i : ℕ)
  /-- `_fsync_file` -/
  | syncFile (name : String)
  | link (source target : String)
  /-- `fsync_directory` -/
  | syncDirectory
  | unlink (name : String)
  | replace (source target : String)
  /-- `uuid.uuid4().hex` -/
  | drawUuid
  /-- The adapter looks for references to a volume that is about to be deleted. -/
  | validateQuarantine
  deriving DecidableEq

/-- What a call answers unless it raises. A name that is not there has no status, and to `unlink`
it answers `false`. -/
abbrev Answer : FileCall → Type
  | .lexists _ => Bool
  | .stat _ => Option (ℕ × Inode × ℕ)
  | .read _ => List UInt8
  | .run _ => CompletedProcess
  | .mkstemp _ _ => String × ℕ
  | .unlink _ => Bool
  | .drawUuid => String
  | _ => Unit

/-- A program on the directory of a project. -/
abbrev VolumeProgram := Program FileCall Answer

/-- A call. -/
abbrev call (c : FileCall) : VolumeProgram (Answer c) := ask c

/-! ### Names and sizes -/

/-- `_LOGICAL_NAME_RE` -/
def isLogicalName (value : String) : Bool :=
  match value.toList with
  | [] => false
  | c :: t => isLowerOrDigit c && t.length ≤ 62 &&
      t.all fun d => isLowerOrDigit d || d = '_' || d = '.' || d = '-'
where
  isLowerOrDigit (c : Char) : Bool := ('a' ≤ c && c ≤ 'z') || ('0' ≤ c && c ≤ '9')

/-- `_validate_size` -/
def isVolumeSize (sizeBytes : ℕ) : Bool :=
  16 * 1024 ^ 2 ≤ sizeBytes && sizeBytes ≤ 16 * 1024 ^ 4 && sizeBytes % 1024 ^ 2 = 0

/-- `kvm_volume_label` -/
def kvmVolumeLabel (project name : String) : Text :=
  "pali-".toList ++ (hexText (Sha256.digest (encodeUtf8
    ("palimpsest-kvm-volume-v1\x00".toList ++ project.toList ++ '\x00' :: name.toList)))).take 8

/-- `kvm_volume_path` -/
def kvmVolumePath (name : String) : String := name ++ ".raw"

/-! ### Verification -/

/-- `_has_ext4_superblock` -/
def hasExt4Superblock (expectedLabel : Text) (content : List UInt8) : Bool :=
  let field (offset length : ℕ) := (content.drop offset).take length
  let encoded := encodeUtf8 expectedLabel
  field (1024 + 56) 2 = [0x53, 0xef] && Layer.fromBytesLittle (field (1024 + 96) 4) &&& 0x40 ≠ 0 &&
    encoded.length ≤ 16 && (field (1024 + 120) 16).rdropWhile (· = 0) = encoded

/-- What `_verify_kvm_path` checks of the status of a file. -/
def isPlainVolume (uid sizeBytes : ℕ) (f : Inode) (links : ℕ) : Bool :=
  f.regular && f.uid = uid && f.mode &&& 0o077 = 0 && f.mode &&& 0o600 = 0o600 && links = 1 &&
    f.content.length = sizeBytes

/-- What `_verify_kvm_path` checks of the report of `qemu-img`. -/
def describesRaw (sizeBytes : ℕ) (info : List (String × Json.Value)) : Bool :=
  let absent (key : String) := ((Json.lookup key info).getD .null).pyEq .null
  ((Json.lookup "format" info).getD .null).pyEq (.str "raw") &&
    ((Json.lookup "virtual-size" info).getD .null).pyEq (.int sizeBytes) &&
    absent "backing-filename" && absent "full-backing-filename"

/-- `_run_required` -/
def runRequired (command : Command) : VolumeProgram CompletedProcess := do
  let result : CompletedProcess ← call (.run command)
  require (result.returncode = 0)
  return result

/-- `_qemu_info` -/
def qemuInfo (name : String) : VolumeProgram (List (String × Json.Value)) := do
  let result ← runRequired (.info name)
  take result.report

/-- `_verify_kvm_path` -/
def verifyKvmPath (uid : ℕ) (name : String) (sizeBytes : ℕ) (expectedLabel : Text) :
    VolumeProgram Unit := do
  let status : Option (ℕ × Inode × ℕ) ← call (.stat name)
  let metadata ← take status
  require (isPlainVolume uid sizeBytes metadata.2.1 metadata.2.2)
  let info ← qemuInfo name
  require (describesRaw sizeBytes info)
  let content : List UInt8 ← call (.read name)
  require (hasExt4Superblock expectedLabel content)

/-! ### Creation -/

/-- `_preflight_kvm_tools` -/
def preflightKvmTools : VolumeProgram Unit := do
  let _ ← runRequired (.version "qemu-img")
  let _ ← runRequired (.version "mkfs.ext4")

/-- The temporary file becomes a volume. -/
def formatTemporary (uid : ℕ) (sizeBytes : ℕ) (label : Text) (temporary : String) (i : ℕ) :
    VolumeProgram Unit := do
  let _ ← call (.fchmod i 0o600)
  let _ ← call (.ftruncate i sizeBytes)
  let _ ← call (.fsync i)
  let _ ← runRequired (.format label temporary)
  let _ ← call (.syncFile temporary)
  verifyKvmPath uid temporary sizeBytes label

/-- The status of the file that has just been named. -/
def statPublished (path : String) : VolumeProgram (ℕ × Inode × ℕ) := do
  let status : Option (ℕ × Inode × ℕ) ← call (.stat path)
  take status

/-- The temporary name is removed, durably. -/
def unlinkTemporary (temporary : String) : VolumeProgram Unit := do
  let _ ← call .syncDirectory
  let there : Bool ← call (.unlink temporary)
  require there
  let _ ← call .syncDirectory

/-- The volume has its name, and loses the temporary one. The variable is `published_identity`. -/
def settle (path temporary : String) : Tried FileCall Answer (Option ℕ) Unit := do
  let published ← Tried.lift (statPublished path)
  Tried.modify fun _ => some published.1
  Tried.lift (unlinkTemporary temporary)

/-- The statements that the exception handler of a creation is for. -/
def publish (uid : ℕ) (path : String) (sizeBytes : ℕ) (label : Text) (temporary : String) (i : ℕ) :
    Tried FileCall Answer (Option ℕ) Unit := do
  Tried.lift (formatTemporary uid sizeBytes label temporary i)
  let _ ← Tried.lift (call (.link temporary path))
  settle path temporary

/-- The exception handler of a creation. -/
def cleanUp (path temporary : String) (publishedIdentity : Option ℕ) : VolumeProgram Unit := do
  match publishedIdentity with
  | some i =>
    let current : Option (ℕ × Inode × ℕ) ← call (.stat path)
    match current with
    | some (j, _, _) =>
      if j = i then
        let _ ← call (.unlink path)
    | none => pure ()
  | none => pure ()
  let _ ← call (.unlink temporary)

/-- A volume is made where none is. -/
def createVolume (uid : ℕ) (path : String) (sizeBytes : ℕ) (label : Text) (logicalName : String) :
    VolumeProgram Unit := do
  preflightKvmTools
  let _ ← call .makeParent
  let (temporary, i) : String × ℕ ← call (.mkstemp ("." ++ logicalName ++ "-") ".raw.tmp")
  let (result, publishedIdentity) ← publish uid path sizeBytes label temporary i none
  match result with
  | some _ => pure ()
  | none =>
    cleanUp path temporary publishedIdentity
    .raise

/-- `_ensure_ext4_raw_file_locked` -/
def ensureExt4RawFileLocked (uid : ℕ) (path : String) (sizeBytes : ℕ) (label : Text)
    (logicalName : String) : VolumeProgram Bool := do
  let there : Bool ← call (.lexists path)
  if there then
    verifyKvmPath uid path sizeBytes label
    return false
  else
    createVolume uid path sizeBytes label logicalName
    return true

/-- `KvmVolume` -/
structure KvmVolume where
  project : String
  name : String
  path : String
  sizeBytes : ℕ
  created : Bool

/-- `ensure_kvm_volume` -/
def ensureKvmVolume (uid : ℕ) (project name : String) (sizeBytes : ℕ) :
    VolumeProgram KvmVolume := do
  require (isVolumeSize sizeBytes && isLogicalName project && isLogicalName name)
  let path := kvmVolumePath name
  let created ← ensureExt4RawFileLocked uid path sizeBytes (kvmVolumeLabel project name) name
  return ⟨project, name, path, sizeBytes, created⟩

/-! ### Deletion -/

/-- The statements that the exception handler of a deletion is for. -/
def removeQuarantined (uid : ℕ) (path : String) (sizeBytes : ℕ) (label : Text)
    (quarantine : String) (hasValidator : Bool) : VolumeProgram Unit := do
  let _ ← call (.replace path quarantine)
  let _ ← call .syncDirectory
  if hasValidator then
    let _ ← call .validateQuarantine
  let there : Bool ← call (.lexists path)
  require (!there)
  verifyKvmPath uid quarantine sizeBytes label
  let removed : Bool ← call (.unlink quarantine)
  require removed
  let _ ← call .syncDirectory

/-- The exception handler of a deletion. -/
def restoreVolume (path quarantine : String) : VolumeProgram Unit := do
  let kept : Bool ← call (.lexists quarantine)
  if kept then
    let there : Bool ← call (.lexists path)
    require (!there)
    let _ ← call (.replace quarantine path)
    let _ ← call .syncDirectory

/-- `_delete_ext4_raw_file_locked` -/
def deleteExt4RawFileLocked (uid : ℕ) (path : String) (sizeBytes : ℕ) (label : Text)
    (logicalName : String) (hasValidator : Bool) : VolumeProgram Bool := do
  let there : Bool ← call (.lexists path)
  if !there then return false
  verifyKvmPath uid path sizeBytes label
  let uuid : String ← call .drawUuid
  let quarantine := "." ++ logicalName ++ "-delete-" ++ uuid ++ ".raw"
  match ← (removeQuarantined uid path sizeBytes label quarantine hasValidator).caught with
  | some _ => return true
  | none =>
    restoreVolume path quarantine
    .raise

/-- `delete_kvm_volume` -/
def deleteKvmVolume (uid : ℕ) (project name : String) (sizeBytes : ℕ) (hasValidator : Bool) :
    VolumeProgram Bool := do
  require (isVolumeSize sizeBytes && isLogicalName project && isLogicalName name)
  deleteExt4RawFileLocked uid (kvmVolumePath name) sizeBytes (kvmVolumeLabel project name) name
    hasValidator

/-! ### What answers -/

/-- How a call comes out. -/
structure Outcome where
  /-- The call raises. -/
  fails : Bool := false
  /-- The exit status of a tool. -/
  returncode : ℤ := 0
  /-- What `mkfs.ext4` makes of the file. -/
  written : List UInt8 := []
  /-- What is drawn for a name. -/
  drawn : String := ""
  /-- A file that someone else then puts under the name of the volume. -/
  appears : Option Inode := none

/-- What the calls work on, and the calls so far, each with whether it was answered. -/
structure World where
  directory : Directory
  log : List (FileCall × Bool) := []

/-- What `ftruncate` makes of a content. -/
def truncated (size : ℕ) (content : List UInt8) : List UInt8 :=
  content.take size ++ List.replicate (size - content.length) 0

section

variable (info : List UInt8 → Option (List (String × Json.Value))) (uid : ℕ)

/-- An operation on the directory. -/
def answerIf {α : Type} (o : Outcome) (d : Directory) (a : α) (d' : Option Directory) :
    Option α × Directory :=
  match d' with
  | some d' => if o.fails then (none, d) else (some a, d')
  | none => (none, d)

/-- A call. `qemu-img info` reports what there is to report of a content; all else is up to the
outcome. -/
def perform (o : Outcome) (d : Directory) : (c : FileCall) → Option (Answer c) × Directory
  | .lexists name => answerIf o d (d.find name).isSome (some d)
  | .stat name => answerIf o d (d.look name) (some d)
  | .read name => answerIf o d ((d.look name).elim [] fun x => x.2.1.content)
      ((d.find name).map fun _ => d)
  | .run (.version _) => answerIf o d ⟨o.returncode, none⟩ (some d)
  | .run (.info name) =>
    answerIf o d ⟨o.returncode, (d.look name).bind fun x => info x.2.1.content⟩ (some d)
  | .run (.format _ name) =>
    let d := match d.look name with
      | some (i, f, _) => d.put i { f with content := o.written }
      | none => d
    answerIf o d ⟨o.returncode, none⟩ (some d)
  | .makeParent => answerIf o d () (some d)
  | .mkstemp start suffix =>
    let name := start ++ o.drawn ++ suffix
    answerIf o d (name, d.next) (d.create name 0o600 uid)
  | .fchmod i mode => answerIf o d () (some (d.chmod i mode))
  | .ftruncate i size =>
    let f := d.inodes i
    answerIf o d () (some (d.put i { f with content := truncated size f.content }))
  | .fsync _ => answerIf o d () (some d)
  | .syncFile _ => answerIf o d () (some d)
  | .link source target => answerIf o d () (d.link source target)
  | .syncDirectory => answerIf o d () (some d)
  | .unlink name =>
    match d.unlink name with
    | some d' => answerIf o d true (some d')
    | none => answerIf o d false (some d)
  | .replace source target => answerIf o d () (d.replace source target)
  | .drawUuid => (some o.drawn, d)
  | .validateQuarantine => answerIf o d () (some d)

/-- A call, and what someone else does after it. -/
def answer (path : String) (o : Outcome) (c : FileCall) (w : World) : Option (Answer c) × World :=
  let (a, d) := perform info uid o w.directory c
  let d := match o.appears with
    | some f => d.place path f
    | none => d
  (a, ⟨d, w.log ++ [(c, a.isSome)]⟩)

end

end Palimpsest.Volumes
