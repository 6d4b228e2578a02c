import Mathlib.Data.List.Infix
import Palimpsest.Changeset.ReservedNames
import Palimpsest.Layer.ScanTar

/-!
# The translator of layer archives

`translate_oci_tar_to_overlay_tar` of `oci_convert`, up to the normalized changeset that it
writes out. The archive is walked twice: its framing is checked header by header
(`Palimpsest.Layer.checkFraming`), and its members are those that `tarfile` reads, which is a
parameter here: what it makes of an archive is a list of members, or of nothing where it
raises.
-/

namespace Palimpsest.Layer

open Control (decodeUtf8 encodeUtf8)

/-- `TarTranslationLimits` -/
structure TarTranslationLimits where
  maxMembers : ℕ := 10000
  maxInputBytes : ℕ := 512 * 1024 ^ 2
  maxPathBytes : ℕ := 4096
  maxRegularFileBytes : ℕ := 256 * 1024 ^ 2
  maxTotalRegularBytes : ℕ := 512 * 1024 ^ 2
  maxPaxBytesPerMember : ℕ := 64 * 1024

/-- How a translation can fail to return. -/
inductive TranslationFault
  /-- `ArtifactValidationError` -/
  | artifact (message : String)
  /-- `ChangesetValidationError` of a member -/
  | member (detail : String)
  /-- `ChangesetValidationError` of the changeset -/
  | changeset (error : ChangesetError)
  | diverges
  deriving DecidableEq

/-- `raise ArtifactValidationError(message)` -/
def invalid {α : Type} (message : String) : Except TranslationFault α := .error (.artifact message)

/-! ### The framing -/

/-- `data[start:stop]`, of positions that count from the end where they are negative. -/
def pySlice (data : Bytes) (start stop : ℤ) : Bytes :=
  let place (i : ℤ) : ℕ := (if i < 0 then i + data.length else i).toNat
  (data.take (place stop)).drop (place start)

/-- The loop of `_validate_uncompressed_tar_framing`, for at most so many rounds. A negative size
takes it back. -/
def checkFramingFrom (payload : Bytes) : ℕ → ℤ → Except TranslationFault Unit
  | 0, _ => .error .diverges
  | rounds + 1, offset =>
    if payload.length < offset + block then invalid "OCI layer tar end marker is missing"
    else
      let header := pySlice payload offset (offset + block)
      if header = zeroBlock then
        if pySlice payload (offset + block) (offset + 2 * block) ≠ zeroBlock ∨
            (pySlice payload (offset + 2 * block) payload.length).any (· ≠ 0) then
          invalid "OCI layer tar trailer is invalid"
        else .ok ()
      else
        let checksumField := strip [0, 32] (slice header 148 156)
        let sizeField := strip [0, 32] (slice header 124 136)
        match pyInt 8 (if checksumField = [] then [48] else checksumField),
            pyInt 8 (if sizeField = [] then [48] else sizeField) with
        | some stored, some size =>
          if (checksum header : ℤ) ≠ stored then
            invalid "OCI layer tar header checksum is invalid"
          else
            let next := offset + block * (1 + (size + block - 1) / block)
            if payload.length < next then invalid "OCI layer tar member is truncated"
            else checkFramingFrom payload rounds next
        | _, _ => invalid "OCI layer tar header is invalid"

/-- `_validate_uncompressed_tar_framing`. There are fewer places for a header than rounds, so a
walk that does not end in so many goes round for ever. -/
def checkFraming (payload : Bytes) : Except TranslationFault Unit :=
  if [0x1f, 0x8b].isPrefixOf payload || [0x28, 0xb5, 0x2f, 0xfd].isPrefixOf payload then
    invalid ("OCI layer must be decompressed and diff-id verified by registry ingestion " ++
      "before translation")
  else if payload.length < block * 2 ∨ payload.length % block ≠ 0 then
    invalid "OCI layer tar framing is invalid"
  else checkFramingFrom payload (2 * payload.length + 2) 0

/-! ### Members -/

/-- What the predicates of a `TarInfo` tell apart. -/
inductive TarType
  | regular
  | directory
  | hardlink
  | symlink
  | char
  | block
  | fifo
  | other
  deriving DecidableEq

/-- `TarInfo`. A string is nothing where UTF-8 cannot encode it, a time where it is not finite, and
the payload where it cannot be read. -/
structure TarInfo where
  name : Option Text
  type : TarType
  size : ℤ
  mode : ℤ
  uid : ℤ
  gid : ℤ
  mtime : Option ℚ
  linkname : Option Text
  devmajor : ℤ
  devminor : ℤ
  sparse : Bool
  paxHeaders : List (Option Text × Option Text)
  payload : Option Bytes

/-- `_validate_tar_path` -/
def validateTarPath (path : Text) : Except TranslationFault Text :=
  if path = [] ∨ path = ['.'] then .ok ['.']
  else if ['.', '.'] ∈ path.splitOn '/' then invalid "Invalid member path in OCI layer tar"
  else
    let normalized := PosixPath.normpath path
    if normalized.head? = some '/' ∨ "../".toList.isPrefixOf normalized ∨
        "/../".toList <:+: normalized ∨ normalized = ['.', '.'] ∨ '\x00' ∈ path ∨ '\\' ∈ path then
      invalid "Invalid member path in OCI layer tar"
    else if normalized = ".palimpsest".toList ∨ ".palimpsest/".toList.isPrefixOf normalized then
      invalid "Reserved path in OCI layer tar"
    else .ok normalized

/-- `_validate_member_numeric_metadata` -/
def checkNumbers (m : TarInfo) : Except TranslationFault Unit := do
  for (name, value, maximum) in
      [("mode", m.mode, 0o7777), ("uid", m.uid, 0xFFFFFFFF), ("gid", m.gid, 0xFFFFFFFF)] do
    if ¬(0 ≤ value ∧ value ≤ maximum) then
      invalid ("OCI layer " ++ name ++ " metadata is out of range")
  match m.mtime with
  | some t =>
    if t.den ≠ 1 ∨ ¬(0 ≤ t ∧ t ≤ 0xFFFFFFFF) then
      invalid ("OCI layer mtime metadata is not an exactly representable SquashFS timestamp")
  | none => invalid ("OCI layer mtime metadata is not an exactly representable SquashFS timestamp")

/-- `_validate_whiteout_marker` -/
def checkMarker (m : TarInfo) : Except TranslationFault Unit :=
  if m.type ≠ .regular ∨ m.size ≠ 0 ∨
      m.paxHeaders.any fun h => h.1.all fun key => key ∉ allowedWhiteoutPax then
    invalid "OCI whiteout marker must be an empty regular file without control metadata"
  else .ok ()

/-! ### Extended attributes -/

/-- `_validate_capability_xattr` -/
def checkCapabilityXattr (value : Text) : Except TranslationFault Unit :=
  match encodeLatin1 value with
  | none => invalid "Invalid security.capability metadata"
  | some raw =>
    let magic := fromBytesLittle (raw.take 4)
    if raw.length ∉ [12, 20, 24] ∨ capabilityLength magic ≠ some raw.length ∨
        magic &&& 0x00FFFFFE ≠ 0 then
      invalid "Invalid security.capability metadata"
    else .ok ()

/-- `_validate_pax_xattr_policy`, of one header. -/
def checkPaxHeader (key value : Text) : Except TranslationFault Unit := do
  if "LIBARCHIVE.xattr.".toList.isPrefixOf key then
    invalid "OCI layer contains an unsupported LIBARCHIVE xattr encoding"
  if "SCHILY.xattr.trusted.".toList.isPrefixOf key then
    invalid "OCI layer contains reserved trusted xattr metadata"
  if "SCHILY.xattr.security.".toList.isPrefixOf key then
    if key ≠ "SCHILY.xattr.security.capability".toList then
      invalid "OCI layer contains unsupported security xattr metadata"
    checkCapabilityXattr value
  if attributeStart.isPrefixOf key then
    if ¬("SCHILY.xattr.user.".toList.isPrefixOf key ∨
        key = "SCHILY.xattr.security.capability".toList) then
      invalid "OCI layer contains an unsupported xattr namespace"
    let name := key.drop attributeStart.length
    if name = [] ∨ name.any fun c => !isAttributeChar c then
      invalid "OCI layer contains an invalid xattr name"

/-- The attributes of a member, in the order of their names. -/
def memberXattrs (paxHeaders : List (Text × Text)) : List (Text × Text) :=
  ((paxHeaders.filter fun h => attributeStart.isPrefixOf h.1).map fun h =>
    (h.1.drop attributeStart.length, h.2)).insertionSort fun a b => toLex a ≤ toLex b

/-! ### One member -/

/-- A string that UTF-8 can encode. -/
def encodable (s : Option Text) (message : String) : Except TranslationFault Text :=
  match s with
  | some t => .ok t
  | none => invalid message

/-- The headers of a member, if UTF-8 can encode them all. -/
def encodableHeaders (headers : List (Option Text × Option Text)) :
    Except TranslationFault (List (Text × Text)) :=
  headers.mapM fun h => do
    let key ← encodable h.1 "OCI layer PAX metadata is not valid UTF-8"
    let value ← encodable h.2 "OCI layer PAX metadata is not valid UTF-8"
    .ok (key, value)

/-- `EntryKind` of a `TarInfo`. -/
def TarType.kind? : TarType → Option EntryKind
  | regular => some .file
  | directory => some .directory
  | hardlink => some .hardlink
  | symlink => some .symlink
  | char => some .char
  | block => some .block
  | fifo => some .fifo
  | other => none

/-- The checks on a regular file, and the regular bytes after it. -/
def countRegularBytes (limits : TarTranslationLimits) (total : ℕ) (m : TarInfo) :
    Except TranslationFault ℕ := do
  if m.type ≠ .regular then return total
  if m.sparse then invalid "OCI sparse files are not supported by the feasibility probe"
  if m.size < 0 ∨ m.size > limits.maxRegularFileBytes then
    invalid "OCI layer regular file exceeds the per-file limit"
  if limits.maxTotalRegularBytes < total + m.size.toNat then
    invalid "OCI layer exceeds the total regular-byte limit"
  return total + m.size.toNat

/-- The link target of a member. Of a member that is no link it is only passed on. -/
def translateLink (limits : TarTranslationLimits) (m : TarInfo) : Except TranslationFault Text := do
  if m.type ≠ .hardlink ∧ m.type ≠ .symlink then return m.linkname.getD []
  let linkname ← encodable m.linkname "OCI layer link target is not valid UTF-8"
  if limits.maxPathBytes < (encodeUtf8 linkname).length then
    invalid "OCI layer link target exceeds the byte limit"
  if m.type = .hardlink then validateTarPath linkname
  else if linkname = [] ∨ '\x00' ∈ linkname then
    invalid "OCI layer symlink target is invalid"
  else return linkname

/-- The payload of a regular file. -/
def readPayload (m : TarInfo) : Except TranslationFault Bytes :=
  if m.type ≠ .regular then .ok []
  else
    match m.payload with
    | none => invalid "OCI regular file payload could not be read"
    | some payload =>
      let content := payload.take (m.size.toNat + 1)
      if content.length ≠ m.size.toNat then
        invalid "OCI regular file payload size does not match metadata"
      else .ok content

/-- `ChangesetMember(...)`, with what `__post_init__` checks of the fields of a tar member. -/
def changesetMember (ordinal : ℕ) (path : Text) (kind : EntryKind) (m : TarInfo)
    (linkTarget : Text) (xattrs : List (Text × Text)) (content : Bytes) :
    Except TranslationFault (ChangesetMember Bytes) :=
  if h : path = [] then .error (.member "member path is invalid")
  else if m.size < 0 ∨ m.mode < 0 ∨ m.uid < 0 ∨ m.gid < 0 ∨ m.devmajor < 0 ∨ m.devminor < 0 then
    .error (.member "member numeric metadata is invalid")
  else .ok
    { ordinal := ordinal
      path := path
      kind := kind
      size := m.size.toNat
      mode := m.mode.toNat
      uid := m.uid.toNat
      gid := m.gid.toNat
      mtime := (m.mtime.getD 0).num.toNat
      linkTarget := linkTarget
      deviceMajor := m.devmajor.toNat
      deviceMinor := m.devminor.toNat
      xattrs := xattrs
      payload := if kind = .file then some content else none
      path_ne_nil := h
      payload_isSome := by split <;> simp [*] }

/-- A round of the loop: the member, and the regular bytes after it. -/
def translateMember (limits : TarTranslationLimits) (ordinal total : ℕ) (m : TarInfo) :
    Except TranslationFault (ChangesetMember Bytes × ℕ) := do
  if limits.maxMembers < ordinal + 1 then invalid "OCI layer exceeds the member-count limit"
  let name ← encodable m.name "OCI layer member path is not valid UTF-8"
  if limits.maxPathBytes < (encodeUtf8 name).length then
    invalid "OCI layer member path exceeds the byte limit"
  let path ← validateTarPath name
  let basename := PosixPath.basename path
  checkNumbers m
  if basename = opaqueName ∨ whiteoutStart.isPrefixOf basename then checkMarker m
  let total ← countRegularBytes limits total m
  let linkTarget ← translateLink limits m
  let some kind := m.type.kind? | invalid "OCI layer contains an unsupported member type"
  if (kind = .char ∨ kind = .block) ∧ ¬((0 ≤ m.devmajor ∧ m.devmajor ≤ 4095) ∧
      0 ≤ m.devminor ∧ m.devminor ≤ 1048575) then
    invalid "OCI layer device metadata is out of range"
  let paxHeaders ← encodableHeaders m.paxHeaders
  if limits.maxPaxBytesPerMember <
      (paxHeaders.map fun h => (encodeUtf8 h.1).length + (encodeUtf8 h.2).length).sum then
    invalid "OCI layer PAX metadata exceeds the per-member limit"
  if path = ['.'] ∧ kind ≠ .directory then invalid "OCI root archive member must be a directory"
  paxHeaders.forM fun h => checkPaxHeader h.1 h.2
  let content ← readPayload m
  let member ← changesetMember ordinal path kind m linkTarget (memberXattrs paxHeaders) content
  return (member, total)

/-! ### The archive -/

/-- The loop over the members that `tarfile` reads. -/
def translateFrom (limits : TarTranslationLimits) :
    List (Option TarInfo) → List (ChangesetMember Bytes) → ℕ →
      Except TranslationFault (List (ChangesetMember Bytes))
  | [], members, _ => .ok members
  | none :: _, _, _ => invalid "OCI layer contains invalid tar metadata"
  | some m :: rest, members, total => do
    let (member, total) ← translateMember limits members.length total m
    translateFrom limits rest (members ++ [member]) total

/-- What a translation comes to before it is written out. -/
structure Translation where
  members : List (ChangesetMember Bytes)
  normalized : List (NormalizedEntry Bytes)

/-- `translate_oci_tar_to_overlay_tar`, with what `tarfile` reads of an archive if it opens it. -/
def translateTar (tarfile : Bytes → Option (List (Option TarInfo))) (limits : TarTranslationLimits)
    (archive : Bytes) : Except TranslationFault Translation := do
  if limits.maxInputBytes < archive.length then
    invalid "OCI layer exceeds the input-byte limit"
  checkFraming archive
  match tarfile archive with
  | none => invalid "OCI layer is not a readable tar archive"
  | some infos =>
    let members ← translateFrom limits infos [] 0
    match normalizeChangeset members with
    | .error .diverges => .error .diverges
    | .error (.raised e) => .error (.changeset e)
    | .ok normalized => return ⟨members, normalized⟩

end Palimpsest.Layer
