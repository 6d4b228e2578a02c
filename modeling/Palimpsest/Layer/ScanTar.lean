import Palimpsest.Changeset.Normalize
import Palimpsest.Layer.Pax

/-!
# The scanner of layer archives

`_scan_tar` of `oci_converter`: one pass over an archive, header by header
(`Palimpsest.Layer.scanTar`). An extension header leaves something for a later one: a
global PAX header for all that follow, a local one and the two GNU ones for the next
member. The local variables of the loop are `Palimpsest.Layer.Scan`, and one round of it is
`Palimpsest.Layer.scanHeader`.
-/

namespace Palimpsest.Layer

open Control (decodeUtf8 encodeUtf8 hexText)

/-- `_BLOCK` -/
def block : ℕ := 512

/-- `_ZERO_BLOCK` -/
def zeroBlock : Bytes := List.replicate block 0

/-- `PhysicalLayerMember` -/
structure PhysicalLayerMember where
  ordinal : ℕ
  path : RelPath
  kind : EntryKind
  size : ℕ
  mode : ℕ
  uid : ℕ
  gid : ℕ
  mtime : ℕ
  linkTarget : Text
  deviceMajor : ℕ
  deviceMinor : ℕ
  xattrs : List (Text × Text)
  deriving DecidableEq

/-- `_RegularPayloadBinding` -/
structure RegularPayloadBinding where
  memberIndex : ℕ
  offset : ℕ
  size : ℕ
  digest : Text
  deriving DecidableEq

/-- What `_scan_tar` returns. -/
structure ScanResult where
  members : List PhysicalLayerMember
  payloadBindings : List RegularPayloadBinding
  normalized : List (NormalizedEntry ℕ)
  physicalHeaders : ℕ
  regularBytes : ℕ
  totalXattrBytes : ℕ
  metadataBytes : ℕ

/-- `_read_exact_at` -/
def readExactAt (archive : Bytes) (offset size : ℕ) : Except ScanFault Bytes :=
  if archive.length < offset + size then refuse "oci-tar-framing" "tar member is truncated"
  else .ok ((archive.drop offset).take size)

/-- `_hash_payload_at` -/
def hashPayloadAt (archive : Bytes) (offset size : ℕ) : Except ScanFault Text := do
  let payload ← readExactAt archive offset size
  .ok ("sha256:".toList ++ hexText (Sha256.digest payload))

/-! ### Headers -/

/-- `header[start:stop]` -/
def slice (header : Bytes) (start stop : ℕ) : Bytes := (header.take stop).drop start

/-- The type flag of a header. -/
def typeFlag (header : Bytes) : UInt8 := header.getD 156 0

/-- The checksum of a header: the sum of its bytes, blanks for the checksum field itself. -/
def checksum (header : Bytes) : ℕ :=
  ((header.take 148 ++ List.replicate 8 32 ++ header.drop 156).map UInt8.toNat).sum

/-- Whether the checksum field of a header holds its checksum. -/
def checkHeader (header : Bytes) : Except ScanFault Unit := do
  let stated ← tarNumber (slice header 148 156) "checksum"
  if checksum header ≠ stated then refuse "oci-tar-checksum" "tar header checksum is invalid"
  else .ok ()

/-- The type flags of the headers that describe a later one: `x`, `g`, `L` and `K`. -/
def isExtension (flag : UInt8) : Bool := flag = 120 || flag = 103 || flag = 76 || flag = 75

/-- `((member_size + _BLOCK - 1) // _BLOCK) * _BLOCK` -/
def padded (size : ℕ) : ℕ := (size + block - 1) / block * block

/-- The size of a member: a PAX record overrides the one in its header. -/
def effectiveSize (limits : LayerConversionLimits) (header : Bytes) (pax : Pax) :
    Except ScanFault ℕ := do
  let headerSize ← tarNumber (slice header 124 136) "member size"
  paxInteger pax "size" headerSize limits.maxUncompressedBytes

/-- The size after a header of either sort. -/
def readSize (limits : LayerConversionLimits) (header : Bytes) (pax : Pax) : Except ScanFault ℕ :=
  if isExtension (typeFlag header) then tarNumber (slice header 124 136) "member size"
  else effectiveSize limits header pax

/-! ### Members -/

/-- `kinds.get(type_flag)` -/
def kindOf (flag : UInt8) : Option EntryKind :=
  if flag = 0 ∨ flag = 48 then some .file
  else if flag = 49 then some .hardlink
  else if flag = 50 then some .symlink
  else if flag = 51 then some .char
  else if flag = 52 then some .block
  else if flag = 53 then some .directory
  else if flag = 54 then some .fifo
  else none

/-- What a header and its extensions say of a member, its size and attributes apart. -/
structure Fields where
  path : RelPath
  kind : EntryKind
  mode : ℕ
  uid : ℕ
  gid : ℕ
  mtime : ℕ
  linkTarget : Text
  deviceMajor : ℕ
  deviceMinor : ℕ

/-- The check on the name that a whiteout marker is for. -/
def checkWhiteout (path : RelPath) (limits : LayerConversionLimits) : Except ScanFault Unit :=
  let basename := PosixPath.basename path.text
  let parent := PosixPath.dirname path.text
  if whiteoutStart.isPrefixOf basename ∧ basename ≠ opaqueName then
    let targetName := basename.drop whiteoutStart.length
    if targetName = [] ∨ targetName = ['.'] ∨ targetName = ['.', '.'] ∨
        whiteoutStart.isPrefixOf targetName then
      refuse "oci-whiteout" "whiteout target name is invalid"
    else do
      let _ ← validatePath (if parent = [] then targetName else PosixPath.join parent targetName)
        limits.maxPathBytes
      .ok ()
  else .ok ()

/-- What a member links to. -/
def readLinkTarget (kind : EntryKind) (linkName : Text) (limits : LayerConversionLimits) :
    Except ScanFault Text :=
  match kind with
  | .hardlink => do .ok (← validatePath linkName limits.maxPathBytes).text
  | .symlink =>
    if linkName = [] ∨ '\x00' ∈ linkName then
      refuse "oci-invalid-link" "symlink target is invalid"
    else if limits.maxPathBytes < (encodeUtf8 linkName).length then
      refuse "oci-path-limit" "symlink target exceeds the byte limit"
    else .ok linkName
  | _ => .ok linkName

/-- The records that a whiteout marker may have. -/
def allowedWhiteoutPax : List Text :=
  ["atime".toList, "ctime".toList, "mtime".toList, "path".toList]

/-- What the scanner reads of a member, up to its device numbers. -/
def readFields (limits : LayerConversionLimits) (header : Bytes) (pax : Pax)
    (longName longLink : Option Text) (memberSize : ℕ) : Except ScanFault Fields := do
  let start ← tarText (slice header 345 500) "path prefix"
  let headerName ← tarText (slice header 0 100) "member path"
  let name := if start = [] then headerName else start ++ '/' :: headerName
  let linkName ← tarText (slice header 157 257) "link target"
  if pax.any fun r => "GNU.sparse.".toList.isPrefixOf r.1 || r.1 = "SCHILY.realsize".toList then
    refuse "oci-sparse" "sparse file metadata is unsupported"
  else
    let path ← validatePath ((pax.get "path").getD (longName.getD name)) limits.maxPathBytes
    checkWhiteout path limits
    let mode ← tarNumber (slice header 100 108) "mode"
    let uid ← paxInteger pax "uid" (← tarNumber (slice header 108 116) "uid") 0xFFFFFFFF
    let gid ← paxInteger pax "gid" (← tarNumber (slice header 116 124) "gid") 0xFFFFFFFF
    let mtime ← paxInteger pax "mtime" (← tarNumber (slice header 136 148) "mtime") 0xFFFFFFFF
    if mode > 0o7777 ∨ uid > 0xFFFFFFFF ∨ gid > 0xFFFFFFFF ∨ mtime > 0xFFFFFFFF then
      refuse "oci-numeric-metadata" "tar numeric metadata is out of range"
    else match kindOf (typeFlag header) with
      | none => refuse "oci-member-type" "tar member type is unsupported"
      | some kind =>
        let basename := PosixPath.basename path.text
        if path = .dot ∧ kind ≠ .directory then
          refuse "oci-root-metadata" "archive root member must be a directory"
        else if (basename = opaqueName ∨ whiteoutStart.isPrefixOf basename) ∧
            (kind ≠ .file ∨ memberSize ≠ 0 ∨ pax.any fun r => r.1 ∉ allowedWhiteoutPax) then
          refuse "oci-whiteout"
            "whiteout marker must be an empty regular file without control metadata"
        else
          let linkTarget ← readLinkTarget kind ((pax.get "linkpath").getD (longLink.getD linkName))
            limits
          let deviceMajor ← tarNumber (slice header 329 337) "device major"
          let deviceMinor ← tarNumber (slice header 337 345) "device minor"
          if (kind = .char ∨ kind = .block) ∧ ¬(deviceMajor ≤ 4095 ∧ deviceMinor ≤ 1048575) then
            refuse "oci-device-metadata" "device metadata is out of range"
          else .ok ⟨path, kind, mode, uid, gid, mtime, linkTarget, deviceMajor, deviceMinor⟩

/-! ### The loop -/

/-- The local variables of the loop. -/
structure Scan where
  offset : ℕ := 0
  physicalHeaders : ℕ := 0
  metadataBytes : ℕ := 0
  regularBytes : ℕ := 0
  totalXattrBytes : ℕ := 0
  members : List PhysicalLayerMember := []
  payloadBindings : List RegularPayloadBinding := []
  globalPax : Pax := []
  pendingPax : Option Pax := none
  pendingLongName : Option Text := none
  pendingLongLink : Option Text := none

namespace Scan

/-- The records in force for the next member: the pending ones over the global ones. -/
def pax (s : Scan) : Pax := s.globalPax.update (s.pendingPax.getD [])

end Scan

/-- The text that a GNU long name or link header carries. -/
def readLongText (payload : Bytes) : Except ScanFault Text :=
  match decodeUtf8 (payload.rdropWhile fun b => b = 0 ∨ b = 10) with
  | none => refuse "oci-tar-utf8" "GNU long metadata is not valid UTF-8"
  | some decoded =>
    if decoded = [] then refuse "oci-tar-metadata" "GNU long metadata is empty" else .ok decoded

/-- A round of the loop that reads an extension header. -/
def scanExtension (limits : LayerConversionLimits) (archive : Bytes) (s : Scan) (flag : UInt8)
    (memberSize : ℕ) : Except ScanFault Scan :=
  let next := s.offset + block + padded memberSize
  let metadataBytes := s.metadataBytes + memberSize
  if limits.maxMetadataBytesPerHeader < memberSize then
    refuse "oci-metadata-limit" "tar extension header exceeds its byte limit"
  else if limits.maxTotalMetadataBytes < metadataBytes then
    refuse "oci-metadata-limit" "tar extension metadata exceeds its layer limit"
  else do
    let payload ← readExactAt archive (s.offset + block) memberSize
    if flag = 103 then
      let records ← parsePax payload
      .ok { s with
        offset := next
        metadataBytes := metadataBytes
        globalPax := s.globalPax.update records }
    else if flag = 120 then
      if s.pendingPax.isSome then
        refuse "oci-pax-metadata" "multiple local PAX headers are unsupported"
      else
        let records ← parsePax payload
        .ok { s with
          offset := next
          metadataBytes := metadataBytes
          pendingPax := some records }
    else
      let decoded ← readLongText payload
      if flag = 76 then
        .ok { s with
          offset := next
          metadataBytes := metadataBytes
          pendingLongName := some decoded }
      else
        .ok { s with
          offset := next
          metadataBytes := metadataBytes
          pendingLongLink := some decoded }

/-- The regular bytes after a member. -/
def countRegular (limits : LayerConversionLimits) (regularBytes : ℕ) (kind : EntryKind)
    (memberSize : ℕ) : Except ScanFault ℕ :=
  if kind = .file then
    if limits.maxRegularFileBytes < memberSize then
      refuse "oci-regular-limit" "regular file exceeds the per-file limit"
    else if limits.maxTotalRegularBytes < regularBytes + memberSize then
      refuse "oci-regular-limit" "regular files exceed the layer byte limit"
    else .ok (regularBytes + memberSize)
  else if memberSize ≠ 0 then
    refuse "oci-tar-metadata" "non-regular member has a data payload"
  else .ok regularBytes

/-- The payload bindings after a member. -/
def bindPayload (archive : Bytes) (s : Scan) (kind : EntryKind) (memberSize : ℕ) :
    Except ScanFault (List RegularPayloadBinding) :=
  if kind = .file then do
    let digest ← hashPayloadAt archive (s.offset + block) memberSize
    .ok (s.payloadBindings ++ [⟨s.members.length, s.offset + block, memberSize, digest⟩])
  else .ok s.payloadBindings

/-- A round of the loop that reads a member. -/
def scanMember (limits : LayerConversionLimits) (archive : Bytes) (s : Scan) (header : Bytes)
    (memberSize : ℕ) : Except ScanFault Scan :=
  if limits.maxMembers ≤ s.members.length then
    refuse "oci-member-limit" "tar exceeds the member-count limit"
  else do
    let f ← readFields limits header s.pax s.pendingLongName s.pendingLongLink memberSize
    let regularBytes ← countRegular limits s.regularBytes f.kind memberSize
    let (memberXattrs, xattrSize) ← xattrs s.pax limits
    if limits.maxTotalXattrBytes < s.totalXattrBytes + xattrSize then
      refuse "oci-xattr-limit" "layer xattrs exceed the byte limit"
    else
      let payloadBindings ← bindPayload archive s f.kind memberSize
      .ok { s with
        offset := s.offset + block + padded memberSize
        regularBytes := regularBytes
        totalXattrBytes := s.totalXattrBytes + xattrSize
        members := s.members ++ [⟨s.members.length, f.path, f.kind, memberSize, f.mode, f.uid,
          f.gid, f.mtime, f.linkTarget, f.deviceMajor, f.deviceMinor, memberXattrs⟩]
        payloadBindings := payloadBindings
        pendingPax := none
        pendingLongName := none
        pendingLongLink := none }

/-- One round of the loop, at a header that is not the end marker. -/
def scanHeader (limits : LayerConversionLimits) (archive : Bytes) (s : Scan) (header : Bytes) :
    Except ScanFault Scan :=
  let s := { s with physicalHeaders := s.physicalHeaders + 1 }
  if limits.maxPhysicalHeaders < s.physicalHeaders then
    refuse "oci-header-limit" "tar exceeds the physical-header limit"
  else do
    checkHeader header
    let memberSize ← readSize limits header s.pax
    if archive.length < s.offset + block + padded memberSize then
      refuse "oci-tar-framing" "tar member is truncated"
    else if isExtension (typeFlag header) then
      scanExtension limits archive s (typeFlag header) memberSize
    else scanMember limits archive s header memberSize

/-- The member as the reducer takes it. -/
def PhysicalLayerMember.common (m : PhysicalLayerMember) : ChangesetMember ℕ where
  ordinal := m.ordinal
  path := m.path.text
  kind := m.kind
  size := m.size
  mode := m.mode
  uid := m.uid
  gid := m.gid
  mtime := m.mtime
  linkTarget := m.linkTarget
  deviceMajor := m.deviceMajor
  deviceMinor := m.deviceMinor
  xattrs := m.xattrs
  payload := if m.kind = .file then some m.ordinal else none
  path_ne_nil := m.path.ne_nil
  payload_isSome := by split <;> simp [*]

/-- What `_scan_tar` does at the first zero block. -/
def finishScan (archive : Bytes) (s : Scan) : Except ScanFault ScanResult :=
  if archive.length < s.offset + 2 * block ∨
      (archive.drop (s.offset + block)).take block ≠ zeroBlock then
    refuse "oci-tar-trailer" "tar requires two zero end blocks"
  else if (archive.drop (s.offset + 2 * block)).any (· ≠ 0) then
    refuse "oci-tar-trailer" "tar has nonzero bytes after its end marker"
  else if s.pendingPax.isSome ∨ s.pendingLongName.isSome ∨ s.pendingLongLink.isSome then
    refuse "oci-tar-metadata" "tar ends with unattached extension metadata"
  else match normalizeChangeset (s.members.map PhysicalLayerMember.common) with
    | .error .diverges => .error .diverges
    | .error (.raised e) => refuse e.code e.detail
    | .ok normalized => .ok ⟨s.members, s.payloadBindings, normalized, s.physicalHeaders,
        s.regularBytes, s.totalXattrBytes, s.metadataBytes⟩

/-- The loop, for at most so many rounds. -/
def scanFrom (limits : LayerConversionLimits) (archive : Bytes) :
    ℕ → Scan → Except ScanFault ScanResult
  | 0, _ => .error .diverges
  | rounds + 1, s =>
    if archive.length < s.offset + block then
      refuse "oci-tar-trailer" "tar end marker is missing"
    else do
      let header ← readExactAt archive s.offset block
      if header = zeroBlock then finishScan archive s
      else
        let s ← scanHeader limits archive s header
        scanFrom limits archive rounds s

/-- `_scan_tar` -/
def scanTar (limits : LayerConversionLimits) (archive : Bytes) : Except ScanFault ScanResult :=
  if archive.length < 2 * block ∨ archive.length % block ≠ 0 then
    refuse "oci-tar-framing" "tar size is not block aligned"
  else scanFrom limits archive (archive.length / block + 1) {}

end Palimpsest.Layer
