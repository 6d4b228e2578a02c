import Mathlib.Data.Char
import Mathlib.Data.List.Lex
import Mathlib.Data.List.Sort
import Palimpsest.Account.AccountTexts
import Palimpsest.Lib.HexField
import Palimpsest.Lib.Results
import Palimpsest.Project.Environment

/-!
# The newc archive of the initramfs

`oci_initramfs` writes an archive (`Palimpsest.Initramfs.buildNewc`) and reads one
(`Palimpsest.Initramfs.parseNewc`). An entry is a header of thirteen hexadecimal fields, a
name ended by a NUL, and data. The name is padded to a multiple of four bytes from the
beginning of the header, and the data from the beginning of the data. An archive ends with a
trailer, an entry without data whose name no path has.

The reader keeps its place by what is left of the archive. The check that an entry takes up
some bytes, which every entry passes, is left out.
-/

namespace Palimpsest.Initramfs

open Json Regex
open Account (asciiBytes decodeAscii)
open Project (textStart textEnd)

/-- A string of bytes. -/
abbrev Bytes := List UInt8

/-- How reading or writing can fail: an `ArtifactValidationError`, or a loop without end. -/
inductive NewcFault
  | raised (message : String)
  | diverges
  deriving DecidableEq, Repr

/-- `raise ArtifactValidationError(message)` -/
def refuse {α : Type} (message : String) : Except NewcFault α := .error (.raised message)

/-- `MAX_OCI_INITRAMFS_BYTES` -/
def maxOciInitramfsBytes : ℕ := 64 * 1024 * 1024

/-- `MAX_OCI_INITRAMFS_ENTRY_BYTES` -/
def maxOciInitramfsEntryBytes : ℕ := 32 * 1024 * 1024

/-- `MAX_OCI_INITRAMFS_ENTRIES` -/
def maxOciInitramfsEntries : ℕ := 64

/-- `_NEWC_MAGIC` -/
def newcMagic : Bytes := asciiBytes "070701".toList

/-- `_NEWC_HEADER_BYTES` -/
def newcHeaderBytes : ℕ := 110

/-- `_TRAILER` -/
def trailer : Text := "TRAILER!!!".toList

/-! ### Entries -/

/-- `[A-Za-z0-9._-]` -/
def isPathChar (c : Char) : Bool := c.isAlphanum || c = '.' || c = '_' || c = '-'

/-- `_PATH_RE` -/
def pathRe : Regex :=
  seq textStart (seq (many1 (chars isPathChar))
    (seq (star (seq (chars fun c => c = '/') (many1 (chars isPathChar)))) textEnd))

/-- Whether `_canonical_path` lets a path through. -/
def isCanonicalPath (value : Text) : Bool :=
  value ≠ [] && value.length ≤ 4096 && '\x00' ∉ value && '\\' ∉ value && value.head? ≠ some '/' &&
    pathRe.fullMatch value &&
      (value.splitOn '/').all fun component => component ∉ [['.'], ['.', '.']]

/-- The modes that an entry may have: a directory, a file and a program. -/
def supportedModes : List ℕ := [0o040755, 0o100644, 0o100755]

/-- `stat.S_ISDIR(mode)` -/
def isDirMode (mode : ℕ) : Bool := mode &&& 0o170000 = 0o040000

/-- `NewcEntry`. The proof fields are what `__post_init__` checks. -/
structure NewcEntry where
  path : Text
  mode : ℕ
  data : Bytes
  path_canonical : isCanonicalPath path = true
  mode_mem : mode ∈ supportedModes
  data_length : data.length ≤ maxOciInitramfsEntryBytes
  directory_empty : isDirMode mode = true → data = []
  deriving DecidableEq

/-- `NewcEntry(path, mode, data)` -/
def newcEntry (path : Text) (mode : ℕ) (data : Bytes) : Except NewcFault NewcEntry :=
  if hpath : isCanonicalPath path = true then
    if hmode : mode ∈ supportedModes then
      if hdata : data.length ≤ maxOciInitramfsEntryBytes then
        if hempty : isDirMode mode = true → data = [] then
          .ok ⟨path, mode, data, hpath, hmode, hdata, hempty⟩
        else refuse "initramfs directory data must be empty"
      else refuse "initramfs entry data is invalid"
    else refuse "initramfs entry mode is unsupported"
  else refuse "initramfs entry path is invalid"

/-! ### Writing -/

/-- `(-size) % 4` -/
def paddingSize (size : ℕ) : ℕ := (-(size : ℤ) % 4).toNat

/-- `_padding` -/
def padding (size : ℕ) : Bytes := List.replicate (paddingSize size) 0

/-- The fields of a header, the file's size and its name's size among them. -/
def headerFields (inode mode filesize namesize : ℕ) : List ℕ :=
  [inode, mode, 0, 0, 1, 0, filesize, 0, 0, 0, 0, namesize, 0]

/-- `f"{field:08x}".encode("ascii")` -/
def fieldBytes (field : ℕ) : Bytes := asciiBytes (HexField.text 8 field)

/-- `_newc_record` -/
def newcRecord (inode mode : ℕ) (path : Text) (data : Bytes) : Bytes :=
  let name := asciiBytes path ++ [0]
  let header := newcMagic ++ (headerFields inode mode data.length name.length).flatMap fieldBytes
  header ++ name ++ padding (header.length + name.length) ++ data ++ padding data.length

/-- The records of entries, numbered from this one on. -/
def newcRecords : ℕ → List NewcEntry → Bytes
  | _, [] => []
  | index, e :: entries => newcRecord index e.mode e.path e.data ++ newcRecords (index + 1) entries

/-- The parent directories of a path. -/
def parents (path : Text) : List Text :=
  let components := path.splitOn '/'
  (List.range' 1 (components.length - 1)).map fun index =>
    List.intercalate ['/'] (components.take index)

/-- `build_newc` -/
def buildNewc (entries : List NewcEntry) : Except NewcFault Bytes :=
  if ¬(1 ≤ entries.length ∧ entries.length ≤ maxOciInitramfsEntries) then
    refuse "initramfs entries are invalid"
  else
    let paths := entries.map (·.path)
    let directories := (entries.filter fun e => isDirMode e.mode).map (·.path)
    if paths ≠ paths.insertionSort (· ≤ ·) ∨ ¬paths.Nodup then
      refuse "initramfs entries must be unique and lexically ordered"
    else if paths.any fun path => (parents path).any (· ∉ directories) then
      refuse "initramfs entry parent directory is missing"
    else
      let payload := newcRecords 1 entries ++ newcRecord (entries.length + 1) 0 trailer []
      if maxOciInitramfsBytes < payload.length then refuse "initramfs archive is too large"
      else .ok payload

/-! ### Reading -/

/-- `_hex_field` -/
def hexField (raw : Bytes) : Except NewcFault ℕ :=
  if raw.length ≠ 8 ∨ raw.any fun b => !HexField.isHexDigit (Char.ofUInt8 b) then
    refuse "initramfs newc header is not canonical"
  else .ok (HexField.value (raw.map Char.ofUInt8))

/-- The fields of a header. -/
structure NewcHeader where
  inode : ℕ
  mode : ℕ
  uid : ℕ
  gid : ℕ
  nlink : ℕ
  mtime : ℕ
  filesize : ℕ
  devmajor : ℕ
  devminor : ℕ
  rdevmajor : ℕ
  rdevminor : ℕ
  namesize : ℕ
  check : ℕ
  deriving DecidableEq

/-- The header that the archive goes on with. -/
def readHeader (rest : Bytes) : Except NewcFault NewcHeader :=
  if rest.length < newcHeaderBytes ∨ rest.take 6 ≠ newcMagic then
    refuse "initramfs newc header is invalid"
  else do
    let header := (rest.take newcHeaderBytes).drop 6
    let field := fun index => hexField ((header.drop (8 * index)).take 8)
    return {
      inode := ← field 0, mode := ← field 1, uid := ← field 2, gid := ← field 3,
      nlink := ← field 4, mtime := ← field 5, filesize := ← field 6, devmajor := ← field 7,
      devminor := ← field 8, rdevmajor := ← field 9, rdevminor := ← field 10,
      namesize := ← field 11, check := ← field 12 }

/-- The zeros that the archive goes on with, so many. -/
def readPadding (size : ℕ) (message : String) (rest : Bytes) : Except NewcFault Bytes :=
  if rest.length < size ∨ rest.take size ≠ List.replicate size 0 then refuse message
  else .ok (rest.drop size)

/-- A name, from behind its header, and what is left behind its padding. -/
def readName (namesize : ℕ) (rest : Bytes) : Except NewcFault (Text × Bytes) :=
  if namesize < 2 ∨ 4097 < namesize ∨ rest.length < namesize then
    refuse "initramfs newc name is invalid"
  else
    let rawName := rest.take namesize
    if rawName.getLast? ≠ some 0 ∨ 0 ∈ rawName.dropLast then
      refuse "initramfs newc name is invalid"
    else match decodeAscii rawName.dropLast with
      | none => refuse "initramfs newc name is invalid"
      | some path => do
        let rest ← readPadding (paddingSize (newcHeaderBytes + namesize))
          "initramfs newc name padding is invalid" (rest.drop namesize)
        return (path, rest)

/-- The data, and what is left behind their padding. -/
def readData (filesize : ℕ) (rest : Bytes) : Except NewcFault (Bytes × Bytes) :=
  if maxOciInitramfsEntryBytes < filesize ∨ rest.length < filesize then
    refuse "initramfs newc data is invalid"
  else do
    let left ← readPadding (paddingSize filesize) "initramfs newc data padding is invalid"
      (rest.drop filesize)
    return (rest.take filesize, left)

/-- The check on the fields that every entry has alike. -/
def checkMetadata (h : NewcHeader) (expectedInode : ℕ) : Except NewcFault Unit :=
  if h.inode ≠ expectedInode ∨ h.uid ≠ 0 ∨ h.gid ≠ 0 ∨ h.nlink ≠ 1 ∨ h.mtime ≠ 0 ∨ h.devmajor ≠ 0 ∨
      h.devminor ≠ 0 ∨ h.rdevmajor ≠ 0 ∨ h.rdevminor ≠ 0 ∨ h.check ≠ 0 then
    refuse "initramfs newc metadata is not canonical"
  else .ok ()

/-- What one round of the loop reads. -/
structure NewcRead where
  header : NewcHeader
  path : Text
  data : Bytes
  rest : Bytes

/-- The first part of a round of the loop, up to the check of the fields. -/
def readRecord (rest : Bytes) (expectedInode : ℕ) : Except NewcFault NewcRead := do
  let header ← readHeader rest
  let (path, rest) ← readName header.namesize (rest.drop newcHeaderBytes)
  let (data, rest) ← readData header.filesize rest
  checkMetadata header expectedInode
  return ⟨header, path, data, rest⟩

/-- The loop of `parse_newc`, with the entries so far, for at most so many rounds. -/
def parseFrom : ℕ → Bytes → List NewcEntry → Except NewcFault (List NewcEntry)
  | 0, _, _ => .error .diverges
  | rounds + 1, rest, entries =>
    if rest = [] then refuse "initramfs newc trailer is missing"
    else do
      let read ← readRecord rest (entries.length + 1)
      if read.path = trailer then
        if read.header.mode ≠ 0 ∨ read.header.filesize ≠ 0 ∨ read.rest ≠ [] then
          refuse "initramfs newc trailer is invalid"
        else .ok entries
      else
        let entry ← newcEntry read.path read.header.mode read.data
        if maxOciInitramfsEntries < entries.length + 1 then
          refuse "initramfs archive has too many entries"
        else parseFrom rounds read.rest (entries ++ [entry])

/-- `parse_newc` -/
def parseNewc (payload : Bytes) : Except NewcFault (List NewcEntry) :=
  if payload = [] ∨ maxOciInitramfsBytes < payload.length then
    refuse "initramfs archive bytes are invalid"
  else do
    let result ← parseFrom (payload.length + 1) payload []
    let rebuilt ← buildNewc result
    if rebuilt ≠ payload then refuse "initramfs archive is not canonical"
    else .ok result

end Palimpsest.Initramfs
