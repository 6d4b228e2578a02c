import Palimpsest.Changeset.Member
import Palimpsest.Control.Grammar

/-!
# The fields of a tar header

The first half of `oci_converter`: its limits and errors, and how it reads the numbers,
texts and paths of a header. A number is octal text or, when its first bit is set, a
big-endian number. Octal text is read by `int`, whose grammar is wider than that of
octal digits (`Palimpsest.Layer.pyInt`). The deadline and failures of the spool, which
only make the scanner refuse, are left out.
-/

namespace Palimpsest.Layer

open Control (decodeUtf8 encodeUtf8)

/-- A string of bytes. -/
abbrev Bytes := List UInt8

/-- `LayerIntakeError` -/
structure LayerIntakeError where
  code : String
  detail : String
  deriving DecidableEq, Repr

/-- How a scan can fail to return: it raises, or it runs forever. -/
inductive ScanFault
  | raised (error : LayerIntakeError)
  | diverges
  deriving DecidableEq, Repr

/-- `raise LayerIntakeError(code, detail)` -/
def refuse {α : Type} (code detail : String) : Except ScanFault α :=
  .error (.raised ⟨code, detail⟩)

/-- `LayerConversionLimits`, as far as the scanner reads them. The proof fields are what
`__post_init__` checks. -/
structure LayerConversionLimits where
  maxMembers : ℕ := 250000
  maxPhysicalHeaders : ℕ := 1000000
  maxUncompressedBytes : ℕ := 32 * 1024 ^ 3
  maxPathBytes : ℕ := 4096
  maxRegularFileBytes : ℕ := 32 * 1024 ^ 3
  maxTotalRegularBytes : ℕ := 32 * 1024 ^ 3
  maxMetadataBytesPerHeader : ℕ := 1024 * 1024
  maxTotalMetadataBytes : ℕ := 64 * 1024 ^ 2
  maxXattrBytesPerMember : ℕ := 1024 * 1024
  maxTotalXattrBytes : ℕ := 64 * 1024 ^ 2
  positive : ∀ n ∈ [maxMembers, maxPhysicalHeaders, maxUncompressedBytes, maxPathBytes,
    maxRegularFileBytes, maxTotalRegularBytes, maxMetadataBytesPerHeader, maxTotalMetadataBytes,
    maxXattrBytesPerMember, maxTotalXattrBytes], 0 < n := by decide
  maxMembers_le : maxMembers ≤ maxPhysicalHeaders := by decide

/-! ### Python's integers -/

/-- `Py_ISSPACE` -/
def isPySpace (c : UInt8) : Bool := c = 32 || (9 ≤ c && c ≤ 13)

/-- Digits with single underscores between them, from the front of the input. -/
def readDigits (base : ℕ) : Bytes → Bool → List ℕ → Option (List ℕ × Bytes)
  | [], afterUnderscore, digits => if afterUnderscore then none else some (digits, [])
  | c :: b, afterUnderscore, digits =>
    if c = 95 then
      if afterUnderscore then none else readDigits base b true digits
    else if 48 ≤ c ∧ c.toNat < 48 + base then
      readDigits base b false (digits ++ [c.toNat - 48])
    else if afterUnderscore then none
    else some (digits, c :: b)

/-- The sign in front of a number. -/
def readSign : Bytes → ℤ × Bytes
  | 43 :: b => (1, b)
  | 45 :: b => (-1, b)
  | b => (1, b)

/-- The `0o` in front of an octal number, and one underscore after it. -/
def skipOctalMark : Bytes → Bytes
  | 48 :: 111 :: 95 :: b => b
  | 48 :: 79 :: 95 :: b => b
  | 48 :: 111 :: b => b
  | 48 :: 79 :: b => b
  | b => b

/-- `sys.get_int_max_str_digits()` -/
def maxStrDigits : ℕ := 4300

/-- `int(data, base)` for the bases 8 and 10, none where it raises `ValueError`. -/
def pyInt (base : ℕ) (data : Bytes) : Option ℤ := do
  let (sign, b) := readSign (data.dropWhile isPySpace)
  let b := if base = 8 then skipOctalMark b else b
  if b.head? = some 95 then none
  let (digits, rest) ← readDigits base b false []
  if digits = [] ∨ base = 10 ∧ maxStrDigits < digits.length then none
  if rest.all isPySpace then
    some (sign * digits.foldl (fun n d => base * n + (d : ℤ)) 0)
  else none

/-- `int.from_bytes(data, "big")` -/
def fromBytesBig (data : Bytes) : ℕ := data.foldl (fun n b => 256 * n + b.toNat) 0

/-- `data.strip(characters)` -/
def strip (characters data : Bytes) : Bytes :=
  (data.dropWhile (· ∈ characters)).rdropWhile (· ∈ characters)

/-! ### Fields -/

/-- `_tar_number` -/
def tarNumber (field : Bytes) (label : String) : Except ScanFault ℕ :=
  match field with
  | [] => .ok 0
  | first :: rest =>
    if first &&& 0x80 ≠ 0 then
      if first &&& 0x40 ≠ 0 then
        refuse "oci-tar-metadata" ("negative " ++ label ++ " is unsupported")
      else .ok (fromBytesBig ((first &&& 0x7F) :: rest))
    else
      let raw := strip [0, 32] field
      match pyInt 8 (if raw = [] then [48] else raw) with
      | none => refuse "oci-tar-metadata" ("invalid " ++ label)
      | some value =>
        if value < 0 then refuse "oci-tar-metadata" ("negative " ++ label ++ " is unsupported")
        else .ok value.toNat

/-- `_tar_text` -/
def tarText (field : Bytes) (label : String) : Except ScanFault Text :=
  let raw := field.takeWhile (· ≠ 0)
  let padding := (field.dropWhile (· ≠ 0)).drop 1
  if strip [0, 32] padding ≠ [] then
    refuse "oci-tar-metadata" ("invalid " ++ label ++ " padding")
  else match decodeUtf8 raw with
    | none => refuse "oci-tar-utf8" (label ++ " is not valid UTF-8")
    | some t => .ok t

/-- `_validate_path`. What it returns is never empty and never absolute. -/
def validatePath (path : Text) (limit : ℕ) : Except ScanFault RelPath :=
  if limit < (encodeUtf8 path).length then
    refuse "oci-path-limit" "member path exceeds the byte limit"
  else if path = [] ∨ path = ['.'] then .ok .dot
  else if '\x00' ∈ path ∨ ['.', '.'] ∈ path.splitOn '/' then
    refuse "oci-invalid-path" "member path is unsafe"
  else
    let normalized := PosixPath.normpath path
    match RelPath.ofText? normalized with
    | none => refuse "oci-invalid-path" "member path is unsafe"
    | some p =>
      if normalized = ['.', '.'] ∨ normalized = ['.'] ∨ "../".toList.isPrefixOf normalized then
        if normalized = ['.'] ∧ path.all (· ∈ ['.', '/']) then .ok .dot
        else refuse "oci-invalid-path" "member path is unsafe"
      else if normalized = ".palimpsest".toList ∨ ".palimpsest/".toList.isPrefixOf normalized then
        refuse "oci-reserved-path" "member uses the reserved Palimpsest tree"
      else .ok p

end Palimpsest.Layer
