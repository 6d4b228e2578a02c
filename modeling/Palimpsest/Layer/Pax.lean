import Mathlib.Data.List.Sort
import Palimpsest.Layer.Fields

/-!
# PAX records

How `oci_converter` reads the payload of a PAX header, the integers that its records
override (`Palimpsest.Layer.paxInteger`) and the extended attributes they carry
(`Palimpsest.Layer.xattrs`). What a member's attributes count against the limits is
determined by the attributes that it keeps (`Palimpsest.Layer.xattrs_bytes`).
-/

namespace Palimpsest.Layer

open Control (decodeUtf8 encodeUtf8)

/-- The records of PAX headers: a dictionary in the order of insertion. -/
abbrev Pax := List (Text × Text)

namespace Pax

/-- `pax.get(key)` -/
def get (pax : Pax) (key : String) : Option Text := pax.lookup key.toList

/-- `pax[key] = value` -/
def set : Pax → Text → Text → Pax
  | [], key, value => [(key, value)]
  | r :: pax, key, value => if r.1 = key then (key, value) :: pax else r :: set pax key value

/-- `pax.update(records)` -/
def update (pax records : Pax) : Pax := records.foldl (fun p r => p.set r.1 r.2) pax

end Pax

/-! ### Reading records -/

def capabilityKey : Text := "SCHILY.xattr.security.capability".toList

/-- `data.decode("latin-1")` -/
def decodeLatin1 (data : Bytes) : Text := data.map fun b => Char.ofNat b.toNat

/-- `text.encode("latin-1")` -/
def encodeLatin1 (t : Text) : Option Bytes :=
  if t.all fun c => c.toNat < 256 then some (t.map fun c => UInt8.ofNat c.toNat) else none

/-- The key and the value of a record, from what stands between its length and its newline. -/
def readRecord (record : Bytes) : Except ScanFault (Text × Text) :=
  let keyRaw := record.takeWhile (· ≠ 61)
  let valueRaw := (record.dropWhile (· ≠ 61)).drop 1
  if 61 ∉ record ∨ keyRaw = [] ∨ 0 ∈ keyRaw then
    refuse "oci-pax-metadata" "PAX record is malformed"
  else match decodeUtf8 keyRaw with
    | none => refuse "oci-tar-utf8" "PAX metadata is not valid UTF-8"
    | some key =>
      if key = capabilityKey then .ok (key, decodeLatin1 valueRaw)
      else if 0 ∈ valueRaw then refuse "oci-pax-metadata" "PAX record is malformed"
      else match decodeUtf8 valueRaw with
        | none => refuse "oci-tar-utf8" "PAX metadata is not valid UTF-8"
        | some value => .ok (key, value)

/-- The loop of `_parse_pax` over what is left of the payload. -/
def parsePaxFrom : ℕ → Bytes → Pax → Except ScanFault Pax
  | 0, _, _ => .error .diverges
  | n + 1, rest, records =>
    if rest = [] then .ok records
    else
      let space := (rest.takeWhile (· ≠ 32)).length
      if 32 ∉ rest ∨ space = 0 then
        refuse "oci-pax-metadata" "PAX record length is malformed"
      else match pyInt 10 (rest.take space) with
        | none => refuse "oci-pax-metadata" "PAX record length is malformed"
        | some length =>
          let stop := length.toNat
          if length ≤ space + 2 ∨ rest.length < stop ∨ rest[stop - 1]? ≠ some 10 then
            refuse "oci-pax-metadata" "PAX record framing is malformed"
          else do
            let record ← readRecord ((rest.take (stop - 1)).drop (space + 1))
            parsePaxFrom n (rest.drop stop) (records.set record.1 record.2)

/-- `_parse_pax` -/
def parsePax (payload : Bytes) : Except ScanFault Pax :=
  parsePaxFrom (payload.length + 1) payload []

/-! ### Integers -/

/-- `[0-9]+` -/
def isDigits (t : Text) : Bool := t ≠ [] && t.all fun c => '0' ≤ c && c ≤ '9'

/-- `_pax_integer` -/
def paxInteger (pax : Pax) (key : String) (fallback maximum : ℕ) : Except ScanFault ℕ :=
  match pax.get key with
  | none => .ok fallback
  | some raw =>
    let whole := raw.takeWhile (· ≠ '.')
    let fraction := (raw.dropWhile (· ≠ '.')).drop 1
    if ¬(isDigits whole ∧ ('.' ∉ raw ∨ key = "mtime" ∧ isDigits fraction)) then
      refuse "oci-pax-metadata" ("PAX " ++ key ++ " has invalid numeric syntax")
    else if fraction.any (· ≠ '0') then
      refuse "oci-pax-metadata" ("PAX " ++ key ++ " must be a nonnegative integer")
    else
      let value := Nat.ofDigitChars 10 whole 0
      if maximum < value then
        refuse "oci-pax-metadata" ("PAX " ++ key ++ " exceeds its supported range")
      else .ok value

/-! ### Extended attributes -/

def attributeStart : Text := "SCHILY.xattr.".toList

/-- The bytes that an attribute's value stands for. -/
def attributeValue (name value : Text) : Bytes :=
  if name = "security.capability".toList then value.map fun c => UInt8.ofNat c.toNat
  else encodeUtf8 value

/-- `int.from_bytes(data, "little")` -/
def fromBytesLittle (data : Bytes) : ℕ := data.foldr (fun b n => b.toNat + 256 * n) 0

/-- How long a file capability is, by the version in the first byte of its magic number. -/
def capabilityLength (magic : ℕ) : Option ℕ :=
  if magic &&& 0xFF000000 = 0x01000000 then some 12
  else if magic &&& 0xFF000000 = 0x02000000 then some 20
  else if magic &&& 0xFF000000 = 0x03000000 then some 24
  else none

/-- The checks on a file capability. -/
def checkCapability (value : Text) : Except ScanFault Unit :=
  match encodeLatin1 value with
  | none => refuse "oci-xattr-policy" "capability metadata is invalid"
  | some raw =>
    if raw.length ∉ [12, 20, 24] then
      refuse "oci-xattr-policy" "capability metadata is invalid"
    else
      let magic := fromBytesLittle (raw.take 4)
      if capabilityLength magic ≠ some raw.length ∨ magic &&& 0x00FFFFFE ≠ 0 then
        refuse "oci-xattr-policy" "capability metadata is invalid"
      else .ok ()

def isAttributeChar (c : Char) : Bool := c.isAlphanum || c = '_' || c = '.' || c = '-'

/-- What one record counts as: nothing, or an attribute with its name. -/
def readAttribute (record : Text × Text) : Except ScanFault (Option (Text × Text)) :=
  let (key, value) := record
  if "LIBARCHIVE.xattr.".toList.isPrefixOf key ∨ "SCHILY.xattr.trusted.".toList.isPrefixOf key then
    refuse "oci-xattr-policy" "reserved xattr encoding is unsupported"
  else if ¬attributeStart.isPrefixOf key then .ok none
  else
    let name := key.drop attributeStart.length
    if ¬("user.".toList.isPrefixOf name ∨ name = "security.capability".toList) then
      refuse "oci-xattr-policy" "xattr namespace is unsupported"
    else if name.any fun c => !isAttributeChar c then
      refuse "oci-xattr-policy" "xattr name is invalid"
    else if name = "security.capability".toList then do
      checkCapability value
      .ok (some (name, value))
    else .ok (some (name, value))

/-- What an attribute counts against the limits: its key and its value. -/
def attributeBytes (a : Text × Text) : ℕ :=
  (encodeUtf8 (attributeStart ++ a.1)).length + (attributeValue a.1 a.2).length

/-- The loop of `_xattrs`, with the attributes and the bytes counted so far. -/
def xattrsFrom : Pax → List (Text × Text) → ℕ → Except ScanFault (List (Text × Text) × ℕ)
  | [], values, total => .ok (values, total)
  | r :: pax, values, total => do
    match ← readAttribute r with
    | none => xattrsFrom pax values total
    | some a =>
      xattrsFrom pax (values ++ [a]) (total + ((encodeUtf8 r.1).length +
        (attributeValue a.1 a.2).length))

/-- `_xattrs` -/
def xattrs (pax : Pax) (limits : LayerConversionLimits) :
    Except ScanFault (List (Text × Text) × ℕ) := do
  let (values, total) ← xattrsFrom pax [] 0
  if limits.maxXattrBytesPerMember < total then
    refuse "oci-xattr-limit" "member xattrs exceed the byte limit"
  else .ok (values.insertionSort fun a b => toLex a ≤ toLex b, total)

end Palimpsest.Layer
