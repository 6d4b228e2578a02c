import Mathlib.Data.FinEnum
import Palimpsest.Lib.Sha256
import Palimpsest.Lib.Words

/-!
# The kernel command line

The host writes the digests and disk serials of a boot into the kernel command line, as six
fields of their own among the kernel's. Two programs read them: the consumer on the host side,
which is the reference (`parse_guest_kernel_cmdline`), and the first process of the guest, in
C without a library (`parse_cmdline`). Both are here over the bytes of the line; a text of
ASCII characters is the list of their codes.

The reference cuts the line at all white space of ASCII (`str.split`), the guest only at
blanks, tabs and newlines.
-/

namespace Palimpsest.Guest

/-- The codes of an ASCII text. -/
def ascii (s : String) : List UInt8 := s.toList.map fun c => UInt8.ofNat c.toNat

def maxGuestKernelCmdlineBytes : ℕ := 4096

def maxLowers : ℕ := 24

/-- A field of the command line that is Palimpsest's. -/
inductive Key
  | resource | core | stage1 | stage1dev | root | lowers
  deriving DecidableEq

namespace Key

def text : Key → List UInt8
  | resource => ascii "palimpsest.resource"
  | core => ascii "palimpsest.core"
  | stage1 => ascii "palimpsest.stage1"
  | stage1dev => ascii "palimpsest.stage1dev"
  | root => ascii "palimpsest.root"
  | lowers => ascii "palimpsest.lowers"

def all : List Key := [resource, core, stage1, stage1dev, root, lowers]

theorem mem_all (k : Key) : k ∈ all := by cases k <;> decide

end Key

/-- The values of the fields seen so far. -/
abbrev Values := Key → Option (List UInt8)

/-- What a command line binds. -/
structure Bindings where
  resourceDigest : List UInt8
  domainCoreDigest : List UInt8
  transportDigest : List UInt8
  transportSerial : List UInt8
  rootSerial : List UInt8
  lowerSerials : List (List UInt8)
  deriving DecidableEq

/-- The first characters of every field that is Palimpsest's. -/
def palimpsest : List UInt8 := ascii "palimpsest."

/-- The first characters of every device. -/
def virtio : List UInt8 := ascii "virtio-"

/-- `[0-9a-f]` -/
def isHex (b : UInt8) : Bool := (48 ≤ b && b ≤ 57) || (97 ≤ b && b ≤ 102)

/-- `^[0-9a-f]{20}$` -/
def isSerial (s : List UInt8) : Bool := s.length = 20 && s.all isHex

/-- A nibble in hexadecimal. -/
def hexDigit (n : UInt8) : UInt8 := if n < 10 then 48 + n else 97 + n - 10

/-- A byte in hexadecimal. -/
def hexPair (b : UInt8) : List UInt8 := [hexDigit (b >>> 4), hexDigit (b &&& 15)]

/-- What is hashed for the serial of a transport. -/
def transportIdentity (transportDigest : List UInt8) : List UInt8 :=
  ascii "palimpsest-oci-root-stage1-transport-v1" ++ 0 :: transportDigest

/-! ### The reference -/

namespace Reference

/-- The white space of `str.split`, as far as it is ASCII. -/
def isSpace (b : UInt8) : Bool := b ∈ [9, 10, 11, 12, 13, 28, 29, 30, 31, 32]

/-- `[0-9a-fA-F]` -/
def isHexDigit (b : UInt8) : Bool := isHex b || (65 ≤ b && b ≤ 70)

def lower (b : UInt8) : UInt8 := if 65 ≤ b && b ≤ 90 then b + 32 else b

/-- `normalize_digest` -/
def normalizeDigest (value : List UInt8) : Option (List UInt8) :=
  let hex := if ascii "sha256:" <+: value then value.drop 7 else value
  if hex.length = 64 ∧ hex.all isHexDigit then some (ascii "sha256:" ++ hex.map lower) else none

/-- `_canonical_digest` -/
def canonicalDigest (value : List UInt8) (fieldName : String) : Except String (List UInt8) :=
  if ¬(ascii "sha256:" <+: value ∧ (value.drop 7).length = 64 ∧ (value.drop 7).all isHex) then
    .error (fieldName ++ " is invalid")
  else
    match normalizeDigest value with
    | none => .error (fieldName ++ " is invalid")
    | some normalized =>
      if normalized ≠ value then .error (fieldName ++ " is not canonical") else .ok normalized

/-- `_transport_serial` -/
def transportSerial (transportDigest : List UInt8) : List UInt8 :=
  ((Sha256.digest (transportIdentity transportDigest)).flatMap hexPair).take 20

/-- A check that raises. -/
def check (p : Prop) [Decidable p] (message : String) : Except String Unit :=
  if p then .ok () else .error message

/-- `GuestStage1KernelBindings.__post_init__` -/
def postInit (b : Bindings) : Except String Bindings := do
  let resource ← canonicalDigest b.resourceDigest "guest resource digest"
  let core ← canonicalDigest b.domainCoreDigest "guest domain-core digest"
  let transport ← canonicalDigest b.transportDigest "guest transport digest"
  check (isSerial b.transportSerial ∧ isSerial b.rootSerial ∧
    (1 ≤ b.lowerSerials.length ∧ b.lowerSerials.length ≤ maxLowers) ∧ b.lowerSerials.all isSerial)
    "guest disk serial binding is invalid"
  check (b.transportSerial :: b.rootSerial :: b.lowerSerials).Nodup
    "guest disk serial binding is ambiguous"
  check (b.transportSerial = transportSerial transport)
    "guest transport serial does not match its digest"
  return { b with
    resourceDigest := resource, domainCoreDigest := core, transportDigest := transport }

/-- One turn of the loop over the tokens. -/
def readToken (values : Values) (token : List UInt8) : Except String Values :=
  if ¬palimpsest <+: token then .ok values
  else if 61 ∉ token then .error "guest kernel command line field is invalid"
  else
    let key := token.takeWhile (· ≠ 61)
    let value := (token.dropWhile (· ≠ 61)).drop 1
    match Key.all.find? (·.text = key) with
    | none => .error "guest kernel command line field is invalid"
    | some k =>
      if (values k).isSome ∨ value = [] then .error "guest kernel command line field is invalid"
      else .ok (Function.update values k (some value))

/-- A device with a serial of twenty characters. -/
def isDevice (item : List UInt8) : Bool := virtio <+: item && item.length = virtio.length + 20

/-- `parse_guest_kernel_cmdline`, from the values of the six fields on. -/
def bindingsOf (values : Key → List UInt8) : Except String Bindings := do
  let device := values .stage1dev
  let root := values .root
  let lowers := (values .lowers).splitOn 44
  check (isDevice device ∧ isDevice root ∧ (1 ≤ lowers.length ∧ lowers.length ≤ maxLowers) ∧
    lowers.all isDevice) "guest disk device binding is invalid"
  postInit
    { resourceDigest := values .resource
      domainCoreDigest := values .core
      transportDigest := values .stage1
      transportSerial := device.drop virtio.length
      rootSerial := root.drop virtio.length
      lowerSerials := lowers.map (·.drop virtio.length) }

/-- `parse_guest_kernel_cmdline` -/
def parseGuestKernelCmdline (cmdline : List UInt8) : Except String Bindings := do
  check ((1 ≤ cmdline.length ∧ cmdline.length ≤ maxGuestKernelCmdlineBytes) ∧ 0 ∉ cmdline)
    "guest kernel command line is invalid"
  check (∀ b ∈ cmdline, b < 128) "guest kernel command line is invalid"
  let values ← (words isSpace cmdline).foldlM readToken fun _ => none
  check (∀ k ∈ Key.all, (values k).isSome) "guest kernel command line binding is incomplete"
  bindingsOf fun k => (values k).getD []

end Reference

/-! ### The first process of the guest -/

namespace Init

/-- Where the scanner of C ends a token. -/
def isSeparator (b : UInt8) : Bool := b ∈ [32, 10, 9]

/-- `valid_digest` -/
def validDigest (s : List UInt8) : Bool :=
  s.length = 71 && s.take 7 = ascii "sha256:" && (s.drop 7).all isHex

/-- The scan of one token: its characters and what follows it. -/
def scanToken : List UInt8 → Option (List UInt8 × List UInt8)
  | [] => some ([], [])
  | c :: buf =>
    if isSeparator c then some ([], c :: buf)
    else if c = 0 ∨ 128 ≤ c then none
    else (scanToken buf).map fun (token, rest) => (c :: token, rest)

theorem length_scanToken {buf token rest : List UInt8} (h : scanToken buf = some (token, rest)) :
    token.length + rest.length = buf.length := by
  induction buf generalizing token rest with
  | nil =>
    cases h
    rfl
  | cons c buf ih =>
    rw [scanToken] at h
    split at h
    · cases h
      exact Nat.zero_add _
    · split at h
      · cases h
      · obtain ⟨⟨token', rest'⟩, hscan, heq⟩ := Option.map_eq_some_iff.mp h
        cases heq
        have hlength := ih hscan
        rw [List.length_cons, List.length_cons]
        omega

theorem length_scanToken_lt {start : UInt8} {buf' token rest : List UInt8} {buf : List UInt8}
    (hskip : buf.dropWhile isSeparator = start :: buf')
    (hscan : scanToken (start :: buf') = some (token, rest)) : rest.length < buf.length := by
  have hstart : isSeparator start = false := by
    have hhead := List.head_dropWhile_not isSeparator (l := buf) (by simp [hskip])
    simpa [hskip] using hhead
  have htoken : 0 < token.length := by
    rw [scanToken, hstart, if_neg Bool.false_ne_true] at hscan
    split at hscan
    · cases hscan
    · obtain ⟨⟨token', rest'⟩, -, heq⟩ := Option.map_eq_some_iff.mp hscan
      cases heq
      exact Nat.succ_pos _
  have hlength := length_scanToken hscan
  have hle := (List.dropWhile_sublist isSeparator (l := buf)).length_le
  rw [hskip] at hle
  omega

/-- The key of a field: one of the six, with the equals sign and something after it. -/
def keyOf (token : List UInt8) : Option Key :=
  Key.all.find? fun k =>
    decide ((k.text ++ [61]).length < token.length) && (k.text ++ [61]).isPrefixOf token

/-- The fields of the line, each with its span. -/
def scanFields (buf : List UInt8) (fields : Values) : Option Values :=
  match _hskip : buf.dropWhile isSeparator with
  | [] => some fields
  | start :: buf' =>
    match _hscan : scanToken (start :: buf') with
    | none => none
    | some (token, rest) =>
      if ¬palimpsest <+: token then scanFields rest fields
      else
        match keyOf token with
        | none => none
        | some k =>
          if (fields k).isSome then none
          else scanFields rest (Function.update fields k (some (token.drop (k.text.length + 1))))
termination_by buf.length
decreasing_by all_goals exact length_scanToken_lt _hskip _hscan

/-- The serials of the lower devices, from a position of their field on. -/
def scanLowers (s : List UInt8) (lowers : List (List UInt8)) : Option (List (List UInt8)) :=
  if s = [] then some lowers
  else
    let piece := s.takeWhile (· ≠ 44)
    if lowers.length ≥ maxLowers ∨ piece.length ≠ 27 ∨ piece.take 7 ≠ virtio ∨
        ¬isSerial ((piece.drop 7).take 20) then none
    else
      let lowers := lowers ++ [(piece.drop 7).take 20]
      match _hrest : s.dropWhile (· ≠ 44) with
      | [] => some lowers
      | [_] => none
      | _ :: rest => scanLowers rest lowers
termination_by s.length
decreasing_by
  have hle := (List.dropWhile_sublist (fun b : UInt8 => decide (b ≠ 44)) (l := s)).length_le
  rw [_hrest, List.length_cons] at hle
  exact hle

/-- Every lower serial is another one than the two given and than those before it. -/
def lowersDistinct (rootSerial transportSerial : List UInt8) :
    List (List UInt8) → List (List UInt8) → Bool
  | _, [] => true
  | before, lower :: lowers =>
    if lower = rootSerial ∨ lower = transportSerial ∨ lower ∈ before then false
    else lowersDistinct rootSerial transportSerial (before ++ [lower]) lowers

/-- The serial of a device, when it has one. -/
def deviceSerial (device : List UInt8) : Option (List UInt8) :=
  if ¬virtio <+: device ∨ device.length ≠ 27 ∨ ¬isSerial ((device.drop 7).take 20) then none
  else some ((device.drop 7).take 20)

/-- A check that ends the parse. -/
def demand (p : Prop) [Decidable p] : Option Unit := if p then some () else none

/-- `parse_cmdline`, from the spans of the six fields on. -/
def bindingsOf (fields : Key → List UInt8) : Option Bindings := do
  demand (validDigest (fields .resource) ∧ validDigest (fields .core) ∧
    validDigest (fields .stage1))
  let transportSerial ← deviceSerial (fields .stage1dev)
  let rootSerial ← deviceSerial (fields .root)
  let lowers ← scanLowers (fields .lowers) []
  demand (lowers ≠ [])
  demand (lowersDistinct rootSerial transportSerial [] lowers)
  demand (rootSerial ≠ transportSerial)
  let expected :=
    ((Sha256.digest (transportIdentity (fields .stage1))).take 10).flatMap hexPair
  demand (expected = transportSerial)
  return ⟨fields .resource, fields .core, fields .stage1, transportSerial, rootSerial, lowers⟩

/-- `parse_cmdline` -/
def parseCmdline (buf : List UInt8) : Option Bindings := do
  demand (buf.length ≠ 0 ∧ buf.length ≤ maxGuestKernelCmdlineBytes)
  let fields ← scanFields buf fun _ => none
  demand (∀ k ∈ Key.all, (fields k).isSome)
  bindingsOf fun k => (fields k).getD []

end Init

end Palimpsest.Guest
