import Mathlib.Data.List.DropRight
import Mathlib.Data.List.Infix
import Palimpsest.Control.Grammar
import Palimpsest.Lib.JsonLoads
import Palimpsest.Lib.Results
import Palimpsest.Project.Environment

/-!
# The JSON of sandbox policies

Policies are exchanged as compact JSON (`canonicalPolicyJsonBytes`, `loadJson`). On the way out
and on the way in, every text and every key is inspected (`rejectSensitiveMaterial`): nothing that
looks like a credential or a path may be in a policy.

A constant such as `NaN` is read as a value here. In the source it ends the reading, with a text
of its own; no field of a policy takes it.
-/

namespace Palimpsest.Policy

open Json Regex Results
open Control (encodeUtf8 decodeUtf8 isDigest)
open Project (isSpace ignoringCase exactly charOf)

/-- `SandboxPolicyValidationError`, with its text. -/
structure ValidationError where
  message : String
  deriving DecidableEq

/-- A check that raises. -/
def require (ok : Bool) (message : String) : Except ValidationError Unit :=
  if ok then .ok () else .error ⟨message⟩

theorem require_eq_ok {ok : Bool} {message : String} {u : Unit} :
    require ok message = .ok u ↔ ok = true := by
  cases ok
  · exact iff_of_false nofun nofun
  · exact iff_of_true rfl rfl

/-- A check that comes before others. -/
theorem require_bind_eq_ok {α : Type} {ok : Bool} {message : String}
    {x : Except ValidationError α} {r : α} :
    (do require ok message; x) = .ok r ↔ ok = true ∧ x = .ok r := by
  rw [bind_eq_ok]
  constructor
  · rintro ⟨u, hok, hx⟩
    exact ⟨require_eq_ok.mp hok, hx⟩
  · rintro ⟨hok, hx⟩
    exact ⟨(), require_eq_ok.mpr hok, hx⟩

def maxPolicyJsonBytes : ℕ := 1024 * 1024

/-- `_SCHEMA_KEYS`. -/
def schemaKeys : List String :=
  ["schema_version", "egress", "secret_delivery", "device_access", "audit", "snapshot_scrub",
    "binary_policy", "mode", "references", "provider", "reference_id", "devices", "device_class",
    "allocation_id", "enabled", "scrub_required", "hooks", "policy_id", "policy_digest",
    "egress_modes", "secret_delivery_modes", "secret_references", "device_access_modes",
    "device_requests", "audit_modes", "snapshots_enabled", "snapshot_scrub_required",
    "binary_policy_modes", "binary_policy_hooks", "issues", "supported", "code", "field"]

/-- `_SENSITIVE_KEY_MARKERS`. -/
def sensitiveKeyMarkers : List String :=
  ["password", "passwd", "secret", "token", "apikey", "privatekey", "credential", "authorization",
    "cookie", "clientsecret"]

/-! ### Texts that look like secrets -/

/-- `str.lower`, as far as ASCII letters come out: two letters beyond ASCII have one in their
lowercase form. -/
def lower (t : Text) : Text := t.flatMap fun c =>
  if c.toNat = 0x130 then ['i', Char.ofNat 0x307]
  else if c.toNat = 0x212a then ['k']
  else [c.toLower]

/-- `_ASSIGNMENT_SECRET_RE`, before the colon or the equals sign. -/
def assignedWord : Regex :=
  oneOf (ignoringCase "password") [ignoringCase "passwd", ignoringCase "secret",
    ignoringCase "token", seq (ignoringCase "api") (seq (opt (charOf "_-")) (ignoringCase "key")),
    seq (ignoringCase "private") (seq (opt (charOf "_-")) (ignoringCase "key")),
    ignoringCase "credential", ignoringCase "authorization", ignoringCase "cookie",
    seq (ignoringCase "client") (seq (opt (charOf "_-")) (ignoringCase "secret"))]

/-- `_ASSIGNMENT_SECRET_RE`. -/
def assignmentSecretRe : Regex :=
  seq assignedWord (seq (star (chars isSpace)) (charOf ":="))

/-- `[A-Za-z0-9_-]{8,}` -/
def jwtPart : Regex :=
  seq (times 8 (chars fun c => c.isAlphanum || c ∈ ['_', '-']))
    (star (chars fun c => c.isAlphanum || c ∈ ['_', '-']))

/-- `_JWT_RE`. -/
def jwtRe : Regex := seq jwtPart (seq (exactly ".") (seq jwtPart (seq (exactly ".") jwtPart)))

/-- `[^@/\\\s]` -/
def isHostChar (c : Char) : Bool := c ∉ ['@', '/', '\\'] && !isSpace c

/-- `_USERINFO_RE`. -/
def userinfoRe : Regex :=
  seq (many1 (chars fun c => isHostChar c && c ≠ ':')) (seq (exactly ":")
    (seq (many1 (chars isHostChar)) (seq (exactly "@") (many1 (chars isHostChar)))))

/-- `AKIA[0-9A-Z]{16}` -/
def accessKeyRe : Regex := seq (exactly "AKIA") (times 16 (chars fun c => c.isDigit || c.isUpper))

/-- What `_reject_sensitive_string` rejects. -/
def isSensitive (t : Text) : Bool :=
  decide ("-----begin ".toList <:+: lower t) ||
    ["bearer ", "basic "].any (fun s => s.toList.isPrefixOf (lower t)) ||
    ["file:", "env:"].any (fun s => s.toList.isPrefixOf (lower t)) ||
    decide ('/' ∈ t) || decide ('\\' ∈ t) || assignmentSecretRe.search t || jwtRe.fullMatch t ||
    userinfoRe.search t || accessKeyRe.fullMatch t

/-- `_reject_sensitive_string`. -/
def rejectSensitiveString (s : String) : Except ValidationError Unit :=
  require (!isSensitive s.toList) "policy contains secret-shaped or path-like material"

/-- Whether a key has one of the markers in it. -/
def isSensitiveKey (key : String) : Bool :=
  key ∉ schemaKeys && sensitiveKeyMarkers.any fun marker =>
    marker.toList <:+: (lower key.toList).filter fun c => c.isLower || c.isDigit

mutual

/-- `_reject_sensitive_material`. -/
def rejectSensitiveMaterial : Value → Except ValidationError Unit
  | .dict fields => rejectSensitiveFields fields
  | .list items => rejectSensitiveItems items
  | .str s => rejectSensitiveString s
  | _ => .ok ()

/-- The loop over the items of a list. -/
def rejectSensitiveItems : List Value → Except ValidationError Unit
  | [] => .ok ()
  | v :: items => do
    rejectSensitiveMaterial v
    rejectSensitiveItems items

/-- The loop over the fields of an object. -/
def rejectSensitiveFields : List (String × Value) → Except ValidationError Unit
  | [] => .ok ()
  | (key, v) :: fields => do
    require (!isSensitiveKey key) "policy contains a secret-shaped field"
    rejectSensitiveMaterial v
    rejectSensitiveFields fields

end

/-! ### Bytes -/

/-- `canonical_policy_json_bytes`. -/
def canonicalPolicyJsonBytes (v : Value) : Except ValidationError (List UInt8) := do
  rejectSensitiveMaterial v
  match dumps v with
  | none => .error ⟨"policy contains non-JSON data"⟩
  | some t => do
    let payload := encodeUtf8 t
    require (payload.length ≤ maxPolicyJsonBytes) "policy exceeds the canonical size limit"
    return payload

/-- `_load_json`. -/
def loadJson (payload : List UInt8) : Except ValidationError Value := do
  require (payload.length ≤ maxPolicyJsonBytes) "policy exceeds the canonical size limit"
  match decodeUtf8 payload with
  | none => .error ⟨"policy JSON must be UTF-8"⟩
  | some t =>
    match loads t with
    | .error .duplicateKey => .error ⟨"policy JSON contains a duplicate object field"⟩
    | .error .invalid => .error ⟨"policy JSON is invalid"⟩
    | .ok v => do
      rejectSensitiveMaterial v
      return v

/-! ### Fields -/

/-- `value == value.strip()`, nonempty. -/
def isExact (t : Text) : Bool := t ≠ [] && (t.dropWhile isSpace).rdropWhile isSpace = t

/-- `_exact_string`. -/
def exactString (v : Value) (name : String) : Except ValidationError String :=
  match v with
  | .str s => do
    require (isExact s.toList) (name ++ " must be a nonempty exact string")
    require (!s.toList.any fun c => c.toNat < 0x20 || c.toNat = 0x7f)
      (name ++ " cannot contain control characters")
    return s
  | _ => .error ⟨name ++ " must be a nonempty exact string"⟩

/-- A text that is checked is the text of the value. -/
theorem exactString_eq_ok {v : Value} {name s : String} :
    exactString v name = .ok s ↔ v = .str s ∧ isExact s.toList = true ∧
      (!s.toList.any fun c => c.toNat < 0x20 || c.toNat = 0x7f) = true := by
  cases v with
  | str t =>
    simp only [exactString, require_bind_eq_ok, Value.str.injEq]
    constructor
    · rintro ⟨hexact, hcontrol, ht⟩
      obtain rfl := Except.ok.inj ht
      exact ⟨rfl, hexact, hcontrol⟩
    · rintro ⟨rfl, hexact, hcontrol⟩
      exact ⟨hexact, hcontrol, rfl⟩
  | _ => exact iff_of_false nofun nofun

/-- `[a-z0-9]` -/
def isIdChar (c : Char) : Bool := c.isLower || c.isDigit

/-- `_SAFE_ID_RE`. -/
def safeIdRe : Regex :=
  seq (chars isIdChar)
    (opt (seq (upTo 126 (chars fun c => isIdChar c || c ∈ ['.', '_', '-'])) (chars isIdChar)))

/-- `_safe_id`. -/
def safeId (v : Value) (name : String) : Except ValidationError String := do
  let identifier ← exactString v name
  rejectSensitiveString identifier
  require (safeIdRe.fullMatch identifier.toList)
    (name ++ " must be an inspection-safe opaque identifier")
  return identifier

/-- `_sha256`. -/
def sha256 (v : Value) (name : String) : Except ValidationError String := do
  let digest ← exactString v name
  require (isDigest digest) (name ++ " must be a canonical sha256 digest")
  return digest

/-- An identifier is the text of the value and not sensitive, whatever it is called. -/
theorem safeId_eq_ok {v : Value} {name s : String} :
    safeId v name = .ok s ↔ v = .str s ∧ (isExact s.toList = true ∧
      (!s.toList.any fun c => c.toNat < 0x20 || c.toNat = 0x7f) = true) ∧
      isSensitive s.toList = false ∧ safeIdRe.fullMatch s.toList = true := by
  rw [safeId, bind_eq_ok]
  simp only [rejectSensitiveString, require_bind_eq_ok, exactString_eq_ok]
  constructor
  · rintro ⟨t, ⟨rfl, hexact⟩, hsafe, hre, ht⟩
    obtain rfl := Except.ok.inj ht
    exact ⟨rfl, hexact, by simpa using hsafe, hre⟩
  · rintro ⟨rfl, hexact, hsafe, hre⟩
    exact ⟨s, ⟨rfl, hexact⟩, by simpa using hsafe, hre, rfl⟩

theorem sha256_eq_ok {v : Value} {name s : String} :
    sha256 v name = .ok s ↔ v = .str s ∧ (isExact s.toList = true ∧
      (!s.toList.any fun c => c.toNat < 0x20 || c.toNat = 0x7f) = true) ∧ isDigest s = true := by
  rw [sha256, bind_eq_ok]
  simp only [require_bind_eq_ok, exactString_eq_ok]
  constructor
  · rintro ⟨t, ⟨rfl, hexact⟩, hdigest, ht⟩
    obtain rfl := Except.ok.inj ht
    exact ⟨rfl, hexact, hdigest⟩
  · rintro ⟨rfl, hexact, hdigest⟩
    exact ⟨s, ⟨rfl, hexact⟩, hdigest, rfl⟩

/-- `_exact_fields`. -/
def exactFields (v : Value) (expected : List String) (name : String) :
    Except ValidationError (List (String × Value)) :=
  match v with
  | .dict fields =>
    if (∀ k ∈ keys fields, k ∈ expected) ∧ ∀ k ∈ expected, k ∈ keys fields then .ok fields
    else .error ⟨name ++ " has missing or unknown fields"⟩
  | _ => .error ⟨name ++ " must be an object"⟩

/-- The value of a field that is there. -/
def field (fields : List (String × Value)) (name : String) : Value :=
  (lookup name fields).getD .null

/-- `_array`. -/
def array (v : Value) (name : String) : Except ValidationError (List Value) :=
  match v with
  | .list items => .ok items
  | _ => .error ⟨name ++ " must be an array"⟩

end Palimpsest.Policy
