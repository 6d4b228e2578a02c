import Mathlib.Tactic.IntervalCases
import Palimpsest.Lib.JsonWidth
import Palimpsest.Lib.Sha256

/-!
# The texts and numbers of the control protocol

What the protocol raises (`Palimpsest.Control.Raised`), the grammars of its
identifiers, digests and keys, its counters, and how bytes are written as text.
An identifier is carried together with the fact that it has its grammar, so that a
message cannot hold one that has not.
-/

namespace Palimpsest.Control

open Json

/-- What a function of the protocol raises. -/
inductive Raised
  /-- `OCIControlProtocolV2Error`, with its text. -/
  | protocol (message : String)
  /-- The error it specialises, raised for values that have no canonical text. -/
  | artifactValidation (message : String)
  | typeError
  | valueError
  deriving DecidableEq

/-! ### Bounds -/

def maxOCIControlFrameBytes : ℕ := 64 * 1024
def maxOCIControlConnections : ℕ := 16
def maxOCIExecArgvBytes : ℕ := 8192
def maxOCIExecArgs : ℕ := 64
def maxOCIExecOutputBytes : ℕ := 65536
def maxOCIExecTimeoutMs : ℕ := 600000
def maxPayloadBytes : ℕ := maxOCIControlFrameBytes - 4
def maxCounter : ℕ := 2 ^ 63 - 1
def maxU64 : ℕ := 2 ^ 64 - 1

/-! ### Grammars -/

/-- `[0-9a-f]` -/
def isHex (c : Char) : Bool := ('0' ≤ c && c ≤ '9') || ('a' ≤ c && c ≤ 'f')

/-- A string that `str(uuid.UUID(value))` gives back: lowercase digits in groups of
eight, four, four, four and twelve. -/
def isUuid (s : String) : Bool :=
  s.toList.length = 36 && s.toList.zipIdx.all fun (c, i) =>
    if i = 8 ∨ i = 13 ∨ i = 18 ∨ i = 23 then c = '-' else isHex c

/-- `^[0-9a-f]{64}$` -/
def isHex32 (s : String) : Bool := s.toList.length = 64 && s.toList.all isHex

/-- `^sha256:[0-9a-f]{64}$` -/
def isDigest (s : String) : Bool :=
  s.toList.take 7 = "sha256:".toList && (s.toList.drop 7).length = 64 &&
    (s.toList.drop 7).all isHex

/-- A UUID in its canonical form. -/
abbrev Uuid := {s : String // isUuid s}

/-- Thirty-two bytes in lowercase hexadecimal. -/
abbrev Hex32 := {s : String // isHex32 s}

/-- A SHA-256 digest with its algorithm. -/
abbrev Digest := {s : String // isDigest s}

/-- A positive counter. -/
abbrev Counter := {n : ℕ // 1 ≤ n ∧ n ≤ maxCounter}

theorem counter_one : 1 ≤ 1 ∧ 1 ≤ maxCounter := by decide

/-- A list of thirty-two bytes. -/
abbrev Key := {b : List UInt8 // b.length = 32}

/-! ### Bytes and texts -/

/-- `text.encode("utf-8")` -/
def encodeUtf8 (t : Text) : List UInt8 := (String.ofList t).toByteArray.data.toList

/-- `data.decode("utf-8")` -/
def decodeUtf8 (b : List UInt8) : Option Text :=
  (String.fromUTF8? ⟨⟨b⟩⟩).map String.toList

/-- A text is decoded from its bytes. -/
theorem decodeUtf8_encodeUtf8 (t : Text) : decodeUtf8 (encodeUtf8 t) = some t := by
  have hbytes : (⟨⟨encodeUtf8 t⟩⟩ : ByteArray) = (String.ofList t).toByteArray := rfl
  rw [decodeUtf8, hbytes, String.fromUTF8?, dif_pos (String.ofList t).isValidUTF8, Option.map_some]
  exact congrArg some String.toList_ofList

theorem encodeUtf8_append (t u : Text) : encodeUtf8 (t ++ u) = encodeUtf8 t ++ encodeUtf8 u := by
  simp [encodeUtf8, String.ofList_append]

/-- The bytes of a text are as many as its characters take. -/
theorem length_encodeUtf8 (t : Text) : (encodeUtf8 t).length = byteLength t := by
  rw [encodeUtf8, Array.length_toList, String.toByteArray_ofList]
  induction t with
  | nil => rfl
  | cons c t ih =>
    have hc : [c].utf8Encode.size = c.utf8Size := by simp [List.utf8Encode]
    rw [byteLength_cons, ← ih, List.utf8Encode_cons]
    exact ByteArray.size_append.trans (congrArg (· + _) hc)

/-- `data.hex()` -/
def hexText (b : List UInt8) : Text :=
  b.flatMap fun x => [hexDigit (x.toNat / 16), hexDigit (x.toNat % 16)]

/-- The value of a hexadecimal digit. -/
def hexValue (c : Char) : ℕ := if c ≤ '9' then c.toNat - '0'.toNat else c.toNat - 'a'.toNat + 10

/-- `bytes.fromhex(text)` -/
def fromHex : Text → List UInt8
  | a :: b :: l => UInt8.ofNat (16 * hexValue a + hexValue b) :: fromHex l
  | _ => []

theorem isHex_hexDigit {n : ℕ} (h : n < 16) : isHex (hexDigit n) := by
  interval_cases n <;> decide

theorem hexValue_hexDigit {n : ℕ} (h : n < 16) : hexValue (hexDigit n) = n := by
  interval_cases n <;> decide

theorem hexText_cons (x : UInt8) (b : List UInt8) :
    hexText (x :: b) = hexDigit (x.toNat / 16) :: hexDigit (x.toNat % 16) :: hexText b := rfl

theorem length_hexText (b : List UInt8) : (hexText b).length = 2 * b.length := by
  induction b with
  | nil => rfl
  | cons x b ih =>
    rw [hexText_cons, List.length_cons, List.length_cons, ih, List.length_cons]
    omega

theorem isHex_of_mem_hexText {b : List UInt8} {c : Char} (h : c ∈ hexText b) : isHex c := by
  obtain ⟨x, -, hx⟩ := List.mem_flatMap.mp h
  have hlt := x.toNat_lt
  rcases List.mem_pair.mp hx with rfl | rfl
  · exact isHex_hexDigit (by omega)
  · exact isHex_hexDigit (by omega)

theorem isPlain_of_isHex {c : Char} (h : isHex c) : isPlain c := by
  simp only [isHex, Bool.or_eq_true, Bool.and_eq_true, decide_eq_true_eq] at h
  rcases h with ⟨hlow, hhigh⟩ | ⟨hlow, hhigh⟩
  · exact isPlain_of_le hlow hhigh (by decide)
  · exact isPlain_of_le hlow hhigh (by decide)

/-- Bytes written in hexadecimal are read back. -/
theorem fromHex_hexText (b : List UInt8) : fromHex (hexText b) = b := by
  induction b with
  | nil => rfl
  | cons x b ih =>
    have hlt := x.toNat_lt
    rw [hexText_cons, fromHex, ih, hexValue_hexDigit (by omega), hexValue_hexDigit (by omega),
      Nat.div_add_mod, UInt8.ofNat_toNat]

theorem length_fromHex {t : Text} {n : ℕ} (h : t.length = 2 * n) : (fromHex t).length = n := by
  induction n generalizing t with
  | zero => rw [List.length_eq_zero_iff.mp h]; rfl
  | succ n ih =>
    match t, h with
    | a :: b :: l, h => rw [fromHex, List.length_cons, ih (by simpa [Nat.mul_succ] using h)]

/-- The key a hexadecimal text spells. -/
def Hex32.toKey (s : Hex32) : Key :=
  ⟨fromHex s.1.toList, length_fromHex (by
    have h := s.2
    simp only [isHex32, Bool.and_eq_true, decide_eq_true_eq] at h
    exact h.1)⟩

/-- Thirty-two bytes in hexadecimal. -/
def hex32 (b : List UInt8) (h : b.length = 32) : Hex32 :=
  ⟨String.ofList (hexText b), by
    simp only [isHex32, String.toList_ofList, length_hexText, h, Bool.and_eq_true,
      decide_eq_true_eq, List.all_eq_true]
    exact ⟨trivial, fun c hc => isHex_of_mem_hexText hc⟩⟩

/-- A hash as a digest. -/
def digestOf (b : List UInt8) : Digest :=
  ⟨String.ofList ("sha256:".toList ++ hexText (Sha256.digest b)), by
    have hlen := length_hexText (Sha256.digest b)
    have h7 : "sha256:".toList.length = 7 := rfl
    simp only [isDigest, String.toList_ofList, ← h7, List.take_left, List.drop_left, hlen,
      Sha256.length_digest, Bool.and_eq_true, decide_eq_true_eq, List.all_eq_true]
    exact ⟨⟨trivial, trivial⟩, fun c hc => isHex_of_mem_hexText hc⟩⟩

@[simp]
theorem toKey_hex32 (k : Key) : (hex32 k.1 k.2).toKey = k := by
  apply Subtype.ext
  show fromHex (String.ofList (hexText k.1)).toList = k.1
  rw [String.toList_ofList, fromHex_hexText]

/-- `canonical_json_bytes` -/
def canonicalJsonBytes (v : Value) : Except Raised (List UInt8) :=
  match dumps v with
  | some t => .ok (encodeUtf8 t)
  | none => .error (.artifactValidation "value is not canonical JSON data")

end Palimpsest.Control
