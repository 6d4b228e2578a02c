import Palimpsest.Stage1.FieldParsers

/-!
# The guest's parser of the assembly

The part of the plan that says how the root is put together: the layers in their order, the probes
to be found in them and the device of the root. Each part is read by a parser that is described by
the texts it takes, so the parser of the whole is too
(`Palimpsest.Stage1.Init.parseAssembly_eq_some`).
-/

namespace Palimpsest.Stage1.Init

open Json ByteParser
open Control (isUuid isDigest)
open Guest (Bindings)
open Utf8 (asciiByte encode)

variable {l r : List UInt8}

def lowerMax : ℕ := 24
def probeMax : ℕ := 8
def probeBytesMax : ℕ := 64 * 1024
def filesystemVerifyBytesMax : ℕ := 34359738368

/-! ### What is read -/

/-- `struct expected_device`, of a layer. -/
structure LowerDevice where
  serial : List UInt8
  digest : List UInt8
  size : ℕ
  deriving DecidableEq

/-- A probe that is expected in the root. -/
structure ProbeFile where
  path : List UInt8
  digest : List UInt8
  size : ℕ
  deriving DecidableEq

/-- `struct expected_device`, of the root. -/
structure RootDevice where
  serial : List UInt8
  size : ℕ
  filesystemUuid : List UInt8
  label : List UInt8
  deriving DecidableEq

/-! ### The layers -/

/-- What the loop over the layers has counted. -/
structure LayerState where
  layerCount : ℕ
  verificationBytes : ℕ

/-- One turn of the loop over the layers. -/
def parseLayer (st : LayerState) : ByteParser (LowerDevice × LayerState) := do
  fixedField '{' "filesystem" "squashfs"
  let digest ← digestField ',' "image_digest"
  optionsField "ro"
  let occurrence ← spanField ',' "occurrence_digest" Guest.Init.validDigest
  let _ ← uintField "ordinal" fun number => number = st.layerCount
  let serial ← spanField ',' "serial" Guest.isSerial
  check (derivedSerialMatches (encode "lower".toList) occurrence serial)
  let size ← uintField "size_bytes" fun number =>
    512 ≤ number && number ≤ 34359738368 && number % 512 = 0
  expect '}'
  check (st.verificationBytes ≤ filesystemVerifyBytesMax - size)
  return (⟨serial, digest, size⟩, ⟨st.layerCount + 1, st.verificationBytes + size⟩)

/-- A layer that is taken after those before it. -/
structure LayerOk (st : LayerState) (layer : Layer) : Prop where
  ordinal : layer.ordinal = .int st.layerCount ∧ st.layerCount < 2 ^ 64
  imageDigest : isDigest layer.imageDigest = true
  occurrenceDigest : isDigest layer.occurrenceDigest = true
  serial : isSerial layer.serial = true ∧ layer.serial = deviceSerial "lower" layer.occurrenceDigest
  size : 512 ≤ layer.sizeBytes ∧ layer.sizeBytes ≤ 34359738368 ∧ layer.sizeBytes % 512 = 0
  budget : st.verificationBytes + layer.sizeBytes ≤ filesystemVerifyBytesMax

/-- What the loop has counted after a layer. -/
def nextLayer (st : LayerState) (layer : Layer) : LayerState :=
  ⟨st.layerCount + 1, st.verificationBytes + layer.sizeBytes⟩

/-- What the guest expects of a layer. -/
def lowerView (layer : Layer) : LowerDevice :=
  ⟨encode layer.serial.toList, digestOf layer.imageDigest, layer.sizeBytes⟩

/-- A number that fits a word is written. -/
theorem dumps_word {n : ℕ} (h : n < 2 ^ 64) : (dumps (.int n)).getD [] = natText n := by
  rw [(spells_nat (k := 20) (by decide) (h.trans (by decide))).dumps_eq, Option.getD_some]

/-- The text of a layer at its place, from the front. -/
theorem encode_layerText {layer : Layer} {n : ℕ} (hn : n < 2 ^ 64) (h : layer.ordinal = .int n)
    (r : List UInt8) : encode layer.text ++ r =
      fieldStart '{' "filesystem" (encode (quote "squashfs") ++
      fieldStart ',' "image_digest" (encode (quote layer.imageDigest) ++
      fieldStart ',' "mount_options" (encode (optionsText "ro") ++
      fieldStart ',' "occurrence_digest" (encode (quote layer.occurrenceDigest) ++
      fieldStart ',' "ordinal" (encode (natText n) ++
      fieldStart ',' "serial" (encode (quote layer.serial) ++
      fieldStart ',' "size_bytes" (encode (natText layer.sizeBytes) ++
        (encode ['}'] ++ r)))))))) := by
  rw [Layer.text, h, dumps_word hn]
  exact encode_objText _ _ _ _

theorem derivedSerial_iff {name : Text} {identity serial : String} :
    derivedSerialMatches (encode name) (encode identity.toList) (encode serial.toList) = true ↔
      serial = deviceSerial (String.ofList name) identity := by
  rw [derivedSerialMatches_encode, decide_eq_true_eq, String.ofList_toList, String.ofList_toList]

theorem reads_layer : Reads parseLayer LayerOk nextLayer lowerView Layer.text where
  eq_some := by
    intro st l a st' r
    have hlower : String.ofList "lower".toList = "lower" := String.ofList_toList
    simp only [parseLayer, bind_eq_some, check_eq_some, pure_eq_some,
      fixedField_eq_some brace_ascii
        (show IsSpan "filesystem".toList by decide) (show IsSpan "squashfs".toList by decide),
      digestField_eq_some comma_ascii (show IsSpan "image_digest".toList by decide),
      optionsField_eq_some (show IsSpan "ro".toList by decide),
      spanField_eq_some comma_ascii
        (show IsSpan "occurrence_digest".toList by decide) sameGrammar_digest,
      spanField_eq_some comma_ascii (show IsSpan "serial".toList by decide) sameGrammar_serial,
      uintField_eq_some (show IsSpan "ordinal".toList by decide),
      uintField_eq_some (show IsSpan "size_bytes".toList by decide),
      expect_eq_some closing_ascii, Bool.and_eq_true, decide_eq_true_eq]
    constructor
    · rintro ⟨_, _, rfl, _, _, ⟨image, himage, rfl, rfl⟩, _, _, rfl, _, _, ⟨occurrence, hoccurrence,
        rfl, rfl⟩, n, _, ⟨⟨hn, rfl⟩, rfl, -⟩, _, _, ⟨serial, hserial, rfl, rfl⟩, _, _, ⟨hderived,
        rfl⟩, size, _, ⟨⟨-, ⟨hlow, hhigh⟩, haligned⟩, rfl, -⟩, _, _, rfl, _, _, ⟨hbudget, rfl⟩, heq,
        rfl⟩
      obtain ⟨rfl, rfl⟩ := Prod.mk.inj heq
      rw [derivedSerial_iff, hlower] at hderived
      refine ⟨⟨image, occurrence, .int st.layerCount, serial, size⟩, ⟨⟨rfl, hn⟩, himage,
        hoccurrence, ⟨hserial, hderived⟩, ⟨hlow, hhigh, haligned⟩, ?_⟩, rfl, rfl, ?_⟩
      · rw [filesystemVerifyBytesMax] at hbudget ⊢
        dsimp only
        omega
      · rw [encode_layerText hn rfl]
    · rintro ⟨⟨image, occurrence, ordinal, serial, size⟩, ⟨⟨hordinal, hn⟩, himage, hoccurrence,
        ⟨hserial, hderived⟩, ⟨hlow, hhigh, haligned⟩, hbudget⟩, rfl, rfl, rfl⟩
      dsimp only at hordinal himage hoccurrence hserial hderived hlow hhigh haligned hbudget
      rw [encode_layerText hn hordinal]
      refine ⟨(), _, rfl, _, _, ⟨image, himage, rfl, rfl⟩, (), _, rfl, _, _,
        ⟨occurrence, hoccurrence, rfl, rfl⟩, _, _, ⟨⟨hn, rfl⟩, rfl, noDigit_fieldStart _ _⟩, _, _,
        ⟨serial, hserial, rfl, rfl⟩, (), _, ⟨?_, rfl⟩, size, _,
        ⟨⟨by omega, ⟨hlow, hhigh⟩, haligned⟩, rfl, noDigit_brace _⟩, (), _, rfl, (), _, ⟨?_, rfl⟩,
        rfl, rfl⟩
      · rw [derivedSerial_iff, hlower, hderived]
      · rw [filesystemVerifyBytesMax] at hbudget ⊢
        omega
  head_ne := fun _ => ⟨'{', _, rfl, by decide, by decide⟩

/-! ### The places of the layers -/

/-- The loop over the places, with so many of them left. -/
def ordinalsLoop (layerCount : ℕ) : ℕ → ByteParser Unit
  | 0 => pure ()
  | k + 1 => do
    if k + 1 ≠ layerCount then expect ','
    let number ← uintValue
    check (number = k)
    ordinalsLoop layerCount k

/-- The places of the layers, the last one first. -/
def parseOrdinals (layerCount : ℕ) : ByteParser Unit := do
  expect '['
  ordinalsLoop layerCount layerCount
  expect ']'

/-- The text of the places below this one, each after a comma. -/
def placesBelow (k : ℕ) : Text := (List.range k).reverse.flatMap fun i => ',' :: natText i

theorem placesBelow_succ (k : ℕ) : placesBelow (k + 1) = ',' :: (natText k ++ placesBelow k) := by
  rw [placesBelow, List.range_succ, List.reverse_append, List.reverse_singleton,
    List.singleton_append, List.flatMap_cons, List.cons_append, placesBelow]

/-- What follows a place does not go on with a digit. -/
theorem noDigit_placesBelow (k : ℕ) (hr : NoDigit r) : NoDigit (encode (placesBelow k) ++ r) := by
  cases k with
  | zero => exact hr
  | succ k =>
    rw [placesBelow_succ, ← List.singleton_append, Utf8.encode_append, List.append_assoc]
    exact noDigit_comma _

theorem ordinalsLoop_eq_some {layerCount k : ℕ} (hk : k < layerCount) (hcount : layerCount ≤ 2 ^ 64)
    (hr : NoDigit r) {u : Unit} :
    ordinalsLoop layerCount k l = some (u, r) ↔ l = encode (placesBelow k) ++ r := by
  induction k generalizing l with
  | zero => exact pure_eq_some.trans (and_iff_right rfl)
  | succ k ih =>
    have hne : k + 1 ≠ layerCount := hk.ne
    simp only [ordinalsLoop, if_pos hne, bind_eq_some, check_eq_some, uintValue_eq_some,
      expect_eq_some comma_ascii, ih (by omega), decide_eq_true_eq]
    have hcomma : ',' :: (natText k ++ placesBelow k) = [','] ++ (natText k ++ placesBelow k) := rfl
    rw [placesBelow_succ, hcomma, Utf8.encode_append, Utf8.encode_append, List.append_assoc,
      List.append_assoc]
    constructor
    · rintro ⟨_, _, rfl, _, _, ⟨-, rfl, -⟩, _, _, ⟨rfl, rfl⟩, rfl⟩
      rfl
    · rintro rfl
      exact ⟨(), _, rfl, k, _, ⟨by omega, rfl, noDigit_placesBelow k hr⟩, (), _, ⟨rfl, rfl⟩, rfl⟩

theorem commaJoin_places (k : ℕ) :
    commaJoin ((List.range (k + 1)).reverse.map natText) = natText k ++ placesBelow k := by
  induction k with
  | zero => rfl
  | succ k ih =>
    rw [placesBelow_succ, ← ih, List.range_succ, List.reverse_append, List.reverse_singleton,
      List.singleton_append, List.map_cons]
    exact commaJoin_cons_ne (by simp)

theorem parseOrdinals_eq_some {layerCount : ℕ} (hpos : layerCount ≠ 0)
    (hcount : layerCount ≤ 2 ^ 64) {u : Unit} :
    parseOrdinals layerCount l = some (u, r) ↔ l = encode (ordinalsText layerCount) ++ r := by
  obtain ⟨k, rfl⟩ := Nat.exists_eq_succ_of_ne_zero hpos
  have hnot : ¬(k + 1 ≠ k + 1) := not_not_intro rfl
  have hclose : ∀ m : List UInt8, NoDigit (encode [']'] ++ m) := fun m => rfl
  have htext : encode (ordinalsText (k + 1)) ++ r = encode ['['] ++ (encode (natText k) ++
      (encode (placesBelow k) ++ (encode [']'] ++ r))) := by
    rw [ordinalsText, listText, commaJoin_places, ← List.singleton_append, List.append_assoc,
      Utf8.encode_append, Utf8.encode_append, Utf8.encode_append, List.append_assoc,
      List.append_assoc, List.append_assoc]
  rw [htext]
  simp only [parseOrdinals, ordinalsLoop, Nat.succ_eq_add_one, if_neg hnot, bind_eq_some,
    check_eq_some, uintValue_eq_some, expect_eq_some (show '['.toNat < 0x80 by decide),
    expect_eq_some (show ']'.toNat < 0x80 by decide), decide_eq_true_eq]
  constructor
  · rintro ⟨_, _, rfl, _, _, ⟨_, _, ⟨-, rfl, -⟩, _, _, ⟨rfl, rfl⟩, hloop⟩, rfl⟩
    rw [(ordinalsLoop_eq_some (Nat.lt_succ_self _) hcount (hclose r)).mp hloop]
  · rintro rfl
    exact ⟨(), _, rfl, (), _, ⟨k, _, ⟨by omega, rfl, noDigit_placesBelow k (hclose r)⟩, (), _,
      ⟨rfl, rfl⟩, (ordinalsLoop_eq_some (Nat.lt_succ_self k) hcount (hclose r)).mpr rfl⟩, rfl⟩

/-! ### The probes -/

/-- One turn of the loop over the probes, after probes at these paths. -/
def parseProbe (layerCount : ℕ) (paths : List (List UInt8)) :
    ByteParser (ProbeFile × List (List UInt8)) := do
  let digest ← digestField '{' "digest"
  let path ← spanField ',' "path" validProbePath
  let size ← uintField "size_bytes" fun number => 1 ≤ number && number ≤ probeBytesMax
  check (paths.all (· ≠ path))
  let _ ← uintField "top_ordinal" fun number => number = layerCount - 1
  expect '}'
  return (⟨path, digest, size⟩, path :: paths)

/-- A probe that is taken after probes at these paths. -/
structure ProbeOk (layerCount : ℕ) (paths : List (List UInt8)) (probe : Probe) : Prop where
  digest : isDigest probe.digest = true
  path : isProbePath probe.path = true
  size : 1 ≤ probe.sizeBytes ∧ probe.sizeBytes ≤ probeBytesMax
  fresh : encode probe.path.toList ∉ paths
  topOrdinal : probe.topOrdinal = layerCount - 1 ∧ layerCount - 1 < 2 ^ 64

/-- What the guest expects of a probe. -/
def probeView (probe : Probe) : ProbeFile :=
  ⟨encode probe.path.toList, digestOf probe.digest, probe.sizeBytes⟩

/-- The text of a probe, from the front. -/
theorem encode_probeText (probe : Probe) (r : List UInt8) : encode probe.text ++ r =
    fieldStart '{' "digest" (encode (quote probe.digest) ++
    fieldStart ',' "path" (encode (quote probe.path) ++
    fieldStart ',' "size_bytes" (encode (natText probe.sizeBytes) ++
    fieldStart ',' "top_ordinal" (encode (natText probe.topOrdinal) ++ (encode ['}'] ++ r))))) :=
  encode_objText _ _ _ _

theorem reads_probe (layerCount : ℕ) : Reads (parseProbe layerCount) (ProbeOk layerCount)
    (fun paths probe => encode probe.path.toList :: paths) probeView Probe.text where
  eq_some := by
    intro st l a st' r
    simp only [parseProbe, bind_eq_some, check_eq_some, pure_eq_some,
      digestField_eq_some brace_ascii (show IsSpan "digest".toList by decide),
      spanField_eq_some comma_ascii (show IsSpan "path".toList by decide) sameGrammar_probePath,
      uintField_eq_some (show IsSpan "size_bytes".toList by decide),
      uintField_eq_some (show IsSpan "top_ordinal".toList by decide),
      expect_eq_some closing_ascii, Bool.and_eq_true, decide_eq_true_eq,
      all_ne_iff, encode_probeText]
    constructor
    · rintro ⟨_, _, ⟨digest, hdigest, rfl, rfl⟩, _, _, ⟨path, hpath, rfl, rfl⟩, size, _,
        ⟨⟨-, hsize⟩, rfl, -⟩, _, _, ⟨hfresh, rfl⟩, top, _, ⟨⟨hword, htop⟩, rfl, -⟩, _, _, rfl, heq,
        rfl⟩
      obtain ⟨rfl, rfl⟩ := Prod.mk.inj heq
      exact ⟨⟨digest, path, size, top⟩, ⟨hdigest, hpath, hsize, hfresh, htop, htop ▸ hword⟩, rfl,
        rfl, rfl⟩
    · rintro ⟨⟨digest, path, size, top⟩, ⟨hdigest, hpath, hsize, hfresh, htop, hword⟩, rfl, rfl,
        rfl⟩
      dsimp only at hdigest hpath hsize hfresh htop hword
      have hmost : probeBytesMax < 2 ^ 64 := by decide
      exact ⟨_, _, ⟨digest, hdigest, rfl, rfl⟩, _, _, ⟨path, hpath, rfl, rfl⟩, size, _,
        ⟨⟨by omega, hsize⟩, rfl, noDigit_fieldStart _ _⟩, (), _, ⟨hfresh, rfl⟩, top, _,
        ⟨⟨by omega, htop⟩, rfl, noDigit_brace _⟩, (), _, rfl, rfl, rfl⟩
  head_ne := fun _ => ⟨'{', _, rfl, by decide, by decide⟩

/-! ### The root and the run -/

/-- The root, which has to be the one of the command line. -/
def parseRoot (b : Bindings) : ByteParser RootDevice := do
  fixedField '{' "filesystem" "ext4"
  let uuid ← field ',' "filesystem_uuid" plainString
  let filesystemUuid ← ofOption (uuidBytes uuid.1)
  field ',' "generation" positiveDecimal
  optionsField "rw"
  let serial ← spanField ',' "serial" Guest.isSerial
  check (serial = b.rootSerial)
  let size ← uintField "size_bytes" fun number =>
    16777216 ≤ number && number ≤ 17592186044416 && number % 1048576 = 0
  let volumeId ← spanField ',' "volume_id" validUuidSpan
  check (derivedSerialMatches (encode "root".toList) volumeId serial)
  expect '}'
  return ⟨serial, size, filesystemUuid, rootLabel volumeId⟩

/-- The bytes that a UUID spells. -/
def uuidBytesOf (s : String) : List UInt8 := Control.fromHex (s.toList.filter (· ≠ '-'))

/-- What the guest expects of a root. -/
def rootView (root : Root) : RootDevice where
  serial := encode root.serial.toList
  size := root.sizeBytes
  filesystemUuid := uuidBytesOf root.filesystemUuid
  label := rootLabel (encode root.volumeId.toList)

/-- The text of a root, from the front. -/
theorem encode_rootText (root : Root) (r : List UInt8) : encode root.text ++ r =
    fieldStart '{' "filesystem" (encode (quote "ext4") ++
    fieldStart ',' "filesystem_uuid" (encode (quote root.filesystemUuid) ++
    fieldStart ',' "generation" (encode (natText root.generation) ++
    fieldStart ',' "mount_options" (encode (optionsText "rw") ++
    fieldStart ',' "serial" (encode (quote root.serial) ++
    fieldStart ',' "size_bytes" (encode (natText root.sizeBytes) ++
    fieldStart ',' "volume_id" (encode (quote root.volumeId) ++ (encode ['}'] ++ r)))))))) :=
  encode_objText _ _ _ _

theorem length_natText_iff {n k : ℕ} (hk : 0 < k) : (natText n).length ≤ k ↔ n ≤ 10 ^ k - 1 := by
  have hpos : 0 < 10 ^ k := Nat.pow_pos (by decide)
  have hlength : (natText n).length ≤ k ↔ n < 10 ^ k := Nat.length_toDigits_le_iff (by decide) hk
  rw [hlength]
  omega

/-- A generation has at most so many digits. -/
theorem length_generation_le {n : ℕ} :
    (natText n).length ≤ generationDigitsMax ↔ n ≤ maxGeneration := by
  have hdigits : generationDigitsMax = maxGenerationDigits := rfl
  rw [maxGeneration, hdigits]
  exact length_natText_iff (by decide)

theorem parseRoot_eq_some {b : Bindings} {x : RootDevice} : parseRoot b l = some (x, r) ↔
    ∃ root : Root, root.policyOk = true ∧ encode root.serial.toList = b.rootSerial ∧
      x = rootView root ∧ l = encode root.text ++ r := by
  have hroot : String.ofList "root".toList = "root" := String.ofList_toList
  simp only [parseRoot, bind_eq_some, check_eq_some, pure_eq_some, ofOption_eq_some,
    fixedField_eq_some brace_ascii (show IsSpan "filesystem".toList by decide)
      (show IsSpan "ext4".toList by decide),
    field_eq_some comma_ascii (show IsSpan "filesystem_uuid".toList by decide),
    field_eq_some comma_ascii (show IsSpan "generation".toList by decide),
    positiveDecimal_eq_some, length_generation_le,
    optionsField_eq_some (show IsSpan "rw".toList by decide),
    spanField_eq_some comma_ascii (show IsSpan "serial".toList by decide) sameGrammar_serial,
    spanField_eq_some comma_ascii (show IsSpan "volume_id".toList by decide) sameGrammar_uuid,
    uintField_eq_some (show IsSpan "size_bytes".toList by decide),
    expect_eq_some closing_ascii, Bool.and_eq_true, decide_eq_true_eq,
    encode_rootText]
  constructor
  · rintro ⟨_, _, rfl, ⟨raw, n⟩, _, ⟨_, rfl, hplain⟩, uuid, _, ⟨huuid, rfl⟩, _, _,
      ⟨_, rfl, generation, hpos, hdigits, rfl, -⟩, _, _, rfl, _, _, ⟨serial, hserial, rfl, rfl⟩, _,
      _, ⟨hbound, rfl⟩, size, _, ⟨⟨-, ⟨hlow, hhigh⟩, haligned⟩, rfl, -⟩, _, _, ⟨volume, hvolume,
      rfl, rfl⟩, _, _, ⟨hderived, rfl⟩, _, _, rfl, rfl, rfl⟩
    obtain ⟨t, ht, rfl, -, rfl⟩ := plainString_eq_some.mp hplain
    obtain ⟨hvalid, rfl⟩ := (uuidBytes_encode ht.isAscii).mp huuid
    rw [derivedSerial_iff, hroot] at hderived
    refine ⟨⟨String.ofList t, generation, serial, size, volume⟩, ?_, hbound, ?_, ?_⟩
    · simp only [Root.policyOk, Bool.and_eq_true, decide_eq_true_eq]
      exact ⟨⟨⟨⟨⟨⟨hvolume, hvalid⟩, hpos, hdigits⟩, hlow, hhigh⟩, haligned⟩, hserial⟩, hderived⟩
    · rw [rootView, uuidBytesOf, String.toList_ofList]
    · have hquote := quote_ofList t
      dsimp only
      rw [hquote]
  · rintro ⟨⟨uuid, generation, serial, size, volume⟩, hpolicy, hbound, rfl, rfl⟩
    simp only [Root.policyOk, Bool.and_eq_true, decide_eq_true_eq] at hpolicy
    obtain ⟨⟨⟨⟨⟨⟨hvolume, hvalid⟩, hpos, hdigits⟩, hlow, hhigh⟩, haligned⟩, hserial⟩,
      hderived⟩ := hpolicy
    have hspan := sameGrammar_uuid.isSpan hvalid
    have hword : maxVolumeBytes < 2 ^ 64 := by decide
    refine ⟨(), _, rfl, _, _, ⟨_, rfl, plainString_eq_some.mpr ⟨uuid.toList, hspan, rfl, rfl, rfl⟩⟩,
      _, _, ⟨?_, rfl⟩, (), _, ⟨_, rfl, generation, hpos, hdigits, rfl, noDigit_fieldStart _ _⟩, (),
      _, rfl, _, _, ⟨serial, hserial, rfl, rfl⟩, (), _, ⟨hbound, rfl⟩, size, _,
      ⟨⟨hhigh.trans_lt hword, ⟨hlow, hhigh⟩, haligned⟩, rfl, noDigit_fieldStart _ _⟩, _, _,
      ⟨volume, hvolume, rfl, rfl⟩, (), _, ⟨?_, rfl⟩, (), _, rfl, rfl, rfl⟩
    · rw [uuidBytes_encode hspan.isAscii, String.ofList_toList]
      exact ⟨hvalid, rfl⟩
    · rw [derivedSerial_iff, hroot, hderived]

/-- The run: its identifier. -/
def parseRun : ByteParser (List UInt8) := do
  let _ ← spanField '{' "name" validRunName
  let runId ← spanField ',' "run_id" validUuidSpan
  expect '}'
  return runId

/-- The text of a run, from the front. -/
theorem encode_runText (c : Contents) (r : List UInt8) : encode c.runText ++ r =
    fieldStart '{' "name" (encode (quote c.runName) ++ fieldStart ',' "run_id"
      (encode (quote c.runId) ++ (encode ['}'] ++ r))) := encode_objText _ _ _ _

theorem parseRun_eq_some {x : List UInt8} : parseRun l = some (x, r) ↔
    ∃ name runId : String, (isRunName name = true ∧ isUuid runId = true) ∧ x = encode runId.toList ∧
      l = fieldStart '{' "name" (encode (quote name) ++ fieldStart ',' "run_id"
        (encode (quote runId) ++ (encode ['}'] ++ r))) := by
  simp only [parseRun, bind_eq_some, pure_eq_some,
    spanField_eq_some brace_ascii (show IsSpan "name".toList by decide) sameGrammar_runName,
    spanField_eq_some comma_ascii (show IsSpan "run_id".toList by decide)
      sameGrammar_uuid, expect_eq_some closing_ascii]
  constructor
  · rintro ⟨_, _, ⟨name, hname, rfl, rfl⟩, _, _, ⟨runId, hrun, rfl, rfl⟩, _, _, rfl, rfl, rfl⟩
    exact ⟨name, runId, ⟨hname, hrun⟩, rfl, rfl⟩
  · rintro ⟨name, runId, ⟨hname, hrun⟩, rfl, rfl⟩
    exact ⟨_, _, ⟨name, hname, rfl, rfl⟩, _, _, ⟨runId, hrun, rfl, rfl⟩, (), _, rfl, rfl, rfl⟩

/-! ### The assembly -/

/-- What is read of the assembly. -/
structure ParsedAssembly where
  lowers : List LowerDevice
  probes : List ProbeFile
  root : RootDevice

/-- The assembly, whose layers have to be those of the command line. -/
def parseAssembly (b : Bindings) : ByteParser ParsedAssembly := do
  fixedField '{' "device_policy" "virtio-serial-sysfs.v1"
  let layers ← field ',' "layers" (array parseLayer lowerMax ⟨0, 0⟩)
  let layerCount := layers.1.length
  check (layerCount ≠ 0 && layerCount = b.lowerSerials.length)
  field ',' "lowerdir_ordinals" (parseOrdinals layerCount)
  field ',' "overlay_mount_options" (exactStringArray3 "rw" "nodev" "nosuid")
  let probes ← field ',' "probes" (array (parseProbe layerCount) probeMax [])
  let root ← field ',' "root" (parseRoot b)
  fixedField ',' "root_layout" "overlay-upper-work.v1"
  expect '}'
  check (layers.1.map LowerDevice.serial = b.lowerSerials)
  return ⟨layers.1, probes.1, root⟩

/-- The text of an assembly, from the front. -/
theorem encode_assemblyText (c : Contents) (r : List UInt8) : encode c.assemblyText ++ r =
    fieldStart '{' "device_policy" (encode (quote devicePolicy) ++
    fieldStart ',' "layers" (encode (listText (c.layers.map Layer.text)) ++
    fieldStart ',' "lowerdir_ordinals" (encode (ordinalsText c.layers.length) ++
    fieldStart ',' "overlay_mount_options" (encode (optionsText "rw") ++
    fieldStart ',' "probes" (encode (listText (c.assemblyProbes.map Probe.text)) ++
    fieldStart ',' "root" (encode c.root.text ++
    fieldStart ',' "root_layout" (encode (quote rootLayout) ++ (encode ['}'] ++ r)))))))) :=
  encode_objText _ _ _ _

/-- The layers, the probes and the root that are read. -/
structure AssemblyOk (b : Bindings) (layers : List Layer) (probes : List Probe) (root : Root) :
    Prop where
  layerCount : layers ≠ [] ∧ layers.length ≤ lowerMax
  inOrder : Chain LayerOk nextLayer ⟨0, 0⟩ layers
  lowers : layers.map (fun layer => encode layer.serial.toList) = b.lowerSerials
  probeCount : probes.length ≤ probeMax
  distinct : Chain (ProbeOk layers.length) (fun paths probe => encode probe.path.toList :: paths)
    [] probes
  root : root.policyOk = true ∧ encode root.serial.toList = b.rootSerial

theorem parseAssembly_eq_some {b : Bindings} {x : ParsedAssembly} :
    parseAssembly b l = some (x, r) ↔ ∃ layers probes root, AssemblyOk b layers probes root ∧
      x = ⟨layers.map lowerView, probes.map probeView, rootView root⟩ ∧
        l = fieldStart '{' "device_policy" (encode (quote devicePolicy) ++
          fieldStart ',' "layers" (encode (listText (layers.map Layer.text)) ++
          fieldStart ',' "lowerdir_ordinals" (encode (ordinalsText layers.length) ++
          fieldStart ',' "overlay_mount_options" (encode (optionsText "rw") ++
          fieldStart ',' "probes" (encode (listText (probes.map Probe.text)) ++
          fieldStart ',' "root" (encode root.text ++
          fieldStart ',' "root_layout" (encode (quote rootLayout) ++
            (encode ['}'] ++ r)))))))) := by
  have hserial : ∀ layers : List Layer, (layers.map lowerView).map LowerDevice.serial =
      layers.map fun layer => encode layer.serial.toList := by
    intro layers
    rw [List.map_map]
    rfl
  simp only [parseAssembly, bind_eq_some, check_eq_some, pure_eq_some, Prod.exists,
    fixedField_eq_some brace_ascii (show IsSpan "device_policy".toList by decide)
      (show IsSpan "virtio-serial-sysfs.v1".toList by decide),
    field_eq_some comma_ascii (show IsSpan "layers".toList by decide),
    field_eq_some comma_ascii (show IsSpan "lowerdir_ordinals".toList by decide),
    field_eq_some comma_ascii (show IsSpan "overlay_mount_options".toList by decide),
    field_eq_some comma_ascii (show IsSpan "probes".toList by decide),
    field_eq_some comma_ascii (show IsSpan "root".toList by decide),
    exactStringArray3_eq_some (show IsSpan "rw".toList by decide)
      (show IsSpan "nodev".toList by decide) (show IsSpan "nosuid".toList by decide),
    array_eq_some reads_layer, array_eq_some (reads_probe _), parseRoot_eq_some,
    fixedField_eq_some comma_ascii (show IsSpan "root_layout".toList by decide)
      (show IsSpan "overlay-upper-work.v1".toList by decide),
    expect_eq_some closing_ascii, Bool.and_eq_true, decide_eq_true_eq]
  -- Forwards, what the parts have read is put together; the serials are compared last.
  constructor
  · rintro ⟨_, _, h₁, devices, _, _, ⟨_, h₂, layers, hcount, hlayers, hdevices, -, h₃⟩, _, _,
      ⟨⟨hne, -⟩, h₄⟩, _, _, ⟨_, h₅, hordinals⟩, _, _, ⟨_, h₆, h₇⟩, files, _, _,
      ⟨_, h₈, probes, hprobeCount, hprobes, hfiles, -, h₉⟩, _, _, ⟨_, h₁₀, root, hpolicy, hroot,
      hview, h₁₁⟩, _, _, h₁₂, _, _, h₁₃, _, _, ⟨hlowers, h₁₄⟩, h₁₅, h₁₆⟩
    subst hdevices hfiles hview
    rw [List.length_map] at hne hprobes hordinals
    rw [hserial] at hlowers
    have hword : layers.length ≤ 2 ^ 64 := hcount.trans (by decide)
    rw [parseOrdinals_eq_some hne hword] at hordinals
    refine ⟨layers, probes, root, ⟨⟨?_, hcount⟩, hlayers, hlowers, hprobeCount, hprobes, hpolicy,
      hroot⟩, h₁₅.symm, ?_⟩
    · rintro rfl
      exact hne rfl
    · rw [h₁, h₂, h₃, h₄, h₅, hordinals, h₆, h₇, h₈, h₉, h₁₀, h₁₁, h₁₂, h₁₃, h₁₄, h₁₆]
      rfl
  · rintro ⟨layers, probes, root, ⟨⟨hne, hcount⟩, hlayers, hlowers, hprobeCount, hprobes, hpolicy,
      hroot⟩, rfl, rfl⟩
    have hword : layers.length ≤ 2 ^ 64 := hcount.trans (by decide)
    have hpos : layers.length ≠ 0 := fun h => hne (List.length_eq_zero_iff.mp h)
    have hlen : layers.length = b.lowerSerials.length := by rw [← hlowers, List.length_map]
    refine ⟨(), _, rfl, _, _, _, ⟨_, rfl, layers, hcount, hlayers, rfl, rfl, rfl⟩, (), _, ⟨⟨?_, ?_⟩,
      rfl⟩, (), _, ⟨_, rfl, ?_⟩, (), _, ⟨_, rfl, rfl⟩, _, _, _,
      ⟨_, rfl, probes, hprobeCount, ?_, rfl, rfl, rfl⟩, _, _, ⟨_, rfl, root, hpolicy, hroot, rfl,
      rfl⟩, (), _, rfl, (), _, rfl, (), _, ⟨?_, rfl⟩, rfl, rfl⟩
    · rwa [List.length_map]
    · rwa [List.length_map]
    · rw [List.length_map, parseOrdinals_eq_some hpos hword]
      rfl
    · rwa [List.length_map]
    · rw [hserial, hlowers]

/-! ### Layers and probes in order -/

/-- Every layer says where it stands, as a number. -/
def Numbered : ℕ → List Layer → Prop
  | _, [] => True
  | n, layer :: layers => layer.ordinal = .int n ∧ Numbered (n + 1) layers

/-- The guest takes the layers that the host accepts, once they are known to be different. -/
theorem chain_layer_iff {n bytes : ℕ} {serials : List String} {layers : List Layer}
    (hn : n + layers.length ≤ 2 ^ 64) :
    layersOk n serials bytes layers = true ∧ Numbered n layers ↔
      Chain LayerOk nextLayer ⟨n, bytes⟩ layers ∧ (layers.map Layer.serial).Nodup ∧
        ∀ layer ∈ layers, layer.serial ∉ serials := by
  induction layers generalizing n bytes serials with
  | nil =>
    exact iff_of_true ⟨rfl, trivial⟩ ⟨trivial, List.nodup_nil, List.forall_mem_nil _⟩
  | cons layer layers ih =>
    rw [List.length_cons] at hn
    have hrest := @ih (n + 1) (bytes + layer.sizeBytes) (layer.serial :: serials) (by omega)
    -- The host compares a serial with all before it; the guest, at the end, each with each.
    have hfresh : (∀ other ∈ layers, other.serial ∉ layer.serial :: serials) ↔
        layer.serial ∉ layers.map Layer.serial ∧ ∀ other ∈ layers, other.serial ∉ serials := by
      simp only [List.mem_cons, not_or, List.mem_map, not_exists, not_and]
      exact ⟨fun h => ⟨fun o ho => (h o ho).1, fun o ho => (h o ho).2⟩,
        fun h o ho => ⟨h.1 o ho, h.2 o ho⟩⟩
    rw [hfresh] at hrest
    rw [layersOk, Numbered, Chain, nextLayer, List.map_cons, List.nodup_cons, List.forall_mem_cons,
      Bool.and_eq_true, Bool.and_eq_true, decide_eq_true_eq]
    simp only [Layer.policyOk, Bool.and_eq_true, decide_eq_true_eq]
    constructor
    · rintro ⟨⟨⟨⟨⟨⟨⟨⟨⟨⟨-, hserial⟩, hnew⟩, himage⟩, hoccurrence⟩, hlow, hhigh⟩, haligned⟩,
        hderived⟩, hbudget⟩, hlayers⟩, hordinal, hnumbered⟩
      obtain ⟨hchain, hnodup, hother, hserials⟩ := hrest.mp ⟨hlayers, hnumbered⟩
      have hword : n < 2 ^ 64 := by omega
      exact ⟨⟨⟨⟨hordinal, hword⟩, himage, hoccurrence, ⟨hserial, hderived⟩,
        ⟨hlow, hhigh, haligned⟩, hbudget⟩, hchain⟩, ⟨hother, hnodup⟩, hnew, hserials⟩
    · rintro ⟨⟨⟨⟨hordinal, -⟩, himage, hoccurrence, ⟨hserial, hderived⟩, ⟨hlow, hhigh, haligned⟩,
        hbudget⟩, hchain⟩, ⟨hother, hnodup⟩, hnew, hserials⟩
      obtain ⟨hlayers, hnumbered⟩ := hrest.mpr ⟨hchain, hnodup, hother, hserials⟩
      refine ⟨⟨⟨⟨⟨⟨⟨⟨⟨⟨?_, hserial⟩, hnew⟩, himage⟩, hoccurrence⟩, hlow, hhigh⟩, haligned⟩,
        hderived⟩, hbudget⟩, hlayers⟩, hordinal, hnumbered⟩
      rw [hordinal]
      exact decide_eq_true rfl

/-- The guest takes the probes that the host accepts. -/
theorem chain_probe_iff {layerCount : ℕ} (hcount : layerCount ≤ 2 ^ 64) (paths : List String)
    {probes : List Probe} : probesOk layerCount paths probes = true ↔
      Chain (ProbeOk layerCount) (fun paths probe => encode probe.path.toList :: paths)
        (paths.map fun path => encode path.toList) probes := by
  induction probes generalizing paths with
  | nil => exact iff_of_true rfl trivial
  | cons probe probes ih =>
    have hfresh : encode probe.path.toList ∉ (paths.map fun path => encode path.toList) ↔
        probe.path ∉ paths := by
      rw [List.mem_map, not_iff_not]
      constructor
      · rintro ⟨path, hpath, heq⟩
        obtain rfl := String.toList_injective (Utf8.encode_injective heq)
        exact hpath
      · intro hpath
        exact ⟨_, hpath, rfl⟩
    have hrest := ih (probe.path :: paths)
    rw [List.map_cons] at hrest
    rw [probesOk, Chain, Bool.and_eq_true, hrest]
    refine and_congr_left fun _ => ?_
    simp only [Probe.policyOk, Bool.and_eq_true, decide_eq_true_eq]
    constructor
    · rintro ⟨⟨⟨⟨hdigest, hpath⟩, hnew⟩, hsize⟩, htop⟩
      exact ⟨hdigest, hpath, hsize, hfresh.mpr hnew, htop, by omega⟩
    · rintro ⟨hdigest, hpath, hsize, hnew, htop, -⟩
      exact ⟨⟨⟨⟨hdigest, hpath⟩, hfresh.mp hnew⟩, hsize⟩, htop⟩

end Palimpsest.Stage1.Init
