import Palimpsest.Control.RoundTrip
import Palimpsest.Stage1.FieldParsers

/-!
# The authentication code of the guest

The guest derives a key for every direction and carrier from its boot key and authenticates the
bytes of a body, all of it put together text by text in buffers of a fixed size. None of them is
too small, and the code is the one the host computes for the message whose text the body is
(`Palimpsest.Lifecycle.frameTag_eq`). So what the guest accepts as authentic is what the host has
signed (`Palimpsest.Lifecycle.verifyLifecycleMac_iff`).
-/

namespace Palimpsest.Lifecycle

open Json
open Control

/-! ### Texts in a buffer -/

/-- `append_control` -/
def appendControl (cap : ℕ) (out : List UInt8) (value : Text) : Option (List UInt8) :=
  if cap < out.length + (encodeUtf8 value).length then none else some (out ++ encodeUtf8 value)

/-- Texts appended one after the other to an empty buffer. -/
def appendAll (cap : ℕ) (parts : List Text) : Option (List UInt8) :=
  parts.foldlM (appendControl cap) []

theorem encodeUtf8_nil : encodeUtf8 [] = [] := rfl

theorem foldlM_appendControl {cap : ℕ} {out : List UInt8} (h : out.length ≤ cap)
    (parts : List Text) : parts.foldlM (appendControl cap) out =
      if cap < out.length + byteLength parts.flatten then none
        else some (out ++ encodeUtf8 parts.flatten) := by
  induction parts generalizing out with
  | nil =>
    rw [List.flatten_nil, byteLength_nil, if_neg (by omega), encodeUtf8_nil, List.append_nil]
    rfl
  | cons part parts ih =>
    rw [List.foldlM_cons, appendControl, length_encodeUtf8, List.flatten_cons, byteLength_append,
      encodeUtf8_append]
    by_cases hpart : cap < out.length + byteLength part
    · rw [if_pos hpart, if_pos (by omega)]
      rfl
    · have hlength : (out ++ encodeUtf8 part).length = out.length + byteLength part := by
        rw [List.length_append, length_encodeUtf8]
      rw [if_neg hpart, Option.bind_eq_bind, Option.bind_some, ih (by omega), hlength,
        List.append_assoc, Nat.add_assoc]

/-- **A buffer takes all the texts** when they fit one after the other. -/
theorem appendAll_eq {cap : ℕ} {parts : List Text} {t : Text} (ht : parts.flatten = t)
    (h : byteLength t ≤ cap) : appendAll cap parts = some (encodeUtf8 t) := by
  subst ht
  rw [appendAll, foldlM_appendControl (Nat.zero_le _), if_neg]
  · rfl
  · rw [List.length_nil]
    omega

/-! ### Strings without escapes -/

/-- A string that is quoted as it is. -/
def Plain (s : String) : Prop := ∀ c ∈ s.toList, isPlain c

theorem Plain.quote_eq {s : String} (h : Plain s) : quote s = '"' :: (s.toList ++ ['"']) := by
  rw [quote, escape_of_plain h]

theorem plain_uuid (u : Uuid) : Plain u.1 := fun _ => Monitor.isPlain_of_mem_uuid u

theorem plain_digest (d : Digest) : Plain d.1 := by
  have h := d.2
  simp only [isDigest, Bool.and_eq_true, decide_eq_true_eq, List.all_eq_true] at h
  have hprefix : ∀ c ∈ "sha256:".toList, isPlain c := List.all_eq_true.mp (by decide)
  intro c hc
  rw [← List.take_append_drop 7 d.1.toList, h.1.1] at hc
  rcases List.mem_append.mp hc with hc | hc
  · exact hprefix c hc
  · exact isPlain_of_isHex (h.2 c hc)

/-! ### The code -/

/-- What a guest knows of itself once it has a boot key. -/
structure BootIdentity where
  binding : OCIControlV2Binding
  bootAttemptId : Uuid
  bootGeneration : Uuid
  bootKey : Key

/-- What the key of a direction and a carrier is derived for, in the buffer `info`. -/
def subkeyInfo (i : BootIdentity) (direction carrier : String) : Option (List UInt8) := do
  let info ← appendAll 1024 [ociControlProtocolV2, "\x00subkey\x00".toList, direction.toList,
    "\x00".toList, carrier.toList, "\x00".toList, "\x7b\"boot_attempt_id\":\"".toList,
    i.bootAttemptId.1.toList, "\",\"boot_generation\":\"".toList, i.bootGeneration.1.toList,
    "\",\"domain_core_digest\":\"".toList, i.binding.domainCoreDigest.1.toList,
    "\",\"run_id\":\"".toList, i.binding.runId.1.toList,
    "\",\"stage1_artifact_digest\":\"".toList, i.binding.stage1ArtifactDigest.1.toList,
    "\"\x7d".toList]
  if info.length = 1024 then none else return info ++ [1]

/-- What stands in front of the length of a body, in the buffer `input_prefix`. -/
def inputPrefix (direction carrier : String) : Option (List UInt8) :=
  appendAll 256 [ociControlProtocolV2, "\x00frame\x00".toList, direction.toList, "\x00".toList,
    carrier.toList, "\x00".toList]

/-- `lifecycle_mac` -/
def lifecycleMac (i : BootIdentity) (body : List UInt8) (direction carrier : String) :
    Option (List UInt8) := do
  let salt := Sha256.digest (encodeUtf8 (ociControlProtocolV2 ++ "\x00hkdf-salt\x00".toList))
  let prk := Sha256.hmac salt i.bootKey.1
  let info ← subkeyInfo i direction carrier
  let subkey := Sha256.hmac prk info
  let front ← inputPrefix direction carrier
  return Sha256.hmac subkey (front ++ packU32 body.length ++ body)

/-! ### The code of a message -/

/-- The text of what a key is derived for. -/
def bindingText (i : BootIdentity) : Text :=
  objText [("boot_attempt_id", quote i.bootAttemptId.1),
    ("boot_generation", quote i.bootGeneration.1),
    ("domain_core_digest", quote i.binding.domainCoreDigest.1),
    ("run_id", quote i.binding.runId.1),
    ("stage1_artifact_digest", quote i.binding.stage1ArtifactDigest.1)]

/-- The identity a message names. -/
structure Names (i : BootIdentity) (m : OCIControlV2Message) : Prop where
  binding : m.binding = i.binding
  bootAttemptId : m.bootAttemptId = i.bootAttemptId
  bootGeneration : m.content.bootGeneration = some i.bootGeneration

variable {i : BootIdentity} {m : OCIControlV2Message} {c : Carrier}

theorem Names.canonicalJsonBytes_keyBinding (h : Names i m) :
    canonicalJsonBytes (keyBinding m) = .ok (encodeUtf8 (bindingText i)) := by
  have hwrites : Writes (keyBinding m) (bindingText i) := by
    rw [keyBinding, h.binding, h.bootAttemptId, h.bootGeneration]
    refine writes_sorted ?_ (writes_string _ (writes_string _ (writes_string _
      (writes_string _ (writes_string _ .nil)))))
    simp only [keys, List.map_cons, List.map_nil]
    decide
  rw [canonicalJsonBytes, hwrites.dumps_eq]

theorem byteLength_bindingText_le (i : BootIdentity) : byteLength (bindingText i) ≤ 400 := by
  have hattempt := byteLength_quote_uuid i.bootAttemptId
  have hgeneration := byteLength_quote_uuid i.bootGeneration
  have hdomain := byteLength_quote_digest i.binding.domainCoreDigest
  have hrun := byteLength_quote_uuid i.binding.runId
  have hstage := byteLength_quote_digest i.binding.stage1ArtifactDigest
  refine (byteLength_objText_le ["boot_attempt_id", "boot_generation", "domain_core_digest",
    "run_id", "stage1_artifact_digest"] (n := 86) (m := 260) rfl (by decide) ?_).trans
      (by decide)
  simp only [List.map_cons, List.map_nil, List.sum_cons, List.sum_nil]
  omega

theorem bindingText_eq (i : BootIdentity) : bindingText i =
    "\x7b\"boot_attempt_id\":\"".toList ++ (i.bootAttemptId.1.toList ++
      ("\",\"boot_generation\":\"".toList ++ (i.bootGeneration.1.toList ++
        ("\",\"domain_core_digest\":\"".toList ++ (i.binding.domainCoreDigest.1.toList ++
          ("\",\"run_id\":\"".toList ++ (i.binding.runId.1.toList ++
            ("\",\"stage1_artifact_digest\":\"".toList ++
              (i.binding.stage1ArtifactDigest.1.toList ++ "\"\x7d".toList))))))))) := by
  rw [bindingText, (plain_uuid i.bootAttemptId).quote_eq, (plain_uuid i.bootGeneration).quote_eq,
    (plain_digest i.binding.domainCoreDigest).quote_eq, (plain_uuid i.binding.runId).quote_eq,
    (plain_digest i.binding.stage1ArtifactDigest).quote_eq]
  simp [objText, commaJoin, fieldText, quote, escape, escapeChar]

/-- How long a direction and a carrier are. -/
theorem byteLength_carrier_le (m : OCIControlV2Message) (c : Carrier) :
    byteLength m.direction.toList ≤ 13 ∧ byteLength c.text.toList ≤ 13 := by
  constructor
  · unfold OCIControlV2Message.direction
    split <;> decide
  · cases c <;> decide

theorem subkeyInfo_eq (i : BootIdentity) (m : OCIControlV2Message) (c : Carrier) :
    subkeyInfo i m.direction c.text = some (encodeUtf8 (ociControlProtocolV2 ++
      "\x00subkey\x00".toList ++ m.direction.toList ++ "\x00".toList ++ c.text.toList ++
        "\x00".toList) ++ encodeUtf8 (bindingText i) ++ [1]) := by
  obtain ⟨hdirection, hcarrier⟩ := byteLength_carrier_le m c
  have hbinding := byteLength_bindingText_le i
  have hprotocol : byteLength ociControlProtocolV2 = 35 := by decide
  have hsubkey : byteLength "\x00subkey\x00".toList = 8 := by decide
  have hnul : byteLength "\x00".toList = 1 := by decide
  -- the buffer holds everything, so none of the appends is refused
  have hfits : byteLength (ociControlProtocolV2 ++ "\x00subkey\x00".toList ++
      m.direction.toList ++ "\x00".toList ++ c.text.toList ++ "\x00".toList ++
        bindingText i) ≤ 500 := by
    simp only [byteLength_append]
    omega
  have hparts := @appendAll_eq 1024 [ociControlProtocolV2,
    "\x00subkey\x00".toList, m.direction.toList, "\x00".toList, c.text.toList, "\x00".toList,
    "\x7b\"boot_attempt_id\":\"".toList, i.bootAttemptId.1.toList,
    "\",\"boot_generation\":\"".toList, i.bootGeneration.1.toList,
    "\",\"domain_core_digest\":\"".toList, i.binding.domainCoreDigest.1.toList,
    "\",\"run_id\":\"".toList, i.binding.runId.1.toList,
    "\",\"stage1_artifact_digest\":\"".toList, i.binding.stage1ArtifactDigest.1.toList,
    "\"\x7d".toList] (ociControlProtocolV2 ++ "\x00subkey\x00".toList ++
      m.direction.toList ++ "\x00".toList ++ c.text.toList ++ "\x00".toList ++ bindingText i)
    (by
      rw [bindingText_eq]
      simp only [List.flatten_cons, List.flatten_nil, List.append_nil, List.append_assoc])
    (hfits.trans (by decide))
  have hlength : (encodeUtf8 (ociControlProtocolV2 ++ "\x00subkey\x00".toList ++
      m.direction.toList ++ "\x00".toList ++ c.text.toList ++ "\x00".toList ++
        bindingText i)).length ≠ 1024 := by
    rw [length_encodeUtf8]
    omega
  rw [subkeyInfo, hparts, Option.bind_eq_bind, Option.bind_some, if_neg hlength,
    encodeUtf8_append (_ ++ _)]
  rfl

theorem inputPrefix_eq (m : OCIControlV2Message) (c : Carrier) :
    inputPrefix m.direction c.text = some (encodeUtf8 (ociControlProtocolV2 ++
      "\x00frame\x00".toList ++ m.direction.toList ++ "\x00".toList ++ c.text.toList ++
        "\x00".toList)) := by
  obtain ⟨hdirection, hcarrier⟩ := byteLength_carrier_le m c
  have hprotocol : byteLength ociControlProtocolV2 = 35 := by decide
  have hframe : byteLength "\x00frame\x00".toList = 7 := by decide
  have hnul : byteLength "\x00".toList = 1 := by decide
  refine appendAll_eq ?_ ?_
  · simp only [List.flatten_cons, List.flatten_nil, List.append_nil, List.append_assoc]
  · simp only [byteLength_append]
    omega

/-- **Both sides compute the same code**: the guest for the text of a message, and the host for the
message. -/
theorem frameTag_eq (h : Names i m) (hmapped : m.content.Mapped)
    (hcarrier : validateCarrierKind m c = .ok ()) : ∃ tag : Key,
      lifecycleMac i (encodeUtf8 m.text) m.direction c.text = some tag.1 ∧
        frameTag m i.bootKey c = .ok (hex32 tag.1 tag.2) := by
  have hbody : canonicalJsonBytes (.dict m.toDict) = .ok (encodeUtf8 m.text) := by
    rw [canonicalJsonBytes, (writes_message hmapped).dumps_eq]
  obtain ⟨subkey, hsubkey, hhkdf⟩ : ∃ subkey, (∀ body, lifecycleMac i body m.direction c.text =
      (inputPrefix m.direction c.text).bind fun front =>
        some (Sha256.hmac subkey (front ++ packU32 body.length ++ body))) ∧
      hkdfSubkey i.bootKey m c = .ok subkey := by
    refine ⟨?_, fun body => ?_, ?_⟩
    rotate_right
    · simp only [hkdfSubkey, hcarrier, h.canonicalJsonBytes_keyBinding, bind, Except.bind]
      rfl
    · rw [lifecycleMac, subkeyInfo_eq]
      rfl
  rw [hsubkey, inputPrefix_eq]
  refine ⟨⟨_, Sha256.length_hmac subkey _⟩, rfl, ?_⟩
  simp only [frameTag, hhkdf, macInput, hbody, bind, Except.bind]
  rfl

/-! ### What is authentic -/

/-- The identifier of a key, as `generate_boot_secret` writes it. -/
def keyIdText (key : Key) : List UInt8 :=
  Guest.ascii "sha256:" ++ (Sha256.digest (encodeUtf8 (ociControlProtocolV2 ++
    "\x00key-id\x00".toList) ++ key.1)).flatMap Guest.hexPair

/-- `verify_lifecycle_mac` -/
def verifyLifecycleMac (i : BootIdentity) (body keyId tag : List UInt8)
    (direction carrier : String) : Bool :=
  if keyId.length ≠ 71 ∨ tag.length ≠ 64 then false
  else if !tag.all Guest.isHex then false
  else match lifecycleMac i body direction carrier with
    | none => false
    | some expected => keyId = keyIdText i.bootKey && expected = Stage1.Init.pairBytes tag

/-- The bytes of a digest. -/
theorem encode_digestOf (b : List UInt8) : Utf8.encode (digestOf b).1.toList =
    Guest.ascii "sha256:" ++ (Sha256.digest b).flatMap Guest.hexPair := by
  have hprefix : Guest.ascii "sha256:" = Utf8.encode "sha256:".toList :=
    Stage1.Init.ascii_eq_encode (show Stage1.Init.IsAscii _ by decide)
  have htext : (digestOf b).1 = String.ofList ("sha256:".toList ++ hexText (Sha256.digest b)) := rfl
  rw [htext, String.toList_ofList, Utf8.encode_append, Stage1.Init.encode_hexText, hprefix]

theorem keyIdText_eq (key : Key) : keyIdText key = Utf8.encode (keyIdentifier key).1.toList :=
  (encode_digestOf _).symm

theorem hexDigit_hexValue {a : Char} (h : isHex a = true) :
    Control.hexValue a < 16 ∧ hexDigit (Control.hexValue a) = a := by
  have ha : a.toNat < 0x80 :=
    (Stage1.Init.isSpanChar_iff.mp (Stage1.Init.isSpanChar_of_isHex h)).2.1
  have hbyte : Guest.isHex (Utf8.asciiByte a) = true := by rw [Stage1.Init.isHex_asciiByte ha, h]
  obtain ⟨hlt, hdigit⟩ := Stage1.Init.asciiByte_hexDigit hbyte
  rw [Stage1.Init.hexValue_asciiByte ha] at hlt hdigit
  exact ⟨hlt, Utf8.asciiByte_injective (Stage1.Init.isHex_asciiByte_hexDigit hlt).1 ha hdigit⟩

/-- Digits read as bytes are written as these digits. -/
theorem hexText_fromHex {t : Text} (h : ∀ a ∈ t, isHex a = true) (heven : t.length % 2 = 0) :
    hexText (fromHex t) = t := by
  induction t using fromHex.induct with
  | case1 a b t ih =>
    obtain ⟨ha, hb, ht⟩ := by simpa only [List.forall_mem_cons] using h
    obtain ⟨hlow_a, hdigit_a⟩ := hexDigit_hexValue ha
    obtain ⟨hlow_b, hdigit_b⟩ := hexDigit_hexValue hb
    rw [List.length_cons, List.length_cons] at heven
    have hvalue : (UInt8.ofNat (16 * Control.hexValue a + Control.hexValue b)).toNat =
        16 * Control.hexValue a + Control.hexValue b := by
      rw [UInt8.toNat_ofNat', Nat.mod_eq_of_lt (by omega)]
    have hhigh : (16 * Control.hexValue a + Control.hexValue b) / 16 = Control.hexValue a := by
      omega
    have hlow : (16 * Control.hexValue a + Control.hexValue b) % 16 = Control.hexValue b := by
      omega
    rw [fromHex, hexText_cons, ih ht (by omega), hvalue, hhigh, hlow, hdigit_a, hdigit_b]
  | case2 t ht =>
    cases t with
    | nil => rfl
    | cons a t =>
      cases t with
      | nil => cases heven
      | cons b t => exact absurd rfl (ht a b t)

/-- **What the guest takes for authentic** is a body with the code that the host computes for its
message, under the name of the same key. -/
theorem verifyLifecycleMac_iff (h : Names i m) (hmapped : m.content.Mapped)
    (hcarrier : validateCarrierKind m c = .ok ()) {keyId tag : Text}
    (hkeyId : Stage1.Init.IsSpan keyId) (htag : Stage1.Init.IsSpan tag) :
    verifyLifecycleMac i (encodeUtf8 m.text) (Utf8.encode keyId) (Utf8.encode tag) m.direction
        c.text = true ↔
      keyId = (keyIdentifier i.bootKey).1.toList ∧
        ∃ t, frameTag m i.bootKey c = .ok t ∧ tag = t.1.toList := by
  obtain ⟨expected, hmac, hframe⟩ := frameTag_eq h hmapped hcarrier
  -- The two texts have the lengths that the guest asks for, so only the digits are compared.
  have hdigest := (keyIdentifier i.bootKey).2
  have hhex (k : Key) : (hex32 k.1 k.2).1.toList = hexText k.1 := by
    rw [hex32, String.toList_ofList]
  simp only [hframe, Except.ok.injEq, exists_eq_left', verifyLifecycleMac, hmac, keyIdText_eq,
    hhex, hkeyId.length_encode, htag.length_encode, Stage1.Init.pairBytes_encode htag.isAscii,
    htag.isAscii.all_encode fun a ha => Stage1.Init.isHex_asciiByte ha]
  constructor
  · intro hok
    split_ifs at hok with hlength hall
    rw [not_or, not_not, not_not] at hlength
    rw [Bool.not_eq_true, Bool.not_eq_false', List.all_eq_true] at hall
    rw [Bool.and_eq_true, decide_eq_true_eq, decide_eq_true_eq, Stage1.Init.encode_inj] at hok
    refine ⟨hok.1, ?_⟩
    rw [hok.2, hexText_fromHex hall (by omega)]
  · rintro ⟨rfl, rfl⟩
    have hall : (hexText expected.1).all isHex = true :=
      List.all_eq_true.mpr fun a ha => isHex_of_mem_hexText ha
    have hlength : ¬((keyIdentifier i.bootKey).1.toList.length ≠ 71 ∨
        (hexText expected.1).length ≠ 64) := by
      rw [isDigest, Bool.and_eq_true, Bool.and_eq_true, decide_eq_true_eq, decide_eq_true_eq,
        List.length_drop] at hdigest
      rw [length_hexText, expected.2]
      omega
    rw [if_neg hlength, hall, if_neg (by decide), fromHex_hexText]
    simp only [decide_true, Bool.and_self]

end Palimpsest.Lifecycle
