import Palimpsest.Lifecycle.HostFrames

/-!
# The signed messages of the host

What the guest reads as a message that its boot key signs. The bytes that it takes are those that
the host sends: the canonical text of an envelope whose body names the session and that the session
admits, signed with the key of the boot (`Palimpsest.Lifecycle.parseSignedHost_eq_some`).
-/

namespace Palimpsest.Lifecycle

open Json ByteParser
open Control (Uuid Digest Hex32 Counter OCIControlV2Message OCIControlV2Envelope Content Kind
  ExecArgv ociControlProtocolV2 maxCounter encodeUtf8 macText signMessage maxOCIExecTimeoutMs)
open Stage1 (encodeUtf8_eq)
open Stage1.Init (IsSpan NoDigit field_eq_some fixedField_eq_some uintField_eq_some
  plainString_eq_some exactLiteral_eq_true uintValue_eq_some quoted quote_ofList)
open Utf8 (encode)

variable {l r : List UInt8}

/-! ### What the signed messages are -/

/-- What the guest takes of the payload of a signed message. The signal of a STOP is the integer:
the guest does not read the float that equals it. -/
inductive HostPayload
  | keyAck
  | reconnect (digest : Digest) (boundaryId : Uuid)
  | stop
  | exec (argv : {l : List String // ExecArgv l})
      (timeoutMs : {n : ℕ // 1 ≤ n ∧ n ≤ maxOCIExecTimeoutMs})

namespace HostPayload

def kind : HostPayload → HostKind
  | keyAck => .keyAck
  | reconnect .. => .reconnect
  | stop => .stop
  | exec .. => .exec

/-- The arguments and the time limit of a command. -/
def command : HostPayload → List (List UInt8) × ℕ
  | exec argv timeoutMs => ((argvTexts argv).map encode, timeoutMs.1)
  | _ => ([], 0)

/-- The content of a message with this payload, which replies to a message or has a request. -/
def content (p : HostPayload) (generation : Uuid) (n : Counter) : Content :=
  match p with
  | keyAck => .keyAck generation n
  | reconnect digest boundaryId => .reconnect generation n digest boundaryId
  | stop => .stop generation n .int
  | exec argv timeoutMs => .exec generation n argv timeoutMs

def text : HostPayload → Text
  | keyAck => objText []
  | reconnect digest boundaryId =>
    objText [("boundary_ack_digest", quote digest.1), ("boundary_id", quote boundaryId.1)]
  | stop => objText [("signal", natText 15)]
  | exec argv timeoutMs =>
    objText [("argv", listText (argv.1.map quote)), ("timeout_ms", natText timeoutMs.1)]

end HostPayload

/-- What the session expects of a payload. -/
def LifecycleSession.Expects (s : LifecycleSession) : HostPayload → Prop
  | .reconnect digest boundaryId =>
    s.boundaryDigest = some digest ∧ s.boundaryId = some boundaryId
  | .exec .. => ((s.state = .ready ∧ s.stopRequestId = 0) ∧ s.remoteExec.pending = false) ∧
      s.remoteExec.active = false
  | _ => True

theorem encode_object (r : List UInt8) (k : String) (t : Text) :
    encode (objText [(k, t)]) ++ r = fieldStart '{' k (encode t ++ (encode ['}'] ++ r)) :=
  encode_objText k t [] r

theorem encode_object_two (r : List UInt8) (k : String) (t : Text) (k' : String) (t' : Text) :
    encode (objText [(k, t), (k', t')]) ++ r =
      fieldStart '{' k (encode t ++ fieldStart ',' k' (encode t' ++ (encode ['}'] ++ r))) :=
  encode_objText k t [(k', t')] r

/-- **The payloads that are read** are those that the session expects. -/
theorem signedPayload_eq_some {s : LifecycleSession} {kind : HostKind}
    {command : List (List UInt8) × ℕ} : s.signedPayload kind l = some (command, r) ↔
      ∃ p : HostPayload, p.kind = kind ∧ s.Expects p ∧ command = p.command ∧
        l = encode p.text ++ r := by
  -- Each kind reads its fields in a fixed order; the reader of each says which text it takes.
  cases kind with
  | keyAck =>
    simp only [LifecycleSession.signedPayload, bind_eq_some, pure_eq_some,
      expect_eq_some brace_ascii, expect_eq_some closing_ascii]
    constructor
    · rintro ⟨_, _, rfl, _, _, rfl, rfl, rfl⟩
      exact ⟨.keyAck, rfl, trivial, rfl, (encode_brackets _).symm⟩
    · rintro ⟨p, hp, -, rfl, rfl⟩
      cases p with
      | keyAck => exact ⟨(), _, encode_brackets r, (), _, rfl, rfl, rfl⟩
      | _ => cases hp
  | reconnect =>
    simp only [LifecycleSession.signedPayload, bind_eq_some, pure_eq_some,
      expect_eq_some closing_ascii,
      sameField_eq_some brace_ascii (show IsSpan "boundary_ack_digest".toList by decide)
        (show ∀ v ∈ s.boundaryDigest.map Subtype.val, IsSpan v.toList by
          rintro v hv
          obtain ⟨d, -, rfl⟩ := Option.map_eq_some_iff.mp hv
          exact isSpan_digest d),
      sameField_eq_some comma_ascii (show IsSpan "boundary_id".toList by decide)
        (show ∀ v ∈ s.boundaryId.map Subtype.val, IsSpan v.toList by
          rintro v hv
          obtain ⟨u, -, rfl⟩ := Option.map_eq_some_iff.mp hv
          exact isSpan_uuid u),
      Option.mem_def, Option.map_eq_some_iff]
    constructor
    · rintro ⟨_, _, ⟨_, ⟨digest, hdigest, rfl⟩, rfl⟩, _, _, ⟨_, ⟨boundaryId, hid, rfl⟩, rfl⟩, _, _,
        rfl, rfl, rfl⟩
      exact ⟨.reconnect digest boundaryId, rfl, ⟨hdigest, hid⟩, rfl,
        (encode_object_two _ _ _ _ _).symm⟩
    · rintro ⟨p, hp, hexpects, rfl, rfl⟩
      cases p with
      | reconnect digest boundaryId =>
        obtain ⟨hdigest, hid⟩ := hexpects
        exact ⟨(), _, ⟨_, ⟨digest, hdigest, rfl⟩, encode_object_two _ _ _ _ _⟩, (), _,
          ⟨_, ⟨boundaryId, hid, rfl⟩, rfl⟩, (), _, rfl, rfl, rfl⟩
      | _ => cases hp
  | stop =>
    simp only [LifecycleSession.signedPayload, bind_eq_some, pure_eq_some, check_eq_some,
      expect_eq_some closing_ascii, uintValue_eq_some, decide_eq_true_eq,
      field_eq_some brace_ascii (show IsSpan "signal".toList by decide)]
    constructor
    · rintro ⟨_, _, ⟨_, rfl, -, rfl, -⟩, _, _, ⟨rfl, rfl⟩, _, _, rfl, rfl, rfl⟩
      exact ⟨.stop, rfl, trivial, rfl, (encode_object _ _ _).symm⟩
    · rintro ⟨p, hp, -, rfl, rfl⟩
      cases p with
      | stop =>
        exact ⟨15, _, ⟨_, encode_object _ _ _, by decide, rfl, rfl⟩, (), _, ⟨rfl, rfl⟩, (), _, rfl,
          rfl, rfl⟩
      | _ => cases hp
  | exec =>
    simp only [LifecycleSession.signedPayload, bind_eq_some, pure_eq_some, check_eq_some,
      expect_eq_some closing_ascii, execArgv_eq_some, Bool.and_eq_true,
      decide_eq_true_eq, Bool.not_eq_true',
      field_eq_some brace_ascii (show IsSpan "argv".toList by decide),
      uintField_eq_some (show IsSpan "timeout_ms".toList by decide)]
    constructor
    · rintro ⟨_, _, ⟨hidle, rfl⟩, _, _, ⟨_, rfl, argv, rfl, rfl⟩, timeoutMs, _,
        ⟨⟨-, htimeout⟩, rfl, -⟩, _, _, rfl, rfl, rfl⟩
      exact ⟨.exec argv ⟨timeoutMs, htimeout⟩, rfl, hidle, rfl, (encode_object_two _ _ _ _ _).symm⟩
    · rintro ⟨p, hp, hexpects, rfl, rfl⟩
      cases p with
      | exec argv timeoutMs =>
        have hlt : timeoutMs.1 < 2 ^ 64 := timeoutMs.2.2.trans_lt (by decide)
        exact ⟨(), _, ⟨hexpects, rfl⟩, _, _, ⟨_, encode_object_two _ _ _ _ _, argv, rfl, rfl⟩, _, _,
          ⟨⟨hlt, timeoutMs.2⟩, rfl, rfl⟩, (), _, rfl, rfl, rfl⟩
      | _ => cases hp

/-- The number that a message carries of the exchange: what a KEY_ACK replies to, and the request of
the others. -/
def LifecycleSession.RequestOk (s : LifecycleSession) (kind : HostKind) (n : ℕ) : Prop :=
  if kind = .keyAck then n < 2 ^ 64 ∧ n = s.bootstrapWireSequence else 1 ≤ n ∧ n ≤ maxCounter

/-- The request that is read. -/
def requestRead (kind : HostKind) (n : ℕ) : ℕ := if kind = .keyAck then 0 else n

/-- The bytes of what a message replies to and of its request. -/
def requestBytes (kind : HostKind) (n : ℕ) (r : List UInt8) : List UInt8 :=
  if kind = .keyAck then fieldStart ',' "reply_to" (encode (natText n) ++ r)
  else fieldStart ',' "reply_to" (encode "null".toList ++
    fieldStart ',' "request_id" (encode (natText n) ++ r))

theorem signedRequest_eq_some {s : LifecycleSession} {kind : HostKind} {request : ℕ} :
    s.signedRequest kind l = some (request, r) ↔ ∃ n, s.RequestOk kind n ∧
      request = requestRead kind n ∧ l = requestBytes kind n r ∧ NoDigit r := by
  rw [LifecycleSession.signedRequest]
  unfold LifecycleSession.RequestOk requestRead requestBytes
  by_cases hkind : kind = .keyAck
  · simp only [if_pos hkind, bind_eq_some, pure_eq_some, decide_eq_true_eq,
      uintField_eq_some (show IsSpan "reply_to".toList by decide)]
    constructor
    · rintro ⟨n, _, ⟨hn, rfl, hr⟩, rfl, rfl⟩
      exact ⟨n, hn, rfl, rfl, hr⟩
    · rintro ⟨n, hn, rfl, rfl, hr⟩
      exact ⟨n, r, ⟨hn, rfl, hr⟩, rfl, rfl⟩
  · simp only [if_neg hkind, bind_eq_some, check_eq_some, counterOk_iff,
      field_eq_some comma_ascii (show IsSpan "reply_to".toList by decide),
      uintField_eq_some (show IsSpan "request_id".toList by decide)]
    constructor
    · rintro ⟨found, _, ⟨_, rfl, hliteral⟩, _, _, ⟨rfl, rfl⟩, ⟨-, hn⟩, rfl, hr⟩
      obtain rfl := (exactLiteral_eq_true (show IsSpan "null".toList by decide)).mp hliteral
      exact ⟨request, hn, rfl, rfl, hr⟩
    · rintro ⟨n, hn, rfl, rfl, hr⟩
      refine ⟨true, _, ⟨_, rfl, ?_⟩, (), _, ⟨rfl, rfl⟩, ⟨hn.2.trans_lt (by decide), hn⟩, rfl, hr⟩
      exact (exactLiteral_eq_true (show IsSpan "null".toList by decide)).mpr rfl

/-- The fields of what a message replies to and of its request. -/
def requestFields (kind : HostKind) (n : ℕ) : List (String × Text) :=
  if kind = .keyAck then [("reply_to", natText n)]
  else [("reply_to", "null".toList), ("request_id", natText n)]

/-- The text of the body of a signed message. -/
def hostText (i : BootIdentity) (epoch : ℕ) (nonce : Hex32) (p : HostPayload) (n wire : ℕ) : Text :=
  objText ([("boot_attempt_id", quote i.bootAttemptId.1),
    ("boot_generation", quote i.bootGeneration.1),
    ("domain_core_digest", quote i.binding.domainCoreDigest.1), ("epoch", natText epoch),
    ("host_nonce", quote nonce.1), ("kind", quote p.kind.text), ("payload", p.text)] ++
    (requestFields p.kind n ++ [("run_id", quote i.binding.runId.1),
      ("schema", quote (String.ofList ociControlProtocolV2)),
      ("stage1_artifact_digest", quote i.binding.stage1ArtifactDigest.1),
      ("wire_sequence", natText wire)]))

/-- The text of a body, from the front. -/
theorem encode_hostText (i : BootIdentity) (epoch : ℕ) (nonce : Hex32) (p : HostPayload)
    (n wire : ℕ) (r : List UInt8) : encode (hostText i epoch nonce p n wire) ++ r =
      fieldStart '{' "boot_attempt_id" (encode (quote i.bootAttemptId.1) ++
      fieldStart ',' "boot_generation" (encode (quote i.bootGeneration.1) ++
      fieldStart ',' "domain_core_digest" (encode (quote i.binding.domainCoreDigest.1) ++
      fieldStart ',' "epoch" (encode (natText epoch) ++
      fieldStart ',' "host_nonce" (encode (quote nonce.1) ++
      fieldStart ',' "kind" (encode (quote p.kind.text) ++
      fieldStart ',' "payload" (encode p.text ++ requestBytes p.kind n (
      fieldStart ',' "run_id" (encode (quote i.binding.runId.1) ++
      fieldStart ',' "schema" (encode (quote (String.ofList ociControlProtocolV2)) ++
      fieldStart ',' "stage1_artifact_digest" (encode (quote i.binding.stage1ArtifactDigest.1) ++
      fieldStart ',' "wire_sequence" (encode (natText wire) ++
      (encode ['}'] ++ r))))))))))))) := by
  have hcons (fs : List (String × Text)) (f : String × Text) :
      encode (objText (f :: fs)) ++ r = fieldStart '{' f.1 (encode f.2 ++ fieldsText r fs) :=
    encode_objText f.1 f.2 fs r
  rw [hostText, requestFields, requestBytes]
  split_ifs
  · simp only [List.cons_append, List.nil_append, hcons, fieldsText]
  · simp only [List.cons_append, List.nil_append, hcons, fieldsText]

/-- What is read of a body. -/
def hostView (nonce : Hex32) (p : HostPayload) (n wire : ℕ) : SignedHost :=
  ⟨nonce, p.command.1, p.command.2, requestRead p.kind n, wire⟩

/-- What the session demands of a body. -/
structure LifecycleSession.Admits (s : LifecycleSession) (nonce : Hex32) (p : HostPayload)
    (n wire : ℕ) : Prop where
  epoch : s.epoch < 2 ^ 64
  nonce : s.nonceOk p.kind nonce = true
  payload : s.Expects p
  request : s.RequestOk p.kind n
  wire : 1 ≤ wire ∧ wire ≤ maxCounter

theorem isSpan_kind (kind : HostKind) : IsSpan kind.text.toList := by
  cases kind <;> decide

/-- **The bodies that are read** are the texts of those that the session admits. -/
theorem signedBody_eq_some {s : LifecycleSession} {i : BootIdentity} {kind : HostKind}
    {h : SignedHost} : s.signedBody i kind l = some (h, r) ↔ ∃ nonce p n wire, p.kind = kind ∧
      s.Admits nonce p n wire ∧ h = hostView nonce p n wire ∧
        l = encode (hostText i s.epoch nonce p n wire) ++ r := by
  have hschema : IsSpan (String.ofList ociControlProtocolV2).toList := by decide
  simp only [LifecycleSession.signedBody, bind_eq_some, pure_eq_some, check_eq_some,
    encode_hostText,
    sameField_some brace_ascii (show IsSpan "boot_attempt_id".toList by decide) (isSpan_uuid _),
    sameField_some comma_ascii (show IsSpan "boot_generation".toList by decide) (isSpan_uuid _),
    sameField_some comma_ascii
      (show IsSpan "domain_core_digest".toList by decide) (isSpan_digest _),
    uintField_eq_some (show IsSpan "epoch".toList by decide),
    readField_eq_some comma_ascii (show IsSpan "host_nonce".toList by decide) sameGrammar_nonce,
    fixedField_eq_some comma_ascii (show IsSpan "kind".toList by decide) (isSpan_kind kind),
    field_eq_some comma_ascii (show IsSpan "payload".toList by decide),
    signedPayload_eq_some, signedRequest_eq_some,
    sameField_some comma_ascii (show IsSpan "run_id".toList by decide) (isSpan_uuid _),
    fixedField_eq_some comma_ascii (show IsSpan "schema".toList by decide) hschema,
    sameField_some comma_ascii
      (show IsSpan "stage1_artifact_digest".toList by decide) (isSpan_digest _),
    uintField_eq_some (show IsSpan "wire_sequence".toList by decide),
    expect_eq_some closing_ascii, decide_eq_true_eq, counterOk_iff]
  -- every field but the nonce, the payload, the request and the number is known beforehand
  constructor
  · rintro ⟨_, _, rfl, _, _, rfl, _, _, rfl, _, _, ⟨⟨hepoch, rfl⟩, rfl, -⟩, nonce, _, rfl, _, _,
      ⟨hnonce, rfl⟩, _, _, rfl, _, _, ⟨_, rfl, p, rfl, hexpects, rfl, rfl⟩, _, _,
      ⟨n, hrequest, rfl, rfl, -⟩, _, _, rfl, _, _, rfl, _, _, rfl, wire, _,
      ⟨⟨-, hwire⟩, rfl, -⟩, _, _, rfl, rfl, rfl⟩
    exact ⟨nonce, p, n, wire, rfl, ⟨hepoch, hnonce, hexpects, hrequest, hwire⟩, rfl, rfl⟩
  · rintro ⟨nonce, p, n, wire, rfl, ⟨hepoch, hnonce, hexpects, hrequest, hwire⟩, rfl, rfl⟩
    have hlt : wire < 2 ^ 64 := hwire.2.trans_lt (by decide)
    exact ⟨(), _, rfl, (), _, rfl, (), _, rfl, _, _, ⟨⟨hepoch, rfl⟩, rfl, rfl⟩, _, _, rfl, (), _,
      ⟨hnonce, rfl⟩, (), _, rfl, _, _, ⟨_, rfl, p, rfl, hexpects, rfl, rfl⟩, _, _,
      ⟨n, hrequest, rfl, rfl, rfl⟩, (), _, rfl, (), _, rfl, (), _, rfl, wire, _,
      ⟨⟨hlt, hwire⟩, rfl, rfl⟩, (), _, rfl, rfl, rfl⟩

/-- The text of the authentication of a message. -/
def authText (keyId tag : Text) : Text :=
  objText [("key_id", quoted keyId), ("tag", quoted tag)]

theorem signedMac_eq_some {a b : List UInt8} : LifecycleSession.signedMac l = some ((a, b), r) ↔
    ∃ keyId tag : Text, (IsSpan keyId ∧ IsSpan tag) ∧ (a = encode keyId ∧ b = encode tag) ∧
      l = encode (authText keyId tag) ++ r := by
  simp only [LifecycleSession.signedMac, bind_eq_some, pure_eq_some, authText, encode_object_two,
    field_eq_some brace_ascii (show IsSpan "key_id".toList by decide),
    field_eq_some comma_ascii (show IsSpan "tag".toList by decide),
    expect_eq_some closing_ascii]
  constructor
  · rintro ⟨⟨_, _⟩, _, ⟨_, rfl, hkeyId⟩, ⟨_, _⟩, _, ⟨_, rfl, htag⟩, _, _, rfl, heq, rfl⟩
    obtain ⟨keyId, hkey_span, rfl, -, rfl⟩ := plainString_eq_some.mp hkeyId
    obtain ⟨tag, htag_span, rfl, -, rfl⟩ := plainString_eq_some.mp htag
    obtain ⟨rfl, rfl⟩ := Prod.mk.inj heq
    exact ⟨keyId, tag, ⟨hkey_span, htag_span⟩, ⟨rfl, rfl⟩, rfl⟩
  · rintro ⟨keyId, tag, ⟨hkey_span, htag_span⟩, ⟨rfl, rfl⟩, rfl⟩
    exact ⟨(_, _), _, ⟨_, rfl, plainString_eq_some.mpr ⟨keyId, hkey_span, rfl, rfl, rfl⟩⟩, (_, _),
      _, ⟨_, rfl, plainString_eq_some.mpr ⟨tag, htag_span, rfl, rfl, rfl⟩⟩, (), _, rfl, rfl, rfl⟩

/-- The envelopes that are read, with the bytes of the body as they stand in them. -/
theorem signedEnvelope_eq_some {s : LifecycleSession} {i : BootIdentity} {kind : HostKind}
    {h : SignedHost} {body a b : List UInt8} :
    s.signedEnvelope i kind l = some (((h, body), a, b), r) ↔ ∃ nonce p n wire keyId tag,
      (p.kind = kind ∧ s.Admits nonce p n wire ∧ h = hostView nonce p n wire) ∧
        (IsSpan keyId ∧ IsSpan tag) ∧ (a = encode keyId ∧ b = encode tag) ∧
          body = encode (hostText i s.epoch nonce p n wire) ∧
            l = encode (objText [("body", hostText i s.epoch nonce p n wire),
              ("mac", authText keyId tag)]) ++ r := by
  simp only [LifecycleSession.signedEnvelope, bind_eq_some, pure_eq_some, encode_object_two,
    field_eq_some brace_ascii (show IsSpan "body".toList by decide),
    field_eq_some comma_ascii (show IsSpan "mac".toList by decide),
    expect_eq_some closing_ascii]
  constructor
  · rintro ⟨⟨_, _⟩, _, ⟨_, rfl, hbody⟩, ⟨_, _⟩, _, ⟨_, rfl, hmac⟩, _, _, rfl, heq, rfl⟩
    -- what the code is computed of are the bytes between the two cursors, so the text itself
    obtain ⟨hread, rfl⟩ := withBytes_eq_some.mp hbody
    obtain ⟨nonce, p, n, wire, hkind, hadmits, rfl, rfl⟩ := signedBody_eq_some.mp hread
    obtain ⟨keyId, tag, hspans, ⟨rfl, rfl⟩, rfl⟩ := signedMac_eq_some.mp hmac
    rw [take_encode] at heq
    obtain ⟨hview, hrest⟩ := Prod.mk.inj heq
    obtain ⟨rfl, rfl⟩ := Prod.mk.inj hview
    obtain ⟨rfl, rfl⟩ := Prod.mk.inj hrest
    exact ⟨nonce, p, n, wire, keyId, tag, ⟨hkind, hadmits, rfl⟩, hspans, ⟨rfl, rfl⟩, rfl, rfl⟩
  · rintro ⟨nonce, p, n, wire, keyId, tag, ⟨hkind, hadmits, rfl⟩, hspans, ⟨rfl, rfl⟩, rfl, rfl⟩
    exact ⟨(_, _), _, ⟨_, rfl, withBytes_eq_some.mpr ⟨signedBody_eq_some.mpr
      ⟨nonce, p, n, wire, hkind, hadmits, rfl, rfl⟩, (take_encode _ _).symm⟩⟩, (_, _), _, ⟨_, rfl,
        signedMac_eq_some.mpr ⟨keyId, tag, hspans, ⟨rfl, rfl⟩, rfl⟩⟩, (), _, rfl, rfl, rfl⟩

/-! ### Messages -/

namespace HostPayload

variable {p : HostPayload} {g : Uuid} {n : Counter}

theorem content_host (p : HostPayload) (g : Uuid) (n : Counter) :
    (p.content g n).kind.isHost = true ∧ (p.content g n).kind ≠ .boundaryAck ∧
      (p.content g n).kind ≠ .hello := by
  cases p <;> exact ⟨rfl, Kind.noConfusion, Kind.noConfusion⟩

theorem content_mapped (p : HostPayload) (g : Uuid) (n : Counter) : (p.content g n).Mapped := by
  cases p <;> trivial

theorem content_generation (p : HostPayload) (g : Uuid) (n : Counter) :
    (p.content g n).bootGeneration = some g := by
  cases p <;> rfl

theorem content_epochOk {epoch : ℕ} (hack : p.kind = .keyAck → epoch = 1)
    (hreconnect : p.kind = .reconnect → 1 < epoch) : (p.content g n).EpochOk epoch := by
  cases p with
  | keyAck => exact hack rfl
  | reconnect digest boundaryId => exact hreconnect rfl
  | stop => trivial
  | exec argv timeoutMs => trivial

end HostPayload

/-- The text of a message is the one that the session compares with. -/
theorem text_signed {i : BootIdentity} {m : OCIControlV2Message} {p : HostPayload} {n : Counter}
    (hbinding : m.binding = i.binding) (hattempt : m.bootAttemptId = i.bootAttemptId)
    (hcontent : m.content = p.content i.bootGeneration n) :
    m.text = hostText i m.epoch.1 m.hostNonce p n.1 m.wireSequence.1 := by
  rw [OCIControlV2Message.text, OCIControlV2Message.fields, hcontent,
    HostPayload.content_generation, hbinding, hattempt]
  cases p <;> rfl

/-- A message that the host has signed for this session, and that the session admits. -/
structure LifecycleSession.Addressed (s : LifecycleSession) (i : BootIdentity) (p : HostPayload)
    (n : Counter) (e : OCIControlV2Envelope) : Prop where
  binding : e.body.binding = i.binding
  attempt : e.body.bootAttemptId = i.bootAttemptId
  content : e.body.content = p.content i.bootGeneration n
  epoch : e.body.epoch.1 = s.epoch
  admitted : s.Admits e.body.hostNonce p n.1 e.body.wireSequence.1
  signed : signMessage e.body i.bootKey .channel = .ok e

/-- The counters of a session that waits for a message of this kind. -/
structure LifecycleSession.Awaits (s : LifecycleSession) (kind : HostKind) : Prop where
  epoch : 1 ≤ s.epoch ∧ s.epoch ≤ maxCounter
  reconnect : kind = .reconnect → 1 < s.epoch
  keyAck : kind = .keyAck → 1 ≤ s.bootstrapWireSequence ∧ s.bootstrapWireSequence ≤ maxCounter

theorem takeSigned_keyAck {s t : LifecycleSession} {h : SignedHost}
    (htake : s.takeSigned .keyAck h = some t) : s.epoch = 1 := by
  rw [LifecycleSession.takeSigned] at htake
  split_ifs at htake with hwire hack
  rw [not_or, not_not] at hack
  exact hack.1

theorem names_signed {i : BootIdentity} {m : OCIControlV2Message} {p : HostPayload} {n : Counter}
    (hbinding : m.binding = i.binding) (hattempt : m.bootAttemptId = i.bootAttemptId)
    (hcontent : m.content = p.content i.bootGeneration n) : Names i m :=
  ⟨hbinding, hattempt, by rw [hcontent, HostPayload.content_generation]⟩

theorem direction_signed {m : OCIControlV2Message} {p : HostPayload} {g : Uuid} {n : Counter}
    (hcontent : m.content = p.content g n) : m.direction = "host-to-guest" := by
  rw [OCIControlV2Message.direction, hcontent, if_pos (p.content_host g n).1]

/-- The text of a message that is signed. -/
theorem text_mac {e : OCIControlV2Envelope} {mac : Control.Mac} (h : e.mac = some mac) :
    e.text = objText [("body", e.body.text),
      ("mac", authText mac.keyId.1.toList mac.tag.1.toList)] := by
  rw [OCIControlV2Envelope.text, h, macText, authText, ← quote_ofList, ← quote_ofList,
    String.ofList_toList, String.ofList_toList]

/-- What is verified of a message is that the host has signed it. -/
theorem verify_signed {i : BootIdentity} {m : OCIControlV2Message} {p : HostPayload}
    {n : Counter} (hbinding : m.binding = i.binding) (hattempt : m.bootAttemptId = i.bootAttemptId)
    (hcontent : m.content = p.content i.bootGeneration n) {keyId tag : Text} (hkeyId : IsSpan keyId)
    (htag : IsSpan tag) :
    verifyLifecycleMac i (encodeUtf8 m.text) (encode keyId) (encode tag) "host-to-guest"
        "channel-frame" = true ↔
      ∃ e mac, signMessage m i.bootKey .channel = .ok e ∧ e.mac = some mac ∧
        keyId = mac.keyId.1.toList ∧ tag = mac.tag.1.toList := by
  have hhost := p.content_host i.bootGeneration n
  rw [← hcontent] at hhost
  have hcarrier := Control.validateCarrierKind_channel hhost.2.1
  have hmapped : m.content.Mapped := hcontent ▸ p.content_mapped i.bootGeneration n
  have hverify := verifyLifecycleMac_iff (names_signed hbinding hattempt hcontent) hmapped hcarrier
    hkeyId htag
  rw [direction_signed hcontent] at hverify
  refine hverify.trans ⟨?_, ?_⟩
  · rintro ⟨rfl, t, ht, rfl⟩
    refine ⟨⟨m, some ⟨Control.keyIdentifier i.bootKey, t⟩, by simpa using hhost.2.2⟩, _, ?_, rfl,
      rfl, rfl⟩
    rw [signMessage, dif_neg hhost.2.2, hcarrier, ht]
    rfl
  · rintro ⟨e, mac, he, hmac, rfl, rfl⟩
    obtain ⟨-, t, ht, -, hsigned⟩ := Control.signMessage_eq_ok he
    obtain rfl := Option.some.inj (hmac.symm.trans hsigned)
    exact ⟨rfl, t, ht, rfl⟩

theorem exists_counter {s : LifecycleSession} {kind : HostKind} (hawaits : s.Awaits kind) {n : ℕ}
    (hrequest : s.RequestOk kind n) : 1 ≤ n ∧ n ≤ maxCounter := by
  unfold LifecycleSession.RequestOk at hrequest
  split_ifs at hrequest with hkind
  · rw [hrequest.2]
    exact hawaits.keyAck hkind
  · exact hrequest

/-- What the session admits is a message. -/
theorem exists_message {s t : LifecycleSession} (i : BootIdentity) {p : HostPayload}
    (hawaits : s.Awaits p.kind) {nonce : Hex32} {n wire : ℕ} (hadmits : s.Admits nonce p n wire)
    (htake : s.takeSigned p.kind (hostView nonce p n wire) = some t) :
    ∃ (m : OCIControlV2Message) (k : Counter), k.1 = n ∧ (m.binding = i.binding ∧
      m.bootAttemptId = i.bootAttemptId ∧ m.content = p.content i.bootGeneration k) ∧
        m.epoch.1 = s.epoch ∧ m.hostNonce = nonce ∧ m.wireSequence.1 = wire := by
  have hcounter := exists_counter hawaits hadmits.request
  have hepoch : (p.content i.bootGeneration ⟨n, hcounter⟩).EpochOk s.epoch :=
    HostPayload.content_epochOk (fun hkind => takeSigned_keyAck (hkind ▸ htake)) hawaits.reconnect
  exact ⟨⟨i.binding, i.bootAttemptId, nonce, ⟨s.epoch, hawaits.epoch⟩, ⟨wire, hadmits.wire⟩,
    p.content i.bootGeneration ⟨n, hcounter⟩, hepoch⟩, ⟨n, hcounter⟩, rfl, ⟨rfl, rfl, rfl⟩, rfl,
    rfl, rfl⟩

/-- **What the guest takes for a message of the host** are the canonical bytes of a message that the
host has signed for its session, and that the session admits. -/
theorem parseSignedHost_eq_some {s t : LifecycleSession} {i : BootIdentity}
    (hidentity : s.identity = some i) {kind : HostKind} (hawaits : s.Awaits kind)
    {payload : List UInt8} {h : SignedHost} : s.parseSignedHost kind payload = some (t, h) ↔
      (kind = .reconnect ∨ s.connectionHasHello = true) ∧ ∃ e p n, p.kind = kind ∧
        s.Addressed i p n e ∧ payload = encodeUtf8 e.text ∧
          h = hostView e.body.hostNonce p n.1 e.body.wireSequence.1 ∧
            s.takeSigned kind h = some t := by
  have hguard : ¬(kind ≠ .reconnect ∧ (!s.connectionHasHello) = true) ↔
      kind = .reconnect ∨ s.connectionHasHello = true := by
    rw [not_and_or, not_not, Bool.not_eq_true', Bool.not_eq_false]
  have hbind : ∀ {α : Type} (o : Option α) (f : α → Option (LifecycleSession × SignedHost)),
      (o >>= f) = some (t, h) ↔ ∃ a, o = some a ∧ f a = some (t, h) :=
    fun o f => Option.bind_eq_some_iff
  rw [LifecycleSession.parseSignedHost, hidentity, Option.bind_eq_bind, Option.bind_some,
    ← hguard]
  split_ifs with hopen
  · exact iff_of_false (by rintro ⟨⟩) fun hnot => hnot.1 hopen
  rw [and_iff_right hopen, hbind]
  constructor
  · rintro ⟨⟨⟨h', body⟩, a, b⟩, hread, htail⟩
    obtain ⟨nonce, p, n, wire, keyId, tag, ⟨rfl, hadmits, rfl⟩, ⟨hkeyId, htag⟩, ⟨rfl, rfl⟩, rfl,
      hpayload⟩ := signedEnvelope_eq_some.mp (whole_eq_some.mp hread)
    rw [List.append_nil] at hpayload
    subst hpayload
    dsimp only at htail
    split_ifs at htail with hverify
    obtain ⟨t', htake, heq⟩ := (hbind _ _).mp htail
    obtain ⟨rfl, rfl⟩ := Prod.mk.inj (Option.some.inj heq)
    -- the fields that were read are those of a message, whose text these bytes are
    obtain ⟨m, k, rfl, ⟨hbinding, hattempt, hcontent⟩, hepoch, rfl, rfl⟩ :=
      exists_message i hawaits hadmits htake
    have htext := text_signed hbinding hattempt hcontent
    rw [hepoch] at htext
    rw [Bool.not_eq_true, Bool.not_eq_false', ← htext, ← encodeUtf8_eq] at hverify
    obtain ⟨e, mac, hsign, hmac, rfl, rfl⟩ :=
      (verify_signed hbinding hattempt hcontent hkeyId htag).mp hverify
    obtain ⟨-, -, -, rfl, -⟩ := Control.signMessage_eq_ok hsign
    refine ⟨e, p, k, rfl, ⟨hbinding, hattempt, hcontent, hepoch, hadmits, hsign⟩, ?_, rfl, htake⟩
    rw [text_mac hmac, htext, encodeUtf8_eq]
  · rintro ⟨e, p, n, rfl, haddressed, rfl, rfl, htake⟩
    obtain ⟨hbinding, hattempt, hcontent, hepoch, hadmits, hsigned⟩ := haddressed
    obtain ⟨-, tag, -, -, hmac⟩ := Control.signMessage_eq_ok hsigned
    have htext := text_signed hbinding hattempt hcontent
    rw [hepoch] at htext
    have hkeyId := isSpan_digest (Control.keyIdentifier i.bootKey)
    have hverify := (verify_signed hbinding hattempt hcontent hkeyId (isSpan_nonce tag)).mpr
      ⟨e, _, hsigned, hmac, rfl, rfl⟩
    rw [htext, encodeUtf8_eq] at hverify
    refine ⟨_, whole_eq_some.mpr (signedEnvelope_eq_some.mpr ⟨_, p, n.1, _, _, _,
      ⟨rfl, hadmits, rfl⟩, ⟨hkeyId, isSpan_nonce tag⟩, ⟨rfl, rfl⟩, rfl, ?_⟩), ?_⟩
    · rw [List.append_nil, text_mac hmac, htext, encodeUtf8_eq]
    · dsimp only
      rw [hverify, if_neg (by decide), htake]
      rfl

end Palimpsest.Lifecycle
