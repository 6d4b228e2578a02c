import Palimpsest.Lifecycle.Session

/-!
# The messages of the host in the guest

How the guest reads what the host sends: a HELLO, which nothing authenticates, and the four kinds
of messages that the boot key signs. The guest compares each field with what its session knows, and
takes no value it would not have written itself, so what it reads as a HELLO are the canonical
bytes of one that names it (`Palimpsest.Lifecycle.parseHello_eq_some`); for the signed messages see
`Palimpsest.Lifecycle.parseSignedHost_eq_some`.
-/

namespace Palimpsest.Lifecycle

open Json ByteParser
open Control (Uuid Digest Hex32 Key Counter OCIControlV2Message OCIControlV2Envelope
  OCIControlV2Binding Content Kind ExecArgv ociControlProtocolV2 isUuid isHex32 isDigest maxCounter
  encodeUtf8 counterText macText signMessage maxOCIExecTimeoutMs)
open Stage1 (encodeUtf8_eq)
open Stage1.Init (IsAscii IsSpan NoDigit SameGrammar field field_eq_some fixedField
  fixedField_eq_some spanField spanField_eq_some uintField uintField_eq_some plainString
  plainString_eq_some jsonString jsonString_eq_some exactLiteral exactLiteral_eq_true uintValue
  uintValue_eq_some validUuidSpan quoted quote_ofList quoted_head decodeProcessString
  decodeProcessString_eq_some processMaxLocal sameGrammar_uuid sameGrammar_digest)
open Utf8 (asciiByte encode)

variable {l r : List UInt8}

/-! ### Fields -/

/-- A field with a name of some grammar. -/
def readField (c : Char) (name : String) (ok : List UInt8 → Bool) (p : String → Bool) :
    ByteParser {s : String // p s} := do
  let raw ← spanField c name ok
  ofOption (nameOf p raw)

/-- A field with the string that the session has there. -/
def sameField (c : Char) (name : String) (value : Option String) : ByteParser Unit := do
  let s ← field c name plainString
  check (value.any fun v => s.1 = encode v.toList)

theorem readField_eq_some {c : Char} (hc : c.toNat < 0x80) {name : String}
    (hname : IsSpan name.toList) {ok : List UInt8 → Bool} {p : String → Bool}
    (h : SameGrammar ok p) {n : {s : String // p s}} :
    readField c name ok p l = some (n, r) ↔ l = fieldStart c name (encode (quote n.1) ++ r) := by
  simp only [readField, bind_eq_some, ofOption_eq_some, spanField_eq_some hc hname h,
    nameOf_eq_some fun _ => h.isSpan]
  constructor
  · rintro ⟨_, _, ⟨s, hs, rfl, rfl⟩, heq, rfl⟩
    rw [Stage1.Init.encode_inj, String.toList_inj] at heq
    rw [heq]
  · rintro rfl
    exact ⟨_, r, ⟨n.1, n.2, rfl, rfl⟩, rfl, rfl⟩

theorem sameField_eq_some {c : Char} (hc : c.toNat < 0x80) {name : String}
    (hname : IsSpan name.toList) {value : Option String} (h : ∀ v ∈ value, IsSpan v.toList)
    {u : Unit} : sameField c name value l = some (u, r) ↔
      ∃ v ∈ value, l = fieldStart c name (encode (quote v) ++ r) := by
  simp only [sameField, bind_eq_some, check_eq_some, field_eq_some hc hname, Option.any_eq_true,
    decide_eq_true_eq]
  constructor
  · rintro ⟨⟨raw, n⟩, _, ⟨_, rfl, hplain⟩, ⟨v, hv, heq⟩, rfl⟩
    obtain ⟨t, -, rfl, -, rfl⟩ := plainString_eq_some.mp hplain
    rw [Stage1.Init.encode_inj] at heq
    refine ⟨v, hv, ?_⟩
    rw [heq, ← quote_ofList, String.ofList_toList]
  · rintro ⟨v, hv, rfl⟩
    have hspan := h v hv
    refine ⟨(encode v.toList, v.toList.length), r, ⟨_, rfl, plainString_eq_some.mpr
      ⟨v.toList, hspan, rfl, rfl, ?_⟩⟩, ⟨v, hv, rfl⟩, rfl⟩
    rw [← quote_ofList, String.ofList_toList]

theorem isSpan_uuid (u : Uuid) : IsSpan u.1.toList := sameGrammar_uuid.isSpan u.2

theorem isSpan_digest (d : Digest) : IsSpan d.1.toList := sameGrammar_digest.isSpan d.2

theorem isSpan_nonce (n : Hex32) : IsSpan n.1.toList := sameGrammar_nonce.isSpan n.2

/-- A field with a name that the session has. -/
theorem sameField_some {c : Char} (hc : c.toNat < 0x80) {name v : String}
    (hname : IsSpan name.toList) (h : IsSpan v.toList) {u : Unit} :
    sameField c name (some v) l = some (u, r) ↔ l = fieldStart c name (encode (quote v) ++ r) := by
  rw [sameField_eq_some hc hname (by rintro _ ⟨⟩; exact h)]
  simp only [Option.mem_def, Option.some.injEq, exists_eq_left']

/-! ### A HELLO -/

/-- What is read of a HELLO. -/
structure Hello where
  attempt : Uuid
  nonce : Hex32
  requestId : ℕ

/-- `!request_id || request_id > 0x7fffffffffffffff` is refused. -/
def counterOk (n : ℕ) : Bool := 1 ≤ n && n ≤ 0x7fffffffffffffff

theorem counterOk_iff {n : ℕ} : counterOk n = true ↔ 1 ≤ n ∧ n ≤ maxCounter := by
  rw [counterOk, Bool.and_eq_true, decide_eq_true_eq, decide_eq_true_eq]
  exact Iff.rfl

/-- The body of a HELLO. -/
def helloBody (b : OCIControlV2Binding) : ByteParser Hello := do
  let attempt ← readField '{' "boot_attempt_id" validUuidSpan isUuid
  sameField ',' "domain_core_digest" (some b.domainCoreDigest.1)
  let _ ← uintField "epoch" (· = 1)
  let nonce ← readField ',' "host_nonce" validNonce isHex32
  fixedField ',' "kind" "HELLO"
  field ',' "payload" do
    expect '{'
    expect '}'
  let requestId ← uintField "request_id" counterOk
  sameField ',' "run_id" (some b.runId.1)
  fixedField ',' "schema" (String.ofList ociControlProtocolV2)
  sameField ',' "stage1_artifact_digest" (some b.stage1ArtifactDigest.1)
  let _ ← uintField "wire_sequence" (· = 1)
  expect '}'
  return ⟨attempt, nonce, requestId⟩

/-- The envelope of a HELLO. -/
def helloEnvelope (b : OCIControlV2Binding) : ByteParser Hello := do
  let h ← field '{' "body" (helloBody b)
  check (← field ',' "mac" (exactLiteral "null"))
  expect '}'
  return h

namespace LifecycleSession

/-- The session once a HELLO is taken. -/
def afterHello (s : LifecycleSession) (h : Hello) : LifecycleSession :=
  { s with
    hostNonce := some h.nonce
    bootAttemptId := some h.attempt
    lastHelloRequestId := h.requestId
    helloRequestId := h.requestId
    connectionOpenerRequestId := h.requestId
    lastAcceptedHostWire := 1
    epoch := 1
    connectionHasHello := true
    connected := true }

/-- What is done with a HELLO that was read. -/
def takeHello (s : LifecycleSession) (h : Hello) : Option LifecycleSession := do
  if s.connectionHasHello ∨ s.lastHelloRequestId ≠ 0 then none
  else return (← s.rememberNonceRequest h.nonce h.requestId).afterHello h

/-- `parse_hello` -/
def parseHello (s : LifecycleSession) (payload : List UInt8) : Option LifecycleSession := do
  s.takeHello (← whole (helloEnvelope s.binding) payload)

end LifecycleSession

/-- The text of the body of a HELLO. -/
def helloText (b : OCIControlV2Binding) (h : Hello) : Text :=
  objText [("boot_attempt_id", quote h.attempt.1),
    ("domain_core_digest", quote b.domainCoreDigest.1), ("epoch", natText 1),
    ("host_nonce", quote h.nonce.1), ("kind", quote "HELLO"), ("payload", objText []),
    ("request_id", natText h.requestId), ("run_id", quote b.runId.1),
    ("schema", quote (String.ofList ociControlProtocolV2)),
    ("stage1_artifact_digest", quote b.stage1ArtifactDigest.1), ("wire_sequence", natText 1)]

theorem encode_brackets (r : List UInt8) :
    encode (objText []) ++ r = encode ['{'] ++ (encode ['}'] ++ r) := by
  rw [← List.append_assoc, ← Utf8.encode_append]
  rfl

theorem helloBody_eq_some {b : OCIControlV2Binding} {h : Hello} :
    helloBody b l = some (h, r) ↔ (1 ≤ h.requestId ∧ h.requestId ≤ maxCounter) ∧
      l = encode (helloText b h) ++ r := by
  have hschema : IsSpan (String.ofList ociControlProtocolV2).toList := by decide
  simp only [helloBody, bind_eq_some, pure_eq_some, helloText, encode_objText, fieldsText,
    readField_eq_some brace_ascii (show IsSpan "boot_attempt_id".toList by decide) sameGrammar_uuid,
    sameField_some comma_ascii
      (show IsSpan "domain_core_digest".toList by decide) (isSpan_digest _),
    uintField_eq_some (show IsSpan "epoch".toList by decide),
    readField_eq_some comma_ascii (show IsSpan "host_nonce".toList by decide) sameGrammar_nonce,
    fixedField_eq_some comma_ascii (show IsSpan "kind".toList by decide)
      (show IsSpan "HELLO".toList by decide),
    field_eq_some comma_ascii (show IsSpan "payload".toList by decide),
    expect_eq_some brace_ascii, expect_eq_some closing_ascii,
    uintField_eq_some (show IsSpan "request_id".toList by decide),
    sameField_some comma_ascii (show IsSpan "run_id".toList by decide) (isSpan_uuid _),
    fixedField_eq_some comma_ascii (show IsSpan "schema".toList by decide) hschema,
    sameField_some comma_ascii
      (show IsSpan "stage1_artifact_digest".toList by decide) (isSpan_digest _),
    uintField_eq_some (show IsSpan "wire_sequence".toList by decide), encode_brackets,
    decide_eq_true_eq, counterOk_iff]
  -- the fields in their order, each with the bytes that are left after it
  constructor
  · rintro ⟨attempt, _, rfl, _, _, rfl, _, _, ⟨⟨-, rfl⟩, rfl, -⟩, nonce, _, rfl, _, _, rfl, _, _,
      ⟨_, rfl, _, _, rfl, rfl⟩, requestId, _, ⟨⟨-, hrequest⟩, rfl, -⟩, _, _, rfl, _, _, rfl, _, _,
      rfl, _, _, ⟨⟨-, rfl⟩, rfl, -⟩, _, _, rfl, rfl, rfl⟩
    exact ⟨hrequest, rfl⟩
  · rintro ⟨hrequest, rfl⟩
    have hlt : h.requestId < 2 ^ 64 := hrequest.2.trans_lt (by decide)
    exact ⟨_, _, rfl, (), _, rfl, 1, _, ⟨⟨by decide, rfl⟩, rfl, rfl⟩, _, _, rfl, (), _, rfl, (), _,
      ⟨_, rfl, (), _, rfl, rfl⟩, _, _, ⟨⟨hlt, hrequest⟩, rfl, rfl⟩, (), _, rfl, (), _, rfl, (), _,
      rfl, 1, _, ⟨⟨by decide, rfl⟩, rfl, rfl⟩, (), _, rfl, rfl, rfl⟩

theorem helloEnvelope_eq_some {b : OCIControlV2Binding} {h : Hello} :
    helloEnvelope b l = some (h, r) ↔ (1 ≤ h.requestId ∧ h.requestId ≤ maxCounter) ∧
      l = encode (objText [("body", helloText b h), ("mac", "null".toList)]) ++ r := by
  simp only [helloEnvelope, bind_eq_some, pure_eq_some, check_eq_some, encode_objText, fieldsText,
    field_eq_some brace_ascii (show IsSpan "body".toList by decide),
    field_eq_some comma_ascii (show IsSpan "mac".toList by decide),
    helloBody_eq_some, expect_eq_some closing_ascii]
  constructor
  · rintro ⟨h', _, ⟨_, rfl, hrequest, rfl⟩, found, _, ⟨_, rfl, hliteral⟩, _, _, ⟨rfl, rfl⟩, _, _,
      rfl, rfl, rfl⟩
    obtain rfl := (exactLiteral_eq_true (show IsSpan "null".toList by decide)).mp hliteral
    exact ⟨hrequest, rfl⟩
  · rintro ⟨hrequest, rfl⟩
    exact ⟨h, _, ⟨_, rfl, hrequest, rfl⟩, true, _, ⟨_, rfl,
      (exactLiteral_eq_true (show IsSpan "null".toList by decide)).mpr rfl⟩, (), _, ⟨rfl, rfl⟩, (),
      _, rfl, rfl, rfl⟩

/-- What is read of a message that is a HELLO. -/
def helloOf (m : OCIControlV2Message) (n : Counter) : Hello := ⟨m.bootAttemptId, m.hostNonce, n.1⟩

theorem text_hello {m : OCIControlV2Message} {n : Counter} (h : m.content = .hello n)
    (hwire : m.wireSequence.1 = 1) : m.text = helloText m.binding (helloOf m n) := by
  have hepoch : m.epoch.1 = 1 := by
    have hok := m.epoch_ok
    rwa [h] at hok
  rw [OCIControlV2Message.text, OCIControlV2Message.fields, h, hepoch, hwire]
  rfl

theorem text_helloEnvelope {e : OCIControlV2Envelope} {n : Counter}
    (h : e.body.content = .hello n) (hwire : e.body.wireSequence.1 = 1) :
    e.text = objText [("body", helloText e.body.binding (helloOf e.body n)),
      ("mac", "null".toList)] := by
  have hmac : e.mac = none := e.mac_ok.mpr (by rw [h]; rfl)
  rw [OCIControlV2Envelope.text, text_hello h hwire, hmac, macText]

/-- The first message of the host, as the guest has to get it. -/
structure Greets (b : OCIControlV2Binding) (e : OCIControlV2Envelope) (n : Counter) : Prop where
  content : e.body.content = .hello n
  binding : e.body.binding = b
  wire : e.body.wireSequence.1 = 1

theorem exists_greets (b : OCIControlV2Binding) {h : Hello}
    (hrequest : 1 ≤ h.requestId ∧ h.requestId ≤ maxCounter) : ∃ e n, Greets b e n ∧
      helloOf e.body n = h := by
  refine ⟨⟨⟨b, h.attempt, h.nonce, ⟨1, by decide⟩, ⟨1, by decide⟩, .hello ⟨h.requestId, hrequest⟩,
    rfl⟩, none, iff_of_true rfl rfl⟩, ⟨h.requestId, hrequest⟩, ⟨rfl, rfl, rfl⟩, rfl⟩

/-- **The HELLO that is taken** is the canonical text of a HELLO for this guest. -/
theorem parseHello_eq_some {s t : LifecycleSession} {payload : List UInt8} :
    s.parseHello payload = some t ↔ ∃ e n, Greets s.binding e n ∧ payload = encodeUtf8 e.text ∧
      s.takeHello (helloOf e.body n) = some t := by
  rw [LifecycleSession.parseHello, Option.bind_eq_bind, Option.bind_eq_some_iff]
  simp only [whole_eq_some, helloEnvelope_eq_some, List.append_nil]
  constructor
  · rintro ⟨h, ⟨hrequest, rfl⟩, htake⟩
    obtain ⟨e, n, he, rfl⟩ := exists_greets s.binding hrequest
    refine ⟨e, n, he, ?_, htake⟩
    rw [text_helloEnvelope he.content he.wire, he.binding, encodeUtf8_eq]
  · rintro ⟨e, n, he, rfl, htake⟩
    refine ⟨helloOf e.body n, ⟨n.2, ?_⟩, htake⟩
    rw [text_helloEnvelope he.content he.wire, he.binding, encodeUtf8_eq]

/-! ### The arguments of a command -/

/-- What the loop over the arguments of a command has counted. -/
structure ExecArgvState where
  argc : ℕ
  used : ℕ
  taken : ℕ

/-- One turn of the loop over the arguments: `taken` is how far it is from the opening bracket, up
to the comma or the bracket that follows. -/
def execArgument (st : ExecArgvState) : ByteParser (List UInt8 × ExecArgvState) := do
  let a ← withBytes (jsonString false)
  let taken := st.taken + a.2.length
  check (!(st.argc = 0 && a.1.2 = 0) && taken ≤ execArgvBytesMax)
  let p ← ofOption (decodeProcessString st.used a.1.1)
  return (p.1, ⟨st.argc + 1, p.2, taken + 1⟩)

/-- An argument that is taken after those before it. -/
structure ExecArgumentOk (st : ExecArgvState) (x : Text) : Prop where
  nul : '\x00' ∉ x
  first : ¬(st.argc = 0 ∧ x = [])
  taken : st.taken + (encode (quoted x)).length ≤ execArgvBytesMax
  room : st.used + (encode x).length ≤ processMaxLocal

/-- What the loop has counted after an argument. -/
def nextExecArgument (st : ExecArgvState) (x : Text) : ExecArgvState :=
  ⟨st.argc + 1, st.used + (encode x).length + 1, st.taken + (encode (quoted x)).length + 1⟩

theorem reads_execArgument :
    Reads execArgument ExecArgumentOk nextExecArgument encode quoted where
  eq_some := by
    intro st l a st' r
    simp only [execArgument, bind_eq_some, check_eq_some, ofOption_eq_some, pure_eq_some,
      Bool.and_eq_true, decide_eq_true_eq, Bool.not_eq_true', Bool.and_eq_false_iff,
      decide_eq_false_iff_not]
    constructor
    · rintro ⟨⟨⟨raw, n⟩, b⟩, m, hstring, _, _, ⟨⟨hfirst, htaken⟩, rfl⟩, ⟨out, used'⟩, _,
        ⟨hdecode, rfl⟩, heq, rfl⟩
      obtain ⟨hstring, hbytes⟩ := withBytes_eq_some.mp hstring
      obtain ⟨x, hnul, rfl, rfl, rfl⟩ := jsonString_eq_some.mp hstring
      obtain ⟨rfl, rfl, hroom⟩ := (decodeProcessString_eq_some hnul).mp hdecode
      obtain ⟨rfl, rfl⟩ := Prod.mk.inj heq
      rw [take_encode] at hbytes
      subst hbytes
      refine ⟨x, ⟨hnul, ?_, htaken, hroom⟩, rfl, rfl, rfl⟩
      rintro ⟨hargc, rfl⟩
      exact hfirst.elim (fun h => h hargc) fun h => h rfl
    · rintro ⟨x, ⟨hnul, hfirst, htaken, hroom⟩, rfl, rfl, rfl⟩
      refine ⟨((_, _), encode (quoted x)), r, withBytes_eq_some.mpr ⟨jsonString_eq_some.mpr
        ⟨x, hnul, rfl, rfl, rfl⟩, (take_encode _ _).symm⟩, (), r, ⟨⟨?_, htaken⟩, rfl⟩, _, r,
          ⟨(decodeProcessString_eq_some hnul).mpr ⟨rfl, rfl, hroom⟩, rfl⟩, rfl, rfl⟩
      rw [← not_and_or]
      exact fun h => hfirst ⟨h.1, Stage1.Init.length_encode_eq_zero.mp h.2⟩
  head_ne := fun _ => quoted_head _

/-- The bytes that arguments take, each with the byte after it. -/
def quotedSizes (xs : List Text) : ℕ := (xs.map fun x => (encode (quoted x)).length + 1).sum

theorem length_encodeChar_le (c : Char) :
    (String.utf8EncodeChar c).length ≤ (encode (escapeChar c)).length := by
  have hascii : ∀ {d : Char} (t : Text), d.toNat < 0x80 → t ≠ [] →
      (String.utf8EncodeChar d).length ≤ (encode t).length := by
    intro d t hd ht
    rw [Utf8.utf8EncodeChar_of_ascii hd]
    exact (List.length_pos_of_ne_nil ht).trans_le (Utf8.length_le_encode t)
  unfold escapeChar
  split_ifs with h₁ h₂ h₃ h₄ h₅ h₆ h₇ h₈
  · exact hascii _ (by rw [h₁]; decide) (List.cons_ne_nil _ _)
  · exact hascii _ (by rw [h₂]; decide) (List.cons_ne_nil _ _)
  · exact hascii _ (by rw [h₃]; decide) (List.cons_ne_nil _ _)
  · exact hascii _ (by rw [h₄]; decide) (List.cons_ne_nil _ _)
  · exact hascii _ (by rw [h₅]; decide) (List.cons_ne_nil _ _)
  · exact hascii _ (by rw [h₆]; decide) (List.cons_ne_nil _ _)
  · exact hascii _ (by rw [h₇]; decide) (List.cons_ne_nil _ _)
  · exact hascii _ (h₈.trans (by decide)) (List.cons_ne_nil _ _)
  · rw [Utf8.encode_cons, List.length_append]
    omega

/-- A string is shorter than its text in quotes. -/
theorem length_encode_lt (x : Text) : (encode x).length + 2 ≤ (encode (quoted x)).length := by
  have hescape : (encode x).length ≤ (encode (escape x)).length := by
    induction x with
    | nil => exact Nat.le_refl 0
    | cons c x ih =>
      have hcons : escape (c :: x) = escapeChar c ++ escape x := rfl
      have hchar := length_encodeChar_le c
      rw [hcons, Utf8.encode_cons, Utf8.encode_append, List.length_append, List.length_append]
      omega
  have hquotes : encode (quoted x) = encode ['"'] ++ (encode (escape x) ++ encode ['"']) := by
    rw [quoted, ← List.singleton_append, Utf8.encode_append, Utf8.encode_append]
  have hone : (encode ['"']).length = 1 := rfl
  rw [hquotes, List.length_append, List.length_append, hone]
  omega

theorem taken_foldl (st : ExecArgvState) (xs : List Text) :
    (xs.foldl nextExecArgument st).taken = st.taken + quotedSizes xs := by
  induction xs generalizing st with
  | nil => rfl
  | cons x xs ih =>
    have hsum : quotedSizes (x :: xs) = (encode (quoted x)).length + 1 + quotedSizes xs :=
      List.sum_cons
    rw [List.foldl_cons, ih, nextExecArgument, hsum]
    dsimp only
    omega

/-- Arguments are taken if their text is not too long: there is always room for what they stand
for. -/
theorem chain_execArgument {st : ExecArgvState} (hused : st.used ≤ st.taken) {xs : List Text} :
    Chain ExecArgumentOk nextExecArgument st xs ↔ (∀ x ∈ xs, '\x00' ∉ x) ∧
      ¬(st.argc = 0 ∧ xs.head? = some []) ∧
        (xs = [] ∨ st.taken + quotedSizes xs ≤ execArgvBytesMax + 1) := by
  induction xs generalizing st with
  | nil =>
    refine iff_of_true trivial ⟨List.forall_mem_nil _, ?_, Or.inl rfl⟩
    rintro ⟨-, ⟨⟩⟩
  | cons x xs ih =>
    have hsum : quotedSizes (x :: xs) = (encode (quoted x)).length + 1 + quotedSizes xs :=
      List.sum_cons
    have hshort := length_encode_lt x
    have hmax : execArgvBytesMax ≤ processMaxLocal := by decide
    -- What an argument takes in the buffer is never more than its text.
    have hused' : (nextExecArgument st x).used ≤ (nextExecArgument st x).taken := by
      rw [nextExecArgument]
      dsimp only
      omega
    rw [Chain, ih hused', List.forall_mem_cons, List.head?_cons, Option.some.injEq,
      or_iff_right (List.cons_ne_nil x xs), hsum]
    have hlater : ¬((nextExecArgument st x).argc = 0 ∧ xs.head? = some []) := fun h => by
      cases h.1
    constructor
    · rintro ⟨⟨hnul, hfirst, htaken, -⟩, hxs, -, hfit⟩
      refine ⟨⟨hnul, hxs⟩, hfirst, ?_⟩
      rcases hfit with rfl | hfit
      · have hzero : quotedSizes [] = 0 := rfl
        omega
      · rw [nextExecArgument] at hfit
        dsimp only at hfit
        omega
    · rintro ⟨⟨hnul, hxs⟩, hfirst, hfit⟩
      refine ⟨⟨hnul, hfirst, by omega, by omega⟩, hxs, hlater, Or.inr ?_⟩
      rw [nextExecArgument]
      dsimp only
      omega

/-- The arguments of a command. -/
def execArgv : ByteParser (List (List UInt8)) := do
  let argv ← array execArgument 64 ⟨0, 0, 1⟩
  check (argv.1 ≠ [] && argv.2.taken ≤ execArgvBytesMax)
  return argv.1

/-- How long the text of a list is. -/
theorem length_listText (xs : List Text) (hne : xs ≠ []) :
    (encode (listText (xs.map quoted))).length = quotedSizes xs + 1 := by
  have hjoin : (encode (commaJoin (xs.map quoted))).length + 1 = quotedSizes xs := by
    induction xs with
    | nil => exact absurd rfl hne
    | cons x xs ih =>
      have hsum : quotedSizes (x :: xs) = (encode (quoted x)).length + 1 + quotedSizes xs :=
        List.sum_cons
      rcases eq_or_ne xs [] with rfl | hxs
      · rfl
      · have hcomma : (encode [',']).length = 1 := rfl
        rw [List.map_cons, commaJoin_cons_ne (by simpa using hxs), ← List.singleton_append,
          Utf8.encode_append, Utf8.encode_append, List.length_append, List.length_append, hcomma,
          hsum, ← ih hxs]
        omega
  have hone : (encode ['[']).length = 1 ∧ (encode [']']).length = 1 := ⟨rfl, rfl⟩
  rw [listText, ← List.singleton_append, Utf8.encode_append, Utf8.encode_append,
    List.length_append, List.length_append, hone.1, hone.2, ← hjoin]
  omega

/-- The characters of the arguments of a command. -/
def argvTexts (argv : {l : List String // ExecArgv l}) : List Text := argv.1.map String.toList

theorem map_quoted (xs : List Text) :
    xs.map quoted = (xs.map String.ofList).map quote := by
  rw [List.map_map]
  exact List.map_congr_left fun x _ => (quote_ofList x).symm

theorem execArgv_iff {xs : List Text} : ExecArgv (xs.map String.ofList) ↔
    (1 ≤ xs.length ∧ xs.length ≤ 64) ∧ ((∀ x ∈ xs, '\x00' ∉ x) ∧ xs.head? ≠ some []) ∧
      (encode (listText (xs.map quoted))).length ≤ execArgvBytesMax := by
  have hbytes : Control.canonicalJsonBytes (.list ((xs.map String.ofList).map .str)) =
      .ok (encodeUtf8 (listText (xs.map quoted))) := by
    rw [Control.canonicalJsonBytes, (spells_strings _).dumps_eq, map_quoted]
  have hnul : (∀ a ∈ xs.map String.ofList, '\x00' ∉ a.toList) ↔ ∀ x ∈ xs, '\x00' ∉ x := by
    rw [List.forall_mem_map]
    exact forall₂_congr fun x _ => by rw [String.toList_ofList]
  have hhead : (xs.map String.ofList).head? = some "" ↔ xs.head? = some [] := by
    cases xs with
    | nil => exact iff_of_false (by rintro ⟨⟩) (by rintro ⟨⟩)
    | cons x xs =>
      rw [List.map_cons, List.head?_cons, List.head?_cons, Option.some.injEq, Option.some.injEq,
        ← String.toList_inj, String.toList_ofList]
      rfl
  rw [ExecArgv, List.length_map, hnul, Ne, hhead, hbytes, ← encodeUtf8_eq]
  simp only [Except.ok.injEq, exists_eq_left']
  exact Iff.rfl

/-- **The arguments that are read** are those that the host sends. -/
theorem execArgv_eq_some {out : List (List UInt8)} : execArgv l = some (out, r) ↔
    ∃ argv : {l : List String // ExecArgv l}, out = (argvTexts argv).map encode ∧
      l = encode (listText (argv.1.map quote)) ++ r := by
  simp only [execArgv, bind_eq_some, check_eq_some, pure_eq_some, Prod.exists,
    array_eq_some reads_execArgument, @chain_execArgument ⟨0, 0, 1⟩ (Nat.zero_le 1),
    Bool.and_eq_true, decide_eq_true_eq]
  constructor
  · rintro ⟨_, _, _, ⟨xs, hlen, ⟨hnul, hfirst, -⟩, rfl, rfl, rfl⟩, _, _, ⟨⟨hne, htaken⟩, rfl⟩, rfl,
      rfl⟩
    -- The loop counts the size of the text that it reads, which is what the host bounds.
    have hxs : xs ≠ [] := fun h => hne (by rw [h]; rfl)
    rw [taken_foldl] at htaken
    have hargv : ExecArgv (xs.map String.ofList) := execArgv_iff.mpr
      ⟨⟨List.length_pos_of_ne_nil hxs, hlen⟩, ⟨hnul, fun h => hfirst ⟨trivial, h⟩⟩, by
        rw [length_listText xs hxs]
        dsimp only at htaken
        omega⟩
    have htexts : argvTexts ⟨xs.map String.ofList, hargv⟩ = xs := by
      rw [argvTexts, List.map_map]
      exact List.map_id'' (fun _ => String.toList_ofList) xs
    exact ⟨⟨_, hargv⟩, by rw [htexts], by rw [map_quoted]⟩
  · rintro ⟨argv, rfl, rfl⟩
    have htexts : (argvTexts argv).map String.ofList = argv.1 := by
      rw [argvTexts, List.map_map]
      exact List.map_id'' (fun _ => String.ofList_toList) argv.1
    have hargv := argv.2
    rw [← htexts, execArgv_iff] at hargv
    obtain ⟨⟨hpos, hlen⟩, ⟨hnul, hfirst⟩, hsize⟩ := hargv
    have hne := List.ne_nil_of_length_pos hpos
    have htaken : 1 + quotedSizes (argvTexts argv) ≤ execArgvBytesMax := by
      rw [length_listText _ hne] at hsize
      omega
    refine ⟨_, _, r, ⟨argvTexts argv, hlen, ⟨hnul, fun h => hfirst h.2, Or.inr ?_⟩, rfl, rfl, ?_⟩,
      (), r, ⟨⟨?_, ?_⟩, rfl⟩, rfl, rfl⟩
    · omega
    · rw [map_quoted, htexts]
    · rwa [Ne, List.map_eq_nil_iff]
    · rwa [taken_foldl]

/-! ### Signed messages -/

/-- `expected_kind` -/
inductive HostKind
  | keyAck | reconnect | stop | exec
  deriving DecidableEq

def HostKind.text : HostKind → String
  | keyAck => "KEY_ACK"
  | reconnect => "RECONNECT"
  | stop => "STOP"
  | exec => "EXEC"

/-- What is read of a signed message: the nonce, the arguments and the time limit of a command, the
request and the number of the message. -/
structure SignedHost where
  nonce : Hex32
  argv : List (List UInt8)
  timeoutMs : ℕ
  requestId : ℕ
  wire : ℕ

namespace LifecycleSession

/-- The nonce is the one of the connection, or a fresh one. -/
def nonceOk (s : LifecycleSession) (kind : HostKind) (nonce : Hex32) : Bool :=
  if kind = .reconnect then !s.nonceSeen (encode nonce.1.toList) else s.hostNonce = some nonce

/-- The payload of a signed message. -/
def signedPayload (s : LifecycleSession) :
    HostKind → ByteParser (List (List UInt8) × ℕ)
  | .keyAck => do
    expect '{'
    expect '}'
    return ([], 0)
  | .reconnect => do
    sameField '{' "boundary_ack_digest" (s.boundaryDigest.map Subtype.val)
    sameField ',' "boundary_id" (s.boundaryId.map Subtype.val)
    expect '}'
    return ([], 0)
  | .stop => do
    let signal ← field '{' "signal" uintValue
    check (signal = 15)
    expect '}'
    return ([], 0)
  | .exec => do
    check (s.state = .ready && s.stopRequestId = 0 && !s.remoteExec.pending &&
      !s.remoteExec.active)
    let argv ← field '{' "argv" execArgv
    let timeoutMs ← uintField "timeout_ms" fun n => 1 ≤ n && n ≤ execTimeoutMsMax
    expect '}'
    return (argv, timeoutMs)

/-- What the message replies to, and its request. -/
def signedRequest (s : LifecycleSession) (kind : HostKind) : ByteParser ℕ := do
  if kind = .keyAck then
    let _ ← uintField "reply_to" (· = s.bootstrapWireSequence)
    return 0
  else
    check (← field ',' "reply_to" (exactLiteral "null"))
    uintField "request_id" counterOk

/-- The body of a signed message. -/
def signedBody (s : LifecycleSession) (i : BootIdentity) (kind : HostKind) :
    ByteParser SignedHost := do
  sameField '{' "boot_attempt_id" (some i.bootAttemptId.1)
  sameField ',' "boot_generation" (some i.bootGeneration.1)
  sameField ',' "domain_core_digest" (some i.binding.domainCoreDigest.1)
  let _ ← uintField "epoch" (· = s.epoch)
  -- the digits of a fresh nonce are looked at last
  let nonce ← readField ',' "host_nonce" validNonce isHex32
  check (s.nonceOk kind nonce)
  fixedField ',' "kind" kind.text
  let command ← field ',' "payload" (s.signedPayload kind)
  let requestId ← s.signedRequest kind
  sameField ',' "run_id" (some i.binding.runId.1)
  fixedField ',' "schema" (String.ofList ociControlProtocolV2)
  sameField ',' "stage1_artifact_digest" (some i.binding.stage1ArtifactDigest.1)
  let wire ← uintField "wire_sequence" counterOk
  expect '}'
  return ⟨nonce, command.1, command.2, requestId, wire⟩

/-- The authentication of a message: the name of the key and the code. -/
def signedMac : ByteParser (List UInt8 × List UInt8) := do
  let keyId ← field '{' "key_id" plainString
  let tag ← field ',' "tag" plainString
  expect '}'
  return (keyId.1, tag.1)

/-- The envelope of a signed message: what is read of the body, its bytes, and its
authentication. -/
def signedEnvelope (s : LifecycleSession) (i : BootIdentity) (kind : HostKind) :
    ByteParser ((SignedHost × List UInt8) × List UInt8 × List UInt8) := do
  let body ← field '{' "body" (withBytes (s.signedBody i kind))
  let mac ← field ',' "mac" signedMac
  expect '}'
  return (body, mac)

/-- The session once a RECONNECT is taken. -/
def afterReconnect (s : LifecycleSession) (h : SignedHost) : LifecycleSession :=
  { s with
    hostNonce := some h.nonce
    connectionOpenerRequestId := h.requestId
    connectionHasHello := true
    connected := true
    lastAcceptedHostWire := h.wire
    boundaryId := none
    boundaryDigest := none }

/-- What `parse_signed_host` does with a message that is authentic. -/
def takeSigned (s : LifecycleSession) (kind : HostKind) (h : SignedHost) :
    Option LifecycleSession :=
  if h.wire ≤ s.lastAcceptedHostWire then none
  else match kind with
    | .keyAck =>
      if s.epoch ≠ 1 ∨ s.lastAcceptedHostWire = 0x7fffffffffffffff ∨
          h.wire ≠ s.lastAcceptedHostWire + 1 then none
      else some s
    | .reconnect =>
      if s.requestSeen h.requestId then none
      else (s.rememberNonceRequest h.nonce h.requestId).map (·.afterReconnect h)
    | .stop => some s
    | .exec =>
      if s.requestSeen h.requestId then none
      else some { s with remoteExec := { s.remoteExec with
        process := { s.workload with argv := h.argv }
        requestId := h.requestId
        timeoutMs := h.timeoutMs } }

/-- `parse_signed_host`, with what it reads. A session whose names are not set reads nothing, since
no string holds their zeros. -/
def parseSignedHost (s : LifecycleSession) (kind : HostKind) (payload : List UInt8) :
    Option (LifecycleSession × SignedHost) := do
  let i ← s.identity
  if kind ≠ .reconnect ∧ !s.connectionHasHello then none
  else
    let p ← whole (s.signedEnvelope i kind) payload
    if !verifyLifecycleMac i p.1.2 p.2.1 p.2.2 "host-to-guest" "channel-frame" then none
    else return (← s.takeSigned kind p.1.1, p.1.1)

end LifecycleSession

end Palimpsest.Lifecycle
