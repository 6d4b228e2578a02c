import Palimpsest.Stage1.Envelope
import Palimpsest.Stage1.PlanText

/-!
# The transport that the host builds

The text of a plan is never refused by the encoder, so a transport can be built for every plan whose
text is not too long (`Palimpsest.Stage1.buildStage1Transport_eq_ok`). The verifier of the host
takes what is built, and what it takes is that and nothing else, unless two different texts have one
hash (`Palimpsest.Stage1.hostTransport_exact`).
-/

namespace Palimpsest.Stage1

open Json LittleEndian
open Control (encodeUtf8 decodeUtf8 decodeUtf8_encodeUtf8 isDigest digestOf)
open Utf8 (encode)
open Results (bind_eq_ok)

theorem require_eq_ok {ok : Bool} {e : Raised} {u : Unit} : require ok e = .ok u ↔ ok = true := by
  cases ok with
  | false => exact iff_of_false (by rintro ⟨⟩) (by decide)
  | true => exact iff_of_true rfl rfl

/-- Two different texts with one hash. -/
def Collide (s t : List UInt8) : Prop := s ≠ t ∧ Sha256.digest s = Sha256.digest t

/-- Different bytes with one digest have one hash. -/
theorem eq_or_collide {s t : List UInt8} (h : digestOf s = digestOf t) : s = t ∨ Collide s t := by
  rcases eq_or_ne s t with heq | hne
  · exact Or.inl heq
  · have htexts := String.ofList_injective (Subtype.mk.inj h)
    have hhex := List.append_cancel_left htexts
    have hhash := congrArg Control.fromHex hhex
    rw [Control.fromHex_hexText, Control.fromHex_hexText] at hhash
    exact Or.inr ⟨hne, hhash⟩

/-! ### The payload of a plan -/

/-- The text of a plan. -/
def OCIStage1Plan.text (p : OCIStage1Plan) : Text := p.toContents.text p.networkContract.text

/-- The payload of the transport of a plan. -/
def OCIStage1Plan.payload (p : OCIStage1Plan) : List UInt8 := encode p.text

theorem OCIStage1Plan.spells (p : OCIStage1Plan) : Spells p.toDict p.text :=
  spells_plan p.accepted p.networkContract

/-- The encoder does not refuse a plan. -/
theorem canonicalJsonBytes_toDict (p : OCIStage1Plan) :
    canonicalJsonBytes p.toDict = .ok p.payload := by
  rw [canonicalJsonBytes, p.spells.dumps_eq]
  dsimp only
  rw [encodeUtf8_eq, OCIStage1Plan.payload]

/-- A text that is not empty has bytes. -/
theorem one_le_length_payload (p : OCIStage1Plan) : 1 ≤ p.payload.length := by
  rw [Nat.one_le_iff_ne_zero, Ne, List.length_eq_zero_iff, OCIStage1Plan.payload,
    Utf8.encode_eq_nil]
  intro h
  have hobj : p.text = '{' :: _ := rfl
  rw [hobj] at h
  exact List.cons_ne_nil _ _ h

/-! ### Building -/

/-- The receipt of an artifact around a payload. -/
def receiptFor (payload : List UInt8) : Receipt :=
  ⟨(digestOf (envelope payload)).1, (envelope payload).length, (digestOf payload).1, payload.length⟩

theorem postInit_receiptFor {payload : List UInt8} (hpos : 1 ≤ payload.length)
    (hle : payload.length ≤ maxPayloadBytes) : (receiptFor payload).postInit = .ok () := by
  have hsize : (1 ≤ payload.length && payload.length ≤ maxPayloadBytes &&
      (envelope payload).length = aligned (headerSize + payload.length) &&
        (envelope payload).length ≤ maxTransportBytes) = true := by
    rw [length_envelope]
    simp only [Bool.and_eq_true, decide_eq_true_eq]
    exact ⟨⟨⟨hpos, hle⟩, trivial⟩, aligned_payload_le hle⟩
  simp only [Receipt.postInit, receiptFor, bind_eq_ok, require_eq_ok]
  exact ⟨(), (digestOf (envelope payload)).2, (), (digestOf payload).2, hsize⟩

theorem make_eq_ok {r : Receipt} {x : OCIStage1TransportReceipt} :
    OCIStage1TransportReceipt.make r = .ok x ↔ x.1 = r := by
  unfold OCIStage1TransportReceipt.make
  split
  · next h =>
    constructor
    · rintro ⟨⟩
      rfl
    · intro heq
      exact congrArg Except.ok (Subtype.ext heq.symm)
  · next e h =>
    refine iff_of_false (by rintro ⟨⟩) ?_
    rintro rfl
    rw [x.2] at h
    cases h

theorem receiptOf_eq_ok {artifact : List UInt8} {plan : OCIStage1Plan}
    {x : OCIStage1TransportReceipt} : receiptOf artifact plan = .ok x ↔
      x.1 = ⟨(digestOf artifact).1, artifact.length, (digestOf plan.payload).1,
        plan.payload.length⟩ := by
  rw [receiptOf, canonicalJsonBytes_toDict]
  exact make_eq_ok

theorem buildArtifactBytes_eq_ok {payload artifact : List UInt8} :
    buildArtifactBytes payload = .ok artifact ↔
      (1 ≤ payload.length ∧ payload.length ≤ maxPayloadBytes) ∧ artifact = envelope payload := by
  have hpure : ∀ a : List UInt8, (pure a : Except Raised (List UInt8)) = .ok artifact ↔
      artifact = a := fun a => ⟨fun h => (Except.ok.inj h).symm, fun h => congrArg Except.ok h.symm⟩
  simp only [buildArtifactBytes, bind_eq_ok, require_eq_ok, Bool.and_eq_true, decide_eq_true_eq,
    hpure]
  constructor
  · rintro ⟨-, hsize, -, -, rfl⟩
    exact ⟨hsize, rfl⟩
  · rintro ⟨hsize, rfl⟩
    refine ⟨(), hsize, (), ?_, rfl⟩
    rw [length_envelope]
    exact aligned_payload_le hsize.2

/-- What is built: the envelope around the text of the plan, with its receipt. -/
theorem buildStage1Transport_eq_ok {plan : OCIStage1Plan} {built : BuiltOCIStage1Transport} :
    buildStage1Transport plan = .ok built ↔ plan.payload.length ≤ maxPayloadBytes ∧
      built.artifact = envelope plan.payload ∧ built.receipt.1 = receiptFor plan.payload ∧
        built.stage1Plan = plan := by
  have hpos := one_le_length_payload plan
  simp only [buildStage1Transport, canonicalJsonBytes_toDict, bind_eq_ok, buildArtifactBytes_eq_ok,
    receiptOf_eq_ok]
  constructor
  · rintro ⟨payload, hpayload, artifact, ⟨hsize, rfl⟩, receipt, hreceipt, -, -, hbuilt⟩
    obtain rfl := Except.ok.inj hpayload
    obtain rfl := Except.ok.inj hbuilt
    exact ⟨hsize.2, rfl, hreceipt, rfl⟩
  · rintro ⟨hsize, hartifact, hreceipt, hplan⟩
    obtain ⟨artifact, receipt, stage1Plan⟩ := built
    dsimp only at hartifact hreceipt hplan
    subst hartifact hplan
    refine ⟨_, rfl, _, ⟨⟨hpos, hsize⟩, rfl⟩, receipt, hreceipt, (), ?_, rfl⟩
    simp only [BuiltOCIStage1Transport.postInit, canonicalJsonBytes_toDict, bind_eq_ok,
      buildArtifactBytes_eq_ok, receiptOf_eq_ok, require_eq_ok, Bool.and_eq_true, decide_eq_true_eq]
    exact ⟨_, rfl, _, ⟨⟨hpos, hsize⟩, rfl⟩, receipt, hreceipt, rfl, rfl⟩

/-! ### Verifying -/

/-- A payload is read as its value. -/
theorem loadPayload_eq_ok {payload : List UInt8} {value : Value} :
    loadPayload payload = .ok value ↔
      ∃ t, decodeUtf8 payload = some t ∧ loadsLast t = .ok value := by
  rw [loadPayload]
  cases hdecode : decodeUtf8 payload with
  | none => exact iff_of_false (by rintro ⟨⟩) (by rintro ⟨_, ⟨⟩, _⟩)
  | some t =>
    dsimp only
    cases hload : loadsLast t with
    | error e =>
      refine iff_of_false (by rintro ⟨⟩) ?_
      rintro ⟨t', ht, h⟩
      obtain rfl := Option.some.inj ht
      rw [hload] at h
      cases h
    | ok v =>
      constructor
      · rintro ⟨⟩
        exact ⟨t, rfl, hload⟩
      · rintro ⟨t', ht, h⟩
        obtain rfl := Option.some.inj ht
        rw [hload] at h
        obtain rfl := Except.ok.inj h
        rfl

/-- The text of a plan is read as its dictionary. -/
theorem loadPayload_payload (p : OCIStage1Plan) : loadPayload p.payload = .ok p.toDict := by
  rw [loadPayload_eq_ok, OCIStage1Plan.payload, ← encodeUtf8_eq, decodeUtf8_encodeUtf8]
  exact ⟨p.text, rfl, loadsLast_of_loads p.spells.loads_eq⟩

theorem canonicalPayload_eq_ok {value : Value} {payload : List UInt8} :
    canonicalPayload value = .ok payload ↔ canonicalJsonBytes value = .ok payload := by
  rw [canonicalPayload]
  cases canonicalJsonBytes value with
  | error e => exact iff_of_false (by rintro ⟨⟩) (by rintro ⟨⟩)
  | ok canonical => exact Iff.rfl

/-- What the verifier of the host has found out when it returns. -/
theorem verifyStage1Transport_eq_ok {artifact : List UInt8} {receipt : OCIStage1TransportReceipt}
    {expected p : OCIStage1Plan} : verifyStage1Transport artifact receipt expected = .ok p ↔
      p = expected ∧ ∃ payload value, (1 ≤ payload.length ∧ payload.length ≤ maxPayloadBytes) ∧
        artifact = envelope payload ∧ receipt.1 = receiptFor payload ∧
          loadPayload payload = .ok value ∧ canonicalJsonBytes value = .ok payload ∧
            value.pyEq expected.toDict = true ∧
            digestOf expected.payload = digestOf payload := by
  have hpure : (pure expected : Except Raised OCIStage1Plan) = .ok p ↔ p = expected :=
    ⟨fun h => (Except.ok.inj h).symm, fun h => congrArg Except.ok h.symm⟩
  simp only [verifyStage1Transport, bind_eq_ok, require_eq_ok, canonicalPayload_eq_ok,
    canonicalJsonBytes_toDict, hpure, Bool.and_eq_true, decide_eq_true_eq]
  constructor
  · rintro ⟨-, -, -, ⟨hartifact, hsize⟩, -, hheader, -, ⟨⟨⟨hhash, hpayload⟩, hlength⟩, hpadding⟩,
      value, hload, canonical, hcanonical, -, rfl, -, hvalue, expectedPayload, hexpected, -,
      hdigest, hp⟩
    have hzeros := List.eq_replicate_iff.mp hpadding
    -- A header that unpacks so, with its padding, is the envelope of its payload.
    obtain ⟨hpolicy, henvelope⟩ := eq_envelope_iff.mp ⟨⟨hheader, hhash, hzeros.2⟩, rfl⟩
    obtain rfl := Except.ok.inj hexpected
    refine ⟨hp, _, value, hpolicy, henvelope, ?_, hload, hcanonical, hvalue, ?_⟩
    · rw [receiptFor, ← henvelope, hartifact, hsize, hpayload, hlength]
    · exact Subtype.ext (hdigest.trans hpayload.symm)
  · rintro ⟨hp, payload, value, hpolicy, rfl, hreceipt, hload, hcanonical, hvalue, hdigest⟩
    have hbehind := payloadBehind_envelope payload
    have hunpack := unpackFrom_envelope hpolicy.2
    have henvelope := isEnvelope_envelope hpolicy.1 hpolicy.2
    have hlong := le_aligned (headerSize + payload.length)
    rw [hunpack, hbehind, hreceipt]
    refine ⟨(), ?_, (), ⟨rfl, rfl⟩, (), ?_, (), ⟨⟨⟨?_, rfl⟩, rfl⟩, ?_⟩, value, hload, payload,
      hcanonical, (), rfl, (), hvalue, _, rfl, (), congrArg Subtype.val hdigest, hp⟩
    · rw [length_envelope]
      exact ⟨⟨by omega, aligned_payload_le hpolicy.2⟩, aligned_mod _⟩
    · rw [← hunpack]
      exact henvelope.header
    · rfl
    · rw [List.eq_replicate_iff]
      refine ⟨rfl, ?_⟩
      rw [← hunpack]
      exact henvelope.padding

/-- What is built is verified. -/
theorem verify_of_build {plan : OCIStage1Plan} {built : BuiltOCIStage1Transport}
    (h : buildStage1Transport plan = .ok built) :
    verifyStage1Transport built.artifact built.receipt plan = .ok plan := by
  obtain ⟨hle, hartifact, hreceipt, -⟩ := buildStage1Transport_eq_ok.mp h
  exact verifyStage1Transport_eq_ok.mpr ⟨rfl, plan.payload, plan.toDict,
    ⟨one_le_length_payload plan, hle⟩, hartifact, hreceipt, loadPayload_payload plan,
    canonicalJsonBytes_toDict plan, plan.spells.pyEq_self, rfl⟩

/-- **The transport of the host.** What is built for a plan is verified, and it is all that is
verified for the plan, but for a text with the hash of the plan's own. -/
theorem hostTransport_exact (plan p : OCIStage1Plan) (artifact : List UInt8)
    (receipt : OCIStage1TransportReceipt) :
    (∀ built, buildStage1Transport plan = .ok built →
      verifyStage1Transport built.artifact built.receipt plan = .ok plan) ∧
    (verifyStage1Transport artifact receipt plan = .ok p →
      p = plan ∧ (buildStage1Transport plan = .ok ⟨artifact, receipt, plan⟩ ∨
        ∃ payload, Collide plan.payload payload ∧ artifact = envelope payload ∧
          receipt.1 = receiptFor payload)) := by
  refine ⟨fun built hbuilt => verify_of_build hbuilt, fun h => ?_⟩
  obtain ⟨hp, payload, -, hpolicy, hartifact, hreceipt, -, -, -, hdigest⟩ :=
    verifyStage1Transport_eq_ok.mp h
  refine ⟨hp, ?_⟩
  rcases eq_or_collide hdigest with rfl | hcollide
  · exact Or.inl (buildStage1Transport_eq_ok.mpr ⟨hpolicy.2, hartifact, hreceipt, rfl⟩)
  · exact Or.inr ⟨payload, hcollide, hartifact, hreceipt⟩

end Palimpsest.Stage1
