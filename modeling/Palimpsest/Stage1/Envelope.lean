import Palimpsest.Stage1.Transport

/-!
# Envelopes

Every reader of a transport looks at the header first, and then at the payload and the padding that
the header announces. Bytes that pass are an envelope, and there is one envelope for each payload
(`Palimpsest.Stage1.eq_envelope_iff`): nothing is left open by the checks. What the host builds, it
verifies (`Palimpsest.Stage1.verify_built`).
-/

namespace Palimpsest.Stage1

open LittleEndian
open Control (digestOf)

/-! ### Sizes -/

theorem aligned_eq (size : ℕ) : aligned size = (size + 4095) / 4096 * 4096 := by
  rw [aligned, alignment]
  omega

theorem le_aligned (size : ℕ) : size ≤ aligned size := by
  rw [aligned_eq]
  omega

theorem aligned_mod (size : ℕ) : aligned size % alignment = 0 := Nat.mul_mod_left _ _

theorem aligned_le {size blocks : ℕ} (h : size ≤ blocks * 4096) : aligned size ≤ blocks * 4096 := by
  rw [aligned_eq]
  omega

/-- A payload fits when it is not too long. -/
theorem aligned_payload_le {n : ℕ} (h : n ≤ maxPayloadBytes) :
    aligned (headerSize + n) ≤ maxTransportBytes := by
  have hblocks : maxTransportBytes = 513 * 4096 := rfl
  rw [hblocks]
  refine aligned_le ?_
  rw [maxPayloadBytes] at h
  rw [headerSize]
  omega

theorem length_magic : magic.length = 16 := rfl

theorem length_pack {h : Header} (hmagic : h.magic.length = 16)
    (hhash : h.payloadHash.length = 32) : h.pack.length = headerSize := by
  simp only [Header.pack, List.length_append, length_bytes, hmagic, hhash, headerSize]

theorem length_header (payload : List UInt8) : (headerOf payload).pack.length = headerSize :=
  length_pack length_magic (Sha256.length_digest payload)

theorem length_envelope (payload : List UInt8) :
    (envelope payload).length = aligned (headerSize + payload.length) := by
  have hle := le_aligned (headerSize + payload.length)
  simp only [envelope, List.length_append, List.length_replicate, length_header]
  omega

/-! ### Headers -/

/-- A header is read back. -/
theorem unpackFrom_pack {h : Header} (hmagic : h.magic.length = 16)
    (hhash : h.payloadHash.length = 32) (hversion : h.version < 256 ^ 4)
    (hheader : h.headerSize < 256 ^ 4) (hpayload : h.payloadSize < 256 ^ 8) (rest : List UInt8) :
    Header.unpackFrom (h.pack ++ rest) = h := by
  obtain ⟨magic, version, headerSize, payloadSize, payloadHash⟩ := h
  dsimp only at hmagic hhash hversion hheader hpayload
  have h₁ := length_bytes 4 version
  have h₂ := length_bytes 4 headerSize
  have h₃ := length_bytes 8 payloadSize
  simp only [Header.unpackFrom, Header.pack, List.append_assoc, Header.mk.injEq]
  refine ⟨List.take_left' hmagic, ?_, ?_, ?_, ?_⟩
  · rw [List.drop_left' hmagic, List.take_left' h₁, value_bytes hversion]
  · rw [← List.append_assoc, List.drop_left' (by rw [List.length_append, hmagic, h₁]),
      List.take_left' h₂, value_bytes hheader]
  · rw [← List.append_assoc, ← List.append_assoc,
      List.drop_left' (by rw [List.length_append, List.length_append, hmagic, h₁, h₂]),
      List.take_left' h₃, value_bytes hpayload]
  · rw [← List.append_assoc, ← List.append_assoc, ← List.append_assoc,
      List.drop_left' (by simp only [List.length_append, hmagic, h₁, h₂, h₃]),
      List.take_left' hhash]

/-- The bytes of a header are those it is read from. -/
theorem pack_unpackFrom {artifact : List UInt8} (h : headerSize ≤ artifact.length) :
    (Header.unpackFrom artifact).pack = artifact.take headerSize := by
  rw [headerSize] at h ⊢
  have hversion : ((artifact.drop 16).take 4).length = 4 := by
    rw [List.length_take, List.length_drop]
    omega
  have hheader : ((artifact.drop 20).take 4).length = 4 := by
    rw [List.length_take, List.length_drop]
    omega
  have hpayload : ((artifact.drop 24).take 8).length = 8 := by
    rw [List.length_take, List.length_drop]
    omega
  have h₁ := bytes_value ((artifact.drop 16).take 4)
  have h₂ := bytes_value ((artifact.drop 20).take 4)
  have h₃ := bytes_value ((artifact.drop 24).take 8)
  rw [hversion] at h₁
  rw [hheader] at h₂
  rw [hpayload] at h₃
  rw [Header.pack, Header.unpackFrom, h₁, h₂, h₃, ← List.take_add, ← List.take_add, ← List.take_add,
    ← List.take_add]

/-! ### Envelopes -/

/-- The payload of an envelope is read back. -/
theorem unpackFrom_envelope {payload : List UInt8} (h : payload.length ≤ maxPayloadBytes) :
    Header.unpackFrom (envelope payload) = headerOf payload := by
  rw [envelope, List.append_assoc]
  have hversion : version < 256 ^ 4 := by decide
  have hheader : headerSize < 256 ^ 4 := by decide
  have hmost : maxPayloadBytes < 256 ^ 8 := by decide
  exact unpackFrom_pack length_magic (Sha256.length_digest payload) hversion hheader
    (h.trans_lt hmost) _

theorem payloadBehind_envelope (payload : List UInt8) :
    payloadBehind (headerOf payload) (envelope payload) = payload := by
  have hsize : (headerOf payload).headerSize = headerSize := rfl
  have hpayload : (headerOf payload).payloadSize = payload.length := rfl
  rw [payloadBehind, envelope, List.append_assoc, hsize, List.drop_left' (length_header payload),
    hpayload, List.take_left' rfl]

theorem paddingBehind_envelope (payload : List UInt8) :
    paddingBehind (headerOf payload) (envelope payload) =
      List.replicate ((envelope payload).length - headerSize - payload.length) 0 := by
  have hlength : (headerOf payload).headerSize + (headerOf payload).payloadSize =
      ((headerOf payload).pack ++ payload).length := by
    rw [List.length_append, length_header]
    rfl
  rw [paddingBehind, length_envelope, hlength, envelope, List.drop_left' rfl, length_header]

/-- What every reader of a transport checks of its bytes. -/
structure IsEnvelope (artifact : List UInt8) : Prop where
  header : headerPolicyOk (Header.unpackFrom artifact) artifact.length = true
  payloadHash : Sha256.digest (payloadBehind (Header.unpackFrom artifact) artifact) =
    (Header.unpackFrom artifact).payloadHash
  padding : ∀ b ∈ paddingBehind (Header.unpackFrom artifact) artifact, b = 0

/-- What a header that passes says. -/
theorem headerPolicyOk_iff {h : Header} {length : ℕ} : headerPolicyOk h length = true ↔
    (h.magic = magic ∧ h.version = version ∧ h.headerSize = headerSize) ∧
      (1 ≤ h.payloadSize ∧ h.payloadSize ≤ maxPayloadBytes) ∧
        aligned (headerSize + h.payloadSize) = length := by
  simp only [headerPolicyOk, Bool.and_eq_true, decide_eq_true_eq]
  constructor
  · rintro ⟨⟨⟨⟨hmagic, hversion⟩, hsize⟩, hpayload⟩, haligned⟩
    rw [hsize] at haligned
    exact ⟨⟨hmagic, hversion, hsize⟩, hpayload, haligned⟩
  · rintro ⟨⟨hmagic, hversion, hsize⟩, hpayload, haligned⟩
    rw [← hsize] at haligned
    exact ⟨⟨⟨⟨hmagic, hversion⟩, hsize⟩, hpayload⟩, haligned⟩

/-- **Bytes that pass the checks are an envelope**, of the payload that they announce. -/
theorem eq_envelope_of_isEnvelope {artifact : List UInt8} (h : IsEnvelope artifact) :
    artifact = envelope (payloadBehind (Header.unpackFrom artifact) artifact) := by
  obtain ⟨⟨hmagic, hversion, hsize⟩, -, haligned⟩ := headerPolicyOk_iff.mp h.header
  have hhash := h.payloadHash
  have hzero := h.padding
  generalize hu : Header.unpackFrom artifact = header at hmagic hversion hsize haligned hhash hzero
  have hlong : headerSize + header.payloadSize ≤ artifact.length := haligned ▸ le_aligned _
  have hpayload : (payloadBehind header artifact).length = header.payloadSize := by
    rw [payloadBehind, hsize, List.length_take, List.length_drop]
    omega
  have hfront : (headerOf (payloadBehind header artifact)).pack = artifact.take headerSize := by
    rw [← pack_unpackFrom ((Nat.le_add_right _ _).trans hlong), hu, headerOf, hpayload, hhash,
      ← hmagic, ← hversion, ← hsize]
  have hrest : List.replicate (artifact.length - headerSize - header.payloadSize) 0 =
      artifact.drop (headerSize + header.payloadSize) := by
    have hzeros := List.eq_replicate_of_mem hzero
    rw [paddingBehind, hsize, List.length_drop] at hzeros
    rw [hzeros, Nat.sub_sub]
  rw [envelope, length_header, hpayload, haligned, hfront, hrest, payloadBehind, hsize,
    ← List.take_add, List.take_append_drop]

theorem isEnvelope_envelope {payload : List UInt8} (hpos : 1 ≤ payload.length)
    (h : payload.length ≤ maxPayloadBytes) : IsEnvelope (envelope payload) where
  header := by
    rw [unpackFrom_envelope h, headerPolicyOk_iff]
    exact ⟨⟨rfl, rfl, rfl⟩, ⟨hpos, h⟩, (length_envelope payload).symm⟩
  payloadHash := by
    rw [unpackFrom_envelope h, payloadBehind_envelope]
    rfl
  padding := by
    intro b hb
    rw [unpackFrom_envelope h, paddingBehind_envelope] at hb
    exact List.eq_of_mem_replicate hb

/-- The envelopes are the bytes that pass the checks. -/
theorem eq_envelope_iff {artifact payload : List UInt8} :
    (IsEnvelope artifact ∧ payload = payloadBehind (Header.unpackFrom artifact) artifact) ↔
      (1 ≤ payload.length ∧ payload.length ≤ maxPayloadBytes) ∧ artifact = envelope payload := by
  constructor
  · rintro ⟨h, rfl⟩
    refine ⟨?_, eq_envelope_of_isEnvelope h⟩
    obtain ⟨⟨-, -, hsize⟩, hpayload, haligned⟩ := headerPolicyOk_iff.mp h.header
    have hlong : headerSize + (Header.unpackFrom artifact).payloadSize ≤ artifact.length :=
      haligned ▸ le_aligned _
    have hlength : (payloadBehind (Header.unpackFrom artifact) artifact).length =
        (Header.unpackFrom artifact).payloadSize := by
      rw [payloadBehind, hsize, List.length_take, List.length_drop]
      omega
    rw [hlength]
    exact hpayload
  · rintro ⟨⟨hpos, hle⟩, rfl⟩
    refine ⟨isEnvelope_envelope hpos hle, ?_⟩
    rw [unpackFrom_envelope hle, payloadBehind_envelope]

end Palimpsest.Stage1
