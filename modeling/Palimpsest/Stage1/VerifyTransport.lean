import Mathlib.Data.Nat.Bitwise
import Palimpsest.Stage1.HostTransport
import Palimpsest.Stage1.PlanParser

/-!
# The transport that the guest takes

The guest reads the device that the command line names: the header, as much as the header says, and
nothing that it says without a check. What it takes is a device whose bytes are the envelope around
the text of a plan (`Palimpsest.Stage1.Init.verifyTransport_eq_ok`), and a guest comes to
its plan in one way only (`Palimpsest.Stage1.Init.bootPlan_eq_ok`).

The answers of the kernel about the identity of the device are put together in two: those before
the bytes are read, and those after.
-/

namespace Palimpsest.Stage1.Init

open LittleEndian
open Guest (Bindings)
open Utf8 (encode)
open Results (bind_eq_ok)

/-! ### Words -/

/-- `little32` -/
def little32 : List UInt8 → UInt32
  | a :: b :: c :: d :: _ =>
    a.toUInt32 ||| b.toUInt32 <<< 8 ||| c.toUInt32 <<< 16 ||| d.toUInt32 <<< 24
  | _ => 0

/-- `little64` -/
def little64 (p : List UInt8) : UInt64 :=
  (little32 p).toUInt64 ||| (little32 (p.drop 4)).toUInt64 <<< 32

/-- A number in front of one that is shifted past it. -/
theorem or_shiftLeft {a i : ℕ} (h : a < 2 ^ i) (b : ℕ) : a ||| b <<< i = a + 2 ^ i * b := by
  rw [Nat.or_comm, ← Nat.shiftLeft_add_eq_or_of_lt h, Nat.shiftLeft_eq, Nat.add_comm, Nat.mul_comm]

theorem toNat_little32 {p : List UInt8} (h : 4 ≤ p.length) :
    (little32 p).toNat = value (p.take 4) := by
  match p, h with
  | a :: b :: c :: d :: rest, _ =>
    have ha := a.toNat_lt
    have hb := b.toNat_lt
    have hc := c.toNat_lt
    have hd := d.toNat_lt
    have h₁ : a.toNat ||| b.toNat <<< 8 = a.toNat + 2 ^ 8 * b.toNat := or_shiftLeft ha _
    have h₂ : a.toNat + 2 ^ 8 * b.toNat ||| c.toNat <<< 16 =
        a.toNat + 2 ^ 8 * b.toNat + 2 ^ 16 * c.toNat := or_shiftLeft (by omega) _
    have h₃ : a.toNat + 2 ^ 8 * b.toNat + 2 ^ 16 * c.toNat ||| d.toNat <<< 24 =
        a.toNat + 2 ^ 8 * b.toNat + 2 ^ 16 * c.toNat + 2 ^ 24 * d.toNat := or_shiftLeft (by omega) _
    have hb' : b.toNat <<< 8 % 2 ^ 32 = b.toNat <<< 8 := Nat.mod_eq_of_lt (by
      rw [Nat.shiftLeft_eq]; omega)
    have hc' : c.toNat <<< 16 % 2 ^ 32 = c.toNat <<< 16 := Nat.mod_eq_of_lt (by
      rw [Nat.shiftLeft_eq]; omega)
    have hd' : d.toNat <<< 24 % 2 ^ 32 = d.toNat <<< 24 := Nat.mod_eq_of_lt (by
      rw [Nat.shiftLeft_eq]; omega)
    have hword : (little32 (a :: b :: c :: d :: rest)).toNat =
        a.toNat ||| b.toNat <<< 8 % 2 ^ 32 ||| c.toNat <<< 16 % 2 ^ 32 |||
        d.toNat <<< 24 % 2 ^ 32 := by
      simp only [little32, UInt32.toNat_or, UInt32.toNat_shiftLeft, UInt8.toNat_toUInt32]
      rfl
    rw [hword, hb', hc', hd', h₁, h₂, h₃]
    simp only [List.take_succ_cons, List.take_zero, value]
    omega

theorem toNat_little64 {p : List UInt8} (h : 8 ≤ p.length) :
    (little64 p).toNat = value (p.take 8) := by
  have hdrop : 4 ≤ (p.drop 4).length := by
    rw [List.length_drop]
    omega
  have hlow := toNat_little32 (p := p) (by omega)
  have hhigh := toNat_little32 hdrop
  have hlow_lt := (little32 p).toNat_lt
  have hhigh_lt := (little32 (p.drop 4)).toNat_lt
  have hmod : (little32 (p.drop 4)).toNat <<< 32 % 2 ^ 64 = (little32 (p.drop 4)).toNat <<< 32 :=
    Nat.mod_eq_of_lt (by rw [Nat.shiftLeft_eq]; omega)
  have hword : (little64 p).toNat =
      (little32 p).toNat ||| (little32 (p.drop 4)).toNat <<< 32 % 2 ^ 64 := by
    simp only [little64, UInt64.toNat_or, UInt64.toNat_shiftLeft, UInt32.toNat_toUInt64]
    rfl
  have hsplit : p.take 8 = p.take 4 ++ (p.drop 4).take 4 := (List.take_add (i := 4) (j := 4))
  have hfour : (p.take 4).length = 4 := by
    rw [List.length_take]
    omega
  rw [hword, hmod, or_shiftLeft hlow_lt, hlow, hhigh, hsplit, value_append, hfour]
  rfl

/-- Numbers without their last bits. -/
theorem and_not_mask (x : ℕ) (h : x < 2 ^ 64) :
    x &&& (2 ^ 64 - (2 ^ 12 - 1 + 1)) = x / 4096 * 4096 := by
  have hfour : x / 4096 * 4096 = x >>> 12 <<< 12 := by
    rw [Nat.shiftLeft_eq, Nat.shiftRight_eq_div_pow]
  rw [hfour]
  apply Nat.eq_of_testBit_eq
  intro i
  rw [Nat.testBit_and, Nat.testBit_two_pow_sub_succ (by decide), Nat.testBit_two_pow_sub_one,
    Nat.testBit_shiftLeft, Nat.testBit_shiftRight]
  by_cases hi : i < 12
  · simp [hi]
  · have hlt : ¬i < 64 → x.testBit i = false := by
      intro h64
      exact Nat.testBit_lt_two_pow (h.trans_le (Nat.pow_le_pow_right (by decide) (by omega)))
    have hsum : 12 + (i - 12) = i := by omega
    by_cases h64 : i < 64
    · simp [hi, h64, hsum, Nat.not_lt.mp hi]
    · simp [hlt h64, hsum]

/-- `(size + 4095) & ~(u64)4095`, of a size that is not too large. -/
theorem toNat_aligned {size : UInt64} (h : size.toNat < 2 ^ 32) :
    ((size + 4095) &&& ~~~4095).toNat = aligned size.toNat := by
  have hsum : (size + 4095).toNat = size.toNat + 4095 := by
    have hblock : (4095 : UInt64).toNat = 4095 := by decide
    rw [UInt64.toNat_add, hblock]
    exact Nat.mod_eq_of_lt (by omega)
  have hmask : (~~~4095 : UInt64).toNat = 2 ^ 64 - (2 ^ 12 - 1 + 1) := by decide
  rw [UInt64.toNat_and, hmask, and_not_mask _ (UInt64.toNat_lt _), hsum, aligned_eq]

/-! ### The verifier -/

/-- `PAYLOAD_MAX` -/
def payloadMax : UInt64 := 2 * 1024 * 1024

/-- `ARTIFACT_MAX` -/
def artifactMax : UInt64 := payloadMax + 4096

/-- The code that the guest ends with. -/
inductive Exit
  | cmdline
  | discovery
  | transport
  | plan
  deriving DecidableEq

/-- The device with the transport. -/
structure TransportDevice where
  /-- The device is a file of a test. -/
  fixture : Bool
  /-- The size with which the device was found. -/
  size : ℕ
  content : List UInt8
  /-- What was opened is the device that was found, and it is read-only. -/
  found : Bool
  /-- It still is, after the bytes are read, and its serial is that of the command line. -/
  settled : Bool

/-- A check that ends the guest. -/
def orExit (ok : Bool) (e : Exit) : Except Exit Unit := if ok then .ok () else .error e

/-- A value that has to be there. -/
def orExitWith {α : Type} (o : Option α) (e : Exit) : Except Exit α :=
  match o with
  | some a => .ok a
  | none => .error e

/-- So many bytes from the front. -/
def pread (content : List UInt8) (size : ℕ) : Except Exit (List UInt8) :=
  if size ≤ content.length then .ok (content.take size) else .error .transport

/-- `digest_text` -/
def digestText (p : List UInt8) : List UInt8 :=
  Guest.ascii "sha256:" ++ (Sha256.digest p).flatMap Guest.hexPair

/-- `verify_transport` -/
def verifyTransport (device : TransportDevice) (b : Bindings) : Except Exit ParsedPlan := do
  orExit device.found .transport
  orExit (device.fixture || device.content.length = device.size) .transport
  let header ← pread device.content 64
  orExit (header.take 16 = Guest.ascii "PALIMPSEST-S1" ++ [0, 0, 0] &&
    little32 (header.drop 16) = 1 && little32 (header.drop 20) = 64) .transport
  let payloadSize := little64 (header.drop 24)
  orExit (payloadSize ≠ 0 && payloadSize ≤ payloadMax) .transport
  let total := (64 + payloadSize + 4095) &&& ~~~4095
  orExit (total ≤ artifactMax && (device.fixture || device.size = total.toNat) &&
    (!device.fixture || device.content.length = total.toNat)) .transport
  let artifact ← pread device.content total.toNat
  orExit (device.fixture || device.settled) .transport
  orExit (digestText artifact = b.transportDigest) .transport
  let payload := (artifact.drop 64).take payloadSize.toNat
  orExit (Sha256.digest payload = (artifact.drop 32).take 32) .transport
  orExit ((artifact.drop (64 + payloadSize.toNat)).all (· = 0)) .transport
  orExitWith (parsePlan b payload) .plan

theorem orExit_eq_ok {ok : Bool} {e : Exit} {u : Unit} : orExit ok e = .ok u ↔ ok = true := by
  cases ok with
  | false => exact iff_of_false (by rintro ⟨⟩) (by decide)
  | true => exact iff_of_true rfl rfl

theorem orExitWith_eq_ok {α : Type} {o : Option α} {e : Exit} {a : α} :
    orExitWith o e = .ok a ↔ o = some a := by
  cases o with
  | none => exact iff_of_false (by rintro ⟨⟩) (by rintro ⟨⟩)
  | some b => rw [orExitWith, Except.ok.injEq, Option.some.injEq]

theorem pread_eq_ok {content : List UInt8} {size : ℕ} {x : List UInt8} :
    pread content size = .ok x ↔ size ≤ content.length ∧ x = content.take size := by
  rw [pread]
  split
  · next h => exact ⟨fun heq => ⟨h, (Except.ok.inj heq).symm⟩,
      fun heq => congrArg Except.ok heq.2.symm⟩
  · next h => exact iff_of_false (by rintro ⟨⟩) fun heq => h heq.1

theorem digestText_eq (p : List UInt8) : digestText p = encode (Control.digestOf p).1.toList := by
  have htext : (Control.digestOf p).1.toList =
      "sha256:".toList ++ Control.hexText (Sha256.digest p) := String.toList_ofList
  have hprefix := ascii_eq_encode (show IsAscii "sha256:".toList by decide)
  rw [htext, Utf8.encode_append, encode_hexText, digestText, hprefix]

/-- The kernel's answers are those about the device that the command line names. -/
structure TransportDevice.Trusted (device : TransportDevice) : Prop where
  found : device.found = true
  size : device.fixture = true ∨ device.content.length = device.size
  settled : device.fixture = true ∨ device.settled = true

/-- The words at the front are those of the header. -/
theorem words_eq {content : List UInt8} (h : 64 ≤ content.length) :
    ((content.take 64).take 16 = (Header.unpackFrom content).magic ∧
      (little32 ((content.take 64).drop 16)).toNat = (Header.unpackFrom content).version ∧
        (little32 ((content.take 64).drop 20)).toNat = (Header.unpackFrom content).headerSize) ∧
          (little64 ((content.take 64).drop 24)).toNat =
          (Header.unpackFrom content).payloadSize := by
  have hlong : ∀ i k, i + k ≤ 64 → k ≤ ((content.take 64).drop i).length := by
    intro i k hik
    rw [List.length_drop, List.length_take]
    omega
  have hpart : ∀ i k, i + k ≤ 64 → ((content.take 64).drop i).take k = (content.drop i).take k := by
    intro i k hik
    rw [List.drop_take, List.take_take, Nat.min_eq_left (by omega)]
  refine ⟨⟨?_, ?_, ?_⟩, ?_⟩
  · rw [List.take_take]
    rfl
  · rw [toNat_little32 (hlong 16 4 (by decide)), hpart 16 4 (by decide), Header.unpackFrom]
  · rw [toNat_little32 (hlong 20 4 (by decide)), hpart 20 4 (by decide), Header.unpackFrom]
  · rw [toNat_little64 (hlong 24 8 (by decide)), hpart 24 8 (by decide), Header.unpackFrom]

/-- The size of the whole, of a payload that is not too large. -/
theorem toNat_total {payloadSize : UInt64} (h : payloadSize ≤ payloadMax) :
    ((64 + payloadSize + 4095) &&& ~~~4095).toNat = aligned (headerSize + payloadSize.toNat) := by
  have hmost : payloadSize.toNat ≤ 2097152 := UInt64.le_iff_toNat_le.mp h
  have hsum : (64 + payloadSize).toNat = headerSize + payloadSize.toNat := by
    have hheader : (64 : UInt64).toNat = headerSize := by decide
    rw [UInt64.toNat_add, hheader, headerSize]
    exact Nat.mod_eq_of_lt (by omega)
  rw [toNat_aligned, hsum]
  rw [hsum, headerSize]
  omega

theorem le_length_of_policy {content : List UInt8}
    (h : headerPolicyOk (Header.unpackFrom content) content.length = true) :
      64 ≤ content.length := by
  have hleast := le_aligned (headerSize + (Header.unpackFrom content).payloadSize)
  rw [(headerPolicyOk_iff.mp h).2.2, headerSize] at hleast
  omega

/-- What is read before the payload is looked at. -/
structure HeaderRead (device : TransportDevice) (payloadSize : UInt64) : Prop where
  long : 64 ≤ device.content.length
  magic : (device.content.take 64).take 16 = Guest.ascii "PALIMPSEST-S1" ++ [0, 0, 0]
  version : little32 ((device.content.take 64).drop 16) = 1
  headerSize : little32 ((device.content.take 64).drop 20) = 64
  size : little64 ((device.content.take 64).drop 24) = payloadSize
  range : payloadSize ≠ 0 ∧ payloadSize ≤ payloadMax
  total : device.content.length = ((64 + payloadSize + 4095) &&& ~~~4095).toNat

/-- The header that is read is one that every reader lets through. -/
theorem headerRead_iff {device : TransportDevice} {payloadSize : UInt64} :
    HeaderRead device payloadSize ↔
      headerPolicyOk (Header.unpackFrom device.content) device.content.length = true ∧
        (Header.unpackFrom device.content).payloadSize = payloadSize.toNat := by
  have hmagic : Guest.ascii "PALIMPSEST-S1" ++ [0, 0, 0] = magic := by decide
  have hone : (1 : UInt32).toNat = version := by decide
  have hsize : (64 : UInt32).toNat = headerSize := by decide
  have hmax : payloadMax.toNat = maxPayloadBytes := by decide
  have hzero : payloadSize ≠ 0 ↔ 1 ≤ payloadSize.toNat := by
    rw [Nat.one_le_iff_ne_zero, Ne, Ne, ← UInt64.toNat_inj]
    rfl
  have hrange : payloadSize ≤ payloadMax ↔ payloadSize.toNat ≤ maxPayloadBytes := by
    rw [UInt64.le_iff_toNat_le, hmax]
  rw [headerPolicyOk_iff]
  -- The bytes of a word are those of its number in little endian.
  constructor
  · rintro ⟨hlong, hm, hv, hh, hp, ⟨hne, hle⟩, htotal⟩
    obtain ⟨⟨hm', hv', hh'⟩, hp'⟩ := words_eq hlong
    rw [hp] at hp'
    refine ⟨⟨⟨?_, ?_, ?_⟩, ?_, ?_⟩, hp'.symm⟩
    · rw [← hm', hm, hmagic]
    · rw [← hv', hv, hone]
    · rw [← hh', hh, hsize]
    · rw [← hp']
      exact ⟨hzero.mp hne, hrange.mp hle⟩
    · rw [← hp', htotal, toNat_total hle]
  · rintro ⟨⟨⟨hm, hv, hh⟩, ⟨hpos, hle⟩, haligned⟩, hp⟩
    have hlong := le_length_of_policy (headerPolicyOk_iff.mpr ⟨⟨hm, hv, hh⟩, ⟨hpos, hle⟩, haligned⟩)
    obtain ⟨⟨hm', hv', hh'⟩, hp'⟩ := words_eq hlong
    rw [hp] at hpos hle
    refine ⟨hlong, ?_, ?_, ?_, ?_, ⟨hzero.mpr hpos, hrange.mpr hle⟩, ?_⟩
    · rw [hm', hm, hmagic]
    · rw [← UInt32.toNat_inj, hv', hv, hone]
    · rw [← UInt32.toNat_inj, hh', hh, hsize]
    · rw [← UInt64.toNat_inj, hp', hp]
    · rw [toNat_total (hrange.mpr hle), ← hp, haligned]

/-- The payload stands behind sixty-four bytes. -/
theorem behind_eq {content : List UInt8} {n : ℕ}
    (h : headerPolicyOk (Header.unpackFrom content) content.length = true)
    (hn : (Header.unpackFrom content).payloadSize = n) :
    payloadBehind (Header.unpackFrom content) content = (content.drop 64).take n := by
  rw [payloadBehind, (headerPolicyOk_iff.mp h).1.2.2, hn, headerSize]

theorem padding_eq {content : List UInt8} {n : ℕ}
    (h : headerPolicyOk (Header.unpackFrom content) content.length = true)
    (hn : (Header.unpackFrom content).payloadSize = n) :
    paddingBehind (Header.unpackFrom content) content = content.drop (64 + n) := by
  rw [paddingBehind, (headerPolicyOk_iff.mp h).1.2.2, hn, headerSize]

/-- A text that is not empty has bytes. -/
theorem one_le_length_text (p : GuestPlan) : 1 ≤ (encode p.text).length := by
  rw [Nat.one_le_iff_ne_zero, Ne, List.length_eq_zero_iff, Utf8.encode_eq_nil]
  exact List.cons_ne_nil _ _

/-- **What the guest takes**: a device with the envelope around the text of a plan that the command
line names, whose digest is named there too. -/
theorem verifyTransport_eq_ok {b : Bindings} (hb : Sound b) {device : TransportDevice}
    {x : ParsedPlan} : verifyTransport device b = .ok x ↔
      device.Trusted ∧ ∃ p : GuestPlan, p.BoundTo b ∧ x = p.view b ∧
        (encode p.text).length ≤ maxPayloadBytes ∧ device.content = envelope (encode p.text) ∧
          encode (Control.digestOf device.content).1.toList = b.transportDigest := by
  simp only [verifyTransport, bind_eq_ok, orExit_eq_ok, pread_eq_ok, orExitWith_eq_ok,
    digestText_eq, Bool.and_eq_true, Bool.or_eq_true, Bool.not_eq_true', decide_eq_true_eq,
    List.all_eq_true, parsePlan_eq_some hb]
  constructor
  · rintro ⟨-, hfound, -, hsize, header, ⟨hlong, rfl⟩, -, ⟨⟨hmagic, hversion⟩, hheader⟩, -, ⟨hne,
      hle⟩, -, ⟨⟨-, hdevice⟩, hfixture⟩, artifact, ⟨-, rfl⟩, -, hsettled, -, hdigest, -, hhash, -,
      hpadding, p, hp, hx, hpayload⟩
    -- On a live device the sizes of the kernel, the header and the content are one.
    have htotal : device.content.length =
        ((64 + little64 ((device.content.take 64).drop 24) + 4095) &&& ~~~4095).toNat := by
      rcases hfixture with hlive | heq
      · rcases hdevice with htest | hsame
        · exact absurd (hlive.symm.trans htest) (by decide)
        · rcases hsize with htest | hall
          · exact absurd (hlive.symm.trans htest) (by decide)
          · rw [hall, hsame]
      · exact heq
    obtain ⟨hpolicy, hsizes⟩ :=
      headerRead_iff.mp ⟨hlong, hmagic, hversion, hheader, rfl, ⟨hne, hle⟩, htotal⟩
    rw [← htotal, List.take_length] at hdigest hhash hpadding hpayload
    rw [← behind_eq hpolicy hsizes] at hhash hpayload
    rw [← padding_eq hpolicy hsizes] at hpadding
    obtain ⟨hlength, henvelope⟩ := eq_envelope_iff.mp ⟨⟨hpolicy, hhash, hpadding⟩, rfl⟩
    rw [hpayload] at hlength henvelope
    exact ⟨⟨hfound, hsize, hsettled⟩, p, hp, hx, hlength.2, henvelope, hdigest⟩
  · rintro ⟨⟨hfound, hsize, hsettled⟩, p, hp, hx, hlength, henvelope, hdigest⟩
    have hpos := one_le_length_text p
    obtain ⟨⟨hpolicy, hhash, hpadding⟩, hpayload⟩ := eq_envelope_iff.mpr ⟨⟨hpos, hlength⟩,
      henvelope⟩
    have hsizes : (Header.unpackFrom device.content).payloadSize =
        (little64 ((device.content.take 64).drop 24)).toNat :=
      (words_eq (le_length_of_policy hpolicy)).2.symm
    obtain ⟨hlong, hmagic, hversion, hheader, -, hrange, htotal⟩ :=
      headerRead_iff.mpr ⟨hpolicy, hsizes⟩
    rw [behind_eq hpolicy hsizes] at hhash hpayload
    rw [padding_eq hpolicy hsizes] at hpadding
    refine ⟨(), hfound, (), hsize, _, ⟨hlong, rfl⟩, (), ⟨⟨hmagic, hversion⟩, hheader⟩, (), hrange,
      (), ⟨⟨?_, ?_⟩, Or.inr htotal⟩, _, ⟨htotal.ge, rfl⟩, (), hsettled, (), ?_, (), ?_, (), ?_, p,
      hp, hx, ?_⟩
    · have hmost : artifactMax.toNat = maxTransportBytes := by decide
      have hmax : payloadMax.toNat = maxPayloadBytes := by decide
      have hle := UInt64.le_iff_toNat_le.mp hrange.2
      rw [UInt64.le_iff_toNat_le, toNat_total hrange.2, hmost]
      exact aligned_payload_le (hmax ▸ hle)
    · rcases hsize with htest | hall
      · exact Or.inl htest
      · exact Or.inr (hall.symm.trans htotal)
    · rw [← htotal, List.take_length, hdigest]
    · rw [← htotal, List.take_length, hhash]
      rfl
    · rw [← htotal, List.take_length]
      exact hpadding
    · rw [← htotal, List.take_length]
      exact hpayload.symm

/-! ### The way to the plan -/

/-- `run_consumer`, up to the plan. How the device is found is not modelled. -/
def bootPlan (cmdline : List UInt8) (discover : Bindings → Option TransportDevice) :
    Except Exit ParsedPlan := do
  let b ← orExitWith (Guest.Init.parseCmdline cmdline) .cmdline
  let device ← orExitWith (discover b) .discovery
  verifyTransport device b

/-- **How a guest comes to its plan**: the command line has the six fields of bindings, the device
that is found by them holds the envelope of a plan whose digest they name, and the plan is one that
the host accepts, of the layers and the root that they name. -/
theorem bootPlan_eq_ok {cmdline : List UInt8} {discover : Bindings → Option TransportDevice}
    {x : ParsedPlan} : bootPlan cmdline discover = .ok x ↔
      ∃ b device, (Guest.LineOk cmdline ∧ b.Valid ∧ (Guest.Init.fields cmdline).Perm b.fields) ∧
        discover b = some device ∧ device.Trusted ∧ ∃ p : GuestPlan, p.BoundTo b ∧ x = p.view b ∧
          (encode p.text).length ≤ maxPayloadBytes ∧ device.content = envelope (encode p.text) ∧
            encode (Control.digestOf device.content).1.toList = b.transportDigest := by
  simp only [bootPlan, bind_eq_ok, orExitWith_eq_ok, Guest.Init.parse_eq_some]
  constructor
  · rintro ⟨b, hb, device, hdevice, h⟩
    exact ⟨b, device, hb, hdevice, (verifyTransport_eq_ok (sound_of_valid hb.2.1)).mp h⟩
  · rintro ⟨b, device, hb, hdevice, h⟩
    exact ⟨b, hb, device, hdevice, (verifyTransport_eq_ok (sound_of_valid hb.2.1)).mpr h⟩

end Palimpsest.Stage1.Init
