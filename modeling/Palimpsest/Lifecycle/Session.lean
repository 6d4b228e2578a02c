import Palimpsest.Lifecycle.Mac
import Palimpsest.Stage1.FieldParsers
import Palimpsest.Stage1.ProcessParser

/-!
# The session of the guest

The state that the first process of the guest keeps of its exchange with the host: what it has
accepted, what it has sent, the names it has seen, and the command it may be running. Each check
over names and codes is followed by what it says of the strings the host writes.
-/

namespace Palimpsest.Lifecycle

open Json
open Control (Uuid Digest Hex32 Key Stream ExecReason OCIControlV2Binding keyIdentifier isUuid
  isHex32 hexText fromHex hex32 frameTag encodeUtf8)
open Stage1 (encodeUtf8_eq)
open Stage1.Init (IsAscii IsSpan GuestProcess validUuidSpan pairBytes)
open Utf8 (asciiByte encode)

/-! ### Bounds -/

/-- `LIFECYCLE_CONNECTION_MAX` -/
def lifecycleConnectionMax : ℕ := 16

/-- `LIFECYCLE_REQUEST_LEDGER_MAX` -/
def lifecycleRequestLedgerMax : ℕ := 17

/-- `EXEC_ARGV_BYTES_MAX` -/
def execArgvBytesMax : ℕ := 8192

/-- `EXEC_TIMEOUT_MS_MAX` -/
def execTimeoutMsMax : ℕ := 600000

/-! ### The state -/

/-- `LIFECYCLE_NEW`, `LIFECYCLE_READY`, `LIFECYCLE_STOPPING` and `LIFECYCLE_TERMINAL`. -/
inductive GuestState
  | new | ready | stopping | terminal
  deriving DecidableEq

/-- How a child ended, as `wait4` tells it: the number of a signal in the low seven bits, or an
exit code above them. -/
abbrev WaitStatus := {n : ℕ // n % 128 ≤ 64}

/-- The phase of a command: isolating, running, never started, or reported. -/
inductive ExecPhase
  | isolating | running | unstarted | reported
  deriving DecidableEq

/-- `struct remote_exec_job`, without its descriptors. -/
structure RemoteExec where
  process : GuestProcess
  requestId : ℕ
  timeoutMs : ℕ
  pending : Bool
  active : Bool
  phase : ExecPhase
  started : Bool
  reaped : Bool
  status : WaitStatus
  reason : ExecReason
  killed : Bool
  outputOpen : Stream → Bool
  bytes : Stream → ℕ
  wire : List UInt8
  wireSent : ℕ

/-- What only a guest that has drawn its key has of itself. -/
structure BootSecret where
  key : Key
  generation : Uuid

/-- `struct lifecycle_session`, with `lifecycle_binding`, `workload` and `remote_exec`, which the
source keeps beside it. A name that has not been set yet is all zeros there. -/
structure LifecycleSession where
  binding : OCIControlV2Binding
  workload : GuestProcess
  remoteExec : RemoteExec
  poisoned : Bool
  connected : Bool
  connectionHasHello : Bool
  state : GuestState
  naturalTerminalFrozen : Bool
  naturalLateStopAllowed : Bool
  usedNonces : List Hex32
  seenRequestIds : List ℕ
  usedBoundaryIds : List Uuid
  outboundFailed : Bool
  stopDeliveredCount : ℕ
  terminalStatus : WaitStatus
  nextSequence : ℕ
  lastHelloRequestId : ℕ
  helloRequestId : ℕ
  stopRequestId : ℕ
  lastExecRequestId : ℕ
  epoch : ℕ
  lastAcceptedHostWire : ℕ
  connectionOpenerRequestId : ℕ
  bootstrapWireSequence : ℕ
  keyAckWireSequence : ℕ
  hostNonce : Option Hex32
  bootAttemptId : Option Uuid
  secret : Option BootSecret
  boundaryId : Option Uuid
  boundaryDigest : Option Digest

namespace LifecycleSession

/-! ### Ledgers -/

/-- `nonce_seen` -/
def nonceSeen (s : LifecycleSession) (nonce : List UInt8) : Bool :=
  s.usedNonces.any fun used => encode used.1.toList = nonce

/-- `request_seen` -/
def requestSeen (s : LifecycleSession) (requestId : ℕ) : Bool :=
  (requestId ≠ 0 && requestId ≤ s.lastExecRequestId) || s.seenRequestIds.any (· = requestId)

/-- `remember_nonce_request` -/
def rememberNonceRequest (s : LifecycleSession) (nonce : Hex32) (requestId : ℕ) :
    Option LifecycleSession :=
  if lifecycleConnectionMax ≤ s.usedNonces.length ∨
      lifecycleRequestLedgerMax ≤ s.seenRequestIds.length ∨
        s.nonceSeen (encode nonce.1.toList) ∨ s.requestSeen requestId then none
  else some { s with
    usedNonces := s.usedNonces ++ [nonce]
    seenRequestIds := s.seenRequestIds ++ [requestId] }

theorem nonceSeen_encode {s : LifecycleSession} {nonce : Hex32} :
    s.nonceSeen (encode nonce.1.toList) = true ↔ nonce ∈ s.usedNonces := by
  simp only [nonceSeen, List.any_eq_true, decide_eq_true_eq, Stage1.Init.encode_inj,
    String.toList_inj]
  constructor
  · rintro ⟨used, hused, heq⟩
    rwa [← Subtype.ext heq]
  · intro h
    exact ⟨nonce, h, rfl⟩

theorem requestSeen_eq_false {s : LifecycleSession} {requestId : ℕ} (hpos : 1 ≤ requestId) :
    s.requestSeen requestId = false ↔
      s.lastExecRequestId < requestId ∧ requestId ∉ s.seenRequestIds := by
  rw [← Bool.not_eq_true, requestSeen, Bool.or_eq_true, Bool.and_eq_true, decide_eq_true_eq,
    decide_eq_true_eq, not_or, List.any_eq_true]
  simp only [decide_eq_true_eq, exists_eq_right]
  exact and_congr_left' (by omega)

theorem rememberNonceRequest_eq_some {s t : LifecycleSession} {nonce : Hex32} {requestId : ℕ}
    (hpos : 1 ≤ requestId) : s.rememberNonceRequest nonce requestId = some t ↔
      ((s.usedNonces.length < lifecycleConnectionMax ∧
        s.seenRequestIds.length < lifecycleRequestLedgerMax) ∧
          nonce ∉ s.usedNonces ∧ s.lastExecRequestId < requestId ∧
            requestId ∉ s.seenRequestIds) ∧
        t = { s with
          usedNonces := s.usedNonces ++ [nonce]
          seenRequestIds := s.seenRequestIds ++ [requestId] } := by
  rw [rememberNonceRequest, ← requestSeen_eq_false hpos, ← nonceSeen_encode, ← Nat.not_le,
    ← Nat.not_le, ← Bool.not_eq_true]
  split_ifs with h
  · refine iff_of_false (by rintro ⟨⟩) ?_
    rintro ⟨⟨⟨hnonces, hrequests⟩, hnonce, hrequest⟩, -⟩
    rcases h with h | h | h | h
    · exact hnonces h
    · exact hrequests h
    · exact hnonce h
    · exact hrequest h
  · simp only [not_or] at h
    rw [and_iff_right ⟨⟨h.1, h.2.1⟩, h.2.2.1, h.2.2.2⟩, Option.some.injEq]
    exact eq_comm

end LifecycleSession

/-! ### Names read off a message -/

/-- What stands between the quotes of a string, as a string. -/
def spanText (b : List UInt8) : String := String.ofList (b.map Char.ofUInt8)

/-- A name of a grammar, as it is copied out of a message. -/
def nameOf (p : String → Bool) (b : List UInt8) : Option {s : String // p s} :=
  if h : p (spanText b) = true ∧ encode (spanText b).toList = b then some ⟨spanText b, h.1⟩
  else none

/-- `nonce.n == 64`, and every byte a digit. -/
def validNonce (b : List UInt8) : Bool := b.length = 64 && b.all Guest.isHex

theorem spanText_encode {s : String} (h : IsAscii s.toList) : spanText (encode s.toList) = s := by
  have hchar : ∀ c ∈ s.toList, (Char.ofUInt8 ∘ asciiByte) c = id c := by
    intro c hc
    have hascii : (Char.ofUInt8 (asciiByte c)).toNat < 0x80 := by
      rw [Account.toNat_ofUInt8, Utf8.toNat_asciiByte (h c hc)]
      exact h c hc
    exact Utf8.asciiByte_injective hascii (h c hc) (Account.asciiByte_ofUInt8 _)
  rw [spanText, Stage1.Init.encode_ascii h, List.map_map, List.map_congr_left hchar, List.map_id,
    String.ofList_toList]

theorem nameOf_eq_some {p : String → Bool} (hp : ∀ s, p s = true → IsSpan s.toList)
    {b : List UInt8} {n : {s : String // p s}} : nameOf p b = some n ↔ b = encode n.1.toList := by
  constructor
  · intro h
    rw [nameOf] at h
    split_ifs at h with hname
    obtain rfl := Option.some.inj h
    exact hname.2.symm
  · rintro rfl
    have htext := spanText_encode (hp n.1 n.2).isAscii
    rw [nameOf, dif_pos ⟨by rw [htext]; exact n.2, by rw [htext]⟩, Option.some.injEq]
    exact Subtype.ext htext

theorem sameGrammar_nonce : Stage1.Init.SameGrammar validNonce isHex32 where
  encode_eq := by
    intro t ht
    rw [validNonce, isHex32, String.toList_ofList, ht.length_encode,
      ht.all_encode fun c hc => Stage1.Init.isHex_asciiByte hc]
  isSpan := by
    intro s hs c hc
    rw [isHex32, Bool.and_eq_true, List.all_eq_true] at hs
    exact Stage1.Init.isSpanChar_of_isHex (hs.2 c hc)

/-! ### Who the guest is -/

/-- What the guest knows of itself once it has drawn its key. -/
def LifecycleSession.identity (s : LifecycleSession) : Option BootIdentity := do
  let secret ← s.secret
  let attempt ← s.bootAttemptId
  return ⟨s.binding, attempt, secret.generation, secret.key⟩

theorem LifecycleSession.identity_eq_some {s : LifecycleSession} {i : BootIdentity} :
    s.identity = some i ↔ s.binding = i.binding ∧ s.bootAttemptId = some i.bootAttemptId ∧
      s.secret = some ⟨i.bootKey, i.bootGeneration⟩ := by
  rw [identity]
  cases s.secret with
  | none => exact iff_of_false (by rintro ⟨⟩) (by rintro ⟨-, -, ⟨⟩⟩)
  | some secret =>
    cases s.bootAttemptId with
    | none => exact iff_of_false (by rintro ⟨⟩) (by rintro ⟨-, ⟨⟩, -⟩)
    | some attempt =>
      obtain ⟨key, generation⟩ := secret
      obtain ⟨binding, attempt', generation', key'⟩ := i
      simp only [Option.bind_eq_bind, Option.bind_some, Option.pure_def, Option.some.injEq,
        BootIdentity.mk.injEq, BootSecret.mk.injEq]
      exact and_congr_right' (and_congr_right' and_comm)

end Palimpsest.Lifecycle
