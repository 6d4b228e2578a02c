import Palimpsest.Monitor.Identity
import Palimpsest.Monitor.Ledger

/-!
# The journal of the owner of a domain

What a journal of the first kind says: the binding of the monitor, the generation and the phase
of its lease, the revision and the process that writes. The text of a snapshot is read back as
the snapshot (`Palimpsest.Monitor.decodeSnapshot_of_encodeSnapshot`), so these snapshots are
those of a ledger (`Palimpsest.Monitor.ownerLedger`).
-/

namespace Palimpsest.Monitor

open Json Control

def journalSchema : String := "palimpsest.oci-root-monitor-owner.v1"

def lifecycleProtocol : String := "palimpsest.oci-lifecycle-control.v2"

def libvirtUri : String := "qemu:///system"

def maxRevision : ℕ := 2 ^ 63 - 1

def maxDomainId : ℕ := 2 ^ 31 - 1

/-! ### Bindings -/

/-- A run of its owner with its plan, on one domain booted once. The runtime, the backend and
the URI are the only ones a monitor is for. -/
@[ext]
structure MonitorBinding where
  name : RunName
  runId : Uuid
  ownerUid : UInt32
  planDigest : Digest
  definitionProjectionDigest : Digest
  stage1ArtifactDigest : Digest
  domainUuid : Uuid
  domainId : ℕ
  bootAttemptId : Uuid
  domainId_pos : 1 ≤ domainId
  domainId_le : domainId ≤ maxDomainId

instance : DecidableEq MonitorBinding := fun _ _ => decidable_of_iff' _ MonitorBinding.ext_iff

/-- `to_dict` -/
def MonitorBinding.fields (b : MonitorBinding) : List (String × Value) :=
  [("backend", .str "kvm"),
    ("boot_attempt_id", .str b.bootAttemptId.1),
    ("definition_projection_digest", .str b.definitionProjectionDigest.1),
    ("domain_id", .int b.domainId),
    ("domain_uuid", .str b.domainUuid.1),
    ("libvirt_uri", .str libvirtUri),
    ("lifecycle_protocol", .str lifecycleProtocol),
    ("name", .str b.name.1),
    ("owner_uid", .int b.ownerUid.toNat),
    ("plan_digest", .str b.planDigest.1),
    ("run_id", .str b.runId.1),
    ("runtime_kind", .str "oci-root"),
    ("stage1_artifact_digest", .str b.stage1ArtifactDigest.1)]

def MonitorBinding.toValue (b : MonitorBinding) : Value := .dict b.fields

theorem MonitorBinding.distinct (b : MonitorBinding) : b.toValue.Distinct := by
  simp [toValue, fields, Value.Distinct, Value.DistinctFields]

theorem MonitorBinding.isSome_dumps (b : MonitorBinding) : (dumps b.toValue).isSome := by
  have huid : b.ownerUid.toNat < 10 ^ 20 := Nat.lt_of_lt_of_le b.ownerUid.toNat_lt (by decide)
  have hdomain : b.domainId < 10 ^ 20 := Nat.lt_of_le_of_lt b.domainId_le (by decide)
  simp only [toValue, fields, isSome_dumps_dict, List.forall_mem_cons, isSome_dumps_str,
    isSome_dumps_natCast hdomain, isSome_dumps_natCast huid, true_and]
  simp

theorem MonitorBinding.width_le (b : MonitorBinding) : b.toValue.width ≤ 1166 := by
  have huid : b.ownerUid.toNat < 10 ^ 20 := Nat.lt_of_lt_of_le b.ownerUid.toNat_lt (by decide)
  have hdomain : b.domainId < 10 ^ 20 := Nat.lt_of_le_of_lt b.domainId_le (by decide)
  have hwidth : ∀ f ∈ b.fields, f.2.width ≤ 73 := by
    have hname := width_runName b.name
    have huid := width_natCast huid
    have hdomain := width_natCast hdomain
    have htext : ∀ s ∈ ["kvm", libvirtUri, lifecycleProtocol, "oci-root"],
        (Value.str s).width ≤ 73 := by decide
    simp only [fields, List.forall_mem_cons, width_uuid, width_digest, List.not_mem_nil,
      false_implies, implies_true, and_true] at htext ⊢
    omega
  have hfields := Value.widthFields_le
    (l := ["backend", "boot_attempt_id", "definition_projection_digest", "domain_id",
      "domain_uuid", "libvirt_uri", "lifecycle_protocol", "name", "owner_uid", "plan_digest",
      "run_id", "runtime_kind", "stage1_artifact_digest"]) (n := 189) rfl (by decide) hwidth
  rw [toValue, Value.width]
  exact Nat.add_le_add_right hfields 2

/-! ### Snapshots -/

inductive OwnerPhase
  | starting | adopting | running | controlLost | terminal
  deriving DecidableEq

def OwnerPhase.text : OwnerPhase → String
  | starting => "starting"
  | adopting => "adopting"
  | running => "running"
  | controlLost => "control-lost"
  | terminal => "terminal"

def ownerPhaseOf : Value → Option OwnerPhase
  | .str "starting" => some .starting
  | .str "adopting" => some .adopting
  | .str "running" => some .running
  | .str "control-lost" => some .controlLost
  | .str "terminal" => some .terminal
  | _ => none

/-- `MonitorJournalSnapshot`, of a binding that is the same in all snapshots of a journal. -/
@[ext]
structure MonitorJournalSnapshot where
  monitorGeneration : Uuid
  phase : OwnerPhase
  revision : ℕ
  writer : MonitorProcessIdentity
  revision_pos : 1 ≤ revision
  revision_le : revision ≤ maxRevision

instance : DecidableEq MonitorJournalSnapshot := fun _ _ =>
  decidable_of_iff' _ MonitorJournalSnapshot.ext_iff

variable (binding : MonitorBinding)

/-- `to_dict` -/
def MonitorJournalSnapshot.fields (s : MonitorJournalSnapshot) : List (String × Value) :=
  [("binding", binding.toValue),
    ("monitor_generation", .str s.monitorGeneration.1),
    ("phase", .str s.phase.text),
    ("revision", .int s.revision),
    ("schema", .str journalSchema),
    ("writer", s.writer.toValue)]

def MonitorJournalSnapshot.toValue (s : MonitorJournalSnapshot) : Value :=
  .dict (s.fields binding)

def encodeSnapshot (s : MonitorJournalSnapshot) : Option (List UInt8) :=
  canonicalBytes (s.toValue binding)

/-- `_decode_snapshot` -/
def decodeSnapshot (content : List UInt8) : Option MonitorJournalSnapshot := do
  let raw ← (loads (← decodeUtf8 content)).toOption
  match raw with
  | .dict d =>
    if hasKeys d ["binding", "monitor_generation", "phase", "revision", "schema", "writer"] ∧
        (field d "schema").pyEq (.str journalSchema) ∧ canonicalBytes raw = some content ∧
        (field d "binding").pyEq binding.toValue then do
      let monitorGeneration ← asUuid (field d "monitor_generation")
      let phase ← ownerPhaseOf (field d "phase")
      let revision ← asNat (field d "revision")
      let writer ← MonitorProcessIdentity.fromDict (field d "writer")
      if h : 1 ≤ revision ∧ revision ≤ maxRevision then
        some ⟨monitorGeneration, phase, revision, writer, h.1, h.2⟩
      else none
    else none
  | _ => none

variable {binding}

theorem ownerPhaseOf_text (p : OwnerPhase) : ownerPhaseOf (.str p.text) = some p := by
  cases p <;> rfl

theorem MonitorJournalSnapshot.distinct (s : MonitorJournalSnapshot) :
    (s.toValue binding).Distinct := by
  have hbinding := binding.distinct
  simp [toValue, fields, Value.Distinct, Value.DistinctFields, hbinding,
    MonitorProcessIdentity.toValue, MonitorProcessIdentity.fields]

theorem MonitorJournalSnapshot.isSome_dumps {s : MonitorJournalSnapshot} (h : s.writer.Sized) :
    (dumps (s.toValue binding)).isSome := by
  have hrevision := isSome_dumps_natCast (Nat.lt_of_le_of_lt s.revision_le (by decide))
  simp only [toValue, fields, isSome_dumps_dict, List.forall_mem_cons, binding.isSome_dumps,
    isSome_dumps_str, hrevision, MonitorProcessIdentity.isSome_dumps h, true_and]
  simp

theorem MonitorJournalSnapshot.width_le {s : MonitorJournalSnapshot} (h : s.writer.Sized) :
    (s.toValue binding).width ≤ 8000 := by
  have hwidth : ∀ f ∈ s.fields binding, f.2.width ≤ 1166 := by
    have hrevision := width_natCast (Nat.lt_of_le_of_lt s.revision_le (by decide))
    have hwriter := MonitorProcessIdentity.width_le h
    have hphase : (Value.str s.phase.text).width ≤ 1166 := by cases s.phase <;> decide
    have hschema : (Value.str journalSchema).width ≤ 1166 := by decide
    simp only [fields, List.forall_mem_cons, width_uuid, List.not_mem_nil, false_implies,
      implies_true, and_true]
    exact ⟨binding.width_le, by omega, hphase, by omega, hschema, by omega⟩
  have hfields := Value.widthFields_le
    (l := ["binding", "monitor_generation", "phase", "revision", "schema", "writer"])
    (n := 70) rfl (by decide) hwidth
  rw [toValue, Value.width]
  exact Nat.le_trans (Nat.add_le_add_right hfields 2) (by decide)

/-- **A snapshot is read back from its text.** -/
theorem decodeSnapshot_of_encodeSnapshot {s : MonitorJournalSnapshot} {content : List UInt8}
    (h : encodeSnapshot binding s = some content) : decodeSnapshot binding content = some s := by
  obtain ⟨t, ht, hloads, hcanonical⟩ := loads_of_canonicalBytes s.distinct h
  have hfield := field_sorted (d := s.fields binding) s.distinct.1
  rw [decodeSnapshot, ht]
  simp only [Option.bind_eq_bind, Option.bind_some, hloads, Except.toOption]
  rw [MonitorJournalSnapshot.toValue, Value.sorted] at hcanonical ⊢
  dsimp only
  rw [if_pos]
  · simp only [hfield]
    rw [show field (s.fields binding) "monitor_generation" = .str s.monitorGeneration.1 from rfl,
      show field (s.fields binding) "phase" = .str s.phase.text from rfl,
      show field (s.fields binding) "revision" = .int s.revision from rfl,
      show field (s.fields binding) "writer" = s.writer.toValue from rfl]
    simp [Value.sorted, ownerPhaseOf_text, s.writer.fromDict_sorted, s.revision_pos, s.revision_le]
  · refine ⟨?_, ?_, hcanonical, ?_⟩
    · rw [hasKeys_sorted]
      rfl
    · rw [hfield]
      rfl
    · rw [hfield]
      exact pyEq_sorted_self binding.distinct binding.isSome_dumps

/-- The ledger of the owner of a domain. -/
def ownerLedger (binding : MonitorBinding) : Ledger MonitorJournalSnapshot Unit where
  temporaryPrefix := ".oci-monitor-"
  encode := encodeSnapshot binding
  decode := decodeSnapshot binding
  key _ := ()
  confirmsLock := true
  decode_encode _ _ := decodeSnapshot_of_encodeSnapshot

end Palimpsest.Monitor
