import Palimpsest.Monitor.Owner

/-!
# The journal of a monitor before its domain is active

What a journal of the second kind says: the run the monitor is bound to, the generation of its
lease, the phase, the revision and the process that writes, the socket it listens on and, from
the activation on, the binding of the domain. Which of these are there depends on the phase
(`Palimpsest.Monitor.Admissible`), and every snapshot carries the fact that they are. The text
of a snapshot is read back as the snapshot
(`Palimpsest.Monitor.MonitorPreactivationJournalSnapshot.decode_of_encode`), so these snapshots
are those of a ledger (`Palimpsest.Monitor.preactivationLedger`).
-/

namespace Palimpsest.Monitor

open Json Control

/-! ### The run -/

/-- A run of its owner with its plan, on a domain that is not there yet. -/
structure MonitorPreActivationBinding where
  name : RunName
  runId : Uuid
  ownerUid : UInt32
  planDigest : Digest
  expectedDefinitionProjectionDigest : Digest
  stage1ArtifactDigest : Digest
  domainUuid : Uuid
  bootAttemptId : Uuid
  deriving DecidableEq

namespace MonitorPreActivationBinding

variable (b : MonitorPreActivationBinding)

/-- `to_dict` -/
def fields : List (String × Value) :=
  [("backend", .str "kvm"),
    ("boot_attempt_id", .str b.bootAttemptId.1),
    ("expected_definition_projection_digest", .str b.expectedDefinitionProjectionDigest.1),
    ("domain_uuid", .str b.domainUuid.1),
    ("libvirt_uri", .str libvirtUri),
    ("lifecycle_protocol", .str lifecycleProtocol),
    ("name", .str b.name.1),
    ("owner_uid", .int b.ownerUid.toNat),
    ("plan_digest", .str b.planDigest.1),
    ("run_id", .str b.runId.1),
    ("runtime_kind", .str "oci-root"),
    ("schema", .str "palimpsest.oci-monitor-preactivation.v1"),
    ("stage1_artifact_digest", .str b.stage1ArtifactDigest.1)]

def toValue : Value := .dict b.fields

theorem distinct : b.toValue.Distinct := by
  simp [toValue, fields, Value.Distinct, Value.DistinctFields]

theorem isSome_dumps : (dumps b.toValue).isSome := by
  have huid : b.ownerUid.toNat < 10 ^ 20 := Nat.lt_of_lt_of_le b.ownerUid.toNat_lt (by decide)
  simp only [toValue, fields, isSome_dumps_dict, List.forall_mem_cons, isSome_dumps_str,
    isSome_dumps_natCast huid, true_and]
  simp

/-- `digest` -/
def digest : Digest := digestOf (encodeUtf8 ((dumps b.toValue).get b.isSome_dumps))

theorem width_le : b.toValue.width ≤ 1184 := by
  have hwidth : ∀ f ∈ b.fields, f.2.width ≤ 73 := by
    have hname := width_runName b.name
    have huid := width_natCast (Nat.lt_of_lt_of_le b.ownerUid.toNat_lt (by decide))
    have htext : ∀ s ∈ ["kvm", libvirtUri, lifecycleProtocol, "oci-root",
        "palimpsest.oci-monitor-preactivation.v1"], (Value.str s).width ≤ 73 := by decide
    simp only [fields, List.forall_mem_cons, width_uuid, width_digest, List.not_mem_nil,
      false_implies, implies_true, and_true] at htext ⊢
    omega
  have hfields := Value.widthFields_le
    (l := ["backend", "boot_attempt_id", "expected_definition_projection_digest",
      "domain_uuid", "libvirt_uri", "lifecycle_protocol", "name", "owner_uid", "plan_digest",
      "run_id", "runtime_kind", "schema", "stage1_artifact_digest"]) (n := 207) rfl (by decide)
    hwidth
  rw [toValue, Value.width]
  exact Nat.add_le_add_right hfields 2

/-- What the binding of the domain shares with that of the run. -/
def template : List (String × Value) :=
  b.fields.filterMap fun f =>
    if f.1 = "schema" then none
    else if f.1 = "expected_definition_projection_digest" then
      some ("definition_projection_digest", f.2)
    else some f

end MonitorPreActivationBinding

/-- `_validate_active_binding` -/
def validateActiveBinding (b : MonitorBinding) (expected : MonitorPreActivationBinding) : Bool :=
  expected.template.all fun f => field b.fields f.1 = f.2

/-- `_active_binding_from_dict` -/
def activeBindingFromDict (v : Value) (expected : MonitorPreActivationBinding) :
    Option (Option MonitorBinding) :=
  match v with
  | .null => some none
  | .dict d =>
    if hasKeys d (keys expected.template ++ ["domain_id"]) ∧
        expected.template.all fun f => field d f.1 = f.2 then do
      let planDigest ← asDigest (field d "plan_digest")
      let definitionProjectionDigest ← asDigest (field d "definition_projection_digest")
      let stage1ArtifactDigest ← asDigest (field d "stage1_artifact_digest")
      let domainUuid ← asUuid (field d "domain_uuid")
      let domainId ← asNat (field d "domain_id")
      let bootAttemptId ← asUuid (field d "boot_attempt_id")
      if h : 1 ≤ domainId ∧ domainId ≤ maxDomainId then
        let b : MonitorBinding :=
          { name := expected.name, runId := expected.runId, ownerUid := expected.ownerUid,
            planDigest, definitionProjectionDigest, stage1ArtifactDigest, domainUuid, domainId,
            bootAttemptId, domainId_pos := h.1, domainId_le := h.2 }
        if validateActiveBinding b expected then some (some b) else none
      else none
    else none
  | _ => none

/-! ### Snapshots -/

inductive PreactivationPhase
  | claiming | prepared | committed | aborting | adopting | controlLost | abandoned
  | activating | active | ready | terminal
  deriving DecidableEq

namespace PreactivationPhase

def text : PreactivationPhase → String
  | claiming => "claiming"
  | prepared => "prepared"
  | committed => "committed"
  | aborting => "aborting"
  | adopting => "adopting"
  | controlLost => "control-lost"
  | abandoned => "abandoned"
  | activating => "activating"
  | active => "active"
  | ready => "ready"
  | terminal => "terminal"

def ofValue : Value → Option PreactivationPhase
  | .str "claiming" => some .claiming
  | .str "prepared" => some .prepared
  | .str "committed" => some .committed
  | .str "aborting" => some .aborting
  | .str "adopting" => some .adopting
  | .str "control-lost" => some .controlLost
  | .str "abandoned" => some .abandoned
  | .str "activating" => some .activating
  | .str "active" => some .active
  | .str "ready" => some .ready
  | .str "terminal" => some .terminal
  | _ => none

@[simp]
theorem ofValue_text (p : PreactivationPhase) : ofValue (.str p.text) = some p := by
  cases p <;> rfl

/-- `_ACTIVATION_PHASES` -/
def isActivation : PreactivationPhase → Bool
  | activating | active | ready | terminal => true
  | _ => false

end PreactivationPhase

/-- What the constructor of a snapshot asks of the socket, its device and inode, and of the
binding of the domain. -/
def Admissible (binding : MonitorPreActivationBinding) (phase : PreactivationPhase)
    (socket : Option (ℕ × ℕ)) (activeBinding : Option MonitorBinding) : Bool :=
  socket.all (fun s => 0 < s.2) &&
  (phase != .claiming || socket.isNone) &&
  (!(phase = .prepared || phase = .committed || phase.isActivation) || socket.isSome) &&
  (!(phase = .active || phase = .ready || phase = .terminal) || activeBinding.isSome) &&
  (activeBinding.isNone || socket.isSome) &&
  (phase = .active || phase = .ready || phase = .terminal || phase = .controlLost ||
    activeBinding.isNone) &&
  activeBinding.all fun b => validateActiveBinding b binding

/-- `MonitorPreactivationJournalSnapshot`, of a run that is the same in all snapshots of a
journal. The name of the socket is that of the generation. -/
@[ext]
structure MonitorPreactivationJournalSnapshot (binding : MonitorPreActivationBinding) where
  generation : Uuid
  nonceDigest : Digest
  phase : PreactivationPhase
  revision : ℕ
  writer : MonitorProcessIdentity
  socket : Option (ℕ × ℕ)
  activeBinding : Option MonitorBinding
  revision_pos : 1 ≤ revision
  revision_le : revision ≤ maxRevision
  admissible : Admissible binding phase socket activeBinding

instance (binding : MonitorPreActivationBinding) :
    DecidableEq (MonitorPreactivationJournalSnapshot binding) := fun _ _ =>
  decidable_of_iff' _ MonitorPreactivationJournalSnapshot.ext_iff

/-- `_socket_name_for_generation` -/
def socketNameForGeneration (generation : Uuid) : String :=
  "oci-monitor-" ++ String.ofList (generation.1.toList.filter (· ≠ '-')) ++ ".sock"

variable {binding : MonitorPreActivationBinding}

namespace MonitorPreactivationJournalSnapshot

variable (s : MonitorPreactivationJournalSnapshot binding)

def socketFields : List (String × Value) :=
  [("device", orNull (fun p => .int p.1) s.socket),
    ("inode", orNull (fun p => .int p.2) s.socket),
    ("name", .str (socketNameForGeneration s.generation))]

/-- `to_dict` -/
def fields : List (String × Value) :=
  [("active_binding", orNull MonitorBinding.toValue s.activeBinding),
    ("binding", binding.toValue),
    ("binding_digest", .str binding.digest.1),
    ("monitor_generation", .str s.generation.1),
    ("nonce_digest", .str s.nonceDigest.1),
    ("phase", .str s.phase.text),
    ("revision", .int s.revision),
    ("schema", .str "palimpsest.oci-root-monitor-owner.v2"),
    ("socket", .dict s.socketFields),
    ("writer", s.writer.toValue)]

def toValue : Value := .dict s.fields

def encode : Option (List UInt8) := canonicalBytes s.toValue

end MonitorPreactivationJournalSnapshot

/-- The device and the inode of a socket: both are there, or neither is. -/
def socketOf (device inode : Value) : Option (Option (ℕ × ℕ)) :=
  match device, inode with
  | .null, .null => some none
  | device, inode => do some (some (← asNat device, ← asNat inode))

/-- The values have one type in Python. -/
def sameType (v w : Value) : Bool := v.ctorIdx = w.ctorIdx

/-- The fields of a dictionary have the types of these. -/
def sameTypes (v : Value) (fields : List (String × Value)) : Bool :=
  match v with
  | .dict d => fields.all fun f => sameType (field d f.1) f.2
  | _ => true

/-- `_decode_preactivation_snapshot`, for the run whose journal it is. -/
def decodePreactivationSnapshot (binding : MonitorPreActivationBinding) (content : List UInt8) :
    Option (MonitorPreactivationJournalSnapshot binding) := do
  let raw ← (loads (← decodeUtf8 content)).toOption
  match raw with
  | .dict d =>
    match field d "socket" with
    | .dict socketValue =>
      if hasKeys d ["active_binding", "binding", "binding_digest", "monitor_generation",
            "nonce_digest", "phase", "revision", "schema", "socket", "writer"] ∧
          (field d "schema").pyEq (.str "palimpsest.oci-root-monitor-owner.v2") ∧
          (field d "binding").pyEq binding.toValue ∧
          sameTypes (field d "binding") binding.fields ∧
          (field d "binding_digest").pyEq (.str binding.digest.1) ∧
          hasKeys socketValue ["device", "inode", "name"] ∧
          canonicalBytes raw = some content then do
        let generation ← asUuid (field d "monitor_generation")
        let nonceDigest ← asDigest (field d "nonce_digest")
        let phase ← PreactivationPhase.ofValue (field d "phase")
        let revision ← asNat (field d "revision")
        let writer ← MonitorProcessIdentity.fromDict (field d "writer")
        let socket ← socketOf (field socketValue "device") (field socketValue "inode")
        let activeBinding ← activeBindingFromDict (field d "active_binding") binding
        if h : 1 ≤ revision ∧ revision ≤ maxRevision ∧
            Admissible binding phase socket activeBinding ∧
            (field socketValue "name").pyEq (.str (socketNameForGeneration generation)) then
          some ⟨generation, nonceDigest, phase, revision, writer, socket, activeBinding, h.1,
            h.2.1, h.2.2.1⟩
        else none
      else none
    | _ => none
  | _ => none

/-! ### Snapshots are read back -/

theorem socketOf_orNull (o : Option (ℕ × ℕ)) :
    socketOf (orNull (fun p => .int p.1) o).sorted (orNull (fun p => .int p.2) o).sorted =
      some o := by
  cases o with
  | none => rfl
  | some p => simp [orNull, Value.sorted, socketOf]

theorem sameType_sorted (v : Value) : sameType v.sorted v := by
  cases v <;> simp [sameType, Value.sorted, Value.ctorIdx]

theorem sameTypes_sorted {d : List (String × Value)} (hd : (keys d).Nodup) :
    sameTypes (.dict (sortFields (Value.sortedFields d))) d := by
  refine List.all_eq_true.mpr fun f hf => ?_
  rw [field_sorted hd, field, lookup_of_mem hd hf, Option.getD_some]
  exact sameType_sorted f.2

/-- The binding of the domain is the one that agrees with the run on all it shares with it. -/
theorem validateActiveBinding_iff {b : MonitorBinding} :
    validateActiveBinding b binding ↔
      b.bootAttemptId = binding.bootAttemptId ∧
      b.definitionProjectionDigest = binding.expectedDefinitionProjectionDigest ∧
      b.domainUuid = binding.domainUuid ∧ b.name = binding.name ∧ b.ownerUid = binding.ownerUid ∧
      b.planDigest = binding.planDigest ∧ b.runId = binding.runId ∧
      b.stage1ArtifactDigest = binding.stage1ArtifactDigest := by
  simp [validateActiveBinding, MonitorPreActivationBinding.template,
    MonitorPreActivationBinding.fields, MonitorBinding.fields, field, lookup, Subtype.ext_iff,
    UInt32.toNat_inj]

/-- The fields are no dictionaries. -/
theorem MonitorPreActivationBinding.sorted_of_mem (binding : MonitorPreActivationBinding)
    {f : String × Value} (hf : f ∈ binding.fields) : f.2.sorted = f.2 := by
  simp only [fields, List.mem_cons, List.not_mem_nil, or_false] at hf
  obtain rfl | rfl | rfl | rfl | rfl | rfl | rfl | rfl | rfl | rfl | rfl | rfl | rfl := hf <;> rfl

theorem MonitorPreActivationBinding.sorted_of_mem_template (binding : MonitorPreActivationBinding)
    {f : String × Value} (hf : f ∈ binding.template) : f.2.sorted = f.2 := by
  obtain ⟨g, hg, hgf⟩ := List.mem_filterMap.mp hf
  have hsorted := binding.sorted_of_mem hg
  split at hgf
  · cases hgf
  split at hgf
  · obtain rfl := Option.some.inj hgf
    exact hsorted
  · obtain rfl := Option.some.inj hgf
    exact hsorted

/-- The binding of a domain is read back. -/
theorem activeBindingFromDict_sorted {b : MonitorBinding}
    (hb : validateActiveBinding b binding) :
    activeBindingFromDict b.toValue.sorted binding = some (some b) := by
  have hfield := field_sorted (d := b.fields) b.distinct.1
  have hagree : ∀ f ∈ binding.template,
      field (sortFields (Value.sortedFields b.fields)) f.1 = f.2 := by
    intro f hf
    have hf' : field b.fields f.1 = f.2 := of_decide_eq_true (List.all_eq_true.mp hb f hf)
    rw [hfield, hf']
    exact binding.sorted_of_mem_template hf
  rw [MonitorBinding.toValue, Value.sorted, activeBindingFromDict, if_pos]
  · have h := hb
    rw [validateActiveBinding_iff] at h
    obtain ⟨hboot, hdefinition, huuid, hname, huid, hplan, hrun, hstage⟩ := h
    simp only [hfield]
    rw [show field b.fields "plan_digest" = .str b.planDigest.1 from rfl,
      show field b.fields "definition_projection_digest" =
        .str b.definitionProjectionDigest.1 from rfl,
      show field b.fields "stage1_artifact_digest" = .str b.stage1ArtifactDigest.1 from rfl,
      show field b.fields "domain_uuid" = .str b.domainUuid.1 from rfl,
      show field b.fields "domain_id" = .int b.domainId from rfl,
      show field b.fields "boot_attempt_id" = .str b.bootAttemptId.1 from rfl]
    simp [Value.sorted, b.domainId_pos, b.domainId_le, ← hname, ← hrun, ← huid, hb]
  · refine ⟨?_, List.all_eq_true.mpr fun f hf => decide_eq_true (hagree f hf)⟩
    rw [hasKeys_sorted]
    rfl

namespace MonitorPreactivationJournalSnapshot

theorem distinct (s : MonitorPreactivationJournalSnapshot binding) : s.toValue.Distinct := by
  have hbinding := binding.distinct
  have hactive := distinct_orNull MonitorBinding.distinct s.activeBinding
  have hdevice := distinct_orNull (f := fun p : ℕ × ℕ => .int p.1) (fun _ => trivial) s.socket
  have hinode := distinct_orNull (f := fun p : ℕ × ℕ => .int p.2) (fun _ => trivial) s.socket
  simp [toValue, fields, socketFields, Value.Distinct, Value.DistinctFields, hbinding, hactive,
    hdevice, hinode, MonitorProcessIdentity.toValue, MonitorProcessIdentity.fields]

/-- **A snapshot is read back from its text.** -/
theorem decode_of_encode {s : MonitorPreactivationJournalSnapshot binding}
    {content : List UInt8} (h : s.encode = some content) :
    decodePreactivationSnapshot binding content = some s := by
  obtain ⟨t, ht, hloads, hcanonical⟩ := loads_of_canonicalBytes s.distinct h
  have hfield := field_sorted (d := s.fields) s.distinct.1
  have hsocket := field_sorted (d := s.socketFields) (by simp [keys, socketFields])
  -- The active binding is null or one that the phase admits.
  have hactive : activeBindingFromDict (orNull MonitorBinding.toValue s.activeBinding).sorted
      binding = some s.activeBinding := by
    cases ha : s.activeBinding with
    | none => rfl
    | some b =>
      refine activeBindingFromDict_sorted ?_
      have hvalid := s.admissible
      rw [Admissible, ha, Bool.and_eq_true] at hvalid
      exact hvalid.2
  rw [decodePreactivationSnapshot, ht]
  simp only [Option.bind_eq_bind, Option.bind_some, hloads, Except.toOption]
  rw [toValue, Value.sorted] at hcanonical ⊢
  dsimp only
  rw [hfield, show field s.fields "socket" = .dict s.socketFields from rfl, Value.sorted]
  dsimp only
  rw [if_pos]
  · have hname : field s.socketFields "name" = .str (socketNameForGeneration s.generation) := rfl
    simp only [hfield, hsocket, hname]
    rw [show field s.fields "monitor_generation" = .str s.generation.1 from rfl,
      show field s.fields "nonce_digest" = .str s.nonceDigest.1 from rfl,
      show field s.fields "phase" = .str s.phase.text from rfl,
      show field s.fields "revision" = .int s.revision from rfl,
      show field s.fields "writer" = s.writer.toValue from rfl,
      show field s.fields "active_binding" = orNull MonitorBinding.toValue s.activeBinding from rfl,
      show field s.socketFields "device" = orNull (fun p => .int p.1) s.socket from rfl,
      show field s.socketFields "inode" = orNull (fun p => .int p.2) s.socket from rfl]
    simp [Value.sorted, s.writer.fromDict_sorted, s.revision_pos, s.revision_le, s.admissible,
      Value.pyEq, hactive, socketOf_orNull]
  · refine ⟨?_, ?_, ?_, ?_, ?_, ?_, hcanonical⟩
    · rw [hasKeys_sorted]
      rfl
    · rw [hfield]
      rfl
    · rw [hfield]
      exact pyEq_sorted_self binding.distinct binding.isSome_dumps
    · rw [hfield]
      exact sameTypes_sorted binding.distinct.1
    · rw [hfield, show field s.fields "binding_digest" = .str binding.digest.1 from rfl]
      simp [Value.sorted, Value.pyEq]
    · rw [hasKeys_sorted]
      rfl

/-! ### Snapshots have a text of bounded length -/

theorem width_socketName (generation : Uuid) :
    (Value.str (socketNameForGeneration generation)).width ≤ 55 := by
  have hlength := List.length_filter_le (fun c => decide (c ≠ '-')) generation.1.toList
  rw [length_uuid] at hlength
  have hends : ∀ c ∈ "oci-monitor-".toList ++ ".sock".toList, isPlain c :=
    List.all_eq_true.mp (by decide)
  rw [Value.width, byteLength_quote_of_plain]
  · simp only [socketNameForGeneration, String.toList_append, String.toList_ofList,
      List.length_append, show "oci-monitor-".toList.length = 12 from rfl,
      show ".sock".toList.length = 5 from rfl]
    omega
  · intro c hc
    simp only [socketNameForGeneration, String.toList_append, String.toList_ofList,
      List.mem_append] at hc hends
    rcases hc with (hc | hc) | hc
    · exact hends c (.inl hc)
    · exact isPlain_of_mem_uuid generation (List.mem_filter.mp hc).1
    · exact hends c (.inr hc)

/-- The numbers are of the size a kernel gives them. -/
def Sized (s : MonitorPreactivationJournalSnapshot binding) : Prop :=
  s.writer.Sized ∧ ∀ p ∈ s.socket, p.1 < 2 ^ 64 ∧ p.2 < 2 ^ 64

theorem Sized.socket {s : MonitorPreactivationJournalSnapshot binding} (h : s.Sized) :
    ∀ p ∈ s.socket, p.1 < 10 ^ 20 ∧ p.2 < 10 ^ 20 := fun p hp =>
  ⟨Nat.lt_trans (h.2 p hp).1 (by decide), Nat.lt_trans (h.2 p hp).2 (by decide)⟩

theorem isSome_dumps {s : MonitorPreactivationJournalSnapshot binding} (h : s.Sized) :
    (dumps s.toValue).isSome := by
  have hrevision := isSome_dumps_natCast (Nat.lt_of_le_of_lt s.revision_le (by decide))
  have hactive := isSome_dumps_orNull (o := s.activeBinding) fun b _ => b.isSome_dumps
  have hdevice := isSome_dumps_orNull (f := fun p : ℕ × ℕ => .int p.1) fun p hp =>
    isSome_dumps_natCast (h.socket p hp).1
  have hinode := isSome_dumps_orNull (f := fun p : ℕ × ℕ => .int p.2) fun p hp =>
    isSome_dumps_natCast (h.socket p hp).2
  simp only [toValue, fields, socketFields, isSome_dumps_dict, List.forall_mem_cons,
    binding.isSome_dumps, isSome_dumps_str, hrevision, hactive, hdevice, hinode,
    MonitorProcessIdentity.isSome_dumps h.1, true_and]
  simp

theorem width_socket_le {s : MonitorPreactivationJournalSnapshot binding} (h : s.Sized) :
    (Value.dict s.socketFields).width ≤ 194 := by
  have hdevice := width_orNull_le (f := fun p : ℕ × ℕ => .int p.1) (by decide : 4 ≤ 21) fun p hp =>
    width_natCast (h.socket p hp).1
  have hinode := width_orNull_le (f := fun p : ℕ × ℕ => .int p.2) (by decide : 4 ≤ 21) fun p hp =>
    width_natCast (h.socket p hp).2
  have hname := width_socketName s.generation
  have hwidth : ∀ f ∈ s.socketFields, f.2.width ≤ 55 := by
    simp only [socketFields, List.forall_mem_cons, List.not_mem_nil, false_implies, implies_true,
      and_true]
    exact ⟨by omega, by omega, hname⟩
  have hfields := Value.widthFields_le (l := ["device", "inode", "name"]) (n := 21) rfl
    (by decide) hwidth
  rw [Value.width]
  exact Nat.add_le_add_right hfields 2

theorem width_le {s : MonitorPreactivationJournalSnapshot binding} (h : s.Sized) :
    s.toValue.width ≤ 13000 := by
  have hwidth : ∀ f ∈ s.fields, f.2.width ≤ 1184 := by
    have hactive := width_orNull_le (o := s.activeBinding) (by decide : 4 ≤ 1166)
      fun b _ => b.width_le
    have hrevision := width_natCast (Nat.lt_of_le_of_lt s.revision_le (by decide))
    have hwriter := MonitorProcessIdentity.width_le h.1
    have hsocket := width_socket_le h
    have hphase : (Value.str s.phase.text).width ≤ 1184 := by cases s.phase <;> decide
    have hschema : (Value.str "palimpsest.oci-root-monitor-owner.v2").width ≤ 1184 := by decide
    simp only [fields, List.forall_mem_cons, width_uuid, width_digest, List.not_mem_nil,
      false_implies, implies_true, and_true]
    exact ⟨by omega, binding.width_le, by omega, by omega, by omega, hphase, by omega, hschema,
      by omega, by omega⟩
  have hfields := Value.widthFields_le
    (l := ["active_binding", "binding", "binding_digest", "monitor_generation", "nonce_digest",
      "phase", "revision", "schema", "socket", "writer"]) (n := 130) rfl (by decide) hwidth
  rw [toValue, Value.width]
  exact Nat.le_trans (Nat.add_le_add_right hfields 2) (by decide)

end MonitorPreactivationJournalSnapshot

/-- The ledger of a monitor of the run. -/
def preactivationLedger (binding : MonitorPreActivationBinding) :
    Ledger (MonitorPreactivationJournalSnapshot binding) Uuid where
  temporaryPrefix := ".oci-monitor-v2-"
  encode := MonitorPreactivationJournalSnapshot.encode
  decode := decodePreactivationSnapshot binding
  key s := s.generation
  confirmsLock := false
  decode_encode _ _ := MonitorPreactivationJournalSnapshot.decode_of_encode

end Palimpsest.Monitor
