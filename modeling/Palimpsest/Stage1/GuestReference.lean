import Palimpsest.Stage1.PlanValues

/-!
# The reference reader of the guest

The reader in Python that the guest's own is compared with takes the payload apart as JSON, builds
a plan of the parts and compares the plan with what it was built of
(`Palimpsest.Stage1.semanticStage1Plan`). What it takes is what the host has built for a plan that
the command line names, unless two texts have one hash (`Palimpsest.Stage1.guestReference_exact`).
The ports that are published on the host do not reach the guest, so its plan has none.
-/

namespace Palimpsest.Stage1

open Json
open Control (isUuid isDigest digestOf decodeUtf8 decodeUtf8_encodeUtf8)
open Network (Mode OCINetworkConfig)
open Process (OCIProcessSpec)
open Guest (Bindings)
open Utf8 (encode)
open Results (bind_eq_ok)

/-! ### The network -/

/-- A mode that a value is. -/
def modeOf : Value → Option Mode
  | .str "none" => some .none
  | .str "nat" => some .nat
  | .str "host-only" => some .hostOnly
  | _ => none

/-- A configuration without published ports. -/
def ofMode (mode : Mode) : OCINetworkConfig := ⟨⟨mode, []⟩, by cases mode <;> rfl⟩

/-- `from_guest_contract`. What it raises is not told apart. -/
def fromGuestContract (value : Value) (runId : Value) : Option OCINetworkConfig :=
  match value with
  | .dict d => do
    guard (hasKeys d ["address", "gateway", "interface", "mac", "mode", "nameservers", "netmask"])
    let config := ofMode (← modeOf (get d "mode"))
    let contract ← (guestContract config (strOf runId)).toOption
    guard (contract.toDict.pyEq (.dict d))
    return config
  | _ => none

theorem modeOf_modeText (mode : Mode) : modeOf (.str (modeText mode)) = some mode := by
  cases mode <;> rfl

/-- The contract says nothing of the published ports. -/
theorem guestContract_ofMode (c : OCINetworkConfig) (runId : String) :
    guestContract (ofMode c.1.mode) runId = guestContract c runId := rfl

theorem mode_of_guestContract {c : OCINetworkConfig} {runId : String} {n : NetworkContract}
    (h : guestContract c runId = .ok n) : n.mode = modeText c.1.mode := by
  rw [guestContract] at h
  split at h
  · obtain ⟨mac, -, h⟩ := bind_eq_ok.mp h
    obtain rfl := Except.ok.inj h
    rfl
  · obtain rfl := Except.ok.inj h
    rfl

/-- **The mode is read back from the contract.** -/
theorem fromGuestContract_toDict {c : OCINetworkConfig} {runId : String} {n : NetworkContract}
    (h : guestContract c runId = .ok n) :
    fromGuestContract n.toDict (.str runId) = some (ofMode c.1.mode) := by
  have hkeys : hasKeys [("address", .str n.address), ("gateway", .str n.gateway),
      ("interface", .str n.interface), ("mac", .str n.mac), ("mode", .str n.mode),
      ("nameservers", strings n.nameservers), ("netmask", .str n.netmask)]
      ["address", "gateway", "interface", "mac", "mode", "nameservers", "netmask"] = true := by
    simp only [hasKeys, keys, List.map_cons, List.map_nil]
    decide
  have hmode : modeOf (.str n.mode) = some c.1.mode := by
    rw [mode_of_guestContract h, modeOf_modeText]
  have hcontract : (guestContract (ofMode c.1.mode) runId).toOption = some n := by
    rw [guestContract_ofMode, h]
    rfl
  have hsame : n.toDict.pyEq n.toDict = true := (spells_network n).pyEq_self
  simp only [fromGuestContract, NetworkContract.toDict, Option.bind_eq_bind,
    Option.bind_eq_some_iff, guard_eq_some]
  exact ⟨(), hkeys, _, hmode, n, hcontract, (), guard_eq_some.mpr hsame, rfl⟩

/-! ### The plan -/

/-- The fields of a dictionary that a value is. -/
def dictFields : Value → Option (List (String × Value))
  | .dict d => some d
  | _ => none

/-- The checks of what is fixed in a plan. -/
def planPolicyOk (d assembly run : List (String × Value))
    (layers probes : Option (List Value)) : Bool :=
  get d "schema" = .str planSchema && get d "protocol" = .str protocol &&
    get d "phase" = .str phase && get d "handoff" = .str handoff &&
    get d "isolation" = .str workloadIsolation && get d "process_policy" = .str processPolicy &&
    hasKeys run ["name", "run_id"] && hasKeys assembly ["device_policy", "layers",
      "lowerdir_ordinals", "overlay_mount_options", "probes", "root", "root_layout"] &&
    get assembly "device_policy" = .str devicePolicy &&
    get assembly "overlay_mount_options" = mountOptions "rw" &&
    get assembly "root_layout" = .str rootLayout && probes.isSome &&
    layers.any fun layers => (get assembly "lowerdir_ordinals").pyEq (reversedRange layers.length)

/-- The plan that is built of the parts of a dictionary. What is raised is not told apart. -/
def planOfParts (upperOf : Char → Text) (d assembly run : List (String × Value)) :
    Option OCIStage1Plan := do
  let process ← processFromDict upperOf (get d "process")
  let network ← fromGuestContract (get d "network") (get run "run_id")
  let layers ← listOf (get assembly "layers")
  let probes ← listOf (get assembly "probes")
  (OCIStage1Plan.make ⟨get run "run_id", get run "name", get d "boot_plan_digest",
    get d "domain_core_digest", get assembly "root", layers, process, probes, network⟩).toOption

/-- A value that has to be there. -/
def orRaise {α : Type} (o : Option α) (e : Raised) : Except Raised α :=
  match o with
  | some a => .ok a
  | none => .error e

/-- `_semantic_stage1_plan` -/
def semanticStage1Plan (upperOf : Char → Text) (value : Value) : Except Raised OCIStage1Plan := do
  let d ← orRaise (dictFields value) (.artifactValidation "guest stage-1 plan fields are invalid")
  require (hasKeys d ["assembly", "boot_plan_digest", "domain_core_digest", "handoff", "isolation",
    "network", "phase", "process", "process_policy", "protocol", "run", "schema"])
    (.artifactValidation "guest stage-1 plan fields are invalid")
  let refused : Raised := .artifactValidation "guest stage-1 plan policy is invalid"
  let run ← orRaise (dictFields (get d "run")) refused
  let assembly ← orRaise (dictFields (get d "assembly")) refused
  require (planPolicyOk d assembly run (listOf (get assembly "layers"))
    (listOf (get assembly "probes"))) refused
  let plan ← orRaise (planOfParts upperOf d assembly run)
    (.artifactValidation "guest stage-1 plan semantics are invalid")
  require (plan.toDict.pyEq value) (.artifactValidation "guest stage-1 plan is not canonical")
  return plan

/-- `VerifiedGuestStage1Plan` -/
structure VerifiedGuestStage1Plan where
  bindings : Bindings
  plan : OCIStage1Plan
  artifactSizeBytes : ℕ

/-- `payload.decode("utf-8")` and `json.loads`, where a key may not be there twice. -/
def loadGuestPayload (payload : List UInt8) : Except Raised Value :=
  match (decodeUtf8 payload).map loads with
  | some (.ok value) => .ok value
  | _ => .error (.artifactValidation "guest stage-1 transport JSON is invalid")

/-- The text of a digest is the one of the command line. -/
def isDigestText (digest : String) (bound : List UInt8) : Bool := encode digest.toList = bound

/-- The checks of a plan against the command line. -/
def boundToOk (plan : OCIStage1Plan) (b : Bindings) : Bool :=
  isDigestText plan.bootPlanDigest b.resourceDigest &&
    isDigestText plan.domainCoreDigest b.domainCoreDigest &&
    isDigestText plan.root.serial b.rootSerial &&
    plan.layers.map (fun layer => encode layer.serial.toList) = b.lowerSerials

/-- `verify_guest_stage1_transport` -/
def verifyGuestStage1Transport (upperOf : Char → Text) (artifact : List UInt8) (b : Bindings) :
    Except Raised VerifiedGuestStage1Plan := do
  require ((headerSize < artifact.length && artifact.length ≤ maxTransportBytes) &&
    artifact.length % alignment = 0)
    (.artifactValidation "guest stage-1 transport bytes are invalid")
  require (isDigestText (digestOf artifact) b.transportDigest)
    (.artifactValidation "guest stage-1 transport digest does not match the kernel command line")
  let header := Header.unpackFrom artifact
  require (headerPolicyOk header artifact.length)
    (.artifactValidation "guest stage-1 transport header policy is invalid")
  let payload := payloadBehind header artifact
  require (Sha256.digest payload = header.payloadHash &&
    (paddingBehind header artifact).all (· = 0))
    (.artifactValidation "guest stage-1 transport payload binding is invalid")
  let value ← loadGuestPayload payload
  let canonical ← orRaise (canonicalJsonBytes value).toOption
    (.artifactValidation "guest stage-1 transport JSON is invalid")
  require (canonical = payload)
    (.artifactValidation "guest stage-1 transport JSON is not canonical")
  let plan ← semanticStage1Plan upperOf value
  let planPayload ← canonicalJsonBytes plan.toDict
  require (boundToOk plan b && (digestOf planPayload).1 = (digestOf payload).1)
    (.artifactValidation "guest stage-1 plan does not match the kernel command line")
  return ⟨b, plan, artifact.length⟩

/-! ### What the host has built -/

/-- The plan as the guest has it. -/
def OCIStage1Plan.withoutPorts (p : OCIStage1Plan) : OCIStage1Plan :=
  ⟨⟨p.toContents, ofMode p.network.1.mode⟩, p.accepted⟩

theorem networkContract_withoutPorts (p : OCIStage1Plan) :
    p.withoutPorts.networkContract = p.networkContract := by
  have hwithout : guestContract p.network p.runId = .ok p.withoutPorts.networkContract :=
    p.withoutPorts.guestContract_eq
  exact Except.ok.inj (hwithout.symm.trans p.guestContract_eq)

theorem toDict_withoutPorts (p : OCIStage1Plan) : p.withoutPorts.toDict = p.toDict := by
  rw [OCIStage1Plan.toDict, networkContract_withoutPorts]
  rfl

theorem orRaise_eq_ok {α : Type} {o : Option α} {e : Raised} {a : α} :
    orRaise o e = .ok a ↔ o = some a := by
  cases o with
  | none => exact iff_of_false (by rintro ⟨⟩) (by rintro ⟨⟩)
  | some b => rw [orRaise, Except.ok.injEq, Option.some.injEq]

/-- **A plan is built again of its dictionary**, without its published ports. -/
theorem semanticStage1Plan_toDict (upperOf : Char → Text) (p : OCIStage1Plan) :
    semanticStage1Plan upperOf p.toDict = .ok p.withoutPorts := by
  have hprocess := processFromDict_toDict upperOf p.process
  have hnetwork := fromGuestContract_toDict p.guestContract_eq
  have hmake : (OCIStage1Plan.make (p.toContents.raw (ofMode p.network.1.mode))).toOption =
      some p.withoutPorts := by
    rw [(OCIStage1Plan.make_eq_ok (p := p.withoutPorts)).mpr (postInit_raw p.accepted _)]
    rfl
  have hsame : p.withoutPorts.toDict.pyEq p.toDict = true := by
    rw [toDict_withoutPorts]
    exact p.spells.pyEq_self
  have hordinals : (reversedRange p.layers.length).pyEq
      (reversedRange (p.layers.map Layer.toDict).length) = true := by
    rw [List.length_map]
    exact (spells_ordinals p.accepted.layerCount.2).pyEq_self
  simp only [semanticStage1Plan, bind_eq_ok, orRaise_eq_ok, require_eq_ok, pure_eq_ok]
  refine ⟨_, rfl, (), ?_, _, rfl, _, rfl, (), ?_, p.withoutPorts, ?_, (), hsame, rfl⟩
  · simp only [hasKeys, keys, List.map_cons, List.map_nil]
    decide
  · simp only [planPolicyOk, Bool.and_eq_true]
    exact ⟨⟨⟨⟨⟨⟨⟨⟨⟨⟨⟨⟨decide_eq_true rfl, decide_eq_true rfl⟩, decide_eq_true rfl⟩, decide_eq_true
      rfl⟩, decide_eq_true rfl⟩, decide_eq_true rfl⟩, rfl⟩, rfl⟩, decide_eq_true
      rfl⟩, decide_eq_true rfl⟩, decide_eq_true rfl⟩, rfl⟩, hordinals⟩
  · simp only [planOfParts, Option.bind_eq_bind, Option.bind_eq_some_iff]
    exact ⟨p.process, hprocess, _, hnetwork, _, rfl, _, rfl, hmake⟩

/-! ### What the reference takes -/

theorem boundToOk_iff {plan : OCIStage1Plan} {b : Bindings} :
    boundToOk plan b = true ↔ plan.BoundTo b := by
  simp only [boundToOk, isDigestText, Bool.and_eq_true, decide_eq_true_eq]
  constructor
  · rintro ⟨⟨⟨hresource, hcore⟩, hroot⟩, hlowers⟩
    exact ⟨hresource, hcore, hroot, hlowers⟩
  · rintro ⟨hresource, hcore, hroot, hlowers⟩
    exact ⟨⟨⟨hresource, hcore⟩, hroot⟩, hlowers⟩

/-- The text of a plan is read as its dictionary. -/
theorem loadGuestPayload_payload (p : OCIStage1Plan) :
    loadGuestPayload p.payload = .ok p.toDict := by
  rw [loadGuestPayload, OCIStage1Plan.payload, ← encodeUtf8_eq, decodeUtf8_encodeUtf8,
    Option.map_some, p.spells.loads_eq]

/-- What the reference has found out when it returns. -/
theorem verifyGuest_sound {upperOf : Char → Text} {artifact : List UInt8} {b : Bindings}
    {v : VerifiedGuestStage1Plan} (h : verifyGuestStage1Transport upperOf artifact b = .ok v) :
    v.bindings = b ∧ v.artifactSizeBytes = artifact.length ∧ v.plan.BoundTo b ∧
      encode (digestOf artifact).1.toList = b.transportDigest ∧
        ∃ payload, (1 ≤ payload.length ∧ payload.length ≤ maxPayloadBytes) ∧
          artifact = envelope payload ∧ digestOf v.plan.payload = digestOf payload := by
  simp only [verifyGuestStage1Transport, bind_eq_ok, require_eq_ok, orRaise_eq_ok, pure_eq_ok,
    canonicalJsonBytes_toDict, isDigestText, Bool.and_eq_true, decide_eq_true_eq, List.all_eq_true,
    boundToOk_iff] at h
  obtain ⟨-, -, -, hdigest, -, hheader, -, ⟨hhash, hpadding⟩, value, -, canonical, -, -, -, plan, -,
    planPayload, hpayload, -, ⟨hbound, hsame⟩, rfl⟩ := h
  obtain rfl := Except.ok.inj hpayload
  obtain ⟨hpolicy, henvelope⟩ := eq_envelope_iff.mp ⟨⟨hheader, hhash, hpadding⟩, rfl⟩
  exact ⟨rfl, rfl, hbound, hdigest, _, hpolicy, henvelope, Subtype.ext hsame⟩

/-- The reference takes the envelope of a plan that the command line names. -/
theorem verifyGuest_envelope (upperOf : Char → Text) {p : OCIStage1Plan} {b : Bindings}
    (hle : p.payload.length ≤ maxPayloadBytes) (hbound : p.BoundTo b)
    (hdigest : encode (digestOf (envelope p.payload)).1.toList = b.transportDigest) :
    verifyGuestStage1Transport upperOf (envelope p.payload) b =
      .ok ⟨b, p.withoutPorts, (envelope p.payload).length⟩ := by
  have hpos := one_le_length_payload p
  have hunpack := unpackFrom_envelope hle
  have hbehind := payloadBehind_envelope p.payload
  have henvelope := isEnvelope_envelope hpos hle
  have hlong := le_aligned (headerSize + p.payload.length)
  have hcanonical : (canonicalJsonBytes p.toDict).toOption = some p.payload := by
    rw [canonicalJsonBytes_toDict]
    rfl
  simp only [verifyGuestStage1Transport, bind_eq_ok, require_eq_ok, orRaise_eq_ok, pure_eq_ok,
    isDigestText, Bool.and_eq_true, decide_eq_true_eq, List.all_eq_true, boundToOk_iff, hunpack,
    hbehind]
  refine ⟨(), ?_, (), hdigest, (), ?_, (), ⟨rfl, ?_⟩, p.toDict, loadGuestPayload_payload p,
    p.payload, hcanonical, (), rfl, p.withoutPorts, semanticStage1Plan_toDict upperOf p, p.payload,
    ?_, (), ⟨hbound, rfl⟩, rfl⟩
  · rw [length_envelope]
    exact ⟨⟨by omega, aligned_payload_le hle⟩, aligned_mod _⟩
  · rw [← hunpack]
    exact henvelope.header
  · rw [← hunpack]
    exact henvelope.padding
  · rw [toDict_withoutPorts, canonicalJsonBytes_toDict]

/-- **What the reference takes**: what the host has built for a plan that the command line names,
and nothing else but for a text with the hash of the plan's own. -/
theorem guestReference_exact (upperOf : Char → Text) (artifact : List UInt8) (b : Bindings) :
    (∀ plan built, buildStage1Transport plan = .ok built → plan.BoundTo b →
      encode (digestOf built.artifact).1.toList = b.transportDigest →
        verifyGuestStage1Transport upperOf built.artifact b =
          .ok ⟨b, plan.withoutPorts, built.artifact.length⟩) ∧
    ∀ v, verifyGuestStage1Transport upperOf artifact b = .ok v →
      v.bindings = b ∧ v.artifactSizeBytes = artifact.length ∧ v.plan.BoundTo b ∧
        encode (digestOf artifact).1.toList = b.transportDigest ∧
          ((∃ receipt, buildStage1Transport v.plan = .ok ⟨artifact, receipt, v.plan⟩) ∨
            ∃ payload, Collide v.plan.payload payload ∧ artifact = envelope payload) := by
  constructor
  · intro plan built hbuilt hbound hdigest
    obtain ⟨hle, hartifact, -, -⟩ := buildStage1Transport_eq_ok.mp hbuilt
    rw [hartifact] at hdigest ⊢
    exact verifyGuest_envelope upperOf hle hbound hdigest
  · intro v h
    obtain ⟨hbindings, hsize, hbound, hdigest, payload, hpolicy, hartifact,
      hsame⟩ := verifyGuest_sound h
    refine ⟨hbindings, hsize, hbound, hdigest, ?_⟩
    rcases eq_or_collide hsame with rfl | hcollide
    · refine Or.inl ⟨⟨receiptFor v.plan.payload, postInit_receiptFor hpolicy.1 hpolicy.2⟩, ?_⟩
      exact buildStage1Transport_eq_ok.mpr ⟨hpolicy.2, hartifact, rfl, rfl⟩
    · exact Or.inr ⟨payload, hcollide, hartifact⟩

end Palimpsest.Stage1
