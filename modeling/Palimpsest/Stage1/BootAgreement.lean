import Palimpsest.Stage1.GuestReference
import Palimpsest.Stage1.VerifyTransport

/-!
# The host and the two guests

What the host builds for a plan is taken by the reference, and by the guest if the layers of the
plan are numbered: a place that is written as `false` or as a float is a number to Python only
(`Palimpsest.Stage1.hostGuest_agree`). The other way round, what the guest takes is taken by the
reference if the contract of the network is the one that is derived from the run
(`Palimpsest.Stage1.guestReference_agree`).
-/

namespace Palimpsest.Stage1

open Json
open Control (digestOf encodeUtf8 hexText decodeUtf8 decodeUtf8_encodeUtf8)
open Network (Mode OCINetworkConfig guestMacAddress)
open Process (OCIProcessSpec)
open Guest (Bindings)
open Init (GuestPlan TransportDevice verifyTransport Numbered quoted quote_ofList)
open Utf8 (encode)
open Results (bind_eq_ok)

/-! ### Contracts -/

/-- The contract that a guest is told. -/
def NetworkSpec.contract (n : NetworkSpec) : NetworkContract where
  address := String.ofList (n.partText fun a => a.address.text)
  gateway := String.ofList (n.partText fun a => a.gateway.text)
  interface := "eth0"
  mac := String.ofList (n.partText fun a => a.mac.text)
  mode := n.mode
  nameservers := n.nameservers.map fun x => String.ofList x.text
  netmask := String.ofList (n.partText fun a => a.netmask.text)

theorem text_contract (n : NetworkSpec) : n.contract.text = n.text := by
  have hnameservers : (n.nameservers.map fun x => String.ofList x.text).map quote =
      n.nameservers.map fun x => quoted x.text := by
    rw [List.map_map]
    exact List.map_congr_left fun x _ => quote_ofList x.text
  rw [NetworkContract.text, NetworkSpec.contract, hnameservers]
  simp only [quote_ofList]
  rfl

/-- The bytes of the address that is derived for a run. -/
def runMac (runId : String) : Mac where
  bytes := [0x52, 0x54, 0x00] ++ (Sha256.digest
    (encodeUtf8 ("palimpsest-oci-root-network-mac-v1\x00".toList ++ runId.toList))).take 3
  length_eq := by rw [List.length_append, List.length_take, Sha256.length_digest]; rfl

theorem guestMacAddress_eq {runId : String} {mac : Text}
    (h : guestMacAddress runId.toList = .ok mac) : mac = (runMac runId).text := by
  have hthree : ∀ l : List UInt8, l.length = 32 → ∃ a b c rest, l = a :: b :: c :: rest := by
    intro l hl
    match l, hl with
    | a :: b :: c :: rest, _ => exact ⟨a, b, c, rest, rfl⟩
  simp only [guestMacAddress, bind_eq_ok] at h
  obtain ⟨-, -, -, -, h⟩ := h
  obtain rfl := Except.ok.inj h
  have htext : (runMac runId).text = pairsText ([0x52, 0x54, 0x00] ++ (Sha256.digest
    (encodeUtf8 ("palimpsest-oci-root-network-mac-v1\x00".toList ++ runId.toList))).take 3) := rfl
  rw [htext]
  generalize hhash : Sha256.digest
    (encodeUtf8 ("palimpsest-oci-root-network-mac-v1\x00".toList ++ runId.toList)) = hash
  have hlength : hash.length = 32 := by rw [← hhash, Sha256.length_digest]
  obtain ⟨a, b, c, rest, rfl⟩ := hthree hash hlength
  rfl

/-- What a guest is told of the network of a plan. -/
def OCIStage1Plan.networkSpec (p : OCIStage1Plan) : NetworkSpec :=
  let addresses : Addresses := ⟨⟨10, 0, 2, 15⟩, ⟨10, 0, 2, 2⟩, runMac p.runId, ⟨255, 255, 255, 0⟩⟩
  match p.network.1.mode with
  | .none => .none
  | .nat => .nat addresses ⟨10, 0, 2, 3⟩ [] (Nat.zero_le _)
  | .hostOnly => .hostOnly addresses

/-- The addresses of every guest with a network. -/
theorem ipv4_texts : (⟨10, 0, 2, 15⟩ : Ipv4).text = "10.0.2.15".toList ∧
    (⟨10, 0, 2, 2⟩ : Ipv4).text = "10.0.2.2".toList ∧
      (⟨255, 255, 255, 0⟩ : Ipv4).text = "255.255.255.0".toList ∧
        (⟨10, 0, 2, 3⟩ : Ipv4).text = "10.0.2.3".toList := by decide

theorem contract_networkSpec (p : OCIStage1Plan) : p.networkSpec.contract = p.networkContract := by
  obtain ⟨haddress, hgateway, hnetmask, hnameserver⟩ := ipv4_texts
  have h := p.guestContract_eq
  rw [guestContract] at h
  -- The three modes; the addresses are the same fixed ones wherever there is an interface.
  cases hmode : p.network.1.mode with
  | none =>
    have henabled : p.network.enabled = false := by rw [OCINetworkConfig.enabled, hmode]; rfl
    rw [henabled, if_neg (by decide), hmode] at h
    rw [← Except.ok.inj h, OCIStage1Plan.networkSpec, hmode]
    rfl
  | nat =>
    have henabled : p.network.enabled = true := by rw [OCINetworkConfig.enabled, hmode]; rfl
    have hegress : p.network.egress = true := by rw [OCINetworkConfig.egress, hmode]; rfl
    rw [henabled, if_pos rfl, hegress, if_pos rfl, hmode] at h
    obtain ⟨mac, hmac, h⟩ := bind_eq_ok.mp h
    rw [← Except.ok.inj h, OCIStage1Plan.networkSpec, hmode, guestMacAddress_eq hmac]
    simp only [NetworkSpec.contract, NetworkSpec.partText, NetworkSpec.addresses?, Option.map_some,
      Option.getD_some, haddress, hgateway, hnetmask, hnameserver, NetworkSpec.nameservers,
      List.map_cons, List.map_nil, String.ofList_toList]
    rfl
  | hostOnly =>
    have henabled : p.network.enabled = true := by rw [OCINetworkConfig.enabled, hmode]; rfl
    have hegress : p.network.egress = false := by rw [OCINetworkConfig.egress, hmode]; rfl
    rw [henabled, if_pos rfl, hegress, if_neg (by decide), hmode] at h
    obtain ⟨mac, hmac, h⟩ := bind_eq_ok.mp h
    rw [← Except.ok.inj h, OCIStage1Plan.networkSpec, hmode, guestMacAddress_eq hmac]
    simp only [NetworkSpec.contract, NetworkSpec.partText, NetworkSpec.addresses?, Option.map_some,
      Option.getD_some, haddress, hgateway, hnetmask, NetworkSpec.nameservers, List.map_nil,
      String.ofList_toList]
    rfl

/-! ### Plans with one text -/

theorem spells_guestPlan (q : GuestPlan) :
    Spells (q.toContents.toDictWith q.network.contract) q.text := by
  have h := spells_plan q.accepted q.network.contract
  rwa [text_contract] at h

theorem layer_toDict_injective : Function.Injective Layer.toDict := by
  rintro ⟨image, occurrence, ordinal, serial, size⟩ ⟨image', occurrence', ordinal', serial',
    size'⟩ h
  simp only [Layer.toDict, Value.dict.injEq, List.cons.injEq, Prod.mk.injEq, Value.str.injEq,
    Value.int.injEq, Nat.cast_inj, true_and, and_true] at h
  obtain ⟨rfl, rfl, rfl, rfl, rfl⟩ := h
  rfl

/-- The layers stand in the dictionary of a plan. -/
theorem layers_of_toDictWith {c c' : Contents} {n n' : NetworkContract}
    (h : c.toDictWith n = c'.toDictWith n') : c.layers = c'.layers := by
  have hassembly := congrArg (fun v => get ((dictFields v).getD []) "assembly") h
  have hlayers := congrArg (fun v => listOf (get ((dictFields v).getD []) "layers")) hassembly
  have hmap : c.layers.map Layer.toDict = c'.layers.map Layer.toDict := Option.some.inj hlayers
  exact List.map_injective_iff.mpr layer_toDict_injective hmap

/-- Plans with one text have the same layers. -/
theorem layers_of_payload {q : GuestPlan} {p : OCIStage1Plan} (h : encode q.text = p.payload) :
    q.layers = p.layers := by
  have htext : q.text = p.text := Utf8.encode_injective h
  have hloads := (spells_guestPlan q).loads_eq
  rw [htext, p.spells.loads_eq] at hloads
  exact (layers_of_toDictWith (Except.ok.inj hloads)).symm

/-- A plan as the guest reads it, when its layers are numbered. -/
def OCIStage1Plan.guestPlan (p : OCIStage1Plan) (h : Numbered 0 p.layers) : GuestPlan where
  toContents := p.toContents
  network := p.networkSpec
  accepted := p.accepted
  numbered := h

theorem encode_guestPlan (p : OCIStage1Plan) (h : Numbered 0 p.layers) :
    encode (p.guestPlan h).text = p.payload := by
  have htext : (p.guestPlan h).text = p.toContents.text p.networkSpec.text := rfl
  rw [htext, ← text_contract, contract_networkSpec]
  rfl

/-- The layers that the host accepts are different. -/
theorem distinct_of_layersOk {ordinal bytes : ℕ} {serials : List String} {layers : List Layer}
    (h : layersOk ordinal serials bytes layers = true) :
    (layers.map Layer.serial).Nodup ∧ ∀ layer ∈ layers, layer.serial ∉ serials := by
  induction layers generalizing ordinal bytes serials with
  | nil => exact ⟨List.nodup_nil, List.forall_mem_nil _⟩
  | cons layer layers ih =>
    simp only [layersOk, Layer.policyOk, Bool.and_eq_true, decide_eq_true_eq] at h
    obtain ⟨⟨⟨⟨⟨⟨⟨⟨-, hnew⟩, -⟩, -⟩, -⟩, -⟩, -⟩, -⟩, hrest⟩ := h
    obtain ⟨hnodup, hother⟩ := ih hrest
    rw [List.map_cons, List.nodup_cons, List.forall_mem_cons]
    refine ⟨⟨?_, hnodup⟩, hnew, fun other ho hmem => hother other ho (List.mem_cons_of_mem _ hmem)⟩
    rintro hmem
    obtain ⟨other, ho, heq⟩ := List.mem_map.mp hmem
    exact hother other ho (heq ▸ List.mem_cons_self)

/-- Bindings that name a plan are ones that the parser can rely on. -/
theorem sound_of_boundTo {c : Contents} (hc : c.Accepted) {b : Bindings} (h : c.BoundTo b) :
    Init.Sound b := by
  have hinj : Function.Injective fun s : String => encode s.toList :=
    Utf8.encode_injective.comp fun _ _ => String.toList_injective
  have hdigest : ∀ s : String, Control.isDigest s = true →
      Guest.Init.validDigest (encode s.toList) = true := by
    intro s hs
    rw [Init.sameGrammar_digest.encode_eq (Init.sameGrammar_digest.isSpan hs).isAscii]
    rwa [String.ofList_toList]
  obtain ⟨hnodup, hother⟩ := distinct_of_layersOk hc.layers
  refine ⟨?_, ?_, ?_⟩
  · rw [← h.resource]
    exact hdigest _ hc.bootPlanDigest
  · rw [← h.core]
    exact hdigest _ hc.domainCoreDigest
  · have hmap : c.layers.map (fun layer => encode layer.serial.toList) =
        (c.layers.map Layer.serial).map fun s => encode s.toList := by
      rw [List.map_map]
      rfl
    rw [← h.root, ← h.lowers, hmap, ← List.map_cons (f := fun s : String => encode s.toList),
      List.nodup_map_iff hinj, List.nodup_cons]
    refine ⟨?_, hnodup⟩
    intro hmem
    obtain ⟨layer, hlayer, heq⟩ := List.mem_map.mp hmem
    exact hother layer hlayer (heq ▸ List.mem_singleton_self _)

/-- **What the host builds is verified by all three**: by the host, by the reference and by the
guest, which is the only one to ask for numbers as the places of the layers. -/
theorem hostGuest_agree {plan : OCIStage1Plan} {built : BuiltOCIStage1Transport} {b : Bindings}
    {device : TransportDevice} (upperOf : Char → Text)
    (hbuilt : buildStage1Transport plan = .ok built)
    (hbound : plan.BoundTo b)
    (hdigest : encode (digestOf built.artifact).1.toList = b.transportDigest)
    (hdevice : device.Trusted) (hcontent : device.content = built.artifact) :
    verifyStage1Transport built.artifact built.receipt plan = .ok plan ∧
      verifyGuestStage1Transport upperOf built.artifact b =
        .ok ⟨b, plan.withoutPorts, built.artifact.length⟩ ∧
      ∀ x, verifyTransport device b = .ok x ↔
        ∃ h : Numbered 0 plan.layers, x = (plan.guestPlan h).view b := by
  obtain ⟨hle, hartifact, -, -⟩ := buildStage1Transport_eq_ok.mp hbuilt
  have hreference : verifyGuestStage1Transport upperOf built.artifact b =
      .ok ⟨b, plan.withoutPorts, built.artifact.length⟩ := by
    rw [hartifact] at hdigest ⊢
    exact verifyGuest_envelope upperOf hle hbound hdigest
  refine ⟨verify_of_build hbuilt, hreference, fun x => ?_⟩
  have hsound := sound_of_boundTo plan.accepted hbound
  rw [Init.verifyTransport_eq_ok hsound]
  have hpos := one_le_length_payload plan
  constructor
  · rintro ⟨-, q, hq, rfl, hlength, henvelope, -⟩
    have hpayload : encode q.text = plan.payload := by
      have h₁ := (eq_envelope_iff.mpr ⟨⟨Init.one_le_length_text q, hlength⟩, henvelope⟩).2
      have h₂ := (eq_envelope_iff.mpr ⟨⟨hpos, hle⟩, hcontent.trans hartifact⟩).2
      rw [h₁, h₂]
    have hnumbered : Numbered 0 plan.layers := layers_of_payload hpayload ▸ q.numbered
    refine ⟨hnumbered, ?_⟩
    -- the parser is a function, so the two plans with one text are read as one
    have hparse := (Init.parsePlan_eq_some hsound).mpr ⟨q, hq, rfl, rfl⟩
    have hparse' := (Init.parsePlan_eq_some hsound).mpr ⟨plan.guestPlan hnumbered,
      ⟨hbound.resource, hbound.core, hbound.root, hbound.lowers⟩, rfl, rfl⟩
    rw [encode_guestPlan, ← hpayload, hparse] at hparse'
    exact Option.some.inj hparse'
  · rintro ⟨hnumbered, rfl⟩
    refine ⟨hdevice, plan.guestPlan hnumbered,
      ⟨hbound.resource, hbound.core, hbound.root, hbound.lowers⟩, rfl, ?_, ?_, ?_⟩
    · rwa [encode_guestPlan]
    · rw [encode_guestPlan, hcontent, hartifact]
    · rw [hcontent, hdigest]

/-! ### A sample -/

/-- A shell as root. -/
def sampleProcess : OCIProcessSpec where
  argv := ["/bin/sh".toList]
  environment := [("PATH".toList, "/bin".toList)]
  cwd := "/".toList
  user := ⟨"root".toList, none, by decide, groupOk_none⟩
  stopSignal := 15
  accepted := {
    arguments := by decide
    argv := List.forall_mem_singleton.mpr ⟨by decide, by decide⟩
    environment := ⟨List.forall_mem_singleton.mpr ⟨by decide, by decide, by decide⟩, by decide,
      by decide, by decide⟩
    cwd := ⟨by decide, by decide, by decide⟩
    canonical := by decide
    stopSignal := by decide
    total := by decide }

def zeroUuid : String := "00000000-0000-0000-0000-000000000000"
def zeroDigest : String := "sha256:0000000000000000000000000000000000000000000000000000000000000000"

theorem deviceSerial_zeroUuid : deviceSerial "root" zeroUuid = "4dfe07bf75da81118d17" := by
  decide +kernel

theorem deviceSerial_zeroDigest : deviceSerial "lower" zeroDigest = "d8f02c76f3a863cdbb85" := by
  decide +kernel

/-- The smallest root and the smallest layer, and nothing to look for in them. -/
def sampleContents : Contents where
  runId := zeroUuid
  runName := "run"
  bootPlanDigest := zeroDigest
  domainCoreDigest := zeroDigest
  root := ⟨zeroUuid, 1, "4dfe07bf75da81118d17", 16777216, zeroUuid⟩
  layers := [⟨zeroDigest, zeroDigest, .int 0, "d8f02c76f3a863cdbb85", 512⟩]
  process := sampleProcess
  assemblyProbes := []

theorem accepted_sampleContents : sampleContents.Accepted where
  runId := by decide
  runName := by decide
  bootPlanDigest := by decide
  domainCoreDigest := by decide
  root := by
    simp only [Root.policyOk, sampleContents, deviceSerial_zeroUuid]
    decide +kernel
  layerCount := by decide
  layers := by
    simp only [layersOk, Layer.policyOk, sampleContents, deviceSerial_zeroDigest]
    decide
  bootable := by decide
  probeCount := by decide
  probes := by decide

theorem length_encode_le_room {v : Value} {t : Text} (h : Spells v t) :
    (encode t).length ≤ v.room := by
  rw [Init.length_encode]
  exact (byteLength_dumps_le h.dumps_eq).trans v.width_le_room

/-- The device with the envelope of a plan. -/
def sampleDevice (q : GuestPlan) : TransportDevice :=
  ⟨false, (envelope (encode q.text)).length, envelope (encode q.text), true, true⟩

/-- The bindings that name the sample and the envelope of a plan. -/
def sampleBindings (q : GuestPlan) : Bindings :=
  { Guest.zeroBindings with
    transportDigest := encode (digestOf (envelope (encode q.text))).1.toList
    rootSerial := encode "4dfe07bf75da81118d17".toList
    lowerSerials := [encode "d8f02c76f3a863cdbb85".toList] }

theorem encode_zeroDigest : encode zeroDigest.toList = Guest.zeroBindings.resourceDigest := by
  decide

theorem boundTo_sampleBindings (q : GuestPlan) : sampleContents.BoundTo (sampleBindings q) where
  resource := encode_zeroDigest
  core := encode_zeroDigest
  root := rfl
  lowers := rfl

theorem trusted_sampleDevice (q : GuestPlan) : (sampleDevice q).Trusted where
  found := rfl
  size := Or.inr (by simp only [sampleDevice])
  settled := Or.inr rfl

/-- A plan of the sample with a network, as the host has it. -/
def sampleStage1 : OCIStage1Plan :=
  ⟨⟨sampleContents, ofMode .nat⟩, accepted_sampleContents⟩

theorem numbered_sampleStage1 : Numbered 0 sampleStage1.layers := ⟨rfl, trivial⟩

/-- The same plan, as the guest has it. -/
def samplePlan : GuestPlan := sampleStage1.guestPlan numbered_sampleStage1

theorem payload_sampleStage1 : sampleStage1.payload = encode samplePlan.text :=
  (encode_guestPlan sampleStage1 numbered_sampleStage1).symm

theorem length_sampleStage1 : sampleStage1.payload.length ≤ maxPayloadBytes := by
  have hroom : sampleStage1.toDict.room ≤ maxPayloadBytes := by decide +kernel
  exact (length_encode_le_room sampleStage1.spells).trans hroom

/-- What the host builds for it. -/
def sampleBuilt : BuiltOCIStage1Transport where
  artifact := envelope sampleStage1.payload
  receipt := ⟨receiptFor sampleStage1.payload,
    postInit_receiptFor (one_le_length_payload _) length_sampleStage1⟩
  stage1Plan := sampleStage1

theorem hostGuest_agree_sample :
    verifyStage1Transport sampleBuilt.artifact sampleBuilt.receipt sampleStage1 = .ok sampleStage1 ∧
      verifyGuestStage1Transport (fun c => [c]) sampleBuilt.artifact (sampleBindings samplePlan) =
        .ok ⟨sampleBindings samplePlan, sampleStage1.withoutPorts, sampleBuilt.artifact.length⟩ ∧
      ∀ x, verifyTransport (sampleDevice samplePlan) (sampleBindings samplePlan) = .ok x ↔
        ∃ h : Numbered 0 sampleStage1.layers,
          x = (sampleStage1.guestPlan h).view (sampleBindings samplePlan) := by
  have hbuilt : buildStage1Transport sampleStage1 = .ok sampleBuilt :=
    buildStage1Transport_eq_ok.mpr ⟨length_sampleStage1, rfl, rfl, rfl⟩
  have hartifact : sampleBuilt.artifact = envelope (encode samplePlan.text) := by
    simp only [sampleBuilt, payload_sampleStage1]
  refine hostGuest_agree _ hbuilt (boundTo_sampleBindings _) ?_ (trusted_sampleDevice _) ?_
  · rw [hartifact]
    simp only [sampleBindings]
  · rw [hartifact]
    simp only [sampleDevice]

/-! ### What the guest takes -/

theorem eq_of_pyEq_str {s t : String} (h : (Value.str s).pyEq (.str t) = true) : s = t := by
  rw [Value.pyEq] at h
  exact of_decide_eq_true h

theorem eq_of_pyEq_strings {l k : List String}
    (h : (strings l).pyEq (strings k) = true) : l = k := by
  rw [strings, strings, Value.pyEq] at h
  induction l generalizing k with
  | nil =>
    cases k with
    | nil => rfl
    | cons t k => cases h
  | cons s l ih =>
    cases k with
    | nil => cases h
    | cons t k =>
      rw [List.map_cons, List.map_cons, Value.pyEqItems, Bool.and_eq_true] at h
      rw [eq_of_pyEq_str h.1, ih h.2]

/-- Contracts that are equal to Python are equal. -/
theorem eq_of_pyEq_contract {n k : NetworkContract}
    (h : n.toDict.pyEq k.toDict = true) : n = k := by
  obtain ⟨address, gateway, interface, mac, mode, nameservers, netmask⟩ := n
  obtain ⟨address', gateway', interface', mac', mode', nameservers', netmask'⟩ := k
  rw [NetworkContract.toDict, NetworkContract.toDict, Value.pyEq, Bool.and_eq_true,
    pyEqFields_iff] at h
  simp only [List.forall_mem_cons] at h
  obtain ⟨-, ⟨_, h₁, e₁⟩, ⟨_, h₂, e₂⟩, ⟨_, h₃, e₃⟩, ⟨_, h₄, e₄⟩, ⟨_, h₅, e₅⟩, ⟨_, h₆, e₆⟩, ⟨_, h₇,
    e₇⟩, -⟩ := h
  obtain rfl := Option.some.inj h₁
  obtain rfl := Option.some.inj h₂
  obtain rfl := Option.some.inj h₃
  obtain rfl := Option.some.inj h₄
  obtain rfl := Option.some.inj h₅
  obtain rfl := Option.some.inj h₆
  obtain rfl := Option.some.inj h₇
  rw [eq_of_pyEq_str e₁, eq_of_pyEq_str e₂, eq_of_pyEq_str e₃, eq_of_pyEq_str e₄, eq_of_pyEq_str e₅,
    eq_of_pyEq_strings e₆, eq_of_pyEq_str e₇]

/-- A contract that is read is derived from the run. -/
theorem derived_of_fromGuestContract {n : NetworkContract} {runId : String} {c : OCINetworkConfig}
    (h : fromGuestContract n.toDict (.str runId) = some c) :
    ∃ mode, guestContract (ofMode mode) runId = .ok n := by
  simp only [fromGuestContract, NetworkContract.toDict, Option.bind_eq_bind,
    Option.bind_eq_some_iff] at h
  obtain ⟨-, -, mode, -, contract, hcontract, _, hsame, -⟩ := h
  have heq := eq_of_pyEq_contract (guard_eq_some.mp hsame)
  subst heq
  refine ⟨mode, ?_⟩
  cases hresult : guestContract (ofMode mode) runId with
  | error e =>
    have hnone : (guestContract (ofMode mode) runId).toOption = some contract := hcontract
    rw [hresult] at hnone
    cases hnone
  | ok contract' =>
    have hsome : (guestContract (ofMode mode) runId).toOption = some contract := hcontract
    rw [hresult] at hsome
    rw [Option.some.inj hsome]

/-- The network of the plan is the one that is derived from its run. -/
def GuestPlanDerived (q : GuestPlan) : Prop :=
  ∃ mode, guestContract (ofMode mode) q.runId = .ok q.network.contract

theorem loadGuestPayload_guestPlan (q : GuestPlan) :
    loadGuestPayload (encode q.text) = .ok (q.toContents.toDictWith q.network.contract) := by
  rw [loadGuestPayload, ← encodeUtf8_eq, decodeUtf8_encodeUtf8, Option.map_some,
    (spells_guestPlan q).loads_eq]

/-- The reference takes a plan that the guest has read only if its network is derived. -/
theorem derived_of_verifyGuest {upperOf : Char → Text} {q : GuestPlan} {b : Bindings}
    {v : VerifiedGuestStage1Plan} (hle : (encode q.text).length ≤ maxPayloadBytes)
    (h : verifyGuestStage1Transport upperOf (envelope (encode q.text)) b = .ok v) :
    GuestPlanDerived q := by
  have hunpack := unpackFrom_envelope hle
  have hbehind := payloadBehind_envelope (encode q.text)
  simp only [verifyGuestStage1Transport, bind_eq_ok, hunpack, hbehind] at h
  obtain ⟨-, -, -, -, -, -, -, -, value, hload, -, -, -, -, plan, hplan, -⟩ := h
  rw [loadGuestPayload_guestPlan] at hload
  obtain rfl := Except.ok.inj hload
  simp only [semanticStage1Plan, bind_eq_ok, orRaise_eq_ok] at hplan
  obtain ⟨d, hd, -, -, run, hrun, assembly, -, -, -, plan, hparts, -⟩ := hplan
  obtain rfl := Option.some.inj hd
  obtain rfl := Option.some.inj hrun
  simp only [planOfParts, Option.bind_eq_bind, Option.bind_eq_some_iff] at hparts
  obtain ⟨-, -, network, hnetwork, -⟩ := hparts
  exact derived_of_fromGuestContract hnetwork

/-- The plan with another network. -/
def withNetwork (q : GuestPlan) (n : NetworkSpec) : GuestPlan :=
  ⟨q.toContents, n, q.accepted, q.numbered⟩

/-- The bindings with another image named. -/
def namedBy (b : Bindings) (content : List UInt8) : Bindings :=
  { b with transportDigest := encode (digestOf content).1.toList }

theorem sound_namedBy {b : Bindings} (hb : Init.Sound b) (content : List UInt8) :
    Init.Sound (namedBy b content) := by
  simp only [namedBy]
  exact ⟨hb.resource, hb.core, hb.nodup⟩

theorem boundTo_namedBy {b : Bindings} {c : Contents} (hc : c.BoundTo b) (content : List UInt8) :
    c.BoundTo (namedBy b content) := by
  simp only [namedBy]
  exact ⟨hc.resource, hc.core, hc.root, hc.lowers⟩

/-- The guest compares nothing of a network with the run, so it takes any that fits. -/
theorem verifyTransport_withNetwork {b : Bindings} (hb : Init.Sound b) {q : GuestPlan}
    (hq : q.BoundTo b) {n : NetworkSpec}
    (hle : (encode (withNetwork q n).text).length ≤ maxPayloadBytes) {device : TransportDevice}
    (hdevice : device.Trusted)
    (hcontent : device.content = envelope (encode (withNetwork q n).text)) :
    verifyTransport device (namedBy b device.content) =
      .ok ((withNetwork q n).view (namedBy b device.content)) := by
  have hdigest : encode (digestOf device.content).1.toList =
      (namedBy b device.content).transportDigest := by simp only [namedBy]
  exact (Init.verifyTransport_eq_ok (sound_namedBy hb _)).mpr
    ⟨hdevice, withNetwork q n, boundTo_namedBy hq _, rfl, hle, hcontent, hdigest⟩

/-- **What the guest takes, the reference takes** if the contract of the network is the one that is
derived from the run, and only then. The guest takes the same plan with any other network that a
contract can say. -/
theorem guestReference_agree {b : Bindings} (hb : Init.Sound b) (upperOf : Char → Text)
    {device : TransportDevice} {x : Init.ParsedPlan} (h : verifyTransport device b = .ok x) :
    ∃ q : GuestPlan, x = q.view b ∧ device.content = envelope (encode q.text) ∧
      ((∃ v, verifyGuestStage1Transport upperOf device.content b = .ok v) ↔
        GuestPlanDerived q) ∧
      ∀ (n : NetworkSpec) (other : TransportDevice), other.Trusted →
        (encode (withNetwork q n).text).length ≤ maxPayloadBytes →
        other.content = envelope (encode (withNetwork q n).text) →
        verifyTransport other (namedBy b other.content) =
          .ok ((withNetwork q n).view (namedBy b other.content)) := by
  obtain ⟨-, q, hq, hx, hle, henvelope, hdigest⟩ := (Init.verifyTransport_eq_ok hb).mp h
  refine ⟨q, hx, henvelope, ?_, fun n other hother hfits hcontent =>
    verifyTransport_withNetwork hb hq hfits hother hcontent⟩
  constructor
  · rintro ⟨v, hv⟩
    rw [henvelope] at hv
    exact derived_of_verifyGuest hle hv
  · rintro ⟨mode, hmode⟩
    let p : OCIStage1Plan := ⟨⟨q.toContents, ofMode mode⟩, q.accepted⟩
    have hcontract : p.networkContract = q.network.contract :=
      Except.ok.inj (p.guestContract_eq.symm.trans hmode)
    have hpayload : p.payload = encode q.text := by
      have htext : q.text = q.toContents.text q.network.text := rfl
      rw [OCIStage1Plan.payload, OCIStage1Plan.text, hcontract, text_contract, htext]
    rw [henvelope, ← hpayload] at hdigest
    rw [henvelope, ← hpayload]
    exact ⟨_, verifyGuest_envelope upperOf (hpayload ▸ hle) ⟨hq.resource, hq.core, hq.root,
      hq.lowers⟩ hdigest⟩

theorem length_literalMac : ([0, 1, 2, 3, 4, 5] : List UInt8).length = 6 := rfl

/-- Addresses that no run has. -/
def literalNetwork : NetworkSpec :=
  .nat ⟨⟨1, 2, 3, 4⟩, ⟨1, 2, 3, 1⟩, ⟨[0, 1, 2, 3, 4, 5], length_literalMac⟩, ⟨255, 255, 0, 0⟩⟩
    ⟨8, 8, 8, 8⟩ [] (Nat.zero_le _)

/-- A plan of the sample with these addresses. -/
def literalPlan : GuestPlan := ⟨sampleContents, literalNetwork, accepted_sampleContents,
  numbered_sampleStage1⟩

theorem length_literalPlan : (encode literalPlan.text).length ≤ maxPayloadBytes := by
  have hroom : (sampleContents.toDictWith literalNetwork.contract).room ≤ maxPayloadBytes := by
    decide
  exact (length_encode_le_room (spells_guestPlan literalPlan)).trans hroom

/-- The address of every guest is `10.0.2.15`. -/
theorem not_derived_literalPlan : ¬GuestPlanDerived literalPlan := by
  rintro ⟨mode, hmode⟩
  let p : OCIStage1Plan := ⟨⟨sampleContents, ofMode mode⟩, accepted_sampleContents⟩
  have hcontract : p.networkSpec.contract = literalNetwork.contract :=
    (contract_networkSpec p).trans (Except.ok.inj (p.guestContract_eq.symm.trans hmode))
  have haddress := congrArg (fun c => c.address.toList) hcontract
  cases mode <;> exact absurd haddress (by decide)

theorem guestReference_agree_literal : ¬GuestPlanDerived literalPlan ∧
    ∃ q : GuestPlan, literalPlan.view (sampleBindings literalPlan) =
        q.view (sampleBindings literalPlan) ∧
      (sampleDevice literalPlan).content = envelope (encode q.text) ∧
      ((∃ v, verifyGuestStage1Transport (fun c => [c]) (sampleDevice literalPlan).content
        (sampleBindings literalPlan) = .ok v) ↔ GuestPlanDerived q) ∧
      ∀ (n : NetworkSpec) (other : TransportDevice), other.Trusted →
        (encode (withNetwork q n).text).length ≤ maxPayloadBytes →
        other.content = envelope (encode (withNetwork q n).text) →
        verifyTransport other (namedBy (sampleBindings literalPlan) other.content) =
          .ok ((withNetwork q n).view (namedBy (sampleBindings literalPlan) other.content)) := by
  have hbound : sampleContents.BoundTo (sampleBindings literalPlan) := boundTo_sampleBindings _
  have hsound := sound_of_boundTo accepted_sampleContents hbound
  refine ⟨not_derived_literalPlan, guestReference_agree hsound _
    ((Init.verifyTransport_eq_ok hsound).mpr ⟨trusted_sampleDevice _, literalPlan, hbound, rfl,
      length_literalPlan, ?_, ?_⟩)⟩
  · simp only [sampleDevice]
  · simp only [sampleDevice, sampleBindings]

end Palimpsest.Stage1
