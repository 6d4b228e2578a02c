import Palimpsest.Stage1.AssemblyParser

/-!
# The guest's parser of the plan

The guest reads the plan in one pass, with every key where the host puts it, and compares it with
what the kernel command line says. What it reads are the texts of plans that the host accepts
there, with any contract of the network that a guest can be told of, and of no others
(`Palimpsest.Stage1.Init.parsePlan_eq_some`). So the devices it then waits for and the process it
runs are those of the plan.
-/

namespace Palimpsest.Stage1.Init

open Json ByteParser
open Control (isUuid isDigest)
open Guest (Bindings)
open Process (OCIProcessSpec)
open Utf8 (asciiByte encode)

variable {l r : List UInt8}

/-- What is left of a plan when it is read. -/
structure ParsedPlan where
  lowers : List LowerDevice
  probes : List ProbeFile
  topOrdinal : ℕ
  root : RootDevice
  network : GuestNetwork
  process : GuestProcess
  runId : List UInt8
  core : List UInt8
  transport : List UInt8
  deriving DecidableEq

/-- A plan that a guest can be given: one that the host accepts, with its layers numbered and any
contract of the network. -/
structure GuestPlan extends Contents where
  network : NetworkSpec
  accepted : toContents.Accepted
  numbered : Numbered 0 layers

/-- The text of the plan. -/
def GuestPlan.text (p : GuestPlan) : Text := p.toContents.text p.network.text

/-- What the guest takes from a plan. -/
def GuestPlan.view (p : GuestPlan) (b : Bindings) : ParsedPlan where
  lowers := p.layers.map lowerView
  probes := p.assemblyProbes.map probeView
  topOrdinal := p.layers.length - 1
  root := rootView p.root
  network := networkView p.network
  process := processView p.process.toFields
  runId := encode p.runId.toList
  core := b.domainCoreDigest
  transport := b.transportDigest

/-- A field with a digest that the command line names. -/
def boundField (name : String) (expected : List UInt8) : ByteParser Unit := do
  let s ← field ',' name plainString
  check (s.1.length = 71 && s.1 = expected)

/-- `parse_plan`, up to the end of the plan. -/
def planBody (b : Bindings) : ByteParser ParsedPlan := do
  let assembly ← field '{' "assembly" (parseAssembly b)
  boundField "boot_plan_digest" b.resourceDigest
  boundField "domain_core_digest" b.domainCoreDigest
  fixedField ',' "handoff" "first-party-pid1-supervisor.v9"
  fixedField ',' "isolation" "palimpsest.workload-lifecycle-authority-isolation.v3"
  let network ← field ',' "network" parseNetwork
  fixedField ',' "phase" "stage1-contract"
  let process ← field ',' "process" parseProcess
  fixedField ',' "process_policy"
    "image-root-account-path-capabilityless-isolated-user-group.v3"
  fixedField ',' "protocol" "palimpsest.guest-stage1.v16"
  let runId ← field ',' "run" parseRun
  fixedField ',' "schema" "palimpsest.oci-stage1-plan.v16"
  expect '}'
  return ⟨assembly.lowers, assembly.probes, assembly.lowers.length - 1, assembly.root, network,
    process, runId, b.domainCoreDigest, b.transportDigest⟩

/-- `parse_plan` -/
def parsePlan (b : Bindings) (payload : List UInt8) : Option ParsedPlan := do
  let p ← planBody b payload
  if p.2 ≠ [] then none else return p.1

theorem boundField_eq_some {name : String} (hname : IsSpan name.toList) {expected : List UInt8}
    {u : Unit} : boundField name expected l = some (u, r) ↔ ∃ s : String, IsSpan s.toList ∧
      (expected.length = 71 ∧ encode s.toList = expected) ∧
        l = fieldStart ',' name (encode (quote s) ++ r) := by
  simp only [boundField, bind_eq_some, check_eq_some, Bool.and_eq_true, decide_eq_true_eq,
    field_eq_some comma_ascii hname]
  constructor
  · rintro ⟨⟨raw, n⟩, _, ⟨_, rfl, hplain⟩, ⟨hlen, rfl⟩, rfl⟩
    obtain ⟨t, ht, heq, -, rfl⟩ := plainString_eq_some.mp hplain
    dsimp only at hlen heq ⊢
    refine ⟨String.ofList t, ?_, ⟨hlen, ?_⟩, ?_⟩
    · rwa [String.toList_ofList]
    · rw [String.toList_ofList, heq]
    · rw [quote_ofList]
  · rintro ⟨s, hs, ⟨hlen, rfl⟩, rfl⟩
    exact ⟨_, r, ⟨_, rfl, plainString_eq_some.mpr ⟨s.toList, hs, rfl, rfl, rfl⟩⟩, ⟨hlen, rfl⟩, rfl⟩

/-- The text of a plan, from the front. -/
theorem encode_planText (p : GuestPlan) (r : List UInt8) : encode p.text ++ r =
    fieldStart '{' "assembly" (encode p.assemblyText ++
    fieldStart ',' "boot_plan_digest" (encode (quote p.bootPlanDigest) ++
    fieldStart ',' "domain_core_digest" (encode (quote p.domainCoreDigest) ++
    fieldStart ',' "handoff" (encode (quote handoff) ++
    fieldStart ',' "isolation" (encode (quote workloadIsolation) ++
    fieldStart ',' "network" (encode p.network.text ++
    fieldStart ',' "phase" (encode (quote phase) ++
    fieldStart ',' "process" (encode (processText p.process.toFields) ++
    fieldStart ',' "process_policy" (encode (quote processPolicy) ++
    fieldStart ',' "protocol" (encode (quote protocol) ++
    fieldStart ',' "run" (encode p.runText ++
    fieldStart ',' "schema" (encode (quote planSchema) ++ (encode ['}'] ++ r))))))))))))) :=
  encode_objText _ _ _ _

/-- What the parser relies on of the bindings: digests, and serials that are different. -/
structure Sound (b : Bindings) : Prop where
  resource : Guest.Init.validDigest b.resourceDigest = true
  core : Guest.Init.validDigest b.domainCoreDigest = true
  nodup : (b.rootSerial :: b.lowerSerials).Nodup

/-- The bindings that the guest has read from the command line are. -/
theorem sound_of_valid {b : Bindings} (hb : b.Valid) : Sound b :=
  ⟨hb.resource, hb.core, (List.nodup_cons.mp hb.nodup).2⟩

/-- A digest that the command line names. -/
theorem bound_digest {expected : List UInt8} (h : Guest.Init.validDigest expected = true)
    {s : String} (hs : IsSpan s.toList) :
    (expected.length = 71 ∧ encode s.toList = expected) ↔
      isDigest s = true ∧ encode s.toList = expected := by
  refine and_congr_left ?_
  rintro rfl
  have hdigest : isDigest s = true := by
    rw [validDigest_encode hs.isAscii, String.ofList_toList] at h
    exact h
  refine iff_of_true ?_ hdigest
  rw [Guest.Init.validDigest, Bool.and_eq_true, Bool.and_eq_true, decide_eq_true_eq] at h
  exact h.1.1

/-- The layers of a plan that is bound to such bindings are different. -/
theorem serials_of_bound {b : Bindings} (hb : Sound b) {layers : List Layer} {root : Root}
    (hlowers : layers.map (fun layer => encode layer.serial.toList) = b.lowerSerials)
    (hroot : encode root.serial.toList = b.rootSerial) :
    (layers.map Layer.serial).Nodup ∧ ∀ layer ∈ layers, layer.serial ∉ [root.serial] := by
  have hnodup := hb.nodup
  rw [← hlowers, ← hroot, List.nodup_cons] at hnodup
  obtain ⟨hnew, hnodup⟩ := hnodup
  constructor
  · have hmap : layers.map (fun layer => encode layer.serial.toList) =
        (layers.map Layer.serial).map fun s => encode s.toList := by
      rw [List.map_map]
      rfl
    rw [hmap] at hnodup
    exact hnodup.of_map
  · intro layer hlayer hmem
    rw [List.mem_singleton] at hmem
    exact hnew (List.mem_map.mpr ⟨layer, hlayer, by rw [hmem]⟩)

/-- **The plans that the guest reads** are those that a guest can be given and that the command
line names. -/
theorem planBody_eq_some {b : Bindings} (hb : Sound b) {x : ParsedPlan} :
    planBody b l = some (x, r) ↔
      ∃ p : GuestPlan, p.BoundTo b ∧ x = p.view b ∧ l = encode p.text ++ r := by
  simp only [planBody, bind_eq_some, pure_eq_some, parseAssembly_eq_some, parseNetwork_eq_some,
    parseProcess_eq_some, parseRun_eq_some,
    field_eq_some brace_ascii (show IsSpan "assembly".toList by decide),
    boundField_eq_some (show IsSpan "boot_plan_digest".toList by decide),
    boundField_eq_some (show IsSpan "domain_core_digest".toList by decide),
    fixedField_eq_some comma_ascii (show IsSpan "handoff".toList by decide)
      (show IsSpan "first-party-pid1-supervisor.v9".toList by decide),
    fixedField_eq_some comma_ascii (show IsSpan "isolation".toList by decide)
      (show IsSpan "palimpsest.workload-lifecycle-authority-isolation.v3".toList by decide),
    field_eq_some comma_ascii (show IsSpan "network".toList by decide),
    fixedField_eq_some comma_ascii (show IsSpan "phase".toList by decide)
      (show IsSpan "stage1-contract".toList by decide),
    field_eq_some comma_ascii (show IsSpan "process".toList by decide),
    fixedField_eq_some comma_ascii (show IsSpan "process_policy".toList by decide)
      (show IsSpan "image-root-account-path-capabilityless-isolated-user-group.v3".toList by
        decide),
    fixedField_eq_some comma_ascii (show IsSpan "protocol".toList by decide)
      (show IsSpan "palimpsest.guest-stage1.v16".toList by decide),
    field_eq_some comma_ascii (show IsSpan "run".toList by decide),
    fixedField_eq_some comma_ascii (show IsSpan "schema".toList by decide)
      (show IsSpan "palimpsest.oci-stage1-plan.v16".toList by decide),
    expect_eq_some closing_ascii, encode_planText]
  constructor
  -- What has been read makes a plan: its layers, probes and serials pass the checks of the host.
  · rintro ⟨_, _, ⟨_, h₁, layers, probes, root, hassembly, ha, h₂⟩, _, _,
      ⟨boot, hboot, hboot_bound, h₃⟩, _, _, ⟨core, hcore, hcore_bound, h₄⟩, _, _, h₅, _, _, h₆, _,
      _, ⟨_, h₇, network, hn, h₈⟩, _, _, h₉, _, _, ⟨_, h₁₀, process, hbootable, hp, h₁₁⟩, _, _, h₁₂,
      _, _, h₁₃, _, _, ⟨_, h₁₄, name, runId, ⟨hname, hrun⟩, hr, h₁₅⟩, _, _, h₁₆, _, _, h₁₇, h₁₈,
      h₁₉⟩
    obtain ⟨hboot_digest, hboot_eq⟩ := (bound_digest hb.resource hboot).mp hboot_bound
    obtain ⟨hcore_digest, hcore_eq⟩ := (bound_digest hb.core hcore).mp hcore_bound
    obtain ⟨⟨hne, hcount⟩, hchain, hlowers, hprobeCount, hprobes, hpolicy, hroot⟩ := hassembly
    have hword : 0 + layers.length ≤ 2 ^ 64 := by
      rw [Nat.zero_add]
      exact hcount.trans (by decide)
    obtain ⟨hlayers, hnumbered⟩ :=
      (chain_layer_iff hword).mpr ⟨hchain, serials_of_bound hb hlowers hroot⟩
    have hprobesOk := (chain_probe_iff (hcount.trans (by decide)) []).mpr hprobes
    let c : Contents := ⟨runId, name, boot, core, root, layers, process, probes⟩
    have haccepted : c.Accepted := ⟨hrun, hname, hboot_digest, hcore_digest, hpolicy,
      ⟨List.length_pos_iff.mpr hne, hcount⟩, hlayers, hbootable, hprobeCount, hprobesOk⟩
    refine ⟨⟨c, network, haccepted, hnumbered⟩, ⟨hboot_eq, hcore_eq, hroot, hlowers⟩, ?_, ?_⟩
    · rw [← h₁₈, ha, hn, hp, hr, GuestPlan.view, List.length_map]
    · rw [h₁, h₂, h₃, h₄, h₅, h₆, h₇, h₈, h₉, h₁₀, h₁₁, h₁₂, h₁₃, h₁₄, h₁₅, h₁₆, h₁₇, h₁₉]
      rw [encode_assemblyText c, encode_runText c]
      rfl
  -- The text of a plan is read back field by field.
  · rintro ⟨p, ⟨hresource, hcore, hroot, hlowers⟩, rfl, rfl⟩
    have hcount := p.accepted.layerCount
    have hword : 0 + p.layers.length ≤ 2 ^ 64 := by
      rw [Nat.zero_add]
      exact hcount.2.trans (by decide)
    have hchain := (chain_layer_iff hword).mp ⟨p.accepted.layers, p.numbered⟩
    have hprobes :=
      (chain_probe_iff (hcount.2.trans (by decide)) []).mp p.accepted.probes
    have hassembly : AssemblyOk b p.layers p.assemblyProbes p.root :=
      ⟨⟨List.length_pos_iff.mp hcount.1, hcount.2⟩, hchain.1, hlowers, p.accepted.probeCount,
        hprobes, p.accepted.root, hroot⟩
    have hboot := sameGrammar_digest.isSpan p.accepted.bootPlanDigest
    have hdomain := sameGrammar_digest.isSpan p.accepted.domainCoreDigest
    rw [encode_assemblyText, encode_runText]
    refine ⟨_, _, ⟨_, rfl, p.layers, p.assemblyProbes, p.root, hassembly, rfl, rfl⟩, (), _,
      ⟨p.bootPlanDigest, hboot, ?_, rfl⟩, (), _, ⟨p.domainCoreDigest, hdomain, ?_, rfl⟩, (), _, rfl,
      (), _, rfl, _, _, ⟨_, rfl, p.network, rfl, rfl⟩, (), _, rfl, _, _,
      ⟨_, rfl, p.process, p.accepted.bootable, rfl, rfl⟩, (), _, rfl, (), _, rfl, _, _,
      ⟨_, rfl, p.runName, p.runId, ⟨p.accepted.runName, p.accepted.runId⟩, rfl, rfl⟩, (), _, rfl,
      (), _, rfl, ?_, rfl⟩
    · exact (bound_digest hb.resource hboot).mpr ⟨p.accepted.bootPlanDigest, hresource⟩
    · exact (bound_digest hb.core hdomain).mpr ⟨p.accepted.domainCoreDigest, hcore⟩
    · rw [GuestPlan.view, List.length_map]

/-- **The plans that the guest takes**: the texts of the plans that a guest can be given and that
the command line names. -/
theorem parsePlan_eq_some {b : Bindings} (hb : Sound b) {payload : List UInt8} {x : ParsedPlan} :
    parsePlan b payload = some x ↔
      ∃ p : GuestPlan, p.BoundTo b ∧ x = p.view b ∧ payload = encode p.text := by
  have hend : parsePlan b payload = some x ↔ planBody b payload = some (x, []) := by
    rw [parsePlan]
    rcases planBody b payload with - | ⟨y, rest⟩
    · exact iff_of_false (by rintro ⟨⟩) (by rintro ⟨⟩)
    · show (if rest ≠ [] then none else some y) = some x ↔ _
      split
      · next hrest => exact iff_of_false (by rintro ⟨⟩) fun h => hrest (Prod.mk.inj
          (Option.some.inj h)).2
      · next hrest =>
        obtain rfl := not_not.mp hrest
        constructor
        · rintro ⟨⟩
          rfl
        · rintro ⟨⟩
          rfl
  simp only [hend, planBody_eq_some hb, List.append_nil]

end Palimpsest.Stage1.Init
