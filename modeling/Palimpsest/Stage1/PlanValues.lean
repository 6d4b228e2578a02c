import Palimpsest.Stage1.HostTransport

/-!
# Plans from values

What the constructor of a plan lets through it has checked
(`Palimpsest.Stage1.accepted_of_postInit`), and the parts of a plan, put into dictionaries, are let
through again as they were (`Palimpsest.Stage1.OCIStage1Plan.postInit_raw`). The same holds of a
process that is read from a dictionary (`Palimpsest.Stage1.processFromDict_toDict`).
-/

namespace Palimpsest.Stage1

open Json
open Control (isUuid isDigest)
open Process (OCIProcessSpec)
open Account (OCIUserSpec)
open Init (processText)
open Utf8 (encode)
open Results (bind_eq_ok)

/-! ### What the constructor has checked -/

theorem pure_eq_ok {α : Type} {a b : α} : (pure a : Except Raised α) = .ok b ↔ b = a :=
  ⟨fun h => (Except.ok.inj h).symm, fun h => congrArg Except.ok h.symm⟩

theorem root_of_value {v : Value} {r : Root} (h : Root.ofValue v = .ok r) : r.policyOk = true := by
  cases v with
  | dict d =>
    simp only [Root.ofValue, bind_eq_ok, require_eq_ok, pure_eq_ok] at h
    obtain ⟨-, -, -, -, -, -, -, hpolicy, rfl⟩ := h
    exact hpolicy
  | _ => cases h

theorem layer_of_value {ordinal : ℕ} {serials : List String} {v : Value} {l : Layer}
    (h : Layer.ofValue ordinal serials v = .ok l) : l.policyOk ordinal serials = true := by
  cases v with
  | dict d =>
    simp only [Layer.ofValue, bind_eq_ok, require_eq_ok, pure_eq_ok] at h
    obtain ⟨-, -, -, -, -, hpolicy, rfl⟩ := h
    exact hpolicy
  | _ => cases h

theorem probe_of_value {layerCount : ℕ} {paths : List String} {v : Value} {p : Probe}
    (h : Probe.ofValue layerCount paths v = .ok p) : p.policyOk layerCount paths = true := by
  cases v with
  | dict d =>
    simp only [Probe.ofValue, bind_eq_ok, require_eq_ok, pure_eq_ok] at h
    obtain ⟨-, -, -, hpolicy, rfl⟩ := h
    exact hpolicy
  | _ => cases h

/-- The loop over the layers lets through as many layers as there are values. -/
theorem layers_of_values {ordinal bytes : ℕ} {serials : List String} {values : List Value}
    {layers : List Layer} (h : layersOf ordinal serials bytes values = .ok layers) :
    layersOk ordinal serials bytes layers = true ∧ layers.length = values.length := by
  induction values generalizing ordinal bytes serials layers with
  | nil =>
    obtain rfl := Except.ok.inj h
    exact ⟨rfl, rfl⟩
  | cons v values ih =>
    simp only [layersOf, bind_eq_ok, require_eq_ok, pure_eq_ok] at h
    obtain ⟨layer, hlayer, -, hbudget, layers, hlayers, rfl⟩ := h
    obtain ⟨hrest, hlength⟩ := ih hlayers
    rw [layersOk, layer_of_value hlayer, hbudget, hrest, List.length_cons, List.length_cons,
      hlength]
    exact ⟨rfl, rfl⟩

theorem probes_of_values {layerCount : ℕ} {paths : List String} {values : List Value}
    {probes : List Probe} (h : probesOf layerCount paths values = .ok probes) :
    probesOk layerCount paths probes = true ∧ probes.length = values.length := by
  induction values generalizing paths probes with
  | nil =>
    obtain rfl := Except.ok.inj h
    exact ⟨rfl, rfl⟩
  | cons v values ih =>
    simp only [probesOf, bind_eq_ok, pure_eq_ok] at h
    obtain ⟨probe, hprobe, probes, hprobes, rfl⟩ := h
    obtain ⟨hrest, hlength⟩ := ih hprobes
    rw [probesOk, probe_of_value hprobe, hrest, List.length_cons, List.length_cons, hlength]
    exact ⟨rfl, rfl⟩

/-- A value with a property is a string with it. -/
theorem isStr_strOf {p : String → Bool} {v : Value}
    (h : isStr p v = true) : p (strOf v) = true := by
  cases v with
  | str s => exact h
  | _ => cases h

theorem accepted_of_postInit {raw : RawPlan} {f : Fields} (h : postInit raw = .ok f) :
    f.toContents.Accepted := by
  simp only [postInit, bind_eq_ok, require_eq_ok, pure_eq_ok,
    Bool.and_eq_true, decide_eq_true_eq] at h
  obtain ⟨-, -, -, -, -, ⟨hrun, hname⟩, -, ⟨hboot, hcore⟩, root, hroot, -, hcount, layers, hlayers,
    -, hbootable, -, hprobeCount, probes, hprobes, rfl⟩ := h
  obtain ⟨hlayersOk, hlength⟩ := layers_of_values hlayers
  obtain ⟨hprobesOk, hprobeLength⟩ := probes_of_values hprobes
  rw [← hlength] at hcount
  rw [← hprobeLength] at hprobeCount
  exact ⟨isStr_strOf hrun, isStr_strOf hname, isStr_strOf hboot, isStr_strOf hcore,
    root_of_value hroot, hcount, hlayersOk, hbootable, hprobeCount, hprobesOk⟩

/-- The constructor of `OCIStage1Plan`. -/
def OCIStage1Plan.make (raw : RawPlan) : Except Raised OCIStage1Plan :=
  match h : postInit raw with
  | .error e => .error e
  | .ok f => .ok ⟨f, accepted_of_postInit h⟩

theorem OCIStage1Plan.make_eq_ok {raw : RawPlan} {p : OCIStage1Plan} :
    OCIStage1Plan.make raw = .ok p ↔ postInit raw = .ok p.toFields := by
  unfold OCIStage1Plan.make
  split
  · next e h => exact iff_of_false (by rintro ⟨⟩) fun heq => by rw [h] at heq; cases heq
  · next f h =>
    constructor
    · rintro ⟨⟩
      exact h
    · intro heq
      obtain rfl := Except.ok.inj (h.symm.trans heq)
      rfl

/-! ### Dictionaries are let through again -/

/-- A count is an integer that is not negative. -/
theorem isInt_natCast (n : ℕ) : isInt (0 ≤ ·) (.int n) = true := by
  have hnonneg : (0 : ℤ) ≤ n := Int.natCast_nonneg n
  exact decide_eq_true hnonneg

theorem isInt_pos {n : ℕ} (h : 1 ≤ n) : isInt (1 ≤ ·) (.int n) = true := by
  have hpos : (1 : ℤ) ≤ n := by omega
  exact decide_eq_true hpos

theorem ofValue_root {r : Root} (h : r.policyOk = true) : Root.ofValue r.toDict = .ok r := by
  have hparts := h
  simp only [Root.policyOk, Bool.and_eq_true, decide_eq_true_eq] at hparts
  obtain ⟨⟨⟨⟨⟨⟨hvolume, huuid⟩, hpos, -⟩, -⟩, -⟩, hserial⟩, -⟩ := hparts
  have hkeys : hasKeys [("filesystem", .str "ext4"), ("filesystem_uuid", .str r.filesystemUuid),
      ("generation", .int r.generation), ("mount_options", mountOptions "rw"),
      ("serial", .str r.serial), ("size_bytes", .int r.sizeBytes),
      ("volume_id", .str r.volumeId)] Root.fieldNames = true := by
    simp only [hasKeys, keys, List.map_cons, List.map_nil]
    decide
  simp only [Root.ofValue, Root.toDict, bind_eq_ok, require_eq_ok, pure_eq_ok]
  refine ⟨(), hkeys, (), ?_, (), ?_, (), h, rfl⟩
  · exact Bool.and_eq_true_iff.mpr ⟨hvolume, huuid⟩
  · simp only [Bool.and_eq_true]
    exact ⟨⟨⟨⟨rfl, decide_eq_true rfl⟩, isInt_pos hpos⟩, isInt_natCast _⟩, hserial⟩

theorem ofValue_layer {ordinal : ℕ} {serials : List String} {l : Layer}
    (h : l.policyOk ordinal serials = true) : Layer.ofValue ordinal serials l.toDict = .ok l := by
  have hparts := h
  simp only [Layer.policyOk, Bool.and_eq_true, decide_eq_true_eq] at hparts
  obtain ⟨⟨⟨⟨⟨⟨⟨-, hserial⟩, -⟩, himage⟩, hoccurrence⟩, -⟩, -⟩, -⟩ := hparts
  have hkeys : hasKeys [("filesystem", .str "squashfs"), ("image_digest", .str l.imageDigest),
      ("mount_options", mountOptions "ro"), ("occurrence_digest", .str l.occurrenceDigest),
      ("ordinal", l.ordinal), ("serial", .str l.serial), ("size_bytes", .int l.sizeBytes)]
      Layer.fieldNames = true := by
    simp only [hasKeys, keys, List.map_cons, List.map_nil]
    decide
  simp only [Layer.ofValue, Layer.toDict, bind_eq_ok, require_eq_ok, pure_eq_ok]
  refine ⟨(), hkeys, (), ?_, (), h, rfl⟩
  simp only [Bool.and_eq_true]
  exact ⟨⟨⟨⟨⟨rfl, decide_eq_true rfl⟩, hserial⟩, himage⟩, hoccurrence⟩, isInt_natCast _⟩

theorem ofValue_probe {layerCount : ℕ} {paths : List String} {p : Probe}
    (h : p.policyOk layerCount paths = true) : Probe.ofValue layerCount paths p.toDict = .ok p := by
  have hparts := h
  simp only [Probe.policyOk, Bool.and_eq_true, decide_eq_true_eq] at hparts
  obtain ⟨⟨⟨⟨hdigest, hpath⟩, -⟩, hsize, -⟩, -⟩ := hparts
  have hkeys : hasKeys [("digest", .str p.digest), ("path", .str p.path),
      ("size_bytes", .int p.sizeBytes), ("top_ordinal", .int p.topOrdinal)]
      Probe.fieldNames = true := by
    simp only [hasKeys, keys, List.map_cons, List.map_nil]
    decide
  simp only [Probe.ofValue, Probe.toDict, bind_eq_ok, require_eq_ok, pure_eq_ok]
  refine ⟨(), ?_, (), h, rfl⟩
  simp only [Bool.and_eq_true]
  exact ⟨⟨⟨⟨hkeys, hdigest⟩, hpath⟩, isInt_pos hsize⟩, isInt_natCast _⟩

theorem layersOf_toDict {ordinal bytes : ℕ} {serials : List String} {layers : List Layer}
    (h : layersOk ordinal serials bytes layers = true) :
    layersOf ordinal serials bytes (layers.map Layer.toDict) = .ok layers := by
  induction layers generalizing ordinal bytes serials with
  | nil => rfl
  | cons l layers ih =>
    rw [layersOk, Bool.and_eq_true, Bool.and_eq_true] at h
    obtain ⟨⟨hpolicy, hbudget⟩, hrest⟩ := h
    simp only [List.map_cons, layersOf, bind_eq_ok, require_eq_ok, pure_eq_ok]
    exact ⟨l, ofValue_layer hpolicy, (), hbudget, layers, ih hrest, rfl⟩

theorem probesOf_toDict {layerCount : ℕ} {paths : List String} {probes : List Probe}
    (h : probesOk layerCount paths probes = true) :
    probesOf layerCount paths (probes.map Probe.toDict) = .ok probes := by
  induction probes generalizing paths with
  | nil => rfl
  | cons p probes ih =>
    rw [probesOk, Bool.and_eq_true] at h
    simp only [List.map_cons, probesOf, bind_eq_ok, pure_eq_ok]
    exact ⟨p, ofValue_probe h.1, probes, ih h.2, rfl⟩

/-- The values that a plan was made of, with this network. -/
def Contents.raw (c : Contents) (network : Network.OCINetworkConfig) : RawPlan where
  runId := .str c.runId
  runName := .str c.runName
  bootPlanDigest := .str c.bootPlanDigest
  domainCoreDigest := .str c.domainCoreDigest
  root := c.root.toDict
  layers := c.layers.map Layer.toDict
  process := c.process
  assemblyProbes := c.assemblyProbes.map Probe.toDict
  network := network

/-- **The parts of a plan are let through again**, as they were. -/
theorem postInit_raw {c : Contents} (hc : c.Accepted) (network : Network.OCINetworkConfig) :
    postInit (c.raw network) = .ok ⟨c, network⟩ := by
  simp only [postInit, Contents.raw, bind_eq_ok, require_eq_ok, pure_eq_ok, List.length_map,
    Bool.and_eq_true, decide_eq_true_eq]
  exact ⟨(), rfl, (), rfl, (), ⟨hc.runId, hc.runName⟩, (), ⟨hc.bootPlanDigest, hc.domainCoreDigest⟩,
    c.root, ofValue_root hc.root, (), hc.layerCount, c.layers, layersOf_toDict hc.layers, (),
    hc.bootable, (), hc.probeCount, c.assemblyProbes, probesOf_toDict hc.probes, rfl⟩

/-! ### Processes -/

/-- A text that a value is. -/
def textOf : Value → Option Text
  | .str s => some s.toList
  | _ => none

/-- A user without a group has no group that could be refused. -/
theorem groupOk_none :
    ∀ g ∈ (none : Option Text), Account.account g "image process group" = .ok g :=
  fun _ h => absurd h (Option.not_mem_none _)

/-- The constructor of `OCIUserSpec`, of a user and a group. What it raises is not told apart. -/
def userOf (user group : Value) : Option OCIUserSpec := do
  let u ← textOf user
  if hu : Account.account u "image process user" = .ok u then
    if group = .null then some ⟨u, none, hu, groupOk_none⟩
    else do
      let g ← textOf group
      if hg : Account.account g "image process group" = .ok g then
        some ⟨u, some g, hu, fun _ hs => Option.mem_some_iff.mp hs ▸ hg⟩
      else none
  else none

/-- `OCIUserSpec.to_dict` -/
def userToDict (u : OCIUserSpec) : Value :=
  .dict [("group", match u.group with
      | none => .null
      | some g => .str (String.ofList g)),
    ("user", .str (String.ofList u.user))]

/-- `OCIUserSpec.from_dict` -/
def userFromDict : Value → Option OCIUserSpec
  | .dict d => do
    guard (hasKeys d ["group", "user"])
    let user ← userOf (get d "user") (get d "group")
    guard ((userToDict user).pyEq (.dict d))
    return user
  | _ => none

/-- An entry of the environment. -/
def entryOf : Value → Option (Text × Text)
  | .dict d => do
    guard (hasKeys d ["name", "value"])
    return (← textOf (get d "name"), ← textOf (get d "value"))
  | _ => none

/-- A list that a value is. -/
def listOf : Value → Option (List Value)
  | .list l => some l
  | _ => none

/-- `OCIProcessSpec.from_dict`. What it raises is not told apart: it is turned into one error. -/
def processFromDict (upperOf : Char → Text) : Value → Option OCIProcessSpec
  | .dict d => do
    guard (hasKeys d ["argv", "cwd", "environment", "stop_signal", "user"])
    let argv ← (← listOf (get d "argv")).mapM textOf
    let environment ← (← listOf (get d "environment")).mapM entryOf
    let user ← userFromDict (get d "user")
    let cwd ← textOf (get d "cwd")
    let process ← (OCIProcessSpec.make upperOf argv environment cwd user
      (get d "stop_signal")).toOption
    guard ((processToDict process).pyEq (.dict d))
    return process
  | _ => none

theorem textOf_ofList (t : Text) : textOf (.str (String.ofList t)) = some t := by
  rw [textOf, String.toList_ofList]

theorem userOf_eq (u : OCIUserSpec) : userOf (.str (String.ofList u.user)) (match u.group with
      | none => .null
      | some g => .str (String.ofList g)) = some u := by
  obtain ⟨user, group, hu, hg⟩ := u
  cases group with
  | none =>
    simp only [userOf, textOf_ofList, Option.bind_eq_bind, Option.bind_some, dif_pos hu, if_pos]
  | some g =>
    have hgroup := hg g (Option.mem_some_self g)
    have hne : ¬(Value.str (String.ofList g) = .null) := by rintro ⟨⟩
    simp only [userOf, textOf_ofList, Option.bind_eq_bind, Option.bind_some, dif_pos hu,
      dif_pos hgroup, if_neg hne]

/-- A list of which every item is read is read. -/
theorem mapM_map {α : Type} {f : α → Value} {g : Value → Option α} {l : List α}
    (h : ∀ a ∈ l, g (f a) = some a) : (l.map f).mapM g = some l := by
  induction l with
  | nil => rfl
  | cons a l ih =>
    obtain ⟨ha, hl⟩ := List.forall_mem_cons.mp h
    rw [List.map_cons, List.mapM_cons, ha, ih hl]
    rfl

theorem guard_eq_some {p : Prop} [Decidable p] {u : Unit} :
    (guard p : Option Unit) = some u ↔ p := by
  by_cases h : p
  · simp [h]
  · simp [guard, h]

theorem userFromDict_toDict (u : OCIUserSpec) : userFromDict (userToDict u) = some u := by
  have hkeys : hasKeys [("group", match u.group with
        | none => .null
        | some g => .str (String.ofList g)),
      ("user", .str (String.ofList u.user))] ["group", "user"] = true := by
    simp only [hasKeys, keys, List.map_cons, List.map_nil]
    decide
  have huser := userOf_eq u
  have hsame : (userToDict u).pyEq (userToDict u) = true := (spells_user u).pyEq_self
  simp only [userFromDict, userToDict, Option.bind_eq_bind, Option.bind_eq_some_iff, guard_eq_some]
  exact ⟨(), hkeys, u, huser, (), guard_eq_some.mpr hsame, rfl⟩

theorem entryOf_eq (e : Text × Text) :
    entryOf (.dict [("name", .str (String.ofList e.1)), ("value", .str (String.ofList e.2))]) =
      some e := by
  have hkeys : hasKeys [("name", .str (String.ofList e.1)), ("value", .str (String.ofList e.2))]
      ["name", "value"] = true := by
    simp only [hasKeys, keys, List.map_cons, List.map_nil]
    decide
  have hname := textOf_ofList e.1
  have hvalue := textOf_ofList e.2
  simp only [entryOf, Option.bind_eq_bind, Option.bind_eq_some_iff, guard_eq_some]
  exact ⟨(), hkeys, e.1, hname, e.2, hvalue, rfl⟩

/-- **A process is read back from its dictionary.** -/
theorem processFromDict_toDict (upperOf : Char → Text) (p : OCIProcessSpec) :
    processFromDict upperOf (processToDict p) = some p := by
  have hkeys : hasKeys [("argv", strings (p.argv.map String.ofList)),
      ("cwd", .str (String.ofList p.cwd)), ("environment", .list (p.environment.map fun e =>
        .dict [("name", .str (String.ofList e.1)), ("value", .str (String.ofList e.2))])),
      ("stop_signal", .int p.stopSignal), ("user", userToDict p.user)]
      ["argv", "cwd", "environment", "stop_signal", "user"] = true := by
    simp only [hasKeys, keys, List.map_cons, List.map_nil]
    decide
  have hargv : ((p.argv.map String.ofList).map Value.str).mapM textOf = some p.argv := by
    rw [List.map_map]
    exact mapM_map fun t _ => textOf_ofList t
  have henvironment := mapM_map (f := fun e : Text × Text =>
    .dict [("name", .str (String.ofList e.1)), ("value", .str (String.ofList e.2))])
    (l := p.environment) fun e _ => entryOf_eq e
  have huser := userFromDict_toDict p.user
  have hcwd := textOf_ofList p.cwd
  have hmake : (OCIProcessSpec.make upperOf p.argv p.environment p.cwd p.user
      (.int p.stopSignal)).toOption = some p := by
    rw [OCIProcessSpec.exists_make]
    rfl
  have hsame : (processToDict p).pyEq (processToDict p) = true := (spells_process p).pyEq_self
  simp only [processFromDict, processToDict, Option.bind_eq_bind, Option.bind_eq_some_iff,
    guard_eq_some]
  exact ⟨(), hkeys, _, rfl, _, hargv, _, rfl, _, henvironment, _, huser, _, hcwd, p, hmake, (),
    guard_eq_some.mpr hsame, rfl⟩

/-- Processes with one text are one. -/
theorem processText_injective {p q : OCIProcessSpec}
    (h : processText p.toFields = processText q.toFields) : p = q := by
  have hp := (spells_process p).loads_eq
  have hq := (spells_process q).loads_eq
  rw [h, hq] at hp
  have hdict : processToDict q = processToDict p := Except.ok.inj hp
  have hp' := processFromDict_toDict (fun c => [c]) p
  have hq' := processFromDict_toDict (fun c => [c]) q
  rw [hdict, hp'] at hq'
  exact Option.some.inj hq'

/-- **What the guest reads as a process** is the text of one process that the host specifies and can
boot, and of no other. -/
theorem parseProcess_exact {l r : List UInt8} {g : Init.GuestProcess} :
    Init.parseProcess l = some (g, r) ↔ ∃! p : OCIProcessSpec,
      (p.bootable = true ∧ g = Init.processView p.toFields) ∧
        l = encode (processText p.toFields) ++ r := by
  rw [Init.parseProcess_eq_some]
  constructor
  · rintro ⟨p, hbootable, hview, hl⟩
    refine ⟨p, ⟨⟨hbootable, hview⟩, hl⟩, ?_⟩
    rintro q ⟨-, hq⟩
    have htexts := List.append_cancel_right (hq.symm.trans hl)
    exact processText_injective (Utf8.encode_injective htexts)
  · rintro ⟨p, ⟨⟨hbootable, hview⟩, hl⟩, -⟩
    exact ⟨p, hbootable, hview, hl⟩

end Palimpsest.Stage1
