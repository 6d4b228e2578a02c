import Palimpsest.Lib.JsonText
import Palimpsest.Stage1.NetworkParser
import Palimpsest.Stage1.ProcessParser

/-!
# The text of a plan

A plan is sent as the compact text of its dictionary, whose keys stand in order. The text is put
together here from the texts of its parts (`Palimpsest.Stage1.planText`), which are the ones that
the guest knows, and it is the text that the host writes (`Palimpsest.Stage1.spells_plan`).
-/

namespace Palimpsest.Stage1

open Json
open Init (quoted userJson groupText processText entryText quote_ofList)
open Process (OCIProcessSpec)

/-- The text of mount options. -/
def optionsText (first : String) : Text := listText ([first, "nodev", "nosuid"].map quote)

/-- The text of a root. -/
def Root.text (r : Root) : Text :=
  objText [("filesystem", quote "ext4"), ("filesystem_uuid", quote r.filesystemUuid),
    ("generation", natText r.generation), ("mount_options", optionsText "rw"),
    ("serial", quote r.serial), ("size_bytes", natText r.sizeBytes), ("volume_id",
    quote r.volumeId)]

/-- The text of a layer. -/
def Layer.text (l : Layer) : Text :=
  objText [("filesystem", quote "squashfs"), ("image_digest", quote l.imageDigest),
    ("mount_options", optionsText "ro"), ("occurrence_digest", quote l.occurrenceDigest),
    ("ordinal", (dumps l.ordinal).getD []), ("serial", quote l.serial),
    ("size_bytes", natText l.sizeBytes)]

/-- The text of a probe. -/
def Probe.text (p : Probe) : Text :=
  objText [("digest", quote p.digest), ("path", quote p.path), ("size_bytes", natText p.sizeBytes),
    ("top_ordinal", natText p.topOrdinal)]

/-- The text of the places of the layers, the last one first. -/
def ordinalsText (n : ℕ) : Text := listText ((List.range n).reverse.map natText)

/-- The text of the assembly of the root. -/
def Contents.assemblyText (c : Contents) : Text :=
  objText [("device_policy", quote devicePolicy), ("layers", listText (c.layers.map Layer.text)),
    ("lowerdir_ordinals", ordinalsText c.layers.length), ("overlay_mount_options",
    optionsText "rw"), ("probes", listText (c.assemblyProbes.map Probe.text)), ("root",
    c.root.text), ("root_layout", quote rootLayout)]

/-- The text of the run. -/
def Contents.runText (c : Contents) : Text :=
  objText [("name", quote c.runName), ("run_id", quote c.runId)]

/-- The text of a plan with this text of its network contract. -/
def Contents.text (c : Contents) (network : Text) : Text :=
  objText [("assembly", c.assemblyText), ("boot_plan_digest", quote c.bootPlanDigest),
    ("domain_core_digest", quote c.domainCoreDigest), ("handoff", quote handoff),
    ("isolation", quote workloadIsolation), ("network", network), ("phase", quote phase),
    ("process", processText c.process.toFields), ("process_policy", quote processPolicy),
    ("protocol", quote protocol), ("run", c.runText), ("schema", quote planSchema)]

/-- The contents are those that the command line names. -/
structure Contents.BoundTo (c : Contents) (b : Guest.Bindings) : Prop where
  resource : Utf8.encode c.bootPlanDigest.toList = b.resourceDigest
  core : Utf8.encode c.domainCoreDigest.toList = b.domainCoreDigest
  root : Utf8.encode c.root.serial.toList = b.rootSerial
  lowers : c.layers.map (fun layer => Utf8.encode layer.serial.toList) = b.lowerSerials

/-- The text of a network contract. -/
def NetworkContract.text (n : NetworkContract) : Text :=
  objText [("address", quote n.address), ("gateway", quote n.gateway),
    ("interface", quote n.interface), ("mac", quote n.mac), ("mode", quote n.mode),
    ("nameservers", listText (n.nameservers.map quote)), ("netmask", quote n.netmask)]

/-! ### The texts are those of the dictionaries -/

theorem spells_options (first : String) : Spells (mountOptions first) (optionsText first) :=
  spells_strings [first, "nodev", "nosuid"]

theorem spells_field {k : String} {v : Value} {t : Text} {d : List (String × Value)}
    {l : List (String × Text)} (h : Spells v t) (hd : List.Forall₂ SpellsField d l) :
    List.Forall₂ SpellsField ((k, v) :: d) ((k, t) :: l) := .cons ⟨rfl, h⟩ hd

/-- A field with a string. -/
theorem spells_string {k : String} {d : List (String × Value)} {l : List (String × Text)}
    (s : String) (hd : List.Forall₂ SpellsField d l) :
    List.Forall₂ SpellsField ((k, .str s) :: d) ((k, quote s) :: l) :=
  spells_field (spells_str s) hd

/-- A number of so many digits. -/
theorem spells_nat {n k : ℕ} (hk : 0 < k ∧ k ≤ maxGenerationDigits) (h : n < 10 ^ k) :
    Spells (.int n) (natText n) :=
  spells_natCast (((length_natText_le hk.1 h).trans hk.2).trans (by decide))

theorem spells_network (n : NetworkContract) : Spells n.toDict n.text := by
  refine spells_dict ?_ ?_
  · simp only [keys, List.map_cons, List.map_nil]
    decide
  · exact spells_string _ (spells_string _ (spells_string _ (spells_string _ (spells_string _
      (spells_field (spells_strings _) (spells_string _ .nil))))))

/-- A generation is not too long to be written. -/
theorem lt_of_le_maxGeneration {n : ℕ} (h : n ≤ maxGeneration) : n < 10 ^ maxGenerationDigits :=
  Nat.lt_of_le_sub_one (Nat.pow_pos (by decide)) h

/-- Sizes have at most twenty digits. -/
theorem spells_size {n : ℕ} (h : n ≤ maxVolumeBytes) : Spells (.int n) (natText n) :=
  spells_nat (k := 20) (by decide) (h.trans_lt (by decide))

theorem spells_root {r : Root} (h : r.policyOk = true) : Spells r.toDict r.text := by
  simp only [Root.policyOk, Bool.and_eq_true, decide_eq_true_eq] at h
  obtain ⟨⟨⟨⟨⟨-, -, hgeneration⟩, -, hsize⟩, -⟩, -⟩, -⟩ := h
  have hdigits := spells_nat (by decide) (lt_of_le_maxGeneration hgeneration)
  refine spells_dict ?_ ?_
  · simp only [keys, List.map_cons, List.map_nil]
    decide
  · exact spells_string _ (spells_string _ (spells_field hdigits (spells_field (spells_options _)
      (spells_string _ (spells_field (spells_size hsize) (spells_string _ .nil))))))

/-- The place of a layer is written, whatever its type. -/
theorem spells_ordinal {v : Value} {n : ℕ} (hn : n < 10 ^ 20) (h : v.pyEq (.int n) = true) :
    Spells v ((dumps v).getD []) := by
  cases v with
  | bool b => cases b <;> exact ⟨rfl, trivial, rfl⟩
  | int z =>
    have hz : z = n := of_decide_eq_true h
    subst hz
    have hspells := spells_nat (k := 20) (by decide) hn
    rw [hspells.dumps_eq]
    exact hspells
  | float x => exact ⟨rfl, trivial, rfl⟩
  | _ => cases h

theorem spells_layer {l : Layer} {ordinal : ℕ} {serials : List String} (hn : ordinal < maxLayers)
    (h : l.policyOk ordinal serials = true) : Spells l.toDict l.text := by
  simp only [Layer.policyOk, Bool.and_eq_true, decide_eq_true_eq] at h
  have hordinal := spells_ordinal (hn.trans (by decide)) h.1.1.1.1.1.1.1
  have hsize : l.sizeBytes ≤ maxVolumeBytes := h.1.1.2.2.trans (by decide)
  refine spells_dict ?_ ?_
  · simp only [keys, List.map_cons, List.map_nil]
    decide
  · exact spells_string _ (spells_string _ (spells_field (spells_options _) (spells_string _
      (spells_field hordinal (spells_string _ (spells_field (spells_size hsize) .nil))))))

theorem spells_probe {p : Probe} {count : ℕ} {paths : List String} (hcount : count ≤ maxLayers)
    (h : p.policyOk count paths = true) : Spells p.toDict p.text := by
  simp only [Probe.policyOk, Bool.and_eq_true, decide_eq_true_eq] at h
  have hsize : p.sizeBytes ≤ maxVolumeBytes := h.1.2.2.trans (by decide)
  have htop : p.topOrdinal ≤ maxVolumeBytes := by
    rw [h.2]
    exact (Nat.sub_le _ _).trans (hcount.trans (by decide))
  refine spells_dict ?_ ?_
  · simp only [keys, List.map_cons, List.map_nil]
    decide
  · exact spells_string _ (spells_string _ (spells_field (spells_size hsize)
      (spells_field (spells_size htop) .nil)))

theorem spells_layers {ordinal bytes : ℕ} {serials : List String} {layers : List Layer}
    (hlen : ordinal + layers.length ≤ maxLayers)
    (h : layersOk ordinal serials bytes layers = true) :
    ∀ l ∈ layers, Spells l.toDict l.text := by
  induction layers generalizing ordinal bytes serials with
  | nil => exact List.forall_mem_nil _
  | cons l layers ih =>
    rw [List.length_cons] at hlen
    simp only [layersOk, Bool.and_eq_true] at h
    exact List.forall_mem_cons.mpr ⟨spells_layer (by omega) h.1.1, ih (by omega) h.2⟩

theorem spells_probes {count : ℕ} {paths : List String} {probes : List Probe}
    (hcount : count ≤ maxLayers) (h : probesOk count paths probes = true) :
    ∀ p ∈ probes, Spells p.toDict p.text := by
  induction probes generalizing paths with
  | nil => exact List.forall_mem_nil _
  | cons p probes ih =>
    simp only [probesOk, Bool.and_eq_true] at h
    exact List.forall_mem_cons.mpr ⟨spells_probe hcount h.1, ih h.2⟩

theorem spells_user (u : Account.OCIUserSpec) :
    Spells (.dict [("group", match u.group with
        | none => .null
        | some g => .str (String.ofList g)),
      ("user", .str (String.ofList u.user))]) (userJson u) := by
  have huser : quoted u.user = quote (String.ofList u.user) := (quote_ofList u.user).symm
  rw [userJson, huser]
  refine spells_dict ?_ (spells_field ?_ (spells_string _ .nil))
  · simp only [keys, List.map_cons, List.map_nil]
    decide
  · cases u.group with
    | none => exact spells_null
    | some g =>
      rw [groupText, ← quote_ofList]
      exact spells_str _

theorem spells_entry (e : Text × Text) :
    Spells (.dict [("name", .str (String.ofList e.1)), ("value", .str (String.ofList e.2))])
      (entryText e) := by
  rw [entryText, ← quote_ofList, ← quote_ofList]
  refine spells_dict ?_ (spells_string _ (spells_string _ .nil))
  simp only [keys, List.map_cons, List.map_nil]
  decide

theorem spells_process (p : OCIProcessSpec) : Spells (processToDict p)
    (processText p.toFields) := by
  have hargv : p.argv.map quoted = (p.argv.map String.ofList).map quote := by
    rw [List.map_map]
    exact List.map_congr_left fun t _ => (quote_ofList t).symm
  have hsignal : ((p.stopSignal.toNat : ℕ) : ℤ) = p.stopSignal :=
    Int.toNat_of_nonneg ((by decide : (0 : ℤ) ≤ 1).trans p.accepted.stopSignal.1)
  have hsmall : p.stopSignal.toNat ≤ maxVolumeBytes := by
    have h := p.accepted.stopSignal.2
    have hle : 64 ≤ maxVolumeBytes := by decide
    omega
  have hspells := spells_size hsmall
  rw [hsignal] at hspells
  rw [processText, hargv, ← quote_ofList]
  refine spells_dict ?_ (spells_field (spells_strings _) (spells_string _ (spells_field
    (spells_map fun e _ => spells_entry e) (spells_field hspells
      (spells_field (spells_user p.user) .nil)))))
  simp only [keys, List.map_cons, List.map_nil]
  decide

theorem spells_ordinals {n : ℕ} (hn : n ≤ maxLayers) : Spells (reversedRange n)
    (ordinalsText n) := by
  have hspells : ∀ i ∈ (List.range n).reverse, Spells (.int (i : ℤ)) (natText i) := by
    intro i hi
    have hlt := List.mem_range.mp (List.mem_reverse.mp hi)
    have hle : maxLayers ≤ maxVolumeBytes := by decide
    exact spells_size (by omega)
  exact spells_map hspells

/-- **The text of a plan** is what is written for its dictionary. -/
theorem spells_plan {c : Contents} (hc : c.Accepted) (n : NetworkContract) :
    Spells (c.toDictWith n) (c.text n.text) := by
  have hcount := hc.layerCount.2
  have hassembly : Spells (.dict [
      ("device_policy", .str devicePolicy),
      ("layers", .list (c.layers.map Layer.toDict)),
      ("lowerdir_ordinals", reversedRange c.layers.length),
      ("overlay_mount_options", mountOptions "rw"),
      ("probes", .list (c.assemblyProbes.map Probe.toDict)),
      ("root", c.root.toDict),
      ("root_layout", .str rootLayout)]) c.assemblyText := by
    refine spells_dict ?_ (spells_string _ (spells_field
      (spells_map (spells_layers (Nat.zero_add _ ▸ hcount) hc.layers)) (spells_field
        (spells_ordinals hcount) (spells_field (spells_options _) (spells_field
          (spells_map (spells_probes hcount hc.probes)) (spells_field (spells_root hc.root)
            (spells_string _ .nil)))))))
    simp only [keys, List.map_cons, List.map_nil]
    decide
  have hrun : Spells (.dict [("name", .str c.runName), ("run_id", .str c.runId)]) c.runText := by
    refine spells_dict ?_ (spells_string _ (spells_string _ .nil))
    simp only [keys, List.map_cons, List.map_nil]
    decide
  refine spells_dict ?_ (spells_field hassembly (spells_string _ (spells_string _ (spells_string _
    (spells_string _ (spells_field (spells_network n) (spells_string _ (spells_field
      (spells_process c.process) (spells_string _ (spells_string _ (spells_field hrun
        (spells_string _ .nil))))))))))))
  simp only [keys, List.map_cons, List.map_nil]
  decide

end Palimpsest.Stage1
