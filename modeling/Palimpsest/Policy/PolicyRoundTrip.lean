import Palimpsest.Policy.PolicyEncoding

/-!
# Sandbox policies are read back

Each part of a document is read back from what it is written as, and so is the document
(`Palimpsest.Policy.LawfulDocument`). From this and from the documents being clean it follows that
the encoding is exact (`Palimpsest.Policy.encodesExactly`).
-/

namespace Palimpsest.Policy

open Json Results Canonical
open Control (encodeUtf8 decodeUtf8 decodeUtf8_encodeUtf8)

variable {k : Listing} {p : Part}

/-! ### Parts -/

/-- An object has the fields that are expected. -/
theorem exactFields_eq_ok {d : List (String × Value)} {expected : List String} {name : String}
    (names : List String) (hkeys : keys d = names)
    (h : (∀ k ∈ names, k ∈ expected) ∧ ∀ k ∈ expected, k ∈ names) :
    exactFields (.dict d) expected name = .ok d := by
  subst hkeys
  exact if_pos h

theorem Part.mode?_text (p : Part) (m : Mode) : p.mode? (.str (p.text m)) = some m := by
  cases p <;> cases m <;> rfl

theorem Part.mode_text (p : Part) (m : Mode) : p.mode (.str (p.text m)) = .ok m := by
  rw [Part.mode, Part.mode?_text]

theorem modeOfDict_modeDict (p : Part) (m : Mode) : modeOfDict p (modeDict p m) = .ok m := by
  rw [modeOfDict, modeDict, exactFields_eq_ok ["mode"] rfl (by decide)]
  exact p.mode_text m

theorem ModeSet.make_modes (s : ModeSet p) :
    ModeSet.make p (s.modes.map fun m => .str (p.text m)) = .ok s := by
  have hread : (s.modes.map fun m => Value.str (p.text m)).mapM p.mode? = some s.modes := by
    have hsome : (p.mode? ∘ fun m => Value.str (p.text m)) = fun m => some m :=
      funext fun m => p.mode?_text m
    rw [List.mapM_map, hsome]
    exact List.mapM_pure.trans (congrArg some s.modes.map_id)
  unfold ModeSet.make
  rw [hread]
  obtain ⟨modes, hnonempty, hcanonical⟩ := s
  simp only [dif_neg hnonempty, hcanonical.canonical_eq]

theorem Item.make_self (i : Item k) : Item.make k (.str i.first) (.str i.second) = .ok i := by
  unfold Item.make
  split
  · next s t h =>
    obtain ⟨hs, ht⟩ := Prod.mk.inj (Except.ok.inj (i.valid.symm.trans h))
    subst hs ht
    rfl
  · next e h =>
    rw [i.valid] at h
    cases h

/-- An item is read back, whatever the list is called and wherever it stands. -/
theorem Item.fromDict_toDict (i : Item k) (name : String) (index : ℕ) :
    Item.fromDict k name i.toDict index = .ok i := by
  have hmake := i.make_self
  rw [Item.fromDict]
  cases k
  · rw [Item.toDict, exactFields_eq_ok ["provider", "reference_id"] rfl (by decide)]
    exact hmake
  · rw [Item.toDict, exactFields_eq_ok ["allocation_id", "device_class"] rfl (by decide)]
    exact hmake
  · rw [Item.toDict, exactFields_eq_ok ["policy_digest", "policy_id"] rfl (by decide)]
    exact hmake

/-- Items that are read one by one are read back. -/
theorem itemsFrom_map {α : Type} {read : Value → ℕ → Except ValidationError α} {write : α → Value}
    (h : ∀ a index, read (write a) index = .ok a) (l : List α) (index : ℕ) :
    itemsFrom read (l.map write) index = .ok l := by
  induction l generalizing index with
  | nil => rfl
  | cons a l ih =>
    rw [List.map_cons, itemsFrom, h, ih]
    rfl

theorem ItemSet.make_items (s : ItemSet k) (name : String) : ItemSet.make name s.items = .ok s := by
  have hok : rejectAmbiguousIdentity name [] s.items = .ok () :=
    (rejectAmbiguousIdentity_eq_ok unambiguous_nil).mpr s.unambiguous
  unfold ItemSet.make
  split
  · obtain ⟨items, hcanonical, hunambiguous⟩ := s
    simp only [hcanonical.canonical_eq]
  · next e h =>
    rw [hok] at h
    cases h

theorem ListingPolicy.make_self (q : ListingPolicy k) :
    ListingPolicy.make k (.str (k.part.text q.mode)) q.listed.items = .ok q := by
  rw [ListingPolicy.make, Part.mode_text, ItemSet.make_items]
  exact dif_pos q.agree

theorem ListingPolicy.fromDict_toDict (q : ListingPolicy k) :
    ListingPolicy.fromDict k q.toDict = .ok q := by
  have hitems : ∀ name, itemsFrom (Item.fromDict k name) (q.listed.items.map Item.toDict) 0 =
      .ok q.listed.items := fun name => itemsFrom_map (fun i => i.fromDict_toDict name) _ 0
  have hmake := q.make_self
  rw [ListingPolicy.fromDict]
  cases k
  · rw [ListingPolicy.toDict, exactFields_eq_ok ["mode", "references"] rfl (by decide)]
    exact bind_eq_ok.mpr ⟨_, rfl, bind_eq_ok.mpr ⟨_, rfl, bind_eq_ok.mpr ⟨_, hitems _, hmake⟩⟩⟩
  · rw [ListingPolicy.toDict, exactFields_eq_ok ["devices", "mode"] rfl (by decide)]
    exact bind_eq_ok.mpr ⟨_, rfl, bind_eq_ok.mpr ⟨_, rfl, bind_eq_ok.mpr ⟨_, hitems _, hmake⟩⟩⟩
  · rw [ListingPolicy.toDict, exactFields_eq_ok ["hooks", "mode"] rfl (by decide)]
    exact bind_eq_ok.mpr ⟨_, rfl, bind_eq_ok.mpr ⟨_, rfl, bind_eq_ok.mpr ⟨_, hitems _, hmake⟩⟩⟩

theorem SnapshotScrubPolicy.fromDict_toDict (q : SnapshotScrubPolicy) :
    SnapshotScrubPolicy.fromDict q.toDict = .ok q := by
  rw [SnapshotScrubPolicy.fromDict, SnapshotScrubPolicy.toDict,
    exactFields_eq_ok ["enabled", "scrub_required"] rfl (by decide)]
  exact dif_pos q.scrubbed

/-! ### Documents -/

/-- **A request is read back.** -/
theorem SandboxPolicyRequest.fromDict_toDict (r : SandboxPolicyRequest) :
    SandboxPolicyRequest.fromDict r.toDict = .ok r := by
  have hsafe := r.clean_toDict.safe
  rw [toDict] at hsafe
  rw [fromDict, toDict, hsafe, exactFields_eq_ok ["audit", "binary_policy", "device_access",
    "egress", "schema_version", "secret_delivery", "snapshot_scrub"] rfl (by decide)]
  refine bind_eq_ok.mpr ⟨(), rfl, bind_eq_ok.mpr ⟨_, rfl, ?_⟩⟩
  refine bind_eq_ok.mpr ⟨r.egress, modeOfDict_modeDict _ _, ?_⟩
  refine bind_eq_ok.mpr ⟨r.secretDelivery, r.secretDelivery.fromDict_toDict, ?_⟩
  refine bind_eq_ok.mpr ⟨r.deviceAccess, r.deviceAccess.fromDict_toDict, ?_⟩
  refine bind_eq_ok.mpr ⟨r.audit, modeOfDict_modeDict _ _, ?_⟩
  refine bind_eq_ok.mpr ⟨r.snapshotScrub, r.snapshotScrub.fromDict_toDict, ?_⟩
  exact bind_eq_ok.mpr ⟨r.binaryPolicy, r.binaryPolicy.fromDict_toDict, rfl⟩

/-- The constructor of capabilities takes what they have. -/
theorem SandboxPolicyCapabilities.make_self (c : SandboxPolicyCapabilities) :
    make (.int 1) (c.egressModes.modes.map fun m => .str (Part.egress.text m))
      (c.secretDeliveryModes.modes.map fun m => .str (Part.secretDelivery.text m))
      c.secretReferences.items
      (c.deviceAccessModes.modes.map fun m => .str (Part.deviceAccess.text m))
      c.deviceRequests.items (c.auditModes.modes.map fun m => .str (Part.audit.text m))
      (.bool c.snapshotsEnabled) (.bool c.snapshotScrubRequired)
      (c.binaryPolicyModes.modes.map fun m => .str (Part.binaryPolicy.text m))
      c.binaryPolicyHooks.items = .ok c := by
  rw [make]
  simp only [ModeSet.make_modes, ItemSet.make_items]
  refine bind_eq_ok.mpr ⟨(), rfl, ?_⟩
  refine (dif_pos c.secretsAgree).trans ((dif_pos c.devicesAgree).trans
    ((dif_pos c.hooksAgree).trans ?_))
  exact dif_pos c.scrubRequired

/-- **Capabilities are read back.** -/
theorem SandboxPolicyCapabilities.fromDict_toDict (c : SandboxPolicyCapabilities) :
    SandboxPolicyCapabilities.fromDict c.toDict = .ok c := by
  have hsafe := c.clean_toDict.safe
  have hitems : ∀ {k : Listing} (s : ItemSet k) (name : String),
      itemsFrom (Item.fromDict k name) (s.items.map Item.toDict) 0 = .ok s.items :=
    fun s name => itemsFrom_map (fun i => i.fromDict_toDict name) _ 0
  have hmake := c.make_self
  rw [toDict] at hsafe
  rw [fromDict, toDict, hsafe, exactFields_eq_ok ["audit_modes", "binary_policy_hooks",
    "binary_policy_modes", "device_access_modes", "device_requests", "egress_modes",
    "schema_version", "secret_delivery_modes", "secret_references", "snapshot_scrub_required",
    "snapshots_enabled"] rfl (by decide)]
  refine bind_eq_ok.mpr ⟨(), rfl, bind_eq_ok.mpr ⟨_, rfl, ?_⟩⟩
  refine bind_eq_ok.mpr ⟨_, rfl, bind_eq_ok.mpr ⟨_, rfl, bind_eq_ok.mpr ⟨_, rfl, ?_⟩⟩⟩
  refine bind_eq_ok.mpr ⟨_, rfl, bind_eq_ok.mpr ⟨_, rfl, ?_⟩⟩
  refine bind_eq_ok.mpr ⟨_, hitems c.secretReferences _, bind_eq_ok.mpr ⟨_, rfl, ?_⟩⟩
  refine bind_eq_ok.mpr ⟨_, hitems c.deviceRequests _, bind_eq_ok.mpr ⟨_, rfl, ?_⟩⟩
  refine bind_eq_ok.mpr ⟨_, rfl, bind_eq_ok.mpr ⟨_, hitems c.binaryPolicyHooks _, ?_⟩⟩
  exact hmake

/-- The name of a field is an identifier. -/
theorem PolicyPreflightCode.safeId_field (code : PolicyPreflightCode) (name : String) :
    safeId (.str code.field) name = .ok code.field := by
  refine safeId_eq_ok.mpr ⟨rfl, ?_, isSensitive_of_isWord ?_, ?_⟩
  all_goals cases code <;> decide

theorem PolicyPreflightIssue.make_self (i : PolicyPreflightIssue) :
    PolicyPreflightIssue.make i.code (.str i.field) = .ok i := by
  rw [make, i.agree, PolicyPreflightCode.safeId_field]
  refine (dif_pos rfl).trans ?_
  obtain ⟨code, name, rfl⟩ := i
  rfl

theorem PolicyPreflightIssue.fromDict_toDict (i : PolicyPreflightIssue) (index : ℕ) :
    PolicyPreflightIssue.fromDict i.toDict index = .ok i := by
  have hcode : (PolicyPreflightCode.all.find? fun code => code.text = i.code.text) =
      some i.code := by
    cases i.code <;> decide
  have hmake := i.make_self
  rw [fromDict, toDict, exactFields_eq_ok ["code", "field"] rfl (by decide)]
  refine bind_eq_ok.mpr ⟨_, rfl, ?_⟩
  have hfield : Policy.field [("code", .str i.code.text), ("field", .str i.field)] "code" =
      .str i.code.text := rfl
  rw [hfield]
  dsimp only
  rw [hcode]
  exact hmake

/-- **A result is read back.** -/
theorem PolicyPreflightResult.fromDict_toDict (r : PolicyPreflightResult) :
    PolicyPreflightResult.fromDict r.toDict = .ok r := by
  have hsafe := r.clean_toDict.safe
  have hissues : itemsFrom PolicyPreflightIssue.fromDict
      (r.issues.map PolicyPreflightIssue.toDict) 0 = .ok r.issues :=
    itemsFrom_map PolicyPreflightIssue.fromDict_toDict _ 0
  rw [toDict] at hsafe
  rw [fromDict, toDict, hsafe,
    exactFields_eq_ok ["issues", "schema_version", "supported"] rfl (by decide)]
  refine bind_eq_ok.mpr ⟨(), rfl, bind_eq_ok.mpr ⟨_, rfl, bind_eq_ok.mpr ⟨_, rfl, ?_⟩⟩⟩
  refine bind_eq_ok.mpr ⟨_, hissues, ?_⟩
  obtain ⟨supported, issues, hcanonical, hagree⟩ := r
  have hagree' : supported = true ↔ Canonical.canonical PolicyPreflightIssue.key issues = [] := by
    rwa [hcanonical.canonical_eq]
  refine (dif_pos hagree').trans ?_
  simp only [hcanonical.canonical_eq]
  rfl

/-- Documents that are clean and read back. -/
class LawfulDocument (α : Type) [Document α] : Prop where
  clean : ∀ x : α, Clean (Document.toDict x)
  read : ∀ x : α, Document.fromDict (Document.toDict x) = .ok x

instance : LawfulDocument SandboxPolicyRequest where
  clean := SandboxPolicyRequest.clean_toDict
  read := SandboxPolicyRequest.fromDict_toDict

instance : LawfulDocument SandboxPolicyCapabilities where
  clean := SandboxPolicyCapabilities.clean_toDict
  read := SandboxPolicyCapabilities.fromDict_toDict

instance : LawfulDocument PolicyPreflightResult where
  clean := PolicyPreflightResult.clean_toDict
  read := PolicyPreflightResult.fromDict_toDict

/-! ### Encodings -/

section Encoding

variable {α : Type} [Document α]

/-- The bytes of the compact text of a document. -/
def encoding (x : α) : List UInt8 := encodeUtf8 ((dumps (Document.toDict x)).getD [])

/-- The encoding is not too long. -/
def Fits (x : α) : Prop := (encoding x).length ≤ maxPolicyJsonBytes

/-- The encoding of documents is exact. -/
structure EncodesExactly (α : Type) [Document α] : Prop where
  /-- What fits is written. -/
  written : ∀ x : α, Fits x → ∃ b, toJsonBytes x = .ok b
  /-- What is written is read back. -/
  read : ∀ (x : α) b, toJsonBytes x = .ok b → fromJsonBytes α b = .ok x
  /-- Equal documents, and only they, have equal bytes. -/
  injective : ∀ (x y : α) b c, toJsonBytes x = .ok b → toJsonBytes y = .ok c → (x = y ↔ b = c)
  /-- What is read is written so. -/
  canonical : ∀ (x : α) b, fromJsonBytes α b = .ok x → toJsonBytes x = .ok b

variable [LawfulDocument α]

/-- A document has a text. -/
theorem exists_text (x : α) :
    ∃ t, dumps (Document.toDict x) = some t ∧ encoding x = encodeUtf8 t := by
  obtain ⟨t, ht⟩ := Option.isSome_iff_exists.mp (LawfulDocument.clean x).text
  exact ⟨t, ht, by rw [encoding, ht, Option.getD_some]⟩

/-- What is written is the encoding, if it fits. -/
theorem toJsonBytes_eq_ok {x : α} {b : List UInt8} :
    toJsonBytes x = .ok b ↔ Fits x ∧ b = encoding x := by
  obtain ⟨t, ht, hencoding⟩ := exists_text x
  rw [toJsonBytes, canonicalPolicyJsonBytes, (LawfulDocument.clean x).safe, ht, Fits, hencoding]
  refine (bind_eq_ok.trans ?_)
  constructor
  · rintro ⟨u, -, h⟩
    obtain ⟨hlength, hb⟩ := require_bind_eq_ok.mp h
    exact ⟨of_decide_eq_true hlength, (Except.ok.inj hb).symm⟩
  · rintro ⟨hlength, rfl⟩
    exact ⟨(), rfl, require_bind_eq_ok.mpr ⟨decide_eq_true hlength, rfl⟩⟩

/-- The value of a document is read from its encoding. -/
theorem loadJson_encoding {x : α} (h : Fits x) :
    loadJson (encoding x) = .ok (Document.toDict x) := by
  have hclean := LawfulDocument.clean x
  obtain ⟨t, ht, hencoding⟩ := exists_text x
  have hloads : loads t = .ok (Document.toDict x) := by
    rw [loads_dumps hclean.distinct ht, hclean.sorted]
  rw [loadJson]
  refine require_bind_eq_ok.mpr ⟨decide_eq_true h, ?_⟩
  rw [hencoding, decodeUtf8_encodeUtf8]
  simp only [hloads, hclean.safe]
  rfl

/-- **Documents with equal bytes are equal.** -/
theorem encoding_injective : Function.Injective (encoding (α := α)) := by
  intro x y h
  obtain ⟨t, ht, hx⟩ := exists_text x
  obtain ⟨u, hu, hy⟩ := exists_text y
  have hbytes : decodeUtf8 (encodeUtf8 t) = decodeUtf8 (encodeUtf8 u) := by rw [← hx, ← hy, h]
  rw [decodeUtf8_encodeUtf8, decodeUtf8_encodeUtf8] at hbytes
  obtain rfl := Option.some.inj hbytes
  have hvalue : Document.toDict x = Document.toDict y := by
    have hloads := (loads_dumps (LawfulDocument.clean x).distinct ht).symm.trans
      (loads_dumps (LawfulDocument.clean y).distinct hu)
    rw [(LawfulDocument.clean x).sorted, (LawfulDocument.clean y).sorted] at hloads
    exact Except.ok.inj hloads
  have hread := LawfulDocument.read x
  rw [hvalue, LawfulDocument.read y] at hread
  exact (Except.ok.inj hread).symm

/-- **The encoding of documents that are clean and read back is exact.** -/
theorem encodesExactly : EncodesExactly α where
  written x h := ⟨_, toJsonBytes_eq_ok.mpr ⟨h, rfl⟩⟩
  read x b h := by
    obtain ⟨hfits, rfl⟩ := toJsonBytes_eq_ok.mp h
    refine bind_eq_ok.mpr ⟨_, loadJson_encoding hfits, ?_⟩
    refine bind_eq_ok.mpr ⟨x, LawfulDocument.read x, bind_eq_ok.mpr ⟨_, h, ?_⟩⟩
    exact require_bind_eq_ok.mpr ⟨decide_eq_true rfl, rfl⟩
  injective x y b c hx hy := by
    obtain ⟨-, rfl⟩ := toJsonBytes_eq_ok.mp hx
    obtain ⟨-, rfl⟩ := toJsonBytes_eq_ok.mp hy
    exact encoding_injective.eq_iff.symm
  canonical x b h := by
    obtain ⟨v, -, h⟩ := bind_eq_ok.mp h
    obtain ⟨y, -, h⟩ := bind_eq_ok.mp h
    obtain ⟨c, hc, h⟩ := bind_eq_ok.mp h
    obtain ⟨heq, hx⟩ := require_bind_eq_ok.mp h
    obtain rfl := Except.ok.inj hx
    rw [of_decide_eq_true heq]
    exact hc

end Encoding

end Palimpsest.Policy
