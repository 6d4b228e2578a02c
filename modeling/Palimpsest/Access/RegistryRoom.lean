import Palimpsest.Access.RegistryUpdates

/-!
# Room in the registry

How many bytes a registry takes, where the numbers in it are of the size a kernel gives them: a
fixed number of bytes for each membership (`Palimpsest.Access.SharedTraversalMembership.width_le`),
so that a consistent registry of a few dozen members can be stored
(`Palimpsest.Access.Registry.storable_of_length_le`).
-/

namespace Palimpsest.Access

open Json Control Monitor

theorem isSome_dumps_acl (acl : ACLStructure) (h : ∀ e ∈ acl.namedUsers, e.1 < 10 ^ 20) :
    (dumps acl.toValue).isSome := by
  have husers : ∀ v ∈ acl.namedUsers.map fun e => Value.list [.int e.1, .str e.2],
      (dumps v).isSome := by
    intro v hv
    obtain ⟨e, he, rfl⟩ := List.mem_map.mp hv
    simp [isSome_dumps_natCast (h e he)]
  have hmask : (dumps (orNull .str acl.mask)).isSome := isSome_dumps_orNull fun s _ => rfl
  simp only [ACLStructure.toValue, isSome_dumps_dict, List.forall_mem_cons, isSome_dumps_list,
    isSome_dumps_str, hmask, true_and]
  exact ⟨husers, List.forall_mem_nil _⟩

theorem width_baselineAcl : baselineAcl.toValue.width ≤ 100 := by decide

theorem width_traversalAcl {uid : ℕ} (h : uid < 10 ^ 20) :
    (traversalAcl uid).toValue.width ≤ 150 := by
  have huid := width_natCast h
  have htext : ∀ s ∈ ["rwx", "--x", "---"], (Value.str s).width = 5 := by decide
  have hkeys : (["user", "named_users", "group", "mask", "other"].map fun k =>
    byteLength (quote k)).sum ≤ 50 := by decide
  simp only [List.forall_mem_cons] at htext
  simp only [List.map_cons, List.map_nil, List.sum_cons, List.sum_nil] at hkeys
  simp only [ACLStructure.toValue, traversalAcl, List.map_cons, List.map_nil, orNull, Value.width,
    Value.widthFields, Value.widthItems] at huid htext ⊢
  omega

namespace RuntimeAccessTarget

/-- The numbers are of the size a kernel gives them. -/
structure Sized (t : RuntimeAccessTarget) : Prop where
  device : t.device < 2 ^ 64
  inode : t.inode < 2 ^ 64
  gid : t.gid < 2 ^ 64
  nlink : t.nlink < 2 ^ 64

variable {t : RuntimeAccessTarget} {owner qemuUid : ℕ}

theorem isSome_dumps (h : t.Sized) (hshared : t.IsShared owner qemuUid) (howner : owner < 10 ^ 20)
    (hqemu : qemuUid < 10 ^ 20) : (dumps t.toValue).isSome := by
  have hlt : ∀ {n : ℕ}, n < 2 ^ 64 → (dumps (.int n)).isSome := fun hn =>
    isSome_dumps_natCast (Nat.lt_trans hn (by decide : 2 ^ 64 < 10 ^ 20))
  have huid : (dumps (.int t.uid)).isSome := by
    rw [hshared.uid]
    exact isSome_dumps_natCast howner
  have hbaseline : (dumps t.baseline.toValue).isSome := by
    rw [hshared.baseline]
    exact isSome_dumps_acl _ (List.forall_mem_nil _)
  have hgranted : (dumps t.granted.toValue).isSome := by
    rw [hshared.granted]
    exact isSome_dumps_acl _ (List.forall_mem_singleton.mpr hqemu)
  have hdirectory : (dumps (.bool t.directory)).isSome := by
    cases t.directory <;> rfl
  simp only [toValue, isSome_dumps_dict, List.forall_mem_cons, hlt h.device, hlt h.inode,
    hlt h.gid, hlt h.nlink, huid, hbaseline, hgranted, hdirectory, true_and]
  exact List.forall_mem_nil _

theorem width_le (h : t.Sized) (hshared : t.IsShared owner qemuUid) (howner : owner < 10 ^ 20)
    (hqemu : qemuUid < 10 ^ 20) : t.toValue.width ≤ 1500 := by
  have hlt : ∀ {n : ℕ}, n < 2 ^ 64 → (Value.int n).width ≤ 150 := fun hn =>
    Nat.le_trans (width_natCast (Nat.lt_trans hn (by decide : 2 ^ 64 < 10 ^ 20))) (by decide)
  have hbool : (Value.bool t.directory).width ≤ 150 := by
    rw [Value.width]
    decide
  -- Each field is a bounded number, a truth value, or an access list of fixed shape.
  have hwidth : ∀ f ∈ [("device", Value.int t.device), ("inode", .int t.inode), ("uid", .int t.uid),
      ("gid", .int t.gid), ("nlink", .int t.nlink), ("directory", .bool t.directory),
      ("baseline", t.baseline.toValue), ("granted", t.granted.toValue)], f.2.width ≤ 150 := by
    simp only [List.forall_mem_cons, hlt h.device, hlt h.inode, hlt h.gid, hlt h.nlink, hbool,
      true_and]
    rw [hshared.uid, hshared.baseline, hshared.granted]
    exact ⟨Nat.le_trans (width_natCast howner) (by decide),
      Nat.le_trans width_baselineAcl (by decide), width_traversalAcl hqemu, nofun⟩
  have hfields := Value.widthFields_le (l := ["device", "inode", "uid", "gid", "nlink",
    "directory", "baseline", "granted"]) (n := 100) rfl (by decide) hwidth
  rw [toValue, Value.width]
  exact Nat.le_trans (Nat.add_le_add_right hfields 2) (by decide)

end RuntimeAccessTarget

/-- The directories of the namespace are described by numbers of the size a kernel gives them. -/
def Authority.Sized (authority : Authority) : Prop := ∀ role, (authority.targets.get role).Sized

namespace Authority

variable {authority : Authority}

theorem owner_lt (authority : Authority) : authority.owner.toNat < 10 ^ 20 :=
  Nat.lt_of_lt_of_le authority.owner.toNat_lt (by decide)

theorem qemuUid_lt (authority : Authority) : authority.qemuUid < 10 ^ 20 :=
  Nat.lt_trans authority.uid_range.2 (by decide)

theorem qemuGid_lt (authority : Authority) : authority.qemuGid < 10 ^ 20 :=
  Nat.lt_trans authority.gid_range.2 (by decide)

theorem isSome_dumps_target (h : authority.Sized) (role : Role) :
    (dumps (authority.targets.get role).toValue).isSome :=
  RuntimeAccessTarget.isSome_dumps (h role) (authority.shared role) authority.owner_lt
    authority.qemuUid_lt

theorem width_target_le (h : authority.Sized) (role : Role) :
    (authority.targets.get role).toValue.width ≤ 1500 :=
  RuntimeAccessTarget.width_le (h role) (authority.shared role) authority.owner_lt
    authority.qemuUid_lt

end Authority

namespace SharedTraversalMembership

variable {m : SharedTraversalMembership}

theorem isSome_dumps (h : m.authority.Sized) (hepoch : m.epoch < 10 ^ 20) :
    (dumps m.toValue).isSome := by
  have hstate : (dumps m.authority.targets.state.toValue).isSome :=
    Authority.isSome_dumps_target h .state
  have hruns : (dumps m.authority.targets.runs.toValue).isSome :=
    Authority.isSome_dumps_target h .runs
  have hvolumes : (dumps m.authority.targets.rootVolumes.toValue).isSome :=
    Authority.isSome_dumps_target h .rootVolumes
  simp only [toValue, isSome_dumps_dict, List.forall_mem_cons, isSome_dumps_str,
    isSome_dumps_natCast hepoch, m.binding.isSome_dumps, hstate, hruns, hvolumes,
    isSome_dumps_natCast m.authority.qemuUid_lt, isSome_dumps_natCast m.authority.qemuGid_lt,
    true_and]
  exact List.forall_mem_nil _

theorem width_le (h : m.authority.Sized) (hepoch : m.epoch < 10 ^ 20) :
    m.toValue.width ≤ 17000 := by
  have hint : ∀ {n : ℕ}, n < 10 ^ 20 → (Value.int n).width ≤ 1500 := fun hn =>
    Nat.le_trans (width_natCast hn) (by decide)
  have huuid : ∀ u : Uuid, (Value.str u.1).width ≤ 1500 := fun u => by
    rw [width_uuid]
    decide
  have hschema : (Value.str "palimpsest.oci-shared-traversal-member.v2").width ≤ 1500 := by decide
  have hphase : (Value.str m.phase.text).width ≤ 1500 := by
    cases m.phase <;> decide
  have hstate : m.authority.targets.state.toValue.width ≤ 1500 :=
    Authority.width_target_le h .state
  have hruns : m.authority.targets.runs.toValue.width ≤ 1500 := Authority.width_target_le h .runs
  have hvolumes : m.authority.targets.rootVolumes.toValue.width ≤ 1500 :=
    Authority.width_target_le h .rootVolumes
  have hwidth : ∀ f ∈ [("schema", Value.str "palimpsest.oci-shared-traversal-member.v2"),
      ("namespace_id", .str m.authority.namespaceId.1), ("epoch", .int m.epoch),
      ("access_id", .str m.accessId.1), ("binding", m.binding.toValue),
      ("state", m.authority.targets.state.toValue), ("runs", m.authority.targets.runs.toValue),
      ("root_volumes", m.authority.targets.rootVolumes.toValue),
      ("qemu_uid", .int m.authority.qemuUid), ("qemu_gid", .int m.authority.qemuGid),
      ("phase", .str m.phase.text)], f.2.width ≤ 1500 := by
    simp only [List.forall_mem_cons, hschema, huuid, hint hepoch, hstate, hruns, hvolumes, hphase,
      hint m.authority.qemuUid_lt, hint m.authority.qemuGid_lt, true_and]
    exact ⟨Nat.le_trans m.binding.width_le (by decide), nofun⟩
  have hfields := Value.widthFields_le (l := ["schema", "namespace_id", "epoch", "access_id",
    "binding", "state", "runs", "root_volumes", "qemu_uid", "qemu_gid", "phase"]) (n := 200) rfl
    (by decide) hwidth
  rw [toValue, Value.width]
  exact Nat.le_trans (Nat.add_le_add_right hfields 2) (by decide)

/-- A key is two identifiers. -/
theorem byteLength_key (m : SharedTraversalMembership) : byteLength (quote m.key) = 75 := by
  have hplain : ∀ c ∈ m.key.toList, isPlain c := by
    intro c hc
    simp only [key, String.toList_append, List.mem_append] at hc
    rcases hc with (hc | hc) | hc
    · exact isPlain_of_mem_uuid _ hc
    · obtain rfl : c = ':' := by simpa using hc
      decide
    · exact isPlain_of_mem_uuid _ hc
  rw [byteLength_quote_of_plain hplain]
  simp only [key, String.toList_append, List.length_append, length_uuid]
  rfl

end SharedTraversalMembership

namespace Registry

variable {r : Registry}

/-- The fields of the members. -/
theorem widthFields_members_le {l : List (Sigma fun _ : String => SharedTraversalMembership)}
    (hkeys : ∀ e ∈ l, e.1 = e.2.key) (hwidth : ∀ e ∈ l, e.2.toValue.width ≤ 17000) :
    Value.widthFields (l.map fun e => (e.1, e.2.toValue)) ≤ l.length * 17100 := by
  induction l with
  | nil => exact Nat.le_refl 0
  | cons e l ih =>
    obtain ⟨hkey, hkeys⟩ := List.forall_mem_cons.mp hkeys
    obtain ⟨he, hwidth⟩ := List.forall_mem_cons.mp hwidth
    have hrest := ih hkeys hwidth
    rw [List.map_cons, Value.widthFields, hkey, SharedTraversalMembership.byteLength_key,
      List.length_cons, Nat.succ_mul]
    omega

/-- **There is room for a few dozen members.** -/
theorem storable_of_length_le (h : r.Valid) (hsized : r.authority.Sized)
    (hepoch : r.epoch < 10 ^ 20) (hlength : r.members.entries.length ≤ 50) : r.Storable := by
  have hmember : ∀ m ∈ r.listed ++ r.pending.toList, m.authority.Sized ∧ m.epoch < 10 ^ 20 := by
    intro m hm
    obtain ⟨hauthority, hle⟩ := h.authority m hm
    rw [hauthority]
    exact ⟨hsized, Nat.lt_of_le_of_lt hle hepoch⟩
  have hentry : ∀ e ∈ r.members.entries, e.2.authority.Sized ∧ e.2.epoch < 10 ^ 20 :=
    fun e he => hmember _ (List.mem_append_left _ (mem_listed he))
  have hpending : ∀ p ∈ r.pending, p.authority.Sized ∧ p.epoch < 10 ^ 20 := fun p hp =>
    hmember p (List.mem_append_right _ (Option.mem_toList.mpr hp))
  have htext : (dumps r.toValue).isSome := by
    have hstate := Authority.isSome_dumps_target hsized .state
    have hruns := Authority.isSome_dumps_target hsized .runs
    have hvolumes := Authority.isSome_dumps_target hsized .rootVolumes
    have hmembers : ∀ f ∈ r.members.entries.map fun e => (e.1, e.2.toValue),
        (dumps f.2).isSome := by
      intro f hf
      obtain ⟨e, he, rfl⟩ := List.mem_map.mp hf
      exact SharedTraversalMembership.isSome_dumps (hentry e he).1 (hentry e he).2
    have hpendingText : (dumps (orNull SharedTraversalMembership.toValue r.pending)).isSome :=
      isSome_dumps_orNull fun p hp =>
        SharedTraversalMembership.isSome_dumps (hpending p hp).1 (hpending p hp).2
    simp only [PerRole.get] at hstate hruns hvolumes
    simp only [toValue, isSome_dumps_dict, List.forall_mem_cons, isSome_dumps_str,
      isSome_dumps_natCast hepoch, hstate, hruns, hvolumes, hpendingText,
      isSome_dumps_natCast r.authority.qemuUid_lt, isSome_dumps_natCast r.authority.qemuGid_lt,
      true_and]
    exact ⟨hmembers, nofun⟩
  -- The bound of each part, summed up.
  have hwidth : r.toValue.width ≤ maxRegistryBytes := by
    have hstate := Authority.width_target_le hsized .state
    have hruns := Authority.width_target_le hsized .runs
    have hvolumes := Authority.width_target_le hsized .rootVolumes
    have hmembers := widthFields_members_le (fun e he => (h.keys e he).1) fun e he =>
      SharedTraversalMembership.width_le (hentry e he).1 (hentry e he).2
    have hpendingWidth : (orNull SharedTraversalMembership.toValue r.pending).width ≤ 17000 :=
      width_orNull_le (by decide) fun p hp =>
        SharedTraversalMembership.width_le (hpending p hp).1 (hpending p hp).2
    have huid := width_natCast r.authority.qemuUid_lt
    have hgid := width_natCast r.authority.qemuGid_lt
    have hepochWidth := width_natCast hepoch
    have hid := width_uuid r.authority.namespaceId
    have hschema : (Value.str "palimpsest.oci-shared-traversal.v2").width ≤ 40 := by decide
    have hkeys : (["schema", "namespace_id", "epoch", "qemu_uid", "qemu_gid", "state", "runs",
      "root_volumes", "members", "pending"].map fun k => byteLength (quote k)).sum ≤ 200 := by
      decide
    simp only [PerRole.get] at hstate hruns hvolumes
    simp only [List.map_cons, List.map_nil, List.sum_cons, List.sum_nil] at hkeys
    have hcount := Nat.mul_le_mul_right 17100 hlength
    rw [toValue, Value.width]
    simp only [Value.widthFields, Value.width, maxRegistryBytes] at *
    omega
  obtain ⟨t, ht⟩ := Option.isSome_iff_exists.mp htext
  refine ⟨h, (Option.any_eq_true ..).mpr ⟨t, ht, ?_⟩⟩
  exact decide_eq_true (Nat.le_trans (byteLength_dumps_le ht) hwidth)

/-- The registry with the intent of a membership to join. -/
def intend (r : Registry) (m : SharedTraversalMembership) : Registry :=
  { r with epoch := m.epoch, pending := some m }

/-- There is room for the intent, for the member, and for its intent to leave or that of another
member. -/
structure HasRoom (r : Registry) (m : SharedTraversalMembership) : Prop where
  intent : (r.intend m).Storable
  member : ((r.intend m).list (m.withPhase .active)).Storable
  leaving : ∀ x ∈ ((r.intend m).list (m.withPhase .active)).active,
    { (r.intend m).list (m.withPhase .active) with
      pending := some (x.withPhase .leaving) : Registry }.Storable

variable {m x : SharedTraversalMembership}

/-- A member makes its intent to leave known. -/
theorem valid_leaving (h : r.Valid) (hx : x ∈ r.active) :
    { r with pending := some (x.withPhase .leaving) : Registry }.Valid where
  keys := h.keys
  pending := by
    intro p hp
    obtain rfl := Option.some.inj hp
    obtain ⟨hlisted, hactive⟩ := List.mem_filter.mp hx
    obtain ⟨e, he, rfl⟩ := List.mem_map.mp hlisted
    refine .inr ⟨rfl, ?_⟩
    have hrecorded : r.recorded e.2 = some e.2 := by
      rw [recorded, ← (h.keys e he).1]
      exact (List.mem_dlookup_iff r.members.nodupKeys).mpr he
    have hphase : e.2.phase = .active := of_decide_eq_true hactive
    rw [SharedTraversalMembership.withPhase_withPhase, ← hphase]
    exact hrecorded
  authority := by
    have hlisted := h.authority x (List.mem_append_left _ (List.mem_filter.mp hx).1)
    intro m hm
    rcases List.mem_append.mp hm with hm | hm
    · exact h.authority m (List.mem_append_left _ hm)
    · obtain rfl := List.mem_singleton.mp hm
      exact hlisted
  runs := h.runs

/-- **A new run has room in a namespace of a few dozen members.** -/
theorem hasRoom_of_length_le (h : r.Valid)
    (hsized : r.authority.Sized) (hepoch : m.epoch < 10 ^ 20) (hle : r.epoch ≤ m.epoch)
    (hlength : r.members.entries.length < 50) (hauthority : m.authority = r.authority)
    (hphase : m.phase = .joining)
    (hnew : ∀ x : SharedTraversalMembership, x.runId = m.runId → r.recorded x = none) :
    r.HasRoom m := by
  have hlisted : ∀ x ∈ r.listed, x.authority = r.authority ∧ x.epoch ≤ m.epoch := by
    intro x hx
    obtain ⟨hxauthority, hxepoch⟩ := h.authority x (List.mem_append_left _ hx)
    exact ⟨hxauthority, Nat.le_trans hxepoch hle⟩
  have hintent : (r.intend m).Valid := {
    keys := h.keys
    pending := fun p hp => by
      obtain rfl := Option.some.inj hp
      exact .inl ⟨hphase, hnew m rfl⟩
    authority := fun x hx => by
      rcases List.mem_append.mp hx with hx | hx
      · exact hlisted x hx
      · obtain rfl := List.mem_singleton.mp hx
        exact ⟨hauthority, Nat.le_refl _⟩
    runs := h.runs }
  have hmember : ((r.intend m).list (m.withPhase .active)).Valid := {
    keys := by
      rw [entries_list]
      refine List.forall_mem_cons.mpr ⟨⟨rfl, .inl rfl⟩, fun e he => ?_⟩
      exact h.keys e (entries_compact_subset r (m.withPhase .active) he)
    pending := fun p hp => absurd hp (Option.not_mem_none p)
    authority := by
      intro x hx
      rw [list, Option.toList_none, List.append_nil, listed] at hx
      obtain ⟨e, he, rfl⟩ := List.mem_map.mp hx
      rw [AList.entries_insert] at he
      rcases List.mem_cons.mp he with rfl | he
      · exact ⟨hauthority, Nat.le_refl _⟩
      · exact hlisted _ (mem_listed (entries_compact_subset r (m.withPhase .active) he))
    runs := by
      rw [active_list rfl, List.map_cons, List.nodup_cons]
      refine ⟨fun hmem => ?_, h.runs.sublist ((active_compact_sublist r _).map _)⟩
      -- no member is one of the run
      obtain ⟨x, hx, hrun⟩ := List.mem_map.mp hmem
      have hactive : x ∈ r.active := (active_compact_sublist r _).subset hx
      obtain ⟨e, he, rfl⟩ := List.mem_map.mp (List.mem_filter.mp hactive).1
      have hrecorded : r.recorded e.2 = some e.2 := by
        rw [recorded, ← (h.keys e he).1]
        exact (List.mem_dlookup_iff r.members.nodupKeys).mpr he
      rw [hnew e.2 hrun] at hrecorded
      cases hrecorded }
  have hcount : ((r.intend m).list (m.withPhase .active)).members.entries.length ≤ 50 := by
    rw [entries_list, List.length_cons]
    exact Nat.succ_le_of_lt (Nat.lt_of_le_of_lt (List.kerase_sublist _ _).length_le hlength)
  exact {
    intent := storable_of_length_le hintent hsized hepoch (Nat.le_of_lt hlength)
    member := storable_of_length_le hmember hsized hepoch hcount
    leaving := fun x hx =>
      storable_of_length_le (valid_leaving hmember hx) hsized hepoch hcount }

end Registry

end Palimpsest.Access
