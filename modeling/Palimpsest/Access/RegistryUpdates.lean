import Palimpsest.Access.Registry
import Palimpsest.Lib.JsonShorter

/-!
# What happens to the registry

A membership is listed (`Palimpsest.Access.Registry.list`) or forgotten
(`Palimpsest.Access.Registry.compact`). For each, what the registry then says of the runs, which
of them are active, and that the registry can still be stored: a registry from which a member has
left takes no more room than the one with the intent to leave.
-/

namespace Palimpsest.Access

open Json Control Monitor

namespace Registry

variable {r : Registry} {m x e : SharedTraversalMembership} {runId : Uuid}

/-! ### What is recorded -/

@[simp]
theorem recorded_withPhase (r : Registry) (m : SharedTraversalMembership) (phase : Phase) :
    r.recorded (m.withPhase phase) = r.recorded m := rfl

theorem recorded_list (r : Registry) (x : SharedTraversalMembership) :
    (r.list x).recorded x = some x :=
  AList.lookup_insert r.members

theorem recorded_list_of_ne (h : m.runId ≠ x.runId) : (r.list x).recorded m = r.recorded m :=
  AList.lookup_insert_ne fun hkey => h (SharedTraversalMembership.runId_eq_of_key_eq hkey)

theorem recorded_compact (r : Registry) (x : SharedTraversalMembership) :
    (r.compact x).recorded x = none :=
  AList.lookup_erase x.key r.members

theorem recorded_compact_of_ne (h : m.runId ≠ x.runId) :
    (r.compact x).recorded m = r.recorded m :=
  AList.lookup_erase_ne fun hkey => h (SharedTraversalMembership.runId_eq_of_key_eq hkey)

/-- The pending intent, if it is of the run. -/
def pendingOf (r : Registry) (runId : Uuid) : Option SharedTraversalMembership :=
  r.pending.filter (·.runId = runId)

theorem pendingOf_of_none (h : r.pending = none) (runId : Uuid) : r.pendingOf runId = none := by
  rw [pendingOf, h]
  rfl

theorem pendingOf_eq_some : r.pendingOf runId = some m ↔ r.pending = some m ∧ m.runId = runId := by
  rw [pendingOf, Option.filter_eq_some_iff, decide_eq_true_eq]

theorem pendingOf_of_some (h : r.pending = some m) : r.pendingOf m.runId = some m :=
  pendingOf_eq_some.mpr ⟨h, rfl⟩

theorem pendingOf_of_ne (h : r.pending = some m) (hne : m.runId ≠ runId) :
    r.pendingOf runId = none := by
  rw [pendingOf, h, Option.filter_some, if_neg (by simpa using hne)]

/-! ### The active members -/

theorem entries_list (r : Registry) (x : SharedTraversalMembership) :
    (r.list x).members.entries = ⟨x.key, x⟩ :: (r.compact x).members.entries :=
  AList.entries_insert

/-- The entry of a membership, and all others. -/
theorem entries_perm (h : r.recorded x = some e) :
    r.members.entries.Perm (⟨x.key, e⟩ :: (r.compact x).members.entries) := by
  have hmem : x.key ∈ r.members.entries.keys :=
    List.dlookup_isSome.mp (Option.isSome_iff_exists.mpr ⟨e, h⟩)
  obtain ⟨e', before, after, -, hentries, hrest⟩ := List.exists_of_kerase hmem
  have hlookup : r.recorded x = some e' := by
    refine (List.mem_dlookup_iff r.members.nodupKeys).mpr ?_
    rw [hentries]
    exact List.mem_append_right _ List.mem_cons_self
  obtain rfl : e' = e := Option.some.inj (hlookup.symm.trans h)
  have hcompact : (r.compact x).members.entries = before ++ after := hrest
  rw [hentries, hcompact]
  exact List.perm_middle

theorem active_eq (r : Registry) :
    r.active = (r.members.entries.map (·.2)).filter (·.phase = .active) := rfl

/-- Of the active members one is the member itself. -/
theorem active_perm (h : r.recorded x = some e) (he : e.phase = .active) :
    r.active.Perm (e :: (r.compact x).active) := by
  have hperm := ((entries_perm h).map (·.2)).filter (·.phase = .active)
  rwa [List.map_cons, List.filter_cons_of_pos (by simpa using he)] at hperm

/-- A member that is not active is not among them. -/
theorem active_perm_of_ne (h : r.recorded x = some e) (he : e.phase ≠ .active) :
    r.active.Perm (r.compact x).active := by
  have hperm := ((entries_perm h).map (·.2)).filter (·.phase = .active)
  rwa [List.map_cons, List.filter_cons_of_neg (by simpa using he)] at hperm

theorem active_list (hx : x.phase = .active) :
    (r.list x).active = x :: (r.compact x).active := by
  rw [active_eq, entries_list, List.map_cons, List.filter_cons_of_pos (by simpa using hx)]
  rfl

theorem active_list_of_ne (hx : x.phase ≠ .active) :
    (r.list x).active = (r.compact x).active := by
  rw [active_eq, entries_list, List.map_cons, List.filter_cons_of_neg (by simpa using hx)]
  rfl

/-! ### Consistency -/

theorem mem_listed {e : Sigma fun _ : String => SharedTraversalMembership}
    (h : e ∈ r.members.entries) : e.2 ∈ r.listed :=
  List.mem_map_of_mem h

theorem entries_compact_subset (r : Registry) (x : SharedTraversalMembership) :
    (r.compact x).members.entries ⊆ r.members.entries :=
  (List.kerase_sublist _ _).subset

theorem active_compact_sublist (r : Registry) (x : SharedTraversalMembership) :
    (r.compact x).active.Sublist r.active :=
  ((List.kerase_sublist _ _).map _).filter _

/-- A membership that left is forgotten. -/
theorem valid_compact (h : r.Valid) (hx : r.recorded x = some (x.withPhase .left)) :
    (r.compact x).Valid where
  keys := fun e he => h.keys e (entries_compact_subset r x he)
  pending := by
    intro p hp
    rcases eq_or_ne p.key x.key with hkey | hkey
    · -- a membership that left is neither about to join nor about to leave
      have hrecorded : r.recorded p = some (x.withPhase .left) := by
        rw [recorded, hkey]
        exact hx
      rcases h.pending p hp with ⟨-, hnone⟩ | ⟨-, hactive⟩
      · rw [hrecorded] at hnone
        cases hnone
      · rw [hrecorded, Option.some.injEq] at hactive
        cases congrArg SharedTraversalMembership.phase hactive
    · have hsame : (r.compact x).recorded p = r.recorded p := AList.lookup_erase_ne hkey
      rw [hsame]
      exact h.pending p hp
  authority := by
    intro m hm
    refine h.authority m ?_
    rcases List.mem_append.mp hm with hm | hm
    · obtain ⟨e, he, rfl⟩ := List.mem_map.mp hm
      exact List.mem_append_left _ (mem_listed (entries_compact_subset r x he))
    · exact List.mem_append_right _ hm
  runs := h.runs.sublist ((active_compact_sublist r x).map _)

/-- A member leaves, whose intent was pending. -/
theorem valid_list_left (h : r.Valid) (hx : r.pending = some x) :
    (r.list (x.withPhase .left)).Valid where
  keys := by
    rw [entries_list]
    refine List.forall_mem_cons.mpr ⟨⟨rfl, .inr rfl⟩, fun e he => ?_⟩
    exact h.keys e (entries_compact_subset r x he)
  pending := fun p hp => absurd hp (Option.not_mem_none p)
  authority := by
    have hauthority := h.authority x
      (List.mem_append_right _ (by rw [hx]; exact List.mem_singleton_self x))
    intro m hm
    rw [list, Option.toList_none, List.append_nil, listed] at hm
    obtain ⟨e, he, rfl⟩ := List.mem_map.mp hm
    rw [AList.entries_insert] at he
    rcases List.mem_cons.mp he with rfl | he
    · exact hauthority
    · exact h.authority _ (List.mem_append_left _ (mem_listed (entries_compact_subset r x he)))
  runs := by
    rw [active_list_of_ne (show Phase.left ≠ .active by decide)]
    exact h.runs.sublist ((active_compact_sublist r _).map _)

/-! ### Room -/

/-- A registry that is no longer than one that can be stored. -/
theorem storable_of_noLonger {s : Registry} (h : r.Storable) (hs : s.Valid)
    (hlength : NoLonger s.toValue r.toValue) : s.Storable := by
  obtain ⟨t, ht, hle⟩ := (Option.any_eq_true ..).mp h.2
  obtain ⟨u, hu, hle'⟩ := hlength t ht
  refine ⟨hs, (Option.any_eq_true ..).mpr ⟨u, hu, ?_⟩⟩
  exact decide_eq_true (Nat.le_trans hle' (of_decide_eq_true hle))

/-- Registries that differ in what they list and in what is pending. -/
theorem noLonger_toValue {s : Registry} (hauthority : s.authority = r.authority)
    (hepoch : s.epoch = r.epoch)
    (hmembers : FieldsNoLonger (s.members.entries.map fun e => (e.1, e.2.toValue))
      (r.members.entries.map fun e => (e.1, e.2.toValue)))
    (hpending : NoLonger (orNull SharedTraversalMembership.toValue s.pending)
      (orNull SharedTraversalMembership.toValue r.pending)) :
    NoLonger s.toValue r.toValue := by
  rw [toValue, toValue, hauthority, hepoch]
  refine noLonger_dict ?_
  iterate 8 refine fieldsNoLonger_cons (.refl _) ?_
  refine fieldsNoLonger_cons (noLonger_dict hmembers) ?_
  exact fieldsNoLonger_cons hpending (.refl _)

theorem storable_compact (h : r.Storable) (hx : r.recorded x = some (x.withPhase .left)) :
    (r.compact x).Storable := by
  refine storable_of_noLonger h (valid_compact h.1 hx) (noLonger_toValue rfl rfl ?_ (.refl _))
  have hperm := (entries_perm hx).map
    fun e : Sigma fun _ : String => SharedTraversalMembership => (e.1, e.2.toValue)
  exact fieldsNoLonger_tail.trans (fieldsNoLonger_perm hperm.symm)

/-- A membership takes less room when it has left. -/
theorem noLonger_left (x : SharedTraversalMembership) :
    NoLonger (x.withPhase .left).toValue (x.withPhase .active).toValue := by
  refine noLonger_dict ?_
  iterate 10 refine fieldsNoLonger_cons (.refl _) ?_
  exact fieldsNoLonger_cons
    (noLonger_str (show byteLength (quote "left") ≤ byteLength (quote "active") by decide))
    (.refl _)

/-- **A member that leaves takes no more room than its intent to leave.** -/
theorem storable_list_left (h : r.Storable) (hx : r.pending = some x)
    (hphase : x.phase = .leaving) :
    (r.list (x.withPhase .left)).Storable := by
  refine storable_of_noLonger h (valid_list_left h.1 hx) (noLonger_toValue rfl rfl ?_ ?_)
  · have hactive : r.recorded x = some (x.withPhase .active) := by
      rcases h.1.pending x hx with ⟨hjoining, -⟩ | ⟨-, hactive⟩
      · rw [hphase] at hjoining
        cases hjoining
      · exact hactive
    have hperm := (entries_perm hactive).map
      fun e : Sigma fun _ : String => SharedTraversalMembership => (e.1, e.2.toValue)
    rw [entries_list, List.map_cons]
    exact (fieldsNoLonger_cons (noLonger_left x) (.refl _)).trans (fieldsNoLonger_perm hperm.symm)
  · rw [hx]
    exact noLonger_null_dict

end Registry

end Palimpsest.Access
