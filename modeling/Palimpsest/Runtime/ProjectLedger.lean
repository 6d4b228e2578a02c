import Palimpsest.Runtime.RunBackend
import Palimpsest.Runtime.ServiceOrder

/-!
# The ledger of a project

The order of a ledger has its services, each once (`Consistent`), and this stays so where a
service is recorded or erased, and where the order is refreshed
(`successfulServiceOrder_consistent`). What it records does not depend on the order
(`records_iff`).
-/

namespace Palimpsest.Runtime

variable {project : Project} {name : String}

/-- The ledger that is read. -/
def ledgerOf (project : Project) (s : State) : ProjectState := s.stored.getD (newState project)

/-- The services of a ledger stand in its order, each once. -/
def Consistent (services : Services) (order : List String) : Prop :=
  order.Nodup ∧ ∀ name, name ∈ order ↔ name ∈ services

/-- The services of a ledger have the names and runs that they should. -/
def Named (project : Project) (services : Services) : Prop :=
  ∀ name managed, services.lookup name = some managed →
    managed.service = name ∧ managed.runName = project.runName name

/-- **A ledger that is accepted** has its services in order, under the names they should have, and
none has the run of another one. -/
theorem isValid_iff {record : ProjectState} : record.isValid project = true ↔
    Consistent record.services record.order ∧ Named project record.services ∧
      (record.order.map project.runName).Nodup := by
  have hkeys : record.order.toFinset = record.services.keys ↔
      ∀ name, name ∈ record.order ↔ name ∈ record.services := by
    simp only [Finset.ext_iff, List.mem_toFinset, Finmap.mem_keys]
  -- The loop goes over the order, and so over all services that are recorded.
  have hnamed : (∀ name, name ∈ record.order ↔ name ∈ record.services) →
      ((record.order.all fun name => (record.services.lookup name).all fun managed =>
        managed.service = name && managed.runName = project.runName name) = true ↔
          Named project record.services) := by
    intro hmem
    rw [List.all_eq_true]
    constructor
    · intro h name managed hlookup
      have hname := h name ((hmem name).mpr (Finmap.mem_of_lookup_eq_some hlookup))
      rw [hlookup, Option.all_some, Bool.and_eq_true, decide_eq_true_eq, decide_eq_true_eq] at hname
      exact hname
    · intro h name _
      cases hlookup : record.services.lookup name with
      | none => rfl
      | some managed =>
        rw [Option.all_some, Bool.and_eq_true, decide_eq_true_eq, decide_eq_true_eq]
        exact h name managed hlookup
  rw [ProjectState.isValid, Bool.and_eq_true, Bool.and_eq_true, Bool.and_eq_true, decide_eq_true_eq,
    decide_eq_true_eq, decide_eq_true_eq, hkeys]
  constructor
  · rintro ⟨⟨⟨hnodup, hmem⟩, hall⟩, hruns⟩
    exact ⟨⟨hnodup, hmem⟩, (hnamed hmem).mp hall, hruns⟩
  · rintro ⟨⟨hnodup, hmem⟩, hall, hruns⟩
    exact ⟨⟨⟨hnodup, hmem⟩, (hnamed hmem).mpr hall⟩, hruns⟩

theorem consistent_newState : Consistent (newState project).services (newState project).order :=
  ⟨List.nodup_nil, fun _ => iff_of_false List.not_mem_nil Finmap.notMem_empty⟩

theorem named_newState : Named project (newState project).services := by
  intro name managed hlookup
  rw [newState, Finmap.lookup_empty] at hlookup
  cases hlookup

theorem records_iff {services : Services} {order : List String} (h : Consistent services order)
    {identity : RuntimeIdentity} :
    records services order name identity = true ↔
      ∃ service managed, services.lookup service = some managed ∧ managed.runName = name ∧
        managed.identity = identity := by
  rw [records, List.any_eq_true]
  constructor
  · rintro ⟨service, -, hany⟩
    cases hlookup : services.lookup service with
    | none =>
      rw [hlookup] at hany
      cases hany
    | some managed =>
      rw [hlookup, Option.any_some, Bool.and_eq_true, decide_eq_true_eq, decide_eq_true_eq] at hany
      exact ⟨service, managed, hlookup, hany⟩
  · rintro ⟨service, managed, hlookup, hname, hidentity⟩
    refine ⟨service, (h.2 service).mpr (Finmap.mem_of_lookup_eq_some hlookup), ?_⟩
    rw [hlookup, Option.any_some, Bool.and_eq_true, decide_eq_true_eq, decide_eq_true_eq]
    exact ⟨hname, hidentity⟩

theorem Consistent.insert {services : Services} {order : List String}
    (h : Consistent services order)
    (name : String) (managed : ManagedService) :
    Consistent (services.insert name managed)
      (if name ∈ order then order else order ++ [name]) := by
  split_ifs with hmem
  · refine ⟨h.1, fun other => ?_⟩
    rw [Finmap.mem_insert, ← h.2]
    exact ⟨.inr, fun hother => hother.elim (fun heq => heq ▸ hmem) fun hother => hother⟩
  · refine ⟨List.nodup_append.mpr ⟨h.1, List.nodup_singleton _, fun other hother last hlast => ?_⟩,
      fun other => ?_⟩
    · rintro rfl
      exact hmem (List.mem_singleton.mp hlast ▸ hother)
    · rw [Finmap.mem_insert, ← h.2, List.mem_append, List.mem_singleton, or_comm]

theorem Consistent.erase {services : Services} {order : List String} (h : Consistent services order)
    (name : String) : Consistent (services.erase name) (order.erase name) := by
  refine ⟨h.1.erase name, fun other => ?_⟩
  rw [h.1.mem_erase_iff, Finmap.mem_erase, h.2]

theorem Named.erase {services : Services} (h : Named project services) (service : String) :
    Named project (services.erase service) := by
  intro other managed hmanaged
  by_cases hother : other = service
  · rw [hother, Finmap.lookup_erase] at hmanaged
    cases hmanaged
  · rw [Finmap.lookup_erase_ne hother] at hmanaged
    exact h other managed hmanaged

theorem records_of_erase {services : Services} {order : List String} (h : Consistent services order)
    {service : String} {identity : RuntimeIdentity}
    (hrecords : records (services.erase service) (order.erase service) name identity = true) :
    records services order name identity = true := by
  obtain ⟨other, managed, hmanaged, hrun⟩ := (records_iff (h.erase service)).mp hrecords
  refine (records_iff h).mpr ⟨other, managed, ?_, hrun⟩
  by_cases hother : other = service
  · rw [hother, Finmap.lookup_erase] at hmanaged
    cases hmanaged
  · rwa [Finmap.lookup_erase_ne hother] at hmanaged

/-- A run of another name stays recorded where a service is erased. -/
theorem records_erase {services : Services} {order : List String} (h : Consistent services order)
    (hnamed : Named project services) {service : String} (hname : name ≠ project.runName service)
    {identity : RuntimeIdentity} (hrecords : records services order name identity = true) :
    records (services.erase service) (order.erase service) name identity = true := by
  obtain ⟨other, managed, hmanaged, hrun, hidentity⟩ := (records_iff h).mp hrecords
  refine (records_iff (h.erase service)).mpr ⟨other, managed, ?_, hrun, hidentity⟩
  have hother : other ≠ service := by
    rintro rfl
    exact hname (hrun.symm.trans (hnamed _ managed hmanaged).2)
  rwa [Finmap.lookup_erase_ne hother]

/-- What a run is recorded as does not depend on the order of the ledger. -/
theorem records_congr {services : Services} {order order' : List String}
    (h : Consistent services order) (h' : Consistent services order') {identity : RuntimeIdentity} :
    records services order' name identity = records services order name identity := by
  rw [Bool.eq_iff_iff, records_iff h, records_iff h']

/-- Records of volumes are taken over, and none is replaced. -/
theorem mergeVolumes_lookup {expected seen : List String} {merged result : Volumes}
    {supplied : List ManagedVolume}
    (h : mergeVolumes project expected seen merged supplied = some result) :
    (∀ volume ∈ supplied, result.lookup volume.name = some volume) ∧
      ∀ name volume, merged.lookup name = some volume → result.lookup name = some volume := by
  induction supplied generalizing seen merged with
  | nil =>
    obtain rfl := Option.some.inj h
    exact ⟨nofun, fun _ _ hlookup => hlookup⟩
  | cons volume supplied ih =>
    simp only [mergeVolumes, Option.bind_eq_bind, Option.bind_eq_some_iff, Option.guard_eq_some']
      at h
    obtain ⟨-, -, -, -, spec, -, -, -, -, hprior, h⟩ := h
    obtain ⟨hsupplied, hkept⟩ := ih h
    refine ⟨fun other hother => ?_, fun name other hlookup => ?_⟩
    · rcases List.mem_cons.mp hother with rfl | hother
      · exact hkept _ _ (Finmap.lookup_insert _)
      · exact hsupplied other hother
    · refine hkept name other ?_
      by_cases hname : name = volume.name
      · subst hname
        rw [hlookup, Option.all_some, decide_eq_true_eq] at hprior
        rw [Finmap.lookup_insert, hprior]
      · rw [Finmap.lookup_insert_of_ne _ hname, hlookup]

/-! ### The order of services -/

/-- The refreshed order has the services of the ledger, each once. -/
theorem successfulServiceOrder_consistent {services : Services} {previous order : List String}
    (h : successfulServiceOrder project services previous = some order)
    (hprevious : previous.Nodup) : Consistent services order := by
  obtain ⟨all, hall, h⟩ := Option.bind_eq_some_iff.mp h
  obtain ⟨hnodup, hknown⟩ := serviceStartOrder_spec hall
  obtain rfl := Option.some.inj h
  set current := all.filter fun name => name ∈ services
  set orphans := previous.filter fun name => name ∈ services && (project.service name).isNone
  have hfirst : (current ++ orphans).Nodup := by
    refine List.nodup_append.mpr
      ⟨hnodup.filter _, hprevious.filter _, fun name hname other hother => ?_⟩
    rintro rfl
    have hservice := hknown name (List.mem_filter.mp hname).1
    have hnone := (List.mem_filter.mp hother).2
    rw [Bool.and_eq_true, Option.isNone_iff_eq_none] at hnone
    rw [hnone.2] at hservice
    cases hservice
  have hfirstMem : ∀ name ∈ current ++ orphans, name ∈ services := by
    intro name hname
    rcases List.mem_append.mp hname with hname | hname
    · exact of_decide_eq_true (List.mem_filter.mp hname).2
    · have hmem := (List.mem_filter.mp hname).2
      rw [Bool.and_eq_true, decide_eq_true_eq] at hmem
      exact hmem.1
  have hrest : ∀ name, name ∈ (services.keys.filter fun name => name ∉ current ++ orphans).sort ↔
      name ∈ services ∧ name ∉ current ++ orphans := by
    intro name
    rw [Finset.mem_sort, Finset.mem_filter, Finmap.mem_keys]
  refine ⟨List.nodup_append.mpr ⟨hfirst, Finset.sort_nodup _ _, fun name hname other hother => ?_⟩,
    fun name => ?_⟩
  · rintro rfl
    exact ((hrest name).mp hother).2 hname
  · rw [List.mem_append, hrest]
    refine ⟨fun hname => hname.elim (hfirstMem name) And.left, fun hname => ?_⟩
    by_cases hmem : name ∈ current ++ orphans
    · exact .inl hmem
    · exact .inr ⟨hname, hmem⟩

/-- **A refreshed order is not refreshed again.** -/
theorem successfulServiceOrder_idem {services : Services} {previous order : List String}
    (h : successfulServiceOrder project services previous = some order) :
    successfulServiceOrder project services order = some order := by
  obtain ⟨all, hall, h⟩ := Option.bind_eq_some_iff.mp h
  obtain rfl := Option.some.inj h
  have hstart := serviceStartOrder_spec hall
  set current := all.filter fun name => name ∈ services with hcurrent
  set orphans := previous.filter fun name => name ∈ services && (project.service name).isNone
    with horphans
  set rest := (services.keys.filter fun name => name ∉ current ++ orphans).sort with hrest
  -- What is neither current nor an orphan has no service either, since the start order has all.
  have hnoService : ∀ name ∈ rest, name ∈ services ∧ (project.service name).isNone = true := by
    intro name hname
    rw [hrest, Finset.mem_sort, Finset.mem_filter, Finmap.mem_keys] at hname
    refine ⟨hname.1, ?_⟩
    by_contra hsome
    rw [Bool.not_eq_true, Option.isNone_eq_false_iff] at hsome
    refine hname.2 (List.mem_append_left _ (List.mem_filter.mpr ⟨?_, decide_eq_true hname.1⟩))
    exact mem_serviceStartOrder hall (service_isSome.mp hsome)
  have hcurrentNot : current.filter (fun name => name ∈ services && (project.service name).isNone) =
      [] := by
    rw [List.filter_eq_nil_iff]
    intro name hname hboth
    rw [Bool.and_eq_true, Option.isNone_iff_eq_none] at hboth
    have hsome := hstart.2 name (List.mem_filter.mp hname).1
    rw [hboth.2] at hsome
    cases hsome
  have hfilter : (current ++ orphans ++ rest).filter
      (fun name => name ∈ services && (project.service name).isNone) = orphans ++ rest := by
    rw [List.filter_append, List.filter_append, hcurrentNot, List.nil_append]
    refine congrArg₂ _ ?_ ?_
    · exact List.filter_eq_self.mpr fun name hname => (List.mem_filter.mp hname).2
    · refine List.filter_eq_self.mpr fun name hname => ?_
      rw [(hnoService name hname).2, Bool.and_true]
      exact decide_eq_true (hnoService name hname).1
  have hnone : services.keys.filter (fun name => name ∉ current ++ (orphans ++ rest)) = ∅ := by
    refine Finset.filter_eq_empty_iff.mpr fun name hname hnot => hnot ?_
    rw [← List.append_assoc, List.mem_append]
    by_cases hmem : name ∈ current ++ orphans
    · exact .inl hmem
    · exact .inr ((Finset.mem_sort _).mpr (Finset.mem_filter.mpr ⟨hname, hmem⟩))
  rw [successfulServiceOrder, hall, Option.bind_eq_bind, Option.bind_some]
  show some (current ++ _ ++ (Finset.filter _ _).sort) = _
  rw [hfilter, hnone, Finset.sort_empty, List.append_nil, List.append_assoc]

end Palimpsest.Runtime
