import Mathlib.Algebra.BigOperators.Group.List.Basic
import Mathlib.Algebra.GroupWithZero.Nat
import Palimpsest.Changeset.Index

/-!
# What `purge_subtree` removes

The loop of `purge_subtree` follows the index of children, not the table, and the
index is being taken down under it. `Palimpsest.Reduction.Purging` is what holds
between two rounds: a path of the table is either still listed under its parent or
already on the stack. When the stack is empty the index is exact again and nothing
is left strictly below the path (`Palimpsest.Reduction.Purging.node?_eq_none`).
-/

namespace Palimpsest

open ParentTree

/-- The total length of the lists a dictionary holds. -/
def totalLength {α β : Type} (d : List (Sigma fun _ : α => List β)) : ℕ :=
  (d.map fun e => e.2.length).sum

theorem totalLength_kerase {α β : Type} [DecidableEq α] (a : α)
    (d : List (Sigma fun _ : α => List β)) :
    totalLength (d.kerase a) + ((d.dlookup a).getD []).length = totalLength d := by
  induction d with
  | nil => rfl
  | cons e d ih =>
    obtain ⟨b, s⟩ := e
    by_cases h : b = a
    · subst h
      have hk : List.kerase b (⟨b, s⟩ :: d) = d := List.kerase_cons_eq rfl
      rw [List.dlookup_cons_eq, hk, Option.getD_some]
      simp only [totalLength, List.map_cons, List.sum_cons]
      omega
    · rw [List.dlookup_cons_ne _ _ (Ne.symm h), List.kerase_cons_ne (Ne.symm h)]
      simp only [totalLength, List.map_cons, List.sum_cons] at ih ⊢
      omega

namespace Reduction

variable {π : Type} {st st' : Reduction π} {p q d : RelPath} {w : List RelPath} {t : Text}

/-! ### Enough fuel -/

/-- The number of paths in the index of children. -/
def indexSize (st : Reduction π) : ℕ := totalLength st.children.entries

theorem purgeFuel_eq (st : Reduction π) (p : RelPath) :
    st.purgeFuel p = st.indexSize + (st.childrenOf p).length := rfl

/-- Removing a path takes its children out of the index. -/
theorem indexSize_removeExact (st : Reduction π) (d : RelPath) :
    (st.removeExact d false).indexSize + (st.childrenOf d).length ≤ st.indexSize := by
  have herase := totalLength_kerase d st.children.entries
  change totalLength (st.children.erase d).entries + (st.childrenOf d).length = st.indexSize
    at herase
  suffices h : (st.removeExact d false).indexSize ≤ totalLength (st.children.erase d).entries by
    omega
  rw [removeExact, if_neg (by simp), unregister]
  dsimp only
  rw [children_dropNode]
  split
  · exact le_refl _
  · rename_i e he
    split
    · exact le_refl _
    · rename_i s hs
      have hins := totalLength_kerase e (st.children.erase d).entries
      have hs' : ((st.children.erase d).entries.dlookup e).getD [] = s := by
        change ((st.children.erase d).lookup e).getD [] = s
        rw [hs, Option.getD_some]
      rw [hs'] at hins
      have hle := List.length_filter_le (fun x => decide (x ≠ d)) s
      change (List.map _ _).sum ≤ _
      rw [AList.entries_insert]
      simp only [List.map_cons, List.sum_cons]
      change _ + totalLength _ ≤ _
      omega

/-! ### The loop -/

/-- What holds between two rounds of the loop of `purge_subtree`. -/
structure Purging (st : Reduction π) (p : RelPath) (w : List RelPath) : Prop where
  /-- The index lists entries of the table, below their parents. -/
  listed : ∀ d q, q ∈ st.childrenOf d → q.parent = some d ∧ (st.node? q).isSome
  /-- What the table holds is listed or on the stack. -/
  reach : ∀ d q, q.parent = some d → (st.node? q).isSome → q ∈ st.childrenOf d ∨ q ∈ w
  /-- What is still listed under the path itself is on the stack. -/
  top : ∀ q ∈ st.childrenOf p, q ∈ w
  /-- The stack holds paths below. -/
  below : ∀ q ∈ w, Above p q
  /-- Only paths on the stack can have lost their parent. -/
  closed : ∀ d q, q.parent = some d → (st.node? q).isSome → Above p q →
    d = p ∨ (st.node? d).isSome ∨ q ∈ w
  /-- The waiting sets hold forward links. -/
  waiting : ∀ t q, q ∈ st.waitingFor t → st.pendingAt q = some t

theorem pendingAt_congr (h : st'.node? q = st.node? q) : st'.pendingAt q = st.pendingAt q := by
  rw [pendingAt, h, pendingAt]

/-- A forward link in a waiting set is in the table. -/
theorem isSome_of_pendingAt (h : st.pendingAt q = some t) : (st.node? q).isSome := by
  rw [pendingAt] at h
  cases hq : st.node? q with
  | none => simp [hq] at h
  | some n => rfl

/-- What is left of the waiting sets when a path is removed. -/
theorem mem_waitingFor_removeExact {keep : Bool}
    (hw : ∀ t q, q ∈ st.waitingFor t → st.pendingAt q = some t) :
    q ∈ (st.removeExact p keep).waitingFor t ↔ q ∈ st.waitingFor t ∧ q ≠ p := by
  rw [waitingFor_removeExact]
  split
  · simp
  · rename_i h
    refine ⟨fun hq => ⟨hq, ?_⟩, And.left⟩
    rintro rfl
    exact h (hw t q hq)

theorem waiting_removeExact {keep : Bool}
    (hw : ∀ t q, q ∈ st.waitingFor t → st.pendingAt q = some t) (t : Text) (q : RelPath)
    (hq : q ∈ (st.removeExact p keep).waitingFor t) :
    (st.removeExact p keep).pendingAt q = some t := by
  obtain ⟨hq, hne⟩ := (mem_waitingFor_removeExact hw).mp hq
  have hkeep : (st.removeExact p keep).node? q = st.node? q := by rw [node?_removeExact, if_neg hne]
  rw [pendingAt_congr hkeep, hw t q hq]

/-- **One round of the loop.** -/
theorem Purging.step (h : Purging st p (d :: w)) :
    Purging (st.removeExact d false) p (st.childrenOf d ++ w) := by
  have hpd : Above p d := h.below d (by simp)
  refine ⟨?_, ?_, ?_, ?_, ?_, waiting_removeExact h.waiting⟩
  · intro e q hq
    rw [childrenOf_removeExact] at hq
    rw [node?_removeExact]
    split at hq
    · cases hq
    · have hqd : q ∈ st.childrenOf e ∧ q ≠ d := by
        split at hq
        · simpa using hq
        · rename_i hde
          refine ⟨hq, ?_⟩
          rintro rfl
          exact hde (h.listed e q hq).1
      rw [if_neg hqd.2]
      exact h.listed e q hqd.1
  · intro e q hpar hq
    rw [node?_removeExact] at hq
    split at hq
    · cases hq
    · rename_i hqd
      rw [childrenOf_removeExact, List.mem_append]
      rcases h.reach e q hpar hq with hc | hc
      -- A child of the node that is removed waits in the list now.
      · by_cases hed : e = d
        · exact Or.inr (Or.inl (hed ▸ hc))
        · rw [if_neg hed]
          refine Or.inl ?_
          split
          · simpa using ⟨hc, hqd⟩
          · exact hc
      · rcases List.mem_cons.mp hc with rfl | hc
        · exact absurd rfl hqd
        · exact Or.inr (Or.inr hc)
  · intro q hq
    rw [childrenOf_removeExact, if_neg hpd.ne] at hq
    rw [List.mem_append]
    have hqd : q ∈ st.childrenOf p ∧ q ≠ d := by
      split at hq
      · simpa using hq
      · rename_i hne
        refine ⟨hq, ?_⟩
        rintro rfl
        exact hne (h.listed p q hq).1
    rcases List.mem_cons.mp (h.top q hqd.1) with rfl | hw
    · exact absurd rfl hqd.2
    · exact Or.inr hw
  · intro q hq
    rcases List.mem_append.mp hq with hq | hq
    · exact hpd.trans (above_of_parent (h.listed d q hq).1)
    · exact h.below q (List.mem_cons_of_mem _ hq)
  · intro e q hpar hq hpq
    rw [node?_removeExact] at hq ⊢
    split at hq
    · cases hq
    · rename_i hqd
      rcases h.closed e q hpar hq hpq with he | he | hw
      · exact Or.inl he
      · by_cases hed : e = d
        · refine Or.inr (Or.inr (List.mem_append.mpr ?_))
          rcases h.reach e q hpar hq with hc | hc
          · exact Or.inl (hed ▸ hc)
          · exact Or.inr ((List.mem_cons.mp hc).resolve_left hqd)
        · rw [if_neg hed]
          exact Or.inr (Or.inl he)
      · exact Or.inr (Or.inr (List.mem_append_right _ ((List.mem_cons.mp hw).resolve_left hqd)))

/-- With an empty stack nothing is left strictly below. -/
theorem Purging.node?_eq_none (h : Purging st p []) (q : RelPath) :
    Above p q → st.node? q = none := by
  induction q using walk_induction with
  | root => exact fun hq => absurd hq (not_above_root p)
  | step q d hd ih =>
    intro hq
    by_contra hcon
    have hsome : (st.node? q).isSome := Option.isSome_iff_ne_none.mpr hcon
    rcases h.closed d q hd hsome hq with rfl | hds | hw
    · rcases h.reach d q hd hsome with hc | hc
      · exact List.not_mem_nil (h.top q hc)
      · exact List.not_mem_nil hc
    · rcases (above_iff hd).mp hq with rfl | hpd
      · rcases h.reach p q hd hsome with hc | hc
        · exact List.not_mem_nil (h.top q hc)
        · exact List.not_mem_nil hc
      · rw [ih hpd] at hds
        cases hds
    · exact List.not_mem_nil hw

/-- **The loop, with enough fuel**: it ends with an empty stack, touches nothing
outside the subtree, and takes removed links out of the waiting sets. -/
theorem purgeLoop_spec {n : ℕ} (h : Purging st p w) (hn : st.indexSize + w.length ≤ n) :
    Purging (purgeLoop n w st) p [] ∧
      (∀ q, ¬Above p q → (purgeLoop n w st).node? q = st.node? q) ∧
      (∀ t q, q ∈ (purgeLoop n w st).waitingFor t ↔
        q ∈ st.waitingFor t ∧ ((purgeLoop n w st).node? q).isSome) ∧
      (purgeLoop n w st).groups = st.groups := by
  induction n generalizing w st with
  | zero =>
    obtain rfl : w = [] := List.eq_nil_of_length_eq_zero (by omega)
    exact ⟨h, fun _ _ => rfl,
      fun t q => ⟨fun hq => ⟨hq, isSome_of_pendingAt (h.waiting t q hq)⟩, And.left⟩, rfl⟩
  | succ n ih =>
    cases w with
    | nil =>
      exact ⟨h, fun _ _ => rfl,
        fun t q => ⟨fun hq => ⟨hq, isSome_of_pendingAt (h.waiting t q hq)⟩, And.left⟩, rfl⟩
    | cons d w =>
      -- Each round takes one path out of the index, which pays for the children that it stacks.
      have hsize := indexSize_removeExact st d
      rw [List.length_cons] at hn
      obtain ⟨h1, h2, h3, h4⟩ := ih h.step (by rw [List.length_append]; omega)
      refine ⟨h1, fun q hq => ?_, fun t q => ?_, ?_⟩
      · have hqd : q ≠ d := by
          rintro rfl
          exact hq (h.below q (by simp))
        rw [purgeLoop, h2 q hq, node?_removeExact, if_neg hqd]
      · rw [purgeLoop, h3 t q, mem_waitingFor_removeExact h.waiting]
        refine ⟨fun hq => ⟨hq.1.1, hq.2⟩, fun hq => ⟨⟨hq.1, ?_⟩, hq.2⟩⟩
        rintro rfl
        have hnone := h1.node?_eq_none q (h.below q (by simp))
        rw [hnone] at hq
        exact absurd hq.2 (by simp)
      · rw [purgeLoop, h4, groups_removeExact]

end Reduction

end Palimpsest
