import Mathlib.Data.List.Sort
import Mathlib.Data.List.Dedup

/-!
# Lists in canonical order

A list stands for the set of its elements if the keys of its elements ascend
(`Canonical.IsCanonical`). Every list has a canonical form with the same elements
(`Canonical.canonical`), which is the list itself if it is canonical already, and there is only
one canonical list for a set (`Canonical.eq_of_mem_iff`).
-/

namespace Canonical

variable {α κ : Type} [DecidableEq α] [LinearOrder κ] {key : α → κ} {l l' : List α}

/-- The elements in the order of their keys, each of them once. -/
def canonical (key : α → κ) (l : List α) : List α :=
  l.dedup.insertionSort fun a b => key a ≤ key b

omit [DecidableEq α] in
/-- The keys ascend. -/
def IsCanonical (key : α → κ) (l : List α) : Prop := l.Pairwise fun a b => key a < key b

@[simp]
theorem mem_canonical {a : α} : a ∈ canonical key l ↔ a ∈ l := by
  rw [canonical, List.mem_insertionSort, List.mem_dedup]

@[simp]
theorem canonical_eq_nil : canonical key l = [] ↔ l = [] := by
  simp only [List.eq_nil_iff_forall_not_mem, mem_canonical]

theorem isCanonical_canonical (hkey : Function.Injective key) (l : List α) :
    IsCanonical key (canonical key l) := by
  have htotal : Std.Total fun a b : α => key a ≤ key b := ⟨fun a b => le_total (key a) (key b)⟩
  have htrans : IsTrans α fun a b => key a ≤ key b := ⟨fun _ _ _ => le_trans⟩
  have hsorted := List.pairwise_insertionSort (fun a b : α => key a ≤ key b) l.dedup
  have hnodup : (canonical key l).Nodup :=
    (List.perm_insertionSort _ _).nodup_iff.mpr (List.nodup_dedup l)
  refine (hsorted.and hnodup).imp fun h => ?_
  exact lt_of_le_of_ne h.1 fun heq => h.2 (hkey heq)

omit [DecidableEq α] in
theorem IsCanonical.nodup (h : IsCanonical key l) : l.Nodup :=
  h.imp fun hlt heq => (heq ▸ hlt).ne rfl

/-- **A canonical list is its own canonical form.** -/
theorem IsCanonical.canonical_eq (h : IsCanonical key l) : canonical key l = l := by
  rw [canonical, h.nodup.dedup]
  exact List.Pairwise.insertionSort_eq (h.imp le_of_lt)

omit [DecidableEq α] in
/-- **A set has one canonical list.** -/
theorem eq_of_mem_iff (h : IsCanonical key l) (h' : IsCanonical key l')
    (hmem : ∀ a, a ∈ l ↔ a ∈ l') : l = l' := by
  have hperm : l.Perm l' := (List.perm_ext_iff_of_nodup h.nodup h'.nodup).mpr hmem
  exact hperm.eq_of_pairwise (fun a b _ _ hab hba => (lt_asymm hab hba).elim) h h'

end Canonical
