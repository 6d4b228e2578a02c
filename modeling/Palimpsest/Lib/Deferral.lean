import Mathlib.Data.List.MinMax
import Mathlib.Data.List.Perm.Basic

/-!
# Deferral loops

A loop that goes over a list again and again. In each pass it emits the items that
are ready, given what was emitted before, and defers the others to the next pass;
it stops when nothing is left, and gives up when a pass emits nothing.

The loop emits its items in an order in which each was ready when its turn came
(`Deferral.ready_of_loop`). It does not give up when the items can be ranked in such
a way that each is ready as soon as the lower ones are out
(`Deferral.loop_isOk`). Items that are always ready keep their place before
whatever followed them (`Deferral.sublist_of_loop`).
-/

namespace Deferral

variable {α : Type*} (ready : List α → α → Bool)

/-- One pass: what was emitted by its end, and what is deferred. -/
def pass : List α → List α → List α × List α
  | emitted, [] => (emitted, [])
  | emitted, a :: todo =>
    if ready emitted a then pass (emitted ++ [a]) todo
    else ((pass emitted todo).1, a :: (pass emitted todo).2)

/-- How a loop can fail to emit everything. -/
inductive Stop
  /-- A pass has emitted nothing. -/
  | stuck
  /-- The fuel has run out. -/
  | fuel
  deriving DecidableEq

/-- The loop, on fuel. -/
def loop : ℕ → List α → List α → Except Stop (List α)
  | _, emitted, [] => .ok emitted
  | 0, _, _ :: _ => .error .fuel
  | n + 1, emitted, a :: todo =>
    if (pass ready emitted (a :: todo)).2.length = (a :: todo).length then .error .stuck
    else loop n (pass ready emitted (a :: todo)).1 (pass ready emitted (a :: todo)).2

variable {ready} {emitted todo out : List α} {a b : α} {n : ℕ}

/-! ### One pass -/

theorem pass_deferred_sublist (ready : List α → α → Bool) (emitted todo : List α) :
    ((pass ready emitted todo).2).Sublist todo := by
  induction todo generalizing emitted with
  | nil => exact List.Sublist.refl _
  | cons a todo ih =>
    rw [pass]
    split
    · exact (ih _).cons a
    · exact (ih _).cons_cons a

/-- A pass appends to what was emitted, and loses nothing. -/
theorem pass_spec (ready : List α → α → Bool) (emitted todo : List α) :
    ∃ new, (pass ready emitted todo).1 = emitted ++ new ∧
      (new ++ (pass ready emitted todo).2).Perm todo := by
  induction todo generalizing emitted with
  | nil => exact ⟨[], (List.append_nil _).symm, List.Perm.refl _⟩
  | cons a todo ih =>
    rw [pass]
    split
    · obtain ⟨new, hnew, hperm⟩ := ih (emitted ++ [a])
      exact ⟨a :: new, by rw [hnew, List.append_assoc]; rfl, hperm.cons a⟩
    · obtain ⟨new, hnew, hperm⟩ := ih emitted
      exact ⟨new, hnew, List.perm_middle.trans (hperm.cons a)⟩

/-- What is ready all along is emitted. -/
theorem not_mem_deferred (ha : ∀ l, emitted ⊆ l → ready l a = true) :
    a ∉ (pass ready emitted todo).2 := by
  induction todo generalizing emitted with
  | nil => exact List.not_mem_nil
  | cons b todo ih =>
    rw [pass]
    split
    · exact ih fun l hl => ha l fun x hx => hl (List.mem_append_left _ hx)
    · rename_i hb
      rw [List.mem_cons]
      rintro (rfl | hmem)
      · exact hb (ha emitted fun _ hx => hx)
      · exact ih ha hmem

/-- Whatever a list holds was ready, given what stands before it. -/
def AllReady (ready : List α → α → Bool) (l : List α) : Prop :=
  ∀ l₁ a l₂, l = l₁ ++ a :: l₂ → ready l₁ a = true

theorem allReady_nil : AllReady ready [] := fun l₁ a l₂ h => by simp at h

theorem AllReady.concat (h : AllReady ready emitted) (ha : ready emitted a = true) :
    AllReady ready (emitted ++ [a]) := by
  intro l₁ b l₂ heq
  rcases List.eq_nil_or_concat l₂ with rfl | ⟨l₂, c, rfl⟩
  · obtain ⟨rfl, hab⟩ := List.append_inj' heq rfl
    simp only [List.cons.injEq, and_true] at hab
    rw [← hab]
    exact ha
  · rw [List.concat_eq_append, ← List.cons_append, ← List.append_assoc] at heq
    obtain ⟨heq, -⟩ := List.append_inj' heq rfl
    exact h l₁ b l₂ heq

theorem AllReady.pass (h : AllReady ready emitted) (todo : List α) :
    AllReady ready (pass ready emitted todo).1 := by
  induction todo generalizing emitted with
  | nil => exact h
  | cons a todo ih =>
    rw [Deferral.pass]
    split
    · rename_i ha
      exact ih (h.concat ha)
    · exact ih h

/-- What is always ready comes out before whatever followed it. -/
theorem pass_sublist (ha : ∀ l, ready l a = true) (hab : [a, b].Sublist todo)
    (emitted : List α) :
    ∃ new, (pass ready emitted todo).1 = emitted ++ new ∧
      ([a, b].Sublist new ∨ a ∈ new ∧ b ∈ (pass ready emitted todo).2) := by
  induction todo generalizing emitted with
  | nil => cases hab
  | cons c todo ih =>
    rw [pass]
    cases hab with
    | cons _ hab =>
      split
      · obtain ⟨new, hnew, hcase⟩ := ih hab (emitted ++ [c])
        refine ⟨c :: new, by rw [hnew, List.append_assoc]; rfl, ?_⟩
        exact hcase.imp (fun hs => hs.cons c) fun hm => ⟨List.mem_cons_of_mem c hm.1, hm.2⟩
      · obtain ⟨new, hnew, hcase⟩ := ih hab emitted
        exact ⟨new, hnew, hcase.imp_right fun hm => ⟨hm.1, List.mem_cons_of_mem c hm.2⟩⟩
    | cons_cons _ hb =>
      rw [if_pos (ha emitted)]
      obtain ⟨new, hnew, hperm⟩ := pass_spec ready (emitted ++ [a]) todo
      refine ⟨a :: new, by rw [hnew, List.append_assoc]; rfl, ?_⟩
      have hmem : b ∈ new ++ (pass ready (emitted ++ [a]) todo).2 :=
        hperm.mem_iff.mpr (List.singleton_sublist.mp hb)
      rcases List.mem_append.mp hmem with hbn | hbd
      · exact Or.inl ((List.singleton_sublist.mpr hbn).cons_cons a)
      · exact Or.inr ⟨List.mem_cons_self, hbd⟩

/-! ### The loop -/

/-- The loop appends to what was emitted, and loses nothing. -/
theorem loop_spec (h : loop ready n emitted todo = .ok out) :
    ∃ new, out = emitted ++ new ∧ new.Perm todo := by
  induction n generalizing emitted todo with
  | zero =>
    cases todo with
    | nil => exact ⟨[], by simpa [loop] using h.symm, List.Perm.refl _⟩
    | cons a todo => simp [loop] at h
  | succ n ih =>
    cases todo with
    | nil => exact ⟨[], by simpa [loop] using h.symm, List.Perm.refl _⟩
    | cons a todo =>
      rw [loop] at h
      split at h
      · cases h
      · obtain ⟨new, hnew, hperm⟩ := pass_spec ready emitted (a :: todo)
        obtain ⟨rest, hrest, hperm'⟩ := ih h
        refine ⟨new ++ rest, by rw [hrest, hnew, List.append_assoc], ?_⟩
        exact (hperm'.append_left new).trans hperm

/-- **Everything was ready when its turn came.** -/
theorem ready_of_loop (hready : AllReady ready emitted)
    (h : loop ready n emitted todo = .ok out) : AllReady ready out := by
  induction n generalizing emitted todo with
  | zero =>
    cases todo with
    | nil =>
      obtain rfl : emitted = out := by simpa [loop] using h
      exact hready
    | cons a todo => simp [loop] at h
  | succ n ih =>
    cases todo with
    | nil =>
      obtain rfl : emitted = out := by simpa [loop] using h
      exact hready
    | cons a todo =>
      rw [loop] at h
      split at h
      · cases h
      · exact ih (hready.pass _) h

/-- **What is always ready keeps its place** before whatever followed it. -/
theorem sublist_of_loop (ha : ∀ l, ready l a = true) (hab : [a, b].Sublist todo)
    (h : loop ready n emitted todo = .ok out) : [a, b].Sublist out := by
  cases n with
  | zero =>
    cases todo with
    | nil => cases hab
    | cons c todo => simp [loop] at h
  | succ n =>
    cases todo with
    | nil => cases hab
    | cons c todo =>
      rw [loop] at h
      split at h
      · cases h
      · obtain ⟨new, hnew, hcase⟩ := pass_sublist ha hab emitted
        obtain ⟨rest, hrest, hperm⟩ := loop_spec h
        rw [hrest, hnew, List.append_assoc]
        refine List.Sublist.trans ?_ (List.sublist_append_right _ _)
        rcases hcase with hnew | ⟨han, hbd⟩
        · exact hnew.trans (List.sublist_append_left _ _)
        · have hb : b ∈ rest := hperm.mem_iff.mpr hbd
          exact (List.singleton_sublist.mpr han).append (List.singleton_sublist.mpr hb)

/-- **The loop does not give up** when the items can be ranked so that each is ready
once the lower ones are out. The item of least rank among those left is emitted in
the next pass, so every pass makes progress. -/
theorem loop_isOk (rank : α → ℕ) {items : List α}
    (hrank : ∀ a ∈ items, ∀ l, (∀ b ∈ items, rank b < rank a → b ∈ l) → ready l a = true)
    (hperm : (emitted ++ todo).Perm items) (hn : todo.length ≤ n) :
    ∃ out, loop ready n emitted todo = .ok out := by
  induction n generalizing emitted todo with
  | zero =>
    obtain rfl : todo = [] := List.length_eq_zero_iff.mp (by omega)
    exact ⟨emitted, rfl⟩
  | succ n ih =>
    cases todo with
    | nil => exact ⟨emitted, rfl⟩
    | cons c todo =>
      obtain ⟨new, hnew, hp⟩ := pass_spec ready emitted (c :: todo)
      have hlt : (pass ready emitted (c :: todo)).2.length < (c :: todo).length := by
        -- All that the item of least rank waits for is out, so it is emitted in this pass.
        obtain ⟨a, hmin⟩ : ∃ a, a ∈ (c :: todo).argmin rank :=
          Option.ne_none_iff_exists'.mp fun h => List.cons_ne_nil c todo (List.argmin_eq_none.mp h)
        have ha : a ∈ c :: todo := List.argmin_mem hmin
        have hnot : a ∉ (pass ready emitted (c :: todo)).2 := by
          refine not_mem_deferred fun l hl => hrank a ?_ l fun b hb hba => ?_
          · exact hperm.mem_iff.mp (List.mem_append_right _ ha)
          · rcases List.mem_append.mp (hperm.mem_iff.mpr hb) with hb | hb
            · exact hl hb
            · exact absurd (List.le_of_mem_argmin hb hmin) (Nat.not_le.mpr hba)
        have hsub := pass_deferred_sublist ready emitted (c :: todo)
        refine Nat.lt_of_le_of_ne hsub.length_le fun hlen => hnot ?_
        rw [hsub.eq_of_length hlen]
        exact ha
      rw [loop, if_neg (Nat.ne_of_lt hlt)]
      refine ih ?_ (by simp only [List.length_cons] at hlt hn ⊢; omega)
      rw [hnew, List.append_assoc]
      exact (hp.append_left emitted).trans hperm

end Deferral
