import Mathlib.Data.List.Induction

/-!
# Since

The past-time operator *since*, on a list of events in the order in which they
happened: `Since P Q l` says that some event was a `P`, and no event after it was a
`Q`. What happens to it when one more event happens is `since_concat`, which is all
that an induction along a run needs; `since_self_iff` says that the last `P` is a
`P` with no `P` since.
-/

variable {α : Type*} {P Q R : α → Prop} {l : List α} {a : α}

/-- Some event was a `P`, and no event after it was a `Q`. -/
def Since (P Q : α → Prop) (l : List α) : Prop :=
  ∃ before a after, l = before ++ a :: after ∧ P a ∧ ∀ b ∈ after, ¬Q b

/-- Two events of one list are the same one, or one is later than the other. -/
theorem events_compare {b : α} {before after before' after' : List α}
    (h : before ++ a :: after = before' ++ b :: after') :
    a = b ∧ after = after' ∨ b ∈ after ∨ a ∈ after' := by
  rcases List.append_eq_append_iff.mp h with ⟨l, -, hr⟩ | ⟨l, -, hr⟩
  · cases l with
    | nil => exact Or.inl (List.cons.inj hr)
    | cons x l =>
      obtain ⟨rfl, rfl⟩ := List.cons.inj hr
      exact Or.inr (Or.inl (List.mem_append_right _ List.mem_cons_self))
  · cases l with
    | nil => exact Or.inl ((List.cons.inj hr).imp Eq.symm Eq.symm)
    | cons x l =>
      obtain ⟨rfl, rfl⟩ := List.cons.inj hr
      exact Or.inr (Or.inr (List.mem_append_right _ List.mem_cons_self))

theorem not_since_nil : ¬Since P Q [] := by
  rintro ⟨before, a, after, h, -⟩
  simp at h

/-- **Since, after one more event.** -/
theorem since_concat : Since P Q (l ++ [a]) ↔ P a ∨ Since P Q l ∧ ¬Q a := by
  constructor
  · rintro ⟨before, b, after, h, hb, hafter⟩
    rcases List.eq_nil_or_concat after with rfl | ⟨after, c, rfl⟩
    · obtain ⟨-, hab⟩ := List.append_inj' h rfl
      obtain rfl : a = b := by simpa using hab
      exact Or.inl hb
    · rw [List.concat_eq_append] at h hafter
      rw [← List.cons_append, ← List.append_assoc] at h
      obtain ⟨hl, hac⟩ := List.append_inj' h rfl
      obtain rfl : a = c := by simpa using hac
      refine Or.inr ⟨⟨before, b, after, hl, hb, fun d hd => ?_⟩, ?_⟩
      · exact hafter d (List.mem_append_left _ hd)
      · exact hafter a (List.mem_append_right _ (List.mem_singleton_self a))
  · rintro (ha | ⟨⟨before, b, after, rfl, hb, hafter⟩, ha⟩)
    · exact ⟨l, a, [], rfl, ha, fun b hb => absurd hb List.not_mem_nil⟩
    · refine ⟨before, b, after ++ [a], by rw [List.append_assoc]; rfl, hb, fun c hc => ?_⟩
      rcases List.mem_append.mp hc with hc | hc
      · exact hafter c hc
      · rw [List.mem_singleton.mp hc]
        exact ha

/-- There is a last event of every kind that there is. -/
theorem since_self_iff : Since P P l ↔ ∃ a ∈ l, P a := by
  induction l using List.reverseRecOn with
  | nil => simp [not_since_nil]
  | append_singleton l a ih =>
    rw [since_concat, ih]
    by_cases ha : P a
    · simp [ha]
    · simp [ha]

theorem Since.exists_mem (h : Since P Q l) : ∃ a ∈ l, P a := by
  obtain ⟨before, a, after, rfl, ha, -⟩ := h
  exact ⟨a, List.mem_append_right _ List.mem_cons_self, ha⟩
