import Mathlib.Data.List.Basic

/-!
# What holds throughout a record

A record is a list that grows at its end. `Palimpsest.Throughout` says that every entry stands
in a relation to what was recorded before it, which is how a statement about every moment of a
run is read off the record of the run. The one rule is `Palimpsest.throughout_concat`: a
record grows by an entry that stands in the relation.
-/

namespace Palimpsest

variable {α : Type*} {P Q : List α → α → Prop} {l : List α}

/-- Every entry stands in the relation `P` to the part of the record before it. -/
def Throughout (P : List α → α → Prop) (l : List α) : Prop :=
  ∀ before a after, l = before ++ a :: after → P before a

theorem throughout_nil : Throughout P [] := fun before a after h => by simp at h

/-- **A record grows by one entry.** -/
theorem throughout_concat {a : α} : Throughout P (l ++ [a]) ↔ Throughout P l ∧ P l a := by
  constructor
  · intro h
    refine ⟨fun before b after heq => h before b (after ++ [a]) ?_, h l a [] rfl⟩
    rw [heq, List.append_assoc, List.cons_append]
  · rintro ⟨h, ha⟩ before b after heq
    rcases List.eq_nil_or_concat after with rfl | ⟨after, c, rfl⟩
    · obtain ⟨rfl, hab⟩ := List.append_inj' heq rfl
      obtain rfl := List.singleton_inj.mp hab
      exact ha
    · rw [List.concat_eq_append, ← List.cons_append, ← List.append_assoc] at heq
      exact h before b after (List.append_inj' heq rfl).1

theorem Throughout.imp (h : Throughout P l) (hPQ : ∀ before a, P before a → Q before a) :
    Throughout Q l :=
  fun before a after heq => hPQ before a (h before a after heq)

end Palimpsest
