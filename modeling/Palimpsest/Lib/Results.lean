import Mathlib.Logic.Basic

/-!
# Programs that return, fail or do not end

A function that may fail is a chain of steps in `Except`, and a result of the chain is a
result of each step (`Results.bind_eq_ok`). When one of the errors stands for a program that
runs forever, `Results.Avoids` says that a program does not end in it: the chain avoids an
error that all of its steps avoid.
-/

namespace Results

variable {ε α β : Type} {x : Except ε α} {f : α → Except ε β} {bad : ε}

/-- A chain returns what its second step returns for the result of the first one. -/
theorem bind_eq_ok {b : β} : (x >>= f) = .ok b ↔ ∃ a, x = .ok a ∧ f a = .ok b := by
  cases x with
  | error e => exact ⟨fun h => (nomatch h), fun ⟨_, h, _⟩ => nomatch h⟩
  | ok a => exact ⟨fun h => ⟨a, rfl, h⟩, fun ⟨_, h, h'⟩ => by cases h; exact h'⟩

/-- What follows a check that refuses. -/
theorem guard_eq_ok {p : Prop} [Decidable p] {e : ε} {a : α} :
    (if p then .error e else x) = .ok a ↔ ¬p ∧ x = .ok a := by
  by_cases hp : p
  · rw [if_pos hp]
    exact iff_of_false nofun fun h => h.1 hp
  · rw [if_neg hp]
    exact ⟨fun h => ⟨hp, h⟩, And.right⟩

/-- The program does not end in the error. -/
def Avoids (bad : ε) (x : Except ε α) : Prop := x ≠ .error bad

theorem avoids_ok (a : α) : Avoids bad (.ok a : Except ε α) := nofun

theorem avoids_error {e : ε} (h : e ≠ bad) : Avoids bad (.error e : Except ε α) :=
  fun heq => h (Except.error.inj heq)

theorem Avoids.bind (h : Avoids bad x) (hf : ∀ a, x = .ok a → Avoids bad (f a)) :
    Avoids bad (x >>= f) := by
  cases x with
  | error e => exact avoids_error fun heq => h (congrArg Except.error heq)
  | ok a => exact hf a rfl

theorem Avoids.ite {p : Prop} [Decidable p] {y : Except ε α} (hx : p → Avoids bad x)
    (hy : ¬p → Avoids bad y) : Avoids bad (if p then x else y) := by
  by_cases hp : p
  · rw [if_pos hp]
    exact hx hp
  · rw [if_neg hp]
    exact hy hp

end Results
