import Mathlib.Data.List.Basic

/-!
# Histories of states

A log of entries, each of which says what state it leaves. A log grows at its end, and what the
state was after some of its entries stays as it was (`Palimpsest.History.stateAt_of_isPrefix`). If
every entry stands in a relation to the state before it, what the relation keeps is kept between
any two moments (`Palimpsest.History.Chain.rel`), and what comes to hold does so at an entry
(`Palimpsest.History.exists_crossing`).
-/

namespace Palimpsest.History

variable {σ α : Type} {start : σ} {state : α → σ} {log more : List α} {k m n : ℕ} {a : α}

/-- The state after some entries. -/
def stateAt (start : σ) (state : α → σ) (log : List α) (k : ℕ) : σ :=
  ((log.take k).getLast?).elim start state

@[simp]
theorem stateAt_zero : stateAt start state log 0 = start := rfl

theorem stateAt_succ (h : log[k]? = some a) : stateAt start state log (k + 1) = state a := by
  rw [stateAt, List.take_add_one, h, Option.toList_some, List.getLast?_concat, Option.elim_some]

/-- A log that grows keeps what it says of the past. -/
theorem stateAt_append (hk : k ≤ log.length) :
    stateAt start state (log ++ more) k = stateAt start state log k := by
  rw [stateAt, stateAt, List.take_append_of_le_length hk]

theorem stateAt_of_isPrefix {log' : List α} (h : log <+: log') (hk : k ≤ log.length) :
    stateAt start state log' k = stateAt start state log k := by
  obtain ⟨more, rfl⟩ := h
  exact stateAt_append hk

theorem stateAt_concat :
    stateAt start state (log ++ [a]) (log ++ [a]).length = state a := by
  rw [List.length_append, List.length_singleton]
  exact stateAt_succ List.getElem?_concat_length

/-! ### Entries that stand in a relation to the state before them -/

/-- Every entry stands in the relation to the state before it. -/
def Chain (start : σ) (state : α → σ) (R : α → σ → σ → Prop) (log : List α) : Prop :=
  ∀ k a, log[k]? = some a → R a (stateAt start state log k) (state a)

variable {R : α → σ → σ → Prop}

theorem chain_nil : Chain start state R [] := by
  intro k a h
  cases h

theorem Chain.concat (h : Chain start state R log)
    (ha : R a (stateAt start state log log.length) (state a)) :
    Chain start state R (log ++ [a]) := by
  intro k b hb
  rcases Nat.lt_or_ge k log.length with hk | hk
  · rw [List.getElem?_append_left hk] at hb
    rw [stateAt_append (Nat.le_of_lt hk)]
    exact h k b hb
  · rw [List.getElem?_append_right hk, List.getElem?_singleton] at hb
    split at hb
    · next hzero =>
      obtain rfl := Option.some.inj hb
      obtain rfl : k = log.length := by omega
      rw [stateAt_append (Nat.le_refl _)]
      exact ha
    · cases hb

/-- The relation holds between the states before and after an entry. -/
theorem Chain.step (h : Chain start state R log) (hk : k < log.length) :
    ∃ a, log[k]? = some a ∧
      R a (stateAt start state log k) (stateAt start state log (k + 1)) := by
  refine ⟨log[k], List.getElem?_eq_getElem hk, ?_⟩
  rw [stateAt_succ (List.getElem?_eq_getElem hk)]
  exact h k _ (List.getElem?_eq_getElem hk)

/-- **What every entry keeps is kept between two moments.** -/
theorem Chain.rel {S : σ → σ → Prop} (h : Chain start state R log) (hrefl : ∀ s, S s s)
    (htrans : ∀ s t u, S s t → S t u → S s u) (hRS : ∀ a s s', R a s s' → S s s') (hmn : m ≤ n)
    (hn : n ≤ log.length) : S (stateAt start state log m) (stateAt start state log n) := by
  induction hmn with
  | refl => exact hrefl _
  | step _ ih =>
    obtain ⟨a, -, ha⟩ := h.step hn
    exact htrans _ _ _ (ih (by omega)) (hRS a _ _ ha)

/-- **What the first state has and every entry keeps is had at every moment.** -/
theorem Chain.all {P : σ → Prop} (h : Chain start state R log) (hstart : P start)
    (hP : ∀ a s s', R a s s' → P s → P s') (hk : k ≤ log.length) :
    P (stateAt start state log k) := by
  induction k with
  | zero => exact hstart
  | succ k ih =>
    obtain ⟨a, -, ha⟩ := h.step hk
    exact hP a _ _ ha (ih (by omega))

/-- What comes to hold does so from one moment to the next. -/
theorem exists_crossing {P : ℕ → Prop} (hmn : m ≤ n) (hm : ¬P m) (hn : P n) :
    ∃ k, m ≤ k ∧ k < n ∧ ¬P k ∧ P (k + 1) := by
  induction hmn with
  | refl => exact absurd hn hm
  | @step n hle ih =>
    by_cases h : P n
    · obtain ⟨k, hmk, hkn, hk⟩ := ih h
      exact ⟨k, hmk, by omega, hk⟩
    · exact ⟨n, hle, Nat.lt_succ_self n, h, hn⟩

end Palimpsest.History
