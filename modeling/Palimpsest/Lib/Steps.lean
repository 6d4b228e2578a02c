import Mathlib.Data.List.Basic

/-!
# Programs killed between two steps

A program is a list of steps, each of which goes on to a new state or raises. Killed after
some of them, it leaves the state those have reached. `Palimpsest.Runs` says of a program
what every state it can be killed in is like, and what it reaches when it is not; the rules
put programs together from their steps.
-/

namespace Palimpsest

variable {σ ε : Type}

/-- Run the steps one after the other; a step that raises ends the run in the state before
it. -/
def exec : List (σ → Except ε σ) → σ → σ × Option ε
  | [], s => (s, none)
  | f :: l, s =>
    match f s with
    | .ok s' => exec l s'
    | .error e => (s, some e)

/-- The state a program leaves that is killed after `k` of its steps. -/
def killed (l : List (σ → Except ε σ)) (k : ℕ) (s : σ) : σ := (exec (l.take k) s).1

variable {l m : List (σ → Except ε σ)} {f : σ → Except ε σ} {s t : σ} {e : ε}
  {P Q R : σ → Prop}

theorem exec_cons_ok (h : f s = .ok t) : exec (f :: l) s = exec l t := by
  rw [exec, h]

theorem exec_cons_error (h : f s = .error e) : exec (f :: l) s = (s, some e) := by
  rw [exec, h]

theorem exec_append (h : exec l s = (t, none)) : exec (l ++ m) s = exec m t := by
  induction l generalizing s with
  | nil =>
    obtain ⟨rfl, -⟩ := Prod.mk.inj h
    rfl
  | cons f l ih =>
    rw [exec] at h
    rw [List.cons_append, exec]
    split
    · next s' hs =>
      rw [hs] at h
      exact ih h
    · next e hs =>
      rw [hs] at h
      cases (Prod.mk.inj h).2

theorem exec_append_error (h : exec l s = (t, some e)) : exec (l ++ m) s = (t, some e) := by
  induction l generalizing s with
  | nil => cases (Prod.mk.inj h).2
  | cons f l ih =>
    rw [exec] at h
    rw [List.cons_append, exec]
    split
    · next s' hs =>
      rw [hs] at h
      exact ih h
    · next e hs =>
      rw [hs] at h
      exact h

@[simp]
theorem killed_zero (l : List (σ → Except ε σ)) (s : σ) : killed l 0 s = s := rfl

theorem killed_of_length_le {k : ℕ} (h : l.length ≤ k) : killed l k s = (exec l s).1 := by
  rw [killed, List.take_of_length_le h]

/-- Killed within a first part, or after it within the rest. -/
theorem killed_append_of_le {k : ℕ} (h : k ≤ l.length) : killed (l ++ m) k s = killed l k s := by
  rw [killed, killed, List.take_append_of_le_length h]

theorem killed_append (h : exec l s = (t, none)) (k : ℕ) :
    killed (l ++ m) (l.length + k) s = killed m k t := by
  rw [killed, killed, List.take_length_add_append, exec_append h]

theorem killed_append_error (h : exec l s = (t, some e)) {k : ℕ} (hk : l.length ≤ k) :
    killed (l ++ m) k s = t := by
  rw [killed, List.take_append, List.take_of_length_le hk, exec_append_error h]

/-- **Every state in which a program can be killed has the property `P`**, and if it comes to
its end it does so in a state that has `Q`. -/
structure Runs (l : List (σ → Except ε σ)) (s : σ) (P Q : σ → Prop) : Prop where
  killed : ∀ k, P (killed l k s)
  done : ∀ t, exec l s = (t, none) → Q t

theorem Runs.nil (hP : P s) (hQ : Q s) : Runs ([] : List (σ → Except ε σ)) s P Q := by
  refine ⟨fun k => by rwa [Palimpsest.killed, List.take_nil], fun t ht => ?_⟩
  obtain ⟨rfl, -⟩ := Prod.mk.inj ht
  exact hQ

theorem Runs.cons (hP : P s) (h : ∀ t, f s = .ok t → Runs l t P Q) : Runs (f :: l) s P Q := by
  cases hf : f s with
  | ok t =>
    refine ⟨fun k => ?_, fun r hr => ?_⟩
    · cases k with
      | zero => exact hP
      | succ k =>
        rw [Palimpsest.killed, List.take_succ_cons, exec_cons_ok hf]
        exact (h t hf).killed k
    · rw [exec_cons_ok hf] at hr
      exact (h t hf).done r hr
  | error e =>
    refine ⟨fun k => ?_, fun r hr => ?_⟩
    · cases k with
      | zero => exact hP
      | succ k =>
        rw [Palimpsest.killed, List.take_succ_cons, exec_cons_error hf]
        exact hP
    · rw [exec_cons_error hf] at hr
      cases (Prod.mk.inj hr).2

theorem Runs.append (h : Runs l s P R) (h' : ∀ t, R t → Runs m t P Q) : Runs (l ++ m) s P Q := by
  cases hl : exec l s with
  | mk t o =>
    cases o with
    | none =>
      have hm := h' t (h.done t hl)
      refine ⟨fun k => ?_, fun r hr => ?_⟩
      · rcases Nat.lt_or_ge l.length k with hk | hk
        · obtain ⟨k, rfl⟩ := Nat.exists_eq_add_of_le (Nat.le_of_lt hk)
          rw [killed_append hl]
          exact hm.killed k
        · rw [killed_append_of_le hk]
          exact h.killed k
      · rw [exec_append hl] at hr
        exact hm.done r hr
    | some e =>
      refine ⟨fun k => ?_, fun r hr => ?_⟩
      · rcases Nat.lt_or_ge l.length k with hk | hk
        · -- the run is over before the second part
          have hfirst := h.killed l.length
          rw [killed_of_length_le (Nat.le_refl _), hl] at hfirst
          rw [killed_append_error hl (Nat.le_of_lt hk)]
          exact hfirst
        · rw [killed_append_of_le hk]
          exact h.killed k
      · rw [exec_append_error hl] at hr
        cases (Prod.mk.inj hr).2

theorem Runs.imp {P' Q' : σ → Prop} (h : Runs l s P Q) (hP : ∀ t, P t → P' t)
    (hQ : ∀ t, Q t → Q' t) : Runs l s P' Q' :=
  ⟨fun k => hP _ (h.killed k), fun t ht => hQ t (h.done t ht)⟩

/-- The program raises nothing. -/
def Completes (l : List (σ → Except ε σ)) (s : σ) : Prop := ∃ t, exec l s = (t, none)

theorem completes_nil (s : σ) : Completes ([] : List (σ → Except ε σ)) s := ⟨s, rfl⟩

theorem Completes.cons (hf : f s = .ok t) (h : Completes l t) : Completes (f :: l) s := by
  rw [Completes, exec_cons_ok hf]
  exact h

theorem completes_cons_iff : Completes (f :: l) s ↔ ∃ t, f s = .ok t ∧ Completes l t := by
  constructor
  · rintro ⟨r, hr⟩
    cases hf : f s with
    | ok t =>
      rw [exec_cons_ok hf] at hr
      exact ⟨t, rfl, r, hr⟩
    | error e =>
      rw [exec_cons_error hf] at hr
      cases (Prod.mk.inj hr).2
  · rintro ⟨t, hf, h⟩
    exact h.cons hf

theorem completes_append_iff :
    Completes (l ++ m) s ↔ ∃ t, exec l s = (t, none) ∧ Completes m t := by
  cases hl : exec l s with
  | mk t o =>
    cases o with
    | none =>
      rw [Completes, exec_append hl]
      exact ⟨fun h => ⟨t, rfl, h⟩, fun ⟨_, ht, h⟩ => (Prod.mk.inj ht).1 ▸ h⟩
    | some e =>
      rw [Completes, exec_append_error hl]
      refine iff_of_false (fun h => ?_) fun h => ?_
      · obtain ⟨_, h⟩ := h
        cases (Prod.mk.inj h).2
      · obtain ⟨_, h, -⟩ := h
        cases (Prod.mk.inj h).2

theorem Completes.append (h : Completes l s) (h' : ∀ t, exec l s = (t, none) → Completes m t) :
    Completes (l ++ m) s := by
  obtain ⟨t, ht⟩ := h
  rw [Completes, exec_append ht]
  exact h' t ht

end Palimpsest
