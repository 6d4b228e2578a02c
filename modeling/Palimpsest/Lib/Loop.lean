import Palimpsest.Lib.Calls

/-!
# Programs that run again and again

A program with calls that ends with what it is to run on next, or with a last result
(`Calls.Loop`). Its surroundings answer the calls, and change between any two of them.

What holds in every state of a run is proved for one round. A `Calls.Loop.Rule` names an
invariant of the surroundings and what the program relies on while they change; the invariant
holds after every sequence of events (`Calls.Loop.Rule.inv_run`).
-/

namespace Calls

/-- What happens next: a call is answered, or the surroundings change. -/
inductive LoopEvent (O D : Type)
  | next (o : O)
  | drift (d : D)
  deriving DecidableEq

/-- Surroundings, and the rest of a round. -/
structure Loop (C : Type) (A : C → Type) (W R T : Type) where
  world : W
  control : Program C A (R ⊕ T)

namespace Loop

variable {C O D W R T : Type} {A : C → Type}

section

variable (answer : O → (c : C) → W → Option (A c) × W) (drift : D → W → W)
  (round : R → Program C A (R ⊕ T))

/-- One event. What cannot happen changes nothing. -/
def step (s : Loop C A W R T) : LoopEvent O D → Loop C A W R T
  | .drift d => ⟨drift d s.world, s.control⟩
  | .next o =>
    match s.control with
    | .call c next => ⟨(answer o c s.world).2, next (answer o c s.world).1⟩
    | .done (.inl r) => ⟨s.world, round r⟩
    | _ => s

/-- Events one after the other. -/
def run (s : Loop C A W R T) (events : List (LoopEvent O D)) : Loop C A W R T :=
  events.foldl (step answer drift round) s

end

/-- What holds of the surroundings, and what a round relies on. -/
structure Rule (answer : O → (c : C) → W → Option (A c) × W) (drift : D → W → W)
    (round : R → Program C A (R ⊕ T)) where
  inv : W → Prop
  /-- What can have become of the surroundings between two calls. -/
  rely : W → W → Prop
  /-- Where a round begins. -/
  starts : R → W → Prop
  refl : ∀ w, rely w w
  trans : ∀ w w' w'', rely w w' → rely w' w'' → rely w w''
  drift : ∀ d w, inv w → inv (drift d w) ∧ rely w (drift d w)

namespace Rule

variable {answer : O → (c : C) → W → Option (A c) × W} {drift : D → W → W}
  {round : R → Program C A (R ⊕ T)} (P : Rule answer drift round)

/-- The calls that keep the invariant. -/
def Allowed (c : C) (w : W) : Prop := ∀ o, P.inv (answer o c w).2

/-- How a call is answered, and what the surroundings are at the next one. -/
def Effect (c : C) (a : Option (A c)) (w w' : W) : Prop :=
  ∃ o, (answer o c w).1 = a ∧ P.rely (answer o c w).2 w' ∧ P.inv w'

/-- The program keeps the invariant, and returns in the states of `Q`. -/
def Keeps {α : Type} (p : Program C A α) (Q : α → W → Prop) (w : W) : Prop :=
  p.Safe P.Allowed P.Effect (fun _ => False) Q w

/-- Where a round may end. -/
def Ends : R ⊕ T → W → Prop
  | .inl r, w => P.starts r w
  | .inr _, _ => True

variable {P} {w : W} {α β : Type}

theorem keeps_pure {a : α} {Q : α → W → Prop} (h : Q a w) :
    P.Keeps (pure a : Program C A α) Q w :=
  h

theorem keeps_bind {p : Program C A α} {f : α → Program C A β} {Q : β → W → Prop}
    (h : P.Keeps p (fun a w => P.Keeps (f a) Q w) w) : P.Keeps (p >>= f) Q w :=
  Program.safe_bind h

theorem Keeps.imp {p : Program C A α} {Q Q' : α → W → Prop} (h : P.Keeps p Q w)
    (hQ : ∀ a w, Q a w → Q' a w) : P.Keeps p Q' w :=
  Program.Safe.imp h hQ

/-- A call: it keeps the invariant, and so does what follows its answer. -/
theorem keeps_call {c : C} {next : Option (A c) → Program C A α} {Q : α → W → Prop}
    (hallowed : ∀ o, P.inv (answer o c w).2)
    (h : ∀ o w', P.rely (answer o c w).2 w' → P.inv w' → P.Keeps (next (answer o c w).1) Q w') :
    P.Keeps (.call c next) Q w := by
  refine ⟨hallowed, ?_⟩
  rintro _ w' ⟨o, rfl, hrely, hinv⟩
  exact h o w' hrely hinv

variable (P) in
/-- The invariant holds, and the rest of the round keeps it, whatever becomes of the
surroundings. -/
structure Ok (s : Loop C A W R T) : Prop where
  inv : P.inv s.world
  control : ∀ w, P.rely s.world w → P.inv w → P.Keeps s.control P.Ends w

variable {s : Loop C A W R T}

/-- **Every event keeps the rule.** -/
theorem ok_step (hround : ∀ r w, P.inv w → P.starts r w → P.Keeps (round r) P.Ends w)
    (h : P.Ok s) (e : LoopEvent O D) : P.Ok (s.step answer drift round e) := by
  obtain ⟨world, control⟩ := s
  cases e with
  | drift d =>
    obtain ⟨hinv, hrely⟩ := P.drift d world h.inv
    exact ⟨hinv, fun w hw => h.control w (P.trans _ _ _ hrely hw)⟩
  | next o =>
    cases control with
    | raise => exact h
    | call c next =>
      have hcall := h.control world (P.refl world) h.inv
      exact ⟨hcall.1 o, fun w hrely hinv => hcall.2 _ w ⟨o, rfl, hrely, hinv⟩⟩
    | done result =>
      cases result with
      | inl r => exact ⟨h.inv, fun w hrely hinv => hround r w hinv (h.control w hrely hinv)⟩
      | inr t => exact h

/-- **The invariant holds after every sequence of events.** -/
theorem inv_run (hround : ∀ r w, P.inv w → P.starts r w → P.Keeps (round r) P.Ends w)
    (h : P.Ok s) (events : List (LoopEvent O D)) :
    P.inv (s.run answer drift round events).world := by
  have hok : P.Ok (s.run answer drift round events) := by
    induction events generalizing s with
    | nil => exact h
    | cons e events ih => exact ih (ok_step hround h e)
  exact hok.inv

end Rule

end Loop

end Calls
