import Mathlib.Logic.Function.Basic
import Palimpsest.Lib.Calls

/-!
# Programs that run at the same time

Several programs with calls share their surroundings (`Calls.Pool`). An event starts a program,
lets one of them make its next call, kills one, or changes the surroundings from outside. A
program that ends or is killed leaves the surroundings, where it gives back what it held.

What holds in every state of a run is proved program by program. A `Calls.Protocol` names the
invariant of the surroundings and what each program relies on, whatever the others do. A program
observes it (`Calls.Protocol.Observes`) if each of its calls keeps the invariant and does to the
others only what they rely on; the calls it makes itself are answered in a state that the others
may have changed since (`Calls.Protocol.observes_ask`). If all programs that are started
observe it, the invariant holds after every sequence of events
(`Calls.Protocol.inv_run`).
-/

namespace Calls

/-- How the surroundings `W` answer the programs `I`, with outcomes `O`, and how events `D` from
outside change them. -/
structure Surroundings (I O C : Type) (A : C → Type) (D W : Type) where
  /-- Whether a call is answered, or waits. -/
  ready : I → C → W → Bool
  /-- What a program is answered, and the surroundings after its call. -/
  answer : I → O → (c : C) → W → Option (A c) × W
  /-- What a program leaves that ends or is killed. -/
  leave : I → W → W
  /-- What happens besides. -/
  drift : D → W → W

/-- What happens next. -/
inductive Event (I O D R : Type)
  | start (i : I) (r : R)
  | next (i : I) (o : O)
  | kill (i : I)
  | drift (d : D)
  deriving DecidableEq

/-- Surroundings, and the programs that run in them. -/
structure Pool (I C : Type) (A : C → Type) (W α : Type) where
  world : W
  running : I → Option (Program C A α)

variable {I O C D W R α : Type} {A : C → Type}

namespace Pool

/-- A pool without programs. -/
def idle (w : W) : Pool I C A W α := ⟨w, fun _ => none⟩

section

variable [DecidableEq I] (S : Surroundings I O C A D W) (program : I → R → Program C A α)

/-- The program goes on, or leaves. -/
def goOn (s : Pool I C A W α) (i : I) (w : W) : Program C A α → Pool I C A W α
  | .call c next => ⟨w, Function.update s.running i (some (.call c next))⟩
  | _ => ⟨S.leave i w, Function.update s.running i none⟩

/-- One event. What cannot happen changes nothing. -/
def step (s : Pool I C A W α) : Event I O D R → Pool I C A W α
  | .start i r =>
    match s.running i with
    | none => s.goOn S i s.world (program i r)
    | some _ => s
  | .next i o =>
    match s.running i with
    | some (.call c next) =>
      if S.ready i c s.world then
        let answered := S.answer i o c s.world
        s.goOn S i answered.2 (next answered.1)
      else s
    | _ => s
  | .kill i =>
    match s.running i with
    | some _ => ⟨S.leave i s.world, Function.update s.running i none⟩
    | none => s
  | .drift d => { s with world := S.drift d s.world }

/-- Events one after the other. -/
def run (s : Pool I C A W α) (events : List (Event I O D R)) : Pool I C A W α :=
  events.foldl (step S program) s

theorem run_append (s : Pool I C A W α) (events more : List (Event I O D R)) :
    s.run S program (events ++ more) = (s.run S program events).run S program more :=
  List.foldl_append

end

end Pool

/-- What holds of the surroundings, and what each program relies on while the others go on. -/
structure Protocol (I W : Type) where
  inv : W → Prop
  /-- What can have become of the surroundings. -/
  evolves : W → W → Prop
  rely : I → W → W → Prop
  evolves_refl : ∀ w, evolves w w
  evolves_trans : ∀ w w' w'', evolves w w' → evolves w' w'' → evolves w w''
  rely_refl : ∀ i w, rely i w w
  rely_trans : ∀ i w w' w'', rely i w w' → rely i w' w'' → rely i w w''

namespace Protocol

variable (P : Protocol I W) (S : Surroundings I O C A D W)
  (fair : I → O → C → W → Prop)

/-- A change by a program that keeps the invariant and respects the others. -/
structure Respects (i : I) (w w' : W) : Prop where
  inv : P.inv w'
  evolves : P.evolves w w'
  rely : ∀ j, j ≠ i → P.rely j w w'

/-- The calls that a program may make: with every fair outcome they respect the others. -/
def Allowed (i : I) (c : C) (w : W) : Prop :=
  ∀ o, S.ready i c w → fair i o c w → P.Respects i w (S.answer i o c w).2

/-- How a program is answered, and how the others may have gone on when it makes its next
call. -/
def Effect (i : I) (c : C) (a : Option (A c)) (w w' : W) : Prop :=
  ∃ o, S.ready i c w ∧ fair i o c w ∧ (S.answer i o c w).1 = a ∧
    P.rely i (S.answer i o c w).2 w' ∧ P.inv w'

/-- The program observes the protocol; it returns in the states of `Q` and raises in those of
`E`. -/
def Observes (i : I) (p : Program C A α) (Q : α → W → Prop) (E : W → Prop) (w : W) : Prop :=
  p.Safe (P.Allowed S fair i) (P.Effect S fair i) E Q w

variable {P S fair} {i : I} {w : W} {β : Type} {E : W → Prop}

theorem observes_pure {a : α} {Q : α → W → Prop} (h : Q a w) :
    P.Observes S fair i (pure a : Program C A α) Q E w :=
  h

theorem observes_raise {Q : α → W → Prop} (h : E w) :
    P.Observes S fair i (.raise : Program C A α) Q E w :=
  h

theorem observes_bind {p : Program C A α} {f : α → Program C A β} {Q : β → W → Prop}
    (h : P.Observes S fair i p (fun a w => P.Observes S fair i (f a) Q E w) E w) :
    P.Observes S fair i (p >>= f) Q E w :=
  Program.safe_bind h

theorem Observes.imp {p : Program C A α} {Q Q' : α → W → Prop} (h : P.Observes S fair i p Q E w)
    (hQ : ∀ a w, Q a w → Q' a w) : P.Observes S fair i p Q' E w :=
  Program.Safe.imp h hQ

/-- A program returns where the invariant holds. -/
theorem Observes.and_inv {p : Program C A α} {Q : α → W → Prop} (h : P.Observes S fair i p Q E w)
    (hinv : P.inv w) : P.Observes S fair i p (fun a w => P.inv w ∧ Q a w) E w := by
  induction p generalizing w with
  | done a => exact ⟨hinv, h⟩
  | raise => exact h
  | call c next ih =>
    refine ⟨h.1, fun a w' heffect => ih a (h.2 a w' heffect) ?_⟩
    obtain ⟨_, _, _, _, _, hinv'⟩ := heffect
    exact hinv'

/-- A program whose exceptions are handled. -/
theorem observes_caught {p : Program C A α} {Q : Option α → W → Prop}
    (h : P.Observes S fair i p (fun a w => Q (some a) w) (fun w => Q none w) w) :
    P.Observes S fair i p.caught Q E w :=
  Program.safe_caught h

/-- A call: it respects the others, and so does what follows its answer. -/
theorem observes_ask {c : C} {Q : A c → W → Prop}
    (hallowed : ∀ o, S.ready i c w → fair i o c w → P.Respects i w (S.answer i o c w).2)
    (hraised : ∀ o w', S.ready i c w → fair i o c w → (S.answer i o c w).1 = none →
      P.rely i (S.answer i o c w).2 w' → P.inv w' → E w')
    (h : ∀ o a w', S.ready i c w → fair i o c w → (S.answer i o c w).1 = some a →
      P.rely i (S.answer i o c w).2 w' → P.inv w' → Q a w') :
    P.Observes S fair i (Program.ask c) Q E w := by
  refine Program.safe_ask hallowed ?_ ?_
  · rintro w' ⟨o, hready, hfair, hanswer, hrely, hinv⟩
    exact hraised o w' hready hfair hanswer hrely hinv
  · rintro a w' ⟨o, hready, hfair, hanswer, hrely, hinv⟩
    exact h o a w' hready hfair hanswer hrely hinv

theorem observes_require {b : Bool} {Q : Unit → W → Prop} (hraised : E w) (h : b → Q () w) :
    P.Observes S fair i (Program.require b : Program C A Unit) Q E w :=
  Program.safe_require hraised h

theorem observes_take {o : Option α} {Q : α → W → Prop} (hraised : E w) (h : ∀ a ∈ o, Q a w) :
    P.Observes S fair i (Program.take o : Program C A α) Q E w :=
  Program.safe_take hraised h

/-! ### Runs -/

/-- The surroundings keep the protocol when a program leaves and when something happens from
outside, and the programs that are started observe it. -/
structure Holds (P : Protocol I W) (S : Surroundings I O C A D W)
    (fair : I → O → C → W → Prop) (program : I → R → Program C A α) : Prop where
  leave : ∀ i w, P.inv w → P.Respects i w (S.leave i w)
  drift : ∀ d w, P.inv w →
    P.inv (S.drift d w) ∧ P.evolves w (S.drift d w) ∧ ∀ i, P.rely i w (S.drift d w)
  start : ∀ i r w, P.inv w → P.Observes S fair i (program i r) (fun _ _ => True) (fun _ => True) w

/-- The invariant holds, and every program observes the protocol, however the others go on. -/
structure Ok (P : Protocol I W) (S : Surroundings I O C A D W) (fair : I → O → C → W → Prop)
    (s : Pool I C A W α) : Prop where
  inv : P.inv s.world
  running : ∀ i p, s.running i = some p → ∀ w, P.rely i s.world w → P.inv w →
    P.Observes S fair i p (fun _ _ => True) (fun _ => True) w

theorem ok_idle {w : W} (h : P.inv w) : Ok P S fair (Pool.idle w : Pool I C A W α) :=
  ⟨h, fun _ _ hp => by cases hp⟩

/-- An event is fair if the outcome of the call is. -/
def FairStep (fair : I → O → C → W → Prop) (s : Pool I C A W α) : Event I O D R → Prop
  | .next i o => ∀ c next, s.running i = some (.call c next) → fair i o c s.world
  | _ => True

variable {program : I → R → Program C A α} {s : Pool I C A W α} [DecidableEq I]

omit [DecidableEq I] in
/-- The others still observe the protocol after a change that respects them. -/
theorem Ok.others (h : Ok P S fair s) {w : W} (hw : P.Respects i s.world w) {j : I}
    (hj : j ≠ i) {p : Program C A α} (hp : s.running j = some p) {w' : W} (hrely : P.rely j w w')
    (hinv : P.inv w') : P.Observes S fair j p (fun _ _ => True) (fun _ => True) w' :=
  h.running j p hp w' (P.rely_trans j _ _ _ (hw.rely j hj) hrely) hinv

theorem ok_left (hP : Holds P S fair program) (h : Ok P S fair s) {w : W}
    (hw : P.Respects i s.world w) :
    Ok P S fair ⟨S.leave i w, Function.update s.running i none⟩ := by
  have hleave := hP.leave i w hw.inv
  refine ⟨hleave.inv, fun j p hp w' hrely hinv => ?_⟩
  change Function.update s.running i none j = some p at hp
  by_cases hj : j = i
  · subst hj
    rw [Function.update_self] at hp
    cases hp
  · rw [Function.update_of_ne hj] at hp
    exact h.others hw hj hp (P.rely_trans j _ _ _ (hleave.rely j hj) hrely) hinv

theorem ok_goOn (hP : Holds P S fair program) (h : Ok P S fair s) {w : W}
    (hw : P.Respects i s.world w) {p : Program C A α}
    (hp : ∀ w', P.rely i w w' → P.inv w' →
      P.Observes S fair i p (fun _ _ => True) (fun _ => True) w') :
    Ok P S fair (s.goOn S i w p) := by
  cases p with
  | done a => exact ok_left hP h hw
  | raise => exact ok_left hP h hw
  | call c next =>
    refine ⟨hw.inv, fun j q hq w' hrely hinv => ?_⟩
    change Function.update s.running i _ j = some q at hq
    by_cases hj : j = i
    · subst hj
      rw [Function.update_self] at hq
      obtain rfl := Option.some.inj hq
      exact hp w' hrely hinv
    · rw [Function.update_of_ne hj] at hq
      exact h.others hw hj hq hrely hinv

omit [DecidableEq I] in
theorem respects_refl (h : P.inv w) : P.Respects i w w :=
  ⟨h, P.evolves_refl w, fun j _ => P.rely_refl j w⟩

/-- **Every fair event keeps the protocol.** -/
theorem ok_step (hP : Holds P S fair program) (h : Ok P S fair s) {e : Event I O D R}
    (he : FairStep fair s e) : Ok P S fair (s.step S program e) := by
  cases e with
  | start i r =>
    rw [Pool.step]
    split
    · exact ok_goOn hP h (respects_refl h.inv) fun w _ hinv => hP.start i r w hinv
    · exact h
  | next i o =>
    rw [Pool.step]
    split
    case h_1 c next hrunning =>
      have hfair : fair i o c s.world := he c next hrunning
      have hobserves := h.running i _ hrunning s.world (P.rely_refl i s.world) h.inv
      split
      · next hready =>
        exact ok_goOn hP h (hobserves.1 o hready hfair) fun w hrely hinv =>
          hobserves.2 _ w ⟨o, hready, hfair, rfl, hrely, hinv⟩
      · exact h
    case h_2 => exact h
  | kill i =>
    rw [Pool.step]
    split
    · exact ok_left hP h (respects_refl h.inv)
    · exact h
  | drift d =>
    obtain ⟨hinv, -, hrely⟩ := hP.drift d s.world h.inv
    exact ⟨hinv, fun i p hp w hw hinv =>
      h.running i p hp w (P.rely_trans i _ _ _ (hrely i) hw) hinv⟩

theorem evolves_goOn (hP : Holds P S fair program) {w : W} (hw : P.Respects i s.world w)
    {p : Program C A α} : P.evolves s.world (s.goOn S i w p).world := by
  have hleft : P.evolves s.world (S.leave i w) :=
    P.evolves_trans _ _ _ hw.evolves (hP.leave i w hw.inv).evolves
  cases p with
  | done a => exact hleft
  | raise => exact hleft
  | call c next => exact hw.evolves

/-- **Every fair event goes on from the surroundings as they were.** -/
theorem evolves_step (hP : Holds P S fair program) (h : Ok P S fair s) {e : Event I O D R}
    (he : FairStep fair s e) : P.evolves s.world (s.step S program e).world := by
  cases e with
  | start i r =>
    rw [Pool.step]
    split
    · exact evolves_goOn hP (respects_refl h.inv)
    · exact P.evolves_refl s.world
  | next i o =>
    rw [Pool.step]
    split
    case h_1 c next hrunning =>
      have hobserves := h.running i _ hrunning s.world (P.rely_refl i s.world) h.inv
      split
      · next hready => exact evolves_goOn hP (hobserves.1 o hready (he c next hrunning))
      · exact P.evolves_refl s.world
    case h_2 => exact P.evolves_refl s.world
  | kill i =>
    rw [Pool.step]
    split
    · exact (hP.leave i s.world h.inv).evolves
    · exact P.evolves_refl s.world
  | drift d => exact (hP.drift d s.world h.inv).2.1

/-- The events of a run are fair. -/
def FairRun (S : Surroundings I O C A D W) (fair : I → O → C → W → Prop)
    (program : I → R → Program C A α) :
    Pool I C A W α → List (Event I O D R) → Prop
  | _, [] => True
  | s, e :: events => FairStep fair s e ∧ FairRun S fair program (s.step S program e) events

/-- A fair run in two parts. -/
theorem fairRun_append {events more : List (Event I O D R)} :
    FairRun S fair program s (events ++ more) ↔
      FairRun S fair program s events ∧ FairRun S fair program (s.run S program events) more := by
  induction events generalizing s with
  | nil => exact (and_iff_right trivial).symm
  | cons e events ih =>
    rw [List.cons_append, FairRun, ih, FairRun, and_assoc]
    rfl

/-- **The protocol holds after every fair run.** -/
theorem ok_run (hP : Holds P S fair program) {events : List (Event I O D R)} (h : Ok P S fair s)
    (hevents : FairRun S fair program s events) : Ok P S fair (s.run S program events) := by
  induction events generalizing s with
  | nil => exact h
  | cons e events ih => exact ih (ok_step hP h hevents.1) hevents.2

/-- **A fair run goes on from the surroundings as they were.** -/
theorem evolves_run (hP : Holds P S fair program) {events : List (Event I O D R)}
    (h : Ok P S fair s) (hevents : FairRun S fair program s events) :
    P.evolves s.world (s.run S program events).world := by
  induction events generalizing s with
  | nil => exact P.evolves_refl s.world
  | cons e events ih =>
    exact P.evolves_trans _ _ _ (evolves_step hP h hevents.1)
      (ih (ok_step hP h hevents.1) hevents.2)

/-- **The invariant holds after every fair run.** -/
theorem inv_run (hP : Holds P S fair program) {w : W} (hw : P.inv w)
    {events : List (Event I O D R)}
    (hevents : FairRun S fair program (Pool.idle w) events) :
    P.inv ((Pool.idle w : Pool I C A W α).run S program events).world :=
  (ok_run hP (ok_idle hw) hevents).inv

end Protocol

end Calls
