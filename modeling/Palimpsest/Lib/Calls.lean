import Mathlib.Data.Option.Basic

/-!
# Programs that call their surroundings

A program returns, raises, or makes a call and goes on with the answer, which is missing where
the call raises (`Calls.Program`). What answers is not part of it: a run can hold the program
between any two calls, give every answer there is, or forget the rest of it.

`Calls.Program.Safe` says that every call is made in a state in which it is allowed, whatever
the answers are. `Calls.Program.run` is the run in surroundings that answer every call.
`Calls.Program.Meets` puts the two together, and is built along the program
(`Calls.Program.meets_bind`).

`Calls.Tried` is the part of a program that an exception handler follows: its variables keep
what they have become where it raises.
-/

namespace Calls

/-- A program with calls in `C`, whose answers are of the types `A`. -/
inductive Program (C : Type) (A : C → Type) (α : Type)
  | done (a : α)
  | raise
  | call (c : C) (next : Option (A c) → Program C A α)

namespace Program

variable {C : Type} {A : C → Type} {α β : Type}

/-- One program after another. -/
def bind : Program C A α → (α → Program C A β) → Program C A β
  | done a, f => f a
  | raise, _ => raise
  | call c next, f => call c fun o => (next o).bind f

instance : Monad (Program C A) where
  pure := done
  bind := bind

/-- A program whose exception is handled by what comes next. -/
def caught : Program C A α → Program C A (Option α)
  | done a => done (some a)
  | raise => done none
  | call c next => call c fun o => (next o).caught

/-- A call. -/
def ask (c : C) : Program C A (A c) := call c fun
  | some a => done a
  | none => raise

/-- The program goes on if the condition holds. -/
def require (b : Bool) : Program C A Unit := if b then done () else raise

/-- The program goes on with the value, if there is one. -/
def take : Option α → Program C A α
  | some a => done a
  | none => raise

@[simp]
theorem done_bind (a : α) (f : α → Program C A β) : (done a >>= f) = f a := rfl

@[simp]
theorem pure_bind (a : α) (f : α → Program C A β) : ((pure a : Program C A α) >>= f) = f a := rfl

@[simp]
theorem raise_bind (f : α → Program C A β) : ((raise : Program C A α) >>= f) = raise := rfl

/-! ### Safety -/

section

variable {G : Type} (allowed : C → G → Prop) (effect : (c : C) → Option (A c) → G → G → Prop)
  (raised : G → Prop)

/-- Every call is allowed in the state it is made in, where an answer may change the state as
`effect` says, the program raises in the states `raised`, and it returns in states as the last
predicate says. -/
def Safe : Program C A α → (α → G → Prop) → G → Prop
  | done a, Q, g => Q a g
  | raise, _, g => raised g
  | call c next, Q, g => allowed c g ∧ ∀ o g', effect c o g g' → (next o).Safe Q g'

variable {allowed effect raised} {Q R : α → G → Prop} {g : G}

/-- A program that is safe and another one that is safe where it returns. -/
theorem safe_bind {p : Program C A α} {f : α → Program C A β} {Q : β → G → Prop}
    (h : p.Safe allowed effect raised (fun a g => (f a).Safe allowed effect raised Q g) g) :
    (p >>= f).Safe allowed effect raised Q g := by
  induction p generalizing g with
  | done a => exact h
  | raise => exact h
  | call c next ih => exact ⟨h.1, fun o g' hg' => ih o (h.2 o g' hg')⟩

theorem Safe.imp {p : Program C A α} (h : p.Safe allowed effect raised Q g)
    (hQR : ∀ a g, Q a g → R a g) : p.Safe allowed effect raised R g := by
  induction p generalizing g with
  | done a => exact hQR a g h
  | raise => exact h
  | call c next ih => exact ⟨h.1, fun o g' hg' => ih o (h.2 o g' hg')⟩

/-- A program is safe where fewer answers are possible. -/
theorem Safe.of_effect {effect' : (c : C) → Option (A c) → G → G → Prop} {p : Program C A α}
    (heffect : ∀ c o g g', effect' c o g g' → effect c o g g')
    (h : p.Safe allowed effect raised Q g) : p.Safe allowed effect' raised Q g := by
  induction p generalizing g with
  | done a => exact h
  | raise => exact h
  | call c next ih => exact ⟨h.1, fun o g' hg' => ih o (h.2 o g' (heffect c o g g' hg'))⟩

theorem Safe.of_raised {raised' : G → Prop} {p : Program C A α}
    (hraised : ∀ g, raised g → raised' g) (h : p.Safe allowed effect raised Q g) :
    p.Safe allowed effect raised' Q g := by
  induction p generalizing g with
  | done a => exact h
  | raise => exact hraised g h
  | call c next ih => exact ⟨h.1, fun o g' hg' => ih o (h.2 o g' hg')⟩

/-- A program whose exceptions are handled raises none. -/
theorem safe_caught {p : Program C A α} {Q : Option α → G → Prop}
    (h : p.Safe allowed effect (fun g => Q none g) (fun a g => Q (some a) g) g) :
    p.caught.Safe allowed effect raised Q g := by
  induction p generalizing g with
  | done a => exact h
  | raise => exact h
  | call c next ih => exact ⟨h.1, fun o g' hg' => ih o (h.2 o g' hg')⟩

/-- What holds where a safe program calls, raises and returns, holds where it is. -/
theorem Safe.here {p : Program C A α} {K : G → Prop} (h : p.Safe allowed effect raised Q g)
    (hallowed : ∀ c g, allowed c g → K g) (hraised : ∀ g, raised g → K g)
    (hQ : ∀ a g, Q a g → K g) : K g := by
  cases p with
  | done a => exact hQ a g h
  | raise => exact hraised g h
  | call c next => exact hallowed c g h.1

/-- Every program is safe where nothing is asked of it. -/
theorem safe_trivial (p : Program C A α) (g : G) :
    p.Safe (fun _ _ => True) effect (fun _ => True) (fun _ _ => True) g := by
  induction p generalizing g with
  | done a => trivial
  | raise => trivial
  | call c next ih => exact ⟨trivial, fun o g' _ => ih o g'⟩

theorem safe_ask {c : C} {Q : A c → G → Prop} (hc : allowed c g)
    (hraised : ∀ g', effect c none g g' → raised g')
    (h : ∀ a g', effect c (some a) g g' → Q a g') :
    (ask c : Program C A (A c)).Safe allowed effect raised Q g := by
  refine ⟨hc, fun o g' hg' => ?_⟩
  cases o with
  | none => exact hraised g' hg'
  | some a => exact h a g' hg'

theorem safe_require {b : Bool} {Q : Unit → G → Prop} (hraised : raised g) (h : b → Q () g) :
    (require b : Program C A Unit).Safe allowed effect raised Q g := by
  cases b with
  | false => exact hraised
  | true => exact h rfl

theorem safe_require_of {b : Bool} {Q : Unit → G → Prop} (hb : b = true) (h : Q () g) :
    (require b : Program C A Unit).Safe allowed effect raised Q g := by
  rw [require, if_pos hb]
  exact h

theorem safe_take {o : Option α} (hraised : raised g) (h : ∀ a ∈ o, Q a g) :
    (take o : Program C A α).Safe allowed effect raised Q g := by
  cases o with
  | none => exact hraised
  | some a => exact h a rfl

end

/-! ### Runs to the end -/

section

variable {W : Type} (answer : (c : C) → W → Option (A c) × W)

/-- What the program returns, unless it raises, and the surroundings it leaves. -/
def run : Program C A α → W → Option α × W
  | done a, w => (some a, w)
  | raise, w => (none, w)
  | call c next, w => (next (answer c w).1).run (answer c w).2

/-- The calls that the program makes. -/
def calls : Program C A α → W → List C
  | done _, _ => []
  | raise, _ => []
  | call c next, w => c :: (next (answer c w).1).calls (answer c w).2

/-- The program returns, and makes calls of some kind only. -/
structure Returns (P : C → Prop) (p : Program C A α) (w : W) (a : α) (w' : W) : Prop where
  run : p.run answer w = (some a, w')
  calls : ∀ c ∈ p.calls answer w, P c

variable {answer} {w w' : W}

theorem run_bind {p : Program C A α} {f : α → Program C A β} {a : α}
    (h : p.run answer w = (some a, w')) : (p >>= f).run answer w = (f a).run answer w' := by
  induction p generalizing w with
  | done b =>
    obtain ⟨hb, rfl⟩ := Prod.mk.inj h
    obtain rfl := Option.some.inj hb
    rfl
  | raise => cases h
  | call c next ih => exact ih _ h

/-- Where one program after another raises, the first one raises, or the second one does. -/
theorem run_bind_raised {p : Program C A α} {f : α → Program C A β}
    (h : (p >>= f).run answer w = (none, w')) :
    p.run answer w = (none, w') ∨
      ∃ a w₁, p.run answer w = (some a, w₁) ∧ (f a).run answer w₁ = (none, w') := by
  induction p generalizing w with
  | done a => exact .inr ⟨a, w, rfl, h⟩
  | raise => exact .inl (Prod.ext rfl (Prod.mk.inj h).2)
  | call c next ih => exact ih _ h

theorem run_ask {c : C} {a : A c} (h : answer c w = (some a, w')) :
    (ask c : Program C A (A c)).run answer w = (some a, w') := by
  rw [ask, run, h]
  rfl

/-- A call whose exception is handled. -/
theorem run_caught_ask (c : C) (w : W) :
    (ask c : Program C A (A c)).caught.run answer w = (some (answer c w).1, (answer c w).2) := by
  rw [ask, caught, run]
  cases (answer c w).1 with
  | none => rfl
  | some a => rfl

theorem run_require {b : Bool} (h : b) (w : W) :
    (require b : Program C A Unit).run answer w = (some (), w) := by
  rw [require, if_pos h]
  rfl

theorem run_take {o : Option α} {a : α} (h : o = some a) (w : W) :
    (take o : Program C A α).run answer w = (some a, w) := by
  subst h
  rfl

theorem calls_bind {p : Program C A α} {f : α → Program C A β} {a : α}
    (h : p.run answer w = (some a, w')) :
    (p >>= f).calls answer w = p.calls answer w ++ (f a).calls answer w' := by
  induction p generalizing w with
  | done b =>
    obtain ⟨hb, rfl⟩ := Prod.mk.inj h
    obtain rfl := Option.some.inj hb
    rfl
  | raise => cases h
  | call c next ih => exact congrArg (c :: ·) (ih _ h)

theorem returns_pure {P : C → Prop} (a : α) (w : W) :
    (pure a : Program C A α).Returns answer P w a w :=
  ⟨rfl, nofun⟩

theorem Returns.bind {P : C → Prop} {p : Program C A α} {f : α → Program C A β} {a : α} {b : β}
    {w'' : W} (h : p.Returns answer P w a w') (hf : (f a).Returns answer P w' b w'') :
    (p >>= f).Returns answer P w b w'' := by
  refine ⟨(run_bind h.run).trans hf.run, fun c hc => ?_⟩
  rw [calls_bind h.run] at hc
  exact (List.mem_append.mp hc).elim (h.calls c) (hf.calls c)

theorem returns_ask {P : C → Prop} {c : C} {a : A c} (hc : P c) (h : answer c w = (some a, w')) :
    (ask c : Program C A (A c)).Returns answer P w a w' := by
  refine ⟨run_ask h, fun c' hc' => ?_⟩
  rw [ask, Program.calls, h, List.mem_cons] at hc'
  rcases hc' with rfl | hnone
  · exact hc
  · cases hnone

theorem returns_require {P : C → Prop} {b : Bool} (h : b) (w : W) :
    (require b : Program C A Unit).Returns answer P w () w := by
  refine ⟨run_require h w, fun c hc => ?_⟩
  rw [require, if_pos h] at hc
  cases hc

theorem returns_take {P : C → Prop} {o : Option α} {a : α} (h : o = some a) (w : W) :
    (take o : Program C A α).Returns answer P w a w := by
  subst h
  exact ⟨rfl, nofun⟩

end

section

variable {W G : Type} {allowed : C → G → Prop} {effect : (c : C) → Option (A c) → G → G → Prop}
  {raised : G → Prop} {answer : (c : C) → W → Option (A c) × W}

/-- A safe program returns as its postcondition says and raises where it may, in surroundings
that show a state in which the answers are possible ones as long as they are as they should be. -/
theorem Safe.runs_of {p : Program C A α} {Q : α → G → Prop} (state : W → G) (I : W → Prop)
    (hanswer : ∀ c w, I w →
      effect c (answer c w).1 (state w) (state (answer c w).2) ∧ I (answer c w).2)
    {w : W} (hw : I w) (h : p.Safe allowed effect raised Q (state w)) :
    (∀ a w', p.run answer w = (some a, w') → Q a (state w')) ∧
      ∀ w', p.run answer w = (none, w') → raised (state w') := by
  induction p generalizing w with
  | done b =>
    refine ⟨fun a w' hrun => ?_, fun w' hrun => ?_⟩
    · obtain ⟨hb, rfl⟩ := Prod.mk.inj hrun
      obtain rfl := Option.some.inj hb
      exact h
    · cases hrun
  | raise =>
    refine ⟨fun a w' hrun => ?_, fun w' hrun => ?_⟩
    · cases hrun
    · obtain ⟨-, rfl⟩ := Prod.mk.inj hrun
      exact h
  | call c next ih => exact ih _ (hanswer c w hw).2 (h.2 _ _ (hanswer c w hw).1)

theorem Safe.runs {p : Program C A α} {Q : α → G → Prop} (state : W → G)
    (hanswer : ∀ c w, effect c (answer c w).1 (state w) (state (answer c w).2)) {w : W}
    (h : p.Safe allowed effect raised Q (state w)) :
    (∀ a w', p.run answer w = (some a, w') → Q a (state w')) ∧
      ∀ w', p.run answer w = (none, w') → raised (state w') :=
  h.runs_of state (fun _ => True) (fun c w _ => ⟨hanswer c w, trivial⟩) trivial

end

/-! ### Runs cut short -/

section

variable {O W : Type} (answer : O → (c : C) → W → Option (A c) × W)

/-- The rest of the program and the surroundings after some calls, which are answered as the list
says. A run that is cut short has a call before it. -/
def advance : Program C A α → List O → W → Program C A α × W
  | call c next, o :: outcomes, w => (next (answer o c w).1).advance outcomes (answer o c w).2
  | p, _, w => (p, w)

/-- The call that the program is about to make. -/
def pending : Program C A α → Option C
  | call c _ => some c
  | _ => none

variable {answer} {allowed : C → W → Prop} {effect : (c : C) → Option (A c) → W → W → Prop}
  {raised : W → Prop} {Q : α → W → Prop}

theorem Safe.pending {p : Program C A α} {w : W} (h : p.Safe allowed effect raised Q w) {c : C}
    (hc : p.pending = some c) : allowed c w := by
  cases p with
  | done a => cases hc
  | raise => cases hc
  | call c' next =>
    obtain rfl := Option.some.inj hc
    exact h.1

/-- **What is left of a safe program is safe**, where the answers are possible ones. -/
theorem Safe.advance {outcomes : List O}
    (hanswer : ∀ o ∈ outcomes, ∀ c w, effect c (answer o c w).1 w (answer o c w).2)
    {p : Program C A α} {w : W} (h : p.Safe allowed effect raised Q w) :
    (p.advance answer outcomes w).1.Safe allowed effect raised Q
      (p.advance answer outcomes w).2 := by
  induction outcomes generalizing p w with
  | nil =>
    cases p <;> exact h
  | cons o outcomes ih =>
    cases p with
    | done a => exact h
    | raise => exact h
    | call c next =>
      exact ih (fun o ho => hanswer o (List.mem_cons_of_mem _ ho))
        (h.2 _ _ (hanswer o List.mem_cons_self c w))

end

section

variable {O W : Type}

/-- Calls that are answered take one program to another. -/
inductive Leads (answer : (c : C) → W → Option (A c) × W) :
    Program C A α → W → Program C A α → W → Prop
  | refl (p : Program C A α) (w : W) : Leads answer p w p w
  | call (c : C) (next : Option (A c) → Program C A α) (w : W) (p : Program C A α) (w' : W)
      (h : Leads answer (next (answer c w).1) (answer c w).2 p w') :
      Leads answer (.call c next) w p w'

variable {answer : (c : C) → W → Option (A c) × W} {w w' w'' : W}

theorem Leads.bind {p : Program C A α} {f : α → Program C A β} {a : α} {q : Program C A β}
    (h : Leads answer p w (done a) w') (hf : Leads answer (f a) w' q w'') :
    Leads answer (p >>= f) w q w'' := by
  induction p generalizing w with
  | done b =>
    cases h
    exact hf
  | raise => nomatch h
  | call c next ih =>
    cases h with
    | call _ _ _ _ _ h => exact .call c _ w q w'' (ih _ h)

theorem Leads.trans {p q r : Program C A α} (h : Leads answer p w q w')
    (h' : Leads answer q w' r w'') : Leads answer p w r w'' := by
  induction h with
  | refl p w => exact h'
  | call c next w p w' _ ih => exact .call c next w r w'' (ih h')

/-- A program leads on in front of another one. -/
theorem Leads.bind_left {p q : Program C A α} {f : α → Program C A β}
    (h : Leads answer p w q w') : Leads answer (p >>= f) w (q >>= f) w' := by
  induction h with
  | refl p w => exact .refl _ _
  | call c next w p w' _ ih => exact .call c _ w _ w' ih

theorem Leads.run {p : Program C A α} {a : α} (h : Leads answer p w (done a) w') :
    p.run answer w = (some a, w') := by
  induction p generalizing w with
  | done b =>
    cases h
    rfl
  | raise => nomatch h
  | call c next ih =>
    cases h with
    | call _ _ _ _ _ h => exact ih _ h

theorem Leads.caught {p : Program C A α} {a : α} (h : Leads answer p w (done a) w') :
    Leads answer p.caught w (done (some a)) w' := by
  induction p generalizing w with
  | done b =>
    cases h
    exact .refl _ _
  | raise => nomatch h
  | call c next ih =>
    cases h with
    | call _ _ _ _ _ h => exact .call c _ w _ w' (ih _ h)

variable (answer) in
/-- The program returns where its calls are answered, as the predicate says. -/
def Yields (p : Program C A α) (w : W) (Q : α → W → Prop) : Prop :=
  ∃ a w', Leads answer p w (done a) w' ∧ Q a w'

theorem yields_bind {p : Program C A α} {f : α → Program C A β} {Q : β → W → Prop}
    (h : Yields answer p w fun a w => Yields answer (f a) w Q) : Yields answer (p >>= f) w Q := by
  obtain ⟨a, w₁, hp, b, w₂, hf, hQ⟩ := h
  exact ⟨b, w₂, hp.bind hf, hQ⟩

theorem yields_pure {a : α} {Q : α → W → Prop} (h : Q a w) :
    Yields answer (pure a : Program C A α) w Q :=
  ⟨a, w, .refl _ _, h⟩

theorem yields_ask {c : C} {a : A c} {Q : A c → W → Prop} (h : answer c w = (some a, w'))
    (hQ : Q a w') : Yields answer (ask c : Program C A (A c)) w Q := by
  refine ⟨a, w', .call c _ w _ w' ?_, hQ⟩
  rw [h]
  exact .refl _ _

theorem yields_require {b : Bool} {Q : Unit → W → Prop} (h : b) (hQ : Q () w) :
    Yields answer (require b : Program C A Unit) w Q := by
  rw [require, if_pos h]
  exact yields_pure hQ

theorem yields_take {o : Option α} {a : α} {Q : α → W → Prop} (h : o = some a) (hQ : Q a w) :
    Yields answer (take o : Program C A α) w Q := by
  subst h
  exact yields_pure hQ

/-- Where all calls come out the same way, a program is cut short after some of them. -/
theorem Leads.advance {answer : O → (c : C) → W → Option (A c) × W} {o : O}
    {p q : Program C A α} (h : Leads (answer o) p w q w') :
    ∃ k, p.advance answer (List.replicate k o) w = (q, w') := by
  induction h with
  | refl p w => exact ⟨0, by cases p <;> rfl⟩
  | call c next w p w' _ ih =>
    obtain ⟨k, hk⟩ := ih
    exact ⟨k + 1, hk⟩

end

/-! ### Safe, and sure to return -/

section

variable {G : Type} (allowed : C → G → Prop) (effect : (c : C) → Option (A c) → G → G → Prop)
  (raised : G → Prop) (answer : (c : C) → G → Option (A c) × G) (sure : Prop)

/-- The program is safe, and if it is `sure` to, it returns where the surroundings answer. -/
structure Meets (p : Program C A α) (Q : α → G → Prop) (g : G) : Prop where
  safe : p.Safe allowed effect raised Q g
  returns : sure → ∃ a g', p.run answer g = (some a, g') ∧ Q a g'

variable {allowed effect raised answer sure} {g : G}

theorem meets_pure {a : α} {Q : α → G → Prop} (h : Q a g) :
    (pure a : Program C A α).Meets allowed effect raised answer sure Q g :=
  ⟨h, fun _ => ⟨a, g, rfl, h⟩⟩

theorem meets_bind {p : Program C A α} {f : α → Program C A β} {Q : β → G → Prop}
    (h : p.Meets allowed effect raised answer sure
      (fun a g => (f a).Meets allowed effect raised answer sure Q g) g) :
    (p >>= f).Meets allowed effect raised answer sure Q g where
  safe := safe_bind (h.safe.imp fun _ _ ha => ha.safe)
  returns := fun hsure => by
    obtain ⟨a, g', hrun, ha⟩ := h.returns hsure
    obtain ⟨b, g'', hrun', hb⟩ := ha.returns hsure
    exact ⟨b, g'', (run_bind hrun).trans hrun', hb⟩

theorem meets_ask {c : C} {Q : A c → G → Prop} (hc : allowed c g)
    (hraised : ∀ g', effect c none g g' → raised g')
    (h : ∀ a g', effect c (some a) g g' → Q a g')
    (hsure : sure → ∃ a g', answer c g = (some a, g') ∧ effect c (some a) g g') :
    (ask c : Program C A (A c)).Meets allowed effect raised answer sure Q g where
  safe := safe_ask hc hraised h
  returns := fun hs => by
    obtain ⟨a, g', hanswer, heffect⟩ := hsure hs
    exact ⟨a, g', run_ask hanswer, h a g' heffect⟩

theorem meets_require {b : Bool} {Q : Unit → G → Prop} (hraised : raised g) (hsure : sure → b)
    (h : b → Q () g) :
    (require b : Program C A Unit).Meets allowed effect raised answer sure Q g where
  safe := safe_require hraised h
  returns := fun hs => ⟨(), g, run_require (hsure hs) g, h (hsure hs)⟩

theorem meets_take {o : Option α} {Q : α → G → Prop} (hraised : raised g)
    (hsure : sure → o.isSome) (h : ∀ a ∈ o, Q a g) :
    (take o : Program C A α).Meets allowed effect raised answer sure Q g where
  safe := safe_take hraised h
  returns := fun hs => by
    obtain ⟨a, ha⟩ := Option.isSome_iff_exists.mp (hsure hs)
    exact ⟨a, g, run_take ha g, h a ha⟩

/-- A safe program returns as its postcondition says, where the answers are possible ones. -/
theorem Safe.of_run {p : Program C A α} {Q : α → G → Prop} {a : α} {g' : G}
    (hanswer : ∀ c g, effect c (answer c g).1 g (answer c g).2)
    (h : p.Safe allowed effect raised Q g) (hrun : p.run answer g = (some a, g')) : Q a g' :=
  (h.runs id hanswer).1 a g' hrun

theorem Meets.imp {p : Program C A α} {Q R : α → G → Prop}
    (h : p.Meets allowed effect raised answer sure Q g) (hQR : ∀ a g, Q a g → R a g) :
    p.Meets allowed effect raised answer sure R g where
  safe := h.safe.imp hQR
  returns := fun hs => by
    obtain ⟨a, g', hrun, ha⟩ := h.returns hs
    exact ⟨a, g', hrun, hQR a g' ha⟩

end

end Program

/-! ### Variables that outlive exceptions -/

/-- A part of a program with variables, which keep what they have become where it raises. -/
def Tried (C : Type) (A : C → Type) (V α : Type) : Type := V → Program C A (Option α × V)

namespace Tried

variable {C V : Type} {A : C → Type} {α β : Type}

/-- One part after another. -/
def bind (m : Tried C A V α) (f : α → Tried C A V β) : Tried C A V β := fun v =>
  (m v).bind fun
    | (some a, v) => f a v
    | (none, v) => .done (none, v)

instance : Monad (Tried C A V) where
  pure := fun a v => .done (some a, v)
  bind := bind

/-- A program without variables. -/
def lift (p : Program C A α) : Tried C A V α := fun v => p.caught.bind fun o => .done (o, v)

/-- The variables. -/
def get : Tried C A V V := fun v => .done (some v, v)

/-- The variables are changed. -/
def modify (f : V → V) : Tried C A V Unit := fun v => .done (some (), f v)

/-- An exception. -/
def raise : Tried C A V α := fun v => .done (none, v)

/-- The part goes on if the condition holds. -/
def require (b : Bool) : Tried C A V Unit := if b then pure () else raise

section

variable {G : Type} (allowed : C → G → Prop) (effect : (c : C) → Option (A c) → G → G → Prop)

/-- What the variables and the state are where the part returns, and where it raises. -/
def Keeps (m : Tried C A V α) (Q : α → V → G → Prop) (E : V → G → Prop) (v : V) (g : G) : Prop :=
  (m v).Safe allowed effect (fun _ => False) (fun r g => r.1.elim (E r.2 g) fun a => Q a r.2 g) g

variable {allowed effect} {Q : α → V → G → Prop} {E : V → G → Prop} {v : V} {g : G}

theorem Keeps.imp {m : Tried C A V α} {Q' : α → V → G → Prop} {E' : V → G → Prop}
    (h : m.Keeps allowed effect Q E v g) (hQ : ∀ a v g, Q a v g → Q' a v g)
    (hE : ∀ v g, E v g → E' v g) : m.Keeps allowed effect Q' E' v g := by
  refine Program.Safe.imp h fun r g hr => ?_
  obtain ⟨_ | a, v⟩ := r
  · exact hE v g hr
  · exact hQ a v g hr

/-- A part of a program goes on with what it has come to. -/
theorem Keeps.safe_bind {raised : G → Prop} {m : Tried C A V α} {f : Option α × V → Program C A β}
    {R : β → G → Prop}
    (h : m.Keeps allowed effect (fun a v g => (f (some a, v)).Safe allowed effect raised R g)
      (fun v g => (f (none, v)).Safe allowed effect raised R g) v g) :
    (m v >>= f).Safe allowed effect raised R g := by
  refine Program.safe_bind ((Program.Safe.of_raised (fun _ => False.elim) h).imp fun r g hr => ?_)
  obtain ⟨_ | a, v⟩ := r
  · exact hr
  · exact hr

theorem keeps_pure {a : α} (h : Q a v g) :
    (pure a : Tried C A V α).Keeps allowed effect Q E v g :=
  h

theorem keeps_bind {m : Tried C A V α} {f : α → Tried C A V β} {Q : β → V → G → Prop}
    (h : m.Keeps allowed effect (fun a v g => (f a).Keeps allowed effect Q E v g) E v g) :
    (m >>= f).Keeps allowed effect Q E v g := by
  refine Program.safe_bind (Program.Safe.imp h fun r g hr => ?_)
  obtain ⟨_ | a, v⟩ := r
  · exact hr
  · exact hr

theorem keeps_lift {p : Program C A α}
    (h : p.Safe allowed effect (fun g => E v g) (fun a g => Q a v g) g) :
    (lift p : Tried C A V α).Keeps allowed effect Q E v g :=
  Program.safe_bind (Program.safe_caught h)

theorem keeps_get {Q : V → V → G → Prop} (h : Q v v g) :
    (get : Tried C A V V).Keeps allowed effect Q E v g :=
  h

theorem keeps_modify {f : V → V} {Q : Unit → V → G → Prop} (h : Q () (f v) g) :
    (modify f : Tried C A V Unit).Keeps allowed effect Q E v g :=
  h

theorem keeps_raise (h : E v g) : (raise : Tried C A V α).Keeps allowed effect Q E v g :=
  h

theorem keeps_require {b : Bool} {Q : Unit → V → G → Prop} (hraised : E v g) (h : b → Q () v g) :
    (require b : Tried C A V Unit).Keeps allowed effect Q E v g := by
  cases b with
  | false => exact hraised
  | true => exact h rfl

end

/-- One part after another, where the first one returns. -/
theorem run_bind {W : Type} {answer : (c : C) → W → Option (A c) × W} {m : Tried C A V α}
    {f : α → Tried C A V β} {a : α} {v v' : V} {w w' : W}
    (h : (m v).run answer w = (some (some a, v'), w')) :
    ((m >>= f) v).run answer w = (f a v').run answer w' :=
  Program.run_bind h

/-- Where the first part raises, the second one is left out. -/
theorem run_bind_raised {W : Type} {answer : (c : C) → W → Option (A c) × W} {m : Tried C A V α}
    {f : α → Tried C A V β} {v v' : V} {w w' : W}
    (h : (m v).run answer w = (some (none, v'), w')) :
    ((m >>= f) v).run answer w = (some (none, v'), w') :=
  Program.run_bind h

/-- A program without variables leads on with the variables as they are. -/
theorem leads_lift {W : Type} {answer : (c : C) → W → Option (A c) × W} {p : Program C A α}
    {a : α} {v : V} {w w' : W} (h : Program.Leads answer p w (.done a) w') :
    Program.Leads answer ((lift p : Tried C A V α) v) w (.done (some a, v)) w' :=
  Program.Leads.bind h.caught (.refl _ _)

end Tried

end Calls
