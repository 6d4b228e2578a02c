import Palimpsest.Runtime.RunBackend

/-!
# What the calls of a project do to the backend

Most calls leave the state as it is (`Effect.quiet`). The runs are changed by stops, removals and
starts only (`Stopped`, `Removed`, `Started`), each at one name, and where an identity is expected
only if the run there has it.
-/

namespace Palimpsest.Runtime

open Calls Calls.Program

/-- How a call can be answered. -/
def Effect (project : Project) (c : Call) (a : Option (Answer c)) (s s' : State) : Prop :=
  ∃ o, respond o project s c = (a, s')

/-- The program returns in the states of `Q` and raises in those of `E`. -/
abbrev Holds {α : Type} (project : Project) (p : Op α) (Q : α → State → Prop) (E : State → Prop)
    (s : State) : Prop :=
  p.Safe (fun _ _ => True) (Effect project) E Q s

/-- The part of a program returns with variables and states as `Q` says and raises as `E` says. -/
abbrev Keeps {α : Type} (project : Project) (m : Body α) (Q : α → Progress → State → Prop)
    (E : Progress → State → Prop) (v : Progress) (s : State) : Prop :=
  m.Keeps (fun _ _ => True) (Effect project) Q E v s

/-- Who runs under a name. -/
def State.identity (s : State) (name : String) : Option RuntimeIdentity :=
  (s.runs name).map Run.identity

variable {project : Project} {s s' : State} {E : State → Prop} {name : String}
  {expected : Option RuntimeIdentity}

/-! ### Calls -/

theorem holds_call {c : Call} {Q : Answer c → State → Prop}
    (hraised : ∀ s', Effect project c none s s' → E s')
    (h : ∀ a s', Effect project c (some a) s s' → Q a s') : Holds project (call c) Q E s :=
  safe_ask trivial hraised h

/-- A call leaves the state and raises, or changes it. -/
theorem finish_cases {α : Type} {o : Outcome} {a : α} {b : Option α} {before after : State}
    (h : finish o a before after = (b, s')) :
    s' = before ∧ b = none ∨ s' = after ∧ ∀ x, b = some x → x = a := by
  have hdone : ((some a, after) : Option α × State) = (b, s') →
      s' = before ∧ b = none ∨ s' = after ∧ ∀ x, b = some x → x = a := by
    intro h
    obtain ⟨rfl, rfl⟩ := Prod.mk.inj h
    exact .inr ⟨rfl, fun x hx => (Option.some.inj hx).symm⟩
  cases o with
  | raised isDone =>
    obtain ⟨rfl, rfl⟩ := Prod.mk.inj h
    cases isDone with
    | false => exact .inl ⟨rfl, rfl⟩
    | true => exact .inr ⟨rfl, nofun⟩
  | started backend status raises =>
    cases raises with
    | false => exact hdone h
    | true =>
      obtain ⟨rfl, rfl⟩ := Prod.mk.inj h
      exact .inr ⟨rfl, nofun⟩
  | done => exact hdone h
  | prepared receipts => exact hdone h
  | digest value => exact hdone h
  | busy => exact hdone h

theorem finish_same {α : Type} {o : Outcome} {a : α} {b : Option α}
    (h : finish o a s s = (b, s')) : s' = s :=
  (finish_cases h).elim And.left And.left

/-- The calls that change nothing. -/
def Call.isQuiet : Call → Bool
  | .readState | .inspect _ | .desiredDigest _ | .resolve _ | .portAvailable _ _ | .preflight _
  | .preflightDown _ _ | .removeVolume _ => true
  | _ => false

theorem Effect.quiet {c : Call} (hc : c.isQuiet) {a : Option (Answer c)}
    (h : Effect project c a s s') : s' = s := by
  obtain ⟨o, h⟩ := h
  cases c with
  | readState =>
    rw [respond] at h
    split at h
    · exact finish_same h
    · exact (Prod.mk.inj h).2.symm
  | inspect name => exact finish_same h
  | desiredDigest service => cases o <;> exact (Prod.mk.inj h).2.symm
  | resolve service => exact finish_same h
  | portAvailable port replacing =>
    have hcases : respond o project s (.portAvailable port replacing) = (some false, s) ∨
        respond o project s (.portAvailable port replacing) = finish o true s s := by
      cases o with
      | busy => exact .inl rfl
      | _ => exact .inr rfl
    rcases hcases with heq | heq
    · exact (Prod.mk.inj (heq.symm.trans h)).2.symm
    · exact finish_same (heq.symm.trans h)
  | preflight plans => exact finish_same h
  | preflightDown targets volumes => exact finish_same h
  | removeVolume volume => exact finish_same h
  | writeState record => cases hc
  | prepare plans => cases hc
  | start plan expected => cases hc
  | stop name expected => cases hc
  | remove name expected => cases hc

/-- A call that changes nothing. -/
theorem holds_quiet {c : Call} {Q : Answer c → State → Prop} (hc : c.isQuiet) (hE : E s)
    (h : ∀ a, Q a s) : Holds project (call c) Q E s :=
  holds_call (fun _ heffect => heffect.quiet hc ▸ hE) fun a _ heffect => heffect.quiet hc ▸ h a

/-- The backend shows who runs. -/
theorem holds_inspect {Q : Option Run → State → Prop} (hE : E s) (h : Q (s.runs name) s) :
    Holds project (call (.inspect name)) Q E s := by
  refine holds_call (fun _ heffect => heffect.quiet rfl ▸ hE) fun a s' heffect => ?_
  obtain ⟨o, heffect⟩ := heffect
  rcases finish_cases heffect with ⟨-, hnone⟩ | ⟨rfl, hsome⟩
  · cases hnone
  · exact hsome a rfl ▸ h

/-- The ledger is written, or the write raises. -/
theorem holds_writeState {record : ProjectState} {Q : Unit → State → Prop}
    (hE : ∀ stored, E { s with stored := stored, isUnwritten := true })
    (h : Q () { s with stored := some record }) :
    Holds project (call (.writeState record)) Q E s := by
  refine holds_call (fun s' heffect => ?_) fun a s' heffect => ?_
  · obtain ⟨o, heffect⟩ := heffect
    cases o with
    | raised isDone =>
      obtain ⟨-, rfl⟩ := Prod.mk.inj heffect
      exact hE _
    | _ => cases (Prod.mk.inj heffect).1
  · obtain ⟨o, heffect⟩ := heffect
    cases o with
    | raised isDone => cases (Prod.mk.inj heffect).1
    | _ =>
      obtain ⟨-, rfl⟩ := Prod.mk.inj heffect
      exact h

/-- What only concerns runs is changed. -/
structure OnlyRuns (s s' : State) : Prop where
  stored : s'.stored = s.stored
  receipts : s'.receipts = s.receipts
  preparedFor : s'.preparedFor = s.preparedFor
  isUnwritten : s'.isUnwritten = s.isUnwritten

theorem OnlyRuns.refl (s : State) : OnlyRuns s s := ⟨rfl, rfl, rfl, rfl⟩

/-- A run is stopped if it is the expected one, and it stays who it is. -/
structure Stopped (name : String) (expected : Option RuntimeIdentity) (s s' : State) : Prop
    extends OnlyRuns s s' where
  identity : ∀ other, s'.identity other = s.identity other
  fresh : s'.fresh = s.fresh
  launched : s'.launched = s.launched
  unbound : s'.unbound = s.unbound
  touched : ∀ id ∈ s'.touched, id ∈ s.touched ∨
    ∃ identity, s.identity name = some identity ∧ identity.runId = id ∧
      ∀ e ∈ expected, identity = e

theorem identity_setRun (run : Option Run) (other : String) :
    (s.setRun name run).identity other =
      if other = name then run.map Run.identity else s.identity other := by
  show (Function.update s.runs name run other).map Run.identity = _
  rw [Function.update_apply]
  split_ifs
  · rfl
  · rfl

theorem isExpected_iff {run : Run} :
    isExpected expected run = true ↔ ∀ e ∈ expected, run.identity = e := by
  cases expected with
  | none => exact ⟨fun _ => nofun, fun _ => rfl⟩
  | some e =>
    simp only [isExpected, Option.all_some, decide_eq_true_eq, Option.mem_def, Option.some.injEq,
      forall_eq']

theorem Effect.stop {a : Option Unit} (h : Effect project (.stop name expected) a s s') :
    Stopped name expected s s' := by
  obtain ⟨o, h⟩ := h
  have hsame : Stopped name expected s s :=
    ⟨.refl s, fun _ => rfl, rfl, rfl, rfl, fun _ hid => .inl hid⟩
  rw [respond, respondStop] at h
  split at h
  · next run hrun =>
    split_ifs at h with hexpected
    · rcases finish_cases h with ⟨rfl, -⟩ | ⟨rfl, -⟩
      · exact hsame
      · have hidentity : s.identity name = some run.identity := by rw [State.identity, hrun]; rfl
        refine ⟨⟨rfl, rfl, rfl, rfl⟩, fun other => ?_, rfl, rfl, rfl, fun id hid => ?_⟩
        · refine (identity_setRun _ other).trans ?_
          split_ifs with hother
          · rw [hother, hidentity]
            rfl
          · rfl
        · rcases List.mem_cons.mp hid with rfl | hid
          · exact .inr ⟨run.identity, hidentity, rfl, isExpected_iff.mp hexpected⟩
          · exact .inl hid
    · obtain ⟨-, rfl⟩ := Prod.mk.inj h
      exact hsame
  · obtain ⟨-, rfl⟩ := Prod.mk.inj h
    exact hsame

/-- A run is removed if it is the expected one. -/
structure Removed (name : String) (expected : Option RuntimeIdentity) (isDone : Bool)
    (s s' : State) : Prop extends OnlyRuns s s' where
  other : ∀ other, other ≠ name → s'.identity other = s.identity other
  same : s'.identity name = s.identity name ∨ s'.identity name = none ∧
    ∀ identity, s.identity name = some identity → ∀ e ∈ expected, identity = e
  gone : isDone → s'.identity name = none
  fresh : s'.fresh = s.fresh
  launched : s'.launched = s.launched
  unbound : s'.unbound =
    if expected.isNone then s.unbound ++ [(name, s'.identity name)] else s.unbound
  touched : ∀ id ∈ s'.touched, id ∈ s.touched ∨
    ∃ identity, s.identity name = some identity ∧ identity.runId = id ∧
      ∀ e ∈ expected, identity = e

theorem Effect.remove {a : Option Unit} (h : Effect project (.remove name expected) a s s') :
    Removed name expected a.isSome s s' := by
  obtain ⟨o, h⟩ := h
  -- what is left as it was, but for the note
  have hsame : ∀ {left : Option RuntimeIdentity} {isDone : Bool}, s.identity name = left →
      (isDone → left = none) →
        Removed name expected isDone s (s.noteRemoval name expected left) := by
    intro left isDone hidentity hdone
    obtain ⟨unbound, heq, hunbound⟩ := s.noteRemoval_eq name expected left
    rw [heq]
    refine ⟨⟨rfl, rfl, rfl, rfl⟩, fun _ _ => rfl, .inl rfl, fun h => hidentity.trans (hdone h), rfl,
      rfl, ?_, fun _ hid => .inl hid⟩
    rw [hunbound, ← hidentity]
    rfl
  rw [respond, respondRemove] at h
  split at h
  · next run hrun =>
    have hidentity : s.identity name = some run.identity := by rw [State.identity, hrun]; rfl
    split_ifs at h with hexpected
    · have hrunIs := isExpected_iff.mp hexpected
      rcases finish_cases h with ⟨rfl, rfl⟩ | ⟨rfl, -⟩
      · exact hsame hidentity nofun
      · have hself : (s.setRun name none).identity name = none := by
          rw [identity_setRun, if_pos rfl]
          rfl
        obtain ⟨unbound, heq, hunbound⟩ := State.noteRemoval_eq
          { s.setRun name none with touched := run.runId :: s.touched } name expected none
        rw [heq]
        refine ⟨⟨rfl, rfl, rfl, rfl⟩, fun other hother => ?_, .inr ⟨hself, fun identity hid => ?_⟩,
          fun _ => hself, rfl, rfl, ?_, fun id hid => ?_⟩
        · exact (identity_setRun none other).trans (if_neg hother)
        · exact Option.some.inj (hidentity.symm.trans hid) ▸ hrunIs
        · exact hunbound.trans (hself ▸ rfl)
        · rcases List.mem_cons.mp hid with rfl | hid
          · exact .inr ⟨run.identity, hidentity, rfl, hrunIs⟩
          · exact .inl hid
    · obtain ⟨rfl, rfl⟩ := Prod.mk.inj h
      cases expected with
      | none => exact absurd rfl hexpected
      | some e =>
        exact ⟨.refl _, fun _ _ => rfl, .inl rfl, nofun, rfl, rfl, rfl, fun _ hid => .inl hid⟩
  · next hrun =>
    have hnone : s.identity name = none := by rw [State.identity, hrun]; rfl
    obtain rfl := finish_same h
    exact hsame hnone fun _ => rfl

/-- A run is started: a new one under a name that is free, or an existing one that is the
expected one. -/
structure Started (plan : ServicePlan) (s s' : State) : Prop extends OnlyRuns s s' where
  other : ∀ other, other ≠ plan.runName → s'.identity other = s.identity other
  same : s'.launched = none ∧ s'.identity plan.runName = s.identity plan.runName ∨
    s'.launched = some s.fresh ∧ s.fresh < s'.fresh ∧ plan.action ≠ .start ∧
      s.identity plan.runName = none ∧
        ∃ backend, s'.identity plan.runName = some ⟨s.fresh, backend⟩
  fresh : s.fresh ≤ s'.fresh
  unbound : s'.unbound = s.unbound
  touched : s'.touched = s.touched

theorem Effect.start {plan : ServicePlan} {a : Option Unit}
    (h : Effect project (.start plan expected) a s s') : Started plan s s' := by
  obtain ⟨o, h⟩ := h
  have hsame : Started plan s { s with launched := none } :=
    ⟨⟨rfl, rfl, rfl, rfl⟩, fun _ _ => rfl, .inl ⟨rfl, rfl⟩, Nat.le_refl _, rfl, rfl⟩
  -- A run that is there is started again; where there is none, one is created.
  rw [respond, respondStart] at h
  split at h
  · next run haction hrun =>
    split_ifs at h
    · rcases finish_cases h with ⟨rfl, -⟩ | ⟨rfl, -⟩
      · exact hsame
      · refine ⟨⟨rfl, rfl, rfl, rfl⟩, fun other hother => ?_, .inl ⟨rfl, ?_⟩, Nat.le_refl _, rfl,
          rfl⟩
        · exact (identity_setRun _ other).trans (if_neg hother)
        · have hidentity : s.identity plan.runName = some run.identity := by
            rw [State.identity, show s.runs plan.runName = some run from hrun]
            rfl
          exact (identity_setRun _ _).trans ((if_pos rfl).trans hidentity.symm)
    · obtain ⟨-, rfl⟩ := Prod.mk.inj h
      exact hsame
  · obtain ⟨-, rfl⟩ := Prod.mk.inj h
    exact hsame
  · obtain ⟨-, rfl⟩ := Prod.mk.inj h
    exact hsame
  · next hrun hnew =>
    rcases finish_cases h with ⟨rfl, -⟩ | ⟨rfl, -⟩
    · exact hsame
    · refine ⟨⟨rfl, rfl, rfl, rfl⟩, fun other hother => ?_,
        .inr ⟨rfl, Nat.lt_succ_self _, hnew, ?_, (startedRun o).1, ?_⟩, Nat.le_succ _, rfl, rfl⟩
      · exact (identity_setRun _ other).trans (if_neg hother)
      · rw [State.identity, show s.runs plan.runName = none from hrun]
        rfl
      · exact (identity_setRun _ _).trans (if_pos rfl)

/-- Volumes are prepared. -/
theorem holds_prepare {plans : List ServicePlan} {Q : Receipts → State → Prop} (hE : E s)
    (hraised : E { s with receipts := [], preparedFor := plans })
    (h : ∀ receipts, Q receipts { s with receipts := receipts.volumes, preparedFor := plans }) :
    Holds project (call (.prepare plans)) Q E s := by
  have hcases : ∀ o, (∃ receipts, respond o project s (.prepare plans) =
      (some receipts, { s with receipts := receipts.volumes, preparedFor := plans })) ∨
      respond o project s (.prepare plans) =
        finish o ⟨[], true⟩ s { s with receipts := [], preparedFor := plans } := by
    intro o
    cases o with
    | prepared receipts => exact .inl ⟨receipts, rfl⟩
    | _ => exact .inr rfl
  refine holds_call (fun s' ⟨o, heffect⟩ => ?_) fun a s' ⟨o, heffect⟩ => ?_
  · rcases hcases o with ⟨receipts, heq⟩ | heq
    · cases (Prod.mk.inj (heq.symm.trans heffect)).1
    · rcases finish_cases (heq.symm.trans heffect) with ⟨rfl, -⟩ | ⟨rfl, -⟩
      · exact hE
      · exact hraised
  · rcases hcases o with ⟨receipts, heq⟩ | heq
    · obtain ⟨ha, rfl⟩ := Prod.mk.inj (heq.symm.trans heffect)
      exact Option.some.inj ha ▸ h receipts
    · rcases finish_cases (heq.symm.trans heffect) with ⟨-, hnone⟩ | ⟨rfl, hsome⟩
      · cases hnone
      · exact hsome a rfl ▸ h ⟨[], true⟩

end Palimpsest.Runtime
