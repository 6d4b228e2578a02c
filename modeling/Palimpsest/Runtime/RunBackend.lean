import Mathlib.Logic.Function.Basic
import Palimpsest.Runtime.ProjectRuntime

/-!
# The backend of a project

The runs of the backend by name, and the file of the ledger (`State`), and how they answer the
calls (`respond`). Each call goes as the next outcome of a list says (`World`): it succeeds, or
raises before it takes effect or after; a start can end in any status, and raise all the same.

An existing run that is mutated under an expected identity is mutated only if it has it. Runs
get identities that were never used.

Besides, the state says which runs were stopped or removed, which volumes were prepared, whether
a write of the ledger raised, which run the last start created, and what the removals that expect no
identity have left (`State.unbound`).
-/

namespace Palimpsest.Runtime

open Calls

/-- How a call goes. -/
inductive Outcome
  | done
  /-- It raises, after it took effect or before. -/
  | raised (isDone : Bool)
  /-- The run that is started ends up so, and perhaps the call raises. -/
  | started (backend : Backend) (status : Status) (raises : Bool)
  /-- These volumes are prepared. -/
  | prepared (receipts : Receipts)
  /-- A service should have this digest. -/
  | digest (value : String)
  /-- A port is in use. -/
  | busy

/-- Whether the service records of a ledger have a run. -/
def records (services : Services) (order : List String) (name : String)
    (identity : RuntimeIdentity) : Bool :=
  order.any fun service => (services.lookup service).any fun managed =>
    managed.runName = name && managed.identity = identity

/-- The backend, and the file of the ledger. -/
structure State where
  runs : String → Option Run
  /-- The run IDs from here on were never used. -/
  fresh : RunId
  stored : Option ProjectState
  /-- The runs that were stopped or removed. -/
  touched : List RunId
  /-- The volumes that were prepared, and for which services. -/
  receipts : List ManagedVolume
  preparedFor : List ServicePlan
  /-- Whether a write of the ledger raised. -/
  isUnwritten : Bool
  /-- The run that the last start created, if it created one. -/
  launched : Option RunId
  /-- The removals that expect no identity, with the run that each of them left. -/
  unbound : List (String × Option RuntimeIdentity)

namespace State

variable (s : State)

def setRun (name : String) (run : Option Run) : State :=
  { s with runs := Function.update s.runs name run }

/-- A removal that expects no identity is noted, with the run that it leaves. -/
def noteRemoval (name : String) (expected left : Option RuntimeIdentity) : State :=
  if expected.isNone then { s with unbound := s.unbound ++ [(name, left)] } else s

/-- What a removal notes changes nothing else. -/
theorem noteRemoval_eq (name : String) (expected left : Option RuntimeIdentity) :
    ∃ unbound, s.noteRemoval name expected left = { s with unbound := unbound } ∧
      unbound = if expected.isNone then s.unbound ++ [(name, left)] else s.unbound := by
  refine ⟨_, ?_, rfl⟩
  rw [State.noteRemoval]
  split_ifs
  · rfl
  · rfl

@[simp]
theorem noteRemoval_runs (name : String) (expected left : Option RuntimeIdentity) :
    (s.noteRemoval name expected left).runs = s.runs := by
  obtain ⟨_, heq, -⟩ := s.noteRemoval_eq name expected left
  rw [heq]

/-- Whether the file of the ledger has a run. -/
def isRecorded (name : String) (identity : RuntimeIdentity) : Bool :=
  s.stored.any fun record => records record.services record.order name identity

end State

/-- Whether a run is the expected one. -/
def isExpected (expected : Option RuntimeIdentity) (run : Run) : Bool :=
  expected.all fun identity => run.identity = identity

/-- What a call that raises or not does. -/
def finish {α : Type} (o : Outcome) (a : α) (before after : State) : Option α × State :=
  match o with
  | .raised isDone => (none, if isDone then after else before)
  | .started _ _ true => (none, after)
  | _ => (some a, after)

/-- The backend and the status of a run that is started. -/
def startedRun (o : Outcome) : Backend × Status :=
  match o with
  | .started backend status _ => (backend, status)
  | _ => (.kvm, .running)

/-- A run is started. A new one needs a name that is free, an existing one its identity. -/
def respondStart (o : Outcome) (plan : ServicePlan) (expected : Option RuntimeIdentity)
    (s : State) : Option Unit × State :=
  match plan.action, s.runs plan.runName with
  | .start, some run =>
    if isExpected expected run then
      finish o () s (s.setRun plan.runName (some { run with status := (startedRun o).2 }))
    else (none, s)
  | .start, none => (none, s)
  | _, some _ => (none, s)
  | _, none =>
    finish o () s { s.setRun plan.runName (some ⟨s.fresh, (startedRun o).1, (startedRun o).2⟩) with
      fresh := s.fresh + 1
      launched := some s.fresh }

/-- A run is stopped. -/
def respondStop (o : Outcome) (name : String) (expected : Option RuntimeIdentity) (s : State) :
    Option Unit × State :=
  match s.runs name with
  | some run =>
    if isExpected expected run then
      finish o () s { s.setRun name (some { run with status := .stopped }) with
        touched := run.runId :: s.touched }
    else (none, s)
  | none => (none, s)

/-- A run is removed, or what is left of one that is gone. -/
def respondRemove (o : Outcome) (name : String) (expected : Option RuntimeIdentity) (s : State) :
    Option Unit × State :=
  match s.runs name with
  | some run =>
    if isExpected expected run then
      finish o () (s.noteRemoval name expected (some run.identity))
        ({ s.setRun name none with touched := run.runId :: s.touched }.noteRemoval name expected
          none)
    else (none, s)
  | none => finish o () (s.noteRemoval name expected none) (s.noteRemoval name expected none)

/-- How a call is answered, and the state after it. -/
def respond (o : Outcome) (project : Project) (s : State) : (c : Call) → Option (Answer c) × State
  | .readState =>
    if s.stored.all fun record => record.isValid project then finish o s.stored s s else (none, s)
  | .writeState record =>
    match o with
    | .raised isDone =>
      (none, { s with
        stored := if isDone then some record else s.stored
        isUnwritten := true })
    | _ => (some (), { s with stored := some record })
  | .inspect name => finish o (s.runs name) s s
  | .desiredDigest _ =>
    match o with
    | .digest value => (some value, s)
    | _ => (none, s)
  | .portAvailable _ _ =>
    match o with
    | .busy => (some false, s)
    | _ => finish o true s s
  | .prepare plans =>
    match o with
    | .prepared receipts =>
      (some receipts, { s with receipts := receipts.volumes, preparedFor := plans })
    | _ => finish o ⟨[], true⟩ s { s with receipts := [], preparedFor := plans }
  | .start plan expected => respondStart o plan expected { s with launched := none }
  | .stop name expected => respondStop o name expected s
  | .remove name expected => respondRemove o name expected s
  | .resolve _ | .preflight _ | .preflightDown _ _ | .removeVolume _ => finish o () s s

/-- The state, and how the calls from now on go. -/
structure World where
  state : State
  outcomes : List Outcome

/-- The next call is answered. -/
def answer (project : Project) (c : Call) (w : World) : Option (Answer c) × World :=
  let answered := respond (w.outcomes.headD .done) project w.state c
  (answered.1, ⟨answered.2, w.outcomes.tail⟩)

end Palimpsest.Runtime
