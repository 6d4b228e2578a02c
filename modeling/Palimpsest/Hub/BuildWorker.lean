import Mathlib.Data.List.Basic
import Mathlib.Logic.Function.Basic

/-!
# The build worker of the Hub

`services/builds.py`: processes that take queued builds (`_claim`), run a guest for them,
publish what it made and clean up (`process_one_hub_build`), and that reconcile what
interrupted workers left behind (`fail_interrupted_builds`).

All that one build is about, its row, its private tree, its builder and its guest, is
`Palimpsest.Hub.Builds.Build`, and `Palimpsest.Hub.Builds.work` is what a worker does to the
build that it has claimed. A transaction of `process_one_hub_build` locks its row and is one
step. `fail_interrupted_builds` works on rows that it has read before, without a lock, and
writes the columns that it has changed (`Palimpsest.Hub.Builds.Row.merge`).
-/

namespace Palimpsest.Hub.Builds

/-- `PalimpsestHubBuild.status` -/
inductive Status
  | queued
  | building
  | complete
  | error
  deriving DecidableEq

/-- `PalimpsestHubBuild.error_code` -/
inductive ErrorCode
  | cleanupFailed
  | buildFailed
  | workerInterrupted
  deriving DecidableEq

/-- `PalimpsestHubBuild`, as far as workers write it. An owner is a worker process. -/
structure Row where
  status : Status := .queued
  leaseOwner : Option ℕ := none
  errorCode : Option ErrorCode := none
  outputDigest : Option String := none
  deriving DecidableEq

/-- The process group of a builder: there is none, it has not yet written `builder.pid`, or it
has. -/
inductive Builder
  | none
  | unmarked
  | marked
  deriving DecidableEq

/-- What there is of one build. The last two fields record who has claimed it, and who has
committed an output for it. -/
structure Build where
  row : Row := {}
  hasTree : Bool := false
  builder : Builder := .none
  /-- A guest was created, and no cleanup has verified since that it is gone. -/
  hasGuest : Bool := false
  claims : List ℕ := []
  outputs : List ℕ := []
  deriving DecidableEq

/-! ### Working on a claimed build -/

/-- Where a worker is in `process_one_hub_build`. -/
inductive Stage
  | claimed
  | created
  /-- The input manifest is written. -/
  | prepared
  /-- The builder has been started. -/
  | running
  | built (digest : String)
  | published
  /-- Published, and the builder is stopped. -/
  | stopped
  /-- In the handler, before `_stop_interrupted_builder`. -/
  | stopping
  /-- In the handler, before `_cleanup_guest`. -/
  | reclaiming
  /-- In the handler, before the row is written. -/
  | recording (created failed : Bool)
  /-- In the `finally` clause, before the tree is removed. -/
  | removing
  /-- The tree could not be removed. -/
  | scratch
  deriving DecidableEq

/-- How a cleanup operation ends. -/
inductive Verdict
  | done
  /-- `BuildCleanupError` -/
  | cleanupError
  | otherError
  deriving DecidableEq

/-- How a commit ends. -/
inductive Commit
  | committed
  /-- The commit takes effect, and raises. -/
  | ambiguous
  | refused
  deriving DecidableEq

/-- What a process does next. -/
inductive Move
  | start
  | die
  | claim (id : ℕ)
  | mkdir (ok : Bool)
  | prepare (ok : Bool)
  /-- `_run_guest_build` starts the builder, or raises before. -/
  | spawn (ok : Bool)
  | runReturns (digest : String)
  | runRaises
  | publish (c : Commit)
  /-- `_stop_interrupted_builder` -/
  | stop (v : Verdict)
  /-- `_cleanup_guest` -/
  | cleanup (v : Verdict)
  | record
  /-- `shutil.rmtree` -/
  | remove (ok : Bool)
  | reconcile
  | list
  | look
  | commit (ok : Bool)
  deriving DecidableEq

/-- Where a worker is after a move. -/
inductive Outcome
  | stage (st : Stage)
  | idle
  | gone
  deriving DecidableEq

namespace Build

variable (b : Build)

/-- The leader of the builder's group is gone: it has been waited for, or has died with its
worker. The rest of a group that has written its marker may live on. -/
def leaderGone : Build := { b with builder := if b.builder = .unmarked then .none else b.builder }

/-- `_stop_interrupted_builder` has returned: it finds the group by its marker only. -/
def groupStopped : Build := { b with builder := if b.builder = .marked then .none else b.builder }

/-- `_publish_output` has committed. -/
def withOutput (owner : ℕ) (digest : String) : Build :=
  { b with
    row := { b.row with status := .complete, leaseOwner := none, outputDigest := some digest }
    outputs := b.outputs ++ [owner] }

/-- The transaction of the handler. -/
def recorded (owner : ℕ) (failed : Bool) : Build :=
  if b.row.status = .building ∧ b.row.leaseOwner = some owner ∨
      b.row.status = .complete ∧ failed then
    { b with
      row := { b.row with
        status := if b.row.status = .complete then .complete else .error
        leaseOwner := if b.row.status = .complete then b.row.leaseOwner else none
        errorCode := some (if failed then .cleanupFailed else .buildFailed) } }
  else b

/-- The transaction after a tree could not be removed. -/
def scratchFailed : Build :=
  { b with
    row := { b.row with
      status := if b.row.status = .complete then .complete else .error
      errorCode := some .cleanupFailed } }

end Build

/-- The `except` clause: what has been created is cleaned up first, unless that has failed. -/
def handler (created failed : Bool) : Outcome :=
  .stage (if created ∧ ¬failed then .stopping else .recording created failed)

/-- `_publish_output` and `process_one_hub_build`, for the worker that has claimed the build. -/
def work (owner : ℕ) (b : Build) : Stage → Move → Build × Outcome
  | .running, .die => (b.leaderGone, .gone)
  | _, .die => (b, .gone)
  | .claimed, .mkdir ok =>
    if ok ∧ ¬b.hasTree then ({ b with hasTree := true }, .stage .created)
    else (b, handler false false)
  | .created, .prepare ok => (b, if ok then .stage .prepared else handler true false)
  | .prepared, .spawn ok =>
    if ok then ({ b with builder := .unmarked }, .stage .running) else (b, handler true false)
  | .running, .runReturns digest => (b.leaderGone, .stage (.built digest))
  | .running, .runRaises => (b.leaderGone, handler true false)
  | .built digest, .publish c =>
    if c ≠ .refused ∧ b.row.status = .building ∧ b.row.leaseOwner = some owner then
      (b.withOutput owner digest, if c = .committed then .stage .published else handler true false)
    else (b, handler true false)
  | .published, .stop .done => (b.groupStopped, .stage .stopped)
  | .published, .stop v => (b, handler true (v = .cleanupError))
  | .stopped, .cleanup v =>
    if v = .done ∧ b.hasTree then ({ b with hasGuest := false }, .stage .removing)
    else (b, handler true (v ≠ .otherError))
  | .stopping, .stop .done => (b.groupStopped, .stage .reclaiming)
  | .stopping, .stop .cleanupError => (b, .stage (.recording true true))
  | .stopping, .stop .otherError => (b, .gone)
  | .reclaiming, .cleanup v =>
    if v = .done ∧ b.hasTree then ({ b with hasGuest := false }, .stage (.recording true false))
    else (b, if v = .otherError then .gone else .stage (.recording true true))
  | .recording created failed, .record =>
    (b.recorded owner failed,
      if failed then .gone else if created then .stage .removing else .idle)
  | .removing, .remove ok =>
    if ok ∧ b.hasTree then ({ b with hasTree := false }, .idle) else (b, .stage .scratch)
  | .scratch, .record => (b.scratchFailed, .gone)
  | st, _ => (b, .stage st)

/-! ### Reconciling -/

/-- A row as a session holds it: as it was read, and as it has been changed since. -/
structure Job where
  id : ℕ
  loaded : Row
  now : Row
  deriving DecidableEq

/-- The row after the columns that a session has changed are written. -/
def Row.merge (loaded now current : Row) : Row where
  status := if now.status = loaded.status then current.status else now.status
  leaseOwner := if now.leaseOwner = loaded.leaseOwner then current.leaseOwner else now.leaseOwner
  errorCode := if now.errorCode = loaded.errorCode then current.errorCode else now.errorCode
  outputDigest :=
    if now.outputDigest = loaded.outputDigest then current.outputDigest else now.outputDigest

/-- A job whose cleanup is done, or that needed none. -/
def Row.settled (row : Row) : Row :=
  if row.status = .complete then { row with errorCode := none }
  else if row.status = .building ∨ row.errorCode = some .cleanupFailed then
    { row with status := .error, errorCode := some .workerInterrupted, leaseOwner := none }
  else row

/-- A job whose cleanup has failed. -/
def Row.failed (row : Row) : Row :=
  { row with
    errorCode := some .cleanupFailed
    status := if row.status = .complete then .complete else .error
    leaseOwner := none }

/-- Where `fail_interrupted_builds` is. -/
inductive ReconcileStage
  | selected
  /-- In the loop over the directory entries. -/
  | scanning (entries : List ℕ)
  /-- At the head of the loop over the jobs. -/
  | next
  | stopping
  | reclaiming
  | removing
  /-- The cleanup of the job has failed. -/
  | failing
  deriving DecidableEq

/-- The variables of `fail_interrupted_builds`: the jobs that are dealt with and those that are
not, with the current one first. -/
structure Reconciliation where
  done : List Job
  todo : List Job
  stage : ReconcileStage
  deriving DecidableEq

/-! ### Processes -/

/-- Where a process is. -/
inductive Proc
  | waiting
  | idle
  | working (id : ℕ) (stage : Stage)
  | reconciling (r : Reconciliation)
  | gone
  deriving DecidableEq

namespace Proc

def isAlive : Proc → Bool
  | waiting | gone => false
  | _ => true

def isReconciling : Proc → Bool
  | reconciling _ => true
  | _ => false

/-- Where a worker on a build is after a move. -/
def after (id : ℕ) : Outcome → Proc
  | .stage st => working id st
  | .idle => idle
  | .gone => gone

end Proc

/-- All builds and processes. Builds are numbered in the order of their submission. -/
structure World where
  submitted : ℕ := 0
  builds : ℕ → Build := fun _ => {}
  procs : ℕ → Proc := fun _ => .waiting

/-- Something happens: a client submits a build, a builder writes its marker, creates a guest
or ends, or a process moves. -/
inductive Event
  | submit
  | mark (id : ℕ)
  | guest (id : ℕ)
  | exits (id : ℕ)
  | proc (p : ℕ) (m : Move)
  deriving DecidableEq

namespace World

variable (s : World)

def setProc (p : ℕ) (x : Proc) : World := { s with procs := Function.update s.procs p x }

def setBuild (id : ℕ) (b : Build) : World := { s with builds := Function.update s.builds id b }

/-- The session of a reconciling process commits these jobs. -/
def flush (jobs : List Job) : World :=
  { s with builds := fun id =>
      match jobs.find? (·.id = id) with
      | some j => { s.builds id with row := j.loaded.merge j.now (s.builds id).row }
      | none => s.builds id }

/-- The rows that `fail_interrupted_builds` selects. -/
def interrupted : List Job :=
  ((List.range s.submitted).filter fun id =>
    (s.builds id).row.status = .building ∨ (s.builds id).row.errorCode = some .cleanupFailed).map
      fun id => ⟨id, (s.builds id).row, (s.builds id).row⟩

/-- `fail_interrupted_builds` -/
def reconcile (p : ℕ) (r : Reconciliation) : Move → World
  | .die => s.setProc p .gone
  | .list =>
    match r.stage with
    | .selected =>
      s.setProc p (.reconciling { r with
        stage := .scanning ((List.range s.submitted).filter fun id => (s.builds id).hasTree) })
    | _ => s
  | .look =>
    match r.stage, r.todo with
    | .scanning [], _ => s.setProc p (.reconciling { r with stage := .next })
    | .scanning (e :: entries), _ =>
      let row := (s.builds e).row
      if r.todo.any (·.id = e) then
        s.setProc p (.reconciling { r with stage := .scanning entries })
      else if row.status = .complete ∨ row.status = .error then
        s.setProc p (.reconciling { r with
          todo := r.todo ++ [⟨e, row, row⟩]
          stage := .scanning entries })
      else s.setProc p .gone
    -- Without a tree only the row is settled; one that says the cleanup failed stops the process.
    | .next, j :: todo =>
      if (s.builds j.id).hasTree then s.setProc p (.reconciling { r with stage := .stopping })
      else if j.now.errorCode = some .cleanupFailed then s.setProc p .gone
      else
        s.setProc p (.reconciling { r with
          done := r.done ++ [{ j with now := j.now.settled }]
          todo := todo })
    | _, _ => s
  | .stop v =>
    match r.stage, r.todo, v with
    | .stopping, j :: _, .done =>
      (s.setBuild j.id (s.builds j.id).groupStopped).setProc p
        (.reconciling { r with stage := .reclaiming })
    | .stopping, _, .cleanupError => s.setProc p (.reconciling { r with stage := .failing })
    | .stopping, _, .otherError => s.setProc p .gone
    | _, _, _ => s
  | .cleanup v =>
    match r.stage, r.todo with
    | .reclaiming, j :: _ =>
      if v = .done ∧ (s.builds j.id).hasTree then
        (s.setBuild j.id { s.builds j.id with hasGuest := false }).setProc p
          (.reconciling { r with stage := .removing })
      else if v = .otherError then s.setProc p .gone
      else s.setProc p (.reconciling { r with stage := .failing })
    | _, _ => s
  | .remove ok =>
    match r.stage, r.todo with
    | .removing, j :: todo =>
      if ok ∧ (s.builds j.id).hasTree then
        (s.setBuild j.id { s.builds j.id with hasTree := false }).setProc p
          (.reconciling ⟨r.done ++ [{ j with now := j.now.settled }], todo, .next⟩)
      else s.setProc p (.reconciling { r with stage := .failing })
    | _, _ => s
  | .commit ok =>
    match r.stage, r.todo with
    | .next, [] => if ok then (s.flush r.done).setProc p .idle else s.setProc p .gone
    -- `except`: the row is written as failed, together with what is settled, and the error raised.
    | .failing, j :: _ =>
      if ok then (s.flush (r.done ++ [{ j with now := j.now.failed }])).setProc p .gone
      else s.setProc p .gone
    | _, _ => s
  | _ => s

/-- `_claim`: a queued row is locked and taken. -/
def claim (p id : ℕ) : World :=
  let b := s.builds id
  if id < s.submitted ∧ b.row.status = .queued then
    (s.setBuild id { b with
      row := { b.row with status := .building, leaseOwner := some p }
      claims := b.claims ++ [p] }).setProc p (.working id .claimed)
  else s

/-- What happens at an event; an event that cannot happen changes nothing. -/
def step : Event → World
  | .submit => { s with submitted := s.submitted + 1 }
  | .mark id =>
    -- A builder whose worker is gone finds that out before it writes its marker.
    if (s.builds id).builder = .unmarked then
      s.setBuild id { s.builds id with builder := .marked }
    else s
  | .guest id =>
    if (s.builds id).builder = .marked then s.setBuild id { s.builds id with hasGuest := true }
    else s
  | .exits id =>
    if (s.builds id).builder = .marked then s.setBuild id { s.builds id with builder := .none }
    else s
  | .proc p m =>
    match s.procs p with
    | .waiting => if m = .start then s.setProc p .idle else s
    | .gone => s
    | .working id st =>
      (s.setBuild id (work p (s.builds id) st m).1).setProc p
        (Proc.after id (work p (s.builds id) st m).2)
    | .reconciling r => s.reconcile p r m
    | .idle =>
      match m with
      | .die => s.setProc p .gone
      | .claim id => s.claim p id
      | .reconcile => s.setProc p (.reconciling ⟨[], s.interrupted, .selected⟩)
      | _ => s

end World

/-- The world after these events. -/
def run (events : List Event) : World := events.foldl World.step {}

end Palimpsest.Hub.Builds
