import Palimpsest.Lib.Chunks
import Palimpsest.Monitor.ExecControl

/-!
# A command is executed once

What the worker takes was submitted, is taken once, and is none that was acknowledged; a
submission repeated changes nothing; and what a client reads by polling, each time from where
it left off, is what the worker appended. Everything rests on the sequence number: a job has
the number the mailbox waits for, and the number moves on when the job is acknowledged.
-/

namespace Palimpsest.Monitor

open Control Json

/-! ### What an operation can do -/

/-- **The effect of an operation.** Every operation either raises, or has one of these
effects. -/
inductive Effect (c : MonitorExecControl) : Operation → Answer → MonitorExecControl → Prop
  | raised (op : Operation) (category : String) : Effect c op (.raised category) c
  | status : Effect c .status (.status c.status) c
  | markReady : Effect c .markReady .nothing c.markReady
  /-- The job, its output and the number waited for stay; a job not completed may be lost. -/
  | closed (reason : String) (state : ExecState) (jobState : Option JobState)
      (text : Option String)
      (h : jobState = c.jobState ∨
        (c.jobState = some .queued ∨ c.jobState = some .running) ∧
          jobState = some .controlLost) :
      Effect c (.closeToExec reason) .nothing
        { c with state := state, jobState := jobState, reason := text }
  | polled (j : MonitorExecJob) (stdoutOffset stderrOffset : ℤ) (op : Operation)
      (hjob : c.job = some j)
      (hop : op = .poll j.sequence j.token stdoutOffset stderrOffset ∨
        op = .submit j.sequence j.token j.argv j.timeoutMs)
      (hstdout : 0 ≤ stdoutOffset ∧ stdoutOffset ≤ c.stdout.length)
      (hstderr : 0 ≤ stderrOffset ∧ stderrOffset ≤ c.stderr.length) :
      Effect c op (.poll (c.pollOf j stdoutOffset stderrOffset)) c
  | started (j : MonitorExecJob) (hjob : c.job = none) (hsequence : j.sequence = c.next) :
      Effect c (.submit j.sequence j.token j.argv j.timeoutMs)
        (.poll (MonitorExecControl.pollOf { c with job := some j, jobState := some .queued } j 0 0))
        { c with job := some j, jobState := some .queued }
  | reacknowledged (sequence : ℤ) (token : String) (h : c.lastAck = some (sequence, token)) :
      Effect c (.acknowledge sequence token) (.status c.status) c
  | acknowledged (j : MonitorExecJob) (hjob : c.job = some j)
      (hstate : c.jobState = some .completed) (s : MonitorExecStatus) :
      Effect c (.acknowledge j.sequence j.token) (.status s)
        { c with
          lastAck := some (j.sequence, j.token), next := c.next + 1, job := none, jobState := none
          terminal := none, reason := none, stdout := [], stderr := [] }
  | idle : Effect c .takeExec (.job none) c
  | taken (j : MonitorExecJob) (hjob : c.job = some j) (hstate : c.jobState = some .queued) :
      Effect c .takeExec (.job (some j)) { c with jobState := some .running }
  | appended (j : MonitorExecJob) (stream : Stream) (offset : ℤ) (data : List UInt8)
      (hjob : c.job = some j) (hstate : c.jobState = some .running)
      (hroom : c.stdout.length + c.stderr.length + data.length ≤ maxExecOutput) :
      Effect c (.appendOutput j stream.text offset data) .nothing (c.extend data stream)
  | completed (j : MonitorExecJob) (terminal : Option Value) (stdoutBytes stderrBytes : ℤ)
      (reason : String) (hjob : c.job = some j) (hstate : c.jobState = some .running) :
      Effect c (.complete j terminal stdoutBytes stderrBytes reason) .nothing
        { c with
          terminal := MonitorExecControl.resultOf terminal, reason := some reason
          jobState := some .completed }

namespace MonitorExecControl

variable {c : MonitorExecControl}

theorem pollJob_cases (c : MonitorExecControl) (j : MonitorExecJob)
    (stdoutOffset stderrOffset : ℤ) :
    (c.pollJob j stdoutOffset stderrOffset = .error "invalid-offset") ∨
      c.pollJob j stdoutOffset stderrOffset = .ok (c.pollOf j stdoutOffset stderrOffset) ∧
      (0 ≤ stdoutOffset ∧ stdoutOffset ≤ c.stdout.length) ∧
      (0 ≤ stderrOffset ∧ stderrOffset ≤ c.stderr.length) := by
  rw [pollJob]
  split
  · next h => exact .inr ⟨rfl, h⟩
  · exact .inl rfl

theorem require_cases (c : MonitorExecControl) (sequence : ℤ) (token : String) :
    c.require sequence token = .error "unknown-job" ∨
      ∃ j, c.require sequence token = .ok j ∧ c.job = some j ∧ j.sequence = sequence ∧
        j.token = token := by
  rw [require]
  split
  · next j hjob =>
    split
    · next h =>
      obtain ⟨rfl, rfl⟩ := Prod.mk.inj h
      exact .inr ⟨j, rfl, hjob, rfl, rfl⟩
    · exact .inl rfl
  · exact .inl rfl

theorem validateExecRequest_eq {argv result : List String} {timeoutMs : ℤ}
    (h : validateExecRequest argv timeoutMs = .ok result) : result = argv := by
  rw [validateExecRequest] at h
  split at h
  · next checked _ hchecked _ =>
    rw [validateExecArgv] at hchecked
    grind
  · cases h

theorem effect_submit (c : MonitorExecControl) (sequence : ℤ) (token : String)
    (argv : List String) (timeoutMs : ℤ)
    (hempty : c.job = none → c.stdout = [] ∧ c.stderr = []) :
    Effect c (.submit sequence token argv timeoutMs)
      (answer .poll (c.submit sequence token argv timeoutMs).1)
      (c.submit sequence token argv timeoutMs).2 := by
  rw [submit]
  split
  · exact .raised _ _
  · exact .raised _ _
  next argv' _ hargv =>
  obtain rfl := validateExecRequest_eq hargv
  dsimp only
  split
  · exact .raised _ _
  next hsequence =>
  -- There is a job: its own submission polls, and any other is refused.
  split
  · next j hjob =>
    split
    · exact .raised _ _
    · next hsame =>
      obtain rfl := not_not.mp hsame
      rcases c.pollJob_cases ⟨sequence, token, argv', timeoutMs⟩ 0 0 with h | ⟨h, h₁, h₂⟩
      · rw [h]
        exact .raised _ _
      · rw [h]
        exact .polled _ 0 0 _ hjob (.inr rfl) h₁ h₂
  · next hjob =>
    split
    · exact .raised _ _
    · obtain ⟨hstdout, hstderr⟩ := hempty hjob
      rw [pollJob, if_pos (by simp [hstdout, hstderr])]
      exact .started ⟨sequence, token, argv', timeoutMs⟩ hjob (not_not.mp hsequence)

theorem effect_closeToExec (c : MonitorExecControl) (reason : String) :
    Effect c (.closeToExec reason) (answer (fun _ => .nothing) (c.closeToExec reason).1)
      (c.closeToExec reason).2 := by
  rw [closeToExec]
  split
  · exact .raised _ _
  next state _ =>
  dsimp only
  split
  · next h =>
    split
    · exact .closed reason _ _ _ (.inr ⟨h.2, rfl⟩)
    · exact .closed reason _ _ _ (.inr ⟨h.2, rfl⟩)
  · split
    · exact .closed reason _ _ _ (.inl rfl)
    · exact .closed reason c.state c.jobState c.reason (.inl rfl)

theorem effect_acknowledge (c : MonitorExecControl) (sequence : ℤ) (token : String) :
    Effect c (.acknowledge sequence token) (answer .status (c.acknowledge sequence token).1)
      (c.acknowledge sequence token).2 := by
  rw [acknowledge]
  split
  · exact .raised _ _
  split
  · next h => exact .reacknowledged _ _ h
  rcases c.require_cases sequence token with h | ⟨j, h, hjob, rfl, rfl⟩
  · rw [h]
    exact .raised _ _
  · rw [h]
    dsimp only
    split
    · exact .raised _ _
    · next hstate => exact .acknowledged j hjob (not_not.mp hstate) _

theorem effect_poll (c : MonitorExecControl) (sequence : ℤ) (token : String)
    (stdoutOffset stderrOffset : ℤ) :
    Effect c (.poll sequence token stdoutOffset stderrOffset)
      (answer .poll (c.poll sequence token stdoutOffset stderrOffset)) c := by
  rw [poll]
  cases identity sequence token with
  | error category => exact .raised _ _
  | ok u =>
    rcases c.require_cases sequence token with h | ⟨j, h, hjob, rfl, rfl⟩
    · rw [h]
      exact .raised _ _
    · rw [h]
      show Effect c _ (answer .poll (c.pollJob j stdoutOffset stderrOffset)) c
      rcases c.pollJob_cases j stdoutOffset stderrOffset with h | ⟨h, h₁, h₂⟩
      · rw [h]
        exact .raised _ _
      · rw [h]
        exact .polled j _ _ _ hjob (.inl rfl) h₁ h₂

theorem effect_takeExec (c : MonitorExecControl) (hjob : c.job = none ↔ c.jobState = none) :
    Effect c .takeExec (.job c.takeExec.1) c.takeExec.2 := by
  rw [takeExec]
  split
  · exact .idle
  · next h =>
    obtain ⟨-, hstate⟩ := not_or.mp h
    have hstate := not_not.mp hstate
    have hsome : c.job ≠ none := fun hnone => by
      rw [hjob.mp hnone] at hstate
      cases hstate
    obtain ⟨j, hj⟩ := Option.ne_none_iff_exists'.mp hsome
    have htaken := Effect.taken j hj hstate
    rwa [← hj] at htaken

theorem effect_appendOutput (c : MonitorExecControl) (job : MonitorExecJob) (stream : String)
    (offset : ℤ) (data : List UInt8) :
    Effect c (.appendOutput job stream offset data)
      (answer (fun _ => .nothing) (c.appendOutput job stream offset data).1)
      (c.appendOutput job stream offset data).2 := by
  rw [appendOutput]
  split
  · exact .raised _ _
  next s hs =>
  have htext : stream = s.text := by
    rw [streamOf] at hs
    grind
  split
  · exact .raised _ _
  next hjob =>
  split
  · exact .raised _ _
  next hroom =>
  obtain ⟨hjob, hstate⟩ := not_or.mp hjob
  rw [htext]
  exact .appended job s offset data (not_not.mp hjob) (not_not.mp hstate) (by omega)

theorem effect_complete (c : MonitorExecControl) (job : MonitorExecJob) (terminal : Option Value)
    (stdoutBytes stderrBytes : ℤ) (reason : String) :
    Effect c (.complete job terminal stdoutBytes stderrBytes reason)
      (answer (fun _ => .nothing) (c.complete job terminal stdoutBytes stderrBytes reason).1)
      (c.complete job terminal stdoutBytes stderrBytes reason).2 := by
  rw [complete]
  split
  · exact .raised _ _
  split
  · exact .raised _ _
  · next h =>
    simp only [not_or, not_not] at h
    exact .completed job terminal _ _ reason h.1 h.2.1

/-- **Every operation has one of the effects**, on a mailbox whose fields agree on whether
there is a job. -/
theorem effect_perform (c : MonitorExecControl) (op : Operation)
    (hjob : c.job = none ↔ c.jobState = none)
    (hempty : c.job = none → c.stdout = [] ∧ c.stderr = []) :
    Effect c op (c.perform op).1 (c.perform op).2 := by
  cases op with
  | status => exact .status
  | markReady => exact .markReady
  | closeToExec reason => exact c.effect_closeToExec reason
  | submit sequence token argv timeoutMs =>
    exact c.effect_submit sequence token argv timeoutMs hempty
  | poll sequence token stdoutOffset stderrOffset =>
    exact c.effect_poll sequence token stdoutOffset stderrOffset
  | acknowledge sequence token => exact c.effect_acknowledge sequence token
  | takeExec => exact c.effect_takeExec hjob
  | appendOutput job stream offset data => exact c.effect_appendOutput job stream offset data
  | complete job terminal stdoutBytes stderrBytes reason =>
    exact c.effect_complete job terminal stdoutBytes stderrBytes reason

end MonitorExecControl

/-! ### What a record tells -/

namespace MonitorExecPoll

def offset (p : MonitorExecPoll) : Stream → ℤ
  | .stdout => p.stdoutOffset
  | .stderr => p.stderrOffset

/-- The bytes a client reads off the answer. -/
def chunk (p : MonitorExecPoll) : Stream → List UInt8
  | .stdout => fromHex p.stdoutHex
  | .stderr => fromHex p.stderrHex

def size (p : MonitorExecPoll) : Stream → ℕ
  | .stdout => p.stdoutSize
  | .stderr => p.stderrSize

end MonitorExecPoll

namespace Entry

/-- The job was submitted and the submission was accepted. -/
def Admits (e : Entry) (j : MonitorExecJob) : Prop :=
  e.operation = .submit j.sequence j.token j.argv j.timeoutMs ∧ ∃ p, e.answer = .poll p

/-- The worker took the job. -/
def Takes (e : Entry) (j : MonitorExecJob) : Prop := e.answer = .job (some j)

/-- A result was acknowledged. -/
def Acknowledges (e : Entry) (sequence : ℤ) (token : String) : Prop :=
  e.operation = .acknowledge sequence token ∧ ∃ s, e.answer = .status s

/-- What was appended to an output of a job. -/
def appended (stream : Stream) (sequence : ℤ) (token : String) (e : Entry) : List UInt8 :=
  match e.operation, e.answer with
  | .appendOutput job name _ data, .nothing =>
    if name = stream.text ∧ job.sequence = sequence ∧ job.token = token then data else []
  | _, _ => []

end Entry

/-- All that was appended to an output of a job, in order. -/
def appended (stream : Stream) (sequence : ℤ) (token : String) (log : List Entry) : List UInt8 :=
  log.flatMap (Entry.appended stream sequence token)

@[simp]
theorem appended_concat (stream : Stream) (sequence : ℤ) (token : String) (log : List Entry)
    (e : Entry) : appended stream sequence token (log ++ [e]) =
      appended stream sequence token log ++ e.appended stream sequence token := by
  simp [appended]

theorem appended_prefix (stream : Stream) (sequence : ℤ) (token : String)
    (before after : List Entry) :
    appended stream sequence token before <+: appended stream sequence token (before ++ after) := by
  rw [appended, appended, List.flatMap_append]
  exact List.prefix_append ..

/-- **What every operation of a run is like**, given the operations before it. -/
structure Faithful (log : List Entry) (e : Entry) : Prop where
  /-- What is taken was submitted, was not taken before and is none that was acknowledged. -/
  once : ∀ j, e.Takes j → (∃ d ∈ log, d.Admits j) ∧
    (∀ d ∈ log, ∀ i, d.Takes i → i.sequence < j.sequence) ∧
    ∀ d ∈ log, ∀ sequence token, d.Acknowledges sequence token → sequence < j.sequence
  /-- To submit what was accepted before changes nothing. -/
  repeated : ∀ sequence token argv timeoutMs,
    e.operation = .submit sequence token argv timeoutMs →
    (∃ d ∈ log, ∃ j, d.Admits j ∧ j.sequence = sequence ∧ j.token = token) → e.after = e.before
  /-- A submission that changes anything starts a job with a new number, where there is
  none. -/
  started : ∀ sequence token argv timeoutMs,
    e.operation = .submit sequence token argv timeoutMs → e.after ≠ e.before →
    e.before.job = none ∧ sequence = e.before.next ∧
      (∀ d ∈ log, ∀ j, d.Admits j → j.sequence < sequence) ∧
      (∀ d ∈ log, ∀ n token, d.Acknowledges n token → n < sequence) ∧
      e.after = { e.before with
        job := some ⟨sequence, token, argv, timeoutMs⟩, jobState := some .queued }
  /-- A job stays until its result is acknowledged. -/
  kept : ∀ j, e.before.job = some j → e.after.job = some j ∨
    e.Acknowledges j.sequence j.token ∧ e.before.jobState = some .completed
  /-- A poll shows a piece of what was appended, and how much that is. -/
  polled : ∀ p, e.answer = .poll p → ∀ stream,
    (0 ≤ p.offset stream ∧ p.offset stream ≤ p.size stream) ∧
      p.size stream = (appended stream p.sequence p.token log).length ∧
      p.chunk stream = ((appended stream p.sequence p.token log).drop
        (p.offset stream).toNat).take maxExecChunk
  bounded : e.after.stdout.length + e.after.stderr.length ≤ maxExecOutput

/-- A job is what was submitted. -/
theorem MonitorExecJob.eq_of_submit {i j : MonitorExecJob}
    (h : Operation.submit j.sequence j.token j.argv j.timeoutMs =
      .submit i.sequence i.token i.argv i.timeoutMs) : j = i := by
  obtain ⟨hsequence, htoken, hargv, htimeout⟩ := Operation.submit.inj h
  cases i
  cases j
  simp_all

/-! ### The invariant -/

/-- The number the mailbox waits for is above all numbers of jobs, but for the job it holds,
whose outputs are what was appended for it. -/
structure Keeps (c : MonitorExecControl) (log : List Entry) : Prop where
  sequence_eq : ∀ j, c.job = some j → j.sequence = c.next
  job_none : c.job = none ↔ c.jobState = none
  cleared : c.job = none → c.stdout = [] ∧ c.stderr = []
  admits : ∀ e ∈ log, ∀ j, e.Admits j → j.sequence < c.next ∨ c.job = some j
  takes : ∀ e ∈ log, ∀ j, e.Takes j →
    j.sequence < c.next ∨ c.job = some j ∧ c.jobState ≠ some .queued
  acknowledges : ∀ e ∈ log, ∀ sequence token, e.Acknowledges sequence token → sequence < c.next
  lastAck_lt : ∀ sequence token, c.lastAck = some (sequence, token) → sequence < c.next
  output : ∀ j, c.job = some j → ∀ stream,
    appended stream j.sequence j.token log = c.output stream
  unused : ∀ stream sequence token, c.next ≤ sequence →
    (∀ j, c.job = some j → j.sequence = sequence → j.token ≠ token) →
    appended stream sequence token log = []
  bounded : c.stdout.length + c.stderr.length ≤ maxExecOutput
  /-- What a poll called complete is over, or is the job there, and got nothing more. -/
  settled : ∀ before e after p, log = before ++ e :: after → e.answer = .poll p →
    p.state = some .completed →
    (p.sequence < c.next ∨ ∃ j, c.job = some j ∧ j.sequence = p.sequence ∧ j.token = p.token ∧
      c.jobState = some .completed) ∧
    ∀ stream, appended stream p.sequence p.token log = appended stream p.sequence p.token before

namespace Keeps

variable {c : MonitorExecControl} {log : List Entry}

theorem init : Keeps .init [] where
  sequence_eq _ hj := by cases hj
  job_none := iff_of_true rfl rfl
  cleared _ := ⟨rfl, rfl⟩
  admits _ he := by cases he
  takes _ he := by cases he
  acknowledges _ he := by cases he
  lastAck_lt _ _ h := by cases h
  output _ hj := by cases hj
  unused _ _ _ _ _ := rfl
  bounded := by simp [MonitorExecControl.init]
  settled before _ _ _ h := by simp at h

/-- The state of the mailbox and of a job under way may change. -/
theorem restate (h : Keeps c log) {d : MonitorExecControl} (hnext : d.next = c.next)
    (hjob : d.job = c.job) (hstdout : d.stdout = c.stdout) (hstderr : d.stderr = c.stderr)
    (hlastAck : d.lastAck = c.lastAck)
    (hstate : d.jobState = c.jobState ∨
      (c.jobState = some .queued ∨ c.jobState = some .running) ∧ d.jobState ≠ none ∧
        d.jobState ≠ some .queued) : Keeps d log where
  sequence_eq := by
    rw [hjob, hnext]
    exact h.sequence_eq
  job_none := by
    have hiff := h.job_none
    rw [hjob]
    rcases hstate with heq | ⟨hold, hne, -⟩
    · rw [heq]
      exact hiff
    · refine iff_of_false (fun hn => ?_) hne
      rcases hold with hold | hold <;> rw [hiff.mp hn] at hold <;> cases hold
  cleared := by
    rw [hjob, hstdout, hstderr]
    exact h.cleared
  admits := by
    rw [hjob, hnext]
    exact h.admits
  takes e he j hj := by
    rw [hjob, hnext]
    refine (h.takes e he j hj).imp_right fun ⟨hc, hq⟩ => ⟨hc, ?_⟩
    rcases hstate with heq | ⟨-, -, hne⟩
    · rwa [heq]
    · exact hne
  acknowledges := by
    rw [hnext]
    exact h.acknowledges
  lastAck_lt := by
    rw [hlastAck, hnext]
    exact h.lastAck_lt
  output j hj stream := by
    rw [hjob] at hj
    rw [h.output j hj stream]
    cases stream
    · exact hstdout.symm
    · exact hstderr.symm
  unused := by
    rw [hjob, hnext]
    exact h.unused
  bounded := by
    rw [hstdout, hstderr]
    exact h.bounded
  settled before e after p heq hp hcompleted := by
    obtain ⟨hover, hsame⟩ := h.settled before e after p heq hp hcompleted
    refine ⟨?_, hsame⟩
    rw [hnext, hjob]
    refine hover.imp_right fun ⟨j, hj, hsequence, htoken, hdone⟩ => ⟨j, hj, hsequence, htoken, ?_⟩
    -- a completed job is not under way, so its state did not change
    rcases hstate with heq | ⟨hold | hold, -⟩
    · rwa [heq]
    · rw [hdone] at hold
      cases hold
    · rw [hdone] at hold
      cases hold

/-- An entry that appends nothing is recorded. -/
theorem record (h : Keeps c log) {e : Entry}
    (hadmits : ∀ j, e.Admits j → j.sequence < c.next ∨ c.job = some j)
    (htakes : ∀ j, e.Takes j → c.job = some j ∧ c.jobState ≠ some .queued)
    (hacknowledges : ∀ sequence token, e.Acknowledges sequence token → sequence < c.next)
    (happended : ∀ stream sequence token, e.appended stream sequence token = [])
    (hpoll : ∀ p, e.answer = .poll p → p.state = some .completed →
      ∃ j, c.job = some j ∧ j.sequence = p.sequence ∧ j.token = p.token ∧
        c.jobState = some .completed) : Keeps c (log ++ [e]) where
  sequence_eq := h.sequence_eq
  job_none := h.job_none
  cleared := h.cleared
  admits d hd := by
    rcases List.mem_append.mp hd with hd | hd
    · exact h.admits d hd
    · rw [List.mem_singleton.mp hd]
      exact hadmits
  takes d hd := by
    rcases List.mem_append.mp hd with hd | hd
    · exact h.takes d hd
    · rw [List.mem_singleton.mp hd]
      exact fun j hj => .inr (htakes j hj)
  acknowledges d hd := by
    rcases List.mem_append.mp hd with hd | hd
    · exact h.acknowledges d hd
    · rw [List.mem_singleton.mp hd]
      exact hacknowledges
  lastAck_lt := h.lastAck_lt
  output j hj stream := by
    rw [appended_concat, happended, List.append_nil]
    exact h.output j hj stream
  unused stream sequence token hle hne := by
    rw [appended_concat, happended, List.append_nil]
    exact h.unused stream sequence token hle hne
  bounded := h.bounded
  settled := by
    -- Nothing is appended, so what was settled at an earlier poll still is.
    have hall : Throughout (fun before e => ∀ p, e.answer = .poll p → p.state = some .completed →
        (p.sequence < c.next ∨ ∃ j, c.job = some j ∧ j.sequence = p.sequence ∧
          j.token = p.token ∧ c.jobState = some .completed) ∧
        ∀ stream, appended stream p.sequence p.token log =
          appended stream p.sequence p.token before) (log ++ [e]) :=
      throughout_concat.mpr ⟨fun before e after heq p => h.settled before e after p heq,
        fun p hp hcompleted => ⟨.inr (hpoll p hp hcompleted), fun _ => rfl⟩⟩
    intro before d after p heq hp hcompleted
    simp only [appended_concat, happended, List.append_nil]
    exact hall before d after heq p hp hcompleted

/-- A job starts where there is none. -/
theorem start (h : Keeps c log) {j : MonitorExecJob} (hjob : c.job = none)
    (hsequence : j.sequence = c.next) :
    Keeps { c with job := some j, jobState := some .queued } log where
  sequence_eq i hi := by
    obtain rfl := Option.some.inj hi
    exact hsequence
  job_none := iff_of_false nofun nofun
  cleared := nofun
  admits e he i hi := by
    refine .inl ((h.admits e he i hi).resolve_right fun hc => ?_)
    rw [hjob] at hc
    cases hc
  takes e he i hi := by
    refine .inl ((h.takes e he i hi).resolve_right fun hc => ?_)
    rw [hjob] at hc
    cases hc.1
  acknowledges := h.acknowledges
  lastAck_lt := h.lastAck_lt
  output i hi stream := by
    obtain rfl := Option.some.inj hi
    -- Nothing was ever appended for a number that was not given out.
    have hnothing := h.unused stream j.sequence j.token hsequence.ge fun i hi => by
      rw [hjob] at hi
      cases hi
    rw [hnothing]
    cases stream
    · exact (h.cleared hjob).1.symm
    · exact (h.cleared hjob).2.symm
  unused stream sequence token hle _ := h.unused stream sequence token hle fun i hi => by
    rw [hjob] at hi
    cases hi
  bounded := h.bounded
  settled before e after p heq hp hcompleted := by
    obtain ⟨hover, hsame⟩ := h.settled before e after p heq hp hcompleted
    refine ⟨.inl (hover.resolve_right fun ⟨i, hi, _⟩ => ?_), hsame⟩
    rw [hjob] at hi
    cases hi

/-- The number moves on when the result is acknowledged. -/
theorem clear (h : Keeps c log) {j : MonitorExecJob} (hjob : c.job = some j) :
    Keeps { c with
      lastAck := some (j.sequence, j.token), next := c.next + 1, job := none, jobState := none
      terminal := none, reason := none, stdout := [], stderr := [] } log := by
  have hlt : ∀ i, c.job = some i → i.sequence < c.next + 1 := fun i hi =>
    (h.sequence_eq i hi).trans_lt (lt_add_one _)
  have hmono : ∀ {n : ℤ}, n < c.next → n < c.next + 1 := fun hn => hn.trans (lt_add_one _)
  exact
    { sequence_eq := fun i hi => by cases hi
      job_none := iff_of_true rfl rfl
      cleared := fun _ => ⟨rfl, rfl⟩
      admits := fun e he i hi => .inl ((h.admits e he i hi).elim hmono (hlt i))
      takes := fun e he i hi => .inl ((h.takes e he i hi).elim hmono fun hc => hlt i hc.1)
      acknowledges := fun e he n t hack => hmono (h.acknowledges e he n t hack)
      lastAck_lt := fun n t hack => by
        obtain ⟨rfl, rfl⟩ := Prod.mk.inj (Option.some.inj hack)
        exact hlt j hjob
      output := fun i hi => by cases hi
      unused := fun stream n t hle _ => by
        have hle : c.next + 1 ≤ n := hle
        refine h.unused stream n t (by omega) fun i hi hn => ?_
        have := h.sequence_eq i hi
        omega
      bounded := by simp
      settled := fun before e after p heq hp hcompleted => by
        obtain ⟨hover, hsame⟩ := h.settled before e after p heq hp hcompleted
        refine ⟨.inl (hover.elim hmono fun ⟨i, hi, hn, _⟩ => ?_), hsame⟩
        rw [← hn]
        exact hlt i hi }

theorem text_inj {s t : Stream} (h : s.text = t.text) : s = t := by
  cases s <;> cases t <;> first | rfl | exact absurd h (by decide)

theorem output_extend (c : MonitorExecControl) (data : List UInt8) (stream s : Stream) :
    (c.extend data stream).output s = c.output s ++ if s = stream then data else [] := by
  cases stream <;> cases s <;>
    simp [MonitorExecControl.extend, MonitorExecControl.output]

theorem extend_frame (c : MonitorExecControl) (data : List UInt8) (stream : Stream) :
    (c.extend data stream).job = c.job ∧ (c.extend data stream).next = c.next ∧
      (c.extend data stream).jobState = c.jobState ∧
      (c.extend data stream).lastAck = c.lastAck := by
  cases stream <;> exact ⟨rfl, rfl, rfl, rfl⟩

/-- Output is appended to the job that runs. -/
theorem extend (h : Keeps c log) {j : MonitorExecJob} {stream : Stream} {offset : ℤ}
    {data : List UInt8} (hjob : c.job = some j) (hstate : c.jobState = some .running)
    (hroom : c.stdout.length + c.stderr.length + data.length ≤ maxExecOutput) :
    Keeps (c.extend data stream) (log ++
      [⟨c, .appendOutput j stream.text offset data, .nothing, c.extend data stream⟩]) := by
  obtain ⟨hj, hnext, hjobState, hlastAck⟩ := extend_frame c data stream
  have hsequence := h.sequence_eq j hjob
  have hsame : ∀ i, c.job = some i → i = j := fun i hi => by
    rw [hjob] at hi
    exact (Option.some.inj hi).symm
  -- The new entry appends output, and is none of the others that the fields speak of.
  have hsnoc : ∀ {Q : Entry → Prop}, (∀ e ∈ log, Q e) →
      Q ⟨c, .appendOutput j stream.text offset data, .nothing, c.extend data stream⟩ →
      ∀ e ∈ log ++ [⟨c, .appendOutput j stream.text offset data, .nothing,
        c.extend data stream⟩], Q e := by
    intro Q hlog hnew e he
    rcases List.mem_append.mp he with he | he
    · exact hlog e he
    · rw [List.mem_singleton.mp he]
      exact hnew
  exact
    { sequence_eq := by
        rw [hj, hnext]
        exact h.sequence_eq
      job_none := by
        rw [hj, hjobState]
        exact h.job_none
      cleared := fun hnone => by
        rw [hj, hjob] at hnone
        cases hnone
      admits := by
        rw [hj, hnext]
        exact hsnoc h.admits fun i hi => by cases hi.1
      takes := by
        rw [hj, hnext, hjobState]
        exact hsnoc h.takes fun i hi => by cases hi
      acknowledges := by
        rw [hnext]
        exact hsnoc h.acknowledges fun n t hack => by cases hack.1
      lastAck_lt := by
        rw [hlastAck, hnext]
        exact h.lastAck_lt
      output := fun i hi s => by
        rw [hj] at hi
        obtain rfl := hsame i hi
        rw [appended_concat, h.output i hi s, output_extend]
        congr 1
        simp only [Entry.appended, and_true]
        exact if_congr ⟨fun heq => (text_inj heq).symm, fun heq => heq ▸ rfl⟩ rfl rfl
      unused := fun s n t hle hne => by
        rw [hnext] at hle
        rw [hj] at hne
        have hother : ¬(stream.text = s.text ∧ j.sequence = n ∧ j.token = t) := fun hc =>
          hne j hjob hc.2.1 hc.2.2
        rw [appended_concat, h.unused s n t hle hne]
        simp only [Entry.appended]
        rw [if_neg hother, List.nil_append]
      bounded := by
        cases stream <;> simp only [MonitorExecControl.extend, List.length_append] <;> omega
      settled := by
        have hall : Throughout (fun before e => ∀ p, e.answer = .poll p →
            p.state = some .completed → p.sequence < c.next ∧
            ∀ s, appended s p.sequence p.token log = appended s p.sequence p.token before)
            (log ++ [⟨c, .appendOutput j stream.text offset data, .nothing,
              c.extend data stream⟩]) := by
          refine throughout_concat.mpr ⟨fun before e after heq p hp hcompleted => ?_, nofun⟩
          obtain ⟨hover, heq⟩ := h.settled before e after p heq hp hcompleted
          refine ⟨hover.resolve_right fun ⟨_, _, _, _, hdone⟩ => ?_, heq⟩
          rw [hstate] at hdone
          cases hdone
        intro before e after p heq hp hcompleted
        obtain ⟨hover, hlog⟩ := hall before e after heq p hp hcompleted
        refine ⟨.inl (by rwa [hnext]), fun s => ?_⟩
        have hother : ¬(stream.text = s.text ∧ j.sequence = p.sequence ∧ j.token = p.token) :=
          fun hc => by omega
        rw [appended_concat, hlog s]
        simp only [Entry.appended]
        rw [if_neg hother, List.append_nil] }

/-- An operation on the mailbox as such, and not on a job by its number, is recorded. -/
theorem recordNothing (h : Keeps c log) {b : MonitorExecControl} {op : Operation} {a : Answer}
    (hop : op = .status ∨ op = .markReady ∨ (∃ reason, op = .closeToExec reason) ∨
      ∃ j terminal stdoutBytes stderrBytes reason,
        op = .complete j terminal stdoutBytes stderrBytes reason)
    (ha : a = .nothing ∨ ∃ s, a = .status s) (c' : MonitorExecControl) :
    Keeps c (log ++ [⟨b, op, a, c'⟩]) := by
  have hanswer : (∀ p, a ≠ .poll p) ∧ ∀ j, a ≠ .job j := by
    rcases ha with rfl | ⟨s, rfl⟩ <;> exact ⟨nofun, nofun⟩
  refine h.record (fun j hj => ?_) (fun j hj => absurd hj (hanswer.2 _)) (fun n t hack => ?_)
    (fun s n t => ?_) fun p hp => absurd hp (hanswer.1 p)
  · obtain ⟨-, p, hp⟩ := hj
    exact absurd hp (hanswer.1 p)
  · rcases hop with rfl | rfl | ⟨_, rfl⟩ | ⟨_, _, _, _, _, rfl⟩ <;> cases hack.1
  · rcases hop with rfl | rfl | ⟨_, rfl⟩ | ⟨_, _, _, _, _, rfl⟩ <;> rfl

/-- **Every effect keeps the invariant.** -/
theorem step {op : Operation} {a : Answer} {c' : MonitorExecControl} (h : Keeps c log)
    (heffect : Effect c op a c') : Keeps c' (log ++ [⟨c, op, a, c'⟩]) := by
  cases heffect with
  | raised op category =>
    refine h.record ?_ (fun j hj => by cases hj) ?_ ?_ (fun p hp => by cases hp)
    · exact fun j hj => by obtain ⟨-, p, hp⟩ := hj; cases hp
    · exact fun n t hack => by obtain ⟨-, s, hs⟩ := hack; cases hs
    · exact fun s n t => by cases op <;> rfl
  | status =>
    exact h.recordNothing (.inl rfl) (.inr ⟨_, rfl⟩) c
  | markReady =>
    have hrestate : Keeps c.markReady log := by
      rw [MonitorExecControl.markReady]
      split
      · exact h.restate rfl rfl rfl rfl rfl (.inl rfl)
      · exact h
    exact hrestate.recordNothing (.inr (.inl rfl)) (.inl rfl) _
  | closed reason state jobState text hstate =>
    have hrestate := h.restate
      (d := { c with state := state, jobState := jobState, reason := text }) rfl rfl rfl rfl rfl
      (hstate.imp_right fun ⟨hold, hnew⟩ => ⟨hold, by rw [hnew]; exact ⟨nofun, nofun⟩⟩)
    exact hrestate.recordNothing (.inr (.inr (.inl ⟨reason, rfl⟩))) (.inl rfl) _
  | polled j stdoutOffset stderrOffset op hjob hop =>
    refine h.record (fun i hi => ?_) (fun i hi => by cases hi) (fun n t hack => ?_)
      (fun _ _ _ => ?_) fun p hp hdone => ?_
    · -- a submission that polls is of the very job that is there
      rcases hop with rfl | rfl
      · cases hi.1
      · refine .inr ?_
        rw [hjob, MonitorExecJob.eq_of_submit hi.1]
    · rcases hop with rfl | rfl <;> cases hack.1
    · rcases hop with rfl | rfl <;> rfl
    · obtain rfl := Answer.poll.inj hp
      exact ⟨j, hjob, rfl, rfl, hdone⟩
  -- A new job: its number is the next one, so nothing that was recorded is about it.
  | started j hjob hsequence =>
    refine (h.start hjob hsequence).record (fun i hi => ?_) (fun j hj => by cases hj)
      (fun n t hack => by cases hack.1) (fun _ _ _ => rfl) fun p hp hdone => ?_
    · exact .inr (congrArg some (MonitorExecJob.eq_of_submit hi.1))
    · obtain rfl := Answer.poll.inj hp
      cases hdone
  | reacknowledged sequence token hlast =>
    refine h.record (fun j hj => by cases hj.1) (fun j hj => by cases hj) (fun n t hack => ?_)
      (fun _ _ _ => rfl) fun p hp => by cases hp
    obtain ⟨rfl, rfl⟩ := Operation.acknowledge.inj hack.1
    exact h.lastAck_lt _ _ hlast
  | acknowledged j hjob hstate s =>
    refine (h.clear hjob).record (fun i hi => by cases hi.1) (fun i hi => by cases hi)
      (fun n t hack => ?_) (fun _ _ _ => rfl) fun p hp => by cases hp
    obtain ⟨rfl, rfl⟩ := Operation.acknowledge.inj hack.1
    exact (h.sequence_eq j hjob).trans_lt (lt_add_one _)
  | idle =>
    exact h.record (fun j hj => by cases hj.1) (fun j hj => by cases hj)
      (fun n t hack => by cases hack.1) (fun _ _ _ => rfl) fun p hp => by cases hp
  -- The job stays where it is, and is no longer queued: no second call takes it.
  | taken j hjob hstate =>
    have hrestate := h.restate (d := { c with jobState := some .running }) rfl rfl rfl rfl rfl
      (.inr ⟨.inl hstate, nofun, nofun⟩)
    refine hrestate.record (fun i hi => by cases hi.1) (fun i hi => ?_)
      (fun n t hack => by cases hack.1) (fun _ _ _ => rfl) fun p hp => by cases hp
    obtain rfl := Option.some.inj (Answer.job.inj hi)
    exact ⟨hjob, nofun⟩
  | appended j stream offset data hjob hstate hroom => exact h.extend hjob hstate hroom
  | completed j terminal stdoutBytes stderrBytes reason hjob hstate =>
    have hrestate := h.restate (d := { c with
      terminal := MonitorExecControl.resultOf terminal, reason := some reason
      jobState := some .completed }) rfl rfl rfl rfl rfl (.inr ⟨.inr hstate, nofun, nofun⟩)
    exact hrestate.recordNothing (.inr (.inr (.inr ⟨_, _, _, _, _, rfl⟩))) (.inl rfl) _

theorem chunk_pollOf (c : MonitorExecControl) (j : MonitorExecJob)
    (stdoutOffset stderrOffset : ℤ) (stream : Stream) :
    (c.pollOf j stdoutOffset stderrOffset).chunk stream =
      ((c.output stream).drop ((c.pollOf j stdoutOffset stderrOffset).offset stream).toNat).take
        maxExecChunk := by
  cases stream <;> exact fromHex_hexText _

/-- **Every effect is faithful** to the operations before it. -/
theorem faithful {op : Operation} {a : Answer} {c' : MonitorExecControl} (h : Keeps c log)
    (hadmitted : ∀ j, c.job = some j → ∃ e ∈ log, e.Admits j) (heffect : Effect c op a c') :
    Faithful log ⟨c, op, a, c'⟩ where
  once j hj := by
    cases heffect with
    | taken i hjob hstate =>
      obtain rfl := Option.some.inj (Answer.job.inj hj)
      have hsequence := h.sequence_eq _ hjob
      refine ⟨hadmitted _ hjob, fun d hd k hk => ?_, fun d hd n t hack => ?_⟩
      · rw [hsequence]
        exact (h.takes d hd k hk).resolve_right fun hc => hc.2 hstate
      · rw [hsequence]
        exact h.acknowledges d hd n t hack
    | _ => cases hj
  repeated sequence token argv timeoutMs hop hbefore := by
    cases heffect with
    -- A repeated submission of a job that is over has a number that was used.
    | started j hjob hsequence =>
      obtain ⟨rfl, rfl, -, -⟩ := Operation.submit.inj hop
      obtain ⟨d, hd, i, hi, hn, -⟩ := hbefore
      rcases h.admits d hd i hi with hlt | hc
      · omega
      · rw [hjob] at hc
        cases hc
    | raised => rfl
    | polled => rfl
    | _ => cases hop
  started sequence token argv timeoutMs hop hne := by
    cases heffect with
    | started j hjob hsequence =>
      obtain ⟨rfl, rfl, rfl, rfl⟩ := Operation.submit.inj hop
      refine ⟨hjob, hsequence, fun d hd i hi => ?_, fun d hd n t hack => ?_, rfl⟩
      · rw [hsequence]
        refine (h.admits d hd i hi).resolve_right fun hc => ?_
        rw [hjob] at hc
        cases hc
      · rw [hsequence]
        exact h.acknowledges d hd n t hack
    | raised => exact absurd rfl hne
    | polled => exact absurd rfl hne
    | _ => cases hop
  -- A job leaves only when its caller acknowledges its end.
  kept j hj := by
    cases heffect with
    | started i hjob =>
      rw [hjob] at hj
      cases hj
    | acknowledged i hjob hstate s =>
      rw [hjob] at hj
      obtain rfl := Option.some.inj hj
      exact .inr ⟨⟨rfl, s, rfl⟩, hstate⟩
    | markReady =>
      refine .inl ?_
      show c.markReady.job = some j
      rw [MonitorExecControl.markReady]
      split <;> exact hj
    | appended i stream offset data => exact .inl ((extend_frame c data stream).1.trans hj)
    | _ => exact .inl hj
  polled p hp stream := by
    cases heffect with
    | polled j stdoutOffset stderrOffset op hjob hop hstdout hstderr =>
      obtain rfl := Answer.poll.inj hp
      have houtput := h.output j hjob stream
      rw [chunk_pollOf]
      simp only [MonitorExecControl.pollOf] at houtput ⊢
      rw [houtput]
      refine ⟨?_, ?_, rfl⟩
      · cases stream
        · exact hstdout
        · exact hstderr
      · cases stream <;> rfl
    | started j hjob hsequence =>
      obtain rfl := Answer.poll.inj hp
      have houtput := (h.start hjob hsequence).output j rfl stream
      rw [chunk_pollOf]
      simp only [MonitorExecControl.pollOf] at houtput ⊢
      rw [houtput]
      refine ⟨?_, ?_, rfl⟩
      · cases stream <;> exact ⟨le_rfl, Int.natCast_nonneg _⟩
      · cases stream <;> rfl
    | _ => cases hp
  bounded := (h.step heffect).bounded

end Keeps

/-! ### Runs -/

/-- The mailbox of a run. -/
structure Mailbox.Good (b : Mailbox) : Prop where
  keeps : Keeps b.control b.log
  admitted : ∀ j, b.control.job = some j → ∃ e ∈ b.log, e.Admits j
  faithful : Throughout Faithful b.log

theorem Mailbox.Good.step {b : Mailbox} (h : b.Good) (op : Operation) : (b.step op).Good := by
  have heffect := b.control.effect_perform op h.keeps.job_none h.keeps.cleared
  have hfaithful := h.keeps.faithful h.admitted heffect
  refine ⟨h.keeps.step heffect, fun j hj => ?_, throughout_concat.mpr ⟨h.faithful, hfaithful⟩⟩
  by_cases hold : b.control.job = some j
  · obtain ⟨e, he, hadmits⟩ := h.admitted j hold
    exact ⟨e, List.mem_append_left _ he, hadmits⟩
  · -- a job that was not there was just submitted
    refine ⟨_, List.mem_append_right _ (List.mem_singleton.mpr rfl), ?_⟩
    have hj : (b.control.perform op).2.job = some j := hj
    generalize (b.control.perform op).1 = a at heffect ⊢
    generalize (b.control.perform op).2 = c' at heffect hj ⊢
    cases heffect with
    | started i hjob =>
      obtain rfl := Option.some.inj hj
      exact ⟨rfl, _, rfl⟩
    | acknowledged => cases hj
    | markReady =>
      rw [MonitorExecControl.markReady] at hj
      split at hj <;> exact absurd hj hold
    | appended i stream offset data =>
      rw [(Keeps.extend_frame b.control data stream).1] at hj
      exact absurd hj hold
    | _ => exact absurd hj hold

theorem good_mailbox (ops : List Operation) : (mailbox ops).Good := by
  induction ops using List.reverseRecOn with
  | nil => exact ⟨.init, nofun, throughout_nil⟩
  | append_singleton ops op ih =>
    rw [mailbox, List.foldl_append]
    exact ih.step op

/-- **A ready mailbox with a queued job hands it out**, and the job is running then. -/
theorem takeExec_of_queued (ops : List Operation) (hready : (mailbox ops).control.state = .ready)
    (hqueued : (mailbox ops).control.jobState = some .queued) :
    ∃ j, (mailbox ops).control.job = some j ∧ (mailbox ops).control.takeExec =
      (some j, { (mailbox ops).control with jobState := some .running }) := by
  have hjob : (mailbox ops).control.job ≠ none := fun hnone => by
    rw [(good_mailbox ops).keeps.job_none.mp hnone] at hqueued
    cases hqueued
  obtain ⟨j, hj⟩ := Option.ne_none_iff_exists'.mp hjob
  refine ⟨j, hj, (if_neg (not_or.mpr ⟨not_not.mpr hready, not_not.mpr hqueued⟩)).trans ?_⟩
  exact Prod.ext hj rfl

/-- A command that the worker takes and completes, with one byte of output, and whose result the
client acknowledges. -/
def delivered : List Operation :=
  let token := "f6f546e2-e734-4920-9eff-1762b348a249"
  let job : MonitorExecJob := ⟨1, token, ["/bin/true"], 1000⟩
  [.markReady, .submit 1 token job.argv 1000, .takeExec, .appendOutput job "stdout" 0 [104],
    .complete job (some (.dict [("exit_code", .int 0), ("signal", .null)])) 1 0 "completed",
    .acknowledge 1 token]

example : (mailbox (delivered.take 3)).control.jobState = some .running ∧
    (mailbox (delivered.take 4)).control.stdout = [104] ∧
    (mailbox (delivered.take 5)).control.jobState = some .completed ∧
    (mailbox delivered).control.job = none ∧ (mailbox delivered).control.next = 2 := by
  decide

/-! ### What a client reads -/

/-- A client polled a job from the start of an output on, each time from where the last piece
ended. -/
def Reads (log : List Entry) (stream : Stream) (sequence : ℤ) (token : String)
    (polls : List MonitorExecPoll) : Prop :=
  (∀ p ∈ polls, p.sequence = sequence ∧ p.token = token ∧ ∃ e ∈ log, e.answer = .poll p) ∧
    Consecutive 0 (polls.map fun p => ((p.offset stream).toNat, p.chunk stream))

/-- What a client has put together. -/
def readOutput (stream : Stream) (polls : List MonitorExecPoll) : List UInt8 :=
  (polls.map fun p => p.chunk stream).flatten

theorem Mailbox.Good.reads {b : Mailbox} (h : b.Good) {stream : Stream} {sequence : ℤ}
    {token : String} {polls : List MonitorExecPoll}
    (hreads : Reads b.log stream sequence token polls) :
    readOutput stream polls <+: appended stream sequence token b.log := by
  obtain ⟨hpolls, hconsecutive⟩ := hreads
  have hpieces := flatten_isPrefix_of_consecutive
    (appended stream sequence token b.log) hconsecutive fun r hr => ?_
  · rwa [List.map_map] at hpieces
  · obtain ⟨p, hp, rfl⟩ := List.mem_map.mp hr
    obtain ⟨rfl, rfl, e, he, hanswer⟩ := hpolls p hp
    obtain ⟨before, after, hlog⟩ := List.append_of_mem he
    obtain ⟨-, -, hchunk⟩ := (h.faithful before e after hlog).polled p hanswer stream
    have hgrown := appended_prefix stream p.sequence p.token before (e :: after)
    rw [← hlog] at hgrown
    show p.chunk stream <+: _
    rw [hchunk]
    exact (List.take_prefix ..).trans (drop_isPrefix_drop hgrown _)

/-- A client that read all there was at a poll has what was appended until then, and all that
was ever appended once the job is completed. -/
theorem Mailbox.Good.reads_all {b : Mailbox} (h : b.Good) {stream : Stream}
    {polls : List MonitorExecPoll} {p : MonitorExecPoll} {before after : List Entry} {e : Entry}
    (hreads : Reads b.log stream p.sequence p.token polls) (hlog : b.log = before ++ e :: after)
    (hanswer : e.answer = .poll p)
    (hsize : (readOutput stream polls).length = p.size stream) :
    readOutput stream polls = appended stream p.sequence p.token before ∧
      (p.state = some .completed →
        readOutput stream polls = appended stream p.sequence p.token b.log) := by
  obtain ⟨-, hlength, -⟩ := (h.faithful before e after hlog).polled p hanswer stream
  have hgrown := appended_prefix stream p.sequence p.token before (e :: after)
  rw [← hlog] at hgrown
  have hprefix := List.prefix_of_prefix_length_le (h.reads hreads) hgrown (hsize.trans hlength).le
  have hall := hprefix.eq_of_length (hsize.trans hlength)
  refine ⟨hall, fun hcompleted => ?_⟩
  rw [hall]
  exact ((h.keeps.settled before e after p hlog hanswer hcompleted).2 stream).symm

/-- **A command is executed once, and its output is read as it was written.** In every run of
the mailbox, by any number of clients and the worker in any order: every operation is
faithful to those before it, no more than the limit is retained, and a client that polls from
consecutive offsets puts together what was appended. -/
theorem exec_exactly_once (ops : List Operation) :
    Throughout Faithful (mailbox ops).log ∧
      (mailbox ops).control.stdout.length + (mailbox ops).control.stderr.length ≤ maxExecOutput ∧
      (∀ stream sequence token polls, Reads (mailbox ops).log stream sequence token polls →
        readOutput stream polls <+: appended stream sequence token (mailbox ops).log) ∧
      ∀ stream polls before e after p, Reads (mailbox ops).log stream p.sequence p.token polls →
        (mailbox ops).log = before ++ e :: after → e.answer = .poll p →
        (readOutput stream polls).length = p.size stream →
        readOutput stream polls = appended stream p.sequence p.token before ∧
          (p.state = some .completed →
            readOutput stream polls = appended stream p.sequence p.token (mailbox ops).log) := by
  have h := good_mailbox ops
  exact ⟨h.faithful, h.keeps.bounded, fun _ _ _ _ hreads => h.reads hreads,
    fun _ _ _ _ _ _ hreads hlog hanswer hsize => h.reads_all hreads hlog hanswer hsize⟩

end Palimpsest.Monitor
