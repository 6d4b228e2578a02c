import Palimpsest.Guest.MainOutputPump

/-!
# The console queue

What the guest puts on its console passes through one queue of fixed size. Two producers fill
it: the workload's output, which is turned away when there is no room, and the supervisor's
diagnostics, for which no room is a failure. A flush tick offers the sink one quantum from the
front and drops what the sink took.

A run is any sequence of enqueues and ticks, with whatever bytes and whatever answers of the
sink. The main result is `Palimpsest.Guest.consoleQueue_exact`.
-/

namespace Palimpsest.Guest

def mainConsoleQueueBytes : ℕ := 16384

structure MainConsoleQueue where
  window : Window UInt8
  failed : Bool

/-- A queue whose storage was cleared byte by byte. -/
def mainConsoleQueueInit : MainConsoleQueue where
  window := { bytes := fun _ => 0, offset := 0, used := 0 }
  failed := false

def mainConsoleQueueValid (q : MainConsoleQueue) : Bool :=
  !q.failed && decide (q.window.offset ≤ q.window.used) &&
    decide (q.window.used ≤ mainConsoleQueueBytes)

/-- Enqueue the `size` bytes that a pointer leads to; `none` is the null pointer. The answer
tells whether they were accepted. -/
def mainConsoleEnqueueData (q : MainConsoleQueue) (bytes : Option (ℕ → UInt8)) (size : ℕ) :
    MainConsoleQueue × Bool :=
  if q.failed then (q, false)
  else if q.window.offset > q.window.used ∨ q.window.used > mainConsoleQueueBytes ∨
      (bytes.isNone ∧ size ≠ 0) then
    ({ q with failed := true }, false)
  else
    let remaining := q.window.used - q.window.offset
    if size > mainConsoleQueueBytes - remaining then (q, false)
    else
      let window := q.window.compact
      match bytes with
      | some image => ({ q with window := (window.fill size image).grow size }, true)
      | none => ({ q with window := window }, true)

def mainConsoleEnqueueDiagnostic (q : MainConsoleQueue) (bytes : Option (ℕ → UInt8)) (size : ℕ) :
    MainConsoleQueue × Bool :=
  if q.failed then (q, false)
  else
    let result := mainConsoleEnqueueData q bytes size
    if result.2 then (result.1, true) else ({ result.1 with failed := true }, false)

/-- What a flush tick leaves: the queue, whether it went well, and the bytes offered to the
sink with its answer, when there was a write. -/
structure FlushTick where
  queue : MainConsoleQueue
  ok : Bool
  write : Option (List UInt8 × ℤ)

def mainConsoleFlushTick (q : MainConsoleQueue) (writeSink : Option (List UInt8 → ℤ)) :
    FlushTick :=
  match mainConsoleQueueValid q, writeSink with
  | true, some writeSink =>
    if q.window.offset = q.window.used then
      ⟨{ q with window := { q.window with offset := 0, used := 0 } }, true, none⟩
    else
      let available := min (q.window.used - q.window.offset) mainOutputQuantum
      let offered := slice q.window.bytes q.window.offset available
      let count := writeSink offered
      if count = -mainOutputAgain ∨ count = -mainOutputIntr then ⟨q, true, some (offered, count)⟩
      else if count ≤ 0 ∨ available < count.toNat then
        ⟨{ q with failed := true }, false, some (offered, count)⟩
      else ⟨{ q with window := q.window.advance count.toNat }, true, some (offered, count)⟩
  | _, _ => ⟨{ q with failed := true }, false, none⟩

def mainConsoleQueueEmpty (q : MainConsoleQueue) : Bool :=
  mainConsoleQueueValid q && q.window.offset == q.window.used

/-! ### Runs -/

/-- One use of the queue. -/
inductive ConsoleUse
  | data (bytes : Option (ℕ → UInt8)) (size : ℕ)
  | diagnostic (bytes : Option (ℕ → UInt8)) (size : ℕ)
  | flush (writeSink : Option (List UInt8 → ℤ))

/-- The bytes an enqueue brings. -/
def carried (bytes : Option (ℕ → UInt8)) (size : ℕ) : List UInt8 :=
  bytes.elim [] fun image => slice image 0 size

/-- The bytes the sink took of a write. An answer beyond the offer breaks the callback's
contract and counts for nothing. -/
def taken : Option (List UInt8 × ℤ) → List UInt8
  | some (offered, count) => if count.toNat ≤ offered.length then offered.take count.toNat else []
  | none => []

/-- A queue with the bytes accepted and the bytes flushed so far. -/
structure ConsoleRun where
  queue : MainConsoleQueue
  accepted : List UInt8
  flushed : List UInt8

namespace ConsoleRun

/-- The run after an enqueue of `bytes` that left `result`. -/
def enqueued (r : ConsoleRun) (brought : List UInt8) (result : MainConsoleQueue × Bool) :
    ConsoleRun :=
  { r with queue := result.1, accepted := r.accepted ++ if result.2 then brought else [] }

def step (r : ConsoleRun) : ConsoleUse → ConsoleRun
  | .data bytes size =>
    r.enqueued (carried bytes size) (mainConsoleEnqueueData r.queue bytes size)
  | .diagnostic bytes size =>
    r.enqueued (carried bytes size) (mainConsoleEnqueueDiagnostic r.queue bytes size)
  | .flush writeSink =>
    let tick := mainConsoleFlushTick r.queue writeSink
    { r with queue := tick.queue, flushed := r.flushed ++ taken tick.write }

/-- A number of uses, one after the other. -/
def after (r : ConsoleRun) (uses : List ConsoleUse) : ConsoleRun := uses.foldl step r

end ConsoleRun

/-- A queue from its start through any number of uses. -/
def consoleRun (uses : List ConsoleUse) : ConsoleRun :=
  ConsoleRun.after ⟨mainConsoleQueueInit, [], []⟩ uses

/-! ### One enqueue -/

namespace MainConsoleQueue

/-- What is queued. -/
abbrev contents (q : MainConsoleQueue) : List UInt8 := q.window.contents

/-- The marks stand where the code expects them. -/
structure InOrder (q : MainConsoleQueue) : Prop where
  offset_le : q.window.offset ≤ q.window.used
  used_le : q.window.used ≤ mainConsoleQueueBytes

/-- The queue can take the bytes: it has not failed, the pointer leads somewhere unless there
is nothing to copy, and there is room. -/
def Takes (q : MainConsoleQueue) (bytes : Option (ℕ → UInt8)) (size : ℕ) : Prop :=
  q.failed = false ∧ (bytes = none → size = 0) ∧ q.contents.length + size ≤ mainConsoleQueueBytes

variable {q : MainConsoleQueue}

theorem InOrder.occupancy_le (h : q.InOrder) : q.contents.length ≤ mainConsoleQueueBytes := by
  rw [Window.length_contents]
  exact (Nat.sub_le ..).trans h.used_le

/-- Everything that an enqueue of either kind can do. -/
inductive Enqueued (q : MainConsoleQueue) (bytes : Option (ℕ → UInt8)) (size : ℕ) :
    MainConsoleQueue × Bool → Prop
  | accepted (window : Window UInt8) (htakes : q.Takes bytes size)
      (hcontents : window.contents = q.contents ++ carried bytes size)
      (hinOrder : InOrder { q with window := window }) :
      Enqueued q bytes size ({ q with window := window }, true)
  | rejected (hnot : ¬q.Takes bytes size) (failed : Bool) (hfailed : q.failed → failed) :
      Enqueued q bytes size ({ q with failed := failed }, false)

theorem enqueued_data (h : q.InOrder) (bytes : Option (ℕ → UInt8)) (size : ℕ) :
    q.Enqueued bytes size (mainConsoleEnqueueData q bytes size) := by
  have hoffset := h.offset_le
  have hused := h.used_le
  rw [mainConsoleEnqueueData]
  split
  · next hfailed =>
    exact .rejected (fun ht => by simp [ht.1] at hfailed) q.failed id
  · next hfailed =>
    split
    · next hbad =>
      refine .rejected (fun ht => ?_) true fun _ => rfl
      rcases hbad with hbad | hbad | ⟨hnull, hsize⟩
      · exact hbad.not_ge hoffset
      · exact hbad.not_ge hused
      · exact hsize (ht.2.1 (Option.isNone_iff_eq_none.mp hnull))
    · next hgood =>
      dsimp only
      -- The room is counted without the bytes that have been sent.
      split
      · next hroom =>
        refine .rejected (fun ht => ?_) q.failed id
        have hfits := ht.2.2
        rw [Window.length_contents] at hfits
        omega
      · next hroom =>
        have htakes : q.Takes bytes size := by
          refine ⟨by simpa using hfailed, fun hnull => ?_, ?_⟩
          · by_contra hsize
            exact hgood (.inr (.inr ⟨Option.isNone_iff_eq_none.mpr hnull, hsize⟩))
          · rw [Window.length_contents]
            omega
        have hcompact : q.window.compact.used = q.window.used - q.window.offset :=
          q.window.compact_used
        split
        · next image =>
          refine .accepted _ htakes ?_ ⟨?_, ?_⟩
          · rw [Window.contents_grow_fill _ image (by simp) le_rfl, Window.contents_compact]
            rfl
          · simp [Window.grow]
          · simp only [Window.grow, Window.fill_used]
            omega
        · refine .accepted _ htakes ?_ ⟨?_, ?_⟩
          · rw [Window.contents_compact, carried, Option.elim_none, List.append_nil]
          · simp
          · exact hcompact.trans_le ((Nat.sub_le ..).trans hused)

/-- A data enqueue that is turned away for want of room leaves the queue as it was, and so
does one that a failed queue turns away. A null pointer to some bytes is the failure of the
caller, and becomes the queue's. -/
theorem enqueueData_rejected (h : q.InOrder) {bytes : Option (ℕ → UInt8)} {size : ℕ}
    (hnot : ¬q.Takes bytes size) :
    mainConsoleEnqueueData q bytes size =
      (if bytes = none ∧ size ≠ 0 then { q with failed := true } else q, false) := by
  have hoffset := h.offset_le
  have hused := h.used_le
  rw [mainConsoleEnqueueData]
  split
  · next hfailed => simp [← hfailed]
  · next hfailed =>
    simp only [Option.isNone_iff_eq_none]
    by_cases hnull : bytes = none ∧ size ≠ 0
    · rw [if_pos (.inr (.inr hnull)), if_pos hnull]
    · have hgood : ¬(q.window.offset > q.window.used ∨ q.window.used > mainConsoleQueueBytes ∨
          bytes = none ∧ size ≠ 0) :=
        not_or.mpr ⟨hoffset.not_gt, not_or.mpr ⟨hused.not_gt, hnull⟩⟩
      rw [if_neg hgood, if_neg hnull, if_pos]
      -- neither failed nor null, so it is the room that is missing
      by_contra hroom
      refine hnot ⟨by simpa using hfailed, fun hnone => ?_, ?_⟩
      · by_contra hsize
        exact hnull ⟨hnone, hsize⟩
      · rw [Window.length_contents]
        omega

theorem enqueueDiagnostic_eq (bytes : Option (ℕ → UInt8)) (size : ℕ) :
    mainConsoleEnqueueDiagnostic q bytes size =
      if (mainConsoleEnqueueData q bytes size).2 then mainConsoleEnqueueData q bytes size
      else ({ (mainConsoleEnqueueData q bytes size).1 with failed := true }, false) := by
  rw [mainConsoleEnqueueDiagnostic]
  split
  · next hfailed => simp [mainConsoleEnqueueData, ← hfailed]
  · dsimp only
    split
    · next haccepted => exact Prod.ext rfl haccepted.symm
    · rfl

theorem enqueued_diagnostic (h : q.InOrder) (bytes : Option (ℕ → UInt8)) (size : ℕ) :
    q.Enqueued bytes size (mainConsoleEnqueueDiagnostic q bytes size) := by
  rw [enqueueDiagnostic_eq]
  have hdata := enqueued_data h bytes size
  generalize mainConsoleEnqueueData q bytes size = result at hdata ⊢
  cases hdata with
  | accepted window htakes hcontents hinOrder => exact .accepted window htakes hcontents hinOrder
  | rejected hnot failed hfailed => exact .rejected hnot true fun _ => rfl

/-- A diagnostic that is turned away poisons the queue, and does nothing else to it. -/
theorem enqueueDiagnostic_rejected (h : q.InOrder) {bytes : Option (ℕ → UInt8)} {size : ℕ}
    (hnot : ¬q.Takes bytes size) :
    mainConsoleEnqueueDiagnostic q bytes size = ({ q with failed := true }, false) := by
  rw [enqueueDiagnostic_eq, enqueueData_rejected h hnot, if_neg Bool.false_ne_true]
  split <;> rfl

theorem Enqueued.accepted_iff {bytes : Option (ℕ → UInt8)} {size : ℕ}
    {result : MainConsoleQueue × Bool} (h : q.Enqueued bytes size result) :
    result.2 = true ↔ q.Takes bytes size := by
  cases h with
  | accepted window htakes _ _ => exact iff_of_true rfl htakes
  | rejected hnot _ _ => exact iff_of_false Bool.false_ne_true hnot

/-! ### One tick -/

/-- What a tick does: what the sink took and what stays are what was queued. -/
structure Flushed (q : MainConsoleQueue) (tick : FlushTick) : Prop where
  inOrder : tick.queue.InOrder
  conserved : taken tick.write ++ tick.queue.contents = q.contents

theorem flushed_tick (h : q.InOrder) (writeSink : Option (List UInt8 → ℤ)) :
    q.Flushed (mainConsoleFlushTick q writeSink) := by
  have hoffset := h.offset_le
  have hused := h.used_le
  rw [mainConsoleFlushTick.eq_def]
  split
  · next writeSink _ =>
    split
    · next hempty =>
      refine ⟨⟨le_rfl, Nat.zero_le _⟩, ?_⟩
      calc taken none ++ slice q.window.bytes 0 0 = [] := rfl
        _ = q.window.contents := ((Window.contents_eq_nil_iff q.window).mpr hempty.ge).symm
    · next hpending =>
      dsimp only
      set available := min (q.window.used - q.window.offset) mainOutputQuantum with havailable
      set count := writeSink (slice q.window.bytes q.window.offset available) with hcount
      -- Nothing was taken for now, the sink is broken, or some bytes went out.
      split
      · next htransient =>
        refine ⟨h, ?_⟩
        have hzero : count.toNat = 0 := by
          simp only [mainOutputAgain, mainOutputIntr] at htransient
          omega
        simp [taken, hzero]
      · split
        · next hbad =>
          refine ⟨⟨hoffset, hused⟩, ?_⟩
          rcases hbad with hbad | hbad
          · simp [taken, Int.toNat_of_nonpos hbad]
          · simp [taken, not_le.mpr hbad]
        · next hgood =>
          have hle : q.window.offset + count.toNat ≤ q.window.used := by omega
          obtain ⟨hoffset', hused'⟩ := q.window.advance_le hle
          refine ⟨⟨hoffset', hused'.trans hused⟩, ?_⟩
          have hfits : count.toNat ≤ available := by omega
          simp only [taken, length_slice]
          rw [if_pos hfits, slice_take _ _ hfits]
          exact q.window.contents_advance hle
  · exact ⟨⟨hoffset, hused⟩, rfl⟩

end MainConsoleQueue

/-! ### Runs of the queue -/

namespace ConsoleRun

open MainConsoleQueue

/-- The invariant of a run: first in, first out, and nothing lost. -/
structure Keeps (r : ConsoleRun) : Prop where
  inOrder : r.queue.InOrder
  conserved : r.accepted = r.flushed ++ r.queue.contents

theorem Keeps.enqueued {r : ConsoleRun} (h : r.Keeps) {bytes : Option (ℕ → UInt8)} {size : ℕ}
    {result : MainConsoleQueue × Bool} (hresult : r.queue.Enqueued bytes size result) :
    (r.enqueued (carried bytes size) result).Keeps := by
  cases hresult with
  | accepted window _ hcontents hinOrder =>
    refine ⟨hinOrder, ?_⟩
    calc r.accepted ++ carried bytes size
        = r.flushed ++ (r.queue.contents ++ carried bytes size) := by
          rw [h.conserved, List.append_assoc]
      _ = r.flushed ++ window.contents := by rw [hcontents]
  | rejected _ failed _ =>
    refine ⟨⟨h.inOrder.offset_le, h.inOrder.used_le⟩, ?_⟩
    calc r.accepted ++ [] = r.accepted := List.append_nil _
      _ = r.flushed ++ r.queue.contents := h.conserved

theorem Keeps.step {r : ConsoleRun} (h : r.Keeps) (use : ConsoleUse) : (r.step use).Keeps := by
  cases use with
  | data bytes size => exact h.enqueued (enqueued_data h.inOrder bytes size)
  | diagnostic bytes size => exact h.enqueued (enqueued_diagnostic h.inOrder bytes size)
  | flush writeSink =>
    obtain ⟨hinOrder, hconserved⟩ := flushed_tick h.inOrder writeSink
    refine ⟨hinOrder, ?_⟩
    calc r.accepted = r.flushed ++ r.queue.contents := h.conserved
      _ = _ := by rw [← hconserved, ← List.append_assoc]; rfl

theorem Keeps.after {r : ConsoleRun} (h : r.Keeps) (uses : List ConsoleUse) :
    (r.after uses).Keeps := by
  induction uses generalizing r with
  | nil => exact h
  | cons use uses ih => exact ih (h.step use)

/-- A failed queue takes nothing, gives nothing and stays failed. -/
theorem step_of_failed {r : ConsoleRun} (h : r.queue.failed = true) (use : ConsoleUse) :
    r.step use = r := by
  obtain ⟨⟨window, failed⟩, accepted, flushed⟩ := r
  obtain rfl : failed = true := h
  cases use <;>
    simp [step, enqueued, mainConsoleEnqueueData, mainConsoleEnqueueDiagnostic,
      mainConsoleFlushTick, mainConsoleQueueValid, taken]

theorem after_of_failed {r : ConsoleRun} (h : r.queue.failed = true) (uses : List ConsoleUse) :
    r.after uses = r := by
  induction uses with
  | nil => rfl
  | cons use uses ih =>
    calc r.after (use :: uses) = (r.step use).after uses := rfl
      _ = r := by rw [step_of_failed h, ih]

end ConsoleRun

theorem keeps_consoleRun (uses : List ConsoleUse) : (consoleRun uses).Keeps :=
  ConsoleRun.Keeps.after ⟨⟨le_rfl, Nat.zero_le _⟩, rfl⟩ uses

/-! ### The queue is exact -/

/-- The account of a queue at one moment of a run. -/
structure ConsoleExact (r : ConsoleRun) : Prop where
  occupancy_le : r.queue.contents.length ≤ mainConsoleQueueBytes
  conserved : r.accepted = r.flushed ++ r.queue.contents
  data_accepted_iff bytes size :
    (mainConsoleEnqueueData r.queue bytes size).2 = true ↔ r.queue.Takes bytes size
  data_rejected bytes size : ¬r.queue.Takes bytes size →
    (mainConsoleEnqueueData r.queue bytes size).1 =
      if bytes = none ∧ size ≠ 0 then { r.queue with failed := true } else r.queue
  diagnostic_accepted_iff bytes size :
    (mainConsoleEnqueueDiagnostic r.queue bytes size).2 = true ↔ r.queue.Takes bytes size
  diagnostic_rejected bytes size : ¬r.queue.Takes bytes size →
    (mainConsoleEnqueueDiagnostic r.queue bytes size).1 = { r.queue with failed := true }
  sticky : r.queue.failed = true → ∀ uses, r.after uses = r

/-- **The console queue is first in, first out, and loses nothing it accepted**, through any
number of enqueues and ticks and whatever the sink answers. -/
theorem consoleQueue_exact (uses : List ConsoleUse) : ConsoleExact (consoleRun uses) := by
  have h := keeps_consoleRun uses
  exact
    { occupancy_le := h.inOrder.occupancy_le
      conserved := h.conserved
      data_accepted_iff := fun bytes size =>
        (MainConsoleQueue.enqueued_data h.inOrder bytes size).accepted_iff
      data_rejected := fun _ _ hnot =>
        congrArg Prod.fst (MainConsoleQueue.enqueueData_rejected h.inOrder hnot)
      diagnostic_accepted_iff := fun bytes size =>
        (MainConsoleQueue.enqueued_diagnostic h.inOrder bytes size).accepted_iff
      diagnostic_rejected := fun _ _ hnot =>
        congrArg Prod.fst (MainConsoleQueue.enqueueDiagnostic_rejected h.inOrder hnot)
      sticky := fun hfailed => ConsoleRun.after_of_failed hfailed }

/-- A data enqueue is turned away and the queue is not as it was: the pointer was null. -/
theorem consoleQueue_null :
    (mainConsoleEnqueueData mainConsoleQueueInit none 1).2 = false ∧
      (mainConsoleEnqueueData mainConsoleQueueInit none 1).1 ≠ mainConsoleQueueInit := by
  refine ⟨rfl, fun heq => ?_⟩
  exact absurd (congrArg MainConsoleQueue.failed heq) (by decide)

end Palimpsest.Guest
