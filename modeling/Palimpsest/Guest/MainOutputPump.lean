import Mathlib.Algebra.GroupWithZero.Nat
import Mathlib.Data.Fin.Basic
import Palimpsest.Lib.Throughout
import Palimpsest.Lib.Window

/-!
# The main output pump

The pump of the guest's first process takes what the workload writes on its two output
streams and hands it to the console. It owns one buffer per stream, reads and writes through
two callbacks, and each of its ticks makes at most one write and at most one read that moves
something.

The callbacks answer as they like: short counts, “try again”, end of file, errors, counts
beyond what they were given. A tick records each call together with the pump it was made on,
so that a statement about the record is a statement about every moment at which the pump
talks to the outside. The main result is `Palimpsest.Guest.mainOutputPump_exact`.
-/

namespace Palimpsest.Guest

abbrev mainOutputStreams : ℕ := 2

instance neZero_mainOutputStreams : NeZero mainOutputStreams := ⟨Nat.succ_ne_zero 1⟩

def mainOutputBufferBytes : ℕ := 4096

def mainOutputQuantum : ℕ := 1024

def mainOutputAgain : ℤ := 11

def mainOutputIntr : ℤ := 4

/-! ### The pump and its calls -/

structure MainOutputStream where
  window : Window UInt8
  eof : ℕ

structure MainOutputPump where
  stream : Fin mainOutputStreams → MainOutputStream
  nextRead : ℕ
  nextWrite : ℕ
  failed : Bool

/-- A pump whose storage was cleared byte by byte. -/
def mainOutputPumpInit : MainOutputPump where
  stream _ := { window := { bytes := fun _ => 0, offset := 0, used := 0 }, eof := 0 }
  nextRead := 0
  nextWrite := 0
  failed := false

/-- What the callbacks answer during one tick: the count for the bytes offered, and for a
stream and a capacity the count and what was put into the buffer. -/
structure Callbacks where
  writeSink : List UInt8 → ℤ
  readSource : Fin mainOutputStreams → ℕ → ℤ × (ℕ → UInt8)

/-- A call of a callback with its answer. -/
inductive Call
  | write (index : Fin mainOutputStreams) (offered : List UInt8) (count : ℤ)
  | read (index : Fin mainOutputStreams) (capacity : ℕ) (count : ℤ) (image : ℕ → UInt8)

/-- A call and the pump it was made on. -/
structure Entry where
  pump : MainOutputPump
  call : Call

/-- A pump with the record of its calls. -/
structure Pumping where
  pump : MainOutputPump
  log : List Entry

def mainOutputTransient (count : ℤ) : Bool :=
  count == -mainOutputAgain || count == -mainOutputIntr

namespace MainOutputPump

/-- The stream tried at an attempt, counted round from the one whose turn it is. -/
def turn (next attempt : ℕ) : Fin mainOutputStreams := Fin.ofNat mainOutputStreams (next + attempt)

def setStream (p : MainOutputPump) (index : Fin mainOutputStreams) (s : MainOutputStream) :
    MainOutputPump :=
  { p with stream := Function.update p.stream index s }

def setWindow (p : MainOutputPump) (index : Fin mainOutputStreams) (w : Window UInt8) :
    MainOutputPump :=
  p.setStream index { p.stream index with window := w }

/-- The pump after the sink answered an offer of `available` bytes. -/
def afterWrite (p : MainOutputPump) (index : Fin mainOutputStreams) (available : ℕ) (count : ℤ) :
    MainOutputPump :=
  if count ≤ 0 ∨ available < count.toNat then
    if mainOutputTransient count then p else { p with failed := true }
  else
    { p.setWindow index ((p.stream index).window.advance count.toNat) with
      nextWrite := (index.val + 1) % mainOutputStreams }

/-- The pump after a source answered with something else than “try again”. -/
def afterRead (p : MainOutputPump) (index : Fin mainOutputStreams) (capacity : ℕ) (count : ℤ) :
    MainOutputPump :=
  if count = 0 then
    { p.setStream index { p.stream index with eof := 1 } with
      nextRead := (index.val + 1) % mainOutputStreams }
  else if count < 0 ∨ capacity < count.toNat then { p with failed := true }
  else
    { p.setWindow index ((p.stream index).window.grow count.toNat) with
      nextRead := (index.val + 1) % mainOutputStreams }

/-- The fields a tick looks at before it does anything. -/
def Sound (p : MainOutputPump) : Prop :=
  p.nextRead < mainOutputStreams ∧ p.nextWrite < mainOutputStreams ∧
    ∀ i, (p.stream i).window.offset ≤ (p.stream i).window.used ∧
      (p.stream i).window.used ≤ mainOutputBufferBytes ∧ (p.stream i).eof ≤ 1

instance (p : MainOutputPump) : Decidable p.Sound := by
  unfold Sound
  infer_instance

end MainOutputPump

namespace Pumping

open MainOutputPump

/-- The writing half of a tick: the first stream with something pending is offered to the
sink, and whatever the sink answers ends the half. -/
def writeLoop (writeSink : List UInt8 → ℤ) : List ℕ → Pumping → Pumping
  | [], r => r
  | attempt :: attempts, r =>
    let index := turn r.pump.nextWrite attempt
    let window := (r.pump.stream index).window
    if window.offset < window.used then
      let available := min (window.used - window.offset) mainOutputQuantum
      let offered := slice window.bytes window.offset available
      let count := writeSink offered
      { pump := r.pump.afterWrite index available count
        log := r.log ++ [⟨r.pump, .write index offered count⟩] }
    else writeLoop writeSink attempts r

/-- The reading half of a tick: a stream at its end or without room is passed over, one that
answers “try again” as well, and any other answer ends the half. -/
def readLoop (readSource : Fin mainOutputStreams → ℕ → ℤ × (ℕ → UInt8)) :
    List ℕ → Pumping → Pumping
  | [], r => r
  | attempt :: attempts, r =>
    let index := turn r.pump.nextRead attempt
    if (r.pump.stream index).eof ≠ 0 then readLoop readSource attempts r
    else
      let window := (r.pump.stream index).window.compact
      let moved := r.pump.setWindow index window
      if window.used = mainOutputBufferBytes then
        readLoop readSource attempts { r with pump := moved }
      else
        let capacity := min (mainOutputBufferBytes - window.used) mainOutputQuantum
        let (count, image) := readSource index capacity
        let filled := moved.setWindow index (window.fill capacity image)
        let log := r.log ++ [⟨moved, .read index capacity count image⟩]
        if count < 0 ∧ mainOutputTransient count then
          readLoop readSource attempts { pump := filled, log := log }
        else { pump := filled.afterRead index capacity count, log := log }

/-- The attempts of a loop over the streams. -/
def attempts : List ℕ := List.range mainOutputStreams

end Pumping

open Pumping in
/-- One tick. A callback may be missing, which is a failure. -/
def mainOutputPumpTick (readSource : Option (Fin mainOutputStreams → ℕ → ℤ × (ℕ → UInt8)))
    (writeSink : Option (List UInt8 → ℤ)) (r : Pumping) : Pumping :=
  if r.pump.failed then r
  else
    match readSource, writeSink with
    | some readSource, some writeSink =>
      if r.pump.Sound then
        let written := r.writeLoop writeSink attempts
        if written.pump.failed then written else written.readLoop readSource attempts
      else { r with pump := { r.pump with failed := true } }
    | _, _ => { r with pump := { r.pump with failed := true } }

def mainOutputPumpDrained (p : MainOutputPump) : Bool :=
  if p.failed then false
  else if p.nextRead ≥ mainOutputStreams ∨ p.nextWrite ≥ mainOutputStreams then false
  else decide (∀ i, (p.stream i).eof = 1 ∧ (p.stream i).window.used ≤ mainOutputBufferBytes ∧
    (p.stream i).window.offset ≤ (p.stream i).window.used ∧
    (p.stream i).window.offset = (p.stream i).window.used)

/-- A pump from its start through any number of ticks. -/
def pumping (ticks : List Callbacks) : Pumping :=
  ticks.foldl (fun r t => mainOutputPumpTick (some t.readSource) (some t.writeSink) r)
    { pump := mainOutputPumpInit, log := [] }

/-! ### What the calls moved -/

namespace Call

/-- The bytes of stream `i` that the sink took. An answer beyond the offer breaks the
callback's contract and counts for nothing. -/
def accepted (i : Fin mainOutputStreams) : Call → List UInt8
  | write index offered count =>
    if index = i ∧ count.toNat ≤ offered.length then offered.take count.toNat else []
  | read .. => []

/-- The bytes read from source `i`. -/
def received (i : Fin mainOutputStreams) : Call → List UInt8
  | write .. => []
  | read index capacity count image =>
    if index = i ∧ count.toNat ≤ capacity then slice image 0 count.toNat else []

/-- Source `i` answered that it is at its end. -/
def AtEof (i : Fin mainOutputStreams) : Call → Prop
  | write .. => False
  | read index _ count _ => index = i ∧ count = 0

/-- Source `i` answered “try again”. -/
def Again (i : Fin mainOutputStreams) : Call → Prop
  | write .. => False
  | read index _ count _ => index = i ∧ mainOutputTransient count

/-- The stream of which the sink took something. -/
def served : Call → Option (Fin mainOutputStreams)
  | write index offered count =>
    if 0 < count ∧ count.toNat ≤ offered.length then some index else none
  | read .. => none

/-- The stream whose source gave something, or its end. -/
def gave : Call → Option (Fin mainOutputStreams)
  | write .. => none
  | read index capacity count _ =>
    if 0 ≤ count ∧ count.toNat ≤ capacity then some index else none

/-- No more than a quantum is offered or asked for. -/
def WithinQuantum : Call → Prop
  | write _ offered _ => offered.length ≤ mainOutputQuantum
  | read _ capacity _ _ => capacity ≤ mainOutputQuantum

def index : Call → Fin mainOutputStreams
  | write index .. => index
  | read index .. => index

theorem accepted_of_ne {i : Fin mainOutputStreams} {c : Call} (h : c.index ≠ i) :
    c.accepted i = [] := by
  cases c with
  | write index offered count => exact if_neg fun hc => h hc.1
  | read => rfl

theorem received_of_ne {i : Fin mainOutputStreams} {c : Call} (h : c.index ≠ i) :
    c.received i = [] := by
  cases c with
  | write => rfl
  | read index capacity count image => exact if_neg fun hc => h hc.1

theorem not_atEof_of_ne {i : Fin mainOutputStreams} {c : Call} (h : c.index ≠ i) :
    ¬c.AtEof i := by
  cases c with
  | write => exact id
  | read index capacity count image => exact fun hc => h hc.1

end Call

/-- What the sink took of stream `i`, in order. -/
def accepted (i : Fin mainOutputStreams) (log : List Entry) : List UInt8 :=
  log.flatMap fun e => e.call.accepted i

/-- What source `i` gave, in order. -/
def received (i : Fin mainOutputStreams) (log : List Entry) : List UInt8 :=
  log.flatMap fun e => e.call.received i

def AtEof (i : Fin mainOutputStreams) (log : List Entry) : Prop :=
  ∃ e ∈ log, e.call.AtEof i

/-- The stream served last. -/
def lastServed (log : List Entry) : Option (Fin mainOutputStreams) :=
  (log.filterMap fun e => e.call.served).getLast?

/-- The stream read last. -/
def lastRead (log : List Entry) : Option (Fin mainOutputStreams) :=
  (log.filterMap fun e => e.call.gave).getLast?

@[simp]
theorem accepted_snoc (i : Fin mainOutputStreams) (log : List Entry) (e : Entry) :
    accepted i (log ++ [e]) = accepted i log ++ e.call.accepted i := by
  simp [accepted]

@[simp]
theorem received_snoc (i : Fin mainOutputStreams) (log : List Entry) (e : Entry) :
    received i (log ++ [e]) = received i log ++ e.call.received i := by
  simp [received]

@[simp]
theorem atEof_snoc (i : Fin mainOutputStreams) (log : List Entry) (e : Entry) :
    AtEof i (log ++ [e]) ↔ AtEof i log ∨ e.call.AtEof i := by
  simp [AtEof, or_and_right, exists_or]

theorem lastServed_snoc (log : List Entry) (e : Entry) :
    lastServed (log ++ [e]) = e.call.served.or (lastServed log) := by
  rw [lastServed, List.filterMap_append, List.getLast?_append, lastServed]
  cases h : e.call.served <;> simp [h]

theorem lastRead_snoc (log : List Entry) (e : Entry) :
    lastRead (log ++ [e]) = e.call.gave.or (lastRead log) := by
  rw [lastRead, List.filterMap_append, List.getLast?_append, lastRead]
  cases h : e.call.gave <;> simp [h]

/-! ### One stream -/

/-- The buffer of stream `i` holds what was read and not yet delivered. -/
structure MainOutputStream.Keeps (i : Fin mainOutputStreams) (s : MainOutputStream)
    (log : List Entry) : Prop where
  offset_le : s.window.offset ≤ s.window.used
  used_le : s.window.used ≤ mainOutputBufferBytes
  eof_le : s.eof ≤ 1
  conserved : accepted i log ++ s.window.contents = received i log
  ended : s.eof = 1 ↔ AtEof i log

namespace MainOutputStream.Keeps

variable {i : Fin mainOutputStreams} {s : MainOutputStream} {log : List Entry}

/-- A call that moves nothing of the stream changes nothing. -/
theorem idle (h : Keeps i s log) {e : Entry} (haccepted : e.call.accepted i = [])
    (hreceived : e.call.received i = []) (heof : ¬e.call.AtEof i) : Keeps i s (log ++ [e]) where
  offset_le := h.offset_le
  used_le := h.used_le
  eof_le := h.eof_le
  conserved := by simpa [haccepted, hreceived] using h.conserved
  ended := by simpa [heof] using h.ended

/-- A call about the other stream changes nothing. -/
theorem frame (h : Keeps i s log) {e : Entry} (hne : e.call.index ≠ i) : Keeps i s (log ++ [e]) :=
  h.idle (Call.accepted_of_ne hne) (Call.received_of_ne hne) (Call.not_atEof_of_ne hne)

/-- The sink took `count` bytes from the front. -/
theorem advance (h : Keeps i s log) (p : MainOutputPump) {available count : ℕ}
    (hcount : count ≤ available) (havailable : s.window.offset + available ≤ s.window.used) :
    Keeps i { s with window := s.window.advance count } (log ++
      [⟨p, .write i (slice s.window.bytes s.window.offset available) count⟩]) := by
  have hle : s.window.offset + count ≤ s.window.used := by omega
  obtain ⟨hoffset, hused⟩ := s.window.advance_le hle
  refine ⟨hoffset, hused.trans h.used_le, h.eof_le, ?_, ?_⟩
  · have htaken : (Call.write i (slice s.window.bytes s.window.offset available) count).accepted i =
        slice s.window.bytes s.window.offset count := by
      simp only [Call.accepted, length_slice, Int.toNat_natCast]
      rw [if_pos ⟨trivial, hcount⟩, slice_take _ _ hcount]
    simp only [accepted_snoc, received_snoc, htaken, Call.received, List.append_nil]
    rw [List.append_assoc, s.window.contents_advance hle]
    exact h.conserved
  · simpa [Call.AtEof] using h.ended

/-- The source gave `count` bytes into the room above the mark. -/
theorem grow (h : Keeps i s log) (p : MainOutputPump) {capacity count : ℕ} (image : ℕ → UInt8)
    (hpos : 0 < count) (hcount : count ≤ capacity)
    (hcapacity : s.window.used + capacity ≤ mainOutputBufferBytes) :
    Keeps i { s with window := (s.window.fill capacity image).grow count }
      (log ++ [⟨p, .read i capacity count image⟩]) := by
  refine ⟨?_, ?_, h.eof_le, ?_, ?_⟩
  · exact h.offset_le.trans (Nat.le_add_right ..)
  · exact (Nat.add_le_add_left hcount _).trans hcapacity
  · simp only [accepted_snoc, received_snoc, Call.accepted, Call.received, List.append_nil,
      Int.toNat_natCast]
    rw [if_pos ⟨trivial, hcount⟩, s.window.contents_grow_fill image h.offset_le hcount,
      ← List.append_assoc, h.conserved]
  · simpa [Call.AtEof, hpos.ne'] using h.ended

/-- The source is at its end. -/
theorem finish (h : Keeps i s log) (p : MainOutputPump) (capacity : ℕ) (image : ℕ → UInt8) :
    Keeps i { window := s.window.fill capacity image, eof := 1 }
      (log ++ [⟨p, .read i capacity 0 image⟩]) where
  offset_le := h.offset_le
  used_le := h.used_le
  eof_le := le_rfl
  conserved := by simpa [Call.accepted, Call.received] using h.conserved
  ended := by simp [Call.AtEof]

/-- A buffer that was rearranged and stores the same. -/
theorem move (h : Keeps i s log) {w : Window UInt8} (hoffset : w.offset ≤ w.used)
    (hused : w.used ≤ mainOutputBufferBytes) (hcontents : w.contents = s.window.contents) :
    Keeps i { s with window := w } log where
  offset_le := hoffset
  used_le := hused
  eof_le := h.eof_le
  conserved := by
    rw [hcontents]
    exact h.conserved
  ended := h.ended

end MainOutputStream.Keeps

/-! ### The pump -/

namespace MainOutputPump

variable {p : MainOutputPump} {log : List Entry}

@[simp]
theorem setStream_self (p : MainOutputPump) (index : Fin mainOutputStreams)
    (s : MainOutputStream) : (p.setStream index s).stream index = s :=
  Function.update_self ..

theorem setStream_of_ne (p : MainOutputPump) {index i : Fin mainOutputStreams}
    (s : MainOutputStream) (h : i ≠ index) : (p.setStream index s).stream i = p.stream i :=
  Function.update_of_ne h ..

theorem setStream_setStream (p : MainOutputPump) (index : Fin mainOutputStreams)
    (s t : MainOutputStream) : (p.setStream index s).setStream index t = p.setStream index t := by
  simp [setStream]

/-- A pump none of whose checks fails, whose buffers hold what is on its way, and whose turns
are those after the streams last served and last read. A pump that failed did so with work
left. -/
structure Keeps (p : MainOutputPump) (log : List Entry) : Prop where
  stream : ∀ i, (p.stream i).Keeps i log
  nextRead_lt : p.nextRead < mainOutputStreams
  nextWrite_lt : p.nextWrite < mainOutputStreams
  within : ∀ e ∈ log, e.call.WithinQuantum
  unfinished : p.failed → ∃ i, (p.stream i).eof = 0 ∨ (p.stream i).window.contents ≠ []
  writeTurn : ∀ i, lastServed log = some i → p.nextWrite = (i.val + 1) % mainOutputStreams
  readTurn : ∀ i, lastRead log = some i → p.nextRead = (i.val + 1) % mainOutputStreams

theorem Keeps.sound (h : p.Keeps log) : p.Sound :=
  ⟨h.nextRead_lt, h.nextWrite_lt, fun i => ⟨(h.stream i).offset_le, (h.stream i).used_le,
    (h.stream i).eof_le⟩⟩

theorem keeps_init : mainOutputPumpInit.Keeps [] where
  stream i :=
    { offset_le := le_rfl, used_le := Nat.zero_le _, eof_le := Nat.zero_le _, conserved := rfl
      ended := by simp [mainOutputPumpInit, AtEof] }
  nextRead_lt := by decide
  nextWrite_lt := by decide
  within := by simp
  unfinished := nofun
  writeTurn := nofun
  readTurn := nofun

/-- The streams after one of them was replaced and a call about it was recorded. -/
theorem Keeps.streams (h : p.Keeps log) {s : MainOutputStream} (e : Entry)
    (hs : s.Keeps e.call.index (log ++ [e])) :
    ∀ i, ((p.setStream e.call.index s).stream i).Keeps i (log ++ [e]) := by
  intro i
  rcases eq_or_ne i e.call.index with rfl | hne
  · rwa [setStream_self]
  · rw [setStream_of_ne p s hne]
    exact (h.stream i).frame hne.symm

theorem Keeps.within_snoc (h : p.Keeps log) {e : Entry} (he : e.call.WithinQuantum) :
    ∀ d ∈ log ++ [e], d.call.WithinQuantum := by
  intro d hd
  rcases List.mem_append.mp hd with hd | hd
  · exact h.within d hd
  · rw [List.mem_singleton.mp hd]
    exact he

/-- A pump that keeps its streams but fails with work left. -/
theorem Keeps.fail (h : p.Keeps log) {i : Fin mainOutputStreams}
    (hi : (p.stream i).eof = 0 ∨ (p.stream i).window.contents ≠ []) :
    Keeps { p with failed := true } log where
  stream := h.stream
  nextRead_lt := h.nextRead_lt
  nextWrite_lt := h.nextWrite_lt
  within := h.within
  unfinished := fun _ => ⟨i, hi⟩
  writeTurn := h.writeTurn
  readTurn := h.readTurn

/-- A call that moves nothing is recorded. -/
theorem Keeps.record (h : p.Keeps log) {e : Entry}
    (haccepted : e.call.accepted e.call.index = []) (hreceived : e.call.received e.call.index = [])
    (heof : ¬e.call.AtEof e.call.index) (hwithin : e.call.WithinQuantum)
    (hserved : e.call.served = none) (hgave : e.call.gave = none) : p.Keeps (log ++ [e]) where
  stream i := by
    by_cases hi : e.call.index = i
    · subst hi
      exact (h.stream _).idle haccepted hreceived heof
    · exact (h.stream i).frame hi
  nextRead_lt := h.nextRead_lt
  nextWrite_lt := h.nextWrite_lt
  within := h.within_snoc hwithin
  unfinished := h.unfinished
  writeTurn i hi := h.writeTurn i (by rwa [lastServed_snoc, hserved, Option.none_or] at hi)
  readTurn i hi := h.readTurn i (by rwa [lastRead_snoc, hgave, Option.none_or] at hi)

theorem turn_lt (index : Fin mainOutputStreams) :
    (index.val + 1) % mainOutputStreams < mainOutputStreams :=
  Nat.mod_lt _ (by decide)

/-- The pump after any answer of the sink to an offer. -/
theorem Keeps.afterWrite (h : p.Keeps log) (hfailed : p.failed = false)
    {index : Fin mainOutputStreams} {available : ℕ}
    (hpending : (p.stream index).window.offset < (p.stream index).window.used)
    (havailable : available =
      min ((p.stream index).window.used - (p.stream index).window.offset) mainOutputQuantum)
    (q : MainOutputPump) (count : ℤ) :
    (p.afterWrite index available count).Keeps (log ++ [⟨q, .write index
      (slice (p.stream index).window.bytes (p.stream index).window.offset available) count⟩]) := by
  have hwithin : available ≤ mainOutputQuantum := by omega
  have hcontents : (p.stream index).window.contents ≠ [] := by
    rw [ne_eq, Window.contents_eq_nil_iff]
    omega
  rw [MainOutputPump.afterWrite]
  -- No byte was taken, or an answer that no sink may give; else the window moves on.
  split
  · next hrefused =>
    have hrecord : p.Keeps (log ++ [⟨q, .write index
        (slice (p.stream index).window.bytes (p.stream index).window.offset available)
        count⟩]) := by
      refine h.record ?_ rfl (fun hc => hc) (by simpa [Call.WithinQuantum] using hwithin) ?_ rfl
      · simp only [Call.accepted, Call.index, length_slice, true_and]
        rcases hrefused with hneg | hover
        · simp [Int.toNat_of_nonpos hneg]
        · exact if_neg (by omega)
      · exact if_neg (by rw [length_slice]; omega)
    split
    · exact hrecord
    · exact hrecord.fail (.inr hcontents)
  · next htaken =>
    obtain ⟨hpos, hle⟩ := not_or.mp htaken
    lift count to ℕ using by omega
    simp only [Int.toNat_natCast, not_lt] at hle
    have hkeeps := (h.stream index).advance q hle (by omega)
    refine ⟨h.streams ⟨q, .write index _ _⟩ hkeeps, h.nextRead_lt, turn_lt index,
      h.within_snoc (by simpa [Call.WithinQuantum] using hwithin), ?_, ?_, ?_⟩
    · exact fun hc => absurd hc (by simp [setWindow, setStream, hfailed])
    · intro i hi
      have hserved : (Call.write index (slice (p.stream index).window.bytes
          (p.stream index).window.offset available) count).served = some index :=
        if_pos ⟨by omega, by simpa using hle⟩
      rw [lastServed_snoc, hserved, Option.some_or, Option.some.injEq] at hi
      rw [hi]
    · intro i hi
      exact h.readTurn i (by rwa [lastRead_snoc, Call.gave, Option.none_or] at hi)

/-- A buffer may be rearranged at any time. -/
theorem Keeps.move (h : p.Keeps log) {index : Fin mainOutputStreams} {w : Window UInt8}
    (hoffset : w.offset ≤ w.used) (hused : w.used ≤ mainOutputBufferBytes)
    (hcontents : w.contents = (p.stream index).window.contents) :
    (p.setWindow index w).Keeps log where
  stream i := by
    rcases eq_or_ne i index with rfl | hne
    · rw [setWindow, setStream_self]
      exact (h.stream i).move hoffset hused hcontents
    · rw [setWindow, setStream_of_ne p _ hne]
      exact h.stream i
  nextRead_lt := h.nextRead_lt
  nextWrite_lt := h.nextWrite_lt
  within := h.within
  unfinished hf := by
    obtain ⟨i, hi⟩ := h.unfinished hf
    refine ⟨i, ?_⟩
    rcases eq_or_ne i index with rfl | hne
    · rwa [setWindow, setStream_self, hcontents]
    · rwa [setWindow, setStream_of_ne p _ hne]
  writeTurn := h.writeTurn
  readTurn := h.readTurn

theorem Keeps.compact (h : p.Keeps log) (index : Fin mainOutputStreams) :
    (p.setWindow index (p.stream index).window.compact).Keeps log :=
  h.move (by simp) ((Window.compact_used _).trans_le
    ((Nat.sub_le ..).trans (h.stream index).used_le)) (Window.contents_compact _)

/-- What a callback leaves above the mark is nothing stored. -/
theorem Keeps.fill (h : p.Keeps log) (index : Fin mainOutputStreams) (capacity : ℕ)
    (image : ℕ → UInt8) :
    (p.setWindow index ((p.stream index).window.fill capacity image)).Keeps log :=
  h.move (h.stream index).offset_le (h.stream index).used_le (Window.contents_fill ..)

/-- The pump after a source with room answered with something else than “try again”. -/
theorem Keeps.afterRead (h : p.Keeps log) (hfailed : p.failed = false)
    {index : Fin mainOutputStreams} (heof : (p.stream index).eof = 0) {capacity : ℕ}
    (hwithin : capacity ≤ mainOutputQuantum)
    (hcapacity : (p.stream index).window.used + capacity ≤ mainOutputBufferBytes)
    (q : MainOutputPump) (count : ℤ) (image : ℕ → UInt8) :
    ((p.setWindow index ((p.stream index).window.fill capacity image)).afterRead index capacity
      count).Keeps (log ++ [⟨q, .read index capacity count image⟩]) := by
  have hgave : 0 ≤ count ∧ count.toNat ≤ capacity →
      (Call.read index capacity count image).gave = some index := fun hc => if_pos hc
  rw [MainOutputPump.afterRead]
  -- No bytes: the source is at its end.
  split
  · next hzero =>
    subst hzero
    have hkeeps := (h.stream index).finish q capacity image
    refine ⟨?_, turn_lt index, h.nextWrite_lt, h.within_snoc hwithin, ?_, ?_, ?_⟩
    · rw [setWindow, setStream_setStream, setStream_self]
      exact h.streams ⟨q, .read index capacity _ image⟩ hkeeps
    · exact fun hc => absurd hc (by simp [setWindow, setStream, hfailed])
    · exact fun i hi => h.writeTurn i (by rwa [lastServed_snoc, Call.served, Option.none_or] at hi)
    · intro i hi
      rw [lastRead_snoc, hgave ⟨le_rfl, Nat.zero_le _⟩, Option.some_or, Option.some.injEq] at hi
      rw [hi]
  -- An answer that no call may give, or an error, stops the pump; else the bytes have come.
  split
  · next hzero hbad =>
    have hnone : (Call.read index capacity count image).gave = none := if_neg (by omega)
    have hreceived : (Call.read index capacity count image).received index = [] := by
      simp only [Call.received, true_and]
      rcases hbad with hneg | hover
      · simp [Int.toNat_of_nonpos hneg.le]
      · exact if_neg (by omega)
    have hrecord := (h.record (e := ⟨q, .read index capacity count image⟩) rfl hreceived
      (fun hc => hzero hc.2) hwithin rfl hnone).fill index capacity image
    refine hrecord.fail (i := index) (.inl ?_)
    rw [setWindow, setStream_self]
    exact heof
  · next hzero hgood =>
    lift count to ℕ using by omega
    simp only [Int.toNat_natCast, not_or, not_lt] at hgood
    have hkeeps := (h.stream index).grow q image (by omega) hgood.2 hcapacity
    refine ⟨?_, turn_lt index, h.nextWrite_lt, h.within_snoc hwithin, ?_, ?_, ?_⟩
    · rw [setWindow, setWindow, setStream_setStream, setStream_self]
      exact h.streams ⟨q, .read index capacity _ image⟩ hkeeps
    · exact fun hc => absurd hc (by simp [setWindow, setStream, hfailed])
    · exact fun i hi => h.writeTurn i (by rwa [lastServed_snoc, Call.served, Option.none_or] at hi)
    · intro i hi
      rw [lastRead_snoc, hgave ⟨by omega, by simpa using hgood.2⟩, Option.some_or,
        Option.some.injEq] at hi
      rw [hi]

theorem succ_ne (i : Fin mainOutputStreams) : i + 1 ≠ i := by revert i; decide

theorem succ_succ (i : Fin mainOutputStreams) : i + 1 + 1 = i := by revert i; decide

theorem turn_zero {i : Fin mainOutputStreams} {next : ℕ}
    (h : next = (i.val + 1) % mainOutputStreams) : turn next 0 = i + 1 := by
  apply Fin.ext
  simp [turn, h, Fin.val_add]

theorem turn_one (next : ℕ) : turn next 1 = turn next 0 + 1 := by
  apply Fin.ext
  simp [turn, Fin.val_add]

end MainOutputPump

/-! ### The record of a run -/

/-- Source `j` was not to be read on the pump: it had ended, its buffer had no room, or it had
just answered “try again”. -/
def Stalled (p : MainOutputPump) (before : List Entry) (j : Fin mainOutputStreams) : Prop :=
  (p.stream j).eof = 1 ∨ (p.stream j).window.contents.length = mainOutputBufferBytes ∨
    ∃ e, before.getLast? = some e ∧ e.call.Again j

/-- A call that serves, or reads, the stream that was served or read last does so because the
other one could make no progress. -/
structure Fair (before : List Entry) (e : Entry) : Prop where
  write : ∀ i, e.call.served = some i → lastServed before = some i →
    (e.pump.stream (i + 1)).window.contents = []
  read : ∀ i, e.call.gave = some i → lastRead before = some i → Stalled e.pump before (i + 1)

namespace Pumping

open MainOutputPump

/-- The pump keeps its streams, and did so at every call. -/
structure Good (r : Pumping) : Prop where
  keeps : r.pump.Keeps r.log
  witnessed : Throughout (fun before e => e.pump.Keeps before ∧ Fair before e) r.log

variable {r : Pumping}

/-- Offering a pending stream, when the one served last has no claim of its own. -/
theorem Good.offer (h : r.Good) (hfailed : r.pump.failed = false) {index : Fin mainOutputStreams}
    {available : ℕ} (hpending : (r.pump.stream index).window.offset <
      (r.pump.stream index).window.used)
    (havailable : available = min ((r.pump.stream index).window.used -
      (r.pump.stream index).window.offset) mainOutputQuantum)
    (hturn : lastServed r.log = some index → (r.pump.stream (index + 1)).window.contents = [])
    (count : ℤ) :
    Good { pump := r.pump.afterWrite index available count
           log := r.log ++ [⟨r.pump, .write index (slice (r.pump.stream index).window.bytes
             (r.pump.stream index).window.offset available) count⟩] } where
  keeps := h.keeps.afterWrite hfailed hpending havailable r.pump count
  witnessed := by
    refine throughout_concat.mpr ⟨h.witnessed, h.keeps, fun i hi hlast => ?_, nofun⟩
    rw [Call.served] at hi
    split at hi
    · obtain rfl := Option.some.inj hi
      exact hturn hlast
    · cases hi

theorem Good.writeLoop (h : r.Good) (hfailed : r.pump.failed = false)
    (writeSink : List UInt8 → ℤ) : (r.writeLoop writeSink attempts).Good := by
  have hattempts : attempts = [0, 1] := rfl
  rw [hattempts, Pumping.writeLoop]
  dsimp only
  split
  · next hpending =>
    refine h.offer hfailed hpending rfl (fun hlast => ?_) _
    -- the stream served last is not the one whose turn it is
    have hturn := turn_zero (h.keeps.writeTurn _ hlast)
    exact absurd hturn.symm (succ_ne _)
  · next hidle =>
    rw [Pumping.writeLoop, turn_one]
    dsimp only
    split
    · next hpending =>
      refine h.offer hfailed hpending rfl (fun _ => ?_) _
      have hback : turn r.pump.nextWrite 0 + 1 + 1 = turn r.pump.nextWrite 0 := succ_succ _
      rw [hback, Window.contents_eq_nil_iff]
      exact not_lt.mp hidle
    · exact h

/-- The next source is read, or passed over for a reason that the record shows. The rest of
the loop goes on from a pump whose turns and whose last stream are the same. -/
theorem Good.readLoop_cons (h : r.Good) (hfailed : r.pump.failed = false) {attempt : ℕ}
    (readSource : Fin mainOutputStreams → ℕ → ℤ × (ℕ → UInt8)) {rest : List ℕ}
    (hturn : lastRead r.log = some (turn r.pump.nextRead attempt) →
      Stalled r.pump r.log (turn r.pump.nextRead attempt + 1))
    (hrest : ∀ r' : Pumping, r'.Good → r'.pump.failed = false →
      r'.pump.nextRead = r.pump.nextRead → lastRead r'.log = lastRead r.log →
      Stalled r'.pump r'.log (turn r.pump.nextRead attempt) →
      (r'.readLoop readSource rest).Good) :
    (r.readLoop readSource (attempt :: rest)).Good := by
  rw [Pumping.readLoop]
  generalize hindex : turn r.pump.nextRead attempt = index at hturn hrest ⊢
  have hstream := h.keeps.stream index
  dsimp only
  split
  -- A stream that has ended is passed over.
  · next heof =>
    exact hrest r h hfailed rfl rfl (.inl (by have := hstream.eof_le; omega))
  · next heof =>
    have hmoved := h.keeps.compact index
    have hused := (hmoved.stream index).used_le
    simp only [setWindow, setStream_self] at hused
    split
    -- So is one whose buffer is full, also after it has been compacted.
    · next hfull =>
      refine hrest _ ⟨hmoved, h.witnessed⟩ hfailed rfl rfl (.inr (.inl ?_))
      rw [setWindow, setStream_self, Window.length_contents, Window.compact_offset, hfull]
      rfl
    · next hroom =>
      generalize hcapacity : min (mainOutputBufferBytes -
        (r.pump.stream index).window.compact.used) mainOutputQuantum = capacity
      obtain ⟨count, image⟩ := readSource index capacity
      have hself : ((r.pump.setWindow index (r.pump.stream index).window.compact).stream
          index).window = (r.pump.stream index).window.compact := by
        rw [setWindow, setStream_self]
      generalize hmovedeq : r.pump.setWindow index (r.pump.stream index).window.compact = moved
        at hmoved hself ⊢
      have hmovedfailed : moved.failed = false := by rw [← hmovedeq]; exact hfailed
      have hnext : moved.nextRead = r.pump.nextRead := by rw [← hmovedeq]; rfl
      have hwitnessed : Throughout (fun before e => e.pump.Keeps before ∧ Fair before e)
          (r.log ++ [⟨moved, .read index capacity count image⟩]) := by
        refine throughout_concat.mpr ⟨h.witnessed, hmoved, nofun, fun i hi hlast => ?_⟩
        rw [Call.gave] at hi
        split at hi
        · obtain rfl := Option.some.inj hi
          have hother : index + 1 ≠ index := succ_ne index
          rw [Stalled, ← hmovedeq, setWindow, setStream_of_ne _ _ hother]
          exact hturn hlast
        · cases hi
      rw [← hself]
      dsimp only
      split
      -- A source that has nothing to give is passed over too; what gives ends the loop.
      · next hagain =>
        have hnone : (Call.read index capacity count image).gave = none := if_neg (by omega)
        have hrecord := hmoved.record (e := ⟨moved, .read index capacity count image⟩) rfl
          (by simp [Call.received, Call.index, Int.toNat_of_nonpos hagain.1.le])
          (fun hc => hagain.1.ne hc.2) (by simp only [Call.WithinQuantum]; omega) rfl hnone
        refine hrest _ ⟨hrecord.fill index capacity image, hwitnessed⟩ hmovedfailed hnext ?_ ?_
        · rw [lastRead_snoc, hnone, Option.none_or]
        · exact .inr (.inr ⟨_, List.getLast?_concat, rfl, hagain.2⟩)
      · refine ⟨hmoved.afterRead hmovedfailed ?_ (by omega) ?_ moved count image, hwitnessed⟩
        · rw [← hmovedeq, setWindow, setStream_self]
          exact not_not.mp heof
        · rw [hself]
          omega

theorem Good.readLoop (h : r.Good) (hfailed : r.pump.failed = false)
    (readSource : Fin mainOutputStreams → ℕ → ℤ × (ℕ → UInt8)) :
    (r.readLoop readSource attempts).Good := by
  have hattempts : attempts = [0, 1] := rfl
  rw [hattempts]
  refine h.readLoop_cons hfailed readSource (fun hlast => ?_)
    fun r' h' hfailed' hnext hlast' hstalled => ?_
  · have hturn := turn_zero (h.keeps.readTurn _ hlast)
    exact absurd hturn.symm (succ_ne _)
  refine h'.readLoop_cons hfailed' readSource (fun _ => ?_) fun r'' h'' _ _ _ _ => h''
  have hback : turn r'.pump.nextRead 1 + 1 = turn r.pump.nextRead 0 := by
    rw [hnext, turn_one, succ_succ]
  rw [hback]
  exact hstalled

theorem Good.tick (h : r.Good) (readSource : Fin mainOutputStreams → ℕ → ℤ × (ℕ → UInt8))
    (writeSink : List UInt8 → ℤ) :
    (mainOutputPumpTick (some readSource) (some writeSink) r).Good := by
  rw [mainOutputPumpTick]
  split
  · exact h
  · next hfailed =>
    have hwritten := h.writeLoop (Bool.eq_false_iff.mpr hfailed) writeSink
    dsimp only
    rw [if_pos h.keeps.sound]
    split
    · exact hwritten
    · next hfailed => exact hwritten.readLoop (Bool.eq_false_iff.mpr hfailed) readSource

theorem good_pumping (ticks : List Callbacks) : (pumping ticks).Good := by
  induction ticks using List.reverseRecOn with
  | nil => exact ⟨keeps_init, throughout_nil⟩
  | append_singleton ticks t ih =>
    rw [pumping, List.foldl_append]
    exact ih.tick t.readSource t.writeSink

end Pumping

/-! ### Progress -/

namespace MainOutputPump

theorem exists_turn (next : ℕ) (i : Fin mainOutputStreams) :
    ∃ attempt ∈ Pumping.attempts, turn next attempt = i := by
  have hcases : ∀ j k : Fin mainOutputStreams, j = k ∨ j + 1 = k := by decide
  rcases hcases (turn next 0) i with h | h
  · exact ⟨0, by decide, h⟩
  · exact ⟨1, by decide, (turn_one next).trans h⟩

end MainOutputPump

namespace Pumping

open MainOutputPump

variable {r : Pumping}

/-- If a stream has something pending, something is offered. -/
theorem writeLoop_offers (writeSink : List UInt8 → ℤ) {l : List ℕ}
    (h : ∃ attempt ∈ l, (r.pump.stream (turn r.pump.nextWrite attempt)).window.contents ≠ []) :
    ∃ index offered count, offered ≠ [] ∧ offered <+: (r.pump.stream index).window.contents ∧
      (r.writeLoop writeSink l).log = r.log ++ [⟨r.pump, .write index offered count⟩] := by
  induction l with
  | nil => simp at h
  | cons attempt l ih =>
    rw [writeLoop]
    dsimp only
    split
    · next hpending =>
      refine ⟨turn r.pump.nextWrite attempt, _, _, ?_, ?_, rfl⟩
      · rw [← List.length_pos_iff, length_slice, mainOutputQuantum]
        omega
      · rw [Window.contents, ← slice_take _ _ (Nat.min_le_left _ mainOutputQuantum)]
        exact List.take_prefix ..
    · next hidle =>
      refine ih ?_
      obtain ⟨other, hmem, hne⟩ := h
      rcases List.mem_cons.mp hmem with rfl | hmem
      · rw [ne_eq, Window.contents_eq_nil_iff] at hne
        omega
      · exact ⟨other, hmem, hne⟩

theorem readLoop_prefix (readSource : Fin mainOutputStreams → ℕ → ℤ × (ℕ → UInt8)) (l : List ℕ)
    (p : MainOutputPump) (log : List Entry) : log <+: (readLoop readSource l ⟨p, log⟩).log := by
  induction l generalizing p log with
  | nil => exact List.prefix_rfl
  | cons attempt l ih =>
    rw [readLoop]
    dsimp only
    split
    · exact ih p log
    split
    · exact ih _ log
    split
    · exact (List.prefix_append ..).trans (ih _ _)
    · exact List.prefix_append ..

/-- If a stream that has not ended has room, some stream is read. -/
theorem readLoop_reads (readSource : Fin mainOutputStreams → ℕ → ℤ × (ℕ → UInt8)) {l : List ℕ}
    {p : MainOutputPump} (log : List Entry) {i : Fin mainOutputStreams}
    (h : ∃ attempt ∈ l, turn p.nextRead attempt = i) (heof : (p.stream i).eof = 0)
    (hroom : (p.stream i).window.contents.length < mainOutputBufferBytes) :
    ∃ pump index capacity count image, log ++ [⟨pump, .read index capacity count image⟩] <+:
      (readLoop readSource l ⟨p, log⟩).log := by
  induction l generalizing p with
  | nil => simp at h
  | cons attempt l ih =>
    obtain ⟨other, hmem, hother⟩ := h
    rw [readLoop]
    dsimp only
    split
    · next hended =>
      rcases List.mem_cons.mp hmem with rfl | hmem
      · exact absurd (hother ▸ heof) hended
      · exact ih ⟨other, hmem, hother⟩ heof hroom
    split
    · next hfull =>
      have hne : i ≠ turn p.nextRead attempt := by
        rintro rfl
        rw [Window.compact_used] at hfull
        rw [Window.length_contents] at hroom
        omega
      rcases List.mem_cons.mp hmem with rfl | hmem
      · exact absurd hother.symm hne
      -- only the buffer of the other stream was rearranged
      · refine ih ⟨other, hmem, hother⟩ ?_ ?_
        · rwa [setWindow, setStream_of_ne _ _ hne]
        · rwa [setWindow, setStream_of_ne _ _ hne]
    split
    · exact ⟨_, _, _, _, _, readLoop_prefix readSource l _ _⟩
    · exact ⟨_, _, _, _, _, List.prefix_rfl⟩

end Pumping

open Pumping in
/-- **A tick of a pump that has not failed makes progress**: it offers something if anything is
pending, and unless the sink fails it, it reads some stream if one that has not ended has room. -/
theorem mainOutputPump_progress (ticks : List Callbacks) (t : Callbacks)
    (hfailed : (pumping ticks).pump.failed = false) :
    ((∃ i, ((pumping ticks).pump.stream i).window.contents ≠ []) →
      ∃ index offered count, offered ≠ [] ∧
        offered <+: ((pumping ticks).pump.stream index).window.contents ∧
        (pumping ticks).log ++ [⟨(pumping ticks).pump, .write index offered count⟩] <+:
          (pumping (ticks ++ [t])).log) ∧
    ∀ written, written = (pumping ticks).writeLoop t.writeSink attempts →
      written.pump.failed = false →
      (∃ i, (written.pump.stream i).eof = 0 ∧
        (written.pump.stream i).window.contents.length < mainOutputBufferBytes) →
      ∃ pump index capacity count image, written.log ++
        [⟨pump, .read index capacity count image⟩] <+: (pumping (ticks ++ [t])).log := by
  -- A tick is the loop over the sinks, and the one over the sources unless that has failed.
  have htick : pumping (ticks ++ [t]) =
      let written := (pumping ticks).writeLoop t.writeSink attempts
      if written.pump.failed then written else written.readLoop t.readSource attempts := by
    rw [pumping, List.foldl_append]
    exact (if_neg (Bool.eq_false_iff.mp hfailed)).trans
      (if_pos (good_pumping ticks).keeps.sound)
  constructor
  · rintro ⟨i, hi⟩
    obtain ⟨attempt, hmem, hturn⟩ := MainOutputPump.exists_turn (pumping ticks).pump.nextWrite i
    obtain ⟨index, offered, count, hne, hprefix, hlog⟩ :=
      writeLoop_offers t.writeSink ⟨attempt, hmem, hturn ▸ hi⟩
    refine ⟨index, offered, count, hne, hprefix, ?_⟩
    rw [htick, ← hlog]
    dsimp only
    split
    · exact List.prefix_rfl
    · exact readLoop_prefix ..
  · rintro written rfl hwritten ⟨i, heof, hroom⟩
    rw [htick]
    dsimp only
    rw [hwritten, if_neg Bool.false_ne_true]
    exact readLoop_reads t.readSource _ (MainOutputPump.exists_turn _ i) heof hroom

/-! ### The pump delivers each stream exactly -/

/-- **The account of a pump**: each stream was delivered as far as it was read, but for what
its buffer holds, the marks of the buffer are in order, and the pump calls itself drained when
nothing is left to come or to go. -/
structure Exact (p : MainOutputPump) (log : List Entry) : Prop where
  within : ∀ i, (p.stream i).window.offset ≤ (p.stream i).window.used ∧
    (p.stream i).window.used ≤ mainOutputBufferBytes
  conserved : ∀ i, accepted i log ++ (p.stream i).window.contents = received i log
  drained_iff : mainOutputPumpDrained p = true ↔
    ∀ i, AtEof i log ∧ accepted i log = received i log

theorem MainOutputPump.Keeps.drained_iff {p : MainOutputPump} {log : List Entry}
    (h : p.Keeps log) :
    mainOutputPumpDrained p = true ↔ ∀ i, AtEof i log ∧ accepted i log = received i log := by
  have hturns : ¬(p.nextRead ≥ mainOutputStreams ∨ p.nextWrite ≥ mainOutputStreams) :=
    not_or.mpr ⟨not_le.mpr h.nextRead_lt, not_le.mpr h.nextWrite_lt⟩
  have hempty : ∀ i, accepted i log = received i log ↔ (p.stream i).window.contents = [] := by
    intro i
    rw [← (h.stream i).conserved, List.self_eq_append_right]
  simp only [hempty, ← (h.stream _).ended, Window.contents_eq_nil_iff, mainOutputPumpDrained]
  rw [if_neg hturns]
  split
  · next hfailed =>
    obtain ⟨i, hi⟩ := h.unfinished hfailed
    refine iff_of_false Bool.false_ne_true fun hall => ?_
    rcases hi with hi | hi
    · rw [(hall i).1] at hi
      cases hi
    · exact hi ((Window.contents_eq_nil_iff _).mpr (hall i).2)
  · rw [decide_eq_true_iff]
    refine forall_congr' fun i => ?_
    have hoffset := (h.stream i).offset_le
    have hused := (h.stream i).used_le
    omega

theorem MainOutputPump.Keeps.exact {p : MainOutputPump} {log : List Entry} (h : p.Keeps log) :
    Exact p log where
  within i := ⟨(h.stream i).offset_le, (h.stream i).used_le⟩
  conserved i := (h.stream i).conserved
  drained_iff := h.drained_iff

theorem MainOutputPump.Keeps.within_throughout {p : MainOutputPump} {log : List Entry}
    (h : p.Keeps log) : Throughout (fun _ e => e.call.WithinQuantum) log :=
  fun _ e _ heq => h.within e (heq ▸ List.mem_append_right _ List.mem_cons_self)

/-- **The pump delivers each stream exactly**, through any number of ticks and whatever the
callbacks answer: after the last tick and at every call before, the account is in order; no
call offers or asks for more than a quantum; and no stream is served or read twice in a row
while the other could have made progress. -/
theorem mainOutputPump_exact (ticks : List Callbacks) :
    Exact (pumping ticks).pump (pumping ticks).log ∧
      Throughout (fun before e => Exact e.pump before ∧ e.call.WithinQuantum ∧ Fair before e)
        (pumping ticks).log := by
  obtain ⟨hkeeps, hwitnessed⟩ := Pumping.good_pumping ticks
  refine ⟨hkeeps.exact, fun before e after heq => ?_⟩
  obtain ⟨hk, hfair⟩ := hwitnessed before e after heq
  exact ⟨hk.exact, hkeeps.within_throughout before e after heq, hfair⟩

end Palimpsest.Guest
