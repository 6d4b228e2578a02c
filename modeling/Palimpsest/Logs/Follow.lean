import Palimpsest.Logs.Rounds

/-!
# Followed logs

A stream delivers the console from its beginning, in order, without gaps and repetitions, and its
terminal event says how far it came (`Delivered`). A followed log that ends with the run is
complete. Where the ledger is replaced, or the run removed, while the stream looks whether the
run is over, it ends with an error instead; and a snapshot of a run that is removed meanwhile may
end before its boundary.
-/

namespace Palimpsest.Logs

open Calls

/-- What the data before the terminal event is. -/
def Delivered (initial : List UInt8) (w : World) (before : List LogEvent) :
    LogMode → Outcome → Prop
  | .follow, .runTerminal _ => dataOf before = w.content
  | .follow, .error _ => w.disturbed
  | .follow, .snapshotComplete => False
  | .snapshot, .snapshotComplete => dataOf before = initial
  | .snapshot, .error _ => dataOf before = initial ∨ w.runNamed = false
  | .snapshot, .runTerminal _ => False
  | _, .cancelled => w.cancelled

/-- At every moment, after every sequence of events, what was delivered is the beginning of the
console. A terminal event comes after events with data, and once. -/
theorem streamed_delivers (kind : RuntimeKind) (mode : LogMode) (content : List UInt8)
    (status : {s : RunStatus // s ∈ allowedRuntimeStatuses kind})
    (events : List (LoopEvent ℕ Drift)) :
    let w := streamed kind mode content status events
    dataOf w.delivered <+: w.content ∧
      (mode = .snapshot → dataOf w.delivered <+: content) ∧
      (Throughout IsData w.delivered ∨
        ∃ before outcome, Throughout IsData before ∧
          w.delivered = before ++ [.terminal (before.length + 1) outcome] ∧
          Delivered content w before mode outcome) := by
  intro w
  have hinv : Inv kind mode content w := inv_streamed status.2 events
  -- The stream is still open, or has ended with one of the outcomes.
  rcases hinv.stream with ⟨r, hopen⟩ | hover
  · refine ⟨?_, fun hm => ?_, .inl hopen.events⟩
    · rw [hopen.data]
      exact List.take_prefix _ _
    · obtain ⟨more, hmore⟩ := hinv.files.initial
      rw [hopen.data, ← hmore, List.take_append_of_le_length (hopen.snapshot hm)]
      exact List.take_prefix _ _
  · obtain ⟨before, o, hbefore, hdelivered, ho⟩ := hover.terminal
    have hdata : dataOf w.delivered = dataOf before := by
      rw [hdelivered, dataOf_concat]
      exact List.append_nil _
    refine ⟨hover.data, hover.snapshot, .inr ⟨before, o, hbefore, hdelivered, ?_⟩⟩
    cases o with
    | cancelled =>
      cases mode with
      | follow => exact ho
      | snapshot => exact ho
    | snapshotComplete =>
      obtain ⟨rfl, hall⟩ := ho
      exact hdata.symm.trans hall
    | runTerminal s =>
      obtain ⟨rfl, -, hall⟩ := ho
      exact hdata.symm.trans hall
    | error e =>
      cases mode with
      | follow => exact ho
      | snapshot => exact ho.imp hdata.symm.trans id

/-- So many calls, in which a read returns one byte. -/
def calls (n : ℕ) : List (LoopEvent ℕ Drift) := List.replicate n (.next 0)

/-- The run stops after the stream has opened its ledger: the last bytes are not delivered. A run
is removed between two reads of its snapshot: the second one fails. -/
theorem streamed_incomplete :
    (let w := streamed .cloudImage .follow [1] .running
      (calls 18 ++ [.drift (.append [2, 3]), .drift (.setStatus .stopped)] ++ calls 2)
    w.delivered = [.data 1 1 [1], .terminal 2 (.error .runChanged)] ∧ w.content = [1, 2, 3]) ∧
    (let w := streamed .cloudImage .snapshot [1, 2] .stopped
      (calls 9 ++ [.drift .detach, .drift .unlinkConsole] ++ calls 9)
    w.delivered = [.data 1 1 [1], .terminal 2 (.error .consoleChanged)] ∧
      w.content = [1, 2]) := by
  decide

end Palimpsest.Logs
