import Palimpsest.Lib.Throughout
import Palimpsest.Logs.Console

/-!
# What a log stream delivers

The invariant of a stream and its surroundings (`Inv`): what was delivered is the beginning of
the console, and a terminal event says what is missing. Between two calls the console only grows,
and not at all once it is sealed (`Rely`). Each function of the source keeps the invariant, and
the answers it goes by still mean something when it returns.
-/

namespace Palimpsest.Logs

open Calls

variable {kind : RuntimeKind} {mode : LogMode} {initial : List UInt8} {w w' : World}

/-! ### The invariant -/

/-- What the last event says, if it is a terminal one. -/
def Outcome.Holds (mode : LogMode) (initial : List UInt8) (w : World) : Outcome → Prop
  | .cancelled => w.cancelled
  | .snapshotComplete => mode = .snapshot ∧ dataOf w.delivered = initial
  | .runTerminal _ => mode = .follow ∧ w.sealed ∧ dataOf w.delivered = w.content
  | .error _ =>
    match mode with
    | .follow => w.disturbed
    | .snapshot => dataOf w.delivered = initial ∨ w.runNamed = false

/-- The event is one with data, and comes at its place. -/
def IsData (before : List LogEvent) (e : LogEvent) : Prop :=
  ∃ content, content ≠ [] ∧ e = .data (before.length + 1) (before.length + 1) content

/-- The files of a run, as the program that writes them leaves them at every moment. -/
structure Files (kind : RuntimeKind) (initial : List UInt8) (w : World) : Prop where
  initial : initial <+: w.content
  linked : w.named → w.linked
  present : w.runNamed → w.named ∧ w.owner.isSome ∧ w.state.isSome
  status : ∀ entry ∈ w.state, ∃ s ∈ entry.status, s ∈ allowedRuntimeStatuses kind ∧
    (s ∈ terminalStatuses → w.sealed)
  removed : w.runNamed = false → w.sealed

/-- What was delivered when the stream goes on. -/
structure Open (mode : LogMode) (initial : List UInt8) (r : Reader) (w : World) : Prop where
  data : dataOf w.delivered = w.content.take r.position
  position : r.position ≤ w.content.length
  snapshot : mode = .snapshot → r.position ≤ initial.length
  events : Throughout IsData w.delivered
  cursor : r.cursorPosition = w.delivered.length
  sequence : r.streamSequence = w.delivered.length

/-- What was delivered when the stream is over. -/
structure Over (mode : LogMode) (initial : List UInt8) (w : World) : Prop where
  data : dataOf w.delivered <+: w.content
  snapshot : mode = .snapshot → dataOf w.delivered <+: initial
  terminal : ∃ events outcome, Throughout IsData events ∧
    w.delivered = events ++ [.terminal (events.length + 1) outcome] ∧
    outcome.Holds mode initial w

/-- The invariant of a stream. -/
structure Inv (kind : RuntimeKind) (mode : LogMode) (initial : List UInt8) (w : World) : Prop where
  files : Files kind initial w
  stream : (∃ r, Open mode initial r w) ∨ Over mode initial w

/-- What can have become of the surroundings between two calls. -/
structure Rely (w w' : World) : Prop where
  content : w.content <+: w'.content
  sealed : w.sealed → w'.sealed ∧ w'.content = w.content
  removed : w.runNamed = false → w'.runNamed = false
  cancelled : w.cancelled → w'.cancelled
  delivered : w'.delivered = w.delivered
  /-- Undisturbed, the files are the same. -/
  ledger : w'.disturbed = false → w.disturbed = false ∧ w'.runNamed = w.runNamed ∧
    w'.owner = w.owner ∧ w'.state = w.state

theorem Rely.refl (w : World) : Rely w w :=
  ⟨List.prefix_rfl, fun h => ⟨h, rfl⟩, id, id, rfl, fun h => ⟨h, rfl, rfl, rfl⟩⟩

theorem Rely.trans {w'' : World} (h : Rely w w') (h' : Rely w' w'') : Rely w w'' where
  content := h.content.trans h'.content
  sealed := fun hs => by
    obtain ⟨hs', hcontent⟩ := h.sealed hs
    exact ⟨(h'.sealed hs').1, (h'.sealed hs').2.trans hcontent⟩
  removed := fun hr => h'.removed (h.removed hr)
  cancelled := fun hc => h'.cancelled (h.cancelled hc)
  delivered := h'.delivered.trans h.delivered
  ledger := fun hd => by
    obtain ⟨hd', hrun', howner', hstate'⟩ := h'.ledger hd
    obtain ⟨hd, hrun, howner, hstate⟩ := h.ledger hd'
    exact ⟨hd, hrun'.trans hrun, howner'.trans howner, hstate'.trans hstate⟩

/-- A disturbance is not forgotten between two calls. -/
theorem Rely.disturbed (h : Rely w w') (hd : w.disturbed) : w'.disturbed := by
  by_contra hd'
  rw [Bool.not_eq_true] at hd'
  exact Bool.false_ne_true ((h.ledger hd').1.symm.trans hd)

/-! ### What happens meanwhile -/

theorem files_drift (hf : Files kind initial w) (d : Drift) :
    Files kind initial (drift kind d w) := by
  cases d with
  | append bytes =>
    rw [drift]
    split_ifs
    · exact hf
    · exact { hf with initial := hf.initial.trans (List.prefix_append _ _) }
  | setStatus status =>
    rw [drift]
    cases hstate : w.state with
    | none => exact hf
    | some entry =>
      dsimp only
      split_ifs with hok
      · refine { hf with present := ?_, status := ?_, removed := ?_ }
        · exact fun hrun => ⟨(hf.present hrun).1, (hf.present hrun).2.1, rfl⟩
        · rintro _ ⟨⟩
          exact ⟨status, rfl, hok.2, fun ht => by simp [ht]⟩
        · exact fun hrun => absurd (hok.1.symm.trans hrun) Bool.noConfusion
      · exact hf
  | detach =>
    exact { initial := hf.initial, linked := hf.linked, present := nofun, removed := fun _ => rfl,
            status := fun entry he => by
              obtain ⟨s, hs, hallowed, -⟩ := hf.status entry he
              exact ⟨s, hs, hallowed, fun _ => rfl⟩ }
  | hideConsole =>
    rw [drift]
    split_ifs with hrun
    · exact hf
    · exact { hf with linked := nofun, present := fun h => absurd h hrun }
  | unlinkConsole =>
    rw [drift]
    split_ifs with hrun
    · exact hf
    · exact { hf with linked := nofun, present := fun h => absurd h hrun }
  | unlinkLedger file =>
    cases file with
    | owner =>
      rw [drift]
      split_ifs with hrun
      · exact hf
      · exact { hf with present := fun h => absurd h hrun }
    | state =>
      rw [drift]
      split_ifs with hrun
      · exact hf
      · exact { hf with present := fun h => absurd h hrun, status := nofun }
  | cancel => exact { hf with }

/-- A change of the ledger or a step of the removal. -/
theorem rely_disturbed (hcontent : w'.content = w.content) (hsealed : w.sealed → w'.sealed)
    (hremoved : w.runNamed = false → w'.runNamed = false) (hcancelled : w'.cancelled = w.cancelled)
    (hdelivered : w'.delivered = w.delivered) (hdisturbed : w'.disturbed = true) : Rely w w' where
  content := hcontent ▸ List.prefix_rfl
  sealed := fun hs => ⟨hsealed hs, hcontent⟩
  removed := hremoved
  cancelled := fun hc => hcancelled ▸ hc
  delivered := hdelivered
  ledger := fun hd => absurd (hd.symm.trans hdisturbed) Bool.false_ne_true

theorem rely_drift (d : Drift) (w : World) : Rely w (drift kind d w) := by
  cases d with
  | append bytes =>
    rw [drift]
    split_ifs with hsealed
    · exact Rely.refl w
    · exact ⟨List.prefix_append _ _, fun h => absurd h hsealed, id, id, rfl,
        fun h => ⟨h, rfl, rfl, rfl⟩⟩
  | setStatus status =>
    rw [drift]
    split
    · split_ifs
      · exact rely_disturbed rfl (fun h => by simp [h]) id rfl rfl rfl
      · exact Rely.refl w
    · exact Rely.refl w
  | detach => exact rely_disturbed rfl (fun _ => rfl) (fun _ => rfl) rfl rfl rfl
  | hideConsole =>
    rw [drift]
    split_ifs
    · exact Rely.refl w
    · exact rely_disturbed rfl id id rfl rfl rfl
  | unlinkConsole =>
    rw [drift]
    split_ifs
    · exact Rely.refl w
    · exact rely_disturbed rfl id id rfl rfl rfl
  | unlinkLedger file =>
    cases file with
    | owner =>
      rw [drift]
      split_ifs
      · exact Rely.refl w
      · exact rely_disturbed rfl id id rfl rfl rfl
    | state =>
      rw [drift]
      split_ifs
      · exact Rely.refl w
      · exact rely_disturbed rfl id id rfl rfl rfl
  | cancel => exact ⟨List.prefix_rfl, fun h => ⟨h, rfl⟩, id, fun _ => rfl, rfl,
      fun h => ⟨h, rfl, rfl, rfl⟩⟩

theorem Open.later {r : Reader} (h : Open mode initial r w) (hw : Rely w w') :
    Open mode initial r w' := by
  have hlength : w.content.length ≤ w'.content.length := hw.content.length_le
  have htake : w'.content.take r.position = w.content.take r.position := by
    obtain ⟨more, hmore⟩ := hw.content
    rw [← hmore, List.take_append_of_le_length h.position]
  exact {
    data := by rw [hw.delivered, h.data, htake]
    position := Nat.le_trans h.position hlength
    snapshot := h.snapshot
    events := hw.delivered ▸ h.events
    cursor := hw.delivered ▸ h.cursor
    sequence := hw.delivered ▸ h.sequence }

theorem Outcome.Holds.later {o : Outcome} (h : o.Holds mode initial w) (hw : Rely w w') :
    o.Holds mode initial w' := by
  cases o with
  | cancelled => exact hw.cancelled h
  | snapshotComplete => exact ⟨h.1, hw.delivered ▸ h.2⟩
  | runTerminal status =>
    obtain ⟨hsealed, hcontent⟩ := hw.sealed h.2.1
    exact ⟨h.1, hsealed, by rw [hw.delivered, hcontent, h.2.2]⟩
  | error e =>
    cases mode with
    | follow => exact hw.disturbed h
    | snapshot => exact h.imp (fun hd => hw.delivered ▸ hd) hw.removed

theorem Over.later (h : Over mode initial w) (hw : Rely w w') : Over mode initial w' := by
  obtain ⟨events, o, hevents, hdelivered, ho⟩ := h.terminal
  exact {
    data := hw.delivered ▸ h.data.trans hw.content
    snapshot := fun hm => hw.delivered ▸ h.snapshot hm
    terminal := ⟨events, o, hevents, hw.delivered.trans hdelivered, ho.later hw⟩ }

/-- The stream of rounds that keep the invariant. -/
def rule (kind : RuntimeKind) (mode : LogMode) (initial : List UInt8) :
    Loop.Rule answer (drift kind) (round ⟨kind, initial.length⟩ mode) where
  inv := Inv kind mode initial
  rely := Rely
  starts := Open mode initial
  refl := Rely.refl
  trans := fun _ _ _ => Rely.trans
  drift := fun d w h => by
    have hrely : Rely w (drift kind d w) := rely_drift d w
    refine ⟨⟨files_drift h.files d, ?_⟩, hrely⟩
    exact h.stream.imp (fun ⟨r, hr⟩ => ⟨r, hr.later hrely⟩) fun ho => ho.later hrely

end Palimpsest.Logs
