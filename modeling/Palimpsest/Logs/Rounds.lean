import Palimpsest.Logs.Delivery

/-!
# The rounds of a log stream

What each function of the source has found out when it returns (`keeps_read`,
`keeps_currentStatus`), and that a round ends in the invariant.
-/

namespace Palimpsest.Logs

open Calls Calls.Loop.Rule Source

variable {kind : RuntimeKind} {mode : LogMode} {initial : List UInt8} {w w' : World}
  {α β : Type} {r : Reader}

/-! ### Calls -/

theorem keeps_source_pure {a : α} {Q : Except LogErrorCategory α → World → Prop}
    (h : Q (.ok a) w) : (rule kind mode initial).Keeps (pure a : Source α) Q w :=
  h

theorem keeps_fail {e : LogErrorCategory} {Q : Except LogErrorCategory α → World → Prop}
    (h : Q (.error e) w) : (rule kind mode initial).Keeps (fail e : Source α) Q w :=
  h

theorem keeps_source_bind {p : Source α} {f : α → Source β}
    {Q : Except LogErrorCategory β → World → Prop} {M : Except LogErrorCategory α → World → Prop}
    (h : (rule kind mode initial).Keeps p M w)
    (hok : ∀ a w, M (.ok a) w → (rule kind mode initial).Keeps (f a) Q w)
    (herror : ∀ e w, M (.error e) w → Q (.error e) w) :
    (rule kind mode initial).Keeps (p >>= f : Source β) Q w := by
  show (rule kind mode initial).Keeps (Program.bind p _) Q w
  refine Program.safe_bind (Program.Safe.imp h fun result w hresult => ?_)
  cases result with
  | ok a => exact hok a w hresult
  | error e => exact herror e w hresult

theorem keeps_ite {c : Prop} [Decidable c] {p q : Io α} {Q : α → World → Prop}
    (hp : c → (rule kind mode initial).Keeps p Q w)
    (hq : ¬c → (rule kind mode initial).Keeps q Q w) :
    (rule kind mode initial).Keeps (if c then p else q) Q w := by
  by_cases hc : c
  · rw [if_pos hc]
    exact hp hc
  · rw [if_neg hc]
    exact hq hc

/-- A call that only looks. -/
theorem keeps_safely {c : Call} {Q : Except LogErrorCategory (Option c.Ans) → World → Prop}
    (hinv : Inv kind mode initial w) (hlooks : ∀ n, (answer n c w).2 = w)
    (h : ∀ n w', Rely w w' → Inv kind mode initial w' → Q (.ok (answer n c w).1) w') :
    (rule kind mode initial).Keeps (safely c) Q w :=
  keeps_call (fun n => (hlooks n).symm ▸ hinv) fun n w' hrely hinv' =>
    h n w' ((hlooks n) ▸ hrely) hinv'

/-- The answer to such a call, or the value in its place. -/
theorem keeps_ask {c : Call} {default : c.Ans} {Q : c.Ans → World → Prop}
    (hinv : Inv kind mode initial w) (hlooks : ∀ n, (answer n c w).2 = w)
    (h : ∀ n w', Rely w w' → Inv kind mode initial w' → Q ((answer n c w).1.getD default) w') :
    (rule kind mode initial).Keeps (ask c default) Q w :=
  keeps_call (fun n => (hlooks n).symm ▸ hinv) fun n w' hrely hinv' =>
    h n w' ((hlooks n) ▸ hrely) hinv'

/-! ### The size of the console -/

/-- The surroundings may have changed, and the invariant holds. -/
structure Goes (kind : RuntimeKind) (mode : LogMode) (initial : List UInt8) (w w' : World) :
    Prop where
  rely : Rely w w'
  inv : Inv kind mode initial w'

theorem Goes.trans {w'' : World} (h : Goes kind mode initial w w')
    (h' : Goes kind mode initial w' w'') : Goes kind mode initial w w'' :=
  ⟨h.rely.trans h'.rely, h'.inv⟩

/-- What a size of the console says: nothing that was there is missing, and a sealed console has
no other size. -/
structure Measured (initial : List UInt8) (r : Reader) (w w' : World) (size : ℕ) : Prop where
  initial : initial.length ≤ size
  position : r.position ≤ size
  le : size ≤ w'.content.length
  sealed : w.sealed → w'.content.length ≤ size

theorem Measured.later {w'' : World} {size : ℕ} (h : Measured initial r w w' size)
    (hw : Rely w w') (hw' : Rely w' w'') : Measured initial r w w'' size where
  initial := h.initial
  position := h.position
  le := Nat.le_trans h.le hw'.content.length_le
  sealed := fun hs => by
    rw [(hw'.sealed (hw.sealed hs).1).2]
    exact h.sealed hs

theorem keeps_openedConsoleSize (hinv : Inv kind mode initial w) (hopen : Open mode initial r w)
    (allowUnlinked : Bool) :
    (rule kind mode initial).Keeps (openedConsoleSize ⟨kind, initial.length⟩ r allowUnlinked)
      (fun result w' => Goes kind mode initial w w' ∧ match result with
        | .ok size => Measured initial r w w' size
        | .error _ => allowUnlinked = false ∧ w'.runNamed = false) w := by
  refine keeps_source_bind (M := fun result w' => Goes kind mode initial w w' ∧
    result = .ok (some ⟨true, if w.linked then 1 else 0, w.content.length⟩))
    (keeps_safely hinv (fun _ => rfl) fun n w' hrely hinv' => ⟨⟨hrely, hinv'⟩, rfl⟩) ?_ ?_
  · rintro _ w' ⟨hgoes, ⟨⟩⟩
    have hinitial : initial.length ≤ w.content.length := hinv.files.initial.length_le
    refine keeps_ite (fun hbad => keeps_fail ⟨hgoes, ?_⟩) fun _ => keeps_source_pure
      ⟨hgoes, hinitial, hopen.position, hgoes.rely.content.length_le, fun hs => ?_⟩
    · have hlinks : (if w.linked then 1 else 0) ∉ (if allowUnlinked then [0, 1] else [1]) := by
        rcases hbad with h | h | h | h
        · cases h
        · exact h
        · exact absurd hinitial (Nat.not_le.mpr h)
        · exact absurd hopen.position (Nat.not_le.mpr h)
      cases allowUnlinked with
      | true =>
        refine absurd ?_ hlinks
        cases w.linked with
        | true => decide
        | false => decide
      | false =>
        refine ⟨rfl, hgoes.rely.removed ?_⟩
        by_contra hrun
        rw [Bool.not_eq_false] at hrun
        rw [hinv.files.linked (hinv.files.present hrun).1] at hlinks
        exact hlinks (List.mem_singleton_self 1)
    · exact Nat.le_of_eq (congrArg List.length (hgoes.rely.sealed hs).2)
  · rintro e w' ⟨-, ⟨⟩⟩

theorem keeps_consoleSize (hinv : Inv kind mode initial w) (hopen : Open mode initial r w)
    (allowUnlinked : Bool) :
    (rule kind mode initial).Keeps (consoleSize ⟨kind, initial.length⟩ r allowUnlinked)
      (fun result w' => Goes kind mode initial w w' ∧ match result with
        | .ok size => Measured initial r w w' size
        | .error _ => allowUnlinked = false ∧ w'.runNamed = false) w := by
  refine keeps_source_bind (keeps_openedConsoleSize hinv hopen allowUnlinked) ?_ fun _ _ h => h
  rintro size w₁ ⟨hgoes₁, hsize⟩
  refine keeps_source_bind (M := fun result w' => Goes kind mode initial w₁ w' ∧
    result = .ok (some (if w₁.named then .pinned else .missing)))
    (keeps_safely hgoes₁.inv (fun _ => rfl) fun n w' hrely hinv' => ⟨⟨hrely, hinv'⟩, rfl⟩) ?_ ?_
  · rintro _ w₂ ⟨hgoes₂, ⟨⟩⟩
    have hgoes := hgoes₁.trans hgoes₂
    have hmeasured : Measured initial r w w₂ size := hsize.later hgoes₁.rely hgoes₂.rely
    rw [Option.getD_some]
    cases hnamed : w₁.named with
    | true => exact keeps_source_pure ⟨hgoes, hmeasured⟩
    | false =>
      cases allowUnlinked with
      | true => exact keeps_source_pure ⟨hgoes, hmeasured⟩
      | false =>
        refine keeps_fail ⟨hgoes, rfl, hgoes₂.rely.removed ?_⟩
        by_contra hrun
        rw [Bool.not_eq_false] at hrun
        exact Bool.false_ne_true (hnamed.symm.trans (hgoes₁.inv.files.present hrun).1)
  · rintro e w' ⟨-, ⟨⟩⟩

/-! ### Reading -/

/-- What a read says: the bytes come next, and where there are none, none are left. -/
structure Readable (initial : List UInt8) (r : Reader) (snapshot : Bool) (w w' : World)
    (content : List UInt8) : Prop where
  next : content <+: w'.content.drop r.position
  boundary : snapshot = true → r.position + content.length ≤ max r.position initial.length
  ended : content = [] → snapshot = true → initial.length ≤ r.position
  drained : content = [] → snapshot = false → w.sealed → w'.content.length ≤ r.position

theorem keeps_read (hinv : Inv kind mode initial w) (hopen : Open mode initial r w)
    {maximum : ℕ} (hmax : 0 < maximum) (snapshot : Bool) :
    (rule kind mode initial).Keeps (read ⟨kind, initial.length⟩ r maximum snapshot)
      (fun result w' => Goes kind mode initial w w' ∧ match result with
        | .ok content => Readable initial r snapshot w w' content
        | .error _ => snapshot = true ∧ w'.runNamed = false) w := by
  refine keeps_source_bind (keeps_consoleSize hinv hopen (!snapshot)) ?_ ?_
  · rintro size w₁ ⟨hgoes₁, hsize⟩
    refine keeps_ite (fun hend => keeps_source_pure ⟨hgoes₁, ?_⟩) fun hmore => ?_
    · refine ⟨List.nil_prefix, fun _ => Nat.le_max_left _ _, ?_, ?_⟩
      · rintro - rfl
        have hle := hsize.initial
        rw [if_pos rfl, Nat.min_eq_right hle] at hend
        exact hend
      · rintro - rfl hs
        rw [if_neg Bool.false_ne_true] at hend
        exact Nat.le_trans (hsize.sealed hs) hend
    -- A snapshot reads up to what was there at the start, a follower all that is there.
    · generalize hboundary : (if snapshot then min size initial.length else size) = boundary
        at hmore
      have hboundary' : boundary ≤ size := by
        rw [← hboundary]
        split
        · exact Nat.min_le_left _ _
        · exact Nat.le_refl _
      have hcount : 0 < min maximum (boundary - r.position) := by omega
      refine keeps_source_bind (M := fun result w' => Goes kind mode initial w₁ w' ∧ ∃ n,
        result = .ok (some ((w₁.content.drop r.position).take
          (min (min maximum (boundary - r.position)) (n + 1)))))
        (keeps_safely hgoes₁.inv (fun _ => rfl) fun n w' hrely hinv' =>
          ⟨⟨hrely, hinv'⟩, n, rfl⟩) ?_ ?_
      · rintro _ w₂ ⟨hgoes₂, n, ⟨⟩⟩
        have hle := hsize.le
        have hlength : ((w₁.content.drop r.position).take
            (min (min maximum (boundary - r.position)) (n + 1))).length =
            min (min maximum (boundary - r.position)) (n + 1) := by
          rw [List.length_take, List.length_drop]
          omega
        refine keeps_ite (fun hnil => ?_) fun hne => keeps_source_pure
          ⟨hgoes₁.trans hgoes₂, ?_, ?_, fun h => absurd h hne, fun h => absurd h hne⟩
        · have hzero := congrArg List.length hnil
          rw [hlength, List.length_nil] at hzero
          omega
        · obtain ⟨more, hmore⟩ := hgoes₂.rely.content
          refine (List.take_prefix _ _).trans ?_
          rw [← hmore, List.drop_append_of_le_length (by omega)]
          exact List.prefix_append _ _
        · rintro rfl
          rw [if_pos rfl] at hboundary
          rw [hlength]
          omega
      · rintro e w' ⟨-, n, ⟨⟩⟩
  · rintro e w' ⟨hgoes, hunlinked, hremoved⟩
    exact ⟨hgoes, by simpa using hunlinked, hremoved⟩

/-! ### The status -/

/-- The run was seen under its name, and the ledger has been as it was then, or disturbed. -/
def Seen (w : World) : Prop := w.disturbed = false → w.runNamed = true

theorem Seen.later (h : Seen w) (hw : Rely w w') : Seen w' := fun hd => by
  obtain ⟨hd, hrun, -⟩ := hw.ledger hd
  rw [hrun, h hd]

theorem Seen.disturbed (h : Seen w) (hr : w.runNamed = false) : w.disturbed = true := by
  by_contra hd
  rw [Bool.not_eq_true] at hd
  exact Bool.false_ne_true (hr.symm.trans (h hd))

theorem ledger_later {file : LedgerFile} (hw : Rely w w') (hd : w'.disturbed = false) :
    w'.ledger file = w.ledger file := by
  obtain ⟨-, -, howner, hstate⟩ := hw.ledger hd
  cases file with
  | owner => exact howner
  | state => exact hstate

/-- Undisturbed, the ledger is there. -/
theorem isSome_ledger (hinv : Inv kind mode initial w) (hseen : Seen w) (file : LedgerFile)
    (hd : w.disturbed = false) : (w.ledger file).isSome := by
  obtain ⟨-, howner, hstate⟩ := hinv.files.present (hseen hd)
  cases file with
  | owner => exact howner
  | state => exact hstate

/-- What was read from a ledger file was there when it was opened. -/
def WasThere (kind : RuntimeKind) (file : LedgerFile) (entry : LedgerEntry) (w : World) : Prop :=
  file = .state → ∃ s ∈ entry.status, s ∈ allowedRuntimeStatuses kind ∧
    (s ∈ terminalStatuses → w.sealed)

theorem keeps_readPinnedJsonObject (hinv : Inv kind mode initial w) (hseen : Seen w)
    (file : LedgerFile) :
    (rule kind mode initial).Keeps (readPinnedJsonObject file)
      (fun result w' => Goes kind mode initial w w' ∧ match result with
        | .ok entry => WasThere kind file entry w'
        | .error _ => w'.disturbed = true) w := by
  refine keeps_source_bind (M := fun result w' => Goes kind mode initial w w' ∧
    result = .ok (some ((w.ledger file).map LedgerEntry.inode)))
    (keeps_safely hinv (fun _ => rfl) fun n w' hrely hinv' => ⟨⟨hrely, hinv'⟩, rfl⟩) ?_ ?_
  · rintro _ w₁ ⟨hgoes₁, ⟨⟩⟩
    rw [Option.getD_some]
    cases hfirst : w.ledger file with
    | none =>
      refine keeps_fail ⟨hgoes₁, Bool.of_not_eq_false fun hd => ?_⟩
      have hsome := isSome_ledger hinv hseen file (hgoes₁.rely.ledger hd).1
      rw [hfirst] at hsome
      cases hsome
    | some first =>
      refine keeps_source_bind (M := fun result w' => Goes kind mode initial w₁ w' ∧
        result = .ok (w₁.ledger file))
        (keeps_safely hgoes₁.inv (fun _ => rfl) fun n w' hrely hinv' => ⟨⟨hrely, hinv'⟩, rfl⟩) ?_ ?_
      -- The file is read while it may be replaced; the inodes before and after tell.
      · rintro _ w₂ ⟨hgoes₂, ⟨⟩⟩
        have hgoes := hgoes₁.trans hgoes₂
        have hsame : w₂.disturbed = false → w₁.ledger file = some first := fun hd => by
          rw [ledger_later hgoes₁.rely (hgoes₂.rely.ledger hd).1, hfirst]
        cases hentry : w₁.ledger file with
        | none =>
          refine keeps_fail ⟨hgoes, Bool.of_not_eq_false fun hd => ?_⟩
          cases hentry.symm.trans (hsame hd)
        | some entry =>
          refine keeps_ite (fun hne => keeps_fail ⟨hgoes, Bool.of_not_eq_false fun hd => ?_⟩)
            fun _ => ?_
          · obtain rfl := Option.some.inj (hentry.symm.trans (hsame hd))
            exact hne rfl
          · refine keeps_source_bind (M := fun result w' => Goes kind mode initial w₂ w' ∧
              result = .ok (some (decide
                ((w₂.ledger file).map LedgerEntry.inode = some entry.inode))))
              (keeps_safely hgoes₂.inv (fun _ => rfl) fun n w' hrely hinv' =>
                ⟨⟨hrely, hinv'⟩, rfl⟩) ?_ ?_
            · rintro _ w₃ ⟨hgoes₃, ⟨⟩⟩
              have hgoes' := hgoes.trans hgoes₃
              refine keeps_ite (fun hne => keeps_fail ⟨hgoes', Bool.of_not_eq_false fun hd => ?_⟩)
                fun _ => keeps_source_pure ⟨hgoes', ?_⟩
              · refine hne (congrArg some (decide_eq_true ?_))
                rw [ledger_later hgoes₂.rely (hgoes₃.rely.ledger hd).1, hentry]
                rfl
              · rintro rfl
                obtain ⟨s, hs, hallowed, hsealed⟩ := hgoes₁.inv.files.status entry hentry
                refine ⟨s, hs, hallowed, fun ht => ?_⟩
                exact (hgoes₃.rely.sealed (hgoes₂.rely.sealed (hsealed ht)).1).1
            · rintro e w' ⟨-, ⟨⟩⟩
      · rintro e w' ⟨-, ⟨⟩⟩
  · rintro e w' ⟨-, ⟨⟩⟩

/-- A status check has come to its end: the stream can go on, and a terminal status means that
the console is complete. An error has a reason in the ledger. -/
def Checked (kind : RuntimeKind) (mode : LogMode) (initial : List UInt8) (r : Reader) :
    Except LogErrorCategory RunStatus → World → Prop
  | .ok status, w => Inv kind mode initial w ∧ Open mode initial r w ∧
      (status ∈ terminalStatuses → w.sealed)
  | .error _, w => Inv kind mode initial w ∧ Open mode initial r w ∧ w.disturbed = true

theorem keeps_currentStatus (hopen : Open mode initial r w) (hinv : Inv kind mode initial w) :
    (rule kind mode initial).Keeps (currentStatus ⟨kind, initial.length⟩ r)
      (Checked kind mode initial r) w := by
  have hopen₀ : Open mode initial r { w with disturbed := false } := { hopen with }
  have hinv₀ : Inv kind mode initial { w with disturbed := false } :=
    ⟨{ hinv.files with }, .inl ⟨r, hopen₀⟩⟩
  refine keeps_source_bind (M := fun result w' => Inv kind mode initial w' ∧
    Open mode initial r w' ∧ result = .ok (some .pinned))
    (keeps_call (fun _ => hinv₀) fun n w' hrely hinv' => ⟨hinv', hopen₀.later hrely, rfl⟩) ?_ ?_
  · rintro _ w₁ ⟨hinv₁, hopen₁, ⟨⟩⟩
    refine keeps_ite (fun hne => absurd rfl hne) fun _ => ?_
    refine keeps_source_bind (M := fun result w' => Goes kind mode initial w₁ w' ∧
      result = .ok (some (if w₁.runNamed then .pinned else .missing)))
      (keeps_safely hinv₁ (fun _ => rfl) fun n w' hrely hinv' => ⟨⟨hrely, hinv'⟩, rfl⟩) ?_ ?_
    · rintro _ w₂ ⟨hgoes₂, ⟨⟩⟩
      have hopen₂ := hopen₁.later hgoes₂.rely
      -- The run directory had its name when it was asked, or was removed before.
      cases hrun : w₁.runNamed with
      | false =>
        refine keeps_source_bind (keeps_openedConsoleSize hgoes₂.inv hopen₂ true) ?_ ?_
        · rintro size w₃ ⟨hgoes₃, -⟩
          have hsealed := (hgoes₂.rely.sealed (hinv₁.files.removed hrun)).1
          exact keeps_source_pure
            ⟨hgoes₃.inv, hopen₂.later hgoes₃.rely, fun _ => (hgoes₃.rely.sealed hsealed).1⟩
        · rintro e w₃ ⟨-, ⟨⟩, -⟩
      | true =>
        have hseen₂ : Seen w₂ := Seen.later (fun _ => hrun) hgoes₂.rely
        refine keeps_source_bind (keeps_consoleSize hgoes₂.inv hopen₂ false) ?_ ?_
        · rintro size w₃ ⟨hgoes₃, -⟩
          have hseen₃ := hseen₂.later hgoes₃.rely
          have hopen₃ := hopen₂.later hgoes₃.rely
          refine keeps_source_bind (keeps_readPinnedJsonObject hgoes₃.inv hseen₃ .owner) ?_ ?_
          · rintro owner w₄ ⟨hgoes₄, -⟩
            have hopen₄ := hopen₃.later hgoes₄.rely
            refine keeps_source_bind
              (keeps_readPinnedJsonObject hgoes₄.inv (hseen₃.later hgoes₄.rely) .state) ?_ ?_
            · rintro rawState w₅ ⟨hgoes₅, hwas⟩
              obtain ⟨status, hstatus, hallowed, hsealed⟩ := hwas rfl
              obtain ⟨inode, _⟩ := rawState
              obtain rfl : _ = some status := hstatus
              exact keeps_ite (fun hnot => absurd hallowed hnot) fun _ => keeps_source_pure
                ⟨hgoes₅.inv, hopen₄.later hgoes₅.rely, hsealed⟩
            · rintro e w₅ ⟨hgoes₅, hdisturbed⟩
              exact ⟨hgoes₅.inv, hopen₄.later hgoes₅.rely, hdisturbed⟩
          · rintro e w₄ ⟨hgoes₄, hdisturbed⟩
            exact ⟨hgoes₄.inv, hopen₃.later hgoes₄.rely, hdisturbed⟩
        · rintro e w₃ ⟨hgoes₃, -, hremoved⟩
          exact ⟨hgoes₃.inv, hopen₂.later hgoes₃.rely,
            (hseen₂.later hgoes₃.rely).disturbed hremoved⟩
    · rintro e w' ⟨-, ⟨⟩⟩
  · rintro e w' ⟨-, -, ⟨⟩⟩

/-! ### Rounds -/

theorem dataOf_concat (events : List LogEvent) (e : LogEvent) :
    dataOf (events ++ [e]) = dataOf events ++ e.content := by
  rw [dataOf, List.flatMap_append, List.flatMap_singleton]
  rfl

/-- The stream ends. -/
theorem keeps_terminal (hinv : Inv kind mode initial w) (hopen : Open mode initial r w)
    {o : Outcome} (ho : o.Holds mode initial w) :
    (rule kind mode initial).Keeps (terminal r o) (rule kind mode initial).Ends w := by
  have hdata : dataOf (w.delivered ++ [.terminal (r.cursorPosition + 1) o]) =
      dataOf w.delivered := by
    rw [dataOf_concat]
    exact List.append_nil _
  have hover : Over mode initial
      { w with delivered := w.delivered ++ [.terminal (r.cursorPosition + 1) o] } := by
    refine ⟨?_, fun hm => ?_, w.delivered, o, hopen.events, by rw [hopen.cursor], ?_⟩
    · rw [hdata, hopen.data]
      exact List.take_prefix _ _
    · obtain ⟨more, hmore⟩ := hinv.files.initial
      rw [hdata, hopen.data, ← hmore, List.take_append_of_le_length (hopen.snapshot hm)]
      exact List.take_prefix _ _
    · cases o with
      | cancelled => exact ho
      | snapshotComplete => exact ⟨ho.1, hdata.trans ho.2⟩
      | runTerminal status => exact ⟨ho.1, ho.2.1, hdata.trans ho.2.2⟩
      | error e =>
        cases mode with
        | follow => exact ho
        | snapshot => exact ho.imp hdata.trans id
  exact keeps_call (fun _ => ⟨{ hinv.files with }, .inr hover⟩) fun _ _ _ _ => trivial

/-- An error of the source ends the stream. -/
theorem keeps_orTerminal {p : Source α} {f : α → Io Next}
    {M : Except LogErrorCategory α → World → Prop}
    (h : (rule kind mode initial).Keeps p M w)
    (hok : ∀ a w, M (.ok a) w →
      (rule kind mode initial).Keeps (f a) (rule kind mode initial).Ends w)
    (herror : ∀ e w, M (.error e) w → Inv kind mode initial w ∧ Open mode initial r w ∧
      (Outcome.error e).Holds mode initial w) :
    (rule kind mode initial).Keeps (orTerminal p r f) (rule kind mode initial).Ends w := by
  refine Program.safe_bind (Program.Safe.imp h fun result w hresult => ?_)
  cases result with
  | ok a => exact hok a w hresult
  | error e =>
    obtain ⟨hinv, hopen, ho⟩ := herror e w hresult
    exact keeps_terminal hinv hopen ho

/-- The stream goes on, unless it is cancelled. -/
theorem keeps_goOn {b : Bool} (hinv : Inv kind mode initial w) (hopen : Open mode initial r w)
    (hb : b = true → w.cancelled = true) :
    (rule kind mode initial).Keeps (if b then terminal r .cancelled else return .inl r)
      (rule kind mode initial).Ends w :=
  keeps_ite (fun h => keeps_terminal hinv hopen (hb h)) fun _ => keeps_pure hopen

theorem keeps_begin (hinv : Inv kind mode initial w) (hopen : Open mode initial r w) :
    (rule kind mode initial).Keeps (begin r) (rule kind mode initial).Ends w :=
  keeps_bind (keeps_ask hinv (fun _ => rfl) fun _ _ hrely hinv' =>
    keeps_goOn hinv' (hopen.later hrely) hrely.cancelled)

theorem keeps_deliverData (hinv : Inv kind mode initial w) (hopen : Open mode initial r w)
    {content : List UInt8} (hne : content ≠ []) (hnext : content <+: w.content.drop r.position)
    (hboundary : mode = .snapshot → r.position + content.length ≤ initial.length) :
    (rule kind mode initial).Keeps (deliverData r content) (rule kind mode initial).Ends w := by
  have hlength := hnext.length_le
  rw [List.length_drop] at hlength
  have hposition := hopen.position
  have hopen' : Open mode initial
      ⟨r.position + content.length, r.cursorPosition + 1, r.streamSequence + 1⟩
      { w with delivered := w.delivered ++
          [.data (r.cursorPosition + 1) (r.streamSequence + 1) content] } := {
    data := by
      rw [dataOf_concat, hopen.data, List.take_add]
      exact congrArg _ (List.prefix_iff_eq_take.mp hnext)
    position := by
      dsimp only
      omega
    snapshot := hboundary
    events := throughout_concat.mpr ⟨hopen.events, content, hne, by
      rw [hopen.cursor, hopen.sequence]⟩
    cursor := by
      rw [List.length_append, hopen.cursor]
      rfl
    sequence := by
      rw [List.length_append, hopen.sequence]
      rfl }
  have hinv' : Inv kind mode initial { w with delivered := w.delivered ++
      [.data (r.cursorPosition + 1) (r.streamSequence + 1) content] } :=
    ⟨{ hinv.files with }, .inl ⟨_, hopen'⟩⟩
  refine keeps_bind (keeps_call (fun _ => hinv') fun _ w₁ hrely₁ hinv₁ => ?_)
  have hopen₁ := hopen'.later hrely₁
  exact keeps_bind (keeps_ask hinv₁ (fun _ => rfl) fun _ _ hrely₂ hinv₂ =>
    keeps_goOn hinv₂ (hopen₁.later hrely₂) hrely₂.cancelled)

theorem chunkSize_pos : 0 < chunkSize := by decide

/-- **A round keeps the invariant.** -/
theorem keeps_round (hinv : Inv kind mode initial w) (hopen : Open mode initial r w) :
    (rule kind mode initial).Keeps (round ⟨kind, initial.length⟩ mode r)
      (rule kind mode initial).Ends w := by
  refine keeps_orTerminal (keeps_read hinv hopen chunkSize_pos _) ?_ ?_
  · rintro content w₁ ⟨hgoes₁, hread⟩
    have hopen₁ := hopen.later hgoes₁.rely
    -- There is content to deliver, or the reader is at the end of what it may read.
    refine keeps_ite (fun hne => ?_) fun hnil => ?_
    · refine keeps_deliverData hgoes₁.inv hopen₁ hne hread.next fun hm => ?_
      have hle := hread.boundary (decide_eq_true hm)
      rwa [Nat.max_eq_right (hopen.snapshot hm)] at hle
    · rw [not_not] at hnil
      refine keeps_ite (fun hm => ?_) fun hm => ?_
      · -- all of the snapshot was read, whatever the status is
        have hend : r.position = initial.length :=
          Nat.le_antisymm (hopen.snapshot hm) (hread.ended hnil (decide_eq_true hm))
        have hall : ∀ w', Inv kind mode initial w' → Open mode initial r w' →
            dataOf w'.delivered = initial := by
          intro w' hinv' hopen'
          obtain ⟨more, hmore⟩ := hinv'.files.initial
          rw [hopen'.data, hend, ← hmore, List.take_left]
        refine keeps_orTerminal (keeps_currentStatus hopen₁ hgoes₁.inv) ?_ ?_
        · rintro status w₂ ⟨hinv₂, hopen₂, -⟩
          exact keeps_terminal hinv₂ hopen₂ ⟨hm, hall w₂ hinv₂ hopen₂⟩
        · rintro e w₂ ⟨hinv₂, hopen₂, -⟩
          refine ⟨hinv₂, hopen₂, ?_⟩
          subst hm
          exact .inl (hall w₂ hinv₂ hopen₂)
      · have hfollow : mode = .follow := by
          cases mode with
          | snapshot => exact absurd rfl hm
          | follow => rfl
        subst hfollow
        refine keeps_orTerminal (keeps_currentStatus hopen₁ hgoes₁.inv) ?_ ?_
        · rintro status w₂ ⟨hinv₂, hopen₂, hsealed⟩
          -- A terminal status: the console is read once more, and nothing is written after that.
          refine keeps_ite (fun hterminal => ?_) fun _ => ?_
          · refine keeps_orTerminal (keeps_read hinv₂ hopen₂ chunkSize_pos false) ?_ ?_
            · rintro content w₃ ⟨hgoes₃, hread⟩
              have hopen₃ := hopen₂.later hgoes₃.rely
              refine keeps_ite (fun hne => ?_) fun hnil => ?_
              · exact keeps_deliverData hgoes₃.inv hopen₃ hne hread.next nofun
              · rw [not_not] at hnil
                have hend := hread.drained hnil rfl (hsealed hterminal)
                refine keeps_terminal hgoes₃.inv hopen₃
                  ⟨rfl, (hgoes₃.rely.sealed (hsealed hterminal)).1, ?_⟩
                rw [hopen₃.data, List.take_of_length_le hend]
            · rintro e w₃ ⟨-, ⟨⟩, -⟩
          · exact keeps_bind (keeps_ask hinv₂ (fun _ => rfl) fun _ _ hrely hinv' =>
              keeps_goOn hinv' (hopen₂.later hrely) hrely.cancelled)
        · rintro e w₂ ⟨hinv₂, hopen₂, hdisturbed⟩
          exact ⟨hinv₂, hopen₂, hdisturbed⟩
  · rintro e w₁ ⟨hgoes₁, hsnapshot, hremoved⟩
    refine ⟨hgoes₁.inv, hopen.later hgoes₁.rely, ?_⟩
    obtain rfl := of_decide_eq_true hsnapshot
    exact .inr hremoved

/-! ### Streams -/

theorem open_pinnedWorld (content : List UInt8) (status : RunStatus) :
    Open mode content ⟨0, 0, 0⟩ (pinnedWorld content status) where
  data := rfl
  position := Nat.zero_le _
  snapshot := fun _ => Nat.zero_le _
  events := throughout_nil
  cursor := rfl
  sequence := rfl

theorem inv_pinnedWorld {content : List UInt8} {status : RunStatus}
    (hstatus : status ∈ allowedRuntimeStatuses kind) :
    Inv kind mode content (pinnedWorld content status) where
  files := {
    initial := List.prefix_rfl
    linked := id
    present := fun _ => ⟨rfl, rfl, rfl⟩
    status := by
      rintro _ ⟨⟩
      exact ⟨status, rfl, hstatus, decide_eq_true⟩
    removed := nofun }
  stream := .inl ⟨_, open_pinnedWorld content status⟩

/-- **The invariant holds whatever happens in whatever order.** -/
theorem inv_streamed {content : List UInt8} {status : RunStatus}
    (hstatus : status ∈ allowedRuntimeStatuses kind) (events : List (LoopEvent ℕ Drift)) :
    Inv kind mode content (streamed kind mode content status events) := by
  refine inv_run (P := rule kind mode content) (fun r w => keeps_round) ?_ events
  refine ⟨inv_pinnedWorld hstatus, fun w hrely hinv => ?_⟩
  exact keeps_begin hinv ((open_pinnedWorld content status).later hrely)

end Palimpsest.Logs
