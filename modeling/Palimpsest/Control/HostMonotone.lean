import Mathlib.Data.List.Chain
import Palimpsest.Control.HostRejection

/-!
# The order of the committed lifecycle states

The lifecycle states that the session commits, from the READY, SNAPSHOT and TERMINAL
messages it accepts and from the boundaries it admits, should never go back. They go
back in three ways, and in no other
(`Palimpsest.Control.HostOCIControlV2Session.neverRegresses_of_orderly`): a session that
is ready or has sent a STOP remains so when it admits a boundary that commits the end of
the workload, and takes something else over before it reconnects; a session that has sent
a STOP admits a boundary that commits `ready` after it has committed `stopping`; and a
session that has recorded the end of the workload reconnects for a boundary that it
admitted before the end, and admits what that boundary allows.

The proof is by an invariant over the session and the states committed so far,
`Palimpsest.Control.HostOCIControlV2Session.Synchronized`: what the session remembers of
the guest, in its state, in its pending boundary or in what it expects after a RECONNECT,
is the state committed last.
-/

namespace Palimpsest.Control

/-- How far a workload has come. -/
def LifecycleState.rank {R : Type} : LifecycleState R → ℕ
  | ready => 0
  | stopping _ => 1
  | terminal _ _ => 2

/-- A state that may be committed after another: one as far or further, and the same
one after the end of the workload. -/
def LifecycleState.Precedes {R : Type} (b c : LifecycleState R) : Prop :=
  b.rank ≤ c.rank ∧ ∀ n r, b = .terminal n r → c = b

theorem LifecycleState.precedes_refl {R : Type} (b : LifecycleState R) : b.Precedes b :=
  ⟨le_rfl, fun _ _ _ => rfl⟩

instance {R : Type} : IsTrans (LifecycleState R) LifecycleState.Precedes where
  trans b c d hbc hcd := by
    refine ⟨hbc.1.trans hcd.1, fun n r hb => ?_⟩
    have hc := hbc.2 n r hb
    rw [hcd.2 n r (hc.trans hb), hc]

/-- Anything may come after a state that is not the last one, if it is as far. -/
theorem LifecycleState.precedes_of_rank {R : Type} {b c : LifecycleState R}
    (h : b.rank ≤ c.rank) (hb : b.rank < 2) : b.Precedes c :=
  ⟨h, fun n r heq => by rw [heq] at hb; exact absurd hb (lt_irrefl 2)⟩

namespace HostOCIControlV2Session

variable {s t : HostOCIControlV2Session} {log : List (LifecycleState TerminalResult)}
  {e : OCIControlV2Envelope} {line : List UInt8}

/-! ### Committed states -/

/-- The lifecycle state a message or a boundary announces. -/
def announced : Content → Option (LifecycleState TerminalResult)
  | .ready .. => some .ready
  | .snapshot _ _ b => some (b.map .mapping)
  | .terminal _ n r => some (.terminal n (.mapping r))
  | .boundaryAck _ _ b => some b.lifecycleState
  | _ => none

/-- The lifecycle state an operation commits. -/
def committed (s : HostOCIControlV2Session) : Operation → Option (LifecycleState TerminalResult)
  | .accept e => if (s.accept e).1 = .ok () then announced e.body.content else none
  | .admitBoundary e line =>
    if (s.admitBoundary e line).1 = .ok () then announced e.body.content else none
  | _ => none

/-- A message or a boundary that passes the checks of the session announces the lifecycle state. -/
inductive Announces (s : HostOCIControlV2Session) : Operation → LifecycleState TerminalResult → Prop
  | message {e : OCIControlV2Envelope} {t : HostOCIControlV2Session}
      {c : LifecycleState TerminalResult} (h : s.accepted e = .ok t)
      (hc : announced e.body.content = some c) : Announces s (.accept e) c
  | boundary {e : OCIControlV2Envelope} {line : List UInt8} {a : Admission}
      {c : LifecycleState TerminalResult} (h : s.admission e line = .ok a)
      (hstale : ¬s.StaleStopWire a) (hc : announced e.body.content = some c) :
      Announces s (.admitBoundary e line) c

/-- The sessions of a run, with the lifecycle states committed on the way, in their
order; `P` is what is asked of every operation. -/
inductive Run
    (P : HostOCIControlV2Session → List (LifecycleState TerminalResult) → Operation → Prop) :
    HostOCIControlV2Session → List (LifecycleState TerminalResult) → Prop
  | init (binding : OCIControlV2Binding) (bootAttemptId : Uuid) :
      Run P (init binding bootAttemptId) []
  | step {s : HostOCIControlV2Session} {log : List (LifecycleState TerminalResult)}
      (h : Run P s log) (op : Operation) (hop : P s log op) :
      Run P (s.perform op) (log ++ (s.committed op).toList)

/-- The committed states do not go back, every `stopping` among them names the STOP of
the session, and nothing but itself follows the end of the workload. -/
structure NeverRegresses (s : HostOCIControlV2Session)
    (log : List (LifecycleState TerminalResult)) : Prop where
  order : log.Pairwise fun b c => b.rank ≤ c.rank
  stop : ∀ n, .stopping n ∈ log → s.stopRequest = some n.1
  terminal : log.Pairwise fun b c => ∀ n r, b = .terminal n r → c = .terminal n r

/-- It is the end of the workload that the session has recorded. -/
def Ended (s : HostOCIControlV2Session) (c : LifecycleState TerminalResult) : Prop :=
  ∃ n r, c = .terminal n r ∧ s.terminal = some r ∧ s.terminalStopRequest = n.map Subtype.val

/-- What a session may take over so that the committed states do not go back. -/
structure Orderly (s : HostOCIControlV2Session) (log : List (LifecycleState TerminalResult))
    (op : Operation) : Prop where
  /-- While a boundary that commits the end of the workload waits for its RECONNECT in a
  session that does not record the end, only this end is taken over. -/
  pending : s.state = .ready ∨ s.state = .stopSent → ∀ n r, s.boundaryState = some (.terminal n r) →
    ∀ c, s.Announces op c → c = .terminal n r
  /-- After a `stopping`, a session that has sent a STOP takes over no `ready`. -/
  stopping : s.state = .stopSent → s.Announces op .ready → ∀ n, .stopping n ∉ log
  /-- A session that recorded the end of the workload before it sent its RECONNECT admits only
  a boundary with this end. A SNAPSHOT is compared with it. -/
  reconnecting : s.state = .reconnectSent → s.reconnectFrom = some .terminal →
    ∀ e line c, op = .admitBoundary e line → s.Announces op c → s.Ended c

/-! ### The invariant -/

/-- The session has not accepted its first READY. -/
def Starting (s : HostOCIControlV2Session) : Prop :=
  s.state = .new ∨ s.state = .helloSent ∨ s.state = .bootstrapReceived ∨ s.state = .keyAckSent

/-- What the session remembers of the guest is what was committed last. -/
structure Synchronized (s : HostOCIControlV2Session)
    (log : List (LifecycleState TerminalResult)) : Prop where
  chain : log.IsChain LifecycleState.Precedes
  stop : ∀ n, .stopping n ∈ log → s.stopRequest = some n.1
  both : s.boundary = none ↔ s.boundaryState = none
  pending : ∀ b, s.boundaryState = some b → s.state ≠ .terminal → log.getLast? = some b
  fresh : s.Starting → log = [] ∧ s.boundary = none
  ready : s.state = .ready →
    log.getLast? = some .ready ∨ ∃ n r, s.boundaryState = some (.terminal n r)
  stopSent : s.state = .stopSent → log.getLast? = some .ready ∨
    (∃ n, log.getLast? = some (.stopping n)) ∨ ∃ n r, s.boundaryState = some (.terminal n r)
  terminal : s.state = .terminal → ∃ c, log.getLast? = some c ∧ s.Ended c
  reconnecting : s.state = .reconnectSent → s.boundary = none ∧
    ∃ b, s.reconnectExpectedState = some b ∧
      (s.reconnectFrom ≠ some .terminal → log.getLast? = some b) ∧
      (s.reconnectFrom = some .terminal → ∃ c, log.getLast? = some c ∧ s.Ended c)

theorem Synchronized.neverRegresses (h : Synchronized s log) : NeverRegresses s log := by
  have hchain := List.isChain_iff_pairwise.mp h.chain
  exact ⟨hchain.imp fun hbc => hbc.1, h.stop, hchain.imp fun hbc n r hb => (hbc.2 n r hb).trans hb⟩

theorem synchronized_init (binding : OCIControlV2Binding) (bootAttemptId : Uuid) :
    Synchronized (init binding bootAttemptId) [] where
  chain := .nil
  stop := nofun
  both := ⟨fun _ => rfl, fun _ => rfl⟩
  pending := nofun
  fresh _ := ⟨rfl, rfl⟩
  ready := nofun
  stopSent := nofun
  terminal := nofun
  reconnecting := nofun

/-- A further state may be committed after the last one. -/
theorem Synchronized.concat_chain (h : Synchronized s log) {c : LifecycleState TerminalResult}
    (hc : ∀ b, log.getLast? = some b → b.Precedes c) :
    (log ++ [c]).IsChain LifecycleState.Precedes :=
  List.isChain_append.mpr ⟨h.chain, .singleton c, fun b hb d hd => by
    obtain rfl : c = d := by simpa using hd
    exact hc b hb⟩

/-- The recorded end of the workload is one state. -/
theorem Ended.unique {b c : LifecycleState TerminalResult} (hb : s.Ended b) (hc : s.Ended c) :
    b = c := by
  obtain ⟨n, r, rfl, hr, hn⟩ := hb
  obtain ⟨n', r', rfl, hr', hn'⟩ := hc
  rw [hr] at hr'
  rw [hn] at hn'
  rw [Option.some.inj hr', Option.map_injective Subtype.val_injective hn']

/-! ### Sending keeps it -/

theorem Synchronized.sends (h : Synchronized s log) (ht : Sends s t) : Synchronized t log := by
  cases ht with
  | unchanged => exact h
  | hello nonce hstate =>
    obtain ⟨hlog, hboundary⟩ := h.fresh (.inl hstate)
    exact ⟨h.chain, h.stop, h.both, fun b hb _ => h.pending b hb (by rw [hstate]; exact nofun),
      fun _ => ⟨hlog, hboundary⟩, nofun, nofun, nofun, nofun⟩
  | keyAckFailed | exec =>
    exact ⟨h.chain, h.stop, h.both, h.pending, h.fresh, h.ready, h.stopSent, h.terminal,
      h.reconnecting⟩
  | reconnectFailed hstate =>
    refine ⟨h.chain, h.stop, h.both, h.pending, h.fresh, h.ready, h.stopSent, h.terminal,
      fun hs => ?_⟩
    rcases hstate with hs' | hs' | hs'
    all_goals exact absurd (hs'.symm.trans hs) nofun
  | keyAck hstate =>
    obtain ⟨hlog, hboundary⟩ := h.fresh (.inr (.inr (.inl hstate)))
    exact ⟨h.chain, h.stop, h.both, fun b hb _ => h.pending b hb (by rw [hstate]; exact nofun),
      fun _ => ⟨hlog, hboundary⟩, nofun, nofun, nofun, nofun⟩
  -- The boundary that was announced becomes the one that is asked for again.
  | reconnect nonce hexec hboundary hstate =>
    obtain ⟨b, hb⟩ := Option.ne_none_iff_exists'.mp (mt h.both.mpr hboundary)
    exact ⟨h.chain, h.stop, ⟨fun _ => rfl, fun _ => rfl⟩, nofun, nofun, nofun, nofun, nofun,
      fun _ => ⟨rfl, b, hb, fun hne => h.pending b hb fun hs => hne (congrArg some hs),
        fun hs => h.terminal (Option.some.inj hs)⟩⟩
  | stopFailed | retryStop =>
    exact ⟨h.chain, fun n hn => by simp [afterStop, h.stop n hn], h.both, h.pending, h.fresh,
      h.ready, h.stopSent, h.terminal, h.reconnecting⟩
  | stop hstate =>
    exact ⟨h.chain, fun n hn => by simp [afterStop, h.stop n hn], h.both,
      fun b hb _ => h.pending b hb (by rw [hstate]; exact nofun), nofun, nofun,
      fun _ => (h.ready hstate).imp id .inr, nofun, nofun⟩

/-! ### Committing keeps it, in orderly runs -/

theorem Synchronized.stop_concat (h : Synchronized s log) {c : LifecycleState TerminalResult}
    (hc : ∀ n, c = .stopping n → s.stopRequest = some n.1) (n : Counter)
    (hn : .stopping n ∈ log ++ [c]) : s.stopRequest = some n.1 := by
  rcases List.mem_append.mp hn with hn | hn
  · exact h.stop n hn
  · exact hc n (List.mem_singleton.mp hn).symm

/-- The committed state may follow the last one, and names the STOP of the session if it
is `stopping`. -/
def Follows (s : HostOCIControlV2Session) (log : List (LifecycleState TerminalResult))
    (c : LifecycleState TerminalResult) : Prop :=
  (∀ b, log.getLast? = some b → b.Precedes c) ∧ ∀ n, c = .stopping n → s.stopRequest = some n.1

theorem follows_of_last {b c : LifecycleState TerminalResult} (hlast : log.getLast? = some b)
    (h : b.Precedes c) (hstop : ∀ n, c = .stopping n → s.stopRequest = some n.1) :
    s.Follows log c :=
  ⟨fun b' hb' => by rw [hlast] at hb'; rwa [← Option.some.inj hb'], hstop⟩

/-- The state committed last may be committed again. -/
theorem Synchronized.follows_last (h : Synchronized s log) {c : LifecycleState TerminalResult}
    (hlast : log.getLast? = some c) : s.Follows log c :=
  follows_of_last hlast c.precedes_refl fun n hn =>
    h.stop n (hn ▸ List.mem_of_getLast? hlast)

/-- The session after a lifecycle message: what it records is the state of the message. -/
theorem Synchronized.commit (h : Synchronized s log) {c : LifecycleState TerminalResult}
    (hfollows : s.Follows log c) (hrequest : t.stopRequest = s.stopRequest)
    (hboundary : t.boundary = s.boundary) (hboundaryState : t.boundaryState = s.boundaryState)
    (hpending : ∀ b, s.boundaryState = some b → c.rank = 2)
    (hstate : t.state = stateOf c)
    (hterminal : ∀ n r, c = .terminal n r →
      t.terminal = some r ∧ t.terminalStopRequest = n.map Subtype.val) :
    Synchronized t (log ++ [c]) := by
  have hlast : (log ++ [c]).getLast? = some c := List.getLast?_concat
  refine ⟨h.concat_chain hfollows.1,
    fun n hn => by rw [hrequest]; exact h.stop_concat hfollows.2 n hn,
    by rw [hboundary, hboundaryState]; exact h.both, ?_, ?_, ?_, ?_, ?_, ?_⟩
  -- While a boundary is pending only the end is recorded; the other clauses go by the state.
  · rw [hboundaryState, hstate]
    intro b hb hne
    have hrank := hpending b hb
    cases c with
    | terminal n r => exact absurd rfl hne
    | ready | stopping n => simp [LifecycleState.rank] at hrank
  · rw [Starting, hstate]
    cases c <;> exact fun hs => by simp [stateOf] at hs
  · rw [hstate, hlast]
    cases c with
    | ready => exact fun _ => .inl rfl
    | stopping n | terminal n r => rintro ⟨⟩
  · rw [hstate, hlast]
    cases c with
    | stopping n => exact fun _ => .inr (.inl ⟨n, rfl⟩)
    | ready | terminal n r => rintro ⟨⟩
  · rw [hstate, hlast]
    cases c with
    | terminal n r => exact fun _ => ⟨_, rfl, n, r, rfl, hterminal n r rfl⟩
    | ready | stopping n => rintro ⟨⟩
  · rw [hstate]
    cases c <;> rintro ⟨⟩

/-- In the states in which a workload can end, the state committed last is that of a
pending boundary or an earlier one. -/
theorem Synchronized.last_lt (h : Synchronized s log)
    (hstate : s.state = .ready ∨ s.state = .stopSent) :
    (∃ n r, s.boundaryState = some (.terminal n r) ∧ log.getLast? = some (.terminal n r)) ∨
      ∃ b, log.getLast? = some b ∧ b.rank < 2 := by
  have hpending : ∀ n r, s.boundaryState = some (.terminal n r) →
      log.getLast? = some (.terminal n r) := fun n r hb =>
    h.pending _ hb (by rcases hstate with hs | hs <;> rw [hs] <;> exact nofun)
  rcases hstate with hs | hs
  · rcases h.ready hs with hl | ⟨n, r, hb⟩
    · exact .inr ⟨_, hl, Nat.zero_lt_two⟩
    · exact .inl ⟨n, r, hb, hpending n r hb⟩
  · rcases h.stopSent hs with hl | ⟨n, hl⟩ | ⟨n, r, hb⟩
    · exact .inr ⟨_, hl, Nat.zero_lt_two⟩
    · exact .inr ⟨_, hl, Nat.one_lt_two⟩
    · exact .inl ⟨n, r, hb, hpending n r hb⟩

/-- The end of the workload may follow. -/
theorem Synchronized.follows_terminal (h : Synchronized s log)
    (hstate : s.state = .ready ∨ s.state = .stopSent) {n : Option Counter} {r : TerminalResult}
    (hpending : ∀ n' r', s.boundaryState = some (.terminal n' r') →
      LifecycleState.terminal n r = .terminal n' r') :
    s.Follows log (.terminal n r) := by
  rcases h.last_lt hstate with ⟨n', r', hb, hl⟩ | ⟨b, hl, hrank⟩
  · rw [hpending n' r' hb]
    exact h.follows_last hl
  · exact follows_of_last hl (LifecycleState.precedes_of_rank hrank.le hrank) nofun

theorem Synchronized.accept (h : Synchronized s log) {m : OCIControlV2Message}
    (hacc : Acceptance s m t)
    (hpending : s.state = .ready ∨ s.state = .stopSent → ∀ n r,
      s.boundaryState = some (.terminal n r) →
        ∀ c, announced m.content = some c → c = .terminal n r) :
    Synchronized t (log ++ (announced m.content).toList) := by
  cases hacc with
  | execOutput hc | execExit hc =>
    rw [hc]
    show Synchronized _ (log ++ [])
    rw [List.append_nil]
    exact ⟨h.chain, h.stop, h.both, h.pending, h.fresh, h.ready, h.stopSent, h.terminal,
      h.reconnecting⟩
  | ready hc hstate hreply =>
    obtain ⟨hlog, hboundary⟩ := h.fresh (.inr (.inr (.inr hstate)))
    have hnone := h.both.mp hboundary
    rw [hc]
    exact h.commit ⟨by rw [hlog]; exact nofun, nofun⟩ rfl rfl rfl
      (fun b hb => by rw [hnone] at hb; cases hb) rfl nofun
  | @snapshot g n b hc hstate hreply hb =>
    obtain ⟨hboundary, b', hb', hsame, hended⟩ := h.reconnecting hstate
    have hnone := h.both.mp hboundary
    have hlast : log.getLast? = some (b.map .mapping) := by
      obtain ⟨hexpected, hcheck⟩ := require_bind_eq_ok.mp hb
      rw [hb'] at hexpected
      obtain rfl := Option.some.inj hexpected
      by_cases hfrom : s.reconnectFrom = some .terminal
      · -- the result is compared with the recorded one
        obtain ⟨c, hlast, hrecorded⟩ := hended hfrom
        cases b with
        | ready | stopping n => simp [LifecycleState.map, require_eq_ok, hfrom] at hcheck
        | terminal n r =>
          simp only [LifecycleState.map, bind_eq_ok, require_eq_ok, exists_const, hfrom] at hcheck
          have hended : s.Ended (.terminal n (.mapping r)) := by
            refine ⟨n, .mapping r, rfl, ?_⟩
            by_contra hne
            exact hcheck.2.2 ⟨trivial, by tauto⟩
          rw [hlast, hrecorded.unique hended]
          rfl
      · exact hsame hfrom
    rw [hc]
    refine h.commit (h.follows_last hlast) rfl rfl rfl (fun b hb => by rw [hnone] at hb; cases hb)
      rfl fun n r hr => ?_
    rw [hr]
    exact ⟨rfl, rfl⟩
  -- The workload has ended by itself, or after the STOP that was sent.
  | natural hc hexec hstate =>
    rw [hc] at hpending ⊢
    refine h.commit (h.follows_terminal (.inl hstate) fun n r hb =>
      hpending (.inl hstate) n r hb _ rfl) rfl rfl rfl (fun _ _ => rfl) rfl ?_
    rintro n r ⟨⟩
    exact ⟨rfl, rfl⟩
  | naturalStop hc hexec hstate | stoppedPast hc hexec hstate | stopped hc hexec hstate =>
    rw [hc] at hpending ⊢
    refine h.commit (h.follows_terminal (.inr hstate) fun n r hb =>
      hpending (.inr hstate) n r hb _ rfl) rfl rfl rfl (fun _ _ => rfl) rfl ?_
    rintro n r ⟨⟩
    exact ⟨rfl, rfl⟩

/-- The state of an admitted boundary may follow. -/
theorem Synchronized.follows_boundary (h : Synchronized s log) {b : LifecycleState TerminalResult}
    (hallows : s.AllowsState b)
    (hstate : s.state = .keyAckSent ∨ s.state = .ready ∨ s.state = .stopSent ∨
      s.state = .terminal ∨ s.state = .reconnectSent)
    (hpending : s.state = .ready ∨ s.state = .stopSent →
      ∀ n r, s.boundaryState = some (.terminal n r) → b = .terminal n r)
    (hready : s.state = .stopSent → b = .ready → ∀ n, .stopping n ∉ log)
    (hended : s.state = .reconnectSent → s.reconnectFrom = some .terminal → s.Ended b) :
    s.Follows log b := by
  have hnatural : b = .ready ∨ b.name = "terminal" ∧ b.stopId = none → ∀ n, b ≠ .stopping n := by
    rintro (hb | ⟨hb, -⟩) n rfl
    · cases hb
    · simp [LifecycleState.name] at hb
  have hlate : s.state = .ready ∨ s.state = .stopSent →
      ∀ n r, s.boundaryState = some (.terminal n r) → s.Follows log b := fun hs n r hb => by
    rw [hpending hs n r hb]
    exact h.follows_last (h.pending _ hb (by rcases hs with hs | hs <;> rw [hs] <;> rintro ⟨⟩))
  -- By the state of the session: no state yet, ready, after a STOP, at the end, and reconnecting,
  -- where the boundary that was announced last decides.
  rcases hstate with hs | hs | hs | hs | hs
  · simp only [AllowsState, hs] at hallows
    obtain ⟨hlog, -⟩ := h.fresh (.inr (.inr (.inr hs)))
    exact ⟨by rw [hlog]; rintro _ ⟨⟩, fun n hn => absurd hn (hnatural hallows n)⟩
  · simp only [AllowsState, hs] at hallows
    rcases h.ready hs with hl | ⟨n, r, hb⟩
    · exact follows_of_last hl (LifecycleState.precedes_of_rank (Nat.zero_le _) Nat.zero_lt_two)
        fun n hn => absurd hn (hnatural hallows n)
    · exact hlate (.inl hs) n r hb
  · simp only [AllowsState, hs] at hallows
    have hstop : ∀ n, b = .stopping n → s.stopRequest = some n.1 := by
      rintro n rfl
      rcases hallows with hb | ⟨-, hb⟩ | ⟨hb, -⟩
      · cases hb
      · exact hb.symm
      · simp [LifecycleState.name] at hb
    rcases h.stopSent hs with hl | ⟨n, hl⟩ | ⟨n, r, hb⟩
    · exact follows_of_last hl (LifecycleState.precedes_of_rank (Nat.zero_le _) Nat.zero_lt_two)
        hstop
    · refine follows_of_last hl ?_ hstop
      cases b with
      | ready => exact absurd (List.mem_of_getLast? hl) (hready hs rfl n)
      | stopping n' => exact LifecycleState.precedes_of_rank le_rfl Nat.one_lt_two
      | terminal n' r => exact LifecycleState.precedes_of_rank one_le_two Nat.one_lt_two
    · exact hlate (.inr hs) n r hb
  · simp only [AllowsState, hs] at hallows
    obtain ⟨c, hl, hc⟩ := h.terminal hs
    cases b with
    | ready | stopping n => exact hallows.elim
    | terminal n r =>
      obtain ⟨hn, hr⟩ := hallows
      rw [hc.unique ⟨n, r, rfl, hr, hn.symm⟩] at hl
      exact h.follows_last hl
  · obtain ⟨-, b', hb', hsame, hlast⟩ := h.reconnecting hs
    by_cases hfrom : s.reconnectFrom = some .terminal
    · obtain ⟨c, hl, hc⟩ := hlast hfrom
      rw [hc.unique (hended hs hfrom)] at hl
      exact h.follows_last hl
    · have hl := hsame hfrom
      simp only [AllowsState, hs, hb'] at hallows
      cases b' with
      | ready =>
        exact follows_of_last hl (LifecycleState.precedes_of_rank (Nat.zero_le _) Nat.zero_lt_two)
          fun n hn => absurd hn (hnatural hallows n)
      | stopping n =>
        rcases hallows with rfl | ⟨hb, -⟩
        · exact h.follows_last hl
        · cases b with
          | terminal n' r =>
            exact follows_of_last hl (LifecycleState.precedes_of_rank one_le_two Nat.one_lt_two)
              (by rintro _ ⟨⟩)
          | ready | stopping n' => simp [LifecycleState.name] at hb
      | terminal n r =>
        obtain rfl : b = .terminal n r := hallows
        exact h.follows_last hl

/-- What the session records of the end of the workload after it has committed it. -/
theorem finishCommit_ended {a : Admission} (hallows : s.AllowsState a.boundary.lifecycleState)
    (hstate : s.state = .keyAckSent ∨ s.state = .ready ∨ s.state = .stopSent ∨
      s.state = .terminal ∨ s.state = .reconnectSent)
    (hs : (s.finishCommit a).state = .terminal) :
    (s.finishCommit a).Ended a.boundary.lifecycleState := by
  rw [finishCommit_state] at hs
  -- After KEY_ACK and RECONNECT the end is taken from the boundary; at the end it was known.
  have hadopted : stateOf a.boundary.lifecycleState = .terminal →
      s.state = .keyAckSent ∨ s.state = .reconnectSent →
        (s.finishCommit a).Ended a.boundary.lifecycleState := by
    intro hs hstate
    cases hb : a.boundary.lifecycleState with
    | ready | stopping n => rw [hb] at hs; cases hs
    | terminal n r =>
      refine ⟨n, r, rfl, ?_⟩
      rcases hstate with hstate | hstate
      all_goals
        simp only [HostOCIControlV2Session.finishCommit, hstate, hb]
        exact ⟨rfl, rfl⟩
  rcases hstate with hs' | hs' | hs' | hs' | hs' <;>
    simp only [hs', reduceCtorEq, or_false, or_true, or_self, if_true, if_false] at hs
  · exact hadopted hs (.inl hs')
  · simp only [AllowsState, hs'] at hallows
    cases hb : a.boundary.lifecycleState with
    | ready | stopping n => rw [hb] at hallows; exact hallows.elim
    | terminal n r =>
      rw [hb] at hallows
      refine ⟨n, r, rfl, ?_⟩
      simp only [HostOCIControlV2Session.finishCommit, hs', beginCommit]
      exact ⟨hallows.2, hallows.1.symm⟩
  · exact hadopted hs (.inr hs')

theorem Synchronized.finishCommit (h : Synchronized s log) {a : Admission}
    (hallows : s.AllowsState a.boundary.lifecycleState)
    (hstate : s.state = .keyAckSent ∨ s.state = .ready ∨ s.state = .stopSent ∨
      s.state = .terminal ∨ s.state = .reconnectSent)
    (hfollows : s.Follows log a.boundary.lifecycleState) :
    Synchronized (s.finishCommit a) (log ++ [a.boundary.lifecycleState]) := by
  have hlast : (log ++ [a.boundary.lifecycleState]).getLast? = some a.boundary.lifecycleState :=
    List.getLast?_concat
  have hs : (s.finishCommit a).state = .ready ∨ (s.finishCommit a).state = .stopSent ∨
      (s.finishCommit a).state = .terminal := by
    rw [finishCommit_state]
    split
    · cases a.boundary.lifecycleState <;> simp [stateOf]
    · tauto
  -- a session in a state keeps it, and one that resumes takes it from the boundary
  have hresumed : (s.finishCommit a).state = stateOf a.boundary.lifecycleState ∨
      (s.finishCommit a).state = s.state := by
    rw [finishCommit_state]
    split
    · exact .inl rfl
    · exact .inr rfl
  refine ⟨h.concat_chain hfollows.1, fun n hn => ?_, by simp, fun b hb _ => ?_, fun hf => ?_,
    fun hr => ?_, fun hr => ?_, fun hr => ?_, fun hr => ?_⟩
  · rw [finishCommit_stopRequest]
    exact h.stop_concat hfollows.2 n hn
  · rw [finishCommit_boundaryState] at hb
    rw [hlast, hb]
  · rcases hs with hs | hs | hs <;> rw [Starting, hs] at hf <;> simp at hf
  · rw [hlast, finishCommit_boundaryState]
    rw [hr] at hresumed
    cases hb : a.boundary.lifecycleState with
    | ready => exact .inl rfl
    | stopping n =>
      rw [hb] at hresumed hallows
      rcases hresumed with hs' | hs'
      · cases hs'
      · simp [AllowsState, ← hs', LifecycleState.name] at hallows
    | terminal n r => exact .inr ⟨n, r, rfl⟩
  · rw [hlast, finishCommit_boundaryState]
    cases a.boundary.lifecycleState with
    | ready => exact .inl rfl
    | stopping n => exact .inr (.inl ⟨n, rfl⟩)
    | terminal n r => exact .inr (.inr ⟨n, r, rfl⟩)
  · exact ⟨_, hlast, finishCommit_ended hallows hstate hr⟩
  · rcases hs with hs | hs | hs <;> rw [hs] at hr <;> cases hr

/-! ### Runs -/

theorem committed_accept (ht : s.accept e = (.ok (), t)) :
    s.committed (.accept e) = announced e.body.content := by
  simp only [committed, ht, if_true]

theorem committed_admitBoundary (ht : s.admitBoundary e line = (.ok (), t)) :
    s.committed (.admitBoundary e line) = announced e.body.content := by
  simp only [committed, ht, if_true]

theorem committed_accept_error {r : Raised} (ht : s.accept e = (.error r, t)) :
    s.committed (.accept e) = none := by
  simp only [committed, ht, reduceCtorEq, if_false]

theorem committed_admitBoundary_error {r : Raised}
    (ht : s.admitBoundary e line = (.error r, t)) :
    s.committed (.admitBoundary e line) = none := by
  simp only [committed, ht, reduceCtorEq, if_false]

/-- What passes the checks is committed. -/
theorem announces_iff {op : Operation} {c : LifecycleState TerminalResult} :
    s.Announces op c ↔ s.committed op = some c := by
  constructor
  · rintro (⟨h, hc⟩ | ⟨h, hstale, hc⟩)
    · rw [committed_accept (by rw [HostOCIControlV2Session.accept, h]), hc]
    · rw [committed_admitBoundary
        (by rw [HostOCIControlV2Session.admitBoundary, h]; exact if_neg hstale), hc]
  · intro hc
    cases op with
    | accept e =>
      rcases s.accept_cases e with ⟨r, -, hcase⟩ | ⟨t, hacc, hcase⟩
      · rw [committed_accept_error hcase] at hc
        cases hc
      · rw [committed_accept hcase] at hc
        exact .message hacc hc
    | admitBoundary e line =>
      rcases s.admitBoundary_cases e line with ⟨r, -, hcase⟩ | ⟨a, -, -, hcase⟩ |
        ⟨a, ha, hstale, hcase⟩
      · rw [committed_admitBoundary_error hcase] at hc
        cases hc
      · rw [committed_admitBoundary_error hcase] at hc
        cases hc
      · rw [committed_admitBoundary hcase] at hc
        exact .boundary ha hstale hc
    | _ => cases hc

theorem Synchronized.performAccept (h : Synchronized s log) (hop : Orderly s log (.accept e)) :
    Synchronized (s.perform (.accept e)) (log ++ (s.committed (.accept e)).toList) := by
  rcases s.accept_cases e with ⟨r, -, hcase⟩ | ⟨t, hacc, hcase⟩
  · rw [committed_accept_error hcase, HostOCIControlV2Session.perform, hcase]
    simpa using h
  · have hpending := hop.pending
    simp only [announces_iff, committed_accept hcase] at hpending
    rw [committed_accept hcase]
    rw [HostOCIControlV2Session.perform, hcase]
    obtain ⟨-, ⟨g, n, k, hc, hb, rfl⟩ | ⟨-, key, -, -, -, -, hacceptance⟩⟩ := accepted_eq_ok.mp hacc
    · obtain ⟨hlog, hboundary⟩ := h.fresh (.inr (.inl hb.state))
      rw [hc]
      show Synchronized _ (log ++ [])
      rw [List.append_nil]
      exact ⟨h.chain, h.stop, h.both, fun b hb' _ => h.pending b hb' (by rw [hb.state]; rintro ⟨⟩),
        fun _ => ⟨hlog, hboundary⟩, by rintro ⟨⟩, by rintro ⟨⟩, by rintro ⟨⟩, by rintro ⟨⟩⟩
    · exact h.accept hacceptance hpending

theorem Synchronized.performBoundary (h : Synchronized s log)
    (hop : Orderly s log (.admitBoundary e line)) :
    Synchronized (s.perform (.admitBoundary e line))
      (log ++ (s.committed (.admitBoundary e line)).toList) := by
  rcases s.admitBoundary_cases e line with ⟨r, -, hcase⟩ | ⟨a, -, -, hcase⟩ | ⟨a, ha, -, hcase⟩
  · rw [committed_admitBoundary_error hcase, HostOCIControlV2Session.perform, hcase]
    simpa using h
  · -- what is written before the late check says nothing about the guest
    rw [committed_admitBoundary_error hcase, HostOCIControlV2Session.perform, hcase]
    show Synchronized _ (log ++ [])
    rw [List.append_nil]
    exact ⟨h.chain, h.stop, h.both, h.pending, h.fresh, h.ready, h.stopSent, h.terminal,
      h.reconnecting⟩
  · obtain ⟨hpending, hready, hended⟩ := hop
    obtain ⟨-, key, g, n, b, accepted, canonical, -, -, -, hc, hchecked, -, -, -, rfl⟩ :=
      admission_eq_ok.mp ha
    simp only [announces_iff, committed_admitBoundary hcase, hc] at hpending hready hended
    rw [committed_admitBoundary hcase, hc]
    rw [HostOCIControlV2Session.perform, hcase]
    exact h.finishCommit hchecked.allows hchecked.state <| h.follows_boundary hchecked.allows
      hchecked.state (fun hs n r hb => hpending hs n r hb _ rfl)
      (fun hs hb => hready hs (congrArg some hb)) fun hs hfrom => hended hs hfrom e line _ rfl rfl

/-- Every operation of an orderly run keeps the invariant. -/
theorem Synchronized.perform (h : Synchronized s log) {op : Operation} (hop : Orderly s log op) :
    Synchronized (s.perform op) (log ++ (s.committed op).toList) := by
  have hsends : ∀ {t}, Sends s t → Synchronized t (log ++ []) := fun ht => by
    rw [List.append_nil]
    exact h.sends ht
  cases op with
  | accept e => exact h.performAccept hop
  | admitBoundary e line => exact h.performBoundary hop
  | hello candidate => exact hsends (sends_hello candidate)
  | keyAck => exact hsends sends_keyAck
  | reconnect candidate => exact hsends (sends_reconnect candidate)
  | exec argv timeoutMs => exact hsends (sends_exec argv timeoutMs)
  | stop => exact hsends sends_stop
  | retryStop => exact hsends sends_retryStop

theorem Run.synchronized (h : Run Orderly s log) : Synchronized s log := by
  induction h with
  | init binding bootAttemptId => exact synchronized_init binding bootAttemptId
  | step _ op hop ih => exact ih.perform hop

/-- A step that is not orderly goes back. -/
theorem Synchronized.orderly (h : Synchronized s log) {op : Operation}
    (hnever : NeverRegresses (s.perform op) (log ++ (s.committed op).toList)) :
    Orderly s log op := by
  have hterminal : ∀ {n r c}, log.getLast? = some (.terminal n r) → s.committed op = some c →
      c = .terminal n r := fun {n r c} hlast hc => by
    have hpair := hnever.terminal
    rw [hc] at hpair
    exact (List.pairwise_append.mp hpair).2.2 _ (List.mem_of_getLast? hlast) c
      (List.mem_singleton_self c) n r rfl
  refine ⟨fun hs n r hb c hc => hterminal (h.pending _ hb ?_) (announces_iff.mp hc),
    fun _ hc n hn => ?_, fun hs hfrom _ _ c _ hc => ?_⟩
  · rcases hs with hs | hs <;> rw [hs] <;> exact nofun
  · have hpair := hnever.order
    rw [announces_iff.mp hc] at hpair
    exact absurd ((List.pairwise_append.mp hpair).2.2 _ hn _ (List.mem_singleton_self _))
      (Nat.not_succ_le_zero 0)
  · obtain ⟨-, -, -, -, hlast⟩ := h.reconnecting hs
    obtain ⟨c', hl, hended⟩ := hlast hfrom
    obtain ⟨n, r, rfl, -⟩ := id hended
    rwa [hterminal hl (announces_iff.mp hc)]

/-- **The committed states do not go back in a run whose steps are orderly**, and a
further step of such a run that is not orderly makes them go back. -/
theorem neverRegresses_of_orderly (h : Run Orderly s log) :
    NeverRegresses s log ∧ ∀ op,
      NeverRegresses (s.perform op) (log ++ (s.committed op).toList) ↔ Orderly s log op :=
  ⟨h.synchronized.neverRegresses, fun _ =>
    ⟨h.synchronized.orderly, fun hop => (h.synchronized.perform hop).neverRegresses⟩⟩

/-! ### A run in which the end of the workload is taken back -/

section

variable {P : HostOCIControlV2Session → List (LifecycleState TerminalResult) → Operation → Prop}

theorem Run.send (h : Run P s log) {op : Operation} (hop : P s log op)
    (hc : s.committed op = none) (ht : s.perform op = t) : Run P t log := by
  have := h.step op hop
  rwa [hc, ht, Option.toList_none, List.append_nil] at this

theorem Run.accept (h : Run P s log) (hop : P s log (.accept e)) (ht : s.accept e = (.ok (), t)) :
    Run P t (log ++ (announced e.body.content).toList) := by
  have := h.step (.accept e) hop
  rwa [committed_accept ht, HostOCIControlV2Session.perform, ht] at this

theorem Run.admitBoundary (h : Run P s log) (hop : P s log (.admitBoundary e line))
    (ht : s.admitBoundary e line = (.ok (), t)) :
    Run P t (log ++ (announced e.body.content).toList) := by
  have := h.step (.admitBoundary e line) hop
  rwa [committed_admitBoundary ht, HostOCIControlV2Session.perform, ht] at this

theorem orderly_of_starting (hs : s.Starting) (op : Operation) : Orderly s log op := by
  refine ⟨fun h => ?_, fun h => ?_, fun h => ?_⟩
  all_goals rcases hs with hs | hs | hs | hs <;> simp [hs] at h

theorem Sample.run_ready (hP : ∀ s log op, s.Starting → P s log op) :
    Run P Sample.ready [.ready] := by
  have hhello := (Run.init Sample.binding Sample.bootAttempt).send (hP _ _ _ (.inl rfl)) rfl
    Sample.perform_helloSent
  obtain ⟨e, hc, he⟩ := Sample.exists_bootstrapped
  have hboot := hhello.accept (hP _ _ _ (.inr (.inl rfl))) he
  have hlog : announced e.body.content = none := by
    cases h : e.body.content <;> rw [h] at hc <;> first | rfl | cases hc
  rw [hlog] at hboot
  have hack := hboot.send (hP _ _ _ (.inr (.inr (.inl rfl)))) rfl Sample.perform_keyAckSent
  obtain ⟨e, hc, he⟩ := Sample.exists_ready
  have hready := hack.accept (hP _ _ _ (.inr (.inr (.inr rfl)))) he
  have hlog : announced e.body.content = some .ready := by
    cases h : e.body.content <;> rw [h] at hc <;> first | rfl | cases hc
  rwa [hlog] at hready

end

namespace Sample

/-- A boundary that commits `stopping`, after the STOP on wire 3. -/
def stoppingBoundary : BoundaryAck :=
  boundaryAck ⟨0, Nat.zero_lt_two⟩ ⟨3, counter_three⟩ ⟨3, counter_three⟩ ⟨1, counter_one⟩
    (.stopping ⟨2, counter_two⟩)

/-- The session that has admitted it. -/
def stopHeard (digest : Digest) : HostOCIControlV2Session :=
  stopSent.finishCommit ⟨2, 3, stoppingBoundary, digest, false⟩

/-- The session that has accepted the answer to the STOP after that. -/
def stopped (digest : Digest) : HostOCIControlV2Session :=
  (stopHeard digest).afterTerminal 4 (some 2) result ((stopHeard digest).stopWire.getD 0)
    (some (stopHeard digest).stopWireCandidates)

theorem exists_stopHeard : ∃ e line digest,
    announced e.body.content = some stoppingBoundary.lifecycleState ∧
      stopSent.admitBoundary e line = (.ok (), stopHeard digest) := by
  have hchecked : Checked stopSent
      (boundaryMessage stoppingBoundary ⟨2, by decide⟩ ⟨3, by decide⟩ (by decide))
      stoppingBoundary false :=
    ⟨rfl, rfl, rfl, rfl, (by decide : 2 < 3), rfl, rfl, .inr (.inr (.inl rfl)), ⟨rfl, rfl⟩,
      .inr (.inl ⟨rfl, rfl⟩), (by decide : 3 ∈ ({3} : Finset ℕ)), nofun, fun hr => (nomatch hr.1)⟩
  obtain ⟨e, line, digest, hbody, he⟩ := exists_admitBoundary hchecked nofun nofun rfl rfl trivial
    (Finset.notMem_empty _) fun _ hs => hs.2.1 (by decide : 3 ∈ ({3} : Finset ℕ))
  exact ⟨e, line, digest, by rw [hbody]; rfl, he⟩

theorem exists_stopped (digest : Digest) : ∃ e,
    announced e.body.content = some (.terminal (some ⟨2, counter_two⟩) (.mapping result)) ∧
      (stopHeard digest).accept e = (.ok (), stopped digest) := by
  have hstopped : Acceptance (stopHeard digest)
      ⟨binding, bootAttempt, nonce, ⟨2, by decide⟩, ⟨4, by decide⟩,
        .terminal generation (some ⟨2, by decide⟩) result, trivial⟩ (stopped digest) :=
    .stopped (g := generation) (n := ⟨2, by decide⟩) rfl rfl rfl rfl
      fun hp => absurd (show ({3} : Finset ℕ).sup id < 3 from hp.2) (by decide)
  obtain ⟨e, hbody, he⟩ := exists_accept hstopped
    ⟨rfl, rfl, rfl, rfl, (by decide : 3 < 4)⟩ rfl nofun nofun
  exact ⟨e, by rw [hbody]; rfl, he⟩

end Sample

/-- A session that is stopped: it has committed all three states. -/
theorem neverRegresses_of_orderly_stopped : ∃ digest,
    NeverRegresses (Sample.stopped digest) [.ready, .stopping ⟨2, Sample.counter_two⟩,
      .terminal (some ⟨2, Sample.counter_two⟩) (.mapping Sample.result)] := by
  obtain ⟨e, line, digest, hc, he⟩ := Sample.exists_stopHeard
  obtain ⟨e', hc', he'⟩ := Sample.exists_stopped digest
  have hready := Sample.run_ready (P := Orderly) fun _ _ op hs => orderly_of_starting hs op
  have hstop : Run Orderly Sample.stopSent [.ready] :=
    hready.send ⟨fun _ _ _ hb => (nomatch hb), fun hs => (nomatch hs), fun hs => (nomatch hs)⟩
      rfl Sample.perform_stopSent
  have hheard := hstop.admitBoundary ⟨fun _ n r hb => (nomatch hb), fun _ _ n hn => ?_,
    fun hs => (nomatch hs)⟩ he
  · rw [hc] at hheard
    have hended := hheard.accept ⟨fun _ n r hb => (nomatch hb), fun _ ha => ?_,
      fun hs => (nomatch hs)⟩ he'
    · rw [hc'] at hended
      exact ⟨digest, (neverRegresses_of_orderly hended).1⟩
    · rw [announces_iff, committed_accept he', hc'] at ha
      cases ha
  · rw [List.mem_singleton] at hn
    cases hn

namespace Sample

/-- A boundary that commits the end of the workload. -/
def naturalBoundary : BoundaryAck :=
  boundaryAck ⟨0, Nat.zero_lt_two⟩ ⟨2, counter_two⟩ ⟨3, counter_three⟩ ⟨1, counter_one⟩
    (.terminal none (.mapping result))

/-- The session that has admitted it after the first READY. -/
def naturalPending (digest : Digest) : HostOCIControlV2Session :=
  ready.finishCommit ⟨2, 3, naturalBoundary, digest, false⟩

/-- A boundary after it that commits `ready`. -/
def revivedBoundary : BoundaryAck :=
  boundaryAck ⟨1, Nat.one_lt_two⟩ ⟨2, counter_two⟩ ⟨4, by decide⟩ ⟨2, counter_two⟩ .ready

theorem exists_naturalPending : ∃ e line digest,
    announced e.body.content = some naturalBoundary.lifecycleState ∧
      ready.admitBoundary e line = (.ok (), naturalPending digest) := by
  have hchecked : Checked ready
      (boundaryMessage naturalBoundary ⟨2, by decide⟩ ⟨3, by decide⟩ (by decide))
      naturalBoundary false :=
    ⟨rfl, rfl, rfl, rfl, (by decide : 2 < 3), rfl, rfl, .inr (.inl rfl), ⟨rfl, rfl⟩,
      .inr ⟨rfl, rfl⟩, (by decide : 2 ∈ ({2} : Finset ℕ)), nofun, fun hr => (nomatch hr.1)⟩
  obtain ⟨e, line, digest, hbody, he⟩ := exists_admitBoundary hchecked nofun nofun rfl rfl trivial
    (Finset.notMem_empty _) fun _ hs => hs.1.1 rfl
  exact ⟨e, line, digest, by rw [hbody]; rfl, he⟩

theorem exists_revived (digest : Digest) : ∃ e line t,
    announced e.body.content = some .ready ∧
      (naturalPending digest).admitBoundary e line = (.ok (), t) := by
  have hchecked : Checked (naturalPending digest)
      (boundaryMessage revivedBoundary ⟨3, by decide⟩ ⟨4, by decide⟩ (by decide))
      revivedBoundary false :=
    ⟨rfl, rfl, rfl, rfl, (by decide : 3 < 4), rfl, rfl, .inr (.inl rfl), ⟨rfl, rfl⟩,
      .inl rfl, (by decide : 2 ∈ ({2} : Finset ℕ)), nofun, fun hr => (nomatch hr.1)⟩
  obtain ⟨e, line, d, hbody, he⟩ := exists_admitBoundary hchecked nofun nofun rfl rfl trivial
    (by decide : boundaryId 1 ∉ insert (boundaryId 0) (∅ : Finset Uuid)) fun _ hs => hs.1.1 rfl
  exact ⟨e, line, _, by rw [hbody]; rfl, he⟩

end Sample

/-- A session in the state `ready` admits a boundary that commits the end of the
workload, remains in the state `ready`, and admits a boundary that commits `ready`. -/
theorem regresses_after_boundary :
    ¬∀ s log, Run (fun _ _ _ => True) s log → NeverRegresses s log := by
  intro h
  have hready := Sample.run_ready (P := fun _ _ _ => True) fun _ _ _ _ => trivial
  obtain ⟨e, line, digest, hc, he⟩ := Sample.exists_naturalPending
  have hnatural := hready.admitBoundary trivial he
  obtain ⟨e', line', t, hc', he'⟩ := Sample.exists_revived digest
  have hrevived := hnatural.admitBoundary trivial he'
  rw [hc, hc'] at hrevived
  exact absurd (h _ _ hrevived).order (by decide)

end HostOCIControlV2Session

end Palimpsest.Control
