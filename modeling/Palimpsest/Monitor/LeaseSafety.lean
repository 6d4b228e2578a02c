import Mathlib.Data.List.Pairwise
import Palimpsest.Monitor.LedgerAtomic
import Palimpsest.Monitor.PreactivationLease

/-!
# No second activation

What a publication makes of the journal that was there is said once
(`Palimpsest.Monitor.Preactivation.Publishes`): who publishes it, from which phase, and what
stays. That every journal of a run was published in this way is the invariant of a step
(`Palimpsest.Monitor.Preactivation.Sound.step`), and the statements about whole histories
follow from it: revisions count up by one, a journal that shows the activation of the domain is
followed by such journals only, and these are all of one generation.
-/

namespace Palimpsest.Monitor.Preactivation

open Control

variable {binding : MonitorPreActivationBinding}
  {s p : MonitorPreactivationJournalSnapshot binding}

/-! ### What is published -/

/-- The journal shows that the domain was activated, or that it may have been. -/
def ShowsActivation (s : MonitorPreactivationJournalSnapshot binding) : Prop :=
  hasActivationEvidence s ∨ s.phase = .controlLost

/-- The phases before the activation, and the one of a journal that was given up. -/
def isPreactivation : PreactivationPhase → Bool
  | .claiming | .prepared | .committed | .aborting | .adopting | .abandoned => true
  | _ => false

/-- What an event may publish over the journal that is there: the first journal; a new
generation over a journal that was given up; the adoption of a journal whose writer was found
stale; and a transition by the writer itself. -/
def Publishes (o : Option (MonitorPreactivationJournalSnapshot binding)) (e : Event binding)
    (s : MonitorPreactivationJournalSnapshot binding) : Prop :=
  match o, e.operation with
  | none, .create generation _ writer _ =>
    s.phase = .claiming ∧ s.revision = 1 ∧ s.writer = writer.1 ∧ s.generation = generation
  | some p, .create generation _ writer _ =>
    p.phase = .abandoned ∧ s.phase = .claiming ∧ s.revision = p.revision + 1 ∧
      s.writer = writer.1 ∧ s.generation = generation
  | some p, .adoptStale generation _ _ liveness =>
    liveness = .stale ∧ ¬ShowsActivation p ∧ s.phase = .adopting ∧
      s.revision = p.revision + 1 ∧ s.writer = e.process.1 ∧ s.generation = generation
  | some p, .transition t =>
    e.process.1 = p.writer ∧ t.allowed p.phase ∧ s.phase = t.phase ∧
      s.revision = p.revision + 1 ∧ s.writer = p.writer ∧ s.generation = p.generation
  | _, _ => False

/-- Journals after one another: the revision counts up, and what shows the activation of a
generation is followed by what shows it too. -/
structure Succeeds (p s : MonitorPreactivationJournalSnapshot binding) : Prop where
  revision : s.revision = p.revision + 1
  activation : ShowsActivation p → ShowsActivation s ∧ s.generation = p.generation

/-- A binding of the domain is in the journal only after the activation. -/
theorem showsActivation_iff : ShowsActivation s ↔ isPreactivation s.phase = false := by
  have h := s.admissible
  obtain ⟨generation, nonceDigest, phase, revision, writer, socket, activeBinding, _, _, _⟩ := s
  cases activeBinding <;> cases phase <;>
    simp_all [ShowsActivation, hasActivationEvidence, isPreactivation, Admissible,
      PreactivationPhase.isActivation]

/-- A transition from a phase after the activation goes to such a phase. -/
theorem Transition.isPreactivation_phase {t : Transition} {phase : PreactivationPhase}
    (hallowed : t.allowed phase) (h : isPreactivation phase = false) :
    isPreactivation t.phase = false := by
  cases t <;> cases phase <;>
    simp_all [Transition.allowed, Transition.phase, isPreactivation,
      PreactivationPhase.isActivation]

theorem Publishes.succeeds {e : Event binding} (h : Publishes (some p) e s) : Succeeds p s := by
  have hp := showsActivation_iff (s := p)
  have hs := showsActivation_iff (s := s)
  cases ho : e.operation with
  | create =>
    simp only [Publishes, ho] at h
    refine ⟨h.2.2.1, fun ha => ?_⟩
    rw [hp, h.1] at ha
    cases ha
  | adoptStale =>
    simp only [Publishes, ho] at h
    exact ⟨h.2.2.2.1, fun ha => absurd ha h.2.1⟩
  | transition t =>
    simp only [Publishes, ho] at h
    obtain ⟨-, hallowed, hphase, hrevision, -, hgeneration⟩ := h
    refine ⟨hrevision, fun ha => ⟨?_, hgeneration⟩⟩
    rw [hs, hphase]
    exact Transition.isPreactivation_phase hallowed (hp.mp ha)
  | close =>
    simp only [Publishes, ho] at h

/-! ### Candidates -/

theorem candidate_eq_some {generation : Uuid} {nonceDigest : Digest} {phase : PreactivationPhase}
    {revision : ℕ} {writer : MonitorProcessIdentity} {socket : Option (ℕ × ℕ)}
    {activeBinding : Option MonitorBinding}
    (h : candidate generation nonceDigest phase revision writer socket activeBinding = some s) :
    s.generation = generation ∧ s.phase = phase ∧ s.revision = revision ∧ s.writer = writer ∧
      s.socket = socket := by
  rw [candidate] at h
  split at h
  · obtain rfl := Option.some.inj h
    exact ⟨rfl, rfl, rfl, rfl, rfl⟩
  · cases h

/-- The first journal, or one over a journal that was given up. -/
def IsNew (s : MonitorPreactivationJournalSnapshot binding) :
    Option (MonitorPreactivationJournalSnapshot binding) → Prop
  | none => s.revision = 1
  | some p => p.phase = .abandoned ∧ s.revision = p.revision + 1

theorem createCandidate_eq_some {loaded : Option (Loaded binding)} {generation : Uuid}
    {nonceDigest : Digest} {writer : Process} {socketIsThere : Bool}
    (h : createCandidate loaded generation nonceDigest writer socketIsThere = some s) :
    s.generation = generation ∧ s.phase = .claiming ∧ s.writer = writer.1 ∧ s.socket = none ∧
      IsNew s (loaded.map Prod.fst) := by
  rw [createCandidate.eq_def] at h
  -- A new journal has the first revision; over an old one only the next, if it was given up.
  cases loaded with
  | none =>
    dsimp only at h
    split at h
    · cases h
    · next s' hs _ =>
      obtain rfl := Option.some.inj h
      obtain ⟨hgeneration, hphase, hrevision, hwriter, hsocket⟩ := candidate_eq_some hs
      exact ⟨hgeneration, hphase, hwriter, hsocket, hrevision⟩
    · next heq => cases heq
  | some p =>
    dsimp only at h
    split at h
    · cases h
    · next heq => cases heq
    · next s' p' content hs heq =>
      obtain rfl := Option.some.inj heq
      split at h
      · cases h
      · next hnot =>
        obtain rfl := Option.some.inj h
        obtain ⟨hgeneration, hphase, hrevision, hwriter, hsocket⟩ := candidate_eq_some hs
        simp only [Bool.or_eq_true, bne_iff_ne, ne_eq, not_or, not_not] at hnot
        exact ⟨hgeneration, hphase, hwriter, hsocket, hnot.1.1, hrevision⟩

/-- An adoption: the writer was found stale, and the process writes under its own name. -/
theorem adoptCandidate_eq_some {process : Process} {generation : Uuid}
    {loaded expected : Loaded binding} {writer : Process} {liveness : ProcessLiveness}
    (h : adoptCandidate process generation loaded expected writer liveness = some s) :
    liveness = .stale ∧ ¬ShowsActivation loaded.1 ∧ s.phase = .adopting ∧
      s.revision = loaded.1.revision + 1 ∧ s.writer = process.1 ∧ s.generation = generation ∧
      s.socket = loaded.1.socket := by
  rw [adoptCandidate] at h
  split at h
  · cases h
  next hloaded =>
  split at h
  · cases h
  next hnot =>
  split at h
  · cases h
  next hstale =>
  split at h
  · cases h
  next hprocess =>
  obtain rfl := not_not.mp hloaded
  obtain ⟨hgeneration, hphase, hrevision, hwriter, hsocket⟩ := candidate_eq_some h
  simp only [Bool.or_eq_true, decide_eq_true_eq, not_or, ne_eq, not_not] at hnot hprocess hstale
  refine ⟨hstale, ?_, hphase, hrevision, ?_, hgeneration, hsocket⟩
  · rintro (hevidence | hlost)
    · exact hnot.1 hevidence
    · exact hnot.2 hlost
  · rw [hwriter, hprocess.1.1.1]

theorem transitionCandidate_eq_some {generation : Uuid} {t : Transition}
    (h : transitionCandidate generation p t = some s) :
    t.allowed p.phase ∧ s.generation = generation ∧ s.phase = t.phase ∧
      s.revision = p.revision + 1 ∧ s.writer = p.writer ∧ s.socket = t.socket p.socket := by
  rw [transitionCandidate] at h
  split at h
  · next hallowed =>
    obtain ⟨hgeneration, hphase, hrevision, hwriter, hsocket⟩ := candidate_eq_some h
    exact ⟨hallowed, hgeneration, hphase, hrevision, hwriter, hsocket⟩
  · cases h

/-! ### States of a run -/

variable {d : Directory} {o : Option (MonitorPreactivationJournalSnapshot binding)}
  {st : LedgerState binding} {e : Event binding}

/-- No process can use the ledger: its journal has two names. -/
def Dead (binding : MonitorPreActivationBinding) (d : Directory) : Prop :=
  ∃ lock temporary content, Linked (euid binding) lock temporary content d

/-- The journal is the given one, with numbers of the size a kernel gives them; the ledger is
usable and what a lease knows is for its own generation, or no process can use the ledger any
more. -/
structure Sound (st : LedgerState binding)
    (o : Option (MonitorPreactivationJournalSnapshot binding)) : Prop where
  visible : visible st.directory = o
  sized : ∀ s ∈ o, s.Sized
  state : Usable (preactivationLedger binding) (euid binding) o st.directory ∧
      (∀ lease ∈ st.lease, ∀ loaded ∈ lease.snapshot, lease.generation = loaded.1.generation) ∨
    Dead binding st.directory ∧ st.lease = none

theorem visible_of_holds {n : ℕ}
    (h : Holds (preactivationLedger binding) n d o) : visible d = o := by
  cases o with
  | none =>
    rw [visible, show d.look journalName = none from h]
    rfl
  | some s =>
    obtain ⟨i, content, hfits, hlook⟩ := h
    rw [visible, hlook]
    exact MonitorPreactivationJournalSnapshot.decode_of_encode hfits.1

theorem visible_of_linked {n lock : ℕ} {temporary : String} {content : List UInt8}
    (h : Linked n lock temporary content d)
    (hfits : (preactivationLedger binding).Fits s content) : visible d = some s := by
  obtain ⟨i, -, hlook, -⟩ := h.look
  rw [visible, hlook]
  exact MonitorPreactivationJournalSnapshot.decode_of_encode hfits.1

/-- Opening the lock changes nothing that a process relies on. -/
theorem usable_opened (h : Usable (preactivationLedger binding) (euid binding) o d)
    (kill : Option ℕ) :
    Usable (preactivationLedger binding) (euid binding) o (opened binding d kill) :=
  (runs_openLock h).1.killed _

theorem opened_of_dead (h : Dead binding d) (kill : Option ℕ) :
    opened binding d kill = d := by
  obtain ⟨lock, temporary, content, hlinked⟩ := h
  obtain ⟨f, hlook, -⟩ := look_lock hlinked.lock_ok
  obtain ⟨hfind, -, -⟩ := Directory.find_of_look hlook
  have hlock : Attempt.lock d = lock := by
    rw [Attempt.lock, hfind]
    rfl
  have hruns : Runs (openLock (euid binding) d lock) d (· = d) (· = d) := by
    rw [openLock_found hfind]
    refine .cons rfl fun t ht => ?_
    obtain ⟨-, rfl⟩ := check_eq_ok.mp ht
    refine .cons rfl fun t ht => ?_
    obtain rfl := Except.ok.inj ht
    exact .nil rfl rfl
  rw [opened, hlock]
  exact hruns.killed _

theorem read_of_dead (h : Dead binding d) (expected : Option Uuid) (missingOk : Bool) :
    (preactivationLedger binding).read (euid binding) expected missingOk d =
      .error .invalidJournal := by
  obtain ⟨lock, temporary, content, hlinked⟩ := h
  exact hlinked.read expected missingOk

/-! ### Steps -/

theorem publish_directory {generation : Uuid}
    {raised : Option (PreactivationJournalLease binding)} :
    (Preactivation.publish e d s generation raised).directory =
      (e.attempt s).leaves (preactivationLedger binding) (euid binding) d :=
  rfl

/-- A publication leaves the journal that was there or the new one. -/
theorem Sound.publish (h : Sound st o)
    (husable : Usable (preactivationLedger binding) (euid binding) o st.directory)
    (hsized : s.Sized) {raised : Option (PreactivationJournalLease binding)}
    (hraised : ∀ lease ∈ raised, lease.snapshot = none) {generation : Uuid}
    (hgeneration : s.generation = generation) :
    Sound (publish e st.directory s generation raised) o ∨
      Sound (publish e st.directory s generation raised) (some s) := by
  obtain ⟨content, hfits⟩ := preactivationLedger_fits hsized
  have hsized' : ∀ s' ∈ some s, s'.Sized := fun s' hs' => Option.some.inj hs' ▸ hsized
  -- the lease, if there is one, knows the new journal or is poisoned
  have hlease : ∀ lease ∈ (Preactivation.publish e st.directory s generation raised).lease,
      ∀ loaded ∈ lease.snapshot, lease.generation = loaded.1.generation := by
    intro lease hlease loaded hloaded
    rw [Preactivation.publish] at hlease
    dsimp only at hlease
    split at hlease
    · cases hlease
    split at hlease
    · obtain rfl := Option.some.inj hlease
      obtain ⟨bytes, -, rfl⟩ := Option.map_eq_some_iff.mp hloaded
      exact hgeneration.symm
    · rw [hraised lease hlease] at hloaded
      cases hloaded
  obtain ⟨hkilled, hspared⟩ := husable.leaves (e.attempt s) hfits
  by_cases hk : (e.attempt s).KilledNaming (preactivationLedger binding) (euid binding) st.directory
  · -- killed while it named the first journal
    have hlinked := hkilled hk
    have hkill : e.kill.isSome := by
      have hsome : e.kill = some _ := hk.kill
      rw [hsome]
      rfl
    refine .inr ⟨visible_of_linked hlinked hfits, hsized', .inr ⟨⟨_, _, _, hlinked⟩, ?_⟩⟩
    rw [Preactivation.publish]
    exact if_pos hkill
  · rcases hspared hk with hnew | ⟨hold, -⟩
    · exact .inr ⟨visible_of_holds hnew.journal, hsized', .inl ⟨hnew, hlease⟩⟩
    · exact .inl ⟨visible_of_holds hold.journal, h.sized, .inl ⟨hold, hlease⟩⟩

/-- A process that opens the lock and makes no further change. -/
theorem Sound.opened (h : Sound st o) :
    Sound ⟨opened binding st.directory e.kill, none⟩ o := by
  rcases h.state with ⟨husable, -⟩ | ⟨hdead, -⟩
  · have hopened := usable_opened husable e.kill
    refine ⟨visible_of_holds hopened.journal, h.sized, .inl ⟨hopened, fun _ hl => ?_⟩⟩
    cases hl
  · rw [opened_of_dead hdead]
    exact ⟨h.visible, h.sized, .inr ⟨hdead, rfl⟩⟩

/-- The read path answers with the journal. -/
theorem Sound.read (h : Sound st o) {expected : Option Uuid} {missingOk : Bool}
    {loaded : Option (Loaded binding)}
    (hread : (preactivationLedger binding).read (euid binding) expected missingOk st.directory =
      .ok loaded) :
    Usable (preactivationLedger binding) (euid binding) o st.directory ∧
      loaded.map Prod.fst = o ∧ ∀ q ∈ loaded, ∀ k ∈ expected, q.1.generation = k := by
  rcases h.state with ⟨husable, -⟩ | ⟨hdead, -⟩
  · exact ⟨husable, husable.journal.of_read hread⟩
  · rw [read_of_dead hdead] at hread
    cases hread

/-- A process with authority finds the journal it knows and is its writer. -/
theorem of_hasAuthority {loaded : Loaded binding} (h : hasAuthority e d loaded) :
    (preactivationLedger binding).read (euid binding) (some loaded.1.generation) false d =
      .ok (some loaded) ∧ e.process.1 = loaded.1.writer := by
  simp only [hasAuthority, Bool.and_eq_true, decide_eq_true_eq] at h
  exact ⟨h.1.2, h.2⟩

theorem sized_transition {t : Transition} (h : p.Sized) (hwriter : s.writer = p.writer)
    (hsocket : s.socket = t.socket p.socket) : s.Sized := by
  refine ⟨hwriter ▸ h.1, fun q hq => ?_⟩
  rw [hsocket] at hq
  cases t with
  | markPrepared device inode =>
    obtain rfl := Option.some.inj hq
    exact ⟨device.toNat_lt, inode.toNat_lt⟩
  | _ => exact h.2 q hq

/-- **Every event leaves the journal that is there or publishes a new one.** -/
theorem Sound.step (h : Sound st o) :
    Sound (step e st) o ∨ ∃ s, Sound (step e st) (some s) ∧ Publishes o e s := by
  cases hl : st.lease with
  | none =>
    cases ho : e.operation with
    | create generation nonceDigest writer socketIsThere =>
      simp only [Preactivation.step, hl, ho]
      split
      · exact .inl h.opened
      next loaded hread =>
      split
      · exact .inl h.opened
      next s hs =>
      obtain ⟨husable, hloaded, -⟩ := h.read hread
      obtain ⟨hgeneration, hphase, hwriter, hsocket, hnew⟩ := createCandidate_eq_some hs
      have hsized : s.Sized := ⟨hwriter ▸ writer.2, fun q hq => by rw [hsocket] at hq; cases hq⟩
      refine (h.publish husable hsized (fun _ hr => by cases hr) hgeneration).imp_right
        fun hsound => ⟨s, hsound, ?_⟩
      rw [hloaded] at hnew
      cases o with
      | none => simpa only [Publishes, ho] using ⟨hphase, hnew, hwriter, hgeneration⟩
      | some p =>
        simpa only [Publishes, ho] using ⟨hnew.1, hphase, hnew.2, hwriter, hgeneration⟩
    | adoptStale generation expected writer liveness =>
      simp only [Preactivation.step, hl, ho]
      split
      · exact .inl h.opened
      · exact .inl h.opened
      next loaded hread =>
      split
      · exact .inl h.opened
      next s hs =>
      obtain ⟨husable, hloaded, hkey⟩ := h.read hread
      obtain ⟨hstale, hnot, hphase, hrevision, hwriter, hgeneration, hsocket⟩ :=
        adoptCandidate_eq_some hs
      obtain rfl : some loaded.1 = o := hloaded
      have hsized : s.Sized := ⟨hwriter ▸ e.process.2, hsocket ▸ (h.sized _ rfl).2⟩
      refine (h.publish husable hsized (fun _ hr => by cases hr) hgeneration).imp_right
        fun hsound => ⟨s, hsound, ?_⟩
      simpa only [Publishes, ho] using
        ⟨hstale, hnot, hphase, hrevision, hwriter, hgeneration⟩
    | transition t =>
      simp only [Preactivation.step, hl, ho]
      exact .inl h
    | close =>
      simp only [Preactivation.step, hl, ho]
      exact .inl h
  | some lease =>
    rcases h.state with ⟨husable, hlease⟩ | ⟨-, hnone⟩
    swap
    · rw [hl] at hnone
      cases hnone
    cases ho : e.operation with
    | create =>
      simp only [Preactivation.step, hl, ho]
      exact .inl h
    | adoptStale =>
      simp only [Preactivation.step, hl, ho]
      exact .inl h
    | close =>
      simp only [Preactivation.step, hl, ho]
      split
      · exact .inl ⟨h.visible, h.sized, .inl ⟨husable, fun _ hr => by cases hr⟩⟩
      · exact .inl h
    -- The journal is read again, and the holder must still be its writer.
    | transition t =>
      simp only [Preactivation.step, hl, ho]
      split
      · exact .inl h
      split
      · exact .inl h
      next loaded hsnapshot =>
      split
      · next hauthority =>
        split
        · exact .inl h
        next s hs =>
        obtain ⟨hread, hwriter⟩ := of_hasAuthority hauthority
        obtain ⟨-, hloaded, -⟩ := h.read hread
        obtain rfl : some loaded.1 = o := hloaded
        obtain ⟨hallowed, hgeneration, hphase, hrevision, hkept, hsocket⟩ :=
          transitionCandidate_eq_some hs
        have hsized : s.Sized := sized_transition (h.sized _ rfl) hkept hsocket
        refine (h.publish husable hsized (fun _ hr => ?_) hgeneration).imp_right
          fun hsound => ⟨s, hsound, ?_⟩
        · obtain rfl := Option.some.inj hr
          rfl
        · have hsame : lease.generation = loaded.1.generation := hlease lease hl loaded hsnapshot
          simpa only [Publishes, ho] using
            ⟨hwriter, hallowed, hphase, hrevision, hkept, hgeneration.trans hsame⟩
      · refine .inl ⟨h.visible, h.sized, .inl ⟨husable, fun _ hr q hq => ?_⟩⟩
        obtain rfl := Option.some.inj hr
        cases hq

/-! ### Runs -/

theorem Publishes.ne (h : Publishes o e s) : some s ≠ o := by
  rintro rfl
  have hrevision := h.succeeds.revision
  omega

/-- What an event publishes is what it changes the journal to. -/
theorem Sound.published (h : Sound st o) :
    published e st = none ∧ Sound (Preactivation.step e st) o ∨
      ∃ s, published e st = some s ∧ Sound (Preactivation.step e st) (some s) ∧
        Publishes o e s := by
  rcases h.step (e := e) with hold | ⟨s, hnew, hpublishes⟩
  · refine .inl ⟨?_, hold⟩
    rw [Preactivation.published, hold.visible, h.visible, if_pos rfl]
  · refine .inr ⟨s, ?_, hnew, hpublishes⟩
    rw [Preactivation.published, hnew.visible, h.visible, if_neg hpublishes.ne]

theorem Sound.run (h : Sound st o) (events : List (Event binding)) :
    ∃ o', Sound (run st events) o' := by
  induction events generalizing st o with
  | nil => exact ⟨o, h⟩
  | cons e events ih =>
    rcases h.published (e := e) with ⟨-, hold⟩ | ⟨s, -, hnew, -⟩
    · exact ih hold
    · exact ih hnew

/-- The journals of a run, after the one that was there, succeed one another. -/
theorem Sound.isChain (h : Sound st o) (events : List (Event binding)) :
    (o.toList ++ journals st events).IsChain Succeeds := by
  induction events generalizing st o with
  | nil =>
    rw [journals, List.append_nil]
    cases o with
    | none => exact .nil
    | some p => exact .singleton p
  | cons e events ih =>
    rw [journals]
    rcases h.published (e := e) with ⟨hnone, hold⟩ | ⟨s, hsome, hnew, hpublishes⟩
    · rw [hnone]
      exact ih hold
    · rw [hsome]
      have hrest := ih hnew
      cases o with
      | none => exact hrest
      | some p => exact List.isChain_cons_cons.mpr ⟨hpublishes.succeeds, hrest⟩

theorem Sound.throughout (h : Sound st o) (events : List (Event binding)) :
    Throughout (fun before e => ∀ s ∈ Preactivation.published e (Preactivation.run st before),
      Publishes (Preactivation.visible (Preactivation.run st before).directory) e s) events := by
  rintro before e after - s hs
  obtain ⟨o', h'⟩ := h.run before
  rw [h'.visible]
  rcases h'.published (e := e) with ⟨hnone, -⟩ | ⟨s', hsome, -, hpublishes⟩
  · rw [hnone] at hs
    cases hs
  · rw [hsome] at hs
    obtain rfl := Option.some.inj hs
    exact hpublishes

/-- What succeeds what succeeds a journal. -/
theorem pairwise_of_isChain {history : List (MonitorPreactivationJournalSnapshot binding)}
    (h : history.IsChain Succeeds) :
    history.Pairwise fun p s =>
      ShowsActivation p → ShowsActivation s ∧ s.generation = p.generation := by
  have htrans : IsTrans (MonitorPreactivationJournalSnapshot binding) fun p s =>
      ShowsActivation p → ShowsActivation s ∧ s.generation = p.generation := by
    refine ⟨fun p s r hps hsr hp => ?_⟩
    obtain ⟨hs, hgeneration⟩ := hps hp
    obtain ⟨hr, hgeneration'⟩ := hsr hs
    exact ⟨hr, hgeneration'.trans hgeneration⟩
  exact List.isChain_iff_pairwise.mp (h.imp fun _ _ hps => hps.activation)

/-- **A preactivation journal is safe over whole runs.** Whatever processes do to a ledger in
whatever order, killed at whatever steps: every journal is published by the recorded writer,
unless it adopts from a writer found stale, is the first one or replaces one that was given up;
revisions count up by one; a journal that shows the activation is followed by none of an earlier
phase; and the activation is reached by one generation at most. -/
theorem preactivation_safe
    (h : Usable (preactivationLedger binding) (euid binding) o d) (hsized : ∀ s ∈ o, s.Sized)
    (events : List (Event binding)) :
    Throughout (fun before e => ∀ s ∈ published e (run ⟨d, none⟩ before),
      Publishes (visible (run ⟨d, none⟩ before).directory) e s) events ∧
    (o.toList ++ journals ⟨d, none⟩ events).IsChain (fun p s => s.revision = p.revision + 1) ∧
    (o.toList ++ journals ⟨d, none⟩ events).Pairwise
      (fun p s => ShowsActivation p → isPreactivation s.phase = false) ∧
    ∀ p ∈ o.toList ++ journals ⟨d, none⟩ events, ∀ s ∈ o.toList ++ journals ⟨d, none⟩ events,
      p.phase = .activating → s.phase = .activating → p.generation = s.generation := by
  have hsound : Sound ⟨d, none⟩ o :=
    ⟨visible_of_holds h.journal, hsized, .inl ⟨h, fun _ hl => by cases hl⟩⟩
  have hchain := hsound.isChain events
  have hpairwise := pairwise_of_isChain hchain
  refine ⟨hsound.throughout events, hchain.imp fun _ _ hps => hps.revision,
    hpairwise.imp fun hps hp => showsActivation_iff.mp (hps hp).1, fun p hp s hs => ?_⟩
  have hshows : ∀ {q : MonitorPreactivationJournalSnapshot binding}, q.phase = .activating →
      ShowsActivation q := fun hq => showsActivation_iff.mpr (by rw [hq]; rfl)
  -- one of the two comes first, unless they are one journal
  let Same : MonitorPreactivationJournalSnapshot binding →
      MonitorPreactivationJournalSnapshot binding → Prop := fun p s =>
    p.phase = .activating → s.phase = .activating → p.generation = s.generation
  have hsymm : Std.Symm Same := ⟨fun _ _ hps hs hp => (hps hp hs).symm⟩
  have hsame : (o.toList ++ journals ⟨d, none⟩ events).Pairwise Same :=
    hpairwise.imp fun hps hp _ => (hps (hshows hp)).2.symm
  exact hsame.forall_of_forall (fun _ _ _ _ => rfl) hp hs

/-! ### A new generation by another process -/

/-- A process that opens a new generation over a journal that was given up, and is not killed,
publishes it. -/
theorem published_create (h : Usable (preactivationLedger binding) (euid binding) (some p) d)
    (hp : p.Sized) (hs : s.Sized) {generation : Uuid} {nonceDigest : Digest} {writer : Process}
    (ho : e.operation = .create generation nonceDigest writer false)
    (hcandidate : ∀ content,
      createCandidate (some (p, content)) generation nonceDigest writer false = some s)
    (hkill : e.kill = none) (hcounts : e.counts = [])
    (hfree : d.find ((preactivationLedger binding).temporary e.token) = none) :
    published e ⟨d, none⟩ = some s := by
  have hsound : Sound ⟨d, none⟩ (some p) :=
    ⟨visible_of_holds h.journal, fun q hq => Option.some.inj hq ▸ hp,
      .inl ⟨h, fun _ hl => by cases hl⟩⟩
  obtain ⟨content, hfits⟩ := preactivationLedger_fits hp
  obtain ⟨content', hfits'⟩ := preactivationLedger_fits hs
  -- The journal is read, the candidate is made from it, and nothing keeps it from being published.
  have hread : (preactivationLedger binding).read (euid binding) none true d =
      .ok (some (p, content)) := by
    rw [← journalOf_some hfits]
    exact h.answers none true (fun _ _ _ hk => by cases hk) fun _ => rfl
  have hstep : step e ⟨d, none⟩ = publish e d s generation none := by
    simp only [step, ho, hread, hcandidate]
  obtain ⟨-, hanswers⟩ := h.publishable (e.attempt s) content' hfits' hkill hfree
    (by rw [Event.attempt, hcounts]; trivial)
  have hnew := hanswers none true (fun _ _ _ hk => by cases hk) fun _ => rfl
  rw [← publish_directory, ← hstep] at hnew
  rcases hsound.published (e := e) with ⟨-, hold⟩ | ⟨s', hs', hnew', -⟩
  · -- the journal would have stayed as it was
    obtain ⟨-, hsame, -⟩ := hold.read hnew
    obtain rfl : s = p := Option.some.inj hsame
    have hrevision := (createCandidate_eq_some (hcandidate content)).2.2.2.2.2
    exact absurd hrevision (Nat.ne_of_lt (Nat.lt_succ_self _))
  · obtain ⟨-, hsame, -⟩ := hnew'.read hnew
    rw [hs', ← hsame]
    rfl

def sampleRun : MonitorPreActivationBinding where
  name := ⟨"web", isRunName_sample⟩
  runId := sampleUuid
  ownerUid := 1000
  planDigest := sampleDigest
  expectedDefinitionProjectionDigest := sampleDigest
  stage1ArtifactDigest := sampleDigest
  domainUuid := sampleUuid
  bootAttemptId := sampleUuid

def sampleProcess (pid : ℕ) (h : 0 < pid ∧ pid < 2 ^ 64) : Process :=
  ⟨⟨pid, sampleUuid, 99, h.1⟩, h.2, (by decide : 99 < 2 ^ 64)⟩

/-- The journal that the process 4242 gave up. -/
def sampleAbandoned : MonitorPreactivationJournalSnapshot sampleRun where
  generation := sampleUuid
  nonceDigest := sampleDigest
  phase := .abandoned
  revision := 3
  writer := (sampleProcess 4242 (by decide)).1
  socket := none
  activeBinding := none
  revision_pos := by decide
  revision_le := by decide
  admissible := rfl

/-- The ledger as the process left it. -/
def sampleDirectory : Directory where
  entries := [(lockName, 0), (journalName, 1)]
  inodes i :=
    if i = 0 then privateFile 1000 [] else privateFile 1000 (sampleAbandoned.encode.getD [])
  next := 2

/-- Another process creates a new generation. -/
def sampleCreate : Event sampleRun where
  process := sampleProcess 4243 (by decide)
  operation := .create sampleUuid sampleDigest (sampleProcess 4243 (by decide)) false
  token := "00000000000040008000000000000001"
  counts := []
  kill := none

/-- The journal of the new generation. -/
def sampleClaiming : MonitorPreactivationJournalSnapshot sampleRun where
  generation := sampleUuid
  nonceDigest := sampleDigest
  phase := .claiming
  revision := 4
  writer := (sampleProcess 4243 (by decide)).1
  socket := none
  activeBinding := none
  revision_pos := by decide
  revision_le := by decide
  admissible := rfl

theorem sampleAbandoned_sized : sampleAbandoned.Sized :=
  ⟨(sampleProcess 4242 (by decide)).2, fun _ h => by cases h⟩

theorem sampleClaiming_sized : sampleClaiming.Sized :=
  ⟨(sampleProcess 4243 (by decide)).2, fun _ h => by cases h⟩

theorem sampleDirectory_usable :
    Usable (preactivationLedger sampleRun) (euid sampleRun) (some sampleAbandoned)
      sampleDirectory := by
  obtain ⟨content, hfits⟩ := preactivationLedger_fits sampleAbandoned_sized
  have hencode : sampleAbandoned.encode = some content := hfits.1
  refine ⟨⟨by decide, by decide⟩, .inr ⟨0, rfl⟩, 1, content, hfits, ?_⟩
  have hcontent : sampleDirectory.inodes 1 = privateFile 1000 content := by
    simp [sampleDirectory, hencode]
  rw [Directory.look_of_find (i := 1) rfl, hcontent]
  rfl

theorem published_sampleCreate :
    published sampleCreate ⟨sampleDirectory, none⟩ = some sampleClaiming :=
  published_create sampleDirectory_usable sampleAbandoned_sized sampleClaiming_sized rfl
    (fun _ => rfl) rfl rfl rfl

theorem preactivation_safe_abandoned :
    [sampleAbandoned, sampleClaiming].IsChain (fun p s => s.revision = p.revision + 1) := by
  have hchain := (preactivation_safe sampleDirectory_usable
    (fun s hs => Option.some.inj hs ▸ sampleAbandoned_sized) [sampleCreate]).2.1
  rwa [journals, published_sampleCreate] at hchain

/-- **A process that is not the recorded writer publishes without a proof that this one is
stale**: it creates a new generation over a journal that was given up. -/
theorem create_by_another :
    Usable (preactivationLedger sampleRun) (euid sampleRun) (some sampleAbandoned) sampleDirectory ∧
    ∃ s, published sampleCreate ⟨sampleDirectory, none⟩ = some s ∧
      visible sampleDirectory = some sampleAbandoned ∧
      sampleCreate.process.1 ≠ sampleAbandoned.writer ∧
      ∀ generation expected writer liveness,
        sampleCreate.operation ≠ .adoptStale generation expected writer liveness := by
  refine ⟨sampleDirectory_usable, sampleClaiming, ?_, ?_, fun h => ?_, fun _ _ _ _ h => by cases h⟩
  · exact published_sampleCreate
  · exact visible_of_holds sampleDirectory_usable.journal
  · have hpid : 4243 = 4242 := congrArg MonitorProcessIdentity.pid h
    omega

end Palimpsest.Monitor.Preactivation
