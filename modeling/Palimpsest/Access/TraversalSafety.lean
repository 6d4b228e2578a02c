import Mathlib.Tactic.IntervalCases
import Palimpsest.Access.RegistryRoom
import Palimpsest.Access.SharedTraversal

/-!
# Shared traversal is safe and can be resumed

Where a run stands in joining and leaving is one of the points of `Palimpsest.Access.Point`: each
says in which phase the run is pending, in which phase it is listed, and in which phase it keeps
its membership itself. Every durable write takes the run of the operation from one point to the
next one and leaves all other runs where they are (`Palimpsest.Access.Inv.update`), and from
every point between the first write and the last one the operation, called again, goes on
(`Palimpsest.Access.meets_join`, `Palimpsest.Access.meets_leave`).
-/

namespace Palimpsest.Access

open Control Monitor Calls Calls.Program

/-! ### The lists of the directories -/

/-- The lists after so many of the steps in which the directories are opened. -/
def opened (authority : Authority) (n : ℕ) : PerRole ACLStructure where
  state := if 3 ≤ n then authority.granted.state else authority.baseline.state
  runs := if 2 ≤ n then authority.granted.runs else authority.baseline.runs
  rootVolumes :=
    if 1 ≤ n then authority.granted.rootVolumes else authority.baseline.rootVolumes

/-- What the lists are after some directories got theirs. -/
def setAll (target : PerRole ACLStructure) (roles : List Role) (acls : PerRole ACLStructure) :
    PerRole ACLStructure :=
  roles.foldl (fun acls role => acls.set role (target.get role)) acls

variable {authority : Authority} {n k : ℕ}

/-- The directories are opened in one order. -/
theorem setAll_granted (hn : n ≤ 3) (hk : k ≤ 3) :
    setAll authority.granted ([.rootVolumes, .runs, .state].take k) (opened authority n) =
      opened authority (max n k) := by
  interval_cases n <;> interval_cases k <;> rfl

/-- They are closed in the other one. -/
theorem setAll_baseline (hn : n ≤ 3) (hk : k ≤ 3) :
    setAll authority.baseline ([.state, .runs, .rootVolumes].take k) (opened authority n) =
      opened authority (min n (3 - k)) := by
  interval_cases n <;> interval_cases k <;> rfl

theorem PerRole.set_of_get_eq {p : PerRole ACLStructure} {role : Role} {acl : ACLStructure}
    (h : p.get role = acl) : p.set role acl = p := by
  subst h
  cases role <;> rfl

/-- The first member is about to join, or the last one to leave. -/
def Registry.IsOpening (r : Registry) : Prop :=
  ∃ p ∈ r.pending, p.phase = .joining ∧ r.active = [] ∨ p.phase = .leaving ∧ r.active.length = 1

variable {r : Registry} {acls : PerRole ACLStructure}

theorem Registry.mem_allowed_of_isOpening (h : r.IsOpening) :
    acls ∈ r.allowed ↔ ∃ n ≤ 3, acls = opened r.authority n := by
  obtain ⟨p, hp, hphase⟩ := h
  have hopening : (r.pending.any fun p => p.phase = .joining && r.active.isEmpty ||
      p.phase = .leaving && r.active.length = 1) = true := by
    rw [Option.mem_def.mp hp, Option.any_some]
    rcases hphase with ⟨hphase, hactive⟩ | ⟨hphase, hactive⟩
    · simp [hphase, hactive]
    · simp [hphase, hactive]
  rw [allowed, if_pos hopening]
  simp only [List.mem_cons, List.not_mem_nil, or_false]
  constructor
  · rintro (rfl | rfl | rfl | rfl)
    · exact ⟨0, by omega, rfl⟩
    · exact ⟨1, by omega, rfl⟩
    · exact ⟨2, by omega, rfl⟩
    · exact ⟨3, by omega, rfl⟩
  · rintro ⟨n, hn, rfl⟩
    interval_cases n
    · exact .inl rfl
    · exact .inr (.inl rfl)
    · exact .inr (.inr (.inl rfl))
    · exact .inr (.inr (.inr rfl))

theorem Registry.mem_allowed_of_not_isOpening (h : ¬r.IsOpening) :
    acls ∈ r.allowed ↔
      acls = if r.active.isEmpty then r.authority.baseline else r.authority.granted := by
  have hopening : ¬(r.pending.any fun p => p.phase = .joining && r.active.isEmpty ||
      p.phase = .leaving && r.active.length = 1) = true := by
    intro hany
    obtain ⟨p, hp, hphase⟩ := (Option.any_eq_true ..).mp hany
    refine h ⟨p, hp, ?_⟩
    simpa using hphase
  rw [allowed, if_neg hopening, List.mem_singleton]

theorem Registry.not_isOpening_of_none (h : r.pending = none) : ¬r.IsOpening := by
  rintro ⟨p, hp, -⟩
  rw [h] at hp
  exact Option.not_mem_none p hp

/-! ### Where a run stands -/

inductive Point
  | joinIntended | joinRecorded | joinPublished | joined
  | leaveIntended | leaveRecorded | leavePublished | left | compacted
  deriving DecidableEq

namespace Point

/-- The phase in which the run is pending. -/
def pending : Point → Option Phase
  | joinIntended | joinRecorded => some .joining
  | leaveIntended | leaveRecorded => some .leaving
  | _ => none

/-- The phase in which the run is listed. -/
def recorded : Point → Option Phase
  | joinPublished | joined | leaveIntended | leaveRecorded => some .active
  | leavePublished | left => some .left
  | _ => none

/-- The phase of the membership that the run keeps. -/
def saved : Point → Option Phase
  | joinIntended => none
  | joinRecorded | joinPublished => some .joining
  | joined | leaveIntended => some .active
  | leaveRecorded | leavePublished => some .leaving
  | left | compacted => some .left

/-- The operation that wrote last. -/
def last : Point → Kind
  | joinIntended | joinRecorded | joinPublished | joined => .join
  | _ => .leave

/-- The operation may have returned. -/
def isEnd : Point → Bool
  | joined | left | compacted => true
  | _ => false

end Point

/-- An attempt of the run that has the membership. -/
structure Attempt.Suits (a : Attempt) (m : SharedTraversalMembership) : Prop where
  binding : m.binding = a.call.binding
  accessId : m.accessId = a.call.access.accessId
  accessBinding : a.call.access.binding = a.call.binding
  qemuUid : m.authority.qemuUid = a.call.access.qemuUid
  qemuGid : m.authority.qemuGid = a.call.access.qemuGid
  phase : a.call.access.phase = match a.kind with | .join => .granted | .leave => .revoked

theorem Attempt.Suits.runId_eq {a : Attempt} {m : SharedTraversalMembership} (h : a.Suits m) :
    m.runId = a.runId :=
  congrArg MonitorPreActivationBinding.runId h.binding

/-- A membership leaves an attempt of a kind no choice. -/
theorem Attempt.Suits.eq {a b : Attempt} {m : SharedTraversalMembership} (ha : a.Suits m)
    (hb : b.Suits m) (hkind : a.kind = b.kind) : a = b := by
  obtain ⟨kind, binding, accessId, phase, accessBinding, qemuUid, qemuGid⟩ := a
  obtain ⟨kind', binding', accessId', phase', accessBinding', qemuUid', qemuGid'⟩ := b
  obtain rfl : kind = kind' := hkind
  obtain rfl : binding = binding' := ha.binding.symm.trans hb.binding
  obtain rfl : accessId = accessId' := ha.accessId.symm.trans hb.accessId
  obtain rfl : accessBinding = accessBinding' := ha.accessBinding.trans hb.accessBinding.symm
  obtain rfl : qemuUid = qemuUid' := ha.qemuUid.symm.trans hb.qemuUid
  obtain rfl : qemuGid = qemuGid' := ha.qemuGid.symm.trans hb.qemuGid
  obtain rfl : phase = phase' := ha.phase.trans hb.phase.symm
  rfl

/-- The run of a membership stands at a point. -/
structure Stands (w : World) (m : SharedTraversalMembership) (point : Point) : Prop where
  authority : m.authority = w.registry.authority
  epoch : m.epoch ≤ w.registry.epoch
  pending : w.registry.pendingOf m.runId = point.pending.map m.withPhase
  recorded : w.registry.recorded m = point.recorded.map m.withPhase
  saved : w.saved m.runId = point.saved.map m.withPhase
  room : point.pending = some .joining → (w.registry.list (m.withPhase .active)).Storable
  unfinished : (∃ a, w.unfinished m.runId = some a ∧ a.kind = point.last ∧ a.Suits m) ∨
    point.isEnd ∧ w.unfinished m.runId = none

/-- The run has nothing to do with the namespace. -/
structure Idle (w : World) (runId : Uuid) : Prop where
  pending : w.registry.pendingOf runId = none
  recorded : ∀ m : SharedTraversalMembership, m.runId = runId → w.registry.recorded m = none
  saved : w.saved runId = none
  unfinished : w.unfinished runId = none

/-- The invariant of the namespace. -/
structure Inv (w : World) : Prop where
  storable : w.registry.Storable
  allowed : w.acls ∈ w.registry.allowed
  runs : ∀ runId, Idle w runId ∨ ∃ m point, m.runId = runId ∧ Stands w m point

/-- What is written on behalf of one run leaves all others alone. -/
structure Frame (runId : Uuid) (w w' : World) : Prop where
  authority : w'.registry.authority = w.registry.authority
  epoch : w.registry.epoch ≤ w'.registry.epoch
  recorded : ∀ m : SharedTraversalMembership, m.runId ≠ runId →
    w'.registry.recorded m = w.registry.recorded m
  pending : w'.registry = w.registry ∨ ∀ other ≠ runId,
    w.registry.pendingOf other = none ∧ w'.registry.pendingOf other = none
  saved : ∀ other ≠ runId, w'.saved other = w.saved other
  unfinished : ∀ other ≠ runId, w'.unfinished other = w.unfinished other

namespace Frame

variable {runId other : Uuid} {w w' : World} {m : SharedTraversalMembership} {point : Point}

theorem pendingOf (h : Frame runId w w') (hother : other ≠ runId) :
    w'.registry.pendingOf other = w.registry.pendingOf other := by
  rcases h.pending with hsame | hnone
  · rw [hsame]
  · rw [(hnone other hother).1, (hnone other hother).2]

theorem idle (h : Frame runId w w') (hother : other ≠ runId) (hidle : Idle w other) :
    Idle w' other where
  pending := (h.pendingOf hother).trans hidle.pending
  recorded := fun m hm => (h.recorded m (hm ▸ hother)).trans (hidle.recorded m hm)
  saved := (h.saved other hother).trans hidle.saved
  unfinished := (h.unfinished other hother).trans hidle.unfinished

theorem stands (h : Frame runId w w') (hother : m.runId ≠ runId) (hat : Stands w m point) :
    Stands w' m point where
  authority := hat.authority.trans h.authority.symm
  epoch := Nat.le_trans hat.epoch h.epoch
  pending := (h.pendingOf hother).trans hat.pending
  recorded := (h.recorded m hother).trans hat.recorded
  saved := (h.saved _ hother).trans hat.saved
  room := fun hjoining => by
    rcases h.pending with hsame | hnone
    · rw [hsame]
      exact hat.room hjoining
    · have hpending := hat.pending
      rw [(hnone _ hother).1, hjoining] at hpending
      cases hpending
  unfinished := by
    rw [h.unfinished _ hother]
    exact hat.unfinished

end Frame

/-- **A write on behalf of one run**, which takes it to a point. -/
theorem Inv.update {w w' : World} {m : SharedTraversalMembership} {point : Point} (h : Inv w)
    (hframe : Frame m.runId w w') (hstorable : w'.registry.Storable)
    (hallowed : w'.acls ∈ w'.registry.allowed) (hat : Stands w' m point) : Inv w' where
  storable := hstorable
  allowed := hallowed
  runs := fun other => by
    rcases eq_or_ne other m.runId with rfl | hother
    · exact .inr ⟨m, point, rfl, hat⟩
    · rcases h.runs other with hidle | ⟨m', point', rfl, hat'⟩
      · exact .inl (hframe.idle hother hidle)
      · exact .inr ⟨m', point', rfl, hframe.stands hother hat'⟩

/-! ### Calls -/

/-- What a call of an attempt may do. -/
def Effect (a : Attempt) (q : Request) : Option Unit → World → World → Prop
  | some (), w, w' => w.isAsExpected a q ∧ w' = w.apply a q
  | none, w, w' => w' = w ∨ w' = w.apply a q

/-- The program of an attempt keeps the invariant at every call, and if it is `sure` to, it
returns where nothing fails. -/
abbrev Keeps (a : Attempt) (sure : Prop) {α : Type} (p : Op α) (Q : α → World → Prop)
    (w : World) : Prop :=
  p.Meets (fun _ => Inv) (Effect a) Inv (fun q w => w.answer a q) sure Q w

section

variable {a : Attempt} {sure : Prop} {w : World} {m : SharedTraversalMembership}
  {point point' : Point} {α : Type}

theorem keeps_ask {q : Request} {Q : Unit → World → Prop} (h : Inv w)
    (hexpected : w.isAsExpected a q) (h' : Inv (w.apply a q)) (hQ : Q () (w.apply a q)) :
    Keeps a sure (ask q) Q w := by
  refine meets_ask h ?_ ?_ ?_
  · rintro w' (rfl | rfl)
    · exact h
    · exact h'
  · rintro ⟨⟩ w' ⟨-, rfl⟩
    exact hQ
  · intro _
    exact ⟨(), w.apply a q, by rw [World.answer, if_pos hexpected], hexpected, rfl⟩

theorem keeps_authority {Q : Unit → World → Prop} (h : Inv w) (hQ : Q () w) :
    Keeps a sure (ask .authority) Q w :=
  keeps_ask h rfl h hQ

theorem keeps_verify {Q : Unit → World → Prop} {saved : Option SharedTraversalMembership}
    (h : Inv w) (hsaved : w.saved a.runId = saved) (hQ : Q () w) :
    Keeps a sure (ask (.verify w.registry saved w.acls)) Q w :=
  keeps_ask h (by simp [World.isAsExpected, hsaved]) h hQ

/-! ### Writes -/

/-- The invariant, and where the run of the attempt stands. -/
structure Here (a : Attempt) (w : World) (m : SharedTraversalMembership) (point : Point) :
    Prop where
  inv : Inv w
  stands : Stands w m point
  suits : a.Suits m
  kind : a.kind = point.last

theorem Here.saved (h : Here a w m point) : w.saved a.runId = point.saved.map m.withPhase := by
  rw [← h.suits.runId_eq]
  exact h.stands.saved

theorem begun_unfinished (h : a.Suits m) (hkind : a.kind = point.last) :
    (∃ b, (w.begun a).unfinished m.runId = some b ∧ b.kind = point.last ∧ b.Suits m) := by
  refine ⟨a, ?_, hkind, h⟩
  rw [World.begun, h.runId_eq]
  exact Function.update_self ..

theorem frame_begun (h : a.Suits m) : Frame m.runId w (w.begun a) where
  authority := rfl
  epoch := Nat.le_refl _
  recorded := fun _ _ => rfl
  pending := .inl rfl
  saved := fun _ _ => rfl
  unfinished := fun other hother => by
    rw [h.runId_eq] at hother
    exact Function.update_of_ne hother ..

/-- The run keeps its membership in another phase. -/
theorem Here.writeMember (h : Here a w m point) {phase : Phase} (hsaved : point'.saved = some phase)
    (hpending : point'.pending = point.pending) (hrecorded : point'.recorded = point.recorded)
    (hlast : point'.last = point.last) :
    Here a (w.apply a (.writeMember (m.withPhase phase))) m point' := by
  have hkind : a.kind = point'.last := h.kind.trans hlast.symm
  have hstands : Stands (w.apply a (.writeMember (m.withPhase phase))) m point' := {
    authority := h.stands.authority
    epoch := h.stands.epoch
    pending := by
      rw [hpending]
      exact h.stands.pending
    recorded := by
      rw [hrecorded]
      exact h.stands.recorded
    saved := by
      rw [World.apply, h.suits.runId_eq, hsaved]
      exact Function.update_self ..
    room := fun hjoining => h.stands.room (hpending ▸ hjoining)
    unfinished := .inl (begun_unfinished h.suits hkind) }
  refine ⟨h.inv.update ?_ h.inv.storable h.inv.allowed hstands, hstands, h.suits, hkind⟩
  have hframe : Frame m.runId w (w.begun a) := frame_begun h.suits
  exact { hframe with
    saved := fun other hother => by
      rw [h.suits.runId_eq] at hother
      exact Function.update_of_ne hother .. }

/-- A directory gets another list. -/
theorem Here.writeAcl (h : Here a w m point) {role : Role} {acl : ACLStructure}
    (hallowed : w.acls.set role acl ∈ w.registry.allowed) :
    Here a (w.apply a (.writeAcl role acl)) m point := by
  have hstands : Stands (w.apply a (.writeAcl role acl)) m point :=
    { h.stands with unfinished := .inl (begun_unfinished h.suits h.kind) }
  refine ⟨h.inv.update ?_ h.inv.storable hallowed hstands, hstands, h.suits, h.kind⟩
  have hframe : Frame m.runId w (w.begun a) := frame_begun h.suits
  exact { hframe with }

/-- Only the intent of one run is pending. -/
def Registry.IsFreeFor (r : Registry) (runId : Uuid) : Prop := ∀ p ∈ r.pending, p.runId = runId

theorem Registry.IsFreeFor.pendingOf {runId other : Uuid} (h : r.IsFreeFor runId)
    (hother : other ≠ runId) : r.pendingOf other = none := by
  cases hp : r.pending with
  | none => exact Registry.pendingOf_of_none hp other
  | some p => exact Registry.pendingOf_of_ne hp fun heq => hother (heq ▸ h p hp)

/-- The registry is written. -/
theorem inv_writeRegistry {registry : Registry} (h : Inv w) (hsuits : a.Suits m)
    (hauthority : registry.authority = w.registry.authority)
    (hepoch : w.registry.epoch ≤ registry.epoch)
    (hrecorded : ∀ x : SharedTraversalMembership, x.runId ≠ m.runId →
      registry.recorded x = w.registry.recorded x)
    (hfree : w.registry.IsFreeFor m.runId) (hfree' : registry.IsFreeFor m.runId)
    (hstorable : registry.Storable) (hallowed : w.acls ∈ registry.allowed)
    (hstands : Stands (w.apply a (.writeRegistry registry)) m point) :
    Inv (w.apply a (.writeRegistry registry)) := by
  refine h.update ?_ hstorable hallowed hstands
  exact {
    authority := hauthority
    epoch := hepoch
    recorded := hrecorded
    pending := .inr fun other hother => ⟨hfree.pendingOf hother, hfree'.pendingOf hother⟩
    saved := fun _ _ => rfl
    unfinished := (frame_begun hsuits).unfinished }

theorem keeps_writeRegistry {registry : Registry} {Q : Unit → World → Prop} (h : Inv w)
    (hsure : sure → registry.Storable)
    (hQ : registry.Storable → Inv (w.apply a (.writeRegistry registry)) ∧
      Q () (w.apply a (.writeRegistry registry))) :
    Keeps a sure (writeRegistry registry) Q w := by
  refine meets_bind (meets_require h (fun hs => decide_eq_true (hsure hs)) fun hstorable => ?_)
  obtain ⟨hinv, hdone⟩ := hQ (of_decide_eq_true hstorable)
  exact keeps_ask h rfl hinv hdone

end

end Palimpsest.Access
