import Palimpsest.Hub.BuildWorker

/-!
# What a worker does to its build

A build that is not queued belongs to one worker, the one that has claimed it. What holds of a
build at any time is `Palimpsest.Hub.Builds.BuildOk`, and what its worker relies on at each
stage is `Palimpsest.Hub.Builds.StageOk`. Every move of the worker keeps both, and changes the
build as it may be changed (`Palimpsest.Hub.Builds.SafeChange`): a guest that may still exist
keeps its tree and its record.
-/

namespace Palimpsest.Hub.Builds

/-- The row does not say that the build is cleaned up: it is still in progress, its cleanup has
failed, or it is complete and cleaned up when its tree is gone. -/
def Row.Unsettled (row : Row) : Prop :=
  row.status = .building ∨ row.status = .complete ∨ row.errorCode = some .cleanupFailed

/-- There is neither a builder nor a guest. -/
def Build.IsQuiet (b : Build) : Prop := b.builder = .none ∧ b.hasGuest = false

/-- The worker holds the lease. -/
def Build.Held (p : ℕ) (b : Build) : Prop :=
  b.row.status = .building ∧ b.row.leaseOwner = some p

/-- What holds of every build. -/
structure BuildOk (b : Build) : Prop where
  queued : b.row.status = .queued → b = {}
  claims : b.claims.length ≤ 1
  outputs : b.outputs.length ≤ 1
  unpublished : b.row.status ≠ .complete → b.outputs = []
  building : b.row.status = .building → ∃ p, b.row.leaseOwner = some p ∧ b.claims = [p]
  kept : ¬b.IsQuiet → b.hasTree = true ∧ b.row.Unsettled

/-- What the worker `p` relies on at a stage. -/
def StageOk (p : ℕ) (b : Build) (st : Stage) : Prop :=
  b.claims = [p] ∧
    match st with
    | .claimed => b.Held p ∧ b.IsQuiet
    | .created | .prepared => b.Held p ∧ b.IsQuiet ∧ b.hasTree = true
    | .running => b.Held p ∧ b.hasTree = true
    | .built _ => b.Held p ∧ b.builder ≠ .unmarked
    | .published => b.row.status = .complete ∧ b.builder ≠ .unmarked
    | .stopped => b.row.status = .complete ∧ b.builder = .none
    | .stopping => (b.Held p ∨ b.row.status = .complete) ∧ b.builder ≠ .unmarked
    | .reclaiming => (b.Held p ∨ b.row.status = .complete) ∧ b.builder = .none
    | .recording _ failed =>
      (b.Held p ∨ b.row.status = .complete) ∧ b.builder ≠ .unmarked ∧ (failed = false → b.IsQuiet)
    | .removing | .scratch => b.row.status ≠ .queued ∧ b.IsQuiet

/-- How a build may change. -/
structure SafeChange (b b' : Build) : Prop where
  claims : b'.claims = b.claims ∨
    b.row.status = .queued ∧ b.claims = [] ∧ ∃ p, b'.claims = [p]
  outputs : b'.outputs = b.outputs ∨
    ∃ p, b'.outputs = b.outputs ++ [p] ∧ b.Held p ∧ b'.row.status = .complete
  complete : b.row.status = .complete → b'.row.status = .complete
  removed : b.hasTree = true → b'.hasTree = false → b.IsQuiet
  erased : b.row.errorCode = some .cleanupFailed →
    b'.row.errorCode = some .cleanupFailed ∨ b.IsQuiet
  settled : b.row.Unsettled → b'.row.Unsettled ∨ b.IsQuiet

variable {p : ℕ} {b b' : Build} {st : Stage}

/-! ### Changes -/

/-- A change of neither the row nor the record that keeps the tree is safe. -/
theorem SafeChange.of_row (hrow : b'.row = b.row) (hclaims : b'.claims = b.claims)
    (houtputs : b'.outputs = b.outputs) (htree : b.hasTree = true → b'.hasTree = true) :
    SafeChange b b' where
  claims := .inl hclaims
  outputs := .inl houtputs
  complete := fun h => hrow ▸ h
  removed := fun h h' => by
    rw [htree h] at h'
    cases h'
  erased := fun h => .inl (hrow ▸ h)
  settled := fun h => .inl (hrow ▸ h)

theorem SafeChange.refl (b : Build) : SafeChange b b := .of_row rfl rfl rfl id

/-- A row that is changed when nothing is left to clean up. -/
theorem SafeChange.of_quiet (hquiet : b.IsQuiet) (hclaims : b'.claims = b.claims)
    (houtputs : b'.outputs = b.outputs)
    (hcomplete : b.row.status = .complete → b'.row.status = .complete) : SafeChange b b' where
  claims := .inl hclaims
  outputs := .inl houtputs
  complete := hcomplete
  removed := fun _ _ => hquiet
  erased := fun _ => .inr hquiet
  settled := fun _ => .inr hquiet

/-- A row in which a failed cleanup is recorded. -/
theorem SafeChange.of_failed (hclaims : b'.claims = b.claims) (houtputs : b'.outputs = b.outputs)
    (htree : b'.hasTree = b.hasTree) (herror : b'.row.errorCode = some .cleanupFailed)
    (hcomplete : b.row.status = .complete → b'.row.status = .complete) : SafeChange b b' where
  claims := .inl hclaims
  outputs := .inl houtputs
  complete := hcomplete
  removed := fun h h' => by
    rw [htree, h] at h'
    cases h'
  erased := fun _ => .inl herror
  settled := fun _ => .inl (.inr (.inr herror))

/-! ### What holds of a build after a change -/

/-- Only the builder and the guest have changed, and not when nothing was left. -/
theorem BuildOk.of_row (h : BuildOk b) (hrow : b'.row = b.row)
    (hclaims : b'.claims = b.claims) (houtputs : b'.outputs = b.outputs)
    (hkept : ¬b'.IsQuiet → b'.hasTree = true ∧ b.row.Unsettled)
    (hqueued : b.row.status ≠ .queued) : BuildOk b' where
  queued := fun hq => absurd (hrow ▸ hq) hqueued
  claims := hclaims ▸ h.claims
  outputs := houtputs ▸ h.outputs
  unpublished := fun hne => houtputs ▸ h.unpublished (hrow ▸ hne)
  building := fun hb => by
    rw [hrow] at hb ⊢
    rw [hclaims]
    exact h.building hb
  kept := fun hquiet => hrow ▸ hkept hquiet

theorem StageOk.claims_eq (h : StageOk p b st) : b.claims = [p] := h.1

theorem StageOk.not_queued (hb : BuildOk b) (h : StageOk p b st) : b.row.status ≠ .queued := by
  intro hq
  have hclaims := h.1
  rw [hb.queued hq] at hclaims
  cases hclaims

theorem IsQuiet.leaderGone (h : b.IsQuiet) : b.leaderGone.IsQuiet := by
  refine ⟨?_, h.2⟩
  rw [Build.leaderGone]
  split_ifs
  · rfl
  · exact h.1

theorem leaderGone_ne_unmarked : b.leaderGone.builder ≠ .unmarked := by
  rw [Build.leaderGone]
  split_ifs with h
  · exact nofun
  · exact h

theorem groupStopped_eq_none (h : b.builder ≠ .unmarked) : b.groupStopped.builder = .none := by
  rw [Build.groupStopped]
  cases hb : b.builder with
  | none => rfl
  | unmarked => exact absurd hb h
  | marked => rfl

/-- There is less to clean up than before. -/
theorem BuildOk.calmer (h : BuildOk b) (hrow : b'.row = b.row) (htree : b'.hasTree = b.hasTree)
    (hclaims : b'.claims = b.claims) (houtputs : b'.outputs = b.outputs)
    (hquiet : b.IsQuiet → b'.IsQuiet) (hqueued : b.row.status ≠ .queued) : BuildOk b' :=
  h.of_row hrow hclaims houtputs (fun hne => htree ▸ h.kept fun hq => hne (hquiet hq)) hqueued

theorem BuildOk.leaderGone (h : BuildOk b) (hqueued : b.row.status ≠ .queued) :
    BuildOk b.leaderGone :=
  h.calmer rfl rfl rfl rfl IsQuiet.leaderGone hqueued

theorem BuildOk.groupStopped (h : BuildOk b) (hqueued : b.row.status ≠ .queued) :
    BuildOk b.groupStopped := by
  refine h.calmer rfl rfl rfl rfl (fun hquiet => ⟨?_, hquiet.2⟩) hqueued
  exact groupStopped_eq_none (hquiet.1 ▸ nofun)

theorem BuildOk.guestGone (h : BuildOk b) (hqueued : b.row.status ≠ .queued) :
    BuildOk { b with hasGuest := false } :=
  h.calmer rfl rfl rfl rfl (fun hquiet => ⟨hquiet.1, rfl⟩) hqueued

/-- The tree is made or removed when nothing is left. -/
theorem BuildOk.of_quiet (h : BuildOk b) (hquiet : b.IsQuiet) (hqueued : b.row.status ≠ .queued)
    (tree : Bool) : BuildOk { b with hasTree := tree } where
  queued := fun hq => absurd hq hqueued
  claims := h.claims
  outputs := h.outputs
  unpublished := h.unpublished
  building := h.building
  kept := fun hne => absurd hquiet hne

/-- A row that is written when the build is over. -/
theorem BuildOk.over (h : BuildOk b) (hclaims : b'.claims = b.claims)
    (houtputs : b'.outputs = b.outputs) (htree : b'.hasTree = b.hasTree)
    (hquiet : b.IsQuiet → b'.IsQuiet)
    (hstatus : b'.row.status = .complete ∧ b.row.status = .complete ∨ b'.row.status = .error ∧
      b.row.status ≠ .complete)
    (hkept : ¬b.IsQuiet → b'.row.Unsettled) : BuildOk b' where
  queued := fun hq => by
    rcases hstatus with ⟨hs, -⟩ | ⟨hs, -⟩ <;> rw [hs] at hq <;> cases hq
  claims := hclaims ▸ h.claims
  outputs := houtputs ▸ h.outputs
  unpublished := fun hne => by
    rcases hstatus with ⟨hs, -⟩ | ⟨-, hs⟩
    · exact absurd hs hne
    · exact houtputs ▸ h.unpublished hs
  building := fun hb => by
    rcases hstatus with ⟨hs, -⟩ | ⟨hs, -⟩ <;> rw [hs] at hb <;> cases hb
  kept := fun hne => by
    have hnot : ¬b.IsQuiet := fun hq => hne (hquiet hq)
    exact ⟨htree ▸ (h.kept hnot).1, hkept hnot⟩

/-! ### The moves of a worker -/

/-- What a move of the worker has to keep. -/
structure MoveOk (p : ℕ) (b : Build) (r : Build × Outcome) : Prop where
  build : BuildOk r.1
  stage : ∀ st, r.2 = .stage st → StageOk p r.1 st
  unmarked : r.1.builder = .unmarked → r.2 = .stage .running
  change : SafeChange b r.1

/-- The build stays as it is. -/
theorem MoveOk.same {o : Outcome} (hb : BuildOk b) (hmark : b.builder ≠ .unmarked)
    (hst : ∀ st, o = .stage st → StageOk p b st) : MoveOk p b (b, o) :=
  ⟨hb, hst, fun h => absurd h hmark, .refl b⟩

theorem stage_of_eq (st : Stage) (h : StageOk p b st) :
    ∀ st', Outcome.stage st = .stage st' → StageOk p b st' := by
  rintro st' heq
  obtain rfl := Outcome.stage.inj heq
  exact h

/-- A move that cannot be made at a stage. -/
theorem MoveOk.none (hb : BuildOk b) (h : StageOk p b st)
    (hmark : b.builder = .unmarked → st = .running) : MoveOk p b (b, .stage st) :=
  ⟨hb, stage_of_eq st h, fun hu => congrArg _ (hmark hu), .refl b⟩

/-- The handler starts with the cleanup of a tree that has been created. -/
theorem MoveOk.handle (hb : BuildOk b) (hclaims : b.claims = [p])
    (hrow : b.Held p ∨ b.row.status = .complete) (hmark : b.builder ≠ .unmarked) (failed : Bool) :
    MoveOk p b (b, handler true failed) := by
  refine .same hb hmark ?_
  cases failed with
  | false => exact stage_of_eq .stopping ⟨hclaims, hrow, hmark⟩
  | true =>
    exact stage_of_eq (.recording true true)
      ⟨hclaims, hrow, hmark, nofun⟩

/-- The run of the builder ends. -/
theorem moveOk_leaderGone {o : Outcome} (hb : BuildOk b) (hqueued : b.row.status ≠ .queued)
    (hst : ∀ st, o = .stage st → StageOk p b.leaderGone st) : MoveOk p b (b.leaderGone, o) :=
  ⟨hb.leaderGone hqueued, hst, fun h => absurd h leaderGone_ne_unmarked,
    .of_row rfl rfl rfl id⟩

/-- The builder is stopped. -/
theorem moveOk_groupStopped {o : Outcome} (hb : BuildOk b) (hqueued : b.row.status ≠ .queued)
    (hmark : b.builder ≠ .unmarked) (hst : ∀ st, o = .stage st → StageOk p b.groupStopped st) :
    MoveOk p b (b.groupStopped, o) := by
  refine ⟨hb.groupStopped hqueued, hst, fun h => ?_, .of_row rfl rfl rfl id⟩
  rw [groupStopped_eq_none hmark] at h
  cases h

/-- The output is committed by the worker that holds the lease. -/
theorem moveOk_withOutput {o : Outcome} {digest : String} (hb : BuildOk b) (hheld : b.Held p)
    (hmark : b.builder ≠ .unmarked)
    (hst : ∀ st, o = .stage st → StageOk p (b.withOutput p digest) st) :
    MoveOk p b (b.withOutput p digest, o) := by
  have hnone : b.outputs = [] := hb.unpublished (by rw [hheld.1]; exact nofun)
  refine ⟨⟨nofun, hb.claims, ?_, fun h => absurd rfl h, nofun, fun hne => ?_⟩, hst,
    fun h => absurd h hmark, ⟨.inl rfl, .inr ⟨p, rfl, hheld, rfl⟩, fun _ => rfl, fun h h' => ?_,
      fun h => .inl h, fun _ => .inl (.inr (.inl rfl))⟩⟩
  · change (b.outputs ++ [p]).length ≤ 1
    rw [hnone]
    exact Nat.le_refl 1
  · exact ⟨(hb.kept hne).1, .inr (.inl rfl)⟩
  · change b.hasTree = false at h'
    rw [h] at h'
    cases h'

/-- The handler records that the cleanup has failed. -/
theorem moveOk_recorded_failed {created : Bool} (hb : BuildOk b)
    (h : StageOk p b (.recording created true)) : MoveOk p b (b.recorded p true, .gone) := by
  obtain ⟨-, -, hmark, -⟩ := h
  by_cases hwrite : b.row.status = .building ∧ b.row.leaseOwner = some p ∨
      b.row.status = .complete ∧ true = true
  · rw [Build.recorded, if_pos hwrite]
    refine ⟨hb.over rfl rfl rfl id ?_ fun _ => .inr (.inr rfl), nofun, fun hu => absurd hu hmark,
      .of_failed rfl rfl rfl rfl fun hc => if_pos hc⟩
    by_cases hc : b.row.status = .complete
    · exact .inl ⟨if_pos hc, hc⟩
    · exact .inr ⟨if_neg hc, hc⟩
  · rw [Build.recorded, if_neg hwrite]
    exact .same hb hmark nofun

/-- The handler records that the build has failed, with nothing left to clean up. -/
theorem moveOk_recorded_quiet {created : Bool} (hb : BuildOk b)
    (h : StageOk p b (.recording created false)) :
    MoveOk p b (b.recorded p false, if created then .stage .removing else .idle) := by
  have hqueued := h.not_queued hb
  obtain ⟨hclaims, -, hmark, hquiet⟩ := h
  have hq : b.IsQuiet := hquiet rfl
  have hstage : ∀ {b' : Build}, b'.claims = [p] → b'.row.status ≠ .queued → b'.IsQuiet →
      ∀ st, (if created then Outcome.stage .removing else .idle) = .stage st → StageOk p b' st := by
    intro b' hclaims' hqueued' hquiet' st heq
    cases created with
    | true => exact stage_of_eq .removing ⟨hclaims', hqueued', hquiet'⟩ st heq
    | false => cases heq
  by_cases hwrite : b.row.status = .building ∧ b.row.leaseOwner = some p ∨
      b.row.status = .complete ∧ false = true
  · have hheld : ¬b.row.status = .complete := by
      rcases hwrite with ⟨hbuilding, -⟩ | ⟨-, hfalse⟩
      · rw [hbuilding]
        exact nofun
      · cases hfalse
    rw [Build.recorded, if_pos hwrite]
    refine ⟨hb.over rfl rfl rfl id (.inr ⟨if_neg hheld, hheld⟩) fun hne => absurd hq hne,
      hstage hclaims ?_ hq, fun hu => absurd hu hmark,
      .of_quiet hq rfl rfl fun hc => absurd hc hheld⟩
    change (if _ then Status.complete else Status.error) ≠ .queued
    rw [if_neg hheld]
    exact nofun
  · rw [Build.recorded, if_neg hwrite]
    exact .same hb hmark (hstage hclaims hqueued hq)

/-- **Every move of a worker** keeps what holds of its build, and changes it as it may. -/
theorem moveOk_work (hb : BuildOk b) (h : StageOk p b st)
    (hmark : b.builder = .unmarked → st = .running) (m : Move) : MoveOk p b (work p b st m) := by
  have hqueued := h.not_queued hb
  -- Death is the same at every stage but one: while the guest runs, its leader dies as well.
  by_cases hdie : m = .die
  · subst hdie
    cases st with
    | running => exact moveOk_leaderGone hb hqueued nofun
    | _ => exact .same hb (fun hu => absurd (hmark hu) nofun) nofun
  cases st with
  | claimed =>
    obtain ⟨hclaims, hheld, hquiet⟩ := h
    cases m with
    | mkdir ok =>
      rw [work]
      split_ifs
      · exact ⟨hb.of_quiet hquiet hqueued true, stage_of_eq .created
          ⟨hclaims, hheld, hquiet, rfl⟩, fun hu => absurd (hquiet.1.symm.trans hu) nofun,
          .of_row rfl rfl rfl fun _ => rfl⟩
      · exact .same hb (fun hu => absurd (hmark hu) nofun)
          (stage_of_eq (.recording false false) ⟨hclaims, .inl hheld, hquiet.1 ▸ nofun,
            fun _ => hquiet⟩)
    | die => exact absurd rfl hdie
    -- At this stage the worker makes no other call.
    | _ => exact .none hb ⟨hclaims, hheld, hquiet⟩ hmark
  | created =>
    cases m with
    | prepare ok =>
      cases ok with
      | true => exact .same hb (fun hu => absurd (hmark hu) nofun) (stage_of_eq .prepared h)
      | false => exact .handle hb h.1 (.inl h.2.1) (fun hu => absurd (hmark hu) nofun) false
    | die => exact absurd rfl hdie
    | _ => exact .none hb h hmark
  | prepared =>
    obtain ⟨hclaims, hheld, hquiet, htree⟩ := h
    cases m with
    | spawn ok =>
      cases ok with
      | true =>
        exact ⟨hb.of_row rfl rfl rfl (fun _ => ⟨htree, .inl hheld.1⟩) hqueued,
          stage_of_eq .running ⟨hclaims, hheld, htree⟩, fun _ => rfl,
          .of_row rfl rfl rfl id⟩
      | false => exact .handle hb hclaims (.inl hheld) (fun hu => absurd (hmark hu) nofun) false
    | die => exact absurd rfl hdie
    | _ => exact .none hb ⟨hclaims, hheld, hquiet, htree⟩ hmark
  | running =>
    obtain ⟨hclaims, hheld, htree⟩ := h
    cases m with
    | runReturns digest =>
      exact moveOk_leaderGone hb hqueued (stage_of_eq (.built digest)
        ⟨hclaims, hheld, leaderGone_ne_unmarked⟩)
    | runRaises =>
      exact moveOk_leaderGone hb hqueued (stage_of_eq .stopping
        ⟨hclaims, .inl hheld, leaderGone_ne_unmarked⟩)
    | die => exact absurd rfl hdie
    | _ => exact .none hb ⟨hclaims, hheld, htree⟩ hmark
  | built digest =>
    obtain ⟨hclaims, hheld, hunmarked⟩ := h
    cases m with
    | publish c =>
      rw [work]
      split_ifs with hcommit hc
      · exact moveOk_withOutput hb hheld hunmarked (stage_of_eq .published
          ⟨hclaims, rfl, hunmarked⟩)
      · exact moveOk_withOutput hb hheld hunmarked (stage_of_eq .stopping
          ⟨hclaims, .inr rfl, hunmarked⟩)
      · exact .handle hb hclaims (.inl hheld) hunmarked false
    | die => exact absurd rfl hdie
    | _ => exact .none hb ⟨hclaims, hheld, hunmarked⟩ hmark
  | published =>
    obtain ⟨hclaims, hcomplete, hunmarked⟩ := h
    cases m with
    | stop v =>
      cases v with
      | done =>
        exact moveOk_groupStopped hb hqueued hunmarked
          (stage_of_eq .stopped ⟨hclaims, hcomplete, groupStopped_eq_none hunmarked⟩)
      | cleanupError => exact .handle hb hclaims (.inr hcomplete) hunmarked true
      | otherError => exact .handle hb hclaims (.inr hcomplete) hunmarked false
    | die => exact absurd rfl hdie
    | _ => exact .none hb ⟨hclaims, hcomplete, hunmarked⟩ hmark
  | stopped =>
    obtain ⟨hclaims, hcomplete, hnone⟩ := h
    have hunmarked : b.builder ≠ .unmarked := hnone ▸ nofun
    cases m with
    | cleanup v =>
      rw [work]
      split_ifs
      · exact ⟨hb.guestGone hqueued, stage_of_eq .removing
          ⟨hclaims, hqueued, hnone, rfl⟩, fun hu => absurd hu hunmarked, .of_row rfl rfl rfl id⟩
      · exact .handle hb hclaims (.inr hcomplete) hunmarked _
    | die => exact absurd rfl hdie
    | _ => exact .none hb ⟨hclaims, hcomplete, hnone⟩ hmark
  | stopping =>
    obtain ⟨hclaims, hrow, hunmarked⟩ := h
    cases m with
    | stop v =>
      cases v with
      | done =>
        exact moveOk_groupStopped hb hqueued hunmarked
          (stage_of_eq .reclaiming ⟨hclaims, hrow, groupStopped_eq_none hunmarked⟩)
      | cleanupError =>
        exact .same hb hunmarked (stage_of_eq (.recording true true)
          ⟨hclaims, hrow, hunmarked, nofun⟩)
      | otherError => exact .same hb hunmarked nofun
    | die => exact absurd rfl hdie
    | _ => exact .none hb ⟨hclaims, hrow, hunmarked⟩ hmark
  | reclaiming =>
    obtain ⟨hclaims, hrow, hnone⟩ := h
    have hunmarked : b.builder ≠ .unmarked := hnone ▸ nofun
    cases m with
    | cleanup v =>
      rw [work]
      split_ifs
      · exact ⟨hb.guestGone hqueued, stage_of_eq (.recording true false)
          ⟨hclaims, hrow, hunmarked, fun _ => ⟨hnone, rfl⟩⟩, fun hu => absurd hu hunmarked,
          .of_row rfl rfl rfl id⟩
      · exact .same hb hunmarked nofun
      · exact .same hb hunmarked (stage_of_eq (.recording true true)
          ⟨hclaims, hrow, hunmarked, nofun⟩)
    | die => exact absurd rfl hdie
    | _ => exact .none hb ⟨hclaims, hrow, hnone⟩ hmark
  -- The row is written last, when what the build has left is known.
  | recording created failed =>
    cases m with
    | record =>
      cases failed with
      | true => exact moveOk_recorded_failed hb h
      | false => exact moveOk_recorded_quiet hb h
    | die => exact absurd rfl hdie
    | _ => exact .none hb h hmark
  | removing =>
    obtain ⟨hclaims, -, hquiet⟩ := h
    cases m with
    | remove ok =>
      rw [work]
      split_ifs
      · exact ⟨hb.of_quiet hquiet hqueued false, nofun, fun hu => absurd (hmark hu) nofun,
          .of_quiet hquiet rfl rfl id⟩
      · exact .same hb (fun hu => absurd (hmark hu) nofun) (stage_of_eq .scratch
          ⟨hclaims, hqueued, hquiet⟩)
    | die => exact absurd rfl hdie
    | _ => exact .none hb ⟨hclaims, hqueued, hquiet⟩ hmark
  | scratch =>
    obtain ⟨hclaims, -, hquiet⟩ := h
    cases m with
    | record =>
      refine ⟨hb.over rfl rfl rfl id ?_ fun hne => absurd hquiet hne, nofun,
        fun hu => absurd (hmark hu) nofun, .of_quiet hquiet rfl rfl fun hc => if_pos hc⟩
      by_cases hc : b.row.status = .complete
      · exact .inl ⟨if_pos hc, hc⟩
      · exact .inr ⟨if_neg hc, hc⟩
    | die => exact absurd rfl hdie
    | _ => exact .none hb ⟨hclaims, hqueued, hquiet⟩ hmark

end Palimpsest.Hub.Builds
