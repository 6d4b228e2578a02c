import Mathlib.Data.List.Induction
import Mathlib.Data.List.Nodup
import Palimpsest.Hub.BuildChanges
import Palimpsest.Lib.Throughout

/-!
# Leases of Hub builds

A build is claimed once, its output is committed once and by the worker that holds it, and a
guest that may still exist keeps its tree and its record, whatever workers do and wherever they
stop (`Palimpsest.Hub.Builds.builds_safe`). `fail_interrupted_builds` writes rows that it has
read long before, and cleans up behind a builder that it may not see yet. So this needs that no
other worker lives while it runs (`Palimpsest.Hub.Builds.Allowed`), which the lock on the store
that `build_worker.main` takes ensures; without it a complete build can become a failed one
(`Palimpsest.Hub.Builds.complete_lost`).
-/

namespace Palimpsest.Hub.Builds

/-- A process starts to reconcile only when no other one is alive, and none starts meanwhile. -/
def Allowed (s : World) : Event → Prop
  | .proc p .reconcile => ∀ q, q ≠ p → (s.procs q).isAlive = false
  | .proc _ .start => ∀ q, (s.procs q).isReconciling = false
  | _ => True

/-! ### Rows that a session holds -/

/-- What a session has loaded and not changed is not written. -/
theorem merge_loaded (loaded now : Row) : Row.merge loaded now loaded = now := by
  rw [Row.merge]
  cases now
  cases loaded
  simp only [Row.mk.injEq]
  refine ⟨?_, ?_, ?_, ?_⟩
  all_goals
    split_ifs with h
    · exact h.symm
    · rfl

theorem status_settled {row : Row} (h : row.status ≠ .queued) :
    row.settled.status = .complete ∧ row.status = .complete ∨
      row.settled.status = .error ∧ row.status ≠ .complete := by
  rw [Row.settled]
  split_ifs with hcomplete hbuilding
  · exact .inl ⟨hcomplete, hcomplete⟩
  · exact .inr ⟨rfl, hcomplete⟩
  · refine .inr ⟨?_, hcomplete⟩
    cases hs : row.status with
    | queued => exact absurd hs h
    | building => exact absurd (.inl hs) hbuilding
    | complete => exact absurd hs hcomplete
    | error => rfl

theorem status_failed {row : Row} :
    row.failed.status = .complete ∧ row.status = .complete ∨
      row.failed.status = .error ∧ row.status ≠ .complete := by
  rw [Row.failed]
  by_cases hcomplete : row.status = .complete
  · exact .inl ⟨if_pos hcomplete, hcomplete⟩
  · exact .inr ⟨if_neg hcomplete, hcomplete⟩

/-! ### The invariant -/

variable {s t : World} {p id : ℕ} {e : Event} {r : Reconciliation}

/-- What holds of a build and of the processes that work on it. -/
structure BuildAt (s : World) (id : ℕ) : Prop where
  ok : BuildOk (s.builds id)
  stage : ∀ p st, s.procs p = .working id st → StageOk p (s.builds id) st
  unmarked : (s.builds id).builder = .unmarked → ∃ p, s.procs p = .working id .running

/-- What a reconciling process relies on at the job in hand. -/
def ReconcileStage.Relies (b : Build) : ReconcileStage → Prop
  | reclaiming => b.builder = .none
  | removing => b.IsQuiet
  | _ => True

/-- What a reconciling process relies on. -/
structure Reconciles (s : World) (p : ℕ) (r : Reconciliation) : Prop where
  alone : ∀ q, q ≠ p → (s.procs q).isAlive = false
  loaded : ∀ j ∈ r.done ++ r.todo, j.loaded = (s.builds j.id).row
  notQueued : ∀ j ∈ r.done ++ r.todo, j.loaded.status ≠ .queued
  distinct : ((r.done ++ r.todo).map Job.id).Nodup
  fresh : ∀ j ∈ r.todo, j.now = j.loaded
  quiet : ∀ j ∈ r.done, j.now = j.loaded.settled ∧ (s.builds j.id).IsQuiet
  current : ∀ j todo, r.todo = j :: todo → r.stage.Relies (s.builds j.id)
  early : r.stage = .selected ∨ (∃ entries, r.stage = .scanning entries) → r.done = []

structure Invariant (s : World) : Prop where
  build : ∀ id, BuildAt s id
  reconciles : ∀ p r, s.procs p = .reconciling r → Reconciles s p r

/-- Nobody reconciles while another process is alive. -/
theorem Invariant.eq_of_alive (h : Invariant s) {q : ℕ} (hq : s.procs q = .reconciling r)
    (hp : (s.procs p).isAlive = true) : p = q := by
  by_contra hne
  have hdead := (h.reconciles q r hq).alone p hne
  rw [hp] at hdead
  cases hdead

theorem BuildAt.frame (h : BuildAt s id) (hbuild : t.builds id = s.builds id)
    (hprocs : ∀ p st, t.procs p = .working id st ↔ s.procs p = .working id st) : BuildAt t id where
  ok := hbuild ▸ h.ok
  stage := fun p st hp => hbuild ▸ h.stage p st ((hprocs p st).mp hp)
  unmarked := fun hu => by
    rw [hbuild] at hu
    obtain ⟨p, hp⟩ := h.unmarked hu
    exact ⟨p, (hprocs p _).mpr hp⟩

/-- A process goes on, and is not at the build before or after. -/
theorem working_update {procs : ℕ → Proc} {x : Proc} (hold : ∀ st, procs p ≠ .working id st)
    (hnew : ∀ st, x ≠ .working id st) (q : ℕ) (st : Stage) :
    Function.update procs p x q = .working id st ↔ procs q = .working id st := by
  by_cases hq : q = p
  · subst hq
    rw [Function.update_self]
    exact ⟨fun h => absurd h (hnew st), fun h => absurd h (hold st)⟩
  · rw [Function.update_of_ne hq]

/-- What a step has to keep. -/
structure StepOk (s t : World) : Prop where
  invariant : Invariant t
  change : ∀ id, SafeChange (s.builds id) (t.builds id)

theorem StepOk.refl (h : Invariant s) : StepOk s s := ⟨h, fun _ => .refl _⟩

/-! ### Builders and guests -/

/-- A builder does something: only what there is of its build changes. -/
theorem stepOk_builder {b : Build} (h : Invariant s) (hnot : (s.builds id).builder ≠ .none)
    (hrow : b.row = (s.builds id).row) (htree : b.hasTree = (s.builds id).hasTree)
    (hclaims : b.claims = (s.builds id).claims) (houtputs : b.outputs = (s.builds id).outputs)
    (hmark : b.builder ≠ .unmarked) : StepOk s (s.setBuild id b) := by
  have hid : (s.setBuild id b).builds id = b := Function.update_self ..
  have hother : ∀ j, j ≠ id → (s.setBuild id b).builds j = s.builds j :=
    fun j hj => Function.update_of_ne hj ..
  have hok := (h.build id).ok
  have hnotquiet : ¬(s.builds id).IsQuiet := fun hq => hnot hq.1
  have hkept := hok.kept hnotquiet
  have hqueued : (s.builds id).row.status ≠ .queued := by
    intro hq
    rw [hok.queued hq] at hnot
    exact hnot rfl
  have hb : BuildOk b := hok.of_row hrow hclaims houtputs (fun _ => htree ▸ hkept) hqueued
  refine ⟨⟨fun j => ?_, fun q r hq => ?_⟩, fun j => ?_⟩
  · by_cases hj : j = id
    · subst hj
      refine ⟨by rw [hid]; exact hb, fun q st hq => ?_, fun hu => absurd (hid ▸ hu) hmark⟩
      rw [hid]
      have hst := (h.build j).stage q st hq
      -- At the stages that need a quiet build there is no builder.
      refine ⟨hclaims ▸ hst.1, ?_⟩
      obtain ⟨-, hst⟩ := hst
      have hheld : ∀ p, (s.builds j).Held p → b.Held p := fun p hp => by
        rw [Build.Held, hrow]
        exact hp
      cases st with
      | claimed => exact absurd hst.2 hnotquiet
      | created => exact absurd hst.2.1 hnotquiet
      | prepared => exact absurd hst.2.1 hnotquiet
      | running => exact ⟨hheld q hst.1, htree ▸ hst.2⟩
      | built d => exact ⟨hheld q hst.1, hmark⟩
      | published => exact ⟨hrow ▸ hst.1, hmark⟩
      | stopped => exact absurd hst.2 hnot
      | stopping => exact ⟨hst.1.imp (hheld q) (hrow ▸ ·), hmark⟩
      | reclaiming => exact absurd hst.2 hnot
      | recording created failed =>
        exact ⟨hst.1.imp (hheld q) (hrow ▸ ·), hmark, fun hf => absurd (hst.2.2 hf) hnotquiet⟩
      | removing => exact absurd hst.2 hnotquiet
      | scratch => exact absurd hst.2 hnotquiet
    · exact (h.build j).frame (hother j hj) fun _ _ => Iff.rfl
  · have hr := h.reconciles q r hq
    have hrow' : ∀ j, ((s.setBuild id b).builds j).row = (s.builds j).row := by
      intro j
      by_cases hj : j = id
      · rw [hj, hid, hrow]
      · rw [hother j hj]
    have hquiet : ∀ j, (s.builds j).builder = .none → (s.setBuild id b).builds j = s.builds j :=
      fun j hj => hother j fun heq => hnot (heq ▸ hj)
    refine ⟨hr.alone, fun j hj => (hr.loaded j hj).trans (hrow' j.id).symm, hr.notQueued,
      hr.distinct, hr.fresh, fun j hj => ?_, fun j todo htodo => ?_, hr.early⟩
    · obtain ⟨hnow, hq⟩ := hr.quiet j hj
      exact ⟨hnow, (hquiet j.id hq.1).symm ▸ hq⟩
    · have hrelies := hr.current j todo htodo
      cases hstage : r.stage with
      | reclaiming =>
        rw [hstage] at hrelies
        exact (hquiet j.id hrelies).symm ▸ hrelies
      | removing =>
        rw [hstage] at hrelies
        exact (hquiet j.id hrelies.1).symm ▸ hrelies
      | _ => trivial
  · by_cases hj : j = id
    · subst hj
      rw [hid]
      exact .of_row hrow hclaims houtputs fun ht => htree ▸ ht
    · rw [hother j hj]
      exact .refl _

/-! ### Workers -/

/-- A process that works on no build goes on, while nobody else reconciles. -/
theorem stepOk_setProc {x : Proc} (h : Invariant s) (hold : ∀ id st, s.procs p ≠ .working id st)
    (hnew : ∀ id st, x ≠ .working id st)
    (hothers : ∀ q r, q ≠ p → s.procs q ≠ .reconciling r)
    (hrec : ∀ r, x = .reconciling r → Reconciles (s.setProc p x) p r) :
    StepOk s (s.setProc p x) := by
  refine ⟨⟨fun id => (h.build id).frame rfl (working_update (hold id) (hnew id)), ?_⟩,
    fun _ => .refl _⟩
  intro q r hq
  change Function.update s.procs p x q = _ at hq
  by_cases hqp : q = p
  · subst hqp
    rw [Function.update_self] at hq
    exact hrec r hq
  · rw [Function.update_of_ne hqp] at hq
    exact absurd hq (hothers q r hqp)

/-- A process goes on together with the build that it alone works on. -/
theorem stepOk_put {x : Proc} {b : Build} (h : Invariant s) (halive : (s.procs p).isAlive = true)
    (honly : ∀ q st, s.procs q = .working id st → q = p)
    (hold : ∀ j st, s.procs p = .working j st → j = id)
    (hnew : ∀ j st, x = .working j st → j = id ∧ StageOk p b st)
    (hrec : ∀ r, x ≠ .reconciling r) (hok : BuildOk b)
    (hmark : b.builder = .unmarked → x = .working id .running)
    (hchange : SafeChange (s.builds id) b) : StepOk s ((s.setBuild id b).setProc p x) := by
  have hid : ((s.setBuild id b).setProc p x).builds id = b := Function.update_self ..
  have hother : ∀ j, j ≠ id → ((s.setBuild id b).setProc p x).builds j = s.builds j :=
    fun j hj => Function.update_of_ne hj ..
  have hprocs : ((s.setBuild id b).setProc p x).procs = Function.update s.procs p x := rfl
  refine ⟨⟨fun j => ?_, fun q r hq => ?_⟩, fun j => ?_⟩
  -- No other process works on this build, and no other build has changed.
  · by_cases hj : j = id
    · subst hj
      refine ⟨by rw [hid]; exact hok, fun q st hq => ?_, fun hu => ?_⟩
      · rw [hid]
        rw [hprocs] at hq
        by_cases hqp : q = p
        · subst hqp
          rw [Function.update_self] at hq
          exact (hnew j st hq).2
        · rw [Function.update_of_ne hqp] at hq
          exact absurd (honly q st hq) hqp
      · rw [hid] at hu
        exact ⟨p, by rw [hprocs, Function.update_self, hmark hu]⟩
    · exact (h.build j).frame (hother j hj) (working_update (fun st hst => hj (hold j st hst))
        fun st hst => hj (hnew j st hst).1)
  · rw [hprocs] at hq
    by_cases hqp : q = p
    · subst hqp
      rw [Function.update_self] at hq
      exact absurd hq (hrec r)
    · rw [Function.update_of_ne hqp] at hq
      exact absurd (h.eq_of_alive hq halive).symm hqp
  · by_cases hj : j = id
    · subst hj
      rw [hid]
      exact hchange
    · rw [hother j hj]
      exact .refl _

/-- A worker moves. -/
theorem stepOk_work {st : Stage} (h : Invariant s) (hp : s.procs p = .working id st) (m : Move) :
    StepOk s ((s.setBuild id (work p (s.builds id) st m).1).setProc p
      (.after id (work p (s.builds id) st m).2)) := by
  have hbuild := h.build id
  have hst := hbuild.stage p st hp
  -- The build is claimed by this process, so no other works on it.
  have honly : ∀ q st', s.procs q = .working id st' → q = p := by
    intro q st' hq
    have hclaims := (hbuild.stage q st' hq).claims_eq
    rw [hst.claims_eq] at hclaims
    exact (List.singleton_inj.mp hclaims).symm
  have hmark : (s.builds id).builder = .unmarked → st = .running := by
    intro hu
    obtain ⟨q, hq⟩ := hbuild.unmarked hu
    obtain rfl := honly q _ hq
    rw [hp] at hq
    exact (Proc.working.inj hq).2
  have hmove := moveOk_work hbuild.ok hst hmark m
  generalize work p (s.builds id) st m = moved at hmove ⊢
  obtain ⟨b, o⟩ := moved
  refine stepOk_put h (hp ▸ rfl) honly (fun j st' hst' => ?_) (fun j st' hst' => ?_) (fun r => ?_)
    hmove.build (fun hu => congrArg (Proc.after id) (hmove.unmarked hu)) hmove.change
  · rw [hp] at hst'
    exact (Proc.working.inj hst').1.symm
  · cases o with
    | stage st'' =>
      obtain ⟨rfl, rfl⟩ := Proc.working.inj hst'
      exact ⟨rfl, hmove.stage st'' rfl⟩
    | idle => cases hst'
    | gone => cases hst'
  · cases o <;> exact nofun

/-- A queued build is claimed. -/
theorem stepOk_claim (h : Invariant s) (hp : s.procs p = .idle) : StepOk s (s.claim p id) := by
  rw [World.claim]
  split_ifs with hqueued
  · have hnew := (h.build id).ok.queued hqueued.2
    rw [hnew]
    refine stepOk_put h (hp ▸ rfl) (fun q st hq => ?_) (fun j st hst => ?_) (fun j st hst => ?_)
      (fun r => nofun) ?_ nofun ?_
    · have hclaims := ((h.build id).stage q st hq).claims_eq
      rw [hnew] at hclaims
      cases hclaims
    · rw [hp] at hst
      cases hst
    · obtain ⟨rfl, rfl⟩ := Proc.working.inj hst
      exact ⟨rfl, rfl, ⟨rfl, rfl⟩, rfl, rfl⟩
    · exact ⟨nofun, Nat.le_refl 1, Nat.zero_le 1, fun _ => rfl, fun _ => ⟨p, rfl, rfl⟩,
        fun hquiet => absurd ⟨rfl, rfl⟩ hquiet⟩
    · rw [hnew]
      refine ⟨.inr ⟨rfl, rfl, p, rfl⟩, .inl rfl, nofun, nofun, nofun, fun hu => ?_⟩
      rcases hu with hu | hu | hu <;> cases hu
  · exact .refl h

/-! ### Reconciling -/

/-- Nobody works while somebody reconciles. -/
theorem Reconciles.nobody (hr : Reconciles s p r) (hp : s.procs p = .reconciling r) (q id : ℕ)
    (st : Stage) : s.procs q ≠ .working id st := by
  intro hq
  by_cases hqp : q = p
  · rw [hqp, hp] at hq
    cases hq
  · have hdead := hr.alone q hqp
    rw [hq] at hdead
    cases hdead

/-- A reconciling process goes on, together with the builds. -/
theorem stepOk_reconciling {x : Proc} {builds : ℕ → Build} (h : Invariant s)
    (hp : s.procs p = .reconciling r) (hnew : ∀ id st, x ≠ .working id st)
    (hok : ∀ id, BuildOk (builds id)) (hmark : ∀ id, (builds id).builder ≠ .unmarked)
    (hchange : ∀ id, SafeChange (s.builds id) (builds id))
    (hrec : ∀ r', x = .reconciling r' →
      Reconciles ({ s with builds := builds }.setProc p x) p r') :
    StepOk s ({ s with builds := builds }.setProc p x) := by
  have hr := h.reconciles p r hp
  refine ⟨⟨fun id => ⟨hok id, fun q st hq => ?_, fun hu => absurd hu (hmark id)⟩,
    fun q r' hq => ?_⟩, hchange⟩
  · change Function.update s.procs p x q = _ at hq
    by_cases hqp : q = p
    · subst hqp
      rw [Function.update_self] at hq
      exact absurd hq (hnew id st)
    · rw [Function.update_of_ne hqp] at hq
      exact absurd hq (hr.nobody hp q id st)
  · change Function.update s.procs p x q = _ at hq
    by_cases hqp : q = p
    · subst hqp
      rw [Function.update_self] at hq
      exact hrec r' hq
    · rw [Function.update_of_ne hqp] at hq
      have hdead := hr.alone q hqp
      rw [hq] at hdead
      cases hdead

/-- The builders that a reconciling process meets have written their markers. -/
theorem Reconciles.marked (h : Invariant s) (hp : s.procs p = .reconciling r) (id : ℕ) :
    (s.builds id).builder ≠ .unmarked := by
  intro hu
  obtain ⟨q, hq⟩ := (h.build id).unmarked hu
  exact (h.reconciles p r hp).nobody hp q id _ hq

section Sessions

variable {builds : ℕ → Build} {x : Proc}

/-- The jobs stay, and the builds have no more left to clean up than before. -/
theorem Reconciles.stage (hr : Reconciles s p r) (st : ReconcileStage)
    (hrow : ∀ id, (builds id).row = (s.builds id).row)
    (hquiet : ∀ id, (s.builds id).IsQuiet → (builds id).IsQuiet)
    (hcurrent : ∀ j todo, r.todo = j :: todo → st.Relies (builds j.id))
    (hearly : st = .selected ∨ (∃ entries, st = .scanning entries) → r.done = []) :
    Reconciles ({ s with builds := builds }.setProc p x) p { r with stage := st } where
  alone := fun q hq => by
    change ((Function.update s.procs p x) q).isAlive = false
    rw [Function.update_of_ne hq]
    exact hr.alone q hq
  loaded := fun j hj => (hr.loaded j hj).trans (hrow j.id).symm
  notQueued := hr.notQueued
  distinct := hr.distinct
  fresh := hr.fresh
  quiet := fun j hj => ⟨(hr.quiet j hj).1, hquiet j.id (hr.quiet j hj).2⟩
  current := hcurrent
  early := hearly

/-- The job in hand is dealt with. -/
theorem Reconciles.settle {j : Job} {todo : List Job} (hr : Reconciles s p r)
    (htodo : r.todo = j :: todo) (hrow : ∀ id, (builds id).row = (s.builds id).row)
    (hquiet : ∀ id, (s.builds id).IsQuiet → (builds id).IsQuiet) (hj : (builds j.id).IsQuiet) :
    Reconciles ({ s with builds := builds }.setProc p x) p
      ⟨r.done ++ [{ j with now := j.now.settled }], todo, .next⟩ := by
  -- The jobs are the same as before, in the same order, but for what is noted of this one.
  have hmem : ∀ k ∈ (r.done ++ [{ j with now := j.now.settled }]) ++ todo,
      ∃ k' ∈ r.done ++ r.todo, k'.id = k.id ∧ k'.loaded = k.loaded := by
    intro k hk
    rw [htodo]
    rcases List.mem_append.mp hk with hk | hk
    · rcases List.mem_append.mp hk with hk | hk
      · exact ⟨k, List.mem_append_left _ hk, rfl, rfl⟩
      · rw [List.mem_singleton.mp hk]
        exact ⟨j, List.mem_append_right _ (List.mem_cons_self ..), rfl, rfl⟩
    · exact ⟨k, List.mem_append_right _ (List.mem_cons_of_mem _ hk), rfl, rfl⟩
  refine ⟨fun q hq => ?_, fun k hk => ?_, fun k hk => ?_, ?_, fun k hk => ?_, fun k hk => ?_,
    fun _ _ _ => trivial, fun hearly => ?_⟩
  · change ((Function.update s.procs p x) q).isAlive = false
    rw [Function.update_of_ne hq]
    exact hr.alone q hq
  · obtain ⟨k', hk', hid, hloaded⟩ := hmem k hk
    rw [← hloaded, hr.loaded k' hk', hid]
    exact (hrow k.id).symm
  · obtain ⟨k', hk', -, hloaded⟩ := hmem k hk
    exact hloaded ▸ hr.notQueued k' hk'
  · have hdistinct := hr.distinct
    rw [htodo] at hdistinct
    simpa using hdistinct
  · exact hr.fresh k (htodo ▸ List.mem_cons_of_mem _ hk)
  · rcases List.mem_append.mp hk with hk | hk
    · exact ⟨(hr.quiet k hk).1, hquiet k.id (hr.quiet k hk).2⟩
    · rw [List.mem_singleton.mp hk]
      exact ⟨congrArg Row.settled (hr.fresh j (htodo ▸ List.mem_cons_self ..)), hj⟩
  · rcases hearly with hearly | ⟨entries, hearly⟩ <;> cases hearly

/-- A reconciling process goes on by itself. -/
theorem stepOk_alone (h : Invariant s) (hp : s.procs p = .reconciling r)
    (hnew : ∀ id st, x ≠ .working id st)
    (hrec : ∀ r', x = .reconciling r' → Reconciles (s.setProc p x) p r') :
    StepOk s (s.setProc p x) :=
  stepOk_reconciling h hp hnew (fun id => (h.build id).ok) (Reconciles.marked h hp)
    (fun _ => .refl _) hrec

/-- A reconciling process reaches another stage. -/
theorem stepOk_stage (h : Invariant s) (hp : s.procs p = .reconciling r) (st : ReconcileStage)
    (hcurrent : ∀ j todo, r.todo = j :: todo → st.Relies (s.builds j.id))
    (hearly : st = .selected ∨ (∃ entries, st = .scanning entries) → r.done = []) :
    StepOk s (s.setProc p (.reconciling { r with stage := st })) := by
  refine stepOk_alone h hp (fun _ _ => nofun) fun r' hr' => ?_
  obtain rfl := Proc.reconciling.inj hr'
  exact (h.reconciles p r hp).stage st (fun _ => rfl) (fun _ => id) hcurrent hearly

/-- A reconciling process changes the build in hand, which has less to clean up than before. -/
theorem stepOk_current {b : Build} {j : Job} {r' : Reconciliation} (h : Invariant s)
    (hp : s.procs p = .reconciling r)
    (hok : BuildOk b) (hrow : b.row = (s.builds j.id).row) (hmark : b.builder ≠ .unmarked)
    (hquiet : (s.builds j.id).IsQuiet → b.IsQuiet) (hchange : SafeChange (s.builds j.id) b)
    (hrec : ∀ builds : ℕ → Build, builds j.id = b →
      (∀ id, (builds id).row = (s.builds id).row) →
      (∀ id, (s.builds id).IsQuiet → (builds id).IsQuiet) →
      Reconciles ({ s with builds := builds }.setProc p (.reconciling r')) p r') :
    StepOk s ((s.setBuild j.id b).setProc p (.reconciling r')) := by
  have hcase : ∀ P : ℕ → Build → Prop, P j.id b → (∀ id, P id (s.builds id)) →
      ∀ id, P id (Function.update s.builds j.id b id) := by
    intro P hP hs id
    by_cases hid : id = j.id
    · rw [hid, Function.update_self]
      exact hP
    · rw [Function.update_of_ne hid]
      exact hs id
  refine stepOk_reconciling h hp (fun _ _ => nofun) (hcase _ hok fun id => (h.build id).ok)
    (hcase (fun _ b => b.builder ≠ .unmarked) hmark (Reconciles.marked h hp))
    (hcase (fun id b => SafeChange (s.builds id) b) hchange fun _ => .refl _) fun r'' hr'' => ?_
  obtain rfl := Proc.reconciling.inj hr''
  exact hrec _ (Function.update_self ..)
    (hcase (fun id b => b.row = (s.builds id).row) hrow fun _ => rfl)
    (hcase (fun id b => (s.builds id).IsQuiet → b.IsQuiet) hquiet fun _ => id)

/-- The session commits the jobs that it has dealt with, and perhaps one that has failed. -/
theorem stepOk_flush {jobs : List Job} (h : Invariant s) (hp : s.procs p = .reconciling r)
    (hnew : ∀ id st, x ≠ .working id st) (hrec : ∀ r', x ≠ .reconciling r')
    (hloaded : ∀ j ∈ jobs, j.loaded = (s.builds j.id).row)
    (hqueued : ∀ j ∈ jobs, j.loaded.status ≠ .queued)
    (hjobs : ∀ j ∈ jobs, j.now = j.loaded.settled ∧ (s.builds j.id).IsQuiet ∨
      j.now = j.loaded.failed) : StepOk s ((s.flush jobs).setProc p x) := by
  -- A property of all builds holds after the commit if it holds of those that were written.
  have hcase : ∀ P : ℕ → Build → Prop,
      (∀ j ∈ jobs, P j.id { s.builds j.id with row := j.now }) → (∀ id, P id (s.builds id)) →
      ∀ id, P id ((s.flush jobs).builds id) := by
    intro P hP hs id
    unfold World.flush
    dsimp only
    split
    · next j hj =>
      have hmem := List.mem_of_find?_eq_some hj
      obtain rfl : j.id = id := by simpa using List.find?_some hj
      have hmerge : j.loaded.merge j.now (s.builds j.id).row = j.now := by
        rw [← hloaded j hmem]
        exact merge_loaded ..
      rw [hmerge]
      exact hP j hmem
    · exact hs id
  refine stepOk_reconciling h hp hnew (hcase _ (fun j hj => ?_) fun id => (h.build id).ok)
    (hcase (fun _ b => b.builder ≠ .unmarked) (fun j _ => Reconciles.marked h hp j.id)
      (Reconciles.marked h hp))
    (hcase (fun id b => SafeChange (s.builds id) b) (fun j hj => ?_) fun _ => .refl _)
    fun r' hr' => absurd hr' (hrec r')
  · have hok := (h.build j.id).ok
    have hrow := hloaded j hj
    -- A settled build is quiet; a failed one carries the code that excuses what is still there.
    rcases hjobs j hj with ⟨hnow, hquiet⟩ | hnow
    · refine hok.over rfl rfl rfl id ?_ fun hne => absurd hquiet hne
      have hstatus := status_settled (hqueued j hj)
      rw [← hnow, hrow] at hstatus
      exact hstatus
    · refine hok.over rfl rfl rfl id ?_ fun _ => .inr (.inr (congrArg Row.errorCode hnow))
      have hstatus := @status_failed j.loaded
      rw [← hnow, hrow] at hstatus
      exact hstatus
  · have hrow := hloaded j hj
    rcases hjobs j hj with ⟨hnow, hquiet⟩ | hnow
    · refine .of_quiet hquiet rfl rfl fun hc => ?_
      rcases status_settled (hqueued j hj) with ⟨hs, -⟩ | ⟨-, hne⟩
      · exact hnow ▸ hs
      · rw [hrow] at hne
        exact absurd hc hne
    · refine .of_failed rfl rfl rfl (congrArg Row.errorCode hnow) fun hc => ?_
      rcases @status_failed j.loaded with ⟨hs, -⟩ | ⟨-, hne⟩
      · exact hnow ▸ hs
      · rw [hrow] at hne
        exact absurd hc hne

end Sessions

/-- The rows that are selected have been claimed. -/
theorem Invariant.interrupted (h : Invariant s) {x : Proc}
    (halone : ∀ q, q ≠ p → (s.procs q).isAlive = false) :
    Reconciles (s.setProc p x) p ⟨[], s.interrupted, .selected⟩ := by
  have hmem : ∀ j ∈ s.interrupted, j.loaded = (s.builds j.id).row ∧ j.now = j.loaded ∧
      j.loaded.status ≠ .queued := by
    intro j hj
    obtain ⟨id, hid, rfl⟩ := List.mem_map.mp hj
    refine ⟨rfl, rfl, fun hq => ?_⟩
    have hsel := of_decide_eq_true (List.mem_filter.mp hid).2
    change (s.builds id).row.status = .queued at hq
    rw [(h.build id).ok.queued hq] at hsel
    rcases hsel with hsel | hsel <;> cases hsel
  refine ⟨fun q hq => ?_, fun j hj => (hmem j hj).1, fun j hj => (hmem j hj).2.2, ?_,
    fun j hj => (hmem j hj).2.1, fun _ hj => absurd hj List.not_mem_nil, fun _ _ _ => trivial,
    fun _ => rfl⟩
  · change ((Function.update s.procs p x) q).isAlive = false
    rw [Function.update_of_ne hq]
    exact halone q hq
  · rw [List.nil_append, World.interrupted, List.map_map]
    change ((List.filter _ _).map fun id => id).Nodup
    rw [List.map_id']
    exact List.Nodup.filter _ List.nodup_range

/-- A directory entry is looked at. -/
theorem stepOk_scan {entry : ℕ} {entries : List ℕ} (h : Invariant s)
    (hp : s.procs p = .reconciling r) (hstage : r.stage = .scanning (entry :: entries))
    (hnew : r.todo.any (·.id = entry) = false)
    (hrow : (s.builds entry).row.status = .complete ∨ (s.builds entry).row.status = .error) :
    StepOk s (s.setProc p (.reconciling { r with
      todo := r.todo ++ [⟨entry, (s.builds entry).row, (s.builds entry).row⟩]
      stage := .scanning entries })) := by
  refine stepOk_alone h hp (fun _ _ => nofun) fun r' hr' => ?_
  obtain rfl := Proc.reconciling.inj hr'
  have hr := h.reconciles p r hp
  -- The directory is scanned before any build is settled.
  have hdone : r.done = [] := hr.early (.inr ⟨_, hstage⟩)
  have hmem : ∀ j ∈ r.done ++ (r.todo ++ [⟨entry, (s.builds entry).row, (s.builds entry).row⟩]),
      j ∈ r.done ++ r.todo ∨ j = ⟨entry, (s.builds entry).row, (s.builds entry).row⟩ := by
    intro j hj
    rw [← List.append_assoc] at hj
    exact (List.mem_append.mp hj).imp id List.mem_singleton.mp
  refine ⟨fun q hq => ?_, fun j hj => ?_, fun j hj => ?_, ?_, fun j hj => ?_, hr.quiet,
    fun _ _ _ => trivial, fun _ => hdone⟩
  · change ((Function.update s.procs p _) q).isAlive = false
    rw [Function.update_of_ne hq]
    exact hr.alone q hq
  · rcases hmem j hj with hj | rfl
    · exact hr.loaded j hj
    · rfl
  · rcases hmem j hj with hj | rfl
    · exact hr.notQueued j hj
    · intro hq
      change (s.builds entry).row.status = .queued at hq
      rw [hq] at hrow
      rcases hrow with hrow | hrow <;> cases hrow
  · have hdistinct := hr.distinct
    rw [hdone, List.nil_append] at hdistinct ⊢
    rw [List.map_append, List.map_singleton, List.nodup_append]
    refine ⟨hdistinct, List.nodup_singleton _, fun a ha b hb heq => ?_⟩
    obtain ⟨j, hj, rfl⟩ := List.mem_map.mp ha
    rw [List.mem_singleton.mp hb] at heq
    exact List.any_eq_false.mp hnew j hj (decide_eq_true heq)
  · rcases List.mem_append.mp hj with hj | hj
    · exact hr.fresh j hj
    · rw [List.mem_singleton.mp hj]

/-- **Every move of a reconciling process.** -/
theorem stepOk_reconcile (h : Invariant s) (hp : s.procs p = .reconciling r) (m : Move) :
    StepOk s (s.reconcile p r m) := by
  have hr := h.reconciles p r hp
  -- A process that ends relies on nothing any more.
  have hgone : StepOk s (s.setProc p .gone) :=
    stepOk_alone h hp (fun _ _ => nofun) fun _ => nofun
  have hmark := Reconciles.marked h hp
  have hqueued : ∀ j todo, r.todo = j :: todo → (s.builds j.id).row.status ≠ .queued := by
    intro j todo htodo
    have hmem : j ∈ r.done ++ r.todo := List.mem_append_right _ (htodo ▸ List.mem_cons_self ..)
    exact hr.loaded j hmem ▸ hr.notQueued j hmem
  cases m with
  | die => exact hgone
  | list =>
    rw [World.reconcile]
    split
    · next hstage =>
      exact stepOk_stage h hp _ (fun _ _ _ => trivial) fun _ => hr.early (.inl hstage)
    · exact .refl h
  | look =>
    rw [World.reconcile]
    split
    · exact stepOk_stage h hp _ (fun _ _ _ => trivial) fun hearly => by
        rcases hearly with hearly | ⟨_, hearly⟩ <;> cases hearly
    · next entry entries _ hstage =>
      dsimp only
      split_ifs with hknown hrow
      · exact stepOk_stage h hp _ (fun _ _ _ => trivial) fun _ => hr.early (.inr ⟨_, hstage⟩)
      -- A tree that no row of the list explains belongs to a build at its end.
      · exact stepOk_scan h hp hstage (Bool.eq_false_iff.mpr hknown) hrow
      · exact hgone
    · next j todo hstage htodo =>
      split_ifs with htree hfailed
      · exact stepOk_stage h hp _ (fun _ _ _ => trivial) fun hearly => by
          rcases hearly with hearly | ⟨_, hearly⟩ <;> cases hearly
      · exact hgone
      · -- Without a tree there is nothing left to clean up.
        have hquiet : (s.builds j.id).IsQuiet := by
          by_contra hne
          exact htree ((h.build j.id).ok.kept hne).1
        refine stepOk_alone h hp (fun _ _ => nofun) fun r' hr' => ?_
        obtain rfl := Proc.reconciling.inj hr'
        rw [hstage]
        exact hr.settle htodo (fun _ => rfl) (fun _ => id) hquiet
    · exact .refl h
  | stop v =>
    unfold World.reconcile
    dsimp only
    split
    · next j todo hstage htodo =>
      refine stepOk_current h hp ((h.build j.id).ok.groupStopped (hqueued j todo htodo)) rfl
        ?_ (fun hq => ⟨groupStopped_eq_none (hmark j.id), hq.2⟩) (.of_row rfl rfl rfl id) ?_
      · rw [groupStopped_eq_none (hmark j.id)]
        exact nofun
      · intro builds hb hrow hquiet
        refine hr.stage _ hrow hquiet (fun k todo' htodo' => ?_) fun hearly => by
          rcases hearly with hearly | ⟨_, hearly⟩ <;> cases hearly
        obtain ⟨rfl, -⟩ := List.cons.inj (htodo.symm.trans htodo')
        rw [hb]
        exact groupStopped_eq_none (hmark j.id)
    · exact stepOk_stage h hp _ (fun _ _ _ => trivial) fun hearly => by
        rcases hearly with hearly | ⟨_, hearly⟩ <;> cases hearly
    · exact hgone
    · exact .refl h
  | cleanup v =>
    rw [World.reconcile]
    split
    · next j todo hstage htodo =>
      have hnone : (s.builds j.id).builder = .none := by
        have hrelies := hr.current j todo htodo
        rw [hstage] at hrelies
        exact hrelies
      split_ifs with hdone hother
      · refine stepOk_current h hp ((h.build j.id).ok.guestGone (hqueued j todo htodo)) rfl
          (hmark j.id) (fun hq => ⟨hq.1, rfl⟩) (.of_row rfl rfl rfl id) ?_
        intro builds hb hrow hquiet
        refine hr.stage _ hrow hquiet (fun k todo' htodo' => ?_) fun hearly => by
          rcases hearly with hearly | ⟨_, hearly⟩ <;> cases hearly
        obtain ⟨rfl, -⟩ := List.cons.inj (htodo.symm.trans htodo')
        change (builds j.id).IsQuiet
        rw [hb]
        exact ⟨hnone, rfl⟩
      · exact hgone
      · exact stepOk_stage h hp _ (fun _ _ _ => trivial) fun hearly => by
          rcases hearly with hearly | ⟨_, hearly⟩ <;> cases hearly
    · exact .refl h
  | remove ok =>
    rw [World.reconcile]
    split
    · next j todo hstage htodo =>
      have hquiet : (s.builds j.id).IsQuiet := by
        have hrelies := hr.current j todo htodo
        rw [hstage] at hrelies
        exact hrelies
      split_ifs with hremoved
      · refine stepOk_current h hp ((h.build j.id).ok.of_quiet hquiet (hqueued j todo htodo)
          false) rfl (hmark j.id) id (.of_quiet hquiet rfl rfl id) ?_
        intro builds hb hrow hq
        exact hr.settle htodo hrow hq (hq j.id hquiet)
      · exact stepOk_stage h hp _ (fun _ _ _ => trivial) fun hearly => by
          rcases hearly with hearly | ⟨_, hearly⟩ <;> cases hearly
    · exact .refl h
  | commit ok =>
    rw [World.reconcile]
    split
    -- Nothing is left to do, and the rows are written together.
    · next hstage htodo =>
      split_ifs
      · exact stepOk_flush h hp (fun _ _ => nofun) (fun _ => nofun)
          (fun j hj => hr.loaded j (List.mem_append_left _ hj))
          (fun j hj => hr.notQueued j (List.mem_append_left _ hj)) fun j hj => .inl (hr.quiet j hj)
      · exact hgone
    -- The current build cannot be settled, and is written off as failed with those that are done.
    · next j todo hstage htodo =>
      have hmem : j ∈ r.done ++ r.todo := List.mem_append_right _ (htodo ▸ List.mem_cons_self ..)
      have hcases : ∀ k ∈ r.done ++ [{ j with now := j.now.failed }],
          k ∈ r.done ∨ k = { j with now := j.now.failed } := fun k hk =>
        (List.mem_append.mp hk).imp id List.mem_singleton.mp
      split_ifs
      · refine stepOk_flush h hp (fun _ _ => nofun) (fun _ => nofun) (fun k hk => ?_)
          (fun k hk => ?_) fun k hk => ?_
        · rcases hcases k hk with hk | rfl
          · exact hr.loaded k (List.mem_append_left _ hk)
          · exact hr.loaded j hmem
        · rcases hcases k hk with hk | rfl
          · exact hr.notQueued k (List.mem_append_left _ hk)
          · exact hr.notQueued j hmem
        · rcases hcases k hk with hk | rfl
          · exact .inl (hr.quiet k hk)
          · exact .inr (congrArg Row.failed (hr.fresh j (htodo ▸ List.mem_cons_self ..)))
      · exact hgone
    · exact .refl h
  | _ => exact .refl h

/-! ### Runs -/

/-- **Every step that is allowed** keeps the invariant and changes builds as they may be. -/
theorem stepOk_step (h : Invariant s) (hallowed : Allowed s e) : StepOk s (s.step e) := by
  cases e with
  | submit => exact ⟨⟨fun id => (h.build id).frame rfl fun _ _ => Iff.rfl, fun p r hp =>
      have hr := h.reconciles p r hp
      ⟨hr.alone, hr.loaded, hr.notQueued, hr.distinct, hr.fresh, hr.quiet, hr.current, hr.early⟩⟩,
      fun _ => .refl _⟩
  -- What the builder does by itself changes no row and no process.
  | mark id =>
    rw [World.step]
    split_ifs with hmark
    · exact stepOk_builder h (hmark ▸ nofun) rfl rfl rfl rfl nofun
    · exact .refl h
  | guest id =>
    rw [World.step]
    split_ifs with hmark
    · exact stepOk_builder h (hmark ▸ nofun) rfl rfl rfl rfl (hmark ▸ nofun)
    · exact .refl h
  | exits id =>
    rw [World.step]
    split_ifs with hmark
    · exact stepOk_builder h (hmark ▸ nofun) rfl rfl rfl rfl nofun
    · exact .refl h
  | proc p m =>
    unfold World.step
    dsimp only
    split
    · next hp =>
      split_ifs with hstart
      · subst hstart
        refine stepOk_setProc h (fun _ _ hw => ?_) (fun _ _ => nofun) (fun q r _ hq => ?_)
          fun _ => nofun
        · rw [hp] at hw
          cases hw
        · have hnone := hallowed q
          rw [hq] at hnone
          cases hnone
      · exact .refl h
    · exact .refl h
    · next hp => exact stepOk_work h hp m
    · next hp => exact stepOk_reconcile h hp m
    -- An idle process dies, takes a build, or begins to reconcile.
    · next hp =>
      have hold : ∀ id st, s.procs p ≠ .working id st := fun _ _ hw => by
        rw [hp] at hw
        cases hw
      have hothers : ∀ q r, q ≠ p → s.procs q ≠ .reconciling r := fun q r hqp hq =>
        hqp (h.eq_of_alive hq (hp ▸ rfl)).symm
      split
      · exact stepOk_setProc h hold (fun _ _ => nofun) hothers fun _ => nofun
      · exact stepOk_claim h hp
      · refine stepOk_setProc h hold (fun _ _ => nofun) hothers fun r hr => ?_
        obtain rfl := Proc.reconciling.inj hr
        exact h.interrupted hallowed
      · exact .refl h

theorem invariant_start : Invariant {} where
  build := fun _ => ⟨⟨fun _ => rfl, Nat.zero_le 1, Nat.zero_le 1, fun _ => rfl, nofun,
    fun hquiet => absurd ⟨rfl, rfl⟩ hquiet⟩, nofun, nofun⟩
  reconciles := nofun

theorem run_concat {events : List Event} : run (events ++ [e]) = (run events).step e := by
  rw [run, List.foldl_append]
  rfl

/-- The invariant holds after every run. -/
theorem invariant_run {events : List Event}
    (h : Throughout (fun before e => Allowed (run before) e) events) : Invariant (run events) := by
  induction events using List.reverseRecOn with
  | nil => exact invariant_start
  | append_singleton events e ih =>
    obtain ⟨hbefore, he⟩ := throughout_concat.mp h
    rw [run_concat]
    exact (stepOk_step (ih hbefore) he).invariant

/-- A build that is complete stays so. -/
theorem complete_run {before after : List Event}
    (h : Throughout (fun before e => Allowed (run before) e) (before ++ after))
    (hcomplete : ((run before).builds id).row.status = .complete) :
    ((run (before ++ after)).builds id).row.status = .complete := by
  induction after using List.reverseRecOn with
  | nil => rwa [List.append_nil]
  | append_singleton after e ih =>
    rw [← List.append_assoc] at h ⊢
    obtain ⟨hbefore, he⟩ := throughout_concat.mp h
    rw [run_concat]
    exact ((stepOk_step (invariant_run hbefore) he).change id).complete (ih hbefore)

/-- **Builds are safe** in every run in which no other worker is alive while one reconciles: a
build is claimed once and its output is committed once, a guest that may still exist keeps its
tree and a row that does not say it is cleaned up, a complete build stays complete, and every
step changes every build as it may be changed. -/
theorem builds_safe {events : List Event}
    (h : Throughout (fun before e => Allowed (run before) e) events) :
    (∀ id, ((run events).builds id).claims.length ≤ 1 ∧
      ((run events).builds id).outputs.length ≤ 1 ∧
      (((run events).builds id).hasGuest = true → ((run events).builds id).hasTree = true ∧
        ((run events).builds id).row.Unsettled)) ∧
    (∀ before after id, events = before ++ after →
      ((run before).builds id).row.status = .complete →
      ((run events).builds id).row.status = .complete) ∧
    Throughout (fun before e => ∀ id,
      SafeChange ((run before).builds id) (((run before).step e).builds id)) events := by
  refine ⟨fun id => ?_, ?_, ?_⟩
  · have hok := ((invariant_run h).build id).ok
    refine ⟨hok.claims, hok.outputs, fun hguest => hok.kept fun hquiet => ?_⟩
    rw [hquiet.2] at hguest
    cases hguest
  · rintro before after id rfl hcomplete
    exact complete_run h hcomplete
  · intro before e after heq
    have hbefore : Throughout (fun before e => Allowed (run before) e) before := by
      intro early a late heq'
      refine h early a (late ++ e :: after) ?_
      rw [heq, heq', List.append_assoc, List.cons_append]
    exact (stepOk_step (invariant_run hbefore) (h before e after heq)).change

/-- An event that is always allowed. -/
def Event.isOrdinary : Event → Bool
  | .proc _ .reconcile | .proc _ .start => false
  | _ => true

theorem allowed_of_isOrdinary {s : World} (he : e.isOrdinary = true) : Allowed s e := by
  cases e with
  | proc p m =>
    cases m with
    | reconcile => cases he
    | start => cases he
    | _ => trivial
  | _ => trivial

/-- Events that are always allowed may follow. -/
theorem throughout_allowed_append {events more : List Event}
    (h : Throughout (fun before e => Allowed (run before) e) events)
    (hmore : more.all Event.isOrdinary = true) :
    Throughout (fun before e => Allowed (run before) e) (events ++ more) := by
  induction more using List.reverseRecOn with
  | nil => rwa [List.append_nil]
  | append_singleton more e ih =>
    rw [List.all_append, Bool.and_eq_true] at hmore
    rw [← List.append_assoc]
    refine throughout_concat.mpr ⟨ih hmore.1, allowed_of_isOrdinary ?_⟩
    exact List.all_eq_true.mp hmore.2 e (List.mem_singleton_self e)

/-- A worker has published the output of a build, and dies before it has cleaned up. -/
def publishedAndDied : List Event :=
  [.submit, .submit] ++ [.proc 1 .start] ++
    [.proc 1 (.claim 0), .proc 1 (.mkdir true), .proc 1 (.prepare true), .proc 1 (.spawn true),
      .mark 0, .guest 0, .proc 1 (.runReturns "sha256:00"), .proc 1 (.publish .committed),
      .proc 1 .die]

/-- Another one has started and cleaned up, and has claimed the next build, and the guest of this
one runs. -/
def restarted : List Event :=
  publishedAndDied ++ [.proc 2 .start] ++ [.proc 2 .reconcile] ++
    [.proc 2 .list, .proc 2 .look, .proc 2 .look, .proc 2 .look, .proc 2 (.stop .done),
      .proc 2 (.cleanup .done), .proc 2 (.remove true), .proc 2 (.commit true),
      .proc 2 (.claim 1), .proc 2 (.mkdir true), .proc 2 (.prepare true), .proc 2 (.spawn true),
      .mark 1, .guest 1]

theorem allowed_restarted :
    Throughout (fun before e => Allowed (run before) e) restarted := by
  refine throughout_allowed_append (throughout_concat.mpr ⟨throughout_concat.mpr
    ⟨throughout_allowed_append (throughout_concat.mpr
      ⟨throughout_allowed_append throughout_nil rfl, fun _ => rfl⟩) rfl, ?_⟩, ?_⟩) rfl
  · -- The worker that died does not reconcile.
    rintro (_ | _ | q)
    · rfl
    · rfl
    · rfl
  · -- It is not alive either.
    rintro (_ | _ | _ | q) hq
    · rfl
    · rfl
    · exact absurd rfl hq
    · rfl

/-- The build that was published stays complete though its guest was left behind, and the guest of
the next one keeps its tree and its row. -/
theorem builds_safe_restarted : ((run restarted).builds 0).row.status = .complete ∧
    ((run restarted).builds 0).hasGuest = false ∧ ((run restarted).builds 1).hasGuest = true ∧
    ((run restarted).builds 1).hasTree = true ∧ ((run restarted).builds 1).row.Unsettled := by
  have hsafe := builds_safe allowed_restarted
  have hpublished : ((run publishedAndDied).builds 0).row.status = .complete := by decide
  have hgone : ((run restarted).builds 0).hasGuest = false := by decide
  have hguest : ((run restarted).builds 1).hasGuest = true := by decide
  have hcomplete : ((run restarted).builds 0).row.status = .complete := by
    have hafter : publishedAndDied <+: restarted :=
      (List.prefix_append _ _).trans ((List.prefix_append _ _).trans (List.prefix_append _ _))
    obtain ⟨after, hafter⟩ := hafter
    exact hsafe.2.1 publishedAndDied after 0 hafter.symm hpublished
  exact ⟨hcomplete, hgone, hguest, (hsafe.1 1).2.2 hguest⟩

/-- A worker has made its output, and another process that reconciles has cleaned up behind
it. -/
def reconciledBehind : List Event :=
  [.submit, .proc 1 .start, .proc 2 .start, .proc 1 (.claim 0), .proc 1 (.mkdir true),
    .proc 1 (.prepare true), .proc 1 (.spawn true), .mark 0, .proc 1 (.runReturns "sha256:00"),
    .proc 2 .reconcile, .proc 2 .list, .proc 2 .look, .proc 2 .look, .proc 2 .look,
    .proc 2 (.stop .done), .proc 2 (.cleanup .done), .proc 2 (.remove true)]

/-- **A complete build does not stay complete** when a process reconciles while another one
publishes: it writes the row as it has read it before. -/
theorem complete_lost :
    ((run (reconciledBehind ++ [.proc 1 (.publish .committed)])).builds 0).row.status = .complete ∧
      ((run (reconciledBehind ++ [.proc 1 (.publish .committed), .proc 2 (.commit true)])).builds
        0).row.status = .error := by
  decide

end Palimpsest.Hub.Builds
