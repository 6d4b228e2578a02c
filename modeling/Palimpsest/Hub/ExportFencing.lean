import Palimpsest.Hub.ImageExport
import Palimpsest.Lib.Since
import Palimpsest.Lib.Throughout

/-!
# Leases of image export jobs

A worker writes the row of a job only while the last that happened to the job is that this worker
took it (`Palimpsest.Hub.Export.Holds`). The invariant of a row is stated on the row and on the
record of the changes (`Palimpsest.Hub.Export.RowOk`); a change of one row leaves the invariant
of all others alone (`Palimpsest.Hub.Export.RowOk.frame`), so that every transaction only has to
account for the row that it writes.

That a project has one job at a time is checked where a requester writes its row, against the
rows that it has locked, but not where it comes back after the table refused the insertion; what
has to be true of the interleaving for it is `Palimpsest.Hub.Export.Undisturbed`.
-/

namespace Palimpsest.Hub.Export

/-! ### What a record says -/

/-- The job that a change is about. -/
def Change.target : Change → String
  | .inserted id | .reused id .. | .requeued id | .claimed _ id | .exhausted id | .updated _ id
  | .published _ id _ | .completed _ id .. | .failed _ id | .deleted id => id

/-- A change that takes the job `id` away from whoever has it. -/
def Change.takes (id : String) : Change → Prop
  | .requeued j | .claimed _ j | .exhausted j | .deleted j => j = id
  | _ => False

/-- The worker took the job, and nobody took it away since. -/
def Holds (owner id : String) (log : List Change) : Prop :=
  Since (· = .claimed owner id) (Change.takes id) log

/-- How often the job was claimed since it was last put into the queue. -/
def Change.count (id : String) (n : ℕ) : Change → ℕ
  | .inserted j | .reused j .. | .requeued j => if j = id then 0 else n
  | .claimed _ j => if j = id then n + 1 else n
  | _ => n

def claimCount (id : String) (log : List Change) : ℕ := log.foldl (Change.count id) 0

/-- A worker completed a job for the artifact with the digest. -/
def Made (key digest : String) (log : List Change) : Prop :=
  ∃ owner id, .completed owner id key digest ∈ log

/-- Where the result of a complete job comes from: the worker that completed it, or a job for the
same artifact that a worker completed. -/
def Produced (id key digest : String) (log : List Change) : Prop :=
  (∃ owner, Since (· = .completed owner id key digest) (· = .requeued id) log) ∨
    Since (· = .reused id key digest) (· = .requeued id) log ∧ Made key digest log

/-- What has to have happened before a change. -/
def Recorded (before : List Change) : Change → Prop
  | .updated owner id | .failed owner id => Holds owner id before
  | .completed owner id _ digest =>
    Holds owner id before ∧
      Since (· = .published owner id digest) (fun c => ∃ j, c = .claimed owner j) before
  | .reused _ key digest => Made key digest before
  | .claimed _ id => claimCount id before < 3
  | _ => True

variable {log : List Change} {c : Change} {id owner key digest : String}

theorem claimCount_concat :
    claimCount id (log ++ [c]) = c.count id (claimCount id log) := by
  simp [claimCount]

theorem holds_concat (hc : ¬c.takes id) (h : Holds owner id log) : Holds owner id (log ++ [c]) :=
  since_concat.mpr (.inr ⟨h, hc⟩)

theorem Made.concat (h : Made key digest log) (c : Change) : Made key digest (log ++ [c]) := by
  obtain ⟨owner, id, hmem⟩ := h
  exact ⟨owner, id, List.mem_append_left _ hmem⟩

theorem Produced.made (h : Produced id key digest log) : Made key digest log := by
  rcases h with ⟨owner, hsince⟩ | ⟨-, hmade⟩
  · obtain ⟨c, hmem, rfl⟩ := hsince.exists_mem
    exact ⟨owner, id, hmem⟩
  · exact hmade

theorem Produced.concat (h : Produced id key digest log) (hc : c ≠ .requeued id) :
    Produced id key digest (log ++ [c]) := by
  rcases h with ⟨owner, hsince⟩ | ⟨hsince, hmade⟩
  · exact .inl ⟨owner, since_concat.mpr (.inr ⟨hsince, hc⟩)⟩
  · exact .inr ⟨since_concat.mpr (.inr ⟨hsince, hc⟩), hmade.concat c⟩

/-- Every claim is the third one at most. -/
theorem claimCount_le (h : Throughout Recorded log) (id : String) : claimCount id log ≤ 3 := by
  induction log using List.reverseRecOn with
  | nil => exact Nat.zero_le _
  | append_singleton log c ih =>
    obtain ⟨hlog, hc⟩ := throughout_concat.mp h
    have hle := ih hlog
    rw [claimCount_concat]
    cases c with
    | claimed owner j =>
      rw [Change.count]
      split
      · next hj =>
        have hlt : claimCount j log < 3 := hc
        rw [hj] at hlt
        omega
      · exact hle
    | inserted | reused | requeued =>
      rw [Change.count]
      split
      · exact Nat.zero_le _
      · exact hle
    | _ => exact hle

/-! ### Rows -/

/-- The invariant of a row. -/
structure RowOk (log : List Change) (row : ExportRow) : Prop where
  terminal : row.status.isTerminal → row.leaseOwner = none
  holder : ∀ owner ∈ row.leaseOwner, row.deletedAt = none → Holds owner row.id log
  attempts : row.attempts = claimCount row.id log
  result : row.status = .complete →
    ∃ digest ∈ row.resultBlobDigest, Produced row.id row.artifactKey digest log

/-- **A change of another row, or one that takes nothing, leaves the invariant of a row.** -/
theorem RowOk.frame {row : ExportRow} (h : RowOk log row) (htakes : ¬c.takes row.id)
    (hcount : ∀ n, c.count row.id n = n) : RowOk (log ++ [c]) row where
  terminal := h.terminal
  holder := fun owner howner hdeleted => holds_concat htakes (h.holder owner howner hdeleted)
  attempts := by rw [claimCount_concat, hcount, h.attempts]
  result := fun hcomplete => by
    obtain ⟨digest, hdigest, hproduced⟩ := h.result hcomplete
    refine ⟨digest, hdigest, hproduced.concat ?_⟩
    rintro rfl
    exact htakes rfl

theorem not_takes_of_target (h : c.target ≠ id) : ¬c.takes id := by
  cases c <;> simp_all [Change.target, Change.takes]

theorem count_of_target (h : c.target ≠ id) (n : ℕ) : c.count id n = n := by
  cases c <;> simp_all [Change.target, Change.count]

/-! ### States -/

/-- What a requester may reuse was made by a worker. -/
def RequesterOk (log : List Change) : Requester → Prop
  | .prepared p | .writing p _ =>
    ∀ digest ∈ p.validGlobalDigest, Made p.request.artifactKey digest log
  | _ => True

/-- What a worker published, it published since it took its job. -/
def TaskOk (log : List Change) (owner : String) (task : Task) : Prop :=
  ∀ b ∈ task.published,
    Since (· = .published owner task.job b.1) (fun c => ∃ j, c = .claimed owner j) log

/-- The invariant of a run. -/
structure Fenced (s : State) : Prop where
  nodup : (s.rows.map (·.id)).Nodup
  rows : ∀ row ∈ s.rows, RowOk s.log row
  requesters : ∀ r, RequesterOk s.log (s.requesters r)
  tasks : ∀ owner, ∀ task ∈ s.tasks owner, TaskOk s.log owner task
  log : Throughout Recorded s.log

theorem fenced_init : Fenced .init where
  nodup := List.nodup_nil
  rows := fun _ hrow => absurd hrow List.not_mem_nil
  requesters := fun _ => trivial
  tasks := fun _ _ htask => by cases htask
  log := throughout_nil

variable {s : State}

theorem RequesterOk.concat {x : Requester} (h : RequesterOk log x) (c : Change) :
    RequesterOk (log ++ [c]) x := by
  cases x with
  | prepared p | writing p locked => exact fun digest hdigest => (h digest hdigest).concat c
  | _ => trivial

theorem TaskOk.concat {task : Task} (h : TaskOk log owner task)
    (hc : ∀ j, c ≠ .claimed owner j) : TaskOk (log ++ [c]) owner task :=
  fun b hb => since_concat.mpr (.inr ⟨h b hb, fun ⟨j, hj⟩ => hc j hj⟩)

theorem Fenced.mem_row (h : Fenced s) {row : ExportRow} :
    s.row id = some row ↔ row ∈ s.rows ∧ row.id = id := by
  constructor
  · intro hrow
    exact ⟨List.mem_of_find?_eq_some hrow, by simpa using List.find?_some hrow⟩
  · rintro ⟨hmem, rfl⟩
    cases hfind : s.row row.id with
    | none => exact absurd (List.find?_eq_none.mp hfind row hmem) (by simp)
    | some other =>
      have hid : other.id = row.id := by simpa using List.find?_some hfind
      have hother := List.mem_of_find?_eq_some hfind
      rw [List.inj_on_of_nodup_map h.nodup hother hmem hid]

theorem Fenced.setRequester (h : Fenced s) (r : ℕ) {x : Requester} (hx : RequesterOk s.log x) :
    Fenced (s.setRequester r x) := by
  refine ⟨h.nodup, h.rows, fun r' => ?_, h.tasks, h.log⟩
  rw [State.setRequester]
  dsimp only
  rcases eq_or_ne r' r with rfl | hne
  · rwa [Function.update_self]
  · rw [Function.update_of_ne hne]
    exact h.requesters r'

theorem Fenced.setTask (h : Fenced s) (owner : String) {t : Option Task}
    (ht : ∀ task ∈ t, TaskOk s.log owner task) : Fenced (s.setTask owner t) := by
  refine ⟨h.nodup, h.rows, h.requesters, fun owner' task htask => ?_, h.log⟩
  rw [State.setTask] at htask
  dsimp only at htask
  rcases eq_or_ne owner' owner with rfl | hne
  · rw [Function.update_self] at htask
    exact ht task htask
  · rw [Function.update_of_ne hne] at htask
    exact h.tasks owner' task htask

theorem Fenced.release (h : Fenced s) (r : ℕ) : Fenced (s.release r) :=
  ⟨h.nodup, h.rows, h.requesters, h.tasks, h.log⟩

/-- **A transaction that writes one row keeps the invariant**, if it keeps that of the row. -/
theorem Fenced.modify (h : Fenced s) {f : ExportRow → ExportRow} {c : Change}
    (hid : ∀ row, (f row).id = row.id) (htarget : c.target = id) (hrecorded : Recorded s.log c)
    (htask : ∀ owner j, c = .claimed owner j → s.tasks owner = none)
    (hrow : ∀ row, s.row id = some row → RowOk (s.log ++ [c]) (f row)) :
    Fenced (s.modify id f c) where
  nodup := by
    have hmap : (s.modify id f c).rows.map (·.id) = s.rows.map (·.id) := by
      rw [State.modify, List.map_map]
      refine List.map_congr_left fun row _ => ?_
      rw [Function.comp_apply]
      split
      · exact hid row
      · rfl
    rw [hmap]
    exact h.nodup
  rows := fun row hmem => by
    obtain ⟨old, hold, rfl⟩ := List.mem_map.mp hmem
    split
    · next heq => exact hrow old (h.mem_row.mpr ⟨hold, heq⟩)
    · next hne =>
      have hother : c.target ≠ old.id := fun heq => hne (heq.symm.trans htarget)
      exact (h.rows old hold).frame (not_takes_of_target hother) (count_of_target hother)
  requesters := fun r => (h.requesters r).concat c
  tasks := fun owner task hmem => by
    refine (h.tasks owner task hmem).concat fun j hj => ?_
    rw [State.modify, htask owner j hj] at hmem
    cases hmem
  log := throughout_concat.mpr ⟨h.log, hrecorded⟩

/-- A transaction that adds a row keeps the invariant. -/
theorem Fenced.insert (h : Fenced s) {row : ExportRow} {c : Change}
    (hfresh : ∀ old ∈ s.rows, old.id ≠ row.id) (htarget : c.target = row.id)
    (hrecorded : Recorded s.log c) (hclaim : ∀ owner j, c ≠ .claimed owner j)
    (hrow : RowOk (s.log ++ [c]) row) : Fenced (s.insert row c) where
  nodup := by
    rw [State.insert, List.map_append]
    refine List.Nodup.append h.nodup (List.nodup_singleton _) fun j hj hrow => ?_
    obtain ⟨old, hold, rfl⟩ := List.mem_map.mp hj
    exact hfresh old hold (List.mem_singleton.mp hrow)
  rows := fun new hmem => by
    rcases List.mem_append.mp hmem with hold | hnew
    · have hother : c.target ≠ new.id := htarget ▸ (hfresh new hold).symm
      exact (h.rows new hold).frame (not_takes_of_target hother) (count_of_target hother)
    · rwa [List.mem_singleton.mp hnew]
  requesters := fun r => (h.requesters r).concat c
  tasks := fun owner task hmem => (h.tasks owner task hmem).concat fun j => hclaim owner j
  log := throughout_concat.mpr ⟨h.log, hrecorded⟩

/-! ### What is written to a row -/

section

variable {row : ExportRow} {now : Time}

theorem requeue_ok (log : List Change) (row : ExportRow) (q : Request) (now : Time) :
    RowOk (log ++ [.requeued row.id]) (row.requeue q now) where
  terminal := fun hterminal => by cases hterminal
  holder := fun owner howner => by cases howner
  attempts := by
    rw [claimCount_concat]
    simp [Change.count, ExportRow.requeue]
  result := fun hcomplete => by cases hcomplete

theorem queued_ok (log : List Change) (q : Request) (id : String) (now : Time) :
    RowOk (log ++ [.inserted id]) (.queued q id now) where
  terminal := fun hterminal => by cases hterminal
  holder := fun owner howner => by cases howner
  attempts := by
    rw [claimCount_concat]
    simp [Change.count, ExportRow.queued]
  result := fun hcomplete => by cases hcomplete

theorem reused_ok (q : Request) (id : String) (size : ℕ) (now : Time)
    (h : Made q.artifactKey digest log) :
    RowOk (log ++ [.reused id q.artifactKey digest]) (.reused q id digest size now) where
  terminal := fun _ => rfl
  holder := fun owner howner => by cases howner
  attempts := by
    rw [claimCount_concat]
    simp [Change.count, ExportRow.reused, ExportRow.queued]
  result := fun _ => ⟨digest, rfl, .inr ⟨since_concat.mpr (.inl rfl), h.concat _⟩⟩

theorem RowOk.claimed (h : RowOk log row) (owner : String) (now : Time) :
    RowOk (log ++ [.claimed owner row.id]) (row.claimed owner now) where
  terminal := fun hterminal => by cases hterminal
  holder := fun owner' howner _ => by
    obtain rfl := Option.some.inj howner
    exact since_concat.mpr (.inl rfl)
  attempts := by
    rw [claimCount_concat]
    simp [Change.count, ExportRow.claimed, h.attempts]
  result := fun hcomplete => by cases hcomplete

theorem RowOk.exhausted (h : RowOk log row) (now : Time) :
    RowOk (log ++ [.exhausted row.id]) (row.exhausted now) where
  terminal := fun _ => rfl
  holder := fun owner howner => by cases howner
  attempts := by
    rw [claimCount_concat]
    exact h.attempts
  result := fun hcomplete => by cases hcomplete

theorem RowOk.softDeleted (h : RowOk log row) (now : Time) :
    RowOk (log ++ [.deleted row.id]) (row.softDeleted now) where
  terminal := h.terminal
  holder := fun owner _ hdeleted => by cases hdeleted
  attempts := by
    rw [claimCount_concat]
    exact h.attempts
  result := fun hcomplete => by
    obtain ⟨digest, hdigest, hproduced⟩ := h.result hcomplete
    exact ⟨digest, hdigest, hproduced.concat (by simp)⟩

/-- A job that a worker has is not at its end. -/
theorem RowOk.not_terminal (h : RowOk log row) (howner : row.leaseOwner = some owner) :
    row.status.isTerminal = false := by
  cases hterminal : row.status.isTerminal with
  | false => rfl
  | true =>
    rw [h.terminal hterminal] at howner
    cases howner

/-- An update that keeps the lease. -/
theorem RowOk.updated (h : RowOk log row) (howner : row.leaseOwner = some owner) {v : Values}
    (hlease : v.clearLease = false) (hstatus : ∀ status ∈ v.status, status.isTerminal = false)
    (now : Time) : RowOk (log ++ [.updated owner row.id]) (v.apply now row) := by
  have hnot : (v.apply now row).status.isTerminal = false := by
    rw [Values.apply]
    cases hs : v.status with
    | none => exact h.not_terminal howner
    | some status => exact hstatus status hs
  refine ⟨fun hterminal => ?_, fun owner' howner' hdeleted => ?_, ?_, fun hcomplete => ?_⟩
  · rw [hnot] at hterminal
    cases hterminal
  · simp only [Values.apply, hlease] at howner' hdeleted ⊢
    exact holds_concat (fun htakes => htakes) (h.holder owner' howner' hdeleted)
  · rw [claimCount_concat]
    exact h.attempts
  · rw [hcomplete] at hnot
    cases hnot

theorem RowOk.completed (h : RowOk log row) (owner digest : String) (size : ℕ) (now : Time) :
    RowOk (log ++ [.completed owner row.id row.artifactKey digest])
      ((Values.complete digest size now).apply now row) where
  terminal := fun _ => rfl
  holder := fun owner' howner => by cases howner
  attempts := by
    rw [claimCount_concat]
    exact h.attempts
  result := fun _ => ⟨digest, rfl, .inl ⟨owner, since_concat.mpr (.inl rfl)⟩⟩

theorem RowOk.failed (h : RowOk log row) (owner code message : String) (now : Time) :
    RowOk (log ++ [.failed owner row.id]) ((Values.failed code message).apply now row) where
  terminal := fun _ => rfl
  holder := fun owner' howner => by cases howner
  attempts := by
    rw [claimCount_concat]
    exact h.attempts
  result := fun hcomplete => by cases hcomplete

end

/-! ### Steps -/

/-- An update of a worker keeps the invariant, if it keeps that of the row that the worker
has. -/
theorem Fenced.update (h : Fenced s) {now : Time} {v : Values} {c : Task → ExportRow → Change}
    (hc : ∀ task ∈ s.tasks owner, ∀ row, s.row task.job = some row → row.leaseOwner = some owner →
      Holds owner task.job s.log → (c task row).target = task.job ∧ Recorded s.log (c task row) ∧
        (∀ other j, c task row ≠ .claimed other j) ∧
          RowOk (s.log ++ [c task row]) (v.apply now row)) :
    Fenced (s.update owner now v c) := by
  rw [State.update]
  split
  · exact h
  next task htask =>
  split
  · exact h
  next row hrow =>
  split
  · next hheld =>
    simp only [Bool.and_eq_true, decide_eq_true_eq, Option.isNone_iff_eq_none] at hheld
    obtain ⟨hmem, hid⟩ := h.mem_row.mp hrow
    have hholds := (h.rows row hmem).holder owner hheld.1.1 hheld.1.2
    rw [hid] at hholds
    obtain ⟨htarget, hrecorded, hclaim, hok⟩ := hc task htask row hrow hheld.1.1 hholds
    refine h.modify (fun _ => rfl) htarget hrecorded (fun other j hj => ?_) fun row' hrow' => ?_
    · exact absurd hj (hclaim other j)
    · obtain rfl := Option.some.inj (hrow.symm.trans hrow')
      exact hok
  · exact h

/-- An update of a worker that keeps the lease keeps the invariant. -/
theorem Fenced.updated (h : Fenced s) {now : Time} {v : Values} (hlease : v.clearLease = false)
    (hstatus : ∀ status ∈ v.status, status.isTerminal = false) :
    Fenced (s.update owner now v fun task _ => .updated owner task.job) := by
  refine h.update fun task _ row hrow howner hholds => ?_
  obtain ⟨hmem, hid⟩ := h.mem_row.mp hrow
  refine ⟨rfl, hholds, fun _ _ => by simp, ?_⟩
  rw [← hid]
  exact (h.rows row hmem).updated howner hlease hstatus now

/-- What a requester reads before its transaction. -/
theorem Fenced.preflight (h : Fenced s) (q : Request) (pick : ℕ) (isPresent : Bool) (size : ℕ) :
    RequesterOk s.log (.prepared (preflight s.rows q pick isPresent size)) := by
  intro digest hdigest
  rw [Export.preflight] at hdigest ⊢
  split at hdigest
  · cases hdigest
  · obtain ⟨row, hrow, hresult⟩ := Option.bind_eq_some_iff.mp hdigest
    have hmem := List.mem_filter.mp (List.mem_of_getElem? hrow)
    simp only [Bool.and_eq_true, decide_eq_true_eq] at hmem
    obtain ⟨hrow, ⟨⟨hkey, -⟩, hcomplete⟩, -⟩ := hmem
    obtain ⟨digest', hdigest', hproduced⟩ := (h.rows row hrow).result hcomplete
    obtain rfl := Option.some.inj (hresult.symm.trans hdigest')
    have hmade := hproduced.made
    rwa [hkey] at hmade

/-- A transaction of a requester keeps the invariant. -/
theorem Fenced.commit (h : Fenced s) {r : ℕ} {p : Preflight} {locked : List String}
    (hr : s.requesters r = .writing p locked) (id : String) (now : Time) :
    Fenced (s.commit r p locked id now) := by
  have hidle : Fenced ((s.release r).setRequester r .idle) := (h.release r).setRequester r trivial
  have hraced : Fenced ((s.release r).setRequester r (.raced p.request)) :=
    (h.release r).setRequester r trivial
  have hreuse : RequesterOk s.log (.writing p locked) := hr ▸ h.requesters r
  have hfresh : ¬(s.rows.any fun row => row.id = id || row.isFor p.request) →
      ∀ old ∈ s.rows, old.id ≠ id := by
    intro hnot old hold heq
    exact hnot (List.any_eq_true.mpr ⟨old, hold, by simp [heq]⟩)
  rw [State.commit]
  split
  · exact hidle
  · exact hidle
  · next j hdecision =>
    refine hidle.modify (fun _ => rfl) rfl trivial (fun _ _ hc => by cases hc) fun row hrow => ?_
    obtain ⟨-, rfl⟩ := hidle.mem_row.mp hrow
    exact requeue_ok s.log row p.request now
  · next digest size hdecision =>
    split
    · exact hraced
    next hnot =>
    -- A digest is reused only where the preflight has found it in the store.
    have hmade : Made p.request.artifactKey digest s.log := by
      refine hreuse digest ?_
      rw [writeTransaction] at hdecision
      split at hdecision
      · cases hdecision
      split at hdecision
      · split at hdecision <;> cases hdecision
      split at hdecision
      · next heq =>
        split at hdecision
        · obtain ⟨rfl, -⟩ := Decision.reuse.inj hdecision
          exact heq
        · cases hdecision
      · cases hdecision
    exact hidle.insert (hfresh hnot) rfl hmade (fun _ _ hc => by cases hc)
      (reused_ok p.request id size now hmade)
  · split
    · exact hraced
    next hnot =>
    exact hidle.insert (hfresh hnot) rfl trivial (fun _ _ hc => by cases hc)
      (queued_ok s.log p.request id now)

/-- **Every event keeps the invariant.** -/
theorem Fenced.step (h : Fenced s) (e : Event) : Fenced (s.step e) := by
  cases e with
  | preflight r q pick isPresent size =>
    simp only [State.step]
    split
    · exact h.setRequester r (h.preflight q pick isPresent size)
    · exact h
  | begin r =>
    simp only [State.step]
    split
    · next p hp =>
      split
      · exact h
      · have hok : RequesterOk s.log (.prepared p) := hp ▸ h.requesters r
        have hset := h.setRequester r (x := .writing p
          ((s.rows.filter (·.projectId = p.request.projectId)).map (·.id))) hok
        exact ⟨hset.nodup, hset.rows, hset.requesters, hset.tasks, hset.log⟩
    · exact h
  -- The only event that adds a row.
  | commit r id now =>
    simp only [State.step]
    split
    · next hr => exact h.commit hr id now
    · exact h
  | rollback r =>
    simp only [State.step]
    split
    · next p locked hr =>
      have hok : RequesterOk s.log (.writing p locked) := hr ▸ h.requesters r
      exact (h.release r).setRequester r hok
    · exact h
  | raceRead r isPresent =>
    simp only [State.step]
    split
    · split
      · exact h.setRequester r trivial
      · exact h.setRequester r trivial
    · exact h
  | recover r now =>
    simp only [State.step]
    split
    · next q raceDigest racePresent hr =>
      split
      · exact h.setRequester r trivial
      next target htarget =>
      split
      · exact h
      split
      · have hidle := h.setRequester r (x := .idle) trivial
        refine hidle.modify (fun _ => rfl) rfl trivial (fun _ _ hc => by cases hc)
          fun row hrow => ?_
        obtain ⟨-, rfl⟩ := hidle.mem_row.mp hrow
        exact requeue_ok s.log row q now
      · exact h.setRequester r trivial
    · exact h
  | abandon r => exact (h.release r).setRequester r trivial
  | softDelete projectId id now =>
    simp only [State.step]
    split
    · exact h
    split
    · refine h.modify (fun _ => rfl) rfl trivial (fun _ _ hc => by cases hc) fun row hrow => ?_
      obtain ⟨hmem, rfl⟩ := h.mem_row.mp hrow
      exact (h.rows row hmem).softDeleted now
    · exact h
  | claim owner id now =>
    simp only [State.step]
    split
    · next row htask hrow =>
      obtain ⟨hmem, rfl⟩ := h.mem_row.mp hrow
      split
      · split
        · refine h.modify (fun _ => rfl) rfl trivial (fun _ _ hc => by cases hc)
            fun row' hrow' => ?_
          obtain rfl := Option.some.inj (hrow.symm.trans hrow')
          exact (h.rows row hmem).exhausted now
        -- The job is taken: the log has fewer than three claims since it was put into the queue.
        next hattempts =>
        have hrecorded : Recorded s.log (.claimed owner row.id) := by
          change claimCount row.id s.log < 3
          rw [← (h.rows row hmem).attempts]
          exact Nat.not_le.mp hattempts
        have hclaimed : Fenced (s.modify row.id (·.claimed owner now) (.claimed owner row.id)) := by
          refine h.modify (fun _ => rfl) rfl hrecorded (fun owner' j hc => ?_) fun row' hrow' => ?_
          · obtain ⟨rfl, -⟩ := Change.claimed.inj hc
            exact htask
          · obtain rfl := Option.some.inj (hrow.symm.trans hrow')
            exact (h.rows row hmem).claimed owner now
        refine hclaimed.setTask owner fun task ht => ?_
        obtain rfl := Option.some.inj ht
        exact fun b hb => by cases hb
      · exact h
    · exact h
  | heartbeat owner now => exact h.updated rfl fun _ hs => by cases hs
  | converting owner now => exact h.updated rfl fun _ hs => Option.some.inj hs ▸ rfl
  | finalizing owner now => exact h.updated rfl fun _ hs => Option.some.inj hs ▸ rfl
  | check owner now =>
    simp only [State.step]
    split
    · exact h
    next task htask =>
    split
    · refine h.setTask owner fun t ht => ?_
      obtain rfl := Option.some.inj ht
      exact h.tasks owner task htask
    · exact h
  | publish owner digest size =>
    simp only [State.step]
    split
    · exact h
    next task htask =>
    split
    -- The digest is in the log before a row names it.
    · have hlog : Fenced { s with log := s.log ++ [.published owner task.job digest] } := by
        refine ⟨h.nodup, fun row hrow => ?_, fun r => (h.requesters r).concat _,
          fun owner' t ht => ?_, throughout_concat.mpr ⟨h.log, trivial⟩⟩
        · exact (h.rows row hrow).frame (fun htakes => htakes) fun _ => rfl
        · exact (h.tasks owner' t ht).concat fun j hj => by cases hj
      refine hlog.setTask owner fun t ht => ?_
      obtain rfl := Option.some.inj ht
      rintro b hb
      obtain rfl := Option.some.inj hb
      exact since_concat.mpr (.inl rfl)
    · exact h
  | complete owner now =>
    simp only [State.step]
    split
    · exact h
    next digest size hpublished =>
    obtain ⟨task, htask, hpublished⟩ := Option.bind_eq_some_iff.mp hpublished
    refine h.update fun task' htask' row hrow howner hholds => ?_
    obtain rfl := Option.some.inj (htask.symm.trans htask')
    obtain ⟨hmem, hid⟩ := h.mem_row.mp hrow
    refine ⟨rfl, ⟨hholds, h.tasks owner task htask _ hpublished⟩, fun _ _ => by simp, ?_⟩
    rw [← hid]
    exact (h.rows row hmem).completed owner digest size now
  | fail owner code message now =>
    refine h.update fun task _ row hrow howner hholds => ?_
    obtain ⟨hmem, hid⟩ := h.mem_row.mp hrow
    refine ⟨rfl, hholds, fun _ _ => by simp, ?_⟩
    rw [← hid]
    exact (h.rows row hmem).failed owner code message now
  | finish owner => exact h.setTask owner fun _ ht => by cases ht

theorem Fenced.run (h : Fenced s) (events : List Event) : Fenced (s.run events) := by
  induction events generalizing s with
  | nil => exact h
  | cons e events ih => exact ih (h.step e)

/-! ### Who changes a row -/

/-- The worker that an event belongs to, after its claim. -/
def Event.worker : Event → Option String
  | .heartbeat owner _ | .converting owner _ | .finalizing owner _ | .check owner _
  | .publish owner .. | .complete owner _ | .fail owner .. | .finish owner => some owner
  | _ => none

theorem row_modify {f : ExportRow → ExportRow} (hid : ∀ row, (f row).id = row.id) (j id : String)
    (c : Change) :
    (s.modify j f c).row id = (s.row id).map fun row => if row.id = j then f row else row := by
  have hkept : ((fun row : ExportRow => decide (row.id = id)) ∘
      fun row => if row.id = j then f row else row) = fun row => decide (row.id = id) := by
    funext row
    rw [Function.comp_apply]
    split
    · rw [hid]
    · rfl
  rw [State.row, State.modify, List.find?_map, hkept]
  rfl

theorem row_modify_of_ne {f : ExportRow → ExportRow} (hid : ∀ row, (f row).id = row.id) {j : String}
    (hne : id ≠ j) (c : Change) : (s.modify j f c).row id = s.row id := by
  rw [row_modify hid]
  cases hrow : s.row id with
  | none => rfl
  | some row =>
    have heq : row.id = id := by simpa using List.find?_some hrow
    rw [Option.map_some, if_neg (heq ▸ hne)]

theorem row_insert {row : ExportRow} (hrow : s.row id = some row) (new : ExportRow) (c : Change) :
    (s.insert new c).row id = some row := by
  rw [State.row, State.insert, List.find?_append, show s.rows.find? _ = some row from hrow]
  rfl

theorem Fenced.holds_of_update (h : Fenced s) {now : Time} {v : Values}
    {c : Task → ExportRow → Change} (hne : (s.update owner now v c).row id ≠ s.row id) :
    Holds owner id s.log := by
  rw [State.update] at hne
  split at hne
  · exact absurd rfl hne
  next task htask =>
  split at hne
  · exact absurd rfl hne
  next row hrow =>
  split at hne
  · next hheld =>
    simp only [Bool.and_eq_true, decide_eq_true_eq, Option.isNone_iff_eq_none] at hheld
    obtain ⟨hmem, hid⟩ := h.mem_row.mp hrow
    rcases eq_or_ne id task.job with rfl | hother
    · have hholds := (h.rows row hmem).holder owner hheld.1.1 hheld.1.2
      rwa [hid] at hholds
    · exact absurd (row_modify_of_ne (by intro; rfl) hother _) hne
  · exact absurd rfl hne

/-- **A worker changes a row only while it has the job.** -/
theorem Fenced.holds_of_worker (h : Fenced s) {e : Event} (he : e.worker = some owner)
    (hne : (s.step e).row id ≠ s.row id) : Holds owner id s.log := by
  cases e with
  | heartbeat | converting | finalizing | fail =>
    obtain rfl := Option.some.inj he
    exact h.holds_of_update hne
  | complete =>
    obtain rfl := Option.some.inj he
    simp only [State.step] at hne
    split at hne
    · exact absurd rfl hne
    · exact h.holds_of_update hne
  | check =>
    simp only [State.step] at hne
    split at hne
    · exact absurd rfl hne
    · split at hne <;> exact absurd rfl hne
  | publish =>
    simp only [State.step] at hne
    split at hne
    · exact absurd rfl hne
    · split at hne <;> exact absurd rfl hne
  | finish => exact absurd rfl hne
  | _ => cases he

/-- The job stays as it is, or the event puts it back into the queue or deletes it. -/
def Stays (s t : State) (id : String) (row : ExportRow) : Prop :=
  t.row id = some row ∨ t.log = s.log ++ [.requeued id] ∨ t.log = s.log ++ [.deleted id]

theorem stays_modify {t : State} {row : ExportRow} (hrow : t.row id = some row)
    (hlog : t.log = s.log) {f : ExportRow → ExportRow} {j : String} {c : Change}
    (hid : ∀ row, (f row).id = row.id) (h : id = j → c = .requeued id ∨ c = .deleted id) :
    Stays s (t.modify j f c) id row := by
  rcases eq_or_ne id j with heq | hne
  · rw [Stays, State.modify, hlog]
    refine .inr ?_
    rcases h heq with rfl | rfl
    · exact .inl rfl
    · exact .inr rfl
  · exact .inl ((row_modify_of_ne hid hne c).trans hrow)

theorem Fenced.stays_update (h : Fenced s) {row : ExportRow} (hrow : s.row id = some row)
    (hterminal : row.status.isTerminal) (now : Time) (v : Values) (c : Task → ExportRow → Change) :
    Stays s (s.update owner now v c) id row := by
  rw [State.update]
  split
  · exact .inl hrow
  next task htask =>
  split
  · exact .inl hrow
  next row' hrow' =>
  split
  · next hheld =>
    refine stays_modify hrow rfl (by intro; rfl) fun heq => ?_
    -- nobody has a job that is at its end
    subst heq
    obtain rfl := Option.some.inj (hrow.symm.trans hrow')
    simp only [Bool.and_eq_true, decide_eq_true_eq] at hheld
    have hnot := (h.rows row (h.mem_row.mp hrow).1).not_terminal hheld.1.1
    rw [hterminal] at hnot
    cases hnot
  · exact .inl hrow

theorem not_terminal_of_isDue {row : ExportRow} {now : Time} (h : row.isDue now) :
    row.isActive := by
  simp only [ExportRow.isDue, Bool.and_eq_true, Bool.or_eq_true, decide_eq_true_eq,
    Bool.not_eq_true'] at h
  rw [ExportRow.isActive, h.1, Bool.true_and]
  rcases h.2 with ⟨hqueued, -⟩ | ⟨hnot, -⟩
  · rw [hqueued]
    rfl
  · rw [hnot]
    rfl

/-- **A job that is at its end changes only when it is put back into the queue or deleted.** -/
theorem Fenced.stays (h : Fenced s) {row : ExportRow} (hrow : s.row id = some row)
    (hterminal : row.status.isTerminal) (e : Event) : Stays s (s.step e) id row := by
  cases e with
  | preflight => simp only [State.step]; split <;> exact .inl hrow
  | begin =>
    simp only [State.step]
    split
    · split <;> exact .inl hrow
    · exact .inl hrow
  | commit r id' now =>
    simp only [State.step]
    split
    · rw [State.commit]
      split
      · exact .inl hrow
      · exact .inl hrow
      · exact stays_modify hrow rfl (by intro; rfl) fun heq => .inl (heq ▸ rfl)
      · split
        · exact .inl hrow
        · exact .inl (row_insert (s := (s.release r).setRequester r .idle) hrow _ _)
      · split
        · exact .inl hrow
        · exact .inl (row_insert (s := (s.release r).setRequester r .idle) hrow _ _)
    · exact .inl hrow
  | rollback => simp only [State.step]; split <;> exact .inl hrow
  | raceRead =>
    simp only [State.step]
    split
    · split <;> exact .inl hrow
    · exact .inl hrow
  | recover r now =>
    simp only [State.step]
    split
    · split
      · exact .inl hrow
      split
      · exact .inl hrow
      split
      · exact stays_modify hrow rfl (by intro; rfl) fun heq => .inl (heq ▸ rfl)
      · exact .inl hrow
    · exact .inl hrow
  | abandon => exact .inl hrow
  | softDelete projectId id' now =>
    simp only [State.step]
    split
    · exact .inl hrow
    split
    · exact stays_modify hrow rfl (by intro; rfl) fun heq => .inr (heq ▸ rfl)
    · exact .inl hrow
  | claim owner id' now =>
    simp only [State.step]
    split
    · next row' _ hrow' =>
      split
      · next hdue =>
        -- A job that can be claimed is active, so it is another one.
        have hother : id ≠ id' := by
          rintro rfl
          obtain rfl := Option.some.inj (hrow.symm.trans hrow')
          simp only [Bool.and_eq_true] at hdue
          have hactive := not_terminal_of_isDue hdue.1.1
          rw [ExportRow.isActive, hterminal] at hactive
          simp at hactive
        split
        · exact stays_modify hrow rfl (by intro; rfl) fun heq => absurd heq hother
        · exact stays_modify hrow rfl (by intro; rfl) fun heq => absurd heq hother
      · exact .inl hrow
    · exact .inl hrow
  | heartbeat => exact h.stays_update hrow hterminal _ _ _
  | converting => exact h.stays_update hrow hterminal _ _ _
  | finalizing => exact h.stays_update hrow hterminal _ _ _
  | check =>
    simp only [State.step]
    split
    · exact .inl hrow
    · split <;> exact .inl hrow
  | publish =>
    simp only [State.step]
    split
    · exact .inl hrow
    · split <;> exact .inl hrow
  | complete =>
    simp only [State.step]
    split
    · exact .inl hrow
    · exact h.stays_update hrow hterminal _ _ _
  | fail => exact h.stays_update hrow hterminal _ _ _
  | finish => exact .inl hrow

/-! ### One job of a project at a time -/

/-- No project has two jobs that are not deleted and not at their end. -/
def SingleActive (s : State) : Prop :=
  ∀ a ∈ s.rows, ∀ b ∈ s.rows, a.isActive → b.isActive → a.projectId = b.projectId → a.id = b.id

/-- The job of the artifact among those that a transaction has locked. -/
def State.ownJob (s : State) (p : Preflight) (locked : List String) : Option ExportRow :=
  (s.seen p locked).find? (·.isFor p.request)

/-- The requester found the result of another project in place. -/
def Preflight.reuses (p : Preflight) : Bool := p.validGlobalDigest.isSome && p.isPresent

/-- A transaction has nothing to put into the queue: its own job can stay as it is, or it has none
and reuses the result of another project, or the table has no room for another row. -/
def State.NothingToQueue (s : State) (p : Preflight) (locked : List String) (id : String) : Prop :=
  (∃ same ∈ s.ownJob p locked,
      same.isKept p.validSameDigest (p.validSameDigest.isSome && p.isPresent)) ∨
    s.ownJob p locked = none ∧
      (p.reuses ∨ ∃ row ∈ s.rows, row.id = id ∨ row.isFor p.request)

/-- Nobody came in between. A transaction that may put a job into the queue has locked every active
job of its project when it began; a requester that comes back after a refused insertion has to
wait, or finds its job active, or complete with the result in place, or no active job of the
project. -/
def Undisturbed (s : State) : Event → Prop
  | .commit r id _ => ∀ p locked, s.requesters r = .writing p locked →
      (∀ row ∈ s.rows, row.projectId = p.request.projectId → row.isActive → row.id ∈ locked) ∨
        s.NothingToQueue p locked id
  | .recover r _ => ∀ q raceDigest racePresent target,
      s.requesters r = .recovering q raceDigest racePresent →
      s.rows.find? (·.isFor q) = some target →
      s.isLocked target.id ∨ target.isActive ∨ target.isKept raceDigest racePresent ∨
        ∀ row ∈ s.rows, row.projectId = q.projectId → ¬row.isActive
  | _ => True

/-- Every active job was one before. -/
def NoneAdded (s t : State) : Prop :=
  ∀ row ∈ t.rows, row.isActive →
    ∃ old ∈ s.rows, old.id = row.id ∧ old.projectId = row.projectId ∧ old.isActive

theorem noneAdded_of_rows {t : State} (h : t.rows = s.rows) : NoneAdded s t :=
  fun row hrow hactive => ⟨row, h ▸ hrow, rfl, rfl, hactive⟩

theorem NoneAdded.single {t : State} (h : NoneAdded s t) (hs : SingleActive s) :
    SingleActive t := by
  intro a ha b hb hactive hactive' hproject
  obtain ⟨a', ha', hid, hp, hact⟩ := h a ha hactive
  obtain ⟨b', hb', hid', hp', hact'⟩ := h b hb hactive'
  have hsame := hs a' ha' b' hb' hact hact' (hp.trans (hproject.trans hp'.symm))
  rw [← hid, ← hid', hsame]

theorem noneAdded_modify {t : State} (ht : t.rows = s.rows) {f : ExportRow → ExportRow} {j : String}
    {c : Change} (hid : ∀ row, (f row).id = row.id) (hp : ∀ row, (f row).projectId = row.projectId)
    (h : ∀ row ∈ s.rows, row.id = j → (f row).isActive → row.isActive) :
    NoneAdded s (t.modify j f c) := by
  intro row hmem hactive
  obtain ⟨old, hold, rfl⟩ := List.mem_map.mp hmem
  rw [ht] at hold
  refine ⟨old, hold, ?_⟩
  split at hactive
  · next heq =>
    rw [if_pos heq]
    exact ⟨(hid old).symm, (hp old).symm, h old hold heq hactive⟩
  · next hne =>
    rw [if_neg hne]
    exact ⟨rfl, rfl, hactive⟩

theorem Fenced.noneAdded_update (h : Fenced s) (now : Time) (v : Values)
    (c : Task → ExportRow → Change) : NoneAdded s (s.update owner now v c) := by
  rw [State.update]
  split
  · exact noneAdded_of_rows rfl
  next task htask =>
  split
  · exact noneAdded_of_rows rfl
  next row hrow =>
  split
  · next hheld =>
    refine noneAdded_modify rfl (by intro; rfl) (by intro; rfl) fun row' hrow' heq _ => ?_
    obtain rfl := Option.some.inj (hrow.symm.trans (h.mem_row.mpr ⟨hrow', heq⟩))
    simp only [Bool.and_eq_true, decide_eq_true_eq] at hheld
    have hnot := (h.rows row hrow').not_terminal hheld.1.1
    rw [ExportRow.isActive, hheld.1.2, hnot]
    rfl
  · exact noneAdded_of_rows rfl

/-- **What the transaction of a requester decides.** An active job that it sees is refused. -/
theorem writeTransaction_cases (p : Preflight) (seen : List ExportRow) :
    (∃ row ∈ seen, row.isActive) ∧ writeTransaction p seen = .conflict ∨
      (∀ row ∈ seen, ¬row.isActive) ∧
        ((∃ same, seen.find? (·.isFor p.request) = some same ∧
            same.isKept p.validSameDigest (p.validSameDigest.isSome && p.isPresent) ∧
            writeTransaction p seen = .keep) ∨
          (∃ same, seen.find? (·.isFor p.request) = some same ∧
            ¬same.isKept p.validSameDigest (p.validSameDigest.isSome && p.isPresent) ∧
            writeTransaction p seen = .requeue same.id) ∨
          seen.find? (·.isFor p.request) = none ∧
            ((p.reuses ∧ ∃ digest size, writeTransaction p seen = .reuse digest size) ∨
              ¬p.reuses ∧ writeTransaction p seen = .insert)) := by
  rw [writeTransaction]
  by_cases hactive : seen.any (·.isActive)
  · rw [if_pos hactive]
    exact .inl ⟨List.any_eq_true.mp hactive, rfl⟩
  · rw [if_neg hactive]
    refine .inr ⟨fun row hrow hcon => hactive (List.any_eq_true.mpr ⟨row, hrow, hcon⟩), ?_⟩
    -- No job is active: the row of this artifact is kept or queued again, or a row is added.
    cases hsame : seen.find? (·.isFor p.request) with
    | some same =>
      by_cases hkept : same.isKept p.validSameDigest (p.validSameDigest.isSome && p.isPresent)
      · exact .inl ⟨same, rfl, hkept, if_pos hkept⟩
      · exact .inr (.inl ⟨same, rfl, hkept, if_neg hkept⟩)
    | none =>
      refine .inr (.inr ⟨rfl, ?_⟩)
      cases hdigest : p.validGlobalDigest with
      | none => exact .inr ⟨by rw [Preflight.reuses, hdigest]; exact Bool.false_ne_true, rfl⟩
      | some digest =>
        by_cases hpresent : p.isPresent
        · exact .inl ⟨by rw [Preflight.reuses, hdigest]; exact hpresent, digest,
            p.globalResultSize, if_pos hpresent⟩
        · exact .inr ⟨by rw [Preflight.reuses, hdigest]; exact hpresent, if_neg hpresent⟩

/-- A job that goes back into the queue is the only one of its project if and only if no other one
is active. -/
theorem Fenced.single_requeue (h : Fenced s) (hs : SingleActive s) {t : State}
    (ht : t.rows = s.rows) {target : ExportRow} (htarget : target ∈ s.rows) {q : Request}
    (hfor : target.isFor q) (hnot : ¬target.isActive) (now : Time) (c : Change) :
    SingleActive (t.modify target.id (·.requeue q now) c) ↔
      ∀ row ∈ s.rows, row.projectId = q.projectId → ¬row.isActive := by
  simp only [ExportRow.isFor, Bool.and_eq_true, decide_eq_true_eq] at hfor
  have hrows : (t.modify target.id (·.requeue q now) c).rows =
      s.rows.map fun row => if row.id = target.id then row.requeue q now else row := by
    rw [State.modify, ht]
  have hunique : ∀ row ∈ s.rows, row.id = target.id → row = target := fun row hrow heq =>
    Option.some.inj ((h.mem_row.mpr ⟨hrow, heq⟩).symm.trans (h.mem_row.mpr ⟨htarget, rfl⟩))
  constructor
  · intro hsingle row hrow hproject hactive
    -- the other job would be active beside the one in the queue
    have hne : row.id ≠ target.id := fun heq => hnot (hunique row hrow heq ▸ hactive)
    refine hne (hsingle row ?_ (target.requeue q now) ?_ hactive rfl (hproject.trans hfor.1.symm))
    · rw [hrows]
      exact List.mem_map.mpr ⟨row, hrow, if_neg hne⟩
    · rw [hrows]
      exact List.mem_map.mpr ⟨target, htarget, if_pos rfl⟩
  · intro hnone a ha b hb hactive hactive' hproject
    rw [hrows] at ha hb
    obtain ⟨a', ha', rfl⟩ := List.mem_map.mp ha
    obtain ⟨b', hb', rfl⟩ := List.mem_map.mp hb
    by_cases heq : a'.id = target.id
    · rw [if_pos heq] at hactive hproject ⊢
      by_cases heq' : b'.id = target.id
      · rw [if_pos heq']
        exact heq.trans heq'.symm
      · rw [if_neg heq'] at hactive' hproject
        have hp : a'.projectId = q.projectId := hunique a' ha' heq ▸ hfor.1
        exact absurd hactive' (hnone b' hb' (hproject.symm.trans hp))
    · rw [if_neg heq] at hactive hproject ⊢
      by_cases heq' : b'.id = target.id
      · rw [if_pos heq'] at hproject
        have hp : b'.projectId = q.projectId := hunique b' hb' heq' ▸ hfor.1
        exact absurd hactive (hnone a' ha' (hproject.trans hp))
      · rw [if_neg heq'] at hactive' hproject ⊢
        exact hs a' ha' b' hb' hactive hactive' hproject

/-- A new job in the queue is the only one of its project if and only if no other one is
active. -/
theorem single_insert (hs : SingleActive s) {t : State} (ht : t.rows = s.rows) {q : Request}
    {id : String} (hfresh : ∀ old ∈ s.rows, old.id ≠ id) (now : Time) (c : Change) :
    SingleActive (t.insert (.queued q id now) c) ↔
      ∀ row ∈ s.rows, row.projectId = q.projectId → ¬row.isActive := by
  have hrows : (t.insert (.queued q id now) c).rows = s.rows ++ [.queued q id now] := by
    rw [State.insert, ht]
  rw [SingleActive, hrows]
  constructor
  · intro hsingle row hrow hproject hactive
    refine hfresh row hrow (hsingle row (List.mem_append_left _ hrow) (.queued q id now) ?_ hactive
      rfl hproject)
    exact List.mem_append_right _ (List.mem_singleton_self _)
  · intro hnone a ha b hb hactive hactive' hproject
    rcases List.mem_append.mp ha with ha | ha
    · rcases List.mem_append.mp hb with hb | hb
      · exact hs a ha b hb hactive hactive' hproject
      · rw [List.mem_singleton.mp hb] at hproject
        exact absurd hactive (hnone a ha hproject)
    · rw [List.mem_singleton.mp ha] at hproject ⊢
      rcases List.mem_append.mp hb with hb | hb
      · exact absurd hactive' (hnone b hb hproject.symm)
      · rw [List.mem_singleton.mp hb]

/-- A transaction that has something to put into the queue, and sees no active job, does so beside
an active job if and only if it has not locked that one. -/
theorem seesActive_iff {p : Preflight} {locked : List String}
    (hnone : ∀ row ∈ s.seen p locked, ¬row.isActive) :
    (∀ row ∈ s.rows, row.projectId = p.request.projectId → ¬row.isActive) ↔
      ∀ row ∈ s.rows, row.projectId = p.request.projectId → row.isActive → row.id ∈ locked := by
  constructor
  · exact fun h row hrow hproject hactive => absurd hactive (h row hrow hproject)
  · intro h row hrow hproject hactive
    refine hnone row ?_ hactive
    rw [State.seen, List.mem_filter, Bool.and_eq_true, decide_eq_true_eq, decide_eq_true_eq]
    exact ⟨hrow, hproject, h row hrow hproject hactive⟩

theorem undisturbed_commit {r : ℕ} {p : Preflight} {locked : List String}
    (hr : s.requesters r = .writing p locked) (id : String) (now : Time) :
    Undisturbed s (.commit r id now) ↔
      (∀ row ∈ s.rows, row.projectId = p.request.projectId → row.isActive → row.id ∈ locked) ∨
        s.NothingToQueue p locked id := by
  constructor
  · exact fun h => h p locked hr
  · intro h p' locked' hr'
    obtain ⟨rfl, rfl⟩ := Requester.writing.inj (hr.symm.trans hr')
    exact h

theorem Fenced.single_commit (h : Fenced s) (hs : SingleActive s) {r : ℕ} {p : Preflight}
    {locked : List String} (hr : s.requesters r = .writing p locked) (id : String) (now : Time) :
    SingleActive (s.commit r p locked id now) ↔ Undisturbed s (.commit r id now) := by
  rw [undisturbed_commit hr, State.commit]
  rcases writeTransaction_cases p (s.seen p locked) with ⟨⟨active, hseen, hactive⟩, hdecision⟩ |
    ⟨hnone, ⟨same, hsame, hkept, hdecision⟩ | ⟨same, hsame, hkept, hdecision⟩ |
      ⟨hsame, ⟨hreuses, digest, size, hdecision⟩ | ⟨hreuses, hdecision⟩⟩⟩
  · -- the active job is the only one, so it is the one that is locked
    rw [hdecision]
    refine iff_of_true ((noneAdded_of_rows rfl).single hs) (.inl fun row hrow hproject hact => ?_)
    rw [State.seen, List.mem_filter, Bool.and_eq_true, decide_eq_true_eq, decide_eq_true_eq]
      at hseen
    rw [hs row hrow active hseen.1 hact hactive (hproject.trans hseen.2.1.symm)]
    exact hseen.2.2
  -- Its own job stays as it is: nothing is queued.
  · rw [hdecision]
    exact iff_of_true ((noneAdded_of_rows rfl).single hs) (.inr (.inl ⟨same, hsame, hkept⟩))
  -- Its own job is queued again: fine if and only if no active row was left unlocked.
  · rw [hdecision]
    have hmem := List.mem_of_find?_eq_some hsame
    have hnothing : ¬s.NothingToQueue p locked id := by
      rintro (⟨other, hother, hkept'⟩ | ⟨hother, -⟩)
      · obtain rfl := Option.some.inj (hsame.symm.trans hother)
        exact hkept hkept'
      · cases hsame.symm.trans hother
    rw [or_iff_left hnothing, ← seesActive_iff hnone]
    exact h.single_requeue hs rfl (List.mem_filter.mp hmem).1 (by simpa using List.find?_some hsame)
      (hnone same hmem) now (.requeued same.id)
  -- The row that is inserted is complete already.
  · rw [hdecision]
    refine iff_of_true ?_ (.inr (.inr ⟨hsame, .inl hreuses⟩))
    dsimp only
    split
    · exact (noneAdded_of_rows rfl).single hs
    · refine NoneAdded.single (fun row hrow hactive => ?_) hs
      rcases List.mem_append.mp hrow with hrow | hrow
      · exact ⟨row, hrow, rfl, rfl, hactive⟩
      · rw [List.mem_singleton.mp hrow] at hactive
        cases hactive
  · rw [hdecision]
    dsimp only
    split
    · next htaken =>
      obtain ⟨row, hrow, hother⟩ := List.any_eq_true.mp htaken
      refine iff_of_true ((noneAdded_of_rows rfl).single hs)
        (.inr (.inr ⟨hsame, .inr ⟨row, hrow, by simpa using hother⟩⟩))
    -- A new job is queued, under the same condition.
    · next htaken =>
      have hroom : ¬∃ row ∈ s.rows, row.id = id ∨ row.isFor p.request := by
        rintro ⟨row, hrow, hother⟩
        exact htaken (List.any_eq_true.mpr ⟨row, hrow, by simpa using hother⟩)
      have hnothing : ¬s.NothingToQueue p locked id := by
        rintro (⟨other, hother, -⟩ | ⟨-, hreuse | hother⟩)
        · cases hsame.symm.trans hother
        · exact hreuses hreuse
        · exact hroom hother
      rw [or_iff_left hnothing, ← seesActive_iff hnone]
      exact single_insert hs rfl (fun old hold heq => hroom ⟨old, hold, .inl heq⟩) now
        (.inserted id)

/-- **Coming back after a refused insertion.** -/
theorem Fenced.single_recover (h : Fenced s) (hs : SingleActive s) (r : ℕ) (now : Time) :
    SingleActive (s.step (.recover r now)) ↔ Undisturbed s (.recover r now) := by
  cases hr : s.requesters r with
  | recovering q raceDigest racePresent =>
    cases hfind : s.rows.find? (·.isFor q) with
    | none =>
      simp only [State.step, hr, hfind]
      refine iff_of_true ((noneAdded_of_rows rfl).single hs)
        fun q' d' present' target hr' hfind' => ?_
      obtain ⟨rfl, rfl, rfl⟩ := Requester.recovering.inj (hr.symm.trans hr')
      cases hfind.symm.trans hfind'
    | some target =>
      -- The requester and its target are those of this state, so the condition is about them.
      have hundisturbed : Undisturbed s (.recover r now) ↔ s.isLocked target.id ∨
          target.isActive ∨ target.isKept raceDigest racePresent ∨
            ∀ row ∈ s.rows, row.projectId = q.projectId → ¬row.isActive := by
        constructor
        · exact fun hall => hall q raceDigest racePresent target hr hfind
        · intro hall q' d' present' target' hr' hfind'
          obtain ⟨rfl, rfl, rfl⟩ := Requester.recovering.inj (hr.symm.trans hr')
          obtain rfl := Option.some.inj (hfind.symm.trans hfind')
          exact hall
      rw [hundisturbed]
      simp only [State.step, hr, hfind]
      split
      · next hlocked => exact iff_of_true ((noneAdded_of_rows rfl).single hs) (.inl hlocked)
      next hlocked =>
      rw [recoverTransaction]
      by_cases hkept : target.isKept raceDigest racePresent
      · rw [if_pos hkept]
        exact iff_of_true ((noneAdded_of_rows rfl).single hs) (.inr (.inr (.inl hkept)))
      by_cases hactive : target.isActive
      · rw [if_neg hkept, if_pos hactive]
        exact iff_of_true ((noneAdded_of_rows rfl).single hs) (.inr (.inl hactive))
      rw [if_neg hkept, if_neg hactive, or_iff_right hlocked, or_iff_right hactive,
        or_iff_right hkept]
      exact h.single_requeue hs rfl (List.mem_of_find?_eq_some hfind)
        (by simpa using List.find?_some hfind) hactive now (.requeued target.id)
  | _ =>
    simp only [State.step, hr]
    refine iff_of_true ((noneAdded_of_rows rfl).single hs) fun q d present target hr' => ?_
    cases hr.symm.trans hr'

/-- **One more event keeps one job of a project at a time, if and only if nobody came in
between.** -/
theorem Fenced.single_step (h : Fenced s) (hs : SingleActive s) (e : Event) :
    SingleActive (s.step e) ↔ Undisturbed s e := by
  have hquiet : ∀ {t : State}, NoneAdded s t → Undisturbed s e →
      (SingleActive t ↔ Undisturbed s e) := fun hadded hundisturbed =>
    iff_of_true (hadded.single hs) hundisturbed
  cases e with
  | preflight =>
    simp only [State.step]
    split <;> exact hquiet (noneAdded_of_rows rfl) trivial
  | begin =>
    simp only [State.step]
    split
    · split <;> exact hquiet (noneAdded_of_rows rfl) trivial
    · exact hquiet (noneAdded_of_rows rfl) trivial
  -- Only this event and the recovery can make a job active.
  | commit r id now =>
    simp only [State.step]
    split
    · next hr => exact h.single_commit hs hr id now
    · next hr =>
      exact hquiet (noneAdded_of_rows rfl) fun p locked hwriting => absurd hwriting (hr p locked)
  | rollback =>
    simp only [State.step]
    split <;> exact hquiet (noneAdded_of_rows rfl) trivial
  | raceRead =>
    simp only [State.step]
    split
    · split <;> exact hquiet (noneAdded_of_rows rfl) trivial
    · exact hquiet (noneAdded_of_rows rfl) trivial
  | recover r now => exact h.single_recover hs r now
  | abandon => exact hquiet (noneAdded_of_rows rfl) trivial
  | softDelete =>
    simp only [State.step]
    split
    · exact hquiet (noneAdded_of_rows rfl) trivial
    split
    · refine hquiet (noneAdded_modify rfl (by intro; rfl) (by intro; rfl) ?_) trivial
      intro row _ _ hactive
      cases hactive
    · exact hquiet (noneAdded_of_rows rfl) trivial
  | claim owner id now =>
    simp only [State.step]
    split
    · next row _ hrow =>
      split
      · next hdue =>
        simp only [Bool.and_eq_true] at hdue
        have hactive := not_terminal_of_isDue hdue.1.1
        -- A job that is claimed was active before.
        have hold : ∀ row' ∈ s.rows, row'.id = id → row'.isActive := by
          intro row' hrow' heq
          obtain rfl := Option.some.inj (hrow.symm.trans (h.mem_row.mpr ⟨hrow', heq⟩))
          exact hactive
        split
        · exact hquiet (noneAdded_modify rfl (by intro; rfl) (by intro; rfl)
            fun row' hrow' heq _ => hold row' hrow' heq) trivial
        · have hadded : NoneAdded s (s.modify id (·.claimed owner now) (.claimed owner id)) :=
            noneAdded_modify rfl (by intro; rfl) (by intro; rfl)
              fun row' hrow' heq _ => hold row' hrow' heq
          exact hquiet hadded trivial
      · exact hquiet (noneAdded_of_rows rfl) trivial
    · exact hquiet (noneAdded_of_rows rfl) trivial
  | heartbeat => exact hquiet (h.noneAdded_update _ _ _) trivial
  | converting => exact hquiet (h.noneAdded_update _ _ _) trivial
  | finalizing => exact hquiet (h.noneAdded_update _ _ _) trivial
  | check =>
    simp only [State.step]
    split
    · exact hquiet (noneAdded_of_rows rfl) trivial
    · split <;> exact hquiet (noneAdded_of_rows rfl) trivial
  | publish =>
    simp only [State.step]
    split
    · exact hquiet (noneAdded_of_rows rfl) trivial
    · split <;> exact hquiet (noneAdded_of_rows rfl) trivial
  | complete =>
    simp only [State.step]
    split
    · exact hquiet (noneAdded_of_rows rfl) trivial
    · exact hquiet (h.noneAdded_update _ _ _) trivial
  | fail => exact hquiet (h.noneAdded_update _ _ _) trivial
  | finish => exact hquiet (noneAdded_of_rows rfl) trivial

theorem Fenced.single_run (h : Fenced s) (hs : SingleActive s) {events : List Event}
    (hundisturbed : Throughout (fun before e => Undisturbed (s.run before) e) events) :
    SingleActive (s.run events) := by
  induction events using List.reverseRecOn with
  | nil => exact hs
  | append_singleton events e ih =>
    obtain ⟨hbefore, he⟩ := throughout_concat.mp hundisturbed
    rw [State.run, List.foldl_append]
    exact ((h.run events).single_step (ih hbefore) e).mpr he

/-- **Export jobs are fenced by their leases.** In every run: a worker changes a job only while
the last that happened to it is that this worker took it; a job at its end changes only when it is
put back into the queue or deleted; the result of a complete job is what the worker that held it
published, or what a worker made for the same artifact; a job is claimed three times at most
until it is put into the queue again. A project has one job at a time as long as nobody comes in
between where the active jobs of the project are not locked, and in no case beyond. -/
theorem exports_fenced (events : List Event) :
    (∀ (e : Event) (owner id : String), e.worker = some owner →
      ((State.init.run events).step e).row id ≠ (State.init.run events).row id →
        Holds owner id (State.init.run events).log) ∧
    (∀ (e : Event) (id : String) (row : ExportRow), (State.init.run events).row id = some row →
      row.status.isTerminal →
        Stays (State.init.run events) ((State.init.run events).step e) id row) ∧
    (∀ (id : String) (row : ExportRow), (State.init.run events).row id = some row →
      row.status = .complete → ∃ digest ∈ row.resultBlobDigest,
        Produced id row.artifactKey digest (State.init.run events).log) ∧
    Throughout Recorded (State.init.run events).log ∧
    (∀ id, claimCount id (State.init.run events).log ≤ 3) ∧
    (Throughout (fun before e => Undisturbed (State.init.run before) e) events →
      SingleActive (State.init.run events) ∧
        ∀ e, SingleActive ((State.init.run events).step e) ↔
          Undisturbed (State.init.run events) e) := by
  have h := fenced_init.run events
  refine ⟨fun e owner id he hne => h.holds_of_worker he hne,
    fun e id row hrow hterminal => h.stays hrow hterminal e, fun id row hrow hcomplete => ?_,
    h.log, fun id => claimCount_le h.log id, fun hundisturbed => ?_⟩
  · obtain ⟨hmem, rfl⟩ := h.mem_row.mp hrow
    exact (h.rows row hmem).result hcomplete
  · have hsingle := fenced_init.single_run (fun a ha => absurd ha List.not_mem_nil) hundisturbed
    exact ⟨hsingle, fun e => h.single_step hsingle e⟩

/-! ### Two jobs of one project -/

def sampleSource : ImageSource := ⟨"image", "disk", "raw", 1, none, none, none, none, none⟩

def sampleRequest (key : String) : Request := ⟨"project", none, sampleSource, "f", key, "qcow2"⟩

/-- Two requesters ask for one artifact, and the table refuses the second one. The job fails, a
third requester asks for another artifact, and then the second one comes back. -/
def sampleRun : List Event :=
  [.preflight 1 (sampleRequest "a") 0 false 0, .preflight 2 (sampleRequest "a") 0 false 0,
    .begin 1, .begin 2, .commit 1 "x" 0, .commit 2 "y" 0,
    .claim "worker" "x" 1, .fail "worker" "export_failed" "failed" 2,
    .preflight 3 (sampleRequest "b") 0 false 0, .begin 3, .commit 3 "z" 3,
    .raceRead 2 false, .recover 2 4]

/-- **A requester that comes back after a refused insertion puts a job into the queue beside
another one of its project.** -/
theorem recover_beside_active : ¬SingleActive (State.init.run sampleRun) := by
  have hrows : (State.init.run sampleRun).rows =
      [(ExportRow.queued (sampleRequest "a") "x" 0 |>.claimed "worker" 1 |>
        (Values.failed "export_failed" "failed").apply 2).requeue (sampleRequest "a") 4,
        .queued (sampleRequest "b") "z" 3] := by
    decide
  intro h
  rw [SingleActive, hrows] at h
  have hid := h _ List.mem_cons_self (.queued (sampleRequest "b") "z" 3)
    (List.mem_cons_of_mem _ List.mem_cons_self) rfl rfl rfl
  exact absurd hid (by decide)

end Palimpsest.Hub.Export
