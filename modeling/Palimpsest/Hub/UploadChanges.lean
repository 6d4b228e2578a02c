import Palimpsest.Hub.UploadProtocol

/-!
# The changes that the requests of uploads make

Each of the changes, by the holder of the lock that protects what is changed, respects the other
requests (`Calls.Protocol.Respects`). Two of them reach beyond one session: the commit of the
sessions that were set to failed (`Palimpsest.Hub.Upload.respects_markedFailed`), which needs no
lock because an expired session is of no use to the holder, and the end of a request
(`Palimpsest.Hub.Upload.respects_leave`).
-/

namespace Palimpsest.Hub.Upload

open Calls

variable {h : ContentHash} {w w' : World} {i : Caller} {id : UploadId}

/-! ### Locks and contents -/

theorem isArchive_iff {digest : String} :
    w.isArchive digest ↔ ∃ r ∈ w.references, r.archiveDigest = digest := by
  rw [World.isArchive, List.any_eq_true]
  exact exists_congr fun r => and_congr_right fun _ => decide_eq_true_iff

/-- A lock is taken that is free. -/
theorem respects_acquire (hinv : Inv h w) {lock : Lock} (hfree : w.locks lock = none)
    (hissued : ∀ id, lock = .upload id → id < w.issued) :
    (protocol h).Respects i w { w with locks := Function.update w.locks lock (some i) } := by
  have hs : Same w { w with locks := Function.update w.locks lock (some i) } :=
    ⟨rfl, Nat.le_refl _, rfl, rfl, rfl, rfl, rfl, rfl, rfl, rfl⟩
  have hkept : ∀ other j, w.locks other = some j →
      Function.update w.locks lock (some i) other = some j := by
    intro other j hother
    rw [Function.update_of_ne, hother]
    rintro rfl
    rw [hfree] at hother
    cases hother
  refine ⟨hs.inv hinv (fun id j hid => ?_) (fun project j => hkept _ _) fun _ _ => rfl, hs.evolves,
    fun j _ => hs.rely (fun other => hkept _ _) fun _ _ => rfl⟩
  by_cases heq : lock = .upload id
  · exact hissued id heq
  · change Function.update w.locks lock (some i) (.upload id) = some j at hid
    rw [Function.update_of_ne (Ne.symm heq)] at hid
    exact hinv.locked id j hid

/-- The lock of a session is given back. -/
theorem respects_release (hinv : Inv h w) (hheld : w.locks (.upload id) = some i) :
    (protocol h).Respects i w
      { w with locks := Function.update w.locks (.upload id) none } := by
  have hs : Same w { w with locks := Function.update w.locks (.upload id) none } :=
    ⟨rfl, Nat.le_refl _, rfl, rfl, rfl, rfl, rfl, rfl, rfl, rfl⟩
  refine ⟨hs.inv hinv (fun j k hk => ?_) (fun project j hj => ?_) fun _ _ => rfl, hs.evolves,
    fun j hji => hs.rely (fun lock hlock => ?_) fun _ _ => rfl⟩
  · change Function.update w.locks (.upload id) none (.upload j) = some k at hk
    by_cases hj : j = id
    · rw [hj, Function.update_self] at hk
      cases hk
    · rw [Function.update_of_ne (fun heq => hj (Lock.upload.inj heq))] at hk
      exact hinv.locked j k hk
  · have hne : Lock.project project ≠ .upload id := nofun
    change Function.update w.locks (.upload id) none (.project project) = some j
    rw [Function.update_of_ne hne, hj]
  · refine (Function.update_of_ne ?_ _ _).trans hlock
    rintro rfl
    exact hji (Option.some.inj (hlock.symm.trans hheld))

/-- The content of a digest is changed under its lock. What a version refers to stays. -/
theorem respects_blob (hinv : Inv h w) {digest : String} (hheld : w.locks (.blob digest) = some i)
    {content : Option Bytes} (created : Caller → List String)
    (hcontent : ∀ r ∈ w.references, r.archiveDigest = digest → content = w.blob digest) :
    (protocol h).Respects i w
      { w with blob := Function.update w.blob digest content, created := created } := by
  have hs : Same w { w with blob := Function.update w.blob digest content, created := created } :=
    ⟨rfl, Nat.le_refl _, rfl, rfl, rfl, rfl, rfl, rfl, rfl, rfl⟩
  refine ⟨hs.inv hinv (fun id j => hinv.locked id j) (fun _ _ hlock => hlock) fun r hr => ?_,
    hs.evolves, fun j hji => hs.rely (fun _ hlock => hlock) fun other hlock => ?_⟩
  · by_cases heq : r.archiveDigest = digest
    · show Function.update w.blob digest content r.archiveDigest = _
      rw [heq, Function.update_self, hcontent r hr heq]
    · exact Function.update_of_ne heq _ _
  · refine Function.update_of_ne ?_ _ _
    rintro rfl
    exact hji (Option.some.inj (hlock.symm.trans hheld))

/-! ### Sessions that start -/

/-- The next session is drawn. -/
def World.drawn (i : Caller) (w : World) : World :=
  { w with
    issued := w.issued + 1
    creating := Function.update w.creating w.issued (some i) }

theorem activeIn_drawn (hinv : Inv h w) (project : String) :
    (w.drawn i).activeIn project = w.activeIn project := by
  have hlast : w.isActiveIn project w.issued = false := by
    rw [World.isActiveIn, (hinv.issued w.issued (Nat.le_refl _)).1]
  show (List.range (w.issued + 1)).filter (fun id => w.isActiveIn project id) = _
  rw [List.range_succ, List.filter_append, List.filter_singleton, hlast]
  exact List.append_nil _

theorem respects_newId (hinv : Inv h w) : (protocol h).Respects i w (w.drawn i) := by
  obtain ⟨hrow, hcommitted, hcreating, hannounced⟩ := hinv.issued w.issued (Nat.le_refl _)
  have hactive := activeIn_drawn (i := i) hinv
  -- No other session is being started under the new number.
  have hother : ∀ id j, w.creating id = some j →
      Function.update w.creating w.issued (some i) id = some j := by
    intro id j hid
    rw [Function.update_of_ne, hid]
    rintro rfl
    rw [hcreating] at hid
    cases hid
  have hevolves : Evolves w (w.drawn i) :=
    ⟨Nat.le_succ _, Nat.le_refl _, fun _ hid => hid,
      fun _ row hid => ⟨row, hid, .refl row, fun _ => rfl⟩, fun _ => List.prefix_rfl,
      fun _ hr => hr⟩
  refine ⟨⟨fun id row hid =>
      (hinv.rows id row hid).frame rfl rfl rfl (Nat.le_refl _) fun _ hr => hr,
    fun id hle => ?_, fun id j hlock => Nat.lt_succ_of_lt (hinv.locked id j hlock),
    hinv.marked, fun id j hid => ?_, fun id hid => ?_, fun project => ?_,
    fun r hr => (hinv.references r hr).frame rfl rfl rfl, hinv.distinct⟩, hevolves,
    fun j hji => ⟨hevolves, fun _ hlock => hlock, fun id hlock hnone => ?_, fun project _ => ?_,
      fun _ _ => rfl, rfl, fun id => ⟨fun hid => ?_, hother id j⟩, fun _ _ => ⟨rfl, rfl, rfl⟩⟩⟩
  · have hlt : w.issued < id := hle
    obtain ⟨hrow, hcommitted, hcreating, hannounced⟩ := hinv.issued id (Nat.le_of_lt hlt)
    exact ⟨hrow, hcommitted, (Function.update_of_ne (Nat.ne_of_gt hlt) _ _).trans hcreating,
      hannounced⟩
  · by_cases heq : id = w.issued
    · subst heq
      exact ⟨hannounced, hcommitted, fun row hid => by cases hrow.symm.trans hid⟩
    · exact hinv.creating id j ((Function.update_of_ne heq _ _).symm.trans hid)
  · have hne : id ≠ w.issued := by
      rintro rfl
      cases hannounced.symm.trans hid
    exact (Function.update_of_ne hne _ _).trans (hinv.announced id hid)
  · rw [hactive]
    exact hinv.active project
  · have hne : id ≠ w.issued := Nat.ne_of_lt (hinv.locked id j hlock)
    exact ⟨(Function.update_of_ne hne _ _).trans hnone, rfl, rfl, rfl, .inl rfl,
      fun hunmarked => ⟨hunmarked, rfl⟩⟩
  · rw [hactive]
  · change Function.update w.creating w.issued (some i) id = some j at hid
    by_cases heq : id = w.issued
    · rw [heq, Function.update_self] at hid
      exact absurd (Option.some.inj hid).symm hji
    · rwa [Function.update_of_ne heq] at hid

/-- The client is told the session that was started for it. -/
theorem respects_announce (hinv : Inv h w) (hmine : w.creating id = some i)
    (hissued : id < w.issued) :
    (protocol h).Respects i w
      { w with
        announced := Function.update w.announced id true
        creating := Function.update w.creating id none } := by
  have hannounced : ∀ j, w.announced j → Function.update w.announced id true j := by
    intro j hj
    by_cases heq : j = id
    · rw [heq, Function.update_self]
    · rwa [Function.update_of_ne heq]
  -- The other sessions that are being started are as they were.
  have hcreating : ∀ j k, Function.update w.creating id none j = some k →
      j ≠ id ∧ w.creating j = some k := by
    intro j k hj
    by_cases heq : j = id
    · rw [heq, Function.update_self] at hj
      cases hj
    · rw [Function.update_of_ne heq] at hj
      exact ⟨heq, hj⟩
  have hevolves : Evolves w { w with
      announced := Function.update w.announced id true
      creating := Function.update w.creating id none } :=
    ⟨Nat.le_refl _, Nat.le_refl _, hannounced,
      fun _ row hid => ⟨row, hid, .refl row, fun _ => rfl⟩, fun _ => List.prefix_rfl,
      fun _ hr => hr⟩
  refine ⟨⟨fun j row hj => (hinv.rows j row hj).frame rfl rfl rfl (Nat.le_refl _) fun _ hr => hr,
    fun j hle => ?_, hinv.locked, hinv.marked, fun j k hj => ?_, fun j hj => ?_, hinv.active,
    fun r hr => (hinv.references r hr).frame rfl rfl rfl, hinv.distinct⟩, hevolves,
    fun j hji => ⟨hevolves, fun _ hlock => hlock, fun k _ hnone => ?_,
      fun _ _ => Nat.le_refl _, fun _ _ => rfl, rfl, fun k => ⟨fun hk => (hcreating k j hk).2,
      fun hk => ?_⟩, fun _ _ => ⟨rfl, rfl, rfl⟩⟩⟩
  · have hne : j ≠ id := fun heq => absurd hissued (Nat.not_lt.mpr (heq ▸ hle))
    obtain ⟨hrow, hcommitted, hcreating, hannounced⟩ := hinv.issued j hle
    exact ⟨hrow, hcommitted, (Function.update_of_ne hne _ _).trans hcreating,
      (Function.update_of_ne hne _ _).trans hannounced⟩
  · obtain ⟨hne, hj⟩ := hcreating j k hj
    obtain ⟨hfalse, hrest⟩ := hinv.creating j k hj
    exact ⟨(Function.update_of_ne hne _ _).trans hfalse, hrest⟩
  · change Function.update w.creating id none j = none
    change Function.update w.announced id true j = true at hj
    by_cases heq : j = id
    · rw [heq, Function.update_self]
    · rw [Function.update_of_ne heq] at hj ⊢
      exact hinv.announced j hj
  · refine ⟨?_, rfl, rfl, rfl, .inl rfl, fun hunmarked => ⟨hunmarked, rfl⟩⟩
    change Function.update w.creating id none k = none
    by_cases heq : k = id
    · rw [heq, Function.update_self]
    · rw [Function.update_of_ne heq, hnone]
  · refine (Function.update_of_ne ?_ _ _).trans hk
    rintro rfl
    exact hji (Option.some.inj (hk.symm.trans hmine))

/-- A predicate that is changed at one place counts one more at most. -/
theorem countP_le_succ {α : Type} {p q : α → Bool} {a : α} {l : List α} (hl : l.Nodup)
    (h : ∀ b, b ≠ a → q b = p b) : l.countP q ≤ l.countP p + 1 := by
  induction l with
  | nil => exact Nat.zero_le _
  | cons b l ih =>
    obtain ⟨hb, hl⟩ := List.nodup_cons.mp hl
    rw [List.countP_cons, List.countP_cons]
    by_cases hba : b = a
    · have hrest : l.countP q = l.countP p :=
        List.countP_congr fun c hc => by rw [h c fun hca => hb (hba.trans hca.symm ▸ hc)]
      rw [hrest]
      split_ifs <;> omega
    · rw [h b hba]
      have := ih hl
      omega

/-- The row of a session is inserted. -/
theorem respects_insert (hinv : Inv h w) (hmine : w.creating id = some i)
    (hnone : w.row id = none) {row : PackageUpload} (hreceived : row.receivedBytes = 0)
    (hstatus : row.status = .uploading)
    (hlock : w.locks (.project row.owner.projectId) = some i)
    (hroom : (w.activeIn row.owner.projectId).length < maxActiveUploads) :
    (protocol h).Respects i w { w with row := Function.update w.row id (some row) } := by
  obtain ⟨hannounced, hcommitted, -⟩ := hinv.creating id i hmine
  have hrow : ∀ j, j ≠ id → Function.update w.row id (some row) j = w.row j :=
    fun j hj => Function.update_of_ne hj _ _
  have hsome : ∀ j row, w.row j = some row → j ≠ id := by
    rintro j row hj rfl
    rw [hnone] at hj
    cases hj
  have hissued : id < w.issued := Owns.lt_issued (.inr hmine) hinv
  -- One more session is active in its project, and none in another.
  have hactive : ∀ project, (World.activeIn { w with row := Function.update w.row id (some row) }
      project).length ≤ (w.activeIn project).length +
        if project = row.owner.projectId then 1 else 0 := by
    intro project
    rw [activeIn_length, activeIn_length]
    have hsame : ∀ j, j ≠ id →
        World.isActiveIn { w with row := Function.update w.row id (some row) } project j =
          w.isActiveIn project j := by
      intro j hj
      simp only [World.isActiveIn, hrow j hj]
    split_ifs with heq
    · exact countP_le_succ (List.nodup_range) hsame
    · refine List.countP_mono_left fun j _ hj => ?_
      by_cases hid : j = id
      · subst hid
        simp only [World.isActiveIn, Function.update_self, Bool.and_eq_true,
          decide_eq_true_eq] at hj
        exact absurd hj.1.symm heq
      · rwa [hsame j hid] at hj
  -- Nobody has seen the row, so nothing that others rely on has changed.
  have hevolves : Evolves w { w with row := Function.update w.row id (some row) } :=
    ⟨Nat.le_refl _, Nat.le_refl _, fun _ hid => hid,
      fun j old hj => ⟨old, (hrow j (hsome j old hj)).trans hj, .refl old, fun _ => rfl⟩,
      fun _ => List.prefix_rfl, fun _ hr => hr⟩
  refine ⟨⟨fun j new hj => ?_, fun j hle => ?_, hinv.locked, fun k j hj => ?_, fun j k hj => ?_,
    hinv.announced, fun project => ?_, fun r hr => ?_, hinv.distinct⟩, hevolves,
    fun j hji => ⟨hevolves, fun _ hlock => hlock, fun k hk hfree => ?_, fun project hproject => ?_,
      fun _ _ => rfl, rfl, fun _ => Iff.rfl, fun k hk => ?_⟩⟩
  · change Function.update w.row id (some row) j = some new at hj
    by_cases heq : j = id
    · subst heq
      rw [Function.update_self] at hj
      obtain rfl := Option.some.inj hj
      refine ⟨?_, ?_, ?_, ?_, ?_⟩
      · show Consecutive 0 (w.committed j)
        rw [hcommitted]
        trivial
      · show (((w.committed j).map Prod.snd).flatten).length = _
        rw [hcommitted, hreceived]
        rfl
      · intro content _
        show ((w.committed j).map Prod.snd).flatten <+: content
        rw [hcommitted]
        exact List.nil_prefix
      · intro _ _ hpos
        rw [hreceived] at hpos
        exact absurd hpos (Nat.lt_irrefl 0)
      · intro hcomplete
        rw [hstatus] at hcomplete
        cases hcomplete
    · rw [hrow j heq] at hj
      exact (hinv.rows j new hj).frame rfl rfl rfl (Nat.le_refl _) fun _ hr => hr
  · have hne : j ≠ id := fun heq => absurd hissued (Nat.not_lt.mpr (heq ▸ hle))
    obtain ⟨hj, hrest⟩ := hinv.issued j hle
    exact ⟨(hrow j hne).trans hj, hrest⟩
  · obtain ⟨old, hold, hrest⟩ := hinv.marked k j hj
    exact ⟨old, (hrow j (hsome j old hold)).trans hold, hrest⟩
  · obtain ⟨hfalse, hcommitted, hproject⟩ := hinv.creating j k hj
    refine ⟨hfalse, hcommitted, fun new hnew => ?_⟩
    change Function.update w.row id (some row) j = some new at hnew
    by_cases heq : j = id
    · subst heq
      rw [Function.update_self] at hnew
      obtain rfl := Option.some.inj hnew
      obtain rfl := Option.some.inj (hj.symm.trans hmine)
      exact hlock
    · rw [hrow j heq] at hnew
      exact hproject new hnew
  · refine Nat.le_trans (hactive project) ?_
    split_ifs with heq
    · exact heq ▸ hroom
    · exact hinv.active project
  · obtain ⟨old, hold, -⟩ := (hinv.references r hr).row
    exact (hinv.references r hr).frame (hrow _ (hsome _ old hold)) rfl rfl
  · have hne : k ≠ id := by
      rintro rfl
      rw [hmine] at hfree
      cases hfree
    exact ⟨hfree, rfl, rfl, rfl, .inl (hrow k hne), fun hunmarked => ⟨hunmarked, hrow k hne⟩⟩
  · refine Nat.le_trans (hactive project) ?_
    split_ifs with heq
    · subst heq
      exact absurd (Option.some.inj (hproject.symm.trans hlock)) hji
    · exact Nat.le_refl _
  · have hne : k ≠ id := by
      rintro rfl
      exact hji (Option.some.inj (hk.symm.trans hmine))
    exact ⟨hrow k hne, rfl, rfl⟩

/-! ### Sessions that expire -/

/-- A session that has expired is set to failed, without a commit. -/
theorem respects_mark (hinv : Inv h w) (hheld : w.locks (.upload id) = some i)
    {row : PackageUpload} (hrow : w.row id = some row) (hexpired : row.expiresAt ≤ w.now)
    (hne : row.status ≠ .complete) (hlock : w.locks (.project row.owner.projectId) = some i) :
    (protocol h).Respects i w
      { w with marked := Function.update w.marked i (id :: w.marked i) } := by
  -- Only this process marks, and only a session that it holds.
  have hmarked : ∀ j k, k ∈ Function.update w.marked i (id :: w.marked i) j →
      j = i ∧ k = id ∨ k ∈ w.marked j := by
    intro j k hk
    by_cases hj : j = i
    · subst hj
      rw [Function.update_self] at hk
      exact (List.mem_cons.mp hk).imp (fun hk => ⟨rfl, hk⟩) fun hk => hk
    · rw [Function.update_of_ne hj] at hk
      exact .inr hk
  have hevolves : Evolves w
      { w with marked := Function.update w.marked i (id :: w.marked i) } :=
    ⟨Nat.le_refl _, Nat.le_refl _, fun _ hid => hid,
      fun _ row hid => ⟨row, hid, .refl row, fun _ => rfl⟩, fun _ => List.prefix_rfl,
      fun _ hr => hr⟩
  refine ⟨⟨fun j row hj => (hinv.rows j row hj).frame rfl rfl rfl (Nat.le_refl _) fun _ hr => hr,
    hinv.issued, hinv.locked, fun j k hk => ?_, hinv.creating, hinv.announced, hinv.active,
    fun r hr => (hinv.references r hr).frame rfl rfl rfl, hinv.distinct⟩, hevolves,
    fun j hji => ⟨hevolves, fun _ hlock => hlock, fun k hk hnone => ?_, fun _ _ => Nat.le_refl _,
      fun _ _ => rfl, Function.update_of_ne hji _ _, fun _ => Iff.rfl,
      fun _ _ => ⟨rfl, rfl, rfl⟩⟩⟩
  · rcases hmarked j k hk with ⟨rfl, rfl⟩ | hk
    · exact ⟨row, hrow, hexpired, hne, hlock⟩
    · exact hinv.marked j k hk
  · have hother : k ≠ id := by
      rintro rfl
      exact hji (Option.some.inj (hk.symm.trans hheld))
    refine ⟨hnone, rfl, rfl, rfl, .inl rfl, fun hunmarked => ⟨fun l hl => ?_, rfl⟩⟩
    rcases hmarked l k hl with ⟨-, heq⟩ | hl
    · exact hother heq
    · exact hunmarked l hl

/-- The sessions of a request that has set them to failed. -/
def markedFailed (i : Caller) (w : World) : World :=
  { w with
    row := fun id => if id ∈ w.marked i then (w.row id).map failed else w.row id
    marked := Function.update w.marked i [] }

/-- **The sessions that have expired are set to failed**, though others may hold their locks. -/
theorem respects_markedFailed (hinv : Inv h w) : (protocol h).Respects i w (markedFailed i w) := by
  have hrow : ∀ id row, w.row id = some row →
      (markedFailed i w).row id = some row ∨ id ∈ w.marked i ∧
        (markedFailed i w).row id = some (failed row) ∧ row.expiresAt ≤ w.now ∧
          row.status ≠ .complete ∧ w.locks (.project row.owner.projectId) = some i := by
    intro id row hid
    by_cases hmarked : id ∈ w.marked i
    · obtain ⟨row', hrow', hexpired, hne, hlock⟩ := hinv.marked i id hmarked
      obtain rfl := Option.some.inj (hid.symm.trans hrow')
      refine .inr ⟨hmarked, ?_, hexpired, hne, hlock⟩
      show (if id ∈ w.marked i then (w.row id).map failed else w.row id) = _
      rw [if_pos hmarked, hid]
      rfl
    · refine .inl ?_
      show (if id ∈ w.marked i then (w.row id).map failed else w.row id) = _
      rw [if_neg hmarked, hid]
  have hfailed : ∀ row : PackageUpload, row.status ≠ .complete → RowEvolves row (failed row) :=
    fun row hne => ⟨rfl, rfl, Nat.le_refl _, fun _ => ⟨rfl, rfl⟩,
      fun _ => ⟨⟨by rintro ⟨⟩, fun h => absurd h hne⟩, fun h => absurd h hne⟩⟩
  have hcases : ∀ id row', (markedFailed i w).row id = some row' →
      ∃ row, w.row id = some row ∧ RowEvolves row row' ∧
        (row' = row ∨ id ∈ w.marked i ∧ row' = failed row) := by
    intro id row' hid
    cases hold : w.row id with
    | none =>
      have hnone : (markedFailed i w).row id = none := by
        show (if id ∈ w.marked i then (w.row id).map failed else w.row id) = _
        rw [hold]
        split_ifs <;> rfl
      rw [hnone] at hid
      cases hid
    | some row =>
      rcases hrow id row hold with hsame | ⟨hmarked, hfail, -, hne, -⟩
      · obtain rfl := Option.some.inj (hsame.symm.trans hid)
        exact ⟨row, rfl, .refl row, .inl rfl⟩
      · obtain rfl := Option.some.inj (hfail.symm.trans hid)
        exact ⟨row, rfl, hfailed row hne, .inr ⟨hmarked, rfl⟩⟩
  have hunmarked : ∀ id, id ∉ w.marked i → (markedFailed i w).row id = w.row id :=
    fun id hid => if_neg hid
  have hmarked : ∀ j k, k ∈ (markedFailed i w).marked j → j ≠ i ∧ k ∈ w.marked j := by
    intro j k hk
    change k ∈ Function.update w.marked i [] j at hk
    by_cases hj : j = i
    · rw [hj, Function.update_self] at hk
      cases hk
    · rw [Function.update_of_ne hj] at hk
      exact ⟨hj, hk⟩
  have hactive : ∀ project, ((markedFailed i w).activeIn project).length ≤
      (w.activeIn project).length := by
    intro project
    refine activeIn_le rfl fun id hid => ?_
    cases hnew : (markedFailed i w).row id with
    | none =>
      rw [World.isActiveIn, hnew] at hid
      cases hid
    | some row' =>
      obtain ⟨row, hold, hevolves, -⟩ := hcases id row' hnew
      exact isActiveIn_of_evolves hold hnew hevolves hid
  have hevolves : Evolves w (markedFailed i w) := by
    refine ⟨Nat.le_refl _, Nat.le_refl _, fun _ hid => hid, fun id row hid => ?_,
      fun _ => List.prefix_rfl, fun _ hr => hr⟩
    rcases hrow id row hid with hsame | ⟨-, hfail, -, hne, -⟩
    · exact ⟨row, hsame, .refl row, fun _ => rfl⟩
    · exact ⟨failed row, hfail, hfailed row hne, fun _ => rfl⟩
  have hkept : ∀ id, w.Unmarked id → (markedFailed i w).row id = w.row id :=
    fun id hid => hunmarked id (hid i)
  refine ⟨⟨fun id row' hid => ?_, fun id hle => ?_, hinv.locked, fun j id hid => ?_,
    fun id j hid => ?_, hinv.announced, fun project => (hactive project).trans
      (hinv.active project), fun r hr => ?_, hinv.distinct⟩, hevolves,
      fun j hji => ⟨hevolves, fun _ hlock => hlock,
        fun id _ hnone => ⟨hnone, rfl, rfl, rfl, ?_, fun hid => ⟨fun k hk => ?_, hkept id hid⟩⟩,
        fun project _ => hactive project, fun _ _ => rfl, Function.update_of_ne hji _ _,
        fun _ => Iff.rfl, fun id hid => ⟨?_, rfl, rfl⟩⟩⟩
  · obtain ⟨row, hold, hevolves, rfl | ⟨-, rfl⟩⟩ := hcases id row' hid
    · exact (hinv.rows id row' hold).frame rfl rfl rfl (Nat.le_refl _) fun _ hr => hr
    · have hok := hinv.rows id row hold
      have hne : row.status ≠ .complete := by
        rcases hrow id row hold with hsame | ⟨-, -, -, hne, -⟩
        · rw [hsame] at hid
          exact fun hc => by rw [Option.some.inj hid, failed] at hc; cases hc
        · exact hne
      -- A failed session asks for nothing but the first three.
      exact ⟨hok.consecutive, hok.length, hok.file, by rintro ⟨⟩, by rintro ⟨⟩⟩
  · obtain ⟨hnone, hrest⟩ := hinv.issued id hle
    refine ⟨?_, hrest⟩
    show (if id ∈ w.marked i then (w.row id).map failed else w.row id) = _
    rw [hnone]
    split_ifs <;> rfl
  · obtain ⟨hj, hid⟩ := hmarked j id hid
    obtain ⟨row, hold, hexpired, hne, hlock⟩ := hinv.marked j id hid
    rcases hrow id row hold with hsame | ⟨-, hfail, -⟩
    · exact ⟨row, hsame, hexpired, hne, hlock⟩
    · exact ⟨failed row, hfail, hexpired, by rintro ⟨⟩, hlock⟩
  · obtain ⟨hannounced, hcommitted, hlock⟩ := hinv.creating id j hid
    refine ⟨hannounced, hcommitted, fun row' hrow' => ?_⟩
    obtain ⟨row, hold, hevolves, -⟩ := hcases id row' hrow'
    exact hevolves.owner ▸ hlock row hold
  · -- A session that is complete is not marked.
    obtain ⟨row, hold, hcomplete, -⟩ := (hinv.references r hr).row
    refine (hinv.references r hr).frame ?_ rfl rfl
    rcases hrow r.upload row hold with hsame | ⟨-, -, -, hne, -⟩
    · exact hsame.trans hold.symm
    · exact absurd hcomplete hne
  · cases hold : w.row id with
    | none =>
      refine .inl ?_
      show (if id ∈ w.marked i then (w.row id).map failed else w.row id) = _
      rw [hold]
      split_ifs <;> rfl
    | some row =>
      rcases hrow id row hold with hsame | ⟨-, hfail, hexpired, -⟩
      · exact .inl (hsame.trans hold.symm)
      · exact .inr ⟨row, hold, hfail, hexpired⟩
  · exact hid k (hmarked k id hk).2
  · -- Two requests do not start sessions of one project.
    refine hunmarked id fun hmark => hji ?_
    obtain ⟨row, hold, -, -, hlock⟩ := hinv.marked i id hmark
    exact Option.some.inj (((hinv.creating id j hid).2.2 row hold).symm.trans hlock)

/-! ### Requests that end, and what happens besides -/

/-- A request that ends, wherever it was. -/
theorem respects_leave (hinv : Inv h w) : (protocol h).Respects i w (leave i w) := by
  -- Its locks, its marks and the session that it was creating go; the rows and files stay.
  have hlocks : ∀ lock j, (leave i w).locks lock = some j → w.locks lock = some j := by
    intro lock j hlock
    change (if w.locks lock = some i then none else w.locks lock) = some j at hlock
    split_ifs at hlock
    exact hlock
  have hlocked : ∀ lock j, j ≠ i → w.locks lock = some j →
      (leave i w).locks lock = some j := by
    intro lock j hji hlock
    change (if w.locks lock = some i then none else w.locks lock) = some j
    rw [if_neg, hlock]
    exact fun hi => hji (Option.some.inj (hlock.symm.trans hi))
  have hcreating : ∀ id j, (leave i w).creating id = some j ↔ j ≠ i ∧ w.creating id = some j := by
    intro id j
    change (if w.creating id = some i then none else w.creating id) = some j ↔ _
    split_ifs with hi
    · refine ⟨nofun, ?_⟩
      rintro ⟨hji, hj⟩
      exact absurd (Option.some.inj (hj.symm.trans hi)) hji
    · exact ⟨fun hj => ⟨fun hji => hi (hji ▸ hj), hj⟩, fun hj => hj.2⟩
  have hfree : ∀ id, w.creating id = none → (leave i w).creating id = none := by
    intro id hid
    change (if w.creating id = some i then none else w.creating id) = none
    rw [hid]
    split_ifs <;> rfl
  have hmarked : ∀ j k, k ∈ (leave i w).marked j → j ≠ i ∧ k ∈ w.marked j := by
    intro j k hk
    change k ∈ Function.update w.marked i [] j at hk
    by_cases hj : j = i
    · rw [hj, Function.update_self] at hk
      cases hk
    · rw [Function.update_of_ne hj] at hk
      exact ⟨hj, hk⟩
  have hevolves : Evolves w (leave i w) :=
    ⟨Nat.le_refl _, Nat.le_refl _, fun _ hid => hid,
      fun _ row hid => ⟨row, hid, .refl row, fun _ => rfl⟩, fun _ => List.prefix_rfl,
      fun _ hr => hr⟩
  refine ⟨⟨fun id row hid =>
      (hinv.rows id row hid).frame rfl rfl rfl (Nat.le_refl _) fun _ hr => hr,
    fun id hle => ?_, fun id j hlock => hinv.locked id j (hlocks _ j hlock), fun j id hid => ?_,
    fun id j hid => ?_, fun id hid => hfree id (hinv.announced id hid), hinv.active,
    fun r hr => (hinv.references r hr).frame rfl rfl rfl, hinv.distinct⟩, hevolves,
    fun j hji => ⟨hevolves, fun lock => hlocked lock j hji, fun id _ hnone =>
      ⟨hfree id hnone, rfl, rfl, rfl, .inl rfl, fun hid => ⟨fun k hk => hid k (hmarked k id hk).2,
        rfl⟩⟩, fun _ _ => Nat.le_refl _, fun _ _ => rfl, Function.update_of_ne hji _ _,
      fun id => (hcreating id j).trans (and_iff_right hji), fun _ _ => ⟨rfl, rfl, rfl⟩⟩⟩
  · obtain ⟨hrow, hcommitted, hnone, hannounced⟩ := hinv.issued id hle
    exact ⟨hrow, hcommitted, hfree id hnone, hannounced⟩
  · obtain ⟨hji, hid⟩ := hmarked j id hid
    obtain ⟨row, hrow, hexpired, hne, hlock⟩ := hinv.marked j id hid
    exact ⟨row, hrow, hexpired, hne, hlocked _ j hji hlock⟩
  · obtain ⟨hji, hid⟩ := (hcreating id j).mp hid
    obtain ⟨hannounced, hcommitted, hlock⟩ := hinv.creating id j hid
    exact ⟨hannounced, hcommitted, fun row hrow => hlocked _ j hji (hlock row hrow)⟩

/-- Time passes, and others change contents that nobody has locked and no version refers to. -/
theorem respects_drift (hinv : Inv h w) (d : Drift) :
    Inv h (drift d w) ∧ Evolves w (drift d w) ∧ ∀ i, Rely i w (drift d w) := by
  cases d with
  | tick duration =>
    have hs : Same w (drift (.tick duration) w) :=
      ⟨rfl, Nat.le_add_right _ _, rfl, rfl, rfl, rfl, rfl, rfl, rfl, rfl⟩
    exact ⟨hs.inv hinv hinv.locked (fun _ _ hlock => hlock) fun _ _ => rfl, hs.evolves,
      fun i => hs.rely (fun _ hlock => hlock) fun _ _ => rfl⟩
  | setBlob digest content =>
    rw [drift]
    split_ifs with hlocked
    · exact ⟨hinv, .refl w, fun i => .refl i w⟩
    · rw [Bool.or_eq_true, not_or] at hlocked
      have hs : Same w { w with blob := Function.update w.blob digest content } :=
        ⟨rfl, Nat.le_refl _, rfl, rfl, rfl, rfl, rfl, rfl, rfl, rfl⟩
      refine ⟨hs.inv hinv hinv.locked (fun _ _ hlock => hlock) fun r hr => ?_, hs.evolves,
        fun i => hs.rely (fun _ hlock => hlock) fun other hlock => ?_⟩
      · refine Function.update_of_ne ?_ _ _
        rintro rfl
        exact hlocked.2 (isArchive_iff.mpr ⟨r, hr, rfl⟩)
      · refine Function.update_of_ne ?_ _ _
        rintro rfl
        rw [hlock] at hlocked
        exact hlocked.1 rfl
  | setOthers digest isReferenced =>
    have hs : Same w (drift (.setOthers digest isReferenced) w) :=
      ⟨rfl, Nat.le_refl _, rfl, rfl, rfl, rfl, rfl, rfl, rfl, rfl⟩
    exact ⟨hs.inv hinv hinv.locked (fun _ _ hlock => hlock) fun _ _ => rfl, hs.evolves,
      fun i => hs.rely (fun _ hlock => hlock) fun _ _ => rfl⟩

/-! ### The files and rows of a session -/

/-- A session that a request has set to failed has expired. -/
theorem Inv.expired (hinv : Inv h w) {row : PackageUpload} (hrow : w.row id = some row)
    (hmarked : ¬w.Unmarked id) : row.expiresAt ≤ w.now ∧ row.status ≠ .complete := by
  obtain ⟨j, hj⟩ := not_forall.mp hmarked
  obtain ⟨row', hrow', hexpired, hne, -⟩ := hinv.marked j id (not_not.mp hj)
  obtain rfl := Option.some.inj (hrow.symm.trans hrow')
  exact ⟨hexpired, hne⟩

/-- The staging file is changed beyond what was received. -/
theorem respects_setFile (hinv : Inv h w) (hown : Owns i id w) {content : Option Bytes}
    (hcontent : ∀ row, w.row id = some row → (∀ new ∈ content, w.received id <+: new) ∧
      (row.status.isActive → w.now < row.expiresAt → 0 < row.receivedBytes → content.isSome)) :
    (protocol h).Respects i w (w.setFile id content) := by
  have ht : Touched id w (w.setFile id content) :=
    ⟨rfl, rfl, rfl, rfl, rfl, rfl, rfl, fun _ _ => rfl,
      fun j hj => Function.update_of_ne hj _ _, fun _ _ => rfl, fun _ _ => rfl, fun _ hr => hr⟩
  have hfile : (w.setFile id content).file id = content := Function.update_self _ _ _
  refine respects_touch hinv hown ht ⟨fun hnone => hnone, fun row hrow => ?_, List.prefix_rfl,
    fun hmine => (hinv.creating id i hmine).2.1, fun _ => .inl, hinv.distinct⟩
  have hok := hinv.rows id row hrow
  obtain ⟨hreceived, hpresent⟩ := hcontent row hrow
  refine ⟨row, hrow, .refl row, fun _ => rfl, fun hmarked => hinv.expired hrow hmarked,
    hok.consecutive, hok.length, fun new hnew => ?_, fun hactive hlt hpos => ?_, hok.published⟩
  · rw [hfile] at hnew
    exact hreceived new hnew
  · rw [hfile]
    exact hpresent hactive hlt hpos

/-- The staging file of a session that has ended or expired is not needed. -/
theorem respects_unlink (hinv : Inv h w) (hown : Owns i id w)
    (hend : ∀ row, w.row id = some row → row.status.isActive → w.now < row.expiresAt →
      row.receivedBytes = 0) :
    (protocol h).Respects i w (w.setFile id none) := by
  refine respects_setFile hinv hown fun row hrow => ⟨nofun, fun hactive hlt hpos => ?_⟩
  rw [hend row hrow hactive hlt] at hpos
  exact absurd hpos (Nat.lt_irrefl 0)

/-- The row of a session is changed, and nothing else of it. -/
theorem touched_setRow (f : PackageUpload → PackageUpload) : Touched id w (w.setRow id f) :=
  ⟨rfl, rfl, rfl, rfl, rfl, rfl, rfl, fun _ hj => Function.update_of_ne hj _ _, fun _ _ => rfl,
    fun _ _ => rfl, fun _ _ => rfl, fun _ hr => hr⟩

theorem setRow_row (f : PackageUpload → PackageUpload) :
    (w.setRow id f).row id = (w.row id).map f := Function.update_self _ _ _

/-- The status of a session is changed. It stays active only if nobody has set it to failed, and
if it has its file. -/
theorem respects_update (hinv : Inv h w) (hown : Owns i id w) {row : PackageUpload}
    (hrow : w.row id = some row) (hne : row.status ≠ .complete) {change : Change}
    (hend : change.status ≠ .complete)
    (hactive : change.status.isActive → row.status.isActive ∧
      (0 < row.receivedBytes → (w.file id).isSome))
    (hexpires : change.expiresAt = none ∨ w.Unmarked id) :
    (protocol h).Respects i w (w.setRow id change.apply) := by
  have hok := hinv.rows id row hrow
  have hnew : (w.setRow id change.apply).row id = some (change.apply row) := by
    rw [setRow_row, hrow]
    rfl
  refine respects_touch hinv hown (touched_setRow _) ⟨fun hnone => ?_, fun old hold => ?_,
    List.prefix_rfl, fun hmine => (hinv.creating id i hmine).2.1, fun _ => .inl, hinv.distinct⟩
  · rw [hrow] at hnone
    cases hnone
  · obtain rfl := Option.some.inj (hrow.symm.trans hold)
    have hstays : row.status.isActive = false → change.status.isActive = false := by
      intro hended
      refine Bool.eq_false_iff.mpr fun hc => ?_
      rw [(hactive hc).1] at hended
      cases hended
    have hevolves : RowEvolves row (change.apply row) :=
      ⟨rfl, rfl, Nat.le_refl _, fun hended => ⟨hstays hended, rfl⟩,
        fun _ => ⟨⟨fun hc => absurd hc hend, fun hc => absurd hc hne⟩, fun hc => absurd hc hne⟩⟩
    refine ⟨change.apply row, hnew, hevolves, fun _ => rfl, fun hmarked => ⟨?_, hend⟩,
      hok.consecutive, hok.length, hok.file, fun hc _ hpos => (hactive hc).2 hpos,
      fun hc => absurd hc hend⟩
    rcases hexpires with hsame | hunmarked
    · show change.expiresAt.getD row.expiresAt ≤ w.now
      rw [hsame]
      exact (hinv.expired hrow hmarked).1
    · exact absurd hunmarked hmarked

/-- The commit of an append. -/
theorem respects_commitAppend (hinv : Inv h w) (hown : Owns i id w) {row : PackageUpload}
    (hrow : w.row id = some row) (hactive : row.status = .uploading) (hunmarked : w.Unmarked id)
    (hcreating : w.creating id = none) {piece : Bytes}
    (hfile : w.file id = some (w.received id ++ piece)) {total : ℕ}
    (htotal : total = row.receivedBytes + piece.length) (expiresAt : Time) :
    (protocol h).Respects i w
      { w.setRow id fun row => { row with receivedBytes := total, expiresAt := expiresAt } with
        committed := Function.update w.committed id
          (w.committed id ++ [(row.receivedBytes, piece)]) } := by
  have hok := hinv.rows id row hrow
  have ht : Touched id w
      { w.setRow id fun row => { row with receivedBytes := total, expiresAt := expiresAt } with
        committed := Function.update w.committed id
          (w.committed id ++ [(row.receivedBytes, piece)]) } :=
    ⟨rfl, rfl, rfl, rfl, rfl, rfl, rfl, fun _ hj => Function.update_of_ne hj _ _, fun _ _ => rfl,
      fun _ hj => Function.update_of_ne hj _ _, fun _ _ => rfl, fun _ hr => hr⟩
  have hcommitted : Function.update w.committed id (w.committed id ++ [(row.receivedBytes, piece)])
      id = w.committed id ++ [(row.receivedBytes, piece)] := Function.update_self _ _ _
  have hreceived : (((Function.update w.committed id
      (w.committed id ++ [(row.receivedBytes, piece)]) id).map Prod.snd).flatten) =
        w.received id ++ piece := by
    rw [hcommitted, List.map_append, List.flatten_append, List.map_singleton,
      List.flatten_singleton, World.received]
  refine respects_touch hinv hown ht ⟨fun hnone => ?_, fun old hold => ?_, ?_, fun hmine => ?_,
    fun _ => .inl, hinv.distinct⟩
  · rw [hrow] at hnone
    cases hnone
  · obtain rfl := Option.some.inj (hrow.symm.trans hold)
    refine ⟨{ row with receivedBytes := total, expiresAt := expiresAt }, ?_,
      ⟨rfl, rfl, htotal ▸ Nat.le_add_right _ _, fun hended => ?_, fun hended => ?_⟩,
      fun hended => ?_, fun hmarked => absurd hunmarked hmarked,
      ⟨?_, ?_, fun content hcontent => ?_, fun _ _ _ => ?_, fun hcomplete => ?_⟩⟩
    · show Function.update w.row id ((w.row id).map _) id = _
      rw [Function.update_self, hrow]
      rfl
    · rw [hactive] at hended
      cases hended
    · rw [hactive] at hended
      cases hended
    · rw [hactive] at hended
      cases hended
    -- The piece starts where the row ended, which is how long the others are together.
    · show Consecutive 0 (Function.update w.committed id _ id)
      rw [hcommitted, consecutive_concat]
      refine ⟨hok.consecutive, ?_⟩
      rw [Nat.zero_add]
      exact hok.length.symm
    · rw [World.received, hreceived, List.length_append, hok.length, htotal]
    · rw [World.received, hreceived]
      obtain rfl := Option.some.inj (hfile.symm.trans hcontent)
      exact List.prefix_rfl
    · show (w.file id).isSome
      rw [hfile]
      rfl
    · change row.status = _ at hcomplete
      rw [hactive] at hcomplete
      cases hcomplete
  · show w.committed id <+: Function.update w.committed id _ id
    rw [hcommitted]
    exact List.prefix_append _ _
  · rw [hcreating] at hmine
    cases hmine

theorem hasKey_iff {r : Reference} : w.hasKey r ↔ ∃ r' ∈ w.references, r'.key = r.key := by
  rw [World.hasKey, List.any_eq_true]
  exact exists_congr fun r' => and_congr_right fun _ => decide_eq_true_iff

theorem isVersion_of_key {r r' : Reference} (hkey : r'.key = r.key) :
    r'.target.isVersion = r.target.isVersion := by
  simp only [Reference.key, Prod.mk.injEq] at hkey
  rw [hkey.2.2.1]

/-- A version that is not there yet is inserted once. -/
theorem distinct_of_mem {references : List Reference} {new : Reference} {isNew : Bool}
    (hdistinct : Distinct w.references)
    (hmem : ∀ r ∈ references, r ∈ w.references ∨ isNew = true ∧ r = new)
    (hnew : isNew → new.target.isVersion → ¬w.hasKey new) : Distinct references := by
  intro r hr r' hr' hversion hkey
  rcases hmem r hr with hr | ⟨his, rfl⟩
  · rcases hmem r' hr' with hr' | ⟨his', rfl⟩
    · exact hdistinct r hr r' hr' hversion hkey
    · exact absurd (hasKey_iff.mpr ⟨r, hr, hkey.symm⟩)
        (hnew his' ((isVersion_of_key hkey).trans hversion))
  · rcases hmem r' hr' with hr' | ⟨-, rfl⟩
    · exact absurd (hasKey_iff.mpr ⟨r', hr', hkey⟩) (hnew his hversion)
    · rfl

/-- The commit of a publication, with a version where there is none. -/
theorem respects_complete (hinv : Inv h w) (hown : Owns i id w) {row : PackageUpload}
    (hrow : w.row id = some row) (hactive : row.status.isActive) (hunmarked : w.Unmarked id)
    (hblob : w.blob row.request.archiveDigest = some (w.received id))
    (hdigest : h.digest (w.received id) = row.request.archiveDigest)
    (hlength : (w.received id).length = row.request.archiveSizeBytes) {isNew : Bool}
    (hold : isNew = false → ∃ r ∈ w.references, r.key = (row.reference id).key)
    (hnew : isNew → row.request.target.isVersion → ¬w.hasKey (row.reference id))
    (result : String) :
    (protocol h).Respects i w
      { w.setRow id fun row => { row with status := .complete, result := some result } with
        published := Function.update w.published id (w.blob row.request.archiveDigest)
        references := if isNew then w.references ++ [row.reference id] else w.references } := by
  have hok := hinv.rows id row hrow
  set references := if isNew then w.references ++ [row.reference id] else w.references
    with hreferences
  have hsub : ∀ r ∈ w.references, r ∈ references := by
    intro r hr
    rw [hreferences]
    split_ifs
    · exact List.mem_append_left _ hr
    · exact hr
  have hmem : ∀ r ∈ references, r ∈ w.references ∨ isNew = true ∧ r = row.reference id := by
    intro r hr
    rw [hreferences] at hr
    split_ifs at hr with his
    · exact (List.mem_append.mp hr).imp_right fun hr => ⟨his, List.mem_singleton.mp hr⟩
    · exact .inl hr
  -- A session is complete only with a version for its root: an old one, or the one inserted here.
  have hcovered : ∃ r ∈ references, r.key = (row.reference id).key := by
    cases his : isNew with
    | false =>
      obtain ⟨r, hr, hkey⟩ := hold his
      exact ⟨r, hsub r hr, hkey⟩
    | true =>
      refine ⟨row.reference id, ?_, rfl⟩
      rw [hreferences, his, if_pos rfl]
      exact List.mem_append_right _ List.mem_cons_self
  have ht : Touched id w
      { w.setRow id fun row => { row with status := .complete, result := some result } with
        published := Function.update w.published id (w.blob row.request.archiveDigest)
        references := references } :=
    ⟨rfl, rfl, rfl, rfl, rfl, rfl, rfl, fun _ hj => Function.update_of_ne hj _ _, fun _ _ => rfl,
      fun _ _ => rfl, fun _ hj => Function.update_of_ne hj _ _, hsub⟩
  have hset : Function.update w.row id ((w.row id).map fun row =>
      { row with status := .complete, result := some result }) id =
        some { row with status := .complete, result := some result } := by
    rw [Function.update_self, hrow]
    rfl
  -- The session was active, so nothing is overwritten that had ended.
  have hgoes : ¬row.status.isActive = false := by
    rw [hactive]
    exact nofun
  refine respects_touch hinv hown ht ⟨fun hnone => ?_, fun old hold => ?_, List.prefix_rfl,
    fun hmine => (hinv.creating id i hmine).2.1, fun r hr => (hmem r hr).imp_right ?_, ?_⟩
  · rw [hrow] at hnone
    cases hnone
  · obtain rfl := Option.some.inj (hrow.symm.trans hold)
    refine ⟨{ row with status := .complete, result := some result }, hset,
      ⟨rfl, rfl, Nat.le_refl _, fun hended => absurd hended hgoes,
        fun hended => absurd hended hgoes⟩, fun _ => rfl,
      fun hmarked => absurd hunmarked hmarked, hok.consecutive, hok.length, hok.file, nofun,
      fun _ => ⟨⟨?_, hdigest, hlength⟩, hcovered⟩⟩
    show Function.update w.published id _ id = _
    rw [Function.update_self, hblob]
    rfl
  · rintro ⟨-, rfl⟩
    exact ⟨⟨_, hset, rfl, rfl⟩, hblob⟩
  · exact distinct_of_mem hinv.distinct hmem hnew

end Palimpsest.Hub.Upload
