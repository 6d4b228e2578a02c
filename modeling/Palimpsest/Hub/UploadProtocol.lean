import Palimpsest.Hub.UploadWorld

/-!
# What the requests of uploads rely on

The invariant of the hub (`Inv`) says of every row that the staging file starts with what was
committed, and of a complete one that what was committed was published. A version has the archive
of the session whose commit inserted it, for good (`ArchiveOk`). What a request relies on
while others go on is what its locks protect (`Rely`): under the lock of a session the row and
the file stay as they are, except that a session that has expired can be set to failed.

A request changes one session at a time (`respects_touch`), and what it has to show then is
about that session only.
-/

namespace Palimpsest.Hub.Upload

open Calls

/-! ### The invariant -/

namespace World

/-- The chunks of the appends that were committed, one after the other. -/
def received (w : World) (id : UploadId) : Bytes := ((w.committed id).map Prod.snd).flatten

/-- Nobody has set the session to failed without a commit. -/
def Unmarked (w : World) (id : UploadId) : Prop := ∀ i, id ∉ w.marked i

end World

/-- What holds of a row. -/
structure RowOk (h : ContentHash) (w : World) (id : UploadId) (row : PackageUpload) : Prop where
  consecutive : Consecutive 0 (w.committed id)
  length : (w.received id).length = row.receivedBytes
  /-- The staging file starts with what was received. -/
  file : ∀ content ∈ w.file id, w.received id <+: content
  /-- A session that goes on has its staging file. -/
  present : row.status.isActive → w.now < row.expiresAt → 0 < row.receivedBytes →
    (w.file id).isSome
  /-- A complete session has published what was received, which is what was declared, and there is
  a version for it. -/
  published : row.status = .complete →
    (w.published id = some (w.received id) ∧
      h.digest (w.received id) = row.request.archiveDigest ∧
      (w.received id).length = row.request.archiveSizeBytes) ∧
    ∃ r ∈ w.references, r.key = (row.reference id).key

/-- What holds of a version or of a cached archive: the store has what its session received. -/
structure ArchiveOk (w : World) (r : Reference) : Prop where
  row : ∃ row, w.row r.upload = some row ∧ row.status = .complete ∧ row.reference r.upload = r
  blob : w.blob r.archiveDigest = some (w.received r.upload)

/-- A version is inserted once. -/
def Distinct (references : List Reference) : Prop :=
  ∀ r ∈ references, ∀ r' ∈ references, r.target.isVersion → r'.key = r.key → r' = r

/-- The invariant of the hub. -/
structure Inv (h : ContentHash) (w : World) : Prop where
  rows : ∀ id row, w.row id = some row → RowOk h w id row
  issued : ∀ id, w.issued ≤ id →
    w.row id = none ∧ w.committed id = [] ∧ w.creating id = none ∧ w.announced id = false
  locked : ∀ id i, w.locks (.upload id) = some i → id < w.issued
  marked : ∀ i, ∀ id ∈ w.marked i, ∃ row, w.row id = some row ∧ row.expiresAt ≤ w.now ∧
    row.status ≠ .complete ∧ w.locks (.project row.owner.projectId) = some i
  creating : ∀ id i, w.creating id = some i → w.announced id = false ∧ w.committed id = [] ∧
    ∀ row, w.row id = some row → w.locks (.project row.owner.projectId) = some i
  announced : ∀ id, w.announced id → w.creating id = none
  active : ∀ project, (w.activeIn project).length ≤ maxActiveUploads
  references : ∀ r ∈ w.references, ArchiveOk w r
  distinct : Distinct w.references

/-! ### What can have become of a session -/

/-- What can have become of a row: an end is an end. -/
structure RowEvolves (row row' : PackageUpload) : Prop where
  owner : row'.owner = row.owner
  request : row'.request = row.request
  received : row.receivedBytes ≤ row'.receivedBytes
  ended : row.status.isActive = false →
    row'.status.isActive = false ∧ row'.receivedBytes = row.receivedBytes
  complete : row.status.isActive = false →
    (row'.status = .complete ↔ row.status = .complete) ∧
      (row.status = .complete → row'.result = row.result)

/-- What can have become of the hub. -/
structure Evolves (w w' : World) : Prop where
  issued : w.issued ≤ w'.issued
  now : w.now ≤ w'.now
  announced : ∀ id, w.announced id → w'.announced id
  row : ∀ id row, w.row id = some row → ∃ row', w'.row id = some row' ∧ RowEvolves row row' ∧
    (row.status.isActive = false → w'.committed id = w.committed id)
  committed : ∀ id, w.committed id <+: w'.committed id
  references : ∀ r ∈ w.references, r ∈ w'.references

theorem RowEvolves.refl (row : PackageUpload) : RowEvolves row row where
  owner := rfl
  request := rfl
  received := Nat.le_refl _
  ended := fun h => ⟨h, rfl⟩
  complete := fun _ => ⟨Iff.rfl, fun _ => rfl⟩

theorem RowEvolves.trans {row row' row'' : PackageUpload} (h : RowEvolves row row')
    (h' : RowEvolves row' row'') : RowEvolves row row'' where
  owner := h'.owner.trans h.owner
  request := h'.request.trans h.request
  received := Nat.le_trans h.received h'.received
  ended := fun hended => by
    obtain ⟨hended', hreceived⟩ := h.ended hended
    obtain ⟨hended'', hreceived'⟩ := h'.ended hended'
    exact ⟨hended'', hreceived'.trans hreceived⟩
  complete := fun hended => by
    obtain ⟨hiff, hresult⟩ := h.complete hended
    obtain ⟨hiff', hresult'⟩ := h'.complete (h.ended hended).1
    exact ⟨hiff'.trans hiff, fun hc => (hresult' (hiff.mpr hc)).trans (hresult hc)⟩

theorem Evolves.refl (w : World) : Evolves w w where
  issued := Nat.le_refl _
  now := Nat.le_refl _
  announced := fun _ h => h
  row := fun _ row hrow => ⟨row, hrow, .refl row, fun _ => rfl⟩
  committed := fun _ => List.prefix_rfl
  references := fun _ hr => hr

theorem Evolves.trans {w w' w'' : World} (h : Evolves w w') (h' : Evolves w' w'') :
    Evolves w w'' where
  issued := Nat.le_trans h.issued h'.issued
  now := Nat.le_trans h.now h'.now
  announced := fun id hid => h'.announced id (h.announced id hid)
  row := fun id row hrow => by
    obtain ⟨row', hrow', hevolves, hcommitted⟩ := h.row id row hrow
    obtain ⟨row'', hrow'', hevolves', hcommitted'⟩ := h'.row id row' hrow'
    refine ⟨row'', hrow'', hevolves.trans hevolves', fun hended => ?_⟩
    rw [hcommitted' (hevolves.ended hended).1, hcommitted hended]
  committed := fun id => (h.committed id).trans (h'.committed id)
  references := fun r hr => h'.references r (h.references r hr)

/-! ### What a request relies on -/

/-- The row of a session that has expired. -/
def failed (row : PackageUpload) : PackageUpload := { row with status := .failed }

/-- The row is as it was, or the session has expired and is set to failed. -/
def RowKept (id : UploadId) (w w' : World) : Prop :=
  w'.row id = w.row id ∨
    ∃ row, w.row id = some row ∧ w'.row id = some (failed row) ∧ row.expiresAt ≤ w'.now

/-- What a request keeps that holds the lock of a session. -/
structure SessionKept (id : UploadId) (w w' : World) : Prop where
  creating : w'.creating id = none
  file : w'.file id = w.file id
  committed : w'.committed id = w.committed id
  published : w'.published id = w.published id
  row : RowKept id w w'
  unmarked : w.Unmarked id → w'.Unmarked id ∧ w'.row id = w.row id

/-- What a request relies on. -/
structure Rely (i : Caller) (w w' : World) : Prop where
  evolves : Evolves w w'
  locks : ∀ lock, w.locks lock = some i → w'.locks lock = some i
  session : ∀ id, w.locks (.upload id) = some i → w.creating id = none → SessionKept id w w'
  project : ∀ project, w.locks (.project project) = some i →
    (w'.activeIn project).length ≤ (w.activeIn project).length
  blob : ∀ digest, w.locks (.blob digest) = some i → w'.blob digest = w.blob digest
  marked : w'.marked i = w.marked i
  creating : ∀ id, w'.creating id = some i ↔ w.creating id = some i
  created : ∀ id, w.creating id = some i →
    w'.row id = w.row id ∧ w'.file id = w.file id ∧ w'.committed id = w.committed id

theorem RowKept.trans {id : UploadId} {w w' w'' : World} (h : RowKept id w w')
    (h' : RowKept id w' w'') (hnow : w'.now ≤ w''.now) : RowKept id w w'' := by
  rcases h with h | ⟨row, hrow, hfailed, hexpired⟩
  · rcases h' with h' | ⟨row, hrow, hfailed, hexpired⟩
    · exact .inl (h'.trans h)
    · exact .inr ⟨row, h ▸ hrow, hfailed, hexpired⟩
  · refine .inr ⟨row, hrow, ?_, Nat.le_trans hexpired hnow⟩
    rcases h' with h' | ⟨row', hrow', hfailed', -⟩
    · exact h'.trans hfailed
    · obtain rfl := Option.some.inj (hfailed.symm.trans hrow')
      exact hfailed'

theorem SessionKept.refl {id : UploadId} {w : World} (h : w.creating id = none) :
    SessionKept id w w :=
  ⟨h, rfl, rfl, rfl, .inl rfl, fun hunmarked => ⟨hunmarked, rfl⟩⟩

theorem SessionKept.trans {id : UploadId} {w w' w'' : World} (h : SessionKept id w w')
    (h' : SessionKept id w' w'') (hnow : w'.now ≤ w''.now) : SessionKept id w w'' where
  creating := h'.creating
  file := h'.file.trans h.file
  committed := h'.committed.trans h.committed
  published := h'.published.trans h.published
  row := h.row.trans h'.row hnow
  unmarked := fun hunmarked =>
    have ⟨hunmarked', hrow⟩ := h.unmarked hunmarked
    have ⟨hunmarked'', hrow'⟩ := h'.unmarked hunmarked'
    ⟨hunmarked'', hrow'.trans hrow⟩

theorem Rely.refl (i : Caller) (w : World) : Rely i w w where
  evolves := .refl w
  locks := fun _ h => h
  session := fun _ _ h => .refl h
  project := fun _ _ => Nat.le_refl _
  blob := fun _ _ => rfl
  marked := rfl
  creating := fun _ => Iff.rfl
  created := fun _ _ => ⟨rfl, rfl, rfl⟩

theorem Rely.trans {i : Caller} {w w' w'' : World} (h : Rely i w w') (h' : Rely i w' w'') :
    Rely i w w'' where
  evolves := h.evolves.trans h'.evolves
  locks := fun lock hlock => h'.locks lock (h.locks lock hlock)
  session := fun id hlock hcreating =>
    have hkept := h.session id hlock hcreating
    hkept.trans (h'.session id (h.locks _ hlock) hkept.creating) h'.evolves.now
  project := fun project hlock =>
    Nat.le_trans (h'.project project (h.locks _ hlock)) (h.project project hlock)
  blob := fun digest hlock => (h'.blob digest (h.locks _ hlock)).trans (h.blob digest hlock)
  marked := h'.marked.trans h.marked
  creating := fun id => (h'.creating id).trans (h.creating id)
  created := fun id hid => by
    obtain ⟨hrow, hfile, hcommitted⟩ := h.created id hid
    obtain ⟨hrow', hfile', hcommitted'⟩ := h'.created id ((h.creating id).mpr hid)
    exact ⟨hrow'.trans hrow, hfile'.trans hfile, hcommitted'.trans hcommitted⟩

/-- The protocol of the uploads. -/
def protocol (h : ContentHash) : Protocol Caller World where
  inv := Inv h
  evolves := Evolves
  rely := Rely
  evolves_refl := Evolves.refl
  evolves_trans := fun _ _ _ => Evolves.trans
  rely_refl := Rely.refl
  rely_trans := fun _ _ _ _ => Rely.trans

/-! ### Changes of one session -/

variable {h : ContentHash} {w w' : World} {i : Caller} {id : UploadId}

theorem RowOk.frame {row : PackageUpload} (hrow : RowOk h w id row)
    (hcommitted : w'.committed id = w.committed id) (hfile : w'.file id = w.file id)
    (hpublished : w'.published id = w.published id) (hnow : w.now ≤ w'.now)
    (hreferences : ∀ r ∈ w.references, r ∈ w'.references) : RowOk h w' id row := by
  have hreceived : w'.received id = w.received id := by
    rw [World.received, hcommitted, World.received]
  refine ⟨?_, ?_, ?_, ?_, ?_⟩
  · rw [hcommitted]
    exact hrow.consecutive
  · rw [hreceived]
    exact hrow.length
  · rw [hfile, hreceived]
    exact hrow.file
  · rw [hfile]
    exact fun hactive hlt => hrow.present hactive (Nat.lt_of_le_of_lt hnow hlt)
  · rw [hreceived, hpublished]
    refine fun hcomplete => (hrow.published hcomplete).imp_right ?_
    rintro ⟨r, hr, hkey⟩
    exact ⟨r, hreferences r hr, hkey⟩

theorem ArchiveOk.frame {r : Reference} (hr : ArchiveOk w r)
    (hrow : w'.row r.upload = w.row r.upload)
    (hcommitted : w'.committed r.upload = w.committed r.upload)
    (hblob : w'.blob r.archiveDigest = w.blob r.archiveDigest) : ArchiveOk w' r where
  row := by
    rw [hrow]
    exact hr.row
  blob := by
    rw [hblob, World.received, hcommitted]
    exact hr.blob

/-- Nothing but one session is changed. -/
structure Touched (id : UploadId) (w w' : World) : Prop where
  issued : w'.issued = w.issued
  blob : w'.blob = w.blob
  now : w'.now = w.now
  locks : w'.locks = w.locks
  marked : w'.marked = w.marked
  creating : w'.creating = w.creating
  announced : w'.announced = w.announced
  row : ∀ j, j ≠ id → w'.row j = w.row j
  file : ∀ j, j ≠ id → w'.file j = w.file j
  committed : ∀ j, j ≠ id → w'.committed j = w.committed j
  published : ∀ j, j ≠ id → w'.published j = w.published j
  references : ∀ r ∈ w.references, r ∈ w'.references

/-- Who may change a session: the holder of its lock, and the request that starts it. -/
def Owns (i : Caller) (id : UploadId) (w : World) : Prop :=
  w.locks (.upload id) = some i ∧ w.creating id = none ∨ w.creating id = some i

theorem activeIn_length (w : World) (project : String) :
    (w.activeIn project).length = (List.range w.issued).countP (w.isActiveIn project) := by
  rw [World.activeIn, List.countP_eq_length_filter]

/-- Rows that go on do not add to the active ones. -/
theorem activeIn_le {project : String} (hissued : w'.issued = w.issued)
    (hactive : ∀ id, w'.isActiveIn project id → w.isActiveIn project id) :
    (w'.activeIn project).length ≤ (w.activeIn project).length := by
  rw [activeIn_length, activeIn_length, hissued]
  exact List.countP_mono_left fun id _ => hactive id

theorem isActiveIn_of_evolves {project : String} {row row' : PackageUpload}
    (hrow : w.row id = some row) (hrow' : w'.row id = some row') (hevolves : RowEvolves row row')
    (hactive : w'.isActiveIn project id) : w.isActiveIn project id := by
  rw [World.isActiveIn, hrow'] at hactive
  rw [World.isActiveIn, hrow]
  simp only [Bool.and_eq_true, decide_eq_true_eq] at hactive ⊢
  refine ⟨hevolves.owner ▸ hactive.1, ?_⟩
  by_contra hended
  have := (hevolves.ended (Bool.eq_false_iff.mpr hended)).1
  rw [this] at hactive
  exact Bool.false_ne_true hactive.2

theorem Owns.lt_issued (hown : Owns i id w) (hinv : Inv h w) : id < w.issued := by
  rcases hown with ⟨hlock, -⟩ | hcreating
  · exact hinv.locked id i hlock
  · by_contra hle
    rw [(hinv.issued id (Nat.not_lt.mp hle)).2.2.1] at hcreating
    cases hcreating

/-- How a session goes on that a request changes. -/
structure GoesOn (h : ContentHash) (i : Caller) (id : UploadId) (w w' : World) : Prop where
  missing : w.row id = none → w'.row id = none
  row : ∀ row, w.row id = some row → ∃ row', w'.row id = some row' ∧ RowEvolves row row' ∧
    (row.status.isActive = false → w'.committed id = w.committed id) ∧
    (¬w.Unmarked id → row'.expiresAt ≤ w.now ∧ row'.status ≠ .complete) ∧ RowOk h w' id row'
  committed : w.committed id <+: w'.committed id
  creating : w.creating id = some i → w'.committed id = []
  references : ∀ r ∈ w'.references, r ∈ w.references ∨ ArchiveOk w' r
  distinct : Distinct w'.references

theorem GoesOn.isActiveIn (hgoes : GoesOn h i id w w') (ht : Touched id w w') {project : String}
    {j : UploadId} (hactive : w'.isActiveIn project j) : w.isActiveIn project j := by
  by_cases hj : j = id
  · subst hj
    cases hrow : w.row j with
    | none =>
      rw [World.isActiveIn, hgoes.missing hrow] at hactive
      cases hactive
    | some row =>
      obtain ⟨row', hrow', hevolves, -⟩ := hgoes.row row hrow
      exact isActiveIn_of_evolves hrow hrow' hevolves hactive
  · rwa [World.isActiveIn, ht.row j hj] at hactive

theorem GoesOn.evolves (hgoes : GoesOn h i id w w') (ht : Touched id w w') : Evolves w w' where
  issued := Nat.le_of_eq ht.issued.symm
  now := Nat.le_of_eq ht.now.symm
  announced := fun j hj => ht.announced ▸ hj
  row := fun j row hrow => by
    by_cases hj : j = id
    · subst hj
      obtain ⟨row', hrow', hevolves, hcommitted, -⟩ := hgoes.row row hrow
      exact ⟨row', hrow', hevolves, hcommitted⟩
    · exact ⟨row, (ht.row j hj).trans hrow, .refl row, fun _ => ht.committed j hj⟩
  committed := fun j => by
    by_cases hj : j = id
    · exact hj ▸ hgoes.committed
    · exact ht.committed j hj ▸ List.prefix_rfl
  references := ht.references

/-- A session that is complete goes on with its archive. -/
theorem GoesOn.archive (hgoes : GoesOn h i id w w') (ht : Touched id w w') {r : Reference}
    (hr : ArchiveOk w r) : ArchiveOk w' r := by
  by_cases hid : r.upload = id
  · obtain ⟨row, hrow, hcomplete, hreference⟩ := hr.row
    have hended : row.status.isActive = false := by
      rw [hcomplete]
      rfl
    obtain ⟨row', hrow', hevolves, hcommitted, -⟩ := hgoes.row row (hid ▸ hrow)
    refine ⟨⟨row', hid ▸ hrow', (hevolves.complete hended).1.mpr hcomplete, ?_⟩, ?_⟩
    · rw [PackageUpload.reference, hevolves.owner, hevolves.request]
      exact hreference
    · rw [ht.blob, World.received, hid, hcommitted hended, ← hid]
      exact hr.blob
  · exact hr.frame (ht.row _ hid) (ht.committed _ hid) (by rw [ht.blob])

theorem GoesOn.inv (hgoes : GoesOn h i id w w') (ht : Touched id w w') (hinv : Inv h w)
    (hown : Owns i id w) : Inv h w' where
  rows := fun j row' hrow' => by
    by_cases hj : j = id
    · subst hj
      cases hrow : w.row j with
      | none =>
        rw [hgoes.missing hrow] at hrow'
        cases hrow'
      | some row =>
        obtain ⟨row'', hrow'', -, -, -, hok⟩ := hgoes.row row hrow
        obtain rfl := Option.some.inj (hrow''.symm.trans hrow')
        exact hok
    · rw [ht.row j hj] at hrow'
      exact (hinv.rows j row' hrow').frame (ht.committed j hj) (ht.file j hj)
        (ht.published j hj) (Nat.le_of_eq ht.now.symm) ht.references
  issued := fun j hle => by
    rw [ht.issued] at hle
    have hj : j ≠ id := fun hj => absurd (hown.lt_issued hinv) (Nat.not_lt.mpr (hj ▸ hle))
    rw [ht.row j hj, ht.committed j hj, ht.creating, ht.announced]
    exact hinv.issued j hle
  locked := fun j k hlock => by
    rw [ht.issued]
    exact hinv.locked j k (ht.locks ▸ hlock)
  marked := fun k j hmarked => by
    rw [ht.marked] at hmarked
    rw [ht.now, ht.locks]
    obtain ⟨row, hrow, hrest⟩ := hinv.marked k j hmarked
    by_cases hj : j = id
    · subst hj
      obtain ⟨row', hrow', hevolves, -, hexpired, -⟩ := hgoes.row row hrow
      obtain ⟨hle, hne⟩ := hexpired fun hunmarked => hunmarked k hmarked
      exact ⟨row', hrow', hle, hne, hevolves.owner ▸ hrest.2.2⟩
    · exact ⟨row, (ht.row j hj).trans hrow, hrest⟩
  creating := fun j k hcreating => by
    rw [ht.creating] at hcreating
    rw [ht.announced, ht.locks]
    obtain ⟨hannounced, hcommitted, hlock⟩ := hinv.creating j k hcreating
    by_cases hj : j = id
    · subst hj
      -- Whoever still creates the session is the one that moves.
      have hk : w.creating j = some i := by
        rcases hown with ⟨-, hnone⟩ | hsome
        · rw [hnone] at hcreating
          cases hcreating
        · exact hsome
      refine ⟨hannounced, hgoes.creating hk, fun row' hrow' => ?_⟩
      cases hrow : w.row j with
      | none =>
        rw [hgoes.missing hrow] at hrow'
        cases hrow'
      | some row =>
        obtain ⟨row'', hrow'', hevolves, -⟩ := hgoes.row row hrow
        obtain rfl := Option.some.inj (hrow''.symm.trans hrow')
        exact hevolves.owner ▸ hlock row hrow
    · rw [ht.committed j hj, ht.row j hj]
      exact ⟨hannounced, hcommitted, hlock⟩
  announced := fun j hannounced => by
    rw [ht.creating]
    exact hinv.announced j (ht.announced ▸ hannounced)
  active := fun project =>
    Nat.le_trans (activeIn_le ht.issued fun _ => hgoes.isActiveIn ht) (hinv.active project)
  references := fun r hr => by
    rcases hgoes.references r hr with hold | hnew
    · exact hgoes.archive ht (hinv.references r hold)
    · exact hnew
  distinct := hgoes.distinct

/-- **A request that changes a session which it owns respects the others**, if the session goes
on as it should. -/
theorem respects_touch (hinv : Inv h w) (hown : Owns i id w) (ht : Touched id w w')
    (hgoes : GoesOn h i id w w') : (protocol h).Respects i w w' where
  inv := hgoes.inv ht hinv hown
  evolves := hgoes.evolves ht
  rely := fun j hji => by
    -- What another request owns is not the session that is changed.
    have hlock : ∀ k, w.locks (.upload k) = some j → w.creating k = none → k ≠ id := by
      rintro k hlock hnone rfl
      rcases hown with ⟨hmine, -⟩ | hsome
      · exact hji (Option.some.inj (hlock.symm.trans hmine))
      · rw [hnone] at hsome
        cases hsome
    have hcreating : ∀ k, w.creating k = some j → k ≠ id := by
      rintro k hcreating rfl
      rcases hown with ⟨-, hnone⟩ | hsome
      · rw [hnone] at hcreating
        cases hcreating
      · exact hji (Option.some.inj (hcreating.symm.trans hsome))
    refine
      { evolves := hgoes.evolves ht
        locks := fun lock h => ht.locks ▸ h
        session := fun k hk hnone => ?_
        project := fun project _ => activeIn_le ht.issued fun _ => hgoes.isActiveIn ht
        blob := fun digest _ => by rw [ht.blob]
        marked := by rw [ht.marked]
        creating := fun k => by rw [ht.creating]
        created := fun k hk => ?_ }
    · have hne := hlock k hk hnone
      refine ⟨by rw [ht.creating, hnone], ht.file k hne, ht.committed k hne, ht.published k hne,
        .inl (ht.row k hne), fun hunmarked => ⟨fun l => ?_, ht.row k hne⟩⟩
      rw [ht.marked]
      exact hunmarked l
    · have hne := hcreating k hk
      exact ⟨ht.row k hne, ht.file k hne, ht.committed k hne⟩

/-! ### Changes of no session -/

/-- No session is changed. -/
structure Same (w w' : World) : Prop where
  issued : w'.issued = w.issued
  now : w.now ≤ w'.now
  row : w'.row = w.row
  file : w'.file = w.file
  committed : w'.committed = w.committed
  published : w'.published = w.published
  marked : w'.marked = w.marked
  creating : w'.creating = w.creating
  announced : w'.announced = w.announced
  references : w'.references = w.references

theorem Same.evolves (hs : Same w w') : Evolves w w' where
  issued := Nat.le_of_eq hs.issued.symm
  now := hs.now
  announced := fun id hid => hs.announced ▸ hid
  row := fun id row hrow =>
    ⟨row, hs.row ▸ hrow, .refl row, fun _ => by rw [hs.committed]⟩
  committed := fun id => hs.committed ▸ List.prefix_rfl
  references := fun r hr => by rwa [hs.references]

theorem Same.activeIn (hs : Same w w') (project : String) :
    w'.activeIn project = w.activeIn project := by
  rw [World.activeIn, hs.issued, World.activeIn]
  refine List.filter_congr fun id _ => ?_
  rw [World.isActiveIn, hs.row, World.isActiveIn]

theorem Same.rely (hs : Same w w')
    (hlocks : ∀ lock, w.locks lock = some i → w'.locks lock = some i)
    (hblob : ∀ digest, w.locks (.blob digest) = some i → w'.blob digest = w.blob digest) :
    Rely i w w' where
  evolves := hs.evolves
  locks := hlocks
  session := fun id _ hnone =>
    { creating := by rw [hs.creating, hnone]
      file := by rw [hs.file]
      committed := by rw [hs.committed]
      published := by rw [hs.published]
      row := .inl (by rw [hs.row])
      unmarked := fun hunmarked =>
        ⟨fun j => by rw [hs.marked]; exact hunmarked j, by rw [hs.row]⟩ }
  project := fun project _ => by rw [hs.activeIn]
  blob := hblob
  marked := by rw [hs.marked]
  creating := fun id => by rw [hs.creating]
  created := fun id _ => ⟨by rw [hs.row], by rw [hs.file], by rw [hs.committed]⟩

theorem Same.inv (hs : Same w w') (hinv : Inv h w)
    (hlocked : ∀ id j, w'.locks (.upload id) = some j → id < w.issued)
    (hproject : ∀ project j, w.locks (.project project) = some j →
      w'.locks (.project project) = some j)
    (hblob : ∀ r ∈ w.references, w'.blob r.archiveDigest = w.blob r.archiveDigest) :
    Inv h w' where
  rows := fun id row hrow =>
    (hinv.rows id row (hs.row ▸ hrow)).frame (by rw [hs.committed]) (by rw [hs.file])
      (by rw [hs.published]) hs.now hs.evolves.references
  issued := fun id hle => by
    rw [hs.issued] at hle
    rw [hs.row, hs.committed, hs.creating, hs.announced]
    exact hinv.issued id hle
  locked := fun id j hlock => by
    rw [hs.issued]
    exact hlocked id j hlock
  marked := fun j id hid => by
    rw [hs.marked] at hid
    obtain ⟨row, hrow, hexpired, hne, hlock⟩ := hinv.marked j id hid
    exact ⟨row, hs.row ▸ hrow, Nat.le_trans hexpired hs.now, hne, hproject _ _ hlock⟩
  creating := fun id j hid => by
    rw [hs.creating] at hid
    obtain ⟨hannounced, hcommitted, hlock⟩ := hinv.creating id j hid
    rw [hs.announced, hs.committed, hs.row]
    exact ⟨hannounced, hcommitted, fun row hrow => hproject _ _ (hlock row hrow)⟩
  announced := fun id hid => by
    rw [hs.creating]
    exact hinv.announced id (hs.announced ▸ hid)
  active := fun project => by
    rw [hs.activeIn]
    exact hinv.active project
  references := fun r hr => by
    rw [hs.references] at hr
    exact (hinv.references r hr).frame (by rw [hs.row]) (by rw [hs.committed]) (hblob r hr)
  distinct := by
    rw [hs.references]
    exact hinv.distinct

end Palimpsest.Hub.Upload
