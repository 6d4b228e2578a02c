import Palimpsest.Volumes.Creation

/-!
# A creation with working tools

A call of `ensure_kvm_volume` to which nothing fails. Where the name is free it comes to its link
and from there to its end (`Palimpsest.Volumes.leads_ensureKvmVolume`), and where the volume has
one name it verifies it (`Palimpsest.Volumes.yields_ensureKvmVolume_of_stands`). It does not
return from any other state (`Palimpsest.Volumes.ready_of_returns`).
-/

namespace Palimpsest.Volumes

open Calls Calls.Program

variable {info : List UInt8 → Option (List (String × Json.Value))} {uid : ℕ}
  {project name : String} {foreign : Inode → Prop} {sizeBytes : ℕ} {d : Directory}

/-! ### The tools -/

/-- What `mkfs.ext4` makes of a new file, and what `qemu-img` says of it, is as documented. -/
structure Works (info : List UInt8 → Option (List (String × Json.Value))) (label : Text)
    (sizeBytes : ℕ) (image : List UInt8) : Prop where
  length : image.length = sizeBytes
  superblock : hasExt4Superblock label image = true
  reported : ∃ report, info image = some report ∧ describesRaw sizeBytes report = true

/-- Nothing fails, and nobody else is about. -/
def working (image : List UInt8) (drawn : String) : Outcome where
  written := image
  drawn := drawn

/-- The name that `mkstemp` gives to a temporary file. -/
def temporaryName (name drawn : String) : String := "." ++ name ++ "-" ++ drawn ++ ".raw.tmp"

section

variable {path : String} {label : Text} {image : List UInt8} {drawn : String} {w : World}

theorem Works.sealed (h : Works info label sizeBytes image) :
    Sealed info uid label sizeBytes ⟨image, 0o600, uid, true⟩ where
  plain := by
    rw [isPlainVolume, h.length]
    simp
  superblock := h.superblock
  reported := h.reported

theorem yields_call {c : FileCall} {a : Answer c} {d' : Directory} {Q : Answer c → World → Prop}
    (h : perform info uid (working image drawn) w.directory c = (some a, d'))
    (hQ : ∀ log, Q a ⟨d', log⟩) :
    Yields (answer info uid path (working image drawn)) (call c) w Q := by
  have hanswer : answer info uid path (working image drawn) c w =
      (some a, ⟨d', w.log ++ [(c, true)]⟩) := by
    rw [answer, h]
    rfl
  exact yields_ask hanswer (hQ _)

theorem yields_runRequired {command : Command} {result : CompletedProcess} {d' : Directory}
    {Q : CompletedProcess → World → Prop}
    (h : perform info uid (working image drawn) w.directory (.run command) = (some result, d'))
    (hzero : result.returncode = 0) (hQ : ∀ log, Q result ⟨d', log⟩) :
    Yields (answer info uid path (working image drawn)) (runRequired command) w Q :=
  yields_bind (yields_call h fun log =>
    yields_bind (yields_require (decide_eq_true hzero) (yields_pure (hQ log))))

/-- A volume with one name passes its verification. -/
theorem yields_verifyKvmPath {file : String} {i : ℕ} {f : Inode} {Q : Unit → World → Prop}
    (hf : Sealed info uid label sizeBytes f) (hlook : w.directory.look file = some (i, f, 1))
    (hQ : ∀ log, Q () ⟨w.directory, log⟩) :
    Yields (answer info uid path (working image drawn)) (verifyKvmPath uid file sizeBytes label) w
      Q := by
  obtain ⟨report, hreport, hraw⟩ := hf.reported
  have hread : perform info uid (working image drawn) w.directory (.read file) =
      (some f.content, w.directory) := by
    rw [perform, hlook, (Directory.find_of_look hlook).1]
    rfl
  have hinfo : perform info uid (working image drawn) w.directory (.run (.info file)) =
      (some ⟨0, some report⟩, w.directory) := by
    rw [perform, hlook, Option.bind_some, hreport]
    rfl
  refine yields_bind (yields_call rfl fun _ => yields_bind (yields_take hlook
    (yields_bind (yields_require hf.plain (yields_bind (yields_bind (yields_runRequired hinfo rfl
      fun _ => yields_take rfl ?_)))))))
  exact yields_bind (yields_require hraw (yields_bind (yields_call hread fun log =>
    yields_require hf.superblock (hQ log))))

variable (drawn) in
/-- Up to its link, a new volume stands beside a free name. -/
theorem yields_formatTemporary {temporary : String} {i : ℕ} {f : Inode}
    (hworks : Works info label sizeBytes image)
    (hw : Beside foreign path temporary i f w.directory) (hf : f.uid = uid ∧ f.regular = true) :
    Yields (answer info uid path (working image drawn))
      (formatTemporary uid sizeBytes label temporary i) w fun _ w' =>
        Beside foreign path temporary i ⟨image, 0o600, uid, true⟩ w'.directory := by
  obtain rfl := (Directory.find_of_look hw.look).2.1
  have hmode := hw.put { w.directory.inodes i with mode := 0o600 }
  refine yields_bind (yields_call rfl fun _ => yields_bind (yields_call rfl fun _ =>
    yields_bind (yields_call rfl fun _ => ?_)))
  set d := w.directory.chmod i 0o600
  set g : Inode := { d.inodes i with content := truncated sizeBytes (d.inodes i).content }
  have hlength : Beside foreign path temporary i g (d.put i g) := hmode.put g
  have hinode : d.inodes i = { w.directory.inodes i with mode := 0o600 } :=
    (Directory.find_of_look hmode.look).2.1
  have hg : { g with content := image } = (⟨image, 0o600, uid, true⟩ : Inode) := by
    simp only [g, hinode, hf]
  have hformat : perform info uid (working image drawn) (d.put i g)
      (.run (.format label temporary)) =
      (some ⟨0, none⟩, (d.put i g).put i ⟨image, 0o600, uid, true⟩) := by
    rw [perform, hlength.look, ← hg]
    rfl
  have himage := hlength.put ⟨image, 0o600, uid, true⟩
  exact yields_bind (yields_runRequired hformat rfl fun _ => yields_bind (yields_call rfl fun _ =>
    yields_verifyKvmPath hworks.sealed himage.look fun _ => himage))

variable (image drawn) in
/-- After its link, a volume loses its temporary name. -/
theorem yields_settle {temporary : String} {i : ℕ} {f : Inode}
    (hw : Linked path temporary i f w.directory) :
    Yields (answer info uid path (working image drawn)) (settle path temporary none) w fun r w' =>
      r = (some (), some i) ∧ Stands path (i, f, 1) w'.directory := by
  obtain ⟨d, hd⟩ := Option.ne_none_iff_exists'.mp (Directory.unlink_ne_none hw.look)
  have hunlink : perform info uid (working image drawn) w.directory (.unlink temporary) =
      (some true, d) := by
    rw [perform, hd]
    rfl
  obtain ⟨a, w₁, hstat, rfl, hw₁⟩ : Yields (answer info uid path (working image drawn))
      (statPublished path) w fun x w' => x = (i, f, 2) ∧ w'.directory = w.directory :=
    yields_bind (yields_call rfl fun _ => yields_take hw.published ⟨rfl, rfl⟩)
  rw [← hw₁] at hunlink
  obtain ⟨a, w₂, hremoved, hw₂⟩ : Yields (answer info uid path (working image drawn))
      (unlinkTemporary temporary) w₁ fun _ w' => w'.directory = d :=
    yields_bind (yields_call rfl fun _ => yields_bind (yields_call hunlink fun _ =>
      yields_bind (yields_require rfl (yields_bind (yields_call rfl fun _ => yields_pure rfl)))))
  refine ⟨_, w₂, (Tried.leads_lift hstat).bind (Tried.leads_lift hremoved), rfl, ?_⟩
  rw [hw₂]
  exact hw.unlink hd

/-- **With working tools a creation comes to its link and from there to its end.** -/
theorem leads_createVolume (hname : isLogicalName name = true)
    (hworks : Works info label sizeBytes image)
    (hw : w.directory.WellFormed) (hfree : w.directory.look (kvmVolumePath name) = none)
    (hdrawn : w.directory.find (temporaryName name drawn) = none) :
    ∃ q w' i, Leads (answer info uid (kvmVolumePath name) (working image drawn))
      (createVolume uid (kvmVolumePath name) sizeBytes label name) w q w' ∧
      Linked (kvmVolumePath name) (temporaryName name drawn) i ⟨image, 0o600, uid, true⟩
        w'.directory ∧
      Yields (answer info uid (kvmVolumePath name) (working image drawn)) q w' fun _ w'' =>
        Ensured info uid label sizeBytes (kvmVolumePath name) w''.directory := by
  set path := kvmVolumePath name
  set temporary := temporaryName name drawn
  have hne : temporary ≠ path := by
    rw [show temporary = "." ++ (name ++ ("-" ++ (drawn ++ ".raw.tmp"))) by
      simp only [temporary, temporaryName, String.append_assoc]]
    exact dotted_ne_kvmVolumePath hname
  -- The temporary file is new, and its name is not that of the volume.
  obtain ⟨d, hd⟩ := Option.isSome_iff_exists.mp
    (Directory.isSome_create (m := 0o600) (u := uid) |>.mpr hdrawn)
  have hnew : Beside (fun _ => False) path temporary w.directory.next ⟨[], 0o600, uid, true⟩ d :=
    FreeDirectory.create ⟨hw, Or.inl hfree⟩ hne hd
  -- What comes before the file is made leaves the directory as it is.
  obtain ⟨_, w₁, hpreflight, hw₁⟩ : Yields (answer info uid path (working image drawn))
      preflightKvmTools w fun _ w' => w'.directory = w.directory :=
    yields_bind (yields_runRequired rfl rfl fun _ => yields_bind (yields_runRequired rfl rfl
      fun _ => yields_pure rfl))
  obtain ⟨_, w₂, hparent, hw₂⟩ : Yields (answer info uid path (working image drawn))
      (call .makeParent) w₁ fun _ w' => w'.directory = w.directory :=
    yields_call rfl fun _ => hw₁
  have hcreate : perform info uid (working image drawn) w₂.directory
      (.mkstemp ("." ++ name ++ "-") ".raw.tmp") = (some (temporary, w.directory.next), d) := by
    rw [hw₂, perform]
    change answerIf _ _ _ (w.directory.create temporary 0o600 uid) = _
    rw [hd]
    rfl
  obtain ⟨x, w₃, hmkstemp, rfl, rfl⟩ : Yields (answer info uid path (working image drawn))
      (call (.mkstemp ("." ++ name ++ "-") ".raw.tmp")) w₂
      fun x w' => x = (temporary, w.directory.next) ∧ w'.directory = d :=
    yields_call hcreate fun _ => ⟨rfl, rfl⟩
  -- From here on the calls are those of `publish`: the file is formatted, then linked.
  obtain ⟨_, w₄, hformat, hw₄⟩ := yields_formatTemporary drawn hworks hnew ⟨rfl, rfl⟩
  have hpath : w₄.directory.look path = none := by
    refine hw₄.free.resolve_right ?_
    rintro ⟨_, _, hcon, _⟩
    exact hcon
  obtain ⟨e, he⟩ : ∃ e, w₄.directory.link temporary path = some e :=
    ⟨_, Directory.link_eq_some (Directory.find_of_look hw₄.look).1
      (Directory.look_eq_none.mp hpath)⟩
  have hlinked : perform info uid (working image drawn) w₄.directory (.link temporary path) =
      (some (), e) := by
    rw [perform, he]
    rfl
  obtain ⟨_, w₅, hlink, hw₅⟩ : Yields (answer info uid path (working image drawn))
      (call (.link temporary path)) w₄ fun _ w' =>
        Linked path temporary w.directory.next ⟨image, 0o600, uid, true⟩ w'.directory :=
    yields_call hlinked fun _ => hw₄.link he
  have hpublish : Leads (answer info uid path (working image drawn))
      (publish uid path sizeBytes label temporary w.directory.next none) w₃
      (settle path temporary none) w₅ :=
    (Tried.leads_lift hformat).bind ((Tried.leads_lift hlink).bind (.refl _ _))
  refine ⟨_, w₅, _, hpreflight.bind (hparent.bind (hmkstemp.bind hpublish.bind_left)), hw₅, ?_⟩
  obtain ⟨r, w₆, hsettle, rfl, hw₆⟩ := yields_settle image drawn hw₅
  exact yields_bind ⟨_, w₆, hsettle, yields_pure ⟨_, _, hworks.sealed, hw₆⟩⟩

variable (uid) in
/-- The call for a volume that is not there. -/
theorem leads_ensureKvmVolume
    (hvalid : isVolumeSize sizeBytes && isLogicalName project && isLogicalName name)
    (hworks : Works info (kvmVolumeLabel project name) sizeBytes image)
    (hd : d.WellFormed) (hfree : d.look (kvmVolumePath name) = none)
    (hdrawn : d.find (temporaryName name drawn) = none) :
    ∃ q w' i, Leads (answer info uid (kvmVolumePath name) (working image drawn))
      (ensureKvmVolume uid project name sizeBytes) ⟨d, []⟩ q w' ∧
      Linked (kvmVolumePath name) (temporaryName name drawn) i ⟨image, 0o600, uid, true⟩
        w'.directory ∧
      Yields (answer info uid (kvmVolumePath name) (working image drawn)) q w' fun _ w'' =>
        Ensured info uid (kvmVolumeLabel project name) sizeBytes (kvmVolumePath name)
          w''.directory := by
  have hname : isLogicalName name = true := (Bool.and_eq_true _ _ ▸ hvalid).2
  obtain ⟨_, w₁, hrequire, rfl⟩ : Yields (answer info uid (kvmVolumePath name)
      (working image drawn)) (require _) ⟨d, []⟩ fun _ w' => w' = ⟨d, []⟩ :=
    yields_require hvalid rfl
  obtain ⟨there, w₂, hlexists, rfl, hw₂⟩ : Yields (answer info uid (kvmVolumePath name)
      (working image drawn)) (call (.lexists (kvmVolumePath name))) ⟨d, []⟩
      fun there w' => there = false ∧ w'.directory = d := by
    refine yields_call rfl fun _ => ⟨?_, rfl⟩
    rw [Directory.look_eq_none.mp hfree]
    rfl
  obtain ⟨q, w₃, i, hcreate, hlinked, hends⟩ := leads_createVolume (w := w₂) hname hworks
    (hw₂ ▸ hd) (hw₂ ▸ hfree) (hw₂ ▸ hdrawn)
  refine ⟨_, w₃, i, hrequire.bind (hlexists.bind hcreate.bind_left).bind_left, hlinked, ?_⟩
  obtain ⟨_, w₄, hleads, hensured⟩ := hends
  exact yields_bind (yields_bind ⟨_, w₄, hleads, yields_pure (yields_pure hensured)⟩)

variable (image drawn) in
/-- The call for a volume that has one name. -/
theorem yields_ensureKvmVolume_of_stands {i : ℕ} {f : Inode}
    (hvalid : isVolumeSize sizeBytes && isLogicalName project && isLogicalName name)
    (hf : Sealed info uid (kvmVolumeLabel project name) sizeBytes f)
    (hd : Stands (kvmVolumePath name) (i, f, 1) d) :
    Yields (answer info uid (kvmVolumePath name) (working image drawn))
      (ensureKvmVolume uid project name sizeBytes) ⟨d, []⟩ fun _ w' =>
        Ensured info uid (kvmVolumeLabel project name) sizeBytes (kvmVolumePath name)
          w'.directory := by
  refine yields_bind (yields_require hvalid (yields_bind (yields_bind (yields_call rfl
    fun _ => ?_))))
  rw [(Directory.find_of_look hd.look).1]
  exact yields_bind (yields_verifyKvmPath hf hd.look fun _ =>
    yields_pure (yields_pure ⟨i, f, hf, hd⟩))

/-- What a call that returns has found. -/
theorem ready_of_returns {o : Outcome} (ho : o.appears = none) {v : KvmVolume} {w' : World}
    (hd : d.WellFormed)
    (h : (ensureKvmVolume uid project name sizeBytes).run
      (answer info uid (kvmVolumePath name) o) ⟨d, []⟩ = (some v, w')) :
    Ready info uid (kvmVolumeLabel project name) (fun _ => False) sizeBytes (kvmVolumePath name)
      d := by
  set R := Ready info uid (kvmVolumeLabel project name) (fun _ => False) sizeBytes
    (kvmVolumePath name) d
  have hsafe : (ensureKvmVolume uid project name sizeBytes).Safe (fun _ _ => True)
      (Effect info uid (kvmVolumePath name) fun _ => False) (fun _ => True) (fun _ _ => R)
      ⟨d, []⟩ := by
    refine safe_bind (safe_require trivial fun _ => safe_bind (safe_bind ?_))
    cases hlook : d.look (kvmVolumePath name) with
    | none =>
      refine safe_lexists stable_free ⟨hd, Or.inl hlook⟩ trivial (fun _ _ _ => trivial)
        fun w₁ _ _ => ?_
      rw [Directory.look_eq_none.mp hlook]
      exact safe_bind ((safe_trivial _ w₁).imp fun _ _ _ => Or.inl (Or.inl hlook))
    | some x =>
      obtain ⟨i, f, n⟩ := x
      refine safe_lexists stable_stands ⟨hd, hlook⟩ trivial (fun _ _ _ => trivial)
        fun w₁ hw₁ _ => ?_
      rw [(Directory.find_of_look hlook).1]
      refine safe_bind (safe_verifyKvmPath stable_stands (fun d hd => hd.look) hw₁
        (fun _ _ _ _ => trivial) (fun _ _ => trivial) fun hone hsealed _ _ => ?_)
      exact Or.inr ⟨i, f, hsealed, hone ▸ hlook⟩
  refine (hsafe.runs id fun c w => ⟨o, ?_, rfl⟩).1 v w' h
  rw [ho]
  nofun

end

end Palimpsest.Volumes
