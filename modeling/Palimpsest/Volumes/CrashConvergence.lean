import Palimpsest.Volumes.Deletion
import Palimpsest.Volumes.WorkingTools

/-!
# Volumes after a crash

The calls for one volume one after the other, each of them killed at some point or not. The next
`ensure_kvm_volume` finds its way exactly where the name is free or the volume has one name and
the right size (`Palimpsest.Volumes.kvmVolume_converges`), which a call that is killed between the
link and the removal of the temporary name does not leave.
-/

namespace Palimpsest.Volumes

open Calls Calls.Program Control

variable {info : List UInt8 → Option (List (String × Json.Value))} {uid : ℕ}
  {project name : String} {foreign : Inode → Prop} {sizeBytes : ℕ} {d : Directory}

/-! ### Calls one after the other -/

/-- A call for the volume. -/
inductive Request
  | ensure (sizeBytes : ℕ)
  | delete (sizeBytes : ℕ) (hasValidator : Bool)

/-- A call for the volume, killed where the outcomes end unless it ends before. -/
structure Attempt where
  request : Request
  outcomes : List Outcome

section

variable (info uid project name)

/-- The program of a call. -/
def Request.program : Request → VolumeProgram Unit
  | .ensure size => do
    let _ ← ensureKvmVolume uid project name size
  | .delete size hasValidator => do
    let _ ← deleteKvmVolume uid project name size hasValidator

/-- What is left of a call, and what it leaves. -/
def Attempt.rest (a : Attempt) (d : Directory) : VolumeProgram Unit × World :=
  (a.request.program uid project name).advance (answer info uid (kvmVolumePath name)) a.outcomes
    ⟨d, []⟩

/-- The directory after some calls. -/
def after (attempts : List Attempt) (d : Directory) : Directory :=
  attempts.foldl (fun d a => (a.rest info uid project name d).2.directory) d

/-- Every creation is of the same size, and none stops in the window. -/
def Settled (sizeBytes : ℕ) : List Attempt → Directory → Prop
  | [], _ => True
  | a :: attempts, d =>
    (∀ size, a.request = .ensure size →
      size = sizeBytes ∧ ¬Window (kvmVolumePath name) (a.rest info uid project name d).2.log) ∧
      Settled sizeBytes attempts (a.rest info uid project name d).2.directory

end

/-- The files that someone else puts there are of this kind. -/
def Attempt.Within (foreign : Inode → Prop) (a : Attempt) : Prop :=
  ∀ o ∈ a.outcomes, ∀ f ∈ o.appears, foreign f

theorem effect_answer {path : String} {outcomes : List Outcome}
    (h : ∀ o ∈ outcomes, ∀ f ∈ o.appears, foreign f) :
    ∀ o ∈ outcomes, ∀ c w, Effect info uid path foreign c (answer info uid path o c w).1 w
      (answer info uid path o c w).2 :=
  fun o ho _ _ => ⟨o, h o ho, rfl⟩

theorem Sound.good {label : Text} {path : String} (sizeBytes : ℕ)
    (h : Sound info uid label foreign path d) :
    Good info uid label foreign sizeBytes False path d :=
  ⟨h, False.elim⟩

section

variable {a : Attempt} {ready : Prop}

/-- What is left of a creation. -/
theorem safe_rest_ensure {size : ℕ} (ha : a.Within foreign) (hrequest : a.request = .ensure size)
    (hd : Good info uid (kvmVolumeLabel project name) foreign size ready (kvmVolumePath name) d) :
    (a.rest info uid project name d).1.Safe
      (Allowed info uid (kvmVolumeLabel project name) foreign size ready (kvmVolumePath name))
      (Effect info uid (kvmVolumePath name) foreign)
      (Kept info uid (kvmVolumeLabel project name) foreign size ready (kvmVolumePath name))
      (fun _ => Kept info uid (kvmVolumeLabel project name) foreign size ready
        (kvmVolumePath name))
      (a.rest info uid project name d).2 := by
  rw [Attempt.rest, hrequest, Request.program]
  refine Safe.advance (effect_answer ha) (safe_bind ?_)
  exact (safe_ensureKvmVolume (w := ⟨d, []⟩) rfl rfl hd).imp fun _ _ h => h.good.kept

/-- What is left of a deletion. -/
theorem safe_rest_delete {size : ℕ} {hasValidator : Bool} (ha : a.Within foreign)
    (hrequest : a.request = .delete size hasValidator)
    (hd : Good info uid (kvmVolumeLabel project name) foreign sizeBytes ready (kvmVolumePath name)
      d) :
    (a.rest info uid project name d).1.Safe
      (AllowedIn info uid (kvmVolumeLabel project name) foreign sizeBytes ready
        (kvmVolumePath name) d)
      (Effect info uid (kvmVolumePath name) foreign)
      (Ending info uid (kvmVolumeLabel project name) foreign sizeBytes ready (kvmVolumePath name) d)
      (fun _ w => Good info uid (kvmVolumeLabel project name) foreign sizeBytes ready
        (kvmVolumePath name) w.directory)
      (a.rest info uid project name d).2 := by
  rw [Attempt.rest, hrequest, Request.program]
  refine Safe.advance (effect_answer ha) (safe_bind ?_)
  exact (safe_deleteKvmVolume (w := ⟨d, []⟩) size hasValidator rfl rfl hd).imp fun _ _ h => h

/-- **What a call keeps**, whatever it is answered and wherever it is killed. -/
theorem sound_rest (ha : a.Within foreign)
    (hd : Sound info uid (kvmVolumeLabel project name) foreign (kvmVolumePath name) d) :
    Sound info uid (kvmVolumeLabel project name) foreign (kvmVolumePath name)
      (a.rest info uid project name d).2.directory := by
  set K : World → Prop := fun w =>
    Sound info uid (kvmVolumeLabel project name) foreign (kvmVolumePath name) w.directory
  cases hrequest : a.request with
  | ensure size =>
    exact (safe_rest_ensure ha hrequest (hd.good size)).here (K := K) (fun _ _ h => h.1.sound)
      (fun _ h => h.sound) fun _ _ h => h.sound
  | delete size hasValidator =>
    exact (safe_rest_delete ha hrequest (hd.good size)).here (K := K) (fun _ _ h => h.1.sound)
      (fun _ h => h.good.sound) fun _ _ h => h.sound

/-- A call keeps the volume ready, unless it stops in the window. -/
theorem ready_rest (ha : a.Within foreign)
    (hd : Sound info uid (kvmVolumeLabel project name) foreign (kvmVolumePath name) d)
    (hready : Ready info uid (kvmVolumeLabel project name) foreign sizeBytes (kvmVolumePath name) d)
    (hsettled : ∀ size, a.request = .ensure size →
      size = sizeBytes ∧ ¬Window (kvmVolumePath name) (a.rest info uid project name d).2.log) :
    Ready info uid (kvmVolumeLabel project name) foreign sizeBytes (kvmVolumePath name)
      (a.rest info uid project name d).2.directory := by
  have hgood : Good info uid (kvmVolumeLabel project name) foreign sizeBytes True
      (kvmVolumePath name) d := ⟨hd, fun _ => hready⟩
  cases hrequest : a.request with
  | ensure size =>
    obtain ⟨rfl, hwindow⟩ := hsettled size hrequest
    have hkept := (safe_rest_ensure ha hrequest hgood).here (fun _ _ h => h.1) (fun _ h => h)
      fun _ _ h => h
    exact (hkept.tidy trivial).resolve_left hwindow
  | delete size hasValidator =>
    have hkept := (safe_rest_delete ha hrequest hgood).here (fun _ _ h => h.1) (fun _ h => h.good)
      fun _ _ h => h
    exact hkept.ready_of trivial

/-- **The call that is about to be made** leaves alone what has the name of the volume. -/
theorem spares_rest {c : FileCall} {i : ℕ} (ha : a.Within foreign)
    (hd : Sound info uid (kvmVolumeLabel project name) foreign (kvmVolumePath name) d)
    (hc : (a.rest info uid project name d).1.pending = some c)
    (hi : (a.rest info uid project name d).2.directory.find (kvmVolumePath name) = some i)
    (hwhose : (∃ size, a.request = .ensure size) ∨ d.find (kvmVolumePath name) = some i ∨
      ∀ f, ¬foreign f) :
    Spares (kvmVolumePath name) i (a.rest info uid project name d).2.directory c := by
  cases hrequest : a.request with
  | ensure size => exact ((safe_rest_ensure ha hrequest (hd.good size)).pending hc).2 i hi
  | delete size hasValidator =>
    refine ((safe_rest_delete ha hrequest (hd.good size)).pending hc).2 i ?_
    rw [hrequest] at hwhose
    exact (hwhose.resolve_left nofun).imp_right fun hnone => ⟨hnone, hi⟩

/-- **A deletion that has raised** leaves the data under the name of the volume, or another file
has the name, unless the data is lost. -/
theorem stands_of_raised {size : ℕ} {hasValidator : Bool} {x : ℕ × Inode × ℕ}
    (ha : a.Within foreign) (hrequest : a.request = .delete size hasValidator)
    (hd : Sound info uid (kvmVolumeLabel project name) foreign (kvmVolumePath name) d)
    (hraised : (a.rest info uid project name d).1 = .raise)
    (hlost : ¬Lost (kvmVolumePath name) (a.rest info uid project name d).2.log)
    (hx : d.look (kvmVolumePath name) = some x) :
    (a.rest info uid project name d).2.directory.look (kvmVolumePath name) = some x ∨
      ∃ j, (a.rest info uid project name d).2.directory.find (kvmVolumePath name) = some j ∧
        j ≠ x.1 := by
  have hsafe := safe_rest_delete ha hrequest (hd.good size)
  rw [hraised] at hsafe
  cases hsafe.whereabouts x hx with
  | stands h => exact Or.inl h.look
  | displaced quarantine h htaken =>
    obtain ⟨y, hy⟩ := Option.ne_none_iff_exists'.mp htaken
    obtain ⟨j, f, n⟩ := y
    have hj := (Directory.find_of_look hy).1
    exact Or.inr ⟨j, hj, fun heq => h.find_ne (heq ▸ hj)⟩
  | lost h => exact absurd h hlost

end

theorem sound_after {attempts : List Attempt} (hattempts : ∀ a ∈ attempts, a.Within foreign)
    (hd : Sound info uid (kvmVolumeLabel project name) foreign (kvmVolumePath name) d) :
    Sound info uid (kvmVolumeLabel project name) foreign (kvmVolumePath name)
      (after info uid project name attempts d) := by
  induction attempts generalizing d with
  | nil => exact hd
  | cons a attempts ih =>
    exact ih (fun b hb => hattempts b (List.mem_cons_of_mem _ hb))
      (sound_rest (hattempts a List.mem_cons_self) hd)

theorem ready_after {attempts : List Attempt} (hattempts : ∀ a ∈ attempts, a.Within foreign)
    (hd : Sound info uid (kvmVolumeLabel project name) foreign (kvmVolumePath name) d)
    (hready : Ready info uid (kvmVolumeLabel project name) foreign sizeBytes (kvmVolumePath name) d)
    (hsettled : Settled info uid project name sizeBytes attempts d) :
    Ready info uid (kvmVolumeLabel project name) foreign sizeBytes (kvmVolumePath name)
      (after info uid project name attempts d) := by
  induction attempts generalizing d with
  | nil => exact hready
  | cons a attempts ih =>
    have ha := hattempts a List.mem_cons_self
    exact ih (fun b hb => hattempts b (List.mem_cons_of_mem _ hb)) (sound_rest ha hd)
      (ready_rest ha hd hready hsettled.1) hsettled.2

/-! ### The next call -/

/-- **A creation returns exactly from a directory that is ready.** -/
theorem returns_iff_ready {image : List UInt8} {drawn : String}
    (hvalid : isVolumeSize sizeBytes && isLogicalName project && isLogicalName name)
    (hworks : Works info (kvmVolumeLabel project name) sizeBytes image) (hd : d.WellFormed)
    (hdrawn : d.find (temporaryName name drawn) = none) :
    (∃ v w, (ensureKvmVolume uid project name sizeBytes).run
        (answer info uid (kvmVolumePath name) (working image drawn)) ⟨d, []⟩ = (some v, w) ∧
        Ensured info uid (kvmVolumeLabel project name) sizeBytes (kvmVolumePath name)
          w.directory) ↔
      Ready info uid (kvmVolumeLabel project name) (fun _ => False) sizeBytes (kvmVolumePath name)
        d := by
  constructor
  · rintro ⟨v, w, hrun, -⟩
    exact ready_of_returns rfl hd hrun
  · rintro (hfree | ⟨i, f, hsealed, hlook⟩)
    · have hnone := hfree.resolve_right fun ⟨_, _, hcon, _⟩ => hcon
      obtain ⟨q, w, i, hleads, -, v, w', hends, hensured⟩ := leads_ensureKvmVolume uid hvalid
        hworks hd hnone hdrawn
      exact ⟨v, w', (hleads.trans hends).run, hensured⟩
    · obtain ⟨v, w, hleads, hensured⟩ := yields_ensureKvmVolume_of_stands image drawn hvalid
        hsealed ⟨hd, hlook⟩
      exact ⟨v, w, hleads.run, hensured⟩

variable (uid) in
/-- A creation with working tools can be killed while the volume has two names. -/
theorem linked_of_killed {image : List UInt8} (drawn : String)
    (hvalid : isVolumeSize sizeBytes && isLogicalName project && isLogicalName name)
    (hworks : Works info (kvmVolumeLabel project name) sizeBytes image) (hd : d.WellFormed)
    (hfree : d.look (kvmVolumePath name) = none)
    (hdrawn : d.find (temporaryName name drawn) = none) :
    ∃ k i, Linked (kvmVolumePath name) (temporaryName name drawn) i ⟨image, 0o600, uid, true⟩
      (Attempt.rest info uid project name ⟨.ensure sizeBytes,
        List.replicate k (working image drawn)⟩ d).2.directory := by
  obtain ⟨q, w, i, hleads, hlinked, -⟩ := leads_ensureKvmVolume uid hvalid hworks hd hfree hdrawn
  obtain ⟨k, hk⟩ := Leads.advance (p := ensureKvmVolume uid project name sizeBytes >>= fun _ =>
    pure ()) hleads.bind_left
  refine ⟨k, i, ?_⟩
  rw [Attempt.rest, Request.program, hk]
  exact hlinked

/-- And so every creation that follows raises. -/
theorem Linked.not_ready {temporary path : String} {label : Text} {i : ℕ} {f : Inode}
    (h : Linked path temporary i f d) :
    ¬Ready info uid label (fun _ => False) sizeBytes path d := by
  rintro ((hcon | ⟨_, _, hcon, _⟩) | ⟨_, _, _, hcon⟩)
  · rw [h.published] at hcon
    cases hcon
  · exact hcon
  · rw [h.published] at hcon
    cases hcon

/-! ### A volume of 16 MiB -/

/-- The start of a volume, with zeros where nothing looks. -/
def blankHeader (label : Text) : List UInt8 :=
  List.replicate 1080 0 ++ [0x53, 0xef] ++ List.replicate 38 0 ++ [0x40, 0, 0, 0] ++
    List.replicate 20 0 ++ encodeUtf8 label ++ List.replicate 3 0

/-- A volume with zeros where nothing looks. -/
def blankImage (label : Text) (sizeBytes : ℕ) : List UInt8 :=
  blankHeader label ++ List.replicate (sizeBytes - (blankHeader label).length) 0

/-- What `qemu-img info` says of a raw file. -/
def rawReport (sizeBytes : ℕ) : List (String × Json.Value) :=
  [("format", .str "raw"), ("virtual-size", .int sizeBytes)]

/-- A directory without files. -/
def emptyDirectory : Directory := ⟨[], fun _ => ⟨[], 0, 0, false⟩, 0⟩

theorem wellFormed_emptyDirectory : emptyDirectory.WellFormed :=
  ⟨List.nodup_nil, fun _ he => absurd he List.not_mem_nil⟩

/-- The superblock is within the first 1160 bytes. -/
theorem hasExt4Superblock_append {label : Text} {header : List UInt8} (rest : List UInt8)
    (h : 1160 ≤ header.length) :
    hasExt4Superblock label (header ++ rest) = hasExt4Superblock label header := by
  have hfield : ∀ offset length, offset + length ≤ 1160 →
      ((header ++ rest).drop offset).take length = (header.drop offset).take length := by
    intro offset length hle
    rw [List.drop_append_of_le_length (by omega), List.take_append_of_le_length]
    rw [List.length_drop]
    omega
  simp only [hasExt4Superblock, hfield (1024 + 56) 2 (by omega), hfield (1024 + 96) 4 (by omega),
    hfield (1024 + 120) 16 (by omega)]

theorem works_blankImage : Works (fun _ => some (rawReport 16777216))
    (kvmVolumeLabel "demo" "data") 16777216
    (blankImage (kvmVolumeLabel "demo" "data") 16777216) where
  length := by
    have hlength : (blankHeader (kvmVolumeLabel "demo" "data")).length = 1160 := by decide +kernel
    rw [blankImage, List.length_append, List.length_replicate, hlength]
  superblock := by
    rw [blankImage, hasExt4Superblock_append _ (by decide +kernel)]
    decide +kernel
  reported := ⟨_, rfl, by decide⟩

/-- A creation of the volume that is killed after some calls. -/
def blankCreation (k : ℕ) : Attempt where
  request := .ensure 16777216
  outcomes := List.replicate k (working (blankImage (kvmVolumeLabel "demo" "data") 16777216) "a")

/-! ### Crash convergence -/

/-- **KVM volumes after a crash.** After any calls for a volume, each of them killed at any point,
the next creation with working tools returns a verified volume exactly if the name is free or the
volume has one name and the right size. So it is if every creation was of that size and none was
killed between the link and the removal of a name. No call formats or replaces what has the name
of the volume, and a deletion that raises leaves the data there, unless another file has the name
or the data is lost (`Palimpsest.Volumes.Lost`). -/
theorem kvmVolume_converges {image : List UInt8} {d₀ : Directory} (hd₀ : d₀.WellFormed)
    (hfree : d₀.look (kvmVolumePath name) = none) (attempts : List Attempt) :
    (isVolumeSize sizeBytes && isLogicalName project && isLogicalName name →
      Works info (kvmVolumeLabel project name) sizeBytes image →
      (∀ a ∈ attempts, a.Within fun _ => False) →
      (∀ drawn, (after info uid project name attempts d₀).find (temporaryName name drawn) = none →
        ((∃ v w, (ensureKvmVolume uid project name sizeBytes).run
            (answer info uid (kvmVolumePath name) (working image drawn))
            ⟨after info uid project name attempts d₀, []⟩ = (some v, w) ∧
            Ensured info uid (kvmVolumeLabel project name) sizeBytes (kvmVolumePath name)
              w.directory) ↔
          Ready info uid (kvmVolumeLabel project name) (fun _ => False) sizeBytes
            (kvmVolumePath name) (after info uid project name attempts d₀))) ∧
      (Settled info uid project name sizeBytes attempts d₀ →
        Ready info uid (kvmVolumeLabel project name) (fun _ => False) sizeBytes
          (kvmVolumePath name) (after info uid project name attempts d₀))) ∧
    ∀ a : Attempt,
      let d := after info uid project name attempts d₀
      let (rest, w) := a.rest info uid project name d
      (∀ c i, rest.pending = some c → w.directory.find (kvmVolumePath name) = some i →
        ((∃ size, a.request = .ensure size) ∨ d.find (kvmVolumePath name) = some i ∨
          ∀ b ∈ a :: attempts, b.Within fun _ => False) →
        (∀ label file, c = .run (.format label file) → w.directory.find file ≠ some i) ∧
          ∀ o, Left (kvmVolumePath name) i w.directory (perform info uid o w.directory c).2) ∧
      (∀ size hasValidator x, a.request = .delete size hasValidator → rest = .raise →
        ¬Lost (kvmVolumePath name) w.log → d.look (kvmVolumePath name) = some x →
        w.directory.look (kvmVolumePath name) = some x ∨
          ∃ j, w.directory.find (kvmVolumePath name) = some j ∧ j ≠ x.1) := by
  set label := kvmVolumeLabel project name
  set path := kvmVolumePath name
  set d := after info uid project name attempts d₀
  have hsound : ∀ {foreign : Inode → Prop}, (∀ a ∈ attempts, a.Within foreign) →
      Sound info uid label foreign path d := fun hattempts =>
    sound_after hattempts ⟨hd₀, Or.inl (Or.inl hfree)⟩
  -- What a call does to files that other programs have made is asked of every call.
  have hanyone : ∀ b : Attempt, b.Within fun _ => True := fun _ _ _ _ _ => trivial
  refine ⟨fun hvalid hworks hours => ⟨fun drawn hdrawn => ?_, fun hsettled => ?_⟩,
    fun a => ⟨fun c i hc hi hwhose => ?_, fun size hasValidator x hrequest hraised hlost hx => ?_⟩⟩
  · exact returns_iff_ready hvalid hworks (hsound hours).wellFormed hdrawn
  · exact ready_after hours ⟨hd₀, Or.inl (Or.inl hfree)⟩ (Or.inl (Or.inl hfree)) hsettled
  · have hspares : Spares path i (a.rest info uid project name d).2.directory c := by
      rcases hwhose with hensure | hbefore | hours
      · exact spares_rest (hanyone a) (hsound fun b _ => hanyone b) hc hi (Or.inl hensure)
      · exact spares_rest (hanyone a) (hsound fun b _ => hanyone b) hc hi (Or.inr (Or.inl hbefore))
      · exact spares_rest (hours a List.mem_cons_self)
          (hsound fun b hb => hours b (List.mem_cons_of_mem _ hb)) hc hi
          (Or.inr (Or.inr fun _ => id))
    refine ⟨?_, hspares.left ?_ hi⟩
    · rintro label file rfl
      exact hspares
    · exact (sound_rest (hanyone a) (hsound fun b _ => hanyone b)).wellFormed
  · exact stands_of_raised (hanyone a) hrequest (hsound fun b _ => hanyone b) hraised hlost hx

/-- A creation is killed right after `mkfs.ext4`, and leaves its temporary file. The next one
returns. -/
theorem kvmVolume_converges_formatted :
    (after (fun _ => some (rawReport 16777216)) 1000 "demo" "data" [blankCreation 9]
      emptyDirectory).find (temporaryName "data" "a") = some 0 ∧
    ∃ v w, (ensureKvmVolume 1000 "demo" "data" 16777216).run
      (answer (fun _ => some (rawReport 16777216)) 1000 (kvmVolumePath "data")
        (working (blankImage (kvmVolumeLabel "demo" "data") 16777216) "b"))
      ⟨after (fun _ => some (rawReport 16777216)) 1000 "demo" "data" [blankCreation 9]
        emptyDirectory, []⟩ = (some v, w) ∧
      Ensured (fun _ => some (rawReport 16777216)) 1000 (kvmVolumeLabel "demo" "data") 16777216
        (kvmVolumePath "data") w.directory := by
  have hours : ∀ a ∈ [blankCreation 9], a.Within fun _ => False := by
    intro a ha o ho f hf
    obtain rfl := List.mem_singleton.mp ha
    obtain rfl := List.eq_of_mem_replicate ho
    cases hf
  have hlog : (Attempt.rest (fun _ => some (rawReport 16777216)) 1000 "demo" "data"
      (blankCreation 9) emptyDirectory).2.log =
      [(.lexists "data.raw", true), (.run (.version "qemu-img"), true),
        (.run (.version "mkfs.ext4"), true), (.makeParent, true),
        (.mkstemp ".data-" ".raw.tmp", true), (.fchmod 0 0o600, true),
        (.ftruncate 0 16777216, true), (.fsync 0, true),
        (.run (.format (kvmVolumeLabel "demo" "data") ".data-a.raw.tmp"), true)] := by
    decide +kernel
  have hsettled : Settled (fun _ => some (rawReport 16777216)) 1000 "demo" "data" 16777216
      [blankCreation 9] emptyDirectory := by
    refine ⟨fun size hsize => ⟨(Request.ensure.inj hsize).symm, ?_⟩, trivial⟩
    rintro ⟨before, after, temporary, heq, -, -⟩
    rw [hlog] at heq
    have hmem := heq.symm ▸ List.mem_append_right before (List.mem_cons_self (l := after))
    simp at hmem
  obtain ⟨hreturns, hready⟩ := (@kvmVolume_converges _ 1000 _ _ _ _ _ wellFormed_emptyDirectory rfl
    [blankCreation 9]).1 (by decide) works_blankImage hours
  exact ⟨by decide, (hreturns "b" (by decide)).mpr (hready hsettled)⟩

/-- A creation that is killed when the volume has two names, and no creation after it returns. -/
theorem kvmVolume_stuck :
    Works (fun _ => some (rawReport 16777216)) (kvmVolumeLabel "demo" "data") 16777216
      (blankImage (kvmVolumeLabel "demo" "data") 16777216) ∧
    ∃ k, ∀ drawn v w, (ensureKvmVolume 1000 "demo" "data" 16777216).run
      (answer (fun _ => some (rawReport 16777216)) 1000 (kvmVolumePath "data")
        (working (blankImage (kvmVolumeLabel "demo" "data") 16777216) drawn))
      ⟨after (fun _ => some (rawReport 16777216)) 1000 "demo" "data" [blankCreation k]
        emptyDirectory, []⟩ ≠ (some v, w) := by
  obtain ⟨k, i, hlinked⟩ := linked_of_killed 1000 "a" (by decide) works_blankImage
    wellFormed_emptyDirectory rfl rfl
  exact ⟨works_blankImage, k, fun drawn v w hrun =>
    hlinked.not_ready (ready_of_returns rfl hlinked.wellFormed hrun)⟩

end Palimpsest.Volumes
