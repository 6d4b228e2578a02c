import Palimpsest.Volumes.Creation

/-!
# The deletion of a volume

What a call of `delete_kvm_volume` leaves, whatever it is answered and wherever it is killed
(`Palimpsest.Volumes.safe_deleteKvmVolume`). Where it raises, the data is under the name of the
volume, or beside the file of someone else that took the name, unless one of two calls failed
(`Palimpsest.Volumes.Lost`): the sync after the last removal, or the rename that gives the volume
its name back.
-/

namespace Palimpsest.Volumes

open Calls Calls.Program

variable {info : List UInt8 → Option (List (String × Json.Value))} {uid : ℕ} {path : String}
  {foreign : Inode → Prop} {label : Text} {sizeBytes size : ℕ} {ready : Prop}

/-! ### What a call keeps -/

/-- The data is gone when the call raises, or is left under the name of the quarantine: the removal
could not be made durable, or the exception handler could not see which names are there, or could
not give the volume its name back. -/
def Lost (path : String) (log : List (FileCall × Bool)) : Prop :=
  (∃ quarantine, [(.unlink quarantine, true), (.syncDirectory, false)] <:+: log) ∨
    ∃ quarantine, quarantine ≠ path ∧ ((.lexists quarantine, false) ∈ log ∨
      [(.lexists quarantine, true), (.lexists path, false)] <:+: log ∨
      (.replace quarantine path, false) ∈ log)

theorem Lost.concat {log : List (FileCall × Bool)} (h : Lost path log) (e : FileCall × Bool) :
    Lost path (log ++ [e]) := by
  have hprefix : log <:+: log ++ [e] := (List.prefix_append _ _).isInfix
  rcases h with ⟨q, hq⟩ | ⟨q, hne, hq⟩
  · exact Or.inl ⟨q, hq.trans hprefix⟩
  · refine Or.inr ⟨q, hne, hq.imp (List.mem_append_left _) ?_⟩
    exact Or.imp (fun hq => hq.trans hprefix) (List.mem_append_left _)

/-- The name of the quarantine is gone too. -/
structure Removed (foreign : Inode → Prop) (path quarantine : String) (d : Directory) : Prop where
  free : FreeDirectory foreign path d
  ne : quarantine ≠ path
  gone : d.look quarantine = none

theorem stable_removed {quarantine : String} :
    Stable foreign path (Removed foreign path quarantine) := fun d f hf h =>
  ⟨stable_free d f hf h.free, h.ne,
    (Directory.look_place_of_ne h.free.wellFormed h.ne).trans h.gone⟩

theorem Beside.removed {d d' : Directory} {name : String} {i : ℕ} {f : Inode}
    (h : Beside foreign path name i f d) (hu : d.unlink name = some d') :
    Removed foreign path name d' :=
  ⟨h.freeDirectory.unlink h.ne hu, h.ne, Directory.look_unlink_self hu⟩

/-- Whether a directory is good is seen under the name of the volume. -/
theorem Good.of_stands {d d' : Directory} {x : ℕ × Inode × ℕ}
    (h : Good info uid label foreign sizeBytes ready path d) (hx : Stands path x d)
    (hx' : Stands path x d') : Good info uid label foreign sizeBytes ready path d' := by
  have hlook : d'.look path = d.look path := hx'.look.trans hx.look.symm
  refine ⟨⟨hx'.wellFormed, ?_⟩, fun hready => ?_⟩
  · rw [Free, hlook]
    exact h.sound.known
  · have hbefore := h.ready_of hready
    rw [Ready, Free] at hbefore ⊢
    rwa [hlook]

/-- What a deletion may call, and in what states it may be killed. It leaves alone the file that
stood there before, and where there are no files of someone else whatever stands there. -/
def AllowedIn (info : List UInt8 → Option (List (String × Json.Value))) (uid : ℕ) (label : Text)
    (foreign : Inode → Prop) (sizeBytes : ℕ) (ready : Prop) (path : String) (before : Directory)
    (c : FileCall) (w : World) : Prop :=
  Good info uid label foreign sizeBytes ready path w.directory ∧
    ∀ i, before.find path = some i ∨ (∀ f, ¬foreign f) ∧ w.directory.find path = some i →
      Spares path i w.directory c

/-- Where the data of a volume is that stood there before. -/
inductive Whereabouts (foreign : Inode → Prop) (path : String) (x : ℕ × Inode × ℕ) (w : World) :
    Prop
  | stands (h : Stands path x w.directory)
  | displaced (quarantine : String) (h : Beside foreign path quarantine x.1 x.2.1 w.directory)
      (htaken : w.directory.look path ≠ none)
  | lost (h : Lost path w.log)

/-- What a deletion may raise in. -/
structure Ending (info : List UInt8 → Option (List (String × Json.Value))) (uid : ℕ) (label : Text)
    (foreign : Inode → Prop) (sizeBytes : ℕ) (ready : Prop) (path : String) (before : Directory)
    (w : World) : Prop where
  good : Good info uid label foreign sizeBytes ready path w.directory
  whereabouts : ∀ x, before.look path = some x → Whereabouts foreign path x w

/-! ### The parts of a deletion -/

/-- What an exception interrupts. -/
inductive Broken (foreign : Inode → Prop) (path quarantine : String) (i : ℕ) (f : Inode)
    (w : World) : Prop
  | stands (h : Stands path (i, f, 1) w.directory)
  | moved (h : Beside foreign path quarantine i f w.directory)
  | removed (h : Removed foreign path quarantine w.directory) (hlost : Lost path w.log)

section

variable {before : Directory} {w : World} {quarantine : String} {i : ℕ} {f : Inode}

theorem Good.allowedIn {c : FileCall} {d : Directory}
    (h : Good info uid label foreign sizeBytes ready path w.directory) (hc : c.isQuiet = true) :
    AllowedIn info uid label foreign sizeBytes ready path d c w :=
  ⟨h, fun j _ => spares_of_isQuiet hc j _⟩

/-- Up to the removal the file is under one of its names, and after it the name is free. -/
theorem safe_removeQuarantined {hasValidator : Bool} {Q : Unit → World → Prop}
    (hbefore : Good info uid label foreign sizeBytes ready path before)
    (hi : Stands path (i, f, 1) before) (hne : quarantine ≠ path)
    (hw : Stands path (i, f, 1) w.directory)
    (hQ : ∀ w', Removed foreign path quarantine w'.directory → Q () w') :
    (removeQuarantined uid path size label quarantine hasValidator).Safe
      (AllowedIn info uid label foreign sizeBytes ready path before)
      (Effect info uid path foreign) (Broken foreign path quarantine i f) Q w := by
  have hmoved : ∀ c w', c.isQuiet = true → Beside foreign path quarantine i f w'.directory →
      AllowedIn info uid label foreign sizeBytes ready path before c w' := fun c w' hc hw' =>
    hw'.freeDirectory.good.allowedIn hc
  rw [removeQuarantined]
  refine safe_bind (safe_operation (a := fun _ => ())
    (g := fun _ => w.directory.replace path quarantine)
    (B := fun _ => Beside foreign path quarantine i f) (fun _ => rfl) stable_stands
    (fun _ => stable_beside) hw (fun _ d' hr => hw.replace hne hr)
    ⟨hbefore.of_stands hi hw, fun _ _ hcon => absurd hcon hne⟩ (fun w' hw' _ => .stands hw')
    fun _ w₁ hw₁ _ => ?_)
  refine safe_bind (safe_quiet stable_beside rfl hw₁ (hmoved _ _ rfl hw₁)
    (fun w' hw' _ => .moved hw') fun _ _ w₂ _ hw₂ _ => ?_)
  -- the rest is the same with a validator and without one
  have hrest : ∀ w', Beside foreign path quarantine i f w'.directory →
      (do
        let there : Bool ← call (.lexists path)
        require (!there)
        verifyKvmPath uid quarantine size label
        let removed : Bool ← call (.unlink quarantine)
        require removed
        let _ ← call .syncDirectory : VolumeProgram Unit).Safe
        (AllowedIn info uid label foreign sizeBytes ready path before)
        (Effect info uid path foreign) (Broken foreign path quarantine i f) Q w' := by
    intro w₃ hw₃
    refine safe_bind (safe_quiet stable_beside rfl hw₃ (hmoved _ _ rfl hw₃)
      (fun w' hw' _ => .moved hw') fun _ there w₄ _ hw₄ _ => ?_)
    refine safe_bind (safe_require (.moved hw₄) fun _ => ?_)
    refine safe_bind (safe_verifyKvmPath stable_beside (fun d hd => hd.look) hw₄ hmoved
      (fun w' hw' => .moved hw') fun _ _ w₅ hw₅ => ?_)
    refine safe_bind (safe_unlink stable_beside stable_removed hw₅ (fun d' hu => hw₅.removed hu)
      ⟨hw₅.freeDirectory.good, fun _ _ => trivial⟩ (fun w' hw' _ => .moved hw')
      (fun w' hnone _ => absurd hnone (Directory.unlink_ne_none hw₅.look)) fun w₆ hw₆ hlog => ?_)
    refine safe_bind (safe_require_of rfl ?_)
    refine safe_bind (safe_quiet stable_removed rfl hw₆ (hw₆.free.good.allowedIn rfl)
      (fun w' hw' hlog' => .removed hw' (Or.inl ⟨quarantine, ?_⟩)) fun _ _ w' _ hw' _ => hQ w' hw')
    rw [hlog', hlog, List.append_assoc]
    exact (List.suffix_append _ _).isInfix
  cases hasValidator with
  | false => exact hrest w₂ hw₂
  | true =>
    exact safe_bind (safe_quiet stable_beside rfl hw₂ (hmoved _ _ rfl hw₂)
      (fun w' hw' _ => .moved hw') fun _ _ w₃ _ hw₃ _ => hrest w₃ hw₃)

/-- **The exception handler** gives the volume its name back. -/
theorem safe_restoreVolume (hbefore : Good info uid label foreign sizeBytes ready path before)
    (hi : Stands path (i, f, 1) before) (hw : Broken foreign path quarantine i f w) :
    (restoreVolume path quarantine).Safe
      (AllowedIn info uid label foreign sizeBytes ready path before)
      (Effect info uid path foreign)
      (Ending info uid label foreign sizeBytes ready path before)
      (fun _ => Ending info uid label foreign sizeBytes ready path before) w := by
  have hlook : ∀ {x}, before.look path = some x → x = (i, f, 1) := fun hx =>
    Option.some.inj (hx.symm.trans hi.look)
  have hstands : ∀ w' : World, Stands path (i, f, 1) w'.directory →
      Ending info uid label foreign sizeBytes ready path before w' := fun w' hw' =>
    ⟨hbefore.of_stands hi hw', fun x hx => .stands (hlook hx ▸ hw')⟩
  rw [restoreVolume]
  cases hw with
  | stands hw =>
    refine safe_bind (safe_lexists stable_stands hw ((hstands w hw).good.allowedIn rfl)
      (fun w' hw' _ => hstands w' hw') fun w₁ hw₁ _ => ?_)
    split
    · refine safe_bind (safe_lexists stable_stands hw₁ ((hstands w₁ hw₁).good.allowedIn rfl)
        (fun w' hw' _ => hstands w' hw') fun w₂ hw₂ _ => ?_)
      rw [(Directory.find_of_look hw₁.look).1]
      exact hstands w₂ hw₂
    · exact hstands w₁ hw₁
  | moved hw =>
    have hgood : ∀ w' : World, Beside foreign path quarantine i f w'.directory →
        Good info uid label foreign sizeBytes ready path w'.directory := fun w' hw' =>
      hw'.freeDirectory.good
    have hlost : ∀ w' : World, Beside foreign path quarantine i f w'.directory →
        Lost path w'.log → Ending info uid label foreign sizeBytes ready path before w' :=
      fun w' hw' hlost => ⟨hgood w' hw', fun x _ => .lost hlost⟩
    refine safe_bind (safe_lexists stable_beside hw ((hgood w hw).allowedIn rfl)
      (fun w' hw' hlog => hlost w' hw' (Or.inr ⟨quarantine, hw'.ne, Or.inl ?_⟩))
      fun w₁ hw₁ hlog₁ => ?_)
    · rw [hlog]
      exact List.mem_append_right _ List.mem_cons_self
    rw [(Directory.find_of_look hw.look).1]
    have hunseen : ∀ w' : World, Beside foreign path quarantine i f w'.directory →
        w'.log = w₁.log ++ [(.lexists path, false)] →
        Ending info uid label foreign sizeBytes ready path before w' := by
      refine fun w' hw' hlog => hlost w' hw' (Or.inr ⟨quarantine, hw'.ne, Or.inr (Or.inl ?_)⟩)
      rw [hlog, hlog₁, List.append_assoc]
      exact (List.suffix_append _ _).isInfix
    cases hpath : w₁.directory.look path with
    | some y =>
      -- someone else has taken the name
      refine safe_bind (safe_lexists (stable_beside.and stable_stands) ⟨hw₁, hw₁.wellFormed, hpath⟩
        ((hgood w₁ hw₁).allowedIn rfl) (fun w' hw' => hunseen w' hw'.1) fun w₂ hw₂ _ => ?_)
      rw [(Directory.find_of_look hpath).1]
      refine ⟨hgood w₂ hw₂.1, fun x hx => ?_⟩
      obtain rfl := hlook hx
      refine .displaced quarantine hw₂.1 ?_
      rw [hw₂.2.look]
      rintro ⟨⟩
    | none =>
      refine safe_bind (safe_lexists stable_beside hw₁ ((hgood w₁ hw₁).allowedIn rfl) hunseen
        fun w₂ hw₂ _ => ?_)
      rw [Directory.look_eq_none.mp hpath]
      have hallowed : AllowedIn info uid label foreign sizeBytes ready path before
          (.replace quarantine path) w₂ := by
        refine ⟨hgood w₂ hw₂, fun j hj _ hcon => ?_⟩
        rcases hj with hj | ⟨hnone, -⟩
        · obtain rfl : i = j := by
            rw [(Directory.find_of_look hi.look).1] at hj
            exact Option.some.inj hj
          exact hw₂.find_ne hcon
        · rcases hw₂.free with hfree | ⟨_, g, hg, -⟩
          · rw [Directory.look_eq_none.mp hfree] at hcon
            cases hcon
          · exact hnone g hg
      have hkept : ∀ w' : World, Beside foreign path quarantine i f w'.directory →
          w'.log = w₂.log ++ [(.replace quarantine path, false)] →
          Ending info uid label foreign sizeBytes ready path before w' := by
        refine fun w' hw' hlog => hlost w' hw' (Or.inr ⟨quarantine, hw'.ne, Or.inr (Or.inr ?_)⟩)
        rw [hlog]
        exact List.mem_append_right _ List.mem_cons_self
      refine safe_bind (safe_require_of rfl (safe_bind (safe_operation (a := fun _ => ())
        (g := fun _ => w₂.directory.replace quarantine path)
        (B := fun _ => Stands path (i, f, 1)) (fun _ => rfl) stable_beside
        (fun _ => stable_stands) hw₂ (fun _ d' hr => hw₂.replace hr) hallowed hkept
        fun _ w₃ hw₃ _ => ?_)))
      exact safe_bind (safe_quiet stable_stands rfl hw₃ ((hstands w₃ hw₃).good.allowedIn rfl)
        (fun w' hw' _ => hstands w' hw') fun _ _ w' _ hw' _ => hstands w' hw')
  | removed hw hlost =>
    have hends : ∀ w' e, Removed foreign path quarantine w'.directory → w'.log = w.log ++ [e] →
        Ending info uid label foreign sizeBytes ready path before w' := fun w' e hw' hlog =>
      ⟨hw'.free.good, fun x _ => .lost (hlog ▸ hlost.concat e)⟩
    refine safe_bind (safe_lexists stable_removed hw (hw.free.good.allowedIn rfl)
      (fun w' hw' => hends w' _ hw') fun w₁ hw₁ hlog => ?_)
    rw [Directory.look_eq_none.mp hw.gone]
    exact hends w₁ _ hw₁ hlog

/-! ### The call as a whole -/

/-- **`delete_kvm_volume`**, from a directory as earlier calls leave it, whatever it is answered. -/
theorem safe_deleteKvmVolume {project name : String} (size : ℕ) (hasValidator : Bool)
    (hpath : path = kvmVolumePath name)
    (hlabel : label = kvmVolumeLabel project name)
    (hw : Good info uid label foreign sizeBytes ready path w.directory) :
    (deleteKvmVolume uid project name size hasValidator).Safe
      (AllowedIn info uid label foreign sizeBytes ready path w.directory)
      (Effect info uid path foreign)
      (Ending info uid label foreign sizeBytes ready path w.directory)
      (fun _ w' => Good info uid label foreign sizeBytes ready path w'.directory) w := by
  subst hpath hlabel
  set path := kvmVolumePath name
  have hend : ∀ x (w' : World), Stands path x w.directory → Stands path x w'.directory →
      Ending info uid (kvmVolumeLabel project name) foreign sizeBytes ready path w.directory w' :=
    fun x w' hx hx' => ⟨hw.of_stands hx hx', fun y hy =>
      .stands (Option.some.inj (hx.look.symm.trans hy) ▸ hx')⟩
  rw [deleteKvmVolume]
  refine safe_bind (safe_require ⟨hw, fun x hx => .stands ⟨hw.sound.wellFormed, hx⟩⟩
    fun hvalid => ?_)
  rw [Bool.and_eq_true] at hvalid
  cases hlook : w.directory.look path with
  | none =>
    refine safe_bind (safe_lexists stable_free ⟨hw.sound.wellFormed, Or.inl hlook⟩
      (hw.allowedIn rfl) (fun w' hw' _ => ⟨hw'.good, fun x hx => ?_⟩) fun w₁ hw₁ _ => ?_)
    · rw [hlook] at hx
      cases hx
    · rw [Directory.look_eq_none.mp hlook]
      exact hw₁.good
  | some x =>
    obtain ⟨i, f, n⟩ := x
    have hx : Stands path (i, f, n) w.directory := ⟨hw.sound.wellFormed, hlook⟩
    refine safe_bind (safe_lexists stable_stands hx (hw.allowedIn rfl)
      (fun w' hw' _ => hend _ w' hx hw') fun w₁ hw₁ _ => ?_)
    rw [(Directory.find_of_look hlook).1]
    refine safe_bind (safe_verifyKvmPath stable_stands (fun d hd => hd.look) hw₁
      (fun c w' hc hw' => (hend _ w' hx hw').good.allowedIn hc) (fun w' hw' => hend _ w' hx hw')
      fun hone _ w₂ hw₂ => ?_)
    subst hone
    refine safe_bind (safe_quiet stable_stands rfl hw₂ ((hend _ w₂ hx hw₂).good.allowedIn rfl)
      (fun w' hw' _ => hend _ w' hx hw') fun _ uuid w₃ _ hw₃ _ => ?_)
    -- The name in quarantine is not the name of a volume.
    have hne : "." ++ name ++ "-delete-" ++ uuid ++ ".raw" ≠ path := by
      rw [String.append_assoc, String.append_assoc, String.append_assoc]
      exact dotted_ne_kvmVolumePath hvalid.2
    refine safe_bind (safe_caught ((safe_removeQuarantined hw hx hne hw₃
      fun w' hw' => hw'.free.good).of_raised fun w₄ hw₄ => ?_))
    exact safe_bind ((safe_restoreVolume hw hx hw₄).imp fun _ _ h => h)

end

end Palimpsest.Volumes
