import Palimpsest.Volumes.States

/-!
# The creation of a volume

What a call of `ensure_kvm_volume` leaves, whatever it is answered and wherever it is killed. The
name of the volume is free or a volume has it, and no call touches the file there
(`Palimpsest.Volumes.safe_ensureKvmVolume`). The volume has a second name only from the link to
the removal of the temporary name (`Palimpsest.Volumes.Window`).
-/

namespace Palimpsest.Volumes

open Calls Calls.Program

variable {info : List UInt8 → Option (List (String × Json.Value))} {uid : ℕ} {path : String}
  {foreign : Inode → Prop} {label : Text} {sizeBytes : ℕ} {ready : Prop}

/-! ### What a call keeps -/

/-- The volume was linked, and since then neither of its names was removed. -/
def Window (path : String) (log : List (FileCall × Bool)) : Prop :=
  ∃ before after temporary, log = before ++ (.link temporary path, true) :: after ∧
    (.unlink temporary, true) ∉ after ∧ (.unlink path, true) ∉ after

theorem window_link (log : List (FileCall × Bool)) (temporary : String) :
    Window path (log ++ [(.link temporary path, true)]) :=
  ⟨log, [], temporary, rfl, List.not_mem_nil, List.not_mem_nil⟩

theorem Window.concat {log : List (FileCall × Bool)} (h : Window path log) {e : FileCall × Bool}
    (he : ∀ name, e ≠ (.unlink name, true)) : Window path (log ++ [e]) := by
  obtain ⟨before, after, temporary, rfl, hname, hpath⟩ := h
  refine ⟨before, after ++ [e], temporary, ?_, ?_, ?_⟩
  · rw [List.append_assoc, List.cons_append]
  · rw [List.mem_append, List.mem_singleton, not_or]
    exact ⟨hname, fun heq => he _ heq.symm⟩
  · rw [List.mem_append, List.mem_singleton, not_or]
    exact ⟨hpath, fun heq => he _ heq.symm⟩

/-- The directory is as it should be, and if it was ready before it is so again. -/
structure Good (info : List UInt8 → Option (List (String × Json.Value))) (uid : ℕ) (label : Text)
    (foreign : Inode → Prop) (sizeBytes : ℕ) (ready : Prop) (path : String) (d : Directory) :
    Prop where
  sound : Sound info uid label foreign path d
  ready_of : ready → Ready info uid label foreign sizeBytes path d

/-- The same of a state in which the call can be killed: then it may be in the window. -/
structure Kept (info : List UInt8 → Option (List (String × Json.Value))) (uid : ℕ) (label : Text)
    (foreign : Inode → Prop) (sizeBytes : ℕ) (ready : Prop) (path : String) (w : World) :
    Prop where
  sound : Sound info uid label foreign path w.directory
  tidy : ready → Window path w.log ∨ Ready info uid label foreign sizeBytes path w.directory

theorem Good.kept {w : World}
    (h : Good info uid label foreign sizeBytes ready path w.directory) :
    Kept info uid label foreign sizeBytes ready path w :=
  ⟨h.sound, fun hready => Or.inr (h.ready_of hready)⟩

theorem Sound.place {d : Directory} {f : Inode} (hf : foreign f)
    (h : Sound info uid label foreign path d) :
    Sound info uid label foreign path (d.place path f) := by
  refine ⟨h.wellFormed.place, ?_⟩
  rcases h.known with hfree | ⟨i, g, n, size, hsealed, hlook⟩
  · exact Or.inl (free_place h.wellFormed hf hfree)
  · exact Or.inr ⟨i, g, n, size, hsealed, look_place_of_some hlook⟩

theorem stable_good : Stable foreign path (Good info uid label foreign sizeBytes ready path) := by
  intro d f hf h
  refine ⟨h.sound.place hf, fun hready => ?_⟩
  rcases h.ready_of hready with hfree | ⟨i, g, hsealed, hlook⟩
  · exact Or.inl (free_place h.sound.wellFormed hf hfree)
  · exact Or.inr ⟨i, g, hsealed, look_place_of_some hlook⟩

theorem FreeDirectory.good {d : Directory} (h : FreeDirectory foreign path d) :
    Good info uid label foreign sizeBytes ready path d :=
  ⟨⟨h.wellFormed, Or.inl h.free⟩, fun _ => Or.inl h.free⟩

theorem Stands.good {d : Directory} {i : ℕ} {f : Inode} (h : Stands path (i, f, 1) d)
    (hf : Sealed info uid label sizeBytes f) :
    Good info uid label foreign sizeBytes ready path d :=
  ⟨⟨h.wellFormed, Or.inr ⟨i, f, 1, sizeBytes, hf, h.look⟩⟩, fun _ => Or.inr ⟨i, f, hf, h.look⟩⟩

theorem Linked.kept {w : World} {name : String} {i : ℕ} {f : Inode}
    (h : Linked path name i f w.directory) (hf : Sealed info uid label sizeBytes f)
    (hwindow : Window path w.log) : Kept info uid label foreign sizeBytes ready path w :=
  ⟨⟨h.wellFormed, Or.inr ⟨i, f, 2, sizeBytes, hf, h.published⟩⟩, fun _ => Or.inl hwindow⟩

/-! ### Files that a call leaves alone -/

/-- The call does not write to the file, nor put another one in its place. -/
def Spares (path : String) (i : ℕ) (d : Directory) : FileCall → Prop
  | .run (.format _ name) => d.find name ≠ some i
  | .fchmod j _ => j ≠ i
  | .ftruncate j _ => j ≠ i
  | .replace _ target => target = path → d.find path ≠ some i
  | _ => True

/-- The file is as it was, and its name shows it or is free. -/
structure Left (path : String) (i : ℕ) (d d' : Directory) : Prop where
  inode : d'.inodes i = d.inodes i
  find : d'.find path = some i ∨ d'.find path = none

theorem left_put {d : Directory} {i j : ℕ} (f : Inode) (hi : d.find path = some i) (hne : j ≠ i) :
    Left path i d (d.put j f) :=
  ⟨Function.update_of_ne hne.symm _ _, Or.inl hi⟩

theorem left_unlink {d d' : Directory} {name : String} {i : ℕ} (hi : d.find path = some i)
    (hu : d.unlink name = some d') : Left path i d d' := by
  refine ⟨Directory.inodes_unlink hu ▸ rfl, ?_⟩
  by_cases hname : name = path
  · subst hname
    exact Or.inr (Directory.look_eq_none.mp (Directory.look_unlink_self hu))
  · exact Or.inl ((Directory.find_unlink_of_ne hu (Ne.symm hname)).trans hi)

theorem left_replace {d d' : Directory} {source target : String} {i : ℕ}
    (hi : d.find path = some i) (hne : target ≠ path) (hr : d.replace source target = some d') :
    Left path i d d' := by
  refine ⟨Directory.inodes_replace hr ▸ rfl, ?_⟩
  rcases Directory.find_replace_of_ne hr hne.symm with h | ⟨-, h⟩
  · exact Or.inl (h.trans hi)
  · exact Or.inr h

/-- **A call that spares a file leaves it as it is**, and puts no other in its place. -/
theorem Spares.left {c : FileCall} {d : Directory} {i : ℕ} (hd : d.WellFormed)
    (hi : d.find path = some i) (h : Spares path i d c) (o : Outcome) :
    Left path i d (perform info uid o d c).2 := by
  have hself : Left path i d d := ⟨rfl, Or.inl hi⟩
  have hanswer : ∀ {α : Type} (a : α) (d' : Option Directory),
      (∀ e, d' = some e → Left path i d e) → Left path i d (answerIf o d a d').2 := by
    intro α a d' h
    cases d' with
    | none => exact hself
    | some e =>
      rw [answerIf]
      split
      · exact hself
      · exact h e rfl
  -- A write to another inode.
  have hput : ∀ {α : Type} (a : α) (j : ℕ) (f : Inode), j ≠ i →
      Left path i d (answerIf o d a (some (d.put j f))).2 := fun a j f hne =>
    hanswer a _ fun e he => Option.some.inj he ▸ left_put f hi hne
  by_cases hquiet : c.isQuiet = true
  · rw [perform_quiet hquiet]
    exact hself
  · cases c with
    | run command =>
      cases command with
      | format label name =>
        rw [perform]
        cases hlook : d.look name with
        | none =>
          rw [answerIf]
          split <;> exact hself
        | some x =>
          obtain ⟨j, f, n⟩ := x
          have hne : j ≠ i := fun hji => h (hji ▸ (Directory.find_of_look hlook).1)
          rw [answerIf]
          split <;> exact left_put _ hi hne
      | version tool => exact absurd rfl hquiet
      | info name => exact absurd rfl hquiet
    | mkstemp start suffix =>
      refine hanswer _ _ fun e he => ⟨Directory.inodes_create_of_find hd hi he, Or.inl ?_⟩
      exact (Directory.find_create_of_find hi he)
    | fchmod j mode => exact hput _ j _ h
    | ftruncate j size => exact hput _ j _ h
    | link source target =>
      exact hanswer _ _ fun e he =>
        ⟨Directory.inodes_link he ▸ rfl, Or.inl (Directory.find_link_of_find hi he)⟩
    | unlink name =>
      rw [perform]
      cases hu : d.unlink name with
      | none => exact hanswer _ _ fun e he => Option.some.inj he ▸ hself
      | some d' => exact hanswer _ _ fun e he => Option.some.inj he ▸ left_unlink hi hu
    | replace source target =>
      exact hanswer _ _ fun e he => left_replace hi (fun heq => h heq hi) he
    | _ => exact absurd rfl hquiet

/-- What a creation may call, and in what states it may be killed. -/
def Allowed (info : List UInt8 → Option (List (String × Json.Value))) (uid : ℕ) (label : Text)
    (foreign : Inode → Prop) (sizeBytes : ℕ) (ready : Prop) (path : String) (c : FileCall)
    (w : World) : Prop :=
  Kept info uid label foreign sizeBytes ready path w ∧
    ∀ i, w.directory.find path = some i → Spares path i w.directory c

theorem spares_of_isQuiet {c : FileCall} (hc : c.isQuiet = true) (i : ℕ) (d : Directory) :
    Spares path i d c := by
  cases c with
  | run command =>
    cases command with
    | format label name => cases hc
    | version tool => trivial
    | info name => trivial
  | fchmod j mode => cases hc
  | ftruncate j size => cases hc
  | replace source target => cases hc
  | _ => trivial

theorem Kept.allowed {c : FileCall} {w : World}
    (h : Kept info uid label foreign sizeBytes ready path w)
    (hc : ∀ i, Spares path i w.directory c) :
    Allowed info uid label foreign sizeBytes ready path c w :=
  ⟨h, fun i _ => hc i⟩

/-- A call is allowed beside a free name if it is about the file there. -/
theorem Beside.allowed {c : FileCall} {w : World} {name : String} {i : ℕ} {f : Inode}
    (h : Beside foreign path name i f w.directory)
    (hc : ∀ j, j ≠ i → Spares path j w.directory c) :
    Allowed info uid label foreign sizeBytes ready path c w :=
  ⟨h.freeDirectory.good.kept, fun j hj => hc j fun hji => h.find_ne (hji ▸ hj)⟩

/-! ### The parts of a creation -/

section

variable {w : World} {temporary : String} {i : ℕ}

/-- The temporary file becomes a volume, or stays something else beside a free name. -/
theorem safe_formatTemporary {E : World → Prop} {Q : Unit → World → Prop} {f : Inode}
    (hw : Beside foreign path temporary i f w.directory)
    (hE : ∀ w' g, Beside foreign path temporary i g w'.directory → E w')
    (hQ : ∀ w' g, Beside foreign path temporary i g w'.directory →
      Sealed info uid label sizeBytes g → Q () w') :
    (formatTemporary uid sizeBytes label temporary i).Safe
      (Allowed info uid label foreign sizeBytes ready path) (Effect info uid path foreign) E Q
      w := by
  have hquiet : ∀ g c w', c.isQuiet = true → Beside foreign path temporary i g w'.directory →
      Allowed info uid label foreign sizeBytes ready path c w' := fun g c w' hc hw' =>
    hw'.freeDirectory.good.kept.allowed fun j => spares_of_isQuiet hc j _
  obtain rfl := (Directory.find_of_look hw.look).2.1
  rw [formatTemporary]
  -- the mode
  refine safe_bind (safe_operation (a := fun _ => ())
    (g := fun _ => some (w.directory.chmod i 0o600))
    (B := fun _ => Beside foreign path temporary i { w.directory.inodes i with mode := 0o600 })
    (fun _ => rfl) stable_beside (fun _ => stable_beside) hw ?_ (hw.allowed fun j hj => hj.symm)
    (fun w' hw' _ => hE w' _ hw') fun _ w₁ hw₁ _ => ?_)
  · rintro _ d' heq
    rw [← Option.some.inj heq]
    exact hw.put _
  -- the length
  refine safe_bind (safe_operation (a := fun _ => ()) (g := fun _ => some _)
    (B := fun _ d => ∃ g, Beside foreign path temporary i g d) (fun _ => rfl)
    stable_beside (fun _ d g hg ⟨g', h⟩ => ⟨g', stable_beside d g hg h⟩) hw₁ ?_
    (hw₁.allowed fun j hj => hj.symm) (fun w' hw' _ => hE w' _ hw') fun _ w₂ hw₂ _ => ?_)
  · rintro _ d' heq
    rw [← Option.some.inj heq]
    exact ⟨_, hw₁.put _⟩
  obtain ⟨g₂, hw₂⟩ := hw₂
  refine safe_bind (safe_quiet stable_beside rfl hw₂ (hquiet g₂ _ _ rfl hw₂)
    (fun w' hw' _ => hE w' _ hw') fun _ _ w₃ _ hw₃ _ => ?_)
  -- whatever the tool makes of the file
  refine safe_bind (safe_bind (safe_call (hw₃.allowed fun j hj => ?_) fun o => ?_))
  · intro hcon
    exact hj (Option.some.inj (hcon.symm.trans (Directory.find_of_look hw₃.look).1))
  · refine ⟨Beside foreign path temporary i { g₂ with content := o.written }, stable_beside, ?_,
      fun w₄ hw₄ _ => ?_⟩
    · rw [perform, hw₃.look, answerIf]
      split
      · exact hw₃.put _
      · exact hw₃.put _
    · cases ha : (perform info uid o w₃.directory (.run (.format label temporary))).1 with
      | none => exact hE w₄ _ hw₄
      | some result =>
        refine safe_bind (safe_require (hE w₄ _ hw₄) fun _ => ?_)
        refine safe_bind (safe_quiet stable_beside rfl hw₄ (hquiet _ _ _ rfl hw₄)
          (fun w' hw' _ => hE w' _ hw') fun _ _ w₅ _ hw₅ _ => ?_)
        exact safe_verifyKvmPath stable_beside (fun d hd => hd.look) hw₅
          (fun c w' hc hw' => hquiet _ c w' hc hw') (fun w' hw' => hE w' _ hw')
          fun _ hsealed w' hw' => hQ w' _ hw' hsealed

/-- What an exception interrupts, with the identity that the handler finds. -/
inductive Interrupted (info : List UInt8 → Option (List (String × Json.Value))) (uid : ℕ)
    (label : Text) (foreign : Inode → Prop) (sizeBytes : ℕ) (path temporary : String) (i : ℕ)
    (w : World) : Option ℕ → Prop
  | beside (f : Inode) (h : Beside foreign path temporary i f w.directory) :
      Interrupted info uid label foreign sizeBytes path temporary i w none
  | linked (f : Inode) (hf : Sealed info uid label sizeBytes f)
      (h : Linked path temporary i f w.directory) (hwindow : Window path w.log) (v : Option ℕ)
      (hv : ∀ j ∈ v, j = i) :
      Interrupted info uid label foreign sizeBytes path temporary i w v
  | stands (f : Inode) (hf : Sealed info uid label sizeBytes f)
      (h : Stands path (i, f, 1) w.directory) :
      Interrupted info uid label foreign sizeBytes path temporary i w (some i)

/-- Both names, until the temporary one is removed. -/
theorem safe_unlinkTemporary {f : Inode} {E : World → Prop} {Q : Unit → World → Prop}
    (hf : Sealed info uid label sizeBytes f) (hw : Linked path temporary i f w.directory)
    (hwindow : Window path w.log)
    (hlinked : ∀ w', Linked path temporary i f w'.directory → Window path w'.log → E w')
    (hstands : ∀ w', Stands path (i, f, 1) w'.directory → E w' ∧ Q () w') :
    (unlinkTemporary temporary).Safe (Allowed info uid label foreign sizeBytes ready path)
      (Effect info uid path foreign) E Q w := by
  rw [unlinkTemporary]
  refine safe_bind (safe_quiet stable_linked rfl hw
    ((hw.kept hf hwindow).allowed fun _ => spares_of_isQuiet rfl _ _)
    (fun w' hw' hlog => hlinked w' hw' (hlog ▸ hwindow.concat nofun)) fun _ _ w₁ _ hw₁ hlog => ?_)
  have hwindow₁ : Window path w₁.log := hlog ▸ hwindow.concat nofun
  refine safe_bind (safe_unlink stable_linked stable_stands hw₁ (fun d' hu => hw₁.unlink hu)
    ((hw₁.kept hf hwindow₁).allowed fun _ => trivial)
    (fun w' hw' hlog => hlinked w' hw' (hlog ▸ hwindow₁.concat nofun))
    (fun w' hnone _ => absurd hnone (Directory.unlink_ne_none hw₁.look)) fun w₂ hw₂ _ => ?_)
  refine safe_bind (safe_require_of rfl ?_)
  exact safe_bind (safe_quiet stable_stands rfl hw₂
    ((hw₂.good hf).kept.allowed fun _ => spares_of_isQuiet rfl _ _)
    (fun w' hw' _ => (hstands w' hw').1) fun _ _ w' _ hw' _ => (hstands w' hw').2)

/-- The volume gets its name, or the handler takes over. -/
theorem keeps_publish {f : Inode} (hw : Beside foreign path temporary i f w.directory) :
    (publish uid path sizeBytes label temporary i).Keeps
      (Allowed info uid label foreign sizeBytes ready path) (Effect info uid path foreign)
      (fun _ _ w' => ∃ g, Sealed info uid label sizeBytes g ∧ Stands path (i, g, 1) w'.directory)
      (fun v w' => Interrupted info uid label foreign sizeBytes path temporary i w' v) none w := by
  rw [publish]
  refine Tried.keeps_bind (Tried.keeps_lift (safe_formatTemporary hw (fun w' g hw' => .beside g hw')
    fun w₁ g hw₁ hsealed => ?_))
  refine Tried.keeps_bind (Tried.keeps_lift (safe_operation (a := fun _ => ())
    (g := fun _ => w₁.directory.link temporary path) (B := fun _ => Linked path temporary i g)
    (fun _ => rfl) stable_beside (fun _ => stable_linked) hw₁ (fun _ d' hl => hw₁.link hl)
    (hw₁.allowed fun j _ => trivial) (fun w' hw' _ => .beside g hw') fun _ w₂ hw₂ hlog => ?_))
  have hwindow : Window path w₂.log := hlog ▸ window_link _ _
  refine Tried.keeps_bind (Tried.keeps_lift (safe_bind (safe_quiet stable_linked rfl hw₂
    ((hw₂.kept hsealed hwindow).allowed fun _ => spares_of_isQuiet rfl _ _)
    (fun w' hw' hlog => .linked g hsealed hw' (hlog ▸ hwindow.concat nofun) none nofun)
    fun _ status w₃ hstatus hw₃ hlog => ?_)))
  have hwindow₃ : Window path w₃.log := hlog ▸ hwindow.concat nofun
  obtain rfl : w₂.directory.look path = status := eq_of_answerIf hstatus
  refine safe_take (.linked g hsealed hw₃ hwindow₃ none nofun) fun published hpublished => ?_
  rw [hw₂.published] at hpublished
  obtain rfl := Option.some.inj hpublished
  refine Tried.keeps_bind (Tried.keeps_modify (Tried.keeps_lift (safe_unlinkTemporary hsealed hw₃
    hwindow₃ (fun w' hw' hwindow' => .linked g hsealed hw' hwindow' _ fun j hj => ?_) fun w' hw' =>
    ⟨.stands g hsealed hw', g, hsealed, hw'⟩)))
  exact (Option.some.inj hj).symm

/-! ### The exception handler -/

/-- The temporary name goes at last. -/
theorem safe_unlink_last {A B : Directory → Prop} {E Q : World → Prop} (hA : Stable foreign path A)
    (hB : Stable foreign path B) (hw : A w.directory)
    (hop : ∀ d', w.directory.unlink temporary = some d' → B d')
    (hkept : Kept info uid label foreign sizeBytes ready path w)
    (hE : ∀ w', A w'.directory → w'.log = w.log ++ [(.unlink temporary, false)] → E w')
    (hgone : ∀ w', w.directory.unlink temporary = none → A w'.directory → Q w')
    (h : ∀ w', B w'.directory → Q w') :
    (do let _ ← call (.unlink temporary) : VolumeProgram Unit).Safe
      (Allowed info uid label foreign sizeBytes ready path) (Effect info uid path foreign) E
      (fun _ => Q) w :=
  safe_bind (safe_unlink hA hB hw hop (hkept.allowed fun _ => trivial) hE hgone
    fun w' hw' _ => h w' hw')

theorem safe_cleanUp {v : Option ℕ} (hne : temporary ≠ path)
    (hw : Interrupted info uid label foreign sizeBytes path temporary i w v) :
    (cleanUp path temporary v).Safe (Allowed info uid label foreign sizeBytes ready path)
      (Effect info uid path foreign) (Kept info uid label foreign sizeBytes ready path)
      (fun _ => Kept info uid label foreign sizeBytes ready path) w := by
  -- Beside the volume only the temporary file is left to remove.
  have hbeside : ∀ f w', Beside foreign path temporary i f w'.directory →
      (do let _ ← call (.unlink temporary) : VolumeProgram Unit).Safe
        (Allowed info uid label foreign sizeBytes ready path) (Effect info uid path foreign)
        (Kept info uid label foreign sizeBytes ready path)
        (fun _ => Kept info uid label foreign sizeBytes ready path) w' := fun f w' hw' =>
    safe_unlink_last stable_beside stable_free hw'
      (fun d' hu => hw'.freeDirectory.unlink hne hu) hw'.freeDirectory.good.kept
      (fun w'' hw'' _ => hw''.freeDirectory.good.kept)
      (fun w'' _ hw'' => hw''.freeDirectory.good.kept) fun w'' hw'' => hw''.good.kept
  cases hw with
  | beside f hw => exact hbeside f w hw
  | linked f hf hw hwindow v hv =>
    cases v with
    | none =>
      refine safe_unlink_last stable_linked stable_stands hw (fun d' hu => hw.unlink hu)
        (hw.kept hf hwindow) (fun w' hw' hlog => hw'.kept hf (hlog ▸ hwindow.concat nofun))
        (fun w' hnone _ => absurd hnone (Directory.unlink_ne_none hw.look))
        fun w' hw' => (hw'.good hf).kept
    | some j =>
      -- The name is removed only if it is still the inode that this call has linked.
      obtain rfl := hv j rfl
      refine safe_bind (safe_quiet stable_linked rfl hw
        ((hw.kept hf hwindow).allowed fun _ => spares_of_isQuiet rfl _ _)
        (fun w' hw' hlog => hw'.kept hf (hlog ▸ hwindow.concat nofun))
        fun _ current w₁ hcurrent hw₁ hlog => ?_)
      have hwindow₁ : Window path w₁.log := hlog ▸ hwindow.concat nofun
      obtain rfl : w.directory.look path = current := eq_of_answerIf hcurrent
      rw [hw.published]
      dsimp only
      rw [if_pos rfl]
      refine safe_bind (safe_unlink stable_linked stable_beside hw₁
        (fun d' hu => hw₁.unlinkPath hu) ((hw₁.kept hf hwindow₁).allowed fun _ => trivial)
        (fun w' hw' hlog => hw'.kept hf (hlog ▸ hwindow₁.concat nofun))
        (fun w' hnone _ => absurd hnone (Directory.unlink_ne_none hw₁.published))
        fun w₂ hw₂ _ => hbeside f w₂ hw₂)
  | stands f hf hw =>
    refine safe_bind (safe_quiet stable_stands rfl hw
      ((hw.good hf).kept.allowed fun _ => spares_of_isQuiet rfl _ _)
      (fun w' hw' _ => (hw'.good hf).kept) fun _ current w₁ hcurrent hw₁ _ => ?_)
    obtain rfl : w.directory.look path = current := eq_of_answerIf hcurrent
    rw [hw.look]
    dsimp only
    rw [if_pos rfl]
    refine safe_bind (safe_unlink stable_stands stable_free hw₁
      (fun d' hu => hw₁.unlinkPath hu) ((hw₁.good hf).kept.allowed fun _ => trivial)
      (fun w' hw' _ => (hw'.good hf).kept)
      (fun w' hnone _ => absurd hnone (Directory.unlink_ne_none hw₁.look)) fun w₂ hw₂ _ => ?_)
    exact safe_unlink_last stable_free stable_free hw₂ (fun d' hu => hw₂.unlink hne hu)
      hw₂.good.kept (fun w' hw' _ => hw'.good.kept) (fun w' _ hw' => hw'.good.kept)
      fun w' hw' => hw'.good.kept

/-! ### The call as a whole -/

/-- Names of volumes do not start with a dot, names of temporary files do. -/
theorem dotted_ne_kvmVolumePath {name rest : String} (h : isLogicalName name = true) :
    "." ++ rest ≠ kvmVolumePath name := by
  intro heq
  have hlist := congrArg String.toList heq
  rw [kvmVolumePath, String.toList_append, String.toList_append] at hlist
  rw [isLogicalName] at h
  cases hname : name.toList with
  | nil =>
    rw [hname] at h
    cases h
  | cons c t =>
    rw [hname] at h hlist
    have hdot : '.' = c := (List.cons.inj hlist).1
    subst hdot
    simp [isLogicalName.isLowerOrDigit] at h

/-- What `ensure_kvm_volume` promises of the volume. -/
def Ensured (info : List UInt8 → Option (List (String × Json.Value))) (uid : ℕ) (label : Text)
    (sizeBytes : ℕ) (path : String) (d : Directory) : Prop :=
  ∃ i f, Sealed info uid label sizeBytes f ∧ Stands path (i, f, 1) d

theorem Ensured.good {d : Directory} (h : Ensured info uid label sizeBytes path d) :
    Good info uid label foreign sizeBytes ready path d := by
  obtain ⟨i, f, hf, hstands⟩ := h
  exact hstands.good hf

/-- A volume is made, and nothing else gets its name. -/
theorem safe_createVolume {name : String} (hname : isLogicalName name = true)
    (hpath : path = kvmVolumePath name) (hw : FreeDirectory foreign path w.directory) :
    (createVolume uid path sizeBytes label name).Safe
      (Allowed info uid label foreign sizeBytes ready path) (Effect info uid path foreign)
      (Kept info uid label foreign sizeBytes ready path)
      (fun _ w' => Ensured info uid label sizeBytes path w'.directory) w := by
  have hquiet : ∀ c w', c.isQuiet = true → FreeDirectory foreign path w'.directory →
      Allowed info uid label foreign sizeBytes ready path c w' := fun c w' hc hw' =>
    hw'.good.kept.allowed fun j => spares_of_isQuiet hc j _
  have hraised : ∀ w', FreeDirectory foreign path w'.directory →
      Kept info uid label foreign sizeBytes ready path w' := fun w' hw' => hw'.good.kept
  rw [createVolume]
  refine safe_bind (safe_bind (safe_runRequired stable_free rfl hw hquiet hraised
    fun _ _ w₁ _ hw₁ => ?_))
  refine safe_bind (safe_runRequired stable_free rfl hw₁ hquiet hraised fun _ _ w₂ _ hw₂ => ?_)
  refine safe_bind (safe_quiet stable_free rfl hw₂ (hquiet _ _ rfl hw₂)
    (fun w' hw' _ => hraised w' hw') fun _ _ w₃ _ hw₃ _ => ?_)
  -- Whatever is drawn, the temporary file does not have the name of a volume.
  have hne : ∀ o : Outcome, "." ++ name ++ "-" ++ o.drawn ++ ".raw.tmp" ≠ path := by
    intro o
    rw [hpath, String.append_assoc, String.append_assoc, String.append_assoc]
    exact dotted_ne_kvmVolumePath hname
  refine safe_bind (safe_operation
    (a := fun o => ("." ++ name ++ "-" ++ o.drawn ++ ".raw.tmp", w₃.directory.next))
    (g := fun o => w₃.directory.create ("." ++ name ++ "-" ++ o.drawn ++ ".raw.tmp") 0o600 uid)
    (B := fun o => Beside foreign path ("." ++ name ++ "-" ++ o.drawn ++ ".raw.tmp")
      w₃.directory.next ⟨[], 0o600, uid, true⟩) (fun _ => rfl) stable_free
    (fun _ => stable_beside) hw₃ (fun o d' hc => hw₃.create (hne o) hc)
    (hw₃.good.kept.allowed fun _ => trivial) (fun w' hw' _ => hraised w' hw')
    fun o w₄ hw₄ _ => ?_)
  refine Tried.Keeps.safe_bind ((keeps_publish hw₄).imp ?_ ?_)
  · rintro ⟨⟩ v w' ⟨g, hsealed, hw'⟩
    exact ⟨_, g, hsealed, hw'⟩
  · intro v w' hw'
    exact safe_bind ((safe_cleanUp (hne o) hw').imp fun _ _ h => h)

/-- **`ensure_kvm_volume`**, from a directory as earlier calls leave it, whatever it is answered:
wherever it is killed and however it ends, the name is free or a volume has it, with one name if
it had one name before, and outside the window. -/
theorem safe_ensureKvmVolume {project name : String} (hpath : path = kvmVolumePath name)
    (hlabel : label = kvmVolumeLabel project name)
    (hw : Good info uid label foreign sizeBytes ready path w.directory) :
    (ensureKvmVolume uid project name sizeBytes).Safe
      (Allowed info uid label foreign sizeBytes ready path) (Effect info uid path foreign)
      (Kept info uid label foreign sizeBytes ready path)
      (fun _ w' => Ensured info uid label sizeBytes path w'.directory) w := by
  rw [ensureKvmVolume]
  refine safe_bind (safe_require hw.kept fun hvalid => ?_)
  rw [Bool.and_eq_true] at hvalid
  subst hpath hlabel
  have hallowed : Allowed info uid (kvmVolumeLabel project name) foreign sizeBytes ready
      (kvmVolumePath name) (.lexists (kvmVolumePath name)) w := hw.kept.allowed fun _ => trivial
  cases hlook : w.directory.look (kvmVolumePath name) with
  | none =>
    refine safe_bind (safe_bind (safe_lexists stable_free ⟨hw.sound.wellFormed, Or.inl hlook⟩
      hallowed (fun w' hw' _ => hw'.good.kept) fun w₁ hw₁ _ => ?_))
    rw [Directory.look_eq_none.mp hlook]
    exact safe_bind ((safe_createVolume hvalid.2 rfl hw₁).imp fun _ _ h => h)
  | some x =>
    obtain ⟨i, f, n⟩ := x
    have hstable : Stable foreign (kvmVolumePath name) fun d =>
        Good info uid (kvmVolumeLabel project name) foreign sizeBytes ready (kvmVolumePath name) d ∧
          Stands (kvmVolumePath name) (i, f, n) d := stable_good.and stable_stands
    refine safe_bind (safe_bind (safe_lexists hstable ⟨hw, hw.sound.wellFormed, hlook⟩ hallowed
      (fun w' hw' _ => hw'.1.kept) fun w₁ hw₁ _ => ?_))
    rw [(Directory.find_of_look hlook).1]
    refine safe_bind (safe_verifyKvmPath hstable (fun d hd => hd.2.look) hw₁
      (fun c w' hc hw' => hw'.1.kept.allowed fun j => spares_of_isQuiet hc j _)
      (fun w' hw' => hw'.1.kept) fun hone hsealed w' hw' => ?_)
    exact ⟨i, f, hsealed, hone ▸ hw'.2⟩

end

end Palimpsest.Volumes
