import Palimpsest.Volumes.KvmVolume

/-!
# What a volume can look like

What the calls leave under the name of a volume, and the rules for one call. A file that someone
else puts there can appear between any two calls, so a rule asks for an assertion about the
directory that such a file leaves true (`Palimpsest.Volumes.Stable`). Which files these can be is
a parameter: none at all where only our own programs are about.
-/

namespace Palimpsest.Volumes

open Calls Calls.Program

variable {info : List UInt8 → Option (List (String × Json.Value))} {uid : ℕ} {path : String}
  {foreign : Inode → Prop} {α : Type}

/-! ### Assertions -/

/-- There is nothing under the name, or the file of someone else. -/
def Free (foreign : Inode → Prop) (path : String) (d : Directory) : Prop :=
  d.look path = none ∨ ∃ i f, foreign f ∧ d.look path = some (i, f, 1)

/-- A volume that passes its verification, but for the number of its names. -/
structure Sealed (info : List UInt8 → Option (List (String × Json.Value))) (uid : ℕ)
    (label : Text) (sizeBytes : ℕ) (f : Inode) : Prop where
  plain : isPlainVolume uid sizeBytes f 1 = true
  superblock : hasExt4Superblock label f.content = true
  reported : ∃ report, info f.content = some report ∧ describesRaw sizeBytes report = true

/-- The name is free, or the file there is a volume, of whatever size and with whatever number of
names. -/
structure Sound (info : List UInt8 → Option (List (String × Json.Value))) (uid : ℕ) (label : Text)
    (foreign : Inode → Prop) (path : String) (d : Directory) : Prop where
  wellFormed : d.WellFormed
  known : Free foreign path d ∨
    ∃ i f n sizeBytes, Sealed info uid label sizeBytes f ∧ d.look path = some (i, f, n)

/-- The name is free, or the file there is a volume of the size and has no other name. -/
def Ready (info : List UInt8 → Option (List (String × Json.Value))) (uid : ℕ) (label : Text)
    (foreign : Inode → Prop) (sizeBytes : ℕ) (path : String) (d : Directory) : Prop :=
  Free foreign path d ∨ ∃ i f, Sealed info uid label sizeBytes f ∧ d.look path = some (i, f, 1)

/-- A file has one name, beside that of the volume, which is free. -/
structure Beside (foreign : Inode → Prop) (path name : String) (i : ℕ) (f : Inode)
    (d : Directory) : Prop where
  wellFormed : d.WellFormed
  ne : name ≠ path
  free : Free foreign path d
  look : d.look name = some (i, f, 1)

/-- The name of the volume is a second name of the file. -/
structure Linked (path name : String) (i : ℕ) (f : Inode) (d : Directory) : Prop where
  wellFormed : d.WellFormed
  ne : name ≠ path
  look : d.look name = some (i, f, 2)
  published : d.look path = some (i, f, 2)

/-- This stands under the name of the volume. -/
structure Stands (path : String) (x : ℕ × Inode × ℕ) (d : Directory) : Prop where
  wellFormed : d.WellFormed
  look : d.look path = some x

/-! ### Files that appear -/

/-- A file that appears under the name of the volume leaves the assertion true. -/
def Stable (foreign : Inode → Prop) (path : String) (A : Directory → Prop) : Prop :=
  ∀ d f, foreign f → A d → A (d.place path f)

theorem Stable.and {A B : Directory → Prop} (hA : Stable foreign path A)
    (hB : Stable foreign path B) : Stable foreign path fun d => A d ∧ B d := fun d f hf h =>
  ⟨hA d f hf h.1, hB d f hf h.2⟩

theorem look_place_of_some {d : Directory} {x : ℕ × Inode × ℕ} {f : Inode}
    (h : d.look path = some x) : (d.place path f).look path = some x := by
  have hfind : (d.find path).isSome := by
    rw [Directory.look] at h
    cases hc : d.find path with
    | none =>
      rw [hc] at h
      cases h
    | some i => rfl
  rw [Directory.place_of_isSome hfind, h]

theorem free_place {d : Directory} {f : Inode} (hd : d.WellFormed) (hf : foreign f)
    (h : Free foreign path d) : Free foreign path (d.place path f) := by
  rcases h with h | ⟨i, g, hg, h⟩
  · exact Or.inr ⟨d.next, f, hf, Directory.look_place_self hd (Directory.look_eq_none.mp h)⟩
  · exact Or.inr ⟨i, g, hg, look_place_of_some h⟩

theorem stable_beside {name : String} {i : ℕ} {f : Inode} :
    Stable foreign path (Beside foreign path name i f) := fun _ _ hg h =>
  ⟨h.wellFormed.place, h.ne, free_place h.wellFormed hg h.free,
    (Directory.look_place_of_ne h.wellFormed h.ne).trans h.look⟩

theorem stable_linked {name : String} {i : ℕ} {f : Inode} :
    Stable foreign path (Linked path name i f) := fun _ _ _ h =>
  ⟨h.wellFormed.place, h.ne, (Directory.look_place_of_ne h.wellFormed h.ne).trans h.look,
    look_place_of_some h.published⟩

theorem stable_stands {x : ℕ × Inode × ℕ} : Stable foreign path (Stands path x) := fun _ _ _ h =>
  ⟨h.wellFormed.place, look_place_of_some h.look⟩

/-- The name is free in a directory that is as it should be. -/
structure FreeDirectory (foreign : Inode → Prop) (path : String) (d : Directory) : Prop where
  wellFormed : d.WellFormed
  free : Free foreign path d

theorem stable_free : Stable foreign path (FreeDirectory foreign path) := fun _ _ hf h =>
  ⟨h.wellFormed.place, free_place h.wellFormed hf h.free⟩

theorem Beside.freeDirectory {name : String} {i : ℕ} {f : Inode} {d : Directory}
    (h : Beside foreign path name i f d) : FreeDirectory foreign path d :=
  ⟨h.wellFormed, h.free⟩

/-- What stands beside the volume is another file than the one there. -/
theorem Beside.find_ne {name : String} {i : ℕ} {f : Inode} {d : Directory}
    (h : Beside foreign path name i f d) : d.find path ≠ some i := by
  intro hcon
  obtain ⟨hi, -, hlinks⟩ := Directory.find_of_look h.look
  exact h.wellFormed.ne_of_links hi hcon h.ne hlinks rfl

/-! ### One operation -/

section

variable {d d' : Directory} {name : String} {i : ℕ} {f : Inode}

theorem free_congr (h : Free foreign path d) (hlook : d'.look path = d.look path) :
    Free foreign path d' := by
  rw [Free, hlook]
  exact h

theorem Free.single (h : Free foreign path d) {x : ℕ × Inode × ℕ} (hx : d.look path = some x) :
    x.2.2 = 1 := by
  rcases h with h | ⟨i, f, -, h⟩
  · rw [h] at hx
    cases hx
  · rw [h] at hx
    rw [← Option.some.inj hx]

/-- A new file. -/
theorem FreeDirectory.create (h : FreeDirectory foreign path d) (hne : name ≠ path)
    (hc : d.create name 0o600 uid = some d') :
    Beside foreign path name d.next ⟨[], 0o600, uid, true⟩ d' :=
  ⟨h.wellFormed.create hc, hne,
    free_congr h.free (Directory.look_create_of_ne h.wellFormed hc hne.symm),
    Directory.look_create_self h.wellFormed hc⟩

/-- The file beside the volume becomes another one. -/
theorem Beside.put (h : Beside foreign path name i f d) (g : Inode) :
    Beside foreign path name i g (d.put i g) := by
  refine ⟨h.wellFormed.put, h.ne, free_congr h.free ?_, ?_⟩
  · rw [Directory.look_put]
    cases hlook : d.look path with
    | none => rfl
    | some x =>
      obtain ⟨j, f', n⟩ := x
      have hj : j ≠ i := fun hji => h.find_ne (hji ▸ (Directory.find_of_look hlook).1)
      rw [Option.map_some]
      dsimp only
      rw [if_neg hj]
  · rw [Directory.look_put, h.look, Option.map_some]
    dsimp only
    rw [if_pos rfl]

/-- The file gets the name of the volume. -/
theorem Beside.link (h : Beside foreign path name i f d) (hl : d.link name path = some d') :
    Linked path name i f d' := by
  obtain ⟨hi, hf, hlinks⟩ := Directory.find_of_look h.look
  refine ⟨h.wellFormed.link hl, h.ne, ?_, ?_⟩
  · rw [Directory.look_link_of_ne hi hl h.ne, h.look, Option.map_some]
    dsimp only
    rw [if_pos rfl]
  · rw [Directory.look_link_target hi hl, hf, hlinks]

theorem Linked.unlink (h : Linked path name i f d) (hu : d.unlink name = some d') :
    Stands path (i, f, 1) d' := by
  obtain ⟨hi, -, -⟩ := Directory.find_of_look h.look
  refine ⟨h.wellFormed.unlink hu, ?_⟩
  rw [Directory.look_unlink_of_ne h.wellFormed hi hu h.ne.symm, h.published, Option.map_some]
  dsimp only
  rw [if_pos rfl]

theorem Linked.unlinkPath (h : Linked path name i f d) (hu : d.unlink path = some d') :
    Beside foreign path name i f d' := by
  obtain ⟨hi, -, -⟩ := Directory.find_of_look h.published
  refine ⟨h.wellFormed.unlink hu, h.ne, Or.inl (Directory.look_unlink_self hu), ?_⟩
  rw [Directory.look_unlink_of_ne h.wellFormed hi hu h.ne, h.look, Option.map_some]
  dsimp only
  rw [if_pos rfl]

theorem Stands.unlinkPath {x : ℕ × Inode × ℕ} (h : Stands path x d)
    (hu : d.unlink path = some d') : FreeDirectory foreign path d' :=
  ⟨h.wellFormed.unlink hu, Or.inl (Directory.look_unlink_self hu)⟩

theorem FreeDirectory.unlink (h : FreeDirectory foreign path d) (hne : name ≠ path)
    (hu : d.unlink name = some d') : FreeDirectory foreign path d' :=
  ⟨h.wellFormed.unlink hu, free_congr h.free (Directory.look_unlink_of_single h.wellFormed hu
    hne.symm fun _ hx => h.free.single hx)⟩

theorem Stands.unlink (h : Stands path (i, f, 1) d) (hne : name ≠ path)
    (hu : d.unlink name = some d') : Stands path (i, f, 1) d' := by
  refine ⟨h.wellFormed.unlink hu, ?_⟩
  rw [Directory.look_unlink_of_single h.wellFormed hu hne.symm, h.look]
  intro x hx
  rw [h.look] at hx
  rw [← Option.some.inj hx]

/-- The volume gets another name. -/
theorem Stands.replace (h : Stands path (i, f, 1) d) (hne : name ≠ path)
    (hr : d.replace path name = some d') : Beside foreign path name i f d' := by
  obtain ⟨hi, hf, hlinks⟩ := Directory.find_of_look h.look
  have htarget : d.find name ≠ some i := fun hcon =>
    h.wellFormed.ne_of_links hi hcon hne.symm hlinks rfl
  obtain ⟨hname, hpath⟩ := Directory.look_replace h.wellFormed hi hne.symm htarget hr
  exact ⟨h.wellFormed.replace hr, hne, Or.inl hpath, hf ▸ hlinks ▸ hname⟩

/-- The file gets back the name of the volume. -/
theorem Beside.replace (h : Beside foreign path name i f d)
    (hr : d.replace name path = some d') : Stands path (i, f, 1) d' := by
  obtain ⟨hi, hf, hlinks⟩ := Directory.find_of_look h.look
  obtain ⟨hpath, -⟩ := Directory.look_replace h.wellFormed hi h.ne h.find_ne hr
  exact ⟨h.wellFormed.replace hr, hf ▸ hlinks ▸ hpath⟩

end

/-! ### Rules for calls -/

/-- How a call may be answered, where the files that appear are foreign ones. -/
def Effect (info : List UInt8 → Option (List (String × Json.Value))) (uid : ℕ) (path : String)
    (foreign : Inode → Prop) (c : FileCall) (a : Option (Answer c)) (w w' : World) : Prop :=
  ∃ o : Outcome, (∀ f ∈ o.appears, foreign f) ∧ answer info uid path o c w = (a, w')

/-- Calls that leave the directory as it is. -/
def FileCall.isQuiet : FileCall → Bool
  | .run (.format _ _) | .mkstemp _ _ | .fchmod _ _ | .ftruncate _ _ | .link _ _ | .unlink _
  | .replace _ _ => false
  | _ => true

section

variable {allowed : FileCall → World → Prop} {raised : World → Prop} {c : FileCall} {w : World}

/-- **A call**: what its operation makes of the directory is said by a stable assertion. -/
theorem safe_call {Q : Answer c → World → Prop} (hallowed : allowed c w)
    (h : ∀ o, ∃ A, Stable foreign path A ∧ A (perform info uid o w.directory c).2 ∧
      ∀ w', A w'.directory →
        w'.log = w.log ++ [(c, (perform info uid o w.directory c).1.isSome)] →
        (perform info uid o w.directory c).1.elim (raised w') fun a => Q a w') :
    (call c).Safe allowed (Effect info uid path foreign) raised Q w := by
  have hanswer : ∀ a w', Effect info uid path foreign c a w w' →
      a.elim (raised w') fun a => Q a w' := by
    rintro a w' ⟨o, ho, heq⟩
    obtain ⟨A, hstable, hA, h⟩ := h o
    obtain ⟨rfl, rfl⟩ := Prod.mk.inj heq
    refine h _ ?_ rfl
    dsimp only
    cases happears : o.appears with
    | none => exact hA
    | some f => exact hstable _ f (ho f happears) hA
  exact safe_ask hallowed (fun w' => hanswer none w') fun a w' => hanswer (some a) w'

theorem perform_quiet (hquiet : c.isQuiet = true) (o : Outcome) (d : Directory) :
    (perform info uid o d c).2 = d := by
  have hsame : ∀ {α : Type} (a : α), (answerIf o d a (some d)).2 = d := by
    intro α a
    rw [answerIf]
    split <;> rfl
  cases c with
  | run command =>
    cases command with
    | format label name => cases hquiet
    | version tool => exact hsame _
    | info name => exact hsame _
  | read name =>
    rw [perform]
    cases d.find name with
    | none => rfl
    | some i => exact hsame _
  | lexists name => exact hsame _
  | drawUuid => rfl
  | stat name => exact hsame _
  | makeParent => exact hsame _
  | fsync i => exact hsame _
  | syncFile name => exact hsame _
  | syncDirectory => exact hsame _
  | validateQuarantine => exact hsame _
  | mkstemp start suffix => cases hquiet
  | fchmod i mode => cases hquiet
  | ftruncate i size => cases hquiet
  | link source target => cases hquiet
  | unlink name => cases hquiet
  | replace source target => cases hquiet

/-- **A call that leaves the directory as it is.** -/
theorem safe_quiet {Q : Answer c → World → Prop} {A : Directory → Prop}
    (hA : Stable foreign path A) (hquiet : c.isQuiet = true) (hw : A w.directory)
    (hallowed : allowed c w)
    (hraised : ∀ w', A w'.directory → w'.log = w.log ++ [(c, false)] → raised w')
    (h : ∀ o a w', (perform info uid o w.directory c).1 = some a → A w'.directory →
      w'.log = w.log ++ [(c, true)] → Q a w') :
    (call c).Safe allowed (Effect info uid path foreign) raised Q w := by
  refine safe_call hallowed fun o => ⟨A, hA, (perform_quiet hquiet o w.directory).symm ▸ hw, ?_⟩
  intro w' hw' hlog
  cases ha : (perform info uid o w.directory c).1 with
  | none =>
    rw [ha] at hlog
    exact hraised w' hw' hlog
  | some a =>
    rw [ha] at hlog
    exact h o a w' ha hw' hlog

/-- **A call that does an operation or raises.** What it makes of the directory is up to the
outcome where it draws a name. -/
theorem safe_operation {Q : Answer c → World → Prop} {a : Outcome → Answer c}
    {g : Outcome → Option Directory} {A : Directory → Prop} {B : Outcome → Directory → Prop}
    (hperform : ∀ o, perform info uid o w.directory c = answerIf o w.directory (a o) (g o))
    (hA : Stable foreign path A) (hB : ∀ o, Stable foreign path (B o)) (hw : A w.directory)
    (hop : ∀ o d', g o = some d' → B o d') (hallowed : allowed c w)
    (hraised : ∀ w', A w'.directory → w'.log = w.log ++ [(c, false)] → raised w')
    (h : ∀ o w', B o w'.directory → w'.log = w.log ++ [(c, true)] → Q (a o) w') :
    (call c).Safe allowed (Effect info uid path foreign) raised Q w := by
  refine safe_call hallowed fun o => ?_
  rw [hperform o]
  cases hd : g o with
  | none => exact ⟨A, hA, hw, fun w' hw' hlog => hraised w' hw' hlog⟩
  | some d' =>
    rw [answerIf]
    split
    · exact ⟨A, hA, hw, fun w' hw' hlog => hraised w' hw' hlog⟩
    · exact ⟨B o, hB o, hop o d' hd, fun w' hw' hlog => h o w' hw' hlog⟩

/-- **A name is looked for.** -/
theorem safe_lexists {name : String} {Q : Bool → World → Prop} {A : Directory → Prop}
    (hA : Stable foreign path A) (hw : A w.directory) (hallowed : allowed (.lexists name) w)
    (hraised : ∀ w', A w'.directory → w'.log = w.log ++ [(.lexists name, false)] → raised w')
    (h : ∀ w', A w'.directory → w'.log = w.log ++ [(.lexists name, true)] →
      Q (w.directory.find name).isSome w') :
    (call (.lexists name)).Safe allowed (Effect info uid path foreign) raised Q w :=
  safe_operation (a := fun _ => (w.directory.find name).isSome) (g := fun _ => some w.directory)
    (B := fun _ => A) (fun _ => rfl) hA (fun _ => hA) hw (fun _ _ hd => Option.some.inj hd ▸ hw)
    hallowed hraised fun _ => h

/-- **The removal of a name**, which may be gone. -/
theorem safe_unlink {name : String} {Q : Bool → World → Prop} {A B : Directory → Prop}
    (hA : Stable foreign path A) (hB : Stable foreign path B) (hw : A w.directory)
    (hop : ∀ d', w.directory.unlink name = some d' → B d') (hallowed : allowed (.unlink name) w)
    (hraised : ∀ w', A w'.directory → w'.log = w.log ++ [(.unlink name, false)] → raised w')
    (hgone : ∀ w', w.directory.unlink name = none → A w'.directory → Q false w')
    (h : ∀ w', B w'.directory → w'.log = w.log ++ [(.unlink name, true)] → Q true w') :
    (call (.unlink name)).Safe allowed (Effect info uid path foreign) raised Q w := by
  cases hd : w.directory.unlink name with
  | none =>
    refine safe_operation (a := fun _ => false) (g := fun _ => some w.directory)
      (B := fun _ => A) (fun o => ?_) hA (fun _ => hA) hw (fun _ d' hd' => ?_) hallowed hraised
      fun _ w' hw' _ => hgone w' hd hw'
    · rw [perform, hd]
    · rw [← Option.some.inj hd']
      exact hw
  | some d =>
    refine safe_operation (a := fun _ => true) (g := fun _ => some d) (B := fun _ => B)
      (fun o => ?_) hA (fun _ => hB) hw (fun _ d' hd' => ?_) hallowed hraised
      fun _ w' hw' hlog => h w' hw' hlog
    · rw [perform, hd]
    · rw [← Option.some.inj hd']
      exact hop d hd

theorem eq_of_answerIf {β : Type} {o : Outcome} {d : Directory} {a b : β}
    {d' : Option Directory} (h : (answerIf o d a d').1 = some b) : a = b := by
  cases d' with
  | none => cases h
  | some d' =>
    rw [answerIf] at h
    split at h
    · cases h
    · exact Option.some.inj h

end

/-! ### Rules for the parts that change nothing -/

section

variable {allowed : FileCall → World → Prop} {raised : World → Prop} {A : Directory → Prop}
  {w : World}

theorem safe_runRequired {command : Command} {Q : CompletedProcess → World → Prop}
    (hA : Stable foreign path A) (hquiet : (FileCall.run command).isQuiet = true)
    (hw : A w.directory) (hallowed : ∀ c w', c.isQuiet → A w'.directory → allowed c w')
    (hraised : ∀ w', A w'.directory → raised w')
    (h : ∀ o a w', (perform info uid o w.directory (.run command)).1 = some a →
      A w'.directory → Q a w') :
    (runRequired command).Safe allowed (Effect info uid path foreign) raised Q w := by
  refine safe_bind (safe_quiet hA hquiet hw (hallowed _ _ hquiet hw)
    (fun w' hw' _ => hraised w' hw') fun o a w' ha hw' _ => ?_)
  refine safe_bind (safe_require (hraised w' hw') fun _ => ?_)
  exact h o a w' ha hw'

/-- **Verification**: a file that passes it is a volume with one name. -/
theorem safe_verifyKvmPath {name : String} {sizeBytes : ℕ} {label : Text} {i n : ℕ} {f : Inode}
    {Q : Unit → World → Prop} (hA : Stable foreign path A)
    (hlook : ∀ d, A d → d.look name = some (i, f, n)) (hw : A w.directory)
    (hallowed : ∀ c w', c.isQuiet → A w'.directory → allowed c w')
    (hraised : ∀ w', A w'.directory → raised w')
    (h : n = 1 → Sealed info uid label sizeBytes f → ∀ w', A w'.directory → Q () w') :
    (verifyKvmPath uid name sizeBytes label).Safe allowed (Effect info uid path foreign) raised Q
      w := by
  rw [verifyKvmPath]
  refine safe_bind (safe_quiet hA rfl hw (hallowed _ _ rfl hw) (fun w' hw' _ => hraised w' hw')
    fun o status w₁ hstatus hw₁ _ => ?_)
  obtain rfl : w.directory.look name = status := eq_of_answerIf hstatus
  refine safe_bind (safe_take (hraised w₁ hw₁) fun metadata hmetadata => ?_)
  rw [hlook _ hw] at hmetadata
  obtain rfl := Option.some.inj hmetadata
  refine safe_bind (safe_require (hraised w₁ hw₁) fun hplain => ?_)
  refine safe_bind (safe_bind (safe_runRequired hA rfl hw₁ hallowed hraised
    fun o result w₂ hresult hw₂ => safe_take (hraised w₂ hw₂) fun report hreport => ?_))
  -- `qemu-img` was asked about the same file, as the name still stands for it.
  have hinfo : info f.content = some report := by
    have heq := eq_of_answerIf hresult
    rw [hlook _ hw₁] at heq
    rw [← heq] at hreport
    exact hreport
  refine safe_bind (safe_require (hraised w₂ hw₂) fun hraw => ?_)
  refine safe_bind (safe_quiet hA rfl hw₂ (hallowed _ _ rfl hw₂) (fun w' hw' _ => hraised w' hw')
    fun o content w₃ hcontent hw₃ _ => ?_)
  obtain rfl : f.content = content := by
    have heq := eq_of_answerIf hcontent
    rw [hlook _ hw₂] at heq
    exact heq
  refine safe_require (hraised w₃ hw₃) fun hsuper => ?_
  have hone : n = 1 := by
    simp only [isPlainVolume, Bool.and_eq_true, decide_eq_true_eq] at hplain
    exact hplain.1.2
  exact h hone ⟨hone ▸ hplain, hsuper, report, hinfo, hraw⟩ w₃ hw₃

end

end Palimpsest.Volumes
