import Palimpsest.Hub.TagProtocol

/-!
# The transactions keep the protocol

Along a transaction: which rows it has locked and which it has written so far
(`Palimpsest.Hub.Tags.Holding`), and the rows that it has read, which may be older
(`Palimpsest.Hub.Tags.Visited`). What is decided on old rows is compared with the rows as they are
where a tag is written, and needs no comparison where none is
(`Palimpsest.Hub.Tags.observes_finalizeCommit`).
-/

namespace Palimpsest.Hub.Tags

open Calls Calls.Protocol

variable {requests : Caller → CommitRequest} {i : Caller} {w w' : World} {s s₁ : Store}
  {p : List Write} {row : RegistryPackage}

/-! ### Where a transaction is -/

/-- The transaction has the lock on these rows and has written these ones. -/
structure Holding (i : Caller) (s : Store) (p : List Write) (w : World) : Prop where
  holder : w.holder = some i
  store : w.store = s
  pending : w.pending i = p

/-- The transaction has been where the rows were these. -/
def Visited (i : Caller) (s₁ : Store) (w : World) : Prop :=
  ∃ k, w.started i ≤ k ∧ k ≤ w.since i ∧ w.storeAt k = s₁

/-- Since the transaction began, this was so at some moment. -/
def Happened (i : Caller) (w : World) (P : Store → Prop) : Prop :=
  Sometime w (w.started i) w.history.length P

theorem Holding.relies (h : Holding i s p w) (hrely : Relies i w w') : Holding i s p w' := by
  obtain ⟨hholder, hhistory⟩ := hrely.held h.holder
  refine ⟨hholder, ?_, hrely.pending.trans h.pending⟩
  rw [← h.store, World.store, World.store, World.storeAt, World.storeAt, hhistory]

theorem Visited.relies (h : Visited i s₁ w) (hinv : Inv requests w) (hrely : Relies i w w') :
    Visited i s₁ w' := by
  obtain ⟨k, hstarted, hsince, rfl⟩ := h
  exact ⟨k, hrely.started.symm ▸ hstarted, hrely.since.symm ▸ hsince,
    storeAt_of_isPrefix hrely.grows (hsince.trans (hinv.since_le i))⟩

theorem Happened.relies {P : Store → Prop} (h : Happened i w P) (hrely : Relies i w w') :
    Happened i w' P := by
  obtain ⟨k, hstarted, hk, hP⟩ := h
  refine ⟨k, hrely.started.symm ▸ hstarted, hk.trans hrely.grows.length_le, ?_⟩
  rw [storeAt_of_isPrefix hrely.grows hk]
  exact hP

theorem Visited.happened {P : Store → Prop} (h : Visited i s₁ w) (hinv : Inv requests w)
    (hP : P s₁) : Happened i w P := by
  obtain ⟨k, hstarted, hsince, rfl⟩ := h
  exact ⟨k, hstarted, hsince.trans (hinv.since_le i), hP⟩

/-- What is so now has happened. -/
theorem happened_now {P : Store → Prop} (hinv : Inv requests w) (hP : P w.store) :
    Happened i w P :=
  ⟨w.history.length, (hinv.started_le i).trans (hinv.since_le i), Nat.le_refl _, hP⟩

/-- Where a tag is not what it was when the transaction was there, it had another root than the
expected one at some moment. -/
theorem Visited.differs {r : CommitRequest} (h : Visited i s₁ w) (hinv : Inv requests w)
    (hchanged : w.store.tag r.tag ≠ s₁.tag r.tag) : Happened i w (Differs r) := by
  obtain ⟨k, hstarted, hsince, rfl⟩ := h
  obtain ⟨l, hkl, hlength, hne⟩ := hinv.exists_ne (hsince.trans (hinv.since_le i)) (Nat.le_refl _)
    hchanged r.expectedTagDigest
  exact ⟨l, hstarted.trans hkl, hlength, hne⟩

theorem Visited.complete (h : Visited i s₁ w) (hinv : Inv requests w) : s₁.Complete := by
  obtain ⟨k, -, hsince, rfl⟩ := h
  exact hinv.complete (hsince.trans (hinv.since_le i))

/-- A row that the transaction reads is not older than those it has read. -/
theorem Visited.keeps (h : Visited i s₁ w) (hinv : Inv requests w) (o : Outcome) :
    Keeps s₁ (w.storeAt (w.visible i o)) := by
  obtain ⟨k, -, hsince, rfl⟩ := h
  exact hinv.keeps (hsince.trans (le_visible w i o)) (hinv.visible_le o)

theorem Inv.keeps_now (hinv : Inv requests w) (o : Outcome) :
    Keeps (w.storeAt (w.visible i o)) w.store :=
  hinv.keeps (hinv.visible_le o) (Nat.le_refl _)

theorem Holding.draft (h : Holding i s p w) : w.draft i = p.foldl Store.write s := by
  rw [World.draft, h.store, h.pending]

theorem Holding.wrote (h : Holding i s p w) (write : Write) :
    Holding i s (p ++ [write]) (w.wrote i write) :=
  ⟨h.holder, h.store, (Function.update_self i _ w.pending).trans (by rw [h.pending])⟩

theorem Holding.readAt (h : Holding i s p w) (k : ℕ) : Holding i s p (w.readAt i k) :=
  ⟨h.holder, h.store, h.pending⟩

theorem Visited.readAt (h : Visited i s₁ w) {k : ℕ} (hk : w.since i ≤ k) :
    Visited i s₁ (w.readAt i k) := by
  obtain ⟨l, hstarted, hsince, hstore⟩ := h
  refine ⟨l, hstarted, ?_, hstore⟩
  change l ≤ Function.update w.since i k i
  rw [Function.update_self]
  exact hsince.trans hk

theorem visited_readAt (hinv : Inv requests w) {k : ℕ} (hk : w.since i ≤ k) :
    Visited i (w.storeAt k) (w.readAt i k) := by
  refine ⟨k, (hinv.started_le i).trans hk, ?_, rfl⟩
  change k ≤ Function.update w.since i k i
  rw [Function.update_self]

/-! ### Calls -/

/-- The transactions observe the protocol, whatever the outcomes are. -/
abbrev Observes {α : Type} (requests : Caller → CommitRequest) (i : Caller) (q : SqlProgram α)
    (Q : α → World → Prop) (w : World) : Prop :=
  (protocol requests).Observes surroundings (fun _ _ _ _ => True) i q Q (fun _ => True) w

/-- **A call**: what it does respects the others, and what follows is so whatever they do then. -/
theorem observes_call {c : Call} {Q : Answer c → World → Prop} (hinv : Inv requests w)
    (hrespects : ∀ o, ready i c w → (protocol requests).Respects i w (effect i o w c).2)
    (h : ∀ o w', ready i c w → Relies i (effect i o w c).2 w' → Inv requests w' →
      Q (effect i o w c).1 w') :
    Observes requests i (call c) Q w := by
  refine observes_ask (fun o hready _ => ?_) (fun _ _ _ _ _ _ _ => trivial)
    fun o a w' hready _ ha hrely hinv' => ?_
  · change (protocol requests).Respects i w (answer i o c w).2
    rw [answer]
    split
    · exact respects_refl hinv
    · exact hrespects o hready
  · change (answer i o c w).1 = some a at ha
    change Relies i (answer i o c w).2 w' at hrely
    rw [answer] at ha hrely
    split at ha
    · cases ha
    · next hfails =>
      rw [if_neg hfails] at hrely
      dsimp only at ha
      split at ha
      · cases ha
      · exact Option.some.inj ha ▸ h o w' hready hrely hinv'

/-- A call that changes nothing. -/
theorem observes_quiet {c : Call} {Q : Answer c → World → Prop} (hinv : Inv requests w)
    (hquiet : ∀ o, (effect i o w c).2 = w)
    (h : ∀ a w', Relies i w w' → Inv requests w' → Q a w') : Observes requests i (call c) Q w := by
  refine observes_call hinv (fun o _ => ?_) fun o w' _ hrely hinv' => ?_
  · rw [hquiet o]
    exact respects_refl hinv
  · rw [hquiet o] at hrely
    exact h _ w' hrely hinv'

/-! ### The parts of a transaction -/

/-- What `commit_package` has come to. -/
def Decided (r : CommitRequest) (i : Caller) (w : World) : Response → Prop
  | .ok (receipt, changed) =>
    w.holder = some i ∧ StoreStep r w.store (w.draft i) ∧ receipt.alreadyPublished = !changed ∧
      if changed then Moved r w.store (w.draft i) else Happened i w (Same r)
  | .error e =>
    e = .registry packageTypeConflict ∧ Happened i w (fun s => ∃ p, s.package = some p ∧
      p.packageType ≠ r.packageType) ∨
    e = .registry tagConflict ∧ Happened i w (fun s => ¬Same r s) ∧ Happened i w (Differs r) ∨
    e = .integrity ∧ Happened i w fun s => ¬Same r s

section

variable (requests i)

/-- The tag has been written; the row of the package is what is left. -/
theorem observes_touch {new : PackageTag} (hinv : Inv requests w)
    (hw : Holding i s (p ++ [.tag (requests i).tag new]) w)
    (hdrafted : Drafted row s (p.foldl Store.write s))
    (hversion : ∃ v, (p.foldl Store.write s).version (requests i).validated.rootDigest = some v)
    (hexpected : (s.tag (requests i).tag).map (·.rootDigest) = (requests i).expectedTagDigest)
    (hchanged : (requests i).expectedTagDigest ≠ some (requests i).validated.rootDigest)
    (hroot : new.rootDigest = (requests i).validated.rootDigest)
    (hrevision : new.revision = (s.tag (requests i).tag).elim 1 (·.revision + 1))
    (hby : new.updatedBy = (requests i).userId) :
    Observes requests i (do
      let touchedAt : ℕ ← call .now
      let _ ← call (.touchPackage touchedAt)
      return .ok (receipt (requests i) row false, true)) (fun response w =>
        Decided (requests i) i w response) w := by
  refine observes_bind (observes_quiet hinv (fun _ => rfl) fun touchedAt w₁ hrely hinv₁ => ?_)
  have hw₁ := hw.relies hrely
  refine observes_bind (observes_call hinv₁ (fun o _ => (own_wrote hinv₁ hw₁.holder _).respects
    hinv₁) fun o w₂ _ hrely hinv₂ => ?_)
  have hw₂ := (hw₁.wrote (.touch touchedAt)).relies hrely
  obtain ⟨hstep, hmoved⟩ := hdrafted.moved hversion hexpected hchanged hroot hrevision hby touchedAt
  have hdraft : w₂.draft i = ((p.foldl Store.write s).write (.tag (requests i).tag new)).write
      (.touch touchedAt) := by
    rw [hw₂.draft, List.foldl_append, List.foldl_append]
    rfl
  refine observes_pure ⟨hw₂.holder, ?_, rfl, ?_⟩
  · rw [hdraft, hw₂.store]
    exact hstep
  · rw [if_pos rfl, hdraft, hw₂.store]
    exact hmoved

/-- **A tag is moved** after the rows were read that show it, if it is still as it was then. -/
theorem observes_moveTag (hinv : Inv requests w) (hw : Holding i s p w) (hs₁ : Visited i s₁ w)
    (hdrafted : Drafted row s (p.foldl Store.write s))
    (hversion : ∃ v, (p.foldl Store.write s).version (requests i).validated.rootDigest = some v)
    (hexpected : ¬Same (requests i) s₁ →
      (s₁.tag (requests i).tag).map (·.rootDigest) = (requests i).expectedTagDigest) :
    Observes requests i (moveTag (requests i) row (s₁.tag (requests i).tag)) (fun response w =>
      Decided (requests i) i w response) w := by
  set r := requests i
  rw [moveTag.eq_def]
  by_cases hsame : Same r s₁
  · rw [if_pos (isSame_iff.mpr hsame)]
    refine observes_pure ⟨hw.holder, ?_, rfl, ?_⟩
    · rw [hw.draft, hw.store]
      exact hdrafted.step
    · exact hs₁.happened hinv hsame
  rw [if_neg fun h => hsame (isSame_iff.mp h)]
  have hexpected := hexpected hsame
  -- The guarded statement changes no row: the tag is not what it was when it was read.
  have hconflict : ∀ w' : World, Inv requests w' → Visited i s₁ w' →
      w'.store.tag r.tag ≠ s₁.tag r.tag →
      Observes requests i (return .error (.registry tagConflict)) (fun response w =>
        Decided r i w response) w' := fun w' hinv' hs₁ hchanged =>
    observes_pure (Or.inr (Or.inl ⟨rfl, hs₁.happened hinv' hsame, hs₁.differs hinv' hchanged⟩))
  -- The tag is new, or one row is updated where root and revision are still the ones read.
  cases htag : s₁.tag r.tag with
  | none =>
    rw [htag] at hexpected
    refine observes_bind (observes_quiet hinv (fun _ => rfl) fun updatedAt w₁ hrely hinv₁ => ?_)
    have hw₁ := hw.relies hrely
    have hs₁ := hs₁.relies hinv hrely
    refine observes_bind (observes_call hinv₁ (fun o _ => ?_) fun o w₂ _ hrely hinv₂ => ?_)
    · rw [effect]
      split
      · exact respects_refl hinv₁
      · exact (own_wrote hinv₁ hw₁.holder _).respects hinv₁
    · rw [effect] at hrely ⊢
      split at hrely
      · next htaken =>
        rw [if_pos htaken]
        refine hconflict w₂ hinv₂ (hs₁.relies hinv₁ hrely) fun heq => ?_
        rw [hw₁.store, ← (hw₁.relies hrely).store, heq, htag] at htaken
        cases htaken
      · next hfree =>
        rw [if_neg hfree]
        have hnone : s.tag r.tag = none := by
          rw [hw₁.store] at hfree
          exact Option.not_isSome_iff_eq_none.mp hfree
        refine observes_touch requests i hinv₂ ((hw₁.wrote _).relies hrely) hdrafted hversion ?_ ?_
          rfl ?_ rfl
        · rw [hnone]
          exact hexpected
        · rw [← hexpected]
          nofun
        · rw [hnone]
          rfl
  | some seen =>
    rw [htag, Option.map_some] at hexpected
    refine observes_bind (observes_quiet hinv (fun _ => rfl) fun updatedAt w₁ hrely hinv₁ => ?_)
    have hw₁ := hw.relies hrely
    have hs₁ := hs₁.relies hinv hrely
    refine observes_bind (observes_call hinv₁ (fun o _ => ?_) fun o w₂ _ hrely hinv₂ => ?_)
    · rw [effect]
      split
      · exact (own_wrote hinv₁ hw₁.holder _).respects hinv₁
      · exact respects_refl hinv₁
    · rw [effect] at hrely ⊢
      split at hrely
      · next hfound =>
        rw [if_pos hfound]
        obtain ⟨current, hcurrent, hroot, hrevision⟩ : ∃ current, s.tag r.tag = some current ∧
            some current.rootDigest = r.expectedTagDigest ∧ current.revision = seen.revision := by
          rw [hw₁.store, Option.any_eq_true] at hfound
          obtain ⟨current, hcurrent, hfound⟩ := hfound
          rw [Bool.and_eq_true, decide_eq_true_eq, decide_eq_true_eq] at hfound
          exact ⟨current, hcurrent, hfound⟩
        refine observes_touch requests i hinv₂ ((hw₁.wrote _).relies hrely) hdrafted hversion ?_ ?_
          rfl ?_ rfl
        · rw [hcurrent]
          exact hroot
        · rw [← hexpected]
          intro heq
          rw [Same, htag] at hsame
          exact hsame heq
        · rw [hcurrent]
          exact congrArg (· + 1) hrevision.symm
      · next hfound =>
        rw [if_neg hfound]
        refine hconflict w₂ hinv₂ (hs₁.relies hinv₁ hrely) fun heq => hfound ?_
        rw [hw₁.store, ← (hw₁.relies hrely).store, heq, htag, Option.any_some, hexpected]
        simp only [decide_true, Bool.and_self]

/-- The part after the row of the package. -/
theorem observes_commitVersion (hinv : Inv requests w) (hw : Holding i s p w)
    (hdrafted : Drafted row s (p.foldl Store.write s)) :
    Observes requests i (commitVersion (requests i) row) (fun response w =>
      Decided (requests i) i w response) w := by
  set r := requests i
  rw [commitVersion]
  refine observes_bind (observes_call hinv (fun o _ => (own_readAt hinv (le_visible w i o)
    (hinv.visible_le o)).respects hinv) fun o w₁ _ hrely hinv₁ => ?_)
  dsimp only [effect] at hrely ⊢
  set s₁ := w.storeAt (w.visible i o)
  have hw₁ := (hw.readAt _).relies hrely
  have hs₁ : Visited i s₁ w₁ := (visited_readAt hinv (le_visible w i o)).relies
    ((own_readAt hinv (le_visible w i o) (hinv.visible_le o)).respects hinv).inv hrely
  split
  · next hdiffers =>
    -- neither the root of the request nor the one that it expects
    rw [Bool.and_eq_true, Bool.not_eq_true', ← Bool.not_eq_true, isSame_iff] at hdiffers
    rw [decide_eq_true_eq] at hdiffers
    exact observes_pure (Or.inr (Or.inl ⟨rfl, hs₁.happened hinv₁ hdiffers.1,
      hs₁.happened hinv₁ hdiffers.2⟩))
  next hagrees =>
  have hexpected : ¬Same r s₁ → (s₁.tag r.tag).map (·.rootDigest) = r.expectedTagDigest := by
    intro hsame
    by_contra hne
    refine hagrees ?_
    rw [Bool.and_eq_true, Bool.not_eq_true', ← Bool.not_eq_true, isSame_iff, decide_eq_true_eq]
    exact ⟨hsame, hne⟩
  refine observes_bind (observes_call hinv₁ (fun o _ => (own_readAt hinv₁ (le_visible w₁ i o)
    (hinv₁.visible_le o)).respects hinv₁) fun o w₂ _ hrely hinv₂ => ?_)
  have hkeeps := hs₁.keeps hinv₁ o
  have hnow := hinv₁.keeps_now (i := i) o
  dsimp only [effect] at hrely ⊢
  set s₂ := w₁.storeAt (w₁.visible i o)
  have hw₂ := (hw₁.readAt _).relies hrely
  have hs₂ : Visited i s₁ w₂ := (hs₁.readAt (le_visible w₁ i o)).relies
    ((own_readAt hinv₁ (le_visible w₁ i o) (hinv₁.visible_le o)).respects hinv₁).inv hrely
  rw [hw₁.store] at hnow
  cases hversion : s₂.version r.validated.rootDigest with
  | some v =>
    refine observes_moveTag requests i hinv₂ hw₂ hs₂ hdrafted ⟨v, ?_⟩ hexpected
    exact hdrafted.keeps.version _ _ (hnow.version _ _ hversion)
  | none =>
    -- a tag with the root would have had a version
    have hsame : ¬Same r s₁ := by
      intro hsame
      obtain ⟨v, hv⟩ := (hs₁.complete hinv₁).exists_version hsame
      rw [hkeeps.version _ _ hv] at hversion
      cases hversion
    refine observes_bind (observes_quiet hinv₂ (fun _ => rfl) fun pushedAt w₃ hrely hinv₃ => ?_)
    have hw₃ := hw₂.relies hrely
    have hs₃ := hs₂.relies hinv₂ hrely
    refine observes_bind (observes_call hinv₃ (fun o _ => ?_) fun o w₄ _ hrely hinv₄ => ?_)
    · rw [effect]
      split
      · exact respects_refl hinv₃
      · exact (own_wrote hinv₃ hw₃.holder _).respects hinv₃
    · rw [effect] at hrely ⊢
      split at hrely
      · next htaken =>
        rw [if_pos htaken]
        exact observes_pure (Or.inr (Or.inr ⟨rfl,
          (hs₃.relies hinv₃ hrely).happened hinv₄ hsame⟩))
      · next hfree =>
        rw [if_neg hfree]
        have hnone : s.version r.validated.rootDigest = none := by
          rw [hw₃.store] at hfree
          exact Option.not_isSome_iff_eq_none.mp hfree
        have hw₄ := (hw₃.wrote (.version (newVersion r pushedAt))).relies hrely
        have hs₄ : Visited i s₁ w₄ := Visited.relies (w := w₃.wrote i _) hs₃
          ((own_wrote hinv₃ hw₃.holder _).respects hinv₃).inv hrely
        refine observes_bind (observes_call hinv₄ (fun o _ => (own_wrote hinv₄ hw₄.holder
          _).respects hinv₄) fun o w₅ _ hrely hinv₅ => ?_)
        have hw₅ := (hw₄.wrote (.references r.validated.rootDigest (referencedBlobs r))).relies
          hrely
        have hs₅ : Visited i s₁ w₅ := Visited.relies (w := w₄.wrote i _) hs₄
          ((own_wrote hinv₄ hw₄.holder _).respects hinv₄).inv hrely
        have hfold : (p ++ [Write.version (newVersion r pushedAt)] ++
            [Write.references r.validated.rootDigest (referencedBlobs r)]).foldl Store.write s =
            ((p.foldl Store.write s).write (.version (newVersion r pushedAt))).write
              (.references r.validated.rootDigest (referencedBlobs r)) := by
          rw [List.foldl_append, List.foldl_append]
          rfl
        refine observes_moveTag requests i hinv₅ hw₅ hs₅ ?_ ⟨newVersion r pushedAt, ?_⟩ hexpected
        · rw [hfold]
          exact hdrafted.version hnone pushedAt
        · rw [hfold]
          exact Function.update_self (newVersion r pushedAt).rootDigest _ _

/-- **`commit_package`**, in a transaction that has written nothing yet. -/
theorem observes_commitPackage (hinv : Inv requests w) (hpending : w.pending i = []) :
    Observes requests i (commitPackage (requests i)) (fun response w =>
      Decided (requests i) i w response) w := by
  set r := requests i
  rw [commitPackage]
  refine observes_bind (observes_call hinv (fun o hready => ?_) fun o w₁ hready hrely hinv₁ => ?_)
  · rw [effect]
    split
    · next hpackage =>
      change (w.store.package.isNone || w.isFree i) = true at hready
      rw [hpackage] at hready
      exact (own_hold hinv hready).respects hinv
    · exact respects_refl hinv
  rw [effect] at hrely ⊢
  cases hpackage : w.store.package with
  | some row =>
    rw [hpackage] at hrely
    have hw₁ : Holding i w.store [] w₁ :=
      Holding.relies (w := { w with holder := some i }) ⟨rfl, rfl, hpending⟩ hrely
    have hcomplete : w.store.Complete := hinv.complete (Nat.le_refl _)
    dsimp only
    split
    · next htype =>
      refine observes_pure (Or.inl ⟨rfl, happened_now hinv₁ ⟨row, ?_, htype⟩⟩)
      rw [hw₁.store]
      exact hpackage
    · exact observes_commitVersion requests i hinv₁ hw₁ (drafted_self hcomplete hpackage)
  | none =>
    rw [hpackage] at hrely
    dsimp only at hrely ⊢
    -- the package may come to exist before this transaction inserts it
    have hbefore : Happened i w₁ fun s => ¬Same r s :=
      (happened_now hinv ((hinv.complete (Nat.le_refl _)).not_same hpackage)).relies hrely
    refine observes_bind (observes_quiet hinv₁ (fun _ => rfl) fun id w₂ hrely₂ hinv₂ => ?_)
    refine observes_bind (observes_quiet hinv₂ (fun _ => rfl) fun createdAt w₃ hrely₃ hinv₃ => ?_)
    refine observes_bind (observes_quiet hinv₃ (fun _ => rfl) fun updatedAt w₄ hrely₄ hinv₄ => ?_)
    have hrely := ((hrely.trans hrely₂).trans hrely₃).trans hrely₄
    have hbefore := ((hbefore.relies hrely₂).relies hrely₃).relies hrely₄
    set row : RegistryPackage := ⟨id, r.packageType, createdAt, updatedAt⟩
    have hown : w₄.isFree i = true →
        Own i w₄ { w₄.wrote i (.package row) with holder := some i } := fun hfree =>
      ⟨rfl, rfl, fun _ hj => ⟨Function.update_of_ne hj _ _, rfl, rfl⟩,
        (own_hold hinv₄ hfree).holder, hinv₄.started_le i, hinv₄.since_le i, fun _ => rfl⟩
    refine observes_bind (observes_call hinv₄ (fun o hready => ?_)
      fun o w₅ hready hrely₅ hinv₅ => ?_)
    · rw [effect]
      split
      · exact respects_refl hinv₄
      · exact (hown hready).respects hinv₄
    · rw [effect] at hrely₅ ⊢
      split at hrely₅
      · next htaken =>
        rw [if_pos htaken]
        exact observes_pure (Or.inr (Or.inr ⟨rfl, hbefore.relies hrely₅⟩))
      · next hfree =>
        rw [if_neg hfree]
        have hnone := Option.not_isSome_iff_eq_none.mp hfree
        have hw₅ : Holding i w₄.store [.package row] w₅ := by
          refine Holding.relies (w := { w₄.wrote i (.package row) with holder := some i })
            ⟨rfl, rfl, ?_⟩ hrely₅
          change Function.update w₄.pending i (w₄.pending i ++ [.package row]) i = _
          rw [Function.update_self, hrely.pending, hpending, List.nil_append]
        exact observes_commitVersion requests i hinv₅ hw₅
          (drafted_package (hinv₄.complete (Nat.le_refl _)) hnone)

/-- The client is answered. -/
theorem observes_respond {response : Response} (hinv : Inv requests w)
    (h : Justified (requests i) i w (w.started i) w.history.length response) :
    Observes requests i (call (.respond response)) (fun _ _ => True) w :=
  observes_call hinv (fun o _ => respects_respond hinv h o) fun _ _ _ _ _ => trivial

/-- **The transaction as a whole.** -/
theorem observes_finalizeCommit (hinv : Inv requests w) :
    Observes requests i (finalizeCommit (requests i)) (fun _ _ => True) w := by
  rw [finalizeCommit]
  refine observes_bind (observes_call hinv (fun o _ => (own_begin o).respects hinv)
    fun o w₁ _ hrely hinv₁ => ?_)
  have hpending : w₁.pending i = [] := hrely.pending.trans (pending_cleared w i)
  refine observes_bind (((observes_commitPackage requests i hinv₁ hpending).and_inv hinv₁).imp
    fun response w₂ h => ?_)
  obtain ⟨hinv₂, hdecided⟩ := h
  match response, hdecided with
  | .error e, hdecided =>
    have hjustified : Justified (requests i) i w₂ (w₂.started i) w₂.history.length (.error e) :=
      hdecided
    exact observes_respond requests i hinv₂ hjustified
  | .ok (receipt, changed), ⟨hheld, hstep, hreceipt, hchanged⟩ =>
    refine observes_bind (observes_call hinv₂ (fun o _ => respects_commit hinv₂ hheld hstep o)
      fun o w₃ _ hrely hinv₃ => ?_)
    -- After the commit the history has the draft of this request, and perhaps more.
    have hgrows : w₂.history ++ [⟨i, w₂.draft i⟩] <+: w₃.history := hrely.grows
    have hgrown : w₂.history <+: w₃.history := (List.prefix_append _ _).trans hgrows
    have hstarted : w₃.started i = w₂.started i := hrely.started
    refine observes_respond requests i hinv₃ ⟨hreceipt, ?_⟩
    rw [hstarted]
    cases changed with
    | false =>
      obtain ⟨k, hk, hlength, hsame⟩ := Sometime.of_isPrefix hchanged hgrown (Nat.le_refl _)
      exact ⟨k, hk, hlength.trans hgrown.length_le, hsame⟩
    | true =>
      have hlength : w₂.history.length < w₃.history.length := by
        refine Nat.lt_of_lt_of_le ?_ hgrows.length_le
        rw [List.length_append, List.length_singleton]
        exact Nat.lt_succ_self _
      refine ⟨w₂.history.length, ⟨i, w₂.draft i⟩, (hinv₂.started_le i).trans (hinv₂.since_le i),
        hlength, ?_, rfl, ?_⟩
      · obtain ⟨more, hmore⟩ := hgrows
        rw [← hmore, List.getElem?_append_left (by simp), List.getElem?_concat_length]
      · rw [storeAt_of_isPrefix hgrown (Nat.le_refl _)]
        exact hchanged

end

/-- **The transactions keep the protocol.** -/
theorem holds (requests : Caller → CommitRequest) :
    (protocol requests).Holds surroundings (fun _ _ _ _ => True)
      (fun i (_ : Unit) => finalizeCommit (requests i)) where
  leave := fun _ _ hinv => (own_leave hinv).respects hinv
  drift := fun d => nomatch d
  start := fun i _ _ hinv => observes_finalizeCommit requests i hinv

end Palimpsest.Hub.Tags
