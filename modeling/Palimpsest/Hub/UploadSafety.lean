import Palimpsest.Hub.UploadChanges

/-!
# The requests of uploads keep to their locks

Every request observes the protocol (`Palimpsest.Hub.Upload.observes_program`), as long as a row
that is read again in a transaction is read as it is and not as it was (`Fresh`). The argument
follows the requests: what a request knows of its session (`Read`, `Session`, `Staged`) lasts
while the others go on, and every call is made where it is harmless.

A request that has found its session active and not expired knows that nobody has set it to
failed: an expired session stays so under its lock. That is what lets it write to the staging
file and commit what it wrote.
-/

namespace Palimpsest.Hub.Upload

open Calls Calls.Program Calls.Protocol

/-- A row that is read again in a transaction is read as it is. -/
def Fresh (_ : Caller) (o : Outcome) (c : Call) (w : World) : Prop :=
  ∀ id seen, c = .refresh id seen → o = .snapshot → w.row id = some seen

/-- The request observes the protocol. -/
abbrev Observes {α : Type} (h : ContentHash) (i : Caller) (p : Op α) (Q : α → World → Prop)
    (E : World → Prop) (w : World) : Prop :=
  (protocol h).Observes (surroundings h) Fresh i p Q E w

variable {h : ContentHash} {w w' : World} {i : Caller} {id : UploadId} {E : World → Prop}

/-! ### Calls -/

/-- Whether a call can stop in the middle. -/
def canStop : Call → Bool
  | .appendFile _ _ | .publish _ _ _ => true
  | _ => false

theorem outcome_cases (o : Outcome) {c : Call} (hc : canStop c = false) :
    outcome h i o c w = w ∨ outcome h i o c w = effect h i w c := by
  cases o with
  | done => exact .inr rfl
  | raised isDone =>
    cases isDone with
    | false => exact .inl rfl
    | true => exact .inr rfl
  | refused =>
    rw [outcome]
    split_ifs
    · exact .inl rfl
    · exact .inr rfl
  | partly n =>
    cases c with
    | appendFile id chunk => cases hc
    | publish id digest size => cases hc
    | _ => exact .inl rfl
  | snapshot => exact .inr rfl
  | legacy sessions => exact .inr rfl
  | receipt result => exact .inr rfl

/-- A call that the request may make, however it goes. -/
theorem observes_outcome {c : Call} {Q : Answer c → World → Prop} (hinv : Inv h w)
    (hrespects : ∀ o, ready c w → (protocol h).Respects i w (outcome h i o c w))
    (hE : ∀ w₁ w', w₁ = w ∨ (∃ o, w₁ = outcome h i o c w) → Rely i w₁ w' → Inv h w' → E w')
    (hQ : ∀ o a w', Fresh i o c w → o.raises = false → reply h o w c = some a → ready c w →
      Rely i (outcome h i o c w) w' → Inv h w' → Q a w') :
    Observes h i (call c) Q E w := by
  refine observes_ask (fun o hready _ => ?_) (fun o w' hready _ hraised hrely hinv' => ?_)
    fun o a w' hready hfresh hsome hrely hinv' => ?_
  · show (protocol h).Respects i w (answer h i o c w).2
    rw [answer]
    split
    · exact respects_refl hinv
    · exact hrespects o hready
  · change Rely i (answer h i o c w).2 w' at hrely
    rw [answer] at hrely
    split at hrely
    · exact hE w w' (.inl rfl) hrely hinv'
    · exact hE _ w' (.inr ⟨o, rfl⟩) hrely hinv'
  · change (answer h i o c w).1 = some a at hsome
    change Rely i (answer h i o c w).2 w' at hrely
    rw [answer] at hsome hrely
    cases hreply : reply h o w c with
    | none =>
      rw [hreply] at hsome
      cases hsome
    | some b =>
      rw [hreply] at hsome hrely
      dsimp only at hsome hrely
      cases hraises : o.raises with
      | true =>
        rw [hraises, if_pos rfl] at hsome
        cases hsome
      | false =>
        rw [hraises, if_neg Bool.false_ne_true] at hsome
        obtain rfl := Option.some.inj hsome
        exact hQ o b w' hfresh hraises hreply hready hrely hinv'

/-- A call that is neither refused nor raises has its effect. -/
theorem outcome_done {o : Outcome} {c : Call} (hraises : o.raises = false)
    (hc : o ≠ .refused ∨ canRefuse c = false) : outcome h i o c w = effect h i w c := by
  cases o with
  | raised isDone => cases hraises
  | partly n => cases hraises
  | refused =>
    rcases hc with hc | hc
    · exact absurd rfl hc
    · rw [outcome, hc, if_neg Bool.false_ne_true]
  | _ => rfl

/-- A call that has its effect or none. -/
theorem observes_call {c : Call} {Q : Answer c → World → Prop} (hc : canStop c = false)
    (hinv : Inv h w)
    (hrespects : ready c w → (protocol h).Respects i w (effect h i w c))
    (hE : ∀ w₁ w', w₁ = w ∨ w₁ = effect h i w c → Rely i w₁ w' → Inv h w' → E w')
    (hQ : ∀ o a w', Fresh i o c w → o.raises = false → reply h o w c = some a → ready c w →
      Rely i (outcome h i o c w) w' → Inv h w' → Q a w') :
    Observes h i (call c) Q E w := by
  refine observes_outcome hinv (fun o hready => ?_) (fun w₁ w' hw₁ => hE w₁ w' ?_) hQ
  · rcases outcome_cases o hc with heq | heq
    · rw [heq]
      exact respects_refl hinv
    · rw [heq]
      exact hrespects hready
  · rcases hw₁ with rfl | ⟨o, rfl⟩
    · exact .inl rfl
    · exact outcome_cases o hc

/-- A call that nobody refuses. -/
theorem observes_done {c : Call} {Q : Answer c → World → Prop} (hc : canRefuse c = false)
    (hinv : Inv h w) (hrespects : ready c w → (protocol h).Respects i w (effect h i w c))
    (hE : ∀ w₁ w', w₁ = w ∨ w₁ = effect h i w c → Rely i w₁ w' → Inv h w' → E w')
    (hQ : ∀ o a w', Fresh i o c w → reply h o w c = some a → ready c w →
      Rely i (effect h i w c) w' → Inv h w' → Q a w') :
    Observes h i (call c) Q E w := by
  refine observes_call ?_ hinv hrespects hE fun o a w' hfresh hraises hreply hready hrely =>
    hQ o a w' hfresh hreply hready ?_
  · cases c with
    | appendFile id chunk => cases hc
    | publish id digest size => cases hc
    | _ => rfl
  · rwa [outcome_done hraises (.inr hc)] at hrely

/-- A call that only reads. -/
theorem observes_query {c : Call} {Q : Answer c → World → Prop} (hc : effect h i w c = w)
    (hwhole : canStop c = false) (hinv : Inv h w)
    (hE : ∀ w', Rely i w w' → Inv h w' → E w')
    (hQ : ∀ o a w', Fresh i o c w → reply h o w c = some a → Rely i w w' → Inv h w' → Q a w') :
    Observes h i (call c) Q E w := by
  refine observes_call hwhole hinv (fun _ => ?_) (fun w₁ w' hw₁ => ?_)
    fun o a w' hfresh _ hreply _ hrely => hQ o a w' hfresh hreply ?_
  · rw [hc]
    exact respects_refl hinv
  · rw [hc, or_self] at hw₁
    exact hw₁ ▸ hE w'
  · rcases outcome_cases (h := h) (i := i) (w := w) o hwhole with heq | heq
    · rw [heq] at hrely
      exact hrely
    · rw [heq, hc] at hrely
      exact hrely

/-! ### What a request knows of its session -/

/-- The row is the one that was read, or the session has expired and is set to failed. -/
def Read (id : UploadId) (row : PackageUpload) (w : World) : Prop :=
  w.row id = some row ∨ w.row id = some (failed row) ∧ row.expiresAt ≤ w.now

/-- The session belongs to the holder of its lock, and was active and not expired under it. -/
structure Session (i : Caller) (id : UploadId) (row : PackageUpload) (w : World) : Prop where
  lock : w.locks (.upload id) = some i
  creating : w.creating id = none
  unmarked : w.Unmarked id
  current : w.row id = some row
  present : 0 < row.receivedBytes → (w.file id).isSome

/-- What is in the staging file after what was received. -/
def Staged (id : UploadId) (piece : Bytes) (w : World) : Prop :=
  w.file id = some (w.received id ++ piece)

variable {row : PackageUpload}

theorem Owns.rely (hown : Owns i id w) (hrely : Rely i w w') : Owns i id w' := by
  rcases hown with ⟨hlock, hnone⟩ | hmine
  · exact .inl ⟨hrely.locks _ hlock, (hrely.session id hlock hnone).creating⟩
  · exact .inr ((hrely.creating id).mpr hmine)

theorem Owns.kept (hown : Owns i id w) (hrely : Rely i w w') :
    w'.file id = w.file id ∧ w'.committed id = w.committed id ∧ RowKept id w w' := by
  rcases hown with ⟨hlock, hnone⟩ | hmine
  · have hkept := hrely.session id hlock hnone
    exact ⟨hkept.file, hkept.committed, hkept.row⟩
  · obtain ⟨hrow, hfile, hcommitted⟩ := hrely.created id hmine
    exact ⟨hfile, hcommitted, .inl hrow⟩

theorem Read.rely (hread : Read id row w) (hown : Owns i id w) (hrely : Rely i w w') :
    Read id row w' := by
  rcases (hown.kept hrely).2.2 with hsame | ⟨old, hold, hfailed, hexpired⟩
  · rcases hread with hrow | ⟨hrow, hle⟩
    · exact .inl (hsame.trans hrow)
    · exact .inr ⟨hsame.trans hrow, Nat.le_trans hle hrely.evolves.now⟩
  · rcases hread with hrow | ⟨hrow, hle⟩
    · obtain rfl := Option.some.inj (hold.symm.trans hrow)
      exact .inr ⟨hfailed, hexpired⟩
    · obtain rfl := Option.some.inj (hold.symm.trans hrow)
      exact .inr ⟨hfailed, Nat.le_trans hle hrely.evolves.now⟩

theorem Session.owns (hs : Session i id row w) : Owns i id w := .inl ⟨hs.lock, hs.creating⟩

theorem Session.rely (hs : Session i id row w) (hrely : Rely i w w') : Session i id row w' := by
  have hkept := hrely.session id hs.lock hs.creating
  obtain ⟨hunmarked, hrow⟩ := hkept.unmarked hs.unmarked
  exact ⟨hrely.locks _ hs.lock, hkept.creating, hunmarked, hrow.trans hs.current,
    hkept.file.symm ▸ hs.present⟩

theorem Staged.rely {piece : Bytes} (hstaged : Staged id piece w) (hown : Owns i id w)
    (hrely : Rely i w w') : Staged id piece w' := by
  obtain ⟨hfile, hcommitted, -⟩ := hown.kept hrely
  rw [Staged, hfile, World.received, hcommitted]
  exact hstaged

/-- A row that has not expired is as it was read, and nobody has set it to failed. -/
theorem Read.session (hread : Read id row w) (hinv : Inv h w)
    (hlock : w.locks (.upload id) = some i) (hnone : w.creating id = none)
    (hactive : row.status.isActive) (hlt : w.now < row.expiresAt) : Session i id row w := by
  have hrow : w.row id = some row := by
    rcases hread with hrow | ⟨-, hle⟩
    · exact hrow
    · exact absurd hlt (Nat.not_lt.mpr hle)
  have hunmarked : w.Unmarked id := by
    by_contra hmarked
    exact absurd hlt (Nat.not_lt.mpr (hinv.expired hrow hmarked).1)
  exact ⟨hlock, hnone, hunmarked, hrow, (hinv.rows id row hrow).present hactive hlt⟩

/-! ### Parts of the requests -/

theorem observes_external {Q : Unit → World → Prop} (hinv : Inv h w)
    (hE : ∀ w', Rely i w w' → Inv h w' → E w') (hQ : ∀ w', Rely i w w' → Inv h w' → Q () w') :
    Observes h i (call .external) Q E w :=
  observes_query rfl rfl hinv hE fun _ _ w' _ _ => hQ w'

/-- A session that a client was told is not being started. -/
theorem observes_known {Q : Unit → World → Prop} (hinv : Inv h w)
    (hQ : ∀ w', Rely i w w' → Inv h w' → w'.announced id → Q () w') :
    Observes h i (call (.known id)) Q (fun _ => True) w := by
  refine observes_query rfl rfl hinv (fun _ _ _ => trivial) fun o a w' _ hreply hrely hinv' => ?_
  change (if w.announced id then some () else none) = some a at hreply
  split_ifs at hreply with hannounced
  exact hQ w' hrely hinv' (hrely.evolves.announced id hannounced)

theorem Inv.lt_issued (hinv : Inv h w) (hannounced : w.announced id) : id < w.issued := by
  by_contra hle
  rw [(hinv.issued id (Nat.not_lt.mp hle)).2.2.2] at hannounced
  cases hannounced

theorem observes_acquire {lock : Lock} {Q : Unit → World → Prop} (hinv : Inv h w)
    (hissued : ∀ id, lock = .upload id → id < w.issued)
    (hE : ∀ w', Rely i w w' → Inv h w' → E w')
    (hacquired : ∀ w', Rely i { w with locks := Function.update w.locks lock (some i) } w' →
      Inv h w' → E w')
    (hQ : ∀ w', w.locks lock = none →
      Rely i { w with locks := Function.update w.locks lock (some i) } w' → Inv h w' →
        w'.locks lock = some i → Q () w') :
    Observes h i (call (.acquire lock)) Q E w := by
  have hfree : ready (.acquire lock) w → w.locks lock = none := Option.isNone_iff_eq_none.mp
  refine observes_done rfl hinv (fun hready => respects_acquire hinv (hfree hready) hissued)
    (fun w₁ w' hw₁ hrely hinv' => ?_) fun o a w' _ _ hready hrely hinv' => ?_
  · rcases hw₁ with rfl | rfl
    · exact hE w' hrely hinv'
    · exact hacquired w' hrely hinv'
  · exact hQ w' (hfree hready) hrely hinv' (hrely.locks lock (Function.update_self _ _ _))

/-- A client that was told a session takes its lock. -/
theorem observes_acquire_upload {Q : Unit → World → Prop} (hinv : Inv h w)
    (hannounced : w.announced id)
    (hQ : ∀ w', Inv h w' → w'.locks (.upload id) = some i → w'.creating id = none → Q () w') :
    Observes h i (call (.acquire (.upload id))) Q (fun _ => True) w := by
  refine observes_acquire hinv (fun j hj => ?_) (fun _ _ _ => trivial) (fun _ _ _ => trivial)
    fun w' _ hrely hinv' hlock => hQ w' hinv' hlock ?_
  · obtain rfl := Lock.upload.inj hj
    exact hinv.lt_issued hannounced
  · exact hinv'.announced id (hrely.evolves.announced id hannounced)

/-- The row of a session is read by its owner. -/
theorem observes_ownedUpload {owner : Owner} {Q : PackageUpload → World → Prop} (hinv : Inv h w)
    (hown : Owns i id w) (hE : ∀ w', Rely i w w' → Inv h w' → E w')
    (hQ : ∀ row w', w.row id = some row → Rely i w w' → Inv h w' → Read id row w' → Q row w') :
    Observes h i (ownedUpload id owner) Q E w := by
  refine observes_bind (observes_query rfl rfl hinv hE fun o a w' _ hreply hrely hinv' => ?_)
  obtain rfl : w.row id = a := Option.some.inj hreply
  refine observes_bind (observes_take (hE w' hrely hinv') fun row hrow => ?_)
  exact observes_bind (observes_require (hE w' hrely hinv') fun _ =>
    observes_pure (hQ row w' hrow hrely hinv' (Read.rely (.inl hrow) hown hrely)))

/-- A session that is found active and not expired under its lock. -/
theorem observes_resumable {row' : PackageUpload} {Q : Unit → World → Prop} (hinv : Inv h w)
    (hlock : w.locks (.upload id) = some i) (hnone : w.creating id = none)
    (hread : Read id row w) (hexpires : row'.expiresAt = row.expiresAt)
    (hactive : row'.status = .uploading → row.status.isActive)
    (hE : ∀ w', Rely i w w' → Inv h w' → E w')
    (hQ : ∀ w', Rely i w w' → Inv h w' → row'.status = .uploading → Session i id row w' → Q () w') :
    Observes h i (resumable row') Q E w := by
  refine observes_bind (observes_query rfl rfl hinv hE fun o a w' _ hreply hrely hinv' => ?_)
  obtain rfl : w.now = a := Option.some.inj hreply
  refine observes_require (hE w' hrely hinv') fun hresumable => ?_
  simp only [Bool.and_eq_true, decide_eq_true_eq, hexpires] at hresumable
  exact hQ w' hrely hinv' hresumable.1
    ((hread.session hinv hlock hnone (hactive hresumable.1) hresumable.2).rely hrely)

/-- A session that has ended stays so. -/
def Ended (id : UploadId) (w : World) : Prop :=
  ∃ row, w.row id = some row ∧ row.status.isActive = false

theorem Ended.rely (hended : Ended id w) (hrely : Rely i w w') : Ended id w' := by
  obtain ⟨row, hrow, hactive⟩ := hended
  obtain ⟨row', hrow', hevolves, -⟩ := hrely.evolves.row id row hrow
  exact ⟨row', hrow', (hevolves.ended hactive).1⟩

/-- The staging file of a session that has ended is removed. -/
theorem observes_unlink_ended {Q : Unit → World → Prop} (hinv : Inv h w) (hown : Owns i id w)
    (hended : Ended id w) (hE : ∀ w', E w') (hQ : ∀ w', Inv h w' → Q () w') :
    Observes h i (call (.unlink id)) Q E w := by
  obtain ⟨row, hrow, hended⟩ := hended
  refine observes_done rfl hinv (fun _ => respects_unlink hinv hown fun row' hrow' hactive => ?_)
    (fun _ w' _ _ _ => hE w') fun _ _ w' _ _ _ _ hinv' => hQ w' hinv'
  obtain rfl := Option.some.inj (hrow.symm.trans hrow')
  rw [hended] at hactive
  cases hactive

/-- A session that was not complete ends. -/
theorem observes_end {status : Status} {Q : Unit → World → Prop} (hinv : Inv h w)
    (hown : Owns i id w) (hread : Read id row w) (hne : row.status ≠ .complete)
    (hstatus : status.isActive = false) (hnot : status ≠ .complete) (hE : ∀ w', E w')
    (hQ : ∀ w', Inv h w' → Owns i id w' → Ended id w' → Q () w') :
    Observes h i (call (.update id ⟨status, none⟩)) Q E w := by
  obtain ⟨now, hnow, hne⟩ : ∃ now, w.row id = some now ∧ now.status ≠ .complete := by
    rcases hread with hrow | ⟨hrow, -⟩
    · exact ⟨row, hrow, hne⟩
    · exact ⟨failed row, hrow, nofun⟩
  refine observes_done rfl hinv (fun _ => respects_update hinv hown hnow hne hnot
    (fun hactive => ?_) (.inl rfl)) (fun _ w' _ _ _ => hE w') fun _ _ w' _ _ _ hrely hinv' => ?_
  · change status.isActive = true at hactive
    rw [hstatus] at hactive
    cases hactive
  · have hown' : Owns i id (w.setRow id (Change.apply ⟨status, none⟩)) := hown
    have hended : Ended id (w.setRow id (Change.apply ⟨status, none⟩)) :=
      ⟨Change.apply ⟨status, none⟩ now, (setRow_row _).trans (congrArg _ hnow), hstatus⟩
    exact hQ w' hinv' (hown'.rely hrely) (hended.rely hrely)

/-- A session whose contents are refused fails. -/
theorem observes_failUpload {Q : Unit → World → Prop} (hinv : Inv h w) (hown : Owns i id w)
    (hE : ∀ w', E w') (hQ : ∀ w', Inv h w' → Q () w') :
    Observes h i (failUpload id) Q E w := by
  refine observes_bind (observes_query rfl rfl hinv (fun w' _ _ => hE w')
    fun o a w' _ hreply hrely hinv' => ?_)
  obtain rfl : w.row id = a := Option.some.inj hreply
  cases hrow : w.row id with
  | none => exact observes_pure (hQ w' hinv')
  | some row =>
    dsimp only
    split_ifs with hcomplete
    · exact observes_pure (hQ w' hinv')
    · exact observes_bind (observes_end hinv' (hown.rely hrely)
        (Read.rely (.inl hrow) hown hrely) hcomplete rfl nofun hE fun w'' hinv'' hown'' hended =>
          observes_unlink_ended hinv'' hown'' hended hE hQ)

/-! ### Appends -/

theorem setFile_file (content : Option Bytes) : (w.setFile id content).file id = content :=
  Function.update_self _ _ _

theorem Session.setFile (hs : Session i id row w) (content : Bytes) :
    Session i id row (w.setFile id (some content)) :=
  ⟨hs.lock, hs.creating, hs.unmarked, hs.current, fun _ => by
    rw [setFile_file]
    rfl⟩

/-- The holder of the lock writes after what was received. -/
theorem Session.respects_setFile (hs : Session i id row w) (hinv : Inv h w) {content : Bytes}
    (hreceived : w.received id <+: content) :
    (protocol h).Respects i w (w.setFile id (some content)) := by
  refine Upload.respects_setFile hinv hs.owns fun _ _ => ⟨fun new hnew => ?_, fun _ _ _ => rfl⟩
  exact Option.some.inj hnew ▸ hreceived

/-- The staging file is cut back to what was received, if it is long enough. -/
theorem effect_reconcile (hok : RowOk h w id row) :
    effect h i w (.reconcile id row.receivedBytes) = w ∧
        (∀ o, reply h o w (.reconcile id row.receivedBytes) ≠ some true) ∨
      effect h i w (.reconcile id row.receivedBytes) = w.setFile id (some (w.received id)) := by
  cases hfile : w.file id with
  | none =>
    refine .inl ⟨by simp only [effect, hfile], fun o ho => ?_⟩
    simp only [reply, hfile, Option.some.injEq, Bool.false_eq_true] at ho
  | some content =>
    by_cases hle : row.receivedBytes ≤ content.length
    · have htake : content.take row.receivedBytes = w.received id := by
        rw [← hok.length]
        exact (List.prefix_iff_eq_take.mp (hok.file content hfile)).symm
      exact .inr (by simp only [effect, hfile, if_pos hle, htake])
    · refine .inl ⟨by simp only [effect, hfile, if_neg hle], fun o ho => ?_⟩
      simp only [reply, hfile, Option.some.injEq, Bool.and_eq_true, decide_eq_true_eq] at ho
      exact hle ho.1

theorem observes_reconcile {size : ℕ} {Q : Bool → World → Prop} (hinv : Inv h w)
    (hs : Session i id row w) (hsize : size = row.receivedBytes)
    (hE : ∀ w', Inv h w' → Session i id row w' → E w')
    (hQ : ∀ b w', Inv h w' → Session i id row w' → (b = true → Staged id [] w') → Q b w') :
    Observes h i (call (.reconcile id size)) Q E w := by
  subst hsize
  have heffect := effect_reconcile (i := i) (hinv.rows id row hs.current)
  -- The file is cut to the bytes of the row, or left alone; the session is the same either way.
  have hkept : Session i id row (effect h i w (.reconcile id row.receivedBytes)) := by
    rcases heffect with ⟨heq, -⟩ | heq
    · rw [heq]
      exact hs
    · rw [heq]
      exact hs.setFile _
  refine observes_call rfl hinv (fun _ => ?_) (fun w₁ w' hw₁ hrely hinv' => hE w' hinv' ?_)
    fun o b w' _ hraises hreply _ hrely hinv' => hQ b w' hinv' ?_ fun hb => ?_
  · rcases heffect with ⟨heq, -⟩ | heq
    · rw [heq]
      exact respects_refl hinv
    · rw [heq]
      exact hs.respects_setFile hinv List.prefix_rfl
  · rcases hw₁ with rfl | rfl
    · exact hs.rely hrely
    · exact hkept.rely hrely
  · rcases outcome_cases (h := h) (i := i) (w := w) o
      (c := .reconcile id row.receivedBytes) rfl with heq | heq
    · rw [heq] at hrely
      exact hs.rely hrely
    · rw [heq] at hrely
      exact hkept.rely hrely
  · subst hb
    have hnot : o ≠ .refused := by
      rintro rfl
      cases hfile : w.file id with
      | none => simp only [reply, hfile, Option.some.injEq, Bool.false_eq_true] at hreply
      | some content => simp [reply, hfile] at hreply
    rw [outcome_done hraises (.inl hnot)] at hrely
    rcases heffect with ⟨-, hnever⟩ | heq
    · exact absurd hreply (hnever o)
    · rw [heq] at hrely
      have hstaged : Staged id [] (w.setFile id (some (w.received id))) := by
        rw [Staged, setFile_file, List.append_nil]
        rfl
      exact hstaged.rely (hs.setFile _).owns hrely

theorem effect_appendFile {piece : Bytes} (hstaged : Staged id piece w) (chunk : Bytes) :
    effect h i w (.appendFile id chunk) =
      w.setFile id (some (w.received id ++ (piece ++ chunk))) := by
  rw [Staged] at hstaged
  simp only [effect, hstaged, List.append_assoc]

/-- A write appends the chunk, the beginning of it, or nothing. -/
theorem outcome_appendFile {piece : Bytes} (hstaged : Staged id piece w) (o : Outcome)
    (chunk : Bytes) :
    outcome h i o (.appendFile id chunk) w = w ∨
      ∃ written, outcome h i o (.appendFile id chunk) w =
        w.setFile id (some (w.received id ++ written)) := by
  have heffect := effect_appendFile (h := h) (i := i) hstaged
  cases o with
  | raised isDone =>
    cases isDone with
    | false => exact .inl rfl
    | true => exact .inr ⟨piece ++ chunk, heffect chunk⟩
  | refused => exact .inl rfl
  | partly n => exact .inr ⟨piece ++ chunk.take n, heffect (chunk.take n)⟩
  | _ => exact .inr ⟨piece ++ chunk, heffect chunk⟩

/-- A chunk is written after the others. -/
theorem observes_appendFile {piece chunk : Bytes} {Q : Option ℕ → World → Prop} (hinv : Inv h w)
    (hs : Session i id row w) (hstaged : Staged id piece w)
    (hE : ∀ w', Inv h w' → Session i id row w' → E w')
    (hQ : ∀ a w', Inv h w' → Session i id row w' →
      (∀ total, a = some total → total = row.receivedBytes + (piece ++ chunk).length ∧
        Staged id (piece ++ chunk) w') → Q a w') :
    Observes h i (call (.appendFile id chunk)) Q E w := by
  have hlength := (hinv.rows id row hs.current).length
  have hkept : ∀ o, Session i id row (outcome h i o (.appendFile id chunk) w) := by
    intro o
    rcases outcome_appendFile (h := h) (i := i) hstaged o chunk with heq | ⟨written, heq⟩
    · rw [heq]
      exact hs
    · rw [heq]
      exact hs.setFile _
  refine observes_outcome hinv (fun o _ => ?_) (fun w₁ w' hw₁ hrely hinv' => hE w' hinv' ?_)
    fun o a w' _ hraises hreply _ hrely hinv' => hQ a w' hinv' ((hkept o).rely hrely) ?_
  · rcases outcome_appendFile (h := h) (i := i) hstaged o chunk with heq | ⟨written, heq⟩
    · rw [heq]
      exact respects_refl hinv
    · rw [heq]
      exact hs.respects_setFile hinv (List.prefix_append _ _)
  · rcases hw₁ with rfl | ⟨o, rfl⟩
    · exact hs.rely hrely
    · exact (hkept o).rely hrely
  · rintro total rfl
    have hfile : w.file id = some (w.received id ++ piece) := hstaged
    simp only [reply, hfile, Option.some.injEq] at hreply
    split_ifs at hreply with hrefused
    rw [outcome_done hraises (.inl hrefused), effect_appendFile hstaged] at hrely
    have hnew : Staged id (piece ++ chunk)
        (w.setFile id (some (w.received id ++ (piece ++ chunk)))) := setFile_file _
    refine ⟨?_, hnew.rely (hs.setFile _).owns hrely⟩
    rw [← Option.some.inj hreply, List.append_assoc, List.length_append, hlength]

/-- **The chunks of a body are written one after the other.** -/
theorem observes_appendChunks {maximum : ℕ} {chunks : List Bytes} {piece : Bytes} {total : ℕ}
    {Q : Option ℕ → World → Prop} (hinv : Inv h w) (hs : Session i id row w)
    (hstaged : Staged id piece w) (htotal : total = row.receivedBytes + piece.length)
    (hE : ∀ w', Inv h w' → Session i id row w' → E w')
    (hQ : ∀ a w', Inv h w' → Session i id row w' →
      (∀ total, a = some total → total = row.receivedBytes + (piece ++ chunks.flatten).length ∧
        Staged id (piece ++ chunks.flatten) w') → Q a w') :
    Observes h i (appendChunks id maximum chunks total) Q E w := by
  induction chunks generalizing w piece total with
  | nil =>
    refine observes_pure (hQ (some total) w hinv hs fun total' heq => ?_)
    rw [← Option.some.inj heq, List.flatten_nil, List.append_nil]
    exact ⟨htotal, hstaged⟩
  | cons chunk chunks ih =>
    refine observes_bind (observes_external hinv (fun w' hrely hinv' => hE w' hinv' (hs.rely hrely))
      fun w₁ hrely hinv₁ => ?_)
    have hs₁ := hs.rely hrely
    have hstaged₁ := hstaged.rely hs.owns hrely
    -- An empty chunk is passed over, and one that would be too much ends the loop.
    split_ifs with hempty hmaximum
    · subst hempty
      exact ih hinv₁ hs₁ hstaged₁ htotal hQ
    · exact observes_pure (hQ none w₁ hinv₁ hs₁ nofun)
    · refine observes_bind (observes_appendFile hinv₁ hs₁ hstaged₁ hE
        fun a w₂ hinv₂ hs₂ hmore => ?_)
      cases a with
      | none => exact observes_pure (hQ none w₂ hinv₂ hs₂ nofun)
      | some total' =>
        obtain ⟨htotal', hstaged₂⟩ := hmore total' rfl
        refine ih hinv₂ hs₂ hstaged₂ htotal' fun a w' hinv' hs' ha => hQ a w' hinv' hs' ?_
        rw [List.flatten_cons, ← List.append_assoc]
        exact ha

/-- What was written is committed. -/
theorem observes_commitAppend {chunks : List Bytes} {total : ℕ} {expiresAt : Time}
    {Q : Unit → World → Prop} (hinv : Inv h w) (hs : Session i id row w)
    (hactive : row.status = .uploading) (hstaged : Staged id chunks.flatten w)
    (htotal : total = row.receivedBytes + chunks.flatten.length) (hE : ∀ w', E w')
    (hQ : ∀ w', Inv h w' → Q () w') :
    Observes h i (call (.commitAppend id chunks total expiresAt)) Q E w := by
  refine observes_done rfl hinv (fun _ => ?_) (fun _ w' _ _ _ => hE w')
    fun _ _ w' _ _ _ _ hinv' => hQ w' hinv'
  have hcommit := respects_commitAppend hinv hs.owns hs.current hactive hs.unmarked hs.creating
    hstaged htotal expiresAt
  simp only [effect, hs.current]
  exact hcommit

/-- The part of an append whose store errors fail the session. -/
theorem observes_appendBody {owner : Owner} {maximum : ℕ} {chunks : List Bytes}
    {Q : Option ℕ → World → Prop} (hinv : Inv h w) (hs : Session i id row w)
    (hactive : row.status = .uploading) (hQ : ∀ total w', Inv h w' → Q (some total) w')
    (hnone : ∀ w', Inv h w' → Owns i id w' → Q none w') :
    Observes h i (appendBody owner id row.receivedBytes maximum chunks) Q (fun _ => True) w := by
  refine observes_bind (observes_reconcile hinv hs rfl (fun _ _ _ => trivial)
    fun b w₁ hinv₁ hs₁ hstaged₁ => ?_)
  cases b with
  | false => exact observes_pure (hnone w₁ hinv₁ hs₁.owns)
  | true =>
    refine observes_bind (observes_appendChunks hinv₁ hs₁ (hstaged₁ rfl) rfl
      (fun _ _ _ => trivial) fun a w₂ hinv₂ hs₂ hstaged₂ => ?_)
    cases a with
    | none => exact observes_pure (hnone w₂ hinv₂ hs₂.owns)
    | some total =>
      obtain ⟨htotal, hstaged₂⟩ := hstaged₂ total rfl
      refine observes_bind (observes_query rfl rfl hinv₂ (fun _ _ _ => trivial)
        fun o b w₃ _ _ hrely₃ hinv₃ => ?_)
      have hs₃ := hs₂.rely hrely₃
      cases b with
      | false => exact observes_pure (hnone w₃ hinv₃ hs₃.owns)
      | true =>
        refine observes_bind (observes_external hinv₃ (fun _ _ _ => trivial)
          fun w₄ hrely₄ hinv₄ => ?_)
        have hs₄ := hs₃.rely hrely₄
        refine observes_bind (observes_ownedUpload hinv₄ hs₄.owns (fun _ _ _ => trivial)
          fun _ w₅ _ hrely₅ hinv₅ _ => ?_)
        have hs₅ := hs₄.rely hrely₅
        refine observes_bind (observes_query rfl rfl hinv₅ (fun _ _ _ => trivial)
          fun o now w₆ _ _ hrely₆ hinv₆ => ?_)
        have hstaged₆ : Staged id chunks.flatten w₆ :=
          (((hstaged₂.rely hs₂.owns hrely₃).rely hs₃.owns hrely₄).rely hs₄.owns hrely₅).rely
            hs₅.owns hrely₆
        exact observes_bind (observes_commitAppend hinv₆ (hs₅.rely hrely₆) hactive hstaged₆ htotal
          (fun _ => trivial) fun w' hinv' => observes_pure (hQ total w' hinv'))

/-! ### Requests -/

/-- A request that has found its session and taken the lock. -/
theorem observes_appendUpload (owner : Owner) (offset : ℕ) (chunks : List Bytes) (hinv : Inv h w) :
    Observes h i (appendUpload owner id offset chunks) (fun _ _ => True) (fun _ => True) w := by
  refine observes_bind (observes_known hinv fun w₁ _ hinv₁ hannounced₁ => ?_)
  refine observes_bind (observes_external hinv₁ (fun _ _ _ => trivial) fun w₂ hrely₂ hinv₂ => ?_)
  refine observes_bind (observes_acquire_upload hinv₂ (hrely₂.evolves.announced id hannounced₁)
    fun w₃ hinv₃ hlock₃ hnone₃ => ?_)
  have hown₃ : Owns i id w₃ := .inl ⟨hlock₃, hnone₃⟩
  refine observes_bind (observes_ownedUpload hinv₃ hown₃ (fun _ _ _ => trivial)
    fun row w₄ _ hrely₄ hinv₄ hread₄ => ?_)
  refine observes_bind (observes_resumable hinv₄ (hrely₄.locks _ hlock₃)
    (hrely₄.session id hlock₃ hnone₃).creating hread₄ rfl (fun hactive => by rw [hactive]; rfl)
    (fun _ _ _ => trivial) fun w₅ _ hinv₅ hactive hs₅ => ?_)
  refine observes_bind (observes_require trivial fun _ => ?_)
  refine observes_bind (observes_appendBody hinv₅ hs₅ hactive
    (fun total w' _ => observes_pure trivial) fun w₆ hinv₆ hown₆ => ?_)
  exact observes_bind (observes_failUpload hinv₆ hown₆ (fun _ => trivial)
    fun _ _ => observes_raise trivial)

theorem observes_abortUpload (owner : Owner) (hinv : Inv h w) :
    Observes h i (abortUpload owner id) (fun _ _ => True) (fun _ => True) w := by
  refine observes_bind (observes_known hinv fun w₁ _ hinv₁ hannounced₁ => ?_)
  refine observes_bind (observes_external hinv₁ (fun _ _ _ => trivial) fun w₂ hrely₂ hinv₂ => ?_)
  refine observes_bind (observes_acquire_upload hinv₂ (hrely₂.evolves.announced id hannounced₁)
    fun w₃ hinv₃ hlock₃ hnone₃ => ?_)
  have hown₃ : Owns i id w₃ := .inl ⟨hlock₃, hnone₃⟩
  refine observes_bind (observes_external hinv₃ (fun _ _ _ => trivial) fun w₄ hrely₄ hinv₄ => ?_)
  refine observes_bind (observes_ownedUpload hinv₄ (hown₃.rely hrely₄) (fun _ _ _ => trivial)
    fun row w₅ hrow hrely₅ hinv₅ hread₅ => ?_)
  have hown₅ := (hown₃.rely hrely₄).rely hrely₅
  split_ifs with hcomplete
  · have hended : Ended id w₄ := ⟨row, hrow, by rw [hcomplete]; rfl⟩
    exact observes_unlink_ended hinv₅ hown₅ (hended.rely hrely₅) (fun _ => trivial)
      fun _ _ => trivial
  · exact observes_bind (observes_end hinv₅ hown₅ hread₅ hcomplete rfl nofun (fun _ => trivial)
      fun w₆ hinv₆ hown₆ hended => observes_unlink_ended hinv₆ hown₆ hended (fun _ => trivial)
        fun _ _ => trivial)

theorem observes_uploadStatus (owner : Owner) (hinv : Inv h w) :
    Observes h i (uploadStatus owner id) (fun _ _ => True) (fun _ => True) w := by
  refine observes_bind (observes_known hinv fun w₁ _ hinv₁ _ => ?_)
  refine observes_bind (observes_external hinv₁ (fun _ _ _ => trivial) fun w₂ _ hinv₂ => ?_)
  refine observes_bind (observes_bind (observes_query rfl rfl hinv₂ (fun _ _ _ => trivial)
    fun _ _ w₃ _ _ _ hinv₃ => ?_))
  refine observes_bind (observes_take trivial fun _ _ => ?_)
  refine observes_bind (observes_require trivial fun _ => observes_pure ?_)
  exact observes_bind (observes_query rfl rfl hinv₃ (fun _ _ _ => trivial)
    fun _ _ _ _ _ _ _ => observes_pure trivial)

/-! ### The publication -/

/-- The status of an active session is changed to another one that goes on. -/
theorem observes_reactivate {change : Change} {Q : Unit → World → Prop} (hinv : Inv h w)
    (hs : Session i id row w) (hactive : row.status.isActive) (hend : change.status ≠ .complete)
    (hE : ∀ w', Inv h w' → E w')
    (hQ : ∀ w', Inv h w' → Session i id (change.apply row) w' → Q () w') :
    Observes h i (call (.update id change)) Q E w := by
  have hne : row.status ≠ .complete := by
    intro hcomplete
    rw [hcomplete] at hactive
    cases hactive
  have hnew : Session i id (change.apply row) (w.setRow id change.apply) :=
    ⟨hs.lock, hs.creating, hs.unmarked, by rw [setRow_row, hs.current]; rfl, hs.present⟩
  exact observes_done rfl hinv (fun _ => respects_update hinv hs.owns hs.current hne hend
    (fun _ => ⟨hactive, hs.present⟩) (.inr hs.unmarked)) (fun _ w' _ _ hinv' => hE w' hinv')
    fun _ _ w' _ _ _ hrely hinv' => hQ w' hinv' (hnew.rely hrely)

/-- What was received is what was declared. -/
def Declared (h : ContentHash) (id : UploadId) (row : PackageUpload) (w : World) : Prop :=
  h.digest (w.received id) = row.request.archiveDigest ∧
    (w.received id).length = row.request.archiveSizeBytes

theorem Declared.rely (hdeclared : Declared h id row w) (hown : Owns i id w)
    (hrely : Rely i w w') : Declared h id row w' := by
  rw [Declared, World.received, (hown.kept hrely).2.1]
  exact hdeclared

/-- What a version refers to and what was received are the same if their digests are. -/
theorem ArchiveOk.blob_eq {r : Reference} (hinv : Inv h w) (hr : ArchiveOk w r)
    (hdigest : r.archiveDigest = h.digest (w.received id)) :
    w.blob r.archiveDigest = some (w.received id) := by
  obtain ⟨row, hrow, hcomplete, hreference⟩ := hr.row
  have hdeclared := ((hinv.rows _ row hrow).published hcomplete).1.2.1
  rw [hr.blob, h.injective ((hdeclared.trans (congrArg Reference.archiveDigest hreference)).trans
    hdigest)]

/-- A publication leaves the digest with what was received, or as it was; and only so if it is
said to have been made. -/
theorem outcome_publish {digest : String} (size : ℕ) (hfile : w.file id = some (w.received id))
    (hdigest : h.digest (w.received id) = digest) (o : Outcome) :
    ∃ content created, outcome h i o (.publish id digest size) w =
        { w with blob := Function.update w.blob digest content, created := created } ∧
      (content = w.blob digest ∨ content = some (w.received id)) ∧
      (o.raises = false → reply h o w (.publish id digest size) = some true →
        content = some (w.received id)) := by
  have heffect : ∃ content created, effect h i w (.publish id digest size) =
        { w with blob := Function.update w.blob digest content, created := created } ∧
      (content = w.blob digest ∨ content = some (w.received id)) ∧
      ∀ o, reply h o w (.publish id digest size) = some true → content = some (w.received id) := by
    -- The archive is there already, the staged file becomes it, or nothing is done.
    by_cases hblob : matchesInspection h digest size (w.blob digest)
    · refine ⟨w.blob digest, w.created, ?_, .inl rfl, fun _ _ => ?_⟩
      · simp only [effect, if_pos hblob, Function.update_eq_self]
      · cases hcontent : w.blob digest with
        | none =>
          rw [hcontent] at hblob
          cases hblob
        | some content =>
          rw [hcontent] at hblob
          simp only [matchesInspection, Bool.and_eq_true, decide_eq_true_eq] at hblob
          rw [h.injective (hblob.1.trans hdigest.symm)]
    · by_cases hstaging : matchesInspection h digest size (w.file id)
      · refine ⟨w.file id, (effect h i w (.publish id digest size)).created, ?_, .inr hfile,
          fun _ _ => hfile⟩
        simp only [effect, if_neg hblob, if_pos hstaging]
      · refine ⟨w.blob digest, w.created, ?_, .inl rfl, fun o ho => ?_⟩
        · simp only [effect, if_neg hblob, if_neg hstaging, Function.update_eq_self]
        · simp [reply, hblob, hstaging] at ho
  obtain ⟨content, created, heq, hcontent, hmade⟩ := heffect
  have hsame : w = { w with blob := Function.update w.blob digest (w.blob digest) } := by
    rw [Function.update_eq_self]
  -- The call may raise before it or after it; only one that returns says what was done.
  cases o with
  | raised isDone =>
    cases isDone with
    | false => exact ⟨w.blob digest, w.created, hsame, .inl rfl, nofun⟩
    | true => exact ⟨content, created, heq, hcontent, nofun⟩
  | partly n =>
    refine ⟨content, w.created, ?_, hcontent, nofun⟩
    rw [outcome, heq]
  | refused =>
    refine ⟨w.blob digest, w.created, hsame, .inl rfl, fun _ hreply => ?_⟩
    simp [reply] at hreply
  | _ => exact ⟨content, created, heq, hcontent, fun _ => hmade _⟩

/-- The content store has what was received, or it refuses. -/
theorem observes_publish {Q : Bool → World → Prop} (hinv : Inv h w) (hs : Session i id row w)
    (hlock : w.locks (.blob row.request.archiveDigest) = some i) (hstaged : Staged id [] w)
    (hdeclared : Declared h id row w)
    (hE : ∀ w', Inv h w' → Session i id row w' →
      w'.locks (.blob row.request.archiveDigest) = some i → E w')
    (hQ : ∀ b w', Inv h w' → Session i id row w' →
      w'.locks (.blob row.request.archiveDigest) = some i → Declared h id row w' →
      (b = true → w'.blob row.request.archiveDigest = some (w'.received id)) → Q b w') :
    Observes h i (call (.publish id row.request.archiveDigest row.request.archiveSizeBytes)) Q E
      w := by
  set digest := row.request.archiveDigest with hdigest
  set size := row.request.archiveSizeBytes
  have hfile : w.file id = some (w.received id) := by
    rw [hstaged, List.append_nil]
  have houtcome := outcome_publish (i := i) size hfile hdeclared.1
  -- However it goes, only the blob changes, which nobody else may do while the digest is locked.
  have hkept : ∀ o, Session i id row (outcome h i o (.publish id digest size) w) ∧
      (outcome h i o (.publish id digest size) w).locks (.blob digest) = some i ∧
      Declared h id row (outcome h i o (.publish id digest size) w) := by
    intro o
    obtain ⟨content, created, heq, -⟩ := houtcome o
    rw [heq]
    exact ⟨⟨hs.lock, hs.creating, hs.unmarked, hs.current, hs.present⟩, hlock, hdeclared⟩
  refine observes_outcome hinv (fun o _ => ?_) (fun w₁ w' hw₁ hrely hinv' => ?_)
    fun o b w' _ hraises hreply _ hrely hinv' => ?_
  · obtain ⟨content, created, heq, hcontent, -⟩ := houtcome o
    rw [heq]
    refine respects_blob hinv hlock created fun r hr hrd => ?_
    rcases hcontent with rfl | rfl
    · rfl
    · rw [← hrd]
      exact ((hinv.references r hr).blob_eq hinv (hrd.trans hdeclared.1.symm)).symm
  · rcases hw₁ with rfl | ⟨o, rfl⟩
    · exact hE w' hinv' (hs.rely hrely) (hrely.locks _ hlock)
    · exact hE w' hinv' ((hkept o).1.rely hrely) (hrely.locks _ (hkept o).2.1)
  · obtain ⟨hs', hlock', hdeclared'⟩ := hkept o
    refine hQ b w' hinv' (hs'.rely hrely) (hrely.locks _ hlock') (hdeclared'.rely hs'.owns hrely)
      fun hb => ?_
    subst hb
    obtain ⟨content, created, heq, -, hmade⟩ := houtcome o
    rw [hrely.blob digest hlock', World.received, (hs'.owns.kept hrely).2.1, heq]
    exact (Function.update_self _ _ _).trans (hmade hraises hreply)

/-- Whether the commit has to insert a row is known: what was found stays. -/
theorem observes_commitPackage {Q : String × Bool → World → Prop} (hinv : Inv h w)
    (hs : Session i id row w) (hE : ∀ w', Rely i w w' → Inv h w' → E w')
    (hQ : ∀ result isNew w', Rely i w w' → Inv h w' →
      (isNew = false → ∃ r ∈ w'.references, r.key = (row.reference id).key) →
      Q (result, isNew) w') :
    Observes h i (call (.commitPackage id)) Q E w := by
  refine observes_query rfl rfl hinv hE fun o a w' _ hreply hrely hinv' => ?_
  cases o with
  | receipt result =>
    simp only [reply, hs.current, Option.map_some, Option.some.injEq] at hreply
    subst hreply
    refine hQ result _ w' hrely hinv' fun hold => ?_
    have hfound : w.hasKey (row.reference id) := by simpa using hold
    obtain ⟨r, hr, hkey⟩ := hasKey_iff.mp hfound
    exact ⟨r, hrely.evolves.references r hr, hkey⟩
  | _ => cases hreply

/-- A session becomes complete. -/
theorem observes_complete {result : String} {isNew : Bool} {Q : Unit → World → Prop}
    (hinv : Inv h w) (hs : Session i id row w) (hactive : row.status.isActive)
    (hdeclared : Declared h id row w)
    (hblob : w.blob row.request.archiveDigest = some (w.received id))
    (hold : isNew = false → ∃ r ∈ w.references, r.key = (row.reference id).key)
    (hE : ∀ row' w', Inv h w' → Session i id row' w' → (∀ lock, w.locks lock = some i →
      w'.locks lock = some i) → E w')
    (hQ : ∀ w', Inv h w' → Session i id { row with status := .complete, result := some result } w' →
      (∀ lock, w.locks lock = some i → w'.locks lock = some i) → Q () w') :
    Observes h i (call (.complete id result isNew)) Q E w := by
  by_cases hconflict : isNew && row.request.target.isVersion && w.hasKey (row.reference id)
  · -- The root is there already: the commit raises.
    have hnone : ∀ o, reply h o w (.complete id result isNew) = none := by
      intro o
      simp only [reply, hs.current, if_pos hconflict]
    refine observes_ask (fun o _ _ => ?_) (fun o w' _ _ _ hrely hinv' => ?_)
      fun o a w' _ _ hsome _ _ => ?_
    · show (protocol h).Respects i w (answer h i o (.complete id result isNew) w).2
      rw [answer, hnone o]
      exact respects_refl hinv
    · change Rely i (answer h i o (.complete id result isNew) w).2 w' at hrely
      rw [answer, hnone o] at hrely
      exact hE row w' hinv' (hs.rely hrely) hrely.locks
    · change (answer h i o (.complete id result isNew) w).1 = some a at hsome
      rw [answer, hnone o] at hsome
      cases hsome
  -- Else the row is written, with the reference if it is a new one.
  have heffect : effect h i w (.complete id result isNew) =
      { w.setRow id fun row => { row with status := .complete, result := some result } with
        published := Function.update w.published id (w.blob row.request.archiveDigest)
        references := if isNew then w.references ++ [row.reference id] else w.references } := by
    simp only [effect, hs.current]
  have hrespects : (protocol h).Respects i w (effect h i w (.complete id result isNew)) := by
    rw [heffect]
    refine respects_complete hinv hs.owns hs.current hactive hs.unmarked hblob hdeclared.1
      hdeclared.2 hold (fun his hversion hkey => hconflict ?_) result
    rw [his, hversion, hkey]
    rfl
  have hnew : Session i id { row with status := .complete, result := some result }
      (effect h i w (.complete id result isNew)) := by
    rw [heffect]
    exact ⟨hs.lock, hs.creating, hs.unmarked, (setRow_row _).trans (by rw [hs.current]; rfl),
      hs.present⟩
  have hlocks : (effect h i w (.complete id result isNew)).locks = w.locks := by
    rw [heffect]
    rfl
  refine observes_done rfl hinv (fun _ => hrespects) (fun w₁ w' hw₁ hrely hinv' => ?_)
    fun _ _ w' _ _ _ hrely hinv' => hQ w' hinv' (hnew.rely hrely) fun lock hlock =>
      hrely.locks lock (hlocks ▸ hlock)
  rcases hw₁ with rfl | rfl
  · exact hE row w' hinv' (hs.rely hrely) hrely.locks
  · exact hE _ w' hinv' (hnew.rely hrely) fun lock hlock => hrely.locks lock (hlocks ▸ hlock)

/-- A blob that nobody refers to is removed. -/
theorem observes_rollbackCreated {digest : String} {Q : Unit → World → Prop} (hinv : Inv h w)
    (hs : Session i id row w) (hlock : w.locks (.blob digest) = some i)
    (hE : ∀ w', Inv h w' → Session i id row w' → w'.locks (.blob digest) = some i → E w')
    (hQ : ∀ w', Inv h w' → Session i id row w' → w'.locks (.blob digest) = some i → Q () w') :
    Observes h i (call (.rollbackCreated digest)) Q E w := by
  -- The blob goes only if this publication has made it and nothing refers to it.
  have heffect : effect h i w (.rollbackCreated digest) = w ∨
      ¬w.isReferenced digest ∧ effect h i w (.rollbackCreated digest) =
        { w with blob := Function.update w.blob digest none } := by
    rw [effect]
    split_ifs with hcreated
    · simp only [Bool.and_eq_true, Bool.not_eq_true'] at hcreated
      exact .inr ⟨Bool.eq_false_iff.mp hcreated.2, rfl⟩
    · exact .inl rfl
  have hkept : Session i id row (effect h i w (.rollbackCreated digest)) ∧
      (effect h i w (.rollbackCreated digest)).locks (.blob digest) = some i := by
    rcases heffect with heq | ⟨-, heq⟩
    · rw [heq]
      exact ⟨hs, hlock⟩
    · rw [heq]
      exact ⟨⟨hs.lock, hs.creating, hs.unmarked, hs.current, hs.present⟩, hlock⟩
  have hcases : ∀ w₁ w', w₁ = w ∨ w₁ = effect h i w (.rollbackCreated digest) → Rely i w₁ w' →
      Session i id row w' ∧ w'.locks (.blob digest) = some i := by
    rintro w₁ w' (rfl | rfl) hrely
    · exact ⟨hs.rely hrely, hrely.locks _ hlock⟩
    · exact ⟨hkept.1.rely hrely, hrely.locks _ hkept.2⟩
  refine observes_call rfl hinv (fun _ => ?_)
    (fun w₁ w' hw₁ hrely hinv' => hE w' hinv' (hcases w₁ w' hw₁ hrely).1 (hcases w₁ w' hw₁ hrely).2)
    fun o _ w' _ _ _ _ hrely hinv' => ?_
  · rcases heffect with heq | ⟨hunreferenced, heq⟩
    · rw [heq]
      exact respects_refl hinv
    · rw [heq]
      refine respects_blob hinv hlock w.created fun r hr hrd => absurd ?_ hunreferenced
      rw [World.isReferenced, isArchive_iff.mpr ⟨r, hr, hrd⟩, Bool.true_or]
  · obtain ⟨hs', hlock'⟩ := hcases _ w' (outcome_cases o rfl) hrely
    exact hQ w' hinv' hs' hlock'

/-- The session is the request's own, whatever became of its row, and so is a blob. -/
def Publishing (i : Caller) (id : UploadId) (digest : String) (w : World) : Prop :=
  (∃ row, Session i id row w) ∧ w.locks (.blob digest) = some i

theorem observes_publication {owner : Owner} {Q : Option String → World → Prop} (hinv : Inv h w)
    (hs : Session i id row w) (hactive : row.status.isActive)
    (hlock : w.locks (.blob row.request.archiveDigest) = some i) (hstaged : Staged id [] w)
    (hdeclared : Declared h id row w)
    (hE : ∀ w', Inv h w' → Publishing i id row.request.archiveDigest w' → E w')
    (hsome : ∀ result w', Inv h w' →
      Session i id { row with status := .complete, result := some result } w' →
      Q (some result) w')
    (hnone : ∀ w', Inv h w' → Session i id row w' →
      w'.locks (.blob row.request.archiveDigest) = some i → Q none w') :
    Observes h i (publication owner id row.request.archiveDigest row.request.archiveSizeBytes) Q E
      w := by
  have hE' : ∀ {w₁ : World}, Session i id row w₁ →
      w₁.locks (.blob row.request.archiveDigest) = some i →
      ∀ w', Rely i w₁ w' → Inv h w' → E w' := fun hs₁ hlock₁ w' hrely hinv' =>
    hE w' hinv' ⟨⟨row, hs₁.rely hrely⟩, hrely.locks _ hlock₁⟩
  refine observes_bind (observes_external hinv (hE' hs hlock) fun w₁ hrely₁ hinv₁ => ?_)
  refine observes_bind (observes_publish hinv₁ (hs.rely hrely₁) (hrely₁.locks _ hlock)
    (hstaged.rely hs.owns hrely₁) (hdeclared.rely hs.owns hrely₁)
    (fun w' hinv' hs' hlock' => hE w' hinv' ⟨⟨row, hs'⟩, hlock'⟩)
    fun b w₂ hinv₂ hs₂ hlock₂ hdeclared₂ hblob₂ => ?_)
  cases b with
  | false => exact observes_pure (hnone w₂ hinv₂ hs₂ hlock₂)
  | true =>
    -- The archive is there, so its digest is locked until the row is complete.
    refine observes_bind (observes_external hinv₂ (hE' hs₂ hlock₂) fun w₃ hrely₃ hinv₃ => ?_)
    have hs₃ := hs₂.rely hrely₃
    have hlock₃ := hrely₃.locks _ hlock₂
    refine observes_bind (observes_ownedUpload hinv₃ hs₃.owns (hE' hs₃ hlock₃)
      fun upload w₄ _ hrely₄ hinv₄ _ => ?_)
    have hs₄ := hs₃.rely hrely₄
    have hlock₄ := hrely₄.locks _ hlock₃
    refine observes_bind (observes_query rfl rfl hinv₄ (hE' hs₄ hlock₄)
      fun _ now w₅ _ _ hrely₅ hinv₅ => ?_)
    have hs₅ := hs₄.rely hrely₅
    have hlock₅ := hrely₅.locks _ hlock₄
    refine observes_bind (observes_require (hE w₅ hinv₅ ⟨⟨row, hs₅⟩, hlock₅⟩) fun _ => ?_)
    refine observes_bind (observes_commitPackage hinv₅ hs₅ (hE' hs₅ hlock₅)
      fun result isNew w₆ hrely₆ hinv₆ hold => ?_)
    -- Over all these calls the others have left the archive alone.
    have hall : Rely i w₂ w₆ := ((hrely₃.trans hrely₄).trans hrely₅).trans hrely₆
    have hblob₆ : w₆.blob row.request.archiveDigest = some (w₆.received id) := by
      rw [hall.blob _ hlock₂, hblob₂ rfl, World.received, World.received,
        (hs₂.owns.kept hall).2.1]
    have hlock₆ := hall.locks _ hlock₂
    refine observes_bind (observes_complete hinv₆ (hs₂.rely hall) hactive
      (hdeclared₂.rely hs₂.owns hall) hblob₆ hold
      (fun row' w' hinv' hs' hlocks => hE w' hinv' ⟨⟨row', hs'⟩, hlocks _ hlock₆⟩)
      fun w₇ hinv₇ hs₇ hlocks => ?_)
    exact observes_bind (observes_rollbackCreated hinv₇ hs₇ (hlocks _ hlock₆)
      (fun w' hinv' hs' hlock' => hE w' hinv' ⟨⟨_, hs'⟩, hlock'⟩)
      fun w' hinv' hs' _ => observes_pure (hsome result w' hinv' hs'))

theorem Session.acquire (hs : Session i id row w) (lock : Lock) :
    Session i id row { w with locks := Function.update w.locks lock (some i) } := by
  refine ⟨?_, hs.creating, hs.unmarked, hs.current, hs.present⟩
  by_cases heq : Lock.upload id = lock
  · exact heq ▸ Function.update_self _ _ _
  · exact (Function.update_of_ne heq _ _).trans hs.lock

/-- A lock besides that of the session is taken. -/
theorem observes_acquire_more {lock : Lock} {Q : Unit → World → Prop}
    (hne : ∀ id, lock ≠ .upload id) (hinv : Inv h w) (hs : Session i id row w)
    (hstaged : Staged id [] w) (hdeclared : Declared h id row w)
    (hE : ∀ w', Inv h w' → Session i id row w' → E w')
    (hQ : ∀ w', Inv h w' → Session i id row w' → Staged id [] w' → Declared h id row w' →
      w'.locks lock = some i → Q () w') :
    Observes h i (call (.acquire lock)) Q E w := by
  have hs' := hs.acquire lock
  have hstaged' : Staged id [] { w with locks := Function.update w.locks lock (some i) } := hstaged
  have hdeclared' : Declared h id row
      { w with locks := Function.update w.locks lock (some i) } := hdeclared
  exact observes_acquire hinv (fun id heq => absurd heq (hne id))
    (fun w' hrely hinv' => hE w' hinv' (hs.rely hrely))
    (fun w' hrely hinv' => hE w' hinv' (hs'.rely hrely))
    fun w' _ hrely hinv' => hQ w' hinv' (hs'.rely hrely) (hstaged'.rely hs'.owns hrely)
      (hdeclared'.rely hs'.owns hrely)

/-- The part of a finalization whose content errors fail the session. -/
theorem observes_validation {owner : Owner} {maxBlobBytes : ℕ} {data : UploadRequest}
    {Q : Option String → World → Prop} (hinv : Inv h w) (hs : Session i id row w)
    (hdata : row.request = data) (hactive : row.status.isActive)
    (hsize : row.receivedBytes = row.request.archiveSizeBytes)
    (hE : ∀ row' w', Inv h w' → Session i id row' w' → E w')
    (hsome : ∀ result w', Inv h w' → Owns i id w' → Ended id w' → Q (some result) w')
    (hnone : ∀ w', Inv h w' → Session i id row w' → Q none w') :
    Observes h i (validation owner id data maxBlobBytes) Q E w := by
  subst hdata
  have hE' : ∀ {w₁ : World}, Session i id row w₁ → ∀ w', Rely i w₁ w' → Inv h w' → E w' :=
    fun hs₁ w' hrely hinv' => hE row w' hinv' (hs₁.rely hrely)
  refine observes_bind (observes_reconcile hinv hs hsize.symm (hE row)
    fun b w₁ hinv₁ hs₁ hstaged₁ => ?_)
  cases b with
  | false => exact observes_pure (hnone w₁ hinv₁ hs₁)
  | true =>
    refine observes_bind (observes_query rfl rfl hinv₁ (hE' hs₁)
      fun o archive w₂ _ hreply hrely₂ hinv₂ => ?_)
    have hs₂ := hs₁.rely hrely₂
    cases archive with
    | none => exact observes_pure (hnone w₂ hinv₂ hs₂)
    | some archive =>
      refine observes_bind (observes_require (hE row w₂ hinv₂ hs₂) fun hmatches => ?_)
      simp only [Bool.and_eq_true, decide_eq_true_eq] at hmatches
      -- The staging file has been cut to what was committed, so its digest is that of the session.
      have hdeclared₁ : Declared h id row w₁ := by
        have hfile : w₁.file id = some (w₁.received id) := by
          rw [hstaged₁ rfl, List.append_nil]
        simp only [reply, inspected, hfile, Option.bind_some, Option.some.injEq] at hreply
        split_ifs at hreply
        obtain rfl := Option.some.inj hreply
        exact hmatches
      obtain ⟨digest, size⟩ := archive
      obtain ⟨rfl, rfl⟩ : digest = row.request.archiveDigest ∧
        size = row.request.archiveSizeBytes := hmatches
      refine observes_bind (observes_query rfl rfl hinv₂ (hE' hs₂)
        fun o b w₃ _ _ hrely₃ hinv₃ => ?_)
      have hs₃ := hs₂.rely hrely₃
      cases b with
      | false => exact observes_pure (hnone w₃ hinv₃ hs₃)
      | true =>
        -- The file is the request's own: what others do leaves it as it was inspected.
        have hstaged₃ := ((hstaged₁ rfl).rely hs₁.owns hrely₂).rely hs₂.owns hrely₃
        have hdeclared₃ := (hdeclared₁.rely hs₁.owns hrely₂).rely hs₂.owns hrely₃
        refine observes_bind (observes_acquire_more nofun hinv₃ hs₃ hstaged₃ hdeclared₃ (hE row)
          fun w₄ hinv₄ hs₄ hstaged₄ hdeclared₄ _ => ?_)
        refine observes_bind (observes_acquire_more nofun hinv₄ hs₄ hstaged₄ hdeclared₄ (hE row)
          fun w₅ hinv₅ hs₅ hstaged₅ hdeclared₅ hlock₅ => ?_)
        refine observes_bind (observes_caught (observes_publication hinv₅ hs₅ hactive hlock₅
          hstaged₅ hdeclared₅ (fun w₆ hinv₆ hpublishing => ?_)
          (fun result w₆ hinv₆ hs₆ => ?_) fun w₆ hinv₆ hs₆ hlock₆ => ?_))
        -- The publication raised, and the archive goes unless a version has it.
        · obtain ⟨⟨row', hs₆⟩, hlock₆⟩ := hpublishing
          exact observes_bind (observes_rollbackCreated hinv₆ hs₆ hlock₆
            (fun w₇ hinv₇ hs₇ _ => hE row' w₇ hinv₇ hs₇)
            fun w₇ hinv₇ hs₇ _ => observes_raise (hE row' w₇ hinv₇ hs₇))
        · exact observes_pure (hsome result w₆ hinv₆ hs₆.owns ⟨_, hs₆.current, rfl⟩)
        · exact observes_bind (observes_rollbackCreated hinv₆ hs₆ hlock₆
            (fun w₇ hinv₇ hs₇ _ => hE row w₇ hinv₇ hs₇)
            fun w₇ hinv₇ hs₇ _ => observes_pure (hnone w₇ hinv₇ hs₇))

theorem isActive_of_resumable
    (hstatus : (if row.status = .validating then { row with status := .uploading }
      else row).status = .uploading) : row.status.isActive := by
  split at hstatus
  · next hvalidating =>
    rw [hvalidating]
    rfl
  · rw [hstatus]
    rfl

theorem observes_finalizeUpload (owner : Owner) (maxBlobBytes : ℕ) (hinv : Inv h w) :
    Observes h i (finalizeUpload owner id maxBlobBytes) (fun _ _ => True) (fun _ => True) w := by
  refine observes_bind (observes_known hinv fun w₁ _ hinv₁ hannounced₁ => ?_)
  refine observes_bind (observes_external hinv₁ (fun _ _ _ => trivial) fun w₂ hrely₂ hinv₂ => ?_)
  refine observes_bind (observes_acquire_upload hinv₂ (hrely₂.evolves.announced id hannounced₁)
    fun w₃ hinv₃ hlock₃ hnone₃ => ?_)
  have hown₃ : Owns i id w₃ := .inl ⟨hlock₃, hnone₃⟩
  refine observes_bind (observes_external hinv₃ (fun _ _ _ => trivial) fun w₄ hrely₄ hinv₄ => ?_)
  have hlock₄ := hrely₄.locks _ hlock₃
  have hnone₄ := (hrely₄.session id hlock₃ hnone₃).creating
  refine observes_bind (observes_ownedUpload hinv₄ (hown₃.rely hrely₄) (fun _ _ _ => trivial)
    fun row w₅ hrow hrely₅ hinv₅ hread₅ => ?_)
  split
  · exact observes_take trivial fun _ _ => trivial
  · next hcomplete =>
    refine observes_bind (observes_resumable hinv₅ (hrely₅.locks _ hlock₄)
      (hrely₅.session id hlock₄ hnone₄).creating hread₅ ?_ (fun hactive => ?_)
      (fun _ _ _ => trivial) fun w₆ _ hinv₆ hactive hs₆ => ?_)
    · split <;> rfl
    · exact isActive_of_resumable hactive
    · replace hactive := isActive_of_resumable hactive
      refine observes_bind (observes_require trivial fun hsize => ?_)
      refine observes_bind (observes_query rfl rfl hinv₆ (fun _ _ _ => trivial)
        fun o now w₇ _ _ hrely₇ hinv₇ => ?_)
      refine observes_bind (observes_reactivate hinv₇ (hs₆.rely hrely₇) hactive nofun
        (fun _ _ => trivial) fun w₈ hinv₈ hs₈ => ?_)
      -- Its three ends: an error, the row complete, and the row failed.
      refine observes_bind (observes_caught (observes_validation hinv₈ hs₈ rfl rfl
        (of_decide_eq_true hsize) (fun row' w₉ hinv₉ hs₉ => ?_)
        (fun result w₉ hinv₉ hown₉ hended₉ => ?_) fun w₉ hinv₉ hs₉ => ?_))
      · refine observes_bind (observes_query rfl rfl hinv₉ (fun _ _ _ => trivial)
          fun o a w' _ hreply hrely' hinv' => ?_)
        obtain rfl : w₉.row id = a := Option.some.inj hreply
        rw [hs₉.current]
        dsimp only
        split_ifs with hvalidating
        · exact observes_bind (observes_reactivate hinv' (hs₉.rely hrely')
            (by rw [hvalidating]; rfl) nofun (fun _ _ => trivial)
            fun _ _ _ => observes_raise trivial)
        · exact observes_raise trivial
      · exact observes_bind (observes_caught (observes_unlink_ended hinv₉ hown₉ hended₉
          (fun _ => trivial) fun _ _ => trivial))
      · exact observes_bind (observes_failUpload hinv₉ hs₉.owns (fun _ => trivial)
          fun _ _ => observes_raise trivial)

/-! ### The start of sessions -/

/-- The request holds the project, and the sessions belong to it. -/
def Expiring (i : Caller) (project : String) (stale : List (UploadId × PackageUpload)) (w : World) :
    Prop :=
  w.locks (.project project) = some i ∧
    ∀ e ∈ stale, ∃ row, w.row e.1 = some row ∧ row.owner.projectId = project

theorem Expiring.rely {project : String} {stale : List (UploadId × PackageUpload)}
    (hexpiring : Expiring i project stale w) (hrely : Rely i w w') :
    Expiring i project stale w' := by
  refine ⟨hrely.locks _ hexpiring.1, fun e he => ?_⟩
  obtain ⟨row, hrow, hproject⟩ := hexpiring.2 e he
  obtain ⟨row', hrow', hevolves, -⟩ := hrely.evolves.row e.1 row hrow
  exact ⟨row', hrow', hevolves.owner ▸ hproject⟩

/-- The locks besides those of the project are of no matter. -/
theorem Expiring.locks {project : String} {stale : List (UploadId × PackageUpload)}
    (hexpiring : Expiring i project stale w) (lock : Lock) (hne : .project project ≠ lock)
    (holder : Option Caller) :
    Expiring i project stale { w with locks := Function.update w.locks lock holder } :=
  ⟨(Function.update_of_ne hne _ _).trans hexpiring.1, hexpiring.2⟩

/-- A session of the project belongs to whoever holds its lock and the project. -/
theorem owns_of_locks (hinv : Inv h w) (hlock : w.locks (.upload id) = some i)
    (hrow : w.row id = some row) (hproject : w.locks (.project row.owner.projectId) = some i) :
    Owns i id w := by
  cases hcreating : w.creating id with
  | none => exact .inl ⟨hlock, hcreating⟩
  | some j =>
    have hj := (hinv.creating id j hcreating).2.2 row hrow
    exact .inr (hcreating.trans (hj.symm.trans hproject))

/-- **The sessions that have expired are set to failed one by one.** -/
theorem observes_expireUploads {project : String} {stale : List (UploadId × PackageUpload)}
    {Q : Unit → World → Prop} (hinv : Inv h w) (hexpiring : Expiring i project stale w)
    (hQ : ∀ w', Inv h w' → w'.locks (.project project) = some i → Q () w') :
    Observes h i (expireUploads stale) Q (fun _ => True) w := by
  induction stale generalizing w with
  | nil => exact observes_pure (hQ w hinv hexpiring.1)
  | cons e stale ih =>
    obtain ⟨id, seen⟩ := e
    obtain ⟨row, hrow, hproject⟩ := hexpiring.2 (id, seen) List.mem_cons_self
    have hissued : id < w.issued := by
      by_contra hle
      rw [(hinv.issued id (Nat.not_lt.mp hle)).1] at hrow
      cases hrow
    refine observes_bind (observes_acquire hinv
      (fun j hj => by obtain rfl := Lock.upload.inj hj; exact hissued)
      (fun _ _ _ => trivial) (fun _ _ _ => trivial) fun w₁ _ hrely₁ hinv₁ hlock₁ => ?_)
    have hexpiring₁ := (hexpiring.locks (.upload id) nofun (some i)).rely hrely₁
    obtain ⟨row₁, hrow₁, hproject₁⟩ := hexpiring₁.2 (id, seen) List.mem_cons_self
    have hown₁ := owns_of_locks hinv₁ hlock₁ hrow₁ (hproject₁ ▸ hexpiring₁.1)
    refine observes_bind (observes_query rfl rfl hinv₁ (fun _ _ _ => trivial)
      fun o expired w₂ hfresh hreply hrely₂ hinv₂ => ?_)
    have hexpired : w₁.row id = some expired := by
      change (if o = .snapshot then some seen else w₁.row id) = some expired at hreply
      split_ifs at hreply with hsnapshot
      · exact (hfresh id seen rfl hsnapshot).trans hreply
      · exact hreply
    obtain rfl := Option.some.inj (hexpired.symm.trans hrow₁)
    have hown₂ := hown₁.rely hrely₂
    have hread₂ : Read id expired w₂ := Read.rely (.inl hexpired) hown₁ hrely₂
    refine observes_bind (observes_query rfl rfl hinv₂ (fun _ _ _ => trivial)
      fun o now w₃ _ hreply hrely₃ hinv₃ => ?_)
    obtain rfl : w₂.now = now := Option.some.inj hreply
    have hall : Rely i w₁ w₃ := hrely₂.trans hrely₃
    have hrest : ∀ w₄, Inv h w₄ → w₄.locks (.upload id) = some i →
        Expiring i project ((id, seen) :: stale) w₄ →
        Observes h i (do call (.release (.upload id)); expireUploads stale) Q (fun _ => True)
          w₄ := by
      intro w₄ hinv₄ hlock₄ hexpiring₄
      refine observes_bind (observes_done rfl hinv₄ (fun _ => respects_release hinv₄ hlock₄)
        (fun _ _ _ _ _ => trivial) fun _ _ w₅ _ _ _ hrely₅ hinv₅ => ?_)
      have hexpiring₅ := (hexpiring₄.locks (.upload id) nofun none).rely hrely₅
      exact ih hinv₅ ⟨hexpiring₅.1, fun e he => hexpiring₅.2 e (List.mem_cons_of_mem _ he)⟩
    split
    · next hends =>
      simp only [Bool.and_eq_true, decide_eq_true_eq] at hends
      obtain ⟨hactive, hle⟩ := hends
      have hle₃ : expired.expiresAt ≤ w₃.now := Nat.le_trans hle hrely₃.evolves.now
      -- The row is as it was read, or failed by another commit.
      obtain ⟨row₃, hrow₃, hexpires₃, hne₃, howner₃⟩ : ∃ row, w₃.row id = some row ∧
          row.expiresAt ≤ w₃.now ∧ row.status ≠ .complete ∧ row.owner = expired.owner := by
        rcases hread₂.rely hown₂ hrely₃ with hsame | ⟨hfailed, -⟩
        · refine ⟨expired, hsame, hle₃, fun hcomplete => ?_, rfl⟩
          rw [hcomplete] at hactive
          cases hactive
        · exact ⟨failed expired, hfailed, hle₃, nofun, rfl⟩
      have hexpiring₃ := hexpiring₁.rely hall
      refine observes_bind (observes_done rfl hinv₃ (fun _ => respects_mark hinv₃
        (hall.locks _ hlock₁) hrow₃ hexpires₃ hne₃ (by rw [howner₃, hproject₁]; exact hexpiring₃.1))
        (fun _ _ _ _ _ => trivial) fun _ _ w₄ _ _ _ hrely₄ hinv₄ => ?_)
      have hown₃ := hown₂.rely hrely₃
      have hown₃' : Owns i id (effect h i w₃ (.mark id)) := hown₃
      have hread₃ : Read id row₃ (effect h i w₃ (.mark id)) := .inl hrow₃
      have hread₄ := hread₃.rely hown₃' hrely₄
      have hexpiring₄ : Expiring i project ((id, seen) :: stale) (effect h i w₃ (.mark id)) :=
        hexpiring₃
      have hlock₃ : (effect h i w₃ (.mark id)).locks (.upload id) = some i := hall.locks _ hlock₁
      refine observes_bind (observes_done rfl hinv₄ (fun _ => respects_unlink hinv₄
        (hown₃'.rely hrely₄) fun row₄ hrow₄ hactive₄ hlt₄ => ?_)
        (fun _ _ _ _ _ => trivial) fun _ _ w₅ _ _ _ hrely₅ hinv₅ => ?_)
      · have hle₄ : row₃.expiresAt ≤ w₄.now := Nat.le_trans hexpires₃ hrely₄.evolves.now
        rcases hread₄ with hsame | ⟨hfailed, -⟩
        · obtain rfl := Option.some.inj (hsame.symm.trans hrow₄)
          exact absurd hlt₄ (Nat.not_lt.mpr hle₄)
        · obtain rfl := Option.some.inj (hfailed.symm.trans hrow₄)
          cases hactive₄
      · have hlock₄ : (effect h i w₄ (.unlink id)).locks (.upload id) = some i :=
          hrely₄.locks _ hlock₃
        have hexpiring₅ := hexpiring₄.rely hrely₄
        have hexpiring₆ : Expiring i project ((id, seen) :: stale) (effect h i w₄ (.unlink id)) :=
          hexpiring₅
        exact hrest w₅ hinv₅ (hrely₅.locks _ hlock₄) (hexpiring₆.rely hrely₅)
    · exact hrest w₃ hinv₃ (hall.locks _ hlock₁) (hexpiring₁.rely hall)

/-- The row of a session is inserted, or not. -/
theorem observes_insert {row : PackageUpload} {Q : Option Unit → World → Prop} (hinv : Inv h w)
    (hmine : w.creating id = some i) (hnone : w.row id = none) (hreceived : row.receivedBytes = 0)
    (hstatus : row.status = .uploading)
    (hlock : w.locks (.project row.owner.projectId) = some i)
    (hroom : (w.activeIn row.owner.projectId).length < maxActiveUploads)
    (hdone : ∀ w', Inv h w' → w'.creating id = some i → Q (some ()) w')
    (hraised : ∀ w', Inv h w' → w'.creating id = some i →
      (∀ row', w'.row id = some row' → row'.receivedBytes = 0) → Q none w') :
    Observes h i (call (.insert id row)).caught Q E w := by
  have hrow : (effect h i w (.insert id row)).row id = some row := Function.update_self _ _ _
  refine observes_caught (observes_done rfl hinv
    (fun _ => respects_insert hinv hmine hnone hreceived hstatus hlock hroom)
    (fun w₁ w' hw₁ hrely hinv' => ?_) fun _ _ w' _ _ _ hrely hinv' =>
      hdone w' hinv' ((hrely.creating id).mpr hmine))
  have hmine₁ : w₁.creating id = some i := by
    rcases hw₁ with rfl | rfl
    · exact hmine
    · exact hmine
  refine hraised w' hinv' ((hrely.creating id).mpr hmine₁) fun row' hrow' => ?_
  rw [(hrely.created id hmine₁).1] at hrow'
  rcases hw₁ with rfl | rfl
  · cases hnone.symm.trans hrow'
  · obtain rfl := Option.some.inj (hrow.symm.trans hrow')
    exact hreceived

/-- The sessions of a project that have expired are among its rows. -/
theorem row_of_mem_stale {project : String} {e : UploadId × PackageUpload}
    (he : e ∈ w.stale project) : ∃ row, w.row e.1 = some row ∧ row.owner.projectId = project := by
  obtain ⟨id, hid, he⟩ := List.mem_filterMap.mp he
  obtain ⟨row, hrow, he⟩ := Option.bind_eq_some_iff.mp he
  split_ifs at he
  obtain rfl := Option.some.inj he
  have hactive := (List.mem_filter.mp hid).2
  rw [World.isActiveIn, hrow] at hactive
  simp only [Bool.and_eq_true, decide_eq_true_eq] at hactive
  exact ⟨row, hrow, hactive.1⟩

/-- The sessions that are counted are at least those of the table. -/
theorem activeIn_le_of_reply {project : String} {o : Outcome} {active : ℕ}
    (hreply : reply h o w (.countActive project) = some active) :
    (w.activeIn project).length ≤ active := by
  cases o with
  | legacy sessions =>
    obtain rfl := Option.some.inj hreply
    exact Nat.le_add_right _ _
  | _ => exact Nat.le_of_eq (Option.some.inj hreply)

/-- How many sessions of a project are active can only become less. -/
theorem Rely.activeIn_lt (hrely : Rely i w w') {project : String} {n : ℕ}
    (hlock : w.locks (.project project) = some i) (hlt : (w.activeIn project).length < n) :
    (w'.activeIn project).length < n :=
  Nat.lt_of_le_of_lt (hrely.project project hlock) hlt

theorem observes_startUpload (owner : Owner) (request : UploadRequest) (maxBlobBytes : ℕ)
    (hinv : Inv h w) :
    Observes h i (startUpload owner request maxBlobBytes) (fun _ _ => True) (fun _ => True) w := by
  refine observes_bind (observes_external hinv (fun _ _ _ => trivial) fun w₁ _ hinv₁ => ?_)
  refine observes_bind (observes_require trivial fun _ => ?_)
  refine observes_bind (observes_acquire hinv₁ nofun (fun _ _ _ => trivial) (fun _ _ _ => trivial)
    fun w₂ _ _ hinv₂ hlock₂ => ?_)
  refine observes_bind (observes_external hinv₂ (fun _ _ _ => trivial) fun w₃ hrely₃ hinv₃ => ?_)
  -- From here on the project is locked, and others start no session in it.
  have hlock₃ := hrely₃.locks _ hlock₂
  refine observes_bind (observes_query rfl rfl hinv₃ (fun _ _ _ => trivial)
    fun o stale w₄ _ hreply hrely₄ hinv₄ => ?_)
  obtain rfl : w₃.stale owner.projectId = stale := Option.some.inj hreply
  have hexpiring : Expiring i owner.projectId (w₃.stale owner.projectId) w₃ :=
    ⟨hlock₃, fun e he => row_of_mem_stale he⟩
  refine observes_bind (observes_expireUploads hinv₄ (hexpiring.rely hrely₄)
    fun w₅ hinv₅ hlock₅ => ?_)
  refine observes_bind (observes_done rfl hinv₅ (fun _ => respects_markedFailed hinv₅)
    (fun _ _ _ _ _ => trivial) fun _ _ w₆ _ _ _ hrely₆ hinv₆ => ?_)
  have hlock₆ : w₆.locks (.project owner.projectId) = some i := hrely₆.locks _ hlock₅
  refine observes_bind (observes_query rfl rfl hinv₆ (fun _ _ _ => trivial)
    fun o active w₇ _ hreply hrely₇ hinv₇ => ?_)
  -- What was counted stays a bound: under the lock the others can only end sessions.
  refine observes_bind (observes_require trivial fun hroom => ?_)
  have hroom₆ : (w₆.activeIn owner.projectId).length < maxActiveUploads :=
    Nat.lt_of_le_of_lt (activeIn_le_of_reply hreply) (of_decide_eq_true hroom)
  have hlock₇ := hrely₇.locks _ hlock₆
  have hroom₇ := hrely₇.activeIn_lt hlock₆ hroom₆
  refine observes_bind (observes_external hinv₇ (fun _ _ _ => trivial) fun w₈ hrely₈ hinv₈ => ?_)
  have hlock₈ := hrely₈.locks _ hlock₇
  have hroom₈ := hrely₈.activeIn_lt hlock₇ hroom₇
  refine observes_bind (observes_done rfl hinv₈ (fun _ => respects_newId hinv₈)
    (fun _ _ _ _ _ => trivial) fun o id w₉ _ hreply _ hrely₉ hinv₉ => ?_)
  obtain rfl : w₈.issued = id := Option.some.inj hreply
  -- The identifier was never used, so its file and row are this request's alone.
  have hdrawn : (w₈.drawn i).creating w₈.issued = some i := Function.update_self _ _ _
  have hlockd : (w₈.drawn i).locks (.project owner.projectId) = some i := hlock₈
  have hroomd : ((w₈.drawn i).activeIn owner.projectId).length < maxActiveUploads := by
    rw [activeIn_drawn hinv₈]
    exact hroom₈
  have hnone₉ : w₉.row w₈.issued = none :=
    (hrely₉.created _ hdrawn).1.trans (hinv₈.issued _ (Nat.le_refl _)).1
  have hmine₉ := (hrely₉.creating _).mpr hdrawn
  have hlock₉ := hrely₉.locks _ hlockd
  have hroom₉ := hrely₉.activeIn_lt hlockd hroomd
  refine observes_bind (observes_query rfl rfl hinv₉ (fun _ _ _ => trivial)
    fun o now w₁₀ _ hreply hrely₁₀ hinv₁₀ => ?_)
  have hnone₁₀ := (hrely₁₀.created _ hmine₉).1.trans hnone₉
  have hmine₁₀ := (hrely₁₀.creating _).mpr hmine₉
  refine observes_bind (observes_done rfl hinv₁₀ (fun _ => respects_setFile hinv₁₀ (.inr hmine₁₀)
    fun row hrow => by cases hnone₁₀.symm.trans hrow)
    (fun _ _ _ _ _ => trivial) fun _ _ w₁₁ _ _ _ hrely₁₁ hinv₁₁ => ?_)
  have hmine : (effect h i w₁₀ (.startFile w₈.issued)).creating w₈.issued = some i := hmine₁₀
  have hlock : (effect h i w₁₀ (.startFile w₈.issued)).locks (.project owner.projectId) = some i :=
    hrely₁₀.locks _ hlock₉
  have hroom : ((effect h i w₁₀ (.startFile w₈.issued)).activeIn owner.projectId).length <
      maxActiveUploads := hrely₁₀.activeIn_lt hlock₉ hroom₉
  refine observes_bind (observes_insert hinv₁₁ ((hrely₁₁.creating _).mpr hmine)
    ((hrely₁₁.created _ hmine).1.trans hnone₁₀) rfl rfl (hrely₁₁.locks _ hlock)
    (Rely.activeIn_lt hrely₁₁ hlock hroom) (fun w₁₂ hinv₁₂ hmine₁₂ => ?_)
    fun w₁₂ hinv₁₂ hmine₁₂ hempty => ?_)
  · exact observes_done rfl hinv₁₂
      (fun _ => respects_announce hinv₁₂ hmine₁₂ (Owns.lt_issued (.inr hmine₁₂) hinv₁₂))
      (fun _ _ _ _ _ => trivial) fun _ _ _ _ _ _ _ _ => trivial
  · exact observes_bind (observes_done rfl hinv₁₂ (fun _ => respects_unlink hinv₁₂ (.inr hmine₁₂)
      fun row' hrow' _ _ => hempty row' hrow') (fun _ _ _ _ _ => trivial)
      fun _ _ _ _ _ _ _ _ => observes_raise trivial)

/-- **Every request observes the protocol.** -/
theorem observes_program (request : Request) (hinv : Inv h w) :
    Observes h i request.program (fun _ _ => True) (fun _ => True) w := by
  cases request with
  | start owner request maxBlobBytes => exact observes_startUpload owner request maxBlobBytes hinv
  | status owner id =>
    exact observes_bind ((observes_uploadStatus owner hinv).imp fun _ _ _ => trivial)
  | append owner id offset chunks =>
    exact observes_bind ((observes_appendUpload owner offset chunks hinv).imp fun _ _ _ => trivial)
  | abort owner id => exact observes_abortUpload owner hinv
  | finalize owner id maxBlobBytes =>
    exact observes_bind ((observes_finalizeUpload owner maxBlobBytes hinv).imp
      fun _ _ _ => trivial)

/-- The surroundings and the requests keep the protocol. -/
theorem holds (h : ContentHash) :
    Holds (protocol h) (surroundings h) Fresh fun _ request => Request.program request where
  leave := fun _ _ hinv => respects_leave hinv
  drift := fun d _ hinv => respects_drift hinv d
  start := fun _ request _ hinv => observes_program request hinv

end Palimpsest.Hub.Upload
