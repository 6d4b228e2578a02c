import Palimpsest.Hub.TagCommits

/-!
# Package tags are compared and set

What holds after any transactions on a package, in whatever order their calls come and wherever
they are cut off (`Palimpsest.Hub.Tags.compareAndSet_outcome`). A commit that has the expectation
of an earlier one moves the tag only after the tag was moved back
(`Palimpsest.Hub.Tags.moved_back`).
-/

namespace Palimpsest.Hub.Tags

open Calls Calls.Program

variable {requests : Caller → CommitRequest} {i : Caller} {w : World} {m n : ℕ} {c c' : Commit}

/-! ### The states of a run -/

theorem inv_outcome (requests : Caller → CommitRequest)
    (events : List (Event Caller Outcome Empty Unit)) :
    Inv requests (outcome requests events) := by
  refine Protocol.inv_run (holds requests) inv_initial ?_
  generalize (Pool.idle World.initial : Transactions) = s
  induction events generalizing s with
  | nil => trivial
  | cons e events ih =>
    refine ⟨?_, ih _⟩
    cases e with
    | next i o => exact fun _ _ _ => trivial
    | start i r => trivial
    | kill i => trivial
    | drift d => trivial

theorem storeAt_succ (h : w.history[m]? = some c) : w.storeAt (m + 1) = c.store :=
  History.stateAt_succ h

theorem Inv.step (hinv : Inv requests w) (h : w.history[m]? = some c) :
    StoreStep (requests c.caller) (w.storeAt m) c.store :=
  hinv.chain m c h

/-- **A tag that is moved twice from the same root** is moved back to it in between. -/
theorem moved_back (hinv : Inv requests w) (hm : w.history[m]? = some c)
    (hn : w.history[n]? = some c') (hmn : m < n)
    (htag : (requests c.caller).tag = (requests c'.caller).tag)
    (hexpected : (requests c.caller).expectedTagDigest = (requests c'.caller).expectedTagDigest)
    (hmoved : Moved (requests c.caller) (w.storeAt m) c.store)
    (hmoved' : Moved (requests c'.caller) (w.storeAt n) c'.store) :
    ∃ k b, m < k ∧ k < n ∧ w.history[k]? = some b ∧
      (requests b.caller).tag = (requests c.caller).tag ∧
      Moved (requests b.caller) (w.storeAt k) b.store ∧
      some (requests b.caller).validated.rootDigest = (requests c.caller).expectedTagDigest := by
  set tag := (requests c.caller).tag
  set expected := (requests c.caller).expectedTagDigest
  have hlength : n < w.history.length := (List.getElem?_eq_some_iff.mp hn).1
  -- after the first move the tag has another root, and before the second one it has this one
  have hbefore : ¬((w.storeAt (m + 1)).tag tag).map (·.rootDigest) = expected := by
    rw [storeAt_succ hm, hmoved.same]
    exact hmoved.changed.symm
  have hafter : ((w.storeAt n).tag tag).map (·.rootDigest) = expected := by
    rw [htag, hmoved'.expected, hexpected]
  obtain ⟨k, hmk, hkn, hk, hk'⟩ := History.exists_crossing
    (P := fun k => ((w.storeAt k).tag tag).map (·.rootDigest) = expected) hmn hbefore hafter
  obtain ⟨b, hb, hstep⟩ := hinv.chain.step (Nat.lt_trans hkn hlength)
  change StoreStep (requests b.caller) (w.storeAt k) (w.storeAt (k + 1)) at hstep
  have hne : (w.storeAt (k + 1)).tag tag ≠ (w.storeAt k).tag tag := by
    intro heq
    rw [heq] at hk'
    exact hk hk'
  obtain ⟨htag', hmove⟩ := hstep.moved_of_ne hne
  rw [storeAt_succ hb] at hmove hk'
  refine ⟨k, b, hmk, hkn, hb, htag'.symm, hmove, ?_⟩
  rw [← hk', htag']
  exact hmove.same.symm

/-! ### A transaction that nothing fails to -/

theorem yields_call {o : Outcome} {q : Call} {Q : Answer q → World → Prop}
    (ho : o.fails = false ∧ o.lost = false) (hQ : Q (effect i o w q).1 (effect i o w q).2) :
    Yields (answer i o) (call q) w Q := by
  refine yields_ask ?_ hQ
  rw [answer, ho.1, ho.2]
  rfl

/-- The transaction has begun and written these rows, and nothing else has happened. -/
structure Alone (i : Caller) (w₀ : World) (p : List Write) (w : World) : Prop where
  history : w.history = w₀.history
  answers : w.answers = w₀.answers
  started : w.started i = w₀.history.length
  since : w.since i = w₀.history.length
  pending : w.pending i = p

namespace Alone

variable {w₀ : World} {p : List Write} {o : Outcome} {r : CommitRequest} {row : RegistryPackage}

theorem begin (w₀ : World) (i : Caller) (o : Outcome) : Alone i w₀ [] (effect i o w₀ .begin).2 :=
  ⟨rfl, rfl, Function.update_self i _ w₀.started, Function.update_self i _ w₀.since,
    pending_cleared w₀ i⟩

theorem storeAt (h : Alone i w₀ p w) (k : ℕ) : w.storeAt k = w₀.storeAt k := by
  rw [World.storeAt, World.storeAt, h.history]

theorem store (h : Alone i w₀ p w) : w.store = w₀.store := by
  rw [World.store, World.store, h.storeAt, h.history]

theorem draft (h : Alone i w₀ p w) : w.draft i = p.foldl Store.write w₀.store := by
  rw [World.draft, h.store, h.pending]

/-- Every moment that the transaction can see is the present. -/
theorem visible (h : Alone i w₀ p w) (o : Outcome) : w.visible i o = w₀.history.length := by
  rw [World.visible, h.since, h.history]
  exact Nat.max_eq_left (Nat.min_le_right _ _)

theorem readAt (h : Alone i w₀ p w) (o : Outcome) : Alone i w₀ p (w.readAt i (w.visible i o)) :=
  ⟨h.history, h.answers, h.started, (Function.update_self i _ w.since).trans (h.visible o),
    h.pending⟩

theorem hold (h : Alone i w₀ p w) : Alone i w₀ p { w with holder := some i } :=
  ⟨h.history, h.answers, h.started, h.since, h.pending⟩

theorem wrote (h : Alone i w₀ p w) (write : Write) :
    Alone i w₀ (p ++ [write]) (w.wrote i write) :=
  ⟨h.history, h.answers, h.started, h.since,
    (Function.update_self i _ w.pending).trans (by rw [h.pending])⟩

/-- The rows that it reads are those that are there. -/
theorem yields_getTag (h : Alone i w₀ p w) (ho : o.fails = false ∧ o.lost = false) {tag : String}
    {Q : Option PackageTag → World → Prop}
    (hQ : ∀ w', Alone i w₀ p w' → Q (w₀.store.tag tag) w') :
    Yields (answer i o) (call (.getTag tag)) w Q := by
  refine yields_call ho ?_
  have hrow : (effect i o w (.getTag tag)).1 = w₀.store.tag tag := by
    change (w.storeAt (w.visible i o)).tag tag = _
    rw [h.storeAt, h.visible]
    rfl
  rw [hrow]
  exact hQ _ (h.readAt o)

theorem yields_getVersion (h : Alone i w₀ p w) (ho : o.fails = false ∧ o.lost = false)
    {root : String} {Q : Option PackageVersion → World → Prop}
    (hQ : ∀ w', Alone i w₀ p w' → Q (w₀.store.version root) w') :
    Yields (answer i o) (call (.getVersion root)) w Q := by
  refine yields_call ho ?_
  have hrow : (effect i o w (.getVersion root)).1 = w₀.store.version root := by
    change (w.storeAt (w.visible i o)).version root = _
    rw [h.storeAt, h.visible]
    rfl
  rw [hrow]
  exact hQ _ (h.readAt o)

/-- The transaction ends by its commit and the answer. -/
theorem yields_respond (h : Alone i w₀ p w) (ho : o.fails = false ∧ o.lost = false)
    (answered : Receipt × Bool) :
    Yields (answer i o) (do
      let _ ← call .commit
      call (.respond (.ok answered))) w fun _ w' =>
      w'.answers = w₀.answers ++ [⟨i, w₀.history.length, w₀.history.length + 1, .ok answered⟩] ∧
        w'.store = p.foldl Store.write w₀.store := by
  refine yields_bind (yields_call ho (yields_call ho ⟨?_, ?_⟩))
  · change w.answers ++ [⟨i, w.started i, (w.history ++ [_]).length, _⟩] = _
    rw [h.answers, h.started, h.history, List.length_append, List.length_singleton]
  · exact (History.stateAt_concat).trans h.draft

/-- The row of the package is there. -/
theorem yields_lockPackage (h : Alone i w₀ p w) (ho : o.fails = false ∧ o.lost = false)
    (hpackage : w₀.store.package = some row) {Q : Option RegistryPackage → World → Prop}
    (hQ : ∀ w', Alone i w₀ p w' → Q (some row) w') :
    Yields (answer i o) (call .lockPackage) w Q := by
  refine yields_call ho ?_
  have hlock : effect i o w .lockPackage = (some row, { w with holder := some i }) := by
    simp only [effect, h.store, hpackage]
  rw [hlock]
  exact hQ _ h.hold

/-- The tag is moved from the root that is expected. -/
theorem yields_moveTag (h : Alone i w₀ p w) (ho : o.fails = false ∧ o.lost = false)
    (hsame : ¬Same r w₀.store) (hdiffers : ¬Differs r w₀.store) :
    Yields (answer i o) (moveTag r row (w₀.store.tag r.tag)) w fun response w' =>
      response = .ok (receipt r row false, true) ∧
        ∃ p', Alone i w₀ p' w' ∧ Moved r w₀.store (p'.foldl Store.write w₀.store) := by
  have hexpected : (w₀.store.tag r.tag).map (·.rootDigest) = r.expectedTagDigest :=
    not_not.mp hdiffers
  have hchanged : r.expectedTagDigest ≠ some r.validated.rootDigest := by
    rw [← hexpected]
    exact hsame
  -- Both ways of moving the tag end with the package touched and the receipt.
  have hmoved : ∀ {w' : World} {new : PackageTag}, Alone i w₀ (p ++ [.tag r.tag new]) w' →
      new.rootDigest = r.validated.rootDigest →
      new.revision = (w₀.store.tag r.tag).elim 1 (·.revision + 1) → new.updatedBy = r.userId →
      Yields (answer i o) (do
        let touchedAt : ℕ ← call .now
        let _ ← call (.touchPackage touchedAt)
        return .ok (receipt r row false, true) : SqlProgram Response) w' fun response w' =>
          response = .ok (receipt r row false, true) ∧
            ∃ p', Alone i w₀ p' w' ∧ Moved r w₀.store (p'.foldl Store.write w₀.store) := by
    intro w' new h' hroot hrevision hby
    refine yields_bind (yields_call ho (yields_bind (yields_call ho (yields_pure ⟨rfl, ?_⟩))))
    refine ⟨_, h'.wrote (.touch o.time), ?_⟩
    rw [List.foldl_append, List.foldl_append]
    exact moved_write hexpected hchanged hroot hrevision hby _ _
  rw [moveTag.eq_def, if_neg fun hcon => hsame (isSame_iff.mp hcon)]
  cases htag : w₀.store.tag r.tag with
  | none =>
    set new : PackageTag := ⟨r.validated.rootDigest, o.time, r.userId, 1⟩
    have hinsert : effect i o w (.insertTag r.tag new) = (true, w.wrote i (.tag r.tag new)) := by
      rw [effect, h.store, htag]
      rfl
    refine yields_bind (yields_call ho (yields_bind (yields_call ho ?_)))
    change Yields _ (if (effect i o w (.insertTag r.tag new)).1 = true then _ else _)
      (effect i o w (.insertTag r.tag new)).2 _
    rw [hinsert, if_pos rfl]
    exact hmoved (h.wrote _) rfl (by rw [htag]; rfl) rfl
  | some seen =>
    -- The guarded update meets the row it was made for, as nobody else has written.
    set new : PackageTag := ⟨r.validated.rootDigest, o.time, r.userId, seen.revision + 1⟩
    have hupdate : effect i o w (.updateTag r.tag r.expectedTagDigest seen.revision new) =
        (1, w.wrote i (.tag r.tag new)) := by
      rw [effect, h.store, htag, if_pos]
      rw [htag, Option.map_some] at hexpected
      rw [Option.any_some, hexpected]
      simp only [decide_true, Bool.and_self]
    refine yields_bind (yields_call ho (yields_bind (yields_call ho ?_)))
    change Yields _ (if (effect i o w
      (.updateTag r.tag r.expectedTagDigest seen.revision new)).1 = 1 then _ else _)
      (effect i o w (.updateTag r.tag r.expectedTagDigest seen.revision new)).2 _
    rw [hupdate, if_pos rfl]
    exact hmoved (h.wrote _) rfl (by rw [htag]; rfl) rfl

/-- The part after the row of the package. -/
theorem yields_commitVersion (row : RegistryPackage) (h : Alone i w₀ p w)
    (ho : o.fails = false ∧ o.lost = false) (hsame : ¬Same r w₀.store)
    (hdiffers : ¬Differs r w₀.store) :
    Yields (answer i o) (commitVersion r row) w fun response w' =>
      response = .ok (receipt r row false, true) ∧
        ∃ p', Alone i w₀ p' w' ∧ Moved r w₀.store (p'.foldl Store.write w₀.store) := by
  have hguard : ¬(!isSame r (w₀.store.tag r.tag) && decide ((w₀.store.tag r.tag).map
      (·.rootDigest) ≠ r.expectedTagDigest)) = true := by
    rw [Bool.and_eq_true, decide_eq_true_eq]
    exact fun hcon => hdiffers hcon.2
  rw [commitVersion]
  refine yields_bind (h.yields_getTag ho fun w₁ h₁ => ?_)
  rw [if_neg hguard]
  refine yields_bind (h₁.yields_getVersion ho fun w₂ h₂ => ?_)
  cases hversion : w₀.store.version r.validated.rootDigest with
  | some v => exact h₂.yields_moveTag ho hsame hdiffers
  | none =>
    have hinsert : effect i o w₂ (.insertVersion (newVersion r o.time)) =
        (true, w₂.wrote i (.version (newVersion r o.time))) := by
      rw [effect, h₂.store, if_neg]
      rw [show (newVersion r o.time).rootDigest = r.validated.rootDigest from rfl, hversion]
      exact Bool.false_ne_true
    refine yields_bind (yields_call ho (yields_bind (yields_call ho ?_)))
    change Yields _
      (if (effect i o w₂ (.insertVersion (newVersion r o.time))).1 = true then _ else _)
      (effect i o w₂ (.insertVersion (newVersion r o.time))).2 _
    rw [hinsert, if_pos rfl]
    refine yields_bind (yields_call ho ?_)
    exact ((h₂.wrote _).wrote _).yields_moveTag ho hsame hdiffers

end Alone

/-- **Where the tag has the root, a transaction that nothing fails to succeeds.** -/
theorem yields_of_same {o : Outcome} {p : RegistryPackage} (hinv : Inv requests w)
    (ho : o.fails = false ∧ o.lost = false) (hsame : Same (requests i) w.store)
    (hpackage : w.store.package = some p) (htype : p.packageType = (requests i).packageType) :
    Yields (answer i o) (finalizeCommit (requests i)) w fun _ w' =>
      w'.answers = w.answers ++ [⟨i, w.history.length, w.history.length + 1,
        .ok (receipt (requests i) p true, false)⟩] ∧ w'.store = w.store := by
  set r := requests i
  obtain ⟨v, hv⟩ := (hinv.complete (Nat.le_refl w.history.length)).exists_version hsame
  rw [finalizeCommit, commitPackage]
  refine yields_bind (yields_call ho (yields_bind (yields_bind ?_)))
  refine (Alone.begin w i o).yields_lockPackage ho hpackage fun w₁ h₁ => ?_
  dsimp only
  rw [if_neg (not_not.mpr htype), commitVersion]
  refine yields_bind (h₁.yields_getTag ho fun w₂ h₂ => ?_)
  rw [isSame_iff.mpr hsame, Bool.not_true, Bool.false_and, if_neg Bool.false_ne_true]
  refine yields_bind (h₂.yields_getVersion ho fun w₃ h₃ => ?_)
  rw [show w.store.version r.validated.rootDigest = some v from hv]
  dsimp only
  rw [moveTag.eq_def, if_pos (isSame_iff.mpr hsame)]
  exact yields_pure (h₃.yields_respond ho _)

/-- **Where the tag has the root that is expected, it moves it.** -/
theorem yields_of_expected {o : Outcome} (ho : o.fails = false ∧ o.lost = false)
    (hsame : ¬Same (requests i) w.store) (hdiffers : ¬Differs (requests i) w.store)
    (htype : ∀ p, w.store.package = some p → p.packageType = (requests i).packageType) :
    Yields (answer i o) (finalizeCommit (requests i)) w fun _ w' =>
      (∃ row : RegistryPackage, row.packageType = (requests i).packageType ∧
        w'.answers = w.answers ++ [⟨i, w.history.length, w.history.length + 1,
          .ok (receipt (requests i) row false, true)⟩]) ∧ Moved (requests i) w.store w'.store := by
  set r := requests i
  -- After the tag is moved there is only the commit, and the answer to it.
  have hanswered : ∀ {row : RegistryPackage} {w' : World}, row.packageType = r.packageType →
      (∃ p, Alone i w p w' ∧ Moved r w.store (p.foldl Store.write w.store)) →
      Yields (answer i o) (do
        let _ ← call .commit
        call (.respond (.ok (receipt r row false, true)))) w' fun _ w' =>
          (∃ row : RegistryPackage, row.packageType = r.packageType ∧
            w'.answers = w.answers ++ [⟨i, w.history.length, w.history.length + 1,
              .ok (receipt r row false, true)⟩]) ∧ Moved r w.store w'.store := by
    rintro row w' hrow ⟨p, h, hmoved⟩
    obtain ⟨a, w'', hleads, hanswers, hstore⟩ := h.yields_respond ho (receipt r row false, true)
    exact ⟨a, w'', hleads, ⟨row, hrow, hanswers⟩, hstore ▸ hmoved⟩
  rw [finalizeCommit, commitPackage]
  refine yields_bind (yields_call ho (yields_bind (yields_bind ?_)))
  have h := Alone.begin w i o
  cases hpackage : w.store.package with
  | some row =>
    refine h.yields_lockPackage ho hpackage fun w₁ h₁ => ?_
    dsimp only
    rw [if_neg (not_not.mpr (htype row hpackage))]
    obtain ⟨_, w₂, hleads, rfl, hmoved⟩ := h₁.yields_commitVersion row ho hsame hdiffers
    exact ⟨_, w₂, hleads, hanswered (htype row hpackage) hmoved⟩
  -- The package is new: it is inserted, and the row is held as if it had been locked.
  | none =>
    set w₁ := (effect i o w .begin).2
    have hlock : effect i o w₁ .lockPackage = (none, w₁) := by
      simp only [effect, h.store, hpackage]
    set row : RegistryPackage := ⟨o.drawn, r.packageType, o.time, o.time⟩
    have hinsert : effect i o w₁ (.insertPackage row) =
        (true, { w₁.wrote i (.package row) with holder := some i }) := by
      rw [effect, h.store, hpackage]
      rfl
    refine yields_call ho ?_
    rw [hlock]
    dsimp only
    refine yields_bind (yields_call ho (yields_bind (yields_call ho ?_)))
    refine yields_bind (yields_call ho (yields_bind (yields_call ho ?_)))
    change Yields _ (if (effect i o w₁ (.insertPackage row)).1 = true then _ else _)
      (effect i o w₁ (.insertPackage row)).2 _
    rw [hinsert, if_pos rfl]
    obtain ⟨_, w₂, hleads, rfl, hmoved⟩ := (h.wrote (.package row)).hold.yields_commitVersion
      row ho hsame hdiffers
    exact ⟨_, w₂, hleads, hanswered rfl hmoved⟩

/-! ### All transactions -/

/-- What holds of the tags, the versions and the answers of a package. -/
structure CompareAndSet (requests : Caller → CommitRequest) (w : World) : Prop where
  /-- A commit changes no tag but its own, from the root that it expects and by one revision. -/
  moved : ∀ k c, w.history[k]? = some c → ∀ tag, c.store.tag tag ≠ (w.storeAt k).tag tag →
    tag = (requests c.caller).tag ∧ Moved (requests c.caller) (w.storeAt k) c.store
  /-- Two commits with one expectation move the tag only if another moves it back in between. -/
  moved_back : ∀ m n c c', w.history[m]? = some c → w.history[n]? = some c' → m < n →
    (requests c.caller).tag = (requests c'.caller).tag →
    (requests c.caller).expectedTagDigest = (requests c'.caller).expectedTagDigest →
    Moved (requests c.caller) (w.storeAt m) c.store →
    Moved (requests c'.caller) (w.storeAt n) c'.store →
    ∃ k b, m < k ∧ k < n ∧ w.history[k]? = some b ∧
      (requests b.caller).tag = (requests c.caller).tag ∧
      Moved (requests b.caller) (w.storeAt k) b.store ∧
      some (requests b.caller).validated.rootDigest = (requests c.caller).expectedTagDigest
  /-- A commit of the root that the tag has already changes no tag. -/
  same : ∀ k c, w.history[k]? = some c → Same (requests c.caller) (w.storeAt k) →
    c.store.tag = (w.storeAt k).tag
  /-- Its client is told so, unless the package has another type than it says. -/
  answered : ∀ a ∈ w.answers,
    (∀ k, a.started ≤ k → k ≤ a.ended → Same (requests a.caller) (w.storeAt k)) →
    (∃ receipt, a.response = .ok (receipt, false) ∧ receipt.alreadyPublished = true) ∨
      a.response = .error (.registry packageTypeConflict) ∧ ∃ k p, a.started ≤ k ∧ k ≤ a.ended ∧
        (w.storeAt k).package = some p ∧ p.packageType ≠ (requests a.caller).packageType
  /-- And so it is told by a transaction that nothing fails to. -/
  succeeds : ∀ i o p, o.fails = false ∧ o.lost = false → Same (requests i) w.store →
    w.store.package = some p → p.packageType = (requests i).packageType →
    ∃ w', (finalizeCommit (requests i)).run (answer i o) w = (some (), w') ∧
      w'.answers = w.answers ++ [⟨i, w.history.length, w.history.length + 1,
        .ok (receipt (requests i) p true, false)⟩] ∧ w'.store = w.store
  /-- A transaction that expects the root that the tag has, and that nothing fails to, moves it. -/
  moves : ∀ i o, o.fails = false ∧ o.lost = false → ¬Same (requests i) w.store →
    ¬Differs (requests i) w.store →
    (∀ p, w.store.package = some p → p.packageType = (requests i).packageType) →
    ∃ w', (finalizeCommit (requests i)).run (answer i o) w = (some (), w') ∧
      (∃ row : RegistryPackage, row.packageType = (requests i).packageType ∧
        w'.answers = w.answers ++ [⟨i, w.history.length, w.history.length + 1,
          .ok (receipt (requests i) row false, true)⟩]) ∧ Moved (requests i) w.store w'.store
  /-- What a client is told happened while its transaction went on. -/
  justified : ∀ a ∈ w.answers,
    Justified (requests a.caller) a.caller w a.started a.ended a.response
  /-- The type of the package and the versions never change. -/
  keeps : ∀ m n, m ≤ n → n ≤ w.history.length → Keeps (w.storeAt m) (w.storeAt n)
  /-- Tags name versions, and what belongs to these is referenced. -/
  complete : ∀ k, k ≤ w.history.length → (w.storeAt k).Complete

/-- **Package tags are compared and set**, whatever transactions there are and however their calls
come one after the other. -/
theorem compareAndSet_outcome (requests : Caller → CommitRequest)
    (events : List (Event Caller Outcome Empty Unit)) :
    CompareAndSet requests (outcome requests events) := by
  set w := outcome requests events
  have hinv : Inv requests w := inv_outcome requests events
  refine
    { moved := fun k c hc tag hne => (hinv.step hc).moved_of_ne hne
      moved_back := fun m n c c' hm hn hmn htag hexpected hmoved hmoved' =>
        Tags.moved_back hinv hm hn hmn htag hexpected hmoved hmoved'
      same := fun k c hc hsame => ?_
      answered := fun a ha hsame => ?_
      succeeds := fun i o p ho hsame hpackage htype => ?_
      moves := fun i o ho hsame hdiffers htype => ?_
      justified := fun a ha => (hinv.answers a ha).2.2
      keeps := fun m n hmn hn => hinv.keeps hmn hn
      complete := fun k hk => hinv.complete hk }
  · funext tag
    by_contra hne
    exact ((hinv.step hc).moved_of_ne hne).2.not_same hsame
  · have hsometime : ∀ {P : Store → Prop}, Sometime w a.started a.ended P →
        ∃ k, a.started ≤ k ∧ k ≤ a.ended ∧ Same (requests a.caller) (w.storeAt k) ∧
          P (w.storeAt k) := by
      rintro P ⟨k, hk, hk', hP⟩
      exact ⟨k, hk, hk', hsame k hk hk', hP⟩
    have hjustified := (hinv.answers a ha).2.2
    match hresponse : a.response, hjustified with
    | .ok (receipt, false), h => exact Or.inl ⟨receipt, rfl, h.1⟩
    | .ok (receipt, true), h =>
      obtain ⟨k, c, hk, hk', -, -, hmoved⟩ := h.2
      exact absurd (hsame k hk hk'.le) hmoved.not_same
    | .error e, .inl h =>
      obtain ⟨k, hk, hk', -, p, hp, htype⟩ := hsometime h.2
      exact Or.inr ⟨by rw [h.1], k, p, hk, hk', hp, htype⟩
    | .error e, .inr (.inl h) =>
      obtain ⟨k, -, -, hsame, hnot⟩ := hsometime h.2.1
      exact absurd hsame hnot
    | .error e, .inr (.inr h) =>
      obtain ⟨k, -, -, hsame, hnot⟩ := hsometime h.2
      exact absurd hsame hnot
  · obtain ⟨_, w', hleads, hw'⟩ := yields_of_same hinv ho hsame hpackage htype
    exact ⟨w', hleads.run, hw'⟩
  · obtain ⟨_, w', hleads, hw'⟩ := yields_of_expected ho hsame hdiffers htype
    exact ⟨w', hleads.run, hw'⟩

/-! ### A tag that is moved back -/

/-- The roots `a`, `b`, `a` again and `c`. -/
def rootOf (i : ℕ) : String :=
  "sha256:".pushn (if i = 1 then 'b' else if i = 3 then 'c' else 'a') 64

/-- Commits of these roots, each of which expects what is there. -/
def backAndForth (i : Caller) : CommitRequest where
  userId := "user"
  keyId := "0123456789abcdef0123456789abcdef"
  packageType := "oci-image"
  tag := "latest"
  archiveDigest := "sha256:".pushn 'f' 64
  archiveSizeBytes := 1024
  expectedTagDigest := if i = 0 then none else some (rootOf (i - 1))
  provenance := []
  validated :=
    { rootDigest := rootOf i
      rootMediaType := "application/vnd.oci.image.manifest.v1+json"
      graph := [(rootOf i, ⟨"application/vnd.oci.image.manifest.v1+json", 512⟩)]
      platforms := [[("os", "linux"), ("architecture", "amd64")]]
      totalBytes := 512 }

/-- One commit after the other. -/
def oneByOne : List (Event Caller Outcome Empty Unit) :=
  (List.range 4).flatMap fun i => .start i () :: List.replicate 20 (.next i {})

/-- The root of the tag after so many of them. -/
def digestAt (k : ℕ) : Option String :=
  (((outcome backAndForth oneByOne).storeAt k).tag "latest").map (·.rootDigest)

/-- Two commits with one expectation and different roots both move the tag. -/
theorem both_move :
    (outcome backAndForth oneByOne).history.map Commit.caller = [0, 1, 2, 3] ∧
      (backAndForth 1).expectedTagDigest = (backAndForth 3).expectedTagDigest ∧
      (backAndForth 1).validated.rootDigest ≠ (backAndForth 3).validated.rootDigest ∧
      digestAt 1 = (backAndForth 1).expectedTagDigest ∧
      digestAt 2 = some (backAndForth 1).validated.rootDigest ∧
      digestAt 3 = (backAndForth 3).expectedTagDigest ∧
      digestAt 4 = some (backAndForth 3).validated.rootDigest := by
  decide +kernel

end Palimpsest.Hub.Tags
