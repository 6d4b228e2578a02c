import Palimpsest.Hub.TagSteps

/-!
# What transactions on a package rely on

While a transaction has the lock of the row of the package, nothing is committed to the package:
this is all that it relies on (`Palimpsest.Hub.Tags.Relies`). Every commit is a step from the rows
as they are, and every answer is justified by what happened while the transaction went on
(`Palimpsest.Hub.Tags.Inv`).
-/

namespace Palimpsest.Hub.Tags

open Calls

variable {requests : Caller → CommitRequest} {i j : Caller} {w w' w'' : World} {s s' : Store}
  {p : List Write} {k m n : ℕ}

/-! ### The invariant -/

/-- At some moment between two. -/
def Sometime (w : World) (m n : ℕ) (P : Store → Prop) : Prop :=
  ∃ k, m ≤ k ∧ k ≤ n ∧ P (w.storeAt k)

/-- A commit by the transaction moves its tag. -/
def MovedBy (r : CommitRequest) (i : Caller) (w : World) (m n : ℕ) : Prop :=
  ∃ k c, m ≤ k ∧ k < n ∧ w.history[k]? = some c ∧ c.caller = i ∧ Moved r (w.storeAt k) c.store

/-- What a response says of the time between the begin of its transaction and its end. -/
def Justified (r : CommitRequest) (i : Caller) (w : World) (m n : ℕ) : Response → Prop
  | .ok (receipt, changed) =>
    receipt.alreadyPublished = !changed ∧
      if changed then MovedBy r i w m n else Sometime w m n (Same r)
  | .error e =>
    e = .registry packageTypeConflict ∧ Sometime w m n (fun s => ∃ p, s.package = some p ∧
      p.packageType ≠ r.packageType) ∨
    e = .registry tagConflict ∧ Sometime w m n (fun s => ¬Same r s) ∧ Sometime w m n (Differs r) ∨
    e = .integrity ∧ Sometime w m n fun s => ¬Same r s

structure Inv (requests : Caller → CommitRequest) (w : World) : Prop where
  chain : History.Chain .empty Commit.store (fun c => StoreStep (requests c.caller)) w.history
  started_le : ∀ i, w.started i ≤ w.since i
  since_le : ∀ i, w.since i ≤ w.history.length
  pending : ∀ i, w.pending i ≠ [] → w.holder = some i
  answers : ∀ a ∈ w.answers, a.started ≤ a.ended ∧ a.ended ≤ w.history.length ∧
    Justified (requests a.caller) a.caller w a.started a.ended a.response

theorem inv_initial : Inv requests .initial where
  chain := History.chain_nil
  started_le := fun _ => Nat.le_refl _
  since_le := fun _ => Nat.le_refl _
  pending := fun _ h => absurd rfl h
  answers := fun _ h => absurd h List.not_mem_nil

theorem Inv.complete (h : Inv requests w) (hk : k ≤ w.history.length) : (w.storeAt k).Complete :=
  h.chain.all complete_empty (fun _ _ _ hstep _ => hstep.complete) hk

theorem Inv.keeps (h : Inv requests w) (hmn : m ≤ n) (hn : n ≤ w.history.length) :
    Keeps (w.storeAt m) (w.storeAt n) :=
  h.chain.rel Keeps.refl (fun _ _ _ => Keeps.trans) (fun _ _ _ hstep => hstep.keeps) hmn hn

/-- **A tag that has changed had another root in between** than any root that is expected. -/
theorem Inv.exists_ne (h : Inv requests w) (hmn : m ≤ n) (hn : n ≤ w.history.length) {tag : String}
    (hchanged : (w.storeAt n).tag tag ≠ (w.storeAt m).tag tag) (expected : Option String) :
    Sometime w m n fun s => (s.tag tag).map (·.rootDigest) ≠ expected := by
  by_contra hnever
  have hexpected : ∀ k, m ≤ k → k ≤ n → ((w.storeAt k).tag tag).map (·.rootDigest) = expected :=
    fun k hmk hkn => by_contra fun hne => hnever ⟨k, hmk, hkn, hne⟩
  refine hchanged ?_
  -- A commit that changes the tag changes its root.
  induction n, hmn using Nat.le_induction with
  | base => rfl
  | succ n hmn ih =>
    obtain ⟨c, -, hstep⟩ := h.chain.step hn
    have hsame : (w.storeAt (n + 1)).tag tag = (w.storeAt n).tag tag := by
      by_contra hne
      obtain ⟨rfl, hmoved⟩ := hstep.moved_of_ne hne
      refine hmoved.changed ?_
      rw [← hmoved.expected, ← hmoved.same]
      exact (hexpected n hmn n.le_succ).trans (hexpected (n + 1) (hmn.trans n.le_succ) le_rfl).symm
    rw [hsame]
    refine ih (Nat.le_of_succ_le hn) (fun heq => hchanged (hsame.trans heq)) ?_ fun k hmk hkn =>
      hexpected k hmk (hkn.trans n.le_succ)
    exact fun ⟨k, hmk, hkn, hne⟩ => hnever ⟨k, hmk, hkn.trans n.le_succ, hne⟩

theorem storeAt_of_isPrefix (h : w.history <+: w'.history) (hk : k ≤ w.history.length) :
    w'.storeAt k = w.storeAt k :=
  History.stateAt_of_isPrefix h hk

theorem Sometime.of_isPrefix {P : Store → Prop} (h : Sometime w m n P)
    (hgrown : w.history <+: w'.history) (hn : n ≤ w.history.length) : Sometime w' m n P := by
  obtain ⟨k, hmk, hkn, hP⟩ := h
  refine ⟨k, hmk, hkn, ?_⟩
  rw [storeAt_of_isPrefix hgrown (hkn.trans hn)]
  exact hP

theorem MovedBy.of_isPrefix {r : CommitRequest} (h : MovedBy r i w m n)
    (hgrown : w.history <+: w'.history) : MovedBy r i w' m n := by
  obtain ⟨k, c, hmk, hkn, hc, hcaller, hmoved⟩ := h
  have hk : k < w.history.length := (List.getElem?_eq_some_iff.mp hc).1
  refine ⟨k, c, hmk, hkn, ?_, hcaller, ?_⟩
  · obtain ⟨more, hmore⟩ := hgrown
    rw [← hmore, List.getElem?_append_left hk, hc]
  · rw [storeAt_of_isPrefix hgrown hk.le]
    exact hmoved

/-- What justified a response does so later on. -/
theorem Justified.of_isPrefix {r : CommitRequest} {response : Response}
    (h : Justified r i w m n response) (hgrown : w.history <+: w'.history)
    (hn : n ≤ w.history.length) : Justified r i w' m n response := by
  match response, h with
  | .ok (receipt, true), h => exact ⟨h.1, h.2.of_isPrefix hgrown⟩
  | .ok (receipt, false), h => exact ⟨h.1, h.2.of_isPrefix hgrown hn⟩
  | .error e, h =>
    exact h.imp (And.imp_right fun h => h.of_isPrefix hgrown hn) <| Or.imp
      (And.imp_right <| And.imp (fun h => h.of_isPrefix hgrown hn) fun h => h.of_isPrefix hgrown hn)
      (And.imp_right fun h => h.of_isPrefix hgrown hn)

/-! ### The protocol -/

/-- What a transaction relies on. -/
structure Relies (i : Caller) (w w' : World) : Prop where
  grows : w.history <+: w'.history
  held : w.holder = some i → w'.holder = some i ∧ w'.history = w.history
  pending : w'.pending i = w.pending i
  started : w'.started i = w.started i
  since : w'.since i = w.since i

theorem Relies.refl (i : Caller) (w : World) : Relies i w w :=
  ⟨List.prefix_rfl, fun h => ⟨h, rfl⟩, rfl, rfl, rfl⟩

theorem Relies.trans (h : Relies i w w') (h' : Relies i w' w'') : Relies i w w'' := by
  refine ⟨h.grows.trans h'.grows, fun hheld => ?_, h'.pending.trans h.pending,
    h'.started.trans h.started, h'.since.trans h.since⟩
  obtain ⟨hheld', hhistory⟩ := h.held hheld
  obtain ⟨hheld'', hhistory'⟩ := h'.held hheld'
  exact ⟨hheld'', hhistory'.trans hhistory⟩

def protocol (requests : Caller → CommitRequest) : Protocol Caller World where
  inv := Inv requests
  evolves := fun w w' => w.history <+: w'.history
  rely := Relies
  evolves_refl := fun _ => List.prefix_rfl
  evolves_trans := fun _ _ _ => List.IsPrefix.trans
  rely_refl := Relies.refl
  rely_trans := fun _ _ _ _ => Relies.trans

/-- A change that commits nothing and is to what belongs to one transaction. -/
structure Own (i : Caller) (w w' : World) : Prop where
  history : w'.history = w.history
  answers : w'.answers = w.answers
  others : ∀ j, j ≠ i → w'.pending j = w.pending j ∧ w'.started j = w.started j ∧
    w'.since j = w.since j
  holder : ∀ j, j ≠ i → w.holder = some j → w'.holder = some j
  started_le : w'.started i ≤ w'.since i
  since_le : w'.since i ≤ w.history.length
  pending : w'.pending i ≠ [] → w'.holder = some i

theorem Own.respects (h : Own i w w') (hinv : Inv requests w) :
    (protocol requests).Respects i w w' := by
  have hgrows : w.history <+: w'.history := h.history ▸ List.prefix_rfl
  refine ⟨⟨h.history ▸ hinv.chain, fun j => ?_, fun j => ?_, fun j hj => ?_, fun a ha => ?_⟩,
    hgrows, fun j hj => ⟨hgrows, fun hheld => ⟨h.holder j hj hheld, h.history⟩,
      (h.others j hj).1, (h.others j hj).2.1, (h.others j hj).2.2⟩⟩
  · by_cases hj : j = i
    · exact hj ▸ h.started_le
    · rw [(h.others j hj).2.1, (h.others j hj).2.2]
      exact hinv.started_le j
  · rw [h.history]
    by_cases hj : j = i
    · exact hj ▸ h.since_le
    · rw [(h.others j hj).2.2]
      exact hinv.since_le j
  · by_cases heq : j = i
    · subst heq
      exact h.pending hj
    · rw [(h.others j heq).1] at hj
      exact h.holder j heq (hinv.pending j hj)
  · rw [h.answers] at ha
    obtain ⟨hstarted, hended, hjustified⟩ := hinv.answers a ha
    exact ⟨hstarted, h.history ▸ hended, hjustified.of_isPrefix hgrows hended⟩

theorem pending_cleared (w : World) (i : Caller) :
    Function.update w.pending i ([] : List Write) i = [] :=
  Function.update_self i _ w.pending

/-- The transaction begins. -/
theorem own_begin (o : Outcome) : Own i w (effect i o w .begin).2 := by
  refine ⟨rfl, rfl, fun j hj => ⟨Function.update_of_ne hj _ _, Function.update_of_ne hj _ _,
    Function.update_of_ne hj _ _⟩, fun _ _ h => h, ?_, ?_, fun h => ?_⟩
  · change Function.update w.started i _ i ≤ Function.update w.since i _ i
    rw [Function.update_self, Function.update_self]
  · change Function.update w.since i _ i ≤ _
    rw [Function.update_self]
  · exact (h (pending_cleared w i)).elim

theorem holder_of_isFree (h : w.isFree i = true) (hj : j ≠ i) : w.holder ≠ some j := by
  intro hcon
  rw [World.isFree, hcon, Option.isNone_some, Bool.false_or, decide_eq_true_eq] at h
  exact hj (Option.some.inj h)

/-- The transaction takes the lock. -/
theorem own_hold (hinv : Inv requests w) (hfree : w.isFree i = true) :
    Own i w { w with holder := some i } :=
  ⟨rfl, rfl, fun _ _ => ⟨rfl, rfl, rfl⟩, fun _ hj h => absurd h (holder_of_isFree hfree hj),
    hinv.started_le i, hinv.since_le i, fun _ => rfl⟩

theorem le_visible (w : World) (i : Caller) (o : Outcome) : w.since i ≤ w.visible i o :=
  Nat.le_max_left _ _

theorem Inv.visible_le (hinv : Inv requests w) (o : Outcome) :
    w.visible i o ≤ w.history.length :=
  Nat.max_le.mpr ⟨hinv.since_le i, Nat.min_le_right _ _⟩

/-- The transaction reads rows. -/
theorem own_readAt (hinv : Inv requests w) (hk : w.since i ≤ k) (hlength : k ≤ w.history.length) :
    Own i w (w.readAt i k) := by
  refine ⟨rfl, rfl, fun j hj => ⟨rfl, rfl, Function.update_of_ne hj _ _⟩, fun _ _ h => h, ?_, ?_,
    hinv.pending i⟩
  · change w.started i ≤ Function.update w.since i k i
    rw [Function.update_self]
    exact (hinv.started_le i).trans hk
  · change Function.update w.since i k i ≤ _
    rw [Function.update_self]
    exact hlength

/-- The transaction writes rows. -/
theorem own_wrote (hinv : Inv requests w) (hheld : w.holder = some i) (write : Write) :
    Own i w (w.wrote i write) :=
  ⟨rfl, rfl, fun _ hj => ⟨Function.update_of_ne hj _ _, rfl, rfl⟩, fun _ _ h => h,
    hinv.started_le i, hinv.since_le i, fun _ => hheld⟩

theorem holder_released (hj : j ≠ i) (h : w.holder = some j) :
    (if w.holder = some i then none else w.holder) = some j := by
  rw [h, if_neg fun heq => hj (Option.some.inj heq)]

/-- The transaction ends without a commit. -/
theorem own_leave (hinv : Inv requests w) : Own i w (leave i w) :=
  ⟨rfl, rfl, fun _ hj => ⟨Function.update_of_ne hj _ _, rfl, rfl⟩, fun _ hj => holder_released hj,
    hinv.started_le i, hinv.since_le i, fun h => (h (pending_cleared w i)).elim⟩

/-- **A commit** is a step from the rows as they are. -/
theorem respects_commit (hinv : Inv requests w) (hheld : w.holder = some i)
    (hstep : StoreStep (requests i) w.store (w.draft i)) (o : Outcome) :
    (protocol requests).Respects i w (effect i o w .commit).2 := by
  have hgrows : w.history <+: w.history ++ [⟨i, w.draft i⟩] := List.prefix_append _ _
  have hlength : w.history.length ≤ (w.history ++ [(⟨i, w.draft i⟩ : Commit)]).length :=
    hgrows.length_le
  refine ⟨⟨hinv.chain.concat hstep, hinv.started_le, fun j => (hinv.since_le j).trans hlength,
    fun j hj => ?_, fun a ha => ?_⟩, hgrows, fun j hj => ⟨hgrows, fun hcon => ?_,
      Function.update_of_ne hj _ _, rfl, rfl⟩⟩
  · by_cases heq : j = i
    · subst heq
      exact (hj (pending_cleared w j)).elim
    · change Function.update w.pending i [] j ≠ [] at hj
      rw [Function.update_of_ne heq] at hj
      exact holder_released heq (hinv.pending j hj)
  · obtain ⟨hstarted, hended, hjustified⟩ := hinv.answers a ha
    exact ⟨hstarted, hended.trans hlength, hjustified.of_isPrefix hgrows hended⟩
  · exact absurd (Option.some.inj (hheld.symm.trans hcon)) (Ne.symm hj)

/-- **An answer** is justified by the rows so far. -/
theorem respects_respond {response : Response} (hinv : Inv requests w)
    (hjustified : Justified (requests i) i w (w.started i) w.history.length response)
    (o : Outcome) : (protocol requests).Respects i w (effect i o w (.respond response)).2 := by
  refine ⟨⟨hinv.chain, hinv.started_le, hinv.since_le, hinv.pending, fun a ha => ?_⟩,
    List.prefix_rfl, fun j _ => ⟨List.prefix_rfl, fun h => ⟨h, rfl⟩, rfl, rfl, rfl⟩⟩
  rcases List.mem_append.mp ha with ha | ha
  · exact hinv.answers a ha
  · obtain rfl := List.mem_singleton.mp ha
    exact ⟨(hinv.started_le i).trans (hinv.since_le i), Nat.le_refl _, hjustified⟩

end Palimpsest.Hub.Tags
