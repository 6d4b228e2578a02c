import Palimpsest.Changeset.Reducer

/-!
# What the helpers of the reducer do to its dictionaries

One lemma per helper and dictionary: what `table`, `children`,
`pending_by_target` and `groups` hold after it. The one helper with a loop is
`purge_subtree`; its lemma `Palimpsest.Reduction.purgeLoop_spec` is proved along an
invariant of the stack (`Palimpsest.Reduction.Purging`), and says that the loop
removes what lies strictly below the path and nothing else.
-/

namespace Palimpsest

open ParentTree

namespace Reduction

variable {π : Type} {st st' : Reduction π} {p q : RelPath} {n : Node π} {t : Text}

/-- The target a forward link at `p` waits for. -/
def pendingAt (st : Reduction π) (p : RelPath) : Option Text := (st.node? p).bind (·.pendingTarget)

/-- A directory node lies at `p`. -/
def IsDir (st : Reduction π) (p : RelPath) : Prop := ∃ n, st.node? p = some n ∧ n.kind = .directory

instance : Decidable (st.IsDir p) :=
  match h : st.node? p with
  | none => isFalse fun ⟨_, hn, _⟩ => by simp [h] at hn
  | some n => decidable_of_iff (n.kind = .directory) (by simp [IsDir, h])

/-! ### Single updates -/

/-- Writing a node to the table, and nothing else. -/
theorem node?_insert (p q : RelPath) (n : Node π) :
    node? { st with table := st.table.insert p n } q = if q = p then some n else st.node? q := by
  rw [node?, node?]
  split
  · rename_i h
    rw [h, AList.lookup_insert]
  · rename_i h
    exact AList.lookup_insert_ne h

theorem node?_erase (p q : RelPath) :
    node? { st with table := st.table.erase p } q = if q = p then none else st.node? q := by
  rw [node?, node?]
  split
  · rename_i h
    rw [h, AList.lookup_erase]
  · rename_i h
    exact AList.lookup_erase_ne h

theorem childrenOf_erase (p q : RelPath) :
    childrenOf { st with children := st.children.erase p } q =
      if q = p then [] else st.childrenOf q := by
  rw [childrenOf, childrenOf]
  split
  · rename_i h
    rw [h, AList.lookup_erase, Option.getD_none]
  · rename_i h
    rw [AList.lookup_erase_ne h]

theorem childrenOf_insert (p q : RelPath) (s : List RelPath) :
    childrenOf { st with children := st.children.insert p s } q =
      if q = p then s else st.childrenOf q := by
  rw [childrenOf, childrenOf]
  split
  · rename_i h
    rw [h, AList.lookup_insert, Option.getD_some]
  · rename_i h
    rw [AList.lookup_insert_ne h]

theorem waitingFor_insert (s t : Text) (w : List RelPath) :
    waitingFor { st with pendingByTarget := st.pendingByTarget.insert s w } t =
      if t = s then w else st.waitingFor t := by
  rw [waitingFor, waitingFor]
  split
  · rename_i h
    rw [h, AList.lookup_insert, Option.getD_some]
  · rename_i h
    rw [AList.lookup_insert_ne h]

theorem waitingFor_erase (s t : Text) :
    waitingFor { st with pendingByTarget := st.pendingByTarget.erase s } t =
      if t = s then [] else st.waitingFor t := by
  rw [waitingFor, waitingFor]
  split
  · rename_i h
    rw [h, AList.lookup_erase, Option.getD_none]
  · rename_i h
    rw [AList.lookup_erase_ne h]

/-! ### `register`, `cancel_pending` -/

@[simp] theorem node?_register : (st.register p).node? q = st.node? q := by
  rw [register]
  split <;> rfl

@[simp] theorem waitingFor_register : (st.register p).waitingFor t = st.waitingFor t := by
  rw [register]
  split <;> rfl

@[simp] theorem groups_register : (st.register p).groups = st.groups := by
  rw [register]
  split <;> rfl

theorem childrenOf_register :
    (st.register p).childrenOf q =
      if p.parent = some q then (st.childrenOf q).insert p else st.childrenOf q := by
  rw [register]
  split
  · rename_i h
    rw [h, if_neg (by simp)]
  · rename_i d h
    rw [childrenOf_insert, h]
    by_cases hq : q = d
    · rw [if_pos hq, if_pos (by rw [hq]), hq]
    · rw [if_neg hq, if_neg (by simpa using fun h => hq h.symm)]

@[simp] theorem node?_cancelPending : (st.cancelPending p n).node? q = st.node? q := by
  unfold cancelPending
  repeat' split
  all_goals rfl

@[simp] theorem childrenOf_cancelPending :
    (st.cancelPending p n).childrenOf q = st.childrenOf q := by
  unfold cancelPending
  repeat' split
  all_goals rfl

@[simp] theorem children_cancelPending : (st.cancelPending p n).children = st.children := by
  unfold cancelPending
  repeat' split
  all_goals rfl

@[simp] theorem groups_cancelPending : (st.cancelPending p n).groups = st.groups := by
  unfold cancelPending
  repeat' split
  all_goals rfl

theorem waitingFor_cancelPending :
    (st.cancelPending p n).waitingFor t =
      if n.pendingTarget = some t then (st.waitingFor t).filter (· ≠ p) else st.waitingFor t := by
  unfold cancelPending
  split
  · rename_i h
    rw [h, if_neg (by simp)]
  · rename_i s h
    rw [h]
    by_cases hts : t = s
    · subst hts
      rw [if_pos rfl]
      split
      · rename_i hl
        rw [waitingFor, hl]
        rfl
      · rename_i w hl
        have hw : st.waitingFor t = w := by rw [waitingFor, hl, Option.getD_some]
        split
        · rename_i hnil
          rw [waitingFor_erase, if_pos rfl, hw, hnil]
        · rw [waitingFor_insert, if_pos rfl, hw]
    · rw [if_neg (by simpa using fun h => hts h.symm)]
      split
      · rfl
      · split
        · rw [waitingFor_erase, if_neg hts]
        · rw [waitingFor_insert, if_neg hts]

/-! ### `remove_exact` -/

theorem node?_dropNode : (st.dropNode p).node? q = if q = p then none else st.node? q := by
  unfold dropNode
  split
  · rename_i h
    split
    · rename_i hq
      rw [hq]
      exact h
    · rfl
  · rw [node?_cancelPending, node?_erase]

@[simp] theorem children_dropNode : (st.dropNode p).children = st.children := by
  unfold dropNode
  split
  · rfl
  · rw [children_cancelPending]

@[simp] theorem childrenOf_dropNode : (st.dropNode p).childrenOf q = st.childrenOf q := by
  rw [childrenOf, children_dropNode, childrenOf]

@[simp] theorem groups_dropNode : (st.dropNode p).groups = st.groups := by
  unfold dropNode
  split
  · rfl
  · rw [groups_cancelPending]

theorem waitingFor_dropNode :
    (st.dropNode p).waitingFor t =
      if st.pendingAt p = some t then (st.waitingFor t).filter (· ≠ p) else st.waitingFor t := by
  unfold dropNode pendingAt
  split
  · rename_i h
    rw [node?, h]
    rfl
  · rename_i n h
    rw [waitingFor_cancelPending, node?, h]
    rfl

@[simp] theorem node?_unregister : (st.unregister p).node? q = st.node? q := by
  unfold unregister
  dsimp only
  repeat' split
  all_goals rfl

@[simp] theorem waitingFor_unregister : (st.unregister p).waitingFor t = st.waitingFor t := by
  unfold unregister
  dsimp only
  repeat' split
  all_goals rfl

@[simp] theorem groups_unregister : (st.unregister p).groups = st.groups := by
  unfold unregister
  dsimp only
  repeat' split
  all_goals rfl

theorem parent_ne_self (p : RelPath) : p.parent ≠ some p := fun h =>
  not_above_self p (above_of_parent h)

theorem childrenOf_unregister :
    (st.unregister p).childrenOf q =
      if q = p then [] else if p.parent = some q then (st.childrenOf q).filter (· ≠ p)
        else st.childrenOf q := by
  unfold unregister
  dsimp only
  split
  · rename_i h
    rw [h, childrenOf_erase]
    simp
  · rename_i d h
    have hdp : d ≠ p := fun hd => parent_ne_self p (hd ▸ h)
    rw [h]
    -- The parent has a list of children, or none.
    split
    · rename_i hl
      rw [childrenOf_erase]
      by_cases hq : q = p
      · rw [if_pos hq, if_pos hq]
      · rw [if_neg hq, if_neg hq]
        by_cases hqd : q = d
        · rw [if_pos (by rw [hqd]), hqd, childrenOf]
          rw [AList.lookup_erase_ne hdp] at hl
          rw [hl]
          rfl
        · rw [if_neg (by simpa using fun h => hqd h.symm)]
    · rename_i s hl
      rw [AList.lookup_erase_ne hdp] at hl
      have hs := @childrenOf_insert π { st with children := st.children.erase p } d q
        (s.filter (· ≠ p))
      dsimp only at hs
      rw [hs]
      by_cases hqd : q = d
      · rw [if_pos hqd, if_neg (hqd ▸ hdp), if_pos (by rw [hqd]), hqd, childrenOf, hl]
        rfl
      · rw [if_neg hqd, childrenOf_erase]
        by_cases hq : q = p
        · rw [if_pos hq, if_pos hq]
        · rw [if_neg hq, if_neg hq, if_neg (by simpa using fun h => hqd h.symm)]

theorem node?_removeExact {keep : Bool} :
    (st.removeExact p keep).node? q = if q = p then none else st.node? q := by
  unfold removeExact
  split
  · exact node?_dropNode
  · rw [node?_unregister, node?_dropNode]

@[simp] theorem groups_removeExact {keep : Bool} : (st.removeExact p keep).groups = st.groups := by
  unfold removeExact
  split <;> simp

theorem waitingFor_removeExact {keep : Bool} :
    (st.removeExact p keep).waitingFor t =
      if st.pendingAt p = some t then (st.waitingFor t).filter (· ≠ p) else st.waitingFor t := by
  unfold removeExact
  split
  · exact waitingFor_dropNode
  · rw [waitingFor_unregister, waitingFor_dropNode]

theorem childrenOf_removeExact_keep : (st.removeExact p true).childrenOf q = st.childrenOf q := by
  rw [removeExact, if_pos rfl, childrenOf_dropNode]

theorem childrenOf_removeExact :
    (st.removeExact p false).childrenOf q =
      if q = p then [] else if p.parent = some q then (st.childrenOf q).filter (· ≠ p)
        else st.childrenOf q := by
  rw [removeExact, if_neg (by simp), childrenOf_unregister, childrenOf_dropNode]

/-! ### `set_node` -/

theorem node?_setNode {keep : Bool} :
    (st.setNode p n keep).node? q = if q = p then some n else st.node? q := by
  rw [setNode, node?_register, node?_insert]
  split
  · rfl
  · rename_i h
    rw [node?_removeExact, if_neg h]

@[simp] theorem groups_setNode {keep : Bool} : (st.setNode p n keep).groups = st.groups := by
  rw [setNode, groups_register]
  exact groups_removeExact

theorem waitingFor_setNode {keep : Bool} :
    (st.setNode p n keep).waitingFor t =
      if st.pendingAt p = some t then (st.waitingFor t).filter (· ≠ p) else st.waitingFor t := by
  rw [setNode, waitingFor_register]
  exact waitingFor_removeExact

theorem childrenOf_setNode_keep :
    (st.setNode p n true).childrenOf q =
      if p.parent = some q then (st.childrenOf q).insert p else st.childrenOf q := by
  have h : ∀ r, childrenOf { st.removeExact p true with
      table := (st.removeExact p true).table.insert p n } r = st.childrenOf r := fun _ =>
    childrenOf_removeExact_keep
  rw [setNode, childrenOf_register, h]

theorem mem_childrenOf_setNode {r : RelPath} :
    r ∈ (st.setNode p n false).childrenOf q ↔
      (p.parent = some q ∧ r = p) ∨ (q ≠ p ∧ r ≠ p ∧ r ∈ st.childrenOf q) ∨
        (q ≠ p ∧ r = p ∧ p.parent ≠ some q ∧ r ∈ st.childrenOf q) := by
  have h : ∀ r, childrenOf { st.removeExact p false with
      table := (st.removeExact p false).table.insert p n } r =
      (st.removeExact p false).childrenOf r := fun _ => rfl
  rw [setNode, childrenOf_register, h, childrenOf_removeExact]
  have hp := parent_ne_self p
  grind

end Reduction

end Palimpsest
