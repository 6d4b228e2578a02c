import Mathlib.Algebra.GroupWithZero.Nat
import Palimpsest.Changeset.Member

/-!
# The changeset reducer

`normalize_changeset`, function by function. The four dictionaries of the source
are the four fields of `Palimpsest.Reduction`; its nested helpers are functions
on it, under their own names. A Python set is a list here: its members come in no
particular order there, and nothing below depends on one.

The loop of `purge_subtree` runs on fuel. Every round takes one path off the
stack and moves the children it has there from the index to the stack, so the
number of paths in both (`Palimpsest.Reduction.purgeFuel`) is enough of it:
`Palimpsest.Reduction.purgeLoop_spec` is proved for every amount that large.
-/

namespace Palimpsest

open ParentTree (walk)

/-- The local state of `normalize_changeset`. -/
structure Reduction (π : Type) where
  /-- `table`: what each path holds. -/
  table : AList fun _ : RelPath => Node π
  /-- `children`: the paths directly below each path. -/
  children : AList fun _ : RelPath => List RelPath
  /-- `pending_by_target`: the forward links waiting for each target. -/
  pendingByTarget : AList fun _ : Text => List RelPath
  /-- `groups`: the regular member behind each payload group. -/
  groups : AList fun _ : ℕ => ChangesetMember π

namespace Reduction

variable {π : Type}

/-- The state before the first member. -/
def empty : Reduction π := ⟨∅, ∅, ∅, ∅⟩

/-- `table.get(path)` -/
def node? (st : Reduction π) (p : RelPath) : Option (Node π) := st.table.lookup p

/-- `children.get(path, ())` -/
def childrenOf (st : Reduction π) (p : RelPath) : List RelPath :=
  (st.children.lookup p).getD []

/-- `pending_by_target.get(target, ())` -/
def waitingFor (st : Reduction π) (t : Text) : List RelPath :=
  (st.pendingByTarget.lookup t).getD []

/-- `table.get(target)` for a link target, which need not be a possible key. -/
def nodeAt? (st : Reduction π) (t : Text) : Option (Node π) :=
  (RelPath.ofText? t).bind st.node?

/-- `register` -/
def register (st : Reduction π) (p : RelPath) : Reduction π :=
  match p.parent with
  | none => st
  | some d => { st with children := st.children.insert d ((st.childrenOf d).insert p) }

/-- `cancel_pending` -/
def cancelPending (st : Reduction π) (p : RelPath) (n : Node π) : Reduction π :=
  match n.pendingTarget with
  | none => st
  | some t =>
    match st.pendingByTarget.lookup t with
    | none => st
    | some waiting =>
      if waiting.filter (· ≠ p) = [] then
        { st with pendingByTarget := st.pendingByTarget.erase t }
      else
        { st with pendingByTarget := st.pendingByTarget.insert t (waiting.filter (· ≠ p)) }

/-- The first half of `remove_exact`: drop the node of a path, and the wait of a
forward link with it. -/
def dropNode (st : Reduction π) (p : RelPath) : Reduction π :=
  match st.table.lookup p with
  | none => st
  | some prior => cancelPending { st with table := st.table.erase p } p prior

/-- The second half of `remove_exact`: drop a path from the index of children. -/
def unregister (st : Reduction π) (p : RelPath) : Reduction π :=
  let st := { st with children := st.children.erase p }
  match p.parent with
  | none => st
  | some d =>
    match st.children.lookup d with
    | none => st
    | some s => { st with children := st.children.insert d (s.filter (· ≠ p)) }

/-- `remove_exact` -/
def removeExact (st : Reduction π) (p : RelPath) (keepChildren : Bool) : Reduction π :=
  if keepChildren then st.dropNode p else (st.dropNode p).unregister p

/-- The loop of `purge_subtree`; the stack is kept top first. -/
def purgeLoop : ℕ → List RelPath → Reduction π → Reduction π
  | 0, _, st => st
  | _ + 1, [], st => st
  | n + 1, d :: pending, st => purgeLoop n (st.childrenOf d ++ pending) (st.removeExact d false)

/-- Enough rounds for the loop of `purge_subtree`. -/
def purgeFuel (st : Reduction π) (p : RelPath) : ℕ :=
  (st.children.entries.map fun e => e.2.length).sum + (st.childrenOf p).length

/-- `purge_subtree` -/
def purgeSubtree (st : Reduction π) (p : RelPath) (includeRoot : Bool) : Reduction π :=
  let st := purgeLoop (st.purgeFuel p) (st.childrenOf p) st
  let st := { st with children := st.children.erase p }
  if includeRoot then st.removeExact p false else st

/-- `set_node` -/
def setNode (st : Reduction π) (p : RelPath) (n : Node π) (preserveChildren : Bool) :
    Reduction π :=
  let st := st.removeExact p preserveChildren
  register { st with table := st.table.insert p n } p

/-- A directory that `ensure_parents` puts where there is none. -/
def impliedNode (m : ChangesetMember π) (d : RelPath) : Node π where
  member := syntheticDirectory d m.mtime m.ordinal
  kind := .directory
  synthetic := true

/-- What `ensure_parents` does to a directory that is there: an opaque placeholder
takes its time and ordinal from the first member below it. -/
def refreshNode (m : ChangesetMember π) (refresh : Bool) (d : RelPath) (n : Node π) : Node π :=
  if n.opaquePlaceholder && refresh then
    { n with member := syntheticDirectory d m.mtime m.ordinal, opaquePlaceholder := false }
  else n

/-- One round of the loop of `ensure_parents`. -/
def ensureDirectory (m : ChangesetMember π) (refresh : Bool) (st : Reduction π) (d : RelPath) :
    Reduction π :=
  match st.node? d with
  | some n =>
    if n.kind = .directory then
      { st with table := st.table.insert d (refreshNode m refresh d n) }
    else (st.purgeSubtree d true).setNode d (impliedNode m d) true
  | none => (st.purgeSubtree d true).setNode d (impliedNode m d) true

/-- `ensure_parents` -/
def ensureParents (st : Reduction π) (p : RelPath) (m : ChangesetMember π) (refresh : Bool) :
    Reduction π :=
  (walk p).reverse.foldl (ensureDirectory m refresh) st

/-- One round of the loop of `resolve_forward`. -/
def resolveLink (target : Text) (group : ℕ) (st : Reduction π) (link : RelPath) : Reduction π :=
  match st.node? link with
  | none => st
  | some n =>
    if n.pendingTarget = some target then
      { st with
        table := st.table.insert link { n with pendingTarget := none, groupId := some group } }
    else st

/-- `resolve_forward` -/
def resolveForward (st : Reduction π) (target : Text) (group : ℕ) : Reduction π :=
  ((st.waitingFor target).insertionSort (· ≤ ·)).foldl (resolveLink target group)
    { st with pendingByTarget := st.pendingByTarget.erase target }

/-- The directory that an opaque marker puts where there is none. -/
def placeholderNode (m : ChangesetMember π) (d : RelPath) : Node π where
  member := syntheticDirectory d 0 m.ordinal
  kind := .directory
  opaquePlaceholder := d ≠ RelPath.dot
  synthetic := true

/-- The directory an opaque marker works on: the one that is there, or else a
placeholder in place of whatever was there, with everything below it purged. -/
def opaqueDirectory (st : Reduction π) (d : RelPath) (m : ChangesetMember π) :
    Reduction π × Node π :=
  match st.node? d with
  | some n =>
    if n.kind = .directory then (st, n)
    else ((st.purgeSubtree d true).setNode d (placeholderNode m d) true, placeholderNode m d)
  | none => ((st.purgeSubtree d true).setNode d (placeholderNode m d) true, placeholderNode m d)

/-- Making the directory of an opaque marker opaque. -/
def markOpaque (st : Reduction π) (d : RelPath) (m : ChangesetMember π) : Reduction π :=
  let (st, current) := st.opaqueDirectory d m
  { st with table := st.table.insert d { current with isOpaque := true } }

/-- The branch of an opaque marker. -/
def opaqueMarker (st : Reduction π) (d : RelPath) (m : ChangesetMember π) : Reduction π :=
  let st := if d ≠ RelPath.dot then st.ensureParents d m false else st
  st.markOpaque d m

/-- The branch of an ordinary whiteout marker. -/
def whiteoutMarker (st : Reduction π) (target : RelPath) (m : ChangesetMember π) : Reduction π :=
  let st := st.ensureParents target m false
  let st := st.purgeSubtree target true
  st.setNode target { member := whiteoutMember m target, kind := .whiteout } false

/-- What a member that is no marker finds at its place: its parents are
directories, and a member that is no directory has nothing below it. -/
def clearPlace (st : Reduction π) (p : RelPath) (m : ChangesetMember π) : Reduction π :=
  let st := if p ≠ RelPath.dot then st.ensureParents p m true else st
  if m.kind ≠ .directory then st.purgeSubtree p false else st

/-- `preserve_opaque`: a directory listed again keeps the opaque state. -/
def preserveOpaque (st : Reduction π) (p : RelPath) (m : ChangesetMember π) : Bool :=
  match st.node? p with
  | some prior => m.kind = .directory && prior.kind = .directory && prior.isOpaque
  | none => false

/-- The branch of a regular file. -/
def placeFile (st : Reduction π) (p : RelPath) (m : ChangesetMember π) : Reduction π :=
  let st := { st with groups := st.groups.insert m.ordinal m }
  let st := st.setNode p { member := m, kind := .file, groupId := some m.ordinal } false
  st.resolveForward p.text m.ordinal

/-- The branch of a hardlink. A forward link joins the waiting set of its target
before `set_node` removes what its path held. -/
def placeHardlink (st : Reduction π) (p : RelPath) (m : ChangesetMember π) :
    Except Fault (Reduction π) :=
  if m.linkTarget = p.text then .error (.raised .hardlinkSelf)
  else
    let forward := setNode { st with
        pendingByTarget := st.pendingByTarget.insert m.linkTarget
          ((st.waitingFor m.linkTarget).insert p) }
      p { member := m, kind := .hardlink, pendingTarget := some m.linkTarget } false
    match st.nodeAt? m.linkTarget with
    | some target =>
      if target.kind = .file then
        .ok (st.setNode p { member := m, kind := .hardlink, groupId := target.groupId } false)
      else if target.kind = .hardlink then .error (.raised .hardlinkChain)
      else .ok forward
    | none => .ok forward

/-- The branch of every other kind of member. -/
def placeOther (st : Reduction π) (p : RelPath) (m : ChangesetMember π) : Reduction π :=
  st.setNode p { member := m, kind := m.kind, isOpaque := st.preserveOpaque p m }
    (m.kind = .directory)

/-- The branch of a member that is no marker. -/
def placeMember (st : Reduction π) (p : RelPath) (m : ChangesetMember π) :
    Except Fault (Reduction π) :=
  let st := st.clearPlace p m
  match m.kind with
  | .file => .ok (st.placeFile p m)
  | .hardlink => st.placeHardlink p m
  | _ => .ok (st.placeOther p m)

/-- What the reducer does for a classified member. -/
def act (st : Reduction π) (m : ChangesetMember π) : Action → Except Fault (Reduction π)
  | .opq d => .ok (st.opaqueMarker d m)
  | .whiteout target => .ok (st.whiteoutMarker target m)
  | .place p => st.placeMember p m

/-- One round of the main loop. -/
def step (st : Reduction π) (m : ChangesetMember π) : Except Fault (Reduction π) := do
  st.act m (← classify m)

/-- The main loop, from any state. -/
def run (st : Reduction π) (ms : List (ChangesetMember π)) : Except Fault (Reduction π) :=
  ms.foldlM step st

/-- The root directory is added when no member lists it. -/
def addRoot (st : Reduction π) (ordinal : ℕ) : Reduction π :=
  match st.node? RelPath.dot with
  | some _ => st
  | none =>
    let root := syntheticDirectory RelPath.dot 0 ordinal
    { st with
      table := st.table.insert RelPath.dot
        { member := root, kind := .directory, synthetic := true } }

end Reduction

end Palimpsest
