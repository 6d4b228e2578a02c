import Palimpsest.Changeset.Reducer
import Palimpsest.Lib.Deferral

/-!
# From the final table to the entries of the layer

The second half of `normalize_changeset`: the check that every forward link was
bound, the choice of a carrier for every payload group, the entries, and the order
in which they are emitted. A hardlink may not be emitted before the file it links
to, and waits for a later pass where it would be: a loop of `Deferral`.
-/

namespace Palimpsest

variable {π : Type}

/-- `dict(member.xattrs)`. -/
def xattrDict (xattrs : List (Text × Text)) : AList fun _ : Text => Text :=
  xattrs.foldl (fun d e => d.insert e.1 e.2) ∅

/-- `tuple(sorted(xattrs.items()))`. -/
def sortedItems (xattrs : AList fun _ : Text => Text) : List (Text × Text) :=
  (xattrs.entries.map fun e => (e.1, e.2)).insertionSort fun a b => toLex a ≤ toLex b

/-- The extended attribute by which an overlay file system knows an opaque
directory. -/
def opaqueXattr : Text := "trusted.overlay.opaque".toList

/-- The extended attributes of an entry that belongs to no payload group. -/
def finalXattrs (n : Node π) : List (Text × Text) :=
  let xattrs := xattrDict n.member.xattrs
  sortedItems (if n.isOpaque then xattrs.insert opaqueXattr ['y'] else xattrs)

namespace Reduction

/-- The paths of a payload group. -/
def groupPaths (st : Reduction π) (g : ℕ) : List RelPath :=
  (st.table.entries.filter fun e => e.2.groupId = some g).map (·.1)

/-- The paths of a payload group that hold its regular file. -/
def regularPaths (st : Reduction π) (g : ℕ) : List RelPath :=
  (st.groupPaths g).filter fun p => (st.node? p).any fun n => n.kind = .file

/-- `carriers`: the path that carries the payload of a group. -/
def carrier (st : Reduction π) (g : ℕ) : Option RelPath :=
  match (st.regularPaths g).insertionSort (· ≤ ·) with
  | p :: _ => some p
  | [] => ((st.groupPaths g).insertionSort (· ≤ ·)).head?

/-- The entry of the carrier of a group. -/
def carrierEntry (p : RelPath) (source : ChangesetMember π) : NormalizedEntry π where
  path := p
  kind := .file
  size := source.size
  mode := source.mode
  uid := source.uid
  gid := source.gid
  mtime := source.mtime
  linkTarget := []
  deviceMajor := 0
  deviceMinor := 0
  xattrs := source.xattrs
  payload := source.payload
  isOpaque := false
  synthetic := p.text ≠ source.path
  sourceOrdinal := some source.ordinal

/-- The entry of any other path of a group. -/
def linkEntry (p : RelPath) (m : ChangesetMember π) (carrier : Text) : NormalizedEntry π where
  path := p
  kind := .hardlink
  size := 0
  mode := m.mode
  uid := m.uid
  gid := m.gid
  mtime := m.mtime
  linkTarget := carrier
  deviceMajor := 0
  deviceMinor := 0
  xattrs := m.xattrs
  payload := none
  isOpaque := false
  synthetic := false
  sourceOrdinal := some m.ordinal

/-- The entry of a path that belongs to no group. -/
def plainEntry (p : RelPath) (n : Node π) (count : ℕ) : NormalizedEntry π where
  path := p
  kind := n.kind
  size := n.member.size
  mode := n.member.mode
  uid := n.member.uid
  gid := n.member.gid
  mtime := n.member.mtime
  linkTarget := n.member.linkTarget
  deviceMajor := n.member.deviceMajor
  deviceMinor := n.member.deviceMinor
  xattrs := finalXattrs n
  payload := none
  isOpaque := n.isOpaque
  synthetic := n.synthetic
  sourceOrdinal := if n.member.ordinal < count then some n.member.ordinal else none

/-- The entry of a path. A group with a path in the table has a carrier, so the
empty link target is never taken. -/
def normalizedEntry (st : Reduction π) (count : ℕ) (p : RelPath) (n : Node π) :
    Except Fault (NormalizedEntry π) :=
  if n.isOpaque ∧ n.kind ≠ .directory then .error (.raised .opaqueState)
  else
    match n.groupId with
    | none => .ok (plainEntry p n count)
    | some g =>
      match st.groups.lookup g with
      | none => .error (.raised .hardlinkGroup)
      | some source =>
        if st.carrier g = some p then .ok (carrierEntry p source)
        else .ok (linkEntry p n.member ((st.carrier g).elim [] (·.text)))

end Reduction

/-- A hardlink is ready to be emitted once its target is out; everything else always
is. -/
def emissionReady (emitted : List (NormalizedEntry π)) (e : NormalizedEntry π) : Bool :=
  e.kind ≠ .hardlink || (emitted.map (·.path.text)).contains e.linkTarget

/-- The emission of the entries, which come in the order of their paths. The fuel is
enough for one entry a pass. -/
def emit (entries : List (NormalizedEntry π)) : Except Fault (List (NormalizedEntry π)) :=
  match Deferral.loop emissionReady entries.length [] entries with
  | .ok out => .ok out
  | .error .stuck => .error (.raised .hardlinkOrder)
  | .error .fuel => .error .diverges

namespace Reduction

/-- Everything after the main loop. -/
def finish (st : Reduction π) (count : ℕ) : Except Fault (List (NormalizedEntry π)) :=
  let st := st.addRoot count
  if st.table.entries.any fun e => e.2.pendingTarget ≠ none then
    .error (.raised .hardlinkTarget)
  else do
    let normalized ← st.table.entries.mapM fun e => st.normalizedEntry count e.1 e.2
    emit (normalized.insertionSort fun a b => a.path ≤ b.path)

end Reduction

/-- `normalize_changeset`. The checks that its argument is a tuple of members are the
type of the argument. -/
def normalizeChangeset (members : List (ChangesetMember π)) :
    Except Fault (List (NormalizedEntry π)) :=
  if members.zipIdx.any fun e => e.1.ordinal ≠ e.2 then .error (.raised .changesetInput)
  else do
    let st ← Reduction.empty.run members
    st.finish members.length

end Palimpsest
