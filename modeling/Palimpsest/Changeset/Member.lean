import Mathlib.Data.List.AList
import Mathlib.Data.List.Sort
import Mathlib.Data.Prod.Lex
import Palimpsest.Changeset.RelPath

/-!
# Members and entries of a layer changeset

The data of `oci_changeset`: the physical members of a layer archive in archive
order (`Palimpsest.ChangesetMember`), the entries that the reduction leaves of
them (`Palimpsest.NormalizedEntry`), and the errors it can raise
(`Palimpsest.ChangesetError`). The payload type is a parameter, as in the
source: the reducer only hands payload references through.
-/

namespace Palimpsest

/-- `EntryKind`. -/
inductive EntryKind
  | file
  | directory
  | hardlink
  | symlink
  | char
  | block
  | fifo
  | whiteout
  deriving DecidableEq, Repr

/-- `ChangesetMember`: one validated physical tar member. The two proof fields
are what `__post_init__` still has to check once the fields have their types. -/
structure ChangesetMember (π : Type) where
  ordinal : ℕ
  path : Text
  kind : EntryKind
  size : ℕ
  mode : ℕ
  uid : ℕ
  gid : ℕ
  mtime : ℕ
  linkTarget : Text
  deviceMajor : ℕ
  deviceMinor : ℕ
  xattrs : List (Text × Text)
  payload : Option π
  path_ne_nil : path ≠ []
  payload_isSome : payload.isSome ↔ kind = .file

/-- The errors of `normalize_changeset`. -/
inductive ChangesetError
  | changesetInput
  | whiteoutMarker (isOpaqueMarker : Bool)
  | whiteoutTarget
  | hardlinkSelf
  | hardlinkChain
  | hardlinkTarget
  | opaqueState
  | hardlinkGroup
  | hardlinkOrder
  deriving DecidableEq, Repr

/-- The stable code an error carries. -/
def ChangesetError.code : ChangesetError → String
  | changesetInput => "oci-changeset-input"
  | whiteoutMarker _ => "oci-whiteout-marker"
  | whiteoutTarget => "oci-whiteout-target"
  | hardlinkSelf => "oci-hardlink-self"
  | hardlinkChain => "oci-hardlink-chain"
  | hardlinkTarget => "oci-hardlink-target"
  | opaqueState => "oci-opaque-state"
  | hardlinkGroup => "oci-hardlink-group"
  | hardlinkOrder => "oci-hardlink-order"

/-- The detail an error carries. -/
def ChangesetError.detail : ChangesetError → String
  | changesetInput => "member ordinals are not contiguous archive order"
  | whiteoutMarker true =>
    "OCI opaque marker must be an empty regular file without control metadata"
  | whiteoutMarker false =>
    "OCI whiteout marker must be an empty regular file without control metadata"
  | whiteoutTarget => "Invalid OCI whiteout target"
  | hardlinkSelf => "OCI hardlink cannot target itself"
  | hardlinkChain => "OCI hardlink target must be a same-layer regular file"
  | hardlinkTarget => "OCI hardlink target must be a same-layer regular file"
  | opaqueState => "opaque state requires a directory"
  | hardlinkGroup => "hardlink payload group is missing"
  | hardlinkOrder => "hardlink emission order cannot be resolved"

/-- How a call of `normalize_changeset` can fail to return: it raises, or the
walk up from an absolute path runs forever. -/
inductive Fault
  | raised (error : ChangesetError)
  | diverges
  deriving DecidableEq, Repr

/-- `NormalizedEntry`: one final path entry. -/
structure NormalizedEntry (π : Type) where
  path : RelPath
  kind : EntryKind
  size : ℕ
  mode : ℕ
  uid : ℕ
  gid : ℕ
  mtime : ℕ
  linkTarget : Text
  deviceMajor : ℕ
  deviceMinor : ℕ
  xattrs : List (Text × Text)
  payload : Option π
  isOpaque : Bool
  synthetic : Bool
  sourceOrdinal : Option ℕ

/-- `_Node`: what the table holds at a path. -/
structure Node (π : Type) where
  member : ChangesetMember π
  kind : EntryKind
  groupId : Option ℕ := none
  pendingTarget : Option Text := none
  isOpaque : Bool := false
  opaquePlaceholder : Bool := false
  synthetic : Bool := false

variable {π : Type}

/-- `_synthetic_directory`. -/
def syntheticDirectory (path : RelPath) (mtime ordinal : ℕ) : ChangesetMember π where
  ordinal := ordinal
  path := path.text
  kind := .directory
  size := 0
  mode := 0o755
  uid := 0
  gid := 0
  mtime := mtime
  linkTarget := []
  deviceMajor := 0
  deviceMinor := 0
  xattrs := []
  payload := none
  path_ne_nil := path.ne_nil
  payload_isSome := by simp

/-- The member that a whiteout marker leaves at the path it names. -/
def whiteoutMember (m : ChangesetMember π) (target : RelPath) : ChangesetMember π where
  ordinal := m.ordinal
  path := target.text
  kind := .whiteout
  size := m.size
  mode := 0o600
  uid := 0
  gid := 0
  mtime := m.mtime
  linkTarget := []
  deviceMajor := 0
  deviceMinor := 0
  xattrs := []
  payload := none
  path_ne_nil := target.ne_nil
  payload_isSome := by simp

/-- The name of an opaque marker. -/
def opaqueName : Text := ".wh..wh..opq".toList

/-- What the name of every marker starts with. -/
def whiteoutStart : Text := ".wh.".toList

/-- What a member asks of the reducer, read off its path and kind alone. -/
inductive Action
  /-- Make a directory opaque. -/
  | opq (dir : RelPath)
  /-- Remove whatever lies at or below a path. -/
  | whiteout (target : RelPath)
  /-- Put the member at its own path. -/
  | place (path : RelPath)
  deriving DecidableEq

/-- A key for a path, where the walk upwards from it ends. -/
def keyOf (t : Text) : Except Fault RelPath :=
  match RelPath.ofText? t with
  | some p => .ok p
  | none => .error .diverges

/-- `os.path.dirname(path) or "."` -/
def parentText (path : Text) : Text :=
  if PosixPath.dirname path = [] then ['.'] else PosixPath.dirname path

/-- The path an ordinary whiteout marker names. -/
def whiteoutTargetText (path : Text) : Text :=
  let targetName := (PosixPath.basename path).drop whiteoutStart.length
  if parentText path = ['.'] then targetName else PosixPath.join (parentText path) targetName

/-- The checks on a member's name and marker metadata that come before it touches
the table. -/
def classify (m : ChangesetMember π) : Except Fault Action :=
  let basename := PosixPath.basename m.path
  if basename = opaqueName then
    if m.kind ≠ .file ∨ m.size ≠ 0 ∨ m.xattrs ≠ [] then
      .error (.raised (.whiteoutMarker true))
    else do
      .ok (.opq (← keyOf (parentText m.path)))
  else if whiteoutStart.isPrefixOf basename then
    let targetName := basename.drop whiteoutStart.length
    if targetName = [] ∨ targetName = ".".toList ∨ targetName = "..".toList ∨
        whiteoutStart.isPrefixOf targetName then
      .error (.raised .whiteoutTarget)
    else if m.kind ≠ .file ∨ m.size ≠ 0 ∨ m.xattrs ≠ [] then
      .error (.raised (.whiteoutMarker false))
    else do
      .ok (.whiteout (← keyOf (whiteoutTargetText m.path)))
  else do
    .ok (.place (← keyOf m.path))

/-! ### What a classified member looks like -/

theorem text_of_keyOf {t : Text} {p : RelPath} (h : keyOf t = .ok p) : p.text = t := by
  rw [keyOf] at h
  split at h
  · rename_i q hq
    rw [← Except.ok.inj h]
    exact RelPath.text_of_ofText? hq
  · cases h

theorem bind_keyOf {t : Text} {f : RelPath → Action} {a : Action}
    (h : (keyOf t >>= fun p => .ok (f p)) = .ok a) : ∃ p, p.text = t ∧ a = f p := by
  cases hk : keyOf t with
  | error e => rw [hk] at h; cases h
  | ok p =>
    rw [hk] at h
    exact ⟨p, text_of_keyOf hk, (Except.ok.inj h).symm⟩

/-- **What the action of a member says of its path.** -/
theorem classify_cases {m : ChangesetMember π} {a : Action} (h : classify m = .ok a) :
    (∃ d, a = .opq d ∧ d.text = parentText m.path ∧ m.kind = .file) ∨
      (∃ t, a = .whiteout t ∧ t.text = whiteoutTargetText m.path ∧ m.kind = .file ∧
        (PosixPath.basename m.path).drop whiteoutStart.length ≠ [] ∧
        (PosixPath.basename m.path).drop whiteoutStart.length ≠ ".".toList) ∨
      ∃ p, a = .place p ∧ p.text = m.path := by
  rw [classify] at h
  dsimp only at h
  split at h
  · split at h
    · cases h
    · rename_i hmark
      obtain ⟨d, hd, rfl⟩ := bind_keyOf h
      exact Or.inl ⟨d, rfl, hd, by_contra fun hk => hmark (Or.inl hk)⟩
  · split at h
    · split at h
      · cases h
      · rename_i hname
        split at h
        · cases h
        · rename_i hmark
          obtain ⟨t, ht, rfl⟩ := bind_keyOf h
          exact Or.inr (Or.inl ⟨t, rfl, ht, by_contra fun hk => hmark (Or.inl hk),
            fun hn => hname (Or.inl hn), fun hn => hname (Or.inr (Or.inl hn))⟩)
    · obtain ⟨p, hp, rfl⟩ := bind_keyOf h
      exact Or.inr (Or.inr ⟨p, rfl, hp⟩)

theorem path_of_place {m : ChangesetMember π} {p : RelPath} (h : classify m = .ok (.place p)) :
    p.text = m.path := by
  rcases classify_cases h with ⟨d, hd, -⟩ | ⟨t, ht, -⟩ | ⟨q, hq, hp⟩
  · cases hd
  · cases ht
  · obtain rfl : p = q := by simpa using hq
    exact hp

/-- No whiteout names the archive root. -/
theorem whiteout_ne_dot {m : ChangesetMember π} {t : RelPath}
    (h : classify m = .ok (.whiteout t)) : t ≠ RelPath.dot := by
  rcases classify_cases h with ⟨d, hd, -⟩ | ⟨s, hs, htext, -, hnil, hdot⟩ | ⟨q, hq, -⟩
  · cases hd
  · obtain rfl : t = s := by simpa using hs
    rintro rfl
    rw [whiteoutTargetText] at htext
    set name := (PosixPath.basename m.path).drop whiteoutStart.length with hname
    split at htext
    · exact hdot htext.symm
    -- A path with a directory in front is longer than `.`.
    · have hlen := congrArg List.length htext
      have hpos := List.length_pos_of_ne_nil hnil
      rw [PosixPath.join] at htext hlen
      split at htext
      · exact hdot htext.symm
      · rename_i hparent habs
        have hpar : 0 < (parentText m.path).length := by
          refine List.length_pos_of_ne_nil fun hcon => ?_
          rw [parentText] at hcon
          split at hcon
          · cases hcon
          · rename_i hd
            exact hd hcon
        rw [if_neg habs] at hlen
        split at hlen
        · rw [List.length_append] at hlen
          simp only [RelPath.dot, List.length_singleton] at hlen
          omega
        · rw [List.length_append, List.length_cons] at hlen
          simp only [RelPath.dot, List.length_singleton] at hlen
          omega
  · cases hq

/-! ### Bare members -/

/-- A member with no metadata and the unit payload, to build small archives of. -/
def bareMember (ordinal : ℕ) (path : String) (kind : EntryKind) (linkTarget : String)
    (h : path.toList ≠ [] := by decide) : ChangesetMember Unit where
  ordinal := ordinal
  path := path.toList
  kind := kind
  size := 0
  mode := 0o644
  uid := 0
  gid := 0
  mtime := 0
  linkTarget := linkTarget.toList
  deviceMajor := 0
  deviceMinor := 0
  xattrs := []
  payload := if kind = .file then some () else none
  path_ne_nil := h
  payload_isSome := by split <;> simp [*]

end Palimpsest
