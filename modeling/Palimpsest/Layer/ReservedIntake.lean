import Palimpsest.Changeset.MemberNames
import Palimpsest.Layer.ScanAccounts
import Palimpsest.Layer.Translate

/-!
# Reserved names at the intake

Both intakes of layers refuse a member whose own path is in the reserved tree, and look at the
name of a whiteout marker. Neither looks at the directories of a member, and only the scanner
looks at the path that a whiteout names. What of the reserved names can still reach a layer is
told by the names in the archive, those of the headers (`Palimpsest.Layer.unreserved_scanTar`) and
those that `tarfile` reads (`Palimpsest.Layer.unreserved_translateTar`).
-/

namespace Palimpsest.Layer

open Control (encodeUtf8)
open PosixPath (parts ofParts parts_ofParts isName_of_mem_parts normpath_eq_ofParts isAbs_normpath)

/-! ### The scanner -/

section Scanner

variable {limits : LayerConversionLimits} {archive : Bytes} {s : Scan} {out : ScanResult}

/-- What the source refuses as reserved. -/
theorem isPalimpsest_eq_false {path : Text}
    (h : ¬(path = ".palimpsest".toList ∨ ".palimpsest/".toList.isPrefixOf path)) :
    isPalimpsest path = false := by
  have hslash : ".palimpsest/".toList = palimpsestName ++ ['/'] := by decide
  rw [not_or, hslash] at h
  rw [isPalimpsest, Bool.or_eq_false_iff]
  exact ⟨decide_eq_false h.1, Bool.eq_false_iff.mpr h.2⟩

/-- No path that the scanner accepts is in the reserved tree. -/
theorem isPalimpsest_validatePath {path : Text} {limit : ℕ} {p : RelPath}
    (h : validatePath path limit = .ok p) : isPalimpsest p.text = false := by
  have hdot : isPalimpsest RelPath.dot.text = false := by decide
  rw [validatePath] at h
  obtain ⟨-, h⟩ := of_guard h
  split_ifs at h
  · exact Except.ok.inj h ▸ hdot
  · cases h
  · dsimp only at h
    split at h
    · cases h
    · next q hq =>
      split_ifs at h with hdots _ hreserved
      · exact Except.ok.inj h ▸ hdot
      · cases h
      · cases h
      · rw [← Except.ok.inj h, RelPath.text_of_ofText? hq]
        exact isPalimpsest_eq_false hreserved

/-- The scanner accepts the reserved tree under neither spelling of it. -/
theorem validatePath_palimpsest {path : Text} {limit : ℕ} {p : RelPath}
    (hpath : path = palimpsestName ∨ path = '.' :: '/' :: palimpsestName) :
    validatePath path limit ≠ .ok p := by
  intro h
  rw [validatePath] at h
  obtain ⟨-, h⟩ := of_guard h
  -- the limit has no say in it beyond the length
  have hrefused : (validatePath path 100).toOption = none := by
    rcases hpath with rfl | rfl <;> decide
  have hshort : ¬100 < (encodeUtf8 path).length := by
    rcases hpath with rfl | rfl <;> decide
  rw [validatePath, if_neg hshort, h] at hrefused
  cases hrefused

/-- What the scanner accepts is the normal form of what it is given. -/
theorem text_of_validatePath {path : Text} {limit : ℕ} {p : RelPath}
    (h : validatePath path limit = .ok p) : p.text = ofParts (parts path) := by
  rw [validatePath] at h
  obtain ⟨-, h⟩ := of_guard h
  split_ifs at h with hdot hunsafe
  · obtain rfl := Except.ok.inj h
    rcases hdot with rfl | rfl <;> decide
  · cases h
  · dsimp only at h
    split at h
    · cases h
    · next q hq =>
      have hrel : PosixPath.isAbs path = false := by
        by_contra hcon
        have habs := isAbs_normpath (eq_true_of_ne_false hcon)
        rw [← RelPath.text_of_ofText? hq, q.rel] at habs
        cases habs
      rw [← normpath_eq_ofParts hrel (not_or.mp hunsafe).2]
      split_ifs at h with hdots hroot hreserved
      · rw [← Except.ok.inj h, hroot.1]
        rfl
      · cases h
      · cases h
      · rw [← Except.ok.inj h, RelPath.text_of_ofText? hq]

/-- The names in it are those of what it is given. -/
theorem parts_of_validatePath {path : Text} {limit : ℕ} {p : RelPath}
    (h : validatePath path limit = .ok p) : parts p.text = parts path := by
  rw [text_of_validatePath h, parts_ofParts fun comp hcomp => isName_of_mem_parts hcomp]

/-- **No whiteout that the scanner accepts names the reserved tree.** -/
theorem whiteout_ne_palimpsest {m : ChangesetMember ℕ} {p t : RelPath} (hpath : m.path = p.text)
    (hcheck : checkWhiteout p limits = .ok ()) (ht : classify m = .ok (.whiteout t)) :
    t.text ≠ palimpsestName := by
  intro hname
  have hmarker : whiteoutStart.isPrefixOf (PosixPath.basename m.path) = true ∧
      PosixPath.basename m.path ≠ opaqueName := by
    rw [classify] at ht
    dsimp only at ht
    split at ht
    · split at ht
      · cases ht
      · obtain ⟨d, -, hd⟩ := bind_keyOf ht
        cases hd
    · next hopaque =>
      split at ht
      · next hstart => exact ⟨hstart, hopaque⟩
      · obtain ⟨d, -, hd⟩ := bind_keyOf ht
        cases hd
  have htext : t.text = whiteoutTargetText m.path := by
    rcases classify_cases ht with ⟨d, hd, -⟩ | ⟨s, hs, htext, -⟩ | ⟨q, hq, -⟩
    · cases hd
    · cases hs
      exact htext
    · cases hq
  rw [hpath] at hmarker htext
  rw [checkWhiteout, if_pos hmarker] at hcheck
  obtain ⟨-, hcheck⟩ := of_guard hcheck
  obtain ⟨target, htarget, -⟩ := Results.bind_eq_ok.mp hcheck
  -- The scanner validates the target as a path of its own, and that refuses the reserved tree.
  refine validatePath_palimpsest ?_ htarget
  rw [hname, whiteoutTargetText, parentText] at htext
  by_cases hparent : PosixPath.dirname p.text = []
  · rw [if_pos hparent, if_pos rfl] at htext
    rw [if_pos hparent]
    exact Or.inl htext.symm
  · rw [if_neg hparent] at htext ⊢
    split_ifs at htext with hdot
    · rw [hdot, ← htext]
      exact Or.inr (by decide)
    · exact Or.inl htext.symm

theorem normalized_of_finishScan (h : finishScan archive s = .ok out) :
    normalizeChangeset (s.members.map PhysicalLayerMember.common) = .ok out.normalized ∧
      out.members = s.members := by
  obtain ⟨-, h⟩ := of_guard h
  obtain ⟨-, h⟩ := of_guard h
  obtain ⟨-, h⟩ := of_guard h
  split at h
  · cases h
  · cases h
  · next hok =>
    obtain rfl := Except.ok.inj h
    exact ⟨hok, rfl⟩

/-- What the scanner returns is what the reducer makes of its members. -/
theorem normalized_of_scanTar (h : scanTar limits archive = .ok out) :
    normalizeChangeset (out.members.map PhysicalLayerMember.common) = .ok out.normalized := by
  rw [scanTar] at h
  obtain ⟨-, h⟩ := of_guard h
  obtain ⟨records, t, -, -, hfinish⟩ := scanFrom_underway Underway.start h
  obtain ⟨hnormalized, hmembers⟩ := normalized_of_finishScan hfinish
  exact hmembers ▸ hnormalized

/-- The name of the member of a record. -/
def Record.memberName (archive : Bytes) (before : List Record) (r : Record) : MemberName :=
  ⟨parts (r.ownName archive before), kindOf (typeFlag (r.header archive)) = some .directory⟩

/-- The names of the members among some records, which stand behind others. -/
def namesFrom (archive : Bytes) : List Record → List Record → List MemberName
  | _, [] => []
  | before, r :: records =>
    (if r.member?.isSome then [r.memberName archive before] else []) ++
      namesFrom archive (before ++ [r]) records

/-- The names that the headers of an archive give to its members. -/
def headerNames (archive : Bytes) (records : List Record) : List MemberName :=
  namesFrom archive [] records

/-- The members that the scanner hands to the reducer have the names of the headers. -/
theorem namesFrom_eq {before records : List Record}
    (h : Throughout (Record.Named limits archive) (before ++ records)) :
    (membersOf records).map (fun m => m.common.name) = namesFrom archive before records := by
  induction records generalizing before with
  | nil => rfl
  | cons r records ih =>
    have hnamed := h before r records rfl
    rw [← List.singleton_append, ← List.append_assoc] at h
    have ih := ih h
    obtain ⟨offset, size, content⟩ := r
    cases content with
    | extension x => exact ih
    | member m =>
      obtain ⟨hpath, -, hkind, -⟩ := hnamed m rfl
      have hname : m.common.name = Record.memberName archive before ⟨offset, size, .member m⟩ := by
        have hdirectory : decide (some m.kind = some EntryKind.directory) =
            decide (m.kind = .directory) := decide_eq_decide.mpr Option.some_inj
        rw [Record.memberName, hkind, hdirectory, ← parts_of_validatePath hpath]
        rfl
      rw [namesFrom, ← ih, ← hname]
      rfl

/-- The records of an archive that the scanner accepts say the names of its members, and the
scanner has checked these. -/
theorem exists_named (h : scanTar limits archive = .ok out) :
    ∃ records trailer, Accounts limits archive records trailer out ∧
      Throughout (Record.Named limits archive) records := by
  rw [scanTar] at h
  obtain ⟨-, h⟩ := of_guard h
  obtain ⟨records, s, hs, hzero, hout⟩ := scanFrom_underway Underway.start h
  exact ⟨records, _, hs.accounts hzero hout, hs.names⟩

/-- A member of a record that the scanner has read. -/
theorem named_of_mem {records : List Record} {m : PhysicalLayerMember}
    (h : Throughout (Record.Named limits archive) records) (hm : m ∈ membersOf records) :
    m.common.Plain ∧ checkWhiteout m.path limits = .ok () := by
  obtain ⟨r, hr, hmember⟩ := List.mem_filterMap.mp hm
  obtain ⟨before, after, rfl⟩ := List.append_of_mem hr
  obtain ⟨offset, size, content⟩ := r
  cases content with
  | extension x => cases hmember
  | member m' =>
    obtain rfl := Option.some.inj hmember
    obtain ⟨hpath, hwhiteout, -, hroot⟩ := h before _ after rfl m' rfl
    refine ⟨⟨?_, fun hnil => hroot (RelPath.ext_text ?_), isPalimpsest_validatePath hpath⟩,
      hwhiteout⟩
    · change m'.path.text = ofParts (parts m'.path.text)
      rw [parts_of_validatePath hpath, text_of_validatePath hpath]
    · have hnil : parts m'.path.text = [] := hnil
      rw [text_of_validatePath hpath, ← parts_of_validatePath hpath, hnil]
      rfl

/-- **When no reserved name reaches the layer of the converter**: no directory on the way to a
member is left whose name starts like a marker's. -/
theorem unreserved_scanTar (h : scanTar limits archive = .ok out) :
    ∃ records trailer, Accounts limits archive records trailer out ∧
      ((∀ e ∈ out.normalized, isReserved e.path.text = false) ↔
        ¬MarkedDirectoryStays (headerNames archive records)) := by
  obtain ⟨records, trailer, haccounts, hnamed⟩ := exists_named h
  refine ⟨records, trailer, haccounts, ?_⟩
  have hnames : headerNames archive records =
      (out.members.map PhysicalLayerMember.common).map ChangesetMember.name := by
    rw [headerNames, ← namesFrom_eq hnamed, haccounts.members, List.map_map]
    rfl
  have hmember : ∀ m ∈ out.members.map PhysicalLayerMember.common, m.Plain ∧
      ∀ t, classify m = .ok (.whiteout t) → t.text ≠ palimpsestName := by
    intro m hm
    obtain ⟨physical, hphysical, rfl⟩ := List.mem_map.mp hm
    rw [haccounts.members] at hphysical
    obtain ⟨hplain, hcheck⟩ := named_of_mem hnamed hphysical
    exact ⟨hplain, fun t ht => whiteout_ne_palimpsest rfl hcheck ht⟩
  rw [hnames]
  exact unreserved_iff_directories (normalized_of_scanTar h) (fun m hm => (hmember m hm).1)
    fun m hm => (hmember m hm).2

end Scanner

/-! ### The translator -/

section Translator

variable {limits : TarTranslationLimits} {archive : Bytes} {t : Translation}
  {tarfile : Bytes → Option (List (Option TarInfo))}

/-- What the translator accepts is the normal form of what it is given, and not in the reserved
tree. -/
theorem path_of_validateTarPath {path q : Text} (h : validateTarPath path = .ok q) :
    q = ofParts (parts path) ∧ isPalimpsest q = false := by
  rw [validateTarPath] at h
  split_ifs at h with hdot hdots
  · obtain rfl := Except.ok.inj h
    rcases hdot with rfl | rfl <;> decide
  · cases h
  · dsimp only at h
    split_ifs at h with hunsafe hreserved
    · cases h
    · cases h
    · have hrel : PosixPath.isAbs path = false := by
        by_contra hcon
        exact hunsafe (Or.inl (of_decide_eq_true (isAbs_normpath (eq_true_of_ne_false hcon))))
      rw [← Except.ok.inj h]
      exact ⟨normpath_eq_ofParts hrel hdots, isPalimpsest_eq_false hreserved⟩

/-- What follows a check that may be left out. -/
theorem of_check {α : Type} {p : Prop} [Decidable p] {x : Except TranslationFault Unit}
    {f : Unit → Except TranslationFault α} {a : α}
    (h : (if p then x >>= f else f ()) = .ok a) : f () = .ok a := by
  by_cases hp : p
  · rw [if_pos hp] at h
    obtain ⟨_, -, h⟩ := Results.bind_eq_ok.mp h
    exact h
  · rwa [if_neg hp] at h

/-- What a check lets through does not fail it. -/
theorem not_of_check {α : Type} {p : Prop} [Decidable p] {message : String}
    {f : Unit → Except TranslationFault α} {a : α}
    (h : (if p then invalid message >>= f else f ()) = .ok a) : ¬p := by
  intro hp
  rw [if_pos hp] at h
  cases h

/-- The path and the kind of a member are those that it is made with. -/
theorem path_of_changesetMember {ordinal : ℕ} {path : Text} {kind : EntryKind} {info : TarInfo}
    {linkTarget : Text} {xattrs : List (Text × Text)} {content : Bytes} {m : ChangesetMember Bytes}
    (h : changesetMember ordinal path kind info linkTarget xattrs content = .ok m) :
    m.path = path ∧ m.kind = kind := by
  rw [changesetMember] at h
  by_cases hnil : path = []
  · rw [dif_pos hnil] at h
    cases h
  · rw [dif_neg hnil] at h
    obtain ⟨-, h⟩ := Results.guard_eq_ok.mp h
    rw [← Except.ok.inj h]
    exact ⟨rfl, rfl⟩

/-- The name that `tarfile` reads of a member. -/
def TarInfo.memberName (info : TarInfo) : MemberName :=
  ⟨parts (info.name.getD []), info.type = .directory⟩

/-- The names that `tarfile` reads of an archive. -/
def readNames (infos : List (Option TarInfo)) : List MemberName :=
  infos.filterMap fun info => info.map TarInfo.memberName

theorem kind?_eq_directory {type : TarType} {kind : EntryKind} (h : type.kind? = some kind) :
    kind = .directory ↔ type = .directory := by
  cases type with
  | directory =>
    obtain rfl := Option.some.inj h
    exact iff_of_true rfl rfl
  | other => cases h
  | regular | hardlink | symlink | char | block | fifo =>
    obtain rfl := Option.some.inj h
    exact iff_of_false EntryKind.noConfusion TarType.noConfusion

/-- The translator hands on the name that `tarfile` reads. -/
theorem name_of_translateMember {ordinal total total' : ℕ} {info : TarInfo}
    {m : ChangesetMember Bytes}
    (h : translateMember limits ordinal total info = .ok (m, total')) :
    m.Plain ∧ m.name = info.memberName := by
  rw [translateMember] at h
  have h := of_check h
  obtain ⟨name, hname, h⟩ := Results.bind_eq_ok.mp h
  have h := of_check h
  obtain ⟨path, hpath, h⟩ := Results.bind_eq_ok.mp h
  obtain ⟨_, -, h⟩ := Results.bind_eq_ok.mp h
  have h := of_check h
  obtain ⟨regular, -, h⟩ := Results.bind_eq_ok.mp h
  obtain ⟨linkTarget, -, h⟩ := Results.bind_eq_ok.mp h
  split at h
  · next kind hkind =>
    have h := of_check h
    obtain ⟨paxHeaders, -, h⟩ := Results.bind_eq_ok.mp h
    have h := of_check h
    -- Of the checks only two matter here: the root is a directory, and the path passes.
    have hroot := not_of_check h
    have h := of_check h
    obtain ⟨_, -, h⟩ := Results.bind_eq_ok.mp h
    obtain ⟨content, -, h⟩ := Results.bind_eq_ok.mp h
    obtain ⟨member, hmember, h⟩ := Results.bind_eq_ok.mp h
    obtain rfl := congrArg Prod.fst (Except.ok.inj h)
    obtain ⟨hmpath, hmkind⟩ := path_of_changesetMember hmember
    obtain ⟨hnormal, hunreserved⟩ := path_of_validateTarPath hpath
    have hparts : parts path = parts name := by
      rw [hnormal, parts_ofParts fun comp hcomp => isName_of_mem_parts hcomp]
    have hread : info.name = some name := by
      cases hsome : info.name with
      | none =>
        rw [hsome] at hname
        cases hname
      | some text =>
        rw [hsome] at hname
        rw [Except.ok.inj hname]
    refine ⟨⟨?_, fun hnil => ?_, hmpath ▸ hunreserved⟩, ?_⟩
    · rw [hmpath, hparts, hnormal]
    · rw [hmpath] at hnil
      rw [hparts] at hnil
      rw [hmkind]
      by_contra hne
      refine hroot ⟨?_, hne⟩
      rw [hnormal, hnil]
      rfl
    · rw [ChangesetMember.name, TarInfo.memberName, hmpath, hparts, hread, hmkind]
      simp only [Option.getD_some, kind?_eq_directory hkind]
  · cases h

/-- So it does with all members. -/
theorem names_of_translateFrom {infos : List (Option TarInfo)} {total : ℕ}
    {members all : List (ChangesetMember Bytes)}
    (h : translateFrom limits infos members total = .ok all) (hmembers : ∀ m ∈ members, m.Plain) :
    (∀ m ∈ all, m.Plain) ∧
      all.map ChangesetMember.name = members.map ChangesetMember.name ++ readNames infos := by
  induction infos generalizing members total with
  | nil =>
    obtain rfl := Except.ok.inj h
    exact ⟨hmembers, (List.append_nil _).symm⟩
  | cons info infos ih =>
    cases info with
    | none => cases h
    | some info =>
      obtain ⟨⟨member, total'⟩, hmember, h⟩ := Results.bind_eq_ok.mp h
      obtain ⟨hplain, hname⟩ := name_of_translateMember hmember
      have hconcat : ∀ m ∈ members ++ [member], m.Plain :=
        List.forall_mem_append.mpr ⟨hmembers, List.forall_mem_singleton.mpr hplain⟩
      obtain ⟨hall, hnames⟩ := ih h hconcat
      refine ⟨hall, ?_⟩
      rw [hnames, List.map_append, List.map_singleton, hname, List.append_assoc]
      rfl

/-- **When no reserved name reaches the layer of the translator**: no directory on the way to a
member is left whose name starts like a marker's, and no whiteout of the reserved tree is. -/
theorem unreserved_translateTar (h : translateTar tarfile limits archive = .ok t) :
    ∃ infos, tarfile archive = some infos ∧
      ((∀ e ∈ t.normalized, isReserved e.path.text = false) ↔
        ¬MarkedDirectoryStays (readNames infos) ∧ ¬ReservedWhiteoutStays (readNames infos)) := by
  rw [translateTar] at h
  have h := of_check h
  obtain ⟨_, -, h⟩ := Results.bind_eq_ok.mp h
  split at h
  · cases h
  · next infos hinfos =>
    obtain ⟨members, hmembers, h⟩ := Results.bind_eq_ok.mp h
    split at h
    · cases h
    · cases h
    · next hnormalized =>
      obtain rfl := Except.ok.inj h
      obtain ⟨hplain, hnames⟩ := names_of_translateFrom hmembers (List.forall_mem_nil _)
      rw [List.map_nil, List.nil_append] at hnames
      refine ⟨infos, hinfos, ?_⟩
      rw [← hnames]
      exact unreserved_iff_names hnormalized hplain

end Translator

/-! ### Both intakes -/

/-- **When no reserved name reaches a layer**, over both intakes, by the names in the archive: no
name may go through a directory whose own name starts like a marker's, unless a later member
removes a directory above that one. The translator, which does not look at the path that a
whiteout names, must not be left a whiteout of the reserved tree either. -/
theorem intake_unreserved_iff (archive : Bytes) :
    (∀ limits out, scanTar limits archive = .ok out →
      ∃ records trailer, Accounts limits archive records trailer out ∧
        ((∀ e ∈ out.normalized, isReserved e.path.text = false) ↔
          ¬MarkedDirectoryStays (headerNames archive records))) ∧
      ∀ tarfile limits t, translateTar tarfile limits archive = .ok t →
        ∃ infos, tarfile archive = some infos ∧
          ((∀ e ∈ t.normalized, isReserved e.path.text = false) ↔
            ¬MarkedDirectoryStays (readNames infos) ∧ ¬ReservedWhiteoutStays (readNames infos)) :=
  ⟨fun _ _ h => unreserved_scanTar h, fun _ _ _ h => unreserved_translateTar h⟩

/-! ### Two archives -/

/-- An archive with one empty file. -/
def oneFile (name : String) : Bytes := headerOf name "0" 48 ++ List.replicate (2 * block) 0

/-- The file in it, as `tarfile` reads it. -/
def oneFileInfo (name : String) : TarInfo where
  name := some name.toList
  type := .regular
  size := 0
  mode := 0
  uid := 0
  gid := 0
  mtime := some 0
  linkname := some []
  devmajor := 0
  devminor := 0
  sparse := false
  paxHeaders := []
  payload := some []

/-- The paths of the layer that the scanner makes of an archive. -/
def scannedPaths (archive : Bytes) : Option (List Text) :=
  (scanTar {} archive).toOption.map fun out => out.normalized.map fun e => e.path.text

/-- The paths of the layer that the translator makes of an archive with one file. -/
def translatedPaths (name : String) : Option (List Text) :=
  (translateTar (fun _ => some [some (oneFileInfo name)]) {} (oneFile name)).toOption.map
    fun t => t.normalized.map fun e => e.path.text

/-- **Reserved names do reach a layer**: a file below a directory with a marker's name brings that
directory with it in both intakes, and the translator takes a whiteout of the reserved tree. -/
theorem reserved_reaches :
    scannedPaths (oneFile ".wh.a/b") = some [".".toList, ".wh.a".toList, ".wh.a/b".toList] ∧
      translatedPaths ".wh.a/b" = some [".".toList, ".wh.a".toList, ".wh.a/b".toList] ∧
      translatedPaths ".wh..palimpsest" = some [".".toList, ".palimpsest".toList] ∧
      hasMarker ".wh.a".toList = true ∧ hasMarker ".wh.a/b".toList = true ∧
      isPalimpsest ".palimpsest".toList = true := by
  decide +kernel

/-- Both intakes accept a file of an ordinary name, and what they make of it is told by the
names. -/
theorem intake_unreserved_plain :
    (∃ out, scanTar {} (oneFile "a") = .ok out ∧
      ∃ records trailer, Accounts {} (oneFile "a") records trailer out ∧
        ((∀ e ∈ out.normalized, isReserved e.path.text = false) ↔
          ¬MarkedDirectoryStays (headerNames (oneFile "a") records))) ∧
      ∃ t, translateTar (fun _ => some [some (oneFileInfo "a")]) {} (oneFile "a") = .ok t ∧
        ∃ infos, some [some (oneFileInfo "a")] = some infos ∧
          ((∀ e ∈ t.normalized, isReserved e.path.text = false) ↔
            ¬MarkedDirectoryStays (readNames infos) ∧
              ¬ReservedWhiteoutStays (readNames infos)) := by
  constructor
  · have hok : (scanTar {} (oneFile "a")).isOk = true := by decide +kernel
    cases h : scanTar {} (oneFile "a") with
    | error fault =>
      rw [h] at hok
      cases hok
    | ok out => exact ⟨out, rfl, (intake_unreserved_iff (oneFile "a")).1 {} out h⟩
  · set tarfile : Bytes → Option (List (Option TarInfo)) := fun _ => some [some (oneFileInfo "a")]
    have hok : (translateTar tarfile {} (oneFile "a")).isOk = true := by decide +kernel
    cases h : translateTar tarfile {} (oneFile "a") with
    | error fault =>
      rw [h] at hok
      cases hok
    | ok t => exact ⟨t, rfl, (intake_unreserved_iff (oneFile "a")).2 tarfile {} t h⟩

end Palimpsest.Layer
