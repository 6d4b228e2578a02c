import Palimpsest.Layer.ScanEnds
import Palimpsest.Lib.Segments
import Palimpsest.Lib.Throughout

/-!
# The records of an archive

An archive that the scanner accepts is a row of records, each a header with its data area,
and a trailer of zeros behind them. This file says what such a row is
(`Palimpsest.Layer.Record.ReadFrom`): which records are in force for a member, and which
extension headers belong to it, the ones since the member before. The loop reads one more
record each round (`Palimpsest.Layer.Underway.step`).
-/

namespace Palimpsest.Layer

variable {limits : LayerConversionLimits} {archive : Bytes} {s t : Scan}

/-- What a physical header is for. -/
inductive Content
  | extension (x : Extension)
  | member (m : PhysicalLayerMember)

/-- A physical header, with the size of what follows it. -/
structure Record where
  offset : ℕ
  size : ℕ
  content : Content

variable {records : List Record}

namespace Record

/-- The header block of a record. -/
def headerArea (r : Record) : Segment := ⟨r.offset, block⟩

/-- The blocks that hold the payload of a record. -/
def dataArea (r : Record) : Segment := ⟨r.offset + block, padded r.size⟩

/-- The blocks of a record. -/
def areas (r : Record) : List Segment := [r.headerArea, r.dataArea]

/-- The header block itself. -/
def header (archive : Bytes) (r : Record) : Bytes := (archive.drop r.offset).take block

def member? (r : Record) : Option PhysicalLayerMember :=
  match r.content with
  | .extension _ => none
  | .member m => some m

def extension? (r : Record) : Option Extension :=
  match r.content with
  | .extension x => some x
  | .member _ => none

/-- The payload binding of a record that is a regular file. -/
def binding? (archive : Bytes) (r : Record) : Option RegularPayloadBinding :=
  r.member?.bind (·.binding archive r.offset)

/-- The bytes of extension metadata in a record. -/
def metadataBytes (r : Record) : ℕ := if r.member?.isSome then 0 else r.size

end Record

/-! ### What is in force for a member -/

namespace Extension

def globalPax? : Extension → Option Pax
  | globalPax records => some records
  | _ => none

def localPax? : Extension → Option Pax
  | localPax records => some records
  | _ => none

def longName? : Extension → Option Text
  | longName text => some text
  | _ => none

def longLink? : Extension → Option Text
  | longLink text => some text
  | _ => none

end Extension

/-- The members among some records. -/
def membersOf (records : List Record) : List PhysicalLayerMember := records.filterMap Record.member?

/-- The global records after some headers: each global header adds its own. -/
def globalsOf (records : List Record) : Pax :=
  ((records.filterMap Record.extension?).filterMap Extension.globalPax?).foldl Pax.update []

/-- The extension headers since the last member. -/
def sinceMember (records : List Record) : List Extension :=
  (records.rtakeWhile fun r => r.member?.isNone).filterMap Record.extension?

/-- What extension headers of one sort leave for the next member: nothing when there is
none, and what the header says when there is one. -/
def Leaves {α : Type} (said : List α) (left : Option α) : Prop :=
  (said = [] → left = none) ∧ ∀ a, said = [a] → left = some a

/-- What the record of a header says of the records before it. -/
def Record.ReadFrom (limits : LayerConversionLimits) (archive : Bytes) (before : List Record)
    (r : Record) : Prop :=
  r.header archive ≠ zeroBlock ∧ checkHeader (r.header archive) = .ok () ∧
    match r.content with
    | .extension x =>
      x.flag = typeFlag (r.header archive) ∧
        tarNumber (slice (r.header archive) 124 136) "member size" = .ok r.size ∧
        x.ReadFrom (payloadAt archive r.offset r.size) ∧
        r.size ≤ limits.maxMetadataBytesPerHeader ∧
        (x.localPax?.isSome → (sinceMember before).filterMap Extension.localPax? = [])
    | .member m =>
      isExtension (typeFlag (r.header archive)) = false ∧
        m.ordinal = (membersOf before).length ∧ m.size = r.size ∧
        m.xattrBytes ≤ limits.maxXattrBytesPerMember ∧
        ∃ localPax longName longLink,
          Leaves ((sinceMember before).filterMap Extension.localPax?) localPax ∧
          Leaves ((sinceMember before).filterMap Extension.longName?) longName ∧
          Leaves ((sinceMember before).filterMap Extension.longLink?) longLink ∧
          m.ReadFrom limits (r.header archive) ((globalsOf before).update (localPax.getD []))
            longName longLink

/-- The name that the headers give to a member: that of the local or global records, else that of
the last long name since the member before, else that of its own fields. -/
def Record.ownName (archive : Bytes) (before : List Record) (r : Record) : Text :=
  let localPax := ((sinceMember before).filterMap Extension.localPax?).getLast?
  let longName := ((sinceMember before).filterMap Extension.longName?).getLast?
  (((globalsOf before).update (localPax.getD [])).get "path").getD
    (longName.getD (fieldName (r.header archive)))

/-- What the scanner makes of that name. -/
def Record.Named (limits : LayerConversionLimits) (archive : Bytes) (before : List Record)
    (r : Record) : Prop :=
  ∀ m, r.content = .member m →
    validatePath (r.ownName archive before) limits.maxPathBytes = .ok m.path ∧
      checkWhiteout m.path limits = .ok () ∧ kindOf (typeFlag (r.header archive)) = some m.kind ∧
        (m.path = .dot → m.kind = .directory)

/-! ### One more record -/

section Concat

theorem membersOf_extension {offset size : ℕ} {x : Extension} :
    membersOf (records ++ [⟨offset, size, .extension x⟩]) = membersOf records := by
  rw [membersOf, List.filterMap_append]
  exact List.append_nil _

theorem membersOf_member {offset size : ℕ} {m : PhysicalLayerMember} :
    membersOf (records ++ [⟨offset, size, .member m⟩]) = membersOf records ++ [m] := by
  rw [membersOf, List.filterMap_append]
  rfl

theorem globalsOf_extension {offset size : ℕ} {x : Extension} :
    globalsOf (records ++ [⟨offset, size, .extension x⟩]) =
      (globalsOf records).update (x.globalPax?.getD []) := by
  rw [globalsOf, List.filterMap_append, List.filterMap_append, List.foldl_append]
  cases x <;> rfl

theorem globalsOf_member {offset size : ℕ} {m : PhysicalLayerMember} :
    globalsOf (records ++ [⟨offset, size, .member m⟩]) = globalsOf records := by
  rw [globalsOf, List.filterMap_append, List.filterMap_append, List.foldl_append]
  rfl

theorem sinceMember_extension {offset size : ℕ} {x : Extension} :
    sinceMember (records ++ [⟨offset, size, .extension x⟩]) = sinceMember records ++ [x] := by
  rw [sinceMember, List.rtakeWhile_concat_pos _ _ _ rfl, List.filterMap_append]
  rfl

theorem sinceMember_member {offset size : ℕ} {m : PhysicalLayerMember} :
    sinceMember (records ++ [⟨offset, size, .member m⟩]) = [] := by
  rw [sinceMember, List.rtakeWhile_concat_neg _ _ _ Bool.false_ne_true]
  rfl

end Concat

/-- The last header of a sort leaves what it says. -/
theorem leaves_getLast? {α : Type} (said : List α) : Leaves said said.getLast? := by
  constructor
  · rintro rfl
    rfl
  · rintro a rfl
    rfl

theorem leaves_toList {α : Type} (left : Option α) : Leaves left.toList left := by
  cases left with
  | none => exact ⟨fun _ => rfl, nofun⟩
  | some a => exact ⟨nofun, fun b hb => congrArg some (List.singleton_inj.mp hb)⟩

/-! ### The loop -/

/-- What the limits allow in a scan. -/
structure Scan.Within (limits : LayerConversionLimits) (s : Scan) : Prop where
  headers : s.physicalHeaders ≤ limits.maxPhysicalHeaders
  members : s.members.length ≤ limits.maxMembers
  metadata : s.metadataBytes ≤ limits.maxTotalMetadataBytes
  regular : s.regularBytes ≤ limits.maxTotalRegularBytes
  xattrs : s.totalXattrBytes ≤ limits.maxTotalXattrBytes

/-- The records that the rounds so far have read. -/
structure Underway (limits : LayerConversionLimits) (archive : Bytes) (records : List Record)
    (s : Scan) : Prop where
  tiles : Tiles 0 (records.flatMap Record.areas) s.offset
  inside : s.offset ≤ archive.length
  reads : Throughout (Record.ReadFrom limits archive) records
  names : Throughout (Record.Named limits archive) records
  members : s.members = membersOf records
  bindings : s.payloadBindings = records.filterMap (Record.binding? archive)
  headers : s.physicalHeaders = records.length
  metadata : s.metadataBytes = (records.map Record.metadataBytes).sum
  regular : s.regularBytes = (s.members.map PhysicalLayerMember.regularBytes).sum
  xattrs : s.totalXattrBytes = (s.members.map PhysicalLayerMember.xattrBytes).sum
  globals : s.globalPax = globalsOf records
  localPax : (sinceMember records).filterMap Extension.localPax? = s.pendingPax.toList
  longName : s.pendingLongName = ((sinceMember records).filterMap Extension.longName?).getLast?
  longLink : s.pendingLongLink = ((sinceMember records).filterMap Extension.longLink?).getLast?
  within : s.Within limits

namespace Underway

theorem start : Underway limits archive [] {} where
  tiles := rfl
  inside := Nat.zero_le _
  reads := throughout_nil
  names := throughout_nil
  members := rfl
  bindings := rfl
  headers := rfl
  metadata := rfl
  regular := rfl
  xattrs := rfl
  globals := rfl
  localPax := rfl
  longName := rfl
  longLink := rfl
  within := ⟨Nat.zero_le _, Nat.zero_le _, Nat.zero_le _, Nat.zero_le _, Nat.zero_le _⟩

/-- A record goes from the offset of its header to the next one. -/
theorem tiles_record {offset size : ℕ} {content : Content} :
    Tiles offset (Record.areas ⟨offset, size, content⟩) (nextOffset offset size) := ⟨rfl, rfl, rfl⟩

/-- One more extension header. -/
theorem extended {x : Extension} {size : ℕ} (h : Underway limits archive records s)
    (hreads : Record.ReadFrom limits archive records ⟨s.offset, size, .extension x⟩)
    (hroom : nextOffset s.offset size ≤ archive.length)
    (hlocal : ∀ pax, x = .localPax pax → s.pendingPax = none)
    (hheaders : s.physicalHeaders + 1 ≤ limits.maxPhysicalHeaders)
    (htotal : s.metadataBytes + size ≤ limits.maxTotalMetadataBytes) :
    Underway limits archive (records ++ [⟨s.offset, size, .extension x⟩]) (s.extended size x) := by
  -- What each field is after the header, whatever kind it has.
  have hsame : (s.extended size x).offset = nextOffset s.offset size ∧
      (s.extended size x).physicalHeaders = s.physicalHeaders + 1 ∧
      (s.extended size x).metadataBytes = s.metadataBytes + size ∧
      (s.extended size x).regularBytes = s.regularBytes ∧
      (s.extended size x).totalXattrBytes = s.totalXattrBytes ∧
      (s.extended size x).members = s.members ∧
      (s.extended size x).payloadBindings = s.payloadBindings ∧
      (s.extended size x).globalPax = s.globalPax.update (x.globalPax?.getD []) ∧
      (s.extended size x).pendingPax = x.localPax?.or s.pendingPax ∧
      (s.extended size x).pendingLongName = x.longName?.or s.pendingLongName ∧
      (s.extended size x).pendingLongLink = x.longLink?.or s.pendingLongLink := by
    cases x <;> exact ⟨rfl, rfl, rfl, rfl, rfl, rfl, rfl, rfl, rfl, rfl, rfl⟩
  obtain ⟨hoffset, hphysical, hmetadata, hregular, hxattrs, hmembers, hbindings, hglobals, hpax,
    hname, hlink⟩ := hsame
  constructor
  · rw [hoffset, List.flatMap_append, List.flatMap_singleton]
    exact h.tiles.append tiles_record
  · rw [hoffset]
    exact hroom
  · exact throughout_concat.mpr ⟨h.reads, hreads⟩
  · refine throughout_concat.mpr ⟨h.names, fun m hm => ?_⟩
    cases hm
  · rw [hmembers, membersOf_extension, h.members]
  · rw [hbindings, List.filterMap_append, h.bindings]
    exact (List.append_nil _).symm
  · rw [hphysical, List.length_append, h.headers, List.length_singleton]
  · rw [hmetadata, List.map_append, List.sum_append, h.metadata]
    rfl
  · rw [hregular, hmembers, h.regular]
  · rw [hxattrs, hmembers, h.xattrs]
  · rw [hglobals, globalsOf_extension, h.globals]
  · rw [sinceMember_extension, List.filterMap_append, h.localPax, hpax]
    cases x with
    | localPax pax =>
      rw [hlocal pax rfl]
      rfl
    | _ => exact List.append_nil _
  · rw [sinceMember_extension, List.filterMap_append, List.getLast?_append, hname, h.longName]
    cases x <;> rfl
  · rw [sinceMember_extension, List.filterMap_append, List.getLast?_append, hlink, h.longLink]
    cases x <;> rfl
  · exact ⟨hphysical ▸ hheaders, hmembers ▸ h.within.members, hmetadata ▸ htotal,
      hregular ▸ h.within.regular, hxattrs ▸ h.within.xattrs⟩

/-- One more member. -/
theorem placed {m : PhysicalLayerMember} (h : Underway limits archive records s)
    (hreads : Record.ReadFrom limits archive records ⟨s.offset, m.size, .member m⟩)
    (hnamed : Record.Named limits archive records ⟨s.offset, m.size, .member m⟩)
    (hroom : nextOffset s.offset m.size ≤ archive.length)
    (hwithin : (s.placed archive m).Within limits) :
    Underway limits archive (records ++ [⟨s.offset, m.size, .member m⟩]) (s.placed archive m) where
  tiles := by
    rw [List.flatMap_append, List.flatMap_singleton]
    exact h.tiles.append tiles_record
  inside := hroom
  reads := throughout_concat.mpr ⟨h.reads, hreads⟩
  names := throughout_concat.mpr ⟨h.names, hnamed⟩
  members := by
    rw [membersOf_member, ← h.members]
    rfl
  -- A member with a payload adds its binding, any other nothing.
  bindings := by
    have hone : [⟨s.offset, m.size, .member m⟩].filterMap (Record.binding? archive) =
        (m.binding archive s.offset).toList := by
      cases hb : m.binding archive s.offset <;> simp [Record.binding?, Record.member?, hb]
    rw [List.filterMap_append, ← h.bindings, hone]
    rfl
  headers := by
    rw [List.length_append, ← h.headers]
    rfl
  metadata := by
    rw [List.map_append, List.sum_append, ← h.metadata]
    rfl
  regular := by
    change s.regularBytes + _ = ((s.members ++ [m]).map _).sum
    rw [List.map_append, List.sum_append, ← h.regular]
    rfl
  xattrs := by
    change s.totalXattrBytes + _ = ((s.members ++ [m]).map _).sum
    rw [List.map_append, List.sum_append, ← h.xattrs]
    rfl
  globals := globalsOf_member.symm ▸ h.globals
  localPax := by
    rw [sinceMember_member]
    rfl
  longName := by
    rw [sinceMember_member]
    rfl
  longLink := by
    rw [sinceMember_member]
    rfl
  within := hwithin

/-- **Each round of the loop reads one more record.** -/
theorem step {header : Bytes} (h : Underway limits archive records s)
    (hheader : header = (archive.drop s.offset).take block) (hzero : header ≠ zeroBlock)
    (hscan : scanHeader limits archive s header = .ok t) :
    ∃ r, Underway limits archive (records ++ [r]) t := by
  subst hheader
  obtain ⟨hheaders, hcheck, hcases⟩ := scanHeader_cases hscan
  rcases hcases with ⟨x, size, hflag, hsize, hroom, hread, rfl, hlocal, hone, htotal⟩ |
    ⟨m, hflag, hroom, hordinal, hread, rfl, hmembers, hregular, hxattrs, hper⟩
  · refine ⟨_, h.extended ?_ hroom hlocal hheaders htotal⟩
    refine ⟨hzero, hcheck, hflag, hsize, hread, hone, ?_⟩
    intro hsome
    rw [h.localPax]
    cases x with
    | localPax pax =>
      rw [hlocal pax rfl]
      rfl
    | _ => cases hsome
  · have hpax : s.pax = (globalsOf records).update (s.pendingPax.getD []) := by
      rw [Scan.pax, h.globals]
    refine ⟨_, h.placed ?_ ?_ hroom ⟨hheaders, ?_, h.within.metadata, hregular h.within.regular,
      hxattrs⟩⟩
    · refine ⟨hzero, hcheck, hflag, h.members ▸ hordinal, rfl, hper,
        s.pendingPax, s.pendingLongName, s.pendingLongLink, ?_, ?_, ?_, hpax ▸ hread⟩
      · rw [h.localPax]
        exact leaves_toList _
      · rw [h.longName]
        exact leaves_getLast? _
      · rw [h.longLink]
        exact leaves_getLast? _
    · intro m' hm'
      obtain rfl : m = m' := Content.member.inj hm'
      have hlocal : ((sinceMember records).filterMap Extension.localPax?).getLast? =
          s.pendingPax := by
        rw [h.localPax]
        cases s.pendingPax <;> rfl
      rw [Record.ownName, hlocal, ← h.longName, ← hpax]
      exact name_of_readFields hread.fields
    · change (s.members ++ [m]).length ≤ _
      rw [List.length_append]
      exact hmembers

end Underway

end Palimpsest.Layer
