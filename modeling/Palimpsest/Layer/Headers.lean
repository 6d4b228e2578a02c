import Palimpsest.Layer.ScanTar
import Palimpsest.Lib.Results

/-!
# What one round of the scanner does

A round that goes through has read an extension header (`Palimpsest.Layer.Extension`) or a
member, and `Palimpsest.Layer.scanHeader_cases` says all that such a round does: what it has
checked, and the state it leaves.
-/

namespace Palimpsest.Layer

open Results

variable {limits : LayerConversionLimits} {archive header : Bytes} {s t : Scan} {size : ℕ}

/-! ### Extension headers -/

/-- What an extension header says. -/
inductive Extension
  | globalPax (records : Pax)
  | localPax (records : Pax)
  | longName (text : Text)
  | longLink (text : Text)
  deriving DecidableEq

namespace Extension

/-- The type flag that an extension header has. -/
def flag : Extension → UInt8
  | globalPax _ => 103
  | localPax _ => 120
  | longName _ => 76
  | longLink _ => 75

/-- Whether a payload says this. -/
def ReadFrom (payload : Bytes) : Extension → Prop
  | globalPax records => parsePax payload = .ok records
  | localPax records => parsePax payload = .ok records
  | longName text => readLongText payload = .ok text
  | longLink text => readLongText payload = .ok text

end Extension

/-- The bytes after a header. -/
def payloadAt (archive : Bytes) (offset size : ℕ) : Bytes :=
  (archive.drop (offset + block)).take size

/-- Where the next header is. -/
def nextOffset (offset size : ℕ) : ℕ := offset + block + padded size

/-- The state after an extension header. -/
def Scan.extended (s : Scan) (size : ℕ) (x : Extension) : Scan :=
  let s := { s with
    offset := nextOffset s.offset size
    physicalHeaders := s.physicalHeaders + 1
    metadataBytes := s.metadataBytes + size }
  match x with
  | .globalPax records => { s with globalPax := s.globalPax.update records }
  | .localPax records => { s with pendingPax := some records }
  | .longName text => { s with pendingLongName := some text }
  | .longLink text => { s with pendingLongLink := some text }

/-- What follows a check that refuses. -/
theorem of_guard {α : Type} {p : Prop} [Decidable p] {code detail : String}
    {x : Except ScanFault α} {a : α} (h : (if p then refuse code detail else x) = .ok a) :
    ¬p ∧ x = .ok a := by
  by_cases hp : p
  · rw [if_pos hp] at h
    cases h
  · rw [if_neg hp] at h
    exact ⟨hp, h⟩

theorem readExactAt_eq_ok {offset : ℕ} {bytes : Bytes}
    (h : readExactAt archive offset size = .ok bytes) :
    offset + size ≤ archive.length ∧ bytes = (archive.drop offset).take size := by
  obtain ⟨hlength, h⟩ := of_guard h
  exact ⟨not_lt.mp hlength, (Except.ok.inj h).symm⟩

/-- A round that reads an extension header. -/
theorem scanExtension_cases {flag : UInt8} (hflag : isExtension flag = true)
    (h : scanExtension limits archive { s with physicalHeaders := s.physicalHeaders + 1 } flag
      size = .ok t) :
    ∃ x : Extension, x.flag = flag ∧ x.ReadFrom (payloadAt archive s.offset size) ∧
      t = s.extended size x ∧ (∀ records, x = .localPax records → s.pendingPax = none) ∧
      size ≤ limits.maxMetadataBytesPerHeader ∧
      s.metadataBytes + size ≤ limits.maxTotalMetadataBytes := by
  obtain ⟨hone, h⟩ := of_guard h
  obtain ⟨htotal, h⟩ := of_guard h
  obtain ⟨payload, hpayload, h⟩ := bind_eq_ok.mp h
  obtain ⟨-, rfl⟩ := readExactAt_eq_ok hpayload
  dsimp only at h
  split_ifs at h with hg hx hpending hL
  · obtain ⟨records, hrecords, h⟩ := bind_eq_ok.mp h
    exact ⟨.globalPax records, hg.symm, hrecords, (Except.ok.inj h).symm, nofun, not_lt.mp hone,
      not_lt.mp htotal⟩
  · cases h
  · obtain ⟨records, hrecords, h⟩ := bind_eq_ok.mp h
    exact ⟨.localPax records, hx.symm, hrecords, (Except.ok.inj h).symm,
      fun _ _ => Option.not_isSome_iff_eq_none.mp hpending, not_lt.mp hone, not_lt.mp htotal⟩
  · obtain ⟨text, htext, h⟩ := bind_eq_ok.mp h
    exact ⟨.longName text, hL.symm, htext, (Except.ok.inj h).symm, nofun, not_lt.mp hone,
      not_lt.mp htotal⟩
  · obtain ⟨text, htext, h⟩ := bind_eq_ok.mp h
    have hK : flag = 75 := by
      simp only [isExtension, Bool.or_eq_true, decide_eq_true_eq] at hflag
      tauto
    exact ⟨.longLink text, hK.symm, htext, (Except.ok.inj h).symm, nofun, not_lt.mp hone,
      not_lt.mp htotal⟩

/-! ### Members -/

/-- What the header and the extensions of a member say of it. -/
def PhysicalLayerMember.fields (m : PhysicalLayerMember) : Fields :=
  ⟨m.path, m.kind, m.mode, m.uid, m.gid, m.mtime, m.linkTarget, m.deviceMajor, m.deviceMinor⟩

/-- What the attributes of a member count. -/
def PhysicalLayerMember.xattrBytes (m : PhysicalLayerMember) : ℕ :=
  (m.xattrs.map attributeBytes).sum

/-- The bytes of a regular file. -/
def PhysicalLayerMember.regularBytes (m : PhysicalLayerMember) : ℕ :=
  if m.kind = .file then m.size else 0

/-- The binding of a regular file whose header is at the offset. -/
def PhysicalLayerMember.binding (archive : Bytes) (offset : ℕ) (m : PhysicalLayerMember) :
    Option RegularPayloadBinding :=
  if m.kind = .file then
    some ⟨m.ordinal, offset + block, m.size,
      "sha256:".toList ++ Control.hexText (Sha256.digest (payloadAt archive offset m.size))⟩
  else none

/-- The state after a member. -/
def Scan.placed (archive : Bytes) (s : Scan) (m : PhysicalLayerMember) : Scan :=
  { s with
    offset := nextOffset s.offset m.size
    physicalHeaders := s.physicalHeaders + 1
    regularBytes := s.regularBytes + m.regularBytes
    totalXattrBytes := s.totalXattrBytes + m.xattrBytes
    members := s.members ++ [m]
    payloadBindings := s.payloadBindings ++ (m.binding archive s.offset).toList
    pendingPax := none
    pendingLongName := none
    pendingLongLink := none }

/-- An attribute that is kept has the name and the value that its record has. -/
theorem readAttribute_some {r a : Text × Text} (h : readAttribute r = .ok (some a)) :
    attributeStart ++ a.1 = r.1 ∧ a.2 = r.2 := by
  obtain ⟨key, value⟩ := r
  obtain ⟨-, h⟩ := of_guard h
  by_cases hstart : attributeStart.isPrefixOf key
  · rw [if_neg (not_not.mpr hstart)] at h
    obtain ⟨-, h⟩ := of_guard h
    obtain ⟨-, h⟩ := of_guard h
    obtain ⟨name, rfl⟩ := List.isPrefixOf_iff_prefix.mp hstart
    have ha : a = (name, value) := by
      rw [List.drop_left] at h
      split_ifs at h
      · obtain ⟨-, -, h⟩ := bind_eq_ok.mp h
        exact (Option.some.inj (Except.ok.inj h)).symm
      · exact (Option.some.inj (Except.ok.inj h)).symm
    rw [ha]
    exact ⟨rfl, rfl⟩
  · rw [if_pos hstart] at h
    cases h

theorem xattrsFrom_bytes {pax : Pax} {values values' : List (Text × Text)} {total total' : ℕ}
    (h : xattrsFrom pax values total = .ok (values', total'))
    (htotal : total = (values.map attributeBytes).sum) :
    total' = (values'.map attributeBytes).sum := by
  induction pax generalizing values total with
  | nil =>
    obtain ⟨rfl, rfl⟩ := Prod.mk.inj (Except.ok.inj h)
    exact htotal
  | cons r pax ih =>
    obtain ⟨a, ha, h⟩ := bind_eq_ok.mp h
    cases a with
    | none => exact ih h htotal
    | some a =>
      refine ih h ?_
      rw [List.map_append, List.sum_append, ← htotal, List.map_singleton, List.sum_singleton,
        attributeBytes, (readAttribute_some ha).1]

/-- **The bytes counted for a member's attributes are those of the attributes it keeps.** -/
theorem xattrs_bytes {pax : Pax} {values : List (Text × Text)} {total : ℕ}
    (h : xattrs pax limits = .ok (values, total)) :
    total = (values.map attributeBytes).sum ∧ total ≤ limits.maxXattrBytesPerMember := by
  obtain ⟨⟨kept, counted⟩, hkept, h⟩ := bind_eq_ok.mp h
  obtain ⟨hlimit, h⟩ := of_guard h
  obtain ⟨rfl, rfl⟩ := Prod.mk.inj (Except.ok.inj h)
  refine ⟨(xattrsFrom_bytes hkept rfl).trans ?_, not_lt.mp hlimit⟩
  exact (((List.perm_insertionSort _ kept).map attributeBytes).sum_nat).symm

theorem countRegular_eq_ok {regularBytes counted : ℕ} {kind : EntryKind}
    (h : countRegular limits regularBytes kind size = .ok counted) :
    counted = regularBytes + (if kind = .file then size else 0) ∧
      (regularBytes ≤ limits.maxTotalRegularBytes → counted ≤ limits.maxTotalRegularBytes) ∧
      (kind = .file → size ≤ limits.maxRegularFileBytes) ∧ (kind ≠ .file → size = 0) := by
  by_cases hfile : kind = .file
  · rw [countRegular, if_pos hfile] at h
    obtain ⟨hone, h⟩ := of_guard h
    obtain ⟨htotal, h⟩ := of_guard h
    obtain rfl := Except.ok.inj h
    exact ⟨by rw [if_pos hfile], fun _ => not_lt.mp htotal, fun _ => not_lt.mp hone,
      fun hne => absurd hfile hne⟩
  · rw [countRegular, if_neg hfile] at h
    obtain ⟨hsize, h⟩ := of_guard h
    obtain rfl := Except.ok.inj h
    exact ⟨by rw [if_neg hfile, Nat.add_zero], id, fun heq => absurd heq hfile,
      fun _ => not_not.mp hsize⟩

/-- The name in the fields of a header. -/
def fieldName (header : Bytes) : Text :=
  let start := (tarText (slice header 345 500) "path prefix").toOption.getD []
  let headerName := (tarText (slice header 0 100) "member path").toOption.getD []
  if start = [] then headerName else start ++ '/' :: headerName

/-- What the scanner checks of the name of a member and makes of it. -/
theorem name_of_readFields {pax : Pax} {longName longLink : Option Text} {f : Fields}
    (h : readFields limits header pax longName longLink size = .ok f) :
    validatePath ((pax.get "path").getD (longName.getD (fieldName header))) limits.maxPathBytes =
        .ok f.path ∧
      checkWhiteout f.path limits = .ok () ∧ kindOf (typeFlag header) = some f.kind ∧
        (f.path = .dot → f.kind = .directory) := by
  rw [readFields] at h
  obtain ⟨start, hstart, h⟩ := bind_eq_ok.mp h
  obtain ⟨headerName, hheader, h⟩ := bind_eq_ok.mp h
  obtain ⟨linkName, -, h⟩ := bind_eq_ok.mp h
  obtain ⟨-, h⟩ := of_guard h
  obtain ⟨path, hpath, h⟩ := bind_eq_ok.mp h
  obtain ⟨_, hwhiteout, h⟩ := bind_eq_ok.mp h
  obtain ⟨mode, -, h⟩ := bind_eq_ok.mp h
  obtain ⟨uidField, -, h⟩ := bind_eq_ok.mp h
  obtain ⟨uid, -, h⟩ := bind_eq_ok.mp h
  obtain ⟨gidField, -, h⟩ := bind_eq_ok.mp h
  obtain ⟨gid, -, h⟩ := bind_eq_ok.mp h
  obtain ⟨mtimeField, -, h⟩ := bind_eq_ok.mp h
  obtain ⟨mtime, -, h⟩ := bind_eq_ok.mp h
  obtain ⟨-, h⟩ := of_guard h
  -- The name in the header is the two fields joined; an extension goes before it.
  have hname : fieldName header =
      if start = [] then headerName else start ++ '/' :: headerName := by
    rw [fieldName, hstart, hheader]
    rfl
  split at h
  · cases h
  · next kind hkind =>
    obtain ⟨hroot, h⟩ := of_guard h
    obtain ⟨-, h⟩ := of_guard h
    obtain ⟨linkTarget, -, h⟩ := bind_eq_ok.mp h
    obtain ⟨deviceMajor, -, h⟩ := bind_eq_ok.mp h
    obtain ⟨deviceMinor, -, h⟩ := bind_eq_ok.mp h
    obtain ⟨-, h⟩ := of_guard h
    obtain rfl := Except.ok.inj h
    rw [hname]
    exact ⟨hpath, hwhiteout, hkind, fun hdot => by_contra fun hne => hroot ⟨hdot, hne⟩⟩

/-- A number of a header, which a record of this key overrides. -/
def overridden (pax : Pax) (key : String) (field : ℕ) : ℕ :=
  (pax.get key).elim field fun raw => Nat.ofDigitChars 10 (raw.takeWhile (· ≠ '.')) 0

theorem paxInteger_eq_ok {pax : Pax} {key : String} {field maximum n : ℕ}
    (h : paxInteger pax key field maximum = .ok n) : n = overridden pax key field := by
  rw [paxInteger] at h
  rw [overridden]
  split at h
  · next hnone =>
    rw [hnone]
    exact (Except.ok.inj h).symm
  · next raw hsome =>
    obtain ⟨-, h⟩ := of_guard h
    obtain ⟨-, h⟩ := of_guard h
    obtain ⟨-, h⟩ := of_guard h
    rw [hsome]
    exact (Except.ok.inj h).symm

/-- The size of a member is that of its header, or of the record that overrides it. -/
theorem size_of_effectiveSize {pax : Pax} (h : effectiveSize limits header pax = .ok size) :
    ∃ field, tarNumber (slice header 124 136) "member size" = .ok field ∧
      size = overridden pax "size" field := by
  obtain ⟨field, hfield, h⟩ := bind_eq_ok.mp h
  exact ⟨field, hfield, paxInteger_eq_ok h⟩

/-- So are its user and its group. -/
theorem owner_of_readFields {pax : Pax} {longName longLink : Option Text} {f : Fields}
    (h : readFields limits header pax longName longLink size = .ok f) :
    ∃ uid gid, tarNumber (slice header 108 116) "uid" = .ok uid ∧
      tarNumber (slice header 116 124) "gid" = .ok gid ∧
      f.uid = overridden pax "uid" uid ∧ f.gid = overridden pax "gid" gid := by
  rw [readFields] at h
  obtain ⟨start, -, h⟩ := bind_eq_ok.mp h
  obtain ⟨headerName, -, h⟩ := bind_eq_ok.mp h
  obtain ⟨linkName, -, h⟩ := bind_eq_ok.mp h
  obtain ⟨-, h⟩ := of_guard h
  obtain ⟨path, -, h⟩ := bind_eq_ok.mp h
  obtain ⟨-, -, h⟩ := bind_eq_ok.mp h
  obtain ⟨mode, -, h⟩ := bind_eq_ok.mp h
  obtain ⟨uidField, huidField, h⟩ := bind_eq_ok.mp h
  obtain ⟨uid, huid, h⟩ := bind_eq_ok.mp h
  obtain ⟨gidField, hgidField, h⟩ := bind_eq_ok.mp h
  obtain ⟨gid, hgid, h⟩ := bind_eq_ok.mp h
  obtain ⟨mtimeField, -, h⟩ := bind_eq_ok.mp h
  obtain ⟨mtime, -, h⟩ := bind_eq_ok.mp h
  obtain ⟨-, h⟩ := of_guard h
  -- The checks that follow do not touch the owner.
  refine ⟨uidField, gidField, huidField, hgidField, ?_⟩
  split at h
  · cases h
  · obtain ⟨-, h⟩ := of_guard h
    obtain ⟨-, h⟩ := of_guard h
    obtain ⟨linkTarget, -, h⟩ := bind_eq_ok.mp h
    obtain ⟨deviceMajor, -, h⟩ := bind_eq_ok.mp h
    obtain ⟨deviceMinor, -, h⟩ := bind_eq_ok.mp h
    obtain ⟨-, h⟩ := of_guard h
    obtain rfl := Except.ok.inj h
    exact ⟨paxInteger_eq_ok huid, paxInteger_eq_ok hgid⟩

/-- How a member is read: with the records in force, and the long name and link that wait
for it. -/
structure PhysicalLayerMember.ReadFrom (limits : LayerConversionLimits) (header : Bytes)
    (pax : Pax) (longName longLink : Option Text) (m : PhysicalLayerMember) : Prop where
  size : effectiveSize limits header pax = .ok m.size
  fields : readFields limits header pax longName longLink m.size = .ok m.fields
  xattrs : ∃ total, Layer.xattrs pax limits = .ok (m.xattrs, total)
  regular : m.kind = .file → m.size ≤ limits.maxRegularFileBytes
  other : m.kind ≠ .file → m.size = 0

/-- **What the records in force override**: the size, the path and the owner of the member. A long
name gives way to a record of the path. -/
theorem PhysicalLayerMember.ReadFrom.overridden {pax : Pax} {longName longLink : Option Text}
    {m : PhysicalLayerMember} (h : m.ReadFrom limits header pax longName longLink) :
    (∃ field, tarNumber (slice header 124 136) "member size" = .ok field ∧
      m.size = Layer.overridden pax "size" field) ∧
    validatePath ((pax.get "path").getD (longName.getD (fieldName header))) limits.maxPathBytes =
      .ok m.path ∧
    ∃ uid gid, tarNumber (slice header 108 116) "uid" = .ok uid ∧
      tarNumber (slice header 116 124) "gid" = .ok gid ∧
      m.uid = Layer.overridden pax "uid" uid ∧ m.gid = Layer.overridden pax "gid" gid :=
  ⟨size_of_effectiveSize h.size, (name_of_readFields h.fields).1, owner_of_readFields h.fields⟩

/-- A round that reads a member. -/
theorem scanMember_cases (hsize : effectiveSize limits header s.pax = .ok size)
    (h : scanMember limits archive { s with physicalHeaders := s.physicalHeaders + 1 } header size =
      .ok t) :
    ∃ m : PhysicalLayerMember, m.ordinal = s.members.length ∧ m.size = size ∧
      m.ReadFrom limits header s.pax s.pendingLongName s.pendingLongLink ∧
      t = s.placed archive m ∧ s.members.length < limits.maxMembers ∧
      (s.regularBytes ≤ limits.maxTotalRegularBytes →
        t.regularBytes ≤ limits.maxTotalRegularBytes) ∧
      t.totalXattrBytes ≤ limits.maxTotalXattrBytes ∧
      m.xattrBytes ≤ limits.maxXattrBytesPerMember := by
  obtain ⟨hmembers, h⟩ := of_guard h
  obtain ⟨f, hf, h⟩ := bind_eq_ok.mp h
  obtain ⟨counted, hcounted, h⟩ := bind_eq_ok.mp h
  obtain ⟨⟨values, total⟩, hxattrs, h⟩ := bind_eq_ok.mp h
  obtain ⟨hlimit, h⟩ := of_guard h
  obtain ⟨bindings, hbindings, h⟩ := bind_eq_ok.mp h
  obtain ⟨hcount, hregular, hone, hother⟩ := countRegular_eq_ok hcounted
  obtain ⟨hbytes, hper⟩ := xattrs_bytes hxattrs
  obtain ⟨m, hm⟩ : ∃ m : PhysicalLayerMember, m = ⟨s.members.length, f.path, f.kind, size, f.mode,
    f.uid, f.gid, f.mtime, f.linkTarget, f.deviceMajor, f.deviceMinor, values⟩ := ⟨_, rfl⟩
  have hkind : m.kind = f.kind := by rw [hm]
  have hmsize : m.size = size := by rw [hm]
  have hmxattrs : m.xattrs = values := by rw [hm]
  have hxattrBytes : m.xattrBytes = total := by
    rw [PhysicalLayerMember.xattrBytes, hmxattrs, hbytes]
  -- Only a regular file has a payload, whose place and digest are noted.
  have hbound : bindings = s.payloadBindings ++ (m.binding archive s.offset).toList := by
    rw [bindPayload] at hbindings
    rw [PhysicalLayerMember.binding, hkind]
    split_ifs at hbindings ⊢ with hfile
    · obtain ⟨digest, hdigest, hbindings⟩ := bind_eq_ok.mp hbindings
      obtain ⟨payload, hpayload, hdigest⟩ := bind_eq_ok.mp hdigest
      obtain ⟨-, rfl⟩ := readExactAt_eq_ok hpayload
      rw [← Except.ok.inj hbindings, ← Except.ok.inj hdigest, hm]
      rfl
    · rw [← Except.ok.inj hbindings]
      exact (List.append_nil _).symm
  have ht : t = s.placed archive m := by
    rw [← Except.ok.inj h, Scan.placed, hbound, hcount, hxattrBytes,
      PhysicalLayerMember.regularBytes, hkind, hmsize, hm]
    rfl
  refine ⟨m, by rw [hm], hmsize, ⟨?_, ?_, ⟨total, ?_⟩, ?_, ?_⟩, ht, not_le.mp hmembers, ?_, ?_, ?_⟩
  · rw [hmsize]
    exact hsize
  · rw [hmsize, hm]
    exact hf
  · rw [hmxattrs]
    exact hxattrs
  · rw [hkind, hmsize]
    exact hone
  · rw [hkind, hmsize]
    exact hother
  · rw [← Except.ok.inj h]
    exact hregular
  · rw [← Except.ok.inj h]
    exact not_lt.mp hlimit
  · rw [hxattrBytes]
    exact hper

/-! ### Either -/

/-- **One round of the loop.** -/
theorem scanHeader_cases (h : scanHeader limits archive s header = .ok t) :
    s.physicalHeaders + 1 ≤ limits.maxPhysicalHeaders ∧ checkHeader header = .ok () ∧
      ((∃ (x : Extension) (size : ℕ), x.flag = typeFlag header ∧
          tarNumber (slice header 124 136) "member size" = .ok size ∧
          nextOffset s.offset size ≤ archive.length ∧
          x.ReadFrom (payloadAt archive s.offset size) ∧ t = s.extended size x ∧
          (∀ records, x = .localPax records → s.pendingPax = none) ∧
          size ≤ limits.maxMetadataBytesPerHeader ∧
          s.metadataBytes + size ≤ limits.maxTotalMetadataBytes) ∨
        ∃ m : PhysicalLayerMember, isExtension (typeFlag header) = false ∧
          nextOffset s.offset m.size ≤ archive.length ∧ m.ordinal = s.members.length ∧
          m.ReadFrom limits header s.pax s.pendingLongName s.pendingLongLink ∧
          t = s.placed archive m ∧ s.members.length < limits.maxMembers ∧
          (s.regularBytes ≤ limits.maxTotalRegularBytes →
            t.regularBytes ≤ limits.maxTotalRegularBytes) ∧
          t.totalXattrBytes ≤ limits.maxTotalXattrBytes ∧
          m.xattrBytes ≤ limits.maxXattrBytesPerMember) := by
  obtain ⟨hheaders, h⟩ := of_guard h
  obtain ⟨⟨⟩, hcheck, h⟩ := bind_eq_ok.mp h
  obtain ⟨size, hsize, h⟩ := bind_eq_ok.mp h
  obtain ⟨hroom, h⟩ := of_guard h
  refine ⟨not_lt.mp hheaders, hcheck, ?_⟩
  split_ifs at h with hflag
  · rw [readSize, if_pos hflag] at hsize
    obtain ⟨x, hx, hrest⟩ := scanExtension_cases hflag h
    exact .inl ⟨x, size, hx, hsize, not_lt.mp hroom, hrest⟩
  · rw [readSize, if_neg hflag] at hsize
    obtain ⟨m, hordinal, rfl, hrest⟩ := scanMember_cases (s := s) hsize h
    exact .inr ⟨m, eq_false_of_ne_true hflag, not_lt.mp hroom, hordinal, hrest⟩

/-- A round goes past its header and stays in the archive. -/
theorem offset_scanHeader (h : scanHeader limits archive s header = .ok t) :
    s.offset + block ≤ t.offset ∧ t.offset ≤ archive.length := by
  obtain ⟨-, -, ⟨x, size, -, -, hroom, -, rfl, -⟩ | ⟨m, -, hroom, -, -, rfl, -⟩⟩ :=
    scanHeader_cases h
  · have hoffset : (s.extended size x).offset = nextOffset s.offset size := by cases x <;> rfl
    rw [hoffset]
    exact ⟨Nat.le_add_right _ _, hroom⟩
  · exact ⟨Nat.le_add_right _ _, hroom⟩

end Palimpsest.Layer
