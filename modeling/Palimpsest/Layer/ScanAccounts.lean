import Palimpsest.Layer.Records

/-!
# The scanner accounts for every byte

The records of an accepted archive and its trailer tile it, and everything that the scanner
returns is read off them (`Palimpsest.Layer.scanTar_accounts`). Local extension headers and
the member behind them belong together; a global one is in force for all members that follow
(`Palimpsest.Layer.scanTar_global`).
-/

namespace Palimpsest.Layer

variable {limits : LayerConversionLimits} {archive : Bytes} {records : List Record} {s : Scan}
  {out : ScanResult}

/-- The bytes that a binding is for. -/
def RegularPayloadBinding.area (b : RegularPayloadBinding) : Segment := ⟨b.offset, b.size⟩

/-- What the scanner returns for an archive is what these records and the trailer say. -/
structure Accounts (limits : LayerConversionLimits) (archive : Bytes) (records : List Record)
    (trailer : Segment) (out : ScanResult) : Prop where
  /-- Headers, payloads and the trailer leave no gap and do not overlap. -/
  tiles : Tiles 0 (records.flatMap Record.areas ++ [trailer]) archive.length
  endBlocks : 2 * block ≤ trailer.length
  zeros : ∀ b ∈ archive.drop trailer.start, b = 0
  /-- Every header is what it says, given the headers before it. -/
  reads : Throughout (Record.ReadFrom limits archive) records
  /-- No local extension header is left over. -/
  attached : ∀ x ∈ sinceMember records, x.globalPax?.isSome
  members : out.members = membersOf records
  ordinals : out.members.map PhysicalLayerMember.ordinal = List.range out.members.length
  bindings : out.payloadBindings = records.filterMap (Record.binding? archive)
  /-- A binding lies in the data area of its member and has the size of it. -/
  bound : ∀ b ∈ out.payloadBindings, ∃ r ∈ records, ∃ m, r.content = .member m ∧ m.kind = .file ∧
    b.memberIndex = m.ordinal ∧ b.size = m.size ∧ b.area.Within r.dataArea
  ordered : out.payloadBindings.Pairwise fun b c => b.area.Before c.area
  headers : out.physicalHeaders = records.length
  metadata : out.metadataBytes = (records.map Record.metadataBytes).sum
  regular : out.regularBytes = (out.members.map PhysicalLayerMember.regularBytes).sum
  xattrs : out.totalXattrBytes = (out.members.map PhysicalLayerMember.xattrBytes).sum
  headers_le : out.physicalHeaders ≤ limits.maxPhysicalHeaders
  members_le : out.members.length ≤ limits.maxMembers
  metadata_le : out.metadataBytes ≤ limits.maxTotalMetadataBytes
  regular_le : out.regularBytes ≤ limits.maxTotalRegularBytes
  xattrs_le : out.totalXattrBytes ≤ limits.maxTotalXattrBytes

/-! ### Bindings -/

theorem le_padded (size : ℕ) : size ≤ padded size := by
  have hdiv := Nat.div_add_mod (size + block - 1) block
  have hmod : (size + block - 1) % block < block := Nat.mod_lt _ (by decide)
  have hcomm : padded size = block * ((size + block - 1) / block) := Nat.mul_comm ..
  have hblock : 0 < block := by decide
  omega

theorem Record.binding?_eq_some {r : Record} {b : RegularPayloadBinding}
    (h : r.binding? archive = some b) :
    ∃ m, r.content = .member m ∧ m.kind = .file ∧ b.memberIndex = m.ordinal ∧
      b.offset = r.offset + block ∧ b.size = m.size := by
  obtain ⟨m, hm, hb⟩ := Option.bind_eq_some_iff.mp h
  have hcontent : r.content = .member m := by
    rw [Record.member?] at hm
    split at hm
    · cases hm
    · next heq => rw [heq, Option.some.inj hm]
  rw [PhysicalLayerMember.binding] at hb
  split_ifs at hb with hfile
  · rw [← Option.some.inj hb]
    exact ⟨m, hcontent, hfile, rfl, rfl, rfl⟩

/-- **A binding lies in the data area of its record.** -/
theorem bound_of_reads (hreads : Throughout (Record.ReadFrom limits archive) records) {r : Record}
    (hr : r ∈ records) {b : RegularPayloadBinding} (hb : r.binding? archive = some b) :
    ∃ m, r.content = .member m ∧ m.kind = .file ∧ b.memberIndex = m.ordinal ∧ b.size = m.size ∧
      b.area.Within r.dataArea := by
  obtain ⟨m, hcontent, hfile, hindex, hoffset, hsize⟩ := Record.binding?_eq_some hb
  obtain ⟨before, after, rfl⟩ := List.append_of_mem hr
  have hread := hreads before r after rfl
  rw [Record.ReadFrom, hcontent] at hread
  obtain ⟨-, -, -, -, hrsize, -⟩ := hread
  have hle := le_padded r.size
  refine ⟨m, hcontent, hfile, hindex, hsize, le_of_eq hoffset.symm, ?_⟩
  change b.offset + b.size ≤ r.offset + block + padded r.size
  omega

/-- **Bindings follow one another**, as the data areas they lie in do. -/
theorem ordered_of_tiles (hreads : Throughout (Record.ReadFrom limits archive) records) {n : ℕ}
    (htiles : Tiles 0 (records.flatMap Record.areas) n) :
    (records.filterMap (Record.binding? archive)).Pairwise fun b c => b.area.Before c.area := by
  rw [List.pairwise_filterMap]
  refine (List.pairwise_flatMap.mp htiles.pairwise).2.imp_of_mem fun hr hr' hareas b hb c hc => ?_
  obtain ⟨-, -, -, -, -, hbin⟩ := bound_of_reads hreads hr hb
  obtain ⟨-, -, -, -, -, hcin⟩ := bound_of_reads hreads hr' hc
  have hdata : ∀ r : Record, r.dataArea ∈ r.areas :=
    fun r => List.mem_cons_of_mem _ (List.mem_singleton_self _)
  exact (hareas _ (hdata _) _ (hdata _)).within hbin hcin

/-- **Ordinals count the members.** -/
theorem ordinals_of_reads (hreads : Throughout (Record.ReadFrom limits archive) records) :
    (membersOf records).map PhysicalLayerMember.ordinal =
      List.range (membersOf records).length := by
  induction records using List.reverseRecOn with
  | nil => rfl
  | append_singleton records r ih =>
    obtain ⟨hbefore, hr⟩ := throughout_concat.mp hreads
    obtain ⟨offset, size, content⟩ := r
    cases content with
    | extension x =>
      rw [membersOf_extension]
      exact ih hbefore
    | member m =>
      obtain ⟨-, -, -, hordinal, -⟩ := hr
      rw [membersOf_member, List.map_append, ih hbefore, List.length_append, List.length_singleton,
        List.range_succ, List.map_singleton, hordinal]

/-! ### The end of the archive -/

theorem finishScan_eq_ok (h : finishScan archive s = .ok out) :
    s.offset + 2 * block ≤ archive.length ∧
      (archive.drop (s.offset + block)).take block = zeroBlock ∧
      (∀ b ∈ archive.drop (s.offset + 2 * block), b = 0) ∧
      s.pendingPax = none ∧ s.pendingLongName = none ∧ s.pendingLongLink = none ∧
      out.members = s.members ∧ out.payloadBindings = s.payloadBindings ∧
      out.physicalHeaders = s.physicalHeaders ∧ out.regularBytes = s.regularBytes ∧
      out.totalXattrBytes = s.totalXattrBytes ∧ out.metadataBytes = s.metadataBytes := by
  obtain ⟨hend, h⟩ := of_guard h
  obtain ⟨hrest, h⟩ := of_guard h
  obtain ⟨hpending, h⟩ := of_guard h
  rw [not_or, not_lt, not_not] at hend
  rw [not_or, not_or] at hpending
  simp only [Option.not_isSome_iff_eq_none] at hpending
  have hzero : ∀ b ∈ archive.drop (s.offset + 2 * block), b = 0 := by
    intro b hb
    by_contra hne
    exact hrest (List.any_eq_true.mpr ⟨b, hb, decide_eq_true hne⟩)
  split at h
  · cases h
  · cases h
  · obtain rfl := Except.ok.inj h
    exact ⟨hend.1, hend.2, hzero, hpending.1, hpending.2.1, hpending.2.2, rfl, rfl, rfl, rfl, rfl,
      rfl⟩

/-- The two end blocks and what follows are zeros. -/
theorem zeros_of_blocks {offset : ℕ} (hfirst : (archive.drop offset).take block = zeroBlock)
    (hsecond : (archive.drop (offset + block)).take block = zeroBlock)
    (hrest : ∀ b ∈ archive.drop (offset + 2 * block), b = 0) :
    ∀ b ∈ archive.drop offset, b = 0 := by
  have hhead := List.take_append_drop block (archive.drop offset)
  have htail := List.take_append_drop block (archive.drop (offset + block))
  rw [hfirst, List.drop_drop] at hhead
  rw [hsecond, List.drop_drop, Nat.add_assoc, ← Nat.two_mul] at htail
  intro b hb
  rw [← hhead, ← htail, List.mem_append, List.mem_append] at hb
  rcases hb with hb | hb | hb
  · exact List.eq_of_mem_replicate hb
  · exact List.eq_of_mem_replicate hb
  · exact hrest b hb

/-! ### The run -/

/-- The loop ends at the first zero block, with all records before it read. -/
theorem scanFrom_underway {rounds : ℕ} (h : Underway limits archive records s)
    (hscan : scanFrom limits archive rounds s = .ok out) :
    ∃ records' s', Underway limits archive records' s' ∧
      (archive.drop s'.offset).take block = zeroBlock ∧ finishScan archive s' = .ok out := by
  induction rounds generalizing records s with
  | zero => cases hscan
  | succ rounds ih =>
    obtain ⟨-, hscan⟩ := of_guard hscan
    obtain ⟨header, hheader, hscan⟩ := Results.bind_eq_ok.mp hscan
    obtain ⟨-, hheader⟩ := readExactAt_eq_ok hheader
    by_cases hzero : header = zeroBlock
    · rw [if_pos hzero] at hscan
      exact ⟨records, s, h, hheader ▸ hzero, hscan⟩
    · rw [if_neg hzero] at hscan
      obtain ⟨t, ht, hscan⟩ := Results.bind_eq_ok.mp hscan
      obtain ⟨r, hr⟩ := h.step hheader hzero ht
      exact ih hr hscan

theorem Underway.accounts (h : Underway limits archive records s)
    (hzero : (archive.drop s.offset).take block = zeroBlock)
    (hout : finishScan archive s = .ok out) :
    Accounts limits archive records ⟨s.offset, archive.length - s.offset⟩ out := by
  obtain ⟨hroom, hsecond, hrest, hpax, hname, hlink, hmembers, hbindings, hheaders, hregular,
    hxattrs, hmetadata⟩ := finishScan_eq_ok hout
  have hstop : (⟨s.offset, archive.length - s.offset⟩ : Segment).stop = archive.length :=
    Nat.add_sub_cancel' h.inside
  have hbinding : out.payloadBindings = records.filterMap (Record.binding? archive) :=
    hbindings.trans h.bindings
  constructor
  · exact h.tiles.append ⟨rfl, hstop⟩
  · change 2 * block ≤ archive.length - s.offset
    omega
  -- The zero block that was read, the second one and the rest are all zeros.
  · exact zeros_of_blocks hzero hsecond hrest
  · exact h.reads
  · -- Nothing waits for a member that does not come.
    intro x hx
    have hlocals := h.localPax
    have hnames := h.longName
    have hlinks := h.longLink
    rw [hpax] at hlocals
    rw [hname, eq_comm, List.getLast?_eq_none_iff] at hnames
    rw [hlink, eq_comm, List.getLast?_eq_none_iff] at hlinks
    cases x with
    | globalPax pax => rfl
    | localPax pax => cases List.filterMap_eq_nil_iff.mp hlocals _ hx
    | longName text => cases List.filterMap_eq_nil_iff.mp hnames _ hx
    | longLink text => cases List.filterMap_eq_nil_iff.mp hlinks _ hx
  · exact hmembers.trans h.members
  · rw [hmembers, h.members]
    exact ordinals_of_reads h.reads
  · exact hbinding
  · intro b hb
    rw [hbinding] at hb
    obtain ⟨r, hr, hb⟩ := List.mem_filterMap.mp hb
    exact ⟨r, hr, bound_of_reads h.reads hr hb⟩
  · rw [hbinding]
    exact ordered_of_tiles h.reads h.tiles
  · exact hheaders.trans h.headers
  · exact hmetadata.trans h.metadata
  · rw [hregular, hmembers, h.regular]
  · rw [hxattrs, hmembers, h.xattrs]
  · exact hheaders ▸ h.within.headers
  · exact hmembers ▸ h.within.members
  · exact hmetadata ▸ h.within.metadata
  · exact hregular ▸ h.within.regular
  · exact hxattrs ▸ h.within.xattrs

/-- **The scanner ends on every archive, and accounts for every byte of those it accepts**:
headers, payloads and trailer tile the archive, every binding lies in the data area of its
member, and every local extension header is for the member behind it. -/
theorem scanTar_accounts (limits : LayerConversionLimits) (archive : Bytes) :
    scanTar limits archive ≠ .error .diverges ∧
      ∀ out, scanTar limits archive = .ok out →
        ∃ records trailer, Accounts limits archive records trailer out := by
  refine ⟨scanTar_ends limits archive, fun out h => ?_⟩
  rw [scanTar] at h
  obtain ⟨-, h⟩ := of_guard h
  obtain ⟨records, s, hs, hzero, hout⟩ := scanFrom_underway Underway.start h
  exact ⟨records, _, hs.accounts hzero hout⟩

/-! ### A global header -/

/-- A field of a header, filled up with zeros. -/
def fieldOf (length : ℕ) (text : String) : Bytes :=
  (text.toList.map fun c => UInt8.ofNat c.toNat) ++ List.replicate (length - text.length) 0

/-- A header with nothing but a name, a size and a type flag. -/
def headerOf (name size : String) (flag : UInt8) : Bytes :=
  let front := fieldOf 100 name ++ List.replicate 24 0 ++ fieldOf 12 size ++ List.replicate 12 0
  let back := flag :: List.replicate 355 0
  let total := ((front ++ List.replicate 8 32 ++ back).map UInt8.toNat).sum
  front ++ fieldOf 8 (String.ofList (Nat.toDigits 8 total)) ++ back

/-- Two directories of user 0. -/
def twoDirectories : Bytes :=
  headerOf "a/" "0" 53 ++ headerOf "b/" "0" 53 ++ List.replicate (2 * block) 0

/-- The same with a global header before them, which gives a user. -/
def globalUser : Bytes := headerOf "" "10" 103 ++ fieldOf block "8 uid=7\n" ++ twoDirectories

/-- Both directories get the user that the header gives. -/
theorem uids_globalUser : (scanTar {} globalUser).toOption.map
    (fun out => out.members.map PhysicalLayerMember.uid) = some [7, 7] := by
  decide +kernel

/-- The archive with the global header is accepted and accounted for. -/
theorem scanTar_accounts_globalUser : ∃ out, scanTar {} globalUser = .ok out ∧
    ∃ records trailer, Accounts {} globalUser records trailer out := by
  have huids := uids_globalUser
  cases h : scanTar {} globalUser with
  | error fault =>
    rw [h] at huids
    cases huids
  | ok out => exact ⟨out, rfl, (scanTar_accounts {} globalUser).2 out h⟩

/-- **A global header is applied to more than the next member**: both directories get the user
that it gives, which neither has without it. -/
theorem scanTar_global :
    (scanTar {} globalUser).toOption.map (fun out => out.members.map PhysicalLayerMember.uid) =
        some [7, 7] ∧
      (scanTar {} twoDirectories).toOption.map
        (fun out => out.members.map PhysicalLayerMember.uid) = some [0, 0] :=
  ⟨uids_globalUser, by decide +kernel⟩

end Palimpsest.Layer
