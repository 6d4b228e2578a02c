import Mathlib.Data.Bool.AllAny
import Palimpsest.Initramfs.Newc

/-!
# Writing and reading an archive

What the reader makes of a record that the writer wrote, in front of anything
(`Palimpsest.Initramfs.readRecord_newcRecord`), and from it what it makes of all records
(`Palimpsest.Initramfs.parseFrom_newcRecords`). As the reader ends by writing its entries
anew and comparing, it accepts an archive as these entries exactly when the writer writes
the archive for them (`Palimpsest.Initramfs.parseNewc_eq_ok`).
-/

namespace Palimpsest.Initramfs

open Json Results
open Account (asciiBytes decodeAscii Ascii decodeAscii_eq_some)

/-- What follows a check that refuses. -/
theorem of_check {α : Type} {p : Prop} [Decidable p] {message : String}
    {x : Except NewcFault α} {a : α} (h : (if p then refuse message else x) = .ok a) :
    ¬p ∧ x = .ok a := by
  by_cases hp : p
  · rw [if_pos hp] at h
    cases h
  · rw [if_neg hp] at h
    exact ⟨hp, h⟩

/-! ### Fields -/

variable {n : ℕ}

theorem ascii_text (width n : ℕ) : Ascii (HexField.text width n) :=
  fun _ hc => HexField.toNat_lt_of_isHexDigit (HexField.isHexDigit_of_mem_text hc)

theorem length_fieldBytes (hn : n < 16 ^ 8) : (fieldBytes n).length = 8 := by
  rw [fieldBytes, asciiBytes, List.length_map, HexField.length_text (by decide) hn]

/-- A field is read back. -/
theorem hexField_fieldBytes (hn : n < 16 ^ 8) : hexField (fieldBytes n) = .ok n := by
  have hchars : (fieldBytes n).map Char.ofUInt8 = HexField.text 8 n :=
    Account.ofUInt8_asciiBytes (ascii_text 8 n)
  have hdigits : ¬((fieldBytes n).length ≠ 8 ∨
      (fieldBytes n).any (fun b => !HexField.isHexDigit (Char.ofUInt8 b)) = true) := by
    rw [not_or, not_not]
    refine ⟨length_fieldBytes hn, ?_⟩
    rw [Bool.not_eq_true, List.any_eq_false]
    intro b hb
    have hc : Char.ofUInt8 b ∈ HexField.text 8 n := hchars ▸ List.mem_map_of_mem hb
    rw [HexField.isHexDigit_of_mem_text hc]
    decide
  rw [hexField, if_neg hdigits, hchars, HexField.value_text]

/-- The fields behind the first ones. -/
theorem drop_flatMap_fieldBytes {fields : List ℕ} (h : ∀ n ∈ fields, n < 16 ^ 8) (index : ℕ) :
    (fields.flatMap fieldBytes).drop (8 * index) = (fields.drop index).flatMap fieldBytes := by
  induction index generalizing fields with
  | zero => rfl
  | succ index ih =>
    cases fields with
    | nil => rw [List.drop_nil, List.flatMap_nil, List.drop_nil]
    | cons n fields =>
      have hlength := length_fieldBytes (h n List.mem_cons_self)
      have hstart : 8 * (index + 1) = (fieldBytes n).length + 8 * index := by omega
      rw [List.flatMap_cons, hstart, List.drop_length_add_append,
        ih fun m hm => h m (List.mem_cons_of_mem n hm), List.drop_succ_cons]

theorem field_flatMap {fields : List ℕ} (h : ∀ n ∈ fields, n < 16 ^ 8) {index : ℕ}
    (hn : fields[index]? = some n) :
    hexField (((fields.flatMap fieldBytes).drop (8 * index)).take 8) = .ok n := by
  obtain ⟨hindex, rfl⟩ := List.getElem?_eq_some_iff.mp hn
  have hlt := h _ (List.getElem_mem hindex)
  rw [drop_flatMap_fieldBytes h, List.drop_eq_getElem_cons hindex, List.flatMap_cons,
    List.take_left' (length_fieldBytes hlt), hexField_fieldBytes hlt]

theorem length_flatMap_fieldBytes {fields : List ℕ} (h : ∀ n ∈ fields, n < 16 ^ 8) :
    (fields.flatMap fieldBytes).length = 8 * fields.length := by
  induction fields with
  | nil => rfl
  | cons n fields ih =>
    rw [List.flatMap_cons, List.length_append, length_fieldBytes (h n List.mem_cons_self),
      ih fun m hm => h m (List.mem_cons_of_mem n hm), List.length_cons]
    omega

/-! ### Records -/

section

variable {inode mode filesize namesize : ℕ}

theorem length_newcMagic : newcMagic.length = 6 := rfl

/-- The bytes of a header. -/
def headerBytes (inode mode filesize namesize : ℕ) : Bytes :=
  newcMagic ++ (headerFields inode mode filesize namesize).flatMap fieldBytes

/-- The header that the writer writes, as the reader reads it. -/
def writtenHeader (inode mode filesize namesize : ℕ) : NewcHeader :=
  ⟨inode, mode, 0, 0, 1, 0, filesize, 0, 0, 0, 0, namesize, 0⟩

@[simp]
theorem writtenHeader_mode : (writtenHeader inode mode filesize namesize).mode = mode := rfl

@[simp]
theorem writtenHeader_filesize :
    (writtenHeader inode mode filesize namesize).filesize = filesize := rfl

@[simp]
theorem writtenHeader_namesize :
    (writtenHeader inode mode filesize namesize).namesize = namesize := rfl

/-- The numbers of a header fit its fields. -/
def Fits (inode mode filesize namesize : ℕ) : Prop :=
  inode < 16 ^ 8 ∧ mode < 16 ^ 8 ∧ filesize < 16 ^ 8 ∧ namesize < 16 ^ 8

theorem Fits.forall_mem (h : Fits inode mode filesize namesize) :
    ∀ n ∈ headerFields inode mode filesize namesize, n < 16 ^ 8 := by
  obtain ⟨hinode, hmode, hfilesize, hnamesize⟩ := h
  have hzero : 0 < 16 ^ 8 := by decide
  have hone : 1 < 16 ^ 8 := by decide
  intro n hn
  simp only [headerFields, List.mem_cons, List.not_mem_nil, or_false] at hn
  rcases hn with rfl | rfl | rfl | rfl | rfl | rfl | rfl | rfl | rfl | rfl | rfl | rfl | rfl <;>
    assumption

theorem length_headerBytes (h : Fits inode mode filesize namesize) :
    (headerBytes inode mode filesize namesize).length = newcHeaderBytes := by
  rw [headerBytes, List.length_append, length_flatMap_fieldBytes h.forall_mem]
  rfl

/-- A header is read back. -/
theorem readHeader_headerBytes (h : Fits inode mode filesize namesize) (tail : Bytes) :
    readHeader (headerBytes inode mode filesize namesize ++ tail) =
      .ok (writtenHeader inode mode filesize namesize) := by
  have hlength := length_headerBytes h
  have hmagic : (headerBytes inode mode filesize namesize ++ tail).take 6 = newcMagic := by
    rw [headerBytes, List.append_assoc, List.take_left' length_newcMagic]
  have hguard : ¬((headerBytes inode mode filesize namesize ++ tail).length < newcHeaderBytes ∨
      (headerBytes inode mode filesize namesize ++ tail).take 6 ≠ newcMagic) := by
    rw [not_or, not_not, List.length_append, hlength]
    exact ⟨by omega, hmagic⟩
  have hfields : ((headerBytes inode mode filesize namesize ++ tail).take newcHeaderBytes).drop 6 =
      (headerFields inode mode filesize namesize).flatMap fieldBytes := by
    rw [List.take_left' hlength, headerBytes, List.drop_left' length_newcMagic]
  have hfield := fun index n (hn : (headerFields inode mode filesize namesize)[index]? = some n) =>
    field_flatMap h.forall_mem hn
  rw [readHeader, if_neg hguard]
  dsimp only
  rw [hfields, hfield 0 _ rfl, hfield 1 _ rfl, hfield 2 _ rfl, hfield 3 _ rfl, hfield 4 _ rfl,
    hfield 5 _ rfl, hfield 6 _ rfl, hfield 7 _ rfl, hfield 8 _ rfl, hfield 9 _ rfl,
    hfield 10 _ rfl, hfield 11 _ rfl, hfield 12 _ rfl]
  rfl

end

theorem readPadding_replicate (size : ℕ) (message : String) (tail : Bytes) :
    readPadding size message (List.replicate size 0 ++ tail) = .ok tail := by
  have hlength : (List.replicate size (0 : UInt8)).length = size := List.length_replicate
  have hguard : ¬((List.replicate size 0 ++ tail).length < size ∨
      (List.replicate size 0 ++ tail).take size ≠ List.replicate size 0) := by
    rw [not_or, not_not, List.length_append, hlength]
    exact ⟨by omega, List.take_left' hlength⟩
  rw [readPadding, if_neg hguard, List.drop_left' hlength]

/-- A name is read back: an ASCII text without NULs that is not too long. -/
theorem readName_append {path : Text} (hpath : Ascii path) (hnul : '\x00' ∉ path) (hne : path ≠ [])
    (hlong : path.length ≤ 4096) (tail : Bytes) :
    readName (path.length + 1) (asciiBytes path ++ [0] ++
      padding (newcHeaderBytes + (path.length + 1)) ++ tail) = .ok (path, tail) := by
  have hlength : (asciiBytes path ++ [0]).length = path.length + 1 := by
    rw [List.length_append, asciiBytes, List.length_map]
    rfl
  have hpos := List.length_pos_iff.mpr hne
  have hguard : ¬(path.length + 1 < 2 ∨ 4097 < path.length + 1 ∨
      (asciiBytes path ++ [0] ++ (padding (newcHeaderBytes + (path.length + 1)) ++ tail)).length <
        path.length + 1) := by
    rw [List.length_append, hlength]
    omega
  -- So the NUL behind the name is the only one.
  have hmem : (0 : UInt8) ∉ asciiBytes path := by
    intro h
    obtain ⟨c, hc, hzero⟩ := List.mem_map.mp h
    have hnat := Account.toNat_asciiByte (hpath c hc)
    rw [hzero] at hnat
    have hchar : c.toNat = '\x00'.toNat := hnat.symm
    exact hnul (Char.toNat_inj.mp hchar ▸ hc)
  have hdecode : decodeAscii (asciiBytes path) = some path := decodeAscii_eq_some.mpr ⟨hpath, rfl⟩
  have hname :
      ¬((asciiBytes path ++ [0]).getLast? ≠ some 0 ∨ 0 ∈ (asciiBytes path ++ [0]).dropLast) := by
    rw [not_or, not_not, List.getLast?_concat, List.dropLast_concat]
    exact ⟨rfl, hmem⟩
  rw [List.append_assoc, readName, if_neg hguard]
  dsimp only
  rw [List.take_left' hlength, List.drop_left' hlength, if_neg hname, List.dropLast_concat, hdecode]
  dsimp only
  rw [padding, readPadding_replicate]
  rfl

/-- Data are read back. -/
theorem readData_append {data : Bytes} (hdata : data.length ≤ maxOciInitramfsEntryBytes)
    (tail : Bytes) :
    readData data.length (data ++ padding data.length ++ tail) = .ok (data, tail) := by
  have hguard : ¬(maxOciInitramfsEntryBytes < data.length ∨
      (data ++ (padding data.length ++ tail)).length < data.length) := by
    rw [List.length_append]
    omega
  rw [List.append_assoc, readData, if_neg hguard, List.drop_left, List.take_left, padding,
    readPadding_replicate]
  rfl

/-- What the writer can write in a record so that it can be read. -/
structure Writable (inode mode : ℕ) (path : Text) (data : Bytes) : Prop where
  inode_lt : inode < 16 ^ 8
  mode_lt : mode < 16 ^ 8
  ascii : Ascii path
  nul_notMem : '\x00' ∉ path
  path_ne_nil : path ≠ []
  path_length : path.length ≤ 4096
  data_length : data.length ≤ maxOciInitramfsEntryBytes

namespace Writable

variable {inode mode : ℕ} {path : Text} {data : Bytes}

theorem fits (h : Writable inode mode path data) :
    Fits inode mode data.length (path.length + 1) := by
  have hdata := h.data_length
  have hpath := h.path_length
  have hlimit : maxOciInitramfsEntryBytes < 16 ^ 8 := by decide
  have hname : 4097 < 16 ^ 8 := by decide
  exact ⟨h.inode_lt, h.mode_lt, by omega, by omega⟩

theorem newcRecord_eq (h : Writable inode mode path data) :
    newcRecord inode mode path data = headerBytes inode mode data.length (path.length + 1) ++
      (asciiBytes path ++ [0] ++ padding (newcHeaderBytes + (path.length + 1)) ++
        (data ++ padding data.length)) := by
  have hname : (asciiBytes path ++ [0]).length = path.length + 1 := by
    rw [List.length_append, asciiBytes, List.length_map]
    rfl
  have hheader := length_headerBytes h.fits
  rw [newcRecord, hname, ← headerBytes, hheader]
  simp only [List.append_assoc]

end Writable

/-- **A record is read back**, whatever follows it. -/
theorem readRecord_newcRecord {inode mode : ℕ} {path : Text} {data : Bytes}
    (h : Writable inode mode path data) (tail : Bytes) :
    readRecord (newcRecord inode mode path data ++ tail) inode =
      .ok ⟨writtenHeader inode mode data.length (path.length + 1), path, data, tail⟩ := by
  have hmetadata : checkMetadata (writtenHeader inode mode data.length (path.length + 1)) inode =
      .ok () := by
    rw [checkMetadata, if_neg (by simp [writtenHeader])]
  have hname := readName_append h.ascii h.nul_notMem h.path_ne_nil h.path_length
    (data ++ padding data.length ++ tail)
  rw [← List.append_assoc _ (data ++ padding data.length)] at hname
  rw [h.newcRecord_eq, List.append_assoc, readRecord, readHeader_headerBytes h.fits]
  dsimp only [bind, Except.bind]
  rw [List.drop_left' (length_headerBytes h.fits), writtenHeader_namesize, hname]
  dsimp only
  rw [writtenHeader_filesize, readData_append h.data_length]
  dsimp only
  rw [hmetadata]
  rfl

/-! ### Archives -/

theorem toNat_lt_of_isAlphanum {c : Char} (h : c.isAlphanum = true) : c.toNat < 0x80 := by
  unfold Char.isAlphanum Char.isAlpha Char.isUpper Char.isLower at h
  simp only [Char.isDigit, Bool.or_eq_true, Bool.and_eq_true, decide_eq_true_eq, ge_iff_le,
    UInt32.le_iff_toNat_le] at h
  have hval : c.toNat = c.val.toNat := rfl
  rw [hval]
  rcases h with (⟨-, h⟩ | ⟨-, h⟩) | ⟨-, h⟩ <;> exact lt_of_le_of_lt h (by decide)

/-- The characters of a path. -/
theorem isPathChar_of_mem {path : Text} (h : isCanonicalPath path = true) {c : Char}
    (hc : c ∈ path) : isPathChar c = true ∨ c = '/' := by
  simp only [isCanonicalPath, Bool.and_eq_true] at h
  have hmatch := Regex.fullMatch_iff.mp h.1.2
  have hconsume := hmatch.mayConsume hc
  simp only [pathRe, Regex.many1, Project.textStart, Project.textEnd, Regex.mayConsume,
    Bool.or_eq_true, decide_eq_true_eq, Bool.false_eq_true] at hconsume
  tauto

theorem toNat_lt_of_isPathChar {c : Char} (h : isPathChar c = true ∨ c = '/') : c.toNat < 0x80 := by
  rcases h with h | rfl
  · simp only [isPathChar, Bool.or_eq_true, decide_eq_true_eq] at h
    rcases h with ((h | rfl) | rfl) | rfl
    · exact toNat_lt_of_isAlphanum h
    all_goals decide
  · decide

namespace NewcEntry

variable (e : NewcEntry)

theorem ascii : Ascii e.path :=
  fun _ hc => toNat_lt_of_isPathChar (isPathChar_of_mem e.path_canonical hc)

/-- No path is the trailer's name. -/
theorem path_ne_trailer : e.path ≠ trailer := by
  intro h
  have hmem : '!' ∈ e.path := by
    rw [h]
    decide
  rcases isPathChar_of_mem e.path_canonical hmem with h | h
  · exact absurd h (by decide)
  · exact absurd h (by decide)

theorem writable {inode : ℕ} (hinode : inode < 16 ^ 8) : Writable inode e.mode e.path e.data := by
  have hpath := e.path_canonical
  simp only [isCanonicalPath, Bool.and_eq_true, decide_eq_true_eq] at hpath
  obtain ⟨⟨⟨⟨⟨⟨hne, hlong⟩, hnul⟩, -⟩, -⟩, -⟩, -⟩ := hpath
  have hmode : ∀ mode ∈ supportedModes, mode < 16 ^ 8 := by decide
  exact ⟨hinode, hmode _ e.mode_mem, e.ascii, by simpa using hnul, by simpa using hne, hlong,
    e.data_length⟩

theorem newcEntry_eq : newcEntry e.path e.mode e.data = .ok e := by
  rw [newcEntry, dif_pos e.path_canonical, dif_pos e.mode_mem, dif_pos e.data_length,
    dif_pos e.directory_empty]

end NewcEntry

theorem trailer_writable {inode : ℕ} (hinode : inode < 16 ^ 8) : Writable inode 0 trailer [] :=
  ⟨hinode, by decide, List.all_iff_forall_prop.mp (by decide), by decide, by decide, by decide,
    Nat.zero_le _⟩

theorem length_newcRecord_pos (inode mode : ℕ) (path : Text) (data : Bytes) :
    0 < (newcRecord inode mode path data).length := by
  have hmagic := length_newcMagic
  simp only [newcRecord, List.length_append]
  omega

theorem length_le_newcRecords (entries : List NewcEntry) (index : ℕ) :
    entries.length ≤ (newcRecords index entries).length := by
  induction entries generalizing index with
  | nil => exact Nat.zero_le _
  | cons e entries ih =>
    have hpos := length_newcRecord_pos index e.mode e.path e.data
    have hrest := ih (index + 1)
    rw [newcRecords, List.length_append, List.length_cons]
    omega

/-- The trailer is read as the end, and nothing may follow it. -/
theorem parseFrom_trailer {done : List NewcEntry} (hdone : done.length ≤ maxOciInitramfsEntries)
    (rounds : ℕ) (tail : Bytes) :
    parseFrom (rounds + 1) (newcRecord (done.length + 1) 0 trailer [] ++ tail) done =
      if tail = [] then .ok done else refuse "initramfs newc trailer is invalid" := by
  have hinode : done.length + 1 < 16 ^ 8 := lt_of_le_of_lt (Nat.succ_le_succ hdone) (by decide)
  have hne : newcRecord (done.length + 1) 0 trailer [] ++ tail ≠ [] := by
    have hpos := length_newcRecord_pos (done.length + 1) 0 trailer []
    exact List.append_ne_nil_of_left_ne_nil (List.length_pos_iff.mp hpos) tail
  rw [parseFrom, if_neg hne, readRecord_newcRecord (trailer_writable hinode)]
  dsimp only [bind, Except.bind]
  rw [if_pos rfl]
  by_cases htail : tail = []
  · rw [if_neg (by simp [writtenHeader, htail]), if_pos htail]
  · rw [if_pos (by simp [htail]), if_neg htail]

/-- **The records of entries are read as the entries.** -/
theorem parseFrom_newcRecords (entries done : List NewcEntry)
    (hcount : done.length + entries.length ≤ maxOciInitramfsEntries) (rounds : ℕ)
    (hrounds : entries.length < rounds) (tail : Bytes) :
    parseFrom rounds (newcRecords (done.length + 1) entries ++
        (newcRecord (done.length + entries.length + 1) 0 trailer [] ++ tail)) done =
      if tail = [] then .ok (done ++ entries)
      else refuse "initramfs newc trailer is invalid" := by
  induction entries generalizing done rounds with
  | nil =>
    obtain ⟨rounds, rfl⟩ := Nat.exists_eq_add_one_of_ne_zero (Nat.ne_of_gt hrounds)
    rw [newcRecords, List.nil_append, List.append_nil]
    exact parseFrom_trailer hcount rounds tail
  | cons e entries ih =>
    obtain ⟨rounds, rfl⟩ := Nat.exists_eq_add_one_of_ne_zero (Nat.ne_zero_of_lt hrounds)
    rw [List.length_cons] at hcount hrounds
    have hinode : done.length + 1 < 16 ^ 8 :=
      lt_of_le_of_lt (show _ ≤ maxOciInitramfsEntries by omega) (by decide)
    have hlength : (done ++ [e]).length = done.length + 1 := List.length_append
    -- The first record is read, and its number is that of the next entry.
    have hrest := ih (done ++ [e]) (by rw [hlength]; omega) rounds (by omega)
    rw [hlength, List.append_assoc, List.singleton_append] at hrest
    have hnumber : done.length + (e :: entries).length + 1 =
        done.length + 1 + entries.length + 1 := by
      rw [List.length_cons]
      omega
    have hne : newcRecords (done.length + 1) (e :: entries) ≠ [] := by
      have hle := length_le_newcRecords (e :: entries) (done.length + 1)
      exact List.length_pos_iff.mp (lt_of_lt_of_le (Nat.succ_pos _) hle)
    rw [parseFrom, if_neg (List.append_ne_nil_of_left_ne_nil hne _), newcRecords, List.append_assoc,
      readRecord_newcRecord (e.writable hinode), hnumber]
    dsimp only [bind, Except.bind]
    rw [if_neg e.path_ne_trailer, writtenHeader_mode, e.newcEntry_eq]
    dsimp only
    rw [if_neg (by omega)]
    exact hrest

/-- What the writer checks of the entries and of the archive, and what it writes. -/
structure IsArchive (entries : List NewcEntry) (payload : Bytes) : Prop where
  count_pos : 1 ≤ entries.length
  count_le : entries.length ≤ maxOciInitramfsEntries
  ordered : (entries.map (·.path)).Pairwise (· < ·)
  parents : ∀ e ∈ entries, ∀ parent ∈ Initramfs.parents e.path,
    ∃ d ∈ entries, isDirMode d.mode = true ∧ d.path = parent
  written : payload = newcRecords 1 entries ++ newcRecord (entries.length + 1) 0 trailer []
  length_le : payload.length ≤ maxOciInitramfsBytes

/-- The writer takes these entries and writes this archive. -/
theorem buildNewc_eq_ok {entries : List NewcEntry} {payload : Bytes} :
    buildNewc entries = .ok payload ↔ IsArchive entries payload := by
  constructor
  · intro h
    obtain ⟨hcount, h⟩ := of_check h
    obtain ⟨horder, h⟩ := of_check h
    obtain ⟨hparents, h⟩ := of_check h
    obtain ⟨hsize, h⟩ := of_check h
    obtain ⟨hone, hmany⟩ := not_not.mp hcount
    obtain ⟨hsorted, hnodup⟩ := not_or.mp horder
    have hpayload := (Except.ok.inj h).symm
    refine ⟨hone, hmany, ?_, ?_, hpayload, ?_⟩
    -- Sorted and without doubles is strictly increasing.
    · have hle : (entries.map (·.path)).Pairwise (· ≤ ·) := by
        rw [not_not.mp hsorted]
        exact List.pairwise_insertionSort _ _
      exact (hle.and (not_not.mp hnodup)).imp fun hpair => lt_of_le_of_ne hpair.1 hpair.2
    · intro e he parent hparent
      by_contra hmissing
      refine hparents (List.any_eq_true.mpr ⟨e.path, List.mem_map_of_mem he, ?_⟩)
      refine List.any_eq_true.mpr ⟨parent, hparent, decide_eq_true ?_⟩
      intro hmem
      obtain ⟨d, hd, rfl⟩ := List.mem_map.mp hmem
      obtain ⟨hd, hdir⟩ := List.mem_filter.mp hd
      exact hmissing ⟨d, hd, hdir, rfl⟩
    · rw [hpayload]
      exact not_lt.mp hsize
  · intro h
    have hsorted : entries.map (·.path) = (entries.map (·.path)).insertionSort (· ≤ ·) :=
      (h.ordered.imp le_of_lt).insertionSort_eq.symm
    have hnodup : (entries.map (·.path)).Nodup := h.ordered.imp ne_of_lt
    have hparents : ¬(entries.map (·.path)).any (fun path => (Initramfs.parents path).any
        (· ∉ (entries.filter fun e => isDirMode e.mode).map (·.path))) = true := by
      intro hmissing
      obtain ⟨path, hpath, hmissing⟩ := List.any_eq_true.mp hmissing
      obtain ⟨e, he, rfl⟩ := List.mem_map.mp hpath
      obtain ⟨parent, hparent, hmissing⟩ := List.any_eq_true.mp hmissing
      obtain ⟨d, hd, hdir, rfl⟩ := h.parents e he parent hparent
      exact of_decide_eq_true hmissing (List.mem_map_of_mem (List.mem_filter.mpr ⟨hd, hdir⟩))
    rw [buildNewc, if_neg (not_not.mpr ⟨h.count_pos, h.count_le⟩)]
    dsimp only
    rw [if_neg (not_or.mpr ⟨not_not.mpr hsorted, not_not.mpr hnodup⟩), if_neg hparents,
      ← h.written, if_neg (not_lt.mpr h.length_le)]

/-- **An archive is read as the entries that it is written for.** -/
theorem parseNewc_eq_ok {entries : List NewcEntry} {payload : Bytes} :
    parseNewc payload = .ok entries ↔ buildNewc entries = .ok payload := by
  constructor
  · intro h
    obtain ⟨-, h⟩ := of_check h
    obtain ⟨result, -, h⟩ := bind_eq_ok.mp h
    obtain ⟨rebuilt, hbuilt, h⟩ := bind_eq_ok.mp h
    obtain ⟨hsame, h⟩ := of_check h
    rw [← Except.ok.inj h, hbuilt, not_not.mp hsame]
  · intro h
    obtain ⟨-, hcount, -, -, hpayload, hsize⟩ := buildNewc_eq_ok.mp h
    have hrecords := length_le_newcRecords entries 1
    have htrailer := length_newcRecord_pos (entries.length + 1) 0 trailer []
    have hlength := congrArg List.length hpayload
    rw [List.length_append] at hlength
    have hguard : ¬(payload = [] ∨ maxOciInitramfsBytes < payload.length) := by
      rintro (rfl | hlarge)
      · rw [List.length_nil] at hlength
        omega
      · omega
    have hread := parseFrom_newcRecords entries [] (by rw [List.length_nil]; omega)
      (payload.length + 1) (by omega) []
    rw [List.length_nil, Nat.zero_add, Nat.zero_add, List.append_nil, ← hpayload, if_pos rfl,
      List.nil_append] at hread
    rw [parseNewc, if_neg hguard, hread]
    dsimp only [bind, Except.bind]
    rw [h]
    dsimp only
    rw [if_neg (not_not.mpr rfl)]

/-- Nothing may follow an archive. -/
theorem parseNewc_append {entries : List NewcEntry} {payload tail : Bytes}
    (h : parseNewc payload = .ok entries) (htail : tail ≠ []) (entries' : List NewcEntry) :
    parseNewc (payload ++ tail) ≠ .ok entries' := by
  intro h'
  obtain ⟨-, hcount, -, -, hpayload, -⟩ := buildNewc_eq_ok.mp (parseNewc_eq_ok.mp h)
  obtain ⟨-, h'⟩ := of_check h'
  obtain ⟨result, hresult, -⟩ := bind_eq_ok.mp h'
  have hrecords := length_le_newcRecords entries 1
  have hlength := congrArg List.length hpayload
  rw [List.length_append] at hlength
  have hread := parseFrom_newcRecords entries [] (by rw [List.length_nil]; omega)
    ((payload ++ tail).length + 1) (by rw [List.length_append]; omega) tail
  rw [List.length_nil, Nat.zero_add, Nat.zero_add, ← List.append_assoc, ← hpayload, if_neg htail,
    hresult] at hread
  cases hread

/-! ### The loop ends -/

theorem avoids_refuse {α : Type} (message : String) :
    Avoids NewcFault.diverges (refuse message : Except NewcFault α) := avoids_error nofun

theorem avoids_check {α : Type} {p : Prop} [Decidable p] {message : String} {x : Except NewcFault α}
    (h : ¬p → Avoids .diverges x) : Avoids .diverges (if p then refuse message else x) :=
  Avoids.ite (fun _ => avoids_refuse message) h

theorem avoids_readHeader (rest : Bytes) : Avoids .diverges (readHeader rest) := by
  have hfield : ∀ raw, Avoids .diverges (hexField raw) := fun _ => avoids_check fun _ => avoids_ok _
  refine avoids_check fun _ => ?_
  dsimp only
  repeat refine (hfield _).bind fun _ _ => ?_
  exact avoids_ok _

theorem avoids_readPadding (size : ℕ) (message : String) (rest : Bytes) :
    Avoids .diverges (readPadding size message rest) := avoids_check fun _ => avoids_ok _

theorem avoids_readRecord (rest : Bytes) (expectedInode : ℕ) :
    Avoids .diverges (readRecord rest expectedInode) := by
  refine (avoids_readHeader rest).bind fun header _ => ?_
  have hname : Avoids .diverges (readName header.namesize (rest.drop newcHeaderBytes)) := by
    refine avoids_check fun _ => avoids_check fun _ => ?_
    split
    · exact avoids_refuse _
    · exact (avoids_readPadding _ _ _).bind fun _ _ => avoids_ok _
  refine hname.bind fun named _ => ?_
  have hdata : Avoids .diverges (readData header.filesize named.2) :=
    avoids_check fun _ => (avoids_readPadding _ _ _).bind fun _ _ => avoids_ok _
  refine hdata.bind fun read _ => ?_
  have hmetadata : Avoids .diverges (checkMetadata header expectedInode) :=
    avoids_check fun _ => avoids_ok _
  exact hmetadata.bind fun _ _ => avoids_ok _

theorem avoids_newcEntry (path : Text) (mode : ℕ) (data : Bytes) :
    Avoids .diverges (newcEntry path mode data) := by
  unfold newcEntry
  split_ifs
  · exact avoids_ok _
  all_goals exact avoids_refuse _

/-- A round goes past a header. -/
theorem length_readRecord {rest : Bytes} {expectedInode : ℕ} {read : NewcRead}
    (h : readRecord rest expectedInode = .ok read) : read.rest.length < rest.length := by
  obtain ⟨header, hheader, h⟩ := bind_eq_ok.mp h
  obtain ⟨⟨path, named⟩, hname, h⟩ := bind_eq_ok.mp h
  obtain ⟨⟨data, left⟩, hdata, h⟩ := bind_eq_ok.mp h
  obtain ⟨-, -, h⟩ := bind_eq_ok.mp h
  obtain rfl := Except.ok.inj h
  obtain ⟨hguard, -⟩ := of_check hheader
  have hpositive : 0 < newcHeaderBytes := by decide
  -- What is behind the name and behind the data is what is left after dropping.
  have hpadding : ∀ {size : ℕ} {message : String} {b left : Bytes},
      readPadding size message b = .ok left → left.length ≤ b.length := by
    intro size message b left hleft
    obtain ⟨-, hleft⟩ := of_check hleft
    rw [← Except.ok.inj hleft, List.length_drop]
    exact Nat.sub_le _ _
  have hnamed : named.length ≤ (rest.drop newcHeaderBytes).length := by
    obtain ⟨-, hname⟩ := of_check hname
    obtain ⟨-, hname⟩ := of_check hname
    split at hname
    · cases hname
    · obtain ⟨left, hleft, hname⟩ := bind_eq_ok.mp hname
      obtain ⟨-, rfl⟩ := Prod.mk.inj (Except.ok.inj hname)
      exact (hpadding hleft).trans (by rw [List.length_drop]; exact Nat.sub_le _ _)
  have hleft : left.length ≤ named.length := by
    obtain ⟨-, hdata⟩ := of_check hdata
    obtain ⟨left', hleft, hdata⟩ := bind_eq_ok.mp hdata
    obtain ⟨-, rfl⟩ := Prod.mk.inj (Except.ok.inj hdata)
    exact (hpadding hleft).trans (by rw [List.length_drop]; exact Nat.sub_le _ _)
  rw [List.length_drop] at hnamed
  dsimp only
  omega

theorem avoids_parseFrom {rounds : ℕ} {rest : Bytes} (hrounds : rest.length < rounds)
    (entries : List NewcEntry) : Avoids .diverges (parseFrom rounds rest entries) := by
  induction rounds generalizing rest entries with
  | zero => exact absurd hrounds (Nat.not_lt_zero _)
  | succ rounds ih =>
    refine avoids_check fun _ => (avoids_readRecord _ _).bind fun read hread => ?_
    have hshorter := length_readRecord hread
    refine Avoids.ite (fun _ => avoids_check fun _ => avoids_ok _) fun _ => ?_
    exact (avoids_newcEntry _ _ _).bind fun entry _ => avoids_check fun _ => ih (by omega) _

/-- The reader ends on every input. -/
theorem avoids_parseNewc (payload : Bytes) : Avoids .diverges (parseNewc payload) := by
  refine avoids_check fun _ => (avoids_parseFrom (Nat.lt_succ_self _) []).bind fun result _ => ?_
  have hbuild : Avoids .diverges (buildNewc result) :=
    avoids_check fun _ => avoids_check fun _ => avoids_check fun _ => avoids_check fun _ =>
      avoids_ok _
  exact hbuild.bind fun _ _ => avoids_check fun _ => avoids_ok _

/-- **Writing and reading archives undo each other.** The reader accepts a byte string as the
entries that it is written for, and raises on every other one. The archives are those of entries
that are in order, each once and with their parents. No other bytes are accepted as the same
entries, and nothing may follow an archive. -/
theorem newc_bijection (payload : Bytes) :
    (∀ entries, parseNewc payload = .ok entries ↔ buildNewc entries = .ok payload) ∧
      (∀ entries, buildNewc entries = .ok payload ↔ IsArchive entries payload) ∧
      ((∃ entries, buildNewc entries = .ok payload) ∨
        ∃ message, parseNewc payload = .error (.raised message)) ∧
      ∀ entries, parseNewc payload = .ok entries →
        (entries.map (·.path)).Pairwise (· < ·) ∧
          (∀ e ∈ entries, ∀ parent ∈ parents e.path,
            ∃ d ∈ entries, isDirMode d.mode = true ∧ d.path = parent) ∧
          (∀ other, parseNewc other = .ok entries → other = payload) ∧
          ∀ tail ≠ [], ∀ entries', parseNewc (payload ++ tail) ≠ .ok entries' := by
  refine ⟨fun _ => parseNewc_eq_ok, fun _ => buildNewc_eq_ok, ?_, ?_⟩
  · cases hparse : parseNewc payload with
    | ok entries => exact .inl ⟨entries, parseNewc_eq_ok.mp hparse⟩
    | error fault =>
      cases fault with
      | raised message => exact .inr ⟨message, rfl⟩
      | diverges => exact absurd hparse (avoids_parseNewc payload)
  · intro entries h
    have hbuilt := parseNewc_eq_ok.mp h
    have harchive := buildNewc_eq_ok.mp hbuilt
    refine ⟨harchive.ordered, harchive.parents, fun other hother => ?_,
      fun tail htail => parseNewc_append h htail⟩
    exact Except.ok.inj ((parseNewc_eq_ok.mp hother).symm.trans hbuilt)

/-- A directory with a program in it. -/
def sampleEntries : List NewcEntry :=
  [⟨"bin".toList, 0o040755, [], by decide, by decide, by decide, fun _ => rfl⟩,
    ⟨"bin/init".toList, 0o100755, [35, 33], by decide, by decide, by decide, nofun⟩]

/-- Its archive is read back, and nothing may follow it. -/
theorem newc_bijection_sample : ∃ payload, payload.length = 364 ∧
    parseNewc payload = .ok sampleEntries ∧
      ∀ tail ≠ [], ∀ entries, parseNewc (payload ++ tail) ≠ .ok entries := by
  let payload := newcRecords 1 sampleEntries ++ newcRecord 3 0 trailer []
  have hlength : payload.length = 364 := by decide +kernel
  have harchive : IsArchive sampleEntries payload :=
    ⟨by decide, by decide, by decide, by decide, rfl, by rw [hlength]; decide⟩
  have h := newc_bijection payload
  have hread := (h.1 sampleEntries).mpr ((h.2.1 sampleEntries).mpr harchive)
  exact ⟨payload, hlength, hread, (h.2.2.2 sampleEntries hread).2.2.2⟩

end Palimpsest.Initramfs
