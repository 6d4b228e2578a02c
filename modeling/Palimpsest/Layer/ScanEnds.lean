import Palimpsest.Changeset.LayerTree
import Palimpsest.Layer.Headers

/-!
# Every scan ends

Each round of the scanner's loop goes past a header, each round of the PAX reader past a
record, and the reducer that gets the members never meets an absolute path, because
`_validate_path` lets none through. So no archive makes the scanner run forever
(`Palimpsest.Layer.scanTar_ends`).
-/

namespace Palimpsest

open Results PosixPath

variable {π : Type} {m : ChangesetMember π} {ms : List (ChangesetMember π)}

/-! ### Archives without absolute paths -/

theorem avoids_keyOf {t : Text} {f : RelPath → Action} (hne : t ≠ []) (hrel : isAbs t = false) :
    Avoids Fault.diverges (keyOf t >>= fun p => .ok (f p)) := by
  rw [keyOf, RelPath.ofText?, dif_pos ⟨hne, hrel⟩]
  exact avoids_ok _

theorem parentText_ne_nil (path : Text) : parentText path ≠ [] := by
  rw [parentText]
  split_ifs with h
  · exact List.cons_ne_nil _ _
  · exact h

theorem isAbs_parentText {path : Text} (h : isAbs path = false) :
    isAbs (parentText path) = false := by
  rw [parentText]
  split_ifs
  · rfl
  · exact isAbs_dirname_eq_false h

/-- A whiteout in a relative directory names a relative path. -/
theorem isAbs_whiteoutTargetText {path : Text} (h : isAbs path = false) :
    isAbs (whiteoutTargetText path) = false := by
  have hname : isAbs ((basename path).drop whiteoutStart.length) = false := by
    cases htarget : (basename path).drop whiteoutStart.length with
    | nil => rfl
    | cons c name =>
      have hmem : c ∈ basename path := List.mem_of_mem_drop (htarget ▸ List.mem_cons_self ..)
      have hslash : c ≠ '/' := fun heq => slash_not_mem_basename path (heq ▸ hmem)
      simpa [isAbs] using hslash
  rw [whiteoutTargetText]
  split_ifs
  · exact hname
  · rw [join, if_neg (by rw [hname]; exact Bool.false_ne_true)]
    -- Either way the directory is a prefix of the path.
    split_ifs
    · rw [← isAbs_of_isPrefix (List.prefix_append _ _) (parentText_ne_nil path)]
      exact isAbs_parentText h
    · rw [← isAbs_of_isPrefix (List.prefix_append _ _) (parentText_ne_nil path)]
      exact isAbs_parentText h

theorem whiteoutTargetText_ne_nil {path : Text}
    (h : (basename path).drop whiteoutStart.length ≠ []) : whiteoutTargetText path ≠ [] := by
  rw [whiteoutTargetText]
  split_ifs
  · exact h
  · rw [join]
    split_ifs
    · exact h
    · exact fun hnil => h (List.append_eq_nil_iff.mp hnil).2
    · exact fun hnil => List.cons_ne_nil _ _ (List.append_eq_nil_iff.mp hnil).2

theorem avoids_classify (h : isAbs m.path = false) : Avoids Fault.diverges (classify m) := by
  rw [classify]
  refine Avoids.ite (fun _ => Avoids.ite (fun _ => avoids_error (by rintro ⟨⟩)) fun _ =>
    avoids_keyOf (parentText_ne_nil _) (isAbs_parentText h)) fun _ => ?_
  refine Avoids.ite (fun _ => ?_) fun _ => avoids_keyOf m.path_ne_nil h
  refine Avoids.ite (fun _ => avoids_error (by rintro ⟨⟩)) fun hname => ?_
  refine Avoids.ite (fun _ => avoids_error (by rintro ⟨⟩)) fun _ => ?_
  exact avoids_keyOf (whiteoutTargetText_ne_nil fun hnil => hname (.inl hnil))
    (isAbs_whiteoutTargetText h)

theorem Reduction.avoids_step {st : Reduction π} (h : isAbs m.path = false) :
    Avoids Fault.diverges (st.step m) := by
  refine (avoids_classify h).bind fun a _ => ?_
  cases a with
  | opq d => exact avoids_ok _
  | whiteout t => exact avoids_ok _
  | place p =>
    rw [Reduction.act, Reduction.placeMember]
    split
    · exact avoids_ok _
    · refine Avoids.ite (fun _ => avoids_error (by rintro ⟨⟩)) fun _ => ?_
      dsimp only
      split
      · exact Avoids.ite (fun _ => avoids_ok _) fun _ =>
          Avoids.ite (fun _ => avoids_error (by rintro ⟨⟩)) fun _ => avoids_ok _
      · exact avoids_ok _
    · exact avoids_ok _

theorem Reduction.avoids_run {st : Reduction π} (h : ∀ m ∈ ms, isAbs m.path = false) :
    Avoids Fault.diverges (st.run ms) := by
  induction ms generalizing st with
  | nil => exact avoids_ok _
  | cons m ms ih =>
    rw [Reduction.run, List.foldlM_cons]
    exact (Reduction.avoids_step (h m (List.mem_cons_self ..))).bind fun _ _ =>
      ih fun m hm => h m (List.mem_cons_of_mem _ hm)

/-- **The reducer ends** on every archive without absolute paths. -/
theorem avoids_normalizeChangeset (h : ∀ m ∈ ms, isAbs m.path = false) :
    Avoids Fault.diverges (normalizeChangeset ms) := by
  rw [normalizeChangeset]
  refine Avoids.ite (fun _ => avoids_error (by rintro ⟨⟩)) fun _ => ?_
  refine (Reduction.avoids_run h).bind fun st hrun => ?_
  by_cases hw : st.Waits
  · rw [Reduction.finish_of_waits hw]
    exact avoids_error (by rintro ⟨⟩)
  · obtain ⟨out, hout, -⟩ := Reduction.finish_eq (N := ms.length) hrun hw
    rw [hout]
    exact avoids_ok _

namespace Layer

variable {limits : LayerConversionLimits} {archive : Bytes}

/-- The program does not run forever. -/
abbrev Ends {α : Type} (x : Except ScanFault α) : Prop := Avoids ScanFault.diverges x

theorem ends_refuse {α : Type} {code detail : String} : Ends (refuse code detail : Except _ α) :=
  avoids_error nofun

/-! ### Fields and records -/

theorem ends_tarNumber {field : Bytes} {label : String} : Ends (tarNumber field label) := by
  unfold tarNumber
  split
  · exact avoids_ok _
  · refine Avoids.ite (fun _ => Avoids.ite (fun _ => ends_refuse) fun _ => avoids_ok _)
      fun _ => ?_
    dsimp only
    split
    · exact ends_refuse
    · exact Avoids.ite (fun _ => ends_refuse) fun _ => avoids_ok _

theorem ends_tarText {field : Bytes} {label : String} : Ends (tarText field label) := by
  rw [tarText]
  refine Avoids.ite (fun _ => ends_refuse) fun _ => ?_
  split
  · exact ends_refuse
  · exact avoids_ok _

theorem ends_validatePath {path : Text} {limit : ℕ} : Ends (validatePath path limit) := by
  rw [validatePath]
  refine Avoids.ite (fun _ => ends_refuse) fun _ => ?_
  refine Avoids.ite (fun _ => avoids_ok _) fun _ => ?_
  refine Avoids.ite (fun _ => ends_refuse) fun _ => ?_
  dsimp only
  split
  · exact ends_refuse
  · refine Avoids.ite (fun _ => ?_) fun _ => ?_
    · exact Avoids.ite (fun _ => avoids_ok _) fun _ => ends_refuse
    · exact Avoids.ite (fun _ => ends_refuse) fun _ => avoids_ok _

theorem ends_paxInteger {pax : Pax} {key : String} {fallback maximum : ℕ} :
    Ends (paxInteger pax key fallback maximum) := by
  rw [paxInteger]
  split
  · exact avoids_ok _
  · refine Avoids.ite (fun _ => ends_refuse) fun _ => ?_
    refine Avoids.ite (fun _ => ends_refuse) fun _ => ?_
    exact Avoids.ite (fun _ => ends_refuse) fun _ => avoids_ok _

theorem ends_readRecord {record : Bytes} : Ends (readRecord record) := by
  rw [readRecord]
  refine Avoids.ite (fun _ => ends_refuse) fun _ => ?_
  split
  · exact ends_refuse
  · refine Avoids.ite (fun _ => avoids_ok _) fun _ => ?_
    refine Avoids.ite (fun _ => ends_refuse) fun _ => ?_
    split
    · exact ends_refuse
    · exact avoids_ok _

/-- Each round of the PAX reader goes past a record. -/
theorem ends_parsePaxFrom {n : ℕ} {rest : Bytes} (h : rest.length < n) {records : Pax} :
    Ends (parsePaxFrom n rest records) := by
  induction n generalizing rest records with
  | zero => omega
  | succ n ih =>
    rw [parsePaxFrom]
    refine Avoids.ite (fun _ => avoids_ok _) fun hrest => ?_
    refine Avoids.ite (fun _ => ends_refuse) fun _ => ?_
    split
    · exact ends_refuse
    · next length _ =>
      refine Avoids.ite (fun _ => ends_refuse) fun hframing => ?_
      refine ends_readRecord.bind fun record _ => ih ?_
      have hlength : 0 < rest.length := List.length_pos_of_ne_nil hrest
      rw [List.length_drop]
      omega

theorem ends_parsePax {payload : Bytes} : Ends (parsePax payload) :=
  ends_parsePaxFrom (Nat.lt_succ_self _)

theorem ends_readAttribute {record : Text × Text} : Ends (readAttribute record) := by
  rw [readAttribute]
  refine Avoids.ite (fun _ => ends_refuse) fun _ => ?_
  refine Avoids.ite (fun _ => avoids_ok _) fun _ => ?_
  refine Avoids.ite (fun _ => ends_refuse) fun _ => ?_
  refine Avoids.ite (fun _ => ends_refuse) fun _ => ?_
  refine Avoids.ite (fun _ => ?_) fun _ => avoids_ok _
  refine Avoids.bind ?_ fun _ _ => avoids_ok _
  rw [checkCapability]
  split
  · exact ends_refuse
  · refine Avoids.ite (fun _ => ends_refuse) fun _ => ?_
    exact Avoids.ite (fun _ => ends_refuse) fun _ => avoids_ok _

theorem ends_xattrsFrom {pax : Pax} {values : List (Text × Text)} {total : ℕ} :
    Ends (xattrsFrom pax values total) := by
  induction pax generalizing values total with
  | nil => exact avoids_ok _
  | cons r pax ih =>
    refine ends_readAttribute.bind fun a _ => ?_
    cases a with
    | none => exact ih
    | some a => exact ih

theorem ends_xattrs {pax : Pax} : Ends (xattrs pax limits) :=
  ends_xattrsFrom.bind fun _ _ => Avoids.ite (fun _ => ends_refuse) fun _ => avoids_ok _

/-! ### Rounds -/

theorem ends_readExactAt {offset size : ℕ} : Ends (readExactAt archive offset size) :=
  Avoids.ite (fun _ => ends_refuse) fun _ => avoids_ok _

theorem ends_checkHeader {header : Bytes} : Ends (checkHeader header) :=
  ends_tarNumber.bind fun _ _ => Avoids.ite (fun _ => ends_refuse) fun _ => avoids_ok _

theorem ends_checkWhiteout {path : RelPath} : Ends (checkWhiteout path limits) := by
  refine Avoids.ite (fun _ => ?_) fun _ => avoids_ok _
  refine Avoids.ite (fun _ => ends_refuse) fun _ => ?_
  exact ends_validatePath.bind fun _ _ => avoids_ok _

theorem ends_readLinkTarget {kind : EntryKind} {linkName : Text} :
    Ends (readLinkTarget kind linkName limits) := by
  cases kind with
  | hardlink => exact ends_validatePath.bind fun _ _ => avoids_ok _
  | symlink =>
    refine Avoids.ite (fun _ => ends_refuse) fun _ => ?_
    exact Avoids.ite (fun _ => ends_refuse) fun _ => avoids_ok _
  | _ => exact avoids_ok _

theorem ends_readFields {header : Bytes} {pax : Pax} {longName longLink : Option Text}
    {memberSize : ℕ} : Ends (readFields limits header pax longName longLink memberSize) := by
  refine ends_tarText.bind fun start _ => ends_tarText.bind fun headerName _ =>
    ends_tarText.bind fun linkName _ => ?_
  refine Avoids.ite (fun _ => ends_refuse) fun _ => ?_
  refine ends_validatePath.bind fun path _ => ends_checkWhiteout.bind fun _ _ => ?_
  refine ends_tarNumber.bind fun mode _ => ?_
  refine ends_tarNumber.bind fun _ _ => ends_paxInteger.bind fun uid _ => ?_
  refine ends_tarNumber.bind fun _ _ => ends_paxInteger.bind fun gid _ => ?_
  refine ends_tarNumber.bind fun _ _ => ends_paxInteger.bind fun mtime _ => ?_
  refine Avoids.ite (fun _ => ends_refuse) fun _ => ?_
  split
  · exact ends_refuse
  · refine Avoids.ite (fun _ => ends_refuse) fun _ => ?_
    refine Avoids.ite (fun _ => ends_refuse) fun _ => ?_
    refine ends_readLinkTarget.bind fun linkTarget _ => ?_
    refine ends_tarNumber.bind fun deviceMajor _ => ends_tarNumber.bind fun _ _ => ?_
    exact Avoids.ite (fun _ => ends_refuse) fun _ => avoids_ok _

theorem ends_scanExtension {s : Scan} {flag : UInt8} {memberSize : ℕ} :
    Ends (scanExtension limits archive s flag memberSize) := by
  refine Avoids.ite (fun _ => ends_refuse) fun _ => ?_
  refine Avoids.ite (fun _ => ends_refuse) fun _ => ?_
  refine ends_readExactAt.bind fun payload _ => ?_
  refine Avoids.ite (fun _ => ends_parsePax.bind fun _ _ => avoids_ok _) fun _ => ?_
  refine Avoids.ite (fun _ => ?_) fun _ => ?_
  · exact Avoids.ite (fun _ => ends_refuse) fun _ =>
      ends_parsePax.bind fun _ _ => avoids_ok _
  · refine Avoids.bind ?_ fun _ _ => Avoids.ite (fun _ => avoids_ok _) fun _ => avoids_ok _
    rw [readLongText]
    split
    · exact ends_refuse
    · exact Avoids.ite (fun _ => ends_refuse) fun _ => avoids_ok _

theorem ends_scanMember {s : Scan} {header : Bytes} {memberSize : ℕ} :
    Ends (scanMember limits archive s header memberSize) := by
  refine Avoids.ite (fun _ => ends_refuse) fun _ => ?_
  refine ends_readFields.bind fun f _ => Avoids.bind ?_ fun _ _ => ?_
  · refine Avoids.ite (fun _ => ?_) fun _ => ?_
    · refine Avoids.ite (fun _ => ends_refuse) fun _ => ?_
      exact Avoids.ite (fun _ => ends_refuse) fun _ => avoids_ok _
    · exact Avoids.ite (fun _ => ends_refuse) fun _ => avoids_ok _
  · refine ends_xattrs.bind fun _ _ => Avoids.ite (fun _ => ends_refuse) fun _ => ?_
    refine Avoids.bind (Avoids.ite (fun _ => ?_) fun _ => avoids_ok _) fun _ _ => avoids_ok _
    exact Avoids.bind (ends_readExactAt.bind fun _ _ => avoids_ok _) fun _ _ => avoids_ok _

theorem ends_scanHeader {s : Scan} {header : Bytes} :
    Ends (scanHeader limits archive s header) := by
  refine Avoids.ite (fun _ => ends_refuse) fun _ => ?_
  refine ends_checkHeader.bind fun _ _ => Avoids.bind ?_ fun _ _ => ?_
  · exact Avoids.ite (fun _ => ends_tarNumber) fun _ =>
      ends_tarNumber.bind fun _ _ => ends_paxInteger
  · refine Avoids.ite (fun _ => ends_refuse) fun _ => ?_
    exact Avoids.ite (fun _ => ends_scanExtension) fun _ => ends_scanMember

theorem ends_finishScan {s : Scan} : Ends (finishScan archive s) := by
  refine Avoids.ite (fun _ => ends_refuse) fun _ => ?_
  refine Avoids.ite (fun _ => ends_refuse) fun _ => ?_
  refine Avoids.ite (fun _ => ends_refuse) fun _ => ?_
  have hends : Avoids Fault.diverges
      (normalizeChangeset (s.members.map PhysicalLayerMember.common)) := by
    refine avoids_normalizeChangeset fun m hm => ?_
    obtain ⟨member, -, rfl⟩ := List.mem_map.mp hm
    exact member.path.rel
  split
  · next h => exact absurd h hends
  · exact ends_refuse
  · exact avoids_ok _

/-! ### The loop -/

/-- There are no more rounds than blocks. -/
theorem ends_scanFrom {rounds : ℕ} {s : Scan} (hle : s.offset ≤ archive.length)
    (hlt : archive.length < s.offset + rounds * block) :
    Ends (scanFrom limits archive rounds s) := by
  induction rounds generalizing s with
  | zero => omega
  | succ rounds ih =>
    refine Avoids.ite (fun _ => ends_refuse) fun _ => ?_
    refine ends_readExactAt.bind fun header _ => ?_
    refine Avoids.ite (fun _ => ends_finishScan) fun _ => ?_
    refine ends_scanHeader.bind fun t ht => ?_
    obtain ⟨hpast, hwithin⟩ := offset_scanHeader ht
    have hrounds : (rounds + 1) * block = rounds * block + block := Nat.succ_mul ..
    exact ih hwithin (by omega)

/-- **Every scan ends.** -/
theorem scanTar_ends (limits : LayerConversionLimits) (archive : Bytes) :
    Ends (scanTar limits archive) := by
  refine Avoids.ite (fun _ => ends_refuse) fun _ => ends_scanFrom (Nat.zero_le _) ?_
  have hblock : archive.length % block < block := Nat.mod_lt _ (by decide)
  have hdiv := Nat.div_add_mod archive.length block
  have hrounds : (archive.length / block + 1) * block =
      block * (archive.length / block) + block := by
    rw [Nat.succ_mul, Nat.mul_comm]
  change archive.length < 0 + _
  omega

end Layer

end Palimpsest
