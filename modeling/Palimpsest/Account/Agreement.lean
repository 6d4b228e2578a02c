import Palimpsest.Account.AccountTexts

/-!
# Host and guest resolve the same identity

For every user that the process specification admits, and whatever the account files hold, the
guest resolves the uid and the gid that the host planned, or both refuse
(`workloadIdentity_eq`). The guest reads an entry as the host does
(`passwdEntry_asciiBytes`, `groupEntry_asciiBytes`), and its one pass with a counter finds what
the host finds by collecting all the entries first (`foldl_passwdFound`).
-/

namespace Palimpsest.Account

open Json Decimal

/-! ### The user of the process -/

/-- A text that the specification admits, as the guest reads it. -/
theorem numericAccount_of_account {t : Text} {fieldName : String}
    (h : account t fieldName = .ok t) :
    Ascii t ∧ numericAccount (asciiBytes t) = (if isDecimal t then some (intValue t) else none) ∧
      (isDecimal t = false → validAccountName (asciiBytes t) = true) := by
  by_cases hdecimal : isDecimal t = true
  · obtain ⟨n, hn, rfl⟩ := (account_eq_ok_of_isDecimal hdecimal).mp h
    refine ⟨ascii_natText n, ?_, fun hfalse => ?_⟩
    · rw [if_pos hdecimal, numericAccount_asciiBytes (ascii_natText n), intValue_natText]
      exact ⟨rfl, hn⟩
    · rw [hdecimal] at hfalse
      cases hfalse
  · have hname := (account_eq_ok_of_not_isDecimal (by simpa using hdecimal)).mp h
    have hascii := ascii_of_isAccountName hname
    refine ⟨hascii, ?_, fun _ => by rw [validAccountName_asciiBytes hascii, hname]⟩
    rw [if_neg hdecimal, Option.eq_none_iff_forall_ne_some]
    intro n hn
    obtain ⟨rfl, _⟩ := (numericAccount_asciiBytes hascii).mp hn
    exact hdecimal (isDecimal_natText n)

theorem ascii_user (spec : OCIUserSpec) : Ascii spec.user :=
  (numericAccount_of_account spec.user_ok).1

theorem numericAccount_user (spec : OCIUserSpec) :
    numericAccount (asciiBytes spec.user) =
      if isDecimal spec.user then some (intValue spec.user) else none :=
  (numericAccount_of_account spec.user_ok).2.1

/-- The process of the plan that is made for the user. -/
def guestProcess (spec : OCIUserSpec) : GuestProcess where
  userName := asciiBytes spec.user
  groupName := asciiBytes (spec.group.getD [])
  uid := if isDecimal spec.user then intValue spec.user else 0
  gid := if isDecimal (spec.group.getD []) then intValue (spec.group.getD []) else 0
  userNumeric := isDecimal spec.user
  groupNumeric := isDecimal (spec.group.getD [])
  groupPresent := spec.group.isSome

theorem validAccountName_of_numericAccount {t : Text} {fieldName : String}
    (h : account t fieldName = .ok t) (hnone : numericAccount (asciiBytes t) = none) :
    validAccountName (asciiBytes t) = true := by
  obtain ⟨_, hnumeric, hname⟩ := numericAccount_of_account h
  refine hname (Bool.eq_false_iff.mpr fun hdecimal => ?_)
  rw [hnone, if_pos hdecimal] at hnumeric
  cases hnumeric

theorem numericAccount_group (spec : OCIUserSpec) :
    numericAccount (asciiBytes (spec.group.getD [])) =
      if isDecimal (spec.group.getD []) then some (intValue (spec.group.getD [])) else none := by
  cases hgroup : spec.group with
  | none => rfl
  | some g => exact (numericAccount_of_account (spec.group_ok g hgroup)).2.1

/-- The guest accepts every user of the specification. -/
theorem parseProcessUser_eq (spec : OCIUserSpec) :
    parseProcessUser (spec.group.map asciiBytes) (asciiBytes spec.user) =
      some (guestProcess spec) := by
  have hname : (spec.group.map asciiBytes).getD [] = asciiBytes (spec.group.getD []) := by
    cases spec.group with
    | none => rfl
    | some g => rfl
  have hgroup : ¬((spec.group.map asciiBytes).isSome ∧
      numericAccount (asciiBytes (spec.group.getD [])) = none ∧
      validAccountName (asciiBytes (spec.group.getD [])) = false) := by
    rintro ⟨hsome, hnone, hfalse⟩
    rw [Option.isSome_map] at hsome
    obtain ⟨g, hg⟩ := Option.isSome_iff_exists.mp hsome
    rw [hg] at hnone hfalse
    have := validAccountName_of_numericAccount (spec.group_ok g hg) hnone
    exact Bool.false_ne_true (hfalse.symm.trans this)
  have huser : ¬(numericAccount (asciiBytes spec.user) = none ∧
      validAccountName (asciiBytes spec.user) = false) := by
    rintro ⟨hnone, hfalse⟩
    have := validAccountName_of_numericAccount spec.user_ok hnone
    exact Bool.false_ne_true (hfalse.symm.trans this)
  have hgetD : ∀ (b : Bool) (n : ℕ), (if b then some n else none).getD 0 = if b then n else 0 := by
    intro b n
    cases b with
    | false => rfl
    | true => rfl
  have hsome : ∀ (b : Bool) (n : ℕ), (if b then some n else none).isSome = b := by
    intro b n
    cases b with
    | false => rfl
    | true => rfl
  rw [parseProcessUser, hname, if_neg hgroup, if_neg huser, numericAccount_user,
    numericAccount_group, Option.isSome_map, hgetD, hgetD, hsome, hsome, guestProcess]

/-! ### Entries -/

/-- Whether the record is one for the user. -/
def MatchesUser (spec : OCIUserSpec) (r : Text × ℕ × ℕ) : Prop :=
  if isDecimal spec.user then r.2.1 = intValue spec.user else r.1 = spec.user

instance (spec : OCIUserSpec) (r : Text × ℕ × ℕ) : Decidable (MatchesUser spec r) :=
  inferInstanceAs (Decidable (ite _ _ _))

/-- What the guest keeps of a record of the passwd file. -/
def passwdFound (spec : OCIUserSpec) (s : Found) (r : Text × ℕ × ℕ) : Found :=
  if (if isDecimal spec.user then r.2.1 = s.uid else r.1 = spec.user) then
    ⟨s.matched + 1, r.2.1, r.2.2⟩
  else s

/-- The fields of an entry, on both sides. -/
theorem accountField_asciiBytes {line : Text} (h : Ascii line) (index : ℕ) :
    accountField (asciiBytes line) index = (line.splitOn ':')[index]?.map asciiBytes := by
  rw [accountField_eq, splitOn_asciiBytes h (by decide), List.getElem?_map]

theorem accountLineFields_asciiBytes {line : Text} (h : Ascii line) (expected : ℕ) :
    accountLineFields (asciiBytes line) expected ↔ (line.splitOn ':').length = expected := by
  rw [accountLineFields_eq, splitOn_asciiBytes h (by decide), List.length_map]

theorem ascii_of_mem_splitOn {line field : Text} (h : Ascii line) {sep : Char}
    (hfield : field ∈ line.splitOn sep) : Ascii field :=
  fun c hc => h c (Lines.subset_of_mem_splitOn hfield hc)

theorem passwdRecord_eq_error {line : Text} (h : (line.splitOn ':').length ≠ 7) :
    (passwdRecord line).toOption = none := by
  unfold passwdRecord
  split
  case h_1 heq => exact absurd (congrArg List.length heq) h
  case h_2 => rfl

theorem matchesProcess_iff (spec : OCIUserSpec) {name : Text} (hname : isAccountName name = true)
    (uid : ℕ) (s : Found) :
    ((guestProcess spec).userNumeric ∧ uid = s.uid ∨
      ¬(guestProcess spec).userNumeric ∧ (guestProcess spec).userName = asciiBytes name) ↔
    if isDecimal spec.user then uid = s.uid else name = spec.user := by
  show (isDecimal spec.user = true ∧ uid = s.uid ∨
    ¬isDecimal spec.user = true ∧ asciiBytes spec.user = asciiBytes name) ↔ _
  rw [asciiBytes_inj (ascii_user spec) (ascii_of_isAccountName hname)]
  split_ifs with h
  · simp [h]
  · simp [h, eq_comm]

/-- **The guest reads an entry of the passwd file as the host does.** -/
theorem passwdEntry_asciiBytes (spec : OCIUserSpec) {line : Text} (h : Ascii line) (s : Found) :
    passwdEntry (guestProcess spec) (asciiBytes line) s =
      (passwdRecord line).toOption.map (passwdFound spec s) := by
  have hcount := accountLineFields_asciiBytes h 7
  rw [passwdEntry]
  by_cases hlength : (line.splitOn ':').length = 7
  · rw [if_pos (hcount.mpr hlength)]
    -- The line has seven fields on both sides, and each reads the name and two numbers.
    obtain ⟨name, a, uid, gid, b, c, d, hfields⟩ :
        ∃ name a uid gid b c d, line.splitOn ':' = [name, a, uid, gid, b, c, d] := by
      match line.splitOn ':', hlength with
      | [name, a, uid, gid, b, c, d], _ => exact ⟨name, a, uid, gid, b, c, d, rfl⟩
    have hascii : ∀ field ∈ [name, a, uid, gid, b, c, d], Ascii field :=
      fun field hfield => ascii_of_mem_splitOn h (by rwa [hfields])
    have huid : Ascii uid := hascii uid (by simp)
    have hgid : Ascii gid := hascii gid (by simp)
    simp only [accountField_asciiBytes h, hfields, List.getElem?_cons_zero,
      List.getElem?_cons_succ, Option.map_some, Option.bind_eq_bind, Option.bind_some,
      validAccountName_asciiBytes (hascii name (by simp)), passwdRecord]
    by_cases hname : isAccountName name
    · rw [if_pos hname, if_pos hname, toOption_bind, accountNumber_toOption huid, Option.map_bind]
      refine Option.bind_congr fun u _ => ?_
      rw [Function.comp_apply, toOption_bind, accountNumber_toOption hgid, Option.map_bind]
      refine Option.bind_congr fun g _ => ?_
      have hmatches := matchesProcess_iff spec hname u s
      show _ = some (passwdFound spec s (name, u, g))
      by_cases hmatch : if isDecimal spec.user then u = s.uid else name = spec.user
      · rw [if_pos (hmatches.mpr hmatch), passwdFound, if_pos hmatch]
        rfl
      · rw [if_neg fun hprocess => hmatch (hmatches.mp hprocess), passwdFound, if_neg hmatch]
        rfl
    · rw [if_neg hname, if_neg hname]
      rfl
  · rw [if_neg fun hline => hlength (hcount.mp hline), passwdRecord_eq_error hlength]
    rfl

/-- What the guest keeps of a record of the group file. -/
def groupFound (name : Text) (s : Found) (r : Text × ℕ) : Found :=
  if r.1 = name then ⟨s.matched + 1, s.uid, r.2⟩ else s

theorem groupRecord_eq_error {line : Text} (h : (line.splitOn ':').length ≠ 4) :
    (groupRecord line).toOption = none := by
  unfold groupRecord
  split
  case h_1 heq => exact absurd (congrArg List.length heq) h
  case h_2 => rfl

/-- **The guest reads an entry of the group file as the host does.** -/
theorem groupEntry_asciiBytes {process : GuestProcess} {group : Text} (hgroup : Ascii group)
    (hprocess : process.groupName = asciiBytes group) {line : Text} (h : Ascii line) (s : Found) :
    groupEntry process (asciiBytes line) s =
      (groupRecord line).toOption.map (groupFound group s) := by
  have hcount := accountLineFields_asciiBytes h 4
  rw [groupEntry]
  by_cases hlength : (line.splitOn ':').length = 4
  · rw [if_pos (hcount.mpr hlength)]
    obtain ⟨name, a, gid, b, hfields⟩ :
        ∃ name a gid b, line.splitOn ':' = [name, a, gid, b] := by
      match line.splitOn ':', hlength with
      | [name, a, gid, b], _ => exact ⟨name, a, gid, b, rfl⟩
    have hascii : ∀ field ∈ [name, a, gid, b], Ascii field :=
      fun field hfield => ascii_of_mem_splitOn h (by rwa [hfields])
    have hnames : process.groupName = asciiBytes name ↔ name = group := by
      rw [hprocess, asciiBytes_inj hgroup (hascii name (by simp)), eq_comm]
    simp only [accountField_asciiBytes h, hfields, List.getElem?_cons_zero,
      List.getElem?_cons_succ, Option.map_some, Option.bind_eq_bind, Option.bind_some,
      validAccountName_asciiBytes (hascii name (by simp)), groupRecord]
    by_cases hname : isAccountName name
    · rw [if_pos hname, if_pos hname, toOption_bind,
        accountNumber_toOption (hascii gid (by simp)), Option.map_bind]
      refine Option.bind_congr fun g _ => ?_
      show _ = some (groupFound group s (name, g))
      by_cases hmatch : name = group
      · rw [if_pos (hnames.mpr hmatch), groupFound, if_pos hmatch]
        rfl
      · rw [if_neg fun heq => hmatch (hnames.mp heq), groupFound, if_neg hmatch]
        rfl
    · rw [if_neg hname, if_neg hname]
      rfl
  · rw [if_neg fun hline => hlength (hcount.mp hline), groupRecord_eq_error hlength]
    rfl

/-! ### Files -/

/-- A loop of the guest on a readable file, against the records that the host reads. -/
theorem scanDatabase_eq {ρ : Type} {record : Text → Except AccountError ρ}
    {entry : List UInt8 → Found → Option Found} {found : Found → ρ → Found}
    (hentry : ∀ {line}, Ascii line → ∀ s,
      entry (asciiBytes line) s = (record line).toOption.map (found s))
    {payload : List UInt8} (h : Readable payload) (fieldName : String) (s : Found) :
    scanDatabase entry payload s =
      (accountLines payload fieldName >>= List.mapM record).toOption.map (List.foldl found s) := by
  have hascii : Ascii (payload.map Char.ofUInt8) := ascii_ofUInt8 fun b hb => (h.2.1 b hb).2
  have hterm := h.2.2
  rw [← asciiBytes_ofUInt8 payload, terminated_asciiBytes hascii] at hterm
  rw [accountLines_eq_ok.mpr ⟨h, rfl⟩, ok_bind, toOption_mapM,
    ← Lines.foldlM_eq_mapM fun s line hline => hentry (ascii_of_mem_entries hascii hline) s,
    ← scanDatabase_asciiBytes hascii hterm, asciiBytes_ofUInt8]

/-- Keeps a record that matches. -/
def keep (s : Found) (r : Text × ℕ × ℕ) : Found := ⟨s.matched + 1, r.2.1, r.2.2⟩

/-- The counter of the guest runs over the records that match. For a numeric user the guest
compares with the uid in the process, which stays what it was. -/
theorem foldl_passwdFound (spec : OCIUserSpec) (records : List (Text × ℕ × ℕ)) {s : Found}
    (hs : isDecimal spec.user → s.uid = intValue spec.user) :
    records.foldl (passwdFound spec) s =
      (records.filter fun r => MatchesUser spec r).foldl keep s := by
  induction records generalizing s with
  | nil => rfl
  | cons r records ih =>
    have hiff : (if isDecimal spec.user then r.2.1 = s.uid else r.1 = spec.user) ↔
        MatchesUser spec r := by
      unfold MatchesUser
      split_ifs with hdecimal
      · rw [hs hdecimal]
      · exact Iff.rfl
    rw [List.foldl_cons, List.filter_cons]
    by_cases hmatch : MatchesUser spec r
    · rw [if_pos (decide_eq_true hmatch), List.foldl_cons, passwdFound, if_pos (hiff.mpr hmatch)]
      refine ih fun hdecimal => ?_
      rwa [MatchesUser, if_pos hdecimal] at hmatch
    · rw [if_neg (by simpa using hmatch), passwdFound, if_neg fun h => hmatch (hiff.mp h)]
      exact ih hs

theorem matched_foldl_keep (records : List (Text × ℕ × ℕ)) (s : Found) :
    (records.foldl keep s).matched = s.matched + records.length := by
  induction records generalizing s with
  | nil => rfl
  | cons r records ih =>
    rw [List.foldl_cons, ih, List.length_cons]
    show s.matched + 1 + records.length = _
    omega

/-- The state of the guest after the passwd file, for what the host has found. -/
def foundOf (r : ℕ × List (Text × ℕ × ℕ)) : Found :=
  ⟨r.2.length, r.1, (r.2.head?.map fun r => r.2.2).getD 0⟩

/-- What the host makes of the records for the user. -/
theorem resolveUser_eq (spec : OCIUserSpec) (records : List (Text × ℕ × ℕ)) :
    (resolveUser spec records).toOption =
      match records.filter fun r => MatchesUser spec r with
      | [] => if isDecimal spec.user then some (intValue spec.user, []) else none
      | [r] => some (r.2.1, [r])
      | _ => none := by
  rw [resolveUser]
  -- A number is looked for among the identifiers, a name among the names.
  by_cases hdecimal : isDecimal spec.user
  · have hfilter : (records.filter fun r => MatchesUser spec r) =
        records.filter fun r => r.2.1 = intValue spec.user :=
      List.filter_congr fun r _ => decide_eq_decide.mpr (by rw [MatchesUser, if_pos hdecimal])
    have hall : ∀ r ∈ records.filter (fun r => r.2.1 = intValue spec.user),
        r.2.1 = intValue spec.user := fun r hr => of_decide_eq_true (List.mem_filter.mp hr).2
    rw [if_pos hdecimal, hfilter]
    generalize records.filter (fun r => r.2.1 = intValue spec.user) = found at hall ⊢
    rcases found with _ | ⟨r, _ | ⟨r', rest⟩⟩
    · rw [if_neg (by decide)]
      exact (if_pos hdecimal).symm
    · rw [if_neg (by simp), ← hall r List.mem_cons_self]
      rfl
    · rw [if_pos (by simp)]
      rfl
  · have hfilter : (records.filter fun r => MatchesUser spec r) =
        records.filter fun r => r.1 = spec.user :=
      List.filter_congr fun r _ => decide_eq_decide.mpr (by rw [MatchesUser, if_neg hdecimal])
    rw [if_neg hdecimal, hfilter]
    generalize records.filter (fun r => r.1 = spec.user) = found
    rcases found with _ | ⟨r, _ | ⟨r', rest⟩⟩
    · exact (if_neg hdecimal).symm
    · rfl
    · rfl

/-- What the guest makes of the state after the passwd file. -/
def checkFound (spec : OCIUserSpec) (found : Found) : Option Found :=
  if (!isDecimal spec.user) = true ∧ found.matched ≠ 1 ∨ 1 < found.matched then none
  else some found

/-- **The guest finds the user where the host does.** -/
theorem checkFound_foldl (spec : OCIUserSpec) (records : List (Text × ℕ × ℕ)) :
    checkFound spec (records.foldl (passwdFound spec) ⟨0, (guestProcess spec).uid, 0⟩) =
      (resolveUser spec records).toOption.map foundOf := by
  have huid : isDecimal spec.user → (guestProcess spec).uid = intValue spec.user :=
    fun h => if_pos h
  rw [resolveUser_eq, foldl_passwdFound spec records huid, checkFound, matched_foldl_keep]
  rcases records.filter fun r => MatchesUser spec r with _ | ⟨r, _ | ⟨r', rest⟩⟩
  · by_cases hdecimal : isDecimal spec.user
    · rw [hdecimal, if_neg (by simp), ← huid hdecimal]
      rfl
    · have hfalse : isDecimal spec.user = false := Bool.eq_false_iff.mpr hdecimal
      rw [hfalse, if_pos (by simp)]
      rfl
  · rw [if_neg (by simp)]
    rfl
  · rw [if_pos (by simp)]
    rfl

/-- What `scan_passwd` starts from. -/
def initialFound (spec : OCIUserSpec) : Found := ⟨0, (guestProcess spec).uid, 0⟩

theorem scanPasswd_guestProcess (spec : OCIUserSpec) (passwd : Option (List UInt8)) :
    scanPasswd (guestProcess spec) passwd =
      (loopPasswd (guestProcess spec) (initialFound spec)
        (if !isDecimal spec.user || !spec.group.isSome then
          readAccountDatabase passwd (!isDecimal spec.user) else .missing)).bind
        (checkFound spec) := rfl

/-- A file of which nothing is kept leaves the user to its number. -/
theorem checkFound_initial (spec : OCIUserSpec) :
    checkFound spec (initialFound spec) = (resolveUser spec []).toOption.map foundOf :=
  checkFound_foldl spec []

/-- Both sides on a passwd file that they read. -/
theorem scanPasswd_file (spec : OCIUserSpec) (payload : List UInt8)
    (hneeds : (!isDecimal spec.user || !spec.group.isSome) = true) :
    scanPasswd (guestProcess spec) (some payload) =
      (passwdRecords spec (some payload) >>= resolveUser spec).toOption.map foundOf := by
  have hrecords : passwdRecords spec (some payload) =
      accountLines payload "passwd" >>= List.mapM passwdRecord := by
    rw [Option.not_isSome] at hneeds
    exact if_pos hneeds
  rw [scanPasswd_guestProcess, if_pos hneeds, hrecords, toOption_bind]
  by_cases hreadable : Readable payload
  · rw [readAccountDatabase_of_readable hreadable]
    show (scanDatabase (passwdEntry (guestProcess spec)) payload (initialFound spec)).bind _ = _
    rw [scanDatabase_eq (passwdEntry_asciiBytes spec) hreadable "passwd", Option.bind_map,
      Option.map_bind]
    exact Option.bind_congr fun records _ => checkFound_foldl spec records
  · rw [readAccountDatabase_of_not_readable hreadable]
    rw [toOption_bind, accountLines_of_not_readable hreadable]
    rfl

/-- The part for the passwd file, on both sides. -/
theorem scanPasswd_eq (spec : OCIUserSpec) (passwd : Option (List UInt8)) :
    scanPasswd (guestProcess spec) passwd =
      (passwdRecords spec passwd >>= resolveUser spec).toOption.map foundOf := by
  by_cases hneeds : (!isDecimal spec.user || !spec.group.isSome) = true
  · cases passwd with
    | some payload => exact scanPasswd_file spec payload hneeds
    | none =>
      rw [scanPasswd_guestProcess, if_pos hneeds]
      show _ = (resolveUser spec []).toOption.map foundOf
      by_cases hdecimal : isDecimal spec.user
      · rw [hdecimal]
        exact checkFound_initial spec
      · have hfalse : isDecimal spec.user = false := Bool.eq_false_iff.mpr hdecimal
        rw [resolveUser_eq, hfalse]
        rfl
  · -- The file is not needed for a number with a group.
    have hrecords : passwdRecords spec passwd = .ok [] := by
      cases passwd with
      | none => rfl
      | some payload =>
        rw [Option.not_isSome] at hneeds
        exact if_neg hneeds
    rw [scanPasswd_guestProcess, if_neg hneeds, hrecords]
    exact checkFound_initial spec

/-- Keeps a record of the group. -/
def keepGroup (s : Found) (r : Text × ℕ) : Found := ⟨s.matched + 1, s.uid, r.2⟩

/-- The counter of the guest runs over the records with the name. -/
theorem foldl_groupFound (name : Text) (records : List (Text × ℕ)) (s : Found) :
    records.foldl (groupFound name) s =
      (records.filter fun r => r.1 = name).foldl keepGroup s := by
  rw [List.foldl_filter]
  refine List.foldl_ext _ _ _ fun s r _ => ?_
  rw [groupFound]
  by_cases hname : r.1 = name
  · rw [if_pos hname, if_pos (decide_eq_true hname)]
    rfl
  · rw [if_neg hname, if_neg (by simpa using hname)]

theorem matched_foldl_keepGroup (records : List (Text × ℕ)) (s : Found) :
    (records.foldl keepGroup s).matched = s.matched + records.length := by
  induction records generalizing s with
  | nil => rfl
  | cons r records ih =>
    rw [List.foldl_cons, ih, List.length_cons]
    show s.matched + 1 + records.length = _
    omega

/-- **The guest finds the group where the host does.** -/
theorem groupOf_toOption (name : Text) (records : List (Text × ℕ)) (uid gid : ℕ) :
    (groupOf name records).toOption =
      let found := records.foldl (groupFound name) ⟨0, uid, gid⟩
      if found.matched = 1 then some found.gid else none := by
  rw [foldl_groupFound, groupOf]
  show _ = if ((records.filter _).foldl keepGroup _).matched = 1 then _ else _
  rw [matched_foldl_keepGroup]
  generalize records.filter (fun r => r.1 = name) = found
  rcases found with _ | ⟨r, _ | ⟨r', rest⟩⟩
  · rfl
  · rfl
  · rw [if_neg (by simp)]
    rfl

/-- The part for the group file, on both sides. -/
theorem scanGroup_eq (spec : OCIUserSpec) {name : Text} (hname : spec.group = some name)
    (group : Option (List UInt8)) :
    scanGroup (guestProcess spec) group = (resolveGroup name group).toOption := by
  have hascii : Ascii name := (numericAccount_of_account (spec.group_ok name hname)).1
  have hgroup : (guestProcess spec).groupName = asciiBytes name := by
    rw [guestProcess, hname, Option.getD_some]
  cases group with
  | none => rfl
  | some payload =>
    have hresolve : resolveGroup name (some payload) =
        (accountLines payload "group" >>= List.mapM groupRecord) >>= groupOf name := by
      rw [resolveGroup]
      cases accountLines payload "group" with
      | error e => rfl
      | ok lines => rfl
    rw [hresolve, toOption_bind, scanGroup]
    by_cases hreadable : Readable payload
    · rw [readAccountDatabase_of_readable hreadable]
      show (scanDatabase (groupEntry (guestProcess spec)) payload _).bind _ = _
      rw [scanDatabase_eq (groupEntry_asciiBytes hascii hgroup) hreadable "group",
        Option.bind_map]
      exact Option.bind_congr fun records _ => (groupOf_toOption name records _ _).symm
    · rw [readAccountDatabase_of_not_readable hreadable, toOption_bind,
        accountLines_of_not_readable hreadable]
      rfl

/-! ### Identities -/

/-- The uid and gid that the guest finds for a user of the specification. -/
def workloadIdentity (spec : OCIUserSpec) (passwd group : Option (List UInt8)) :
    Option (ℕ × ℕ) := do
  let process ← parseProcessUser (spec.group.map asciiBytes) (asciiBytes spec.user)
  resolveWorkloadIdentity process passwd group

theorem resolveOciUser_eq (spec : OCIUserSpec) (passwd group : Option (List UInt8)) :
    resolveOciUser spec passwd group =
      ((passwdRecords spec passwd >>= resolveUser spec) >>= fun found =>
        resolveGid spec found.2 group >>= fun gid => pure (found.1, gid)) := by
  rw [resolveOciUser]
  cases passwdRecords spec passwd with
  | error e => rfl
  | ok records => rfl

/-- A number with a number needs no file. -/
theorem resolveOciUser_of_numeric {spec : OCIUserSpec} {name : Text}
    (huser : isDecimal spec.user = true) (hname : spec.group = some name)
    (hgroup : isDecimal name = true) (passwd group : Option (List UInt8)) :
    resolveOciUser spec passwd group = .ok (intValue spec.user, intValue name) := by
  have hrecords : passwdRecords spec passwd = .ok [] := by
    cases passwd with
    | none => rfl
    | some payload =>
      rw [passwdRecords, huser, hname]
      rfl
  have hresolve : resolveUser spec [] = .ok (intValue spec.user, []) := by
    rw [resolveUser, if_pos huser]
    rfl
  have hgid : resolveGid spec [] group = .ok (intValue name) := by
    rw [resolveGid, hname]
    exact if_pos hgroup
  rw [resolveOciUser_eq, hrecords, ok_bind, hresolve, ok_bind, hgid]
  rfl

/-- The group of a user that both sides have found. -/
theorem processGid_eq (spec : OCIUserSpec) (found : ℕ × List (Text × ℕ × ℕ))
    (group : Option (List UInt8)) :
    processGid (guestProcess spec) (foundOf found) group =
      (resolveGid spec found.2 group).toOption := by
  rw [processGid, resolveGid]
  -- Without a group the one of the user record counts.
  cases hname : spec.group with
  | none =>
    have hpresent : (guestProcess spec).groupPresent = false := by
      rw [guestProcess, hname, Option.isSome_none]
    rw [hpresent]
    obtain ⟨uid, _ | ⟨r, rest⟩⟩ := found
    · rfl
    · rfl
  | some name =>
    have hpresent : (guestProcess spec).groupPresent = true := by
      rw [guestProcess, hname, Option.isSome_some]
    have hnumeric : (guestProcess spec).groupNumeric = isDecimal name := by
      rw [guestProcess, hname, Option.getD_some]
    have hgid : isDecimal name = true → (guestProcess spec).gid = intValue name := by
      intro hdecimal
      rw [guestProcess, hname, Option.getD_some, if_pos hdecimal]
    rw [hpresent, hnumeric, if_neg (by decide)]
    by_cases hdecimal : isDecimal name = true
    · rw [if_pos hdecimal, hgid hdecimal]
      show _ = (if isDecimal name = true then _ else _ : Except AccountError ℕ).toOption
      rw [if_pos hdecimal]
      rfl
    · rw [if_neg hdecimal, scanGroup_eq spec hname]
      show _ = (if isDecimal name = true then _ else _ : Except AccountError ℕ).toOption
      rw [if_neg hdecimal]

/-- **Host and guest resolve the same identity.** For every user that the specification admits
and whatever the two account files hold, if they are there, either both refuse or both return
the same uid and gid. -/
theorem workloadIdentity_eq (spec : OCIUserSpec) (passwd group : Option (List UInt8)) :
    workloadIdentity spec passwd group = (resolveOciUser spec passwd group).toOption := by
  rw [workloadIdentity, parseProcessUser_eq]
  show resolveWorkloadIdentity (guestProcess spec) passwd group = _
  rw [resolveWorkloadIdentity]
  split_ifs with hnumeric
  · -- Nothing is read: both numbers are in the plan.
    rw [Bool.and_eq_true, Bool.and_eq_true] at hnumeric
    obtain ⟨⟨huser, hpresent⟩, hgroup⟩ := hnumeric
    obtain ⟨name, hname⟩ := Option.isSome_iff_exists.mp (show spec.group.isSome from hpresent)
    have hdecimal : isDecimal name = true := by
      rwa [guestProcess, hname, Option.getD_some] at hgroup
    have huid : (guestProcess spec).uid = intValue spec.user := if_pos huser
    have hgid : (guestProcess spec).gid = intValue name := by
      rw [guestProcess, hname, Option.getD_some, if_pos hdecimal]
    rw [resolveOciUser_of_numeric huser hname hdecimal, huid, hgid]
    rfl
  · rw [resolveOciUser_eq, toOption_bind, scanPasswd_eq]
    show ((passwdRecords spec passwd >>= resolveUser spec).toOption.map foundOf).bind _ = _
    rw [Option.bind_map]
    refine Option.bind_congr fun found _ => ?_
    rw [toOption_bind, Function.comp_apply, processGid_eq]
    rfl

end Palimpsest.Account
