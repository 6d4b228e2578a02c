import Palimpsest.Stage1.ProcessStrings

/-!
# The guest's parser of the process

The guest charges a process for the bytes that the host charged when the process was specified,
and its arena never fills before that budget is spent. So what it reads are the texts of the
processes that the host specifies and can boot, and of no others
(`Palimpsest.Stage1.Init.parseProcess_eq_some`).
-/

namespace Palimpsest.Stage1.Init

open Json ByteParser
open Utf8 (asciiByte encode)
open Process (OCIProcessSpec)
open Account (OCIUserSpec account)

variable {l r raw out : List UInt8} {used used' charged : ℕ} {t : Text}

/-! ### Accounts -/

/-- `numeric_account(s) || valid_account_name(s)` -/
def validAccount (s : List UInt8) : Bool :=
  (Account.numericAccount s).isSome || Account.validAccountName s

theorem isSpan_of_account {field : String} (h : account t field = .ok t) : IsSpan t := by
  -- The characters of a number or a name, which need no escape.
  have hspan : ∀ c ∈ t, 48 ≤ c.toNat ∧ c.toNat ≤ 57 ∨ 65 ≤ c.toNat ∧ c.toNat ≤ 90 ∨
      97 ≤ c.toNat ∧ c.toNat ≤ 122 ∨ c = '_' ∨ c = '.' ∨ c = '-' := by
    by_cases hdecimal : Decimal.isDecimal t = true
    · obtain ⟨n, -, rfl⟩ := (Account.account_eq_ok_of_isDecimal hdecimal).mp h
      intro c hc
      obtain ⟨hlow, hhigh⟩ := Decimal.toNat_of_isDigit (Decimal.isDigit_of_mem_natText hc)
      have hzero : '0'.toNat = 48 := rfl
      omega
    · have hname := (Account.account_eq_ok_of_not_isDecimal (Bool.eq_false_iff.mpr hdecimal)).mp h
      have hletter : ∀ c, Account.isAsciiLetter c = true →
          65 ≤ c.toNat ∧ c.toNat ≤ 90 ∨ 97 ≤ c.toNat ∧ c.toNat ≤ 122 := by
        intro c hc
        simp only [Account.isAsciiLetter, Bool.or_eq_true, Bool.and_eq_true,
          decide_eq_true_eq] at hc
        exact hc
      cases t with
      | nil => exact List.forall_mem_nil _
      | cons d t =>
        simp only [Account.isAccountName, Bool.and_eq_true, Bool.or_eq_true, decide_eq_true_eq,
          List.all_eq_true] at hname
        obtain ⟨⟨hd, -⟩, hall⟩ := hname
        refine List.forall_mem_cons.mpr ⟨?_, fun c hc => ?_⟩
        · rcases hd with hd | rfl
          · have := hletter d hd
            omega
          · decide
        · have hchar := hall c hc
          simp only [Account.isNameChar, Bool.or_eq_true, Bool.and_eq_true,
            decide_eq_true_eq] at hchar
          rcases hchar with (((hc | hc) | rfl) | rfl) | rfl
          · have := hletter c hc
            omega
          · exact Or.inl hc
          all_goals decide
  intro c hc
  have hrange := hspan c hc
  rw [isSpanChar_iff]
  rcases hrange with h | h | h | rfl | rfl | rfl
  any_goals decide
  all_goals
    refine ⟨by omega, by omega, ?_, ?_⟩
    · rintro rfl
      revert h
      decide
    · rintro rfl
      revert h
      decide

/-- The only digits of ASCII are the ten. -/
theorem range_of_digit {c : Char} (hc : c.toNat < 0x80) (h : (Decimal.digit? c).isSome = true) :
    48 ≤ c.toNat ∧ c.toNat ≤ 57 := by
  have hzeros : ∀ first ∈ Decimal.decimalZeros, first = 48 ∨ 0x660 ≤ first := by decide
  rw [Decimal.digit?, Option.isSome_map, List.find?_isSome] at h
  obtain ⟨first, hmem, hrange⟩ := h
  rw [Bool.and_eq_true, decide_eq_true_eq, decide_eq_true_eq] at hrange
  have hfirst := hzeros first hmem
  omega

/-- **Both sides accept the same accounts.** -/
theorem validAccount_encode (h : IsAscii t) (field : String) :
    validAccount (encode t) = true ↔ account t field = .ok t := by
  have hbytes : encode t = Account.asciiBytes t := encode_ascii h
  rw [validAccount, hbytes, Bool.or_eq_true, Option.isSome_iff_exists,
    Account.validAccountName_asciiBytes h]
  simp only [Account.numericAccount_asciiBytes h]
  by_cases hdecimal : Decimal.isDecimal t = true
  · rw [Account.account_eq_ok_of_isDecimal hdecimal, or_iff_left]
    · exact exists_congr fun n => and_comm
    · intro hname
      cases t with
      | nil => cases hname
      | cons c t =>
        rw [Decimal.isDecimal, Bool.and_eq_true, List.all_cons, Bool.and_eq_true] at hdecimal
        simp only [Account.isAccountName, Account.isAsciiLetter, Bool.and_eq_true, Bool.or_eq_true,
          decide_eq_true_eq] at hname
        have hrange := range_of_digit (h c List.mem_cons_self) hdecimal.2.1
        have hle : ∀ a b : Char, a ≤ b → a.toNat ≤ b.toNat := fun _ _ hab => hab
        rcases hname.1.1 with (hletter | hletter) | rfl
        · have hupper : 65 ≤ c.toNat := hle _ _ hletter.1
          omega
        · have hlower : 97 ≤ c.toNat := hle _ _ hletter.1
          omega
        · exact absurd hrange (by decide)
  · rw [Account.account_eq_ok_of_not_isDecimal (Bool.eq_false_iff.mpr hdecimal), or_iff_right]
    rintro ⟨n, rfl, -⟩
    exact hdecimal (Decimal.isDecimal_natText n)

/-! ### The user -/

/-- What is read of the user: the group and the user as they are copied, how much of the arena is
used then, and what the process is charged. -/
structure ParsedUser where
  group : Option (List UInt8)
  user : List UInt8
  used : ℕ
  charged : ℕ

/-- The group, how much of the arena is used after it, and what the process is charged. -/
def parseGroup (used : ℕ) : ByteParser (Option (List UInt8) × ℕ × ℕ) := do
  if ← exactLiteral "null" then return (none, used, 4 + 23)
  else
    let s ← plainString
    check (validAccount s.1)
    let p ← ofOption (decodeProcessString used s.1)
    return (some p.1, p.2, s.2 + 25)

/-- The user of the process. -/
def parseUser (used : ℕ) : ByteParser ParsedUser := do
  let group ← field '{' "group" (parseGroup used)
  let s ← field ',' "user" plainString
  check (validAccount s.1)
  let p ← ofOption (decodeProcessString group.2.1 s.1)
  expect '}'
  return ⟨group.1, p.1, p.2, group.2.2 + s.2⟩

def groupText : Option Text → Text
  | none => "null".toList
  | some g => quoted g

/-- The text of a user. -/
def userJson (u : OCIUserSpec) : Text :=
  objText [("group", groupText u.group), ("user", quoted u.user)]

/-- What a group takes in the arena. -/
def groupSize : Option Text → ℕ
  | none => 0
  | some g => (encode g).length + 1

/-- What a process is charged for a group. -/
def groupCharge : Option Text → ℕ
  | none => 27
  | some g => (encode g).length + 25

/-- A plain string is decoded as it is. -/
theorem decode_span (h : IsSpan t) : decodeProcessString used (encode t) = some (out, used') ↔
    out = encode t ∧ used' = used + (encode t).length + 1 ∧
      used + (encode t).length ≤ processMaxLocal := by
  have hdecode : decodeProcessString used (encode (escape t)) = some (out, used') ↔ _ :=
    decodeProcessString_eq_some h.nul_notMem
  rwa [h.escape_eq] at hdecode

/-- A plain string that is an account. -/
theorem plainAccount_eq_some (field : String) {p : List UInt8 × ℕ} :
    (plainString l = some (p, r) ∧ validAccount p.1 = true) ↔
      ∃ t : Text, account t field = .ok t ∧ p = (encode t, (encode t).length) ∧
        l = encode (quoted t) ++ r := by
  obtain ⟨raw, n⟩ := p
  rw [plainString_eq_some]
  constructor
  · rintro ⟨⟨t, hspan, rfl, rfl, rfl⟩, hvalid⟩
    exact ⟨t, (validAccount_encode hspan.isAscii field).mp hvalid, by rw [hspan.length_encode], rfl⟩
  · rintro ⟨t, haccount, heq, rfl⟩
    obtain ⟨rfl, rfl⟩ := Prod.mk.inj heq
    have hspan := isSpan_of_account haccount
    exact ⟨⟨t, hspan, rfl, hspan.length_encode, rfl⟩,
      (validAccount_encode hspan.isAscii field).mpr haccount⟩

theorem parseGroup_eq_some {x : Option (List UInt8) × ℕ × ℕ} :
    parseGroup used l = some (x, r) ↔ ∃ group : Option Text,
      (∀ g ∈ group, account g "image process group" = .ok g ∧
        used + (encode g).length ≤ processMaxLocal) ∧
          x = (group.map encode, used + groupSize group, groupCharge group) ∧
            l = encode (groupText group) ++ r := by
  have hnull : IsSpan "null".toList := by decide
  simp only [parseGroup, bind_eq_some]
  constructor
  · rintro ⟨found, m, hliteral, hrest⟩
    cases found with
    | true =>
      obtain rfl := (exactLiteral_eq_true hnull).mp hliteral
      obtain ⟨rfl, rfl⟩ := pure_eq_some.mp hrest
      exact ⟨none, by rintro g ⟨⟩, rfl, rfl⟩
    | false =>
      obtain ⟨-, rfl⟩ := (exactLiteral_eq_false hnull).mp hliteral
      simp only [Bool.false_eq_true, if_false, bind_eq_some, check_eq_some, ofOption_eq_some,
        pure_eq_some] at hrest
      obtain ⟨p, _, hplain, _, _, ⟨hvalid, rfl⟩, ⟨out, used'⟩, _, ⟨hdecode, rfl⟩, rfl, rfl⟩ := hrest
      obtain ⟨g, haccount, rfl, rfl⟩ :=
        (plainAccount_eq_some "image process group").mp ⟨hplain, hvalid⟩
      obtain ⟨rfl, rfl, hroom⟩ := (decode_span (isSpan_of_account haccount)).mp hdecode
      refine ⟨some g, ?_, rfl, rfl⟩
      rintro _ ⟨⟩
      exact ⟨haccount, hroom⟩
  · rintro ⟨group, hgroup, rfl, rfl⟩
    cases group with
    | none =>
      exact ⟨true, r, (exactLiteral_eq_true hnull).mpr rfl, pure_eq_some.mpr ⟨rfl, rfl⟩⟩
    | some g =>
      obtain ⟨haccount, hroom⟩ := hgroup g rfl
      obtain ⟨hplain, hvalid⟩ := (plainAccount_eq_some "image process group"
        (r := r)).mpr ⟨g, haccount, rfl, rfl⟩
      refine ⟨false, encode (quoted g) ++ r, (exactLiteral_eq_false hnull).mpr ⟨?_, rfl⟩, ?_⟩
      · -- a string begins with a quote
        rintro ⟨rest, heq⟩
        refine head?_encode_ne (c := '"') (d := 'n') (by decide) (by decide) (by decide) r ?_
          (t := escape g ++ ['"'])
        exact (congrArg List.head? heq).symm
      · simp only [Bool.false_eq_true, if_false, bind_eq_some, check_eq_some, ofOption_eq_some,
          pure_eq_some]
        exact ⟨_, r, hplain, (), r, ⟨hvalid, rfl⟩, _, r,
          ⟨(decode_span (isSpan_of_account haccount)).mpr ⟨rfl, rfl, hroom⟩, rfl⟩, rfl, rfl⟩

/-- What is read of a user. -/
def userView (used : ℕ) (u : OCIUserSpec) : ParsedUser where
  group := u.group.map encode
  user := encode u.user
  used := used + groupSize u.group + (encode u.user).length + 1
  charged := groupCharge u.group + (encode u.user).length

/-- The text of a user, from the front. -/
theorem encode_userJson (u : OCIUserSpec) (r : List UInt8) : encode (userJson u) ++ r =
    fieldStart '{' "group" (encode (groupText u.group) ++ fieldStart ',' "user"
      (encode (quoted u.user) ++ (encode ['}'] ++ r))) := encode_objText _ _ _ _

/-- **The users that are read** are those that the host specifies, as long as there is room. -/
theorem parseUser_eq_some {x : ParsedUser} : parseUser used l = some (x, r) ↔ ∃ u : OCIUserSpec,
    used + groupSize u.group + (encode u.user).length ≤ processMaxLocal ∧ x = userView used u ∧
      l = encode (userJson u) ++ r := by
  simp only [parseUser, bind_eq_some, check_eq_some, ofOption_eq_some, pure_eq_some,
    parseGroup_eq_some, expect_eq_some closing_ascii,
    field_eq_some brace_ascii (show IsSpan "group".toList by decide),
    field_eq_some comma_ascii (show IsSpan "user".toList by decide),
    encode_userJson]
  constructor
  · rintro ⟨_, _, ⟨_, rfl, group, hgroup, rfl, rfl⟩, p, _, ⟨_, rfl, hplain⟩, _, _, ⟨hvalid, rfl⟩,
      ⟨out, used'⟩, _, ⟨hdecode, rfl⟩, _, _, rfl, rfl, rfl⟩
    obtain ⟨user, haccount, rfl, rfl⟩ :=
      (plainAccount_eq_some "image process user").mp ⟨hplain, hvalid⟩
    obtain ⟨rfl, rfl, hroom⟩ := (decode_span (isSpan_of_account haccount)).mp hdecode
    exact ⟨⟨user, group, haccount, fun g hg => (hgroup g hg).1⟩, hroom, rfl, rfl⟩
  · rintro ⟨⟨user, group, haccount, hgroup⟩, hroom, rfl, rfl⟩
    obtain ⟨hplain, hvalid⟩ := (plainAccount_eq_some "image process user"
        (r := encode ['}'] ++ r)).mpr ⟨user, haccount, rfl, rfl⟩
    refine ⟨_, _, ⟨_, rfl, group, ?_, rfl, rfl⟩, _, _, ⟨_, rfl, hplain⟩, (), _, ⟨hvalid, rfl⟩, _, _,
      ⟨(decode_span (isSpan_of_account haccount)).mpr ⟨rfl, rfl, hroom⟩, rfl⟩, (), _, rfl, rfl, rfl⟩
    rintro g hg
    refine ⟨hgroup g hg, ?_⟩
    rw [Option.mem_def] at hg
    subst hg
    rw [groupSize] at hroom
    dsimp only at hroom
    omega

/-! ### The process -/

/-- The working directory, how much of the arena is used after it, and its length. -/
def parseCwd (used : ℕ) : ByteParser (List UInt8 × ℕ × ℕ) := do
  let s ← jsonString false
  check (s.2 ≤ stringMaxLocal && validCwd s.1)
  let p ← ofOption (decodeProcessString used s.1)
  return (p.1, p.2, s.2)

/-- `struct guest_process` after the parse. -/
structure GuestProcess where
  argv : List (List UInt8)
  envp : List (List UInt8)
  cwd : List UInt8
  account : Account.GuestProcess
  stopSignal : ℕ
  deriving DecidableEq

/-- What the parse leaves of the names of the user and the group. -/
def accountOf (group : Option (List UInt8)) (user : List UInt8) : Account.GuestProcess where
  userName := user
  groupName := group.getD []
  uid := (Account.numericAccount user).getD 0
  gid := (Account.numericAccount (group.getD [])).getD 0
  userNumeric := (Account.numericAccount user).isSome
  groupNumeric := (Account.numericAccount (group.getD [])).isSome
  groupPresent := group.isSome

/-- `parse_process`, with what the plan has been charged before. -/
def parseProcess : ByteParser GuestProcess := do
  let argv ← field '{' "argv" (array argument argMaxLocal ⟨0, 0, 0⟩)
  check (argv.1 ≠ [])
  let cwd ← field ',' "cwd" (parseCwd argv.2.used)
  let environment ← field ',' "environment" (array environmentEntry envMaxLocal
    ⟨[], cwd.2.1, argv.2.processBytes + cwd.2.2⟩)
  let number ← field ',' "stop_signal" uintValue
  check (1 ≤ number && number ≤ 64)
  let user ← field ',' "user" (parseUser environment.2.used)
  expect '}'
  check (environment.2.names.any (· = Guest.ascii "PATH") &&
    environment.2.processBytes + user.charged ≤ processMaxLocal && user.used ≤ processMaxLocal + 1)
  return ⟨argv.1, environment.1, cwd.1, accountOf user.group user.user, number⟩

/-- A canonical working directory. -/
def IsCwd (x : Text) : Prop := IsPlain x ∧ ∃ rest, x = '/' :: rest ∧ PosixPath.Normal rest

theorem parseCwd_eq_some {x : List UInt8 × ℕ × ℕ} : parseCwd used l = some (x, r) ↔
    ∃ cwd : Text, IsCwd cwd ∧ used + (encode cwd).length ≤ processMaxLocal ∧
      x = (encode cwd, used + (encode cwd).length + 1, (encode cwd).length) ∧
        l = encode (quoted cwd) ++ r := by
  simp only [parseCwd, bind_eq_some, check_eq_some, ofOption_eq_some, pure_eq_some,
    Bool.and_eq_true, decide_eq_true_eq]
  constructor
  · rintro ⟨⟨raw, n⟩, _, hstring, _, _, ⟨⟨hlen, hcwd⟩, rfl⟩, ⟨out, used'⟩, _, ⟨hdecode, rfl⟩, rfl,
      rfl⟩
    obtain ⟨cwd, hnul, rfl, rfl, rfl⟩ := jsonString_eq_some.mp hstring
    obtain ⟨rfl, rfl, hroom⟩ := (decodeProcessString_eq_some hnul).mp hdecode
    exact ⟨cwd, ⟨⟨hnul, hlen⟩, (validCwd_encode_escape cwd).mp hcwd⟩, hroom, rfl, rfl⟩
  · rintro ⟨cwd, ⟨⟨hnul, hlen⟩, hcwd⟩, hroom, rfl, rfl⟩
    exact ⟨_, r, jsonString_eq_some.mpr ⟨cwd, hnul, rfl, rfl, rfl⟩, (), r,
      ⟨⟨hlen, (validCwd_encode_escape cwd).mpr hcwd⟩, rfl⟩, _, r,
      ⟨(decodeProcessString_eq_some hnul).mpr ⟨rfl, rfl, hroom⟩, rfl⟩, rfl, rfl⟩

/-! ### What the host specifies -/

theorem length_encode (x : Text) : (encode x).length = byteLength x := by
  rw [← Control.length_encodeUtf8, Control.encodeUtf8, Utf8.toByteArray_ofList]

theorem isPlain_iff (x : Text) : IsPlain x ↔ Process.IsPlain x := by
  rw [IsPlain, Process.IsPlain, length_encode]
  exact Iff.rfl

theorem isCwd_iff (x : Text) : IsCwd x ↔ (x ≠ [] ∧ Process.IsPlain x) ∧
    ¬(PosixPath.isAbs x = false ∨ PosixPath.normpath x ≠ x ∨ ['/', '/'] <:+: x) := by
  rw [IsCwd, isPlain_iff, not_or, not_or, not_not, Bool.not_eq_false]
  constructor
  · rintro ⟨hplain, rest, rfl, hnormal⟩
    exact ⟨⟨List.cons_ne_nil _ _, hplain⟩, rfl, PosixPath.normpath_eq_self_iff.mpr hnormal⟩
  · rintro ⟨⟨-, hplain⟩, habs, hnorm, hslashes⟩
    cases x with
    | nil => cases habs
    | cons c rest =>
      obtain rfl : c = '/' := Option.some.inj (of_decide_eq_true habs)
      exact ⟨hplain, rest, rfl, PosixPath.normpath_eq_self_iff.mp ⟨hnorm, hslashes⟩⟩

/-- An ASCII text takes as many bytes as it has characters. -/
theorem byteLength_ascii {x : Text} (h : IsAscii x) : byteLength x = x.length :=
  (length_encode x).symm.trans h.length_encode

theorem byteLength_append_five (a b c d e : Text) : byteLength (a ++ b ++ c ++ d ++ e) =
    byteLength a + byteLength b + byteLength c + byteLength d + byteLength e := by
  rw [byteLength_append, byteLength_append, byteLength_append, byteLength_append]

/-- How the host writes a group before it counts its bytes. -/
def groupRepr : Option Text → Text
  | none => "None".toList
  | some g => '\'' :: g ++ ['\'']

theorem userText_eq (u : OCIUserSpec) : Process.userText u = "\x7b'group': ".toList ++
    groupRepr u.group ++ ", 'user': '".toList ++ u.user ++ "'\x7d".toList := by
  unfold Process.userText
  cases u.group with
  | none => rw [groupRepr]
  | some g => rw [groupRepr]

theorem byteLength_groupRepr (group : Option Text) :
    byteLength (groupRepr group) + 23 = groupCharge group := by
  have hnone : byteLength "None".toList = 4 := byteLength_ascii (by decide)
  have hmark : byteLength ['\''] = 1 := byteLength_ascii (by decide)
  cases group with
  | none => rw [groupRepr, hnone, groupCharge]
  | some g =>
    rw [groupRepr, groupCharge, ← List.singleton_append, byteLength_append, byteLength_append,
      hmark, length_encode]
    omega

theorem byteLength_userText (u : OCIUserSpec) :
    byteLength (Process.userText u) = groupCharge u.group + (encode u.user).length := by
  have hfirst : byteLength "\x7b'group': ".toList = 10 := byteLength_ascii (by decide)
  have hmiddle : byteLength ", 'user': '".toList = 11 := byteLength_ascii (by decide)
  have hlast : byteLength "'\x7d".toList = 2 := byteLength_ascii (by decide)
  rw [userText_eq, byteLength_append_five, hfirst, hmiddle, hlast, ← byteLength_groupRepr,
    length_encode]
  omega

/-- **What the guest charges is what the host charged.** -/
theorem totalBytes_eq (argv : List Text) (environment : List (Text × Text)) (cwd : Text)
    (u : OCIUserSpec) : Process.totalBytes argv environment cwd u = withNuls argv +
      entrySizes environment + (encode cwd).length + (groupCharge u.group +
      (encode u.user).length) := by
  have hargv : withNuls argv = (argv.map fun value => byteLength value + 1).sum :=
    congrArg List.sum (List.map_congr_left fun x _ => congrArg (· + 1) (length_encode x))
  have henv : entrySizes environment =
      (environment.map fun e => byteLength e.1 + byteLength e.2 + 2).sum :=
    congrArg List.sum (List.map_congr_left fun e _ => by
      rw [entrySize, length_encode, length_encode])
  rw [Process.totalBytes, byteLength_userText, hargv, henv, length_encode cwd]

/-- The text of a process. -/
def processText (p : Process.Fields) : Text :=
  objText [("argv", listText (p.argv.map quoted)), ("cwd", quoted p.cwd),
    ("environment", listText (p.environment.map entryText)),
    ("stop_signal", natText p.stopSignal.toNat), ("user", userJson p.user)]

/-- What the guest reads of a process. -/
def processView (p : Process.Fields) : GuestProcess where
  argv := p.argv.map encode
  envp := p.environment.map entryBytes
  cwd := encode p.cwd
  account := accountOf (p.user.group.map encode) (encode p.user.user)
  stopSignal := p.stopSignal.toNat

/-! ### What is read -/

/-- A text that begins with a comma does not begin with a digit. -/
theorem noDigit_comma (r : List UInt8) : NoDigit (encode [','] ++ r) := rfl

theorem any_path_iff {es : List (Text × Text)} :
    (List.any ((es.map fun e => encode e.1).reverse ++ [])
      fun n => decide (n = Guest.ascii "PATH")) = true ↔ Process.pathName ∈ es.map Prod.fst := by
  have hpath : Guest.ascii "PATH" = encode Process.pathName :=
    ascii_eq_encode (show IsAscii _ by decide)
  rw [List.append_nil, hpath, List.any_reverse, List.any_map, List.any_eq_true, List.mem_map]
  refine exists_congr fun e => and_congr_right fun _ => ?_
  exact decide_eq_true_iff.trans encode_inj

theorem groupSize_le (group : Option Text) : groupSize group + 24 ≤ groupCharge group := by
  cases group with
  | none =>
    rw [groupSize, groupCharge]
    omega
  | some g => rw [groupSize, groupCharge]

/-- What the guest needs of a process to read it, beside the account. -/
structure Readable (f : Process.Fields) : Prop where
  arguments : f.argv.length ≤ argMaxLocal
  argv : ∀ x ∈ f.argv, IsPlain x
  command : f.argv ≠ [] ∧ f.argv.head? ≠ some []
  variableCount : f.environment.length ≤ envMaxLocal
  environment : ∀ e ∈ f.environment, Process.isEnvName e.1 = true ∧ IsPlain e.2
  nodup : (f.environment.map Prod.fst).Nodup
  path : Process.pathName ∈ f.environment.map Prod.fst
  cwd : IsCwd f.cwd
  stopSignal : 1 ≤ f.stopSignal ∧ f.stopSignal ≤ 64
  total : Process.totalBytes f.argv f.environment f.cwd f.user ≤ processMaxLocal

theorem readable_iff (f : Process.Fields) : Readable f ↔
    f.Accepted ∧ (f.argv.head?.any fun command => command ≠ []) = true := by
  have hplain : (∀ x ∈ f.argv, IsPlain x) ↔ ∀ x ∈ f.argv, Process.IsPlain x :=
    forall₂_congr fun x _ => isPlain_iff x
  have hentries : (∀ e ∈ f.environment, Process.isEnvName e.1 = true ∧ IsPlain e.2) ↔
      ∀ e ∈ f.environment, Process.IsEntry e :=
    forall₂_congr fun e _ => and_congr_right' (isPlain_iff e.2)
  have hcommand : (f.argv ≠ [] ∧ f.argv.head? ≠ some []) ↔
      (f.argv.head?.any fun command => command ≠ []) = true := by
    cases f.argv with
    | nil => exact iff_of_false (fun h => h.1 rfl) (by rintro ⟨⟩)
    | cons x xs =>
      rw [List.head?_cons, Option.any_some, decide_eq_true_eq,
        and_iff_right (List.cons_ne_nil x xs), Ne, Option.some.injEq]
  constructor
  · rintro ⟨harguments, hargv, hcmd, hvariables, henv, hnodup, hpath, hcwd, hsignal, htotal⟩
    obtain ⟨hcwd_plain, hcanonical⟩ := (isCwd_iff f.cwd).mp hcwd
    exact ⟨⟨harguments, hplain.mp hargv, ⟨hentries.mp henv, hnodup, hpath, hvariables⟩, hcwd_plain,
      hcanonical, hsignal, htotal⟩, hcommand.mp hcmd⟩
  · rintro ⟨⟨harguments, hargv, ⟨henv, hnodup, hpath, hvariables⟩, hcwd_plain, hcanonical, hsignal,
      htotal⟩, hcmd⟩
    exact ⟨harguments, hplain.mpr hargv, hcommand.mpr hcmd, hvariables, hentries.mpr henv, hnodup,
      hpath, (isCwd_iff f.cwd).mpr ⟨hcwd_plain, hcanonical⟩, hsignal, htotal⟩

/-- The text of a process, from the front. -/
theorem encode_processText (f : Process.Fields) (r : List UInt8) :
    encode (processText f) ++ r =
      fieldStart '{' "argv" (encode (listText (f.argv.map quoted)) ++
      fieldStart ',' "cwd" (encode (quoted f.cwd) ++
      fieldStart ',' "environment" (encode (listText (f.environment.map entryText)) ++
      fieldStart ',' "stop_signal" (encode (natText f.stopSignal.toNat) ++
      fieldStart ',' "user" (encode (userJson f.user) ++ (encode ['}'] ++ r)))))) :=
  encode_objText _ _ _ _

/-- What is read of a process as long as there is room in the arena. -/
theorem parseProcess_readable {g : GuestProcess} : parseProcess l = some (g, r) ↔
    ∃ f : Process.Fields, Readable f ∧ g = processView f ∧ l = encode (processText f) ++ r := by
  simp only [parseProcess, bind_eq_some, check_eq_some, pure_eq_some, Prod.exists,
    array_eq_some reads_argument, array_eq_some reads_environmentEntry, parseCwd_eq_some,
    uintValue_eq_some, parseUser_eq_some, foldl_nextArgument, foldl_nextEntry, chain_argument,
    chain_environmentEntry,
    field_eq_some brace_ascii (show IsSpan "argv".toList by decide),
    field_eq_some comma_ascii (show IsSpan "cwd".toList by decide),
    field_eq_some comma_ascii (show IsSpan "environment".toList by decide),
    field_eq_some comma_ascii (show IsSpan "stop_signal".toList by decide),
    field_eq_some comma_ascii (show IsSpan "user".toList by decide),
    expect_eq_some closing_ascii, Bool.and_eq_true, decide_eq_true_eq,
    encode_processText]
  constructor
  · rintro ⟨parsedArgv, st₁, _, ⟨_, h₁, argv, harguments, ⟨hargv, hfirst, -⟩, hargv_eq, hst₁, h₂⟩,
      _, _, ⟨hne, h₃⟩, parsedCwd, used, n, _, ⟨_, h₄, cwd, hcwd, -, hcwd_eq, h₅⟩, parsedEnv, st₂, _,
      ⟨_, h₆, environment, hvariables, ⟨henv, hnodup, -, -⟩, henv_eq, hst₂, h₇⟩, signal, _,
      ⟨_, h₈, -, h₉, -⟩, _, _, ⟨⟨hlow, hhigh⟩, h₁₀⟩, user, _, ⟨_, h₁₁, u, -, hu, h₁₂⟩, _, _, h₁₃,
      _, _, ⟨⟨⟨hpath, htotal⟩, -⟩, h₁₄⟩, h₁₅, h₁₆⟩
    obtain ⟨rfl, hused, hn⟩ := Prod.mk.inj hcwd_eq |>.imp_right Prod.mk.inj
    -- The sizes that the guest adds up are those of the host.
    have hsum := totalBytes_eq argv environment cwd u
    rw [hst₂] at hpath
    rw [hu, hst₂, hn, hst₁, userView] at htotal
    dsimp only at htotal
    refine ⟨⟨argv, environment, cwd, u, signal⟩, ?_, ?_, ?_⟩
    · refine ⟨harguments, hargv, ⟨?_, fun h => hfirst ⟨trivial, h⟩⟩, hvariables, henv, hnodup,
        any_path_iff.mp hpath, hcwd, ⟨Int.ofNat_le.mpr hlow, Int.ofNat_le.mpr hhigh⟩, ?_⟩
      · rintro rfl
        exact hne hargv_eq
      · rw [hsum]
        omega
    · rw [← h₁₅, hu, hargv_eq, henv_eq]
      rfl
    · rw [h₁, h₂, h₃, h₄, h₅, h₆, h₇, h₈, h₉, h₁₀, h₁₁, h₁₂, h₁₃, h₁₄, h₁₆]
      rfl
  · rintro ⟨⟨argv, environment, cwd, u, signal⟩, ⟨harguments, hargv, ⟨hne, hfirst⟩, hvariables,
      henv, hnodup, hpath, hcwd, ⟨hlow, hhigh⟩, htotal⟩, rfl, rfl⟩
    dsimp only at *
    rw [totalBytes_eq] at htotal
    have hgroup := groupSize_le u.group
    obtain ⟨n, rfl⟩ : ∃ n : ℕ, signal = n := ⟨signal.toNat, by omega⟩
    refine ⟨_, _, _, ⟨_, rfl, argv, harguments, ⟨hargv, fun h => hfirst h.2, Or.inr ?_⟩, rfl, rfl,
      rfl⟩, (), _, ⟨?_, rfl⟩, _, _, _, _, ⟨_, rfl, cwd, hcwd, ?_, rfl, rfl⟩, _, _, _, ⟨_, rfl,
        environment, hvariables, ⟨henv, hnodup, fun _ _ => List.not_mem_nil, Or.inr ?_⟩, rfl, rfl,
        rfl⟩, n, _,
      ⟨_, rfl, ?_, rfl, noDigit_comma _⟩, (), _, ⟨⟨?_, ?_⟩, rfl⟩, _, _, ⟨_, rfl, u, ?_, rfl, rfl⟩,
      (), _, rfl, (), _, ⟨⟨⟨any_path_iff.mpr hpath, ?_⟩, ?_⟩, rfl⟩, rfl, rfl⟩
    · omega
    · exact fun h => hne (List.map_eq_nil_iff.mp h)
    any_goals omega
    all_goals dsimp only [userView]
    all_goals omega

/-- **What the guest reads as a process** is the text of a process that the host specifies and can
boot. -/
theorem parseProcess_eq_some {g : GuestProcess} : parseProcess l = some (g, r) ↔
    ∃ p : OCIProcessSpec, p.bootable = true ∧ g = processView p.toFields ∧
      l = encode (processText p.toFields) ++ r := by
  rw [parseProcess_readable]
  constructor
  · rintro ⟨f, hf, rfl, rfl⟩
    obtain ⟨haccepted, hbootable⟩ := (readable_iff f).mp hf
    exact ⟨⟨f, haccepted⟩, hbootable, rfl, rfl⟩
  · rintro ⟨p, hbootable, rfl, rfl⟩
    exact ⟨p.toFields, (readable_iff p.toFields).mpr ⟨p.accepted, hbootable⟩, rfl, rfl⟩

end Palimpsest.Stage1.Init
