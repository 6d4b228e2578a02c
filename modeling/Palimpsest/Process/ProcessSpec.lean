import Mathlib.Data.List.Infix
import Palimpsest.Account.HostUser
import Palimpsest.Lib.JsonWidth
import Palimpsest.Lib.PosixPath
import Palimpsest.Lib.Results

/-!
# Process specifications

What an image runs: its arguments, its environment, the working directory, the user and the
signal that stops it. The constructor checks all of them and adds a search path where the
environment has none (`postInit`); what it makes it accepts as it is (`postInit_idem`), and this
is what an `OCIProcessSpec` carries.

How `str.upper` spells the characters beyond ASCII is a parameter.
-/

namespace Palimpsest.Process

open Account (AccountError OCIUserSpec isAsciiLetter)
open Json Decimal PosixPath

def maxProcessArguments : ℕ := 4096

def maxProcessEnvironment : ℕ := 4096

def maxProcessBytes : ℕ := 256 * 1024

/-- `OCI_DEFAULT_PATH`. -/
def ociDefaultPath : Text :=
  "/usr/local/sbin:/usr/local/bin:/usr/sbin:/usr/bin:/sbin:/bin".toList

/-- The name `PATH`. -/
def pathName : Text := "PATH".toList

/-- The class `[A-Za-z0-9_]`. -/
def isEnvChar (c : Char) : Bool := isAsciiLetter c || c = '_' || ('0' ≤ c && c ≤ '9')

/-- `_ENV_NAME_RE`: `^[A-Za-z_][A-Za-z0-9_]*$`. -/
def isEnvName : Text → Bool
  | [] => false
  | c :: t => (isAsciiLetter c || c = '_') && t.all isEnvChar

theorem isEnvChar_of_mem {t : Text} (h : isEnvName t = true) {c : Char} (hc : c ∈ t) :
    isEnvChar c = true := by
  cases t with
  | nil => cases h
  | cons d t =>
    obtain ⟨hd, ht⟩ := Bool.and_eq_true_iff.mp h
    rcases List.mem_cons.mp hc with rfl | hc
    · rw [isEnvChar, hd, Bool.true_or]
    · exact List.all_eq_true.mp ht c hc

/-- `_SIGNALS`. -/
def signals : List (Text × ℤ) :=
  [("SIGHUP".toList, 1), ("SIGINT".toList, 2), ("SIGQUIT".toList, 3), ("SIGABRT".toList, 6),
    ("SIGKILL".toList, 9), ("SIGUSR1".toList, 10), ("SIGUSR2".toList, 12),
    ("SIGPIPE".toList, 13), ("SIGALRM".toList, 14), ("SIGTERM".toList, 15),
    ("SIGCHLD".toList, 17), ("SIGCONT".toList, 18), ("SIGSTOP".toList, 19),
    ("SIGTSTP".toList, 20), ("SIGTTIN".toList, 21), ("SIGTTOU".toList, 22)]

/-! ### The checks -/

/-- `_plain_string`. -/
def plainString (value : Text) (fieldName : String) (allowEmpty : Bool) :
    Except AccountError Unit :=
  if (allowEmpty = false ∧ value = []) ∨ '\x00' ∈ value then
    .error (.invalid (fieldName ++ " is invalid"))
  else if 32 * 1024 < byteLength value then .error (.invalid (fieldName ++ " is too large"))
  else .ok ()

/-- `str.upper`, with the upper case of the characters beyond ASCII. -/
def upper (upperOf : Char → Text) (t : Text) : Text :=
  t.flatMap fun c => if c.toNat < 0x80 then [c.toUpper] else upperOf c

/-- The number that a text names as a stop signal. -/
def signalNumber (rendered : Text) : Except AccountError ℤ :=
  if isDecimal rendered then
    if maxStrDigits < rendered.length then .error .tooManyDigits
    else if natText (intValue rendered) ≠ rendered then
      .error (.invalid "image process stop signal is not canonical")
    else .ok (intValue rendered)
  else
    let rendered := if "SIG".toList <+: rendered then rendered else "SIG".toList ++ rendered
    .ok ((signals.lookup rendered).getD 0)

/-- The number that a value other than the missing one stands for. -/
def rawSignal (upperOf : Char → Text) : Value → Except AccountError ℤ
  | .int z => .ok z
  | .str s => signalNumber (upper upperOf s.toList)
  | _ => .ok 0

/-- `_stop_signal`. -/
def stopSignalNumber (upperOf : Char → Text) (value : Value) : Except AccountError ℤ :=
  if value = .null ∨ value = .str "" then .ok 15
  else do
    let number ← rawSignal upperOf value
    if ¬(1 ≤ number ∧ number ≤ 64) then
      .error (.invalid "image process stop signal is unsupported")
    else .ok number

/-- The loop over the arguments, from this index on. -/
def checkArgv : ℕ → List Text → Except AccountError Unit
  | _, [] => .ok ()
  | index, value :: argv => do
    plainString value ("image process argv[" ++ String.ofList (natText index) ++ "]") true
    checkArgv (index + 1) argv

/-- The loop over the environment, from this index on, after these names. -/
def checkEnvironment : ℕ → List Text → List (Text × Text) → Except AccountError Unit
  | _, _, [] => .ok ()
  | index, names, (name, rawValue) :: environment =>
    if isEnvName name = false ∨ name ∈ names then
      .error (.invalid "image process environment name is invalid or duplicated")
    else do
      plainString rawValue
        ("image process environment[" ++ String.ofList (natText index) ++ "].value") true
      checkEnvironment (index + 1) (name :: names) environment

/-- The environment with a search path. -/
def withPath (environment : List (Text × Text)) : Except AccountError (List (Text × Text)) :=
  if pathName ∈ environment.map Prod.fst then .ok environment
  else if maxProcessEnvironment ≤ environment.length then
    .error (.invalid "image process environment leaves no room for default PATH")
  else .ok (environment ++ [(pathName, ociDefaultPath)])

/-- `str(user.to_dict())`. -/
def userText (user : OCIUserSpec) : Text :=
  "\x7b'group': ".toList ++
    (match user.group with
      | none => "None".toList
      | some g => '\'' :: g ++ ['\'']) ++
    ", 'user': '".toList ++ user.user ++ "'\x7d".toList

/-- The bytes that a process takes. -/
def totalBytes (argv : List Text) (environment : List (Text × Text)) (cwd : Text)
    (user : OCIUserSpec) : ℕ :=
  (argv.map fun value => byteLength value + 1).sum +
    (environment.map fun e => byteLength e.1 + byteLength e.2 + 2).sum +
    byteLength cwd + byteLength (userText user)

/-- The fields of a process. -/
structure Fields where
  argv : List Text
  environment : List (Text × Text)
  cwd : Text
  user : OCIUserSpec
  stopSignal : ℤ

/-- `OCIProcessSpec.__post_init__`. -/
def postInit (upperOf : Char → Text) (argv : List Text) (environment : List (Text × Text))
    (cwd : Text) (user : OCIUserSpec) (stopSignal : Value) : Except AccountError Fields :=
  if maxProcessArguments < argv.length then .error (.invalid "image process argv is invalid")
  else do
    checkArgv 0 argv
    if maxProcessEnvironment < environment.length then
      .error (.invalid "image process environment is invalid")
    else do
      checkEnvironment 0 [] environment
      let environment ← withPath environment
      plainString cwd "image process cwd" false
      if isAbs cwd = false ∨ normpath cwd ≠ cwd ∨ ['/', '/'] <:+: cwd then
        .error (.invalid "image process cwd must be a canonical absolute path")
      else do
        let number ← stopSignalNumber upperOf stopSignal
        if maxProcessBytes < totalBytes argv environment cwd user then
          .error (.invalid "image process contract is too large")
        else .ok ⟨argv, environment, cwd, user, number⟩

variable {upperOf : Char → Text} {argv : List Text} {environment : List (Text × Text)} {cwd : Text}
  {user : OCIUserSpec} {stopSignal : Value} {f : Fields}

/-! ### What is accepted -/

/-- A string that `_plain_string` lets through. -/
def IsPlain (value : Text) : Prop := '\x00' ∉ value ∧ byteLength value ≤ 32 * 1024

instance : DecidablePred IsPlain := fun _ => inferInstanceAs (Decidable (_ ∧ _))

theorem plainString_eq_ok {value : Text} {fieldName : String} {allowEmpty : Bool} :
    plainString value fieldName allowEmpty = .ok () ↔
      (allowEmpty = false → value ≠ []) ∧ IsPlain value := by
  unfold plainString IsPlain
  split_ifs with hbad hlarge
  · refine iff_of_false nofun ?_
    rintro ⟨hne, hnul, -⟩
    exact hbad.elim (fun h => hne h.1 h.2) hnul
  · refine iff_of_false nofun ?_
    rintro ⟨-, -, hle⟩
    omega
  · rw [not_or, not_and] at hbad
    exact iff_of_true rfl ⟨hbad.1, hbad.2, Nat.not_lt.mp hlarge⟩

theorem checkArgv_eq_ok {index : ℕ} :
    checkArgv index argv = .ok () ↔ ∀ value ∈ argv, IsPlain value := by
  induction argv generalizing index with
  | nil => exact iff_of_true rfl nofun
  | cons value argv ih =>
    rw [checkArgv, Results.bind_eq_ok, List.forall_mem_cons]
    constructor
    · rintro ⟨_, hvalue, hrest⟩
      exact ⟨(plainString_eq_ok.mp hvalue).2, ih.mp hrest⟩
    · rintro ⟨hvalue, hrest⟩
      exact ⟨(), plainString_eq_ok.mpr ⟨nofun, hvalue⟩, ih.mpr hrest⟩

/-- An entry that the loop over the environment lets through. -/
def IsEntry (e : Text × Text) : Prop := isEnvName e.1 = true ∧ IsPlain e.2

theorem checkEnvironment_eq_ok {index : ℕ} {names : List Text} :
    checkEnvironment index names environment = .ok () ↔
      (∀ e ∈ environment, IsEntry e) ∧ (environment.map Prod.fst).Nodup ∧
        ∀ name ∈ environment.map Prod.fst, name ∉ names := by
  induction environment generalizing index names with
  | nil => exact iff_of_true rfl ⟨nofun, List.nodup_nil, nofun⟩
  | cons e environment ih =>
    obtain ⟨name, rawValue⟩ := e
    rw [checkEnvironment, List.forall_mem_cons, List.map_cons, List.nodup_cons,
      List.forall_mem_cons]
    split_ifs with hbad
    · refine iff_of_false nofun ?_
      rintro ⟨⟨hentry, -⟩, -, hnew, -⟩
      exact hbad.elim (fun h => Bool.false_ne_true (h.symm.trans hentry.1)) hnew
    · rw [not_or, Bool.not_eq_false] at hbad
      rw [Results.bind_eq_ok]
      constructor
      · rintro ⟨_, hvalue, hrest⟩
        obtain ⟨hentries, hnodup, hnames⟩ := ih.mp hrest
        have hfresh : name ∉ environment.map Prod.fst :=
          fun h => hnames name h List.mem_cons_self
        exact ⟨⟨⟨hbad.1, (plainString_eq_ok.mp hvalue).2⟩, hentries⟩, ⟨hfresh, hnodup⟩, hbad.2,
          fun n hn h => hnames n hn (List.mem_cons_of_mem name h)⟩
      · rintro ⟨⟨hentry, hentries⟩, ⟨hfresh, hnodup⟩, -, hnames⟩
        refine ⟨(), plainString_eq_ok.mpr ⟨nofun, hentry.2⟩, ih.mpr ⟨hentries, hnodup, ?_⟩⟩
        intro n hn hmem
        rcases List.mem_cons.mp hmem with rfl | hmem
        · exact hfresh hn
        · exact hnames n hn hmem

/-- What the loop over the environment leaves, with a search path in it. -/
structure Searchable (environment : List (Text × Text)) : Prop where
  entries : ∀ e ∈ environment, IsEntry e
  nodup : (environment.map Prod.fst).Nodup
  path : pathName ∈ environment.map Prod.fst
  length : environment.length ≤ maxProcessEnvironment

theorem isEntry_default : IsEntry (pathName, ociDefaultPath) := by
  unfold IsEntry IsPlain
  decide

theorem withPath_eq_ok {environment' : List (Text × Text)}
    (hlength : environment.length ≤ maxProcessEnvironment)
    (hcheck : checkEnvironment 0 [] environment = .ok ())
    (h : withPath environment = .ok environment') : Searchable environment' := by
  obtain ⟨hentries, hnodup, -⟩ := checkEnvironment_eq_ok.mp hcheck
  unfold withPath at h
  split_ifs at h with hpath hroom
  · obtain rfl := Except.ok.inj h
    exact ⟨hentries, hnodup, hpath, hlength⟩
  · obtain rfl := Except.ok.inj h
    refine ⟨?_, ?_, ?_, ?_⟩
    · intro e he
      rcases List.mem_append.mp he with he | he
      · exact hentries e he
      · exact List.mem_singleton.mp he ▸ isEntry_default
    · rw [List.map_append, List.map_singleton]
      exact List.nodup_append_comm.mp (List.nodup_cons.mpr ⟨hpath, hnodup⟩)
    · rw [List.map_append]
      exact List.mem_append_right _ (List.mem_singleton_self pathName)
    · rw [List.length_append, List.length_singleton]
      omega

theorem stopSignalNumber_int {z : ℤ} (h : 1 ≤ z ∧ z ≤ 64) :
    stopSignalNumber upperOf (.int z) = .ok z := by
  rw [stopSignalNumber, if_neg (by simp)]
  exact Results.bind_eq_ok.mpr ⟨z, rfl, Results.guard_eq_ok.mpr ⟨not_not_intro h, rfl⟩⟩

theorem stopSignalNumber_range {z : ℤ} (h : stopSignalNumber upperOf stopSignal = .ok z) :
    1 ≤ z ∧ z ≤ 64 := by
  unfold stopSignalNumber at h
  split_ifs at h
  · cases h
    decide
  · obtain ⟨number, -, h⟩ := Results.bind_eq_ok.mp h
    obtain ⟨hrange, h⟩ := Results.guard_eq_ok.mp h
    exact Except.ok.inj h ▸ not_not.mp hrange

/-- What the constructor has found out about the fields. -/
structure Fields.Accepted (f : Fields) : Prop where
  arguments : f.argv.length ≤ maxProcessArguments
  argv : ∀ value ∈ f.argv, IsPlain value
  environment : Searchable f.environment
  cwd : f.cwd ≠ [] ∧ IsPlain f.cwd
  canonical : ¬(isAbs f.cwd = false ∨ normpath f.cwd ≠ f.cwd ∨ ['/', '/'] <:+: f.cwd)
  stopSignal : 1 ≤ f.stopSignal ∧ f.stopSignal ≤ 64
  total : totalBytes f.argv f.environment f.cwd f.user ≤ maxProcessBytes

theorem accepted_of_postInit (h : postInit upperOf argv environment cwd user stopSignal = .ok f) :
    f.Accepted := by
  unfold postInit at h
  obtain ⟨harguments, h⟩ := Results.guard_eq_ok.mp h
  obtain ⟨_, hargv, h⟩ := Results.bind_eq_ok.mp h
  obtain ⟨hlength, h⟩ := Results.guard_eq_ok.mp h
  obtain ⟨_, hcheck, h⟩ := Results.bind_eq_ok.mp h
  obtain ⟨environment', hpath, h⟩ := Results.bind_eq_ok.mp h
  obtain ⟨_, hcwd, h⟩ := Results.bind_eq_ok.mp h
  obtain ⟨hcanonical, h⟩ := Results.guard_eq_ok.mp h
  obtain ⟨number, hsignal, h⟩ := Results.bind_eq_ok.mp h
  obtain ⟨htotal, h⟩ := Results.guard_eq_ok.mp h
  obtain rfl := Except.ok.inj h
  obtain ⟨hne, hplain⟩ := plainString_eq_ok.mp hcwd
  exact {
    arguments := Nat.not_lt.mp harguments
    argv := checkArgv_eq_ok.mp hargv
    environment := withPath_eq_ok (Nat.not_lt.mp hlength) hcheck hpath
    cwd := ⟨hne rfl, hplain⟩
    canonical := hcanonical
    stopSignal := stopSignalNumber_range hsignal
    total := Nat.not_lt.mp htotal }

/-- **The fields that the constructor accepts as they are.** -/
theorem Fields.Accepted.postInit (hf : f.Accepted) :
    postInit upperOf f.argv f.environment f.cwd f.user (.int f.stopSignal) = .ok f := by
  have hcheck : checkEnvironment 0 [] f.environment = .ok () :=
    checkEnvironment_eq_ok.mpr ⟨hf.environment.entries, hf.environment.nodup, fun _ _ => nofun⟩
  have hpath : withPath f.environment = .ok f.environment := if_pos hf.environment.path
  have hcwd : plainString f.cwd "image process cwd" false = .ok () :=
    plainString_eq_ok.mpr ⟨fun _ => hf.cwd.1, hf.cwd.2⟩
  unfold Process.postInit
  refine Results.guard_eq_ok.mpr ⟨Nat.not_lt.mpr hf.arguments, ?_⟩
  refine Results.bind_eq_ok.mpr ⟨(), checkArgv_eq_ok.mpr hf.argv, ?_⟩
  refine Results.guard_eq_ok.mpr ⟨Nat.not_lt.mpr hf.environment.length, ?_⟩
  refine Results.bind_eq_ok.mpr ⟨(), hcheck, Results.bind_eq_ok.mpr ⟨f.environment, hpath, ?_⟩⟩
  refine Results.bind_eq_ok.mpr ⟨(), hcwd, Results.guard_eq_ok.mpr ⟨hf.canonical, ?_⟩⟩
  refine Results.bind_eq_ok.mpr ⟨f.stopSignal, stopSignalNumber_int hf.stopSignal, ?_⟩
  exact Results.guard_eq_ok.mpr ⟨Nat.not_lt.mpr hf.total, rfl⟩

/-- What the constructor makes it accepts as it is. -/
theorem postInit_idem (h : postInit upperOf argv environment cwd user stopSignal = .ok f) :
    postInit upperOf f.argv f.environment f.cwd f.user (.int f.stopSignal) = .ok f :=
  (accepted_of_postInit h).postInit

/-! ### Specifications -/

/-- `OCIProcessSpec`: fields that the constructor accepts. -/
structure OCIProcessSpec extends Fields where
  accepted : toFields.Accepted

/-- The constructor of `OCIProcessSpec`. -/
def OCIProcessSpec.make (upperOf : Char → Text) (argv : List Text)
    (environment : List (Text × Text)) (cwd : Text) (user : OCIUserSpec) (stopSignal : Value) :
    Except AccountError OCIProcessSpec :=
  match h : postInit upperOf argv environment cwd user stopSignal with
  | .error e => .error e
  | .ok f => .ok ⟨f, accepted_of_postInit h⟩

/-- Every specification comes from the constructor. -/
theorem OCIProcessSpec.exists_make (upperOf : Char → Text) (p : OCIProcessSpec) :
    make upperOf p.argv p.environment p.cwd p.user (.int p.stopSignal) = .ok p := by
  have hok : postInit upperOf p.argv p.environment p.cwd p.user (.int p.stopSignal) =
      .ok p.toFields := p.accepted.postInit
  unfold make
  split
  · next e h => exact nomatch hok.symm.trans h
  · next f h =>
    obtain rfl := Except.ok.inj (hok.symm.trans h)
    rfl

/-- `OCIProcessSpec.bootable`. -/
def OCIProcessSpec.bootable (p : OCIProcessSpec) : Bool :=
  p.argv.head?.any fun command => command ≠ []

/-- `OCIProcessSpec.require_bootable`. -/
def OCIProcessSpec.requireBootable (p : OCIProcessSpec) : Except AccountError Unit :=
  if p.bootable then .ok ()
  else .error (.invalid "OCI image has no Entrypoint or Cmd to execute")

/-- `oci_path_candidates`. -/
def ociPathCandidates (p : OCIProcessSpec) : Except AccountError (List Text) := do
  p.requireBootable
  let command := p.argv.headD []
  if '/' ∈ command then .ok [command]
  else
    let path := (p.environment.lookup pathName).getD ociDefaultPath
    .ok ((path.splitOn ':').map fun directory =>
      if directory = [] then command else directory ++ '/' :: command)

end Palimpsest.Process
