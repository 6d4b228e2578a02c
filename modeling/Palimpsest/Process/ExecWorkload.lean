import Palimpsest.Lib.Partition
import Palimpsest.Lib.Utf8
import Palimpsest.Process.ProcessSpec

/-!
# The search for the executable

The host lists the paths under which the executable of a process can be
(`ociPathCandidates`). The guest tries them one after the other (`execWorkload`): it goes
through the bytes of the last search path in its environment, and stops at a path that does not
fit its buffer. It tries what the host lists, in that order, up to the first path that does not
fit (`tried_execWorkload`), and there it returns ENAMETOOLONG (`result_execWorkload`).
-/

namespace Palimpsest.Process

open Account (AccountError OCIUserSpec)
open Json (byteLength)
open Utf8

/-! ### The guest -/

def pathMaxLocal : ℕ := 4096

def eNoEnt : ℤ := 2

def eAcces : ℤ := 13

def eNotDir : ℤ := 20

def eInval : ℤ := 22

def eNameTooLong : ℤ := 36

/-- A string of C: its bytes up to the one that ends it. -/
abbrev CString := {b : List UInt8 // 0 ∉ b}

/-- `OCI_DEFAULT_PATH_LOCAL`. -/
def ociDefaultPathLocal : List UInt8 :=
  encode "/usr/local/sbin:/usr/local/bin:/usr/sbin:/usr/bin:/sbin:/bin".toList

/-- The command part of `struct guest_process`. -/
structure GuestProcess where
  argv : List CString
  envp : List CString

/-- What `execve` answers to a path after those that were tried before, for one process. It
does not return from the executable. -/
abbrev Execve := List (List UInt8) → List UInt8 → Option ℤ

/-- The answers after which the search goes on. -/
def refused (operation : Option ℤ) : Bool :=
  operation = some (-eAcces) || operation = some (-eNoEnt) || operation = some (-eNotDir)

/-- The paths that were tried, and what `exec_workload` returns. -/
structure Search where
  tried : List (List UInt8)
  result : Option ℤ

/-- The loop of `exec_workload` over the directories of a search path. -/
def searchPath (execve : Execve) (command : List UInt8) (tried : List (List UInt8))
    (denied : Bool) (path : List UInt8) : Search :=
  let directory := path.takeWhile (· ≠ asciiByte ':')
  if directory ≠ [] ∧ pathMaxLocal < directory.length + 1 + command.length + 1 then
    ⟨tried, some (-eNameTooLong)⟩
  else if directory = [] ∧ pathMaxLocal < command.length + 1 then ⟨tried, some (-eNameTooLong)⟩
  else
    let candidate := if directory ≠ [] then directory ++ asciiByte '/' :: command else command
    let operation := execve tried candidate
    if refused operation = false then ⟨tried ++ [candidate], operation⟩
    else
      let denied := denied || operation = some (-eAcces)
      let rest := path.drop directory.length
      if rest = [] then ⟨tried ++ [candidate], some (if denied then -eAcces else -eNoEnt)⟩
      else searchPath execve command (tried ++ [candidate]) denied (rest.drop 1)
  termination_by path.length
  decreasing_by
    have hpos := List.length_pos_iff.mpr ‹¬List.drop directory.length path = []›
    rw [List.length_drop] at hpos
    rw [List.length_drop, List.length_drop]
    omega

/-- The search path of the environment: the last one. -/
def environmentPath (envp : List CString) (path : List UInt8) : List UInt8 :=
  envp.foldl (fun path e =>
    if encode "PATH=".toList <+: e.1 then e.1.drop 5 else path) path

/-- `exec_workload`. -/
def execWorkload (execve : Execve) (process : GuestProcess) : Search :=
  match process.argv with
  | [] => ⟨[], some (-eInval)⟩
  | command :: _ =>
    if command.1 = [] then ⟨[], some (-eInval)⟩
    else if asciiByte '/' ∈ command.1 then ⟨[command.1], execve [] command.1⟩
    else searchPath execve command.1 [] false (environmentPath process.envp ociDefaultPathLocal)

/-! ### The process of a specification -/

theorem zero_not_mem_encode {t : Text} (h : '\x00' ∉ t) : (0 : UInt8) ∉ encode t :=
  fun hmem => h ((mem_encode (c := '\x00') (by decide)).mp hmem)

/-- What `decode_process_string` stores. -/
def cString (t : Text) (h : IsPlain t) : CString := ⟨encode t, zero_not_mem_encode h.1⟩

theorem not_mem_of_isEnvName {t : Text} (h : isEnvName t = true) {c : Char}
    (hc : isEnvChar c = false) : c ∉ t :=
  fun hmem => Bool.false_ne_true (hc.symm.trans (isEnvChar_of_mem h hmem))

/-- What `append_environment` stores. -/
def appendEnvironment (e : Text × Text) (h : IsEntry e) : CString :=
  ⟨encode e.1 ++ asciiByte '=' :: encode e.2, by
    intro hmem
    rcases List.mem_append.mp hmem with hmem | hmem
    · exact zero_not_mem_encode (not_mem_of_isEnvName h.1 (by decide)) hmem
    · rcases List.mem_cons.mp hmem with heq | hmem
      · exact absurd heq (by decide)
      · exact zero_not_mem_encode h.2.1 hmem⟩

theorem val_appendEnvironment {e : Text × Text} (h : IsEntry e) :
    (appendEnvironment e h).1 = encode e.1 ++ asciiByte '=' :: encode e.2 := rfl

/-- What `parse_process` makes of the command of a specification. -/
def guestProcess (p : OCIProcessSpec) : GuestProcess where
  argv := p.argv.pmap cString p.accepted.argv
  envp := p.environment.pmap appendEnvironment p.accepted.environment.entries

/-! ### The search path -/

/-- An entry of the environment is the search path if its name is `PATH`. -/
theorem prefix_appendEnvironment {e : Text × Text} (h : IsEntry e) :
    encode "PATH=".toList <+: (appendEnvironment e h).1 ↔ e.1 = pathName := by
  have heq : encode "PATH=".toList = encode pathName ++ [asciiByte '='] := by decide
  have hname : asciiByte '=' ∉ encode e.1 := fun hmem =>
    not_mem_of_isEnvName h.1 (by decide) ((mem_encode (by decide)).mp hmem)
  rw [heq, val_appendEnvironment]
  constructor
  · rintro ⟨rest, hrest⟩
    rw [List.append_assoc, List.singleton_append] at hrest
    exact (encode_injective (Partition.append_inj (by decide) hname hrest).1).symm
  · intro hpath
    refine ⟨encode e.2, ?_⟩
    rw [hpath, List.append_assoc, List.singleton_append]

theorem drop_appendEnvironment {e : Text × Text} (h : IsEntry e) (hpath : e.1 = pathName) :
    (appendEnvironment e h).1.drop 5 = encode e.2 := by
  have hsplit : (appendEnvironment e h).1 = (encode pathName ++ [asciiByte '=']) ++ encode e.2 := by
    rw [val_appendEnvironment, hpath, List.append_cons]
  rw [hsplit]
  exact List.drop_left' (by decide)

/-- The last search path is the only one. -/
theorem environmentPath_pmap {environment : List (Text × Text)}
    (hentries : ∀ e ∈ environment, IsEntry e) (hnodup : (environment.map Prod.fst).Nodup)
    (path : List UInt8) :
    environmentPath (environment.pmap appendEnvironment hentries) path =
      ((environment.lookup pathName).map encode).getD path := by
  induction environment generalizing path with
  | nil => rfl
  | cons e environment ih =>
    obtain ⟨name, value⟩ := e
    obtain ⟨hfresh, hnodup⟩ := List.nodup_cons.mp hnodup
    rw [List.pmap_cons, environmentPath, List.foldl_cons, ← environmentPath, ih _ hnodup]
    by_cases hname : name = pathName
    · subst hname
      have hnone : environment.lookup pathName = none := by
        rw [List.lookup_eq_none_iff]
        intro e he
        rw [bne_iff_ne]
        intro heq
        exact hfresh (List.mem_map.mpr ⟨e, he, heq.symm⟩)
      rw [if_pos ((prefix_appendEnvironment _).mpr rfl), drop_appendEnvironment _ rfl, hnone,
        List.lookup_cons_self]
      rfl
    · rw [if_neg fun h => hname ((prefix_appendEnvironment _).mp h), List.lookup_cons,
        beq_false_of_ne (Ne.symm hname)]

/-! ### The search -/

/-- Paths are tried in their order, up to the first answer after which the search ends. -/
def attempts (execve : Execve) : List (List UInt8) → List (List UInt8) → List (List UInt8)
  | tried, [] => tried
  | tried, candidate :: candidates =>
    if refused (execve tried candidate) then attempts execve (tried ++ [candidate]) candidates
    else tried ++ [candidate]

/-- What is tried for a directory of the search path. -/
def candidateBytes (command directory : List UInt8) : List UInt8 :=
  if directory = [] then command else directory ++ asciiByte '/' :: command

/-- A path fits the buffer of the guest, together with the byte that ends it. -/
def fitsBytes (candidate : List UInt8) : Bool := candidate.length + 1 ≤ pathMaxLocal

theorem searchPath_eq {execve : Execve} {command path directory : List UInt8}
    {tried : List (List UInt8)} {denied : Bool}
    (hdirectory : path.takeWhile (· ≠ asciiByte ':') = directory) :
    searchPath execve command tried denied path =
      let candidate := candidateBytes command directory
      let operation := execve tried candidate
      if fitsBytes candidate = false then ⟨tried, some (-eNameTooLong)⟩
      else if refused operation = false then ⟨tried ++ [candidate], operation⟩
      else
        let denied := denied || operation = some (-eAcces)
        let rest := path.drop directory.length
        if rest = [] then ⟨tried ++ [candidate], some (if denied then -eAcces else -eNoEnt)⟩
        else searchPath execve command (tried ++ [candidate]) denied (rest.drop 1) := by
  rw [searchPath, hdirectory]
  dsimp only
  cases directory with
  | nil =>
    have hfits : pathMaxLocal < command.length + 1 ↔ fitsBytes command = false := by
      rw [fitsBytes, decide_eq_false_iff_not, Nat.not_le]
    simp only [ne_eq, not_true_eq_false, false_and, true_and, if_false, if_true, candidateBytes,
      hfits]
  | cons b d =>
    have hne : b :: d ≠ [] := List.cons_ne_nil b d
    have hfits : pathMaxLocal < (b :: d).length + 1 + command.length + 1 ↔
        fitsBytes (b :: d ++ asciiByte '/' :: command) = false := by
      rw [fitsBytes, decide_eq_false_iff_not, Nat.not_le, List.length_append,
        List.length_cons (a := asciiByte '/'), Nat.add_assoc _ 1, Nat.add_comm 1]
    rw [if_pos hne, candidateBytes, if_neg hne, if_neg fun h : b :: d = [] ∧ _ => hne h.1]
    exact if_congr ((and_iff_right hne).trans hfits) rfl rfl

/-- The search over a list of paths. -/
def searchList (execve : Execve) : List (List UInt8) → Bool → List (List UInt8) → Search
  | tried, denied, [] => ⟨tried, some (if denied then -eAcces else -eNoEnt)⟩
  | tried, denied, candidate :: candidates =>
    if fitsBytes candidate = false then ⟨tried, some (-eNameTooLong)⟩
    else if refused (execve tried candidate) = false then
      ⟨tried ++ [candidate], execve tried candidate⟩
    else searchList execve (tried ++ [candidate])
      (denied || execve tried candidate = some (-eAcces)) candidates

/-- The search goes through the directories between the colons. -/
theorem searchPath_eq_searchList (execve : Execve) (command path : List UInt8)
    (tried : List (List UInt8)) (denied : Bool) :
    searchPath execve command tried denied path =
      searchList execve tried denied
        ((path.splitOn (asciiByte ':')).map (candidateBytes command)) := by
  induction hn : path.length using Nat.strongRecOn generalizing path tried denied with
  | ind n ih =>
    by_cases hcolon : asciiByte ':' ∈ path
    · obtain ⟨directory, rest, rfl, hdirectory⟩ := List.eq_append_cons_of_mem hcolon
      have hlen : rest.length < n := by
        rw [← hn, List.length_append, List.length_cons]
        omega
      rw [searchPath_eq (Partition.takeWhile_append hdirectory), List.drop_left,
        List.splitOn_append_cons_self_of_not_mem hdirectory, List.map_cons, searchList]
      dsimp only
      rw [if_neg (List.cons_ne_nil _ _), List.drop_one, List.tail_cons,
        ih rest.length hlen rest _ _ rfl]
    · have hall : path.takeWhile (· ≠ asciiByte ':') = path := by
        rw [List.takeWhile_eq_self_iff]
        intro b hb
        rw [decide_eq_true_eq]
        rintro rfl
        exact hcolon hb
      rw [searchPath_eq hall, List.drop_length, List.splitOn_eq_singleton hcolon,
        List.map_singleton, searchList, searchList]
      dsimp only
      rw [if_pos rfl]

theorem tried_searchList (execve : Execve) (tried : List (List UInt8)) (denied : Bool)
    (candidates : List (List UInt8)) :
    (searchList execve tried denied candidates).tried =
      attempts execve tried (candidates.takeWhile fitsBytes) := by
  induction candidates generalizing tried denied with
  | nil => rfl
  | cons candidate candidates ih =>
    rw [searchList]
    cases hfits : fitsBytes candidate with
    | false => rw [if_pos rfl, List.takeWhile_cons_of_neg (by simp [hfits]), attempts]
    | true =>
      rw [if_neg (Bool.noConfusion : true ≠ false), List.takeWhile_cons_of_pos hfits, attempts]
      cases refused (execve tried candidate) with
      | false => rfl
      | true => exact ih _ _

/-- Each of these attempts is refused, after those before it. -/
def AllRefused (execve : Execve) : List (List UInt8) → List (List UInt8) → Prop
  | _, [] => True
  | tried, candidate :: candidates =>
    refused (execve tried candidate) ∧ AllRefused execve (tried ++ [candidate]) candidates

/-- A search that comes to a path without room ends there. -/
theorem result_searchList {execve : Execve} {tried : List (List UInt8)} (denied : Bool)
    {candidates : List (List UInt8)}
    (hrefused : AllRefused execve tried (candidates.takeWhile fitsBytes))
    (hlong : candidates.takeWhile fitsBytes ≠ candidates) :
    (searchList execve tried denied candidates).result = some (-eNameTooLong) := by
  induction candidates generalizing tried denied with
  | nil => exact absurd rfl hlong
  | cons candidate candidates ih =>
    rw [searchList]
    cases hfits : fitsBytes candidate with
    | false => rw [if_pos rfl]
    | true =>
      rw [List.takeWhile_cons_of_pos hfits] at hrefused hlong
      obtain ⟨hfirst, hrest⟩ := hrefused
      rw [if_neg (Bool.noConfusion : true ≠ false), hfirst,
        if_neg (Bool.noConfusion : true ≠ false)]
      exact ih _ hrest fun h => hlong (congrArg _ h)

/-! ### Both sides -/

/-- A path together with the byte that ends it fits the buffer of the guest. -/
def Fits (candidate : Text) : Prop := (encode candidate).length + 1 ≤ pathMaxLocal

instance : DecidablePred Fits := fun _ => inferInstanceAs (Decidable (_ ≤ _))

/-- The paths of the host before the first one that does not fit. An `argv[0]` with a slash does
not go through the buffer. -/
def reachable (p : OCIProcessSpec) (candidates : List Text) : List Text :=
  if '/' ∈ p.argv.headD [] then candidates else candidates.takeWhile (Fits ·)

theorem encode_candidate (command directory : Text) :
    encode (if directory = [] then command else directory ++ '/' :: command) =
      candidateBytes (encode command) (encode directory) := by
  rw [candidateBytes]
  by_cases hd : directory = []
  · rw [if_pos hd, if_pos (encode_eq_nil.mpr hd)]
  · rw [if_neg hd, if_neg fun h => hd (encode_eq_nil.mp h), encode_append, encode_cons,
      utf8EncodeChar_of_ascii (by decide), List.singleton_append]

theorem requireBootable_eq_ok {p : OCIProcessSpec} :
    p.requireBootable = .ok () ↔ ∃ command argv, p.argv = command :: argv ∧ command ≠ [] := by
  unfold OCIProcessSpec.requireBootable OCIProcessSpec.bootable
  cases hargv : p.argv with
  | nil => exact iff_of_false nofun fun ⟨_, _, h, _⟩ => nomatch h
  | cons command argv =>
    by_cases hne : command = []
    · rw [hne]
      refine iff_of_false nofun ?_
      rintro ⟨_, _, heq, hne⟩
      exact hne (List.cons.inj heq).1.symm
    · have hany : ((command :: argv).head?.any fun c => decide (c ≠ [])) = true :=
        decide_eq_true hne
      rw [if_pos hany]
      exact iff_of_true rfl ⟨command, argv, rfl, hne⟩

/-- The first argument in the guest. -/
theorem exists_command {p : OCIProcessSpec} {command : Text} {argv : List Text}
    (hargv : p.argv = command :: argv) :
    ∃ c rest, (guestProcess p).argv = c :: rest ∧ c.1 = encode command := by
  have hpmap : ∀ l (hl : ∀ value ∈ l, IsPlain value), l = command :: argv →
      ∃ c rest, l.pmap cString hl = c :: rest ∧ c.1 = encode command := by
    rintro _ hl rfl
    exact ⟨_, _, rfl, rfl⟩
  exact hpmap p.argv p.accepted.argv hargv

theorem environmentPath_guestProcess (p : OCIProcessSpec) :
    environmentPath (guestProcess p).envp ociDefaultPathLocal =
      encode ((p.environment.lookup pathName).getD ociDefaultPath) := by
  rw [guestProcess, environmentPath_pmap _ p.accepted.environment.nodup]
  cases p.environment.lookup pathName with
  | none => rfl
  | some path => rfl

theorem takeWhile_fits (candidates : List Text) :
    (candidates.map encode).takeWhile fitsBytes = (candidates.takeWhile (Fits ·)).map encode :=
  List.takeWhile_map

/-- With a slash in `argv[0]` the guest makes one attempt. Else it searches through the list of the
host. -/
theorem execWorkload_eq (execve : Execve) (p : OCIProcessSpec) {candidates : List Text}
    (h : ociPathCandidates p = .ok candidates) :
    ('/' ∈ p.argv.headD [] → ∃ command, candidates = [command] ∧
      execWorkload execve (guestProcess p) = ⟨[encode command], execve [] (encode command)⟩) ∧
    ('/' ∉ p.argv.headD [] → execWorkload execve (guestProcess p) =
      searchList execve [] false (candidates.map encode)) := by
  obtain ⟨_, hboot, h⟩ := Results.bind_eq_ok.mp h
  obtain ⟨command, argv, hargv, hne⟩ := requireBootable_eq_ok.mp hboot
  obtain ⟨c, rest, hguest, hc⟩ := exists_command hargv
  have hhead : p.argv.headD [] = command := by rw [hargv, List.headD_cons]
  have hslash : asciiByte '/' ∈ c.1 ↔ '/' ∈ command := by rw [hc, mem_encode (by decide)]
  rw [hhead] at h ⊢
  dsimp only at h
  rw [execWorkload, hguest]
  dsimp only
  rw [if_neg (by rwa [hc, encode_eq_nil])]
  refine ⟨fun hmem => ?_, fun hmem => ?_⟩
  · rw [if_pos hmem] at h
    obtain rfl := Except.ok.inj h
    rw [if_pos (hslash.mpr hmem), hc]
    exact ⟨command, rfl, rfl⟩
  · rw [if_neg hmem] at h
    obtain rfl := Except.ok.inj h
    rw [if_neg fun hb => hmem (hslash.mp hb), searchPath_eq_searchList,
      environmentPath_guestProcess, hc, splitOn_encode (by decide), List.map_map, List.map_map]
    -- A directory and the command are joined on the host as they are in the guest.
    have hcandidate : candidateBytes (encode command) ∘ encode =
        encode ∘ fun directory =>
          if directory = [] then command else directory ++ '/' :: command := by
      funext directory
      exact (encode_candidate command directory).symm
    rw [hcandidate]

/-- **The guest tries what the host lists**, up to the first path that it has no room for. -/
theorem tried_execWorkload (execve : Execve) (p : OCIProcessSpec) {candidates : List Text}
    (h : ociPathCandidates p = .ok candidates) :
    (execWorkload execve (guestProcess p)).tried =
      attempts execve [] ((reachable p candidates).map encode) := by
  obtain ⟨hone, hlist⟩ := execWorkload_eq execve p h
  rw [reachable]
  by_cases hslash : '/' ∈ p.argv.headD []
  · obtain ⟨command, rfl, heq⟩ := hone hslash
    rw [heq, if_pos hslash, List.map_singleton, attempts]
    cases refused (execve [] (encode command)) with
    | false => rfl
    | true => rfl
  · rw [hlist hslash, if_neg hslash, tried_searchList, takeWhile_fits]

/-- Where every path before one without room is refused, the search ends with ENAMETOOLONG. -/
theorem result_execWorkload {execve : Execve} {p : OCIProcessSpec} {candidates : List Text}
    (h : ociPathCandidates p = .ok candidates)
    (hrefused : AllRefused execve [] ((reachable p candidates).map encode))
    (hlong : reachable p candidates ≠ candidates) :
    (execWorkload execve (guestProcess p)).result = some (-eNameTooLong) := by
  rw [reachable] at hrefused hlong
  split_ifs at hrefused hlong with hslash
  · exact absurd rfl hlong
  · rw [(execWorkload_eq execve p h).2 hslash]
    refine result_searchList false (by rwa [takeWhile_fits]) fun heq => hlong ?_
    rw [takeWhile_fits] at heq
    exact List.map_injective_iff.mpr encode_injective heq

/-- Where every attempt is refused, all paths are tried. -/
theorem attempts_of_refused {execve : Execve} {tried candidates : List (List UInt8)}
    (h : AllRefused execve tried candidates) :
    attempts execve tried candidates = tried ++ candidates := by
  induction candidates generalizing tried with
  | nil => rw [attempts, List.append_nil]
  | cons candidate candidates ih =>
    rw [attempts, if_pos h.1, ih h.2, List.append_assoc, List.singleton_append]

theorem allRefused_of_forall {execve : Execve} (h : ∀ tried path, refused (execve tried path))
    (tried candidates : List (List UInt8)) : AllRefused execve tried candidates := by
  induction candidates generalizing tried with
  | nil => trivial
  | cons candidate candidates ih => exact ⟨h tried candidate, ih _⟩

theorem reachable_of_fits {p : OCIProcessSpec} {candidates : List Text}
    (h : ∀ candidate ∈ candidates, Fits candidate) : reachable p candidates = candidates := by
  rw [reachable, List.takeWhile_eq_self_iff.mpr fun c hc => decide_eq_true (h c hc), ite_self]

/-- Without anything to execute, the guest tries nothing. -/
theorem execWorkload_of_error (execve : Execve) {p : OCIProcessSpec} {e : AccountError}
    (h : ociPathCandidates p = .error e) :
    execWorkload execve (guestProcess p) = ⟨[], some (-eInval)⟩ := by
  cases hargv : p.argv with
  | nil =>
    have hpmap : ∀ l (hl : ∀ value ∈ l, IsPlain value), l = [] → l.pmap cString hl = [] := by
      rintro _ _ rfl
      rfl
    rw [execWorkload, show (guestProcess p).argv = [] from hpmap _ p.accepted.argv hargv]
  | cons command argv =>
    obtain ⟨c, rest, hguest, hc⟩ := exists_command hargv
    by_cases hne : command = []
    · rw [execWorkload, hguest]
      dsimp only
      rw [if_pos (by rwa [hc, encode_eq_nil])]
    · rw [ociPathCandidates, requireBootable_eq_ok.mpr ⟨command, argv, hargv, hne⟩] at h
      dsimp only [bind, Except.bind] at h
      split_ifs at h

/-- The guest tries the paths of the host in their order. It stops at the first answer that is
no refusal, and before the first path that does not fit its buffer: there it returns ENAMETOOLONG.
With nothing to execute it returns EINVAL. -/
theorem execWorkload_agrees (execve : Execve) (p : OCIProcessSpec) :
    match ociPathCandidates p with
    | .error _ => execWorkload execve (guestProcess p) = ⟨[], some (-eInval)⟩
    | .ok candidates =>
      (execWorkload execve (guestProcess p)).tried =
          attempts execve [] ((reachable p candidates).map encode) ∧
        (AllRefused execve [] ((reachable p candidates).map encode) →
          (execWorkload execve (guestProcess p)).tried = (reachable p candidates).map encode ∧
            (reachable p candidates ≠ candidates →
              (execWorkload execve (guestProcess p)).result = some (-eNameTooLong))) ∧
        ((∀ candidate ∈ candidates, Fits candidate) → reachable p candidates = candidates) := by
  cases h : ociPathCandidates p with
  | error e => exact execWorkload_of_error execve h
  | ok candidates =>
    have htried := tried_execWorkload execve p h
    refine ⟨htried, fun hrefused => ⟨?_, result_execWorkload h hrefused⟩, reachable_of_fits⟩
    rw [htried, attempts_of_refused hrefused, List.nil_append]

/-! ### A directory that is too long -/

/-- The user `0:0`. -/
def rootUser : OCIUserSpec := ⟨['0'], some ['0'], rfl, by rintro _ ⟨⟩; rfl⟩

/-- `demo`, searched for along a path. -/
def demoFields (path : Text) : Fields where
  argv := ["demo".toList]
  environment := [(pathName, path)]
  cwd := ['/']
  user := rootUser
  stopSignal := 15

theorem accepted_demoFields {path : Text} (h : IsPlain path) : (demoFields path).Accepted where
  arguments := show 1 ≤ maxProcessArguments by decide
  argv := List.forall_mem_singleton.mpr (by decide)
  environment := ⟨List.forall_mem_singleton.mpr ⟨show isEnvName pathName = true by decide, h⟩,
    List.nodup_singleton _, List.mem_singleton_self _, show 1 ≤ maxProcessEnvironment by decide⟩
  cwd := show ['/'] ≠ [] ∧ IsPlain ['/'] by decide
  canonical := show ¬(PosixPath.isAbs ['/'] = false ∨ PosixPath.normpath ['/'] ≠ ['/'] ∨
    ['/', '/'] <:+: ['/']) by decide
  stopSignal := show (1 : ℤ) ≤ 15 ∧ (15 : ℤ) ≤ 64 by decide
  total := by
    have hdemo : byteLength "demo".toList = 4 := by decide
    have hname : byteLength pathName = 4 := by decide
    have hrest : byteLength ['/'] + byteLength (userText rootUser) < 100 := by decide
    have hpath : byteLength path ≤ 32 * 1024 := h.2
    simp only [demoFields, totalBytes, List.map_cons, List.map_nil, List.sum_cons, List.sum_nil,
      hdemo, hname, maxProcessBytes]
    omega

/-- A directory, and one with a name of so many letters. -/
def longPath (n : ℕ) : Text := "/first".toList ++ ':' :: List.replicate n 'x'

theorem isPlain_longPath {n : ℕ} (hn : n ≤ 30000) : IsPlain (longPath n) := by
  have hx : ∀ c ∈ List.replicate n 'x', c = 'x' := fun c hc => (List.mem_replicate.mp hc).2
  constructor
  · intro hmem
    rcases List.mem_append.mp hmem with hmem | hmem
    · exact absurd hmem (by decide)
    · rcases List.mem_cons.mp hmem with heq | hmem
      · exact absurd heq (by decide)
      · exact absurd (hx _ hmem) (by decide)
  · have hbytes : byteLength (List.replicate n 'x') = n := by
      rw [Json.byteLength_of_ascii fun c hc => hx c hc ▸ by decide, List.length_replicate]
    have hfirst : byteLength "/first".toList = 6 := by decide
    have hcolon : ':'.utf8Size = 1 := by decide
    rw [longPath, Json.byteLength_append, Json.byteLength_cons, hbytes, hfirst, hcolon]
    omega

/-- The process of a long path. -/
def longPathProcess (n : ℕ) (hn : n ≤ 30000) : OCIProcessSpec :=
  ⟨demoFields (longPath n), accepted_demoFields (isPlain_longPath hn)⟩

theorem ociPathCandidates_longPath {n : ℕ} (hn : n ≤ 30000) (hpos : 0 < n) :
    ociPathCandidates (longPathProcess n hn) =
      .ok ["/first/demo".toList, List.replicate n 'x' ++ '/' :: "demo".toList] := by
  have hcolon : ':' ∉ List.replicate n 'x' :=
    fun h => absurd (List.mem_replicate.mp h).2 (by decide)
  have hne : List.replicate n 'x' ≠ [] := fun h => hpos.ne' (List.replicate_eq_nil_iff 'x' |>.mp h)
  have hsplit : (longPath n).splitOn ':' = ["/first".toList, List.replicate n 'x'] := by
    rw [longPath, List.splitOn_append_cons_self_of_not_mem (by decide),
      List.splitOn_eq_singleton hcolon]
  have hcandidates : ociPathCandidates (longPathProcess n hn) =
      .ok (((longPath n).splitOn ':').map fun directory =>
        if directory = [] then "demo".toList else directory ++ '/' :: "demo".toList) := rfl
  rw [hcandidates, hsplit, List.map_cons, List.map_singleton, if_neg hne]
  rfl

/-- The host lists a path that the guest does not try, also where every attempt is refused. -/
theorem execWorkload_stops_early :
    ∃ candidates, ociPathCandidates (longPathProcess 4096 (by decide)) = .ok candidates ∧
      (execWorkload (fun _ _ => some (-eNoEnt))
        (guestProcess (longPathProcess 4096 (by decide)))).tried ≠ candidates.map encode := by
  have hn : 4096 ≤ 30000 := by decide
  have hcandidates := ociPathCandidates_longPath hn (by decide)
  refine ⟨_, hcandidates, fun htried => ?_⟩
  have hfits : ¬Fits (List.replicate 4096 'x' ++ '/' :: "demo".toList) := by
    intro hle
    have hlength := length_le_encode (List.replicate 4096 'x' ++ '/' :: "demo".toList)
    rw [List.length_append, List.length_replicate] at hlength
    have hmax : pathMaxLocal = 4096 := rfl
    rw [Fits, hmax] at hle
    omega
  rw [tried_execWorkload _ _ hcandidates,
    attempts_of_refused (allRefused_of_forall (fun _ _ => rfl) _ _), List.nil_append] at htried
  have hsame := List.map_injective_iff.mpr encode_injective htried
  have hslash : '/' ∉ (longPathProcess 4096 hn).argv.headD [] := show '/' ∉ "demo".toList by decide
  rw [reachable, if_neg hslash, List.takeWhile_eq_self_iff] at hsame
  exact hfits (of_decide_eq_true (hsame _ (List.mem_cons_of_mem _ (List.mem_singleton_self _))))

end Palimpsest.Process
