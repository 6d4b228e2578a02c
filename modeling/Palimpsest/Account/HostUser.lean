import Palimpsest.Lib.Decimal
import Palimpsest.Lib.Lines

/-!
# Image users on the host

The `User` of an image names a user and perhaps a group, each by a number or by a name
(`OCIUserSpec`). The host resolves it against the account files of the image root
(`resolveOciUser`), which are read line by line and refused as a whole when one line is not as
it should be. What is accepted is characterised by two predicates on texts: the canonical
numbers (`accountNumber_eq_ok`) and the names (`isAccountName`).
-/

namespace Palimpsest.Account

open Json Decimal

/-- Why a user is not accepted: the text of the exception, or an `int` of too many digits. -/
inductive AccountError
  | invalid (message : String)
  | tooManyDigits
  deriving DecidableEq

def maxAccountDatabaseBytes : ℕ := 64 * 1024

def isAsciiLetter (c : Char) : Bool := ('A' ≤ c && c ≤ 'Z') || ('a' ≤ c && c ≤ 'z')

/-- The class `[A-Za-z0-9_.-]`. -/
def isNameChar (c : Char) : Bool :=
  isAsciiLetter c || ('0' ≤ c && c ≤ '9') || c = '_' || c = '.' || c = '-'

/-- `_ACCOUNT_RE`: `^[A-Za-z_][A-Za-z0-9_.-]{0,31}$`. -/
def isAccountName : Text → Bool
  | [] => false
  | c :: t => (isAsciiLetter c || c = '_') && t.length ≤ 31 && t.all isNameChar

/-- The largest user or group number, `2**32 - 2`. -/
def maxAccount : ℕ := 2 ^ 32 - 2

/-- `_account`. -/
def account (value : Text) (fieldName : String) : Except AccountError Text :=
  if isDecimal value then
    if maxStrDigits < value.length then .error .tooManyDigits
    else if maxAccount < intValue value ∨ natText (intValue value) ≠ value then
      .error (.invalid (fieldName ++ " is not canonical"))
    else .ok value
  else if isAccountName value then .ok value
  else .error (.invalid (fieldName ++ " is invalid"))

/-- `OCIUserSpec`. -/
structure OCIUserSpec where
  user : Text
  group : Option Text
  user_ok : account user "image process user" = .ok user
  group_ok : ∀ g ∈ group, account g "image process group" = .ok g

theorem eq_of_account_eq_ok {value u : Text} {fieldName : String}
    (h : account value fieldName = .ok u) : u = value := by
  unfold account at h
  split_ifs at h <;> exact (Except.ok.inj h).symm

theorem account_eq_ok {value u : Text} {fieldName : String} (h : account value fieldName = .ok u) :
    account value fieldName = .ok value := by
  rw [h, eq_of_account_eq_ok h]

/-- The constructor of `OCIUserSpec`. -/
def OCIUserSpec.make (user : Text) (group : Option Text) : Except AccountError OCIUserSpec :=
  match huser : account user "image process user" with
  | .error e => .error e
  | .ok _ =>
    match group with
    | none => .ok ⟨user, none, account_eq_ok huser, nofun⟩
    | some g =>
      match hgroup : account g "image process group" with
      | .error e => .error e
      | .ok _ => .ok ⟨user, some g, account_eq_ok huser, fun _ h =>
          Option.some.inj h ▸ account_eq_ok hgroup⟩

/-- `OCIUserSpec.from_value`, on a missing value or a text. -/
def OCIUserSpec.fromValue : Option Text → Except AccountError OCIUserSpec
  | none => make ['0'] (some ['0'])
  | some value =>
    if value = [] then make ['0'] (some ['0'])
    else if 1 < value.count ':' then .error (.invalid "image process user is invalid")
    else
      let user := value.takeWhile (· ≠ ':')
      let group := (value.dropWhile (· ≠ ':')).drop 1
      if user = [] ∨ ':' ∈ value ∧ group = [] then .error (.invalid "image process user is invalid")
      else make user (if ':' ∈ value then some group else none)

/-- `_account_number`. -/
def accountNumber (value : Text) (fieldName : String) : Except AccountError ℕ := do
  let canonical ← account value fieldName
  if isDecimal canonical then return intValue canonical
  else throw (.invalid (fieldName ++ " is not numeric"))

/-- `bytes.decode("ascii")`. -/
def decodeAscii (payload : List UInt8) : Option Text :=
  if payload.all (· < 0x80) then some (payload.map Char.ofUInt8) else none

/-- `_account_lines`. -/
def accountLines (payload : List UInt8) (fieldName : String) : Except AccountError (List Text) :=
  if maxAccountDatabaseBytes < payload.length ∨ 0 ∈ payload then
    .error (.invalid ("image-root " ++ fieldName ++ " database is invalid"))
  else match decodeAscii payload with
    | none => .error (.invalid ("image-root " ++ fieldName ++ " database is not ASCII"))
    | some text =>
      if text ≠ [] ∧ text.getLast? ≠ some '\n' then
        .error (.invalid ("image-root " ++ fieldName ++ " database is unterminated"))
      else
        let lines := if text = [] then [] else text.dropLast.splitOn '\n'
        .ok (lines.filter fun line => line ≠ [] ∧ line.head? ≠ some '#')

/-- An entry of the passwd file: name, uid, gid. -/
def passwdRecord (line : Text) : Except AccountError (Text × ℕ × ℕ) :=
  match line.splitOn ':' with
  | [name, _, uid, gid, _, _, _] =>
    if isAccountName name then do
      let uid ← accountNumber uid "image-root passwd UID"
      let gid ← accountNumber gid "image-root passwd GID"
      return (name, uid, gid)
    else .error (.invalid "image-root passwd entry is invalid")
  | _ => .error (.invalid "image-root passwd entry is invalid")

/-- An entry of the group file: name, gid. -/
def groupRecord (line : Text) : Except AccountError (Text × ℕ) :=
  match line.splitOn ':' with
  | [name, _, gid, _] =>
    if isAccountName name then do
      let gid ← accountNumber gid "image-root group GID"
      return (name, gid)
    else .error (.invalid "image-root group entry is invalid")
  | _ => .error (.invalid "image-root group entry is invalid")

/-- The records of the passwd file that `resolve_oci_user` looks at. -/
def passwdRecords (user : OCIUserSpec) (passwd : Option (List UInt8)) :
    Except AccountError (List (Text × ℕ × ℕ)) :=
  match passwd with
  | some payload =>
    -- The file is read for a named user, or for the group of a user without one.
    if !isDecimal user.user || user.group.isNone then do
      (← accountLines payload "passwd").mapM passwdRecord
    else .ok []
  | none => .ok []

/-- The user part of `resolve_oci_user`: the uid, and the records for the user. -/
def resolveUser (user : OCIUserSpec) (records : List (Text × ℕ × ℕ)) :
    Except AccountError (ℕ × List (Text × ℕ × ℕ)) :=
  let ambiguous := AccountError.invalid "image process user is ambiguous in image-root passwd"
  if isDecimal user.user then
    let passwdMatches := records.filter fun r => r.2.1 = intValue user.user
    if 1 < passwdMatches.length then .error ambiguous
    else .ok (intValue user.user, passwdMatches)
  else
    match records.filter fun r => r.1 = user.user with
    | [] => .error (.invalid "image process user is absent from image-root passwd")
    | [r] => .ok (r.2.1, [r])
    | _ => .error ambiguous

/-- The entries of the group file for a name must be one. -/
def groupOf (name : Text) (records : List (Text × ℕ)) : Except AccountError ℕ :=
  match (records.filter fun r => r.1 = name).map Prod.snd with
  | [gid] => .ok gid
  | [] => .error (.invalid "image process group is absent from image-root group")
  | _ => .error (.invalid "image process group is ambiguous in image-root group")

/-- The group part of `resolve_oci_user`, for a group by its name. -/
def resolveGroup (name : Text) (group : Option (List UInt8)) : Except AccountError ℕ :=
  match group with
  | none => .error (.invalid "image process group is absent from image-root group")
  | some payload => do groupOf name (← (← accountLines payload "group").mapM groupRecord)

/-- The group of a user without one: that of the entry for the user, or 0. -/
def primaryGroup (passwdMatches : List (Text × ℕ × ℕ)) : ℕ :=
  (passwdMatches.head?.map fun r => r.2.2).getD 0

/-- The gid, once the user is found. -/
def resolveGid (user : OCIUserSpec) (passwdMatches : List (Text × ℕ × ℕ))
    (group : Option (List UInt8)) : Except AccountError ℕ :=
  match user.group with
  | none => .ok (primaryGroup passwdMatches)
  | some name => if isDecimal name then .ok (intValue name) else resolveGroup name group

/-- `resolve_oci_user`. -/
def resolveOciUser (user : OCIUserSpec) (passwd group : Option (List UInt8)) :
    Except AccountError (ℕ × ℕ) := do
  let records ← passwdRecords user passwd
  let (uid, passwdMatches) ← resolveUser user records
  return (uid, ← resolveGid user passwdMatches group)

end Palimpsest.Account
