import Mathlib.Data.UInt
import Palimpsest.Lib.Lines

/-!
# Workload identities in the guest

The first program of the guest resolves the user of the process again, against the account
files as it finds them in the root it is about to enter (`resolveWorkloadIdentity`). It works
on bytes: spans of the plan, and spans of the two files, which it scans without building lists
of lines or fields.
-/

namespace Palimpsest.Account

/-- A character constant of the source. -/
def asciiByte (c : Char) : UInt8 := UInt8.ofNat c.toNat

def accountDatabaseMaxLocal : ℕ := 64 * 1024

/-- The loop of `numeric_account`, which leaves room for the next digit below `2^32 - 1`. -/
def numericAccountLoop : List UInt8 → ℕ → Option ℕ
  | [], value => some value
  | c :: s, value =>
    if c < asciiByte '0' ∨ asciiByte '9' < c then none
    else if (4294967294 - (c - asciiByte '0').toNat) / 10 < value then none
    else numericAccountLoop s (value * 10 + (c - asciiByte '0').toNat)

/-- `numeric_account`. -/
def numericAccount (s : List UInt8) : Option ℕ :=
  if s = [] ∨ 10 < s.length ∨ 1 < s.length ∧ s.head? = some (asciiByte '0') then none
  else numericAccountLoop s 0

def isLetterByte (b : UInt8) : Bool :=
  (asciiByte 'A' ≤ b && b ≤ asciiByte 'Z') || (asciiByte 'a' ≤ b && b ≤ asciiByte 'z')

/-- What `valid_account_name` allows after the first byte. -/
def isNameByte (b : UInt8) : Bool :=
  isLetterByte b || (asciiByte '0' ≤ b && b ≤ asciiByte '9') || b = asciiByte '_' ||
    b = asciiByte '.' || b = asciiByte '-'

/-- `valid_account_name`. -/
def validAccountName : List UInt8 → Bool
  | [] => false
  | b :: s =>
    (b :: s).length ≤ 32 && (isLetterByte b || b = asciiByte '_') && s.all isNameByte

/-- The user part of `struct guest_process`. -/
structure GuestProcess where
  userName : List UInt8
  groupName : List UInt8
  uid : ℕ
  gid : ℕ
  userNumeric : Bool
  groupNumeric : Bool
  groupPresent : Bool
  deriving DecidableEq

/-- The user part of `parse_process`: the group first, then the user. A name leaves the number
as it is, zero. -/
def parseProcessUser (group : Option (List UInt8)) (user : List UInt8) : Option GuestProcess :=
  let groupName := group.getD []
  if group.isSome ∧ numericAccount groupName = none ∧ validAccountName groupName = false then none
  else if numericAccount user = none ∧ validAccountName user = false then none
  else some {
    userName := user
    groupName := groupName
    uid := (numericAccount user).getD 0
    gid := (numericAccount groupName).getD 0
    userNumeric := (numericAccount user).isSome
    groupNumeric := (numericAccount groupName).isSome
    groupPresent := group.isSome }

/-- What `read_account_database` returns: 0, 2, or 1 with the bytes. -/
inductive DatabaseState
  | rejected
  | missing
  | read (bytes : List UInt8)
  deriving DecidableEq

/-- `read_account_database`. -/
def readAccountDatabase (file : Option (List UInt8)) (required : Bool) : DatabaseState :=
  match file with
  | none => if required then .rejected else .missing
  | some bytes =>
    if accountDatabaseMaxLocal < bytes.length then .rejected
    else if bytes ≠ [] ∧ bytes.getLast? ≠ some (asciiByte '\n') then .rejected
    else if bytes.any fun b => b = 0 ∨ 0x80 ≤ b then .rejected
    else .read bytes

/-- The loop of `account_field`, with the field that is being read in reverse order. -/
def accountFieldLoop (index : ℕ) : List UInt8 → List UInt8 → ℕ → Option (List UInt8)
  | [], current, field => if field = index then some current.reverse else none
  | b :: line, current, field =>
    if b ≠ asciiByte ':' then accountFieldLoop index line (b :: current) field
    else if field = index then some current.reverse
    else accountFieldLoop index line [] (field + 1)

/-- `account_field`. -/
def accountField (line : List UInt8) (index : ℕ) : Option (List UInt8) :=
  accountFieldLoop index line [] 0

/-- `account_line_fields`. -/
def accountLineFields (line : List UInt8) (expected : ℕ) : Bool :=
  1 + line.count (asciiByte ':') = expected

/-- Whether a loop over an account file skips the line. -/
def skipsLine (line : List UInt8) : Bool := line.isEmpty || line.head? = some (asciiByte '#')

/-- What a loop over an account file has found so far. -/
structure Found where
  matched : ℕ
  uid : ℕ
  gid : ℕ
  deriving DecidableEq

/-- What the loop over the passwd file does with an entry. -/
def passwdEntry (process : GuestProcess) (line : List UInt8) (s : Found) : Option Found :=
  if accountLineFields line 7 then do
    let name ← accountField line 0
    if validAccountName name then do
      let uid ← numericAccount (← accountField line 2)
      let gid ← numericAccount (← accountField line 3)
      -- The uid of the process is overwritten where an entry matches.
      if process.userNumeric ∧ uid = s.uid ∨ ¬process.userNumeric ∧ process.userName = name then
        return ⟨s.matched + 1, uid, gid⟩
      else return s
    else none
  else none

/-- What the loop over the group file does with an entry. -/
def groupEntry (process : GuestProcess) (line : List UInt8) (s : Found) : Option Found :=
  if accountLineFields line 4 then do
    let name ← accountField line 0
    if validAccountName name then do
      let gid ← numericAccount (← accountField line 2)
      if process.groupName = name then return ⟨s.matched + 1, s.uid, gid⟩ else return s
    else none
  else none

/-- The loop over an account file. -/
def scanDatabase (entry : List UInt8 → Found → Option Found) (bytes : List UInt8) (s : Found) :
    Option Found :=
  Lines.scan (asciiByte '\n')
    (fun line s => if skipsLine line then some s else entry line s) bytes s

/-- The loop over the passwd file, where there is one. -/
def loopPasswd (process : GuestProcess) (s : Found) : DatabaseState → Option Found
  | .rejected => none
  | .missing => some s
  | .read bytes => scanDatabase (passwdEntry process) bytes s

/-- The part of `resolve_workload_identity` for the passwd file. -/
def scanPasswd (process : GuestProcess) (passwd : Option (List UInt8)) : Option Found := do
  let passwdState :=
    if !process.userNumeric || !process.groupPresent then
      readAccountDatabase passwd (!process.userNumeric)
    else .missing
  let found ← loopPasswd process ⟨0, process.uid, 0⟩ passwdState
  if !process.userNumeric ∧ found.matched ≠ 1 ∨ 1 < found.matched then none else some found

/-- The part of `resolve_workload_identity` for the group file. -/
def scanGroup (process : GuestProcess) (group : Option (List UInt8)) : Option ℕ :=
  match readAccountDatabase group true with
  | .read bytes => do
    let found ← scanDatabase (groupEntry process) bytes ⟨0, process.uid, process.gid⟩
    if found.matched = 1 then some found.gid else none
  | _ => none

/-- The gid, once the passwd file is scanned. -/
def processGid (process : GuestProcess) (found : Found) (group : Option (List UInt8)) :
    Option ℕ :=
  if !process.groupPresent then some (if found.matched ≠ 0 then found.gid else 0)
  else if process.groupNumeric then some process.gid
  else scanGroup process group

/-- `resolve_workload_identity`: the uid and the gid that it leaves in the process. -/
def resolveWorkloadIdentity (process : GuestProcess) (passwd group : Option (List UInt8)) :
    Option (ℕ × ℕ) :=
  if process.userNumeric && process.groupPresent && process.groupNumeric then
    some (process.uid, process.gid)
  else do
    let found ← scanPasswd process passwd
    return (found.uid, ← processGid process found group)

end Palimpsest.Account
