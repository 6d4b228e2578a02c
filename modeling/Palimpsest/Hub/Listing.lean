import Palimpsest.Hub.Cursor
import Palimpsest.Lib.IsoTime
import Palimpsest.Lib.Keyset
import Palimpsest.Lib.Regex

/-!
# The listings of the package registry

An actor lists the packages of its project (`inventory`) in the order of their names, and the
versions of a package (`versions`) from the one that was pushed last. Both look for one row more
than a page has, to see whether there is a next page, and begin the next one behind the last row
of the page.
-/

namespace Palimpsest.Hub.Listing

open Json Control Regex

/-! ### Package names -/

/-- `[a-z0-9]` -/
def isNameChar (c : Char) : Bool := ('a' ≤ c && c ≤ 'z') || ('0' ≤ c && c ≤ '9')

/-- `_COMPONENT` -/
def componentRe : Regex :=
  seq (many1 (chars isNameChar)) (star (seq
    (oneOf (chars fun c => c = '.' || c = '_')
      [word (fun c d => c = d) ['_', '_'], many1 (chars fun c => c = '-')])
    (many1 (chars isNameChar))))

/-- Whether `canonical_package` lets a name through. -/
def isCanonicalPackage (value : String) : Bool :=
  value.toList ≠ [] && value.toList.length ≤ 253 &&
    (value.toList.splitOn '/').all componentRe.fullMatch

/-! ### The rows -/

/-- `RegistryPackage`. Its name is one that a push was let through with. -/
structure RegistryPackage where
  id : String
  projectId : String
  name : String
  packageType : String
  name_canonical : isCanonicalPackage name = true
  deriving DecidableEq

/-- `PackageVersion`, as far as listings order it. -/
structure PackageVersion where
  packageId : String
  rootDigest : String
  pushedAt : DateTime
  rootDigest_canonical : isDigest rootDigest = true
  deriving DecidableEq

/-- The tables, with the keys that are unique in them. -/
structure Db where
  packages : List RegistryPackage
  versions : List PackageVersion
  nodup_names : (packages.map fun p => (p.projectId, p.name)).Nodup
  nodup_versions : (versions.map fun v => (v.packageId, v.rootDigest)).Nodup

/-- Packages and versions are pushed, and what was pushed before stays. -/
def Db.Grows (db db' : Db) : Prop := db.packages ⊆ db'.packages ∧ db.versions ⊆ db'.versions

/-! ### Permissions -/

def checkPackage (ns package : String) : Except RegistryError Unit :=
  if isCanonicalPackage package = false ∨
      255 < (ns.toList ++ '/' :: package.toList).length then
    .error ⟨422, "INVALID_PACKAGE", "invalid canonical package name"⟩
  else .ok ()

/-- Whether the packages of a scope have this one. -/
def Scope.includes (package : String) : Scope → Bool
  | allPackages => true
  | packages names => package ∈ names

def authorize (actor : Actor) (ns package action : String) : Except RegistryError Unit := do
  checkPackage ns package
  if actor.namespaceName ≠ ns then
    throw ⟨403, "PROJECT_SCOPE_MISMATCH", "key or token belongs to another namespace"⟩
  if action ∉ actor.actions then
    throw ⟨403, "ACTION_DENIED", "required action not delegated"⟩
  if !actor.scope.includes package then
    throw ⟨403, "PACKAGE_SCOPE_DENIED", "package outside exact key scope"⟩
  if ":write".toList <:+ action.toList ∧ actor.canWrite = false then
    throw ⟨403, "ACTION_DENIED", "owner no longer has delegated write authority"⟩

/-! ### The packages of a project -/

/-- Whether an actor that asks for packages of this type is shown one. -/
def Actor.sees (actor : Actor) (packageType : Option String) (row : RegistryPackage) : Bool :=
  row.projectId = actor.projectId && actor.scope.includes row.name &&
    packageType.all fun type => type = "" || row.packageType = type

/-- The packages that an actor may list. -/
def visiblePackages (actor : Actor) (packageType : Option String) (db : Db) :
    List RegistryPackage :=
  db.packages.filter (actor.sees packageType)

/-- A cursor of packages is a name. -/
def packageAfter : Option Value → Except RegistryError (Option String)
  | none => .ok none
  | some (.str name) => .ok (some name)
  | some _ => .error ⟨422, "INVALID_CURSOR", "invalid package cursor"⟩

/-- The rows of a page out of those that were found, and its cursor where there are more. -/
def pageOf {ρ : Type} (limit : ℕ) (rows : List ρ) (cursor : ρ → Text) : Keyset.Page ρ Text :=
  ⟨rows.take limit, if limit < rows.length then (rows[limit - 1]?).map cursor else none⟩

def inventory (actor : Actor) (ns : String) (limit : ℕ) (cursor : Option Text)
    (packageType : Option String) (db : Db) :
    Except RegistryError (Keyset.Page RegistryPackage Text) := do
  if actor.namespaceName ≠ ns then
    throw ⟨403, "PROJECT_SCOPE_MISMATCH", "namespace does not match actor"⟩
  if "packages:read" ∉ actor.actions then
    throw ⟨403, "ACTION_DENIED", "package read not delegated"⟩
  let binding := cursorBinding actor "packages" packageType
  let after ← packageAfter (← readCursor cursor binding)
  let found := (visiblePackages actor packageType db).filter fun row =>
    after.all fun name => name = "" || name < row.name
  let rows := (found.insertionSort fun a b => a.name ≤ b.name).take (limit + 1)
  return pageOf limit rows fun row => makeCursor binding (.package row.name)

/-! ### The versions of a package -/

def packageRow (actor : Actor) (package : String) (db : Db) :
    Except RegistryError RegistryPackage :=
  match db.packages.find? fun row => row.projectId = actor.projectId && row.name = package with
  | none => .error ⟨404, "NOT_FOUND", "package not found"⟩
  | some row => .ok row

/-- A cursor of versions is a time and a digest. -/
def versionAfter : Option Value → Except RegistryError (Option (DateTime × String))
  | none => .ok none
  | some (.list [.str pushed, .str digest]) =>
    match DateTime.fromIsoformat pushed.toList with
    | some pushed =>
      if isDigest digest then .ok (some (pushed, digest))
      else .error ⟨422, "INVALID_CURSOR", "invalid version cursor"⟩
    | none => .error ⟨422, "INVALID_CURSOR", "invalid version cursor"⟩
  | some _ => .error ⟨422, "INVALID_CURSOR", "invalid version cursor"⟩

def packageVersions (row : RegistryPackage) (db : Db) : List PackageVersion :=
  db.versions.filter fun v => v.packageId = row.id

/-- `iso` -/
def iso (value : DateTime) : String := String.ofList value.isoformat

def versions (actor : Actor) (ns package : String) (limit : ℕ) (cursor : Option Text) (db : Db) :
    Except RegistryError (Keyset.Page PackageVersion Text) := do
  authorize actor ns package "packages:read"
  let binding := cursorBinding actor "versions" (some package)
  let after ← readCursor cursor binding
  let row ← packageRow actor package db
  let after ← versionAfter after
  let found := (packageVersions row db).filter fun v => after.all fun (pushed, digest) =>
    v.pushedAt < pushed || v.pushedAt = pushed && v.rootDigest < digest
  -- the latest push comes first, and of pushes at one time the one with the largest digest
  let rows := (found.insertionSort fun a b => b.pushedAt < a.pushedAt ∨
    b.pushedAt = a.pushedAt ∧ b.rootDigest ≤ a.rootDigest).take (limit + 1)
  return pageOf limit rows fun v =>
    makeCursor binding (.version (iso v.pushedAt) v.rootDigest)

end Palimpsest.Hub.Listing
