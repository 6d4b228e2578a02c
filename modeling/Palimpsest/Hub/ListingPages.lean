import Mathlib.Data.Bool.AllAny
import Palimpsest.Hub.Listing
import Palimpsest.Lib.Lines

/-!
# Listings are complete

The pages of a listing are those of its rows in the order of a key: of the name
(`inventory_eq_page`), or of the time of a push and the digest, both descending
(`versions_eq_page`). No two rows of a listing have the same key, and a cursor is read back as the
key it was made with, so whoever follows the cursors is shown every row once
(`listing_complete`), whatever is pushed meanwhile.
-/

namespace Palimpsest.Hub.Listing

open Json Control

/-! ### What is in a cursor -/

theorem isPlain_of_isNameChar {c : Char} (h : isNameChar c = true) : isPlain c := by
  simp only [isNameChar, Bool.or_eq_true, Bool.and_eq_true, decide_eq_true_eq] at h
  rcases h with ⟨hlow, hhigh⟩ | ⟨hlow, hhigh⟩
  · exact isPlain_of_le hlow hhigh (by decide)
  · exact isPlain_of_le hlow hhigh (by decide)

/-- The characters of a package name. -/
theorem isPlain_of_mem_package {name : String} (h : isCanonicalPackage name = true) {c : Char}
    (hc : c ∈ name.toList) : isPlain c := by
  simp only [isCanonicalPackage, Bool.and_eq_true, List.all_eq_true] at h
  rcases Lines.mem_of_mem_splitOn '/' hc with rfl | ⟨component, hcomponent, hc⟩
  · decide
  · have hmatch := Regex.fullMatch_iff.mp (h.2 component hcomponent)
    have hconsume := hmatch.mayConsume hc
    simp only [componentRe, Regex.many1, Regex.oneOf, Regex.word, Regex.mayConsume,
      Bool.or_eq_true, decide_eq_true_eq, Bool.false_eq_true] at hconsume
    have hcase : isNameChar c = true ∨ c = '.' ∨ c = '_' ∨ c = '-' := by
      rcases hconsume with (h | h) | ((h | h) | (h | h | h) | h | h) | h | h
      all_goals first
        | exact h.elim
        | exact Or.inl h
        | exact Or.inr (by simp [h])
        | exact Or.inr (by simp [← h])
    rcases hcase with h | rfl | rfl | rfl
    · exact isPlain_of_isNameChar h
    all_goals decide

theorem package_plain {name : String} (h : isCanonicalPackage name = true) :
    (Position.package name).Plain := by
  refine ⟨fun c => isPlain_of_mem_package h, ?_⟩
  simp only [isCanonicalPackage, Bool.and_eq_true, decide_eq_true_eq] at h
  exact h.1.2.trans (by decide)

theorem isPlain_of_mem_digest {digest : String} (h : isDigest digest = true) {c : Char}
    (hc : c ∈ digest.toList) : isPlain c := by
  simp only [isDigest, Bool.and_eq_true, decide_eq_true_eq, List.all_eq_true] at h
  have hprefix : ∀ c ∈ "sha256:".toList, isPlain c := List.all_eq_true.mp (by decide)
  rw [← List.take_append_drop 7 digest.toList, h.1.1, List.mem_append] at hc
  rcases hc with hc | hc
  · exact hprefix c hc
  · exact isPlain_of_isHex (h.2 c hc)

theorem length_digest {digest : String} (h : isDigest digest = true) :
    digest.toList.length = 71 := by
  simp only [isDigest, Bool.and_eq_true, decide_eq_true_eq] at h
  have hprefix : "sha256:".toList.length = 7 := rfl
  rw [← List.take_append_drop 7 digest.toList, h.1.1, List.length_append, h.1.2, hprefix]

theorem version_plain (pushedAt : DateTime) {digest : String} (h : isDigest digest = true) :
    (Position.version (iso pushedAt) digest).Plain := by
  have hfixed : ∀ c ∈ "-T:.+".toList, isPlain c := by
    rw [← List.all_iff_forall_prop]
    decide
  have hlength := pushedAt.length_isoformat
  rw [Position.Plain, iso, String.toList_ofList, length_digest h]
  refine ⟨⟨fun c hc => ?_, fun c => isPlain_of_mem_digest h⟩, by omega⟩
  rcases DateTime.mem_isoformat hc with hdigit | hc
  · simp only [Char.isDigit, Bool.and_eq_true, decide_eq_true_eq] at hdigit
    exact isPlain_of_le (a := '0') (b := '9') hdigit.1 hdigit.2 (by decide)
  · exact hfixed c hc

/-! ### The packages of a project -/

section Packages

variable {actor : Actor} {ns : String} {limit : ℕ} {packageType : Option String} {db : Db}

/-- The rows that were found, one more than a page has, make the page. -/
theorem pageOf_eq {ρ κ : Type} [LinearOrder κ] {key : ρ → κ} (encode : κ → Text) {limit : ℕ}
    {after : Option κ} {rows : List ρ} {cursor : ρ → Text}
    (hcursor : ∀ r, cursor r = encode (key r)) :
    pageOf limit ((Keyset.sorted key (Keyset.later key after rows)).take (limit + 1)) cursor =
      ⟨(Keyset.page key limit after rows).items,
        (Keyset.page key limit after rows).next.map encode⟩ := by
  rw [pageOf, Keyset.page, apply_ite (Option.map encode), Option.map_map, Option.map_none,
    funext hcursor]
  rfl

/-- What is listed to an actor that asks for packages of this type: the packages of its project
that its scope has, and of no other type if it names one. -/
structure IsListed (actor : Actor) (packageType : Option String) (row : RegistryPackage) :
    Prop where
  project : row.projectId = actor.projectId
  scope : ∀ names, actor.scope = .packages names → row.name ∈ names
  type : ∀ type ∈ packageType, type ≠ "" → row.packageType = type

theorem mem_visiblePackages {row : RegistryPackage} :
    row ∈ visiblePackages actor packageType db ↔
      row ∈ db.packages ∧ IsListed actor packageType row := by
  have hscope : actor.scope.includes row.name = true ↔
      ∀ names, actor.scope = .packages names → row.name ∈ names := by
    cases actor.scope with
    | allPackages => simp [Scope.includes]
    | packages names => simp [Scope.includes]
  have htype : (packageType.all fun type => type = "" || row.packageType = type) = true ↔
      ∀ type ∈ packageType, type ≠ "" → row.packageType = type := by
    simp only [Option.all_eq_true, Bool.or_eq_true, decide_eq_true_eq, or_iff_not_imp_left]
    rfl
  rw [visiblePackages, List.mem_filter, Actor.sees, Bool.and_eq_true, Bool.and_eq_true,
    decide_eq_true_eq, hscope, htype]
  exact and_congr_right fun _ => ⟨fun h => ⟨h.1.1, h.1.2, h.2⟩, fun h => ⟨⟨h.1, h.2⟩, h.3⟩⟩

theorem distinct_visiblePackages :
    Keyset.Distinct RegistryPackage.name (visiblePackages actor packageType db) := by
  have hnodup : db.packages.Nodup := db.nodup_names.of_map _
  refine List.Nodup.map_on (fun p hp q hq hname => ?_) (hnodup.filter _)
  obtain ⟨hp, hplisted⟩ := mem_visiblePackages.mp hp
  obtain ⟨hq, hqlisted⟩ := mem_visiblePackages.mp hq
  have hproject : p.projectId = q.projectId := hplisted.project.trans hqlisted.project.symm
  exact List.inj_on_of_nodup_map db.nodup_names hp hq (Prod.ext hproject hname)

/-- The cursor behind a name. -/
def packageCursor (binding name : String) : Text := makeCursor binding (.package name)

/-- The name is one that a package can have. -/
def HeldPackage (name : String) : Prop := isCanonicalPackage name = true

/-- A cursor of packages is read back. -/
theorem packageAfter_readCursor (actor : Actor) (packageType : Option String)
    {after : Option String} (hafter : ∀ name ∈ after, HeldPackage name) :
    ∃ value, readCursor (after.map (packageCursor (cursorBinding actor "packages" packageType)))
        (cursorBinding actor "packages" packageType) = .ok value ∧
          packageAfter value = .ok after := by
  cases after with
  | none => exact ⟨none, rfl, rfl⟩
  | some name => exact ⟨_, readCursor_makeCursor (package_plain (hafter name rfl)), rfl⟩

/-- **A page of the inventory is a page of the packages in the order of their names.** -/
theorem inventory_eq_page (hns : actor.namespaceName = ns)
    (hread : "packages:read" ∈ actor.actions) {after : Option String}
    (hafter : ∀ name ∈ after, HeldPackage name) :
    inventory actor ns limit
      (after.map (packageCursor (cursorBinding actor "packages" packageType))) packageType db =
      .ok ⟨(Keyset.page RegistryPackage.name limit after
          (visiblePackages actor packageType db)).items,
        (Keyset.page RegistryPackage.name limit after
          (visiblePackages actor packageType db)).next.map
            (packageCursor (cursorBinding actor "packages" packageType))⟩ := by
  have hlater : (visiblePackages actor packageType db).filter (fun row =>
      after.all fun name => name = "" || name < row.name) =
        Keyset.later RegistryPackage.name after (visiblePackages actor packageType db) := by
    refine List.filter_congr fun row _ => ?_
    cases after with
    | none => rfl
    | some name =>
      -- no package has the empty name
      have hne : name ≠ "" := by
        rintro rfl
        exact absurd (show isCanonicalPackage "" = true from hafter "" rfl) (by decide)
      simp [hne]
  obtain ⟨value, hvalue, hname⟩ := packageAfter_readCursor actor packageType hafter
  rw [inventory, if_neg (not_not.mpr hns), if_neg (not_not.mpr hread)]
  simp only [hvalue, hname, bind, Except.bind]
  rw [hlater]
  exact congrArg Except.ok (pageOf_eq (packageCursor _) fun _ => rfl)

end Packages

/-! ### The versions of a package -/

section Versions

variable {actor : Actor} {ns package : String} {limit : ℕ} {db : Db} {row : RegistryPackage}

/-- What the versions of a package are ordered by, from the latest push on. -/
abbrev VersionKey : Type := (DateTime ×ₗ String)ᵒᵈ

def PackageVersion.key (v : PackageVersion) : VersionKey :=
  OrderDual.toDual (toLex (v.pushedAt, v.rootDigest))

/-- The cursor behind a key. -/
def versionCursor (binding : String) (key : VersionKey) : Text :=
  makeCursor binding (.version (iso (ofLex (OrderDual.ofDual key)).1)
    (ofLex (OrderDual.ofDual key)).2)

/-- The key is one that a version can have. -/
def HeldVersion (key : VersionKey) : Prop := isDigest (ofLex (OrderDual.ofDual key)).2 = true

theorem key_le {v w : PackageVersion} : v.key ≤ w.key ↔
    w.pushedAt < v.pushedAt ∨ w.pushedAt = v.pushedAt ∧ w.rootDigest ≤ v.rootDigest :=
  Prod.Lex.toLex_le_toLex

theorem mem_packageVersions {row : RegistryPackage} {v : PackageVersion} :
    v ∈ packageVersions row db ↔ v ∈ db.versions ∧ v.packageId = row.id := by
  rw [packageVersions, List.mem_filter, decide_eq_true_eq]

theorem distinct_packageVersions : Keyset.Distinct PackageVersion.key (packageVersions row db) := by
  have hnodup : db.versions.Nodup := db.nodup_versions.of_map _
  refine List.Nodup.map_on (fun v hv w hw hkey => ?_) (hnodup.filter _)
  obtain ⟨hv, hvrow⟩ := mem_packageVersions.mp hv
  obtain ⟨hw, hwrow⟩ := mem_packageVersions.mp hw
  have hpackage : v.packageId = w.packageId := hvrow.trans hwrow.symm
  have hdigest : v.rootDigest = w.rootDigest :=
    congrArg (fun key : VersionKey => (ofLex (OrderDual.ofDual key)).2) hkey
  exact List.inj_on_of_nodup_map db.nodup_versions hv hw (Prod.ext hpackage hdigest)

/-- A cursor of versions is read back. -/
theorem versionAfter_readCursor (actor : Actor) (package : String) {after : Option VersionKey}
    (hafter : ∀ key ∈ after, HeldVersion key) :
    ∃ value, readCursor (after.map (versionCursor (cursorBinding actor "versions" (some package))))
        (cursorBinding actor "versions" (some package)) = .ok value ∧
      versionAfter value = .ok (after.map fun key => ofLex (OrderDual.ofDual key)) := by
  cases after with
  | none => exact ⟨none, rfl, rfl⟩
  | some key =>
    have hheld := hafter key rfl
    refine ⟨_, readCursor_makeCursor (version_plain _ hheld), ?_⟩
    rw [Position.value, versionAfter, iso, String.toList_ofList,
      DateTime.fromIsoformat_isoformat]
    exact if_pos hheld

/-- The versions behind a position. -/
theorem filter_later (after : Option VersionKey) (l : List PackageVersion) :
    l.filter (fun v => (after.map fun key => ofLex (OrderDual.ofDual key)).all
      fun (pushed, digest) => v.pushedAt < pushed || v.pushedAt = pushed && v.rootDigest < digest) =
        Keyset.later PackageVersion.key after l := by
  refine List.filter_congr fun v _ => ?_
  cases after with
  | none => rfl
  | some key =>
    have hlt : key < v.key ↔ v.pushedAt < (ofLex (OrderDual.ofDual key)).1 ∨
        v.pushedAt = (ofLex (OrderDual.ofDual key)).1 ∧
          v.rootDigest < (ofLex (OrderDual.ofDual key)).2 := Prod.Lex.toLex_lt_toLex
    simp [hlt]

/-- **A page of versions is a page of them from the latest push on.** -/
theorem versions_eq_page (hauthorized : authorize actor ns package "packages:read" = .ok ())
    (hrow : packageRow actor package db = .ok row) {after : Option VersionKey}
    (hafter : ∀ key ∈ after, HeldVersion key) :
    versions actor ns package limit
      (after.map (versionCursor (cursorBinding actor "versions" (some package)))) db =
      .ok ⟨(Keyset.page PackageVersion.key limit after (packageVersions row db)).items,
        (Keyset.page PackageVersion.key limit after (packageVersions row db)).next.map
          (versionCursor (cursorBinding actor "versions" (some package)))⟩ := by
  obtain ⟨value, hvalue, hkey⟩ := versionAfter_readCursor actor package hafter
  have hsorted : ∀ l : List PackageVersion, l.insertionSort (fun a b => b.pushedAt < a.pushedAt ∨
      b.pushedAt = a.pushedAt ∧ b.rootDigest ≤ a.rootDigest) = Keyset.sorted PackageVersion.key l :=
    fun l => by
      rw [Keyset.sorted]
      congr! with a b
      exact key_le.symm
  rw [versions, hauthorized]
  simp only [hvalue, hrow, hkey, bind, Except.bind]
  rw [filter_later, hsorted]
  exact congrArg Except.ok (pageOf_eq (versionCursor _) fun _ => rfl)

end Versions

/-! ### Following the cursors -/

/-- There are finitely many characters. -/
instance finite_char : Finite Char :=
  Finite.of_injective (fun c => c.val.toFin) fun _ _ h => Char.ext (UInt32.toFin_inj.mp h)

theorem finite_packages : {name | HeldPackage name}.Finite := by
  have hlists : {l : List Char | l.length ≤ 253}.Finite := List.finite_length_le _ 253
  refine (hlists.image String.ofList).subset fun name hname => ?_
  simp only [Set.mem_ofPred_eq, HeldPackage, isCanonicalPackage, Bool.and_eq_true,
    decide_eq_true_eq] at hname
  exact ⟨name.toList, hname.1.2, String.ofList_toList⟩

theorem finite_versions : {key | HeldVersion key}.Finite := by
  have hlists : {l : List Char | l.length ≤ 71}.Finite := List.finite_length_le _ 71
  refine ((DateTime.finite_univ.prod (hlists.image String.ofList)).image fun p =>
    OrderDual.toDual (toLex p)).subset fun key hkey => ?_
  exact ⟨ofLex (OrderDual.ofDual key), ⟨trivial, _, (length_digest hkey).le,
    String.ofList_toList⟩, rfl⟩

/-- A package that is there is found again, whatever is pushed. -/
theorem packageRow_eq {actor : Actor} {db : Db} {row : RegistryPackage} (hrow : row ∈ db.packages)
    (hproject : row.projectId = actor.projectId) : packageRow actor row.name db = .ok row := by
  cases hfind : db.packages.find? fun p => p.projectId = actor.projectId && p.name = row.name with
  | none =>
    have hmissing := List.find?_eq_none.mp hfind row hrow
    simp [hproject] at hmissing
  | some found =>
    have hfound := List.find?_some hfind
    simp only [Bool.and_eq_true, decide_eq_true_eq] at hfound
    have hkey : (found.projectId, found.name) = (row.projectId, row.name) :=
      Prod.ext (hfound.1.trans hproject.symm) hfound.2
    rw [packageRow, hfind, List.inj_on_of_nodup_map db.nodup_names (List.mem_of_find?_eq_some hfind)
      hrow hkey]

theorem subset_of_grows {db : ℕ → Db} (hgrow : ∀ n, (db n).Grows (db (n + 1))) (n : ℕ) :
    (db 0).packages ⊆ (db n).packages := by
  induction n with
  | zero => exact List.Subset.refl _
  | succ n ih => exact fun _ hrow => (hgrow n).1 (ih hrow)

/-- **Listings are complete under pagination.** Whatever is pushed between two requests, following
the cursors of the inventory, or of the versions of a package, ends after finitely many requests,
and has every row that was there at the first one exactly once, in the order of the listing. If
nothing is pushed it has these rows and no others. -/
theorem listing_complete {db : ℕ → Db} (hgrow : ∀ n, (db n).Grows (db (n + 1))) {limit : ℕ}
    (hlimit : 1 ≤ limit) (actor : Actor) (ns : String) :
    (actor.namespaceName = ns → "packages:read" ∈ actor.actions → ∀ packageType : Option String,
      Keyset.Complete RegistryPackage.name (fun i => visiblePackages actor packageType (db i))
        (fun i cursor => inventory actor ns limit cursor packageType (db i)) ∧
      ∀ i row, row ∈ visiblePackages actor packageType (db i) ↔
        row ∈ (db i).packages ∧ IsListed actor packageType row) ∧
    ∀ row ∈ (db 0).packages, row.projectId = actor.projectId →
      authorize actor ns row.name "packages:read" = .ok () →
      Keyset.Complete PackageVersion.key (fun i => packageVersions row (db i))
        (fun i cursor => versions actor ns row.name limit cursor (db i)) ∧
      ∀ i v, v ∈ packageVersions row (db i) ↔ v ∈ (db i).versions ∧ v.packageId = row.id := by
  refine ⟨fun hns hread packageType => ⟨?_, fun _ _ => mem_visiblePackages⟩,
    fun row hrow hproject hauthorized => ⟨?_, fun _ _ => mem_packageVersions⟩⟩
  · exact Keyset.complete HeldPackage (fun _ => distinct_visiblePackages)
      (fun i => List.filter_subset _ (hgrow i).1) hlimit finite_packages
      (fun _ r _ => r.name_canonical)
      fun _ _ hafter => inventory_eq_page hns hread hafter
  · exact Keyset.complete HeldVersion (fun _ => distinct_packageVersions)
      (fun i => List.filter_subset _ (hgrow i).2) hlimit finite_versions
      (fun _ v _ => v.rootDigest_canonical)
      fun i _ hafter => versions_eq_page hauthorized
        (packageRow_eq (subset_of_grows hgrow i hrow) hproject) hafter

/-- An actor that reads a package with two versions that were pushed at one time. -/
def reader : Actor := ⟨"p", "tools", none, .allPackages, ["packages:read"], false⟩

def toolPackage : RegistryPackage := ⟨"7", "p", "make", "oci-image", by decide⟩

theorem isDigest_zeros :
    isDigest (String.ofList ("sha256:".toList ++ List.replicate 64 '0')) = true := by
  decide

def tiedDb : Db where
  packages := [toolPackage]
  versions :=
    [⟨"7", String.ofList ("sha256:".toList ++ List.replicate 64 '0'),
        ⟨2026, 2, 28, 12, 0, 0, 0, by decide⟩, isDigest_zeros⟩,
      ⟨"7", String.ofList ("sha256:".toList ++ List.replicate 64 '1'),
        ⟨2026, 2, 28, 12, 0, 0, 0, by decide⟩, by decide⟩]
  nodup_names := by decide
  nodup_versions := by decide

theorem listing_complete_tied :
    Keyset.Complete RegistryPackage.name (fun _ => visiblePackages reader none tiedDb)
      (fun _ cursor => inventory reader "tools" 1 cursor none tiedDb) ∧
    Keyset.Complete PackageVersion.key (fun _ => packageVersions toolPackage tiedDb)
      fun _ cursor => versions reader "tools" "make" 1 cursor tiedDb := by
  have hgrow : ∀ n, ((fun _ => tiedDb) n : Db).Grows ((fun _ => tiedDb) (n + 1)) := fun _ =>
    ⟨List.Subset.refl _, List.Subset.refl _⟩
  have hcomplete := listing_complete hgrow (le_refl 1) reader "tools"
  exact ⟨(hcomplete.1 rfl (by decide) none).1,
    (hcomplete.2 toolPackage (by decide) rfl (by decide)).1⟩

end Palimpsest.Hub.Listing
