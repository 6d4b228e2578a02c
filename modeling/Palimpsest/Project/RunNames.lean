import Mathlib.Data.List.DropRight
import Palimpsest.Lib.Decimal
import Palimpsest.Lib.Sha256

/-!
# The names of VMs

The VM of a service is named after its project, its service and its replica, which are joined by
dashes. Where the joined text is no name of a VM, or too long for one, it is made one and marked
with digits of its hash (`runtimeSlug`).

A name that is marked has its mark after the last dash, and one that is not has its replica
there. So two names are the same where the joined texts are, and otherwise only where the hash
digits of one of them are the replica (`deterministicServiceName_inj_iff`).
-/

namespace Palimpsest.Project

open Json

/-- `[a-z0-9]`. -/
def isNameStart (c : Char) : Bool := c.isLower || c.isDigit

/-- `_NAME_RE`. -/
def isName : Text → Bool
  | [] => false
  | c :: t =>
    isNameStart c && (t.all fun c => isNameStart c || c = '_' || c = '.' || c = '-') &&
      t.length ≤ 62

/-- `[a-z0-9-]`. -/
def isSlugChar (c : Char) : Bool := isNameStart c || c = '-'

/-- `re.sub(r"[^a-z0-9-]+", "-", …)`, inside of a match or not. -/
def dashed : Bool → Text → Text
  | _, [] => []
  | isInside, c :: t =>
    if isSlugChar c then c :: dashed false t
    else if isInside then dashed true t
    else '-' :: dashed true t

/-- `strip("-")`. -/
def stripDashes (t : Text) : Text := (t.dropWhile (· = '-')).rdropWhile (· = '-')

/-- The slug of a text, before it is marked. -/
def slug (raw : Text) : Text :=
  match stripDashes (dashed false (raw.map Char.toLower)) with
  | [] => "project".toList
  | stripped => stripped

def hexDigits (b : UInt8) : Text :=
  [Nat.digitChar (b.toNat / 16), Nat.digitChar (b.toNat % 16)]

/-- The first digits of the hash of a text. -/
def slugSuffix (collisionKey : Text) : Text :=
  ((Sha256.digest (collisionKey.flatMap String.utf8EncodeChar)).flatMap hexDigits).take 8

/-- What is left of a slug that is marked. -/
def slugStem (raw : Text) : Text := ((slug raw).take 54).rdropWhile (· = '-')

/-- `changed`. -/
def isChanged (raw : Text) : Bool := slug raw ≠ raw || 63 < (slug raw).length

/-- `_runtime_slug`. -/
def runtimeSlug (raw collisionKey : Text) : Text :=
  if isChanged raw then (slugStem raw ++ '-' :: slugSuffix collisionKey).take 63
  else (slug raw).take 63

/-- The texts of a project and a service, joined. -/
def joined (projectName serviceName : Text) : Text := projectName ++ '-' :: serviceName

/-- What the name of a VM is made from. -/
def rawName (projectName serviceName : Text) (replica : ℕ) : Text :=
  joined projectName serviceName ++ '-' :: natText replica

/-- `deterministic_service_name`; none where it raises. -/
def deterministicServiceName (projectName serviceName : Text) (replica : ℕ) : Option Text :=
  if isName projectName && isName serviceName && 1 ≤ replica then
    let raw := rawName projectName serviceName replica
    some (runtimeSlug raw raw)
  else none

/-! ### The end of a name -/

/-- A text is cut at its last dash in one way. -/
theorem append_dash_inj {s t u v : Text} (hs : '-' ∉ s) (ht : '-' ∉ t)
    (h : u ++ '-' :: s = v ++ '-' :: t) : u = v ∧ s = t := by
  rcases List.append_eq_append_iff.mp h with ⟨w, rfl, hw⟩ | ⟨w, rfl, hw⟩
  · cases w with
    | nil => exact ⟨(List.append_nil u).symm, (List.cons.inj hw).2⟩
    | cons c w =>
      have hdash : '-' ∈ s := (List.cons.inj hw).2 ▸ List.mem_append_right _ List.mem_cons_self
      exact absurd hdash hs
  · cases w with
    | nil => exact ⟨List.append_nil v, (List.cons.inj hw).2.symm⟩
    | cons c w =>
      have hdash : '-' ∈ t := (List.cons.inj hw).2 ▸ List.mem_append_right _ List.mem_cons_self
      exact absurd hdash ht

theorem dash_notMem_natText (n : ℕ) : '-' ∉ natText n := fun h =>
  absurd (Decimal.isDigit_of_mem_natText h) (by decide)

theorem digitChar_ne_dash : ∀ n < 16, Nat.digitChar n ≠ '-' := by decide

theorem dash_notMem_hexDigits (b : UInt8) : '-' ∉ hexDigits b := by
  have hb := b.toNat_lt
  rw [hexDigits, List.mem_cons, List.mem_singleton, not_or]
  exact ⟨(digitChar_ne_dash _ (by omega)).symm, (digitChar_ne_dash _ (by omega)).symm⟩

theorem dash_notMem_slugSuffix (key : Text) : '-' ∉ slugSuffix key := by
  intro h
  obtain ⟨b, -, hb⟩ := List.mem_flatMap.mp (List.mem_of_mem_take h)
  exact dash_notMem_hexDigits b hb

theorem length_slugSuffix (key : Text) : (slugSuffix key).length = 8 := by
  have hdigits : ∀ l : List UInt8, (l.flatMap hexDigits).length = 2 * l.length := by
    intro l
    induction l with
    | nil => rfl
    | cons b l ih =>
      rw [List.flatMap_cons, List.length_append, ih, List.length_cons]
      change 2 + 2 * l.length = _
      omega
  rw [slugSuffix, List.length_take, hdigits, Sha256.length_digest]
  rfl

theorem length_slugStem_le (raw : Text) : (slugStem raw).length ≤ 54 :=
  (List.rdropWhile_prefix _ _).length_le.trans (List.length_take_le _ _)

/-- A slug that is marked is not cut. -/
theorem runtimeSlug_of_isChanged {raw key : Text} (h : isChanged raw = true) :
    runtimeSlug raw key = slugStem raw ++ '-' :: slugSuffix key := by
  have hstem := length_slugStem_le raw
  have hsuffix := length_slugSuffix key
  rw [runtimeSlug, if_pos h, List.take_of_length_le]
  rw [List.length_append, List.length_cons]
  omega

/-- A slug that is not marked is the text. -/
theorem runtimeSlug_of_not_isChanged {raw key : Text} (h : isChanged raw = false) :
    runtimeSlug raw key = raw := by
  have hsame : slug raw = raw ∧ (slug raw).length ≤ 63 := by
    simpa only [isChanged, Bool.or_eq_false_iff, ne_eq, decide_eq_false_iff_not, not_not, not_lt]
      using h
  rw [runtimeSlug, h, if_neg Bool.false_ne_true, List.take_of_length_le hsame.2, hsame.1]

/-! ### Two names -/

/-- The name of the first service, which is not marked, is the marked one of the second. -/
def Mimics (projectName serviceName projectName' serviceName' : Text) (replica : ℕ) : Prop :=
  isChanged (rawName projectName serviceName replica) = false ∧
    isChanged (rawName projectName' serviceName' replica) = true ∧
      natText replica = slugSuffix (rawName projectName' serviceName' replica) ∧
        joined projectName serviceName = slugStem (rawName projectName' serviceName' replica)

section

variable {p s p' s' : Text} {replica : ℕ}

/-- The replica of a name that mimics another one has eight digits. -/
theorem Mimics.length_replica (h : Mimics p s p' s' replica) : (natText replica).length = 8 := by
  obtain ⟨-, -, hreplica, -⟩ := h
  rw [hreplica, length_slugSuffix]

theorem rawName_inj (replica : ℕ) :
    rawName p s replica = rawName p' s' replica ↔ joined p s = joined p' s' :=
  List.append_left_inj _

/-- A name that is not marked is a marked one where the replica is the mark. -/
theorem mimics_iff (h : isChanged (rawName p s replica) = false)
    (h' : isChanged (rawName p' s' replica) = true) :
    Mimics p s p' s' replica ↔
      runtimeSlug (rawName p s replica) (rawName p s replica) =
        runtimeSlug (rawName p' s' replica) (rawName p' s' replica) := by
  rw [runtimeSlug_of_not_isChanged h, runtimeSlug_of_isChanged h']
  constructor
  · rintro ⟨-, -, hreplica, hjoined⟩
    rw [rawName, hreplica, hjoined]
  · intro heq
    obtain ⟨hjoined, hreplica⟩ :=
      append_dash_inj (dash_notMem_natText replica) (dash_notMem_slugSuffix _) heq
    exact ⟨h, h', hreplica, hjoined⟩

/-- Two names are the same if and only if the joined texts are, or one of them mimics the
other. -/
theorem runtimeSlug_inj_iff
    (hsuffix : slugSuffix (rawName p s replica) = slugSuffix (rawName p' s' replica) →
      rawName p s replica = rawName p' s' replica) :
    runtimeSlug (rawName p s replica) (rawName p s replica) =
        runtimeSlug (rawName p' s' replica) (rawName p' s' replica) ↔
      joined p s = joined p' s' ∨ Mimics p s p' s' replica ∨ Mimics p' s' p s replica := by
  rw [← rawName_inj replica]
  have hsame : rawName p s replica = rawName p' s' replica →
      runtimeSlug (rawName p s replica) (rawName p s replica) =
        runtimeSlug (rawName p' s' replica) (rawName p' s' replica) := fun h => by rw [h]
  -- A changed name carries a suffix; a plain one meets it only if it mimics it.
  cases h : isChanged (rawName p s replica) with
  | false =>
    cases h' : isChanged (rawName p' s' replica) with
    | false =>
      refine ⟨fun heq => .inl ?_, ?_⟩
      · rwa [runtimeSlug_of_not_isChanged h, runtimeSlug_of_not_isChanged h'] at heq
      · rintro (heq | ⟨-, hchanged, -⟩ | ⟨-, hchanged, -⟩)
        · exact hsame heq
        · rw [h'] at hchanged
          cases hchanged
        · rw [h] at hchanged
          cases hchanged
    | true =>
      refine ⟨fun heq => .inr (.inl ((mimics_iff h h').mpr heq)), ?_⟩
      rintro (heq | hmimics | ⟨hchanged, -⟩)
      · exact hsame heq
      · exact (mimics_iff h h').mp hmimics
      · rw [h'] at hchanged
        cases hchanged
  | true =>
    cases h' : isChanged (rawName p' s' replica) with
    | false =>
      refine ⟨fun heq => .inr (.inr ((mimics_iff h' h).mpr heq.symm)), ?_⟩
      rintro (heq | ⟨hchanged, -⟩ | hmimics)
      · exact hsame heq
      · rw [h] at hchanged
        cases hchanged
      · exact ((mimics_iff h' h).mp hmimics).symm
    | true =>
      refine ⟨fun heq => .inl (hsuffix ?_), ?_⟩
      · rw [runtimeSlug_of_isChanged h, runtimeSlug_of_isChanged h'] at heq
        exact (append_dash_inj (dash_notMem_slugSuffix _) (dash_notMem_slugSuffix _) heq).2
      · rintro (heq | ⟨hchanged, -⟩ | ⟨hchanged, -⟩)
        · exact hsame heq
        · rw [h] at hchanged
          cases hchanged
        · rw [h'] at hchanged
          cases hchanged

end

/-- **The names of the VMs of two services differ** if and only if the services are the same one,
or their joined texts differ and neither name mimics the other. -/
theorem deterministicServiceName_inj_iff {p s p' s' : Text} {replica : ℕ} (hp : isName p)
    (hs : isName s) (hp' : isName p') (hs' : isName s') (hreplica : 1 ≤ replica)
    (hsuffix : slugSuffix (rawName p s replica) = slugSuffix (rawName p' s' replica) →
      rawName p s replica = rawName p' s' replica) :
    (deterministicServiceName p s replica = deterministicServiceName p' s' replica →
        (p, s) = (p', s')) ↔
      (p, s) = (p', s') ∨
        joined p s ≠ joined p' s' ∧ ¬Mimics p s p' s' replica ∧ ¬Mimics p' s' p s replica := by
  have hname : deterministicServiceName p s replica = deterministicServiceName p' s' replica ↔
      joined p s = joined p' s' ∨ Mimics p s p' s' replica ∨ Mimics p' s' p s replica := by
    rw [deterministicServiceName, deterministicServiceName, hp, hs, hp', hs']
    simp only [hreplica, decide_true, Bool.and_self, if_true, Option.some.injEq]
    exact runtimeSlug_inj_iff hsuffix
  rw [hname, imp_iff_or_not, not_or, not_or]

/-- The projects `my_app` and `my.app`: the names of their services `web` are cut to one slug, and
are kept apart by their marks. -/
theorem deterministicServiceName_inj_iff_marked :
    slugStem (rawName "my_app".toList "web".toList 1) = "my-app-web-1".toList ∧
      slugStem (rawName "my.app".toList "web".toList 1) = "my-app-web-1".toList ∧
      deterministicServiceName "my_app".toList "web".toList 1 ≠
        deterministicServiceName "my.app".toList "web".toList 1 := by
  have hsuffix : slugSuffix (rawName "my_app".toList "web".toList 1) ≠
      slugSuffix (rawName "my.app".toList "web".toList 1) := by decide +kernel
  have hpairs : ("my_app".toList, "web".toList) ≠ ("my.app".toList, "web".toList) := by decide
  have hchanged : isChanged (rawName "my_app".toList "web".toList 1) = true := by decide
  have hchanged' : isChanged (rawName "my.app".toList "web".toList 1) = true := by decide
  refine ⟨by decide, by decide, fun hnames => hpairs ?_⟩
  refine (deterministicServiceName_inj_iff (by decide) (by decide) (by decide) (by decide)
    (Nat.le_refl 1) fun h => absurd h hsuffix).mpr (.inr ⟨by decide, fun h => ?_, fun h => ?_⟩)
    hnames
  · exact Bool.false_ne_true (h.1.symm.trans hchanged)
  · exact Bool.false_ne_true (h.1.symm.trans hchanged')

/-- The service `b-c` of `a` and the service `c` of `a-b` have one name, which is their joined
text and has no mark. -/
theorem deterministicServiceName_not_injective :
    isName ['a'] ∧ isName ['b', '-', 'c'] ∧ isName ['a', '-', 'b'] ∧ isName ['c'] ∧
      rawName ['a'] ['b', '-', 'c'] 1 = rawName ['a', '-', 'b'] ['c'] 1 ∧
      deterministicServiceName ['a'] ['b', '-', 'c'] 1 =
        deterministicServiceName ['a', '-', 'b'] ['c'] 1 ∧
      (['a'], ['b', '-', 'c']) ≠ (['a', '-', 'b'], ['c']) := by
  decide

end Palimpsest.Project
