import Mathlib.Data.Bool.AllAny
import Palimpsest.Lib.Partition
import Palimpsest.Policy.SandboxPolicy

/-!
# The encoding of sandbox policies

Every document has one encoding. What a document is written as passes the inspection that
everything written or read has to pass: identifiers passed it when they were taken, the other
texts are fixed or digests, and all keys are known (`Palimpsest.Policy.Clean`). So a document that
is not too long is read back from its bytes, and only bytes that are written for a document are
read (`Palimpsest.Policy.EncodesExactly`).
-/

namespace Palimpsest.Policy

open Json Regex Results Canonical
open Control (encodeUtf8 decodeUtf8 decodeUtf8_encodeUtf8 isDigest isHex)

/-! ### The inspection -/

theorem rejectSensitiveItems_eq_ok {l : List Value} :
    rejectSensitiveItems l = .ok () ↔ ∀ v ∈ l, rejectSensitiveMaterial v = .ok () := by
  induction l with
  | nil => exact iff_of_true rfl nofun
  | cons v l ih =>
    rw [rejectSensitiveItems, bind_eq_ok, List.forall_mem_cons, ← ih]
    exact ⟨fun ⟨_, hv, hl⟩ => ⟨hv, hl⟩, fun ⟨hv, hl⟩ => ⟨(), hv, hl⟩⟩

theorem rejectSensitiveFields_eq_ok {d : List (String × Value)} :
    rejectSensitiveFields d = .ok () ↔
      ∀ f ∈ d, isSensitiveKey f.1 = false ∧ rejectSensitiveMaterial f.2 = .ok () := by
  induction d with
  | nil => exact iff_of_true rfl nofun
  | cons f d ih =>
    rw [rejectSensitiveFields, require_bind_eq_ok, bind_eq_ok, List.forall_mem_cons, ← ih,
      Bool.not_eq_true']
    exact ⟨fun ⟨hk, _, hv, hd⟩ => ⟨⟨hk, hv⟩, hd⟩, fun ⟨⟨hk, hv⟩, hd⟩ => ⟨hk, (), hv, hd⟩⟩

/-- A value that passes the inspection, and whose text is read back as the value. -/
structure Clean (v : Value) : Prop where
  safe : rejectSensitiveMaterial v = .ok ()
  sorted : v.sorted = v
  distinct : v.Distinct
  text : (dumps v).isSome = true

theorem clean_str {s : String} (h : isSensitive s.toList = false) : Clean (.str s) := by
  refine ⟨?_, rfl, trivial, rfl⟩
  rw [rejectSensitiveMaterial, rejectSensitiveString, h]
  rfl

theorem clean_bool (b : Bool) : Clean (.bool b) := ⟨rfl, rfl, trivial, by cases b <;> rfl⟩

theorem clean_version : Clean (.int 1) := ⟨rfl, rfl, trivial, by decide⟩

theorem clean_list {l : List Value} (h : ∀ v ∈ l, Clean v) : Clean (.list l) := by
  refine ⟨?_, ?_, ?_, ?_⟩
  · rw [rejectSensitiveMaterial, rejectSensitiveItems_eq_ok]
    exact fun v hv => (h v hv).safe
  · rw [Value.sorted, Value.sortedItems_eq_map]
    exact congrArg Value.list (List.map_congr_left (fun v hv => (h v hv).sorted) |>.trans l.map_id)
  · rw [Value.Distinct]
    induction l with
    | nil => trivial
    | cons v l ih =>
      obtain ⟨hv, hl⟩ := List.forall_mem_cons.mp h
      exact ⟨hv.distinct, ih hl⟩
  · exact isSome_dumps_list.mpr fun v hv => (h v hv).text

/-- An object whose keys are known and in order. -/
theorem clean_dict {d : List (String × Value)} (hkeys : ∀ k ∈ keys d, k ∈ schemaKeys)
    (hsorted : (keys d).Pairwise (· < ·)) (h : ∀ f ∈ d, Clean f.2) : Clean (.dict d) := by
  refine ⟨?_, ?_, ?_, ?_⟩
  · rw [rejectSensitiveMaterial, rejectSensitiveFields_eq_ok]
    intro f hf
    refine ⟨?_, (h f hf).safe⟩
    have hknown : f.1 ∈ schemaKeys := hkeys f.1 (List.mem_map_of_mem hf)
    simp only [isSensitiveKey, hknown, not_true_eq_false, decide_false, Bool.false_and]
  · have hfields : Value.sortedFields d = d := by
      rw [Value.sortedFields_eq_map]
      have hfield : ∀ f ∈ d, ((f.1, f.2.sorted) : String × Value) = f :=
        fun f hf => Prod.ext rfl (h f hf).sorted
      exact (List.map_congr_left hfield).trans d.map_id
    have hpairwise : d.Pairwise fun f g => f.1 ≤ g.1 :=
      (List.pairwise_map.mp hsorted).imp le_of_lt
    rw [Value.sorted, hfields, sortFields, List.Pairwise.insertionSort_eq hpairwise]
  · rw [Value.Distinct]
    refine ⟨hsorted.imp fun hlt heq => (heq ▸ hlt).ne rfl, ?_⟩
    clear hkeys hsorted
    induction d with
    | nil => trivial
    | cons f d ih =>
      obtain ⟨hf, hd⟩ := List.forall_mem_cons.mp h
      exact ⟨hf.distinct, ih hd⟩
  · exact isSome_dumps_dict.mpr fun f hf => (h f hf).text

/-! ### Digests pass the inspection -/

/-- The text of a digest. -/
theorem toList_of_isDigest {s : String} (h : isDigest s = true) :
    ∃ t, s.toList = "sha256".toList ++ ':' :: t ∧ ∀ c ∈ t, isHex c = true := by
  simp only [isDigest, Bool.and_eq_true, decide_eq_true_eq, List.all_eq_true] at h
  obtain ⟨⟨htake, -⟩, hall⟩ := h
  refine ⟨s.toList.drop 7, ?_, hall⟩
  rw [← List.take_append_drop 7 s.toList, htake]
  simp

/-- A digit of a digest, or another character that stands for itself in lowercase. -/
theorem lower_eq_self {t : Text} (h : ∀ c ∈ t, c.toNat < 0x80 ∧ c.isUpper = false) :
    lower t = t := by
  induction t with
  | nil => rfl
  | cons c t ih =>
    obtain ⟨⟨hascii, hupper⟩, ht⟩ := List.forall_mem_cons.mp h
    have hc : c.toLower = c := by
      unfold Char.isUpper at hupper
      unfold Char.toLower
      rw [decide_eq_false_iff_not] at hupper
      exact dif_neg hupper
    have hfirst : ¬c.toNat = 0x130 ∧ ¬c.toNat = 0x212a := ⟨by omega, by omega⟩
    rw [lower, List.flatMap_cons, if_neg hfirst.1, if_neg hfirst.2, hc, ← lower, ih ht]
    rfl

/-- What no hexadecimal digit is. -/
theorem notMem_of_isHex {t : Text} (h : ∀ c ∈ t, isHex c = true) {c : Char} (hc : isHex c = false) :
    c ∉ t := by
  intro hmem
  rw [h c hmem] at hc
  cases hc

theorem isHex_ascii {c : Char} (h : isHex c = true) : c.toNat < 0x80 ∧ c.isUpper = false := by
  simp only [isHex, Bool.or_eq_true, Bool.and_eq_true, decide_eq_true_eq, Char.le_def,
    UInt32.le_iff_toNat_le, Char.toNat_val] at h
  have hbounds : (48 ≤ c.toNat ∧ c.toNat ≤ 57) ∨ (97 ≤ c.toNat ∧ c.toNat ≤ 102) := h
  refine ⟨by omega, ?_⟩
  unfold Char.isUpper
  simp only [decide_eq_false_iff_not, ge_iff_le, UInt32.le_iff_toNat_le,
    Char.toNat_val]
  have hA : 'A'.toNat = 65 := rfl
  have hZ : 'Z'.toNat = 90 := rfl
  omega

/-- No word stands before the colon of a digest. -/
theorem assignmentSecretRe_digest {t : Text} (h : ∀ c ∈ t, isHex c = true) :
    assignmentSecretRe.search ("sha256".toList ++ ':' :: t) = false := by
  rw [Bool.eq_false_iff, Ne, search, searchFrom_iff]
  rintro ⟨x, w, a, heq, u, v, rfl, hu, sp, v', rfl, hsp, c, rfl, hc⟩
  have hspaces : ∀ c ∈ sp, Project.isSpace c = true := matches_star_chars.mp hsp
  have hcolon : c = ':' := by
    have hmem : c ∈ "sha256".toList ++ ':' :: t := by
      rw [heq]
      simp
    have hne : '=' ∉ "sha256".toList ++ ':' :: t :=
      List.not_mem_append (by decide) (List.not_mem_cons_of_ne_of_not_mem (by decide)
        (notMem_of_isHex h (by decide)))
    have hc : c = ':' ∨ c = '=' := by simpa using hc
    exact hc.resolve_right fun hc => hne (hc ▸ hmem)
  subst hcolon
  have hbefore : "sha256".toList = x ++ (u ++ sp) := by
    have hcut : "sha256".toList ++ ':' :: t = x ++ (u ++ sp) ++ ':' :: a := by
      rw [heq]
      simp
    exact Partition.left_eq (by decide) (notMem_of_isHex h (by decide)) hcut
  -- What the colon follows is the digit, which is no space and in no word.
  have hlast : (x ++ (u ++ sp)).getLast? = some '6' := by rw [← hbefore]; decide
  rcases List.eq_nil_or_concat' sp with rfl | ⟨sp, d, rfl⟩
  · rcases List.eq_nil_or_concat' u with rfl | ⟨u, d, rfl⟩
    · exact absurd hu.mayBeEmpty (by decide)
    · rw [List.append_nil, ← List.append_assoc, List.getLast?_concat] at hlast
      obtain rfl : d = '6' := by simpa using hlast
      exact absurd (hu.mayConsume (List.mem_append_right u List.mem_cons_self)) (by decide)
  · rw [← List.append_assoc, ← List.append_assoc, List.getLast?_concat] at hlast
    obtain rfl : d = '6' := by simpa using hlast
    exact absurd (hspaces '6' (by simp)) (by decide)

/-- A character that an expression matches somewhere in its middle. -/
theorem mem_of_matches_exactly {r s : Regex} {b : Option Char} {c : Char} {w a : Text}
    (h : (seq r (seq (Project.exactly (String.singleton c)) s)).Matches b w a) : c ∈ w := by
  obtain ⟨u, v, rfl, -, x, y, rfl, hx, -⟩ := h
  obtain rfl : x = (String.singleton c).toList := matches_word_eq.mp hx
  simp

/-- What begins with a word that ends with a blank has a blank in it. -/
theorem not_infix_begin {t : Text} (h : ' ' ∉ t) : ¬"-----begin ".toList <:+: t :=
  fun hpart => h (hpart.subset (by decide))

theorem any_bearer_eq_false {t : Text} (h : ' ' ∉ t) :
    (["bearer ", "basic "].any fun s => s.toList.isPrefixOf t) = false := by
  have hblank : ∀ s ∈ ["bearer ", "basic "], ' ' ∈ s.toList := by decide
  rw [List.any_eq_false]
  intro s hs hfirst
  exact h ((List.isPrefixOf_iff_prefix.mp hfirst).subset (hblank s hs))

theorem jwtRe_eq_false {t : Text} (h : '.' ∉ t) : jwtRe.fullMatch t = false := by
  rw [Bool.eq_false_iff, Ne, fullMatch_iff]
  exact fun hmatch => h (mem_of_matches_exactly hmatch)

theorem userinfoRe_eq_false {t : Text} (h : '@' ∉ t) : userinfoRe.search t = false := by
  rw [Bool.eq_false_iff, Ne, search, searchFrom_iff]
  rintro ⟨x, w, a, heq, u, v, rfl, -, u', v', rfl, -, hrest⟩
  have hmem : '@' ∈ v' := mem_of_matches_exactly hrest
  refine h ?_
  rw [heq]
  simp [hmem]

theorem accessKeyRe_eq_false {t : Text} (h : ∀ c ∈ t, c.isUpper = false) :
    accessKeyRe.fullMatch t = false := by
  rw [Bool.eq_false_iff, Ne, fullMatch_iff]
  rintro ⟨u, v, rfl, hu, -⟩
  obtain rfl : u = "AKIA".toList := matches_word_eq.mp hu
  have hupper := h 'A' (List.mem_append_left v (by decide))
  exact absurd hupper (by decide)

/-- A text passes the inspection if it is lowercase ASCII without blanks, slashes, points and at
signs, no word of it is assigned to, and it names no file and no variable. -/
theorem isSensitive_eq_false {t : Text} (hlower : ∀ c ∈ t, c.toNat < 0x80 ∧ c.isUpper = false)
    (hother : ∀ c ∈ [' ', '/', '\\', '.', '@'], c ∉ t)
    (hassigned : assignmentSecretRe.search t = false)
    (hnames : ∀ s ∈ ["file:", "env:"], s.toList.isPrefixOf t = false) : isSensitive t = false := by
  obtain ⟨hblank, hslash, hbackslash, hpoint, hat, -⟩ :
      ' ' ∉ t ∧ '/' ∉ t ∧ '\\' ∉ t ∧ '.' ∉ t ∧ '@' ∉ t ∧ True := by
    simpa using hother
  have hnamed : ["file:", "env:"].any (fun s => s.toList.isPrefixOf t) = false :=
    List.any_eq_false.mpr fun s hs => Bool.eq_false_iff.mp (hnames s hs)
  unfold isSensitive
  simp only [lower_eq_self hlower, not_infix_begin hblank, any_bearer_eq_false hblank, hnamed,
    hassigned, jwtRe_eq_false hpoint, userinfoRe_eq_false hat,
    accessKeyRe_eq_false fun c hc => (hlower c hc).2, hslash, hbackslash, decide_false,
    Bool.or_false]

/-- **A digest passes the inspection.** -/
theorem isSensitive_of_isDigest {s : String} (h : isDigest s = true) :
    isSensitive s.toList = false := by
  obtain ⟨t, hs, ht⟩ := toList_of_isDigest h
  rw [hs]
  refine isSensitive_eq_false ?_ ?_ (assignmentSecretRe_digest ht) ?_
  · have hfirst : ∀ c ∈ "sha256".toList, c.toNat < 0x80 ∧ c.isUpper = false := by
      rw [← List.all_iff_forall_prop]
      decide
    intro c hc
    rcases List.mem_append.mp hc with hc | hc
    · exact hfirst c hc
    · rcases List.mem_cons.mp hc with rfl | hc
      · decide
      · exact isHex_ascii (ht c hc)
  · intro c hc
    have hdigit : isHex c = false ∧ c ≠ ':' ∧ c ∉ "sha256".toList := by
      revert c
      rw [← List.all_iff_forall_prop]
      decide
    exact List.not_mem_append hdigit.2.2
      (List.not_mem_cons_of_ne_of_not_mem hdigit.2.1 (notMem_of_isHex ht hdigit.1))
  · intro s hs
    simp only [List.mem_cons, List.not_mem_nil, or_false] at hs
    rcases hs with rfl | rfl <;> rfl

/-- A word with underscores. -/
def isWord (t : Text) : Bool := t.all fun c => ('a' ≤ c && c ≤ 'z') || c = '_'

/-- **A word with underscores passes the inspection.** -/
theorem isSensitive_of_isWord {t : Text} (h : isWord t = true) : isSensitive t = false := by
  -- Only small letters and underscores: no capital, no digit and none of `:` and `=`.
  have hchar : ∀ c ∈ t, (97 ≤ c.toNat ∧ c.toNat ≤ 122) ∨ c = '_' := by
    intro c hc
    have hword := List.all_eq_true.mp h c hc
    simp only [Bool.or_eq_true, Bool.and_eq_true, decide_eq_true_eq, Char.le_def,
      UInt32.le_iff_toNat_le, Char.toNat_val] at hword
    exact hword
  have hnotMem : ∀ c : Char, c.toNat < 97 → c ≠ '_' → c ∉ t := by
    intro c hlt hne hmem
    rcases hchar c hmem with hletter | hunder
    · omega
    · exact hne hunder
  refine isSensitive_eq_false ?_ ?_ ?_ ?_
  · intro c hc
    rcases hchar c hc with hletter | rfl
    · refine ⟨by omega, ?_⟩
      unfold Char.isUpper
      simp only [decide_eq_false_iff_not, ge_iff_le, UInt32.le_iff_toNat_le,
        Char.toNat_val]
      have hZ : 'Z'.toNat = 90 := rfl
      omega
    · decide
  · intro c hc
    refine hnotMem c ?_ ?_
    all_goals
      revert c
      rw [← List.all_iff_forall_prop]
      decide
  · rw [Bool.eq_false_iff, Ne, search, searchFrom_iff]
    rintro ⟨x, w, a, rfl, u, v, rfl, -, sp, v', rfl, -, c, rfl, hc⟩
    have hc : c = ':' ∨ c = '=' := by simpa using hc
    refine hnotMem c ?_ ?_ (by simp)
    · rcases hc with rfl | rfl <;> decide
    · rcases hc with rfl | rfl <;> decide
  · intro s hs
    rw [Bool.eq_false_iff, Ne, List.isPrefixOf_iff_prefix]
    intro hfirst
    have hcolon : ∀ s ∈ ["file:", "env:"], ':' ∈ s.toList := by decide
    exact hnotMem ':' (by decide) (by decide) (hfirst.subset (hcolon s hs))

/-! ### Documents are clean -/

variable {k : Listing} {p : Part}

theorem clean_text (p : Part) (m : Mode) : Clean (.str (p.text m)) := by
  refine clean_str (isSensitive_of_isWord ?_)
  cases p <;> cases m <;> decide

theorem clean_modeDict (p : Part) (m : Mode) : Clean (modeDict p m) :=
  clean_dict (show ∀ k ∈ ["mode"], k ∈ schemaKeys by decide) (List.pairwise_singleton _ _)
    (List.forall_mem_cons.mpr ⟨clean_text p m, nofun⟩)

/-- The texts of an item were inspected when they were taken, or are digests. -/
theorem Item.safe (i : Item k) :
    isSensitive i.first.toList = false ∧ isSensitive i.second.toList = false := by
  obtain ⟨first, second, h⟩ := i
  have hid : ∀ {s t : String} {name : String}, safeId (.str s) name = .ok t →
      s = t ∧ isSensitive s.toList = false := by
    intro s t name hs
    obtain ⟨heq, -, hsafe, -⟩ := safeId_eq_ok.mp hs
    obtain rfl := Value.str.inj heq
    exact ⟨rfl, hsafe⟩
  cases k
  all_goals
    obtain ⟨x, hx, h⟩ := bind_eq_ok.mp h
    obtain ⟨y, hy, h⟩ := bind_eq_ok.mp h
  · exact ⟨(hid hx).2, (hid hy).2⟩
  · exact ⟨(hid hx).2, (hid hy).2⟩
  · obtain ⟨heq, -, hdigest⟩ := sha256_eq_ok.mp hy
    obtain rfl := Value.str.inj heq
    exact ⟨(hid hx).2, isSensitive_of_isDigest hdigest⟩

theorem Item.clean_toDict (i : Item k) : Clean i.toDict := by
  obtain ⟨hfirst, hsecond⟩ := i.safe
  have hfields : ∀ {m n : String} {s t : String}, Clean (.str s) → Clean (.str t) →
      ∀ f ∈ [(m, Value.str s), (n, Value.str t)], Clean f.2 :=
    fun hs ht => List.forall_mem_cons.mpr ⟨hs, List.forall_mem_cons.mpr ⟨ht, nofun⟩⟩
  cases k
  · exact clean_dict (show ∀ k ∈ ["provider", "reference_id"], k ∈ schemaKeys by decide)
      (show ["provider", "reference_id"].Pairwise (· < ·) by decide)
      (hfields (clean_str hfirst) (clean_str hsecond))
  · exact clean_dict (show ∀ k ∈ ["allocation_id", "device_class"], k ∈ schemaKeys by decide)
      (show ["allocation_id", "device_class"].Pairwise (· < ·) by decide)
      (hfields (clean_str hsecond) (clean_str hfirst))
  · exact clean_dict (show ∀ k ∈ ["policy_digest", "policy_id"], k ∈ schemaKeys by decide)
      (show ["policy_digest", "policy_id"].Pairwise (· < ·) by decide)
      (hfields (clean_str hsecond) (clean_str hfirst))

theorem clean_map {α : Type} {l : List α} {write : α → Value} (h : ∀ a ∈ l, Clean (write a)) :
    Clean (.list (l.map write)) := by
  refine clean_list fun v hv => ?_
  obtain ⟨a, ha, rfl⟩ := List.mem_map.mp hv
  exact h a ha

theorem ListingPolicy.clean_toDict (q : ListingPolicy k) : Clean q.toDict := by
  have hmode : Clean (.str (k.part.text q.mode)) := clean_text _ _
  have hitems : Clean (.list (q.listed.items.map Item.toDict)) :=
    clean_map fun i _ => i.clean_toDict
  cases k
  · exact clean_dict (show ∀ k ∈ ["mode", "references"], k ∈ schemaKeys by decide)
      (show ["mode", "references"].Pairwise (· < ·) by decide)
      (List.forall_mem_cons.mpr ⟨hmode, List.forall_mem_cons.mpr ⟨hitems, nofun⟩⟩)
  · exact clean_dict (show ∀ k ∈ ["devices", "mode"], k ∈ schemaKeys by decide)
      (show ["devices", "mode"].Pairwise (· < ·) by decide)
      (List.forall_mem_cons.mpr ⟨hitems, List.forall_mem_cons.mpr ⟨hmode, nofun⟩⟩)
  · exact clean_dict (show ∀ k ∈ ["hooks", "mode"], k ∈ schemaKeys by decide)
      (show ["hooks", "mode"].Pairwise (· < ·) by decide)
      (List.forall_mem_cons.mpr ⟨hitems, List.forall_mem_cons.mpr ⟨hmode, nofun⟩⟩)

theorem SandboxPolicyRequest.clean_toDict (r : SandboxPolicyRequest) : Clean r.toDict := by
  have hsnapshot : Clean r.snapshotScrub.toDict :=
    clean_dict (show ∀ k ∈ ["enabled", "scrub_required"], k ∈ schemaKeys by decide)
      (show ["enabled", "scrub_required"].Pairwise (· < ·) by decide)
      (List.forall_mem_cons.mpr ⟨clean_bool _, List.forall_mem_cons.mpr ⟨clean_bool _, nofun⟩⟩)
  refine clean_dict (show ∀ k ∈ ["audit", "binary_policy", "device_access", "egress",
    "schema_version", "secret_delivery", "snapshot_scrub"], k ∈ schemaKeys by decide)
    (show ["audit", "binary_policy", "device_access", "egress", "schema_version",
      "secret_delivery", "snapshot_scrub"].Pairwise (· < ·) by decide) ?_
  simp only [List.forall_mem_cons]
  exact ⟨clean_modeDict _ _, r.binaryPolicy.clean_toDict, r.deviceAccess.clean_toDict,
    clean_modeDict _ _, clean_version, r.secretDelivery.clean_toDict, hsnapshot, nofun⟩

theorem SandboxPolicyCapabilities.clean_toDict (c : SandboxPolicyCapabilities) :
    Clean c.toDict := by
  have hmodes : ∀ {p : Part} (s : ModeSet p), Clean s.toValue :=
    fun {p} s => clean_map fun m _ => clean_text p m
  have hitems : ∀ {k : Listing} (s : ItemSet k), Clean s.toValue :=
    fun s => clean_map fun i _ => i.clean_toDict
  refine clean_dict (show ∀ k ∈ ["audit_modes", "binary_policy_hooks", "binary_policy_modes",
    "device_access_modes", "device_requests", "egress_modes", "schema_version",
    "secret_delivery_modes", "secret_references", "snapshot_scrub_required", "snapshots_enabled"],
    k ∈ schemaKeys by decide) (show ["audit_modes", "binary_policy_hooks", "binary_policy_modes",
    "device_access_modes", "device_requests", "egress_modes", "schema_version",
    "secret_delivery_modes", "secret_references", "snapshot_scrub_required",
    "snapshots_enabled"].Pairwise (· < ·) by decide) ?_
  simp only [List.forall_mem_cons]
  exact ⟨hmodes _, hitems _, hmodes _, hmodes _, hitems _, hmodes _, clean_version, hmodes _,
    hitems _, clean_bool _, clean_bool _, nofun⟩

theorem PolicyPreflightIssue.clean_toDict (i : PolicyPreflightIssue) : Clean i.toDict := by
  have hcode : Clean (.str i.code.text) := by
    refine clean_str (isSensitive_of_isWord ?_)
    cases i.code <;> decide
  have hfield : Clean (.str i.field) := by
    rw [i.agree]
    refine clean_str (isSensitive_of_isWord ?_)
    cases i.code <;> decide
  exact clean_dict (show ∀ k ∈ ["code", "field"], k ∈ schemaKeys by decide)
    (show ["code", "field"].Pairwise (· < ·) by decide)
    (List.forall_mem_cons.mpr ⟨hcode, List.forall_mem_cons.mpr ⟨hfield, nofun⟩⟩)

theorem PolicyPreflightResult.clean_toDict (r : PolicyPreflightResult) : Clean r.toDict := by
  refine clean_dict (show ∀ k ∈ ["issues", "schema_version", "supported"], k ∈ schemaKeys by decide)
    (show ["issues", "schema_version", "supported"].Pairwise (· < ·) by decide) ?_
  simp only [List.forall_mem_cons]
  exact ⟨clean_map fun i _ => i.clean_toDict, clean_version, clean_bool _, nofun⟩

end Palimpsest.Policy
