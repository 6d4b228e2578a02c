import Palimpsest.Control.Message
import Palimpsest.Lib.JsonEq
import Palimpsest.Lib.JsonWidth

/-!
# What a monitor is bound to

The identity of a process, which the journal names as its writer, and the binding of a monitor
to one run, one domain and one boot. Each is written as a dictionary and read back from one,
its fields in whatever order (`Palimpsest.Monitor.processFromDict_sorted`). A value that does
not pass the checks of its constructor cannot be built.
-/

namespace Palimpsest.Monitor

open Json Control

/-! ### Texts -/

/-- `^[a-z0-9][a-z0-9-]{0,62}$` -/
def isRunName (s : String) : Bool :=
  match s.toList with
  | [] => false
  | c :: l => (c.isLower || c.isDigit) && l.length ≤ 62 &&
      l.all fun c => c.isLower || c.isDigit || c = '-'

abbrev RunName := {s : String // isRunName s}

/-- `_canonical_bytes`, with the newline that ends a journal. -/
def canonicalBytes (v : Value) : Option (List UInt8) :=
  (dumps v).map fun t => encodeUtf8 t ++ [10]

theorem encodeUtf8_newline : encodeUtf8 ['\n'] = [10] := by decide

/-- What was written is read as the value, with its fields in order. -/
theorem loads_of_canonicalBytes {v : Value} (hv : v.Distinct) {content : List UInt8}
    (h : canonicalBytes v = some content) :
    ∃ t, decodeUtf8 content = some t ∧ loads t = .ok v.sorted ∧
      canonicalBytes v.sorted = some content := by
  obtain ⟨t, ht, rfl⟩ := Option.map_eq_some_iff.mp h
  refine ⟨t ++ ['\n'], ?_, ?_, ?_⟩
  · rw [← encodeUtf8_newline, ← encodeUtf8_append, decodeUtf8_encodeUtf8]
  · exact loads_dumps_append hv ht (endsNumber_cons (by decide) []) rfl
  · rwa [canonicalBytes, dumps_sorted]

/-! ### How long texts are -/

theorem length_canonicalBytes_le {v : Value} {content : List UInt8}
    (h : canonicalBytes v = some content) : 0 < content.length ∧ content.length ≤ v.width + 1 := by
  obtain ⟨t, ht, rfl⟩ := Option.map_eq_some_iff.mp h
  have hwidth := byteLength_dumps_le ht
  rw [List.length_append, length_encodeUtf8, List.length_singleton]
  omega

theorem isPlain_of_mem_uuid (u : Uuid) {c : Char} (hc : c ∈ u.1.toList) : isPlain c := by
  have h := u.2
  simp only [isUuid, Bool.and_eq_true, decide_eq_true_eq, List.all_eq_true] at h
  obtain ⟨i, hi⟩ := List.mem_iff_getElem?.mp hc
  have hci := h.2 (c, i) (List.mk_mem_zipIdx_iff_getElem?.mpr hi)
  dsimp only at hci
  split at hci
  · obtain rfl : c = '-' := of_decide_eq_true hci
    decide
  · exact isPlain_of_isHex hci

theorem length_uuid (u : Uuid) : u.1.toList.length = 36 := by
  have h := u.2
  simp only [isUuid, Bool.and_eq_true, decide_eq_true_eq] at h
  exact h.1

theorem width_uuid (u : Uuid) : (Value.str u.1).width = 38 := by
  rw [Value.width, byteLength_quote_of_plain fun c => isPlain_of_mem_uuid u, length_uuid]

theorem width_digest (u : Digest) : (Value.str u.1).width = 73 := by
  have h := u.2
  simp only [isDigest, Bool.and_eq_true, decide_eq_true_eq, List.all_eq_true] at h
  have hlist := List.take_append_drop 7 u.1.toList
  rw [h.1.1] at hlist
  rw [Value.width, byteLength_quote_of_plain, ← hlist, List.length_append, h.1.2]
  · rfl
  have hprefix : ∀ c ∈ "sha256:".toList, isPlain c := List.all_eq_true.mp (by decide)
  intro c hc
  rw [← hlist] at hc
  rcases List.mem_append.mp hc with hc | hc
  · exact hprefix c hc
  · exact isPlain_of_isHex (h.2 c hc)

theorem width_runName (u : RunName) : (Value.str u.1).width ≤ 65 := by
  have h := u.2
  have halnum : ∀ c : Char, (c.isLower || c.isDigit) = true → isPlain c := by
    intro c hc
    rw [Bool.or_eq_true] at hc
    rcases hc with hc | hc
    · unfold Char.isLower at hc
      simp only [ge_iff_le, Bool.and_eq_true, decide_eq_true_eq] at hc
      exact isPlain_of_le (a := 'a') (b := 'z') hc.1 hc.2 (by decide)
    · simp only [Char.isDigit, ge_iff_le, Bool.and_eq_true, decide_eq_true_eq] at hc
      exact isPlain_of_le (a := '0') (b := '9') hc.1 hc.2 (by decide)
  rw [isRunName] at h
  split at h
  · cases h
  · next c l hl =>
    simp only [Bool.and_eq_true, decide_eq_true_eq, List.all_eq_true] at h
    rw [Value.width, byteLength_quote_of_plain, hl, List.length_cons]
    · omega
    rw [hl]
    refine List.forall_mem_cons.mpr ⟨halnum c h.1.1, fun d hd => ?_⟩
    have hcases := h.2 d hd
    rw [Bool.or_eq_true] at hcases
    rcases hcases with hd | hd
    · exact halnum d hd
    · obtain rfl : d = '-' := of_decide_eq_true hd
      decide

/-- A number of at most twenty digits. -/
theorem width_natCast {n : ℕ} (h : n < 10 ^ 20) : (Value.int n).width ≤ 21 := by
  have := length_natText_le (by decide) h
  rw [Value.width, Int.natAbs_natCast]
  omega

/-! ### Fields -/

theorem field_sorted {d : List (String × Value)} (hd : (keys d).Nodup) (k : String) :
    field (sortFields (Value.sortedFields d)) k = (field d k).sorted := by
  rw [field, field, lookup_sorted hd]
  cases lookup k d <;> rfl

/-- A string in canonical UUID form. -/
def asUuid : Value → Option Uuid
  | .str s => if h : isUuid s then some ⟨s, h⟩ else none
  | _ => none

/-- A string that is a digest. -/
def asDigest : Value → Option Digest
  | .str s => if h : isDigest s then some ⟨s, h⟩ else none
  | _ => none

/-- An integer that is not negative. -/
def asNat : Value → Option ℕ
  | .int z => if 0 ≤ z then some z.toNat else none
  | _ => none

@[simp]
theorem asUuid_str (u : Uuid) : asUuid (.str u.1) = some u := dif_pos u.2

@[simp]
theorem asDigest_str (u : Digest) : asDigest (.str u.1) = some u := dif_pos u.2

@[simp]
theorem asNat_int (n : ℕ) : asNat (.int n) = some n := by
  simp [asNat]

/-- A value that may be `None`. -/
def orNull {α : Type} (f : α → Value) : Option α → Value
  | some a => f a
  | none => .null

theorem isSome_dumps_orNull {α : Type} {f : α → Value} {o : Option α}
    (h : ∀ a ∈ o, (dumps (f a)).isSome) : (dumps (orNull f o)).isSome := by
  cases o with
  | none => rfl
  | some a => exact h a rfl

theorem width_orNull_le {α : Type} {f : α → Value} {o : Option α} {m : ℕ} (hm : 4 ≤ m)
    (h : ∀ a ∈ o, (f a).width ≤ m) : (orNull f o).width ≤ m := by
  cases o with
  | none => exact hm
  | some a => exact h a rfl

theorem distinct_orNull {α : Type} {f : α → Value} (h : ∀ a, (f a).Distinct) (o : Option α) :
    (orNull f o).Distinct := by
  cases o with
  | none => trivial
  | some a => exact h a

/-! ### Processes -/

/-- A process: the number it has and since when, on a host that was booted once. -/
structure MonitorProcessIdentity where
  pid : ℕ
  hostBootId : Uuid
  startTicks : ℕ
  pid_pos : 0 < pid
  deriving DecidableEq

namespace MonitorProcessIdentity

/-- `to_dict` -/
def fields (p : MonitorProcessIdentity) : List (String × Value) :=
  [("host_boot_id", .str p.hostBootId.1), ("pid", .int p.pid), ("start_ticks", .int p.startTicks)]

def toValue (p : MonitorProcessIdentity) : Value := .dict p.fields

/-- `from_dict` -/
def fromDict (v : Value) : Option MonitorProcessIdentity :=
  match v with
  | .dict d =>
    if hasKeys d ["host_boot_id", "pid", "start_ticks"] then do
      let pid ← asNat (field d "pid")
      let hostBootId ← asUuid (field d "host_boot_id")
      let startTicks ← asNat (field d "start_ticks")
      if h : 0 < pid then some ⟨pid, hostBootId, startTicks, h⟩ else none
    else none
  | _ => none

theorem keys_nodup (p : MonitorProcessIdentity) : (keys p.fields).Nodup := by
  simp [fields, keys]

/-- The numbers are of the size a kernel gives them. -/
def Sized (p : MonitorProcessIdentity) : Prop := p.pid < 2 ^ 64 ∧ p.startTicks < 2 ^ 64

theorem isSome_dumps {p : MonitorProcessIdentity} (h : p.Sized) : (dumps p.toValue).isSome := by
  have hpid := isSome_dumps_natCast (Nat.lt_trans h.1 (by decide : 2 ^ 64 < 10 ^ 20))
  have hticks := isSome_dumps_natCast (Nat.lt_trans h.2 (by decide : 2 ^ 64 < 10 ^ 20))
  simp [toValue, fields, hpid, hticks]

theorem width_le {p : MonitorProcessIdentity} (h : p.Sized) : p.toValue.width ≤ 154 := by
  have hwidth : ∀ f ∈ p.fields, f.2.width ≤ 38 := by
    simp only [fields, List.forall_mem_cons, width_uuid]
    have hpid := width_natCast (Nat.lt_trans h.1 (by decide : 2 ^ 64 < 10 ^ 20))
    have hticks := width_natCast (Nat.lt_trans h.2 (by decide : 2 ^ 64 < 10 ^ 20))
    exact ⟨by omega, by omega, by omega, fun f hf => absurd hf List.not_mem_nil⟩
  have hfields := Value.widthFields_le (l := ["host_boot_id", "pid", "start_ticks"])
    (n := 32) rfl (by decide) hwidth
  rw [toValue, Value.width]
  exact Nat.add_le_add_right hfields 2

/-- A process is read back. -/
theorem fromDict_sorted (p : MonitorProcessIdentity) : fromDict p.toValue.sorted = some p := by
  have hfield := field_sorted p.keys_nodup
  rw [toValue, Value.sorted, fromDict, if_pos (by rw [hasKeys_sorted]; rfl)]
  rw [hfield, hfield, hfield, show field p.fields "pid" = .int p.pid from rfl,
    show field p.fields "host_boot_id" = .str p.hostBootId.1 from rfl,
    show field p.fields "start_ticks" = .int p.startTicks from rfl]
  simp [Value.sorted, p.pid_pos]

end MonitorProcessIdentity

end Palimpsest.Monitor
