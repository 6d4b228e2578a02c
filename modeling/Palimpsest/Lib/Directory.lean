import Mathlib.Data.List.Basic
import Mathlib.Data.List.Count
import Mathlib.Logic.Function.Basic

/-!
# A directory of files

A directory gives names to files, and a file may have several names or none: its content and
its attributes are kept under its number, and the number of its names is counted. The
operations are those a program calls one at a time, so that a program killed between two of
them leaves the directory of the operations it made.

What an operation does is said name by name: `Palimpsest.Directory.Sees` is what a look at a
name finds (the file and how many names it has), and each operation has a lemma for the names
it is about and one for the others.
-/

namespace Palimpsest

/-- A file under its number. -/
structure Inode where
  content : List UInt8
  mode : ℕ
  uid : ℕ
  regular : Bool
  deriving DecidableEq

/-- Names for files, and the files. -/
structure Directory where
  entries : List (String × ℕ)
  inodes : ℕ → Inode
  next : ℕ

namespace Directory

/-- The number of the file of a name. -/
def find (d : Directory) (name : String) : Option ℕ :=
  (d.entries.find? fun e => e.1 = name).map Prod.snd

/-- How many names a file has. -/
def links (d : Directory) (i : ℕ) : ℕ := d.entries.countP fun e => e.2 = i

/-! ### Operations -/

/-- `open` with `O_CREAT | O_EXCL`: a new file, unless the name is taken. -/
def create (d : Directory) (name : String) (mode uid : ℕ) : Option Directory :=
  if (d.find name).isSome then none
  else some
    { entries := (name, d.next) :: d.entries
      inodes := Function.update d.inodes d.next ⟨[], mode, uid, true⟩
      next := d.next + 1 }

def chmod (d : Directory) (i mode : ℕ) : Directory :=
  { d with inodes := Function.update d.inodes i { d.inodes i with mode := mode } }

/-- `write` at the end of a file. -/
def append (d : Directory) (i : ℕ) (bytes : List UInt8) : Directory :=
  { d with
    inodes := Function.update d.inodes i
      { d.inodes i with content := (d.inodes i).content ++ bytes } }

/-- A file becomes another one under the same number. -/
def put (d : Directory) (i : ℕ) (f : Inode) : Directory :=
  { d with inodes := Function.update d.inodes i f }

/-- A file that comes from elsewhere, unless the name is taken. -/
def place (d : Directory) (name : String) (f : Inode) : Directory :=
  match d.create name f.mode f.uid with
  | some d' => d'.put d.next f
  | none => d

/-- A second name for a file, unless the name is taken. -/
def link (d : Directory) (source target : String) : Option Directory :=
  match d.find source, d.find target with
  | some i, none => some { d with entries := (target, i) :: d.entries }
  | _, _ => none

def unlink (d : Directory) (name : String) : Option Directory :=
  if (d.find name).isSome then
    some { d with entries := d.entries.filter fun e => e.1 ≠ name }
  else none

/-- `rename`: the target names the file from now on. Two names of one file are left alone. -/
def replace (d : Directory) (source target : String) : Option Directory :=
  match d.find source with
  | none => none
  | some i =>
    if d.find target = some i then some d
    else some
      { d with entries := (target, i) :: d.entries.filter fun e => e.1 ≠ source ∧ e.1 ≠ target }

/-- `renameat2` with `RENAME_NOREPLACE`. -/
def rename (d : Directory) (source target : String) : Option Directory :=
  if (d.find target).isSome then none else d.replace source target

/-! ### Well-formed directories -/

/-- A name stands once, and new files get numbers that no name has. -/
structure WellFormed (d : Directory) : Prop where
  nodup : (d.entries.map Prod.fst).Nodup
  lt_next : ∀ e ∈ d.entries, e.2 < d.next

variable {d d' : Directory} {name other : String} {i j mode uid : ℕ} {bytes : List UInt8}

theorem mem_of_find (h : d.find name = some i) : (name, i) ∈ d.entries := by
  obtain ⟨e, he, rfl⟩ := Option.map_eq_some_iff.mp h
  have hname := List.find?_some he
  obtain rfl : e.1 = name := of_decide_eq_true hname
  exact List.mem_of_find?_eq_some he

theorem WellFormed.find_of_mem (hd : d.WellFormed) (h : (name, i) ∈ d.entries) :
    d.find name = some i := by
  obtain ⟨entries, inodes, next⟩ := d
  have hnodup := hd.nodup
  simp only [find] at h hnodup ⊢
  induction entries with
  | nil => cases h
  | cons e entries ih =>
    obtain ⟨hnot, hnodup⟩ := List.nodup_cons.mp hnodup
    rw [List.find?_cons]
    rcases List.mem_cons.mp h with rfl | h
    · simp
    · have hne : e.1 ≠ name := fun heq => hnot (heq ▸ List.mem_map_of_mem (f := Prod.fst) h)
      rw [decide_eq_false hne]
      exact ih ⟨hnodup, fun e he => hd.lt_next e (List.mem_cons_of_mem _ he)⟩ h hnodup

theorem find_eq_none_iff : d.find name = none ↔ ∀ e ∈ d.entries, e.1 ≠ name := by
  simp [find, Option.map_eq_none_iff, List.find?_eq_none]

theorem WellFormed.lt_of_find (hd : d.WellFormed) (h : d.find name = some i) : i < d.next :=
  hd.lt_next _ (mem_of_find h)

/-- A number above all has no name. -/
theorem WellFormed.links_next (hd : d.WellFormed) : d.links d.next = 0 := by
  rw [links, List.countP_eq_zero]
  intro e he
  simpa using Nat.ne_of_lt (hd.lt_next e he)

/-! ### What a name shows -/

/-- What a look at a name finds: the number, the file and how many names it has. -/
def look (d : Directory) (name : String) : Option (ℕ × Inode × ℕ) :=
  (d.find name).map fun i => (i, d.inodes i, d.links i)

theorem look_eq_none : d.look name = none ↔ d.find name = none := by
  simp [look]

theorem look_of_find (h : d.find name = some i) :
    d.look name = some (i, d.inodes i, d.links i) := by
  simp [look, h]

theorem find_of_look {f : Inode} {n : ℕ} (h : d.look name = some (i, f, n)) :
    d.find name = some i ∧ d.inodes i = f ∧ d.links i = n := by
  obtain ⟨j, hj, heq⟩ := Option.map_eq_some_iff.mp h
  obtain ⟨rfl, hrest⟩ := Prod.mk.inj heq
  obtain ⟨rfl, rfl⟩ := Prod.mk.inj hrest
  exact ⟨hj, rfl, rfl⟩

/-! ### Creating -/

theorem WellFormed.create (hd : d.WellFormed) (h : d.create name mode uid = some d') :
    d'.WellFormed := by
  rw [Directory.create] at h
  split at h
  · cases h
  · next hnone =>
    obtain rfl := Option.some.inj h
    have hnone := find_eq_none_iff.mp (Option.not_isSome_iff_eq_none.mp hnone)
    refine ⟨List.nodup_cons.mpr ⟨?_, hd.nodup⟩, ?_⟩
    · rintro hmem
      obtain ⟨e, he, heq⟩ := List.mem_map.mp hmem
      exact hnone e he heq
    · rintro e he
      rcases List.mem_cons.mp he with rfl | he
      · exact Nat.lt_succ_self _
      · exact Nat.lt_succ_of_lt (hd.lt_next e he)

theorem look_create_self (hd : d.WellFormed) (h : d.create name mode uid = some d') :
    d'.look name = some (d.next, ⟨[], mode, uid, true⟩, 1) := by
  rw [Directory.create] at h
  split at h
  · cases h
  · obtain rfl := Option.some.inj h
    have hlinks := hd.links_next
    rw [links] at hlinks
    simp [look, find, links, hlinks]

theorem find_create_of_ne (h : d.create name mode uid = some d') (hne : other ≠ name) :
    d'.find other = d.find other := by
  rw [Directory.create] at h
  split at h
  · cases h
  · obtain rfl := Option.some.inj h
    simp [find, hne.symm]

/-- A new file takes no name away, and is none of the files with a name. -/
theorem find_create_of_find (hi : d.find other = some i)
    (h : d.create name mode uid = some d') : d'.find other = some i := by
  refine (find_create_of_ne h ?_).trans hi
  rintro rfl
  rw [Directory.create, hi] at h
  cases h

theorem inodes_create_of_find (hd : d.WellFormed) (hi : d.find other = some i)
    (h : d.create name mode uid = some d') : d'.inodes i = d.inodes i := by
  rw [Directory.create] at h
  split at h
  · cases h
  · obtain rfl := Option.some.inj h
    exact Function.update_of_ne (Nat.ne_of_lt (hd.lt_of_find hi)) _ _

/-- The other names show what they showed. -/
theorem look_create_of_ne (hd : d.WellFormed) (h : d.create name mode uid = some d')
    (hne : other ≠ name) : d'.look other = d.look other := by
  have hfind := find_create_of_ne h hne
  rw [Directory.create] at h
  split at h
  · cases h
  · obtain rfl := Option.some.inj h
    rw [look, look, hfind]
    refine Option.map_congr fun i hi => ?_
    have hne := Nat.ne_of_lt (hd.lt_of_find hi)
    have hlinks : List.countP (fun e : String × ℕ => decide (e.2 = i))
        ((name, d.next) :: d.entries) = d.links i :=
      List.countP_cons_of_neg (by simpa using Ne.symm hne)
    simp only [links, Function.update_of_ne hne] at hlinks ⊢
    rw [hlinks]

theorem next_create (h : d.create name mode uid = some d') : d'.next = d.next + 1 := by
  rw [Directory.create] at h
  split at h
  · cases h
  · obtain rfl := Option.some.inj h
    rfl

theorem isSome_create {m u : ℕ} : (d.create name m u).isSome ↔ d.find name = none := by
  rw [Directory.create]
  cases d.find name <;> simp

/-! ### Changing a file -/

theorem WellFormed.chmod (hd : d.WellFormed) : (d.chmod i mode).WellFormed :=
  ⟨hd.nodup, hd.lt_next⟩

theorem WellFormed.append (hd : d.WellFormed) : (d.append i bytes).WellFormed :=
  ⟨hd.nodup, hd.lt_next⟩

theorem look_chmod (d : Directory) (i mode : ℕ) (name : String) :
    (d.chmod i mode).look name = (d.look name).map fun (j, f, n) =>
      (j, if j = i then { f with mode := mode } else f, n) := by
  rw [look, look, Option.map_map]
  refine Option.map_congr fun j _ => ?_
  rcases eq_or_ne j i with rfl | hne
  · simp [chmod, links]
  · simp [chmod, links, hne]

/-- A mode that the file has already. -/
theorem chmod_eq_self (h : (d.inodes i).mode = mode) : d.chmod i mode = d := by
  rw [chmod, ← h, Function.update_eq_self]

theorem look_append (d : Directory) (i : ℕ) (bytes : List UInt8) (name : String) :
    (d.append i bytes).look name = (d.look name).map fun (j, f, n) =>
      (j, if j = i then { f with content := f.content ++ bytes } else f, n) := by
  rw [look, look, Option.map_map]
  refine Option.map_congr fun j _ => ?_
  rcases eq_or_ne j i with rfl | hne
  · simp [append, links]
  · simp [append, links, hne]

theorem WellFormed.put {f : Inode} (hd : d.WellFormed) : (d.put i f).WellFormed :=
  ⟨hd.nodup, hd.lt_next⟩

theorem look_put (d : Directory) (i : ℕ) (f : Inode) (name : String) :
    (d.put i f).look name = (d.look name).map fun (j, g, n) => (j, if j = i then f else g, n) := by
  rw [look, look, Option.map_map]
  refine Option.map_congr fun j _ => ?_
  rcases eq_or_ne j i with rfl | hne
  · simp [put, links]
  · simp [put, links, hne]

/-! ### Files from elsewhere -/

theorem place_of_isSome {f : Inode} (h : (d.find name).isSome) : d.place name f = d := by
  rw [place, create, if_pos h]

theorem WellFormed.place {f : Inode} (hd : d.WellFormed) : (d.place name f).WellFormed := by
  rw [Directory.place]
  split
  · next h => exact (hd.create h).put
  · exact hd

theorem look_place_self {f : Inode} (hd : d.WellFormed) (h : d.find name = none) :
    (d.place name f).look name = some (d.next, f, 1) := by
  rw [place]
  split
  · next hc =>
    rw [look_put, look_create_self hd hc, Option.map_some]
    dsimp only
    rw [if_pos rfl]
  · next hc =>
    have hsome := isSome_create (m := f.mode) (u := f.uid) |>.mpr h
    rw [hc] at hsome
    cases hsome

theorem look_place_of_ne {f : Inode} (hd : d.WellFormed) (hne : other ≠ name) :
    (d.place name f).look other = d.look other := by
  rw [place]
  split
  · next d' hc =>
    rw [look_put, look_create_of_ne hd hc hne]
    cases hfind : d.find other with
    | none => rw [look_eq_none.mpr hfind, Option.map_none]
    | some j =>
      rw [look_of_find hfind, Option.map_some]
      dsimp only
      rw [if_neg (Nat.ne_of_lt (hd.lt_of_find hfind))]
  · rfl

/-! ### Naming -/

theorem WellFormed.link (hd : d.WellFormed) {source target : String}
    (h : d.link source target = some d') : d'.WellFormed := by
  rw [Directory.link] at h
  split at h
  · next i hi hnone =>
    obtain rfl := Option.some.inj h
    have hnone := find_eq_none_iff.mp hnone
    refine ⟨List.nodup_cons.mpr ⟨?_, hd.nodup⟩, ?_⟩
    · rintro hmem
      obtain ⟨e, he, heq⟩ := List.mem_map.mp hmem
      exact hnone e he heq
    · rintro e he
      rcases List.mem_cons.mp he with rfl | he
      · exact hd.lt_of_find hi
      · exact hd.lt_next e he
  · cases h

theorem WellFormed.unlink (hd : d.WellFormed) (h : d.unlink name = some d') : d'.WellFormed := by
  rw [Directory.unlink] at h
  split at h
  · obtain rfl := Option.some.inj h
    refine ⟨?_, fun e he => hd.lt_next e (List.mem_filter.mp he).1⟩
    exact hd.nodup.sublist (List.filter_sublist.map _)
  · cases h

theorem WellFormed.replace (hd : d.WellFormed) {source target : String}
    (h : d.replace source target = some d') : d'.WellFormed := by
  rw [Directory.replace] at h
  split at h
  · cases h
  next i hi =>
  split at h
  · obtain rfl := Option.some.inj h
    exact hd
  · obtain rfl := Option.some.inj h
    refine ⟨List.nodup_cons.mpr ⟨?_, hd.nodup.sublist (List.filter_sublist.map _)⟩, ?_⟩
    · rintro hmem
      obtain ⟨e, he, heq⟩ := List.mem_map.mp hmem
      have := (List.mem_filter.mp he).2
      simp [heq] at this
    · rintro e he
      rcases List.mem_cons.mp he with rfl | he
      · exact hd.lt_of_find hi
      · exact hd.lt_next e (List.mem_filter.mp he).1

theorem WellFormed.rename (hd : d.WellFormed) {source target : String}
    (h : d.rename source target = some d') : d'.WellFormed := by
  rw [Directory.rename] at h
  split at h
  · cases h
  · exact hd.replace h

/-! ### What a name shows after names changed -/

/-- The names of a file when one name is taken out. -/
theorem countP_filter_ne {entries : List (String × ℕ)} (hnodup : (entries.map Prod.fst).Nodup)
    (hmem : (name, i) ∈ entries) (j : ℕ) :
    entries.countP (fun e => e.2 = j) =
      (entries.filter fun e => e.1 ≠ name).countP (fun e => e.2 = j) + if i = j then 1 else 0 := by
  induction entries with
  | nil => cases hmem
  | cons e entries ih =>
    obtain ⟨hnot, hnodup⟩ := List.nodup_cons.mp hnodup
    by_cases he : e.1 = name
    · -- the name stands here, so it stands nowhere else
      have hrest : entries.filter (fun e => e.1 ≠ name) = entries := by
        refine List.filter_eq_self.mpr fun f hf => ?_
        have hne : f.1 ≠ name := fun heq =>
          hnot (he ▸ heq ▸ List.mem_map_of_mem (f := Prod.fst) hf)
        simpa using hne
      have hi : e.2 = i := by
        rcases List.mem_cons.mp hmem with heq | hmem
        · rw [← heq]
        · exact absurd (he ▸ List.mem_map_of_mem (f := Prod.fst) hmem) hnot
      rw [List.filter_cons_of_neg (by simpa using he), hrest, List.countP_cons, hi]
      simp
    · have hmem : (name, i) ∈ entries := by
        rcases List.mem_cons.mp hmem with heq | hmem
        · exact absurd (heq ▸ rfl) he
        · exact hmem
      rw [List.filter_cons_of_pos (by simpa using he), List.countP_cons, List.countP_cons,
        ih hnodup hmem]
      omega

theorem find_filter (d : Directory) (P : String → Bool) (hname : P name) :
    ((d.entries.filter fun e => P e.1).find? fun e => e.1 = name).map Prod.snd = d.find name := by
  rw [List.find?_filter, find]
  congr 2
  funext e
  by_cases he : e.1 = name
  · simp [he, hname]
  · simp [he]

/-- A file with one name has no other. -/
theorem WellFormed.ne_of_links (hd : d.WellFormed) (h : d.find name = some i)
    (h' : d.find other = some j) (hne : name ≠ other) (hlinks : d.links i = 1) : j ≠ i := by
  rintro rfl
  have hcount := countP_filter_ne hd.nodup (mem_of_find h) j
  have hother : 0 < (d.entries.filter fun e => e.1 ≠ name).countP fun e => e.2 = j := by
    refine List.countP_pos_iff.mpr ⟨(other, j), List.mem_filter.mpr ⟨mem_of_find h', ?_⟩, ?_⟩
    · simpa using hne.symm
    · simp
  rw [links] at hlinks
  rw [hlinks, if_pos rfl] at hcount
  omega

/-- A new name: the file has one name more. -/
theorem look_link_of_ne {source target : String} (hi : d.find source = some i)
    (h : d.link source target = some d') (hne : other ≠ target) :
    d'.look other = (d.look other).map fun (j, f, n) => (j, f, if j = i then n + 1 else n) := by
  rw [Directory.link, hi] at h
  split at h
  · next k hk _ =>
    obtain rfl := Option.some.inj hk
    obtain rfl := Option.some.inj h
    rw [look, look, Option.map_map]
    have hfind : find { d with entries := (target, i) :: d.entries } other = d.find other := by
      simp [find, hne.symm]
    rw [hfind]
    refine Option.map_congr fun j _ => ?_
    rcases eq_or_ne j i with rfl | hji
    · simp [links]
    · simp [links, hji, hji.symm]
  · cases h

theorem link_eq_some {source target : String} (hi : d.find source = some i)
    (htarget : d.find target = none) :
    d.link source target = some { d with entries := (target, i) :: d.entries } := by
  rw [link, hi, htarget]

theorem isSome_unlink : (d.unlink name).isSome ↔ (d.find name).isSome := by
  rw [unlink]
  split <;> simp_all

/-- A name that is there can be removed. -/
theorem unlink_ne_none {x : ℕ × Inode × ℕ} (h : d.look name = some x) : d.unlink name ≠ none := by
  rw [← Option.isSome_iff_ne_none, isSome_unlink]
  cases hfind : d.find name with
  | none =>
    rw [look_eq_none.mpr hfind] at h
    cases h
  | some i => rfl

theorem isSome_replace {source : String} (target : String) :
    (d.replace source target).isSome ↔ (d.find source).isSome := by
  rw [replace]
  split
  · next h => simp [h]
  · next i h =>
    split <;> simp [h]

theorem look_link_target {source target : String} (hi : d.find source = some i)
    (h : d.link source target = some d') :
    d'.look target = some (i, d.inodes i, d.links i + 1) := by
  rw [Directory.link, hi] at h
  split at h
  · next k hk _ =>
    obtain rfl := Option.some.inj hk
    obtain rfl := Option.some.inj h
    simp [look, find, links]
  · cases h

/-- A name less: its file has one name less. -/
theorem look_unlink_of_ne (hd : d.WellFormed) (hi : d.find name = some i)
    (h : d.unlink name = some d') (hne : other ≠ name) :
    d'.look other = (d.look other).map fun (j, f, n) => (j, f, if j = i then n - 1 else n) := by
  rw [Directory.unlink, hi, Option.isSome_some, if_pos rfl] at h
  obtain rfl := Option.some.inj h
  rw [look, look, Option.map_map]
  have hfind : find { d with entries := d.entries.filter fun e => e.1 ≠ name } other =
      d.find other := find_filter d (fun n => n ≠ name) (by simpa using hne)
  rw [hfind]
  refine Option.map_congr fun j _ => ?_
  have hcount := countP_filter_ne hd.nodup (mem_of_find hi) j
  rcases eq_or_ne j i with rfl | hji
  · simp only [links, hcount, Function.comp_apply, if_pos]
    rfl
  · simp only [links, hcount, Function.comp_apply, if_neg hji, if_neg hji.symm]
    rfl

/-- What is under a name of its own does not lose it with another name. -/
theorem look_unlink_of_single (hd : d.WellFormed) (h : d.unlink name = some d')
    (hne : other ≠ name) (hsingle : ∀ x, d.look other = some x → x.2.2 = 1) :
    d'.look other = d.look other := by
  obtain ⟨i, hi⟩ := Option.isSome_iff_exists.mp (isSome_unlink.mp (by rw [h]; rfl))
  rw [look_unlink_of_ne hd hi h hne]
  cases hlook : d.look other with
  | none => rfl
  | some x =>
    obtain ⟨j, f, n⟩ := x
    obtain ⟨hj, -, hlinks⟩ := find_of_look hlook
    have hij : i ≠ j := hd.ne_of_links hj hi hne (hlinks.trans (hsingle _ hlook))
    rw [Option.map_some]
    dsimp only
    rw [if_neg hij.symm]

theorem look_unlink_self (h : d.unlink name = some d') : d'.look name = none := by
  rw [Directory.unlink] at h
  split at h
  · obtain rfl := Option.some.inj h
    rw [look_eq_none, find_eq_none_iff]
    intro e he
    simpa using (List.mem_filter.mp he).2
  · cases h

theorem inodes_unlink (h : d.unlink name = some d') : d'.inodes = d.inodes := by
  rw [Directory.unlink] at h
  split at h
  · obtain rfl := Option.some.inj h
    rfl
  · cases h

theorem find_unlink_of_ne (h : d.unlink name = some d') (hne : other ≠ name) :
    d'.find other = d.find other := by
  rw [Directory.unlink] at h
  split at h
  · obtain rfl := Option.some.inj h
    exact find_filter d (fun n => n ≠ name) (by simpa using hne)
  · cases h

theorem inodes_link {source target : String} (h : d.link source target = some d') :
    d'.inodes = d.inodes := by
  rw [Directory.link] at h
  split at h
  · obtain rfl := Option.some.inj h
    rfl
  · cases h

/-- A link takes no name away. -/
theorem find_link_of_find {source target : String} (hi : d.find name = some i)
    (h : d.link source target = some d') : d'.find name = some i := by
  rw [Directory.link] at h
  split at h
  · next htarget =>
    obtain rfl := Option.some.inj h
    have hne : target ≠ name := by
      rintro rfl
      rw [hi] at htarget
      cases htarget
    rw [← hi, find, find, List.find?_cons_of_neg (by simpa using hne)]
  · cases h

theorem inodes_replace {source target : String} (h : d.replace source target = some d') :
    d'.inodes = d.inodes := by
  rw [Directory.replace] at h
  split at h
  · cases h
  · split at h <;> exact Option.some.inj h ▸ rfl

/-- A name that is not the target shows what it showed, or is the source and is gone. -/
theorem find_replace_of_ne {source target : String} (h : d.replace source target = some d')
    (hne : other ≠ target) :
    d'.find other = d.find other ∨ other = source ∧ d'.find other = none := by
  rw [Directory.replace] at h
  split at h
  · cases h
  split at h
  · exact Or.inl (Option.some.inj h ▸ rfl)
  · next i _ _ =>
    obtain rfl := Option.some.inj h
    have hcons : find
        { d with entries := (target, i) :: d.entries.filter fun e => e.1 ≠ source ∧ e.1 ≠ target }
        other = ((d.entries.filter fun e => e.1 ≠ source ∧ e.1 ≠ target).find?
          fun e => e.1 = other).map Prod.snd := by
      rw [find, List.find?_cons_of_neg (by simpa using hne.symm)]
    by_cases hs : other = source
    · refine Or.inr ⟨hs, ?_⟩
      rw [hcons, Option.map_eq_none_iff, List.find?_eq_none]
      intro e he
      have hsource : e.1 ≠ source := (of_decide_eq_true (List.mem_filter.mp he).2).1
      simpa [hs] using hsource
    · rw [hcons]
      exact Or.inl (find_filter d (fun n => n ≠ source ∧ n ≠ target) (by simpa using ⟨hs, hne⟩))

/-- A file takes the place of another: the target shows it, with as many names as before, and
the name it had is gone. -/
theorem look_replace (hd : d.WellFormed) {source target : String} (hi : d.find source = some i)
    (hne : source ≠ target) (htarget : d.find target ≠ some i)
    (h : d.replace source target = some d') :
    d'.look target = some (i, d.inodes i, d.links i) ∧ d'.look source = none := by
  rw [Directory.replace, hi] at h
  dsimp only at h
  rw [if_neg htarget] at h
  obtain rfl := Option.some.inj h
  constructor
  · have hcount := countP_filter_ne hd.nodup (mem_of_find hi) i
    have hrest : ((d.entries.filter fun e => e.1 ≠ source ∧ e.1 ≠ target).countP
        fun e => e.2 = i) = (d.entries.filter fun e => e.1 ≠ source).countP fun e => e.2 = i := by
      rw [List.countP_filter, List.countP_filter]
      refine List.countP_congr fun e he => ?_
      have hother : e.2 = i → e.1 ≠ target := fun heq htgt => by
        refine htarget (hd.find_of_mem ?_)
        rw [← htgt, ← heq]
        exact he
      simp only [Bool.and_eq_true, decide_eq_true_eq]
      exact ⟨fun ⟨hj, hs, _⟩ => ⟨hj, hs⟩, fun ⟨hj, hs⟩ => ⟨hj, hs, hother hj⟩⟩
    simp only [look, find, links, List.find?_cons, decide_true, Option.map_some, hcount,
      List.countP_cons, hrest, if_pos]
  · rw [look_eq_none, find_eq_none_iff]
    intro e he
    rcases List.mem_cons.mp he with rfl | he
    · exact hne.symm
    · have := (List.mem_filter.mp he).2
      simp only [decide_eq_true_eq] at this
      exact this.1

/-- The other names show what they showed, but for the names of the file that was replaced. -/
theorem look_replace_of_ne (hd : d.WellFormed) {source target : String}
    (hi : d.find source = some i) (htarget : d.find target ≠ some i)
    (h : d.replace source target = some d') (hs : other ≠ source) (ht : other ≠ target)
    (hj : d.find other = some j) (hjt : d.find target ≠ some j) :
    d'.look other = d.look other := by
  rw [Directory.replace, hi] at h
  dsimp only at h
  rw [if_neg htarget] at h
  obtain rfl := Option.some.inj h
  have hfind : find
      { d with entries := (target, i) :: d.entries.filter fun e => e.1 ≠ source ∧ e.1 ≠ target }
      other = d.find other := by
    rw [find, List.find?_cons_of_neg (by simpa using ht.symm)]
    exact find_filter d (fun n => n ≠ source ∧ n ≠ target) (by simpa using ⟨hs, ht⟩)
  have hcount := countP_filter_ne hd.nodup (mem_of_find hi) j
  have hrest : ((d.entries.filter fun e => e.1 ≠ source ∧ e.1 ≠ target).countP
      fun e => e.2 = j) = (d.entries.filter fun e => e.1 ≠ source).countP fun e => e.2 = j := by
    rw [List.countP_filter, List.countP_filter]
    refine List.countP_congr fun e he => ?_
    have hother : e.2 = j → e.1 ≠ target := fun heq htgt => by
      refine hjt (hd.find_of_mem ?_)
      rw [← htgt, ← heq]
      exact he
    simp only [Bool.and_eq_true, decide_eq_true_eq]
    exact ⟨fun ⟨hj, hs, _⟩ => ⟨hj, hs⟩, fun ⟨hj, hs⟩ => ⟨hj, hs, hother hj⟩⟩
  rw [look, look, hfind, hj]
  simp only [Option.map_some, links, List.countP_cons, hrest, hcount, decide_eq_true_eq]

end Directory

end Palimpsest
